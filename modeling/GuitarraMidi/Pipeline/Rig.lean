import GuitarraMidi.EduCiaa.MainLoop
import GuitarraMidi.Emisora.Loop
import GuitarraMidi.Pipeline.System

/-!
# `Pipeline.Rig` — from the sensors to the synthesiser

`Pipeline.System` has the three programs where they meet: any call of `sendPacket` at one end, and what the receiver
accepts at the other. Here both ends are the programs themselves. `loop()` of the emisora reads its sensors and decides
what to send, and `main` of the EDU-CIAA reads its clock, processes the queue of the scheduler, and plays what it
receives. The links lose nothing: there is no step that drops a packet or a byte.

Of each call of `sendPacket` the state keeps what its pass had read, and of each output of `main` the index of the call
whose packet it was reading. No program sees either.
-/

namespace GuitarraMidi.Rig

structure State where
  emisora : Emisora.Loop
  /-- the calls of `sendPacket`: what the pass had read, the mask and the velocity -/
  sent : List (Emisora.Reading × UInt8 × UInt8)
  air : List (Nat × ChordMessage)
  receptora : Receptora.Globals
  /-- the index of the packet in `lastMsg` -/
  lastIdx : Nat
  uart : List (Nat × UInt8)
  main : EduCiaa.Main
  /-- the clock at the top of the pass that `main` is in -/
  now : UInt32
  /-- what `main` has put out, reading which packet; none for `midiSchedProcess` -/
  out : List (Option Nat × EduCiaa.MainOutput)

/-- All three programs just started; `p` and `q` are what the memory of the EDU-CIAA held before. -/
def start (p : Vector UInt8 8) (q : EduCiaa.Queue) : State where
  emisora := Emisora.Loop.start
  sent := []
  air := []
  receptora := Receptora.start
  lastIdx := 0
  uart := []
  main := EduCiaa.mainStart p q
  now := 0
  out := []

inductive Action
  /-- the emisora makes a pass of `loop` -/
  | emisora (x : Emisora.Reading)
  /-- the oldest packet in flight reaches `OnDataRecv` -/
  | deliver
  /-- the receptora makes a pass of `loop` -/
  | receptora
  /-- `main` begins a pass -/
  | pass (now : UInt32)
  /-- `main` reads a byte -/
  | uartByte

/-- A pass of `loop` on the emisora. -/
def emisoraLoop (s : State) (x : Emisora.Reading) : State :=
  let (emisora, outputs) := Emisora.loop s.emisora x
  let calls := outputs.filterMap Emisora.LoopOutput.send?
  { s with
    emisora := emisora
    sent := s.sent ++ calls.map (fun c => (x, c.1, c.2.1))
    air := s.air ++ (calls.zipIdx s.sent.length).map (fun c => (c.2, c.1.2.2)) }

/-- The top of a pass of `main`. -/
def mainTop (s : State) (now : UInt32) : State :=
  let (q, writes) := EduCiaa.midiSchedProcess now s.main.q
  { s with
    main := { s.main with q := q }
    now := now
    out := s.out ++ writes.map (fun w => (none, .sdi w)) }

/-- One step, if it is possible. -/
def step (s : State) : Action → Option State
  | .emisora x => some (emisoraLoop s x)
  | .deliver =>
      match s.air with
      | [] => none
      | (idx, msg) :: air =>
          some { s with
            air := air
            receptora := (Receptora.onDataRecv s.receptora msg.bytes).1
            lastIdx := idx }
  | .receptora =>
      some { s with
        receptora := (Receptora.loop s.receptora).1
        uart := s.uart ++ Pipeline.written s.lastIdx (Receptora.loop s.receptora).2 }
  | .pass now => some (mainTop s now)
  | .uartByte =>
      match s.uart with
      | [] => none
      | (idx, byte) :: uart =>
          some { s with
            uart := uart
            main := (EduCiaa.mainByte s.now s.main byte).1
            out := s.out ++ (EduCiaa.mainByte s.now s.main byte).2.map (fun o => (some idx, o)) }

/-- A list of steps, if all of them are possible. -/
def run (s : State) (acts : List Action) : Option State := Steps.run step s acts

/-- Everything a step can do. -/
theorem step_cases {s s' : State} {a : Action} (h : step s a = some s') :
    (∃ x, a = .emisora x ∧ s' = emisoraLoop s x) ∨
    (∃ idx msg air, a = .deliver ∧ s.air = (idx, msg) :: air ∧ s' = { s with
        air := air
        receptora := (Receptora.onDataRecv s.receptora msg.bytes).1
        lastIdx := idx }) ∨
    (a = .receptora ∧ s' = { s with
        receptora := (Receptora.loop s.receptora).1
        uart := s.uart ++ Pipeline.written s.lastIdx (Receptora.loop s.receptora).2 }) ∨
    (∃ now, a = .pass now ∧ s' = mainTop s now) ∨
    (∃ idx byte uart, a = .uartByte ∧ s.uart = (idx, byte) :: uart ∧ s' = { s with
        uart := uart
        main := (EduCiaa.mainByte s.now s.main byte).1
        out := s.out ++ (EduCiaa.mainByte s.now s.main byte).2.map (fun o => (some idx, o)) }) := by
  cases a with
  | emisora x => exact Or.inl ⟨x, rfl, (Option.some.inj h).symm⟩
  | deliver =>
      right; left
      rw [step] at h
      split at h
      · exact absurd h (by simp)
      · exact ⟨_, _, _, rfl, ‹_›, (Option.some.inj h).symm⟩
  | receptora => exact Or.inr (Or.inr (Or.inl ⟨rfl, (Option.some.inj h).symm⟩))
  | pass now => exact Or.inr (Or.inr (Or.inr (Or.inl ⟨now, rfl, (Option.some.inj h).symm⟩)))
  | uartByte =>
      right; right; right; right
      rw [step] at h
      split at h
      · exact absurd h (by simp)
      · exact ⟨_, _, _, rfl, ‹_›, (Option.some.inj h).symm⟩

/-! ## What is heard of a strum -/

/-- The deliveries and the passes of the receptora among the steps. -/
def Action.link? : Action → Option Pipeline.Action
  | .deliver => some .deliver
  | .receptora => some .loop
  | _ => none

/-- The SDI writes of `main`, reading which packet. -/
def State.writes (s : State) : List (Option Nat × EduCiaa.SdiWrite) :=
  s.out.filterMap (fun o => o.2.sdi?.map (fun w => (o.1, w)))

/-- The messages the synthesiser receives for the `k`-th call of `sendPacket`, if the writes are messages at all. -/
def State.heard (s : State) (k : Nat) : Option (List Midi.Message) :=
  EduCiaa.messages ((s.writes.filter (fun w => w.1 == some k)).map Prod.snd)

/-- A NOTE ON message. -/
def isNoteOn : Midi.Message → Bool
  | .noteOn _ _ _ => true
  | _ => false

/-- Exactly three NOTE ON messages are sent for the `k`-th call. -/
def State.ThreeNotes (s : State) (k : Nat) : Prop := ∃ ms, s.heard k = some ms ∧ ms.countP isNoteOn = 3

/-- Of the chord buttons only B3 is pressed. -/
def SoloB3 (raw : Vector Bool 4) : Prop :=
  Emisora.isButtonPressed raw[0]! = false ∧ Emisora.isButtonPressed raw[1]! = false
    ∧ Emisora.isButtonPressed raw[2]! = false ∧ Emisora.isButtonPressed raw[3]! = true

instance (raw : Vector Bool 4) : Decidable (SoloB3 raw) := inferInstanceAs (Decidable (_ ∧ _ ∧ _ ∧ _))

end GuitarraMidi.Rig
