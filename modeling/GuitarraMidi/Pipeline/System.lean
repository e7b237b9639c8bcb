import GuitarraMidi.EduCiaa.Receiver
import GuitarraMidi.EduCiaa.Chords
import GuitarraMidi.Emisora.SendPacket
import GuitarraMidi.Lib.Steps
import GuitarraMidi.Receptora.Bridge

/-!
# `Pipeline.System` — the three programs and the two links between them

The state of the whole system: the globals of the emisora and of the receptora, the reception variables of
the EDU-CIAA, the radio packets in flight, and the bytes on the UART. Its steps are the calls and the
deliveries of the three programs, in any order.

ESP-NOW is assumed to deliver in order and at most once, and may drop any packet in flight; the UART
delivers every byte in order. A pass of `loop` on the receptora is one step.

Each packet carries the index of the `sendPacket` call it comes from. The programs do not see it (no branch
below depends on it), and it is only there for the results to speak about.
-/

namespace GuitarraMidi.Pipeline

/-- The state of the system; a `Nat` beside a packet or a byte is the index of its `sendPacket`. -/
structure State where
  /-- the global `msg` of the emisora -/
  msg : ChordMessage
  /-- the arguments `sendPacket` has been called with -/
  sent : List (UInt8 × UInt8)
  air : List (Nat × ChordMessage)
  receptora : Receptora.Globals
  /-- the index of the packet in `lastMsg` -/
  lastIdx : Nat
  uart : List (Nat × UInt8)
  rx : EduCiaa.Rx
  /-- the packets the EDU-CIAA has accepted -/
  accepted : List (Nat × ChordMessage)

/-- All three programs just started; `p` is the uninitialised buffer of the EDU-CIAA. -/
def start (p : Vector UInt8 8) : State where
  msg := ⟨0, 0, .replicate 4 0, 0, 0⟩
  sent := []
  air := []
  receptora := Receptora.start
  lastIdx := 0
  uart := []
  rx := EduCiaa.Rx.start p
  accepted := []

inductive Action
  /-- the emisora calls `sendPacket` -/
  | sendPacket (mask velocity : UInt8)
  /-- the `k`-th packet in flight is lost -/
  | drop (k : Nat)
  /-- the oldest packet in flight reaches `OnDataRecv` -/
  | deliver
  /-- the receptora makes a pass of `loop` -/
  | loop
  /-- the EDU-CIAA reads a byte -/
  | uartByte
deriving DecidableEq

/-- The bytes a pass of `loop` puts on the UART, with the index of the packet. -/
def written (idx : Nat) (out : List Receptora.Output) : List (Nat × UInt8) :=
  (out.filterMap Receptora.Output.ciaa?).flatten.map (fun b => (idx, b))

/-- One step, if it is possible. -/
def step (s : State) : Action → Option State
  | .sendPacket mask velocity =>
      some { s with
        msg := Emisora.sendPacket s.msg mask velocity
        sent := s.sent ++ [(mask, velocity)]
        air := s.air ++ [(s.sent.length, Emisora.sendPacket s.msg mask velocity)] }
  | .drop k => if k < s.air.length then some { s with air := s.air.eraseIdx k } else none
  | .deliver =>
      match s.air with
      | [] => none
      | (idx, msg) :: air =>
          some { s with
            air := air
            receptora := (Receptora.onDataRecv s.receptora msg.bytes).1
            lastIdx := idx }
  | .loop =>
      some { s with
        receptora := (Receptora.loop s.receptora).1
        uart := s.uart ++ written s.lastIdx (Receptora.loop s.receptora).2 }
  | .uartByte =>
      match s.uart with
      | [] => none
      | (idx, byte) :: uart =>
          some { s with
            uart := uart
            rx := (EduCiaa.rxByte s.rx byte).1
            accepted := s.accepted
              ++ ((EduCiaa.rxByte s.rx byte).2.filterMap EduCiaa.RxEvent.packet?).map (fun m => (idx, m)) }

/-- A list of steps, if all of them are possible. -/
def run (s : State) (acts : List Action) : Option State := Steps.run step s acts

/-- Everything a step can do. -/
theorem step_cases {s s' : State} {a : Action} (h : step s a = some s') :
    (∃ mask velocity, a = .sendPacket mask velocity ∧ s' = { s with
        msg := Emisora.sendPacket s.msg mask velocity
        sent := s.sent ++ [(mask, velocity)]
        air := s.air ++ [(s.sent.length, Emisora.sendPacket s.msg mask velocity)] }) ∨
    (∃ k, a = .drop k ∧ s' = { s with air := s.air.eraseIdx k }) ∨
    (∃ idx msg air, a = .deliver ∧ s.air = (idx, msg) :: air ∧ s' = { s with
        air := air
        receptora := (Receptora.onDataRecv s.receptora msg.bytes).1
        lastIdx := idx }) ∨
    (a = .loop ∧ s' = { s with
        receptora := (Receptora.loop s.receptora).1
        uart := s.uart ++ written s.lastIdx (Receptora.loop s.receptora).2 }) ∨
    (∃ idx byte uart, a = .uartByte ∧ s.uart = (idx, byte) :: uart ∧ s' = { s with
        uart := uart
        rx := (EduCiaa.rxByte s.rx byte).1
        accepted := s.accepted ++ ((EduCiaa.rxByte s.rx byte).2.filterMap EduCiaa.RxEvent.packet?).map
          (fun m => (idx, m)) }) := by
  cases a with
  | sendPacket mask velocity => exact Or.inl ⟨mask, velocity, rfl, (Option.some.inj h).symm⟩
  | drop k =>
      right; left
      by_cases hk : k < s.air.length
      · rw [step, if_pos hk] at h
        exact ⟨k, rfl, (Option.some.inj h).symm⟩
      · rw [step, if_neg hk] at h
        exact absurd h (by simp)
  | deliver =>
      right; right; left
      rw [step] at h
      split at h
      · exact absurd h (by simp)
      · exact ⟨_, _, _, rfl, ‹_›, (Option.some.inj h).symm⟩
  | loop => exact Or.inr (Or.inr (Or.inr (Or.inl ⟨rfl, (Option.some.inj h).symm⟩)))
  | uartByte =>
      right; right; right; right
      rw [step] at h
      split at h
      · exact absurd h (by simp)
      · exact ⟨_, _, _, rfl, ‹_›, (Option.some.inj h).symm⟩

/-- What an accepted packet is processed with. -/
def heard (s : State) : List (UInt8 × UInt8) := s.accepted.map (fun q => EduCiaa.buttonsAndVelocity q.2)

/-- What a `sendPacket` call is meant to be heard as. -/
def meant (sent : List (UInt8 × UInt8)) : List (UInt8 × UInt8) := sent.map (fun a => (a.1 &&& 0x0F, a.2))

end GuitarraMidi.Pipeline
