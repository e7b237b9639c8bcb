import GuitarraMidi.Lib.Steps
import GuitarraMidi.TestLatency.EmisorLoop
import GuitarraMidi.TestLatency.Program
import GuitarraMidi.TestLatency.Receptor

/-!
# `TestLatency.System` — the latency test as a whole

The emisor, the receptora and the program of the EDU-CIAA, the radio packets in flight and the bytes on the UART. The
steps are made in any order. A pass of `loop()` of the emisor hands its two packets to ESP-NOW one after the other, with
a `delay(5)` between them, in which anything can happen. A pass of `main` is one step: it takes from the UART as many
bytes as it finds.

ESP-NOW is assumed to deliver in order and at most once, and may drop any packet in flight; the UART delivers every
byte in order.
-/

namespace GuitarraMidi.TestLatency.System

open Transducer

structure State where
  emisor : Emisor.Globals
  /-- what the pass of `loop()` has still to send -/
  toSend : List ImuMessage
  air : List ImuMessage
  receptora : Receptor.Globals
  uart : List UInt8
  educiaa : Program.State
  out : List Program.Output
  /-- the arguments `mask` of the strums sent -/
  masks : List UInt8
  /-- the packets the EDU-CIAA has accepted, each with the tick reading it is processed with -/
  received : List (UInt32 × ImuMessage)
  /-- how many packets were dropped by ESP-NOW or overwritten in `lastMsg` -/
  lost : Nat

/-- The programs just started: the emisor with what `setup()` reads, the EDU-CIAA with what memory held before. -/
def start (strum : Bool × UInt32) (chord : Vector (Bool × UInt32) 3) (p : Vector UInt8 imuFormat.size)
    (q : EduCiaa.Queue) : State where
  emisor := Emisor.setup strum chord
  toSend := []
  air := []
  receptora := Receptor.start
  uart := []
  educiaa := Program.start p q
  out := []
  masks := []
  received := []
  lost := 0

inductive Action
  /-- the emisor begins a pass of `loop()` -/
  | emisor (x : Emisor.Reading)
  /-- it calls `esp_now_send` -/
  | espNowSend
  /-- the `k`-th packet in flight is lost -/
  | drop (k : Nat)
  /-- the oldest packet in flight reaches `OnDataRecv` -/
  | deliver
  /-- the receptora makes a pass of `loop` -/
  | receptora
  /-- `main` makes a pass, with the reading of the tick counter and `k` bytes -/
  | main (now : UInt32) (k : Nat)

/-- The packet of an event. -/
def packet? : Program.RxEvent → Option ImuMessage
  | .checksumError => none
  | .packet msg => some msg

/-- The packets accepted in a pass. -/
def accepted (rx : Program.Rx) (now : UInt32) (bytes : List UInt8) : List (UInt32 × ImuMessage) :=
  ((emit Program.rxByte rx bytes).filterMap packet?).map (fun m => (now, m))

/-- The mask of the strum that a pass of `loop()` sends, if it sends one. -/
def maskSent (x : Emisor.Reading) (packets : List ImuMessage) : List UInt8 :=
  if packets.isEmpty then [] else [Emisor.maskNow x.rawNow]

/-- One step, if it is possible. -/
def step (s : State) : Action → Option State
  | .emisor x =>
      if s.toSend.isEmpty then
        some { s with
          emisor := (Emisor.loop s.emisor x).1
          toSend := (Emisor.loop s.emisor x).2
          masks := s.masks ++ maskSent x (Emisor.loop s.emisor x).2 }
      else none
  | .espNowSend =>
      match s.toSend with
      | [] => none
      | m :: toSend => some { s with toSend := toSend, air := s.air ++ [m] }
  | .drop k =>
      if k < s.air.length then some { s with air := s.air.eraseIdx k, lost := s.lost + 1 } else none
  | .deliver =>
      match s.air with
      | [] => none
      | m :: air => some { s with
          air := air
          receptora := Receptor.onDataRecv s.receptora m.bytes
          lost := s.lost + s.receptora.slot.toList.length }
  | .receptora =>
      some { s with
        receptora := (Receptor.loop s.receptora).1
        uart := s.uart ++ ((Receptor.loop s.receptora).2.filterMap Receptor.Output.ciaa?).flatten }
  | .main now k =>
      if k ≤ s.uart.length then
        some { s with
          uart := s.uart.drop k
          educiaa := (Program.mainPass s.educiaa (now, s.uart.take k)).1
          out := s.out ++ (Program.mainPass s.educiaa (now, s.uart.take k)).2
          received := s.received ++ accepted s.educiaa.rx now (s.uart.take k) }
      else none

/-- A list of steps, if all of them are possible. -/
def run (s : State) (acts : List Action) : Option State := Steps.run step s acts

/-- The calls to `strumChord`. -/
def State.strums (s : State) : List (EduCiaa.ButtonChord × UInt8 × UInt32) :=
  (s.out.filterMap Program.Output.main?).filterMap MainOutput.strum?

/-- Everything a step can do. -/
theorem step_cases {s s' : State} {a : Action} (h : step s a = some s') :
    (∃ x, a = .emisor x ∧ s.toSend = [] ∧ s' = { s with
        emisor := (Emisor.loop s.emisor x).1
        toSend := (Emisor.loop s.emisor x).2
        masks := s.masks ++ maskSent x (Emisor.loop s.emisor x).2 }) ∨
    (∃ m toSend, a = .espNowSend ∧ s.toSend = m :: toSend
        ∧ s' = { s with toSend := toSend, air := s.air ++ [m] }) ∨
    (∃ k, a = .drop k ∧ k < s.air.length ∧ s' = { s with air := s.air.eraseIdx k, lost := s.lost + 1 }) ∨
    (∃ m air, a = .deliver ∧ s.air = m :: air ∧ s' = { s with
        air := air
        receptora := Receptor.onDataRecv s.receptora m.bytes
        lost := s.lost + s.receptora.slot.toList.length }) ∨
    (a = .receptora ∧ s' = { s with
        receptora := (Receptor.loop s.receptora).1
        uart := s.uart ++ ((Receptor.loop s.receptora).2.filterMap Receptor.Output.ciaa?).flatten }) ∨
    (∃ now bytes uart, a = .main now bytes.length ∧ s.uart = bytes ++ uart ∧ s' = { s with
        uart := uart
        educiaa := (Program.mainPass s.educiaa (now, bytes)).1
        out := s.out ++ (Program.mainPass s.educiaa (now, bytes)).2
        received := s.received ++ accepted s.educiaa.rx now bytes }) := by
  cases a with
  | emisor x =>
      left
      by_cases hsend : s.toSend.isEmpty
      · rw [step, if_pos hsend] at h
        exact ⟨x, rfl, List.isEmpty_iff.mp hsend, (Option.some.inj h).symm⟩
      · rw [step, if_neg hsend] at h
        exact absurd h (by simp)
  | espNowSend =>
      right; left
      rw [step] at h
      split at h
      · exact absurd h (by simp)
      · exact ⟨_, _, rfl, ‹_›, (Option.some.inj h).symm⟩
  | drop k =>
      right; right; left
      by_cases hk : k < s.air.length
      · rw [step, if_pos hk] at h
        exact ⟨k, rfl, hk, (Option.some.inj h).symm⟩
      · rw [step, if_neg hk] at h
        exact absurd h (by simp)
  | deliver =>
      right; right; right; left
      rw [step] at h
      split at h
      · exact absurd h (by simp)
      · exact ⟨_, _, rfl, ‹_›, (Option.some.inj h).symm⟩
  | receptora => exact Or.inr (Or.inr (Or.inr (Or.inr (Or.inl ⟨rfl, (Option.some.inj h).symm⟩))))
  | main now k =>
      right; right; right; right; right
      by_cases hk : k ≤ s.uart.length
      · rw [step, if_pos hk] at h
        refine ⟨now, s.uart.take k, s.uart.drop k, ?_, (List.take_append_drop k s.uart).symm,
          (Option.some.inj h).symm⟩
        rw [List.length_take_of_le hk]
      · rw [step, if_neg hk] at h
        exact absurd h (by simp)

end GuitarraMidi.TestLatency.System
