import GuitarraMidi.Pipeline.Rig

/-!
# `Pipeline.LossyRig` — the rig with losses

The rig of `Pipeline.Rig`, whose radio may drop any packet in flight. A packet can also be lost in the receptora, where
the next one overwrites it in `lastMsg` before `loop` has come round. Both are counted; no program sees the count.
-/

namespace GuitarraMidi.LossyRig

structure State where
  rig : Rig.State
  /-- how many packets were dropped by ESP-NOW or overwritten in `lastMsg` -/
  lost : Nat

/-- All three programs just started. -/
def start (p : Vector UInt8 8) (q : EduCiaa.Queue) : State where
  rig := Rig.start p q
  lost := 0

inductive Action
  | rig (a : Rig.Action)
  /-- the `k`-th packet in flight is lost -/
  | drop (k : Nat)

/-- The packets that a step of the rig overwrites in `lastMsg`. -/
def overwritten (s : Rig.State) : Rig.Action → List ChordMessage
  | .deliver => s.receptora.slot.toList
  | _ => []

/-- One step, if it is possible. -/
def step (s : State) : Action → Option State
  | .rig a => (Rig.step s.rig a).map (fun rig => ⟨rig, s.lost + (overwritten s.rig a).length⟩)
  | .drop k =>
      if k < s.rig.air.length then some ⟨{ s.rig with air := s.rig.air.eraseIdx k }, s.lost + 1⟩ else none

/-- A list of steps, if all of them are possible. -/
def run (s : State) (acts : List Action) : Option State := Steps.run step s acts

/-- Everything a step can do. -/
theorem step_cases {s s' : State} {a : Action} (h : step s a = some s') :
    (∃ b rig, a = .rig b ∧ Rig.step s.rig b = some rig ∧ s' = ⟨rig, s.lost + (overwritten s.rig b).length⟩) ∨
    (∃ k, a = .drop k ∧ k < s.rig.air.length
      ∧ s' = ⟨{ s.rig with air := s.rig.air.eraseIdx k }, s.lost + 1⟩) := by
  cases a with
  | rig b =>
      left
      obtain ⟨rig, hrig, rfl⟩ := Option.map_eq_some_iff.mp h
      exact ⟨b, rig, rfl, hrig, rfl⟩
  | drop k =>
      right
      by_cases hk : k < s.rig.air.length
      · rw [step, if_pos hk] at h
        exact ⟨k, rfl, hk, (Option.some.inj h).symm⟩
      · rw [step, if_neg hk] at h
        exact absurd h (by simp)

/-- Nothing is on its way. -/
structure State.Drained (s : State) : Prop where
  air : s.rig.air = []
  slot : s.rig.receptora.hasMsg = false
  uart : s.rig.uart = []

/-- What has been written to the synthesiser. -/
def State.writes (s : State) : List EduCiaa.SdiWrite := EduCiaa.sdiWrites (s.rig.out.map Prod.snd)

end GuitarraMidi.LossyRig
