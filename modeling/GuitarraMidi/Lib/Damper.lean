import GuitarraMidi.Lib.Midi
import Mathlib.Data.Finset.Option

/-!
# `Lib.Damper` — keys, the damper pedal and what rings

`Midi.play` follows the keys of a channel. What is heard is more than that: while the damper pedal (controller 64) is
down, a note whose key goes up rings on. `Strings` has both, and `pluck` is what a message does to them; All Sound Off
and All Notes Off are the controllers 120 and 123.

The rules are for lists of NOTE ON and NOTE OFF messages: the keys are those of `Midi.play` (`keys_pluckAll`), and with
the pedal down nothing that rings is damped (`ringing_pedal`).
-/

namespace Midi

/-- The notes whose keys are down, whether the pedal is, and the notes that ring. -/
structure Strings where
  keys : Finset Data
  pedal : Bool
  ringing : Finset Data
deriving DecidableEq

def Strings.silent : Strings := ⟨∅, false, ∅⟩

/-- A key goes up, and its note is damped if the pedal is up. -/
def Strings.release (s : Strings) (note : Data) : Strings :=
  { s with keys := s.keys.erase note, ringing := if s.pedal then s.ringing else s.ringing.erase note }

/-- A key goes down. -/
def Strings.strike (s : Strings) (note : Data) : Strings :=
  { s with keys := insert note s.keys, ringing := insert note s.ringing }

/-- What a controller does. The pedal is down from 64 on, and when it goes up the notes whose keys are up are damped. -/
def Strings.control (s : Strings) (cc val : Data) : Strings :=
  if cc.val = 64 then
    { s with pedal := 64 ≤ val.val, ringing := if 64 ≤ val.val then s.ringing else s.ringing ∩ s.keys }
  else if cc.val = 120 then { s with keys := ∅, ringing := ∅ }
  else if cc.val = 123 then { s with keys := ∅, ringing := if s.pedal then s.ringing else ∅ }
  else s

/-- What a message does to the strings of a channel; a note on with velocity zero is a note off. -/
def pluck (ch : Channel) (s : Strings) : Message → Strings
  | .noteOn c note vel => if c = ch then (if vel.val = 0 then s.release note else s.strike note) else s
  | .noteOff c note _ => if c = ch then s.release note else s
  | .controlChange c cc val => if c = ch then s.control cc val else s
  | _ => s

/-- The strings after a list of messages. -/
def pluckAll (ch : Channel) (s : Strings) (ms : List Message) : Strings := ms.foldl (pluck ch) s

/-- A NOTE ON or a NOTE OFF. -/
def Message.IsNote : Message → Prop
  | .noteOn _ _ _ => True
  | .noteOff _ _ _ => True
  | _ => False

/-- The note that a message strikes on a channel. -/
def struck? (ch : Channel) : Message → Option Data
  | .noteOn c note vel => if c = ch ∧ vel.val ≠ 0 then some note else none
  | _ => none

/-- The notes that are struck by a list of messages. -/
def struck (ch : Channel) (ms : List Message) : Finset Data := (ms.filterMap (struck? ch)).toFinset

variable {ch : Channel} {s : Strings} {m : Message} {ms ms' : List Message}

theorem pluckAll_append (ch : Channel) (s : Strings) (ms ms' : List Message) :
    pluckAll ch s (ms ++ ms') = pluckAll ch (pluckAll ch s ms) ms' := List.foldl_append

theorem struck_cons (ch : Channel) (m : Message) (ms : List Message) :
    struck ch (m :: ms) = (struck? ch m).toFinset ∪ struck ch ms := by
  unfold struck
  rw [List.filterMap_cons]
  cases struck? ch m with
  | none => exact (Finset.empty_union _).symm
  | some note => exact List.toFinset_cons

theorem struck_append (ch : Channel) (ms ms' : List Message) :
    struck ch (ms ++ ms') = struck ch ms ∪ struck ch ms' := by
  unfold struck
  rw [List.filterMap_append, List.toFinset_append]

/-! ## One message -/

/-- A note is released, struck, or none of the channel. -/
theorem pluck_cases (h : m.IsNote) :
    (∃ note, pluck ch s m = s.release note ∧ play ch s.keys m = s.keys.erase note ∧ struck? ch m = none)
      ∨ (∃ note, pluck ch s m = s.strike note ∧ play ch s.keys m = insert note s.keys ∧ struck? ch m = some note)
      ∨ (pluck ch s m = s ∧ play ch s.keys m = s.keys ∧ struck? ch m = none) := by
  cases m with
  | noteOn c note vel =>
      by_cases hc : c = ch
      · by_cases hvel : vel.val = 0
        · have hzero : vel = 0 := Fin.ext hvel
          exact Or.inl ⟨note, by simp [pluck, hc, hvel], by simp [play, hc, hzero], by simp [struck?, hvel]⟩
        · have hne : vel ≠ 0 := fun hzero => hvel (congrArg Fin.val hzero)
          exact Or.inr (Or.inl ⟨note, by simp [pluck, hc, hvel], by simp [play, hc, hne], by simp [struck?, hc, hvel]⟩)
      · exact Or.inr (Or.inr ⟨if_neg hc, if_neg hc, if_neg (fun h => hc h.1)⟩)
  | noteOff c note vel =>
      by_cases hc : c = ch
      · exact Or.inl ⟨note, if_pos hc, if_pos hc, rfl⟩
      · exact Or.inr (Or.inr ⟨if_neg hc, if_neg hc, rfl⟩)
  | polyPressure c note pressure => exact absurd h id
  | controlChange c cc val => exact absurd h id
  | programChange c prog => exact absurd h id
  | channelPressure c pressure => exact absurd h id
  | pitchBend c lsb msb => exact absurd h id

theorem keys_pluck (h : m.IsNote) : (pluck ch s m).keys = play ch s.keys m := by
  rcases pluck_cases h with ⟨note, hpluck, hplay, -⟩ | ⟨note, hpluck, hplay, -⟩ | ⟨hpluck, hplay, -⟩
  all_goals rw [hpluck, hplay]; try rfl

theorem pedal_pluck (h : m.IsNote) : (pluck ch s m).pedal = s.pedal := by
  rcases pluck_cases h with ⟨note, hpluck, -⟩ | ⟨note, hpluck, -⟩ | ⟨hpluck, -⟩
  all_goals rw [hpluck]; try rfl

theorem ringing_pluck_pedal (h : m.IsNote) (hpedal : s.pedal = true) :
    (pluck ch s m).ringing = s.ringing ∪ (struck? ch m).toFinset := by
  rcases pluck_cases h with ⟨note, hpluck, -, hstruck⟩ | ⟨note, hpluck, -, hstruck⟩ | ⟨hpluck, -, hstruck⟩
  · rw [hpluck, hstruck, Option.toFinset_none, Finset.union_empty]
    exact if_pos hpedal
  · rw [hpluck, hstruck, Option.toFinset_some, Finset.union_comm]
    rfl
  · rw [hpluck, hstruck, Option.toFinset_none, Finset.union_empty]

/-! ## Lists of notes -/

theorem pedal_pluckAll (h : ∀ m ∈ ms, m.IsNote) : (pluckAll ch s ms).pedal = s.pedal := by
  induction ms generalizing s with
  | nil => rfl
  | cons m ms ih =>
      obtain ⟨hm, hms⟩ := List.forall_mem_cons.mp h
      exact (ih hms).trans (pedal_pluck hm)

/-- **The keys** are those of `Midi.play`. -/
theorem keys_pluckAll (h : ∀ m ∈ ms, m.IsNote) : (pluckAll ch s ms).keys = playAll ch s.keys ms := by
  induction ms generalizing s with
  | nil => rfl
  | cons m ms ih =>
      obtain ⟨hm, hms⟩ := List.forall_mem_cons.mp h
      rw [playAll_cons, ← keys_pluck hm]
      exact ih hms

/-- **With the pedal down nothing is damped**: all that rang and all that is struck rings. -/
theorem ringing_pedal (h : ∀ m ∈ ms, m.IsNote) (hpedal : s.pedal = true) :
    (pluckAll ch s ms).ringing = s.ringing ∪ struck ch ms := by
  induction ms generalizing s with
  | nil => exact (Finset.union_empty _).symm
  | cons m ms ih =>
      obtain ⟨hm, hms⟩ := List.forall_mem_cons.mp h
      rw [struck_cons, ← Finset.union_assoc, ← ringing_pluck_pedal hm hpedal]
      exact ih hms ((pedal_pluck hm).trans hpedal)

end Midi
