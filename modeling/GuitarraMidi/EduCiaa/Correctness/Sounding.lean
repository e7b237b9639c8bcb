import GuitarraMidi.EduCiaa.Player
import Mathlib.Data.Finset.Card

/-!
# `EduCiaa.Correctness.Sounding` — no stuck notes

The synthesiser is the set of its sounding notes (`Midi.play`), fed with the messages that the writes of
`strumChord` amount to. What ties it to the program is that nothing sounds but notes of `prev`: the NOTE OFF
messages for `prev` then silence the channel, whatever notes two chords share, and what sounds after a call
is decided by that call alone (`strumChord_sounding`).
-/

namespace GuitarraMidi.EduCiaa

open Midi Transducer

/-- The arguments of a call of `strumChord`. -/
structure StrumCall where
  chord : Option ButtonChord
  velocity : UInt8
  now_ms : UInt32

/-- A call of `strumChord`, with `prev` as the state. -/
def strumStep (prev : Option ButtonChord) (c : StrumCall) : Option ButtonChord × List SdiWrite :=
  strumChord prev c.chord c.velocity c.now_ms

/-- The notes sounding after a sequence of calls, if the writes are messages at all. -/
def soundingAfter (calls : List StrumCall) : Option (Finset Data) :=
  (messages (emit strumStep none calls)).map (playAll (channel midiCh) ∅)

/-- What should sound after a call: the triad, unless there is no chord or the velocity is zero on the
    wire. -/
def target (c : StrumCall) : Finset Data :=
  match c.chord with
  | none => ∅
  | some chord =>
      if chord.tipo = .chordNone ∨ c.velocity.toNat % 128 = 0 then ∅
      else (triad chord).toFinset

theorem target_card_le (c : StrumCall) : (target c).card ≤ 3 := by
  unfold target
  split
  · exact Nat.zero_le 3
  · split
    · exact Nat.zero_le 3
    · exact List.toFinset_card_le _

/-! ## The notes of a chord -/

/-- The notes `buildTriad` gives, as the wire carries them. -/
def notesOf (chord : Option ButtonChord) : Finset Data := ((chord.elim [] buildTriad).map data).toFinset

theorem data_eq_zero_iff (b : UInt8) : data b = 0 ↔ b.toNat % 128 = 0 := Fin.ext_iff

theorem notesOf_of_none {chord : ButtonChord} (h : chord.tipo = .chordNone) : notesOf (some chord) = ∅ := by
  rw [notesOf, Option.elim_some, buildTriad_of_none h]
  rfl

theorem notesOf_some {chord : ButtonChord} (h : chord.tipo ≠ .chordNone) :
    notesOf (some chord) = (triad chord).toFinset := by
  rw [notesOf, Option.elim_some, map_data_buildTriad h]

/-- What should sound is the chord's notes, or nothing. -/
theorem target_eq (c : StrumCall) :
    target c = if data c.velocity = 0 then ∅ else notesOf c.chord := by
  obtain ⟨chord, velocity, now_ms⟩ := c
  cases chord with
  | none => exact (ite_self _).symm
  | some chord =>
      show (if chord.tipo = .chordNone ∨ velocity.toNat % 128 = 0 then ∅ else _) = _
      by_cases htipo : chord.tipo = .chordNone
      · rw [if_pos (Or.inl htipo), notesOf_of_none htipo, ite_self]
      · by_cases hvel : velocity.toNat % 128 = 0
        · rw [if_pos (Or.inr hvel), if_pos ((data_eq_zero_iff velocity).mpr hvel)]
        · have hdata : data velocity ≠ 0 := by
            intro h
            exact hvel ((data_eq_zero_iff velocity).mp h)
          rw [if_neg (not_or_intro htipo hvel), if_neg hdata, notesOf_some htipo]

/-! ## One call -/

theorem playAll_offs (sounding : Finset Data) (prev : Option ButtonChord) :
    playAll (channel midiCh) sounding (prev.elim [] offs) = sounding \ notesOf prev := by
  cases prev with
  | none => exact (Finset.sdiff_empty).symm
  | some chord =>
      have hmap : offs chord = ((buildTriad chord).map data).map
          (fun n => .noteOff (channel midiCh) n (data midiVelocityOff)) := by
        rw [List.map_map]
        rfl
      rw [Option.elim_some, hmap, playAll_noteOff]
      rfl

theorem playAll_ons (chord : Option ButtonChord) (velocity : UInt8) :
    playAll (channel midiCh) ∅ (chord.elim [] (fun c => ons c velocity))
      = if data velocity = 0 then ∅ else notesOf chord := by
  cases chord with
  | none => split <;> rfl
  | some chord =>
      have hmap : ons chord velocity = ((buildTriad chord).map data).map
          (fun n => .noteOn (channel midiCh) n (data velocity)) := by
        rw [List.map_map]
        rfl
      rw [Option.elim_some, hmap]
      by_cases hvel : data velocity = 0
      · rw [if_pos hvel, hvel, playAll_noteOn_zero, Finset.empty_sdiff]
      · rw [if_neg hvel, playAll_noteOn _ _ hvel, Finset.empty_union]
        rfl

/-- **One call.** When only notes of `prev` sound, what sounds after the call is what should. -/
theorem strumChord_plays {sounding : Finset Data} {prev : Option ButtonChord} (c : StrumCall)
    (hprev : sounding ⊆ notesOf prev) :
    playAll (channel midiCh) sounding (strumMessages prev c.chord c.velocity) = target c := by
  rw [strumMessages, playAll_append, playAll_offs, Finset.sdiff_eq_empty_iff_subset.mpr hprev, playAll_ons, target_eq]

/-- What should sound are notes of the chord remembered. -/
theorem target_subset (prev : Option ButtonChord) (c : StrumCall) :
    target c ⊆ notesOf (strumStep prev c).1 := by
  have hnotes : notesOf (strumStep prev c).1 = notesOf c.chord := by
    rw [strumStep, strumChord_prev]
    cases hchord : c.chord with
    | none => rfl
    | some chord =>
        by_cases htipo : chord.tipo = .chordNone
        · rw [if_pos (show noChord (some chord) = true from decide_eq_true htipo), notesOf_of_none htipo]
          rfl
        · rw [if_neg (by rw [noChord, decide_eq_false htipo]; exact Bool.false_ne_true)]
  rw [hnotes, target_eq]
  split
  · exact Finset.empty_subset _
  · exact Finset.Subset.refl _

/-! ## Runs -/

/-- The writes of a run are messages, and these leave only notes of `prev` sounding. -/
theorem sounding_subset_prev (calls : List StrumCall) :
    ∃ ms, emit strumStep none calls = sdi ms ∧
      playAll (channel midiCh) ∅ ms ⊆ notesOf (finish strumStep none calls) := by
  induction calls using List.reverseRecOn with
  | nil => exact ⟨[], rfl, Finset.empty_subset _⟩
  | append_singleton calls c ih =>
      obtain ⟨ms, hms, hsub⟩ := ih
      refine ⟨ms ++ strumMessages (finish strumStep none calls) c.chord c.velocity, ?_, ?_⟩
      · rw [emit_concat, hms, strumStep, strumChord_writes, ← sdi_append]
      · -- what sounded before the call belonged to `prev`, so only the notes of this call are left
        rw [finish_concat, playAll_append, strumChord_plays c hsub]
        exact target_subset _ c

/-- **No stuck notes.** After every call of `strumChord`, whatever was called before, exactly the notes of
    this call sound: at most three, and none of an earlier chord. -/
theorem strumChord_sounding (calls : List StrumCall) (c : StrumCall) :
    soundingAfter (calls ++ [c]) = some (target c) ∧ (target c).card ≤ 3 := by
  obtain ⟨ms, hms, hsub⟩ := sounding_subset_prev calls
  refine ⟨?_, target_card_le c⟩
  rw [soundingAfter, emit_concat, hms, strumStep, strumChord_writes, ← sdi_append, messages_sdi,
    Option.map_some, playAll_append, strumChord_plays c hsub]

end GuitarraMidi.EduCiaa
