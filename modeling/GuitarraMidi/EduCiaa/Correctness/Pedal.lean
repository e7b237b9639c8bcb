import GuitarraMidi.EduCiaa.Correctness.MainLoopOutput
import GuitarraMidi.Lib.Damper

/-!
# `EduCiaa.Correctness.Pedal` — the damper pedal is never lifted

`setupVS1053` puts the damper pedal down, and `main` never sends another control change. So the NOTE OFF messages that
`stopChord` sends let the keys go, and nothing more: after any run the keys down are those of the last strum, and the
notes that ring are those of all strums there have been (`rings_on`).
-/

namespace GuitarraMidi.EduCiaa

open Midi Transducer

/-! ## The messages of a run -/

/-- The messages of `setupVS1053`; the last is the pedal. -/
def setupMessages : List Message :=
  [.controlChange (channel 0) (data 0) (data 0), .controlChange (channel 0) (data 32) (data 0),
    .programChange (channel 0) (data 25), .controlChange (channel 0) (data 7) (data 127),
    .controlChange (channel 0) (data 11) (data 127), .controlChange (channel 0) (data 64) (data 127)]

theorem setupVS1053_writes (q : Queue) : (setupVS1053 q).2 = sdi setupMessages := by
  unfold setupVS1053
  rw [midiControlChange_eq, midiControlChange_eq, midiControlChange_eq, midiControlChange_eq, midiControlChange_eq,
    midiProgramChange_eq]
  rfl

/-- All that is written from power on: by `setupVS1053` and by the passes of `main`. -/
def allWrites (p : Vector UInt8 8) (q : Queue) (passes : List (UInt32 × List UInt8)) : List SdiWrite :=
  (setupVS1053 q).2 ++ sdiWrites (emit mainPass (mainStart p q) passes)

/-- The strums of a run. -/
def strumsIn (p : Vector UInt8 8) (passes : List (UInt32 × List UInt8)) : List (ButtonChord × UInt8) :=
  strums (accepted (Rx.start p) (passes.flatMap Prod.snd))

theorem allWrites_eq (p : Vector UInt8 8) (q : Queue) (passes : List (UInt32 × List UInt8)) :
    allWrites p q passes = sdi (setupMessages ++ synthMessages none (strumsIn p passes)) := by
  unfold allWrites
  rw [setupVS1053_writes, (run_reads (wf_mainStart p q) passes).2.plays.writes, ← sdi_append]
  rfl

/-! ## The notes of a strum -/

/-- The notes that a strum strikes: none with velocity zero. -/
def notesStruck (s : ButtonChord × UInt8) : List Data := if (data s.2).val = 0 then [] else triad s.1

/-- The keys down after some strums: those of the last. -/
def keysAfter (ss : List (ButtonChord × UInt8)) : Finset Data := ss.getLast?.elim ∅ (fun s => (notesStruck s).toFinset)

theorem isNote_chordOff {chord : ButtonChord} {m : Message} (h : m ∈ chordOff chord) : m.IsNote := by
  obtain ⟨n, -, rfl⟩ := List.mem_map.mp h
  trivial

theorem isNote_chordOn {chord : ButtonChord} {velocity : UInt8} {m : Message} (h : m ∈ chordOn chord velocity) :
    m.IsNote := by
  obtain ⟨n, -, rfl⟩ := List.mem_map.mp h
  trivial

/-- Strums are NOTE ON and NOTE OFF messages. -/
theorem isNote_synthMessages {prev : Option ButtonChord} {ss : List (ButtonChord × UInt8)} :
    ∀ m ∈ synthMessages prev ss, m.IsNote := by
  induction ss generalizing prev with
  | nil => exact fun m hm => absurd hm List.not_mem_nil
  | cons s ss ih =>
      intro m hm
      rw [synthMessages, List.mem_append, List.mem_append] at hm
      rcases hm with (hoff | hon) | hrest
      · cases prev with
        | none => exact absurd hoff List.not_mem_nil
        | some chord => exact isNote_chordOff hoff
      · exact isNote_chordOn hon
      · exact ih m hrest

theorem playAll_chordOff (sounding : Finset Data) (chord : ButtonChord) :
    playAll (channel midiCh) sounding (chordOff chord) = sounding \ (triad chord).toFinset :=
  playAll_noteOff _ _ _ _

theorem playAll_chordOn (chord : ButtonChord) (velocity : UInt8) :
    playAll (channel midiCh) ∅ (chordOn chord velocity) = (notesStruck (chord, velocity)).toFinset := by
  unfold notesStruck
  by_cases hvel : (data velocity).val = 0
  · have hon : chordOn chord velocity = (triad chord).map (fun n => .noteOn (channel midiCh) n 0) := by
      rw [← show data velocity = 0 from Fin.ext hvel]
      rfl
    rw [hon, playAll_noteOn_zero, Finset.empty_sdiff, if_pos hvel]
    rfl
  · have hon : playAll (channel midiCh) ∅ (chordOn chord velocity) = ∅ ∪ (triad chord).toFinset :=
      playAll_noteOn _ _ (fun hzero => hvel (congrArg Fin.val hzero)) _
    rw [hon, Finset.empty_union, if_neg hvel]

/-- The last strum among some, as the chord remembered. -/
theorem lastChord_concat (prev : Option ButtonChord) (ss : List (ButtonChord × UInt8)) (s : ButtonChord × UInt8) :
    lastChord prev (ss ++ [s]) = some s.1 := by
  unfold lastChord
  rw [List.foldl_append]
  rfl

theorem keysAfter_subset (ss : List (ButtonChord × UInt8)) :
    keysAfter ss ⊆ (lastChord none ss).elim ∅ (fun chord => (triad chord).toFinset) := by
  rcases List.eq_nil_or_concat' ss with rfl | ⟨ss, s, rfl⟩
  · exact Finset.empty_subset _
  · rw [lastChord_concat, keysAfter, List.getLast?_concat]
    show (notesStruck s).toFinset ⊆ (triad s.1).toFinset
    unfold notesStruck
    split
    · exact Finset.empty_subset _
    · exact Finset.Subset.refl _

/-- **The keys are those of the last strum.** -/
theorem playAll_synthMessages (ss : List (ButtonChord × UInt8)) :
    playAll (channel midiCh) ∅ (synthMessages none ss) = keysAfter ss := by
  induction ss using List.reverseRecOn with
  | nil => rfl
  | append_singleton ss s ih =>
      have hoff : playAll (channel midiCh) (keysAfter ss) ((lastChord none ss).elim [] chordOff) = ∅ := by
        have hsub := keysAfter_subset ss
        cases hlast : lastChord none ss with
        | none =>
            rw [hlast] at hsub
            exact Finset.subset_empty.mp hsub
        | some chord =>
            rw [hlast] at hsub
            rw [Option.elim_some, playAll_chordOff]
            exact Finset.sdiff_eq_empty_iff_subset.mpr hsub
      rw [synthMessages_append, playAll_append, ih, synthMessages, synthMessages, List.append_nil, playAll_append, hoff,
        playAll_chordOn, keysAfter, List.getLast?_concat]
      rfl

theorem struck_chordOff (chord : ButtonChord) : struck (channel midiCh) (chordOff chord) = ∅ := rfl

theorem struck_chordOn (chord : ButtonChord) (velocity : UInt8) :
    struck (channel midiCh) (chordOn chord velocity) = (notesStruck (chord, velocity)).toFinset := by
  unfold struck chordOn notesStruck
  congr 1
  rw [List.filterMap_map]
  by_cases hvel : (data velocity).val = 0
  · rw [if_pos hvel, List.filterMap_eq_nil_iff]
    intro n _
    exact if_neg (fun h => h.2 hvel)
  · rw [if_neg hvel]
    exact (List.filterMap_congr (fun n _ => if_pos ⟨rfl, hvel⟩)).trans List.filterMap_some

/-- **What is struck are the notes of all strums.** -/
theorem struck_synthMessages (prev : Option ButtonChord) (ss : List (ButtonChord × UInt8)) :
    struck (channel midiCh) (synthMessages prev ss) = (ss.flatMap notesStruck).toFinset := by
  induction ss generalizing prev with
  | nil => rfl
  | cons s ss ih =>
      have hoff : struck (channel midiCh) (prev.elim [] chordOff) = ∅ := by
        cases prev with
        | none => rfl
        | some chord => exact struck_chordOff chord
      rw [synthMessages, struck_append, struck_append, hoff, struck_chordOn, ih, Finset.empty_union, List.flatMap_cons,
        List.toFinset_append]

/-! ## Runs -/

theorem pluckAll_setup : pluckAll (channel midiCh) .silent setupMessages = ⟨∅, true, ∅⟩ := by decide

/-- **From power on the notes of all strums ring.** What is written are messages; after them the pedal is down, the keys
    are those of the last strum, and what rings are the notes of every strum there has been. -/
theorem rings_on (p : Vector UInt8 8) (q : Queue) (passes : List (UInt32 × List UInt8)) :
    ∃ ms, messages (allWrites p q passes) = some ms
      ∧ pluckAll (channel midiCh) .silent ms
        = ⟨keysAfter (strumsIn p passes), true, ((strumsIn p passes).flatMap notesStruck).toFinset⟩ := by
  refine ⟨setupMessages ++ synthMessages none (strumsIn p passes), ?_, ?_⟩
  · rw [allWrites_eq, messages_sdi]
  · rw [pluckAll_append, pluckAll_setup, Strings.mk.injEq, ← playAll_synthMessages]
    refine ⟨keys_pluckAll isNote_synthMessages, pedal_pluckAll isNote_synthMessages, ?_⟩
    rw [ringing_pedal isNote_synthMessages rfl, Finset.empty_union, struck_synthMessages]

end GuitarraMidi.EduCiaa
