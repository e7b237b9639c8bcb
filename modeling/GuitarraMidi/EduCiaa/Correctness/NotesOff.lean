import GuitarraMidi.EduCiaa.Correctness.MainLoopOutput
import GuitarraMidi.Lib.Clock

/-!
# `EduCiaa.Correctness.NotesOff` — when the notes of a strum are switched off

`midiSchedProcess` runs on every pass so that NOTE OFF messages go out on time, but `strumChord` does not schedule any:
the notes of a strum are switched off by the next strum, and by nothing else. So all of them are off 200 ms later
exactly when there has been a next strum by then (`notes_off_iff`), and in a silence they sound on
(`silence_sounds_on`).
-/

namespace GuitarraMidi.EduCiaa

open Clock Framing Midi Transducer

/-- A pass of `while (true)` at a true time, and the bytes it drains. -/
abbrev TimedPass := Nat × List UInt8

/-- The passes with what the program reads of the time. -/
def timed (passes : List TimedPass) : List (UInt32 × List UInt8) := passes.map (fun x => (tick x.1, x.2))

/-- The bytes drained. -/
def bytesOf (passes : List TimedPass) : List UInt8 := passes.flatMap Prod.snd

theorem timed_bytes (passes : List TimedPass) : (timed passes).flatMap Prod.snd = bytesOf passes := by
  rw [timed, List.flatMap_map, bytesOf]

/-! ## What a pass writes -/

/-- The writes of `midiSchedProcess` in a pass. -/
def schedWrites (s : Main) (pass : UInt32 × List UInt8) : List SdiWrite := (midiSchedProcess pass.1 s.q).2

/-- The writes of the rest of the pass: those of the strums handled in it. -/
def strumWrites (s : Main) (pass : UInt32 × List UInt8) : List SdiWrite :=
  sdiWrites (emit (mainByte pass.1) { s with q := (midiSchedProcess pass.1 s.q).1 } pass.2)

theorem sdiWrites_mainPass (s : Main) (pass : UInt32 × List UInt8) :
    sdiWrites (mainPass s pass).2 = schedWrites s pass ++ strumWrites s pass := by
  unfold mainPass
  rw [sdiWrites_append, sdiWrites_map_sdi]
  rfl

/-- **The promise.** After `midiSchedProcess` in a pass 200 ms or more after another, each NOTE ON of the strums
    handled in that other pass has been followed by a NOTE OFF for the same channel and note. -/
def NotesOffOnTime (s : Main) (passes : List TimedPass) : Prop :=
  ∀ A t bytes B now bytes' C, passes = A ++ (t, bytes) :: (B ++ (now, bytes') :: C) → t + 200 ≤ now →
    ∃ ms after, messages (strumWrites (finish mainPass s (timed A)) (tick t, bytes)) = some ms
      ∧ messages (sdiWrites (emit mainPass (finish mainPass s (timed (A ++ [(t, bytes)]))) (timed B))
          ++ schedWrites (finish mainPass s (timed (A ++ (t, bytes) :: B))) (tick now, bytes')) = some after
      ∧ Silenced ms after

/-! ## The packets that are chords -/

/-- The packets in a stream of bytes that map to a chord, with their chord and velocity. -/
def chordPackets (bytes : List UInt8) : List (ButtonChord × UInt8) := strums (packets (chordFormat.parse bytes))

/-- Of the packets completed by `bytes`, coming after `before`, one at least maps to a chord. -/
def CompletesChord (before bytes : List UInt8) : Prop :=
  (chordPackets before).length < (chordPackets (before ++ bytes)).length

/-- Between a pass that completes a chord and one 200 ms or more after it, another chord is completed. -/
def KeepsStrumming (passes : List TimedPass) : Prop :=
  ∀ A t bytes B now bytes' C, passes = A ++ (t, bytes) :: (B ++ (now, bytes') :: C) → t + 200 ≤ now →
    CompletesChord (bytesOf A) bytes → CompletesChord (bytesOf (A ++ [(t, bytes)])) (bytesOf B)

/-- A chord is completed when the receiver accepts one. -/
theorem completesChord_iff (p : Vector UInt8 8) (before bytes : List UInt8) :
    CompletesChord before bytes ↔ strums (accepted (finish rxByte (Rx.start p) before) bytes) ≠ [] := by
  unfold CompletesChord chordPackets
  rw [← accepted_start p, ← accepted_start p, accepted_append, strums_append, List.length_append,
    ← List.length_pos_iff]
  omega

/-! ## The messages of a strum -/

/-- What switches the notes of a chord off: the next strum. -/
theorem noteOff_mem_synthMessages {chord : ButtonChord} {ss : List (ButtonChord × UInt8)} (h : ss ≠ []) :
    ∀ n ∈ triad chord, ∃ vel', .noteOff (Channel.ofNat 0) n vel' ∈ synthMessages (some chord) ss := by
  intro n hn
  cases ss with
  | nil => exact absurd rfl h
  | cons s ss =>
      refine ⟨Data.ofNat 64, ?_⟩
      rw [synthMessages, List.append_assoc]
      exact List.mem_append_left _ (List.mem_map_of_mem hn)

/-- A strum more switches off the notes of all strums before it. -/
theorem silenced_of_next {prev : Option ButtonChord} {ss ss' : List (ButtonChord × UInt8)} (h : ss' ≠ []) :
    Silenced (synthMessages prev ss) (synthMessages (lastChord prev ss) ss') := by
  induction ss generalizing prev with
  | nil => trivial
  | cons s ss ih =>
      have hoff : ∀ after, Silenced (prev.elim [] chordOff) after := by
        intro after
        cases prev with
        | none => trivial
        | some chord => exact silenced_noteOff _ _ _ _
      have hon : Silenced (chordOn s.1 s.2)
          (synthMessages (some s.1) ss ++ synthMessages (lastChord (some s.1) ss) ss') := by
        rw [← synthMessages_append]
        exact silenced_noteOn (noteOff_mem_synthMessages (List.append_ne_nil_of_right_ne_nil ss h))
      exact silenced_append.mpr ⟨silenced_append.mpr ⟨hoff _, hon⟩, ih⟩

/-- **The notes of some strums are switched off exactly when there is another strum after them.** -/
theorem silenced_synthMessages_iff {prev : Option ButtonChord} {ss ss' : List (ButtonChord × UInt8)} :
    Silenced (synthMessages prev ss) (synthMessages (lastChord prev ss) ss') ↔ (ss ≠ [] → ss' ≠ []) := by
  constructor
  · rintro h hne rfl
    obtain ⟨init, s, rfl⟩ := (List.eq_nil_or_concat' ss).resolve_left hne
    -- the last message of all is the fifth of the last chord
    have hlast : synthMessages prev (init ++ [s])
        = (synthMessages prev init ++ ((lastChord prev init).elim [] chordOff ++ (chordOn s.1 s.2).take 2))
          ++ [.noteOn (Channel.ofNat 0) (Data.ofNat (s.1.root.toNat + 7)) (Data.ofNat s.2.toNat)] := by
      rw [synthMessages_append, synthMessages, synthMessages, List.append_nil, List.append_assoc, List.append_assoc]
      rfl
    rw [hlast] at h
    exact not_silenced_concat _ _ _ _ h
  · intro hnext
    rcases eq_or_ne ss [] with rfl | hne
    · trivial
    · exact silenced_of_next (hnext hne)

/-! ## Runs -/

/-- **A pass writes nothing for the scheduler**, and for the strums their messages. -/
theorem writes_of_wf {s : Main} (hs : s.Wf) (pass : UInt32 × List UInt8) :
    schedWrites s pass = [] ∧ strumWrites s pass = sdi (synthMessages s.prev (strums (accepted s.rx pass.2))) := by
  have hsched : schedWrites s pass = [] := by
    unfold schedWrites
    rw [midiSchedProcess_of_idle hs.queue]
  have hpass := (mainPass_reads s pass hs).2.plays.writes
  rw [sdiWrites_mainPass, hsched, List.nil_append] at hpass
  exact ⟨hsched, hpass⟩

/-- The state after some passes. -/
theorem finish_timed (p : Vector UInt8 8) (q : Queue) (passes : List TimedPass) :
    (finish mainPass (mainStart p q) (timed passes)).Wf
      ∧ (finish mainPass (mainStart p q) (timed passes)).rx = finish rxByte (Rx.start p) (bytesOf passes) := by
  obtain ⟨hwf, hreads⟩ := run_reads (wf_mainStart p q) (timed passes)
  refine ⟨hwf, ?_⟩
  rw [hreads.rx, timed_bytes]
  rfl

/-- **The pass at `t` and what comes after it**: its notes are switched off in time exactly when there is another
    strum in the passes between. -/
theorem off_on_time_iff (p : Vector UInt8 8) (q : Queue) (A B : List TimedPass) (t now : Nat)
    (bytes bytes' : List UInt8) :
    (∃ ms after, messages (strumWrites (finish mainPass (mainStart p q) (timed A)) (tick t, bytes)) = some ms
      ∧ messages (sdiWrites (emit mainPass (finish mainPass (mainStart p q) (timed (A ++ [(t, bytes)]))) (timed B))
          ++ schedWrites (finish mainPass (mainStart p q) (timed (A ++ (t, bytes) :: B))) (tick now, bytes')) = some after
      ∧ Silenced ms after)
      ↔ (CompletesChord (bytesOf A) bytes → CompletesChord (bytesOf (A ++ [(t, bytes)])) (bytesOf B)) := by
  obtain ⟨hwf, hrx⟩ := finish_timed p q A
  obtain ⟨hwf', hrx'⟩ := finish_timed p q (A ++ [(t, bytes)])
  rw [completesChord_iff p, completesChord_iff p, ← hrx, ← hrx', (writes_of_wf (finish_timed p q _).1 _).1,
    List.append_nil, (writes_of_wf hwf _).2, (run_reads hwf' (timed B)).2.plays.writes, messages_sdi, messages_sdi,
    timed_bytes]
  have hprev : (finish mainPass (mainStart p q) (timed (A ++ [(t, bytes)]))).prev
      = lastChord (finish mainPass (mainStart p q) (timed A)).prev
          (strums (accepted (finish mainPass (mainStart p q) (timed A)).rx bytes)) := by
    have hsplit : timed (A ++ [(t, bytes)]) = timed A ++ [(tick t, bytes)] := by
      rw [timed, List.map_append, List.map_singleton, timed]
    rw [hsplit, finish_concat, (mainPass_reads _ (tick t, bytes) hwf).2.plays.prev]
  rw [hprev, ← @silenced_synthMessages_iff (finish mainPass (mainStart p q) (timed A)).prev]
  constructor
  · rintro ⟨ms, after, hms, hafter, hsilenced⟩
    rw [Option.some.inj hms, Option.some.inj hafter]
    exact hsilenced
  · intro hsilenced
    exact ⟨_, _, rfl, rfl, hsilenced⟩

/-- **The promise is kept exactly when strumming goes on.** The notes of every strum are off 200 ms later if and only
    if the passes by then complete another packet that maps to a chord. -/
theorem notes_off_iff (p : Vector UInt8 8) (q : Queue) (passes : List TimedPass) :
    NotesOffOnTime (mainStart p q) passes ↔ KeepsStrumming passes := by
  unfold NotesOffOnTime KeepsStrumming
  constructor
  · intro h A t bytes B now bytes' C hsplit hlate
    exact (off_on_time_iff p q A B t now bytes bytes').mp (h A t bytes B now bytes' C hsplit hlate)
  · intro h A t bytes B now bytes' C hsplit hlate
    exact (off_on_time_iff p q A B t now bytes bytes').mpr (h A t bytes B now bytes' C hsplit hlate)

/-- **In a silence the notes sound on**: DO mayor is strummed at 1000 ms, and 200 ms later nothing has been switched
    off. -/
theorem silence_sounds_on :
    ¬ NotesOffOnTime (mainStart (.replicate 8 0) (.replicate qSize (eventOf .evOn 0 0 0 0)))
      [(1000, [0xAA, 0x55, 1, 0, 0, 0, 80, 81]), (1200, [])] := by
  intro h
  obtain ⟨ms, after, hms, hafter, hsilenced⟩ := h [] 1000 _ [] 1200 [] [] rfl (by decide)
  have hon : ms = chordOn ⟨"DO mayor", 60, .chordMajor⟩ 80 := by
    refine Option.some.inj (hms.symm.trans ?_)
    decide +kernel
  have hnothing : after = [] := by
    refine Option.some.inj (hafter.symm.trans ?_)
    decide +kernel
  rw [hon, hnothing] at hsilenced
  exact not_silenced_concat ((chordOn ⟨"DO mayor", 60, .chordMajor⟩ 80).take 2) _ _ _ hsilenced

end GuitarraMidi.EduCiaa
