import GuitarraMidi.TestLatency.Correctness.EventQueue

/-!
# `TestLatency.Correctness.NoteLength` — whether a struck note sounds for its full length

A strum may follow another after 101 ms, and its notes then start while the ends of the notes of the other are
still in the queue: the end of a note that both have cuts it short (`cut_short`). A note is cut only if
`midiSchedProcess` starts it while an end left by an earlier strum is in the queue and is not sent before it; in
a run where this does not happen every note sounds for `NOTE_LEN_MS` (`full_length`).
-/

namespace GuitarraMidi.TestLatency

open Clock EduCiaa EduCiaa.ChordQuality Midi SlotTable TimerTable Transducer

/-- No end of a note is sent that is due less than `NOTE_LEN_MS` after the last start of the note sent before. -/
def FullLength (es : List StrumEv) : Prop :=
  ∀ pre e post, es = pre ++ e :: post → e.type = .evOff →
    ∀ e' ∈ (pre.filter (fun x => x.type = .evOn ∧ x.note = e.note)).getLast?, e'.due + noteLenMs ≤ e.due

/-- When the queue is processed at `t`, the end of a note due less than `NOTE_LEN_MS` after a start of it that is
    due has to be due too, and in a slot before that of the start. -/
def NoOldEnd (t : Nat) (es : List StrumEv) : Prop :=
  ∀ pre e post, es = pre ++ e :: post → e.type = .evOn → e.due ≤ t →
    ∀ e' ∈ es, e'.type = .evOff → e'.note = e.note → e'.due < e.due + noteLenMs → e'.due ≤ t ∧ e' ∈ pre

/-- Not the start of a note before an end that comes too soon. -/
def NotCut (e e' : StrumEv) : Prop :=
  e.type = .evOn → e'.type = .evOff → e'.note = e.note → e.due + noteLenMs ≤ e'.due

theorem fullLength_of_pairwise {es : List StrumEv} (h : es.Pairwise NotCut) : FullLength es := by
  rintro pre e post rfl hoff e' he'
  have hmem := List.mem_filter.mp (List.mem_of_getLast? he')
  have hkind : e'.type = .evOn ∧ e'.note = e.note := of_decide_eq_true hmem.2
  exact (List.pairwise_append.mp h).2.2 e' hmem.1 e List.mem_cons_self hkind.1 hoff hkind.2.symm

/-- The queue is processed in every pass without starting a note whose old end is not sent before. -/
def NeverOldEnd (passes : List Pass) : Prop :=
  ∀ pre x post, passes = pre ++ x :: post → NoOldEnd x.1 (entries (tableOf pre))

theorem NeverOldEnd.left {passes passes' : List Pass} (h : NeverOldEnd (passes ++ passes')) : NeverOldEnd passes := by
  rintro pre x post rfl
  exact h pre x (post ++ passes') (by rw [List.append_assoc, List.cons_append])

theorem pairwise_of_split {es : List StrumEv} {r : StrumEv → StrumEv → Prop}
    (h : ∀ pre e post, es = pre ++ e :: post → ∀ e' ∈ post, r e e') : es.Pairwise r := by
  induction es with
  | nil => exact List.Pairwise.nil
  | cons e es ih =>
      refine List.pairwise_cons.mpr ⟨h [] e es rfl, ih ?_⟩
      rintro pre e' post rfl
      exact h (e :: pre) e' post rfl

/-- An end of a new strum comes too late to cut a note of a strum before it. -/
theorem notCut_new {passes : List Pass} {x : Pass} (hp : Paced (passes ++ [x])) {e e' : StrumEv}
    (he : e ∈ (strumsOf passes).flatMap Strum.events)
    (he' : e' ∈ (detectPass (finish detectPass Detector.start passes) x).2.flatMap Strum.events) : NotCut e e' := by
  intro hon hoff _
  obtain ⟨r, hr, her⟩ := List.mem_flatMap.mp he
  obtain ⟨s, hs, hes⟩ := List.mem_flatMap.mp he'
  have hbefore := before_strum hp hs r hr
  obtain ⟨htime, hstring, -⟩ := mem_events her
  have htime' := (mem_events hes).1
  have hsx := time_of_detectPass hs
  rw [StrumEv.due_of_on hon, StrumEv.due_of_off hoff]
  show e.time + e.string * 10 + 180 ≤ _
  omega

/-- What a pass sends is not cut by what it sends later, … -/
theorem notCut_sent {passes : List Pass} {x : Pass} (hp : Paced (passes ++ [x]))
    (hold : NoOldEnd x.1 (entries (tableOf passes))) :
    ((entries (tableOf passes)).filter (dueByTick StrumEv.due x.1)).Pairwise NotCut := by
  have hnodup := (queue_of_run hp.left).nodup hp.left
  have hpairs : (entries (tableOf passes)).Pairwise (fun e e' => e.due ≤ x.1 → NotCut e e') := by
    apply pairwise_of_split
    intro pre e post hsplit e' he' hde hon hoff hnote
    by_contra hcut
    have hmem' : e' ∈ entries (tableOf passes) := by
      rw [hsplit]
      exact List.mem_append_right _ (List.mem_cons_of_mem e he')
    -- an end that comes too soon is in an earlier slot
    have hpre := (hold pre e post hsplit hon hde e' hmem' hoff hnote (by omega)).2
    rw [hsplit] at hnodup
    exact (List.nodup_append.mp hnodup).2.2 e' hpre e' (List.mem_cons_of_mem e he') rfl
  refine (hpairs.filter _).imp_of_mem ?_
  intro e e' he _ hnc
  exact hnc (pass_sends hp e he).2

/-- … nor by what it leaves. -/
theorem notCut_left {passes : List Pass} {x : Pass} (hp : Paced (passes ++ [x]))
    (hold : NoOldEnd x.1 (entries (tableOf passes))) :
    ∀ e ∈ (entries (tableOf passes)).filter (dueByTick StrumEv.due x.1),
      ∀ e' ∈ entries (sweep (dueByTick StrumEv.due x.1) (tableOf passes)), NotCut e e' := by
  intro e he e' he' hon hoff hnote
  obtain ⟨hmem, hde⟩ := pass_sends hp e he
  obtain ⟨hmem', hde'⟩ := pass_leaves hp e' he'
  by_contra hcut
  obtain ⟨pre, post, hsplit⟩ := List.append_of_mem hmem
  have hgone := (hold pre e post hsplit hon hde e' hmem' hoff hnote (by omega)).1
  omega

/-- **In such a run no note is cut.** -/
theorem notCut_of_neverOldEnd {passes : List Pass} (hp : Paced passes) (h : NeverOldEnd passes) :
    (sentOf passes).Pairwise NotCut ∧ ∀ e ∈ sentOf passes, ∀ e' ∈ entries (tableOf passes), NotCut e e' := by
  induction passes using List.reverseRecOn with
  | nil => exact ⟨List.Pairwise.nil, fun e he => absurd he List.not_mem_nil⟩
  | append_singleton passes x ih =>
      obtain ⟨hbefore, hacross⟩ := ih hp.left h.left
      have hold : NoOldEnd x.1 (entries (tableOf passes)) := h passes x [] rfl
      obtain ⟨htable, hsent, -⟩ := tableOf_concat passes x
      have hmem : ∀ e ∈ sentOf (passes ++ [x]), e ∈ (strumsOf passes).flatMap Strum.events := by
        intro e he
        have hperm := (queue_of_run hp.left).account
        rw [hsent] at he
        rcases List.mem_append.mp he with he | he
        · exact hperm.mem_iff.mp (List.mem_append_left _ he)
        · exact hperm.mem_iff.mp (List.mem_append_right _ (pass_sends hp e he).1)
      constructor
      · rw [hsent, List.pairwise_append]
        exact ⟨hbefore, notCut_sent hp hold, fun e he e' he' => hacross e he e' (pass_sends hp e' he').1⟩
      · intro e he e' he'
        rw [htable] at he'
        rcases mem_entries_puts he' with hnew | hkept
        · exact notCut_new hp (hmem e he) hnew
        · rw [hsent] at he
          rcases List.mem_append.mp he with he | he
          · exact hacross e he e' (pass_leaves hp e' hkept).1
          · exact notCut_left hp hold e he e' hkept

/-! ## Strums that share no note with what is left -/

/-- No strum is played while the end of one of its notes is in the queue. -/
def NoSharedEnd (passes : List Pass) : Prop :=
  ∀ pre x post, passes = pre ++ x :: post →
    ∀ s ∈ (detectPass (finish detectPass Detector.start pre) x).2, ∀ e ∈ s.events, e.type = .evOn →
      ∀ e' ∈ entries (sweep (dueByTick StrumEv.due x.1) (tableOf pre)), e'.type = .evOff → e'.note ≠ e.note

theorem NoSharedEnd.left {passes passes' : List Pass} (h : NoSharedEnd (passes ++ passes')) : NoSharedEnd passes := by
  rintro pre x post rfl
  exact h pre x (post ++ passes') (by rw [List.append_assoc, List.cons_append])

/-- An event of a strum is of the note of its string. -/
theorem note_of_event {s : Strum} {e : StrumEv} (h : e ∈ s.events) : (buildTriad s.chord)[e.string]? = some e.note := by
  obtain ⟨p, hp, he⟩ := List.mem_flatMap.mp h
  obtain ⟨y, hy, rfl⟩ := List.mem_map.mp hp
  have hget := List.mem_zipIdx_iff_getElem?.mp hy
  rcases List.mem_cons.mp he with rfl | he
  · exact hget
  · rw [List.mem_singleton.mp he]
    exact hget

/-- The notes of a strum are different. -/
theorem string_of_note {s : Strum} {e e' : StrumEv} (he : e ∈ s.events) (he' : e' ∈ s.events)
    (hnote : e'.note = e.note) : e'.string = e.string := by
  have hdistinct : (buildTriad s.chord).Nodup := by
    unfold buildTriad
    split
    · simp
    · split
      · simp
      · exact List.nodup_nil
  have hget := note_of_event he
  have hget' := note_of_event he'
  have hlt : e'.string < (buildTriad s.chord).length := (List.getElem?_eq_some_iff.mp hget').1
  exact (List.getElem?_inj hlt hdistinct).mp (by rw [hget, hget', hnote])

/-- What is left in such a run of the ends of a note that is to start belongs to the same strum. -/
theorem same_strum_of_noSharedEnd {passes : List Pass} (hp : Paced passes) (h : NoSharedEnd passes) :
    ∀ e ∈ entries (tableOf passes), e.type = .evOn → ∀ e' ∈ entries (tableOf passes), e'.type = .evOff →
      e'.note = e.note → e'.time = e.time := by
  induction passes using List.reverseRecOn with
  | nil =>
      intro e he
      rw [show entries (tableOf []) = entries (List.replicate 32 none) from rfl, entries_replicate_none] at he
      exact absurd he List.not_mem_nil
  | append_singleton passes x ih =>
      intro e he hon e' he' hoff hnote
      have hprev := ih hp.left h.left
      rw [(tableOf_concat passes x).1] at he he'
      rcases mem_entries_puts he with hnew | hkept
      · obtain ⟨s, hs, hes⟩ := List.mem_flatMap.mp hnew
        rcases mem_entries_puts he' with hnew' | hkept'
        · obtain ⟨s', hs', hes'⟩ := List.mem_flatMap.mp hnew'
          have htime := (mem_events hes).1.trans (time_of_detectPass hs)
          have htime' := (mem_events hes').1.trans (time_of_detectPass hs')
          rw [htime, htime']
        · exact absurd hnote (h passes x [] rfl s hs e hes hon e' hkept' hoff)
      · obtain ⟨hmem, hlater⟩ := pass_leaves hp e hkept
        rcases mem_entries_puts he' with hnew' | hkept'
        · -- a start left by an earlier strum is due by now
          obtain ⟨s', hs', -⟩ := List.mem_flatMap.mp hnew'
          obtain ⟨r, hr, her⟩ := List.mem_flatMap.mp
            ((queue_of_run hp.left).account.mem_iff.mp (List.mem_append_right _ hmem))
          have hbefore := before_strum hp hs' r hr
          obtain ⟨htime, hstring, -⟩ := mem_events her
          rw [StrumEv.due_of_on hon] at hlater
          omega
        · exact hprev e hmem hon e' (pass_leaves hp e' hkept').1 hoff hnote

theorem neverOldEnd_of_noSharedEnd {passes : List Pass} (hp : Paced passes) (h : NoSharedEnd passes) :
    NeverOldEnd passes := by
  rintro pre x post rfl l e r hsplit hon - e' he' hoff hnote hsoon
  have he : e ∈ entries (tableOf pre) := by
    rw [hsplit]
    exact List.mem_append_right _ List.mem_cons_self
  have htime := same_strum_of_noSharedEnd hp.left h.left e he hon e' he' hoff hnote
  -- two events at one time are of one strum, and of one note of it
  have hperm := (queue_of_run hp.left).account
  obtain ⟨s, hs, hes⟩ := List.mem_flatMap.mp (hperm.mem_iff.mp (List.mem_append_right _ he))
  obtain ⟨s', hs', hes'⟩ := List.mem_flatMap.mp (hperm.mem_iff.mp (List.mem_append_right _ he'))
  have hst := (mem_events hes).1
  have hst' := (mem_events hes').1
  have hstring : e'.string = e.string := by
    rcases time_apart (strums_spaced hp.left).1 hs hs' with rfl | hlt | hlt
    · exact string_of_note hes hes' hnote
    · omega
    · omega
  rw [StrumEv.due_of_on hon, StrumEv.due_of_off hoff, htime, hstring] at hsoon
  exact absurd hsoon (Nat.lt_irrefl _)

/-- **Every note of a run sounds for its full length if no pass starts a note whose end from an earlier strum is
    in the queue and not sent before it.** That is so if no strum is played while the end of one of its notes is
    in the queue. -/
theorem full_length (q₀ : Queue) (passes : List Pass) (h : Paced passes) :
    (∀ pre post, passes = pre ++ post →
        (finish mainPass (mainStart q₀) (pre.map ticked)).q.pending = (entries (tableOf pre)).map StrumEv.event
          ∧ messages (sdiWritesOf (emit mainPass (mainStart q₀) (pre.map ticked)))
              = some ((sentOf pre).map StrumEv.message))
      ∧ (NeverOldEnd passes → ∀ pre post, passes = pre ++ post → FullLength (sentOf pre))
      ∧ (NoSharedEnd passes → NeverOldEnd passes) := by
  refine ⟨?_, ?_, neverOldEnd_of_noSharedEnd h⟩
  · intro pre post _
    rw [Queue.pending, (view_run q₀ pre).1, entries_map, main_writes, messages_sdi]
    exact ⟨rfl, rfl⟩
  · rintro hold pre post rfl
    exact fullLength_of_pairwise (notCut_of_neverOldEnd h.left hold.left).1

/-- A single strum. -/
theorem full_length_oneStrum : FullLength (sentOf oneStrum) := by
  have hshared : NoSharedEnd oneStrum := by
    intro pre x post hsplit s hs e _ _ e' he' _
    cases pre with
    | nil =>
        have hempty : entries (tableOf []) = [] := entries_replicate_none 32
        rw [entries_sweep, hempty] at he'
        exact absurd he' List.not_mem_nil
    | cons y pre =>
        cases pre with
        | nil =>
            obtain ⟨-, hrest⟩ := List.cons.inj hsplit
            obtain ⟨rfl, -⟩ := List.cons.inj hrest
            exact absurd hs List.not_mem_nil
        | cons z pre =>
            have hlen := congrArg List.length hsplit
            simp [oneStrum] at hlen
  have hfull := full_length (Vector.replicate qSize (eventOf .evOn 0 0 0 0)) oneStrum paced_oneStrum
  exact hfull.2.1 (hfull.2.2 hshared) oneStrum [] (List.append_nil _).symm

/-! ## Two strums of one chord -/

/-- DO mayor struck at 200 and at 301, and passes that find each note due. -/
def restruck : List Pass :=
  [(200, [⟨botonesDo, 500⟩, ⟨botonesDo, 0⟩]), (230, []), (301, [⟨botonesDo, 500⟩, ⟨botonesDo, 0⟩]), (330, []),
    (380, [])]

/-- **The first note is struck again at 301 and goes off at 380.** -/
theorem cut_short :
    Paced restruck
      ∧ messages (sdiWritesOf (emit mainPass (mainStart (Vector.replicate qSize (eventOf .evOn 0 0 0 0)))
          (restruck.map ticked))) = some ((sentOf restruck).map StrumEv.message)
      ∧ (sentOf restruck).map (fun e => (e.type, e.note, e.due))
          = [(.evOn, 60, 200), (.evOn, 64, 210), (.evOn, 67, 220), (.evOn, 60, 301), (.evOn, 64, 311),
              (.evOn, 67, 321), (.evOff, 60, 380)]
      ∧ ¬ FullLength (sentOf restruck) := by
  have hpaced : Paced restruck := by
    unfold Paced
    decide
  have hsent : sentOf restruck
      = [⟨200, 0, .evOn, 60, 127⟩, ⟨200, 1, .evOn, 64, 127⟩, ⟨200, 2, .evOn, 67, 127⟩, ⟨301, 0, .evOn, 60, 127⟩,
          ⟨301, 1, .evOn, 64, 127⟩, ⟨301, 2, .evOn, 67, 127⟩, ⟨200, 0, .evOff, 60, 64⟩] := by decide +kernel
  refine ⟨hpaced, ?_, ?_, ?_⟩
  · rw [main_writes, messages_sdi]
  · rw [hsent]
    rfl
  · intro hfull
    have hcut := hfull _ _ [] (show sentOf restruck = [_, _, _, _, _, _] ++ _ :: [] from hsent) rfl
      ⟨301, 0, .evOn, 60, 127⟩ (by decide)
    exact absurd hcut (by decide)

end GuitarraMidi.TestLatency
