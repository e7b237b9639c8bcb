import GuitarraMidi.TestLatency.Correctness.Strums

/-!
# `TestLatency.Correctness.EventQueue` — strums never overflow the queue

Strums are more than 100 ms apart (`strums_spaced`), and the notes of one have started after 20 ms and ended
after 200. So when a strum is scheduled, what is left of those before it are the ends of the notes of at most
one (`leftover_le`): three events, and six new ones. The queue never needs more than 9 slots
(`queue_of_run`), no call of `strumChord` is refused, and every event is sent once, when it is due, the end of a
note after its start (`player_events`).
-/

namespace GuitarraMidi.TestLatency

open Clock EduCiaa EduCiaa.ChordQuality Midi SlotTable TimerTable Transducer

/-- Tick readings that do not go back, less than half a turn apart. -/
def Paced (passes : List Pass) : Prop := passes.IsChain (fun x y => x.1 ≤ y.1 ∧ y.1 < x.1 + 2 ^ 31)

/-! ## The detector over a run -/

theorem detectStrum_of_event {d : Detector} {gz : ℚ} {now : UInt32} (h : (detectStrum d gz now).2 = true) :
    strumCooldown < now - d.lastStrumMs ∧ (detectStrum d gz now).1.lastStrumMs = now := by
  rw [detectStrum_eq] at h ⊢
  have hcond : isStrum d gz now = true := h
  refine ⟨?_, if_pos hcond⟩
  rw [isStrum, Bool.and_eq_true, decide_eq_true_eq] at hcond
  exact hcond.2

theorem detectStrum_of_quiet {d : Detector} {gz : ℚ} {now : UInt32} (h : (detectStrum d gz now).2 = false) :
    (detectStrum d gz now).1.lastStrumMs = d.lastStrumMs := by
  rw [detectStrum_eq] at h ⊢
  exact if_neg (Bool.eq_false_iff.mp h)

/-- A packet without a strum leaves the time of the last one; a packet with one is more than the cooldown after
    it, and sets it. -/
theorem detectPacket_cases (t : Nat) (d : Detector) (msg : Packet) :
    ((detectPacket t d msg).2 = [] ∧ (detectPacket t d msg).1.lastStrumMs = d.lastStrumMs)
      ∨ ∃ s, (detectPacket t d msg).2 = [s] ∧ s.time = t ∧ strumCooldown < tick t - d.lastStrumMs
          ∧ (detectPacket t d msg).1.lastStrumMs = tick t := by
  by_cases hchord : msg.chord.tipo = chordNone
  · rw [detectPacket_of_none hchord]
    exact Or.inl ⟨rfl, rfl⟩
  · rw [detectPacket_of_chord hchord]
    cases hevent : (detectStrum d msg.gz (tick t)).2 with
    | false => exact Or.inl ⟨rfl, detectStrum_of_quiet hevent⟩
    | true =>
        obtain ⟨hcool, hlast⟩ := detectStrum_of_event hevent
        exact Or.inr ⟨_, rfl, rfl, hcool, hlast⟩

/-- In the pass of a strum there is no other. -/
theorem detectPacket_after_strum {t : Nat} {d : Detector} (h : d.lastStrumMs = tick t) (packets : List Packet) :
    emit (detectPacket t) d packets = [] ∧ (finish (detectPacket t) d packets).lastStrumMs = tick t := by
  induction packets generalizing d with
  | nil => exact ⟨rfl, h⟩
  | cons msg packets ih =>
      rcases detectPacket_cases t d msg with ⟨hout, hlast⟩ | ⟨s, -, -, hcool, -⟩
      · obtain ⟨hrest, hfin⟩ := ih (hlast.trans h)
        rw [emit_cons, finish_cons, hout, hrest]
        exact ⟨rfl, hfin⟩
      · rw [h, UInt32.sub_self] at hcool
        exact absurd hcool (by decide)

/-- **A pass has at most one strum.** -/
theorem detectPass_cases (d : Detector) (x : Pass) :
    ((detectPass d x).2 = [] ∧ (detectPass d x).1.lastStrumMs = d.lastStrumMs)
      ∨ ∃ s, (detectPass d x).2 = [s] ∧ s.time = x.1 ∧ strumCooldown < tick x.1 - d.lastStrumMs
          ∧ (detectPass d x).1.lastStrumMs = tick x.1 := by
  obtain ⟨t, packets⟩ := x
  show (emit (detectPacket t) d packets = [] ∧ (finish (detectPacket t) d packets).lastStrumMs = d.lastStrumMs) ∨
    ∃ s, emit (detectPacket t) d packets = [s] ∧ s.time = t ∧ _
      ∧ (finish (detectPacket t) d packets).lastStrumMs = tick t
  induction packets generalizing d with
  | nil => exact Or.inl ⟨rfl, rfl⟩
  | cons msg packets ih =>
      rw [emit_cons, finish_cons]
      rcases detectPacket_cases t d msg with ⟨hout, hlast⟩ | ⟨s, hout, htime, hcool, hlast⟩
      · rw [hout, List.nil_append, ← hlast]
        exact ih _
      · obtain ⟨hrest, hfin⟩ := detectPacket_after_strum hlast packets
        rw [hout, hrest]
        exact Or.inr ⟨s, rfl, htime, hcool, hfin⟩

theorem strumsOf_concat (passes : List Pass) (x : Pass) :
    strumsOf (passes ++ [x]) = strumsOf passes ++ (detectPass (finish detectPass Detector.start passes) x).2 :=
  emit_concat _ passes x

theorem Paced.left {passes passes' : List Pass} (h : Paced (passes ++ passes')) : Paced passes := h.left_of_append

theorem Paced.le {passes : List Pass} {x : Pass} (h : Paced (passes ++ [x])) : ∀ y ∈ passes, y.1 ≤ x.1 := by
  have htimes : (passes ++ [x]).Pairwise (fun y z => y.1 ≤ z.1) := pairwise_le h (fun _ _ hyz => hyz.1)
  intro y hy
  exact (List.pairwise_append.mp htimes).2.2 y hy x List.mem_cons_self

/-- A strum is more than the cooldown after the last one, so it is after all of them. -/
theorem cooled_down {strums : List Strum} {d : Detector} {t : Nat}
    (hspaced : strums.Pairwise (fun s s' => s.time + 100 < s'.time)) (hbefore : ∀ s ∈ strums, s.time ≤ t)
    (hlast : ∀ s ∈ strums.getLast?, d.lastStrumMs = tick s.time) (hcool : strumCooldown < tick t - d.lastStrumMs) :
    ∀ s ∈ strums, s.time + 100 < t := by
  intro r hr
  obtain ⟨init, last, rfl⟩ := (List.eq_nil_or_concat' strums).resolve_left (List.ne_nil_of_mem hr)
  have hlasttime : last.time + 100 < t := by
    rw [hlast last List.getLast?_concat] at hcool
    exact lt_elapsed (hbefore last (List.mem_append_right init List.mem_cons_self)) hcool
  rcases List.mem_append.mp hr with hr | hr
  · have hrl := (List.pairwise_append.mp hspaced).2.2 r hr last List.mem_cons_self
    omega
  · rw [List.mem_singleton.mp hr]
    exact hlasttime

/-- **Strums are more than 100 ms apart in true time.** -/
theorem strums_spaced {passes : List Pass} (h : Paced passes) :
    (strumsOf passes).Pairwise (fun s s' => s.time + 100 < s'.time)
      ∧ (∀ s ∈ strumsOf passes, ∃ x ∈ passes, s.time = x.1)
      ∧ ∀ s ∈ (strumsOf passes).getLast?, (finish detectPass Detector.start passes).lastStrumMs = tick s.time := by
  induction passes using List.reverseRecOn with
  | nil => exact ⟨List.Pairwise.nil, fun s hs => absurd hs List.not_mem_nil, fun s hs => absurd hs (by simp [strumsOf])⟩
  | append_singleton passes x ih =>
      obtain ⟨hspaced, htimes, hlast⟩ := ih h.left
      have htimes' : ∀ s ∈ strumsOf passes, ∃ y ∈ passes ++ [x], s.time = y.1 := by
        intro s hs
        obtain ⟨y, hy, hsy⟩ := htimes s hs
        exact ⟨y, List.mem_append_left _ hy, hsy⟩
      rw [strumsOf_concat, finish_concat]
      rcases detectPass_cases (finish detectPass Detector.start passes) x with
        ⟨hout, hsame⟩ | ⟨s, hout, htime, hcool, hset⟩
      · rw [hout, hsame, List.append_nil]
        exact ⟨hspaced, htimes', hlast⟩
      · rw [hout, hset]
        have hbefore : ∀ r ∈ strumsOf passes, r.time ≤ x.1 := by
          intro r hr
          obtain ⟨y, hy, hry⟩ := htimes r hr
          rw [hry]
          exact h.le y hy
        refine ⟨?_, ?_, ?_⟩
        · rw [List.pairwise_append]
          refine ⟨hspaced, List.pairwise_singleton _ s, ?_⟩
          intro r hr s' hs'
          rw [List.mem_singleton.mp hs', htime]
          exact cooled_down hspaced hbefore hlast hcool r hr
        · intro r hr
          rcases List.mem_append.mp hr with hr | hr
          · exact htimes' r hr
          · rw [List.mem_singleton.mp hr]
            exact ⟨x, List.mem_append_right _ List.mem_cons_self, htime⟩
        · intro r hr
          rw [List.getLast?_concat, Option.mem_some_iff] at hr
          rw [← hr, htime]

/-! ## The events of a strum -/

theorem buildTriad_cases (chord : ButtonChord) : buildTriad chord = [] ∨ ∃ a b c, buildTriad chord = [a, b, c] := by
  unfold buildTriad
  split
  · exact Or.inr ⟨_, _, _, rfl⟩
  · split
    · exact Or.inr ⟨_, _, _, rfl⟩
    · exact Or.inl rfl

theorem pairs_of_nil {s : Strum} (h : buildTriad s.chord = []) : s.pairs = [] := by
  rw [Strum.pairs, h]
  rfl

theorem pairs_of_triad {s : Strum} {a b c : UInt8} (h : buildTriad s.chord = [a, b, c]) :
    s.pairs = [s.pair (a, 0), s.pair (b, 1), s.pair (c, 2)] := by
  rw [Strum.pairs, h]
  rfl

/-- The ends of the notes of a strum. -/
def Strum.ends (s : Strum) : List StrumEv := s.pairs.map Prod.snd

theorem length_pairs_le (s : Strum) : s.pairs.length ≤ 3 := by
  rcases buildTriad_cases s.chord with h | ⟨a, b, c, h⟩
  · rw [pairs_of_nil h]
    exact Nat.zero_le 3
  · rw [pairs_of_triad h]
    exact Nat.le_refl 3

theorem length_events (s : Strum) : s.events.length = 2 * s.pairs.length := by
  unfold Strum.events
  induction s.pairs with
  | nil => rfl
  | cons p ps ih =>
      have hpair : [p.1, p.2].length = 2 := rfl
      have hcons : (p :: ps).length = ps.length + 1 := rfl
      rw [List.flatMap_cons, List.length_append, ih]
      omega

/-- An event of a strum is the start or the end of one of its notes. -/
theorem mem_events {s : Strum} {e : StrumEv} (h : e ∈ s.events) :
    e.time = s.time ∧ e.string < 3 ∧ (e.type = .evOn ∨ e ∈ s.ends) := by
  rcases buildTriad_cases s.chord with htriad | ⟨a, b, c, htriad⟩
  · rw [Strum.events, pairs_of_nil htriad] at h
    exact absurd h List.not_mem_nil
  · rw [Strum.events, pairs_of_triad htriad] at h
    rw [Strum.ends, pairs_of_triad htriad]
    simp only [Strum.pair, List.flatMap_cons, List.flatMap_nil, List.mem_append, List.mem_cons, List.not_mem_nil,
      or_false] at h
    rcases h with (rfl | rfl) | (rfl | rfl) | (rfl | rfl) <;> simp [Strum.pair]

theorem nodup_events (s : Strum) : s.events.Nodup := by
  rcases buildTriad_cases s.chord with htriad | ⟨a, b, c, htriad⟩
  · rw [Strum.events, pairs_of_nil htriad]
    exact List.nodup_nil
  · rw [Strum.events, pairs_of_triad htriad]
    simp [Strum.pair]

/-- Strums at different times have different events. -/
theorem nodup_flatMap_events {strums : List Strum} (h : strums.Pairwise (fun s s' => s.time + 100 < s'.time)) :
    (strums.flatMap Strum.events).Nodup := by
  rw [List.nodup_flatMap]
  refine ⟨fun s _ => nodup_events s, h.imp ?_⟩
  intro s s' hlt e he he'
  have htime := (mem_events he).1
  have htime' := (mem_events he').1
  omega

/-! ## The history of a run -/

/-- The calls of a pass are all made at its time, the first of them to `midiSchedProcess`. -/
theorem historyOf_concat (passes : List Pass) (x : Pass) :
    historyOf (passes ++ [x]) = historyOf passes ++ (x.1, .poll)
      :: ((detectPass (finish detectPass Detector.start passes) x).2.flatMap Strum.events).map
          (fun e => (x.1, .schedule e)) := emit_concat _ passes x

theorem asked_historyOf (passes : List Pass) :
    asked ((historyOf passes).map op) = (strumsOf passes).flatMap Strum.events := by
  induction passes using List.reverseRecOn with
  | nil => rfl
  | append_singleton passes x ih =>
      have hblock : ∀ es : List StrumEv,
          asked (((x.1, Call.poll) :: es.map (fun e => (x.1, Call.schedule e))).map op) = es := by
        intro es
        induction es with
        | nil => rfl
        | cons e es ih' => exact congrArg (e :: ·) ih'
      have happend : ∀ h h' : History StrumEv, asked ((h ++ h').map op) = asked (h.map op) ++ asked (h'.map op) := by
        intro h h'
        rw [List.map_append, asked, List.filterMap_append]
        rfl
      rw [historyOf_concat, strumsOf_concat, happend, hblock, ih, List.flatMap_append]

/-- The strums of a pass are at its time. -/
theorem time_of_detectPass {d : Detector} {x : Pass} {s : Strum} (h : s ∈ (detectPass d x).2) : s.time = x.1 := by
  rcases detectPass_cases d x with ⟨hout, -⟩ | ⟨s', hout, htime, -, -⟩
  · rw [hout] at h
    exact absurd h List.not_mem_nil
  · rw [hout] at h
    rw [List.mem_singleton.mp h]
    exact htime

/-- An event is scheduled at the time of its strum. -/
theorem time_of_schedule {passes : List Pass} {t : Nat} {e : StrumEv}
    (h : (t, Call.schedule e) ∈ historyOf passes) : e.time = t ∧ e.string < 3 := by
  induction passes using List.reverseRecOn with
  | nil => exact absurd h List.not_mem_nil
  | append_singleton passes x ih =>
      rw [historyOf_concat, List.mem_append, List.mem_cons] at h
      rcases h with h | h | h
      · exact ih h
      · exact absurd (congrArg Prod.snd h) (by simp)
      · obtain ⟨e', he', heq⟩ := List.mem_map.mp h
        obtain ⟨rfl, hcall⟩ := Prod.mk.inj heq
        obtain rfl := Call.schedule.inj hcall
        obtain ⟨s, hs, hes⟩ := List.mem_flatMap.mp he'
        exact ⟨(mem_events hes).1.trans (time_of_detectPass hs), (mem_events hes).2.1⟩

/-- The calls of a pass are at its time. -/
theorem time_of_block {x : Pass} {es : List StrumEv} {y : Nat × Call StrumEv}
    (h : y ∈ (x.1, Call.poll) :: es.map (fun e => (x.1, Call.schedule e))) : y.1 = x.1 := by
  rcases List.mem_cons.mp h with rfl | h
  · rfl
  · obtain ⟨e, -, rfl⟩ := List.mem_map.mp h
    rfl

/-- Each call of a run follows the one before it. -/
theorem history_follows {passes : List Pass} (h : Paced passes) :
    (historyOf passes).IsChain Follows
      ∧ ∀ y ∈ (historyOf passes).getLast?, ∀ x ∈ passes.getLast?, y.1 = x.1 := by
  induction passes using List.reverseRecOn with
  | nil => exact ⟨List.IsChain.nil, fun y hy => absurd hy (by simp [historyOf])⟩
  | append_singleton passes x ih =>
      obtain ⟨hprev, hlast⟩ := ih h.left
      rw [historyOf_concat]
      constructor
      · rw [List.isChain_append]
        refine ⟨hprev, ?_, ?_⟩
        · -- within a pass all calls are made at one time
          apply List.Pairwise.isChain
          apply List.pairwise_of_forall_mem_list
          intro y hy z hz
          have hsame : z.1 = y.1 := (time_of_block hz).trans (time_of_block hy).symm
          exact ⟨by omega, by omega, fun _ => hsame⟩
        · intro y hy z hz
          rw [List.head?_cons, Option.mem_some_iff] at hz
          subst hz
          cases hpasses : passes.getLast? with
          | none =>
              rw [List.getLast?_eq_none_iff.mp hpasses] at hy
              exact absurd hy (by simp [historyOf])
          | some w =>
              have hyw : y.1 = w.1 := hlast y hy w hpasses
              have hpaced := (List.isChain_append.mp h).2.2 w hpasses x rfl
              exact ⟨by omega, by omega, fun hne => absurd rfl hne⟩
      · intro y hy z hz
        rw [List.getLast?_append, List.getLast?_singleton, Option.some_or, Option.mem_some_iff] at hz
        rw [← hz]
        rw [List.getLast?_append_of_ne_nil _ (List.cons_ne_nil _ _)] at hy
        exact time_of_block (List.mem_of_getLast? hy)

/-- **The history of a run is well-timed.** -/
theorem history_wellTimed {passes : List Pass} (h : Paced passes) : WellTimed StrumEv.due (historyOf passes) := by
  apply wellTimed_of_follows (history_follows h).1
  intro t e he
  obtain ⟨rfl, hstring⟩ := time_of_schedule he
  cases htype : e.type with
  | evOn =>
      rw [StrumEv.due_of_on htype]
      exact ⟨by omega, by omega⟩
  | evOff =>
      rw [StrumEv.due_of_off htype]
      exact ⟨by omega, by omega⟩

/-! ## The queue over a run -/

/-- The slots after a run. -/
def tableOf (passes : List Pass) : Table StrumEv :=
  finish (step (dueByTick StrumEv.due)) (List.replicate 32 none) ((historyOf passes).map op)

/-- The events sent in a run, in that order. -/
def sentOf (passes : List Pass) : List StrumEv :=
  sent (dueByTick StrumEv.due) (List.replicate 32 none) ((historyOf passes).map op)

/-- Not the end of a note before its start. -/
def OnFirst (e e' : StrumEv) : Prop :=
  ¬ (e.type = .evOff ∧ e'.type = .evOn ∧ e.time = e'.time ∧ e.string = e'.string)

theorem onFirst_of_time {e e' : StrumEv} (h : e.time ≠ e'.time) : OnFirst e e' := fun hbad => h hbad.2.2.1

theorem onFirst_of_string {e e' : StrumEv} (h : e.string ≠ e'.string) : OnFirst e e' := fun hbad => h hbad.2.2.2

theorem time_of_pair {s : Strum} {p : StrumEv × StrumEv} (h : p ∈ s.pairs) :
    p.1.time = s.time ∧ p.2.time = s.time := by
  obtain ⟨x, -, rfl⟩ := List.mem_map.mp h
  exact ⟨rfl, rfl⟩

/-- The notes of a strum are on different strings. -/
theorem pairs_onFirst (s : Strum) : s.pairs.Pairwise (fun p q => ∀ e ∈ [p.1, p.2],
    (OnFirst e q.1 ∧ OnFirst q.1 e) ∧ OnFirst e q.2 ∧ OnFirst q.2 e) := by
  have hstrings : s.pairs.Pairwise (fun p q => p.1.string ≠ q.1.string) := by
    rcases buildTriad_cases s.chord with htriad | ⟨a, b, c, htriad⟩
    · rw [pairs_of_nil htriad]
      exact List.Pairwise.nil
    · rw [pairs_of_triad htriad]
      simp [Strum.pair]
  have hsame : ∀ p ∈ s.pairs, p.2.string = p.1.string := by
    intro p hp
    obtain ⟨x, -, rfl⟩ := List.mem_map.mp hp
    rfl
  refine hstrings.imp_of_mem ?_
  intro p q hp hq hne e he
  have hstring : e.string = p.1.string := by
    rcases List.mem_cons.mp he with rfl | he
    · rfl
    · rw [List.mem_singleton.mp he]
      exact hsame p hp
  have hon : e.string ≠ q.1.string := by rw [hstring]; exact hne
  have hoff : e.string ≠ q.2.string := by rw [hsame q hq]; exact hon
  exact ⟨⟨onFirst_of_string hon, onFirst_of_string hon.symm⟩, onFirst_of_string hoff, onFirst_of_string hoff.symm⟩

/-- What holds of the queue after every run. -/
structure QueueOk (passes : List Pass) : Prop where
  within : Within 9 (tableOf passes)
  accepted : ∀ o ∈ emit (step (dueByTick StrumEv.due)) (List.replicate 32 none) ((historyOf passes).map op),
    o.refused? = none
  onFirst : (sentOf passes ++ entries (tableOf passes)).Pairwise OnFirst

/-- What has been sent and what is pending are the events of the strums. -/
theorem QueueOk.account {passes : List Pass} (h : QueueOk passes) :
    (sentOf passes ++ entries (tableOf passes)).Perm ((strumsOf passes).flatMap Strum.events) := by
  have hconserved := @conserved _ _ (dueByTick StrumEv.due) (List.replicate 32 none) ((historyOf passes).map op)
  rw [entries_replicate_none, Multiset.coe_nil, add_zero, accepted_of_not_refused h.accepted, asked_historyOf,
    Multiset.coe_add] at hconserved
  exact Multiset.coe_eq_coe.mp hconserved.symm

/-- No event is twice in the queue. -/
theorem QueueOk.nodup {passes : List Pass} (hok : QueueOk passes) (h : Paced passes) :
    (entries (tableOf passes)).Nodup := by
  have hall : (sentOf passes ++ entries (tableOf passes)).Nodup :=
    hok.account.nodup_iff.mpr (nodup_flatMap_events (strums_spaced h).1)
  exact (List.nodup_append.mp hall).2.1

theorem mem_ends {s : Strum} {e : StrumEv} (h : e ∈ s.ends) : e.type = .evOff := by
  obtain ⟨p, hp, rfl⟩ := List.mem_map.mp h
  obtain ⟨x, -, rfl⟩ := List.mem_map.mp hp
  rfl

/-- Two strums of a run are the same or far apart. -/
theorem time_apart {strums : List Strum} (h : strums.Pairwise (fun s s' => s.time + 100 < s'.time)) {s s' : Strum}
    (hs : s ∈ strums) (hs' : s' ∈ strums) : s = s' ∨ s.time + 100 < s'.time ∨ s'.time + 100 < s.time := by
  induction strums with
  | nil => exact absurd hs List.not_mem_nil
  | cons r strums ih =>
      obtain ⟨hr, hrest⟩ := List.pairwise_cons.mp h
      rcases List.mem_cons.mp hs with rfl | hmem
      · rcases List.mem_cons.mp hs' with rfl | hmem'
        · exact Or.inl rfl
        · exact Or.inr (Or.inl (hr s' hmem'))
      · rcases List.mem_cons.mp hs' with rfl | hmem'
        · exact Or.inr (Or.inr (hr s hmem))
        · exact ih hrest hmem hmem'

/-- **When a strum is scheduled, at most the ends of the notes of one strum before it are left.** -/
theorem leftover_le {strums : List Strum} {t : Nat} {es : List StrumEv}
    (hspaced : strums.Pairwise (fun s s' => s.time + 100 < s'.time)) (hbefore : ∀ s ∈ strums, s.time + 100 < t)
    (hnodup : es.Nodup) (hes : ∀ e ∈ es, e ∈ strums.flatMap Strum.events ∧ t < e.due) : es.length ≤ 3 := by
  -- what is not due yet is an end, of a strum less than 200 ms before
  have hend : ∀ e ∈ es, ∃ s ∈ strums, e ∈ s.ends ∧ t < s.time + 201 := by
    intro e he
    obtain ⟨hmem, hdue⟩ := hes e he
    obtain ⟨s, hs, hes'⟩ := List.mem_flatMap.mp hmem
    obtain ⟨htime, hstring, hon | hoff⟩ := mem_events hes'
    · rw [StrumEv.due_of_on hon] at hdue
      have hs100 := hbefore s hs
      omega
    · rw [StrumEv.due_of_off (mem_ends hoff)] at hdue
      exact ⟨s, hs, hoff, by omega⟩
  cases es with
  | nil => exact Nat.zero_le 3
  | cons e₀ es =>
      obtain ⟨s₀, hs₀, -, hnear₀⟩ := hend e₀ List.mem_cons_self
      have hsame : ∀ e ∈ e₀ :: es, e ∈ s₀.ends := by
        intro e he
        obtain ⟨s, hs, hes', hnear⟩ := hend e he
        have hs100 := hbefore s hs
        have hs100' := hbefore s₀ hs₀
        rcases time_apart hspaced hs hs₀ with rfl | hlt | hlt
        · exact hes'
        · omega
        · omega
      have hle := (hnodup.subperm hsame).length_le
      have hends : s₀.ends.length ≤ 3 := by
        rw [Strum.ends, List.length_map]
        exact length_pairs_le s₀
      omega

/-- The slots and what has been sent, a pass later. -/
theorem tableOf_concat (passes : List Pass) (x : Pass) :
    let events := (detectPass (finish detectPass Detector.start passes) x).2.flatMap Strum.events
    let swept := sweep (dueByTick StrumEv.due x.1) (tableOf passes)
    tableOf (passes ++ [x]) = finish (step (dueByTick StrumEv.due)) swept (events.map Op.put)
      ∧ sentOf (passes ++ [x]) = sentOf passes ++ (entries (tableOf passes)).filter (dueByTick StrumEv.due x.1)
      ∧ emit (step (dueByTick StrumEv.due)) (List.replicate 32 none) ((historyOf (passes ++ [x])).map op)
        = emit (step (dueByTick StrumEv.due)) (List.replicate 32 none) ((historyOf passes).map op)
          ++ (((entries (tableOf passes)).filter (dueByTick StrumEv.due x.1)).map Out.sent
            ++ emit (step (dueByTick StrumEv.due)) swept (events.map Op.put)) := by
  intro events swept
  have hops : (historyOf (passes ++ [x])).map op = (historyOf passes).map op ++ Op.sweep x.1 :: events.map Op.put := by
    rw [historyOf_concat, List.map_append, List.map_cons, List.map_map]
    rfl
  have hputs : ∀ (ts : Table StrumEv) (es : List StrumEv),
      (emit (step (dueByTick StrumEv.due)) ts (es.map Op.put)).filterMap Out.sent? = [] := by
    intro ts es
    induction es generalizing ts with
    | nil => rfl
    | cons e es ih =>
        rw [List.map_cons, emit_cons, List.filterMap_append, ih]
        cases hput : put e ts with
        | none => rw [step_put_of_none hput]; rfl
        | some ts' => rw [step_put_of_some hput]; rfl
  refine ⟨?_, ?_, ?_⟩
  · rw [tableOf, hops, finish_append, finish_cons]
    rfl
  · rw [sentOf, sent, hops, emit_append, emit_cons, List.filterMap_append, List.filterMap_append, hputs,
      List.append_nil]
    exact congrArg (sentOf passes ++ ·) (filterMap_sent _)
  · rw [hops, emit_append, emit_cons]
    rfl

/-- The queue when a pass begins is judged by true time. -/
theorem pass_exact {passes : List Pass} {x : Pass} (h : Paced (passes ++ [x])) :
    ∀ e ∈ entries (tableOf passes), dueByTick StrumEv.due x.1 e = dueBy StrumEv.due x.1 e := by
  have hwell := history_wellTimed h
  rw [historyOf_concat, List.append_cons] at hwell
  exact poll_exact (entries_replicate_none 32) hwell.left

/-- What `midiSchedProcess` sends in a pass is due. -/
theorem pass_sends {passes : List Pass} {x : Pass} (h : Paced (passes ++ [x])) :
    ∀ e ∈ (entries (tableOf passes)).filter (dueByTick StrumEv.due x.1), e ∈ entries (tableOf passes) ∧ e.due ≤ x.1 := by
  intro e he
  obtain ⟨hmem, hdue⟩ := List.mem_filter.mp he
  rw [pass_exact h e hmem] at hdue
  exact ⟨hmem, of_decide_eq_true hdue⟩

/-- What `midiSchedProcess` leaves in a pass is not due yet. -/
theorem pass_leaves {passes : List Pass} {x : Pass} (h : Paced (passes ++ [x])) :
    ∀ e ∈ entries (sweep (dueByTick StrumEv.due x.1) (tableOf passes)), e ∈ entries (tableOf passes) ∧ x.1 < e.due := by
  intro e he
  rw [entries_sweep, List.mem_filter] at he
  obtain ⟨hmem, hdue⟩ := he
  rw [pass_exact h e hmem] at hdue
  exact ⟨hmem, by simpa [dueBy] using hdue⟩

/-- The strums before that of a pass are more than 100 ms before it. -/
theorem before_strum {passes : List Pass} {x : Pass} (h : Paced (passes ++ [x])) {s : Strum}
    (hs : s ∈ (detectPass (finish detectPass Detector.start passes) x).2) :
    ∀ r ∈ strumsOf passes, r.time + 100 < x.1 := by
  intro r hr
  obtain ⟨hspaced, -, -⟩ := strums_spaced h
  rw [strumsOf_concat] at hspaced
  rw [← time_of_detectPass hs]
  exact (List.pairwise_append.mp hspaced).2.2 r hr s hs

/-- What a pass sends and what it leaves are in order. -/
theorem QueueOk.swept_onFirst {passes : List Pass} {x : Pass} (hok : QueueOk passes) (h : Paced (passes ++ [x])) :
    (sentOf (passes ++ [x]) ++ entries (sweep (dueByTick StrumEv.due x.1) (tableOf passes))).Pairwise OnFirst := by
  rw [(tableOf_concat passes x).2.1]
  refine pairwise_sent_sweep hok.onFirst ?_
  rintro e he e' he' hdue hdue' ⟨hoff, hon, htime, hstring⟩
  rw [pass_exact h e he, dueBy, decide_eq_true_eq, StrumEv.due_of_off hoff] at hdue
  rw [pass_exact h e' he', dueBy, decide_eq_false_iff_not, StrumEv.due_of_on hon, ← htime, ← hstring] at hdue'
  omega

/-- No event of a strum was sent or pending at an earlier time than its own. -/
theorem QueueOk.new_onFirst {passes : List Pass} {x : Pass} (hok : QueueOk passes) (h : Paced (passes ++ [x]))
    {s : Strum} (hs : s ∈ (detectPass (finish detectPass Detector.start passes) x).2) :
    ∀ e ∈ sentOf (passes ++ [x]) ++ entries (sweep (dueByTick StrumEv.due x.1) (tableOf passes)), ∀ p ∈ s.pairs,
      (OnFirst e p.1 ∧ OnFirst p.1 e) ∧ OnFirst e p.2 ∧ OnFirst p.2 e := by
  intro e he p hp
  have hearlier : e.time ≠ s.time := by
    have hmem : e ∈ sentOf passes ++ entries (tableOf passes) := by
      rw [(tableOf_concat passes x).2.1, List.append_assoc, List.mem_append, List.mem_append] at he
      rcases he with he | he | he
      · exact List.mem_append_left _ he
      · exact List.mem_append_right _ (List.mem_filter.mp he).1
      · exact List.mem_append_right _ (pass_leaves h e he).1
    obtain ⟨r, hr, her⟩ := List.mem_flatMap.mp (hok.account.mem_iff.mp hmem)
    have hr100 := before_strum h hs r hr
    have hetime := (mem_events her).1
    have hstime := time_of_detectPass hs
    omega
  obtain ⟨hon, hoff⟩ := time_of_pair hp
  have hne : e.time ≠ p.1.time := by rw [hon]; exact hearlier
  have hne' : e.time ≠ p.2.time := by rw [hoff]; exact hearlier
  exact ⟨⟨onFirst_of_time hne, onFirst_of_time hne.symm⟩, onFirst_of_time hne', onFirst_of_time hne'.symm⟩

/-- When a strum is scheduled at most three events are left. -/
theorem QueueOk.leftover {passes : List Pass} {x : Pass} (hok : QueueOk passes) (h : Paced (passes ++ [x]))
    {s : Strum} (hs : s ∈ (detectPass (finish detectPass Detector.start passes) x).2) :
    (entries (sweep (dueByTick StrumEv.due x.1) (tableOf passes))).length ≤ 3 := by
  apply leftover_le (strums_spaced h.left).1 (before_strum h hs)
  · rw [entries_sweep]
    exact (hok.nodup h.left).filter _
  · intro e he
    obtain ⟨hmem, hdue⟩ := pass_leaves h e he
    exact ⟨hok.account.mem_iff.mp (List.mem_append_right _ hmem), hdue⟩

/-- The outputs of a pass are messages and the answers to its schedule calls. -/
theorem QueueOk.accepted_concat {passes : List Pass} {x : Pass} (hok : QueueOk passes)
    (hputs : ∀ o ∈ emit (step (dueByTick StrumEv.due)) (sweep (dueByTick StrumEv.due x.1) (tableOf passes))
      (((detectPass (finish detectPass Detector.start passes) x).2.flatMap Strum.events).map Op.put), o.refused? = none) :
    ∀ o ∈ emit (step (dueByTick StrumEv.due)) (List.replicate 32 none) ((historyOf (passes ++ [x])).map op),
      o.refused? = none := by
  intro o ho
  rw [(tableOf_concat passes x).2.2, List.mem_append, List.mem_append] at ho
  rcases ho with ho | ho | ho
  · exact hok.accepted o ho
  · obtain ⟨e, -, rfl⟩ := List.mem_map.mp ho
    rfl
  · exact hputs o ho

/-- **A pass keeps the queue in order.** -/
theorem QueueOk.pass {passes : List Pass} {x : Pass} (hok : QueueOk passes) (h : Paced (passes ++ [x])) :
    QueueOk (passes ++ [x]) := by
  have htable := (tableOf_concat passes x).1
  have hputs := hok.accepted_concat (x := x)
  have hwithin : Within 9 (sweep (dueByTick StrumEv.due x.1) (tableOf passes)) := hok.within.sweep _
  rcases detectPass_cases (finish detectPass Detector.start passes) x with ⟨hquiet, -⟩ | ⟨s, hstrum, -, -, -⟩
  · -- nothing is scheduled
    rw [hquiet] at htable hputs
    refine ⟨?_, hputs (fun o ho => absurd ho List.not_mem_nil), ?_⟩
    · rw [htable]
      exact hwithin
    · rw [htable]
      exact hok.swept_onFirst h
  · -- one strum is, and its six events fit behind the three that are left
    have hs : s ∈ (detectPass (finish detectPass Detector.start passes) x).2 := by
      rw [hstrum]
      exact List.mem_cons_self
    rw [hstrum, List.flatMap_singleton] at htable hputs
    have hleft := hok.leftover h hs
    have hsix : s.events.length ≤ 6 := by
      have hpairs := length_pairs_le s
      rw [length_events]
      omega
    obtain ⟨hfits, hanswers⟩ := @puts_accepted _ _ (dueByTick StrumEv.due) 9 _ s.events hwithin
      (by rw [length_sweep, tableOf, length_finish]; decide) (by omega)
    refine ⟨?_, hputs hanswers, ?_⟩
    · rw [htable]
      exact hfits
    · rw [htable]
      refine pairwise_puts (hok.swept_onFirst h) (hok.new_onFirst h hs) (pairs_onFirst s) ?_ hanswers
      intro p hp hbad
      obtain ⟨y, -, rfl⟩ := List.mem_map.mp hp
      exact absurd hbad.1 (by simp [Strum.pair])

/-- **No strum overflows the queue**, and each note starts before it ends. -/
theorem queue_of_run {passes : List Pass} (h : Paced passes) : QueueOk passes := by
  induction passes using List.reverseRecOn with
  | nil =>
      refine ⟨within_replicate_none 9 32, fun o ho => absurd ho List.not_mem_nil, ?_⟩
      rw [show sentOf [] ++ entries (tableOf []) = entries (List.replicate 32 none) from rfl, entries_replicate_none]
      exact List.Pairwise.nil
  | append_singleton passes x ih => exact (ih h.left).pass h

/-! ## The main loop -/

/-- The event as the queue holds it. -/
def StrumEv.event (e : StrumEv) : MidiEv := e.timed.event

/-- The scheduler of the main loop holds and puts out what the table of tagged events does. -/
theorem view_run (q₀ : Queue) (passes : List Pass) :
    (finish mainPass (mainStart q₀) (passes.map ticked)).q.table
        = (tableOf passes).map (Option.map StrumEv.event)
      ∧ emit (step isDueAt) (List.replicate 32 none) (((historyOf passes).map (viewCall StrumEv.timed)).map op)
        = (emit (step (dueByTick StrumEv.due)) (List.replicate 32 none) ((historyOf passes).map op)).map
            (Out.map StrumEv.timed) := by
  have hview := @run_view _ TimedEv.due _ StrumEv.timed (List.replicate 32 none) (historyOf passes)
  rw [List.map_replicate, Option.map_none] at hview
  refine ⟨?_, hview.2⟩
  rw [(main_run q₀ passes).1, (timed_run q₀ _).1, hview.1, List.map_map]
  exact List.map_congr_left (fun o _ => Option.map_map _ _ o)

/-- What the main loop writes are the messages of the events sent. -/
theorem main_writes (q₀ : Queue) (passes : List Pass) :
    sdiWritesOf (emit mainPass (mainStart q₀) (passes.map ticked)) = sdi ((sentOf passes).map StrumEv.message) := by
  have hmap : ∀ out : List (Out StrumEv), (out.map (Out.map StrumEv.timed)).filterMap Out.sent?
      = (out.filterMap Out.sent?).map StrumEv.timed := by
    intro out
    rw [List.filterMap_map, List.map_filterMap]
    apply List.filterMap_congr
    rintro (e | e | e) - <;> rfl
  have hwritten := writes_timed q₀ ((historyOf passes).map (viewCall StrumEv.timed))
  rw [sent, (view_run q₀ passes).2, hmap, List.map_map, List.map_map] at hwritten
  rw [sdiWritesOf, (main_run q₀ passes).2.1]
  exact hwritten

theorem mainPass_strums (q₀ : Queue) (pre : List Pass) (x : Pass) :
    (mainPass (finish mainPass (mainStart q₀) (pre.map ticked)) (ticked x)).2.filterMap MainOutput.strum?
      = (detectPass (finish mainPass (mainStart q₀) (pre.map ticked)).det x).2.map Strum.call :=
  (mainPass_eq _ x).2.2

/-- The start of a note whose end is an event of a strum is one too. -/
theorem start_of_end {s : Strum} {e : StrumEv} (h : e ∈ s.ends) :
    ∃ e' ∈ s.events, e'.type = .evOn ∧ e'.time = e.time ∧ e'.string = e.string ∧ e'.note = e.note := by
  obtain ⟨p, hp, rfl⟩ := List.mem_map.mp h
  refine ⟨p.1, List.mem_flatMap.mpr ⟨p, hp, List.mem_cons_self⟩, ?_⟩
  obtain ⟨x, -, rfl⟩ := List.mem_map.mp hp
  exact ⟨rfl, rfl, rfl, rfl⟩

/-- Once a pass has processed the queue at or after its due time, an event scheduled before has been sent. -/
theorem sent_when_due {passes : List Pass} {x : Pass} (h : Paced (passes ++ [x])) {s : Strum}
    (hs : s ∈ strumsOf passes) {e : StrumEv} (he : e ∈ s.events) (hdue : e.due ≤ x.1) :
    e ∈ sentOf (passes ++ [x]) := by
  rw [(tableOf_concat passes x).2.1]
  have hmem := (queue_of_run h.left).account.mem_iff.mpr (List.mem_flatMap.mpr ⟨s, hs, he⟩)
  rcases List.mem_append.mp hmem with hmem | hmem
  · exact List.mem_append_left _ hmem
  · refine List.mem_append_right _ (List.mem_filter.mpr ⟨hmem, ?_⟩)
    rw [pass_exact h e hmem]
    exact decide_eq_true hdue

/-- The end of a note is sent after its start. -/
theorem sent_start_first {passes : List Pass} (h : Paced passes) {pre post : List StrumEv} {e : StrumEv}
    (hsent : sentOf passes = pre ++ e :: post) (hoff : e.type = .evOff) :
    ∃ e' ∈ pre, e'.type = .evOn ∧ e'.time = e.time ∧ e'.string = e.string ∧ e'.note = e.note := by
  have hok := queue_of_run h
  have hmem : e ∈ (strumsOf passes).flatMap Strum.events :=
    hok.account.mem_iff.mp (List.mem_append_left _ (by rw [hsent]; simp))
  obtain ⟨s, hs, he⟩ := List.mem_flatMap.mp hmem
  have hend : e ∈ s.ends := by
    rcases (mem_events he).2.2 with hon | hend
    · rw [hoff] at hon
      exact absurd hon (by decide)
    · exact hend
  obtain ⟨e', he', hon, htime, hstring, hnote⟩ := start_of_end hend
  have hmem' := hok.account.mem_iff.mpr (List.mem_flatMap.mpr ⟨s, hs, he'⟩)
  have honFirst := hok.onFirst
  rw [hsent] at hmem' honFirst
  rw [List.append_assoc, List.cons_append] at hmem' honFirst
  have hafter := (List.pairwise_cons.mp (List.pairwise_append.mp honFirst).2.1).1
  rcases List.mem_append.mp hmem' with hpre | hrest
  · exact ⟨e', hpre, hon, htime, hstring, hnote⟩
  · rcases List.mem_cons.mp hrest with rfl | hrest
    · rw [hoff] at hon
      exact absurd hon (by decide)
    · exact absurd ⟨hoff, hon, htime.symm, hstring.symm⟩ (hafter e' hrest)

theorem chord_of_strum {passes : List Pass} {s : Strum} (h : s ∈ strumsOf passes) : s.chord.tipo ≠ chordNone := by
  have hpacket : ∀ (t : Nat) (d : Detector) (msg : Packet),
      ∀ s ∈ (detectPacket t d msg).2, s.chord.tipo ≠ chordNone := by
    intro t d msg s hs
    by_cases hchord : msg.chord.tipo = chordNone
    · rw [detectPacket_of_none hchord] at hs
      exact absurd hs List.not_mem_nil
    · rw [detectPacket_of_chord hchord] at hs
      cases hevent : (detectStrum d msg.gz (tick t)).2 with
      | false =>
          rw [hevent] at hs
          exact absurd hs List.not_mem_nil
      | true =>
          rw [hevent] at hs
          rw [List.mem_singleton.mp hs]
          exact hchord
  exact forall_mem_emit (fun d x => forall_mem_emit (hpacket x.1) d x.2) Detector.start passes s h

theorem length_events_of_strum {passes : List Pass} {s : Strum} (h : s ∈ strumsOf passes) : s.events.length = 6 := by
  rcases buildTriad_cases s.chord with htriad | ⟨a, b, c, htriad⟩
  · exact absurd htriad (buildTriad_ne_nil (chord_of_strum h))
  · rw [length_events, pairs_of_triad htriad]
    rfl

/-- The slots from the tenth on are never used. -/
theorem slot_unused (q₀ : Queue) {passes : List Pass} (h : Paced passes) {i : Fin qSize} (hi : 9 ≤ i.val) :
    ((finish mainPass (mainStart q₀) (passes.map ticked)).q.get i).used = 0 := by
  have hslot := getElem?_table (finish mainPass (mainStart q₀) (passes.map ticked)).q i
  rw [(view_run q₀ passes).1, List.getElem?_map] at hslot
  obtain ⟨o, ho, hslot⟩ := Option.map_eq_some_iff.mp hslot
  rw [(queue_of_run h).within.free hi ho] at hslot
  exact slotOf_eq_none_iff.mp hslot.symm

/-- No schedule call fails. -/
theorem sched_accepted (q₀ : Queue) {passes : List Pass} (h : Paced passes) :
    ∀ o ∈ (emit mainPass (mainStart q₀) (passes.map ticked)).filterMap MainOutput.sched?, o.refused = false := by
  have hview : ∀ o ∈ emit (step isDueAt) (List.replicate 32 none)
      (((historyOf passes).map (viewCall StrumEv.timed)).map op), o.refused? = none := by
    intro o ho
    rw [(view_run q₀ passes).2] at ho
    obtain ⟨o', ho', rfl⟩ := List.mem_map.mp ho
    have haccepted := (queue_of_run h).accepted o' ho'
    cases o' with
    | accepted e => rfl
    | refused e => exact absurd haccepted (by simp [Out.refused?])
    | sent e => rfl
  have hnone := noneRefused hview q₀
  rw [NoneRefused, List.map_map] at hnone
  rw [(main_run q₀ passes).2.1]
  exact hnone

/-- A pass plays at most one strum. -/
theorem length_strums_le_one (q₀ : Queue) (pre : List Pass) (x : Pass) :
    ((mainPass (finish mainPass (mainStart q₀) (pre.map ticked)) (ticked x)).2.filterMap
      MainOutput.strum?).length ≤ 1 := by
  rw [mainPass_strums, List.length_map]
  rcases detectPass_cases (finish mainPass (mainStart q₀) (pre.map ticked)).det x with ⟨hout, -⟩ | ⟨s, hout, -⟩
  · rw [hout]
    exact Nat.zero_le 1
  · rw [hout]
    exact Nat.le_refl 1

/-- **No strum overflows the event queue and no note is left hanging.** In every run only the first 9 slots are
    used, no schedule call fails, and a pass plays at most one strum. The messages sent are those of events of
    the strums played, none sent twice; an event has been sent once a later pass has a tick reading at or after
    its due time; and the end of a note is sent after its start. -/
theorem player_events (q₀ : Queue) (passes : List Pass) (h : Paced passes) :
    let s := finish mainPass (mainStart q₀) (passes.map ticked)
    let out := emit mainPass (mainStart q₀) (passes.map ticked)
    (∀ i : Fin qSize, 9 ≤ i.val → (s.q.get i).used = 0)
      ∧ (∀ o ∈ out.filterMap MainOutput.sched?, o.refused = false)
      ∧ (∀ pre x post, passes = pre ++ x :: post →
          ((mainPass (finish mainPass (mainStart q₀) (pre.map ticked)) (ticked x)).2.filterMap
            MainOutput.strum?).length ≤ 1)
      ∧ out.filterMap MainOutput.strum? = (strumsOf passes).map Strum.call
      ∧ messages (sdiWritesOf out) = some ((sentOf passes).map StrumEv.message)
      ∧ (sentOf passes).Nodup
      ∧ (∀ e ∈ sentOf passes, ∃ s ∈ strumsOf passes, e ∈ s.events)
      ∧ (∀ pre x post, passes = pre ++ x :: post → ∀ s ∈ strumsOf pre, s.events.length = 6
          ∧ ∀ e ∈ s.events, e.due ≤ x.1 → e ∈ sentOf (pre ++ [x]))
      ∧ ∀ pre e post, sentOf passes = pre ++ e :: post → e.type = .evOff →
          ∃ e' ∈ pre, e'.type = .evOn ∧ e'.time = e.time ∧ e'.string = e.string ∧ e'.note = e.note := by
  intro s out
  have hperm := (queue_of_run h).account
  refine ⟨fun i hi => slot_unused q₀ h hi, sched_accepted q₀ h, fun pre x _ _ => length_strums_le_one q₀ pre x,
    (main_run q₀ passes).2.2, ?_, ?_, ?_, ?_, fun _ _ _ => sent_start_first h⟩
  · rw [main_writes, messages_sdi]
  · exact (List.nodup_append.mp (hperm.nodup_iff.mpr (nodup_flatMap_events (strums_spaced h).1))).1
  · intro e he
    exact List.mem_flatMap.mp (hperm.mem_iff.mp (List.mem_append_left _ he))
  · rintro pre x post rfl s hs
    rw [List.append_cons] at h
    exact ⟨length_events_of_strum hs, fun e he hdue => sent_when_due h.left hs he hdue⟩

/-- The buttons of DO mayor. -/
def botonesDo : Vector UInt8 4 := #v[1, 1, 0, 0]

/-- DO mayor struck at 200, and a pass that finds all its notes due. -/
def oneStrum : List Pass := [(200, [⟨botonesDo, 500⟩, ⟨botonesDo, 0⟩]), (400, [])]

theorem paced_oneStrum : Paced oneStrum := by
  unfold Paced
  decide

/-- All six events are sent in the second pass, each start before its end. -/
theorem player_events_oneStrum :
    messages (sdiWritesOf (emit mainPass (mainStart (Vector.replicate qSize (eventOf .evOn 0 0 0 0)))
        (oneStrum.map ticked))) = some ((sentOf oneStrum).map StrumEv.message)
      ∧ (sentOf oneStrum).Nodup
      ∧ (sentOf oneStrum).map (fun e => (e.type, e.note, e.due))
          = [(.evOn, 60, 200), (.evOff, 60, 380), (.evOn, 64, 210), (.evOff, 64, 390), (.evOn, 67, 220),
              (.evOff, 67, 400)] := by
  obtain ⟨-, -, -, -, hmessages, hnodup, -⟩ :=
    player_events (Vector.replicate qSize (eventOf .evOn 0 0 0 0)) oneStrum paced_oneStrum
  exact ⟨hmessages, hnodup, by decide +kernel⟩

end GuitarraMidi.TestLatency
