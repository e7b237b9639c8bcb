import GuitarraMidi.EduCiaa.Correctness.SchedulerQueue
import GuitarraMidi.Lib.TimerTable

/-!
# `EduCiaa.Correctness.SchedulerTime` — the queue on a clock that wraps

The scheduler sees due times and the time of a call modulo `2^32`. Here every event carries its true due time
and every call the true time it is made (`TimedEv`, `History`); the program makes the calls `callOf`. The queue
is a timer table of such events (`timed_run`), and in a well-timed history a call to `midiSchedProcess` sends
just what is due in true time (`sched_exact`).
-/

namespace GuitarraMidi.EduCiaa

open Clock Midi SlotTable TimerTable Transducer

/-- An event with its true due time. -/
structure TimedEv where
  due : Nat
  type : EvType
  ch : UInt8
  note : UInt8
  vel : UInt8
deriving DecidableEq, Repr

/-- The event as the queue holds it. -/
def TimedEv.event (e : TimedEv) : MidiEv := eventOf e.type (tick e.due) e.ch e.note e.vel

/-- The call the program makes. -/
def callOf : Nat × Call TimedEv → SchedCall
  | (_, .schedule e) =>
      match e.type with
      | .evOn => .noteOn (tick e.due) e.ch e.note e.vel
      | .evOff => .noteOff (tick e.due) e.ch e.note e.vel
  | (t, .poll) => .process (tick t)

/-- The queue after a history. -/
def queueAfter (q₀ : Queue) (h : History TimedEv) : Queue := finish schedCall (midiSchedInit q₀) (h.map callOf)

/-- The judgement of `midiSchedProcess`, of an event with its true due time. -/
abbrev isDueAt : Nat → TimedEv → Bool := dueByTick TimedEv.due

/-- The events pending after a history, with their true due times: an event is pending from the call that is
    given it, unless it is refused, to the first call to `midiSchedProcess` that judges it due. -/
def pendingAfter (h : History TimedEv) : List TimedEv := pending isDueAt (List.replicate 32 none) h

/-- A call of the program does to the queue what it does to the table of timed events. -/
theorem callOf_op (x : Nat × Call TimedEv) :
    (callOf x).op = match TimerTable.op x with
      | .put e => .put e.event
      | .sweep t => .sweep (tick t) := by
  obtain ⟨t, c⟩ := x
  cases c with
  | poll => rfl
  | schedule e =>
      show SchedCall.op (match e.type with | .evOn => _ | .evOff => _) = _
      cases htype : e.type with
      | evOn => simp only [SchedCall.op, op, TimedEv.event, htype]
      | evOff => simp only [SchedCall.op, op, TimedEv.event, htype]

theorem step_event (ts : Table TimedEv) (x : Nat × Call TimedEv) :
    step isDue (ts.map (Option.map TimedEv.event)) (callOf x).op
      = ((step isDueAt ts (op x)).1.map (Option.map TimedEv.event),
          (step isDueAt ts (op x)).2.map (Out.map TimedEv.event)) := by
  have hview := step_map TimedEv.event (fun t ev => isDue (tick t) ev) ts (op x)
  obtain ⟨t, c⟩ := x
  cases c with
  | poll => exact hview
  | schedule e =>
      rw [callOf_op]
      exact hview

/-- **The queue is a timer table.** -/
theorem timed_run (q₀ : Queue) (h : History TimedEv) :
    (queueAfter q₀ h).table
        = (finish (step isDueAt) (List.replicate 32 none) (h.map op)).map (Option.map TimedEv.event)
      ∧ emit schedCall (midiSchedInit q₀) (h.map callOf)
        = (emit (step isDueAt) (List.replicate 32 none) (h.map op)).flatMap
            (fun o => outputsOf (o.map TimedEv.event)) := by
  have hsim : ∀ (q : Queue) (ts : Table TimedEv) (x : Nat × Call TimedEv),
      q.table = ts.map (Option.map TimedEv.event) →
      (schedCall q (callOf x)).1.table = (step isDueAt ts (op x)).1.map (Option.map TimedEv.event)
        ∧ (schedCall q (callOf x)).2
          = (step isDueAt ts (op x)).2.flatMap (fun o => outputsOf (o.map TimedEv.event)) := by
    intro q ts x hq
    obtain ⟨htable, hout⟩ := schedCall_table q (callOf x)
    rw [htable, hout, hq, step_event, List.flatMap_map]
    exact ⟨rfl, rfl⟩
  have hstart : (midiSchedInit q₀).table = (List.replicate 32 none).map (Option.map TimedEv.event) := by
    rw [table_midiSchedInit, List.map_replicate]
    rfl
  have hrun := simulate_flatMap
    (fun (q : Queue) (ts : Table TimedEv) => q.table = ts.map (Option.map TimedEv.event)) op
    (fun (o : Out TimedEv) => outputsOf (o.map TimedEv.event)) hsim hstart h
  rw [finish_comp callOf (midiSchedInit q₀) h, emit_comp callOf (midiSchedInit q₀) h] at hrun
  exact hrun

theorem queueAfter_pending (q₀ : Queue) (h : History TimedEv) :
    (queueAfter q₀ h).pending = (pendingAfter h).map TimedEv.event := by
  rw [Queue.pending, (timed_run q₀ h).1, entries_map]
  rfl

/-! ## What a call sends -/

/-- The message an event stands for. -/
def TimedEv.message (e : TimedEv) : Message := e.event.message

theorem writes_timed (q₀ : Queue) (h : History TimedEv) :
    writtenIn (midiSchedInit q₀) (h.map callOf)
      = sdi ((sent isDueAt (List.replicate 32 none) (h.map op)).map TimedEv.message) := by
  have hmap : ∀ out : List (Out TimedEv), (out.map (Out.map TimedEv.event)).filterMap Out.sent?
      = (out.filterMap Out.sent?).map TimedEv.event := by
    intro out
    rw [List.filterMap_map, List.map_filterMap]
    apply List.filterMap_congr
    rintro (e | e | e) - <;> rfl
  rw [writtenIn, (timed_run q₀ h).2, ← List.flatMap_map, writes_outputsOf, hmap, List.map_map]
  rfl

/-- What is written by one call, in terms of the events pending before it. -/
theorem process_writes (q₀ : Queue) (h : History TimedEv) (t : Nat) :
    (midiSchedProcess (tick t) (queueAfter q₀ h)).2
      = sdi (((pendingAfter h).filter (isDueAt t)).map TimedEv.message) := by
  rw [(midiSchedProcess_table (tick t) (queueAfter q₀ h)).2, queueAfter_pending, List.filter_map, List.map_map]
  rfl

/-- No schedule call of a run fails. -/
def NoneRefused (q₀ : Queue) (h : History TimedEv) : Prop :=
  ∀ o ∈ emit schedCall (midiSchedInit q₀) (h.map callOf), o.refused = false

theorem not_refused {q₀ : Queue} {h : History TimedEv} (hok : NoneRefused q₀ h) :
    ∀ o ∈ emit (step isDueAt) (List.replicate 32 none) (h.map op), o.refused? = none := by
  intro o ho
  cases o with
  | accepted e => rfl
  | sent e => rfl
  | refused e =>
      have hout : SchedOutput.scheduled e.event false ∈ emit schedCall (midiSchedInit q₀) (h.map callOf) := by
        rw [(timed_run q₀ h).2, List.mem_flatMap]
        exact ⟨.refused e, ho, List.mem_singleton_self _⟩
      exact Bool.noConfusion (hok _ hout)

theorem noneRefused {h : History TimedEv}
    (hok : ∀ o ∈ emit (step isDueAt) (List.replicate 32 none) (h.map op), o.refused? = none) (q₀ : Queue) :
    NoneRefused q₀ h := by
  intro o ho
  rw [(timed_run q₀ h).2, List.mem_flatMap] at ho
  obtain ⟨out, hout, ho⟩ := ho
  cases out with
  | accepted e =>
      rw [List.mem_singleton.mp ho]
      rfl
  | refused e => exact absurd (hok _ hout) (by simp [Out.refused?])
  | sent e =>
      obtain ⟨w, -, rfl⟩ := List.mem_map.mp ho
      rfl

/-- The events a history schedules. -/
def scheduledIn (h : History TimedEv) : List TimedEv := asked (h.map op)

/-- **The wrap-around comparison is exact in real time.** In a well-timed history a call to `midiSchedProcess`
    at true time `t` sends the pending events that are due by `t` and keeps those that are not. So two
    histories that schedule the same events, with no refusal, and end with a call at the same time have sent
    the same messages. -/
theorem sched_exact (q₀ : Queue) (h : History TimedEv) (hw : WellTimed TimedEv.due h) :
    (∀ pre t post, h = pre ++ (t, .poll) :: post →
        (queueAfter q₀ pre).pending = (pendingAfter pre).map TimedEv.event
          ∧ messages (midiSchedProcess (tick t) (queueAfter q₀ pre)).2
              = some (((pendingAfter pre).filter (fun e => e.due ≤ t)).map TimedEv.message)
          ∧ pendingAfter (pre ++ [(t, .poll)]) = (pendingAfter pre).filter (fun e => t < e.due))
      ∧ ∀ q₀' h', WellTimed TimedEv.due h' → NoneRefused q₀ h → NoneRefused q₀' h' →
          (scheduledIn h : Multiset TimedEv) = scheduledIn h' →
          ∀ t, h.getLast? = some (t, .poll) → h'.getLast? = some (t, .poll) →
          ∃ sent sent', messages (writtenIn (midiSchedInit q₀) (h.map callOf)) = some sent
            ∧ messages (writtenIn (midiSchedInit q₀') (h'.map callOf)) = some sent'
            ∧ (sent : Multiset Message) = sent' := by
  have hempty : entries (List.replicate 32 (none : Option TimedEv)) = [] := entries_replicate_none 32
  constructor
  · rintro pre t post rfl
    have hpoll : WellTimed TimedEv.due (pre ++ [(t, .poll)]) := by
      rw [List.append_cons] at hw
      exact hw.left
    have hexact : ∀ e ∈ pendingAfter pre, isDueAt t e = dueBy TimedEv.due t e := poll_exact hempty hpoll
    refine ⟨queueAfter_pending q₀ pre, ?_, ?_⟩
    · rw [process_writes, messages_sdi, List.filter_congr hexact]
      rfl
    · rw [pendingAfter, pending_poll]
      apply List.filter_congr
      intro e he
      rw [hexact e he, dueBy, ← decide_not]
      exact decide_eq_decide.mpr Nat.not_le
  · intro q₀' h' hw' hok hok' hsame t hlast hlast'
    obtain ⟨pre, rfl⟩ := List.getLast?_eq_some_iff.mp hlast
    obtain ⟨pre', rfl⟩ := List.getLast?_eq_some_iff.mp hlast'
    refine ⟨_, _, by rw [writes_timed, messages_sdi], by rw [writes_timed, messages_sdi], ?_⟩
    rw [← Multiset.map_coe, ← Multiset.map_coe]
    exact congrArg (Multiset.map TimedEv.message)
      (sent_eq_of_asked_eq hempty hw hw' (not_refused hok) (not_refused hok') hsame)

/-- A note scheduled just before the counter wraps and due just after it, polled twice and polled once. -/
theorem sched_exact_over_wrap :
    let q₀ : Queue := Vector.replicate qSize (eventOf .evOn 0 0 0 0)
    let e : TimedEv := ⟨2 ^ 32 + 3, .evOn, 0, 60, 80⟩
    let h : History TimedEv := [(2 ^ 32 - 5, .schedule e), (2 ^ 32 - 1, .poll), (2 ^ 32 + 4, .poll)]
    let h' : History TimedEv := [(2 ^ 32 - 5, .schedule e), (2 ^ 32 + 4, .poll)]
    messages (midiSchedProcess (tick (2 ^ 32 + 4)) (queueAfter q₀ (h.take 2))).2 = some [e.message]
      ∧ ∃ sent sent', messages (writtenIn (midiSchedInit q₀) (h.map callOf)) = some sent
          ∧ messages (writtenIn (midiSchedInit q₀) (h'.map callOf)) = some sent'
          ∧ (sent : Multiset Message) = sent' := by
  intro q₀ e h h'
  have hwindow : ∀ t a, (t, Call.schedule a) ∈ h ∨ (t, Call.schedule a) ∈ h' → t ≤ a.due ∧ a.due ≤ t + 2 ^ 31 := by
    intro t a hmem
    have hat : t = 2 ^ 32 - 5 ∧ a = e := by simpa [h, h'] using hmem
    obtain ⟨rfl, rfl⟩ := hat
    decide
  have hw : WellTimed TimedEv.due h :=
    wellTimed_of_span (by decide) (fun t a hmem => hwindow t a (Or.inl hmem)) (s := 2 ^ 32 - 5) (by simp [h])
  have hw' : WellTimed TimedEv.due h' :=
    wellTimed_of_span (by decide) (fun t a hmem => hwindow t a (Or.inr hmem)) (s := 2 ^ 32 - 5) (by simp [h'])
  have hok : NoneRefused q₀ h := by
    unfold NoneRefused
    decide +kernel
  have hok' : NoneRefused q₀ h' := by
    unfold NoneRefused
    decide +kernel
  obtain ⟨hcalls, hsame⟩ := sched_exact q₀ h hw
  obtain ⟨-, hsent, -⟩ := hcalls (h.take 2) (2 ^ 32 + 4) [] rfl
  have hpending : pendingAfter (h.take 2) = [e] := by decide +kernel
  rw [hpending] at hsent
  exact ⟨hsent, hsame q₀ h' hw' hok hok' rfl (2 ^ 32 + 4) rfl rfl⟩

end GuitarraMidi.EduCiaa
