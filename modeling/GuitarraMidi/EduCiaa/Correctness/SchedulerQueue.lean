import GuitarraMidi.EduCiaa.Scheduler
import GuitarraMidi.Lib.Clock
import GuitarraMidi.Lib.SlotTable

/-!
# `EduCiaa.Correctness.SchedulerQueue` — the queue loses and duplicates nothing

A run of the scheduler is a list of calls to `midiSchedNoteOn`, `midiSchedNoteOff` and `midiSchedProcess`. The
queue is a slot table of events (`schedCall_table`), so a run of it is a run of the table
(`sched_run`): what has been accepted has been sent or is pending, once (`sched_conserves`).
-/

namespace GuitarraMidi.EduCiaa

open Midi SlotTable Transducer

/-! ## The queue as a slot table -/

def slotOf (ev : MidiEv) : Option MidiEv := if ev.used = 0 then none else some ev

def Queue.table (q : Queue) : Table MidiEv := q.toList.map slotOf

/-- The events in used slots, in the order of the slots. -/
def Queue.pending (q : Queue) : List MidiEv := entries q.table

/-- The message an event stands for. -/
def MidiEv.message (ev : MidiEv) : Message :=
  match ev.type with
  | .evOn => .noteOn (channel ev.ch) (data ev.note) (data ev.vel)
  | .evOff => .noteOff (channel ev.ch) (data ev.note) (data ev.vel)

/-- The test of `midiSchedProcess`. -/
def isDue (now_ms : UInt32) (ev : MidiEv) : Bool := Clock.past now_ms ev.t

theorem slotOf_eq_none_iff {ev : MidiEv} : slotOf ev = none ↔ ev.used = 0 := by
  unfold slotOf
  split
  · exact ⟨fun _ => ‹_›, fun _ => rfl⟩
  · exact ⟨fun h => absurd h (by simp), fun h => absurd h ‹_›⟩

theorem slotOf_of_used {ev : MidiEv} (h : ev.used ≠ 0) : slotOf ev = some ev := if_neg h

theorem length_table (q : Queue) : q.table.length = 32 := by
  rw [Queue.table, List.length_map, Vector.length_toList]
  rfl

theorem getElem?_table (q : Queue) (i : Fin qSize) : q.table[i.val]? = some (slotOf (q.get i)) := by
  have hi : i.val < q.toList.length := by
    rw [Vector.length_toList]
    exact i.isLt
  rw [Queue.table, List.getElem?_map, List.getElem?_eq_getElem hi, Vector.getElem_toList]
  rfl

theorem table_of_idle {q : Queue} (h : q.Idle) : q.table = List.replicate 32 none := by
  rw [← length_table q]
  apply List.eq_replicate_length.mpr
  intro o ho
  obtain ⟨ev, hev, rfl⟩ := List.mem_map.mp ho
  exact slotOf_eq_none_iff.mpr (h ev hev)

theorem table_midiSchedInit (q : Queue) : (midiSchedInit q).table = List.replicate 32 none :=
  table_of_idle (idle_midiSchedInit q)

/-- The slots before a slot, the slot, and the slots after it. -/
theorem toList_split (q : Queue) (k : Fin qSize) :
    q.toList = q.toList.take k ++ q.get k :: q.toList.drop (k + 1) := by
  have hk : (k : Nat) < q.toList.length := by
    rw [Vector.length_toList]
    exact k.isLt
  have hget : q.toList[(k : Nat)] = q.get k := Vector.getElem_toList hk
  rw [← hget, List.getElem_cons_drop, List.take_append_drop]

theorem toList_set (q : Queue) (k : Fin qSize) (ev : MidiEv) :
    (q.set k ev k.isLt).toList = q.toList.take k ++ ev :: q.toList.drop (k + 1) := by
  have hk : (k : Nat) < q.toList.length := by
    rw [Vector.length_toList]
    exact k.isLt
  rw [Vector.toList_set, List.set_eq_take_append_cons_drop, if_pos hk]

/-- **`allocSlot` finds the lowest free slot.** -/
theorem put_table (q : Queue) {ev : MidiEv} (hused : ev.used ≠ 0) :
    put ev q.table = (allocSlot q).map (fun k : Fin qSize => Queue.table (q.set k ev k.isLt)) := by
  cases halloc : allocSlot q with
  | none =>
      have hfull := List.find?_eq_none.mp halloc
      refine put_eq_none_iff.mpr (fun hfree => ?_)
      obtain ⟨old, hold, hslot⟩ := List.mem_map.mp hfree
      obtain ⟨i, hi, rfl⟩ := List.getElem_of_mem hold
      rw [Vector.length_toList] at hi
      rw [Vector.getElem_toList] at hslot
      exact hfull ⟨i, hi⟩ (List.mem_finRange _) (beq_iff_eq.mpr (slotOf_eq_none_iff.mp hslot))
  | some k =>
      obtain ⟨hfree, i, hi, hik, hbefore⟩ := List.find?_eq_some_iff_getElem.mp halloc
      rw [List.getElem_finRange] at hik
      have hslot : slotOf (q.get k) = none := slotOf_eq_none_iff.mpr (beq_iff_eq.mp hfree)
      refine put_eq_some_iff.mpr ⟨(q.toList.take k).map slotOf, (q.toList.drop (k + 1)).map slotOf, ?_, ?_, ?_⟩
      · have hsplit := congrArg (List.map slotOf) (toList_split q k)
        rw [List.map_append, List.map_cons, hslot] at hsplit
        exact hsplit
      · show (q.set k ev k.isLt).toList.map slotOf = _
        rw [toList_set, List.map_append, List.map_cons, slotOf_of_used hused]
      · subst hik
        intro hmem
        obtain ⟨old, hold, hslot⟩ := List.mem_map.mp hmem
        obtain ⟨j, hj, rfl⟩ := List.getElem_of_mem hold
        rw [List.length_take, Vector.length_toList] at hj
        rw [List.getElem_take, Vector.getElem_toList] at hslot
        have hji : j < i := Nat.lt_of_lt_of_le hj (Nat.min_le_left _ _)
        have hnotfree := hbefore j hji
        rw [List.getElem_finRange, Bool.not_eq_true', beq_eq_false_iff_ne] at hnotfree
        exact hnotfree (slotOf_eq_none_iff.mp hslot)

/-! ## One call -/

theorem schedule_table (q : Queue) (type : EvType) (t_ms : UInt32) (ch note vel : UInt8) :
    put (eventOf type t_ms ch note vel) q.table
      = if (schedule q type t_ms ch note vel).2 then some (schedule q type t_ms ch note vel).1.table else none := by
  have hused : (eventOf type t_ms ch note vel).used ≠ 0 := show (1 : UInt8) ≠ 0 from by decide
  rw [put_table q hused]
  unfold schedule
  cases halloc : allocSlot q with
  | none => rfl
  | some k => rfl

/-- **A schedule call succeeds exactly when fewer than 32 events are pending.** -/
theorem schedule_ok_iff (q : Queue) (type : EvType) (t_ms : UInt32) (ch note vel : UInt8) :
    (schedule q type t_ms ch note vel).2 = true ↔ q.pending.length < 32 := by
  have hput := schedule_table q type t_ms ch note vel
  have hfree : q.pending.length < 32 ↔ none ∈ q.table := by
    rw [← length_entries_lt_iff, length_table]
    rfl
  rw [hfree]
  cases hok : (schedule q type t_ms ch note vel).2 with
  | false =>
      rw [hok, if_neg Bool.false_ne_true, put_eq_none_iff] at hput
      exact ⟨fun h => absurd h Bool.false_ne_true, fun h => absurd h hput⟩
  | true =>
      rw [hok, if_pos rfl] at hput
      have hsome : none ∈ q.table := by
        by_contra hfull
        rw [put_eq_none_iff.mpr hfull] at hput
        exact absurd hput (by simp)
      exact ⟨fun _ => hsome, fun _ => rfl⟩

/-- A schedule call that fails changes nothing. -/
theorem schedule_of_full {q : Queue} {type : EvType} {t_ms : UInt32} {ch note vel : UInt8}
    (h : (schedule q type t_ms ch note vel).2 = false) : (schedule q type t_ms ch note vel).1 = q := by
  unfold schedule at h ⊢
  cases halloc : allocSlot q with
  | none => rfl
  | some k =>
      rw [halloc] at h
      exact absurd h (by simp)

/-- **A schedule call leaves the events in used slots where they are.** -/
theorem schedule_used {q : Queue} {i : Fin qSize} (h : (q.get i).used ≠ 0) (type : EvType) (t_ms : UInt32)
    (ch note vel : UInt8) : (schedule q type t_ms ch note vel).1.get i = q.get i := by
  unfold schedule
  cases halloc : allocSlot q with
  | none => rfl
  | some k =>
      have hfree : (q.get k).used = 0 := by
        obtain ⟨hfree, -⟩ := List.find?_eq_some_iff_getElem.mp halloc
        exact beq_iff_eq.mp hfree
      have hne : (k : Nat) ≠ i := by
        intro hki
        rw [Fin.ext hki] at hfree
        exact h hfree
      exact Vector.getElem_set_ne k.isLt i.isLt hne

theorem processSlot_of_used {ev : MidiEv} (h : ev.used ≠ 0) (now_ms : UInt32) :
    processSlot now_ms ev = if isDue now_ms ev then ({ ev with used := 0 }, sdi [ev.message]) else (ev, []) := by
  rw [processSlot, if_neg h]
  by_cases hdue : (now_ms - ev.t).toInt32 ≥ 0
  · have hpast : isDue now_ms ev = true := decide_eq_true hdue
    rw [if_pos hdue, hpast, if_pos rfl, MidiEv.message]
    cases htype : ev.type with
    | evOn => rw [if_pos rfl, midiNoteOn_eq]
    | evOff => rw [if_neg (by decide), midiNoteOff_eq]
  · have hpast : isDue now_ms ev = false := decide_eq_false hdue
    rw [if_neg hdue, hpast, if_neg Bool.false_ne_true]

theorem slotOf_processSlot (ev : MidiEv) (now_ms : UInt32) :
    slotOf (processSlot now_ms ev).1 = (slotOf ev).filter (fun ev => !isDue now_ms ev) := by
  by_cases h : ev.used = 0
  · rw [processSlot_of_free h, slotOf_eq_none_iff.mpr h]
    rfl
  · rw [processSlot_of_used h, slotOf_of_used h]
    cases hdue : isDue now_ms ev with
    | true => simp [Option.filter, hdue, slotOf]
    | false => simp [Option.filter, hdue, slotOf_of_used h]

/-- **`midiSchedProcess` sends what is due, in the order of the slots, and frees the slots of that.** -/
theorem midiSchedProcess_table (now_ms : UInt32) (q : Queue) :
    (midiSchedProcess now_ms q).1.table = sweep (isDue now_ms) q.table
      ∧ (midiSchedProcess now_ms q).2 = sdi ((q.pending.filter (isDue now_ms)).map MidiEv.message) := by
  constructor
  · unfold Queue.table sweep midiSchedProcess
    rw [Vector.toList_map, List.map_map, List.map_map]
    exact List.map_congr_left (fun ev _ => slotOf_processSlot ev now_ms)
  · show q.toList.flatMap (fun ev => (processSlot now_ms ev).2) = _
    unfold Queue.pending Queue.table
    induction q.toList with
    | nil => rfl
    | cons ev evs ih =>
        rw [List.flatMap_cons, ih, List.map_cons]
        by_cases h : ev.used = 0
        · rw [processSlot_of_free h, slotOf_eq_none_iff.mpr h]
          rfl
        · rw [processSlot_of_used h, slotOf_of_used h, entries_cons_some]
          cases hdue : isDue now_ms ev with
          | true =>
              rw [if_pos rfl, List.filter_cons_of_pos hdue, List.map_cons]
              exact (sdi_cons _ _).symm
          | false =>
              have hnot : ¬ isDue now_ms ev = true := by rw [hdue]; exact Bool.false_ne_true
              rw [if_neg Bool.false_ne_true, List.filter_cons_of_neg hnot]
              rfl

/-! ## Runs -/

/-- What a call does to the table. -/
def SchedCall.op : SchedCall → Op UInt32 MidiEv
  | .noteOn t_ms ch note vel => .put (eventOf .evOn t_ms ch note vel)
  | .noteOff t_ms ch note vel => .put (eventOf .evOff t_ms ch note vel)
  | .process now_ms => .sweep now_ms

/-- What an output of the table is for the scheduler. -/
def outputsOf : Out MidiEv → List SchedOutput
  | .accepted ev => [.scheduled ev true]
  | .refused ev => [.scheduled ev false]
  | .sent ev => (sdi [ev.message]).map .sdi

theorem answered_table (q : Queue) (type : EvType) (t_ms : UInt32) (ch note vel : UInt8) :
    let r := answered (eventOf type t_ms ch note vel) (schedule q type t_ms ch note vel)
    let s := step isDue q.table (.put (eventOf type t_ms ch note vel))
    r.1.table = s.1 ∧ r.2 = s.2.flatMap outputsOf := by
  intro r s
  have hput := schedule_table q type t_ms ch note vel
  cases hok : (schedule q type t_ms ch note vel).2 with
  | true =>
      rw [hok, if_pos rfl] at hput
      have hs : s = _ := step_put_of_some hput
      rw [hs]
      exact ⟨rfl, by rw [show r.2 = [.scheduled _ (schedule q type t_ms ch note vel).2] from rfl, hok]; rfl⟩
  | false =>
      rw [hok, if_neg Bool.false_ne_true] at hput
      have hs : s = _ := step_put_of_none hput
      rw [hs]
      refine ⟨congrArg Queue.table (schedule_of_full hok), ?_⟩
      rw [show r.2 = [.scheduled _ (schedule q type t_ms ch note vel).2] from rfl, hok]
      rfl

/-- **The queue is a slot table of events.** -/
theorem schedCall_table (q : Queue) (call : SchedCall) :
    (schedCall q call).1.table = (step isDue q.table call.op).1
      ∧ (schedCall q call).2 = (step isDue q.table call.op).2.flatMap outputsOf := by
  cases call with
  | noteOn t_ms ch note vel => exact answered_table q .evOn t_ms ch note vel
  | noteOff t_ms ch note vel => exact answered_table q .evOff t_ms ch note vel
  | process now_ms =>
      obtain ⟨htable, hwrites⟩ := midiSchedProcess_table now_ms q
      refine ⟨htable, ?_⟩
      show (midiSchedProcess now_ms q).2.map SchedOutput.sdi = _
      rw [hwrites, SchedCall.op, step, List.flatMap_map, sdi_map, List.map_flatMap]
      rfl

/-- A run of the queue is a run of the table. -/
theorem sched_run {q : Queue} (calls : List SchedCall) :
    (finish schedCall q calls).table = finish (step isDue) q.table (calls.map SchedCall.op)
      ∧ emit schedCall q calls = (emit (step isDue) q.table (calls.map SchedCall.op)).flatMap outputsOf := by
  have hsim : ∀ (q : Queue) (ts : Table MidiEv) (call : SchedCall), q.table = ts →
      (schedCall q call).1.table = (step isDue ts call.op).1
        ∧ (schedCall q call).2 = (step isDue ts call.op).2.flatMap outputsOf := by
    rintro q _ call rfl
    exact schedCall_table q call
  exact simulate_flatMap (fun (q : Queue) ts => q.table = ts) SchedCall.op outputsOf hsim rfl calls

theorem filterMap_accepted_sdi (writes : List SdiWrite) :
    (writes.map SchedOutput.sdi).filterMap SchedOutput.accepted? = [] := by
  rw [List.filterMap_map]
  exact List.filterMap_eq_nil_iff.mpr (fun _ _ => rfl)

theorem filterMap_sdi (writes : List SdiWrite) :
    (writes.map SchedOutput.sdi).filterMap SchedOutput.sdi? = writes := by
  rw [List.filterMap_map]
  exact List.filterMap_some

theorem accepted_outputsOf (out : List (Out MidiEv)) :
    (out.flatMap outputsOf).filterMap SchedOutput.accepted? = out.filterMap Out.accepted? := by
  induction out with
  | nil => rfl
  | cons o out ih =>
      rw [List.flatMap_cons, List.filterMap_append, ih]
      cases o with
      | accepted ev => rfl
      | refused ev => rfl
      | sent ev =>
          rw [outputsOf, filterMap_accepted_sdi]
          rfl

theorem writes_outputsOf (out : List (Out MidiEv)) :
    (out.flatMap outputsOf).filterMap SchedOutput.sdi? = sdi ((out.filterMap Out.sent?).map MidiEv.message) := by
  induction out with
  | nil => rfl
  | cons o out ih =>
      rw [List.flatMap_cons, List.filterMap_append, ih]
      cases o with
      | accepted ev => rfl
      | refused ev => rfl
      | sent ev =>
          rw [outputsOf, filterMap_sdi]
          exact (sdi_cons ev.message _).symm

/-- The events accepted in a run. -/
def acceptedIn (q : Queue) (calls : List SchedCall) : List MidiEv :=
  (emit schedCall q calls).filterMap SchedOutput.accepted?

/-- What a run writes on the SDI bus. -/
def writtenIn (q : Queue) (calls : List SchedCall) : List SdiWrite :=
  (emit schedCall q calls).filterMap SchedOutput.sdi?

theorem acceptedIn_eq (q : Queue) (calls : List SchedCall) :
    acceptedIn q calls = accepted isDue q.table (calls.map SchedCall.op) := by
  rw [acceptedIn, (sched_run calls).2, accepted_outputsOf]
  rfl

theorem writtenIn_eq (q : Queue) (calls : List SchedCall) :
    writtenIn q calls = sdi ((sent isDue q.table (calls.map SchedCall.op)).map MidiEv.message) := by
  rw [writtenIn, (sched_run calls).2, writes_outputsOf]
  rfl

/-- **The scheduler neither loses nor duplicates events.** After any calls, a further schedule call succeeds
    exactly when fewer than 32 events are pending, changes nothing when it fails, and leaves what is in used
    slots alone; and the events accepted so far are those whose messages have been sent together with those
    still pending. -/
theorem sched_conserves (q₀ : Queue) (calls : List SchedCall) :
    let q := finish schedCall (midiSchedInit q₀) calls
    (∀ t_ms ch note vel, ∀ r ∈ [midiSchedNoteOn q t_ms ch note vel, midiSchedNoteOff q t_ms ch note vel],
        (r.2 = true ↔ q.pending.length < 32) ∧ (r.2 = false → r.1 = q)
          ∧ ∀ i : Fin qSize, (q.get i).used ≠ 0 → r.1.get i = q.get i)
      ∧ ∃ sent : List MidiEv, messages (writtenIn (midiSchedInit q₀) calls) = some (sent.map MidiEv.message)
          ∧ (acceptedIn (midiSchedInit q₀) calls : Multiset MidiEv) = (sent : Multiset MidiEv) + q.pending := by
  intro q
  constructor
  · intro t_ms ch note vel r hr
    have hany : ∃ type, r = schedule q type t_ms ch note vel := by
      rcases List.mem_cons.mp hr with rfl | hr
      · exact ⟨.evOn, rfl⟩
      · exact ⟨.evOff, List.mem_singleton.mp hr⟩
    obtain ⟨type, rfl⟩ := hany
    exact ⟨schedule_ok_iff q type t_ms ch note vel, schedule_of_full,
      fun i hi => schedule_used hi type t_ms ch note vel⟩
  · have hconserved := @conserved _ _ isDue (midiSchedInit q₀).table (calls.map SchedCall.op)
    have hempty : entries (midiSchedInit q₀).table = [] := by
      rw [table_midiSchedInit, entries_replicate_none]
    rw [hempty, Multiset.coe_nil, add_zero, ← (sched_run calls).1] at hconserved
    refine ⟨sent isDue (midiSchedInit q₀).table (calls.map SchedCall.op), ?_, ?_⟩
    · rw [writtenIn_eq, messages_sdi]
    · rw [acceptedIn_eq]
      exact hconserved

end GuitarraMidi.EduCiaa
