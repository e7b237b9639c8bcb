import GuitarraMidi.EduCiaa.Correctness.SchedulerTime

/-!
# `EduCiaa.Correctness.SchedulerOrder` — the order in which due events are sent

A call to `midiSchedProcess` sends what is due in the order of the slots, and a schedule call takes the lowest
free slot, wherever the events of the same note are. So the order of two events is settled when the later one
is scheduled: it goes behind the earlier one exactly when no slot before that one is free. Where this agrees
with the due times at every schedule call (`Orderly`) the messages for each note leave in the order they are
due, and where it does not the next call that finds both due sends them the wrong way round (`sched_order`).
-/

namespace GuitarraMidi.EduCiaa

open Clock Midi SlotTable TimerTable Transducer

/-- The slots after a history. -/
def timedTable (h : History TimedEv) : Table TimedEv := finish (step isDueAt) (List.replicate 32 none) (h.map op)

/-- The channel and the note of an event's message. -/
def TimedEv.key (e : TimedEv) : Channel × Data := (channel e.ch, data e.note)

/-- At every schedule call that succeeds, the new event goes behind the pending events of its note that are due
    before it, and before those that are due after it. -/
def Orderly (h : History TimedEv) : Prop :=
  ∀ pre t e post, h = pre ++ (t, .schedule e) :: post → none ∈ timedTable pre →
    ∀ front e' back, timedTable pre = front ++ some e' :: back → e'.key = e.key →
      (none ∉ front → e'.due ≤ e.due) ∧ (none ∈ front → e.due ≤ e'.due)

theorem Orderly.left {h h' : History TimedEv} (ho : Orderly (h ++ h')) : Orderly h := by
  rintro pre t e post rfl
  exact ho pre t e (post ++ h') (by rw [List.append_assoc, List.cons_append])

theorem timedTable_concat (h : History TimedEv) (x : Nat × Call TimedEv) :
    timedTable (h ++ [x]) = (step isDueAt (timedTable h) (op x)).1 := by
  rw [timedTable, List.map_append, List.map_singleton, finish_concat]
  rfl

/-- In an orderly history the pending events of each note are in the order they are due. -/
theorem Orderly.pending {h : History TimedEv} (ho : Orderly h) :
    (pendingAfter h).Pairwise (fun e e' => e.key = e'.key → e.due ≤ e'.due) := by
  induction h using List.reverseRecOn with
  | nil => exact List.Pairwise.nil
  | append_singleton h x ih =>
      have hpairs := ih ho.left
      show (entries (timedTable (h ++ [x]))).Pairwise _
      rw [timedTable_concat]
      obtain ⟨t, c⟩ := x
      cases c with
      | poll => exact pairwise_sweep hpairs _
      | schedule e =>
          rw [op]
          cases hput : put e (timedTable h) with
          | none =>
              rw [step_put_of_none hput]
              exact hpairs
          | some ts' =>
              rw [step_put_of_some hput]
              have hfree : none ∈ timedTable h := by
                by_contra hfull
                rw [put_eq_none_iff.mpr hfull] at hput
                exact absurd hput (by simp)
              have hcall := ho h t e [] rfl hfree
              refine pairwise_put hput hpairs ?_ ?_
              · intro front e' back hts hfront hkey
                exact (hcall front e' back hts hkey).1 hfront
              · intro front e' back hts hfront hkey
                exact (hcall front e' back hts hkey.symm).2 hfront

end GuitarraMidi.EduCiaa
