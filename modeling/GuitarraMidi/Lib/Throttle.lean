import GuitarraMidi.Lib.Clock
import GuitarraMidi.Lib.Transducer

/-!
# `Lib.Throttle` — something done at most once in a while

What is asked for is done if the counter shows more than `gap` since the last time it was done, and is dropped if not.
So the times at which it is done are more than `gap` apart (`spaced_emit`), and each that was dropped comes within `gap`
of one at which it was done, give or take whole turns of the counter (`covered_emit`).
-/

namespace Throttle

open Clock Transducer

variable {gap : UInt32}

/-- It is asked for at a time; `last` is what the counter showed when it was done. -/
def step (gap last : UInt32) (t : Nat) : UInt32 × List Nat :=
  if tick t - last > gap then (tick t, [t]) else (last, [])

theorem step_of_lt {s t : Nat} (h : gap < tick t - tick s) : step gap (tick s) t = (tick t, [t]) := if_pos h

theorem step_of_not_lt {s t : Nat} (h : ¬ gap < tick t - tick s) : step gap (tick s) t = (tick s, []) := if_neg h

theorem emit_sublist (gap last : UInt32) (ts : List Nat) : (emit (step gap) last ts).Sublist ts := by
  induction ts generalizing last with
  | nil => exact List.Sublist.slnil
  | cons t ts ih =>
      rw [emit_cons, step]
      split_ifs with h
      · exact (ih (tick t)).cons_cons t
      · exact (ih last).cons t

/-- **It is done at times more than `gap` apart**, of which `s` is the first. -/
theorem spaced_emit (gap : UInt32) {s : Nat} {ts : List Nat} (h : (s :: ts).Pairwise (· ≤ ·)) :
    (s :: emit (step gap) (tick s) ts).IsChain (fun s t => s + gap.toNat < t) := by
  induction ts generalizing s with
  | nil => exact List.isChain_singleton s
  | cons t ts ih =>
      obtain ⟨hs, hts⟩ := List.pairwise_cons.mp h
      by_cases hlt : gap < tick t - tick s
      · rw [emit_cons, step_of_lt hlt]
        exact List.isChain_cons_cons.mpr ⟨lt_elapsed (hs t List.mem_cons_self) hlt, ih hts⟩
      · rw [emit_cons, step_of_not_lt hlt]
        exact ih (h.sublist ((List.sublist_cons_self t ts).cons_cons s))

/-- **What is asked for within `gap` of none of them is done.** -/
theorem covered_emit (gap : UInt32) {s : Nat} {ts : List Nat} (h : (s :: ts).Pairwise (· ≤ ·)) {t : Nat} (ht : t ∈ ts) :
    ∃ r ∈ s :: emit (step gap) (tick s) ts, r ≤ t ∧ (t - r) % 2 ^ 32 ≤ gap.toNat := by
  induction ts generalizing s with
  | nil => exact absurd ht List.not_mem_nil
  | cons u ts ih =>
      obtain ⟨hs, hts⟩ := List.pairwise_cons.mp h
      by_cases hlt : gap < tick u - tick s
      · rw [emit_cons, step_of_lt hlt]
        rcases List.mem_cons.mp ht with rfl | ht
        · exact ⟨t, by simp, Nat.le_refl t, by simp⟩
        · obtain ⟨r, hr, hle, hnear⟩ := ih hts ht
          exact ⟨r, List.mem_cons_of_mem s hr, hle, hnear⟩
      · rw [emit_cons, step_of_not_lt hlt]
        rcases List.mem_cons.mp ht with rfl | ht
        · refine ⟨s, List.mem_cons_self, hs t List.mem_cons_self, ?_⟩
          rw [← toNat_elapsed_mod (hs t List.mem_cons_self)]
          exact Nat.le_of_not_lt (fun hgap => hlt (UInt32.lt_iff_toNat_lt.mpr hgap))
        · exact ih (h.sublist ((List.sublist_cons_self u ts).cons_cons s)) ht

end Throttle
