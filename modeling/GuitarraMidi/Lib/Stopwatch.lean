import GuitarraMidi.Lib.Clock

/-!
# `Lib.Stopwatch` — a stopwatch that is started again and again

A program keeps one reading of the counter, that of the last start, and takes its difference with a later reading as the
time since some start. The starts are at least `gap` apart (`Spaced`), so within `gap` of a start the difference is the
time since that start. Later it may be the time since another, which is shorter; and if the stopwatch is started
between the two readings of a difference, the counter seems to have gone round (`difference_le_or`).
-/

namespace Stopwatch

open Clock

/-- Starts that are at least `gap` apart. -/
def Spaced (gap : Nat) (starts : List Nat) : Prop := starts.Pairwise (fun s t => s + gap ≤ t)

variable {gap s last now read : Nat} {starts : List Nat}

theorem spaced_nil : Spaced gap [] := List.Pairwise.nil

theorem Spaced.concat (h : Spaced gap starts) (hlast : ∀ s ∈ starts, s + gap ≤ last) :
    Spaced gap (starts ++ [last]) := by
  refine List.pairwise_append.mpr ⟨h, List.pairwise_singleton _ _, ?_⟩
  intro s hs t ht
  rw [List.mem_singleton] at ht
  rw [ht]
  exact hlast s hs

/-- A start is the last one, or that is later by the gap. -/
theorem Spaced.eq_or_le (h : Spaced gap (starts ++ [last])) {k : Nat} (hs : (starts ++ [last])[k]? = some s) :
    k = starts.length ∧ s = last ∨ k < starts.length ∧ s + gap ≤ last := by
  rcases Nat.lt_trichotomy k starts.length with hlt | heq | hgt
  · right
    rw [List.getElem?_append_left hlt] at hs
    exact ⟨hlt, (List.pairwise_append.mp h).2.2 s (List.mem_of_getElem? hs) last (List.mem_singleton_self last)⟩
  · left
    rw [heq, List.getElem?_concat_length] at hs
    exact ⟨heq, (Option.some.inj hs).symm⟩
  · rw [List.getElem?_eq_none (by rw [List.length_append, List.length_singleton]; exact hgt)] at hs
    exact absurd hs (by simp)

/-- **Within the gap the difference is the time since the start.** The last start is read at `read`. -/
theorem Spaced.difference_eq (h : Spaced gap (starts ++ [last])) (hgap : gap ≤ 2 ^ 32) {k : Nat}
    (hs : (starts ++ [last])[k]? = some s) (hnow : s ≤ now) (hread : now ≤ read) (hlast : last ≤ read)
    (hsoon : read < s + gap) : (tick now - tick last).toNat = now - s := by
  rcases h.eq_or_le hs with ⟨-, rfl⟩ | ⟨-, hle⟩
  · exact toNat_elapsed hnow (by omega)
  · omega

/-- **The difference is at most the time since the start, unless the stopwatch is started meanwhile.** Then it falls
    short of a whole turn by no more than the time between the two readings. -/
theorem Spaced.difference_le_or (h : Spaced gap (starts ++ [last])) {k : Nat}
    (hs : (starts ++ [last])[k]? = some s) (hlast : last ≤ read) :
    (tick now - tick last).toNat ≤ now - s
      ∨ now < last ∧ 2 ^ 32 ≤ (tick now - tick last).toNat + (read - now) := by
  have hsl : s ≤ last := by
    rcases h.eq_or_le hs with ⟨-, rfl⟩ | ⟨-, hle⟩ <;> omega
  rcases Nat.lt_or_ge now last with hlt | hge
  · have hback : (tick last - tick now).toNat = (last - now) % 2 ^ 32 := toNat_elapsed_mod (Nat.le_of_lt hlt)
    have hneg : tick now - tick last = -(tick last - tick now) := (UInt32.neg_sub).symm
    have hsize : UInt32.size = 2 ^ 32 := rfl
    rw [hneg, UInt32.toNat_neg, hback, hsize]
    omega
  · left
    have hle := elapsed_le hge
    omega

end Stopwatch
