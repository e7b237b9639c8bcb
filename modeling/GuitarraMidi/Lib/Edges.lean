import GuitarraMidi.Lib.Debounce
import GuitarraMidi.Lib.Transducer

/-!
# `Lib.Edges` — the changes of a debounced level

A program that acts on the changes of a debounced level acts at the samples at which the debouncer takes up another
level than it had (`edges`). Over any history whose times do not go back:

* an edge is a sample whose level has been held (`held_of_edge`), and the levels of the edges alternate with at least
  `d` of true time from one to the next (`edges_chain`);
* so the edges to one of two levels are at least `2 * d` apart (`falling_pairwise`);
* and if the samples are close enough, no change is missed: between a sample with one level held and a later one with
  another level held there is an edge to the latter (`edge_between`).

A receiver that acts on the rises of a signal misses at most one for every sample that it does not get
(`rises_le_of_sublist`).
-/

namespace Debounce

open Clock Transducer

variable {α : Type*} {d : UInt32} [DecidableEq α]

/-- A sample, with the edge it leads to. -/
def edgeStep (d : UInt32) (s : Debouncer α) (x : Nat × α) : Debouncer α × List (Nat × α) :=
  let s' := sample d s (tick x.1) x.2
  (s', if s'.stable ≠ s.stable then [(x.1, s'.stable)] else [])

/-- The samples at which another level is taken up. -/
def edges (d : UInt32) (s : Debouncer α) (xs : Samples α) : Samples α := emit (edgeStep d) s xs

theorem edges_append (s : Debouncer α) (xs ys : Samples α) :
    edges d s (xs ++ ys) = edges d s xs ++ edges d (run d s xs) ys := emit_append s xs ys

section Start

variable (level : α) (change : UInt32) {xs : Samples α} {x : Nat × α}

/-- One sample more: an edge, to a level that has been held and is another, or none, and then the level stays. -/
theorem edges_concat (h : Ordered (xs ++ [x])) :
    (Held d xs x ∧ x.2 ≠ (run d (.start level change) xs).stable
        ∧ (run d (.start level change) (xs ++ [x])).stable = x.2
        ∧ edges d (.start level change) (xs ++ [x]) = edges d (.start level change) xs ++ [x])
      ∨ ((run d (.start level change) (xs ++ [x])).stable = (run d (.start level change) xs).stable
        ∧ edges d (.start level change) (xs ++ [x]) = edges d (.start level change) xs) := by
  have hlast : edges d (.start level change) (xs ++ [x]) = edges d (.start level change) xs
      ++ if (run d (.start level change) (xs ++ [x])).stable ≠ (run d (.start level change) xs).stable then
          [(x.1, (run d (.start level change) (xs ++ [x])).stable)] else [] := by
    rw [run_concat]
    exact emit_concat _ xs x
  rw [hlast]
  by_cases hsame : (run d (.start level change) (xs ++ [x])).stable = (run d (.start level change) xs).stable
  · right
    rw [if_neg (not_not.mpr hsame), List.append_nil]
    exact ⟨hsame, rfl⟩
  · left
    obtain ⟨hheld, hlevel⟩ := (taken_run level change h).resolve_left hsame
    rw [if_pos hsame, hlevel]
    exact ⟨hheld, fun hold => hsame (hlevel.trans hold), rfl, rfl⟩

/-- The edges are some of the samples. -/
theorem edges_sublist (h : Ordered xs) : (edges d (.start level change) xs).Sublist xs := by
  induction xs using List.reverseRecOn with
  | nil => exact List.Sublist.refl []
  | append_singleton xs x ih =>
      rcases edges_concat level change h with ⟨-, -, -, hedge⟩ | ⟨-, hnone⟩
      · rw [hedge]
        exact (ih h.left).append (List.Sublist.refl [x])
      · rw [hnone]
        exact (ih h.left).trans (List.sublist_append_left xs [x])

/-- The debouncer has the level of the last edge, or the one it started with. -/
theorem stable_eq_of_edges (h : Ordered xs) : (run d (.start level change) xs).stable
    = ((edges d (.start level change) xs).getLast?.map Prod.snd).getD level := by
  induction xs using List.reverseRecOn with
  | nil => rfl
  | append_singleton xs x ih =>
      rcases edges_concat level change h with ⟨-, -, hlevel, hedge⟩ | ⟨hsame, hnone⟩
      · rw [hlevel, hedge, List.getLast?_concat]
        rfl
      · rw [hsame, hnone, ih h.left]

/-- **An edge is a sample whose level has been held.** -/
theorem held_of_edge (h : Ordered xs) {e : Nat × α} (he : e ∈ edges d (.start level change) xs) :
    ∃ pre post, xs = pre ++ e :: post ∧ Held d pre e := by
  induction xs using List.reverseRecOn with
  | nil => exact absurd he List.not_mem_nil
  | append_singleton xs x ih =>
      have hbefore : e ∈ edges d (.start level change) xs → ∃ pre post, xs ++ [x] = pre ++ e :: post ∧ Held d pre e := by
        intro he
        obtain ⟨pre, post, hsplit, hheld⟩ := ih h.left he
        exact ⟨pre, post ++ [x], by rw [hsplit, List.append_assoc, List.cons_append], hheld⟩
      rcases edges_concat level change h with ⟨hx, -, -, hedge⟩ | ⟨-, hnone⟩
      · rw [hedge] at he
        rcases List.mem_append.mp he with he | he
        · exact hbefore he
        · rw [List.mem_singleton.mp he]
          exact ⟨xs, [], rfl, hx⟩
      · exact hbefore (hnone ▸ he)

omit [DecidableEq α] in
/-- What is held was not another level less than `d` ago. -/
theorem Held.after (h : Ordered (xs ++ [x])) (hx : Held d xs x) {z : Nat × α} (hz : z ∈ xs) (hne : z.2 ≠ x.2) :
    z.1 + d.toNat ≤ x.1 := by
  obtain ⟨pre, y, post, hsplit, hold, hlevel⟩ := hx
  have hpre : z ∈ pre := by
    have hmem : z ∈ pre ++ y :: post := hsplit ▸ List.mem_append_left [x] hz
    exact (List.mem_append.mp hmem).resolve_right (fun hpost => hne (hlevel z hpost))
  rw [hsplit] at h
  have hle := (List.pairwise_append.mp h).2.2 z hpre y List.mem_cons_self
  omega

/-- **The edges alternate, at least `d` apart.** -/
theorem edges_chain (h : Ordered xs) :
    (edges d (.start level change) xs).IsChain (fun e e' => e.2 ≠ e'.2 ∧ e.1 + d.toNat ≤ e'.1) := by
  induction xs using List.reverseRecOn with
  | nil => exact List.IsChain.nil
  | append_singleton xs x ih =>
      rcases edges_concat level change h with ⟨hx, hnew, -, hedge⟩ | ⟨-, hnone⟩
      · rw [hedge]
        refine List.isChain_append.mpr ⟨ih h.left, List.isChain_singleton x, ?_⟩
        intro e he y hy
        obtain rfl : x = y := Option.some.inj hy
        have hstable := stable_eq_of_edges (d := d) level change h.left
        rw [he] at hstable
        have hne : e.2 ≠ x.2 := fun heq => hnew (heq.symm.trans hstable.symm)
        exact ⟨hne, hx.after h ((edges_sublist level change h.left).subset (List.mem_of_getLast? he)) hne⟩
      · rw [hnone]
        exact ih h.left

/-- **No change is missed**: between a sample with one level held and a later one with another there is an edge to the
    latter. -/
theorem edge_between {y : Nat × α} {zs : Samples α} (h : Sampled d (xs ++ [y] ++ zs ++ [x])) (hy : Held d xs y)
    (hx : Held d (xs ++ [y] ++ zs) x) (hne : x.2 ≠ y.2) :
    ∃ e ∈ edges d (run d (.start level change) (xs ++ [y])) (zs ++ [x]), e.2 = x.2 := by
  have hbefore := (@stable_run _ _ _ level change _ _ h.left.left).1 hy
  have hafter := (@stable_run _ _ _ level change _ _ h).1 hx
  rw [stable_eq_of_edges level change h.left.left.ordered] at hbefore
  rw [stable_eq_of_edges level change h.ordered, List.append_assoc, edges_append] at hafter
  generalize edges d (run d (.start level change) (xs ++ [y])) (zs ++ [x]) = new at hafter ⊢
  rcases List.eq_nil_or_concat' new with rfl | ⟨new, e, rfl⟩
  · rw [List.append_nil, hbefore] at hafter
    exact absurd hafter.symm hne
  · rw [← List.append_assoc, List.getLast?_concat] at hafter
    exact ⟨e, List.mem_append_right new List.mem_cons_self, hafter⟩

end Start

/-- Of levels that alternate, one of two comes back after twice the time. -/
theorem pairwise_of_chain {gap : Nat} {es : Samples Bool}
    (h : es.IsChain (fun e e' => e.2 ≠ e'.2 ∧ e.1 + gap ≤ e'.1)) :
    es.Pairwise (fun e e' => e.1 + gap ≤ e'.1 ∧ (e.2 = e'.2 → e.1 + 2 * gap ≤ e'.1)) := by
  induction es with
  | nil => exact List.Pairwise.nil
  | cons e es ih =>
      have hrest := ih h.tail
      refine List.pairwise_cons.mpr ⟨?_, hrest⟩
      intro e' he'
      cases es with
      | nil => exact absurd he' List.not_mem_nil
      | cons f es =>
          obtain ⟨hne, hgap⟩ := (List.isChain_cons_cons.mp h).1
          rcases List.mem_cons.mp he' with rfl | he'
          · exact ⟨hgap, fun heq => absurd heq hne⟩
          · obtain ⟨hlater, -⟩ := (List.pairwise_cons.mp hrest).1 e' he'
            exact ⟨by omega, fun _ => by omega⟩

/-- **The edges to one level are at least `2 * d` apart.** -/
theorem falling_pairwise (level : Bool) (change : UInt32) (target : Bool) {xs : Samples Bool} (h : Ordered xs) :
    ((edges d (.start level change) xs).filter (fun e => e.2 == target)).Pairwise
      (fun e e' => e.1 + 2 * d.toNat ≤ e'.1) := by
  have hall := (pairwise_of_chain (edges_chain (d := d) level change h)).filter (fun e => e.2 == target)
  apply hall.imp_of_mem
  intro e e' he he' hpair
  apply hpair.2
  exact (eq_of_beq (List.mem_filter.mp he).2).trans (eq_of_beq (List.mem_filter.mp he').2).symm

/-! ## Rises of a signal that loses samples -/

/-- How often a signal, which was at `above` before, rises. -/
def rises : Bool → List Bool → Nat
  | _, [] => 0
  | above, x :: xs => (if x && !above then 1 else 0) + rises x xs

/-- **Every sample that is lost costs at most one rise.** What the signal was at before counts for as much. -/
theorem rises_le_of_sublist {xs ys : List Bool} (h : ys.Sublist xs) (above above' : Bool) :
    rises above xs + ys.length ≤ rises above' ys + xs.length + (if above' && !above then 1 else 0) := by
  induction h generalizing above above' with
  | slnil => exact Nat.zero_le _
  | cons x h ih =>
      -- the lost sample is worth one, and so is the level it leaves behind
      have hrest := ih x above'
      rw [rises, List.length_cons]
      cases x <;> cases above <;> cases above' <;> simp at hrest ⊢ <;> omega
  | cons_cons x h ih =>
      have hrest := ih x x
      rw [rises, rises, List.length_cons, List.length_cons]
      cases x <;> cases above <;> cases above' <;> simp at hrest ⊢ <;> omega

end Debounce
