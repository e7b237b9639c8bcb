import GuitarraMidi.Lib.Clock
import Mathlib.Data.List.Induction

/-!
# `Lib.OneShot` — a level held for a time after each trigger

A one-shot goes on at a trigger, and off at the first sample that finds a time `d` gone since the last one (`Lit`). This
one keeps the reading of a 32-bit clock at which it is to go off, and compares the reading of each sample with it
instead of subtracting the two. So it is right as long as no two readings it compares stand on either side of a turn
of the clock, and wrong where they do: `on_iff_lit_run` says exactly when, over whole histories.
-/

namespace OneShot

open Clock

variable {d : UInt32}

/-! ## Histories -/

/-- Samples with their true times, `true` where there is a trigger, the last one last. -/
abbrev Samples := List (Nat × Bool)

/-- The times do not go back, and two samples in a row are less than half a turn of the clock apart. -/
def Sampled (xs : Samples) : Prop := xs.IsChain (fun x y => x.1 ≤ y.1 ∧ y.1 - x.1 < 2 ^ 31)

theorem Sampled.of_start {xs ys : Samples} (h : Sampled xs) (hpre : ys <+: xs) : Sampled ys := by
  obtain ⟨zs, rfl⟩ := hpre
  exact h.left_of_append

/-- The times of the triggers. -/
def triggers (xs : Samples) : List Nat := (xs.filter Prod.snd).map Prod.fst

/-- The sample `x` after `xs` is a trigger, or comes less than `d` after the last one. -/
def Lit (d : UInt32) (xs : Samples) (x : Nat × Bool) : Prop :=
  x.2 = true ∨ ∃ t ∈ (triggers xs).getLast?, x.1 < t + d.toNat

theorem triggers_concat_true (xs : Samples) (t : Nat) : triggers (xs ++ [(t, true)]) = triggers xs ++ [t] := by
  unfold triggers
  rw [List.filter_append, List.map_append]
  rfl

theorem triggers_concat_false (xs : Samples) (t : Nat) : triggers (xs ++ [(t, false)]) = triggers xs := by
  unfold triggers
  rw [List.filter_append, List.map_append]
  exact List.append_nil _

/-- The last trigger is not after the last sample. -/
theorem trigger_le {xs : Samples} {x : Nat × Bool} (h : Sampled (xs ++ [x])) {t : Nat}
    (ht : t ∈ (triggers (xs ++ [x])).getLast?) : t ≤ x.1 := by
  obtain ⟨y, hy, rfl⟩ := List.mem_map.mp (List.mem_of_getLast? ht)
  rcases List.mem_append.mp (List.mem_filter.mp hy).1 with hy | hy
  · have htimes := pairwise_le h (fun _ _ hxy => hxy.1)
    exact (List.pairwise_append.mp htimes).2.2 y hy x List.mem_cons_self
  · rw [List.mem_singleton.mp hy]

/-! ## The one-shot -/

/-- The level, and the reading at which it is to go off. -/
structure Pulse where
  on : Bool
  off : UInt32

/-- A pulse that has not been triggered. -/
def Pulse.idle : Pulse := ⟨false, 0⟩

/-- Going off when the reading has come. -/
def expire (s : Pulse) (now : UInt32) : Pulse := if s.on && now ≥ s.off then { s with on := false } else s

/-- Going on for `d`. -/
def fire (d now : UInt32) : Pulse := ⟨true, now + d⟩

/-- One sample. -/
def sample (d : UInt32) (s : Pulse) (now : UInt32) (trigger : Bool) : Pulse :=
  if trigger then fire d now else expire s now

/-- The pulse after a list of samples. -/
def run (d : UInt32) (xs : Samples) : Pulse := xs.foldl (fun s x => sample d s (tick x.1) x.2) Pulse.idle

theorem run_concat (xs : Samples) (x : Nat × Bool) :
    run d (xs ++ [x]) = sample d (run d xs) (tick x.1) x.2 := by
  unfold run
  rw [List.foldl_append, List.foldl_cons, List.foldl_nil]

@[simp] theorem off_expire (s : Pulse) (now : UInt32) : (expire s now).off = s.off := by
  unfold expire
  split <;> rfl

theorem on_expire (s : Pulse) (now : UInt32) : (expire s now).on = true ↔ s.on = true ∧ ¬ s.off ≤ now := by
  unfold expire
  split <;> simp_all

/-- The pulse is to go off `d` after the last trigger, modulo `2^32`. -/
theorem off_run {xs : Samples} {t : Nat} (ht : t ∈ (triggers xs).getLast?) : (run d xs).off = tick (t + d.toNat) := by
  induction xs using List.reverseRecOn with
  | nil => exact absurd ht (by simp [triggers])
  | append_singleton xs x ih =>
      obtain ⟨now, trigger⟩ := x
      rw [run_concat]
      cases trigger with
      | true =>
          rw [triggers_concat_true, List.getLast?_concat] at ht
          obtain rfl : now = t := Option.some.inj ht
          show tick now + d = _
          rw [tick_add, UInt32.ofNat_toNat]
      | false =>
          rw [triggers_concat_false] at ht
          exact (off_expire _ _).trans (ih ht)

/-! ## When it is right -/

/-- The comparison made at the sample `x`, after `xs` and then `w`, is between readings of one turn of the clock. Only a
    sample with no trigger that finds the pulse still on has to compare. -/
def InTurn (d : UInt32) (xs : Samples) (w x : Nat × Bool) : Prop :=
  Lit d xs w → x.2 = false → ∀ t ∈ (triggers (xs ++ [w])).getLast?, x.1 / 2 ^ 32 = (t + d.toNat) / 2 ^ 32

/-- A pulse that is not to be on at a sample is not to be on at the next, unless that is a trigger. -/
theorem not_lit_concat {xs : Samples} {w : Nat × Bool} {now : Nat} (hw : ¬ Lit d xs w) (hle : w.1 ≤ now) :
    ¬ Lit d (xs ++ [w]) (now, false) := by
  obtain ⟨time, trigger⟩ := w
  cases trigger with
  | true => exact absurd (Or.inl rfl) hw
  | false =>
      rintro (h | ⟨t, ht, hlt⟩)
      · exact absurd h Bool.false_ne_true
      · rw [triggers_concat_false] at ht
        exact hw (Or.inr ⟨t, ht, Nat.lt_of_le_of_lt hle hlt⟩)

/-- There is a trigger to count from while the pulse is to be on. -/
theorem Lit.trigger {xs : Samples} {w : Nat × Bool} (h : Lit d xs w) :
    ∃ t ∈ (triggers (xs ++ [w])).getLast?, w.1 ≤ t + d.toNat := by
  obtain ⟨time, trigger⟩ := w
  cases trigger with
  | true =>
      rw [triggers_concat_true, List.getLast?_concat]
      exact ⟨time, rfl, Nat.le_add_right _ _⟩
  | false =>
      rw [triggers_concat_false]
      rcases h with h | ⟨t, ht, hlt⟩
      · exact absurd h Bool.false_ne_true
      · exact ⟨t, ht, Nat.le_of_lt hlt⟩

theorem lit_iff_of_last {xs : Samples} {t now : Nat} (ht : t ∈ (triggers xs).getLast?) :
    Lit d xs (now, false) ↔ ¬ t + d.toNat ≤ now := by
  constructor
  · rintro (h | ⟨t', ht', hlt⟩)
    · exact absurd h Bool.false_ne_true
    · obtain rfl : t = t' := Option.some.inj (ht.symm.trans ht')
      exact Nat.not_le.mpr hlt
  · intro hlt
    exact Or.inr ⟨t, ht, Nat.not_le.mp hlt⟩

theorem inTurn_iff_of_last {xs : Samples} {w : Nat × Bool} {t now : Nat} (hw : Lit d xs w)
    (ht : t ∈ (triggers (xs ++ [w])).getLast?) :
    InTurn d xs w (now, false) ↔ (t + d.toNat) / 2 ^ 32 = now / 2 ^ 32 := by
  constructor
  · intro h
    exact (h hw rfl t ht).symm
  · intro h _ _ t' ht'
    obtain rfl : t = t' := Option.some.inj (ht.symm.trans ht')
    exact h.symm

/-- **One sample**: after a sample at which the pulse is right, it is right at the next exactly when the comparison made
    there is within a turn. -/
theorem on_iff_lit_concat {xs : Samples} {w x : Nat × Bool} (h : Sampled (xs ++ [w, x]))
    (hw : (run d (xs ++ [w])).on = true ↔ Lit d xs w) :
    ((run d (xs ++ [w, x])).on = true ↔ Lit d (xs ++ [w]) x) ↔ InTurn d xs w x := by
  rw [List.append_cons] at h ⊢
  rw [run_concat]
  obtain ⟨now, trigger⟩ := x
  have hnear := (List.isChain_append.mp h).2.2 w (by rw [List.getLast?_concat]; rfl) (now, trigger) rfl
  cases trigger with
  | true => exact ⟨fun _ _ hx => absurd hx Bool.noConfusion, fun _ => ⟨fun _ => Or.inl rfl, fun _ => rfl⟩⟩
  | false =>
      show ((expire (run d (xs ++ [w])) (tick now)).on = true ↔ _) ↔ _
      rw [on_expire, hw]
      by_cases hlit : Lit d xs w
      · obtain ⟨t, ht, hwt⟩ := hlit.trigger
        have htw : t ≤ w.1 := trigger_le h.left_of_append ht
        have hd : d.toNat < 2 ^ 32 := d.toNat_lt
        rw [lit_iff_of_last ht, inTurn_iff_of_last hlit ht, off_run ht, and_iff_right hlit, not_iff_not]
        exact tick_le_iff_iff (by omega) (by omega)
      · have hdark := not_lit_concat hlit hnear.1
        constructor
        · intro _ hlit'
          exact absurd hlit' hlit
        · intro _
          exact ⟨fun hon => absurd hon.1 hlit, fun hlit' => absurd hlit' hdark⟩

/-- **A one-shot is right after every sample exactly when every comparison it makes is within a turn of the clock.** -/
theorem on_iff_lit_run {xs : Samples} (h : Sampled xs) :
    (∀ ys x, ys ++ [x] <+: xs → ((run d (ys ++ [x])).on = true ↔ Lit d ys x))
      ↔ ∀ ys w x, ys ++ [w, x] <+: xs → InTurn d ys w x := by
  constructor
  · intro hright ys w x hpre
    have hsplit : ys ++ [w, x] = (ys ++ [w]) ++ [x] := List.append_cons ys w [x]
    have hw := hright ys w ((List.prefix_append (ys ++ [w]) [x]).trans (hsplit ▸ hpre))
    have hx := hright (ys ++ [w]) x (hsplit ▸ hpre)
    exact (on_iff_lit_concat (h.of_start hpre) hw).mp (hsplit ▸ hx)
  · intro hturns ys
    induction ys using List.reverseRecOn with
    | nil =>
        intro x _
        obtain ⟨now, trigger⟩ := x
        cases trigger <;> simp [run, sample, fire, expire, Pulse.idle, Lit, triggers]
    | append_singleton ys w ih =>
        intro x hpre
        have hsplit : ys ++ [w, x] = (ys ++ [w]) ++ [x] := List.append_cons ys w [x]
        have hw := ih w ((List.prefix_append (ys ++ [w]) [x]).trans hpre)
        rw [← hsplit] at hpre ⊢
        exact (on_iff_lit_concat (h.of_start hpre) hw).mpr (hturns ys w x hpre)

end OneShot
