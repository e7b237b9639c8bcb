import Mathlib.Data.List.Basic

/-!
# `Lib.Transducer` — running a step function over a list of inputs

A reactive component is a function `step : σ → ι → σ × List ο`: it takes a state and one input to the
next state and to the outputs it makes there. `finish` is the state after a list of inputs and `emit` the
concatenation of everything put out on the way.

The rules below are the ones a client proves its results with, so that no run lemma is an induction of
its own:
* `finish_invariant` — what every step keeps, every run keeps;
* `rel_run` — a relation that composes and holds across every step holds across every run;
* `emit_eq_spec` — an output specification checked one step at a time holds of whole runs;
* `simulate_flatMap`, `simulate` — a step-by-step simulation between two machines relates their outputs over
  whole runs;
* `run_cascade` — a run of one machine fed by another is its run on what the other puts out;
* `emit_eq_iff_of_sublist` — of two machines one of which never puts out more, the outputs of a run are
  the same only if they are at every step.
-/

namespace Transducer

variable {σ ι ο : Type*} (step : σ → ι → σ × List ο)

/-- The state after a list of inputs. -/
def finish (s : σ) (xs : List ι) : σ := xs.foldl (fun s x => (step s x).1) s

/-- Everything emitted over a list of inputs, in order. -/
def emit : σ → List ι → List ο
  | _, [] => []
  | s, x :: xs => (step s x).2 ++ emit (step s x).1 xs

variable {step}

@[simp] theorem finish_nil (s : σ) : finish step s [] = s := rfl

@[simp] theorem finish_cons (s : σ) (x : ι) (xs : List ι) :
    finish step s (x :: xs) = finish step (step s x).1 xs := rfl

@[simp] theorem emit_nil (s : σ) : emit step s [] = [] := rfl

@[simp] theorem emit_cons (s : σ) (x : ι) (xs : List ι) :
    emit step s (x :: xs) = (step s x).2 ++ emit step (step s x).1 xs := rfl

theorem finish_append (s : σ) (xs ys : List ι) :
    finish step s (xs ++ ys) = finish step (finish step s xs) ys := List.foldl_append

theorem emit_append (s : σ) (xs ys : List ι) :
    emit step s (xs ++ ys) = emit step s xs ++ emit step (finish step s xs) ys := by
  induction xs generalizing s with
  | nil => rfl
  | cons x xs ih => simp only [List.cons_append, emit_cons, finish_cons, ih, List.append_assoc]

theorem finish_concat (s : σ) (xs : List ι) (x : ι) :
    finish step s (xs ++ [x]) = (step (finish step s xs) x).1 := finish_append s xs [x]

theorem emit_concat (s : σ) (xs : List ι) (x : ι) :
    emit step s (xs ++ [x]) = emit step s xs ++ (step (finish step s xs) x).2 := by
  rw [emit_append, emit_cons, emit_nil, List.append_nil]

/-- Renaming the inputs beforehand is the same as renaming them on the way in. -/
theorem finish_comp {ι' : Type*} (f : ι' → ι) (s : σ) (xs : List ι') :
    finish (fun s x => step s (f x)) s xs = finish step s (xs.map f) := by
  unfold finish
  rw [List.foldl_map]

theorem emit_comp {ι' : Type*} (f : ι' → ι) (s : σ) (xs : List ι') :
    emit (fun s x => step s (f x)) s xs = emit step s (xs.map f) := by
  induction xs generalizing s with
  | nil => rfl
  | cons x xs ih => rw [List.map_cons, emit_cons, emit_cons, ih]

/-- The machine with only part of its outputs in view. -/
def observe {ο' : Type*} (f : ο → Option ο') (step : σ → ι → σ × List ο) (s : σ) (x : ι) : σ × List ο' :=
  ((step s x).1, (step s x).2.filterMap f)

theorem finish_observe {ο' : Type*} (f : ο → Option ο') (s : σ) (xs : List ι) :
    finish (observe f step) s xs = finish step s xs := rfl

theorem emit_observe {ο' : Type*} (f : ο → Option ο') (s : σ) (xs : List ι) :
    emit (observe f step) s xs = (emit step s xs).filterMap f := by
  induction xs generalizing s with
  | nil => rfl
  | cons x xs ih =>
      rw [emit_cons, emit_cons, List.filterMap_append, ← ih]
      rfl

/-! ## Invariants -/

/-- **What every step keeps, every run keeps.** -/
theorem finish_invariant {Inv : σ → Prop} (hstep : ∀ s x, Inv s → Inv (step s x).1)
    {s : σ} (hs : Inv s) (xs : List ι) : Inv (finish step s xs) := by
  induction xs generalizing s with
  | nil => exact hs
  | cons x xs ih => exact ih (hstep s x hs)

/-- **A relation that composes, and holds across every step, holds across every run.** The relation is between
    the state before, the state after, what is put out on the way, and a list that the inputs contribute to,
    each its `label`. -/
theorem rel_run {κ : Type*} {Inv : σ → Prop} {R : σ → σ → List ο → List κ → Prop} (label : ι → List κ)
    (hrefl : ∀ s, R s s [] [])
    (htrans : ∀ {s s' s'' out out' ks ks'}, R s s' out ks → R s' s'' out' ks' →
      R s s'' (out ++ out') (ks ++ ks'))
    (hstep : ∀ s x, Inv s → Inv (step s x).1 ∧ R s (step s x).1 (step s x).2 (label x))
    {s : σ} (hs : Inv s) (xs : List ι) :
    Inv (finish step s xs) ∧ R s (finish step s xs) (emit step s xs) (xs.flatMap label) := by
  induction xs generalizing s with
  | nil => exact ⟨hs, hrefl s⟩
  | cons x xs ih =>
      obtain ⟨hs', hrel⟩ := hstep s x hs
      obtain ⟨hfin, hrel'⟩ := ih hs'
      exact ⟨hfin, htrans hrel hrel'⟩

/-- **What holds of everything a step can put out holds of everything a run does.** -/
theorem forall_mem_emit {P : ο → Prop} (hstep : ∀ s x, ∀ o ∈ (step s x).2, P o) (s : σ) (xs : List ι) :
    ∀ o ∈ emit step s xs, P o := by
  induction xs generalizing s with
  | nil =>
      intro o ho
      exact absurd ho List.not_mem_nil
  | cons x xs ih =>
      intro o ho
      rcases List.mem_append.mp ho with ho | ho
      · exact hstep s x o ho
      · exact ih (step s x).1 o ho

/-- What a run puts out, a step with one of the inputs puts out. -/
theorem exists_of_mem_emit {s : σ} {xs : List ι} {o : ο} (ho : o ∈ emit step s xs) :
    ∃ s' x, x ∈ xs ∧ o ∈ (step s' x).2 := by
  induction xs generalizing s with
  | nil => exact absurd ho List.not_mem_nil
  | cons x xs ih =>
      rcases List.mem_append.mp ho with ho | ho
      · exact ⟨s, x, List.mem_cons_self, ho⟩
      · obtain ⟨s', y, hy, ho⟩ := ih ho
        exact ⟨s', y, List.mem_cons_of_mem x hy, ho⟩

/-- **Outputs that come when the inputs do come in the order of time.** -/
theorem pairwise_emit {time : ι → Nat} {time' : ο → Nat} (htime : ∀ s x, ∀ o ∈ (step s x).2, time' o = time x)
    (s : σ) {xs : List ι} (h : xs.Pairwise (fun x y => time x ≤ time y)) :
    (emit step s xs).Pairwise (fun o o' => time' o ≤ time' o') := by
  induction xs generalizing s with
  | nil => exact List.Pairwise.nil
  | cons x xs ih =>
      obtain ⟨hx, hxs⟩ := List.pairwise_cons.mp h
      refine List.pairwise_append.mpr ⟨?_, ih (step s x).1 hxs, ?_⟩
      · refine List.pairwise_of_forall_mem_list ?_
        intro o ho o' ho'
        exact Nat.le_of_eq ((htime s x o ho).trans (htime s x o' ho').symm)
      · intro o ho o' ho'
        obtain ⟨s', y, hy, ho'⟩ := exists_of_mem_emit ho'
        rw [htime s x o ho, htime s' y o' ho']
        exact hx y hy

/-! ## Output specifications -/

/-- **A specification of the outputs that unfolds one step at a time is the output of the run.** -/
theorem emit_eq_spec (Inv : σ → Prop) (spec : σ → List ι → List ο)
    (hstep : ∀ s x, Inv s → Inv (step s x).1) (hnil : ∀ s, Inv s → spec s [] = [])
    (hcons : ∀ s x xs, Inv s → spec s (x :: xs) = (step s x).2 ++ spec (step s x).1 xs)
    {s : σ} (hs : Inv s) (xs : List ι) : emit step s xs = spec s xs := by
  induction xs generalizing s with
  | nil => exact (hnil s hs).symm
  | cons x xs ih => rw [emit_cons, hcons s x xs hs, ih (hstep s x hs)]

/-! ## Two machines -/

section TwoMachines

variable {τ ι' ο' : Type*} {step' : τ → ι' → τ × List ο'}

/-- **A step-by-step simulation is a simulation of whole runs.** `R` relates the two states, `f` says which
    input of the second machine an input of the first stands for, and the outputs of the first machine are
    what `g` spells out for those of the second. -/
theorem simulate_flatMap (R : σ → τ → Prop) (f : ι → ι') (g : ο' → List ο)
    (hsim : ∀ s t x, R s t → R (step s x).1 (step' t (f x)).1 ∧ (step s x).2 = (step' t (f x)).2.flatMap g)
    {s : σ} {t : τ} (hR : R s t) (xs : List ι) :
    R (finish step s xs) (finish step' t (xs.map f))
      ∧ emit step s xs = (emit step' t (xs.map f)).flatMap g := by
  induction xs generalizing s t with
  | nil => exact ⟨hR, rfl⟩
  | cons x xs ih =>
      obtain ⟨hR', hout⟩ := hsim s t x hR
      obtain ⟨hfin, hemit⟩ := ih hR'
      refine ⟨hfin, ?_⟩
      rw [List.map_cons, emit_cons, emit_cons, List.flatMap_append, hout, hemit]

/-- The same when each output stands for one. -/
theorem simulate (R : σ → τ → Prop) (f : ι → ι') (g : ο' → ο)
    (hsim : ∀ s t x, R s t → R (step s x).1 (step' t (f x)).1 ∧ (step s x).2 = (step' t (f x)).2.map g)
    {s : σ} {t : τ} (hR : R s t) (xs : List ι) :
    R (finish step s xs) (finish step' t (xs.map f))
      ∧ emit step s xs = (emit step' t (xs.map f)).map g := by
  have hstep : ∀ s t x, R s t →
      R (step s x).1 (step' t (f x)).1 ∧ (step s x).2 = (step' t (f x)).2.flatMap (fun o => [g o]) := by
    intro s t x hR
    obtain ⟨hR', hout⟩ := hsim s t x hR
    exact ⟨hR', hout.trans List.map_eq_flatMap⟩
  obtain ⟨hfin, hemit⟩ := simulate_flatMap R f _ hstep hR xs
  exact ⟨hfin, hemit.trans List.map_eq_flatMap.symm⟩

variable {step' : τ → ι → τ × List ο}

/-- When at every point of a run one machine puts out no more than another, the same holds of the run. -/
theorem emit_sublist {s : σ} {t : τ} {xs : List ι}
    (h : ∀ pre x post, xs = pre ++ x :: post →
      (step' (finish step' t pre) x).2.Sublist (step (finish step s pre) x).2) :
    (emit step' t xs).Sublist (emit step s xs) := by
  induction xs generalizing s t with
  | nil => exact List.Sublist.refl []
  | cons x xs ih =>
      have htail : (emit step' (step' t x).1 xs).Sublist (emit step (step s x).1 xs) := by
        apply ih
        rintro pre y post rfl
        exact h (x :: pre) y post rfl
      exact (h [] x xs rfl).append htail

/-- **In that case the two put out the same over the run only if they do at every point of it.** -/
theorem emit_eq_iff_of_sublist {s : σ} {t : τ} {xs : List ι}
    (h : ∀ pre x post, xs = pre ++ x :: post →
      (step' (finish step' t pre) x).2.Sublist (step (finish step s pre) x).2) :
    emit step' t xs = emit step s xs ↔ ∀ pre x post, xs = pre ++ x :: post →
      (step' (finish step' t pre) x).2 = (step (finish step s pre) x).2 := by
  induction xs generalizing s t with
  | nil =>
      constructor
      · intro _ pre x post hnil
        exact absurd hnil.symm (List.append_ne_nil_of_right_ne_nil pre (List.cons_ne_nil x post))
      · intro _
        rfl
  | cons x xs ih =>
      have hhead : (step' t x).2.Sublist (step s x).2 := h [] x xs rfl
      have htail : ∀ pre y post, xs = pre ++ y :: post →
          (step' (finish step' (step' t x).1 pre) y).2.Sublist (step (finish step (step s x).1 pre) y).2 := by
        rintro pre y post rfl
        exact h (x :: pre) y post rfl
      constructor
      · intro heq
        -- neither part can make up for the other being shorter
        have hlen := congrArg List.length heq
        rw [emit_cons, emit_cons, List.length_append, List.length_append] at hlen
        have hle := hhead.length_le
        have hle' := (emit_sublist htail).length_le
        have hout : (step' t x).2 = (step s x).2 := hhead.eq_of_length (by omega)
        have hrest : emit step' (step' t x).1 xs = emit step (step s x).1 xs :=
          (emit_sublist htail).eq_of_length (by omega)
        rintro (_ | ⟨z, pre⟩) y post hsplit
        · obtain ⟨rfl, -⟩ := List.cons.inj hsplit
          exact hout
        · obtain ⟨rfl, hpost⟩ := List.cons.inj (show x :: xs = z :: (pre ++ y :: post) from hsplit)
          exact (ih htail).mp hrest pre y post hpost
      · intro hsteps
        have hrest : emit step' (step' t x).1 xs = emit step (step s x).1 xs := by
          apply (ih htail).mpr
          rintro pre y post rfl
          exact hsteps (x :: pre) y post rfl
        rw [emit_cons, emit_cons, hrest]
        exact congrArg (· ++ _) (hsteps [] x xs rfl)

end TwoMachines

/-! ## One machine after another -/

section Cascade

variable {τ κ : Type*} {step' : τ → κ → τ × List ο}

/-- The second machine reads what the first puts out. -/
def cascade (step : σ → ι → σ × List κ) (step' : τ → κ → τ × List ο) (s : σ × τ) (x : ι) :
    (σ × τ) × List ο :=
  (((step s.1 x).1, finish step' s.2 (step s.1 x).2), emit step' s.2 (step s.1 x).2)

/-- **A run of the two is a run of the second on what a run of the first puts out.** -/
theorem run_cascade {step : σ → ι → σ × List κ} (s : σ) (t : τ) (xs : List ι) :
    finish (cascade step step') (s, t) xs = (finish step s xs, finish step' t (emit step s xs))
      ∧ emit (cascade step step') (s, t) xs = emit step' t (emit step s xs) := by
  induction xs generalizing s t with
  | nil => exact ⟨rfl, rfl⟩
  | cons x xs ih =>
      obtain ⟨hfin, hout⟩ := ih (step s x).1 (finish step' t (step s x).2)
      rw [finish_cons, emit_cons, emit_cons, finish_append, emit_append]
      exact ⟨hfin, congrArg (emit step' t (step s x).2 ++ ·) hout⟩

/-- **A machine that is, step by step, one machine after another is so over whole runs.** `view` shows the two
    states, and `f` picks the outputs of the second. -/
theorem simulate_cascade {ρ ο' : Type*} {whole : ρ → ι → ρ × List ο'} {step : σ → ι → σ × List κ}
    (view : ρ → σ × τ) (f : ο' → Option ο)
    (h : ∀ r x, view (whole r x).1 = (cascade step step' (view r) x).1
      ∧ (whole r x).2.filterMap f = (cascade step step' (view r) x).2) (r : ρ) (xs : List ι) :
    view (finish whole r xs)
        = (finish step (view r).1 xs, finish step' (view r).2 (emit step (view r).1 xs))
      ∧ (emit whole r xs).filterMap f = emit step' (view r).2 (emit step (view r).1 xs) := by
  obtain ⟨hfin, hout⟩ := @run_cascade _ _ _ _ _ step' step (view r).1 (view r).2 xs
  rw [← hfin, ← hout]
  clear hfin hout
  induction xs generalizing r with
  | nil => exact ⟨rfl, rfl⟩
  | cons x xs ih =>
      obtain ⟨hstate, houts⟩ := h r x
      obtain ⟨hfin, hout⟩ := ih (whole r x).1
      rw [finish_cons, finish_cons, emit_cons, emit_cons, List.filterMap_append, hfin, hout, hstate, houts]
      exact ⟨rfl, rfl⟩

end Cascade

/-! ## Blocks -/

/-- The machine that takes a whole block of inputs at once. -/
def blockStep (step : σ → ι → σ × List ο) (s : σ) (xs : List ι) : σ × List ο :=
  (finish step s xs, emit step s xs)

/-- **The blocks one after another are all the inputs.** -/
theorem run_blockStep {κ : Type*} (f : κ → List ι) (s : σ) (xs : List κ) :
    finish (fun s x => blockStep step s (f x)) s xs = finish step s (xs.flatMap f)
      ∧ emit (fun s x => blockStep step s (f x)) s xs = emit step s (xs.flatMap f) := by
  induction xs generalizing s with
  | nil => exact ⟨rfl, rfl⟩
  | cons x xs ih =>
      obtain ⟨hfin, hemit⟩ := ih (finish step s (f x))
      rw [List.flatMap_cons, finish_append, emit_append, ← hfin, ← hemit]
      exact ⟨rfl, rfl⟩

end Transducer
