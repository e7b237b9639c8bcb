import Mathlib.Data.List.Induction

/-!
# `Lib.Steps` — runs of a system whose steps may be impossible

A system is a function `step : σ → α → Option σ`: an action takes a state to the next one, or is not possible there.
`run` makes a list of actions one after another, if all of them are possible.

A client proves a fact of all reachable states by `run_induction` and a simulation by `run_simulates`, each from one
step.
-/

namespace Steps

variable {σ α τ β : Type*} {step : σ → α → Option σ} {step' : τ → β → Option τ}

/-- A list of steps, if all of them are possible. -/
def run (step : σ → α → Option σ) (s : σ) : List α → Option σ
  | [] => some s
  | a :: acts => (step s a).bind (fun s => run step s acts)

theorem run_append (s : σ) (acts acts' : List α) :
    run step s (acts ++ acts') = (run step s acts).bind (fun s => run step s acts') := by
  induction acts generalizing s with
  | nil => rfl
  | cons a acts ih =>
      rw [List.cons_append, run, run]
      cases step s a with
      | none => rfl
      | some s' => exact ih s'

theorem run_concat (s : σ) (acts : List α) (a : α) :
    run step s (acts ++ [a]) = (run step s acts).bind (fun s => step s a) := by
  rw [run_append]
  congr 1
  funext s
  unfold run
  exact Option.bind_fun_some _

/-- The last step of a run. -/
theorem run_concat_eq_some {s s' : σ} {acts : List α} {a : α} :
    run step s (acts ++ [a]) = some s' ↔ ∃ s'', run step s acts = some s'' ∧ step s'' a = some s' := by
  rw [run_concat, Option.bind_eq_some_iff]

/-- **What every step keeps, every run keeps**; the property may speak of the steps made so far. -/
theorem run_induction {s₀ : σ} {P : List α → σ → Prop} (hstart : P [] s₀)
    (hstep : ∀ acts a s s', run step s₀ acts = some s → P acts s → step s a = some s' → P (acts ++ [a]) s')
    {acts : List α} {s : σ} (h : run step s₀ acts = some s) : P acts s := by
  induction acts using List.reverseRecOn generalizing s with
  | nil =>
      obtain rfl : s₀ = s := Option.some.inj h
      exact hstart
  | append_singleton acts a ih =>
      obtain ⟨s', hrun, hlast⟩ := run_concat_eq_some.mp h
      exact hstep acts a s' s hrun (ih hrun) hlast

/-- **A system each step of which is a run of another has its runs among those of the other.** `R` relates the steps
    made and the states reached. -/
theorem run_simulates {s₀ : σ} {t₀ : τ} {R : List α → σ → List β → τ → Prop} (hstart : R [] s₀ [] t₀)
    (hstep : ∀ acts a s s' acts' t, run step' t₀ acts' = some t → R acts s acts' t → step s a = some s' →
      ∃ new t', run step' t new = some t' ∧ R (acts ++ [a]) s' (acts' ++ new) t')
    {acts : List α} {s : σ} (h : run step s₀ acts = some s) :
    ∃ acts' t, run step' t₀ acts' = some t ∧ R acts s acts' t := by
  refine run_induction (P := fun acts s => ∃ acts' t, run step' t₀ acts' = some t ∧ R acts s acts' t)
    ⟨[], t₀, rfl, hstart⟩ ?_ h
  rintro acts a s s' - ⟨acts', t, hrun, hrel⟩ hlast
  obtain ⟨new, t', hnew, hrel'⟩ := hstep acts a s s' acts' t hrun hrel hlast
  refine ⟨acts' ++ new, t', ?_, hrel'⟩
  rw [run_append, hrun]
  exact hnew

end Steps
