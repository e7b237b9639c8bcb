import GuitarraMidi.Lib.Transducer
import Mathlib.Data.List.Induction

/-!
# `Lib.Polling` — a polling loop that an interrupt may come into at any statement

A loop polls a flag that an interrupt sets. Where it is set, the loop takes what the interrupt has left, with interrupts
off, and then works on its own copy, one statement after another. Seen by its statements (`fine`), an interrupt may come
between any two of them; seen by its calls (`coarse`), a pass of the loop is one step.

Every run by statements is one by calls with the same interrupts in the same order (`linearize`): the shared state is
the same, and the outputs are, but for those that the pass under way has still to make. A pass takes place where it takes
its copy; one that does not find the flag does nothing.
-/

namespace Polling

open Transducer

/-- What an interrupt does to the shared state, the flag, the critical section, and the statements after it, each with
    its output. An interrupt does not take the flag down. -/
structure Poller (σ δ μ ο : Type*) where
  isr : σ → δ → σ
  ready : σ → Bool
  take : σ → σ × μ
  work : μ → List ο
  ready_isr : ∀ s d, ready s = true → ready (isr s d) = true

/-- Where the loop is: before the test, before the critical section, or with some statements still to make. -/
inductive Place (ο : Type*)
  | test
  | critical
  | working (todo : List ο)

def Place.todo {ο : Type*} : Place ο → List ο
  | .test => []
  | .critical => []
  | .working todo => todo

/-- An interrupt, or a step of the loop. -/
inductive Act (δ : Type*)
  | interrupt (d : δ)
  | loop

def Act.data? {δ : Type*} : Act δ → Option δ
  | .interrupt d => some d
  | .loop => none

variable {σ δ μ ο : Type*} (P : Poller σ δ μ ο)

/-- A step of the loop is a statement. -/
def fine (s : σ × Place ο) : Act δ → (σ × Place ο) × List ο
  | .interrupt d => ((P.isr s.1 d, s.2), [])
  | .loop =>
      match s.2 with
      | .test => ((s.1, if P.ready s.1 then .critical else .test), [])
      | .critical => (((P.take s.1).1, .working (P.work (P.take s.1).2)), [])
      | .working [] => ((s.1, .test), [])
      | .working (o :: todo) => ((s.1, .working todo), [o])

/-- A step of the loop is a pass. -/
def coarse (s : σ) : Act δ → σ × List ο
  | .interrupt d => (P.isr s d, [])
  | .loop => if P.ready s then ((P.take s).1, P.work (P.take s).2) else (s, [])

variable {P}

/-- The state by statements, after `acts`, is that by calls after `calls`. -/
structure Matches (s₀ : σ) (acts : List (Act δ)) (calls : List (Act δ)) : Prop where
  interrupts : calls.filterMap Act.data? = acts.filterMap Act.data?
  shared : (finish (fine P) (s₀, .test) acts).1 = finish (coarse P) s₀ calls
  outputs : emit (fine P) (s₀, .test) acts ++ (finish (fine P) (s₀, .test) acts).2.todo = emit (coarse P) s₀ calls
  ready : (finish (fine P) (s₀, .test) acts).2 = .critical → P.ready (finish (fine P) (s₀, .test) acts).1 = true

theorem matches_interrupt {s₀ : σ} {acts calls : List (Act δ)} (h : Matches (P := P) s₀ acts calls) (d : δ) :
    Matches (P := P) s₀ (acts ++ [.interrupt d]) (calls ++ [.interrupt d]) where
  interrupts := by rw [List.filterMap_append, List.filterMap_append, h.interrupts]
  shared := by
    rw [finish_concat, finish_concat, ← h.shared]
    rfl
  outputs := by
    rw [finish_concat, emit_concat, emit_concat, ← h.outputs]
    show _ ++ [] ++ _ = _ ++ []
    rw [List.append_nil, List.append_nil]
    rfl
  ready := by
    rw [finish_concat]
    intro hplace
    exact P.ready_isr _ d (h.ready hplace)

/-- A statement that takes a place in no pass by calls: those of the work, and a test that succeeds. -/
theorem matches_silent {s₀ : σ} {acts calls : List (Act δ)} (h : Matches (P := P) s₀ acts calls) {s : σ}
    {place place' : Place ο} {out : List ο} (hs : finish (fine P) (s₀, .test) acts = (s, place))
    (hstep : fine P (s, place) .loop = ((s, place'), out)) (hout : out ++ place'.todo = place.todo)
    (hready : place' = .critical → P.ready s = true) : Matches (P := P) s₀ (acts ++ [.loop]) calls where
  interrupts := by
    rw [List.filterMap_append, ← h.interrupts]
    exact (List.append_nil _).symm
  shared := by
    rw [← h.shared, finish_concat, hs, hstep]
  outputs := by
    rw [← h.outputs, finish_concat, emit_concat, hs, hstep, List.append_assoc, hout]
  ready := by
    rw [finish_concat, hs, hstep]
    exact hready

/-- **Every run by statements is a run by calls**, with the same interrupts. -/
theorem linearize (P : Poller σ δ μ ο) (s₀ : σ) (acts : List (Act δ)) : ∃ calls, Matches (P := P) s₀ acts calls := by
  induction acts using List.reverseRecOn with
  | nil => exact ⟨[], rfl, rfl, rfl, fun h => absurd h (by simp)⟩
  | append_singleton acts a ih =>
      obtain ⟨calls, h⟩ := ih
      cases a with
      | interrupt d => exact ⟨_, matches_interrupt h d⟩
      | loop =>
          cases hs : finish (fine P) (s₀, .test) acts with
          | mk s place =>
              cases place with
              | test =>
                  have hstep : fine P (s, .test) .loop = ((s, if P.ready s then .critical else .test), []) := rfl
                  cases hready : P.ready s with
                  | true =>
                      rw [hready, if_pos rfl] at hstep
                      exact ⟨calls, matches_silent h hs hstep rfl (fun _ => hready)⟩
                  | false =>
                      rw [hready, if_neg Bool.false_ne_true] at hstep
                      exact ⟨calls, matches_silent h hs hstep rfl (fun hplace => absurd hplace (by simp))⟩
              | critical =>
                  -- here the pass takes place
                  have hready := h.ready
                  have hshared := h.shared
                  have houtputs := h.outputs
                  rw [hs] at hready hshared houtputs
                  have hpass : coarse P (finish (coarse P) s₀ calls) .loop
                      = ((P.take s).1, P.work (P.take s).2) := by
                    rw [← hshared]
                    exact if_pos (hready rfl)
                  refine ⟨calls ++ [.loop], ?_, ?_, ?_, ?_⟩
                  · rw [List.filterMap_append, List.filterMap_append, h.interrupts]
                  · rw [finish_concat, finish_concat, hpass, hs]
                    rfl
                  · rw [finish_concat, emit_concat, emit_concat, hpass, hs, ← houtputs]
                    show _ ++ [] ++ _ = _ ++ [] ++ _
                    rfl
                  · rw [finish_concat, hs]
                    intro hplace
                    exact absurd hplace (by simp [fine])
              | working todo =>
                  cases todo with
                  | nil => exact ⟨calls, matches_silent h hs rfl rfl (fun hplace => absurd hplace (by simp))⟩
                  | cons o todo => exact ⟨calls, matches_silent h hs rfl rfl (fun hplace => absurd hplace (by simp))⟩

end Polling
