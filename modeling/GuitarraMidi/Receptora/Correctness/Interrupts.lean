import GuitarraMidi.Lib.Polling
import GuitarraMidi.Receptora.Bridge

/-!
# `Receptora.Correctness.Interrupts` — `OnDataRecv` between the statements of `loop`

`Receptora.Bridge` takes a pass of `loop` as one step. `OnDataRecv` can run between any two statements of it, except
where interrupts are off for the copy. That makes no difference to what is forwarded (`receptora_linearizes`): whenever
the callback runs, the globals and the frames written to `CIAA` are those of a list of whole calls in which the same
packets arrive in the same order. So what is proved of lists of calls holds of the program by its statements.
-/

namespace GuitarraMidi.Receptora

open Polling Transducer

/-- The test, the critical section and the statements of `loop`, and the interrupt. -/
def poller : Poller Globals (List UInt8) ChordMessage Output where
  isr := fun s data => (onDataRecv s data).1
  ready := Globals.hasMsg
  take := fun s => ({ s with hasMsg := false }, s.lastMsg)
  work := fun msg => (loop ⟨true, msg⟩).2
  ready_isr := by
    intro s data h
    unfold onDataRecv
    dsimp only
    split
    · exact h
    · rfl

/-- An interrupt or a pass as a call. -/
def callOf : Act (List UInt8) → Call
  | .interrupt data => .onDataRecv data
  | .loop => .loop

/-- What arrives with a call. -/
def Call.data? : Call → Option (List UInt8)
  | .onDataRecv data => some data
  | .loop => none

/-- A pass is a call of `loop`, and `OnDataRecv` writes nothing to `CIAA`. -/
theorem coarse_step (s : Globals) (a : Act (List UInt8)) :
    (coarse poller s a).1 = (step s (callOf a)).1
      ∧ (coarse poller s a).2.filterMap Output.ciaa? = (step s (callOf a)).2.filterMap Output.ciaa? := by
  cases a with
  | interrupt data =>
      refine ⟨rfl, ?_⟩
      show [] = (onDataRecv s data).2.filterMap Output.ciaa?
      unfold onDataRecv
      dsimp only
      split <;> rfl
  | loop =>
      have hcoarse : coarse poller s .loop
          = if s.hasMsg then (({ s with hasMsg := false } : Globals), (loop ⟨true, s.lastMsg⟩).2) else (s, []) := rfl
      have hstep : step s (callOf .loop) = loop s := rfl
      rw [hcoarse, hstep]
      obtain ⟨hasMsg, msg⟩ := s
      cases hasMsg with
      | false => exact ⟨rfl, rfl⟩
      | true =>
          refine ⟨?_, rfl⟩
          unfold loop
          dsimp only
          rw [Bool.not_true, if_neg Bool.false_ne_true, if_pos rfl]
          split
          · rfl
          · split <;> rfl

theorem coarse_run (s : Globals) (acts : List (Act (List UInt8))) :
    finish (coarse poller) s acts = finish step s (acts.map callOf)
      ∧ (emit (coarse poller) s acts).filterMap Output.ciaa? = frames s (acts.map callOf) := by
  unfold frames
  induction acts generalizing s with
  | nil => exact ⟨rfl, rfl⟩
  | cons a acts ih =>
      obtain ⟨hstate, hout⟩ := coarse_step s a
      obtain ⟨hfin, hframes⟩ := ih (coarse poller s a).1
      rw [List.map_cons, finish_cons, finish_cons, emit_cons, emit_cons, List.filterMap_append,
        List.filterMap_append, hfin, hframes, hout, hstate]
      exact ⟨rfl, rfl⟩

/-- **It makes no difference between which statements of `loop` the callback runs**: there is a list of whole calls with
    the same packets, which leaves the same globals and writes the same frames, those counted that the pass under way
    has still to write. -/
theorem receptora_linearizes (acts : List (Act (List UInt8))) : ∃ calls : List Call,
    calls.filterMap Call.data? = acts.filterMap Act.data?
      ∧ (finish (fine poller) (start, .test) acts).1 = finish step start calls
      ∧ (emit (fine poller) (start, .test) acts).filterMap Output.ciaa?
          ++ (finish (fine poller) (start, .test) acts).2.todo.filterMap Output.ciaa? = frames start calls := by
  obtain ⟨whole, h⟩ := linearize poller start acts
  obtain ⟨hfin, hframes⟩ := coarse_run start whole
  refine ⟨whole.map callOf, ?_, ?_, ?_⟩
  · rw [← h.interrupts, List.filterMap_map]
    apply List.filterMap_congr
    intro a _
    cases a <;> rfl
  · rw [h.shared, hfin]
  · rw [← List.filterMap_append, h.outputs, hframes]

end GuitarraMidi.Receptora
