import GuitarraMidi.Lib.Debounce
import GuitarraMidi.Lib.Transducer
import GuitarraMidi.Emisora.Loop

/-!
# `Emisora.Correctness.StrumLevel` — the debounced STRUM level

The three variables of the STRUM button are a debouncer (`strum_loop`): what else a pass does, the other variables
it reads and the packets it sends, has no part in them. So the level that `loop()` goes by is the raw level once that
has been held for `DEBOUNCE_MS` of true time (`strum_debounced`).
-/

namespace GuitarraMidi.Emisora

open Clock Debounce Transducer

/-- A pass of `loop()` at a true time. -/
structure Iteration where
  time : Nat
  nowLed : UInt32
  magnitud : ℚ
  rawStrum : Bool
  raw : Vector Bool 4

/-- What the pass reads. -/
def Iteration.reading (x : Iteration) : Reading := ⟨tick x.time, x.nowLed, x.magnitud, x.rawStrum, x.raw⟩

/-- The variables after a list of passes. -/
def after (xs : List Iteration) : Loop := finish loop Loop.start (xs.map Iteration.reading)

theorem after_concat (xs : List Iteration) (x : Iteration) :
    after (xs ++ [x]) = (loop (after xs) x.reading).1 := by
  unfold after
  rw [List.map_append, List.map_singleton, finish_concat]

/-! ## The debouncer in the state -/

/-- The variables of the STRUM button. -/
def Loop.strum (s : Loop) : Debouncer Bool := ⟨s.lastStableStrum, s.lastReadStrum, s.lastChangeStrum⟩

theorem strum_apagarLedVerde (s : Loop) (now : UInt32) : (apagarLedVerde s now).1.strum = s.strum := by
  unfold apagarLedVerde
  split <;> rfl

theorem strum_detectarRasgueo (s : Loop) (x : Reading) : (detectarRasgueo s x).1.strum = s.strum := by
  unfold detectarRasgueo
  split
  · cases velocityDe x.magnitud <;> rfl
  · rfl

theorem strum_debounceStrum (s : Loop) (x : Reading) :
    (debounceStrum s x).strum = sample debounceMs s.strum x.now x.rawStrum := by
  have hleer : (leerStrum s x).strum = sense s.strum x.now x.rawStrum := apply_ite Loop.strum _ _ _
  unfold sample
  rw [← hleer]
  exact apply_ite Loop.strum _ _ _

theorem strum_antesDeEnviar (s : Loop) (x : Reading) :
    (antesDeEnviar s x).strum = sample debounceMs s.strum x.now x.rawStrum := by
  unfold antesDeEnviar
  rw [strum_debounceStrum, strum_detectarRasgueo, strum_apagarLedVerde]

/-- **A pass is a sample of the STRUM debouncer.** -/
theorem strum_loop (s : Loop) (x : Reading) :
    (loop s x).1.strum = sample debounceMs s.strum x.now x.rawStrum := by
  obtain ⟨msg, hstate⟩ := (loop_cases s x).1
  rw [hstate, ← strum_antesDeEnviar]
  rfl

/-- The STRUM reading of a pass. -/
def Iteration.strumSample (x : Iteration) : Nat × Bool := (x.time, x.rawStrum)

theorem strum_after (xs : List Iteration) :
    (after xs).strum = run debounceMs (Debouncer.start true 0) (xs.map Iteration.strumSample) := by
  induction xs using List.reverseRecOn with
  | nil => rfl
  | append_singleton xs x ih =>
      rw [after_concat, strum_loop, List.map_append, List.map_singleton, run_concat, ih]
      rfl

/-! ## The level over a run -/

/-- The STRUM level that the pass `x` after `xs` reads has been read in all passes from one at least
    `DEBOUNCE_MS` ago on. -/
def StrumHeld (xs : List Iteration) (x : Iteration) : Prop :=
  ∃ front y back, xs ++ [x] = front ++ y :: back ∧ y.time + debounceMs.toNat ≤ x.time
    ∧ ∀ z ∈ y :: back, z.rawStrum = x.rawStrum

theorem strumHeld_iff (xs : List Iteration) (x : Iteration) :
    StrumHeld xs x ↔ Held debounceMs (xs.map Iteration.strumSample) x.strumSample := by
  have hmap : xs.map Iteration.strumSample ++ [x.strumSample] = (xs ++ [x]).map Iteration.strumSample := by
    rw [List.map_append, List.map_singleton]
  constructor
  · rintro ⟨front, y, back, hsplit, hold, hlevel⟩
    refine ⟨front.map Iteration.strumSample, y.strumSample, back.map Iteration.strumSample, ?_, hold, ?_⟩
    · rw [hmap, hsplit, List.map_append, List.map_cons]
    · intro z hz
      rw [← List.map_cons] at hz
      obtain ⟨w, hw, rfl⟩ := List.mem_map.mp hz
      exact hlevel w hw
  · rintro ⟨front, y, back, hsplit, hold, hlevel⟩
    rw [hmap] at hsplit
    obtain ⟨front, rest, hxs, rfl, hrest⟩ := List.map_eq_append_iff.mp hsplit
    obtain ⟨y, back, rfl, rfl, rfl⟩ := List.map_eq_cons_iff.mp hrest
    refine ⟨front, y, back, hxs, hold, ?_⟩
    intro z hz
    apply hlevel z.strumSample
    rw [← List.map_cons]
    exact List.mem_map_of_mem hz

/-- **The debounced STRUM level is the raw level once it has been held for `DEBOUNCE_MS`**, and the debounced level
    of the pass before as long as it has not; in particular it only changes to a level held that long. -/
theorem strum_debounced (xs : List Iteration) (x : Iteration)
    (h : (xs ++ [x]).IsChain (fun y z => y.time ≤ z.time ∧ z.time - y.time < 2 ^ 32 - 30)) :
    (StrumHeld xs x → (after (xs ++ [x])).lastStableStrum = x.rawStrum)
      ∧ (¬ StrumHeld xs x → (after (xs ++ [x])).lastStableStrum = (after xs).lastStableStrum)
      ∧ ((after (xs ++ [x])).lastStableStrum ≠ (after xs).lastStableStrum → StrumHeld xs x) := by
  have hsampled : Sampled debounceMs (xs.map Iteration.strumSample ++ [x.strumSample]) := by
    have hmap := @List.isChain_map_of_isChain _ _ _ (fun (y z : Nat × Bool) => y.1 ≤ z.1 ∧ z.1 - y.1 < 2 ^ 32 - 30)
      Iteration.strumSample (fun _ _ hyz => hyz) _ h
    rwa [List.map_append, List.map_singleton] at hmap
  obtain ⟨hheld, hkept⟩ := @stable_run _ _ _ true 0 _ _ hsampled
  have hafter : (after (xs ++ [x])).strum
      = run debounceMs (Debouncer.start true 0) (xs.map Iteration.strumSample ++ [x.strumSample]) := by
    rw [strum_after, List.map_append, List.map_singleton]
  rw [← hafter, ← strumHeld_iff] at hheld
  rw [← hafter, ← strum_after, ← strumHeld_iff] at hkept
  exact ⟨hheld, hkept, not_imp_comm.mp hkept⟩

/-- STRUM read at a true time, everything else at rest. -/
def strumAt (time : Nat) (rawStrum : Bool) : Iteration := ⟨time, 0, 0, rawStrum, Vector.replicate 4 true⟩

/-- STRUM is pressed 6 ms before the clock goes round and still is 30 ms later: it is taken up. -/
theorem strum_debounced_over_wrap :
    StrumHeld [strumAt 4294967290 false] (strumAt 4294967320 false)
      ∧ (after [strumAt 4294967290 false, strumAt 4294967320 false]).lastStableStrum = false := by
  have hheld : StrumHeld [strumAt 4294967290 false] (strumAt 4294967320 false) :=
    ⟨[], _, _, rfl, by decide, by decide⟩
  exact ⟨hheld, (strum_debounced [strumAt 4294967290 false] (strumAt 4294967320 false) (by simp [strumAt])).1 hheld⟩

end GuitarraMidi.Emisora
