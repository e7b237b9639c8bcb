import GuitarraMidi.Lib.OneShot
import GuitarraMidi.Emisora.Correctness.StrumLevel

/-!
# `Emisora.Correctness.LedPulse` — how long the green LED is on

The two variables of the green LED are a one-shot that a detected strum triggers (`led_loop`), and the level of the pin
is the one they hold (`ledVerde_after`). `loop()` subtracts its readings of `millis()` everywhere else, but here it
compares them as they are. So the LED is right in the runs in which no such comparison has the counter go round between
its two sides, and only in those (`led_pulse_iff`).
-/

namespace GuitarraMidi.Emisora

open Clock OneShot Transducer

/-! ## The level of the LED -/

/-- The level that an output writes to the green LED. -/
def LoopOutput.led? : LoopOutput → Option Bool
  | .ledVerde level => some level
  | .send _ _ _ => none

/-- The level of the green LED after a list of passes: the one last written; `setup()` writes `LOW`. -/
def ledVerde (xs : List Iteration) : Bool :=
  ((emit loop Loop.start (xs.map Iteration.reading)).filterMap LoopOutput.led?).getLast?.getD false

/-- The last level that `out` writes to the LED, from `s` on, is the one that `ledVerdeEncendido` has in `s'`. -/
def LedWritten (s s' : Loop) (out : List LoopOutput) : Prop :=
  (out.filterMap LoopOutput.led?).getLast?.getD s.ledVerdeEncendido = s'.ledVerdeEncendido

theorem LedWritten.append {s s' s'' : Loop} {out out' : List LoopOutput} (h : LedWritten s s' out)
    (h' : LedWritten s' s'' out') : LedWritten s s'' (out ++ out') := by
  unfold LedWritten at *
  rw [List.filterMap_append, List.getLast?_append, ← h', ← h]
  cases (out'.filterMap LoopOutput.led?).getLast? <;> rfl

theorem ledWritten_apagarLedVerde (s : Loop) (now : UInt32) :
    LedWritten s (apagarLedVerde s now).1 (apagarLedVerde s now).2 := by
  unfold apagarLedVerde
  split <;> rfl

theorem ledWritten_detectarRasgueo (s : Loop) (x : Reading) :
    LedWritten s (detectarRasgueo s x).1 (detectarRasgueo s x).2.2 := by
  unfold detectarRasgueo
  split
  · cases velocityDe x.magnitud <;> rfl
  · rfl

/-! ## The one-shot in the state -/

/-- The variables of the green LED. -/
def Loop.led (s : Loop) : Pulse := ⟨s.ledVerdeEncendido, s.ledVerdeApagarMs⟩

theorem led_apagarLedVerde (s : Loop) (now : UInt32) : (apagarLedVerde s now).1.led = expire s.led now := by
  have hout : apagarLedVerde s now = if s.led.on && now ≥ s.led.off then
      ({ s with ledVerdeEncendido := false }, [.ledVerde false]) else (s, []) := rfl
  rw [hout]
  exact apply_ite (fun r : Loop × List LoopOutput => r.1.led) _ _ _

theorem led_detectarRasgueo {s : Loop} {x : Reading} (h : x.nowLed = x.now) :
    (detectarRasgueo s x).1.led = if (rasgueo s x).isSome then fire ledVerdeTiempo x.now else s.led := by
  unfold detectarRasgueo rasgueo
  split
  · cases velocityDe x.magnitud with
    | none => rfl
    | some velocity =>
        rw [← h]
        rfl
  · rfl

theorem led_debounceStrum (s : Loop) (x : Reading) : (debounceStrum s x).led = s.led := by
  have hleer : (leerStrum s x).led = s.led := by
    unfold leerStrum
    split <;> rfl
  rw [← hleer]
  unfold debounceStrum
  dsimp only
  split <;> rfl

/-- **A pass is a sample of the one-shot**, and a trigger when it detects a strum. -/
theorem led_loop {s : Loop} {x : Reading} (h : x.nowLed = x.now) :
    (loop s x).1.led = sample ledVerdeTiempo s.led x.now (rasgueo s x).isSome := by
  obtain ⟨msg, hstate⟩ := (loop_cases s x).1
  rw [hstate]
  show (antesDeEnviar s x).led = _
  unfold antesDeEnviar sample
  rw [led_debounceStrum, led_detectarRasgueo h, led_apagarLedVerde, rasgueo_apagarLedVerde]

theorem ledWritten_antesDeEnviar (s : Loop) (x : Reading) : LedWritten s (antesDeEnviar s x)
    ((apagarLedVerde s x.now).2 ++ (detectarRasgueo (apagarLedVerde s x.now).1 x).2.2) := by
  have hdebounce : LedWritten (detectarRasgueo (apagarLedVerde s x.now).1 x).1 (antesDeEnviar s x) [] :=
    (congrArg Pulse.on (led_debounceStrum _ x)).symm
  have hparts := ((ledWritten_apagarLedVerde s x.now).append (ledWritten_detectarRasgueo _ x)).append hdebounce
  rwa [List.append_nil] at hparts

theorem ledWritten_loop (s : Loop) (x : Reading) : LedWritten s (loop s x).1 (loop s x).2 := by
  have hparts := ledWritten_antesDeEnviar s x
  unfold loop
  dsimp only
  split
  · split
    · exact hparts.append rfl
    · exact hparts
  · exact hparts

/-- **The LED has the level that the program takes it to have.** -/
theorem ledVerde_after (xs : List Iteration) : ledVerde xs = (after xs).ledVerdeEncendido := by
  have hrun := @rel_run _ _ _ loop Unit (fun _ => True) (fun s s' out _ => LedWritten s s' out) (fun _ => [])
    (fun _ => rfl) (fun h h' => h.append h') (fun s x _ => ⟨trivial, ledWritten_loop s x⟩) Loop.start trivial
    (xs.map Iteration.reading)
  exact hrun.2

/-! ## The strums of a run -/

/-- The passes as samples: their times, and whether they detect a strum. -/
def rasgueos (xs : List Iteration) : Samples :=
  emit (fun s (x : Iteration) => ((loop s x.reading).1, [(x.time, (rasgueo s x.reading).isSome)])) Loop.start xs

/-- The times of the passes that detect a strum. -/
def strumTimes (xs : List Iteration) : List Nat := triggers (rasgueos xs)

/-- The sample that the pass `x` after `xs` is. -/
def rasgueoSample (xs : List Iteration) (x : Iteration) : Nat × Bool :=
  (x.time, (rasgueo (after xs) x.reading).isSome)

theorem rasgueos_concat (xs : List Iteration) (x : Iteration) :
    rasgueos (xs ++ [x]) = rasgueos xs ++ [rasgueoSample xs x] := by
  have hfin : finish (fun s (x : Iteration) => ((loop s x.reading).1, [(x.time, (rasgueo s x.reading).isSome)]))
      Loop.start xs = after xs := by
    unfold after finish
    rw [List.foldl_map]
  rw [rasgueos, emit_concat, hfin]
  rfl

theorem led_after {xs : List Iteration} (h : ∀ x ∈ xs, x.nowLed = tick x.time) :
    (after xs).led = run ledVerdeTiempo (rasgueos xs) := by
  induction xs using List.reverseRecOn with
  | nil => rfl
  | append_singleton xs x ih =>
      have hx : x.reading.nowLed = x.reading.now := h x (List.mem_append_right xs List.mem_cons_self)
      rw [after_concat, led_loop hx, rasgueos_concat, run_concat, ih (fun y hy => h y (List.mem_append_left [x] hy))]
      rfl

theorem map_fst_rasgueos (xs : List Iteration) : (rasgueos xs).map Prod.fst = xs.map Iteration.time := by
  induction xs using List.reverseRecOn with
  | nil => rfl
  | append_singleton xs x ih => rw [rasgueos_concat, List.map_append, List.map_append, ih]; rfl

theorem mem_strumTimes {xs : List Iteration} {t : Nat} (h : t ∈ strumTimes xs) : ∃ x ∈ xs, x.time = t := by
  obtain ⟨e, he, rfl⟩ := List.mem_map.mp h
  have hmem : e.1 ∈ (rasgueos xs).map Prod.fst := List.mem_map_of_mem (List.mem_filter.mp he).1
  rw [map_fst_rasgueos] at hmem
  exact List.mem_map.mp hmem

/-- What has been sampled is the samples of what has been passed. -/
theorem rasgueos_eq_concat {xs : List Iteration} {ys : Samples} {e : Nat × Bool} :
    rasgueos xs = ys ++ [e] ↔ ∃ xs' x, xs = xs' ++ [x] ∧ ys = rasgueos xs' ∧ e = rasgueoSample xs' x := by
  constructor
  · intro h
    induction xs using List.reverseRecOn with
    | nil => exact absurd h.symm (List.append_ne_nil_of_right_ne_nil ys (List.cons_ne_nil e []))
    | append_singleton xs x _ =>
        rw [rasgueos_concat] at h
        obtain ⟨hys, he⟩ := List.append_inj' h rfl
        exact ⟨xs, x, rfl, hys.symm, (List.singleton_inj.mp he).symm⟩
  · rintro ⟨xs', x, rfl, rfl, rfl⟩
    exact rasgueos_concat xs' x

theorem prefix_rasgueos {run : List Iteration} {ys : Samples} :
    ys <+: rasgueos run ↔ ∃ xs, xs <+: run ∧ rasgueos xs = ys := by
  induction run using List.reverseRecOn with
  | nil =>
      rw [show rasgueos [] = [] from rfl, List.prefix_nil]
      constructor
      · rintro rfl
        exact ⟨[], List.prefix_rfl, rfl⟩
      · rintro ⟨xs, hxs, rfl⟩
        rw [List.prefix_nil.mp hxs]
        rfl
  | append_singleton run x ih =>
      rw [rasgueos_concat, List.prefix_concat_iff, ih]
      constructor
      · rintro (rfl | ⟨xs, hxs, hys⟩)
        · exact ⟨run ++ [x], List.prefix_rfl, rasgueos_concat run x⟩
        · exact ⟨xs, hxs.trans (List.prefix_append run [x]), hys⟩
      · rintro ⟨xs, hxs, rfl⟩
        rcases List.prefix_concat_iff.mp hxs with rfl | hxs
        · exact Or.inl (rasgueos_concat run x)
        · exact Or.inr ⟨xs, hxs, rfl⟩

/-! ## The LED over a run -/

/-- The LED is due to be on after the pass `x`, made after `xs`: a strum is detected in it, or the last one was less
    than `LED_VERDE_TIEMPO` before it. -/
def LedDue (xs : List Iteration) (x : Iteration) : Prop :=
  (rasgueo (after xs) x.reading).isSome = true ∨ ∃ t ∈ (strumTimes xs).getLast?, x.time < t + ledVerdeTiempo.toNat

/-- After every pass of the run the LED is on exactly when it is due to be. -/
def LedRight (run : List Iteration) : Prop :=
  ∀ xs x, xs ++ [x] <+: run → (ledVerde (xs ++ [x]) = true ↔ LedDue xs x)

/-- Each pass without a strum that follows one with the LED due to be on is in the same turn of the counter as the time
    at which the LED is to be switched off. -/
def LedInTurn (run : List Iteration) : Prop :=
  ∀ xs w x, xs ++ [w, x] <+: run → LedDue xs w → rasgueo (after (xs ++ [w])) x.reading = none →
    ∀ t ∈ (strumTimes (xs ++ [w])).getLast?, x.time / 2 ^ 32 = (t + ledVerdeTiempo.toNat) / 2 ^ 32

theorem ledRight_iff {run : List Iteration} (hled : ∀ x ∈ run, x.nowLed = tick x.time) :
    LedRight run ↔ ∀ ys e, ys ++ [e] <+: rasgueos run →
      ((OneShot.run ledVerdeTiempo (ys ++ [e])).on = true ↔ Lit ledVerdeTiempo ys e) := by
  have hlevel : ∀ xs, xs <+: run → ledVerde xs = (OneShot.run ledVerdeTiempo (rasgueos xs)).on := by
    intro xs hxs
    rw [ledVerde_after, ← led_after (fun x hx => hled x (hxs.subset hx))]
    rfl
  constructor
  · intro h ys e hpre
    obtain ⟨xs, hxs, hys⟩ := prefix_rasgueos.mp hpre
    obtain ⟨xs', x, rfl, rfl, rfl⟩ := rasgueos_eq_concat.mp hys
    rw [← hys, ← hlevel _ hxs]
    exact h xs' x hxs
  · intro h xs x hpre
    rw [hlevel _ hpre, rasgueos_concat]
    exact h _ _ (prefix_rasgueos.mpr ⟨xs ++ [x], hpre, rasgueos_concat xs x⟩)

theorem ledInTurn_iff {run : List Iteration} :
    LedInTurn run ↔ ∀ ys e f, ys ++ [e, f] <+: rasgueos run → InTurn ledVerdeTiempo ys e f := by
  have hsample : ∀ xs x, (rasgueoSample xs x).2 = false ↔ rasgueo (after xs) x.reading = none :=
    fun _ _ => Bool.eq_false_iff.trans Option.not_isSome_iff_eq_none
  constructor
  · intro h ys e f hpre
    obtain ⟨xs, hxs, hys⟩ := prefix_rasgueos.mp hpre
    rw [List.append_cons] at hys
    obtain ⟨xs', x, rfl, hxs', rfl⟩ := rasgueos_eq_concat.mp hys
    obtain ⟨xs'', w, rfl, rfl, rfl⟩ := rasgueos_eq_concat.mp hxs'.symm
    rw [List.append_assoc] at hxs
    intro hdue hnone
    rw [← rasgueos_concat]
    exact h xs'' w x hxs hdue ((hsample _ _).mp hnone)
  · intro h xs w x hpre hdue hnone
    have hsamples : rasgueos (xs ++ [w, x]) = rasgueos xs ++ [rasgueoSample xs w, rasgueoSample (xs ++ [w]) x] := by
      rw [List.append_cons, rasgueos_concat, rasgueos_concat, ← List.append_cons]
    have hturn := h _ _ _ (prefix_rasgueos.mpr ⟨_, hpre, hsamples⟩) hdue ((hsample _ _).mpr hnone)
    rwa [← rasgueos_concat] at hturn

/-- **The green LED is on for `LED_VERDE_TIEMPO` after each strum, no less and not past the first pass after that,
    exactly in the runs in which the counter does not go round between a pass that finds the LED on and the time at
    which it is to be switched off.** -/
theorem led_pulse_iff (run : List Iteration)
    (h : run.IsChain (fun x y => x.time ≤ y.time ∧ y.time - x.time < 2 ^ 31))
    (hled : ∀ x ∈ run, x.nowLed = tick x.time) : LedRight run ↔ LedInTurn run := by
  have hsampled : Sampled (rasgueos run) := by
    have htimes : (run.map Iteration.time).IsChain (fun s t => s ≤ t ∧ t - s < 2 ^ 31) := (List.isChain_map _).mpr h
    rw [← map_fst_rasgueos] at htimes
    exact (List.isChain_map _).mp htimes
  rw [ledRight_iff hled, ledInTurn_iff]
  exact on_iff_lit_run hsampled

/-- As long as the counter has not gone round for the first time the LED is right. -/
theorem ledInTurn_of_lt {run : List Iteration} (h : ∀ x ∈ run, x.time + ledVerdeTiempo.toNat < 2 ^ 32) :
    LedInTurn run := by
  intro xs w x hpre _ _ t ht
  have hx : x.time + ledVerdeTiempo.toNat < 2 ^ 32 :=
    h x (hpre.subset (List.mem_append_right xs (List.mem_cons_of_mem w List.mem_cons_self)))
  obtain ⟨y, hy, rfl⟩ := mem_strumTimes (List.mem_of_getLast? ht)
  have hy' : y.time + ledVerdeTiempo.toNat < 2 ^ 32 := by
    apply h y
    rw [List.append_cons] at hpre
    exact hpre.subset (List.mem_append_left [x] hy)
  omega

/-- A pass in which the LED, if it is switched on, is switched on at the time of the pass. -/
def passAt (time : Nat) (magnitud : ℚ) : Iteration := ⟨time, tick time, magnitud, true, .replicate 4 true⟩

/-- A strum at 1000 ms. -/
theorem led_pulse_one_strum : LedRight [passAt 1000 12, passAt 1099 9, passAt 1100 9] :=
  (led_pulse_iff _ (by decide) (by decide)).mpr (ledInTurn_of_lt (by decide))

/-- A strum 50 ms before the counter goes round, with the LED off 5 ms later; and one 150 ms before it does, with the
    LED still on 160 ms later. -/
theorem led_wrong_over_turn :
    let early := [passAt (2 ^ 32 - 50) 12, passAt (2 ^ 32 - 45) 9]
    let late := [passAt (2 ^ 32 - 150) 12, passAt (2 ^ 32 - 60) 9, passAt (2 ^ 32 + 10) 9]
    (∀ run ∈ [early, late], run.IsChain (fun x y => x.time ≤ y.time ∧ y.time - x.time < 2 ^ 31)
        ∧ ∀ x ∈ run, x.nowLed = tick x.time)
      ∧ ¬ LedRight early ∧ ¬ LedRight late := by
  intro early late
  refine ⟨by decide, ?_, ?_⟩
  · intro h
    have hdue : LedDue [passAt (2 ^ 32 - 50) 12] (passAt (2 ^ 32 - 45) 9) :=
      Or.inr ⟨2 ^ 32 - 50, by decide +kernel, by decide⟩
    have hon : ledVerde early = true := (h [passAt (2 ^ 32 - 50) 12] _ List.prefix_rfl).mpr hdue
    have hoff : ledVerde early = false := by decide +kernel
    exact Bool.false_ne_true (hoff.symm.trans hon)
  · intro h
    have hon : ledVerde late = true := by decide +kernel
    have hdue : LedDue [passAt (2 ^ 32 - 150) 12, passAt (2 ^ 32 - 60) 9] (passAt (2 ^ 32 + 10) 9) :=
      (h [passAt (2 ^ 32 - 150) 12, passAt (2 ^ 32 - 60) 9] _ List.prefix_rfl).mp hon
    rcases hdue with hstrum | ⟨t, ht, hlt⟩
    · exact absurd hstrum (by decide +kernel)
    · have hlast : (strumTimes [passAt (2 ^ 32 - 150) 12, passAt (2 ^ 32 - 60) 9]).getLast? = some (2 ^ 32 - 150) := by
        decide +kernel
      obtain rfl : 2 ^ 32 - 150 = t := Option.some.inj (hlast.symm.trans ht)
      exact absurd hlt (by decide)

end GuitarraMidi.Emisora
