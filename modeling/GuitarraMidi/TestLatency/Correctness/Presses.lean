import GuitarraMidi.Lib.Edges
import GuitarraMidi.TestLatency.EmisorLoop

/-!
# `TestLatency.Correctness.Presses` — when the emisor sends a strum

The emisor sends the two packets of a strum in the passes in which the debounced STRUM goes down (`presses`), with the
chord buttons as they are read there (`emit_loop`). In terms of the pin and of true time:

* over any history, STRUM has then been down for 30 ms, and two strums are at least 60 ms apart, for a release has to be
  held between them (`strums_sent`);
* no press is missed, where two passes are less than `2 ^ 32 - 30` ms apart: between a release held for 30 ms and a later
  press held for 30 ms a strum is sent (`press_sent`).
-/

namespace GuitarraMidi.TestLatency.Emisor

open Clock Debounce Transducer

/-- A pass of `loop()` at a true time. -/
structure Iteration where
  time : Nat
  raw : Vector Bool 3
  rawStrum : Bool
  rawNow : Vector Bool 3

/-- What the pass reads. -/
def Iteration.reading (x : Iteration) : Reading := ⟨tick x.time, x.raw, x.rawStrum, x.rawNow⟩

/-- The STRUM reading of a pass. -/
def Iteration.strumSample (x : Iteration) : Nat × Bool := (x.time, x.rawStrum)

/-- The STRUM readings of a history. -/
def strumSamples (xs : List Iteration) : Samples Bool := xs.map Iteration.strumSample

/-- The two packets of a strum. -/
def strumPackets (mask : UInt8) : List ImuMessage := [sendPacket default mask gzPico, sendPacket default mask cero]

theorem valid_strumPackets {mask : UInt8} {m : ImuMessage} (h : m ∈ strumPackets mask) : m.Valid := by
  rcases List.mem_cons.mp h with rfl | h
  · exact valid_sendPacket _ _ _
  · rw [List.mem_singleton.mp h]
    exact valid_sendPacket _ _ _

/-- The packets of a strum in the pass. -/
def Iteration.packets (x : Iteration) : List ImuMessage := strumPackets (maskNow x.rawNow)

/-- What is sent over a history. -/
def sent (s : Globals) (xs : List Iteration) : List ImuMessage := emit loop s (xs.map Iteration.reading)

/-- A pass as far as STRUM goes, which it may take down. -/
def pressStep (s : Debouncer Bool) (x : Iteration) : Debouncer Bool × List Iteration :=
  let s' := sample debounceMs s (tick x.time) x.rawStrum
  (s', if s.stable && !s'.stable then [x] else [])

/-- The passes in which the debounced STRUM goes down. -/
def presses (s : Debouncer Bool) (xs : List Iteration) : List Iteration := emit pressStep s xs

/-! ## The loop -/

theorem loop_reading (s : Globals) (x : Iteration) :
    (loop s x.reading).1.strum = (pressStep s.strum x).1
      ∧ (loop s x.reading).2 = (pressStep s.strum x).2.flatMap Iteration.packets := by
  have hstable : (sense s.strum (tick x.time) x.rawStrum).stable = s.strum.stable := stable_sense _ _ _
  have htest : ((sense s.strum (tick x.time) x.rawStrum).stable == true
      && (settle debounceMs (sense s.strum (tick x.time) x.rawStrum) (tick x.time)).stable == false)
      = (s.strum.stable && !(sample debounceMs s.strum (tick x.time) x.rawStrum).stable) := by
    rw [hstable, beq_true, beq_false]
    rfl
  unfold loop pressStep
  dsimp only [Iteration.reading]
  rw [htest]
  split
  · refine ⟨rfl, ?_⟩
    rw [sendPacket_eq _ _ _ default, sendPacket_eq s.msg _ _ default]
    rfl
  · exact ⟨rfl, rfl⟩

/-- **What is sent are the packets of the presses.** -/
theorem emit_loop (s : Globals) (xs : List Iteration) :
    sent s xs = (presses s.strum xs).flatMap Iteration.packets := by
  have hsim : ∀ (s : Globals) (d : Debouncer Bool) (x : Iteration), s.strum = d →
      (loop s x.reading).1.strum = (pressStep d (id x)).1
        ∧ (loop s x.reading).2 = (pressStep d (id x)).2.flatMap Iteration.packets := by
    rintro s _ x rfl
    exact loop_reading s x
  have hrun := (simulate_flatMap (fun (s : Globals) d => s.strum = d) id Iteration.packets hsim
    (rfl : s.strum = s.strum) xs).2
  rwa [List.map_id, emit_comp] at hrun

/-! ## The presses are the falling edges of STRUM -/

/-- A level that is taken up is the one read. -/
theorem stable_sample (s : Debouncer Bool) (now : UInt32) (level : Bool) :
    (sample debounceMs s now level).stable = level ∨ (sample debounceMs s now level).stable = s.stable := by
  unfold sample settle
  split
  · exact Or.inl (read_sense s now level)
  · exact Or.inr (stable_sense s now level)

theorem pressStep_edge (s : Debouncer Bool) (x : Iteration) :
    (pressStep s x).2.map Iteration.strumSample = (edgeStep debounceMs s x.strumSample).2.filter (fun e => !e.2) := by
  unfold pressStep edgeStep
  dsimp only [Iteration.strumSample]
  have hlevel := stable_sample s (tick x.time) x.rawStrum
  cases hnew : (sample debounceMs s (tick x.time) x.rawStrum).stable with
  | true => cases s.stable <;> rfl
  | false =>
      cases hold : s.stable with
      | false => rfl
      | true =>
          -- what has been taken up is what was read
          rw [hnew, hold] at hlevel
          rcases hlevel with hlevel | hlevel
          · show [(x.time, x.rawStrum)] = [(x.time, false)]
            rw [hlevel]
          · exact absurd hlevel Bool.false_ne_true

theorem presses_edges (s : Debouncer Bool) (xs : List Iteration) :
    (presses s xs).map Iteration.strumSample = (edges debounceMs s (strumSamples xs)).filter (fun e => !e.2) := by
  induction xs generalizing s with
  | nil => rfl
  | cons x xs ih =>
      have hedges : edges debounceMs s (strumSamples (x :: xs))
          = (edgeStep debounceMs s x.strumSample).2 ++ edges debounceMs (pressStep s x).1 (strumSamples xs) := rfl
      have hpresses : presses s (x :: xs) = (pressStep s x).2 ++ presses (pressStep s x).1 xs := rfl
      rw [hedges, hpresses, List.map_append, List.filter_append, ih, pressStep_edge]

theorem presses_sublist (s : Debouncer Bool) (xs : List Iteration) : (presses s xs).Sublist xs := by
  induction xs generalizing s with
  | nil => exact List.Sublist.refl []
  | cons x xs ih =>
      have hone : (pressStep s x).2.Sublist [x] := by
        unfold pressStep
        dsimp only
        split
        · exact List.Sublist.refl [x]
        · exact List.nil_sublist [x]
      exact hone.append (ih (pressStep s x).1)

theorem finish_pressStep (s : Debouncer Bool) (xs : List Iteration) :
    finish pressStep s xs = run debounceMs s (strumSamples xs) := by
  unfold finish run strumSamples
  rw [List.foldl_map]
  rfl

/-! ## Histories -/

/-- **The strums that are sent**: each in a pass before which STRUM has been down for 30 ms, with the chord buttons as
    that pass reads them, and at least 60 ms after the one before. -/
theorem strums_sent (strum : Bool × UInt32) (chord : Vector (Bool × UInt32) 3) (xs : List Iteration)
    (h : Ordered (strumSamples xs)) :
    ∃ ps : List Iteration, ps.Sublist xs
      ∧ sent (setup strum chord) xs = ps.flatMap (fun p => strumPackets (maskNow p.rawNow))
      ∧ (∀ p ∈ ps, p.rawStrum = false
          ∧ ∃ before after, strumSamples xs = before ++ p.strumSample :: after ∧ Held debounceMs before p.strumSample)
      ∧ ps.Pairwise (fun p q => p.time + 60 ≤ q.time) := by
  refine ⟨presses (.start strum.1 strum.2) xs, presses_sublist _ xs, emit_loop (setup strum chord) xs, ?_, ?_⟩
  · intro p hp
    have hmem := List.mem_map_of_mem (f := Iteration.strumSample) hp
    rw [presses_edges, List.mem_filter] at hmem
    exact ⟨(Bool.not_eq_true' _).mp hmem.2, held_of_edge _ _ h hmem.1⟩
  · have hfalling := falling_pairwise (d := debounceMs) strum.1 strum.2 false h
    have hfilter : (fun e : Nat × Bool => e.2 == false) = (fun e => !e.2) := by
      funext e
      exact beq_false e.2
    rw [hfilter, ← presses_edges, List.pairwise_map] at hfalling
    exact hfalling

/-- The levels of the chord buttons with B1 down. -/
def b1Down : Vector Bool 3 := #v[false, true, true]

/-- STRUM read at a true time, with B1 down. -/
def strumAt (time : Nat) (rawStrum : Bool) : Iteration := ⟨time, b1Down, rawStrum, b1Down⟩

/-- Two presses, each held for 30 ms, and the release between them. -/
def twoPresses : List Iteration :=
  [strumAt 1000 false, strumAt 1030 false, strumAt 1035 true, strumAt 1065 true, strumAt 1070 false, strumAt 1100 false]

theorem two_strums_sent : sent (setup (true, 0) (.replicate 3 (true, 0))) twoPresses = strumPackets 2 ++ strumPackets 2
    ∧ ∃ ps : List Iteration, ps.Sublist twoPresses
      ∧ sent (setup (true, 0) (.replicate 3 (true, 0))) twoPresses
          = ps.flatMap (fun p => strumPackets (maskNow p.rawNow))
      ∧ (∀ p ∈ ps, p.rawStrum = false ∧ ∃ before after,
          strumSamples twoPresses = before ++ p.strumSample :: after ∧ Held debounceMs before p.strumSample)
      ∧ ps.Pairwise (fun p q => p.time + 60 ≤ q.time) :=
  ⟨by decide +kernel, strums_sent _ _ twoPresses (by simp [Ordered, strumSamples, twoPresses, strumAt,
    Iteration.strumSample])⟩

/-- **No press is missed**, where two passes are less than `2 ^ 32 - 30` ms apart: after a pass in which a release has been
    held, and until a pass in which a press has been held, a strum is sent. -/
theorem press_sent (strum : Bool × UInt32) (chord : Vector (Bool × UInt32) 3) (xs zs : List Iteration)
    (y x : Iteration) (h : Sampled debounceMs (strumSamples (xs ++ [y] ++ zs ++ [x])))
    (hy : y.rawStrum = true ∧ Held debounceMs (strumSamples xs) y.strumSample)
    (hx : x.rawStrum = false ∧ Held debounceMs (strumSamples (xs ++ [y] ++ zs)) x.strumSample) :
    ∃ p ∈ zs ++ [x], ∃ before after, sent (setup strum chord) (xs ++ [y] ++ zs ++ [x])
      = sent (setup strum chord) (xs ++ [y]) ++ (before ++ strumPackets (maskNow p.rawNow) ++ after) := by
  have hsplit : strumSamples (xs ++ [y] ++ zs ++ [x])
      = strumSamples xs ++ [y.strumSample] ++ strumSamples zs ++ [x.strumSample] := by
    unfold strumSamples
    rw [List.map_append, List.map_append, List.map_append, List.map_singleton, List.map_singleton]
  have hmid : strumSamples (xs ++ [y] ++ zs) = strumSamples xs ++ [y.strumSample] ++ strumSamples zs := by
    unfold strumSamples
    rw [List.map_append, List.map_append, List.map_singleton]
  rw [hsplit] at h
  rw [hmid] at hx
  have hne : x.strumSample.2 ≠ y.strumSample.2 := by
    show x.rawStrum ≠ y.rawStrum
    rw [hx.1, hy.1]
    exact Bool.false_ne_true
  obtain ⟨e, he, hlevel⟩ := edge_between strum.1 strum.2 h hy.2 hx.2 hne
  -- the edge is a press in one of the later passes
  have hpress : e ∈ (presses (run debounceMs (.start strum.1 strum.2) (strumSamples (xs ++ [y]))) (zs ++ [x])).map
      Iteration.strumSample := by
    rw [presses_edges, List.mem_filter]
    constructor
    · unfold strumSamples
      rw [List.map_append, List.map_append, List.map_singleton, List.map_singleton]
      exact he
    · rw [hlevel]
      exact (Bool.not_eq_true' _).mpr hx.1
  obtain ⟨p, hp, -⟩ := List.mem_map.mp hpress
  obtain ⟨front, back, hpresses⟩ := List.append_of_mem hp
  refine ⟨p, (presses_sublist _ _).subset hp, front.flatMap Iteration.packets, back.flatMap Iteration.packets, ?_⟩
  have hrun : presses (.start strum.1 strum.2) (xs ++ [y] ++ zs ++ [x])
      = presses (.start strum.1 strum.2) (xs ++ [y]) ++ (front ++ p :: back) := by
    rw [← hpresses, ← finish_pressStep, List.append_assoc (xs ++ [y])]
    exact emit_append _ _ _
  have hstart : (setup strum chord).strum = .start strum.1 strum.2 := rfl
  rw [emit_loop, emit_loop, hstart, hrun, List.flatMap_append, List.flatMap_append, List.flatMap_cons,
    List.append_assoc (front.flatMap _)]
  rfl

/-- The second of the two presses is not missed. -/
theorem second_press_sent : ∃ p ∈ [strumAt 1070 false] ++ [strumAt 1100 false], ∃ before after,
    sent (setup (true, 0) (.replicate 3 (true, 0))) twoPresses
      = sent (setup (true, 0) (.replicate 3 (true, 0)))
          ([strumAt 1000 false, strumAt 1030 false, strumAt 1035 true] ++ [strumAt 1065 true])
        ++ (before ++ strumPackets (maskNow p.rawNow) ++ after) :=
  press_sent _ _ [strumAt 1000 false, strumAt 1030 false, strumAt 1035 true] [strumAt 1070 false] (strumAt 1065 true)
    (strumAt 1100 false)
    (by simp [Sampled, strumSamples, strumAt, Iteration.strumSample, debounceMs])
    ⟨rfl, [(1000, false), (1030, false)], (1035, true), [(1065, true)], rfl, by decide, by decide⟩
    ⟨rfl, [(1000, false), (1030, false), (1035, true), (1065, true)], (1070, false), [(1100, false)], rfl,
      by decide, by decide⟩

end GuitarraMidi.TestLatency.Emisor
