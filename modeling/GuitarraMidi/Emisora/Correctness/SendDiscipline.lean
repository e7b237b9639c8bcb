import GuitarraMidi.Emisora.Correctness.StrumLevel

/-!
# `Emisora.Correctness.SendDiscipline` — when the emisora sends, and what

Two packets are more than `TIEMPO_ESPERA` apart in true time. The code does not compare with the last packet but with
the last strum it detected, which may have been sent or not; so between two packets the reference can only move on
(`ultimo_since`), and the clock never shows more time than has passed.

A packet is sent only for a strum strong enough, while STRUM and a chord button are pressed, and it says how strong
the strum was and which buttons are pressed (`send_discipline`).
-/

namespace GuitarraMidi.Emisora

open Clock Transducer

/-- The calls to `sendPacket` in the pass `x` after `xs`. -/
def sends (xs : List Iteration) (x : Iteration) : List (UInt8 × UInt8 × ChordMessage) :=
  (loop (after xs) x.reading).2.filterMap LoopOutput.send?

/-! ## What a packet says -/

/-- A single bit of the mask. -/
theorem testBit_maskBit (raw : Bool) {j : UInt8} (hj : ((1 : UInt8) <<< j).toNat = 2 ^ j.toNat) (i : Nat) :
    (maskBit raw j).toNat.testBit i = (isButtonPressed raw && decide (j.toNat = i)) := by
  unfold maskBit
  cases isButtonPressed raw with
  | false => exact Nat.zero_testBit i
  | true =>
      rw [if_pos rfl, hj, Nat.testBit_two_pow, Bool.true_and]

/-- **Bit `i` of the mask is set exactly when chord button `i` reads pressed.** -/
theorem testBit_buildChordMask (raw : Vector Bool 4) (i : Nat) :
    (buildChordMask raw).toNat.testBit i = true ↔ i < 4 ∧ isButtonPressed raw[i]! = true := by
  unfold buildChordMask
  simp only [UInt8.toNat_or, Nat.testBit_or, testBit_maskBit _ (j := 0) rfl, testBit_maskBit _ (j := 1) rfl,
    testBit_maskBit _ (j := 2) rfl, testBit_maskBit _ (j := 3) rfl, Bool.or_eq_true, Bool.and_eq_true,
    decide_eq_true_eq]
  constructor
  · rintro (((⟨hpressed, rfl⟩ | ⟨hpressed, rfl⟩) | ⟨hpressed, rfl⟩) | ⟨hpressed, rfl⟩) <;>
      exact ⟨by decide, hpressed⟩
  · rintro ⟨hi, hpressed⟩
    rcases (by omega : i = 0 ∨ i = 1 ∨ i = 2 ∨ i = 3) with rfl | rfl | rfl | rfl
    · exact Or.inl (Or.inl (Or.inl ⟨hpressed, rfl⟩))
    · exact Or.inl (Or.inl (Or.inr ⟨hpressed, rfl⟩))
    · exact Or.inl (Or.inr ⟨hpressed, rfl⟩)
    · exact Or.inr ⟨hpressed, rfl⟩

/-- A strum is detected from `UMBRAL_NORMAL` on, and is a strong one from `UMBRAL_FUERTE` on. -/
theorem velocityDe_eq_some_iff {magnitud : ℚ} {velocity : UInt8} :
    velocityDe magnitud = some velocity
      ↔ umbralNormal ≤ magnitud ∧ velocity = if umbralFuerte ≤ magnitud then velFuerte else velNormal := by
  have hle : umbralNormal ≤ umbralFuerte := by decide +kernel
  unfold velocityDe
  by_cases hfuerte : umbralFuerte ≤ magnitud
  · have hnormal : umbralNormal ≤ magnitud := Rat.le_trans hle hfuerte
    simp [hfuerte, hnormal, eq_comm]
  · by_cases hnormal : umbralNormal ≤ magnitud
    · simp [hfuerte, hnormal, eq_comm]
    · simp [hfuerte, hnormal]

theorem rasgueo_eq_some_iff {s : Loop} {x : Reading} {velocity : UInt8} :
    rasgueo s x = some velocity
      ↔ tiempoEspera < x.now - s.ultimoRasgueoMs ∧ velocityDe x.magnitud = some velocity := by
  unfold rasgueo
  split <;> simp_all

/-- The level by which a pass decides is the debounced one after it. -/
theorem lastStableStrum_after (xs : List Iteration) (x : Iteration) :
    (after (xs ++ [x])).lastStableStrum = (antesDeEnviar (after xs) x.reading).lastStableStrum := by
  obtain ⟨msg, hstate⟩ := (loop_cases (after xs) x.reading).1
  rw [after_concat, hstate]

/-- **A packet is sent when a strum is detected while STRUM and a chord button are pressed.** -/
theorem mem_sends_iff {xs : List Iteration} {x : Iteration} {mask velocity : UInt8} {packet : ChordMessage} :
    (mask, velocity, packet) ∈ sends xs x ↔ rasgueo (after xs) x.reading = some velocity
      ∧ isButtonPressed (after (xs ++ [x])).lastStableStrum = true ∧ buildChordMask x.raw ≠ 0
      ∧ mask = buildChordMask x.raw ∧ packet = sendPacket default mask velocity := by
  unfold sends
  rw [(loop_cases (after xs) x.reading).2, lastStableStrum_after]
  simp only [List.mem_map, Option.mem_toList, Option.filter_eq_some_iff, Bool.and_eq_true, bne_iff_ne,
    Prod.mk.injEq]
  constructor
  · rintro ⟨v, ⟨hrasgueo, hpressed, hchord⟩, rfl, rfl, rfl⟩
    exact ⟨hrasgueo, hpressed, hchord, rfl, rfl⟩
  · rintro ⟨hrasgueo, hpressed, hchord, rfl, rfl⟩
    exact ⟨velocity, ⟨hrasgueo, hpressed, hchord⟩, rfl, rfl, rfl⟩

/-! ## The last strum detected -/

/-- A pass that sends is the last one to have detected a strum. -/
theorem ultimo_of_sends {xs : List Iteration} {x : Iteration} (h : sends xs x ≠ []) :
    (after (xs ++ [x])).ultimoRasgueoMs = tick x.time ∧ tiempoEspera < tick x.time - (after xs).ultimoRasgueoMs := by
  obtain ⟨⟨mask, velocity, packet⟩, hcall⟩ := List.exists_mem_of_ne_nil _ h
  have hrasgueo := (mem_sends_iff.mp hcall).1
  refine ⟨?_, (rasgueo_eq_some_iff.mp hrasgueo).1⟩
  rw [after_concat, ultimoRasgueoMs_loop, hrasgueo]
  rfl

/-- After a packet the last strum detected is that of a pass since. -/
theorem ultimo_since {xs : List Iteration} {x : Iteration} (h : sends xs x ≠ []) (mid : List Iteration) :
    ∃ z ∈ x :: mid, (after (xs ++ x :: mid)).ultimoRasgueoMs = tick z.time := by
  induction mid using List.reverseRecOn with
  | nil => exact ⟨x, List.mem_cons_self, (ultimo_of_sends h).1⟩
  | append_singleton mid y ih =>
      obtain ⟨z, hz, hlast⟩ := ih
      have hsplit : xs ++ x :: (mid ++ [y]) = (xs ++ x :: mid) ++ [y] := by
        rw [List.append_assoc, List.cons_append]
      rw [hsplit, after_concat, ultimoRasgueoMs_loop]
      cases rasgueo (after (xs ++ x :: mid)) y.reading with
      | none => exact ⟨z, List.mem_append_left [y] hz, hlast⟩
      | some velocity => exact ⟨y, List.mem_append_right (x :: mid) List.mem_cons_self, rfl⟩

/-- **Two packets are more than 300 ms of true time apart.** -/
theorem sends_spaced {xs mid : List Iteration} {x y : Iteration}
    (h : (xs ++ x :: (mid ++ [y])).Pairwise (fun y z => y.time ≤ z.time)) (hx : sends xs x ≠ [])
    (hy : sends (xs ++ x :: mid) y ≠ []) : x.time + 300 < y.time := by
  obtain ⟨z, hz, hlast⟩ := ultimo_since hx mid
  have hcool := (ultimo_of_sends hy).2
  rw [hlast] at hcool
  have htail := (List.pairwise_append.mp h).2.1
  have hxz : x.time ≤ z.time := by
    rcases List.mem_cons.mp hz with rfl | hz
    · exact Nat.le_refl _
    · exact (List.pairwise_cons.mp htail).1 z (List.mem_append_left _ hz)
  have hzy : z.time ≤ y.time := by
    rw [← List.cons_append] at htail
    exact (List.pairwise_append.mp htail).2.2 z hz y List.mem_cons_self
  have hpassed : z.time + tiempoEspera.toNat < y.time := lt_elapsed hzy hcool
  have hespera : tiempoEspera.toNat = 300 := rfl
  omega

/-- **Two packets are more than 300 ms apart, and a packet is sent only for a strum from `UMBRAL_NORMAL` on, with the
    velocity of its strength and the mask of the chord buttons pressed, while STRUM and one of them are.** -/
theorem send_discipline (run : List Iteration) (h : run.IsChain (fun x y => x.time ≤ y.time)) :
    (∀ xs x mid y post, run = xs ++ x :: (mid ++ y :: post) → sends xs x ≠ [] → sends (xs ++ x :: mid) y ≠ [] →
        x.time + 300 < y.time)
      ∧ ∀ xs x post, run = xs ++ x :: post → ∀ mask velocity packet, (mask, velocity, packet) ∈ sends xs x →
        umbralNormal ≤ x.magnitud ∧ velocity = (if umbralFuerte ≤ x.magnitud then velFuerte else velNormal)
          ∧ mask ≠ 0 ∧ (∀ i, mask.toNat.testBit i = true ↔ i < 4 ∧ isButtonPressed x.raw[i]! = true)
          ∧ isButtonPressed (after (xs ++ [x])).lastStableStrum = true := by
  have htimes : run.Pairwise (fun x y => x.time ≤ y.time) := pairwise_le h (fun _ _ hxy => hxy)
  constructor
  · rintro xs x mid y post rfl hx hy
    refine sends_spaced (htimes.sublist ?_) hx hy
    have hsub : (mid ++ [y]).Sublist (mid ++ y :: post) :=
      (List.singleton_sublist.mpr List.mem_cons_self).append_left mid
    exact (hsub.cons_cons x).append_left xs
  · rintro xs x post - mask velocity packet hmem
    obtain ⟨hrasgueo, hpressed, hchord, rfl, -⟩ := mem_sends_iff.mp hmem
    obtain ⟨hnormal, hvelocity⟩ := velocityDe_eq_some_iff.mp (rasgueo_eq_some_iff.mp hrasgueo).2
    exact ⟨hnormal, hvelocity, hchord, testBit_buildChordMask x.raw, hpressed⟩

/-- A pass with STRUM held. -/
def strumming (time : Nat) (magnitud : ℚ) (raw : Vector Bool 4) : Iteration := ⟨time, 0, magnitud, false, raw⟩

/-- STRUM is held from 1000 ms on; a strum 40 ms later and a stronger one 301 ms after that are both sent. -/
theorem send_discipline_two_strums :
    let x := strumming 1000 9 #v[false, true, true, true]
    let y := strumming 1040 12 #v[false, true, true, true]
    let z := strumming 1341 (33 / 2) #v[false, true, false, true]
    (sends [x] y = [(1, velNormal, sendPacket default 1 velNormal)] ∧ umbralNormal ≤ y.magnitud)
      ∧ (sends [x, y] z = [(5, velFuerte, sendPacket default 5 velFuerte)] ∧ umbralNormal ≤ z.magnitud)
      ∧ y.time + 300 < z.time := by
  intro x y z
  have hy : sends [x] y = [(1, velNormal, sendPacket default 1 velNormal)] := by decide +kernel
  have hz : sends [x, y] z = [(5, velFuerte, sendPacket default 5 velFuerte)] := by decide +kernel
  obtain ⟨hspaced, hsent⟩ := send_discipline [x, y, z] (by simp [x, y, z, strumming])
  refine ⟨⟨hy, ?_⟩, ⟨hz, ?_⟩, hspaced [x] y [] z [] rfl (by simp [hy]) (by simp [hz])⟩
  · exact (hsent [x] y [z] rfl _ _ _ (hy ▸ List.mem_cons_self)).1
  · exact (hsent [x, y] z [] rfl _ _ _ (hz ▸ List.mem_cons_self)).1

end GuitarraMidi.Emisora
