import Mathlib

/-!
# `Lib.Binary32` — the arithmetic of `float` as arithmetic of numbers

`Float32.Model` computes on bit patterns: every operation unpacks its arguments, computes, rounds and packs the result.
What a client needs to know about such a computation is said here in terms of numbers:

* a comparison with a positive number is the comparison of the values (`lt_iff`);
* a number packed and unpacked is itself (`unpack_pack`);
* rounding never falls below the number cut off after 24 bits, nor above the number by more than half a unit
  (`round_spec`), and changes nothing where no more than 24 bits are needed (`round_exact`);
* so much for a product by a power of two (`mul_power`) and for a sum of positive numbers (`add_positive`);
* the conversion to an integer cuts off the fraction (`roundToInt_eq`), and so does what C asks for (`Truncates`).
-/

namespace Binary32

open Float.Model (Format UnpackedFloat)
open Float.Model.UnpackedFloat

/-! ## Numbers -/

/-- A magnitude `m * 2 ^ e` as `unpack` gives it: of 24 bits, or of fewer at the least exponent there is. -/
structure Canonical (m : Nat) (e : Int) : Prop where
  high : m < 2 ^ 24
  least : -149 ≤ e
  most : e ≤ 104
  low : 2 ^ 23 ≤ m ∨ e = -149

/-- A magnitude of exactly 24 bits. -/
structure Normal (m : Nat) (e : Int) : Prop where
  low : 2 ^ 23 ≤ m
  high : m < 2 ^ 24
  least : -149 ≤ e
  most : e ≤ 104

/-- What `unpack` can give. -/
def Valid : UnpackedFloat → Prop
  | .finite _ m e _ => Canonical m e
  | _ => True

/-- The number a `float` stands for. Infinity counts as the number after the greatest, and what is no number as 0. -/
def value : UnpackedFloat → ℚ
  | .notANumber => 0
  | .infinity s => s.apply 1 * 2 ^ 128
  | .zero _ => 0
  | .finite s m e _ => s.apply m * 2 ^ e

theorem toNat_implicit (m : BitVec 23) : (1#1 ++ m).toNat = 2 ^ 23 + m.toNat := by
  rw [BitVec.toNat_append, ← Nat.shiftLeft_add_eq_or_of_lt m.isLt]
  rfl

theorem unpack_valid (b : BitVec 32) : Valid (UnpackedFloat.unpack Format.binary32 b) := by
  have hbias : ((Format.binary32.exponentBias : Nat) : Int) = 127 := rfl
  have hm : (@unpackMantissa Format.binary32 b).toNat < 2 ^ 23 :=
    (@unpackMantissa Format.binary32 b).isLt
  have he : (@unpackExponent Format.binary32 b).toNat < 2 ^ 8 :=
    (@unpackExponent Format.binary32 b).isLt
  generalize hmant : @unpackMantissa Format.binary32 b = mant at hm
  generalize hexp : @unpackExponent Format.binary32 b = exp at he
  unfold UnpackedFloat.unpack
  simp only [hmant, hexp]
  by_cases hones : exp = -1#_
  · rw [if_pos hones]
    split <;> trivial
  · rw [if_neg hones]
    by_cases hzero : exp = 0#_
    · rw [if_pos hzero]
      split
      · trivial
      · have hexp_zero : exp.toNat = 0 := by
          rw [hzero]
          rfl
        refine ⟨?_, ?_, ?_, Or.inr ?_⟩ <;> omega
    · rw [if_neg hzero]
      have hne_ones : exp.toNat ≠ 255 := by
        intro h
        exact hones (BitVec.eq_of_toNat_eq (h.trans rfl))
      have hne_zero : exp.toNat ≠ 0 := by
        intro h
        exact hzero (BitVec.eq_of_toNat_eq (h.trans rfl))
      have himplicit := toNat_implicit mant
      refine ⟨?_, ?_, ?_, Or.inl ?_⟩ <;> omega

/-! ## Comparison -/

theorem magnitude_pos {m : Nat} {e : Int} (hm : 0 < m) : (0 : ℚ) < m * 2 ^ e := by
  have hm : (0 : ℚ) < m := by exact_mod_cast hm
  positivity

theorem magnitude_lt {m : Nat} {e : Int} (h : Canonical m e) : (m : ℚ) * 2 ^ e < 2 ^ 128 := by
  have hm : (m : ℚ) < 2 ^ 24 := by exact_mod_cast h.high
  have hpos : (0 : ℚ) < 2 ^ e := by positivity
  calc (m : ℚ) * 2 ^ e < 2 ^ 24 * 2 ^ e := mul_lt_mul_of_pos_right hm hpos
    _ ≤ 2 ^ 24 * 2 ^ (104 : Int) := by
        apply mul_le_mul_of_nonneg_left _ (by norm_num)
        exact zpow_le_zpow_right₀ (by norm_num) h.most
    _ = 2 ^ 128 := by norm_num

/-- The exponent decides, the mantissa of the greater one having all its bits. -/
theorem magnitude_lt_of_exponent_lt {m m' : Nat} {e e' : Int} (h : Canonical m e) (h' : Canonical m' e')
    (hlt : e < e') : (m : ℚ) * 2 ^ e < m' * 2 ^ e' := by
  have hleast := h.least
  have hm' : (2 : ℚ) ^ 23 ≤ m' := by
    have hlow : 2 ^ 23 ≤ m' := h'.low.resolve_right (by omega)
    exact_mod_cast hlow
  have hm : (m : ℚ) < 2 ^ 24 := by exact_mod_cast h.high
  have hpos : (0 : ℚ) < 2 ^ e := by positivity
  calc (m : ℚ) * 2 ^ e < 2 ^ 24 * 2 ^ e := mul_lt_mul_of_pos_right hm hpos
    _ = 2 ^ 23 * 2 ^ (e + 1) := by rw [zpow_add₀ (by norm_num)]; ring
    _ ≤ 2 ^ 23 * 2 ^ e' := by
        apply mul_le_mul_of_nonneg_left _ (by norm_num)
        exact zpow_le_zpow_right₀ (by norm_num) (by omega)
    _ ≤ m' * 2 ^ e' := mul_le_mul_of_nonneg_right hm' (by positivity)

theorem compare_iff {m m' : Nat} {e e' : Int} (h : Canonical m e) (h' : Canonical m' e') :
    (compare e e').then (compare m m') = .lt ↔ (m : ℚ) * 2 ^ e < m' * 2 ^ e' := by
  rcases lt_trichotomy e e' with hlt | rfl | hgt
  · have hval := magnitude_lt_of_exponent_lt h h' hlt
    rw [compare_lt_iff_lt.mpr hlt]
    exact ⟨fun _ => hval, fun _ => rfl⟩
  · have hpos : (0 : ℚ) < 2 ^ e := by positivity
    rw [compare_eq_iff_eq.mpr rfl, mul_lt_mul_iff_of_pos_right hpos, Nat.cast_lt]
    exact compare_lt_iff_lt
  · have hval := magnitude_lt_of_exponent_lt h' h hgt
    rw [compare_gt_iff_gt.mpr hgt]
    constructor
    · intro hcmp
      exact absurd (show Ordering.gt = .lt from hcmp) (by decide)
    · intro hcmp
      exact absurd hcmp (not_lt_of_gt hval)

/-- **A positive number is less than a `float` exactly when it is less than its value.** -/
theorem lt_iff {m : Nat} {e : Int} {hm : 0 < m} (h : Canonical m e) {x : UnpackedFloat} (hx : Valid x) :
    (UnpackedFloat.finite .positive m e hm).lt x = true ↔ (m : ℚ) * 2 ^ e < value x := by
  have hpos := magnitude_pos (e := e) hm
  -- where the comparison says no, the value is not positive
  have hnot : ∀ (o : Option Ordering) (v : ℚ), o ≠ some .lt → v ≤ 0 → (o = some .lt ↔ (m : ℚ) * 2 ^ e < v) := by
    intro o v ho hv
    exact ⟨fun h => absurd h ho, fun h => absurd (h.trans_le hv) (not_lt_of_gt hpos)⟩
  unfold UnpackedFloat.lt
  rw [beq_iff_eq]
  match x, hx with
  | .notANumber, _ => exact hnot none 0 (by decide) le_rfl
  | .zero s, _ => exact hnot (some .gt) 0 (by decide) le_rfl
  | .infinity .positive, _ =>
      show some Ordering.lt = some .lt ↔ _ < ((1 : Int) : ℚ) * 2 ^ 128
      rw [Int.cast_one, one_mul]
      exact ⟨fun _ => magnitude_lt h, fun _ => rfl⟩
  | .infinity .negative, _ => exact hnot (some .gt) (((-1 : Int) : ℚ) * 2 ^ 128) (by decide) (by norm_num)
  | .finite .positive m' e' _, hx =>
      show some ((compare e e').then (compare m m')) = some .lt ↔ _ < (((m' : Nat) : Int) : ℚ) * 2 ^ e'
      rw [Option.some_inj, Int.cast_natCast]
      exact compare_iff h hx
  | .finite .negative m' e' hm', _ =>
      have hneg : ((-(m' : Nat) : Int) : ℚ) * 2 ^ e' ≤ 0 := by
        rw [Int.cast_neg, Int.cast_natCast, neg_mul, neg_nonpos]
        exact (magnitude_pos hm').le
      exact hnot (some .gt) _ (by decide) hneg

/-! ## Rounding -/

theorem log2_eq {m k : Nat} (hlow : 2 ^ k ≤ m) (hhigh : m < 2 ^ (k + 1)) : m.log2 = k := by
  have hne : m ≠ 0 := Nat.ne_of_gt (Nat.lt_of_lt_of_le (Nat.two_pow_pos k) hlow)
  exact (Nat.log2_eq_iff hne).mpr ⟨hlow, hhigh⟩

theorem minExponent_eq : Format.binary32.minExponent = -149 := by decide

theorem mantissa_shiftRight (em : ExtendedMantissa) (k : Nat) : (em >>> k).mantissa = em.mantissa / 2 ^ k := by
  induction k with
  | zero => exact (Nat.div_one _).symm
  | succ k ih =>
      have hstep : (em >>> (k + 1)).mantissa = (em >>> k).mantissa / 2 := rfl
      rw [hstep, ih, Nat.div_div_eq_div_mul, pow_succ]

/-- No bit is lost where the last bits are zeros. -/
theorem shiftRight_exact {m k : Nat} :
    ExtendedMantissa.mk (m * 2 ^ k) false false >>> k = ⟨m, false, false⟩ := by
  induction k generalizing m with
  | zero =>
      show ExtendedMantissa.mk (m * 2 ^ 0) false false = _
      rw [pow_zero, Nat.mul_one]
  | succ k ih =>
      have hstep : ExtendedMantissa.mk (m * 2 ^ (k + 1)) false false >>> (k + 1)
          = (ExtendedMantissa.mk (m * 2 * 2 ^ k) false false >>> k).shiftRightOne := by
        rw [pow_succ', ← Nat.mul_assoc]
        rfl
      rw [hstep, ih, ExtendedMantissa.shiftRightOne]
      simp

/-- A mantissa is rounded up only where its first bit cut off is 1. -/
theorem roundedMantissa_bounds (em : ExtendedMantissa) :
    em.mantissa ≤ em.roundedMantissa ∧ em.roundedMantissa ≤ em.mantissa + em.roundBit.toNat := by
  obtain ⟨m, round, sticky⟩ := em
  unfold ExtendedMantissa.roundedMantissa ExtendedMantissa.accuracy
  cases round <;> cases sticky <;> simp only [Accuracy.roundToNearestEven, Bool.toNat_false, Bool.toNat_true] <;> omega

/-- And then what is cut off is half a unit or more. -/
theorem roundBit_half (m k : Nat) :
    (m / 2 ^ k + (ExtendedMantissa.mk m false false >>> k).roundBit.toNat) * 2 ^ k ≤ m + 2 ^ k / 2 := by
  cases k with
  | zero =>
      show (m / 2 ^ 0 + 0) * 2 ^ 0 ≤ _
      rw [pow_zero, Nat.div_one]
      omega
  | succ k =>
      have hbit : (ExtendedMantissa.mk m false false >>> (k + 1)).roundBit.toNat = m / 2 ^ k % 2 := by
        have hstep : (ExtendedMantissa.mk m false false >>> (k + 1)).roundBit
            = ((ExtendedMantissa.mk m false false >>> k).mantissa % 2 != 0) := rfl
        rw [hstep, mantissa_shiftRight]
        show (m / 2 ^ k % 2 != 0).toNat = _
        rcases Nat.mod_two_eq_zero_or_one (m / 2 ^ k) with h | h <;> rw [h] <;> rfl
      have hcut : m / 2 ^ k * 2 ^ k ≤ m := Nat.div_mul_le_self m (2 ^ k)
      have hodd : m / 2 ^ k % 2 * 2 ^ k ≤ 1 * 2 ^ k := Nat.mul_le_mul_right _ (by omega)
      have hhalf : 2 ^ (k + 1) / 2 = 2 ^ k := by rw [pow_succ, Nat.mul_div_cancel _ Nat.two_pos]
      rw [hbit, hhalf, pow_succ, ← Nat.div_div_eq_div_mul]
      calc (m / 2 ^ k / 2 + m / 2 ^ k % 2) * (2 ^ k * 2)
          = (2 * (m / 2 ^ k / 2) + m / 2 ^ k % 2 + m / 2 ^ k % 2) * 2 ^ k := by ring
        _ = m / 2 ^ k * 2 ^ k + m / 2 ^ k % 2 * 2 ^ k := by rw [Nat.div_add_mod, Nat.add_mul]
        _ ≤ m + 2 ^ k := by omega

/-- A number of `24 + k` bits is shifted by `k`. -/
theorem shiftToTarget {m k : Nat} {e : Int} (hlow : 2 ^ (23 + k) ≤ m) (hhigh : m < 2 ^ (23 + k + 1))
    (hleast : -149 ≤ e + k) :
    shiftToTargetExponent Format.binary32 m e .exact = (ExtendedMantissa.mk m false false >>> k, e + k) := by
  have htarget : Format.binary32.targetExponent (Float.Model.totalExponent m e) = e + k := by
    unfold Format.targetExponent Float.Model.totalExponent
    rw [log2_eq hlow hhigh, minExponent_eq]
    show max (((23 + k : Nat) : Int) + 1 + e - ((1 + 23 : Nat) : Int)) (-149) = e + k
    omega
  have hshift : (e + (k : Int) - e).toNat = k := by omega
  unfold shiftToTargetExponent shiftToExponent
  simp only [htarget, hshift]
  rfl

/-- **Rounding.** A number of `24 + k` bits is rounded to one of 24 bits that is not below the first 24 bits of it, and
    not above it by more than half a unit of the last of these. -/
theorem round_spec {s : Sign} {m k : Nat} {e : Int} (hlow : 2 ^ (23 + k) ≤ m) (hhigh : m < 2 ^ (23 + k + 1))
    (hleast : -149 ≤ e + k) (hmost : e + k ≤ 103) :
    ∃ m' j : Nat, ∃ hm : 0 < m', roundWithAccuracy Format.binary32 s m e .exact = .finite s m' (e + k + j) hm
      ∧ Normal m' (e + k + j) ∧ m / 2 ^ k ≤ m' * 2 ^ j ∧ m' * 2 ^ j * 2 ^ k ≤ m + 2 ^ k / 2 := by
  have hcut := mantissa_shiftRight ⟨m, false, false⟩ k
  have hhalf := roundBit_half m k
  have hbit := Bool.toNat_le (ExtendedMantissa.mk m false false >>> k).roundBit
  obtain ⟨hdown, hup⟩ := roundedMantissa_bounds (ExtendedMantissa.mk m false false >>> k)
  generalize hr : (ExtendedMantissa.mk m false false >>> k).roundedMantissa = r at hdown hup
  rw [hcut] at hdown hup
  have hnear : r * 2 ^ k ≤ m + 2 ^ k / 2 := (Nat.mul_le_mul_right _ hup).trans hhalf
  have hcut_low : 2 ^ 23 ≤ m / 2 ^ k := by
    rw [Nat.le_div_iff_mul_le (Nat.two_pow_pos k), ← pow_add]
    exact hlow
  have hcut_high : m / 2 ^ k < 2 ^ 24 := by
    rw [Nat.div_lt_iff_lt_mul (Nat.two_pow_pos k), ← pow_add]
    calc m < 2 ^ (23 + k + 1) := hhigh
      _ = 2 ^ (24 + k) := by congr 1; omega
  simp only at hcut_low hcut_high hdown hup
  unfold roundWithAccuracy
  simp only [shiftToTarget hlow hhigh hleast, hr]
  rcases Nat.lt_or_ge r (2 ^ 24) with hlt | hge
  · have hsecond := shiftToTarget (m := r) (k := 0) (e := e + k) (by omega) hlt (by omega)
    have hne : r ≠ 0 := by omega
    simp only [hsecond]
    refine ⟨r, 0, Nat.pos_of_ne_zero hne, dif_neg hne, ⟨by omega, hlt, by omega, by omega⟩, ?_, ?_⟩
    · rw [pow_zero, Nat.mul_one]
      exact hdown
    · rw [pow_zero, Nat.mul_one]
      exact hnear
  · -- rounded up to one bit more: shifted once again
    obtain rfl : r = 2 ^ 24 := by omega
    have hsecond := shiftToTarget (m := 2 ^ 24) (k := 1) (e := e + k) (by decide) (by decide) (by omega)
    simp only [hsecond]
    exact ⟨2 ^ 23, 1, by decide, rfl, ⟨by decide, by decide, by omega, by omega⟩, by omega, hnear⟩

/-- **Rounding changes nothing where 24 bits are enough.** -/
theorem round_exact {s : Sign} {m k : Nat} {e : Int} (hlow : 2 ^ 23 ≤ m) (hhigh : m < 2 ^ 24)
    (hleast : -149 ≤ e + k) (hm : 0 < m) :
    roundWithAccuracy Format.binary32 s (m * 2 ^ k) e .exact = .finite s m (e + k) hm := by
  have hlow' : 2 ^ (23 + k) ≤ m * 2 ^ k := by
    rw [pow_add]
    exact Nat.mul_le_mul_right _ hlow
  have hhigh' : m * 2 ^ k < 2 ^ (23 + k + 1) := by
    rw [Nat.add_right_comm, pow_add _ (23 + 1)]
    exact Nat.mul_lt_mul_of_pos_right hhigh (Nat.two_pow_pos k)
  have hsecond := shiftToTarget (m := m) (k := 0) (e := e + k) hlow hhigh (by omega)
  rw [Nat.cast_zero, add_zero] at hsecond
  have hrounded : (ExtendedMantissa.mk m false false).roundedMantissa = m := rfl
  unfold roundWithAccuracy
  simp only [shiftToTarget hlow' hhigh' hleast, shiftRight_exact, hrounded, hsecond]
  exact dif_neg (Nat.ne_of_gt hm)

/-! ## Packing -/

theorem unpackSign_packComponents (s : Sign) (e : BitVec 8) (m : BitVec 23) :
    @unpackSign Format.binary32 (packComponents Format.binary32 s e m) = s.toBitVec := by
  apply BitVec.eq_of_toNat_eq
  have hm := m.isLt
  have he := e.isLt
  have hs := s.toBitVec.isLt
  have hpack : (packComponents Format.binary32 s e m).toNat
      = s.toBitVec.toNat * 2 ^ 31 + e.toNat * 2 ^ 23 + m.toNat := by
    show (s.toBitVec ++ e ++ m).toNat = _
    rw [BitVec.toNat_append, BitVec.toNat_append, ← Nat.shiftLeft_add_eq_or_of_lt he,
      ← Nat.shiftLeft_add_eq_or_of_lt hm]
    simp only [Nat.shiftLeft_eq]
    omega
  show ((packComponents Format.binary32 s e m).extractLsb 31 31).toNat = _
  rw [BitVec.extractLsb_toNat, hpack, Nat.shiftRight_eq_div_pow]
  omega

theorem ofBitVec_toBitVec (s : Sign) : Sign.ofBitVec s.toBitVec = s := by
  cases s <;> rfl

/-- **A number of 24 bits packed and unpacked is itself.** -/
theorem unpack_pack {s : Sign} {m : Nat} {e : Int} {hm : 0 < m} (h : Normal m e) :
    UnpackedFloat.unpack Format.binary32 (UnpackedFloat.pack Format.binary32 (.finite s m e hm))
      = .finite s m e hm := by
  obtain ⟨hlow, hhigh, hleast, hmost⟩ := h
  obtain ⟨b, hb⟩ : ∃ b : Nat, (e + 150).toNat = b := ⟨_, rfl⟩
  have hbe : (b : Int) = e + 150 := by omega
  have hpack : UnpackedFloat.pack Format.binary32 (.finite s m e hm)
      = packComponents Format.binary32 s (BitVec.ofNat 8 b) (BitVec.ofNat 23 m) := by
    have hbiased : (e + (Format.binary32.exponentBias : Nat) + (23 : Nat)).toNat = b := by
      rw [← hb]
      show (e + (127 : Nat) + (23 : Nat)).toNat = _
      omega
    have hsmall : ¬ 2 ^ 8 ≤ b + 1 := by omega
    unfold UnpackedFloat.pack
    simp only [log2_eq hlow hhigh, hbiased]
    exact if_neg hsmall
  have hexp : (BitVec.ofNat 8 b).toNat = b := by
    rw [BitVec.toNat_ofNat]
    omega
  have hmant : (1#1 ++ BitVec.ofNat 23 m).toNat = m := by
    rw [toNat_implicit, BitVec.toNat_ofNat]
    omega
  have hne_ones : BitVec.ofNat 8 b ≠ -1#8 := by
    intro h
    have hnat : b = 255 := hexp.symm.trans (congrArg BitVec.toNat h)
    omega
  have hne_zero : BitVec.ofNat 8 b ≠ 0#8 := by
    intro h
    have hnat : b = 0 := hexp.symm.trans (congrArg BitVec.toNat h)
    omega
  have hbias : ((BitVec.ofNat 8 b).toNat : Int) - ((Format.binary32.exponentBias : Nat) + (23 : Nat)) = e := by
    rw [hexp]
    show (b : Int) - ((127 : Nat) + (23 : Nat)) = e
    omega
  rw [hpack]
  unfold UnpackedFloat.unpack
  simp only [unpackMantissa_packComponents, unpackExponent_packComponents, unpackSign_packComponents,
    ofBitVec_toBitVec]
  rw [if_neg hne_ones, if_neg hne_zero]
  simp only [hmant, hbias]

/-! ## Operations -/

section Model

variable (a b : Float32.Model)

theorem unpack_add : (a + b).unpack = UnpackedFloat.unpack Format.binary32
    (UnpackedFloat.pack Format.binary32 (UnpackedFloat.add Format.binary32 a.unpack b.unpack)) := rfl

theorem unpack_mul : (a * b).unpack = UnpackedFloat.unpack Format.binary32
    (UnpackedFloat.pack Format.binary32 (UnpackedFloat.mul Format.binary32 a.unpack b.unpack)) := rfl

theorem unpack_abs : a.abs.unpack = UnpackedFloat.unpack Format.binary32
    (UnpackedFloat.pack Format.binary32 a.unpack.abs) := rfl

end Model

/-- **A product by a power of two is exact**, unless it is too small. -/
theorem mul_power {s s' : Sign} {m : Nat} {e e' : Int} {hm : 0 < m} {hm' : 0 < 2 ^ 23} (hlow : 2 ^ 23 ≤ m)
    (hhigh : m < 2 ^ 24) (hleast : -149 ≤ e + e' + 23) :
    UnpackedFloat.mul Format.binary32 (.finite s m e hm) (.finite s' (2 ^ 23) e' hm')
      = .finite (s * s') m (e + e' + 23) hm :=
  round_exact (k := 23) hlow hhigh hleast hm

/-- **A sum of positive numbers** is the rounded sum. -/
theorem add_positive {m m' : Nat} {e e' : Int} {hm : 0 < m} {hm' : 0 < m'} (hle : e ≤ e')
    (hlow : 2 ^ 23 ≤ m) :
    UnpackedFloat.add Format.binary32 (.finite .positive m e hm) (.finite .positive m' e' hm')
      = roundWithAccuracy Format.binary32 .positive (m + m' * 2 ^ (e' - e).toNat) e .exact := by
  have hmin : min e e' = e := min_eq_left hle
  have hzero : (e - e).toNat = 0 := by omega
  unfold UnpackedFloat.add
  simp only [hmin, decreaseExponent, hzero, Nat.shiftLeft_eq, pow_zero, Nat.mul_one]
  generalize hS : m + m' * 2 ^ (e' - e).toNat = S
  have hsum : Sign.positive.apply (m : Int) + Sign.positive.apply ((m' * 2 ^ (e' - e).toNat : Nat) : Int)
      = (S : Int) := by
    rw [← hS, Nat.cast_add]
    rfl
  have hpos : 0 < S := by omega
  have hcompare : compare (S : Int) 0 = .gt := compare_gt_iff_gt.mpr (by exact_mod_cast hpos)
  -- the sum has 24 bits or more, so its exponent is not decreased
  have htarget : (e - Format.binary32.targetExponent (Float.Model.totalExponent S e)).toNat = 0 := by
    have hlog : 23 ≤ S.log2 := (Nat.le_log2 (Nat.ne_of_gt hpos)).mpr (by omega)
    unfold Format.targetExponent Float.Model.totalExponent
    rw [minExponent_eq]
    show (e - max ((S.log2 : Int) + 1 + e - ((1 + 23 : Nat) : Int)) (-149)).toNat = 0
    omega
  rw [hsum]
  unfold UnpackedFloat.normalize
  rw [hcompare]
  unfold UnpackedFloat.round decreaseExponent
  simp only [Int.toNat_natCast, htarget, Nat.shiftLeft_zero, Nat.cast_zero, sub_zero]

/-! ## Conversion to an integer -/

theorem roundToInt_neg (s : Sign) (m n : Nat) : roundToInt s m (-(n : Int)) = s.apply (m / 2 ^ n : Nat) := by
  have hzero : (-(n : Int)).toNat = 0 := by omega
  have hshift : (0 - -(n : Int)).toNat = n := by omega
  unfold roundToInt decreaseExponent shiftToExponent
  simp only [sub_zero, hzero, Nat.shiftLeft_zero, Nat.cast_zero, hshift]
  show s.apply ((ExtendedMantissa.mk m false false >>> n).mantissa : Int) = _
  rw [mantissa_shiftRight]

theorem roundToInt_nonneg (s : Sign) (m n : Nat) : roundToInt s m n = s.apply (m * 2 ^ n : Nat) := by
  have hshift : ((n : Int) - 0).toNat = n := by omega
  unfold roundToInt decreaseExponent shiftToExponent
  simp only [hshift, sub_self, Int.toNat_zero, Nat.shiftLeft_eq]
  rfl

/-- With an exponent given as a difference. -/
theorem roundToInt_sub (s : Sign) (m a b : Nat) :
    roundToInt s m ((a : Int) - b) = s.apply (m * 2 ^ a / 2 ^ b : Nat) := by
  rcases Nat.le_total b a with hle | hle
  · obtain ⟨n, rfl⟩ := Nat.exists_eq_add_of_le hle
    have he : ((b + n : Nat) : Int) - b = n := by omega
    have hpart : m * 2 ^ (b + n) / 2 ^ b = m * 2 ^ n := by
      rw [Nat.add_comm, pow_add, ← Nat.mul_assoc]
      exact Nat.mul_div_cancel _ (Nat.two_pow_pos b)
    rw [he, roundToInt_nonneg, hpart]
  · obtain ⟨n, rfl⟩ := Nat.exists_eq_add_of_le hle
    have he : (a : Int) - (a + n : Nat) = -(n : Int) := by omega
    have hpart : m * 2 ^ a / 2 ^ (a + n) = m / 2 ^ n := by
      rw [Nat.add_comm, pow_add]
      exact Nat.mul_div_mul_right _ _ (Nat.two_pow_pos a)
    rw [he, roundToInt_neg, hpart]

/-- A number with its fraction cut off. -/
def integralPart (q : ℚ) : Int := if 0 ≤ q then ⌊q⌋ else ⌈q⌉

/-- **The conversion to an integer** cuts off the fraction. -/
theorem roundToInt_eq {s : Sign} {m : Nat} {e : Int} (hm : 0 < m) :
    roundToInt s m e = integralPart (s.apply m * 2 ^ e) := by
  have hpos := magnitude_pos (e := e) hm
  have hfloor : ∀ s : Sign, roundToInt s m e = s.apply ⌊(m : ℚ) * 2 ^ e⌋ := by
    intro s
    rcases Int.le_total 0 e with he | he
    · obtain ⟨n, rfl⟩ := Int.eq_ofNat_of_zero_le he
      have hnat : (m : ℚ) * 2 ^ (n : Int) = ((m * 2 ^ n : Nat) : ℚ) := by
        rw [zpow_natCast]
        push_cast
        rfl
      rw [roundToInt_nonneg, hnat, Int.floor_natCast]
    · obtain ⟨n, rfl⟩ : ∃ n : Nat, e = -(n : Int) := ⟨e.natAbs, by omega⟩
      have hdiv : (m : ℚ) * 2 ^ (-(n : Int)) = (m : ℚ) / ((2 ^ n : Nat) : ℚ) := by
        rw [zpow_neg, zpow_natCast, ← div_eq_mul_inv]
        push_cast
        rfl
      rw [roundToInt_neg, hdiv, Rat.floor_natCast_div_natCast, Int.natCast_div]
  rw [hfloor]
  unfold integralPart
  cases s with
  | positive =>
      have hvalue : ((Sign.positive.apply m : Int) : ℚ) * 2 ^ e = m * 2 ^ e := by
        rw [show Sign.positive.apply (m : Int) = m from rfl, Int.cast_natCast]
      rw [hvalue, if_pos hpos.le]
      rfl
  | negative =>
      have hvalue : ((Sign.negative.apply m : Int) : ℚ) * 2 ^ e = -(m * 2 ^ e) := by
        rw [show Sign.negative.apply (m : Int) = -m from rfl, Int.cast_neg, Int.cast_natCast, neg_mul]
      rw [hvalue, if_neg (by linarith), Int.ceil_neg]
      rfl

/-- A `float` that stands for a number. -/
def IsFinite : UnpackedFloat → Prop
  | .notANumber => False
  | .infinity _ => False
  | .zero _ => True
  | .finite _ _ _ _ => True

/-- What C asks of a conversion to a signed type of 32 bits: a number loses its fraction, if what is left has a place
    in the type. What becomes of another `float` is left open. -/
def Truncates (conv : Float32.Model → Int32) : Prop :=
  ∀ x : Float32.Model, IsFinite x.unpack → -2 ^ 31 ≤ integralPart (value x.unpack) →
    integralPart (value x.unpack) < 2 ^ 31 → (conv x).toInt = integralPart (value x.unpack)

/-- The conversion of the model is one of these; it saturates where C leaves the result open. -/
theorem truncates_toInt32 : Truncates Float32.Model.toInt32 := by
  intro x hx hlow hhigh
  have hint : x.unpack.toInt Int32.minValue.toInt Int32.maxValue.toInt = integralPart (value x.unpack) := by
    cases h : x.unpack with
    | notANumber => exact absurd hx (by rw [h]; exact id)
    | infinity s => exact absurd hx (by rw [h]; exact id)
    | zero s => rfl
    | finite s m e hm => exact roundToInt_eq hm
  show (Int32.ofIntClamp (x.unpack.toInt Int32.minValue.toInt Int32.maxValue.toInt)).toInt = _
  rw [hint]
  exact Int32.toInt_ofIntClamp hlow (Int.le_of_lt_add_one hhigh)

end Binary32
