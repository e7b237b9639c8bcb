import GuitarraMidi.Lib.Binary32
import GuitarraMidi.TestLatency.Program

/-!
# `TestLatency.Correctness.Velocity` — the two functions that look at `gz`

`detectStrum` compares `gz` with 350 in `float`, and that is the comparison of the numbers (`th_lt_iff`). So
`velocityFromGz` is only ever called with more than 350. There `40 + gz / 4` is at least 127, rounded or not, and the
result is cut to 127: whatever the force of a strum, the velocity is 127. Below `2 ^ 33` the sum fits in an `int` and
this is so for every conversion that C allows (`velocityWith_above`); from there on, where C promises nothing, it is so
with the conversion of the board (`velocityFromGz_above`).
-/

namespace GuitarraMidi.TestLatency

open Binary32
open Float.Model (Format UnpackedFloat)

/-- The number in a `float`. -/
def gzValue (w : UInt32) : ℚ := value (Program.float w).unpack

theorem unpack_th : Program.th.unpack = .finite .positive 11468800 (-15) (by decide) := rfl

theorem unpack_forty : (Program.float 0x42200000).unpack = .finite .positive 10485760 (-18) (by decide) := rfl

theorem unpack_quarter : (Program.float 0x3E800000).unpack = .finite .positive (2 ^ 23) (-25) (by decide) := rfl

theorem canonical_th : Canonical 11468800 (-15) := ⟨by decide, by decide, by decide, Or.inl (by decide)⟩

theorem th_eq : ((11468800 : Nat) : ℚ) * 2 ^ (-15 : Int) = strumTh := by
  unfold strumTh
  norm_num

/-- **`gz > TH`, in `float`, is the comparison of the numbers.** -/
theorem th_lt_iff (w : UInt32) : Program.th < Program.float w ↔ gzValue w > strumTh := by
  rw [gt_iff_lt, ← th_eq]
  show Program.th.unpack.lt (Program.float w).unpack = true ↔ _
  rw [unpack_th]
  exact lt_iff canonical_th (unpack_valid _)

/-! ## The velocity -/

/-- `40 + gz / 4` before it is rounded, for `gz = m * 2 ^ (n - 15)`, in units of `2 ^ -18`: at least 127, and of
    `24 + k` bits. -/
theorem sum_bits {m n : Nat} (hm : 2 ^ 23 ≤ m) (hm' : m < 2 ^ 24) (hth : 11468800 < m ∨ 1 ≤ n) :
    ∃ k, k ≤ n + 2 ∧ 2 ^ (23 + k) ≤ 10485760 + m * 2 ^ (n + 1) ∧ 10485760 + m * 2 ^ (n + 1) < 2 ^ (23 + k + 1)
      ∧ 127 * 2 ^ 18 ≤ 10485760 + m * 2 ^ (n + 1) := by
  have hdouble : m * 2 ^ (n + 1) = m * 2 ^ n * 2 := by rw [pow_succ, Nat.mul_assoc]
  have hlarge : 127 * 2 ^ 18 ≤ 10485760 + m * 2 ^ (n + 1) := by
    rcases hth with hth | hn
    · have hone : m ≤ m * 2 ^ n := Nat.le_mul_of_pos_right m (Nat.two_pow_pos n)
      omega
    · have htwo : m * 2 ≤ m * 2 ^ n := Nat.mul_le_mul_left m (Nat.pow_le_pow_right Nat.two_pos hn)
      omega
  have hne : 10485760 + m * 2 ^ (n + 1) ≠ 0 := by omega
  have hlow : 23 ≤ (10485760 + m * 2 ^ (n + 1)).log2 := (Nat.le_log2 hne).mpr (by omega)
  have hbound : 10485760 + m * 2 ^ (n + 1) < 2 ^ (23 + (n + 2) + 1) := by
    have hprod : m * 2 ^ (n + 1) ≤ 2 ^ 24 * 2 ^ (n + 1) := Nat.mul_le_mul_right _ (Nat.le_of_lt hm')
    have hpow : 2 ^ (23 + (n + 2) + 1) = 2 ^ 24 * 2 ^ (n + 1) + 2 ^ 24 * 2 ^ (n + 1) := by
      rw [← Nat.two_mul, ← pow_add, ← pow_succ']
      congr 1
      omega
    have hone : 2 ^ 24 * 1 ≤ 2 ^ 24 * 2 ^ (n + 1) := Nat.mul_le_mul_left _ Nat.one_le_two_pow
    omega
  have hlog := (Nat.log2_lt hne).mpr hbound
  refine ⟨(10485760 + m * 2 ^ (n + 1)).log2 - 23, by omega, ?_, ?_, hlarge⟩
  · rw [Nat.add_sub_cancel' hlow]
    exact Nat.log2_self_le hne
  · rw [Nat.add_sub_cancel' hlow]
    exact Nat.lt_log2_self

/-- The integral part of the rounded sum. -/
theorem toInt_rounded (m k j : Nat) :
    UnpackedFloat.roundToInt .positive m (-18 + k + j) = ((m * 2 ^ j * 2 ^ k / 2 ^ 18 : Nat) : Int) := by
  have he : (-18 + k + j : Int) = ((j + k : Nat) : Int) - (18 : Nat) := by omega
  rw [he, roundToInt_sub, pow_add, Nat.mul_assoc]
  rfl

/-- Rounding does not take the sum below 127. -/
theorem le_toInt_rounded {m k j S : Nat} (hm : 2 ^ 23 ≤ m) (hS : 127 * 2 ^ 18 ≤ S) (hround : S / 2 ^ k ≤ m * 2 ^ j) :
    127 ≤ UnpackedFloat.roundToInt .positive m (-18 + k + j) := by
  have hsum : 127 * 2 ^ 18 ≤ m * 2 ^ j * 2 ^ k := by
    rcases Nat.le_total k 18 with hle | hge
    · -- what rounding may cut off is no part of `127 * 2 ^ 18`
      obtain ⟨n, hn⟩ := Nat.exists_eq_add_of_le hle
      have hsplit : 127 * 2 ^ 18 = 127 * 2 ^ n * 2 ^ k := by
        rw [hn, pow_add, Nat.mul_comm (2 ^ k), Nat.mul_assoc]
      have hfloor : 127 * 2 ^ n ≤ S / 2 ^ k := by
        rw [Nat.le_div_iff_mul_le (Nat.two_pow_pos k), ← hsplit]
        exact hS
      rw [hsplit]
      exact Nat.mul_le_mul_right _ (hfloor.trans hround)
    · have hpow : 2 ^ 18 ≤ 2 ^ k := Nat.pow_le_pow_right Nat.two_pos hge
      have hone : m ≤ m * 2 ^ j := Nat.le_mul_of_pos_right m (Nat.two_pow_pos j)
      exact Nat.mul_le_mul (by omega) hpow
  rw [toInt_rounded]
  exact_mod_cast (Nat.le_div_iff_mul_le (Nat.two_pow_pos 18)).mpr hsum

/-- Nor to `2 ^ 31`, when half a unit more is still less than that. -/
theorem toInt_rounded_lt {m k j S : Nat} (hS : S + 2 ^ k / 2 < 2 ^ 31 * 2 ^ 18)
    (hround : m * 2 ^ j * 2 ^ k ≤ S + 2 ^ k / 2) :
    UnpackedFloat.roundToInt .positive m (-18 + k + j) < 2 ^ 31 := by
  rw [toInt_rounded]
  exact_mod_cast (Nat.div_lt_iff_lt_mul (Nat.two_pow_pos 18)).mpr (Nat.lt_of_le_of_lt hround hS)

/-- The sum in `float`, for a finite `gz` above the threshold: at least 127, and less than `2 ^ 31` for a `gz` of less
    than `2 ^ 33`. -/
theorem sum_finite {m n : Nat} {hm : 0 < m} (hlow : 2 ^ 23 ≤ m) (hhigh : m < 2 ^ 24) (hn : n ≤ 119)
    (hth : 11468800 < m ∨ 1 ≤ n) {gz : Float32.Model} (hgz : gz.unpack = .finite .positive m (n - 15) hm) :
    ∃ (m' : Nat) (e' : Int) (hm' : 0 < m'),
      (Program.float 0x42200000 + gz.abs * Program.float 0x3E800000).unpack = .finite .positive m' e' hm'
        ∧ 127 ≤ UnpackedFloat.roundToInt .positive m' e'
        ∧ (n ≤ 24 → UnpackedFloat.roundToInt .positive m' e' < 2 ^ 31) := by
  have habs : gz.abs.unpack = .finite .positive m (n - 15) hm := by
    rw [unpack_abs, hgz]
    exact unpack_pack ⟨hlow, hhigh, by omega, by omega⟩
  -- a quarter of it, exactly
  have hquarter : (gz.abs * Program.float 0x3E800000).unpack = .finite .positive m (n - 17) hm := by
    have hmul : UnpackedFloat.mul Format.binary32 (.finite .positive m (n - 15) hm)
        (.finite .positive (2 ^ 23) (-25) (by decide)) = .finite .positive m (n - 15 + -25 + 23) hm :=
      mul_power hlow hhigh (by omega)
    have he : (n : Int) - 15 + -25 + 23 = n - 17 := by omega
    rw [he] at hmul
    rw [unpack_mul, habs, unpack_quarter, hmul]
    exact unpack_pack ⟨hlow, hhigh, by omega, by omega⟩
  -- 40 more, rounded
  obtain ⟨k, hk, hbits, hbits', hlarge⟩ := sum_bits hlow hhigh hth
  obtain ⟨m', j, hm', hround, hnormal, hdown, hup⟩ :=
    round_spec (s := .positive) (e := -18) hbits hbits' (by omega) (by omega)
  refine ⟨m', -18 + k + j, hm', ?_, le_toInt_rounded hnormal.low hlarge hdown, fun hn => ?_⟩
  · have hadd : UnpackedFloat.add Format.binary32 (.finite .positive 10485760 (-18) (by decide))
        (.finite .positive m (n - 17) hm)
          = UnpackedFloat.roundWithAccuracy Format.binary32 .positive
              (10485760 + m * 2 ^ ((n : Int) - 17 - -18).toNat) (-18) .exact :=
      add_positive (by omega) (by decide)
    have hshift : ((n : Int) - 17 - -18).toNat = n + 1 := by omega
    rw [hshift] at hadd
    rw [unpack_add, unpack_forty, hquarter, hadd, hround]
    exact unpack_pack hnormal
  · -- the sum is less than `2 ^ 49` units, so half a unit of its 24 bits is at most `2 ^ 24`
    have hpow : 2 ^ (n + 1) ≤ 2 ^ 25 := Nat.pow_le_pow_right Nat.two_pos (by omega)
    have hprod : m * 2 ^ (n + 1) ≤ (2 ^ 24 - 1) * 2 ^ 25 := Nat.mul_le_mul (by omega) hpow
    have hk : k ≤ 25 := by
      by_contra hmore
      have hpow : 2 ^ 49 ≤ 2 ^ (23 + k) := Nat.pow_le_pow_right Nat.two_pos (by omega)
      omega
    have hhalf : 2 ^ k ≤ 2 ^ 25 := Nat.pow_le_pow_right Nat.two_pos hk
    exact toInt_rounded_lt (by omega) hup

/-- An infinite `gz` saturates. -/
theorem sum_infinite {gz : Float32.Model} (hgz : gz.unpack = .infinity .positive) :
    127 ≤ (Program.vcvt (Program.float 0x42200000 + gz.abs * Program.float 0x3E800000)).toInt := by
  have habs : gz.abs = Float32.Model.pack (.infinity .positive) := by
    show Float32.Model.pack gz.unpack.abs = _
    rw [hgz]
    rfl
  rw [habs]
  decide +kernel

/-- What `velocityFromGz` makes of the converted sum. -/
theorem clamp_of_le {v : Int32} (hint : 127 ≤ v.toInt) :
    (let v := if v < 20 then 20 else v
     let v := if v > 127 then 127 else v
     v.toUInt32.toUInt8) = 127 := by
  have hnot : ¬ v < 20 := by
    rw [Int32.lt_iff_toInt_lt]
    show ¬ v.toInt < 20
    omega
  simp only [if_neg hnot]
  by_cases hmore : v > 127
  · rw [if_pos hmore]
    rfl
  · have heq : v = 127 := by
      apply Int32.toInt_inj.mp
      have hle : ¬ (127 : Int) < v.toInt := fun hlt => hmore (Int32.lt_iff_toInt_lt.mpr hlt)
      show v.toInt = 127
      omega
    rw [if_neg hmore, heq]
    rfl

/-- The conversion of the board keeps a number at 127 or above it. -/
theorem le_vcvt {x : Float32.Model} {m : Nat} {e : Int} {hm : 0 < m} (hx : x.unpack = .finite .positive m e hm)
    (hint : 127 ≤ UnpackedFloat.roundToInt .positive m e) : 127 ≤ (Program.vcvt x).toInt := by
  have hvcvt : Program.vcvt x = Int32.ofIntClamp (UnpackedFloat.roundToInt .positive m e) := by
    show Int32.ofIntClamp (x.unpack.toInt _ _) = _
    rw [hx]
    rfl
  have hmin : Int32.minValue.toInt ≤ UnpackedFloat.roundToInt .positive m e := Int.le_trans (by decide) hint
  rw [hvcvt]
  by_cases hmax : UnpackedFloat.roundToInt .positive m e ≤ Int32.maxValue.toInt
  · rw [Int32.toInt_ofIntClamp hmin hmax]
    exact hint
  · unfold Int32.ofIntClamp
    rw [dif_pos hmin, dif_neg hmax]
    decide

/-- A `float` above the threshold: infinite, or of an exponent that is at least that of the threshold. -/
theorem unpack_above {w : UInt32} (h : Program.th < Program.float w) :
    (Program.float w).unpack = .infinity .positive
      ∨ ∃ (m n : Nat) (hm : 0 < m), (Program.float w).unpack = .finite .positive m (n - 15) hm
          ∧ 2 ^ 23 ≤ m ∧ m < 2 ^ 24 ∧ n ≤ 119 ∧ (11468800 < m ∨ 1 ≤ n) := by
  have hvalid : Valid (Program.float w).unpack := unpack_valid _
  have hlt : Program.th.unpack.lt (Program.float w).unpack = true := h
  rw [unpack_th] at hlt
  cases hgz : (Program.float w).unpack with
  | notANumber => rw [hgz] at hlt; exact absurd hlt (by decide)
  | zero s => rw [hgz] at hlt; exact absurd hlt (by cases s <;> decide)
  | infinity s =>
      cases s with
      | positive => exact Or.inl rfl
      | negative => rw [hgz] at hlt; exact absurd hlt (by decide)
  | finite s m e hm =>
      rw [hgz] at hvalid hlt
      cases s with
      | negative => exact absurd (show (some Ordering.gt == some .lt) = true from hlt) (by decide)
      | positive =>
          have hcompare : (compare (-15) e).then (compare 11468800 m) = .lt := Option.some.inj (beq_iff_eq.mp hlt)
          have hcases : -15 < e ∨ (e = -15 ∧ 11468800 < m) := by
            rcases lt_trichotomy (-15) e with hlt | rfl | hgt
            · exact Or.inl hlt
            · rw [compare_eq_iff_eq.mpr rfl] at hcompare
              exact Or.inr ⟨rfl, compare_lt_iff_lt.mp hcompare⟩
            · rw [compare_gt_iff_gt.mpr hgt] at hcompare
              exact absurd (show Ordering.gt = .lt from hcompare) (by decide)
          obtain ⟨n, hn⟩ : ∃ n : Nat, e = (n : Int) - 15 := ⟨(e + 15).toNat, by omega⟩
          subst hn
          have hlow : 2 ^ 23 ≤ m := hvalid.low.resolve_right (by omega)
          have hmost := hvalid.most
          exact Or.inr ⟨m, n, hm, rfl, hlow, hvalid.high, by omega, by omega⟩

/-- **Above the threshold the velocity is 127**, in the arithmetic of `float` and with the conversion of the board. -/
theorem velocityFromGz_above {w : UInt32} (h : Program.th < Program.float w) :
    Program.velocityFromGz (Program.float w) = 127 := by
  apply clamp_of_le
  rcases unpack_above h with hinf | ⟨m, n, hm, hgz, hlow, hhigh, hn, hth⟩
  · exact sum_infinite hinf
  · obtain ⟨m', e', hm', hsum, hint, -⟩ := sum_finite hlow hhigh hn hth hgz
    exact le_vcvt hsum hint

/-- **And below `2 ^ 33` with any conversion that C allows.** -/
theorem velocityWith_above {toInt : Float32.Model → Int32} (htoInt : Truncates toInt) {w : UInt32}
    (h : Program.th < Program.float w) (hw : gzValue w < 2 ^ 33) :
    Program.velocityWith toInt (Program.float w) = 127 := by
  apply clamp_of_le
  rcases unpack_above h with hinf | ⟨m, n, hm, hgz, hlow, hhigh, hn, hth⟩
  · -- infinity is no less than `2 ^ 33`
    have hvalue : gzValue w = 2 ^ 128 := by
      unfold gzValue
      rw [hinf]
      show ((1 : Int) : ℚ) * 2 ^ 128 = 2 ^ 128
      rw [Int.cast_one, one_mul]
    rw [hvalue] at hw
    exact absurd hw (by norm_num)
  · obtain ⟨m', e', hm', hsum, hint, hfits⟩ := sum_finite hlow hhigh hn hth hgz
    have hn : n ≤ 24 := by
      by_contra hmore
      have hvalue : gzValue w = ((m : Nat) : ℚ) * 2 ^ ((n : Int) - 15) := by
        unfold gzValue
        rw [hgz]
        rfl
      have hlarge : (2 : ℚ) ^ 23 * 2 ^ (10 : Int) ≤ m * 2 ^ ((n : Int) - 15) :=
        mul_le_mul (by exact_mod_cast hlow) (zpow_le_zpow_right₀ (by norm_num) (by omega)) (by positivity)
          (Nat.cast_nonneg m)
      rw [hvalue] at hw
      exact absurd (hlarge.trans_lt hw) (by norm_num)
    have hpart : integralPart (value (Program.float 0x42200000 + (Program.float w).abs * Program.float 0x3E800000).unpack)
        = UnpackedFloat.roundToInt .positive m' e' := by
      rw [hsum]
      exact (roundToInt_eq hm').symm
    have hlt := hfits hn
    rw [htoInt _ (by rw [hsum]; trivial) (by omega) (by omega), hpart]
    exact hint

/-- And so it is in the arithmetic of numbers. -/
theorem velocityFromGz_of_gt {gz : ℚ} (h : gz > strumTh) : velocityFromGz gz = 127 := by
  have hpos : ¬ gz < 0 := not_lt_of_ge (le_of_lt (lt_trans (by norm_num [strumTh]) h))
  have hfloor : (127 : Int) ≤ (40 + gz * (1 / 4)).floor := by
    rw [Rat.le_floor_iff]
    have : strumTh = 350 := rfl
    rw [this] at h
    push_cast
    linarith
  unfold velocityFromGz
  simp only [if_neg hpos]
  have hnot : ¬ (40 + gz * (1 / 4)).floor < 20 := by omega
  simp only [if_neg hnot]
  by_cases hmore : (40 + gz * (1 / 4)).floor > 127
  · rw [if_pos hmore]
    rfl
  · have heq : (40 + gz * (1 / 4)).floor = 127 := by omega
    rw [if_neg hmore, heq]
    rfl

end GuitarraMidi.TestLatency
