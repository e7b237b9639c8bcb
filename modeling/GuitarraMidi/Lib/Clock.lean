import Mathlib.Algebra.Group.Nat.Defs
import Mathlib.Data.List.Chain

/-!
# `Lib.Clock` — a 32-bit millisecond counter read against true time

True time is a natural number of milliseconds that never wraps; a program reads it modulo `2^32`
(`tick`). There are three ways a program uses two readings:

* it takes their difference as an unsigned number, to see how much time has passed. That is at most the true time
  that has passed (`elapsed_le`), and exactly that as long as the counter has not gone round (`toNat_elapsed`);
* it looks at the sign of their difference, to see whether a moment has come. That is right as long as the two
  moments are less than half a turn apart (`past_tick_iff`);
* it compares them as they are. That is right only where the counter does not go round between the two
  (`tick_le_iff_iff`).
-/

namespace Clock

/-- What the counter shows at a true time. -/
def tick (t : Nat) : UInt32 := UInt32.ofNat t

theorem toNat_tick (t : Nat) : (tick t).toNat = t % 2 ^ 32 := UInt32.toNat_ofNat'

theorem tick_add (t d : Nat) : tick (t + d) = tick t + UInt32.ofNat d := UInt32.ofNat_add t d

/-- Times that never go back from one to the next never go back at all. -/
theorem pairwise_le {α : Type*} {time : α → Nat} {r : α → α → Prop} {xs : List α} (h : xs.IsChain r)
    (hle : ∀ x y, r x y → time x ≤ time y) : xs.Pairwise (fun x y => time x ≤ time y) := by
  have htimes : (xs.map time).IsChain (· ≤ ·) := (List.isChain_map _).mpr (h.imp (fun x y hxy => hle x y hxy))
  exact List.pairwise_map.mp htimes.pairwise

/-! ## How much time has passed -/

/-- The difference of two readings is the time that has passed, up to whole turns of the counter. -/
theorem toNat_elapsed_mod {s t : Nat} (h : s ≤ t) : (tick t - tick s).toNat = (t - s) % 2 ^ 32 := by
  have hsub : tick t - tick s = tick (t - s) := (UInt32.ofNat_sub h).symm
  rw [hsub, toNat_tick]

/-- **Within a turn of the counter the difference is the time that has passed.** -/
theorem toNat_elapsed {s t : Nat} (h : s ≤ t) (hturn : t - s < 2 ^ 32) :
    (tick t - tick s).toNat = t - s := by
  rw [toNat_elapsed_mod h, Nat.mod_eq_of_lt hturn]

/-- The counter never shows more time than has passed. -/
theorem elapsed_le {s t : Nat} (h : s ≤ t) : (tick t - tick s).toNat ≤ t - s := by
  rw [toNat_elapsed_mod h]
  exact Nat.mod_le _ _

/-- So what has passed by the counter has passed. -/
theorem le_elapsed {s t : Nat} {d : UInt32} (h : s ≤ t) (hd : d ≤ tick t - tick s) : s + d.toNat ≤ t := by
  have hle := elapsed_le h
  have hpassed : d.toNat ≤ (tick t - tick s).toNat := UInt32.le_iff_toNat_le.mp hd
  omega

theorem lt_elapsed {s t : Nat} {d : UInt32} (h : s ≤ t) (hd : d < tick t - tick s) : s + d.toNat < t := by
  have hle := elapsed_le h
  have hlt : d.toNat < (tick t - tick s).toNat := UInt32.lt_iff_toNat_lt.mp hd
  omega

/-! ## Whether a moment has come -/

/-- A moment `due` has come at `now`: the difference of the two, read as a signed number, is not negative. -/
def past (now due : UInt32) : Bool := (now - due).toInt32 ≥ 0

/-- A reading that differs from another by less than half a turn forwards is not before it. -/
theorem past_of_le {now due : Nat} (h : due ≤ now) (hhalf : now < due + 2 ^ 31) :
    past (tick now) (tick due) = true := by
  have hdiff : (tick now - tick due).toNat = now - due := toNat_elapsed h (by omega)
  unfold past
  rw [decide_eq_true_eq, ge_iff_le, Int32.le_iff_toInt_le]
  show (0 : Int) ≤ (tick now - tick due).toBitVec.toInt
  rw [BitVec.toInt_eq_toNat_cond]
  have hbit : (tick now - tick due).toBitVec.toNat = now - due := hdiff
  rw [hbit, if_pos (by omega)]
  omega

/-- A reading that differs from another by at most half a turn backwards is before it. -/
theorem not_past_of_lt {now due : Nat} (h : now < due) (hhalf : due ≤ now + 2 ^ 31) :
    past (tick now) (tick due) = false := by
  have hback : (tick due - tick now).toNat = due - now := toNat_elapsed (Nat.le_of_lt h) (by omega)
  have hdiff : (tick now - tick due).toNat = 2 ^ 32 - (due - now) := by
    have hneg : tick now - tick due = -(tick due - tick now) := (UInt32.neg_sub).symm
    have hmod : (2 ^ 32 - (due - now)) % 2 ^ 32 = 2 ^ 32 - (due - now) := Nat.mod_eq_of_lt (by omega)
    rw [hneg, UInt32.toNat_neg, hback]
    exact hmod
  unfold past
  rw [decide_eq_false_iff_not, ge_iff_le, Int32.le_iff_toInt_le]
  show ¬ (0 : Int) ≤ (tick now - tick due).toBitVec.toInt
  rw [BitVec.toInt_eq_toNat_cond]
  have hbit : (tick now - tick due).toBitVec.toNat = 2 ^ 32 - (due - now) := hdiff
  rw [hbit, if_neg (by omega)]
  omega

/-- **Within half a turn either way the sign of the difference tells whether a moment has come.** -/
theorem past_tick_iff {now due : Nat} (hahead : now < due + 2 ^ 31) (hback : due ≤ now + 2 ^ 31) :
    past (tick now) (tick due) = true ↔ due ≤ now := by
  rcases Nat.lt_or_ge now due with hlt | hge
  · rw [not_past_of_lt hlt hback]
    constructor
    · intro h
      exact absurd h Bool.false_ne_true
    · intro h
      omega
  · rw [past_of_le hge hahead]
    exact ⟨fun _ => hge, fun _ => rfl⟩

/-! ## Comparing readings -/

/-- **Two readings less than a turn apart compare as the times do exactly when they are of the same turn.** -/
theorem tick_le_iff_iff {s t : Nat} (hst : s < t + 2 ^ 32) (hts : t < s + 2 ^ 32) :
    (tick s ≤ tick t ↔ s ≤ t) ↔ s / 2 ^ 32 = t / 2 ^ 32 := by
  rw [UInt32.le_iff_toNat_le, toNat_tick, toNat_tick]
  omega

end Clock
