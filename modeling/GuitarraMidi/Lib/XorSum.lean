import Mathlib.Data.List.Basic

/-!
# `Lib.XorSum` — the XOR of a list of bytes

An XOR checksum is a homomorphism from byte strings to bytes, and that is all there is to know about it:
`xorSum_append` says where the bytes stand does not matter, `xorSum_replace_iff` that changing one byte
always shows, and `xorSum_map_and` that the sum may be taken on any subset of the bit positions.
-/

namespace XorSum

/-- The XOR of a list of bytes, accumulated from the left as a loop does. -/
def xorSum (bs : List UInt8) : UInt8 := bs.foldl (fun chk b => chk ^^^ b) 0

/-- The accumulator of the loop factors out. -/
theorem foldl_xor_eq (bs : List UInt8) (chk : UInt8) :
    bs.foldl (fun chk b => chk ^^^ b) chk = chk ^^^ xorSum bs := by
  induction bs generalizing chk with
  | nil => exact UInt8.xor_zero.symm
  | cons b bs ih =>
      have hsum : xorSum (b :: bs) = b ^^^ xorSum bs := by
        unfold xorSum
        rw [List.foldl_cons, ih, UInt8.zero_xor]
        rfl
      rw [List.foldl_cons, ih, hsum, UInt8.xor_assoc]

@[simp] theorem xorSum_nil : xorSum [] = 0 := rfl

@[simp] theorem xorSum_cons (b : UInt8) (bs : List UInt8) : xorSum (b :: bs) = b ^^^ xorSum bs := by
  unfold xorSum
  rw [List.foldl_cons, foldl_xor_eq, UInt8.zero_xor]
  rfl

theorem xorSum_append (as bs : List UInt8) : xorSum (as ++ bs) = xorSum as ^^^ xorSum bs := by
  unfold xorSum
  rw [List.foldl_append]
  exact foldl_xor_eq bs (xorSum as)

/-- **Changing one byte always changes the sum.** -/
theorem xorSum_replace_iff {as bs : List UInt8} {a b : UInt8} :
    xorSum (as ++ a :: bs) = xorSum (as ++ b :: bs) ↔ a = b := by
  rw [xorSum_append, xorSum_append, UInt8.xor_right_inj, xorSum_cons, xorSum_cons, UInt8.xor_left_inj]

theorem split_at {bs : List UInt8} {i : Nat} {a : UInt8} (h : bs[i]? = some a) :
    bs = bs.take i ++ a :: bs.drop (i + 1) := by
  obtain ⟨hi, rfl⟩ := List.getElem?_eq_some_iff.mp h
  rw [← List.drop_eq_getElem_cons hi, List.take_append_drop]

/-- Overwriting a byte keeps the sum only when it keeps the byte. -/
theorem xorSum_set_eq_iff {bs : List UInt8} {i : Nat} {a : UInt8} (h : bs[i]? = some a) (b : UInt8) :
    xorSum (bs.set i b) = xorSum bs ↔ b = a := by
  obtain ⟨hi, -⟩ := List.getElem?_eq_some_iff.mp h
  have hset : bs.set i b = bs.take i ++ b :: bs.drop (i + 1) := by
    rw [List.set_eq_take_append_cons_drop, if_pos hi]
  have hself : xorSum bs = xorSum (bs.take i ++ a :: bs.drop (i + 1)) := congrArg xorSum (split_at h)
  rw [hset, hself]
  exact xorSum_replace_iff

/-- Removing a byte takes it out of the sum. -/
theorem xorSum_eraseIdx {bs : List UInt8} {i : Nat} {a : UInt8} (h : bs[i]? = some a) :
    xorSum (bs.eraseIdx i) = xorSum bs ^^^ a := by
  -- the byte comes in twice, once in the sum of `bs` and once alone
  have hsum : xorSum bs = xorSum (bs.take i) ^^^ (a ^^^ xorSum (bs.drop (i + 1))) := by
    conv_lhs => rw [split_at h]
    rw [xorSum_append, xorSum_cons]
  rw [List.eraseIdx_eq_take_drop_succ, xorSum_append, hsum, UInt8.xor_comm a, UInt8.xor_assoc,
    UInt8.xor_assoc, UInt8.xor_self, UInt8.xor_zero]

/-- Masking distributes over XOR. -/
theorem xor_and (a b m : UInt8) : (a ^^^ b) &&& m = (a &&& m) ^^^ (b &&& m) := by
  apply UInt8.toNat_inj.mp
  simp only [UInt8.toNat_and, UInt8.toNat_xor, Nat.and_xor_distrib_right]

/-- **The sum may be taken on a subset of the bit positions.** -/
theorem xorSum_map_and (bs : List UInt8) (m : UInt8) :
    xorSum (bs.map (· &&& m)) = xorSum bs &&& m := by
  induction bs with
  | nil => exact (UInt8.zero_and).symm
  | cons b bs ih => rw [List.map_cons, xorSum_cons, xorSum_cons, ih, xor_and]

end XorSum
