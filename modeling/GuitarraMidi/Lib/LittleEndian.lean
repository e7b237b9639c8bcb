import Mathlib.Algebra.Group.Nat.Defs
import Mathlib.Data.List.Basic

/-!
# `Lib.LittleEndian` — a 32-bit word as four bytes, the lowest first
-/

namespace LittleEndian

/-- The bytes of a word. -/
def bytes (w : UInt32) : List UInt8 :=
  [w.toUInt8, (w >>> 8).toUInt8, (w >>> 16).toUInt8, (w >>> 24).toUInt8]

/-- The word of four bytes. -/
def word (b₀ b₁ b₂ b₃ : UInt8) : UInt32 :=
  UInt32.ofNat (b₀.toNat + 2 ^ 8 * b₁.toNat + 2 ^ 16 * b₂.toNat + 2 ^ 24 * b₃.toNat)

theorem toNat_word (b₀ b₁ b₂ b₃ : UInt8) :
    (word b₀ b₁ b₂ b₃).toNat = b₀.toNat + 2 ^ 8 * b₁.toNat + 2 ^ 16 * b₂.toNat + 2 ^ 24 * b₃.toNat := by
  have h₀ := b₀.toNat_lt
  have h₁ := b₁.toNat_lt
  have h₂ := b₂.toNat_lt
  have h₃ := b₃.toNat_lt
  unfold word
  rw [UInt32.toNat_ofNat']
  omega

theorem toNat_byte (w : UInt32) (n : UInt32) (hn : n.toNat < 32) :
    (w >>> n).toUInt8.toNat = w.toNat / 2 ^ n.toNat % 2 ^ 8 := by
  rw [UInt32.toNat_toUInt8, UInt32.toNat_shiftRight, Nat.shiftRight_eq_div_pow, Nat.mod_eq_of_lt hn]

/-- **The word of the bytes of a word is the word.** -/
theorem word_bytes (w : UInt32) :
    word w.toUInt8 (w >>> 8).toUInt8 (w >>> 16).toUInt8 (w >>> 24).toUInt8 = w := by
  have hw := w.toNat_lt
  have h₀ : w.toUInt8.toNat = w.toNat % 2 ^ 8 := UInt32.toNat_toUInt8 w
  have h₁ := toNat_byte w 8 (by decide)
  have h₂ := toNat_byte w 16 (by decide)
  have h₃ := toNat_byte w 24 (by decide)
  apply UInt32.toNat_inj.mp
  rw [toNat_word, h₀, h₁, h₂, h₃]
  show w.toNat % 2 ^ 8 + 2 ^ 8 * (w.toNat / 2 ^ 8 % 2 ^ 8) + 2 ^ 16 * (w.toNat / 2 ^ 16 % 2 ^ 8)
    + 2 ^ 24 * (w.toNat / 2 ^ 24 % 2 ^ 8) = w.toNat
  omega

/-- **The bytes of the word of four bytes are the four bytes.** -/
theorem bytes_word (b₀ b₁ b₂ b₃ : UInt8) : bytes (word b₀ b₁ b₂ b₃) = [b₀, b₁, b₂, b₃] := by
  have hw := toNat_word b₀ b₁ b₂ b₃
  have h₀ := b₀.toNat_lt
  have h₁ := b₁.toNat_lt
  have h₂ := b₂.toNat_lt
  have h₃ := b₃.toNat_lt
  have hbyte : ∀ (n : UInt32) (b : UInt8), n.toNat < 32 →
      (word b₀ b₁ b₂ b₃).toNat / 2 ^ n.toNat % 2 ^ 8 = b.toNat → (word b₀ b₁ b₂ b₃ >>> n).toUInt8 = b := by
    intro n b hn hb
    apply UInt8.toNat_inj.mp
    rw [toNat_byte _ n hn, hb]
  have hlow : (word b₀ b₁ b₂ b₃).toUInt8 = b₀ := by
    apply UInt8.toNat_inj.mp
    rw [UInt32.toNat_toUInt8, hw]
    omega
  unfold bytes
  rw [hlow, hbyte 8 b₁ (by decide), hbyte 16 b₂ (by decide), hbyte 24 b₃ (by decide)]
  · show (word b₀ b₁ b₂ b₃).toNat / 2 ^ 24 % 2 ^ 8 = _
    omega
  · show (word b₀ b₁ b₂ b₃).toNat / 2 ^ 16 % 2 ^ 8 = _
    omega
  · show (word b₀ b₁ b₂ b₃).toNat / 2 ^ 8 % 2 ^ 8 = _
    omega

end LittleEndian
