import GuitarraMidi.Lib.Framing
import GuitarraMidi.Lib.XorSum

/-!
# `Wire.ChordMessage` — the packet that travels from the emisora to the EDU-CIAA

The three programs declare the same packed struct, each on its own: eight bytes, two of preamble, four
button bytes, a velocity and a checksum. Here it is one `structure`, with `bytes` and `ofBytes` for the
two ways a C program looks at it (`uint8_t *p = (uint8_t *)&msg`).

All three compute the checksum with the same loop, `for (i = 2; i < sizeof(msg) - 1; i++) chk ^= p[i]`;
`xorPayload` is that loop.
-/

namespace GuitarraMidi

open Framing XorSum

/-- `ChordMessage`, packed. -/
structure ChordMessage where
  header1 : UInt8
  header2 : UInt8
  botones : Vector UInt8 4
  velocity : UInt8
  checksum : UInt8
deriving DecidableEq, Repr, Inhabited

/-- `sizeof(ChordMessage)`. -/
def chordMessageSize : Nat := 8

namespace ChordMessage

/-- The struct as the bytes it occupies. -/
def bytes (m : ChordMessage) : List UInt8 :=
  [m.header1, m.header2, m.botones[0], m.botones[1], m.botones[2], m.botones[3], m.velocity, m.checksum]

/-- The struct laid over eight bytes of memory. -/
def ofBytes (p : List UInt8) : ChordMessage where
  header1 := p.getD 0 0
  header2 := p.getD 1 0
  botones := #v[p.getD 2 0, p.getD 3 0, p.getD 4 0, p.getD 5 0]
  velocity := p.getD 6 0
  checksum := p.getD 7 0

@[simp] theorem length_bytes (m : ChordMessage) : m.bytes.length = chordMessageSize := rfl

@[simp] theorem ofBytes_bytes (m : ChordMessage) : ofBytes m.bytes = m := by
  obtain ⟨h1, h2, b, v, c⟩ := m
  have hb : #v[b[0], b[1], b[2], b[3]] = b := by
    ext i hi
    match i, hi with
    | 0, _ => rfl
    | 1, _ => rfl
    | 2, _ => rfl
    | 3, _ => rfl
  simp only [ofBytes, bytes, List.getD_cons_zero, List.getD_cons_succ, hb]

theorem bytes_ofBytes {p : List UInt8} (hp : p.length = chordMessageSize) : (ofBytes p).bytes = p := by
  match p, hp with
  | [_, _, _, _, _, _, _, _], _ => rfl

theorem bytes_injective : Function.Injective bytes := by
  intro m n h
  rw [← ofBytes_bytes m, h, ofBytes_bytes]

end ChordMessage

/-! ## The checksum loop -/

/-- `for (i = 2; i < sizeof(msg) - 1; i++) chk ^= p[i]`, over the bytes of a struct. -/
def xorPayload (p : List UInt8) : UInt8 := xorSum ((p.take (p.length - 1)).drop 2)

/-- The validity test of the receivers: `chk == msg.checksum`. -/
def checksumOk (p : List UInt8) : Bool := xorPayload p == (ChordMessage.ofBytes p).checksum

theorem checksumOk_bytes {m : ChordMessage} : checksumOk m.bytes = true ↔ xorPayload m.bytes = m.checksum := by
  rw [checksumOk, ChordMessage.ofBytes_bytes, beq_iff_eq]

/-- A frame passes the test exactly when everything after its preamble XORs to zero. -/
theorem checksumOk_iff {p : List UInt8} (hp : p.length = chordMessageSize) :
    checksumOk p = true ↔ xorSum (p.drop 2) = 0 := by
  match p, hp with
  | [h1, h2, b0, b1, b2, b3, v, c], _ =>
      -- the checksum cancels the XOR of the payload, and nothing else does
      have hsum : xorSum [b0, b1, b2, b3, v, c] = xorSum [b0, b1, b2, b3, v] ^^^ c := by
        rw [show [b0, b1, b2, b3, v, c] = [b0, b1, b2, b3, v] ++ [c] from rfl, xorSum_append]
        simp only [xorSum_cons, xorSum_nil, UInt8.xor_zero]
      show (xorSum [b0, b1, b2, b3, v] == c) = true ↔ xorSum [b0, b1, b2, b3, v, c] = 0
      rw [hsum, beq_iff_eq, UInt8.xor_eq_zero_iff]

/-! ## The framing -/

/-- The framing all three programs use: `0xAA 0x55`, then up to eight bytes. -/
def chordFormat : Format UInt8 where
  sync₀ := 0xAA
  sync₁ := 0x55
  size := chordMessageSize
  sync_ne := by decide
  two_lt_size := by decide

@[simp] theorem chordFormat_sync₀ : chordFormat.sync₀ = 0xAA := rfl
@[simp] theorem chordFormat_sync₁ : chordFormat.sync₁ = 0x55 := rfl
@[simp] theorem chordFormat_size : chordFormat.size = chordMessageSize := rfl

/-- A message with the right preamble and checksum. -/
structure ChordMessage.Valid (m : ChordMessage) : Prop where
  header1 : m.header1 = 0xAA
  header2 : m.header2 = 0x55
  checksum : xorPayload m.bytes = m.checksum

/-- The packets among the frames a parser has cut out: those with a correct checksum. -/
def packets (frames : List (List UInt8)) : List ChordMessage :=
  (frames.filter checksumOk).map ChordMessage.ofBytes

@[simp] theorem packets_nil : packets [] = [] := rfl

theorem packets_append (fs gs : List (List UInt8)) : packets (fs ++ gs) = packets fs ++ packets gs := by
  unfold packets
  rw [List.filter_append, List.map_append]

theorem packets_cons_of_ok {f : List UInt8} (h : checksumOk f = true) (fs : List (List UInt8)) :
    packets (f :: fs) = ChordMessage.ofBytes f :: packets fs := by
  unfold packets
  rw [List.filter_cons_of_pos h, List.map_cons]

theorem packets_cons_of_bad {f : List UInt8} (h : checksumOk f = false) (fs : List (List UInt8)) :
    packets (f :: fs) = packets fs := by
  unfold packets
  rw [List.filter_cons_of_neg (by rw [h]; exact Bool.false_ne_true)]

theorem ChordMessage.isFrame {m : ChordMessage} (h1 : m.header1 = 0xAA) (h2 : m.header2 = 0x55) :
    chordFormat.IsFrame m.bytes := by
  refine ⟨rfl, ⟨m.bytes.drop 2, ?_⟩⟩
  show [0xAA, 0x55] ++ m.bytes.drop 2 = m.bytes
  rw [← h1, ← h2]
  rfl

theorem ChordMessage.Valid.isFrame {m : ChordMessage} (h : m.Valid) : chordFormat.IsFrame m.bytes :=
  ChordMessage.isFrame h.header1 h.header2

theorem ChordMessage.Valid.checksumOk {m : ChordMessage} (h : m.Valid) : checksumOk m.bytes = true :=
  checksumOk_bytes.mpr h.checksum

/-- Valid messages written out and read back are themselves. -/
theorem packets_map_bytes {ms : List ChordMessage} (h : ∀ m ∈ ms, m.Valid) :
    packets (ms.map ChordMessage.bytes) = ms := by
  induction ms with
  | nil => rfl
  | cons m ms ih =>
      have hrest : ∀ n ∈ ms, n.Valid := by
        intro n hn
        exact h n (List.mem_cons_of_mem m hn)
      rw [List.map_cons, packets_cons_of_ok (h m List.mem_cons_self).checksumOk,
        ChordMessage.ofBytes_bytes, ih hrest]

end GuitarraMidi
