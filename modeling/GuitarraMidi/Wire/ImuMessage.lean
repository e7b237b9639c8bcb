import GuitarraMidi.Lib.FrameBuffer
import GuitarraMidi.Lib.LittleEndian
import GuitarraMidi.Wire.ChordMessage

/-!
# `Wire.ImuMessage` — the packet of `test_latency_buttons_esp32_emisora`

All three programs of the latency test declare the same packed struct `IMUMessage`: two header bytes, six `float`s,
four button bytes, and a checksum which is the XOR of everything but the headers and itself. A `float` is kept as the
word that is transmitted; the processors on both sides are little-endian.
-/

namespace GuitarraMidi

open Framing XorSum

/-- `IMUMessage`, packed. -/
structure ImuMessage where
  header1 : UInt8
  header2 : UInt8
  ax : UInt32
  ay : UInt32
  az : UInt32
  gx : UInt32
  gy : UInt32
  gz : UInt32
  botones : Vector UInt8 4
  checksum : UInt8
deriving DecidableEq, Repr, Inhabited

/-- `sizeof(IMUMessage)`. -/
def imuMessageSize : Nat := 31

/-- The word at a place in memory. -/
def wordAt (p : List UInt8) (i : Nat) : UInt32 :=
  LittleEndian.word (p.getD i 0) (p.getD (i + 1) 0) (p.getD (i + 2) 0) (p.getD (i + 3) 0)

namespace ImuMessage

/-- What the checksum is taken of. -/
def payload (m : ImuMessage) : List UInt8 :=
  LittleEndian.bytes m.ax ++ LittleEndian.bytes m.ay ++ LittleEndian.bytes m.az ++ LittleEndian.bytes m.gx
    ++ LittleEndian.bytes m.gy ++ LittleEndian.bytes m.gz
    ++ m.botones.toList

/-- The struct as the bytes it occupies. -/
def bytes (m : ImuMessage) : List UInt8 := [m.header1, m.header2] ++ m.payload ++ [m.checksum]

/-- The struct laid over its bytes. -/
def ofBytes (p : List UInt8) : ImuMessage where
  header1 := p.getD 0 0
  header2 := p.getD 1 0
  ax := wordAt p 2
  ay := wordAt p 6
  az := wordAt p 10
  gx := wordAt p 14
  gy := wordAt p 18
  gz := wordAt p 22
  botones := #v[p.getD 26 0, p.getD 27 0, p.getD 28 0, p.getD 29 0]
  checksum := p.getD 30 0

@[simp] theorem length_bytes (m : ImuMessage) : m.bytes.length = imuMessageSize := by
  simp only [bytes, payload, List.length_append, Vector.length_toList, LittleEndian.bytes, List.length_cons,
    List.length_nil]
  rfl

/-- Four buttons one by one. -/
theorem exists_four (b : Vector UInt8 4) : ∃ b₀ b₁ b₂ b₃, b = #v[b₀, b₁, b₂, b₃] := by
  obtain ⟨⟨l⟩, hl⟩ := b
  match l, hl with
  | [b₀, b₁, b₂, b₃], _ => exact ⟨b₀, b₁, b₂, b₃, rfl⟩

theorem ofBytes_bytes (m : ImuMessage) : ofBytes m.bytes = m := by
  obtain ⟨h1, h2, ax, ay, az, gx, gy, gz, b, c⟩ := m
  obtain ⟨b₀, b₁, b₂, b₃, rfl⟩ := exists_four b
  have hlist : (#v[b₀, b₁, b₂, b₃] : Vector UInt8 4).toList = [b₀, b₁, b₂, b₃] := rfl
  have hword := LittleEndian.word_bytes
  simp only [ofBytes, bytes, payload, wordAt, LittleEndian.bytes, List.cons_append, List.nil_append, hlist,
    List.getD_cons_zero, List.getD_cons_succ, hword]

/-- The bytes of a word at a place in memory are those there. -/
theorem bytes_wordAt (p : List UInt8) (i : Nat) :
    LittleEndian.bytes (wordAt p i) = [p.getD i 0, p.getD (i + 1) 0, p.getD (i + 2) 0, p.getD (i + 3) 0] :=
  LittleEndian.bytes_word _ _ _ _

theorem bytes_ofBytes {p : List UInt8} (hp : p.length = imuMessageSize) : (ofBytes p).bytes = p := by
  have hlist : (ofBytes p).bytes = (List.range imuMessageSize).map (fun i => p.getD i 0) := by
    simp only [bytes, payload, ofBytes, bytes_wordAt]
    rfl
  rw [hlist, ← hp]
  apply List.ext_getElem
  · rw [List.length_map, List.length_range]
  · intro i _ hi
    rw [List.getElem_map, List.getElem_range, List.getD_eq_getElem?_getD, List.getElem?_eq_getElem hi,
      Option.getD_some]

end ImuMessage

/-- The loop over the bytes sums the payload. -/
theorem xorPayload_imu (m : ImuMessage) : xorPayload m.bytes = xorSum m.payload := by
  have hinit : m.bytes.take (m.bytes.length - 1) = [m.header1, m.header2] ++ m.payload := by
    have hlen : m.bytes.length - 1 = ([m.header1, m.header2] ++ m.payload).length := by
      unfold ImuMessage.bytes
      rw [List.length_append, List.length_singleton, Nat.add_sub_cancel]
    rw [hlen]
    exact List.take_left
  unfold xorPayload
  rw [hinit]
  rfl

/-- The test of the receivers: `chk == msg.checksum`. -/
def imuChecksumOk (p : List UInt8) : Bool := xorPayload p == (ImuMessage.ofBytes p).checksum

/-- The framing of the latency test: `0xAA 0x55`, then up to the size of the struct. -/
def imuFormat : Format UInt8 where
  sync₀ := 0xAA
  sync₁ := 0x55
  size := imuMessageSize
  sync_ne := chordFormat.sync_ne
  two_lt_size := Nat.le_of_ble_eq_true rfl

/-- A message with the right preamble and checksum. -/
structure ImuMessage.Valid (m : ImuMessage) : Prop where
  header1 : m.header1 = 0xAA
  header2 : m.header2 = 0x55
  checksum : xorPayload m.bytes = m.checksum

theorem ImuMessage.Valid.isFrame {m : ImuMessage} (h : m.Valid) : imuFormat.IsFrame m.bytes := by
  refine ⟨m.length_bytes, ⟨m.payload ++ [m.checksum], ?_⟩⟩
  show [0xAA, 0x55] ++ (m.payload ++ [m.checksum]) = m.bytes
  rw [← h.header1, ← h.header2]
  rfl

theorem ImuMessage.Valid.checksumOk {m : ImuMessage} (h : m.Valid) : imuChecksumOk m.bytes = true := by
  rw [imuChecksumOk, ImuMessage.ofBytes_bytes, beq_iff_eq]
  exact h.checksum

end GuitarraMidi
