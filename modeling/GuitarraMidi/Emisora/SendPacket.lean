import GuitarraMidi.Wire.ChordMessage

/-!
# `Emisora.SendPacket` — the packets the emisora builds

`sendPacket` fills the global `msg` and hands it to `esp_now_send`. Nothing of the old content of `msg`
survives (`sendPacket_old`), so a packet is fixed by its mask and velocity.

The emisora itself only ever sends masks of four bits and two velocities: `EmisoraFrame` is that range,
carried as a structure. What the recovery results of the receiver rest on is how narrow it is. Up to the
lowest bit of each byte a frame is `AA 54 00 00 00 00 v v` (`EmisoraFrame.bytes_even`), so no byte after
the first is `0xAA` and no byte after the second is `0x55`.
-/

namespace GuitarraMidi.Emisora

open XorSum

/-- `VEL_NORMAL`. -/
def velNormal : UInt8 := 80

/-- `VEL_FUERTE`. -/
def velFuerte : UInt8 := 120

/-- `(chordMask & (1 << i)) ? 1 : 0`. -/
def boton (chordMask i : UInt8) : UInt8 := if chordMask &&& (1 <<< i) ≠ 0 then 1 else 0

/-- `sendPacket`: the packet given to `esp_now_send`, which is also the new content of the global `msg`. -/
def sendPacket (msg : ChordMessage) (chordMask velocity : UInt8) : ChordMessage :=
  let msg : ChordMessage :=
    { msg with
      header1 := 0xAA
      header2 := 0x55
      botones := #v[boton chordMask 0, boton chordMask 1, boton chordMask 2, boton chordMask 3]
      velocity := velocity }
  { msg with checksum := xorPayload msg.bytes }

/-- The old content of `msg` does not matter. -/
theorem sendPacket_old (m m' : ChordMessage) (chordMask velocity : UInt8) :
    sendPacket m chordMask velocity = sendPacket m' chordMask velocity := rfl

/-- **What `sendPacket` builds passes every check the receivers make.** -/
theorem sendPacket_valid (msg : ChordMessage) (chordMask velocity : UInt8) :
    (sendPacket msg chordMask velocity).Valid where
  header1 := rfl
  header2 := rfl
  checksum := rfl

@[simp] theorem sendPacket_velocity (msg : ChordMessage) (chordMask velocity : UInt8) :
    (sendPacket msg chordMask velocity).velocity = velocity := rfl

@[simp] theorem sendPacket_botones (msg : ChordMessage) (chordMask velocity : UInt8) :
    (sendPacket msg chordMask velocity).botones
      = #v[boton chordMask 0, boton chordMask 1, boton chordMask 2, boton chordMask 3] := rfl

theorem boton_and_fe (chordMask i : UInt8) : boton chordMask i &&& 0xFE = 0 := by
  unfold boton
  split <;> rfl

/-! ## The frames the emisora really sends -/

/-- A mask of four bits and one of the two velocities. -/
structure EmisoraFrame where
  mask : UInt8
  velocity : UInt8
  mask_lt : mask < 16
  velocity_mem : velocity = velNormal ∨ velocity = velFuerte

namespace EmisoraFrame

/-- The packet `sendPacket` builds. -/
def msg (e : EmisoraFrame) : ChordMessage := sendPacket default e.mask e.velocity

/-- The eight bytes on the wire. -/
def bytes (e : EmisoraFrame) : List UInt8 := e.msg.bytes

/-- Frames sent back to back. -/
def stream (F : List EmisoraFrame) : List UInt8 := F.flatMap bytes

@[simp] theorem length_bytes (e : EmisoraFrame) : e.bytes.length = chordMessageSize := rfl

theorem msg_valid (e : EmisoraFrame) : e.msg.Valid := sendPacket_valid _ _ _

theorem isFrame (e : EmisoraFrame) : chordFormat.IsFrame e.bytes := e.msg_valid.isFrame

theorem checksumOk_bytes (e : EmisoraFrame) : checksumOk e.bytes = true := e.msg_valid.checksumOk

theorem ofBytes_bytes (e : EmisoraFrame) : ChordMessage.ofBytes e.bytes = e.msg :=
  ChordMessage.ofBytes_bytes e.msg

/-- **A frame up to the lowest bit of each byte.** -/
theorem bytes_even (e : EmisoraFrame) :
    e.bytes.map (· &&& 0xFE) = [0xAA, 0x54, 0, 0, 0, 0, e.velocity, e.velocity] := by
  have hvel : e.velocity &&& 0xFE = e.velocity := by
    rcases e.velocity_mem with h | h <;> rw [h] <;> rfl
  have hsum : xorPayload e.bytes &&& 0xFE = e.velocity := by
    show xorSum [boton e.mask 0, boton e.mask 1, boton e.mask 2, boton e.mask 3, e.velocity] &&& 0xFE = _
    rw [← xorSum_map_and]
    simp only [List.map_cons, List.map_nil, boton_and_fe, hvel, xorSum_cons, xorSum_nil,
      UInt8.zero_xor, UInt8.xor_zero]
  have hbytes : e.bytes = [0xAA, 0x55, boton e.mask 0, boton e.mask 1, boton e.mask 2, boton e.mask 3,
      e.velocity, xorPayload e.bytes] := rfl
  rw [hbytes]
  simp only [List.map_cons, List.map_nil, boton_and_fe, hvel, hsum]
  rfl

/-- What follows the preamble: buttons, velocity and checksum. -/
def body (e : EmisoraFrame) : List UInt8 := e.bytes.drop 2

@[simp] theorem length_body (e : EmisoraFrame) : e.body.length = 6 := rfl

theorem xorSum_body (e : EmisoraFrame) : xorSum e.body = 0 :=
  (checksumOk_iff e.length_bytes).mp e.checksumOk_bytes

/-- A byte of the body is `0`, `80` or `120` up to its lowest bit. -/
theorem even_of_mem_body {e : EmisoraFrame} {b : UInt8} (hb : b ∈ e.body) :
    b &&& 0xFE = 0 ∨ b &&& 0xFE = velNormal ∨ b &&& 0xFE = velFuerte := by
  have heven : b &&& 0xFE ∈ (e.bytes.map (· &&& 0xFE)).drop 2 := by
    rw [← List.map_drop]
    exact List.mem_map_of_mem hb
  rw [bytes_even] at heven
  have hcases : b &&& 0xFE = 0 ∨ b &&& 0xFE = e.velocity := by
    simpa using heven
  rcases hcases with h | h
  · exact Or.inl h
  · rw [h]; exact Or.inr e.velocity_mem

/-- No byte of the body is `0xAA`. -/
theorem sync₀_not_mem_body (e : EmisoraFrame) : 0xAA ∉ e.body := by
  intro hmem
  have h := even_of_mem_body hmem
  revert h
  decide

/-- No byte of the body is `0x55`. -/
theorem sync₁_not_mem_body (e : EmisoraFrame) : 0x55 ∉ e.body := by
  intro hmem
  have h := even_of_mem_body hmem
  revert h
  decide

/-- No byte after the first is `0xAA`. -/
theorem sync₀_not_mem_tail (e : EmisoraFrame) : 0xAA ∉ e.bytes.drop 1 := by
  intro hmem
  rcases List.mem_cons.mp (show (0xAA : UInt8) ∈ 0x55 :: e.body from hmem) with h | h
  · exact absurd h (by decide)
  · exact e.sync₀_not_mem_body h

/-! ### Streams of frames -/

@[simp] theorem stream_nil : stream [] = [] := rfl

@[simp] theorem stream_cons (e : EmisoraFrame) (F : List EmisoraFrame) :
    stream (e :: F) = e.bytes ++ stream F := rfl

theorem stream_append (F G : List EmisoraFrame) : stream (F ++ G) = stream F ++ stream G :=
  List.flatMap_append

theorem length_stream (F : List EmisoraFrame) : (stream F).length = chordMessageSize * F.length := by
  induction F with
  | nil => rfl
  | cons e F ih =>
      rw [stream_cons, List.length_append, ih, length_bytes, List.length_cons, Nat.mul_succ, Nat.add_comm]

/-- The parser takes the frames at the head of a stream off one by one. -/
theorem parse_stream_append (F : List EmisoraFrame) (rest : List UInt8) :
    chordFormat.parse (stream F ++ rest) = F.map bytes ++ chordFormat.parse rest := by
  unfold stream
  rw [List.flatMap_def]
  refine Framing.Format.parse_frames ?_ rest
  intro f hf
  obtain ⟨e, -, rfl⟩ := List.mem_map.mp hf
  exact e.isFrame

theorem parse_stream (F : List EmisoraFrame) : chordFormat.parse (stream F) = F.map bytes := by
  have h := parse_stream_append F []
  rwa [Framing.Format.parse_nil, List.append_nil, List.append_nil] at h

/-- The end of a frame cut anywhere after its first byte is skipped. -/
theorem parse_tail (e : EmisoraFrame) {k : Nat} (hk : 1 ≤ k) (rest : List UInt8) :
    chordFormat.parse (e.bytes.drop k ++ rest) = chordFormat.parse rest := by
  apply Framing.Format.parse_without_sync
  intro hmem
  refine e.sync₀_not_mem_tail ?_
  exact List.mem_of_mem_drop (i := k - 1) (by rw [List.drop_drop, Nat.add_sub_cancel' hk]; exact hmem)

/-- A `0xAA` before the end of a frame cut inside its body is skipped with it. -/
theorem parse_lone_sync (e : EmisoraFrame) {k : Nat} (hk : 2 ≤ k) (hk' : k < chordMessageSize)
    (rest : List UInt8) : chordFormat.parse (0xAA :: (e.bytes.drop k ++ rest)) = chordFormat.parse rest := by
  have hcons : e.bytes.drop k = e.bytes[k] :: e.bytes.drop (k + 1) := List.drop_eq_getElem_cons hk'
  have hmem : e.bytes[k] ∈ e.body := by
    refine List.mem_of_mem_drop (i := k - 2) ?_
    rw [body, List.drop_drop, Nat.add_sub_cancel' hk, hcons]
    exact List.mem_cons_self
  have hne : e.bytes[k] ≠ chordFormat.sync₁ := by
    intro h
    rw [h] at hmem
    exact e.sync₁_not_mem_body hmem
  have hskip : chordFormat.parse (0xAA :: (e.bytes.drop k ++ rest))
      = chordFormat.parse (e.bytes.drop k ++ rest) := by
    rw [hcons, List.cons_append]
    exact Framing.Format.parse_false_start hne _
  rw [hskip, e.parse_tail (Nat.le_of_lt hk)]

/-- The packets of a list of frames are their messages. -/
theorem packets_map_bytes (F : List EmisoraFrame) : packets (F.map bytes) = F.map msg := by
  have hvalid : ∀ m ∈ F.map msg, m.Valid := by
    intro m hm
    obtain ⟨e, -, rfl⟩ := List.mem_map.mp hm
    exact e.msg_valid
  rw [← GuitarraMidi.packets_map_bytes hvalid, List.map_map]
  rfl

end EmisoraFrame

end GuitarraMidi.Emisora
