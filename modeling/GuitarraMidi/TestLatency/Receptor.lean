import GuitarraMidi.Wire.ImuMessage

/-!
# `TestLatency.Receptor` — the receptor, from ESP-NOW to the UART of the EDU-CIAA

`receptor.ino` of `test_latency_buttons_esp32_emisora`: the callback copies a packet of the right length over `lastMsg`,
and `loop` takes a copy with interrupts off, checks first the checksum and then the header, and writes the packet to
`CIAA` as it is. The line about a packet that has been written, and the pause after it, are left out.
-/

namespace GuitarraMidi.TestLatency.Receptor

/-- The globals `hasMsg` and `lastMsg`. -/
structure Globals where
  hasMsg : Bool
  lastMsg : ImuMessage
deriving DecidableEq

/-- The globals at power-on. -/
def start : Globals := ⟨false, default⟩

inductive Output
  | serial (line : String)
  | ciaa (bytes : List UInt8)
deriving DecidableEq

/-- `OnDataRecv`. -/
def onDataRecv (s : Globals) (data : List UInt8) : Globals :=
  if data.length ≠ imuMessageSize then s else { s with lastMsg := .ofBytes data, hasMsg := true }

/-- `loop`. -/
def loop (s : Globals) : Globals × List Output :=
  if !s.hasMsg then (s, [])
  else
    -- the copy made with interrupts off
    let msg := s.lastMsg
    let s := { s with hasMsg := false }
    if xorPayload msg.bytes != msg.checksum then
      (s, [.serial "[ERROR] Checksum inválido, paquete descartado"])
    else if msg.header1 != 0xAA || msg.header2 != 0x55 then
      (s, [.serial "[ERROR] Header inválido, paquete descartado"])
    else (s, [.ciaa msg.bytes])

/-- What an output puts on the UART of the EDU-CIAA. -/
def Output.ciaa? : Output → Option (List UInt8)
  | .serial _ => none
  | .ciaa bytes => some bytes

/-- The packet waiting in `lastMsg`, if one is. -/
def Globals.slot (s : Globals) : Option ImuMessage := if s.hasMsg then some s.lastMsg else none

theorem slot_onDataRecv (s : Globals) (m : ImuMessage) : (onDataRecv s m.bytes).slot = some m := by
  unfold onDataRecv
  rw [if_neg (not_not_intro m.length_bytes), ImuMessage.ofBytes_bytes]
  rfl

theorem slot_loop (s : Globals) : (loop s).1.slot = none := by
  unfold loop
  cases hmsg : s.hasMsg with
  | false =>
      show Globals.slot s = none
      unfold Globals.slot
      rw [hmsg]
      rfl
  | true =>
      dsimp only
      rw [Bool.not_true, if_neg Bool.false_ne_true]
      split
      · rfl
      · split
        · rfl
        · rfl

/-- A valid packet is written as it is. -/
theorem loop_valid {s : Globals} (h : ∀ m ∈ s.slot, m.Valid) :
    (loop s).2.filterMap Output.ciaa? = s.slot.toList.map ImuMessage.bytes := by
  unfold Globals.slot at h ⊢
  unfold loop
  cases hmsg : s.hasMsg with
  | false => rfl
  | true =>
      rw [hmsg] at h
      have hvalid : s.lastMsg.Valid := h s.lastMsg rfl
      have hchecksum : (xorPayload s.lastMsg.bytes != s.lastMsg.checksum) = false := by
        rw [hvalid.checksum, bne_self_eq_false]
      have hheader : (s.lastMsg.header1 != 0xAA || s.lastMsg.header2 != 0x55) = false := by
        rw [hvalid.header1, hvalid.header2]
        rfl
      dsimp only
      rw [Bool.not_true, if_neg Bool.false_ne_true, hchecksum, if_neg Bool.false_ne_true, hheader,
        if_neg Bool.false_ne_true]
      rfl

end GuitarraMidi.TestLatency.Receptor
