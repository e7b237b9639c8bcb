import GuitarraMidi.Lib.Debounce
import GuitarraMidi.TestLatency.Emisor
import GuitarraMidi.Wire.ImuMessage

/-!
# `TestLatency.EmisorLoop` — the loop of the emisor

Each pass of `loop()` in `emisor.ino` of `test_latency_buttons_esp32_emisora` samples the three chord buttons and STRUM
through the same debounce, and sends the two packets of a strum when the debounced STRUM goes from `HIGH` to `LOW`. The
chord that is sent is not the debounced one: the three pins are read once more.

A pass is given with what it reads, `millis()` and the levels of the pins, `true` for `HIGH`. A debounced button has
three variables, which are those of a `Debouncer`. The lines written to `Serial` are left out, and so is the mask of
the debounced buttons, of which the program makes no use.
-/

namespace GuitarraMidi.TestLatency.Emisor

open Debounce XorSum

/-- `DEBOUNCE_MS`. -/
def debounceMs : UInt32 := 30

/-- `9.81f`. -/
def gravedad : UInt32 := 0x411CF5C3

/-- `500.0f`, the peak of a strum. -/
def gzPico : UInt32 := 0x43FA0000

/-- `0.0f`. -/
def cero : UInt32 := 0

/-- The global variables. -/
structure Globals where
  msg : ImuMessage
  /-- `lastStrumStable`, `lastStrumRead` and `lastStrumChange`. -/
  strum : Debouncer Bool
  /-- `lastStable`, `lastRead` and `lastChange`, for B1, B2 and B3. -/
  chord : Vector (Debouncer Bool) 3

/-- What a pass of `loop()` reads. -/
structure Reading where
  now : UInt32
  raw : Vector Bool 3
  rawStrum : Bool
  /-- The chord buttons once more, when STRUM has gone down. -/
  rawNow : Vector Bool 3

/-- The variables after `setup()`: each button with the level and the `millis()` it reads there. -/
def setup (strum : Bool × UInt32) (chord : Vector (Bool × UInt32) 3) : Globals where
  msg := default
  strum := .start strum.1 strum.2
  chord := chord.map (fun b => .start b.1 b.2)

/-- The message of a strum, up to its checksum. -/
def fillMsg (msg : ImuMessage) (mask : UInt8) (gz : UInt32) : ImuMessage :=
  { msg with
    header1 := 0xAA
    header2 := 0x55
    botones := #v[0, if mask &&& ((1 : UInt8) <<< 1) ≠ 0 then 1 else 0,
      if mask &&& ((1 : UInt8) <<< 2) ≠ 0 then 1 else 0, if mask &&& ((1 : UInt8) <<< 3) ≠ 0 then 1 else 0]
    ax := cero
    ay := cero
    az := gravedad
    gx := cero
    gy := cero
    gz := gz }

/-- `sendPacket`, with the packet that it hands to `esp_now_send`. -/
def sendPacket (msg : ImuMessage) (mask : UInt8) (gz : UInt32) : ImuMessage :=
  let msg := fillMsg msg mask gz
  { msg with checksum := xorPayload msg.bytes }

/-- The bit of a button that is pressed, which is active low. -/
def pressedBit (raw : Bool) (i : UInt8) : UInt8 := if raw == false then 1 <<< i else 0

/-- `maskNow`. -/
def maskNow (raw : Vector Bool 3) : UInt8 := pressedBit raw[0]! 1 ||| pressedBit raw[1]! 2 ||| pressedBit raw[2]! 3

/-- The body of `loop()`, with the packets that it sends. -/
def loop (s : Globals) (x : Reading) : Globals × List ImuMessage :=
  let chord := s.chord.zipWith (fun b raw => sample debounceMs b x.now raw) x.raw
  let leido := sense s.strum x.now x.rawStrum
  let strum := settle debounceMs leido x.now
  -- without a change of the stable level there is no edge
  if leido.stable == true && strum.stable == false then
    let peak := sendPacket s.msg (maskNow x.rawNow) gzPico
    let rest := sendPacket peak (maskNow x.rawNow) cero
    (⟨rest, strum, chord⟩, [peak, rest])
  else (⟨s.msg, strum, chord⟩, [])

/-! ## What is sent -/

variable (msg : ImuMessage) (mask : UInt8) (gz : UInt32)

theorem checksum_sendPacket : (sendPacket msg mask gz).checksum = xorSum (fillMsg msg mask gz).payload :=
  xorPayload_imu (fillMsg msg mask gz)

theorem valid_sendPacket : (sendPacket msg mask gz).Valid where
  header1 := rfl
  header2 := rfl
  checksum := by
    rw [xorPayload_imu, checksum_sendPacket]
    rfl

/-- Nothing of the last message is left in the next. -/
theorem sendPacket_eq (msg' : ImuMessage) : sendPacket msg mask gz = sendPacket msg' mask gz := by
  have hchecksum : (sendPacket msg mask gz).checksum = (sendPacket msg' mask gz).checksum := by
    rw [checksum_sendPacket, checksum_sendPacket]
    rfl
  unfold sendPacket at hchecksum ⊢
  rw [ImuMessage.mk.injEq]
  exact ⟨rfl, rfl, rfl, rfl, rfl, rfl, rfl, rfl, rfl, hchecksum⟩

end GuitarraMidi.TestLatency.Emisor
