import GuitarraMidi.TestLatency.MainLoop

/-!
# `TestLatency.Emisor` — the pulse a strum is sent as

`emisor.ino` of `test_latency_buttons_esp32_emisora` sends each strum as two packets, a peak of `gz` and a return to
rest. Of an `IMUMessage` only what the EDU-CIAA uses is modelled.
-/

namespace GuitarraMidi.TestLatency

open EduCiaa

/-- `(mask & (1 << i)) ? 1 : 0`. -/
def botonOf (mask : UInt8) (i : UInt8) : UInt8 := if mask &&& ((1 : UInt8) <<< i) ≠ 0 then 1 else 0

/-- `sendPacket`: `B0` takes no part in the chord. -/
def sendPacket (mask : UInt8) (gz : ℚ) : Packet := ⟨#v[0, botonOf mask 1, botonOf mask 2, botonOf mask 3], gz⟩

/-- A strum of the emisor: the buttons, and the tick readings at which its two packets are processed when they
    arrive. -/
structure Pulse where
  mask : UInt8
  peakAt : UInt32
  restAt : UInt32

/-- The packet `sendPacket(maskNow, 500.0f)`, with its reading. -/
def Pulse.peak (p : Pulse) : UInt32 × Packet := (p.peakAt, sendPacket p.mask 500)

/-- The packet `sendPacket(maskNow, 0.0f)`, with its reading. -/
def Pulse.rest (p : Pulse) : UInt32 × Packet := (p.restAt, sendPacket p.mask 0)

/-- The packets of a strum. -/
def Pulse.packets (p : Pulse) : List (UInt32 × Packet) := [p.peak, p.rest]

/-- The chord of a strum. -/
def Pulse.chord (p : Pulse) : ButtonChord := getChordFromButtons (obtenerValorBotones (sendPacket p.mask 500).botones)

end GuitarraMidi.TestLatency
