import GuitarraMidi.EduCiaa.Player
import GuitarraMidi.Lib.Blocks
import GuitarraMidi.TestLatency.Player

/-!
# `UartChords.Program` — `testing_uart_chords`

An earlier program of the EDU-CIAA, which plays the chord of the buttons as long as they are held: it stops the one
before and starts the new one when the chord changes. Its messages have no preamble and no checksum; `main` fills a
struct of 28 bytes and takes it for a message whenever it is full.

The chord table is that of `test_latency_buttons_esp32_emisora`, and `buildTriad`, `playChord` and `stopChord` are those
of the final program at the velocity 100. What is written to `UART_USB` is left out, and the calls of the driver that
`setup` makes before its MIDI message. Chords are compared by their address, so `lastChord` is a place in the table here.
-/

namespace GuitarraMidi.UartChords

open EduCiaa EduCiaa.ChordQuality Blocks Transducer

/-- `sizeof(IMUMessage)`: six floats and the buttons. -/
def imuMessageSize : Nat := 28

/-- `MIDI_VELOCITY_ON`. -/
def midiVelocityOn : UInt8 := 100

/-- `msg.botones`. -/
def botones (msg : List UInt8) : Vector UInt8 4 := #v[msg.getD 24 0, msg.getD 25 0, msg.getD 26 0, msg.getD 27 0]

/-- The place of `getChordFromButtons(b)` in the table. -/
def chordIndex (b : UInt8) : Fin 16 := ⟨(b &&& 0x0F).toNat, and_0F_lt b⟩

/-- The chord at a place of the table. -/
def chordAt (i : Fin 16) : ButtonChord := TestLatency.buttonChordMap.get i

/-- `playChord`. -/
def playChord (chord : ButtonChord) : List SdiWrite := EduCiaa.playChord (some chord) midiVelocityOn

/-- `stopChord`. -/
def stopChord (chord : ButtonChord) : List SdiWrite := EduCiaa.stopChord (some chord)

/-- `if (lastChord && lastChord->tipo != CHORD_NONE) stopChord(lastChord)`. -/
def stopLast : Option (Fin 16) → List SdiWrite
  | none => []
  | some last => if (chordAt last).tipo ≠ chordNone then stopChord (chordAt last) else []

/-- What `setup` writes, which comes before the loop. -/
def setup : List SdiWrite := midiProgramChange 0 1

/-- The variables of `main`. -/
structure State where
  rx : Filler UInt8 imuMessageSize
  lastChord : Option (Fin 16)

/-- The variables as the loop finds them; `p` is what memory held before. -/
def start (p : Vector UInt8 imuMessageSize) : State := ⟨.start p, none⟩

/-- What `main` does with a complete message. -/
def handleMessage (lastChord : Option (Fin 16)) (msg : List UInt8) : Option (Fin 16) × List SdiWrite :=
  let chord := chordIndex (obtenerValorBotones (botones msg))
  if some chord ≠ lastChord then
    let played := if (chordAt chord).tipo ≠ chordNone then playChord (chordAt chord) else []
    (some chord, stopLast lastChord ++ played)
  else (lastChord, [])

/-- The body of `if (uartReadByte(UART_232, &byte))`. -/
def mainByte (s : State) (byte : UInt8) : State × List SdiWrite :=
  let (rx, msgs) := s.rx.fill byte
  let (lastChord, out) := blockStep handleMessage s.lastChord msgs
  (⟨rx, lastChord⟩, out)

end GuitarraMidi.UartChords
