import GuitarraMidi.TestLatency.MainLoop
import GuitarraMidi.Wire.ImuMessage

/-!
# `TestLatency.Program` — `main` with its bytes and its floats

`TestLatency.MainLoop` takes the passes of the outer loop of `main` with the packets decoded in them and with numbers
for `gz`. Here is what stands below that: the receive loop, which reads `UART_232` one byte at a time into a buffer of
the size of an `IMUMessage`, and the two functions that look at `gz`, which compute in `float`.

`Float32.Model` is the logical model of that type. What a `float` becomes that is converted to an `int` and does not fit
is left open by C: `velocityWith` takes the conversion as an argument, and `velocityFromGz` is the function as it is
compiled for the board, with the instruction of the Cortex-M4F (`vcvt`), which saturates. The lines with the chord that
are written to `UART_USB` are left out; the message about a wrong checksum is not, for `main` keeps the time of the last
one.
-/

namespace GuitarraMidi.TestLatency.Program

open EduCiaa EduCiaa.ChordQuality Framing Transducer

/-- A `float` given by the word that holds it. -/
def float (w : UInt32) : Float32.Model := Float32.Model.ofBits w

/-- `TH`, `350.0f`. -/
def th : Float32.Model := float 0x43AF0000

/-- `detectStrum`. -/
def detectStrum (d : Detector) (gz : Float32.Model) (now_ms : UInt32) : Detector × Bool :=
  let nowAbove := decide (th < gz)
  if !d.above && nowAbove && (now_ms - d.lastStrumMs) > strumCooldown then
    (⟨now_ms, nowAbove⟩, true)
  else (⟨d.lastStrumMs, nowAbove⟩, false)

/-- `velocityFromGz`, with `40.0f` and `0.25f`, where `toInt` is the conversion `(int)`. -/
def velocityWith (toInt : Float32.Model → Int32) (gz : Float32.Model) : UInt8 :=
  let a := gz.abs
  let v := toInt (float 0x42200000 + a * float 0x3E800000)
  let v := if v < 20 then 20 else v
  let v := if v > 127 then 127 else v
  v.toUInt32.toUInt8

/-- The conversion as the Cortex-M4F does it, with its instruction `VCVT`: the fraction is cut off, a number that is too
    large for an `int`, or too small, becomes the last one there is, and what is no number becomes 0. -/
def vcvt (x : Float32.Model) : Int32 := x.toInt32

/-- `velocityFromGz` on the board. -/
def velocityFromGz (gz : Float32.Model) : UInt8 := velocityWith vcvt gz

/-- What a byte can lead to. -/
inductive RxEvent
  | checksumError
  | packet (msg : ImuMessage)
deriving DecidableEq

/-- The test of a complete packet. -/
def judge (p : List UInt8) : RxEvent :=
  if !imuChecksumOk p then .checksumError else .packet (.ofBytes p)

/-- The variables of the receive loop: `p`, `idx`, `synced` and `gotAA`. -/
abbrev Rx := Buffer UInt8 imuFormat.size

/-- One byte from `UART_232`. -/
def rxByte (s : Rx) (byte : UInt8) : Rx × List RxEvent := imuFormat.receive judge s byte

/-- The variables of `main` and the `static` ones of the functions it calls. -/
structure State where
  rx : Rx
  lastCkErrMs : UInt32
  main : Main

/-- The variables as the loop finds them; `p` and `q` are what memory held before. -/
def start (p : Vector UInt8 imuFormat.size) (q : Queue) : State := ⟨Buffer.start p, 0, mainStart q⟩

/-- A line on `UART_USB`, and the rest. -/
inductive Output
  | usb (line : String)
  | main (o : MainOutput)

/-- What `main` does with a valid packet. -/
def handlePacket (now : UInt32) (s : Main) (msg : ImuMessage) : Main × List MainOutput :=
  let b := obtenerValorBotones msg.botones
  let currentChord := getChordFromButtons b
  if currentChord.tipo ≠ chordNone then
    let (det, event) := detectStrum s.det (float msg.gz) now
    if event then
      let vel := velocityFromGz (float msg.gz)
      let strum := strumChord s.q (some currentChord) vel now
      (⟨det, strum.1⟩, .strum currentChord vel now :: strum.2.map .sched)
    else (⟨det, s.q⟩, [])
  else (s, [])

/-- What `main` does with a packet once it is judged. -/
def handleEvent (now : UInt32) (s : State) : RxEvent → State × List Output
  | .checksumError =>
      if now - s.lastCkErrMs > 200 then
        ({ s with lastCkErrMs := now }, [.usb "[ERROR] Checksum invalido\r\n"])
      else (s, [])
  | .packet msg =>
      let (main, out) := handlePacket now s.main msg
      ({ s with main := main }, out.map .main)

/-- The body of `while (uartReadByte(UART_232, &byte))`. -/
def mainByte (now : UInt32) (s : State) (byte : UInt8) : State × List Output :=
  let (rx, events) := rxByte s.rx byte
  blockStep (handleEvent now) { s with rx := rx } events

/-- The body of `while (true)`, in a pass that reads the time `now` and drains `bytes`. -/
def mainPass (s : State) (pass : UInt32 × List UInt8) : State × List Output :=
  let (q, sent) := schedCall s.main.q (.process pass.1)
  let drained := blockStep (mainByte pass.1) { s with main := ⟨s.main.det, q⟩ } pass.2
  (drained.1, sent.map (fun o => .main (.sched o)) ++ drained.2)

/-- The outputs of the packet-level loop among those of `main`. -/
def Output.main? : Output → Option MainOutput
  | .usb _ => none
  | .main o => some o

end GuitarraMidi.TestLatency.Program
