import GuitarraMidi.EduCiaa.Player
import GuitarraMidi.EduCiaa.Receiver
import GuitarraMidi.EduCiaa.Scheduler

/-!
# `EduCiaa.MainLoop` — the outer loop of `main`

Each pass of `while (true)` reads the tick counter once, runs `midiSchedProcess`, and drains the UART:
whatever bytes are there are read one by one, and a complete packet is processed before the next byte is
read, with the time read at the top of the pass. A run of the program is the list of its passes, each with
its tick reading and the bytes it drains.

`main` writes lines to `UART_USB` and MIDI messages to the SDI bus.
-/

namespace GuitarraMidi.EduCiaa

open Transducer

inductive MainOutput
  | usb (line : String)
  | sdi (w : SdiWrite)
deriving DecidableEq, Repr

/-- The variables of `main`, the `static` variable of `strumChord`, and the queue of the scheduler. -/
structure Main where
  rx : Rx
  lastCkErrMs : UInt32
  prev : Option ButtonChord
  q : Queue

/-- `setupVS1053`, from the point where the plugin runs: the messages that set up the instrument, and the
    queue initialised. -/
def setupVS1053 (q : Queue) : Queue × List SdiWrite :=
  (midiSchedInit q,
    midiControlChange 0 0 0 ++ midiControlChange 0 32 0 ++ midiProgramChange 0 25
      ++ midiControlChange 0 7 127 ++ midiControlChange 0 11 127 ++ midiControlChange 0 64 127)

/-- The variables as the loop finds them; `p` and `q` are what memory held before. -/
def mainStart (p : Vector UInt8 8) (q : Queue) : Main where
  rx := Rx.start p
  lastCkErrMs := 0
  prev := none
  q := (setupVS1053 q).1

/-- The line of `snprintf(dbg, ..)`. -/
def dbg (b : UInt8) (chord : ButtonChord) (msg : ChordMessage) : String :=
  "b=" ++ toString b ++ " -> " ++ chord.nombre ++ " (root=" ++ toString chord.root ++ " tipo="
    ++ toString chord.tipo.code ++ ") vel=" ++ toString msg.velocity ++ "\r\n"

/-- What `main` does with a packet once it is judged. -/
def handleEvent (now : UInt32) (s : Main) : RxEvent → Main × List MainOutput
  | .checksumError =>
      -- at most one message every 200 ms
      if now - s.lastCkErrMs > 200 then
        ({ s with lastCkErrMs := now }, [.usb "[ERROR] Checksum invalido\r\n"])
      else (s, [])
  | .packet msg =>
      let b := obtenerValorBotones msg.botones
      let chord := getChordFromButtons b
      if chord.tipo ≠ .chordNone then
        let strum := strumChord s.prev (some chord) msg.velocity now
        ({ s with prev := strum.1 },
          .usb (dbg b chord msg) :: .usb (debugPrintChord (some chord)) :: strum.2.map .sdi)
      else (s, [.usb (dbg b chord msg)])

/-- The body of `while (uartReadByte(UART_232, &byte))`. -/
def mainByte (now : UInt32) (s : Main) (byte : UInt8) : Main × List MainOutput :=
  let (rx, events) := rxByte s.rx byte
  blockStep (handleEvent now) { s with rx := rx } events

/-- The body of `while (true)`, in a pass that reads the time `now` and drains `bytes`. -/
def mainPass (s : Main) (pass : UInt32 × List UInt8) : Main × List MainOutput :=
  let (q, sent) := midiSchedProcess pass.1 s.q
  let drained := blockStep (mainByte pass.1) { s with q := q } pass.2
  (drained.1, sent.map .sdi ++ drained.2)

/-- What an output puts on the SDI bus. -/
def MainOutput.sdi? : MainOutput → Option SdiWrite
  | .usb _ => none
  | .sdi w => some w

/-- The SDI writes among the outputs of `main`. -/
def sdiWrites (out : List MainOutput) : List SdiWrite := out.filterMap MainOutput.sdi?

theorem sdiWrites_append (out out' : List MainOutput) :
    sdiWrites (out ++ out') = sdiWrites out ++ sdiWrites out' := List.filterMap_append

@[simp] theorem sdiWrites_usb (line : String) (out : List MainOutput) :
    sdiWrites (.usb line :: out) = sdiWrites out := rfl

@[simp] theorem sdiWrites_map_sdi (writes : List SdiWrite) : sdiWrites (writes.map .sdi) = writes := by
  unfold sdiWrites
  rw [List.filterMap_map]
  exact List.filterMap_some

end GuitarraMidi.EduCiaa
