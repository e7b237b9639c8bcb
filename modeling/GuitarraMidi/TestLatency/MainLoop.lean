import GuitarraMidi.TestLatency.Player
import Mathlib.Data.Rat.Floor

/-!
# `TestLatency.MainLoop` — the outer loop of `main`

`main.c` of `test_latency_buttons_esp32_emisora`. Each pass of `while (true)` reads the tick counter, runs
`midiSchedProcess` and processes the packets it finds, all with that reading. A packet selects a chord, and
plays it if `gz` shows a strum: a rise over a threshold, not too soon after the last (`detectStrum`).

A pass is given with its tick reading and the packets decoded in it. `gz` is a `float` in the program and a
rational number here; the lines written to `UART_USB` are left out.
-/

namespace GuitarraMidi.TestLatency

open EduCiaa EduCiaa.ChordQuality Transducer

/-- What the program uses of an `IMUMessage`. -/
structure Packet where
  botones : Vector UInt8 4
  gz : ℚ
deriving DecidableEq

/-- The `static` variables of `detectStrum`. -/
structure Detector where
  lastStrumMs : UInt32
  above : Bool
deriving DecidableEq, Repr

def Detector.start : Detector := ⟨0, false⟩

/-- `TH`. -/
def strumTh : ℚ := 350

/-- `COOLDOWN`. -/
def strumCooldown : UInt32 := 100

/-- `detectStrum`. -/
def detectStrum (d : Detector) (gz : ℚ) (now_ms : UInt32) : Detector × Bool :=
  let nowAbove : Bool := gz > strumTh
  if !d.above && nowAbove && (now_ms - d.lastStrumMs) > strumCooldown then
    (⟨now_ms, nowAbove⟩, true)
  else (⟨d.lastStrumMs, nowAbove⟩, false)

/-- When `detectStrum` shows a strum. -/
def isStrum (d : Detector) (gz : ℚ) (now_ms : UInt32) : Bool :=
  !d.above && decide (gz > strumTh) && decide (now_ms - d.lastStrumMs > strumCooldown)

theorem detectStrum_eq (d : Detector) (gz : ℚ) (now_ms : UInt32) :
    detectStrum d gz now_ms
      = (⟨if isStrum d gz now_ms then now_ms else d.lastStrumMs, decide (gz > strumTh)⟩, isStrum d gz now_ms) := by
  have hcase : detectStrum d gz now_ms = if isStrum d gz now_ms = true then
      (⟨now_ms, decide (gz > strumTh)⟩, true) else (⟨d.lastStrumMs, decide (gz > strumTh)⟩, false) := rfl
  rw [hcase]
  cases isStrum d gz now_ms <;> rfl

/-- `velocityFromGz`, computed without rounding. -/
def velocityFromGz (gz : ℚ) : UInt8 :=
  let a := if gz < 0 then -gz else gz
  let v := (40 + a * (1 / 4)).floor
  let v := if v < 20 then 20 else v
  let v := if v > 127 then 127 else v
  UInt8.ofNat v.toNat

/-- The variables of the loop and of the functions it calls. -/
structure Main where
  det : Detector
  q : Queue

/-- The variables as the loop finds them; `q` is what memory held before. -/
def mainStart (q : Queue) : Main := ⟨Detector.start, midiSchedInit q⟩

/-- A call to `strumChord`, and what the scheduler answers and writes. -/
inductive MainOutput
  | strum (chord : ButtonChord) (velocity : UInt8) (now_ms : UInt32)
  | sched (o : SchedOutput)
deriving DecidableEq

/-- What `main` does with a valid packet. -/
def handlePacket (now : UInt32) (s : Main) (msg : Packet) : Main × List MainOutput :=
  let b := obtenerValorBotones msg.botones
  let currentChord := getChordFromButtons b
  if currentChord.tipo ≠ chordNone then
    let (det, event) := detectStrum s.det msg.gz now
    if event then
      let vel := velocityFromGz msg.gz
      let strum := strumChord s.q (some currentChord) vel now
      (⟨det, strum.1⟩, .strum currentChord vel now :: strum.2.map .sched)
    else (⟨det, s.q⟩, [])
  -- without a chord the detector does not see the packet
  else (s, [])

/-- The body of `while (true)`, in a pass that reads the time `now` and decodes `packets`. -/
def mainPass (s : Main) (pass : UInt32 × List Packet) : Main × List MainOutput :=
  let (q, sent) := schedCall s.q (.process pass.1)
  let drained := blockStep (handlePacket pass.1) ⟨s.det, q⟩ pass.2
  (drained.1, sent.map .sched ++ drained.2)

/-- The outputs of the scheduler among those of `main`. -/
def MainOutput.sched? : MainOutput → Option SchedOutput
  | .strum _ _ _ => none
  | .sched o => some o

/-- The calls to `strumChord` among the outputs of `main`. -/
def MainOutput.strum? : MainOutput → Option (ButtonChord × UInt8 × UInt32)
  | .strum chord velocity now_ms => some (chord, velocity, now_ms)
  | .sched _ => none

/-- What `main` writes on the SDI bus. -/
def sdiWritesOf (out : List MainOutput) : List SdiWrite :=
  (out.filterMap MainOutput.sched?).filterMap SchedOutput.sdi?

end GuitarraMidi.TestLatency
