import GuitarraMidi.Delay.Mensaje
import GuitarraMidi.Lib.Clock
import GuitarraMidi.Lib.Steps

/-!
# `Delay.System` — the delay test as a whole

The emisor of `src/esp32/delay` sends a message, waits up to 100 ms for the ACK and begins again after `delay(200)`.
Its `OnDataRecv` runs in another task, so each access to `t_send` and to `ack_received`, by the one or the other, is a
step, and so is each call of `millis()` whose reading is kept. Anything can happen between two steps.

ESP-NOW may lose a message or an ACK, in flight or where `esp_now_send` fails, and may deliver them in any order, but
delivers each at most once and as it was sent. An ACK does not say which message it answers; that number goes with it
here for the statements only, as do the lists at the end of the state.
-/

namespace GuitarraMidi.Delay

open Clock

/-- Where `loop()` is. -/
inductive Phase
  /-- in the `while(1)` of `setup()` -/
  | hung
  | top
  /-- `millis()` has been called, at `stamp`, and goes to `t_send` next -/
  | stamped (stamp : Nat) (x : Reading)
  /-- `t_send` is set -/
  | stored
  /-- `ack_received` is cleared -/
  | cleared
  /-- the message is sent -/
  | sent
  /-- in the loop that waits for the ACK, in `delay(1)` until `wake` -/
  | waiting (start : UInt32) (wake : Nat)
  /-- past that loop -/
  | done
  /-- in `delay(200)` until `wake` -/
  | pause (wake : Nat)

/-- Where `OnDataRecv` of the emisor is, with the number of the message whose ACK it has received. -/
inductive Callback
  | idle
  /-- `ack_received` is set -/
  | marked (idx : Nat)
  /-- `millis()` has been called, at `stamp` -/
  | timed (idx : Nat) (stamp : Nat)

/-- A line "Round-trip delay". -/
structure Report where
  idx : Nat
  /-- when `millis()` was called -/
  stamp : Nat
  /-- when `t_send` was read -/
  read : Nat
  roundTrip : UInt32
deriving DecidableEq, Repr

/-- A pass of `loop()` that has come to `delay(200)`. -/
structure Pass where
  idx : Nat
  ended : Nat
  /-- whether it has written "ACK no recibido" -/
  noRecibido : Bool
  /-- the ACKs for which `ack_received` was set since it was cleared, and when -/
  heard : List (Nat × Nat)
deriving DecidableEq, Repr

structure State where
  /-- true time, in milliseconds -/
  now : Nat
  phase : Phase
  callback : Callback
  mensaje : ImuMessage
  tSend : UInt32
  ackReceived : Bool
  air : List (Nat × List UInt8)
  acks : List (Nat × List UInt8)
  ledPins : Vector Bool 4
  /-- the passes, each with the time `t_send` stands for and what was read -/
  sent : List (Nat × Reading)
  /-- what the LEDs were set to, and for which message -/
  shown : List (Nat × Vector Bool 4)
  /-- as in `Pass`, for the pass that goes on -/
  heard : List (Nat × Nat)
  reports : List Report
  passes : List Pass

/-- Both sketches just started. The test of `mpu.begin()` is not negated: `setup()` hangs if it succeeds. -/
def start (mpuBegin : Bool) (ledPins : Vector Bool 4) : State where
  now := 0
  phase := if mpuBegin then .hung else .top
  callback := .idle
  mensaje := default
  tSend := 0
  ackReceived := false
  air := []
  acks := []
  ledPins := ledPins
  sent := []
  shown := []
  heard := []
  reports := []
  passes := []

inductive Act
  /-- `loop()` goes on; `x` is read only at its top -/
  | loop (x : Reading)
  /-- `OnDataRecv` of the emisor goes on -/
  | callback
  /-- the `k`-th message in flight reaches the receptor -/
  | toReceptor (k : Nat)
  /-- the `k`-th ACK in flight reaches the emisor -/
  | toEmisor (k : Nat)
  /-- the `k`-th message in flight is lost -/
  | dropMessage (k : Nat)
  /-- the `k`-th ACK in flight is lost -/
  | dropAck (k : Nat)

/-- `loop()` of the emisor, up to its next access. -/
def State.loop (s : State) (x : Reading) : Option State :=
  match s.phase with
  | .hung => none
  | .top => some { s with mensaje := leer x, phase := .stamped s.now x }
  | .stamped stamp x => some { s with tSend := tick stamp, sent := s.sent ++ [(stamp, x)], phase := .stored }
  | .stored => some { s with ackReceived := false, heard := [], phase := .cleared }
  | .cleared => some { s with air := s.air ++ [(s.sent.length - 1, s.mensaje.bytes)], phase := .sent }
  | .sent => some { s with phase := .waiting (tick s.now) s.now }
  | .waiting start wake =>
      if wake ≤ s.now then
        if !s.ackReceived && tick s.now - start < 100 then some { s with phase := .waiting start (s.now + 1) }
        else some { s with phase := .done }
      else none
  | .done => some { s with
      passes := s.passes ++ [⟨s.sent.length - 1, s.now, !s.ackReceived, s.heard⟩]
      phase := .pause (s.now + 200) }
  | .pause wake => if wake ≤ s.now then some { s with phase := .top } else none

/-- `OnDataRecv` of the emisor, after its first statement. -/
def State.goOn (s : State) : Option State :=
  match s.callback with
  | .idle => none
  | .marked idx => some { s with callback := .timed idx s.now }
  | .timed idx stamp => some { s with
      reports := s.reports ++ [⟨idx, stamp, s.now, tick stamp - s.tSend⟩]
      callback := .idle }

/-- `OnDataRecv` of the emisor, called with the ACK to a message. -/
def State.onAck (s : State) (idx : Nat) (data : List UInt8) : Option State :=
  match s.callback with
  | .idle =>
      if data.length > 0 then
        some { s with ackReceived := true, heard := s.heard ++ [(idx, s.now)], callback := .marked idx }
      else some s
  | _ => none

/-- `OnDataRecv` of the receptor, called with a message. -/
def State.onMessage (s : State) (idx : Nat) (data : List UInt8) : State :=
  match Receptor.onDataRecv s.ledPins data with
  | (ledPins, none) => { s with ledPins := ledPins }
  | (ledPins, some ack) => { s with
      ledPins := ledPins
      shown := s.shown ++ [(idx, ledPins)]
      acks := s.acks ++ [(idx, ack)] }

/-- What happens next, if it is possible. -/
def act (s : State) : Act → Option State
  | .loop x => s.loop x
  | .callback => s.goOn
  | .toReceptor k => (s.air[k]?).map (fun p => { s with air := s.air.eraseIdx k }.onMessage p.1 p.2)
  | .toEmisor k => (s.acks[k]?).bind (fun p => { s with acks := s.acks.eraseIdx k }.onAck p.1 p.2)
  | .dropMessage k => some { s with air := s.air.eraseIdx k }
  | .dropAck k => some { s with acks := s.acks.eraseIdx k }

/-- It happens at a time that is not before what happened last. -/
def step (s : State) (a : Nat × Act) : Option State := if s.now ≤ a.1 then act { s with now := a.1 } a.2 else none

/-- A list of steps, if all of them are possible. -/
def run (s : State) (acts : List (Nat × Act)) : Option State := Steps.run step s acts

end GuitarraMidi.Delay
