import GuitarraMidi.Lib.Transducer
import GuitarraMidi.Wire.ChordMessage

/-!
# `EduCiaa.Receiver` — the UART framing state machine of `main`

`main` reads `UART_232` one byte at a time and keeps four variables between bytes: the packet buffer
`msg`, written through `p`, the write index `idx`, and the flags `synced` and `gotAA`. `rxByte` is the
body of `while (uartReadByte(UART_232, &byte))` up to the point where a packet has been judged; what
`main` does with a judged packet is in `EduCiaa.MainLoop`.

The buffer is a local that the program never initialises, so every result is for an arbitrary initial
content. `idx` is a `uint32_t` that `main` resets at eight; it is modelled as a `Nat`, and a write past
the end of the struct as no write at all.
-/

namespace GuitarraMidi.EduCiaa

open Transducer

/-- The variables of `main` that the framing reads and writes. -/
structure Rx where
  p : Vector UInt8 8
  idx : Nat
  synced : Bool
  gotAA : Bool
deriving DecidableEq, Repr

/-- What a byte can lead to: the `chk != msg.checksum` branch, or a packet that is processed. -/
inductive RxEvent
  | checksumError
  | packet (msg : ChordMessage)
deriving DecidableEq, Repr

namespace Rx

/-- The variables as `main` initialises them; `p` is whatever the stack held. -/
def start (p : Vector UInt8 8) : Rx where
  p := p
  idx := 0
  synced := false
  gotAA := false

/-- `p[idx++] = byte`. -/
def push (s : Rx) (byte : UInt8) : Rx :=
  { s with p := s.p.setIfInBounds s.idx byte, idx := s.idx + 1 }

/-- `synced = false; gotAA = false; idx = 0`. -/
def unsync (s : Rx) : Rx := { s with idx := 0, synced := false, gotAA := false }

/-- The struct `msg` laid over the buffer. -/
def msg (s : Rx) : ChordMessage := ChordMessage.ofBytes s.p.toList

end Rx

/-- One byte from `UART_232`. -/
def rxByte (s : Rx) (byte : UInt8) : Rx × List RxEvent :=
  if !s.synced then
    if !s.gotAA then
      ({ s with gotAA := byte == 0xAA }, [])
    else if byte == 0x55 then
      ((({ s with synced := true, gotAA := false, idx := 0 } : Rx).push 0xAA).push 0x55, [])
    else
      ({ s with gotAA := byte == 0xAA }, [])
  else
    let s := s.push byte
    -- valid or not, the next packet is looked for from here on
    if s.idx ≥ chordMessageSize then
      if xorPayload s.p.toList != s.msg.checksum then (s.unsync, [.checksumError])
      else (s.unsync, [.packet s.msg])
    else (s, [])

section Branches

variable {p : Vector UInt8 8} {idx : Nat} {gotAA : Bool}

/-- After a `0xAA`, another byte than the one awaited. -/
theorem rxByte_other {byte : UInt8} (hbyte : byte ≠ 0x55) :
    rxByte ⟨p, idx, false, true⟩ byte = (⟨p, idx, false, byte == 0xAA⟩, []) := by
  simp [rxByte, hbyte]

/-- The byte that makes the struct full. -/
theorem rxByte_full (hfull : idx + 1 ≥ chordMessageSize) (byte : UInt8) :
    rxByte ⟨p, idx, true, gotAA⟩ byte =
      let s := (⟨p, idx, true, gotAA⟩ : Rx).push byte
      (s.unsync, [if xorPayload s.p.toList != s.msg.checksum then .checksumError else .packet s.msg]) := by
  simp only [rxByte]
  refine (if_pos hfull).trans ?_
  split <;> rfl

/-- Another byte of a packet. -/
theorem rxByte_more (hmore : ¬ idx + 1 ≥ chordMessageSize) (byte : UInt8) :
    rxByte ⟨p, idx, true, gotAA⟩ byte = ((⟨p, idx, true, gotAA⟩ : Rx).push byte, []) := by
  simp only [rxByte]
  exact if_neg hmore

end Branches

/-- The packet of an event, when there is one. -/
def RxEvent.packet? : RxEvent → Option ChordMessage
  | .checksumError => none
  | .packet msg => some msg

/-- The packets accepted while a list of bytes is read. -/
def accepted (s : Rx) (bytes : List UInt8) : List ChordMessage :=
  (emit rxByte s bytes).filterMap RxEvent.packet?

theorem accepted_append (s : Rx) (as bs : List UInt8) :
    accepted s (as ++ bs) = accepted s as ++ accepted (finish rxByte s as) bs := by
  unfold accepted
  rw [emit_append, List.filterMap_append]

end GuitarraMidi.EduCiaa
