import GuitarraMidi.Lib.Mailbox
import GuitarraMidi.Wire.ChordMessage

/-!
# `Receptora.Bridge` — the receptora, from ESP-NOW to the UART of the EDU-CIAA

Two functions share two globals. `OnDataRecv` runs whenever a radio packet arrives, checks its length and
copies it over `lastMsg`; `loop` polls `hasMsg`, takes a copy, and only then checks the header and the
checksum. The copy and the clearing of `hasMsg` happen with interrupts off, so a run of the receptora is a
list of calls of the two functions in any order.

What a call does besides changing the globals is a list of `Output`s: lines on the debug port `Serial`, and
writes to the port `CIAA`. The pause after a write (`delayMicroseconds`) is not modelled.
-/

namespace GuitarraMidi.Receptora

open Transducer Mailbox

/-- The globals `hasMsg` and `lastMsg`. -/
structure Globals where
  hasMsg : Bool
  lastMsg : ChordMessage
deriving DecidableEq, Repr

/-- The globals at power-on. -/
def start : Globals where
  hasMsg := false
  lastMsg := ⟨0, 0, .replicate 4 0, 0, 0⟩

inductive Output
  | serial (line : String)
  | ciaa (bytes : List UInt8)
deriving DecidableEq, Repr

/-- `Serial.print(b, HEX)`. -/
def hex (b : UInt8) : String := String.ofList ((Nat.toDigits 16 b.toNat).map Char.toUpper)

/-- The raw packet as `OnDataRecv` prints it, two digits and a space for each byte. -/
def hexDump (data : List UInt8) : String :=
  String.join (data.map (fun b => (if b < 16 then "0" else "") ++ hex b ++ " "))

/-- `OnDataRecv`. -/
def onDataRecv (s : Globals) (data : List UInt8) : Globals × List Output :=
  let raw := Output.serial ("[RX RAW] len=" ++ toString data.length ++ " bytes: " ++ hexDump data)
  if data.length ≠ chordMessageSize then
    (s, [raw, .serial "[RX ERROR] Tamaño incorrecto, paquete descartado"])
  else
    ({ s with lastMsg := .ofBytes data, hasMsg := true }, [raw])

/-- What `loop` prints of the packet it has taken. -/
def recibido (msg : ChordMessage) : List Output :=
  [.serial "----- PAQUETE RECIBIDO -----",
   .serial ("Header: " ++ hex msg.header1 ++ " " ++ hex msg.header2),
   .serial ("Botones: " ++ toString msg.botones[3]! ++ " " ++ toString msg.botones[2]! ++ " "
     ++ toString msg.botones[1]! ++ " " ++ toString msg.botones[0]!),
   .serial ("Velocity: " ++ toString msg.velocity),
   .serial ("Checksum recibido: 0x" ++ hex msg.checksum)]

/-- `loop`. -/
def loop (s : Globals) : Globals × List Output :=
  if !s.hasMsg then (s, [])
  else
    -- the copy made with interrupts off
    let msg := s.lastMsg
    let s := { s with hasMsg := false }
    if msg.header1 != 0xAA || msg.header2 != 0x55 then
      (s, recibido msg ++ [.serial "[ERROR] Header inválido, paquete descartado"])
    else
      let chk := xorPayload msg.bytes
      if chk != msg.checksum then
        (s, recibido msg ++ [.serial ("Checksum calculado: 0x" ++ hex chk),
          .serial "[ERROR] Checksum inválido, paquete descartado"])
      else
        (s, recibido msg ++ [.serial ("Checksum calculado: 0x" ++ hex chk), .serial "[OK] Paquete válido",
          .ciaa msg.bytes, .serial "[TX UART] Paquete reenviado a EDU-CIAA",
          .serial "-----------------------------"])

/-! ## Runs -/

/-- A call of one of the two functions. -/
inductive Call
  | onDataRecv (data : List UInt8)
  | loop
deriving DecidableEq, Repr

def step (s : Globals) : Call → Globals × List Output
  | .onDataRecv data => onDataRecv s data
  | .loop => loop s

/-- What an output puts on the UART of the EDU-CIAA. -/
def Output.ciaa? : Output → Option (List UInt8)
  | .serial _ => none
  | .ciaa bytes => some bytes

/-- The frames written to `CIAA` by a list of calls. -/
def frames (s : Globals) (calls : List Call) : List (List UInt8) :=
  (emit step s calls).filterMap Output.ciaa?

/-- The bytes of these frames, as the EDU-CIAA reads them. -/
def uart (s : Globals) (calls : List Call) : List UInt8 := (frames s calls).flatten

/-! ## The two globals are a mailbox -/

/-- The two tests of `loop`. -/
def accepts (msg : ChordMessage) : Bool :=
  msg.header1 == 0xAA && msg.header2 == 0x55 && xorPayload msg.bytes == msg.checksum

theorem accepts_iff {msg : ChordMessage} : accepts msg = true ↔ msg.Valid := by
  unfold accepts
  rw [Bool.and_eq_true, Bool.and_eq_true, beq_iff_eq, beq_iff_eq, beq_iff_eq]
  constructor
  · rintro ⟨⟨h1, h2⟩, hsum⟩
    exact ⟨h1, h2, hsum⟩
  · rintro ⟨h1, h2, hsum⟩
    exact ⟨⟨h1, h2⟩, hsum⟩

/-- The packet waiting in `lastMsg`, if one is. -/
def Globals.slot (s : Globals) : Option ChordMessage := if s.hasMsg then some s.lastMsg else none

/-- What a call does to the mailbox. -/
def Call.act : Call → Act ChordMessage
  | .onDataRecv data => if data.length ≠ chordMessageSize then .idle else .put (.ofBytes data)
  | .loop => .take

theorem act_of_length {data : List UInt8} (h : data.length = 8) :
    (Call.onDataRecv data).act = .put (.ofBytes data) := if_neg (not_not_intro h)

theorem act_of_length_ne {data : List UInt8} (h : data.length ≠ 8) :
    (Call.onDataRecv data).act = .idle := if_pos h

/-- Only an eight-byte packet is put in the mailbox, and only `loop` takes from it. -/
theorem act_eq_put_iff {c : Call} {msg : ChordMessage} : c.act = .put msg ↔ c = .onDataRecv msg.bytes := by
  constructor
  · intro h
    cases c with
    | loop => exact absurd h (by simp [Call.act])
    | onDataRecv data =>
        by_cases hlen : data.length = 8
        · rw [act_of_length hlen] at h
          rw [← Act.put.inj h, ChordMessage.bytes_ofBytes hlen]
        · rw [act_of_length_ne hlen] at h
          exact absurd h (by simp)
  · rintro rfl
    rw [act_of_length rfl, ChordMessage.ofBytes_bytes]

theorem act_eq_take_iff {c : Call} : c.act = .take ↔ c = .loop := by
  constructor
  · intro h
    cases c with
    | loop => rfl
    | onDataRecv data =>
        by_cases hlen : data.length = 8
        · rw [act_of_length hlen] at h
          exact absurd h (by simp)
        · rw [act_of_length_ne hlen] at h
          exact absurd h (by simp)
  · rintro rfl
    rfl

@[simp] theorem slot_start : start.slot = none := rfl

theorem slot_of_hasMsg {s : Globals} (h : s.hasMsg = true) : s.slot = some s.lastMsg := if_pos h

theorem slot_of_not_hasMsg {s : Globals} (h : s.hasMsg = false) : s.slot = none := by
  rw [Globals.slot, h]
  rfl

/-- `loop` prints, and writes only what passes both tests. -/
theorem ciaa_recibido (msg : ChordMessage) (out : List Output) :
    (recibido msg ++ out).filterMap Output.ciaa? = out.filterMap Output.ciaa? := rfl

theorem loop_of_not_hasMsg {s : Globals} (h : s.hasMsg = false) : loop s = (s, []) := by
  simp [loop, h]

/-- **A pass that finds a packet** clears `hasMsg`, and writes the packet if it passes the tests. -/
theorem loop_of_hasMsg {s : Globals} (h : s.hasMsg = true) :
    (loop s).1 = { s with hasMsg := false } ∧
      (loop s).2.filterMap Output.ciaa? = ([s.lastMsg].filter accepts).map ChordMessage.bytes := by
  by_cases hheader : (s.lastMsg.header1 != 0xAA || s.lastMsg.header2 != 0x55) = true
  · have hbad : accepts s.lastMsg = false := by
      unfold accepts
      rw [Bool.or_eq_true, bne_iff_ne, bne_iff_ne] at hheader
      rcases hheader with h1 | h2
      · simp [h1]
      · simp [h2]
    simp only [loop, h, hheader, Bool.not_true, Bool.false_eq_true, if_false, if_true, ciaa_recibido,
      List.filter_cons_of_neg (show ¬ accepts s.lastMsg = true by rw [hbad]; exact Bool.false_ne_true)]
    exact ⟨trivial, rfl⟩
  · have hheader' : s.lastMsg.header1 = 0xAA ∧ s.lastMsg.header2 = 0x55 := by
      simpa using hheader
    by_cases hsum : xorPayload s.lastMsg.bytes = s.lastMsg.checksum
    · have hgood : accepts s.lastMsg = true := accepts_iff.mpr ⟨hheader'.1, hheader'.2, hsum⟩
      simp only [loop, h, hheader, hsum, Bool.not_true, Bool.false_eq_true, if_false, bne_self_eq_false,
        ciaa_recibido, List.filter_cons_of_pos hgood]
      exact ⟨trivial, rfl⟩
    · have hbad : accepts s.lastMsg = false := by
        rw [Bool.eq_false_iff]
        intro hok
        exact hsum (accepts_iff.mp hok).checksum
      have hne : (xorPayload s.lastMsg.bytes != s.lastMsg.checksum) = true := bne_iff_ne.mpr hsum
      simp only [loop, h, hheader, hne, Bool.not_true, Bool.false_eq_true, if_false, if_true, ciaa_recibido,
        List.filter_cons_of_neg (show ¬ accepts s.lastMsg = true by rw [hbad]; exact Bool.false_ne_true)]
      exact ⟨trivial, rfl⟩

/-- **The step diagram.** -/
theorem step_act (s : Globals) (c : Call) :
    (step s c).1.slot = (Mailbox.step accepts s.slot c.act).1 ∧
      (step s c).2.filterMap Output.ciaa?
        = (Mailbox.step accepts s.slot c.act).2.map ChordMessage.bytes := by
  cases c with
  | onDataRecv data =>
      by_cases hlen : data.length = 8
      · have hsize : ¬ data.length ≠ chordMessageSize := not_not_intro hlen
        simp only [step, onDataRecv, act_of_length hlen, if_neg hsize]
        exact ⟨rfl, rfl⟩
      · have hsize : data.length ≠ chordMessageSize := hlen
        simp only [step, onDataRecv, act_of_length_ne hlen, if_pos hsize]
        exact ⟨rfl, rfl⟩
  | loop =>
      cases h : s.hasMsg with
      | false =>
          rw [step, loop_of_not_hasMsg h, slot_of_not_hasMsg h]
          exact ⟨rfl, rfl⟩
      | true =>
          obtain ⟨hstate, hout⟩ := loop_of_hasMsg h
          rw [step, hstate, hout, slot_of_hasMsg h]
          exact ⟨rfl, rfl⟩

/-- **The receptora is a mailbox** whose reader keeps what passes the tests of `loop`. -/
theorem run_act (s : Globals) (calls : List Call) :
    (finish step s calls).slot = finish (Mailbox.step accepts) s.slot (calls.map Call.act) ∧
      frames s calls
        = (emit (Mailbox.step accepts) s.slot (calls.map Call.act)).map ChordMessage.bytes := by
  have hsim : ∀ (s : Globals) (t : Option ChordMessage) (c : Call), s.slot = t →
      (observe Output.ciaa? step s c).1.slot = (Mailbox.step accepts t c.act).1 ∧
        (observe Output.ciaa? step s c).2 = (Mailbox.step accepts t c.act).2.map ChordMessage.bytes := by
    rintro s t c rfl
    exact step_act s c
  have hrun := simulate (fun s t => s.slot = t) Call.act ChordMessage.bytes hsim (s := s) rfl calls
  rwa [finish_observe, emit_observe] at hrun

end GuitarraMidi.Receptora
