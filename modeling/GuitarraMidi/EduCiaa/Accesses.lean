import GuitarraMidi.EduCiaa.Chords
import GuitarraMidi.EduCiaa.Receiver
import GuitarraMidi.Lib.Traced

/-!
# `EduCiaa.Accesses` — the receive buffer as memory

`rxByte` has the packet as a value. Here is the same stretch of `main` with the struct `msg` as eight bytes of memory,
and every access to it, through `p` or through `msg`, in the trace: the program reads what it uses of a packet and
nothing else. The moment when the preamble is complete is in the trace too.

A byte changes the memory, and leads to what is used of a packet, as `rxByte` says (`returns_readByte`).
-/

namespace GuitarraMidi.EduCiaa.Buffer

open Traced Transducer XorSum

/-- An access to a byte of the struct, or `synced` becoming true. -/
inductive Access
  | sync
  | write (i : Nat) (byte : UInt8)
  | read (i : Nat) (byte : UInt8)
deriving DecidableEq, Repr

abbrev Program := Prog (Vector UInt8 8) Access

/-- `p[i] = byte`. -/
def write (i : Nat) (byte : UInt8) : Program Unit := fun p => some ((), p.setIfInBounds i byte, [.write i byte])

/-- `p[i]`. -/
def read (i : Nat) : Program UInt8 := fun p => some (p.toList.getD i 0, p, [.read i (p.toList.getD i 0)])

/-- The variables besides the buffer. -/
structure Vars where
  idx : Nat
  synced : Bool
  gotAA : Bool
deriving DecidableEq, Repr

def Vars.start : Vars := ⟨0, false, false⟩

/-- What `main` makes of a packet: what `obtenerValorBotones`, `snprintf` and, if it is called, `strumChord` are given
    of it. -/
inductive Judged
  | checksumError
  | packet (botones : Vector UInt8 4) (dbgVelocity : UInt8) (strumVelocity : Option UInt8)
deriving DecidableEq, Repr

/-- `for (uint32_t i = 2; i < sizeof(ChordMessage) - 1; i++) chk ^= p[i]`, from `i` on for `n` rounds. -/
def chkFrom (i : Nat) : Nat → UInt8 → Program UInt8
  | 0, chk => pure chk
  | n + 1, chk => do
      let byte ← read i
      chkFrom (i + 1) n (chk ^^^ byte)

/-- `msg.botones`. -/
def readBotones : Program (Vector UInt8 4) := do
  let b0 ← read 2
  let b1 ← read 3
  let b2 ← read 4
  let b3 ← read 5
  return #v[b0, b1, b2, b3]

/-- What is done with a packet whose checksum is right. -/
def usePacket : Program Judged := do
  let botones ← readBotones
  let chord := getChordFromButtons (obtenerValorBotones botones)
  let dbgVelocity ← read 6
  if chord.tipo ≠ .chordNone then
    let strumVelocity ← read 6
    return .packet botones dbgVelocity (some strumVelocity)
  else return .packet botones dbgVelocity none

/-- What is done when the struct is full. -/
def judge : Program Judged := do
  let chk ← chkFrom 2 (chordMessageSize - 1 - 2) 0
  let checksum ← read 7
  if chk != checksum then return .checksumError
  else usePacket

/-- The body of `while (uartReadByte(UART_232, &byte))`. -/
def readByte (v : Vars) (byte : UInt8) : Program (Vars × List Judged) := do
  if !v.synced then
    if !v.gotAA then
      return ({ v with gotAA := byte == 0xAA }, [])
    else if byte == 0x55 then
      act .sync
      write 0 0xAA
      write 1 0x55
      return (⟨2, true, false⟩, [])
    else
      return ({ v with gotAA := byte == 0xAA }, [])
  else
    write v.idx byte
    if v.idx + 1 ≥ chordMessageSize then
      let judged ← judge
      return (⟨0, false, false⟩, [judged])
    else return ({ v with idx := v.idx + 1 }, [])

/-- A list of bytes. -/
def readBytes (v : Vars) : List UInt8 → Program (Vars × List Judged)
  | [] => return (v, [])
  | byte :: bytes => do
      let (v, judged) ← readByte v byte
      let (v, judged') ← readBytes v bytes
      return (v, judged ++ judged')

/-! ## The two agree -/

/-- The variables besides the buffer, of the state that has the buffer as a value. -/
def vars (s : Rx) : Vars := ⟨s.idx, s.synced, s.gotAA⟩

/-- What is used of a packet. -/
def judged : RxEvent → Judged
  | .checksumError => .checksumError
  | .packet msg =>
      .packet msg.botones msg.velocity
        (if (getChordFromButtons (obtenerValorBotones msg.botones)).tipo ≠ .chordNone then some msg.velocity else none)

variable {p : Vector UInt8 8}

theorem returns_read (i : Nat) : Returns (read i) p (p.toList.getD i 0) p := ⟨_, rfl⟩

theorem returns_write (i : Nat) (byte : UInt8) : Returns (write i byte) p () (p.setIfInBounds i byte) := ⟨_, rfl⟩

/-- The loop computes the XOR of the bytes that it reads. -/
theorem returns_chkFrom {i n : Nat} (h : i + n ≤ 8) (chk : UInt8) :
    Returns (chkFrom i n chk) p (chk ^^^ xorSum ((p.toList.drop i).take n)) p := by
  induction n generalizing i chk with
  | zero =>
      rw [List.take_zero, xorSum_nil, UInt8.xor_zero]
      exact returns_pure chk p
  | succ n ih =>
      have hi : i < p.toList.length := by
        rw [Vector.length_toList]
        omega
      have hsum : chk ^^^ xorSum ((p.toList.drop i).take (n + 1))
          = (chk ^^^ p.toList.getD i 0) ^^^ xorSum ((p.toList.drop (i + 1)).take n) := by
        rw [List.drop_eq_getElem_cons hi, List.take_succ_cons, xorSum_cons, UInt8.xor_assoc,
          List.getD_eq_getElem?_getD, List.getElem?_eq_getElem hi, Option.getD_some]
      rw [hsum]
      exact returns_bind (returns_read i) (ih (by omega) _)

theorem returns_readBotones : Returns readBotones p (ChordMessage.ofBytes p.toList).botones p :=
  returns_bind (returns_read 2) (returns_bind (returns_read 3) (returns_bind (returns_read 4)
    (returns_bind (returns_read 5) (returns_pure _ p))))

theorem returns_usePacket : Returns usePacket p (judged (.packet (ChordMessage.ofBytes p.toList))) p := by
  apply returns_bind returns_readBotones
  apply returns_bind (returns_read 6)
  unfold judged
  dsimp only
  split
  · exact returns_bind (returns_read 6) (returns_pure _ p)
  · exact returns_pure _ p

/-- A full struct is judged as its bytes are. -/
theorem returns_judge (s : Rx) :
    Returns judge s.p
      (judged (if xorPayload s.p.toList != s.msg.checksum then .checksumError else .packet s.msg)) s.p := by
  have hpayload : xorPayload s.p.toList = xorSum ((s.p.toList.drop 2).take 5) := by
    rw [xorPayload, Vector.length_toList, List.drop_take]
  have hchk : Returns (chkFrom 2 (chordMessageSize - 1 - 2) 0) s.p (xorPayload s.p.toList) s.p := by
    have hloop := returns_chkFrom (p := s.p) (i := 2) (n := 5) (by decide) 0
    rwa [UInt8.zero_xor, ← hpayload] at hloop
  apply returns_bind hchk
  apply returns_bind (returns_read 7)
  change Returns (if (xorPayload s.p.toList != s.msg.checksum) = true then _ else _) _ _ _
  split
  · exact returns_pure _ s.p
  · exact returns_usePacket

/-- **A byte does to the memory what it does to the value.** -/
theorem returns_readByte (s : Rx) (byte : UInt8) :
    Returns (readByte (vars s) byte) s.p (vars (rxByte s byte).1, (rxByte s byte).2.map judged)
      (rxByte s byte).1.p := by
  obtain ⟨p, idx, synced, gotAA⟩ := s
  cases synced with
  | false =>
      cases gotAA with
      | false => exact returns_pure _ p
      | true =>
          by_cases hbyte : byte = 0x55
          · subst hbyte
            exact ⟨[.sync, .write 0 0xAA, .write 1 0x55], rfl⟩
          · have hread : readByte ⟨idx, false, true⟩ byte = pure (⟨idx, false, byte == 0xAA⟩, []) := by
              simp [readByte, hbyte]
            rw [rxByte_other hbyte]
            show Returns (readByte ⟨idx, false, true⟩ byte) p _ p
            rw [hread]
            exact returns_pure _ p
  | true =>
      apply returns_bind (returns_write idx byte)
      change Returns (if idx + 1 ≥ chordMessageSize then _ else _) _ _ _
      by_cases hfull : idx + 1 ≥ chordMessageSize
      · rw [if_pos hfull, rxByte_full hfull]
        exact returns_bind (returns_judge ((⟨p, idx, true, gotAA⟩ : Rx).push byte)) (returns_pure _ _)
      · rw [if_neg hfull, rxByte_more hfull]
        exact returns_pure _ _

/-- **A stream does to the memory what it does to the value.** -/
theorem returns_readBytes (s : Rx) (bytes : List UInt8) :
    Returns (readBytes (vars s) bytes) s.p (vars (finish rxByte s bytes), (emit rxByte s bytes).map judged)
      (finish rxByte s bytes).p := by
  induction bytes generalizing s with
  | nil => exact returns_pure _ s.p
  | cons byte bytes ih =>
      rw [emit_cons, List.map_append]
      apply returns_bind (returns_readByte s byte)
      apply returns_bind (ih (rxByte s byte).1)
      exact returns_pure _ _

end GuitarraMidi.EduCiaa.Buffer
