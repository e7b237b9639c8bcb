import GuitarraMidi.Lib.CleanFrames
import GuitarraMidi.TestLatency.Correctness.ByteLoop
import GuitarraMidi.TestLatency.Correctness.Presses

/-!
# `TestLatency.Correctness.Noise` — strums after noise on the UART

The packets of the emisor are clean frames: none of their bytes but the first is `0xAA`, whatever the buttons
(`clean_strumPackets`). So whatever `main` has read before, a byte lost, a byte too many or no packet at all, it is in
step again after at most one of them (`program_resyncs`).
-/

namespace GuitarraMidi.TestLatency

open EduCiaa Framing Transducer XorSum

/-! ## The frames of the emisor -/

theorem botonOf_cases (mask i : UInt8) : ∃ b : Bool, botonOf mask i = b.toUInt8 := by
  unfold botonOf
  split
  · exact ⟨true, rfl⟩
  · exact ⟨false, rfl⟩

/-- The message of the emisor with these buttons. -/
def Emisor.messageOf (b₁ b₂ b₃ : UInt8) (gz : UInt32) : ImuMessage :=
  let msg : ImuMessage := ⟨0xAA, 0x55, Emisor.cero, Emisor.cero, Emisor.gravedad, Emisor.cero, Emisor.cero, gz,
    #v[0, b₁, b₂, b₃], 0⟩
  { msg with checksum := xorSum msg.payload }

theorem sendPacket_messageOf (mask : UInt8) (gz : UInt32) :
    Emisor.sendPacket default mask gz = Emisor.messageOf (botonOf mask 1) (botonOf mask 2) (botonOf mask 3) gz := by
  have hchecksum : (Emisor.sendPacket default mask gz).checksum
      = (Emisor.messageOf (botonOf mask 1) (botonOf mask 2) (botonOf mask 3) gz).checksum := by
    rw [Emisor.checksum_sendPacket]
    rfl
  unfold Emisor.sendPacket at hchecksum ⊢
  unfold Emisor.messageOf at hchecksum ⊢
  rw [ImuMessage.mk.injEq]
  exact ⟨rfl, rfl, rfl, rfl, rfl, rfl, rfl, rfl, rfl, hchecksum⟩

/-- With any buttons, at the peak and at rest. -/
theorem once_messageOf (b₁ b₂ b₃ peak : Bool) : (0xAA : UInt8) ∉ (Emisor.messageOf b₁.toUInt8 b₂.toUInt8 b₃.toUInt8
    (if peak then Emisor.gzPico else Emisor.cero)).bytes.drop 1 := by
  cases b₁ <;> cases b₂ <;> cases b₃ <;> cases peak <;> decide +kernel

theorem clean_strumPackets {mask : UInt8} {m : ImuMessage} (h : m ∈ Emisor.strumPackets mask) :
    imuFormat.IsClean m.bytes := by
  obtain ⟨peak, rfl⟩ : ∃ peak : Bool,
      m = Emisor.sendPacket default mask (if peak then Emisor.gzPico else Emisor.cero) := by
    rcases List.mem_cons.mp h with rfl | h
    · exact ⟨true, rfl⟩
    · exact ⟨false, List.mem_singleton.mp h⟩
  refine ⟨(Emisor.valid_sendPacket _ _ _).isFrame, ?_⟩
  obtain ⟨b₁, h₁⟩ := botonOf_cases mask 1
  obtain ⟨b₂, h₂⟩ := botonOf_cases mask 2
  obtain ⟨b₃, h₃⟩ := botonOf_cases mask 3
  rw [sendPacket_messageOf, h₁, h₂, h₃]
  exact once_messageOf b₁ b₂ b₃ peak

/-! ## A stream that begins with noise -/

/-- The messages with a right checksum among the frames of a stream. -/
def imuMessages (stream : List UInt8) : List ImuMessage :=
  ((imuFormat.parse stream).filter imuChecksumOk).map ImuMessage.ofBytes

theorem imuPackets_eq (stream : List UInt8) : imuPackets stream = (imuMessages stream).map packetOf := by
  unfold imuPackets imuMessages
  rw [List.map_map]
  rfl

/-- What the messages `ms` can lead to after noise: all of them, or all but the first, after at most one that is none
    of them. -/
def Resynced (ms after : List ImuMessage) : Prop :=
  after = ms ∨ ∃ bogus : List ImuMessage, bogus.length ≤ 1 ∧ (∀ m ∈ bogus, m ∉ ms) ∧ after = bogus ++ ms.tail

theorem filter_map_valid {ms : List ImuMessage} (hms : ∀ m ∈ ms, m.Valid) :
    ((ms.map ImuMessage.bytes).filter imuChecksumOk).map ImuMessage.ofBytes = ms := by
  have hall : (ms.map ImuMessage.bytes).filter imuChecksumOk = ms.map ImuMessage.bytes := by
    apply List.filter_eq_self.mpr
    intro f hf
    obtain ⟨m, hm, rfl⟩ := List.mem_map.mp hf
    exact (hms m hm).checksumOk
  rw [hall, List.map_map]
  exact (List.map_congr_left (fun m _ => ImuMessage.ofBytes_bytes m)).trans (List.map_id ms)

/-- From any state of the receive loop. -/
theorem resynced_of_wf {s : Scan UInt8} (hs : s.Wf imuFormat) {ms : List ImuMessage} (hms : ∀ m ∈ ms, m.Valid)
    (hclean : ∀ m ∈ ms, imuFormat.IsClean m.bytes) :
    Resynced ms (imuMessages (s.pending imuFormat ++ ms.flatMap ImuMessage.bytes)) := by
  have hframes : ∀ f ∈ ms.map ImuMessage.bytes, imuFormat.IsClean f := by
    intro f hf
    obtain ⟨m, hm, rfl⟩ := List.mem_map.mp hf
    exact hclean m hm
  unfold imuMessages
  rw [List.flatMap_def]
  rcases Format.parse_resync hs hframes with hall | ⟨g, hg, hrest⟩
  · left
    rw [hall, filter_map_valid hms]
  · right
    have htail : ((ms.map ImuMessage.bytes).tail.filter imuChecksumOk).map ImuMessage.ofBytes = ms.tail := by
      rw [← List.map_tail]
      exact filter_map_valid (fun m hm => hms m (List.mem_of_mem_tail hm))
    rw [hrest, List.filter_cons]
    cases imuChecksumOk g with
    | false => exact ⟨[], Nat.zero_le 1, fun m hm => absurd hm List.not_mem_nil, htail⟩
    | true =>
        refine ⟨[ImuMessage.ofBytes g], Nat.le_refl 1, ?_, congrArg _ htail⟩
        intro m hm hmem
        have hparsed : g ∈ imuFormat.parse (s.pending imuFormat ++ (ms.map ImuMessage.bytes).flatten) := by
          rw [hrest]
          exact List.mem_cons_self
        have hframe := Format.isFrame_of_mem_parse hparsed
        apply hg
        rw [← ImuMessage.bytes_ofBytes hframe.1, ← List.mem_singleton.mp hm]
        exact hclean m hmem

/-- The bytes of the strums `masks`. -/
def strumStream (masks : List UInt8) : List UInt8 := (masks.flatMap Emisor.strumPackets).flatMap ImuMessage.bytes

/-- **Whatever came before, at most one packet of the strums is lost**, over any passes of `main` whose bytes are noise
    and then the packets of strums: what it puts out is what the loop on packets puts out for the packets that the receive
    loop decodes in each pass, and these are those of the noise and, after them, those of the strums. -/
theorem program_resyncs (p : Vector UInt8 imuFormat.size) (q : Queue) (passes : List (UInt32 × List UInt8))
    (noise : List UInt8) (masks : List UInt8) (hbytes : passes.flatMap Prod.snd = noise ++ strumStream masks) :
    (emit Program.mainPass (Program.start p q) passes).filterMap Program.Output.main?
        = emit mainPass (mainStart q) (emit decodePass (Buffer.start p) passes)
      ∧ (emit decodePass (Buffer.start p) passes).map Prod.fst = passes.map Prod.fst
      ∧ ∃ after : List ImuMessage,
          (emit decodePass (Buffer.start p) passes).flatMap Prod.snd = (imuMessages noise ++ after).map packetOf
            ∧ Resynced (masks.flatMap Emisor.strumPackets) after := by
  have hvalid : ∀ m ∈ masks.flatMap Emisor.strumPackets, m.Valid ∧ imuFormat.IsClean m.bytes := by
    intro m hm
    obtain ⟨mask, -, hmask⟩ := List.mem_flatMap.mp hm
    exact ⟨Emisor.valid_strumPackets hmask, clean_strumPackets hmask⟩
  have hwf := Format.finish_scanStep_wf (F := imuFormat) (s := .hunting) trivial noise
  refine ⟨emit_mainPass p q passes, (packets_decodePass (Buffer.start p) passes).2, _, ?_,
    resynced_of_wf hwf (fun m hm => (hvalid m hm).1) (fun m hm => (hvalid m hm).2)⟩
  rw [packets_stream, hbytes, imuPackets_eq]
  congr 1
  unfold imuMessages strumStream
  rw [Format.parse_append, List.filter_append, List.map_append]

/-- A packet is cut off after five bytes, and a strum follows. -/
def cutPass : UInt32 × List UInt8 := (1000, [0xAA, 0x55, 0, 0, 0] ++ strumStream [2])

/-- What the buffer of the receive loop and the queue hold before. -/
def blankBuffer : Vector UInt8 imuFormat.size := .replicate imuFormat.size 0

def blankQueue : Queue := .replicate qSize (eventOf .evOn 0 0 0 0)

theorem strum_after_cut :
    (emit Program.mainPass (Program.start blankBuffer blankQueue) [cutPass]).filterMap Program.Output.main?
        = emit mainPass (mainStart blankQueue) (emit decodePass (Buffer.start blankBuffer) [cutPass])
      ∧ (emit decodePass (Buffer.start blankBuffer) [cutPass]).map Prod.fst = [cutPass].map Prod.fst
      ∧ ∃ after : List ImuMessage,
          (emit decodePass (Buffer.start blankBuffer) [cutPass]).flatMap Prod.snd
              = (imuMessages [0xAA, 0x55, 0, 0, 0] ++ after).map packetOf
            ∧ Resynced ([2].flatMap Emisor.strumPackets) after :=
  program_resyncs _ _ [cutPass] [0xAA, 0x55, 0, 0, 0] [2] (List.flatMap_singleton _ _)

end GuitarraMidi.TestLatency
