import GuitarraMidi.EduCiaa.Correctness.ReceiverSim
import GuitarraMidi.Emisora.SendPacket

/-!
# `EduCiaa.Correctness.Resync` — whatever came before, at most one good frame is lost

A machine that has read any bytes at all holds nothing, a first `0xAA`, or the beginning of a packet
(`Rx.held`). The first two cost nothing. In the third, the packet being received is completed with the
head of the next frame, and what is left of that frame contains no `0xAA`; so it is skipped and every
frame after it is received (`parse_filling_stream`). The packet completed this way has the `0xAA` of that
frame where a frame of the emisora cannot have one, so it is not mistaken for any frame sent.
-/

namespace GuitarraMidi.EduCiaa

open Emisora Emisora.EmisoraFrame Framing Transducer

/-- **A packet caught in the middle takes the head of the next frame, and only that frame is lost.** -/
theorem parse_filling_stream {buf : List UInt8} (hpre : [0xAA, 0x55] <+: buf)
    (hlt : buf.length < chordMessageSize) (e : EmisoraFrame) (F : List EmisoraFrame) :
    chordFormat.parse (buf ++ stream (e :: F))
      = (buf ++ e.bytes.take (chordMessageSize - buf.length)) :: F.map bytes := by
  have hmissing : 1 ≤ chordMessageSize - buf.length := Nat.sub_pos_of_lt hlt
  have hcut : buf ++ stream (e :: F)
      = (buf ++ e.bytes.take (chordMessageSize - buf.length))
        ++ (e.bytes.drop (chordMessageSize - buf.length) ++ stream F) := by
    rw [stream_cons, List.append_assoc, ← List.append_assoc (e.bytes.take _), List.take_append_drop]
  have hframe : chordFormat.IsFrame (buf ++ e.bytes.take (chordMessageSize - buf.length)) := by
    refine ⟨?_, hpre.trans (List.prefix_append _ _)⟩
    rw [List.length_append, List.length_take, EmisoraFrame.length_bytes, chordFormat_size]
    omega
  rw [hcut, Format.parse_frame hframe, parse_tail e hmissing, parse_stream]

/-- A frame sent has no `0xAA` after its first byte; a packet completed with the head of another has. -/
theorem not_bytes_of_spliced {buf : List UInt8} (hbuf : 1 ≤ buf.length) (e g : EmisoraFrame) {k : Nat}
    (hk : 1 ≤ k) : g.bytes ≠ buf ++ e.bytes.take k := by
  intro heq
  have hhead : (0xAA : UInt8) ∈ e.bytes.take k := by
    obtain ⟨k, rfl⟩ := Nat.exists_eq_add_of_le' hk
    exact List.mem_cons_self
  apply g.sync₀_not_mem_tail
  rw [heq, List.drop_append_of_le_length hbuf]
  exact List.mem_append_right _ hhead

/-- What a stream of frames `F` may lead to after arbitrary bytes: all of `F`, or `F` without its first
    frame, after at most one packet that is no frame of `F`. -/
def Resynced (F : List EmisoraFrame) (after : List ChordMessage) : Prop :=
  after = F.map EmisoraFrame.msg ∨
    ∃ bogus : List ChordMessage, bogus.length ≤ 1 ∧ (∀ m ∈ bogus, m ∉ F.map EmisoraFrame.msg) ∧
      after = bogus ++ F.tail.map EmisoraFrame.msg

theorem resynced_filling {buf : List UInt8} (hpre : [0xAA, 0x55] <+: buf)
    (hlt : buf.length < chordMessageSize) (F : List EmisoraFrame) :
    Resynced F (packets (chordFormat.parse (buf ++ stream F))) := by
  cases F with
  | nil =>
      left
      rw [stream_nil, List.append_nil, Format.parse_of_length_lt hlt]
      rfl
  | cons e F =>
      right
      rw [parse_filling_stream hpre hlt]
      cases hok : checksumOk (buf ++ e.bytes.take (chordMessageSize - buf.length)) with
      | false =>
          refine ⟨[], Nat.zero_le 1, ?_, ?_⟩
          · intro m hm
            exact absurd hm List.not_mem_nil
          · rw [packets_cons_of_bad hok, EmisoraFrame.packets_map_bytes]
            rfl
      | true =>
          refine ⟨[ChordMessage.ofBytes (buf ++ e.bytes.take (chordMessageSize - buf.length))], Nat.le_refl 1, ?_, ?_⟩
          · intro m hm hmem
            obtain ⟨g, -, hg⟩ := List.mem_map.mp hmem
            rw [List.mem_singleton.mp hm] at hg
            have hlen : (buf ++ e.bytes.take (chordMessageSize - buf.length)).length = chordMessageSize := by
              rw [List.length_append, List.length_take, EmisoraFrame.length_bytes]
              omega
            have hbytes := congrArg ChordMessage.bytes hg
            rw [ChordMessage.bytes_ofBytes hlen] at hbytes
            have hbuf : 1 ≤ buf.length := Nat.le_trans (by decide) hpre.length_le
            exact not_bytes_of_spliced hbuf e g (Nat.sub_pos_of_lt hlt) hbytes
          · rw [packets_cons_of_ok hok, EmisoraFrame.packets_map_bytes]
            rfl

/-- From any state the machine can be in. -/
theorem resynced_of_wf {s : Rx} (hs : s.Wf) (F : List EmisoraFrame) :
    Resynced F (accepted s (stream F)) := by
  rw [accepted_eq hs]
  unfold Rx.held Rx.Wf Format.held Format.BufferWf at *
  cases hscan : s.buffer.scan with
  | hunting =>
      left
      show packets (chordFormat.parse (stream F)) = _
      rw [parse_stream, EmisoraFrame.packets_map_bytes]
  | half =>
      left
      show packets (chordFormat.parse (0xAA :: stream F)) = _
      -- the byte after the 0xAA held is the 0xAA of the first frame
      have hskip : chordFormat.parse (0xAA :: stream F) = chordFormat.parse (stream F) := by
        cases F with
        | nil => exact (Format.parse_of_length_lt (by decide)).trans Format.parse_nil.symm
        | cons e F => exact Format.parse_false_start (F := chordFormat) (b := 0xAA) (by decide) _
      rw [hskip, parse_stream, EmisoraFrame.packets_map_bytes]
  | filling buf =>
      rw [hscan] at hs
      exact resynced_filling hs.1 hs.2 F

/-- **The receiver is self-stabilising.** After any bytes `P`, the frames `F` are all accepted, or all but
    the first, after at most one packet that is none of them. -/
theorem receiver_resyncs (p : Vector UInt8 8) (P : List UInt8) (F : List EmisoraFrame) :
    ∃ after, accepted (Rx.start p) (P ++ stream F) = accepted (Rx.start p) P ++ after ∧ Resynced F after :=
  ⟨_, accepted_append _ _ _, resynced_of_wf (finish_rxByte_wf (Rx.wf_start p) P) F⟩

end GuitarraMidi.EduCiaa
