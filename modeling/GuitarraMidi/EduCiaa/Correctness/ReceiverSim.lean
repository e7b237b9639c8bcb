import GuitarraMidi.EduCiaa.Receiver
import GuitarraMidi.Lib.FrameBuffer

/-!
# `EduCiaa.Correctness.ReceiverSim` — the UART state machine refines the framing

The four variables of `main` are those of the receiver of `Lib.FrameBuffer` (`Rx.buffer`), and `rxByte` does with a
byte what that receiver does, judging a complete frame by its checksum (`rxByte_receive`). So the events of a run are
the frames that the batch parser cuts out of the stream, each judged (`emit_rxByte`), and this for a run from any
reachable state: a machine stopped in the middle of a packet behaves as one that starts afresh on the bytes it holds
followed by the rest.

Two consequences are drawn here: the machine is the batch parser (`receiver_eq_refParse`), and decoding
undoes encoding over a noisy line (`receiver_decodes_noisy_line`).
-/

namespace GuitarraMidi.EduCiaa

open Framing Transducer

/-! ## The abstraction -/

/-- The variables of `main` as those of a frame buffer. -/
def Rx.buffer (s : Rx) : Framing.Buffer UInt8 chordFormat.size := ⟨s.p, s.idx, s.synced, s.gotAA⟩

/-- The bytes of an unfinished header or packet. -/
def Rx.held (s : Rx) : List UInt8 := chordFormat.held s.buffer

/-- What is true between two bytes: a packet being received starts with the preamble and is incomplete. -/
def Rx.Wf (s : Rx) : Prop := chordFormat.BufferWf s.buffer

theorem Rx.wf_start (p : Vector UInt8 8) : (Rx.start p).Wf := Format.bufferWf_start (F := chordFormat) p

@[simp] theorem Rx.held_start (p : Vector UInt8 8) : (Rx.start p).held = [] := Format.held_start (F := chordFormat) p

/-- How a complete frame is judged. -/
def verdict (f : List UInt8) : RxEvent :=
  if checksumOk f then .packet (ChordMessage.ofBytes f) else .checksumError

theorem verdict_eq (s : Rx) :
    (if xorPayload s.p.toList != s.msg.checksum then .checksumError else .packet s.msg) = verdict s.p.toList := by
  unfold verdict checksumOk Rx.msg bne
  cases xorPayload s.p.toList == (ChordMessage.ofBytes s.p.toList).checksum <;> rfl

variable {s : Rx}

/-- **The step diagram**: a byte moves the variables of `main`, and leads to an event, as in the frame buffer. -/
theorem rxByte_receive (s : Rx) (byte : UInt8) :
    (rxByte s byte).1.buffer = (chordFormat.receive verdict s.buffer byte).1
      ∧ (rxByte s byte).2 = (chordFormat.receive verdict s.buffer byte).2 := by
  obtain ⟨p, idx, synced, gotAA⟩ := s
  cases synced with
  | false =>
      cases gotAA with
      | false => exact ⟨rfl, rfl⟩
      | true =>
          by_cases hb : byte = 0x55
          · subst hb
            exact ⟨rfl, rfl⟩
          · rw [rxByte_other hb, Format.receive_other rfl rfl hb]
            exact ⟨rfl, rfl⟩
  | true =>
      by_cases hfull : chordMessageSize ≤ idx + 1
      · -- the last byte: the struct is judged as the frame in the buffer is
        rw [rxByte_full hfull, Format.receive_full rfl hfull]
        exact ⟨rfl, congrArg (fun ev => [ev]) (verdict_eq _)⟩
      · rw [rxByte_more hfull, Format.receive_more rfl hfull]
        exact ⟨rfl, rfl⟩

theorem rxByte_wf (s : Rx) (byte : UInt8) (hs : s.Wf) : (rxByte s byte).1.Wf := by
  unfold Rx.Wf
  rw [(rxByte_receive s byte).1]
  exact Format.receive_wf hs byte

/-! ### Reading a frame one byte at a time -/

theorem rxByte_inside (hs : s.Wf) {byte : UInt8} {f : List UInt8} (hf : chordFormat.IsFrame f)
    (hpre : s.held ++ [byte] <+: f) (hlen : s.held.length + 1 < chordMessageSize) :
    (rxByte s byte).1.held = s.held ++ [byte] ∧ (rxByte s byte).2 = [] := by
  rw [Rx.held, (rxByte_receive s byte).1, (rxByte_receive s byte).2]
  exact Format.receive_inside hs hf hpre hlen

theorem rxByte_last (hs : s.Wf) {byte : UInt8} {f : List UInt8} (hf : chordFormat.IsFrame f)
    (hpre : s.held ++ [byte] <+: f) (hlen : s.held.length + 1 = chordMessageSize) :
    (rxByte s byte).1.held = [] ∧ (rxByte s byte).2 = [verdict f] := by
  rw [Rx.held, (rxByte_receive s byte).1, (rxByte_receive s byte).2]
  exact Format.receive_last hs hf hpre hlen

/-! ## Runs -/

/-- **A run is a run of the frame buffer.** -/
theorem run_rxByte (s : Rx) (bytes : List UInt8) :
    (finish rxByte s bytes).buffer = finish (chordFormat.receive verdict) s.buffer bytes
      ∧ emit rxByte s bytes = emit (chordFormat.receive verdict) s.buffer bytes := by
  have hstep : ∀ (s : Rx) (t : Framing.Buffer UInt8 chordFormat.size) (b : UInt8), s.buffer = t →
      (rxByte s b).1.buffer = (chordFormat.receive verdict t (id b)).1
        ∧ (rxByte s b).2 = (chordFormat.receive verdict t (id b)).2.map id := by
    rintro s t b rfl
    rw [List.map_id]
    exact rxByte_receive s b
  have hrun := simulate (fun s t => Rx.buffer s = t) id id hstep (rfl : s.buffer = s.buffer) bytes
  rw [List.map_id, List.map_id] at hrun
  exact hrun

theorem finish_rxByte_wf (hs : s.Wf) (bytes : List UInt8) : (finish rxByte s bytes).Wf := by
  unfold Rx.Wf
  rw [(run_rxByte s bytes).1]
  exact Format.finish_receive_wf hs bytes

/-- **The events of a run** are the verdicts on the frames of what the machine held and what it is fed. -/
theorem emit_rxByte (hs : s.Wf) (bytes : List UInt8) :
    emit rxByte s bytes = (chordFormat.parse (s.held ++ bytes)).map verdict := by
  rw [(run_rxByte s bytes).2]
  exact Format.emit_receive hs bytes

/-- What the machine holds are the last bytes received. -/
theorem held_finish_suffix (p : Vector UInt8 8) (bytes : List UInt8) :
    (finish rxByte (Rx.start p) bytes).held <:+ bytes := by
  rw [Rx.held, (run_rxByte (Rx.start p) bytes).1]
  exact Format.held_finish_suffix (F := chordFormat) p bytes

/-- Frames with a right checksum are accepted one by one. -/
theorem emit_frames (p : Vector UInt8 8) {fs : List (List UInt8)} (hshape : ∀ f ∈ fs, chordFormat.IsFrame f)
    (hok : ∀ f ∈ fs, checksumOk f = true) :
    emit rxByte (Rx.start p) fs.flatten = fs.map (fun f => .packet (ChordMessage.ofBytes f)) := by
  have hparse := Format.parse_frames hshape []
  rw [List.append_nil, Format.parse_nil, List.append_nil] at hparse
  rw [emit_rxByte (Rx.wf_start p), Rx.held_start, List.nil_append, hparse]
  apply List.map_congr_left
  intro f hf
  rw [verdict, if_pos (hok f hf)]

theorem filterMap_verdict (fs : List (List UInt8)) :
    (fs.map verdict).filterMap RxEvent.packet? = packets fs := by
  induction fs with
  | nil => rfl
  | cons f fs ih =>
      cases hok : checksumOk f with
      | true =>
          have hv : (verdict f).packet? = some (ChordMessage.ofBytes f) := by
            simp [verdict, hok, RxEvent.packet?]
          rw [List.map_cons, List.filterMap_cons_some hv, ih, packets_cons_of_ok hok]
      | false =>
          have hv : (verdict f).packet? = none := by simp [verdict, hok, RxEvent.packet?]
          rw [List.map_cons, List.filterMap_cons_none hv, ih, packets_cons_of_bad hok]

/-- **The packets a run accepts.** -/
theorem accepted_eq (hs : s.Wf) (bytes : List UInt8) :
    accepted s bytes = packets (chordFormat.parse (s.held ++ bytes)) := by
  rw [accepted, emit_rxByte hs, filterMap_verdict]

theorem accepted_start (p : Vector UInt8 8) (bytes : List UInt8) :
    accepted (Rx.start p) bytes = packets (chordFormat.parse bytes) := by
  rw [accepted_eq (Rx.wf_start p), Rx.held_start, List.nil_append]

/-! ## The machine is the batch parser -/

/-- **The reference parser**, on the whole stream at once: from the leftmost `0xAA 0x55` on, stop if fewer
    than eight bytes remain; otherwise take eight, return them when their checksum is right, and in either
    case go on after them with nothing remembered. -/
def refParse (stream : List UInt8) : List (List UInt8) :=
  if (chordFormat.seek stream).length < chordMessageSize then []
  else
    (if checksumOk ((chordFormat.seek stream).take chordMessageSize)
      then [(chordFormat.seek stream).take chordMessageSize] else [])
    ++ refParse ((chordFormat.seek stream).drop chordMessageSize)
termination_by stream.length
decreasing_by
  have hseek := chordFormat.seek_length_le stream
  rw [List.length_drop]
  unfold chordMessageSize at *
  omega

theorem refParse_eq (stream : List UInt8) :
    refParse stream = (chordFormat.parse stream).filter checksumOk := by
  fun_induction refParse stream with
  | case1 stream hshort =>
      rw [Format.parse, chordFormat_size, if_pos hshort]
      rfl
  | case2 stream hlong ih =>
      rw [Format.parse, chordFormat_size, if_neg hlong, List.filter_cons, ih]
      split <;> rfl

/-- **The state machine is the reference parser.** Fed any stream one byte at a time from its start state,
    it accepts the packets the reference parser finds in it. -/
theorem receiver_eq_refParse (p : Vector UInt8 8) (stream : List UInt8) :
    (accepted (Rx.start p) stream).map ChordMessage.bytes = refParse stream := by
  rw [accepted_start, packets, refParse_eq, List.map_map]
  have hround : ∀ f ∈ (chordFormat.parse stream).filter checksumOk,
      (ChordMessage.bytes ∘ ChordMessage.ofBytes) f = id f := by
    intro f hf
    have hframe := Format.isFrame_of_mem_parse (List.mem_filter.mp hf).1
    exact ChordMessage.bytes_ofBytes hframe.1
  -- a frame has the length of the struct, so it is the bytes of the packet read from it
  rw [List.map_congr_left hround, List.map_id]

/-! ## Decoding undoes encoding -/

/-- A packet as its sender builds it: any payload, with the preamble and the checksum right. -/
abbrev ValidMessage := { m : ChordMessage // m.Valid }

/-- Noise between packets: bytes in which `0xAA` is never immediately followed by `0x55`. -/
abbrev Noise := { g : List UInt8 // chordFormat.IsGap g }

/-- Noise, then packets each followed by noise. -/
def noisyLine (gap : Noise) (ps : List (ValidMessage × Noise)) : List UInt8 :=
  gap.val ++ ps.flatMap (fun q => q.1.val.bytes ++ q.2.val)

/-- On such a line the parser finds the packets and nothing else. -/
theorem parse_noisyLine (gap : Noise) (ps : List (ValidMessage × Noise)) :
    chordFormat.parse (noisyLine gap ps) = ps.map (fun q => q.1.val.bytes) := by
  unfold noisyLine
  induction ps generalizing gap with
  | nil =>
      have hskip : chordFormat.parse (gap.val ++ []) = chordFormat.parse [] :=
        Format.parse_gap gap.property (fun _ => by simp)
      rw [List.flatMap_nil, hskip, Format.parse_nil, List.map_nil]
  | cons q ps ih =>
      obtain ⟨m, g⟩ := q
      -- a gap that ends in 0xAA meets the 0xAA of the next packet, not a 0x55
      have hjoin : ∀ rest, (m.val.bytes ++ rest).head? ≠ some chordFormat.sync₁ := by
        intro rest h
        have hhead : m.val.header1 = 0x55 := Option.some.inj h
        rw [m.property.header1] at hhead
        exact absurd hhead (by decide)
      rw [List.flatMap_cons, List.append_assoc, Format.parse_gap gap.property (fun _ => hjoin _),
        Format.parse_frame m.property.isFrame, ih g, List.map_cons]

/-- **Decoding undoes encoding over a noisy line.** Whatever the payloads and the gaps contain, the packets
    are accepted in order and unchanged, and nothing else is. -/
theorem receiver_decodes_noisy_line (p : Vector UInt8 8) (gap : Noise)
    (ps : List (ValidMessage × Noise)) :
    accepted (Rx.start p) (noisyLine gap ps) = ps.map (fun q => q.1.val) := by
  have hsplit : ps.map (fun q => q.1.val.bytes)
      = (ps.map (fun q => q.1.val)).map ChordMessage.bytes := by
    rw [List.map_map]
    rfl
  have hvalid : ∀ m ∈ ps.map (fun q => q.1.val), m.Valid := by
    intro m hm
    obtain ⟨q, -, rfl⟩ := List.mem_map.mp hm
    exact q.1.property
  rw [accepted_start, parse_noisyLine, hsplit, packets_map_bytes hvalid]

end GuitarraMidi.EduCiaa
