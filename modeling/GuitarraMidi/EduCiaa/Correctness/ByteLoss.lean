import GuitarraMidi.EduCiaa.Correctness.ByteFaults
import GuitarraMidi.EduCiaa.Chords

/-!
# `EduCiaa.Correctness.ByteLoss` — a run of bytes lost on the UART

Losing the bytes from `start` to `stop` joins the first `a` bytes of one frame to what follows the first
`c` bytes of another. If at least the preamble of the first frame is kept, the receiver completes a packet
across the cut, and everything depends on whether its XOR comes out right.

Up to the lowest bit a frame is `AA 54 00 00 00 00 v v`, so most ways of joining two frames are told apart
by the offsets alone (`splice_check`, `overrun_check`): when more is lost than kept the packet runs into the
`0xAA` of a third frame and never passes, and when it does pass the offsets are those of `Spliceable` or the
packet is one of the two frames. At the offsets of `Spliceable` only button bytes differ, and an XOR does
not see two of them change: there a packet nobody sent can be accepted (`spliceable_realised`).
-/

namespace GuitarraMidi.EduCiaa

open Emisora Emisora.EmisoraFrame Framing Transducer XorSum

/-- The stream without the bytes from `start` to `stop`. -/
def lossy (F : List EmisoraFrame) (start stop : Nat) : List UInt8 :=
  (stream F).take start ++ (stream F).drop stop

/-- The offsets at which a run of lost bytes can be cut out of two frames without the XOR noticing. -/
def Spliceable (a c : Nat) : Prop := 4 ≤ a ∧ a ≤ 6 ∧ 2 ≤ c ∧ c ≤ a ∧ c + 1 ≠ a

instance (a c : Nat) : Decidable (Spliceable a c) := inferInstanceAs (Decidable (_ ∧ _))

/-- The eight bytes read across the cut, when what is left of `g` suffices. -/
def splice (e g : EmisoraFrame) (a c : Nat) : List UInt8 :=
  e.bytes.take a ++ (g.bytes.drop c).take (8 - a)

/-! ## Offsets the XOR tells apart -/

/-- A frame up to the lowest bit of each byte. -/
def evenShape (v : UInt8) : List UInt8 := [0xAA, 0x54, 0, 0, 0, 0, v, v]

/-- Only at these offsets can the XOR of two joined frames come out right up to the lowest bits. -/
theorem splice_check {v w : UInt8} (hv : v = velNormal ∨ v = velFuerte) (hw : w = velNormal ∨ w = velFuerte) :
    ∀ a < 8, ∀ c < 8, (2 ≤ a ∧ c ≤ a
      ∧ xorSum (((evenShape v).take a ++ ((evenShape w).drop c).take (8 - a)).drop 2) = 0) →
    Spliceable a c ∨ (a = c ∧ a ≤ 3) ∨ (a = 7 ∧ 6 ≤ c) := by
  rcases hv with rfl | rfl <;> rcases hw with rfl | rfl <;> decide +kernel

/-- A packet that runs into a third frame has a wrong XOR already up to the lowest bits. -/
theorem overrun_check {u v w : UInt8} (hu : u = velNormal ∨ u = velFuerte)
    (hv : v = velNormal ∨ v = velFuerte) (hw : w = velNormal ∨ w = velFuerte) :
    ∀ a < 8, ∀ c < 8, (2 ≤ a ∧ a < c) →
    xorSum (((evenShape u).take a ++ ((evenShape v).drop c ++ (evenShape w).take (c - a))).drop 2) ≠ 0 := by
  rcases hu with rfl | rfl <;> rcases hv with rfl | rfl <;> rcases hw with rfl | rfl <;> decide +kernel

/-- What passes the test passes it on the higher bits. -/
theorem even_xor_of_ok {f : List UInt8} (hlen : f.length = chordMessageSize) (hok : checksumOk f = true) :
    xorSum ((f.map (· &&& 0xFE)).drop 2) = 0 := by
  rw [← List.map_drop, xorSum_map_and, (checksumOk_iff hlen).mp hok]
  rfl

/-! ## The packet across the cut -/

variable (e g : EmisoraFrame) (post : List EmisoraFrame) {a c : Nat}

theorem length_splice (ha : a < 8) (hca : c ≤ a) : (splice e g a c).length = chordMessageSize := by
  unfold splice
  rw [List.length_append, List.length_take, List.length_take, List.length_drop,
    EmisoraFrame.length_bytes, EmisoraFrame.length_bytes]
  unfold chordMessageSize
  omega

/-- Two keeping the preamble, what is kept starts a packet. -/
theorem preamble_prefix_take (ha : 2 ≤ a) : [0xAA, 0x55] <+: e.bytes.take a := by
  obtain ⟨a, rfl⟩ := Nat.exists_eq_add_of_le' ha
  exact ⟨e.body.take a, rfl⟩

/-- When no more is lost than kept, the packet is completed inside `g`, whose rest is skipped. -/
theorem parse_splice (ha : 2 ≤ a) (ha' : a < 8) (hca : c ≤ a) :
    chordFormat.parse (e.bytes.take a ++ (g.bytes.drop c ++ stream post))
      = splice e g a c :: post.map bytes := by
  have hcut : e.bytes.take a ++ (g.bytes.drop c ++ stream post)
      = splice e g a c ++ (g.bytes.drop (c + (8 - a)) ++ stream post) := by
    rw [splice, List.append_assoc, ← List.append_assoc ((g.bytes.drop c).take _), ← List.drop_drop,
      List.take_append_drop]
  have hframe : chordFormat.IsFrame (splice e g a c) :=
    ⟨length_splice e g ha' hca, (preamble_prefix_take e ha).trans (List.prefix_append _ _)⟩
  rw [hcut, Format.parse_frame hframe, g.parse_tail (by omega), parse_stream]

/-- **A packet accepted across the cut is one of the two frames, outside the offsets of `Spliceable`.** -/
theorem splice_ok (ha : 2 ≤ a) (ha' : a < 8) (hc : c < 8) (hca : c ≤ a)
    (hok : checksumOk (splice e g a c) = true) :
    splice e g a c = e.bytes ∨ splice e g a c = g.bytes ∨ Spliceable a c := by
  have hlen := length_splice e g ha' hca
  have heven : (splice e g a c).map (· &&& 0xFE)
      = (evenShape e.velocity).take a ++ ((evenShape g.velocity).drop c).take (8 - a) := by
    rw [splice, List.map_append, List.map_take, List.map_take, List.map_drop, e.bytes_even, g.bytes_even]
    rfl
  have hsum := even_xor_of_ok hlen hok
  rw [heven] at hsum
  have hxor : xorSum ((splice e g a c).drop 2) = 0 := (checksumOk_iff hlen).mp hok
  rcases splice_check e.velocity_mem g.velocity_mem a ha' c hc ⟨ha, hca, hsum⟩ with
    h | ⟨rfl, hsmall⟩ | ⟨rfl, hlarge⟩
  · exact Or.inr (Or.inr h)
  · -- at most the first button byte is not from `g`, and the XOR determines it
    right; left
    rcases (show a = 2 ∨ a = 3 by omega) with rfl | rfl
    · rfl
    · have hfirst : xorSum ([] ++ e.msg.botones[0] :: g.bytes.drop 3)
          = xorSum ([] ++ g.msg.botones[0] :: g.bytes.drop 3) := hxor.trans g.xorSum_body.symm
      have hbyte : e.msg.botones[0] = g.msg.botones[0] := xorSum_replace_iff.mp hfirst
      have hsplice : splice e g 3 3 = ([0xAA, 0x55, e.msg.botones[0]] : List UInt8) ++ g.bytes.drop 3 := rfl
      rw [hsplice, hbyte]
      rfl
  · -- only the checksum is not from `e`, and the XOR determines it
    left
    have hone : (g.bytes.drop c).take (8 - 7) = [g.bytes[c]] := by
      rw [List.drop_eq_getElem_cons hc]
      rfl
    have hsplit : splice e g 7 c = e.bytes.take 7 ++ [g.bytes[c]] := by rw [splice, hone]
    rw [hsplit] at hxor
    have hlast : xorSum ((e.bytes.take 7).drop 2 ++ g.bytes[c] :: [])
        = xorSum ((e.bytes.take 7).drop 2 ++ e.msg.checksum :: []) :=
      hxor.trans e.xorSum_body.symm
    have hbyte : g.bytes[c] = e.msg.checksum := xorSum_replace_iff.mp hlast
    rw [hsplit, hbyte]
    rfl

/-- **When more is lost than kept, the packet runs into the next frame and is rejected.** -/
theorem packets_overrun (ha : 2 ≤ a) (hac : a < c) (hc : c < 8) :
    packets (chordFormat.parse (e.bytes.take a ++ (g.bytes.drop c ++ stream post)))
      = post.tail.map EmisoraFrame.msg := by
  have hkept : (e.bytes.take a ++ g.bytes.drop c).length = a + (8 - c) := by
    rw [List.length_append, List.length_take, List.length_drop, EmisoraFrame.length_bytes,
      EmisoraFrame.length_bytes]
    unfold chordMessageSize
    omega
  cases post with
  | nil =>
      have hshort : (e.bytes.take a ++ (g.bytes.drop c ++ stream [])).length < chordFormat.size := by
        rw [stream_nil, List.append_nil, hkept, chordFormat_size]
        unfold chordMessageSize
        omega
      rw [Format.parse_of_length_lt hshort]
      rfl
  | cons h post =>
      have hcut : e.bytes.take a ++ (g.bytes.drop c ++ stream (h :: post))
          = (e.bytes.take a ++ (g.bytes.drop c ++ h.bytes.take (c - a)))
            ++ (h.bytes.drop (c - a) ++ stream post) := by
        conv_lhs => rw [stream_cons, ← List.take_append_drop (c - a) h.bytes]
        simp only [List.append_assoc]
      have hlen : (e.bytes.take a ++ (g.bytes.drop c ++ h.bytes.take (c - a))).length = chordMessageSize := by
        rw [← List.append_assoc, List.length_append, hkept, List.length_take, EmisoraFrame.length_bytes]
        unfold chordMessageSize
        omega
      have hframe : chordFormat.IsFrame (e.bytes.take a ++ (g.bytes.drop c ++ h.bytes.take (c - a))) :=
        ⟨hlen, (preamble_prefix_take e ha).trans (List.prefix_append _ _)⟩
      have heven : (e.bytes.take a ++ (g.bytes.drop c ++ h.bytes.take (c - a))).map (· &&& 0xFE)
          = (evenShape e.velocity).take a
            ++ ((evenShape g.velocity).drop c ++ (evenShape h.velocity).take (c - a)) := by
        rw [List.map_append, List.map_append, List.map_take, List.map_drop, List.map_take, e.bytes_even,
          g.bytes_even, h.bytes_even]
        rfl
      have hbad : checksumOk (e.bytes.take a ++ (g.bytes.drop c ++ h.bytes.take (c - a))) = false := by
        rw [Bool.eq_false_iff]
        intro hok
        have hsum := even_xor_of_ok hlen hok
        rw [heven] at hsum
        exact overrun_check e.velocity_mem g.velocity_mem h.velocity_mem a (Nat.lt_trans hac hc) c hc
          ⟨ha, hac⟩ hsum
      rw [hcut, Format.parse_frame hframe, packets_cons_of_bad hbad, h.parse_tail (by omega),
        parse_stream, EmisoraFrame.packets_map_bytes]
      rfl

/-- Without the whole preamble, nothing is completed across the cut: reception goes on with `g` if it is
    whole, and with the frame after it otherwise. -/
theorem packets_no_preamble (ha : a < 2) (hc : c < 8) :
    ∃ after, after <:+ g :: post ∧
      packets (chordFormat.parse (e.bytes.take a ++ (g.bytes.drop c ++ stream post)))
        = after.map EmisoraFrame.msg := by
  have hwhole : packets (chordFormat.parse (stream (g :: post))) = (g :: post).map EmisoraFrame.msg := by
    rw [parse_stream, EmisoraFrame.packets_map_bytes]
  have hrest : packets (chordFormat.parse (stream post)) = post.map EmisoraFrame.msg := by
    rw [parse_stream, EmisoraFrame.packets_map_bytes]
  match a, c, ha, hc with
  | 0, 0, _, _ => exact ⟨g :: post, List.suffix_refl _, hwhole⟩
  | 0, c + 1, _, _ =>
      -- only the end of `g` is left, and it holds no 0xAA
      refine ⟨post, List.suffix_cons g post, ?_⟩
      exact (congrArg packets (g.parse_tail (Nat.le_add_left 1 c) (stream post))).trans hrest
  | 1, 0, _, _ =>
      -- the 0xAA kept meets the one of `g`
      refine ⟨g :: post, List.suffix_refl _, ?_⟩
      rw [← hwhole]
      exact congrArg packets (Format.parse_false_start (F := chordFormat) (b := 0xAA) (by decide) _)
  -- the 0xAA kept takes the place of the one lost
  | 1, 1, _, _ => exact ⟨g :: post, List.suffix_refl _, hwhole⟩
  | 1, c + 2, _, hc =>
      refine ⟨post, List.suffix_cons g post, ?_⟩
      exact (congrArg packets (g.parse_lone_sync (Nat.le_add_left 2 c) hc (stream post))).trans hrest

/-- What is received from the cut on: at most one packet across it, then frames sent. -/
def CutOutcome (a c : Nat) (out : List ChordMessage) : Prop :=
  ∃ (across : List ChordMessage) (after : List EmisoraFrame),
    out = across ++ after.map EmisoraFrame.msg ∧ after <:+ g :: post ∧ across.length ≤ 1 ∧
    ∀ m ∈ across, m = e.msg ∨ m = g.msg ∨ (Spliceable a c ∧ m.bytes = splice e g a c)

theorem cutOutcome (ha : a < 8) (hc : c < 8) :
    CutOutcome e g post a c
      (packets (chordFormat.parse (e.bytes.take a ++ (g.bytes.drop c ++ stream post)))) := by
  have hnone : ∀ m ∈ ([] : List ChordMessage),
      m = e.msg ∨ m = g.msg ∨ (Spliceable a c ∧ m.bytes = splice e g a c) := by
    intro m hm
    exact absurd hm List.not_mem_nil
  by_cases ha₂ : a < 2
  · obtain ⟨after, hsuf, hout⟩ := packets_no_preamble e g post ha₂ hc
    exact ⟨[], after, hout, hsuf, Nat.zero_le 1, hnone⟩
  · have ha₂ : 2 ≤ a := Nat.le_of_not_lt ha₂
    by_cases hca : c ≤ a
    · rw [parse_splice e g post ha₂ ha hca]
      cases hok : checksumOk (splice e g a c) with
      | false =>
          rw [packets_cons_of_bad hok, EmisoraFrame.packets_map_bytes]
          exact ⟨[], post, rfl, List.suffix_cons g post, Nat.zero_le 1, hnone⟩
      | true =>
          rw [packets_cons_of_ok hok, EmisoraFrame.packets_map_bytes]
          refine ⟨[ChordMessage.ofBytes (splice e g a c)], post, rfl, List.suffix_cons g post,
            Nat.le_refl 1, ?_⟩
          intro m hm
          rw [List.mem_singleton.mp hm]
          rcases splice_ok e g ha₂ ha hc hca hok with h | h | h
          · left; rw [h, e.ofBytes_bytes]
          · right; left; rw [h, g.ofBytes_bytes]
          · right; right
            exact ⟨h, ChordMessage.bytes_ofBytes (length_splice e g ha hca)⟩
    · rw [packets_overrun e g post ha₂ (Nat.lt_of_not_le hca) hc]
      refine ⟨[], post.tail, rfl, ?_, Nat.zero_le 1, hnone⟩
      exact (List.tail_suffix post).trans (List.suffix_cons g post)

/-! ## The whole stream -/

variable (p : Vector UInt8 8) (F : List EmisoraFrame)

/-- What a run of bytes lost from `start` to `stop` leaves of the frames sent. -/
def LossOutcome (start stop : Nat) (out : List ChordMessage) : Prop :=
  ∃ (before : List EmisoraFrame) (across : List ChordMessage) (after : List EmisoraFrame),
    out = before.map EmisoraFrame.msg ++ across ++ after.map EmisoraFrame.msg ∧
    before <+: F ∧ after <:+ F ∧ across.length ≤ 1 ∧
    ∀ m ∈ across, m ∈ F.map EmisoraFrame.msg ∨
      (Spliceable (start % 8) (stop % 8) ∧ ∃ e g, F[start / 8]? = some e ∧ F[stop / 8]? = some g ∧
        m.bytes = splice e g (start % 8) (stop % 8))

/-- A stream cut off anywhere loses the frame it is cut off in. -/
theorem accepted_cut_off {start : Nat} (h : start ≤ (stream F).length) :
    ∃ before, accepted (Rx.start p) ((stream F).take start) = before.map EmisoraFrame.msg
      ∧ before <+: F := by
  rcases Nat.lt_or_eq_of_le h with hlt | rfl
  · obtain ⟨pre, e, post, o, rfl, -, -, rfl, ho⟩ := exists_frame_at hlt
    have htake : (stream (pre ++ e :: post)).take ((stream pre).length + o)
        = stream pre ++ e.bytes.take o := by
      rw [stream_append, stream_cons, List.take_length_add_append,
        List.take_append_of_le_length (Nat.le_of_lt ho)]
    have hshort : (e.bytes.take o).length < chordFormat.size :=
      Nat.lt_of_le_of_lt (List.length_take_le o e.bytes) ho
    refine ⟨pre, ?_, List.prefix_append _ _⟩
    rw [accepted_start, htake, parse_stream_append, Format.parse_of_length_lt hshort, List.append_nil,
      EmisoraFrame.packets_map_bytes]
  · refine ⟨F, ?_, List.prefix_refl F⟩
    rw [accepted_start, List.take_length, parse_stream, EmisoraFrame.packets_map_bytes]

/-- **What a run of lost bytes can do.** -/
theorem lossOutcome {start stop : Nat} (hle : start ≤ stop) (hlen : stop ≤ (stream F).length) :
    LossOutcome F start stop (accepted (Rx.start p) (lossy F start stop)) := by
  rcases Nat.lt_or_eq_of_le hlen with hstop | rfl
  · obtain ⟨pre, e, post, a, hF, hdiv, hmod, hstart, ha⟩ :=
      exists_frame_at (Nat.lt_of_le_of_lt hle hstop)
    obtain ⟨pre', g, post', c, hF', hdiv', hmod', hstop, hc⟩ := exists_frame_at hstop
    have hcut : lossy F start stop
        = stream pre ++ (e.bytes.take a ++ (g.bytes.drop c ++ stream post')) := by
      have hkeep : (stream F).take start = stream pre ++ e.bytes.take a := by
        rw [hF, stream_append, stream_cons, hstart, List.take_length_add_append,
          List.take_append_of_le_length (Nat.le_of_lt ha)]
      have hrest : (stream F).drop stop = g.bytes.drop c ++ stream post' := by
        rw [hF', stream_append, stream_cons, hstop, List.drop_length_add_append,
          List.drop_append_of_le_length (Nat.le_of_lt hc)]
      rw [lossy, hkeep, hrest, List.append_assoc]
    obtain ⟨across, after, hout, hsuf, hone, hacross⟩ := cutOutcome e g post' ha hc
    refine ⟨pre, across, after, ?_, ?_, ?_, hone, ?_⟩
    · rw [accepted_start, hcut, parse_stream_append, packets_append, EmisoraFrame.packets_map_bytes, hout,
        List.append_assoc]
    · exact hF ▸ List.prefix_append _ _
    · exact hsuf.trans (hF' ▸ List.suffix_append _ _)
    · intro m hm
      have he : F[start / 8]? = some e := by
        rw [show start / 8 = pre.length from hdiv, hF, List.getElem?_append_right (Nat.le_refl _),
          Nat.sub_self, List.getElem?_cons_zero]
      have hg : F[stop / 8]? = some g := by
        rw [show stop / 8 = pre'.length from hdiv', hF', List.getElem?_append_right (Nat.le_refl _),
          Nat.sub_self, List.getElem?_cons_zero]
      rw [show start % 8 = a from hmod, show stop % 8 = c from hmod']
      rcases hacross m hm with rfl | rfl | ⟨hoffsets, hbytes⟩
      · exact Or.inl (List.mem_map_of_mem (List.mem_of_getElem? he))
      · exact Or.inl (List.mem_map_of_mem (List.mem_of_getElem? hg))
      · exact Or.inr ⟨hoffsets, e, g, he, hg, hbytes⟩
  · obtain ⟨before, hbefore, hpre⟩ := accepted_cut_off p F hle
    refine ⟨before, [], [], ?_, hpre, List.nil_suffix, Nat.zero_le 1, ?_⟩
    · rw [lossy, List.drop_length, List.append_nil, hbefore, List.map_nil, List.append_nil, List.append_nil]
    · intro m hm
      exact absurd hm List.not_mem_nil

/-- Outside the offsets of `Spliceable`, only frames sent are accepted. -/
theorem LossOutcome.all_sent {F : List EmisoraFrame} {start stop : Nat} {out : List ChordMessage}
    (h : LossOutcome F start stop out) (hoffsets : ¬ Spliceable (start % 8) (stop % 8))
    {m : ChordMessage} (hm : m ∈ out) : m ∈ F.map EmisoraFrame.msg := by
  obtain ⟨before, across, after, rfl, hpre, hsuf, -, hacross⟩ := h
  rcases List.mem_append.mp hm with hm | hm
  · rcases List.mem_append.mp hm with hm | hm
    · exact (List.map_subset _ hpre.subset) hm
    · rcases hacross m hm with hsent | ⟨hbad, -⟩
      · exact hsent
      · exact absurd hbad hoffsets
  · exact (List.map_subset _ hsuf.subset) hm

/-- Two strums whose frames can be joined at all the offsets of `Spliceable`. -/
def twoStrums : List EmisoraFrame :=
  [⟨3, velNormal, by decide, Or.inl rfl⟩, ⟨0, velFuerte, by decide, Or.inr rfl⟩]

theorem spliceable_realised : ∀ a < 7, ∀ c < 7, Spliceable a c →
    ∃ m ∈ accepted (Rx.start (Vector.replicate 8 0)) (lossy twoStrums a (8 + c)),
      ∀ f ∈ twoStrums, buttonsAndVelocity m ≠ buttonsAndVelocity f.msg := by
  decide +kernel

/-- **A run of lost bytes invents a chord only when it is cut out at the offsets of `Spliceable`.** Up to one
    packet across the cut, what is accepted is a prefix and a suffix of the frames sent; at any other offsets
    that packet is one of the frames too, and at each of these some frames lead to a packet nobody sent. -/
theorem receiver_byte_loss (p : Vector UInt8 8) :
    (∀ (F : List EmisoraFrame) (start stop : Nat), start ≤ stop → stop ≤ (stream F).length →
      LossOutcome F start stop (accepted (Rx.start p) (lossy F start stop)) ∧
      (¬ Spliceable (start % 8) (stop % 8) → ∀ m ∈ accepted (Rx.start p) (lossy F start stop),
        ∃ f ∈ F, buttonsAndVelocity m = buttonsAndVelocity f.msg)) ∧
    (∀ a c, Spliceable a c → ∃ F : List EmisoraFrame, 8 + c ≤ (stream F).length ∧
      ∃ m ∈ accepted (Rx.start p) (lossy F a (8 + c)),
        ∀ f ∈ F, buttonsAndVelocity m ≠ buttonsAndVelocity f.msg) := by
  constructor
  · intro F start stop hle hlen
    have hout := lossOutcome p F hle hlen
    refine ⟨hout, ?_⟩
    intro hoffsets m hm
    obtain ⟨f, hf, rfl⟩ := List.mem_map.mp (hout.all_sent hoffsets hm)
    exact ⟨f, hf, rfl⟩
  · intro a c hoffsets
    obtain ⟨-, ha, -, hca, -⟩ := id hoffsets
    have hreal := spliceable_realised a (by omega) c (by omega) hoffsets
    -- what was in the buffer before does not matter
    rw [accepted_start, ← accepted_start p] at hreal
    refine ⟨twoStrums, ?_, hreal⟩
    rw [length_stream]
    show 8 + c ≤ 16
    omega

/-- The last five bytes of a frame and the first two of the next are lost, and nothing else. -/
theorem receiver_byte_loss_two_frames :
    ∀ m ∈ accepted (Rx.start (Vector.replicate 8 0)) (lossy twoStrums 3 10),
      ∃ f ∈ twoStrums, buttonsAndVelocity m = buttonsAndVelocity f.msg :=
  (((receiver_byte_loss (Vector.replicate 8 0)).1 twoStrums 3 10 (by decide) (by decide)).2 (by decide))

/-- Losing the last two bytes of a frame and the first six of the next plays the buttons of one strum with
    the velocity of the other. -/
theorem receiver_byte_loss_invents :
    (accepted (Rx.start (Vector.replicate 8 0)) (lossy twoStrums 6 14)).map buttonsAndVelocity = [(3, 120)] ∧
    twoStrums.map (fun f => buttonsAndVelocity f.msg) = [(3, 80), (0, 120)] ∧
    ¬ ∀ m ∈ accepted (Rx.start (Vector.replicate 8 0)) (lossy twoStrums 6 14),
      ∃ f ∈ twoStrums, buttonsAndVelocity m = buttonsAndVelocity f.msg := by
  refine ⟨?_, ?_, ?_⟩ <;> decide +kernel

end GuitarraMidi.EduCiaa
