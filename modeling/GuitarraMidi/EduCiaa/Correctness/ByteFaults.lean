import GuitarraMidi.EduCiaa.Correctness.ReceiverSim
import GuitarraMidi.Emisora.SendPacket

/-!
# `EduCiaa.Correctness.ByteFaults` — one byte replaced or deleted on the UART

The stream is split at the frame the fault falls in (`exists_frame_at`): the frames before it are received,
and the question is what the parser does with the damaged frame followed by the good ones.

* A replaced header byte hides the frame. A replaced byte of the body leaves a frame of the right length
  whose XOR is wrong.
* A deleted header byte hides the frame. A deleted byte of the body makes the receiver take the first byte
  of the next frame, a `0xAA`, as the checksum; the XOR it is compared with is the deleted byte, which is
  never `0xAA`. The rest of that next frame has no `0xAA` and is skipped.
-/

namespace GuitarraMidi.EduCiaa

open Emisora Emisora.EmisoraFrame Framing Transducer XorSum

/-! ## Where the fault falls -/

/-- A position of the stream is a position of one of its frames. -/
theorem exists_frame_at {F : List EmisoraFrame} {k : Nat} (hk : k < (stream F).length) :
    ∃ pre e post o, F = pre ++ e :: post ∧ k / chordMessageSize = pre.length
      ∧ k % chordMessageSize = o ∧ k = (stream pre).length + o ∧ o < chordMessageSize := by
  rw [length_stream] at hk
  have hframe : k / chordMessageSize < F.length := Nat.div_lt_of_lt_mul hk
  refine ⟨F.take (k / chordMessageSize), F[k / chordMessageSize], F.drop (k / chordMessageSize + 1),
    k % chordMessageSize, ?_, ?_, rfl, ?_, Nat.mod_lt k (by decide)⟩
  · rw [← List.drop_eq_getElem_cons hframe, List.take_append_drop]
  · rw [List.length_take_of_le (Nat.le_of_lt hframe)]
  · rw [length_stream, List.length_take_of_le (Nat.le_of_lt hframe)]
    exact (Nat.div_add_mod k chordMessageSize).symm

theorem eraseIdx_frame (pre post : List EmisoraFrame) (e : EmisoraFrame) :
    (pre ++ e :: post).eraseIdx pre.length = pre ++ post := by
  rw [List.eraseIdx_append_of_length_le (Nat.le_refl _), Nat.sub_self, List.eraseIdx_cons_zero]

/-! ## A replaced byte -/

/-- **The damaged frame is lost and nothing else is.** -/
theorem packets_replaced (e : EmisoraFrame) (post : List EmisoraFrame) {o : Nat}
    (ho : o < chordMessageSize) {b : UInt8} (hb : e.bytes[o]? ≠ some b) :
    packets (chordFormat.parse (e.bytes.set o b ++ stream post)) = post.map EmisoraFrame.msg := by
  match o, ho with
  | 0, _ =>
      -- without its 0xAA the frame cannot start
      have hne : b ≠ chordFormat.sync₀ := by
        rintro rfl
        exact hb rfl
      have hskip : chordFormat.parse (b :: (e.bytes.drop 1 ++ stream post))
          = chordFormat.parse (e.bytes.drop 1 ++ stream post) := Format.parse_skip hne _
      show packets (chordFormat.parse (b :: (e.bytes.drop 1 ++ stream post))) = _
      rw [hskip, e.parse_tail (Nat.le_refl 1), parse_stream, EmisoraFrame.packets_map_bytes]
  | 1, _ =>
      -- the byte in place of the 0x55 may be a 0xAA itself, but no 0x55 follows it
      have hne : b ≠ chordFormat.sync₁ := by
        rintro rfl
        exact hb rfl
      have hskip : chordFormat.parse (0xAA :: b :: (e.bytes.drop 2 ++ stream post))
          = chordFormat.parse (b :: (e.bytes.drop 2 ++ stream post)) := Format.parse_false_start hne _
      have hrest : chordFormat.parse (b :: (e.bytes.drop 2 ++ stream post))
          = chordFormat.parse (stream post) := by
        by_cases haa : b = chordFormat.sync₀
        · rw [haa]
          exact e.parse_lone_sync (Nat.le_refl 2) (by decide) _
        · rw [Format.parse_skip haa, e.parse_tail (by decide)]
      show packets (chordFormat.parse (0xAA :: b :: (e.bytes.drop 2 ++ stream post))) = _
      rw [hskip, hrest, parse_stream, EmisoraFrame.packets_map_bytes]
  | o + 2, ho =>
      have hset : e.bytes.set (o + 2) b = 0xAA :: 0x55 :: e.body.set o b := rfl
      have hbody : e.body[o]? ≠ some b := by
        rw [body, List.getElem?_drop, Nat.add_comm]
        exact hb
      obtain ⟨a, ha⟩ : ∃ a, e.body[o]? = some a :=
        ⟨_, List.getElem?_eq_getElem (Nat.lt_of_add_lt_add_right (n := 2) ho)⟩
      have hframe : chordFormat.IsFrame (e.bytes.set (o + 2) b) :=
        ⟨List.length_set, ⟨e.body.set o b, rfl⟩⟩
      -- the XOR of the body is zero before the fault, so it is not after it
      have hbad : checksumOk (e.bytes.set (o + 2) b) = false := by
        rw [Bool.eq_false_iff, Ne, checksumOk_iff List.length_set]
        show ¬ xorSum (e.body.set o b) = 0
        rw [← e.xorSum_body, xorSum_set_eq_iff ha]
        rintro rfl
        exact hbody ha
      rw [Format.parse_frame hframe, packets_cons_of_bad hbad, parse_stream,
        EmisoraFrame.packets_map_bytes]

/-! ## A deleted byte -/

/-- Without one of its header bytes, the damaged frame is skipped. -/
theorem packets_deleted_header (e : EmisoraFrame) (post : List EmisoraFrame) {o : Nat} (ho : o < 2) :
    packets (chordFormat.parse (e.bytes.eraseIdx o ++ stream post)) = post.map EmisoraFrame.msg := by
  have hskip : chordFormat.parse (e.bytes.eraseIdx o ++ stream post) = chordFormat.parse (stream post) := by
    match o, ho with
    | 0, _ => exact e.parse_tail (Nat.le_refl 1) _
    | 1, _ => exact e.parse_lone_sync (Nat.le_refl 2) (by decide) _
  rw [hskip, parse_stream, EmisoraFrame.packets_map_bytes]

/-- Without a byte of its body, the damaged frame takes the first byte of the next one with it. -/
theorem packets_deleted_body (e : EmisoraFrame) (post : List EmisoraFrame) {o : Nat}
    (ho : o + 2 < chordMessageSize) :
    packets (chordFormat.parse (e.bytes.eraseIdx (o + 2) ++ stream post))
      = post.tail.map EmisoraFrame.msg := by
  have herase : e.bytes.eraseIdx (o + 2) = 0xAA :: 0x55 :: e.body.eraseIdx o := rfl
  have hlt : o < e.body.length := Nat.lt_of_add_lt_add_right (n := 2) ho
  have hlen : (e.bytes.eraseIdx (o + 2)).length = 7 := List.length_eraseIdx_of_lt ho
  obtain ⟨a, ha⟩ : ∃ a, e.body[o]? = some a := ⟨_, List.getElem?_eq_getElem hlt⟩
  cases post with
  | nil =>
      -- the last frame stays incomplete
      have hshort : (e.bytes.eraseIdx (o + 2) ++ stream []).length < chordFormat.size := by
        rw [stream_nil, List.append_nil, hlen]
        decide
      rw [Format.parse_of_length_lt hshort]
      rfl
  | cons g post =>
      have hcut : e.bytes.eraseIdx (o + 2) ++ stream (g :: post)
          = (e.bytes.eraseIdx (o + 2) ++ [0xAA]) ++ (g.bytes.drop 1 ++ stream post) := by
        rw [List.append_assoc]
        rfl
      have hfull : (e.bytes.eraseIdx (o + 2) ++ [0xAA]).length = chordMessageSize := by
        rw [List.length_append, hlen]
        rfl
      have hframe : chordFormat.IsFrame (e.bytes.eraseIdx (o + 2) ++ [0xAA]) :=
        ⟨hfull, ⟨e.body.eraseIdx o ++ [0xAA], rfl⟩⟩
      -- the XOR is now the byte that is missing, and the checksum read is the 0xAA of the next frame
      have hbad : checksumOk (e.bytes.eraseIdx (o + 2) ++ [0xAA]) = false := by
        rw [Bool.eq_false_iff, Ne, checksumOk_iff hfull]
        show ¬ xorSum (e.body.eraseIdx o ++ [0xAA]) = 0
        rw [xorSum_append, xorSum_eraseIdx ha, e.xorSum_body, UInt8.zero_xor, xorSum_cons, xorSum_nil,
          UInt8.xor_zero, UInt8.xor_eq_zero_iff]
        rintro rfl
        exact e.sync₀_not_mem_body (List.mem_of_getElem? ha)
      rw [hcut, Format.parse_frame hframe, packets_cons_of_bad hbad, g.parse_tail (Nat.le_refl 1),
        parse_stream, EmisoraFrame.packets_map_bytes]
      rfl

/-! ## The whole stream -/

variable {F : List EmisoraFrame} {k : Nat}

/-- A replaced byte loses the frame it is in. -/
theorem accepted_replaced (p : Vector UInt8 8) (hk : k < (stream F).length) {b : UInt8}
    (hb : (stream F)[k] ≠ b) :
    accepted (Rx.start p) ((stream F).set k b) = (F.eraseIdx (k / 8)).map EmisoraFrame.msg := by
  obtain ⟨pre, e, post, o, rfl, hframe, -, hko, ho⟩ := exists_frame_at hk
  have hstream : stream (pre ++ e :: post) = stream pre ++ (e.bytes ++ stream post) := by
    rw [stream_append, stream_cons]
  have hpre : (stream pre).length ≤ k := Nat.le.intro hko.symm
  have hrel : k - (stream pre).length = o := Nat.sub_eq_of_eq_add' hko
  have hbyte : e.bytes[o]? ≠ some b := by
    intro h
    apply hb
    have hat : (stream (pre ++ e :: post))[k]? = some b := by
      rw [hstream, List.getElem?_append_right hpre, hrel, List.getElem?_append_left ho]
      exact h
    exact Option.some.inj ((List.getElem?_eq_getElem hk).symm.trans hat)
  have hset : (stream (pre ++ e :: post)).set k b = stream pre ++ (e.bytes.set o b ++ stream post) := by
    rw [hstream, List.set_append_right _ _ hpre, hrel, List.set_append_left _ _ ho]
  rw [accepted_start, hset, parse_stream_append, packets_append, EmisoraFrame.packets_map_bytes,
    packets_replaced e post ho hbyte, show k / 8 = pre.length from hframe, eraseIdx_frame, List.map_append]

/-- A deleted byte loses the frame it is in, and when it is a byte of the body the next one as well. -/
theorem accepted_deleted (p : Vector UInt8 8) (hk : k < (stream F).length) :
    accepted (Rx.start p) ((stream F).eraseIdx k)
      = (if k % 8 < 2 then F.eraseIdx (k / 8)
          else (F.eraseIdx (k / 8)).eraseIdx (k / 8)).map EmisoraFrame.msg := by
  obtain ⟨pre, e, post, o, rfl, hframe, hoff, hko, ho⟩ := exists_frame_at hk
  have hpre : (stream pre).length ≤ k := Nat.le.intro hko.symm
  have hrel : k - (stream pre).length = o := Nat.sub_eq_of_eq_add' hko
  have herase : (stream (pre ++ e :: post)).eraseIdx k
      = stream pre ++ (e.bytes.eraseIdx o ++ stream post) := by
    rw [stream_append, stream_cons, List.eraseIdx_append_of_length_le hpre, hrel,
      List.eraseIdx_append_of_lt_length ho]
  rw [accepted_start, herase, parse_stream_append, packets_append, EmisoraFrame.packets_map_bytes,
    show k / 8 = pre.length from hframe, show k % 8 = o from hoff, eraseIdx_frame]
  match o, ho with
  | 0, _ | 1, _ =>
      rw [packets_deleted_header e post (by decide), if_pos (by decide), List.map_append]
  | o + 2, ho =>
      have hbody : ¬ o + 2 < 2 := Nat.not_lt.mpr (Nat.le_add_left 2 o)
      have hnext : (pre ++ post).eraseIdx pre.length = pre ++ post.tail := by
        rw [List.eraseIdx_append_of_length_le (Nat.le_refl _), Nat.sub_self, List.eraseIdx_zero]
      rw [packets_deleted_body e post ho, if_neg hbody, hnext, List.map_append]

/-- **One byte fault costs the frame it falls in, and the next one when a byte of the body is deleted.**
    No packet is accepted that was not sent. -/
theorem receiver_single_fault (p : Vector UInt8 8) (F : List EmisoraFrame) (k : Nat)
    (hk : k < (stream F).length) :
    (∀ b, (stream F)[k] ≠ b →
      accepted (Rx.start p) ((stream F).set k b) = (F.eraseIdx (k / 8)).map EmisoraFrame.msg) ∧
    accepted (Rx.start p) ((stream F).eraseIdx k)
      = (if k % 8 < 2 then F.eraseIdx (k / 8)
          else (F.eraseIdx (k / 8)).eraseIdx (k / 8)).map EmisoraFrame.msg ∧
    (∀ b, ∀ m ∈ accepted (Rx.start p) ((stream F).set k b), m ∈ F.map EmisoraFrame.msg) ∧
    (∀ m ∈ accepted (Rx.start p) ((stream F).eraseIdx k), m ∈ F.map EmisoraFrame.msg) := by
  have hsub : F.eraseIdx (k / 8) ⊆ F := List.eraseIdx_subset
  refine ⟨?_, accepted_deleted p hk, ?_, ?_⟩
  · intro b hb
    exact accepted_replaced p hk hb
  · intro b m hm
    by_cases hb : (stream F)[k] = b
    · -- the byte put there is the one that was there
      rw [← hb, List.set_getElem_self, accepted_start, parse_stream, EmisoraFrame.packets_map_bytes] at hm
      exact hm
    · rw [accepted_replaced p hk hb] at hm
      exact List.map_subset _ hsub hm
  · intro m hm
    rw [accepted_deleted p hk] at hm
    split at hm
    · exact List.map_subset _ hsub hm
    · exact List.map_subset _ (List.Subset.trans List.eraseIdx_subset hsub) hm

/-- The checksum of the first of two frames is lost: both go. -/
theorem receiver_single_fault_checksum :
    accepted (Rx.start (Vector.replicate 8 0))
      ((stream [⟨3, velNormal, by decide, Or.inl rfl⟩, ⟨5, velFuerte, by decide, Or.inr rfl⟩]).eraseIdx 7)
      = [] :=
  (receiver_single_fault (Vector.replicate 8 0)
    [⟨3, velNormal, by decide, Or.inl rfl⟩, ⟨5, velFuerte, by decide, Or.inr rfl⟩] 7 (by decide)).2.1

end GuitarraMidi.EduCiaa
