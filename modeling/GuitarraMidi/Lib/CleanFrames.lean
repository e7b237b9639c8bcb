import GuitarraMidi.Lib.Framing

/-!
# `Lib.CleanFrames` — resynchronising on frames that do not contain the first preamble symbol

A frame is clean when its first preamble symbol stands only at its head. Where all the frames of a stream are clean, a
scanner that is caught in the middle of a frame, or that takes rubbish for the beginning of one, is back in step after
at most one frame of the stream (`parse_resync`), and the frame it has put together in the meantime is no clean one.
-/

namespace Framing

namespace Format

variable {α : Type*} {F : Format α}

/-- A frame whose first symbol does not occur again. -/
structure IsClean (F : Format α) (f : List α) : Prop where
  isFrame : F.IsFrame f
  once : F.sync₀ ∉ f.drop 1

theorem IsClean.length {f : List α} (h : F.IsClean f) : f.length = F.size := h.isFrame.1

theorem IsClean.head {f : List α} (h : F.IsClean f) : ∃ t, f = F.sync₀ :: t := by
  obtain ⟨t, rfl⟩ := h.isFrame.2
  exact ⟨_, rfl⟩

/-- A frame completed with the head of a clean one has the first preamble symbol a second time. -/
theorem not_clean_of_spliced {buf f : List α} (hbuf : 1 ≤ buf.length) (hf : F.IsClean f) {k : Nat} (hk : 1 ≤ k) :
    ¬ F.IsClean (buf ++ f.take k) := by
  intro h
  obtain ⟨t, rfl⟩ := hf.head
  obtain ⟨k, rfl⟩ := Nat.exists_eq_add_of_le' hk
  apply h.once
  rw [List.drop_append_of_le_length hbuf]
  exact List.mem_append_right _ List.mem_cons_self

variable [DecidableEq α]

/-- The end of a clean frame cut anywhere after its first symbol is skipped. -/
theorem parse_clean_tail {f : List α} (h : F.IsClean f) {k : Nat} (hk : 1 ≤ k) (rest : List α) :
    F.parse (f.drop k ++ rest) = F.parse rest := by
  apply parse_without_sync
  intro hmem
  apply h.once
  exact List.mem_of_mem_drop (i := k - 1) (by rw [List.drop_drop, Nat.add_sub_cancel' hk]; exact hmem)

theorem finish_scanStep_wf {s : Scan α} (hs : s.Wf F) (bs : List α) : (Transducer.finish F.scanStep s bs).Wf F :=
  Transducer.finish_invariant (fun s b h => scanStep_wf s b h) hs bs

/-- The frames of a stream, cut anywhere: those of the first part, and those of what is left of it and the second. -/
theorem parse_append (xs ys : List α) : F.parse (xs ++ ys)
    = F.parse xs ++ F.parse ((Transducer.finish F.scanStep .hunting xs).pending F ++ ys) := by
  have hunting : (Scan.hunting : Scan α).Wf F := trivial
  have hfirst := emit_scanStep hunting xs
  have hwhole := emit_scanStep hunting (xs ++ ys)
  rw [Transducer.emit_append, emit_scanStep (finish_scanStep_wf hunting xs), hfirst] at hwhole
  exact hwhole.symm

/-- The frames of a stream of frames. -/
theorem parse_flatten {fs : List (List α)} (hfs : ∀ f ∈ fs, F.IsClean f) : F.parse fs.flatten = fs := by
  have h := parse_frames (fun f hf => (hfs f hf).isFrame) ([] : List α)
  rwa [List.append_nil, parse_nil, List.append_nil] at h

/-- A frame begun is completed with the head of the next one, and only that one is lost. -/
theorem parse_filling {buf f : List α} (hpre : [F.sync₀, F.sync₁] <+: buf) (hlt : buf.length < F.size)
    (hf : F.IsClean f) {fs : List (List α)} (hfs : ∀ f ∈ fs, F.IsClean f) :
    F.parse (buf ++ (f :: fs).flatten) = (buf ++ f.take (F.size - buf.length)) :: fs := by
  have hcut : buf ++ (f :: fs).flatten
      = (buf ++ f.take (F.size - buf.length)) ++ (f.drop (F.size - buf.length) ++ fs.flatten) := by
    rw [List.flatten_cons, List.append_assoc, ← List.append_assoc (f.take _), List.take_append_drop]
  have hframe : F.IsFrame (buf ++ f.take (F.size - buf.length)) := by
    refine ⟨?_, hpre.trans (List.prefix_append _ _)⟩
    rw [List.length_append, List.length_take, hf.length]
    omega
  rw [hcut, parse_frame hframe, parse_clean_tail hf (Nat.sub_pos_of_lt hlt), parse_flatten hfs]

/-- **Whatever a scanner holds, it loses at most the first of a stream of clean frames**, and then it has cut out one
    frame more, which is not clean. -/
theorem parse_resync {s : Scan α} (hs : s.Wf F) {fs : List (List α)} (hfs : ∀ f ∈ fs, F.IsClean f) :
    F.parse (s.pending F ++ fs.flatten) = fs
      ∨ ∃ g, ¬ F.IsClean g ∧ F.parse (s.pending F ++ fs.flatten) = g :: fs.tail := by
  cases s with
  | hunting => exact Or.inl (parse_flatten hfs)
  | half =>
      left
      cases fs with
      | nil => exact parse_of_length_lt F.one_lt_size
      | cons f fs =>
          -- the symbol after the one held is the first of a frame
          obtain ⟨t, ht⟩ := (hfs f List.mem_cons_self).head
          have hskip : F.parse (F.sync₀ :: (f :: fs).flatten) = F.parse (f :: fs).flatten := by
            rw [List.flatten_cons, ht]
            exact parse_false_start F.sync_ne _
          exact hskip.trans (parse_flatten hfs)
  | filling buf =>
      cases fs with
      | nil =>
          left
          rw [List.flatten_nil, List.append_nil]
          exact parse_of_length_lt hs.2
      | cons f fs =>
          right
          have hbuf : 1 ≤ buf.length := Nat.le_trans (Nat.le_succ 1) hs.1.length_le
          have hf := hfs f List.mem_cons_self
          exact ⟨_, not_clean_of_spliced hbuf hf (Nat.sub_pos_of_lt hs.2),
            parse_filling hs.1 hs.2 hf (fun g hg => hfs g (List.mem_cons_of_mem f hg))⟩

end Format

end Framing
