import GuitarraMidi.Lib.Transducer
import Mathlib.Data.List.Infix

/-!
# `Lib.Framing` — fixed-size frames behind a two-symbol preamble

A byte stream without delimiters is cut into frames by a **preamble**: a frame starts with `sync₀, sync₁`
and is `size` symbols long. Two descriptions of the receiver are given and proved equal:

* `Format.parse` works on the whole stream: find the leftmost preamble, take `size` symbols, go on after
  them;
* `Format.scanStep` is fed one symbol at a time and keeps only what it needs (`Scan`).

What ties them together is `Scan.pending`: the symbols the scanner still holds. Feeding `bs` to a scanner
in state `s` emits exactly `parse (s.pending ++ bs)` (`emit_scanStep`), so every question about a receiver
caught in the middle of a frame is a question about `parse` on a longer stream. The rest of the file is how
`parse` goes through the pieces a stream is made of: frames, gaps, and tails too short to be a frame.

Whether a frame's contents are valid is not the framing's business: `parse` returns every frame it cuts
out, and a client filters them.
-/

namespace Framing

open Transducer

variable {α : Type*}

/-- What a framing is fixed by: the two preamble symbols and the length of a frame, preamble included. -/
structure Format (α : Type*) where
  sync₀ : α
  sync₁ : α
  size : Nat
  sync_ne : sync₀ ≠ sync₁
  two_lt_size : 2 < size

namespace Format

variable (F : Format α)

/-- `f` has the shape of a frame: the right length, starting with the preamble. -/
def IsFrame (f : List α) : Prop := f.length = F.size ∧ [F.sync₀, F.sync₁] <+: f

/-- A stretch of symbols in which `sync₀` is never immediately followed by `sync₁`. -/
def IsGap (g : List α) : Prop := ¬ [F.sync₀, F.sync₁] <:+: g

theorem one_lt_size : 1 < F.size := Nat.lt_trans (Nat.lt_succ_self 1) F.two_lt_size

/-! ## The batch parser -/

variable [DecidableEq α]

/-- The stream from its leftmost preamble on; empty when there is none. -/
def seek : List α → List α
  | a :: b :: rest =>
      if a = F.sync₀ ∧ b = F.sync₁ then a :: b :: rest else seek (b :: rest)
  | _ => []

theorem seek_length_le (bs : List α) : (F.seek bs).length ≤ bs.length := by
  fun_induction seek F bs with
  | case1 => exact Nat.le_refl _
  | case2 a b rest _ ih => exact Nat.le_trans ih (Nat.le_succ _)
  | case3 => exact Nat.zero_le _

/-- The frames of a stream, each cut out at the leftmost preamble after the one before it. -/
def parse (bs : List α) : List (List α) :=
  if (F.seek bs).length < F.size then []
  else (F.seek bs).take F.size :: parse ((F.seek bs).drop F.size)
termination_by bs.length
decreasing_by
  have hseek := F.seek_length_le bs
  have hsize := F.two_lt_size
  simp only [List.length_drop]
  omega

variable {F}

theorem seek_skip {a : α} (ha : a ≠ F.sync₀) (bs : List α) : F.seek (a :: bs) = F.seek bs := by
  cases bs with
  | nil => rfl
  | cons b rest =>
      rw [seek, if_neg]
      intro h
      exact ha h.1

theorem seek_false_start {b : α} (hb : b ≠ F.sync₁) (bs : List α) :
    F.seek (F.sync₀ :: b :: bs) = F.seek (b :: bs) := by
  rw [seek, if_neg]
  intro h
  exact hb h.2

theorem seek_of_preamble {bs : List α} (h : [F.sync₀, F.sync₁] <+: bs) : F.seek bs = bs := by
  obtain ⟨t, rfl⟩ := h
  simp [seek]

/-- What `seek` finds starts with the preamble. -/
theorem seek_preamble {bs : List α} (h : F.seek bs ≠ []) : [F.sync₀, F.sync₁] <+: F.seek bs := by
  fun_induction seek F bs with
  | case1 a b rest hab => exact ⟨rest, by rw [hab.1, hab.2]; rfl⟩
  | case2 a b rest _ ih => exact ih h
  | case3 => exact absurd rfl h

/-- `parse` depends only on what `seek` finds. -/
theorem parse_congr {bs cs : List α} (h : F.seek bs = F.seek cs) : F.parse bs = F.parse cs := by
  conv_lhs => rw [parse]
  rw [h, ← parse]

theorem parse_of_length_lt {bs : List α} (h : bs.length < F.size) : F.parse bs = [] := by
  rw [parse, if_pos (Nat.lt_of_le_of_lt (F.seek_length_le bs) h)]

@[simp] theorem parse_nil : F.parse [] = [] :=
  parse_of_length_lt (Nat.lt_trans Nat.one_pos F.one_lt_size)

/-- **Everything `parse` returns is a frame.** -/
theorem isFrame_of_mem_parse {f bs : List α} (h : f ∈ F.parse bs) : F.IsFrame f := by
  fun_induction parse F bs with
  | case1 => exact absurd h List.not_mem_nil
  | case2 bs hlong ih =>
      rcases List.mem_cons.mp h with rfl | h
      · have hne : F.seek bs ≠ [] := by
          intro hnil
          rw [hnil] at hlong
          exact hlong (Nat.lt_trans Nat.one_pos F.one_lt_size)
        refine ⟨List.length_take_of_le (Nat.le_of_not_lt hlong), ?_⟩
        -- the preamble is no longer than what is taken
        rw [List.prefix_take_iff]
        exact ⟨seek_preamble hne, Nat.le_of_lt F.two_lt_size⟩
      · exact ih h

/-- A symbol that cannot start a preamble is skipped. -/
theorem parse_skip {a : α} (ha : a ≠ F.sync₀) (bs : List α) : F.parse (a :: bs) = F.parse bs :=
  parse_congr (seek_skip ha bs)

/-- `sync₀` not followed by `sync₁` is skipped, and only it: what follows may itself be `sync₀`. -/
theorem parse_false_start {b : α} (hb : b ≠ F.sync₁) (bs : List α) :
    F.parse (F.sync₀ :: b :: bs) = F.parse (b :: bs) :=
  parse_congr (seek_false_start hb bs)

/-- **A frame at the head of the stream is cut out**, whatever its payload contains. -/
theorem parse_frame {f : List α} (hf : F.IsFrame f) (rest : List α) :
    F.parse (f ++ rest) = f :: F.parse rest := by
  obtain ⟨hlen, hpre⟩ := hf
  have hseek : F.seek (f ++ rest) = f ++ rest := seek_of_preamble (hpre.trans (List.prefix_append f rest))
  rw [parse, hseek, if_neg (by rw [List.length_append]; omega), ← hlen, List.take_left, List.drop_left]

/-- A whole list of frames at the head of the stream is cut out. -/
theorem parse_frames {fs : List (List α)} (hfs : ∀ f ∈ fs, F.IsFrame f) (rest : List α) :
    F.parse (fs.flatten ++ rest) = fs ++ F.parse rest := by
  induction fs with
  | nil => rfl
  | cons f fs ih =>
      have hrest : ∀ g ∈ fs, F.IsFrame g := by
        intro g hg
        exact hfs g (List.mem_cons_of_mem f hg)
      rw [List.flatten_cons, List.append_assoc, parse_frame (hfs f List.mem_cons_self), ih hrest,
        List.cons_append]

/-- **A gap is skipped**, provided its last symbol and the first one after it do not make a preamble. -/
theorem parse_gap {g : List α} (hg : F.IsGap g) {rest : List α}
    (hjoin : g.getLast? = some F.sync₀ → rest.head? ≠ some F.sync₁) :
    F.parse (g ++ rest) = F.parse rest := by
  induction g with
  | nil => rfl
  | cons a g ih =>
      have hg' : F.IsGap g := by
        intro h
        exact hg (h.trans (List.suffix_cons a g).isInfix)
      by_cases ha : a = F.sync₀
      · subst ha
        cases g with
        | nil =>
            -- the gap ends in `sync₀`: what comes after it decides
            cases rest with
            | nil =>
                have hlone : F.parse [F.sync₀] = [] := parse_of_length_lt F.one_lt_size
                rw [List.append_nil, hlone, parse_nil]
            | cons r rest =>
                refine parse_false_start (fun hr => hjoin rfl ?_) rest
                rw [List.head?_cons, hr]
        | cons b g =>
            have hb : b ≠ F.sync₁ := by
              rintro rfl
              exact hg ⟨[], g, rfl⟩
            refine (parse_false_start hb (g ++ rest)).trans (ih hg' ?_)
            intro h
            rw [List.getLast?_cons_cons] at hjoin
            exact hjoin h
      · refine (parse_skip ha (g ++ rest)).trans (ih hg' ?_)
        intro h
        apply hjoin
        cases g with
        | nil => exact absurd h (by simp)
        | cons b g => rw [List.getLast?_cons_cons]; exact h

/-- A stretch without `sync₀` is skipped whatever comes after it. -/
theorem parse_without_sync {g : List α} (hg : F.sync₀ ∉ g) (rest : List α) :
    F.parse (g ++ rest) = F.parse rest := by
  induction g with
  | nil => rfl
  | cons a g ih =>
      have ha : a ≠ F.sync₀ := by
        rintro rfl
        exact hg List.mem_cons_self
      have hg' : F.sync₀ ∉ g := by
        intro h
        exact hg (List.mem_cons_of_mem a h)
      exact (parse_skip ha (g ++ rest)).trans (ih hg')

end Format

/-! ## The scanner -/

/-- What a scanner fed one symbol at a time remembers: nothing, a `sync₀` that may start a preamble, or
    the frame it is filling. -/
inductive Scan (α : Type*)
  | hunting
  | half
  | filling (buf : List α)

/-- The symbols a scanner still holds. -/
def Scan.pending (F : Format α) : Scan α → List α
  | .hunting => []
  | .half => [F.sync₀]
  | .filling buf => buf

/-- A frame being filled starts with the preamble and is not complete. -/
def Scan.Wf (F : Format α) : Scan α → Prop
  | .filling buf => [F.sync₀, F.sync₁] <+: buf ∧ buf.length < F.size
  | _ => True

namespace Format

variable [DecidableEq α] (F : Format α)

/-- One symbol: the next state, and the frame it completes, if it does. -/
def scanStep : Scan α → α → Scan α × List (List α)
  | .hunting, b => (if b = F.sync₀ then .half else .hunting, [])
  | .half, b =>
      if b = F.sync₁ then (.filling [F.sync₀, F.sync₁], [])
      else (if b = F.sync₀ then .half else .hunting, [])
  | .filling buf, b =>
      if F.size ≤ buf.length + 1 then (.hunting, [buf ++ [b]]) else (.filling (buf ++ [b]), [])

variable {F}

theorem scanStep_wf (s : Scan α) (b : α) (hs : s.Wf F) : (F.scanStep s b).1.Wf F := by
  cases s with
  | hunting => simp only [scanStep]; split <;> trivial
  | half =>
      simp only [scanStep]
      split
      · exact ⟨List.prefix_refl _, F.two_lt_size⟩
      · dsimp only; split <;> trivial
  | filling buf =>
      simp only [scanStep]
      split
      · trivial
      · exact ⟨hs.1.trans (List.prefix_append buf [b]), by rw [List.length_append]; exact Nat.lt_of_not_le ‹_›⟩

/-- What a state holds are the last symbols it was fed. -/
theorem pending_scanStep_suffix (s : Scan α) (b : α) : (F.scanStep s b).1.pending F <:+ s.pending F ++ [b] := by
  cases s with
  | hunting =>
      by_cases hb : b = F.sync₀
      · subst hb
        simp only [scanStep, if_true, Scan.pending]
        exact List.suffix_refl _
      · simp only [scanStep, if_neg hb, Scan.pending]
        exact List.nil_suffix
  | half =>
      by_cases hb : b = F.sync₁
      · subst hb
        simp only [scanStep, if_true, Scan.pending]
        exact List.suffix_refl _
      · by_cases hb₀ : b = F.sync₀
        · subst hb₀
          simp only [scanStep, if_neg F.sync_ne, if_true, Scan.pending]
          exact List.suffix_cons _ _
        · simp only [scanStep, if_neg hb, if_neg hb₀, Scan.pending]
          exact List.nil_suffix
  | filling buf =>
      by_cases hfull : F.size ≤ buf.length + 1
      · simp only [scanStep, if_pos hfull, Scan.pending]
        exact List.nil_suffix
      · simp only [scanStep, if_neg hfull, Scan.pending]
        exact List.suffix_refl _

theorem pending_finish_suffix (s : Scan α) (bs : List α) :
    (finish F.scanStep s bs).pending F <:+ s.pending F ++ bs := by
  induction bs generalizing s with
  | nil => rw [finish_nil, List.append_nil]
  | cons b bs ih =>
      have hstep : (F.scanStep s b).1.pending F ++ bs <:+ s.pending F ++ [b] ++ bs := by
        obtain ⟨lost, hlost⟩ := pending_scanStep_suffix (F := F) s b
        rw [← hlost, List.append_assoc]
        exact List.suffix_append _ _
      rw [finish_cons, ← List.singleton_append, ← List.append_assoc]
      exact (ih _).trans hstep

/-- What a state holds is never a whole frame. -/
theorem parse_pending {s : Scan α} (hs : s.Wf F) : F.parse (s.pending F) = [] := by
  cases s with
  | hunting => exact parse_nil
  | half => exact parse_of_length_lt F.one_lt_size
  | filling buf => exact parse_of_length_lt hs.2

/-- **One symbol moves the parse forward by what the scanner emits.** -/
theorem parse_pending_cons {s : Scan α} (hs : s.Wf F) (b : α) (bs : List α) :
    F.parse (s.pending F ++ b :: bs)
      = (F.scanStep s b).2 ++ F.parse ((F.scanStep s b).1.pending F ++ bs) := by
  cases s with
  | hunting =>
      by_cases hb : b = F.sync₀
      · subst hb; simp only [scanStep, if_true, Scan.pending]; rfl
      · simp only [scanStep, if_neg hb, Scan.pending, List.nil_append]
        exact parse_skip hb bs
  | half =>
      by_cases hb : b = F.sync₁
      · subst hb; simp only [scanStep, if_true, Scan.pending]; rfl
      · simp only [scanStep, if_neg hb]
        refine (parse_false_start hb bs).trans ?_
        by_cases hb₀ : b = F.sync₀
        · subst hb₀; simp only [if_true, Scan.pending]; rfl
        · simp only [if_neg hb₀, Scan.pending, List.nil_append]
          exact parse_skip hb₀ bs
  | filling buf =>
      have happ : buf ++ b :: bs = (buf ++ [b]) ++ bs := by simp
      by_cases hfull : F.size ≤ buf.length + 1
      · -- `hs` bounds the length from above, so the frame is exactly full
        have hlen : (buf ++ [b]).length = F.size := by
          rw [List.length_append, List.length_singleton]
          exact Nat.le_antisymm hs.2 hfull
        have hframe : F.IsFrame (buf ++ [b]) := ⟨hlen, hs.1.trans (List.prefix_append buf [b])⟩
        simp only [scanStep, if_pos hfull, Scan.pending, List.nil_append, List.singleton_append]
        rw [happ, parse_frame hframe]
      · simp only [scanStep, if_neg hfull, Scan.pending, List.nil_append]
        rw [happ]

/-- Inside a frame the scanner takes the symbols as they come, … -/
theorem scanStep_inside {s : Scan α} {b : α} {f : List α} (hf : F.IsFrame f)
    (hpre : s.pending F ++ [b] <+: f) (hlen : (s.pending F).length + 1 < F.size) :
    (F.scanStep s b).1.pending F = s.pending F ++ [b] ∧ (F.scanStep s b).2 = [] := by
  obtain ⟨f, rfl⟩ := hf.2
  cases s with
  | hunting =>
      obtain rfl : b = F.sync₀ := (List.cons_prefix_cons.mp hpre).1
      have hstep : F.scanStep .hunting F.sync₀ = (.half, []) := by simp only [scanStep, if_true]
      rw [hstep]
      exact ⟨rfl, rfl⟩
  | half =>
      obtain rfl : b = F.sync₁ := (List.cons_prefix_cons.mp (List.cons_prefix_cons.mp hpre).2).1
      have hstep : F.scanStep .half F.sync₁ = (.filling [F.sync₀, F.sync₁], []) := if_pos rfl
      rw [hstep]
      exact ⟨rfl, rfl⟩
  | filling buf =>
      have hstep : F.scanStep (.filling buf) b = (.filling (buf ++ [b]), []) :=
        if_neg (Nat.not_le_of_lt hlen)
      rw [hstep]
      exact ⟨rfl, rfl⟩

/-- … and hands the frame over with its last symbol. -/
theorem scanStep_last {s : Scan α} {b : α} {f : List α} (hf : F.IsFrame f)
    (hpre : s.pending F ++ [b] <+: f) (hlen : (s.pending F).length + 1 = F.size) :
    (F.scanStep s b).1.pending F = [] ∧ (F.scanStep s b).2 = [f] := by
  have hwhole : s.pending F ++ [b] = f := by
    apply hpre.eq_of_length
    rw [List.length_append, hf.1]
    exact hlen
  have hsize := F.two_lt_size
  cases s with
  | hunting => simp only [Scan.pending, List.length_nil] at hlen; omega
  | half => simp only [Scan.pending, List.length_singleton] at hlen; omega
  | filling buf =>
      have hstep : F.scanStep (.filling buf) b = (.hunting, [buf ++ [b]]) :=
        if_pos (Nat.le_of_eq hlen.symm)
      rw [hstep]
      exact ⟨rfl, congrArg (fun f => [f]) hwhole⟩

/-- **The scanner is the batch parser.** From any state it emits the frames of what it holds followed by
    what it is fed. -/
theorem emit_scanStep {s : Scan α} (hs : s.Wf F) (bs : List α) :
    emit F.scanStep s bs = F.parse (s.pending F ++ bs) := by
  refine emit_eq_spec (Scan.Wf F) (fun s bs => F.parse (s.pending F ++ bs)) scanStep_wf ?_ ?_ hs bs
  · intro s h
    rw [List.append_nil]
    exact parse_pending h
  · intro s b bs h
    exact parse_pending_cons h b bs

end Format

end Framing
