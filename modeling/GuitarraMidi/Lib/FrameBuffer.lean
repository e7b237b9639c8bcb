import GuitarraMidi.Lib.Framing

/-!
# `Lib.FrameBuffer` — a frame receiver with a buffer and two flags

The form in which a scanner is usually programmed: a buffer of the length of a frame that is filled through an index,
a flag for "in a frame" and one for "a first preamble symbol was read". A complete frame is judged, good or bad, and
the next preamble is looked for from there on.

`Buffer.scan` reads off the variables what the scanner of `Lib.Framing` remembers, and `receive_sim` is the step
diagram. So the events of a run are the frames that the batch parser cuts out of what the buffer held followed by what
is fed, each judged (`emit_receive`).
-/

namespace Framing

open Transducer

/-- The variables of the receiver. -/
structure Buffer (α : Type*) (n : Nat) where
  p : Vector α n
  idx : Nat
  synced : Bool
  half : Bool

namespace Buffer

variable {α : Type*} {n : Nat}

/-- Nothing received; `p` is whatever the buffer held. -/
def start (p : Vector α n) : Buffer α n where
  p := p
  idx := 0
  synced := false
  half := false

/-- A symbol written at the index. -/
def push (s : Buffer α n) (b : α) : Buffer α n :=
  { s with p := s.p.setIfInBounds s.idx b, idx := s.idx + 1 }

/-- Looking for a preamble again. -/
def unsync (s : Buffer α n) : Buffer α n := { s with idx := 0, synced := false, half := false }

@[simp] theorem push_idx (s : Buffer α n) (b : α) : (s.push b).idx = s.idx + 1 := rfl

theorem take_push {s : Buffer α n} (h : s.idx < n) (b : α) :
    (s.push b).p.toList.take (s.idx + 1) = s.p.toList.take s.idx ++ [b] := by
  have hlen : s.idx < s.p.toList.length := by rw [Vector.length_toList]; exact h
  show (s.p.setIfInBounds s.idx b).toList.take (s.idx + 1) = _
  rw [Vector.toList_setIfInBounds, List.take_add_one, List.take_set_of_le (Nat.le_refl _),
    List.getElem?_set_self hlen, Option.toList_some]

/-- The scanner state behind the variables. -/
def scan (s : Buffer α n) : Scan α :=
  if s.synced then .filling (s.p.toList.take s.idx)
  else if s.half then .half
  else .hunting

theorem scan_filling {s : Buffer α n} (h : s.synced = true) : s.scan = .filling (s.p.toList.take s.idx) := if_pos h

theorem scan_half {s : Buffer α n} (hsync : s.synced = false) (hhalf : s.half = true) : s.scan = .half := by
  simp [scan, hsync, hhalf]

theorem scan_hunting {s : Buffer α n} (hsync : s.synced = false) (hhalf : s.half = false) : s.scan = .hunting := by
  simp [scan, hsync, hhalf]

end Buffer

namespace Format

variable {α ο : Type*} {F : Format α}

/-- The symbols of an unfinished preamble or frame. -/
def held (F : Format α) (s : Buffer α F.size) : List α := s.scan.pending F

/-- A frame being received starts with the preamble and is incomplete. -/
def BufferWf (F : Format α) (s : Buffer α F.size) : Prop := s.scan.Wf F

@[simp] theorem held_start (p : Vector α F.size) : F.held (Buffer.start p) = [] := rfl

theorem bufferWf_start (p : Vector α F.size) : F.BufferWf (Buffer.start p) := trivial

variable {s : Buffer α F.size}

/-- In a frame, what is held is what is below the index. -/
theorem held_filling (hsync : s.synced = true) : F.held s = s.p.toList.take s.idx := by
  rw [held, Buffer.scan_filling hsync]
  rfl

theorem preamble_prefix (hs : F.BufferWf s) (hsync : s.synced = true) :
    [F.sync₀, F.sync₁] <+: s.p.toList.take s.idx := by
  unfold BufferWf at hs
  rw [Buffer.scan_filling hsync] at hs
  exact hs.1

theorem idx_lt (hs : F.BufferWf s) (hsync : s.synced = true) : s.idx < F.size := by
  have hlen : (s.p.toList.take s.idx).length < F.size := by
    unfold BufferWf at hs
    rw [Buffer.scan_filling hsync] at hs
    exact hs.2
  rw [List.length_take, Vector.length_toList] at hlen
  omega

/-- Writing the preamble into the buffer leaves it in the first two places. -/
theorem take_preamble (hidx : s.idx = 0) :
    ((s.push F.sync₀).push F.sync₁).p.toList.take 2 = [F.sync₀, F.sync₁] := by
  have hfirst := Buffer.take_push (s := s) (by rw [hidx]; exact Nat.lt_trans Nat.one_pos F.one_lt_size) F.sync₀
  have hsecond := Buffer.take_push (s := s.push F.sync₀)
    (by rw [Buffer.push_idx, hidx]; exact F.one_lt_size) F.sync₁
  rw [Buffer.push_idx, hfirst, hidx] at hsecond
  exact hsecond

/-! ## The step diagram, one lemma for each state of the scanner -/

variable [DecidableEq α] {judge : List α → ο}

/-- One symbol; a complete frame leads to the event that `judge` makes of it. -/
def receive (F : Format α) (judge : List α → ο) (s : Buffer α F.size) (b : α) : Buffer α F.size × List ο :=
  if !s.synced then
    if !s.half then ({ s with half := decide (b = F.sync₀) }, [])
    else if b = F.sync₁ then
      ((({ s with synced := true, half := false, idx := 0 } : Buffer α F.size).push F.sync₀).push F.sync₁, [])
    else ({ s with half := decide (b = F.sync₀) }, [])
  else
    let s := s.push b
    if s.idx ≥ F.size then (s.unsync, [judge s.p.toList]) else (s, [])

/-- After half a preamble, another symbol than the one awaited. -/
theorem receive_other (hsync : s.synced = false) (hhalf : s.half = true) {b : α} (hb : b ≠ F.sync₁) :
    F.receive judge s b = ({ s with half := decide (b = F.sync₀) }, []) := by
  simp [receive, hsync, hhalf, hb]

/-- The last symbol of a frame. -/
theorem receive_full (hsync : s.synced = true) {b : α} (hfull : F.size ≤ s.idx + 1) :
    F.receive judge s b = ((s.push b).unsync, [judge (s.push b).p.toList]) := by
  simp [receive, hsync, hfull]

/-- Another one. -/
theorem receive_more (hsync : s.synced = true) {b : α} (hmore : ¬ F.size ≤ s.idx + 1) :
    F.receive judge s b = (s.push b, []) := by
  simp [receive, hsync, hmore]

/-- A symbol moves the variables as it moves the scanner, and leads to the verdict on the frame the scanner
    completes, if it completes one. -/
def ReceiveMatches (F : Format α) (judge : List α → ο) (s : Buffer α F.size) (b : α) : Prop :=
  (F.receive judge s b).1.scan = (F.scanStep s.scan b).1
    ∧ (F.receive judge s b).2 = (F.scanStep s.scan b).2.map judge

theorem receive_hunting (hsync : s.synced = false) (hhalf : s.half = false) (b : α) : F.ReceiveMatches judge s b := by
  unfold ReceiveMatches
  rw [Buffer.scan_hunting hsync hhalf]
  by_cases hb : b = F.sync₀
  · simp [receive, Buffer.scan, scanStep, hsync, hhalf, hb]
  · simp [receive, Buffer.scan, scanStep, hsync, hhalf, hb]

theorem receive_half (hsync : s.synced = false) (hhalf : s.half = true) (b : α) : F.ReceiveMatches judge s b := by
  unfold ReceiveMatches
  rw [Buffer.scan_half hsync hhalf]
  by_cases hb : b = F.sync₁
  · have hstep : F.receive judge s b
        = ((({ s with synced := true, half := false, idx := 0 } : Buffer α F.size).push F.sync₀).push F.sync₁, []) := by
      simp [receive, hsync, hhalf, hb]
    have hpre := take_preamble (s := { s with synced := true, half := false, idx := 0 }) rfl
    rw [hstep, Buffer.scan_filling rfl]
    have hscan : F.scanStep .half b = (.filling [F.sync₀, F.sync₁], []) := if_pos hb
    rw [hscan]
    exact ⟨congrArg Scan.filling hpre, rfl⟩
  · rw [receive_other hsync hhalf hb]
    by_cases hb₀ : b = F.sync₀
    · simp [Buffer.scan, scanStep, hsync, hb₀, F.sync_ne]
    · simp [Buffer.scan, scanStep, hsync, hb, hb₀]

theorem receive_filling (hs : F.BufferWf s) (hsync : s.synced = true) (b : α) : F.ReceiveMatches judge s b := by
  have hidx := idx_lt hs hsync
  have htake := Buffer.take_push hidx b
  have hlen : (s.p.toList.take s.idx).length = s.idx := by
    rw [List.length_take, Vector.length_toList]
    exact Nat.min_eq_left (Nat.le_of_lt hidx)
  unfold ReceiveMatches
  rw [Buffer.scan_filling hsync]
  by_cases hfull : F.size ≤ s.idx + 1
  · -- the last symbol: the whole buffer is the frame
    have hframe : s.p.toList.take s.idx ++ [b] = (s.push b).p.toList := by
      rw [← htake, List.take_of_length_le (by rw [Vector.length_toList]; exact hfull)]
    have hscan : F.scanStep (.filling (s.p.toList.take s.idx)) b = (.hunting, [(s.push b).p.toList]) := by
      simp only [scanStep, hlen, hframe]
      exact if_pos hfull
    rw [hscan, receive_full hsync hfull]
    exact ⟨rfl, rfl⟩
  · have hscan : F.scanStep (.filling (s.p.toList.take s.idx)) b
        = (.filling (s.p.toList.take s.idx ++ [b]), []) := by
      simp only [scanStep, hlen]
      exact if_neg hfull
    have hpush : (s.push b).scan = .filling ((s.push b).p.toList.take (s.idx + 1)) := Buffer.scan_filling hsync
    rw [hscan, receive_more hsync hfull, ← htake]
    exact ⟨hpush, rfl⟩

/-- **The step diagram.** -/
theorem receive_sim (hs : F.BufferWf s) (b : α) : F.ReceiveMatches judge s b := by
  cases hsync : s.synced with
  | false =>
      cases hhalf : s.half with
      | false => exact receive_hunting hsync hhalf b
      | true => exact receive_half hsync hhalf b
  | true => exact receive_filling hs hsync b

theorem receive_wf (hs : F.BufferWf s) (b : α) : F.BufferWf (F.receive judge s b).1 := by
  unfold BufferWf
  rw [(receive_sim hs b).1]
  exact scanStep_wf s.scan b hs

theorem finish_receive_wf (hs : F.BufferWf s) (bs : List α) : F.BufferWf (finish (F.receive judge) s bs) := by
  have hstep : ∀ (s : Buffer α F.size) (b : α), F.BufferWf s → F.BufferWf (F.receive judge s b).1 := by
    intro s b hs
    exact receive_wf hs b
  exact finish_invariant hstep hs bs

/-- Inside a frame the symbols are held as they come, … -/
theorem receive_inside (hs : F.BufferWf s) {b : α} {f : List α} (hf : F.IsFrame f) (hpre : F.held s ++ [b] <+: f)
    (hlen : (F.held s).length + 1 < F.size) :
    F.held (F.receive judge s b).1 = F.held s ++ [b] ∧ (F.receive judge s b).2 = [] := by
  obtain ⟨hscan, hout⟩ : F.ReceiveMatches judge s b := receive_sim hs b
  obtain ⟨hpending, hnone⟩ := scanStep_inside hf hpre hlen
  rw [held, hscan, hout, hnone]
  exact ⟨hpending, rfl⟩

/-- … and with the last one the frame is judged. -/
theorem receive_last (hs : F.BufferWf s) {b : α} {f : List α} (hf : F.IsFrame f) (hpre : F.held s ++ [b] <+: f)
    (hlen : (F.held s).length + 1 = F.size) :
    F.held (F.receive judge s b).1 = [] ∧ (F.receive judge s b).2 = [judge f] := by
  obtain ⟨hscan, hout⟩ : F.ReceiveMatches judge s b := receive_sim hs b
  obtain ⟨hpending, hframe⟩ := scanStep_last hf hpre hlen
  rw [held, hscan, hout, hframe]
  exact ⟨hpending, rfl⟩

/-- **A run moves the scanner**, and its events are the verdicts on the frames the scanner completes. -/
theorem run_receive (hs : F.BufferWf s) (bs : List α) :
    (finish (F.receive judge) s bs).scan = finish F.scanStep s.scan bs
      ∧ emit (F.receive judge) s bs = (emit F.scanStep s.scan bs).map judge := by
  have hstep : ∀ (s : Buffer α F.size) (t : Scan α) (b : α), (F.BufferWf s ∧ s.scan = t) →
      (F.BufferWf (F.receive judge s b).1 ∧ (F.receive judge s b).1.scan = (F.scanStep t b).1)
        ∧ (F.receive judge s b).2 = (F.scanStep t b).2.map judge := by
    rintro s t b ⟨hwf, rfl⟩
    exact ⟨⟨receive_wf hwf b, (receive_sim hwf b).1⟩, (receive_sim hwf b).2⟩
  have hrun := simulate (fun s t => F.BufferWf s ∧ s.scan = t) id judge hstep ⟨hs, rfl⟩ bs
  rw [List.map_id] at hrun
  exact ⟨hrun.1.2, hrun.2⟩

/-- **The events of a run** are the verdicts on the frames of what the buffer held and what it is fed. -/
theorem emit_receive (hs : F.BufferWf s) (bs : List α) :
    emit (F.receive judge) s bs = (F.parse (F.held s ++ bs)).map judge := by
  rw [(run_receive hs bs).2, emit_scanStep hs]
  rfl

/-- What is held are the last symbols received. -/
theorem held_finish_suffix (p : Vector α F.size) (bs : List α) :
    F.held (finish (F.receive judge) (Buffer.start p) bs) <:+ bs := by
  rw [held, (run_receive (bufferWf_start p) bs).1]
  exact pending_finish_suffix _ bs

end Format

end Framing
