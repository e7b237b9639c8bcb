import GuitarraMidi.Lib.Clock
import GuitarraMidi.Lib.SlotTable
import Mathlib.Data.List.Induction

/-!
# `Lib.TimerTable` — a slot table of timed entries, polled on a 32-bit clock

The entries of a slot table each have a true time when they are due, and a poll hands over those that are.
The program behind the table sees the time of the poll and of the entry modulo `2^32`, and judges by the sign
of the difference (`dueByTick`); the judgement wanted is that of true time (`dueBy`).

A history is the list of the calls with the true time of each. In a history with no call too far from the
next poll (`WellTimed`) the two judgements agree at every poll (`run_exact`), and a poll leaves nothing that is
due (`sent_eq_filter`).
-/

namespace TimerTable

open SlotTable Transducer

variable {α : Type*}

inductive Call (α : Type*)
  | schedule (a : α)
  | poll

/-- The calls, each with the true time it is made. -/
abbrev History (α : Type*) := List (Nat × Call α)

/-- What a call does to the table. -/
def op : Nat × Call α → Op Nat α
  | (_, .schedule a) => .put a
  | (t, .poll) => .sweep t

/-- Due at `now`, in true time. -/
def dueBy (due : α → Nat) (now : Nat) (a : α) : Bool := due a ≤ now

/-- Due at `now`, by the sign of the difference of the two readings. -/
def dueByTick (due : α → Nat) (now : Nat) (a : α) : Bool := Clock.past (Clock.tick now) (Clock.tick (due a))

/-- The conditions under which the sign tells: time does not go back; an entry is scheduled at most `2^31` ahead
    of its time and not after it; and no call is `2^31` or more before the next poll. -/
structure WellTimed (due : α → Nat) (h : History α) : Prop where
  ordered : h.Pairwise (fun x y => x.1 ≤ y.1)
  window : ∀ t a, (t, Call.schedule a) ∈ h → t ≤ due a ∧ due a ≤ t + 2 ^ 31
  polled : ∀ pre s c mid t post, h = pre ++ (s, c) :: (mid ++ (t, Call.poll) :: post) →
    (∀ x ∈ mid, x.2 ≠ Call.poll) → t < s + 2 ^ 31

variable {due : α → Nat} {h h' : History α} {ts : Table α}

theorem WellTimed.left (hw : WellTimed due (h ++ h')) : WellTimed due h where
  ordered := (List.pairwise_append.mp hw.ordered).1
  window := by
    intro t a hmem
    exact hw.window t a (List.mem_append_left _ hmem)
  polled := by
    intro pre s c mid t post hsplit hmid
    refine hw.polled pre s c mid t (post ++ h') ?_ hmid
    rw [hsplit, List.append_assoc, List.cons_append, List.append_assoc, List.cons_append]

/-- What the table holds after a history. -/
def pending (test : Nat → α → Bool) (ts : Table α) (h : History α) : List α :=
  entries (finish (step test) ts (h.map op))

theorem pending_schedule {test : Nat → α → Bool} {t : Nat} {a b : α}
    (hb : b ∈ pending test ts (h ++ [(t, .schedule a)])) : b = a ∨ b ∈ pending test ts h := by
  rw [pending, List.map_append, List.map_singleton, finish_concat] at hb
  rw [op] at hb
  cases hput : put a (finish (step test) ts (h.map op)) with
  | none =>
      rw [step_put_of_none hput] at hb
      exact Or.inr hb
  | some ts' =>
      rw [step_put_of_some hput] at hb
      exact (mem_entries_put hput).mp hb

theorem pending_poll (test : Nat → α → Bool) (ts : Table α) (h : History α) (t : Nat) :
    pending test ts (h ++ [(t, .poll)]) = (pending test ts h).filter (fun a => !test t a) := by
  rw [pending, List.map_append, List.map_singleton, finish_concat]
  exact entries_sweep _ _

/-! ## The half-turn window -/

/-- The last call whose time bounds that of a pending entry: the one that scheduled it or a poll that left it. -/
def Anchored (due : α → Nat) (h : History α) (a : α) : Prop :=
  ∃ pre s c mid, h = pre ++ (s, c) :: mid ∧ (∀ x ∈ mid, x.2 ≠ Call.poll) ∧ s ≤ due a ∧ due a ≤ s + 2 ^ 31

/-- At a poll an anchored entry is within half a turn either way. -/
theorem Anchored.dueByTick_eq {a : α} {t : Nat} (ha : Anchored due h a)
    (hw : WellTimed due (h ++ [(t, .poll)])) : dueByTick due t a = dueBy due t a := by
  obtain ⟨pre, s, c, mid, rfl, hmid, hs, hdue⟩ := ha
  have hsplit : pre ++ (s, c) :: mid ++ [(t, Call.poll)] = pre ++ (s, c) :: (mid ++ (t, Call.poll) :: []) := by
    rw [List.append_assoc, List.cons_append]
  have hnear : t < s + 2 ^ 31 := hw.polled pre s c mid t [] hsplit hmid
  have hst : s ≤ t := by
    have hord := (List.pairwise_append.mp hw.ordered).2.2
    exact hord (s, c) (List.mem_append_right _ List.mem_cons_self) (t, .poll) List.mem_cons_self
  unfold dueByTick dueBy
  rw [Bool.eq_iff_iff, decide_eq_true_eq]
  exact Clock.past_tick_iff (by omega) (by omega)

/-- **No pending entry ever leaves the window.** -/
theorem anchored_pending (hts : entries ts = []) (hw : WellTimed due h) :
    ∀ a ∈ pending (dueByTick due) ts h, Anchored due h a := by
  induction h using List.reverseRecOn with
  | nil =>
      intro a ha
      rw [show pending (dueByTick due) ts [] = entries ts from rfl, hts] at ha
      exact absurd ha List.not_mem_nil
  | append_singleton h x ih =>
      intro a ha
      obtain ⟨t, c⟩ := x
      cases c with
      | schedule b =>
          rcases pending_schedule ha with rfl | ha
          · obtain ⟨hle, hahead⟩ := hw.window t a (by simp)
            exact ⟨h, t, .schedule a, [], rfl, by simp, hle, hahead⟩
          · obtain ⟨pre, s, c, mid, rfl, hmid, hs, hdue⟩ := ih hw.left a ha
            refine ⟨pre, s, c, mid ++ [(t, .schedule b)], ?_, ?_, hs, hdue⟩
            · rw [List.append_assoc, List.cons_append]
            · intro x hx
              rcases List.mem_append.mp hx with hx | hx
              · exact hmid x hx
              · rw [List.mem_singleton.mp hx]
                simp
      | poll =>
          rw [pending_poll, List.mem_filter] at ha
          obtain ⟨ha, hleft⟩ := ha
          have hanch := ih hw.left a ha
          -- the poll itself is the new anchor, since it judged the entry rightly
          rw [hanch.dueByTick_eq hw] at hleft
          have hlt : t < due a := by simpa [dueBy] using hleft
          obtain ⟨pre, s, c, mid, hh, -, -, hdue⟩ := hanch
          have hst : s ≤ t := by
            have hord := (List.pairwise_append.mp hw.ordered).2.2
            exact hord (s, c) (by rw [hh]; simp) (t, .poll) List.mem_cons_self
          exact ⟨h, t, .poll, [], rfl, by simp, by omega, by omega⟩

/-- **A poll judges every pending entry by true time.** -/
theorem poll_exact {t : Nat} (hts : entries ts = []) (hw : WellTimed due (h ++ [(t, .poll)])) :
    ∀ a ∈ pending (dueByTick due) ts h, dueByTick due t a = dueBy due t a := by
  intro a ha
  exact (anchored_pending hts hw.left a ha).dueByTick_eq hw

/-- **In a well-timed history the table behaves as it would on a clock that never wraps.** -/
theorem run_exact (hts : entries ts = []) (hw : WellTimed due h) :
    finish (step (dueByTick due)) ts (h.map op) = finish (step (dueBy due)) ts (h.map op)
      ∧ emit (step (dueByTick due)) ts (h.map op) = emit (step (dueBy due)) ts (h.map op) := by
  induction h using List.reverseRecOn with
  | nil => exact ⟨rfl, rfl⟩
  | append_singleton h x ih =>
      obtain ⟨hfin, hout⟩ := ih hw.left
      have hstep : step (dueByTick due) (finish (step (dueByTick due)) ts (h.map op)) (op x)
          = step (dueBy due) (finish (step (dueByTick due)) ts (h.map op)) (op x) := by
        obtain ⟨t, c⟩ := x
        cases c with
        | schedule b => rfl
        | poll =>
            have hexact : ∀ a ∈ entries (finish (step (dueByTick due)) ts (h.map op)),
                dueByTick due t a = dueBy due t a := poll_exact hts hw
            rw [op, step, step, sweep_congr hexact, List.filter_congr hexact]
      rw [List.map_append, List.map_singleton, finish_concat, finish_concat, emit_concat, emit_concat, hstep,
        hfin, hout]
      exact ⟨rfl, rfl⟩

/-! ## What has been handed over -/

/-- Nothing is handed over before it is due. -/
theorem due_of_sent {t : Nat} (hle : ∀ x ∈ h, x.1 ≤ t) :
    ∀ a ∈ sent (dueBy due) ts (h.map op), due a ≤ t := by
  induction h using List.reverseRecOn with
  | nil =>
      intro a ha
      exact absurd ha List.not_mem_nil
  | append_singleton h x ih =>
      intro a ha
      rw [sent, List.map_append, List.map_singleton, emit_concat, List.filterMap_append, List.mem_append] at ha
      rcases ha with ha | ha
      · exact ih (fun y hy => hle y (List.mem_append_left _ hy)) a ha
      · obtain ⟨s, c⟩ := x
        have hs : s ≤ t := hle (s, c) (by simp)
        cases c with
        | schedule b =>
            rw [op] at ha
            cases hput : put b (finish (step (dueBy due)) ts (h.map op)) with
            | none =>
                rw [step_put_of_none hput] at ha
                exact absurd ha List.not_mem_nil
            | some ts' =>
                rw [step_put_of_some hput] at ha
                exact absurd ha List.not_mem_nil
        | poll =>
            rw [op, step, filterMap_sent, List.mem_filter] at ha
            have hdue : due a ≤ s := by simpa [dueBy] using ha.2
            omega

/-- **Once polled, the table has handed over just what was accepted and is due.** -/
theorem sent_eq_filter {t : Nat} (hts : entries ts = []) (hw : WellTimed due (h ++ [(t, .poll)])) :
    (sent (dueByTick due) ts ((h ++ [(t, Call.poll)]).map op) : Multiset α)
      = (accepted (dueByTick due) ts ((h ++ [(t, Call.poll)]).map op) : Multiset α).filter (fun a => due a ≤ t) := by
  have hconserved := @conserved _ _ (dueByTick due) ts ((h ++ [(t, Call.poll)]).map op)
  rw [hts, Multiset.coe_nil, add_zero] at hconserved
  have hsent : ∀ a ∈ sent (dueByTick due) ts ((h ++ [(t, Call.poll)]).map op), due a ≤ t := by
    rw [sent, (run_exact hts hw).2]
    apply due_of_sent
    intro x hx
    rcases List.mem_append.mp hx with hx | hx
    · exact (List.pairwise_append.mp hw.ordered).2.2 x hx (t, .poll) List.mem_cons_self
    · rw [List.mem_singleton.mp hx]
  have hleft : ∀ a ∈ pending (dueByTick due) ts (h ++ [(t, .poll)]), ¬ due a ≤ t := by
    intro a ha
    rw [pending_poll, List.mem_filter] at ha
    obtain ⟨ha, hlater⟩ := ha
    rw [poll_exact hts hw a ha] at hlater
    simpa [dueBy] using hlater
  rw [hconserved, Multiset.filter_add, Multiset.filter_eq_self.mpr hsent, Multiset.filter_eq_nil.mpr hleft,
    add_zero]

/-- **What has been handed over at a poll depends on what was scheduled and on the time of the poll**, not on
    the calls in between, as long as nothing was refused. -/
theorem sent_eq_of_asked_eq {t : Nat} (hts : entries ts = [])
    (hw : WellTimed due (h ++ [(t, .poll)])) (hw' : WellTimed due (h' ++ [(t, .poll)]))
    (hok : ∀ o ∈ emit (step (dueByTick due)) ts ((h ++ [(t, Call.poll)]).map op), o.refused? = none)
    (hok' : ∀ o ∈ emit (step (dueByTick due)) ts ((h' ++ [(t, Call.poll)]).map op), o.refused? = none)
    (hsame : (asked ((h ++ [(t, Call.poll)]).map op) : Multiset α) = asked ((h' ++ [(t, Call.poll)]).map op)) :
    (sent (dueByTick due) ts ((h ++ [(t, Call.poll)]).map op) : Multiset α)
      = sent (dueByTick due) ts ((h' ++ [(t, Call.poll)]).map op) := by
  rw [sent_eq_filter hts hw, sent_eq_filter hts hw', accepted_of_not_refused hok, accepted_of_not_refused hok',
    hsame]

/-- A history shorter than half a turn of the clock has its calls near enough to each other. -/
theorem wellTimed_of_span {s : Nat} (hordered : h.Pairwise (fun x y => x.1 ≤ y.1))
    (hwindow : ∀ t a, (t, Call.schedule a) ∈ h → t ≤ due a ∧ due a ≤ t + 2 ^ 31)
    (hspan : ∀ x ∈ h, s ≤ x.1 ∧ x.1 < s + 2 ^ 31) : WellTimed due h where
  ordered := hordered
  window := hwindow
  polled := by
    rintro pre r c mid t post rfl -
    have hr := hspan (r, c) (by simp)
    have ht := hspan (t, .poll) (by simp)
    have hr' : s ≤ r := hr.1
    have ht' : t < s + 2 ^ 31 := ht.2
    omega

/-! ## Steady histories -/

/-- A call follows another: a poll within half a turn, or a schedule call at the same time. -/
def Follows (x y : Nat × Call α) : Prop := x.1 ≤ y.1 ∧ y.1 < x.1 + 2 ^ 31 ∧ (y.2 ≠ Call.poll → y.1 = x.1)

theorem same_time {s t : Nat} {c c' : Call α} {mid : History α} (h : ((s, c) :: (mid ++ [(t, c')])).IsChain Follows)
    (hmid : ∀ x ∈ mid, x.2 ≠ Call.poll) : s ≤ t ∧ t < s + 2 ^ 31 := by
  induction mid generalizing s c with
  | nil =>
      have hfollows := (List.isChain_cons_cons.mp h).1
      exact ⟨hfollows.1, hfollows.2.1⟩
  | cons x mid ih =>
      obtain ⟨r, d⟩ := x
      obtain ⟨hfollows, hrest⟩ := List.isChain_cons_cons.mp h
      have hr : r = s := hfollows.2.2 (hmid (r, d) List.mem_cons_self)
      rw [hr] at hrest
      exact ih hrest (fun y hy => hmid y (List.mem_cons_of_mem _ hy))

/-- **A history whose schedule calls are all made right after a poll is well-timed** when the polls are near
    enough to each other. -/
theorem wellTimed_of_follows (hchain : h.IsChain Follows)
    (hwindow : ∀ t a, (t, Call.schedule a) ∈ h → t ≤ due a ∧ due a ≤ t + 2 ^ 31) : WellTimed due h where
  ordered := Clock.pairwise_le hchain (fun _ _ hxy => hxy.1)
  window := hwindow
  polled := by
    rintro pre s c mid t post rfl hmid
    have hblock : ((s, c) :: (mid ++ [(t, Call.poll)])).IsChain Follows := by
      have hsplit : pre ++ (s, c) :: (mid ++ (t, Call.poll) :: post)
          = pre ++ (((s, c) :: (mid ++ [(t, Call.poll)])) ++ post) := by simp
      rw [hsplit] at hchain
      exact hchain.right_of_append.left_of_append
    exact (same_time hblock hmid).2

/-! ## Histories of one kind of entry seen as histories of another -/

section View

variable {β : Type*} (f : β → α)

def viewCall : Nat × Call β → Nat × Call α
  | (t, .schedule b) => (t, .schedule (f b))
  | (t, .poll) => (t, .poll)

theorem op_viewCall (x : Nat × Call β) : op (viewCall f x) = (op x).map f := by
  obtain ⟨t, c⟩ := x
  cases c <;> rfl

/-- **A table of entries that carry more than their view behaves like the table of the views.** -/
theorem run_view (ts : Table β) (h : History β) :
    finish (step (dueByTick due)) (ts.map (Option.map f)) ((h.map (viewCall f)).map op)
        = (finish (step (dueByTick (fun b => due (f b)))) ts (h.map op)).map (Option.map f)
      ∧ emit (step (dueByTick due)) (ts.map (Option.map f)) ((h.map (viewCall f)).map op)
        = (emit (step (dueByTick (fun b => due (f b)))) ts (h.map op)).map (Out.map f) := by
  have hview : ∀ ts : Table β, ∀ x : Nat × Call β, step (dueByTick due) (ts.map (Option.map f)) (op (viewCall f x))
      = ((step (dueByTick (fun b => due (f b))) ts (op x)).1.map (Option.map f),
          (step (dueByTick (fun b => due (f b))) ts (op x)).2.map (Out.map f)) := by
    intro ts x
    rw [op_viewCall]
    exact step_map f (dueByTick due) ts (op x)
  induction h generalizing ts with
  | nil => exact ⟨rfl, rfl⟩
  | cons x h ih =>
      obtain ⟨hfin, hout⟩ := ih (step (dueByTick (fun b => due (f b))) ts (op x)).1
      rw [List.map_cons, List.map_cons, List.map_cons, finish_cons, finish_cons, emit_cons, emit_cons, hview ts x,
        hfin, hout, List.map_append]
      exact ⟨rfl, rfl⟩

end View

end TimerTable
