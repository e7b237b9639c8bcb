import GuitarraMidi.Lib.Transducer
import Mathlib.Data.List.ReduceOption
import Mathlib.Algebra.Order.Group.Multiset
import Mathlib.Data.Multiset.Filter

/-!
# `Lib.SlotTable` — a fixed number of slots, filled lowest first and swept in order

A table holds each of its entries in a slot. Putting an entry takes the lowest free slot; sweeping goes
through the slots in order, and hands over and frees those whose entry passes a test. What can be said of
every such table, whatever the entries and the test:

* nothing is lost or handed over twice (`conserved`), and a put fails only on a full table
  (`put_eq_none_iff`);
* entries keep the order of their slots, and a new one lies behind another exactly when no slot before that
  one is free (`pairwise_put`);
* a table that holds fewer than `n` entries at every put uses only its first `n` slots (`Within.put`);
* entries may carry more than the test looks at (`step_map`).
-/

namespace SlotTable

open Transducer

variable {α β τ : Type*}

/-- The slots, each free or holding an entry. -/
abbrev Table (α : Type*) := List (Option α)

/-- The entries, in the order of their slots. -/
def entries (ts : Table α) : List α := ts.reduceOption

/-- The entry put in the lowest free slot, if there is one. -/
def put (a : α) : Table α → Option (Table α)
  | [] => none
  | none :: ts => some (some a :: ts)
  | some b :: ts => (put a ts).map (some b :: ·)

/-- The slots whose entry is due, freed. -/
def sweep (due : α → Bool) (ts : Table α) : Table α := ts.map (Option.filter (fun a => !due a))

inductive Op (τ α : Type*)
  | put (a : α)
  | sweep (now : τ)

inductive Out (α : Type*)
  | accepted (a : α)
  | refused (a : α)
  | sent (a : α)

/-- A put is answered; a sweep hands over what is due, in the order of the slots. -/
def step (test : τ → α → Bool) (ts : Table α) : Op τ α → Table α × List (Out α)
  | .put a =>
      match put a ts with
      | some ts' => (ts', [.accepted a])
      | none => (ts, [.refused a])
  | .sweep now => (sweep (test now) ts, ((entries ts).filter (test now)).map .sent)

def Out.accepted? : Out α → Option α
  | .accepted a => some a
  | _ => none

def Out.refused? : Out α → Option α
  | .refused a => some a
  | _ => none

def Out.sent? : Out α → Option α
  | .sent a => some a
  | _ => none

/-- What was handed over during a run. -/
def sent (test : τ → α → Bool) (ts : Table α) (ops : List (Op τ α)) : List α :=
  (emit (step test) ts ops).filterMap Out.sent?

/-- What was accepted during a run. -/
def accepted (test : τ → α → Bool) (ts : Table α) (ops : List (Op τ α)) : List α :=
  (emit (step test) ts ops).filterMap Out.accepted?

/-! ## Entries -/

@[simp] theorem entries_nil : entries ([] : Table α) = [] := rfl

@[simp] theorem entries_cons_none (ts : Table α) : entries (none :: ts) = entries ts := rfl

@[simp] theorem entries_cons_some (a : α) (ts : Table α) : entries (some a :: ts) = a :: entries ts := rfl

theorem entries_append (ts us : Table α) : entries (ts ++ us) = entries ts ++ entries us :=
  List.reduceOption_append ts us

theorem mem_entries {a : α} {ts : Table α} : a ∈ entries ts ↔ some a ∈ ts := List.reduceOption_mem_iff

theorem entries_replicate_none (n : Nat) : entries (List.replicate n (none : Option α)) = [] :=
  List.reduceOption_replicate_none

theorem entries_map_some (as : List α) : entries (as.map some) = as := by
  induction as with
  | nil => rfl
  | cons a as ih => rw [List.map_cons, entries_cons_some, ih]

/-- There are fewer entries than slots exactly when a slot is free. -/
theorem length_entries_lt_iff {ts : Table α} : (entries ts).length < ts.length ↔ none ∈ ts :=
  List.reduceOption_length_lt_iff

/-! ## One put -/

/-- **A put fills the lowest free slot.** -/
theorem put_eq_some_iff {a : α} {ts ts' : Table α} :
    put a ts = some ts' ↔ ∃ pre post, ts = pre ++ none :: post ∧ ts' = pre ++ some a :: post ∧ none ∉ pre := by
  constructor
  · intro h
    induction ts generalizing ts' with
    | nil => exact absurd h (by simp [put])
    | cons o ts ih =>
        cases o with
        | none =>
            obtain rfl : some a :: ts = ts' := Option.some.inj h
            exact ⟨[], ts, rfl, rfl, List.not_mem_nil⟩
        | some b =>
            obtain ⟨us, hus, rfl⟩ := Option.map_eq_some_iff.mp h
            obtain ⟨pre, post, rfl, rfl, hpre⟩ := ih hus
            refine ⟨some b :: pre, post, rfl, rfl, ?_⟩
            intro hmem
            rcases List.mem_cons.mp hmem with hb | hmem
            · exact absurd hb (by simp)
            · exact hpre hmem
  · rintro ⟨pre, post, rfl, rfl, hpre⟩
    induction pre with
    | nil => rfl
    | cons o pre ih =>
        cases o with
        | none => exact absurd List.mem_cons_self hpre
        | some b =>
            have hpre' : none ∉ pre := fun h => hpre (List.mem_cons_of_mem _ h)
            show (put a (pre ++ none :: post)).map (some b :: ·) = _
            rw [ih hpre']
            rfl

/-- **A put fails only on a full table.** -/
theorem put_eq_none_iff {a : α} {ts : Table α} : put a ts = none ↔ none ∉ ts := by
  constructor
  · intro h hfree
    obtain ⟨pre, post, hts, hpre⟩ := List.eq_append_cons_of_mem hfree
    have hput := put_eq_some_iff (a := a).mpr ⟨pre, post, hts, rfl, hpre⟩
    rw [h] at hput
    exact absurd hput (by simp)
  · intro h
    by_contra hne
    obtain ⟨ts', hput⟩ := Option.ne_none_iff_exists'.mp hne
    obtain ⟨pre, post, rfl, -, -⟩ := put_eq_some_iff.mp hput
    exact h (by simp)

/-- A put goes to the front part of a table if a slot is free there. -/
theorem put_append_of_free {a : α} {ts ts' : Table α} (h : put a ts = some ts') (us : Table α) :
    put a (ts ++ us) = some (ts' ++ us) := by
  obtain ⟨pre, post, rfl, rfl, hpre⟩ := put_eq_some_iff.mp h
  refine put_eq_some_iff.mpr ⟨pre, post ++ us, ?_, ?_, hpre⟩
  · rw [List.append_assoc, List.cons_append]
  · rw [List.append_assoc, List.cons_append]

/-- Otherwise to the back part. -/
theorem put_append_of_full {a : α} {ts : Table α} (h : none ∉ ts) {us us' : Table α}
    (hput : put a us = some us') : put a (ts ++ us) = some (ts ++ us') := by
  obtain ⟨pre, post, rfl, rfl, hpre⟩ := put_eq_some_iff.mp hput
  refine put_eq_some_iff.mpr ⟨ts ++ pre, post, ?_, ?_, ?_⟩
  · rw [List.append_assoc]
  · rw [List.append_assoc]
  · rw [List.mem_append]
    rintro (hmem | hmem)
    · exact h hmem
    · exact hpre hmem

theorem length_put {a : α} {ts ts' : Table α} (h : put a ts = some ts') : ts'.length = ts.length := by
  obtain ⟨pre, post, rfl, rfl, -⟩ := put_eq_some_iff.mp h
  simp

/-- The new entry comes in between, and the others keep their order. -/
theorem entries_put {a : α} {ts ts' : Table α} (h : put a ts = some ts') :
    ∃ as bs, entries ts = as ++ bs ∧ entries ts' = as ++ a :: bs := by
  obtain ⟨pre, post, rfl, rfl, -⟩ := put_eq_some_iff.mp h
  refine ⟨entries pre, entries post, ?_, ?_⟩
  · rw [entries_append, entries_cons_none]
  · rw [entries_append, entries_cons_some]

theorem mem_entries_put {a b : α} {ts ts' : Table α} (h : put a ts = some ts') :
    b ∈ entries ts' ↔ b = a ∨ b ∈ entries ts := by
  obtain ⟨as, bs, hts, hts'⟩ := entries_put h
  rw [hts, hts', List.mem_append, List.mem_cons, List.mem_append]
  tauto

theorem entries_put_coe {a : α} {ts ts' : Table α} (h : put a ts = some ts') :
    (entries ts' : Multiset α) = a ::ₘ (entries ts : Multiset α) := by
  obtain ⟨as, bs, hts, hts'⟩ := entries_put h
  rw [hts, hts', Multiset.cons_coe]
  exact Multiset.coe_eq_coe.mpr List.perm_middle

/-- **Entries that stand in a relation in the order of their slots go on doing so after a put**, when the new
    one stands in it to those before its slot and those behind stand in it to the new one. -/
theorem pairwise_put {r : α → α → Prop} {a : α} {ts ts' : Table α} (h : put a ts = some ts')
    (hr : (entries ts).Pairwise r)
    (hfront : ∀ pre b post, ts = pre ++ some b :: post → none ∉ pre → r b a)
    (hbehind : ∀ pre b post, ts = pre ++ some b :: post → none ∈ pre → r a b) :
    (entries ts').Pairwise r := by
  obtain ⟨pre, post, rfl, rfl, hpre⟩ := put_eq_some_iff.mp h
  rw [entries_append, entries_cons_none, List.pairwise_append] at hr
  obtain ⟨hbefore, hafter, hacross⟩ := hr
  have hnew : ∀ b ∈ entries post, r a b := by
    intro b hb
    obtain ⟨mid, rest, rfl⟩ := List.append_of_mem (mem_entries.mp hb)
    refine hbehind (pre ++ none :: mid) b rest ?_ (by simp)
    rw [List.append_assoc, List.cons_append]
  have hold : ∀ b ∈ entries pre, r b a := by
    intro b hb
    obtain ⟨front, mid, rfl⟩ := List.append_of_mem (mem_entries.mp hb)
    refine hfront front b (mid ++ none :: post) ?_ (fun hmem => hpre (List.mem_append_left _ hmem))
    rw [List.append_assoc, List.cons_append]
  rw [entries_append, entries_cons_some, List.pairwise_append]
  refine ⟨hbefore, List.pairwise_cons.mpr ⟨hnew, hafter⟩, ?_⟩
  intro b hb c hc
  rcases List.mem_cons.mp hc with rfl | hc
  · exact hold b hb
  · exact hacross b hb c hc

/-- **Two entries put one after the other are in that order**, wherever the free slots are. -/
theorem pairwise_put_two {r : α → α → Prop} {a b : α} {ts ts' ts'' : Table α} (ha : put a ts = some ts')
    (hb : put b ts' = some ts'') (hr : (entries ts).Pairwise r)
    (hothers : ∀ x ∈ entries ts, (r x a ∧ r a x) ∧ r x b ∧ r b x) (hab : r a b) :
    (entries ts'').Pairwise r := by
  obtain ⟨pre, post, rfl, rfl, hpre⟩ := put_eq_some_iff.mp ha
  have hr' : (entries (pre ++ some a :: post)).Pairwise r := by
    refine pairwise_put ha hr ?_ ?_
    · intro front x back hts _
      exact (hothers x (mem_entries.mpr (by rw [hts]; simp))).1.1
    · intro front x back hts _
      exact (hothers x (mem_entries.mpr (by rw [hts]; simp))).1.2
  refine pairwise_put hb hr' ?_ ?_
  · intro front x back hts _
    have hx : x ∈ entries (pre ++ some a :: post) := mem_entries.mpr (by rw [hts]; simp)
    rcases (mem_entries_put ha).mp hx with rfl | hx
    · exact hab
    · exact (hothers x hx).2.1
  · intro front x back hts hfree
    -- no slot up to that of `a` is free, so an entry behind a free slot is behind `a`
    have hx : some x ∈ post := by
      rw [List.append_cons] at hts
      rcases List.append_eq_append_iff.mp hts with ⟨mid, -, hmid⟩ | ⟨mid, hmid, -⟩
      · rw [hmid]
        exact List.mem_append_right mid List.mem_cons_self
      · have hmem : none ∈ pre ++ [some a] := hmid ▸ List.mem_append_left mid hfree
        rcases List.mem_append.mp hmem with hmem | hmem
        · exact absurd hmem hpre
        · exact absurd (List.mem_singleton.mp hmem) (by simp)
    exact (hothers x (mem_entries.mpr (by simp [hx]))).2.2

/-! ## The slots in use -/

/-- Only the first `n` slots hold entries. -/
def Within (n : Nat) (ts : Table α) : Prop := entries (ts.drop n) = []

theorem within_replicate_none (n m : Nat) : Within n (List.replicate m (none : Option α)) := by
  rw [Within, List.drop_replicate, entries_replicate_none]

/-- The slots beyond are free. -/
theorem Within.free {n i : Nat} {o : Option α} {ts : Table α} (h : Within n ts) (hi : n ≤ i)
    (hget : ts[i]? = some o) : o = none := by
  cases o with
  | none => rfl
  | some a =>
      have hmem : some a ∈ ts.drop n := by
        apply List.mem_of_getElem? (i := i - n)
        rw [List.getElem?_drop, Nat.add_sub_cancel' hi]
        exact hget
      have hentry := mem_entries.mpr hmem
      rw [show entries (ts.drop n) = [] from h] at hentry
      exact absurd hentry List.not_mem_nil

/-- **A put on a table that holds fewer than `n` entries, all in its first `n` slots, uses one of these.** -/
theorem Within.put {n : Nat} {a : α} {ts ts' : Table α} (hw : Within n ts) (hlen : n ≤ ts.length)
    (hfew : (entries ts).length < n) (h : SlotTable.put a ts = some ts') : Within n ts' := by
  -- the first `n` slots hold all the entries, so one of them is free
  have hall : entries ts = entries (ts.take n) := by
    have hsplit := entries_append (ts.take n) (ts.drop n)
    rw [List.take_append_drop, show entries (ts.drop n) = [] from hw, List.append_nil] at hsplit
    exact hsplit
  have hfree : none ∈ ts.take n := by
    rw [← length_entries_lt_iff, ← hall, List.length_take, Nat.min_eq_left hlen]
    exact hfew
  obtain ⟨us, hus⟩ := Option.ne_none_iff_exists'.mp (fun hnone => put_eq_none_iff (a := a).mp hnone hfree)
  have hput := put_append_of_free hus (ts.drop n)
  rw [List.take_append_drop, h] at hput
  have hlength : us.length = n := by
    rw [length_put hus, List.length_take, Nat.min_eq_left hlen]
  rw [Within, Option.some.inj hput, List.drop_left' hlength]
  exact hw

/-! ## Packed tables -/

/-- The free slots all come after the entries, as in a table from which nothing has been handed over. -/
def Packed (ts : Table α) : Prop := ∃ (as : List α) (n : Nat), ts = as.map some ++ List.replicate n none

theorem Packed.put {a : α} {ts ts' : Table α} (hp : Packed ts) (h : SlotTable.put a ts = some ts') : Packed ts' := by
  obtain ⟨as, n, rfl⟩ := hp
  have hfull : none ∉ as.map some := by simp
  cases n with
  | zero =>
      have hnone : none ∉ as.map some ++ List.replicate 0 none := by simp
      rw [put_eq_none_iff.mpr hnone] at h
      exact absurd h (by simp)
  | succ n =>
      have hput : SlotTable.put a (List.replicate (n + 1) none) = some (some a :: List.replicate n none) := rfl
      rw [put_append_of_full hfull hput] at h
      obtain rfl := Option.some.inj h
      exact ⟨as ++ [a], n, by rw [List.map_append, List.append_assoc]; rfl⟩

@[simp] theorem length_sweep (due : α → Bool) (ts : Table α) : (sweep due ts).length = ts.length :=
  List.length_map _

/-- What a sweep leaves. -/
theorem entries_sweep (due : α → Bool) (ts : Table α) :
    entries (sweep due ts) = (entries ts).filter (fun a => !due a) := by
  induction ts with
  | nil => rfl
  | cons o ts ih =>
      have hcons : sweep due (o :: ts) = o.filter (fun a => !due a) :: sweep due ts := rfl
      rw [hcons]
      cases o with
      | none => exact ih
      | some a =>
          cases hdue : due a with
          | true => simp [Option.filter, hdue, ih]
          | false => simp [Option.filter, hdue, ih]

/-- Only what a test says of the entries matters. -/
theorem sweep_congr {due due' : α → Bool} {ts : Table α} (h : ∀ a ∈ entries ts, due a = due' a) :
    sweep due ts = sweep due' ts := by
  apply List.map_congr_left
  intro o ho
  cases o with
  | none => rfl
  | some a =>
      have ha : due a = due' a := h a (mem_entries.mpr ho)
      simp [Option.filter, ha]

theorem pairwise_sweep {r : α → α → Prop} {ts : Table α} (h : (entries ts).Pairwise r) (due : α → Bool) :
    (entries (sweep due ts)).Pairwise r := by
  rw [entries_sweep]
  exact h.filter _

/-- **Handing over what is due keeps a relation between what has been handed over and what is left**, when it
    holds of what is due and what is not. -/
theorem pairwise_sent_sweep {r : α → α → Prop} {before : List α} {ts : Table α} {due : α → Bool}
    (hr : (before ++ entries ts).Pairwise r)
    (hdue : ∀ x ∈ entries ts, ∀ y ∈ entries ts, due x = true → due y = false → r x y) :
    (before ++ (entries ts).filter due ++ entries (sweep due ts)).Pairwise r := by
  obtain ⟨hbefore, hentries, hacross⟩ := List.pairwise_append.mp hr
  rw [entries_sweep, List.append_assoc, List.pairwise_append, List.pairwise_append]
  refine ⟨hbefore, ⟨hentries.filter _, hentries.filter _, ?_⟩, ?_⟩
  · intro x hx y hy
    obtain ⟨hx, hxdue⟩ := List.mem_filter.mp hx
    obtain ⟨hy, hydue⟩ := List.mem_filter.mp hy
    exact hdue x hx y hy hxdue (by simpa using hydue)
  · intro x hx y hy
    apply hacross x hx y
    rcases List.mem_append.mp hy with hy | hy
    · exact (List.mem_filter.mp hy).1
    · exact (List.mem_filter.mp hy).1

theorem Within.sweep {n : Nat} {ts : Table α} (h : Within n ts) (due : α → Bool) :
    Within n (SlotTable.sweep due ts) := by
  have hdrop : (SlotTable.sweep due ts).drop n = SlotTable.sweep due (ts.drop n) := List.map_drop.symm
  rw [Within, hdrop, entries_sweep, show entries (ts.drop n) = [] from h]
  rfl

/-! ## Tables of one kind of entry seen as tables of another -/

section Map

variable (f : β → α)

theorem entries_map (ts : Table β) : entries (ts.map (Option.map f)) = (entries ts).map f :=
  List.reduceOption_map

theorem put_map (b : β) (ts : Table β) :
    put (f b) (ts.map (Option.map f)) = (put b ts).map (List.map (Option.map f)) := by
  induction ts with
  | nil => rfl
  | cons o ts ih =>
      cases o with
      | none => rfl
      | some c =>
          show (put (f b) (ts.map (Option.map f))).map (some (f c) :: ·) = _
          rw [ih, put, Option.map_map, Option.map_map]
          rfl

theorem sweep_map (due : α → Bool) (ts : Table β) :
    sweep due (ts.map (Option.map f)) = (sweep (fun b => due (f b)) ts).map (Option.map f) := by
  unfold sweep
  rw [List.map_map, List.map_map]
  apply List.map_congr_left
  intro o _
  cases o with
  | none => rfl
  | some b => cases hdue : due (f b) <;> simp [Option.filter, hdue]

def Op.map : Op τ β → Op τ α
  | .put b => .put (f b)
  | .sweep now => .sweep now

def Out.map : Out β → Out α
  | .accepted b => .accepted (f b)
  | .refused b => .refused (f b)
  | .sent b => .sent (f b)

/-- **A table whose test does not look at what the view leaves out behaves like its view.** -/
theorem step_map (test : τ → α → Bool) (ts : Table β) (op : Op τ β) :
    step test (ts.map (Option.map f)) (op.map f)
      = ((step (fun now b => test now (f b)) ts op).1.map (Option.map f),
          (step (fun now b => test now (f b)) ts op).2.map (Out.map f)) := by
  cases op with
  | put b =>
      show step test _ (.put (f b)) = _
      rw [step, step, put_map]
      cases h : put b ts with
      | none => rfl
      | some ts' => rfl
  | sweep now =>
      show step test _ (.sweep now) = _
      rw [step, step, sweep_map, entries_map, List.filter_map, List.map_map, List.map_map]
      rfl

end Map

/-! ## Runs -/

variable {test : τ → α → Bool}

theorem step_put_of_some {a : α} {ts ts' : Table α} (h : put a ts = some ts') :
    step test ts (.put a) = (ts', [.accepted a]) := by
  rw [step, h]

theorem step_put_of_none {a : α} {ts : Table α} (h : put a ts = none) :
    step test ts (.put a) = (ts, [.refused a]) := by
  rw [step, h]

theorem length_step (ts : Table α) (op : Op τ α) : (step test ts op).1.length = ts.length := by
  cases op with
  | put a =>
      cases h : put a ts with
      | none => rw [step_put_of_none h]
      | some ts' => rw [step_put_of_some h, length_put h]
  | sweep now => exact length_sweep _ _

theorem length_finish (ts : Table α) (ops : List (Op τ α)) :
    (finish (step test) ts ops).length = ts.length := by
  have hstep : ∀ us op, us.length = ts.length → (step test us op).1.length = ts.length := by
    intro us op hus
    exact (length_step us op).trans hus
  exact finish_invariant hstep rfl ops

theorem filterMap_sent (as : List α) : (as.map Out.sent).filterMap Out.sent? = as := by
  rw [List.filterMap_map]
  exact List.filterMap_some

theorem filterMap_accepted_sent (as : List α) : (as.map Out.sent).filterMap Out.accepted? = [] := by
  rw [List.filterMap_map]
  exact List.filterMap_eq_nil_iff.mpr (fun _ _ => rfl)

/-- One operation loses nothing and hands nothing over twice. -/
theorem step_conserved (ts : Table α) (op : Op τ α) :
    (((step test ts op).2.filterMap Out.accepted? : List α) : Multiset α) + (entries ts : Multiset α)
      = ((step test ts op).2.filterMap Out.sent? : List α) + (entries (step test ts op).1 : Multiset α) := by
  cases op with
  | put a =>
      cases h : put a ts with
      | none => rw [step_put_of_none h]; rfl
      | some ts' =>
          rw [step_put_of_some h, entries_put_coe h]
          exact (zero_add _).symm
  | sweep now =>
      -- what is due and what is not make up the entries
      have hperm : ((entries ts).filter (test now) ++ (entries ts).filter (fun a => !test now a)).Perm
          (entries ts) := List.filter_append_perm (test now) (entries ts)
      rw [step, filterMap_accepted_sent, filterMap_sent, entries_sweep, Multiset.coe_add, Multiset.coe_add]
      exact Multiset.coe_eq_coe.mpr hperm.symm

/-- **Nothing is lost and nothing is handed over twice.** -/
theorem conserved (ts : Table α) (ops : List (Op τ α)) :
    (accepted test ts ops : Multiset α) + (entries ts : Multiset α)
      = (sent test ts ops : Multiset α) + (entries (finish (step test) ts ops) : Multiset α) := by
  induction ops generalizing ts with
  | nil => rfl
  | cons op ops ih =>
      have hstep := @step_conserved _ _ test ts op
      have hrest := ih (step test ts op).1
      rw [sent, accepted] at hrest ⊢
      rw [emit_cons, List.filterMap_append, List.filterMap_append, ← Multiset.coe_add, ← Multiset.coe_add,
        finish_cons, add_assoc _ _ (entries (finish (step test) (step test ts op).1 ops) : Multiset α), ← hrest,
        add_left_comm _ _ (entries (step test ts op).1 : Multiset α), ← hstep]
      rw [add_assoc, add_left_comm]

/-- **With room for all of them, entries put one after the other are all accepted**, in the first slots. -/
theorem puts_accepted {n : Nat} {ts : Table α} {as : List α} (hw : Within n ts) (hn : n ≤ ts.length)
    (hroom : (entries ts).length + as.length ≤ n) :
    Within n (finish (step test) ts (as.map Op.put))
      ∧ ∀ o ∈ emit (step test) ts (as.map Op.put), o.refused? = none := by
  induction as generalizing ts with
  | nil => exact ⟨hw, fun o ho => absurd ho List.not_mem_nil⟩
  | cons a as ih =>
      have hcons : (a :: as).length = as.length + 1 := rfl
      have hlt : (entries ts).length < ts.length := by omega
      have hne : put a ts ≠ none := by
        rw [Ne, put_eq_none_iff, not_not]
        exact length_entries_lt_iff.mp hlt
      obtain ⟨ts', hput⟩ := Option.ne_none_iff_exists'.mp hne
      have hlen : (entries ts').length = (entries ts).length + 1 := by
        obtain ⟨front, back, hts, hts'⟩ := entries_put hput
        rw [hts, hts', List.length_append, List.length_append, List.length_cons, Nat.add_assoc]
      obtain ⟨hwithin, hout⟩ := ih (hw.put hn (by omega) hput) (by rw [length_put hput]; exact hn) (by omega)
      rw [List.map_cons, finish_cons, emit_cons, step_put_of_some hput]
      refine ⟨hwithin, ?_⟩
      intro o ho
      rcases List.mem_append.mp ho with ho | ho
      · rw [List.mem_singleton.mp ho]
        rfl
      · exact hout o ho

/-- A put that is not refused. -/
theorem put_of_not_refused {a : α} {ts : Table α} (h : ∀ o ∈ (step test ts (.put a)).2, o.refused? = none) :
    ∃ ts', put a ts = some ts' := by
  cases hput : put a ts with
  | none =>
      rw [step_put_of_none hput] at h
      exact absurd (h _ List.mem_cons_self) (by simp [Out.refused?])
  | some ts' => exact ⟨ts', rfl⟩

/-- What the table holds after entries have been put. -/
theorem mem_entries_puts {as : List α} {ts : Table α} {b : α}
    (h : b ∈ entries (finish (step test) ts (as.map Op.put))) : b ∈ as ∨ b ∈ entries ts := by
  induction as generalizing ts with
  | nil => exact Or.inr h
  | cons a as ih =>
      rw [List.map_cons, finish_cons] at h
      rcases ih h with hmem | hmem
      · exact Or.inl (List.mem_cons_of_mem a hmem)
      · cases hput : put a ts with
        | none =>
            rw [step_put_of_none hput] at hmem
            exact Or.inr hmem
        | some ts' =>
            rw [step_put_of_some hput] at hmem
            rcases (mem_entries_put hput).mp hmem with rfl | hmem
            · exact Or.inl List.mem_cons_self
            · exact Or.inr hmem

/-- **Entries put in pairs keep each pair in order**, behind what has been handed over. -/
theorem pairwise_puts {r : α → α → Prop} {before : List α} {ts : Table α} {ps : List (α × α)}
    (hr : (before ++ entries ts).Pairwise r)
    (hold : ∀ x ∈ before ++ entries ts, ∀ p ∈ ps, (r x p.1 ∧ r p.1 x) ∧ r x p.2 ∧ r p.2 x)
    (hps : ps.Pairwise (fun p q => ∀ x ∈ [p.1, p.2], (r x q.1 ∧ r q.1 x) ∧ r x q.2 ∧ r q.2 x))
    (hpair : ∀ p ∈ ps, r p.1 p.2)
    (hok : ∀ o ∈ emit (step test) ts ((ps.flatMap (fun p => [p.1, p.2])).map Op.put), o.refused? = none) :
    (before ++ entries (finish (step test) ts ((ps.flatMap (fun p => [p.1, p.2])).map Op.put))).Pairwise r := by
  induction ps generalizing ts with
  | nil => exact hr
  | cons p ps ih =>
      rw [List.flatMap_cons, List.cons_append, List.cons_append, List.nil_append, List.map_cons, List.map_cons]
        at hok ⊢
      obtain ⟨ts', ha⟩ := put_of_not_refused (fun o ho => hok o (List.mem_append_left _ ho))
      rw [emit_cons, step_put_of_some ha] at hok
      rw [finish_cons, step_put_of_some ha]
      obtain ⟨ts'', hb⟩ :=
        put_of_not_refused (fun o ho => hok o (List.mem_append_right _ (List.mem_append_left _ ho)))
      rw [emit_cons, step_put_of_some hb] at hok
      rw [finish_cons, step_put_of_some hb]
      -- what has been handed over stands in front like a full part of the table
      have hfull : none ∉ before.map some := by simp
      have hmem : ∀ x ∈ before ++ entries ts'', x = p.1 ∨ x = p.2 ∨ x ∈ before ++ entries ts := by
        intro x hx
        rw [List.mem_append, mem_entries_put hb, mem_entries_put ha] at hx
        rw [List.mem_append]
        tauto
      have hentries : ∀ us : Table α, entries (before.map some ++ us) = before ++ entries us := by
        intro us
        rw [entries_append, entries_map_some]
      obtain ⟨hhead, htail⟩ := List.pairwise_cons.mp hps
      apply ih
      · have htwo := pairwise_put_two (r := r) (put_append_of_full hfull ha) (put_append_of_full hfull hb)
        rw [hentries, hentries] at htwo
        exact htwo hr (fun x hx => hold x hx p List.mem_cons_self) (hpair p List.mem_cons_self)
      · intro x hx q hq
        rcases hmem x hx with rfl | rfl | hx
        · exact hhead q hq _ (by simp)
        · exact hhead q hq _ (by simp)
        · exact hold x hx q (List.mem_cons_of_mem _ hq)
      · exact htail
      · intro q hq
        exact hpair q (List.mem_cons_of_mem _ hq)
      · intro o ho
        exact hok o (List.mem_append_right _ (List.mem_append_right _ ho))

/-- What a run is asked to put. -/
def asked (ops : List (Op τ α)) : List α :=
  ops.filterMap (fun op => match op with
    | .put a => some a
    | .sweep _ => none)

/-- A run that refuses nothing accepts what it is asked to put. -/
theorem accepted_of_not_refused {ts : Table α} {ops : List (Op τ α)}
    (h : ∀ o ∈ emit (step test) ts ops, o.refused? = none) : accepted test ts ops = asked ops := by
  induction ops generalizing ts with
  | nil => rfl
  | cons op ops ih =>
      have hhead : ∀ o ∈ (step test ts op).2, o.refused? = none := by
        intro o ho
        exact h o (List.mem_append_left _ ho)
      have htail : accepted test (step test ts op).1 ops = asked ops := by
        apply ih
        intro o ho
        exact h o (List.mem_append_right _ ho)
      rw [accepted, emit_cons, List.filterMap_append]
      cases op with
      | put a =>
          cases hput : put a ts with
          | none =>
              rw [step_put_of_none hput] at hhead
              exact absurd (hhead _ List.mem_cons_self) (by simp [Out.refused?])
          | some ts' =>
              rw [step_put_of_some hput] at htail ⊢
              exact congrArg (a :: ·) htail
      | sweep now =>
          rw [step, filterMap_accepted_sent] at *
          exact htail

end SlotTable
