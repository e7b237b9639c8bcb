import GuitarraMidi.Lib.Transducer
import Mathlib.Data.List.Induction

/-!
# `Lib.Mailbox` — a one-slot mailbox between a writer and a polling reader

The writer overwrites the slot whether or not it has been read. The reader polls: it empties the slot and
keeps what it finds only if it passes a test `ok`, so the test comes after the overwriting. The questions
such a mailbox raises are the same for every client:

* what the slot holds, read off the history of the mailbox (`finish_eq_some_iff`);
* what the reader gets: each value from the put just before its take, in order and at most once
  (`exists_accounts`);
* what a second writer, none of whose values pass the test, does to the first one's
  (`emit_all_sublist`, `emit_all_eq_iff`).
-/

namespace Mailbox

open Transducer

variable {α : Type*}

/-- What happens to the mailbox. -/
inductive Act (α : Type*)
  | put (a : α)
  | take
  | idle

variable (ok : α → Bool)

/-- A put overwrites the slot; a take empties it and gives what passes the test. -/
def step : Option α → Act α → Option α × List α
  | _, .put a => (some a, [])
  | slot, .take => (none, slot.toList.filter ok)
  | slot, .idle => (slot, [])

variable {ok}

@[simp] theorem step_put (slot : Option α) (a : α) : step ok slot (.put a) = (some a, []) := rfl
@[simp] theorem step_take (slot : Option α) :
    step ok slot .take = (none, slot.toList.filter ok) := rfl
@[simp] theorem step_idle (slot : Option α) : step ok slot .idle = (slot, []) := rfl

/-- A step gives nothing, unless it is a take that finds a value that passes. -/
theorem step_gives (ok : α → Bool) (slot : Option α) (x : Act α) :
    (step ok slot x).2 = [] ∨ ∃ a, x = .take ∧ slot = some a ∧ ok a = true := by
  match slot, x with
  | _, .put _ => exact Or.inl rfl
  | _, .idle => exact Or.inl rfl
  | none, .take => exact Or.inl rfl
  | some a, .take =>
      by_cases hok : ok a = true
      · exact Or.inr ⟨a, rfl, rfl, hok⟩
      · left
        rw [step_take, Option.toList_some, List.filter_cons_of_neg hok]
        rfl

theorem step_take_of_ok {a : α} (hok : ok a = true) : (step ok (some a) .take).2 = [a] := by
  rw [step_take, Option.toList_some, List.filter_cons_of_pos hok]
  rfl

theorem finish_idle {acts : List (Act α)} (h : ∀ x ∈ acts, x = .idle) (slot : Option α) :
    finish (step ok) slot acts = slot := by
  induction acts with
  | nil => rfl
  | cons x acts ih =>
      rw [finish_cons, h x List.mem_cons_self, step_idle]
      apply ih
      intro y hy
      exact h y (List.mem_cons_of_mem x hy)

/-! ## What the slot holds -/

/-- **The slot holds the last value put, unless it has been taken since.** -/
theorem finish_eq_some_iff {acts : List (Act α)} {a : α} :
    finish (step ok) none acts = some a
      ↔ ∃ pre post, acts = pre ++ .put a :: post ∧ ∀ x ∈ post, x = .idle := by
  constructor
  · intro h
    induction acts using List.reverseRecOn with
    | nil => exact absurd h (by simp)
    | append_singleton acts x ih =>
        rw [finish_concat] at h
        cases x with
        | put b =>
            obtain rfl : b = a := Option.some.inj h
            refine ⟨acts, [], rfl, ?_⟩
            intro x hx
            exact absurd hx List.not_mem_nil
        | take => exact absurd h (by simp)
        | idle =>
            obtain ⟨pre, post, rfl, hidle⟩ := ih h
            refine ⟨pre, post ++ [.idle], by rw [List.append_assoc, List.cons_append], ?_⟩
            intro x hx
            rcases List.mem_append.mp hx with hx | hx
            · exact hidle x hx
            · exact List.mem_singleton.mp hx
  · rintro ⟨pre, post, rfl, hidle⟩
    rw [finish_append, finish_cons, step_put, finish_idle hidle]

/-- The same by positions: where the value was put, and that nothing but idling happened since. -/
theorem put_at_of_finish_eq_some {acts : List (Act α)} {a : α} (h : finish (step ok) none acts = some a) :
    ∃ i, i < acts.length ∧ acts[i]? = some (.put a)
      ∧ ∀ k, i < k → k < acts.length → acts[k]? = some .idle := by
  obtain ⟨pre, post, rfl, hidle⟩ := finish_eq_some_iff.mp h
  have hlen : (pre ++ .put a :: post).length = pre.length + (post.length + 1) := by
    rw [List.length_append, List.length_cons]
  refine ⟨pre.length, by omega, ?_, ?_⟩
  · rw [List.getElem?_append_right (Nat.le_refl _), Nat.sub_self, List.getElem?_cons_zero]
  · intro k hk hk'
    obtain ⟨d, rfl⟩ := Nat.exists_eq_add_of_lt hk
    have hd : d < post.length := by omega
    rw [Nat.add_assoc, List.getElem?_append_right (Nat.le_add_right _ _), Nat.add_sub_cancel_left,
      List.getElem?_cons_succ, List.getElem?_eq_getElem hd, hidle _ (List.getElem_mem hd)]

/-! ## What the reader gets -/

/-- One value on its way through the mailbox. -/
structure Delivery (α : Type*) where
  putAt : Nat
  takeAt : Nat
  val : α

/-- The value was put where the delivery says, taken where it says, and lay in the slot in between. -/
structure Delivery.Sound (ok : α → Bool) (acts : List (Act α)) (d : Delivery α) : Prop where
  put_lt_take : d.putAt < d.takeAt
  put : acts[d.putAt]? = some (.put d.val)
  take : acts[d.takeAt]? = some .take
  between : ∀ k, d.putAt < k → k < d.takeAt → acts[k]? = some .idle
  held : finish (step ok) none (acts.take d.takeAt) = some d.val
  passes : ok d.val = true

/-- Later in both respects. -/
def Delivery.Before (d d' : Delivery α) : Prop := d.putAt < d'.putAt ∧ d.takeAt < d'.takeAt

theorem Delivery.Sound.takeAt_lt {acts : List (Act α)} {d : Delivery α} (h : d.Sound ok acts) :
    d.takeAt < acts.length := by
  obtain ⟨hlt, -⟩ := List.getElem?_eq_some_iff.mp h.take
  exact hlt

theorem Delivery.Sound.append {acts : List (Act α)} {d : Delivery α} (h : d.Sound ok acts) (x : Act α) :
    d.Sound ok (acts ++ [x]) := by
  have hkeep : ∀ k, k ≤ d.takeAt → (acts ++ [x])[k]? = acts[k]? := by
    intro k hk
    exact List.getElem?_append_left (Nat.lt_of_le_of_lt hk h.takeAt_lt)
  refine ⟨h.put_lt_take, ?_, ?_, ?_, ?_, h.passes⟩
  · rw [hkeep _ (Nat.le_of_lt h.put_lt_take), h.put]
  · rw [hkeep _ (Nat.le_refl _), h.take]
  · intro k hk hk'
    rw [hkeep _ (Nat.le_of_lt hk'), h.between k hk hk']
  · rw [List.take_append_of_le_length (Nat.le_of_lt h.takeAt_lt), h.held]

/-- `ds` accounts for a run: it lists what the reader gets, each value with where it comes from, in order,
    and leaves out nothing that passes the test at a take. -/
structure Accounts (ok : α → Bool) (acts : List (Act α)) (ds : List (Delivery α)) : Prop where
  emitted : emit (step ok) none acts = ds.map Delivery.val
  sound : ∀ d ∈ ds, d.Sound ok acts
  ordered : ds.Pairwise Delivery.Before
  complete : ∀ i a, acts[i]? = some .take → finish (step ok) none (acts.take i) = some a → ok a = true →
    ∃ d ∈ ds, d.takeAt = i ∧ d.val = a

namespace Accounts

variable {acts : List (Act α)} {ds : List (Delivery α)}

/-- A take of the longer run is a take of the shorter one, or the last action. -/
theorem complete_concat (h : Accounts ok acts ds) {x : Act α} {i : Nat} {a : α}
    (htake : (acts ++ [x])[i]? = some .take)
    (hslot : finish (step ok) none ((acts ++ [x]).take i) = some a) (hok : ok a = true) :
    (∃ d ∈ ds, d.takeAt = i ∧ d.val = a) ∨
      (i = acts.length ∧ x = .take ∧ finish (step ok) none acts = some a) := by
  rcases Nat.lt_or_ge i acts.length with hi | hi
  · left
    rw [List.getElem?_append_left hi] at htake
    rw [List.take_append_of_le_length (Nat.le_of_lt hi)] at hslot
    exact h.complete i a htake hslot hok
  · right
    have hlen := (List.getElem?_eq_some_iff.mp htake).1
    rw [List.length_append, List.length_singleton] at hlen
    obtain rfl : i = acts.length := Nat.le_antisymm (Nat.le_of_lt_succ hlen) hi
    rw [List.getElem?_concat_length] at htake
    rw [List.take_left] at hslot
    exact ⟨rfl, Option.some.inj htake, hslot⟩

theorem concat_nothing (h : Accounts ok acts ds) {x : Act α}
    (hx : (step ok (finish (step ok) none acts) x).2 = []) : Accounts ok (acts ++ [x]) ds where
  emitted := by rw [emit_concat, h.emitted, hx, List.append_nil]
  sound := by
    intro d hd
    exact (h.sound d hd).append x
  ordered := h.ordered
  complete := by
    intro i a htake hslot hok
    rcases h.complete_concat htake hslot hok with hold | ⟨-, rfl, hheld⟩
    · exact hold
    · rw [hheld, step_take_of_ok hok] at hx
      exact absurd hx (List.cons_ne_nil a [])

/-- A take that gives something gives what was put after every earlier take. -/
theorem concat_take (h : Accounts ok acts ds) {a : α} (hslot : finish (step ok) none acts = some a)
    (hok : ok a = true) : ∃ d, Accounts ok (acts ++ [.take]) (ds ++ [d]) := by
  obtain ⟨j, hj, hput, hidle⟩ := put_at_of_finish_eq_some hslot
  have hnew : Delivery.Sound ok (acts ++ [.take]) ⟨j, acts.length, a⟩ := by
    refine ⟨hj, ?_, List.getElem?_concat_length, ?_, ?_, hok⟩
    · exact (List.getElem?_append_left hj).trans hput
    · intro k hk hk'
      exact (List.getElem?_append_left hk').trans (hidle k hk hk')
    · rw [List.take_left, hslot]
  have hlast : ∀ d ∈ ds, d.Before ⟨j, acts.length, a⟩ := by
    intro d hd
    have hd := h.sound d hd
    -- between the put at `j` and now nothing was taken, and at `j` itself a value was put
    have htake : d.takeAt < j := by
      rcases Nat.lt_trichotomy d.takeAt j with hlt | heq | hgt
      · exact hlt
      · exact absurd (hd.take.symm.trans (heq ▸ hput)) (by simp)
      · exact absurd (hd.take.symm.trans (hidle _ hgt hd.takeAt_lt)) (by simp)
    exact ⟨Nat.lt_trans hd.put_lt_take htake, hd.takeAt_lt⟩
  refine ⟨⟨j, acts.length, a⟩, ?_, ?_, ?_, ?_⟩
  · rw [emit_concat, h.emitted, hslot, step_take_of_ok hok, List.map_append]
    rfl
  · intro d hd
    rcases List.mem_append.mp hd with hd | hd
    · exact (h.sound d hd).append .take
    · rw [List.mem_singleton.mp hd]
      exact hnew
  · rw [List.pairwise_append]
    refine ⟨h.ordered, List.pairwise_singleton _ _, ?_⟩
    intro d hd d' hd'
    rw [List.mem_singleton.mp hd']
    exact hlast d hd
  · intro i b htake hslot' hok'
    rcases h.complete_concat htake hslot' hok' with ⟨d, hd, hval⟩ | ⟨rfl, -, hheld⟩
    · exact ⟨d, List.mem_append_left _ hd, hval⟩
    · refine ⟨_, List.mem_append_right _ (List.mem_singleton_self _), rfl, ?_⟩
      exact Option.some.inj (hslot.symm.trans hheld)

end Accounts

/-- **Everything the reader gets comes from the put just before its take**, in order and at most once, and
    it gets whatever passes the test at a take. -/
theorem exists_accounts (ok : α → Bool) (acts : List (Act α)) :
    ∃ ds : List (Delivery α), Accounts ok acts ds := by
  induction acts using List.reverseRecOn with
  | nil =>
      refine ⟨[], rfl, ?_, List.Pairwise.nil, ?_⟩
      · intro d hd
        exact absurd hd List.not_mem_nil
      · intro i a htake
        exact absurd htake (by simp)
  | append_singleton acts x ih =>
      obtain ⟨ds, h⟩ := ih
      rcases step_gives ok (finish (step ok) none acts) x with hnone | ⟨a, rfl, hslot, hok⟩
      · exact ⟨ds, h.concat_nothing hnone⟩
      · obtain ⟨d, h⟩ := h.concat_take hslot hok
        exact ⟨ds ++ [d], h⟩

/-! ## A second writer -/

/-- A value the reader does not keep. -/
abbrev Junk (ok : α → Bool) := { a : α // ok a = false }

/-- A history in which a second writer puts junk: what the first writer and the reader do, … -/
def own : Act α ⊕ Junk ok → Act α
  | .inl x => x
  | .inr _ => .idle

/-- … and everything that happens. -/
def all : Act α ⊕ Junk ok → Act α
  | .inl x => x
  | .inr j => .put j

/-- The second writer overwrites a good value before it is taken, and nothing good is put over its junk. -/
def Overwritten (es : List (Act α ⊕ Junk ok)) : Prop :=
  ∃ A a B j C D, es = A ++ .inl (.put a) :: (B ++ .inr j :: (C ++ .inl .take :: D)) ∧ ok a = true ∧
    (∀ e ∈ B, own e = .idle) ∧ ∀ e ∈ C, own e = .idle

theorem step_take_of_junk (j : Junk ok) : (step ok (some j.val) .take).2 = [] := by
  rw [step_take, Option.toList_some, List.filter_cons_of_neg (by rw [j.property]; exact Bool.false_ne_true)]
  rfl

/-- With or without the second writer the slot is the same, or what is in it is junk. -/
theorem slot_all (es : List (Act α ⊕ Junk ok)) :
    finish (step ok) none (es.map all) = finish (step ok) none (es.map own) ∨
      ∃ j : Junk ok, finish (step ok) none (es.map all) = some j.val := by
  induction es using List.reverseRecOn with
  | nil => exact Or.inl rfl
  | append_singleton es e ih =>
      rw [List.map_append, List.map_append, List.map_singleton, List.map_singleton, finish_concat,
        finish_concat]
      match e with
      | .inl (.put a) => exact Or.inl rfl
      | .inl .take => exact Or.inl rfl
      | .inl .idle => exact ih
      | .inr j => exact Or.inr ⟨j, rfl⟩

/-- While the first writer and the reader are idle, junk stays junk. -/
theorem junk_stays {es : List (Act α ⊕ Junk ok)} (h : ∀ e ∈ es, own e = .idle) (j : Junk ok) :
    ∃ j' : Junk ok, finish (step ok) (some j.val) (es.map all) = some j'.val := by
  induction es generalizing j with
  | nil => exact ⟨j, rfl⟩
  | cons e es ih =>
      have hes : ∀ e ∈ es, own e = .idle := by
        intro e' he'
        exact h e' (List.mem_cons_of_mem e he')
      have he := h e List.mem_cons_self
      match e, he with
      | .inl .idle, _ => exact ih hes j
      | .inr j', _ => exact ih hes j'

/-- Unless the second writer was at work, a good value is still there. -/
theorem exists_junk_of_slot_ne {A B : List (Act α ⊕ Junk ok)} {a : α} (hB : ∀ e ∈ B, own e = .idle)
    (hslot : finish (step ok) none ((A ++ .inl (.put a) :: B).map all) ≠ some a) :
    ∃ j, Sum.inr j ∈ B := by
  by_contra hno
  apply hslot
  have hidle : ∀ x ∈ B.map all, x = .idle := by
    intro x hx
    obtain ⟨e, he, rfl⟩ := List.mem_map.mp hx
    match e, he with
    | .inl x, he => exact hB _ he
    | .inr j, he => exact absurd ⟨j, he⟩ hno
  rw [List.map_append, List.map_cons]
  exact finish_eq_some_iff.mpr ⟨A.map all, B.map all, rfl, hidle⟩

theorem take_all_sublist (es : List (Act α ⊕ Junk ok)) :
    (step ok (finish (step ok) none (es.map all)) .take).2.Sublist
      (step ok (finish (step ok) none (es.map own)) .take).2 := by
  rcases slot_all es with heq | ⟨j, hj⟩
  · rw [heq]
  · rw [hj, step_take_of_junk]
    exact List.nil_sublist _

theorem step_all_sublist (es : List (Act α ⊕ Junk ok)) (e : Act α ⊕ Junk ok) :
    (step ok (finish (step ok) none (es.map all)) (all e)).2.Sublist
      (step ok (finish (step ok) none (es.map own)) (own e)).2 := by
  match e with
  | .inl .take => exact take_all_sublist es
  | .inl (.put _) => exact List.Sublist.refl []
  | .inl .idle => exact List.Sublist.refl []
  | .inr _ => exact List.Sublist.refl []

/-- **A second writer adds nothing to what the reader gets.** -/
theorem emit_all_sublist (es : List (Act α ⊕ Junk ok)) :
    (emit (step ok) none (es.map all)).Sublist (emit (step ok) none (es.map own)) := by
  rw [← emit_comp own, ← emit_comp all]
  apply emit_sublist
  intro pre e post _
  rw [finish_comp own, finish_comp all]
  exact step_all_sublist pre e

/-- At the take of an overwriting the first writer's slot is good, … -/
theorem own_slot_good {A B C : List (Act α ⊕ Junk ok)} (hB : ∀ e ∈ B, own e = .idle)
    (hC : ∀ e ∈ C, own e = .idle) (a : α) (j : Junk ok) :
    finish (step ok) none ((A ++ .inl (.put a) :: (B ++ .inr j :: C)).map own) = some a := by
  have hidle : ∀ x ∈ (B ++ .inr j :: C).map own, x = .idle := by
    intro x hx
    obtain ⟨e, he, rfl⟩ := List.mem_map.mp hx
    rcases List.mem_append.mp he with he | he
    · exact hB e he
    · rcases List.mem_cons.mp he with rfl | he
      · rfl
      · exact hC e he
  rw [List.map_append, List.map_cons]
  exact finish_eq_some_iff.mpr ⟨A.map own, _, rfl, hidle⟩

/-- … and the real one is junk. -/
theorem all_slot_junk {A B C : List (Act α ⊕ Junk ok)} (hC : ∀ e ∈ C, own e = .idle) (a : α)
    (j : Junk ok) :
    ∃ j' : Junk ok, finish (step ok) none ((A ++ .inl (.put a) :: (B ++ .inr j :: C)).map all)
      = some j'.val := by
  obtain ⟨j', hj'⟩ := junk_stays hC j
  refine ⟨j', ?_⟩
  rw [← hj', ← List.cons_append, ← List.append_assoc, List.map_append, List.map_cons, finish_append]
  rfl

/-- Conversely, slots that differ in this way at a take come from an overwriting. -/
theorem overwritten_of_slots {pre : List (Act α ⊕ Junk ok)} {a : α} {j : Junk ok}
    (hown : finish (step ok) none (pre.map own) = some a) (hok : ok a = true)
    (hall : finish (step ok) none (pre.map all) = some j.val) (post : List (Act α ⊕ Junk ok)) :
    Overwritten (pre ++ .inl .take :: post) := by
  obtain ⟨P, Q, hpre, hQ⟩ := finish_eq_some_iff.mp hown
  obtain ⟨A, R, rfl, rfl, hR⟩ := List.map_eq_append_iff.mp hpre
  obtain ⟨x, B, rfl, hx, rfl⟩ := List.map_eq_cons_iff.mp hR
  have hB : ∀ e ∈ B, own e = .idle := by
    intro e he
    exact hQ _ (List.mem_map_of_mem he)
  match x, hx with
  | .inl _, rfl =>
      have hne : finish (step ok) none ((A ++ .inl (.put a) :: B).map all) ≠ some a := by
        rw [hall]
        intro heq
        rw [← Option.some.inj heq, j.property] at hok
        exact Bool.false_ne_true hok
      obtain ⟨j', hj'⟩ := exists_junk_of_slot_ne hB hne
      obtain ⟨B, C, rfl⟩ := List.append_of_mem hj'
      refine ⟨A, a, B, j', C, post, by simp, hok, ?_, ?_⟩
      · intro e he
        exact hB e (List.mem_append_left _ he)
      · intro e he
        exact hB e (List.mem_append_right _ (List.mem_cons_of_mem _ he))

/-- **And it takes nothing away exactly when it never overwrites a good value.** -/
theorem emit_all_eq_iff (es : List (Act α ⊕ Junk ok)) :
    emit (step ok) none (es.map all) = emit (step ok) none (es.map own) ↔ ¬ Overwritten es := by
  have hle : ∀ pre e post, es = pre ++ e :: post →
      (step ok (finish (fun s x => step ok s (all x)) none pre) (all e)).2.Sublist
        (step ok (finish (fun s x => step ok s (own x)) none pre) (own e)).2 := by
    intro pre e post _
    rw [finish_comp own, finish_comp all]
    exact step_all_sublist pre e
  rw [← emit_comp own, ← emit_comp all, emit_eq_iff_of_sublist hle]
  constructor
  · rintro hsteps ⟨A, a, B, j, C, D, rfl, hok, hB, hC⟩
    -- at the take the first writer's value comes out in one history, and nothing in the other
    have hout := hsteps (A ++ .inl (.put a) :: (B ++ .inr j :: C)) (.inl .take) D (by simp)
    obtain ⟨j', hj'⟩ := all_slot_junk (A := A) (B := B) hC a j
    rw [finish_comp own, finish_comp all, own_slot_good hB hC, hj'] at hout
    exact absurd ((step_take_of_junk j').symm.trans (hout.trans (step_take_of_ok hok))) (by simp)
  · intro hno pre e post hsplit
    rw [finish_comp own, finish_comp all]
    -- only a take gives anything
    match e, hsplit with
    | .inl (.put _), _ | .inl .idle, _ | .inr _, _ => rfl
    | .inl .take, hsplit =>
        rcases slot_all pre with heq | ⟨j, hj⟩
        · rw [heq]
          rfl
        · rcases step_gives ok (finish (step ok) none (pre.map own)) .take with
            hnone | ⟨a, -, hslot, hok⟩
          · exact (hj ▸ step_take_of_junk j).trans hnone.symm
          · exact absurd (hsplit ▸ overwritten_of_slots hslot hok hj post) hno

end Mailbox
