import GuitarraMidi.Lib.Clock
import Mathlib.Data.List.Induction

/-!
# `Lib.Debounce` — taking a level up once it has been held

A debouncer keeps the last level it read and the reading of a 32-bit clock when that level last changed, and takes
the level up once it is `d` old by that clock. What it is for does not mention either: a level is taken up exactly
when every sample of the last `d` of true time, and one at least `d` ago, showed it (`Held`).

Over whole histories no level is taken up that has not been held (`taken_run`), however long the clock has gone round
since. And the two agree (`stable_run`) as long as two samples are less than a turn less `d` apart: the comparison is
made at every sample, so it is then made within a turn of the change the first time it can succeed.
-/

namespace Debounce

open Clock

variable {α : Type*} {d : UInt32}

/-! ## Histories -/

/-- Levels with the true times they were read at, the last one last. -/
abbrev Samples (α : Type*) := List (Nat × α)

/-- The times do not go back. -/
def Ordered (xs : Samples α) : Prop := xs.Pairwise (fun x y => x.1 ≤ y.1)

/-- The times do not go back, and two samples in a row are less than a turn of the clock less `d` apart. -/
def Sampled (d : UInt32) (xs : Samples α) : Prop :=
  xs.IsChain (fun x y => x.1 ≤ y.1 ∧ y.1 - x.1 < 2 ^ 32 - d.toNat)

/-- The level of the sample `x` after `xs` has been read in all samples from one at least `d` ago on. -/
def Held (d : UInt32) (xs : Samples α) (x : Nat × α) : Prop :=
  ∃ pre y post, xs ++ [x] = pre ++ y :: post ∧ y.1 + d.toNat ≤ x.1 ∧ ∀ z ∈ y :: post, z.2 = x.2

theorem Ordered.left {xs ys : Samples α} (h : Ordered (xs ++ ys)) : Ordered xs := (List.pairwise_append.mp h).1

theorem Sampled.left {xs ys : Samples α} (h : Sampled d (xs ++ ys)) : Sampled d xs := h.left_of_append

theorem Sampled.ordered {xs : Samples α} (h : Sampled d xs) : Ordered xs := pairwise_le h (fun _ _ hxy => hxy.1)

/-- The level has been read since `y`, and another one before. -/
def Since (xs : Samples α) (level : α) (y : Nat × α) : Prop :=
  ∃ pre post, xs = pre ++ y :: post ∧ (∀ z ∈ y :: post, z.2 = level) ∧ ∀ p ∈ pre.getLast?, p.2 ≠ level

theorem Since.mem {xs : Samples α} {level : α} {y : Nat × α} (h : Since xs level y) : y ∈ xs := by
  obtain ⟨pre, post, rfl, -, -⟩ := h
  exact List.mem_append_right pre List.mem_cons_self

/-- The level is read once more. -/
theorem Since.again {xs : Samples α} {level : α} {x y : Nat × α} (h : Since xs level y) (hx : x.2 = level) :
    Since (xs ++ [x]) level y := by
  obtain ⟨pre, post, rfl, hlevel, hbefore⟩ := h
  refine ⟨pre, post ++ [x], by rw [List.append_assoc, List.cons_append], ?_, hbefore⟩
  intro z hz
  rw [← List.cons_append] at hz
  rcases List.mem_append.mp hz with hz | hz
  · exact hlevel z hz
  · exact (congrArg Prod.snd (List.mem_singleton.mp hz)).trans hx

/-- A level is read that was not the last one. -/
theorem Since.changed {xs : Samples α} {x : Nat × α} (h : ∀ p ∈ xs.getLast?, p.2 ≠ x.2) :
    Since (xs ++ [x]) x.2 x := by
  refine ⟨xs, [], rfl, ?_, h⟩
  intro z hz
  rw [List.mem_singleton.mp hz]

/-- No earlier sample begins a stretch of the level that lasts to the end. -/
theorem Since.mem_stretch {xs pre post : Samples α} {level : α} {y z : Nat × α} (h : Since xs level y)
    (hxs : xs = pre ++ z :: post) (hlevel : ∀ p ∈ z :: post, p.2 = level) :
    ∃ front back, xs = front ++ y :: back ∧ z ∈ y :: back := by
  obtain ⟨front, back, hsplit, -, hbefore⟩ := h
  refine ⟨front, back, hsplit, ?_⟩
  rcases List.append_eq_append_iff.mp (hsplit.symm.trans hxs) with ⟨mid, -, hmid⟩ | ⟨mid, hfront, hmid⟩
  · rw [hmid]
    exact List.mem_append_right mid List.mem_cons_self
  · -- a stretch that began in `front` would hold the last sample there
    rcases List.eq_nil_or_concat' mid with rfl | ⟨mid, p, rfl⟩
    · rw [List.nil_append] at hmid
      rw [← hmid]
      exact List.mem_cons_self
    · have hlast : p ∈ front.getLast? := by
        rw [hfront, ← List.append_assoc, List.getLast?_append]
        rfl
      have hp : p ∈ z :: post := by
        rw [hmid]
        exact List.mem_append_left _ (List.mem_append_right mid List.mem_cons_self)
      exact absurd (hlevel p hp) (hbefore p hlast)

/-- **A level has been held for `d` exactly when it was first read that long ago.** -/
theorem held_iff {xs : Samples α} {x y : Nat × α} (h : Ordered (xs ++ [x])) (hsince : Since (xs ++ [x]) x.2 y) :
    Held d xs x ↔ y.1 + d.toNat ≤ x.1 := by
  constructor
  · rintro ⟨pre, z, post, hsplit, hold, hlevel⟩
    obtain ⟨front, back, hxs, hz⟩ := hsince.mem_stretch hsplit hlevel
    have hle : y.1 ≤ z.1 := by
      rcases List.mem_cons.mp hz with rfl | hz
      · exact Nat.le_refl _
      · rw [hxs] at h
        exact (List.pairwise_cons.mp (List.pairwise_append.mp h).2.1).1 z hz
    omega
  · intro hold
    obtain ⟨pre, post, hsplit, hlevel, -⟩ := hsince
    exact ⟨pre, y, post, hsplit, hold, hlevel⟩

/-! ## The debouncer -/

/-- The level taken up, the level last read, and the clock when that last changed. -/
structure Debouncer (α : Type*) where
  stable : α
  read : α
  change : UInt32

variable [DecidableEq α]

/-- Reading a level. -/
def sense (s : Debouncer α) (now : UInt32) (level : α) : Debouncer α :=
  if level ≠ s.read then { s with read := level, change := now } else s

/-- Taking the level up when it is old enough. -/
def settle (d : UInt32) (s : Debouncer α) (now : UInt32) : Debouncer α :=
  if now - s.change ≥ d && s.stable ≠ s.read then { s with stable := s.read } else s

/-- One sample. -/
def sample (d : UInt32) (s : Debouncer α) (now : UInt32) (level : α) : Debouncer α :=
  settle d (sense s now level) now

/-- The debouncer after a list of samples. -/
def run (d : UInt32) (s : Debouncer α) (xs : Samples α) : Debouncer α :=
  xs.foldl (fun s x => sample d s (tick x.1) x.2) s

/-- A debouncer that has taken up the level it last read. The time of the change is not that of any sample. -/
def Debouncer.start (level : α) (change : UInt32) : Debouncer α := ⟨level, level, change⟩

theorem run_concat (s : Debouncer α) (xs : Samples α) (x : Nat × α) :
    run d s (xs ++ [x]) = sample d (run d s xs) (tick x.1) x.2 := by
  unfold run
  rw [List.foldl_append, List.foldl_cons, List.foldl_nil]

/-! ## The two agree -/

/-- A level that is taken up is old enough by the true times. -/
theorem taken_settle {s : Debouncer α} {y t : Nat} (hchange : s.change = tick y) (hle : y ≤ t) :
    (settle d s (tick t)).stable = s.stable ∨ (y + d.toNat ≤ t ∧ (settle d s (tick t)).stable = s.read) := by
  unfold settle
  split
  · rename_i htaken
    rw [Bool.and_eq_true, decide_eq_true_eq, hchange] at htaken
    exact Or.inr ⟨le_elapsed hle htaken.1, rfl⟩
  · exact Or.inl rfl

/-- Where the clock has not gone round since the change, or the level is taken up already, the comparison by the
    clock is that of the true times. -/
theorem stable_settle {s : Debouncer α} {y t : Nat} (hchange : s.change = tick y) (hle : y ≤ t)
    (hturn : y + d.toNat ≤ t → s.stable = s.read ∨ t - y < 2 ^ 32) :
    (settle d s (tick t)).stable = if y + d.toNat ≤ t then s.read else s.stable := by
  have hd : d.toNat < 2 ^ 32 := d.toNat_lt
  unfold settle
  rw [hchange]
  by_cases hsame : s.stable = s.read
  · simp [hsame]
  · have hexact : (tick t - tick y).toNat = t - y := by
      apply toNat_elapsed hle
      by_cases hold : y + d.toNat ≤ t
      · exact (hturn hold).resolve_left hsame
      · omega
    have hiff : tick t - tick y ≥ d ↔ y + d.toNat ≤ t := by
      rw [ge_iff_le, UInt32.le_iff_toNat_le, hexact]
      omega
    simp only [hiff, hsame, ne_eq, not_false_eq_true, decide_true, Bool.and_true, decide_eq_true_eq]
    split <;> rfl

@[simp] theorem read_settle (s : Debouncer α) (now : UInt32) : (settle d s now).read = s.read := by
  unfold settle
  split <;> rfl

@[simp] theorem change_settle (s : Debouncer α) (now : UInt32) : (settle d s now).change = s.change := by
  unfold settle
  split <;> rfl

@[simp] theorem stable_sense (s : Debouncer α) (now : UInt32) (level : α) :
    (sense s now level).stable = s.stable := by
  unfold sense
  split <;> rfl

@[simp] theorem read_sense (s : Debouncer α) (now : UInt32) (level : α) : (sense s now level).read = level := by
  unfold sense
  split
  · rfl
  · rename_i h
    exact (not_ne_iff.mp h).symm

/-- What the state says of the samples so far. Either no other level than the first has been read, or the time of the
    change is that of the sample which began the present level, and a level old enough has been taken up if the samples
    are close enough. -/
inductive Tracks (d : UInt32) (xs : Samples α) (s : Debouncer α) : Prop
  | untouched (hstable : s.stable = s.read) (hlevel : ∀ x ∈ xs, x.2 = s.read)
  | since (y : Nat × α) (hsince : Since xs s.read y) (hchange : s.change = tick y.1)
      (hold : Sampled d xs → ∀ z ∈ xs.getLast?, y.1 + d.toNat ≤ z.1 → s.stable = s.read)

/-- The sample in which the level read now was first read: `x` itself when the level is another, and otherwise a
    sample that the state knows of. -/
theorem Tracks.sense {xs : Samples α} {s : Debouncer α} (h : Tracks d xs s) (x : Nat × α) :
    (s.stable = x.2 ∧ ∀ z ∈ xs ++ [x], z.2 = x.2)
      ∨ ∃ y, Since (xs ++ [x]) x.2 y ∧ (sense s (tick x.1) x.2).change = tick y.1
          ∧ (Sampled d (xs ++ [x]) → y.1 + d.toNat ≤ x.1 → s.stable = x.2 ∨ x.1 - y.1 < 2 ^ 32) := by
  have hd : d.toNat < 2 ^ 32 := d.toNat_lt
  by_cases hread : x.2 = s.read
  · have hsense : Debounce.sense s (tick x.1) x.2 = s := if_neg (not_ne_iff.mpr hread)
    rw [hsense]
    cases h with
    | untouched hstable hlevel =>
        refine Or.inl ⟨hstable.trans hread.symm, ?_⟩
        intro z hz
        rcases List.mem_append.mp hz with hz | hz
        · exact (hlevel z hz).trans hread.symm
        · rw [List.mem_singleton.mp hz]
    | since y hsince hchange hold =>
        refine Or.inr ⟨y, hread ▸ hsince.again hread, hchange, ?_⟩
        intro hsampled _
        -- either the level was old enough at the last sample, or that was less than `d` after the change
        have hz := List.getLast?_eq_some_getLast (List.ne_nil_of_mem hsince.mem)
        generalize xs.getLast (List.ne_nil_of_mem hsince.mem) = z at hz
        by_cases hlast : y.1 + d.toNat ≤ z.1
        · exact Or.inl ((hold hsampled.left z hz hlast).trans hread.symm)
        · have hgap := (List.isChain_append.mp hsampled).2.2 z hz x rfl
          exact Or.inr (by omega)
  · have hsense : Debounce.sense s (tick x.1) x.2 = { s with read := x.2, change := tick x.1 } := if_pos hread
    have hlast : ∀ p ∈ xs.getLast?, p.2 ≠ x.2 := by
      intro p hp hpx
      have hp_read : p.2 = s.read := by
        cases h with
        | untouched hstable hlevel => exact hlevel p (List.mem_of_getLast? hp)
        | since y hsince hchange hold =>
            obtain ⟨pre, post, rfl, hlevel, -⟩ := hsince
            apply hlevel
            rw [List.getLast?_append_of_ne_nil _ (List.cons_ne_nil y post)] at hp
            exact List.mem_of_getLast? hp
      exact hread (hpx.symm.trans hp_read)
    rw [hsense]
    refine Or.inr ⟨x, Since.changed hlast, rfl, ?_⟩
    intro _ _
    exact Or.inr (by omega)

/-- **One sample**: the level read is taken up only when it has been held, and then it is if the samples are close
    enough; the state keeps track. -/
theorem Tracks.sample {xs : Samples α} {s : Debouncer α} (h : Tracks d xs s) {x : Nat × α}
    (hordered : Ordered (xs ++ [x])) :
    Tracks d (xs ++ [x]) (sample d s (tick x.1) x.2)
      ∧ ((Debounce.sample d s (tick x.1) x.2).stable = s.stable
          ∨ (Held d xs x ∧ (Debounce.sample d s (tick x.1) x.2).stable = x.2))
      ∧ (Sampled d (xs ++ [x]) → Held d xs x → (Debounce.sample d s (tick x.1) x.2).stable = x.2) := by
  unfold Debounce.sample
  rcases h.sense x with ⟨hstable, hlevel⟩ | ⟨y, hsince, hchange, hturn⟩
  · have hsame : (settle d (Debounce.sense s (tick x.1) x.2) (tick x.1)).stable = s.stable := by
      unfold settle
      simp [hstable]
    refine ⟨.untouched ?_ ?_, Or.inl hsame, fun _ _ => hsame.trans hstable⟩
    · rw [hsame, read_settle, read_sense, hstable]
    · simpa only [read_settle, read_sense] using hlevel
  · have hle : y.1 ≤ x.1 := by
      rcases List.mem_append.mp hsince.mem with hy | hy
      · exact (List.pairwise_append.mp hordered).2.2 y hy x List.mem_cons_self
      · rw [List.mem_singleton.mp hy]
    have hexact : Sampled d (xs ++ [x]) → y.1 + d.toNat ≤ x.1 →
        (settle d (Debounce.sense s (tick x.1) x.2) (tick x.1)).stable = x.2 := by
      intro hsampled hold
      rw [stable_settle hchange hle (by simpa only [stable_sense, read_sense] using hturn hsampled), if_pos hold,
        read_sense]
    rw [held_iff hordered hsince]
    refine ⟨.since y ?_ ?_ ?_, ?_, hexact⟩
    · rw [read_settle, read_sense]
      exact hsince
    · rw [change_settle, hchange]
    · intro hsampled z hz hold
      rw [List.getLast?_append_of_ne_nil _ (List.cons_ne_nil x [])] at hz
      obtain rfl : x = z := Option.some.inj hz
      rw [hexact hsampled hold, read_settle, read_sense]
    · simpa only [stable_sense, read_sense] using taken_settle (d := d) hchange hle

theorem tracks_run {level : α} {change : UInt32} {xs : Samples α} (h : Ordered xs) :
    Tracks d xs (run d (Debouncer.start level change) xs) := by
  induction xs using List.reverseRecOn with
  | nil => exact .untouched rfl (fun x hx => absurd hx List.not_mem_nil)
  | append_singleton xs x ih =>
      rw [run_concat]
      exact ((ih h.left).sample h).1

/-- **A level is taken up only when it has been held for `d` of true time**, over any history. -/
theorem taken_run (level : α) (change : UInt32) {xs : Samples α} {x : Nat × α} (h : Ordered (xs ++ [x])) :
    (run d (Debouncer.start level change) (xs ++ [x])).stable = (run d (Debouncer.start level change) xs).stable
      ∨ (Held d xs x ∧ (run d (Debouncer.start level change) (xs ++ [x])).stable = x.2) := by
  rw [run_concat]
  exact ((tracks_run h.left).sample h).2.1

/-- **And exactly then**, over any history of samples that are close enough. -/
theorem stable_run {level : α} {change : UInt32} {xs : Samples α} {x : Nat × α} (h : Sampled d (xs ++ [x])) :
    (Held d xs x → (run d (Debouncer.start level change) (xs ++ [x])).stable = x.2)
      ∧ (¬ Held d xs x → (run d (Debouncer.start level change) (xs ++ [x])).stable
          = (run d (Debouncer.start level change) xs).stable) := by
  refine ⟨?_, fun hnot => (taken_run level change h.ordered).resolve_right (fun hx => hnot hx.1)⟩
  rw [run_concat]
  exact ((tracks_run h.ordered.left).sample h.ordered).2.2 h

end Debounce
