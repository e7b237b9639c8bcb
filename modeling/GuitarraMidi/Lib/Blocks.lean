import GuitarraMidi.Lib.Transducer
import Mathlib.Data.Nat.Init

/-!
# `Lib.Blocks` — a stream without frames, cut into blocks

The receiver that fills a buffer and takes it for a message whenever it is full, with no mark between the messages. It
cuts out the blocks of the stream from the very first symbol on (`emit_fill`): what is read as the `k`-th message are the
symbols from `k * n` on, wherever the sender's messages begin.
-/

namespace Blocks

open Transducer

variable {α : Type*} {n : Nat}

/-- The whole blocks of `n` symbols. -/
def blocks (n : Nat) (bs : List α) : List (List α) :=
  (List.range (bs.length / n)).map (fun k => (bs.drop (k * n)).take n)

theorem blocks_of_length_lt {bs : List α} (h : bs.length < n) : blocks n bs = [] := by
  unfold blocks
  rw [Nat.div_eq_of_lt h]
  rfl

/-- The first block. -/
theorem blocks_append {xs : List α} (hn : 0 < n) (h : xs.length = n) (ys : List α) :
    blocks n (xs ++ ys) = xs :: blocks n ys := by
  unfold blocks
  rw [List.length_append, h, Nat.add_div_left _ hn, List.range_succ_eq_map, List.map_cons, List.map_map]
  congr 1
  · rw [Nat.zero_mul, List.drop_zero, ← h, List.take_left]
  · apply List.map_congr_left
    intro k _
    show ((xs ++ ys).drop ((k + 1) * n)).take n = (ys.drop (k * n)).take n
    rw [Nat.succ_mul, Nat.add_comm (k * n), ← h, ← List.drop_drop, List.drop_left]

/-- Whole messages at the beginning are the first blocks. -/
theorem blocks_flatten (hn : 0 < n) {ms : List (List α)} (hms : ∀ m ∈ ms, m.length = n) (ys : List α) :
    blocks n (ms.flatten ++ ys) = ms ++ blocks n ys := by
  induction ms with
  | nil => rfl
  | cons m ms ih =>
      rw [List.flatten_cons, List.append_assoc, blocks_append hn (hms m List.mem_cons_self),
        ih (fun l hl => hms l (List.mem_cons_of_mem m hl))]
      rfl

/-- **A stream of messages is never in step again after `d` symbols of one of them have been lost**: `rest` is what is
    left of that one, and every block from there on is completed by the first `d` symbols of the next message. -/
theorem blocks_shifted {d : Nat} (hd : 0 < d) (hdn : d < n) {rest : List α} {ms : List (List α)}
    (hrest : rest.length + d = n) (hms : ∀ m ∈ ms, m.length = n) :
    blocks n (rest ++ ms.flatten) = List.zipWith (fun r m => r ++ m.take d) (rest :: ms.map (List.drop d)) ms := by
  induction ms generalizing rest with
  | nil =>
      rw [List.flatten_nil, List.append_nil]
      exact blocks_of_length_lt (by omega)
  | cons m ms ih =>
      have hm : m.length = n := hms m List.mem_cons_self
      have hcut : rest ++ (m :: ms).flatten = (rest ++ m.take d) ++ (m.drop d ++ ms.flatten) := by
        rw [List.flatten_cons, List.append_assoc, ← List.append_assoc (m.take d), List.take_append_drop]
      have hblock : (rest ++ m.take d).length = n := by
        rw [List.length_append, List.length_take]
        omega
      have hleft : (m.drop d).length + d = n := by
        rw [List.length_drop]
        omega
      rw [hcut, blocks_append (Nat.lt_trans hd hdn) hblock, ih hleft (fun l hl => hms l (List.mem_cons_of_mem m hl))]
      rfl

/-- The buffer and the place in it. -/
structure Filler (α : Type*) (n : Nat) where
  p : Vector α n
  idx : Nat

namespace Filler

/-- The buffer as it is found. -/
def start (p : Vector α n) : Filler α n := ⟨p, 0⟩

/-- What is in the buffer of the next message. -/
def held (s : Filler α n) : List α := s.p.toList.take s.idx

/-- One symbol, and the message it completes. -/
def fill (s : Filler α n) (b : α) : Filler α n × List (List α) :=
  let p := s.p.setIfInBounds s.idx b
  let idx := s.idx + 1
  if idx ≥ n then (⟨p, 0⟩, [p.toList]) else (⟨p, idx⟩, [])

variable {s : Filler α n}

theorem length_held (h : s.idx < n) : s.held.length = s.idx := by
  unfold held
  rw [List.length_take, Vector.length_toList]
  omega

/-- The symbol comes behind those held. -/
theorem take_setIfInBounds (h : s.idx < n) (b : α) :
    (s.p.setIfInBounds s.idx b).toList.take (s.idx + 1) = s.held ++ [b] := by
  have hlen : s.idx < s.p.toList.length := by rwa [Vector.length_toList]
  rw [Vector.toList_setIfInBounds, List.take_add_one, List.getElem?_set_self hlen, List.take_set_of_le (Nat.le_refl _)]
  rfl

theorem fill_full (hs : s.idx < n) (hfull : n ≤ s.idx + 1) (b : α) :
    fill s b = (⟨s.p.setIfInBounds s.idx b, 0⟩, [s.held ++ [b]]) := by
  have hall : (s.p.setIfInBounds s.idx b).toList = s.held ++ [b] := by
    rw [← take_setIfInBounds hs, List.take_of_length_le]
    rwa [Vector.length_toList]
  unfold fill
  rw [if_pos hfull, hall]

theorem fill_more (hmore : ¬ n ≤ s.idx + 1) (b : α) : fill s b = (⟨s.p.setIfInBounds s.idx b, s.idx + 1⟩, []) :=
  if_neg hmore

theorem fill_wf (s : Filler α n) (b : α) (hs : s.idx < n) : (fill s b).1.idx < n := by
  by_cases hfull : n ≤ s.idx + 1
  · rw [fill_full hs hfull]
    exact Nat.lt_of_le_of_lt (Nat.zero_le _) hs
  · rw [fill_more hfull]
    exact Nat.lt_of_not_le hfull

/-- **The messages are the blocks** of what the buffer held and what it is fed. -/
theorem emit_fill (hs : s.idx < n) (bs : List α) : emit fill s bs = blocks n (s.held ++ bs) := by
  refine emit_eq_spec (fun (s : Filler α n) => s.idx < n) (fun s bs => blocks n (s.held ++ bs)) fill_wf ?_ ?_ hs bs
  · intro s h
    rw [List.append_nil]
    exact blocks_of_length_lt (by rwa [length_held h])
  · intro s b bs h
    have hlen : (s.held ++ [b]).length = s.idx + 1 := by
      rw [List.length_append, length_held h]
      rfl
    rw [← List.singleton_append, ← List.append_assoc]
    by_cases hfull : n ≤ s.idx + 1
    · have hblock : (s.held ++ [b]).length = n := by omega
      rw [fill_full h hfull, blocks_append (Nat.lt_of_le_of_lt (Nat.zero_le _) h) hblock]
      rfl
    · have hheld : (⟨s.p.setIfInBounds s.idx b, s.idx + 1⟩ : Filler α n).held = s.held ++ [b] :=
        take_setIfInBounds h b
      rw [fill_more hfull, hheld]
      rfl

end Filler

end Blocks
