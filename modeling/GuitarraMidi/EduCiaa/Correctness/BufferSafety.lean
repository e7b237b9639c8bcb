import GuitarraMidi.EduCiaa.Accesses
import GuitarraMidi.EduCiaa.Correctness.ReceiverSim

/-!
# `EduCiaa.Correctness.BufferSafety` — the receive buffer is neither overrun nor read stale

`main` writes through a pointer, never clears the struct, and never initialises it. What keeps it safe is how `idx`,
`synced` and `gotAA` go together (`Receiving`): while a packet is being received, the bytes below `idx` are those
written since the preamble. Every function has a triple that says so, and a run of them, whatever the stream, makes no
access that is not `Safe` (`buffer_safety`).
-/

namespace GuitarraMidi.EduCiaa.Buffer

open Framing Traced Transducer

/-! ## Safe accesses -/

/-- `p[i]` has been written with `byte`, and not written again, and there has been no synchronisation since. -/
def Fresh (i : Nat) (byte : UInt8) (h : List Access) : Prop :=
  Since (fun a => a ≠ .sync ∧ ∀ b, a ≠ .write i b) (fun a => a = .write i byte) h

/-- What is asked of an access after `h`: that it is inside the struct, and that a byte that is read was written after
    the last synchronisation. -/
def Safe (h : List Access) (a : Access) : Prop :=
  (∀ i byte, a = .write i byte → i < chordMessageSize)
    ∧ ∀ i byte, a = .read i byte → i < chordMessageSize ∧ .sync ∈ h ∧ Fresh i byte h

/-- The first `n` bytes have been written since the last synchronisation, and there they are. -/
structure Written (n : Nat) (p : Vector UInt8 8) (h : List Access) : Prop where
  sync : .sync ∈ h
  fresh : ∀ i < n, Fresh i (p.toList.getD i 0) h

/-! ## One access -/

theorem getD_set_self {p : Vector UInt8 8} {i : Nat} (hi : i < chordMessageSize) (byte : UInt8) :
    (p.setIfInBounds i byte).toList.getD i 0 = byte := by
  have hlen : i < p.toList.length := by rw [Vector.length_toList]; exact hi
  rw [Vector.toList_setIfInBounds, List.getD_eq_getElem?_getD, List.getElem?_set_self hlen, Option.getD_some]

theorem getD_set_of_ne {p : Vector UInt8 8} {i j : Nat} (hne : i ≠ j) (byte : UInt8) :
    (p.setIfInBounds i byte).toList.getD j 0 = p.toList.getD j 0 := by
  rw [Vector.toList_setIfInBounds, List.getD_eq_getElem?_getD, List.getElem?_set_ne hne, ← List.getD_eq_getElem?_getD]

/-- Whatever has been written, nothing is fresh when the preamble has been read. -/
theorem triple_sync {P : Vector UInt8 8 → List Access → Prop} :
    Triple Safe P (act .sync) (fun _ => Written 0) := by
  apply triple_act
  · intro p h _
    exact ⟨fun _ _ ha => Access.noConfusion ha, fun _ _ ha => Access.noConfusion ha⟩
  · intro p h _
    exact ⟨List.mem_append_right h List.mem_cons_self, fun i hi => absurd hi (Nat.not_lt_zero i)⟩

theorem triple_write {n : Nat} (hn : n < chordMessageSize) (byte : UInt8) :
    Triple Safe (Written n) (write n byte) (fun _ => Written (n + 1)) := by
  rintro p h ⟨⟩ p' tr hw hrun
  obtain ⟨-, rfl, rfl⟩ : () = () ∧ p.setIfInBounds n byte = p' ∧ [Access.write n byte] = tr := by
    simpa [write] using hrun
  refine ⟨lawful_singleton ⟨?_, fun _ _ ha => Access.noConfusion ha⟩, List.mem_append_left _ hw.sync, ?_⟩
  · rintro i b ⟨⟩
    exact hn
  · intro i hi
    rcases Nat.lt_or_eq_of_le (Nat.le_of_lt_succ hi) with hlt | rfl
    · rw [getD_set_of_ne (Nat.ne_of_gt hlt)]
      refine since_concat.mpr (Or.inr ⟨⟨Access.noConfusion, ?_⟩, hw.fresh i hlt⟩)
      rintro b ⟨⟩
      exact Nat.lt_irrefl _ hlt
    · rw [getD_set_self hn]
      exact since_concat.mpr (Or.inl rfl)

theorem triple_read {i : Nat} (hi : i < chordMessageSize) :
    Triple Safe (Written chordMessageSize) (read i) (fun _ => Written chordMessageSize) := by
  intro p h byte p' tr hw hrun
  obtain ⟨rfl, rfl, rfl⟩ : p.toList.getD i 0 = byte ∧ p = p' ∧ [Access.read i (p.toList.getD i 0)] = tr := by
    simpa [read] using hrun
  refine ⟨lawful_singleton ⟨fun _ _ ha => Access.noConfusion ha, ?_⟩, List.mem_append_left _ hw.sync, ?_⟩
  · rintro j b ⟨⟩
    exact ⟨hi, hw.sync, hw.fresh i hi⟩
  · intro j hj
    exact since_concat.mpr (Or.inr ⟨⟨Access.noConfusion, fun _ => Access.noConfusion⟩, hw.fresh j hj⟩)

/-! ## Packets -/

theorem triple_chkFrom {i n : Nat} (h : i + n ≤ chordMessageSize) (chk : UInt8) :
    Triple Safe (Written chordMessageSize) (chkFrom i n chk) (fun _ => Written chordMessageSize) := by
  induction n generalizing i chk with
  | zero => exact triple_pure (fun _ _ hw => hw)
  | succ n ih => exact triple_bind (triple_read (by omega)) (fun byte => ih (by omega) _)

theorem triple_readBotones :
    Triple Safe (Written chordMessageSize) readBotones (fun _ => Written chordMessageSize) := by
  unfold readBotones
  refine triple_bind (triple_read (by decide)) (fun b0 => ?_)
  refine triple_bind (triple_read (by decide)) (fun b1 => ?_)
  refine triple_bind (triple_read (by decide)) (fun b2 => ?_)
  refine triple_bind (triple_read (by decide)) (fun b3 => ?_)
  exact triple_pure (fun _ _ hw => hw)

theorem triple_usePacket :
    Triple Safe (Written chordMessageSize) usePacket (fun _ => Written chordMessageSize) := by
  unfold usePacket
  refine triple_bind triple_readBotones (fun botones => ?_)
  refine triple_bind (triple_read (by decide)) (fun dbgVelocity => ?_)
  split
  · exact triple_bind (triple_read (by decide)) (fun strumVelocity => triple_pure (fun _ _ hw => hw))
  · exact triple_pure (fun _ _ hw => hw)

theorem triple_judge : Triple Safe (Written chordMessageSize) judge (fun _ => Written chordMessageSize) := by
  unfold judge
  refine triple_bind (triple_chkFrom (by decide) 0) (fun chk => ?_)
  refine triple_bind (triple_read (by decide)) (fun checksum => ?_)
  split
  · exact triple_pure (fun _ _ hw => hw)
  · exact triple_usePacket

/-! ## Bytes -/

/-- What holds between two bytes: while a packet is being received, the index is inside the struct, and what is below it
    has been written since the preamble. -/
def Receiving (v : Vars) (p : Vector UInt8 8) (h : List Access) : Prop :=
  v.synced = true → (2 ≤ v.idx ∧ v.idx < chordMessageSize ∧ v.gotAA = false) ∧ Written v.idx p h

/-- Between packets there is nothing to show. -/
theorem triple_unsynced {P : Vector UInt8 8 → List Access → Prop} {v : Vars} (hv : v.synced = false)
    (out : List Judged) : Triple Safe P (pure (v, out)) (fun r => Receiving r.1) :=
  triple_pure (fun _ _ _ hsync => absurd (hv.symm.trans hsync) Bool.false_ne_true)

theorem triple_readByte (v : Vars) (byte : UInt8) :
    Triple Safe (Receiving v) (readByte v byte) (fun r => Receiving r.1) := by
  obtain ⟨idx, synced, gotAA⟩ := v
  cases synced with
  | false =>
      cases gotAA with
      | false => exact triple_unsynced rfl []
      | true =>
          change Triple Safe _ (if (byte == 0x55) = true then _ else _) _
          split
          · refine triple_bind triple_sync (fun _ => ?_)
            refine triple_bind (triple_write (by decide) 0xAA) (fun _ => ?_)
            refine triple_bind (triple_write (by decide) 0x55) (fun _ => ?_)
            exact triple_pure (fun _ _ hw _ => ⟨by decide, hw⟩)
          · exact triple_unsynced rfl []
  | true =>
      have hvars : ∀ p h, Receiving ⟨idx, true, gotAA⟩ p h → 2 ≤ idx ∧ idx < chordMessageSize ∧ gotAA = false :=
        fun p h hr => (hr rfl).1
      apply triple_of_pre hvars
      rintro ⟨htwo, hidx, rfl⟩
      have hwrite : Triple Safe (Receiving ⟨idx, true, false⟩) (write idx byte) (fun _ => Written (idx + 1)) :=
        (triple_write hidx byte).weaken (fun _ _ hr => (hr rfl).2) (fun _ _ _ hw => hw)
      refine triple_bind hwrite (fun _ => ?_)
      split
      · -- the struct is full: all of it has been written
        have hfull : idx + 1 = chordMessageSize := Nat.le_antisymm hidx ‹_›
        rw [hfull]
        exact triple_bind triple_judge (fun out => triple_unsynced rfl [out])
      · exact triple_pure (fun _ _ hw _ => ⟨⟨Nat.le_succ_of_le htwo, Nat.lt_of_not_le ‹_›, rfl⟩, hw⟩)

theorem triple_readBytes (v : Vars) (bytes : List UInt8) :
    Triple Safe (Receiving v) (readBytes v bytes) (fun r => Receiving r.1) := by
  induction bytes generalizing v with
  | nil => exact triple_pure (fun _ _ hr => hr)
  | cons byte bytes ih =>
      refine triple_bind (triple_readByte v byte) (fun r => ?_)
      refine triple_bind (ih r.1) (fun r' => ?_)
      exact triple_pure (fun _ _ hr => hr)

/-! ## Runs -/

/-- The buffer has no part in how the other variables change. -/
theorem vars_rxByte {s t : Rx} (h : vars s = vars t) (byte : UInt8) :
    vars (rxByte s byte).1 = vars (rxByte t byte).1 := by
  obtain ⟨p, idx, synced, gotAA⟩ := s
  obtain ⟨p', idx', synced', gotAA'⟩ := t
  obtain ⟨rfl, rfl, rfl⟩ : idx = idx' ∧ synced = synced' ∧ gotAA = gotAA' := by simpa [vars] using h
  cases synced with
  | false =>
      cases gotAA with
      | false => rfl
      | true =>
          by_cases hbyte : byte = 0x55
          · subst hbyte
            rfl
          · rw [rxByte_other hbyte, rxByte_other hbyte]
            rfl
  | true =>
      by_cases hfull : idx + 1 ≥ chordMessageSize
      · rw [rxByte_full hfull, rxByte_full hfull]
        rfl
      · rw [rxByte_more hfull, rxByte_more hfull]
        rfl

theorem vars_finish {s t : Rx} (h : vars s = vars t) (bytes : List UInt8) :
    vars (finish rxByte s bytes) = vars (finish rxByte t bytes) := by
  induction bytes generalizing s t with
  | nil => exact h
  | cons byte bytes ih => exact ih (vars_rxByte h byte)

/-- What is made of a stream does not depend on what the stack held. -/
theorem emit_start (p p' : Vector UInt8 8) (bytes : List UInt8) :
    emit rxByte (Rx.start p) bytes = emit rxByte (Rx.start p') bytes := by
  rw [emit_rxByte (Rx.wf_start p), emit_rxByte (Rx.wf_start p'), Rx.held_start, Rx.held_start]

/-- While a packet is being received, the buffer starts with the preamble and goes on with the last bytes received. -/
theorem received {s : Rx} {bytes : List UInt8} (hs : s.Wf) (hheld : s.held <:+ bytes) (hsync : s.synced = true) :
    s.p.toList.take 2 = [0xAA, 0x55] ∧ s.idx - 2 ≤ bytes.length
      ∧ (s.p.toList.take s.idx).drop 2 = bytes.drop (bytes.length - (s.idx - 2)) := by
  have hidx : s.idx ≤ 8 := Nat.le_of_lt (Format.idx_lt hs hsync)
  have hlen : ((s.p.toList.take s.idx).drop 2).length = s.idx - 2 := by
    rw [List.length_drop, List.length_take, Vector.length_toList, Nat.min_eq_left hidx]
  have hfilled : s.held = s.p.toList.take s.idx := Format.held_filling hsync
  rw [hfilled] at hheld
  have hpreamble : [0xAA, 0x55] <+: s.p.toList := (Format.preamble_prefix hs hsync).trans (List.take_prefix _ _)
  have htail : (s.p.toList.take s.idx).drop 2 <:+ bytes := (List.drop_suffix 2 _).trans hheld
  rw [← hlen]
  exact ⟨(List.prefix_iff_eq_take.mp hpreamble).symm, htail.length_le, List.suffix_iff_eq_drop.mp htail⟩

/-- **The receive buffer is never overrun and never read stale.** What becomes of a stream is the same whatever the
    buffer held at first. While a packet is being received, `idx` is from 2 to 7, and below it are the preamble and the
    last `idx - 2` bytes received. Every write is inside the struct, and every byte read was written after the last
    synchronisation. -/
theorem buffer_safety (bytes : List UInt8) :
    ∃ v out, ∀ p, ∃ p' tr, readBytes Vars.start bytes p = some ((v, out), p', tr)
      ∧ (v.synced = true → 2 ≤ v.idx ∧ v.idx ≤ 7 ∧ v.gotAA = false ∧ p'.toList.take 2 = [0xAA, 0x55]
          ∧ v.idx - 2 ≤ bytes.length ∧ (p'.toList.take v.idx).drop 2 = bytes.drop (bytes.length - (v.idx - 2)))
      ∧ ∀ pre a post, tr = pre ++ a :: post →
          (∀ i byte, a = .write i byte → i < chordMessageSize)
            ∧ ∀ i byte, a = .read i byte → i < chordMessageSize ∧ .sync ∈ pre ∧ Fresh i byte pre := by
  let p₀ : Vector UInt8 8 := Vector.replicate 8 0
  refine ⟨vars (finish rxByte (Rx.start p₀) bytes), (emit rxByte (Rx.start p₀) bytes).map judged, fun p => ?_⟩
  obtain ⟨tr, hrun⟩ := returns_readBytes (Rx.start p) bytes
  have hvars : vars (finish rxByte (Rx.start p) bytes) = vars (finish rxByte (Rx.start p₀) bytes) :=
    vars_finish (s := Rx.start p) (t := Rx.start p₀) rfl bytes
  rw [emit_start p p₀] at hrun
  obtain ⟨hsafe, hreceiving⟩ := triple_readBytes Vars.start bytes p [] _ _ tr
    (fun hsync => absurd hsync Bool.false_ne_true) hrun
  rw [← hvars]
  refine ⟨_, tr, hrun, ?_, hsafe⟩
  intro hsync
  obtain ⟨⟨htwo, hidx, haa⟩, -⟩ := hreceiving hsync
  have hwf := finish_rxByte_wf (Rx.wf_start p) bytes
  exact ⟨htwo, Nat.le_of_lt_succ hidx, haa, received hwf (held_finish_suffix p bytes) hsync⟩

end GuitarraMidi.EduCiaa.Buffer
