import GuitarraMidi.Receptora.Bridge
import GuitarraMidi.Emisora.SendPacket

/-!
# `Receptora.Correctness.Suppression` — what invalid radio packets do to valid ones

`OnDataRecv` checks the length of a packet before it overwrites `lastMsg`, but the header and the checksum
are checked by `loop`, after it. A schedule is compared with the same schedule into which further calls of
`OnDataRecv` with invalid data are inserted: these never add a frame to the UART, and they take frames away
exactly when one of them, eight bytes long, lands between a valid packet and the pass that would have
forwarded it, with no other eight-byte packet of the schedule in between (`insertion_iff`).
-/

namespace GuitarraMidi.Receptora

open Transducer Mailbox

/-- Data that passes all the checks of the receptora. -/
def validData (data : List UInt8) : Bool := data.length == 8 && accepts (.ofBytes data)

/-- Data of the wrong length, or with a wrong header or checksum. -/
abbrev InvalidData := { data : List UInt8 // validData data = false }

/-- A call of a schedule, or an inserted `OnDataRecv` with invalid data. -/
inductive Entry
  | original (c : Call)
  | inserted (data : InvalidData)

/-- The schedule without the inserted calls. -/
def withoutInserted (es : List Entry) : List Call :=
  es.filterMap fun
    | .original c => some c
    | .inserted _ => none

/-- The schedule with them. -/
def withInserted (es : List Entry) : List Call :=
  es.map fun
    | .original c => c
    | .inserted data => .onDataRecv data

/-- Neither a pass of `loop` nor an eight-byte packet of the schedule itself. -/
def Entry.Quiet : Entry → Prop
  | .original c => c.act = .idle
  | .inserted _ => True

/-- An inserted packet overwrites a valid one before the pass that would have forwarded it. -/
def Suppressed (es : List Entry) : Prop :=
  ∃ A valid B junk C D,
    es = A ++ .original (.onDataRecv valid) :: (B ++ .inserted junk :: (C ++ .original .loop :: D)) ∧
    validData valid = true ∧ junk.val.length = 8 ∧ (∀ e ∈ B, e.Quiet) ∧ ∀ e ∈ C, e.Quiet

/-! ## The inserted calls as a second writer -/

theorem validData_iff {data : List UInt8} :
    validData data = true ↔ data.length = 8 ∧ accepts (.ofBytes data) = true := by
  rw [validData, Bool.and_eq_true, beq_iff_eq]

theorem InvalidData.not_accepts (data : InvalidData) (hlen : data.val.length = 8) :
    accepts (.ofBytes data.val) = false := by
  rw [Bool.eq_false_iff]
  intro hok
  have hvalid := validData_iff.mpr ⟨hlen, hok⟩
  rw [data.property] at hvalid
  exact Bool.false_ne_true hvalid

/-- An inserted call puts junk, unless its length is wrong. -/
def Entry.act : Entry → Act ChordMessage ⊕ Junk accepts
  | .original c => .inl c.act
  | .inserted data =>
      if hlen : data.val.length = 8 then .inr ⟨.ofBytes data.val, data.not_accepts hlen⟩ else .inl .idle

theorem act_inserted_of_length {data : InvalidData} (hlen : data.val.length = 8) :
    (Entry.inserted data).act = .inr ⟨.ofBytes data.val, data.not_accepts hlen⟩ := dif_pos hlen

theorem act_inserted_of_length_ne {data : InvalidData} (hlen : data.val.length ≠ 8) :
    (Entry.inserted data).act = .inl .idle := dif_neg hlen

theorem own_inserted (data : InvalidData) : own (Entry.inserted data).act = .idle := by
  by_cases hlen : data.val.length = 8
  · rw [act_inserted_of_length hlen]
    rfl
  · rw [act_inserted_of_length_ne hlen]
    rfl

theorem all_inserted (data : InvalidData) :
    all (Entry.inserted data).act = (Call.onDataRecv data.val).act := by
  by_cases hlen : data.val.length = 8
  · rw [act_inserted_of_length hlen, act_of_length hlen]
    rfl
  · rw [act_inserted_of_length_ne hlen, act_of_length_ne hlen]
    rfl

theorem quiet_iff (e : Entry) : e.Quiet ↔ own e.act = .idle := by
  cases e with
  | original c => exact Iff.rfl
  | inserted data =>
      constructor
      · intro _
        exact own_inserted data
      · intro _
        trivial

theorem all_act (es : List Entry) : (es.map Entry.act).map all = (withInserted es).map Call.act := by
  rw [withInserted, List.map_map, List.map_map]
  apply List.map_congr_left
  intro e _
  cases e with
  | original c => rfl
  | inserted data => exact all_inserted data

/-- What idles can be left out. -/
theorem emit_own (es : List Entry) (slot : Option ChordMessage) :
    emit (Mailbox.step accepts) slot ((es.map Entry.act).map own)
      = emit (Mailbox.step accepts) slot ((withoutInserted es).map Call.act) := by
  induction es generalizing slot with
  | nil => rfl
  | cons e es ih =>
      cases e with
      | original c => exact congrArg ((Mailbox.step accepts slot c.act).2 ++ ·) (ih _)
      | inserted data =>
          rw [List.map_cons, List.map_cons, own_inserted, emit_cons, step_idle, List.nil_append, ih]
          rfl

theorem frames_withInserted (es : List Entry) :
    frames start (withInserted es)
      = (emit (Mailbox.step accepts) none ((es.map Entry.act).map all)).map ChordMessage.bytes := by
  rw [(run_act start _).2, all_act, slot_start]

theorem frames_withoutInserted (es : List Entry) :
    frames start (withoutInserted es)
      = (emit (Mailbox.step accepts) none ((es.map Entry.act).map own)).map ChordMessage.bytes := by
  rw [(run_act start _).2, emit_own, slot_start]

/-! ## Suppression is overwriting -/

/-- What is not an inserted call has its own act. -/
theorem act_eq_inl {e : Entry} {x : Act ChordMessage} (h : e.act = .inl x) (hx : x ≠ .idle) :
    ∃ c, e = .original c ∧ c.act = x := by
  cases e with
  | original c => exact ⟨c, rfl, Sum.inl.inj h⟩
  | inserted data =>
      have hidle := own_inserted data
      rw [h] at hidle
      exact absurd hidle hx

theorem act_eq_inr {e : Entry} {j : Junk accepts} (h : e.act = .inr j) :
    ∃ junk : InvalidData, e = .inserted junk ∧ junk.val.length = 8 := by
  cases e with
  | original c => exact absurd h Sum.inl_ne_inr
  | inserted data =>
      by_cases hlen : data.val.length = 8
      · exact ⟨data, rfl, hlen⟩
      · rw [act_inserted_of_length_ne hlen] at h
        exact absurd h Sum.inl_ne_inr

theorem overwritten_iff (es : List Entry) : Overwritten (es.map Entry.act) ↔ Suppressed es := by
  have hquiet : ∀ es : List Entry, (∀ x ∈ es.map Entry.act, own x = .idle) ↔ ∀ e ∈ es, e.Quiet := by
    intro es
    rw [List.forall_mem_map]
    exact forall₂_congr (fun e _ => (quiet_iff e).symm)
  constructor
  · rintro ⟨A, msg, B, j, C, D, hsplit, hok, hB, hC⟩
    -- the entries behind the five parts of the split, from the left
    obtain ⟨A, rest, rfl, rfl, hsplit₁⟩ := List.map_eq_append_iff.mp hsplit
    obtain ⟨ev, rest, rfl, hev, hsplit₂⟩ := List.map_eq_cons_iff.mp hsplit₁
    obtain ⟨B, rest, rfl, rfl, hsplit₃⟩ := List.map_eq_append_iff.mp hsplit₂
    obtain ⟨ej, rest, rfl, hej, hsplit₄⟩ := List.map_eq_cons_iff.mp hsplit₃
    obtain ⟨C, rest, rfl, rfl, hsplit₅⟩ := List.map_eq_append_iff.mp hsplit₄
    obtain ⟨el, D, rfl, hel, rfl⟩ := List.map_eq_cons_iff.mp hsplit₅
    obtain ⟨cv, rfl, hput⟩ := act_eq_inl hev (by simp)
    obtain ⟨junk, rfl, hjunk⟩ := act_eq_inr hej
    obtain ⟨cl, rfl, htake⟩ := act_eq_inl hel (by simp)
    obtain rfl := act_eq_put_iff.mp hput
    obtain rfl := act_eq_take_iff.mp htake
    have hvalid : validData msg.bytes = true := validData_iff.mpr ⟨rfl, by rw [msg.ofBytes_bytes, hok]⟩
    exact ⟨A, msg.bytes, B, junk, C, D, rfl, hvalid, hjunk, (hquiet B).mp hB, (hquiet C).mp hC⟩
  · rintro ⟨A, valid, B, junk, C, D, rfl, hvalid, hjunk, hB, hC⟩
    obtain ⟨hlen, hok⟩ := validData_iff.mp hvalid
    refine ⟨A.map Entry.act, .ofBytes valid, B.map Entry.act, ⟨.ofBytes junk.val, junk.not_accepts hjunk⟩,
      C.map Entry.act, D.map Entry.act, ?_, hok, (hquiet B).mpr hB, (hquiet C).mpr hC⟩
    have hput : (Entry.original (.onDataRecv valid)).act = .inl (.put (.ofBytes valid)) :=
      congrArg Sum.inl (act_of_length hlen)
    simp only [List.map_append, List.map_cons, hput, act_inserted_of_length hjunk]
    rfl

/-! ## The comparison -/

/-- **Invalid packets never add a frame, and they take frames away exactly when one of them overwrites a
    valid packet that is still waiting to be forwarded.** -/
theorem insertion_iff (es : List Entry) :
    (frames start (withInserted es)).Sublist (frames start (withoutInserted es)) ∧
      (frames start (withInserted es) = frames start (withoutInserted es) ↔ ¬ Suppressed es) := by
  rw [frames_withInserted, frames_withoutInserted]
  constructor
  · exact (emit_all_sublist _).map _
  · rw [(List.map_injective_iff.mpr ChordMessage.bytes_injective).eq_iff, emit_all_eq_iff, overwritten_iff]

/-- Eight zero bytes just after a packet of the emisora. -/
def zerosAfterPacket : List Entry :=
  [.original (.onDataRecv (Emisora.sendPacket default 3 Emisora.velNormal).bytes),
   .inserted ⟨List.replicate 8 0, by decide⟩,
   .original .loop]

/-- The packet is forwarded without the zeros, and nothing is with them. -/
theorem zeros_suppress_packet :
    frames start (withoutInserted zerosAfterPacket)
        = [(Emisora.sendPacket default 3 Emisora.velNormal).bytes] ∧
      frames start (withInserted zerosAfterPacket) = [] ∧
      ¬ ∀ es, frames start (withInserted es) = frames start (withoutInserted es) := by
  have hwithout : frames start (withoutInserted zerosAfterPacket)
      = [(Emisora.sendPacket default 3 Emisora.velNormal).bytes] := by decide +kernel
  have hwith : frames start (withInserted zerosAfterPacket) = [] := by decide +kernel
  refine ⟨hwithout, hwith, ?_⟩
  intro h
  have heq := h zerosAfterPacket
  rw [hwithout, hwith] at heq
  exact absurd heq (List.cons_ne_nil _ _).symm

end GuitarraMidi.Receptora
