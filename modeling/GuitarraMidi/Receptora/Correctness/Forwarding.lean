import GuitarraMidi.Receptora.Bridge
import GuitarraMidi.EduCiaa.Correctness.ReceiverSim

/-!
# `Receptora.Correctness.Forwarding` — nothing malformed gets through the receptora

Whatever arrives by radio, and whenever `loop` runs, the bytes on the UART are blocks of eight, each a
packet that `loop` found in `lastMsg` and that passed its tests (`Block.Sound`). The two processors check a
packet each with its own code, but with the same header and the same checksum, so the EDU-CIAA accepts
every block and nothing else (`receptora_forwards`).
-/

namespace GuitarraMidi.Receptora

open Transducer Mailbox Framing

/-! ## Reading the history of the mailbox as calls -/

theorem length_ne_of_act_idle {data : List UInt8} (h : (Call.onDataRecv data).act = .idle) :
    data.length ≠ 8 := by
  intro hlen
  rw [act_of_length hlen] at h
  exact absurd h (by simp)

/-- The action at a position is that of the call there. -/
theorem call_of_act {calls : List Call} {i : Nat} {x : Act ChordMessage}
    (h : (calls.map Call.act)[i]? = some x) : ∃ c, calls[i]? = some c ∧ c.act = x := by
  rw [List.getElem?_map] at h
  exact Option.map_eq_some_iff.mp h

/-- The globals just before the call at position `i`. -/
def before (calls : List Call) (i : Nat) : Globals := finish step start (calls.take i)

theorem slot_before (calls : List Call) (i : Nat) :
    (before calls i).slot = finish (Mailbox.step accepts) none ((calls.map Call.act).take i) := by
  rw [before, (run_act start _).1, slot_start, List.map_take]

/-! ## Blocks -/

/-- The call at `recv` is the last before `pass` that brought eight bytes, and it brought `data`. -/
def LastReceived (calls : List Call) (recv pass : Nat) (data : List UInt8) : Prop :=
  recv < pass ∧ calls[recv]? = some (.onDataRecv data) ∧ data.length = 8 ∧
    ∀ k, recv < k → k < pass → ∀ d, calls[k]? = some (.onDataRecv d) → d.length ≠ 8

/-- Eight bytes on the UART, with the radio packet they come from and the pass of `loop` that wrote them. -/
structure Block where
  recv : Nat
  pass : Nat
  data : List UInt8

/-- What holds of every block. -/
structure Block.Sound (calls : List Call) (b : Block) : Prop where
  received : LastReceived calls b.recv b.pass b.data
  passed : calls[b.pass]? = some .loop
  found : (before calls b.pass).hasMsg = true
  wrote : (loop (before calls b.pass)).2.filterMap Output.ciaa? = [b.data]
  header : [0xAA, 0x55] <+: b.data
  checksum : checksumOk b.data = true

/-- The block of a packet on its way through the mailbox. -/
def blockOf (d : Delivery ChordMessage) : Block where
  recv := d.putAt
  pass := d.takeAt
  data := d.val.bytes

theorem hasMsg_of_slot {s : Globals} {msg : ChordMessage} (h : s.slot = some msg) :
    s.hasMsg = true ∧ s.lastMsg = msg := by
  cases hflag : s.hasMsg with
  | false => exact absurd ((slot_of_not_hasMsg hflag).symm.trans h) (by simp)
  | true => exact ⟨rfl, Option.some.inj ((slot_of_hasMsg hflag).symm.trans h)⟩

theorem blockOf_sound {calls : List Call} {d : Delivery ChordMessage}
    (h : d.Sound accepts (calls.map Call.act)) : (blockOf d).Sound calls := by
  have hvalid : d.val.Valid := accepts_iff.mp h.passes
  obtain ⟨c, hc, hact⟩ := call_of_act h.put
  obtain ⟨c', hc', hact'⟩ := call_of_act h.take
  have hslot : (before calls d.takeAt).slot = some d.val := by rw [slot_before, h.held]
  obtain ⟨hflag, hmsg⟩ := hasMsg_of_slot hslot
  -- the two positions of the delivery are those of the calls
  constructor
  · refine ⟨h.put_lt_take, ?_, rfl, ?_⟩
    · exact hc.trans (congrArg some (act_eq_put_iff.mp hact))
    · intro k hk hk' data hdata
      obtain ⟨c, hc, hidle⟩ := call_of_act (h.between k hk hk')
      rw [Option.some.inj (hc.symm.trans hdata)] at hidle
      exact length_ne_of_act_idle hidle
  · exact hc'.trans (congrArg some (act_eq_take_iff.mp hact'))
  · exact hflag
  · rw [show (blockOf d).pass = d.takeAt from rfl, (loop_of_hasMsg hflag).2, hmsg,
      List.filter_cons_of_pos h.passes]
    rfl
  · exact hvalid.isFrame.2
  · exact hvalid.checksumOk

/-- **The receptora bridge.** The bytes on the UART are blocks of eight, each of them the packet of the last
    eight-byte `OnDataRecv` before the pass that wrote it, with a right header and checksum, in the order the
    packets arrived; no pass leaves out a valid packet; and the EDU-CIAA accepts every block, one by one,
    without a checksum error. -/
theorem receptora_forwards (p : Vector UInt8 8) (calls : List Call) :
    ∃ blocks : List Block,
      uart start calls = blocks.flatMap Block.data ∧
      (∀ b ∈ blocks, b.Sound calls) ∧
      blocks.Pairwise (fun b b' => b.recv < b'.recv ∧ b.pass < b'.pass) ∧
      (∀ i, calls[i]? = some .loop → (before calls i).hasMsg = true →
        accepts (before calls i).lastMsg = true →
        ∃ b ∈ blocks, b.pass = i ∧ b.data = (before calls i).lastMsg.bytes) ∧
      emit EduCiaa.rxByte (EduCiaa.Rx.start p) (uart start calls)
        = blocks.map (fun b => .packet (.ofBytes b.data)) := by
  obtain ⟨ds, hds⟩ := exists_accounts accepts (calls.map Call.act)
  have hframes : frames start calls = ds.map (fun d => (blockOf d).data) := by
    rw [(run_act start calls).2, slot_start, hds.emitted, List.map_map]
    rfl
  have huart : uart start calls = (ds.map (fun d => (blockOf d).data)).flatten := by rw [uart, hframes]
  refine ⟨ds.map blockOf, ?_, ?_, ?_, ?_, ?_⟩
  · rw [huart, List.flatMap_map, List.flatMap_def]
  · intro b hb
    obtain ⟨d, hd, rfl⟩ := List.mem_map.mp hb
    exact blockOf_sound (hds.sound d hd)
  · rw [List.pairwise_map]
    exact hds.ordered
  · intro i hloop hflag hvalid
    have htake : (calls.map Call.act)[i]? = some .take := by
      rw [List.getElem?_map, hloop]
      rfl
    have hslot : finish (Mailbox.step accepts) none ((calls.map Call.act).take i)
        = some (before calls i).lastMsg := by
      rw [← slot_before, slot_of_hasMsg hflag]
    obtain ⟨d, hd, hpass, hval⟩ := hds.complete i _ htake hslot hvalid
    exact ⟨blockOf d, List.mem_map_of_mem hd, hpass, congrArg ChordMessage.bytes hval⟩
  · -- the blocks are whole frames, so the parser of the EDU-CIAA cuts the stream where they meet
    have hvalid : ∀ f ∈ ds.map (fun d => (blockOf d).data), ∃ m : ChordMessage, m.Valid ∧ m.bytes = f := by
      intro f hf
      obtain ⟨d, hd, rfl⟩ := List.mem_map.mp hf
      exact ⟨_, accepts_iff.mp (hds.sound d hd).passes, rfl⟩
    have hshape : ∀ f ∈ ds.map (fun d => (blockOf d).data), chordFormat.IsFrame f := by
      intro f hf
      obtain ⟨m, hm, rfl⟩ := hvalid f hf
      exact hm.isFrame
    have hok : ∀ f ∈ ds.map (fun d => (blockOf d).data), checksumOk f = true := by
      intro f hf
      obtain ⟨m, hm, rfl⟩ := hvalid f hf
      exact hm.checksumOk
    rw [huart, EduCiaa.emit_frames p hshape hok, List.map_map, List.map_map]
    rfl

end GuitarraMidi.Receptora
