import GuitarraMidi.Pipeline.System
import GuitarraMidi.EduCiaa.Correctness.ReceiverSim

/-!
# `Pipeline.Faithful` — the EDU-CIAA hears what the emisora sent

Between `sendPacket` and the EDU-CIAA a packet is in one of four places: on the air, in `lastMsg`, on the
UART, or accepted. `trail` lists what is in the four, oldest first. Every step leaves the trail a sublist of
what was sent (`step_trail`), and one that drops nothing and overwrites nothing leaves it everything that
was sent; so at the other end nothing is invented, altered, duplicated or reordered
(`pipeline_faithful`).

The one place that takes an argument is the UART, where a packet is a row of bytes, some of which the
EDU-CIAA has already read: `OnWire` says which packets these bytes are.
-/

namespace GuitarraMidi.Pipeline

open Framing

/-! ## The packets on the UART -/

/-- The bytes of a packet, each with its index. -/
def tagged (q : Nat × ChordMessage) : List (Nat × UInt8) := q.2.bytes.map (fun b => (q.1, b))

@[simp] theorem length_tagged (q : Nat × ChordMessage) : (tagged q).length = chordMessageSize := by
  rw [tagged, List.length_map, ChordMessage.length_bytes]

theorem take_tagged (i : Nat) (m : ChordMessage) (n : Nat) :
    ((tagged (i, m)).take n).map Prod.snd = m.bytes.take n := by
  rw [tagged, ← List.map_take, List.map_map]
  exact List.map_id _

theorem drop_tagged (i : Nat) (m : ChordMessage) {n : Nat} (hn : n < m.bytes.length) :
    (tagged (i, m)).drop n = (i, m.bytes[n]) :: (tagged (i, m)).drop (n + 1) := by
  rw [tagged, ← List.map_drop, List.drop_eq_getElem_cons hn, List.map_cons, List.map_drop]

/-- The bytes held by the receiver and those on the UART are the packets `qs`, of the first of which the
    receiver holds the first `n` bytes. -/
def OnWire (rx : EduCiaa.Rx) (uart : List (Nat × UInt8)) (qs : List (Nat × ChordMessage)) : Prop :=
  rx.Wf ∧ ∃ n, n < chordMessageSize ∧ n ≤ (qs.flatMap tagged).length ∧
    rx.held = ((qs.flatMap tagged).take n).map Prod.snd ∧ uart = (qs.flatMap tagged).drop n

theorem onWire_start (p : Vector UInt8 8) : OnWire (EduCiaa.Rx.start p) [] [] :=
  ⟨EduCiaa.Rx.wf_start p, 0, by decide, Nat.le_refl 0, rfl, rfl⟩

variable {rx : EduCiaa.Rx} {uart : List (Nat × UInt8)} {qs : List (Nat × ChordMessage)}

/-- A packet is written behind the others. -/
theorem OnWire.write (h : OnWire rx uart qs) (q : Nat × ChordMessage) :
    OnWire rx (uart ++ tagged q) (qs ++ [q]) := by
  obtain ⟨hwf, n, hn, hle, hheld, rfl⟩ := h
  have happ : (qs ++ [q]).flatMap tagged = qs.flatMap tagged ++ tagged q := by
    rw [List.flatMap_append, List.flatMap_singleton]
  refine ⟨hwf, n, hn, ?_, ?_, ?_⟩
  · rw [happ, List.length_append]
    exact Nat.le_add_right_of_le hle
  · rw [happ, List.take_append_of_le_length hle, hheld]
  · rw [happ, List.drop_append_of_le_length hle]

/-- An empty UART holds no packet. -/
theorem OnWire.eq_nil_of_drained (h : OnWire rx [] qs) : qs = [] := by
  obtain ⟨-, n, hn, -, -, hdrop⟩ := h
  cases qs with
  | nil => rfl
  | cons q qs =>
      have hlen := List.drop_eq_nil_iff.mp hdrop.symm
      rw [List.flatMap_cons, List.length_append, length_tagged] at hlen
      omega

/-- The receiver, holding the first `n` bytes of a packet, reads the next one. -/
theorem rxByte_next {m : ChordMessage} {n : Nat} (hwf : rx.Wf) (hm : m.Valid)
    (hn : n < m.bytes.length) (hheld : rx.held = m.bytes.take n) :
    (n + 1 < chordMessageSize ∧ (EduCiaa.rxByte rx m.bytes[n]).2 = [] ∧
        (EduCiaa.rxByte rx m.bytes[n]).1.held = m.bytes.take (n + 1)) ∨
      (n + 1 = chordMessageSize ∧ (EduCiaa.rxByte rx m.bytes[n]).2 = [.packet m] ∧
        (EduCiaa.rxByte rx m.bytes[n]).1.held = []) := by
  have hgrown : rx.held ++ [m.bytes[n]] = m.bytes.take (n + 1) := by
    rw [hheld, List.take_succ_eq_append_getElem hn]
  have hpre : rx.held ++ [m.bytes[n]] <+: m.bytes := hgrown ▸ List.take_prefix _ _
  have hlen : rx.held.length = n := by rw [hheld, List.length_take_of_le (Nat.le_of_lt hn)]
  rcases Nat.lt_or_eq_of_le (Nat.succ_le_of_lt hn) with hmore | hlast
  · left
    obtain ⟨hheld', hout⟩ := EduCiaa.rxByte_inside hwf hm.isFrame hpre (by rw [hlen]; exact hmore)
    exact ⟨hmore, hout, hheld'.trans hgrown⟩
  · right
    obtain ⟨hheld', hout⟩ := EduCiaa.rxByte_last hwf hm.isFrame hpre (by rw [hlen]; exact hlast)
    refine ⟨hlast, ?_, hheld'⟩
    rw [hout, EduCiaa.verdict, hm.checksumOk, if_pos rfl, ChordMessage.ofBytes_bytes]

/-- **A byte is read**: it belongs to the first packet, which is accepted when this is its last byte. -/
theorem OnWire.read {idx : Nat} {byte : UInt8} (h : OnWire rx ((idx, byte) :: uart) qs)
    (hvalid : ∀ q ∈ qs, q.2.Valid) :
    ∃ m qs', qs = (idx, m) :: qs' ∧
      (((EduCiaa.rxByte rx byte).2 = [] ∧ OnWire (EduCiaa.rxByte rx byte).1 uart qs) ∨
        ((EduCiaa.rxByte rx byte).2 = [.packet m] ∧ OnWire (EduCiaa.rxByte rx byte).1 uart qs')) := by
  match qs with
  | [] =>
      obtain ⟨-, n, -, -, -, hdrop⟩ := h
      exact absurd hdrop (by simp)
  | (i, m) :: qs =>
      have hm : m.Valid := hvalid _ List.mem_cons_self
      obtain ⟨hwf, n, (hn : n < m.bytes.length), hle, hheld, hdrop⟩ := h
      have hlen : n < (tagged (i, m)).length := by rw [length_tagged]; exact hn
      rw [List.flatMap_cons, List.take_append_of_le_length (Nat.le_of_lt hlen), take_tagged] at hheld
      -- the byte is the next one of the first packet
      rw [List.flatMap_cons, List.drop_append_of_le_length (Nat.le_of_lt hlen), drop_tagged i m hn,
        List.cons_append] at hdrop
      obtain ⟨hbyte, rfl⟩ := List.cons.inj hdrop
      obtain ⟨rfl, rfl⟩ := Prod.mk.inj hbyte
      have hwf' := EduCiaa.rxByte_wf rx m.bytes[n] hwf
      refine ⟨m, qs, rfl, ?_⟩
      -- it is the last byte of the packet, or the packet goes on
      rcases rxByte_next hwf hm hn hheld with ⟨hmore, hout, hheld'⟩ | ⟨hlast, hout, hheld'⟩
      · left
        refine ⟨hout, hwf', n + 1, hmore, ?_, ?_, ?_⟩
        · rw [List.flatMap_cons, List.length_append]
          exact Nat.le_add_right_of_le hlen
        · rw [hheld', List.flatMap_cons, List.take_append_of_le_length hlen, take_tagged]
        · rw [List.flatMap_cons, List.drop_append_of_le_length hlen]
      · right
        refine ⟨hout, hwf', 0, by decide, Nat.zero_le _, hheld', ?_⟩
        rw [List.drop_eq_nil_of_le (by rw [length_tagged]; exact Nat.le_of_eq hlast.symm)]
        rfl

/-! ## The trail -/

/-- The packet in `lastMsg`, if one is waiting there. -/
def waiting (s : State) : List (Nat × ChordMessage) := s.receptora.slot.toList.map (fun m => (s.lastIdx, m))

/-- The packets accepted, on the UART, in `lastMsg` and on the air. -/
def trail (s : State) (qs : List (Nat × ChordMessage)) : List (Nat × ChordMessage) :=
  s.accepted ++ (qs ++ (waiting s ++ s.air))

/-- The packets built by a list of `sendPacket` calls. -/
def packetsSent (sent : List (UInt8 × UInt8)) : List (Nat × ChordMessage) :=
  sent.zipIdx.map (fun a => (a.2, Emisora.sendPacket default a.1.1 a.1.2))

theorem packetsSent_concat (sent : List (UInt8 × UInt8)) (mask velocity : UInt8) (m : ChordMessage) :
    packetsSent (sent ++ [(mask, velocity)])
      = packetsSent sent ++ [(sent.length, Emisora.sendPacket m mask velocity)] := by
  rw [packetsSent, List.zipIdx_append, List.map_append, Emisora.sendPacket_old m default]
  simp [packetsSent]

theorem packetsSent_valid {sent : List (UInt8 × UInt8)} {q : Nat × ChordMessage}
    (hq : q ∈ packetsSent sent) : q.2.Valid := by
  obtain ⟨a, -, rfl⟩ := List.mem_map.mp hq
  exact Emisora.sendPacket_valid _ _ _

/-- A step takes the trail of `s` to one of `s'` that has at most the packet sent more, and exactly that if
    `Keeps` holds. -/
def Advances (s s' : State) (qs : List (Nat × ChordMessage)) (Keeps : Prop) : Prop :=
  ∃ qs' new, OnWire s'.rx s'.uart qs' ∧ packetsSent s'.sent = packetsSent s.sent ++ new ∧
    (trail s' qs').Sublist (trail s qs ++ new) ∧ (Keeps → trail s' qs' = trail s qs ++ new)

/-- Nothing moves along the trail but what moves within it. -/
theorem advances_of_eq {s s' : State} {qs qs' : List (Nat × ChordMessage)} {Keeps : Prop}
    (hwire : OnWire s'.rx s'.uart qs') (hsent : s'.sent = s.sent) (htrail : trail s' qs' = trail s qs) :
    Advances s s' qs Keeps := by
  refine ⟨qs', [], hwire, ?_, ?_, ?_⟩
  · rw [hsent, List.append_nil]
  · rw [htrail, List.append_nil]
  · intro _
    rw [htrail, List.append_nil]

/-- What a pass of `loop` writes, when a valid packet is waiting. -/
theorem written_loop {s : Receptora.Globals} (h : s.hasMsg = true) (hvalid : s.lastMsg.Valid) (idx : Nat) :
    written idx (Receptora.loop s).2 = tagged (idx, s.lastMsg) := by
  rw [written, (Receptora.loop_of_hasMsg h).2,
    List.filter_cons_of_pos (Receptora.accepts_iff.mpr hvalid)]
  simp [tagged]

/-- The trail at a pass of `loop`: the waiting packet, if there is one, goes to the UART. -/
theorem advances_loop {s : State} (hwire : OnWire s.rx s.uart qs) (hvalid : ∀ q ∈ waiting s, q.2.Valid)
    (Keeps : Prop) :
    Advances s { s with
      receptora := (Receptora.loop s.receptora).1
      uart := s.uart ++ written s.lastIdx (Receptora.loop s.receptora).2 } qs Keeps := by
  cases hflag : s.receptora.hasMsg with
  | false =>
      rw [Receptora.loop_of_not_hasMsg hflag]
      have hsame : OnWire s.rx (s.uart ++ []) qs := by
        rw [List.append_nil]
        exact hwire
      exact advances_of_eq hsame rfl rfl
  | true =>
      have hwaiting : waiting s = [(s.lastIdx, s.receptora.lastMsg)] := by
        rw [waiting, Receptora.slot_of_hasMsg hflag]
        rfl
      have hmsg : s.receptora.lastMsg.Valid := hvalid _ (hwaiting ▸ List.mem_singleton_self _)
      rw [written_loop hflag hmsg, (Receptora.loop_of_hasMsg hflag).1]
      refine advances_of_eq (hwire.write _) rfl ?_
      rw [trail, trail, hwaiting, List.append_assoc]
      rfl

/-- The trail when a byte is read: the packet whose last byte it is goes to the accepted ones. -/
theorem advances_uartByte {s : State} {idx : Nat} {byte : UInt8} {uart : List (Nat × UInt8)}
    (hwire : OnWire s.rx s.uart qs) (hvalid : ∀ q ∈ qs, q.2.Valid) (huart : s.uart = (idx, byte) :: uart)
    (Keeps : Prop) :
    Advances s { s with
      uart := uart
      rx := (EduCiaa.rxByte s.rx byte).1
      accepted := s.accepted ++ ((EduCiaa.rxByte s.rx byte).2.filterMap EduCiaa.RxEvent.packet?).map
        (fun m => (idx, m)) } qs Keeps := by
  rw [huart] at hwire
  obtain ⟨m, qs', rfl, ⟨hout, hwire'⟩ | ⟨hout, hwire'⟩⟩ := hwire.read hvalid
  · refine advances_of_eq hwire' rfl ?_
    simp only [trail, waiting, hout, List.filterMap_nil, List.map_nil, List.append_nil]
  · refine advances_of_eq hwire' rfl ?_
    simp only [trail, waiting, hout, List.append_assoc]
    rfl

/-- The trail when `sendPacket` is called: the packet built joins it at the end. -/
theorem advances_sendPacket {s : State} (hwire : OnWire s.rx s.uart qs) (mask velocity : UInt8)
    (Keeps : Prop) :
    Advances s { s with
      msg := Emisora.sendPacket s.msg mask velocity
      sent := s.sent ++ [(mask, velocity)]
      air := s.air ++ [(s.sent.length, Emisora.sendPacket s.msg mask velocity)] } qs Keeps := by
  have htrail : ∀ x, s.accepted ++ (qs ++ (waiting s ++ (s.air ++ [x]))) = trail s qs ++ [x] := by
    intro x
    simp only [trail, List.append_assoc]
  refine ⟨qs, _, hwire, packetsSent_concat _ _ _ s.msg, ?_, ?_⟩
  · exact (htrail _) ▸ List.Sublist.refl _
  · intro _
    exact htrail _

/-- The trail when a packet in flight is lost: it is the only one that goes. -/
theorem advances_drop {s : State} (hwire : OnWire s.rx s.uart qs) (k : Nat) :
    Advances s { s with air := s.air.eraseIdx k } qs False := by
  refine ⟨qs, [], hwire, (List.append_nil _).symm, ?_, False.elim⟩
  have hair : (s.air.eraseIdx k).Sublist s.air := List.eraseIdx_sublist _ _
  have hahead : ∀ xs : List (Nat × ChordMessage), xs.Sublist xs := List.Sublist.refl
  rw [List.append_nil]
  exact (hahead s.accepted).append ((hahead qs).append ((hahead (waiting s)).append hair))

/-- The trail at a delivery: the packet replaces the one in `lastMsg`, and is lost to it if there was one. -/
theorem advances_deliver {s : State} {idx : Nat} {msg : ChordMessage} {air : List (Nat × ChordMessage)}
    (hwire : OnWire s.rx s.uart qs) (hair : s.air = (idx, msg) :: air) :
    Advances s { s with
      air := air
      receptora := (Receptora.onDataRecv s.receptora msg.bytes).1
      lastIdx := idx } qs (s.receptora.slot = none) := by
  have hslot : (Receptora.onDataRecv s.receptora msg.bytes).1.slot = some msg := by
    have hact := (Receptora.step_act s.receptora (.onDataRecv msg.bytes)).1
    rw [Receptora.act_of_length rfl, ChordMessage.ofBytes_bytes] at hact
    exact hact
  have hnew : trail { s with
      air := air
      receptora := (Receptora.onDataRecv s.receptora msg.bytes).1
      lastIdx := idx } qs = s.accepted ++ (qs ++ ([] ++ (idx, msg) :: air)) := by
    rw [trail, waiting, hslot]
    rfl
  have hold : trail s qs = s.accepted ++ (qs ++ (waiting s ++ (idx, msg) :: air)) := by rw [trail, hair]
  refine ⟨qs, [], hwire, (List.append_nil _).symm, ?_, ?_⟩
  · rw [List.append_nil, hnew, hold]
    refine (List.Sublist.refl _).append ((List.Sublist.refl _).append ?_)
    exact (List.nil_sublist _).append (List.Sublist.refl _)
  · intro hempty
    rw [List.append_nil, hnew, hold, waiting, hempty]
    rfl

theorem Advances.mono {s s' : State} {Keeps Keeps' : Prop} (h : Advances s s' qs Keeps)
    (himp : Keeps' → Keeps) : Advances s s' qs Keeps' := by
  obtain ⟨qs', new, hwire, hsent, hle, hkeep⟩ := h
  refine ⟨qs', new, hwire, hsent, hle, ?_⟩
  intro hkeeps
  exact hkeep (himp hkeeps)

/-- **Every step keeps the trail within what was sent**, and loses nothing of it unless it drops a packet or
    delivers one over another that is still waiting. -/
theorem step_trail {s s' : State} {a : Action} (h : step s a = some s') (hwire : OnWire s.rx s.uart qs)
    (hvalid : ∀ q ∈ trail s qs, q.2.Valid) :
    Advances s s' qs ((∀ k, a ≠ .drop k) ∧ (a = .deliver → s.receptora.slot = none)) := by
  rcases step_cases h with ⟨mask, velocity, rfl, rfl⟩ | ⟨k, rfl, rfl⟩ | ⟨idx, msg, air, rfl, hair, rfl⟩
    | ⟨rfl, rfl⟩ | ⟨idx, byte, uart, rfl, huart, rfl⟩
  · -- sendPacket
    exact advances_sendPacket hwire mask velocity _
  · -- drop
    apply (advances_drop hwire k).mono
    rintro ⟨hno, -⟩
    exact hno k rfl
  · -- deliver
    apply (advances_deliver hwire hair).mono
    rintro ⟨-, hempty⟩
    exact hempty rfl
  · -- loop
    have hwaiting : ∀ q ∈ waiting s, q.2.Valid := by
      intro q hq
      exact hvalid q (List.mem_append_right _ (List.mem_append_right _ (List.mem_append_left _ hq)))
    exact advances_loop hwire hwaiting _
  · -- uartByte
    have honWire : ∀ q ∈ qs, q.2.Valid := by
      intro q hq
      exact hvalid q (List.mem_append_right _ (List.mem_append_left _ hq))
    exact advances_uartByte hwire honWire huart _

/-! ## Whole runs -/

/-- No packet is dropped. -/
def Lossless (acts : List Action) : Prop := ∀ k, Action.drop k ∉ acts

/-- A pass of `loop` comes between any two consecutive deliveries, … -/
def LoopBetween (acts : List Action) : Prop :=
  ∀ A B C, acts = A ++ .deliver :: (B ++ .deliver :: C) → .deliver ∉ B → .loop ∈ B

/-- … and after the last one. -/
def LoopAfterLast (acts : List Action) : Prop :=
  ∀ A B, acts = A ++ .deliver :: B → .deliver ∉ B → .loop ∈ B

theorem Lossless.of_concat {acts : List Action} {a : Action} (h : Lossless (acts ++ [a])) :
    Lossless acts ∧ ∀ k, a ≠ .drop k := by
  constructor
  · intro k hk
    exact h k (List.mem_append_left _ hk)
  · rintro k rfl
    exact h k (List.mem_append_right _ (List.mem_singleton_self _))

theorem LoopBetween.of_concat {acts : List Action} {a : Action} (h : LoopBetween (acts ++ [a])) :
    LoopBetween acts := by
  rintro A B C rfl hB
  exact h A B (C ++ [a]) (by simp) hB

/-- A packet waits in `lastMsg` only from its delivery to the next pass of `loop`. -/
def SinceDelivery (acts : List Action) (s : State) : Prop :=
  s.receptora.slot = none ∨ ∃ A B, acts = A ++ .deliver :: B ∧ .deliver ∉ B ∧ .loop ∉ B

theorem sinceDelivery (p : Vector UInt8 8) {acts : List Action} {s : State}
    (h : run (start p) acts = some s) : SinceDelivery acts s := by
  refine Steps.run_induction (Or.inl rfl) ?_ h
  intro acts a s s' _ ih hstep
  -- a step that is neither of the two leaves `lastMsg` and the last delivery where they are
  have hother : s'.receptora = s.receptora → a ≠ .deliver → a ≠ .loop → SinceDelivery (acts ++ [a]) s' := by
    intro hsame hdeliver hloop
    rcases ih with hnone | ⟨A, B, rfl, hB, hB'⟩
    · exact Or.inl (hsame ▸ hnone)
    · refine Or.inr ⟨A, B ++ [a], by simp, ?_, ?_⟩
      · simpa [hB] using hdeliver.symm
      · simpa [hB'] using hloop.symm
  rcases step_cases hstep with ⟨mask, velocity, rfl, rfl⟩ | ⟨k, rfl, rfl⟩ | ⟨idx, msg, air, rfl, -, rfl⟩
    | ⟨rfl, rfl⟩ | ⟨idx, byte, uart, rfl, -, rfl⟩
  · -- sendPacket
    exact hother rfl (by simp) (by simp)
  · -- drop
    exact hother rfl (by simp) (by simp)
  · -- deliver: the last delivery is now this step
    exact Or.inr ⟨acts, [], rfl, List.not_mem_nil, List.not_mem_nil⟩
  · -- loop: whatever was waiting has been taken
    left
    have hact := (Receptora.step_act s.receptora .loop).1
    exact hact
  · -- uartByte
    exact hother rfl (by simp) (by simp)

/-- So `OnDataRecv` finds `lastMsg` free, if `loop` keeps up. -/
theorem SinceDelivery.slot_eq_none {acts : List Action} {s : State} (h : SinceDelivery acts s)
    (hloop : LoopBetween (acts ++ [.deliver])) : s.receptora.slot = none := by
  rcases h with hnone | ⟨A, B, rfl, hdeliver, hno⟩
  · exact hnone
  · exact absurd (hloop A B [] (by simp) hdeliver) hno

/-- The invariant: the trail is a sublist of what was sent, and all of it as long as nothing is dropped and
    `loop` keeps up. -/
def TrailKept (acts : List Action) (s : State) : Prop :=
  ∃ qs, OnWire s.rx s.uart qs ∧ (trail s qs).Sublist (packetsSent s.sent) ∧
    (Lossless acts → LoopBetween acts → trail s qs = packetsSent s.sent)

theorem trailKept (p : Vector UInt8 8) {acts : List Action} {s : State}
    (h : run (start p) acts = some s) : TrailKept acts s := by
  refine Steps.run_induction ?_ ?_ h
  · refine ⟨[], onWire_start p, List.Sublist.refl _, ?_⟩
    intro _ _
    rfl
  · intro acts a s s' hrun ih hstep
    obtain ⟨qs, hwire, hsub, hall⟩ := ih
    -- what is on the trail was sent, so `loop` and the receiver let it pass
    have hvalid : ∀ q ∈ trail s qs, q.2.Valid := by
      intro q hq
      exact packetsSent_valid (hsub.subset hq)
    obtain ⟨qs', new, hwire', hsent, hle, hkeep⟩ := step_trail hstep hwire hvalid
    refine ⟨qs', hwire', ?_, ?_⟩
    · rw [hsent]
      exact hle.trans (hsub.append (List.Sublist.refl new))
    · intro hlossless hloop
      obtain ⟨hlossless', hdrop⟩ := hlossless.of_concat
      have hfree : a = .deliver → s.receptora.slot = none := by
        rintro rfl
        exact (sinceDelivery p hrun).slot_eq_none hloop
      rw [hkeep ⟨hdrop, hfree⟩, hall hlossless' hloop.of_concat, hsent]

/-- **Without losses**, once the UART is drained, the packets accepted are all that were sent but for those still on
    the air. -/
theorem accepted_append_air (p : Vector UInt8 8) {acts : List Action} {s : State}
    (h : run (start p) acts = some s) (hlossless : Lossless acts) (hbetween : LoopBetween acts)
    (hlast : LoopAfterLast acts) (hdrained : s.uart = []) : s.accepted ++ s.air = packetsSent s.sent := by
  obtain ⟨qs, hwire, -, hall⟩ := trailKept p h
  rw [hdrained] at hwire
  -- an empty UART and an empty `lastMsg` leave only the accepted packets and those on the air
  have hqs : qs = [] := hwire.eq_nil_of_drained
  have hfree : s.receptora.slot = none := by
    rcases sinceDelivery p h with hnone | ⟨A, B, hacts, hdeliver, hno⟩
    · exact hnone
    · exact absurd (hlast A B hacts hdeliver) hno
  have hwaiting : waiting s = [] := by
    rw [waiting, hfree]
    rfl
  rw [← hall hlossless hbetween, trail, hqs, hwaiting]
  rfl

/-! ## What is heard -/

/-- **The EDU-CIAA reads back the four buttons that the emisora encoded.** -/
theorem obtenerValorBotones_boton (mask : UInt8) :
    EduCiaa.obtenerValorBotones
      #v[Emisora.boton mask 0, Emisora.boton mask 1, Emisora.boton mask 2, Emisora.boton mask 3]
      = mask &&& 0x0F := by
  have hbits : ∀ b : BitVec 8, EduCiaa.obtenerValorBotones
      #v[Emisora.boton (.ofBitVec b) 0, Emisora.boton (.ofBitVec b) 1, Emisora.boton (.ofBitVec b) 2,
        Emisora.boton (.ofBitVec b) 3] = UInt8.ofBitVec b &&& 0x0F := by
    decide +kernel
  exact hbits mask.toBitVec

theorem buttonsAndVelocity_sendPacket (m : ChordMessage) (mask velocity : UInt8) :
    EduCiaa.buttonsAndVelocity (Emisora.sendPacket m mask velocity) = (mask &&& 0x0F, velocity) :=
  Prod.ext (obtenerValorBotones_boton mask) rfl

theorem heard_packetsSent (sent : List (UInt8 × UInt8)) :
    (packetsSent sent).map (fun q => EduCiaa.buttonsAndVelocity q.2) = meant sent := by
  have hfst : meant sent = (sent.zipIdx.map Prod.fst).map (fun a => (a.1 &&& 0x0F, a.2)) := by
    rw [List.zipIdx_map_fst, meant]
  rw [hfst, packetsSent, List.map_map, List.map_map]
  apply List.map_congr_left
  intro a _
  exact buttonsAndVelocity_sendPacket default a.1.1 a.1.2

theorem packetsSent_ordered (sent : List (UInt8 × UInt8)) :
    (packetsSent sent).Pairwise (fun q q' => q.1 < q'.1) := by
  have hidx : (packetsSent sent).map Prod.fst = List.range' 0 sent.length := by
    rw [packetsSent, List.map_map, ← List.zipIdx_map_snd 0 sent]
    rfl
  rw [← List.pairwise_map (f := Prod.fst), hidx]
  exact List.pairwise_lt_range'

/-- The packet at an index is the one the `sendPacket` call with that index built. -/
theorem heard_of_mem_packetsSent {sent : List (UInt8 × UInt8)} {q : Nat × ChordMessage}
    (hq : q ∈ packetsSent sent) :
    ∃ a, sent[q.1]? = some a ∧ EduCiaa.buttonsAndVelocity q.2 = (a.1 &&& 0x0F, a.2) := by
  obtain ⟨a, ha, rfl⟩ := List.mem_map.mp hq
  exact ⟨a.1, List.mem_zipIdx_iff_getElem?.mp ha, buttonsAndVelocity_sendPacket default a.1.1 a.1.2⟩

/-- **No chord is invented, altered, duplicated or reordered.** In every reachable state the packets accepted
    by the EDU-CIAA come from `sendPacket` calls with increasing indices, with the buttons and the velocity of
    those calls. If no packet is dropped and `loop` keeps up with the deliveries, then, once the UART is
    drained, they are all that was sent but for what is still on the air. -/
theorem pipeline_faithful (p : Vector UInt8 8) {acts : List Action} {s : State}
    (h : run (start p) acts = some s) :
    (s.accepted.Pairwise (fun q q' => q.1 < q'.1) ∧ ∀ q ∈ s.accepted, ∃ a, s.sent[q.1]? = some a ∧
        EduCiaa.buttonsAndVelocity q.2 = (a.1 &&& 0x0F, a.2)) ∧
    (heard s).Sublist (meant s.sent) ∧
    (Lossless acts → LoopBetween acts → LoopAfterLast acts → s.uart = [] →
      heard s ++ s.air.map (fun q => EduCiaa.buttonsAndVelocity q.2) = meant s.sent ∧
      (s.air = [] → heard s = meant s.sent)) := by
  obtain ⟨qs, hwire, hsub, hall⟩ := trailKept p h
  have haccepted : s.accepted.Sublist (packetsSent s.sent) :=
    (List.sublist_append_left s.accepted _).trans hsub
  refine ⟨⟨(packetsSent_ordered s.sent).sublist haccepted, ?_⟩, ?_, ?_⟩
  · intro q hq
    exact heard_of_mem_packetsSent (haccepted.subset hq)
  · rw [← heard_packetsSent]
    exact haccepted.map _
  · intro hlossless hbetween hlast hdrained
    have heq : heard s ++ s.air.map (fun q => EduCiaa.buttonsAndVelocity q.2) = meant s.sent := by
      rw [← heard_packetsSent, ← accepted_append_air p h hlossless hbetween hlast hdrained, List.map_append, heard]
    refine ⟨heq, ?_⟩
    intro hair
    rw [← heq, hair, List.map_nil, List.append_nil]

/-- A strum with the fifth bit of the mask set, delivered, forwarded and read. -/
def oneStrum : List Action := [.sendPacket 0x13 80, .deliver, .loop] ++ List.replicate 8 .uartByte

theorem oneStrum_heard : ∃ s, run (start (.replicate 8 0)) oneStrum = some s ∧ heard s = [(3, 80)] ∧
    (heard s).Sublist (meant s.sent) := by
  refine ⟨(run (start (.replicate 8 0)) oneStrum).get (by decide +kernel), Option.some_get _ |>.symm,
    by decide +kernel, ?_⟩
  exact (pipeline_faithful (.replicate 8 0) (Option.some_get _).symm).2.1

end GuitarraMidi.Pipeline
