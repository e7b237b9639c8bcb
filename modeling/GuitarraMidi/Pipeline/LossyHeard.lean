import GuitarraMidi.EduCiaa.Correctness.Pedal
import GuitarraMidi.Lib.Relay
import GuitarraMidi.Pipeline.LossyRig

/-!
# `Pipeline.LossyHeard` — what is heard when packets are lost

The packets go over a lossy link, a relay with one slot and a line of bytes, as in `Lib.Relay`
(`rig_simulates_relay`), and what the EDU-CIAA accepts is what that receiver accepts. So whatever is lost and however the
programs are interleaved, the synthesiser receives the strums of some of the calls of `sendPacket`, in their order
(`lossy_heard`): a strum is lost as a whole or heard as a whole, and the keys down are those of one that was made.
-/

namespace GuitarraMidi.LossyRig

open EduCiaa Framing Midi Relay Transducer

/-- The encoding of a message. -/
def chordCode : Code ChordMessage UInt8 where
  encode := ChordMessage.bytes
  decode := ChordMessage.ofBytes
  size := chordMessageSize
  size_pos := Nat.succ_pos 7
  length_encode := ChordMessage.length_bytes
  decode_encode := ChordMessage.ofBytes_bytes

/-- A call of `sendPacket`: what the pass had read, the mask and the velocity. -/
abbrev SendCall := Emisora.Reading × UInt8 × UInt8

/-- The packet of a call. -/
def packetOf (c : SendCall) : ChordMessage := Emisora.sendPacket default c.2.1 c.2.2

/-- The state of the rig seen as one of the relay; `read` are the bytes `main` has read. -/
structure View (p : Vector UInt8 8) (q : Queue) (read : List UInt8) (s : State)
    (r : Relay.State ChordMessage UInt8) : Prop where
  sent : r.sent = s.rig.sent.map packetOf
  link : r.link = s.rig.air.map Prod.snd
  slot : r.slot = s.rig.receptora.slot
  line : r.line = s.rig.uart.map Prod.snd
  lost : r.lost = s.lost
  symbols : r.symbols chordCode = read
  main : s.rig.main.Wf
  reads : Reads (mainStart p q) s.rig.main (s.rig.out.map Prod.snd) read

variable {p : Vector UInt8 8} {q : Queue} {read : List UInt8} {s : State} {r : Relay.State ChordMessage UInt8}

theorem view_start (p : Vector UInt8 8) (q : Queue) : View p q [] (start p q) Relay.start where
  sent := rfl
  link := rfl
  slot := rfl
  line := rfl
  lost := rfl
  symbols := rfl
  main := wf_mainStart p q
  reads := Reads.refl (mainStart p q)

theorem View.valid_sent (h : View p q read s r) {m : ChordMessage} (hm : m ∈ r.sent) : m.Valid := by
  rw [h.sent] at hm
  obtain ⟨c, -, rfl⟩ := List.mem_map.mp hm
  exact Emisora.sendPacket_valid _ _ _

/-! ## The steps -/

/-- The relay, in `r`, can follow the rig to `s`. -/
def Followed (p : Vector UInt8 8) (q : Queue) (s : State) (r : Relay.State ChordMessage UInt8) : Prop :=
  ∃ new r' read, Steps.run (Relay.step chordCode) r new = some r' ∧ View p q read s r'

theorem followed_of_view (h : View p q read s r) : Followed p q s r := ⟨[], r, read, rfl, h⟩

theorem followed_of_step {a : Relay.Action ChordMessage} {r' : Relay.State ChordMessage UInt8}
    (hstep : Relay.step chordCode r a = some r') (h : View p q read s r') : Followed p q s r := by
  refine ⟨[a], r', read, ?_, h⟩
  rw [Steps.run, hstep]
  rfl

theorem emisora_followed (h : View p q read s r) (x : Emisora.Reading) :
    Followed p q ⟨Rig.emisoraLoop s.rig x, s.lost⟩ r := by
  unfold Rig.emisoraLoop
  rcases Emisora.send?_loop s.rig.emisora x with hnone | ⟨velocity, -, hcall⟩
  · simp only [hnone]
    apply followed_of_view
    refine { h with sent := ?_, link := ?_ }
    · rw [List.map_nil, List.append_nil]
      exact h.sent
    · rw [h.link]
      exact congrArg _ (List.append_nil s.rig.air).symm
  · simp only [hcall]
    have hstep : Relay.step chordCode r (.send (packetOf (x, Emisora.buildChordMask x.raw, velocity)))
        = some { r with
            sent := r.sent ++ [packetOf (x, Emisora.buildChordMask x.raw, velocity)]
            link := r.link ++ [packetOf (x, Emisora.buildChordMask x.raw, velocity)] } := rfl
    refine followed_of_step hstep { h with sent := ?_, link := ?_, symbols := h.symbols }
    · rw [h.sent, List.map_append]
      rfl
    · rw [h.link, List.map_append]
      rfl

theorem deliver_followed (h : View p q read s r) {idx : Nat} {msg : ChordMessage} {air : List (Nat × ChordMessage)}
    (hair : s.rig.air = (idx, msg) :: air) :
    Followed p q ⟨{ s.rig with
      air := air
      receptora := (Receptora.onDataRecv s.rig.receptora msg.bytes).1
      lastIdx := idx }, s.lost + s.rig.receptora.slot.toList.length⟩ r := by
  have hslot : (Receptora.onDataRecv s.rig.receptora msg.bytes).1.slot = some msg := by
    have hact := (Receptora.step_act s.rig.receptora (.onDataRecv msg.bytes)).1
    rw [Receptora.act_of_length msg.length_bytes, ChordMessage.ofBytes_bytes] at hact
    exact hact
  have hstep : Relay.step chordCode r .deliver
      = some { r with
          link := air.map Prod.snd
          slot := some msg
          lost := r.lost + r.slot.toList.length } := by
    rw [Relay.step, h.link, hair, List.map_cons]
  refine followed_of_step hstep { h with link := rfl, slot := hslot.symm, lost := ?_, symbols := h.symbols }
  rw [h.lost, h.slot]

/-- A packet in `lastMsg` was sent, so it passes the tests of the receptora. -/
theorem receptora_followed (h : View p q read s r) {onLine : List ChordMessage} (hr : Accounted chordCode r onLine) :
    Followed p q ⟨{ s.rig with
      receptora := (Receptora.loop s.rig.receptora).1
      uart := s.rig.uart ++ Pipeline.written s.rig.lastIdx (Receptora.loop s.rig.receptora).2 }, s.lost⟩ r := by
  obtain ⟨hslot, hout⟩ := Receptora.step_act s.rig.receptora .loop
  have haccepts : s.rig.receptora.slot.toList.filter Receptora.accepts = s.rig.receptora.slot.toList := by
    apply List.filter_eq_self.mpr
    intro m hm
    apply Receptora.accepts_iff.mpr
    apply h.valid_sent
    apply hr.inOrder.subset
    rw [← h.slot] at hm
    exact List.mem_append_right _ (List.mem_append_right _ (List.mem_append_left _ hm))
  have hwritten : (Pipeline.written s.rig.lastIdx (Receptora.loop s.rig.receptora).2).map Prod.snd
      = s.rig.receptora.slot.toList.flatMap ChordMessage.bytes := by
    have hframes : (Receptora.loop s.rig.receptora).2.filterMap Receptora.Output.ciaa?
        = (s.rig.receptora.slot.toList.filter Receptora.accepts).map ChordMessage.bytes := hout
    unfold Pipeline.written
    rw [hframes, haccepts, List.map_map, ← List.flatMap_def]
    exact List.map_id _
  have hstep : Relay.step chordCode r .forward
      = some { r with slot := none, line := r.line ++ r.slot.toList.flatMap chordCode.encode } := rfl
  refine followed_of_step hstep { h with slot := hslot.symm, line := ?_, symbols := h.symbols }
  rw [List.map_append, hwritten, h.line, h.slot]
  rfl

/-- The top of a pass of `main` changes nothing but the clock: its queue is empty. -/
theorem pass_followed (h : View p q read s r) (now : UInt32) : Followed p q ⟨Rig.mainTop s.rig now, s.lost⟩ r := by
  unfold Rig.mainTop
  rw [midiSchedProcess_of_idle h.main.queue]
  apply followed_of_view
  refine { h with reads := ?_ }
  rw [List.map_append]
  exact (List.append_nil _).symm ▸ h.reads

/-- A byte that `main` reads is the next of those the receiver reads. -/
theorem uartByte_followed (h : View p q read s r) {onLine : List ChordMessage} (hr : Accounted chordCode r onLine)
    {idx : Nat} {byte : UInt8} {uart : List (Nat × UInt8)} (huart : s.rig.uart = (idx, byte) :: uart) :
    Followed p q ⟨{ s.rig with
      uart := uart
      main := (mainByte s.rig.now s.rig.main byte).1
      out := s.rig.out ++ (mainByte s.rig.now s.rig.main byte).2.map (fun o => (some idx, o)) }, s.lost⟩ r := by
  have hline : r.line = byte :: uart.map Prod.snd := by
    rw [h.line, huart, List.map_cons]
  obtain ⟨r', hstep, hline', hsymbols, hsent, hlink, hslot, hlost⟩ := hr.read hline
  obtain ⟨hmain, hreads⟩ := mainByte_reads s.rig.now s.rig.main byte h.main
  refine @followed_of_step p q (read ++ [byte]) _ _ _ _ hstep ?_
  exact {
    sent := hsent.trans h.sent
    link := hlink.trans h.link
    slot := hslot.trans h.slot
    line := hline'
    lost := hlost.trans h.lost
    symbols := by rw [hsymbols, h.symbols]
    main := hmain
    reads := by
      have hout : ((mainByte s.rig.now s.rig.main byte).2.map (fun o => (some idx, o))).map Prod.snd
          = (mainByte s.rig.now s.rig.main byte).2 := by
        rw [List.map_map]
        exact List.map_id _
      rw [List.map_append, hout]
      exact h.reads.trans hreads }

theorem drop_followed (h : View p q read s r) {k : Nat} (hk : k < s.rig.air.length) :
    Followed p q ⟨{ s.rig with air := s.rig.air.eraseIdx k }, s.lost + 1⟩ r := by
  have hlength : k < r.link.length := by
    rw [h.link, List.length_map]
    exact hk
  have hstep : Relay.step chordCode r (.drop k)
      = some { r with link := r.link.eraseIdx k, lost := r.lost + 1 } := by
    rw [Relay.step, if_pos hlength]
  refine followed_of_step hstep { h with link := ?_, lost := ?_, symbols := h.symbols }
  · rw [h.link, List.eraseIdx_map]
  · rw [h.lost]

/-- **Every run of the rig is one of the relay.** -/
theorem rig_simulates_relay (p : Vector UInt8 8) (q : Queue) {acts : List Action} (h : run (start p q) acts = some s) :
    ∃ acts' r read, Steps.run (Relay.step chordCode) Relay.start acts' = some r ∧ View p q read s r := by
  have hsim : ∃ acts' r, Steps.run (Relay.step chordCode) Relay.start acts' = some r ∧ ∃ read, View p q read s r := by
    refine Steps.run_simulates (R := fun _ s _ r => ∃ read, View p q read s r) ⟨[], view_start p q⟩ ?_ h
    rintro acts a s s' acts' r hrun ⟨read, hview⟩ hstep
    obtain ⟨onLine, hr⟩ := accounted_run hrun
    have hfollow : Followed p q s' r := by
      rcases step_cases hstep with ⟨b, rig, rfl, hrig, rfl⟩ | ⟨k, rfl, hk, rfl⟩
      · rcases Rig.step_cases hrig with ⟨x, rfl, rfl⟩ | ⟨idx, msg, air, rfl, hair, rfl⟩ | ⟨rfl, rfl⟩ | ⟨now, rfl, rfl⟩
          | ⟨idx, byte, uart, rfl, huart, rfl⟩
        · exact emisora_followed hview x
        · exact deliver_followed hview hair
        · exact receptora_followed hview hr
        · exact pass_followed hview now
        · exact uartByte_followed hview hr huart
      · exact drop_followed hview hk
    obtain ⟨new, r', read', hnew, hview'⟩ := hfollow
    exact ⟨new, r', hnew, read', hview'⟩
  obtain ⟨acts', r, hrun, read, hview⟩ := hsim
  exact ⟨acts', r, read, hrun, hview⟩

/-! ## What the EDU-CIAA accepts -/

/-- **The EDU-CIAA accepts what the relay's receiver accepts.** -/
theorem accepted_read (h : View p q read s r) {onLine : List ChordMessage} (hr : Accounted chordCode r onLine) :
    accepted (Rx.start p) read = r.accepted := by
  have hvalid : ∀ m ∈ r.accepted, m.Valid := by
    intro m hm
    exact h.valid_sent (hr.inOrder.subset (List.mem_append_left _ hm))
  have hframes : ∀ f ∈ r.accepted.map ChordMessage.bytes, chordFormat.IsFrame f := by
    intro f hf
    obtain ⟨m, hm, rfl⟩ := List.mem_map.mp hf
    exact (hvalid m hm).isFrame
  have hparse : chordFormat.parse read = r.accepted.map ChordMessage.bytes := by
    have hheld : r.held.length < chordFormat.size := hr.unfinished
    rw [← h.symbols]
    show chordFormat.parse (r.accepted.flatMap ChordMessage.bytes ++ r.held) = _
    rw [List.flatMap_def, Format.parse_frames hframes, Format.parse_of_length_lt hheld, List.append_nil]
  rw [accepted_start, hparse, packets_map_bytes hvalid]

/-- **What is heard are strums that were made.** In any run, with any packets lost: of the calls of `sendPacket` some
    have been heard, in their order, and the synthesiser has received the messages for these and nothing else; the keys
    down are those of the last of them that is a chord. Once nothing is on its way, all others have been lost. -/
theorem lossy_heard (p : Vector UInt8 8) (q : Queue) (acts : List Action) (s : State)
    (h : run (start p q) acts = some s) :
    ∃ heard : List SendCall, heard.Sublist s.rig.sent
      ∧ messages s.writes = some (synthMessages none (strums (heard.map packetOf)))
      ∧ playAll (channel midiCh) ∅ (synthMessages none (strums (heard.map packetOf)))
        = keysAfter (strums (heard.map packetOf))
      ∧ (s.Drained → heard.length + s.lost = s.rig.sent.length) := by
  obtain ⟨acts', r, read, hrun, hview⟩ := rig_simulates_relay p q h
  obtain ⟨onLine, hr⟩ := accounted_run hrun
  have hsublist := accepted_sublist hrun
  rw [hview.sent, List.sublist_map_iff] at hsublist
  obtain ⟨heard, hheard, haccepted⟩ := hsublist
  refine ⟨heard, hheard, ?_, playAll_synthMessages _, ?_⟩
  · unfold State.writes
    rw [hview.reads.plays.writes, messages_sdi, ← haccepted, ← accepted_read hview hr]
    rfl
  · intro hdrained
    have hlink : r.link = [] := by
      rw [hview.link, hdrained.air]
      rfl
    have hslot : r.slot = none := by
      rw [hview.slot, Receptora.Globals.slot, hdrained.slot]
      rfl
    have hline : r.line = [] := by
      rw [hview.line, hdrained.uart]
      rfl
    have hlength := length_accepted hrun hlink hslot hline
    rw [haccepted, hview.sent, List.length_map, List.length_map] at hlength
    rw [← hview.lost]
    exact hlength

/-- STRUM and the chord buttons are held, and of two strums the first is lost. -/
def secondHeard : List Action :=
  [.rig (.emisora ⟨1000, 1000, 9, false, .replicate 4 false⟩), .rig (.emisora ⟨1040, 1040, 12, false, .replicate 4 false⟩),
    .drop 0, .rig (.emisora ⟨1400, 1400, 17, false, .replicate 4 false⟩), .rig .deliver, .rig .receptora,
    .rig (.pass 2000)]
    ++ List.replicate 8 (.rig .uartByte)

/-- What is left on the links, and how many were lost and sent. -/
structure Summary where
  air : List (Nat × ChordMessage)
  hasMsg : Bool
  uart : List (Nat × UInt8)
  lost : Nat
  sent : Nat
deriving DecidableEq

def State.summary (s : State) : Summary :=
  ⟨s.rig.air, s.rig.receptora.hasMsg, s.rig.uart, s.lost, s.rig.sent.length⟩

/-- One strum of the two is heard. -/
theorem second_heard : ∃ (s : State) (heard : List SendCall),
    run (start (.replicate 8 0) (.replicate qSize (eventOf .evOn 0 0 0 0))) secondHeard = some s
    ∧ heard.Sublist s.rig.sent ∧ s.rig.sent.length = 2 ∧ heard.length = 1
    ∧ messages s.writes = some (synthMessages none (strums (heard.map packetOf))) := by
  have hrun : (run (start (.replicate 8 0) (.replicate qSize (eventOf .evOn 0 0 0 0))) secondHeard).map State.summary
      = some ⟨[], false, [], 1, 2⟩ := by
    decide +kernel
  obtain ⟨s, hs, hsummary⟩ := Option.map_eq_some_iff.mp hrun
  obtain ⟨heard, hsublist, hmessages, -, hdrained⟩ := lossy_heard _ _ _ s hs
  have hlost : s.lost = 1 := congrArg Summary.lost hsummary
  have hsent : s.rig.sent.length = 2 := congrArg Summary.sent hsummary
  have hlength := hdrained
    ⟨congrArg Summary.air hsummary, congrArg Summary.hasMsg hsummary, congrArg Summary.uart hsummary⟩
  exact ⟨s, heard, hs, hsublist, hsent, by omega, hmessages⟩

end GuitarraMidi.LossyRig
