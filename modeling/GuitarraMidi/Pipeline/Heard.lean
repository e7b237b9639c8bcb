import GuitarraMidi.EduCiaa.Correctness.MainLoopOutput
import GuitarraMidi.Pipeline.Faithful
import GuitarraMidi.Pipeline.Rig

/-!
# `Pipeline.Heard` — which strums are heard

A run of the whole rig is a run of the system of `Pipeline.System` (`rig_simulates`), in which the calls of
`sendPacket` are those `loop()` makes, and the EDU-CIAA plays what it accepts, packet by packet (`voiced`). So without
losses each call is heard as the chord of its mask.

The emisora does not send an empty mask, but that is not the same as a mask that is a chord: B3 alone is none. A strum
is heard, with three NOTE ON messages, exactly when B3 is not the only chord button pressed (`strum_heard_iff`).
-/

namespace GuitarraMidi.Rig

open EduCiaa Midi

/-! ## What the EDU-CIAA plays, packet by packet -/

/-- The SDI writes for a list of packets, each with its index. -/
def voiced (prev : Option ButtonChord) : List (Nat × ChordMessage) → List (Option Nat × SdiWrite)
  | [] => []
  | (idx, msg) :: rest =>
      (sdi (synthMessages prev (strums [msg]))).map (fun w => (some idx, w))
        ++ voiced (lastChord prev (strums [msg])) rest

theorem strums_cons (msg : ChordMessage) (msgs : List ChordMessage) :
    strums (msg :: msgs) = strums [msg] ++ strums msgs := strums_append [msg] msgs

theorem lastChord_append (prev : Option ButtonChord) (ss ss' : List (ButtonChord × UInt8)) :
    lastChord prev (ss ++ ss') = lastChord (lastChord prev ss) ss' := List.foldl_append

theorem voiced_append (prev : Option ButtonChord) (qs qs' : List (Nat × ChordMessage)) :
    voiced prev (qs ++ qs') = voiced prev qs ++ voiced (lastChord prev (strums (qs.map Prod.snd))) qs' := by
  induction qs generalizing prev with
  | nil => rfl
  | cons q qs ih =>
      rw [List.cons_append, voiced, voiced, ih, List.map_cons, strums_cons q.2 (qs.map Prod.snd), lastChord_append,
        List.append_assoc]

/-- Packets of one index are played one after the other. -/
theorem voiced_same (prev : Option ButtonChord) (idx : Nat) (msgs : List ChordMessage) :
    voiced prev (msgs.map (fun m => (idx, m)))
      = (sdi (synthMessages prev (strums msgs))).map (fun w => (some idx, w)) := by
  induction msgs generalizing prev with
  | nil => rfl
  | cons msg msgs ih =>
      rw [List.map_cons, voiced, ih, strums_cons msg msgs, synthMessages_append, sdi_append, List.map_append]

/-- What is played for the other packets does not carry the index. -/
theorem voiced_filter_of_ne {prev : Option ButtonChord} {qs : List (Nat × ChordMessage)} {k : Nat}
    (h : ∀ q ∈ qs, q.1 ≠ k) : (voiced prev qs).filter (fun w => w.1 == some k) = [] := by
  induction qs generalizing prev with
  | nil => rfl
  | cons q qs ih =>
      have hidx : q.1 ≠ k := h q List.mem_cons_self
      rw [voiced, List.filter_append, ih (fun q hq => h q (List.mem_cons_of_mem _ hq)), List.append_nil,
        List.filter_eq_nil_iff]
      intro w hw
      obtain ⟨w, -, rfl⟩ := List.mem_map.mp hw
      simpa using hidx

/-- **A packet is played once**: what carries its index are the messages for it. -/
theorem voiced_filter {prev : Option ButtonChord} {qs : List (Nat × ChordMessage)} {k : Nat} {msg : ChordMessage}
    (h : qs.Pairwise (fun q q' => q.1 < q'.1)) (hmem : (k, msg) ∈ qs) :
    ∃ before, ((voiced prev qs).filter (fun w => w.1 == some k)).map Prod.snd
      = sdi (synthMessages before (strums [msg])) := by
  obtain ⟨A, B, rfl⟩ := List.append_of_mem hmem
  obtain ⟨-, hrest, hA⟩ := List.pairwise_append.mp h
  have hbefore : ∀ q ∈ A, q.1 ≠ k := fun q hq => Nat.ne_of_lt (hA q hq (k, msg) List.mem_cons_self)
  have hafter : ∀ q ∈ B, q.1 ≠ k := fun q hq => Nat.ne_of_gt ((List.pairwise_cons.mp hrest).1 q hq)
  have hown : ∀ writes : List SdiWrite,
      (writes.map (fun w => (some k, w))).filter (fun w => w.1 == some k) = writes.map (fun w => (some k, w)) := by
    intro writes
    rw [List.filter_eq_self]
    intro w hw
    obtain ⟨w, -, rfl⟩ := List.mem_map.mp hw
    exact beq_self_eq_true _
  refine ⟨lastChord prev (strums (A.map Prod.snd)), ?_⟩
  rw [voiced_append, voiced, List.filter_append, List.filter_append, voiced_filter_of_ne hbefore,
    voiced_filter_of_ne hafter, hown, List.nil_append, List.append_nil, List.map_map]
  exact List.map_id _

/-- A strum is three NOTE ON messages, behind NOTE OFF messages. -/
theorem countP_synthMessages (prev : Option ButtonChord) (ss : List (ButtonChord × UInt8)) :
    (synthMessages prev ss).countP isNoteOn = 3 * ss.length := by
  induction ss generalizing prev with
  | nil => rfl
  | cons s ss ih =>
      have hoff : (prev.elim [] chordOff).countP isNoteOn = 0 := by
        cases prev with
        | none => rfl
        | some chord => rfl
      have hon : (chordOn s.1 s.2).countP isNoteOn = 3 := rfl
      rw [synthMessages, List.countP_append, List.countP_append, hoff, hon, ih, List.length_cons]
      omega

/-! ## The rig and the system -/

/-- The steps of the two links. -/
def isLink : Pipeline.Action → Bool
  | .deliver => true
  | .loop => true
  | _ => false

/-- The state of the rig seen as one of the system: the same links, the calls made by `loop()`, and an EDU-CIAA that
    has played what it accepted. -/
structure View (acts : List Action) (s : State) (acts' : List Pipeline.Action) (t : Pipeline.State) : Prop where
  sent : t.sent = s.sent.map Prod.snd
  air : t.air = s.air
  receptora : t.receptora = s.receptora
  lastIdx : t.lastIdx = s.lastIdx
  uart : t.uart = s.uart
  rx : t.rx = s.main.rx
  main : s.main.Wf
  prev : s.main.prev = lastChord none (strums (t.accepted.map Prod.snd))
  writes : s.writes = voiced none t.accepted
  chords : ∀ c ∈ s.sent, c.2.1 = Emisora.buildChordMask c.1.raw ∧ c.2.1 ≠ 0
  links : acts'.filter isLink = acts.filterMap Action.link?
  lossless : Pipeline.Lossless acts'

theorem view_start (p : Vector UInt8 8) (q : Queue) : View [] (start p q) [] (Pipeline.start p) where
  sent := rfl
  air := rfl
  receptora := rfl
  lastIdx := rfl
  uart := rfl
  rx := rfl
  main := wf_mainStart p q
  prev := rfl
  writes := rfl
  chords := fun _ hc => absurd hc List.not_mem_nil
  links := rfl
  lossless := fun _ hk => absurd hk List.not_mem_nil

section Steps

variable {acts : List Action} {s : State} {acts' : List Pipeline.Action} {t : Pipeline.State}

/-- The system, in `t` after `acts'`, can follow the rig to `s`, which it is in after `acts`. -/
def Followed (acts : List Action) (s : State) (acts' : List Pipeline.Action) (t : Pipeline.State) : Prop :=
  ∃ new t', Steps.run Pipeline.step t new = some t' ∧ View acts s (acts' ++ new) t'

/-- By staying where it is. -/
theorem followed_of_view (h : View acts s acts' t) : Followed acts s acts' t := by
  refine ⟨[], t, rfl, ?_⟩
  rw [List.append_nil]
  exact h

/-- By one step. -/
theorem followed_of_step {a' : Pipeline.Action} {t' : Pipeline.State} (hstep : Pipeline.step t a' = some t')
    (h : View acts s (acts' ++ [a']) t') : Followed acts s acts' t := by
  refine ⟨[a'], t', ?_, h⟩
  rw [Steps.run, hstep]
  rfl

theorem View.links_concat (h : View acts s acts' t) {a : Action} {a' : Pipeline.Action}
    (hlink : [a'].filter isLink = [a].filterMap Action.link?) :
    (acts' ++ [a']).filter isLink = (acts ++ [a]).filterMap Action.link? := by
  rw [List.filter_append, List.filterMap_append, h.links, hlink]

theorem View.links_local (h : View acts s acts' t) {a : Action} (hlink : [a].filterMap Action.link? = []) :
    acts'.filter isLink = (acts ++ [a]).filterMap Action.link? := by
  rw [List.filterMap_append, h.links, hlink, List.append_nil]

theorem View.lossless_concat (h : View acts s acts' t) {a' : Pipeline.Action} (hkeep : ∀ k, a' ≠ .drop k) :
    Pipeline.Lossless (acts' ++ [a']) := by
  intro k hk
  rcases List.mem_append.mp hk with hk | hk
  · exact h.lossless k hk
  · exact hkeep k (List.mem_singleton.mp hk).symm

/-- The call of `sendPacket` by `loop()`, if it makes one, is one of the system. -/
theorem emisora_followed (h : View acts s acts' t) (x : Emisora.Reading) :
    Followed (acts ++ [.emisora x]) (emisoraLoop s x) acts' t := by
  unfold emisoraLoop
  rcases Emisora.send?_loop s.emisora x with hnone | ⟨velocity, hchord, hcall⟩
  · simp only [hnone]
    exact followed_of_view { h with
      sent := by rw [h.sent, List.map_nil, List.append_nil]
      air := h.air.trans (List.append_nil s.air).symm
      chords := by simpa only [List.map_nil, List.append_nil] using h.chords
      links := h.links_local rfl }
  · simp only [hcall]
    exact @followed_of_step _ _ _ _ (.sendPacket (Emisora.buildChordMask x.raw) velocity) _ rfl { h with
      sent := by rw [h.sent, List.map_append]; rfl
      air := by
        show t.air ++ [(t.sent.length, _)] = _
        rw [h.air, h.sent, List.length_map]
        rfl
      chords := by
        intro c hc
        rcases List.mem_append.mp hc with hc | hc
        · exact h.chords c hc
        · rw [List.map_singleton, List.mem_singleton] at hc
          rw [hc]
          exact ⟨rfl, hchord⟩
      links := h.links_concat rfl
      lossless := h.lossless_concat (by simp) }

theorem deliver_followed (h : View acts s acts' t) {idx : Nat} {msg : ChordMessage} {air : List (Nat × ChordMessage)}
    (hair : s.air = (idx, msg) :: air) :
    Followed (acts ++ [.deliver]) { s with
      air := air
      receptora := (Receptora.onDataRecv s.receptora msg.bytes).1
      lastIdx := idx } acts' t := by
  have hstep : Pipeline.step t .deliver = some { t with
      air := air
      receptora := (Receptora.onDataRecv s.receptora msg.bytes).1
      lastIdx := idx } := by
    rw [Pipeline.step, h.air, hair, h.receptora]
  exact followed_of_step hstep { h with
    air := rfl
    receptora := rfl
    lastIdx := rfl
    links := h.links_concat rfl
    lossless := h.lossless_concat (by simp) }

theorem receptora_followed (h : View acts s acts' t) :
    Followed (acts ++ [.receptora]) { s with
      receptora := (Receptora.loop s.receptora).1
      uart := s.uart ++ Pipeline.written s.lastIdx (Receptora.loop s.receptora).2 } acts' t :=
  @followed_of_step _ _ _ _ .loop _ rfl { h with
    receptora := by
      show (Receptora.loop t.receptora).1 = _
      rw [h.receptora]
    uart := by
      show t.uart ++ Pipeline.written t.lastIdx (Receptora.loop t.receptora).2 = _
      rw [h.uart, h.lastIdx, h.receptora]
    links := h.links_concat rfl
    lossless := h.lossless_concat (by simp) }

/-- The top of a pass of `main` changes nothing but the clock: its queue is empty. -/
theorem pass_followed (h : View acts s acts' t) (now : UInt32) :
    Followed (acts ++ [.pass now]) (mainTop s now) acts' t := by
  unfold mainTop
  rw [midiSchedProcess_of_idle h.main.queue]
  exact followed_of_view { h with
    writes := by
      rw [← h.writes]
      exact congrArg (List.filterMap _) (List.append_nil s.out)
    links := h.links_local rfl }

/-- A byte is read by the receiver, and the packet it completes is played. -/
theorem uartByte_followed (h : View acts s acts' t) {idx : Nat} {byte : UInt8} {uart : List (Nat × UInt8)}
    (huart : s.uart = (idx, byte) :: uart) :
    Followed (acts ++ [.uartByte]) { s with
      uart := uart
      main := (mainByte s.now s.main byte).1
      out := s.out ++ (mainByte s.now s.main byte).2.map (fun o => (some idx, o)) } acts' t := by
  obtain ⟨hwf, hreads⟩ := mainByte_reads s.now s.main byte h.main
  have hmsgs : EduCiaa.accepted s.main.rx [byte] = (rxByte t.rx byte).2.filterMap RxEvent.packet? := by
    rw [EduCiaa.accepted, Transducer.emit_cons, Transducer.emit_nil, List.append_nil, h.rx]
  have hplays := hreads.plays
  rw [hmsgs] at hplays
  -- the packets of this byte, behind those accepted before
  generalize hms : (rxByte t.rx byte).2.filterMap RxEvent.packet? = ms at hplays
  have hall : (t.accepted ++ ms.map (fun m => (idx, m))).map Prod.snd = t.accepted.map Prod.snd ++ ms := by
    rw [List.map_append, List.map_map]
    congr 1
    exact List.map_id _
  have hstep : Pipeline.step t .uartByte = some { t with
      uart := uart
      rx := (rxByte t.rx byte).1
      accepted := t.accepted ++ ms.map (fun m => (idx, m)) } := by
    rw [← hms, Pipeline.step, h.uart, huart]
  have hnew : ((mainByte s.now s.main byte).2.map (fun o => (some idx, o))).filterMap
      (fun o => o.2.sdi?.map (fun w => (o.1, w)))
        = (sdiWrites (mainByte s.now s.main byte).2).map (fun w => (some idx, w)) := by
    rw [List.filterMap_map, sdiWrites, List.map_filterMap]
    rfl
  exact followed_of_step hstep { h with
    uart := rfl
    rx := by
      show (rxByte t.rx byte).1 = _
      rw [hreads.rx, h.rx]
      rfl
    main := hwf
    prev := by
      show (mainByte s.now s.main byte).1.prev = _
      rw [hplays.prev, h.prev, hall, strums_append, lastChord_append]
    writes := by
      show List.filterMap _ (s.out ++ _) = voiced none (t.accepted ++ _)
      rw [List.filterMap_append, hnew, hplays.writes, h.prev, voiced_append, voiced_same, ← h.writes]
      rfl
    links := h.links_concat rfl
    lossless := h.lossless_concat (by simp) }

end Steps

/-- **Every run of the rig is one of the system**, and the EDU-CIAA has played what it accepted there. -/
theorem rig_simulates (p : Vector UInt8 8) (q : Queue) {acts : List Action} {s : State}
    (h : run (start p q) acts = some s) :
    ∃ acts' t, Steps.run Pipeline.step (Pipeline.start p) acts' = some t ∧ View acts s acts' t := by
  refine Steps.run_simulates (view_start p q) ?_ h
  rintro acts a s s' acts' t - hview hstep
  rcases step_cases hstep with ⟨x, rfl, rfl⟩ | ⟨idx, msg, air, rfl, hair, rfl⟩ | ⟨rfl, rfl⟩ | ⟨now, rfl, rfl⟩
    | ⟨idx, byte, uart, rfl, huart, rfl⟩
  · exact emisora_followed hview x
  · exact deliver_followed hview hair
  · exact receptora_followed hview
  · exact pass_followed hview now
  · exact uartByte_followed hview huart

/-! ## Without losses -/

/-- Between two deliveries, and after the last, nothing but deliveries and passes of `loop` matters. -/
theorem loopBetween_of_links {acts : List Pipeline.Action} (h : Pipeline.LoopBetween (acts.filter isLink)) :
    Pipeline.LoopBetween acts := by
  rintro A B C rfl hB
  have hloop := h (A.filter isLink) (B.filter isLink) (C.filter isLink)
    (by rw [List.filter_append, List.filter_cons_of_pos rfl, List.filter_append, List.filter_cons_of_pos rfl])
    (fun hmem => hB (List.mem_of_mem_filter hmem))
  exact List.mem_of_mem_filter hloop

theorem loopAfterLast_of_links {acts : List Pipeline.Action} (h : Pipeline.LoopAfterLast (acts.filter isLink)) :
    Pipeline.LoopAfterLast acts := by
  rintro A B rfl hB
  have hloop := h (A.filter isLink) (B.filter isLink)
    (by rw [List.filter_append, List.filter_cons_of_pos rfl]) (fun hmem => hB (List.mem_of_mem_filter hmem))
  exact List.mem_of_mem_filter hloop

/-- A mask that is sent is no chord exactly when only B3 is pressed. -/
theorem tipo_buildChordMask_iff {raw : Vector Bool 4} (h : Emisora.buildChordMask raw ≠ 0) :
    (getChordFromButtons (Emisora.buildChordMask raw &&& 0x0F)).tipo = .chordNone ↔ SoloB3 raw := by
  unfold SoloB3
  unfold Emisora.buildChordMask at h ⊢
  -- sixteen combinations of the four buttons
  generalize raw[0]! = b₀ at h ⊢
  generalize raw[1]! = b₁ at h ⊢
  generalize raw[2]! = b₂ at h ⊢
  generalize raw[3]! = b₃ at h ⊢
  revert b₀ b₁ b₂ b₃
  decide +kernel

/-- So the packet with that mask is a strum exactly when B3 is not alone. -/
theorem length_strums_sendPacket {raw : Vector Bool 4} (h : Emisora.buildChordMask raw ≠ 0) (velocity : UInt8) :
    (strums [Emisora.sendPacket default (Emisora.buildChordMask raw) velocity]).length = 1 ↔ ¬ SoloB3 raw := by
  rw [← tipo_buildChordMask_iff h, ← Pipeline.obtenerValorBotones_boton]
  unfold strums
  simp only [List.map_cons, List.map_nil, Emisora.sendPacket_botones, Emisora.sendPacket_velocity]
  by_cases htipo : (getChordFromButtons (obtenerValorBotones
      #v[Emisora.boton (Emisora.buildChordMask raw) 0, Emisora.boton (Emisora.buildChordMask raw) 1,
        Emisora.boton (Emisora.buildChordMask raw) 2, Emisora.boton (Emisora.buildChordMask raw) 3])).tipo = .chordNone
  · simp [htipo]
  · simp [htipo]

/-- What is heard of a call, once nothing is left on the links: the messages for its packet. -/
theorem heard_of_sent (p : Vector UInt8 8) (q : Queue) {acts : List Action} {s : State}
    (h : run (start p q) acts = some s) (hbetween : Pipeline.LoopBetween (acts.filterMap Action.link?))
    (hlast : Pipeline.LoopAfterLast (acts.filterMap Action.link?)) (hair : s.air = []) (huart : s.uart = [])
    {k : Nat} {x : Emisora.Reading} {mask velocity : UInt8} (hk : s.sent[k]? = some (x, mask, velocity)) :
    mask = Emisora.buildChordMask x.raw ∧ mask ≠ 0
      ∧ ∃ before, s.heard k = some (synthMessages before (strums [Emisora.sendPacket default mask velocity])) := by
  obtain ⟨acts', t, hrun, hview⟩ := rig_simulates p q h
  obtain ⟨hmask, hchord⟩ := hview.chords _ (List.mem_of_getElem? hk)
  refine ⟨hmask, hchord, ?_⟩
  rw [← hview.links] at hbetween hlast
  have haccepted := Pipeline.accepted_append_air p hrun hview.lossless (loopBetween_of_links hbetween)
    (loopAfterLast_of_links hlast) (hview.uart.trans huart)
  rw [hview.air, hair, List.append_nil, hview.sent] at haccepted
  -- the packet of this call has been accepted, and no other has its index
  have hmem : (k, Emisora.sendPacket default mask velocity) ∈ t.accepted := by
    have hcall : (s.sent.map Prod.snd)[k]? = some (mask, velocity) := by
      rw [List.getElem?_map, hk]
      rfl
    rw [haccepted]
    exact List.mem_map.mpr ⟨((_, velocity), k), List.mem_zipIdx_iff_getElem?.mpr hcall, rfl⟩
  obtain ⟨before, hwrites⟩ := @voiced_filter none _ _ _ (haccepted ▸ Pipeline.packetsSent_ordered _) hmem
  refine ⟨before, ?_⟩
  unfold State.heard
  rw [hview.writes, hwrites, messages_sdi]

/-- **A strum that is sent is heard, with exactly three NOTE ON messages, if and only if B3 is not the only chord
    button pressed**: in any run in which the receptora makes a pass after each delivery, once nothing is left on the
    air or on the UART. -/
theorem strum_heard_iff (p : Vector UInt8 8) (q : Queue) {acts : List Action} {s : State}
    (h : run (start p q) acts = some s) (hbetween : Pipeline.LoopBetween (acts.filterMap Action.link?))
    (hlast : Pipeline.LoopAfterLast (acts.filterMap Action.link?)) (hair : s.air = []) (huart : s.uart = []) :
    ∀ k x mask velocity, s.sent[k]? = some (x, mask, velocity) → (s.ThreeNotes k ↔ ¬ SoloB3 x.raw) := by
  intro k x mask velocity hk
  obtain ⟨rfl, hchord, before, hheard⟩ := heard_of_sent p q h hbetween hlast hair huart hk
  rw [← length_strums_sendPacket hchord velocity]
  unfold State.ThreeNotes
  rw [hheard]
  constructor
  · rintro ⟨ms, hms, hcount⟩
    rw [← Option.some.inj hms, countP_synthMessages] at hcount
    omega
  · intro hone
    refine ⟨_, rfl, ?_⟩
    rw [countP_synthMessages, hone]

/-! ## One strum -/

/-- STRUM is held for 40 ms, then the guitar is strummed with the chord buttons at `raw`, and what is sent is passed on
    and read. -/
def strumRun (raw : Vector Bool 4) : List Action :=
  [.emisora ⟨1000, 1000, 9, false, raw⟩, .emisora ⟨1040, 1040, 12, false, raw⟩, .deliver, .receptora, .pass 2000]
    ++ List.replicate 8 .uartByte

theorem loopBetween_strumRun (raw : Vector Bool 4) :
    Pipeline.LoopBetween ((strumRun raw).filterMap Action.link?) := by
  intro A B C hsplit
  -- there is only one delivery
  have hcount := congrArg (List.count Pipeline.Action.deliver) hsplit
  have hone : List.count Pipeline.Action.deliver ((strumRun raw).filterMap Action.link?) = 1 := rfl
  rw [hone, List.count_append, List.count_cons_self, List.count_append, List.count_cons_self] at hcount
  omega

theorem loopAfterLast_strumRun (raw : Vector Bool 4) :
    Pipeline.LoopAfterLast ((strumRun raw).filterMap Action.link?) := by
  intro A B hsplit _
  have hlinks : (strumRun raw).filterMap Action.link? = [.deliver, .loop] := rfl
  rw [hlinks] at hsplit
  cases A with
  | nil =>
      obtain ⟨-, rfl⟩ := List.cons.inj hsplit
      exact List.mem_cons_self
  | cons a A =>
      rw [List.cons_append] at hsplit
      have hmem : Pipeline.Action.deliver ∈ [Pipeline.Action.loop] := by
        rw [(List.cons.inj hsplit).2]
        exact List.mem_append_right A List.mem_cons_self
      exact absurd hmem (by decide)

/-- The rig just switched on. -/
def freshRig : State := start (.replicate 8 0) (.replicate qSize (eventOf .evOn 0 0 0 0))

/-- What is left on the links, the calls with the buttons they were made for, and what is heard of the first. -/
structure Summary where
  air : List (Nat × ChordMessage)
  uart : List (Nat × UInt8)
  sent : List (Vector Bool 4 × UInt8 × UInt8)
  first : Option (List Message)
deriving DecidableEq

def State.summary (s : State) : Summary := ⟨s.air, s.uart, s.sent.map (fun c => (c.1.raw, c.2)), s.heard 0⟩

/-- With B0 alone, DO mayor, the strum is heard. -/
theorem strum_heard_doMayor :
    ∃ s, run freshRig (strumRun #v[false, true, true, true]) = some s ∧ s.sent.map Prod.snd = [(1, 80)]
      ∧ s.ThreeNotes 0 := by
  have hrun : (run freshRig (strumRun #v[false, true, true, true])).map State.summary
      = some ⟨[], [], [(#v[false, true, true, true], 1, 80)], some (chordOn ⟨"DO mayor", 60, .chordMajor⟩ 80)⟩ := by
    decide +kernel
  obtain ⟨s, hs, hsummary⟩ := Option.map_eq_some_iff.mp hrun
  obtain ⟨⟨x, mask, velocity⟩, hcall, hc⟩ := List.map_eq_singleton_iff.mp (congrArg Summary.sent hsummary)
  obtain ⟨hraw, hmask⟩ := Prod.mk.inj hc
  refine ⟨s, hs, ?_, ?_⟩
  · rw [hcall, ← hmask]
    rfl
  · refine (strum_heard_iff _ _ hs (loopBetween_strumRun _) (loopAfterLast_strumRun _)
      (congrArg Summary.air hsummary) (congrArg Summary.uart hsummary) 0 x mask velocity ?_).mpr ?_
    · rw [hcall]
      rfl
    · rw [hraw]
      decide

/-- **With B3 alone the strum is sent and not heard**: the mask is 8, which is not empty and maps to "Nada". -/
theorem soloB3_unheard :
    ∃ s, run freshRig (strumRun #v[true, true, true, false]) = some s
      ∧ Pipeline.LoopBetween ((strumRun #v[true, true, true, false]).filterMap Action.link?)
      ∧ Pipeline.LoopAfterLast ((strumRun #v[true, true, true, false]).filterMap Action.link?)
      ∧ s.air = [] ∧ s.uart = [] ∧ s.sent.map (fun c => (c.1.raw, c.2)) = [(#v[true, true, true, false], 8, 80)]
      ∧ s.heard 0 = some [] ∧ ¬ s.ThreeNotes 0 := by
  have hrun : (run freshRig (strumRun #v[true, true, true, false])).map State.summary
      = some ⟨[], [], [(#v[true, true, true, false], 8, 80)], some []⟩ := by
    decide +kernel
  obtain ⟨s, hs, hsummary⟩ := Option.map_eq_some_iff.mp hrun
  have hheard : s.heard 0 = some [] := congrArg Summary.first hsummary
  refine ⟨s, hs, loopBetween_strumRun _, loopAfterLast_strumRun _, congrArg Summary.air hsummary,
    congrArg Summary.uart hsummary, congrArg Summary.sent hsummary, hheard, ?_⟩
  rintro ⟨ms, hms, hcount⟩
  rw [hheard] at hms
  rw [← Option.some.inj hms] at hcount
  exact absurd hcount (by decide)

end GuitarraMidi.Rig
