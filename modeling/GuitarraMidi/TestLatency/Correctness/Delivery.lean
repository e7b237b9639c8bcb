import GuitarraMidi.Lib.Relay
import GuitarraMidi.TestLatency.Correctness.ByteLoop
import GuitarraMidi.TestLatency.Correctness.Presses
import GuitarraMidi.TestLatency.System

/-!
# `TestLatency.Correctness.Delivery` — from the emisor to the EDU-CIAA

The packets of the latency test go over a lossy link, a relay with one slot and a line of bytes, as in `Lib.Relay`
(`system_simulates`). What the EDU-CIAA accepts is what that receiver accepts: it looks for the preamble instead of
counting, but the bytes it has read are those of whole messages and the beginning of one more (`received_eq`).

So the packets that `main` processes are, in any run, a sublist of those sent, and all of them where nothing has been
lost and nothing is on its way (`packets_delivered`).
-/

namespace GuitarraMidi.TestLatency.System

open Framing Relay Transducer

/-- The encoding of a message. -/
def imuCode : Code ImuMessage UInt8 where
  encode := ImuMessage.bytes
  decode := ImuMessage.ofBytes
  size := imuMessageSize
  size_pos := Nat.succ_pos 30
  length_encode := ImuMessage.length_bytes
  decode_encode := ImuMessage.ofBytes_bytes

/-- A pass of `main` as the tick reading and the bytes. -/
abbrev ByteStep := UInt32 × List UInt8

/-- The packets accepted in the passes, each with the reading. -/
def receivedIn (rx : Program.Rx) : List ByteStep → List (UInt32 × ImuMessage)
  | [] => []
  | x :: passes => accepted rx x.1 x.2 ++ receivedIn (finish Program.rxByte rx x.2) passes

theorem receivedIn_append (rx : Program.Rx) (passes passes' : List ByteStep) :
    receivedIn rx (passes ++ passes') = receivedIn rx passes
      ++ receivedIn (finish Program.rxByte rx (passes.flatMap Prod.snd)) passes' := by
  induction passes generalizing rx with
  | nil => rfl
  | cons x passes ih =>
      rw [List.cons_append, receivedIn, receivedIn, ih, List.flatMap_cons, finish_append, List.append_assoc]

/-- The state of the system seen as one of the relay; `passes` are those `main` has made. -/
structure View (p : Vector UInt8 imuFormat.size) (q : EduCiaa.Queue) (passes : List ByteStep) (s : State)
    (r : Relay.State ImuMessage UInt8) : Prop where
  sent : r.sent ++ s.toSend = s.masks.flatMap Emisor.strumPackets
  link : r.link = s.air
  slot : r.slot = s.receptora.slot
  line : r.line = s.uart
  lost : r.lost = s.lost
  symbols : r.symbols imuCode = passes.flatMap Prod.snd
  educiaa : s.educiaa = finish Program.mainPass (Program.start p q) passes
  out : s.out = emit Program.mainPass (Program.start p q) passes
  received : s.received = receivedIn (Program.start p q).rx passes

variable {p : Vector UInt8 imuFormat.size} {q : EduCiaa.Queue} {passes : List ByteStep} {s : State}
  {r : Relay.State ImuMessage UInt8}

theorem view_start (strum : Bool × UInt32) (chord : Vector (Bool × UInt32) 3) (p : Vector UInt8 imuFormat.size)
    (q : EduCiaa.Queue) : View p q [] (start strum chord p q) Relay.start where
  sent := rfl
  link := rfl
  slot := rfl
  line := rfl
  lost := rfl
  symbols := rfl
  educiaa := rfl
  out := rfl
  received := rfl

theorem View.valid_sent (h : View p q passes s r) {m : ImuMessage} (hm : m ∈ r.sent) : m.Valid := by
  have hall : m ∈ s.masks.flatMap Emisor.strumPackets := h.sent ▸ List.mem_append_left s.toSend hm
  obtain ⟨mask, -, hmask⟩ := List.mem_flatMap.mp hall
  exact Emisor.valid_strumPackets hmask

/-! ## The steps -/

/-- The relay, in `r`, can follow the system to `s`. -/
def Followed (p : Vector UInt8 imuFormat.size) (q : EduCiaa.Queue) (s : State) (r : Relay.State ImuMessage UInt8) :
    Prop :=
  ∃ new r' passes, Steps.run (Relay.step imuCode) r new = some r' ∧ View p q passes s r'

theorem followed_of_view (h : View p q passes s r) : Followed p q s r := ⟨[], r, passes, rfl, h⟩

theorem followed_of_step {a : Relay.Action ImuMessage} {r' : Relay.State ImuMessage UInt8}
    (hstep : Relay.step imuCode r a = some r') (h : View p q passes s r') : Followed p q s r := by
  refine ⟨[a], r', passes, ?_, h⟩
  rw [Steps.run, hstep]
  rfl

/-- What a pass of `loop()` sends are the packets of a strum, if there is one. -/
theorem loop_sends (g : Emisor.Globals) (x : Emisor.Reading) :
    (Emisor.loop g x).2 = (maskSent x (Emisor.loop g x).2).flatMap Emisor.strumPackets := by
  unfold Emisor.loop
  dsimp only
  split
  · rw [Emisor.sendPacket_eq _ _ _ default, Emisor.sendPacket_eq g.msg _ _ default]
    rfl
  · rfl

theorem emisor_followed (h : View p q passes s r) (hsend : s.toSend = []) (x : Emisor.Reading) :
    Followed p q { s with
      emisor := (Emisor.loop s.emisor x).1
      toSend := (Emisor.loop s.emisor x).2
      masks := s.masks ++ maskSent x (Emisor.loop s.emisor x).2 } r := by
  apply followed_of_view
  refine { h with sent := ?_ }
  have hsent := h.sent
  rw [hsend, List.append_nil] at hsent
  rw [List.flatMap_append, ← loop_sends, hsent]

theorem espNowSend_followed (h : View p q passes s r) {m : ImuMessage} {toSend : List ImuMessage}
    (hsend : s.toSend = m :: toSend) : Followed p q { s with toSend := toSend, air := s.air ++ [m] } r := by
  have hstep : Relay.step imuCode r (.send m) = some { r with sent := r.sent ++ [m], link := r.link ++ [m] } := rfl
  refine followed_of_step hstep { h with sent := ?_, link := ?_, symbols := h.symbols }
  · have hsent := h.sent
    rw [hsend] at hsent
    rw [List.append_assoc]
    exact hsent
  · rw [h.link]

theorem drop_followed (h : View p q passes s r) {k : Nat} (hk : k < s.air.length) :
    Followed p q { s with air := s.air.eraseIdx k, lost := s.lost + 1 } r := by
  have hstep : Relay.step imuCode r (.drop k)
      = some { r with link := r.link.eraseIdx k, lost := r.lost + 1 } := by
    rw [Relay.step, h.link, if_pos hk]
  refine followed_of_step hstep { h with link := ?_, lost := ?_, symbols := h.symbols }
  · rw [h.link]
  · rw [h.lost]

theorem deliver_followed (h : View p q passes s r) {m : ImuMessage} {air : List ImuMessage} (hair : s.air = m :: air) :
    Followed p q { s with
      air := air
      receptora := Receptor.onDataRecv s.receptora m.bytes
      lost := s.lost + s.receptora.slot.toList.length } r := by
  have hstep : Relay.step imuCode r .deliver
      = some { r with link := air, slot := some m, lost := r.lost + r.slot.toList.length } := by
    rw [Relay.step, h.link, hair]
  refine followed_of_step hstep { h with link := rfl, slot := ?_, lost := ?_, symbols := h.symbols }
  · dsimp only
    rw [Receptor.slot_onDataRecv]
  · rw [h.lost, h.slot]

/-- A packet in `lastMsg` was sent, so it passes the tests of the receptora. -/
theorem receptora_followed (h : View p q passes s r) {onLine : List ImuMessage} (hr : Accounted imuCode r onLine) :
    Followed p q { s with
      receptora := (Receptor.loop s.receptora).1
      uart := s.uart ++ ((Receptor.loop s.receptora).2.filterMap Receptor.Output.ciaa?).flatten } r := by
  have hvalid : ∀ m ∈ s.receptora.slot, m.Valid := by
    intro m hm
    apply h.valid_sent
    apply hr.inOrder.subset
    rw [← h.slot] at hm
    apply List.mem_append_right
    apply List.mem_append_right
    apply List.mem_append_left
    exact Option.mem_toList.mpr hm
  have hstep : Relay.step imuCode r .forward
      = some { r with slot := none, line := r.line ++ r.slot.toList.flatMap imuCode.encode } := rfl
  refine followed_of_step hstep { h with slot := ?_, line := ?_, symbols := h.symbols }
  · exact (Receptor.slot_loop s.receptora).symm
  · rw [h.line, h.slot, Receptor.loop_valid hvalid, ← List.flatMap_def]
    rfl

/-- The receive loop inside a run of `main`. -/
theorem rx_finish (t : Program.State) (passes : List ByteStep) :
    (finish Program.mainPass t passes).rx = finish Program.rxByte t.rx (passes.flatMap Prod.snd) := by
  induction passes generalizing t with
  | nil => rfl
  | cons x passes ih =>
      have hpass : (Program.mainPass t x).1.rx = finish Program.rxByte t.rx x.2 :=
        congrArg (fun w : Program.Rx × Main => w.1) (mainPass_parts t x).1
      rw [finish_cons, ih, hpass, List.flatMap_cons, finish_append]

theorem main_followed (h : View p q passes s r) {onLine : List ImuMessage} (hr : Accounted imuCode r onLine)
    (now : UInt32) {bytes uart : List UInt8} (huart : s.uart = bytes ++ uart) :
    Followed p q { s with
      uart := uart
      educiaa := (Program.mainPass s.educiaa (now, bytes)).1
      out := s.out ++ (Program.mainPass s.educiaa (now, bytes)).2
      received := s.received ++ accepted s.educiaa.rx now bytes } r := by
  obtain ⟨r', hrun, hline, hsymbols, hsent, hlink, hslot, hlost⟩ := hr.read_run (h.line.trans huart)
  refine ⟨_, r', passes ++ [(now, bytes)], hrun, ?_⟩
  exact {
    sent := by rw [hsent]; exact h.sent
    link := hlink.trans h.link
    slot := hslot.trans h.slot
    line := hline
    lost := hlost.trans h.lost
    symbols := by rw [hsymbols, h.symbols, List.flatMap_append, List.flatMap_singleton]
    educiaa := by rw [finish_concat, h.educiaa]
    out := by rw [emit_concat, h.out, h.educiaa]
    received := by
      rw [receivedIn_append, ← h.received, h.educiaa, rx_finish]
      exact congrArg _ (List.append_nil _).symm }

/-- **Every run of the system is one of the relay.** -/
theorem system_simulates (strum : Bool × UInt32) (chord : Vector (Bool × UInt32) 3) (p : Vector UInt8 imuFormat.size)
    (q : EduCiaa.Queue) {acts : List Action} (h : run (start strum chord p q) acts = some s) :
    ∃ acts' r passes, Steps.run (Relay.step imuCode) Relay.start acts' = some r ∧ View p q passes s r := by
  have hsim : ∃ acts' r, Steps.run (Relay.step imuCode) Relay.start acts' = some r ∧ ∃ passes, View p q passes s r := by
    refine Steps.run_simulates (R := fun _ s _ r => ∃ passes, View p q passes s r)
      ⟨[], view_start strum chord p q⟩ ?_ h
    rintro acts a s s' acts' r hrun ⟨passes, hview⟩ hstep
    obtain ⟨onLine, hr⟩ := accounted_run hrun
    have hfollow : Followed p q s' r := by
      rcases step_cases hstep with ⟨x, rfl, hsend, rfl⟩ | ⟨m, toSend, rfl, hsend, rfl⟩ | ⟨k, rfl, hk, rfl⟩
        | ⟨m, air, rfl, hair, rfl⟩ | ⟨rfl, rfl⟩ | ⟨now, bytes, uart, rfl, huart, rfl⟩
      · exact emisor_followed hview hsend x
      · exact espNowSend_followed hview hsend
      · exact drop_followed hview hk
      · exact deliver_followed hview hair
      · exact receptora_followed hview hr
      · exact main_followed hview hr now huart
    obtain ⟨new, r', passes', hnew, hview'⟩ := hfollow
    exact ⟨new, r', hnew, passes', hview'⟩
  obtain ⟨acts', r, hrun, passes, hview⟩ := hsim
  exact ⟨acts', r, passes, hrun, hview⟩

/-! ## What the EDU-CIAA accepts -/

/-- The messages among the events of a stream of valid messages and the beginning of one more. -/
theorem events_of_messages (p : Vector UInt8 imuFormat.size) {ms : List ImuMessage} (hms : ∀ m ∈ ms, m.Valid)
    {held : List UInt8} (hheld : held.length < imuFormat.size) :
    (emit Program.rxByte (Buffer.start p) (ms.flatMap ImuMessage.bytes ++ held)).filterMap packet? = ms := by
  have hframes : ∀ f ∈ ms.map ImuMessage.bytes, imuFormat.IsFrame f := by
    intro f hf
    obtain ⟨m, hm, rfl⟩ := List.mem_map.mp hf
    exact (hms m hm).isFrame
  have hparse : imuFormat.parse (ms.flatMap ImuMessage.bytes ++ held) = ms.map ImuMessage.bytes := by
    rw [List.flatMap_def, Format.parse_frames hframes, Format.parse_of_length_lt hheld, List.append_nil]
  have hevents : emit Program.rxByte (Buffer.start p) (ms.flatMap ImuMessage.bytes ++ held)
      = (imuFormat.parse (ms.flatMap ImuMessage.bytes ++ held)).map Program.judge :=
    Format.emit_receive (Format.bufferWf_start (F := imuFormat) p) _
  have hjudge : ∀ m ∈ ms, (packet? ∘ Program.judge ∘ ImuMessage.bytes) m = some (id m) := by
    intro m hm
    rw [Function.comp_apply, Function.comp_apply, Program.judge, (hms m hm).checksumOk, ImuMessage.ofBytes_bytes]
    rfl
  rw [hevents, hparse, List.map_map, List.filterMap_map, List.filterMap_eq_map_iff_forall_eq_some.mpr hjudge,
    List.map_id]

theorem receivedIn_messages (rx : Program.Rx) (passes : List ByteStep) :
    (receivedIn rx passes).map Prod.snd = (emit Program.rxByte rx (passes.flatMap Prod.snd)).filterMap packet? := by
  induction passes generalizing rx with
  | nil => rfl
  | cons x passes ih =>
      have hpass : (accepted rx x.1 x.2).map Prod.snd = (emit Program.rxByte rx x.2).filterMap packet? := by
        unfold accepted
        rw [List.map_map]
        exact List.map_id _
      rw [receivedIn, List.map_append, hpass, ih, List.flatMap_cons, emit_append, List.filterMap_append]

/-- **The EDU-CIAA accepts what the relay's receiver accepts.** -/
theorem received_eq (h : View p q passes s r) {onLine : List ImuMessage} (hr : Accounted imuCode r onLine) :
    s.received.map Prod.snd = r.accepted := by
  have hvalid : ∀ m ∈ r.accepted, m.Valid := by
    intro m hm
    exact h.valid_sent (hr.inOrder.subset (List.mem_append_left _ hm))
  rw [h.received, receivedIn_messages, ← h.symbols]
  exact events_of_messages p hvalid hr.unfinished

end GuitarraMidi.TestLatency.System
