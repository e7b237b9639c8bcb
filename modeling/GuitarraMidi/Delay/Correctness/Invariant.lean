import GuitarraMidi.Delay.System
import GuitarraMidi.Lib.Stopwatch

/-!
# `Delay.Correctness.Invariant` — what holds while the delay test runs

`t_send` is a stopwatch that each pass of `loop()` starts, 200 ms apart at least (`Inv.spaced`); the parties are related
by what has been sent and what the receptor has shown, which only grows. So a fact of the past stays true
(`Report.Correct.mono`, `Pass.Correct.mono`), and a step has to answer only for what it adds.

There is one lemma for each function: `Inv.loop`, `Inv.goOn` and `Inv.onAck` for the emisor, `Inv.onMessage` for the
receptor. `Inv.act` puts them together, and `inv_run` is every run.
-/

namespace GuitarraMidi.Delay

open Clock Stopwatch

/-- What has been sent and what the receptor has shown. -/
structure History where
  sent : List (Nat × Reading)
  shown : List (Nat × Vector Bool 4)

def State.history (s : State) : History := ⟨s.sent, s.shown⟩

/-- The times `t_send` has stood for. -/
def State.starts (s : State) : List Nat := s.sent.map Prod.fst

/-- The pass with a number is `p`, and the receptor has shown its buttons. -/
def History.Shown (w : History) (idx : Nat) (p : Nat × Reading) : Prop :=
  w.sent[idx]? = some p ∧ (idx, p.2.botones.map (!·)) ∈ w.shown

/-- An ACK is the one to message `idx`, or comes at least 200 ms after its own message. -/
def History.OwnOrLate (w : History) (idx : Nat) (ack : Nat × Nat) : Prop :=
  ∃ p, w.Shown ack.1 p ∧ (ack.1 = idx ∨ p.1 + 200 ≤ ack.2)

/-- The time that is written, against the times at which things happened; `p` is the pass that sent the message. -/
structure Report.Correct (w : History) (r : Report) (p : Nat × Reading) : Prop where
  shown : w.Shown r.idx p
  start_le : p.1 ≤ r.stamp
  stamp_le : r.stamp ≤ r.read
  soon : r.read < p.1 + 200 → r.roundTrip.toNat = r.stamp - p.1
  bound : r.roundTrip.toNat ≤ r.stamp - p.1
    ∨ (∃ q ∈ w.sent, r.stamp < q.1 ∧ q.1 ≤ r.read) ∧ 2 ^ 32 ≤ r.roundTrip.toNat + (r.read - r.stamp)

/-- What a finished pass has written, against the ACKs it has heard. -/
structure Pass.Correct (w : History) (p : Pass) : Prop where
  noRecibido : p.noRecibido = p.heard.isEmpty
  timeout : p.noRecibido = true → ∃ q, w.sent[p.idx]? = some q ∧ q.1 + 100 ≤ p.ended
  heard : ∀ ack ∈ p.heard, w.OwnOrLate p.idx ack

/-- The pass that goes on has heard an ACK exactly if `ack_received` is set. -/
def State.Hears (s : State) : Prop :=
  s.sent ≠ [] ∧ s.ackReceived = !s.heard.isEmpty
    ∧ ∀ ack ∈ s.heard, s.history.OwnOrLate (s.sent.length - 1) ack

/-- What holds where `loop()` is. -/
def State.Placed (s : State) : Phase → Prop
  | .hung => True
  | .top => ∀ t ∈ s.starts, t + 200 ≤ s.now
  | .stamped stamp x => stamp ≤ s.now ∧ s.mensaje = leer x ∧ ∀ t ∈ s.starts, t + 200 ≤ stamp
  | .stored => ∃ sent p, s.sent = sent ++ [p] ∧ s.mensaje = leer p.2
  | .cleared => s.Hears ∧ ∃ sent p, s.sent = sent ++ [p] ∧ s.mensaje = leer p.2
  | .sent => s.Hears
  | .waiting start _ => s.Hears ∧ ∃ since, start = tick since ∧ since ≤ s.now ∧ ∀ t ∈ s.starts, t ≤ since
  | .done => s.Hears ∧ (s.ackReceived = false → ∀ t ∈ s.starts, t + 100 ≤ s.now)
  | .pause wake => ∀ t ∈ s.starts, t + 200 ≤ wake

/-- What holds where `OnDataRecv` of the emisor is. -/
def State.CallbackPlaced (s : State) : Callback → Prop
  | .idle => True
  | .marked idx => ∃ p, s.history.Shown idx p
  | .timed idx stamp => stamp ≤ s.now ∧ ∃ p, s.history.Shown idx p ∧ p.1 ≤ stamp

structure Inv (s : State) : Prop where
  spaced : Spaced 200 s.starts
  starts_le : ∀ t ∈ s.starts, t ≤ s.now
  tSend : ∀ sent p, s.sent = sent ++ [p] → s.tSend = tick p.1
  placed : s.Placed s.phase
  callback : s.CallbackPlaced s.callback
  air : ∀ m ∈ s.air, ∃ p, s.sent[m.1]? = some p ∧ m.2 = (leer p.2).bytes
  acks : ∀ ack ∈ s.acks, ∃ p, s.history.Shown ack.1 p
  reports : ∀ r ∈ s.reports, ∃ p, r.Correct s.history p
  passes : ∀ p ∈ s.passes, p.Correct s.history

variable {s s' : State}

theorem inv_start (mpuBegin : Bool) (ledPins : Vector Bool 4) : Inv (start mpuBegin ledPins) where
  spaced := spaced_nil
  starts_le := by
    intro t ht
    exact absurd ht List.not_mem_nil
  tSend := by
    intro sent p h
    exact absurd h.symm (List.append_ne_nil_of_right_ne_nil sent (List.cons_ne_nil p []))
  placed := by
    cases mpuBegin with
    | true => exact trivial
    | false =>
        intro t ht
        exact absurd ht List.not_mem_nil
  callback := trivial
  air := by
    intro m hm
    exact absurd hm List.not_mem_nil
  acks := by
    intro ack hack
    exact absurd hack List.not_mem_nil
  reports := by
    intro r hr
    exact absurd hr List.not_mem_nil
  passes := by
    intro p hp
    exact absurd hp List.not_mem_nil

/-! ## What stays true -/

/-- More has been sent and shown. -/
structure Grows (w w' : History) : Prop where
  sent : ∃ more, w'.sent = w.sent ++ more
  shown : w.shown ⊆ w'.shown

variable {w w' : History}

theorem Grows.getElem? (h : Grows w w') {idx : Nat} {p : Nat × Reading} (hp : w.sent[idx]? = some p) :
    w'.sent[idx]? = some p := by
  obtain ⟨more, hmore⟩ := h.sent
  obtain ⟨hlt, -⟩ := List.getElem?_eq_some_iff.mp hp
  rw [hmore, List.getElem?_append_left hlt]
  exact hp

theorem Grows.mem_sent (h : Grows w w') {p : Nat × Reading} (hp : p ∈ w.sent) : p ∈ w'.sent := by
  obtain ⟨more, hmore⟩ := h.sent
  rw [hmore]
  exact List.mem_append_left more hp

theorem History.Shown.mono {idx : Nat} {p : Nat × Reading} (h : w.Shown idx p) (hgrows : Grows w w') :
    w'.Shown idx p :=
  ⟨hgrows.getElem? h.1, hgrows.shown h.2⟩

theorem History.OwnOrLate.mono {idx : Nat} {ack : Nat × Nat} (h : w.OwnOrLate idx ack) (hgrows : Grows w w') :
    w'.OwnOrLate idx ack := by
  obtain ⟨p, hshown, hown⟩ := h
  exact ⟨p, hshown.mono hgrows, hown⟩

theorem Report.Correct.mono {r : Report} {p : Nat × Reading} (h : r.Correct w p) (hgrows : Grows w w') :
    r.Correct w' p where
  shown := h.shown.mono hgrows
  start_le := h.start_le
  stamp_le := h.stamp_le
  soon := h.soon
  bound := by
    rcases h.bound with hle | ⟨⟨q, hq, hlater⟩, hturn⟩
    · exact Or.inl hle
    · exact Or.inr ⟨⟨q, hgrows.mem_sent hq, hlater⟩, hturn⟩

theorem Pass.Correct.mono {p : Pass} (h : p.Correct w) (hgrows : Grows w w') : p.Correct w' where
  noRecibido := h.noRecibido
  timeout := by
    intro hno
    obtain ⟨q, hq, hlate⟩ := h.timeout hno
    exact ⟨q, hgrows.getElem? hq, hlate⟩
  heard := fun ack hack => (h.heard ack hack).mono hgrows

/-- `loop()` stays where it is while something else happens. -/
theorem State.Placed.mono {phase : Phase} (h : s.Placed phase) (hnow : s.now ≤ s'.now) (hsent : s'.sent = s.sent)
    (hmensaje : s'.mensaje = s.mensaje) (hhears : s.Hears → s'.Hears)
    (hack : s'.ackReceived = false → s.ackReceived = false) : s'.Placed phase := by
  have hstarts : s'.starts = s.starts := congrArg (List.map Prod.fst) hsent
  cases phase with
  | hung => exact trivial
  | top =>
      intro t ht
      rw [hstarts] at ht
      exact Nat.le_trans (h t ht) hnow
  | stamped stamp x =>
      obtain ⟨hstamp, hleer, hle⟩ := h
      refine ⟨Nat.le_trans hstamp hnow, hmensaje.trans hleer, ?_⟩
      rw [hstarts]
      exact hle
  | stored =>
      obtain ⟨sent, p, hp, hleer⟩ := h
      exact ⟨sent, p, hsent.trans hp, hmensaje.trans hleer⟩
  | cleared =>
      obtain ⟨hh, sent, p, hp, hleer⟩ := h
      exact ⟨hhears hh, sent, p, hsent.trans hp, hmensaje.trans hleer⟩
  | sent => exact hhears h
  | waiting start wake =>
      obtain ⟨hh, since, hstart, hsince, hle⟩ := h
      refine ⟨hhears hh, since, hstart, Nat.le_trans hsince hnow, ?_⟩
      rw [hstarts]
      exact hle
  | done =>
      refine ⟨hhears h.1, ?_⟩
      intro hno t ht
      rw [hstarts] at ht
      exact Nat.le_trans (h.2 (hack hno) t ht) hnow
  | pause wake =>
      intro t ht
      rw [hstarts] at ht
      exact h t ht

theorem State.CallbackPlaced.mono {callback : Callback} (h : s.CallbackPlaced callback)
    (hgrows : Grows s.history s'.history) (hnow : s.now ≤ s'.now) : s'.CallbackPlaced callback := by
  cases callback with
  | idle => exact trivial
  | marked idx =>
      obtain ⟨p, hp⟩ := h
      exact ⟨p, hp.mono hgrows⟩
  | timed idx stamp =>
      obtain ⟨hstamp, p, hp, hle⟩ := h
      exact ⟨Nat.le_trans hstamp hnow, p, hp.mono hgrows, hle⟩

/-- Time goes on. -/
theorem Inv.advance (h : Inv s) {t : Nat} (ht : s.now ≤ t) : Inv { s with now := t } :=
  { h with
    starts_le := fun u hu => Nat.le_trans (h.starts_le u hu) ht
    placed := h.placed.mono ht rfl rfl id id
    callback := h.callback.mono ⟨⟨[], (List.append_nil s.sent).symm⟩, List.Subset.refl _⟩ ht }

/-! ## The steps of `loop()` -/

theorem mem_starts_concat {sent : List (Nat × Reading)} {p : Nat × Reading} (h : s.sent = sent ++ [p]) {t : Nat} :
    t ∈ s.starts ↔ t ∈ sent.map Prod.fst ∨ t = p.1 := by
  simp [State.starts, h]

/-- `t_send` is set. -/
theorem Inv.store (h : Inv s) {stamp : Nat} {x : Reading} (hphase : s.phase = .stamped stamp x) :
    Inv { s with tSend := tick stamp, sent := s.sent ++ [(stamp, x)], phase := .stored } := by
  have hplaced := h.placed
  rw [hphase] at hplaced
  obtain ⟨hstamp, hleer, hspace⟩ := hplaced
  have hgrows : Grows s.history ⟨s.sent ++ [(stamp, x)], s.shown⟩ :=
    ⟨⟨[(stamp, x)], rfl⟩, List.Subset.refl _⟩
  have hstarts : (s.sent ++ [(stamp, x)]).map Prod.fst = s.starts ++ [stamp] := by simp [State.starts]
  refine {
    spaced := ?_
    starts_le := ?_
    tSend := ?_
    placed := ⟨s.sent, (stamp, x), rfl, hleer⟩
    callback := h.callback.mono hgrows (Nat.le_refl _)
    air := ?_
    acks := ?_
    reports := ?_
    passes := fun p hp => (h.passes p hp).mono hgrows }
  · show Spaced 200 ((s.sent ++ [(stamp, x)]).map Prod.fst)
    rw [hstarts]
    exact h.spaced.concat hspace
  · intro t ht
    change t ∈ (s.sent ++ [(stamp, x)]).map Prod.fst at ht
    rw [hstarts, List.mem_append, List.mem_singleton] at ht
    rcases ht with hold | rfl
    · exact h.starts_le t hold
    · exact hstamp
  · intro sent p hp
    obtain ⟨-, hlast⟩ := List.append_inj' hp rfl
    rw [← (List.cons.inj hlast).1]
  · intro m hm
    obtain ⟨p, hp, hdata⟩ := h.air m hm
    exact ⟨p, hgrows.getElem? hp, hdata⟩
  · intro ack hack
    obtain ⟨p, hp⟩ := h.acks ack hack
    exact ⟨p, hp.mono hgrows⟩
  · intro r hr
    obtain ⟨p, hp⟩ := h.reports r hr
    exact ⟨p, hp.mono hgrows⟩

/-- The message is sent. -/
theorem Inv.send (h : Inv s) (hphase : s.phase = .cleared) :
    Inv { s with air := s.air ++ [(s.sent.length - 1, s.mensaje.bytes)], phase := .sent } := by
  have hplaced := h.placed
  rw [hphase] at hplaced
  obtain ⟨hhears, sent, p, hsent, hleer⟩ := hplaced
  refine { h with placed := hhears, air := ?_ }
  intro m hm
  rw [List.mem_append, List.mem_singleton] at hm
  rcases hm with hold | rfl
  · exact h.air m hold
  · refine ⟨p, ?_, congrArg ImuMessage.bytes hleer⟩
    simp [hsent]

/-- The pass has come to `delay(200)`. -/
theorem Inv.finish (h : Inv s) (hphase : s.phase = .done) :
    Inv { s with
      passes := s.passes ++ [⟨s.sent.length - 1, s.now, !s.ackReceived, s.heard⟩]
      phase := .pause (s.now + 200) } := by
  have hplaced := h.placed
  rw [hphase] at hplaced
  obtain ⟨⟨hne, hreceived, hheard⟩, htimeout⟩ := hplaced
  refine { h with placed := fun t ht => Nat.add_le_add_right (h.starts_le t ht) 200, passes := ?_ }
  intro p hp
  rw [List.mem_append, List.mem_singleton] at hp
  rcases hp with hold | rfl
  · exact h.passes p hold
  · refine { noRecibido := ?_, timeout := ?_, heard := hheard }
    · rw [hreceived, Bool.not_not]
    · intro hno
      have hack : s.ackReceived = false := by simpa using hno
      obtain ⟨sent, q, hsent⟩ := (List.eq_nil_or_concat' s.sent).resolve_left hne
      refine ⟨q, ?_, htimeout hack q.1 ((mem_starts_concat hsent).mpr (Or.inr rfl))⟩
      show s.sent[s.sent.length - 1]? = some q
      simp [hsent]

theorem Inv.loop (h : Inv s) {x : Reading} (hs : s.loop x = some s') : Inv s' := by
  have hplaced := h.placed
  unfold State.loop at hs
  cases hphase : s.phase with
  | hung =>
      rw [hphase] at hs
      exact absurd hs (by simp)
  | top =>
      rw [hphase] at hs hplaced
      obtain rfl := Option.some.inj hs
      exact { h with placed := ⟨Nat.le_refl _, rfl, hplaced⟩ }
  | stamped stamp x =>
      rw [hphase] at hs
      obtain rfl := Option.some.inj hs
      exact h.store hphase
  | stored =>
      rw [hphase] at hs hplaced
      obtain rfl := Option.some.inj hs
      obtain ⟨sent, p, hsent, hleer⟩ := hplaced
      have hhears : State.Hears { s with ackReceived := false, heard := [], phase := .cleared } := by
        refine ⟨?_, rfl, ?_⟩
        · simp [hsent]
        · intro ack hack
          exact absurd hack List.not_mem_nil
      exact { h with placed := ⟨hhears, sent, p, hsent, hleer⟩ }
  | cleared =>
      rw [hphase] at hs
      obtain rfl := Option.some.inj hs
      exact h.send hphase
  | sent =>
      rw [hphase] at hs hplaced
      obtain rfl := Option.some.inj hs
      exact { h with placed := ⟨hplaced, s.now, rfl, Nat.le_refl _, h.starts_le⟩ }
  | waiting start wake =>
      rw [hphase] at hs hplaced
      obtain ⟨hhears, since, rfl, hsince, hle⟩ := hplaced
      dsimp only at hs
      split_ifs at hs with hwake htest
      · obtain rfl := Option.some.inj hs
        exact { h with placed := ⟨hhears, since, rfl, hsince, hle⟩ }
      · obtain rfl := Option.some.inj hs
        refine { h with placed := ⟨hhears, ?_⟩ }
        intro hack t ht
        have hlong : ¬ tick s.now - tick since < 100 := by
          intro hlt
          exact htest (by simp [hlt, show s.ackReceived = false from hack])
        have helapsed := elapsed_le hsince
        have hhundred : 100 ≤ (tick s.now - tick since).toNat := by
          rw [UInt32.lt_iff_toNat_lt] at hlong
          exact Nat.le_of_not_lt hlong
        have hstart := hle t ht
        show t + 100 ≤ s.now
        omega
  | done =>
      rw [hphase] at hs
      obtain rfl := Option.some.inj hs
      exact h.finish hphase
  | pause wake =>
      rw [hphase] at hs hplaced
      dsimp only at hs
      split_ifs at hs with hwake
      obtain rfl := Option.some.inj hs
      exact { h with placed := fun t ht => Nat.le_trans (hplaced t ht) hwake }

/-! ## The steps of the callbacks -/

/-- A message that was sent is among those before the last or is the last. -/
theorem exists_concat {idx : Nat} {p : Nat × Reading} (h : s.sent[idx]? = some p) :
    ∃ sent q, s.sent = sent ++ [q] :=
  (List.eq_nil_or_concat' s.sent).resolve_left (List.ne_nil_of_mem (List.mem_of_getElem? h))

theorem starts_concat {sent : List (Nat × Reading)} {q : Nat × Reading} (h : s.sent = sent ++ [q]) :
    s.starts = sent.map Prod.fst ++ [q.1] := by
  simp [State.starts, h]

theorem getElem?_starts {idx : Nat} {p : Nat × Reading} (h : s.sent[idx]? = some p) : s.starts[idx]? = some p.1 := by
  simp [State.starts, h]

/-- The time is written. -/
theorem Inv.report (h : Inv s) {idx stamp : Nat} (hcallback : s.callback = .timed idx stamp) :
    Inv { s with
      reports := s.reports ++ [⟨idx, stamp, s.now, tick stamp - s.tSend⟩]
      callback := .idle } := by
  have hc := h.callback
  rw [hcallback] at hc
  obtain ⟨hstamp, p, hshown, hstart⟩ := hc
  obtain ⟨sent, q, hsent⟩ := exists_concat hshown.1
  have hspaced := h.spaced
  have hk := getElem?_starts hshown.1
  have hlast : q.1 ≤ s.now := h.starts_le q.1 ((mem_starts_concat hsent).mpr (Or.inr rfl))
  rw [starts_concat hsent] at hspaced hk
  have hcorrect : Report.Correct s.history ⟨idx, stamp, s.now, tick stamp - s.tSend⟩ p := by
    rw [h.tSend sent q hsent]
    refine ⟨hshown, hstart, hstamp, ?_, ?_⟩
    · intro hsoon
      exact hspaced.difference_eq (by omega) hk hstart hstamp hlast hsoon
    · refine (hspaced.difference_le_or hk hlast).imp_right ?_
      rintro ⟨hlater, hturn⟩
      refine ⟨⟨q, ?_, hlater, hlast⟩, hturn⟩
      show q ∈ s.sent
      simp [hsent]
  refine { h with callback := trivial, reports := ?_ }
  intro r hr
  rw [List.mem_append, List.mem_singleton] at hr
  rcases hr with hold | rfl
  · exact h.reports r hold
  · exact ⟨p, hcorrect⟩

theorem Inv.goOn (h : Inv s) (hs : s.goOn = some s') : Inv s' := by
  unfold State.goOn at hs
  cases hcallback : s.callback with
  | idle =>
      rw [hcallback] at hs
      exact absurd hs (by simp)
  | marked idx =>
      rw [hcallback] at hs
      obtain rfl := Option.some.inj hs
      have hc := h.callback
      rw [hcallback] at hc
      obtain ⟨p, hshown⟩ := hc
      refine { h with callback := ⟨Nat.le_refl _, p, hshown, h.starts_le p.1 ?_⟩ }
      exact List.mem_map_of_mem (List.mem_of_getElem? hshown.1)
  | timed idx stamp =>
      rw [hcallback] at hs
      obtain rfl := Option.some.inj hs
      exact h.report hcallback

/-- An ACK that is received now is the one to the last message, or is late. -/
theorem Inv.ownOrLate (h : Inv s) {idx : Nat} {p : Nat × Reading} (hshown : s.history.Shown idx p) :
    s.history.OwnOrLate (s.sent.length - 1) (idx, s.now) := by
  refine ⟨p, hshown, ?_⟩
  obtain ⟨sent, q, hsent⟩ := exists_concat hshown.1
  have hspaced := h.spaced
  have hk := getElem?_starts hshown.1
  have hlast : q.1 ≤ s.now := h.starts_le q.1 ((mem_starts_concat hsent).mpr (Or.inr rfl))
  rw [starts_concat hsent] at hspaced hk
  rcases hspaced.eq_or_le hk with ⟨hidx, -⟩ | ⟨-, hle⟩
  · left
    rw [List.length_map] at hidx
    simp [hsent, hidx]
  · exact Or.inr (Nat.le_trans hle hlast)

theorem Inv.onAck (h : Inv s) {idx : Nat} {data : List UInt8} (hidx : ∃ p, s.history.Shown idx p)
    (hs : s.onAck idx data = some s') : Inv s' := by
  obtain ⟨p, hshown⟩ := hidx
  have hown := h.ownOrLate hshown
  unfold State.onAck at hs
  cases hcallback : s.callback with
  | idle =>
      rw [hcallback] at hs
      dsimp only at hs
      split_ifs at hs with hlen
      · obtain rfl := Option.some.inj hs
        refine { h with placed := h.placed.mono (Nat.le_refl _) rfl rfl ?_ ?_, callback := ⟨p, hshown⟩ }
        · rintro ⟨hne, -, hheard⟩
          refine ⟨hne, by simp, ?_⟩
          intro ack hack
          rw [List.mem_append, List.mem_singleton] at hack
          rcases hack with hold | rfl
          · exact hheard ack hold
          · exact hown
        · intro hno
          exact absurd hno (by simp)
      · obtain rfl := Option.some.inj hs
        exact h
  | marked _ =>
      rw [hcallback] at hs
      exact absurd hs (by simp)
  | timed _ _ =>
      rw [hcallback] at hs
      exact absurd hs (by simp)

/-- A message reaches the receptor as it was sent, so its buttons are shown. -/
theorem Inv.onMessage (h : Inv s) {idx : Nat} {p : Nat × Reading} (hp : s.sent[idx]? = some p) :
    Inv (s.onMessage idx (leer p.2).bytes) := by
  unfold State.onMessage
  rw [Receptor.onDataRecv_leer]
  have hgrows : Grows s.history ⟨s.sent, s.shown ++ [(idx, p.2.botones.map (!·))]⟩ :=
    ⟨⟨[], (List.append_nil s.sent).symm⟩, List.subset_append_left _ _⟩
  refine { h with
    placed := h.placed.mono (Nat.le_refl _) rfl rfl ?_ id
    callback := h.callback.mono hgrows (Nat.le_refl _)
    acks := ?_
    reports := ?_
    passes := fun q hq => (h.passes q hq).mono hgrows }
  · rintro ⟨hne, hreceived, hheard⟩
    exact ⟨hne, hreceived, fun ack hack => (hheard ack hack).mono hgrows⟩
  · intro ack hack
    rw [List.mem_append, List.mem_singleton] at hack
    rcases hack with hold | rfl
    · obtain ⟨q, hq⟩ := h.acks ack hold
      exact ⟨q, hq.mono hgrows⟩
    · exact ⟨p, hp, List.mem_append_right _ (List.mem_singleton_self _)⟩
  · intro r hr
    obtain ⟨q, hq⟩ := h.reports r hr
    exact ⟨q, hq.mono hgrows⟩

/-! ## Every run -/

theorem Inv.act (h : Inv s) {a : Act} (hs : Delay.act s a = some s') : Inv s' := by
  cases a with
  | loop x => exact h.loop hs
  | callback => exact h.goOn hs
  | toReceptor k =>
      obtain ⟨m, hm, rfl⟩ := Option.map_eq_some_iff.mp hs
      obtain ⟨p, hp, hdata⟩ := h.air m (List.mem_of_getElem? hm)
      have hrest : Inv { s with air := s.air.eraseIdx k } :=
        { h with air := fun m' hm' => h.air m' (List.mem_of_mem_eraseIdx hm') }
      rw [hdata]
      exact hrest.onMessage hp
  | toEmisor k =>
      obtain ⟨ack, hack, hs⟩ := Option.bind_eq_some_iff.mp hs
      have hrest : Inv { s with acks := s.acks.eraseIdx k } :=
        { h with acks := fun ack' hack' => h.acks ack' (List.mem_of_mem_eraseIdx hack') }
      exact hrest.onAck (h.acks ack (List.mem_of_getElem? hack)) hs
  | dropMessage k =>
      obtain rfl := Option.some.inj hs
      exact { h with air := fun m hm => h.air m (List.mem_of_mem_eraseIdx hm) }
  | dropAck k =>
      obtain rfl := Option.some.inj hs
      exact { h with acks := fun ack hack => h.acks ack (List.mem_of_mem_eraseIdx hack) }

theorem inv_run {mpuBegin : Bool} {ledPins : Vector Bool 4} {acts : List (Nat × Act)}
    (h : run (start mpuBegin ledPins) acts = some s) : Inv s := by
  refine Steps.run_induction (P := fun _ s => Inv s) (inv_start mpuBegin ledPins) ?_ h
  intro acts a s s' hrun hinv hstep
  unfold step at hstep
  split_ifs at hstep with ht
  exact (hinv.advance ht).act hstep

end GuitarraMidi.Delay
