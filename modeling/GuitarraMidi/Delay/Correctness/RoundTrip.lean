import GuitarraMidi.Delay.Correctness.Invariant

/-!
# `Delay.Correctness.RoundTrip` — what the delay test measures

An ACK carries no number. So the time that is written is the right one if the ACK has been dealt with before the 200 ms
to the next pass are over (`round_trip`), and a pass takes the ACK to another message for its own only if that is
200 ms late or more (`ack_line`). Where `mpu.begin()` succeeds there is nothing to measure (`nothing_sent`).
-/

namespace GuitarraMidi.Delay

variable {s s' : State} {mpuBegin : Bool} {ledPins : Vector Bool 4} {acts : List (Nat × Act)}

/-- **What "Round-trip delay" says.** The message that the ACK answers was sent and its buttons shown. If `OnDataRecv`
    has come to `t_send` within 200 ms of that pass, the time written is the time since `t_send` was taken. Later it
    is never more than that, unless the next pass has set `t_send` in the middle of `OnDataRecv`: then the difference
    is negative, and what is written is some 49 days. -/
theorem round_trip (h : run (start mpuBegin ledPins) acts = some s) {r : Report} (hr : r ∈ s.reports) :
    ∃ p, s.sent[r.idx]? = some p ∧ (r.idx, p.2.botones.map (!·)) ∈ s.shown
      ∧ p.1 ≤ r.stamp ∧ r.stamp ≤ r.read
      ∧ (r.read < p.1 + 200 → r.roundTrip.toNat = r.stamp - p.1)
      ∧ (r.roundTrip.toNat ≤ r.stamp - p.1
        ∨ (∃ q ∈ s.sent, r.stamp < q.1 ∧ q.1 ≤ r.read)
          ∧ 2 ^ 32 ≤ r.roundTrip.toNat + (r.read - r.stamp)) := by
  obtain ⟨p, hp⟩ := (inv_run h).reports r hr
  exact ⟨p, hp.shown.1, hp.shown.2, hp.start_le, hp.stamp_le, hp.soon, hp.bound⟩

/-- Three passes with all the buttons pressed. The first is answered in 7 ms. The second is not answered in time, and
    the third has set `t_send` when `OnDataRecv` comes to it. -/
def tresPasadas : List (Nat × Act) :=
  let x : Reading := ⟨.replicate 3 0, .replicate 3 0, .replicate 4 false⟩
  [(0, .loop x), (0, .loop x), (0, .loop x), (0, .loop x), (1, .loop x), (3, .toReceptor 0), (4, .loop x),
    (7, .toEmisor 0), (7, .callback), (8, .callback), (8, .loop x), (8, .loop x), (208, .loop x),
    (208, .loop x), (208, .loop x), (208, .loop x), (208, .loop x), (208, .loop x), (213, .toReceptor 0),
    (308, .loop x), (309, .loop x), (509, .toEmisor 0), (509, .callback), (509, .loop x),
    (510, .loop x), (511, .loop x), (512, .callback)]

theorem run_tresPasadas :
    (run (start false (.replicate 4 false)) tresPasadas).map (fun s => (s.reports, s.passes))
      = some ([⟨0, 7, 8, 7⟩, ⟨1, 509, 512, 4294967295⟩], [⟨0, 8, false, [(0, 7)]⟩, ⟨1, 309, true, []⟩]) := by
  decide +kernel

theorem seven_ms_written : ∃ (s : State) (p q : Nat × Reading),
    run (start false (.replicate 4 false)) tresPasadas = some s
      ∧ s.sent[0]? = some p ∧ p.1 ≤ 7 ∧ (8 < p.1 + 200 → 7 = 7 - p.1)
      ∧ s.sent[1]? = some q ∧ q.1 ≤ 509
      ∧ (4294967295 ≤ 509 - q.1
        ∨ (∃ r ∈ s.sent, 509 < r.1 ∧ r.1 ≤ 512) ∧ 2 ^ 32 ≤ 4294967295 + (512 - 509)) := by
  obtain ⟨s, hs, hboth⟩ := Option.map_eq_some_iff.mp run_tresPasadas
  obtain ⟨hreports, -⟩ := Prod.mk.inj hboth
  obtain ⟨p, hp, -, hple, -, hsoon, -⟩ := round_trip hs (r := ⟨0, 7, 8, 7⟩) (by simp [hreports])
  obtain ⟨q, hq, -, hqle, -, -, hbound⟩ := round_trip hs (r := ⟨1, 509, 512, 4294967295⟩) (by simp [hreports])
  exact ⟨s, p, q, hs, hp, hple, hsoon, hq, hqle, hbound⟩

/-- **What "ACK no recibido" says.** A pass writes it exactly if `OnDataRecv` has set `ack_received` for no ACK since
    the pass cleared it, and not before 100 ms are over. What it takes for its ACK is the ACK to a message whose
    buttons have been shown, and to its own unless that one comes 200 ms after its pass or later. -/
theorem ack_line (h : run (start mpuBegin ledPins) acts = some s) {p : Pass} (hp : p ∈ s.passes) :
    (p.noRecibido = true ↔ p.heard = [])
      ∧ (p.noRecibido = true → ∃ q, s.sent[p.idx]? = some q ∧ q.1 + 100 ≤ p.ended)
      ∧ ∀ ack ∈ p.heard, ∃ q, s.sent[ack.1]? = some q ∧ (ack.1, q.2.botones.map (!·)) ∈ s.shown
        ∧ (ack.1 = p.idx ∨ q.1 + 200 ≤ ack.2) := by
  have hcorrect := (inv_run h).passes p hp
  refine ⟨?_, hcorrect.timeout, ?_⟩
  · rw [hcorrect.noRecibido, List.isEmpty_iff]
  · intro ack hack
    obtain ⟨q, hshown, hown⟩ := hcorrect.heard ack hack
    exact ⟨q, hshown.1, hshown.2, hown⟩

theorem second_unanswered : ∃ (s : State) (q : Nat × Reading),
    run (start false (.replicate 4 false)) tresPasadas = some s ∧ s.sent[1]? = some q ∧ q.1 + 100 ≤ 309 := by
  obtain ⟨s, hs, hboth⟩ := Option.map_eq_some_iff.mp run_tresPasadas
  obtain ⟨-, hpasses⟩ := Prod.mk.inj hboth
  have hmem : (⟨1, 309, true, []⟩ : Pass) ∈ s.passes := by simp [hpasses]
  obtain ⟨-, htimeout, -⟩ := ack_line hs hmem
  obtain ⟨q, hq, hlate⟩ := htimeout rfl
  exact ⟨s, q, hs, hq, hlate⟩

/-! ## Where `mpu.begin()` succeeds -/

/-- `setup()` hangs and nothing is in flight. -/
structure Hung (s : State) : Prop where
  phase : s.phase = .hung
  callback : s.callback = .idle
  air : s.air = []
  acks : s.acks = []
  sent : s.sent = []

theorem Hung.act (h : Hung s) {a : Act} (hs : Delay.act s a = some s') : Hung s' := by
  cases a with
  | loop x => exact absurd hs (by simp [Delay.act, State.loop, h.phase])
  | callback => exact absurd hs (by simp [Delay.act, State.goOn, h.callback])
  | toReceptor k => exact absurd hs (by simp [Delay.act, h.air])
  | toEmisor k => exact absurd hs (by simp [Delay.act, h.acks])
  | dropMessage k =>
      obtain rfl := Option.some.inj hs
      exact { h with air := by simp [h.air] }
  | dropAck k =>
      obtain rfl := Option.some.inj hs
      exact { h with acks := by simp [h.acks] }

/-- The test never sends anything. -/
theorem nothing_sent (h : run (start true ledPins) acts = some s) : s.sent = [] := by
  refine Hung.sent (Steps.run_induction (P := fun _ s => Hung s) ⟨rfl, rfl, rfl, rfl, rfl⟩ ?_ h)
  intro acts a s s' hrun hhung hstep
  unfold step at hstep
  split_ifs at hstep with ht
  have hnow : Hung { s with now := a.1 } := ⟨hhung.phase, hhung.callback, hhung.air, hhung.acks, hhung.sent⟩
  exact hnow.act hstep

end GuitarraMidi.Delay
