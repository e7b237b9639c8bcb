import GuitarraMidi.TestLatency.Correctness.Strums
import GuitarraMidi.TestLatency.Emisor
import Mathlib.Tactic.NormNum

/-!
# `TestLatency.Correctness.PulseLoss` — the loss of one packet of a strum

The detector on the EDU-CIAA fires on the rise of `gz`, so after a strum it waits for the packet that brings `gz`
back to rest. A peak that is lost costs its own strum; a return to rest that is lost leaves the detector up, and
costs the strum after it (`pulse_loss`). The strum the lost packet belonged to has then been played already.

The strums of a run depend only on the packets that arrive and on their readings (`strums_of_arrivals`), however
they are spread over the passes.
-/

namespace GuitarraMidi.TestLatency

open Clock EduCiaa EduCiaa.ChordQuality Transducer

/-- The packets of a run, each with the reading it is processed with. -/
def arrivals (passes : List Pass) : List (UInt32 × Packet) :=
  passes.flatMap (fun x => x.2.map (fun msg => (tick x.1, msg)))

/-- What the detector makes of a packet, as calls to `strumChord`. -/
def detectArrival (d : Detector) (a : UInt32 × Packet) : Detector × List (ButtonChord × UInt8 × UInt32) :=
  if a.2.chord.tipo ≠ chordNone then
    let r := detectStrum d a.2.gz a.1
    (r.1, if r.2 then [(a.2.chord, velocityFromGz a.2.gz, a.1)] else [])
  else (d, [])

theorem detectPacket_arrival (t : Nat) (d : Detector) (msg : Packet) :
    (detectPacket t d msg).1 = (detectArrival d (tick t, msg)).1
      ∧ (detectPacket t d msg).2.map Strum.call = (detectArrival d (tick t, msg)).2 := by
  unfold detectArrival
  by_cases hchord : msg.chord.tipo = chordNone
  · rw [detectPacket_of_none hchord, if_neg (not_not.mpr hchord)]
    exact ⟨rfl, rfl⟩
  · rw [detectPacket_of_chord hchord, if_pos hchord]
    cases hevent : (detectStrum d msg.gz (tick t)).2 with
    | false => exact ⟨rfl, by rw [if_neg Bool.false_ne_true]; simp [hevent]⟩
    | true => exact ⟨rfl, by rw [if_pos rfl]; simp [hevent, Strum.call]⟩

/-- **The strums of a run are those of its packets**, one after the other. -/
theorem strums_of_arrivals (q₀ : Queue) (passes : List Pass) :
    (emit mainPass (mainStart q₀) (passes.map ticked)).filterMap MainOutput.strum?
      = emit detectArrival Detector.start (arrivals passes) := by
  have hpass : ∀ (t : Nat) (d : Detector) (packets : List Packet),
      finish (detectPacket t) d packets = finish detectArrival d (packets.map (fun msg => (tick t, msg)))
        ∧ (emit (detectPacket t) d packets).map Strum.call
          = emit detectArrival d (packets.map (fun msg => (tick t, msg))) := by
    intro t d packets
    induction packets generalizing d with
    | nil => exact ⟨rfl, rfl⟩
    | cons msg packets ih =>
        obtain ⟨hstate, hout⟩ := detectPacket_arrival t d msg
        obtain ⟨hfin, hrest⟩ := ih (detectPacket t d msg).1
        rw [List.map_cons, finish_cons, finish_cons, emit_cons, emit_cons, List.map_append, hfin, hrest, hout, hstate]
        exact ⟨rfl, rfl⟩
  have hrun : ∀ d : Detector, (emit detectPass d passes).map Strum.call = emit detectArrival d (arrivals passes) := by
    intro d
    induction passes generalizing d with
    | nil => rfl
    | cons x passes ih =>
        obtain ⟨hfin, hout⟩ := hpass x.1 d x.2
        have hsplit : arrivals (x :: passes) = x.2.map (fun msg => (tick x.1, msg)) ++ arrivals passes := rfl
        rw [hsplit, emit_append, emit_cons, List.map_append, ih, ← hout, ← hfin]
        rfl
  rw [(main_run q₀ passes).2.2]
  exact hrun Detector.start

/-! ## The two packets of a strum -/

/-- The call to `strumChord` for a strum. -/
def Pulse.call (p : Pulse) : ButtonChord × UInt8 × UInt32 := (p.chord, velocityFromGz 500, p.peakAt)

theorem detectArrival_of_chord {d : Detector} {a : UInt32 × Packet} (h : a.2.chord.tipo ≠ chordNone) :
    detectArrival d a
      = (⟨if isStrum d a.2.gz a.1 then a.1 else d.lastStrumMs, decide (a.2.gz > strumTh)⟩,
          if isStrum d a.2.gz a.1 then [(a.2.chord, velocityFromGz a.2.gz, a.1)] else []) := by
  rw [detectArrival, if_pos h, detectStrum_eq]

theorem peak_above (p : Pulse) : decide (p.peak.2.gz > strumTh) = true :=
  decide_eq_true (show strumTh < 500 by norm_num [strumTh])

theorem rest_below (p : Pulse) : decide (p.rest.2.gz > strumTh) = false :=
  decide_eq_false (show ¬ strumTh < 0 by norm_num [strumTh])

/-- A peak, while the detector is down and the cooldown is over. -/
theorem peak_heard {p : Pulse} (hchord : p.chord.tipo ≠ chordNone) {last : UInt32}
    (hcool : strumCooldown < p.peakAt - last) :
    detectArrival ⟨last, false⟩ p.peak = (⟨p.peakAt, true⟩, [p.call]) := by
  have hstrum : isStrum ⟨last, false⟩ p.peak.2.gz p.peak.1 = true := by
    rw [isStrum, peak_above, show p.peak.1 = p.peakAt from rfl, decide_eq_true hcool]
    rfl
  rw [detectArrival_of_chord (show p.peak.2.chord.tipo ≠ chordNone from hchord), hstrum, if_pos rfl, if_pos rfl,
    peak_above]
  rfl

/-- A peak, while the detector is up. -/
theorem peak_missed {p : Pulse} (hchord : p.chord.tipo ≠ chordNone) (last : UInt32) :
    detectArrival ⟨last, true⟩ p.peak = (⟨last, true⟩, []) := by
  have hstrum : isStrum ⟨last, true⟩ p.peak.2.gz p.peak.1 = false := by
    rw [isStrum, Bool.not_true, Bool.false_and, Bool.false_and]
  rw [detectArrival_of_chord (show p.peak.2.chord.tipo ≠ chordNone from hchord), hstrum,
    if_neg Bool.false_ne_true, if_neg Bool.false_ne_true, peak_above]

/-- A return to rest takes the detector down. -/
theorem rest_lowers {p : Pulse} (hchord : p.chord.tipo ≠ chordNone) (last : UInt32) (above : Bool) :
    detectArrival ⟨last, above⟩ p.rest = (⟨last, false⟩, []) := by
  have hstrum : isStrum ⟨last, above⟩ p.rest.2.gz p.rest.1 = false := by
    rw [isStrum, rest_below, Bool.and_false, Bool.false_and]
  rw [detectArrival_of_chord (show p.rest.2.chord.tipo ≠ chordNone from hchord), hstrum,
    if_neg Bool.false_ne_true, if_neg Bool.false_ne_true, rest_below]

/-! ## Sequences of strums -/

/-- Readings of peaks, each more than the cooldown after the one before, on the 32-bit clock; `last` is before the
    first. -/
def Spaced (last : UInt32) (ps : List Pulse) : Prop :=
  (last :: ps.map Pulse.peakAt).IsChain (fun r r' => strumCooldown < r' - r)

/-- Each is more than the cooldown after the two before it. -/
def Apart (last : UInt32) : List Pulse → Prop
  | [] => True
  | p :: ps => strumCooldown < p.peakAt - last ∧ (∀ q ∈ ps.head?, strumCooldown < q.peakAt - last) ∧ Apart p.peakAt ps

theorem Spaced.cons {last : UInt32} {p : Pulse} {ps : List Pulse} (hcool : strumCooldown < p.peakAt - last)
    (h : Spaced p.peakAt ps) : Spaced last (p :: ps) := List.isChain_cons_cons.mpr ⟨hcool, h⟩

theorem Apart.head {last : UInt32} {p : Pulse} {ps : List Pulse} (h : Apart last (p :: ps)) :
    strumCooldown < p.peakAt - last := h.1

theorem Apart.tail {last : UInt32} {p : Pulse} {ps : List Pulse} (h : Apart last (p :: ps)) : Apart p.peakAt ps := h.2.2

theorem Apart.spaced {last : UInt32} {ps : List Pulse} (h : Apart last ps) : Spaced last ps := by
  induction ps generalizing last with
  | nil => exact List.isChain_singleton last
  | cons p ps ih => exact Spaced.cons h.head (ih h.tail)

/-- Leaving a strum out leaves the others one after the other. -/
theorem Apart.skip {last : UInt32} {p : Pulse} {ps : List Pulse} (h : Apart last (p :: ps)) : Spaced last ps := by
  cases ps with
  | nil => exact List.isChain_singleton last
  | cons q ps => exact Spaced.cons (h.2.1 q rfl) h.tail.tail.spaced

/-- A strum that arrives whole is played, and leaves the detector down. -/
theorem whole_strum {last : UInt32} {p : Pulse} (hchord : p.chord.tipo ≠ chordNone)
    (hcool : strumCooldown < p.peakAt - last) (before : List Pulse) (rest : List (UInt32 × Packet)) :
    emit detectArrival ⟨last, false⟩ ((p :: before).flatMap Pulse.packets ++ rest)
      = p.call :: emit detectArrival ⟨p.peakAt, false⟩ (before.flatMap Pulse.packets ++ rest) := by
  have hpackets : (p :: before).flatMap Pulse.packets ++ rest
      = p.peak :: p.rest :: (before.flatMap Pulse.packets ++ rest) := rfl
  rw [hpackets, emit_cons, peak_heard hchord hcool, emit_cons, rest_lowers hchord]
  rfl

/-- **Without loss every strum is played.** -/
theorem intact_run {last : UInt32} {ps : List Pulse} (hchord : ∀ p ∈ ps, p.chord.tipo ≠ chordNone)
    (h : Spaced last ps) : emit detectArrival ⟨last, false⟩ (ps.flatMap Pulse.packets) = ps.map Pulse.call := by
  induction ps generalizing last with
  | nil => rfl
  | cons p ps ih =>
      obtain ⟨hcool, hrest⟩ := List.isChain_cons_cons.mp h
      have hwhole := whole_strum (hchord p List.mem_cons_self) hcool ps []
      rw [List.append_nil, List.append_nil] at hwhole
      rw [hwhole, ih (fun q hq => hchord q (List.mem_cons_of_mem p hq)) hrest]
      rfl

/-- **A lost peak costs its own strum.** -/
theorem run_without_peak {last : UInt32} {before after : List Pulse} {p : Pulse}
    (hchord : ∀ q ∈ before ++ p :: after, q.chord.tipo ≠ chordNone) (h : Apart last (before ++ p :: after)) :
    emit detectArrival ⟨last, false⟩ (before.flatMap Pulse.packets ++ p.rest :: after.flatMap Pulse.packets)
      = (before ++ after).map Pulse.call := by
  induction before generalizing last with
  | nil =>
      rw [List.flatMap_nil, List.nil_append, emit_cons, rest_lowers (hchord p List.mem_cons_self)]
      exact intact_run (fun q hq => hchord q (List.mem_cons_of_mem p hq)) h.skip
  | cons b before ih =>
      rw [whole_strum (hchord b List.mem_cons_self) h.head,
        ih (fun q hq => hchord q (List.mem_cons_of_mem b hq)) h.tail]
      rfl

/-- **A lost return to rest costs the next strum.** -/
theorem run_without_rest {last : UInt32} {before after : List Pulse} {p : Pulse}
    (hchord : ∀ q ∈ before ++ p :: after, q.chord.tipo ≠ chordNone) (h : Apart last (before ++ p :: after)) :
    emit detectArrival ⟨last, false⟩ (before.flatMap Pulse.packets ++ p.peak :: after.flatMap Pulse.packets)
      = (before ++ p :: after.tail).map Pulse.call := by
  induction before generalizing last with
  | nil =>
      rw [List.flatMap_nil, List.nil_append, emit_cons, peak_heard (hchord p List.mem_cons_self) (Apart.head h)]
      cases after with
      | nil => rfl
      | cons q after =>
          -- the next peak finds the detector up, and its own return to rest takes it down
          have hq := hchord q (List.mem_cons_of_mem p List.mem_cons_self)
          have hafter : Spaced p.peakAt after := (Apart.tail h).skip
          have hpackets : (q :: after).flatMap Pulse.packets = q.peak :: q.rest :: after.flatMap Pulse.packets := rfl
          rw [hpackets, emit_cons, peak_missed hq, emit_cons, rest_lowers hq,
            intact_run (fun r hr => hchord r (by simp [hr])) hafter]
          rfl
  | cons b before ih =>
      rw [whole_strum (hchord b List.mem_cons_self) h.head,
        ih (fun q hq => hchord q (List.mem_cons_of_mem b hq)) h.tail]
      rfl

/-- **The loss of one packet costs one strum**: its own if it is a peak, and the next one, if there is any, if it
    is a return to rest. All others are played, each once and at the reading of its peak. -/
theorem pulse_loss (q₀ : Queue) (before after : List Pulse) (p : Pulse)
    (hchord : ∀ q ∈ before ++ p :: after, q.chord.tipo ≠ chordNone) (h : Apart 0 (before ++ p :: after))
    (passes : List Pass) :
    (arrivals passes = before.flatMap Pulse.packets ++ p.rest :: after.flatMap Pulse.packets →
        (emit mainPass (mainStart q₀) (passes.map ticked)).filterMap MainOutput.strum?
          = (before ++ after).map Pulse.call)
      ∧ (arrivals passes = before.flatMap Pulse.packets ++ p.peak :: after.flatMap Pulse.packets →
        (emit mainPass (mainStart q₀) (passes.map ticked)).filterMap MainOutput.strum?
          = (before ++ p :: after.tail).map Pulse.call) := by
  rw [strums_of_arrivals]
  constructor
  · intro harrive
    rw [harrive]
    exact run_without_peak hchord h
  · intro harrive
    rw [harrive]
    exact run_without_rest hchord h

/-! ## Three strums -/

/-- DO menor, RE menor and MI menor, 200 ms apart. -/
def threePulses : List Pulse := [⟨2, 1000, 1005⟩, ⟨4, 1200, 1205⟩, ⟨6, 1400, 1405⟩]

theorem threePulses_ok : (∀ q ∈ threePulses, q.chord.tipo ≠ chordNone) ∧ Apart 0 threePulses := by
  constructor
  · decide +kernel
  · simp [threePulses, Apart, strumCooldown]

/-- Without the peak of the second, the other two are played. -/
theorem pulse_loss_peak :
    let passes : List Pass := [(1000, [sendPacket 2 500]), (1005, [sendPacket 2 0]), (1205, [sendPacket 4 0]),
      (1400, [sendPacket 6 500]), (1405, [sendPacket 6 0])]
    (emit mainPass (mainStart (Vector.replicate qSize (eventOf .evOn 0 0 0 0))) (passes.map ticked)).filterMap
        MainOutput.strum?
      = [Pulse.call ⟨2, 1000, 1005⟩, Pulse.call ⟨6, 1400, 1405⟩] := by
  intro passes
  exact (pulse_loss _ [⟨2, 1000, 1005⟩] [⟨6, 1400, 1405⟩] ⟨4, 1200, 1205⟩ threePulses_ok.1 threePulses_ok.2
    passes).1 rfl

/-- **Without the return to rest of the second, the third is not played**, though none of its packets is lost. -/
theorem lost_rest_mutes_next :
    let passes : List Pass := [(1000, [sendPacket 2 500]), (1005, [sendPacket 2 0]), (1200, [sendPacket 4 500]),
      (1400, [sendPacket 6 500]), (1405, [sendPacket 6 0])]
    let calls := (emit mainPass (mainStart (Vector.replicate qSize (eventOf .evOn 0 0 0 0)))
      (passes.map ticked)).filterMap MainOutput.strum?
    (∀ q ∈ threePulses, q.chord.tipo ≠ chordNone) ∧ Apart 0 threePulses
      ∧ arrivals passes = (threePulses.flatMap Pulse.packets).eraseIdx 3
      ∧ calls = [Pulse.call ⟨2, 1000, 1005⟩, Pulse.call ⟨4, 1200, 1205⟩]
      ∧ Pulse.call ⟨6, 1400, 1405⟩ ∉ calls := by
  intro passes calls
  have hcalls : calls = [Pulse.call ⟨2, 1000, 1005⟩, Pulse.call ⟨4, 1200, 1205⟩] :=
    (strums_of_arrivals _ passes).trans
      (@run_without_rest 0 [⟨2, 1000, 1005⟩] [⟨6, 1400, 1405⟩] ⟨4, 1200, 1205⟩ threePulses_ok.1 threePulses_ok.2)
  refine ⟨threePulses_ok.1, threePulses_ok.2, rfl, hcalls, ?_⟩
  rw [hcalls]
  intro hmem
  -- the calls are at other readings
  have hread := List.mem_map_of_mem (f := fun c => c.2.2) hmem
  exact absurd hread (by decide)

end GuitarraMidi.TestLatency
