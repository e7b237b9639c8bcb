import GuitarraMidi.EduCiaa.Correctness.SchedulerTime
import GuitarraMidi.TestLatency.MainLoop

/-!
# `TestLatency.Correctness.Strums` — the strums of a run and the history they make

A run is given by its passes, each with its true time and its packets; the program sees the time modulo `2^32`.
The strum detector does not depend on the queue, so a run has its strums (`strumsOf`), and with the
`midiSchedProcess` of every pass these make a history of scheduler calls (`historyOf`). The main loop is the
scheduler fed with that history (`main_run`).

Each event of the history carries the strum and the string it belongs to (`StrumEv`): its due time follows
from these.
-/

namespace GuitarraMidi.TestLatency

open Clock EduCiaa EduCiaa.ChordQuality Midi SlotTable TimerTable Transducer

/-- A pass with its true time. -/
abbrev Pass := Nat × List Packet

/-- The pass as the program sees it. -/
def ticked (x : Pass) : UInt32 × List Packet := (tick x.1, x.2)

/-- A strum: its true time, its chord and its velocity. -/
structure Strum where
  time : Nat
  chord : ButtonChord
  velocity : UInt8
deriving DecidableEq

/-- A note on or a note off of a strum: the `string`-th note of the strum at `time`. -/
structure StrumEv where
  time : Nat
  string : Nat
  type : EvType
  note : UInt8
  vel : UInt8
deriving DecidableEq, Repr

def StrumEv.due (e : StrumEv) : Nat :=
  e.time + e.string * strumGapMs + (match e.type with
    | .evOn => 0
    | .evOff => noteLenMs)

theorem StrumEv.due_of_on {e : StrumEv} (h : e.type = .evOn) : e.due = e.time + e.string * 10 := by
  rw [StrumEv.due, h]
  rfl

theorem StrumEv.due_of_off {e : StrumEv} (h : e.type = .evOff) : e.due = e.time + e.string * 10 + 180 := by
  rw [StrumEv.due, h]
  rfl

def StrumEv.timed (e : StrumEv) : TimedEv := ⟨e.due, e.type, midiCh, e.note, e.vel⟩

/-- The message of an event. -/
def StrumEv.message (e : StrumEv) : Message := e.timed.message

/-- The start and the end of a note of a strum. -/
def Strum.pair (s : Strum) (x : UInt8 × Nat) : StrumEv × StrumEv :=
  (⟨s.time, x.2, .evOn, x.1, s.velocity⟩, ⟨s.time, x.2, .evOff, x.1, midiVelocityOff⟩)

def Strum.pairs (s : Strum) : List (StrumEv × StrumEv) := (buildTriad s.chord).zipIdx.map s.pair

/-- The events of a strum, in the order they are scheduled. -/
def Strum.events (s : Strum) : List StrumEv := s.pairs.flatMap (fun p => [p.1, p.2])

/-! ## The detector -/

/-- What the detector makes of a packet in a pass at `t`. -/
def detectPacket (t : Nat) (d : Detector) (msg : Packet) : Detector × List Strum :=
  let currentChord := getChordFromButtons (obtenerValorBotones msg.botones)
  if currentChord.tipo ≠ chordNone then
    let r := detectStrum d msg.gz (tick t)
    (r.1, if r.2 then [⟨t, currentChord, velocityFromGz msg.gz⟩] else [])
  else (d, [])

/-- What the detector makes of a pass. -/
def detectPass (d : Detector) (x : Pass) : Detector × List Strum := blockStep (detectPacket x.1) d x.2

/-- The strums of a run. -/
def strumsOf (passes : List Pass) : List Strum := emit detectPass Detector.start passes

/-- The scheduler calls of a pass. -/
def callsOfPass (d : Detector) (x : Pass) : Detector × List (Nat × Call StrumEv) :=
  ((detectPass d x).1, (x.1, .poll) :: ((detectPass d x).2.flatMap Strum.events).map (fun e => (x.1, .schedule e)))

/-- The scheduler calls of a run. -/
def historyOf (passes : List Pass) : History StrumEv := emit callsOfPass Detector.start passes

/-- The call the program makes. -/
def codeCall (x : Nat × Call StrumEv) : SchedCall := callOf (viewCall StrumEv.timed x)

/-! ## The main loop as the scheduler fed with the history -/

/-- The call to `strumChord` of a strum. -/
def Strum.call (s : Strum) : ButtonChord × UInt8 × UInt32 := (s.chord, s.velocity, tick s.time)

/-- The scheduler calls of a packet. -/
def callsOfPacket (t : Nat) (d : Detector) (msg : Packet) : Detector × List (Nat × Call StrumEv) :=
  ((detectPacket t d msg).1, (detectPacket t d msg).2.flatMap (fun s => s.events.map (fun e => (t, .schedule e))))

/-- The scheduler, taking the calls of a history. -/
def schedHistory (q : Queue) (x : Nat × Call StrumEv) : Queue × List SchedOutput := schedCall q (codeCall x)

theorem schedHistory_run (q : Queue) (h : History StrumEv) :
    finish schedHistory q h = finish schedCall q (h.map codeCall)
      ∧ emit schedHistory q h = emit schedCall q (h.map codeCall) :=
  ⟨finish_comp codeCall q h, emit_comp codeCall q h⟩

/-- The two parts of the state of the loop. -/
def Main.parts (s : Main) : Detector × Queue := (s.det, s.q)

theorem tick_due_on (t i : Nat) : tick (t + i * strumGapMs) = tick t + UInt32.ofNat i * UInt32.ofNat strumGapMs := by
  rw [tick_add, UInt32.ofNat_mul]

/-- `strumChord` makes the calls of the events of the strum. -/
theorem strumCalls_eq (s : Strum) :
    strumCalls s.chord s.velocity (tick s.time)
      = (s.events.map (fun e => (s.time, Call.schedule e))).map codeCall := by
  unfold strumCalls Strum.events Strum.pairs
  rw [List.flatMap_map, List.map_flatMap, List.map_flatMap]
  apply List.flatMap_congr
  rintro ⟨note, i⟩ -
  have hon : tick (s.time + i * strumGapMs + 0) = tick s.time + UInt32.ofNat i * UInt32.ofNat strumGapMs :=
    tick_due_on s.time i
  have hoff : tick (s.time + i * strumGapMs + noteLenMs)
      = tick s.time + UInt32.ofNat i * UInt32.ofNat strumGapMs + UInt32.ofNat noteLenMs := by
    rw [tick_add, tick_due_on]
  show [SchedCall.noteOn _ _ _ _, SchedCall.noteOff _ _ _ _] = [codeCall _, codeCall _]
  rw [← hoff, ← hon]
  rfl

theorem filterMap_sched (os : List SchedOutput) : (os.map MainOutput.sched).filterMap MainOutput.sched? = os := by
  rw [List.filterMap_map]
  exact List.filterMap_some

theorem filterMap_strum_sched (os : List SchedOutput) :
    (os.map MainOutput.sched).filterMap MainOutput.strum? = [] := by
  rw [List.filterMap_map]
  exact List.filterMap_eq_nil_iff.mpr (fun _ _ => rfl)

/-- The chord a packet selects. -/
def Packet.chord (msg : Packet) : ButtonChord := getChordFromButtons (obtenerValorBotones msg.botones)

section Cases

variable {t : Nat} {d : Detector} {q : Queue} {msg : Packet}

theorem detectPacket_of_none (h : msg.chord.tipo = chordNone) : detectPacket t d msg = (d, []) :=
  if_neg (not_not.mpr h)

theorem detectPacket_of_chord (h : msg.chord.tipo ≠ chordNone) :
    detectPacket t d msg = ((detectStrum d msg.gz (tick t)).1,
      if (detectStrum d msg.gz (tick t)).2 then [⟨t, msg.chord, velocityFromGz msg.gz⟩] else []) := if_pos h

theorem handlePacket_of_none (h : msg.chord.tipo = chordNone) : handlePacket (tick t) ⟨d, q⟩ msg = (⟨d, q⟩, []) :=
  if_neg (not_not.mpr h)

theorem handlePacket_of_chord (h : msg.chord.tipo ≠ chordNone) :
    handlePacket (tick t) ⟨d, q⟩ msg =
      if (detectStrum d msg.gz (tick t)).2 then
        (⟨(detectStrum d msg.gz (tick t)).1, (strumChord q (some msg.chord) (velocityFromGz msg.gz) (tick t)).1⟩,
          .strum msg.chord (velocityFromGz msg.gz) (tick t)
            :: (strumChord q (some msg.chord) (velocityFromGz msg.gz) (tick t)).2.map .sched)
      else (⟨(detectStrum d msg.gz (tick t)).1, q⟩, []) := if_pos h

theorem strumChord_of_chord {chord : ButtonChord} (h : chord.tipo ≠ chordNone) (velocity : UInt8) (now_ms : UInt32) :
    strumChord q (some chord) velocity now_ms = blockStep schedCall q (strumCalls chord velocity now_ms) := if_neg h

end Cases

/-- What `main` does with a packet: the detector, then the scheduler. -/
theorem handlePacket_eq (t : Nat) (s : Main) (msg : Packet) :
    (handlePacket (tick t) s msg).1.parts = (cascade (callsOfPacket t) schedHistory s.parts msg).1
      ∧ (handlePacket (tick t) s msg).2.filterMap MainOutput.sched?
        = (cascade (callsOfPacket t) schedHistory s.parts msg).2
      ∧ (handlePacket (tick t) s msg).2.filterMap MainOutput.strum?
        = (detectPacket t s.det msg).2.map Strum.call := by
  obtain ⟨d, q⟩ := s
  show _ = ((callsOfPacket t d msg).1, finish schedHistory q (callsOfPacket t d msg).2)
    ∧ _ = emit schedHistory q (callsOfPacket t d msg).2 ∧ _
  unfold callsOfPacket
  by_cases hchord : msg.chord.tipo = chordNone
  · rw [handlePacket_of_none hchord, detectPacket_of_none hchord]
    exact ⟨rfl, rfl, rfl⟩
  · cases hevent : (detectStrum d msg.gz (tick t)).2 with
    | false =>
        rw [handlePacket_of_chord hchord, detectPacket_of_chord hchord, hevent, if_neg Bool.false_ne_true,
          if_neg Bool.false_ne_true]
        exact ⟨rfl, rfl, rfl⟩
    | true =>
        -- the calls of the strum are those `strumChord` makes
        have hcalls := strumCalls_eq ⟨t, msg.chord, velocityFromGz msg.gz⟩
        have hrun := schedHistory_run q
          ((Strum.events ⟨t, msg.chord, velocityFromGz msg.gz⟩).map (fun e => (t, Call.schedule e)))
        rw [← hcalls] at hrun
        rw [handlePacket_of_chord hchord, detectPacket_of_chord hchord, hevent, if_pos rfl, if_pos rfl,
          strumChord_of_chord hchord, List.flatMap_singleton, List.filterMap_cons, List.filterMap_cons,
          filterMap_sched, filterMap_strum_sched, hrun.1, hrun.2]
        exact ⟨rfl, rfl, rfl⟩

theorem callsOfPacket_run (t : Nat) (d : Detector) (packets : List Packet) :
    finish (callsOfPacket t) d packets = (detectPass d (t, packets)).1
      ∧ emit (callsOfPacket t) d packets
        = ((detectPass d (t, packets)).2.flatMap Strum.events).map (fun e => (t, .schedule e)) := by
  have hsim : ∀ d d' : Detector, ∀ msg : Packet, d = d' →
      (callsOfPacket t d msg).1 = (detectPacket t d' (id msg)).1
        ∧ (callsOfPacket t d msg).2
          = (detectPacket t d' (id msg)).2.flatMap (fun s => s.events.map (fun e => (t, .schedule e))) := by
    rintro d _ msg rfl
    exact ⟨rfl, rfl⟩
  have hrun := simulate_flatMap (fun d d' : Detector => d = d') id _ hsim (rfl : d = d) packets
  rw [List.map_id] at hrun
  rw [List.map_flatMap]
  exact hrun

/-- What `main` does with the packets of a pass. -/
theorem drain_eq (t : Nat) (s : Main) (packets : List Packet) :
    (finish (handlePacket (tick t)) s packets).parts
        = (finish (callsOfPacket t) s.det packets, finish schedHistory s.q (emit (callsOfPacket t) s.det packets))
      ∧ (emit (handlePacket (tick t)) s packets).filterMap MainOutput.sched?
        = emit schedHistory s.q (emit (callsOfPacket t) s.det packets)
      ∧ (emit (handlePacket (tick t)) s packets).filterMap MainOutput.strum?
        = (emit (detectPacket t) s.det packets).map Strum.call := by
  obtain ⟨hparts, hsched⟩ := simulate_cascade Main.parts MainOutput.sched?
    (fun s msg => ⟨(handlePacket_eq t s msg).1, (handlePacket_eq t s msg).2.1⟩) s packets
  refine ⟨hparts, hsched, ?_⟩
  have hsim : ∀ (s : Main) (d : Detector) (msg : Packet), s.det = d →
      (observe MainOutput.strum? (handlePacket (tick t)) s msg).1.det = (detectPacket t d (id msg)).1
        ∧ (observe MainOutput.strum? (handlePacket (tick t)) s msg).2
          = (detectPacket t d (id msg)).2.map Strum.call := by
    rintro s _ msg rfl
    obtain ⟨hstate, -, hstrum⟩ := handlePacket_eq t s msg
    exact ⟨congrArg Prod.fst hstate, hstrum⟩
  have hrun := (simulate (fun (s : Main) d => s.det = d) id Strum.call hsim (rfl : s.det = s.det) packets).2
  rw [emit_observe, List.map_id] at hrun
  exact hrun

/-- What `main` does in a pass: `midiSchedProcess`, then the calls of the strums. -/
theorem mainPass_eq (s : Main) (x : Pass) :
    (mainPass s (ticked x)).1.parts = (cascade callsOfPass schedHistory s.parts x).1
      ∧ (mainPass s (ticked x)).2.filterMap MainOutput.sched? = (cascade callsOfPass schedHistory s.parts x).2
      ∧ (mainPass s (ticked x)).2.filterMap MainOutput.strum? = (detectPass s.det x).2.map Strum.call := by
  obtain ⟨t, packets⟩ := x
  obtain ⟨hparts, hsched, hstrum⟩ := drain_eq t ⟨s.det, (schedCall s.q (.process (tick t))).1⟩ packets
  obtain ⟨hfin, hcalls⟩ := callsOfPacket_run t s.det packets
  have hcascade : cascade callsOfPass schedHistory s.parts (t, packets)
      = (((detectPass s.det (t, packets)).1,
            finish schedHistory (schedCall s.q (.process (tick t))).1 (emit (callsOfPacket t) s.det packets)),
          (schedCall s.q (.process (tick t))).2
            ++ emit schedHistory (schedCall s.q (.process (tick t))).1 (emit (callsOfPacket t) s.det packets)) := by
    rw [hcalls]
    rfl
  have hpass : mainPass s (ticked (t, packets))
      = (finish (handlePacket (tick t)) ⟨s.det, (schedCall s.q (.process (tick t))).1⟩ packets,
          (schedCall s.q (.process (tick t))).2.map .sched
            ++ emit (handlePacket (tick t)) ⟨s.det, (schedCall s.q (.process (tick t))).1⟩ packets) := rfl
  rw [hcascade, hpass, List.filterMap_append, List.filterMap_append, filterMap_sched, filterMap_strum_sched, hparts,
    hsched, hstrum, hfin]
  exact ⟨rfl, rfl, rfl⟩

/-- **A run of `main` is a run of the scheduler on the history of the run**, and calls `strumChord` for its
    strums. -/
theorem main_run (q₀ : Queue) (passes : List Pass) :
    (finish mainPass (mainStart q₀) (passes.map ticked)).q
        = queueAfter q₀ ((historyOf passes).map (viewCall StrumEv.timed))
      ∧ (emit mainPass (mainStart q₀) (passes.map ticked)).filterMap MainOutput.sched?
        = emit schedCall (midiSchedInit q₀) ((historyOf passes).map codeCall)
      ∧ (emit mainPass (mainStart q₀) (passes.map ticked)).filterMap MainOutput.strum?
        = (strumsOf passes).map Strum.call := by
  rw [← finish_comp ticked, ← emit_comp ticked]
  obtain ⟨hparts, hsched⟩ := simulate_cascade Main.parts MainOutput.sched?
    (fun s x => ⟨(mainPass_eq s x).1, (mainPass_eq s x).2.1⟩) (mainStart q₀) passes
  refine ⟨?_, ?_, ?_⟩
  · have hq := congrArg Prod.snd hparts
    rw [queueAfter, List.map_map]
    exact hq.trans (schedHistory_run _ _).1
  · rw [hsched]
    exact (schedHistory_run _ _).2
  · have hsim : ∀ (s : Main) (d : Detector) (x : Pass), s.det = d →
        (observe MainOutput.strum? (fun s x => mainPass s (ticked x)) s x).1.det = (detectPass d (id x)).1
          ∧ (observe MainOutput.strum? (fun s x => mainPass s (ticked x)) s x).2
            = (detectPass d (id x)).2.map Strum.call := by
      rintro s _ x rfl
      obtain ⟨hstate, -, hstrum⟩ := mainPass_eq s x
      exact ⟨congrArg Prod.fst hstate, hstrum⟩
    have hrun := (simulate (fun (s : Main) d => s.det = d) id Strum.call hsim
      (rfl : (mainStart q₀).det = Detector.start) passes).2
    rw [emit_observe, List.map_id] at hrun
    exact hrun

end GuitarraMidi.TestLatency
