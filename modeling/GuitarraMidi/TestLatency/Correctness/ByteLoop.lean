import GuitarraMidi.TestLatency.Correctness.Velocity

/-!
# `TestLatency.Correctness.ByteLoop` — the program on bytes is the loop on packets

`main` reads bytes and computes with `gz` in `float`; the loop of `TestLatency.MainLoop` is given packets and computes
with numbers. The first is the second, fed with the packets that the receive loop decodes in each pass (`program_run`):
its comparison is that of the numbers, and where it computes a velocity both give 127, on the board, with the conversion
`vcvt`. Over a run the packets are those that the batch parser finds in all the bytes, wherever the passes cut them.
-/

namespace GuitarraMidi.TestLatency

open Binary32 EduCiaa EduCiaa.ChordQuality Framing Transducer

/-- What the loop on packets sees of a message. -/
def packetOf (m : ImuMessage) : Packet := ⟨m.botones, gzValue m.gz⟩

/-- The packet of an event, when there is one. -/
def Program.RxEvent.packet? : Program.RxEvent → Option Packet
  | .checksumError => none
  | .packet msg => some (packetOf msg)

/-- The receive loop, with the packets it decodes. -/
def decodeByte : Program.Rx → UInt8 → Program.Rx × List Packet := observe Program.RxEvent.packet? Program.rxByte

/-- The receive loop over a pass. -/
def decodePass (rx : Program.Rx) (x : UInt32 × List UInt8) : Program.Rx × List (UInt32 × List Packet) :=
  (finish decodeByte rx x.2, [(x.1, emit decodeByte rx x.2)])

/-! ## A packet -/

theorem detectStrum_float (d : Detector) (w : UInt32) (now_ms : UInt32) :
    Program.detectStrum d (Program.float w) now_ms = detectStrum d (gzValue w) now_ms := by
  have habove : decide (Program.th < Program.float w) = decide (gzValue w > strumTh) :=
    decide_eq_decide.mpr (th_lt_iff w)
  unfold Program.detectStrum detectStrum
  rw [habove]

/-- A strum is detected only above the threshold. -/
theorem above_of_event {d : Detector} {gz : ℚ} {now_ms : UInt32} (h : (detectStrum d gz now_ms).2 = true) :
    gz > strumTh := by
  rw [detectStrum_eq] at h
  unfold isStrum at h
  rw [Bool.and_eq_true, Bool.and_eq_true, decide_eq_true_eq] at h
  exact h.1.2

/-- **For every bit pattern of `gz`, the detector in `float` does what it does with the number**, and the velocity of a
    strum it reports is 127: with the number, with the conversion of the board, which is one that C allows, and below
    `2 ^ 33` with any that C allows. -/
theorem float_strum (d : Detector) (w : UInt32) (now_ms : UInt32) :
    Truncates Program.vcvt
      ∧ Program.detectStrum d (Program.float w) now_ms = detectStrum d (gzValue w) now_ms
      ∧ ((Program.detectStrum d (Program.float w) now_ms).2 = true →
          velocityFromGz (gzValue w) = 127
            ∧ Program.velocityWith Program.vcvt (Program.float w) = 127
            ∧ ∀ toInt, Truncates toInt → gzValue w < 2 ^ 33 → Program.velocityWith toInt (Program.float w) = 127) := by
  refine ⟨truncates_toInt32, detectStrum_float d w now_ms, fun h => ?_⟩
  rw [detectStrum_float] at h
  have habove := above_of_event h
  have hth := (th_lt_iff w).mpr habove
  exact ⟨velocityFromGz_of_gt habove, velocityFromGz_above hth, fun toInt htoInt hw => velocityWith_above htoInt hth hw⟩

theorem handlePacket_float (now : UInt32) (s : Main) (msg : ImuMessage) :
    Program.handlePacket now s msg = handlePacket now s (packetOf msg) := by
  have hbotones : (packetOf msg).botones = msg.botones := rfl
  have hgz : (packetOf msg).gz = gzValue msg.gz := rfl
  unfold Program.handlePacket handlePacket
  simp only [detectStrum_float, hbotones, hgz]
  by_cases hchord : (getChordFromButtons (obtenerValorBotones msg.botones)).tipo = chordNone
  · rw [if_neg (not_not.mpr hchord), if_neg (not_not.mpr hchord)]
  · rw [if_pos hchord, if_pos hchord]
    cases hevent : (detectStrum s.det (gzValue msg.gz) now).2 with
    | false => rfl
    | true =>
        -- above the threshold the two velocities are 127
        have habove := above_of_event hevent
        have hvel : Program.velocityFromGz (Program.float msg.gz) = velocityFromGz (gzValue msg.gz) := by
          rw [velocityFromGz_above ((th_lt_iff msg.gz).mpr habove), velocityFromGz_of_gt habove]
        rw [hvel]

/-! ## A byte -/

/-- The two parts of the variables that the loop on packets has as well. -/
def Program.State.parts (s : Program.State) : Program.Rx × Main := (s.rx, s.main)

theorem handleEvent_parts (now : UInt32) (s : Program.State) (e : Program.RxEvent) :
    (Program.handleEvent now s e).1.parts = (s.rx, finish (handlePacket now) s.main e.packet?.toList)
      ∧ (Program.handleEvent now s e).2.filterMap Program.Output.main?
        = emit (handlePacket now) s.main e.packet?.toList := by
  cases e with
  | checksumError =>
      unfold Program.handleEvent
      dsimp only
      split
      · exact ⟨rfl, rfl⟩
      · exact ⟨rfl, rfl⟩
  | packet msg =>
      have hout : ((Program.handlePacket now s.main msg).2.map Program.Output.main).filterMap Program.Output.main?
          = (Program.handlePacket now s.main msg).2 := by
        rw [List.filterMap_map]
        exact List.filterMap_some
      have hevent : Program.handleEvent now s (.packet msg)
          = ({ s with main := (Program.handlePacket now s.main msg).1 },
              (Program.handlePacket now s.main msg).2.map .main) := rfl
      rw [hevent, hout, handlePacket_float]
      exact ⟨rfl, (List.append_nil _).symm⟩

theorem handleEvents_parts (now : UInt32) (s : Program.State) (events : List Program.RxEvent) :
    (finish (Program.handleEvent now) s events).parts
        = (s.rx, finish (handlePacket now) s.main (events.filterMap Program.RxEvent.packet?))
      ∧ (emit (Program.handleEvent now) s events).filterMap Program.Output.main?
        = emit (handlePacket now) s.main (events.filterMap Program.RxEvent.packet?) := by
  induction events generalizing s with
  | nil => exact ⟨rfl, rfl⟩
  | cons e events ih =>
      obtain ⟨hparts, hout⟩ := handleEvent_parts now s e
      obtain ⟨hfin, hemit⟩ := ih (Program.handleEvent now s e).1
      have hrx : (Program.handleEvent now s e).1.rx = s.rx := congrArg Prod.fst hparts
      have hmain : (Program.handleEvent now s e).1.main = finish (handlePacket now) s.main e.packet?.toList :=
        congrArg Prod.snd hparts
      have hsplit : (e :: events).filterMap Program.RxEvent.packet?
          = e.packet?.toList ++ events.filterMap Program.RxEvent.packet? := by
        rw [List.filterMap_cons]
        cases e.packet? <;> rfl
      rw [finish_cons, emit_cons, List.filterMap_append, hfin, hemit, hout, hrx, hmain, hsplit, finish_append,
        emit_append]
      exact ⟨rfl, rfl⟩

/-- **A byte** leads to what the packet it completes leads to. -/
theorem mainByte_parts (now : UInt32) (s : Program.State) (byte : UInt8) :
    (Program.mainByte now s byte).1.parts = (cascade decodeByte (handlePacket now) s.parts byte).1
      ∧ (Program.mainByte now s byte).2.filterMap Program.Output.main?
        = (cascade decodeByte (handlePacket now) s.parts byte).2 :=
  handleEvents_parts now { s with rx := (Program.rxByte s.rx byte).1 } (Program.rxByte s.rx byte).2

/-! ## A pass -/

theorem filterMap_main_sched (os : List SchedOutput) :
    (os.map (fun o => Program.Output.main (.sched o))).filterMap Program.Output.main? = os.map .sched := by
  rw [List.filterMap_map]
  exact congrFun List.filterMap_eq_map os

/-- **A pass** leads to what a pass with the packets decoded in it leads to. -/
theorem mainPass_parts (s : Program.State) (x : UInt32 × List UInt8) :
    (Program.mainPass s x).1.parts = (cascade decodePass mainPass s.parts x).1
      ∧ (Program.mainPass s x).2.filterMap Program.Output.main? = (cascade decodePass mainPass s.parts x).2 := by
  obtain ⟨now, bytes⟩ := x
  obtain ⟨hparts, hout⟩ := simulate_cascade Program.State.parts Program.Output.main?
    (fun s b => mainByte_parts now s b) { s with main := ⟨s.main.det, (schedCall s.main.q (.process now)).1⟩ } bytes
  have hpass : (Program.mainPass s (now, bytes)).2.filterMap Program.Output.main?
      = (schedCall s.main.q (.process now)).2.map .sched
        ++ emit (handlePacket now) ⟨s.main.det, (schedCall s.main.q (.process now)).1⟩ (emit decodeByte s.rx bytes) := by
    rw [← filterMap_main_sched]
    exact List.filterMap_append.trans (congrArg (_ ++ ·) hout)
  rw [hpass]
  exact ⟨hparts, (List.append_nil _).symm⟩

/-! ## Runs -/

theorem emit_decodeByte (rx : Program.Rx) (bytes : List UInt8) :
    emit decodeByte rx bytes = (emit Program.rxByte rx bytes).filterMap Program.RxEvent.packet? :=
  emit_observe _ rx bytes

/-- Wherever the passes cut the bytes, the packets are those of all the bytes. -/
theorem packets_decodePass (rx : Program.Rx) (passes : List (UInt32 × List UInt8)) :
    (emit decodePass rx passes).flatMap Prod.snd = emit decodeByte rx (passes.flatMap Prod.snd)
      ∧ (emit decodePass rx passes).map Prod.fst = passes.map Prod.fst := by
  induction passes generalizing rx with
  | nil => exact ⟨rfl, rfl⟩
  | cons x passes ih =>
      obtain ⟨hpackets, htimes⟩ := ih (finish decodeByte rx x.2)
      have hstep : emit decodePass rx (x :: passes)
          = (x.1, emit decodeByte rx x.2) :: emit decodePass (finish decodeByte rx x.2) passes := rfl
      rw [hstep, List.flatMap_cons, List.map_cons, List.flatMap_cons, emit_append, hpackets, htimes]
      exact ⟨rfl, rfl⟩

/-- The packets with a right checksum among the frames of a stream. -/
def imuPackets (stream : List UInt8) : List Packet :=
  ((imuFormat.parse stream).filter imuChecksumOk).map (fun f => packetOf (.ofBytes f))

theorem filterMap_judge (fs : List (List UInt8)) :
    (fs.map Program.judge).filterMap Program.RxEvent.packet?
      = (fs.filter imuChecksumOk).map (fun f => packetOf (.ofBytes f)) := by
  induction fs with
  | nil => rfl
  | cons f fs ih =>
      cases hok : imuChecksumOk f with
      | true =>
          have hjudge : Program.judge f = .packet (.ofBytes f) := by rw [Program.judge, hok]; rfl
          rw [List.map_cons, hjudge, List.filter_cons_of_pos hok, List.map_cons, ← ih]
          rfl
      | false =>
          have hjudge : Program.judge f = .checksumError := by rw [Program.judge, hok]; rfl
          rw [List.map_cons, hjudge, List.filter_cons_of_neg (by rw [hok]; exact Bool.false_ne_true), ← ih]
          rfl

/-- What `main` puts out is what the loop on packets does with the packets decoded. -/
theorem emit_mainPass (p : Vector UInt8 imuFormat.size) (q : Queue) (passes : List (UInt32 × List UInt8)) :
    (emit Program.mainPass (Program.start p q) passes).filterMap Program.Output.main?
      = emit mainPass (mainStart q) (emit decodePass (Buffer.start p) passes) :=
  (simulate_cascade Program.State.parts Program.Output.main? mainPass_parts (Program.start p q) passes).2

/-- And these are the packets of the whole stream. -/
theorem packets_stream (p : Vector UInt8 imuFormat.size) (passes : List (UInt32 × List UInt8)) :
    (emit decodePass (Buffer.start p) passes).flatMap Prod.snd = imuPackets (passes.flatMap Prod.snd) := by
  have hevents : emit Program.rxByte (Buffer.start p) (passes.flatMap Prod.snd)
      = (imuFormat.parse (passes.flatMap Prod.snd)).map Program.judge :=
    Format.emit_receive (Format.bufferWf_start (F := imuFormat) p) _
  rw [(packets_decodePass (Buffer.start p) passes).1, emit_decodeByte, hevents, filterMap_judge]
  rfl

/-- **The program on bytes is the loop on packets.** Over any passes, with any bytes in each, the program of the board
    (its conversion is `vcvt`) puts out what that loop puts out for the packets that the receive loop decodes in each
    pass, at the time of the pass; and these are, all passes together, the packets of the whole stream. -/
theorem program_run (p : Vector UInt8 imuFormat.size) (q : Queue) (passes : List (UInt32 × List UInt8)) :
    (emit Program.mainPass (Program.start p q) passes).filterMap Program.Output.main?
        = emit mainPass (mainStart q) (emit decodePass (Buffer.start p) passes)
      ∧ (emit decodePass (Buffer.start p) passes).map Prod.fst = passes.map Prod.fst
      ∧ (emit decodePass (Buffer.start p) passes).flatMap Prod.snd = imuPackets (passes.flatMap Prod.snd) :=
  ⟨emit_mainPass p q passes, (packets_decodePass (Buffer.start p) passes).2, packets_stream p passes⟩

end GuitarraMidi.TestLatency
