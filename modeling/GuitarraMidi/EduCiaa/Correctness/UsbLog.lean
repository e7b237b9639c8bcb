import GuitarraMidi.EduCiaa.MainLoop
import GuitarraMidi.Lib.Throttle

/-!
# `EduCiaa.Correctness.UsbLog` — what `main` writes to `UART_USB`

Seen from `UART_USB` alone, `main` is two machines one after the other: the receiver, and a log that keeps only the time
of its last message about a wrong checksum (`logStep`). So every packet that is accepted has its lines, and the frames
with a wrong checksum are throttled by `lastCkErrMs` as `Lib.Throttle` describes (`usb_log`).

The passes are given with their true times, which `main` reads modulo `2^32`.
-/

namespace GuitarraMidi.EduCiaa

open Clock Transducer

/-- The message about a wrong checksum. -/
def errorLine : String := "[ERROR] Checksum invalido\r\n"

/-- The lines about a packet: what it is, and its chord if it has one. -/
def packetLines (msg : ChordMessage) : List String :=
  let b := obtenerValorBotones msg.botones
  let chord := getChordFromButtons b
  dbg b chord msg :: if chord.tipo ≠ .chordNone then [debugPrintChord (some chord)] else []

/-! ## With true time -/

/-- A pass at a true time, and when each thing is put out. -/
def timedPass (s : Main) (pass : Nat × List UInt8) : Main × List (Nat × MainOutput) :=
  let (s, out) := mainPass s (tick pass.1, pass.2)
  (s, out.map (fun o => (pass.1, o)))

/-- A byte at a true time. -/
def timedByte (s : Main) (x : Nat × UInt8) : Main × List (Nat × MainOutput) :=
  let (s, out) := mainByte (tick x.1) s x.2
  (s, out.map (fun o => (x.1, o)))

/-- The receiver, and when it has judged each frame. -/
def timedRx (s : Rx) (x : Nat × UInt8) : Rx × List (Nat × RxEvent) :=
  let (s, events) := rxByte s x.2
  (s, events.map (fun ev => (x.1, ev)))

/-- The bytes of a pass, each at its time. -/
def timedBytes (pass : Nat × List UInt8) : List (Nat × UInt8) := pass.2.map (fun byte => (pass.1, byte))

/-- A line on `UART_USB`. -/
def usb? : Nat × MainOutput → Option (Nat × String)
  | (t, .usb line) => some (t, line)
  | (_, .sdi _) => none

/-- The lines written over some passes, each with the time of its pass. -/
def usbLog (s : Main) (passes : List (Nat × List UInt8)) : List (Nat × String) :=
  (emit timedPass s passes).filterMap usb?

/-- The frames judged over some passes, each with the time of its pass. -/
def judged (s : Rx) (passes : List (Nat × List UInt8)) : List (Nat × RxEvent) :=
  emit timedRx s (passes.flatMap timedBytes)

/-- When a frame had a wrong checksum. -/
def bad? : Nat × RxEvent → Option Nat
  | (t, .checksumError) => some t
  | (_, .packet _) => none

/-- When the message about a wrong checksum was written. -/
def error? (line : Nat × String) : Option Nat := if line.2 = errorLine then some line.1 else none

/-- What is logged of a frame; `last` is `lastCkErrMs`. -/
def logStep (last : UInt32) (ev : Nat × RxEvent) : UInt32 × List (Nat × String) :=
  match ev.2 with
  | .checksumError => if tick ev.1 - last > 200 then (tick ev.1, [(ev.1, errorLine)]) else (last, [])
  | .packet msg => (last, (packetLines msg).map (fun line => (ev.1, line)))

/-! ## The log of a frame, a byte, a pass -/

/-- The variables the log depends on. -/
def Main.logged (s : Main) : Rx × UInt32 := (s.rx, s.lastCkErrMs)

theorem usb?_map_sdi (t : Nat) (writes : List SdiWrite) :
    (writes.map (fun w => (t, MainOutput.sdi w))).filterMap usb? = [] := by
  rw [List.filterMap_eq_nil_iff]
  intro o ho
  obtain ⟨w, -, rfl⟩ := List.mem_map.mp ho
  rfl

theorem handleEvent_logs (t : Nat) (s : Main) (ev : RxEvent) :
    (handleEvent (tick t) s ev).1.logged = (s.rx, (logStep s.lastCkErrMs (t, ev)).1)
      ∧ ((handleEvent (tick t) s ev).2.map (fun o => (t, o))).filterMap usb? = (logStep s.lastCkErrMs (t, ev)).2 := by
  cases ev with
  | checksumError =>
      unfold handleEvent logStep
      dsimp only
      split_ifs <;> exact ⟨rfl, rfl⟩
  | packet msg =>
      unfold handleEvent logStep packetLines
      dsimp only
      split_ifs with htipo
      · refine ⟨rfl, ?_⟩
        rw [List.map_cons, List.map_cons, List.map_map]
        exact congrArg (fun rest => (t, _) :: (t, _) :: rest) (usb?_map_sdi t _)
      · exact ⟨rfl, rfl⟩

theorem handleEvents_logs (t : Nat) (s : Main) (events : List RxEvent) :
    (finish (handleEvent (tick t)) s events).logged
        = (s.rx, finish logStep s.lastCkErrMs (events.map (fun ev => (t, ev))))
      ∧ ((emit (handleEvent (tick t)) s events).map (fun o => (t, o))).filterMap usb?
        = emit logStep s.lastCkErrMs (events.map (fun ev => (t, ev))) := by
  induction events generalizing s with
  | nil => exact ⟨rfl, rfl⟩
  | cons ev events ih =>
      obtain ⟨hstate, hout⟩ := handleEvent_logs t s ev
      obtain ⟨hfin, hemit⟩ := ih (handleEvent (tick t) s ev).1
      have hrx : (handleEvent (tick t) s ev).1.rx = s.rx := congrArg Prod.fst hstate
      have hlast : (handleEvent (tick t) s ev).1.lastCkErrMs = (logStep s.lastCkErrMs (t, ev)).1 :=
        congrArg Prod.snd hstate
      rw [hrx, hlast] at hfin
      rw [hlast] at hemit
      rw [finish_cons, emit_cons, List.map_cons, finish_cons, emit_cons, List.map_append, List.filterMap_append,
        hout, hemit, hfin]
      exact ⟨rfl, rfl⟩

/-- **A byte** is received, and the frame it completes is logged. -/
theorem timedByte_logs (s : Main) (x : Nat × UInt8) :
    (timedByte s x).1.logged = (cascade timedRx logStep s.logged x).1
      ∧ (timedByte s x).2.filterMap usb? = (cascade timedRx logStep s.logged x).2 :=
  handleEvents_logs x.1 { s with rx := (rxByte s.rx x.2).1 } (rxByte s.rx x.2).2

theorem run_timedByte (t : Nat) (s : Main) (bytes : List UInt8) :
    finish timedByte s (bytes.map (fun byte => (t, byte))) = finish (mainByte (tick t)) s bytes
      ∧ emit timedByte s (bytes.map (fun byte => (t, byte)))
        = (emit (mainByte (tick t)) s bytes).map (fun o => (t, o)) := by
  induction bytes generalizing s with
  | nil => exact ⟨rfl, rfl⟩
  | cons byte bytes ih =>
      obtain ⟨hfin, hemit⟩ := ih (mainByte (tick t) s byte).1
      rw [emit_cons, List.map_append, ← hemit]
      exact ⟨hfin, rfl⟩

/-- **A pass** writes the log of the bytes it reads. What the scheduler has to send goes elsewhere. -/
theorem timedPass_logs (s : Main) (pass : Nat × List UInt8) :
    (timedPass s pass).1.logged
        = (cascade (fun rx pass => blockStep timedRx rx (timedBytes pass)) logStep s.logged pass).1
      ∧ (timedPass s pass).2.filterMap usb?
        = (cascade (fun rx pass => blockStep timedRx rx (timedBytes pass)) logStep s.logged pass).2 := by
  obtain ⟨t, bytes⟩ := pass
  have hbytes := run_timedByte t { s with q := (midiSchedProcess (tick t) s.q).1 } bytes
  obtain ⟨hstate, hout⟩ := simulate_cascade Main.logged usb? timedByte_logs
    { s with q := (midiSchedProcess (tick t) s.q).1 } (timedBytes (t, bytes))
  rw [timedBytes, hbytes.1] at hstate
  rw [timedBytes, hbytes.2] at hout
  refine ⟨hstate, ?_⟩
  have hsched : (((midiSchedProcess (tick t) s.q).2.map MainOutput.sdi).map (fun o => (t, o))).filterMap usb? = [] := by
    rw [List.map_map]
    exact usb?_map_sdi t _
  unfold timedPass mainPass
  dsimp only
  rw [List.map_append, List.filterMap_append, hsched, List.nil_append]
  exact hout

/-- **A run** writes the log of the frames it judges. -/
theorem usbLog_eq (s : Main) (passes : List (Nat × List UInt8)) :
    usbLog s passes = emit logStep s.lastCkErrMs (judged s.rx passes) := by
  have hrun := (simulate_cascade Main.logged usb? timedPass_logs s passes).2
  rw [(run_blockStep timedBytes _ passes).2] at hrun
  exact hrun

/-! ## The lines of the log -/

theorem dbg_ne (b : UInt8) (chord : ButtonChord) (msg : ChordMessage) : dbg b chord msg ≠ errorLine := by
  intro h
  have hhead := congrArg (fun line => line.toList.head?) h
  simp [dbg, errorLine, String.toList_append] at hhead

theorem debugPrintChord_ne (chord : Option ButtonChord) : debugPrintChord chord ≠ errorLine := by
  intro h
  have hhead := congrArg (fun line => line.toList.head?) h
  unfold debugPrintChord at hhead
  cases chord with
  | none => simp [errorLine] at hhead
  | some c =>
      dsimp only at hhead
      split_ifs at hhead <;> simp [errorLine, String.toList_append] at hhead

/-- No line about a packet is the one about a wrong checksum. -/
theorem packetLines_ne {msg : ChordMessage} {line : String} (h : line ∈ packetLines msg) : line ≠ errorLine := by
  unfold packetLines at h
  rcases List.mem_cons.mp h with rfl | h
  · exact dbg_ne _ _ _
  · split_ifs at h with htipo
    · rw [List.mem_singleton.mp h]
      exact debugPrintChord_ne _
    · exact absurd h List.not_mem_nil

theorem packetLines_log (t : Nat) (msg : ChordMessage) :
    ((packetLines msg).map (fun line => (t, line))).filterMap error? = []
      ∧ (((packetLines msg).map (fun line => (t, line))).filter (fun l => l.2 ≠ errorLine)).map Prod.snd
        = packetLines msg := by
  constructor
  · rw [List.filterMap_eq_nil_iff]
    intro l hl
    obtain ⟨line, hline, rfl⟩ := List.mem_map.mp hl
    exact if_neg (packetLines_ne hline)
  · rw [List.filter_eq_self.mpr]
    · rw [List.map_map]
      exact List.map_id _
    · intro l hl
      obtain ⟨line, hline, rfl⟩ := List.mem_map.mp hl
      exact decide_eq_true (packetLines_ne hline)

/-- The messages about a wrong checksum are throttled. -/
theorem errors_log (last : UInt32) (evs : List (Nat × RxEvent)) :
    (emit logStep last evs).filterMap error? = emit (Throttle.step 200) last (evs.filterMap bad?) := by
  induction evs generalizing last with
  | nil => rfl
  | cons ev evs ih =>
      obtain ⟨t, ev⟩ := ev
      rw [emit_cons, List.filterMap_append, ih]
      cases ev with
      | checksumError =>
          have hbad : ((t, RxEvent.checksumError) :: evs).filterMap bad? = t :: evs.filterMap bad? := rfl
          rw [hbad, emit_cons, logStep, Throttle.step]
          dsimp only
          split_ifs <;> simp [error?]
      | packet msg =>
          have hbad : ((t, RxEvent.packet msg) :: evs).filterMap bad? = evs.filterMap bad? := rfl
          rw [hbad, logStep]
          dsimp only
          rw [(packetLines_log t msg).1, List.nil_append]

/-- The other lines are those of the packets. -/
theorem packets_log (last : UInt32) (evs : List (Nat × RxEvent)) :
    ((emit logStep last evs).filter (fun l => l.2 ≠ errorLine)).map Prod.snd
      = (evs.filterMap (fun ev => ev.2.packet?)).flatMap packetLines := by
  induction evs generalizing last with
  | nil => rfl
  | cons ev evs ih =>
      obtain ⟨t, ev⟩ := ev
      rw [emit_cons, List.filter_append, List.map_append, ih]
      cases ev with
      | checksumError =>
          have hpackets : ((t, RxEvent.checksumError) :: evs).filterMap (fun ev => ev.2.packet?)
              = evs.filterMap (fun ev => ev.2.packet?) := rfl
          rw [hpackets, logStep]
          dsimp only
          split_ifs <;> simp
      | packet msg =>
          have hpackets : ((t, RxEvent.packet msg) :: evs).filterMap (fun ev => ev.2.packet?)
              = msg :: evs.filterMap (fun ev => ev.2.packet?) := rfl
          rw [hpackets, logStep, List.flatMap_cons]
          dsimp only
          rw [(packetLines_log t msg).2]

/-! ## The frames that are judged -/

theorem packets_judged (s : Rx) (passes : List (Nat × List UInt8)) :
    (judged s passes).filterMap (fun ev => ev.2.packet?) = accepted s (passes.flatMap Prod.snd) := by
  have hbytes : (passes.flatMap timedBytes).map Prod.snd = passes.flatMap Prod.snd := by
    rw [List.map_flatMap]
    congr 1
    funext pass
    rw [timedBytes, List.map_map]
    exact List.map_id _
  have hpackets : emit (observe (fun ev => ev.2.packet?) timedRx) s (passes.flatMap timedBytes)
      = emit (observe RxEvent.packet? rxByte) s ((passes.flatMap timedBytes).map Prod.snd) := by
    rw [← emit_comp]
    congr 1
    funext s x
    show (_, ((rxByte s x.2).2.map (fun ev => (x.1, ev))).filterMap (fun ev => ev.2.packet?)) = _
    rw [List.filterMap_map]
    rfl
  rw [emit_observe, emit_observe, hbytes] at hpackets
  exact hpackets

/-- Frames are judged in the order of time. -/
theorem pairwise_bad (s : Rx) {passes : List (Nat × List UInt8)} (h : passes.Pairwise (fun x y => x.1 ≤ y.1)) :
    ((judged s passes).filterMap bad?).Pairwise (· ≤ ·) := by
  have hbytes : (passes.flatMap timedBytes).Pairwise (fun x y => x.1 ≤ y.1) := by
    refine List.pairwise_flatMap.mpr ⟨?_, h.imp ?_⟩
    · intro pass _
      rw [timedBytes, List.pairwise_map]
      exact List.pairwise_of_forall (fun _ _ => Nat.le_refl pass.1)
    · intro pass pass' hle x hx y hy
      obtain ⟨byte, -, rfl⟩ := List.mem_map.mp hx
      obtain ⟨byte', -, rfl⟩ := List.mem_map.mp hy
      exact hle
  have htime : ∀ s x, ∀ t ∈ (observe bad? timedRx s x).2, id t = x.1 := by
    intro s x t ht
    obtain ⟨ev, hev, hbad⟩ := List.mem_filterMap.mp ht
    obtain ⟨e, -, rfl⟩ := List.mem_map.mp hev
    cases e with
    | checksumError => exact (Option.some.inj hbad).symm
    | packet msg => exact absurd hbad (by simp [bad?])
  have hpairwise := pairwise_emit htime s hbytes
  rw [emit_observe] at hpairwise
  exact hpairwise

/-- **What `main` writes to `UART_USB`.** In order the lines about each packet it accepts, and among them those about a
    wrong checksum: each when a frame had one, more than 200 ms apart and after the start, and for every frame that had
    one there is such a line, or the start, at most 200 ms before, give or take turns of the counter. -/
theorem usb_log (p : Vector UInt8 8) (q : Queue) {passes : List (Nat × List UInt8)}
    (hpasses : passes.Pairwise (fun x y => x.1 ≤ y.1)) :
    ((usbLog (mainStart p q) passes).filter (fun l => l.2 ≠ errorLine)).map Prod.snd
        = (accepted (Rx.start p) (passes.flatMap Prod.snd)).flatMap packetLines
      ∧ ((usbLog (mainStart p q) passes).filterMap error?).Sublist ((judged (Rx.start p) passes).filterMap bad?)
      ∧ (0 :: (usbLog (mainStart p q) passes).filterMap error?).IsChain (fun s t => s + 200 < t)
      ∧ ∀ t ∈ (judged (Rx.start p) passes).filterMap bad?, ∃ s ∈ 0 :: (usbLog (mainStart p q) passes).filterMap error?,
        s ≤ t ∧ (t - s) % 2 ^ 32 ≤ 200 := by
  have htimes : (0 :: (judged (Rx.start p) passes).filterMap bad?).Pairwise (· ≤ ·) :=
    List.pairwise_cons.mpr ⟨fun t _ => Nat.zero_le t, pairwise_bad (Rx.start p) hpasses⟩
  have hlog : usbLog (mainStart p q) passes = emit logStep (tick 0) (judged (Rx.start p) passes) := usbLog_eq _ passes
  rw [hlog, errors_log, packets_log, packets_judged]
  exact ⟨rfl, Throttle.emit_sublist 200 _ _, Throttle.spaced_emit 200 htimes,
    fun t ht => Throttle.covered_emit 200 htimes ht⟩

/-- Frames with a wrong checksum in passes at 100, 250, 300 and 2^32 + 300 ms. -/
def malosFrames : List (Nat × List UInt8) :=
  let frame : List UInt8 := [0xAA, 0x55, 0, 0, 0, 0, 80, 0]
  [(100, frame), (250, frame), (300, frame), (2 ^ 32 + 300, frame)]

/-- The first comes too early after the start, and the last by the counter 50 ms after the second. -/
theorem one_error_written :
    let s := mainStart (.replicate 8 0) (.replicate qSize (eventOf .evOn 0 0 0 0))
    (usbLog s malosFrames).filterMap error? = [250] ∧ (0 :: [250]).IsChain (fun s t => s + 200 < t)
      ∧ ∃ t ∈ 0 :: [250], t ≤ 2 ^ 32 + 300 ∧ (2 ^ 32 + 300 - t) % 2 ^ 32 ≤ 200 := by
  intro s
  have hbad : (judged s.rx malosFrames).filterMap bad? = [100, 250, 300, 2 ^ 32 + 300] := by decide +kernel
  have herrors : (usbLog s malosFrames).filterMap error? = [250] := by
    have hstep : emit (Throttle.step 200) 0 [100, 250, 300, 2 ^ 32 + 300] = [250] := by decide +kernel
    rw [usbLog_eq, errors_log]
    exact (congrArg (emit (Throttle.step 200) 0) hbad).trans hstep
  have hpasses : malosFrames.Pairwise (fun x y => x.1 ≤ y.1) := by decide
  obtain ⟨-, -, hspaced, hcovered⟩ := usb_log (.replicate 8 0) (.replicate qSize (eventOf .evOn 0 0 0 0)) hpasses
  rw [herrors] at hspaced hcovered
  refine ⟨herrors, hspaced, hcovered (2 ^ 32 + 300) ?_⟩
  have hlast : 2 ^ 32 + 300 ∈ [100, 250, 300, 2 ^ 32 + 300] := by simp
  exact hbad ▸ hlast

end GuitarraMidi.EduCiaa
