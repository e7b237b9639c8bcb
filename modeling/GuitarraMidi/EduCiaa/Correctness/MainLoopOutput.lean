import GuitarraMidi.EduCiaa.MainLoop
import GuitarraMidi.EduCiaa.Correctness.ReceiverSim

/-!
# `EduCiaa.Correctness.MainLoopOutput` — what the synthesiser receives

The MIDI output of a run is a function of the packets accepted (`synthMessages`): for each that maps to a
chord, the previous such chord off and this one on. The three pieces of state behind this are tied together
by `Plays`, which composes, so it goes from one event to a byte, from a byte to a pass and from a pass to a
run; the tick readings and the boundaries of the passes drop out on the way, because the queue of the
scheduler is empty throughout.
-/

namespace GuitarraMidi.EduCiaa

open Midi Transducer

/-! ## The specification -/

/-- The three NOTE OFF messages of a chord. -/
def chordOff (chord : ButtonChord) : List Message := (triad chord).map (fun n => .noteOff (Channel.ofNat 0) n (Data.ofNat 64))

/-- The three NOTE ON messages of a chord, with the velocity modulo 128. -/
def chordOn (chord : ButtonChord) (velocity : UInt8) : List Message :=
  (triad chord).map (fun n => .noteOn (Channel.ofNat 0) n (Data.ofNat velocity.toNat))

/-- The packets that map to a chord other than `CHORD_NONE`, with their chord and velocity. -/
def strums (msgs : List ChordMessage) : List (ButtonChord × UInt8) :=
  (msgs.map (fun m => (getChordFromButtons (obtenerValorBotones m.botones), m.velocity))).filter
    (fun s => s.1.tipo ≠ .chordNone)

/-- For each strum, the chord before it off and its own on. -/
def synthMessages (prev : Option ButtonChord) : List (ButtonChord × UInt8) → List Message
  | [] => []
  | s :: rest => prev.elim [] chordOff ++ chordOn s.1 s.2 ++ synthMessages (some s.1) rest

/-- The last chord strummed. -/
def lastChord (prev : Option ButtonChord) (ss : List (ButtonChord × UInt8)) : Option ButtonChord :=
  ss.foldl (fun _ s => some s.1) prev

theorem synthMessages_append (prev : Option ButtonChord) (ss ss' : List (ButtonChord × UInt8)) :
    synthMessages prev (ss ++ ss') = synthMessages prev ss ++ synthMessages (lastChord prev ss) ss' := by
  induction ss generalizing prev with
  | nil => rfl
  | cons s ss ih =>
      simp only [List.cons_append, synthMessages, ih, List.append_assoc]
      rfl

theorem strums_append (msgs msgs' : List ChordMessage) :
    strums (msgs ++ msgs') = strums msgs ++ strums msgs' := by
  unfold strums
  rw [List.map_append, List.filter_append]

/-! ## From one state to another -/

/-- What holds between two steps: the scheduler is empty, and what is remembered is a chord. -/
structure Main.Wf (s : Main) : Prop where
  rx : s.rx.Wf
  queue : s.q.Idle
  prev : ∀ chord, s.prev = some chord → chord.tipo ≠ .chordNone

theorem wf_mainStart (p : Vector UInt8 8) (q : Queue) : (mainStart p q).Wf where
  rx := Rx.wf_start p
  queue := idle_midiSchedInit q
  prev := by
    intro chord h
    exact absurd h (by simp [mainStart])

/-- Going from `s` to `s'`, the program has played the packets `msgs` and put out `out`. -/
structure Plays (s s' : Main) (out : List MainOutput) (msgs : List ChordMessage) : Prop where
  queue : s'.q = s.q
  prev : s'.prev = lastChord s.prev (strums msgs)
  writes : sdiWrites out = sdi (synthMessages s.prev (strums msgs))

theorem Plays.refl (s : Main) : Plays s s [] [] := ⟨rfl, rfl, rfl⟩

/-- **`Plays` composes.** -/
theorem Plays.trans {s s' s'' : Main} {out out' : List MainOutput} {msgs msgs' : List ChordMessage}
    (h : Plays s s' out msgs) (h' : Plays s' s'' out' msgs') :
    Plays s s'' (out ++ out') (msgs ++ msgs') := by
  constructor
  · rw [h'.queue, h.queue]
  · rw [h'.prev, h.prev, strums_append, lastChord, lastChord, lastChord, List.foldl_append]
  · rw [sdiWrites_append, h.writes, h'.writes, h.prev, ← sdi_append, strums_append, synthMessages_append]

/-! ### An event -/

theorem offs_eq {chord : ButtonChord} (h : chord.tipo ≠ .chordNone) : offs chord = chordOff chord := by
  rw [chordOff, ← map_data_buildTriad h, List.map_map]
  rfl

theorem ons_eq {chord : ButtonChord} (h : chord.tipo ≠ .chordNone) (velocity : UInt8) :
    ons chord velocity = chordOn chord velocity := by
  rw [chordOn, ← map_data_buildTriad h, List.map_map]
  rfl

theorem handleEvent_checksumError (now : UInt32) (s : Main) :
    ∃ t line, handleEvent now s .checksumError = ({ s with lastCkErrMs := t }, line) ∧ sdiWrites line = [] := by
  by_cases h : now - s.lastCkErrMs > 200
  · exact ⟨now, _, if_pos h, rfl⟩
  · exact ⟨s.lastCkErrMs, [], if_neg h, rfl⟩

/-- A packet that maps to no chord only leaves its debug line. -/
theorem handleEvent_nada (now : UInt32) (s : Main) {msg : ChordMessage} (h : strums [msg] = []) :
    ∃ line, handleEvent now s (.packet msg) = (s, [.usb line]) := by
  have htipo : (getChordFromButtons (obtenerValorBotones msg.botones)).tipo = .chordNone := by
    by_contra htipo
    simp [strums, htipo] at h
  exact ⟨_, if_neg (not_not_intro htipo)⟩

/-- A packet that maps to a chord strums it. -/
theorem handleEvent_strum (now : UInt32) (s : Main) {msg : ChordMessage} {chord : ButtonChord}
    {velocity : UInt8} (h : strums [msg] = [(chord, velocity)]) :
    chord.tipo ≠ .chordNone ∧ ∃ line line', handleEvent now s (.packet msg) = ({ s with prev := some chord },
      .usb line :: .usb line' :: (strumChord s.prev (some chord) velocity now).2.map .sdi) := by
  have htipo : (getChordFromButtons (obtenerValorBotones msg.botones)).tipo ≠ .chordNone := by
    intro htipo
    simp [strums, htipo] at h
  have hchord : (getChordFromButtons (obtenerValorBotones msg.botones), msg.velocity) = (chord, velocity) := by
    simpa [strums, htipo] using h
  obtain ⟨rfl, rfl⟩ := Prod.mk.inj hchord
  have hprev : (strumChord s.prev (some (getChordFromButtons (obtenerValorBotones msg.botones))) msg.velocity
      now).1 = some (getChordFromButtons (obtenerValorBotones msg.botones)) := by
    rw [strumChord_prev, noChord, decide_eq_false htipo]
    rfl
  have hstep : handleEvent now s (.packet msg) = _ := if_pos htipo
  rw [hprev] at hstep
  exact ⟨htipo, _, _, hstep⟩

/-- **An event is played.** -/
theorem handleEvent_plays (now : UInt32) {s : Main} (hs : s.Wf) (ev : RxEvent) :
    (handleEvent now s ev).1.Wf ∧ (handleEvent now s ev).1.rx = s.rx ∧
      Plays s (handleEvent now s ev).1 (handleEvent now s ev).2 ev.packet?.toList := by
  cases ev with
  | checksumError =>
      obtain ⟨t, line, hstep, hline⟩ := handleEvent_checksumError now s
      rw [hstep]
      exact ⟨⟨hs.rx, hs.queue, hs.prev⟩, rfl, rfl, rfl, hline⟩
  | packet msg =>
      rcases hstrums : strums [msg] with _ | ⟨⟨chord, velocity⟩, _ | ⟨_, _⟩⟩
      · -- no chord: the synthesiser receives nothing, and `prev` stays
        obtain ⟨line, hstep⟩ := handleEvent_nada now s hstrums
        have hplays : Plays s s [.usb line] [msg] := by
          refine ⟨rfl, ?_, ?_⟩
          · rw [hstrums]
            rfl
          · rw [hstrums]
            rfl
        rw [hstep]
        exact ⟨hs, rfl, hplays⟩
      · -- a chord: `prev`, which is one too, goes off, and this one on
        obtain ⟨htipo, line, line', hstep⟩ := handleEvent_strum now s hstrums
        have hoff : s.prev.elim [] offs = s.prev.elim [] chordOff := by
          cases hprev : s.prev with
          | none => rfl
          | some old => exact offs_eq (hs.prev old hprev)
        have hplays : Plays s { s with prev := some chord }
            (.usb line :: .usb line' :: (strumChord s.prev (some chord) velocity now).2.map .sdi) [msg] := by
          refine ⟨rfl, ?_, ?_⟩
          · rw [hstrums]
            rfl
          · rw [hstrums, sdiWrites_usb, sdiWrites_usb, sdiWrites_map_sdi, strumChord_writes, strumMessages,
              hoff, Option.elim_some, ons_eq htipo, synthMessages, synthMessages, List.append_nil]
        rw [hstep]
        refine ⟨⟨hs.rx, hs.queue, ?_⟩, rfl, hplays⟩
        intro c hc
        rw [← Option.some.inj hc]
        exact htipo
      · have hlen : (strums [msg]).length ≤ 1 := List.length_filter_le _ _
        rw [hstrums] at hlen
        exact absurd hlen (by simp)

/-! ### Events, bytes, passes -/

/-- Going from `s` to `s'`, the program has read `bytes` and put out `out`. -/
structure Reads (s s' : Main) (out : List MainOutput) (bytes : List UInt8) : Prop where
  rx : s'.rx = finish rxByte s.rx bytes
  plays : Plays s s' out (accepted s.rx bytes)

theorem Reads.refl (s : Main) : Reads s s [] [] := ⟨rfl, Plays.refl s⟩

theorem Reads.trans {s s' s'' : Main} {out out' : List MainOutput} {bytes bytes' : List UInt8}
    (h : Reads s s' out bytes) (h' : Reads s' s'' out' bytes') :
    Reads s s'' (out ++ out') (bytes ++ bytes') := by
  constructor
  · rw [h'.rx, h.rx, finish_append]
  · rw [accepted_append, ← h.rx]
    exact h.plays.trans h'.plays

theorem flatMap_packet? (events : List RxEvent) :
    events.flatMap (fun ev => ev.packet?.toList) = events.filterMap RxEvent.packet? := by
  induction events with
  | nil => rfl
  | cons ev events ih =>
      rw [List.flatMap_cons, ih]
      cases ev <;> rfl

/-- The events of a byte are played; the receiver is not touched any more. -/
theorem events_play (now : UInt32) {s : Main} (hs : s.Wf) (events : List RxEvent) :
    (finish (handleEvent now) s events).Wf ∧ (finish (handleEvent now) s events).rx = s.rx ∧
      Plays s (finish (handleEvent now) s events) (emit (handleEvent now) s events)
        (events.filterMap RxEvent.packet?) := by
  rw [← flatMap_packet?]
  refine rel_run (R := fun s s' out msgs => s'.rx = s.rx ∧ Plays s s' out msgs) _ ?_ ?_ ?_ hs events
  · intro s
    exact ⟨rfl, Plays.refl s⟩
  · rintro s s' s'' out out' msgs msgs' ⟨hrx, hplays⟩ ⟨hrx', hplays'⟩
    exact ⟨hrx'.trans hrx, hplays.trans hplays'⟩
  · intro s ev hs
    exact handleEvent_plays now hs ev

/-- **A byte** is read, and what the receiver makes of it is played. -/
theorem mainByte_reads (now : UInt32) (s : Main) (byte : UInt8) (hs : s.Wf) :
    (mainByte now s byte).1.Wf ∧ Reads s (mainByte now s byte).1 (mainByte now s byte).2 [byte] := by
  have hwf : ({ s with rx := (rxByte s.rx byte).1 } : Main).Wf :=
    ⟨rxByte_wf s.rx byte hs.rx, hs.queue, hs.prev⟩
  obtain ⟨hwf', hrx, hplays⟩ := events_play now hwf (rxByte s.rx byte).2
  have hone : accepted s.rx [byte] = (rxByte s.rx byte).2.filterMap RxEvent.packet? := by
    rw [accepted, emit_cons, emit_nil, List.append_nil]
  refine ⟨hwf', hrx, ?_⟩
  rw [hone]
  exact ⟨hplays.queue, hplays.prev, hplays.writes⟩

/-- **A pass** reads the bytes it drains, and nothing else happens: the scheduler has nothing to send. -/
theorem mainPass_reads (s : Main) (pass : UInt32 × List UInt8) (hs : s.Wf) :
    (mainPass s pass).1.Wf ∧ Reads s (mainPass s pass).1 (mainPass s pass).2 pass.2 := by
  have hpass : mainPass s pass = blockStep (mainByte pass.1) s pass.2 := by
    rw [mainPass, midiSchedProcess_of_idle hs.queue]
    rfl
  have hdrain := rel_run (fun byte => [byte]) Reads.refl Reads.trans (mainByte_reads pass.1) hs pass.2
  rw [List.flatMap_singleton'] at hdrain
  rw [hpass]
  exact hdrain

/-- **A run** reads the bytes of its passes, one after the other. -/
theorem run_reads {s : Main} (hs : s.Wf) (passes : List (UInt32 × List UInt8)) :
    (finish mainPass s passes).Wf ∧
      Reads s (finish mainPass s passes) (emit mainPass s passes) (passes.flatMap Prod.snd) :=
  rel_run Prod.snd Reads.refl Reads.trans mainPass_reads hs passes

/-! ## The output of a run -/

/-- **The synthesiser depends only on the bytes.** Whatever the tick readings and however the bytes are
    spread over the passes, the messages sent are those of the packets accepted: for each that maps to a
    chord, the triad of the previous such chord off, then its own on. Another run on the same bytes sends the
    same, and the scheduler never sends anything. -/
theorem main_output (p : Vector UInt8 8) (q : Queue) (passes : List (UInt32 × List UInt8)) :
    messages (sdiWrites (emit mainPass (mainStart p q) passes))
      = some (synthMessages none (strums (accepted (Rx.start p) (passes.flatMap Prod.snd)))) ∧
    (∀ p' q' passes', passes'.flatMap Prod.snd = passes.flatMap Prod.snd →
      sdiWrites (emit mainPass (mainStart p' q') passes') = sdiWrites (emit mainPass (mainStart p q) passes)) ∧
    (∀ before now bytes after, passes = before ++ (now, bytes) :: after →
      (midiSchedProcess now (finish mainPass (mainStart p q) before).q).2 = []) := by
  have hwrites : ∀ p q passes, sdiWrites (emit mainPass (mainStart p q) passes)
      = sdi (synthMessages none (strums (accepted (Rx.start p) (passes.flatMap Prod.snd)))) :=
    fun p q passes => (run_reads (wf_mainStart p q) passes).2.plays.writes
  refine ⟨?_, ?_, ?_⟩
  · rw [hwrites, messages_sdi]
  · intro p' q' passes' hbytes
    -- what the receive buffer held before makes no difference
    rw [hwrites, hwrites, hbytes, accepted_start, accepted_start]
  · intro before now bytes after _
    rw [midiSchedProcess_of_idle (run_reads (wf_mainStart p q) before).1.queue]

end GuitarraMidi.EduCiaa
