import GuitarraMidi.EduCiaa.Correctness.Sounding
import GuitarraMidi.UartChords.Program

/-!
# `UartChords.Correctness.Sounding` — the chord that sounds is the chord of the buttons

Whatever bytes come in, what the synthesiser sounds is the chord of the last whole message, all of its notes and no
other (`chord_sounding`): the notes of a chord are stopped before those of another are started, a chord that is selected
again is left alone, and "Nada" is silence.

Which bytes are a message is another question. The program counts them from the first on, so after bytes of one message
are lost no message is read as it was sent, ever again (`shifted_sounding`).
-/

namespace GuitarraMidi.UartChords

open Blocks EduCiaa EduCiaa.ChordQuality Midi Transducer

/-- The place in the table of the chord that a message selects. -/
def selected (msg : List UInt8) : Fin 16 := chordIndex (obtenerValorBotones (botones msg))

/-- The notes of the chord that `lastChord` points to. -/
def notesAt (lastChord : Option (Fin 16)) : Finset Data := notesOf (lastChord.map chordAt)

/-- What sounds after `setup` and a stream of bytes, if what is written are messages at all. -/
def soundingAfter (p : Vector UInt8 imuMessageSize) (bytes : List UInt8) : Option (Finset Data) :=
  (messages (setup ++ emit mainByte (start p) bytes)).map (playAll (channel midiCh) ∅)

/-! ## A message -/

/-- The messages for a change of the chord. -/
def changeMessages (lastChord : Option (Fin 16)) (chord : Fin 16) : List Message :=
  (lastChord.map chordAt).elim [] offs ++ (some (chordAt chord)).elim [] (fun c => ons c midiVelocityOn)

theorem handleMessage_same {lastChord : Option (Fin 16)} {msg : List UInt8} (h : some (selected msg) = lastChord) :
    handleMessage lastChord msg = (lastChord, []) := if_neg (not_not.mpr h)

theorem stopLast_eq (lastChord : Option (Fin 16)) :
    stopLast lastChord = sdi ((lastChord.map chordAt).elim [] offs) := by
  cases lastChord with
  | none => rfl
  | some last =>
      show (if (chordAt last).tipo ≠ chordNone then stopChord (chordAt last) else []) = sdi (offs (chordAt last))
      by_cases h : (chordAt last).tipo = chordNone
      · rw [if_neg (not_not.mpr h), offs, buildTriad_of_none h]
        rfl
      · rw [if_pos h, stopChord, stopChord_some]

theorem played_eq (chord : ButtonChord) :
    (if chord.tipo ≠ chordNone then playChord chord else []) = sdi (ons chord midiVelocityOn) := by
  by_cases h : chord.tipo = chordNone
  · rw [if_neg (not_not.mpr h), ons, buildTriad_of_none h]
    rfl
  · rw [if_pos h, playChord, playChord_some]

theorem handleMessage_change {lastChord : Option (Fin 16)} {msg : List UInt8} (h : some (selected msg) ≠ lastChord) :
    handleMessage lastChord msg = (some (selected msg), sdi (changeMessages lastChord (selected msg))) := by
  have hcase : handleMessage lastChord msg = (some (selected msg), stopLast lastChord
      ++ if (chordAt (selected msg)).tipo ≠ chordNone then playChord (chordAt (selected msg)) else []) := if_pos h
  rw [hcase, changeMessages, sdi_append, played_eq, stopLast_eq]
  rfl

/-- **A message** is remembered, and where the chord remembered before was sounding, its chord sounds now. -/
theorem handleMessage_sounding (lastChord : Option (Fin 16)) (msg : List UInt8) :
    (handleMessage lastChord msg).1 = some (selected msg)
      ∧ ∃ ms, (handleMessage lastChord msg).2 = sdi ms
        ∧ playAll (channel midiCh) (notesAt lastChord) ms = notesAt (some (selected msg)) := by
  by_cases h : some (selected msg) = lastChord
  · rw [handleMessage_same h, h]
    exact ⟨rfl, [], rfl, rfl⟩
  · rw [handleMessage_change h]
    refine ⟨rfl, _, rfl, ?_⟩
    have hvelocity : data midiVelocityOn ≠ 0 := by decide
    have hoffs : playAll (channel midiCh) (notesAt lastChord) ((lastChord.map chordAt).elim [] offs) = ∅ := by
      rw [playAll_offs]
      exact Finset.sdiff_self _
    rw [changeMessages, playAll_append, hoffs, playAll_ons, if_neg hvelocity]
    rfl

/-! ## Streams -/

/-- After a list of messages. -/
theorem handleMessages_sounding (msgs : List (List UInt8)) :
    ∃ ms, emit handleMessage none msgs = sdi ms
      ∧ finish handleMessage none msgs = msgs.getLast?.map selected
      ∧ playAll (channel midiCh) ∅ ms = notesAt (msgs.getLast?.map selected) := by
  induction msgs using List.reverseRecOn with
  | nil => exact ⟨[], rfl, rfl, rfl⟩
  | append_singleton msgs msg ih =>
      obtain ⟨ms, hout, hlast, hplay⟩ := ih
      obtain ⟨hnext, new, hnew, hsounding⟩ := handleMessage_sounding (finish handleMessage none msgs) msg
      refine ⟨ms ++ new, ?_, ?_, ?_⟩
      · rw [emit_concat, hout, hnew, sdi_append]
      · rw [finish_concat, hnext, List.getLast?_concat]
        rfl
      · rw [playAll_append, hplay, ← hlast, hsounding, List.getLast?_concat]
        rfl

/-- The variables as those of the two parts. -/
def State.parts (s : State) : Filler UInt8 imuMessageSize × Option (Fin 16) := (s.rx, s.lastChord)

/-- What is written for a stream is what is written for its blocks. -/
theorem emit_mainByte (p : Vector UInt8 imuMessageSize) (bytes : List UInt8) :
    emit mainByte (start p) bytes = emit handleMessage none (blocks imuMessageSize bytes) := by
  have hstep : ∀ (s : State) (b : UInt8), (mainByte s b).1.parts = (cascade Filler.fill handleMessage s.parts b).1
      ∧ (mainByte s b).2.filterMap some = (cascade Filler.fill handleMessage s.parts b).2 := by
    intro s b
    rw [List.filterMap_some]
    exact ⟨rfl, rfl⟩
  have hrun := (simulate_cascade State.parts some hstep (start p) bytes).2
  rw [List.filterMap_some] at hrun
  have hblocks : emit Filler.fill (Filler.start p) bytes = blocks imuMessageSize bytes :=
    Filler.emit_fill (Nat.succ_pos 27) bytes
  rw [hrun, ← hblocks]
  rfl

/-- After the bytes of a list of messages. -/
theorem soundingAfter_blocks (p : Vector UInt8 imuMessageSize) {bytes : List UInt8} {msgs : List (List UInt8)}
    (h : blocks imuMessageSize bytes = msgs) : soundingAfter p bytes = some (notesAt (msgs.getLast?.map selected)) := by
  obtain ⟨ms, hout, -, hplay⟩ := handleMessages_sounding msgs
  unfold soundingAfter
  rw [emit_mainByte, h, hout, setup, midiProgramChange_eq, ← sdi_append, messages_sdi, Option.map_some,
    List.singleton_append, playAll_cons]
  -- a program change starts and stops nothing
  exact congrArg some hplay

/-- **What sounds is the chord of the last whole message.** -/
theorem chord_sounding (p : Vector UInt8 imuMessageSize) (bytes : List UInt8) :
    soundingAfter p bytes = some (notesAt ((blocks imuMessageSize bytes).getLast?.map selected)) :=
  soundingAfter_blocks p rfl

/-- A message without the `d` bytes from the place `o` on. -/
def withLoss (m : List UInt8) (o d : Nat) : List UInt8 := m.take o ++ m.drop (o + d)

/-- **After bytes of a message are lost, no message is read as it was sent**: from there on what sounds is decided by
    bytes of two messages, the end of one and the beginning of the next. -/
theorem shifted_sounding (p : Vector UInt8 imuMessageSize) {o d : Nat} (hd : 0 < d) (hdn : d < imuMessageSize)
    (ho : o + d ≤ imuMessageSize) {before : List (List UInt8)} {m : List UInt8} {ms : List (List UInt8)}
    (hbefore : ∀ m ∈ before, m.length = imuMessageSize) (hm : m.length = imuMessageSize)
    (hms : ∀ m ∈ ms, m.length = imuMessageSize) :
    soundingAfter p (before.flatten ++ (withLoss m o d ++ ms.flatten)) = some (notesAt
      ((before ++ List.zipWith (fun r m => r ++ m.take d) (withLoss m o d :: ms.map (List.drop d)) ms).getLast?.map
        selected)) := by
  have hleft : (withLoss m o d).length + d = imuMessageSize := by
    unfold withLoss
    rw [List.length_append, List.length_take, List.length_drop]
    omega
  apply soundingAfter_blocks
  rw [blocks_flatten (Nat.lt_trans hd hdn) hbefore, blocks_shifted hd hdn hleft hms]

/-- B1 and B2 are held, MI menor. -/
def miMenor : List UInt8 := List.replicate 24 0 ++ [0, 1, 1, 0]

/-- With a byte lost of the second message, DO mayor sounds. -/
theorem shifted_miMenor :
    selected miMenor = 6
      ∧ soundingAfter (.replicate imuMessageSize 0)
          ([miMenor].flatten ++ (withLoss miMenor 3 1 ++ [miMenor, miMenor].flatten)) = some (notesAt (some 3)) :=
  ⟨by decide, (shifted_sounding _ (by decide) (by decide) (by decide) (by decide) rfl (by decide)).trans
    (by decide +kernel)⟩

end GuitarraMidi.UartChords
