import GuitarraMidi.EduCiaa.Chords
import GuitarraMidi.EduCiaa.MidiSdi
import GuitarraMidi.Lib.Transducer

/-!
# `EduCiaa.Player` — playing chords

`playing_chords.c`. A chord pointer that may be null is an `Option`; the `static` variable `prev` of
`strumChord` is an argument and a result. The time argument of `strumChord` is there because the source has
it; nothing depends on it.
-/

namespace GuitarraMidi.EduCiaa

open Midi

/-- `MIDI_CH`. -/
def midiCh : UInt8 := 0

/-- `MIDI_VELOCITY_OFF`. -/
def midiVelocityOff : UInt8 := 64

/-- `buildTriad`: the first `n` of `notes`. -/
def buildTriad (chord : ButtonChord) : List UInt8 :=
  if chord.tipo = .chordMajor then [chord.root + 0, chord.root + 4, chord.root + 7]
  else if chord.tipo = .chordMinor then [chord.root + 0, chord.root + 3, chord.root + 7]
  else []

/-- `!chord || chord->tipo == CHORD_NONE`. -/
def noChord : Option ButtonChord → Bool
  | none => true
  | some chord => chord.tipo = .chordNone

/-- `playChord`. -/
def playChord (chord : Option ButtonChord) (velocity : UInt8) : List SdiWrite :=
  if noChord chord then []
  else (chord.elim [] buildTriad).flatMap (fun note => midiNoteOn midiCh note velocity)

/-- `stopChord`. -/
def stopChord (chord : Option ButtonChord) : List SdiWrite :=
  if noChord chord then []
  else (chord.elim [] buildTriad).flatMap (fun note => midiNoteOff midiCh note midiVelocityOff)

/-- `strumChord`: the new `prev`, and what is written. -/
def strumChord (prev chord : Option ButtonChord) (velocity : UInt8) (_now_ms : UInt32) :
    Option ButtonChord × List SdiWrite :=
  let stopped := if prev.isSome then stopChord prev else []
  -- without a chord the silence is not undone, and there is nothing to stop the next time
  if noChord chord then (none, stopped)
  else (chord, stopped ++ playChord chord velocity)

/-- The line `debugPrintChord` writes to `UART_USB`. -/
def debugPrintChord (chord : Option ButtonChord) : String :=
  match chord with
  | none => "DEBUG chord: NONE\r\n"
  | some c =>
      if c.tipo = .chordNone then "DEBUG chord: NONE\r\n"
      else "DEBUG chord: " ++ c.nombre ++ " (root=" ++ toString c.root ++ " tipo=" ++ toString c.tipo.code
        ++ ") -> notes:" ++ String.join ((buildTriad c).map (fun note => " " ++ toString note)) ++ "\r\n"

/-! ## In terms of messages -/

/-- The NOTE OFF messages of a chord. -/
def offs (chord : ButtonChord) : List Message :=
  (buildTriad chord).map (fun note => .noteOff (channel midiCh) (data note) (data midiVelocityOff))

/-- The NOTE ON messages of a chord. -/
def ons (chord : ButtonChord) (velocity : UInt8) : List Message :=
  (buildTriad chord).map (fun note => .noteOn (channel midiCh) (data note) (data velocity))

theorem buildTriad_of_none {chord : ButtonChord} (h : chord.tipo = .chordNone) : buildTriad chord = [] := by
  simp [buildTriad, h]

theorem buildTriad_ne_nil {chord : ButtonChord} (h : chord.tipo ≠ .chordNone) : buildTriad chord ≠ [] := by
  cases htipo : chord.tipo with
  | chordNone => exact absurd htipo h
  | chordMinor => simp [buildTriad, htipo]
  | chordMajor => simp [buildTriad, htipo]

/-- The third of a chord, in semitones. -/
def third : ChordQuality → Nat
  | .chordMajor => 4
  | _ => 3

/-- Root, third and fifth, as the wire carries them. -/
def triad (chord : ButtonChord) : List Data :=
  [Data.ofNat chord.root.toNat, Data.ofNat (chord.root.toNat + third chord.tipo),
    Data.ofNat (chord.root.toNat + 7)]

theorem data_add (a b : UInt8) : data (a + b) = Data.ofNat (a.toNat + b.toNat) := by
  apply Fin.ext
  show (a + b).toNat % 128 = (a.toNat + b.toNat) % 128
  rw [UInt8.toNat_add]
  omega

/-- **`buildTriad` builds the triad**: the root is added to modulo 256, and the wire keeps it modulo 128. -/
theorem map_data_buildTriad {chord : ButtonChord} (h : chord.tipo ≠ .chordNone) :
    (buildTriad chord).map data = triad chord := by
  have hbuild : buildTriad chord
      = [chord.root + 0, chord.root + UInt8.ofNat (third chord.tipo), chord.root + 7] := by
    cases htipo : chord.tipo with
    | chordNone => exact absurd htipo h
    | chordMinor => simp [buildTriad, htipo, third]
    | chordMajor => simp [buildTriad, htipo, third]
  have hthird : (UInt8.ofNat (third chord.tipo)).toNat = third chord.tipo := by
    cases chord.tipo <;> rfl
  rw [hbuild, List.map_cons, List.map_cons, List.map_cons, data_add, data_add, data_add, hthird]
  rfl

theorem stopChord_some (chord : ButtonChord) : stopChord (some chord) = sdi (offs chord) := by
  by_cases h : chord.tipo = .chordNone
  · have hno : noChord (some chord) = true := decide_eq_true h
    rw [stopChord, if_pos hno, offs, buildTriad_of_none h]
    rfl
  · have hno : noChord (some chord) = false := decide_eq_false h
    simp only [stopChord, hno, Bool.false_eq_true, if_false, Option.elim_some, midiNoteOff_eq]
    exact (sdi_map _ _).symm

theorem playChord_some (chord : ButtonChord) (velocity : UInt8) :
    playChord (some chord) velocity = sdi (ons chord velocity) := by
  by_cases h : chord.tipo = .chordNone
  · have hno : noChord (some chord) = true := decide_eq_true h
    rw [playChord, if_pos hno, ons, buildTriad_of_none h]
    rfl
  · have hno : noChord (some chord) = false := decide_eq_false h
    simp only [playChord, hno, Bool.false_eq_true, if_false, Option.elim_some, midiNoteOn_eq]
    exact (sdi_map _ _).symm

/-- What `strumChord` remembers. -/
theorem strumChord_prev (prev chord : Option ButtonChord) (velocity : UInt8) (now_ms : UInt32) :
    (strumChord prev chord velocity now_ms).1 = if noChord chord then none else chord := by
  cases hno : noChord chord with
  | true => simp [strumChord, hno]
  | false => simp [strumChord, hno]

/-- The previous chord off, then this one on. -/
def strumMessages (prev chord : Option ButtonChord) (velocity : UInt8) : List Message :=
  prev.elim [] offs ++ chord.elim [] (fun c => ons c velocity)

/-- **What `strumChord` writes.** -/
theorem strumChord_writes (prev chord : Option ButtonChord) (velocity : UInt8) (now_ms : UInt32) :
    (strumChord prev chord velocity now_ms).2 = sdi (strumMessages prev chord velocity) := by
  have hstop : (if prev.isSome then stopChord prev else []) = sdi (prev.elim [] offs) := by
    cases prev with
    | none => rfl
    | some p => exact stopChord_some p
  have hplay : playChord chord velocity = sdi (chord.elim [] (fun c => ons c velocity)) := by
    cases chord with
    | none => rfl
    | some c => exact playChord_some c velocity
  -- `playChord` of no chord writes nothing, so the two branches agree
  rw [strumMessages, sdi_append, ← hplay, ← hstop]
  cases hno : noChord chord with
  | true => simp [strumChord, playChord, hno]
  | false => simp [strumChord, hno]

end GuitarraMidi.EduCiaa
