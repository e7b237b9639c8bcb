import GuitarraMidi.EduCiaa.Player
import GuitarraMidi.EduCiaa.Scheduler

/-!
# `TestLatency.Player` — the player that schedules its notes

`chords_map.c` and `playing_chords.c` of `test_latency_buttons_esp32_emisora`. The scheduler, the MIDI functions,
`obtenerValorBotones` and `buildTriad` are those of the final program; the chord table is another, and
`strumChord` schedules each note of the chord, a little after the one before, and its end.
-/

namespace GuitarraMidi.TestLatency

open EduCiaa EduCiaa.ChordQuality Transducer

/-- `buttonChordMap`. -/
def buttonChordMap : Vector ButtonChord 16 := #v[
  ⟨"Nada", 0, chordNone⟩,        -- 0000
  ⟨"Nada", 0, chordNone⟩,        -- 0001
  ⟨"DO menor", 60, chordMinor⟩,  -- 0010
  ⟨"DO mayor", 60, chordMajor⟩,  -- 0011
  ⟨"RE menor", 62, chordMinor⟩,  -- 0100
  ⟨"RE mayor", 62, chordMajor⟩,  -- 0101
  ⟨"MI menor", 64, chordMinor⟩,  -- 0110
  ⟨"MI mayor", 64, chordMajor⟩,  -- 0111
  ⟨"FA menor", 65, chordMinor⟩,  -- 1000
  ⟨"FA mayor", 65, chordMajor⟩,  -- 1001
  ⟨"SOL menor", 67, chordMinor⟩, -- 1010
  ⟨"SOL mayor", 67, chordMajor⟩, -- 1011
  ⟨"LA menor", 69, chordMinor⟩,  -- 1100
  ⟨"LA mayor", 69, chordMajor⟩,  -- 1101
  ⟨"SI menor", 71, chordMinor⟩,  -- 1110
  ⟨"SI mayor", 71, chordMajor⟩]  -- 1111

/-- `getChordFromButtons`. -/
def getChordFromButtons (b : UInt8) : ButtonChord :=
  buttonChordMap.get ⟨(b &&& 0x0F).toNat, and_0F_lt b⟩

/-- `STRUM_GAP_MS`. -/
def strumGapMs : Nat := 10

/-- `NOTE_LEN_MS`. -/
def noteLenMs : Nat := 180

/-- The calls of the loop of `strumChord`: for the `i`-th note, its start and its end. -/
def strumCalls (chord : ButtonChord) (velocity : UInt8) (now_ms : UInt32) : List SchedCall :=
  (buildTriad chord).zipIdx.flatMap (fun (note, i) =>
    let t_on := now_ms + UInt32.ofNat i * UInt32.ofNat strumGapMs
    let t_off := t_on + UInt32.ofNat noteLenMs
    [.noteOn t_on midiCh note velocity, .noteOff t_off midiCh note midiVelocityOff])

/-- `strumChord`. What the schedule calls answer is ignored. -/
def strumChord (q : Queue) (chord : Option ButtonChord) (velocity : UInt8) (now_ms : UInt32) :
    Queue × List SchedOutput :=
  match chord with
  | none => (q, [])
  | some c => if c.tipo = chordNone then (q, []) else blockStep schedCall q (strumCalls c velocity now_ms)

end GuitarraMidi.TestLatency
