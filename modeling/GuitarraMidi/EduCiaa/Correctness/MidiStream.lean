import GuitarraMidi.EduCiaa.MidiSdi

/-!
# `EduCiaa.Correctness.MidiStream` — the calls can be read back from the bytes

The functions of `midi_sdi.h` write messages of different lengths one after another with nothing between them, and
take any bytes for their arguments. Each writes whole messages (`writes_eq`), so a parser that is told nothing of the
calls finds them again (`midi_stream_decodes`).
-/

namespace GuitarraMidi.EduCiaa

open Midi

/-- A call of a function of `midi_sdi.h`. -/
inductive MidiCall
  | noteOn (ch note vel : UInt8)
  | noteOff (ch note vel : UInt8)
  | programChange (ch prog : UInt8)
  | controlChange (ch cc val : UInt8)
  | allNotesOff (ch : UInt8)

/-- What a call writes. -/
def MidiCall.writes : MidiCall → List SdiWrite
  | .noteOn ch note vel => midiNoteOn ch note vel
  | .noteOff ch note vel => midiNoteOff ch note vel
  | .programChange ch prog => midiProgramChange ch prog
  | .controlChange ch cc val => midiControlChange ch cc val
  | .allNotesOff ch => midiAllNotesOff ch

/-- What a call says: its channel modulo 16 and its other arguments modulo 128. -/
def MidiCall.messages : MidiCall → List Message
  | .noteOn ch note vel => [.noteOn (channel ch) (data note) (data vel)]
  | .noteOff ch note vel => [.noteOff (channel ch) (data note) (data vel)]
  | .programChange ch prog => [.programChange (channel ch) (data prog)]
  | .controlChange ch cc val => [.controlChange (channel ch) (data cc) (data val)]
  | .allNotesOff ch =>
      [.controlChange (channel ch) (data 123) (data 0), .controlChange (channel ch) (data 120) (data 0)]

theorem midiAllNotesOff_eq (ch : UInt8) : midiAllNotesOff ch
    = sdi [.controlChange (channel ch) (data 123) (data 0), .controlChange (channel ch) (data 120) (data 0)] := by
  rw [midiAllNotesOff, midiControlChange_eq, midiControlChange_eq, ← sdi_append]
  rfl

/-- **A call writes the messages it says.** -/
theorem MidiCall.writes_eq (c : MidiCall) : c.writes = sdi c.messages := by
  cases c with
  | noteOn ch note vel => exact midiNoteOn_eq ch note vel
  | noteOff ch note vel => exact midiNoteOff_eq ch note vel
  | programChange ch prog => exact midiProgramChange_eq ch prog
  | controlChange ch cc val => exact midiControlChange_eq ch cc val
  | allNotesOff ch => exact midiAllNotesOff_eq ch

theorem writes_calls (calls : List MidiCall) :
    calls.flatMap MidiCall.writes = sdi (calls.flatMap MidiCall.messages) := by
  induction calls with
  | nil => rfl
  | cons c calls ih => rw [List.flatMap_cons, List.flatMap_cons, sdi_append, c.writes_eq, ih]

/-- **The MIDI byte stream is uniquely decodable.** Every pair written starts with a zero, and the parser makes of the
    other bytes, to the last one, the messages of the calls in their order. -/
theorem midi_stream_decodes (calls : List MidiCall) :
    (∀ w ∈ calls.flatMap MidiCall.writes, w.1 = 0x00)
      ∧ decode ((calls.flatMap MidiCall.writes).map Prod.snd) = some (calls.flatMap MidiCall.messages) := by
  rw [writes_calls, map_snd_sdi, decode_flatMap_bytes]
  exact ⟨fun _ hw => fst_of_mem_sdi hw, rfl⟩

end GuitarraMidi.EduCiaa
