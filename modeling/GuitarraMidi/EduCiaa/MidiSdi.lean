import GuitarraMidi.Lib.Midi

/-!
# `EduCiaa.MidiSdi` — MIDI messages on the SDI bus of the VS1053

`midi_sdi.h`: each byte of a MIDI message is written to the SDI bus as a pair, a zero and the byte. The
functions take any byte for a channel, a note or a velocity and keep its low bits, so what they write is
always a message of `Lib.Midi`.

What a call writes is the list of its `sdiWrite16` pairs; the pins and the waiting for `DREQ` below them are in
`EduCiaa.Lowlevel`.
-/

namespace GuitarraMidi.EduCiaa

open Midi

/-- The two bytes of an `sdiWrite16`. -/
abbrev SdiWrite := UInt8 × UInt8

def sdiWrite16 (hi lo : UInt8) : List SdiWrite := [(hi, lo)]

def sendMIDI (b : UInt8) : List SdiWrite := sdiWrite16 0x00 b

def midiProgramChange (ch prog : UInt8) : List SdiWrite :=
  sendMIDI (0xC0 ||| (ch &&& 0x0F)) ++ sendMIDI (prog &&& 0x7F)

def midiNoteOn (ch note vel : UInt8) : List SdiWrite :=
  sendMIDI (0x90 ||| (ch &&& 0x0F)) ++ sendMIDI (note &&& 0x7F) ++ sendMIDI (vel &&& 0x7F)

def midiNoteOff (ch note vel : UInt8) : List SdiWrite :=
  sendMIDI (0x80 ||| (ch &&& 0x0F)) ++ sendMIDI (note &&& 0x7F) ++ sendMIDI (vel &&& 0x7F)

def midiControlChange (ch cc val : UInt8) : List SdiWrite :=
  sendMIDI (0xB0 ||| (ch &&& 0x0F)) ++ sendMIDI (cc &&& 0x7F) ++ sendMIDI (val &&& 0x7F)

/-- `midiAllNotesOff`: All Notes Off, then All Sound Off. -/
def midiAllNotesOff (ch : UInt8) : List SdiWrite := midiControlChange ch 123 0 ++ midiControlChange ch 120 0

/-! ## The messages written -/

/-- The channel a channel argument stands for. -/
def channel (ch : UInt8) : Channel := Channel.ofNat ch.toNat

/-- The value a note or velocity argument stands for. -/
def data (b : UInt8) : Data := Data.ofNat b.toNat

/-- The writes of a list of messages. -/
def sdi (ms : List Message) : List SdiWrite := (ms.flatMap Message.bytes).map (fun b => (0x00, b))

/-- The messages the plugin reads from a list of writes: every pair must start with a zero. -/
def messages (writes : List SdiWrite) : Option (List Message) :=
  if writes.all (fun w => w.1 == 0x00) then decode (writes.map Prod.snd) else none

@[simp] theorem sdi_nil : sdi [] = [] := rfl

theorem sdi_append (ms ms' : List Message) : sdi (ms ++ ms') = sdi ms ++ sdi ms' := by
  unfold sdi
  rw [List.flatMap_append, List.map_append]

theorem sdi_cons (m : Message) (ms : List Message) : sdi (m :: ms) = sdi [m] ++ sdi ms := sdi_append [m] ms

theorem sdi_map {α : Type} (f : α → Message) (xs : List α) :
    sdi (xs.map f) = xs.flatMap (fun x => sdi [f x]) := by
  induction xs with
  | nil => rfl
  | cons x xs ih => rw [List.map_cons, sdi_cons, List.flatMap_cons, ih]

theorem fst_of_mem_sdi {ms : List Message} {w : SdiWrite} (h : w ∈ sdi ms) : w.1 = 0x00 := by
  obtain ⟨b, -, rfl⟩ := List.mem_map.mp h
  rfl

theorem map_snd_sdi (ms : List Message) : (sdi ms).map Prod.snd = ms.flatMap Message.bytes := by
  rw [sdi, List.map_map]
  exact List.map_id _

/-- **The writes determine the messages.** -/
@[simp] theorem messages_sdi (ms : List Message) : messages (sdi ms) = some ms := by
  have hzero : (sdi ms).all (fun w => w.1 == 0x00) = true := by
    rw [List.all_eq_true]
    intro w hw
    exact beq_iff_eq.mpr (fst_of_mem_sdi hw)
  rw [messages, if_pos hzero, map_snd_sdi, decode_flatMap_bytes]

theorem and_0F (ch : UInt8) : ch &&& 0x0F = UInt8.ofNat (channel ch) := by
  apply UInt8.toNat_inj.mp
  rw [UInt8.toNat_and, UInt8.toNat_ofNat']
  show ch.toNat &&& (2 ^ 4 - 1) = ch.toNat % 16 % 2 ^ 8
  rw [Nat.and_two_pow_sub_one_eq_mod]
  omega

theorem and_7F (b : UInt8) : b &&& 0x7F = dataByte (data b) := by
  apply UInt8.toNat_inj.mp
  rw [UInt8.toNat_and, dataByte, UInt8.toNat_ofNat']
  show b.toNat &&& (2 ^ 7 - 1) = b.toNat % 128 % 2 ^ 8
  rw [Nat.and_two_pow_sub_one_eq_mod]
  omega

theorem midiNoteOn_eq (ch note vel : UInt8) :
    midiNoteOn ch note vel = sdi [.noteOn (channel ch) (data note) (data vel)] := by
  rw [midiNoteOn, and_0F, and_7F, and_7F]
  rfl

theorem midiNoteOff_eq (ch note vel : UInt8) :
    midiNoteOff ch note vel = sdi [.noteOff (channel ch) (data note) (data vel)] := by
  rw [midiNoteOff, and_0F, and_7F, and_7F]
  rfl

theorem midiControlChange_eq (ch cc val : UInt8) :
    midiControlChange ch cc val = sdi [.controlChange (channel ch) (data cc) (data val)] := by
  rw [midiControlChange, and_0F, and_7F, and_7F]
  rfl

theorem midiProgramChange_eq (ch prog : UInt8) :
    midiProgramChange ch prog = sdi [.programChange (channel ch) (data prog)] := by
  rw [midiProgramChange, and_0F, and_7F]
  rfl

end GuitarraMidi.EduCiaa
