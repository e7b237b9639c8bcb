import Mathlib.Data.Finset.Basic
import Mathlib.Data.Finset.Lattice.Lemmas

/-!
# `Lib.Midi` — MIDI channel messages

A channel message is a status byte, whose high half says what it is and whose low half is the channel,
followed by one or two data bytes below `0x80`. `Message` is the type of well-formed messages,
`Message.bytes` writes one out, and `decode` reads a stream of them without running status: every message
must start with its own status byte, and nothing may be left over. `decode_flatMap_bytes` says a stream
determines the messages it was made of.

`play` is what a message does to the set of notes sounding on a channel. The rules for whole lists of notes
(`playAll_noteOff`, `playAll_noteOn`, `playAll_noteOn_zero`) are union and difference.
-/

namespace Midi

abbrev Channel := Fin 16

/-- The value of a data byte. -/
abbrev Data := Fin 128

/-- The low half of a number. -/
def Channel.ofNat (n : Nat) : Channel := Fin.ofNat 16 n

/-- The low seven bits of a number. -/
def Data.ofNat (n : Nat) : Data := Fin.ofNat 128 n

inductive Message
  | noteOff (ch : Channel) (note vel : Data)
  | noteOn (ch : Channel) (note vel : Data)
  | polyPressure (ch : Channel) (note pressure : Data)
  | controlChange (ch : Channel) (cc val : Data)
  | programChange (ch : Channel) (prog : Data)
  | channelPressure (ch : Channel) (pressure : Data)
  | pitchBend (ch : Channel) (lsb msb : Data)
deriving DecidableEq, Repr

/-! ## Bytes -/

def statusByte (kind : UInt8) (ch : Channel) : UInt8 := kind ||| UInt8.ofNat ch

def dataByte (d : Data) : UInt8 := UInt8.ofNat d

def Message.bytes : Message → List UInt8
  | .noteOff ch note vel => [statusByte 0x80 ch, dataByte note, dataByte vel]
  | .noteOn ch note vel => [statusByte 0x90 ch, dataByte note, dataByte vel]
  | .polyPressure ch note pressure => [statusByte 0xA0 ch, dataByte note, dataByte pressure]
  | .controlChange ch cc val => [statusByte 0xB0 ch, dataByte cc, dataByte val]
  | .programChange ch prog => [statusByte 0xC0 ch, dataByte prog]
  | .channelPressure ch pressure => [statusByte 0xD0 ch, dataByte pressure]
  | .pitchBend ch lsb msb => [statusByte 0xE0 ch, dataByte lsb, dataByte msb]

/-- The message with one data byte that a status byte opens, if it opens one. -/
def oneData (status : UInt8) : Option (Data → Message) :=
  match status.toNat / 16 with
  | 12 => some (.programChange (Channel.ofNat status.toNat))
  | 13 => some (.channelPressure (Channel.ofNat status.toNat))
  | _ => none

/-- The message with two data bytes that a status byte opens, if it opens one. -/
def twoData (status : UInt8) : Option (Data → Data → Message) :=
  match status.toNat / 16 with
  | 8 => some (.noteOff (Channel.ofNat status.toNat))
  | 9 => some (.noteOn (Channel.ofNat status.toNat))
  | 10 => some (.polyPressure (Channel.ofNat status.toNat))
  | 11 => some (.controlChange (Channel.ofNat status.toNat))
  | 14 => some (.pitchBend (Channel.ofNat status.toNat))
  | _ => none

/-- The value of a byte in data position; a status byte is out of place there. -/
def data? (b : UInt8) : Option Data := if h : b.toNat < 128 then some ⟨b.toNat, h⟩ else none

/-- The messages a stream of bytes is made of; nothing when a byte is missing or out of place. -/
def decode : List UInt8 → Option (List Message)
  | [] => some []
  | [_] => none
  | status :: d₁ :: rest =>
      match oneData status, twoData status, rest with
      | some make, _, rest =>
          (data? d₁).bind fun x => (decode rest).map (make x :: ·)
      | none, some make, d₂ :: rest =>
          (data? d₁).bind fun x => (data? d₂).bind fun y => (decode rest).map (make x y :: ·)
      | _, _, _ => none

@[simp] theorem data?_dataByte (d : Data) : data? (dataByte d) = some d := by
  have hd : (dataByte d).toNat = d := by
    rw [dataByte, UInt8.toNat_ofNat']
    exact Nat.mod_eq_of_lt (Nat.lt_trans d.isLt (by decide))
  rw [data?, dif_pos (by rw [hd]; exact d.isLt)]
  exact congrArg some (Fin.ext hd)

theorem decode_one {status : UInt8} {make : Data → Message} (h : oneData status = some make) (d : Data)
    (rest : List UInt8) :
    decode (status :: dataByte d :: rest) = (decode rest).map (make d :: ·) := by
  cases rest <;> simp [decode, h]

theorem decode_two {status : UInt8} {make : Data → Data → Message} (h₁ : oneData status = none)
    (h₂ : twoData status = some make) (d₁ d₂ : Data) (rest : List UInt8) :
    decode (status :: dataByte d₁ :: dataByte d₂ :: rest) = (decode rest).map (make d₁ d₂ :: ·) := by
  simp [decode, h₁, h₂]

/-- The two halves of a status byte can be read back. -/
theorem statusByte_halves {kind : UInt8} (h : kind ∈ [0x80, 0x90, 0xA0, 0xB0, 0xC0, 0xD0, 0xE0])
    (ch : Channel) : (statusByte kind ch).toNat / 16 = kind.toNat / 16 ∧
      Channel.ofNat (statusByte kind ch).toNat = ch := by
  -- seven kinds by sixteen channels
  simp only [List.mem_cons, List.not_mem_nil, or_false] at h
  rcases h with rfl | rfl | rfl | rfl | rfl | rfl | rfl <;> revert ch <;> decide

/-- A message at the head of a stream is read back. -/
theorem decode_bytes_append (m : Message) (rest : List UInt8) :
    decode (m.bytes ++ rest) = (decode rest).map (m :: ·) := by
  cases m with
  | noteOff ch note vel =>
      obtain ⟨hkind, hch⟩ : (statusByte 0x80 ch).toNat / 16 = 8 ∧ _ := statusByte_halves (by decide) ch
      apply decode_two
      · simp only [oneData, hkind]
      · simp only [twoData, hkind, hch]
  | noteOn ch note vel =>
      obtain ⟨hkind, hch⟩ : (statusByte 0x90 ch).toNat / 16 = 9 ∧ _ := statusByte_halves (by decide) ch
      apply decode_two
      · simp only [oneData, hkind]
      · simp only [twoData, hkind, hch]
  | polyPressure ch note pressure =>
      obtain ⟨hkind, hch⟩ : (statusByte 0xA0 ch).toNat / 16 = 10 ∧ _ := statusByte_halves (by decide) ch
      apply decode_two
      · simp only [oneData, hkind]
      · simp only [twoData, hkind, hch]
  | controlChange ch cc val =>
      obtain ⟨hkind, hch⟩ : (statusByte 0xB0 ch).toNat / 16 = 11 ∧ _ := statusByte_halves (by decide) ch
      apply decode_two
      · simp only [oneData, hkind]
      · simp only [twoData, hkind, hch]
  | programChange ch prog =>
      obtain ⟨hkind, hch⟩ : (statusByte 0xC0 ch).toNat / 16 = 12 ∧ _ := statusByte_halves (by decide) ch
      apply decode_one
      simp only [oneData, hkind, hch]
  | channelPressure ch pressure =>
      obtain ⟨hkind, hch⟩ : (statusByte 0xD0 ch).toNat / 16 = 13 ∧ _ := statusByte_halves (by decide) ch
      apply decode_one
      simp only [oneData, hkind, hch]
  | pitchBend ch lsb msb =>
      obtain ⟨hkind, hch⟩ : (statusByte 0xE0 ch).toNat / 16 = 14 ∧ _ := statusByte_halves (by decide) ch
      apply decode_two
      · simp only [oneData, hkind]
      · simp only [twoData, hkind, hch]

/-- **A stream determines its messages.** -/
theorem decode_flatMap_bytes (ms : List Message) : decode (ms.flatMap Message.bytes) = some ms := by
  induction ms with
  | nil => rfl
  | cons m ms ih => rw [List.flatMap_cons, decode_bytes_append, ih, Option.map_some]

/-! ## Sounding notes -/

/-- What a message does to the notes sounding on a channel; a note on with velocity zero is a note off. -/
def play (ch : Channel) (sounding : Finset Data) : Message → Finset Data
  | .noteOn c note vel =>
      if c = ch then (if vel = 0 then sounding.erase note else insert note sounding) else sounding
  | .noteOff c note _ => if c = ch then sounding.erase note else sounding
  | _ => sounding

/-- The notes sounding after a list of messages. -/
def playAll (ch : Channel) (sounding : Finset Data) (ms : List Message) : Finset Data :=
  ms.foldl (play ch) sounding

variable (ch : Channel) (sounding : Finset Data)

@[simp] theorem playAll_nil : playAll ch sounding [] = sounding := rfl

@[simp] theorem playAll_cons (m : Message) (ms : List Message) :
    playAll ch sounding (m :: ms) = playAll ch (play ch sounding m) ms := rfl

theorem playAll_append (ms ms' : List Message) :
    playAll ch sounding (ms ++ ms') = playAll ch (playAll ch sounding ms) ms' := List.foldl_append

theorem playAll_noteOff (vel : Data) (notes : List Data) :
    playAll ch sounding (notes.map (fun n => .noteOff ch n vel)) = sounding \ notes.toFinset := by
  induction notes generalizing sounding with
  | nil => simp
  | cons n notes ih =>
      have hplay : play ch sounding (.noteOff ch n vel) = sounding.erase n := if_pos rfl
      rw [List.map_cons, playAll_cons, hplay, ih, List.toFinset_cons, Finset.sdiff_insert,
        Finset.erase_sdiff_comm]

theorem playAll_noteOn {vel : Data} (hvel : vel ≠ 0) (notes : List Data) :
    playAll ch sounding (notes.map (fun n => .noteOn ch n vel)) = sounding ∪ notes.toFinset := by
  induction notes generalizing sounding with
  | nil => simp
  | cons n notes ih =>
      have hplay : play ch sounding (.noteOn ch n vel) = insert n sounding := by
        simp [play, hvel]
      rw [List.map_cons, playAll_cons, hplay, ih, List.toFinset_cons, Finset.union_insert,
        Finset.insert_union]

theorem playAll_noteOn_zero (notes : List Data) :
    playAll ch sounding (notes.map (fun n => .noteOn ch n 0)) = sounding \ notes.toFinset := by
  have hplay : ∀ (s : Finset Data) (n : Data), play ch s (.noteOn ch n 0) = play ch s (.noteOff ch n 0) := by
    intro s n
    simp [play]
  rw [← playAll_noteOff ch sounding 0 notes]
  unfold playAll
  rw [List.foldl_map, List.foldl_map]
  simp only [hplay]

/-! ## Notes that are switched off -/

/-- Each NOTE ON among the messages is followed by a NOTE OFF for its channel and note, there or in what comes
    after them. -/
def Silenced : List Message → List Message → Prop
  | [], _ => True
  | m :: ms, after =>
      (∀ ch note vel, m = .noteOn ch note vel → ∃ vel', .noteOff ch note vel' ∈ ms ++ after) ∧ Silenced ms after

theorem silenced_append {ms ms' after : List Message} :
    Silenced (ms ++ ms') after ↔ Silenced ms (ms' ++ after) ∧ Silenced ms' after := by
  induction ms with
  | nil => simp [Silenced]
  | cons m ms ih =>
      rw [List.cons_append, Silenced, Silenced, ih, List.append_assoc, and_assoc]

theorem silenced_noteOff (ch : Channel) (vel : Data) (notes : List Data) (after : List Message) :
    Silenced (notes.map (fun n => .noteOff ch n vel)) after := by
  induction notes with
  | nil => trivial
  | cons n notes ih => exact ⟨fun _ _ _ h => absurd h (by simp), ih⟩

/-- Notes are switched off by what comes after them, if all of them are. -/
theorem silenced_noteOn {ch : Channel} {vel : Data} {notes : List Data} {after : List Message}
    (h : ∀ n ∈ notes, ∃ vel', .noteOff ch n vel' ∈ after) :
    Silenced (notes.map (fun n => .noteOn ch n vel)) after := by
  induction notes with
  | nil => trivial
  | cons n notes ih =>
      refine ⟨?_, ih (fun m hm => h m (List.mem_cons_of_mem n hm))⟩
      rintro _ _ _ ⟨⟩
      obtain ⟨vel', hoff⟩ := h n List.mem_cons_self
      exact ⟨vel', List.mem_append_right _ hoff⟩

/-- The last message of all is no NOTE ON that is switched off. -/
theorem not_silenced_concat (ms : List Message) (ch : Channel) (note vel : Data) :
    ¬ Silenced (ms ++ [.noteOn ch note vel]) [] := by
  intro h
  obtain ⟨vel', hoff⟩ := (silenced_append.mp h).2.1 ch note vel rfl
  exact absurd hoff List.not_mem_nil

end Midi
