import GuitarraMidi.Wire.ChordMessage

/-!
# `EduCiaa.Chords` — from the four button bytes to a chord

`chords_map.c`: the button bytes of a packet give a number from 0 to 15 (`obtenerValorBotones`), and the
number an entry of `buttonChordMap` (`getChordFromButtons`). Two entries are no chord, 0 and 8.
-/

namespace GuitarraMidi.EduCiaa

/-- `chord_quality_t`. -/
inductive ChordQuality
  | chordNone
  | chordMinor
  | chordMajor
deriving DecidableEq, Repr

/-- The value of the enumerator. -/
def ChordQuality.code : ChordQuality → Nat
  | .chordNone => 0
  | .chordMinor => 1
  | .chordMajor => 2

/-- `ButtonChord`. -/
structure ButtonChord where
  nombre : String
  root : UInt8
  tipo : ChordQuality
deriving DecidableEq, Repr

open ChordQuality

/-- `buttonChordMap`. -/
def buttonChordMap : Vector ButtonChord 16 := #v[
  ⟨"Nada", 0, chordNone⟩,        -- 0000
  ⟨"DO mayor", 60, chordMajor⟩,  -- 0001
  ⟨"RE mayor", 62, chordMajor⟩,  -- 0010
  ⟨"MI mayor", 64, chordMajor⟩,  -- 0011
  ⟨"FA mayor", 65, chordMajor⟩,  -- 0100
  ⟨"SOL mayor", 67, chordMajor⟩, -- 0101
  ⟨"LA mayor", 69, chordMajor⟩,  -- 0110
  ⟨"SI mayor", 71, chordMajor⟩,  -- 0111
  ⟨"Nada", 0, chordNone⟩,        -- 1000
  ⟨"DO menor", 60, chordMinor⟩,  -- 1001
  ⟨"RE menor", 62, chordMinor⟩,  -- 1010
  ⟨"MI menor", 64, chordMinor⟩,  -- 1011
  ⟨"FA menor", 65, chordMinor⟩,  -- 1100
  ⟨"SOL menor", 67, chordMinor⟩, -- 1101
  ⟨"LA menor", 69, chordMinor⟩,  -- 1110
  ⟨"SI menor", 71, chordMinor⟩]  -- 1111

theorem and_0F_lt (b : UInt8) : (b &&& 0x0F).toNat < 16 := by
  rw [UInt8.toNat_and]
  exact Nat.lt_of_le_of_lt Nat.and_le_right (by decide)

/-- `getChordFromButtons`: `&buttonChordMap[(uint8_t)(b & 0x0F)]`, never a null pointer. -/
def getChordFromButtons (b : UInt8) : ButtonChord :=
  buttonChordMap.get ⟨(b &&& 0x0F).toNat, and_0F_lt b⟩

/-- `obtenerValorBotones`. -/
def obtenerValorBotones (botones : Vector UInt8 4) : UInt8 :=
  ((botones[3]! &&& 1) <<< 3) ||| ((botones[2]! &&& 1) <<< 2)
    ||| ((botones[1]! &&& 1) <<< 1) ||| ((botones[0]! &&& 1) <<< 0)

/-- What a packet is processed with: its button value and its velocity. -/
def buttonsAndVelocity (msg : ChordMessage) : UInt8 × UInt8 :=
  (obtenerValorBotones msg.botones, msg.velocity)

end GuitarraMidi.EduCiaa
