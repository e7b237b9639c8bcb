import GuitarraMidi.Wire.ImuMessage

/-!
# `Delay.Mensaje` — the message of the delay test

`emisor.ino` and `receptor.ino` of `src/esp32/delay` declare the same struct `IMUMessage`: the six `float`s of the
sensor and the four buttons, with no header and no checksum. The receptor tells a message by its length only, sets its
LEDs by the buttons and answers with one byte.

As in `Wire.ImuMessage` a `float` is the word that is transmitted. The lines written to `Serial` are left out.
-/

namespace GuitarraMidi.Delay

/-- What a pass of `loop()` reads; a level is `true` for `HIGH`. -/
structure Reading where
  aceleracion : Vector UInt32 3
  giroscopio : Vector UInt32 3
  botones : Vector Bool 4
deriving DecidableEq, Repr, Inhabited

/-- `IMUMessage`. -/
structure ImuMessage where
  ax : UInt32
  ay : UInt32
  az : UInt32
  gx : UInt32
  gy : UInt32
  gz : UInt32
  botones : Vector UInt8 4
deriving DecidableEq, Repr, Inhabited

/-- `sizeof(IMUMessage)`, which is not packed but has no gaps either. -/
def imuMessageSize : Nat := 28

/-- The struct as the bytes it occupies. -/
def ImuMessage.bytes (m : ImuMessage) : List UInt8 :=
  LittleEndian.bytes m.ax ++ LittleEndian.bytes m.ay ++ LittleEndian.bytes m.az ++ LittleEndian.bytes m.gx
    ++ LittleEndian.bytes m.gy ++ LittleEndian.bytes m.gz ++ m.botones.toList

/-- The struct laid over its bytes. -/
def ImuMessage.ofBytes (p : List UInt8) : ImuMessage where
  ax := wordAt p 0
  ay := wordAt p 4
  az := wordAt p 8
  gx := wordAt p 12
  gy := wordAt p 16
  gz := wordAt p 20
  botones := .ofFn (fun i => p.getD (24 + i.val) 0)

/-- What `loop()` of the emisor puts in `mensaje`; a button that is pressed reads `LOW`. -/
def leer (x : Reading) : ImuMessage where
  ax := x.aceleracion[0]
  ay := x.aceleracion[1]
  az := x.aceleracion[2]
  gx := x.giroscopio[0]
  gy := x.giroscopio[1]
  gz := x.giroscopio[2]
  botones := x.botones.map (fun nivel => if nivel == false then 1 else 0)

/-- `OnDataRecv` of the receptor, with the LEDs it sets and the ACK it sends, unless the length is not right. -/
def Receptor.onDataRecv (ledPins : Vector Bool 4) (data : List UInt8) : Vector Bool 4 × Option (List UInt8) :=
  if data.length ≠ imuMessageSize then (ledPins, none)
  else ((ImuMessage.ofBytes data).botones.map (fun boton => boton != 0), some [1])

@[simp] theorem ImuMessage.length_bytes (m : ImuMessage) : m.bytes.length = imuMessageSize := by
  simp only [bytes, List.length_append, Vector.length_toList, LittleEndian.bytes, List.length_cons, List.length_nil]
  rfl

theorem ImuMessage.ofBytes_bytes (m : ImuMessage) : ofBytes m.bytes = m := by
  obtain ⟨ax, ay, az, gx, gy, gz, b⟩ := m
  obtain ⟨b₀, b₁, b₂, b₃, rfl⟩ := GuitarraMidi.ImuMessage.exists_four b
  have hlist : (#v[b₀, b₁, b₂, b₃] : Vector UInt8 4).toList = [b₀, b₁, b₂, b₃] := rfl
  have hword := LittleEndian.word_bytes
  simp only [ofBytes, bytes, wordAt, LittleEndian.bytes, List.cons_append, List.nil_append, hlist,
    List.getD_cons_zero, List.getD_cons_succ, hword]
  congr 1

/-- The LEDs show the buttons that were pressed. -/
theorem Receptor.onDataRecv_leer (ledPins : Vector Bool 4) (x : Reading) :
    onDataRecv ledPins (leer x).bytes = (x.botones.map (!·), some [1]) := by
  have hlength : ¬ (leer x).bytes.length ≠ imuMessageSize := fun h => h (leer x).length_bytes
  have hleds : (leer x).botones.map (fun boton => boton != 0) = x.botones.map (!·) := by
    unfold leer
    rw [Vector.map_map]
    congr 1
    funext nivel
    cases nivel <;> rfl
  rw [onDataRecv, if_neg hlength, ImuMessage.ofBytes_bytes, hleds]

end GuitarraMidi.Delay
