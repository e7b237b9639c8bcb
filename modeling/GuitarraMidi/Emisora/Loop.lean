import GuitarraMidi.Emisora.SendPacket
import Mathlib.Data.Rat.Defs

/-!
# `Emisora.Loop` — the loop of the emisora

Each pass of `loop()` reads the clock once, and with that reading serves the green LED, the accelerometer, the STRUM
button and the chord buttons; a packet is sent when a strum is detected while STRUM and a chord are held.

A pass is given with what it reads: `millis()` at its top and, if `encenderLedVerde` is called, there; the magnitude
of the acceleration, a `float` in the program and a rational number here; and the levels of the pins, `true` for
`HIGH`. The lines written to `Serial` are left out.
-/

namespace GuitarraMidi.Emisora

/-- `DEBOUNCE_MS`. -/
def debounceMs : UInt32 := 30

/-- `UMBRAL_NORMAL`. -/
def umbralNormal : ℚ := 11

/-- `UMBRAL_FUERTE`. -/
def umbralFuerte : ℚ := 16

/-- `TIEMPO_ESPERA`. -/
def tiempoEspera : UInt32 := 300

/-- `LED_VERDE_TIEMPO`. -/
def ledVerdeTiempo : UInt32 := 100

/-- `BUTTONS_ACTIVE_LOW`. -/
def buttonsActiveLow : Bool := true

/-- What a pass of `loop()` reads. -/
structure Reading where
  now : UInt32
  /-- `millis()` in `encenderLedVerde`. -/
  nowLed : UInt32
  magnitud : ℚ
  rawStrum : Bool
  raw : Vector Bool 4

/-- The global variables. -/
structure Loop where
  msg : ChordMessage
  lastStableStrum : Bool
  lastReadStrum : Bool
  lastChangeStrum : UInt32
  ultimoRasgueoMs : UInt32
  ledVerdeApagarMs : UInt32
  ledVerdeEncendido : Bool

/-- The variables as `loop()` finds them the first time. -/
def Loop.start : Loop where
  msg := default
  lastStableStrum := true
  lastReadStrum := true
  lastChangeStrum := 0
  ultimoRasgueoMs := 0
  ledVerdeApagarMs := 0
  ledVerdeEncendido := false

/-- A `digitalWrite` to the green LED, and a call to `sendPacket` with the packet it hands to `esp_now_send`. -/
inductive LoopOutput
  | ledVerde (level : Bool)
  | send (chordMask velocity : UInt8) (packet : ChordMessage)

/-- `isButtonPressed`, and the same test of the debounced STRUM level. -/
def isButtonPressed (raw : Bool) : Bool := if buttonsActiveLow then raw == false else raw == true

/-- The bit of a button in the mask. -/
def maskBit (raw : Bool) (i : UInt8) : UInt8 := if isButtonPressed raw then 1 <<< i else 0

/-- `buildChordMask`. -/
def buildChordMask (raw : Vector Bool 4) : UInt8 :=
  maskBit raw[0]! 0 ||| maskBit raw[1]! 1 ||| maskBit raw[2]! 2 ||| maskBit raw[3]! 3

/-- The first part of a pass: the LED is switched off when its time has come. -/
def apagarLedVerde (s : Loop) (now : UInt32) : Loop × List LoopOutput :=
  if s.ledVerdeEncendido && now ≥ s.ledVerdeApagarMs then
    ({ s with ledVerdeEncendido := false }, [.ledVerde false])
  else (s, [])

/-- `encenderLedVerde`. -/
def encenderLedVerde (s : Loop) (nowLed : UInt32) : Loop × List LoopOutput :=
  ({ s with ledVerdeEncendido := true, ledVerdeApagarMs := nowLed + ledVerdeTiempo }, [.ledVerde true])

/-- `velocityDetectada` of a magnitude; `none` where no strum is detected. -/
def velocityDe (magnitud : ℚ) : Option UInt8 :=
  if magnitud ≥ umbralFuerte then some velFuerte
  else if magnitud ≥ umbralNormal then some velNormal
  else none

/-- The second part: a strum is detected at most every `TIEMPO_ESPERA`. -/
def detectarRasgueo (s : Loop) (x : Reading) : Loop × Option UInt8 × List LoopOutput :=
  if x.now - s.ultimoRasgueoMs > tiempoEspera then
    match velocityDe x.magnitud with
    | some velocity =>
        let led := encenderLedVerde { s with ultimoRasgueoMs := x.now } x.nowLed
        (led.1, some velocity, led.2)
    | none => (s, none, [])
  else (s, none, [])

/-- The raw reading of STRUM, and when it last changed. -/
def leerStrum (s : Loop) (x : Reading) : Loop :=
  if x.rawStrum ≠ s.lastReadStrum then { s with lastReadStrum := x.rawStrum, lastChangeStrum := x.now } else s

/-- The third part: the debounced level of STRUM. -/
def debounceStrum (s : Loop) (x : Reading) : Loop :=
  let s := leerStrum s x
  if x.now - s.lastChangeStrum ≥ debounceMs && s.lastStableStrum ≠ s.lastReadStrum then
    { s with lastStableStrum := s.lastReadStrum }
  else s

/-- The body of `loop()`. -/
def loop (s : Loop) (x : Reading) : Loop × List LoopOutput :=
  let (s, apagado) := apagarLedVerde s x.now
  let (s, rasgueo, encendido) := detectarRasgueo s x
  let s := debounceStrum s x
  let strumPressed := isButtonPressed s.lastStableStrum
  let chordMask := buildChordMask x.raw
  let hayAcorde := chordMask != 0
  match rasgueo with
  | some velocity =>
      if strumPressed && hayAcorde then
        let packet := sendPacket s.msg chordMask velocity
        ({ s with msg := packet }, apagado ++ encendido ++ [.send chordMask velocity packet])
      else (s, apagado ++ encendido)
  | none => (s, apagado ++ encendido)

/-! ## What a pass does -/

/-- The velocity of the strum that a pass detects, if it detects one. -/
def rasgueo (s : Loop) (x : Reading) : Option UInt8 :=
  if x.now - s.ultimoRasgueoMs > tiempoEspera then velocityDe x.magnitud else none

/-- The mask, the velocity and the packet of a call to `sendPacket`. -/
def LoopOutput.send? : LoopOutput → Option (UInt8 × UInt8 × ChordMessage)
  | .ledVerde _ => none
  | .send chordMask velocity packet => some (chordMask, velocity, packet)

@[simp] theorem ultimoRasgueoMs_apagarLedVerde (s : Loop) (now : UInt32) :
    (apagarLedVerde s now).1.ultimoRasgueoMs = s.ultimoRasgueoMs := by
  unfold apagarLedVerde
  split <;> rfl

theorem send?_apagarLedVerde (s : Loop) (now : UInt32) :
    (apagarLedVerde s now).2.filterMap LoopOutput.send? = [] := by
  unfold apagarLedVerde
  split <;> rfl

/-- Detecting a strum sets its time. -/
theorem ultimoRasgueoMs_detectarRasgueo (s : Loop) (x : Reading) :
    (detectarRasgueo s x).1.ultimoRasgueoMs = if (rasgueo s x).isSome then x.now else s.ultimoRasgueoMs := by
  unfold detectarRasgueo rasgueo
  split
  · cases velocityDe x.magnitud <;> rfl
  · rfl

theorem detectarRasgueo_velocity (s : Loop) (x : Reading) : (detectarRasgueo s x).2.1 = rasgueo s x := by
  unfold detectarRasgueo rasgueo
  split
  · cases velocityDe x.magnitud <;> rfl
  · rfl

theorem send?_detectarRasgueo (s : Loop) (x : Reading) :
    (detectarRasgueo s x).2.2.filterMap LoopOutput.send? = [] := by
  unfold detectarRasgueo
  split
  · cases velocityDe x.magnitud <;> rfl
  · rfl

@[simp] theorem ultimoRasgueoMs_debounceStrum (s : Loop) (x : Reading) :
    (debounceStrum s x).ultimoRasgueoMs = s.ultimoRasgueoMs := by
  have hleer : (leerStrum s x).ultimoRasgueoMs = s.ultimoRasgueoMs := by
    unfold leerStrum
    split <;> rfl
  rw [← hleer]
  unfold debounceStrum
  dsimp only
  split <;> rfl

/-- The variables when it is decided whether to send: only `msg` changes after that. -/
def antesDeEnviar (s : Loop) (x : Reading) : Loop :=
  debounceStrum (detectarRasgueo (apagarLedVerde s x.now).1 x).1 x

theorem rasgueo_apagarLedVerde (s : Loop) (x : Reading) : rasgueo (apagarLedVerde s x.now).1 x = rasgueo s x := by
  unfold rasgueo
  rw [ultimoRasgueoMs_apagarLedVerde]

/-- What is sent, and all of the state but `msg`. -/
theorem loop_cases (s : Loop) (x : Reading) :
    (∃ msg, (loop s x).1 = { antesDeEnviar s x with msg := msg })
      ∧ (loop s x).2.filterMap LoopOutput.send? = ((rasgueo s x).filter (fun _ =>
          isButtonPressed (antesDeEnviar s x).lastStableStrum && buildChordMask x.raw != 0)).toList.map
            (fun velocity => (buildChordMask x.raw, velocity, sendPacket default (buildChordMask x.raw) velocity)) := by
  have hvelocity : (detectarRasgueo (apagarLedVerde s x.now).1 x).2.1 = rasgueo s x := by
    rw [detectarRasgueo_velocity, rasgueo_apagarLedVerde]
  have hleds : ((apagarLedVerde s x.now).2 ++ (detectarRasgueo (apagarLedVerde s x.now).1 x).2.2).filterMap
      LoopOutput.send? = [] := by
    rw [List.filterMap_append, send?_apagarLedVerde, send?_detectarRasgueo, List.append_nil]
  unfold loop
  simp only [hvelocity]
  cases hrasgueo : rasgueo s x with
  | none => exact ⟨⟨_, rfl⟩, hleds⟩
  | some velocity =>
      simp only [← antesDeEnviar.eq_1]
      split
      · rename_i hsend
        refine ⟨⟨_, rfl⟩, ?_⟩
        rw [List.filterMap_append, hleds, Option.filter_some, if_pos hsend]
        rfl
      · rename_i hkeep
        refine ⟨⟨_, rfl⟩, ?_⟩
        rw [hleds, Option.filter_some, if_neg hkeep]
        rfl

/-- A pass calls `sendPacket` at most once, with the mask of the buttons it reads, which is not empty. -/
theorem send?_loop (s : Loop) (x : Reading) :
    (loop s x).2.filterMap LoopOutput.send? = []
      ∨ ∃ velocity, buildChordMask x.raw ≠ 0 ∧ (loop s x).2.filterMap LoopOutput.send?
          = [(buildChordMask x.raw, velocity, sendPacket default (buildChordMask x.raw) velocity)] := by
  rw [(loop_cases s x).2]
  cases hcall : (rasgueo s x).filter (fun _ =>
      isButtonPressed (antesDeEnviar s x).lastStableStrum && buildChordMask x.raw != 0) with
  | none => exact Or.inl rfl
  | some velocity =>
      obtain ⟨-, hsend⟩ := Option.filter_eq_some_iff.mp hcall
      rw [Bool.and_eq_true, bne_iff_ne] at hsend
      exact Or.inr ⟨velocity, hsend.2, rfl⟩

/-- The time of the last strum moves when one is detected, sent or not. -/
theorem ultimoRasgueoMs_loop (s : Loop) (x : Reading) :
    (loop s x).1.ultimoRasgueoMs = if (rasgueo s x).isSome then x.now else s.ultimoRasgueoMs := by
  obtain ⟨msg, hstate⟩ := (loop_cases s x).1
  rw [hstate]
  show (antesDeEnviar s x).ultimoRasgueoMs = _
  unfold antesDeEnviar
  rw [ultimoRasgueoMs_debounceStrum, ultimoRasgueoMs_detectarRasgueo, rasgueo_apagarLedVerde,
    ultimoRasgueoMs_apagarLedVerde]

end GuitarraMidi.Emisora
