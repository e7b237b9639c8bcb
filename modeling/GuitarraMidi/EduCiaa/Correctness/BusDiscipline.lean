import GuitarraMidi.EduCiaa.Lowlevel

/-!
# `EduCiaa.Correctness.BusDiscipline` — two interfaces on one bus

Whatever the driver is called for, and however long the chip keeps DREQ low, every transfer finds the select line of its
own interface low and the other high, a select line is driven low only when the chip has just said that it is ready, and
between two calls both are high (`bus_discipline`).

Each function of the driver has one triple, made of those of the functions it calls: it takes a history in which no
interface is selected to another, and does nothing on the way that the discipline does not allow.
-/

namespace GuitarraMidi.EduCiaa.Lowlevel

open Traced

/-! ## The discipline -/

/-- The select line of an interface. -/
def Interface.select : Interface → Pin
  | .sci => .xcs
  | .sdi => .xdcs

def Interface.other : Interface → Interface
  | .sci => .sdi
  | .sdi => .sci

/-- The level that a call sets a line to. `gpioInit` sets a line low when it makes it an output. -/
def Act.drives (pin : Pin) : Act → Option Bool
  | .gpioInit p .output => if p = pin then some false else none
  | .gpioWrite p level => if p = pin then some level else none
  | _ => none

/-- The interface that a transfer is for. -/
def Act.transfer? : Act → Option Interface
  | .spiWrite interface _ => some interface
  | .spiRead interface _ => some interface
  | _ => none

/-- A reading of DREQ, a transfer, or an edge of XRESET. -/
def Act.disturbs : Act → Bool
  | .gpioRead pin _ => pin = .dreq
  | .spiWrite _ _ => true
  | .spiRead _ _ => true
  | a => (a.drives .xreset).isSome

/-- A line has been set to a level last. -/
def Level (pin : Pin) (level : Bool) (h : List Act) : Prop :=
  Since (fun a => a.drives pin = none) (fun a => a.drives pin = some level) h

/-- The last reading of DREQ was high, and there has been no transfer and no edge of XRESET since. -/
def Ready (h : List Act) : Prop := Since (fun a => a.disturbs = false) (fun a => a = .gpioRead .dreq true) h

/-- What the discipline asks of a call after `h`. -/
def Allowed (h : List Act) (a : Act) : Prop :=
  (∀ i, a.transfer? = some i → Level i.select false h ∧ Level i.other.select true h)
    ∧ ∀ i : Interface, a.drives i.select = some false → Ready h

theorem drives_gpioWrite_self (pin : Pin) (level : Bool) : (Act.gpioWrite pin level).drives pin = some level :=
  if_pos rfl

theorem drives_gpioWrite_of_ne {pin p : Pin} (hne : p ≠ pin) (level : Bool) :
    (Act.gpioWrite p level).drives pin = none := if_neg hne

theorem Interface.other_select_ne (i : Interface) : i.select ≠ i.other.select := by
  cases i <;> decide

theorem Interface.eq_or_other (i j : Interface) : j = i ∨ j = i.other := by
  cases i <;> cases j <;> decide

theorem level_set {pin : Pin} {level : Bool} {a : Act} (ha : a.drives pin = some level) (h : List Act) :
    Level pin level (h ++ [a]) := since_concat.mpr (Or.inl ha)

theorem Level.kept {pin : Pin} {level : Bool} {a : Act} {h : List Act} (hl : Level pin level h)
    (ha : a.drives pin = none) : Level pin level (h ++ [a]) := since_concat.mpr (Or.inr ⟨ha, hl⟩)

/-! ## One call of the sAPI -/

/-- No interface is selected. -/
structure Idle (e : Chip) (h : List Act) : Prop where
  high : ∀ i : Interface, Level i.select true h

/-- The same, and the chip is ready. -/
structure IdleReady (e : Chip) (h : List Act) : Prop extends Idle e h where
  ready : Ready h

/-- An interface is selected, and not the other. -/
structure Selected (i : Interface) (e : Chip) (h : List Act) : Prop where
  low : Level i.select false h
  high : Level i.other.select true h

variable {e e' : Chip} {h : List Act}

/-- A call that is no transfer and drives no select line low is allowed. -/
theorem allowed_of_harmless {a : Act} (htransfer : a.transfer? = none)
    (hdrives : ∀ i : Interface, a.drives i.select ≠ some false) : Allowed h a := by
  constructor
  · intro i hi
    exact absurd (htransfer.symm.trans hi) (by simp)
  · intro i hi
    exact absurd hi (hdrives i)

theorem Idle.kept {a : Act} (hidle : Idle e h) (hdrives : ∀ i : Interface, a.drives i.select = none) :
    Idle e' (h ++ [a]) where
  high := fun i => (hidle.high i).kept (hdrives i)

/-- A call that has nothing to do with the select lines. -/
theorem triple_idle {a : Act} (htransfer : a.transfer? = none) (hdrives : ∀ i : Interface, a.drives i.select = none) :
    Triple Allowed Idle (act a) (fun _ => Idle) := by
  apply triple_act
  · intro e h _
    exact allowed_of_harmless htransfer (fun i => by rw [hdrives i]; simp)
  · intro e h hidle
    exact hidle.kept hdrives

theorem triple_delay (ms : Nat) : Triple Allowed Idle (delay ms) (fun _ => Idle) :=
  triple_idle rfl (fun _ => rfl)

theorem triple_gpioWrite_xreset (level : Bool) :
    Triple Allowed Idle (gpioWrite .xreset level) (fun _ => Idle) := by
  apply triple_idle rfl
  intro i
  cases i <;> rfl

theorem triple_gpioReadDREQ :
    Triple Allowed Idle gpioReadDREQ (fun level e h => Idle e h ∧ (level = true → Ready h)) := by
  rintro ⟨dreq, miso⟩ h level e' tr hidle hrun
  cases dreq with
  | nil => exact absurd hrun (by simp [gpioReadDREQ])
  | cons reading dreq =>
      obtain ⟨rfl, rfl, rfl⟩ : reading = level ∧ ⟨dreq, miso⟩ = e' ∧ [Act.gpioRead .dreq reading] = tr := by
        simpa [gpioReadDREQ] using hrun
      refine ⟨lawful_singleton (allowed_of_harmless rfl (fun _ => by simp [Act.drives])), ?_, ?_⟩
      · exact hidle.kept (fun _ => rfl)
      · rintro rfl
        exact since_concat.mpr (Or.inl rfl)

/-- An interface is selected when the chip is ready. -/
theorem triple_select (i : Interface) :
    Triple Allowed IdleReady (gpioWrite i.select false) (fun _ => Selected i) := by
  apply triple_act
  · intro e h hready
    exact ⟨fun _ hi => absurd hi (by simp [Act.transfer?]), fun _ _ => hready.ready⟩
  · intro e h hready
    constructor
    · exact level_set (drives_gpioWrite_self _ _) h
    · exact (hready.high i.other).kept (drives_gpioWrite_of_ne i.other_select_ne _)

theorem triple_deselect (i : Interface) :
    Triple Allowed (Selected i) (gpioWrite i.select true) (fun _ => Idle) := by
  apply triple_act
  · intro e h _
    apply allowed_of_harmless rfl
    intro j
    rcases i.eq_or_other j with rfl | rfl
    · rw [drives_gpioWrite_self]
      decide
    · rw [drives_gpioWrite_of_ne i.other_select_ne]
      decide
  · intro e h hselected
    constructor
    intro j
    rcases i.eq_or_other j with rfl | rfl
    · exact level_set (drives_gpioWrite_self _ _) h
    · exact hselected.high.kept (drives_gpioWrite_of_ne i.other_select_ne _)

theorem allowed_transfer {i : Interface} {a : Act} (ha : a.transfer? = some i)
    (hdrives : ∀ pin, a.drives pin = none) (hselected : Selected i e h) : Allowed h a := by
  constructor
  · intro j hj
    obtain rfl : i = j := Option.some.inj (ha.symm.trans hj)
    exact ⟨hselected.low, hselected.high⟩
  · intro j hj
    exact absurd ((hdrives _).symm.trans hj) (by simp)

theorem Selected.kept {i : Interface} {a : Act} (hselected : Selected i e h)
    (hdrives : ∀ pin, a.drives pin = none) : Selected i e' (h ++ [a]) where
  low := hselected.low.kept (hdrives _)
  high := hselected.high.kept (hdrives _)

theorem triple_spiWrite (i : Interface) (bytes : List UInt8) :
    Triple Allowed (Selected i) (spiWrite i bytes) (fun _ => Selected i) := by
  apply triple_act
  · intro e h hselected
    exact allowed_transfer rfl (fun _ => rfl) hselected
  · intro e h hselected
    exact hselected.kept (fun _ => rfl)

theorem triple_spiRead (i : Interface) (n : Nat) :
    Triple Allowed (Selected i) (spiRead i n) (fun _ => Selected i) := by
  intro e h rx e' tr hselected hrun
  unfold spiRead at hrun
  split at hrun
  · obtain ⟨rfl, rfl, rfl⟩ : e.miso.take n = rx ∧ _ = e' ∧ [Act.spiRead i (e.miso.take n)] = tr := by
      simpa using hrun
    have hallowed : Allowed h (.spiRead i (e.miso.take n)) := allowed_transfer rfl (fun _ => rfl) hselected
    exact ⟨lawful_singleton hallowed, hselected.kept (fun _ => rfl)⟩
  · exact absurd hrun (by simp)

/-! ## The functions of the driver -/

theorem triple_waitDREQ : Triple Allowed Idle waitDREQ (fun _ => IdleReady) := by
  have hloop : ∀ n, Triple Allowed Idle (whileLoop dreqLow (delay 1) n) (fun _ => IdleReady) := by
    apply triple_whileLoop
    · apply triple_bind triple_gpioReadDREQ
      intro level
      apply triple_pure
      rintro e h ⟨hidle, hready⟩
      cases level with
      | true => exact ⟨hidle, hready rfl⟩
      | false => exact hidle
    · exact triple_delay 1
  intro e h u e' tr hidle hrun
  exact hloop _ e h u e' tr hidle hrun

/-- What may be called at any time may be called when the chip is ready. -/
theorem triple_of_ready {β : Type} {x : Driver β} {Q : β → Chip → List Act → Prop}
    (hx : Triple Allowed Idle x Q) : Triple Allowed IdleReady x Q :=
  hx.weaken (fun _ _ hready => hready.toIdle) (fun _ _ _ hQ => hQ)

theorem triple_to_idle {P : Chip → List Act → Prop} {x : Driver Unit}
    (hx : Triple Allowed P x (fun _ => IdleReady)) : Triple Allowed P x (fun _ => Idle) :=
  hx.weaken (fun _ _ hP => hP) (fun _ _ _ hready => hready.toIdle)

theorem triple_sciWrite (reg : UInt8) (val : UInt16) :
    Triple Allowed Idle (sciWrite reg val) (fun _ => IdleReady) := by
  unfold sciWrite
  refine triple_bind triple_waitDREQ (fun _ => ?_)
  refine triple_bind (triple_select .sci) (fun _ => ?_)
  refine triple_bind (triple_spiWrite .sci _) (fun _ => ?_)
  refine triple_bind (triple_deselect .sci) (fun _ => ?_)
  exact triple_waitDREQ

theorem triple_sciRead (reg : UInt8) : Triple Allowed Idle (sciRead reg) (fun _ => Idle) := by
  unfold sciRead
  refine triple_bind triple_waitDREQ (fun _ => ?_)
  refine triple_bind (triple_select .sci) (fun _ => ?_)
  refine triple_bind (triple_spiWrite .sci _) (fun _ => ?_)
  refine triple_bind (triple_spiRead .sci 2) (fun rx => ?_)
  refine triple_bind (triple_deselect .sci) (fun _ => ?_)
  exact triple_pure (fun _ _ hidle => hidle)

theorem triple_sdiWrite16 (hi lo : UInt8) :
    Triple Allowed Idle (sdiWrite16 hi lo) (fun _ => Idle) := by
  unfold sdiWrite16
  refine triple_bind triple_waitDREQ (fun _ => ?_)
  refine triple_bind (triple_select .sdi) (fun _ => ?_)
  refine triple_bind (triple_spiWrite .sdi _) (fun _ => ?_)
  exact triple_deselect .sdi

theorem triple_hardResetVS : Triple Allowed Idle hardResetVS (fun _ => IdleReady) := by
  unfold hardResetVS
  refine triple_bind (triple_gpioWrite_xreset false) (fun _ => ?_)
  refine triple_bind (triple_delay 2) (fun _ => ?_)
  refine triple_bind (triple_gpioWrite_xreset true) (fun _ => ?_)
  refine triple_bind (triple_delay 2) (fun _ => ?_)
  exact triple_waitDREQ

theorem triple_softInitVS : Triple Allowed Idle softInitVS (fun _ => IdleReady) := by
  unfold softInitVS
  refine triple_bind (triple_sciRead sciMode) (fun m => ?_)
  exact triple_sciWrite sciMode _

theorem triple_loadUserCodeFromTables (tab : List (UInt8 × UInt16)) :
    Triple Allowed Idle (loadUserCodeFromTables tab) (fun _ => Idle) := by
  apply triple_forM
  rintro ⟨reg, data⟩ -
  refine triple_bind triple_waitDREQ (fun _ => ?_)
  exact triple_of_ready (triple_to_idle (triple_sciWrite reg data))

theorem triple_startRTMIDI : Triple Allowed Idle startRTMIDI (fun _ => IdleReady) := by
  unfold startRTMIDI
  refine triple_bind triple_waitDREQ (fun _ => ?_)
  refine triple_bind (triple_of_ready (triple_sciWrite sciAiaddr 0x0050)) (fun _ => ?_)
  exact triple_of_ready triple_waitDREQ

/-! ## Runs -/

/-- **A call keeps the discipline**, and leaves no interface selected. -/
theorem triple_exec (c : DriverCall) : Triple Allowed Idle c.exec (fun _ => Idle) := by
  cases c with
  | sciWrite reg val => exact triple_to_idle (triple_sciWrite reg val)
  | sciRead reg => exact triple_bind (triple_sciRead reg) (fun _ => triple_pure (fun _ _ hidle => hidle))
  | sdiWrite16 hi lo => exact triple_sdiWrite16 hi lo
  | hardResetVS => exact triple_to_idle triple_hardResetVS
  | softInitVS => exact triple_to_idle triple_softInitVS
  | loadUserCodeFromTables tab => exact triple_loadUserCodeFromTables tab
  | startRTMIDI => exact triple_to_idle triple_startRTMIDI

theorem triple_driver (calls : List DriverCall) : Triple Allowed Idle (driver calls) (fun _ => Idle) :=
  triple_forM (fun c _ => triple_exec c)

theorem idle_pinsInitTrace (e : Chip) : Idle e pinsInitTrace where
  high := by
    intro i
    cases i with
    | sci => exact ⟨pinsInitTrace.take 4, .gpioWrite .xcs true, pinsInitTrace.drop 5, rfl, rfl, by decide⟩
    | sdi => exact ⟨pinsInitTrace.take 5, .gpioWrite .xdcs true, pinsInitTrace.drop 6, rfl, rfl, by decide⟩

/-- Between two calls, and before and after them, no interface is selected. -/
theorem select_high {calls : List DriverCall} {tr : List Act} (hrun : driver calls e = some ((), e', tr))
    (i : Interface) : Level i.select true (pinsInitTrace ++ tr) :=
  (triple_driver calls e pinsInitTrace () e' tr (idle_pinsInitTrace e) hrun).2.high i

/-- **The bus discipline.** After `vs_pinsInit`, whatever the driver is called for: every transfer finds the select line
    of its interface low and the other high; a select line is driven low only where the last reading of DREQ was high
    and there has been no transfer and no edge of XRESET since; and between two calls, `cs` before and `cs'` after, both
    lines are high. -/
theorem bus_discipline (calls : List DriverCall) (e₀ e e' : Chip) (h tr : List Act)
    (hinit : vsPinsInit e₀ = some ((), e, h)) (hrun : driver calls e = some ((), e', tr)) :
    (∀ pre a post, tr = pre ++ a :: post →
        (∀ i, a.transfer? = some i → Level i.select false (h ++ pre) ∧ Level i.other.select true (h ++ pre))
        ∧ ∀ i : Interface, a.drives i.select = some false → Ready (h ++ pre))
      ∧ ∀ cs cs', calls = cs ++ cs' → ∃ e₁ tr₁ tr₂, driver cs e = some ((), e₁, tr₁)
          ∧ driver cs' e₁ = some ((), e', tr₂) ∧ tr = tr₁ ++ tr₂ ∧ ∀ i : Interface, Level i.select true (h ++ tr₁) := by
  obtain ⟨-, rfl, rfl⟩ : () = () ∧ e₀ = e ∧ pinsInitTrace = h := by simpa [vsPinsInit_eq] using hinit
  constructor
  · exact (triple_driver calls e₀ pinsInitTrace () e' tr (idle_pinsInitTrace e₀) hrun).1
  · rintro cs cs' rfl
    obtain ⟨e₁, tr₁, tr₂, hcs, hcs', htr⟩ := forM_append_eq_some.mp hrun
    exact ⟨e₁, tr₁, tr₂, hcs, hcs', htr, select_high hcs⟩

/-- A register is written, with one low reading of DREQ before it, and then a byte of MIDI sent. -/
theorem bus_discipline_two_calls :
    let tr : List Act := [.gpioRead .dreq false, .delay 1, .gpioRead .dreq true, .gpioWrite .xcs false,
      .spiWrite .sci [0x02, 0x0A, 0x00, 0x50], .gpioWrite .xcs true, .gpioRead .dreq true, .gpioRead .dreq true,
      .gpioWrite .xdcs false, .spiWrite .sdi [0x00, 0x90], .gpioWrite .xdcs true]
    driver [.sciWrite sciAiaddr 0x0050, .sdiWrite16 0x00 0x90] ⟨[false, true, true, true], []⟩ = some ((), ⟨[], []⟩, tr)
      ∧ Ready (pinsInitTrace ++ tr.take 8) ∧ Level .xdcs false (pinsInitTrace ++ tr.take 9)
      ∧ Level .xcs true (pinsInitTrace ++ tr.take 9)
      ∧ ∃ tr₁ tr₂, tr = tr₁ ++ tr₂ ∧ Level .xdcs true (pinsInitTrace ++ tr₁) := by
  intro tr
  have hrun : driver [.sciWrite sciAiaddr 0x0050, .sdiWrite16 0x00 0x90] ⟨[false, true, true, true], []⟩
      = some ((), ⟨[], []⟩, tr) := rfl
  obtain ⟨hallowed, hbetween⟩ := bus_discipline _ _ _ _ _ _ (vsPinsInit_eq _) hrun
  obtain ⟨hlow, hother⟩ := (hallowed (tr.take 9) (.spiWrite .sdi [0x00, 0x90]) (tr.drop 10) rfl).1 .sdi rfl
  have hready := (hallowed (tr.take 8) (.gpioWrite .xdcs false) (tr.drop 9) rfl).2 .sdi rfl
  obtain ⟨-, tr₁, tr₂, -, -, htr, hhigh⟩ := hbetween [.sciWrite sciAiaddr 0x0050] [.sdiWrite16 0x00 0x90] rfl
  exact ⟨hrun, hready, hlow, hother, tr₁, tr₂, htr, hhigh .sdi⟩

end GuitarraMidi.EduCiaa.Lowlevel
