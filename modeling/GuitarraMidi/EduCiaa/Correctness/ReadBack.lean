import GuitarraMidi.EduCiaa.Correctness.BusDiscipline
import GuitarraMidi.Lib.Transducer

/-!
# `EduCiaa.Correctness.ReadBack` — what the chip makes of the bus

The chip does not see the calls of the driver. It sees three lines go up and down and bytes go by, and has to find the
commands in them: a command is what is sent while one interface is selected. Such a listener finds the commands of the
calls, all of them, in their order and nothing else (`bus_read_back`).

A `Device` is what the chip does with its commands: anything with registers to write and to read, data to take, and a
reset. For every such chip, what the driver does on the bus is what its calls mean (`driver_on_device`): `softInitVS`, say,
sets a bit of MODE and leaves the others, for it writes back what it has read.
-/

namespace GuitarraMidi.EduCiaa.Lowlevel

open Traced Transducer

/-! ## The other end of the bus -/

/-- What is sent while one interface is selected, or an edge of XRESET. -/
inductive Transaction
  | write (reg : UInt8) (val : UInt16)
  | read (reg : UInt8) (val : UInt16)
  | data (hi lo : UInt8)
  | reset
  | unknown (mosi miso : List UInt8)
deriving DecidableEq, Repr

/-- The levels of the lines, and the bytes since one of the select lines has changed. -/
structure Listener where
  xcs : Bool
  xdcs : Bool
  xreset : Bool
  mosi : List UInt8
  miso : List UInt8
deriving DecidableEq, Repr

/-- All lines are high. -/
def Listener.idle : Listener := ⟨true, true, true, [], []⟩

/-- A word, its high byte first. -/
def word (hi lo : UInt8) : UInt16 := (hi.toUInt16 <<< 8) ||| lo.toUInt16

/-- A command to the registers. -/
def sciTransaction (mosi miso : List UInt8) : Transaction :=
  match mosi, miso with
  | [op, reg, hi, lo], [] => if op = 0x02 then .write reg (word hi lo) else .unknown mosi miso
  | [op, reg], [hi, lo] => if op = 0x03 then .read reg (word hi lo) else .unknown mosi miso
  | _, _ => .unknown mosi miso

/-- Two bytes of data. -/
def sdiTransaction (mosi miso : List UInt8) : Transaction :=
  match mosi, miso with
  | [hi, lo], [] => .data hi lo
  | _, _ => .unknown mosi miso

/-- What has been sent when a select line goes up, by which of them were low. -/
def Listener.transaction (l : Listener) : Transaction :=
  match l.xcs, l.xdcs with
  | false, true => sciTransaction l.mosi l.miso
  | true, false => sdiTransaction l.mosi l.miso
  | _, _ => .unknown l.mosi l.miso

/-- The select lines, and with a change of one of them the bytes are over. -/
def Listener.setSelect (l : Listener) (xcs xdcs : Bool) : Listener × List Transaction :=
  if l.xcs = xcs ∧ l.xdcs = xdcs then (l, [])
  else ({ l with xcs := xcs, xdcs := xdcs, mosi := [], miso := [] },
    if (!l.xcs && xcs) || (!l.xdcs && xdcs) then [l.transaction] else [])

/-- A line is set to a level. -/
def Listener.setLine (l : Listener) (pin : Pin) (level : Bool) : Listener × List Transaction :=
  match pin with
  | .xcs => l.setSelect level l.xdcs
  | .xdcs => l.setSelect l.xcs level
  | .xreset => ({ l with xreset := level }, if !l.xreset && level then [.reset] else [])
  | .dreq => (l, [])

/-- A call of the sAPI as the chip sees it. For which interface a transfer is made it does not see. -/
def listen (l : Listener) : Act → Listener × List Transaction
  | .gpioInit pin .output => l.setLine pin false
  | .gpioInit _ .input => (l, [])
  | .gpioWrite pin level => l.setLine pin level
  | .gpioRead _ _ => (l, [])
  | .spiWrite _ bytes => ({ l with mosi := l.mosi ++ bytes }, [])
  | .spiRead _ bytes => ({ l with miso := l.miso ++ bytes }, [])
  | .delay _ => (l, [])

/-- Whatever the lines were before, `vs_pinsInit` leaves them high. -/
theorem listen_pinsInit (l : Listener) : finish listen l pinsInitTrace = .idle := by
  obtain ⟨xcs, xdcs, xreset, mosi, miso⟩ := l
  cases xcs <;> cases xdcs <;> cases xreset <;> rfl

/-! ## What the calls say -/

/-- The commands a call is made of. The values that the chip sends are what they are. -/
inductive DriverCall.Sends : DriverCall → List Transaction → Prop
  | sciWrite (reg : UInt8) (val : UInt16) : Sends (.sciWrite reg val) [.write reg val]
  | sciRead (reg : UInt8) (val : UInt16) : Sends (.sciRead reg) [.read reg val]
  | sdiWrite16 (hi lo : UInt8) : Sends (.sdiWrite16 hi lo) [.data hi lo]
  | hardResetVS : Sends .hardResetVS [.reset]
  | softInitVS (m : UInt16) : Sends .softInitVS [.read sciMode m, .write sciMode (m ||| smSdinew)]
  | loadUserCodeFromTables (tab : List (UInt8 × UInt16)) :
      Sends (.loadUserCodeFromTables tab) (tab.map (fun (reg, data) => .write reg data))
  | startRTMIDI : Sends .startRTMIDI [.write sciAiaddr 0x0050]

theorem word_of_halves (val : UInt16) : word (val >>> 8).toUInt8 (val &&& 0xFF).toUInt8 = val := by
  apply UInt16.toNat_inj.mp
  have hhigh : ((val >>> 8).toUInt8).toNat = val.toNat / 2 ^ 8 := by
    rw [UInt16.toNat_toUInt8, UInt16.toNat_shiftRight]
    show val.toNat >>> 8 % 2 ^ 8 = _
    rw [Nat.shiftRight_eq_div_pow]
    have := val.toNat_lt
    omega
  have hlow : ((val &&& 0xFF).toUInt8).toNat = val.toNat % 2 ^ 8 := by
    rw [UInt16.toNat_toUInt8, UInt16.toNat_and]
    show (val.toNat &&& (2 ^ 8 - 1)) % 2 ^ 8 = _
    rw [Nat.and_two_pow_sub_one_eq_mod]
    omega
  have hshift : (((val >>> 8).toUInt8).toUInt16 <<< 8).toNat = val.toNat / 2 ^ 8 * 2 ^ 8 := by
    rw [UInt16.toNat_shiftLeft, UInt8.toNat_toUInt16, hhigh]
    show ((val.toNat / 2 ^ 8) <<< 8) % 2 ^ 16 = _
    rw [Nat.shiftLeft_eq]
    have := val.toNat_lt
    omega
  unfold word
  rw [UInt16.toNat_or, hshift, UInt8.toNat_toUInt16, hlow, Nat.mul_comm, ← Nat.two_pow_add_eq_or_of_lt (by omega)]
  omega

/-! ## What is heard of the functions of the driver -/

/-- The lines are those of `l`, and `txs` has been heard. -/
def Hears (l : Listener) (txs : List Transaction) (_ : Chip) (h : List Act) : Prop :=
  finish listen .idle h = l ∧ emit listen .idle h = txs

/-- Any history. -/
abbrev Any (_ : List Act) (_ : Act) : Prop := True

variable {l l' : Listener} {txs new : List Transaction}

theorem Hears.concat {e e' : Chip} {h : List Act} {a : Act} (hears : Hears l txs e h) (hstep : listen l a = (l', new)) :
    Hears l' (txs ++ new) e' (h ++ [a]) := by
  obtain ⟨rfl, rfl⟩ := hears
  exact ⟨by rw [finish_concat, hstep], by rw [emit_concat, hstep]⟩

theorem lawful_any (h tr : List Act) : Lawful Any h tr := fun _ _ _ _ => trivial

/-- A call that a command is heard with, or the end of one. -/
theorem triple_said {a : Act} (hstep : listen l a = (l', new)) :
    Triple Any (Hears l txs) (act a) (fun _ => Hears l' (txs ++ new)) :=
  triple_act (fun _ _ _ => trivial) (fun _ _ hears => hears.concat hstep)

/-- A call that nothing is heard with. -/
theorem triple_silent {a : Act} (hstep : listen l a = (l', [])) :
    Triple Any (Hears l txs) (act a) (fun _ => Hears l' txs) := by
  have hsends := @triple_said l l' txs [] a hstep
  rwa [List.append_nil] at hsends

theorem hears_waitDREQ : Triple Any (Hears l txs) waitDREQ (fun _ => Hears l txs) := by
  have hread : Triple Any (Hears l txs) gpioReadDREQ (fun _ => Hears l txs) := by
    rintro ⟨dreq, miso⟩ h level e' tr hears hrun
    cases dreq with
    | nil => exact absurd hrun (by simp [gpioReadDREQ])
    | cons reading dreq =>
        obtain ⟨-, -, rfl⟩ : reading = level ∧ ⟨dreq, miso⟩ = e' ∧ [Act.gpioRead .dreq reading] = tr := by
          simpa [gpioReadDREQ] using hrun
        refine ⟨lawful_any h _, ?_⟩
        have hkept := @Hears.concat l l txs [] _ e' h (.gpioRead .dreq reading) hears rfl
        rwa [List.append_nil] at hkept
  have hloop : ∀ n, Triple Any (Hears l txs) (whileLoop dreqLow (delay 1) n) (fun _ => Hears l txs) := by
    apply triple_whileLoop
    · apply triple_bind hread
      intro level
      apply triple_pure
      intro e h hears
      split <;> exact hears
    · exact triple_silent rfl
  intro e h u e' tr hears hrun
  exact hloop _ e h u e' tr hears hrun

/-- The interface of the registers is selected, and has been sent these bytes. -/
def sciSelected (mosi miso : List UInt8) : Listener := ⟨false, true, true, mosi, miso⟩

theorem hears_sciWrite (reg : UInt8) (val : UInt16) :
    Triple Any (Hears .idle txs) (sciWrite reg val) (fun _ => Hears .idle (txs ++ [.write reg val])) := by
  have hcommand : sciTransaction [0x02, reg, (val >>> 8).toUInt8, (val &&& 0xFF).toUInt8] [] = .write reg val := by
    show Transaction.write reg (word (val >>> 8).toUInt8 (val &&& 0xFF).toUInt8) = _
    rw [word_of_halves]
  unfold sciWrite
  refine triple_bind hears_waitDREQ (fun _ => ?_)
  refine triple_bind (@triple_silent _ (sciSelected [] []) _ _ rfl) (fun _ => ?_)
  refine triple_bind (@triple_silent _ (sciSelected [0x02, reg, _, _] []) _ _ rfl) (fun _ => ?_)
  refine triple_bind (@triple_said _ .idle _ [.write reg val] _ ?_) (fun _ => hears_waitDREQ)
  rw [← hcommand]
  rfl

theorem hears_sciRead (reg : UInt8) :
    Triple Any (Hears .idle txs) (sciRead reg) (fun val => Hears .idle (txs ++ [.read reg val])) := by
  have hread : Triple Any (Hears (sciSelected [0x03, reg] []) txs) (spiRead .sci 2)
      (fun rx e h => rx.length = 2 ∧ Hears (sciSelected [0x03, reg] rx) txs e h) := by
    intro e h rx e' tr hears hrun
    unfold spiRead at hrun
    split at hrun
    · rename_i henough
      obtain ⟨rfl, -, rfl⟩ : e.miso.take 2 = rx ∧ _ = e' ∧ [Act.spiRead .sci (e.miso.take 2)] = tr := by
        simpa using hrun
      have hkept := @Hears.concat _ (sciSelected [0x03, reg] (e.miso.take 2)) txs [] e e' h
        (.spiRead .sci (e.miso.take 2)) hears rfl
      rw [List.append_nil] at hkept
      exact ⟨lawful_any h _, List.length_take_of_le henough, hkept⟩
    · exact absurd hrun (by simp)
  unfold sciRead
  refine triple_bind hears_waitDREQ (fun _ => ?_)
  refine triple_bind (@triple_silent _ (sciSelected [] []) _ _ rfl) (fun _ => ?_)
  refine triple_bind (@triple_silent _ (sciSelected [0x03, reg] []) _ _ rfl) (fun _ => ?_)
  refine triple_bind hread (fun rx => ?_)
  refine triple_of_pre (fun _ _ hpost => hpost.1) (fun hlength => ?_)
  obtain ⟨hi, lo, rfl⟩ := List.length_eq_two.mp hlength
  refine (triple_bind (@triple_said _ .idle txs [.read reg (word hi lo)] _ rfl) (fun _ => ?_)).weaken
    (fun _ _ hpost => hpost.2) (fun _ _ _ hears => hears)
  exact triple_pure (fun _ _ hears => hears)

theorem hears_sdiWrite16 (hi lo : UInt8) :
    Triple Any (Hears .idle txs) (sdiWrite16 hi lo) (fun _ => Hears .idle (txs ++ [.data hi lo])) := by
  unfold sdiWrite16
  refine triple_bind hears_waitDREQ (fun _ => ?_)
  refine triple_bind (@triple_silent _ ⟨true, false, true, [], []⟩ _ _ rfl) (fun _ => ?_)
  refine triple_bind (@triple_silent _ ⟨true, false, true, [hi, lo], []⟩ _ _ rfl) (fun _ => ?_)
  exact triple_said rfl

theorem hears_hardResetVS : Triple Any (Hears .idle txs) hardResetVS (fun _ => Hears .idle (txs ++ [.reset])) := by
  unfold hardResetVS
  refine triple_bind (@triple_silent _ ⟨true, true, false, [], []⟩ _ _ rfl) (fun _ => ?_)
  refine triple_bind (triple_silent rfl) (fun _ => ?_)
  refine triple_bind (@triple_said _ .idle _ [.reset] _ rfl) (fun _ => ?_)
  refine triple_bind (triple_silent rfl) (fun _ => ?_)
  exact hears_waitDREQ

/-! ## What is heard of the calls -/

/-- Commands that the call can be made of have been heard after `txs`. -/
def HearsCall (c : DriverCall) (txs : List Transaction) (e : Chip) (h : List Act) : Prop :=
  ∃ new, c.Sends new ∧ Hears .idle (txs ++ new) e h

theorem hears_softInitVS : Triple Any (Hears .idle txs) softInitVS (fun _ => HearsCall .softInitVS txs) := by
  unfold softInitVS
  refine triple_bind (hears_sciRead sciMode) (fun m => ?_)
  refine (hears_sciWrite sciMode (m ||| smSdinew)).weaken (fun _ _ hears => hears) (fun _ _ _ hears => ?_)
  rw [List.append_assoc] at hears
  exact ⟨_, .softInitVS m, hears⟩

theorem hears_loadUserCodeFromTables (tab : List (UInt8 × UInt16)) :
    Triple Any (Hears .idle txs) (loadUserCodeFromTables tab)
      (fun _ => Hears .idle (txs ++ tab.map (fun (reg, data) => .write reg data))) := by
  induction tab generalizing txs with
  | nil => exact triple_pure (fun _ _ hears => (List.append_nil txs).symm ▸ hears)
  | cons entry tab ih =>
      have hentry : Triple Any (Hears .idle txs) (do waitDREQ; sciWrite entry.1 entry.2)
          (fun _ => Hears .idle (txs ++ [.write entry.1 entry.2])) :=
        triple_bind hears_waitDREQ (fun _ => hears_sciWrite entry.1 entry.2)
      have hall := triple_bind hentry (fun _ => ih)
      rw [List.append_assoc] at hall
      exact hall

theorem hears_startRTMIDI :
    Triple Any (Hears .idle txs) startRTMIDI (fun _ => Hears .idle (txs ++ [.write sciAiaddr 0x0050])) := by
  unfold startRTMIDI
  refine triple_bind hears_waitDREQ (fun _ => ?_)
  exact triple_bind (hears_sciWrite sciAiaddr 0x0050) (fun _ => hears_waitDREQ)

/-- **A call is heard as the commands it is made of.** -/
theorem hears_exec (c : DriverCall) : Triple Any (Hears .idle txs) c.exec (fun _ => HearsCall c txs) := by
  have hsent : ∀ {x : Driver Unit} {new : List Transaction}, c.Sends new →
      Triple Any (Hears .idle txs) x (fun _ => Hears .idle (txs ++ new)) →
      Triple Any (Hears .idle txs) x (fun _ => HearsCall c txs) :=
    fun hnew hx => hx.weaken (fun _ _ hears => hears) (fun _ _ _ hears => ⟨_, hnew, hears⟩)
  cases c with
  | sciWrite reg val => exact hsent (.sciWrite reg val) (hears_sciWrite reg val)
  | sciRead reg =>
      exact triple_bind (hears_sciRead reg) (fun val => triple_pure (fun _ _ hears => ⟨_, .sciRead reg val, hears⟩))
  | sdiWrite16 hi lo => exact hsent (.sdiWrite16 hi lo) (hears_sdiWrite16 hi lo)
  | hardResetVS => exact hsent .hardResetVS hears_hardResetVS
  | softInitVS => exact hears_softInitVS
  | loadUserCodeFromTables tab => exact hsent (.loadUserCodeFromTables tab) (hears_loadUserCodeFromTables tab)
  | startRTMIDI => exact hsent .startRTMIDI hears_startRTMIDI

theorem hears_driver (calls : List DriverCall) : Triple Any (Hears .idle txs) (driver calls)
    (fun _ e h => ∃ new, List.Forall₂ DriverCall.Sends calls new ∧ Hears .idle (txs ++ new.flatten) e h) := by
  induction calls generalizing txs with
  | nil => exact triple_pure (fun _ _ hears => ⟨[], .nil, (List.append_nil txs).symm ▸ hears⟩)
  | cons c calls ih =>
      refine triple_bind (hears_exec c) (fun _ => ?_)
      rintro e h u e' tr ⟨new, hnew, hears⟩ hrun
      obtain ⟨hlaw, rest, hrest, hall⟩ := ih e h u e' tr hears hrun
      rw [List.append_assoc] at hall
      exact ⟨hlaw, new :: rest, .cons hnew hrest, hall⟩

/-- What is heard when all lines are high. -/
theorem heard_of_run {calls : List DriverCall} {e e' : Chip} {tr : List Act}
    (hrun : driver calls e = some ((), e', tr)) :
    ∃ txs, List.Forall₂ DriverCall.Sends calls txs
      ∧ emit listen .idle tr = txs.flatten ∧ finish listen .idle tr = .idle := by
  obtain ⟨-, txs, hsends, hfin, hemit⟩ := hears_driver calls e [] () e' tr ⟨rfl, rfl⟩ hrun
  exact ⟨txs, hsends, hemit, hfin⟩

/-- **The calls can be read back from the bus.** After `vs_pinsInit`, whatever the driver is called for, a listener that
    sees the levels of the lines and the bytes hears the commands that the calls are made of, and nothing else. -/
theorem bus_read_back (calls : List DriverCall) (e₀ e e' : Chip) (h tr : List Act)
    (hinit : vsPinsInit e₀ = some ((), e, h)) (hrun : driver calls e = some ((), e', tr)) :
    ∃ txs : List (List Transaction), List.Forall₂ DriverCall.Sends calls txs
      ∧ ∀ l, emit listen (finish listen l h) tr = txs.flatten ∧ finish listen (finish listen l h) tr = .idle := by
  obtain ⟨-, rfl, rfl⟩ : () = () ∧ e₀ = e ∧ pinsInitTrace = h := by simpa [vsPinsInit_eq] using hinit
  obtain ⟨txs, hsends, hheard⟩ := heard_of_run hrun
  exact ⟨txs, hsends, fun l => listen_pinsInit l ▸ hheard⟩

/-- MODE is 0x4000, and DREQ is high all the time. -/
def modeRead : Chip := ⟨[true, true, true, true], [0x40, 0x00]⟩

/-- The calls `softInitVS()` and `sdiWrite16(0x00, 0x90)`. -/
def initAndData : List DriverCall := [.softInitVS, .sdiWrite16 0x00 0x90]

/-- What the driver does for them. -/
def initAndDataTrace : List Act :=
  [.gpioRead .dreq true, .gpioWrite .xcs false, .spiWrite .sci [0x03, 0x00], .spiRead .sci [0x40, 0x00],
    .gpioWrite .xcs true, .gpioRead .dreq true, .gpioWrite .xcs false, .spiWrite .sci [0x02, 0x00, 0x48, 0x00],
    .gpioWrite .xcs true, .gpioRead .dreq true, .gpioRead .dreq true, .gpioWrite .xdcs false,
    .spiWrite .sdi [0x00, 0x90], .gpioWrite .xdcs true]

theorem run_initAndData : driver initAndData modeRead = some ((), ⟨[], []⟩, initAndDataTrace) := rfl

theorem heard_initAndData (l : Listener) : emit listen (finish listen l pinsInitTrace) initAndDataTrace
    = [.read 0x00 0x4000, .write 0x00 0x4800, .data 0x00 0x90] := by
  rw [listen_pinsInit]
  rfl

/-- The two calls, read back. -/
theorem initAndData_read_back : ∃ txs : List (List Transaction), List.Forall₂ DriverCall.Sends initAndData txs
    ∧ (∀ l, emit listen (finish listen l pinsInitTrace) initAndDataTrace = txs.flatten
      ∧ finish listen (finish listen l pinsInitTrace) initAndDataTrace = .idle)
    ∧ txs.flatten = [.read 0x00 0x4000, .write 0x00 0x4800, .data 0x00 0x90] := by
  obtain ⟨txs, hsends, hheard⟩ := bus_read_back initAndData _ _ _ _ _ (vsPinsInit_eq modeRead) run_initAndData
  exact ⟨txs, hsends, hheard, (hheard .idle).1.symm.trans (heard_initAndData .idle)⟩

/-! ## The chip -/

/-- A chip, as far as its two interfaces and its reset go. -/
structure Device (σ : Type*) where
  write : UInt8 → UInt16 → σ → σ
  read : UInt8 → σ → UInt16
  data : UInt8 → UInt8 → σ → σ
  reset : σ → σ

namespace Device

variable {σ : Type*} (D : Device σ)

/-- What the chip does with a command. -/
def step (s : σ) : Transaction → σ
  | .write reg val => D.write reg val s
  | .read _ _ => s
  | .data hi lo => D.data hi lo s
  | .reset => D.reset s
  | .unknown _ _ => s

/-- What it sends when a register is read is the value of the register. -/
def Answers (s : σ) : List Transaction → Prop
  | [] => True
  | tx :: txs => (∀ reg val, tx = .read reg val → val = D.read reg s) ∧ Answers (D.step s tx) txs

/-- What a call means. -/
def call (s : σ) : DriverCall → σ
  | .sciWrite reg val => D.write reg val s
  | .sciRead _ => s
  | .sdiWrite16 hi lo => D.data hi lo s
  | .hardResetVS => D.reset s
  | .softInitVS => D.write sciMode (D.read sciMode s ||| smSdinew) s
  | .loadUserCodeFromTables tab => tab.foldl (fun s (reg, data) => D.write reg data s) s
  | .startRTMIDI => D.write sciAiaddr 0x0050 s

theorem answers_append {s : σ} {txs txs' : List Transaction} :
    D.Answers s (txs ++ txs') ↔ D.Answers s txs ∧ D.Answers (txs.foldl D.step s) txs' := by
  induction txs generalizing s with
  | nil => exact ⟨fun h => ⟨trivial, h⟩, And.right⟩
  | cons tx txs ih =>
      rw [List.cons_append, Answers, Answers, ih, List.foldl_cons, and_assoc]

/-- **The commands of a call do what it means.** -/
theorem foldl_sends {s : σ} {c : DriverCall} {txs : List Transaction} (hsends : c.Sends txs) (hanswers : D.Answers s txs) :
    txs.foldl D.step s = D.call s c := by
  cases hsends with
  | softInitVS m =>
      -- what is written back is what has been read
      obtain rfl : m = D.read sciMode s := hanswers.1 sciMode m rfl
      rfl
  | loadUserCodeFromTables tab => exact List.foldl_map
  | _ => rfl

theorem foldl_calls {s : σ} {calls : List DriverCall} {txs : List (List Transaction)}
    (hsends : List.Forall₂ DriverCall.Sends calls txs) (hanswers : D.Answers s txs.flatten) :
    txs.flatten.foldl D.step s = calls.foldl D.call s := by
  induction hsends generalizing s with
  | nil => rfl
  | cons hnew _ ih =>
      rw [List.flatten_cons, answers_append] at hanswers
      rw [List.flatten_cons, List.foldl_append, List.foldl_cons, ← foldl_sends D hnew hanswers.1]
      exact ih hanswers.2

end Device

/-- **On any chip, what the driver does on the bus is what its calls mean**, if the chip answers with its registers. -/
theorem driver_on_device {σ : Type} (D : Device σ) (s : σ) (calls : List DriverCall) (e₀ e e' : Chip) (h tr : List Act)
    (hinit : vsPinsInit e₀ = some ((), e, h)) (hrun : driver calls e = some ((), e', tr)) (l : Listener)
    (hanswers : D.Answers s (emit listen (finish listen l h) tr)) :
    (emit listen (finish listen l h) tr).foldl D.step s = calls.foldl D.call s := by
  obtain ⟨-, rfl, rfl⟩ : () = () ∧ e₀ = e ∧ pinsInitTrace = h := by simpa [vsPinsInit_eq] using hinit
  obtain ⟨txs, hsends, hheard, -⟩ := heard_of_run hrun
  rw [listen_pinsInit, hheard] at hanswers ⊢
  exact D.foldl_calls hsends hanswers

/-- Registers, and the data received; after a reset MODE is 0x4000 and the others are 0. -/
def registers : Device ((UInt8 → UInt16) × List (UInt8 × UInt8)) where
  write := fun reg val s => (fun r => if r = reg then val else s.1 r, s.2)
  read := fun reg s => s.1 reg
  data := fun hi lo s => (s.1, s.2 ++ [(hi, lo)])
  reset := fun s => (fun r => if r = sciMode then 0x4000 else 0, s.2)

/-- `SM_SDINEW` is set and the rest of MODE is as it was. -/
theorem mode_after_softInit :
    let s := ((emit listen (finish listen .idle pinsInitTrace) initAndDataTrace).foldl registers.step
      (registers.reset (fun _ => 0, [])))
    s = initAndData.foldl registers.call (registers.reset (fun _ => 0, [])) ∧ s.1 sciMode = 0x4800 := by
  have hdevice := driver_on_device registers (registers.reset (fun _ => 0, [])) initAndData _ _ _ _ _
    (vsPinsInit_eq modeRead) run_initAndData .idle (by
      rw [heard_initAndData]
      refine ⟨?_, ?_, ?_, trivial⟩
      · rintro reg val ⟨⟩
        rfl
      · rintro reg val ⟨⟩
      · rintro reg val ⟨⟩)
  exact ⟨hdevice, hdevice ▸ rfl⟩

end GuitarraMidi.EduCiaa.Lowlevel
