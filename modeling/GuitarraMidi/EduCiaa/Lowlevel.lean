import GuitarraMidi.Lib.Traced

/-!
# `EduCiaa.Lowlevel` — the driver of the VS1053

`lowlevel.h` and `loader_tables.h`. The chip has two interfaces on one SPI bus, one for its registers (SCI) and one for
data (SDI). Each has a select line, which is low while it is talked to; on a third line, DREQ, the chip says whether it
can be talked to, and a fourth resets it.

A function of the driver is a program whose trace are its calls of the sAPI: `gpioInit`, `gpioWrite`, `gpioRead`,
`spiWrite`, `spiRead` and `delay`. What it reads is in the environment, the readings of DREQ and the bytes the chip
sends. A wait that none of the readings there are puts an end to makes a program that does not come to an end.
-/

namespace GuitarraMidi.EduCiaa.Lowlevel

open Traced

/-- `PIN_XCS`, `PIN_XDCS`, `PIN_XRESET` and `PIN_DREQ`. -/
inductive Pin
  | xcs
  | xdcs
  | xreset
  | dreq
deriving DecidableEq, Repr

/-- `GPIO_INPUT` and `GPIO_OUTPUT`. -/
inductive GpioConfig
  | input
  | output
deriving DecidableEq, Repr

inductive Interface
  | sci
  | sdi
deriving DecidableEq, Repr

/-- A call of the sAPI. Of a transfer on the SPI bus it is kept for which interface the driver makes it, which neither
    the bus nor the program sees. -/
inductive Act
  | gpioInit (pin : Pin) (config : GpioConfig)
  | gpioWrite (pin : Pin) (level : Bool)
  | gpioRead (pin : Pin) (level : Bool)
  | spiWrite (interface : Interface) (bytes : List UInt8)
  | spiRead (interface : Interface) (bytes : List UInt8)
  | delay (ms : Nat)
deriving DecidableEq, Repr

/-- What is still to be read: levels of DREQ, and bytes from the chip. -/
structure Chip where
  dreq : List Bool
  miso : List UInt8
deriving DecidableEq, Repr

abbrev Driver := Prog Chip Act

/-! ## The sAPI -/

def gpioInit (pin : Pin) (config : GpioConfig) : Driver Unit := act (.gpioInit pin config)

def gpioWrite (pin : Pin) (level : Bool) : Driver Unit := act (.gpioWrite pin level)

/-- `gpioRead(PIN_DREQ)`. -/
def gpioReadDREQ : Driver Bool := fun e =>
  match e.dreq with
  | [] => none
  | level :: dreq => some (level, { e with dreq := dreq }, [.gpioRead .dreq level])

def spiWrite (interface : Interface) (bytes : List UInt8) : Driver Unit := act (.spiWrite interface bytes)

def spiRead (interface : Interface) (n : Nat) : Driver (List UInt8) := fun e =>
  if n ≤ e.miso.length then
    some (e.miso.take n, { e with miso := e.miso.drop n }, [.spiRead interface (e.miso.take n)])
  else none

def delay (ms : Nat) : Driver Unit := act (.delay ms)

/-! ## `lowlevel.h` -/

/-- `SCI_MODE`. -/
def sciMode : UInt8 := 0x00

/-- `SCI_AIADDR`. -/
def sciAiaddr : UInt8 := 0x0A

/-- `SM_SDINEW`. -/
def smSdinew : UInt16 := (1 : UInt16) <<< 11

/-- `vs_pinsInit`. -/
def vsPinsInit : Driver Unit := do
  gpioInit .xcs .output
  gpioInit .xdcs .output
  gpioInit .xreset .output
  gpioInit .dreq .input
  gpioWrite .xcs true
  gpioWrite .xdcs true
  gpioWrite .xreset true

/-- `!gpioRead(PIN_DREQ)`. -/
def dreqLow : Driver Bool := do return !(← gpioReadDREQ)

/-- `waitDREQ`. Each round takes a reading, so there is one round more than there are readings. -/
def waitDREQ : Driver Unit := fun e => whileLoop dreqLow (delay 1) (e.dreq.length + 1) e

/-- `sciWrite`. -/
def sciWrite (reg : UInt8) (val : UInt16) : Driver Unit := do
  waitDREQ
  gpioWrite .xcs false
  spiWrite .sci [0x02, reg, (val >>> 8).toUInt8, (val &&& 0xFF).toUInt8]
  gpioWrite .xcs true
  waitDREQ

/-- `sciRead`. -/
def sciRead (reg : UInt8) : Driver UInt16 := do
  waitDREQ
  gpioWrite .xcs false
  spiWrite .sci [0x03, reg]
  let rx ← spiRead .sci 2
  gpioWrite .xcs true
  return (rx[0]!.toUInt16 <<< 8) ||| rx[1]!.toUInt16

/-- `sdiWrite16`. -/
def sdiWrite16 (hi lo : UInt8) : Driver Unit := do
  waitDREQ
  gpioWrite .xdcs false
  spiWrite .sdi [hi, lo]
  gpioWrite .xdcs true

/-- `hardResetVS`. -/
def hardResetVS : Driver Unit := do
  gpioWrite .xreset false
  delay 2
  gpioWrite .xreset true
  delay 2
  waitDREQ

/-- `softInitVS`. -/
def softInitVS : Driver Unit := do
  let m ← sciRead sciMode
  sciWrite sciMode (m ||| smSdinew)

/-! ## `loader_tables.h` -/

/-- `loadUserCodeFromTables`; `tab` are the entries of `atab` and `dtab`. -/
def loadUserCodeFromTables (tab : List (UInt8 × UInt16)) : Driver Unit :=
  tab.forM (fun (reg, data) => do
    waitDREQ
    sciWrite reg data)

/-- `startRTMIDI`. -/
def startRTMIDI : Driver Unit := do
  waitDREQ
  sciWrite sciAiaddr 0x0050
  waitDREQ

/-! ## Calls -/

/-- A call of the driver. -/
inductive DriverCall
  | sciWrite (reg : UInt8) (val : UInt16)
  | sciRead (reg : UInt8)
  | sdiWrite16 (hi lo : UInt8)
  | hardResetVS
  | softInitVS
  | loadUserCodeFromTables (tab : List (UInt8 × UInt16))
  | startRTMIDI

/-- What a call does; the value of `sciRead` is not used. -/
def DriverCall.exec : DriverCall → Driver Unit
  | .sciWrite reg val => Lowlevel.sciWrite reg val
  | .sciRead reg => do let _ ← Lowlevel.sciRead reg
  | .sdiWrite16 hi lo => Lowlevel.sdiWrite16 hi lo
  | .hardResetVS => Lowlevel.hardResetVS
  | .softInitVS => Lowlevel.softInitVS
  | .loadUserCodeFromTables tab => Lowlevel.loadUserCodeFromTables tab
  | .startRTMIDI => Lowlevel.startRTMIDI

/-- A list of calls. -/
def driver (calls : List DriverCall) : Driver Unit := calls.forM DriverCall.exec

/-! ## The lines at the start -/

/-- What `vs_pinsInit` does. -/
def pinsInitTrace : List Act :=
  [.gpioInit .xcs .output, .gpioInit .xdcs .output, .gpioInit .xreset .output, .gpioInit .dreq .input,
    .gpioWrite .xcs true, .gpioWrite .xdcs true, .gpioWrite .xreset true]

theorem vsPinsInit_eq (e : Chip) : vsPinsInit e = some ((), e, pinsInitTrace) := rfl

end GuitarraMidi.EduCiaa.Lowlevel
