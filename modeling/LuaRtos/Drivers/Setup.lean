/-
  LuaRtos.Drivers.Setup

  The functions that set up a unit of i2c.c, spi.c, uart.c and stepper.c: their
  checks, the locks they take, and the state they keep of the unit.

  A call returns a driver error or NULL.  What goes to the hardware only (clock
  speeds, addresses, pin modes) is left out; whether FreeRTOS has memory for a
  queue is an argument.  The functions are called with a mutex held, or from
  one thread, and each is one step.
-/

import LuaRtos.Drivers.Registry

namespace LuaRtos.Driver

open LuaRtos.CLib

/-- `i2c_t`, without its mutex. -/
structure I2cUnit where
  mode : Int
  setup : Bool
deriving DecidableEq, Repr

/-- The fields of `struct spi` that `spi_init` writes. -/
structure SpiUnit where
  mode : Int
  dirty : Bool
  setup : Bool
deriving DecidableEq, Repr

/-- `struct uart`: for the queue whether there is one, for the mutex whether it
    has been initialized. -/
structure UartUnit where
  flags : BitVec 8
  queue : Bool
  qs : Nat
  brg : Nat
  mtx : Bool
deriving DecidableEq, Repr

/-- The fields of `stepper_t` that `stepper_setup` writes. -/
structure StepperUnit where
  clockPin : Nat
  dirPin : Nat
  setup : Bool
deriving DecidableEq, Repr

/-- The lock tables and the units of the four drivers. -/
structure Board where
  drv : DriverState DriverId
  i2c : Int → I2cUnit
  spi : Int → SpiUnit
  uart : Int → UartUnit
  stepper : Nat → StepperUnit

/-- The board before any unit is set up. -/
def Board.start : Board where
  drv := .start
  i2c _ := ⟨0, false⟩
  spi _ := ⟨0, false, false⟩
  uart _ := ⟨0, false, 0, 115200, false⟩
  stepper _ := ⟨0, 0, false⟩

/-- DRIVER_EXCEPTION_BASE. -/
def driverExceptionBase (n : Nat) : Int := n <<< 24

/-- I2C_ERR_INVALID_UNIT. -/
def i2cErrInvalidUnit : Int := driverExceptionBase 3 + 2
/-- SPI_ERR_INVALID_UNIT. -/
def spiErrInvalidUnit : Int := driverExceptionBase 5 + 1
/-- SPI_ERR_SLAVE_NOT_ALLOWED. -/
def spiErrSlaveNotAllowed : Int := driverExceptionBase 5 + 2
/-- UART_ERR_CANT_INIT. -/
def uartErrCantInit : Int := driverExceptionBase 4
/-- STEPPER_ERR_INVALID_PIN. -/
def stepperErrInvalidPin : Int := driverExceptionBase 19 + 4
/-- GPIO_ERR_INVALID_PIN_DIRECTION. -/
def gpioErrInvalidPinDirection : Int := driverExceptionBase 2

/-- CPU_I2C_ALL. -/
def cpuI2cAll : Nat := 0b11
/-- NSTEP. -/
def nstep : Nat := 8
/-- GPIO_ALL_OUT. -/
def gpioAllOut : Nat := 0b0000001100001110111111111111111111111111
/-- UART_FLAG_INIT. -/
def uartFlagInit : BitVec 8 := 1 <<< 1

section Calls

variable (sd1bit : Bool)

/-- The board once a driver error has been made for it. -/
def Board.fail (b : Board) (error : Option Nat × DriverState DriverId) : Option Nat × Board :=
  (error.1, { b with drv := error.2 })

/-- A call of a function that locks resources. -/
def Board.lock (b : Board) (mem : Option (DriverError DriverId)) (r : LockResources DriverId) :
    Result (Option Nat × Board) := do
  let (error, drv) ← lockSteps (drivers sd1bit) mem r.owner r.unit b.drv r.steps
  pure (error, { b with drv := drv })

/-- `i2c_lock_resources`, on the `uint8_t` fields of its resources. -/
def i2cLockResources (unit sda scl : Int) : LockResources DriverId :=
  lockPins .i2c unit (some [sda % 256, scl % 256])

/-- `i2c[unit].setup = 0`, where it is set. -/
def Board.removeI2c (b : Board) (unit : Int) : Board :=
  if (b.i2c unit).setup then
    { b with i2c := Function.update b.i2c unit { b.i2c unit with setup := false } }
  else b

/-- `i2c_setup`. -/
def i2cSetup (b : Board) (mem : Option (DriverError DriverId)) (unit mode sda scl : Int) :
    Result (Option Nat × Board) :=
  -- `1 << unit`
  if unit < 0 ∨ 32 ≤ unit then throw .undefined
  else if cpuI2cAll.testBit unit.toNat = false then
    pure (b.fail (driverOperationError b.drv mem .i2c i2cErrInvalidUnit none))
  else do
    -- If unit is setup, remove first
    let b := b.removeI2c unit
    let (error, b) ← b.lock sd1bit mem (i2cLockResources unit sda scl)
    match error with
    | some p => pure (some p, b)
    | none => pure (none, { b with i2c := Function.update b.i2c unit ⟨mode, true⟩ })

/-- `spi_init`; its `spi_set_mode` sets mode 0. -/
def spiInit (b : Board) (mem : Option (DriverError DriverId)) (unit master : Int) :
    Result (Option Nat × Board) :=
  if unit > 3 ∨ unit < 1 then
    pure (b.fail (driverOperationError b.drv mem .spi spiErrInvalidUnit none))
  else if master ≠ 1 then
    pure (b.fail (driverOperationError b.drv mem .spi spiErrSlaveNotAllowed none))
  -- If device is setup, nothing to do
  else if (b.spi unit).setup then pure (none, b)
  else do
    let (error, b) ← b.lock sd1bit mem (spiLockResources unit)
    match error with
    | some p => pure (some p, b)
    | none => pure (none, { b with spi := Function.update b.spi unit ⟨0, true, true⟩ })

/-- The setup errors of `uart_init`. -/
def uartError (b : Board) (mem : Option (DriverError DriverId)) (msg : String) :
    Result (Option Nat × Board) :=
  pure (b.fail (driverSetupError b.drv mem .uart uartErrCantInit (some msg)))

/-- `uart_init`; `queue` is what `xQueueCreate` finds. -/
def uartInit (b : Board) (mem : Option (DriverError DriverId)) (unit : Int)
    (brg databits parity stopBits qs : Nat) (queue : Bool) : Result (Option Nat × Board) :=
  if unit > 2 ∨ unit < 0 then uartError b mem "invalid unit"
  else if databits < 5 ∨ 8 < databits then uartError b mem "invalid data bits"
  else if 2 < parity then uartError b mem "invalid parity"
  else if 2 < stopBits then uartError b mem "invalid stop bits"
  else do
    let (error, b) ← b.lock sd1bit mem (uartLockResources unit)
    match error with
    | some p => pure (some p, b)
    | none =>
      let u := b.uart unit
      if u.qs < qs ∧ queue = false then
        -- the queue there was has been deleted
        let b := { b with uart := Function.update b.uart unit { u with queue := false } }
        uartError b mem "not enough memory"
      else
        let u : UartUnit :=
          { flags := u.flags ||| uartFlagInit, queue := u.queue || decide (u.qs < qs),
            qs := qs % 65536, brg := brg, mtx := true }
        pure (none, { b with uart := Function.update b.uart unit u })

/-- The first unit that is not set up; `*unit` keeps its value where there is
    none, since the test after the loop is `i > NSTEP`. -/
def stepperFreeUnit (b : Board) (unit : Nat) : Nat :=
  ((List.range nstep).find? fun i => !(b.stepper i).setup).getD unit

/-- `gpio_pin_output`. -/
def gpioPinOutput (b : Board) (mem : Option (DriverError DriverId)) (pin : Nat) :
    Option Nat × Board :=
  if gpioAllOut.testBit pin then (none, b)
  else b.fail (driverOperationError b.drv mem .gpio gpioErrInvalidPinDirection none)

/-- `stepper_setup` from the configuration of the pins on. -/
def stepperConfigure (b : Board) (mem : Option (DriverError DriverId)) (stepPin dirPin unit : Nat) :
    Result (Option Nat × Board) :=
  let (error, b) := gpioPinOutput b mem stepPin
  match error with
  | some p => pure (some p, b)
  | none =>
    let (error, b) := gpioPinOutput b mem dirPin
    match error with
    | some p => pure (some p, b)
    | none =>
      if unit < nstep then
        let u : StepperUnit := ⟨stepPin, dirPin, true⟩
        pure (none, { b with stepper := Function.update b.stepper unit u })
      else throw .outOfBounds

/-- `stepper_setup`, with `unit` in `*unit` before the call. -/
def stepperSetup (b : Board) (mem : Option (DriverError DriverId)) (stepPin dirPin unit : Nat) :
    Result (Option Nat × Board) :=
  let invalidPin := b.fail (driverOperationError b.drv mem .stepper stepperErrInvalidPin
    (some "must be between 0 and 31"))
  if 31 < stepPin then pure invalidPin
  else if 31 < dirPin then pure invalidPin
  else do
    let unit := stepperFreeUnit b unit
    let (lockError, drv) ← driverLock (drivers sd1bit) b.drv mem .stepper unit .gpio stepPin
    match lockError with
    | some p => do
      let (error, drv) ← driverLockError drv mem p
      pure (error, { b with drv := drv })
    | none => do
      let (lockError, drv) ← driverLock (drivers sd1bit) drv mem .stepper unit .gpio dirPin
      match lockError with
      | some p => do
        let (error, drv) ← driverLockError drv mem p
        pure (error, { b with drv := drv })
      | none => stepperConfigure { b with drv := drv } mem stepPin dirPin unit

/-- A call that sets up a unit, with its arguments. -/
inductive SetupCall where
  | i2c (unit mode sda scl : Int)
  | spi (unit master : Int)
  | uart (unit : Int) (brg databits parity stopBits qs : Nat) (queue : Bool)
  | stepper (stepPin dirPin unit : Nat)
deriving DecidableEq, Repr

def SetupCall.run (b : Board) (mem : Option (DriverError DriverId)) :
    SetupCall → Result (Option Nat × Board)
  | .i2c unit mode sda scl => i2cSetup sd1bit b mem unit mode sda scl
  | .spi unit master => spiInit sd1bit b mem unit master
  | .uart unit brg databits parity stopBits qs queue =>
    uartInit sd1bit b mem unit brg databits parity stopBits qs queue
  | .stepper stepPin dirPin unit => stepperSetup sd1bit b mem stepPin dirPin unit

end Calls

end LuaRtos.Driver
