/-
  LuaRtos.Drivers.Devices

  The drivers that keep their units in a handle list (sensor.c, nzr.c, neopixel.c),
  with the channels of adc.c and the devices of owire.c that sensors are set up on.

  What goes to the hardware only is left out: pin levels, the timings of a bus, what
  the search on a 1-wire bus finds.  The setup of a particular sensor (sensors/) is
  called through a pointer, and what comes of the call is an argument: it returns
  NULL or a driver error, and may leave blocks of its own allocated.
-/

import LuaRtos.Drivers.Setup
import LuaRtos.Drivers.Units

namespace LuaRtos.Driver

open LuaRtos.CLib Sys

/-- A `uint8_t` as an `int8_t`. -/
def int8 (x : UInt8) : Int := if x.toNat < 128 then x.toNat else x.toNat - 256

/-! ## The interfaces -/

/-- `adc_channel_t`, without what only `adc_read` uses. -/
structure AdcChannel where
  setup : Bool
  maxResolution : Nat
  resolution : Nat
deriving DecidableEq, Repr

/-- The units of the drivers that sensors are set up on. -/
structure Interfaces where
  board : Board
  /-- `adc_unit[unit].channel`, none where it is NULL. -/
  adc : Int → Option (Int → AdcChannel)
  /-- `ow_devices[dev].device.pin`, 0 where the device is free. -/
  owire : List Int

/-- MAX_ONEWIRE_PINS. -/
def maxOnewirePins : Nat := 4

def Interfaces.start : Interfaces := ⟨.start, fun _ => none, List.replicate maxOnewirePins 0⟩

/-- CPU_LAST_ADC. -/
def cpuLastAdc : Int := 3
/-- CPU_LAST_ADC_CH. -/
def cpuLastAdcCh : Int := 7
/-- CPU_ADC_ALL. -/
def cpuAdcAll : Nat := 0b11111001
/-- ADC_ERR_INVALID_UNIT. -/
def adcErrInvalidUnit : Int := driverExceptionBase 1
/-- ADC_ERR_INVALID_CHANNEL. -/
def adcErrInvalidChannel : Int := driverExceptionBase 1 + 1
/-- ADC_ERR_INVALID_RESOLUTION. -/
def adcErrInvalidResolution : Int := driverExceptionBase 1 + 2
/-- ADC_ERR_NOT_ENOUGH_MEMORY. -/
def adcErrNotEnoughMemory : Int := driverExceptionBase 1 + 3
/-- SENSOR_ERR_CANT_INIT. -/
def sensorErrCantInit : Int := driverExceptionBase 10
/-- SENSOR_ERR_NOT_ENOUGH_MEMORY. -/
def sensorErrNotEnoughMemory : Int := driverExceptionBase 10 + 2
/-- SENSOR_ERR_ACQUIRE_UNDEFINED. -/
def sensorErrAcquireUndefined : Int := driverExceptionBase 10 + 4
/-- SENSOR_ERR_INTERFACE_NOT_SUPPORTED. -/
def sensorErrInterfaceNotSupported : Int := driverExceptionBase 10 + 7

section Interfaces

variable (sd1bit : Bool) (io : Interfaces) (mem : Option (DriverError DriverId))

def Interfaces.withBoard (r : Option Nat × Board) : Option Nat × Interfaces :=
  (r.1, { io with board := r.2 })

/-- A driver error of a type that says what went wrong by itself. -/
def Interfaces.fail (type : ErrorType) (driver : DriverId) (exception : Int)
    (msg : Option String) : Option Nat × Interfaces :=
  io.withBoard (io.board.fail (driverError type io.board.drv mem driver exception msg))

/-- `adc_device`; the test of the channel is of the unit once more. -/
def adcDevice (b : Board) (unit channel : Int) : Result (Option Nat × Board) :=
  if unit < 1 ∨ cpuLastAdc < unit then
    pure (b.fail (driverOperationError b.drv mem .adc adcErrInvalidUnit none))
  else if unit < 0 ∨ cpuLastAdcCh < unit then
    pure (b.fail (driverOperationError b.drv mem .adc adcErrInvalidChannel none))
  else if unit = 1 then
    -- `1 << channel`
    if channel < 0 ∨ 32 ≤ channel then throw .undefined
    else if cpuAdcAll.testBit channel.toNat = false then
      pure (b.fail (driverOperationError b.drv mem .adc adcErrInvalidChannel none))
    else pure (none, b)
  else pure (none, b)

/-- `adc_pins`, on resources that are zero. -/
def adcPins (channel : Int) : Int :=
  if channel = 0 then 36
  else if channel = 3 then 39
  else if channel = 4 then 32
  else if channel = 5 then 33
  else if channel = 6 then 34
  else if channel = 7 then 35
  else 0

/-- `adc_lock_resources`. -/
def adcLockResources (channel : Int) : LockResources DriverId :=
  lockPins .adc channel (some [adcPins channel])

/-- `adc_internal_setup`. -/
def adcInternalSetup (b : Board) (unit channel : Int) : Result (Option Nat × Board) := do
  let (error, b) ← adcDevice mem b unit channel
  match error with
  | some p => pure (some p, b)
  | none => b.lock sd1bit mem (adcLockResources channel)

/-- `adc_mcp3008_setup` and `adc_mcp3208_setup`, both on spi 2. -/
def adcMcpSetup (b : Board) : Result (Option Nat × Board) := spiInit sd1bit b mem 2 1

/-- `adc_unit[unit].channel[channel]`. -/
def Interfaces.adcChannel (unit channel : Int) : Result AdcChannel :=
  match io.adc unit with
  | none => throw .nullDeref
  | some channels =>
    if 0 ≤ channel ∧ channel ≤ cpuLastAdcCh then pure (channels channel) else throw .outOfBounds

/-- `adc_unit[unit].channel[channel] = c`. -/
def Interfaces.setAdcChannel (unit channel : Int) (c : AdcChannel) : Interfaces :=
  { io with adc := Function.update io.adc unit ((io.adc unit).map fun channels =>
      Function.update channels channel c) }

/-- The maximum resolution of the channels of a unit. -/
def adcMaxResolution (unit : Int) : Nat := if unit = 2 then 10 else 12

/-- Space for the channels of a unit, where there is none. -/
def Interfaces.allocChannels (unit : Int) : Interfaces :=
  if (io.adc unit).isNone then
    { io with adc := Function.update io.adc unit (some fun _ => ⟨false, 0, 0⟩) }
  else io

/-- `adc_setup`; `channels` says whether `calloc` has room for the channels. -/
def adcSetup (channels : Bool) (unit channel : Int) (resolution : Nat) :
    Result (Option Nat × Interfaces) :=
  if unit < 1 ∨ cpuLastAdc < unit then
    pure (io.fail mem .operation .adc adcErrInvalidUnit none)
  else if unit < 0 ∨ cpuLastAdcCh < unit then
    pure (io.fail mem .operation .adc adcErrInvalidChannel none)
  -- Allocate space for channels and locks, if needed
  else if (io.adc unit).isNone ∧ channels = false then
    pure (io.fail mem .operation .adc adcErrNotEnoughMemory none)
  else do
    let io := io.allocChannels unit
    -- what the setup of the unit returns is not looked at
    let (_, board) ←
      if unit = 1 then adcInternalSetup sd1bit mem io.board unit channel
      else adcMcpSetup sd1bit mem io.board
    let io := { io with board := board }
    let c ← io.adcChannel unit channel
    let c := { c with maxResolution := adcMaxResolution unit }
    let io := io.setAdcChannel unit channel c
    if resolution < 6 ∨ c.maxResolution < resolution then
      pure (io.fail mem .operation .adc adcErrInvalidResolution none)
    else
      let c := { c with setup := true, resolution := resolution }
      pure (none, io.setAdcChannel unit channel c)

/-- `owire_checkpin`: none for -1. -/
def owireCheckpin (pin : Int) : Option Nat := io.owire.findIdx? (· = pin)

/-- `owire_lock_resources`, of which `owire_setup_pin` is the only caller. -/
def owireLock (pin : Int) : Result (Option Nat × Interfaces) :=
  -- Check if pin already setup for owire
  match owireCheckpin io (pin % 256) with
  | some _ => pure (none, io)
  | none =>
    match owireCheckpin io 0 with
    | none => pure (io.fail mem .setup .owire owireErrCantInit (some "max devices reached"))
    | some owdev => do
      let (lockError, drv) ← driverLock (drivers sd1bit) io.board.drv mem .owire pin .gpio pin
      let io := { io with board := { io.board with drv := drv } }
      match lockError with
      -- Revoked lock on pin
      | some p => do
        let (error, drv) ← driverLockError drv mem p
        pure (error, { io with board := { io.board with drv := drv } })
      | none => pure (none, { io with owire := io.owire.set owdev pin })

/-- `owire_setup_pin`. -/
def owireSetupPin (pin : Int) : Result (Option Nat × Interfaces) :=
  if (owireCheckpin io (pin % 256)).isSome then pure (none, io)
  else if pin < 1 ∨ 31 < pin then
    pure (io.fail mem .setup .owire owireErrCantInit (some "invalid pin"))
  else owireLock sd1bit io mem pin

/-- `gpio_pin_set`, with the check of `gpio_pin_output`. -/
def gpioPinSet (b : Board) (pin : Nat) : Option Nat × Board := gpioPinOutput b mem pin

end Interfaces

/-! ## The sensors -/

/-- `sensor_interface_t`. -/
inductive SensorInterface where
  | adc | spi | i2c | owire | gpio
deriving DecidableEq, Repr

/-- `sensor_data_type_t`. -/
inductive SensorDataType where
  | noData | int | float | double | string
deriving DecidableEq, Repr

/-- `sensor_data_t`. -/
structure SensorData where
  id : Option String
  type : SensorDataType
deriving DecidableEq, Repr

/-- `sensor_t`; of a function, whether there is one. -/
structure Sensor where
  id : String
  interface : SensorInterface
  data : List SensorData
  properties : List SensorData
  setup : Bool
  acquire : Bool
  get : Bool
deriving DecidableEq, Repr

/-- The members of `sensor_setup_t`; `gpio` is that of a gpio or of a 1-wire sensor. -/
structure SensorSetup where
  gpio : UInt8
  owdevice : UInt8
  owsensor : UInt64
  adcUnit : UInt8
  adcChannel : UInt8
  adcResolution : UInt8
  i2cId : UInt8
  i2cSpeed : UInt16
  i2cSda : UInt8
  i2cScl : UInt8
  i2cAddress : UInt16
deriving DecidableEq, Repr

/-- `sensor_instance_t`, with the types of its values. -/
structure SensorInstance where
  unit : Int
  data : List SensorDataType
  properties : List SensorDataType
  sensor : Sensor
  setup : SensorSetup
deriving DecidableEq, Repr

/-- What comes of the call of `sensor->setup`, with the sizes of the blocks that the
    call leaves allocated. -/
inductive SpecificSetup where
  | done (blocks : List Nat)
  | fails (type : ErrorType) (exception : Int) (msg : Option String) (blocks : List Nat)

/-- What a call of `sensor_setup` finds: whether `calloc` has room for the instance and
    for adc channels, the memory for the list and for a driver error. -/
structure SensorEnv where
  block : Bool
  channels : Bool
  index : Option (Nat → ListIndex Nat)
  error : Option (DriverError DriverId)
  specific : SpecificSetup

/-- The sensors, the interfaces, and the blocks of the particular sensors. -/
structure Sensors where
  io : Interfaces
  units : Units SensorInstance
  own : Heap Nat

/-- After `sensor_init`. -/
def Sensors.start : Sensors := ⟨.start, .start, []⟩

section Sensors

variable (sd1bit : Bool) (io : Interfaces) (mem : Option (DriverError DriverId))

/-- `sensor_adc_setup`. -/
def sensorAdcSetup (channels : Bool) (unit : Int) (setup : SensorSetup) :
    Result (Option Nat × Interfaces) := do
  let channel := setup.adcChannel
  -- Lock ADC channel
  let (lockError, drv) ←
    driverLock (drivers sd1bit) io.board.drv mem .sensor unit .adc channel.toNat
  let io := { io with board := { io.board with drv := drv } }
  match lockError with
  | some p => do
    let (error, drv) ← driverLockError drv mem p
    pure (error, { io with board := { io.board with drv := drv } })
  | none =>
    adcSetup sd1bit io mem channels (int8 setup.adcUnit) (int8 channel) setup.adcResolution.toNat

/-- `sensor_gpio_setup`; what the two calls on the pin return is not looked at. -/
def sensorGpioSetup (unit : Int) (setup : SensorSetup) : Result (Option Nat × Interfaces) := do
  let pin := setup.gpio.toNat
  -- Lock gpio
  let (lockError, drv) ← driverLock (drivers sd1bit) io.board.drv mem .sensor unit .gpio pin
  match lockError with
  | some p => do
    let (error, drv) ← driverLockError drv mem p
    pure (error, { io with board := { io.board with drv := drv } })
  | none =>
    let (_, board) := gpioPinOutput { io.board with drv := drv } mem pin
    let (_, board) := gpioPinSet mem board pin
    pure (none, { io with board := board })

/-- `sensor_owire_setup` once the device of the pin is known. -/
def sensorOwireDevice (setup : SensorSetup) (dev : Nat) :
    Option Nat × SensorSetup × Interfaces :=
  let setup := { setup with owdevice := UInt8.ofNat dev }
  -- check if owire bus is setup
  if io.owire[dev]? = some 0 then
    let (error, io) := io.fail mem .setup .sensor sensorErrCantInit none
    (error, setup, io)
  else (none, setup, io)

/-- `sensor_owire_setup`. -/
def sensorOwireSetup (setup : SensorSetup) : Result (Option Nat × SensorSetup × Interfaces) :=
  let pin : Int := setup.gpio.toNat
  -- Check if owire interface is setup on the given gpio
  match owireCheckpin io pin with
  | some dev => pure (sensorOwireDevice io mem setup dev)
  | none => do
    let (error, io) ← owireSetupPin sd1bit io mem (int8 setup.gpio)
    match error with
    | some p => pure (some p, setup, io)
    | none =>
      match owireCheckpin io pin with
      | some dev => pure (sensorOwireDevice io mem setup dev)
      | none =>
        let (error, io) := io.fail mem .setup .sensor sensorErrCantInit none
        pure (error, setup, io)

/-- `sensor_i2c_setup`. -/
def sensorI2cSetup (setup : SensorSetup) : Result (Option Nat × Interfaces) := do
  let r ← i2cSetup sd1bit io.board mem setup.i2cId.toNat 1 setup.i2cSda.toNat setup.i2cScl.toNat
  pure (io.withBoard r)

/-- The switch of `sensor_setup`: none where the interface is not supported. -/
def sensorInterfaceSetup (channels : Bool) (unit : Int) (setup : SensorSetup) :
    SensorInterface → Option (Result (Option Nat × SensorSetup × Interfaces))
  | .adc => some do
    let (error, io) ← sensorAdcSetup sd1bit io mem channels unit setup
    pure (error, setup, io)
  | .gpio => some do
    let (error, io) ← sensorGpioSetup sd1bit io mem unit setup
    pure (error, setup, io)
  | .owire => some (sensorOwireSetup sd1bit io mem setup)
  | .i2c => some do
    let (error, io) ← sensorI2cSetup sd1bit io mem setup
    pure (error, setup, io)
  | .spi => none

end Sensors

section SensorSetup

variable (sd1bit : Bool)

/-- The instance that `sensor_setup` adds to the list. -/
def newInstance (sensor : Sensor) (setup : SensorSetup) (unit : Int) : SensorInstance where
  unit := unit
  data := sensor.data.map SensorData.type
  properties := sensor.properties.map SensorData.type
  sensor := sensor
  setup := setup

def Sensors.fail (s : Sensors) (mem : Option (DriverError DriverId)) (exception : Int) :
    Option Nat × Sensors :=
  let (error, io) := s.io.fail mem .setup .sensor exception none
  (error, { s with io := io })

/-- The call of the specific setup function, if any. -/
def Sensors.specific (s : Sensors) (env : SensorEnv) (sensor : Sensor) : Option Nat × Sensors :=
  match sensor.setup, env.specific with
  | false, _ => (none, s)
  | true, .done blocks => (none, { s with own := s.own ++ blocks.map some })
  | true, .fails type exception msg blocks =>
    let (error, io) := s.io.fail env.error type .sensor exception msg
    (error, { s with io := io, own := s.own ++ blocks.map some })

/-- `sensor_setup`: the error, and the block for `*unit`, which is written last. -/
def sensorSetup (s : Sensors) (env : SensorEnv) (sensor : Sensor) (setup : SensorSetup) :
    Result (Option Nat × Option Nat × Sensors) := do
  let mem := env.error
  let stop (r : Option Nat × Sensors) := pure (r.1, none, r.2)
  -- Sanity checks
  if sensor.acquire = false then stop (s.fail mem sensorErrAcquireUndefined)
  else if env.block = false then stop (s.fail mem sensorErrNotEnoughMemory)
  else
    let block := s.units.blocks.length
    let (unit, units) ← s.units.add env.index (newInstance sensor setup)
    match unit with
    | none => stop ({ s with units := units }.fail mem sensorErrNotEnoughMemory)
    | some unit =>
      -- Setup sensor interface
      match sensorInterfaceSetup sd1bit s.io mem env.channels unit setup sensor.interface with
      | none => stop ({ s with units := units }.fail mem sensorErrInterfaceNotSupported)
      | some interface =>
        let (error, setup, io) ← interface
        let blocks ← units.blocks.write block (newInstance sensor setup unit)
        let s := { s with io := io, units := ⟨units.list, blocks⟩ }
        match error with
        | some p =>
          -- Remove instance
          let units ← s.units.remove unit
          stop (some p, { s with units := units })
        | none =>
          let (error, s) := s.specific env sensor
          match error with
          | some p =>
            -- Remove instance
            let units ← s.units.remove unit
            stop (some p, { s with units := units })
          | none => pure (none, some block, s)

end SensorSetup

/-! ## The pixels -/

/-- `nzr_timing_t`. -/
structure NzrTiming where
  t0h : UInt32
  t0l : UInt32
  t1h : UInt32
  t1l : UInt32
  res : UInt32
deriving DecidableEq, Repr

/-- `nzr_instance_t`. -/
structure NzrInstance where
  gpio : UInt8
  timings : NzrTiming
deriving DecidableEq, Repr

/-- `neopixel_instance_t`; `nzr_unit` is none where it was never written. -/
structure NeopixelInstance where
  nzrUnit : Option Int
  pixels : Nat
  npixels : UInt32
deriving DecidableEq, Repr

/-- The drivers of the pixels, with the blocks of their pixels by size. -/
structure Pixels where
  board : Board
  nzr : Units NzrInstance
  neopixel : Units NeopixelInstance
  pixels : Heap Nat

/-- After `nzr_init` and `neopixel_init`. -/
def Pixels.start : Pixels := ⟨.start, .start, .start, []⟩

/-- NZR_ERR_NOT_ENOUGH_MEMORY. -/
def nzrErrNotEnoughMemory : Int := driverExceptionBase 17
/-- NEOPIXEL_ERR_NOT_ENOUGH_MEMORY. -/
def neopixelErrNotEnoughMemory : Int := driverExceptionBase 18
/-- NEOPIXEL_ERR_INVALID_CONTROLLER. -/
def neopixelErrInvalidController : Int := driverExceptionBase 18 + 4

/-- What a call of `nzr_setup` finds. -/
structure NzrEnv where
  block : Bool
  index : Option (Nat → ListIndex Nat)
  error : Option (DriverError DriverId)

/-- What a call of `neopixel_setup` finds. -/
structure NeopixelEnv where
  nzr : NzrEnv
  block : Bool
  pixels : Bool
  index : Option (Nat → ListIndex Nat)

section Pixels

variable (sd1bit : Bool)

def Pixels.fail (s : Pixels) (mem : Option (DriverError DriverId)) (type : ErrorType)
    (driver : DriverId) (exception : Int) : Option Nat × Pixels :=
  let (error, board) := s.board.fail (driverError type s.board.drv mem driver exception none)
  (error, { s with board := board })

/-- `nzr_setup`: the error, and `*unit` where it is written. -/
def nzrSetup (s : Pixels) (env : NzrEnv) (timing : NzrTiming) (gpio : UInt8) :
    Result (Option Nat × Option Int × Pixels) := do
  let mem := env.error
  if env.block = false then
    let (error, s) := s.fail mem .operation .nzr nzrErrNotEnoughMemory
    pure (error, none, s)
  else
    let (unit, nzr) ← s.nzr.add env.index fun _ => ⟨gpio, timing⟩
    let s := { s with nzr := nzr }
    match unit with
    | none =>
      let (error, s) := s.fail mem .setup .nzr nzrErrNotEnoughMemory
      pure (error, none, s)
    | some unit =>
      -- Lock the GPIO
      let (lockError, drv) ←
        driverLock (drivers sd1bit) s.board.drv mem .nzr unit .gpio gpio.toNat
      match lockError with
      | some p =>
        let nzr ← s.nzr.remove unit
        -- Revoked lock on pin
        let (error, drv) ← driverLockError drv mem p
        pure (error, some unit, { s with nzr := nzr, board := { s.board with drv := drv } })
      | none =>
        -- Configure GPIO as output
        let (error, board) := gpioPinOutput { s.board with drv := drv } mem gpio.toNat
        pure (error, some unit, { s with board := board })

/-- `chipset[controller]`, with the timings of the one controller there is. -/
def chipset (ws2812b : NzrTiming) (controller : Nat) : Result NzrTiming :=
  if controller = 0 then pure ws2812b else throw .outOfBounds

/-- `neopixel_setup`. -/
def neopixelSetup (ws2812b : NzrTiming) (s : Pixels) (env : NeopixelEnv) (controller : Nat)
    (gpio : UInt8) (pixels : UInt32) : Result (Option Nat × Pixels) := do
  let mem := env.nzr.error
  if 1 < controller then
    pure (s.fail mem .operation .neopixel neopixelErrInvalidController)
  else
    -- Setup NZR
    let timing ← chipset ws2812b controller
    let (error, nzrUnit, s) ← nzrSetup sd1bit s env.nzr timing gpio
    match error with
    | some p => pure (some p, s)
    | none =>
      -- Create an instance
      if env.block = false then
        pure (s.fail mem .operation .neopixel neopixelErrNotEnoughMemory)
      else if env.pixels = false then
        pure (s.fail mem .operation .neopixel neopixelErrNotEnoughMemory)
      else
        let block := s.pixels.length
        let (unit, neopixel) ← s.neopixel.add env.index fun _ => ⟨nzrUnit, block, pixels⟩
        let s := { s with neopixel := neopixel, pixels := s.pixels.alloc (3 * pixels).toNat }
        match unit with
        | some _ => pure (none, s)
        | none =>
          let freed ← s.pixels.free block
          let s := { s with pixels := freed }
          pure (s.fail mem .setup .neopixel neopixelErrNotEnoughMemory)

end Pixels

end LuaRtos.Driver
