/-
  LuaRtos.Drivers.Registry

  The drivers of the repository, as DRIVER_REGISTER enters them into `drivers[]`:
  which have a lock table and of what size, and the `lock_resources` functions
  of uart, spi, espi and sdcrd.

  All of these lock pins of the gpio driver, one after the other, for a unit of
  their own.  Where the function has no case for the unit it is given, the pins
  are variables that were never written.  `espi` takes its pins from the
  resources it is called with, and `driver_lock` calls it with NULL.
-/

import LuaRtos.Sys.Driver

namespace LuaRtos.Driver

open LuaRtos.CLib

/-- The registered drivers. -/
inductive DriverId where
  | adc | gpio | i2c | uart | spi | lora | pwm | wifi | net | sensor | owire | mqtt | servo
  | espi | thread | pwbus | nzr | neopixel | stepper | ws2812 | sdcrd
deriving DecidableEq, Repr

/-- CPU_LAST_GPIO. -/
def cpuLastGpio : Nat := 39
/-- CPU_LAST_I2C. -/
def cpuLastI2c : Nat := 1
/-- CPU_LAST_PWM_CH. -/
def cpuLastPwmCh : Nat := 15

/-- Lock these pins for a unit of a driver; none where they were not written. -/
def lockPins (owner : DriverId) (unit : Int) (pins : Option (List Int)) :
    LockResources DriverId where
  owner := owner
  unit := unit
  steps :=
    match pins with
    | some pins => pins.map (.lock .gpio)
    | none => [.fault .undefined]

/-- `uart_pins`, rx and tx. -/
def uartPins (unit : Int) : Option (List Int) :=
  if unit = 0 then some [3, 1]
  else if unit = 1 then some [9, 10]
  else if unit = 2 then some [16, 17]
  else none

/-- `uart_lock_resources`; `uart_pins` takes the unit as an `int8_t`. -/
def uartLockResources (unit : Int) : LockResources DriverId :=
  lockPins .uart unit (uartPins (unit.bmod 256))

/-- `spi_pins`: sdi, sdo, sck and cs. -/
def spiPins (unit : Int) : Option (List Int) :=
  if unit = 1 then some [7, 8, 6, 11]
  else if unit = 2 then some [12, 13, 14, 15]
  else if unit = 3 then some [19, 23, 18, 5]
  else none

/-- `spi_lock_resources` of spi.c. -/
def spiLockResources (unit : Int) : LockResources DriverId :=
  lockPins .spi unit (spiPins unit)

/-- `spi_lock_resources` of espi.c, on NULL. -/
def espiLockResources (host : Int) : LockResources DriverId :=
  ⟨.espi, host + 1, [.fault .nullDeref]⟩

/-- `sdcard_lock_resources`; `sd1bit` is SD_1BITMODE. -/
def sdcardLockResources (sd1bit : Bool) (_host : Int) : LockResources DriverId :=
  lockPins .sdcrd 1 (some ([2, 13, 14, 15] ++ if sd1bit then [] else [4, 12]))

/-- `drivers[]`. -/
def drivers (sd1bit : Bool) : Registry DriverId where
  name
    | .adc => "adc"
    | .gpio => "gpio"
    | .i2c => "i2c"
    | .uart => "uart"
    | .spi => "spi"
    | .lora => "lora"
    | .pwm => "pwm"
    | .wifi => "wifi"
    | .net => "net"
    | .sensor => "sensor"
    | .owire => "owire"
    | .mqtt => "mqtt"
    | .servo => "servo"
    | .espi => "espi"
    | .thread => "thread"
    | .pwbus => "pwbus"
    | .nzr => "nzr"
    | .neopixel => "neopixel"
    | .stepper => "stepper"
    | .ws2812 => "ws2812"
    | .sdcrd => "sdcrd"
  lock
    | .gpio => some (cpuLastGpio + 1)
    | .i2c => some (cpuLastI2c + 1)
    | .pwm => some (cpuLastPwmCh + 1)
    -- one entry less than there are pins
    | .owire => some cpuLastGpio
    | .ws2812 => some cpuLastGpio
    | _ => none
  lockResources
    | .uart => some uartLockResources
    | .spi => some spiLockResources
    | .espi => some espiLockResources
    | .sdcrd => some (sdcardLockResources sd1bit)
    | _ => none
  resources_locked := by
    have hpins {owner unit pins t tu} (h : LockStep.lock t tu ∈ (lockPins owner unit pins).steps) :
        t = .gpio := by
      cases pins with
      | none => simp [lockPins] at h
      | some pins =>
        obtain ⟨pin, -, hpin⟩ := List.mem_map.mp h
        exact (LockStep.lock.inj hpin).1.symm
    intro d f unit t tu hf ht
    cases d <;> simp only [reduceCtorEq, Option.some.injEq] at hf <;> subst hf
    case espi => simp [espiLockResources] at ht
    all_goals
      obtain rfl := hpins ht
      rfl

/-- OWIRE_ERR_CANT_INIT. -/
def owireErrCantInit : Int := 11 <<< 24

/-- `owire_lock_resources`, by the pins of `ow_devices`; 0 is a free device.
    The driver is registered without it: only `owire_setup_pin` calls it. -/
def owireLockResources (devices : List Int) (pin : Int) : LockResources DriverId where
  owner := .owire
  unit := pin
  steps :=
    -- Check if pin already setup for owire
    if pin % 256 ∈ devices then []
    else if 0 ∉ devices then [.error owireErrCantInit "max devices reached"]
    else if 1 ≤ pin ∧ pin ≤ 31 then [.lock .gpio pin]
    else [.fault .undefined]

/-- It fails for a reason of its own, all devices being in use, or because the
    pin is held. -/
theorem owireLockResources_fails_iff {sd1bit : Bool} {s : DriverState DriverId}
    {devices : List Int} {pin : Int} (hpin : 1 ≤ pin ∧ pin ≤ 31) :
    (owireLockResources devices pin).Fails (drivers sd1bit) s ↔ pin ∉ devices ∧
      (0 ∉ devices ∨ (s.locks .gpio pin.toNat).RefusedTo .owire pin) := by
  have hmod : pin % 256 = pin := by omega
  have hrange : 0 ≤ pin ∧ pin < cpuLastGpio + 1 := by simp [cpuLastGpio]; omega
  by_cases hset : pin ∈ devices
  · simp [owireLockResources, LockResources.Fails, hmod, hset]
  · by_cases hfree : (0 : Int) ∈ devices
    · simp [owireLockResources, LockResources.Fails, hmod, hset, hfree, hpin,
        LockStep.Succeeds, drivers, hrange, UnitLock.RefusedTo]
    · simp [owireLockResources, LockResources.Fails, hmod, hset, hfree, LockStep.Succeeds]

end LuaRtos.Driver
