/-
  LuaRtos.Drivers.Stepper

  The stepper driver of drivers/stepper.c: the units, the calls that prepare
  them, and the timer interrupt that serves all of them.

  Frequencies are exact rationals.  A conversion to `uint32_t` of a value that
  the type does not have is `Fault.undefined`.  What is seen of the hardware is
  the output register of GPIO and the writes to it.
-/

import Mathlib.Data.Rat.Floor
import Mathlib.Logic.Function.Basic
import LuaRtos.CLib.While

namespace LuaRtos.Stepper

open CLib

/-- Number of steppers. -/
def NSTEP : Nat := 8

/-- Stepper base timer frequency. -/
def STEPPER_HZ : ℚ := 100000

/-- `stepper_t`. -/
structure StepperT where
  setup : Bool
  clock_pin : Nat
  dir_pin : Nat
  /-- Number of steps to do. -/
  steps : BitVec 32
  steps_up : BitVec 32
  steps_down : BitVec 32
  target_freq : ℚ
  current_freq : ℚ
  freq_inc : ℚ
  /-- Number of ticks to do for each clock pulse. -/
  ticks : BitVec 32
  /-- Number of ticks since last clock pulse. -/
  cticks : BitVec 32
  /-- Number of lost ticks per tick. -/
  lticks : ℚ
  /-- Current lost ticks. -/
  lost : ℚ
  dir : Nat
deriving DecidableEq

/-- The units, the mask of those that are started, and the output register of
    GPIO. -/
structure Driver where
  stepper : Fin NSTEP → StepperT
  start : BitVec 32
  out : BitVec 32

/-- `stepper_init`. -/
def stepperInit : Driver where
  stepper _ := ⟨false, 0, 0, 0, 0, 0, 0, 0, 0, 0, 0, 0, 0, 0⟩
  start := 0
  out := 0

/-- The driver errors of `stepper_move`. -/
inductive Err where
  | invalidUnit
  | unitNotSetup
  | invalidDirection
deriving DecidableEq, Repr

/-! ## GPIO -/

/-- `GPIO.out_w1ts = mask` and `GPIO.out_w1tc = mask`. -/
inductive GpioWrite where
  | w1ts (mask : BitVec 32)
  | w1tc (mask : BitVec 32)
deriving DecidableEq, Repr

/-- The output register after a write. -/
def GpioWrite.apply (out : BitVec 32) : GpioWrite → BitVec 32
  | .w1ts mask => out ||| mask
  | .w1tc mask => out &&& ~~~mask

/-- The output register after the writes. -/
def outAfter (out : BitVec 32) (ws : List GpioWrite) : BitVec 32 := ws.foldl GpioWrite.apply out

/-- The rising edges of a pin under the writes. -/
def rises (pin : Nat) (out : BitVec 32) : List GpioWrite → Nat
  | [] => 0
  | w :: ws =>
    (if out.getLsbD pin = false ∧ (w.apply out).getLsbD pin = true then 1 else 0) +
      rises pin (w.apply out) ws

/-- `1 << n`. -/
def bit (n : Nat) : BitVec 32 := BitVec.twoPow 32 n

/-! ## Frequencies -/

/-- The conversion of a whole `double` to `uint32_t`. -/
def toU32 (r : Int) : Result (BitVec 32) :=
  if 0 ≤ r ∧ r < 4294967296 then pure (BitVec.ofInt 32 r) else throw .undefined

/-- `stepper_update_frequency`. -/
def updateFrequency (p : StepperT) (freq : ℚ) : Result StepperT :=
  -- the quotient is infinite
  if freq = 0 then throw .undefined
  else do
    let tticks := (1 / freq) / (1 / STEPPER_HZ)
    let rticks := ⌊tticks⌋
    let lticks := tticks - rticks
    let ticks ← toU32 rticks
    pure { p with ticks := ticks, lticks := lticks }

/-! ## The interrupt -/

/-- A round of the loop that compensates the lost ticks, on `cticks` and `lost`. -/
def lostRound (c : BitVec 32 × ℚ) : Result (BitVec 32 × ℚ) := pure (c.1 + 1, c.2 - 1)

/-- The loop that compensates the lost ticks: every round takes one from `lost`. -/
def compensate (cticks : BitVec 32) (lost : ℚ) : Result (BitVec 32 × ℚ) :=
  whileLoop (fun c => decide (1 ≤ c.2)) lostRound (⌊lost⌋.toNat + 1) (cticks, lost)

/-- The ramp, at a pulse that is not the last. -/
def ramp (p : StepperT) : Result StepperT :=
  if p.steps_up ≤ p.steps then
    updateFrequency { p with current_freq := p.current_freq + p.freq_inc }
      (p.current_freq + p.freq_inc)
  else if p.steps ≤ p.steps_down then
    updateFrequency { p with current_freq := p.current_freq - p.freq_inc }
      (p.current_freq - p.freq_inc)
  else pure p

/-- What the loop of `stepper_isr` works on. -/
structure Scan where
  stepper : Fin NSTEP → StepperT
  start : BitVec 32
  clock_mask : BitVec 32
  dirs_mask : BitVec 32
  dirc_mask : BitVec 32
  stop_mask : BitVec 32
  unit : Nat
  started : BitVec 32

/-- The next unit. -/
def Scan.shift (l : Scan) : Scan := { l with unit := l.unit + 1, started := l.started >>> 1 }

/-- A round of the loop of `stepper_isr`. -/
def scanRound (l : Scan) : Result Scan :=
  if l.started.getLsbD 0 then
    if h : l.unit < NSTEP then do
      let unit : Fin NSTEP := ⟨l.unit, h⟩
      let p := l.stepper unit
      -- Increment ticks
      let p := { p with cticks := p.cticks + 1 }
      if p.cticks = p.ticks then do
        -- Update lost ticks
        let (cticks, lost) ← compensate 0 (p.lost + p.lticks)
        let p := { p with cticks := cticks, lost := lost }
        -- Update clock mask, update direction mask
        let l := { l with
          stepper := Function.update l.stepper unit p
          clock_mask := l.clock_mask ||| bit p.clock_pin
          dirs_mask := if p.dir ≠ 0 then l.dirs_mask ||| bit p.dir_pin else l.dirs_mask
          dirc_mask := if p.dir ≠ 0 then l.dirc_mask else l.dirc_mask ||| bit p.dir_pin }
        -- Stop condition: the loop continues with the same unit
        if p.steps = 1 then
          pure { l with
            start := l.start &&& ~~~bit l.unit
            stop_mask := l.stop_mask ||| bit l.unit }
        else do
          let p ← ramp p
          pure { l with
            stepper := Function.update l.stepper unit { p with steps := p.steps - 1 } }.shift
      else pure { l with stepper := Function.update l.stepper unit p }.shift
    else throw .outOfBounds
  else pure l.shift

/-- The loop of `stepper_isr` goes on. -/
def scanGoes (l : Scan) : Bool := decide (l.started ≠ 0)

/-- The loop of `stepper_isr` before its first round. -/
def Driver.scan (d : Driver) : Scan := ⟨d.stepper, d.start, 0, 0, 0, 0, 0, d.start⟩

/-- The writes of `stepper_isr` after the loop. -/
def Scan.writes (l : Scan) : List GpioWrite :=
  if l.clock_mask ≠ 0 then
    [.w1ts l.dirs_mask, .w1tc l.dirc_mask, .w1ts l.clock_mask, .w1tc l.clock_mask]
  else []

/-- What `stepper_isr` leaves, what it writes, and whether it unlocks the mutex. -/
structure IsrResult where
  driver : Driver
  writes : List GpioWrite
  unlock : Bool

/-- `stepper_isr`, from the end of the loop on. -/
def Scan.finish (l : Scan) (out : BitVec 32) : IsrResult :=
  ⟨⟨l.stepper, l.start, outAfter out l.writes⟩, l.writes, decide (l.stop_mask ≠ 0)⟩

/-- `stepper_isr`, with a loop of at most `fuel` rounds. -/
def stepperIsr (fuel : Nat) (d : Driver) : Result IsrResult := do
  let l ← whileLoop scanGoes scanRound fuel d.scan
  pure (l.finish d.out)

/-! ## The calls -/

/-- The unit that `stepper_setup` finds. -/
def freeUnit (d : Driver) : Option (Fin NSTEP) :=
  (List.finRange NSTEP).find? fun unit => !(d.stepper unit).setup

/-- What `stepper_setup` writes once it has its unit and the locks on its pins. -/
def setupUnit (d : Driver) (unit : Fin NSTEP) (step_pin dir_pin : Nat) : Driver where
  stepper := Function.update d.stepper unit
    { d.stepper unit with clock_pin := step_pin, dir_pin := dir_pin, setup := true }
  start := d.start
  out := outAfter d.out [.w1tc (bit step_pin), .w1tc (bit dir_pin)]

/-- `stepper_move`. -/
def stepperMove (d : Driver) (unit dir : Nat) (steps ramp : BitVec 32) (ifreq efreq : ℚ) :
    Result (Option Err × Driver) :=
  -- Sanity checks
  if dir > 1 then pure (some .invalidDirection, d)
  else if unit > NSTEP then pure (some .invalidUnit, d)
  else if h : unit < NSTEP then
    let p := d.stepper ⟨unit, h⟩
    if !p.setup then pure (some .unitNotSetup, d)
    else do
      let current := if ramp = 0 then efreq else ifreq
      let p := { p with
        steps := steps
        steps_up := steps - ramp + 1
        steps_down := ramp
        target_freq := efreq
        current_freq := current
        freq_inc := if ramp = 0 then 0 else (efreq - ifreq) / ramp.toNat
        dir := dir
        lost := 0
        cticks := 0 }
      let p ← updateFrequency p current
      pure (none, { d with stepper := Function.update d.stepper ⟨unit, h⟩ p })
  else throw .outOfBounds

/-- The write of `stepper_start`. -/
def stepperStart (d : Driver) (mask : BitVec 32) : Driver := { d with start := d.start ||| mask }

end LuaRtos.Stepper
