/-
  LuaRtos.Drivers.SensorAtomic

  What a failed `sensor_setup` leaves behind.

  The instance is taken back when the interface or the specific setup returns an error,
  and what was set up below it never is: the channel of adc.c, the 1-wire device, the
  unit of i2c.c.  Besides, an interface that is not supported leaves its instance in the
  list, and the errors of pins and of the units below adc.c are dropped.
-/

import LuaRtos.Drivers.Atomic
import LuaRtos.Drivers.Rollback

namespace LuaRtos.Driver

open LuaRtos.CLib Sys

/-! ## The interfaces -/

/-- The channel is set up. -/
def Interfaces.adcIsSetup (io : Interfaces) (unit channel : Int) : Bool :=
  match io.adc unit with
  | none => false
  | some channels => (channels channel).setup

/-- The same units are set up on the interfaces. -/
structure Interfaces.SameUnits (io io' : Interfaces) : Prop where
  board : io.board.SameUnits io'.board
  space : ∀ unit, (io'.adc unit).isSome = (io.adc unit).isSome
  adc : ∀ unit channel, io'.adcIsSetup unit channel = io.adcIsSetup unit channel
  owire : io'.owire = io.owire

/-- Nothing was set up, and no driver error was made. -/
structure Interfaces.Same (io io' : Interfaces) : Prop where
  errors : SameBlocks io.board.drv.errors io'.board.drv.errors
  units : io.SameUnits io'

/-- A failure leaves its driver error, and nothing else. -/
structure Interfaces.FailsWith (io io' : Interfaces) (p : Nat) : Prop where
  error : Returned io.board.drv.errors io'.board.drv.errors p
  units : io.SameUnits io'

section Interfaces

variable {io io' : Interfaces} {mem : Option (DriverError DriverId)}

theorem Interfaces.SameUnits.ofBoard {b : Board} (h : io.board.SameUnits b) :
    io.SameUnits { io with board := b } := ⟨h, fun _ => rfl, fun _ _ => rfl, rfl⟩

theorem Interfaces.SameUnits.trans {io₁ io₂ io₃ : Interfaces} (h : io₁.SameUnits io₂)
    (h' : io₂.SameUnits io₃) : io₁.SameUnits io₃ :=
  ⟨h.board.trans h'.board, fun u => (h'.space u).trans (h.space u),
    fun u c => (h'.adc u c).trans (h.adc u c), h'.owire.trans h.owire⟩

theorem Interfaces.Same.refl (io : Interfaces) : io.Same io :=
  ⟨.refl _, .ofBoard (.refl _)⟩

theorem Interfaces.FailsWith.ofBoard {b : Board} {p : Nat} (h : io.board.FailsWith b p) :
    io.FailsWith { io with board := b } p := ⟨h.error, .ofBoard h.units⟩

/-- A driver error is the only change where nothing was changed before. -/
theorem Interfaces.fail_some (hmem : mem.isSome) (io : Interfaces) (type : ErrorType)
    (driver : DriverId) (exception : Int) (msg : Option String) :
    ∃ p io', io.fail mem type driver exception msg = (some p, io') ∧
      ∀ io₀ : Interfaces, io₀.FailsWith io' p ↔ io₀.Same io := by
  obtain ⟨block, rfl⟩ := Option.isSome_iff_exists.mp hmem
  refine ⟨_, _, rfl, fun io₀ => ⟨?_, ?_⟩⟩
  · rintro ⟨herror, hunits⟩
    refine ⟨fun q x => ?_, hunits.trans (.ofBoard (.ofDrv (.refl _)))⟩
    by_cases hq : q = io.board.drv.errors.length
    · subst hq
      rw [List.getElem?_eq_none (Nat.le_refl _)]
      refine ⟨by rintro ⟨⟩, fun hx => ?_⟩
      exact absurd ⟨x, hx⟩ herror.fresh
    · rw [← herror.others q x hq]
      exact (Heap.getElem?_alloc_iff.trans (or_iff_left fun h => hq h.1)).symm
  · rintro ⟨herrors, hunits⟩
    exact ⟨.alloc herrors, hunits.trans (.ofBoard (.ofDrv (.refl _)))⟩

theorem Interfaces.fail_none (io : Interfaces) (type : ErrorType) (driver : DriverId)
    (exception : Int) (msg : Option String) : io.fail none type driver exception msg = (none, io) :=
  rfl

end Interfaces

/-! ## Locks -/

section Locks

variable {R : Registry DriverId} {mem : Option (DriverError DriverId)} {owner : DriverId}
  {ownerUnit : Int} {s s' : DriverState DriverId} {steps : List (LockStep DriverId)}
  {e : Option Nat}

/-- A call that locks makes one driver error or none. -/
theorem lockSteps_errors (h : lockSteps R mem owner ownerUnit s steps = .ok (e, s')) :
    SameBlocks s.lockErrors s'.lockErrors ∧ (e = none ∧ s'.errors = s.errors ∨
      e = some s.errors.length ∧ Returned s.errors s'.errors s.errors.length) := by
  induction steps generalizing s with
  | nil =>
    cases h
    exact ⟨.refl _, .inl ⟨rfl, rfl⟩⟩
  | cons step rest ih =>
    cases step with
    | lock target unit =>
      obtain ⟨⟨lockError, s₁⟩, hlock, hrest⟩ := bind_eq_ok.mp h
      obtain ⟨-, ⟨-, rfl, rfl⟩ | ⟨-, rfl, rfl⟩ | ⟨-, rfl, rfl⟩⟩ := lockUnit_cases hlock
      · exact ih hrest
      · exact ih (s := s.grant owner ownerUnit target unit.toNat) hrest
      · obtain ⟨-, hlocks, herrors⟩ := driverLockError_cases hrest
        refine ⟨?_, ?_⟩
        · rw [hlocks]
          unfold DriverState.revoke Heap.alloc
          simpa using SameBlocks.freed s.lockErrors
        · obtain ⟨-, rfl, herrors⟩ | ⟨block, -, rfl, herrors⟩ := herrors
          · exact .inl ⟨rfl, herrors⟩
          · refine .inr ⟨rfl, ?_⟩
            rw [herrors]
            exact .alloc (.refl _)
    | error exception msg =>
      have hrun := Except.ok.inj h
      unfold driverSetupError driverError at hrun
      cases mem with
      | none =>
        cases hrun
        exact ⟨.refl _, .inl ⟨rfl, rfl⟩⟩
      | some block =>
        cases hrun
        exact ⟨.refl _, .inr ⟨rfl, .alloc (.refl _)⟩⟩
    | fault f => cases h

/-- A call that only locks succeeds, meets a conflict, or leaves a table. -/
theorem lockSteps_trichotomy (R : Registry DriverId) (mem : Option (DriverError DriverId))
    (s : DriverState DriverId) {r : LockResources DriverId}
    (hlocks : ∀ x ∈ r.steps, ∃ target unit, x = .lock target unit) :
    ¬ r.Fails R s ∨ (∃ pre, r.ConflictsAfter R s pre) ∨
      ∃ f, lockSteps R mem r.owner r.unit s r.steps = .error f := by
  obtain hall | ⟨pre, x, post, hsteps, hpre, hx⟩ :=
    forall_or_first (fun x => x.Succeeds R s r.owner r.unit) r.steps
  · refine .inl ?_
    rintro ⟨x, hx, hfails⟩
    exact hfails (hall x hx)
  · obtain ⟨target, unit, rfl⟩ := hlocks x (by simp [hsteps])
    by_cases hrange : 0 ≤ unit ∧ unit < (R.lock target).getD 0
    · refine .inr (.inl ⟨pre, _, post, hsteps, hpre, hrange, ?_⟩)
      intro hgrant
      exact hx ⟨hrange, hgrant⟩
    · obtain ⟨s₁, hrun, -, -, -, -⟩ := lockSteps_granted mem hpre
      refine .inr (.inr ⟨.outOfBounds, ?_⟩)
      rw [hsteps, hrun, lockSteps]
      unfold lockUnit
      rw [if_neg hrange]
      rfl

theorem LockResources.ConflictsAfter.fails {r : LockResources DriverId}
    {pre : List (LockStep DriverId)} (h : r.ConflictsAfter R s pre) : r.Fails R s := by
  obtain ⟨step, post, hsteps, -, hconflict⟩ := h
  refine ⟨step, by simp [hsteps], ?_⟩
  intro hsucceeds
  cases step with
  | lock target unit => exact hconflict.2 hsucceeds.2
  | error exception msg => exact hsucceeds
  | fault f => exact hsucceeds

theorem lockPins_locks {unit : Int} {pins : List Int} :
    ∀ x ∈ (lockPins owner unit (some pins)).steps, ∃ target unit, x = .lock target unit := by
  intro x hx
  obtain ⟨pin, -, rfl⟩ := List.mem_map.mp hx
  exact ⟨_, _, rfl⟩

end Locks

section Board

variable {sd1bit : Bool} {b b' : Board} {mem : Option (DriverError DriverId)}
  {r : LockResources DriverId} {e : Option Nat}

theorem Board.lock_eq (b : Board) : b.lock sd1bit mem r =
    (lockSteps (drivers sd1bit) mem r.owner r.unit b.drv r.steps).map
      fun x => (x.1, { b with drv := x.2 }) := by
  unfold Board.lock
  cases lockSteps (drivers sd1bit) mem r.owner r.unit b.drv r.steps with
  | error f => rfl
  | ok x => rfl

/-- Locks that are all granted. -/
theorem Board.lock_succeeds (mem : Option (DriverError DriverId))
    (h : ¬ r.Fails (drivers sd1bit) b.drv) :
    ∃ b', b.lock sd1bit mem r = .ok (none, b') ∧ b.SameUnits b' ∧
      b'.drv.errors = b.drv.errors ∧ b'.i2c = b.i2c ∧ b'.spi = b.spi := by
  have hall : ∀ x ∈ r.steps, x.Succeeds (drivers sd1bit) b.drv r.owner r.unit := by
    intro x hx
    by_contra hfails
    exact h ⟨x, hx, hfails⟩
  obtain ⟨drv, hrun⟩ := lockSteps_of_succeeds mem hall
  obtain ⟨hlocks, ⟨-, herrors⟩ | ⟨hnone, -⟩⟩ := lockSteps_errors hrun
  · refine ⟨{ b with drv := drv }, ?_, .ofDrv hlocks, herrors, rfl, rfl⟩
    rw [Board.lock_eq, hrun]
    rfl
  · cases hnone

/-- A conflict, with memory for the error. -/
theorem Board.lock_conflict (hmem : mem.isSome) {pre : List (LockStep DriverId)}
    (h : r.ConflictsAfter (drivers sd1bit) b.drv pre) :
    ∃ b', b.lock sd1bit mem r = .ok (some b.drv.errors.length, b') ∧
      b.FailsWith b' b.drv.errors.length ∧ b'.i2c = b.i2c := by
  obtain ⟨block, rfl⟩ := Option.isSome_iff_exists.mp hmem
  obtain ⟨drv, -, hrun, -⟩ := lockSteps_conflict block h
  obtain ⟨hlocks, ⟨hnone, -⟩ | ⟨-, herrors⟩⟩ := lockSteps_errors hrun
  · cases hnone
  · refine ⟨{ b with drv := drv }, ?_, ⟨herrors, .ofDrv hlocks⟩, rfl⟩
    rw [Board.lock_eq, hrun]
    rfl

/-- Locks of which one fails, with memory for the error. -/
theorem Board.lock_fails (hmem : mem.isSome)
    (hlocks : ∀ x ∈ r.steps, ∃ target unit, x = .lock target unit)
    (h : r.Fails (drivers sd1bit) b.drv) (hrun : b.lock sd1bit mem r = .ok (e, b')) :
    (∃ pre, r.ConflictsAfter (drivers sd1bit) b.drv pre) ∧ e = some b.drv.errors.length ∧
      b.FailsWith b' b.drv.errors.length ∧ b'.i2c = b.i2c := by
  obtain hall | ⟨pre, hconflict⟩ | ⟨f, hf⟩ :=
    lockSteps_trichotomy (drivers sd1bit) mem b.drv hlocks
  · exact absurd h hall
  · obtain ⟨b₁, hlock, hfails, hi2c⟩ := Board.lock_conflict hmem hconflict
    cases hlock.symm.trans hrun
    exact ⟨⟨pre, hconflict⟩, rfl, hfails, hi2c⟩
  · rw [Board.lock_eq, hf] at hrun
    cases hrun

theorem Board.lock_without_memory (hrun : b.lock sd1bit none r = .ok (e, b')) : e = none := by
  obtain ⟨⟨e', drv⟩, hsteps, hret⟩ := bind_eq_ok.mp hrun
  obtain rfl := lockSteps_without_memory hsteps
  cases hret
  rfl

end Board

/-! ## What the setup of an interface does -/

/-- Where a step fails, it is reported and cleaned up after exactly if `cleans`.  Where
    none does, nothing is set up exactly if `held`. -/
structure SetupSpec (io : Interfaces) (mem : Option (DriverError DriverId))
    (x : Result (Option Nat × Interfaces)) (fails cleans held : Prop) : Prop where
  undone : mem.isSome → cleans → ∃ p io', x = .ok (some p, io') ∧ io.FailsWith io' p
  without_memory : mem = none → ∀ e io', x = .ok (e, io') → e = none
  leaves : mem.isSome → fails → ¬ cleans → ∀ e io', x = .ok (e, io') →
    (∀ p, e = some p → ¬ io.FailsWith io' p) ∧ (e = none → ¬ io.Same io')
  succeeds : ¬ fails → ∀ e io', x = .ok (e, io') → e = none ∧ (io.Same io' → held)
  same : ¬ fails → held → ∃ io', x = .ok (none, io') ∧ io.Same io'

/-- A call that fails at once. -/
theorem SetupSpec.ofFail {io : Interfaces} {mem : Option (DriverError DriverId)}
    {x : Result (Option Nat × Interfaces)} {fails cleans held : Prop} {type : ErrorType}
    {driver : DriverId} {exception : Int} {msg : Option String}
    (hx : x = .ok (io.fail mem type driver exception msg)) (hfails : fails) (hclean : cleans) :
    SetupSpec io mem x fails cleans held := by
  refine ⟨?_, ?_, ?_, ?_, ?_⟩
  · intro hmem _
    obtain ⟨p, io', hfail, hiff⟩ := Interfaces.fail_some hmem io type driver exception msg
    exact ⟨p, io', hx.trans (congrArg _ hfail), (hiff io).mpr (.refl io)⟩
  · rintro rfl e io' hrun
    cases hx.symm.trans hrun
    rfl
  · exact fun _ _ hnot => absurd hclean hnot
  · exact fun hnot => absurd hfails hnot
  · exact fun hnot => absurd hfails hnot

/-- A call that finds everything as it is to be. -/
theorem SetupSpec.ofDone {io : Interfaces} {mem : Option (DriverError DriverId)}
    {x : Result (Option Nat × Interfaces)} {fails held : Prop} (hx : x = .ok (none, io))
    (hfails : ¬ fails) (hheld : held) : SetupSpec io mem x fails fails held := by
  refine ⟨?_, ?_, ?_, ?_, ?_⟩
  · exact fun _ h => absurd h hfails
  · intro _ e io' hrun
    cases hx.symm.trans hrun
    rfl
  · exact fun _ h => absurd h hfails
  · intro _ e io' hrun
    cases hx.symm.trans hrun
    exact ⟨rfl, fun _ => hheld⟩
  · exact fun _ _ => ⟨io, hx, .refl io⟩

section Gpio

variable {sd1bit : Bool} {io : Interfaces} {mem : Option (DriverError DriverId)} {unit : Int}
  {setup : SensorSetup}

/-- The lock on the pin is refused, or the pin is no output. -/
def GpioFails (io : Interfaces) (unit : Int) (pin : Nat) : Prop :=
  (io.board.drv.locks .gpio pin).RefusedTo .sensor unit ∨ gpioAllOut.testBit pin = false

/-- The pin is there, and the lock on it refused. -/
def GpioCleans (io : Interfaces) (unit : Int) (pin : Nat) : Prop :=
  pin ≤ cpuLastGpio ∧ (io.board.drv.locks .gpio pin).RefusedTo .sensor unit

theorem le_of_output {pin : Nat} (h : gpioAllOut.testBit pin = true) : pin ≤ cpuLastGpio := by
  by_contra hlt
  have hsmall : gpioAllOut < 2 ^ pin := by
    calc gpioAllOut < 2 ^ 40 := by decide
      _ ≤ 2 ^ pin := Nat.pow_le_pow_right (by decide) (by unfold cpuLastGpio at hlt; omega)
  rw [Nat.testBit_lt_two_pow hsmall] at h
  cases h

theorem gpioPinOutput_of_output {b : Board} {pin : Nat} (h : gpioAllOut.testBit pin = true) :
    gpioPinOutput b mem pin = (none, b) := by
  unfold gpioPinOutput
  rw [if_pos h]

/-- The errors for a pin that is no output are lost. -/
theorem gpioPin_drops {b : Board} {pin : Nat} (hmem : mem.isSome)
    (h : gpioAllOut.testBit pin = false) :
    ¬ SameBlocks b.drv.errors (gpioPinSet mem (gpioPinOutput b mem pin).2 pin).2.drv.errors := by
  obtain ⟨block, rfl⟩ := Option.isSome_iff_exists.mp hmem
  unfold gpioPinSet gpioPinOutput
  rw [if_neg (by rw [h]; decide), if_neg (by rw [h]; decide)]
  intro hsame
  have hnew := (hsame b.drv.errors.length _).mp
    (Heap.getElem?_alloc_iff.mpr (.inl Heap.getElem?_alloc_self))
  rw [List.getElem?_eq_none (Nat.le_refl _)] at hnew
  cases hnew

theorem sensorGpioSetup_eq (sd1bit : Bool) (io : Interfaces)
    (mem : Option (DriverError DriverId)) (unit : Int) {pin : Nat} (hpin : setup.gpio.toNat = pin) :
    sensorGpioSetup sd1bit io mem unit setup =
      (lockUnit io.board.drv .sensor unit .gpio (cpuLastGpio + 1) pin >>= fun x =>
        match x.1 with
        | some p => do
          let (error, drv) ← driverLockError x.2 mem p
          pure (error, { io with board := { io.board with drv := drv } })
        | none =>
          pure (none, { io with board := (gpioPinSet mem
            (gpioPinOutput { io.board with drv := x.2 } mem pin).2 pin).2 })) := by
  subst hpin
  rfl

theorem sensorGpioSetup_spec :
    SetupSpec io mem (sensorGpioSetup sd1bit io mem unit setup)
      (GpioFails io unit setup.gpio.toNat) (GpioCleans io unit setup.gpio.toNat) True := by
  generalize hpin : setup.gpio.toNat = pin
  have hrun := sensorGpioSetup_eq sd1bit io mem unit hpin
  -- a pin that is granted
  have hgranted (hle : pin ≤ cpuLastGpio)
      (hgrant : (io.board.drv.locks .gpio pin).GrantsTo .sensor unit) :
      ∃ drv, drv.errors = io.board.drv.errors ∧ drv.lockErrors = io.board.drv.lockErrors ∧
        sensorGpioSetup sd1bit io mem unit setup = .ok (none, { io with board := (gpioPinSet mem
          (gpioPinOutput { io.board with drv := drv } mem pin).2 pin).2 }) := by
    obtain ⟨drv, hlock, herrors, hlocks⟩ := lockPin_granted hle hgrant
    refine ⟨drv, herrors, hlocks, ?_⟩
    rw [hrun, hlock]
    rfl
  have houtside (hlt : ¬ pin ≤ cpuLastGpio) :
      sensorGpioSetup sd1bit io mem unit setup = .error .outOfBounds := by
    rw [hrun, lockPin_outside (by omega)]
    rfl
  refine ⟨?_, ?_, ?_, ?_, ?_⟩
  · rintro hmem ⟨hle, href⟩
    obtain ⟨drv, herror, hlocks, hreturned⟩ := driverLockError_revoke hmem io.board.drv .sensor unit
      .gpio pin
    refine ⟨_, _, ?_, .ofBoard (b := { io.board with drv := drv }) ⟨hreturned, .ofDrv hlocks⟩⟩
    rw [hrun, lockPin_refused hle href]
    simp only [ok_bind, herror]
    rfl
  · rintro rfl e io' hx
    rw [hrun] at hx
    obtain ⟨⟨lockError, drv⟩, -, hx⟩ := bind_eq_ok.mp hx
    cases lockError with
    | none =>
      cases hx
      rfl
    | some p =>
      obtain ⟨⟨error, drv'⟩, herror, hx⟩ := bind_eq_ok.mp hx
      obtain ⟨-, -, ⟨-, rfl, -⟩ | ⟨block, hblock, -⟩⟩ := driverLockError_cases herror
      · cases hx
        rfl
      · cases hblock
  · intro hmem hfails hclean e io' hx
    by_cases hle : pin ≤ cpuLastGpio
    · have hgrant : (io.board.drv.locks .gpio pin).GrantsTo .sensor unit := by
        by_contra href
        exact hclean ⟨hle, href⟩
      obtain ⟨drv, herrors, -, hok⟩ := hgranted hle hgrant
      cases hok.symm.trans hx
      have hout := hfails.resolve_left (fun href => href hgrant)
      refine ⟨by rintro _ ⟨⟩, fun _ hsame => ?_⟩
      apply gpioPin_drops (b := { io.board with drv := drv }) hmem hout
      show SameBlocks drv.errors _
      rw [herrors]
      exact hsame.errors
    · cases (houtside hle).symm.trans hx
  · intro hfails e io' hx
    obtain ⟨hgrant, hout⟩ := not_or.mp hfails
    rw [Bool.not_eq_false] at hout
    obtain ⟨drv, -, -, hok⟩ := hgranted (le_of_output hout) (not_not.mp hgrant)
    cases hok.symm.trans hx
    exact ⟨rfl, fun _ => trivial⟩
  · intro hfails _
    obtain ⟨hgrant, hout⟩ := not_or.mp hfails
    rw [Bool.not_eq_false] at hout
    obtain ⟨drv, herrors, hlocks, hok⟩ := hgranted (le_of_output hout) (not_not.mp hgrant)
    rw [gpioPinOutput_of_output hout] at hok
    unfold gpioPinSet at hok
    rw [gpioPinOutput_of_output hout] at hok
    refine ⟨_, hok, ?_, .ofBoard (.ofDrv ?_)⟩
    · show SameBlocks io.board.drv.errors drv.errors
      rw [herrors]
      exact .refl _
    · rw [hlocks]
      exact .refl _

end Gpio

section Adc

variable {sd1bit : Bool} {io io' : Interfaces} {mem : Option (DriverError DriverId)}
  {channels : Bool} {unit channel : Int} {resolution : Nat} {c c' : AdcChannel}

/-- The setup that is specific to a unit of adc.c. -/
def adcUnitSetup (sd1bit : Bool) (mem : Option (DriverError DriverId)) (b : Board)
    (unit channel : Int) : Result (Option Nat × Board) :=
  if unit = 1 then adcInternalSetup sd1bit mem b unit channel else adcMcpSetup sd1bit mem b

/-- It fails: the channel is none of the chip or its pin is locked, or spi 2 is not set up
    and its pins are locked. -/
def AdcUnitFails (sd1bit : Bool) (b : Board) (unit channel : Int) : Prop :=
  if unit = 1 then
    ¬ (0 ≤ channel ∧ cpuAdcAll.testBit channel.toNat = true) ∨
      (adcLockResources channel).Fails (drivers sd1bit) b.drv
  else (b.spi 2).setup = false ∧ (spiLockResources 2).Fails (drivers sd1bit) b.drv

/-- It sets up nothing: spi 2 is set up already. -/
def AdcUnitHeld (b : Board) (unit : Int) : Prop := unit = 1 ∨ (b.spi 2).setup = true

def AdcFails (sd1bit : Bool) (io : Interfaces) (channels : Bool) (unit channel : Int)
    (resolution : Nat) : Prop :=
  (unit < 1 ∨ cpuLastAdc < unit) ∨ ((io.adc unit).isNone ∧ channels = false) ∨
    AdcUnitFails sd1bit io.board unit channel ∨ resolution < 6 ∨ adcMaxResolution unit < resolution

/-- The unit is none, or there is no memory for its channels; or there is space for them,
    the setup of the unit succeeds and sets up nothing, and the resolution is refused. -/
def AdcCleans (sd1bit : Bool) (io : Interfaces) (channels : Bool) (unit channel : Int)
    (resolution : Nat) : Prop :=
  (unit < 1 ∨ cpuLastAdc < unit) ∨ ((io.adc unit).isNone ∧ channels = false) ∨
    (io.adc unit).isSome ∧ (0 ≤ channel ∧ channel ≤ cpuLastAdcCh) ∧
      ¬ AdcUnitFails sd1bit io.board unit channel ∧ AdcUnitHeld io.board unit ∧
        (resolution < 6 ∨ adcMaxResolution unit < resolution)

/-- The channel is set up already, and the unit. -/
def AdcHeld (io : Interfaces) (unit channel : Int) : Prop :=
  (0 ≤ channel ∧ channel ≤ cpuLastAdcCh) ∧ io.adcIsSetup unit channel = true ∧
    AdcUnitHeld io.board unit

theorem adcDevice_allowed {b : Board} (hchannel : 0 ≤ channel)
    (hbit : cpuAdcAll.testBit channel.toNat = true) :
    adcDevice mem b 1 channel = .ok (none, b) := by
  have hlt : channel < 32 := by
    by_contra hge
    have hsmall : cpuAdcAll < 2 ^ channel.toNat := by
      calc cpuAdcAll < 2 ^ 32 := by decide
        _ ≤ 2 ^ channel.toNat := Nat.pow_le_pow_right (by decide) (by omega)
    rw [Nat.testBit_lt_two_pow hsmall] at hbit
    cases hbit
  unfold adcDevice
  rw [if_neg (by decide), if_neg (by decide), if_pos rfl, if_neg (by omega), hbit]
  rfl

theorem spiInit_fresh {b : Board} (hsetup : (b.spi 2).setup = false) :
    adcMcpSetup sd1bit mem b = (b.lock sd1bit mem (spiLockResources 2) >>= fun x =>
      match x.1 with
      | some p => pure (some p, x.2)
      | none => pure (none,
          { x.2 with spi := Function.update x.2.spi 2 ⟨0, true, true⟩ })) := by
  unfold adcMcpSetup spiInit
  rw [if_neg (by decide), if_neg (by decide)]
  exact if_neg (by rw [hsetup]; decide)

theorem adcUnitSetup_succeeds (mem : Option (DriverError DriverId)) {b : Board}
    (h : ¬ AdcUnitFails sd1bit b unit channel) :
    ∃ b', adcUnitSetup sd1bit mem b unit channel = .ok (none, b') ∧
      b'.drv.errors = b.drv.errors ∧ (b.SameUnits b' ↔ AdcUnitHeld b unit) := by
  unfold AdcUnitFails at h
  unfold adcUnitSetup
  by_cases hunit : unit = 1
  · rw [if_pos hunit] at h
    obtain ⟨hallowed, hlocks⟩ := not_or.mp h
    obtain ⟨hchannel, hbit⟩ := not_not.mp hallowed
    obtain ⟨b', hlock, hsame, herrors, -, -⟩ := Board.lock_succeeds mem hlocks
    refine ⟨b', ?_, herrors, fun _ => .inl hunit, fun _ => hsame⟩
    rw [if_pos hunit, hunit]
    unfold adcInternalSetup
    rw [adcDevice_allowed hchannel hbit]
    exact hlock
  · rw [if_neg hunit] at h
    rw [if_neg hunit]
    cases hsetup : (b.spi 2).setup with
    | true =>
      refine ⟨b, ?_, rfl, fun _ => .inr hsetup, fun _ => .refl b⟩
      unfold adcMcpSetup spiInit
      rw [if_neg (by decide), if_neg (by decide), if_pos hsetup]
      rfl
    | false =>
      have hlocks : ¬ (spiLockResources 2).Fails (drivers sd1bit) b.drv := fun hf => h ⟨hsetup, hf⟩
      obtain ⟨b', hlock, -, herrors, -, -⟩ := Board.lock_succeeds mem hlocks
      refine ⟨{ b' with spi := Function.update b'.spi 2 ⟨0, true, true⟩ }, ?_, herrors, ?_, ?_⟩
      · rw [spiInit_fresh hsetup, hlock]
        rfl
      · intro hsame
        have hspi := hsame.spi 2
        rw [hsetup] at hspi
        simp at hspi
      · rintro (h1 | hheld)
        · exact absurd h1 hunit
        · rw [hsetup] at hheld
          cases hheld

/-- The driver error for a unit that fails is lost. -/
theorem adcUnitSetup_drops {b b' : Board} {e : Option Nat} (hmem : mem.isSome)
    (h : AdcUnitFails sd1bit b unit channel)
    (hrun : adcUnitSetup sd1bit mem b unit channel = .ok (e, b')) :
    ¬ SameBlocks b.drv.errors b'.drv.errors := by
  have hreturned {p : Nat} (hr : Returned b.drv.errors b'.drv.errors p) :
      ¬ SameBlocks b.drv.errors b'.drv.errors := by
    intro hsame
    obtain ⟨x, hx⟩ := hr.live
    exact hr.fresh ⟨x, (hsame p x).mp hx⟩
  unfold AdcUnitFails at h
  unfold adcUnitSetup at hrun
  by_cases hunit : unit = 1
  · rw [if_pos hunit] at h
    rw [if_pos hunit, hunit] at hrun
    unfold adcInternalSetup at hrun
    by_cases hallowed : 0 ≤ channel ∧ cpuAdcAll.testBit channel.toNat = true
    · rw [adcDevice_allowed hallowed.1 hallowed.2] at hrun
      obtain ⟨-, -, hfails, -⟩ := Board.lock_fails hmem lockPins_locks
        (h.resolve_left (not_not.mpr hallowed)) hrun
      exact hreturned hfails.error
    · unfold adcDevice at hrun
      rw [if_neg (by decide), if_neg (by decide), if_pos rfl] at hrun
      by_cases hshift : channel < 0 ∨ 32 ≤ channel
      · rw [if_pos hshift] at hrun
        cases hrun
      · have hbit : cpuAdcAll.testBit channel.toNat = false := by
          rw [← Bool.not_eq_true]
          exact fun hbit => hallowed ⟨by omega, hbit⟩
        obtain ⟨b₁, hfail, hfails⟩ := Board.fail_some hmem b .operation .adc
          adcErrInvalidChannel none
        unfold driverOperationError at hrun
        rw [if_neg hshift, if_pos hbit, hfail] at hrun
        cases hrun
        exact hreturned hfails.error
  · rw [if_neg hunit] at h hrun
    rw [spiInit_fresh h.1] at hrun
    obtain ⟨⟨e', b₁⟩, hlock, hrest⟩ := bind_eq_ok.mp hrun
    obtain ⟨-, rfl, hfails, -⟩ := Board.lock_fails hmem lockPins_locks h.2 hlock
    cases hrest
    exact hreturned hfails.error

theorem adcChannel_eq_ok : io.adcChannel unit channel = .ok c ↔
    ∃ f, io.adc unit = some f ∧ (0 ≤ channel ∧ channel ≤ cpuLastAdcCh) ∧ f channel = c := by
  unfold Interfaces.adcChannel
  cases hadc : io.adc unit with
  | none => simp
  | some f =>
    by_cases hrange : 0 ≤ channel ∧ channel ≤ cpuLastAdcCh
    · simp [hrange]
    · simp [hrange]

/-- A channel that is written. -/
theorem adcIsSetup_set (h : io.adcChannel unit channel = .ok c) (unit' channel' : Int) :
    (io.setAdcChannel unit channel c').adcIsSetup unit' channel' =
      if unit' = unit ∧ channel' = channel then c'.setup else io.adcIsSetup unit' channel' := by
  obtain ⟨f, hf, -, -⟩ := adcChannel_eq_ok.mp h
  unfold Interfaces.setAdcChannel Interfaces.adcIsSetup
  by_cases hunit : unit' = unit
  · subst hunit
    by_cases hchannel : channel' = channel
    · simp [hf, hchannel]
    · simp [hf, hchannel]
  · simp [hunit]

theorem adcChannel_set (c' : AdcChannel) (h : io.adcChannel unit channel = .ok c) :
    (io.setAdcChannel unit channel c').adcChannel unit channel = .ok c' := by
  obtain ⟨f, hf, hrange, -⟩ := adcChannel_eq_ok.mp h
  refine adcChannel_eq_ok.mpr ⟨Function.update f channel c', ?_, hrange, Function.update_self ..⟩
  unfold Interfaces.setAdcChannel
  simp [hf]

theorem adcSpace_set (io : Interfaces) (unit' : Int) :
    ((io.setAdcChannel unit channel c').adc unit').isSome = (io.adc unit').isSome := by
  unfold Interfaces.setAdcChannel
  by_cases hunit : unit' = unit
  · subst hunit
    simp
  · simp [hunit]

/-- A channel that stays set up or not. -/
theorem setAdcChannel_sameUnits (c' : AdcChannel) (h : io.adcChannel unit channel = .ok c)
    (hsetup : c'.setup = c.setup) : io.SameUnits (io.setAdcChannel unit channel c') := by
  refine ⟨.refl _, fun u => adcSpace_set io u, fun u ch => ?_, rfl⟩
  rw [adcIsSetup_set h]
  by_cases hu : u = unit ∧ ch = channel
  · obtain ⟨f, hf, -, hc⟩ := adcChannel_eq_ok.mp h
    rw [if_pos hu, hsetup, hu.1, hu.2]
    unfold Interfaces.adcIsSetup
    rw [hf, ← hc]
  · rw [if_neg hu]

theorem allocChannels_of_isSome (h : (io.adc unit).isSome) : io.allocChannels unit = io := by
  unfold Interfaces.allocChannels
  rw [if_neg (by rw [Option.isNone_iff_eq_none]; exact Option.isSome_iff_ne_none.mp h)]

theorem allocChannels_isSome : ((io.allocChannels unit).adc unit).isSome := by
  unfold Interfaces.allocChannels
  by_cases h : (io.adc unit).isNone
  · rw [if_pos h]
    simp
  · rw [if_neg h]
    rwa [Option.isSome_iff_ne_none, ne_eq, ← Option.isNone_iff_eq_none]

theorem allocChannels_board : (io.allocChannels unit).board = io.board := by
  unfold Interfaces.allocChannels
  split
  · rfl
  · rfl

/-- `adc_setup` once there is space for the channels. -/
theorem adcSetup_eq (hunit : 1 ≤ unit ∧ unit ≤ cpuLastAdc)
    (hspace : ¬ ((io.adc unit).isNone ∧ channels = false)) :
    adcSetup sd1bit io mem channels unit channel resolution =
      (adcUnitSetup sd1bit mem io.board unit channel >>= fun x =>
        ({ io.allocChannels unit with board := x.2 } : Interfaces).adcChannel unit channel >>=
          fun c =>
            let c := { c with maxResolution := adcMaxResolution unit }
            let io := ({ io.allocChannels unit with board := x.2 } : Interfaces).setAdcChannel unit
              channel c
            if resolution < 6 ∨ adcMaxResolution unit < resolution then
              pure (io.fail mem .operation .adc adcErrInvalidResolution none)
            else pure (none, io.setAdcChannel unit channel
              { c with setup := true, resolution := resolution })) := by
  unfold adcSetup
  unfold cpuLastAdc at hunit ⊢
  rw [if_neg (by omega), if_neg (by unfold cpuLastAdcCh; omega), if_neg hspace]
  unfold adcUnitSetup
  simp only [allocChannels_board]
  by_cases hone : unit = 1
  · simp only [if_pos hone]
  · simp only [if_neg hone]

theorem adcSetup_without_memory {e : Option Nat}
    (hrun : adcSetup sd1bit io none channels unit channel resolution = .ok (e, io')) :
    e = none := by
  by_cases hunit : 1 ≤ unit ∧ unit ≤ cpuLastAdc
  · by_cases hspace : (io.adc unit).isNone ∧ channels = false
    · unfold adcSetup cpuLastAdc cpuLastAdcCh at hrun
      unfold cpuLastAdc at hunit
      rw [if_neg (by omega), if_neg (by omega), if_pos hspace] at hrun
      cases hrun
      rfl
    · rw [adcSetup_eq hunit hspace] at hrun
      obtain ⟨x, -, hrun⟩ := bind_eq_ok.mp hrun
      obtain ⟨c, -, hrun⟩ := bind_eq_ok.mp hrun
      by_cases hres : resolution < 6 ∨ adcMaxResolution unit < resolution
      · simp only [if_pos hres] at hrun
        cases hrun
        rfl
      · simp only [if_neg hres] at hrun
        cases hrun
        rfl
  · unfold adcSetup at hrun
    rw [if_pos (by omega)] at hrun
    cases hrun
    rfl

/-- The state in which `adc_setup` looks at the resolution is as at first exactly if there
    was space, and the setup of the unit has made no error and set up nothing. -/
theorem adcSetup_same_iff (c' : AdcChannel) {b' : Board} {e : Option Nat} (hmem : mem.isSome)
    (hrun : adcUnitSetup sd1bit mem io.board unit channel = .ok (e, b'))
    (hchannel : ({ io.allocChannels unit with board := b' } : Interfaces).adcChannel unit channel =
      .ok c) (hsetup : c'.setup = c.setup) :
    io.Same (({ io.allocChannels unit with board := b' } : Interfaces).setAdcChannel unit channel
      c') ↔ (io.adc unit).isSome ∧ ¬ AdcUnitFails sd1bit io.board unit channel ∧
        AdcUnitHeld io.board unit := by
  have hset := setAdcChannel_sameUnits c' hchannel hsetup
  constructor
  · intro hsame
    have hok : ¬ AdcUnitFails sd1bit io.board unit channel := fun hfails =>
      adcUnitSetup_drops hmem hfails hrun hsame.errors
    refine ⟨?_, hok, ?_⟩
    · rw [← hsame.units.space unit, adcSpace_set]
      exact allocChannels_isSome
    · obtain ⟨b₁, hsucc, -, hheld⟩ := adcUnitSetup_succeeds mem hok
      cases hsucc.symm.trans hrun
      exact hheld.mp hsame.units.board
  · rintro ⟨hspace, hok, hheld⟩
    obtain ⟨b₁, hsucc, herrors, hiff⟩ := adcUnitSetup_succeeds mem hok
    cases hsucc.symm.trans hrun
    rw [allocChannels_of_isSome hspace] at hset ⊢
    refine ⟨?_, (Interfaces.SameUnits.ofBoard (hiff.mpr hheld)).trans hset⟩
    show SameBlocks io.board.drv.errors b'.drv.errors
    rw [herrors]
    exact .refl _

theorem adcSetup_spec :
    SetupSpec io mem (adcSetup sd1bit io mem channels unit channel resolution)
      (AdcFails sd1bit io channels unit channel resolution)
      (AdcCleans sd1bit io channels unit channel resolution) (AdcHeld io unit channel) := by
  by_cases hunit : 1 ≤ unit ∧ unit ≤ cpuLastAdc
  swap
  · have hout : unit < 1 ∨ cpuLastAdc < unit := by omega
    have hrun : adcSetup sd1bit io mem channels unit channel resolution =
        .ok (io.fail mem .operation .adc adcErrInvalidUnit none) := by
      unfold adcSetup
      rw [if_pos hout]
      rfl
    exact .ofFail hrun (.inl hout) (.inl hout)
  by_cases hspace : (io.adc unit).isNone ∧ channels = false
  · have hrun : adcSetup sd1bit io mem channels unit channel resolution =
        .ok (io.fail mem .operation .adc adcErrNotEnoughMemory none) := by
      unfold adcSetup
      unfold cpuLastAdc at hunit ⊢
      rw [if_neg (by omega), if_neg (by unfold cpuLastAdcCh; omega), if_pos hspace]
      rfl
    exact .ofFail hrun (.inr (.inl hspace)) (.inr (.inl hspace))
  have hnone : ¬ (unit < 1 ∨ cpuLastAdc < unit) := by omega
  refine ⟨?_, ?_, ?_, ?_, ?_⟩
  · intro hmem hclean
    obtain ⟨hsome, hrange, hok, hheld, hres⟩ := (hclean.resolve_left hnone).resolve_left hspace
    obtain ⟨b', hsetup, -, -⟩ := adcUnitSetup_succeeds mem hok
    obtain ⟨f, hf⟩ := Option.isSome_iff_exists.mp hsome
    have hchannel : ({ io.allocChannels unit with board := b' } : Interfaces).adcChannel unit
        channel = .ok (f channel) := by
      rw [allocChannels_of_isSome hsome]
      exact adcChannel_eq_ok.mpr ⟨f, hf, hrange, rfl⟩
    obtain ⟨p, io', hfail, hiff⟩ := Interfaces.fail_some hmem
      (({ io.allocChannels unit with board := b' } : Interfaces).setAdcChannel unit channel
        { f channel with maxResolution := adcMaxResolution unit })
      .operation .adc adcErrInvalidResolution none
    refine ⟨p, io', ?_, (hiff io).mpr ?_⟩
    · rw [adcSetup_eq hunit hspace, hsetup, ok_bind, hchannel, ok_bind]
      simp only [if_pos hres, hfail]
      rfl
    · exact (adcSetup_same_iff _ hmem hsetup hchannel (by rfl)).mpr ⟨hsome, hok, hheld⟩
  · rintro rfl e io' hrun
    exact adcSetup_without_memory hrun
  · intro hmem hfails hclean e io' hrun
    rw [adcSetup_eq hunit hspace] at hrun
    obtain ⟨⟨e₁, b'⟩, hsetup, hrun⟩ := bind_eq_ok.mp hrun
    obtain ⟨c, hchannel, hrun⟩ := bind_eq_ok.mp hrun
    have hsame := adcSetup_same_iff { c with maxResolution := adcMaxResolution unit } hmem hsetup
      hchannel (by rfl)
    have hrange : 0 ≤ channel ∧ channel ≤ cpuLastAdcCh := by
      obtain ⟨-, -, hrange, -⟩ := adcChannel_eq_ok.mp hchannel
      exact hrange
    by_cases hres : resolution < 6 ∨ adcMaxResolution unit < resolution
    · obtain ⟨p, io₁, hfail, hiff⟩ := Interfaces.fail_some hmem
        (({ io.allocChannels unit with board := b' } : Interfaces).setAdcChannel unit channel
          { c with maxResolution := adcMaxResolution unit })
        .operation .adc adcErrInvalidResolution none
      simp only [if_pos hres, hfail] at hrun
      cases hrun
      refine ⟨?_, by rintro ⟨⟩⟩
      rintro _ ⟨⟩ hwith
      obtain ⟨hsome, hok, hheld⟩ := hsame.mp ((hiff io).mp hwith)
      exact hclean (.inr (.inr ⟨hsome, hrange, hok, hheld, hres⟩))
    · simp only [if_neg hres] at hrun
      cases hrun
      refine ⟨by rintro _ ⟨⟩, fun _ hsame' => ?_⟩
      have hbad := ((hfails.resolve_left hnone).resolve_left hspace).resolve_right hres
      exact adcUnitSetup_drops hmem hbad hsetup hsame'.errors
  · intro hfails e io' hrun
    obtain ⟨-, hfails⟩ := not_or.mp hfails
    obtain ⟨-, hfails⟩ := not_or.mp hfails
    obtain ⟨hok, hres⟩ := not_or.mp hfails
    rw [adcSetup_eq hunit hspace] at hrun
    obtain ⟨⟨e₁, b'⟩, hsetup, hrun⟩ := bind_eq_ok.mp hrun
    obtain ⟨c, hchannel, hrun⟩ := bind_eq_ok.mp hrun
    simp only [if_neg hres] at hrun
    cases hrun
    refine ⟨rfl, fun hsame => ⟨?_, ?_, ?_⟩⟩
    · obtain ⟨-, -, hrange, -⟩ := adcChannel_eq_ok.mp hchannel
      exact hrange
    · rw [← hsame.units.adc unit channel, adcIsSetup_set (adcChannel_set _ hchannel),
        if_pos ⟨rfl, rfl⟩]
    · obtain ⟨b₁, hsucc, -, hheld⟩ := adcUnitSetup_succeeds mem hok
      cases hsucc.symm.trans hsetup
      exact hheld.mp hsame.units.board
  · rintro hfails ⟨hrange, hheld, hunitHeld⟩
    obtain ⟨-, hfails⟩ := not_or.mp hfails
    obtain ⟨-, hfails⟩ := not_or.mp hfails
    obtain ⟨hok, hres⟩ := not_or.mp hfails
    obtain ⟨b', hsetup, herrors, hsame⟩ := adcUnitSetup_succeeds mem hok
    obtain ⟨f, hf, hset⟩ : ∃ f, io.adc unit = some f ∧ (f channel).setup = true := by
      unfold Interfaces.adcIsSetup at hheld
      cases hadc : io.adc unit with
      | none =>
        rw [hadc] at hheld
        cases hheld
      | some f =>
        rw [hadc] at hheld
        exact ⟨f, rfl, hheld⟩
    have hsome : (io.adc unit).isSome := by rw [hf]; rfl
    have hchannel : ({ io.allocChannels unit with board := b' } : Interfaces).adcChannel unit
        channel = .ok (f channel) := by
      rw [allocChannels_of_isSome hsome]
      exact adcChannel_eq_ok.mpr ⟨f, hf, hrange, rfl⟩
    rw [adcSetup_eq hunit hspace, hsetup, ok_bind, hchannel, ok_bind]
    simp only [if_neg hres]
    refine ⟨_, rfl, ?_, ?_⟩
    · show SameBlocks io.board.drv.errors b'.drv.errors
      rw [herrors]
      exact .refl _
    · have hfirst := setAdcChannel_sameUnits
        { f channel with maxResolution := adcMaxResolution unit } hchannel rfl
      have hsecond := setAdcChannel_sameUnits
        ⟨true, adcMaxResolution unit, resolution⟩
        (adcChannel_set { f channel with maxResolution := adcMaxResolution unit } hchannel)
        hset.symm
      rw [allocChannels_of_isSome hsome] at hfirst hsecond ⊢
      exact ((Interfaces.SameUnits.ofBoard (hsame.mpr hunitHeld)).trans hfirst).trans hsecond

end Adc

section I2c

variable {sd1bit : Bool} {io : Interfaces} {mem : Option (DriverError DriverId)}
  {setup : SensorSetup}

/-- The locks of the pins. -/
def SensorSetup.i2cLocks (setup : SensorSetup) : LockResources DriverId :=
  i2cLockResources setup.i2cId.toNat setup.i2cSda.toNat setup.i2cScl.toNat

def I2cFails (sd1bit : Bool) (io : Interfaces) (setup : SensorSetup) : Prop :=
  1 < setup.i2cId.toNat ∨ setup.i2cLocks.Fails (drivers sd1bit) io.board.drv

/-- The unit is none that `1 << unit` can test, or it is not set up and meets a conflict. -/
def I2cCleans (sd1bit : Bool) (io : Interfaces) (setup : SensorSetup) : Prop :=
  (1 < setup.i2cId.toNat ∧ setup.i2cId.toNat < 32) ∨
    (setup.i2cId.toNat ≤ 1 ∧ (io.board.i2c setup.i2cId.toNat).setup = false ∧
      ∃ pre, setup.i2cLocks.ConflictsAfter (drivers sd1bit) io.board.drv pre)

/-- The unit is set up already. -/
def I2cHeld (io : Interfaces) (setup : SensorSetup) : Prop :=
  (io.board.i2c setup.i2cId.toNat).setup = true

theorem cpuI2cAll_testBit {n : Nat} (hn : n < 32) : cpuI2cAll.testBit n = decide (n ≤ 1) := by
  revert n
  decide

theorem removeI2c_drv {b : Board} {unit : Int} : (b.removeI2c unit).drv = b.drv := by
  unfold Board.removeI2c
  split
  · rfl
  · rfl

theorem removeI2c_setup {b : Board} {unit : Int} : ((b.removeI2c unit).i2c unit).setup = false := by
  unfold Board.removeI2c
  by_cases h : (b.i2c unit).setup = true
  · rw [if_pos h]
    simp
  · rw [if_neg h]
    simpa using h

theorem removeI2c_of_not {b : Board} {unit : Int} (h : (b.i2c unit).setup = false) :
    b.removeI2c unit = b := by
  unfold Board.removeI2c
  rw [if_neg (by rw [h]; decide)]

/-- A unit that was removed and is set up again as it was. -/
theorem removeI2c_sameUnits {b b' : Board} {unit : Int} {x : I2cUnit}
    (h : (b.removeI2c unit).SameUnits b') (hx : x.setup = (b.i2c unit).setup) :
    b.SameUnits { b' with i2c := Function.update b'.i2c unit x } := by
  have hother : ∀ u, u ≠ unit → (b.removeI2c unit).i2c u = b.i2c u := by
    intro u hu
    unfold Board.removeI2c
    split
    · exact Function.update_of_ne hu _ _
    · rfl
  have hrest : (b.removeI2c unit).spi = b.spi ∧ (b.removeI2c unit).uart = b.uart ∧
      (b.removeI2c unit).stepper = b.stepper := by
    unfold Board.removeI2c
    split
    · exact ⟨rfl, rfl, rfl⟩
    · exact ⟨rfl, rfl, rfl⟩
  obtain ⟨hspi, huart, hstepper⟩ := hrest
  refine ⟨?_, ?_, ?_, h.uart.trans huart, h.stepper.trans hstepper⟩
  · have hlocks := h.lockErrors
    rwa [removeI2c_drv] at hlocks
  · intro u
    show (Function.update b'.i2c unit x u).setup = _
    by_cases hu : u = unit
    · subst hu
      rw [Function.update_self, hx]
    · rw [Function.update_of_ne hu, h.i2c u, hother u hu]
  · intro u
    rw [h.spi u, hspi]

/-- `i2c_setup` on a unit that there is. -/
theorem sensorI2cSetup_eq (hunit : setup.i2cId.toNat ≤ 1) :
    sensorI2cSetup sd1bit io mem setup =
      ((io.board.removeI2c setup.i2cId.toNat).lock sd1bit mem setup.i2cLocks >>= fun x =>
        match x.1 with
        | some p => pure (some p, { io with board := x.2 })
        | none => pure (none, { io with board := { x.2 with
            i2c := Function.update x.2.i2c setup.i2cId.toNat ⟨1, true⟩ } })) := by
  have hbit : cpuI2cAll.testBit (setup.i2cId.toNat : Int).toNat = true := by
    rw [Int.toNat_natCast, cpuI2cAll_testBit (by omega)]
    exact decide_eq_true hunit
  unfold sensorI2cSetup i2cSetup
  rw [if_neg (by omega), if_neg (by rw [hbit]; decide)]
  unfold SensorSetup.i2cLocks
  cases hlock : (io.board.removeI2c setup.i2cId.toNat).lock sd1bit mem
      (i2cLockResources setup.i2cId.toNat setup.i2cSda.toNat setup.i2cScl.toNat) with
  | error f =>
    simp only [hlock]
    rfl
  | ok x =>
    obtain ⟨e, b⟩ := x
    simp only [hlock]
    cases e with
    | some p => rfl
    | none => rfl

theorem sensorI2cSetup_spec :
    SetupSpec io mem (sensorI2cSetup sd1bit io mem setup) (I2cFails sd1bit io setup)
      (I2cCleans sd1bit io setup) (I2cHeld io setup) := by
  by_cases hunit : setup.i2cId.toNat ≤ 1
  swap
  · by_cases hshift : setup.i2cId.toNat < 32
    · have hbit : cpuI2cAll.testBit (setup.i2cId.toNat : Int).toNat = false := by
        rw [Int.toNat_natCast, cpuI2cAll_testBit hshift]
        exact decide_eq_false hunit
      have hrun : sensorI2cSetup sd1bit io mem setup =
          .ok (io.fail mem .operation .i2c i2cErrInvalidUnit none) := by
        unfold sensorI2cSetup i2cSetup
        rw [if_neg (by omega), if_pos hbit]
        rfl
      exact .ofFail hrun (.inl (by omega)) (.inl ⟨by omega, hshift⟩)
    · -- `1 << unit` is not defined
      have hrun : sensorI2cSetup sd1bit io mem setup = .error .undefined := by
        unfold sensorI2cSetup i2cSetup
        rw [if_pos (by omega)]
        rfl
      refine ⟨?_, ?_, ?_, ?_, ?_⟩
      · intro _ hclean
        obtain ⟨-, hlt⟩ | ⟨hle, -⟩ := hclean
        · exact absurd hlt hshift
        · exact absurd hle hunit
      · intro _ e io' hx
        cases hrun.symm.trans hx
      · intro _ _ _ e io' hx
        cases hrun.symm.trans hx
      · exact fun hnot => absurd (.inl (by omega)) hnot
      · exact fun hnot => absurd (.inl (by omega)) hnot
  have hone : ¬ 1 < setup.i2cId.toNat := by omega
  have hdrv : (io.board.removeI2c setup.i2cId.toNat).drv = io.board.drv := removeI2c_drv
  refine ⟨?_, ?_, ?_, ?_, ?_⟩
  · intro hmem hclean
    obtain ⟨-, hsetup, pre, hconflict⟩ := hclean.resolve_left (fun h => hone h.1)
    obtain ⟨b', hlock, hfails, -⟩ := Board.lock_conflict hmem hconflict
    refine ⟨_, { io with board := b' }, ?_, .ofBoard hfails⟩
    rw [sensorI2cSetup_eq hunit, removeI2c_of_not hsetup, hlock]
    rfl
  · rintro rfl e io' hx
    rw [sensorI2cSetup_eq hunit] at hx
    obtain ⟨⟨e', b'⟩, hlock, hx⟩ := bind_eq_ok.mp hx
    obtain rfl := Board.lock_without_memory hlock
    cases hx
    rfl
  · intro hmem hfails hclean e io' hx
    rw [sensorI2cSetup_eq hunit] at hx
    obtain ⟨⟨e', b'⟩, hlock, hx⟩ := bind_eq_ok.mp hx
    have hfails := hfails.resolve_left hone
    rw [← hdrv] at hfails
    obtain ⟨⟨pre, hconflict⟩, rfl, -, hi2c⟩ := Board.lock_fails hmem lockPins_locks hfails hlock
    rw [hdrv] at hconflict
    cases hx
    refine ⟨?_, by rintro ⟨⟩⟩
    rintro p - hwith
    -- the unit was set up, and is so no more
    have hsetup : (io.board.i2c setup.i2cId.toNat).setup = true := by
      rw [← Bool.not_eq_false]
      exact fun hsetup => hclean (.inr ⟨hunit, hsetup, pre, hconflict⟩)
    have hgone := hwith.units.board.i2c setup.i2cId.toNat
    rw [hsetup] at hgone
    rw [show b'.i2c = _ from hi2c, removeI2c_setup] at hgone
    cases hgone
  · intro hfails e io' hx
    have hok : ¬ setup.i2cLocks.Fails (drivers sd1bit)
        (io.board.removeI2c setup.i2cId.toNat).drv := by
      rw [hdrv]
      exact (not_or.mp hfails).2
    obtain ⟨b', hlock, -⟩ := Board.lock_succeeds mem hok
    rw [sensorI2cSetup_eq hunit, hlock] at hx
    cases hx
    refine ⟨rfl, fun hsame => ?_⟩
    have hset : (Function.update b'.i2c (setup.i2cId.toNat : Int) ⟨1, true⟩
        setup.i2cId.toNat).setup = _ := hsame.units.board.i2c setup.i2cId.toNat
    rw [Function.update_self] at hset
    exact hset.symm
  · intro hfails hheld
    have hok : ¬ setup.i2cLocks.Fails (drivers sd1bit)
        (io.board.removeI2c setup.i2cId.toNat).drv := by
      rw [hdrv]
      exact (not_or.mp hfails).2
    obtain ⟨b', hlock, hsame, herrors, -⟩ := Board.lock_succeeds mem hok
    rw [sensorI2cSetup_eq hunit, hlock]
    refine ⟨_, rfl, ?_, .ofBoard (removeI2c_sameUnits hsame hheld.symm)⟩
    show SameBlocks io.board.drv.errors b'.drv.errors
    rw [herrors, hdrv]
    exact .refl _

end I2c

section Owire

variable {sd1bit : Bool} {io : Interfaces} {mem : Option (DriverError DriverId)}
  {setup : SensorSetup} {pin : Nat}

/-- The pin is 0; or it is on no device, and is none for a bus, or every device is in use,
    or its lock is refused. -/
def OwireFails (io : Interfaces) (pin : Nat) : Prop :=
  pin = 0 ∨ (pin : Int) ∉ io.owire ∧ (31 < pin ∨ 0 ∉ io.owire ∨
    (io.board.drv.locks .gpio pin).RefusedTo .owire pin)

theorem owireCheckpin_eq_none {pin : Int} : owireCheckpin io pin = none ↔ pin ∉ io.owire := by
  unfold owireCheckpin
  rw [List.findIdx?_eq_none_iff]
  constructor
  · intro h hpin
    simpa using h pin hpin
  · intro h x hx
    exact decide_eq_false fun heq => h (heq ▸ hx)

theorem owireCheckpin_eq_some {pin : Int} {dev : Nat} (h : owireCheckpin io pin = some dev) :
    io.owire[dev]? = some pin := by
  unfold owireCheckpin at h
  obtain ⟨hlt, hdev, -⟩ := List.findIdx?_eq_some_iff_getElem.mp h
  rw [List.getElem?_eq_getElem hlt, of_decide_eq_true hdev]

theorem int8_of_le {x : UInt8} (h : x.toNat ≤ 31) : int8 x = x.toNat := by
  unfold int8
  rw [if_pos (by omega)]

theorem int8_outside {x : UInt8} (h : x.toNat = 0 ∨ 31 < x.toNat) : int8 x < 1 ∨ 31 < int8 x := by
  have hlt := x.toNat_lt
  unfold int8
  split
  · omega
  · omega

theorem int8_mod (x : UInt8) : int8 x % 256 = x.toNat := by
  have hlt := x.toNat_lt
  unfold int8
  split
  · omega
  · omega

theorem sensorOwireSetup_eq : sensorOwireSetup sd1bit io mem setup =
    match owireCheckpin io setup.gpio.toNat with
    | some dev => pure (sensorOwireDevice io mem setup dev)
    | none => owireSetupPin sd1bit io mem (int8 setup.gpio) >>= fun x =>
      match x.1 with
      | some p => pure (some p, setup, x.2)
      | none =>
        match owireCheckpin x.2 setup.gpio.toNat with
        | some dev => pure (sensorOwireDevice x.2 mem setup dev)
        | none => pure ((x.2.fail mem .setup .sensor sensorErrCantInit none).1, setup,
            (x.2.fail mem .setup .sensor sensorErrCantInit none).2) := rfl

/-- The call of `owire_setup_pin` fails with a driver error, or with none where there is no
    memory for it, and nothing is set up. -/
theorem sensorOwireSetup_fails (sd1bit : Bool) (mem : Option (DriverError DriverId))
    {type : ErrorType} {driver : DriverId} {exception : Int}
    {msg : Option String} (hpin : (setup.gpio.toNat : Int) ∉ io.owire)
    (hrun : owireSetupPin sd1bit io mem (int8 setup.gpio) =
      .ok (io.fail mem type driver exception msg)) :
    ∃ type' driver' exception' msg',
      (sensorOwireSetup sd1bit io mem setup).map (fun x => (x.1, x.2.2)) =
        .ok (io.fail mem type' driver' exception' msg') := by
  rw [sensorOwireSetup_eq, owireCheckpin_eq_none.mpr hpin]
  simp only [hrun, ok_bind]
  cases mem with
  | some block => exact ⟨type, driver, exception, msg, rfl⟩
  | none =>
    refine ⟨.setup, .sensor, sensorErrCantInit, none, ?_⟩
    simp only [Interfaces.fail_none, owireCheckpin_eq_none.mpr hpin]
    rfl

/-- `owire_setup_pin` on a pin for a new device. -/
theorem owireSetupPin_eq {dev : Nat} (hset : (setup.gpio.toNat : Int) ∉ io.owire)
    (hpin : 1 ≤ setup.gpio.toNat ∧ setup.gpio.toNat ≤ 31) (hdev : owireCheckpin io 0 = some dev) :
    owireSetupPin sd1bit io mem (int8 setup.gpio) =
      (lockUnit io.board.drv .owire setup.gpio.toNat .gpio (cpuLastGpio + 1) setup.gpio.toNat >>=
        fun x => match x.1 with
        | some p => do
          let (error, drv) ← driverLockError x.2 mem p
          pure (error, { io with board := { io.board with drv := drv } })
        | none => pure (none, { io with
            board := { io.board with drv := x.2 }
            owire := io.owire.set dev setup.gpio.toNat })) := by
  unfold owireSetupPin owireLock
  rw [int8_mod, owireCheckpin_eq_none.mpr hset, int8_of_le hpin.2, hdev]
  rw [if_neg (by decide), if_neg (by omega)]
  rfl

/-- A new device. -/
theorem sensorOwireSetup_new {dev : Nat} {drv : DriverState DriverId}
    (hset : (setup.gpio.toNat : Int) ∉ io.owire)
    (hpin : 1 ≤ setup.gpio.toNat ∧ setup.gpio.toNat ≤ 31) (hdev : owireCheckpin io 0 = some dev)
    (hgrant : (io.board.drv.locks .gpio setup.gpio.toNat).GrantsTo .owire setup.gpio.toNat)
    (hlock : lockUnit io.board.drv .owire setup.gpio.toNat .gpio (cpuLastGpio + 1)
      setup.gpio.toNat = .ok (none, drv)) :
    SetupSpec io mem ((sensorOwireSetup sd1bit io mem setup).map fun x => (x.1, x.2.2))
      (OwireFails io setup.gpio.toNat) (OwireFails io setup.gpio.toNat)
      ((setup.gpio.toNat : Int) ∈ io.owire) := by
  have hlt : dev < io.owire.length :=
    (List.getElem?_eq_some_iff.mp (owireCheckpin_eq_some hdev)).1
  have hzero : (0 : Int) ∈ io.owire := List.mem_of_getElem? (owireCheckpin_eq_some hdev)
  have hmem : (setup.gpio.toNat : Int) ∈ io.owire.set dev setup.gpio.toNat :=
    List.mem_set hlt _
  have hnot : ¬ OwireFails io setup.gpio.toNat := by
    rintro (hz | ⟨-, hgt | hfree | href⟩)
    · omega
    · omega
    · exact hfree hzero
    · exact href hgrant
  have hrun : (sensorOwireSetup sd1bit io mem setup).map (fun x => (x.1, x.2.2)) =
      .ok (none, { io with
        board := { io.board with drv := drv }
        owire := io.owire.set dev setup.gpio.toNat }) := by
    rw [sensorOwireSetup_eq, owireCheckpin_eq_none.mpr hset]
    simp only [owireSetupPin_eq hset hpin hdev, hlock, ok_bind, pure_eq_ok]
    cases hfind : owireCheckpin { io with
        board := { io.board with drv := drv }
        owire := io.owire.set dev setup.gpio.toNat } setup.gpio.toNat with
    | none => exact absurd hmem (owireCheckpin_eq_none.mp hfind)
    | some dev' =>
      have hpin' : (io.owire.set dev setup.gpio.toNat)[dev']? = some (setup.gpio.toNat : Int) :=
        owireCheckpin_eq_some hfind
      unfold sensorOwireDevice
      simp only [hpin', Option.some.injEq]
      rw [if_neg (by omega)]
      rfl
  refine ⟨fun _ h => absurd h hnot, ?_, fun _ h => absurd h hnot, ?_, fun _ h => absurd h hset⟩
  · intro _ e io' hx
    cases hrun.symm.trans hx
    rfl
  · intro _ e io' hx
    cases hrun.symm.trans hx
    refine ⟨rfl, fun hsame => ?_⟩
    rw [← hsame.units.owire]
    exact hmem

/-- A pin that is locked. -/
theorem sensorOwireSetup_refused {dev : Nat} (hset : (setup.gpio.toNat : Int) ∉ io.owire)
    (hpin : 1 ≤ setup.gpio.toNat ∧ setup.gpio.toNat ≤ 31) (hdev : owireCheckpin io 0 = some dev)
    (href : (io.board.drv.locks .gpio setup.gpio.toNat).RefusedTo .owire setup.gpio.toNat)
    (hle : setup.gpio.toNat ≤ cpuLastGpio) :
    SetupSpec io mem ((sensorOwireSetup sd1bit io mem setup).map fun x => (x.1, x.2.2))
      (OwireFails io setup.gpio.toNat) (OwireFails io setup.gpio.toNat)
      ((setup.gpio.toNat : Int) ∈ io.owire) := by
  have hfails : OwireFails io setup.gpio.toNat := .inr ⟨hset, .inr (.inr href)⟩
  refine ⟨?_, ?_, fun _ _ hnot => absurd hfails hnot, fun hnot => absurd hfails hnot,
    fun hnot => absurd hfails hnot⟩
  · intro hmem _
    obtain ⟨drv, herror, hlocks, hreturned⟩ := driverLockError_revoke hmem io.board.drv .owire
      setup.gpio.toNat .gpio setup.gpio.toNat
    refine ⟨_, { io with board := { io.board with drv := drv } }, ?_, hreturned,
      .ofBoard (.ofDrv hlocks)⟩
    rw [sensorOwireSetup_eq, owireCheckpin_eq_none.mpr hset]
    simp only [owireSetupPin_eq hset hpin hdev, lockPin_refused hle href, ok_bind, herror]
    rfl
  · rintro rfl e io' hx
    rw [sensorOwireSetup_eq, owireCheckpin_eq_none.mpr hset] at hx
    simp only [owireSetupPin_eq hset hpin hdev, lockPin_refused hle href, ok_bind,
      driverLockError, DriverState.revoke, Heap.free_alloc, pure_eq_ok] at hx
    rw [owireCheckpin_eq_none.mpr (by exact hset)] at hx
    cases hx
    rfl

theorem sensorOwireSetup_spec :
    SetupSpec io mem ((sensorOwireSetup sd1bit io mem setup).map fun x => (x.1, x.2.2))
      (OwireFails io setup.gpio.toNat) (OwireFails io setup.gpio.toNat)
      ((setup.gpio.toNat : Int) ∈ io.owire) := by
  by_cases hset : (setup.gpio.toNat : Int) ∈ io.owire
  · cases hdev : owireCheckpin io setup.gpio.toNat with
    | none => exact absurd hset (owireCheckpin_eq_none.mp hdev)
    | some dev =>
      have hrun : (sensorOwireSetup sd1bit io mem setup).map (fun x => (x.1, x.2.2)) =
          .ok (if setup.gpio.toNat = 0 then io.fail mem .setup .sensor sensorErrCantInit none
            else (none, io)) := by
        rw [sensorOwireSetup_eq, hdev]
        have hpin := owireCheckpin_eq_some hdev
        by_cases hzero : setup.gpio.toNat = 0
        · have hfree : io.owire[dev]? = some 0 := by rw [hpin, hzero]; rfl
          simp only [sensorOwireDevice, if_pos hzero, if_pos hfree]
          rfl
        · have hne : io.owire[dev]? ≠ some 0 := by
            rw [hpin, ne_eq, Option.some.injEq]
            omega
          simp only [sensorOwireDevice, if_neg hzero, if_neg hne]
          rfl
      by_cases hzero : setup.gpio.toNat = 0
      · rw [if_pos hzero] at hrun
        exact .ofFail hrun (.inl hzero) (.inl hzero)
      · rw [if_neg hzero] at hrun
        refine .ofDone hrun ?_ hset
        rintro (hz | ⟨hnot, -⟩)
        · exact hzero hz
        · exact hnot hset
  · by_cases hpin : setup.gpio.toNat = 0 ∨ 31 < setup.gpio.toNat
    · -- the pin is none for a bus
      have hfails : OwireFails io setup.gpio.toNat := by
        obtain hz | hgt := hpin
        · exact .inl hz
        · exact .inr ⟨hset, .inl hgt⟩
      obtain ⟨_, _, _, _, hrun⟩ := sensorOwireSetup_fails sd1bit mem hset (by
        unfold owireSetupPin
        rw [int8_mod, owireCheckpin_eq_none.mpr hset, if_neg (by decide),
          if_pos (int8_outside hpin)]
        rfl)
      exact .ofFail hrun hfails hfails
    · cases hdev : owireCheckpin io 0 with
      | none =>
        have hfails : OwireFails io setup.gpio.toNat :=
          .inr ⟨hset, .inr (.inl (owireCheckpin_eq_none.mp hdev))⟩
        obtain ⟨_, _, _, _, hrun⟩ := sensorOwireSetup_fails sd1bit mem hset (by
          unfold owireSetupPin owireLock
          rw [int8_mod, owireCheckpin_eq_none.mpr hset, int8_of_le (by omega), hdev]
          rw [if_neg (by decide), if_neg (by omega)]
          rfl)
        exact .ofFail hrun hfails hfails
      | some dev =>
        have hrange : 1 ≤ setup.gpio.toNat ∧ setup.gpio.toNat ≤ 31 := by omega
        have hle : setup.gpio.toNat ≤ cpuLastGpio := by unfold cpuLastGpio; omega
        by_cases hgrant : (io.board.drv.locks .gpio setup.gpio.toNat).GrantsTo .owire
          setup.gpio.toNat
        · obtain ⟨drv, hlock, -, -⟩ := lockPin_granted hle hgrant
          exact sensorOwireSetup_new hset hrange hdev hgrant hlock
        · exact sensorOwireSetup_refused hset hrange hdev hgrant hle

end Owire

/-! ## The sensors -/

/-- A step of the setup of the interface fails; spi is not supported. -/
def InterfaceFails (sd1bit : Bool) (io : Interfaces) (channels : Bool) (unit : Int)
    (setup : SensorSetup) : SensorInterface → Prop
  | .adc => AdcFails sd1bit io channels (int8 setup.adcUnit) (int8 setup.adcChannel)
      setup.adcResolution.toNat
  | .gpio => GpioFails io unit setup.gpio.toNat
  | .owire => OwireFails io setup.gpio.toNat
  | .i2c => I2cFails sd1bit io setup
  | .spi => True

/-- The steps after which nothing is left on the interface. -/
def InterfaceCleans (sd1bit : Bool) (io : Interfaces) (channels : Bool) (unit : Int)
    (setup : SensorSetup) : SensorInterface → Prop
  | .adc => AdcCleans sd1bit io channels (int8 setup.adcUnit) (int8 setup.adcChannel)
      setup.adcResolution.toNat
  | .gpio => GpioCleans io unit setup.gpio.toNat
  | .owire => OwireFails io setup.gpio.toNat
  | .i2c => I2cCleans sd1bit io setup
  | .spi => False

/-- The interface is set up already. -/
def InterfaceHeld (io : Interfaces) (setup : SensorSetup) : SensorInterface → Prop
  | .adc => AdcHeld io (int8 setup.adcUnit) (int8 setup.adcChannel)
  | .gpio => True
  | .owire => (setup.gpio.toNat : Int) ∈ io.owire
  | .i2c => I2cHeld io setup
  | .spi => False

/-- The specific setup returns a driver error. -/
def SpecificSetup.Fails : SpecificSetup → Prop
  | .done _ => False
  | .fails .. => True

/-- The blocks that the specific setup leaves. -/
def SpecificSetup.blocks : SpecificSetup → List Nat
  | .done blocks => blocks
  | .fails _ _ _ blocks => blocks

/-- A failure leaves its driver error, and nothing else. -/
structure Sensors.FailsWith (s s' : Sensors) (p : Nat) : Prop where
  io : s.io.FailsWith s'.io p
  units : s.units.Same s'.units
  own : SameBlocks s.own s'.own

/-- A step of `sensor_setup` fails. -/
def SensorFails (sd1bit : Bool) (s : Sensors) (env : SensorEnv) (sensor : Sensor)
    (setup : SensorSetup) : Prop :=
  sensor.acquire = false ∨ env.block = false ∨ ¬ AddCond s.units.list env.index ∨
    InterfaceFails sd1bit s.io env.channels (nextHandle s.units.list) setup sensor.interface ∨
      sensor.setup = true ∧ env.specific.Fails

/-- The steps that `sensor_setup` cleans up after: its check and first allocation; a failure
    that the interface reports and leaves nothing of; and one of the specific setup that leaves
    no block, on an interface that was set up before. -/
def SensorCleans (sd1bit : Bool) (s : Sensors) (env : SensorEnv) (sensor : Sensor)
    (setup : SensorSetup) : Prop :=
  sensor.acquire = false ∨ env.block = false ∨ AddCond s.units.list env.index ∧
    (InterfaceCleans sd1bit s.io env.channels (nextHandle s.units.list) setup sensor.interface ∨
      ¬ InterfaceFails sd1bit s.io env.channels (nextHandle s.units.list) setup sensor.interface ∧
        InterfaceHeld s.io setup sensor.interface ∧ env.specific.blocks = [])

/-- A failure of `sensor_setup` is reported, and leaves nothing else. -/
def SensorAtomic (sd1bit : Bool) (s : Sensors) (env : SensorEnv) (sensor : Sensor)
    (setup : SensorSetup) : Prop :=
  SensorFails sd1bit s env sensor setup → ∃ p u s',
    sensorSetup sd1bit s env sensor setup = .ok (some p, u, s') ∧ s.FailsWith s' p

section Sensors

variable {sd1bit : Bool} {s : Sensors} {env : SensorEnv} {sensor : Sensor} {setup : SensorSetup}
  {m : ListMap Nat}

/-- The setup structure goes through. -/
theorem map_withSetup (setup : SensorSetup) (y : Result (Option Nat × Interfaces)) :
    (y >>= fun r => (pure (r.1, setup, r.2) : Result _)).map (fun r => (r.1, r.2.2)) = y := by
  cases y with
  | error f => rfl
  | ok r => rfl

theorem sensorInterfaceSetup_spec {io : Interfaces} {mem : Option (DriverError DriverId)}
    {channels : Bool} {unit : Int} {i : SensorInterface}
    {x : Result (Option Nat × SensorSetup × Interfaces)}
    (h : sensorInterfaceSetup sd1bit io mem channels unit setup i = some x) :
    SetupSpec io mem (x.map fun r => (r.1, r.2.2))
      (InterfaceFails sd1bit io channels unit setup i)
      (InterfaceCleans sd1bit io channels unit setup i) (InterfaceHeld io setup i) := by
  cases i with
  | adc =>
    cases h
    exact (map_withSetup setup _).symm ▸ adcSetup_spec
  | gpio =>
    cases h
    exact (map_withSetup setup _).symm ▸ sensorGpioSetup_spec
  | owire =>
    cases h
    exact sensorOwireSetup_spec
  | i2c =>
    cases h
    exact (map_withSetup setup _).symm ▸ sensorI2cSetup_spec
  | spi => cases h

theorem sensorInterfaceSetup_none {io : Interfaces} {mem : Option (DriverError DriverId)}
    {channels : Bool} {unit : Int} {i : SensorInterface} :
    sensorInterfaceSetup sd1bit io mem channels unit setup i = none ↔ i = .spi := by
  cases i with
  | spi => exact ⟨fun _ => rfl, fun _ => rfl⟩
  | adc | gpio | owire | i2c => exact ⟨by rintro ⟨⟩, by rintro ⟨⟩⟩

theorem specific_units (s : Sensors) (env : SensorEnv) (sensor : Sensor) :
    (s.specific env sensor).2.units = s.units := by
  unfold Sensors.specific
  split
  · rfl
  · rfl
  · rfl

/-- The sensors once the instance is in the list and its interface set up. -/
def Sensors.added (s : Sensors) (l' : CList Nat) (sensor : Sensor) (setup : SensorSetup)
    (io' : Interfaces) : Sensors :=
  ⟨io', ⟨l', s.units.blocks.alloc (newInstance sensor setup (nextHandle s.units.list))⟩, s.own⟩

/-- The setup of the interface in `sensor_setup`. -/
def Sensors.interface (sd1bit : Bool) (s : Sensors) (env : SensorEnv) (sensor : Sensor)
    (setup : SensorSetup) : Option (Result (Option Nat × SensorSetup × Interfaces)) :=
  sensorInterfaceSetup sd1bit s.io env.error env.channels (nextHandle s.units.list) setup
    sensor.interface

/-- `sensor_setup` once the instance is in the list `l'`, by what its parts return; `u'` are
    the units when the instance has been removed. -/
structure SensorRun (sd1bit : Bool) (s : Sensors) (env : SensorEnv) (sensor : Sensor)
    (setup : SensorSetup) (l' : CList Nat) (u' : Units SensorInstance) : Prop where
  same : s.units.Same u'
  free : u'.list.free ≠ none
  unsupported : s.interface sd1bit env sensor setup = none →
    sensorSetup sd1bit s env sensor setup =
      let r := (s.added l' sensor setup s.io).fail env.error sensorErrInterfaceNotSupported
      .ok (r.1, none, r.2)
  faults : ∀ f, s.interface sd1bit env sensor setup = some (.error f) →
    sensorSetup sd1bit s env sensor setup = .error f
  fails : ∀ p setup' io', s.interface sd1bit env sensor setup = some (.ok (some p, setup', io')) →
    sensorSetup sd1bit s env sensor setup = .ok (some p, none, ⟨io', u', s.own⟩)
  specific : ∀ setup' io' p s₁,
    s.interface sd1bit env sensor setup = some (.ok (none, setup', io')) →
    (s.added l' sensor setup' io').specific env sensor = (some p, s₁) →
    sensorSetup sd1bit s env sensor setup = .ok (some p, none, { s₁ with units := u' })
  done : ∀ setup' io' s₁,
    s.interface sd1bit env sensor setup = some (.ok (none, setup', io')) →
    (s.added l' sensor setup' io').specific env sensor = (none, s₁) →
    sensorSetup sd1bit s env sensor setup = .ok (none, some s.units.blocks.length, s₁)

theorem sensorSetup_run (sd1bit : Bool) (setup : SensorSetup) (h : Refines s.units.list m)
    (hacquire : sensor.acquire = true)
    (hblock : env.block = true) (hadd : AddCond s.units.list env.index) :
    ∃ l' u', SensorRun sd1bit s env sensor setup l' u' ∧
      m.lookup (nextHandle s.units.list) = none ∧
      Refines l' (m.insert (nextHandle s.units.list) s.units.blocks.length) := by
  obtain ⟨l', hok, hfresh, hins⟩ := Units.add_ok (x := newInstance sensor setup) h hadd
  obtain ⟨u', hsame, hfree, hrem⟩ := Units.remove_added h hfresh hins
  have hacquire' : ¬ sensor.acquire = false := by rw [hacquire]; decide
  have hblock' : ¬ env.block = false := by rw [hblock]; decide
  refine ⟨l', u', ⟨hsame, hfree, ?_, ?_, ?_, ?_, ?_⟩, hfresh, hins⟩
  · intro hx
    unfold Sensors.interface at hx
    unfold sensorSetup
    rw [if_neg hacquire', if_neg hblock', hok]
    simp only [ok_bind, hx]
    rfl
  · intro f hx
    unfold Sensors.interface at hx
    unfold sensorSetup
    rw [if_neg hacquire', if_neg hblock', hok]
    simp only [ok_bind, hx]
    rfl
  · intro p setup' io' hx
    unfold Sensors.interface at hx
    unfold sensorSetup
    rw [if_neg hacquire', if_neg hblock', hok]
    simp only [ok_bind, hx, Heap.write_alloc, hrem]
    rfl
  · intro setup' io' p s₁ hx hspecific
    have hunits : s₁.units = (s.added l' sensor setup' io').units := by
      have hkept := specific_units (s.added l' sensor setup' io') env sensor
      rwa [hspecific] at hkept
    unfold Sensors.added at hunits hspecific
    unfold Sensors.interface at hx
    unfold sensorSetup
    rw [if_neg hacquire', if_neg hblock', hok]
    simp only [ok_bind, hx, Heap.write_alloc, hspecific, hunits, hrem]
    rfl
  · intro setup' io' s₁ hx hspecific
    unfold Sensors.added at hspecific
    unfold Sensors.interface at hx
    unfold sensorSetup
    rw [if_neg hacquire', if_neg hblock', hok]
    simp only [ok_bind, hx, Heap.write_alloc, hspecific]
    rfl

/-- A call that stops before it has added an instance. -/
theorem sensorSetup_early (sd1bit : Bool) (s : Sensors) (setup : SensorSetup)
    (hearly : sensor.acquire = false ∨ env.block = false) :
    ∃ exception, sensorSetup sd1bit s env sensor setup =
      .ok ((s.fail env.error exception).1, none, (s.fail env.error exception).2) := by
  unfold sensorSetup
  by_cases hacquire : sensor.acquire = false
  · rw [if_pos hacquire]
    exact ⟨_, rfl⟩
  · rw [if_neg hacquire, if_pos (hearly.resolve_left hacquire)]
    exact ⟨_, rfl⟩

theorem sensorSetup_not_added (h : Refines s.units.list m) (hacquire : sensor.acquire = true)
    (hblock : env.block = true) (hadd : ¬ AddCond s.units.list env.index) {e u : Option Nat}
    {s' : Sensors} (hrun : sensorSetup sd1bit s env sensor setup = .ok (e, u, s')) :
    ¬ s.units.Same s'.units ∧ (env.error = none → e = none) := by
  unfold sensorSetup at hrun
  rw [if_neg (by rw [hacquire]; decide), if_neg (by rw [hblock]; decide)] at hrun
  obtain ⟨f, hf⟩ | ⟨u', hu, hnot⟩ := Units.add_fails (x := newInstance sensor setup) h hadd
  · rw [hf] at hrun
    cases hrun
  · rw [hu] at hrun
    cases hrun
    refine ⟨hnot, fun hmem => ?_⟩
    rw [hmem]
    rfl

/-- The specific setup, with its driver error and its blocks. -/
theorem specific_fails (s : Sensors) (hsetup : sensor.setup = true) (hfails : env.specific.Fails)
    (hmem : env.error.isSome) :
    ∃ p s', s.specific env sensor = (some p, s') ∧
      s'.own = s.own ++ env.specific.blocks.map some ∧
      ∀ io₀ : Interfaces, io₀.FailsWith s'.io p ↔ io₀.Same s.io := by
  unfold Sensors.specific
  cases hspecific : env.specific with
  | done blocks =>
    rw [hspecific] at hfails
    exact hfails.elim
  | fails type exception msg blocks =>
    obtain ⟨p, io', hfail, hiff⟩ := Interfaces.fail_some hmem s.io type .sensor exception msg
    rw [hsetup]
    simp only [hfail]
    exact ⟨_, _, rfl, rfl, hiff⟩

/-- Where it returns an error it fails. -/
theorem specific_some {s s' : Sensors} {p : Nat} (h : s.specific env sensor = (some p, s')) :
    sensor.setup = true ∧ env.specific.Fails ∧ env.error.isSome := by
  unfold Sensors.specific at h
  cases hsetup : sensor.setup with
  | false =>
    rw [hsetup] at h
    cases h
  | true =>
    cases hspecific : env.specific with
    | done blocks =>
      rw [hsetup, hspecific] at h
      cases h
    | fails type exception msg blocks =>
      rw [hsetup, hspecific] at h
      refine ⟨rfl, trivial, ?_⟩
      cases hmem : env.error with
      | none =>
        rw [hmem] at h
        cases h
      | some block => rfl

theorem sameBlocks_append_iff {α : Type} {h : Heap α} {blocks : List α} :
    SameBlocks h (h ++ blocks.map some) ↔ blocks = [] := by
  constructor
  · intro hsame
    cases blocks with
    | nil => rfl
    | cons x rest =>
      have hnew := (hsame h.length x).mp (by simp)
      rw [List.getElem?_eq_none (Nat.le_refl _)] at hnew
      cases hnew
  · rintro rfl
    simpa using SameBlocks.refl h

/-- Without memory for a driver error there is none. -/
theorem sensorSetup_without_memory (h : Refines s.units.list m) (hmem : env.error = none)
    {e u : Option Nat} {s' : Sensors}
    (hrun : sensorSetup sd1bit s env sensor setup = .ok (e, u, s')) : e = none := by
  by_cases hearly : sensor.acquire = false ∨ env.block = false
  · obtain ⟨exception, heq⟩ := sensorSetup_early sd1bit s setup hearly
    cases heq.symm.trans hrun
    rw [hmem]
    rfl
  · obtain ⟨hacquire, hblock⟩ := not_or.mp hearly
    rw [Bool.not_eq_false] at hacquire hblock
    by_cases hadd : AddCond s.units.list env.index
    · obtain ⟨l', u', hcalls, -, -⟩ := sensorSetup_run sd1bit setup h hacquire hblock hadd
      cases hx : s.interface sd1bit env sensor setup with
      | none =>
        cases (hcalls.unsupported hx).symm.trans hrun
        rw [hmem]
        rfl
      | some x =>
        have hspec := sensorInterfaceSetup_spec hx
        cases x with
        | error f => cases (hcalls.faults f hx).symm.trans hrun
        | ok r =>
          obtain ⟨e', setup', io'⟩ := r
          obtain rfl := hspec.without_memory hmem e' io' rfl
          cases hafter : (s.added l' sensor setup' io').specific env sensor with
          | mk e₁ s₁ =>
            cases e₁ with
            | none =>
              cases (hcalls.done _ _ _ hx hafter).symm.trans hrun
              rfl
            | some p =>
              obtain ⟨-, -, hsome⟩ := specific_some hafter
              rw [hmem] at hsome
              cases hsome
    · exact (sensorSetup_not_added h hacquire hblock hadd hrun).2 hmem

/-- Where the specific setup has returned the error and nothing is left, it left no block, and
    the interface nothing. -/
theorem SensorRun.specific_left {l' : CList Nat} {u' : Units SensorInstance} {setup' : SensorSetup}
    {io' : Interfaces} (h : SensorRun sd1bit s env sensor setup l' u') (hmem : env.error.isSome)
    (hx : s.interface sd1bit env sensor setup = some (.ok (none, setup', io'))) {p : Nat}
    {u : Option Nat} {s' : Sensors}
    (hrun : sensorSetup sd1bit s env sensor setup = .ok (some p, u, s'))
    (hwith : s.FailsWith s' p) :
    env.specific.blocks = [] ∧ s.io.Same io' := by
  cases hafter : (s.added l' sensor setup' io').specific env sensor with
  | mk e s₁ =>
    cases e with
    | none => cases (h.done _ _ _ hx hafter).symm.trans hrun
    | some q =>
      cases (h.specific _ _ _ _ hx hafter).symm.trans hrun
      obtain ⟨hsetup, hspecific, -⟩ := specific_some hafter
      obtain ⟨q', s₂, hafter', hown, hiff⟩ := specific_fails (s.added l' sensor setup' io') hsetup
        hspecific hmem
      cases hafter.symm.trans hafter'
      have hblocks : SameBlocks s.own s₁.own := hwith.own
      rw [hown] at hblocks
      exact ⟨sameBlocks_append_iff.mp hblocks, (hiff s.io).mp hwith.io⟩

/-- What is not cleaned up after is left. -/
theorem sensorSetup_leaves (h : Refines s.units.list m) (hmem : env.error.isSome)
    (hclean : ¬ SensorCleans sd1bit s env sensor setup) {p : Nat} {u : Option Nat} {s' : Sensors}
    (hrun : sensorSetup sd1bit s env sensor setup = .ok (some p, u, s')) : ¬ s.FailsWith s' p := by
  obtain ⟨hacquire, hclean⟩ := not_or.mp hclean
  obtain ⟨hblock, hclean⟩ := not_or.mp hclean
  rw [Bool.not_eq_false] at hacquire hblock
  intro hwith
  by_cases hadd : AddCond s.units.list env.index
  · have hclean := not_and.mp hclean hadd
    obtain ⟨l', u', hcalls, -, -⟩ := sensorSetup_run sd1bit setup h hacquire hblock hadd
    cases hx : s.interface sd1bit env sensor setup with
    | none =>
      -- the instance is still in the list
      have hr := (hcalls.unsupported hx).symm.trans hrun
      have hs : ((s.added l' sensor setup s.io).fail env.error
          sensorErrInterfaceNotSupported).2 = s' := congrArg (fun r => r.2.2) (Except.ok.inj hr)
      have hblocks := hwith.units.blocks
      rw [← hs] at hblocks
      exact not_sameBlocks_alloc hblocks
    | some x =>
      have hspec := sensorInterfaceSetup_spec hx
      cases x with
      | error f => cases (hcalls.faults f hx).symm.trans hrun
      | ok r =>
        obtain ⟨e, setup', io'⟩ := r
        by_cases hfails : InterfaceFails sd1bit s.io env.channels (nextHandle s.units.list) setup
          sensor.interface
        · obtain ⟨hsome, hnone⟩ := hspec.leaves hmem hfails (fun hc => hclean (.inl hc)) e io' rfl
          cases e with
          | some q =>
            cases (hcalls.fails _ _ _ hx).symm.trans hrun
            exact hsome _ rfl hwith.io
          | none =>
            obtain ⟨-, hsame⟩ := hcalls.specific_left hmem hx hrun hwith
            exact hnone rfl hsame
        · obtain ⟨rfl, hheld⟩ := hspec.succeeds hfails e io' rfl
          obtain ⟨hblocks, hsame⟩ := hcalls.specific_left hmem hx hrun hwith
          exact hclean (.inr ⟨hfails, hheld hsame, hblocks⟩)
  · exact (sensorSetup_not_added h hacquire hblock hadd hrun).1 hwith.units

/-- `sensor_setup` cleans up after the step that fails. -/
theorem sensorSetup_cleans (h : Refines s.units.list m) (hmem : env.error.isSome)
    (hfails : SensorFails sd1bit s env sensor setup)
    (hclean : SensorCleans sd1bit s env sensor setup) :
    ∃ p u s', sensorSetup sd1bit s env sensor setup = .ok (some p, u, s') ∧ s.FailsWith s' p := by
  by_cases hearly : sensor.acquire = false ∨ env.block = false
  · obtain ⟨exception, heq⟩ := sensorSetup_early sd1bit s setup hearly
    obtain ⟨p, io', hfail, hiff⟩ := Interfaces.fail_some hmem s.io .setup .sensor exception none
    refine ⟨p, none, { s with io := io' }, ?_, (hiff s.io).mpr (.refl _), .refl _, .refl _⟩
    rw [heq]
    unfold Sensors.fail
    rw [hfail]
  · obtain ⟨hacquire, hblock⟩ := not_or.mp hearly
    obtain ⟨hadd, hclean⟩ := (hclean.resolve_left hacquire).resolve_left hblock
    have hfails := ((hfails.resolve_left hacquire).resolve_left hblock).resolve_left
      (not_not.mpr hadd)
    rw [Bool.not_eq_false] at hacquire hblock
    obtain ⟨l', u', hcalls, -, -⟩ := sensorSetup_run sd1bit setup h hacquire hblock hadd
    cases hx : s.interface sd1bit env sensor setup with
    | none =>
      obtain hi := sensorInterfaceSetup_none.mp hx
      rw [hi] at hclean
      obtain hc | ⟨hnot, -⟩ := hclean
      · exact hc.elim
      · exact absurd trivial hnot
    | some x =>
      have hspec := sensorInterfaceSetup_spec hx
      cases x with
      | error f =>
        obtain hc | ⟨hnot, hheld, -⟩ := hclean
        · obtain ⟨p, io', hrun, -⟩ := hspec.undone hmem hc
          cases hrun
        · obtain ⟨io', hrun, -⟩ := hspec.same hnot hheld
          cases hrun
      | ok r =>
        obtain ⟨e, setup', io'⟩ := r
        obtain hc | ⟨hnot, hheld, hblocks⟩ := hclean
        · obtain ⟨p, io₁, hrun, hwith⟩ := hspec.undone hmem hc
          cases hrun
          exact ⟨_, _, _, hcalls.fails _ _ _ hx, hwith, hcalls.same, .refl _⟩
        · obtain ⟨io₁, hrun, hsame⟩ := hspec.same hnot hheld
          cases hrun
          obtain ⟨hsetup, hspecific⟩ := hfails.resolve_left hnot
          obtain ⟨p, s₁, hafter, hown, hiff⟩ := specific_fails (s.added l' sensor setup' io') hsetup
            hspecific hmem
          refine ⟨_, _, _, hcalls.specific _ _ _ _ hx hafter, (hiff s.io).mpr hsame,
            hcalls.same, ?_⟩
          show SameBlocks s.own s₁.own
          rw [hown]
          exact sameBlocks_append_iff.mpr hblocks

/-- `sensor_setup` is atomic exactly when the step that fails is one that it cleans up
    after, and there is memory for the error. -/
theorem sensorSetup_atomic_iff (h : Refines s.units.list m) :
    SensorAtomic sd1bit s env sensor setup ↔
      (SensorFails sd1bit s env sensor setup →
        env.error.isSome ∧ SensorCleans sd1bit s env sensor setup) := by
  refine forall_congr' fun hfails => ⟨?_, ?_⟩
  · rintro ⟨p, u, s', hrun, hwith⟩
    have hmem : env.error.isSome := by
      rw [Option.isSome_iff_ne_none]
      intro hmem
      cases sensorSetup_without_memory h hmem hrun
    refine ⟨hmem, ?_⟩
    by_contra hclean
    exact sensorSetup_leaves h hmem hclean hrun hwith
  · rintro ⟨hmem, hclean⟩
    exact sensorSetup_cleans h hmem hfails hclean

end Sensors

/-! ## The three setups -/

/-- The timings of a unit. -/
def sampleTiming : NzrTiming := ⟨84, 216, 216, 84, 12000⟩

/-- Memory for everything. -/
def sampleNzrEnv : NzrEnv :=
  ⟨true, some fun _ => ⟨0, 0, 0, none⟩, some ⟨.operation, none, 0, 0, none, none⟩⟩

/-- A uart holds pin 4. -/
def lockedPixels : Pixels :=
  { Pixels.start with board := { Board.start with drv := DriverState.start.grant .uart 1 .gpio 4 } }

end LuaRtos.Driver
