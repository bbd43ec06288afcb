/-
  LuaRtos.Drivers.Rollback

  What a setup that meets a lock conflict leaves behind.

  A setup takes its locks one after the other and gives none back, and
  `i2c_setup` takes the unit down before it asks for the pins.  So a conflict
  leaves the tables and the unit as they were exactly when every pin before the
  one in conflict was the unit's own already, and the unit was not set up.
-/

import LuaRtos.Drivers.Setup
import LuaRtos.Sys.DriverLock

namespace LuaRtos.Driver

open LuaRtos.CLib

/-! ## The locks up to a conflict -/

section Steps

variable {D : Type}

/-- The action asks for a unit that this driver and unit holds already. -/
def LockStep.Held (s : DriverState D) (owner : D) (ownerUnit : Int) : LockStep D → Prop
  | .lock target unit => s.locks target unit.toNat = ⟨some owner, ownerUnit⟩
  | .error _ _ => False
  | .fault _ => False

/-- The action asks for a unit that somebody else holds. -/
def LockStep.Conflicts (R : Registry D) (s : DriverState D) (owner : D) (ownerUnit : Int) :
    LockStep D → Prop
  | .lock target unit => (0 ≤ unit ∧ unit < (R.lock target).getD 0) ∧
      (s.locks target unit.toNat).RefusedTo owner ownerUnit
  | .error _ _ => False
  | .fault _ => False

/-- The call meets a conflict at `step`, after the actions `pre`. -/
def LockResources.ConflictsAfter (R : Registry D) (s : DriverState D) (r : LockResources D)
    (pre : List (LockStep D)) : Prop :=
  ∃ step post, r.steps = pre ++ step :: post ∧
    (∀ x ∈ pre, x.Succeeds R s r.owner r.unit) ∧ step.Conflicts R s r.owner r.unit

/-- A list meets a condition as a whole, or up to a first element that does not. -/
theorem forall_or_first {α : Type} (p : α → Prop) (l : List α) :
    (∀ x ∈ l, p x) ∨ ∃ pre x post, l = pre ++ x :: post ∧ (∀ y ∈ pre, p y) ∧ ¬ p x := by
  induction l with
  | nil => exact .inl nofun
  | cons a l ih =>
    by_cases ha : p a
    · obtain hall | ⟨pre, x, post, rfl, hpre, hx⟩ := ih
      · exact .inl (List.forall_mem_cons.mpr ⟨ha, hall⟩)
      · exact .inr ⟨a :: pre, x, post, rfl, List.forall_mem_cons.mpr ⟨ha, hpre⟩, hx⟩
    · exact .inr ⟨[], a, l, rfl, nofun, ha⟩

variable [DecidableEq D] {R : Registry D} {mem : Option (DriverError D)} {owner : D}
  {ownerUnit : Int} {s s' : DriverState D} {pre post : List (LockStep D)}

instance (R : Registry D) (s : DriverState D) (owner : D) (ownerUnit : Int) :
    (step : LockStep D) → Decidable (step.Conflicts R s owner ownerUnit)
  | .lock _ _ => inferInstanceAs (Decidable (_ ∧ _))
  | .error _ _ => .isFalse id
  | .fault _ => .isFalse id

/-- Taking what one holds changes nothing. -/
theorem DriverState.grant_of_held {target : D} {i : Nat}
    (h : s.locks target i = ⟨some owner, ownerUnit⟩) : s.grant owner ownerUnit target i = s := by
  have hlocks : (s.grant owner ownerUnit target i).locks = s.locks := by
    funext d j
    rw [grant_locks]
    split
    · next hdj => rw [hdj.1, hdj.2, h]
    · rfl
  rw [show s.grant owner ownerUnit target i =
    { s with locks := (s.grant owner ownerUnit target i).locks } from rfl, hlocks]

/-- The state after actions that all succeed: all units are taken, and what was
    held before is held as it was. -/
theorem lockSteps_granted (mem : Option (DriverError D))
    (h : ∀ x ∈ pre, x.Succeeds R s owner ownerUnit) :
    ∃ s₁, (∀ rest, lockSteps R mem owner ownerUnit s (pre ++ rest) =
        lockSteps R mem owner ownerUnit s₁ rest) ∧
      s.Keeps s₁ ∧ s₁.errors = s.errors ∧ (∀ x ∈ pre, x.Held s₁ owner ownerUnit) ∧
      ((∀ x ∈ pre, x.Held s owner ownerUnit) → s₁ = s) := by
  induction pre generalizing s with
  | nil => exact ⟨s, fun _ => rfl, .refl s, rfl, nofun, fun _ => rfl⟩
  | cons x pre ih =>
    obtain ⟨hx, hpre⟩ := List.forall_mem_cons.mp h
    cases x with
    | error e m => exact hx.elim
    | fault f => exact hx.elim
    | lock target unit =>
      obtain ⟨hrange, hgrant⟩ := hx
      obtain ⟨lockError, s₂, hlock⟩ := lockUnit_total s owner ownerUnit target hrange
      have hgo (rest : List (LockStep D)) (hnone : lockError = none) :
          lockSteps R mem owner ownerUnit s (.lock target unit :: pre ++ rest) =
            lockSteps R mem owner ownerUnit s₂ (pre ++ rest) := by
        rw [List.cons_append, lockSteps, hlock, ok_bind, hnone]
      -- the state after the first lock, and that the unit is then held
      have hfirst : lockError = none ∧ s.Keeps s₂ ∧ s₂.errors = s.errors ∧
          s₂.locks target unit.toNat = ⟨some owner, ownerUnit⟩ ∧
          (∀ x ∈ pre, x.Succeeds R s₂ owner ownerUnit) ∧
          (s.locks target unit.toNat = ⟨some owner, ownerUnit⟩ → s₂ = s) := by
        obtain ⟨-, ⟨hheld, hr, rfl⟩ | ⟨hfree, hr, rfl⟩ | ⟨href, -, -⟩⟩ := lockUnit_cases hlock
        · -- the unit was the caller's before: nothing is written
          exact ⟨hr, .refl _, rfl, hheld, hpre, fun _ => rfl⟩
        · refine ⟨hr, DriverState.keeps_grant hfree, rfl, ?_, fun x hx => (hpre x hx).grant,
            DriverState.grant_of_held⟩
          rw [DriverState.grant_locks, if_pos ⟨rfl, rfl⟩]
        · exact absurd hgrant href
      obtain ⟨hnone, hkeep, herrors, hheld, hsucc, hsame⟩ := hfirst
      obtain ⟨s₁, hrun, hkeep', herrors', hall, hsame'⟩ := ih hsucc
      refine ⟨s₁, fun rest => (hgo rest hnone).trans (hrun rest), hkeep.trans hkeep',
        herrors'.trans herrors, List.forall_mem_cons.mpr ⟨?_, hall⟩, fun hown => ?_⟩
      · show s₁.locks target unit.toNat = ⟨some owner, ownerUnit⟩
        rw [hkeep' _ _ (by simp [hheld]), hheld]
      · obtain ⟨hown₁, hownpre⟩ := List.forall_mem_cons.mp hown
        obtain rfl : s₂ = s := hsame hown₁
        exact hsame' hownpre

omit [DecidableEq D] in
/-- A unit that is refused is owned. -/
theorem UnitLock.RefusedTo.owner_ne_none {l : UnitLock D} (h : l.RefusedTo owner ownerUnit) :
    l.owner ≠ none := fun hnone => h (.inl hnone)

/-- A call that meets a conflict returns a driver error, whose lock error has been
    freed, and leaves the tables as they were exactly when it held all it had
    locked before. -/
theorem lockSteps_conflict (block : DriverError D) {r : LockResources D}
    (h : r.ConflictsAfter R s pre) :
    ∃ s' e, lockSteps R (some block) r.owner r.unit s r.steps = .ok (some s.errors.length, s') ∧
      s'.errors[s.errors.length]? = some (some e) ∧ e.type = .lock ∧
      (∃ p, e.lockError = some p ∧ s'.lockErrors[p]? = some none) ∧
      (s'.locks = s.locks ↔ ∀ x ∈ pre, x.Held s r.owner r.unit) := by
  obtain ⟨step, post, hsteps, hpre, hconflict⟩ := h
  cases step with
  | error e m => exact hconflict.elim
  | fault f => exact hconflict.elim
  | lock target unit =>
    obtain ⟨hrange, href⟩ := hconflict
    obtain ⟨s₁, hrun, hkeep, herrors, hall, hsame⟩ := lockSteps_granted (some block) hpre
    have hentry : s₁.locks target unit.toNat = s.locks target unit.toNat :=
      hkeep _ _ href.owner_ne_none
    obtain ⟨lockError, s₂, hlock⟩ := lockUnit_total s₁ r.owner r.unit target hrange
    rw [hsteps, hrun, lockSteps, hlock, ok_bind]
    -- the entry in conflict has an owner, so the actions before have kept it
    obtain ⟨-, ⟨hheld, -, -⟩ | ⟨hfree, -, -⟩ | ⟨-, rfl, rfl⟩⟩ := lockUnit_cases hlock
    · exact absurd (.inr (hentry ▸ hheld)) href
    · exact absurd (.inl (hentry ▸ hfree)) href
    · obtain ⟨p, s₂, herror⟩ := driverLockError_total (some block)
        (s := s₁.revoke r.owner r.unit target unit) ⟨_, Heap.getElem?_alloc_self⟩
      obtain ⟨hlocks₂, hfreed, ⟨hmem, -, -⟩ | ⟨_, hmem, rfl, herrors₂⟩⟩ :=
        driverLockError_cases herror
      · cases hmem
      have herrs : (s₁.revoke r.owner r.unit target unit).errors = s.errors := herrors
      rw [herrs] at herror herrors₂
      refine ⟨s₂, _, herror, by rw [herrors₂]; exact Heap.getElem?_alloc_self, rfl,
        ⟨_, rfl, by simp [hfreed, DriverState.revoke]⟩, ?_, ?_⟩
      · intro hlocks x hx
        have hheld : x.Held s₁ r.owner r.unit := hall x hx
        cases x with
        | lock t u =>
          show s.locks t u.toNat = _
          rw [← hlocks, hlocks₂]
          exact hheld
        | error e m => exact hheld
        | fault f => exact hheld
      · intro hown
        rw [hlocks₂, ← hsame hown]
        rfl

/-- Only a conflict makes a call return a lock error. -/
theorem conflictsAfter_of_lockError {r : LockResources D} {p : Nat} {e : DriverError D}
    (h : lockSteps R mem r.owner r.unit s r.steps = .ok (some p, s'))
    (he : s'.errors[p]? = some (some e)) (htype : e.type = .lock) :
    ∃ pre, r.ConflictsAfter R s pre := by
  obtain hall | ⟨pre, x, post, hsteps, hpre, hx⟩ :=
    forall_or_first (LockStep.Succeeds R s r.owner r.unit) r.steps
  · obtain ⟨s₁, hok⟩ := lockSteps_of_succeeds mem hall
    rw [hok] at h
    cases h
  · obtain ⟨s₁, hrun, hkeep, -, -, -⟩ := lockSteps_granted mem hpre
    rw [hsteps, hrun] at h
    cases x with
    | lock target unit =>
      obtain ⟨⟨lockError, s₂⟩, hlock, -⟩ := bind_eq_ok.mp h
      have hrange := (lockUnit_cases hlock).1
      exact ⟨pre, _, post, hsteps, hpre, hrange, fun hgrant => hx ⟨hrange, hgrant⟩⟩
    | error exception msg =>
      have hsetup : e.type = .setup := driverError_type (Except.ok.inj h) he
      simp [hsetup] at htype
    | fault f => cases h

/-- Where there is no memory for an error, none is returned. -/
theorem lockSteps_without_memory {steps : List (LockStep D)} {r : Option Nat}
    (h : lockSteps R none owner ownerUnit s steps = .ok (r, s')) : r = none := by
  induction steps generalizing s with
  | nil => exact (Prod.mk.inj (Except.ok.inj h)).1.symm
  | cons x rest ih =>
    cases x with
    | lock target unit =>
      obtain ⟨⟨lockError, s₁⟩, -, hrest⟩ := bind_eq_ok.mp h
      cases lockError with
      | none => exact ih hrest
      | some p =>
        obtain ⟨-, -, ⟨-, hr, -⟩ | ⟨block, hmem, -⟩⟩ := driverLockError_cases hrest
        · exact hr
        · cases hmem
    | error e m => exact (Prod.mk.inj (Except.ok.inj h)).1.symm
    | fault f => cases h

end Steps

/-! ## The four setups -/

/-- What the call locks, if its checks let it come so far. -/
def SetupCall.resources (b : Board) : SetupCall → Option (LockResources DriverId)
  | .i2c unit _ sda scl =>
    if (0 ≤ unit ∧ unit < 32) ∧ cpuI2cAll.testBit unit.toNat then
      some (i2cLockResources unit sda scl)
    else none
  | .spi unit master =>
    if (1 ≤ unit ∧ unit ≤ 3) ∧ master = 1 ∧ (b.spi unit).setup = false then
      some (spiLockResources unit)
    else none
  | .uart unit _ databits parity stopBits _ _ =>
    if (0 ≤ unit ∧ unit ≤ 2) ∧ (5 ≤ databits ∧ databits ≤ 8) ∧ parity ≤ 2 ∧ stopBits ≤ 2 then
      some (uartLockResources unit)
    else none
  | .stepper stepPin dirPin unit =>
    if stepPin ≤ 31 ∧ dirPin ≤ 31 then
      some (lockPins .stepper (stepperFreeUnit b unit) (some [stepPin, dirPin]))
    else none

/-- The call takes down its unit, which is set up, before it locks anything. -/
def SetupCall.Removes (b : Board) : SetupCall → Prop
  | .i2c unit _ _ _ => (b.i2c unit).setup = true
  | .spi _ _ | .uart .. | .stepper .. => False

/-- The board as it is when the call begins to lock. -/
def SetupCall.remove (b : Board) : SetupCall → Board
  | .i2c unit _ _ _ => b.removeI2c unit
  | .spi _ _ | .uart .. | .stepper .. => b

/-- The lock tables and the units are the same. -/
structure Board.Unchanged (b b' : Board) : Prop where
  locks : b'.drv.locks = b.drv.locks
  i2c : b'.i2c = b.i2c
  spi : b'.spi = b.spi
  uart : b'.uart = b.uart
  stepper : b'.stepper = b.stepper

/-- The call answers with a lock error. -/
def LockFailure (p : Nat) (b' : Board) : Prop :=
  ∃ e, b'.drv.errors[p]? = some (some e) ∧ e.type = .lock

section Setups

variable {sd1bit : Bool} {b b' : Board} {mem : Option (DriverError DriverId)} {p : Nat}

/-- The other driver errors are no lock failures. -/
theorem not_lockFailure_of_fail {type : ErrorType} {driver : DriverId} {exception : Int}
    {msg : Option String}
    (h : (some p, b') = b.fail (driverError type b.drv mem driver exception msg))
    (htype : type ≠ .lock) : ¬ LockFailure p b' := by
  rintro ⟨e, he, hlock⟩
  obtain ⟨hp, rfl⟩ := Prod.mk.inj h
  have herror : e.type = type := driverError_type (Prod.ext hp.symm rfl) he
  exact htype (herror.symm.trans hlock)

theorem Board.lock_eq_ok {r : LockResources DriverId} :
    b.lock sd1bit mem r = .ok (some p, b') ↔
      ∃ drv, lockSteps (drivers sd1bit) mem r.owner r.unit b.drv r.steps = .ok (some p, drv) ∧
        b' = { b with drv := drv } := by
  constructor
  · intro h
    obtain ⟨⟨error, drv⟩, hsteps, hret⟩ := bind_eq_ok.mp h
    obtain ⟨rfl, rfl⟩ := Prod.mk.inj (Except.ok.inj hret)
    exact ⟨drv, hsteps, rfl⟩
  · rintro ⟨drv, hsteps, rfl⟩
    simp [Board.lock, hsteps]

/-- A call returns the errors of its locks, where what follows has no such error. -/
theorem lock_then_eq_ok {x : Result (Option Nat × Board)}
    {f : Option Nat × Board → Result (Option Nat × Board)}
    (hsome : ∀ q b₁, f (some q, b₁) = .ok (some q, b₁))
    (hnone : ∀ b₁, f (none, b₁) ≠ .ok (some p, b')) :
    (x >>= f) = .ok (some p, b') ↔ x = .ok (some p, b') := by
  rw [bind_eq_ok]
  constructor
  · rintro ⟨⟨error, b₁⟩, hx, hrest⟩
    cases error with
    | none => exact absurd hrest (hnone b₁)
    | some q =>
      rw [hsome] at hrest
      rw [hx, ← hrest]
  · intro hx
    exact ⟨_, hx, hsome p b'⟩

/-- `i2c_setup` fails with a lock error exactly where its locks do. -/
theorem i2cSetup_lockFailure {unit mode sda scl : Int} (hf : LockFailure p b') :
    i2cSetup sd1bit b mem unit mode sda scl = .ok (some p, b') ↔
      ∃ r, SetupCall.resources b (.i2c unit mode sda scl) = some r ∧
        (b.removeI2c unit).lock sd1bit mem r = .ok (some p, b') := by
  unfold i2cSetup
  by_cases hrange : unit < 0 ∨ 32 ≤ unit
  · have hres : ¬ (0 ≤ unit ∧ unit < 32) := by omega
    simp [hrange, SetupCall.resources, hres]
  · have hres : 0 ≤ unit ∧ unit < 32 := by omega
    rw [if_neg hrange]
    cases hunit : cpuI2cAll.testBit unit.toNat with
    | false =>
      have hno : b.fail (driverOperationError b.drv mem .i2c i2cErrInvalidUnit none) ≠
          (some p, b') := fun h => not_lockFailure_of_fail h.symm nofun hf
      simp [SetupCall.resources, hunit, hno]
    | true =>
      rw [if_neg nofun]
      refine (lock_then_eq_ok ?_ ?_).trans ?_
      · exact fun _ _ => rfl
      · exact fun _ => nofun
      · simp [SetupCall.resources, hres, hunit]

/-- `spi_init` fails with a lock error exactly where its locks do. -/
theorem spiInit_lockFailure {unit master : Int} (hf : LockFailure p b') :
    spiInit sd1bit b mem unit master = .ok (some p, b') ↔
      ∃ r, SetupCall.resources b (.spi unit master) = some r ∧
        b.lock sd1bit mem r = .ok (some p, b') := by
  have hno {exception : Int} : b.fail (driverOperationError b.drv mem .spi exception none) ≠
      (some p, b') := fun h => not_lockFailure_of_fail h.symm nofun hf
  unfold spiInit
  by_cases hunit : unit > 3 ∨ unit < 1
  · have hres : ¬ (1 ≤ unit ∧ unit ≤ 3) := by omega
    simp [hunit, SetupCall.resources, hres, hno]
  · have hres : 1 ≤ unit ∧ unit ≤ 3 := by omega
    rw [if_neg hunit]
    by_cases hmaster : master = 1
    · cases hsetup : (b.spi unit).setup with
      | true => simp [SetupCall.resources, hmaster, hsetup]
      | false =>
        rw [if_neg (not_not.mpr hmaster), if_neg nofun]
        refine (lock_then_eq_ok ?_ ?_).trans ?_
        · exact fun _ _ => rfl
        · exact fun _ => nofun
        · simp [SetupCall.resources, hres, hmaster, hsetup]
    · simp [hmaster, SetupCall.resources, hno]

/-- `uart_init` fails with a lock error exactly where its locks do. -/
theorem uartInit_lockFailure {unit : Int} {brg databits parity stopBits qs : Nat} {queue : Bool}
    (hf : LockFailure p b') :
    uartInit sd1bit b mem unit brg databits parity stopBits qs queue = .ok (some p, b') ↔
      ∃ r, SetupCall.resources b (.uart unit brg databits parity stopBits qs queue) = some r ∧
        b.lock sd1bit mem r = .ok (some p, b') := by
  have hno {b₁ : Board} {msg : String} : uartError b₁ mem msg ≠ .ok (some p, b') :=
    fun h => not_lockFailure_of_fail (Except.ok.inj h).symm nofun hf
  unfold uartInit
  by_cases hchecks : (0 ≤ unit ∧ unit ≤ 2) ∧ (5 ≤ databits ∧ databits ≤ 8) ∧ parity ≤ 2 ∧
      stopBits ≤ 2
  · rw [if_neg (by omega), if_neg (by omega), if_neg (by omega), if_neg (by omega)]
    refine (lock_then_eq_ok ?_ ?_).trans ?_
    · exact fun _ _ => rfl
    · -- the one error that `uart_init` makes after its locks is of another type
      intro b₁ hrest
      by_cases hqueue : (b₁.uart unit).qs < qs ∧ queue = false
      · exact hno (by simpa only [if_pos hqueue] using hrest)
      · simp [hqueue] at hrest
    · simp [SetupCall.resources, hchecks]
  · simp only [SetupCall.resources, hchecks, if_false, reduceCtorEq, false_and, exists_false,
      iff_false]
    split_ifs
    all_goals first | exact hno | omega

/-- `gpio_pin_output` returns no lock error. -/
theorem gpioPinOutput_ne {pin : Nat} (hf : LockFailure p b') :
    gpioPinOutput b mem pin ≠ (some p, b') := by
  unfold gpioPinOutput
  split
  · nofun
  · exact fun h => not_lockFailure_of_fail h.symm nofun hf

/-- After its locks `stepper_setup` returns no lock error. -/
theorem stepperConfigure_ne {stepPin dirPin unit : Nat} (hf : LockFailure p b') :
    stepperConfigure b mem stepPin dirPin unit ≠ .ok (some p, b') := by
  intro h
  match hstep : gpioPinOutput b mem stepPin with
  | (some q, b₁) =>
    simp only [stepperConfigure, hstep, pure_eq_ok, Except.ok.injEq] at h
    exact gpioPinOutput_ne hf (hstep.trans h)
  | (none, b₁) =>
    match hdir : gpioPinOutput b₁ mem dirPin with
    | (some q, b₂) =>
      simp only [stepperConfigure, hstep, hdir, pure_eq_ok, Except.ok.injEq] at h
      exact gpioPinOutput_ne hf (hdir.trans h)
    | (none, b₂) =>
      simp only [stepperConfigure, hstep, hdir] at h
      split at h <;> cases h

/-- `stepper_setup` fails with a lock error exactly where its locks do. -/
theorem stepperSetup_lockFailure {stepPin dirPin unit : Nat} (hf : LockFailure p b') :
    stepperSetup sd1bit b mem stepPin dirPin unit = .ok (some p, b') ↔
      ∃ r, SetupCall.resources b (.stepper stepPin dirPin unit) = some r ∧
        b.lock sd1bit mem r = .ok (some p, b') := by
  have hno {msg : Option String} :
      b.fail (driverOperationError b.drv mem .stepper stepperErrInvalidPin msg) ≠ (some p, b') :=
    fun h => not_lockFailure_of_fail h.symm nofun hf
  unfold stepperSetup
  by_cases hpins : stepPin ≤ 31 ∧ dirPin ≤ 31
  · rw [if_neg (by omega), if_neg (by omega)]
    simp only [SetupCall.resources, hpins, and_self, if_true, Option.some.injEq, exists_eq_left',
      Board.lock, lockPins, List.map, lockSteps]
    -- the two locks are taken as `lock_resources` would take them
    show ((lockUnit _ _ _ _ (cpuLastGpio + 1) _) >>= _) = _ ↔
      (((lockUnit _ _ _ _ (cpuLastGpio + 1) _) >>= _) >>= _) = _
    cases hstep : lockUnit b.drv .stepper (stepperFreeUnit b unit) .gpio (cpuLastGpio + 1)
      stepPin with
    | error f => simp
    | ok locked =>
      obtain ⟨lockError, drv₁⟩ := locked
      cases lockError with
      | some q => simp
      | none =>
        simp only [ok_bind]
        show ((lockUnit _ _ _ _ (cpuLastGpio + 1) _) >>= _) = _ ↔
          (((lockUnit _ _ _ _ (cpuLastGpio + 1) _) >>= _) >>= _) = _
        cases hdir : lockUnit drv₁ .stepper (stepperFreeUnit b unit) .gpio (cpuLastGpio + 1)
          dirPin with
        | error f => simp
        | ok locked =>
          obtain ⟨lockError, drv⟩ := locked
          cases lockError with
          | some q => simp
          | none => simp [stepperConfigure_ne hf]
  · simp only [SetupCall.resources, hpins, if_false, reduceCtorEq, false_and, exists_false,
      iff_false]
    split_ifs
    · simpa using hno
    · simpa using hno
    · omega

/-- A setup fails with a lock error exactly where its locks do. -/
theorem SetupCall.run_lockFailure {call : SetupCall} (hf : LockFailure p b') :
    call.run sd1bit b mem = .ok (some p, b') ↔
      ∃ r, call.resources b = some r ∧ (call.remove b).lock sd1bit mem r = .ok (some p, b') := by
  cases call with
  | i2c => exact i2cSetup_lockFailure hf
  | spi => exact spiInit_lockFailure hf
  | uart => exact uartInit_lockFailure hf
  | stepper => exact stepperSetup_lockFailure hf

theorem SetupCall.remove_drv {call : SetupCall} : (call.remove b).drv = b.drv := by
  cases call with
  | i2c unit => simp only [SetupCall.remove, Board.removeI2c]; split <;> rfl
  | spi | uart | stepper => rfl

theorem SetupCall.remove_of_not_removes {call : SetupCall} (h : ¬ call.Removes b) :
    call.remove b = b := by
  cases call with
  | i2c unit => exact if_neg h
  | spi | uart | stepper => rfl

/-- A unit that is taken down is not as it was. -/
theorem SetupCall.not_removes_of_remove {call : SetupCall} (h : (call.remove b).i2c = b.i2c) :
    ¬ call.Removes b := by
  cases call with
  | i2c unit mode sda scl =>
    intro hsetup
    have hset : (b.i2c unit).setup = true := hsetup
    have hunit : (((SetupCall.i2c unit mode sda scl).remove b).i2c unit).setup = true := by
      rw [h, hset]
    simp [SetupCall.remove, Board.removeI2c, hset] at hunit
  | spi | uart | stepper => exact id

/-- A failure with a lock error leaves the tables and the units as they were. -/
def RollsBack (sd1bit : Bool) (b : Board) (mem : Option (DriverError DriverId))
    (call : SetupCall) : Prop :=
  ∀ p b', call.run sd1bit b mem = .ok (some p, b') → LockFailure p b' → b.Unchanged b'

/-- A setup rolls back exactly when, at a conflict it reports, it held all it
    had locked before, and had not taken its unit down. -/
theorem rollsBack_iff {call : SetupCall} :
    RollsBack sd1bit b mem call ↔ (mem.isSome → ∀ r pre, call.resources b = some r →
      r.ConflictsAfter (drivers sd1bit) b.drv pre →
        (∀ x ∈ pre, x.Held b.drv r.owner r.unit) ∧ ¬ call.Removes b) := by
  constructor
  · intro h hmem r pre hres hconflict
    obtain ⟨block, rfl⟩ := Option.isSome_iff_exists.mp hmem
    -- the conflict is reported, so the setup is one of those that must roll back
    obtain ⟨s', e, hsteps, he, htype, -, hlocks⟩ := lockSteps_conflict block hconflict
    have hf : LockFailure b.drv.errors.length { call.remove b with drv := s' } := ⟨e, he, htype⟩
    rw [← call.remove_drv] at hsteps
    have hlock := Board.lock_eq_ok.mpr ⟨s', hsteps, rfl⟩
    rw [call.remove_drv] at hlock
    have hsame := h _ _ ((SetupCall.run_lockFailure hf).mpr ⟨r, hres, hlock⟩) hf
    exact ⟨hlocks.mp hsame.locks, SetupCall.not_removes_of_remove hsame.i2c⟩
  · intro h p b' hrun hf
    obtain ⟨r, hres, hlock⟩ := (SetupCall.run_lockFailure hf).mp hrun
    obtain ⟨drv, hsteps, rfl⟩ := Board.lock_eq_ok.mp hlock
    rw [call.remove_drv] at hsteps
    obtain ⟨e, he, htype⟩ := hf
    obtain ⟨pre, hconflict⟩ := conflictsAfter_of_lockError hsteps he htype
    cases mem with
    | none =>
      -- without memory the conflict is not reported at all
      cases lockSteps_without_memory hsteps
    | some block =>
      obtain ⟨hheld, hremoves⟩ := h rfl r pre hres hconflict
      obtain ⟨s', -, hsteps', -, -, -, hlocks⟩ := lockSteps_conflict block hconflict
      obtain rfl : drv = s' := (Prod.mk.inj (Except.ok.inj (hsteps.symm.trans hsteps'))).2
      rw [SetupCall.remove_of_not_removes hremoves]
      exact ⟨hlocks.mpr hheld, rfl, rfl, rfl, rfl⟩

/-- A stepper holds pin 19.  `i2c_setup` on 18 and 19 fails, and keeps pin 18. -/
theorem not_rollsBack_i2c :
    ∃ b b' p, stepperSetup false .start none 19 4 0 = .ok (none, b) ∧
      i2cSetup false b (some ⟨.operation, none, 0, 0, none, none⟩) 0 1 18 19 =
        .ok (some p, b') ∧
      b'.drv.locks .gpio 18 = ⟨some .i2c, 0⟩ ∧ b.drv.locks .gpio 18 = ⟨none, 0⟩ ∧
      ¬ RollsBack false b (some ⟨.operation, none, 0, 0, none, none⟩) (.i2c 0 1 18 19) := by
  refine ⟨_, _, 0, rfl, rfl, rfl, rfl, fun h => ?_⟩
  have hsame := h 0 _ rfl ⟨_, rfl, rfl⟩
  exact absurd (congrFun (congrFun hsame.locks .gpio) 18) (by decide)

end Setups

end LuaRtos.Driver
