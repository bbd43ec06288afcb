/-
  LuaRtos.Sys.Driver

  The arbiter of sys/driver.c: the lock tables of the drivers and `driver_lock`.

  A driver has a lock table, or a `lock_resources` function, or neither.  What a
  `lock_resources` function does is the data `LockResources`: the units it locks
  one after the other for one owner, with the places where it gives up.  Every
  one of the repository locks units of a driver with a table, which `Registry`
  has as a field.

  Lock errors and driver errors are heap blocks.  `malloc` hands out a block
  with some earlier contents, and the fields that the code does not set keep
  them.  A failed `malloc` of a lock error panics; the runs here are those in
  which it does not fail.  `driver_mtx` makes the access to a table one step.
-/

import LuaRtos.CLib.Heap
import Mathlib.Logic.Function.Basic

namespace LuaRtos.Driver

open LuaRtos.CLib

/-- `driver_unit_lock_t`: who owns the lock, nobody where `owner` is NULL. -/
structure UnitLock (D : Type) where
  owner : Option D
  unit : Int
deriving DecidableEq, Repr

/-- `driver_unit_lock_error_t`. -/
structure LockError (D : Type) where
  /-- The entry of a lock table, by its driver and index. -/
  lock : D × Nat
  ownerDriver : D
  ownerUnit : Int
  targetDriver : D
  targetUnit : Int
deriving DecidableEq, Repr

/-- `driver_error_type`. -/
inductive ErrorType where
  | lock
  | setup
  | operation
deriving DecidableEq, Repr

/-- `driver_error_t`; a pointer is none where it is NULL. -/
structure DriverError (D : Type) where
  type : ErrorType
  driver : Option D
  unit : Int
  exception : Int
  msg : Option String
  lockError : Option Nat
deriving DecidableEq, Repr

/-- One action of a `lock_resources` function. -/
inductive LockStep (D : Type) where
  /-- `driver_lock` on a unit of a driver; `driver_lock_error` if it is refused. -/
  | lock (target : D) (unit : Int)
  /-- `return driver_setup_error(...)`. -/
  | error (exception : Int) (msg : String)
  /-- The action leaves defined behaviour. -/
  | fault (f : Fault)
deriving DecidableEq, Repr

/-- A call of a `lock_resources` function: for whom it locks, and its actions. -/
structure LockResources (D : Type) where
  owner : D
  unit : Int
  steps : List (LockStep D)
deriving DecidableEq, Repr

/-- What the table `drivers[]` says of each driver. -/
structure Registry (D : Type) where
  name : D → String
  /-- The number of entries of the lock table; none where `lock` is NULL. -/
  lock : D → Option Nat
  /-- `lock_resources`, called with NULL for the resources. -/
  lockResources : D → Option (Int → LockResources D)
  resources_locked : ∀ {d f unit t tu}, lockResources d = some f →
    LockStep.lock t tu ∈ (f unit).steps → (lock t).isSome

/-- The lock tables, and the blocks of the errors. -/
structure DriverState (D : Type) where
  locks : D → Nat → UnitLock D
  lockErrors : Heap (LockError D)
  errors : Heap (DriverError D)

/-- The tables at the start of the program: nobody owns a lock. -/
def DriverState.start {D : Type} : DriverState D := ⟨fun _ _ => ⟨none, 0⟩, [], []⟩

section Errors

variable {D : Type}

/-- The heap once the lock error for a unit of `target` is made. -/
def DriverState.revoke (s : DriverState D) (owner : D) (ownerUnit : Int) (target : D)
    (unit : Int) : DriverState D :=
  let error : LockError D := ⟨(target, unit.toNat), owner, ownerUnit, target, unit⟩
  { s with lockErrors := s.lockErrors.alloc error }

/-- `driver_lock_error`; `mem` is the block that `malloc` finds, with its contents. -/
def driverLockError (s : DriverState D) (mem : Option (DriverError D)) (lockError : Nat) :
    Result (Option Nat × DriverState D) := do
  let (error, errors) :=
    match mem with
    | some block =>
      (some s.errors.length, s.errors.alloc { block with type := .lock, lockError := lockError })
    | none => (none, s.errors)
  -- the lock error goes, whether or not a driver error points to it
  let lockErrors ← s.lockErrors.free lockError
  pure (error, { s with lockErrors := lockErrors, errors := errors })

/-- A driver error of a type that says what went wrong by itself. -/
def driverError (type : ErrorType) (s : DriverState D) (mem : Option (DriverError D)) (driver : D)
    (exception : Int) (msg : Option String) : Option Nat × DriverState D :=
  match mem with
  | some block =>
    let error : DriverError D :=
      { block with type := type, driver := driver, exception := exception, msg := msg }
    (some s.errors.length, { s with errors := s.errors.alloc error })
  | none => (none, s)

/-- `driver_setup_error`. -/
def driverSetupError (s : DriverState D) (mem : Option (DriverError D)) (driver : D)
    (exception : Int) (msg : Option String) : Option Nat × DriverState D :=
  driverError .setup s mem driver exception msg

/-- `driver_operation_error`. -/
def driverOperationError (s : DriverState D) (mem : Option (DriverError D)) (driver : D)
    (exception : Int) (msg : Option String) : Option Nat × DriverState D :=
  driverError .operation s mem driver exception msg

end Errors

section Calls

variable {D : Type} [DecidableEq D]

/-- The tables once the entry `i` of `target` is taken. -/
def DriverState.grant (s : DriverState D) (owner : D) (ownerUnit : Int) (target : D) (i : Nat) :
    DriverState D :=
  { s with
    locks := Function.update s.locks target
      (Function.update (s.locks target) i ⟨some owner, ownerUnit⟩) }

/-- `driver_lock` on a driver with a lock table of `n` entries. -/
def lockUnit (s : DriverState D) (owner : D) (ownerUnit : Int) (target : D) (n : Nat)
    (unit : Int) : Result (Option Nat × DriverState D) :=
  if 0 ≤ unit ∧ unit < n then
    let lock := s.locks target unit.toNat
    match lock.owner with
    | some o =>
      -- Target unit is locked by owner_driver, then grant access
      if o = owner ∧ lock.unit = ownerUnit then pure (none, s)
      else pure (some s.lockErrors.length, s.revoke owner ownerUnit target unit)
    | none => pure (none, s.grant owner ownerUnit target unit.toNat)
  else throw .outOfBounds

/-- The rest of a `lock_resources` function, from one of its actions on. -/
def lockSteps (R : Registry D) (mem : Option (DriverError D)) (owner : D) (ownerUnit : Int) :
    DriverState D → List (LockStep D) → Result (Option Nat × DriverState D)
  | s, [] => pure (none, s)
  | s, .lock target unit :: rest => do
    let (lockError, s) ← lockUnit s owner ownerUnit target ((R.lock target).getD 0) unit
    match lockError with
    -- Revoked lock on pin
    | some p => driverLockError s mem p
    | none => lockSteps R mem owner ownerUnit s rest
  | s, .error exception msg :: _ => pure (driverSetupError s mem owner exception msg)
  | _, .fault f :: _ => throw f

/-- `driver_lock`. -/
def driverLock (R : Registry D) (s : DriverState D) (mem : Option (DriverError D)) (owner : D)
    (ownerUnit : Int) (target : D) (unit : Int) : Result (Option Nat × DriverState D) :=
  match R.lock target with
  | some n => lockUnit s owner ownerUnit target n unit
  | none =>
    match R.lockResources target with
    | none => pure (none, s)
    | some resources => do
      let r := resources unit
      let (error, s) ← lockSteps R mem r.owner r.unit s r.steps
      match error with
      | some p => do
        let error ← s.errors.read p
        pure (error.lockError, s)
      | none => pure (none, s)

end Calls

/-! ## Who may lock what -/

section Grants

variable {D : Type}

/-- The entry is free, or held by this driver and unit. -/
def UnitLock.GrantsTo (l : UnitLock D) (owner : D) (ownerUnit : Int) : Prop :=
  l.owner = none ∨ l = ⟨some owner, ownerUnit⟩

/-- The entry is held by another driver or unit. -/
def UnitLock.RefusedTo (l : UnitLock D) (owner : D) (ownerUnit : Int) : Prop :=
  ¬ l.GrantsTo owner ownerUnit

/-- The action finds its unit free or its own. -/
def LockStep.Succeeds (R : Registry D) (s : DriverState D) (owner : D) (ownerUnit : Int) :
    LockStep D → Prop
  | .lock target unit => (0 ≤ unit ∧ unit < (R.lock target).getD 0) ∧
      (s.locks target unit.toNat).GrantsTo owner ownerUnit
  | .error _ _ => False
  | .fault _ => False

/-- Some action of the call fails, for whatever reason. -/
def LockResources.Fails (R : Registry D) (s : DriverState D) (r : LockResources D) : Prop :=
  ∃ step ∈ r.steps, ¬ step.Succeeds R s r.owner r.unit

variable [DecidableEq D]

instance (l : UnitLock D) (owner : D) (ownerUnit : Int) :
    Decidable (l.GrantsTo owner ownerUnit) :=
  inferInstanceAs (Decidable (_ ∨ _))

instance (l : UnitLock D) (owner : D) (ownerUnit : Int) :
    Decidable (l.RefusedTo owner ownerUnit) :=
  inferInstanceAs (Decidable (¬ _))

instance (R : Registry D) (s : DriverState D) (owner : D) (ownerUnit : Int) :
    (step : LockStep D) → Decidable (step.Succeeds R s owner ownerUnit)
  | .lock _ _ => inferInstanceAs (Decidable (_ ∧ _))
  | .error _ _ => .isFalse id
  | .fault _ => .isFalse id

instance (R : Registry D) (s : DriverState D) (r : LockResources D) : Decidable (r.Fails R s) :=
  inferInstanceAs (Decidable (∃ _ ∈ _, _))

end Grants

end LuaRtos.Driver
