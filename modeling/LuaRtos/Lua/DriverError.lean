/-
  LuaRtos.Lua.DriverError

  `luaL_driver_error` of Lua/modules/error.c, where the driver errors end: the
  error is copied and freed, and a Lua error is raised with its text.

  `luaL_error` does not return, so nothing after it runs.
-/

import LuaRtos.Drivers.Rollback

namespace LuaRtos.Driver

open LuaRtos.CLib

variable {D : Type}

/-- `driver_get_err_msg`, on the messages of the driver. -/
def driverGetErrMsg (messages : D → List (Int × String)) (err : DriverError D) : Result String :=
  match err.driver with
  | none => throw .nullDeref
  | some d =>
    let msg := (messages d).find? fun m => m.1 = err.exception
    pure ((msg.map Prod.snd).getD "(null)")

/-- The text of an error of a setup or an operation. -/
def errorText (messages : D → List (Int × String)) (err : DriverError D) : Result String := do
  let text ← driverGetErrMsg messages err
  match err.msg with
  | some msg => pure (toString err.exception ++ ":" ++ text ++ " (" ++ msg ++ ")")
  | none => pure (toString err.exception ++ ":" ++ text)

/-- The text of a lock error, which is read through its pointers. -/
def lockText (R : Registry D) (s : DriverState D) (p : Nat) : Result String := do
  let e ← s.lockErrors.read p
  let lock := s.locks e.lock.1 e.lock.2
  match lock.owner with
  | none => throw .nullDeref
  | some owner =>
    pure (R.name e.ownerDriver ++ toString e.ownerUnit ++ ", " ++ R.name e.targetDriver ++
      toString e.targetUnit ++ " is used by " ++ R.name owner ++ toString lock.unit)

/-- `luaL_driver_error`: the message of the Lua error that it raises. -/
def luaLDriverError (R : Registry D) (messages : D → List (Int × String)) (s : DriverState D)
    (error : Nat) : Result (String × DriverState D) := do
  let err ← s.errors.read error
  let errors ← s.errors.free error
  let s := { s with errors := errors }
  match err.type with
  | .lock =>
    match err.lockError with
    | none => throw .nullDeref
    -- the `free(err.lock_error)` that follows the raise is not reached
    | some p => do
      let text ← lockText R s p
      pure (text, s)
  | .setup | .operation => do
    let text ← errorText messages err
    pure (text, s)

/-- A conflict is reported as it should be: a driver error is returned that
    carries a live lock error until the message is built, and then neither of
    the two is allocated any more. -/
def ConflictReported [DecidableEq D] (R : Registry D) (messages : D → List (Int × String))
    (mem : Option (DriverError D)) (s : DriverState D) (r : LockResources D) : Prop :=
  ∃ q s₁ e p text s₂, lockSteps R mem r.owner r.unit s r.steps = .ok (some q, s₁) ∧
    s₁.errors[q]? = some (some e) ∧ e.type = .lock ∧ e.lockError = some p ∧
    s₁.lockErrors.Live p ∧ luaLDriverError R messages s₁ q = .ok (text, s₂) ∧
    ¬ s₂.errors.Live q ∧ ¬ s₂.lockErrors.Live p

section Reports

variable {R : Registry D} {messages : D → List (Int × String)} {s : DriverState D} {q p : Nat}
  {e : DriverError D}

/-- A lock error that was freed is read all the same. -/
theorem luaLDriverError_useAfterFree (he : s.errors[q]? = some (some e)) (htype : e.type = .lock)
    (hp : e.lockError = some p) (hfreed : s.lockErrors[p]? = some none) :
    luaLDriverError R messages s q = .error .useAfterFree := by
  have hread : s.errors.read q = .ok e := Heap.read_eq_ok.mpr he
  have hfree : s.errors.free q = .ok (s.errors.set q none) := Heap.free_eq_ok.mpr ⟨⟨e, he⟩, rfl⟩
  have hlock : s.lockErrors.read p = .error .useAfterFree := Heap.read_of_freed hfreed
  simp only [luaLDriverError, hread, hfree, ok_bind, htype, hp, lockText, hlock, error_bind]

variable [DecidableEq D] {r : LockResources D} {pre : List (LockStep D)}
  {mem : Option (DriverError D)}

/-- The error of a conflict makes `luaL_driver_error` read a freed lock error. -/
theorem conflict_useAfterFree (messages : D → List (Int × String)) (block : DriverError D)
    (h : r.ConflictsAfter R s pre) :
    ∃ q s', lockSteps R (some block) r.owner r.unit s r.steps = .ok (some q, s') ∧
      luaLDriverError R messages s' q = .error .useAfterFree := by
  obtain ⟨s', e, hsteps, he, htype, ⟨p, hp, hfreed⟩, -⟩ := lockSteps_conflict block h
  exact ⟨_, s', hsteps, luaLDriverError_useAfterFree he htype hp hfreed⟩

/-- No conflict is reported as it should be, whichever driver meets it. -/
theorem not_conflictReported (h : r.ConflictsAfter R s pre) :
    ¬ ConflictReported R messages mem s r := by
  rintro ⟨q, s₁, e, p, text, s₂, hsteps, -, -, -, -, htext, -⟩
  cases mem with
  | none =>
    -- without memory no error is returned
    cases lockSteps_without_memory hsteps
  | some block =>
    obtain ⟨q', s', hsteps', hfault⟩ := conflict_useAfterFree messages block h
    obtain ⟨hq, rfl⟩ := Prod.mk.inj (Except.ok.inj (hsteps.symm.trans hsteps'))
    obtain rfl := Option.some.inj hq
    rw [hfault] at htext
    cases htext

/-- The conflict of uart0 with a stepper that holds its rx pin. -/
theorem not_conflictReported_uart :
    ∃ s, runRequests (drivers false) .start [⟨none, .stepper, 0, .gpio, 3⟩] = .ok s ∧
      ¬ ConflictReported (drivers false) (fun _ => []) (some ⟨.setup, none, 0, 0, none, none⟩) s
        (uartLockResources 0) := by
  refine ⟨_, rfl, not_conflictReported (show LockResources.ConflictsAfter _ _ _ [] from ?_)⟩
  exact ⟨.lock .gpio 3, [.lock .gpio 1], rfl, nofun, by decide⟩

/-- There `luaL_driver_error` is given a lock error that was freed, and reads it. -/
theorem uart_conflict_useAfterFree :
    ∃ s s₁ e, runRequests (drivers false) .start [⟨none, .stepper, 0, .gpio, 3⟩] = .ok s ∧
      lockSteps (drivers false) (some ⟨.setup, none, 0, 0, none, none⟩) .uart 0 s
        (uartLockResources 0).steps = .ok (some 0, s₁) ∧
      s₁.errors[0]? = some (some e) ∧ e.type = .lock ∧ e.lockError = some 0 ∧
      s₁.lockErrors[0]? = some none ∧
      luaLDriverError (drivers false) (fun _ => []) s₁ 0 = .error .useAfterFree ∧
      ¬ ConflictReported (drivers false) (fun _ => []) (some ⟨.setup, none, 0, 0, none, none⟩) s
        (uartLockResources 0) := by
  refine ⟨_, _, _, rfl, rfl, rfl, rfl, rfl, rfl, rfl, ?_⟩
  rintro ⟨q, s₁, e, p, text, s₂, hsteps, he, -, hp, ⟨a, ha⟩, -⟩
  obtain ⟨hq, rfl⟩ := Prod.mk.inj (Except.ok.inj hsteps)
  obtain rfl := Option.some.inj hq
  obtain rfl := Option.some.inj (Option.some.inj he)
  obtain rfl := Option.some.inj hp
  cases ha

end Reports

end LuaRtos.Driver
