/-
  LuaRtos.Rtos.Semaphore

  The mutex semaphores of the kernel, as far as its interface documents them.

  A take succeeds only while the semaphore is available, and a give makes it
  available, whichever task gives.  A recursive semaphore knows the task that
  holds it: that task may take it again, and no other task can give it.
-/

namespace LuaRtos.Rtos

/-- A mutex semaphore.  The holder and its count are those of the recursive
    calls; the plain ones do not look at them. -/
structure Semaphore (Tid : Type) where
  available : Bool
  holder : Option Tid
  callCount : Nat
deriving DecidableEq, Repr

section Semaphore

variable {Tid : Type}

/-- `xSemaphoreCreateMutex` and `xSemaphoreCreateRecursiveMutex`. -/
def xSemaphoreCreate : Semaphore Tid := ⟨true, none, 0⟩

/-- `xSemaphoreTake`: no result while the semaphore cannot be taken. -/
def xSemaphoreTake (s : Semaphore Tid) : Option (Semaphore Tid) :=
  if s.available then some { s with available := false } else none

/-- `xSemaphoreGive`. -/
def xSemaphoreGive (s : Semaphore Tid) : Semaphore Tid := { s with available := true }

variable [DecidableEq Tid]

/-- `xSemaphoreTakeRecursive` by the task `me`. -/
def xSemaphoreTakeRecursive (me : Tid) (s : Semaphore Tid) : Option (Semaphore Tid) :=
  if s.holder = some me then some { s with callCount := s.callCount + 1 }
  else if s.available then some ⟨false, some me, 1⟩
  else none

/-- `xSemaphoreGiveRecursive` by the task `me`: no result where it answers
    pdFALSE, because `me` is not the holder. -/
def xSemaphoreGiveRecursive (me : Tid) (s : Semaphore Tid) : Option (Semaphore Tid) :=
  if s.holder = some me then
    -- the last give makes the semaphore available again
    if s.callCount ≤ 1 then some xSemaphoreCreate
    else some { s with callCount := s.callCount - 1 }
  else none

omit [DecidableEq Tid] in
theorem xSemaphoreTake_eq_some {s s' : Semaphore Tid} :
    xSemaphoreTake s = some s' ↔ s.available = true ∧ s' = { s with available := false } := by
  by_cases h : s.available = true
  · simp [xSemaphoreTake, h, eq_comm]
  · simp [xSemaphoreTake, h]

end Semaphore

end LuaRtos.Rtos
