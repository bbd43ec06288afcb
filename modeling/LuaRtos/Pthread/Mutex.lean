/-
  LuaRtos.Pthread.Mutex

  The mutexes of pthread/mutex.c.

  A handle is the index of an entry of `mutex_list`; the entry holds the
  address of a `struct pthread_mutex`, and that block the handle of a
  semaphore.  The four live and die apart: the list is that of sys/list.c, the
  blocks and the semaphores are heaps of their own.  A call through a freed
  block or a deleted semaphore is a `Fault.useAfterFree`.

  The field `owner` is written by `pthread_mutex_init` and read nowhere, and is
  left out.
-/

import LuaRtos.CLib.Heap
import LuaRtos.Rtos.Semaphore
import LuaRtos.Sys.ListMap

namespace LuaRtos.Mutex

open LuaRtos.CLib LuaRtos.Rtos LuaRtos.Sys

/-- PTHREAD_MUTEX_NORMAL. -/
def pthreadMutexNormal : Int := 1
/-- PTHREAD_MUTEX_RECURSIVE. -/
def pthreadMutexRecursive : Int := 3
/-- PTHREAD_MUTEX_DEFAULT. -/
def pthreadMutexDefault : Int := 4

/-- `struct pthread_mutex`. -/
structure PthreadMutex where
  sem : Nat
  type : Int
deriving DecidableEq, Repr

/-- What the calls of mutex.c share. -/
structure MutexWorld (Tid : Type) where
  /-- `mutex_list`: the addresses of the mutexes. -/
  list : CList Nat
  mutexes : Heap PthreadMutex
  sems : Heap (Semaphore Tid)

/-- What `pthread_mutex_init` gets from the system: whether there is memory for
    the mutex and for the semaphore, and the memory `list_add` gets. -/
structure InitMem where
  mutex : Bool
  sem : Bool
  list : Option (Nat → ListIndex Nat)

section Calls

variable {Tid : Type} [DecidableEq Tid]

/-- The take of `pthread_mutex_lock` and `pthread_mutex_trylock`, by `type`. -/
def mutexTake (type : Int) (me : Tid) (sem : Semaphore Tid) : Option (Semaphore Tid) :=
  if type = pthreadMutexRecursive then xSemaphoreTakeRecursive me sem
  else xSemaphoreTake sem

/-- The give of `pthread_mutex_unlock` and `pthread_mutex_destroy`, by `type`.
    What the recursive give answers is not looked at. -/
def mutexGive (type : Int) (me : Tid) (sem : Semaphore Tid) : Semaphore Tid :=
  if type = pthreadMutexRecursive then (xSemaphoreGiveRecursive me sem).getD sem
  else xSemaphoreGive sem

/-- `_check_attr`. -/
def checkAttr (type : Int) : Errno :=
  if type < pthreadMutexNormal ∨ type > pthreadMutexDefault then .einval else .success

/-- What `pthread_mutex_init` gives back: its return value and `*mut`. -/
structure InitResult (Tid : Type) where
  ret : Errno
  mutVal : Int
  world : MutexWorld Tid

/-- `pthread_mutex_init` on a variable that holds `mutVal`. -/
def pthreadMutexInit (w : MutexWorld Tid) (mutVal : Int) (attr : Option Int) (mem : InitMem) :
    Result (InitResult Tid) :=
  match attr with
  | none => pure ⟨.einval, mutVal, w⟩
  | some type =>
    if checkAttr type ≠ .success then pure ⟨checkAttr type, mutVal, w⟩
    else do
      -- Test if it's init yet
      let (res, _) ← listGet w.list mutVal
      if res = .success then pure ⟨.ebusy, mutVal, w⟩
      else if mem.mutex = false then pure ⟨.einval, mutVal, w⟩
      else
        let addr := w.mutexes.length
        let sem := w.sems.length
        let w := { w with mutexes := w.mutexes.alloc ⟨sem, type⟩ }
        -- without a semaphore the mutex that was just allocated is lost
        if mem.sem = false then pure ⟨.enomem, 0, w⟩
        else do
          let w := { w with sems := w.sems.alloc xSemaphoreCreate }
          let r ← listAdd w.list addr mem.list
          match r.ret, r.itemIndex with
          | .success, some k => pure ⟨.success, k, { w with list := r.list }⟩
          | res, _ => do
            -- `free(mutex->sem)`, then `vSemaphoreDelete(mutex->sem)`
            let sems ← w.sems.free sem
            let sems ← sems.free sem
            pure ⟨res, mutVal, { w with list := r.list, sems := sems }⟩

/-- `list_get` on the handle, and the mutex and its semaphore behind it; only
    the return value where `list_get` fails. -/
def getMutex (w : MutexWorld Tid) (mutVal : Int) :
    Result (Errno ⊕ PthreadMutex × Semaphore Tid) := do
  let r ← listGet w.list mutVal
  match r with
  | (.success, some p) => do
    let mutex ← w.mutexes.read p
    let sem ← w.sems.read mutex.sem
    pure (.inr (mutex, sem))
  | (res, _) => pure (.inl res)

/-- The world with a semaphore replaced. -/
def setSem (w : MutexWorld Tid) (h : Nat) (sem : Semaphore Tid) : Result (MutexWorld Tid) := do
  let sems ← w.sems.write h sem
  pure { w with sems := sems }

/-- `pthread_mutex_lock` by the thread `me`: no result while the caller is
    blocked, since PTHREAD_MTX_LOCK_TIMEOUT is `portMAX_DELAY`. -/
def pthreadMutexLock (w : MutexWorld Tid) (me : Tid) (mutVal : Int) :
    Result (Option (Errno × MutexWorld Tid)) := do
  let r ← getMutex w mutVal
  match r with
  | .inl res => pure (some (res, w))
  | .inr (mutex, sem) =>
    match mutexTake mutex.type me sem with
    | none => pure none
    | some sem' => do
      let w' ← setSem w mutex.sem sem'
      pure (some (.success, w'))

/-- `pthread_mutex_unlock`. -/
def pthreadMutexUnlock (w : MutexWorld Tid) (me : Tid) (mutVal : Int) :
    Result (Errno × MutexWorld Tid) := do
  let r ← getMutex w mutVal
  match r with
  | .inl res => pure (res, w)
  | .inr (mutex, sem) => do
    let w' ← setSem w mutex.sem (mutexGive mutex.type me sem)
    pure (.success, w')

/-- `pthread_mutex_trylock`. -/
def pthreadMutexTrylock (w : MutexWorld Tid) (me : Tid) (mutVal : Int) :
    Result (Errno × MutexWorld Tid) := do
  let r ← getMutex w mutVal
  match r with
  | .inl res => pure (res, w)
  | .inr (mutex, sem) =>
    match mutexTake mutex.type me sem with
    | none => pure (.ebusy, w)
    | some sem' => do
      let w' ← setSem w mutex.sem sem'
      pure (.success, w')

/-- `pthread_mutex_destroy`: the entry of `mutex_list` and the block of the
    mutex stay. -/
def pthreadMutexDestroy (w : MutexWorld Tid) (me : Tid) (mutVal : Int) :
    Result (Errno × MutexWorld Tid) := do
  let r ← getMutex w mutVal
  match r with
  | .inl res => pure (res, w)
  | .inr (mutex, sem) => do
    let w' ← setSem w mutex.sem (mutexGive mutex.type me sem)
    -- vSemaphoreDelete
    let sems ← w'.sems.free mutex.sem
    pure (.success, { w' with sems := sems })

end Calls

end LuaRtos.Mutex
