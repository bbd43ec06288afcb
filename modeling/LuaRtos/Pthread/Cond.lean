/-
  LuaRtos.Pthread.Cond

  The condition variable of pthread/cond.c, for a build without
  MTX_USE_EVENTS, as a step function of the threads that use it.  Every test,
  every change of `cond->referenced` and every operation on a semaphore is a
  step of its own.

  The internal mutex of a condition is a binary semaphore that any thread may
  give.  `pthread_cond_init` and `pthread_cond_destroy` run under `cond_mtx`;
  the other calls do not take it.  The user's mutex is the one that the threads
  pass to the waits; only its holder gives it back.

  A step that a thread cannot take, because it is blocked or because the
  semaphore is gone, is `none`.
-/

import Mathlib.Logic.Function.Basic
import LuaRtos.CLib.Basic
import LuaRtos.Lts.Run

namespace LuaRtos.Pthread

open LuaRtos.CLib

/-- Where a thread is inside one of the calls. -/
inductive CondPc where
  | idle
  /-- `pthread_cond_wait`: before `cond->referenced++`. -/
  | wInc
  /-- Before the first `mtx_lock`. -/
  | wLock
  /-- Before `if (cond->referenced == 1)`. -/
  | wTest
  /-- Before the second `mtx_lock`. -/
  | wLock2
  /-- Before `pthread_mutex_unlock`. -/
  | wUnlock
  /-- `pthread_cond_timedwait`, with its time in ticks: before
      `cond->referenced++`. -/
  | tInc (ticks : Nat)
  /-- Before `if (cond->referenced == 1)`. -/
  | tTest (ticks : Nat)
  /-- Before `mtx_lock`. -/
  | tLock (ticks : Nat)
  /-- Before `xSemaphoreTake`. -/
  | tTake (ticks : Nat)
  /-- Before `pthread_mutex_unlock`. -/
  | tUnlock
  /-- A wait has returned. -/
  | returned (e : Errno)
  /-- `pthread_cond_signal`: before `cond->referenced--`. -/
  | sDec
  /-- Before `mtx_unlock`. -/
  | sGive
  /-- `pthread_cond_init`, with whether there is memory for a semaphore: before
      `if (cond->referenced > 0)`. -/
  | iTest (mem : Bool)
  /-- Before `if (!cond->mutex.sem)` and the creation of the semaphore. -/
  | iSem (mem : Bool)
  /-- In `mtx_init`: before the first give. -/
  | iGive
  /-- Before `cond->referenced = 0`. -/
  | iZero
  /-- `pthread_cond_destroy`: before `if (cond->referenced > 0)`. -/
  | dTest
  /-- Before `if (cond->mutex.sem)` and the give in `mtx_destroy`. -/
  | dSem
  /-- Before the semaphore is deleted. -/
  | dDelete
  /-- `pthread_cond_init` or `pthread_cond_destroy` has returned. -/
  | answered (e : Errno)
deriving DecidableEq, Repr

/-- The condition, the user's mutex, `cond_mtx`, and where the threads are. -/
structure CondState (Tid : Type) where
  /-- `cond->mutex.sem`: NULL, or whether the semaphore can be taken. -/
  sem : Option Bool
  /-- `cond->referenced`. -/
  referenced : Int
  /-- Whether the user's mutex is of type PTHREAD_MUTEX_RECURSIVE. -/
  recursive : Bool
  /-- The holder of the user's mutex. -/
  owner : Option Tid
  /-- How often the holder has locked it. -/
  depth : Nat
  /-- The holder of `cond_mtx`. -/
  condMtx : Option Tid
  pc : Tid → CondPc

/-- A step of a thread: a call, the next step inside a call, or the end of the
    time of `xSemaphoreTake`; a thread that got an answer leaves the call. -/
inductive CondAct (Tid : Type) where
  | lock (t : Tid)
  | unlock (t : Tid)
  | wait (t : Tid)
  | timedwait (t : Tid) (ticks : Nat)
  | signal (t : Tid)
  | init (t : Tid) (attr mem : Bool)
  | destroy (t : Tid)
  | run (t : Tid)
  | timeout (t : Tid)
  | leave (t : Tid)
deriving DecidableEq, Repr

section Steps

variable {Tid : Type} [DecidableEq Tid]

/-- Thread `t` goes on to `p`. -/
def CondState.go (s : CondState Tid) (t : Tid) (p : CondPc) : CondState Tid :=
  { s with pc := Function.update s.pc t p }

/-- `pthread_mutex_lock` on the user's mutex. -/
def pthreadMutexLock (s : CondState Tid) (t : Tid) : Option (CondState Tid) :=
  match s.owner with
  | none => some { s with owner := some t, depth := 1 }
  | some u => if s.recursive ∧ u = t then some { s with depth := s.depth + 1 } else none

/-- `pthread_mutex_unlock` on the user's mutex. -/
def pthreadMutexUnlock (s : CondState Tid) (t : Tid) : CondState Tid :=
  if s.owner = some t then
    if s.depth ≤ 1 then { s with owner := none, depth := 0 } else { s with depth := s.depth - 1 }
  else s

/-- `mtx_lock(&cond->mutex)`, then on to `p`. -/
def mtxLock (s : CondState Tid) (t : Tid) (p : CondPc) : Option (CondState Tid) :=
  match s.sem with
  | some true => some ({ s with sem := some false }.go t p)
  | _ => none

/-- `mtx_unlock(&cond->mutex)`, then on to `p`: a second give is lost. -/
def mtxUnlock (s : CondState Tid) (t : Tid) (p : CondPc) : Option (CondState Tid) :=
  match s.sem with
  | some _ => some ({ s with sem := some true }.go t p)
  | none => none

/-- `mtx_unlock(&cond_mtx)` and the return of `e`. -/
def CondState.answer (s : CondState Tid) (t : Tid) (e : Errno) : CondState Tid :=
  { s with condMtx := none }.go t (.answered e)

/-- The next step of a thread inside a call. -/
def condRun (s : CondState Tid) (t : Tid) : Option (CondState Tid) :=
  match s.pc t with
  | .wInc => some ({ s with referenced := s.referenced + 1 }.go t .wLock)
  | .wLock => mtxLock s t .wTest
  -- If current thread is the first that calls to pthread_cond_wait, lock again
  | .wTest => some (if s.referenced = 1 then s.go t .wLock2 else s.go t .wUnlock)
  | .wLock2 => mtxLock s t .wUnlock
  | .wUnlock => some ((pthreadMutexUnlock s t).go t (.returned .success))
  | .tInc ticks => some ({ s with referenced := s.referenced + 1 }.go t (.tTest ticks))
  | .tTest ticks => some (if s.referenced = 1 then s.go t (.tLock ticks) else s.go t (.tTake ticks))
  | .tLock ticks => mtxLock s t (.tTake ticks)
  | .tTake _ => mtxLock s t .tUnlock
  | .tUnlock => some ((pthreadMutexUnlock s t).go t (.returned .success))
  | .sDec => some ({ s with referenced := s.referenced - 1 }.go t .sGive)
  | .sGive => mtxUnlock s t .idle
  | .iTest mem => some (if s.referenced > 0 then s.answer t .ebusy else s.go t (.iSem mem))
  | .iSem mem =>
    match s.sem with
    | none => some (if mem then { s with sem := some false }.go t .iGive else s.answer t .enomem)
    | some _ => some (s.answer t .ebusy)
  | .iGive => mtxUnlock s t .iZero
  | .iZero => some ({ s with referenced := 0 }.answer t .success)
  | .dTest => some (if s.referenced > 0 then s.answer t .ebusy else s.go t .dSem)
  | .dSem =>
    match s.sem with
    | some _ => some ({ s with sem := some true }.go t .dDelete)
    | none => some (s.answer t .einval)
  | .dDelete => some ({ s with sem := none }.answer t .success)
  | .idle | .returned _ | .answered _ => none

/-- A call of `t`, which is outside of the calls. -/
def condCall (s : CondState Tid) (t : Tid) (r : Option (CondState Tid)) : Option (CondState Tid) :=
  if s.pc t = .idle then r else none

/-- One step. -/
def condStep (s : CondState Tid) : CondAct Tid → Option (CondState Tid)
  | .lock t => condCall s t (pthreadMutexLock s t)
  | .unlock t => condCall s t (if s.owner = some t then some (pthreadMutexUnlock s t) else none)
  | .wait t =>
    condCall s t (some (if s.sem = none then s.go t (.returned .einval) else s.go t .wInc))
  | .timedwait t ticks =>
    condCall s t (some (if s.sem = none then s.go t (.returned .einval) else s.go t (.tInc ticks)))
  | .signal t => condCall s t (some (if s.sem = none then s else s.go t .sDec))
  | .init t attr mem => condCall s t <|
    if attr then some (s.go t (.answered .einval))
    else if s.condMtx = none then some ({ s with condMtx := some t }.go t (.iTest mem)) else none
  | .destroy t => condCall s t <|
    if s.condMtx = none then some ({ s with condMtx := some t }.go t .dTest) else none
  | .run t => condRun s t
  | .timeout t =>
    match s.pc t, s.sem with
    | .tTake _, some false => some (s.go t (.returned .etimedout))
    | _, _ => none
  | .leave t =>
    match s.pc t with
    | .returned _ | .answered _ => some (s.go t .idle)
    | _ => none

/-- A condition that was not initialized, as PTHREAD_COND_INITIALIZER leaves it. -/
def condBlank (recursive : Bool) : CondState Tid :=
  ⟨none, 0, recursive, none, 0, none, fun _ => .idle⟩

/-- A condition after `pthread_cond_init`. -/
def condReady (recursive : Bool) : CondState Tid :=
  ⟨some true, 0, recursive, none, 0, none, fun _ => .idle⟩

/-- All interleavings from the state `s₀`. -/
def condSys (s₀ : CondState Tid) : Lts (CondState Tid) (CondAct Tid) :=
  .ofStep s₀ condStep

/-! ## What the operations do -/

variable {s s' : CondState Tid} {t : Tid} {p : CondPc}

@[simp] theorem go_sem : (s.go t p).sem = s.sem := rfl
@[simp] theorem go_referenced : (s.go t p).referenced = s.referenced := rfl
@[simp] theorem go_pc : (s.go t p).pc = Function.update s.pc t p := rfl

@[simp] theorem answer_pc {e : Errno} :
    (s.answer t e).pc = Function.update s.pc t (.answered e) := rfl

theorem mtxLock_eq_some :
    mtxLock s t p = some s' ↔ s.sem = some true ∧ s' = { s with sem := some false }.go t p := by
  unfold mtxLock
  split <;> simp_all [eq_comm]

theorem mtxUnlock_eq_some :
    mtxUnlock s t p = some s' ↔ s.sem ≠ none ∧ s' = { s with sem := some true }.go t p := by
  unfold mtxUnlock
  split <;> simp_all [eq_comm]

omit [DecidableEq Tid] in
theorem condCall_eq_some {r : Option (CondState Tid)} :
    condCall s t r = some s' ↔ s.pc t = .idle ∧ r = some s' := by
  unfold condCall
  split <;> simp_all

@[simp] theorem pthreadMutexUnlock_sem : (pthreadMutexUnlock s t).sem = s.sem := by
  unfold pthreadMutexUnlock
  split_ifs <;> rfl

@[simp] theorem pthreadMutexUnlock_referenced :
    (pthreadMutexUnlock s t).referenced = s.referenced := by
  unfold pthreadMutexUnlock
  split_ifs <;> rfl

@[simp] theorem pthreadMutexUnlock_pc : (pthreadMutexUnlock s t).pc = s.pc := by
  unfold pthreadMutexUnlock
  split_ifs <;> rfl

/-- Only the last unlock of the holder releases the mutex. -/
theorem pthreadMutexUnlock_owner :
    (pthreadMutexUnlock s t).owner = if s.owner = some t ∧ s.depth ≤ 1 then none else s.owner := by
  unfold pthreadMutexUnlock
  split_ifs <;> simp_all

/-- A lock leaves everything but the mutex as it was. -/
theorem pthreadMutexLock_some (h : pthreadMutexLock s t = some s') :
    s'.owner = some t ∧ (s.owner = none ∨ s.owner = some t) ∧
      s'.sem = s.sem ∧ s'.referenced = s.referenced ∧ s'.pc = s.pc := by
  unfold pthreadMutexLock at h
  split at h
  · cases h
    exact ⟨rfl, .inl ‹_›, rfl, rfl, rfl⟩
  · rename_i u hu
    split_ifs at h with hr
    cases h
    exact ⟨hr.2 ▸ hu, .inr (hr.2 ▸ hu), rfl, rfl, rfl⟩

/-- What the next step of `t`, which is at `p`, can do. -/
inductive RunStep (s : CondState Tid) (t : Tid) : CondPc → CondState Tid → Prop
  | wInc : RunStep s t .wInc ({ s with referenced := s.referenced + 1 }.go t .wLock)
  | wLock (hsem : s.sem = some true) :
      RunStep s t .wLock ({ s with sem := some false }.go t .wTest)
  | wTestFirst (href : s.referenced = 1) : RunStep s t .wTest (s.go t .wLock2)
  | wTestOther (href : s.referenced ≠ 1) : RunStep s t .wTest (s.go t .wUnlock)
  | wLock2 (hsem : s.sem = some true) :
      RunStep s t .wLock2 ({ s with sem := some false }.go t .wUnlock)
  | wUnlock : RunStep s t .wUnlock ((pthreadMutexUnlock s t).go t (.returned .success))
  | tInc (ticks : Nat) :
      RunStep s t (.tInc ticks) ({ s with referenced := s.referenced + 1 }.go t (.tTest ticks))
  | tTestFirst (ticks : Nat) (href : s.referenced = 1) :
      RunStep s t (.tTest ticks) (s.go t (.tLock ticks))
  | tTestOther (ticks : Nat) (href : s.referenced ≠ 1) :
      RunStep s t (.tTest ticks) (s.go t (.tTake ticks))
  | tLock (ticks : Nat) (hsem : s.sem = some true) :
      RunStep s t (.tLock ticks) ({ s with sem := some false }.go t (.tTake ticks))
  | tTake (ticks : Nat) (hsem : s.sem = some true) :
      RunStep s t (.tTake ticks) ({ s with sem := some false }.go t .tUnlock)
  | tUnlock : RunStep s t .tUnlock ((pthreadMutexUnlock s t).go t (.returned .success))
  | sDec : RunStep s t .sDec ({ s with referenced := s.referenced - 1 }.go t .sGive)
  | sGive (hsem : s.sem ≠ none) : RunStep s t .sGive ({ s with sem := some true }.go t .idle)
  | iTestBusy (mem : Bool) (href : s.referenced > 0) :
      RunStep s t (.iTest mem) (s.answer t .ebusy)
  | iTestFree (mem : Bool) (href : ¬ s.referenced > 0) :
      RunStep s t (.iTest mem) (s.go t (.iSem mem))
  | iSemBusy (mem : Bool) (hsem : s.sem ≠ none) : RunStep s t (.iSem mem) (s.answer t .ebusy)
  | iSemNoMem (hsem : s.sem = none) : RunStep s t (.iSem false) (s.answer t .enomem)
  | iSemCreate (hsem : s.sem = none) :
      RunStep s t (.iSem true) ({ s with sem := some false }.go t .iGive)
  | iGive (hsem : s.sem ≠ none) : RunStep s t .iGive ({ s with sem := some true }.go t .iZero)
  | iZero : RunStep s t .iZero ({ s with referenced := 0 }.answer t .success)
  | dTestBusy (href : s.referenced > 0) : RunStep s t .dTest (s.answer t .ebusy)
  | dTestFree (href : ¬ s.referenced > 0) : RunStep s t .dTest (s.go t .dSem)
  | dSemNull (hsem : s.sem = none) : RunStep s t .dSem (s.answer t .einval)
  | dSemGive (hsem : s.sem ≠ none) : RunStep s t .dSem ({ s with sem := some true }.go t .dDelete)
  | dDelete : RunStep s t .dDelete ({ s with sem := none }.answer t .success)

theorem condRun_step (h : condRun s t = some s') : RunStep s t (s.pc t) s' := by
  unfold condRun at h
  cases hp : s.pc t with
  | idle | returned | answered => simp [hp] at h
  | wLock | wLock2 | tLock | tTake =>
    simp only [hp] at h
    obtain ⟨hsem, rfl⟩ := mtxLock_eq_some.mp h
    constructor
    exact hsem
  | sGive | iGive =>
    simp only [hp] at h
    obtain ⟨hsem, rfl⟩ := mtxUnlock_eq_some.mp h
    constructor
    exact hsem
  | wInc | wUnlock | tInc | tUnlock | sDec | iZero | dDelete =>
    simp only [hp, Option.some.injEq] at h
    subst h
    constructor
  | wTest =>
    simp only [hp, Option.some.injEq] at h
    subst h
    split_ifs with href
    · exact .wTestFirst href
    · exact .wTestOther href
  | tTest ticks =>
    simp only [hp, Option.some.injEq] at h
    subst h
    split_ifs with href
    · exact .tTestFirst ticks href
    · exact .tTestOther ticks href
  | iTest mem =>
    simp only [hp, Option.some.injEq] at h
    subst h
    split_ifs with href
    · exact .iTestBusy mem href
    · exact .iTestFree mem href
  | dTest =>
    simp only [hp, Option.some.injEq] at h
    subst h
    split_ifs with href
    · exact .dTestBusy href
    · exact .dTestFree href
  | iSem mem =>
    simp only [hp] at h
    split at h
    · -- there is no semaphore yet, so one is created
      rename_i hsem
      cases h
      cases mem with
      | false => exact .iSemNoMem hsem
      | true => exact .iSemCreate hsem
    · rename_i b hsem
      cases h
      exact .iSemBusy mem (by simp [hsem])
  | dSem =>
    simp only [hp] at h
    split at h
    · rename_i b hsem
      cases h
      exact .dSemGive (by simp [hsem])
    · rename_i hsem
      cases h
      exact .dSemNull hsem

/-! ## Where a thread is -/

/-- At an operation on the semaphore that does not return until it succeeds or,
    after some time, gives up. -/
def CondPc.atLock : CondPc → Bool
  | .wLock | .wLock2 | .tLock _ => true
  | .tTake ticks => 0 < ticks
  | _ => false

/-- The thread is blocked inside a wait. -/
def CondState.Blocked (s : CondState Tid) (t : Tid) : Prop :=
  (s.pc t).atLock ∧ s.sem = some false

end Steps

end LuaRtos.Pthread
