/-
  LuaRtos.Pthread.Create

  The handshake between `_pthread_create`, in the parent, and `pthreadTask`, in
  the child.

  The parent takes `thread->init_mtx`, creates the task and takes the mutex
  again, which the child gives once it has set up its part of the TCB.  After
  that the parent still writes `thread->task`, and `new_thread` the fields
  `status` and `thread` of the `struct lthread`; meanwhile the child may come to
  its end, where the clean list frees the `lthread` and `_pthread_free` the
  thread.

  The parent ends in `ParentPc.faulted` where it goes through a structure that
  the child has freed.  The runs begin when both structures are filled in; the
  branch in which `xTaskCreate` fails has no child and is left out.
-/

import LuaRtos.Pthread.Join

namespace LuaRtos.Pthread

open LuaRtos.CLib

/-- Where the parent is, in `_pthread_create` and then in `new_thread`. -/
inductive ParentPc where
  /-- Before the first `mtx_lock(&thread->init_mtx)`. -/
  | lock
  /-- Before `xTaskCreate`. -/
  | create
  /-- Before the second `mtx_lock(&thread->init_mtx)`. -/
  | lockAgain
  /-- Before `thread->task = xCreatedTask`. -/
  | setTask
  /-- In `new_thread`: before `thread->status = LTHREAD_STATUS_RUNNING`. -/
  | setStatus
  /-- Before `thread->thread = id`. -/
  | setThread
  | done
  | faulted (f : Fault)
deriving DecidableEq, Repr

/-- Where the child is in `pthreadTask`. -/
inductive ChildPc where
  /-- `xTaskCreate` has not been called yet. -/
  | none
  /-- Before the TCB is set up. -/
  | setup
  /-- Before `mtx_unlock(&thread->init_mtx)`. -/
  | unlock
  /-- In `vTaskSuspend`. -/
  | suspended
  /-- In the start routine. -/
  | run
  /-- Before the clean list is executed. -/
  | clean
  /-- In `_pthread_free`: before `mtx_destroy(&thread->init_mtx)`. -/
  | destroy
  /-- Before `list_remove(&thread_list, id, 1)`. -/
  | remove
  | ended
deriving DecidableEq, Repr

/-- The thread, its handshake, and where both sides are. -/
structure CreateState where
  /-- The call comes from `new_thread`. -/
  lua : Bool
  /-- `initial_state` is PTHREAD_INITIAL_STATE_SUSPEND. -/
  suspend : Bool
  /-- The `struct pthread`. -/
  thread : Block
  /-- The `struct lthread`. -/
  lthread : Block
  /-- `thread->init_mtx`: whether it can be taken; none once destroyed. -/
  initMtx : Option Bool
  parent : ParentPc
  child : ChildPc
deriving DecidableEq, Repr

/-- A step of the parent; one of the child, with whether there was memory to put
    `thread_terminated` on the clean list; or `_pthread_resume` on the child. -/
inductive CreateAct where
  | parent
  | child (mem : Bool)
  | resume
deriving DecidableEq, Repr

/-- The next step of `_pthread_create` and `new_thread`. -/
def parentStep (s : CreateState) : Option CreateState :=
  match s.parent with
  | .lock =>
    if s.initMtx = some true then some { s with initMtx := some false, parent := .create }
    else none
  | .create => some { s with child := .setup, parent := .lockAgain }
  | .lockAgain =>
    if s.thread ≠ .live then some { s with parent := .faulted .useAfterFree }
    else if s.initMtx = some true then some { s with initMtx := some false, parent := .setTask }
    else none
  | .setTask =>
    if s.thread ≠ .live then some { s with parent := .faulted .useAfterFree }
    else some { s with parent := if s.lua then .setStatus else .done }
  | .setStatus =>
    if s.lthread ≠ .live then some { s with parent := .faulted .useAfterFree }
    else some { s with parent := .setThread }
  | .setThread =>
    if s.lthread ≠ .live then some { s with parent := .faulted .useAfterFree }
    else some { s with parent := .done }
  | .done | .faulted _ => none

/-- The next step of `pthreadTask`. -/
def childStep (s : CreateState) (mem : Bool) : Option CreateState :=
  match s.child with
  | .none | .suspended | .ended => none
  | .setup => some { s with child := .unlock }
  | .unlock => some { s with
      initMtx := some true, child := if s.suspend then .suspended else .run }
  | .run => some { s with child := .clean }
  | .clean =>
    -- `thread_terminated` removes the lthread from `lthread_list` and frees it
    some { s with lthread := if s.lua ∧ mem then .freed else s.lthread, child := .destroy }
  | .destroy => some { s with initMtx := none, child := .remove }
  | .remove => some { s with thread := .freed, child := .ended }

def createStep (s : CreateState) : CreateAct → Option CreateState
  | .parent => parentStep s
  | .child mem => childStep s mem
  | .resume => if s.child = .suspended then some { s with child := .run } else none

/-- Before the first `mtx_lock`, the structures just filled in. -/
def createInit (lua suspend : Bool) : CreateState where
  lua := lua
  suspend := suspend
  thread := .live
  lthread := if lua then .live else .absent
  initMtx := some true
  parent := .lock
  child := .none

/-- All interleavings. -/
def createSys (lua suspend : Bool) : Lts CreateState CreateAct :=
  .ofStep (createInit lua suspend) createStep

/-- The parent has not gone through a structure that the child has freed. -/
def NoLateAccess (s : CreateState) : Prop := ∀ f, s.parent ≠ .faulted f

/-! ## The orders that are safe -/

/-- The parent does not come back to the `struct pthread`. -/
def ParentPc.threadDone : ParentPc → Bool
  | .setStatus | .setThread | .done => true
  | _ => false

/-- The child frees the `lthread` only after the parent has returned from
    `new_thread`, and the thread only after `thread->task` is set. -/
def FreesLate (s : CreateState) : CreateAct → Prop
  | .child mem => (s.child = .clean → s.lua = true → mem = true → s.parent = .done) ∧
      (s.child = .remove → s.parent.threadDone = true)
  | _ => True

instance (s : CreateState) (a : CreateAct) : Decidable (FreesLate s a) :=
  match a with
  | .child mem => inferInstanceAs
      (Decidable ((s.child = .clean → s.lua = true → mem = true → s.parent = .done) ∧
        (s.child = .remove → s.parent.threadDone = true)))
  | .parent | .resume => .isTrue trivial

/-- What the parent still needs is there. -/
structure CreateInv (s : CreateState) : Prop where
  thread : s.thread = .live ∨ s.parent.threadDone = true
  lthread : s.lua = true → s.lthread = .live ∨ s.parent = .done
  /-- Without `new_thread` the parent does not come to the `lthread`. -/
  plain : s.lua = false → s.parent ≠ .setStatus ∧ s.parent ≠ .setThread
  noFault : ∀ f, s.parent ≠ .faulted f

variable {s s' : CreateState}

theorem parentStep_inv (h : CreateInv s) (hs : parentStep s = some s') : CreateInv s' := by
  obtain ⟨hthread, hlthread, hplain, hfault⟩ := h
  obtain ⟨lua, suspend, thread, lthread, initMtx, parent, child⟩ := s
  dsimp only at hthread hlthread hplain hfault
  -- up to `thread->task = xCreatedTask` the thread has to be there
  have hlive (hp : parent.threadDone = false) : thread = .live :=
    hthread.resolve_right (by simp [hp])
  cases parent with
  | lock =>
    simp only [parentStep] at hs
    split_ifs at hs
    cases hs
    exact ⟨.inl (hlive rfl), fun hl => .inl ((hlthread hl).resolve_right nofun),
      fun _ => ⟨nofun, nofun⟩, nofun⟩
  | create =>
    cases hs
    exact ⟨.inl (hlive rfl), fun hl => .inl ((hlthread hl).resolve_right nofun),
      fun _ => ⟨nofun, nofun⟩, nofun⟩
  | lockAgain =>
    obtain rfl := hlive rfl
    simp only [parentStep, ne_eq, not_true, if_false] at hs
    split_ifs at hs
    cases hs
    exact ⟨.inl rfl, fun hl => .inl ((hlthread hl).resolve_right nofun),
      fun _ => ⟨nofun, nofun⟩, nofun⟩
  | setTask =>
    obtain rfl := hlive rfl
    simp only [parentStep, ne_eq, not_true, if_false] at hs
    cases hs
    -- only `new_thread` goes on to the `lthread`
    cases lua with
    | false => exact ⟨.inl rfl, nofun, fun _ => ⟨nofun, nofun⟩, nofun⟩
    | true =>
      exact ⟨.inl rfl, fun _ => .inl ((hlthread rfl).resolve_right nofun), nofun, nofun⟩
  | setStatus =>
    cases lua with
    | false => exact absurd rfl (hplain rfl).1
    | true =>
      obtain rfl := (hlthread rfl).resolve_right nofun
      cases hs
      exact ⟨.inr rfl, fun _ => .inl rfl, nofun, nofun⟩
  | setThread =>
    cases lua with
    | false => exact absurd rfl (hplain rfl).2
    | true =>
      obtain rfl := (hlthread rfl).resolve_right nofun
      cases hs
      exact ⟨.inr rfl, fun _ => .inl rfl, nofun, nofun⟩
  | done => cases hs
  | faulted f => cases hs

theorem childStep_inv (h : CreateInv s) {mem : Bool} (hok : FreesLate s (.child mem))
    (hs : childStep s mem = some s') : CreateInv s' := by
  obtain ⟨hthread, hlthread, hplain, hfault⟩ := h
  obtain ⟨lua, suspend, thread, lthread, initMtx, parent, child⟩ := s
  dsimp only at hthread hlthread hplain hfault
  cases child with
  | none | suspended | ended => cases hs
  | setup | unlock | run | destroy =>
    cases hs
    exact ⟨hthread, hlthread, hplain, hfault⟩
  | clean =>
    cases hs
    refine ⟨hthread, fun hl => ?_, hplain, hfault⟩
    cases mem with
    | false =>
      -- `thread_terminated` does not run, and the `lthread` stays
      simpa using hlthread hl
    | true => exact .inr (hok.1 rfl hl rfl)
  | remove =>
    cases hs
    exact ⟨.inr (hok.2 rfl), hlthread, hplain, hfault⟩

theorem createStep_inv (h : CreateInv s) {a : CreateAct} (hok : FreesLate s a)
    (hs : createStep s a = some s') : CreateInv s' := by
  cases a with
  | parent => exact parentStep_inv h hs
  | child mem => exact childStep_inv h hok hs
  | resume =>
    simp only [createStep] at hs
    split_ifs at hs
    cases hs
    exact ⟨h.thread, h.lthread, h.plain, h.noFault⟩

end LuaRtos.Pthread
