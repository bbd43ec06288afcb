/-
  LuaRtos.Lua.NewThread

  `new_thread` of Lua/modules/thread.c, over the calls of `_pthread_create` that it makes:
  what it has taken when it ends with an error.

  A Lua error does not return, so that nothing after it runs.  An item of `lthread_list` is
  the number of a `struct lthread`; what is written into it is left out, and so is the Lua
  stack.
-/

import LuaRtos.Pthread.CreateFailure

namespace LuaRtos.Lua

open LuaRtos.CLib LuaRtos.Sys LuaRtos.Pthread

/-- The exceptions of the thread module that `new_thread` raises. -/
inductive ThreadError where
  | notEnoughtMemory
  | cannotStart
  | invalidStackSize
  | invalidPriority
  | invalidCPUAffinity
deriving DecidableEq, Repr

/-- A Lua error. -/
inductive Raised where
  /-- `luaL_exception` -/
  | exception (e : ThreadError)
  /-- `luaL_exception_extended`, with `strerror(errno)` -/
  | extended (e : ThreadError) (errno : Errno)
  /-- `luaL_checktype` or `luaL_optinteger` on an argument of another type. -/
  | argument
  /-- Lua itself has no memory. -/
  | memory
deriving DecidableEq, Repr

/-- An argument that is to be an integer. -/
inductive IntArg where
  | absent
  | integer (n : Int)
  | other
deriving DecidableEq, Repr

/-- `luaL_optinteger`. -/
def optInteger (arg : IntArg) (default : Int) : Except Raised Int :=
  match arg with
  | .absent => pure default
  | .integer n => pure n
  | .other => throw .argument

/-- What the build and the system configure. -/
structure ThreadConfig where
  /-- CONFIG_LUA_RTOS_LUA_THREAD_STACK_SIZE, _PRIORITY and _CPU. -/
  stackSize : Int
  priority : Int
  cpu : Int
  /-- ESP_TASK_PRIO_MIN and ESP_TASK_PRIO_MAX. -/
  prioMin : Int
  prioMax : Int

def pthreadStackMin : Int := 1024 * 2

/-- The arguments of `new_thread`. -/
structure ThreadArgs where
  isFunction : Bool
  stack : IntArg
  priority : IntArg
  affinity : IntArg

/-- How the calls that `new_thread` makes come out. -/
structure ThreadOutcomes where
  /-- There is memory for the `struct lthread`. -/
  lthread : Bool
  /-- Lua has memory for the first `luaL_ref`, for `lua_newthread`, for the second `luaL_ref`. -/
  functionRef : Bool
  newthread : Bool
  threadRef : Bool
  /-- The memory for a larger index array of `lthread_list`. -/
  indexa : Option (Nat → ListIndex Nat)
  /-- Each call of `_pthread_create`. -/
  attempt : Nat → Attempt
  /-- `luaC_checkGC` and `luaD_checkstack` return, before the next of these calls. -/
  checked : Nat → Bool

/-- What comes of `new_thread`: the lthread id, or an error. -/
inductive NewThread where
  | thid (idx : Int)
  | raised (e : Raised)
deriving DecidableEq, Repr

/-- The arguments and the sanity checks, with the stack size. -/
def sanityChecks (c : ThreadConfig) (x : ThreadArgs) : Except Raised Int := do
  let stack ← optInteger x.stack c.stackSize
  let priority ← optInteger x.priority c.priority
  let affinity ← optInteger x.affinity c.cpu
  if stack < pthreadStackMin then throw (.exception .invalidStackSize)
  else if priority < c.prioMin + 3 ∨ priority > c.prioMax then throw (.exception .invalidPriority)
  else if affinity < 0 ∨ affinity > 1 then throw (.exception .invalidCPUAffinity)
  else pure stack

/-- `pthread_create`, with attributes. -/
def pthreadCreateAttr (w : World) (stacksize : Int) (a : Attempt) : Result (Errno × World) :=
  if stacksize < pthreadStackMin then pure (.einval, w) else pthreadCreate w a

/-- The end of `new_thread` where the thread is not created. -/
def cannotStart (w : World) (idx : Int) (res : Errno) : Result (NewThread × World) := do
  let r ← listRemove w.lthreadList idx true
  let w ← { w with lthreadList := r.list }.freeItem r.freed
  pure (.raised (.extended .cannotStart res), w)

/-- The loop at `retry`, with the number of retries that are left: what the last call of
    `pthread_create` returns, none where a Lua error is raised before. -/
def retry (o : ThreadOutcomes) (stack : Int) : Nat → World → Result (Option Errno × World)
  | 0, w => do
    let (res, w) ← pthreadCreateAttr w stack (o.attempt 4)
    pure (some res, w)
  | left + 1, w => do
    let (res, w) ← pthreadCreateAttr w stack (o.attempt (3 - left))
    if res = .enomem then
      if o.checked (3 - left) then retry o stack left w else pure (none, w)
    else pure (some res, w)

/-- The loop, and what follows it. -/
def startThread (o : ThreadOutcomes) (stack idx : Int) (w : World) :
    Result (NewThread × World) := do
  let (res, w) ← retry o stack 4 w
  match res with
  | none => pure (.raised .memory, w)
  | some res => if res = .success then pure (.thid idx, w) else cannotStart w idx res

/-- From `list_add(&lthread_list, thread, &idx)` on. -/
def addLthread (w : World) (o : ThreadOutcomes) (stack : Int) (thread : Nat) :
    Result (NewThread × World) := do
  let r ← listAdd w.lthreadList thread o.indexa
  let w := { w with lthreadList := r.list }
  match r.itemIndex with
  | some idx => startThread o stack idx w
  | none => do
    let w ← w.free thread
    pure (.raised (.exception .notEnoughtMemory), w)

/-- `new_thread`. -/
def newThread (c : ThreadConfig) (w : World) (x : ThreadArgs) (o : ThreadOutcomes) :
    Result (NewThread × World) :=
  match sanityChecks c x with
  | .error err => pure (.raised err, w)
  | .ok stack =>
    if ¬ o.lthread then pure (.raised (.exception .notEnoughtMemory), w)
    else
      let thread := w.blocks.length
      let w := { w with blocks := w.blocks.alloc () }
      -- Check for argument is a function, and store it's reference
      if ¬ x.isFunction then pure (.raised .argument, w)
      else if ¬ o.functionRef then pure (.raised .memory, w)
      else
        let w := { w with refs := w.refs.alloc () }
        -- Create a new state, move function to it and store thread reference
        if ¬ (o.newthread ∧ o.threadRef) then pure (.raised .memory, w)
        else addLthread { w with refs := w.refs.alloc () } o stack thread

/-! ## Failure atomicity -/

/-- What a thread that was started keeps: its three structures, the semaphores of its three
    mutexes, and the references to its function and its state. -/
structure Started (w w' : World) : Prop where
  blocks : Keeps 3 w.blocks w'.blocks
  sems : Keeps 3 w.sems w'.sems
  refs : Keeps 2 w.refs w'.refs

/-- The call ends, with an error only if it has undone what it did, and else with nothing kept
    but what its thread needs. -/
def NewThreadAtomic (c : ThreadConfig) (w : World) (x : ThreadArgs) (o : ThreadOutcomes) : Prop :=
  ∃ r w', newThread c w x o = .ok (r, w') ∧
    match r with
    | .raised _ => Undone w w'
    | .thid _ => Started w w'

/-- The lthread, its references and its place in the list are there. -/
def withLthread (w : World) (l : CList Nat) : World :=
  { w with
    blocks := w.blocks.alloc ()
    refs := (w.refs.alloc ()).alloc ()
    lthreadList := l }

/-- Nothing fails in the call, the first `_pthread_create` included. -/
structure Starts (w : World) (x : ThreadArgs) (o : ThreadOutcomes) : Prop where
  lthread : o.lthread = true
  isFunction : x.isFunction = true
  functionRef : o.functionRef = true
  newthread : o.newthread = true
  threadRef : o.threadRef = true
  added : ∃ idx l, listAdd w.lthreadList w.blocks.length o.indexa = .ok ⟨.success, some idx, l⟩ ∧
    Creates (withLthread w l) (o.attempt 0)

section Calls

variable {w w' : World} {a : Attempt} {e : Errno} {o : ThreadOutcomes} {stack idx : Int}
  {left : Nat} {r : NewThread}

theorem cannotStart_keeps (hrun : cannotStart w idx e = .ok (r, w')) :
    w'.refs = w.refs ∧ ∀ k, r ≠ .thid k := by
  obtain ⟨_, -, hrun⟩ := bind_eq_ok.mp hrun
  obtain ⟨w₁, h₁, hrun⟩ := bind_eq_ok.mp hrun
  obtain ⟨-, hrefs, -⟩ := freeItem_keeps h₁
  cases hrun
  exact ⟨hrefs, by simp⟩

/-- A call of `_pthread_create` keeps the references.  If it fails, the semaphores that are there
    stay, and if there is to be another try, some more are there. -/
theorem ended_keeps (h : Ended w a e w') :
    w'.refs = w.refs ∧ (e = .enomem → ∃ n, 2 ≤ n ∧
      w'.sems = w.sems ++ List.replicate n (some ())) := by
  cases h with
  | noMemory => exact ⟨rfl, by simp⟩
  | noParent => exact ⟨rfl, by simp⟩
  | lost _ _ n _ hn hsems hrefs => exact ⟨hrefs, fun _ => ⟨n, hn, hsems⟩⟩
  | created => exact ⟨rfl, by simp⟩

/-- A call that has created the thread is one in which nothing failed. -/
theorem ended_created (h : Ended w a .success w') : Creates w a ∧ ∃ l, w' = w.created l := by
  cases h with
  | lost _ _ _ he => exact absurd rfl he
  | created k l hcreates _ => exact ⟨hcreates, l, rfl⟩

/-- No try gives back a reference.  The thread that is created has its three semaphores, and
    those that the tries before it have lost are there still. -/
theorem retry_cases {res : Option Errno} (hstack : ¬ stack < pthreadStackMin)
    (hrun : retry o stack left w = .ok (res, w')) :
    w'.refs = w.refs ∧ (res = some .success →
      (Creates w (o.attempt (4 - left)) ∧ ∃ l, w' = w.created l) ∨
        ∃ n, 4 ≤ n ∧ w'.sems = w.sems ++ List.replicate n (some ())) := by
  induction left generalizing w with
  | zero =>
    obtain ⟨⟨e, w₁⟩, hcreate, hrun⟩ := bind_eq_ok.mp hrun
    rw [pthreadCreateAttr, if_neg hstack] at hcreate
    have hended := pthreadCreate_ended hcreate
    cases hrun
    refine ⟨(ended_keeps hended).1, fun he => ?_⟩
    cases he
    exact .inl (ended_created hended)
  | succ left ih =>
    obtain ⟨⟨e, w₁⟩, hcreate, hrun⟩ := bind_eq_ok.mp hrun
    rw [pthreadCreateAttr, if_neg hstack] at hcreate
    have hended := pthreadCreate_ended hcreate
    obtain ⟨hrefs, hmore⟩ := ended_keeps hended
    by_cases hmem : e = .enomem
    · obtain ⟨n, hn, hsems⟩ := hmore hmem
      dsimp only at hrun
      rw [if_pos hmem] at hrun
      split at hrun
      · obtain ⟨hrefs', hres⟩ := ih hrun
        refine ⟨hrefs'.trans hrefs, fun he => .inr ?_⟩
        -- the semaphores of the try that failed come on top of the three of the thread
        rcases hres he with ⟨-, l, rfl⟩ | ⟨n', hn', hsems'⟩
        · refine ⟨n + 3, by omega, ?_⟩
          simp only [World.created, hsems, List.append_assoc, List.replicate_append_replicate]
        · refine ⟨n + n', by omega, ?_⟩
          rw [hsems', hsems, List.append_assoc, List.replicate_append_replicate]
      · cases hrun
        exact ⟨hrefs, by simp⟩
    · dsimp only at hrun
      rw [if_neg hmem] at hrun
      cases hrun
      refine ⟨hrefs, fun he => ?_⟩
      cases he
      have hattempt : 3 - left = 4 - (left + 1) := by omega
      rw [hattempt] at hended
      exact .inl (ended_created hended)

theorem startThread_cases (hstack : ¬ stack < pthreadStackMin)
    (hrun : startThread o stack idx w = .ok (r, w')) :
    w'.refs = w.refs ∧ ∀ k, r = .thid k →
      (Creates w (o.attempt 0) ∧ ∃ l, w' = w.created l) ∨
        ∃ n, 4 ≤ n ∧ w'.sems = w.sems ++ List.replicate n (some ()) := by
  obtain ⟨⟨res, w₁⟩, hretry, hrun⟩ := bind_eq_ok.mp hrun
  obtain ⟨hrefs, hres⟩ := retry_cases hstack hretry
  cases res with
  | none =>
    cases hrun
    exact ⟨hrefs, by simp⟩
  | some e =>
    dsimp only at hrun
    split at hrun
    next he =>
      cases hrun
      exact ⟨hrefs, fun _ _ => hres (congrArg some he)⟩
    next he =>
      obtain ⟨hrefs', hr⟩ := cannotStart_keeps hrun
      exact ⟨hrefs'.trans hrefs, fun k hk => absurd hk (hr k)⟩

/-- A call that creates its thread at once starts it. -/
theorem startThread_created (hstack : ¬ stack < pthreadStackMin) (h : Creates w (o.attempt 0)) :
    ∃ l, startThread o stack idx w = .ok (.thid idx, w.created l) := by
  obtain ⟨l, hcreate⟩ := pthreadCreate_created h
  refine ⟨l, ?_⟩
  have hretry : retry o stack 4 w = .ok (some .success, w.created l) := by
    rw [retry, pthreadCreateAttr, if_neg hstack, hcreate]
    rfl
  rw [startThread, hretry]
  rfl

end Calls

section Atomicity

variable {c : ThreadConfig} {w w' : World} {x : ThreadArgs} {o : ThreadOutcomes} {stack : Int}
  {r : NewThread}

theorem sanityChecks_stack (h : sanityChecks c x = .ok stack) : ¬ stack < pthreadStackMin := by
  unfold sanityChecks at h
  cases hstack : optInteger x.stack c.stackSize with
  | error => rw [hstack] at h; cases h
  | ok n =>
    cases hpriority : optInteger x.priority c.priority with
    | error => rw [hstack, hpriority] at h; cases h
    | ok p =>
      cases haffinity : optInteger x.affinity c.cpu with
      | error => rw [hstack, hpriority, haffinity] at h; cases h
      | ok k =>
        rw [hstack, hpriority, haffinity] at h
        change (if n < pthreadStackMin then _ else _) = Except.ok stack at h
        split at h
        · cases h
        next hmin =>
        split at h
        · cases h
        split at h
        · cases h
        · cases h
          exact hmin

/-- From the sanity checks and the lthread on, the call is atomic only if nothing fails. -/
theorem starts_of_atomic (hchecks : sanityChecks c x = .ok stack) (hlthread : o.lthread = true)
    (h : NewThreadAtomic c w x o) : Starts w x o := by
  obtain ⟨r, w', hrun, hend⟩ := h
  rw [newThread, hchecks] at hrun
  dsimp only at hrun
  rw [if_neg (by simp [hlthread])] at hrun
  have hblock : ¬ Keeps 0 w.blocks (w.blocks.alloc ()) := by
    rw [alloc_eq_append, keeps_replicate_iff]
    decide
  split at hrun
  · cases hrun
    exact absurd hend.blocks hblock
  next hfunction =>
  split at hrun
  · cases hrun
    exact absurd hend.blocks hblock
  next href =>
  split at hrun
  · cases hrun
    exact absurd hend.blocks hblock
  next hstate =>
  obtain ⟨hnewthread, hthreadRef⟩ := not_not.mp hstate
  obtain ⟨⟨ret, index, l⟩, hadd, hrun⟩ := bind_eq_ok.mp hrun
  -- no error after this gives back the references
  have hrefs : ¬ Keeps 0 w.refs ((w.refs.alloc ()).alloc ()) := by
    rw [alloc_eq_append, alloc_eq_append, List.append_assoc, List.replicate_append_replicate,
      keeps_replicate_iff]
    decide
  cases index with
  | none =>
    obtain ⟨w₁, h₁, hrun⟩ := bind_eq_ok.mp hrun
    obtain ⟨-, hkept, -⟩ := free_keeps h₁
    cases hrun
    refine absurd hend.refs ?_
    rwa [hkept]
  | some idx =>
    have hret : ret = .success := ret_of_itemIndex hadd rfl
    subst hret
    obtain ⟨hkept, hthid⟩ := startThread_cases (sanityChecks_stack hchecks) hrun
    cases r with
    | raised err =>
      refine absurd hend.refs ?_
      rwa [hkept]
    | thid k =>
      rcases hthid k rfl with ⟨hcreates, -⟩ | ⟨n, hn, hsems⟩
      · exact ⟨hlthread, not_not.mp hfunction, not_not.mp href, hnewthread, hthreadRef, idx, l,
          hadd, hcreates⟩
      · have hthree := hend.sems
        rw [hsems, keeps_replicate_iff] at hthree
        omega

/-- Where nothing fails the thread is started. -/
theorem atomic_of_starts (hchecks : sanityChecks c x = .ok stack) (h : Starts w x o) :
    NewThreadAtomic c w x o := by
  obtain ⟨idx, l, hadd, hcreates⟩ := h.added
  obtain ⟨l', hstart⟩ : ∃ l', startThread o stack idx (withLthread w l) =
      .ok (.thid idx, (withLthread w l).created l') :=
    startThread_created (sanityChecks_stack hchecks) hcreates
  refine ⟨.thid idx, (withLthread w l).created l', ?_, ?_⟩
  · rw [newThread, hchecks]
    dsimp only
    rw [if_neg (by simp [h.lthread]), if_neg (by simp [h.isFunction]),
      if_neg (by simp [h.functionRef]), if_neg (by simp [h.newthread, h.threadRef]), addLthread]
    change (listAdd w.lthreadList w.blocks.length o.indexa >>= _) = _
    rw [hadd]
    exact hstart
  · refine ⟨?_, ?_, ?_⟩
    · exact ⟨List.replicate 3 (some ()), by simp [World.created, World.withThread, withLthread,
        Heap.alloc, List.replicate], rfl⟩
    · exact keeps_replicate_iff.mpr rfl
    · exact ⟨List.replicate 2 (some ()), by simp [World.created, World.withThread, withLthread,
        Heap.alloc, List.replicate], rfl⟩

/-- `new_thread` undoes what it did where it fails in its checks or at its first block, and
    nowhere else. -/
theorem newThreadAtomic_iff (c : ThreadConfig) (w : World) (x : ThreadArgs) (o : ThreadOutcomes) :
    NewThreadAtomic c w x o ↔
      (∃ err, sanityChecks c x = .error err) ∨ o.lthread = false ∨ Starts w x o := by
  cases hchecks : sanityChecks c x with
  | error err =>
    refine iff_of_true ⟨.raised err, w, ?_, undone_refl w⟩ (.inl ⟨err, rfl⟩)
    rw [newThread, hchecks]
    rfl
  | ok stack =>
    by_cases hlthread : o.lthread = true
    · constructor
      · intro h
        exact .inr (.inr (starts_of_atomic hchecks hlthread h))
      · rintro (⟨err, herr⟩ | hnone | hstarts)
        · cases herr
        · rw [hlthread] at hnone
          cases hnone
        · exact atomic_of_starts hchecks hstarts
    · refine iff_of_true ⟨.raised (.exception .notEnoughtMemory), w, ?_, undone_refl w⟩ ?_
      · rw [newThread, hchecks]
        dsimp only
        rw [if_pos hlthread]
        rfl
      · exact .inr (.inl (by simpa using hlthread))

end Atomicity

/-- Both calls undo what they did where they fail before anything is lost, and nowhere else. -/
theorem threadCreation_atomic_iff (c : ThreadConfig) (w : World) (a : Attempt) (x : ThreadArgs)
    (o : ThreadOutcomes) :
    (CreateAtomic w a ↔ a.taskArgs = false ∨ a.thread = false ∨ Creates w a) ∧
      (NewThreadAtomic c w x o ↔
        (∃ err, sanityChecks c x = .error err) ∨ o.lthread = false ∨ Starts w x o) :=
  ⟨createAtomic_iff w a, newThreadAtomic_iff c w x o⟩

/-! ## Two failing calls -/

/-- No thread yet, both lists as `list_init` leaves them. -/
def noThreads : World :=
  { blocks := [], sems := [], refs := [], threadList := listInit 1, lthreadList := listInit 1 }

/-- There is memory for everything but the task. -/
def refusedTask : Attempt where
  taskArgs := true
  thread := true
  self := 0
  joinMtx := true
  cleanMtx := true
  initMtx := true
  indexa := some fun _ => { item := 0, index := 0, deleted := 0, next := none }
  task := .noMemory

/-- The settings of sdkconfig, with priorities up to 25. -/
def sdkconfig : ThreadConfig :=
  { stackSize := 10240, priority := 20, cpu := 1, prioMin := 0, prioMax := 25 }

/-- `thread.start(f)` -/
def startArgs : ThreadArgs :=
  { isFunction := true, stack := .absent, priority := .absent, affinity := .absent }

/-- There is no memory for `lthread_list` to grow. -/
def fullList : ThreadOutcomes where
  lthread := true
  functionRef := true
  newthread := true
  threadRef := true
  indexa := none
  attempt := fun _ => refusedTask
  checked := fun _ => true

/-- A task that is refused has its thread freed twice; a full list of lthreads leaves the two
    references taken. -/
theorem not_threadCreation_atomic :
    pthreadCreate noThreads refusedTask = .error .useAfterFree ∧
      ¬ CreateAtomic noThreads refusedTask ∧
      (∃ w', newThread sdkconfig noThreads startArgs fullList =
        .ok (.raised (.exception .notEnoughtMemory), w') ∧ w'.refs = [some (), some ()]) ∧
      ¬ NewThreadAtomic sdkconfig noThreads startArgs fullList := by
  have hprepared : Prepared noThreads refusedTask :=
    ⟨rfl, rfl, rfl, rfl, rfl, rfl, _, _, rfl⟩
  have hfree := pthreadCreate_doubleFree (refines_init 1) hprepared (by decide)
  refine ⟨hfree, ?_, ⟨_, rfl, rfl⟩, ?_⟩
  · rintro ⟨e, w', hrun, -⟩
    rw [hfree] at hrun
    cases hrun
  · intro h
    obtain ⟨idx, l, hadd, -⟩ := (starts_of_atomic rfl rfl h).added
    cases hadd

end LuaRtos.Lua
