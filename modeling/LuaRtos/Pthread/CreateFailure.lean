/-
  LuaRtos.Pthread.CreateFailure

  The failing paths of `_pthread_create`: what the call has taken from `malloc` and
  from the kernel, and what of it is given back.

  Blocks and semaphores are numbers, and a second `free` of a block is a fault.  An item
  of `thread_list` is the number of a `struct pthread`.  What is written into the
  structures, the signals copied from the parent among it, is left out, and so are the
  index arrays of the lists, which stay with their list.
-/

import LuaRtos.Sys.ListMap
import LuaRtos.CLib.Heap

namespace LuaRtos.Pthread

open LuaRtos.CLib LuaRtos.Sys

/-- What a thread is created from: the blocks of `malloc`, the semaphores behind the
    mutexes, the references of the Lua registry, and the two lists of threads. -/
structure World where
  blocks : Heap Unit
  sems : Heap Unit
  refs : Heap Unit
  threadList : CList Nat
  lthreadList : CList Nat

/-- What `xTaskCreate` returns. -/
inductive TaskResult where
  /-- pdPASS -/
  | pass
  /-- errCOULD_NOT_ALLOCATE_REQUIRED_MEMORY -/
  | noMemory
  /-- Any other value. -/
  | other
deriving DecidableEq, Repr

/-- How the calls that `_pthread_create` makes come out. -/
structure Attempt where
  /-- There is memory for the task arguments, and for the `struct pthread`. -/
  taskArgs : Bool
  thread : Bool
  /-- What `pthread_self` returns. -/
  self : Int
  /-- There is memory for the semaphores of `join_list`, `clean_list` and `init_mtx`. -/
  joinMtx : Bool
  cleanMtx : Bool
  initMtx : Bool
  /-- The memory for a larger index array of `thread_list`. -/
  indexa : Option (Nat → ListIndex Nat)
  task : TaskResult

/-- `free(p)`. -/
def World.free (w : World) (p : Nat) : Result World := do
  let blocks ← w.blocks.free p
  pure { w with blocks := blocks }

/-- `free` of the item that `list_remove` destroys, if any. -/
def World.freeItem (w : World) : Option Nat → Result World
  | none => pure w
  | some p => w.free p

/-- The thread whose signals are copied is in the list.  A thread without a number of its
    own has no parent. -/
def getParent (l : CList Nat) (self : Int) : Result Errno :=
  if self > 0 then do
    let (res, _) ← listGet l self
    pure res
  else pure .success

/-- The two `list_init` and the `mtx_init`.  `list_init` takes the mutex it has made, which
    has to have its semaphore for that. -/
def initThread (w : World) (a : Attempt) : Result World :=
  if ¬ (a.joinMtx ∧ a.cleanMtx) then throw .nullDeref
  else
    let sems := (w.sems.alloc ()).alloc ()
    pure { w with sems := if a.initMtx then sems.alloc () else sems }

/-- From `mtx_lock(&thread->init_mtx)` on. -/
def createTask (w : World) (a : Attempt) (taskArgs thread : Nat) (id : Int) :
    Result (Errno × World) :=
  if ¬ a.initMtx then throw .nullDeref
  else if a.task = .pass then pure (.success, w)
  else do
    -- Remove from thread list
    let r ← listRemove w.threadList id true
    let w ← { w with threadList := r.list }.freeItem r.freed
    let w ← w.free taskArgs
    let w ← w.free thread
    pure (if a.task = .noMemory then .enomem else .eagain, w)

/-- From `list_add(&thread_list, thread, id)` on. -/
def addThread (w : World) (a : Attempt) (taskArgs thread : Nat) : Result (Errno × World) := do
  let r ← listAdd w.threadList thread a.indexa
  let w := { w with threadList := r.list }
  match r.itemIndex with
  | some id => createTask w a taskArgs thread id
  -- the index is set just where `list_add` returns 0
  | none => do
    let w ← w.free taskArgs
    let w ← w.free thread
    pure (.eagain, w)

/-- `_pthread_create`. -/
def pthreadCreate (w : World) (a : Attempt) : Result (Errno × World) :=
  if ¬ a.taskArgs then pure (.eagain, w)
  else
    let taskArgs := w.blocks.length
    let w := { w with blocks := w.blocks.alloc () }
    if ¬ a.thread then do
      let w ← w.free taskArgs
      pure (.eagain, w)
    else do
      let thread := w.blocks.length
      let w := { w with blocks := w.blocks.alloc () }
      let res ← getParent w.threadList a.self
      if res ≠ .success then do
        let w ← w.free taskArgs
        pure (.eagain, w)
      else do
        let w ← initThread w a
        addThread w a taskArgs thread

/-! ## What a failed call leaves -/

/-- Nothing that was there is gone, and `n` of what was taken since is still held. -/
def Keeps (n : Nat) (h h' : Heap Unit) : Prop :=
  ∃ s, h' = h ++ s ∧ s.countP Option.isSome = n

/-- Every handle gives what it gave before. -/
def SameEntries (l l' : CList Nat) : Prop := ∀ k, listGet l' k = listGet l k

/-- The call has given back all that it took, and the lists are as they were. -/
structure Undone (w w' : World) : Prop where
  blocks : Keeps 0 w.blocks w'.blocks
  sems : Keeps 0 w.sems w'.sems
  refs : Keeps 0 w.refs w'.refs
  threads : SameEntries w.threadList w'.threadList
  lthreads : SameEntries w.lthreadList w'.lthreadList

/-- The call returns, with an error only if it has undone what it did. -/
def CreateAtomic (w : World) (a : Attempt) : Prop :=
  ∃ e w', pthreadCreate w a = .ok (e, w') ∧ (e ≠ .success → Undone w w')

/-- Nothing fails up to the creation of the task. -/
structure Prepared (w : World) (a : Attempt) : Prop where
  taskArgs : a.taskArgs = true
  thread : a.thread = true
  parent : getParent w.threadList a.self = .ok .success
  joinMtx : a.joinMtx = true
  cleanMtx : a.cleanMtx = true
  initMtx : a.initMtx = true
  added : ∃ id l, listAdd w.threadList (w.blocks.length + 1) a.indexa = .ok ⟨.success, some id, l⟩

/-- Nothing fails in the call. -/
structure Creates (w : World) (a : Attempt) : Prop extends Prepared w a where
  task : a.task = .pass

section Keeping

variable {h : Heap Unit} {n : Nat}

theorem keeps_refl (h : Heap Unit) : Keeps 0 h h := ⟨[], by simp, rfl⟩

theorem keeps_append_iff {s : Heap Unit} : Keeps n h (h ++ s) ↔ s.countP Option.isSome = n := by
  constructor
  · rintro ⟨t, ht, hn⟩
    rwa [List.append_cancel_left ht]
  · intro hn
    exact ⟨s, rfl, hn⟩

theorem keeps_replicate_iff {k : Nat} :
    Keeps n h (h ++ List.replicate k (some ())) ↔ k = n := by
  rw [keeps_append_iff, List.countP_replicate]
  simp

theorem alloc_eq_append (h : Heap Unit) : h.alloc () = h ++ List.replicate 1 (some ()) := rfl

/-- A block is given back as soon as it was taken. -/
theorem free_two (h : Heap Unit) :
    ((h.alloc ()).alloc ()).free h.length = .ok (h ++ [none, some ()]) := by
  have hget : ((h.alloc ()).alloc ())[h.length]? = some (some ()) := by
    rw [Heap.getElem?_alloc_of_lt (by simp)]
    exact Heap.getElem?_alloc_self
  rw [Heap.free_of_getElem? hget]
  simp [Heap.alloc]

theorem sameEntries_refl (l : CList Nat) : SameEntries l l := fun _ => rfl

theorem undone_refl (w : World) : Undone w w :=
  ⟨keeps_refl _, keeps_refl _, keeps_refl _, sameEntries_refl _, sameEntries_refl _⟩

end Keeping

/-! ## The outcomes of a call -/

/-- The handle is set only where the item was added. -/
theorem ret_of_itemIndex {l : CList Nat} {item : Nat} {malloc : Option (Nat → ListIndex Nat)}
    {r : AddResult Nat} {id : Int} (hr : listAdd l item malloc = .ok r)
    (hid : r.itemIndex = some id) : r.ret = .success := by
  unfold listAdd at hr
  split at hr
  · obtain ⟨_, -, hr⟩ := bind_eq_ok.mp hr
    obtain ⟨_, -, hr⟩ := bind_eq_ok.mp hr
    cases hr
    rfl
  · dsimp only at hr
    split at hr
    · cases hr
      cases hid
    · obtain ⟨_, -, hr⟩ := bind_eq_ok.mp hr
      split at hr
      · cases hr
      · obtain ⟨_, -, hr⟩ := bind_eq_ok.mp hr
        cases hr
        rfl

section Outcomes

variable {w w' : World} {a : Attempt} {e : Errno} {taskArgs thread : Nat} {id : Int}

theorem free_keeps {p : Nat} (hw : w.free p = .ok w') :
    w'.sems = w.sems ∧ w'.refs = w.refs ∧ w'.lthreadList = w.lthreadList := by
  obtain ⟨blocks, -, hw⟩ := bind_eq_ok.mp hw
  cases hw
  exact ⟨rfl, rfl, rfl⟩

theorem freeItem_keeps {item : Option Nat} (hw : w.freeItem item = .ok w') :
    w'.sems = w.sems ∧ w'.refs = w.refs ∧ w'.lthreadList = w.lthreadList := by
  cases item with
  | none =>
    cases hw
    exact ⟨rfl, rfl, rfl⟩
  | some p => exact free_keeps hw

/-- The semaphores stay, whether the task is created or not. -/
theorem createTask_cases (hrun : createTask w a taskArgs thread id = .ok (e, w')) :
    (e = .success ∧ w' = w ∧ a.initMtx = true ∧ a.task = .pass) ∨
      e ≠ .success ∧ w'.sems = w.sems ∧ w'.refs = w.refs := by
  unfold createTask at hrun
  split at hrun
  · cases hrun
  next hinit =>
  split at hrun
  next htask =>
    cases hrun
    exact .inl ⟨rfl, rfl, by simpa using hinit, htask⟩
  next htask =>
    right
    obtain ⟨r, -, hrun⟩ := bind_eq_ok.mp hrun
    obtain ⟨w₁, h₁, hrun⟩ := bind_eq_ok.mp hrun
    obtain ⟨w₂, h₂, hrun⟩ := bind_eq_ok.mp hrun
    obtain ⟨w₃, h₃, hrun⟩ := bind_eq_ok.mp hrun
    obtain ⟨hs₁, hr₁, -⟩ := freeItem_keeps h₁
    obtain ⟨hs₂, hr₂, -⟩ := free_keeps h₂
    obtain ⟨hs₃, hr₃, -⟩ := free_keeps h₃
    cases hrun
    refine ⟨?_, by rw [hs₃, hs₂, hs₁], by rw [hr₃, hr₂, hr₁]⟩
    split <;> decide

theorem addThread_cases (hrun : addThread w a taskArgs thread = .ok (e, w')) :
    (e = .success ∧ a.initMtx = true ∧ a.task = .pass ∧
      ∃ k l, listAdd w.threadList thread a.indexa = .ok ⟨.success, some k, l⟩ ∧
        w' = { w with threadList := l }) ∨
      e ≠ .success ∧ w'.sems = w.sems ∧ w'.refs = w.refs := by
  obtain ⟨⟨ret, index, l⟩, hadd, hrun⟩ := bind_eq_ok.mp hrun
  cases index with
  | some k =>
    have hret : ret = .success := ret_of_itemIndex hadd rfl
    subst hret
    rcases createTask_cases hrun with ⟨he, hw, hinit, htask⟩ | hfail
    · exact .inl ⟨he, hinit, htask, k, l, hadd, hw⟩
    · exact .inr hfail
  | none =>
    obtain ⟨w₁, h₁, hrun⟩ := bind_eq_ok.mp hrun
    obtain ⟨w₂, h₂, hrun⟩ := bind_eq_ok.mp hrun
    obtain ⟨hs₁, hr₁, -⟩ := free_keeps h₁
    obtain ⟨hs₂, hr₂, -⟩ := free_keeps h₂
    cases hrun
    refine .inr ⟨by decide, ?_, ?_⟩
    · rw [hs₂, hs₁]
    · rw [hr₂, hr₁]

/-- The mutexes of a thread have their semaphores, two or three of them. -/
theorem initThread_cases (hrun : initThread w a = .ok w') :
    a.joinMtx = true ∧ a.cleanMtx = true ∧
      w' = { w with sems := w.sems ++ List.replicate (if a.initMtx then 3 else 2) (some ()) } := by
  unfold initThread at hrun
  split at hrun
  · cases hrun
  next hmtx =>
  obtain ⟨hjoin, hclean⟩ := not_not.mp hmtx
  cases hrun
  refine ⟨hjoin, hclean, ?_⟩
  split <;> simp [Heap.alloc, List.replicate]

/-- The two blocks are taken. -/
def World.withThread (w : World) : World :=
  { w with blocks := (w.blocks.alloc ()).alloc () }

/-- The thread is in the list, with the semaphores of its mutexes. -/
def World.created (w : World) (l : CList Nat) : World :=
  { w.withThread with sems := w.sems ++ List.replicate 3 (some ()), threadList := l }

/-- How a call that returns has ended. -/
inductive Ended (w : World) (a : Attempt) : Errno → World → Prop where
  /-- There was no memory for the arguments, or for the thread. -/
  | noMemory (blocks : Heap Unit) : (a.taskArgs = false ∨ a.thread = false) →
      Keeps 0 w.blocks blocks → Ended w a .eagain { w with blocks := blocks }
  /-- The parent is not in the list: the thread is lost. -/
  | noParent (res : Errno) : getParent w.threadList a.self = .ok res → res ≠ .success →
      Ended w a .eagain { w with blocks := w.blocks ++ [none, some ()] }
  /-- The semaphores are lost. -/
  | lost (e : Errno) (w' : World) (n : Nat) : e ≠ .success → 2 ≤ n →
      w'.sems = w.sems ++ List.replicate n (some ()) → w'.refs = w.refs → Ended w a e w'
  | created (k : Int) (l : CList Nat) : Creates w a →
      listAdd w.threadList (w.blocks.length + 1) a.indexa = .ok ⟨.success, some k, l⟩ →
      Ended w a .success (w.created l)

/-- The cases of a call, in the order of its checks. -/
theorem pthreadCreate_ended (hrun : pthreadCreate w a = .ok (e, w')) : Ended w a e w' := by
  unfold pthreadCreate at hrun
  split at hrun
  next hargs =>
    cases hrun
    exact .noMemory w.blocks (.inl (by simpa using hargs)) (keeps_refl _)
  next hargs =>
  dsimp only at hrun
  split at hrun
  next hthread =>
    obtain ⟨w₁, h₁, hrun⟩ := bind_eq_ok.mp hrun
    cases hrun
    rw [World.free, Heap.free_alloc] at h₁
    cases h₁
    exact .noMemory _ (.inr (by simpa using hthread)) (keeps_append_iff.mpr rfl)
  next hthread =>
  obtain ⟨res, hparent, hrun⟩ := bind_eq_ok.mp hrun
  split at hrun
  next hres =>
    -- only the arguments are freed
    obtain ⟨w₁, h₁, hrun⟩ := bind_eq_ok.mp hrun
    cases hrun
    rw [World.free, free_two] at h₁
    cases h₁
    exact .noParent res hparent hres
  next hres =>
  obtain ⟨w₁, h₁, hrun⟩ := bind_eq_ok.mp hrun
  obtain ⟨hjoin, hclean, rfl⟩ := initThread_cases h₁
  rcases addThread_cases hrun with ⟨rfl, hinit, htask, k, l, hadd, rfl⟩ | ⟨he, hsems, hrefs⟩
  · rw [Heap.length_alloc] at hadd
    rw [not_not.mp hres] at hparent
    have hcreates : Creates w a :=
      ⟨⟨not_not.mp hargs, not_not.mp hthread, hparent, hjoin, hclean, hinit, k, l, hadd⟩, htask⟩
    rw [if_pos hinit]
    exact .created k l hcreates hadd
  · refine .lost e w' _ he ?_ hsems hrefs
    split <;> omega

/-- A call that is prepared comes to the creation of the task. -/
theorem pthreadCreate_prepared (h : Prepared w a) {k : Int} {l : CList Nat}
    (hadd : listAdd w.threadList (w.blocks.length + 1) a.indexa = .ok ⟨.success, some k, l⟩) :
    pthreadCreate w a = createTask (w.created l) a w.blocks.length (w.blocks.length + 1) k := by
  have hsems : initThread w.withThread a =
      .ok { w.withThread with sems := w.sems ++ List.replicate 3 (some ()) } := by
    rw [initThread, if_neg (by simp [h.joinMtx, h.cleanMtx])]
    simp [h.initMtx, World.withThread, Heap.alloc, List.replicate]
  rw [pthreadCreate, if_neg (by simp [h.taskArgs])]
  dsimp only
  rw [if_neg (by simp [h.thread]), h.parent, ok_bind, if_neg (by simp), Heap.length_alloc]
  change (initThread w.withThread a >>= fun w₁ => addThread w₁ a _ _) = _
  rw [hsems, ok_bind, addThread]
  change (listAdd w.threadList _ a.indexa >>= _) = _
  rw [hadd]
  rfl

/-- Where nothing fails the thread is created. -/
theorem pthreadCreate_created (h : Creates w a) :
    ∃ l, pthreadCreate w a = .ok (.success, w.created l) := by
  obtain ⟨k, l, hadd⟩ := h.added
  refine ⟨l, ?_⟩
  rw [pthreadCreate_prepared h.toPrepared hadd, createTask, if_neg (by simp [h.initMtx]),
    if_pos h.task]
  rfl

/-- The thread that `list_remove` has freed is freed once more: no task that is refused is
    reported. -/
theorem pthreadCreate_doubleFree {m : ListMap Nat} (hl : Refines w.threadList m)
    (h : Prepared w a) (htask : a.task ≠ .pass) :
    pthreadCreate w a = .error .useAfterFree := by
  obtain ⟨k, l, hadd⟩ := h.added
  have hrefines : Refines l (m.insert k (w.blocks.length + 1)) := by
    rcases hl.listAdd_cases hadd with ⟨k', l', heq, -, href⟩ | herr
    · cases heq
      exact href
    · cases herr
  obtain ⟨l', hremove, -⟩ := hrefines.listRemove_lookup (Finmap.lookup_insert m)
  have hthread : (w.created l).blocks.free (w.blocks.length + 1) =
      .ok (w.blocks.alloc () ++ [none]) := by
    rw [← Heap.length_alloc (a := ())]
    exact Heap.free_alloc
  have hargs : (w.blocks.alloc () ++ [none]).free w.blocks.length =
      .ok (w.blocks ++ [none, none]) := by
    rw [Heap.free_of_getElem? (a := ()) (by simp [Heap.alloc])]
    simp [Heap.alloc]
  have hagain : (w.blocks ++ [none, none]).free (w.blocks.length + 1) = .error .useAfterFree := by
    simp [Heap.free]
  rw [pthreadCreate_prepared h hadd, createTask, if_neg (by simp [h.initMtx]), if_neg htask]
  change (listRemove l k true >>= _) = _
  rw [hremove, ok_bind, World.freeItem, World.free]
  change ((w.created l).blocks.free (w.blocks.length + 1) >>= _) >>= _ = _
  rw [hthread]
  change ((w.blocks.alloc () ++ [none]).free w.blocks.length >>= _) >>= _ = _
  rw [hargs]
  change ((w.blocks ++ [none, none]).free (w.blocks.length + 1) >>= _) >>= _ = _
  rw [hagain]
  rfl

/-- Without memory for one of the blocks nothing is kept. -/
theorem pthreadCreate_noMemory (h : a.taskArgs = false ∨ a.thread = false) :
    CreateAtomic w a := by
  by_cases hargs : a.taskArgs = true
  · have hthread : a.thread = false := by
      rcases h with h | h
      · rw [h] at hargs
        cases hargs
      · exact h
    refine ⟨.eagain, { w with blocks := w.blocks ++ [none] }, ?_, fun _ => ?_⟩
    · rw [pthreadCreate, if_neg (by simp [hargs])]
      dsimp only
      rw [if_pos (by simp [hthread]), World.free, Heap.free_alloc]
      rfl
    · exact ⟨keeps_append_iff.mpr rfl, keeps_refl _, keeps_refl _, sameEntries_refl _,
        sameEntries_refl _⟩
  · refine ⟨.eagain, w, ?_, fun _ => undone_refl w⟩
    rw [pthreadCreate, if_pos hargs]
    rfl

/-- The call undoes what it did where it fails at its first two blocks, and nowhere else. -/
theorem createAtomic_iff (w : World) (a : Attempt) :
    CreateAtomic w a ↔ a.taskArgs = false ∨ a.thread = false ∨ Creates w a := by
  rw [← or_assoc]
  constructor
  · rintro ⟨e, w', hrun, hundone⟩
    cases pthreadCreate_ended hrun with
    | noMemory blocks hmem _ => exact .inl hmem
    | noParent res _ _ =>
      have hkept := (hundone (by decide)).blocks
      exact absurd (keeps_append_iff.mp hkept) (by decide)
    | lost _ _ n he hn hsems _ =>
      have hkept := (hundone he).sems
      rw [hsems, keeps_replicate_iff] at hkept
      omega
    | created k l hcreates _ => exact .inr hcreates
  · rintro (hmem | hcreates)
    · exact pthreadCreate_noMemory hmem
    · obtain ⟨l, hrun⟩ := pthreadCreate_created hcreates
      exact ⟨.success, _, hrun, fun he => absurd rfl he⟩

end Outcomes

end LuaRtos.Pthread
