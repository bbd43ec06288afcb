/-
  LuaRtos.Pthread.Key

  Thread specific data of pthread/key.c: the list of keys, the key blocks with
  their lists of values, and the four calls, one atomic step for each use of a
  shared list.

  A key is looked up under the mutex of the key list and used after that mutex
  is released, so a call of another thread can come in between: it is only the
  list operations that are atomic.
-/

import Mathlib.Logic.Function.Basic
import LuaRtos.Lts.Run
import LuaRtos.Sys.ListFailure

namespace LuaRtos.Pthread

open LuaRtos.CLib LuaRtos.Sys

/-- A `void *` of user code; NULL is zero. -/
abbrev Ptr := BitVec 32

/-- `struct pthread_key_specific`. -/
structure KeySpecific (Tid : Type) where
  thread : Tid
  value : Ptr

/-- `struct pthread_key`; its list holds addresses of `KeySpecific` blocks. -/
structure Key where
  specific : CList Nat
  destructor : Ptr

/-- Where a thread is inside one of the calls, with its local variables. -/
inductive KeyPc where
  /-- Outside of the calls. -/
  | idle
  /-- `pthread_getspecific` has the key and is before `list_first`. -/
  | getFirst (k : Int) (key : Nat)
  /-- In the loop, before `list_get`. -/
  | getItem (k : Int) (key : Nat) (index : Int) (specific : Option Nat)
  /-- In the loop, before `list_next`. -/
  | getNext (k : Int) (key : Nat) (index : Int) (specific : Option Nat)
  /-- `pthread_key_delete` has looked the key up and is before `list_remove`. -/
  | delRemove (k : Int)
deriving DecidableEq

/-- The memory of the calls: `key_list`, and the blocks in use by address. -/
structure KeyMem (Tid : Type) where
  keyList : CList Nat
  keys : Nat → Option Key
  specifics : Nat → Option (KeySpecific Tid)

variable {Tid : Type} [DecidableEq Tid]

/-! ## The calls -/

/-- `*p` for the address of a block that may have been freed. -/
def derefBlock {β : Type} (blocks : Nat → Option β) (p : Nat) : Result β :=
  match blocks p with
  | some b => pure b
  | none => throw .useAfterFree

/-- `pthread_key_create`: the error, and `*k`. -/
def pthreadKeyCreate (m : KeyMem Tid) (destructor : Ptr) (malloc : Option Nat)
    (grow : Option (Nat → ListIndex Nat)) : Result (Errno × Option Int × KeyMem Tid) :=
  match malloc with
  | none => pure (.enomem, none, m)
  | some key => do
    let keys := Function.update m.keys key (some ⟨listInit 1, destructor⟩)
    let r ← listAdd m.keyList key grow
    if r.ret ≠ .success then
      pure (r.ret, none, { m with keyList := r.list, keys := Function.update keys key none })
    else pure (.success, r.itemIndex, { m with keyList := r.list, keys := keys })

/-- `pthread_setspecific`: the block is filled and not linked anywhere. -/
def pthreadSetspecific (m : KeyMem Tid) (self : Tid) (k : Int) (value : Ptr)
    (malloc : Option Nat) : Result (Errno × KeyMem Tid) := do
  let (res, _) ← listGet m.keyList k
  if res ≠ .success then pure (res, m)
  else
    match malloc with
    | none => pure (.enomem, m)
    | some specific =>
      pure (.success,
        { m with specifics := Function.update m.specifics specific (some ⟨self, value⟩) })

/-- What a step inside a call comes to: the return of a value, or the next
    place. -/
inductive Outcome where
  | ret (value : Ptr)
  | next (pc : KeyPc)
deriving DecidableEq

/-- `while (index >= 0)` in `pthread_getspecific`. -/
def loopTest (k : Int) (key : Nat) (index : Int) (specific : Option Nat) : Outcome :=
  if 0 ≤ index then .next (.getItem k key index specific) else .ret 0

/-- The first step of `pthread_getspecific`. -/
def getspecificStart (m : KeyMem Tid) (k : Int) : Result Outcome := do
  match ← listGet m.keyList k with
  | (.success, some key) => pure (.next (.getFirst k key))
  | _ => pure (.ret 0)

/-- The later steps of `pthread_getspecific`.  When `list_get` fails the local
    pointer is what it was before, at first not initialized. -/
def getspecificStep (m : KeyMem Tid) (self : Tid) : KeyPc → Result Outcome
  | .getFirst k key => do
    let b ← derefBlock m.keys key
    let index ← listFirst b.specific
    pure (loopTest k key index none)
  | .getItem k key index specific => do
    let b ← derefBlock m.keys key
    let (_, item) ← listGet b.specific index
    match item.or specific with
    | none => throw .nullDeref
    | some p => do
      let s ← derefBlock m.specifics p
      if s.thread = self then pure (.ret s.value)
      else pure (.next (.getNext k key index (some p)))
  | .getNext k key index specific => do
    let b ← derefBlock m.keys key
    let index ← listNext b.specific index
    pure (loopTest k key index specific)
  | pc => pure (.next pc)

/-- The first step of `pthread_key_delete`. -/
def keyDeleteStart (m : KeyMem Tid) (k : Int) : Result (Errno × KeyPc) := do
  let (res, _) ← listGet m.keyList k
  if res ≠ .success then pure (res, .idle) else pure (.success, .delRemove k)

/-- `list_remove(&key_list, k, 1)` in `pthread_key_delete`: what it frees must
    be a block in use. -/
def keyDeleteRemove (m : KeyMem Tid) (k : Int) : Result (KeyMem Tid) := do
  let r ← listRemove m.keyList k true
  match r.freed with
  | none => pure { m with keyList := r.list }
  | some key => do
    let _ ← derefBlock m.keys key
    pure { m with keyList := r.list, keys := Function.update m.keys key none }

/-! ## The system -/

/-- The memory, where the threads are, and what the calls should have stored:
    the live keys, and the value last set for a key by a thread, NULL when
    there is none. -/
structure KeyState (Tid : Type) where
  mem : KeyMem Tid
  pc : Tid → KeyPc
  live : ListMap Nat
  vals : Int → Tid → Ptr

/-- A step of a thread. -/
inductive KeyAct (Tid : Type) where
  | create (destructor : Ptr) (malloc : Option Nat) (grow : Option (Nat → ListIndex Nat))
  | set (self : Tid) (k : Int) (value : Ptr) (malloc : Option Nat)
  | getStart (self : Tid) (k : Int)
  | getStep (self : Tid)
  | delStart (self : Tid) (k : Int)
  | delRemove (self : Tid) (k : Int)

/-- The steps that return.  `malloc` returns a block that is not in use. -/
inductive KeyStep : KeyState Tid → KeyAct Tid → KeyState Tid → Prop
  | create {s : KeyState Tid} {d : Ptr} {key : Nat} {grow : Option (Nat → ListIndex Nat)} {k : Int}
      {m : KeyMem Tid} (hfresh : s.mem.keys key = none)
      (h : pthreadKeyCreate s.mem d (some key) grow = .ok (.success, some k, m)) :
      KeyStep s (.create d (some key) grow)
        { s with mem := m, live := s.live.insert k key,
                 vals := Function.update s.vals k fun _ => 0 }
  | createFails {s : KeyState Tid} {d : Ptr} {malloc : Option Nat}
      {grow : Option (Nat → ListIndex Nat)} {e : Errno} {k : Option Int} {m : KeyMem Tid}
      (hfresh : ∀ key, malloc = some key → s.mem.keys key = none)
      (h : pthreadKeyCreate s.mem d malloc grow = .ok (e, k, m)) (he : e ≠ .success) :
      KeyStep s (.create d malloc grow) { s with mem := m }
  | set {s : KeyState Tid} {t : Tid} {k : Int} {value : Ptr} {malloc : Option Nat} {m : KeyMem Tid}
      (hidle : s.pc t = .idle) (h : pthreadSetspecific s.mem t k value malloc = .ok (.success, m)) :
      KeyStep s (.set t k value malloc)
        { s with mem := m,
                 vals := Function.update s.vals k (Function.update (s.vals k) t value) }
  | setFails {s : KeyState Tid} {t : Tid} {k : Int} {value : Ptr} {malloc : Option Nat} {e : Errno}
      {m : KeyMem Tid} (hidle : s.pc t = .idle)
      (h : pthreadSetspecific s.mem t k value malloc = .ok (e, m)) (he : e ≠ .success) :
      KeyStep s (.set t k value malloc) { s with mem := m }
  | getStart {s : KeyState Tid} {t : Tid} {k : Int} {pc : KeyPc} (hidle : s.pc t = .idle)
      (h : getspecificStart s.mem k = .ok (.next pc)) :
      KeyStep s (.getStart t k) { s with pc := Function.update s.pc t pc }
  | getStartReturns {s : KeyState Tid} {t : Tid} {k : Int} {v : Ptr} (hidle : s.pc t = .idle)
      (h : getspecificStart s.mem k = .ok (.ret v)) : KeyStep s (.getStart t k) s
  | getStep {s : KeyState Tid} {t : Tid} {pc : KeyPc}
      (h : getspecificStep s.mem t (s.pc t) = .ok (.next pc)) :
      KeyStep s (.getStep t) { s with pc := Function.update s.pc t pc }
  | getReturns {s : KeyState Tid} {t : Tid} {v : Ptr}
      (h : getspecificStep s.mem t (s.pc t) = .ok (.ret v)) :
      KeyStep s (.getStep t) { s with pc := Function.update s.pc t .idle }
  | delStart {s : KeyState Tid} {t : Tid} {k : Int} {e : Errno} {pc : KeyPc}
      (hidle : s.pc t = .idle) (h : keyDeleteStart s.mem k = .ok (e, pc)) :
      KeyStep s (.delStart t k) { s with pc := Function.update s.pc t pc }
  | delRemove {s : KeyState Tid} {t : Tid} {k : Int} {m : KeyMem Tid}
      (hpc : s.pc t = .delRemove k) (h : keyDeleteRemove s.mem k = .ok m) :
      KeyStep s (.delRemove t k)
        { s with mem := m, pc := Function.update s.pc t .idle, live := s.live.erase k }

/-- The state that `_pthread_init` leaves. -/
def keyInit : KeyState Tid where
  mem := ⟨listInit 1, fun _ => none, fun _ => none⟩
  pc := fun _ => .idle
  live := ∅
  vals := fun _ _ => 0

/-- The interleavings of the calls of any number of threads. -/
def keySys (Tid : Type) [DecidableEq Tid] : Lts (KeyState Tid) (KeyAct Tid) where
  init s := s = keyInit
  step := KeyStep

end LuaRtos.Pthread
