/-
  LuaRtos.CLib.Basic

  What a piece of C may do besides returning a value: it may leave the
  behaviour the language defines.  `Result` is the outcome of such a piece;
  its error is a `Fault`, so that "no undefined behaviour" is the statement
  that a run is `.ok`, and a run that is `.ok` has read and written only
  inside the objects it owns.

  Memory blocks are byte lists.  A `char *` into the middle of a block is the
  list of bytes from the pointer to the end of the block, so that reading
  past the end is `Fault.outOfBounds` and not a made-up value.
-/

import Mathlib.Data.List.Basic

namespace LuaRtos.CLib

/-- How a run of C code can leave defined behaviour. -/
inductive Fault where
  /-- A null pointer was dereferenced. -/
  | nullDeref
  /-- A read or a write outside the object the pointer points into. -/
  | outOfBounds
  /-- An access through a pointer into a block that was freed. -/
  | useAfterFree
  /-- The loop did not end within the steps it was given. -/
  | diverged
  /-- An operation the language gives no result: a shift by more than the width,
      a read of a variable that was never written. -/
  | undefined
deriving DecidableEq, Repr

/-- The outcome of a run of C code: a value, or a fault. -/
abbrev Result (α : Type) := Except Fault α

/-- The `int` that a call returns: zero, or one of the `errno.h` codes. -/
inductive Errno where
  | success
  | eagain
  | ebusy
  | einval
  | enametoolong
  | enomem
  | enotdir
  | esrch
  | etimedout
deriving DecidableEq, Repr

/-- A `char` in memory. -/
abbrev Byte := BitVec 8

/-- Read the byte at offset `i` of a block. -/
def load (block : List Byte) (i : Nat) : Result Byte :=
  match block[i]? with
  | some c => .ok c
  | none => .error .outOfBounds

/-- Write the byte at offset `i` of a block. -/
def store (block : List Byte) (i : Nat) (c : Byte) : Result (List Byte) :=
  if i < block.length then .ok (block.set i c) else .error .outOfBounds

/-- `*p` for a pointer given by the bytes from it to the end of its block. -/
def deref : List Byte → Result Byte
  | [] => .error .outOfBounds
  | c :: _ => .ok c

/-! ## The monad of runs -/

section Result

variable {α β : Type}

@[simp] theorem ok_bind (a : α) (f : α → Result β) :
    ((Except.ok a : Result α) >>= f) = f a := rfl

@[simp] theorem error_bind (e : Fault) (f : α → Result β) :
    ((Except.error e : Result α) >>= f) = .error e := rfl

@[simp] theorem pure_eq_ok (a : α) : (pure a : Result α) = .ok a := rfl

@[simp] theorem throw_eq_error (e : Fault) : (throw e : Result α) = .error e := rfl

/-- A sequence of two runs ends well exactly when both do. -/
theorem bind_eq_ok {x : Result α} {f : α → Result β} {b : β} :
    (x >>= f) = .ok b ↔ ∃ a, x = .ok a ∧ f a = .ok b := by
  cases x with
  | error e => simp
  | ok a => simp

theorem toOption_eq_some {x : Result α} {a : α} : x.toOption = some a ↔ x = .ok a := by
  cases x with
  | error e => simp [Except.toOption]
  | ok b => simp [Except.toOption]

theorem toOption_map_eq_some {x : Result α} {f : α → β} {b : β} :
    x.toOption.map f = some b ↔ ∃ a, x = .ok a ∧ f a = b := by
  simp [toOption_eq_some]

end Result

/-! ## Loads and stores -/

theorem load_append (pre post : List Byte) (c : Byte) :
    load (pre ++ c :: post) pre.length = .ok c := by
  simp [load]

theorem store_append (pre post : List Byte) (c d : Byte) :
    store (pre ++ c :: post) pre.length d = .ok (pre ++ d :: post) := by
  simp [store]

end LuaRtos.CLib
