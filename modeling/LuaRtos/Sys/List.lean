/-
  LuaRtos.Sys.List

  The handle list of sys/list.c: an array of slots that is reallocated as it
  grows, with the removed slots threaded into a free chain by pointers into
  that array.

  A pointer to a slot names the array it points into (`IndexPtr.block`), so a
  pointer kept across a reallocation is a `Fault.useAfterFree` when it is
  followed, and a slot number past the end is a `Fault.outOfBounds`.  `malloc`
  is an argument of `listAdd`: `none` when it returns NULL, else the bytes
  the new block happens to hold.

  Every operation runs between `mtx_lock` and `mtx_unlock` of the list's own
  mutex, so each is one step for the other threads; the mutex is left out.
-/

import LuaRtos.CLib.Basic

namespace LuaRtos.Sys

open LuaRtos.CLib

/-- A `struct list_index *`: the array it points into, and the slot. -/
structure IndexPtr where
  block : Nat
  slot : Nat
deriving DecidableEq, Repr

/-- `struct list_index`. -/
structure ListIndex (α : Type) where
  item : α
  index : UInt8
  deleted : UInt8
  next : Option IndexPtr
deriving DecidableEq, Repr

/-- The array `list->index` points to. -/
structure IndexArray (α : Type) where
  block : Nat
  slots : List (ListIndex α)
deriving DecidableEq, Repr

/-- `struct list`. -/
structure CList (α : Type) where
  index : Option (IndexArray α)
  free : Option IndexPtr
  indexes : UInt8
  firstIndex : UInt8
deriving DecidableEq, Repr

/-- What `list_add` gives back: its return value, `*item_index`, the list. -/
structure AddResult (α : Type) where
  ret : Errno
  itemIndex : Option Int
  list : CList α
deriving DecidableEq, Repr

/-- What `list_remove` gives back: its return value, the item it passed to
    `free`, the list. -/
structure RemoveResult (α : Type) where
  ret : Errno
  freed : Option α
  list : CList α
deriving DecidableEq, Repr

variable {α : Type}

namespace CList

/-- The slots of the list, none before the first allocation. -/
def slots (l : CList α) : List (ListIndex α) :=
  match l.index with
  | none => []
  | some a => a.slots

/-- `list->index[i]`. -/
def slotAt (l : CList α) (i : Nat) : Result (ListIndex α) :=
  match l.index with
  | none => throw .nullDeref
  | some a =>
    match a.slots[i]? with
    | none => throw .outOfBounds
    | some e => pure e

/-- `list->index[i] = e`. -/
def setSlot (l : CList α) (i : Nat) (e : ListIndex α) : Result (CList α) :=
  match l.index with
  | none => throw .nullDeref
  | some a =>
    if i < a.slots.length then
      pure { l with index := some { a with slots := a.slots.set i e } }
    else throw .outOfBounds

/-- `&list->index[i]`. -/
def addr (l : CList α) (i : Nat) : Option IndexPtr :=
  l.index.map fun a => ⟨a.block, i⟩

/-- `*p` for a pointer that was kept: it must point into the present array. -/
def deref (l : CList α) (p : IndexPtr) : Result (ListIndex α) :=
  match l.index with
  | none => throw .useAfterFree
  | some a => if p.block = a.block then l.slotAt p.slot else throw .useAfterFree

end CList

/-- `list_init`. -/
def listInit (firstIndex : Int) : CList α where
  index := none
  free := none
  indexes := 0
  firstIndex := UInt8.ofInt firstIndex

/-- The array that replaces `list->index` when the list grows to `indexes`
    slots: `bcopy` of the first `indexes - 1` slots over what the new block
    holds.  The count is computed as an `int`, so with `indexes = 0` it is
    `-1`, and as a `size_t` it runs past both blocks. -/
def growArray (old : Option (IndexArray α)) (indexes : UInt8) (mem : Nat → ListIndex α) :
    Result (IndexArray α) :=
  let fresh := (List.range indexes.toNat).map mem
  match old with
  | none => pure ⟨0, fresh⟩
  | some a =>
    if indexes = 0 ∨ a.slots.length < indexes.toNat - 1 then throw .outOfBounds
    else
      let n := indexes.toNat - 1
      pure ⟨a.block + 1, a.slots.take n ++ fresh.drop n⟩

/-- `list_add`. -/
def listAdd (l : CList α) (item : α) (malloc : Option (Nat → ListIndex α)) :
    Result (AddResult α) :=
  match l.free with
  | some p => do
    -- Get first free element
    let index ← l.deref p
    let l := { l with free := index.next }
    let l ← l.setSlot p.slot { index with next := none, item := item, deleted := 0 }
    pure ⟨.success, some (index.index.toNat + l.firstIndex.toNat), l⟩
  | none =>
    -- Must grow index array
    let indexes : UInt8 := l.indexes + 1
    match malloc with
    | none => pure ⟨.enomem, none, { l with indexes := indexes }⟩
    | some mem => do
      let indexa ← growArray l.index indexes mem
      -- `list->index + list->indexes - 1` is the slot before the block when
      -- the counter has wrapped
      if indexes = 0 then throw .outOfBounds
      else
        let last : UInt8 := indexes - 1
        let l ← { l with index := some indexa, indexes := indexes }.setSlot last.toNat
          { item := item, index := last, deleted := 0, next := none }
        pure ⟨.success, some (last.toNat + l.firstIndex.toNat), l⟩

/-- `list_get`: the return value and `*item`. -/
def listGet (l : CList α) (index : Int) : Result (Errno × Option α) :=
  if l.indexes = 0 then pure (.einval, none)
  else if index < l.firstIndex.toNat then pure (.einval, none)
  else
    let iindex := index - l.firstIndex.toNat
    -- Test for a valid index
    if iindex > l.indexes.toNat then pure (.einval, none)
    else do
      let cindex ← l.slotAt iindex.toNat
      if cindex.deleted ≠ 0 then pure (.einval, none)
      else pure (.success, some cindex.item)

/-- `list_remove`. -/
def listRemove (l : CList α) (index : Int) (destroy : Bool) : Result (RemoveResult α) :=
  if index < l.firstIndex.toNat then pure ⟨.einval, none, l⟩
  else
    let iindex := index - l.firstIndex.toNat
    -- Test for a valid index
    if iindex < 0 ∨ iindex > l.indexes.toNat then pure ⟨.einval, none, l⟩
    else do
      let cindex ← l.slotAt iindex.toNat
      let freed := if destroy then some cindex.item else none
      let l' ← l.setSlot iindex.toNat { cindex with next := l.free, deleted := 1 }
      pure ⟨.success, freed, { l' with free := l.addr iindex.toNat }⟩

/-- The loop of `list_first` and `list_next`: the first slot from `i` on, of
    the `n` slots left, that is not deleted. -/
def scanLive (l : CList α) : Nat → Nat → Result (Option Nat)
  | 0, _ => pure none
  | n + 1, i => do
    let e ← l.slotAt i
    if e.deleted = 0 then pure (some i) else scanLive l n (i + 1)

/-- A slot number as a handle, `-1` for none. -/
def handleOf (l : CList α) : Option Nat → Int
  | none => -1
  | some i => i + l.firstIndex.toNat

/-- `list_first`. -/
def listFirst (l : CList α) : Result Int := do
  let i ← scanLive l l.indexes.toNat 0
  pure (handleOf l i)

/-- `list_next`. -/
def listNext (l : CList α) (index : Int) : Result Int :=
  if index < l.firstIndex.toNat then pure (-1)
  else do
    let iindex := (index - l.firstIndex.toNat + 1).toNat
    let i ← scanLive l (l.indexes.toNat - iindex) iindex
    pure (handleOf l i)

/-- The items of the `n` slots from `i` on that are not deleted. -/
def liveItems (l : CList α) : Nat → Nat → Result (List α)
  | 0, _ => pure []
  | n + 1, i => do
    let e ← l.slotAt i
    let rest ← liveItems l n (i + 1)
    pure (if e.deleted = 0 then e.item :: rest else rest)

/-- `list_destroy`: the items it passes to `free`.  The array and the mutex of
    the list go with it. -/
def listDestroy (l : CList α) (items : Bool) : Result (List α) :=
  if items then liveItems l l.indexes.toNat 0 else pure []

end LuaRtos.Sys
