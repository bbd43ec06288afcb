/-
  LuaRtos.Lua.Cache

  The cache of Lua/common/cache.c: ROTABLE_CACHE_LENGTH entries in a doubly
  linked list, each with a table and an entry of that table.

  A pointer to a cache entry is its index, since all of them come from one
  `calloc`; NULL is none.  `T` and `E` stand for the addresses of the tables and
  of their entries, `strkey` for the string an entry has as its key.
-/

import LuaRtos.CLib.DList
import Mathlib.Logic.Function.Basic

namespace LuaRtos.Rotable

open LuaRtos.CLib

/-- ROTABLE_CACHE_LENGTH. -/
def rotableCacheLength : Nat := 8

/-- A pointer to a cache entry. -/
abbrev Slot := Fin rotableCacheLength

/-- `struct rotable_cache_entry`. -/
structure CacheEntry (T E : Type) where
  previous : Option Slot
  next : Option Slot
  rotable : Option T
  entry : Option E
  used : BitVec 32
deriving DecidableEq, Repr

/-- `rotable_cache_t`, with the entries behind its pointers. -/
structure Cache (T E : Type) where
  entries : Slot → CacheEntry T E
  first : Option Slot
  last : Option Slot
  hit : BitVec 32
  miss : BitVec 32

/-- The pointer is followed. -/
def nonNull (p : Option Slot) : Result Slot :=
  match p with
  | some s => pure s
  | none => throw .nullDeref

section Calls

variable {T E K : Type}

namespace Cache

/-- One cache entry is written. -/
def modify (c : Cache T E) (s : Slot) (f : CacheEntry T E → CacheEntry T E) : Cache T E :=
  { c with entries := Function.update c.entries s (f (c.entries s)) }

/-- `s->next = p`. -/
def setNext (c : Cache T E) (s : Slot) (p : Option Slot) : Cache T E :=
  c.modify s fun e => { e with next := p }

/-- `s->previous = p`. -/
def setPrevious (c : Cache T E) (s : Slot) (p : Option Slot) : Cache T E :=
  c.modify s fun e => { e with previous := p }

end Cache

/-- `rotable_cache_init` on the cache as it is at the start of the program; `mem`
    is whether `calloc` finds memory. -/
def rotableCacheInit (mem : Bool) : Int × Cache T E :=
  if mem then
    let entry (s : Slot) : CacheEntry T E :=
      { previous := if s.val = 0 then none else some ⟨s.val - 1, by omega⟩
        next := if h : s.val + 1 < rotableCacheLength then some ⟨s.val + 1, h⟩ else none
        rotable := none, entry := none, used := 0 }
    (0, ⟨entry, some ⟨0, by decide⟩, some ⟨rotableCacheLength - 1, by decide⟩, 0, 0⟩)
  else (1, ⟨fun _ => ⟨none, none, none, none, 0⟩, none, none, 0, 0⟩)

/-- Promote this entry to the head. -/
def promote (c : Cache T E) (entry : Slot) : Result (Cache T E) :=
  if c.first = some entry then pure c
  else if c.last ≠ some entry then do
    let previous ← nonNull (c.entries entry).previous
    let c := c.setNext previous (c.entries entry).next
    let next ← nonNull (c.entries entry).next
    let c := c.setPrevious next (c.entries entry).previous
    let first ← nonNull c.first
    let c := c.setPrevious first entry
    -- the entry keeps its own `previous`
    let c := c.setNext entry c.first
    pure { c with first := entry }
  else do
    let last ← nonNull c.last
    let previous ← nonNull (c.entries last).previous
    let c := c.setNext previous none
    let c := { c with last := (c.entries last).previous }
    let c := c.setNext entry c.first
    let c := c.setPrevious entry none
    let first ← nonNull c.first
    let c := c.setPrevious first entry
    pure { c with first := entry }

variable [DecidableEq T] [DecidableEq K] (strkey : E → K)

/-- The test of `rotable_cache_get` on one cache entry. -/
def cached (c : Cache T E) (rotable : T) (key : K) (s : Slot) : Result Bool :=
  if (c.entries s).rotable = some rotable then
    match (c.entries s).entry with
    | some e => pure (decide (strkey e = key))
    | none => throw .nullDeref
  else pure false

/-- `rotable_cache_get`: the entry whose value it points to. -/
def rotableCacheGet (c : Cache T E) (rotable : T) (key : K) :
    Result (Option E × Cache T E) := do
  let found ← walk (fun s => (c.entries s).next) (cached strkey c rotable key)
    rotableCacheLength c.first
  match found with
  | some entry => do
    -- hit
    let c := { c with hit := c.hit + 1 }
    let c := c.modify entry fun e => { e with used := e.used + 1 }
    let c ← promote c entry
    pure ((c.entries entry).entry, c)
  | none => pure (none, { c with miss := c.miss + 1 })

omit [DecidableEq T] in
/-- `rotable_cache_put`. -/
def rotableCachePut (c : Cache T E) (rotable : T) (entry : E) : Result (Cache T E) := do
  let first ← nonNull c.last
  let second ← nonNull c.first
  let last ← nonNull (c.entries first).previous
  let c := c.setNext first second
  let c := c.setPrevious first none
  let c := c.setPrevious second first
  let c := c.setNext last none
  let c := c.modify first fun e => { e with rotable := rotable, entry := entry }
  let c := { c with first := first }
  let c := c.modify first fun e => { e with used := 1 }
  pure { c with last := last }

end Calls

end LuaRtos.Rotable
