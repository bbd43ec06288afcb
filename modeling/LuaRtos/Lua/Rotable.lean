/-
  LuaRtos.Lua.Rotable

  The lookups of Lua/common/lrotable.c in read-only tables, as they are built
  without the cache and with it.

  A table is the list of the keys of its entries, up to the LRO_NILKEY that ends
  it; values are not looked at, and a pointer to one is the place of its entry.
  A string is the bytes before its NUL.
-/

import LuaRtos.Lua.Cache

namespace LuaRtos.Rotable

open LuaRtos.CLib

/-- `luaR_key`, as the macros LRO_STRKEY, LRO_NUMKEY and LRO_NILKEY build it. -/
inductive LuaRKey where
  | str (s : List Byte)
  | num (n : Int)
  | nil
deriving DecidableEq, Repr

/-- The field `type` is LUA_TSTRING. -/
def LuaRKey.isString : LuaRKey → Bool
  | .str _ => true
  | .num _ | .nil => false

/-- The field `len`. -/
def LuaRKey.len : LuaRKey → Int
  | .str s => s.length
  | .num _ | .nil => -1

/-- The field `id.strkey`, where it points to a string. -/
def LuaRKey.strkey : LuaRKey → Option (List Byte)
  | .str s => some s
  | .num _ | .nil => none

/-- `id.strkey` is NULL; the number 0 lies in the same place. -/
def LuaRKey.isNull : LuaRKey → Bool
  | .str _ => false
  | .num n => n = 0
  | .nil => true

/-- `key.len == kl && !strncmp(key.id.strkey, k, kl)`. -/
def LuaRKey.isKey (key : LuaRKey) (k : List Byte) : Bool :=
  key.len = k.length && key.strkey.map (List.take k.length) = some (k.take k.length)

/-- The loop over the entries of a table, from index `i` on: the entry it stops
    at, and the count. -/
def scan (test : Nat → LuaRKey → Bool) : List LuaRKey → Nat → Option Nat × Nat
  | [], i => (none, i)
  | key :: rest, i =>
    if key.isNull then (none, i)
    else if test i key then (some i, i)
    else scan test rest (i + 1)

/-- A `const TValue *`. -/
inductive ValuePtr (T : Type) where
  /-- The value of an entry of a table. -/
  | value (rotable : T) (index : Nat)
  /-- `luaO_nilobject`. -/
  | nilObject
  | null
deriving DecidableEq, Repr

/-- What a lookup gives back: its result, and `*ppos` if there is one. -/
structure Answer (T : Type) where
  res : ValuePtr T
  ppos : Option Nat
deriving DecidableEq, Repr

/-- A call of `luaR_findglobal` or `luaR_findentry`; `ppos` is what `*ppos` holds
    before, none for a NULL pointer. -/
inductive Lookup (T : Type) where
  | findglobal (name : List Byte)
  | findentry (pentry : Option T) (strkey : Option (List Byte)) (numkey : Int)
      (ppos : Option Nat)
deriving DecidableEq, Repr

section Calls

variable {T : Type} (tables : T → List LuaRKey) (luaRotable : T)

/-- The loop of `luaR_auxfind` for a string key. -/
def scanString (pentry : T) (k : List Byte) : Option Nat × Nat :=
  scan (fun _ key => key.isString && key.isKey k) (tables pentry) 0

/-- The loop of `luaR_findglobal`. -/
def scanGlobal (name : List Byte) : Option Nat × Nat :=
  scan (fun _ key => key.isKey name) (tables luaRotable) 0

/-- The branch of `luaR_auxfind` for a number key, which takes it as an index. -/
def auxfindNumber (pentry : T) (nk : Int) (ppos : Option Nat) : Answer T :=
  let (found, i) := scan (fun i _ => decide ((i : Int) = nk)) (tables pentry) 0
  ⟨(found.map (ValuePtr.value pentry)).getD .nilObject, ppos.map fun _ => i⟩

/-! ## Without the cache -/

/-- `luaR_auxfind`; `luaO_nilobject` is not NULL, so `*ppos` is always set. -/
def luaRAuxfind (pentry : T) (k : Option (List Byte)) (nk : Int) (ppos : Option Nat) :
    Answer T :=
  match k with
  | some k =>
    let (found, i) := scanString tables pentry k
    ⟨(found.map (ValuePtr.value pentry)).getD .nilObject, ppos.map fun _ => i⟩
  | none => auxfindNumber tables pentry nk ppos

/-- `luaR_findglobal`. -/
def luaRFindglobal (name : List Byte) : ValuePtr T :=
  (((scanGlobal tables luaRotable name).1).map (ValuePtr.value luaRotable)).getD .null

/-- A lookup. -/
def Lookup.plain : Lookup T → Answer T
  | .findglobal name => ⟨luaRFindglobal tables luaRotable name, none⟩
  | .findentry pentry k nk ppos => luaRAuxfind tables (pentry.getD luaRotable) k nk ppos

/-! ## With the cache -/

/-- An entry of a table, and the string that is its key. -/
def entryKey (e : T × Nat) : Option (List Byte) :=
  (tables e.1)[e.2]?.bind LuaRKey.strkey

variable [DecidableEq T]

/-- `luaR_auxfind`. -/
def luaRAuxfindCached (c : Cache T (T × Nat)) (pentry : T) (k : Option (List Byte)) (nk : Int)
    (ppos : Option Nat) : Result (Answer T × Cache T (T × Nat)) :=
  match k with
  | some k => do
    let (res, c) ← rotableCacheGet (entryKey tables) c pentry (some k)
    match res with
    -- a hit leaves `*ppos` alone
    | some e => pure (⟨.value e.1 e.2, ppos⟩, c)
    | none =>
      match scanString tables pentry k with
      | (some j, i) => do
        let c ← rotableCachePut c pentry (pentry, j)
        pure (⟨.value pentry j, ppos.map fun _ => i⟩, c)
      -- `res` is the NULL of the cache, and no longer `luaO_nilobject`
      | (none, _) => pure (⟨.null, ppos⟩, c)
  | none => pure (auxfindNumber tables pentry nk ppos, c)

/-- `luaR_findglobal`. -/
def luaRFindglobalCached (c : Cache T (T × Nat)) (name : List Byte) :
    Result (ValuePtr T × Cache T (T × Nat)) := do
  let (res, c) ← rotableCacheGet (entryKey tables) c luaRotable (some name)
  match res with
  | some e => pure (.value e.1 e.2, c)
  | none =>
    match (scanGlobal tables luaRotable name).1 with
    | some j => do
      let c ← rotableCachePut c luaRotable (luaRotable, j)
      pure (.value luaRotable j, c)
    | none => pure (.null, c)

/-- A lookup. -/
def Lookup.cached (c : Cache T (T × Nat)) : Lookup T → Result (Answer T × Cache T (T × Nat))
  | .findglobal name => do
    let (res, c) ← luaRFindglobalCached tables luaRotable c name
    pure (⟨res, none⟩, c)
  | .findentry pentry k nk ppos =>
    luaRAuxfindCached tables c (pentry.getD luaRotable) k nk ppos

/-- The lookups one after the other. -/
def runLookups (c : Cache T (T × Nat)) (ls : List (Lookup T)) : Result (Cache T (T × Nat)) :=
  ls.foldlM (fun c l => do
    let (_, c) ← l.cached tables luaRotable c
    pure c) c

end Calls

end LuaRtos.Rotable
