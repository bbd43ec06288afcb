/-
  LuaRtos.Lua.Nvs

  `nvs.write` and `nvs.read` of Lua/modules/nvs.c, on the flash library of the SDK.

  The library is a parameter (`NvsFlash`): what its calls answer is up to it, apart from what
  they do to the open handles and to the blobs.  The buffers of `malloc` are blocks of a heap,
  so that one that is freed twice is a fault, and one that is never freed stays.
-/

import LuaRtos.CLib.Endian
import LuaRtos.CLib.Heap
import LuaRtos.Lua.Value

namespace LuaRtos.Lua

open LuaRtos.CLib

/-! ## The flash library -/

/-- An `esp_err_t` other than ESP_OK. -/
inductive EspErr where
  | fail
  | invalidArg
  | noMem
  | invalidState
  | invalidSize
  | nvsNotFound
  | other (code : Int)
deriving DecidableEq, Repr

/-- The library, with the namespace of every open handle and the blob of every key. -/
structure NvsFlash (F : Type) where
  open_ : List Byte → F → Except EspErr Nat × F
  setBlob : Nat → List Byte → List Byte → F → Option EspErr × F
  getBlob : Nat → List Byte → F → Except EspErr (List Byte) × F
  commit : Nat → F → Option EspErr × F
  close : Nat → F → F
  handles : F → Nat → Option (List Byte)
  content : F → List Byte → List Byte → Option (List Byte)
  /-- `nvs_open` gives a handle that was not open, and one that fails opens none. -/
  open_ok : ∀ nspace f h, (open_ nspace f).1 = .ok h → handles f h = none ∧
    handles (open_ nspace f).2 = Function.update (handles f) h (some nspace)
  open_error : ∀ nspace f e, (open_ nspace f).1 = .error e →
    handles (open_ nspace f).2 = handles f
  open_content : ∀ nspace f, content (open_ nspace f).2 = content f
  /-- `nvs_set_blob` stores the bytes under the key. -/
  set_ok : ∀ h nspace key bytes f, handles f h = some nspace →
    (setBlob h key bytes f).1 = none → ∀ nspace' key',
      content (setBlob h key bytes f).2 nspace' key' =
        if nspace' = nspace ∧ key' = key then some bytes else content f nspace' key'
  set_handles : ∀ h key bytes f, handles (setBlob h key bytes f).2 = handles f
  /-- `nvs_get_blob` returns the bytes of the last `nvs_set_blob`. -/
  get_ok : ∀ h nspace key bytes f, handles f h = some nspace →
    (getBlob h key f).1 = .ok bytes → content f nspace key = some bytes
  get_handles : ∀ h key f, handles (getBlob h key f).2 = handles f
  get_content : ∀ h key f, content (getBlob h key f).2 = content f
  commit_handles : ∀ h f, handles (commit h f).2 = handles f
  commit_content : ∀ h f, content (commit h f).2 = content f
  /-- `nvs_close` closes the handle. -/
  close_handles : ∀ h f, handles (close h f) = Function.update (handles f) h none
  close_content : ∀ h f, content (close h f) = content f

/-- The flash and the buffers. -/
structure NvsState (F : Type) where
  flash : F
  heap : Heap (List Byte)

/-- How a call ends. -/
inductive NvsOutcome where
  | returned (v : Option LuaValue)
  | raised (msg : Formatted)
  /-- `luaL_checkstring` has raised. -/
  | argError
deriving DecidableEq, Repr

variable {F : Type}

/-! ## Errors -/

/-- `nvs_error`: the error that it raises; none where it returns. -/
def nvsError : EspErr → Option Formatted
  | .fail => some (.invalidOption 0x3a)
  | .invalidArg => some (.text (formatD 0x102 ++ chars ":fail"))
  | .noMem => some (.text (formatD 0x101 ++ chars ":not enough memory"))
  | .invalidState => some (.text (formatD 0x103 ++ chars ":invalid state"))
  | .invalidSize => some (.text (formatD 0x104 ++ chars ":invalid size"))
  | .nvsNotFound => some (.text (formatD 0x105 ++ chars ":key not found"))
  | .other _ => none

def missingArguments : NvsOutcome := .raised (.text (chars "missing arguments"))

/-- What C sees of a string. -/
def cString (s : List Byte) : List Byte := s.takeWhile (· ≠ nul)

/-! ## `nvs.write` -/

/-- The block that the switch on the type builds: the type, then the value.  None where
    `val_val` stays NULL. -/
def nvsBlob : LuaValue → Option (List Byte)
  | .integer n => some (1 :: bytesLE 4 n.toNat)
  | .number bits => some (2 :: bytesLE 4 bits.toNat)
  | .boolean b => some (3 :: bytesLE 4 b.toNat)
  | .nil => some [4, 0]
  | .string s => some (5 :: (cString s ++ [nul]))
  | _ => none

/-- `free(val_val)`. -/
def freeVal (heap : Heap (List Byte)) : Option Nat → Result (Heap (List Byte))
  | none => pure heap
  | some p => heap.free p

/-- `nvs_commit` and `nvs_close`. -/
def commitAndClose (lib : NvsFlash F) (handle : Nat) (s : NvsState F) :
    Result (NvsOutcome × NvsState F) :=
  let r := lib.commit handle s.flash
  match r.1.bind nvsError with
  | some msg => pure (.raised msg, { s with flash := r.2 })
  -- an error that `nvs_error` does not know passes for none
  | none => pure (.returned none, { s with flash := lib.close handle r.2 })

/-- From `nvs_open` on.  `val` is the buffer, `bytes` what the library is given to write: none
    for a NULL with a size. -/
def saveBlob (lib : NvsFlash F) (nspace key : List Byte) (val : Option Nat)
    (bytes : Option (List Byte)) (s : NvsState F) : Result (NvsOutcome × NvsState F) :=
  let r := lib.open_ nspace s.flash
  match r.1 with
  | .error err => do
    let heap ← freeVal s.heap val
    match nvsError err with
    | some msg => pure (.raised msg, ⟨r.2, heap⟩)
    -- the handle was never written
    | none => throw .undefined
  | .ok handle =>
    match bytes with
    | none => throw .nullDeref
    | some bytes => do
      let r := lib.setBlob handle key bytes r.2
      match r.1 with
      | some err => do
        let heap ← freeVal s.heap val
        match nvsError err with
        | some msg => pure (.raised msg, ⟨r.2, heap⟩)
        | none => do
          -- the buffer is freed again
          let heap ← freeVal heap val
          commitAndClose lib handle ⟨r.2, heap⟩
      | none => do
        let heap ← freeVal s.heap val
        commitAndClose lib handle ⟨r.2, heap⟩

/-- `l_nvs_write`; `malloc` is false where it returns NULL. -/
def lNvsWrite (lib : NvsFlash F) (numberText : BitVec 32 → List Byte) (malloc : Bool)
    (args : List LuaValue) (s : NvsState F) : Result (NvsOutcome × NvsState F) :=
  match args with
  | [nspace, key, v] =>
    match nspace.text numberText, key.text numberText with
    | some nspace, some key =>
      match nvsBlob v with
      | some blob =>
        if malloc then
          saveBlob lib (cString nspace) (cString key) (some s.heap.length) (some blob)
            { s with heap := s.heap.alloc blob }
        else saveBlob lib (cString nspace) (cString key) none none s
      | none => saveBlob lib (cString nspace) (cString key) none (some []) s
    | _, _ => pure (.argError, s)
  | _ => pure (missingArguments, s)

/-! ## `nvs.read` -/

/-- The switch on the type: the value on the top of the stack, which is the key where nothing
    is pushed. -/
def nvsValue (key : LuaValue) (block : List Byte) : Result LuaValue := do
  let valType ← load block 0
  if valType = 1 then do
    let n ← loadLE block 1 4
    pure (.integer (BitVec.ofNat 32 n))
  else if valType = 2 then do
    let n ← loadLE block 1 4
    pure (.number (BitVec.ofNat 32 n))
  else if valType = 3 then do
    let n ← loadLE block 1 4
    pure (.boolean (n ≠ 0))
  else if valType = 4 then pure .nil
  else if valType = 5 then do
    let s ← readStr (block.drop 1)
    pure (.string s)
  else pure key

/-- The second `nvs_get_blob`, into the buffer of `size` bytes, and what follows.  A blob that
    does not fit is an error that `nvs_error` does not know; without an answer the buffer holds
    nothing that could be read. -/
def loadBlob (lib : NvsFlash F) (handle : Nat) (key : List Byte) (keyArg : LuaValue) (size : Nat)
    (malloc : Bool) (s : NvsState F) : Result (NvsOutcome × NvsState F) :=
  let r := lib.getBlob handle key s.flash
  let heap := if malloc then s.heap.alloc [] else s.heap
  match r.1 with
  | .error err =>
    match nvsError err with
    | some msg => pure (.raised msg, ⟨r.2, heap⟩)
    | none => throw .undefined
  | .ok bytes =>
    if malloc then
      if bytes.length ≤ size then do
        let heap ← heap.write s.heap.length bytes
        let block ← heap.read s.heap.length
        let v ← nvsValue keyArg block
        let heap ← heap.free s.heap.length
        pure (.returned (some v), ⟨lib.close handle r.2, heap⟩)
      else throw .undefined
    else throw .nullDeref

/-- `l_nvs_read`. -/
def lNvsRead (lib : NvsFlash F) (numberText : BitVec 32 → List Byte) (malloc : Bool)
    (args : List LuaValue) (s : NvsState F) : Result (NvsOutcome × NvsState F) :=
  match args with
  | [nspace, keyArg] =>
    match nspace.text numberText, keyArg.text numberText with
    | some nspace, some key =>
      let r := lib.open_ (cString nspace) s.flash
      match r.1 with
      | .error err =>
        match nvsError err with
        | some msg => pure (.raised msg, { s with flash := r.2 })
        -- the handle was never written
        | none => throw .undefined
      | .ok handle =>
        let r := lib.getBlob handle (cString key) r.2
        match r.1 with
        | .error err =>
          match nvsError err with
          | some msg => pure (.raised msg, { s with flash := r.2 })
          -- the size is still 0
          | none => loadBlob lib handle (cString key) keyArg 0 malloc { s with flash := r.2 }
        | .ok bytes =>
          loadBlob lib handle (cString key) keyArg bytes.length malloc { s with flash := r.2 }
    | _, _ => pure (.argError, s)
  | _ => pure (missingArguments, s)

end LuaRtos.Lua
