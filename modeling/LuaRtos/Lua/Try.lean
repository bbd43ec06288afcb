/-
  LuaRtos.Lua.Try

  `try(f, catch, finally)`: `luaB_try` of Lua/modules/lbaselib_adds.inc, on a Lua stack and
  the reference system of the registry.

  A function that is called may do anything to the globals but drop a reference that a C
  function in progress holds (`LuaMachine`).  Of the run is kept which references it takes and
  releases, and how each protected call ends (`TryEvent`).
-/

import LuaRtos.Lua.Value
import Mathlib.Data.Finmap

namespace LuaRtos.Lua

open LuaRtos.CLib

/-! ## References and calls -/

/-- The references of the registry that are in use. -/
abbrev LuaRegistry := Finmap fun _ : Nat => LuaValue

/-- What the functions share: the registry, with the references that C functions in progress
    hold, and the rest. -/
structure LuaGlobal (W : Type) where
  registry : LuaRegistry
  held : Finset Nat
  world : W

/-- Lua under the function: the choice of a reference in `luaL_ref`, the text of a float, and
    what a call does, with its error if it fails. -/
structure LuaMachine (W : Type) where
  newRef : LuaRegistry → Nat
  numberText : BitVec 32 → List Byte
  call : LuaValue → List LuaValue → LuaGlobal W → Option LuaValue × LuaGlobal W
  newRef_fresh : ∀ registry, newRef registry ∉ registry
  call_held : ∀ f args g, (call f args g).2.held = g.held
  call_keeps : ∀ f args g, ∀ r ∈ g.held,
    (call f args g).2.registry.lookup r = g.registry.lookup r

/-- What `luaL_ref` returns: LUA_NOREF is the value of a variable it was not called for. -/
inductive LuaRef where
  | noRef
  | refNil
  | ref (r : Nat)
deriving DecidableEq, Repr

inductive TryPart where
  | tryFunc
  | catchFunc
  | finallyFunc
deriving DecidableEq, Repr

/-- An event of the run. -/
inductive TryEvent where
  | ref (r : Nat)
  | unref (r : Nat)
  /-- A protected call, with the error it ended with. -/
  | called (part : TryPart) (error : Option LuaValue)
deriving DecidableEq, Repr

/-- The state of `luaB_try`.  The stack is that of the whole thread, the top first; `base` is
    the number of its slots below the arguments, the slot of the function included. -/
structure TryState (W : Type) where
  stack : List LuaValue
  base : Nat
  glob : LuaGlobal W
  log : List TryEvent

/-- How it ends. -/
inductive TryOutcome where
  | returned
  /-- `luaL_checktype` has raised. -/
  | argError
  | raised (msg : Formatted)
deriving DecidableEq, Repr

variable {W : Type}

namespace TryState

/-- `lua_gettop`. -/
def getTop (s : TryState W) : Nat := s.stack.length - s.base

/-- The argument 1 is a function. -/
def firstIsFunction (s : TryState W) : Bool :=
  match (s.stack.take s.getTop).getLast? with
  | some (.function _) => true
  | _ => false

def push (s : TryState W) (v : LuaValue) : TryState W := { s with stack := v :: s.stack }

/-- `lua_remove(L, -2)`, without a check of the index. -/
def removeSecond (s : TryState W) : TryState W := { s with stack := s.stack.eraseIdx 1 }

/-- `luaL_ref(L, LUA_REGISTRYINDEX)`. -/
def luaLRef (lua : LuaMachine W) (s : TryState W) : LuaRef × TryState W :=
  match s.stack with
  | [] => (.noRef, s)
  | .nil :: stack => (.refNil, { s with stack := stack })
  | v :: stack =>
    let r := lua.newRef s.glob.registry
    (.ref r, { s with
      stack := stack
      glob := { s.glob with
        registry := s.glob.registry.insert r v
        held := insert r s.glob.held }
      log := s.log ++ [.ref r] })

/-- `if (ref != LUA_NOREF) luaL_unref(L, LUA_REGISTRYINDEX, ref)`. -/
def luaLUnref (s : TryState W) : LuaRef → TryState W
  | .ref r => { s with
      glob := { s.glob with
        registry := s.glob.registry.erase r
        held := s.glob.held.erase r }
      log := s.log ++ [.unref r] }
  | .refNil => s
  | .noRef => s

/-- `lua_rawgeti(L, LUA_REGISTRYINDEX, ref)`. -/
def rawGetI (s : TryState W) : LuaRef → TryState W
  | .ref r => s.push ((s.glob.registry.lookup r).getD .nil)
  | .refNil => s.push .nil
  | .noRef => s.push .nil

/-- `lua_pcall(L, nargs, 0, 0)`: true for LUA_OK. -/
def pcall (lua : LuaMachine W) (part : TryPart) (nargs : Nat) (s : TryState W) :
    Result (Bool × TryState W) :=
  match s.stack.drop nargs with
  | [] => throw .outOfBounds
  | f :: stack =>
    let args := (s.stack.take nargs).reverse
    let r := lua.call f args s.glob
    let s := { s with stack := stack, glob := r.2, log := s.log ++ [.called part r.1] }
    match r.1 with
    | none => pure (true, s)
    | some e => pure (false, s.push e)

/-- `lua_tostring(L, -1)`. -/
def topText (lua : LuaMachine W) (s : TryState W) : Option (List Byte) :=
  s.stack.head?.bind (LuaValue.text lua.numberText)

end TryState

/-! ## The error message -/

def colon : Byte := 0x3a

/-- The parts of an error message. -/
structure ErrorParts where
  where_ : List Byte
  line : List Byte
  errorCode : Int
  message : List Byte
deriving DecidableEq, Repr

/-- The parse of "where:line-number error-code:error-message", from `msg` on.  Behind a NULL
    of `strchr` a byte near the address 0 is read. -/
def parseError (msg : List Byte) : Result ErrorParts := do
  match ← strchr colon msg with
  | none => throw .nullDeref
  | some whereEnd => do
    match ← strchr colon whereEnd.tail with
    | none => throw .nullDeref
    | some lineEnd => do
      let where_ := msg.take (msg.length - whereEnd.length)
      let line := whereEnd.tail.take (whereEnd.tail.length - lineEnd.length)
      match ← sscanfD (lineEnd.drop 2) with
      | .mismatch => do
        let message ← readStr (lineEnd.drop 2)
        pure ⟨where_, line, 0, message⟩
      -- `error_code` was never written
      | .eof => throw .undefined
      | .value errorCode => do
        match ← strchr colon (lineEnd.drop 2) with
        | none => throw .nullDeref
        | some messageStart => do
          let message ← readStr messageStart.tail
          pure ⟨where_, line, errorCode, message⟩

/-- The arguments of the catch function. -/
def ErrorParts.args (p : ErrorParts) : List LuaValue :=
  [.string p.where_, .string p.line,
    if p.errorCode = 0 then .nil else .integer (BitVec.ofInt 32 p.errorCode), .string p.message]

/-! ## `luaB_try` -/

structure TryRefs where
  tryFunc : LuaRef
  catchFunc : LuaRef
  finallyFunc : LuaRef
deriving DecidableEq, Repr

/-- The clean-up. -/
def TryState.unrefAll (refs : TryRefs) (s : TryState W) : TryState W :=
  ((s.luaLUnref refs.tryFunc).luaLUnref refs.catchFunc).luaLUnref refs.finallyFunc

/-- The clean-up and the error behind it. -/
def raiseTop (lua : LuaMachine W) (refs : TryRefs) (s : TryState W) :
    Result (TryOutcome × TryState W) := do
  let msg := s.topText lua
  let s := s.unrefAll refs
  let e ← luaLError msg
  pure (.raised e, s)

/-- From the call of the finally function on. -/
def runFinally (lua : LuaMachine W) (refs : TryRefs) (s : TryState W) :
    Result (TryOutcome × TryState W) :=
  if refs.finallyFunc = .noRef then pure (.returned, s.unrefAll refs)
  else do
    let r ← (s.rawGetI refs.finallyFunc).pcall lua .finallyFunc 0
    if r.1 then pure (.returned, r.2.unrefAll refs)
    else raiseTop lua refs r.2

/-- The call of the catch function: true for LUA_OK. -/
def runCatch (lua : LuaMachine W) (refs : TryRefs) (s : TryState W) :
    Result (Bool × TryState W) :=
  match s.topText lua with
  | none => throw .nullDeref
  | some msg => do
    let parts ← parseError (msg ++ [nul])
    let s := s.removeSecond.rawGetI refs.catchFunc
    (parts.args.foldl TryState.push s).pcall lua .catchFunc 4

/-- From the call of the try function on. -/
def runTry (lua : LuaMachine W) (refs : TryRefs) (s : TryState W) :
    Result (TryOutcome × TryState W) := do
  let r ← (s.rawGetI refs.tryFunc).pcall lua .tryFunc 0
  if r.1 = false ∧ refs.catchFunc ≠ .noRef then do
    let r ← runCatch lua refs r.2
    if r.1 then runFinally lua refs r.2 else raiseTop lua refs r.2
  else runFinally lua refs r.2

/-- `if (total == n) { luaL_checktype(L, 1, LUA_TFUNCTION); … luaL_ref …; total--; }`, none
    where the check raises. -/
def refArgument (lua : LuaMachine W) (n total : Nat) (s : TryState W) :
    Option (LuaRef × Nat × TryState W) :=
  if total = n then
    if s.firstIsFunction then
      let r := s.luaLRef lua
      some (r.1, total - 1, r.2)
    else none
  else some (.noRef, total, s)

/-- `luaB_try`. -/
def luaBTry (lua : LuaMachine W) (s : TryState W) : Result (TryOutcome × TryState W) :=
  match refArgument lua 3 s.getTop s with
  | none => pure (.argError, s)
  | some (finallyFunc, total, s) =>
    match refArgument lua 2 total s with
    | none => pure (.argError, s)
    | some (catchFunc, _, s) =>
      if s.firstIsFunction then
        let r := s.luaLRef lua
        runTry lua ⟨r.1, catchFunc, finallyFunc⟩ r.2
      else pure (.argError, s)

end LuaRtos.Lua
