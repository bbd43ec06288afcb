/-
  LuaRtos.Lua.Value

  Values of Lua, as the C functions of the modules see them, and the messages that
  `luaL_error` makes of a format it is given no arguments for.
-/

import LuaRtos.CLib.Number

namespace LuaRtos.Lua

open LuaRtos.CLib

/-- A value.  Integers and floats have 32 bits (LUA_32BITS); a float is given by its bits, a
    function or another object by its identity. -/
inductive LuaValue where
  | nil
  | boolean (b : Bool)
  | integer (n : BitVec 32)
  | number (bits : BitVec 32)
  | string (s : List Byte)
  | function (f : Nat)
  | object (o : Nat)
deriving DecidableEq, Repr

/-- `lua_tostring`, NULL where the value is neither a string nor a number.  `numberText` is how
    a float is printed. -/
def LuaValue.text (numberText : BitVec 32 → List Byte) : LuaValue → Option (List Byte)
  | .string s => some s
  | .integer n => some (formatD n.toInt)
  | .number bits => some (numberText bits)
  | _ => none

/-- The message of an error: its text, or the complaint about a conversion that is unknown. -/
inductive Formatted where
  | text (s : List Byte)
  | invalidOption (c : Byte)
deriving DecidableEq, Repr

def Formatted.cons (c : Byte) : Formatted → Formatted
  | .text s => .text (c :: s)
  | .invalidOption c' => .invalidOption c'

/-- The conversions of `lua_pushfstring` that take an argument. -/
def takesArgument (c : Byte) : Bool := (chars "scdIfpU").contains c

/-- `luaO_pushvfstring` without arguments, on the characters of the format. -/
def pushFormat : List Byte → Result Formatted
  | [] => pure (.text [])
  | [0x25] => pure (.invalidOption nul)
  | 0x25 :: c :: fmt =>
    if takesArgument c then throw .undefined
    else if c = 0x25 then do
      let r ← pushFormat fmt
      pure (r.cons 0x25)
    else pure (.invalidOption c)
  | c :: fmt => do
    let r ← pushFormat fmt
    pure (r.cons c)

/-- `luaL_error(L, msg)`: what is raised, behind the position. -/
def luaLError (msg : Option (List Byte)) : Result Formatted := do
  match msg with
  | none => throw .nullDeref
  | some s => do
    let fmt ← readStr (s ++ [nul])
    pushFormat fmt

end LuaRtos.Lua
