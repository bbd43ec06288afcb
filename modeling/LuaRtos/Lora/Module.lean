/-
  LuaRtos.Lora.Module

  The functions of Lua/modules/lora.c that set and get the parameters of the
  driver.

  A Lua error ends the call; it is a value here, beside the driver as it then is.
-/

import LuaRtos.Lora.Driver

namespace LuaRtos.Lora

open LuaRtos.CLib

/-- A string as `luaL_checkstring` gives it. -/
structure CString where
  chars : List Byte
  noNul : nul ∉ chars

/-- The string in memory. -/
def CString.block (s : CString) : List Byte := s.chars ++ [nul]

/-- What a call raises. -/
inductive LuaError where
  /-- `luaL_error`, with the number of an exception in front of the text if there
      is one. -/
  | luaL (exception : Option LoraErr) (text : String)
  /-- `luaL_driver_error`. -/
  | driver (error : DriverError)
deriving DecidableEq, Repr

/-- A value that a call gives to Lua. -/
inductive LuaValue where
  | string (s : List Byte)
  | integer (n : Int)
  | boolean (b : Bool)
deriving DecidableEq, Repr

/-! ## Padding -/

/-- The first loop of `hex_str_pad`: `n` times '0', with `c` at `i`. -/
def padLoop : Nat → Nat → List Byte → Result (List Byte)
  | 0, _, tmp => pure tmp
  | n + 1, i, tmp => do
    let tmp ← store tmp i 48
    padLoop n (i + 1) tmp

/-- The second loop of `hex_str_pad`: `n` characters, with `str` at `j` and `c` at
    `i`. -/
def copyLoop (str : List Byte) : Nat → Nat → Nat → List Byte → Result (List Byte)
  | 0, _, _, tmp => pure tmp
  | n + 1, j, i, tmp => do
    let c ← load str j
    let tmp ← store tmp i c
    copyLoop str n (j + 1) (i + 1) tmp

/-- `hex_str_pad`. -/
def hexStrPad (malloc : Malloc) (str : List Byte) (len : Nat) :
    Result (Except LuaError (List Byte)) := do
  let isHex ← checkHexStr str
  if !isHex then pure (.error (.luaL none "invalid hexadecimal number"))
  else match malloc (len + 1) with
    | none => pure (.error (.luaL none "not enough memory"))
    | some tmp => do
      let currLen ← strlen str
      if currLen < len then do
        -- needs pad
        let padNum := len - currLen
        let tmp ← padLoop padNum 0 tmp.bytes
        -- the index runs from padNum - 1
        let n := len - (padNum - 1)
        let tmp ← copyLoop str n 0 padNum tmp
        let tmp ← store tmp (padNum + n) nul
        pure (.ok tmp)
      else do
        let tmp ← strcpy tmp.bytes str
        pure (.ok tmp)

/-! ## Setting -/

section Set

variable (flashId : Bool) (malloc : Malloc) (d : Driver)

/-- What a function does with the outcome of `lora_mac_set`. -/
def raised (r : Option DriverError × Driver) : Option LuaError × Driver :=
  (r.1.map .driver, r.2)

/-- A function that sets a key of `len` digits. -/
def lloraSetHex (command : MacSet) (len : Nat) (arg : CString) :
    Result (Option LuaError × Driver) := do
  match ← hexStrPad malloc arg.block len with
  | .error error => pure (some error, d)
  | .ok value => do
    let r ← loraMacSet flashId d command value
    pure (raised r)

/-- `llora_set_setDevAddr`. -/
def lloraSetSetDevAddr := lloraSetHex flashId malloc d .devaddr 8

/-- `llora_set_DevEui`. -/
def lloraSetDevEui := lloraSetHex flashId malloc d .deveui 16

/-- `llora_set_AppEui`. -/
def lloraSetAppEui := lloraSetHex flashId malloc d .appeui 16

/-- `luaL_checkinteger` as an `int`. -/
def asInt (arg : BitVec 64) : Int := (arg.truncate 32).toInt

/-- A function that sets a number from 0 to 7; the argument is a `lua_Integer`. -/
def lloraSetNumber (command : MacSet) (text : String) (arg : BitVec 64) :
    Result (Option LuaError × Driver) := do
  let n := asInt arg
  if n < 0 ∨ 7 < n then pure (some (.luaL (some .invalidArgument) text), d)
  else do
    let value ← sprintfD (freshBlock 2).bytes n.toNat
    let r ← loraMacSet flashId d command value
    pure (raised r)

/-- `llora_set_Dr`. -/
def lloraSetDr := lloraSetNumber flashId d .dr "invalid data rate value (0 to 7)"

/-- `llora_set_ReTx`. -/
def lloraSetReTx := lloraSetNumber flashId d .retx "invalid data rate value (0 to 8)"

/-- `llora_set_Adr`. -/
def lloraSetAdr (arg : Bool) : Result (Option LuaError × Driver) := do
  let value ← strcpy (freshBlock 4).bytes (lit (if arg then "on" else "off"))
  let r ← loraMacSet flashId d .adr value
  pure (raised r)

end Set

/-! ## Getting -/

section Get

variable (malloc : Malloc) (d : Driver)

/-- `value` where it is used without a test for NULL. -/
def nonNull : Option (List Byte) → Result (List Byte)
  | some value => pure value
  | none => throw .nullDeref

/-- A function that gets a string. -/
def lloraGetString (command : MacGet) : Result (LuaValue × Driver) := do
  let (value, d) ← loraMacGet malloc d command
  let value ← nonNull value
  let s ← readStr value
  pure (.string s, d)

/-- `llora_get_DevAddr`. -/
def lloraGetDevAddr := lloraGetString malloc d .devaddr

/-- `llora_get_DevEui`. -/
def lloraGetDevEui := lloraGetString malloc d .deveui

/-- `llora_get_AppEui`. -/
def lloraGetAppEui := lloraGetString malloc d .appeui

/-- A function that gets a number. -/
def lloraGetNumber (command : MacGet) : Result (LuaValue × Driver) := do
  let (value, d) ← loraMacGet malloc d command
  let value ← nonNull value
  let n ← atoi value
  pure (.integer n, d)

/-- `llora_get_Dr`. -/
def lloraGetDr := lloraGetNumber malloc d .dr

/-- `llora_get_ReTx`. -/
def lloraGetReTx := lloraGetNumber malloc d .retx

/-- `llora_get_Adr`. -/
def lloraGetAdr : Result (LuaValue × Driver) := do
  let (value, d) ← loraMacGet malloc d .adr
  let value ← nonNull value
  let on ← strcmp value (lit "on")
  pure (.boolean (decide (on = 0)), d)

end Get

end LuaRtos.Lora
