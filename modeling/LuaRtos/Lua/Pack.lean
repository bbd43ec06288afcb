/-
  LuaRtos.Lua.Pack

  `pack.pack` and `pack.unpack` of Lua/modules/lpack.c.

  A value is packed as hexadecimal text behind a header that holds the number of values and
  a type of four bits for each.  `malloc` returns a block of the size it is asked for, or
  NULL.  The second argument of `unpack`, with which it packs all but the first value again,
  is left out.
-/

import LuaRtos.Lora.Hex
import LuaRtos.Lua.Value
import LuaRtos.CLib.Mem
import LuaRtos.CLib.Endian

namespace LuaRtos.Lua.Pack

open LuaRtos.CLib LuaRtos.Lora

def packNumber : Byte := 0
def packInteger : Byte := 1
def packNil : Byte := 2
def packBoolean : Byte := 3
def packString : Byte := 4

/-- `PACK_HEADER_LENGTH` -/
def headerLength (n : Nat) : Nat := 1 + (n + 1) / 2

/-- How far the type of the value number `i` is shifted. -/
def typeShift (i : Nat) : Nat := 4 - (i - 1) % 2 * 4

/-- `PACK_PACK_TYPE` -/
def packType (t : Byte) (i : Nat) : Byte := t <<< typeShift i

/-- `PACK_UNPACK_TYPE` -/
def unpackType (v : Byte) (i : Nat) : Byte := (v &&& packType 0x0f i) >>> typeShift i

inductive PackError where
  | missingArguments
  | notEnoughMemory
  | unsupportedType (i : Nat)
  /-- The argument of `unpack` is no string. -/
  | argument
deriving DecidableEq, Repr

/-! ## pack -/

/-- The type of a value, the bytes that are written as text, and the mark behind them. -/
def encoding : LuaValue → Option (Byte × List Byte × List Byte)
  | .number bits => some (packNumber, bytesLE 4 bits.toNat, [])
  | .integer n => some (packInteger, bytesLE 4 n.toNat, [])
  | .nil => some (packNil, [], [])
  | .boolean b => some (packBoolean, [if b then 1 else 0], [])
  -- the bytes up to the first zero: `strlen`
  | .string s => some (packString, s.takeWhile fun c => c ≠ nul, chars "00")
  | .function _ | .object _ => none

/-- What a value adds to `argSize`. -/
def valueSize : LuaValue → Nat
  | .number _ | .integer _ => 4
  | .boolean _ => 1
  | .string s => s.length + 1
  | .nil | .function _ | .object _ => 0

/-- `argSize` -/
def argSize (vs : List LuaValue) : Nat := vs.foldr (fun v n => valueSize v + n) 0

/-- The two blocks, with the current positions in them. -/
structure Packing where
  header : List Byte
  cheader : Nat
  pack : List Byte
  data_idx : Nat

/-- A new byte of the header for every second value. -/
def nextHeader (i : Nat) (p : Packing) : Result Packing :=
  if (i - 1) % 2 = 0 then do
    let header ← store p.header (p.cheader + 1) 0
    pure { p with header := header, cheader := p.cheader + 1 }
  else pure p

/-- `*cheader = *cheader | PACK_PACK_TYPE(t, i)` -/
def putType (i : Nat) (t : Byte) (p : Packing) : Result Packing := do
  let c ← load p.header p.cheader
  let header ← store p.header p.cheader (c ||| packType t i)
  pure { p with header := header }

/-- The text of the bytes, the mark, and the end of the string. -/
def putData (bytes mark : List Byte) (p : Packing) : Result Packing := do
  let (data_idx, pack) ← valToHexStringLoop bytes false bytes.length 0 p.data_idx p.pack
  let pack ← storeBytes pack data_idx mark
  let pack ← store pack (data_idx + mark.length) nul
  pure { p with pack := pack, data_idx := data_idx + mark.length }

/-- The loop of `l_pack`, from the value number `i` on. -/
def packArgs : Nat → List LuaValue → Packing → Result (Except PackError Packing)
  | _, [], p => pure (.ok p)
  | i, v :: vs, p => do
    let p ← nextHeader i p
    match encoding v with
    | none => pure (.error (.unsupportedType i))
    | some (t, bytes, mark) => do
      let p ← putType i t p
      let p ← putData bytes mark p
      packArgs (i + 1) vs p

/-- `l_pack`: the text. -/
def lPack (malloc : (n : Nat) → Option (Block n)) (vs : List LuaValue) :
    Result (Except PackError (List Byte)) :=
  if vs.length = 0 then pure (.error .missingArguments)
  else
    let header_len := headerLength vs.length
    match malloc header_len with
    | none => pure (.error .notEnoughMemory)
    | some header => do
      -- Store number of packed elements in header
      let header ← store header.bytes 0 (BitVec.ofNat 8 vs.length)
      match malloc ((header_len + argSize vs) * 2 + 1) with
      | none => pure (.error .notEnoughMemory)
      | some pack => do
        let r ← packArgs 1 vs ⟨header, 0, pack.bytes, header_len * 2⟩
        match r with
        | .error e => pure (.error e)
        | .ok p => do
          let (_, pack) ← valToHexStringLoop p.header false header_len 0 0 p.pack
          let s ← readStr pack
          pure (.ok s)

/-! ## unpack -/

/-- `hex_string_len`: it counts the pairs before the first that has a zero in it. -/
def hexStringLen : List Byte → Result Nat
  | c1 :: c2 :: hbuff =>
    if c1 ≠ 0x30 ∧ c2 ≠ 0x30 then do
      let len ← hexStringLen hbuff
      pure (len + 1)
    else pure 0
  | _ => throw .outOfBounds

/-- The value of type `ctype` at `data_idx`, none where nothing is pushed, and the index behind
    it. -/
def unpackArg (malloc : (n : Nat) → Option (Block n)) (pack : List Byte) (ctype : Byte)
    (data_idx : Nat) : Result (Except PackError (Option LuaValue × Nat)) :=
  if ctype = packNumber then do
    let bytes ← hexStringToValLoop pack false 4 data_idx
    pure (.ok (some (.number (BitVec.ofNat 32 (ofBytesLE bytes))), data_idx + 4 * 2))
  else if ctype = packInteger then do
    let bytes ← hexStringToValLoop pack false 4 data_idx
    pure (.ok (some (.integer (BitVec.ofNat 32 (ofBytesLE bytes))), data_idx + 4 * 2))
  else if ctype = packNil then pure (.ok (some .nil, data_idx))
  else if ctype = packBoolean then do
    let bytes ← hexStringToValLoop pack false 1 data_idx
    pure (.ok (some (.boolean (bytes ≠ [0])), data_idx + 2))
  else if ctype = packString then do
    let slen ← hexStringLen (pack.drop data_idx)
    -- Allocate space for the string
    if (malloc (slen + 1)).isNone then pure (.error .notEnoughMemory)
    else do
      let bytes ← hexStringToValLoop pack false slen data_idx
      pure (.ok (some (.string (bytes.takeWhile fun c => c ≠ nul)), data_idx + (slen * 2 + 2)))
  else pure (.ok (none, data_idx))

/-- The next byte of types for every second value. -/
def nextTypes (pack : List Byte) (i cheader : Nat) (headerv : Byte) : Result (Nat × Byte) :=
  if (i - 1) % 2 = 0 then do
    let bytes ← hexStringToValLoop pack false 1 ((cheader + 2 : Nat) : Int)
    pure (cheader + 2, bytes.headD 0)
  else pure (cheader, headerv)

/-- The loop of `l_unpack`, with `n` values to go: what is pushed. -/
def unpackArgs (malloc : (n : Nat) → Option (Block n)) (pack : List Byte) :
    Nat → Nat → Nat → Byte → Nat → Result (Except PackError (List LuaValue))
  | 0, _, _, _, _ => pure (.ok [])
  | n + 1, i, cheader, headerv, data_idx => do
    let (cheader, headerv) ← nextTypes pack i cheader headerv
    let r ← unpackArg malloc pack (unpackType headerv i) data_idx
    match r with
    | .error e => pure (.error e)
    | .ok (v, data_idx) => do
      let r ← unpackArgs malloc pack n (i + 1) cheader headerv data_idx
      match r with
      | .error e => pure (.error e)
      | .ok vs => pure (.ok (v.toList ++ vs))

/-- `l_unpack`: the values on top of the stack, as many as the header says. -/
def lUnpack (malloc : (n : Nat) → Option (Block n)) (numberText : BitVec 32 → List Byte)
    (arg : LuaValue) : Result (Except PackError (List LuaValue)) :=
  if arg = .nil then pure (.ok [.nil])
  else
    match arg.text numberText with
    | none => pure (.error .argument)
    | some s => do
      let pack := s ++ [nul]
      let bytes ← hexStringToValLoop pack false 1 0
      let total := (bytes.headD 0).toNat
      let r ← unpackArgs malloc pack total 1 0 0 (headerLength total * 2)
      match r with
      | .error e => pure (.error e)
      | .ok vs =>
        let stack := arg :: vs
        if stack.length < total then throw .undefined
        else pure (.ok (stack.drop (stack.length - total)))

end LuaRtos.Lua.Pack
