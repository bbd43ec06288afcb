/-
  LuaRtos.CLib.Hex

  Hexadecimal text: `%x` of `printf`, and `%02x` for a byte; `%x` of `scanf` with a width.
-/

import LuaRtos.CLib.Basic

namespace LuaRtos.CLib

/-- A digit below 16. -/
def hexDigit (n : Nat) : Byte :=
  if n < 10 then BitVec.ofNat 8 (0x30 + n) else BitVec.ofNat 8 (0x57 + n)

/-- `%02x` for a byte. -/
def formatX2 (b : Byte) : List Byte := [hexDigit (b.toNat / 16), hexDigit (b.toNat % 16)]

/-- `%x`. -/
def formatX (n : Nat) : List Byte :=
  if n < 16 then [hexDigit n] else formatX (n / 16) ++ [hexDigit (n % 16)]

/-- The value of a digit. -/
def hexVal (c : Byte) : Option Nat :=
  if 0x30 ≤ c ∧ c ≤ 0x39 then some (c.toNat - 0x30)
  else if 0x61 ≤ c ∧ c ≤ 0x66 then some (c.toNat - 0x57)
  else if 0x41 ≤ c ∧ c ≤ 0x46 then some (c.toNat - 0x37)
  else none

/-- `%x` with a width: at most so many digits are read, after the value `v`.  A sign and the
    prefix 0x are not read. -/
def scanX : Nat → Nat → List Byte → Nat × List Byte
  | 0, v, s => (v, s)
  | _ + 1, v, [] => (v, [])
  | width + 1, v, c :: s =>
    match hexVal c with
    | some d => scanX width (16 * v + d) s
    | none => (v, c :: s)

/-- The number that digits make after the value `v`, if all are digits. -/
def hexNat (v : Nat) : List Byte → Option Nat
  | [] => some v
  | c :: s => (hexVal c).bind fun d => hexNat (16 * v + d) s

/-- Bytes as a number, the most significant first. -/
def bigEndian (v : Nat) (bytes : List Byte) : Nat := bytes.foldl (fun v b => 256 * v + b.toNat) v

theorem hexVal_hexDigit : ∀ n < 16, hexVal (hexDigit n) = some n := by decide

theorem hexNat_append (v : Nat) (s t : List Byte) :
    hexNat v (s ++ t) = (hexNat v s).bind fun w => hexNat w t := by
  induction s generalizing v with
  | nil => rfl
  | cons c s ih =>
    rw [List.cons_append, hexNat, hexNat]
    cases hexVal c with
    | none => rfl
    | some d => exact ih (16 * v + d)

theorem formatX_ne_nil (n : Nat) : formatX n ≠ [] := by
  rw [formatX]
  split <;> simp

/-- What is printed for a number is read as it. -/
theorem hexNat_formatX (n : Nat) : hexNat 0 (formatX n) = some n := by
  induction n using Nat.strongRecOn with
  | ind n ih =>
    rw [formatX]
    by_cases hn : n < 16
    · rw [if_pos hn, hexNat, hexVal_hexDigit n hn, Option.bind_some, hexNat, Nat.mul_zero,
        Nat.zero_add]
    · rw [if_neg hn, hexNat_append, ih (n / 16) (by omega), Option.bind_some, hexNat,
        hexVal_hexDigit (n % 16) (by omega), Option.bind_some, hexNat, Nat.div_add_mod]

theorem scanX_digit {width v n : Nat} {s : List Byte} (hn : n < 16) :
    scanX (width + 1) v (hexDigit n :: s) = scanX width (16 * v + n) s := by
  rw [scanX, hexVal_hexDigit n hn]

/-- What is printed for bytes is read as their number. -/
theorem scanX_formatX2 (bytes rest : List Byte) (v : Nat) :
    scanX (2 * bytes.length) v (bytes.flatMap formatX2 ++ rest) = (bigEndian v bytes, rest) := by
  induction bytes generalizing v with
  | nil => rfl
  | cons b bytes ih =>
    have hb := b.isLt
    have hval : 16 * (16 * v + b.toNat / 16) + b.toNat % 16 = 256 * v + b.toNat := by omega
    have hlen : 2 * (b :: bytes).length = 2 * bytes.length + 1 + 1 := by
      rw [List.length_cons]
      omega
    rw [hlen, List.flatMap_cons, formatX2]
    simp only [List.cons_append, List.nil_append]
    rw [scanX_digit (by omega), scanX_digit (by omega), hval, ih]
    rfl

end LuaRtos.CLib
