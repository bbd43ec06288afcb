/-
  LuaRtos.CLib.Endian

  Numbers in memory, the least significant byte first.
-/

import LuaRtos.CLib.Basic
import Mathlib.Algebra.Group.Nat.Defs

namespace LuaRtos.CLib

/-- The `n` low bytes of a number. -/
def bytesLE : Nat → Nat → List Byte
  | 0, _ => []
  | n + 1, x => BitVec.ofNat 8 x :: bytesLE n (x / 256)

/-- The number in memory. -/
def ofBytesLE : List Byte → Nat
  | [] => 0
  | b :: bs => b.toNat + 256 * ofBytesLE bs

/-- `n` bytes from offset `i` on, as a number. -/
def loadLE (block : List Byte) (i n : Nat) : Result Nat :=
  if i + n ≤ block.length then pure (ofBytesLE ((block.drop i).take n)) else throw .outOfBounds

@[simp] theorem length_bytesLE (n x : Nat) : (bytesLE n x).length = n := by
  induction n generalizing x with
  | zero => rfl
  | succ n ih => rw [bytesLE, List.length_cons, ih]

/-- What was written is read back, cut to the width. -/
theorem ofBytesLE_bytesLE (n x : Nat) : ofBytesLE (bytesLE n x) = x % 256 ^ n := by
  induction n generalizing x with
  | zero => rw [Nat.pow_zero, Nat.mod_one]; rfl
  | succ n ih =>
    have hlow : (BitVec.ofNat 8 x).toNat = x % 256 := BitVec.toNat_ofNat x 8
    rw [bytesLE, ofBytesLE, ih, hlow, Nat.pow_succ, Nat.mul_comm (256 ^ n), Nat.mod_mul]

theorem loadLE_bytesLE (pre post : List Byte) {n x : Nat} (hx : x < 256 ^ n) :
    loadLE (pre ++ (bytesLE n x ++ post)) pre.length n = .ok x := by
  have hlen : pre.length + n ≤ (pre ++ (bytesLE n x ++ post)).length := by
    rw [List.length_append, List.length_append, length_bytesLE]
    omega
  have htake : (bytesLE n x ++ post).take n = bytesLE n x := List.take_left' (length_bytesLE n x)
  rw [loadLE, if_pos hlen, List.drop_left, htake, ofBytesLE_bytesLE, Nat.mod_eq_of_lt hx]
  rfl

end LuaRtos.CLib
