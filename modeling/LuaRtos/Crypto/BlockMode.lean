/-
  LuaRtos.Crypto.BlockMode

  Modes of a block cipher on blocks of 128 bits: the counter mode, and the message
  authentication code CMAC.

  The cipher is any function on blocks.  Bytes go into a block the most significant first.
-/

import LuaRtos.CLib.Window
import LuaRtos.CLib.Basic

namespace LuaRtos.Crypto

open LuaRtos.CLib

/-! ## Bytes in words and blocks -/

/-- Four bytes as a number, the first one most significant. -/
def word (b0 b1 b2 b3 : Byte) : BitVec 32 := b0 ++ b1 ++ b2 ++ b3

/-- Four words as a block. -/
def ofWords (a0 a1 a2 a3 : BitVec 32) : BitVec 128 := a0 ++ a1 ++ a2 ++ a3

/-- The four bytes from offset `i` on, with zeros behind the end. -/
def wordAt (bs : List Byte) (i : Nat) : BitVec 32 :=
  word (bs.getD i 0) (bs.getD (i + 1) 0) (bs.getD (i + 2) 0) (bs.getD (i + 3) 0)

/-- The first 16 bytes, with zeros behind the end. -/
def block (bs : List Byte) : BitVec 128 :=
  ofWords (wordAt bs 0) (wordAt bs 4) (wordAt bs 8) (wordAt bs 12)

/-- A byte of a block. -/
def byteAt (x : BitVec 128) (i : Nat) : Byte := (x >>> (120 - 8 * i)).setWidth 8

theorem getLsbD_word (b0 b1 b2 b3 : Byte) (i : Nat) : (word b0 b1 b2 b3).getLsbD i =
    if i < 8 then b3.getLsbD i else if i < 16 then b2.getLsbD (i - 8)
    else if i < 24 then b1.getLsbD (i - 16) else b0.getLsbD (i - 24) := by
  show (b0 ++ b1 ++ b2 ++ b3).getLsbD i = _
  simp only [BitVec.getLsbD_append]
  grind

theorem getLsbD_ofWords (a0 a1 a2 a3 : BitVec 32) (i : Nat) : (ofWords a0 a1 a2 a3).getLsbD i =
    if i < 32 then a3.getLsbD i else if i < 64 then a2.getLsbD (i - 32)
    else if i < 96 then a1.getLsbD (i - 64) else a0.getLsbD (i - 96) := by
  show (a0 ++ a1 ++ a2 ++ a3).getLsbD i = _
  simp only [BitVec.getLsbD_append]
  grind

/-- Bytes that are shifted in one after the other. -/
theorem shift_word (t : BitVec 32) (b0 b1 b2 b3 : Byte) :
    (((t <<< 8 ||| b0.setWidth 32) <<< 8 ||| b1.setWidth 32) <<< 8 ||| b2.setWidth 32) <<< 8 |||
      b3.setWidth 32 = word b0 b1 b2 b3 := by
  apply BitVec.eq_of_getLsbD_eq
  intro i hi
  simp only [getLsbD_word, BitVec.getLsbD_or, BitVec.getLsbD_shiftLeft, BitVec.getLsbD_setWidth]
  grind

theorem ofWords_xor (a0 a1 a2 a3 b0 b1 b2 b3 : BitVec 32) :
    ofWords (a0 ^^^ b0) (a1 ^^^ b1) (a2 ^^^ b2) (a3 ^^^ b3) =
      ofWords a0 a1 a2 a3 ^^^ ofWords b0 b1 b2 b3 := by
  apply BitVec.eq_of_getLsbD_eq
  intro i hi
  simp only [getLsbD_ofWords, BitVec.getLsbD_xor]
  grind

/-! ## Counter mode -/

/-- The bytes combined with those of the encrypted counter blocks. -/
def ctr (E : BitVec 128 → BitVec 128) (counter : Nat → BitVec 128) (msg : List Byte) :
    List Byte :=
  msg.mapIdx fun i b => b ^^^ byteAt (E (counter (i / 16))) (i % 16)

section Ctr

variable (E : BitVec 128 → BitVec 128) (counter : Nat → BitVec 128)

@[simp] theorem length_ctr (msg : List Byte) : (ctr E counter msg).length = msg.length :=
  List.length_mapIdx

@[simp] theorem ctr_nil : ctr E counter [] = [] := rfl

/-- What is encrypted twice is as it was. -/
theorem ctr_ctr (msg : List Byte) : ctr E counter (ctr E counter msg) = msg := by
  apply List.ext_getElem
  · rw [length_ctr, length_ctr]
  · intro i h1 h2
    simp only [ctr, List.getElem_mapIdx, BitVec.xor_assoc, BitVec.xor_self, BitVec.xor_zero]

/-- A whole block, and the bytes behind it with the next counters. -/
theorem ctr_append {pre : List Byte} (hpre : pre.length = 16) (msg : List Byte) :
    ctr E counter (pre ++ msg) = ctr E counter pre ++ ctr E (fun n => counter (n + 1)) msg := by
  unfold ctr
  rw [List.mapIdx_append]
  congr 1
  apply List.ext_getElem
  · rw [List.length_mapIdx, List.length_mapIdx]
  · intro i h1 h2
    have hdiv : (i + 16) / 16 = i / 16 + 1 := by omega
    have hmod : (i + 16) % 16 = i % 16 := by omega
    simp only [List.getElem_mapIdx, hpre, hdiv, hmod]

/-- Within the first block. -/
theorem ctr_short {msg : List Byte} (h : msg.length ≤ 16) :
    ctr E counter msg = msg.mapIdx fun i b => b ^^^ byteAt (E (counter 0)) i := by
  apply List.ext_getElem
  · rw [length_ctr, List.length_mapIdx]
  · intro i h1 h2
    rw [length_ctr] at h1
    have hdiv : i / 16 = 0 := by omega
    have hmod : i % 16 = i := by omega
    simp only [ctr, List.getElem_mapIdx, hdiv, hmod]

end Ctr

/-! ## CMAC -/

/-- The block times x, in the field with 2^128 elements. -/
def double (x : BitVec 128) : BitVec 128 := if x.msb then x <<< 1 ^^^ 0x87 else x <<< 1

/-- The cipher block chaining from a block on. -/
def chain (E : BitVec 128 → BitVec 128) (c : BitVec 128) (blocks : List (BitVec 128)) :
    BitVec 128 := blocks.foldl (fun c b => E (c ^^^ b)) c

/-- The number of the blocks before the last one. -/
def leading (msg : List Byte) : Nat := (msg.length - 1) / 16

/-- The first `n` blocks. -/
def blocks (msg : List Byte) (n : Nat) : List (BitVec 128) :=
  (List.range n).map fun i => block (window msg (16 * i) 16)

/-- The last block under its subkey: a shorter one is padded with a one bit and zeros. -/
def lastBlock (E : BitVec 128 → BitVec 128) (tail : List Byte) : BitVec 128 :=
  if tail.length = 16 then block tail ^^^ double (E 0)
  else block (tail ++ [0x80]) ^^^ double (double (E 0))

/-- CMAC from a chaining block on. -/
def cmacFrom (E : BitVec 128 → BitVec 128) (c : BitVec 128) (msg : List Byte) : BitVec 128 :=
  E (chain E c (blocks msg (leading msg)) ^^^ lastBlock E (msg.drop (16 * leading msg)))

/-- The message authentication code. -/
def cmac (E : BitVec 128 → BitVec 128) (msg : List Byte) : BitVec 128 := cmacFrom E 0 msg

section Cmac

variable (E : BitVec 128 → BitVec 128) (c : BitVec 128)

/-- A message of one block. -/
theorem cmacFrom_last {msg : List Byte} (h : msg.length ≤ 16) :
    cmacFrom E c msg = E (c ^^^ lastBlock E msg) := by
  have hleading : leading msg = 0 := by
    unfold leading
    omega
  rw [cmacFrom, hleading]
  rfl

theorem blocks_append {pre : List Byte} (hpre : pre.length = 16) (msg : List Byte) (n : Nat) :
    blocks (pre ++ msg) (n + 1) = block pre :: blocks msg n := by
  have hfirst : window (pre ++ msg) (16 * 0) 16 = pre := by
    rw [Nat.mul_zero, window, List.drop_zero, List.take_left' hpre]
  have hnext : ∀ i, window (pre ++ msg) (16 * (i + 1)) 16 = window msg (16 * i) 16 := by
    intro i
    have hdrop : 16 * (i + 1) = pre.length + 16 * i := by omega
    rw [window, hdrop, List.drop_length_add_append, window]
  unfold blocks
  rw [List.range_succ_eq_map, List.map_cons, List.map_map, hfirst]
  simp only [Function.comp_def, Nat.succ_eq_add_one, hnext]

/-- A first block that is not the last one. -/
theorem cmacFrom_append {pre : List Byte} (hpre : pre.length = 16) {msg : List Byte}
    (hmsg : msg ≠ []) : cmacFrom E c (pre ++ msg) = cmacFrom E (E (c ^^^ block pre)) msg := by
  have hpos : 0 < msg.length := List.length_pos_of_ne_nil hmsg
  have hleading : leading (pre ++ msg) = leading msg + 1 := by
    unfold leading
    rw [List.length_append]
    omega
  have hdrop : 16 * (leading msg + 1) = pre.length + 16 * leading msg := by omega
  rw [cmacFrom, hleading, blocks_append hpre, hdrop, List.drop_length_add_append]
  rfl

end Cmac

end LuaRtos.Crypto
