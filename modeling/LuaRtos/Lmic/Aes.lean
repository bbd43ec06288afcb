/-
  LuaRtos.Lmic.Aes

  `os_aes` of lmic/aes.c: one loop over the blocks for the encryption, the counter mode and the
  message authentication code.

  The encryption of one block under a key is the parameter `E`; what is here is what the loop
  does around it.  `buf` is the block of memory from the pointer on.
-/

import LuaRtos.CLib.While
import LuaRtos.CLib.Mem
import LuaRtos.Crypto.BlockMode
import Mathlib.Tactic.IntervalCases

namespace LuaRtos.Lmic

open LuaRtos.CLib LuaRtos.Crypto

def aesEnc : Byte := 0x00
def aesMic : Byte := 0x02
def aesCtr : Byte := 0x04
def aesMicnoaux : Byte := 0x08
/-- AES_MICSUB, which subkey the last block is under. -/
def aesMicsub : Byte := 0x30

/-! ## The words of a block -/

/-- Four words, as the locals `a0` to `a3` and as AESAUX. -/
structure Quad where
  a0 : BitVec 32
  a1 : BitVec 32
  a2 : BitVec 32
  a3 : BitVec 32
deriving DecidableEq, Repr

namespace Quad

def zero : Quad := ⟨0, 0, 0, 0⟩

def bits (q : Quad) : BitVec 128 := ofWords q.a0 q.a1 q.a2 q.a3

def ofBits (x : BitVec 128) : Quad :=
  ⟨(x >>> 96).setWidth 32, (x >>> 64).setWidth 32, (x >>> 32).setWidth 32, x.setWidth 32⟩

/-- Words of memory behind `swapmsbf`. -/
def ofBytes (bs : List Byte) : Quad := ⟨wordAt bs 0, wordAt bs 4, wordAt bs 8, wordAt bs 12⟩

def xor (q r : Quad) : Quad := ⟨q.a0 ^^^ r.a0, q.a1 ^^^ r.a1, q.a2 ^^^ r.a2, q.a3 ^^^ r.a3⟩

/-- The next CMAC subkey. -/
def subkey (q : Quad) : Quad where
  a0 := q.a0 <<< 1 ||| q.a1 >>> 31
  a1 := q.a1 <<< 1 ||| q.a2 >>> 31
  a2 := q.a2 <<< 1 ||| q.a3 >>> 31
  a3 := if q.a0 >>> 31 ≠ 0 then q.a3 <<< 1 ^^^ 0x87 else q.a3 <<< 1

@[simp] theorem bits_zero : zero.bits = 0 := by decide

@[simp] theorem bits_ofBits (x : BitVec 128) : (ofBits x).bits = x := by
  apply BitVec.eq_of_getLsbD_eq
  intro i hi
  simp only [bits, ofBits, getLsbD_ofWords, BitVec.getLsbD_setWidth, BitVec.getLsbD_ushiftRight]
  grind

@[simp] theorem bits_ofBytes (bs : List Byte) : (ofBytes bs).bits = block bs := rfl

@[simp] theorem bits_xor (q r : Quad) : (q.xor r).bits = q.bits ^^^ r.bits :=
  ofWords_xor q.a0 q.a1 q.a2 q.a3 r.a0 r.a1 r.a2 r.a3

theorem msb_bits (q : Quad) : q.bits.msb = q.a0.msb := by
  rw [BitVec.msb_eq_getLsbD_last, BitVec.msb_eq_getLsbD_last, bits, getLsbD_ofWords]
  rfl

theorem shift_ne_zero_iff (a : BitVec 32) : a >>> 31 ≠ 0 ↔ a.msb = true := by
  have ha := a.isLt
  have hzero : (0 : BitVec 32).toNat = 0 := rfl
  rw [BitVec.msb_eq_decide, decide_eq_true_iff, Ne, ← BitVec.toNat_inj, BitVec.toNat_ushiftRight,
    Nat.shiftRight_eq_div_pow, hzero]
  omega

/-- The doubling on words. -/
@[simp] theorem bits_subkey (q : Quad) : q.subkey.bits = double q.bits := by
  unfold double
  rw [msb_bits]
  by_cases hmsb : q.a0.msb = true
  · rw [if_pos hmsb]
    have ha3 : q.subkey.a3 = q.a3 <<< 1 ^^^ 0x87 := if_pos ((shift_ne_zero_iff q.a0).mpr hmsb)
    apply BitVec.eq_of_getLsbD_eq
    intro i hi
    have hlow : (0x87 : BitVec 128).getLsbD i =
        (decide (i < 32) && (0x87 : BitVec 32).getLsbD i) := by
      have h : (0x87 : BitVec 128) = (0x87 : BitVec 32).setWidth 128 := rfl
      rw [h, BitVec.getLsbD_setWidth]
      grind
    rw [bits, getLsbD_ofWords, ha3]
    simp only [subkey, bits, getLsbD_ofWords, BitVec.getLsbD_xor, BitVec.getLsbD_or,
      BitVec.getLsbD_shiftLeft, BitVec.getLsbD_ushiftRight, hlow]
    grind
  · rw [if_neg hmsb]
    have ha3 : q.subkey.a3 = q.a3 <<< 1 :=
      if_neg fun h => hmsb ((shift_ne_zero_iff q.a0).mp h)
    apply BitVec.eq_of_getLsbD_eq
    intro i hi
    rw [bits, getLsbD_ofWords, ha3]
    simp only [subkey, bits, getLsbD_ofWords, BitVec.getLsbD_or, BitVec.getLsbD_shiftLeft,
      BitVec.getLsbD_ushiftRight]
    grind

end Quad

/-! ## The loop -/

/-- The variables of the loop. -/
structure Aes where
  mode : Byte
  buf : List Byte
  pos : Nat
  len : BitVec 16
  aux : Quad
deriving DecidableEq, Repr

/-- A byte of the data block, with the padding behind the data. -/
def dataByte (s : Aes) (t0 : Nat) : Result Byte :=
  if t0 < s.len.toNat then load s.buf (s.pos + t0)
  else pure (if t0 = s.len.toNat then 0x80 else 0x00)

/-- One round of the loop at LOADDATA, on `a0` to `a3` and `t1`. -/
def loadRound (s : Aes) (r : Quad × BitVec 32) (t0 : Nat) : Result (Quad × BitVec 32) := do
  let b ← dataByte s t0
  let t1 := r.2 <<< 8 ||| b.setWidth 32
  pure (if t0 &&& 3 = 3 then ⟨r.1.a1, r.1.a2, r.1.a3, t1⟩ else r.1, t1)

/-- LOADDATA. -/
def loadData (s : Aes) (a : Quad) : Result Quad := do
  let r ← (List.range 16).foldlM (loadRound s) (a, 0)
  pure (if s.mode &&& aesMic ≠ 0 then r.1.xor s.aux else r.1)

/-- One round of the loop over the bytes of a block in the counter mode. -/
def ctrRound (s : Aes) (r : List Byte × Quad) (t1 : Nat) : Result (List Byte × Quad) := do
  let b ← load r.1 (s.pos + t1)
  let buf ← store r.1 (s.pos + t1) (b ^^^ (r.2.a0 >>> 24).setWidth 8)
  pure (buf, if t1 &&& 3 = 3 then ⟨r.2.a1, r.2.a2, r.2.a3, r.2.a3⟩
    else { r.2 with a0 := r.2.a0 <<< 8 })

/-- Four words to memory, with `msbf4_write`. -/
def Quad.bytes (q : Quad) : List Byte :=
  [q.a0, q.a1, q.a2, q.a3].flatMap fun a : BitVec 32 =>
    [(a >>> 24).setWidth 8, (a >>> 16).setWidth 8, (a >>> 8).setWidth 8, a.setWidth 8]

/-- The block state at the end of a round. -/
def blockDone (s : Aes) : Aes :=
  let s := if s.mode &&& aesMic = 0 ∨ s.mode &&& aesMicnoaux ≠ 0 then
      { s with pos := s.pos + 16, len := s.len - 16 }
    else s
  { s with mode := s.mode ||| aesMicnoaux }

section Loop

variable (E : BitVec 128 → BitVec 128)

/-- The encryption of `a0` to `a3`. -/
def encrypt (a : Quad) : Quad := Quad.ofBits (E a.bits)

/-- A round behind its encryption. -/
def cipherDone (s : Aes) (a : Quad) : Result Aes := do
  if s.mode &&& aesMic ≠ 0 then
    let t1 := (s.mode &&& aesMicsub) >>> 4
    if t1 ≠ 0 then
      -- the last block: the subkey, and LOADDATA
      let a := Nat.repeat Quad.subkey t1.toNat a
      let s := { s with aux := s.aux.xor a, mode := s.mode &&& ~~~aesMicsub }
      let a ← loadData s a
      pure (blockDone { s with aux := encrypt E a })
    else pure (blockDone { s with aux := a })
  else if s.mode &&& aesCtr ≠ 0 then
    let r ← (List.range (min 16 s.len.toNat)).foldlM (ctrRound s) (s.buf, a)
    pure (blockDone { s with buf := r.1, aux := { s.aux with a3 := s.aux.a3 + 1 } })
  else
    let buf ← storeBytes s.buf s.pos a.bytes
    pure (blockDone { s with buf := buf })

/-- One round. -/
def aesRound (s : Aes) : Result Aes := do
  if s.mode &&& aesCtr ≠ 0 ∨ s.mode &&& aesMic ≠ 0 ∧ s.mode &&& aesMicnoaux = 0 then
    cipherDone E s (encrypt E s.aux)
  else if s.mode &&& aesMic ≠ 0 ∧ s.len ≤ 16 then
    cipherDone E { s with mode := s.mode ||| (if s.len = 16 then 1 else 2 : Byte) <<< 4 }
      (encrypt E .zero)
  else
    let a ← loadData s .zero
    cipherDone E s (encrypt E a)

/-- `(signed char)len > 0`. -/
def aesMore (s : Aes) : Bool := decide (0 < (s.len.setWidth 8).toInt)

/-- The loop, which has at most nine rounds. -/
def aesLoop : Aes → Result Aes := whileLoop aesMore (aesRound E) 10

end Loop

/-- `os_aes`, with AESkey and AESaux as `key` and `aux`: what it returns, and the memory at
    `buf`. -/
def osAes (E : List Byte → BitVec 128 → BitVec 128) (key aux : List Byte) (mode : Byte)
    (buf : List Byte) (len : BitVec 16) : Result (BitVec 32 × List Byte) := do
  let aux := if mode &&& aesMicnoaux ≠ 0 then Quad.zero else Quad.ofBytes aux
  let s ← aesLoop (E key) ⟨mode, buf, 0, len, aux⟩
  pure (s.aux.a0, s.buf)

/-! ## The data of a block -/

/-- What LOADDATA reads, with the padding. -/
def dataBlock (s : Aes) : List Byte := window s.buf s.pos (min 16 s.len.toNat) ++ [0x80]

section Data

variable {s : Aes}

theorem dataByte_eq (hfit : s.pos + min 16 s.len.toNat ≤ s.buf.length) {t0 : Nat} (ht0 : t0 < 16) :
    dataByte s t0 = .ok ((dataBlock s).getD t0 0) := by
  have hlen : (window s.buf s.pos (min 16 s.len.toNat)).length = min 16 s.len.toNat :=
    length_window hfit
  unfold dataByte dataBlock
  by_cases hlt : t0 < s.len.toNat
  · have hmin : t0 < min 16 s.len.toNat := by omega
    have hbuf : s.pos + t0 < s.buf.length := by omega
    rw [if_pos hlt, load_of_lt hbuf, List.getD_eq_getElem?_getD,
      List.getElem?_append_left (by omega), getElem?_window hmin, List.getElem?_eq_getElem hbuf]
    rfl
  · have hmin : min 16 s.len.toNat = s.len.toNat := by omega
    rw [if_neg hlt, List.getD_eq_getElem?_getD, List.getElem?_append_right (by omega), hlen, hmin]
    by_cases heq : t0 = s.len.toNat
    · rw [if_pos heq, heq, Nat.sub_self]
      rfl
    · have hnone : ([0x80] : List Byte)[t0 - s.len.toNat]? = none :=
        List.getElem?_eq_none (by rw [List.length_singleton]; omega)
      rw [if_neg heq, hnone]
      rfl

theorem loadRounds_eq {v : Nat → Byte} (hv : ∀ t0 < 16, dataByte s t0 = .ok (v t0)) (a : Quad) :
    (List.range 16).foldlM (loadRound s) (a, 0) =
      .ok (⟨word (v 0) (v 1) (v 2) (v 3), word (v 4) (v 5) (v 6) (v 7),
        word (v 8) (v 9) (v 10) (v 11), word (v 12) (v 13) (v 14) (v 15)⟩,
        word (v 12) (v 13) (v 14) (v 15)) := by
  have hround : ∀ (r : Quad × BitVec 32) (t0 : Nat), t0 < 16 → loadRound s r t0 =
      .ok (if t0 &&& 3 = 3 then ⟨r.1.a1, r.1.a2, r.1.a3, r.2 <<< 8 ||| (v t0).setWidth 32⟩ else r.1,
        r.2 <<< 8 ||| (v t0).setWidth 32) := by
    intro r t0 ht0
    rw [loadRound, hv t0 ht0]
    rfl
  have hrange : List.range 16 = [0, 1, 2, 3, 4, 5, 6, 7, 8, 9, 10, 11, 12, 13, 14, 15] := rfl
  have hfirst := shift_word 0 (v 0) (v 1) (v 2) (v 3)
  simp only [BitVec.ofNat_eq_ofNat, BitVec.zero_shiftLeft, BitVec.zero_or] at hfirst
  simp [hrange, hround, hfirst, shift_word]

/-- LOADDATA, whatever was in the words before. -/
theorem loadData_ok (hfit : s.pos + min 16 s.len.toNat ≤ s.buf.length) (a : Quad) :
    ∃ q, loadData s a = .ok q ∧ q.bits =
      if s.mode &&& aesMic ≠ 0 then block (dataBlock s) ^^^ s.aux.bits
      else block (dataBlock s) := by
  have hrounds := loadRounds_eq (v := fun t0 => (dataBlock s).getD t0 0)
    (fun t0 ht0 => dataByte_eq hfit ht0) a
  refine ⟨_, by rw [loadData, hrounds]; rfl, ?_⟩
  split
  · exact Quad.bits_xor _ _
  · rfl

/-- The padding of a whole block is not looked at. -/
theorem block_append {bs : List Byte} (h : bs.length = 16) (cs : List Byte) :
    block (bs ++ cs) = block bs := by
  have hget : ∀ i < 16, (bs ++ cs).getD i 0 = bs.getD i 0 := by
    intro i hi
    rw [List.getD_eq_getElem?_getD, List.getElem?_append_left (by omega),
      ← List.getD_eq_getElem?_getD]
  simp only [block, wordAt, hget, Nat.reduceAdd, Nat.reduceLT]

end Data

/-! ## The message authentication code -/

section Mic

variable (E : BitVec 128 → BitVec 128) {s : Aes}

theorem aesMore_iff (s : Aes) (h : s.len.toNat ≤ 127) : aesMore s = decide (0 < s.len.toNat) := by
  have hlow : (s.len.setWidth 8).toInt = s.len.toNat := by
    rw [BitVec.toInt_eq_toNat_of_lt] <;> rw [BitVec.toNat_setWidth, Nat.mod_eq_of_lt (by omega)]
    omega
  rw [aesMore, hlow]
  exact decide_eq_decide.mpr (by omega)

/-- The loop is left behind the last block, where the length is not positive any more. -/
theorem aesMore_end (s : Aes) (h : s.len.toNat ≤ 16) :
    aesMore { s with len := s.len - 16 } = false := by
  have hlow : ((s.len - 16).setWidth 8).toInt ≤ 0 := by
    rw [BitVec.toInt_eq_toNat_cond, BitVec.toNat_setWidth, BitVec.toNat_sub]
    have h16 : (16 : BitVec 16).toNat = 16 := rfl
    rw [h16]
    split <;> omega
  exact decide_eq_false (Int.not_lt.mpr hlow)

theorem blockDone_mic (hmode : s.mode = aesMic ||| aesMicnoaux) :
    blockDone s = { s with pos := s.pos + 16, len := s.len - 16 } := by
  have hnoaux : s.mode &&& aesMic = 0 ∨ s.mode &&& aesMicnoaux ≠ 0 := by
    rw [hmode]
    decide
  have hor : s.mode ||| aesMicnoaux = s.mode := by
    rw [hmode]
    decide
  rw [blockDone, if_pos hnoaux]
  dsimp only
  rw [hor]

/-- The round with the block in AESaux. -/
theorem aesRound_mic_first (hmode : s.mode = aesMic) : aesRound E s =
    .ok { s with mode := aesMic ||| aesMicnoaux, aux := encrypt E s.aux } := by
  have hfirst : s.mode &&& aesCtr ≠ 0 ∨ s.mode &&& aesMic ≠ 0 ∧ s.mode &&& aesMicnoaux = 0 := by
    rw [hmode]
    decide
  have hmic : s.mode &&& aesMic ≠ 0 := by
    rw [hmode]
    decide
  have hsub : ¬ (s.mode &&& aesMicsub) >>> 4 ≠ 0 := by
    rw [hmode]
    decide
  have hstay : ¬ (s.mode &&& aesMic = 0 ∨ s.mode &&& aesMicnoaux ≠ 0) := by
    rw [hmode]
    decide
  rw [aesRound, if_pos hfirst, cipherDone, if_pos hmic]
  dsimp only
  rw [if_neg hsub, pure_eq_ok, blockDone, if_neg hstay, hmode]

/-- A round with a block that is not the last one. -/
theorem aesRound_mic (hmode : s.mode = aesMic ||| aesMicnoaux) (hlen : 16 < s.len.toNat)
    (hfit : s.pos + 16 ≤ s.buf.length) : ∃ aux, aesRound E s =
      .ok { s with pos := s.pos + 16, len := s.len - 16, aux := aux } ∧
    aux.bits = E (s.aux.bits ^^^ block (window s.buf s.pos 16)) := by
  have hmin : min 16 s.len.toNat = 16 := by omega
  obtain ⟨q, hload, hq⟩ := loadData_ok (s := s) (by omega) .zero
  have hwindow : (window s.buf s.pos 16).length = 16 := length_window hfit
  have hmic : (aesMic ||| aesMicnoaux) &&& aesMic ≠ 0 := by decide
  rw [dataBlock, hmin, block_append hwindow, hmode, if_pos hmic, BitVec.xor_comm] at hq
  have hle : ¬ s.len ≤ 16 := by
    rw [BitVec.le_def]
    exact Nat.not_le_of_lt hlen
  refine ⟨encrypt E q, ?_, ?_⟩
  · rw [aesRound, if_neg, if_neg, hload]
    · simp [cipherDone, blockDone, hmode, aesMic, aesMicnoaux, aesMicsub]
    · exact fun h => hle h.2
    · rw [hmode]
      decide
  · rw [encrypt, Quad.bits_ofBits, hq]

/-- Behind the encryption of the null block: the subkey, and the last block under it. -/
theorem cipherDone_last {t1 : Byte} (ht1 : t1 = 1 ∨ t1 = 2)
    (hmode : s.mode = aesMic ||| aesMicnoaux ||| t1 <<< 4) (a q : Quad)
    (hload : loadData { s with
      aux := s.aux.xor (Nat.repeat Quad.subkey t1.toNat a), mode := aesMic ||| aesMicnoaux }
      (Nat.repeat Quad.subkey t1.toNat a) = .ok q) :
    cipherDone E s a = .ok { s with
      mode := aesMic ||| aesMicnoaux
      pos := s.pos + 16
      len := s.len - 16
      aux := encrypt E q } := by
  have hmic : s.mode &&& aesMic ≠ 0 := by
    rcases ht1 with rfl | rfl <;> rw [hmode] <;> decide
  have hsub : (s.mode &&& aesMicsub) >>> 4 = t1 := by
    rcases ht1 with rfl | rfl <;> rw [hmode] <;> decide
  have hclear : s.mode &&& ~~~aesMicsub = aesMic ||| aesMicnoaux := by
    rcases ht1 with rfl | rfl <;> rw [hmode] <;> decide
  have hne : t1 ≠ 0 := by
    rcases ht1 with rfl | rfl <;> decide
  rw [cipherDone, if_pos hmic]
  dsimp only
  rw [hsub, if_pos hne, hclear, hload, ok_bind, pure_eq_ok, blockDone_mic rfl]

/-- The subkey is that of CMAC. -/
theorem subkey_bits (n : BitVec 16) :
    (Nat.repeat Quad.subkey (if n = 16 then 1 else 2 : Byte).toNat (encrypt E .zero)).bits =
      if n.toNat = 16 then double (E 0) else double (double (E 0)) := by
  have hiff : n = 16 ↔ n.toNat = 16 := BitVec.toNat_inj.symm
  by_cases h16 : n = 16
  · rw [if_pos h16, if_pos (hiff.mp h16)]
    show (Quad.subkey (encrypt E .zero)).bits = _
    rw [Quad.bits_subkey, encrypt, Quad.bits_ofBits, Quad.bits_zero]
  · rw [if_neg h16, if_neg fun h => h16 (hiff.mpr h)]
    show (Quad.subkey (Quad.subkey (encrypt E .zero))).bits = _
    rw [Quad.bits_subkey, Quad.bits_subkey, encrypt, Quad.bits_ofBits, Quad.bits_zero]

/-- The round with the last block. -/
theorem aesRound_mic_last (hmode : s.mode = aesMic ||| aesMicnoaux)
    (hlen : s.len.toNat ≤ 16) (hfit : s.pos + s.len.toNat ≤ s.buf.length) :
    ∃ aux, aesRound E s = .ok { s with pos := s.pos + 16, len := s.len - 16, aux := aux } ∧
      aux.bits = E (s.aux.bits ^^^ lastBlock E (window s.buf s.pos s.len.toNat)) := by
  have hmin : min 16 s.len.toNat = s.len.toNat := by omega
  have hwindow : (window s.buf s.pos s.len.toNat).length = s.len.toNat := length_window hfit
  have hfirst : ¬ (s.mode &&& aesCtr ≠ 0 ∨ s.mode &&& aesMic ≠ 0 ∧ s.mode &&& aesMicnoaux = 0) := by
    rw [hmode]
    decide
  have hlast : s.mode &&& aesMic ≠ 0 ∧ s.len ≤ 16 := by
    rw [hmode]
    exact ⟨by decide, hlen⟩
  have ht1 : (if s.len = 16 then 1 else 2 : Byte) = 1 ∨
      (if s.len = 16 then 1 else 2 : Byte) = 2 := by
    split
    · exact .inl rfl
    · exact .inr rfl
  have hk := subkey_bits E s.len
  generalize heq : (if s.len = 16 then 1 else 2 : Byte) = t1 at ht1 hk
  obtain ⟨q, hload, hq⟩ := loadData_ok (s := { s with
    aux := s.aux.xor (Nat.repeat Quad.subkey t1.toNat (encrypt E .zero)),
    mode := aesMic ||| aesMicnoaux }) (by rw [hmin]; exact hfit)
    (Nat.repeat Quad.subkey t1.toNat (encrypt E .zero))
  refine ⟨encrypt E q, ?_, ?_⟩
  · rw [aesRound, if_neg hfirst, if_pos hlast, heq]
    have hdone := cipherDone_last (s := { s with mode := s.mode ||| t1 <<< 4 }) E ht1
      (by rw [hmode]) (encrypt E .zero) q hload
    rw [hdone, hmode]
  · have hmic : (aesMic ||| aesMicnoaux) &&& aesMic ≠ 0 := by decide
    have hdata : q.bits = block (window s.buf s.pos s.len.toNat ++ [0x80]) ^^^
        (s.aux.bits ^^^ (Nat.repeat Quad.subkey t1.toNat (encrypt E .zero)).bits) := by
      rw [hq, if_pos hmic, dataBlock, hmin, Quad.bits_xor]
    rw [encrypt, Quad.bits_ofBits, hdata, hk, lastBlock, hwindow]
    split
    next h16 =>
      rw [block_append (hwindow.trans h16), BitVec.xor_comm, BitVec.xor_assoc,
        BitVec.xor_comm (double _)]
    next => rw [BitVec.xor_comm, BitVec.xor_assoc, BitVec.xor_comm (double _)]
/-- The rounds over the data. -/
theorem aesLoop_mic (fuel : Nat) (hmode : s.mode = aesMic ||| aesMicnoaux) (hpos : 0 < s.len.toNat)
    (hlen : s.len.toNat ≤ 127) (hfit : s.pos + s.len.toNat ≤ s.buf.length)
    (hfuel : (s.len.toNat + 15) / 16 < fuel) :
    ∃ s', whileLoop aesMore (aesRound E) fuel s = .ok s' ∧ s'.buf = s.buf ∧
      s'.aux.bits = cmacFrom E s.aux.bits (window s.buf s.pos s.len.toNat) := by
  induction fuel generalizing s with
  | zero => omega
  | succ fuel ih =>
    have hmore : aesMore s = true := by
      rw [aesMore_iff s hlen]
      exact decide_eq_true hpos
    by_cases hlast : s.len.toNat ≤ 16
    · obtain ⟨aux, hround, haux⟩ := aesRound_mic_last E hmode hlast hfit
      obtain ⟨fuel, rfl⟩ : ∃ m, fuel = m + 1 := ⟨fuel - 1, by omega⟩
      have hend : aesMore { s with pos := s.pos + 16, len := s.len - 16, aux := aux } = false :=
        aesMore_end s hlast
      rw [whileLoop_round hmore hround, whileLoop_done hend]
      refine ⟨_, rfl, rfl, ?_⟩
      rw [cmacFrom_last E _ (by rw [length_window hfit]; exact hlast)]
      exact haux
    · obtain ⟨aux, hround, haux⟩ := aesRound_mic E hmode (by omega) (by omega)
      have hsub : (s.len - 16).toNat = s.len.toNat - 16 :=
        BitVec.toNat_sub_of_le (show (16 : BitVec 16).toNat ≤ s.len.toNat from by
          show 16 ≤ _
          omega)
      obtain ⟨s', hrun, hbuf, hbits⟩ :=
        ih (s := { s with pos := s.pos + 16, len := s.len - 16, aux := aux }) hmode
          (by rw [hsub]; omega) (by rw [hsub]; omega)
          (by show s.pos + 16 + (s.len - 16).toNat ≤ s.buf.length; rw [hsub]; omega)
          (by rw [hsub]; omega)
      rw [whileLoop_round hmore hround]
      refine ⟨s', hrun, hbuf, ?_⟩
      have hsplit : window s.buf s.pos s.len.toNat =
          window s.buf s.pos 16 ++ window s.buf (s.pos + 16) (s.len.toNat - 16) := by
        rw [← window_add]
        congr 1
        omega
      have hne : window s.buf (s.pos + 16) (s.len.toNat - 16) ≠ [] := by
        apply List.ne_nil_of_length_pos
        rw [length_window (by omega)]
        omega
      rw [hbits, haux, hsub, hsplit, cmacFrom_append E _ (length_window (by omega)) hne]

theorem a0_eq (q : Quad) : q.a0 = (q.bits >>> 96).setWidth 32 := by
  apply BitVec.eq_of_getLsbD_eq
  intro i hi
  simp only [Quad.bits, getLsbD_ofWords, BitVec.getLsbD_setWidth, BitVec.getLsbD_ushiftRight]
  grind

end Mic

/-- The first word of the authentication code. -/
def tag (x : BitVec 128) : BitVec 32 := (x >>> 96).setWidth 32

/-- With the block in AESaux before the data, `os_aes` computes CMAC. -/
theorem osAes_mic (E : List Byte → BitVec 128 → BitVec 128) (key : List Byte) {aux buf : List Byte}
    {len : BitVec 16} (haux : aux.length = 16) (hpos : 0 < len.toNat) (hlen : len.toNat ≤ 127)
    (hfit : len.toNat ≤ buf.length) :
    osAes E key aux aesMic buf len =
      .ok (tag (cmac (E key) (aux ++ buf.take len.toNat)), buf) := by
  let s : Aes := ⟨aesMic, buf, 0, len, .ofBytes aux⟩
  have hmore : aesMore s = true := by
    rw [aesMore_iff s hlen]
    exact decide_eq_true hpos
  have hround : aesRound (E key) s = .ok { s with
      mode := aesMic ||| aesMicnoaux, aux := encrypt (E key) (.ofBytes aux) } :=
    aesRound_mic_first (E key) rfl
  obtain ⟨s', hrun, hbuf, hbits⟩ := aesLoop_mic (E key) (s := { s with
    mode := aesMic ||| aesMicnoaux, aux := encrypt (E key) (.ofBytes aux) }) 9 rfl hpos hlen
    (by show 0 + len.toNat ≤ buf.length; omega) (by show (len.toNat + 15) / 16 < 9; omega)
  have hne : buf.take len.toNat ≠ [] := by
    apply List.ne_nil_of_length_pos
    rw [List.length_take]
    omega
  have hcmac : s'.aux.bits = cmac (E key) (aux ++ buf.take len.toNat) := by
    have hzero : (0 : BitVec 128) ^^^ block aux = block aux := BitVec.zero_xor
    rw [hbits, cmac, cmacFrom_append (E key) 0 haux hne, hzero]
    show cmacFrom _ (encrypt _ _).bits ((buf.drop 0).take len.toNat) = _
    rw [encrypt, Quad.bits_ofBits, Quad.bits_ofBytes, List.drop_zero]
  show (aesLoop (E key) s >>= fun s => .ok (s.aux.a0, s.buf)) = _
  rw [aesLoop, whileLoop_round hmore hround, hrun, ok_bind, a0_eq, hcmac, hbuf]
  rfl

/-- Without it, of the data alone. -/
theorem osAes_micnoaux (E : List Byte → BitVec 128 → BitVec 128) (key aux : List Byte)
    {buf : List Byte} {len : BitVec 16} (hpos : 0 < len.toNat) (hlen : len.toNat ≤ 127)
    (hfit : len.toNat ≤ buf.length) :
    osAes E key aux (aesMic ||| aesMicnoaux) buf len =
      .ok (tag (cmac (E key) (buf.take len.toNat)), buf) := by
  obtain ⟨s', hrun, hbuf, hbits⟩ := aesLoop_mic (E key) (s := ⟨aesMic ||| aesMicnoaux, buf, 0, len,
    .zero⟩) 10 rfl hpos hlen (by show 0 + len.toNat ≤ buf.length; omega)
    (by show (len.toNat + 15) / 16 < 10; omega)
  have hcmac : s'.aux.bits = cmac (E key) (buf.take len.toNat) := by
    rw [hbits]
    show cmacFrom _ Quad.zero.bits ((buf.drop 0).take len.toNat) = _
    rw [Quad.bits_zero, List.drop_zero, cmac]
  show (aesLoop (E key) ⟨_, buf, 0, len, .zero⟩ >>= fun s => .ok (s.aux.a0, s.buf)) = _
  rw [aesLoop, hrun, ok_bind, a0_eq, hcmac, hbuf]
  rfl

/-! ## The counter mode -/

/-- The words after `n` bytes. -/
def ctrWords (a : Quad) : Nat → Quad
  | 0 => a
  | n + 1 =>
    let a := ctrWords a n
    if n &&& 3 = 3 then ⟨a.a1, a.a2, a.a3, a.a3⟩ else { a with a0 := a.a0 <<< 8 }

theorem ctrWords_byte (a : Quad) {i : Nat} (hi : i < 16) :
    ((ctrWords a i).a0 >>> 24).setWidth 8 = byteAt a.bits i := by
  apply BitVec.eq_of_getLsbD_eq
  intro j hj
  rw [byteAt, BitVec.getLsbD_setWidth, BitVec.getLsbD_setWidth, BitVec.getLsbD_ushiftRight,
    BitVec.getLsbD_ushiftRight, Quad.bits, getLsbD_ofWords]
  interval_cases i <;> simp [ctrWords] <;> grind

section Ctr

variable (E : BitVec 128 → BitVec 128) {s : Aes}

theorem window_one {buf : List Byte} {i : Nat} (hi : i < buf.length) :
    window buf i 1 = [buf[i]] := by
  rw [window, List.drop_eq_getElem_cons hi]
  rfl

/-- The bytes of one block. -/
theorem ctrRounds_eq (s : Aes) (buf : List Byte) (a : Quad) (n : Nat) (hn : n ≤ 16)
    (hfit : s.pos + n ≤ buf.length) : (List.range n).foldlM (ctrRound s) (buf, a) =
      .ok (overwrite buf s.pos ((window buf s.pos n).mapIdx fun i b => b ^^^ byteAt a.bits i),
        ctrWords a n) := by
  induction n with
  | zero => rw [window, List.take_zero, List.mapIdx_nil, overwrite_nil]; rfl
  | succ n ih =>
    have hlt : s.pos + n < buf.length := by omega
    have hlen : ((window buf s.pos n).mapIdx fun i b => b ^^^ byteAt a.bits i).length = n := by
      rw [List.length_mapIdx, length_window (by omega)]
    rw [List.range_succ, List.foldlM_append, ih (by omega) (by omega), ok_bind]
    -- the round at n, behind n bytes
    generalize hdone : (window buf s.pos n).mapIdx (fun i b => b ^^^ byteAt a.bits i) = done at hlen
    have hload : load (overwrite buf s.pos done) (s.pos + n) = .ok buf[s.pos + n] := by
      unfold load
      rw [getElem?_overwrite (by omega), hlen, if_neg (by omega), List.getElem?_eq_getElem hlt]
    have hstore : ∀ c, store (overwrite buf s.pos done) (s.pos + n) c =
        .ok (overwrite buf s.pos (done ++ [c])) := by
      intro c
      have hroom : s.pos + n < (overwrite buf s.pos done).length := by
        rw [length_overwrite (by omega)]
        exact hlt
      rw [store, if_pos hroom, ← overwrite_append (by rw [hlen, List.length_singleton]; omega),
        hlen, ← overwrite_set (by rw [List.length_nil]; omega), overwrite_nil]
    have hlast : (window buf s.pos (n + 1)).mapIdx (fun i b => b ^^^ byteAt a.bits i) =
        done ++ [buf[s.pos + n] ^^^ byteAt a.bits n] := by
      rw [window_add, window_one hlt, List.mapIdx_concat, hdone, length_window (by omega)]
    show (ctrRound s (overwrite buf s.pos done, ctrWords a n) n >>= pure) = _
    rw [bind_pure, ctrRound, hload, ok_bind, hstore, ok_bind, hlast, ctrWords_byte a (by omega)]
    rfl

/-- The counter blocks. -/
def counters (aux : Quad) (n : Nat) : BitVec 128 :=
  Quad.bits { aux with a3 := aux.a3 + BitVec.ofNat 32 n }

theorem counters_succ (aux : Quad) (n : Nat) :
    counters { aux with a3 := aux.a3 + 1 } n = counters aux (n + 1) := by
  have hsum : aux.a3 + 1 + BitVec.ofNat 32 n = aux.a3 + BitVec.ofNat 32 (n + 1) := by
    rw [Nat.add_comm n 1, BitVec.ofNat_add, BitVec.add_assoc]
    rfl
  unfold counters
  dsimp only
  rw [hsum]

/-- A round, with `m` bytes of the block. -/
theorem aesRound_ctr {m : Nat} (hctr : s.mode &&& aesCtr ≠ 0) (hmic : s.mode &&& aesMic = 0)
    (hm : min 16 s.len.toNat = m) (hfit : s.pos + m ≤ s.buf.length) : aesRound E s = .ok { s with
      mode := s.mode ||| aesMicnoaux
      buf := overwrite s.buf s.pos (ctr E (counters s.aux) (window s.buf s.pos m))
      pos := s.pos + 16
      len := s.len - 16
      aux := { s.aux with a3 := s.aux.a3 + 1 } } := by
  have hzero : counters s.aux 0 = s.aux.bits := by
    unfold counters
    rw [BitVec.add_zero]
  have hshort : (window s.buf s.pos m).length ≤ 16 := by
    rw [length_window hfit]
    omega
  rw [aesRound, if_pos (.inl hctr), cipherDone, if_neg (not_not_intro hmic), if_pos hctr, hm,
    ctrRounds_eq s s.buf _ m (by omega) hfit, ok_bind, pure_eq_ok, blockDone, if_pos (.inl hmic),
    ctr_short E _ hshort, hzero, encrypt, Quad.bits_ofBits]

theorem or_micnoaux (mode : Byte) : (mode ||| aesMicnoaux) &&& aesCtr = mode &&& aesCtr ∧
    (mode ||| aesMicnoaux) &&& aesMic = mode &&& aesMic := by
  have hctr : aesMicnoaux &&& aesCtr = 0#8 := by decide
  have hmic : aesMicnoaux &&& aesMic = 0#8 := by decide
  rw [BitVec.and_comm, BitVec.and_or_distrib_left, BitVec.and_comm aesCtr aesMicnoaux, hctr,
    BitVec.or_zero, BitVec.and_comm, BitVec.and_comm _ aesMic, BitVec.and_or_distrib_left,
    BitVec.and_comm aesMic aesMicnoaux, hmic, BitVec.or_zero, BitVec.and_comm aesMic]
  exact ⟨rfl, rfl⟩

/-- The rounds over the data. -/
theorem aesLoop_ctr (fuel : Nat) (hctr : s.mode &&& aesCtr ≠ 0) (hmic : s.mode &&& aesMic = 0)
    (hlen : s.len.toNat ≤ 127) (hfit : s.pos + s.len.toNat ≤ s.buf.length)
    (hfuel : (s.len.toNat + 15) / 16 < fuel) :
    ∃ s', whileLoop aesMore (aesRound E) fuel s = .ok s' ∧
      s'.buf = overwrite s.buf s.pos (ctr E (counters s.aux) (window s.buf s.pos s.len.toNat)) := by
  induction fuel generalizing s with
  | zero => omega
  | succ fuel ih =>
    by_cases hzero : s.len.toNat = 0
    · have hdone : aesMore s = false := by
        rw [aesMore_iff s hlen, hzero]
        rfl
      rw [whileLoop_done hdone]
      refine ⟨s, rfl, ?_⟩
      rw [hzero, window, List.take_zero, ctr_nil, overwrite_nil]
    have hmore : aesMore s = true := by
      rw [aesMore_iff s hlen]
      exact decide_eq_true (by omega)
    obtain ⟨hctr', hmic'⟩ := or_micnoaux s.mode
    have hround := aesRound_ctr E hctr hmic rfl (by omega)
    rw [whileLoop_round hmore hround]
    by_cases hlast : s.len.toNat ≤ 16
    · have hmin : min 16 s.len.toNat = s.len.toNat := by omega
      rw [hmin]
      obtain ⟨fuel, rfl⟩ : ∃ m, fuel = m + 1 := ⟨fuel - 1, by omega⟩
      rw [whileLoop_done (aesMore_end { s with
        mode := s.mode ||| aesMicnoaux
        buf := overwrite s.buf s.pos (ctr E (counters s.aux) (window s.buf s.pos s.len.toNat))
        pos := s.pos + 16
        aux := { s.aux with a3 := s.aux.a3 + 1 } } hlast)]
      exact ⟨_, rfl, rfl⟩
    · have hmin : min 16 s.len.toNat = 16 := by omega
      have hsub : (s.len - 16).toNat = s.len.toNat - 16 :=
        BitVec.toNat_sub_of_le (show 16 ≤ s.len.toNat by omega)
      have hblock : (ctr E (counters s.aux) (window s.buf s.pos 16)).length = 16 := by
        rw [length_ctr, length_window (by omega)]
      rw [hmin]
      generalize hdone : ctr E (counters s.aux) (window s.buf s.pos 16) = done at hblock
      have hbuf : (overwrite s.buf s.pos done).length = s.buf.length :=
        length_overwrite (by omega)
      obtain ⟨s', hrun, hs'⟩ := ih (s := { s with
          mode := s.mode ||| aesMicnoaux
          buf := overwrite s.buf s.pos done
          pos := s.pos + 16
          len := s.len - 16
          aux := { s.aux with a3 := s.aux.a3 + 1 } })
        (by rw [hctr']; exact hctr) (by rw [hmic']; exact hmic) (by rw [hsub]; omega)
        (by show s.pos + 16 + (s.len - 16).toNat ≤ (overwrite s.buf s.pos done).length
            rw [hbuf, hsub]; omega)
        (by rw [hsub]; omega)
      refine ⟨s', hrun, ?_⟩
      -- the data behind the block, which the round has left as they were
      have hrest : window (overwrite s.buf s.pos done) (s.pos + 16) (s.len.toNat - 16) =
          window s.buf (s.pos + 16) (s.len.toNat - 16) := by
        apply List.ext_getElem?
        intro j
        by_cases hj : j < s.len.toNat - 16
        · rw [getElem?_window hj, getElem?_window hj, getElem?_overwrite (by omega),
            if_neg (by omega)]
        · rw [List.getElem?_eq_none (by rw [length_window (by omega)]; omega),
            List.getElem?_eq_none (by rw [length_window (by omega)]; omega)]
      have hsplit : window s.buf s.pos s.len.toNat =
          window s.buf s.pos 16 ++ window s.buf (s.pos + 16) (s.len.toNat - 16) := by
        rw [← window_add]
        congr 1
        omega
      have hnext : counters { s.aux with a3 := s.aux.a3 + 1 } =
          fun n => counters s.aux (n + 1) := by
        funext n
        exact counters_succ s.aux n
      rw [hs', hsub, hnext]
      show overwrite (overwrite s.buf s.pos done) (s.pos + 16) (ctr E _
        (window (overwrite s.buf s.pos done) (s.pos + 16) (s.len.toNat - 16))) = _
      rw [hrest, hsplit, ctr_append E _ (length_window (by omega)), hdone]
      generalize hcs : ctr E (fun n => counters s.aux (n + 1))
        (window s.buf (s.pos + 16) (s.len.toNat - 16)) = cs
      have hcslen : cs.length = s.len.toNat - 16 := by
        rw [← hcs, length_ctr, length_window (by omega)]
      have happend : overwrite (overwrite s.buf s.pos done) (s.pos + done.length) cs =
          overwrite s.buf s.pos (done ++ cs) := overwrite_append (by omega)
      rw [hblock] at happend
      exact happend

end Ctr

/-- In the counter mode `os_aes` combines the data with the encrypted counter blocks. -/
theorem osAes_ctr (E : List Byte → BitVec 128 → BitVec 128) (key aux : List Byte)
    {buf : List Byte} {len : BitVec 16} (hlen : len.toNat ≤ 127) (hfit : len.toNat ≤ buf.length) :
    ∃ w, osAes E key aux aesCtr buf len = .ok (w,
      ctr (E key) (counters (.ofBytes aux)) (buf.take len.toNat) ++ buf.drop len.toNat) := by
  obtain ⟨s', hrun, hbuf⟩ := aesLoop_ctr (E key) (s := ⟨aesCtr, buf, 0, len, .ofBytes aux⟩) 10
    (show aesCtr &&& aesCtr ≠ 0 by decide) (show aesCtr &&& aesMic = 0 by decide) hlen
    (by show 0 + len.toNat ≤ buf.length; omega)
    (by show (len.toNat + 15) / 16 < 10; omega)
  refine ⟨s'.aux.a0, ?_⟩
  have hout : s'.buf =
      ctr (E key) (counters (.ofBytes aux)) (buf.take len.toNat) ++ buf.drop len.toNat := by
    rw [hbuf]
    show overwrite buf 0 (ctr _ _ ((buf.drop 0).take len.toNat)) = _
    rw [overwrite, List.drop_zero, length_ctr, List.length_take, Nat.min_eq_left hfit, Nat.zero_add]
    rfl
  show (aesLoop (E key) ⟨_, buf, 0, len, .ofBytes aux⟩ >>= fun s => .ok (s.aux.a0, s.buf)) = _
  rw [aesLoop, hrun, ok_bind, hout]

/-- What the counter mode has made is undone by the same call. -/
theorem osAes_ctr_ctr (E : List Byte → BitVec 128 → BitVec 128) (key aux : List Byte)
    {buf : List Byte} {len : BitVec 16} (hlen : len.toNat ≤ 127) (hfit : len.toNat ≤ buf.length) :
    ∃ w w' out, osAes E key aux aesCtr buf len = .ok (w, out) ∧
      osAes E key aux aesCtr out len = .ok (w', buf) := by
  obtain ⟨w, hout⟩ := osAes_ctr E key aux hlen hfit
  have hctr : (ctr (E key) (counters (.ofBytes aux)) (buf.take len.toNat)).length = len.toNat := by
    rw [length_ctr, List.length_take, Nat.min_eq_left hfit]
  obtain ⟨w', hback⟩ := @osAes_ctr E key aux (ctr (E key) (counters (.ofBytes aux))
    (buf.take len.toNat) ++ buf.drop len.toNat) len hlen
    (by rw [List.length_append, hctr]; omega)
  refine ⟨w, w', _, hout, ?_⟩
  rw [hback, List.take_left' hctr, List.drop_left' hctr, ctr_ctr, List.take_append_drop]

end LuaRtos.Lmic
