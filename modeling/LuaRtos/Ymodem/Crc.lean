/-
  LuaRtos.Ymodem.Crc

  `crc16` of ymodem.c, and the properties the protocol rests on: the check of a
  block followed by its own check, high byte first, is zero, and a change of one
  byte changes the check.
-/

import LuaRtos.CLib.Basic

namespace LuaRtos.Ymodem

open CLib

/-- One bit of the division. -/
def crcBit (crc : BitVec 16) : BitVec 16 :=
  if crc &&& 0x8000 ≠ 0 then crc <<< 1 ^^^ 0x1021 else crc <<< 1

/-- The eight bits of a byte. -/
def crcBits : Nat → BitVec 16 → BitVec 16
  | 0, crc => crc
  | n + 1, crc => crcBits n (crcBit crc)

/-- `crc16`, from the check of what comes before. -/
def crc16From (crc : BitVec 16) (buf : List Byte) : BitVec 16 :=
  buf.foldl (fun (crc : BitVec 16) (b : Byte) => crcBits 8 (crc ^^^ (b.setWidth 16) <<< 8)) crc

/-- `crc16`. -/
def crc16 (buf : List Byte) : BitVec 16 := crc16From 0 buf

/-- The two bytes of a check as a packet carries it. -/
def crcBytes (crc : BitVec 16) : List Byte := [(crc >>> 8).setWidth 8, (crc &&& 0xff).setWidth 8]

/-- A byte in the low half moves to the high half. -/
theorem crcBits_low : ∀ b : Byte, crcBits 8 (b.setWidth 16) = b.setWidth 16 <<< 8 := by
  decide

theorem crc_xor_high (crc : BitVec 16) :
    crc ^^^ ((crc >>> 8).setWidth 8).setWidth 16 <<< 8 =
      ((crc &&& 0xff).setWidth 8).setWidth 16 := by
  apply BitVec.eq_of_getLsbD_eq
  intro i hi
  by_cases h : i < 8
  · have hmask : (255#16)[i] = true := by
      revert i
      decide
    simp [h, hi]
    exact fun _ => hmask
  · have hle : i - 8 < 8 := by omega
    have hadd : 8 + (i - 8) = i := by omega
    simp [h, hi, hle, hadd]

theorem crc16_append (buf : List Byte) : crc16 (buf ++ crcBytes (crc16 buf)) = 0 := by
  have happ : crc16 (buf ++ crcBytes (crc16 buf)) = crc16From (crc16 buf) (crcBytes (crc16 buf)) :=
    List.foldl_append
  rw [happ]
  generalize crc16 buf = crc
  show crcBits 8 (crcBits 8 (crc ^^^ ((crc >>> 8).setWidth 8).setWidth 16 <<< 8) ^^^
    ((crc &&& 0xff).setWidth 8).setWidth 16 <<< 8) = 0
  rw [crc_xor_high, crcBits_low, BitVec.xor_self]
  rfl

/-! ## A change of one byte -/

theorem and_high (crc : BitVec 16) : crc &&& 0x8000 ≠ 0 ↔ crc.getLsbD 15 = true := by
  have h := BitVec.and_twoPow crc 15
  have htwo : BitVec.twoPow 16 15 = 0x8000 := by decide
  rw [htwo] at h
  rw [h]
  by_cases hbit : crc.getLsbD 15
  · simp only [hbit, if_true]
    decide
  · simp only [hbit, Bool.false_eq_true, if_false, ne_eq, iff_false, not_not]
    rfl

theorem crcBit_eq (crc : BitVec 16) :
    crcBit crc = crc <<< 1 ^^^ if crc.getLsbD 15 then 0x1021#16 else 0#16 := by
  unfold crcBit
  by_cases hbit : crc.getLsbD 15 = true
  · rw [if_pos ((and_high crc).mpr hbit), if_pos hbit]
    rfl
  · rw [if_neg fun h => hbit ((and_high crc).mp h), if_neg hbit, BitVec.xor_zero]

theorem shiftLeft_bit {a b : BitVec 16} {n i : Nat} (hi : i + n < 16) (h : a <<< n = b <<< n) :
    a.getLsbD i = b.getLsbD i := by
  have hbit := congrArg (fun c => c.getLsbD (i + n)) h
  have hge : ¬ i + n < n := by omega
  simp only [BitVec.getLsbD_shiftLeft, hi, hge, decide_true, decide_false, Bool.not_false,
    Bool.true_and, Nat.add_sub_cancel] at hbit
  exact hbit

/-- The division loses nothing: its low bit tells whether the divisor was taken away. -/
theorem crcBit_inj {a b : BitVec 16} (h : crcBit a = crcBit b) : a = b := by
  have hlow (crc : BitVec 16) : (crcBit crc).getLsbD 0 = crc.getLsbD 15 := by
    rw [crcBit_eq]
    cases crc.getLsbD 15 <;> simp
  have hhigh : a.getLsbD 15 = b.getLsbD 15 := by rw [← hlow a, ← hlow b, h]
  have hshift : a <<< 1 = b <<< 1 := by
    rw [crcBit_eq, crcBit_eq, hhigh] at h
    exact (BitVec.xor_left_inj _).mp h
  apply BitVec.eq_of_getLsbD_eq
  intro i hi
  by_cases hlast : i = 15
  · rw [hlast, hhigh]
  · exact shiftLeft_bit (by omega) hshift

theorem crcBits_inj {n : Nat} {a b : BitVec 16} (h : crcBits n a = crcBits n b) : a = b := by
  induction n generalizing a b with
  | zero => exact h
  | succ n ih => exact crcBit_inj (ih h)

/-- The check tells two states apart, whatever the bytes that follow. -/
theorem crc16From_inj {a b : BitVec 16} {buf : List Byte}
    (h : crc16From a buf = crc16From b buf) : a = b := by
  induction buf generalizing a b with
  | nil => exact h
  | cons c buf ih => exact (BitVec.xor_left_inj _).mp (crcBits_inj (ih h))

theorem setWidth_shift_inj {b c : Byte} (h : b.setWidth 16 <<< 8 = c.setWidth 16 <<< 8) :
    b = c := by
  apply BitVec.eq_of_getLsbD_eq
  intro i hi
  have hbit := shiftLeft_bit (i := i) (n := 8) (by omega) h
  have hlt : i < 16 := by omega
  simp only [BitVec.getLsbD_setWidth, hlt, decide_true, Bool.true_and] at hbit
  exact hbit

/-- A change of one byte changes the check. -/
theorem crc16_ne {pre post : List Byte} {b c : Byte} (hc : c ≠ b) :
    crc16 (pre ++ c :: post) ≠ crc16 (pre ++ b :: post) := by
  intro heq
  unfold crc16 crc16From at heq
  rw [List.foldl_append, List.foldl_append] at heq
  have hstep := crcBits_inj (crc16From_inj heq)
  exact hc (setWidth_shift_inj ((BitVec.xor_right_inj _).mp hstep))

end LuaRtos.Ymodem
