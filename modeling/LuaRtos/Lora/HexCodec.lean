/-
  LuaRtos.Lora.HexCodec

  The two conversions of drivers/lora_lmic.c one after the other, in both byte orders.

  `vbuff` is written one byte after the other with what `hexStringToVal` reads.
-/

import LuaRtos.Lora.Hex
import LuaRtos.CLib.Mem

namespace LuaRtos.Lora

open LuaRtos.CLib

/-- A text of `2 * n` upper-case hexadecimal digits. -/
structure HexText (n : Nat) where
  text : List Byte
  size : text.length = 2 * n
  digits : ∀ c ∈ text, isHexDigit c = true

theorem length_encodeHex_block {n : Nat} (v : Block n) : (encodeHex v.bytes).length = 2 * n := by
  rw [length_encodeHex, v.size]

theorem length_reverse_block {n : Nat} (v : Block n) : v.bytes.reverse.length = n :=
  List.length_reverse.trans v.size

/-- The digits of a block. -/
def HexText.ofBlock {n : Nat} (v : Block n) : HexText n where
  text := encodeHex v.bytes
  size := length_encodeHex_block v
  digits := fun _ hc => isHexDigit_of_mem_encodeHex hc

/-- The block that digits stand for. -/
def HexText.toBlock {n : Nat} (s : HexText n) : Block n where
  bytes := decodeHex s.text
  size := length_decodeHex s.size

/-- A block from its end to its start. -/
def reversed {n : Nat} (v : Block n) : Block n := ⟨v.bytes.reverse, length_reverse_block v⟩

section Codec

variable {n : Nat}

/-- A block that is written in full. -/
theorem storeBytes_block (vbuff v : Block n) : storeBytes vbuff.bytes 0 v.bytes = .ok v.bytes := by
  have hlen : vbuff.bytes.length = v.bytes.length := vbuff.size.trans v.size.symm
  have hfits : 0 + v.bytes.length ≤ vbuff.bytes.length := by
    omega
  rw [storeBytes, if_pos hfits, Nat.zero_add, ← hlen, List.drop_length, List.take_zero,
    List.nil_append, List.append_nil]

/-- What is read of digits, in the order asked for. -/
theorem hexStringToVal_text (s : HexText n) (rev : Bool) (vbuff : Block n) :
    (hexStringToVal (s.text ++ [nul]) n rev >>= storeBytes vbuff.bytes 0) =
      .ok (if rev then (reversed s.toBlock).bytes else s.toBlock.bytes) := by
  rw [hexStringToVal_eq [] s.size s.digits rev, ok_bind]
  cases rev with
  | false => exact storeBytes_block vbuff s.toBlock
  | true => exact storeBytes_block vbuff (reversed s.toBlock)

/-- What is written of a block, in the order asked for. -/
theorem valToHexString_text (v : Block n) (reverse : Bool) (hbuff : Block (2 * n + 1)) :
    valToHexString hbuff.bytes v.bytes n reverse =
      .ok ((HexText.ofBlock (if reverse then reversed v else v)).text ++ [nul]) := by
  have hsize : hbuff.bytes.length = 2 * v.bytes.length + 1 := by
    rw [hbuff.size, v.size]
  have h := valToHexString_block hsize [] reverse
  rw [List.append_nil, v.size] at h
  rw [h]
  cases reverse <;> rfl

theorem toBlock_ofBlock (v : Block n) : (HexText.ofBlock v).toBlock.bytes = v.bytes :=
  decodeHex_encodeHex v.bytes

theorem ofBlock_toBlock (s : HexText n) : (HexText.ofBlock s.toBlock).text = s.text :=
  encodeHex_decodeHex s.size s.digits

/-- Bytes written as digits read back in the same order, and digits read as bytes are written as
    the same digits; the buffers are just as long as the bytes, and the digits with their
    terminator. -/
theorem hexCodec (n : Nat) (order : Bool) (hbuff : Block (2 * n + 1)) (vbuff : Block n) :
    (∀ v : Block n, ∃ s : HexText n,
      valToHexString hbuff.bytes v.bytes n order = .ok (s.text ++ [nul]) ∧
      (hexStringToVal (s.text ++ [nul]) n order >>= storeBytes vbuff.bytes 0) = .ok v.bytes) ∧
    ∀ s : HexText n, ∃ v : Block n,
      (hexStringToVal (s.text ++ [nul]) n order >>= storeBytes vbuff.bytes 0) = .ok v.bytes ∧
      valToHexString hbuff.bytes v.bytes n order = .ok (s.text ++ [nul]) := by
  constructor
  · intro v
    refine ⟨.ofBlock (if order then reversed v else v), valToHexString_text v order hbuff, ?_⟩
    rw [hexStringToVal_text]
    cases order with
    | false => exact congrArg _ (toBlock_ofBlock v)
    | true =>
      show Except.ok (HexText.ofBlock (reversed v)).toBlock.bytes.reverse = .ok v.bytes
      rw [toBlock_ofBlock]
      exact congrArg _ (List.reverse_reverse v.bytes)
  · intro s
    refine ⟨if order then reversed s.toBlock else s.toBlock, ?_, ?_⟩
    · rw [hexStringToVal_text]
      cases order <;> rfl
    · rw [valToHexString_text]
      cases order with
      | false =>
        show Except.ok ((HexText.ofBlock s.toBlock).text ++ [nul]) = .ok (s.text ++ [nul])
        rw [ofBlock_toBlock]
      | true =>
        have htwice : (HexText.ofBlock (reversed (reversed s.toBlock))).text = s.text := by
          show encodeHex s.toBlock.bytes.reverse.reverse = s.text
          rw [List.reverse_reverse]
          exact ofBlock_toBlock s
        show Except.ok ((HexText.ofBlock (reversed (reversed s.toBlock))).text ++ [nul]) =
          .ok (s.text ++ [nul])
        rw [htwice]

end Codec

end LuaRtos.Lora
