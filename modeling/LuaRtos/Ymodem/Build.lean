/-
  LuaRtos.Ymodem.Build

  The packets that the sender builds: start byte, number, its complement, the
  block and the check of the block, whatever was in the buffer before.
-/

import LuaRtos.Ymodem.Transmit

namespace LuaRtos.Ymodem

open CLib

/-- A packet with a block. -/
def packetOf (start no : Byte) (block : List Byte) : List Byte :=
  start :: no :: ~~~no :: (block ++ crcBytes (crc16 block))

/-- The block of the header packet: name, size and zeros. -/
def headerBlock (name : List Byte) (size : Nat) : List Byte :=
  name ++ nul :: (formatD size ++ 0x20 ::
    List.replicate (PACKET_SIZE - (name.length + 1 + (formatD size).length + 1)) 0)

/-- The name, the size and the characters that end them fit in the block of the
    header packet. -/
def HeaderFits (name : List Byte) (size : Nat) : Prop :=
  name.length + 1 + (formatD size).length + 1 ≤ PACKET_SIZE

/-- A block of the file with the zeros after it. -/
def padded (c : List Byte) : List Byte := c ++ List.replicate (PACKET_1K_SIZE - c.length) 0x00

/-- The block of the last packet. -/
def emptyBlock : List Byte := List.replicate PACKET_SIZE 0

theorem packetOf_zero_append (start : Byte) (block post : List Byte) :
    packetOf start 0 block ++ post =
      [start, 0x00, 0xff] ++ (block ++ (crcBytes (crc16 block) ++ post)) := by
  simp [packetOf]

theorem length_packetOf (start no : Byte) (block : List Byte) :
    (packetOf start no block).length = block.length + PACKET_OVERHEAD := by
  rw [packetOf, List.length_cons, List.length_cons, List.length_cons, List.length_append]
  rfl

/-- The part of the buffer that is sent of a packet of 128 bytes. -/
theorem take_packetOf (start no : Byte) {block : List Byte} (hblock : block.length = PACKET_SIZE)
    (post : List Byte) :
    (packetOf start no block ++ post).take (PACKET_SIZE + PACKET_OVERHEAD) =
      packetOf start no block := by
  rw [← hblock, ← length_packetOf start no block, List.take_left]

theorem length_padded {c : List Byte} (h : c.length ≤ PACKET_1K_SIZE) :
    (padded c).length = PACKET_1K_SIZE := by
  rw [padded, List.length_append, List.length_replicate]
  omega

theorem length_emptyBlock : emptyBlock.length = PACKET_SIZE := List.length_replicate

theorem length_headerBlock {name : List Byte} {size : Nat} (h : HeaderFits name size) :
    (headerBlock name size).length = PACKET_SIZE := by
  unfold HeaderFits at h
  simp only [headerBlock, List.length_append, List.length_cons, List.length_replicate]
  omega

/-! ## The packets of 128 bytes -/

section Short

variable (packet_data : PacketData)

theorem startPacket_eq : startPacket packet_data.bytes =
    .ok ([SOH, 0x00, 0xff] ++ (emptyBlock ++ packet_data.bytes.drop 131)) := by
  have hsize := packet_data.size
  have hzero : storeBytes packet_data.bytes 0 (List.replicate 131 0) =
      .ok ([] ++ (List.replicate 131 0 ++ packet_data.bytes.drop 131)) := by
    refine storeBytes_eq [] _ _ (List.take_append_drop 131 _).symm rfl ?_
    rw [List.length_replicate, List.length_take]
    omega
  rw [startPacket]
  show (storeBytes packet_data.bytes 0 (List.replicate 131 0) >>= _) = _
  rw [hzero, ok_bind]
  exact storeBytes_eq [] (List.replicate 3 0) _ rfl rfl rfl

theorem addCrc_eq {a b c : Byte} {block check post : List Byte} {n : Nat} (hn : block.length = n)
    (hcheck : check.length = 2) : addCrc ([a, b, c] ++ (block ++ (check ++ post))) n =
      .ok ([a, b, c] ++ (block ++ (crcBytes (crc16 block) ++ post))) := by
  have hblock : (([a, b, c] ++ (block ++ (check ++ post))).drop PACKET_HEADER).take n = block := by
    show (block ++ (check ++ post)).take n = block
    rw [← hn, List.take_left]
  rw [addCrc, hblock]
  have hstart : PACKET_HEADER + n = ([a, b, c] ++ block).length := by
    rw [List.length_append, hn]
    rfl
  have hstore : storeBytes ([a, b, c] ++ (block ++ (check ++ post))) (PACKET_HEADER + n)
      (crcBytes (crc16 block)) = _ :=
    storeBytes_eq ([a, b, c] ++ block) check post (List.append_assoc ..).symm hstart hcheck.symm
  rw [hstore, List.append_assoc]

/-- The two bytes of the buffer that the check is written to. -/
theorem drop_check : ∃ check, check.length = 2 ∧
    packet_data.bytes.drop 131 = check ++ packet_data.bytes.drop 133 := by
  refine ⟨(packet_data.bytes.drop 131).take 2, ?_, ?_⟩
  · rw [List.length_take, List.length_drop, packet_data.size]
    rfl
  · rw [show 133 = 131 + 2 from rfl, ← List.drop_drop, List.take_append_drop]

theorem prepareLastPacket_eq : Ymodem_PrepareLastPacket packet_data.bytes =
    .ok (packetOf SOH 0 emptyBlock ++ packet_data.bytes.drop 133) := by
  obtain ⟨check, hcheck, hdrop⟩ := drop_check packet_data
  rw [Ymodem_PrepareLastPacket, startPacket_eq, ok_bind, hdrop,
    addCrc_eq length_emptyBlock hcheck, packetOf_zero_append]

theorem prepareIntialPacket_eq {name : List Byte} (hname : nul ∉ name) (post : List Byte)
    {size : Nat} (hsize : size < 2147483648) (hfits : HeaderFits name size) :
    Ymodem_PrepareIntialPacket packet_data.bytes (name ++ nul :: post) size =
      .ok (packetOf SOH 0 (headerBlock name size) ++ packet_data.bytes.drop 133) := by
  obtain ⟨check, hcheck, hdrop⟩ := drop_check packet_data
  have hdigits : nul ∉ formatD size :=
    fun hmem => absurd (isDigit_of_mem_formatD nul hmem) (by decide)
  have hblock := length_headerBlock hfits
  unfold HeaderFits at hfits
  obtain ⟨k, hk⟩ : ∃ k, PACKET_SIZE = name.length + 1 + ((formatD size).length + 1) + k :=
    ⟨PACKET_SIZE - (name.length + 1 + ((formatD size).length + 1)), by omega⟩
  -- the zeros of the block, as the parts that are written over
  have hzeros : emptyBlock = List.replicate (name.length + 1) 0 ++
      (List.replicate ((formatD size).length + 1) 0 ++ List.replicate k 0) := by
    rw [emptyBlock, hk, List.replicate_add, List.replicate_add, List.append_assoc]
  have hheader : headerBlock name size =
      name ++ nul :: (formatD size ++ 0x20 :: List.replicate k 0) := by
    rw [headerBlock, show PACKET_SIZE - (name.length + 1 + (formatD size).length + 1) = k by omega]
  let H : List Byte := [SOH, 0x00, 0xff]
  let tail : List Byte := List.replicate k 0 ++ packet_data.bytes.drop 131
  have hname' : storeBytes (H ++ (emptyBlock ++ packet_data.bytes.drop 131)) PACKET_HEADER
      (name ++ [nul]) =
      .ok (H ++ ((name ++ [nul]) ++ (List.replicate ((formatD size).length + 1) 0 ++ tail))) := by
    refine storeBytes_eq _ (List.replicate (name.length + 1) 0) _ ?_ rfl ?_
    · rw [hzeros]
      simp only [tail, List.append_assoc]
    · simp
  have hsize' : storeBytes
      (H ++ ((name ++ [nul]) ++ (List.replicate ((formatD size).length + 1) 0 ++ tail)))
      (PACKET_HEADER + name.length + 1) (formatD size ++ [nul]) =
      .ok ((H ++ (name ++ [nul])) ++ ((formatD size ++ [nul]) ++ tail)) := by
    refine storeBytes_eq _ _ _ (List.append_assoc ..).symm ?_ ?_
    · simp [H, PACKET_HEADER]
      omega
    · simp
  have hblank : storeBytes ((H ++ (name ++ [nul])) ++ ((formatD size ++ [nul]) ++ tail))
      (PACKET_HEADER + name.length + 1 + (formatD size).length) [0x20] =
      .ok (((H ++ (name ++ [nul])) ++ formatD size) ++ ([0x20] ++ tail)) := by
    refine storeBytes_eq _ [nul] _ ?_ ?_ rfl
    · simp
    · simp [H, PACKET_HEADER]
      omega
  have hstr : ∀ {s : List Byte} (post : List Byte), nul ∉ s →
      strlen (s ++ [nul] ++ post) = .ok s.length := by
    intro s post hs
    rw [List.append_assoc]
    exact strlen_append hs post
  have hskip : ((H ++ (name ++ [nul])) ++ ((formatD size ++ [nul]) ++ tail)).drop
      (PACKET_HEADER + name.length + 1) = formatD size ++ [nul] ++ tail := by
    refine List.drop_left' ?_
    simp [H, PACKET_HEADER]
    omega
  have hcrc : addCrc (((H ++ (name ++ [nul])) ++ formatD size) ++ ([0x20] ++ tail)) PACKET_SIZE =
      .ok (packetOf SOH 0 (headerBlock name size) ++ packet_data.bytes.drop 133) := by
    have hdata : ((H ++ (name ++ [nul])) ++ formatD size) ++ ([0x20] ++ tail) =
        [SOH, 0x00, 0xff] ++
          (headerBlock name size ++ (check ++ packet_data.bytes.drop 133)) := by
      rw [hheader, ← hdrop]
      simp only [H, tail, List.append_assoc, List.cons_append, List.nil_append]
    rw [hdata, addCrc_eq hblock hcheck, packetOf_zero_append]
  have hfirst : strlen ((H ++ ((name ++ [nul]) ++
      (List.replicate ((formatD size).length + 1) 0 ++ tail))).drop PACKET_HEADER) =
      .ok name.length := hstr _ hname
  have hsecond : strlen (((H ++ (name ++ [nul])) ++ ((formatD size ++ [nul]) ++ tail)).drop
      PACKET_HEADER) = .ok name.length := by
    rw [List.append_assoc]
    exact hstr _ hname
  rw [Ymodem_PrepareIntialPacket, startPacket_eq, ok_bind, readStr_append hname, ok_bind, hname',
    ok_bind, hfirst, ok_bind, toInt32_of_lt hsize, hsize', ok_bind, hsecond, ok_bind, hskip,
    hstr _ hdigits, ok_bind, hblank, ok_bind, hcrc]

end Short

/-! ## The packets of a file -/

/-- A block that is read in full is sent with zeros after it. -/
theorem preparePacket_eq {c rest : List Byte} {size : Nat} {eof : Bool} (no : Byte)
    (hsize : (if size < PACKET_1K_SIZE then size else PACKET_1K_SIZE) = c.length)
    (hne : c ≠ []) :
    Ymodem_PreparePacket no size ⟨c ++ rest, eof⟩ = (packetOf STX no (padded c), ⟨rest, eof⟩) := by
  have hpos : c.length > 0 := List.length_pos_iff.mpr hne
  have hread : fread ⟨c ++ rest, eof⟩ c.length = (c, ⟨rest, eof⟩) := by
    have hlt : ¬ (c ++ rest).length < c.length := by
      rw [List.length_append]
      omega
    simp only [fread, List.take_left, List.drop_left, decide_eq_false hlt, Bool.or_false]
  simp only [Ymodem_PreparePacket, hsize, if_pos hpos, hread]
  rfl

end LuaRtos.Ymodem
