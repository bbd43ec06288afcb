/-
  LuaRtos.Ymodem.HeaderRoundTrip

  The header packet of the sender, parsed by the receiver: the name and the size come back
  exactly when they fit in the payload with the characters that end them.
-/

import LuaRtos.Ymodem.Header

namespace LuaRtos.Ymodem

open CLib Link

/-! ## What the sender writes -/

section Written

variable (packet_data : PacketData) {name : List Byte}

/-- What the sender writes to the payload for a name and the digits of a size. -/
def headerText (name digits : List Byte) : List Byte := name ++ nul :: (digits ++ [0x20])

theorem nul_notMem_formatD (i : Int) : nul ∉ formatD i := by
  intro hmem
  rcases digit_or_minus nul hmem with hdigit | hminus
  · exact absurd hdigit (by decide)
  · exact absurd hminus (by decide)

theorem blank_notMem_formatD (i : Int) : 0x20 ∉ formatD i := by
  intro hmem
  rcases digit_or_minus 0x20 hmem with hdigit | hminus
  · exact absurd hdigit (by decide)
  · exact absurd hminus (by decide)

/-- The buffer behind the first three bytes, before anything is written there. -/
def bodyStart : List Byte := emptyBlock ++ packet_data.bytes.drop 131

theorem length_bodyStart : (bodyStart packet_data).length = 1026 := by
  rw [bodyStart, List.length_append, length_emptyBlock, List.length_drop, packet_data.size]
  rfl

theorem length_headerText (name digits : List Byte) :
    (headerText name digits).length = name.length + 1 + digits.length + 1 := by
  rw [headerText, List.length_append, List.length_cons, List.length_append, List.length_singleton]
  omega

/-- The name is written, and its length read back. -/
theorem prepareIntialPacket_name (hname : nul ∉ name) (post : List Byte) (length : Nat) :
    Ymodem_PrepareIntialPacket packet_data.bytes (name ++ nul :: post) length =
      if (name ++ [nul]).length ≤ 1026 then
        storeBytes ([SOH, 0x00, 0xff] ++ ((name ++ [nul]) ++
          (bodyStart packet_data).drop (name ++ [nul]).length)) (PACKET_HEADER + name.length + 1)
            (formatD (toInt32 length) ++ [nul]) >>= fun data =>
        strlen (data.drop PACKET_HEADER) >>= fun n =>
        strlen (data.drop (PACKET_HEADER + n + 1)) >>= fun m =>
        storeBytes data (PACKET_HEADER + n + 1 + m) [0x20] >>= fun data => addCrc data PACKET_SIZE
      else .error .outOfBounds := by
  have hstore : storeBytes ([SOH, 0x00, 0xff] ++ bodyStart packet_data) PACKET_HEADER
      (name ++ [nul]) = _ := storeBytes_after [SOH, 0x00, 0xff] (bodyStart packet_data) _
  rw [length_bodyStart] at hstore
  rw [Ymodem_PrepareIntialPacket, startPacket_eq, ok_bind, readStr_append hname, ok_bind,
    ← bodyStart, hstore]
  by_cases hroom : (name ++ [nul]).length ≤ 1026
  · have hlen : strlen (([SOH, 0x00, 0xff] ++ ((name ++ [nul]) ++
        (bodyStart packet_data).drop (name ++ [nul]).length)).drop PACKET_HEADER) =
          .ok name.length := by
      show strlen ((name ++ [nul]) ++ _) = _
      rw [List.append_assoc]
      exact strlen_append hname _
    rw [if_pos hroom, if_pos hroom, ok_bind, hlen, ok_bind]
  · rw [if_neg hroom, if_neg hroom]
    rfl

/-- The text is written when it fits in the buffer, and the check behind the payload. -/
theorem prepareIntialPacket_text (hname : nul ∉ name) (post : List Byte) (length : Nat) :
    Ymodem_PrepareIntialPacket packet_data.bytes (name ++ nul :: post) length =
      if (headerText name (formatD (toInt32 length))).length ≤ 1026 then
        addCrc ([SOH, 0x00, 0xff] ++ (headerText name (formatD (toInt32 length)) ++
          (bodyStart packet_data).drop (headerText name (formatD (toInt32 length))).length))
            PACKET_SIZE
      else .error .outOfBounds := by
  generalize hdigits : formatD (toInt32 length) = digits
  have hnul : nul ∉ digits := hdigits ▸ nul_notMem_formatD _
  have hbody := length_bodyStart packet_data
  have htext := length_headerText name digits
  have hnamed : (name ++ [nul]).length = name.length + 1 := List.length_append
  have hdigited : (digits ++ [nul]).length = digits.length + 1 := List.length_append
  have hdrop : ((bodyStart packet_data).drop (name.length + 1)).length =
      1026 - (name.length + 1) := by
    rw [List.length_drop, hbody]
  rw [prepareIntialPacket_name packet_data hname, hdigits, hnamed]
  by_cases hfirst : name.length + 1 ≤ 1026
  swap
  · -- the name alone does not fit
    rw [if_neg hfirst, if_neg (by omega)]
  let pre : List Byte := [SOH, 0x00, 0xff] ++ (name ++ [nul])
  have hpre : PACKET_HEADER + name.length + 1 = pre.length := by
    show 3 + name.length + 1 = _
    rw [List.length_append, hnamed]
    rfl
  have hstore := storeBytes_after pre ((bodyStart packet_data).drop (name.length + 1))
    (digits ++ [nul])
  rw [hdrop, hdigited, List.drop_drop] at hstore
  rw [if_pos hfirst, ← List.append_assoc, hpre, hstore]
  by_cases hroom : digits.length + 1 ≤ 1026 - (name.length + 1)
  swap
  · rw [if_neg hroom, if_neg (by omega)]
    rfl
  have htail : name.length + 1 + (digits.length + 1) = (headerText name digits).length := by
    rw [htext, Nat.add_assoc, Nat.add_assoc, Nat.add_assoc]
  rw [if_pos hroom, if_pos (by omega), ok_bind, htail]
  let tail := (bodyStart packet_data).drop (headerText name digits).length
  have hfirst' : strlen ((pre ++ ((digits ++ [nul]) ++ tail)).drop PACKET_HEADER) =
      .ok name.length := by
    show strlen ((name ++ [nul]) ++ _) = _
    rw [List.append_assoc]
    exact strlen_append hname _
  have hsecond : strlen ((pre ++ ((digits ++ [nul]) ++ tail)).drop pre.length) =
      .ok digits.length := by
    rw [List.drop_left, List.append_assoc]
    exact strlen_append hnul _
  have hblank : storeBytes (pre ++ ((digits ++ [nul]) ++ tail)) (pre.length + digits.length)
      [0x20] = .ok ((pre ++ digits) ++ ([0x20] ++ tail)) := by
    refine storeBytes_eq (pre ++ digits) [nul] tail ?_ List.length_append.symm rfl
    simp only [List.append_assoc]
  have hwritten : (pre ++ digits) ++ ([0x20] ++ tail) =
      [SOH, 0x00, 0xff] ++ (headerText name digits ++ tail) := by
    simp only [pre, headerText, List.append_assoc, List.cons_append, List.nil_append]
  rw [hfirst', ok_bind, hpre, hsecond, ok_bind, hblank, ok_bind, hwritten]

theorem prepareIntialPacket_isOk (hname : nul ∉ name) (post : List Byte) {length : Nat}
    (hfits : (headerText name (formatD (toInt32 length))).length ≤ PACKET_SIZE) :
    ∃ data, Ymodem_PrepareIntialPacket packet_data.bytes (name ++ nul :: post) length =
      .ok data := by
  have hsize : PACKET_SIZE = 128 := rfl
  have hbody := length_bodyStart packet_data
  rw [prepareIntialPacket_text packet_data hname, if_pos (by omega), addCrc]
  refine ⟨_, if_pos ?_⟩
  rw [List.length_append, List.length_append, List.length_drop, hbody]
  show 3 + 128 + 2 ≤ 3 + _
  omega

/-- The payload of the packet that the sender makes. -/
theorem prepareIntialPacket_payload (hname : nul ∉ name) (post : List Byte) (length : Nat)
    {data : List Byte}
    (h : Ymodem_PrepareIntialPacket packet_data.bytes (name ++ nul :: post) length = .ok data) :
    ∃ tail, (data.drop PACKET_HEADER).take PACKET_SIZE =
      (headerText name (formatD (toInt32 length)) ++ tail).take PACKET_SIZE := by
  rw [prepareIntialPacket_text packet_data hname] at h
  by_cases hroom : (headerText name (formatD (toInt32 length))).length ≤ 1026
  · rw [if_pos hroom] at h
    refine ⟨(bodyStart packet_data).drop (headerText name (formatD (toInt32 length))).length, ?_⟩
    have hsame := take_storeBytes h (Nat.le_refl (PACKET_HEADER + PACKET_SIZE))
    rw [List.take_drop, hsame, ← List.take_drop]
    rfl
  · rw [if_neg hroom] at h
    cases h

end Written

/-! ## What the receiver parses -/

section Parsed

variable {name digits : List Byte}

/-- A text that fits is the start of the payload. -/
theorem take_headerText (hfits : (headerText name digits).length ≤ PACKET_SIZE) (tail : List Byte) :
    ∃ rest, (headerText name digits ++ tail).take PACKET_SIZE =
      name ++ nul :: (digits ++ 0x20 :: rest) := by
  refine ⟨tail.take (PACKET_SIZE - (headerText name digits).length), ?_⟩
  rw [List.take_append, List.take_of_length_le hfits]
  simp only [headerText, List.append_assoc, List.cons_append, List.nil_append]

/-- Where the text does not fit, the name or the size does not end in the payload. -/
theorem cut_headerText (hname : nul ∉ name) (hdigits : 0x20 ∉ digits)
    (hshort : digits.length ≤ FILE_SIZE_LENGTH)
    (hlong : ¬ (headerText name digits).length ≤ PACKET_SIZE) (tail : List Byte)
    (hne : name ≠ []) : ¬ HeaderInside ((headerText name digits ++ tail).take PACKET_SIZE) := by
  have hlen := length_headerText name digits
  have hsize : PACKET_SIZE = 128 := rfl
  have htext : headerText name digits ++ tail = name ++ (nul :: digits ++ 0x20 :: tail) := by
    simp only [headerText, List.append_assoc, List.cons_append, List.nil_append]
  rw [htext]
  by_cases hfull : PACKET_SIZE ≤ name.length
  · -- the payload is a part of the name
    rw [List.take_append_of_le_length hfull]
    rintro (hfirst | ⟨s, rest, hsplit, -⟩)
    · exact hname (List.mem_of_mem_take (List.mem_of_mem_head? hfirst))
    · exact hname (List.mem_of_mem_take (hsplit ▸ List.mem_append_right s List.mem_cons_self))
  · -- the payload ends in the digits
    obtain ⟨k, hk⟩ : ∃ k, PACKET_SIZE = name.length + (k + 1) :=
      ⟨PACKET_SIZE - name.length - 1, by omega⟩
    have hcut : (name ++ (nul :: digits ++ 0x20 :: tail)).take PACKET_SIZE =
        name ++ nul :: digits.take k := by
      rw [hk, List.take_length_add_append, List.cons_append, List.take_succ_cons,
        List.take_append_of_le_length (by omega)]
    rw [hcut, headerInside_named hname hne]
    rintro ⟨-, hblank | hmany⟩
    · exact hdigits (List.mem_of_mem_take (List.mem_of_mem_take hblank))
    · rw [List.length_take] at hmany
      omega

/-- The size that is made of its digits. -/
theorem sizeOf_formatD {size : Nat} (hsize : size < 4294967296) :
    sizeOf (formatD (toInt32 size)) = .ok size := by
  obtain ⟨hlow, hhigh⟩ := toInt32_bounds size
  have hval : (BitVec.ofInt 32 (toInt32 size)).toNat = size := by
    rw [toInt32, BitVec.ofInt_toInt, BitVec.toNat_ofNat]
    exact Nat.mod_eq_of_lt hsize
  have hpos : (formatD (toInt32 size)).length > 0 :=
    List.length_pos_iff.mpr (formatD_int_ne_nil (toInt32 size))
  rw [sizeOf, readStr_append (nul_notMem_formatD _), ok_bind, if_pos hpos,
    strtol_formatD_int hlow hhigh, hval]
  rfl

/-- The name and the size come back exactly when there is a name, and it fits in the payload with
    the size and the characters that end them. -/
theorem header_roundTrip (packet_data : PacketData) (getname file_size : Block 128)
    {name : List Byte} (hname : nul ∉ name) (post : List Byte) {size : Nat}
    (hsize : size < 4294967296) :
    (∃ data h, Ymodem_PrepareIntialPacket packet_data.bytes (name ++ nul :: post) size = .ok data ∧
      parseHeader PACKET_SIZE ((data.drop PACKET_HEADER).take PACKET_SIZE) getname.bytes
        file_size.bytes = .ok (some h) ∧ readStr h.getname = .ok name ∧ h.size = size) ↔
      name ≠ [] ∧ name.length + 1 + (formatD (toInt32 size)).length + 1 ≤ PACKET_SIZE := by
  obtain ⟨hlow, hhigh⟩ := toInt32_bounds size
  have hpos : 0 < PACKET_SIZE := by decide
  have hshort : (formatD (toInt32 size)).length ≤ FILE_SIZE_LENGTH :=
    Nat.le_trans (length_formatD_int hlow hhigh) (by decide)
  have hblank := blank_notMem_formatD (toInt32 size)
  rw [← length_headerText]
  constructor
  · rintro ⟨data, h, hprepare, hparse, -⟩
    obtain ⟨tail, hpayload⟩ := prepareIntialPacket_payload packet_data hname post size hprepare
    rw [hpayload] at hparse
    have hne : name ≠ [] := by
      rintro rfl
      cases hparse
    refine ⟨hne, ?_⟩
    by_contra hlong
    exact cut_headerText hname hblank hshort hlong tail hne (inside_of_parse hpos hparse)
  · rintro ⟨hne, hfits⟩
    obtain ⟨data, hprepare⟩ := prepareIntialPacket_isOk packet_data hname post hfits
    obtain ⟨tail, hpayload⟩ := prepareIntialPacket_payload packet_data hname post size hprepare
    obtain ⟨rest, hrest⟩ := take_headerText hfits tail
    have hname' : name.length < 128 := by
      rw [length_headerText] at hfits
      have hsize : PACKET_SIZE = 128 := rfl
      omega
    have hparse := parseHeader_short hname hne hname' (takeSize_eq hblank rest hshort)
      (sizeOf_formatD hsize) hpos getname file_size
    rw [← hrest, ← hpayload] at hparse
    exact ⟨data, _, hprepare, hparse, readStr_append hname _, rfl⟩

/-- A name of 128 characters leaves nothing of the payload for its terminator. -/
theorem header_cut : ¬ ∃ data h,
    Ymodem_PrepareIntialPacket (freshBlock 1029).bytes (List.replicate 128 0x61 ++ nul :: []) 1 =
      .ok data ∧
    parseHeader PACKET_SIZE ((data.drop PACKET_HEADER).take PACKET_SIZE) (freshBlock 128).bytes
      (freshBlock 128).bytes = .ok (some h) ∧
    readStr h.getname = .ok (List.replicate 128 0x61) ∧ h.size = 1 := by
  rintro ⟨data, h, hprepare, hparse, -⟩
  have hname : nul ∉ List.replicate 128 (0x61 : Byte) := fun hmem =>
    absurd (List.eq_of_mem_replicate hmem) (by decide)
  obtain ⟨tail, hpayload⟩ :=
    prepareIntialPacket_payload (freshBlock 1029) hname [] 1 hprepare
  have hlong : ¬ (headerText (List.replicate 128 0x61) (formatD (toInt32 1))).length ≤
      PACKET_SIZE := by
    rw [length_headerText, List.length_replicate]
    show ¬ 128 + 1 + _ + 1 ≤ 128
    omega
  rw [hpayload] at hparse
  refine cut_headerText hname (blank_notMem_formatD _) (by decide) hlong tail ?_
    (inside_of_parse (by decide) hparse)
  exact List.cons_ne_nil _ _

/-- A name of one character and a size of one digit. -/
theorem header_roundTrip_short : ∃ data h,
    Ymodem_PrepareIntialPacket (freshBlock 1029).bytes ([0x61] ++ nul :: []) 7 = .ok data ∧
    parseHeader PACKET_SIZE ((data.drop PACKET_HEADER).take PACKET_SIZE) (freshBlock 128).bytes
      (freshBlock 128).bytes = .ok (some h) ∧ readStr h.getname = .ok [0x61] ∧ h.size = 7 :=
  (header_roundTrip (freshBlock 1029) (freshBlock 128) (freshBlock 128) (by decide) []
    (by decide)).mpr (by decide)

end Parsed

end LuaRtos.Ymodem
