/-
  LuaRtos.Ymodem.Codec

  The packets that the sender prepares, as `Receive_Packet` reads them: each is taken with its
  number and payload, and with one byte changed after the first it is not.
-/

import LuaRtos.Ymodem.Transfer

namespace LuaRtos.Ymodem

open CLib Link

/-! ## What is prepared -/

/-- The block that `Ymodem_PreparePacket` reads from the file. -/
def blockRead (sizeBlk : Nat) (ffd : InFile) : List Byte :=
  let size := if sizeBlk < PACKET_1K_SIZE then sizeBlk else PACKET_1K_SIZE
  if size > 0 then (fread ffd size).1 else []

/-- The packets that are sent, with their numbers and payloads: the first bytes of the buffer for
    the header and the last packet, and all of it for a block of the file. -/
inductive Prepared : List Byte → Byte → List Byte → Prop
  | initial {packet_data : PacketData} {fileName data : List Byte} {length : Nat}
      (h : Ymodem_PrepareIntialPacket packet_data.bytes fileName length = .ok data) :
      Prepared (data.take (PACKET_SIZE + PACKET_OVERHEAD)) 0
        ((data.drop PACKET_HEADER).take PACKET_SIZE)
  | last {packet_data : PacketData} {data : List Byte}
      (h : Ymodem_PrepareLastPacket packet_data.bytes = .ok data) :
      Prepared (data.take (PACKET_SIZE + PACKET_OVERHEAD)) 0 emptyBlock
  | block (pktNo : Byte) (sizeBlk : Nat) (ffd : InFile) :
      Prepared (Ymodem_PreparePacket pktNo sizeBlk ffd).1 pktNo
        (padded (blockRead sizeBlk ffd))

section Shape

theorem length_blockRead (sizeBlk : Nat) (ffd : InFile) :
    (blockRead sizeBlk ffd).length ≤ PACKET_1K_SIZE := by
  unfold blockRead
  by_cases hpos : (if sizeBlk < PACKET_1K_SIZE then sizeBlk else PACKET_1K_SIZE) > 0
  · rw [if_pos hpos]
    simp only [fread, List.length_take]
    split <;> omega
  · rw [if_neg hpos]
    exact Nat.zero_le _

theorem preparePacket_fst (pktNo : Byte) (sizeBlk : Nat) (ffd : InFile) :
    (Ymodem_PreparePacket pktNo sizeBlk ffd).1 =
      packetOf STX pktNo (padded (blockRead sizeBlk ffd)) := by
  unfold Ymodem_PreparePacket blockRead
  by_cases hpos : (if sizeBlk < PACKET_1K_SIZE then sizeBlk else PACKET_1K_SIZE) > 0
  · simp only [if_pos hpos]
    rfl
  · simp only [if_neg hpos]
    rfl

/-- What is written behind the first bytes of a buffer leaves them. -/
theorem take_storeBytes {block bs b : List Byte} {i k : Nat} (h : storeBytes block i bs = .ok b)
    (hk : k ≤ i) : b.take k = block.take k := by
  unfold storeBytes at h
  by_cases hfit : i + bs.length ≤ block.length
  · rw [if_pos hfit] at h
    cases h
    have hlen : k ≤ (block.take i).length := by
      rw [List.length_take]
      omega
    rw [List.append_assoc, List.take_append_of_le_length hlen, List.take_take,
      Nat.min_eq_left hk]
  · rw [if_neg hfit] at h
    cases h

/-- A buffer whose first three bytes are those of a packet with number 0. -/
structure Headed (data : List Byte) : Prop where
  size : data.length = 1029
  head : data.take 3 = [SOH, 0x00, 0xff]

theorem Headed.store {data bs b : List Byte} {i : Nat} (h : Headed data)
    (hstore : storeBytes data i bs = .ok b) (hi : 3 ≤ i) : Headed b :=
  ⟨(length_storeBytes hstore).trans h.size, (take_storeBytes hstore hi).trans h.head⟩

/-- A packet with its check, and what the buffer holds behind it. -/
theorem Headed.addCrc {data b : List Byte} (h : Headed data)
    (hcrc : addCrc data PACKET_SIZE = .ok b) : ∃ block post, block.length = PACKET_SIZE ∧
      b = packetOf SOH 0 block ++ post := by
  have hsize := h.size
  have hblock : ((data.drop 3).take 128).length = PACKET_SIZE := by
    rw [List.length_take, List.length_drop, hsize]
    rfl
  have hcheck : ((data.drop 131).take 2).length = 2 := by
    rw [List.length_take, List.length_drop, hsize]
    rfl
  have hdata : data = [SOH, 0x00, 0xff] ++
      ((data.drop 3).take 128 ++ ((data.drop 131).take 2 ++ data.drop 133)) := by
    have h131 : data.drop 131 = (data.drop 3).drop 128 := by rw [List.drop_drop]
    have h133 : data.drop 133 = (data.drop 131).drop 2 := by rw [List.drop_drop]
    rw [h133, List.take_append_drop, h131, List.take_append_drop, ← h.head,
      List.take_append_drop]
  rw [hdata, addCrc_eq hblock hcheck] at hcrc
  cases hcrc
  exact ⟨_, data.drop 133, hblock, (packetOf_zero_append SOH _ _).symm⟩

theorem startPacket_headed (packet_data : PacketData) {data : List Byte}
    (h : startPacket packet_data.bytes = .ok data) : Headed data := by
  have hsize := packet_data.size
  rw [startPacket_eq] at h
  cases h
  refine ⟨?_, rfl⟩
  rw [List.length_append, List.length_append, length_emptyBlock, List.length_drop, hsize]
  rfl

theorem prepareIntialPacket_shape {packet_data : PacketData} {fileName data : List Byte}
    {length : Nat} (h : Ymodem_PrepareIntialPacket packet_data.bytes fileName length = .ok data) :
    ∃ block post, block.length = PACKET_SIZE ∧ data = packetOf SOH 0 block ++ post := by
  obtain ⟨data₀, hstart, h⟩ := bind_eq_ok.mp h
  obtain ⟨name, -, h⟩ := bind_eq_ok.mp h
  obtain ⟨data₁, h₁, h⟩ := bind_eq_ok.mp h
  obtain ⟨n, -, h⟩ := bind_eq_ok.mp h
  obtain ⟨data₂, h₂, h⟩ := bind_eq_ok.mp h
  obtain ⟨n', -, h⟩ := bind_eq_ok.mp h
  obtain ⟨m, -, h⟩ := bind_eq_ok.mp h
  obtain ⟨data₃, h₃, h⟩ := bind_eq_ok.mp h
  have hheader : PACKET_HEADER = 3 := rfl
  have hheaded := (((startPacket_headed packet_data hstart).store h₁ (by omega)).store h₂
    (by omega)).store h₃ (by omega)
  exact hheaded.addCrc h

/-- What is prepared is a packet around its payload. -/
theorem Prepared.eq_packetOf {packet payload : List Byte} {no : Byte}
    (h : Prepared packet no payload) : ∃ start, packet = packetOf start no payload ∧
      (start = SOH ∧ payload.length = PACKET_SIZE ∨
        start = STX ∧ payload.length = PACKET_1K_SIZE) := by
  cases h with
  | initial h =>
    obtain ⟨block, post, hblock, rfl⟩ := prepareIntialPacket_shape h
    have hdrop : ((packetOf SOH 0 block ++ post).drop PACKET_HEADER).take PACKET_SIZE = block := by
      show (block ++ crcBytes (crc16 block) ++ post).take PACKET_SIZE = block
      rw [List.append_assoc, ← hblock, List.take_left]
    rw [hdrop, take_packetOf SOH 0 hblock]
    exact ⟨SOH, rfl, .inl ⟨rfl, hblock⟩⟩
  | @last packet_data data h =>
    rw [prepareLastPacket_eq] at h
    cases h
    rw [take_packetOf SOH 0 length_emptyBlock]
    exact ⟨SOH, rfl, .inl ⟨rfl, length_emptyBlock⟩⟩
  | block pktNo sizeBlk ffd =>
    exact ⟨STX, preparePacket_fst no sizeBlk ffd, .inr ⟨rfl,
      length_padded (length_blockRead sizeBlk ffd)⟩⟩

end Shape

/-! ## What is received -/

section Receive

variable {start : Byte} {len : Nat}

/-- The bytes after the first are read into the buffer, and checked. -/
theorem receivePacket_run
    (hstart : start = SOH ∧ len = PACKET_SIZE ∨ start = STX ∧ len = PACKET_1K_SIZE)
    (bytes : List Byte) (hlen : bytes.length = len + PACKET_OVERHEAD - 1) (data : PacketData)
    (rs : List (Option Byte)) :
    ∃ post, (Receive_Packet data.bytes).run ((start :: bytes).map some ++ rs) =
      some ((checkPacket (start :: bytes ++ post) len, start :: bytes ++ post), rs) := by
  obtain ⟨buffer, hsize⟩ := data
  cases buffer with
  | nil => cases hsize
  | cons d rest =>
    have hrest : rest.length = 1028 := by
      rw [List.length_cons] at hsize
      omega
    have hle : len ≤ 1024 := by
      rcases hstart with ⟨-, rfl⟩ | ⟨-, rfl⟩
      · decide
      · decide
    have hover : PACKET_OVERHEAD = 5 := rfl
    have hfill := Plays.fill [start] rest bytes (by omega)
    rw [hlen] at hfill
    have hbody : Plays (receiveBody (d :: rest) start len) (bytes.map .recv)
        (.ret (checkPacket (start :: bytes ++ rest.drop (len + PACKET_OVERHEAD - 1)) len,
          start :: bytes ++ rest.drop (len + PACKET_OVERHEAD - 1))) := hfill.bind _
    have hplays : Plays (Receive_Packet (d :: rest)) ((start :: bytes).map .recv)
        (.ret (checkPacket (start :: bytes ++ rest.drop (len + PACKET_OVERHEAD - 1)) len,
          start :: bytes ++ rest.drop (len + PACKET_OVERHEAD - 1))) := by
      rcases hstart with ⟨rfl, rfl⟩ | ⟨rfl, rfl⟩
      · exact .read hbody
      · exact .read hbody
    have hmap : ((start :: bytes).map Event.recv).filterMap Event.received =
        (start :: bytes).map some := by
      rw [List.filterMap_map]
      show (start :: bytes).filterMap (some ∘ some) = _
      rw [List.filterMap_eq_map]
    refine ⟨rest.drop (len + PACKET_OVERHEAD - 1), ?_⟩
    have hrun := hplays.run_eq rs
    rw [hmap, Proc.run_ret] at hrun
    exact hrun

/-- The number and its complement are tested. -/
theorem checkPacket_of_complement {data : List Byte} (h : data.getD 1 0 ≠ data.getD 2 0 ^^^ 0xff) :
    checkPacket data len = .error := if_pos h

/-- The check is tested. -/
theorem checkPacket_of_crc {a b c : Byte} {body : List Byte} (post : List Byte)
    (hbody : body.length = len + PACKET_TRAILER) (hcrc : crc16 body ≠ 0) :
    checkPacket (a :: b :: c :: body ++ post) len = .error := by
  have htake : ((a :: b :: c :: body ++ post).drop PACKET_HEADER).take (len + PACKET_TRAILER) =
      body := by
    show (body ++ post).take (len + PACKET_TRAILER) = body
    rw [← hbody, List.take_left]
  unfold checkPacket
  rw [htake, if_pos hcrc]
  split <;> rfl

/-- A packet with a byte changed after the first. -/
theorem checkPacket_changed (no : Byte) {payload : List Byte} (hpayload : payload.length = len)
    (post : List Byte) {i : Nat} {c : Byte} (hi : 1 ≤ i)
    (hlt : i < (packetOf start no payload).length)
    (hc : c ≠ (packetOf start no payload).getD i 0) :
    checkPacket ((packetOf start no payload).set i c ++ post) len = .error := by
  have hno : ∀ no : Byte, no = ~~~no ^^^ 0xff := by decide
  unfold packetOf at hlt hc ⊢
  obtain ⟨j, rfl⟩ := Nat.exists_eq_add_of_le' hi
  rcases j with _ | _ | i
  · -- the number
    apply checkPacket_of_complement
    show c ≠ ~~~no ^^^ 0xff
    rw [← hno no]
    exact hc
  · -- its complement
    apply checkPacket_of_complement
    show no ≠ c ^^^ 0xff
    intro heq
    rw [hno no] at heq
    exact hc ((BitVec.xor_left_inj _).mp heq).symm
  · -- the payload or the check
    have hbody : (payload ++ crcBytes (crc16 payload)).length = len + PACKET_TRAILER := by
      rw [List.length_append, hpayload]
      rfl
    have hlt' : i < (payload ++ crcBytes (crc16 payload)).length := by
      simp only [List.length_cons] at hlt
      omega
    obtain ⟨pre, b, suf, hsplit, hpre⟩ : ∃ pre b suf,
        payload ++ crcBytes (crc16 payload) = pre ++ b :: suf ∧ pre.length = i := by
      refine ⟨_, _, _, (List.take_append_drop i _).symm.trans
        (congrArg _ (List.drop_eq_getElem_cons hlt')), ?_⟩
      rw [List.length_take, Nat.min_eq_left (Nat.le_of_lt hlt')]
    have hb : c ≠ b := by
      intro heq
      apply hc
      show c = (payload ++ crcBytes (crc16 payload)).getD i 0
      rw [hsplit, ← hpre, heq]
      simp
    have hset : (payload ++ crcBytes (crc16 payload)).set i c = pre ++ c :: suf := by
      rw [hsplit, ← hpre]
      simp
    have hzero : crc16 (pre ++ b :: suf) = 0 := by
      rw [← hsplit]
      exact crc16_append payload
    show checkPacket (start :: no :: ~~~no :: (payload ++ crcBytes (crc16 payload)).set i c ++ post)
      len = .error
    rw [hset]
    apply checkPacket_of_crc
    · rw [← hset, List.length_set, hbody]
    · rw [← hzero]
      exact crc16_ne hb

/-- Each packet that the sender prepares is taken with its number and payload, and none with one
    byte of the number, its complement, the payload or the check changed. -/
theorem receivePacket_prepared {packet payload : List Byte} {no : Byte}
    (h : Prepared packet no payload) (data : PacketData) (rs : List (Option Byte)) :
    (∃ data', (Receive_Packet data.bytes).run (packet.map some ++ rs) =
        some ((.packet payload.length, data'), rs) ∧
      data'.getD 1 0 = no ∧ (data'.drop PACKET_HEADER).take payload.length = payload) ∧
    ∀ i c, 1 ≤ i → i < packet.length → c ≠ packet.getD i 0 →
      ∃ data', (Receive_Packet data.bytes).run ((packet.set i c).map some ++ rs) =
        some ((.error, data'), rs) := by
  obtain ⟨start, rfl, hstart⟩ := h.eq_packetOf
  have hlength := length_packetOf start no payload
  have hover : PACKET_OVERHEAD = 5 := rfl
  constructor
  · obtain ⟨post, hrun⟩ := receivePacket_run hstart
      (no :: ~~~no :: (payload ++ crcBytes (crc16 payload)))
      (by rw [packetOf, List.length_cons] at hlength; omega) data rs
    have hcheck := checkPacket_packetOf start no (rfl : payload.length = payload.length) post
    refine ⟨packetOf start no payload ++ post, ?_, rfl, ?_⟩
    · rw [← hcheck]
      exact hrun
    · show (payload ++ crcBytes (crc16 payload) ++ post).take payload.length = payload
      rw [List.append_assoc, List.take_left]
  · intro i c hi hlt hc
    obtain ⟨j, rfl⟩ := Nat.exists_eq_add_of_le' hi
    have hset : (packetOf start no payload).set (j + 1) c =
        start :: (no :: ~~~no :: (payload ++ crcBytes (crc16 payload))).set j c := rfl
    obtain ⟨post, hrun⟩ := receivePacket_run hstart
      ((no :: ~~~no :: (payload ++ crcBytes (crc16 payload))).set j c)
      (by rw [List.length_set]; rw [packetOf, List.length_cons] at hlength; omega) data rs
    have hcheck := checkPacket_changed no rfl post hi hlt hc
    rw [hset] at hcheck ⊢
    exact ⟨_, by rw [← hcheck]; exact hrun⟩

/-- An empty block with the number 1. -/
theorem receivePacket_prepared_empty :
    ∃ data', (Receive_Packet (freshBlock 1029).bytes).run
        ((Ymodem_PreparePacket 1 0 (InFile.opened [])).1.map some ++ []) =
      some ((.packet (padded (blockRead 0 (InFile.opened []))).length, data'), []) ∧
      data'.getD 1 0 = 1 ∧
      (data'.drop PACKET_HEADER).take (padded (blockRead 0 (InFile.opened []))).length =
        padded (blockRead 0 (InFile.opened [])) :=
  (receivePacket_prepared (.block 1 0 (InFile.opened [])) (freshBlock 1029) []).1

end Receive

end LuaRtos.Ymodem
