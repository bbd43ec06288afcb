/-
  LuaRtos.Ymodem.Transfer

  A whole session: `Ymodem_Transmit`, from the moment it has accepted the
  receiver's 'C', against `Ymodem_Receive` waiting for a header.

  Both follow one script of packets and answers, block by block; so on a line
  where each answers within the time-outs of the other every run ends with
  success on both sides and the file received.
-/

import LuaRtos.Link.Script
import LuaRtos.Ymodem.Build
import LuaRtos.Ymodem.Receive

namespace LuaRtos.Ymodem

open CLib Link

/-! ## The script

The events are those of the sender. -/

/-- A packet that is acknowledged. -/
def acked (packet : List Byte) : List (Event Byte) := packet.map .send ++ [.recv ACK]

/-- The blocks of a file, numbered from `no` on. -/
def blockEvents : Nat → List (List Byte) → List (Event Byte)
  | _, [] => []
  | no, c :: cs =>
    acked (packetOf STX (BitVec.ofNat 8 no) (padded c)) ++ blockEvents (no + 1) cs

/-- The end of the file and of the session. -/
def endEvents : List (Event Byte) :=
  [.send EOT, .recv NAK] ++ ([.send EOT, .recv ACK, .recv CRC16] ++
    acked (packetOf SOH 0 emptyBlock))

/-- A session with one file. -/
def sessionScript (name : List Byte) (size : Nat) (cs : List (List Byte)) : List (Event Byte) :=
  acked (packetOf SOH 0 (headerBlock name size)) ++
    (.recv CRC16 :: (blockEvents 1 cs ++ endEvents))

/-! ## The sender plays the script -/

theorem waitResponse_ok (ackchr : Byte) (tmo : Nat) :
    Plays (Ymodem_WaitResponse ackchr (tmo + 1)) [.recv ackchr] (.ret .ok) := by
  refine .read ?_
  show Plays (if ackchr = ackchr then _ else _) _ _
  rw [if_pos rfl]
  exact .done _

theorem waitC_plays (wrong : Int) : Plays (waitC wrong) [.recv CRC16] (.ret none) :=
  (waitResponse_ok CRC16 9).bind_ret (.done _)

theorem sendUntilAck_acked (packet : List Byte) (wrong abort : Int) (n : Nat) :
    Plays (sendUntilAck packet wrong abort (n + 1)) (acked packet) (.ret none) :=
  (Plays.puts packet).bind_ret ((waitResponse_ok ACK 9).bind_ret (.done _))

/-- An acknowledgement that comes after the second time only. -/
theorem sendUntilAck_again (packet : List Byte) (wrong abort : Int) (n : Nat) :
    Plays (sendUntilAck packet wrong abort (n + 2))
      (packet.map .send ++ (.recv NAK :: acked packet)) (.ret none) :=
  (Plays.puts packet).bind_ret (.read (sendUntilAck_acked packet wrong abort n))

/-- One block, which is a full one or the last. -/
theorem sendBlocks_step {c rest : List Byte} (hne : c ≠ []) (hc : c.length ≤ PACKET_1K_SIZE)
    (hfull : c.length = PACKET_1K_SIZE ∨ rest = []) (retries fuel no : Nat) (eof : Bool) :
    Plays (sendBlocks (retries + 1) (fuel + 1) (no % 65536) (c ++ rest).length ⟨c ++ rest, eof⟩)
      (acked (packetOf STX (BitVec.ofNat 8 no) (padded c)))
      (sendBlocks (retries + 1) fuel ((no + 1) % 65536) rest.length ⟨rest, eof⟩) := by
  have hpos : 0 < c.length := List.length_pos_iff.mpr hne
  have hlen : (c ++ rest).length = c.length + rest.length := List.length_append
  have hrest : c.length = PACKET_1K_SIZE ∨ rest.length = 0 :=
    hfull.imp_right List.length_eq_zero_iff.mpr
  have hsize : (if (c ++ rest).length < PACKET_1K_SIZE then (c ++ rest).length
      else PACKET_1K_SIZE) = c.length := by
    split <;> omega
  have hnext : (if (c ++ rest).length > PACKET_1K_SIZE then (c ++ rest).length - PACKET_1K_SIZE
      else 0) = rest.length := by
    split <;> omega
  have hno : BitVec.ofNat 8 (no % 65536) = BitVec.ofNat 8 no := by
    apply BitVec.eq_of_toNat_eq
    rw [BitVec.toNat_ofNat, BitVec.toNat_ofNat]
    omega
  rw [sendBlocks, if_neg (show (c ++ rest).length ≠ 0 by omega), hno,
    preparePacket_eq _ hsize hne, hnext, show (no % 65536 + 1) % 65536 = (no + 1) % 65536 by omega]
  exact (sendUntilAck_acked (packetOf STX (BitVec.ofNat 8 no) (padded c)) (-4) (-5) retries).bind _

theorem sendBlocks_plays {cs : List (List Byte)} (hcs : InBlocks PACKET_1K_SIZE cs)
    (retries n no : Nat) (eof : Bool) :
    Plays (sendBlocks (retries + 1) (cs.length + (n + 1)) (no % 65536) cs.flatten.length
      ⟨cs.flatten, eof⟩) (blockEvents no cs) (.ret none) := by
  induction hcs generalizing no with
  | nil => exact .done _
  | @last c hne hc =>
    have hstep := sendBlocks_step hne hc (.inr rfl) retries (n + 1) no eof
    rw [List.flatten_singleton, List.length_singleton, Nat.add_comm 1]
    rw [List.append_nil] at hstep
    exact hstep.trans (.done _)
  | @cons c cs hc hcs hrest ih =>
    have hne : c ≠ [] := by
      rintro rfl
      cases hc
    have hstep : Plays (sendBlocks _ _ _ (c ++ cs.flatten).length ⟨c ++ cs.flatten, eof⟩) _ _ :=
      sendBlocks_step hne (Nat.le_of_eq hc) (.inl hc) retries (cs.length + (n + 1)) no eof
    rw [List.flatten_cons, List.length_cons, Nat.succ_add]
    exact hstep.trans (ih (no + 1))

theorem transmitFile_plays (packet_data : PacketData) {cs : List (List Byte)}
    (hcs : InBlocks PACKET_1K_SIZE cs) (n : Nat) :
    Plays (transmitFile (cs.length + (n + 2)) packet_data.bytes cs.flatten.length
      (.opened cs.flatten)) (.recv CRC16 :: (blockEvents 1 cs ++ endEvents)) (.ret 0) := by
  have hblocks : Plays (sendBlocks (cs.length + (n + 2)) (cs.length + (n + 2)) 0x01
      cs.flatten.length (.opened cs.flatten)) (blockEvents 1 cs) (.ret none) :=
    sendBlocks_plays hcs (cs.length + (n + 1)) (n + 1) 1 false
  have hend : Plays (sendUntilAck [EOT] (-6) (-7) (cs.length + (n + 2)))
      ([.send EOT, .recv NAK] ++ [.send EOT, .recv ACK]) (.ret none) :=
    sendUntilAck_again [EOT] (-6) (-7) (cs.length + n)
  have hlast : Plays (sendUntilAck (packetOf SOH 0 emptyBlock) (-9) (-10) (cs.length + (n + 2)))
      (acked (packetOf SOH 0 emptyBlock)) (.ret none) :=
    sendUntilAck_acked _ (-9) (-10) (cs.length + (n + 1))
  unfold transmitFile
  refine (waitC_plays (-3)).bind_ret (hblocks.bind_ret ?_)
  refine hend.bind_ret ?_
  show Plays _ ([.recv CRC16] ++ acked (packetOf SOH 0 emptyBlock)) _
  refine (waitC_plays (-8)).bind_ret ?_
  dsimp only
  rw [prepareLastPacket_eq]
  dsimp only
  rw [take_packetOf SOH 0 length_emptyBlock]
  exact hlast.bind _

theorem transmitHeader_plays (packet_data : PacketData) {name : List Byte} (hname : nul ∉ name)
    (post : List Byte) {cs : List (List Byte)} (hcs : InBlocks PACKET_1K_SIZE cs)
    (hsize : cs.flatten.length < 2147483648) (hfits : HeaderFits name cs.flatten.length) (n : Nat) :
    Plays (transmitHeader (cs.length + (n + 2)) packet_data (name ++ nul :: post)
      cs.flatten.length (.opened cs.flatten))
      (sessionScript name cs.flatten.length cs) (.ret 0) := by
  let packet := packetOf SOH 0 (headerBlock name cs.flatten.length)
  have hlen : packet.length = PACKET_SIZE + PACKET_OVERHEAD := by
    rw [length_packetOf, length_headerBlock hfits]
  have hdata : (packet ++ packet_data.bytes.drop 133).length = 1029 := by
    have hdrop : (packet_data.bytes.drop 133).length = 1029 - 133 := by
      rw [List.length_drop, packet_data.size]
    have htotal : PACKET_SIZE + PACKET_OVERHEAD = 133 := rfl
    rw [List.length_append]
    omega
  have hheader : Plays (sendUntilAck packet (-2) 98 (cs.length + (n + 2))) (acked packet)
      (.ret none) :=
    sendUntilAck_acked _ (-2) 98 (cs.length + (n + 1))
  have hfile := transmitFile_plays ⟨_, hdata⟩ hcs n
  unfold transmitHeader
  rw [prepareIntialPacket_eq packet_data hname post hsize hfits]
  dsimp only
  rw [take_packetOf SOH 0 (length_headerBlock hfits)]
  refine hheader.bind_ret ?_
  exact hfile

/-! ## The receiver plays the script -/

theorem map_dual_acked (packet : List Byte) :
    (acked packet).map Event.dual = packet.map .recv ++ [.send ACK] := by
  simp [acked, Function.comp_def]

theorem checkPacket_packetOf (start no : Byte) {block : List Byte} {len : Nat}
    (hblock : block.length = len) (post : List Byte) :
    checkPacket (packetOf start no block ++ post) len = .packet len := by
  have hno : no = ~~~no ^^^ 0xff := by
    revert no
    decide
  have htake : ((packetOf start no block ++ post).drop PACKET_HEADER).take (len + PACKET_TRAILER) =
      block ++ crcBytes (crc16 block) := by
    show (block ++ crcBytes (crc16 block) ++ post).take (len + PACKET_TRAILER) = _
    refine List.take_left' ?_
    rw [List.length_append, hblock]
    rfl
  rw [checkPacket, htake, crc16_append]
  show (if no ≠ ~~~no ^^^ 0xff then _ else _) = _
  rw [if_neg (not_not_intro hno), if_neg (not_not_intro rfl)]

/-- A packet with its check, as it is read into the buffer. -/
theorem receivePacket_plays {start : Byte} {len : Nat}
    (hstart : start = SOH ∧ len = PACKET_SIZE ∨ start = STX ∧ len = PACKET_1K_SIZE) (no : Byte)
    {block : List Byte} (hblock : block.length = len) (data : PacketData) :
    ∃ data' : PacketData,
      Plays (Receive_Packet data.bytes) ((packetOf start no block).map .recv)
        (.ret (.packet len, data'.bytes)) ∧
      ∃ post, data'.bytes = packetOf start no block ++ post := by
  obtain ⟨bytes, hsize⟩ := data
  cases bytes with
  | nil => cases hsize
  | cons d rest =>
    have hlen : (no :: ~~~no :: (block ++ crcBytes (crc16 block))).length =
        len + PACKET_OVERHEAD - 1 := by
      have h := length_packetOf start no block
      rw [packetOf, List.length_cons, hblock] at h
      omega
    have hrest : rest.length = 1028 := by
      rw [List.length_cons] at hsize
      omega
    have hle : len ≤ 1024 := by
      rcases hstart with ⟨-, rfl⟩ | ⟨-, rfl⟩
      · decide
      · decide
    have hover : PACKET_OVERHEAD = 5 := rfl
    have hfill := Plays.fill [start] rest (no :: ~~~no :: (block ++ crcBytes (crc16 block)))
      (by omega)
    rw [hlen] at hfill
    have hcheck := checkPacket_packetOf start no hblock (rest.drop (len + PACKET_OVERHEAD - 1))
    have hbody : Plays (receiveBody (d :: rest) start len)
        ((no :: ~~~no :: (block ++ crcBytes (crc16 block))).map .recv)
        (.ret (.packet len, packetOf start no block ++ rest.drop (len + PACKET_OVERHEAD - 1))) := by
      rw [← hcheck]
      exact hfill.bind _
    refine ⟨⟨packetOf start no block ++ rest.drop (len + PACKET_OVERHEAD - 1), ?_⟩, ?_, _, rfl⟩
    · rw [List.length_append, length_packetOf, hblock, List.length_drop]
      omega
    · rcases hstart with ⟨rfl, rfl⟩ | ⟨rfl, rfl⟩
      · exact .read hbody
      · exact .read hbody

/-! ## The header -/

theorem takeSize_eq {digits : List Byte} (hdigits : 0x20 ∉ digits) (post : List Byte) {n : Nat}
    (hn : digits.length ≤ n) : takeSize n (digits ++ 0x20 :: post) = .ok digits := by
  induction digits generalizing n with
  | nil => cases n <;> rfl
  | cons c digits ih =>
    cases n with
    | zero => simp at hn
    | succ n =>
      obtain ⟨hc, hdigits⟩ := List.ne_and_not_mem_of_not_mem_cons hdigits
      have hrest := ih hdigits (by simpa using hn)
      rw [List.cons_append, takeSize, if_neg (Ne.symm hc), hrest, ok_bind]
      rfl

section Header

variable {name : List Byte} {size : Nat} {data : List Byte}

/-- The block after the three bytes before it. -/
theorem drop_header (post : List Byte) :
    (packetOf SOH 0 (headerBlock name size) ++ post).drop PACKET_HEADER =
      name ++ nul :: (formatD size ++ 0x20 ::
        (List.replicate (PACKET_SIZE - (name.length + 1 + (formatD size).length + 1)) 0 ++
          (crcBytes (crc16 (headerBlock name size)) ++ post))) := by
  show headerBlock name size ++ crcBytes (crc16 (headerBlock name size)) ++ post = _
  simp only [headerBlock, List.append_assoc, List.cons_append]

theorem headerSize_eq (hname : nul ∉ name) (hsize : size < 2147483648) (post : List Byte) :
    headerSize (packetOf SOH 0 (headerBlock name size) ++ post) = .ok size := by
  have hdigits : ∀ c ∈ formatD size, isDigit c = true := isDigit_of_mem_formatD
  have hnul : nul ∉ formatD size := fun hmem => absurd (hdigits nul hmem) (by decide)
  have hblank : 0x20 ∉ formatD size := fun hmem => absurd (hdigits 0x20 hmem) (by decide)
  have hlen : (formatD size).length ≤ FILE_SIZE_LENGTH :=
    length_formatD_le (by decide) (by show size < 10 ^ 16; omega)
  have hdrop : (packetOf SOH 0 (headerBlock name size) ++ post).drop
      (PACKET_HEADER + name.length + 1) = formatD size ++ 0x20 ::
        (List.replicate (PACKET_SIZE - (name.length + 1 + (formatD size).length + 1)) 0 ++
          (crcBytes (crc16 (headerBlock name size)) ++ post)) := by
    rw [Nat.add_assoc, ← List.drop_drop, drop_header, ← List.drop_drop, List.drop_left]
    rfl
  have hval : strtol (formatD size) = size := by
    have h : strtol (formatD size ++ []) = size := strtol_formatD hsize nofun
    rwa [List.append_nil] at h
  have hpos : 0 < (formatD size).length := List.length_pos_iff.mpr (formatD_ne_nil size)
  rw [headerSize, drop_header, readStr_append hname, ok_bind, hdrop, takeSize_eq hblank _ hlen,
    ok_bind, readStr_append hnul, ok_bind, if_pos hpos, hval, BitVec.ofInt_natCast,
    BitVec.toNat_ofNat, Nat.mod_eq_of_lt (by omega)]
  rfl

theorem copyName_eq (hname : nul ∉ name) {r : Nat} (hr : name.length < r) (post : List Byte) :
    copyName (some r) [] (packetOf SOH 0 (headerBlock name size) ++ post) = .ok name := by
  dsimp only [copyName]
  rw [drop_header, readStr_append hname, ok_bind, List.length_nil, Nat.zero_add, if_pos hr]
  rfl

end Header

/-! ## The rounds of the receiver -/

section Rounds

variable (room : List Byte → List Byte → Nat) (maxsize : Nat) (getname : Option Nat)

/-- A round with a packet is the reading of it and what is made of it. -/
theorem sessionRound_packet {s : Receiver} {data data' : PacketData} {len : Nat}
    {es es' : List (Event Byte)} {q : Proc Byte (Receiver ⊕ SessionEnd)}
    (hdata : s.packet_data = data.bytes)
    (hplays : Plays (Receive_Packet data.bytes) es (.ret (.packet len, data'.bytes)))
    (hround : Plays (normalPacket room maxsize getname
      { s with packet_data := data'.bytes } len) es' q) :
    Plays (sessionRound room maxsize getname s) (es ++ es') q := by
  unfold sessionRound
  rw [hdata]
  exact hplays.bind_ret hround

theorem sessionRound_header {s : Receiver} {data : PacketData} (hdata : s.packet_data = data.bytes)
    (hfirst : s.packets_received = 0) (heof : s.eof_cnt = 0) (hnone : s.name = [])
    {name : List Byte} (hname : nul ∉ name) (hne : name ≠ []) {r : Nat} (hr : name.length < r)
    {size : Nat} (hpos : 0 < size) (hmax : size ≤ maxsize) (hsize : size < 2147483648)
    (hfits : HeaderFits name size) : ∃ data' : PacketData,
      Plays (sessionRound room maxsize (some r) s)
        ((acked (packetOf SOH 0 (headerBlock name size)) ++ [Event.recv CRC16]).map .dual)
        (.ret (.inl { s with
          packet_data := data'.bytes
          errors := 0
          name := name
          size := size
          file_len := 0
          packets_received := 1 })) := by
  obtain ⟨data', hplays, post, hpost⟩ := receivePacket_plays (.inl ⟨rfl, rfl⟩) 0
    (length_headerBlock hfits) data
  obtain ⟨c, cs, rfl⟩ := List.exists_cons_of_ne_nil hne
  have hc : c ≠ 0 := fun h => hname (h ▸ List.mem_cons_self)
  have hround : normalPacket room maxsize (some r) { s with packet_data := data'.bytes }
      PACKET_SIZE =
      send_ACKCRC16 >>= fun _ => .ret (.inl { s with
        packet_data := data'.bytes
        errors := 0
        name := c :: cs
        size := size
        file_len := 0
        packets_received := 1 }) := by
    have hgetd : data'.bytes.getD PACKET_HEADER 0 = c := by
      rw [hpost]
      rfl
    have hno : (data'.bytes.getD 1 0).toNat = 0 := by
      rw [hpost]
      rfl
    have hlimits : ¬ (size < 1 ∨ size > maxsize) := by omega
    dsimp only [normalPacket]
    rw [heof, if_neg (by decide), hno, hfirst, if_neg (by decide), if_pos rfl]
    dsimp only [headerPacket]
    rw [hgetd, if_pos hc, hnone, hpost, copyName_eq hname hr, headerSize_eq hname hsize]
    dsimp only
    rw [if_neg hlimits]
    simp only [Receiver.received]
    rfl
  have hanswer := (Plays.puts [ACK, CRC16]).bind fun _ => (Proc.ret (.inl { s with
    packet_data := data'.bytes
    errors := 0
    name := c :: cs
    size := size
    file_len := 0
    packets_received := 1 }) : Proc Byte (Receiver ⊕ SessionEnd))
  rw [← send_ACKCRC16, ← hround] at hanswer
  have hanswered := sessionRound_packet room maxsize (some r) hdata hplays hanswer
  refine ⟨data', ?_⟩
  rwa [List.map_append, map_dual_acked, List.append_assoc]

/-- A data packet, with a full block or the last one. -/
theorem sessionRound_data (hroom : Roomy room) {s : Receiver} {data : PacketData}
    (hdata : s.packet_data = data.bytes) (hfirst : s.packets_received ≠ 0)
    (hcount : s.packets_received + 1 < 4294967296) (heof : s.eof_cnt = 0) {c : List Byte}
    (hne : c ≠ []) (hc : c.length ≤ PACKET_1K_SIZE) (hle : s.file_len + c.length ≤ s.size)
    (hfull : c.length = PACKET_1K_SIZE ∨ s.file_len + c.length = s.size)
    (hsize : s.size < 2147483648) : ∃ data' : PacketData,
      Plays (sessionRound room maxsize getname s)
        ((acked (packetOf STX (BitVec.ofNat 8 s.packets_received) (padded c))).map .dual)
        (.ret (.inl { s with
          packet_data := data'.bytes
          file_len := s.file_len + c.length
          packets_received := s.packets_received + 1
          errors := 0
          file := s.file ++ c })) := by
  obtain ⟨data', hplays, post, hpost⟩ := receivePacket_plays (.inr ⟨rfl, rfl⟩)
    (BitVec.ofNat 8 s.packets_received) (length_padded hc) data
  have hpos : 0 < c.length := List.length_pos_iff.mpr hne
  have h1k : PACKET_1K_SIZE = 1024 := rfl
  have hno : (data'.bytes.getD 1 0).toNat = s.packets_received % 256 := by
    rw [hpost]
    exact BitVec.toNat_ofNat ..
  have hblock : (data'.bytes.drop PACKET_HEADER).take c.length = c := by
    rw [hpost]
    show (padded c ++ crcBytes (crc16 (padded c)) ++ post).take c.length = c
    rw [padded, List.append_assoc, List.append_assoc, List.take_left]
  have hround : normalPacket room maxsize getname { s with packet_data := data'.bytes }
      PACKET_1K_SIZE = send_ACK >>= fun _ => .ret (.inl { s with
        packet_data := data'.bytes
        file_len := s.file_len + c.length
        packets_received := s.packets_received + 1
        errors := 0
        file := s.file ++ c }) := by
    have htotal : u32 (s.file_len + PACKET_1K_SIZE) = s.file_len + PACKET_1K_SIZE := by
      rw [u32]
      omega
    have hwrite : (if s.file_len + PACKET_1K_SIZE > s.size then
        PACKET_1K_SIZE - (s.file_len + PACKET_1K_SIZE - s.size) else PACKET_1K_SIZE) =
        c.length := by
      split <;> omega
    have hfile_len : (if s.file_len + PACKET_1K_SIZE > s.size then s.size
        else s.file_len + PACKET_1K_SIZE) = s.file_len + c.length := by
      split <;> omega
    dsimp only [normalPacket]
    rw [heof, if_neg (by decide), if_neg (not_not_intro hno), if_neg hfirst]
    dsimp only [dataPacket]
    rw [if_pos (show s.file_len < s.size by omega), htotal, hwrite, hfile_len, hblock,
      fwrite_of_le (hroom s.file c)]
    dsimp only
    rw [if_neg (not_not_intro rfl)]
    simp only [Receiver.received, u32, Nat.mod_eq_of_lt hcount]
    rfl
  refine ⟨data', ?_⟩
  rw [map_dual_acked]
  refine sessionRound_packet room maxsize getname hdata hplays ?_
  rw [hround]
  exact (Plays.puts [ACK]).bind _

/-- The first end of transmission is not believed. -/
theorem sessionRound_eot_first {s : Receiver} (heof : s.eof_cnt = 0) :
    Plays (sessionRound room maxsize getname s) [.recv EOT, .send NAK]
      (.ret (.inl { s with eof_cnt := 1 })) := by
  refine .read ?_
  show Plays (if s.eof_cnt = INT_MAX then _ else _) _ _
  rw [heof, if_neg (by decide)]
  exact .write (.done _)

theorem sessionRound_eot_second {s : Receiver} (heof : s.eof_cnt = 1) :
    Plays (sessionRound room maxsize getname s) [.recv EOT, .send ACK, .send CRC16]
      (.ret (.inl { s with eof_cnt := 2 })) := by
  refine .read ?_
  show Plays (if s.eof_cnt = INT_MAX then _ else _) _ _
  rw [heof, if_neg (by decide)]
  exact .write (.write (.done _))

/-- After the end of the file, a packet is only acknowledged. -/
theorem sessionRound_last {s : Receiver} {data : PacketData} (hdata : s.packet_data = data.bytes)
    (heof : s.eof_cnt > 1) : ∃ data' : PacketData,
      Plays (sessionRound room maxsize getname s)
        ((acked (packetOf SOH 0 emptyBlock)).map .dual)
        (.ret (.inl { s with packet_data := data'.bytes })) := by
  obtain ⟨data', hplays, -⟩ := receivePacket_plays (.inl ⟨rfl, rfl⟩) 0 length_emptyBlock data
  have hround : normalPacket room maxsize getname { s with packet_data := data'.bytes }
      PACKET_SIZE = send_ACK >>= fun _ => .ret (.inl { s with packet_data := data'.bytes }) := by
    dsimp only [normalPacket]
    rw [if_pos heof]
    rfl
  refine ⟨data', ?_⟩
  rw [map_dual_acked]
  refine sessionRound_packet room maxsize getname hdata hplays ?_
  rw [hround]
  exact (Plays.puts [ACK]).bind _

/-- When nothing more comes after the end of the file, the session is over. -/
theorem sessionLoop_over {s : Receiver} (heof : s.eof_cnt > 1) (n : Nat) :
    Follows 1 (.loop (sessionRound room maxsize getname) (n + 1) s) []
      (s.exit (toInt32 s.size)) := by
  refine .timeout ?_
  show Follows 0 ((if s.eof_cnt > 1 then _ else _) >>= _) [] _
  rw [if_pos heof]
  exact .ret _

/-- The data packets of a file. -/
theorem sessionLoop_blocks (hroom : Roomy room) {cs : List (List Byte)}
    (hcs : InBlocks PACKET_1K_SIZE cs) (n : Nat) {s : Receiver} {data : PacketData}
    (hdata : s.packet_data = data.bytes) (hfirst : s.packets_received ≠ 0)
    (hcount : s.packets_received + cs.length < 4294967296) (heof : s.eof_cnt = 0)
    (hsize : s.size < 2147483648) (hrest : s.file_len + cs.flatten.length = s.size) :
    ∃ (s' : Receiver) (data' : PacketData),
      Plays (.loop (sessionRound room maxsize getname) (cs.length + n) s)
        ((blockEvents s.packets_received cs).map .dual)
        (.loop (sessionRound room maxsize getname) n s') ∧
      s'.packet_data = data'.bytes ∧ s'.eof_cnt = 0 ∧ s'.size = s.size ∧ s'.name = s.name ∧
      s'.file = s.file ++ cs.flatten := by
  induction hcs generalizing s data with
  | nil =>
    refine ⟨s, data, ?_, hdata, heof, rfl, rfl, (List.append_nil _).symm⟩
    rw [List.length_nil, Nat.zero_add]
    exact .done _
  | @last c hne hc =>
    rw [List.length_singleton] at hcount
    rw [List.flatten_singleton] at hrest ⊢
    obtain ⟨data', hround⟩ := sessionRound_data room maxsize getname hroom
      hdata hfirst hcount heof hne hc (Nat.le_of_eq hrest) (.inr hrest) hsize
    refine ⟨{ s with
      packet_data := data'.bytes
      file_len := s.file_len + c.length
      packets_received := s.packets_received + 1
      errors := 0
      file := s.file ++ c }, data', ?_, rfl, heof, rfl, rfl, rfl⟩
    rw [List.length_singleton, Nat.add_comm, blockEvents, blockEvents, List.append_nil]
    exact hround.bind _
  | @cons c cs hc hcs hnext ih =>
    have hne : c ≠ [] := by
      rintro rfl
      cases hc
    rw [List.length_cons] at hcount
    rw [List.flatten_cons, List.length_append] at hrest
    obtain ⟨data', hround⟩ := sessionRound_data room maxsize getname hroom
      hdata hfirst (by omega) heof hne (Nat.le_of_eq hc) (by omega) (.inl hc) hsize
    obtain ⟨s', data'', hloop, hdata'', heof', hsize', hname', hfile'⟩ := ih
      (s := { s with
        packet_data := data'.bytes
        file_len := s.file_len + c.length
        packets_received := s.packets_received + 1
        errors := 0
        file := s.file ++ c }) (show data'.bytes = data'.bytes from rfl) (Nat.succ_ne_zero _)
      (by dsimp only; omega) heof hsize
      (by dsimp only; omega)
    refine ⟨s', data'', ?_, hdata'', heof', hsize', hname', ?_⟩
    · rw [List.length_cons, Nat.succ_add, blockEvents, List.map_append]
      exact hround.loop_inl hloop
    · rw [hfile', List.flatten_cons, List.append_assoc]

/-- The receiver has taken nothing yet and waits for a header. -/
structure Receiver.Waiting (s : Receiver) : Prop where
  buffer : s.packet_data.length = 1029
  first : s.packets_received = 0
  no_eof : s.eof_cnt = 0
  no_file : s.file = []
  no_name : s.name = []

theorem sessionLoop_follows (hroom : Roomy room) {s : Receiver} (hs : s.Waiting)
    {name : List Byte} (hname : nul ∉ name) (hne : name ≠ []) {r : Nat} (hr : name.length < r)
    {cs : List (List Byte)} (hcs : InBlocks PACKET_1K_SIZE cs) (hpos : 0 < cs.flatten.length)
    (hmax : cs.flatten.length ≤ maxsize) (hsize : cs.flatten.length < 2147483648)
    (hfits : HeaderFits name cs.flatten.length) (n : Nat) :
    ∃ k, Follows k
      (.loop (sessionRound room maxsize (some r)) (cs.length + (n + 4) + 1) s)
      ((sessionScript name cs.flatten.length cs).map .dual)
      ⟨cs.flatten.length, cs.flatten, name⟩ := by
  have hbuffer : s.packet_data = (⟨_, hs.buffer⟩ : PacketData).bytes := rfl
  obtain ⟨data₁, hheader⟩ := sessionRound_header room maxsize hbuffer
    hs.first hs.no_eof hs.no_name hname hne hr hpos hmax hsize hfits
  have hcount := hcs.length_le (by decide)
  obtain ⟨s₂, data₂, hblocks, hdata₂, heof₂, hsize₂, hname₂, hfile₂⟩ :=
    sessionLoop_blocks room maxsize (some r) hroom hcs (n + 4)
      (s := { s with
        packet_data := data₁.bytes
        errors := 0
        name := name
        size := cs.flatten.length
        file_len := 0
        packets_received := 1 }) (show data₁.bytes = data₁.bytes from rfl) Nat.one_ne_zero
      (by dsimp only; omega) hs.no_eof hsize (Nat.zero_add _)
  -- the end of the file, twice, and the last packet
  have hfirst := sessionRound_eot_first room maxsize (some r) heof₂
  have hsecond := sessionRound_eot_second room maxsize (some r)
    (s := { s₂ with eof_cnt := 1 }) rfl
  obtain ⟨data₃, hlast⟩ := sessionRound_last room maxsize (some r)
    (s := { s₂ with eof_cnt := 2 }) hdata₂ (Nat.lt_succ_self 1)
  have hover := sessionLoop_over room maxsize (some r)
    (s := { s₂ with eof_cnt := 2, packet_data := data₃.bytes }) (Nat.lt_succ_self 1) n
  have hscript : (sessionScript name cs.flatten.length cs).map Event.dual =
      (acked (packetOf SOH 0 (headerBlock name cs.flatten.length)) ++
        [Event.recv CRC16]).map .dual ++ ((blockEvents 1 cs).map .dual ++
        ([.recv EOT, .send NAK] ++ ([.recv EOT, .send ACK, .send CRC16] ++
          (acked (packetOf SOH 0 emptyBlock)).map .dual))) := by
    simp [sessionScript, endEvents]
  have hexit : Receiver.exit { s₂ with eof_cnt := 2, packet_data := data₃.bytes }
      (toInt32 s₂.size) = ⟨cs.flatten.length, cs.flatten, name⟩ := by
    rw [Receiver.exit, hsize₂, hname₂, hfile₂, hs.no_file, List.nil_append, toInt32_of_lt hsize]
  have hplays := hheader.loop_inl (hblocks.trans (hfirst.loop_inl (hsecond.loop_inl
    (hlast.loop_inl (.done (.loop (sessionRound room maxsize (some r)) (n + 1) _))))))
  obtain ⟨k, hk⟩ := hplays.follows hover
  rw [hscript, ← hexit]
  simp only [List.append_nil] at hk ⊢
  exact ⟨k, hk⟩

end Rounds

/-! ## The two together -/

theorem Receiver.start_waiting (packet_data : PacketData) : (Receiver.start packet_data).Waiting :=
  ⟨packet_data.size, rfl, rfl, rfl, rfl⟩

/-- The session of a sender that has just accepted a receiver `s` that waits,
    with nothing on the line and enough rounds for the loops: every run in which
    each answers within the time-outs of the other ends with both successful,
    the receiver with the name and the content, and nothing left on the line. -/
def Succeeds (room : List Byte → List Byte → Nat) (maxsize r : Nat) (packet_data : PacketData)
    (s : Receiver) (name post content : List Byte) : Prop :=
  ∃ fuel, ∀ m ≥ fuel, ∀ n ≥ fuel,
    (Wire.runs
      (transmitHeader m packet_data (name ++ nul :: post) content.length (.opened content))
      (.loop (sessionRound room maxsize (some r)) n s)).Inevitably Wire.Prompt
      (fun w => w.Finished 0 ⟨content.length, content, name⟩)
      (.start
        (transmitHeader m packet_data (name ++ nul :: post) content.length (.opened content))
        (.loop (sessionRound room maxsize (some r)) n s))

/-- Every file of at least one byte and at most the receiver's maximum is
    transferred, under every name that fits with its size in the header packet. -/
theorem transmit_receive {room : List Byte → List Byte → Nat} (hroom : Roomy room) {maxsize : Nat}
    (hint : maxsize < 2147483648) {r : Nat} (hr : PACKET_SIZE ≤ r) (packet_data : PacketData)
    {s : Receiver} (hs : s.Waiting) {name : List Byte} (hname : nul ∉ name) (hne : name ≠ [])
    (post : List Byte) {content : List Byte} (hpos : content ≠ [])
    (hmax : content.length ≤ maxsize) (hfits : HeaderFits name content.length) :
    Succeeds room maxsize r packet_data s name post content := by
  obtain ⟨cs, hcs, rfl⟩ := exists_inBlocks (show 0 < PACKET_1K_SIZE by decide) content
  have hlen : name.length < r := by
    unfold HeaderFits at hfits
    omega
  refine ⟨cs.length + 5, fun m hm n hn => ?_⟩
  obtain ⟨m, rfl⟩ := Nat.exists_eq_add_of_le hm
  obtain ⟨n, rfl⟩ := Nat.exists_eq_add_of_le hn
  obtain ⟨i, hsend⟩ := (transmitHeader_plays packet_data hname post hcs (by omega) hfits
    (m + 3)).follows (.ret 0)
  obtain ⟨j, hreceive⟩ := sessionLoop_follows room maxsize hroom hs hname hne hlen hcs
    (List.length_pos_iff.mpr hpos) hmax (by omega) hfits n
  rw [List.append_nil] at hsend
  rw [show cs.length + 5 + m = cs.length + (m + 3 + 2) by omega,
    show cs.length + 5 + n = cs.length + (n + 4) + 1 by omega]
  exact follows_inevitably hsend hreceive

/-- Three bytes under the name "a.lua", with the sizes that the callers use. -/
theorem transmit_receive_three_bytes :
    Succeeds (fun _ block => block.length) (10 * 1024 * 1024) 128 (freshBlock 1029)
      (.start (freshBlock 1029)) (chars "a.lua") [] [1, 2, 3] := by
  have hlen : (formatD (3 : Nat)).length ≤ 1 := length_formatD_le (by decide) (by decide)
  have hfits : HeaderFits (chars "a.lua") [(1 : Byte), 2, 3].length := by
    show 5 + 1 + (formatD (3 : Nat)).length + 1 ≤ 128
    omega
  exact transmit_receive (fun _ _ => Nat.le_refl _) (by decide) (by decide) _
    (Receiver.start_waiting _) (by decide) (by decide) _ (by decide) (by decide) hfits

end LuaRtos.Ymodem
