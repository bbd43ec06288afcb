/-
  LuaRtos.Ymodem.Receive

  `Ymodem_Receive`: the loop over the packets of one session.

  `room` is the disk that the file is on, `getname` the size of the caller's
  buffer for the name, if it gave one, and `fuel` bounds the packets.
-/

import LuaRtos.Ymodem.Packet

namespace LuaRtos.Ymodem

open CLib Link

/-- An `unsigned int`. -/
def u32 (n : Nat) : Nat := n % 4294967296

/-- The largest `int`. -/
def INT_MAX : Nat := 2147483647

/-- The local variables of `Ymodem_Receive`, the bytes written to the file, and
    the characters written to `getname` so far. -/
structure Receiver where
  packet_data : List Byte
  file_len : Nat
  packets_received : Nat
  errors : Nat
  eof_cnt : Nat
  size : Nat
  file : List Byte
  name : List Byte
deriving DecidableEq, Repr

/-- How a session ends: the value returned, the file and the name. -/
structure SessionEnd where
  ret : Int
  file : List Byte
  name : List Byte
deriving DecidableEq, Repr

/-- `goto exit` with this size. -/
def Receiver.exit (s : Receiver) (ret : Int) : SessionEnd := ⟨ret, s.file, s.name⟩

/-! ## The header packet -/

/-- The loop that copies the size up to a blank, at most `n` characters.  The
    character after them is read too. -/
def takeSize : Nat → List Byte → Result (List Byte)
  | _, [] => .error .outOfBounds
  | n, c :: rest =>
    if c = 0x20 then .ok []
    else match n with
      | 0 => .ok []
      | n + 1 => do
        let s ← takeSize n rest
        pure (c :: s)

/-- The file size in the header packet. -/
def headerSize (data : List Byte) : Result Nat := do
  let name ← readStr (data.drop PACKET_HEADER)
  let field ← takeSize FILE_SIZE_LENGTH (data.drop (PACKET_HEADER + name.length + 1))
  let file_size ← readStr (field ++ [nul])
  pure (if file_size.length > 0 then (BitVec.ofInt 32 (strtol file_size)).toNat else 0)

/-- The copy of the name to `getname`, after what was written there before. -/
def copyName (getname : Option Nat) (name : List Byte) (data : List Byte) : Result (List Byte) :=
  match getname with
  | none => .ok name
  | some room => do
    let s ← readStr (data.drop PACKET_HEADER)
    if name.length + s.length < room then .ok (name ++ s) else .error .outOfBounds

/-! ## The packets of a session -/

section Round

variable (room : List Byte → List Byte → Nat) (maxsize : Nat) (getname : Option Nat)

/-- One more error, which ends the session after the `limit`th with `ret` and is
    answered by `answer` before. -/
def countError (s : Receiver) (limit : Nat) (ret : Int) (answer : Proc Byte Unit)
    (next : Receiver → Receiver) : Proc Byte (Receiver ⊕ SessionEnd) := do
  let s := { s with errors := s.errors + 1 }
  if s.errors > limit then do
    send_CA
    return .inr (s.exit ret)
  else do
    answer
    return .inl (next s)

/-- `packets_received++`. -/
def Receiver.received (s : Receiver) : Receiver :=
  { s with packets_received := u32 (s.packets_received + 1) }

/-- First packet, filename packet. -/
def headerPacket (s : Receiver) : Proc Byte (Receiver ⊕ SessionEnd) :=
  if s.packet_data.getD PACKET_HEADER 0 ≠ 0 then
    -- Filename packet has valid data
    match copyName getname s.name s.packet_data, headerSize s.packet_data with
    | .ok name, .ok size =>
      let s := { s with errors := 0, name := name, size := size }
      -- Test the size of the file
      if size < 1 ∨ size > maxsize then do
        send_CA
        return .inr (s.exit (if size > maxsize then -9 else -4))
      else do
        send_ACKCRC16
        return .inl { s with file_len := 0 }.received
    | _, _ => .stop .undefined
  else
    -- Filename packet is empty, end session
    countError s 5 (-5) send_NAK Receiver.received

/-- Data packet: what is left of the file is written. -/
def dataPacket (s : Receiver) (packet_length : Nat) : Proc Byte (Receiver ⊕ SessionEnd) :=
  if s.file_len < s.size then
    let total := u32 (s.file_len + packet_length)
    let write_len := if total > s.size then packet_length - (total - s.size) else packet_length
    let file_len := if total > s.size then s.size else total
    let (file, written) := fwrite room s.file ((s.packet_data.drop PACKET_HEADER).take write_len)
    let s := { s with file := file, file_len := file_len }
    if written ≠ write_len then do
      -- End session
      send_CA
      return .inr (s.exit (-6))
    else do
      send_ACK
      return .inl { s with errors := 0 }.received
  else do
    send_ACK
    return .inl { s with errors := 0 }.received

/-- Normal packet. -/
def normalPacket (s : Receiver) (packet_length : Nat) : Proc Byte (Receiver ⊕ SessionEnd) :=
  if s.eof_cnt > 1 then do
    send_ACK
    return .inl s
  else if (s.packet_data.getD 1 0).toNat ≠ s.packets_received % 256 then
    countError s 5 (-3) send_NAK id
  else if s.packets_received = 0 then headerPacket maxsize getname s
  else dataPacket room s packet_length

/-- One round of the inner loop. -/
def sessionRound (s : Receiver) : Proc Byte (Receiver ⊕ SessionEnd) := do
  let (packet, data) ← Receive_Packet s.packet_data
  let s := { s with packet_data := data }
  match packet with
  | .senderAbort => do
    -- Abort by sender
    send_ACK
    return .inr (s.exit (-1))
  | .error => countError s 5 (-2) send_NAK id
  | .eot =>
    -- End of transmission
    if s.eof_cnt = INT_MAX then .stop .undefined
    else do
      let s := { s with eof_cnt := s.eof_cnt + 1 }
      if s.eof_cnt = 1 then send_NAK else send_ACKCRC16
      return .inl s
  | .packet packet_length => normalPacket room maxsize getname s packet_length
  | .userAbort => do
    send_CA
    return .inr (s.exit (-7))
  | .timeout =>
    -- the end of a session that has seen the end of its file
    if s.eof_cnt > 1 then return .inr (s.exit (toInt32 s.size))
    else countError s MAX_ERRORS (-8) send_CRC16 id

/-- The variables before the first packet. -/
def Receiver.start (packet_data : PacketData) : Receiver :=
  ⟨packet_data.bytes, 0, 0, 0, 0, 0, [], []⟩

/-- `Ymodem_Receive`. -/
def Ymodem_Receive (fuel : Nat) (packet_data : PacketData) : Proc Byte SessionEnd :=
  Proc.loop (sessionRound room maxsize getname) fuel (.start packet_data)

end Round

end LuaRtos.Ymodem
