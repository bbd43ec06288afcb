/-
  LuaRtos.Ymodem.Packet

  The packets of ymodem.c: how the sender builds them, how `Receive_Packet`
  reads one, and the bytes that answer it.
-/

import LuaRtos.CLib.File
import LuaRtos.CLib.Mem
import LuaRtos.CLib.Number
import LuaRtos.Link.Proc
import LuaRtos.Ymodem.Crc

namespace LuaRtos.Ymodem

open CLib Link

/-! ## ymodem.h -/

def PACKET_HEADER : Nat := 3
def PACKET_TRAILER : Nat := 2
def PACKET_OVERHEAD : Nat := PACKET_HEADER + PACKET_TRAILER
def PACKET_SIZE : Nat := 128
def PACKET_1K_SIZE : Nat := 1024
def FILE_SIZE_LENGTH : Nat := 16

/-- Start of 128-byte data packet. -/
def SOH : Byte := 0x01
/-- Start of 1024-byte data packet. -/
def STX : Byte := 0x02
/-- End of transmission. -/
def EOT : Byte := 0x04
/-- Acknowledge. -/
def ACK : Byte := 0x06
/-- Negative acknowledge. -/
def NAK : Byte := 0x15
/-- Two of these in succession abort the transfer. -/
def CA : Byte := 0x18
/-- 'C', request of a 16-bit CRC. -/
def CRC16 : Byte := 0x43
/-- 'A', abort by user. -/
def ABORT1 : Byte := 0x41
/-- 'a', abort by user. -/
def ABORT2 : Byte := 0x61

def MAX_ERRORS : Nat := 45

/-- The stack buffer for one packet, `packet_data`. -/
abbrev PacketData := Block 1029

/-! ## Sending -/

def send_CA : Proc Byte Unit := Proc.puts [CA, CA]
def send_ACK : Proc Byte Unit := Proc.put ACK
def send_ACKCRC16 : Proc Byte Unit := Proc.puts [ACK, CRC16]
def send_NAK : Proc Byte Unit := Proc.put NAK
def send_CRC16 : Proc Byte Unit := Proc.put CRC16

/-- The check of the `n` bytes after the header of a packet, written after them. -/
def addCrc (data : List Byte) (n : Nat) : Result (List Byte) :=
  storeBytes data (PACKET_HEADER + n) (crcBytes (crc16 ((data.drop PACKET_HEADER).take n)))

/-- `memset` to zero and the first three bytes of a packet of 128 bytes. -/
def startPacket (data : List Byte) : Result (List Byte) := do
  let data ← storeBytes data 0 (List.replicate (PACKET_SIZE + PACKET_HEADER) 0)
  storeBytes data 0 [SOH, 0x00, 0xff]

/-- `Ymodem_PrepareIntialPacket`. -/
def Ymodem_PrepareIntialPacket (data fileName : List Byte) (length : Nat) :
    Result (List Byte) := do
  let data ← startPacket data
  -- add filename
  let name ← readStr fileName
  let data ← storeBytes data PACKET_HEADER (name ++ [nul])
  -- add file size
  let n ← strlen (data.drop PACKET_HEADER)
  let data ← storeBytes data (PACKET_HEADER + n + 1) (formatD (toInt32 length) ++ [nul])
  let n ← strlen (data.drop PACKET_HEADER)
  let m ← strlen (data.drop (PACKET_HEADER + n + 1))
  let data ← storeBytes data (PACKET_HEADER + n + 1 + m) [0x20]
  -- add crc
  addCrc data PACKET_SIZE

/-- `Ymodem_PrepareLastPacket`. -/
def Ymodem_PrepareLastPacket (data : List Byte) : Result (List Byte) := do
  let data ← startPacket data
  addCrc data PACKET_SIZE

/-- `Ymodem_PreparePacket`, which fills the whole buffer. -/
def Ymodem_PreparePacket (pktNo : Byte) (sizeBlk : Nat) (ffd : InFile) :
    List Byte × InFile :=
  let size := if sizeBlk < PACKET_1K_SIZE then sizeBlk else PACKET_1K_SIZE
  -- Read block from file
  let (block, ffd) := if size > 0 then fread ffd size else ([], ffd)
  let block := block ++ List.replicate (PACKET_1K_SIZE - block.length) 0x00
  (STX :: pktNo :: ~~~pktNo :: (block ++ crcBytes (crc16 block)), ffd)

/-! ## Receiving -/

/-- What `Receive_Packet` returns, with `*length` where it returns 0. -/
inductive Packet where
  /-- -1: nothing that starts a packet, or not all of it -/
  | timeout
  /-- -2: abort by user -/
  | userAbort
  /-- 0 and -1: abort by sender -/
  | senderAbort
  /-- 0 and -2: error or crc error -/
  | error
  /-- 0 and 0: end of transmission -/
  | eot
  /-- 0 and the packet length -/
  | packet (length : Nat)
deriving DecidableEq, Repr

/-- The two tests of a packet of `packet_size` bytes that was read in full. -/
def checkPacket (data : List Byte) (packet_size : Nat) : Packet :=
  if data.getD 1 0 ≠ data.getD 2 0 ^^^ 0xff then .error
  else if crc16 ((data.drop PACKET_HEADER).take (packet_size + PACKET_TRAILER)) ≠ 0 then .error
  else .packet packet_size

/-- A packet of `packet_size` bytes after its first byte. -/
def receiveBody (data : List Byte) (ch : Byte) (packet_size : Nat) :
    Proc Byte (Packet × List Byte) := do
  let (data, complete) ← Proc.fill (data.set 0 ch) 1 (packet_size + PACKET_OVERHEAD - 1)
  if complete then return (checkPacket data packet_size, data)
  else return (.timeout, data)

/-- `Receive_Packet` after the attempt to receive the first byte. -/
def receiveFirst (data : List Byte) : Option Byte → Proc Byte (Packet × List Byte)
  | none => return (.timeout, data)
  | some ch =>
    if ch = SOH then receiveBody data ch PACKET_SIZE
    else if ch = STX then receiveBody data ch PACKET_1K_SIZE
    else if ch = EOT then return (.eot, data)
    else if ch = CA then do
      match ← Proc.get with
      | none => return (.userAbort, data)
      | some ch => return (if ch = CA then .senderAbort else .timeout, data)
    else if ch = ABORT1 ∨ ch = ABORT2 then return (.userAbort, data)
    else do
      -- delay(100)
      Proc.consume
      return (.timeout, data)

/-- `Receive_Packet`: its result, and the buffer after it. -/
def Receive_Packet (data : List Byte) : Proc Byte (Packet × List Byte) := do
  receiveFirst data (← Proc.get)

end LuaRtos.Ymodem
