/-
  LuaRtos.Ymodem.Transmit

  `Ymodem_Transmit`: the wait for a receiver, the header packet, the blocks of
  the file, the end of transmission and the last packet.
-/

import LuaRtos.Ymodem.Packet

namespace LuaRtos.Ymodem

open CLib Link

/-- What `Ymodem_WaitResponse` returns. -/
inductive Response where
  /-- 0 -/
  | timeout
  /-- 1: the answer waited for -/
  | ok
  /-- 2: CA received, which is answered -/
  | abort
  /-- 3: NAK received -/
  | nak
  /-- 4: any other answer -/
  | wrong
deriving DecidableEq, Repr

/-- `Ymodem_WaitResponse`, for at most `tmo` time-outs. -/
def Ymodem_WaitResponse (ackchr : Byte) : Nat → Proc Byte Response
  | 0 => return .timeout
  | tmo + 1 => do
    match ← Proc.get with
    | some receivedC =>
      if receivedC = ackchr then return .ok
      else if receivedC = CA then do
        -- CA received, Sender abort
        send_CA
        return .abort
      else if receivedC = NAK then return .nak
      else return .wrong
    | none => Ymodem_WaitResponse ackchr tmo

/-- The loops of `Ymodem_Transmit` that send some bytes until they are
    acknowledged, at most `fuel` times.  There is a value to return if not:
    `wrong` after a wrong answer or none, `abort` after an abort. -/
def sendUntilAck (packet : List Byte) (wrong abort : Int) : Nat → Proc Byte (Option Int)
  | 0 => .stop .spent
  | fuel + 1 => do
    Proc.puts packet
    -- Wait for Ack
    match ← Ymodem_WaitResponse ACK 10 with
    | .ok => return none
    | .nak => sendUntilAck packet wrong abort fuel
    | .abort => return some abort
    | .timeout | .wrong => do
      send_CA
      return some wrong

/-- A wait for the receiver's 'C', with the value to return if it does not come. -/
def waitC (wrong : Int) : Proc Byte (Option Int) := do
  match ← Ymodem_WaitResponse CRC16 10 with
  | .ok => return none
  | _ => do
    send_CA
    return some wrong

/-- The blocks of the file: the loop over `size`, from `blkNumber` on. -/
def sendBlocks (retries : Nat) : Nat → (blkNumber size : Nat) → InFile → Proc Byte (Option Int)
  | 0, _, _, _ => .stop .spent
  | fuel + 1, blkNumber, size, ffd =>
    if size = 0 then return none
    else do
      -- Prepare and send next packet
      let (packet, ffd) := Ymodem_PreparePacket (BitVec.ofNat 8 blkNumber) size ffd
      match ← sendUntilAck packet (-4) (-5) retries with
      | some ret => return some ret
      | none =>
        sendBlocks retries fuel ((blkNumber + 1) % 65536)
          (if size > PACKET_1K_SIZE then size - PACKET_1K_SIZE else 0) ffd

/-- `Ymodem_Transmit` after the header packet. -/
def transmitFile (fuel : Nat) (packet_data : List Byte) (sizeFile : Nat) (ffd : InFile) :
    Proc Byte Int := do
  -- After initial block the receiver sends 'C' after ACK
  match ← waitC (-3) with
  | some ret => return ret
  | none =>
    -- Send file blocks
    match ← sendBlocks fuel fuel 0x01 sizeFile ffd with
    | some ret => return ret
    | none =>
      -- Send EOT, again after each NAK
      match ← sendUntilAck [EOT] (-6) (-7) fuel with
      | some ret => return ret
      | none =>
        -- Receiver requests next file, prepare and send last packet
        match ← waitC (-8) with
        | some ret => return ret
        | none =>
          -- it does not depend on what the blocks have left in the buffer
          match Ymodem_PrepareLastPacket packet_data with
          | .error _ => .stop .undefined
          | .ok packet_data =>
            match ← sendUntilAck (packet_data.take (PACKET_SIZE + PACKET_OVERHEAD)) (-9) (-10)
              fuel with
            | some ret => return ret
            | none => return 0

/-- `Ymodem_Transmit` after it has accepted a receiver. -/
def transmitHeader (fuel : Nat) (packet_data : PacketData) (sendFileName : List Byte)
    (sizeFile : Nat) (ffd : InFile) : Proc Byte Int :=
  match Ymodem_PrepareIntialPacket packet_data.bytes sendFileName sizeFile with
  | .error _ => .stop .undefined
  | .ok data => do
    match ← sendUntilAck (data.take (PACKET_SIZE + PACKET_OVERHEAD)) (-2) 98 fuel with
    | some ret => return ret
    | none => transmitFile fuel data sizeFile ffd

/-- A round of the loop that waits for a receiver: the number of time-outs goes
    on in `err`, which is tested before it is counted up. -/
def waitReceiver (err : Nat) : Proc Byte (Nat ⊕ Nat × Option Byte) := do
  Proc.put CRC16
  match ← Proc.get with
  | some receivedC => return .inr (err, some receivedC)
  | none => if err < 45 then return .inl (err + 1) else return .inr (err + 1, none)

/-- `Ymodem_Transmit`.  The loop that waits for a receiver has at most 46 rounds. -/
def Ymodem_Transmit (fuel : Nat) (packet_data : PacketData) (sendFileName : List Byte)
    (sizeFile : Nat) (ffd : InFile) : Proc Byte Int := do
  let (err, receivedC) ← Proc.loop waitReceiver 46 0
  if err ≥ 45 ∨ receivedC ≠ some CRC16 then do
    send_CA
    return -1
  else transmitHeader fuel packet_data sendFileName sizeFile ffd

end LuaRtos.Ymodem
