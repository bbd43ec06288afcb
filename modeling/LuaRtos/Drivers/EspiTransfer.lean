/-
  LuaRtos.Drivers.EspiTransfer

  `spi_transfer_data` of drivers/espi.c: bytes are packed in the words of the
  data buffer of the controller and go out 64 at a time.

  The controller with the device behind it is a parameter, which answers to the
  registers at the start of a transfer.  `doutdin` is the mode of the device, as
  `spi_device_select` sets it.  The DC pin of displays is left out.
-/

import LuaRtos.CLib.While
import Mathlib.Logic.Function.Basic

namespace LuaRtos.Espi

open CLib

/-- The registers that a transfer depends on. -/
structure Regs where
  usr_mosi : Bool
  usr_miso : Bool
  doutdin : Bool
  usr_mosi_dbitlen : BitVec 24
  usr_miso_dbitlen : BitVec 24
  data_buf : Fin 16 → BitVec 32

/-- The bits that go out and come in between the start of a transfer and its end. -/
structure Transfer where
  sent : List Bool
  received : List Bool
deriving DecidableEq, Repr

/-- The controller and the device: what becomes of a start, after the transfers so
    far, and what is in the data buffer then. -/
def Controller : Type := List Transfer → Regs → Transfer × (Fin 16 → BitVec 32)

/-- The byte at bit `bc` of a word. -/
def byteAt (wd : BitVec 32) (bc : Nat) : Byte := ((wd >>> bc) &&& 0xFF).setWidth 8

/-! ## Registers -/

/-- `bits - 1` in a bit length. -/
def dbitlen (bits : Nat) : BitVec 24 := (BitVec.ofNat 32 bits - 1).setWidth 24

/-- The bits to read in one transfer. -/
def readBits (rdcount : Nat) : Nat := if rdcount ≤ 64 then rdcount * 8 else 64 * 8

/-- The state of the transfers; `indata` is the input buffer, if there is one. -/
structure Xfer where
  regs : Regs
  trace : List Transfer
  indata : Option (List Byte)
  rdcount : Nat
  rd_read : Nat

/-- `cmd.usr = 1`, and the wait for the end of the transfer. -/
def Xfer.start (hw : Controller) (x : Xfer) : Xfer :=
  let (t, buf) := hw x.trace x.regs
  { x with trace := x.trace ++ [t], regs := { x.regs with data_buf := buf } }

/-! ## Reading -/

/-- `indata[rd_read++] = b; rdcount--`. -/
def Xfer.put (x : Xfer) (b : Byte) : Result Xfer :=
  match x.indata with
  | none => throw .nullDeref
  | some block => do
    let block ← store block x.rd_read b
    pure { x with indata := some block, rd_read := x.rd_read + 1, rdcount := x.rdcount - 1 }

/-- The loop over the bytes of a word, with the rounds that are left. -/
def readWord (wd : BitVec 32) : Nat → Nat → Xfer × Nat → Result (Xfer × Nat)
  | 0, _, p => pure p
  | k + 1, bc, (x, rdbits) => do
    let x ← x.put (byteAt wd bc)
    let rdbits := rdbits - 8
    if x.rdcount = 0 then pure (x, rdbits) else readWord wd k (bc + 8) (x, rdbits)

/-- A round of the loop over the words of the data buffer. -/
def readRound (p : Xfer × Nat × Nat) : Result (Xfer × Nat × Nat) := do
  let (x, rdbits, rdidx) := p
  if h : rdidx < 16 then do
    let (x, rdbits) ← readWord (x.regs.data_buf ⟨rdidx, h⟩) 4 0 (x, rdbits)
    pure (x, rdbits, rdidx + 1)
  else throw .outOfBounds

def readGoes (p : Xfer × Nat × Nat) : Bool := decide (0 < p.2.1)

/-- The transfer of received data to the input buffer. -/
def readBuf (rdbits : Nat) (x : Xfer) : Result Xfer := do
  let (x, _) ← whileLoop readGoes readRound (rdbits + 1) (x, rdbits, 0)
  pure x

/-! ## Writing -/

/-- A transfer of what is in the data buffer. -/
def exchange (hw : Controller) (duplex : Bool) (bits : Nat) (x : Xfer) : Result Xfer :=
  let regs := { x.regs with usr_mosi_dbitlen := dbitlen bits }
  if duplex then
    let rdbits := readBits x.rdcount
    let x := { x with regs := { regs with usr_mosi_dbitlen := dbitlen rdbits } }
    -- in duplex mode transfer received data to input buffer
    readBuf rdbits (x.start hw)
  else
    let x := { x with regs := { regs with usr_miso_dbitlen := 0 } }
    pure (x.start hw)

/-- What the loop over the bytes to write works on. -/
structure Send where
  x : Xfer
  count : Nat
  idx : Nat
  bits : Nat

/-- The loop that packs a word, with the rounds that are left. -/
def packWord (data : List Byte) (wrlen : Nat) :
    Nat → Nat → BitVec 32 × Nat × Nat → Result (BitVec 32 × Nat × Nat)
  | 0, _, p => pure p
  | k + 1, bc, (wd, count, bits) => do
    let b ← load data count
    let p := (wd ||| b.setWidth 32 <<< bc, count + 1, bits + 8)
    if count + 1 = wrlen then pure p else packWord data wrlen k (bc + 8) p

/-- A round of the loop over the bytes to write. -/
def sendRound (hw : Controller) (duplex : Bool) (data : List Byte) (wrlen : Nat) (s : Send) :
    Result Send := do
  let (wd, count, bits) ← packWord data wrlen 4 0 (0, s.count, s.bits)
  if h : s.idx < 16 then do
    let x := { s.x with regs :=
      { s.x.regs with data_buf := Function.update s.x.regs.data_buf ⟨s.idx, h⟩ wd } }
    if s.idx + 1 = 16 then do
      -- SPI buffer full, transfer data
      let x ← exchange hw duplex bits x
      pure ⟨x, count, 0, 0⟩
    else pure ⟨x, count, s.idx + 1, bits⟩
  else throw .outOfBounds

def sendGoes (wrlen : Nat) (s : Send) : Bool := decide (s.count < wrlen)

/-- The write part of `spi_transfer_data`. -/
def sendAll (hw : Controller) (duplex : Bool) (data : List Byte) (wrlen : Nat) (x : Xfer) :
    Result Xfer := do
  let s ← whileLoop (sendGoes wrlen) (sendRound hw duplex data wrlen) (wrlen + 1) ⟨x, 0, 0, 0⟩
  -- more data waits for transfer
  if 0 < s.bits then exchange hw duplex s.bits s.x else pure s.x

/-- A round of the loop that reads after the sending. -/
def receiveRound (hw : Controller) (x : Xfer) : Result Xfer :=
  let rdbits := readBits x.rdcount
  let x := { x with regs :=
    { x.regs with usr_mosi_dbitlen := 0, usr_miso_dbitlen := dbitlen rdbits } }
  readBuf rdbits (x.start hw)

def receiveGoes (x : Xfer) : Bool := decide (0 < x.rdcount)

/-- `spi_transfer_data`, from the registers as they are; `none` is a null pointer. -/
def spiTransferData (hw : Controller) (duplex : Bool) (regs : Regs)
    (data indata : Option (List Byte)) (wrlen rdlen : Nat) : Result Xfer := do
  let usr_mosi := data.isSome && decide (0 < wrlen)
  let usr_miso := duplex || (indata.isSome && decide (0 < rdlen))
  let regs := { regs with usr_mosi := usr_mosi, usr_miso := usr_miso, doutdin := duplex }
  let x : Xfer := ⟨regs, [], indata, rdlen, 0⟩
  let x ← if usr_mosi then sendAll hw duplex (data.getD []) wrlen x else pure x
  if indata.isNone || duplex then pure x
  else whileLoop receiveGoes (receiveRound hw) (rdlen + 1) x

/-! ## The controller -/

/-- The bytes in the data buffer, in the order in which they go out. -/
def bufBytes (buf : Fin 16 → BitVec 32) : List Byte :=
  List.ofFn (n := 64) fun i => byteAt (buf ⟨i / 4, by omega⟩) (i % 4 * 8)

/-- The bits of bytes in the order on the wire, each byte from its high bit on. -/
def wire (bs : List Byte) : List Bool := bs.flatMap fun b => (List.range 8).map b.getMsbD

/-- What is documented of a transfer.  The bits of the data buffer go out in the write
    phase, as many as its bit length and one, which is specified up to the size of the
    buffer.  With `doutdin` they come in at the same time, else in a read phase with a
    bit length of its own.  They are in the data buffer afterwards. -/
structure Documented (hw : Controller) : Prop where
  no_write : ∀ past r, r.usr_mosi = false → (hw past r).1.sent = []
  write_length : ∀ past r, r.usr_mosi = true →
    (hw past r).1.sent.length = r.usr_mosi_dbitlen.toNat + 1
  write : ∀ past r, r.usr_mosi = true → r.usr_mosi_dbitlen.toNat < 512 →
    (hw past r).1.sent = (wire (bufBytes r.data_buf)).take (r.usr_mosi_dbitlen.toNat + 1)
  no_read : ∀ past r, r.usr_miso = false → (hw past r).1.received = []
  duplex_length : ∀ past r, r.usr_mosi = true → r.usr_miso = true → r.doutdin = true →
    (hw past r).1.received.length = (hw past r).1.sent.length
  read_length : ∀ past r, r.usr_miso = true → r.doutdin = false →
    (hw past r).1.received.length = r.usr_miso_dbitlen.toNat + 1
  read : ∀ past r, (hw past r).1.received.length ≤ 512 →
    (hw past r).1.received <+: wire (bufBytes (hw past r).2)

end LuaRtos.Espi
