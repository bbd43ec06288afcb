/-
  LuaRtos.Drivers.OneWire

  The search of drivers/owire.c for the devices on a 1-wire bus.

  The bus is the devices that answer: in a search each one that is still selected
  pulls the line low for a 0 of its own, so that the line is the AND of their bits,
  and drops out when the direction written is not its bit.  Pin levels and delays
  are left out, so a slot is a bit that is read or written.
-/

import LuaRtos.CLib.While

namespace LuaRtos.Driver

open LuaRtos.CLib

/-- `ROM_NO`, 8 bytes. -/
abbrev Rom := Vector Byte 8

/-- Bit `i` of a ROM code, the least significant bit of a byte first. -/
def Rom.bit (rom : Rom) (i : Nat) : Bool := (rom[i / 8]?.getD 0).getLsbD (i % 8)

theorem Rom.size_pos : 0 < 8 := by decide

/-- `ROM_NO[0]`, the family code. -/
def Rom.family (rom : Rom) : Byte := rom.get ⟨0, Rom.size_pos⟩

/-! ## The bus -/

/-- What the devices wait for after a reset. -/
inductive BusPhase where
  | idle
  /-- The bits of a command, of which some were written. -/
  | command (bits : List Bool)
  /-- Bit `i` is read of the selected devices, then its complement, then the direction written. -/
  | bit (i : Nat) (selected : List Rom)
  | complement (i : Nat) (selected : List Rom)
  | direction (i : Nat) (selected : List Rom)
deriving DecidableEq, Repr

/-- The devices on the bus. -/
structure Bus where
  roms : List Rom
  phase : BusPhase
deriving DecidableEq, Repr

/-- ONEWIRE_CMD_SEARCHROM. -/
def onewireCmdSearchrom : Byte := 0xF0

/-- The bits of a byte, the least significant first. -/
def byteBits (byte : Byte) : List Bool := (List.range 8).map byte.getLsbD

/-- `TM_OneWire_Reset`: true where no device answers. -/
def Bus.reset (bus : Bus) : Bool × Bus := (bus.roms.isEmpty, { bus with phase := .command [] })

/-- `TM_OneWire_ReadBit`. -/
def Bus.readBit (bus : Bus) : Bool × Bus :=
  match bus.phase with
  | .bit i selected =>
    (selected.all fun rom => rom.bit i, { bus with phase := .complement i selected })
  | .complement i selected =>
    (selected.all fun rom => !rom.bit i, { bus with phase := .direction i selected })
  | _ => (true, bus)

/-- `TM_OneWire_WriteBit`. -/
def Bus.writeBit (bus : Bus) (bit : Bool) : Bus :=
  match bus.phase with
  | .command bits =>
    let bits := bits ++ [bit]
    if bits.length < 8 then { bus with phase := .command bits }
    else if bits = byteBits onewireCmdSearchrom then { bus with phase := .bit 0 bus.roms }
    else { bus with phase := .idle }
  | .direction i selected =>
    if i + 1 < 64 then
      { bus with phase := .bit (i + 1) (selected.filter fun rom => rom.bit i = bit) }
    else { bus with phase := .idle }
  | _ => bus

/-- `TM_OneWire_WriteByte`, with the counter of its loop. -/
def Bus.writeByte (bus : Bus) (byte : Byte) : Nat → Bus
  | 0 => bus
  | i + 1 => (bus.writeBit (byte.getLsbD 0)).writeByte (byte >>> 1) i

/-! ## The search -/

/-- `TM_One_Wire_t`, without the pin. -/
structure OneWire where
  lastDiscrepancy : Nat
  lastFamilyDiscrepancy : Nat
  lastDeviceFlag : Bool
  romNo : Rom
deriving DecidableEq, Repr

/-- `TM_OneWire_ResetSearch`, and what a search does that finds nothing. -/
def OneWire.resetSearch (device : OneWire) : OneWire :=
  { device with lastDiscrepancy := 0, lastDeviceFlag := false, lastFamilyDiscrepancy := 0 }

/-- The variables of `TM_OneWire_Search` in its loop; `stopped` says that it was left by
    `break`. -/
structure OneWireSearch where
  idBitNumber : Nat
  lastZero : Nat
  romByteNumber : Nat
  romByteMask : Byte
  stopped : Bool
  device : OneWire
  bus : Bus
deriving DecidableEq, Repr

/-- A place of an array. -/
def index {n : Nat} (i : Nat) : Result (Fin n) :=
  if h : i < n then pure ⟨i, h⟩ else throw .outOfBounds

/-- The direction at a discrepancy. -/
def OneWireSearch.direction (st : OneWireSearch) (i : Fin 8) : Bool :=
  if st.idBitNumber < st.device.lastDiscrepancy then
    decide (st.device.romNo[i] &&& st.romByteMask ≠ 0)
  else decide (st.idBitNumber = st.device.lastDiscrepancy)

/-- The record of a discrepancy at which 0 was picked. -/
def OneWireSearch.record (st : OneWireSearch) : OneWireSearch :=
  if st.idBitNumber < 9 then
    { st with
      lastZero := st.idBitNumber
      device := { st.device with lastFamilyDiscrepancy := st.idBitNumber } }
  else { st with lastZero := st.idBitNumber }

/-- Set or clear the bit in the ROM byte, and write it. -/
def OneWireSearch.advance (st : OneWireSearch) (i : Fin 8) (direction : Bool) : OneWireSearch :=
  let byte := st.device.romNo[i]
  let byte := if direction then byte ||| st.romByteMask else byte &&& ~~~st.romByteMask
  let mask := st.romByteMask <<< 1
  { st with
    device := { st.device with romNo := st.device.romNo.set i byte }
    bus := st.bus.writeBit direction
    idBitNumber := st.idBitNumber + 1
    romByteNumber := if mask = 0 then st.romByteNumber + 1 else st.romByteNumber
    romByteMask := if mask = 0 then 1 else mask }

/-- One round of the loop of `TM_OneWire_Search`. -/
def searchRound (st : OneWireSearch) : Result OneWireSearch := do
  -- read a bit and its complement
  let (idBit, bus) := st.bus.readBit
  let (cmpIdBit, bus) := bus.readBit
  let st := { st with bus := bus }
  -- check for no devices on 1-wire
  if idBit = true ∧ cmpIdBit = true then pure { st with stopped := true }
  else do
    let i : Fin 8 ← index st.romByteNumber
    -- all devices coupled have 0 or 1
    if idBit ≠ cmpIdBit then pure (st.advance i idBit)
    else
      let direction := st.direction i
      let st := if direction then st else st.record
      pure (st.advance i direction)

/-- The condition of the loop, which holds at its first round too. -/
def searchCond (st : OneWireSearch) : Bool := !st.stopped && st.romByteNumber < 8

/-- The end of `TM_OneWire_Search`. -/
def searchEnd (searchResult : Bool) (device : OneWire) (bus : Bus) : Bool × OneWire × Bus :=
  if searchResult = false ∨ device.romNo.family = 0 then (false, device.resetSearch, bus)
  else (true, device, bus)

/-- `TM_OneWire_Search`. -/
def oneWireSearch (device : OneWire) (bus : Bus) (command : Byte) :
    Result (Bool × OneWire × Bus) :=
  -- if the last call was not the last one
  if device.lastDeviceFlag then pure (searchEnd false device bus)
  else
    let (bit, bus) := bus.reset
    if bit then pure (false, device.resetSearch, bus)
    else do
      -- a round for each bit, and one to see the end
      let st ← whileLoop searchCond searchRound 65
        ⟨1, 0, 0, 1, false, device, bus.writeByte command 8⟩
      if ¬ st.idBitNumber < 65 then
        let device := { st.device with lastDiscrepancy := st.lastZero }
        let device := if st.lastZero = 0 then { device with lastDeviceFlag := true } else device
        pure (searchEnd true device st.bus)
      else pure (searchEnd false st.device st.bus)

/-- `TM_OneWire_First`. -/
def oneWireFirst (device : OneWire) (bus : Bus) : Result (Bool × OneWire × Bus) :=
  oneWireSearch device.resetSearch bus onewireCmdSearchrom

/-- `TM_OneWire_Next`. -/
def oneWireNext (device : OneWire) (bus : Bus) : Result (Bool × OneWire × Bus) :=
  oneWireSearch device bus onewireCmdSearchrom

/-- MAX_ONEWIRE_SENSORS. -/
def maxOnewireSensors : Nat := 8

/-- `TM_One_Wire_Devices_t`. -/
structure OneWireDevices where
  device : OneWire
  numdev : Nat
  roms : Vector Rom 8
deriving DecidableEq, Repr

/-- The variables of `TM_OneWire_Dosearch`; `stopped` says that the loop was left by `break`. -/
structure DoSearch where
  owdev : Bool
  count : Nat
  stopped : Bool
  devices : OneWireDevices
  bus : Bus
deriving DecidableEq, Repr

/-- One round of the loop of `TM_OneWire_Dosearch`. -/
def dosearchRound (st : DoSearch) : Result DoSearch := do
  -- Increase device counter
  let count := st.count + 1
  -- Get full ROM value
  let i : Fin 8 ← index (count - 1)
  let devices := { st.devices with roms := st.devices.roms.set i st.devices.device.romNo }
  -- Get next device
  let (owdev, device, bus) ← oneWireNext devices.device st.bus
  pure ⟨owdev, count, decide (maxOnewireSensors ≤ count), { devices with device := device }, bus⟩

def dosearchCond (st : DoSearch) : Bool := !st.stopped && st.owdev

/-- `TM_OneWire_Dosearch`: the number of devices, and what is left of them in `ow_devices`. -/
def oneWireDosearch (devices : OneWireDevices) (bus : Bus) :
    Result (Nat × OneWireDevices × Bus) := do
  let (owdev, device, bus) ← oneWireFirst devices.device bus
  let st ← whileLoop dosearchCond dosearchRound (maxOnewireSensors + 1)
    ⟨owdev, 0, false, { devices with device := device }, bus⟩
  pure (st.count, { st.devices with numdev := st.count }, st.bus)

end LuaRtos.Driver
