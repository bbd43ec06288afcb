/-
  LuaRtos.Drivers.EspiDevices

  The tables of drivers/espi.c over sequences of `espi_init` and `espi_deinit`.

  A slot is reserved with a dummy pointer before the last check and the allocation
  of the device, and stays so where one of them fails; a host that `espi_init` has
  initialized stays where the device cannot be added; and `espi_deinit` passes the
  address of the caller's handle for the handle.  Where none of this happens every
  slot that is not empty has a device, and a failed `espi_init` changes no table.
-/

import LuaRtos.Drivers.EspiBus
import LuaRtos.Lts.Run
import Mathlib.Data.Fintype.Card

namespace LuaRtos.SpiBus

open CLib Rtos

/-! ## Adding and removing a device -/

/-- What a call finds: whether each allocation succeeds, and whether the pins of the
    bus and the device can be locked.  `device` is the address that `malloc` gives. -/
structure Resources where
  host : HostAlloc
  below : Slot
  device : Option Nat
  trans_queue : Bool
  ret_queue : Bool
  granted : Bool
deriving DecidableEq, Repr

/-- The checks of a device before a slot is reserved. -/
def DeviceConfig.checked (gpio : Gpio) (cfg : DeviceConfig) : Bool :=
  (if 0 ≤ cfg.spics_io_num then gpio.output cfg.spics_io_num
    else decide (0 < cfg.spics_ext_io_num) && gpio.output cfg.spics_ext_io_num) &&
  (decide (cfg.spidc_io_num < 1) || gpio.output cfg.spidc_io_num) &&
  decide (0 < cfg.clock_speed_hz)

/-- The check after it. -/
def DeviceConfig.pretransOk (cfg : DeviceConfig) : Bool :=
  decide (cfg.cs_ena_pretrans = 0) || cfg.flags.getLsbD halfduplex

def DeviceConfig.maxdev (cfg : DeviceConfig) : Nat :=
  if 0 < cfg.spics_io_num then NO_CS else NO_DEV

/-- The configuration as it is copied into the device. -/
def DeviceConfig.adjusted (cfg : DeviceConfig) : DeviceConfig :=
  { cfg with
    spics_ext_io_num :=
      if 0 ≤ cfg.spics_io_num ∧ 0 < cfg.spics_ext_io_num then -1 else cfg.spics_ext_io_num
    duty_cycle_pos := if cfg.duty_cycle_pos = 0 then 128 else cfg.duty_cycle_pos }

/-- The first empty slot below `maxdev`. -/
def Host.freecs (h : Host) (maxdev : Nat) : Option (Fin NO_DEV) :=
  (List.finRange NO_DEV).find? fun i => decide (i.val < maxdev ∧ h.device i = .null)

def Host.setSlot (h : Host) (i : Fin NO_DEV) (slot : Slot) : Host :=
  { h with device := Function.update h.device i slot }

/-- The device that is attached. -/
def newDevice (env : Resources) (b : Nat) (cfg : DeviceConfig) (bus_config : BusConfig) :
    Device where
  trans_queue := if env.trans_queue then some 0 else none
  ret_queue := if env.ret_queue then some 0 else none
  cfg := cfg.adjusted
  host := b
  bus_config := bus_config

/-- The pins of a new device. -/
def Spi.setPins (s : Spi) (cfg : DeviceConfig) : Spi :=
  let s := if 0 < cfg.spics_io_num then s else s.setLevel cfg.spics_ext_io_num true
  if 0 < cfg.spidc_io_num then s.setLevel cfg.spidc_io_num true else s

/-- `spi_bus_add_device`, with the handle.  The polarity of the chip select is left
    out. -/
def spiBusAddDevice (gpio : Gpio) (env : Resources) (s : Spi) (b : Nat) (cfg : DeviceConfig)
    (bus_config : BusConfig) : Result (EspErr × Option Nat × Spi) :=
  if 2 < b then pure (.invalidArg, none, s)
  else
    match s.spihost b with
    | none => pure (.invalidState, none, s)
    | some h =>
      if ¬ cfg.checked gpio then pure (.invalidArg, none, s)
      else
        match h.freecs cfg.maxdev with
        | none => pure (.notFound, none, s)
        | some i =>
          if ¬ cfg.pretransOk then pure (.invalidArg, none, s.setHost b (h.setSlot i .dummy))
          else
            match env.device with
            | none => pure (.noMem, none, s.setHost b (h.setSlot i .dummy))
            | some p =>
              -- the polarity is written to `host->hw`
              if ¬ h.hw then throw .nullDeref
              else
                let d := newDevice env b cfg bus_config
                let s := (s.setHost b (h.setSlot i (.device p))).setDevice p d
                pure (.ok, some p, s.setPins d.cfg)

/-- The slots of a device emptied. -/
def Host.clear (h : Host) (p : Nat) : Host :=
  { h with device := fun i => if h.device i = .device p then .null else h.device i }

/-- `spi_bus_remove_device`. -/
def spiBusRemoveDevice (s : Spi) (p : Nat) : Result (EspErr × Spi) := do
  let d ← s.read p
  if (← uxQueueMessagesWaiting d.trans_queue) ≠ 0 then pure (.invalidState, s)
  else do
    let h ← s.host d.host
    if h.cur_trans ∧ h.current = .device p then pure (.invalidState, s)
    else if (← uxQueueMessagesWaiting d.ret_queue) ≠ 0 then pure (.invalidState, s)
    else
      let s := s.setHost d.host (h.clear p)
      pure (.ok, { s with devices := Function.update s.devices p none })

/-! ## The calls -/

/-- The errors of `espi_init` and `espi_deinit`. -/
inductive EspiError where
  | cantInit | lock | cantDeinitDevice | cantDeinitBus
deriving DecidableEq, Repr

/-- `espi_init`, with what is written to `*handle`. -/
def espiInit (gpio : Gpio) (env : Resources) (s : Spi) (b : Nat) (cfg : DeviceConfig)
    (bus_config : BusConfig) : Result (Option EspiError × Option Nat × Spi) := do
  let (err, s) :=
    if (s.spihost b).isNone then spiBusInitialize gpio env.host env.below s b bus_config 1
    else (.ok, s)
  if err ≠ .ok then pure (some .cantInit, none, s)
  else do
    let (_, hndl, s) ← spiBusAddDevice gpio env s b cfg bus_config
    match hndl with
    | none => pure (some .cantInit, none, s)
    | some p =>
      -- lock resources used by spi bus&device
      if env.granted then pure (none, some p, s)
      else do
        let (_, s) ← spiBusRemoveDevice s p
        pure (some .lock, none, s)

/-- `espi_deinit`, where `handle` is the address of the caller's variable. -/
def espiDeinit (s : Spi) (b handle : Nat) : Result (Option EspiError × Spi) :=
  if (s.spihost b).isNone then pure (none, s)
  else do
    let (err, s) ← spiBusRemoveDevice s handle
    if err ≠ .ok then pure (some .cantDeinitDevice, s)
    else do
      let (err, s) ← spiBusFree s b true
      if err ≠ .ok then pure (some .cantDeinitBus, s)
      else pure (none, s)

/-- A call, with what it finds. -/
inductive Attach where
  | init (b : Nat) (cfg : DeviceConfig) (bus_config : BusConfig) (env : Resources)
  | deinit (b handle : Nat)
deriving DecidableEq

/-- `malloc` gives memory where no device is, and the variable of the caller is no
    device. -/
def Attach.Fresh (s : Spi) : Attach → Prop
  | init _ _ _ env => ∀ p ∈ env.device, s.devices p = none
  | deinit _ handle => s.devices handle = none

/-- The state after a call. -/
def attachStep (gpio : Gpio) (s : Spi) : Attach → Option Spi
  | .init b cfg bus_config env =>
    if ∀ p ∈ env.device, (s.devices p).isNone then
      (espiInit gpio env s b cfg bus_config).toOption.map fun r => r.2.2
    else none
  | .deinit b handle =>
    if (s.devices handle).isNone then (espiDeinit s b handle).toOption.map Prod.snd else none

/-- The sequences of calls. -/
def attachments (gpio : Gpio) (s : Spi) : Lts Spi Attach := .ofStep s (attachStep gpio)

/-- No host is in use, and there is no device. -/
structure Boot (s : Spi) : Prop where
  host : ∀ b, b ≤ 2 → s.spihost b = none
  device : ∀ p, s.devices p = none

/-! ## The tables -/

/-- A slot has a device with a chip select that the controller drives. -/
def Spi.driven (s : Spi) (h : Host) (i : Fin NO_DEV) : Bool :=
  match h.device i with
  | .device p => (s.devices p).any fun d => decide (0 < d.cfg.spics_io_num)
  | _ => false

/-- Every slot that is not empty points to a device that is allocated and attached to
    the host, each to its own, and there are no more than allowed. -/
structure Sound (s : Spi) : Prop where
  live : ∀ b h i, b ≤ 2 → s.spihost b = some h → h.device i ≠ .null →
    ∃ p d, h.device i = .device p ∧ s.devices p = some d ∧ d.host = b
  once : ∀ b h i j p, b ≤ 2 → s.spihost b = some h → h.device i = .device p →
    h.device j = .device p → i = j
  attached : ∀ b h, b ≤ 2 → s.spihost b = some h →
    (Finset.univ.filter fun i => h.device i ≠ .null).card ≤ NO_DEV
  driven : ∀ b h, b ≤ 2 → s.spihost b = some h →
    (Finset.univ.filter fun i => s.driven h i = true).card ≤ NO_CS

/-- What a call is to do: it returns, the tables are sound afterwards, and an
    `espi_init` that fails leaves them as they were. -/
def Proper (gpio : Gpio) (s : Spi) : Attach → Prop
  | .init b cfg bus_config env => ∃ err hndl s',
      espiInit gpio env s b cfg bus_config = .ok (err, hndl, s') ∧ Sound s' ∧
        (err ≠ none → s'.spihost = s.spihost ∧ s'.devices = s.devices)
  | .deinit b handle => ∃ err s', espiDeinit s b handle = .ok (err, s') ∧ Sound s'

/-- Where a slot is reserved, the check after that passes and there is memory for the
    device, and for its queues if the pins are refused. -/
def AddsOk (gpio : Gpio) (b : Nat) (h : Host) (cfg : DeviceConfig) (env : Resources) : Prop :=
  b ≤ 2 ∧ cfg.checked gpio = true ∧ (h.freecs cfg.maxdev).isSome = true →
    cfg.pretransOk = true ∧ env.device.isSome = true ∧
      (env.granted = true ∨ env.trans_queue = true ∧ env.ret_queue = true)

/-- Where a host gets memory, it gets a mutex, and the device is added. -/
def StartsOk (gpio : Gpio) (b : Nat) (cfg : DeviceConfig) (bus_config : BusConfig)
    (env : Resources) : Prop :=
  (b = 1 ∨ b = 2) ∧ bus_config.valid gpio = true ∧ env.host.host = true →
    env.host.mutex = true ∧ cfg.checked gpio = true ∧ cfg.pretransOk = true ∧
      env.device.isSome = true ∧ env.granted = true

instance (gpio : Gpio) (b : Nat) (h : Host) (cfg : DeviceConfig) (env : Resources) :
    Decidable (AddsOk gpio b h cfg env) :=
  inferInstanceAs (Decidable (_ → _))

instance (gpio : Gpio) (b : Nat) (cfg : DeviceConfig) (bus_config : BusConfig)
    (env : Resources) : Decidable (StartsOk gpio b cfg bus_config env) :=
  inferInstanceAs (Decidable (_ → _))

/-- An `espi_init` on a host in use, or on one that is not, and an `espi_deinit` on one
    that is not. -/
def Attach.Ok (gpio : Gpio) (s : Spi) : Attach → Prop
  | init b cfg bus_config env => (∀ h ∈ s.spihost b, AddsOk gpio b h cfg env) ∧
      ((s.spihost b).isNone = true → StartsOk gpio b cfg bus_config env)
  | deinit b _ => (s.spihost b).isNone = true

instance (gpio : Gpio) (s : Spi) : (c : Attach) → Decidable (c.Ok gpio s)
  | .init _ _ _ _ => inferInstanceAs (Decidable ((∀ _ ∈ _, _) ∧ (_ → _)))
  | .deinit _ _ => inferInstanceAs (Decidable (_ = true))

end LuaRtos.SpiBus
