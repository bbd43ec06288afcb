/-
  LuaRtos.Drivers.EspiBus

  The hosts of drivers/espi.c with their tables of devices, and the calls that
  initialize and free a bus and select and deselect a device.

  The number of a host stands for the pointer to its structure, and `devices` has
  the devices that are allocated.  The registers of a controller are those that a
  selection writes.  The routing of the pins is left out.
-/

import LuaRtos.CLib.Basic
import LuaRtos.Rtos.Semaphore
import Mathlib.Logic.Function.Basic

namespace LuaRtos.SpiBus

open CLib Rtos

/-- The `esp_err_t` that a call returns. -/
inductive EspErr where
  | ok | noMem | invalidArg | invalidState | notFound | notSupported
deriving DecidableEq, Repr

/-- Number of CS pins per SPI host. -/
def NO_CS : Nat := 3
/-- Number of spi devices per SPI host. -/
def NO_DEV : Nat := 6

/-- SPI_DEVICE_TXBIT_LSBFIRST and the other flags, by their bits. -/
def txbitLsbfirst : Nat := 0
def rxbitLsbfirst : Nat := 1
def threeWire : Nat := 2
def halfduplex : Nat := 4

/-- `spi_bus_config_t`. -/
structure BusConfig where
  mosi_io_num : Int
  miso_io_num : Int
  sclk_io_num : Int
  quadwp_io_num : Int
  quadhd_io_num : Int
deriving DecidableEq, Repr

/-- `spi_device_interface_config_t`, without the callbacks. -/
structure DeviceConfig where
  command_bits : BitVec 8
  address_bits : BitVec 8
  dummy_bits : BitVec 8
  mode : BitVec 8
  duty_cycle_pos : BitVec 8
  cs_ena_pretrans : BitVec 8
  cs_ena_posttrans : BitVec 8
  clock_speed_hz : Int
  spics_io_num : Int
  spics_ext_io_num : Int
  spidc_io_num : Int
  flags : BitVec 32
  queue_size : Int
  selected : BitVec 8
deriving DecidableEq, Repr

/-- `spi_device_t`.  A queue is the number of messages that wait in it, and none
    where it could not be created. -/
structure Device where
  trans_queue : Option Nat
  ret_queue : Option Nat
  cfg : DeviceConfig
  host : Nat
  bus_config : BusConfig
deriving DecidableEq, Repr

/-- A slot of the table of devices: NULL, the dummy pointer that reserves it, or
    the address of a device. -/
inductive Slot where
  | null
  | dummy
  | device (p : Nat)
deriving DecidableEq, Repr

/-- `spi_host_t`.  `cur_device` is none for -1, and `below` is the word before the
    structure, which `device[-1]` reads. -/
structure Host where
  device : Fin NO_DEV → Slot
  /-- The interrupt is allocated. -/
  intr : Bool
  /-- `hw` is set. -/
  hw : Bool
  /-- `cur_trans` is not NULL. -/
  cur_trans : Bool
  cur_device : Option (Fin NO_DEV)
  no_gpio_matrix : Bool
  spi_bus_mutex : Option (Semaphore Unit)
  cur_bus_config : BusConfig
  below : Slot

/-- The registers of a controller.  `clock` is the speed and duty cycle that it
    was set to. -/
structure Regs where
  clock : Int × BitVec 8
  rd_bit_order : Bool
  wr_bit_order : Bool
  ck_idle_edge : Bool
  ck_out_edge : Bool
  miso_delay_mode : Nat
  usr_dummy : Bool
  usr_addr : Bool
  usr_command : Bool
  usr_addr_bitlen : BitVec 6
  usr_dummy_cyclelen : BitVec 8
  usr_command_bitlen : BitVec 4
  doutdin : Bool
  sio : Bool
  setup_time : BitVec 4
  cs_setup : Bool
  hold_time : BitVec 4
  cs_hold : Bool
  /-- `cs0_dis`, `cs1_dis` and `cs2_dis`. -/
  cs_dis : Fin NO_CS → Bool

/-- Registers with no bit set. -/
def Regs.zero : Regs :=
  ⟨(0, 0), false, false, false, false, 0, false, false, false, 0, 0, 0, false, false, 0, false, 0,
    false, fun _ => false⟩

/-- A controller. -/
structure Module where
  enabled : Bool
  trans_inten : Bool
  trans_done : Bool
  regs : Regs

structure Spi where
  spihost : Nat → Option Host
  devices : Nat → Option Device
  module : Nat → Module
  /-- The level of each pin. -/
  level : Int → Bool

/-- GPIO_IS_VALID_GPIO and GPIO_IS_VALID_OUTPUT_GPIO. -/
structure Gpio where
  valid : Int → Bool
  output : Int → Bool

/-- Whether the memory of a host and its mutex can be allocated. -/
structure HostAlloc where
  host : Bool
  mutex : Bool
deriving DecidableEq, Repr

def Spi.setHost (s : Spi) (b : Nat) (h : Host) : Spi :=
  { s with spihost := Function.update s.spihost b (some h) }

def Spi.setDevice (s : Spi) (p : Nat) (d : Device) : Spi :=
  { s with devices := Function.update s.devices p (some d) }

def Spi.setModule (s : Spi) (b : Nat) (m : Module) : Spi :=
  { s with module := Function.update s.module b m }

def Spi.setLevel (s : Spi) (pin : Int) (high : Bool) : Spi :=
  { s with level := Function.update s.level pin high }

section Updates

variable {s : Spi} {b b' p : Nat} {h : Host} {d : Device} {m : Module} {pin : Int} {high : Bool}

@[simp] theorem spihost_setHost : (s.setHost b h).spihost b = some h := Function.update_self ..

theorem spihost_setHost_of_ne (hne : b' ≠ b) : (s.setHost b h).spihost b' = s.spihost b' :=
  Function.update_of_ne hne ..

@[simp] theorem module_setHost : (s.setHost b h).module = s.module := rfl

@[simp] theorem module_setModule : (s.setModule b m).module b = m := Function.update_self ..

theorem module_setModule_of_ne (hne : b' ≠ b) : (s.setModule b m).module b' = s.module b' :=
  Function.update_of_ne hne ..

@[simp] theorem devices_setDevice : (s.setDevice p d).devices p = some d :=
  Function.update_self ..

theorem devices_setDevice_of_ne {q : Nat} (hne : q ≠ p) :
    (s.setDevice p d).devices q = s.devices q :=
  Function.update_of_ne hne ..

@[simp] theorem level_setLevel : (s.setLevel pin high).level pin = high := Function.update_self ..

theorem level_setLevel_of_ne {pin' : Int} (hne : pin' ≠ pin) :
    (s.setLevel pin high).level pin' = s.level pin' :=
  Function.update_of_ne hne ..

end Updates

/-- `*handle`. -/
def Spi.read (s : Spi) (p : Nat) : Result Device :=
  match s.devices p with
  | some d => pure d
  | none => throw .useAfterFree

/-- `*handle->host`. -/
def Spi.host (s : Spi) (b : Nat) : Result Host :=
  match s.spihost b with
  | some h => pure h
  | none => throw .useAfterFree

/-! ## The bus -/

/-- The checks of the pins of a bus. -/
def BusConfig.valid (gpio : Gpio) (c : BusConfig) : Bool :=
  (decide (c.mosi_io_num < 0) || gpio.output c.mosi_io_num) &&
  (decide (c.sclk_io_num < 0) || gpio.output c.sclk_io_num) &&
  (decide (c.miso_io_num < 0) || gpio.valid c.miso_io_num) &&
  (decide (c.quadwp_io_num < 0) || gpio.output c.quadwp_io_num) &&
  (decide (c.quadhd_io_num < 0) || gpio.output c.quadhd_io_num)

/-- The native pins of a host, from `io_signal`. -/
def nativePins (b : Nat) : BusConfig :=
  if b = 0 then ⟨8, 7, 6, 10, 9⟩
  else if b = 1 then ⟨13, 12, 14, 2, 4⟩
  else ⟨23, 19, 18, 22, 21⟩

/-- The selected pins are the native pins of the host. -/
def BusConfig.native (c : BusConfig) (b : Nat) : Bool :=
  !(decide (0 ≤ c.mosi_io_num) && decide (c.mosi_io_num ≠ (nativePins b).mosi_io_num)) &&
  !(decide (0 ≤ c.miso_io_num) && decide (c.miso_io_num ≠ (nativePins b).miso_io_num)) &&
  !(decide (0 ≤ c.sclk_io_num) && decide (c.sclk_io_num ≠ (nativePins b).sclk_io_num)) &&
  !(decide (0 ≤ c.quadwp_io_num) && decide (c.quadwp_io_num ≠ (nativePins b).quadwp_io_num)) &&
  !(decide (0 ≤ c.quadhd_io_num) && decide (c.quadhd_io_num ≠ (nativePins b).quadhd_io_num))

/-- A host after `memset`; `below` is what memory holds there. -/
def Host.zero (below : Slot) : Host :=
  ⟨fun _ => .null, false, false, false, some ⟨0, by decide⟩, false, none, ⟨0, 0, 0, 0, 0⟩, below⟩

/-- The part of `spi_bus_initialize` after the allocation. -/
def initializeHost (s : Spi) (b : Nat) (h : Host) (bus_config : BusConfig) (dma : Bool) : Spi :=
  let h := { h with
    cur_device := none, cur_bus_config := bus_config, no_gpio_matrix := bus_config.native b
    intr := true, hw := true }
  let m := { s.module b with enabled := true }
  -- force a transaction done interrupt
  let m := if dma then { m with trans_inten := true, trans_done := true } else m
  (s.setHost b h).setModule b m

/-- `spi_bus_initialize`. -/
def spiBusInitialize (gpio : Gpio) (mem : HostAlloc) (below : Slot) (s : Spi) (b : Nat)
    (bus_config : BusConfig) (dma_chan : Int) : EspErr × Spi :=
  if ¬ (0 ≤ dma_chan ∧ dma_chan < 3) then (.invalidArg, s)
  else if 0 < dma_chan then
    if b = 0 then (.notSupported, s)
    else if 2 < b then (.invalidArg, s)
    else if (s.spihost b).isSome then (.invalidState, s)
    else if ¬ bus_config.valid gpio then (.invalidArg, s)
    else if ¬ mem.host then (.noMem, s)
    else if ¬ mem.mutex then (.noMem, s.setHost b (.zero below))
    else
      let h := { Host.zero below with spi_bus_mutex := some xSemaphoreCreate }
      (.ok, initializeHost s b h bus_config true)
  else
    match s.spihost b with
    | none => (.invalidState, s)
    | some h =>
      if ¬ bus_config.valid gpio then (.invalidArg, s)
      else (.ok, initializeHost s b h bus_config false)

/-- `spi_bus_free`. -/
def spiBusFree (s : Spi) (b : Nat) (dofree : Bool) : Result (EspErr × Spi) :=
  if 2 < b then pure (.invalidArg, s)
  else
    match s.spihost b with
    | none => pure (.invalidState, s)
    | some h =>
      if dofree ∧ ∃ x, h.device x ≠ .null then pure (.invalidState, s)
      else if ¬ h.hw then throw .nullDeref
      else if ¬ h.intr then throw .useAfterFree
      else
        let s := s.setModule b
          { s.module b with enabled := false, trans_inten := false, trans_done := false }
        if dofree then pure (.ok, { s with spihost := Function.update s.spihost b none })
        else pure (.ok, s.setHost b { h with intr := false })

/-! ## The mutex of a bus -/

/-- `xSemaphoreTake(host->spi_bus_mutex, ...)`: none while it is not available. -/
def Host.take (h : Host) : Result (Option Host) :=
  match h.spi_bus_mutex with
  | some m => pure ((xSemaphoreTake m).map fun m => { h with spi_bus_mutex := some m })
  | none => throw .nullDeref

/-- `xSemaphoreGive(host->spi_bus_mutex)`. -/
def Spi.give (s : Spi) (b : Nat) : Result Spi := do
  let h ← s.host b
  match h.spi_bus_mutex with
  | some m => pure (s.setHost b { h with spi_bus_mutex := some (xSemaphoreGive m) })
  | none => throw .nullDeref

/-! ## Selection -/

/-- `uxQueueMessagesWaiting`. -/
def uxQueueMessagesWaiting : Option Nat → Result Nat
  | some n => pure n
  | none => throw .nullDeref

/-- The slot of a device in the table. -/
def Host.slot (h : Host) (p : Nat) : Option (Fin NO_DEV) :=
  (List.finRange NO_DEV).find? fun i => decide (h.device i = .device p)

/-- `host->device[host->cur_device]`. -/
def Host.current (h : Host) : Slot :=
  match h.cur_device with
  | some i => h.device i
  | none => h.below

/-- The checks of a selection, which give the slot of the device. -/
def checkHandle (s : Spi) (p : Nat) : Result (EspErr ⊕ Fin NO_DEV) := do
  let d ← s.read p
  -- check if queued transfer is in progress
  if (← uxQueueMessagesWaiting d.trans_queue) ≠ 0 then pure (.inl .invalidState)
  else if (← uxQueueMessagesWaiting d.ret_queue) ≠ 0 then pure (.inl .invalidState)
  else do
    let h ← s.host d.host
    match h.slot p with
    | some i => pure (.inr i)
    | none => pure (.inl .invalidArg)

/-- Where the device in slot `i` has a different bus configuration, the bus is
    reconfigured. -/
def reconfigureBus (gpio : Gpio) (s : Spi) (p : Nat) (i : Fin NO_DEV) : Result (EspErr × Spi) := do
  let d ← s.read p
  let h ← s.host d.host
  if h.cur_bus_config = d.bus_config then pure (.ok, s)
  else do
    let (err, s) ← spiBusFree s 1 false
    if err ≠ .ok then pure (err, s)
    else pure (spiBusInitialize gpio ⟨false, false⟩ .null s i d.bus_config (-1))

/-- The registers for a device in slot `i`. -/
def DeviceConfig.regs (cfg : DeviceConfig) (no_gpio_matrix : Bool) (i : Fin NO_DEV) (r : Regs) :
    Regs :=
  let nodelay := no_gpio_matrix && decide (40000000 ≤ cfg.clock_speed_hz)
  { clock := (cfg.clock_speed_hz, cfg.duty_cycle_pos)
    rd_bit_order := cfg.flags.getLsbD rxbitLsbfirst
    wr_bit_order := cfg.flags.getLsbD txbitLsbfirst
    ck_idle_edge :=
      if cfg.mode = 0 ∨ cfg.mode = 1 then false
      else if cfg.mode = 2 ∨ cfg.mode = 3 then true else r.ck_idle_edge
    ck_out_edge :=
      if cfg.mode = 0 ∨ cfg.mode = 3 then false
      else if cfg.mode = 1 ∨ cfg.mode = 2 then true else r.ck_out_edge
    miso_delay_mode :=
      if cfg.mode = 0 ∨ cfg.mode = 3 then (if nodelay then 0 else 2)
      else if cfg.mode = 1 ∨ cfg.mode = 2 then (if nodelay then 0 else 1)
      else r.miso_delay_mode
    usr_dummy := decide (cfg.dummy_bits ≠ 0)
    usr_addr := decide (cfg.address_bits ≠ 0)
    usr_command := decide (cfg.command_bits ≠ 0)
    usr_addr_bitlen := (cfg.address_bits - 1).setWidth 6
    usr_dummy_cyclelen := cfg.dummy_bits - 1
    usr_command_bitlen := (cfg.command_bits - 1).setWidth 4
    doutdin := !cfg.flags.getLsbD halfduplex
    sio := cfg.flags.getLsbD threeWire
    setup_time := (cfg.cs_ena_pretrans - 1).setWidth 4
    cs_setup := decide (cfg.cs_ena_pretrans ≠ 0)
    hold_time := (cfg.cs_ena_posttrans - 1).setWidth 4
    cs_hold := decide (cfg.cs_ena_posttrans ≠ 0)
    cs_dis := fun c => decide (i.val ≠ c.val) }

/-- Reconfigure according to device settings, but only if the device changed or
    forced. -/
def configureDevice (s : Spi) (p : Nat) (force : Bool) (i : Fin NO_DEV) : Result Spi := do
  let d ← s.read p
  let h ← s.host d.host
  if force ∨ h.current ≠ .device p then
    let m := s.module d.host
    pure ((s.setModule d.host { m with regs := d.cfg.regs h.no_gpio_matrix i m.regs }).setHost
      d.host { h with cur_device := some i })
  else pure s

/-- A chip select that is an output of its own. -/
def DeviceConfig.ExtCs (cfg : DeviceConfig) : Prop :=
  cfg.spics_io_num < 0 ∧ 0 < cfg.spics_ext_io_num

instance (cfg : DeviceConfig) : Decidable cfg.ExtCs :=
  inferInstanceAs (Decidable (_ ∧ _))

/-- The level of the chip select of a device, if it is an output of its own. -/
def setCs (s : Spi) (p : Nat) (high : Bool) : Result Spi := do
  let d ← s.read p
  if d.cfg.ExtCs then pure (s.setLevel d.cfg.spics_ext_io_num high) else pure s

/-- `handle->cfg.selected = v`. -/
def setSelected (s : Spi) (p : Nat) (v : BitVec 8) : Result Spi := do
  let d ← s.read p
  pure (s.setDevice p { d with cfg := { d.cfg with selected := v } })

/-- `spi_device_select`, for a wait that ends with the mutex where it is available. -/
def spiDeviceSelect (gpio : Gpio) (s : Spi) (p : Nat) (force : Bool) :
    Result (EspErr × Spi) := do
  let d ← s.read p
  if d.cfg.selected = 1 then pure (.ok, s)
  else
    match ← checkHandle s p with
    | .inl err => pure (err, s)
    | .inr i => do
      let h ← s.host d.host
      match ← h.take with
      | none => pure (.invalidState, s)
      | some h => do
        let (err, s) ← reconfigureBus gpio (s.setHost d.host h) p i
        if err ≠ .ok then do
          let s ← s.give d.host
          pure (err, s)
        else do
          let s ← configureDevice s p force i
          let s ← setCs s p false
          let s ← setSelected s p 1
          pure (.ok, s)

/-- The chip select goes up if the device is the current one. -/
def raiseCs (s : Spi) (p : Nat) : Result Spi := do
  let d ← s.read p
  let h ← s.host d.host
  if h.current = .device p then setCs s p true else pure s

/-- `spi_device_deselect`. -/
def spiDeviceDeselect (s : Spi) (p : Nat) : Result (EspErr × Spi) := do
  let d ← s.read p
  if d.cfg.selected = 0 then pure (.ok, s)
  else
    match ← checkHandle s p with
    | .inl err => pure (err, s)
    | .inr _ => do
      let s ← raiseCs s p
      let s ← setSelected s p 0
      let s ← s.give d.host
      pure (.ok, s)

/-! ## What the parts of a selection do -/

section Parts

variable {gpio : Gpio} {s s' : Spi} {b p : Nat} {d : Device} {h h' : Host} {i : Fin NO_DEV}
variable {err : EspErr}

theorem read_eq_ok : s.read p = .ok d ↔ s.devices p = some d := by
  unfold Spi.read
  cases s.devices p with
  | none => simp
  | some e => simp

theorem host_eq_ok : s.host b = .ok h ↔ s.spihost b = some h := by
  unfold Spi.host
  cases s.spihost b with
  | none => simp
  | some e => simp

theorem take_eq_some : h.take = .ok (some h') ↔ ∃ m, h.spi_bus_mutex = some m ∧
    m.available = true ∧ h' = { h with spi_bus_mutex := some { m with available := false } } := by
  unfold Host.take
  cases hm : h.spi_bus_mutex with
  | none => simp
  | some m =>
    simp only [pure_eq_ok, Except.ok.injEq, Option.map_eq_some_iff, xSemaphoreTake_eq_some,
      Option.some.injEq]
    constructor
    · rintro ⟨_, ⟨ha, rfl⟩, rfl⟩
      exact ⟨m, rfl, ha, rfl⟩
    · rintro ⟨_, rfl, ha, rfl⟩
      exact ⟨_, ⟨ha, rfl⟩, rfl⟩

theorem take_eq_none :
    h.take = .ok none ↔ ∃ m, h.spi_bus_mutex = some m ∧ m.available = false := by
  unfold Host.take
  cases hm : h.spi_bus_mutex with
  | none => simp
  | some m =>
    cases ha : m.available with
    | false => simp [xSemaphoreTake, ha]
    | true => simp [xSemaphoreTake, ha]

theorem give_eq_ok : s.give b = .ok s' ↔ ∃ h m, s.spihost b = some h ∧ h.spi_bus_mutex = some m ∧
    s' = s.setHost b { h with spi_bus_mutex := some (xSemaphoreGive m) } := by
  unfold Spi.give
  constructor
  · intro hgive
    obtain ⟨h, hh, hgive⟩ := bind_eq_ok.mp hgive
    cases hm : h.spi_bus_mutex with
    | none =>
      rw [hm] at hgive
      cases hgive
    | some m =>
      rw [hm] at hgive
      exact ⟨h, m, host_eq_ok.mp hh, hm, (Except.ok.inj hgive).symm⟩
  · rintro ⟨h, m, hh, hm, rfl⟩
    apply bind_eq_ok.mpr
    refine ⟨h, host_eq_ok.mpr hh, ?_⟩
    rw [hm]
    rfl

theorem setSelected_eq_ok {v : BitVec 8} : setSelected s p v = .ok s' ↔
    ∃ d, s.devices p = some d ∧
      s' = s.setDevice p { d with cfg := { d.cfg with selected := v } } := by
  unfold setSelected
  constructor
  · intro hset
    obtain ⟨d, hd, hset⟩ := bind_eq_ok.mp hset
    exact ⟨d, read_eq_ok.mp hd, (Except.ok.inj hset).symm⟩
  · rintro ⟨d, hd, rfl⟩
    exact bind_eq_ok.mpr ⟨d, read_eq_ok.mpr hd, rfl⟩

theorem setCs_eq (hd : s.devices p = some d) (high : Bool) : setCs s p high =
    .ok (if d.cfg.ExtCs then s.setLevel d.cfg.spics_ext_io_num high else s) := by
  unfold setCs
  rw [read_eq_ok.mpr hd, ok_bind]
  split
  · rfl
  · rfl

theorem configureDevice_eq (hd : s.devices p = some d) (hh : s.spihost d.host = some h)
    (force : Bool) : configureDevice s p force i =
      .ok (if force = true ∨ h.current ≠ .device p then
        (s.setModule d.host { s.module d.host with
          regs := d.cfg.regs h.no_gpio_matrix i (s.module d.host).regs }).setHost d.host
          { h with cur_device := some i }
      else s) := by
  unfold configureDevice
  rw [read_eq_ok.mpr hd, ok_bind, host_eq_ok.mpr hh, ok_bind]
  split
  · rfl
  · rfl

theorem raiseCs_eq (hd : s.devices p = some d) (hh : s.spihost d.host = some h) :
    raiseCs s p = if h.current = .device p then setCs s p true else .ok s := by
  unfold raiseCs
  rw [read_eq_ok.mpr hd, ok_bind, host_eq_ok.mpr hh, ok_bind]
  rfl

/-- The host that `spi_bus_free` leaves where the structures are kept. -/
def Spi.strip (s : Spi) (b : Nat) (h : Host) : Spi :=
  (s.setModule b { s.module b with enabled := false, trans_inten := false, trans_done := false })
    |>.setHost b { h with intr := false }

theorem spiBusFree_cases (hfree : spiBusFree s b false = .ok (err, s')) :
    (s' = s ∧ err ≠ .ok ∧ (2 < b ∨ s.spihost b = none)) ∨
      ∃ h, s.spihost b = some h ∧ err = .ok ∧ s' = s.strip b h := by
  unfold spiBusFree at hfree
  split at hfree
  · next hb =>
    cases hfree
    exact .inl ⟨rfl, nofun, .inl hb⟩
  · cases hh : s.spihost b with
    | none =>
      rw [hh] at hfree
      cases hfree
      exact .inl ⟨rfl, nofun, .inr rfl⟩
    | some h =>
      rw [hh] at hfree
      simp only [Bool.false_eq_true, false_and, if_false] at hfree
      split at hfree
      · cases hfree
      · split at hfree
        · cases hfree
        · cases hfree
          exact .inr ⟨h, rfl, rfl, rfl⟩

/-- With -1 for the DMA channel a bus is never initialized. -/
theorem spiBusInitialize_neg (mem : HostAlloc) (below : Slot) (c : BusConfig) :
    spiBusInitialize gpio mem below s b c (-1) = (.invalidArg, s) := rfl

/-- Where the bus has the configuration of the device nothing happens.  Where it has
    another, the selection fails, after it has stripped host 1 if that is in use. -/
theorem reconfigureBus_cases (hd : s.devices p = some d) (hh : s.spihost d.host = some h)
    (hrec : reconfigureBus gpio s p i = .ok (err, s')) :
    (h.cur_bus_config = d.bus_config ∧ err = .ok ∧ s' = s) ∨
      h.cur_bus_config ≠ d.bus_config ∧ err ≠ .ok ∧
        (s.spihost 1 = none ∧ s' = s ∨ ∃ g, s.spihost 1 = some g ∧ s' = s.strip 1 g) := by
  unfold reconfigureBus at hrec
  rw [read_eq_ok.mpr hd, ok_bind, host_eq_ok.mpr hh, ok_bind] at hrec
  split at hrec
  · next heq =>
    cases hrec
    exact .inl ⟨heq, rfl, rfl⟩
  · next hne =>
    obtain ⟨⟨err₁, s₁⟩, hfree, hrest⟩ := bind_eq_ok.mp hrec
    dsimp only at hrest
    rcases spiBusFree_cases hfree with ⟨rfl, herr, hhost⟩ | ⟨g, hg, rfl, rfl⟩
    · rw [if_pos herr] at hrest
      cases hrest
      have hnone := hhost.resolve_left (by omega)
      exact .inr ⟨hne, herr, .inl ⟨hnone, rfl⟩⟩
    · rw [if_neg (fun hok => hok rfl), spiBusInitialize_neg] at hrest
      cases hrest
      exact .inr ⟨hne, nofun, .inr ⟨g, hg, rfl⟩⟩

theorem slot_eq_some (hslot : h.slot p = some i) : h.device i = .device p := by
  have hfound := List.find?_some hslot
  exact of_decide_eq_true hfound

theorem slot_isSome (hi : h.device i = .device p) : ∃ j, h.slot p = some j := by
  apply Option.isSome_iff_exists.mp
  apply List.find?_isSome.mpr
  exact ⟨i, List.mem_finRange i, decide_eq_true hi⟩

/-- A handle passes the checks when its queues are empty and it is in the table. -/
theorem checkHandle_inr (hd : s.devices p = some d) : checkHandle s p = .ok (.inr i) ↔
    d.trans_queue = some 0 ∧ d.ret_queue = some 0 ∧
      ∃ h, s.spihost d.host = some h ∧ h.slot p = some i := by
  unfold checkHandle
  rw [read_eq_ok.mpr hd, ok_bind]
  cases ht : d.trans_queue with
  | none => simp [uxQueueMessagesWaiting]
  | some n =>
    cases hr : d.ret_queue with
    | none => cases n <;> simp [uxQueueMessagesWaiting]
    | some k =>
      cases hh : s.spihost d.host with
      | none => cases n <;> cases k <;> simp [uxQueueMessagesWaiting, Spi.host, hh]
      | some h =>
        cases hs : h.slot p with
        | none => cases n <;> cases k <;> simp [uxQueueMessagesWaiting, Spi.host, hh, hs]
        | some j => cases n <;> cases k <;> simp [uxQueueMessagesWaiting, Spi.host, hh, hs]

end Parts

end LuaRtos.SpiBus
