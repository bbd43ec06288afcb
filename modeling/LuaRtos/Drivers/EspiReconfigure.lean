/-
  LuaRtos.Drivers.EspiReconfigure

  The bus configuration, over sequences of selections and deselections of devices
  on any hosts.

  A device with another configuration than its host has now is to have the bus
  reconfigured.  `spi_device_select` frees host 1 for that, whatever the host of the
  device, and initializes the host with the number of the slot, with a DMA channel
  that the checks refuse.  So such a selection fails, and leaves every host as it was
  just when host 1 is not in use.
-/

import LuaRtos.Drivers.EspiBus
import LuaRtos.Lts.Run

namespace LuaRtos.SpiBus

open CLib Rtos

/-! ## What a selection does -/

/-- The selection of a device comes to the comparison of the configurations: nothing
    is queued, the handle is in the table and the bus is free. -/
structure Comes (p : Nat) (d : Device) (h : Host) (m : Semaphore Unit) : Prop where
  trans : d.trans_queue = some 0
  ret : d.ret_queue = some 0
  slot : ∃ i, h.device i = .device p
  free : m.available = true

/-- The host whose mutex is taken. -/
def Host.taken (h : Host) (m : Semaphore Unit) : Host :=
  { h with spi_bus_mutex := some { m with available := false } }

/-- What a selection that succeeds leaves. -/
structure Selected (s : Spi) (p : Nat) (force : Bool) (d : Device) (h : Host)
    (m : Semaphore Unit) (s' : Spi) : Prop where
  devices : s'.devices =
    Function.update s.devices p (some { d with cfg := { d.cfg with selected := 1 } })
  host : ∃ cur, s'.spihost =
      Function.update s.spihost d.host (some { h.taken m with cur_device := cur }) ∧
    if force = true ∨ h.current ≠ .device p then ∃ i, cur = some i ∧ h.device i = .device p
    else cur = h.cur_device
  module : ∀ c, c ≠ d.host → s'.module c = s.module c

/-- The outcomes of a selection. -/
inductive SelectCase (s : Spi) (p : Nat) (force : Bool) (d : Device) (h : Host)
    (m : Semaphore Unit) : Result (EspErr × Spi) → Prop
  | already (hsel : d.cfg.selected = 1) : SelectCase s p force d h m (.ok (.ok, s))
  | refused {err : EspErr} (hsel : d.cfg.selected ≠ 1) (herr : err ≠ .ok)
      (hno : ¬ Comes p d h m) : SelectCase s p force d h m (.ok (err, s))
  | idle {err : EspErr} (hsel : d.cfg.selected ≠ 1) (herr : err ≠ .ok) (hcomes : Comes p d h m)
      (hconfig : h.cur_bus_config ≠ d.bus_config) (hnone : s.spihost 1 = none) :
      SelectCase s p force d h m (.ok (err, s))
  | strips {err : EspErr} {s' : Spi} (hsel : d.cfg.selected ≠ 1) (herr : err ≠ .ok)
      (hcomes : Comes p d h m) (hconfig : h.cur_bus_config ≠ d.bus_config)
      (hone : s.spihost 1 ≠ none) (hstrip : ∀ g, s'.spihost 1 = some g → g.intr = false) :
      SelectCase s p force d h m (.ok (err, s'))
  | selects {s' : Spi} (hsel : d.cfg.selected ≠ 1) (hcomes : Comes p d h m)
      (hconfig : h.cur_bus_config = d.bus_config) (hs : Selected s p force d h m s') :
      SelectCase s p force d h m (.ok (.ok, s'))

section Select

variable {gpio : Gpio} {s s' : Spi} {p n k : Nat} {force : Bool} {d : Device} {h : Host}
variable {m : Semaphore Unit} {i : Fin NO_DEV}

/-- The checks of a handle whose queues exist. -/
theorem checkHandle_cases (hd : s.devices p = some d) (hh : s.spihost d.host = some h)
    (ht : d.trans_queue = some n) (hr : d.ret_queue = some k) :
    (∃ i, checkHandle s p = .ok (.inr i) ∧ d.trans_queue = some 0 ∧ d.ret_queue = some 0 ∧
      h.device i = .device p) ∨
    ∃ err, checkHandle s p = .ok (.inl err) ∧ err ≠ .ok ∧
      ¬ (d.trans_queue = some 0 ∧ d.ret_queue = some 0 ∧ ∃ i, h.device i = .device p) := by
  by_cases hn : n = 0
  · by_cases hk : k = 0
    · subst hn hk
      cases hslot : h.slot p with
      | some i =>
        refine .inl ⟨i, ?_, ht, hr, slot_eq_some hslot⟩
        exact (checkHandle_inr hd).mpr ⟨ht, hr, h, hh, hslot⟩
      | none =>
        refine .inr ⟨.invalidArg, ?_, by decide, ?_⟩
        · unfold checkHandle
          rw [read_eq_ok.mpr hd, ok_bind, ht, hr, host_eq_ok.mpr hh]
          simp [uxQueueMessagesWaiting, hslot]
        · rintro ⟨-, -, i, hi⟩
          obtain ⟨j, hj⟩ := slot_isSome hi
          cases hslot.symm.trans hj
    · refine .inr ⟨.invalidState, ?_, by decide, ?_⟩
      · unfold checkHandle
        rw [read_eq_ok.mpr hd, ok_bind, ht, hr]
        simp [uxQueueMessagesWaiting, hn, hk]
      · rw [hr]
        exact fun hall => hk (Option.some.inj hall.2.1)
  · refine .inr ⟨.invalidState, ?_, by decide, ?_⟩
    · unfold checkHandle
      rw [read_eq_ok.mpr hd, ok_bind, ht]
      simp [uxQueueMessagesWaiting, hn]
    · rw [ht]
      exact fun hall => hn (Option.some.inj hall.1)

/-- What is taken and given back is as it was. -/
theorem give_taken (hb : s.spihost n = some h) (hm : h.spi_bus_mutex = some m)
    (hfree : m.available = true) : (s.setHost n (h.taken m)).give n = .ok s := by
  apply give_eq_ok.mpr
  refine ⟨h.taken m, { m with available := false }, spihost_setHost, rfl, ?_⟩
  have hgive : xSemaphoreGive { m with available := false } = m := by
    unfold xSemaphoreGive
    rw [← hfree]
  have hhost : { h.taken m with
      spi_bus_mutex := some (xSemaphoreGive { m with available := false }) } = h := by
    rw [hgive, ← hm]
    rfl
  rw [hhost]
  unfold Spi.setHost
  rw [Function.update_idem, ← hb, Function.update_eq_self]

theorem reconfigureBus_same (hd : s.devices p = some d) (hh : s.spihost d.host = some h)
    (hconfig : h.cur_bus_config = d.bus_config) : reconfigureBus gpio s p i = .ok (.ok, s) := by
  unfold reconfigureBus
  rw [read_eq_ok.mpr hd, ok_bind, host_eq_ok.mpr hh, ok_bind, if_pos hconfig]
  rfl

theorem reconfigureBus_idle (hd : s.devices p = some d) (hh : s.spihost d.host = some h)
    (hconfig : h.cur_bus_config ≠ d.bus_config) (hnone : s.spihost 1 = none) :
    reconfigureBus gpio s p i = .ok (.invalidState, s) := by
  unfold reconfigureBus spiBusFree
  rw [read_eq_ok.mpr hd, ok_bind, host_eq_ok.mpr hh, ok_bind, if_neg hconfig, hnone]
  rfl

theorem spiBusFree_strip {g : Host} (hg : s.spihost 1 = some g) (hhw : g.hw = true)
    (hintr : g.intr = true) : spiBusFree s 1 false = .ok (.ok, s.strip 1 g) := by
  have hkeep : ¬ (false = true ∧ ∃ x, g.device x ≠ .null) := fun hno => nomatch hno.1
  unfold spiBusFree
  rw [if_neg (by decide), hg]
  dsimp only
  rw [if_neg hkeep, if_neg (not_not_intro hhw), if_neg (not_not_intro hintr)]
  rfl

theorem reconfigureBus_strip (hd : s.devices p = some d) (hh : s.spihost d.host = some h)
    (hconfig : h.cur_bus_config ≠ d.bus_config) {g : Host} (hg : s.spihost 1 = some g)
    (hhw : g.hw = true) (hintr : g.intr = true) :
    reconfigureBus gpio s p i = .ok (.invalidArg, s.strip 1 g) := by
  unfold reconfigureBus
  rw [read_eq_ok.mpr hd, ok_bind, host_eq_ok.mpr hh, ok_bind, if_neg hconfig,
    spiBusFree_strip hg hhw hintr, ok_bind]
  rfl

/-- After it is stripped, the bus is given. -/
theorem give_strip (hb : s.spihost n = some h) (hm : h.spi_bus_mutex = some m) {g : Host}
    (hg : s.spihost 1 = some g) :
    ∃ s', (s.strip 1 g).give n = .ok s' ∧ ∀ g', s'.spihost 1 = some g' → g'.intr = false := by
  by_cases hone : n = 1
  · subst hone
    refine ⟨_, give_eq_ok.mpr ⟨{ g with intr := false }, m, spihost_setHost, ?_, rfl⟩, ?_⟩
    · cases hb.symm.trans hg
      exact hm
    · intro g' hg'
      rw [spihost_setHost] at hg'
      cases hg'
      rfl
  · have hb' : (s.strip 1 g).spihost n = some h := (spihost_setHost_of_ne hone).trans hb
    refine ⟨_, give_eq_ok.mpr ⟨h, m, hb', hm, rfl⟩, ?_⟩
    intro g' hg'
    rw [spihost_setHost_of_ne (Ne.symm hone), Spi.strip, spihost_setHost] at hg'
    cases hg'
    rfl

/-- The part of a selection after the comparison. -/
theorem finish_selected (hd : s.devices p = some d) (hi : h.device i = .device p)
    (err : EspErr) :
    ∃ s', (do
      let s ← configureDevice (s.setHost d.host (h.taken m)) p force i
      let s ← setCs s p false
      let s ← setSelected s p 1
      pure (err, s)) = .ok (err, s') ∧ Selected s p force d h m s' := by
  have hd₁ : (s.setHost d.host (h.taken m)).devices p = some d := hd
  rw [configureDevice_eq hd₁ spihost_setHost, ok_bind]
  obtain ⟨cur, t, ht, hcur, htdev, hthost, htmod⟩ : ∃ cur t,
      (if force = true ∨ (h.taken m).current ≠ .device p then
        ((s.setHost d.host (h.taken m)).setModule d.host
          { (s.setHost d.host (h.taken m)).module d.host with
            regs := d.cfg.regs (h.taken m).no_gpio_matrix i
              ((s.setHost d.host (h.taken m)).module d.host).regs }).setHost d.host
          { h.taken m with cur_device := some i }
      else s.setHost d.host (h.taken m)) = t ∧
      (if force = true ∨ h.current ≠ .device p then ∃ i, cur = some i ∧ h.device i = .device p
        else cur = h.cur_device) ∧
      t.devices = s.devices ∧
      t.spihost = Function.update s.spihost d.host (some { h.taken m with cur_device := cur }) ∧
      ∀ c, c ≠ d.host → t.module c = s.module c := by
    by_cases hcond : force = true ∨ h.current ≠ .device p
    · have hcond' : force = true ∨ (h.taken m).current ≠ .device p := hcond
      refine ⟨some i, _, if_pos hcond', ?_, rfl, ?_, ?_⟩
      · rw [if_pos hcond]
        exact ⟨i, rfl, hi⟩
      · exact Function.update_idem ..
      · intro c hc
        exact module_setModule_of_ne hc
    · have hcond' : ¬ (force = true ∨ (h.taken m).current ≠ .device p) := hcond
      refine ⟨h.cur_device, _, if_neg hcond', ?_, rfl, rfl, fun _ _ => rfl⟩
      rw [if_neg hcond]
  rw [ht]
  have hd₂ : t.devices p = some d := htdev ▸ hd
  rw [setCs_eq hd₂, ok_bind]
  have hd₃ : (if d.cfg.ExtCs then t.setLevel d.cfg.spics_ext_io_num false else t).devices p =
      some d := by
    split
    · exact hd₂
    · exact hd₂
  refine ⟨_, bind_eq_ok.mpr ⟨_, setSelected_eq_ok.mpr ⟨d, hd₃, rfl⟩, rfl⟩, ?_, ?_, ?_⟩
  · rw [← htdev]
    split
    · rfl
    · rfl
  · refine ⟨cur, ?_, hcur⟩
    rw [← hthost]
    split
    · rfl
    · rfl
  · intro c hc
    rw [← htmod c hc]
    split
    · rfl
    · rfl

theorem spiDeviceSelect_cases (hd : s.devices p = some d) (hh : s.spihost d.host = some h)
    (hm : h.spi_bus_mutex = some m) (ht : d.trans_queue = some n) (hr : d.ret_queue = some k)
    (hone : ∀ g, s.spihost 1 = some g → g.hw = true ∧ g.intr = true) :
    SelectCase s p force d h m (spiDeviceSelect gpio s p force) := by
  unfold spiDeviceSelect
  rw [read_eq_ok.mpr hd, ok_bind]
  by_cases hsel : d.cfg.selected = 1
  · rw [if_pos hsel]
    exact .already hsel
  rw [if_neg hsel]
  rcases checkHandle_cases hd hh ht hr with
    ⟨i, hcheck, htrans, hret, hslot⟩ | ⟨err, hcheck, herr, hno⟩
  · rw [hcheck, ok_bind, host_eq_ok.mpr hh]
    dsimp only
    rw [ok_bind]
    cases hfree : m.available with
    | false =>
      have htake : h.take = .ok none := take_eq_none.mpr ⟨m, hm, hfree⟩
      rw [htake, ok_bind]
      refine .refused hsel nofun ?_
      intro hcomes
      cases hfree.symm.trans hcomes.free
    | true =>
      have htake : h.take = .ok (some (h.taken m)) := take_eq_some.mpr ⟨m, hm, hfree, rfl⟩
      have hcomes : Comes p d h m := ⟨htrans, hret, ⟨i, hslot⟩, hfree⟩
      have hd₁ : (s.setHost d.host (h.taken m)).devices p = some d := hd
      rw [htake, ok_bind]
      dsimp only
      by_cases hconfig : h.cur_bus_config = d.bus_config
      · rw [reconfigureBus_same hd₁ spihost_setHost hconfig, ok_bind]
        dsimp only
        rw [if_neg (fun hne => hne rfl)]
        obtain ⟨s', hs', hselected⟩ := finish_selected hd hslot .ok
        rw [hs']
        exact .selects hsel hcomes hconfig hselected
      · cases hg : s.spihost 1 with
        | none =>
          have hg₁ : (s.setHost d.host (h.taken m)).spihost 1 = none := by
            rw [spihost_setHost_of_ne, hg]
            rintro heq
            rw [← heq, hg] at hh
            cases hh
          rw [reconfigureBus_idle hd₁ spihost_setHost hconfig hg₁, ok_bind]
          dsimp only
          rw [if_pos nofun, give_taken hh hm hfree]
          exact .idle hsel nofun hcomes hconfig hg
        | some g =>
          obtain ⟨g₁, hg₁, hhw, hintr⟩ : ∃ g₁,
              (s.setHost d.host (h.taken m)).spihost 1 = some g₁ ∧ g₁.hw = true ∧
                g₁.intr = true := by
            by_cases heq : d.host = 1
            · have hown := hone h (heq ▸ hh)
              exact ⟨h.taken m, heq ▸ spihost_setHost, hown⟩
            · exact ⟨g, (spihost_setHost_of_ne (Ne.symm heq)).trans hg, hone g hg⟩
          obtain ⟨s', hs', hstrip⟩ := give_strip spihost_setHost rfl hg₁
          rw [reconfigureBus_strip hd₁ spihost_setHost hconfig hg₁ hhw hintr, ok_bind]
          dsimp only
          rw [if_pos nofun, hs']
          refine .strips hsel nofun hcomes hconfig ?_ hstrip
          rw [hg]
          nofun
  · rw [hcheck, ok_bind]
    refine .refused hsel herr ?_
    intro hcomes
    exact hno ⟨hcomes.trans, hcomes.ret, hcomes.slot⟩

end Select

/-! ## What a deselection does -/

/-- The outcomes of a deselection. -/
inductive DeselectCase (s : Spi) (p : Nat) (d : Device) (h : Host) (m : Semaphore Unit) :
    Result (EspErr × Spi) → Prop
  | unchanged {err : EspErr} : DeselectCase s p d h m (.ok (err, s))
  | deselects {s' : Spi} (hsel : d.cfg.selected ≠ 0)
      (hdevices : s'.devices =
        Function.update s.devices p (some { d with cfg := { d.cfg with selected := 0 } }))
      (hhost : s'.spihost = Function.update s.spihost d.host
        (some { h with spi_bus_mutex := some (xSemaphoreGive m) })) :
      DeselectCase s p d h m (.ok (.ok, s'))

theorem spiDeviceDeselect_cases {s : Spi} {p n k : Nat} {d : Device} {h : Host}
    {m : Semaphore Unit} (hd : s.devices p = some d) (hh : s.spihost d.host = some h)
    (hm : h.spi_bus_mutex = some m) (ht : d.trans_queue = some n) (hr : d.ret_queue = some k) :
    DeselectCase s p d h m (spiDeviceDeselect s p) := by
  unfold spiDeviceDeselect
  rw [read_eq_ok.mpr hd, ok_bind]
  by_cases hsel : d.cfg.selected = 0
  · rw [if_pos hsel]
    exact .unchanged
  rw [if_neg hsel]
  rcases checkHandle_cases hd hh ht hr with ⟨i, hcheck, -⟩ | ⟨err, hcheck, -⟩
  · obtain ⟨t, hraise, hdevices, hhosts⟩ : ∃ t, raiseCs s p = .ok t ∧ t.devices = s.devices ∧
        t.spihost = s.spihost := by
      rw [raiseCs_eq hd hh, setCs_eq hd]
      by_cases hcur : h.current = .device p
      · rw [if_pos hcur]
        refine ⟨_, rfl, ?_, ?_⟩
        · split
          · rfl
          · rfl
        · split
          · rfl
          · rfl
      · rw [if_neg hcur]
        exact ⟨s, rfl, rfl, rfl⟩
    have hd' : t.devices p = some d := hdevices ▸ hd
    have hh' : (t.setDevice p { d with cfg := { d.cfg with selected := 0 } }).spihost d.host =
        some h := (congrFun hhosts d.host).trans hh
    rw [hcheck, ok_bind]
    dsimp only
    rw [hraise, ok_bind, setSelected_eq_ok.mpr ⟨d, hd', rfl⟩, ok_bind,
      give_eq_ok.mpr ⟨h, m, hh', hm, rfl⟩, ok_bind]
    refine .deselects hsel ?_ ?_
    · rw [← hdevices]
      rfl
    · rw [← hhosts]
      rfl
  · rw [hcheck, ok_bind]
    exact .unchanged

/-! ## Sequences -/

/-- The host is set to the device. -/
structure Host.Own (h : Host) (p : Nat) (d : Device) : Prop where
  config : h.cur_bus_config = d.bus_config
  device : ∃ i, h.cur_device = some i ∧ h.device i = .device p

/-- What a selection is for: one that succeeds sets the host of the device to it and
    touches no other, and one that fails leaves every host as it was. -/
def Selects (s : Spi) (p : Nat) : Result (EspErr × Spi) → Prop
  | .ok (err, s') =>
    if err = .ok then
      ∃ d h, s'.devices p = some d ∧ s'.spihost d.host = some h ∧ h.Own p d ∧
        ∀ c, c ≠ d.host → s'.spihost c = s.spihost c ∧ s'.module c = s.module c
    else s'.spihost = s.spihost ∧ s'.module = s.module
  | .error _ => False

/-- A selection that comes to the comparison finds the configuration of its own, and
    a device to compare with, or it finds another and host 1 is not in use. -/
def Meets (s : Spi) (p : Nat) (force : Bool) : Prop :=
  ∀ d ∈ s.devices p, ∀ h ∈ s.spihost d.host, ∀ m ∈ h.spi_bus_mutex,
    d.cfg.selected ≠ 1 → Comes p d h m →
      (h.cur_bus_config = d.bus_config ∧
        (force = true ∨ h.cur_device.isSome = true ∨ h.below ≠ .device p)) ∨
      (h.cur_bus_config ≠ d.bus_config ∧ s.spihost 1 = none)

theorem selects_of_error {s s' : Spi} {p : Nat} {err : EspErr} (herr : err ≠ .ok) :
    Selects s p (.ok (err, s')) ↔ s'.spihost = s.spihost ∧ s'.module = s.module :=
  iff_of_eq (if_neg herr)

instance (p : Nat) (d : Device) (h : Host) (m : Semaphore Unit) : Decidable (Comes p d h m) :=
  decidable_of_iff (d.trans_queue = some 0 ∧ d.ret_queue = some 0 ∧
      (∃ i, h.device i = .device p) ∧ m.available = true)
    ⟨fun ⟨ht, hr, hs, hf⟩ => ⟨ht, hr, hs, hf⟩, fun ⟨ht, hr, hs, hf⟩ => ⟨ht, hr, hs, hf⟩⟩

instance (s : Spi) (p : Nat) (force : Bool) : Decidable (Meets s p force) :=
  inferInstanceAs (Decidable (∀ _ ∈ _, ∀ _ ∈ _, ∀ _ ∈ _, _ → _ → _))

inductive Op where
  | select (p : Nat) (force : Bool)
  | deselect (p : Nat)

/-- The state after a call; none where there is no such device. -/
def opStep (gpio : Gpio) (s : Spi) : Op → Option Spi
  | .select p force => (spiDeviceSelect gpio s p force).toOption.map Prod.snd
  | .deselect p => (spiDeviceDeselect s p).toOption.map Prod.snd

/-- The sequences of calls from given hosts and devices. -/
def selections (gpio : Gpio) (s : Spi) : Lts Spi Op := .ofStep s (opStep gpio)

/-- The selections of a sequence meet the condition. -/
def Op.Meets (s : Spi) : Op → Prop
  | select p force => SpiBus.Meets s p force
  | deselect _ => True

instance (s : Spi) : (op : Op) → Decidable (op.Meets s)
  | .select p force => inferInstanceAs (Decidable (SpiBus.Meets s p force))
  | .deselect _ => .isTrue trivial

/-- Hosts and devices as they are attached, with nothing selected. -/
structure Attached (s : Spi) : Prop where
  host : ∀ b h, s.spihost b = some h →
    h.hw = true ∧ h.intr = true ∧ h.spi_bus_mutex.isSome = true
  device : ∀ p d, s.devices p = some d → d.trans_queue.isSome = true ∧
    d.ret_queue.isSome = true ∧ (s.spihost d.host).isSome = true
  selected : ∀ p d, s.devices p = some d → d.cfg.selected = 0

/-- At most one device of a host is selected, and then the host is set to it and its
    mutex is taken. -/
structure Consistent (s : Spi) : Prop where
  host : ∀ b h, s.spihost b = some h →
    h.hw = true ∧ h.intr = true ∧ h.spi_bus_mutex.isSome = true
  device : ∀ p d, s.devices p = some d → d.trans_queue.isSome = true ∧
    d.ret_queue.isSome = true ∧ (s.spihost d.host).isSome = true
  flag : ∀ p d, s.devices p = some d → d.cfg.selected = 0 ∨ d.cfg.selected = 1
  own : ∀ p d h, s.devices p = some d → s.spihost d.host = some h → d.cfg.selected = 1 →
    h.Own p d ∧ ∀ m, h.spi_bus_mutex = some m → m.available = false
  single : ∀ p q d e, s.devices p = some d → s.devices q = some e → d.host = e.host →
    d.cfg.selected = 1 → e.cfg.selected = 1 → p = q

theorem Attached.consistent {s : Spi} (h : Attached s) : Consistent s := by
  have hnone : ∀ p d, s.devices p = some d → d.cfg.selected ≠ 1 := by
    intro p d hd hsel
    rw [h.selected p d hd] at hsel
    exact absurd hsel (by decide)
  refine ⟨h.host, h.device, fun p d hd => .inl (h.selected p d hd), ?_, ?_⟩
  · intro p d g hd _ hsel
    exact absurd hsel (hnone p d hd)
  · intro p q d e hd _ _ hsel
    exact absurd hsel (hnone p d hd)

section Sequences

variable {gpio : Gpio} {s s' : Spi} {p : Nat} {force : Bool} {d : Device} {h : Host}
variable {m : Semaphore Unit}

/-- What an attached device comes with. -/
theorem Consistent.parts (hc : Consistent s) (hd : s.devices p = some d) :
    ∃ n k h m, d.trans_queue = some n ∧ d.ret_queue = some k ∧ s.spihost d.host = some h ∧
      h.spi_bus_mutex = some m := by
  obtain ⟨ht, hr, hh⟩ := hc.device p d hd
  obtain ⟨n, hn⟩ := Option.isSome_iff_exists.mp ht
  obtain ⟨k, hk⟩ := Option.isSome_iff_exists.mp hr
  obtain ⟨h, hhost⟩ := Option.isSome_iff_exists.mp hh
  obtain ⟨-, -, hmutex⟩ := hc.host d.host h hhost
  obtain ⟨m, hm⟩ := Option.isSome_iff_exists.mp hmutex
  exact ⟨n, k, h, m, hn, hk, hhost, hm⟩

/-- The outcomes of a selection of an attached device. -/
theorem Consistent.select (hc : Consistent s) (hd : s.devices p = some d)
    (hh : s.spihost d.host = some h) (hm : h.spi_bus_mutex = some m) :
    SelectCase s p force d h m (spiDeviceSelect gpio s p force) := by
  obtain ⟨n, k, -, -, ht, hr, -⟩ := hc.parts hd
  apply spiDeviceSelect_cases hd hh hm ht hr
  intro g hg
  obtain ⟨hhw, hintr, -⟩ := hc.host 1 g hg
  exact ⟨hhw, hintr⟩

/-- A call changes the flag of one device and the mutex and current device of its
    host. -/
theorem Consistent.change (hc : Consistent s) (hd : s.devices p = some d)
    (hh : s.spihost d.host = some h) {v : BitVec 8} {m' : Semaphore Unit}
    {cur : Option (Fin NO_DEV)}
    (hdevices : s'.devices =
      Function.update s.devices p (some { d with cfg := { d.cfg with selected := v } }))
    (hhosts : s'.spihost = Function.update s.spihost d.host
      (some { h with spi_bus_mutex := some m', cur_device := cur }))
    (hothers : ∀ q e, q ≠ p → s.devices q = some e → e.host = d.host → e.cfg.selected ≠ 1)
    (hv : v = 0 ∨ v = 1 ∧ m'.available = false ∧ h.cur_bus_config = d.bus_config ∧
      ∃ i, cur = some i ∧ h.device i = .device p) : Consistent s' := by
  have hdev : ∀ q e, s'.devices q = some e → q = p ∧
      e = { d with cfg := { d.cfg with selected := v } } ∨ q ≠ p ∧ s.devices q = some e := by
    intro q e he
    rw [hdevices] at he
    by_cases hq : q = p
    · subst hq
      rw [Function.update_self] at he
      exact .inl ⟨rfl, (Option.some.inj he).symm⟩
    · rw [Function.update_of_ne hq] at he
      exact .inr ⟨hq, he⟩
  have hhost : ∀ b g, s'.spihost b = some g → b = d.host ∧
      g = { h with spi_bus_mutex := some m', cur_device := cur } ∨
      b ≠ d.host ∧ s.spihost b = some g := by
    intro b g hg
    rw [hhosts] at hg
    by_cases hb : b = d.host
    · subst hb
      rw [Function.update_self] at hg
      exact .inl ⟨rfl, (Option.some.inj hg).symm⟩
    · rw [Function.update_of_ne hb] at hg
      exact .inr ⟨hb, hg⟩
  have hsome : ∀ b, (s.spihost b).isSome = true → (s'.spihost b).isSome = true := by
    intro b hb
    rw [hhosts]
    by_cases heq : b = d.host
    · subst heq
      rw [Function.update_self]
      rfl
    · rw [Function.update_of_ne heq]
      exact hb
  refine ⟨?_, ?_, ?_, ?_, ?_⟩
  · intro b g hg
    rcases hhost b g hg with ⟨rfl, rfl⟩ | ⟨-, hold⟩
    · obtain ⟨hhw, hintr, -⟩ := hc.host _ h hh
      exact ⟨hhw, hintr, rfl⟩
    · exact hc.host b g hold
  · intro q e he
    rcases hdev q e he with ⟨rfl, rfl⟩ | ⟨-, hold⟩
    · obtain ⟨ht, hr, hb⟩ := hc.device q d hd
      exact ⟨ht, hr, hsome _ hb⟩
    · obtain ⟨ht, hr, hb⟩ := hc.device q e hold
      exact ⟨ht, hr, hsome _ hb⟩
  · intro q e he
    rcases hdev q e he with ⟨rfl, rfl⟩ | ⟨-, hold⟩
    · exact hv.imp id fun hset => hset.1
    · exact hc.flag q e hold
  · intro q e g he hg hsel
    rcases hdev q e he with ⟨rfl, rfl⟩ | ⟨hq, hold⟩
    · rcases hv with hzero | ⟨-, htaken, hconfig, hcur⟩
      · subst hzero
        exact absurd hsel (by decide : ¬ (0 : BitVec 8) = 1)
      · rcases hhost _ g hg with ⟨-, rfl⟩ | ⟨hb, -⟩
        · refine ⟨⟨hconfig, hcur⟩, ?_⟩
          intro m hm
          cases hm
          exact htaken
        · exact absurd rfl hb
    · rcases hhost _ g hg with ⟨hb, -⟩ | ⟨-, holdg⟩
      · exact absurd hsel (hothers q e hq hold hb)
      · exact hc.own q e g hold holdg hsel
  · intro q r e f he hf hb hsel hsel'
    rcases hdev q e he with ⟨rfl, rfl⟩ | ⟨hq, hold⟩
    · rcases hdev r f hf with ⟨rfl, -⟩ | ⟨hr, hold'⟩
      · rfl
      · exact absurd hsel' (hothers r f hr hold' hb.symm)
    · rcases hdev r f hf with ⟨rfl, rfl⟩ | ⟨hr, hold'⟩
      · exact absurd hsel (hothers q e hq hold hb)
      · exact hc.single q r e f hold hold' hb hsel hsel'

theorem Consistent.step (hc : Consistent s) {op : Op} (hok : op.Meets s)
    (hs : opStep gpio s op = some s') : Consistent s' := by
  cases op with
  | select p force =>
    obtain ⟨⟨err, t⟩, hr, rfl⟩ := toOption_map_eq_some.mp hs
    obtain ⟨d, hread, -⟩ := bind_eq_ok.mp hr
    have hd := read_eq_ok.mp hread
    obtain ⟨-, -, h, m, -, -, hh, hm⟩ := hc.parts hd
    have hcase : SelectCase s p force d h m (spiDeviceSelect gpio s p force) :=
      hc.select hd hh hm
    rw [hr] at hcase
    cases hcase with
    | already => exact hc
    | refused => exact hc
    | idle => exact hc
    | strips hsel _ hcomes hconfig hone _ =>
      rcases hok d hd h hh m hm hsel hcomes with ⟨heq, -⟩ | ⟨-, hnone⟩
      · exact absurd heq hconfig
      · exact absurd hnone hone
    | selects hsel hcomes hconfig hselected =>
      obtain ⟨cur, hhost, hcur⟩ := hselected.host
      refine hc.change hd hh hselected.devices hhost ?_ (.inr ⟨rfl, rfl, hconfig, ?_⟩)
      · intro q e _ he hb hset
        obtain ⟨-, htaken⟩ := hc.own q e h he (hb ▸ hh) hset
        cases (htaken m hm).symm.trans hcomes.free
      · split at hcur
        · exact hcur
        · next hno =>
          rcases hok d hd h hh m hm hsel hcomes with ⟨-, hcompares⟩ | ⟨hne, -⟩
          · have hsame : h.current = .device p := by
              by_contra hne
              exact hno (.inr hne)
            unfold Host.current at hsame
            cases hdev : h.cur_device with
            | some i =>
              rw [hdev] at hsame
              exact ⟨i, hcur.trans hdev, hsame⟩
            | none =>
              rw [hdev] at hsame
              rcases hcompares with hforce | hsome | hbelow
              · exact absurd (.inl hforce) hno
              · rw [hdev] at hsome
                cases hsome
              · exact absurd hsame hbelow
          · exact absurd hconfig hne
  | deselect p =>
    obtain ⟨⟨err, t⟩, hr, rfl⟩ := toOption_map_eq_some.mp hs
    obtain ⟨d, hread, -⟩ := bind_eq_ok.mp hr
    have hd := read_eq_ok.mp hread
    obtain ⟨n, k, h, m, ht, hret, hh, hm⟩ := hc.parts hd
    have hcase := spiDeviceDeselect_cases hd hh hm ht hret
    rw [hr] at hcase
    cases hcase with
    | unchanged => exact hc
    | deselects hsel hdevices hhost =>
      have hone : d.cfg.selected = 1 := (hc.flag p d hd).resolve_left hsel
      refine hc.change hd hh hdevices hhost ?_ (.inl rfl)
      intro q e hq he hb hset
      exact hq (hc.single q p e d he hd hb hset hone)

/-- A selection of an attached device does what it is for just when it meets the
    condition. -/
theorem Consistent.selects_iff (hc : Consistent s) (hd : s.devices p = some d) :
    Selects s p (spiDeviceSelect gpio s p force) ↔ Meets s p force := by
  obtain ⟨-, -, h, m, -, -, hh, hm⟩ := hc.parts hd
  -- the condition is about this device and its host
  have hmeets : (d.cfg.selected ≠ 1 → Comes p d h m →
      (h.cur_bus_config = d.bus_config ∧
        (force = true ∨ h.cur_device.isSome = true ∨ h.below ≠ .device p)) ∨
      (h.cur_bus_config ≠ d.bus_config ∧ s.spihost 1 = none)) ↔ Meets s p force := by
    constructor
    · intro hall e he g hg m' hm'
      cases hd.symm.trans he
      cases hh.symm.trans hg
      cases hm.symm.trans hm'
      exact hall
    · intro hmeet
      exact hmeet d hd h hh m hm
  rw [← hmeets]
  have hcase : SelectCase s p force d h m (spiDeviceSelect gpio s p force) :=
    hc.select hd hh hm
  generalize spiDeviceSelect gpio s p force = r at hcase
  cases hcase with
  | already hsel =>
    refine ⟨fun _ hno => absurd hsel hno, fun _ => ?_⟩
    exact ⟨d, h, hd, hh, (hc.own p d h hd hh hsel).1, fun _ _ => ⟨rfl, rfl⟩⟩
  | refused hsel herr hno =>
    refine ⟨fun _ _ hcomes => absurd hcomes hno, fun _ => ?_⟩
    exact (selects_of_error herr).mpr ⟨rfl, rfl⟩
  | idle hsel herr hcomes hconfig hnone =>
    refine ⟨fun _ _ _ => .inr ⟨hconfig, hnone⟩, fun _ => ?_⟩
    exact (selects_of_error herr).mpr ⟨rfl, rfl⟩
  | @strips err s' hsel herr hcomes hconfig hone hstrip =>
    constructor
    · intro hsame
      obtain ⟨hhosts, -⟩ := (selects_of_error herr).mp hsame
      obtain ⟨g, hg⟩ := Option.ne_none_iff_exists'.mp hone
      have hoff := hstrip g ((congrFun hhosts 1).trans hg)
      obtain ⟨-, hon, -⟩ := hc.host 1 g hg
      cases hon.symm.trans hoff
    · intro hall
      rcases hall hsel hcomes with ⟨heq, -⟩ | ⟨-, hnone⟩
      · exact absurd heq hconfig
      · exact absurd hnone hone
  | @selects s' hsel hcomes hconfig hselected =>
    obtain ⟨cur, hhost, hcur⟩ := hselected.host
    have hd' : s'.devices p = some { d with cfg := { d.cfg with selected := 1 } } := by
      rw [hselected.devices, Function.update_self]
    have hh' : s'.spihost d.host = some { h.taken m with cur_device := cur } := by
      rw [hhost, Function.update_self]
    have hothers : ∀ c, c ≠ d.host → s'.spihost c = s.spihost c ∧ s'.module c = s.module c := by
      intro c hc
      rw [hhost, Function.update_of_ne hc]
      exact ⟨rfl, hselected.module c hc⟩
    have hiff : Selects s p (.ok (.ok, s')) ↔ ∃ i, cur = some i ∧ h.device i = .device p := by
      constructor
      · rintro ⟨e, g, he, hg, hown, -⟩
        cases hd'.symm.trans he
        cases hh'.symm.trans hg
        exact hown.device
      · intro hdev
        exact ⟨_, _, hd', hh', ⟨hconfig, hdev⟩, hothers⟩
    rw [hiff]
    by_cases hcond : force = true ∨ h.current ≠ .device p
    · rw [if_pos hcond] at hcur
      refine ⟨fun _ _ _ => .inl ⟨hconfig, ?_⟩, fun _ => hcur⟩
      rcases hcond with hforce | hne
      · exact .inl hforce
      · cases hdev : h.cur_device with
        | some i => exact .inr (.inl rfl)
        | none =>
          unfold Host.current at hne
          rw [hdev] at hne
          exact .inr (.inr hne)
    · have hforce : ¬ force = true := fun hf => hcond (.inl hf)
      have hsame : h.current = .device p := by
        by_contra hne
        exact hcond (.inr hne)
      rw [if_neg hcond] at hcur
      rw [hcur]
      unfold Host.current at hsame
      cases hdev : h.cur_device with
      | some i =>
        rw [hdev] at hsame
        exact ⟨fun _ _ _ => .inl ⟨hconfig, .inr (.inl rfl)⟩, fun _ => ⟨i, rfl, hsame⟩⟩
      | none =>
        rw [hdev] at hsame
        constructor
        · rintro ⟨i, hi, -⟩
          cases hi
        · intro hall
          rcases hall hsel hcomes with ⟨-, hf | hsome | hbelow⟩ | ⟨hne, -⟩
          · exact absurd hf hforce
          · cases hsome
          · exact absurd hsame hbelow
          · exact absurd hconfig hne

/-- In every sequence of selections and deselections whose selections meet the
    condition, a selection does what it is for just when it meets the condition. -/
theorem spiDeviceSelect_selects_iff {s₀ : Spi} (hattached : Attached s₀)
    (h : (selections gpio s₀).Reach (fun s op => op.Meets s) s) (hd : s.devices p = some d) :
    Selects s p (spiDeviceSelect gpio s p force) ↔ Meets s p force := by
  have hc : Consistent s := by
    apply Lts.Reach.invariant (L := selections gpio s₀) _ _ h
    · rintro s rfl
      exact hattached.consistent
    · intro s op s' hc hok hs
      exact hc.step hok hs
  exact hc.selects_iff hd

end Sequences

/-! ## Two hosts -/

def attachedDevice (b : Nat) (bus_config : BusConfig) : Device :=
  ⟨some 0, some 0, ⟨0, 0, 0, 0, 128, 0, 0, 1000000, -1, 25, -1, 16, 3, 0⟩, b, bus_config⟩

def attachedHost (bus_config : BusConfig) (first second : Nat) : Host :=
  { Host.zero .null with
    device := fun i =>
      if i.val = 0 then .device first else if i.val = 1 then .device second else .null
    intr := true, hw := true, cur_device := none, spi_bus_mutex := some xSemaphoreCreate
    cur_bus_config := bus_config }

/-- Devices 10 and 11 on host 1, and 20 and 21 on host 2, where 21 has other pins than
    the bus is set to. -/
def twoHosts : Spi where
  spihost b :=
    if b = 1 then some (attachedHost ⟨13, 12, 14, -1, -1⟩ 10 11)
    else if b = 2 then some (attachedHost ⟨23, 19, 18, -1, -1⟩ 20 21) else none
  devices p :=
    if p = 10 ∨ p = 11 then some (attachedDevice 1 ⟨13, 12, 14, -1, -1⟩)
    else if p = 20 then some (attachedDevice 2 ⟨23, 19, 18, -1, -1⟩)
    else if p = 21 then some (attachedDevice 2 ⟨23, 22, 18, -1, -1⟩) else none
  module _ := ⟨true, true, true, .zero⟩
  level _ := true

def allPins : Gpio := ⟨fun _ => true, fun _ => true⟩

theorem twoHosts_attached : Attached twoHosts := by
  have hdevices : ∀ p d, twoHosts.devices p = some d →
      ∃ b c, (b = 1 ∨ b = 2) ∧ d = attachedDevice b c := by
    intro p d hd
    unfold twoHosts at hd
    dsimp only at hd
    split at hd
    · exact ⟨1, _, .inl rfl, (Option.some.inj hd).symm⟩
    · split at hd
      · exact ⟨2, _, .inr rfl, (Option.some.inj hd).symm⟩
      · split at hd
        · exact ⟨2, _, .inr rfl, (Option.some.inj hd).symm⟩
        · cases hd
  refine ⟨?_, ?_, ?_⟩
  · intro b h hb
    unfold twoHosts at hb
    dsimp only at hb
    split at hb
    · cases hb
      exact ⟨rfl, rfl, rfl⟩
    · split at hb
      · cases hb
        exact ⟨rfl, rfl, rfl⟩
      · cases hb
  · intro p d hd
    obtain ⟨b, c, hb, rfl⟩ := hdevices p d hd
    refine ⟨rfl, rfl, ?_⟩
    rcases hb with rfl | rfl
    · rfl
    · rfl
  · intro p d hd
    obtain ⟨b, c, -, rfl⟩ := hdevices p d hd
    rfl

/-- Selections in turn on both hosts, each with the configuration of its bus. -/
theorem spiDeviceSelect_selects_turns : ∃ s,
    (selections allPins twoHosts).Reach (fun s op => op.Meets s) s ∧
      Selects s 11 (spiDeviceSelect allPins s 11 false) := by
  have hrun : (([.select 10 true, .select 20 true, .deselect 10] : List Op).foldlM
      (Lts.guarded (fun s op => op.Meets s) (opStep allPins)) twoHosts).any
      (fun s => decide (Meets s 11 false) && (s.devices 11).isSome) = true := by
    decide +kernel
  obtain ⟨s, hs, hend⟩ := (Option.any_eq_true ..).mp hrun
  obtain ⟨hmeets, hsome⟩ := Bool.and_eq_true_iff.mp hend
  obtain ⟨d, hd⟩ := Option.isSome_iff_exists.mp hsome
  have hreach : (selections allPins twoHosts).Reach (fun s op => op.Meets s) s :=
    Lts.Reach.schedule _ hs
  refine ⟨s, hreach, ?_⟩
  exact (spiDeviceSelect_selects_iff twoHosts_attached hreach hd).mpr (of_decide_eq_true hmeets)

/-- A selection on host 2 of a device with other pins fails, and stops host 1. -/
theorem spiDeviceSelect_strips_host : Attached twoHosts ∧
    (∃ s', spiDeviceSelect allPins twoHosts 21 true = .ok (.invalidArg, s') ∧
      (twoHosts.module 1).enabled = true ∧ (s'.module 1).enabled = false) ∧
    ¬ Selects twoHosts 21 (spiDeviceSelect allPins twoHosts 21 true) := by
  have hrun : (spiDeviceSelect allPins twoHosts 21 true).toOption.any (fun r =>
      decide (r.1 = .invalidArg ∧ (r.2.module 1).enabled = false)) = true := by
    decide +kernel
  obtain ⟨⟨err, s'⟩, hs, hend⟩ := (Option.any_eq_true ..).mp hrun
  obtain ⟨herr, hoff⟩ := of_decide_eq_true hend
  have hselect := toOption_eq_some.mp hs
  dsimp only at herr hoff
  subst herr
  refine ⟨twoHosts_attached, ⟨s', hselect, rfl, hoff⟩, ?_⟩
  have herr : EspErr.invalidArg ≠ .ok := nofun
  rw [hselect, selects_of_error herr]
  rintro ⟨-, hmodule⟩
  rw [hmodule] at hoff
  cases hoff

end LuaRtos.SpiBus
