/-
  LuaRtos.Drivers.EspiTables

  When `espi_init` and `espi_deinit` keep the tables sound.

  `Tables` is what every sequence of proper calls keeps.  Each call is proper just
  when it meets the condition `Attach.Ok`.
-/

import LuaRtos.Drivers.EspiDevices

namespace LuaRtos.SpiBus

open CLib Rtos

/-- The tables, with what the calls rely on besides. -/
structure Tables (s : Spi) : Prop where
  whole : ∀ b h, b ≤ 2 → s.spihost b = some h → h.hw = true ∧ h.cur_trans = false
  live : ∀ b h i, b ≤ 2 → s.spihost b = some h → h.device i ≠ .null →
    ∃ p d, h.device i = .device p ∧ s.devices p = some d ∧ d.host = b
  once : ∀ b h i j p, b ≤ 2 → s.spihost b = some h → h.device i = .device p →
    h.device j = .device p → i = j
  line : ∀ b h i p d, b ≤ 2 → s.spihost b = some h → h.device i = .device p →
    s.devices p = some d → 0 < d.cfg.spics_io_num → i.val < NO_CS

theorem Boot.tables {s : Spi} (h : Boot s) : Tables s := by
  have hnone : ∀ b g, b ≤ 2 → s.spihost b ≠ some g := by
    intro b g hb hg
    cases (h.host b hb).symm.trans hg
  refine ⟨?_, ?_, ?_, ?_⟩
  · intro b g hb hg
    exact absurd hg (hnone b g hb)
  · intro b g i hb hg
    exact absurd hg (hnone b g hb)
  · intro b g i j p hb hg
    exact absurd hg (hnone b g hb)
  · intro b g i p d hb hg
    exact absurd hg (hnone b g hb)

section Tables

variable {gpio : Gpio} {s s' : Spi} {b p : Nat} {h : Host} {d : Device} {i : Fin NO_DEV}
variable {cfg : DeviceConfig} {bus_config : BusConfig} {env : Resources}

theorem Tables.congr (ht : Tables s) (hhost : s'.spihost = s.spihost)
    (hdevices : s'.devices = s.devices) : Tables s' := by
  refine ⟨?_, ?_, ?_, ?_⟩
  · rw [hhost]
    exact ht.whole
  · rw [hhost, hdevices]
    exact ht.live
  · rw [hhost]
    exact ht.once
  · rw [hhost, hdevices]
    exact ht.line

/-- No more than three devices have one of the three lines. -/
theorem Tables.sound (ht : Tables s) : Sound s := by
  refine ⟨ht.live, ht.once, ?_, ?_⟩
  · intro b h _ _
    calc (Finset.univ.filter fun i => h.device i ≠ .null).card
        ≤ (Finset.univ : Finset (Fin NO_DEV)).card := Finset.card_filter_le ..
      _ = NO_DEV := Finset.card_fin _
  · intro b h hb hh
    calc (Finset.univ.filter fun i => s.driven h i = true).card
        ≤ (Finset.univ.filter fun i : Fin NO_DEV => i.val < NO_CS).card := by
          apply Finset.card_le_card
          intro i hi
          obtain ⟨-, hdriven⟩ := Finset.mem_filter.mp hi
          apply Finset.mem_filter.mpr
          refine ⟨Finset.mem_univ i, ?_⟩
          unfold Spi.driven at hdriven
          split at hdriven
          · next p hp =>
            obtain ⟨d, hd, hpos⟩ := (Option.any_eq_true ..).mp hdriven
            exact ht.line b h i p d hb hh hp hd (of_decide_eq_true hpos)
          · cases hdriven
      _ = NO_CS := by decide

/-- The slots of a host point to devices, so to none at an address where there is none. -/
theorem Tables.slot_ne (ht : Tables s) (hb : b ≤ 2) (hh : s.spihost b = some h)
    (hp : s.devices p = none) (j : Fin NO_DEV) : h.device j ≠ .device p := by
  intro hj
  obtain ⟨q, d, hq, hd, -⟩ := ht.live b h j hb hh (by rw [hj]; nofun)
  cases hj.symm.trans hq
  cases hp.symm.trans hd

theorem freecs_eq_some {n : Nat} (hi : h.freecs n = some i) : i.val < n ∧ h.device i = .null := by
  have hfound := List.find?_some hi
  exact of_decide_eq_true hfound

/-- A device in an empty slot. -/
theorem Tables.add (ht : Tables s) (hb : b ≤ 2) (hh : s.spihost b = some h)
    (hi : h.device i = .null) (hp : s.devices p = none) (hd : d.host = b)
    (hline : 0 < d.cfg.spics_io_num → i.val < NO_CS)
    (hhost : s'.spihost = Function.update s.spihost b (some (h.setSlot i (.device p))))
    (hdevices : s'.devices = Function.update s.devices p (some d)) : Tables s' := by
  have hgone : ∀ c g j, c ≤ 2 → s.spihost c = some g → g.device j ≠ .device p := by
    intro c g j hc hg
    exact ht.slot_ne hc hg hp j
  have hcases : ∀ c g, s'.spihost c = some g → c = b ∧ g = h.setSlot i (.device p) ∨
      c ≠ b ∧ s.spihost c = some g := by
    intro c g hg
    rw [hhost] at hg
    by_cases hc : c = b
    · subst hc
      rw [Function.update_self] at hg
      exact .inl ⟨rfl, (Option.some.inj hg).symm⟩
    · rw [Function.update_of_ne hc] at hg
      exact .inr ⟨hc, hg⟩
  have hslot : ∀ j, j = i ∧ (h.setSlot i (.device p)).device j = .device p ∨
      j ≠ i ∧ (h.setSlot i (.device p)).device j = h.device j := by
    intro j
    by_cases hj : j = i
    · subst hj
      exact .inl ⟨rfl, Function.update_self ..⟩
    · exact .inr ⟨hj, Function.update_of_ne hj ..⟩
  have hdev : ∀ q e, q ≠ p → s.devices q = some e → s'.devices q = some e := by
    intro q e hq he
    rw [hdevices, Function.update_of_ne hq]
    exact he
  have hdev' : ∀ q e, q ≠ p → s'.devices q = some e → s.devices q = some e := by
    intro q e hq he
    rwa [hdevices, Function.update_of_ne hq] at he
  have hself : s'.devices p = some d := by
    rw [hdevices, Function.update_self]
  refine ⟨?_, ?_, ?_, ?_⟩
  · intro c g hc hg
    rcases hcases c g hg with ⟨rfl, rfl⟩ | ⟨-, hold⟩
    · exact ht.whole c h hc hh
    · exact ht.whole c g hc hold
  · intro c g j hc hg hne
    have hold : ∀ g', s.spihost c = some g' → g'.device j ≠ .null → ∃ q e,
        g'.device j = .device q ∧ s'.devices q = some e ∧ e.host = c := by
      intro g' hg' hne'
      obtain ⟨q, e, hq, he, hec⟩ := ht.live c g' j hc hg' hne'
      refine ⟨q, e, hq, hdev q e ?_ he, hec⟩
      rintro rfl
      exact hgone c g' j hc hg' hq
    rcases hcases c g hg with ⟨rfl, rfl⟩ | ⟨-, hg'⟩
    · rcases hslot j with ⟨-, hnew⟩ | ⟨-, hsame⟩
      · exact ⟨p, d, hnew, hself, hd⟩
      · rw [hsame] at hne ⊢
        exact hold h hh hne
    · exact hold g hg' hne
  · intro c g j k q hc hg hj hk
    rcases hcases c g hg with ⟨rfl, rfl⟩ | ⟨-, hold⟩
    · rcases hslot j with ⟨rfl, hnew⟩ | ⟨-, hsame⟩
      · rcases hslot k with ⟨rfl, -⟩ | ⟨-, hsame'⟩
        · rfl
        · cases hnew.symm.trans hj
          exact absurd (hsame'.symm.trans hk) (hgone c h k hc hh)
      · rcases hslot k with ⟨rfl, hnew⟩ | ⟨-, hsame'⟩
        · cases hnew.symm.trans hk
          exact absurd (hsame.symm.trans hj) (hgone c h j hc hh)
        · exact ht.once c h j k q hc hh (hsame.symm.trans hj) (hsame'.symm.trans hk)
    · exact ht.once c g j k q hc hold hj hk
  · intro c g j q e hc hg hj he hpos
    have hold : ∀ g', s.spihost c = some g' → g'.device j = .device q → j.val < NO_CS := by
      intro g' hg' hj'
      have hq : q ≠ p := by
        rintro rfl
        exact hgone c g' j hc hg' hj'
      exact ht.line c g' j q e hc hg' hj' (hdev' q e hq he) hpos
    rcases hcases c g hg with ⟨rfl, rfl⟩ | ⟨-, hg'⟩
    · rcases hslot j with ⟨rfl, hnew⟩ | ⟨-, hsame⟩
      · cases hnew.symm.trans hj
        cases hself.symm.trans he
        exact hline hpos
      · exact hold h hh (hsame.symm.trans hj)
    · exact hold g hg' hj

/-- A host that is initialized has an empty table. -/
theorem Tables.start (ht : Tables s) (hhost : s'.spihost = Function.update s.spihost b (some h))
    (hdevices : s'.devices = s.devices) (hempty : ∀ i, h.device i = .null)
    (hhw : h.hw = true) (hcur : h.cur_trans = false) : Tables s' := by
  have hcases : ∀ c g, s'.spihost c = some g → g = h ∨ s.spihost c = some g := by
    intro c g hg
    rw [hhost] at hg
    by_cases hc : c = b
    · subst hc
      rw [Function.update_self] at hg
      exact .inl (Option.some.inj hg).symm
    · rw [Function.update_of_ne hc] at hg
      exact .inr hg
  refine ⟨?_, ?_, ?_, ?_⟩
  · intro c g hc hg
    rcases hcases c g hg with rfl | hold
    · exact ⟨hhw, hcur⟩
    · exact ht.whole c g hc hold
  · intro c g j hc hg hne
    rcases hcases c g hg with rfl | hold
    · exact absurd (hempty j) hne
    · rw [hdevices]
      exact ht.live c g j hc hold hne
  · intro c g j k q hc hg hj hk
    rcases hcases c g hg with rfl | hold
    · cases (hempty j).symm.trans hj
    · exact ht.once c g j k q hc hold hj hk
  · intro c g j q e hc hg hj he hpos
    rcases hcases c g hg with rfl | hold
    · cases (hempty j).symm.trans hj
    · rw [hdevices] at he
      exact ht.line c g j q e hc hold hj he hpos

/-! ## The outcomes of the parts -/

/-- The device can be given a slot. -/
def Host.Fits (gpio : Gpio) (b : Nat) (h : Host) (cfg : DeviceConfig) : Prop :=
  b ≤ 2 ∧ cfg.checked gpio = true ∧ (h.freecs cfg.maxdev).isSome = true

/-- The outcomes of `spi_bus_add_device`. -/
inductive AddCase (gpio : Gpio) (env : Resources) (s : Spi) (b : Nat) (cfg : DeviceConfig)
    (bus_config : BusConfig) (h : Host) : Result (EspErr × Option Nat × Spi) → Prop
  | refused {err : EspErr} (hno : ¬ h.Fits gpio b cfg) :
      AddCase gpio env s b cfg bus_config h (.ok (err, none, s))
  | reserved {err : EspErr} {i : Fin NO_DEV} (hfits : h.Fits gpio b cfg)
      (hno : ¬ (cfg.pretransOk = true ∧ env.device.isSome = true)) :
      AddCase gpio env s b cfg bus_config h (.ok (err, none, s.setHost b (h.setSlot i .dummy)))
  | added {i : Fin NO_DEV} {p : Nat} {s' : Spi} (hfits : h.Fits gpio b cfg)
      (hfree : h.freecs cfg.maxdev = some i) (hpre : cfg.pretransOk = true)
      (hdevice : env.device = some p)
      (hhost : s'.spihost = Function.update s.spihost b (some (h.setSlot i (.device p))))
      (hdevices : s'.devices =
        Function.update s.devices p (some (newDevice env b cfg bus_config))) :
      AddCase gpio env s b cfg bus_config h (.ok (.ok, some p, s'))

theorem setPins_tables (s : Spi) (cfg : DeviceConfig) :
    (s.setPins cfg).spihost = s.spihost ∧ (s.setPins cfg).devices = s.devices := by
  unfold Spi.setPins
  split
  · split
    · exact ⟨rfl, rfl⟩
    · exact ⟨rfl, rfl⟩
  · split
    · exact ⟨rfl, rfl⟩
    · exact ⟨rfl, rfl⟩

theorem spiBusAddDevice_refused (hh : s.spihost b = some h) (hno : ¬ h.Fits gpio b cfg) :
    ∃ err, spiBusAddDevice gpio env s b cfg bus_config = .ok (err, none, s) := by
  unfold spiBusAddDevice
  by_cases hb : 2 < b
  · rw [if_pos hb]
    exact ⟨_, rfl⟩
  rw [if_neg hb, hh]
  dsimp only
  by_cases hchecked : cfg.checked gpio = true
  · rw [if_neg (not_not_intro hchecked)]
    cases hfree : h.freecs cfg.maxdev with
    | none => exact ⟨_, rfl⟩
    | some i =>
      apply absurd _ hno
      refine ⟨Nat.not_lt.mp hb, hchecked, ?_⟩
      rw [hfree]
      rfl
  · rw [if_pos hchecked]
    exact ⟨_, rfl⟩

theorem spiBusAddDevice_cases (hh : s.spihost b = some h) (hhw : h.hw = true) :
    AddCase gpio env s b cfg bus_config h (spiBusAddDevice gpio env s b cfg bus_config) := by
  by_cases hfits : h.Fits gpio b cfg
  · obtain ⟨hb, hchecked, hsome⟩ := id hfits
    obtain ⟨i, hfree⟩ := Option.isSome_iff_exists.mp hsome
    unfold spiBusAddDevice
    rw [if_neg (Nat.not_lt.mpr hb), hh]
    dsimp only
    rw [if_neg (not_not_intro hchecked), hfree]
    dsimp only
    by_cases hpre : cfg.pretransOk = true
    · rw [if_neg (not_not_intro hpre)]
      cases hdevice : env.device with
      | none =>
        refine .reserved hfits fun hall => ?_
        have hmem := hall.2
        rw [hdevice] at hmem
        cases hmem
      | some p =>
        dsimp only
        rw [if_neg (not_not_intro hhw)]
        obtain ⟨hhost, hdevices⟩ := setPins_tables
          ((s.setHost b (h.setSlot i (.device p))).setDevice p
            (newDevice env b cfg bus_config)) (newDevice env b cfg bus_config).cfg
        exact .added hfits hfree hpre hdevice hhost hdevices
    · rw [if_pos hpre]
      exact .reserved hfits fun hall => hpre hall.1
  · obtain ⟨err, hr⟩ : ∃ err, spiBusAddDevice gpio env s b cfg bus_config = .ok (err, none, s) :=
      spiBusAddDevice_refused hh hfits
    rw [hr]
    exact .refused hfits

/-- A device is removed if its queues are there. -/
theorem spiBusRemoveDevice_new (hd : s.devices p = some (newDevice env b cfg bus_config))
    (hh : s.spihost b = some h) (hcur : h.cur_trans = false) :
    (env.trans_queue = true ∧ env.ret_queue = true ∧ ∃ s', spiBusRemoveDevice s p = .ok (.ok, s') ∧
      s'.spihost = Function.update s.spihost b (some (h.clear p)) ∧
      s'.devices = Function.update s.devices p none) ∨
    ¬ (env.trans_queue = true ∧ env.ret_queue = true) ∧
      ∃ f, spiBusRemoveDevice s p = .error f := by
  have hidle : ¬ (h.cur_trans = true ∧ h.current = .device p) := by
    rintro ⟨hset, -⟩
    cases hcur.symm.trans hset
  unfold spiBusRemoveDevice
  rw [read_eq_ok.mpr hd, ok_bind]
  unfold newDevice
  cases htrans : env.trans_queue with
  | false => exact .inr ⟨(nomatch ·.1), .nullDeref, rfl⟩
  | true =>
    dsimp only
    rw [if_pos rfl, host_eq_ok.mpr hh]
    cases hret : env.ret_queue with
    | false =>
      refine .inr ⟨(nomatch ·.2), .nullDeref, ?_⟩
      simp only [uxQueueMessagesWaiting, pure_eq_ok, ok_bind, if_neg hidle]
      rfl
    | true =>
      refine .inl ⟨rfl, rfl, { s.setHost b (h.clear p) with
        devices := Function.update s.devices p none }, ?_, rfl, rfl⟩
      simp only [uxQueueMessagesWaiting, pure_eq_ok, ok_bind, if_neg hidle]
      rfl

/-- A device that was added is as if it had not been. -/
theorem clear_setSlot (hi : h.device i = .null) (hnone : ∀ j, h.device j ≠ .device p) :
    (h.setSlot i (.device p)).clear p = h := by
  have htable : ((h.setSlot i (.device p)).clear p).device = h.device := by
    funext j
    by_cases hj : j = i
    · subst hj
      rw [hi]
      exact if_pos (Function.update_self ..)
    · have hold : (h.setSlot i (.device p)).device j = h.device j := Function.update_of_ne hj ..
      show (if (h.setSlot i (.device p)).device j = .device p then .null
        else (h.setSlot i (.device p)).device j) = h.device j
      rw [hold, if_neg (hnone j)]
  show { h with device := ((h.setSlot i (.device p)).clear p).device } = h
  rw [htable]

/-! ## The calls -/

/-- The rest of `espi_init`, once the host is in use. -/
def initDevice (gpio : Gpio) (env : Resources) (s : Spi) (b : Nat) (cfg : DeviceConfig)
    (bus_config : BusConfig) : Result (Option EspiError × Option Nat × Spi) := do
  let (_, hndl, s) ← spiBusAddDevice gpio env s b cfg bus_config
  match hndl with
  | none => pure (some .cantInit, none, s)
  | some p =>
    if env.granted then pure (none, some p, s)
    else do
      let (_, s) ← spiBusRemoveDevice s p
      pure (some .lock, none, s)

/-- Its outcomes. -/
inductive InitCase (gpio : Gpio) (env : Resources) (s : Spi) (b : Nat) (cfg : DeviceConfig)
    (h : Host) : Result (Option EspiError × Option Nat × Spi) → Prop
  | refused {err : EspiError} (hno : ¬ h.Fits gpio b cfg) :
      InitCase gpio env s b cfg h (.ok (some err, none, s))
  | reserved {err : EspiError} {i : Fin NO_DEV} (hfits : h.Fits gpio b cfg)
      (hno : ¬ (cfg.pretransOk = true ∧ env.device.isSome = true)) :
      InitCase gpio env s b cfg h (.ok (some err, none, s.setHost b (h.setSlot i .dummy)))
  | attached {p : Nat} {s' : Spi} (hfits : h.Fits gpio b cfg) (hpre : cfg.pretransOk = true)
      (hdevice : env.device = some p) (hgranted : env.granted = true) (ht : Tables s') :
      InitCase gpio env s b cfg h (.ok (none, some p, s'))
  | unlocked {err : EspiError} {s' : Spi} (hfits : h.Fits gpio b cfg)
      (hpre : cfg.pretransOk = true) (hdevice : env.device.isSome = true)
      (hno : ¬ env.granted = true) (hqueues : env.trans_queue = true ∧ env.ret_queue = true)
      (hhost : s'.spihost = s.spihost) (hdevices : s'.devices = s.devices) :
      InitCase gpio env s b cfg h (.ok (some err, none, s'))
  | faults {f : Fault} (hfits : h.Fits gpio b cfg) (hno : ¬ env.granted = true)
      (hqueues : ¬ (env.trans_queue = true ∧ env.ret_queue = true)) :
      InitCase gpio env s b cfg h (.error f)

theorem initDevice_cases (ht : Tables s) (hh : s.spihost b = some h) (hb : h.hw = true)
    (hcur : h.cur_trans = false) (hfresh : ∀ p ∈ env.device, s.devices p = none) :
    InitCase gpio env s b cfg h (initDevice gpio env s b cfg bus_config) := by
  unfold initDevice
  have hadd : AddCase gpio env s b cfg bus_config h
      (spiBusAddDevice gpio env s b cfg bus_config) := spiBusAddDevice_cases hh hb
  generalize spiBusAddDevice gpio env s b cfg bus_config = r at hadd
  cases hadd with
  | refused hno => exact .refused hno
  | reserved hfits hno => exact .reserved hfits hno
  | @added i p s₁ hfits hfree hpre hdevice hhost hdevices =>
    obtain ⟨hlt, hempty⟩ := freecs_eq_some hfree
    have hp := hfresh p hdevice
    have hnone : ∀ j, h.device j ≠ .device p := ht.slot_ne hfits.1 hh hp
    have hline : 0 < (newDevice env b cfg bus_config).cfg.spics_io_num → i.val < NO_CS := by
      intro hpos
      have hpos' : 0 < cfg.spics_io_num := hpos
      unfold DeviceConfig.maxdev at hlt
      rwa [if_pos hpos'] at hlt
    have ht₁ : Tables s₁ := ht.add hfits.1 hh hempty hp rfl hline hhost hdevices
    rw [ok_bind]
    dsimp only
    by_cases hgranted : env.granted = true
    · rw [if_pos hgranted]
      exact .attached hfits hpre hdevice hgranted ht₁
    · have hd₁ : s₁.devices p = some (newDevice env b cfg bus_config) := by
        rw [hdevices, Function.update_self]
      have hh₁ : s₁.spihost b = some (h.setSlot i (.device p)) := by
        rw [hhost, Function.update_self]
      rw [if_neg hgranted]
      rcases spiBusRemoveDevice_new hd₁ hh₁ hcur with
        ⟨htrans, hret, s₂, hremove, hhost₂, hdevices₂⟩ | ⟨hqueues, f, hremove⟩
      · rw [hremove, ok_bind]
        refine .unlocked hfits hpre ?_ hgranted ⟨htrans, hret⟩ ?_ ?_
        · rw [hdevice]
          rfl
        · rw [hhost₂, hhost, clear_setSlot hempty hnone, Function.update_idem, ← hh,
            Function.update_eq_self]
        · rw [hdevices₂, hdevices, Function.update_idem, ← hp, Function.update_eq_self]
      · rw [hremove]
        exact .faults hfits hgranted hqueues

/-- A slot that holds the dummy pointer points to no device. -/
theorem not_sound_dummy (hb : b ≤ 2) : ¬ Sound (s.setHost b (h.setSlot i .dummy)) := by
  intro hsound
  have hdummy : (h.setSlot i .dummy).device i = .dummy := Function.update_self ..
  obtain ⟨p, d, hp, -⟩ := hsound.live b _ i hb spihost_setHost (by rw [hdummy]; nofun)
  cases hdummy.symm.trans hp

/-- `espi_init` on a host in use. -/
theorem espiInit_some (hh : s.spihost b = some h) : espiInit gpio env s b cfg bus_config =
    initDevice gpio env s b cfg bus_config := by
  unfold espiInit
  rw [hh]
  rfl

/-- `espi_init` on a host that is not. -/
theorem espiInit_none (hh : s.spihost b = none) : espiInit gpio env s b cfg bus_config =
    (let (err, s) := spiBusInitialize gpio env.host env.below s b bus_config 1
    if err ≠ .ok then .ok (some .cantInit, none, s)
    else initDevice gpio env s b cfg bus_config) := by
  unfold espiInit
  rw [hh]
  rfl

theorem proper_init : Proper gpio s (.init b cfg bus_config env) ↔ ∃ err hndl s',
    espiInit gpio env s b cfg bus_config = .ok (err, hndl, s') ∧ Sound s' ∧
      (err ≠ none → s'.spihost = s.spihost ∧ s'.devices = s.devices) :=
  Iff.rfl

/-- The call keeps the invariant, too. -/
def Kept (gpio : Gpio) (s : Spi) (b : Nat) (cfg : DeviceConfig) (bus_config : BusConfig)
    (env : Resources) : Prop :=
  ∃ err hndl s', espiInit gpio env s b cfg bus_config = .ok (err, hndl, s') ∧ Tables s' ∧
    (err ≠ none → s'.spihost = s.spihost ∧ s'.devices = s.devices)

theorem Kept.proper (h : Kept gpio s b cfg bus_config env) :
    Proper gpio s (.init b cfg bus_config env) := by
  obtain ⟨err, hndl, s', hr, ht, hsame⟩ := h
  exact ⟨err, hndl, s', hr, ht.sound, hsame⟩

/-- On a host in use the call is proper just when what reserves a slot goes on. -/
theorem espiInit_some_iff (ht : Tables s) (hh : s.spihost b = some h)
    (hfresh : ∀ p ∈ env.device, s.devices p = none) :
    (Proper gpio s (.init b cfg bus_config env) → AddsOk gpio b h cfg env) ∧
      (AddsOk gpio b h cfg env → Kept gpio s b cfg bus_config env) := by
  by_cases hfits : h.Fits gpio b cfg
  · obtain ⟨hhw, hcur⟩ := ht.whole b h hfits.1 hh
    have hcase : InitCase gpio env s b cfg h (espiInit gpio env s b cfg bus_config) := by
      rw [espiInit_some hh]
      exact initDevice_cases ht hh hhw hcur hfresh
    rw [proper_init, Kept]
    generalize espiInit gpio env s b cfg bus_config = r at hcase ⊢
    cases hcase with
    | refused hno => exact absurd hfits hno
    | reserved _ hno =>
      constructor
      · rintro ⟨err, hndl, s', hr, hsound, -⟩
        cases hr
        exact absurd hsound (not_sound_dummy hfits.1)
      · intro hok
        obtain ⟨hpre, hdevice, -⟩ := hok hfits
        exact absurd ⟨hpre, hdevice⟩ hno
    | attached _ hpre hdevice hgranted ht' =>
      constructor
      · intro _ _
        refine ⟨hpre, ?_, .inl hgranted⟩
        rw [hdevice]
        rfl
      · intro _
        exact ⟨_, _, _, rfl, ht', fun hne => absurd rfl hne⟩
    | unlocked _ hpre hdevice hno hqueues hhost hdevices =>
      constructor
      · intro _ _
        exact ⟨hpre, hdevice, .inr hqueues⟩
      · intro _
        exact ⟨_, _, _, rfl, ht.congr hhost hdevices, fun _ => ⟨hhost, hdevices⟩⟩
    | faults _ hno hqueues =>
      constructor
      · rintro ⟨err, hndl, s', hr, -⟩
        cases hr
      · intro hok
        obtain ⟨-, -, hgranted | hboth⟩ := hok hfits
        · exact absurd hgranted hno
        · exact absurd hboth hqueues
  · obtain ⟨err, hr⟩ : ∃ err, spiBusAddDevice gpio env s b cfg bus_config = .ok (err, none, s) :=
      spiBusAddDevice_refused hh hfits
    have hinit : espiInit gpio env s b cfg bus_config = .ok (some .cantInit, none, s) := by
      rw [espiInit_some hh, initDevice, hr]
      rfl
    constructor
    · intro _ hfits'
      exact absurd hfits' hfits
    · intro _
      exact ⟨_, _, _, hinit, ht, fun _ => ⟨rfl, rfl⟩⟩

/-- The outcomes of `spi_bus_initialize` on a host that is not in use. -/
theorem spiBusInitialize_first (gpio : Gpio) (env : Resources) (bus_config : BusConfig)
    (hh : s.spihost b = none) :
    (¬ ((b = 1 ∨ b = 2) ∧ bus_config.valid gpio = true ∧ env.host.host = true) ∧
      ∃ err, spiBusInitialize gpio env.host env.below s b bus_config 1 = (err, s) ∧ err ≠ .ok) ∨
    ((b = 1 ∨ b = 2) ∧ bus_config.valid gpio = true ∧ env.host.host = true) ∧
      (env.host.mutex = false ∧ spiBusInitialize gpio env.host env.below s b bus_config 1 =
          (.noMem, s.setHost b (.zero env.below)) ∨
        env.host.mutex = true ∧ spiBusInitialize gpio env.host env.below s b bus_config 1 =
          (.ok, initializeHost s b
            { Host.zero env.below with spi_bus_mutex := some xSemaphoreCreate }
            bus_config true)) := by
  unfold spiBusInitialize
  rw [if_neg (by decide), if_pos (by decide), hh]
  by_cases hzero : b = 0
  · rw [if_pos hzero]
    exact .inl ⟨fun hall => by omega, _, rfl, nofun⟩
  rw [if_neg hzero]
  by_cases hlt : 2 < b
  · rw [if_pos hlt]
    exact .inl ⟨fun hall => by omega, _, rfl, nofun⟩
  rw [if_neg hlt, if_neg (by decide)]
  by_cases hvalid : bus_config.valid gpio = true
  · rw [if_neg (not_not_intro hvalid)]
    cases hhost : env.host.host with
    | false => exact .inl ⟨fun hall => (nomatch hall.2.2), _, rfl, nofun⟩
    | true =>
      rw [if_neg (by decide)]
      refine .inr ⟨⟨by omega, hvalid, rfl⟩, ?_⟩
      cases hmutex : env.host.mutex with
      | false => exact .inl ⟨rfl, rfl⟩
      | true => exact .inr ⟨rfl, rfl⟩
  · rw [if_pos hvalid]
    exact .inl ⟨fun hall => hvalid hall.2.1, _, rfl, nofun⟩

/-- Where the host is in use afterwards, a failed call has changed the tables. -/
theorem not_proper_start {err : Option EspiError} {hndl : Option Nat}
    (hh : s.spihost b = none)
    (hr : espiInit gpio env s b cfg bus_config = .ok (err, hndl, s')) (herr : err ≠ none)
    (hg : s'.spihost b = some h) : ¬ Proper gpio s (.init b cfg bus_config env) := by
  rintro ⟨err', hndl', t, ht, -, hsame⟩
  cases hr.symm.trans ht
  rw [(hsame herr).1, hh] at hg
  cases hg

/-- On a host that is not in use the call is proper just when it fails before it
    gets memory, or succeeds. -/
theorem espiInit_none_iff (ht : Tables s) (hh : s.spihost b = none)
    (hfresh : ∀ p ∈ env.device, s.devices p = none) :
    (Proper gpio s (.init b cfg bus_config env) → StartsOk gpio b cfg bus_config env) ∧
      (StartsOk gpio b cfg bus_config env → Kept gpio s b cfg bus_config env) := by
  rcases spiBusInitialize_first gpio env bus_config hh with
    ⟨hno, err, hr, herr⟩ | ⟨hstart, ⟨hmutex, hr⟩ | ⟨hmutex, hr⟩⟩
  · have hinit : espiInit gpio env s b cfg bus_config = .ok (some .cantInit, none, s) := by
      rw [espiInit_none hh, hr]
      exact if_pos herr
    constructor
    · intro _ hstart
      exact absurd hstart hno
    · intro _
      exact ⟨_, _, _, hinit, ht, fun _ => ⟨rfl, rfl⟩⟩
  · have hinit : espiInit gpio env s b cfg bus_config =
        .ok (some .cantInit, none, s.setHost b (.zero env.below)) := by
      rw [espiInit_none hh, hr]
      rfl
    constructor
    · intro hproper
      exact absurd hproper (not_proper_start hh hinit nofun spihost_setHost)
    · intro hok
      cases hmutex.symm.trans (hok hstart).1
  · obtain ⟨h₁, s₁, hr₁, hhost, hdevices, hempty, hhw, hcur⟩ : ∃ h₁ s₁,
        spiBusInitialize gpio env.host env.below s b bus_config 1 = (.ok, s₁) ∧
        s₁.spihost = Function.update s.spihost b (some h₁) ∧ s₁.devices = s.devices ∧
        (∀ i, h₁.device i = .null) ∧ h₁.hw = true ∧ h₁.cur_trans = false :=
      ⟨_, _, hr, rfl, rfl, fun _ => rfl, rfl, rfl⟩
    have ht₁ : Tables s₁ := ht.start hhost hdevices hempty hhw hcur
    have hh₁ : s₁.spihost b = some h₁ := by
      rw [hhost, Function.update_self]
    have hfresh₁ : ∀ p ∈ env.device, s₁.devices p = none := by
      rw [hdevices]
      exact hfresh
    have hinit : espiInit gpio env s b cfg bus_config =
        initDevice gpio env s₁ b cfg bus_config := by
      rw [espiInit_none hh, hr₁]
      rfl
    -- an empty table has room
    have hfits : cfg.checked gpio = true → h₁.Fits gpio b cfg := by
      intro hchecked
      refine ⟨by omega, hchecked, ?_⟩
      apply List.find?_isSome.mpr
      refine ⟨⟨0, by decide⟩, List.mem_finRange _, decide_eq_true ⟨?_, hempty _⟩⟩
      unfold DeviceConfig.maxdev
      split
      · decide
      · decide
    have hcase : InitCase gpio env s₁ b cfg h₁ (initDevice gpio env s₁ b cfg bus_config) :=
      initDevice_cases ht₁ hh₁ hhw hcur hfresh₁
    generalize initDevice gpio env s₁ b cfg bus_config = r at hcase hinit
    cases hcase with
    | refused hno =>
      constructor
      · intro hproper
        exact absurd hproper (not_proper_start hh hinit nofun hh₁)
      · intro hok
        exact absurd (hfits (hok hstart).2.1) hno
    | reserved _ hno =>
      constructor
      · intro hproper
        exact absurd hproper (not_proper_start hh hinit nofun spihost_setHost)
      · intro hok
        obtain ⟨-, -, hpre, hdevice, -⟩ := hok hstart
        exact absurd ⟨hpre, hdevice⟩ hno
    | attached hfits' hpre hdevice hgranted ht' =>
      constructor
      · intro _ _
        refine ⟨hmutex, hfits'.2.1, hpre, ?_, hgranted⟩
        rw [hdevice]
        rfl
      · intro _
        exact ⟨_, _, _, hinit, ht', fun hne => absurd rfl hne⟩
    | @unlocked err s' _ _ _ hno _ hhost' _ =>
      constructor
      · intro hproper
        have hh' : s'.spihost b = some h₁ := by
          rw [hhost', hh₁]
        exact absurd hproper (not_proper_start hh hinit nofun hh')
      · intro hok
        obtain ⟨-, -, -, -, hgranted⟩ := hok hstart
        exact absurd hgranted hno
    | faults _ hno _ =>
      constructor
      · rintro ⟨err, hndl, t, ht', -⟩
        cases hinit.symm.trans ht'
      · intro hok
        obtain ⟨-, -, -, -, hgranted⟩ := hok hstart
        exact absurd hgranted hno

theorem espiInit_ok (ht : Tables s) (hfresh : ∀ p ∈ env.device, s.devices p = none) :
    (Proper gpio s (.init b cfg bus_config env) →
      (Attach.init b cfg bus_config env).Ok gpio s) ∧
    ((Attach.init b cfg bus_config env).Ok gpio s → Kept gpio s b cfg bus_config env) := by
  cases hh : s.spihost b with
  | none =>
    have hboth : (Proper gpio s (.init b cfg bus_config env) → StartsOk gpio b cfg bus_config env) ∧
        (StartsOk gpio b cfg bus_config env → Kept gpio s b cfg bus_config env) :=
      espiInit_none_iff ht hh hfresh
    obtain ⟨honly, hkept⟩ := hboth
    constructor
    · intro hproper
      refine ⟨?_, fun _ => honly hproper⟩
      intro h hmem
      cases hh.symm.trans hmem
    · intro hok
      apply hkept
      apply hok.2
      rw [hh]
      rfl
  | some h =>
    have hboth : (Proper gpio s (.init b cfg bus_config env) → AddsOk gpio b h cfg env) ∧
        (AddsOk gpio b h cfg env → Kept gpio s b cfg bus_config env) :=
      espiInit_some_iff ht hh hfresh
    obtain ⟨honly, hkept⟩ := hboth
    constructor
    · intro hproper
      refine ⟨?_, ?_⟩
      · intro g hmem
        cases hh.symm.trans hmem
        exact honly hproper
      · intro hnone
        rw [hh] at hnone
        cases hnone
    · intro hok
      exact hkept (hok.1 h hh)

/-- An `espi_deinit` on a host in use takes the variable for a device. -/
theorem espiDeinit_iff (ht : Tables s) {handle : Nat} (hfresh : s.devices handle = none) :
    Proper gpio s (.deinit b handle) ↔ (Attach.deinit b handle).Ok gpio s := by
  show (∃ err s', espiDeinit s b handle = .ok (err, s') ∧ Sound s') ↔ (s.spihost b).isNone = true
  unfold espiDeinit
  constructor
  · rintro ⟨err, s', hr, -⟩
    by_contra hno
    rw [if_neg hno] at hr
    obtain ⟨⟨err₁, s₁⟩, hremove, -⟩ := bind_eq_ok.mp hr
    obtain ⟨d, hread, -⟩ := bind_eq_ok.mp hremove
    cases hfresh.symm.trans (read_eq_ok.mp hread)
  · intro hnone
    rw [if_pos hnone]
    exact ⟨none, s, rfl, ht.sound⟩

theorem Tables.step (ht : Tables s) {c : Attach} (hok : c.Ok gpio s)
    (hs : attachStep gpio s c = some s') : Tables s' := by
  cases c with
  | init b cfg bus_config env =>
    unfold attachStep at hs
    dsimp only at hs
    split at hs
    · next hfresh =>
      obtain ⟨⟨err, hndl, t⟩, hr, rfl⟩ := toOption_map_eq_some.mp hs
      have hfresh' : ∀ p ∈ env.device, s.devices p = none := fun p hp =>
        Option.isNone_iff_eq_none.mp (hfresh p hp)
      obtain ⟨err', hndl', t', hr', ht', -⟩ := (espiInit_ok ht hfresh').2 hok
      cases hr.symm.trans hr'
      exact ht'
    · cases hs
  | deinit b handle =>
    unfold attachStep at hs
    dsimp only at hs
    split at hs
    · obtain ⟨⟨err, t⟩, hr, rfl⟩ := toOption_map_eq_some.mp hs
      have hnone : (s.spihost b).isNone = true := hok
      unfold espiDeinit at hr
      rw [if_pos hnone] at hr
      cases hr
      exact ht
    · cases hs

/-- In every sequence of calls that meet the condition the tables are sound, and the
    next call is proper just when it meets the condition. -/
theorem espi_proper_iff {s₀ : Spi} (hboot : Boot s₀)
    (h : (attachments gpio s₀).Reach (fun s c => c.Ok gpio s) s) {c : Attach}
    (hfresh : c.Fresh s) : Sound s ∧ (Proper gpio s c ↔ c.Ok gpio s) := by
  have ht : Tables s := by
    apply Lts.Reach.invariant (L := attachments gpio s₀) _ _ h
    · rintro s rfl
      exact hboot.tables
    · intro s c s' ht hok hs
      exact ht.step hok hs
  refine ⟨ht.sound, ?_⟩
  cases c with
  | init b cfg bus_config env =>
    obtain ⟨honly, hkept⟩ := espiInit_ok ht hfresh
    exact ⟨honly, fun hok => (hkept hok).proper⟩
  | deinit b handle => exact espiDeinit_iff ht hfresh

end Tables

/-! ## A host with a device -/

/-- Before the first call. -/
def noHosts : Spi := ⟨fun _ => none, fun _ => none, fun _ => ⟨false, false, false, .zero⟩,
  fun _ => false⟩

theorem noHosts_boot : Boot noHosts := ⟨fun _ _ => rfl, fun _ => rfl⟩

def everyPin : Gpio := ⟨fun _ => true, fun _ => true⟩

/-- An `espi_init` on host 1 that finds memory at `p`, with a chip select of its own. -/
def initAt (p : Nat) (cs_ena_pretrans : BitVec 8) (granted : Bool) : Attach :=
  .init 1 ⟨0, 0, 0, 0, 128, cs_ena_pretrans, 0, 1000000, -1, 25, -1, 0, 3, 0⟩
    ⟨13, 12, 14, -1, -1⟩ ⟨⟨true, true⟩, .null, some p, true, true, granted⟩

/-- Two devices are attached, and a third whose pins are refused is not. -/
theorem espi_proper_iff_third : ∃ s, Sound s ∧ Proper everyPin s (initAt 30 0 false) := by
  have hrun : (([initAt 10 0 true, initAt 20 0 true] : List Attach).foldlM
      (Lts.guarded (fun s c => c.Ok everyPin s) (attachStep everyPin)) noHosts).any
      (fun s => decide ((initAt 30 0 false).Ok everyPin s) && (s.devices 30).isNone) = true := by
    decide +kernel
  obtain ⟨s, hs, hend⟩ := (Option.any_eq_true ..).mp hrun
  obtain ⟨hok, hnone⟩ := Bool.and_eq_true_iff.mp hend
  have hfresh : (initAt 30 0 false).Fresh s := by
    intro p hp
    cases hp
    exact Option.isNone_iff_eq_none.mp hnone
  obtain ⟨hsound, hiff⟩ := espi_proper_iff noHosts_boot (Lts.Reach.schedule _ hs) hfresh
  exact ⟨s, hsound, hiff.mpr (of_decide_eq_true hok)⟩

/-- A device with a delay before the transfer in full duplex mode is refused, and its
    slot is left with the dummy pointer. -/
theorem espi_init_dummy : Boot noHosts ∧ ∃ s,
    (attachments everyPin noHosts).Reach (fun _ _ => True) s ∧
      ∃ h, s.spihost 1 = some h ∧ (∃ i, h.device i = .dummy) ∧ ¬ Sound s := by
  have hrun : (([initAt 10 0 true, initAt 20 1 true] : List Attach).foldlM
      (Lts.guarded (fun _ _ => True) (attachStep everyPin)) noHosts).any
      (fun s => (s.spihost 1).any fun h => decide (∃ i, h.device i = .dummy)) = true := by
    decide +kernel
  obtain ⟨s, hs, hend⟩ := (Option.any_eq_true ..).mp hrun
  obtain ⟨h, hh, hdummy⟩ := (Option.any_eq_true ..).mp hend
  obtain ⟨i, hi⟩ := of_decide_eq_true hdummy
  refine ⟨noHosts_boot, s, Lts.Reach.schedule _ hs, h, hh, ⟨i, hi⟩, ?_⟩
  intro hsound
  obtain ⟨p, d, hp, -⟩ := hsound.live 1 h i (by decide) hh (by rw [hi]; nofun)
  cases hi.symm.trans hp

end LuaRtos.SpiBus
