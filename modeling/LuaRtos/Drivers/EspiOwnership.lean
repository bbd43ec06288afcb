/-
  LuaRtos.Drivers.EspiOwnership

  Who has the bus, while several threads select and deselect its devices.

  The flag of a device is tested before the mutex is taken, so that a thread that
  selects a selected device shares it, and the first of the two to deselect gives
  the mutex.  `spi_device_TakeSemaphore` takes twice, `spi_device_GiveSemaphore`
  takes, and two devices may have one pin as chip select.  Without these the bus is
  with nobody, or with one thread at one stage of a pair.
-/

import LuaRtos.Drivers.EspiThreads

namespace LuaRtos.SpiBus

open CLib Rtos

/-! ## The stages of a pair -/

/-- A device, but for what a selection changes. -/
def Device.still (d : Device) : Device := { d with cfg := { d.cfg with selected := 0 } }

/-- What no step changes: the bus, its table, and the devices. -/
structure Layout where
  bus : Nat
  table : Fin NO_DEV → Slot
  dev : Nat → Option Device

/-- How far the thread that has the bus is with its device. -/
inductive Stage where
  | prepared (p : Nat)
  | configured (p : Nat)
  | lowered (p : Nat)
  | selected (p : Nat)
  | raised (p : Nat)
  | cleared (p : Nat)

/-- The device whose flag is set. -/
def Stage.flagged : Stage → Option Nat
  | selected p => some p
  | raised p => some p
  | _ => none

/-- The device whose chip select may be low. -/
def Stage.low : Stage → Option Nat
  | lowered p => some p
  | selected p => some p
  | _ => none

/-- The device that the controller is set to. -/
def Stage.current : Stage → Option Nat
  | prepared _ => none
  | configured p => some p
  | lowered p => some p
  | selected p => some p
  | raised p => some p
  | cleared p => some p

theorem Stage.current_of_low {st : Stage} {p : Nat} (h : st.low = some p) :
    st.current = some p := by
  cases st with
  | lowered q => exact h
  | selected q => exact h
  | prepared q => cases h
  | configured q => cases h
  | raised q => cases h
  | cleared q => cases h

/-- A device that passes the checks, in slot `i`. -/
structure Layout.Checked (L : Layout) (p : Nat) (i : Fin NO_DEV) : Prop where
  slot : L.table i = .device p
  dev : ∃ d, L.dev p = some d ∧ d.host = L.bus ∧ d.trans_queue = some 0 ∧ d.ret_queue = some 0

/-- What the host of the bus holds, at a stage. -/
structure BusAt (L : Layout) (s : Spi) (o : Option Stage) (h : Host) (m : Semaphore Unit) :
    Prop where
  host : s.spihost L.bus = some h
  table : h.device = L.table
  mutex : h.spi_bus_mutex = some m
  available : m.available = true ↔ o = none
  lines : ∀ i, h.cur_device = some i → (s.module L.bus).enabled = true →
    ∀ c : Fin NO_CS, (s.module L.bus).regs.cs_dis c = false → i.val = c.val
  current : ∀ p, o.bind Stage.current = some p →
    ∃ i, h.cur_device = some i ∧ L.table i = .device p

/-- The hosts and devices, at a stage of the pair of the thread that has the bus. -/
structure Agree (L : Layout) (s : Spi) (o : Option Stage) : Prop where
  same : ∀ p, (s.devices p).map Device.still = L.dev p
  bus : ∃ h m, BusAt L s o h m
  flag : ∀ p d, s.devices p = some d → d.host = L.bus →
    d.cfg.selected = if o.bind Stage.flagged = some p then 1 else 0
  level : ∀ p d, s.devices p = some d → d.host = L.bus → d.cfg.ExtCs →
    s.level d.cfg.spics_ext_io_num = false → o.bind Stage.low = some p

section Stages

variable {gpio : Gpio} {L : Layout} {s s' : Spi} {o o' : Option Stage} {h : Host}
variable {m : Semaphore Unit} {p : Nat} {i : Fin NO_DEV} {d : Device}

theorem Agree.still (ha : Agree L s o) (hd : s.devices p = some d) : L.dev p = some d.still := by
  rw [← ha.same p, hd]
  rfl

theorem Agree.device (ha : Agree L s o) (hc : L.Checked p i) : ∃ d, s.devices p = some d ∧
    d.host = L.bus ∧ d.trans_queue = some 0 ∧ d.ret_queue = some 0 := by
  obtain ⟨e, he, hhost, htrans, hret⟩ := hc.dev
  rw [← ha.same p] at he
  obtain ⟨d, hd, rfl⟩ := Option.map_eq_some_iff.mp he
  exact ⟨d, hd, hhost, htrans, hret⟩

theorem BusAt.of_eq (hb : BusAt L s o h m) (hhost : s'.spihost = s.spihost)
    (hmodule : s'.module = s.module) (hnone : o = none ↔ o' = none)
    (hcurrent : ∀ p, o'.bind Stage.current = some p → o.bind Stage.current = some p) :
    BusAt L s' o' h m := by
  refine ⟨?_, hb.table, hb.mutex, hb.available.trans hnone, ?_, ?_⟩
  · rw [hhost]
    exact hb.host
  · rw [hmodule]
    exact hb.lines
  · intro p hp
    exact hb.current p (hcurrent p hp)

/-- A step of the host of the bus. -/
theorem Agree.of_bus (ha : Agree L s o) (hbus : ∃ h m, BusAt L s' o' h m)
    (hdevices : s'.devices = s.devices) (hlevel : s'.level = s.level)
    (hflagged : o'.bind Stage.flagged = o.bind Stage.flagged)
    (hlow : o'.bind Stage.low = o.bind Stage.low) : Agree L s' o' := by
  refine ⟨?_, hbus, ?_, ?_⟩
  · rw [hdevices]
    exact ha.same
  · rw [hdevices, hflagged]
    exact ha.flag
  · rw [hdevices, hlevel, hlow]
    exact ha.level

/-- A take succeeds where nobody has the bus. -/
theorem Agree.takeBus (ha : Agree L s o) (hd : s.devices p = some d) (hb : d.host = L.bus)
    {next next' : Next} (ht : takeBus s p next = .ok (some (s', next'))) :
    o = none ∧ next' = next ∧ Agree L s' (some (.prepared p)) := by
  unfold SpiBus.takeBus at ht
  rw [read_eq_ok.mpr hd, ok_bind, hb] at ht
  obtain ⟨h, m, hbus⟩ := ha.bus
  rw [host_eq_ok.mpr hbus.host, ok_bind] at ht
  obtain ⟨r, htake, hr⟩ := bind_eq_ok.mp ht
  obtain ⟨h', rfl, hs⟩ := Option.map_eq_some_iff.mp (Except.ok.inj hr)
  obtain ⟨m', hm, hfree, rfl⟩ := take_eq_some.mp htake
  cases hs
  rw [hbus.mutex] at hm
  cases hm
  have hnone := hbus.available.mp hfree
  subst hnone
  refine ⟨rfl, rfl, ?_⟩
  refine ha.of_bus ⟨_, _, spihost_setHost, hbus.table, rfl, ?_, hbus.lines, nofun⟩ rfl rfl rfl rfl
  exact ⟨nofun, nofun⟩

/-- Host 1 stripped. -/
theorem BusAt.strip (hb : BusAt L s o h m) {g : Host} (hg : s.spihost 1 = some g) :
    ∃ h' m', BusAt L (s.strip 1 g) o h' m' := by
  by_cases hone : L.bus = 1
  · obtain rfl : g = h := by
      have hhost := hb.host
      rw [hone, hg] at hhost
      exact Option.some.inj hhost
    refine ⟨{ g with intr := false }, m, ?_, hb.table, hb.mutex, hb.available, ?_, hb.current⟩
    · rw [hone]
      exact spihost_setHost
    · intro i _ henabled
      rw [hone, Spi.strip, module_setHost, module_setModule] at henabled
      cases henabled
  · refine ⟨h, m, ?_, hb.table, hb.mutex, hb.available, ?_, hb.current⟩
    · rw [Spi.strip, spihost_setHost_of_ne hone]
      exact hb.host
    · rw [Spi.strip, module_setHost, module_setModule_of_ne hone]
      exact hb.lines

theorem Agree.reconfigureBus (ha : Agree L s (some (.prepared p))) (hc : L.Checked p i)
    {err : EspErr} {j : Fin NO_DEV} (hr : reconfigureBus gpio s p j = .ok (err, s')) :
    Agree L s' (some (.prepared p)) := by
  obtain ⟨d, hd, hb, -, -⟩ := ha.device hc
  obtain ⟨h, m, hbus⟩ := ha.bus
  have hh : s.spihost d.host = some h := hb ▸ hbus.host
  rcases reconfigureBus_cases hd hh hr with ⟨-, -, rfl⟩ | ⟨-, -, ⟨-, rfl⟩ | ⟨g, hg, rfl⟩⟩
  · exact ha
  · exact ha
  · exact ha.of_bus (hbus.strip hg) rfl rfl rfl rfl

/-- The controller is set to a device in slot `i`. -/
theorem Agree.configureDevice (ha : Agree L s (some (.prepared p))) (hc : L.Checked p i)
    {force : Bool} (hok : (Pc.selectConfigures p force i).Disciplined s)
    (hr : configureDevice s p force i = .ok s') : Agree L s' (some (.configured p)) := by
  obtain ⟨d, hd, hb, -, -⟩ := ha.device hc
  obtain ⟨h, m, hbus⟩ := ha.bus
  have hh : s.spihost d.host = some h := hb ▸ hbus.host
  rw [configureDevice_eq hd hh] at hr
  split at hr
  · cases hr
    refine ha.of_bus ⟨{ h with cur_device := some i }, m, ?_, hbus.table, hbus.mutex,
      hbus.available.trans ⟨nofun, nofun⟩, ?_, ?_⟩ rfl rfl rfl rfl
    · rw [hb]
      exact spihost_setHost
    · intro j hj _ c hdis
      cases hj
      rw [hb, module_setHost, module_setModule] at hdis
      have hline : decide (i.val ≠ c.val) = false := hdis
      simpa using hline
    · intro q hq
      cases hq
      exact ⟨i, rfl, hc.slot⟩
  · next hno =>
    cases hr
    have hforce : ¬ force = true := fun hf => hno (.inl hf)
    have hcur : h.current = .device p := by
      by_contra hne
      exact hno (.inr hne)
    refine ha.of_bus ⟨h, m, hbus.host, hbus.table, hbus.mutex,
      hbus.available.trans ⟨nofun, nofun⟩, hbus.lines, ?_⟩ rfl rfl rfl rfl
    intro q hq
    cases hq
    unfold Host.current at hcur
    cases hdev : h.cur_device with
    | some j =>
      rw [hdev, hbus.table] at hcur
      exact ⟨j, rfl, hcur⟩
    | none =>
      rw [hdev] at hcur
      rcases hok.resolve_left hforce d hd h hh with hsome | hbelow
      · rw [hdev] at hsome
        cases hsome
      · exact absurd hcur hbelow

/-- The chip select of no other device is at the pin. -/
theorem Agree.lower (ha : Agree L s (some (.configured p))) (hdistinct : DistinctCs L.bus s)
    (hc : L.Checked p i) (hr : setCs s p false = .ok s') : Agree L s' (some (.lowered p)) := by
  obtain ⟨d, hd, hb, -, -⟩ := ha.device hc
  obtain ⟨h, m, hbus⟩ := ha.bus
  have hlowered : ∀ {t : Spi}, t.spihost = s.spihost → t.module = s.module →
      ∃ h m, BusAt L t (some (.lowered p)) h m := fun hhost hmodule =>
    ⟨h, m, hbus.of_eq hhost hmodule ⟨nofun, nofun⟩ fun _ hq => hq⟩
  rw [setCs_eq hd] at hr
  obtain rfl := Except.ok.inj hr
  split
  · next hext =>
    refine ⟨ha.same, hlowered rfl rfl, ha.flag, ?_⟩
    intro q e he heb hecs hlevel
    by_cases hpin : e.cfg.spics_ext_io_num = d.cfg.spics_ext_io_num
    · exact congrArg some (hdistinct p q d e hd he hb heb hext hecs hpin.symm)
    · have hold : s.level e.cfg.spics_ext_io_num = false := by
        rwa [level_setLevel_of_ne hpin] at hlevel
      cases ha.level q e he heb hecs hold
  · refine ⟨ha.same, hlowered rfl rfl, ha.flag, ?_⟩
    intro q e he heb hecs hlevel
    cases ha.level q e he heb hecs hlevel

/-- A step of the flag of a device. -/
theorem Agree.setSelected {st st' : Stage} (ha : Agree L s (some st))
    (hd : s.devices p = some d) {v : BitVec 8} (hcurrent : st'.current = st.current)
    (hlow : st'.low = st.low)
    (hflag : v = if st'.flagged = some p then 1 else 0)
    (hothers : ∀ q, q ≠ p → (st'.flagged = some q ↔ st.flagged = some q)) :
    Agree L (s.setDevice p { d with cfg := { d.cfg with selected := v } }) (some st') := by
  obtain ⟨h, m, hbus⟩ := ha.bus
  have hdev : ∀ q e, (s.setDevice p { d with cfg := { d.cfg with selected := v } }).devices q =
      some e → q = p ∧ e = { d with cfg := { d.cfg with selected := v } } ∨
        q ≠ p ∧ s.devices q = some e := by
    intro q e he
    by_cases hq : q = p
    · subst hq
      rw [devices_setDevice] at he
      exact .inl ⟨rfl, (Option.some.inj he).symm⟩
    · rw [devices_setDevice_of_ne hq] at he
      exact .inr ⟨hq, he⟩
  refine ⟨?_, ⟨h, m, ?_⟩, ?_, ?_⟩
  · intro q
    by_cases hq : q = p
    · subst hq
      rw [devices_setDevice, ha.still hd]
      rfl
    · rw [devices_setDevice_of_ne hq]
      exact ha.same q
  · refine hbus.of_eq rfl rfl ⟨nofun, nofun⟩ ?_
    intro q hq
    exact hcurrent.symm.trans hq
  · intro q e he heb
    rcases hdev q e he with ⟨rfl, rfl⟩ | ⟨hq, hold⟩
    · exact hflag
    · rw [ha.flag q e hold heb]
      simp only [Option.bind_some, hothers q hq]
  · intro q e he heb hecs hlevel
    show st'.low = some q
    rw [hlow]
    rcases hdev q e he with ⟨rfl, rfl⟩ | ⟨-, hold⟩
    · exact ha.level q d hd heb hecs hlevel
    · exact ha.level q e hold heb hecs hlevel

theorem Agree.raise (ha : Agree L s (some (.selected p))) (hc : L.Checked p i)
    (hr : raiseCs s p = .ok s') : Agree L s' (some (.raised p)) := by
  obtain ⟨d, hd, hb, -, -⟩ := ha.device hc
  obtain ⟨h, m, hbus⟩ := ha.bus
  have hh : s.spihost d.host = some h := hb ▸ hbus.host
  obtain ⟨j, hj, hslot⟩ := hbus.current p rfl
  have hcur : h.current = .device p := by
    unfold Host.current
    rw [hj, hbus.table]
    exact hslot
  have hraised : ∀ {t : Spi}, t.spihost = s.spihost → t.module = s.module →
      ∃ h m, BusAt L t (some (.raised p)) h m := fun hhost hmodule =>
    ⟨h, m, hbus.of_eq hhost hmodule ⟨nofun, nofun⟩ fun _ hq => hq⟩
  rw [raiseCs_eq hd hh, if_pos hcur, setCs_eq hd] at hr
  obtain rfl := Except.ok.inj hr
  split
  · next hext =>
    refine ⟨ha.same, hraised rfl rfl, ha.flag, ?_⟩
    intro q e he heb hecs hlevel
    by_cases hpin : e.cfg.spics_ext_io_num = d.cfg.spics_ext_io_num
    · rw [hpin, level_setLevel] at hlevel
      cases hlevel
    · have hold : s.level e.cfg.spics_ext_io_num = false := by
        rwa [level_setLevel_of_ne hpin] at hlevel
      obtain rfl : p = q := Option.some.inj (ha.level q e he heb hecs hold)
      cases hd.symm.trans he
      exact absurd rfl hpin
  · next hno =>
    refine ⟨ha.same, hraised rfl rfl, ha.flag, ?_⟩
    intro q e he heb hecs hlevel
    obtain rfl : p = q := Option.some.inj (ha.level q e he heb hecs hlevel)
    cases hd.symm.trans he
    exact absurd hecs hno

/-- A give, where no flag is set and no chip select low. -/
theorem Agree.give {st : Stage} (ha : Agree L s (some st)) (hflagged : st.flagged = none)
    (hlow : st.low = none) (hr : s.give L.bus = .ok s') : Agree L s' none := by
  obtain ⟨h, m, hbus⟩ := ha.bus
  obtain ⟨h', m', hh', hm', rfl⟩ := give_eq_ok.mp hr
  rw [hbus.host] at hh'
  cases hh'
  refine ha.of_bus ⟨_, _, spihost_setHost, hbus.table, rfl, ?_, hbus.lines, nofun⟩ rfl rfl
    hflagged.symm hlow.symm
  exact ⟨fun _ => rfl, fun _ => rfl⟩

end Stages

/-! ## Where the threads are -/

/-- Where a thread goes on. -/
def Next.pc : Next → Pc
  | goto pc => pc
  | _ => .idle

/-- The pairs that it has open then. -/
def Next.opened (l : List Pair) : Next → List Pair
  | opens pair => pair :: l
  | closes pair => l.erase pair
  | _ => l

/-- The places of a thread that does not touch the bus. -/
inductive Outside (L : Layout) : Pc → Prop
  | idle : Outside L .idle
  | select (p : Nat) (force : Bool) (hp : ∃ d, L.dev p = some d ∧ d.host = L.bus) :
      Outside L (.select p force)
  | selectChecks (p : Nat) (force : Bool) (hp : ∃ d, L.dev p = some d ∧ d.host = L.bus) :
      Outside L (.selectChecks p force)
  | selectTakes (p : Nat) (force : Bool) (i : Fin NO_DEV) (hc : L.Checked p i) :
      Outside L (.selectTakes p force i)

/-- The place of a thread, with its open pairs, at a stage of the bus, or at none. -/
inductive Place (L : Layout) : Option Stage → List Pair → Pc → Prop
  | outside {pc : Pc} (h : Outside L pc) : Place L none [] pc
  | reconfigures (p : Nat) (force : Bool) (i : Fin NO_DEV) (hc : L.Checked p i) :
      Place L (some (.prepared p)) [] (.selectReconfigures p force i)
  | configures (p : Nat) (force : Bool) (i : Fin NO_DEV) (hc : L.Checked p i) :
      Place L (some (.prepared p)) [] (.selectConfigures p force i)
  | fails (p : Nat) (i : Fin NO_DEV) (hc : L.Checked p i) :
      Place L (some (.prepared p)) [] (.selectGives p)
  | lowers (p : Nat) (i : Fin NO_DEV) (hc : L.Checked p i) :
      Place L (some (.configured p)) [] (.selectLowers p)
  | marks (p : Nat) (i : Fin NO_DEV) (hc : L.Checked p i) :
      Place L (some (.lowered p)) [] (.selectMarks p)
  | inside {pc : Pc} (p : Nat) (i : Fin NO_DEV) (hc : L.Checked p i) (h : Outside L pc) :
      Place L (some (.selected p)) [.device p] pc
  | deselect (p : Nat) (i : Fin NO_DEV) (hc : L.Checked p i) :
      Place L (some (.selected p)) [.device p] (.deselect p)
  | checks (p : Nat) (i : Fin NO_DEV) (hc : L.Checked p i) :
      Place L (some (.selected p)) [.device p] (.deselectChecks p)
  | raises (p : Nat) (i : Fin NO_DEV) (hc : L.Checked p i) :
      Place L (some (.selected p)) [.device p] (.deselectRaises p)
  | clears (p : Nat) (i : Fin NO_DEV) (hc : L.Checked p i) :
      Place L (some (.raised p)) [.device p] (.deselectClears p)
  | gives (p : Nat) (i : Fin NO_DEV) (hc : L.Checked p i) :
      Place L (some (.cleared p)) [.device p] (.deselectGives p)

section Places

variable {gpio : Gpio} {L : Layout} {s s' : Spi} {o : Option Stage} {st : Stage}
variable {l : List Pair} {pc : Pc} {next : Next}

theorem Agree.onBus (ha : Agree L s o) {p : Nat} (hp : ∃ d, L.dev p = some d ∧ d.host = L.bus) :
    ∃ d, s.devices p = some d ∧ d.host = L.bus := by
  obtain ⟨e, he, hb⟩ := hp
  rw [← ha.same p] at he
  obtain ⟨d, hd, rfl⟩ := Option.map_eq_some_iff.mp he
  exact ⟨d, hd, hb⟩

/-- The checks of a device of the bus. -/
theorem Agree.checked (ha : Agree L s o) {p : Nat} {d : Device} {i : Fin NO_DEV}
    (hd : s.devices p = some d) (hb : d.host = L.bus)
    (hr : checkHandle s p = .ok (.inr i)) : L.Checked p i := by
  obtain ⟨htrans, hret, h, hh, hslot⟩ := (checkHandle_inr hd).mp hr
  obtain ⟨h', m, hbus⟩ := ha.bus
  rw [hb, hbus.host] at hh
  cases hh
  refine ⟨?_, d.still, ha.still hd, hb, htrans, hret⟩
  rw [← hbus.table]
  exact slot_eq_some hslot

/-- A device that has passed the checks passes them again. -/
theorem Agree.checkAgain (ha : Agree L s o) {p : Nat} {i : Fin NO_DEV} (hc : L.Checked p i) :
    ∃ j, checkHandle s p = .ok (.inr j) := by
  obtain ⟨d, hd, hb, htrans, hret⟩ := ha.device hc
  obtain ⟨h, m, hbus⟩ := ha.bus
  have hi : h.device i = .device p := by
    rw [hbus.table]
    exact hc.slot
  obtain ⟨j, hj⟩ := slot_isSome hi
  exact ⟨j, (checkHandle_inr hd).mpr ⟨htrans, hret, h, hb ▸ hbus.host, hj⟩⟩

/-- A thread outside stays outside, or takes the bus where nobody has it. -/
theorem Outside.advance (h : Outside L pc) (ha : Agree L s o) (hok : pc.Disciplined s)
    (hs : pc.advance gpio s = .ok (some (s', next))) :
    (s' = s ∧ Outside L next.pc ∧ ∀ l, next.opened l = l) ∨
      o = none ∧ ∃ st, Agree L s' (some st) ∧ Place L (some st) (next.opened []) next.pc := by
  cases h with
  | idle => cases hs
  | select p force hp =>
    obtain ⟨d, hd, hb⟩ := ha.onBus hp
    obtain ⟨e, he, hs⟩ := bind_eq_ok.mp hs
    cases hd.symm.trans (read_eq_ok.mp he)
    rw [if_neg (hok d hd)] at hs
    cases hs
    exact .inl ⟨rfl, .selectChecks p force hp, fun _ => rfl⟩
  | selectChecks p force hp =>
    obtain ⟨d, hd, hb⟩ := ha.onBus hp
    obtain ⟨r, hr, hs⟩ := bind_eq_ok.mp hs
    cases r with
    | inl err =>
      cases hs
      exact .inl ⟨rfl, .idle, fun _ => rfl⟩
    | inr i =>
      cases hs
      exact .inl ⟨rfl, .selectTakes p force i (ha.checked hd hb hr), fun _ => rfl⟩
  | selectTakes p force i hc =>
    obtain ⟨d, hd, hb, -⟩ := ha.device hc
    obtain ⟨hnone, rfl, hag⟩ := ha.takeBus hd hb hs
    exact .inr ⟨hnone, _, hag, .reconfigures p force i hc⟩

/-- The thread that has the bus goes on to the next stage, or gives it. -/
theorem Place.advance (h : Place L (some st) l pc) (ha : Agree L s (some st))
    (hdistinct : DistinctCs L.bus s) (hok : pc.Disciplined s)
    (hs : pc.advance gpio s = .ok (some (s', next))) :
    ∃ o, Agree L s' o ∧ Place L o (next.opened l) next.pc := by
  cases h with
  | reconfigures p force i hc =>
    obtain ⟨⟨err, s₁⟩, hr, hs⟩ := bind_eq_ok.mp hs
    cases hs
    refine ⟨_, ha.reconfigureBus hc hr, ?_⟩
    by_cases herr : err = .ok
    · rw [if_pos herr]
      exact .configures p force i hc
    · rw [if_neg herr]
      exact .fails p i hc
  | configures p force i hc =>
    obtain ⟨s₁, hr, hs⟩ := bind_eq_ok.mp hs
    cases hs
    exact ⟨_, ha.configureDevice hc hok hr, .lowers p i hc⟩
  | fails p i hc =>
    obtain ⟨d, hd, hb, -⟩ := ha.device hc
    obtain ⟨e, he, hs⟩ := bind_eq_ok.mp hs
    cases hd.symm.trans (read_eq_ok.mp he)
    obtain ⟨s₁, hr, hs⟩ := bind_eq_ok.mp hs
    cases hs
    exact ⟨none, ha.give rfl rfl (hb ▸ hr), .outside .idle⟩
  | lowers p i hc =>
    obtain ⟨s₁, hr, hs⟩ := bind_eq_ok.mp hs
    cases hs
    exact ⟨_, ha.lower hdistinct hc hr, .marks p i hc⟩
  | marks p i hc =>
    obtain ⟨s₁, hr, hs⟩ := bind_eq_ok.mp hs
    cases hs
    obtain ⟨d, hd, rfl⟩ := setSelected_eq_ok.mp hr
    refine ⟨some (.selected p), ha.setSelected hd rfl rfl ?_ ?_, .inside p i hc .idle⟩
    · exact (if_pos rfl).symm
    · intro q hq
      exact ⟨fun h => absurd (Option.some.inj h).symm hq, nofun⟩
  | inside p i hc h =>
    rcases h.advance ha hok hs with ⟨rfl, hout, hopened⟩ | ⟨hnone, -⟩
    · rw [hopened]
      exact ⟨_, ha, .inside p i hc hout⟩
    · cases hnone
  | deselect p i hc =>
    obtain ⟨d, hd, hb, -⟩ := ha.device hc
    obtain ⟨e, he, hs⟩ := bind_eq_ok.mp hs
    cases hd.symm.trans (read_eq_ok.mp he)
    have hflag : d.cfg.selected = 1 := (ha.flag p d hd hb).trans (if_pos rfl)
    rw [hflag, if_neg (by decide)] at hs
    cases hs
    exact ⟨_, ha, .checks p i hc⟩
  | checks p i hc =>
    obtain ⟨j, hj⟩ := ha.checkAgain hc
    obtain ⟨r, hr, hs⟩ := bind_eq_ok.mp hs
    cases hj.symm.trans hr
    cases hs
    exact ⟨_, ha, .raises p i hc⟩
  | raises p i hc =>
    obtain ⟨s₁, hr, hs⟩ := bind_eq_ok.mp hs
    cases hs
    exact ⟨_, ha.raise hc hr, .clears p i hc⟩
  | clears p i hc =>
    obtain ⟨s₁, hr, hs⟩ := bind_eq_ok.mp hs
    cases hs
    obtain ⟨d, hd, rfl⟩ := setSelected_eq_ok.mp hr
    refine ⟨some (.cleared p), ha.setSelected hd rfl rfl rfl ?_, .gives p i hc⟩
    intro q hq
    exact ⟨nofun, fun h => absurd (Option.some.inj h).symm hq⟩
  | gives p i hc =>
    obtain ⟨d, hd, hb, -⟩ := ha.device hc
    obtain ⟨e, he, hs⟩ := bind_eq_ok.mp hs
    cases hd.symm.trans (read_eq_ok.mp he)
    obtain ⟨s₁, hr, hs⟩ := bind_eq_ok.mp hs
    cases hs
    refine ⟨none, ha.give rfl rfl (hb ▸ hr), ?_⟩
    show Place L none ([Pair.device p].erase (.device p)) .idle
    rw [List.erase_cons_head]
    exact .outside .idle

end Places

/-! ## Runs -/

/-- No two devices of the bus have the same pin as chip select. -/
def Layout.Distinct (L : Layout) : Prop :=
  ∀ p q d e, L.dev p = some d → L.dev q = some e → d.host = L.bus → e.host = L.bus →
    d.cfg.ExtCs → e.cfg.ExtCs → d.cfg.spics_ext_io_num = e.cfg.spics_ext_io_num → p = q

theorem Agree.distinct {L : Layout} {s : Spi} {o : Option Stage} (ha : Agree L s o)
    (hL : L.Distinct) : DistinctCs L.bus s := by
  intro p q d e hd he hdb heb hdc hec hpin
  exact hL p q d.still e.still (ha.still hd) (ha.still he) hdb heb hdc hec hpin

section Threads

variable {Tid : Type} [DecidableEq Tid]

/-- The stage at which a thread has the bus. -/
def stageAt : Option (Tid × Stage) → Tid → Option Stage
  | some (u, st), t => if u = t then some st else none
  | none, _ => none

/-- The bus is with nobody, or with a thread at a stage. -/
structure Held (L : Layout) (w : World Tid) (o : Option (Tid × Stage)) : Prop where
  agree : Agree L w.spi (o.map Prod.snd)
  place : ∀ t, Place L (stageAt o t) (w.opened t) (w.pc t)

variable {gpio : Gpio} {L : Layout} {w w' : World Tid} {o o' : Option (Tid × Stage)} {t : Tid}

theorem stageAt_eq_some {st : Stage} (h : stageAt o t = some st) : o = some (t, st) := by
  cases o with
  | none => cases h
  | some p =>
    obtain ⟨u, st'⟩ := p
    have hif : (if u = t then some st' else none) = some st := h
    by_cases hu : u = t
    · rw [if_pos hu] at hif
      rw [hu, Option.some.inj hif]
    · rw [if_neg hu] at hif
      cases hif

theorem stageAt_self (t : Tid) (st : Stage) : stageAt (some (t, st)) t = some st := if_pos rfl

theorem stageAt_of_ne {u : Tid} (hne : u ≠ t) (st : Stage) : stageAt (some (t, st)) u = none :=
  if_neg hne.symm

theorem stageAt_map (o : Option Stage) (t : Tid) : stageAt (o.map (Prod.mk t)) t = o := by
  cases o with
  | none => rfl
  | some st => exact stageAt_self t st

theorem stageAt_map_of_ne (o : Option Stage) {u : Tid} (hne : u ≠ t) :
    stageAt (o.map (Prod.mk t)) u = none := by
  cases o with
  | none => rfl
  | some st => exact stageAt_of_ne hne st

theorem follow_eq (w : World Tid) (t : Tid) (s : Spi) (next : Next) : w.follow t s next =
    ⟨s, Function.update w.pc t next.pc,
      Function.update w.opened t (next.opened (w.opened t))⟩ := by
  cases next with
  | goto pc =>
    show World.mk s _ w.opened = World.mk s _ (Function.update w.opened t (w.opened t))
    rw [Function.update_eq_self]
    rfl
  | opens pair => rfl
  | closes pair => rfl
  | fails =>
    show World.mk s _ w.opened = World.mk s _ (Function.update w.opened t (w.opened t))
    rw [Function.update_eq_self]
    rfl

/-- A step of one thread. -/
theorem Held.move (h : Held L w o) {s : Spi} {l : List Pair} {pc : Pc}
    (hothers : ∀ u, u ≠ t → stageAt o' u = stageAt o u) (ha : Agree L s (o'.map Prod.snd))
    (hplace : Place L (stageAt o' t) l pc) :
    Held L ⟨s, Function.update w.pc t pc, Function.update w.opened t l⟩ o' := by
  refine ⟨ha, ?_⟩
  intro u
  by_cases hu : u = t
  · subst hu
    show Place L _ (Function.update w.opened u l u) (Function.update w.pc u pc u)
    rw [Function.update_self, Function.update_self]
    exact hplace
  · show Place L _ (Function.update w.opened t l u) (Function.update w.pc t pc u)
    rw [Function.update_of_ne hu, Function.update_of_ne hu, hothers u hu]
    exact h.place u

/-- A call begins. -/
theorem Held.call (h : Held L w o) {c : Call} (hidle : w.pc t = .idle)
    (hmay : w.mayCall L.bus t c = true) (hok : c ≠ .takeSemaphore c.handle) :
    Held L { w with pc := Function.update w.pc t c.start } o := by
  obtain ⟨hbus, hends⟩ := Bool.and_eq_true_iff.mp hmay
  obtain ⟨d, hd, hb⟩ := (Option.any_eq_true ..).mp hbus
  have hp : ∃ d, L.dev c.handle = some d ∧ d.host = L.bus :=
    ⟨d.still, h.agree.still hd, of_decide_eq_true hb⟩
  have hplace := h.place t
  rw [hidle] at hplace
  have hnew : Place L (stageAt o t) (w.opened t) c.start := by
    generalize stageAt o t = st, w.opened t = l at hplace hends
    cases c with
    | select p force =>
      cases hplace with
      | outside _ => exact .outside (.select p force hp)
      | inside q i hc _ => exact .inside q i hc (.select p force hp)
    | deselect p =>
      have hmem : Pair.device p ∈ l := List.contains_iff_mem.mp hends
      cases hplace with
      | outside _ => cases hmem
      | inside q i hc _ =>
        cases List.mem_singleton.mp hmem
        exact .deselect p i hc
    | takeSemaphore p => exact absurd rfl hok
    | giveSemaphore p =>
      have hmem : Pair.semaphore p ∈ l := List.contains_iff_mem.mp hends
      cases hplace with
      | outside _ => cases hmem
      | inside q i hc _ => cases List.mem_singleton.mp hmem
  have hmove := h.move (fun _ _ => rfl) h.agree hnew
  rwa [Function.update_eq_self] at hmove

theorem Held.next (h : Held L w o) (hL : L.Distinct) (hok : (w.pc t).Disciplined w.spi)
    {s : Spi} {next : Next} (hs : (w.pc t).advance gpio w.spi = .ok (some (s, next))) :
    ∃ o', Held L (w.follow t s next) o' ∧ ∀ u, u ≠ t → stageAt o' u = stageAt o u := by
  rw [follow_eq]
  have hplace := h.place t
  cases hstage : stageAt o t with
  | none =>
    rw [hstage] at hplace
    generalize hl : w.opened t = l at hplace
    cases hplace with
    | outside hout =>
      rcases hout.advance h.agree hok hs with ⟨rfl, hout', hopened⟩ | ⟨hnone, st, ha, hplace'⟩
      · rw [hopened]
        refine ⟨o, h.move (fun _ _ => rfl) h.agree ?_, fun _ _ => rfl⟩
        rw [hstage]
        exact .outside hout'
      · obtain rfl := Option.map_eq_none_iff.mp hnone
        have hothers : ∀ u, u ≠ t → stageAt (some (t, st)) u = stageAt none u := fun u hu =>
          stageAt_of_ne hu st
        refine ⟨some (t, st), h.move hothers ha ?_, hothers⟩
        rw [stageAt_self]
        exact hplace'
  | some st =>
    obtain rfl := stageAt_eq_some hstage
    rw [hstage] at hplace
    obtain ⟨o', ha, hplace'⟩ := hplace.advance h.agree (h.agree.distinct hL) hok hs
    have hothers : ∀ u, u ≠ t →
        stageAt (o'.map (Prod.mk t)) u = stageAt (some (t, st)) u := by
      intro u hu
      rw [stageAt_map_of_ne o' hu]
      exact (stageAt_of_ne hu st).symm
    refine ⟨o'.map (Prod.mk t), h.move hothers ?_ ?_, hothers⟩
    · cases o' with
      | none => exact ha
      | some st' => exact ha
    · rw [stageAt_map]
      exact hplace'

/-- A wait that ends without the mutex. -/
theorem Held.timeout (h : Held L w o) (htimes : (w.pc t).timesOut = true) :
    Held L { w with pc := Function.update w.pc t .idle } o := by
  have hplace := h.place t
  have hnew : Place L (stageAt o t) (w.opened t) .idle := by
    generalize stageAt o t = st, w.opened t = l, w.pc t = pc at hplace htimes
    cases hplace with
    | outside _ => exact .outside .idle
    | inside p i hc _ => exact .inside p i hc .idle
    | reconfigures => cases htimes
    | configures => cases htimes
    | fails => cases htimes
    | lowers => cases htimes
    | marks => cases htimes
    | deselect => cases htimes
    | checks => cases htimes
    | raises => cases htimes
    | clears => cases htimes
    | gives => cases htimes
  have hmove := h.move (fun _ _ => rfl) h.agree hnew
  rwa [Function.update_eq_self] at hmove

/-- The thread of a step. -/
def Act.thread : Act Tid → Tid
  | call t _ => t
  | next t => t
  | timeout t => t

theorem Held.step (h : Held L w o) (hL : L.Distinct) {a : Act Tid} (hok : Disciplined w a)
    (hs : w.step gpio L.bus a = some w') :
    ∃ o', Held L w' o' ∧ ∀ u, u ≠ a.thread → stageAt o' u = stageAt o u := by
  cases a with
  | call t c =>
    unfold World.step at hs
    dsimp only at hs
    split at hs
    · next hcall =>
      cases hs
      exact ⟨o, h.call hcall.1 hcall.2 hok, fun _ _ => rfl⟩
    · cases hs
  | next t =>
    unfold World.step at hs
    dsimp only at hs
    split at hs
    · next s next hadv =>
      cases hs
      exact h.next hL hok hadv
    · cases hs
  | timeout t =>
    unfold World.step at hs
    dsimp only at hs
    split at hs
    · split at hs
      · next htimes =>
        cases hs
        exact ⟨o, h.timeout htimes, fun _ _ => rfl⟩
      · cases hs
    · cases hs

theorem Agree.busFree {s : Spi} (ha : Agree L s none) : s.BusFree L.bus := by
  obtain ⟨h, m, hbus⟩ := ha.bus
  exact ⟨h, m, hbus.host, hbus.mutex, hbus.available.mpr rfl⟩

/-- A thread with an open pair has the bus, and has no other pair. -/
theorem Place.opened {L : Layout} {o : Option Stage} {l : List Pair} {pc : Pc}
    (h : Place L o l pc) (hl : l ≠ []) :
    ∃ st p, o = some st ∧ st.current = some p ∧ l = [.device p] := by
  cases h with
  | inside p i hc h => exact ⟨_, p, rfl, rfl, rfl⟩
  | deselect p i hc => exact ⟨_, p, rfl, rfl, rfl⟩
  | checks p i hc => exact ⟨_, p, rfl, rfl, rfl⟩
  | raises p i hc => exact ⟨_, p, rfl, rfl, rfl⟩
  | clears p i hc => exact ⟨_, p, rfl, rfl, rfl⟩
  | gives p i hc => exact ⟨_, p, rfl, rfl, rfl⟩
  | outside => exact absurd rfl hl
  | reconfigures => exact absurd rfl hl
  | configures => exact absurd rfl hl
  | fails => exact absurd rfl hl
  | lowers => exact absurd rfl hl
  | marks => exact absurd rfl hl

theorem Place.idle {L : Layout} {o : Option Stage} (h : Place L o [] .idle) : o = none := by
  cases h with
  | outside => rfl

/-- The active chip select is that of the device that the controller is set to. -/
theorem Held.chipSelect (h : Held L w o) {p : Nat} (hcs : w.ChipSelect L.bus p) :
    ∃ t st, o = some (t, st) ∧ st.current = some p := by
  obtain ⟨d, g, hd, hb, hg, hactive⟩ := hcs
  split at hactive
  · next hext =>
    obtain ⟨st, hst, hlow⟩ := Option.bind_eq_some_iff.mp (h.agree.level p d hd hb hext hactive)
    obtain ⟨⟨t, _⟩, ho, rfl⟩ := Option.map_eq_some_iff.mp hst
    exact ⟨t, _, ho, Stage.current_of_low hlow⟩
  · obtain ⟨⟨t, hopened⟩, henabled, i, c, hi, hic, hdis⟩ := hactive
    obtain ⟨st, q, hst, hq, -⟩ := (h.place t).opened hopened
    obtain rfl := stageAt_eq_some hst
    obtain ⟨g', m, hbus⟩ := h.agree.bus
    cases hg.symm.trans hbus.host
    obtain ⟨j, hj, hslot⟩ := hbus.current q hq
    have hij : i = j := Fin.ext (hic.trans (hbus.lines j hj henabled c hdis).symm)
    rw [hbus.table, hij, hslot] at hi
    cases hi
    exact ⟨t, st, rfl, hq⟩

theorem Held.owned (h : Held L w o) : Owned L.bus w := by
  refine ⟨?_, ?_, ?_⟩
  · intro t u ht hu
    obtain ⟨st, p, hst, -⟩ := (h.place t).opened ht
    obtain ⟨st', q, hst', -⟩ := (h.place u).opened hu
    have heq := (stageAt_eq_some hst).symm.trans (stageAt_eq_some hst')
    exact congrArg Prod.fst (Option.some.inj heq)
  · intro p q hp hq
    obtain ⟨t, st, ho, hcur⟩ := h.chipSelect hp
    obtain ⟨u, st', ho', hcur'⟩ := h.chipSelect hq
    cases ho.symm.trans ho'
    exact Option.some.inj (hcur.symm.trans hcur')
  · intro hidle
    have hnone : o = none := by
      cases o with
      | none => rfl
      | some q =>
        obtain ⟨t, st⟩ := q
        have hplace := h.place t
        rw [(hidle t).1, (hidle t).2] at hplace
        cases hplace.idle.symm.trans (stageAt_self t st)
    subst hnone
    refine ⟨h.agree.busFree, ?_⟩
    intro p hp
    obtain ⟨t, st, ho, -⟩ := h.chipSelect hp
    cases ho

/-- Only the end of a pair makes fewer of them, and its thread returns. -/
theorem step_shrinks {b : Nat} {a : Act Tid} (hs : w.step gpio b a = some w')
    (hlt : (w'.opened t).length < (w.opened t).length) : t = a.thread ∧ w'.pc t = .idle := by
  have hsame : w'.opened ≠ w.opened := by
    intro heq
    rw [heq] at hlt
    exact absurd hlt (Nat.lt_irrefl _)
  unfold World.step at hs
  cases a with
  | call u c =>
    dsimp only at hs
    split at hs
    · cases hs
      exact absurd rfl hsame
    · cases hs
  | timeout u =>
    dsimp only at hs
    split at hs
    · split at hs
      · cases hs
        exact absurd rfl hsame
      · cases hs
    · cases hs
  | next u =>
    dsimp only at hs
    split at hs
    · next s next hadv =>
      cases hs
      rw [follow_eq] at hlt ⊢
      dsimp only at hlt ⊢
      by_cases hu : t = u
      · subst hu
        rw [Function.update_self] at hlt ⊢
        cases next with
        | closes pair => exact ⟨rfl, rfl⟩
        | goto pc => exact absurd hlt (Nat.lt_irrefl _)
        | fails => exact absurd hlt (Nat.lt_irrefl _)
        | opens pair => exact absurd hlt (Nat.not_lt_of_lt (Nat.lt_succ_self _))
      · rw [Function.update_of_ne hu] at hlt
        exact absurd hlt (Nat.lt_irrefl _)
    · cases hs

theorem Held.endsFree (h : Held L w o) (hL : L.Distinct) :
    EndsFree gpio L.bus Disciplined w := by
  rintro a w' hok hs ⟨t, hlt⟩
  obtain ⟨o', h', hothers⟩ := h.step hL hok hs
  obtain ⟨hthread, hidle⟩ := step_shrinks hs hlt
  have hne : w.opened t ≠ [] := by
    intro hnil
    rw [hnil] at hlt
    exact absurd hlt (Nat.not_lt_zero _)
  obtain ⟨st, p, hst, -, hl⟩ := (h.place t).opened hne
  have hnil : w'.opened t = [] := by
    rw [hl] at hlt
    exact List.length_eq_zero_iff.mp (Nat.lt_one_iff.mp hlt)
  have hplace := h'.place t
  rw [hnil, hidle] at hplace
  have hleft := hplace.idle
  obtain rfl := stageAt_eq_some hst
  -- the thread had the bus, so that nobody has it now
  have hnone : o' = none := by
    cases o' with
    | none => rfl
    | some q =>
      obtain ⟨u, st'⟩ := q
      by_cases hu : u = t
      · subst hu
        cases hleft.symm.trans (stageAt_self u st')
      · have hsame := hothers u (hthread ▸ hu)
        rw [stageAt_of_ne hu st] at hsame
        cases hsame.symm.trans (stageAt_self u st')
  subst hnone
  exact h'.agree.busFree

theorem exists_held {b : Nat} {s : Spi} (hready : Ready b s) (hdistinct : DistinctCs b s) :
    ∃ L : Layout, L.bus = b ∧ L.Distinct ∧ Held L (World.init s : World Tid) none := by
  obtain ⟨h, m, hhost, hmutex, hfree⟩ := hready.free
  refine ⟨⟨b, h.device, fun p => (s.devices p).map Device.still⟩, rfl, ?_, ⟨?_, ?_, ?_, ?_⟩, ?_⟩
  · intro p q d e hd he hdb heb hdc hec hpin
    obtain ⟨d', hd', rfl⟩ := Option.map_eq_some_iff.mp hd
    obtain ⟨e', he', rfl⟩ := Option.map_eq_some_iff.mp he
    exact hdistinct p q d' e' hd' he' hdb heb hdc hec hpin
  · intro p
    rfl
  · refine ⟨h, m, hhost, rfl, hmutex, ⟨fun _ => rfl, fun _ => hfree⟩, ?_, nofun⟩
    intro i hi
    exact hready.lines h i hhost hi
  · intro p d hd hb
    exact hready.flag p d hd hb
  · intro p d hd hb hext hlow
    cases (hready.level p d hd hb hext).symm.trans hlow
  · intro t
    exact .outside .idle

/-- In every run in which nobody takes or gives the semaphore, no selected device is
    selected again, and no unforced selection is compared with the word before the
    host, the bus is owned by one thread and free after its pair, if its devices have
    chip selects of their own. -/
theorem spiDevice_owned {b : Nat} {s : Spi} (hready : Ready b s) (hdistinct : DistinctCs b s)
    (h : (threads Tid gpio b s).Reach Disciplined w) :
    Owned b w ∧ EndsFree gpio b Disciplined w := by
  obtain ⟨L, rfl, hL, hheld⟩ : ∃ L : Layout, L.bus = b ∧ L.Distinct ∧
      Held L (World.init s : World Tid) none := exists_held hready hdistinct
  have hinv : ∃ o, Held L w o := by
    apply Lts.Reach.invariant (L := threads Tid gpio L.bus s) _ _ h
    · rintro w rfl
      exact ⟨none, hheld⟩
    · rintro w a w' ⟨o, hw⟩ hok hs
      obtain ⟨o', hw', -⟩ := hw.step hL hok hs
      exact ⟨o', hw'⟩
  obtain ⟨o, hw⟩ := hinv
  exact ⟨hw.owned, hw.endsFree hL⟩

end Threads

/-! ## Two threads -/

/-- A device with a chip select of its own. -/
def sampleDevice (ext : Int) : Device where
  trans_queue := some 0
  ret_queue := some 0
  cfg := ⟨0, 0, 0, 0, 128, 0, 0, 1000000, -1, ext, -1, 16, 3, 0⟩
  host := 1
  bus_config := ⟨13, 12, 14, -1, -1⟩

/-- Host 1, as `spi_bus_initialize` leaves it, with two devices. -/
def sampleSpi : Spi where
  spihost b := if b = 1 then
      some { Host.zero .null with
        device := fun i => if i.val = 0 then .device 10 else if i.val = 1 then .device 11 else .null
        intr := true, hw := true, cur_device := none, spi_bus_mutex := some xSemaphoreCreate
        cur_bus_config := ⟨13, 12, 14, -1, -1⟩ }
    else none
  devices p := if p = 10 then some (sampleDevice 25) else if p = 11 then some (sampleDevice 26)
    else none
  module _ := ⟨true, true, true, Regs.zero⟩
  level _ := true

def samplePins : Gpio := ⟨fun _ => true, fun _ => true⟩

theorem sampleSpi_devices {p : Nat} {d : Device} (hd : sampleSpi.devices p = some d) :
    p = 10 ∧ d = sampleDevice 25 ∨ p = 11 ∧ d = sampleDevice 26 := by
  have hif : (if p = 10 then some (sampleDevice 25)
      else if p = 11 then some (sampleDevice 26) else none) = some d := hd
  split at hif
  · next hp => exact .inl ⟨hp, (Option.some.inj hif).symm⟩
  · split at hif
    · next hp => exact .inr ⟨hp, (Option.some.inj hif).symm⟩
    · cases hif

theorem sampleSpi_ready : Ready 1 sampleSpi := by
  refine ⟨⟨_, xSemaphoreCreate, rfl, rfl, rfl⟩, ?_, ?_, ?_⟩
  · intro h i hh hi
    cases hh
    cases hi
  · intro p d hd _
    rcases sampleSpi_devices hd with ⟨-, rfl⟩ | ⟨-, rfl⟩
    · rfl
    · rfl
  · intro p d _ _ _
    rfl

theorem sampleSpi_distinct : DistinctCs 1 sampleSpi := by
  intro p q d e hd he _ _ _ _ hpin
  rcases sampleSpi_devices hd with ⟨rfl, rfl⟩ | ⟨rfl, rfl⟩
  · rcases sampleSpi_devices he with ⟨rfl, rfl⟩ | ⟨rfl, rfl⟩
    · rfl
    · exact absurd hpin (by decide)
  · rcases sampleSpi_devices he with ⟨rfl, rfl⟩ | ⟨rfl, rfl⟩
    · exact absurd hpin (by decide)
    · rfl

/-- A call, and so many steps of it. -/
def callSteps (t : Bool) (c : Call) (n : Nat) : List (Act Bool) :=
  .call t c :: List.replicate n (.next t)

/-- One thread selects and deselects its device, and another waits in vain while it
    does, and selects another device afterwards. -/
theorem spiDevice_owned_turns : ∃ w : World Bool, w.opened true = [] ∧
    w.opened false = [.device 11] ∧ Owned 1 w ∧ EndsFree samplePins 1 Disciplined w := by
  have hrun : ((callSteps true (.select 10 false) 7 ++ callSteps false (.select 11 true) 2 ++
      [Act.timeout false] ++ callSteps true (.deselect 10) 5 ++
      callSteps false (.select 11 true) 7).foldlM
        (Lts.guarded Disciplined (World.step samplePins 1)) (.init sampleSpi)).any
      (fun w => decide (w.opened true = [] ∧ w.opened false = [.device 11])) = true := by
    decide +kernel
  obtain ⟨w, hw, hend⟩ := (Option.any_eq_true ..).mp hrun
  obtain ⟨htrue, hfalse⟩ := of_decide_eq_true hend
  exact ⟨w, htrue, hfalse, spiDevice_owned (b := 1) (s := sampleSpi) sampleSpi_ready
    sampleSpi_distinct (Lts.Reach.schedule _ hw)⟩

/-- Two threads that select one device are both inside, and a thread that takes the
    semaphore leaves it taken with an error. -/
theorem spiDevice_shared : Ready 1 sampleSpi ∧ DistinctCs 1 sampleSpi ∧
    (¬ ∀ w : World Bool,
      (threads Bool samplePins 1 sampleSpi).Reach (fun _ _ => True) w → Owned 1 w) ∧
    ∃ w : World Bool, (threads Bool samplePins 1 sampleSpi).Reach (fun _ _ => True) w ∧
      w.pc true = .idle ∧ w.opened true = [] ∧ ¬ w.spi.BusFree 1 := by
  refine ⟨sampleSpi_ready, sampleSpi_distinct, ?_, ?_⟩
  · have hrun : ((callSteps true (.select 10 true) 7 ++ callSteps false (.select 10 true) 1).foldlM
        (Lts.guarded (fun _ _ => True) (World.step samplePins 1)) (.init sampleSpi)).any
        (fun w => decide (w.opened true ≠ [] ∧ w.opened false ≠ [])) = true := by
      decide +kernel
    obtain ⟨w, hw, hend⟩ := (Option.any_eq_true ..).mp hrun
    obtain ⟨htrue, hfalse⟩ := of_decide_eq_true hend
    intro hall
    cases (hall w (Lts.Reach.schedule _ hw)).alone true false htrue hfalse
  · have hrun : ((callSteps true (.takeSemaphore 10) 1 ++ [Act.timeout true]).foldlM
        (Lts.guarded (fun _ _ => True) (World.step samplePins 1)) (.init sampleSpi)).any
        (fun w => decide (w.pc true = .idle ∧ w.opened true = [] ∧
          (w.spi.spihost 1).all (fun h => h.spi_bus_mutex.all (fun m => !m.available)))) =
          true := by
      decide +kernel
    obtain ⟨w, hw, hend⟩ := (Option.any_eq_true ..).mp hrun
    obtain ⟨hidle, hnil, htaken⟩ := of_decide_eq_true hend
    refine ⟨w, Lts.Reach.schedule _ hw, hidle, hnil, ?_⟩
    rintro ⟨h, m, hh, hm, hfree⟩
    rw [hh, Option.all_some, hm, Option.all_some, hfree] at htaken
    cases htaken

end LuaRtos.SpiBus
