/-
  LuaRtos.Lua.Sensor

  The instances of Lua/modules/sensor.c: `sensor.setup`, `sensor.enumerate` on a 1-wire
  bus, and the collection of sensor objects.

  An object frees its instance when it is collected, and `sensor.enumerate` frees those
  that it has set up; neither removes the handle from the list of sensor.c.  So a run
  keeps the handles to living instances as long as no instance is ever freed so.

  What a call prints or returns is left out, and so is the Lua error that it raises with
  a driver error.
-/

import LuaRtos.CLib.While
import LuaRtos.Drivers.SensorAtomic
import LuaRtos.Lts.Run

namespace LuaRtos.Driver

open LuaRtos.CLib Sys

/-- sensor.c and the sensor objects of Lua: of an object its instance, none for NULL. -/
structure SensorModule where
  drv : Sensors
  objects : Heap (Option Nat)

/-- The state of the loop of `lsensor_enumerate_owire`: `i` is the place of `csensor`, and
    `unit` is its variable `instance`. -/
structure Enumeration where
  drv : Sensors
  i : Nat
  unit : Option Nat
  round : Nat

/-- A call of Lua, or of its collector. -/
inductive SensorCall where
  | setup (id : String) (setup : SensorSetup) (env : SensorEnv) (userdata : Bool)
  | gc (object : Nat)
  | enumerate (pin : Int) (envs : Nat → SensorEnv)

section Calls

variable (sd1bit : Bool) (sensors : List Sensor)

/-- `get_sensor`. -/
def getSensor (id : String) : Option Sensor := sensors.find? fun sensor => sensor.id = id

/-- `lsensor_setup`; `userdata` is whether there is memory for the object.  Where there is
    none Lua raises an error. -/
def lsensorSetup (s : SensorModule) (id : String) (setup : SensorSetup) (env : SensorEnv)
    (userdata : Bool) : Result SensorModule :=
  match getSensor sensors id with
  | none => pure s
  | some sensor => do
    let (error, unit, drv) ← sensorSetup sd1bit s.drv env sensor setup
    match error with
    | some _ => pure { s with drv := drv }
    | none =>
      if userdata then pure ⟨drv, s.objects.alloc unit⟩
      else pure { s with drv := drv }

/-- `lsensor_ins_gc`, and the object goes. -/
def lsensorInsGc (s : SensorModule) (object : Nat) : Result SensorModule := do
  let unit ← s.objects.read object
  let objects ← s.objects.free object
  match unit with
  | none => pure { s with objects := objects }
  | some p => do
    let blocks ← s.drv.units.blocks.free p
    pure ⟨{ s.drv with units := { s.drv.units with blocks := blocks } }, objects⟩

/-- The setup structure of `lsensor_enumerate_owire`, as far as it is written. -/
def enumerateSetup (pin : Int) : SensorSetup :=
  ⟨UInt8.ofInt pin, 0, 1, 0, 0, 0, 0, 0, 0, 0, 0⟩

/-- `sensor_get(instance, "type", &type)` finds a value. -/
def SensorInstance.hasType (x : SensorInstance) : Bool :=
  x.sensor.get && x.sensor.properties.any fun property => property.id = some "type"

/-- One round of the loop on a 1-wire sensor; `continue` leaves `csensor` where it is. -/
def enumerateSensor (pin : Int) (env : SensorEnv) (sensor : Sensor) (st : Enumeration) :
    Result Enumeration := do
  let (_, written, drv) ← sensorSetup sd1bit st.drv env sensor (enumerateSetup pin)
  match written <|> st.unit with
  | none => pure ⟨drv, st.i + 1, none, st.round + 1⟩
  | some p => do
    let x ← drv.units.blocks.read p
    if x.hasType then do
      let blocks ← drv.units.blocks.free p
      pure ⟨{ drv with units := { drv.units with blocks := blocks } }, st.i + 1, some p,
        st.round + 1⟩
    else pure ⟨drv, st.i, some p, st.round + 1⟩

/-- One round of the loop of `lsensor_enumerate_owire`. -/
def enumerateRound (pin : Int) (envs : Nat → SensorEnv) (st : Enumeration) : Result Enumeration :=
  match sensors[st.i]? with
  | none => pure st
  | some csensor =>
    match csensor.interface, getSensor sensors csensor.id with
    | .owire, some sensor => enumerateSensor sd1bit pin (envs st.round) sensor st
    | _, _ => pure { st with i := st.i + 1, round := st.round + 1 }

/-- `csensor->id`. -/
def enumerateCond (st : Enumeration) : Bool := st.i < sensors.length

/-- `lsensor_enumerate_owire` ends and leaves `drv'`. -/
def Enumerates (drv : Sensors) (pin : Int) (envs : Nat → SensorEnv) (drv' : Sensors) : Prop :=
  ∃ st, Ends (enumerateCond sensors) (enumerateRound sd1bit sensors pin envs) ⟨drv, 0, none, 0⟩ st ∧
    st.drv = drv'

/-- A call that returns. -/
inductive SensorStep : SensorModule → SensorCall → SensorModule → Prop
  | setup {s s' id setup env userdata}
      (h : lsensorSetup sd1bit sensors s id setup env userdata = .ok s') :
      SensorStep s (.setup id setup env userdata) s'
  | gc {s s' object} (h : lsensorInsGc s object = .ok s') : SensorStep s (.gc object) s'
  | enumerate {s pin envs drv'} (h : Enumerates sd1bit sensors s.drv pin envs drv') :
      SensorStep s (.enumerate pin envs) { s with drv := drv' }

/-- The runs of the calls, with the sensors of the build. -/
def sensorSys : Lts SensorModule SensorCall where
  init s := s = ⟨.start, []⟩
  step := SensorStep sd1bit sensors

end Calls

/-! ## Instances and objects -/

/-- The object has the instance. -/
def SensorModule.Holds (s : SensorModule) (object p : Nat) : Prop :=
  s.objects[object]? = some (some (some p))

/-- The handle is live and leads to the block. -/
def SensorModule.Handle (s : SensorModule) (k : Int) (p : Nat) : Prop :=
  listGet s.drv.units.list k = .ok (.success, some p)

structure SensorModule.Sound (s : SensorModule) : Prop where
  /-- A live handle refers to an instance that was not freed. -/
  handle : ∀ k p, s.Handle k p → s.drv.units.blocks.Live p
  /-- An instance that was not freed has an object, whose collection frees it. -/
  owned : ∀ p, s.drv.units.blocks.Live p → ∃ object, s.Holds object p
  /-- An instance of an object was not freed, and is that of no other object. -/
  object : ∀ object p, s.Holds object p → s.drv.units.blocks.Live p
  alone : ∀ object object' p, s.Holds object p → s.Holds object' p → object = object'
  /-- The live handles are those of objects, one for each. -/
  used : ∀ k p, s.Handle k p → ∃ object, s.Holds object p
  apart : ∀ k k' p, s.Handle k p → s.Handle k' p → k = k'

/-- The list stores the map, whose values are the instances of the objects. -/
structure SensorModule.Owned (s : SensorModule) (m : ListMap Nat) : Prop where
  refines : Refines s.drv.units.list m
  entry : ∀ k p, m.lookup k = some p → ∃ object, s.Holds object p
  apart : ∀ k k' p, m.lookup k = some p → m.lookup k' = some p → k = k'
  object : ∀ object p, s.Holds object p → s.drv.units.blocks.Live p
  owned : ∀ p, s.drv.units.blocks.Live p → ∃ object, s.Holds object p
  alone : ∀ object object' p, s.Holds object p → s.Holds object' p → object = object'

/-- The setup of a 1-wire sensor that fails with a driver error, on any bus. -/
def OwireSetupFails (env : SensorEnv) (sensor : Sensor) (setup : SensorSetup) : Prop :=
  sensor.interface = .owire ∧ env.error.isSome ∧
    (sensor.acquire = false ∨ env.block = false ∨ setup.gpio.toNat = 0 ∨
      sensor.setup = true ∧ env.specific.Fails)

/-- What a run keeps to: there is memory for the list and for objects, no object that has an
    instance is collected, and on a 1-wire bus the setup of every sensor of the build fails. -/
def SensorModule.Careful (sensors : List Sensor) (s : SensorModule) : SensorCall → Prop
  | .setup id _ env userdata => userdata = true ∧ AddCond s.drv.units.list env.index ∧
      ∀ sensor ∈ getSensor sensors id, sensor.interface ≠ .spi
  | .gc object => ∀ p, ¬ s.Holds object p
  | .enumerate pin envs => ∀ csensor ∈ sensors, csensor.interface = .owire →
      ∀ sensor ∈ getSensor sensors csensor.id, ∀ round,
        AddCond s.drv.units.list (envs round).index ∧
          OwireSetupFails (envs round) sensor (enumerateSetup pin)

section Instances

variable {sd1bit : Bool} {sensors : List Sensor} {s s' : SensorModule} {m : ListMap Nat}

theorem SensorModule.Owned.handle_iff (h : s.Owned m) {k : Int} {p : Nat} :
    s.Handle k p ↔ m.lookup k = some p := by
  unfold SensorModule.Handle
  constructor
  · intro hget
    have hr := listGet_eq_ok h.refines hget
    cases hk : m.lookup k with
    | none =>
      rw [hk] at hr
      cases hr
    | some q =>
      rw [hk] at hr
      cases hr
      rfl
  · exact listGet_live h.refines

theorem SensorModule.Owned.sound (h : s.Owned m) : s.Sound := by
  refine ⟨?_, h.owned, h.object, h.alone, ?_, ?_⟩
  · intro k p hk
    obtain ⟨object, hobject⟩ := h.entry k p (h.handle_iff.mp hk)
    exact h.object object p hobject
  · exact fun k p hk => h.entry k p (h.handle_iff.mp hk)
  · exact fun k k' p hk hk' => h.apart k k' p (h.handle_iff.mp hk) (h.handle_iff.mp hk')

/-- Units that are the same, and objects that have the same instances. -/
theorem SensorModule.Owned.same (h : s.Owned m) (hunits : s.drv.units.Same s'.drv.units)
    (hholds : ∀ object p, s'.Holds object p ↔ s.Holds object p) : s'.Owned m := by
  have hlive : ∀ p, s'.drv.units.blocks.Live p ↔ s.drv.units.blocks.Live p := fun p =>
    exists_congr fun x => hunits.blocks p x
  refine ⟨hunits.list m h.refines, ?_, h.apart, ?_, ?_, ?_⟩
  · intro k p hk
    obtain ⟨object, hobject⟩ := h.entry k p hk
    exact ⟨object, (hholds object p).mpr hobject⟩
  · intro object p hobject
    exact (hlive p).mpr (h.object object p ((hholds object p).mp hobject))
  · intro p hp
    obtain ⟨object, hobject⟩ := h.owned p ((hlive p).mp hp)
    exact ⟨object, (hholds object p).mpr hobject⟩
  · intro object object' p hobject hobject'
    exact h.alone object object' p ((hholds object p).mp hobject) ((hholds object' p).mp hobject')

/-- A new instance, its handle and its object. -/
theorem SensorModule.Owned.insert (h : s.Owned m) {drv' : Sensors} {k : Int} {x : SensorInstance}
    (hfresh : m.lookup k = none)
    (href : Refines drv'.units.list (m.insert k s.drv.units.blocks.length))
    (hblocks : drv'.units.blocks = s.drv.units.blocks.alloc x) :
    SensorModule.Owned ⟨drv', s.objects.alloc (some s.drv.units.blocks.length)⟩
      (m.insert k s.drv.units.blocks.length) := by
  have hlive : ∀ p, drv'.units.blocks.Live p ↔
      s.drv.units.blocks.Live p ∨ p = s.drv.units.blocks.length := by
    intro p
    rw [hblocks]
    constructor
    · rintro ⟨y, hy⟩
      obtain hold | ⟨rfl, -⟩ := Heap.getElem?_alloc_iff.mp hy
      · exact .inl ⟨y, hold⟩
      · exact .inr rfl
    · rintro (⟨y, hy⟩ | rfl)
      · exact ⟨y, Heap.getElem?_alloc_iff.mpr (.inl hy)⟩
      · exact ⟨x, Heap.getElem?_alloc_self⟩
  have hnew : ¬ s.drv.units.blocks.Live s.drv.units.blocks.length := by
    rintro ⟨y, hy⟩
    rw [List.getElem?_eq_none (Nat.le_refl _)] at hy
    cases hy
  have hholds : ∀ object p,
      SensorModule.Holds ⟨drv', s.objects.alloc (some s.drv.units.blocks.length)⟩ object p ↔
        s.Holds object p ∨ object = s.objects.length ∧ p = s.drv.units.blocks.length := by
    intro object p
    unfold SensorModule.Holds
    rw [Heap.getElem?_alloc_iff, Option.some.injEq, eq_comm (a := p)]
  have hlookup : ∀ k' p, (m.insert k s.drv.units.blocks.length).lookup k' = some p →
      m.lookup k' = some p ∨ k' = k ∧ p = s.drv.units.blocks.length := by
    intro k' p hk'
    by_cases hkk : k' = k
    · subst hkk
      rw [Finmap.lookup_insert] at hk'
      exact .inr ⟨rfl, (Option.some.inj hk').symm⟩
    · rw [Finmap.lookup_insert_of_ne _ hkk] at hk'
      exact .inl hk'
  -- the block is that of no handle and no object before
  have hentry : ∀ k', m.lookup k' ≠ some s.drv.units.blocks.length := by
    intro k' hk'
    obtain ⟨object, hobject⟩ := h.entry k' _ hk'
    exact hnew (h.object object _ hobject)
  refine ⟨href, ?_, ?_, ?_, ?_, ?_⟩
  · intro k' p hk'
    obtain hold | ⟨rfl, rfl⟩ := hlookup k' p hk'
    · obtain ⟨object, hobject⟩ := h.entry k' p hold
      exact ⟨object, (hholds object p).mpr (.inl hobject)⟩
    · exact ⟨s.objects.length, (hholds _ _).mpr (.inr ⟨rfl, rfl⟩)⟩
  · intro k₁ k₂ p h₁ h₂
    obtain hold₁ | ⟨rfl, rfl⟩ := hlookup k₁ p h₁
    · obtain hold₂ | ⟨rfl, rfl⟩ := hlookup k₂ p h₂
      · exact h.apart k₁ k₂ p hold₁ hold₂
      · exact absurd hold₁ (hentry k₁)
    · obtain hold₂ | ⟨rfl, -⟩ := hlookup k₂ _ h₂
      · exact absurd hold₂ (hentry k₂)
      · rfl
  · intro object p hobject
    obtain hold | ⟨-, rfl⟩ := (hholds object p).mp hobject
    · exact (hlive p).mpr (.inl (h.object object p hold))
    · exact (hlive _).mpr (.inr rfl)
  · intro p hp
    obtain hold | rfl := (hlive p).mp hp
    · obtain ⟨object, hobject⟩ := h.owned p hold
      exact ⟨object, (hholds object p).mpr (.inl hobject)⟩
    · exact ⟨s.objects.length, (hholds _ _).mpr (.inr ⟨rfl, rfl⟩)⟩
  · intro o₁ o₂ p h₁ h₂
    obtain hold₁ | ⟨rfl, rfl⟩ := (hholds o₁ p).mp h₁
    · obtain hold₂ | ⟨rfl, rfl⟩ := (hholds o₂ p).mp h₂
      · exact h.alone o₁ o₂ p hold₁ hold₂
      · exact absurd (h.object o₁ _ hold₁) hnew
    · obtain hold₂ | ⟨rfl, -⟩ := (hholds o₂ _).mp h₂
      · exact absurd (h.object o₂ _ hold₂) hnew
      · rfl

/-! ## The calls -/

/-- What `sensor_setup` does with the list: nothing that stays, or a new instance. -/
theorem sensorSetup_units {t t' : Sensors} {env : SensorEnv} {sensor : Sensor}
    {setup : SensorSetup} {e u : Option Nat} (h : Refines t.units.list m)
    (hadd : AddCond t.units.list env.index) (hspi : sensor.interface ≠ .spi)
    (hrun : sensorSetup sd1bit t env sensor setup = .ok (e, u, t')) :
    (u = none ∧ t.units.Same t'.units ∧
      (t'.units.list = t.units.list ∨ t'.units.list.free ≠ none)) ∨
    (e = none ∧ u = some t.units.blocks.length ∧ ∃ k x, m.lookup k = none ∧
      Refines t'.units.list (m.insert k t.units.blocks.length) ∧
        t'.units.blocks = t.units.blocks.alloc x) := by
  by_cases hearly : sensor.acquire = false ∨ env.block = false
  · obtain ⟨exception, heq⟩ := sensorSetup_early sd1bit t setup hearly
    cases heq.symm.trans hrun
    exact .inl ⟨rfl, .refl _, .inl rfl⟩
  · obtain ⟨hacquire, hblock⟩ := not_or.mp hearly
    rw [Bool.not_eq_false] at hacquire hblock
    obtain ⟨l', u', hcalls, hfresh, hins⟩ := sensorSetup_run sd1bit setup h hacquire hblock hadd
    cases hx : t.interface sd1bit env sensor setup with
    | none => exact absurd (sensorInterfaceSetup_none.mp hx) hspi
    | some x =>
      cases x with
      | error f => cases (hcalls.faults f hx).symm.trans hrun
      | ok r =>
        obtain ⟨e', setup', io'⟩ := r
        cases e' with
        | some p =>
          cases (hcalls.fails _ _ _ hx).symm.trans hrun
          exact .inl ⟨rfl, hcalls.same, .inr hcalls.free⟩
        | none =>
          cases hafter : (t.added l' sensor setup' io').specific env sensor with
          | mk e₁ t₁ =>
            cases e₁ with
            | some p =>
              cases (hcalls.specific _ _ _ _ hx hafter).symm.trans hrun
              exact .inl ⟨rfl, hcalls.same, .inr hcalls.free⟩
            | none =>
              cases (hcalls.done _ _ _ hx hafter).symm.trans hrun
              have hunits := specific_units (t.added l' sensor setup' io') env sensor
              rw [hafter] at hunits
              have hlist : t'.units.list = l' := congrArg Units.list hunits
              refine .inr ⟨rfl, rfl, _, _, hfresh, ?_, congrArg Units.blocks hunits⟩
              rwa [hlist]

theorem lsensorSetup_owned (h : s.Owned m) {id : String} {setup : SensorSetup} {env : SensorEnv}
    {userdata : Bool} (hok : s.Careful sensors (.setup id setup env userdata))
    (hrun : lsensorSetup sd1bit sensors s id setup env userdata = .ok s') :
    ∃ m', s'.Owned m' := by
  obtain ⟨rfl, hadd, hspi⟩ := hok
  unfold lsensorSetup at hrun
  cases hsensor : getSensor sensors id with
  | none =>
    rw [hsensor] at hrun
    cases hrun
    exact ⟨m, h⟩
  | some sensor =>
    rw [hsensor] at hrun
    obtain ⟨⟨e, u, drv'⟩, hsetup, hrun⟩ := bind_eq_ok.mp hrun
    obtain ⟨rfl, hsame, -⟩ | ⟨rfl, rfl, k, x, hfresh, href, hblocks⟩ :=
      sensorSetup_units h.refines hadd (hspi sensor hsensor) hsetup
    · cases e with
      | some p =>
        cases hrun
        exact ⟨m, h.same hsame fun _ _ => Iff.rfl⟩
      | none =>
        cases hrun
        refine ⟨m, h.same hsame fun object p => ?_⟩
        unfold SensorModule.Holds
        rw [Heap.getElem?_alloc_iff]
        simp
    · cases hrun
      exact ⟨_, h.insert hfresh href hblocks⟩

theorem lsensorInsGc_owned (h : s.Owned m) {object : Nat} (hok : ∀ p, ¬ s.Holds object p)
    (hrun : lsensorInsGc s object = .ok s') : s'.Owned m := by
  obtain ⟨u, hread, hrun⟩ := bind_eq_ok.mp hrun
  obtain ⟨objects, hfree, hrun⟩ := bind_eq_ok.mp hrun
  cases u with
  | some p => exact absurd (Heap.read_eq_ok.mp hread) (hok p)
  | none =>
    cases hrun
    obtain ⟨-, rfl⟩ := Heap.free_eq_ok.mp hfree
    refine h.same (.refl _) fun o p => ?_
    unfold SensorModule.Holds
    rw [Heap.getElem?_set_none_iff, and_iff_left_iff_imp]
    rintro hp rfl
    exact hok p hp

/-! ## The enumeration -/

theorem sensorOwireSetup_total {mem : Option (DriverError DriverId)}
    (sd1bit : Bool) (io : Interfaces) (setup : SensorSetup) (hmem : mem.isSome) :
    ∃ r, sensorOwireSetup sd1bit io mem setup = .ok r := by
  by_cases hfails : OwireFails io setup.gpio.toNat
  · have hspec : SetupSpec io mem
        ((sensorOwireSetup sd1bit io mem setup).map fun x => (x.1, x.2.2)) _ _ _ :=
      sensorOwireSetup_spec
    obtain ⟨p, io', hrun, -⟩ := hspec.undone hmem hfails
    cases hx : sensorOwireSetup sd1bit io mem setup with
    | ok r => exact ⟨r, rfl⟩
    | error f =>
      rw [hx] at hrun
      cases hrun
  · obtain ⟨hzero, hnew⟩ := not_or.mp hfails
    rw [sensorOwireSetup_eq]
    cases hset : owireCheckpin io setup.gpio.toNat with
    | some dev => exact ⟨_, rfl⟩
    | none =>
      have hnot := owireCheckpin_eq_none.mp hset
      obtain ⟨hle, hnew⟩ := not_or.mp (not_and.mp hnew hnot)
      obtain ⟨hfree, hgrant⟩ := not_or.mp hnew
      rw [not_not] at hfree
      cases hdev : owireCheckpin io 0 with
      | none => exact absurd hfree (owireCheckpin_eq_none.mp hdev)
      | some dev =>
        have hrange : 1 ≤ setup.gpio.toNat ∧ setup.gpio.toNat ≤ 31 := by omega
        obtain ⟨drv, hlock, -, -⟩ :=
          lockPin_granted (by unfold cpuLastGpio; omega) (not_not.mp hgrant)
        simp only [owireSetupPin_eq hnot hrange hdev, hlock, ok_bind, pure_eq_ok]
        split
        · exact ⟨_, rfl⟩
        · exact ⟨_, rfl⟩

theorem sensorSetup_owire_fails (sd1bit : Bool) {t : Sensors} {env : SensorEnv} {sensor : Sensor}
    {setup : SensorSetup} (h : Refines t.units.list m) (hadd : AddCond t.units.list env.index)
    (hfails : OwireSetupFails env sensor setup) :
    ∃ p u t', sensorSetup sd1bit t env sensor setup = .ok (some p, u, t') := by
  obtain ⟨howire, hmem, hfails⟩ := hfails
  by_cases hearly : sensor.acquire = false ∨ env.block = false
  · obtain ⟨exception, heq⟩ := sensorSetup_early sd1bit t setup hearly
    obtain ⟨p, io', hfail, -⟩ := Interfaces.fail_some hmem t.io .setup .sensor exception none
    refine ⟨p, none, { t with io := io' }, ?_⟩
    rw [heq]
    unfold Sensors.fail
    rw [hfail]
  · obtain ⟨hacquire, hblock⟩ := not_or.mp hearly
    have hlate := (hfails.resolve_left hacquire).resolve_left hblock
    rw [Bool.not_eq_false] at hacquire hblock
    obtain ⟨l', u', hcalls, -, -⟩ := sensorSetup_run sd1bit setup h hacquire hblock hadd
    obtain ⟨r, hr⟩ := sensorOwireSetup_total sd1bit t.io setup hmem
    have hx : t.interface sd1bit env sensor setup = some (.ok r) := by
      unfold Sensors.interface
      rw [howire, ← hr]
      rfl
    obtain ⟨e, setup', io'⟩ := r
    cases e with
    | some p => exact ⟨_, _, _, hcalls.fails _ _ _ hx⟩
    | none =>
      obtain hzero | ⟨hsetup, hspecific⟩ := hlate
      · -- pin 0 is no pin of a bus
        have hspec : SetupSpec t.io env.error
            ((sensorOwireSetup sd1bit t.io env.error setup).map fun x => (x.1, x.2.2)) _ _ _ :=
          sensorOwireSetup_spec
        obtain ⟨p, io₁, hrun, -⟩ := hspec.undone hmem (.inl hzero)
        rw [hr] at hrun
        cases hrun
      · obtain ⟨p, s₁, hafter, -⟩ := specific_fails (t.added l' sensor setup' io') hsetup
          hspecific hmem
        exact ⟨_, _, _, hcalls.specific _ _ _ _ hx hafter⟩

/-- What the rounds of an enumeration leave of the state that it started in. -/
structure Enumeration.Kept (drv : Sensors) (st : Enumeration) : Prop where
  unit : st.unit = none
  units : drv.units.Same st.drv.units
  list : st.drv.units.list = drv.units.list ∨ st.drv.units.list.free ≠ none

theorem enumerateRound_kept (sd1bit : Bool) {pin : Int} {envs : Nat → SensorEnv} {st : Enumeration}
    (h : s.Owned m) (hok : s.Careful sensors (.enumerate pin envs)) (hst : st.Kept s.drv)
    (hi : st.i < sensors.length) :
    ∃ st', enumerateRound sd1bit sensors pin envs st = .ok st' ∧ st'.i = st.i + 1 ∧
      st'.Kept s.drv := by
  have hcsensor := List.getElem?_eq_getElem hi
  generalize sensors[st.i] = csensor at hcsensor
  have hpass : st.Kept s.drv → ∃ st', (.ok { st with i := st.i + 1, round := st.round + 1 } :
      Result Enumeration) = .ok st' ∧ st'.i = st.i + 1 ∧ st'.Kept s.drv := fun hst =>
    ⟨_, rfl, rfl, hst.unit, hst.units, hst.list⟩
  unfold enumerateRound
  simp only [hcsensor]
  split
  · rename_i sensor howire hsensor
    obtain ⟨hadd, hfails⟩ := hok csensor (List.mem_of_getElem? hcsensor) howire sensor hsensor
      st.round
    have href := hst.units.list m h.refines
    have hadd' : AddCond st.drv.units.list (envs st.round).index := by
      obtain hlist | hfree := hst.list
      · rw [hlist]
        exact hadd
      · exact .inl hfree
    obtain ⟨p, u, t', hrun⟩ := sensorSetup_owire_fails sd1bit href hadd' hfails
    have hspi : sensor.interface ≠ .spi := by
      rw [hfails.1]
      decide
    obtain ⟨rfl, hsame, hlist⟩ | ⟨hnone, -⟩ := sensorSetup_units href hadd' hspi hrun
    · refine ⟨⟨t', st.i + 1, none, st.round + 1⟩, ?_, rfl, rfl, hst.units.trans hsame, ?_⟩
      · unfold enumerateSensor
        rw [hrun, ok_bind, hst.unit]
        rfl
      · obtain heq | hfree := hlist
        · rw [heq]
          exact hst.list
        · exact .inr hfree
    · cases hnone
  · exact hpass hst

/-- The enumeration ends, and leaves the instances as they were. -/
theorem enumerate_kept (sd1bit : Bool) {pin : Int} {envs : Nat → SensorEnv} (h : s.Owned m)
    (hok : s.Careful sensors (.enumerate pin envs)) :
    ∃ drv', Enumerates sd1bit sensors s.drv pin envs drv' ∧ s.drv.units.Same drv'.units := by
  have hrounds : ∀ n st, st.Kept s.drv → sensors.length - st.i = n →
      ∃ st', Rounds (enumerateCond sensors) (enumerateRound sd1bit sensors pin envs) st st' ∧
        enumerateCond sensors st' = false ∧ st'.Kept s.drv := by
    intro n
    induction n with
    | zero =>
      intro st hst hn
      exact ⟨st, .refl st, decide_eq_false (by omega), hst⟩
    | succ n ih =>
      intro st hst hn
      have hi : st.i < sensors.length := by omega
      obtain ⟨st₁, hround, hnext, hst₁⟩ := enumerateRound_kept sd1bit h hok hst hi
      obtain ⟨st', hrounds, hend, hst'⟩ := ih st₁ hst₁ (by omega)
      exact ⟨st', .head (decide_eq_true hi) hround hrounds, hend, hst'⟩
  obtain ⟨st', hrounds, hend, hst'⟩ :=
    hrounds _ ⟨s.drv, 0, none, 0⟩ ⟨rfl, .refl _, .inl rfl⟩ rfl
  exact ⟨st'.drv, ⟨st', hrounds.ends hend, rfl⟩, hst'.units⟩

/-! ## Runs -/

theorem SensorModule.owned_start : SensorModule.Owned ⟨.start, []⟩ ∅ := by
  refine ⟨refines_init 0, ?_, ?_, ?_, ?_, ?_⟩
  · intro k p hk
    rw [Finmap.lookup_empty] at hk
    cases hk
  · intro k k' p hk
    rw [Finmap.lookup_empty] at hk
    cases hk
  · rintro object p ⟨⟩
  · rintro p ⟨x, ⟨⟩⟩
  · rintro object object' p ⟨⟩

theorem SensorModule.Owned.step {a : SensorCall} (h : s.Owned m) (hok : s.Careful sensors a)
    (hstep : SensorStep sd1bit sensors s a s') : ∃ m', s'.Owned m' := by
  cases hstep with
  | setup hrun => exact lsensorSetup_owned h hok hrun
  | gc hrun => exact ⟨m, lsensorInsGc_owned h hok hrun⟩
  | enumerate hrun =>
    obtain ⟨drv', hkept, hsame⟩ := enumerate_kept sd1bit h hok
    obtain ⟨st, hends, rfl⟩ := hrun
    obtain ⟨st', hends', rfl⟩ := hkept
    obtain rfl := hends.unique hends'
    exact ⟨m, h.same hsame fun _ _ => Iff.rfl⟩

/-- As long as no instance is freed by its object or by an enumeration, handles, instances
    and objects agree, and the enumerations end. -/
theorem sensor_instances_sound
    (h : (sensorSys sd1bit sensors).Reach (SensorModule.Careful sensors) s) :
    s.Sound ∧ ∀ pin envs, s.Careful sensors (.enumerate pin envs) →
      ∃ drv', Enumerates sd1bit sensors s.drv pin envs drv' := by
  have howned : ∃ m, s.Owned m := by
    refine Lts.Reach.invariant (I := fun t => ∃ m, SensorModule.Owned t m) ?_ ?_ h
    · rintro t rfl
      exact ⟨∅, SensorModule.owned_start⟩
    · rintro t t' a ⟨m, hm⟩ hok hstep
      exact hm.step hok hstep
  obtain ⟨m, hm⟩ := howned
  refine ⟨hm.sound, fun pin envs hok => ?_⟩
  obtain ⟨drv', hends, -⟩ := enumerate_kept sd1bit hm hok
  exact ⟨drv', hends⟩

end Instances

/-- sensors/dht11.c. -/
def dht11Sensor : Sensor where
  id := "DHT11"
  interface := .gpio
  data := [⟨some "temperature", .int⟩, ⟨some "humidity", .int⟩]
  properties := []
  setup := true
  acquire := true
  get := false

/-- Memory for everything, and a sensor that answers. -/
def sampleSensorEnv : SensorEnv :=
  ⟨true, true, some fun _ => ⟨0, 0, 0, none⟩, some ⟨.operation, none, 0, 0, none, none⟩, .done []⟩

/-- Pin 4. -/
def sampleSensorSetup : SensorSetup := ⟨4, 0, 0, 0, 0, 0, 0, 0, 0, 0, 0⟩

/-- A DHT11 on pin 4, in a build that has no other sensor. -/
def sampleSensorCall : SensorCall := .setup "DHT11" sampleSensorSetup sampleSensorEnv true

/-- It has handle 0, and its object. -/
theorem sensor_instances_sound_sample : ∃ s : SensorModule, s.Handle 0 0 ∧ s.Holds 0 0 ∧
    s.Sound ∧ ∀ pin envs, s.Careful [dht11Sensor] (.enumerate pin envs) →
      ∃ drv', Enumerates false [dht11Sensor] s.drv pin envs drv' := by
  have hcareful : SensorModule.Careful [dht11Sensor] ⟨.start, []⟩ sampleSensorCall := by
    refine ⟨rfl, .inr ⟨rfl, by decide⟩, ?_⟩
    rintro sensor ⟨⟩
    decide
  refine ⟨_, ?_, ?_, sensor_instances_sound (.step (.init rfl) hcareful (.setup rfl))⟩
  · rfl
  · rfl

/-- The object is collected: its instance is freed, and the handle is live. -/
theorem collected_sensor_leaves_handle :
    ∃ s, (sensorSys false [dht11Sensor]).Reach (fun _ _ => True) s ∧ s.Handle 0 0 ∧
      ¬ s.drv.units.blocks.Live 0 ∧ ¬ s.Sound := by
  have hnot : ∀ s : SensorModule, s.Handle 0 0 → ¬ s.drv.units.blocks.Live 0 → ¬ s.Sound :=
    fun s hhandle hlive hsound => hlive (hsound.handle 0 0 hhandle)
  refine ⟨_, .step (.step (.init rfl) (a := sampleSensorCall) trivial (.setup rfl)) (a := .gc 0)
    trivial (.gc rfl), ?_, ?_, hnot _ ?_ ?_⟩
  · rfl
  · rintro ⟨x, ⟨⟩⟩
  · rfl
  · rintro ⟨x, ⟨⟩⟩

end LuaRtos.Driver
