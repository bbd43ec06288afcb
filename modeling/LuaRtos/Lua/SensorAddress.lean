/-
  LuaRtos.Lua.SensorAddress

  The address of a device on a 1-wire bus, from `sensor.enumerate` through
  `sensor.setup` to the functions of sensors/ds1820.c that select a device by it.

  `lsensor_setup_prepare` joins the two halves of the address with `||`, so that the
  sensor is attached to the first device of the bus whatever the address is.

  What is sent to the device selected is left out.
-/

import LuaRtos.CLib.Hex
import LuaRtos.Drivers.Devices
import LuaRtos.Drivers.OneWire

namespace LuaRtos.Driver

open LuaRtos.CLib

/-- The address that `lsensor_enumerate_owire` reports for a device, high and low: the `int`s
    `wh` and `wl`, with the 64 bits a Lua integer is converted to in `owsensor`. -/
def enumerateAddress (rom : Rom) : BitVec 64 × BitVec 64 :=
  let rombuf := rom.toList.flatMap formatX2
  -- `%08x%08x`
  let (wh, rest) := scanX 8 0 rombuf
  let (wl, _) := scanX 8 0 rest
  ((BitVec.ofNat 32 wh).signExtend 64, (BitVec.ofNat 32 wl).signExtend 64)

/-- `setup->owire.owsensor` of `lsensor_setup_prepare`, from the third and the fourth
    argument. -/
def owsensorOf (third : BitVec 64) (fourth : Option (BitVec 64)) : BitVec 64 :=
  match fourth with
  | some low => if third <<< 32 ≠ 0 ∨ low ≠ 0 then 1 else 0
  | none => third

/-- `owire_addess_to_dev`, its `int8_t` as bits. -/
def owireAddessToDev (roms : Vector Rom 8) (address : BitVec 64) : Byte :=
  if address.toNat < 255 then address.setWidth 8
  else
    match roms.toList.findIdx? fun rom => rom.family.setWidth 64 = address with
    | some i => BitVec.ofNat 8 i
    | none => 255

/-- `TM_DS18B20_Is`. -/
def isDs18b20 (rom : Rom) : Bool :=
  rom.family = 0x28 || rom.family = 0x10 || rom.family = 0x22 || rom.family = 0x42

/-- `numDS1820dev`. -/
def numDs1820dev (roms : Vector Rom 8) : Nat := roms.toList.countP isDs18b20

/-- `ow_devices[dev].roms[0]`. -/
def firstRom (roms : Vector Rom 8) : Rom := roms.get ⟨0, Rom.size_pos⟩

/-- `ow_devices[dev].roms[i]`. -/
def romAt (roms : Vector Rom 8) (i : Int) : Result Rom :=
  if h : i.toNat < 8 then
    if 0 ≤ i then pure roms[i.toNat] else throw .outOfBounds
  else throw .outOfBounds

/-- OWIRE_ERR_INVALID_CHANNEL. -/
def owireErrInvalidChannel : Int := driverExceptionBase 11 + 1

/-- What comes of `ds1820_setup`: a driver error, or the device whose resolution it sets. -/
inductive Ds1820Setup where
  | error (exception : Int) (msg : String)
  | selects (rom : Rom)
deriving DecidableEq, Repr

/-- `ds1820_setup`. -/
def ds1820Setup (roms : Vector Rom 8) (owsensor : BitVec 64) : Result Ds1820Setup :=
  let dsDev : Byte := owsensor.setWidth 8
  let dsDev := owireAddessToDev roms (dsDev.setWidth 64)
  let numDs182 := numDs1820dev roms
  if numDs182 = 0 ∨ numDs182 < dsDev.toNat ∨ dsDev = 0 then
    pure (.error owireErrInvalidChannel "device not on bus")
  else do
    -- check for DS1820 device
    let rom ← romAt roms (dsDev.toNat - 1)
    if isDs18b20 rom then pure (.selects rom)
    else pure (.error owireErrInvalidChannel "not DS1820 device")

/-- `ds1820_set` of the resolution: the device that it selects. -/
def ds1820Set (roms : Vector Rom 8) (owsensor : BitVec 64) : Result Rom :=
  let dsDev : Byte := owsensor.setWidth 8
  let dsDev := owireAddessToDev roms (dsDev.setWidth 64)
  romAt roms (dsDev.toNat - 1)

/-- `ds1820_acquire`: the device that it reads. -/
def ds1820Acquire (roms : Vector Rom 8) (owsensor : BitVec 64) : Result Rom :=
  let sens : Byte := (owsensor - 1).setWidth 8
  let sens := owireAddessToDev roms (sens.setWidth 64)
  romAt roms sens.toNat

/-! ## Attaching by address -/

/-- `sensor.setup` is refused. -/
def Refuses (roms : Vector Rom 8) (owsensor : BitVec 64) : Prop :=
  ∃ exception msg, ds1820Setup roms owsensor = .ok (.error exception msg)

/-- The sensor is that device, in each of the functions. -/
structure Attaches (roms : Vector Rom 8) (owsensor : BitVec 64) (rom : Rom) : Prop where
  setup : ds1820Setup roms owsensor = .ok (.selects rom)
  set : ds1820Set roms owsensor = .ok rom
  acquire : ds1820Acquire roms owsensor = .ok rom

/-- The address is that of a device that was found. -/
def Reported (devices : OneWireDevices) (high low : BitVec 64) (rom : Rom) : Prop :=
  rom ∈ devices.roms.toList.take devices.numdev ∧ enumerateAddress rom = (high, low)

/-- The sensor of the address is the device of the address, which has to be one of the family;
    and there is none for an address of no device. -/
structure AddressSelects (devices : OneWireDevices) (high low : BitVec 64) : Prop where
  device : ∀ rom, Reported devices high low rom → isDs18b20 rom = true →
    Attaches devices.roms (owsensorOf high (some low)) rom
  other : ∀ rom, Reported devices high low rom → isDs18b20 rom = false →
    Refuses devices.roms (owsensorOf high (some low))
  none : (∀ rom, ¬ Reported devices high low rom) →
    Refuses devices.roms (owsensorOf high (some low))

section Address

variable {devices : OneWireDevices} {roms : Vector Rom 8} {rom rom' : Rom} {high low : BitVec 64}

/-- Four bytes as a number, the most significant first. -/
theorem bigEndian_four (a b c d : Byte) :
    bigEndian 0 [a, b, c, d] = 256 * (256 * (256 * a.toNat + b.toNat) + c.toNat) + d.toNat := by
  simp [bigEndian]

theorem bigEndian_lt (a b c d : Byte) : bigEndian 0 [a, b, c, d] < 2 ^ 32 := by
  rw [bigEndian_four]
  omega

/-- The two halves of a code. -/
theorem rom_toList (rom : Rom) :
    ∃ b c d e f g h, rom.toList = [rom.family, b, c, d] ++ [e, f, g, h] := by
  refine ⟨rom[1], rom[2], rom[3], rom[4], rom[5], rom[6], rom[7], ?_⟩
  apply List.ext_getElem
  · rw [Vector.length_toList]
    rfl
  · intro i hi _
    rw [Vector.length_toList] at hi
    obtain rfl | rfl | rfl | rfl | rfl | rfl | rfl | rfl : i = 0 ∨ i = 1 ∨ i = 2 ∨ i = 3 ∨ i = 4 ∨
        i = 5 ∨ i = 6 ∨ i = 7 := by omega
    all_goals rfl

/-- The text is read as it was printed. -/
theorem enumerateAddress_eq {a b c d a' b' c' d' : Byte}
    (h : rom.toList = [a, b, c, d] ++ [a', b', c', d']) : enumerateAddress rom =
      ((BitVec.ofNat 32 (bigEndian 0 [a, b, c, d])).signExtend 64,
        (BitVec.ofNat 32 (bigEndian 0 [a', b', c', d'])).signExtend 64) := by
  have hhigh : scanX 8 0 ([a, b, c, d].flatMap formatX2 ++ [a', b', c', d'].flatMap formatX2) =
      (bigEndian 0 [a, b, c, d], [a', b', c', d'].flatMap formatX2) :=
    scanX_formatX2 [a, b, c, d] _ 0
  have hlow : scanX 8 0 ([a', b', c', d'].flatMap formatX2 ++ []) =
      (bigEndian 0 [a', b', c', d'], []) :=
    scanX_formatX2 [a', b', c', d'] [] 0
  rw [List.append_nil] at hlow
  unfold enumerateAddress
  rw [h, List.flatMap_append]
  simp only [hhigh, hlow]

/-- An `int` is kept in a Lua integer. -/
theorem setWidth_signExtend (x : BitVec 32) : (x.signExtend 64).setWidth 32 = x := by
  apply BitVec.eq_of_getLsbD_eq
  intro i hi
  have hi' : i < 64 := by omega
  rw [BitVec.getLsbD_setWidth, BitVec.getLsbD_signExtend, if_pos hi, decide_eq_true hi,
    decide_eq_true hi', Bool.true_and, Bool.true_and]

theorem word_inj {m n : Nat} (hm : m < 2 ^ 32) (hn : n < 2 ^ 32)
    (h : (BitVec.ofNat 32 m).signExtend 64 = (BitVec.ofNat 32 n).signExtend 64) : m = n := by
  have hword := congrArg (BitVec.setWidth 32) h
  rw [setWidth_signExtend, setWidth_signExtend] at hword
  have hnat := congrArg BitVec.toNat hword
  rwa [BitVec.toNat_ofNat, BitVec.toNat_ofNat, Nat.mod_eq_of_lt hm, Nat.mod_eq_of_lt hn] at hnat

theorem bigEndian_inj {a b c d a' b' c' d' : Byte}
    (h : bigEndian 0 [a, b, c, d] = bigEndian 0 [a', b', c', d']) :
    a = a' ∧ b = b' ∧ c = c' ∧ d = d' := by
  have hb := b.isLt
  have hc := c.isLt
  have hd := d.isLt
  have hb' := b'.isLt
  have hc' := c'.isLt
  have hd' := d'.isLt
  rw [bigEndian_four, bigEndian_four] at h
  refine ⟨?_, ?_, ?_, ?_⟩
  all_goals
    apply BitVec.eq_of_toNat_eq
    omega

/-- No two devices have the same address. -/
theorem enumerateAddress_inj (h : enumerateAddress rom = enumerateAddress rom') : rom = rom' := by
  obtain ⟨b, c, d, e, f, g, k, hrom⟩ := rom_toList rom
  obtain ⟨b', c', d', e', f', g', k', hrom'⟩ := rom_toList rom'
  rw [enumerateAddress_eq hrom, enumerateAddress_eq hrom', Prod.mk.injEq] at h
  obtain ⟨h₀, h₁, h₂, h₃⟩ := bigEndian_inj
    (word_inj (bigEndian_lt _ _ _ _) (bigEndian_lt _ _ _ _) h.1)
  obtain ⟨h₄, h₅, h₆, h₇⟩ := bigEndian_inj
    (word_inj (bigEndian_lt _ _ _ _) (bigEndian_lt _ _ _ _) h.2)
  apply Vector.toList_inj.mp
  rw [hrom, hrom', h₀, h₁, h₂, h₃, h₄, h₅, h₆, h₇]

/-- The high word of a code whose first byte is not zero. -/
theorem high_ne_zero (hfirst : rom.family ≠ 0) (h : enumerateAddress rom = (high, low)) :
    high <<< 32 ≠ 0 := by
  obtain ⟨b, c, d, e, f, g, k, hrom⟩ := rom_toList rom
  rw [enumerateAddress_eq hrom, Prod.mk.injEq] at h
  have hlt := bigEndian_lt rom.family b c d
  have hword : high.setWidth 32 = BitVec.ofNat 32 (bigEndian 0 [rom.family, b, c, d]) := by
    rw [← h.1, setWidth_signExtend]
  have hnat := congrArg BitVec.toNat hword
  rw [BitVec.toNat_setWidth, BitVec.toNat_ofNat, Nat.mod_eq_of_lt hlt, bigEndian_four] at hnat
  intro hzero
  have hshift := congrArg BitVec.toNat hzero
  rw [BitVec.toNat_shiftLeft, Nat.shiftLeft_eq] at hshift
  apply hfirst
  apply BitVec.eq_of_toNat_eq
  change high.toNat * 2 ^ 32 % 2 ^ 64 = 0 at hshift
  change rom.family.toNat = 0
  omega

/-! ## What becomes of an address -/

theorem owsensorOf_cases (high low : BitVec 64) :
    high <<< 32 = 0 ∧ low = 0 ∧ owsensorOf high (some low) = 0 ∨
      (high <<< 32 ≠ 0 ∨ low ≠ 0) ∧ owsensorOf high (some low) = 1 := by
  unfold owsensorOf
  by_cases h : high <<< 32 ≠ 0 ∨ low ≠ 0
  · exact .inr ⟨h, if_pos h⟩
  · obtain ⟨hhigh, hlow⟩ := not_or.mp h
    exact .inl ⟨not_not.mp hhigh, not_not.mp hlow, if_neg h⟩

/-- Sensor 0 is none. -/
theorem refuses_zero (roms : Vector Rom 8) : Refuses roms 0 :=
  ⟨_, _, if_pos (.inr (.inr rfl))⟩

theorem ds1820Setup_one (roms : Vector Rom 8) : ds1820Setup roms 1 =
    if numDs1820dev roms = 0 ∨ numDs1820dev roms < 1 ∨ (1 : Byte) = 0 then
      pure (.error owireErrInvalidChannel "device not on bus")
    else if isDs18b20 (firstRom roms) then pure (.selects (firstRom roms))
    else pure (.error owireErrInvalidChannel "not DS1820 device") := rfl

/-- Sensor 1 is the first device. -/
theorem attaches_one (h : isDs18b20 (firstRom roms) = true) : Attaches roms 1 (firstRom roms) := by
  have hmem : firstRom roms ∈ roms.toList := Vector.mem_toList_iff.mpr (Vector.getElem_mem _)
  have hcount : 0 < numDs1820dev roms := List.countP_pos_iff.mpr ⟨_, hmem, h⟩
  refine ⟨?_, rfl, rfl⟩
  rw [ds1820Setup_one, if_neg, if_pos h]
  · rfl
  · rintro (hzero | hlt | hone)
    · omega
    · omega
    · cases hone

theorem refuses_one (h : isDs18b20 (firstRom roms) = false) : Refuses roms 1 := by
  unfold Refuses
  rw [ds1820Setup_one]
  split
  · exact ⟨_, _, rfl⟩
  · rw [if_neg (by rw [h]; decide)]
    exact ⟨_, _, rfl⟩

theorem Attaches.not_refuses {v : BitVec 64} (h : Attaches roms v rom) : ¬ Refuses roms v := by
  rintro ⟨exception, msg, herror⟩
  cases h.setup.symm.trans herror

/-- The address is that of the first device; or it is none, or neither the first device nor
    that of the address is one of the family. -/
def AddressCond (devices : OneWireDevices) (high low : BitVec 64) : Prop :=
  Reported devices high low (firstRom devices.roms) ∨ high <<< 32 = 0 ∧ low = 0 ∨
    isDs18b20 (firstRom devices.roms) = false ∧
      ∀ rom, Reported devices high low rom → isDs18b20 rom = false

/-- An address selects its device exactly when it is that of the first device, or nothing is
    there to be selected. -/
theorem address_selects_iff (devices : OneWireDevices) (high low : BitVec 64)
    (hfirst : ∀ rom ∈ devices.roms.toList.take devices.numdev, rom.family ≠ 0) :
    AddressSelects devices high low ↔ AddressCond devices high low := by
  have hunique : ∀ rom rom', Reported devices high low rom → Reported devices high low rom' →
      rom = rom' := fun rom rom' h h' => enumerateAddress_inj (h.2.trans h'.2.symm)
  obtain ⟨hhigh, hlow, hsensor⟩ | ⟨hsome, hsensor⟩ := owsensorOf_cases high low
  · have hnone : ∀ rom, ¬ Reported devices high low rom := fun rom h =>
      high_ne_zero (hfirst rom h.1) h.2 hhigh
    refine iff_of_true ⟨?_, ?_, ?_⟩ (.inr (.inl ⟨hhigh, hlow⟩))
    · exact fun rom h => absurd h (hnone rom)
    · exact fun rom h => absurd h (hnone rom)
    · intro _
      rw [hsensor]
      exact refuses_zero _
  · cases hfamily : isDs18b20 (firstRom devices.roms) with
    | true =>
      have hattach := attaches_one hfamily
      rw [← hsensor] at hattach
      constructor
      · intro h
        -- an address on no device would be refused
        by_cases hexists : ∃ rom, Reported devices high low rom
        · obtain ⟨rom, hrom⟩ := hexists
          cases hrom' : isDs18b20 rom with
          | true =>
            have hselects := (h.device rom hrom hrom').setup.symm.trans hattach.setup
            have heq : rom = firstRom devices.roms :=
              Ds1820Setup.selects.inj (Except.ok.inj hselects)
            rw [heq] at hrom
            exact .inl hrom
          | false => exact absurd (h.other rom hrom hrom') hattach.not_refuses
        · exact absurd (h.none (not_exists.mp hexists)) hattach.not_refuses
      · intro hcond
        obtain hreported | ⟨hhigh, hlow⟩ | ⟨hnot, -⟩ := hcond
        · refine ⟨?_, ?_, ?_⟩
          · intro rom hrom _
            rw [hunique _ _ hrom hreported]
            exact hattach
          · intro rom hrom hnot
            rw [hunique _ _ hrom hreported, hfamily] at hnot
            cases hnot
          · exact fun h => absurd hreported (h _)
        · exact (hsome.elim (fun h => h hhigh) (fun h => h hlow)).elim
        · rw [hfamily] at hnot
          cases hnot
    | false =>
      have hrefuse := refuses_one hfamily
      rw [← hsensor] at hrefuse
      have hnot : ∀ {rom}, ¬ Attaches devices.roms (owsensorOf high (some low)) rom :=
        fun h => h.not_refuses hrefuse
      constructor
      · intro h
        refine .inr (.inr ⟨hfamily, fun rom hrom => ?_⟩)
        by_contra htrue
        exact hnot (h.device rom hrom (eq_true_of_ne_false htrue))
      · intro hcond
        refine ⟨fun rom hrom htrue => ?_, fun _ _ _ => hrefuse, fun _ => hrefuse⟩
        obtain hreported | ⟨hhigh, hlow⟩ | ⟨-, hall⟩ := hcond
        · rw [hunique _ _ hrom hreported, hfamily] at htrue
          cases htrue
        · exact (hsome.elim (fun h => h hhigh) (fun h => h hlow)).elim
        · rw [hall rom hrom] at htrue
          cases htrue

end Address

/-- Two DS18B20, as a search has found them. -/
def twoDevices : OneWireDevices where
  device := ⟨0, 0, false, Vector.replicate 8 0⟩
  numdev := 2
  roms := #v[#v[0x28, 1, 0, 0, 0, 0, 0, 0], #v[0x28, 2, 0, 0, 0, 0, 0, 0], Vector.replicate 8 0,
    Vector.replicate 8 0, Vector.replicate 8 0, Vector.replicate 8 0, Vector.replicate 8 0,
    Vector.replicate 8 0]

theorem twoDevices_first :
    ∀ rom ∈ twoDevices.roms.toList.take twoDevices.numdev, rom.family ≠ 0 := by
  intro rom hrom
  have hlist : twoDevices.roms.toList.take twoDevices.numdev =
      [#v[0x28, 1, 0, 0, 0, 0, 0, 0], #v[0x28, 2, 0, 0, 0, 0, 0, 0]] := rfl
  rw [hlist, List.mem_cons, List.mem_singleton] at hrom
  obtain rfl | rfl := hrom
  · decide
  · decide

/-- The address of the first one. -/
theorem address_selects_iff_first : AddressSelects twoDevices 0x28010000 0 :=
  (address_selects_iff twoDevices 0x28010000 0 twoDevices_first).mpr
    (.inl ⟨List.mem_cons_self, by decide⟩)

/-- The address of the second one attaches the first. -/
theorem second_address_selects_first :
    Reported twoDevices 0x28020000 0 #v[0x28, 2, 0, 0, 0, 0, 0, 0] ∧
      ds1820Setup twoDevices.roms (owsensorOf 0x28020000 (some 0)) =
        .ok (.selects #v[0x28, 1, 0, 0, 0, 0, 0, 0]) ∧
      ¬ AddressSelects twoDevices 0x28020000 0 := by
  have hreported : Reported twoDevices 0x28020000 0 #v[0x28, 2, 0, 0, 0, 0, 0, 0] :=
    ⟨List.mem_cons_of_mem _ List.mem_cons_self, by decide⟩
  have hsetup : ds1820Setup twoDevices.roms (owsensorOf 0x28020000 (some 0)) =
      .ok (.selects #v[0x28, 1, 0, 0, 0, 0, 0, 0]) := by decide
  refine ⟨hreported, hsetup, fun h => ?_⟩
  have hsecond := (h.device _ hreported (by decide)).setup
  cases hsetup.symm.trans hsecond

end LuaRtos.Driver
