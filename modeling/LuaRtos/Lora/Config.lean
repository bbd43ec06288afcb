/-
  LuaRtos.Lora.Config

  The parameters of the LoRa driver read back as they were last set.

  `reading` is what the driver holds for each parameter, in the form in which Lua
  sees it.  A call that sets one is to change that one and no other, and a call
  that gets one is to give what was last set.
-/

import LuaRtos.Lora.Calls
import LuaRtos.Lora.Module
import LuaRtos.Lts.Run
import Mathlib.Logic.Function.Basic

namespace LuaRtos.Lora

open LuaRtos.CLib

/-! ## Calls -/

inductive Param where
  | devAddr
  | devEui
  | appEui
  | dr
  | adr
  | reTx
deriving DecidableEq, Repr

/-- A call that sets a parameter. -/
inductive SetCall where
  | devAddr (arg : CString)
  | devEui (arg : CString)
  | appEui (arg : CString)
  | dr (arg : BitVec 64)
  | adr (arg : Bool)
  | reTx (arg : BitVec 64)

/-- The digits, padded to full length. -/
def padHex (len : Nat) (s : List Byte) : List Byte := List.replicate (len - s.length) 48 ++ s

namespace SetCall

def param : SetCall → Param
  | .devAddr _ => .devAddr
  | .devEui _ => .devEui
  | .appEui _ => .appEui
  | .dr _ => .dr
  | .adr _ => .adr
  | .reTx _ => .reTx

/-- The value that is set. -/
def value : SetCall → LuaValue
  | .devAddr arg => .string (padHex 8 arg.chars)
  | .devEui arg | .appEui arg => .string (padHex 16 arg.chars)
  | .dr arg | .reTx arg => .integer arg.toInt
  | .adr arg => .boolean arg

end SetCall

def luaSet (flashId : Bool) (malloc : Malloc) (d : Driver) :
    SetCall → Result (Option LuaError × Driver)
  | .devAddr arg => lloraSetSetDevAddr flashId malloc d arg
  | .devEui arg => lloraSetDevEui flashId malloc d arg
  | .appEui arg => lloraSetAppEui flashId malloc d arg
  | .dr arg => lloraSetDr flashId d arg
  | .adr arg => lloraSetAdr flashId d arg
  | .reTx arg => lloraSetReTx flashId d arg

def luaGet (malloc : Malloc) (d : Driver) : Param → Result (LuaValue × Driver)
  | .devAddr => lloraGetDevAddr malloc d
  | .devEui => lloraGetDevEui malloc d
  | .appEui => lloraGetAppEui malloc d
  | .dr => lloraGetDr malloc d
  | .adr => lloraGetAdr malloc d
  | .reTx => lloraGetReTx malloc d

/-! ## What the driver holds -/

/-- The value of each parameter. -/
abbrev Config := Param → LuaValue

/-- The configuration of the driver; the addresses are in little-endian format. -/
def reading (d : Driver) : Config
  | .devAddr => .string (encodeHex d.devaddr.reverse)
  | .devEui => .string (encodeHex d.deveui.reverse)
  | .appEui => .string (encodeHex d.appeui.reverse)
  | .dr => .integer d.currentDr.toNat
  | .adr => .boolean (decide (d.lmic.adrEnabled ≠ 0))
  | .reTx => .integer d.lmic.txAttempts.toNat

/-- The mutex is free, the addresses have their sizes, and the numbers one digit. -/
structure Ready (d : Driver) : Prop where
  free : d.locked = false
  devaddr : d.devaddr.length = 4
  deveui : d.deveui.length = 8
  appeui : d.appeui.length = 8
  currentDr : d.currentDr.toNat < 10
  txAttempts : d.lmic.txAttempts.toNat < 10

/-- A call changes the parameter to the value, or raises an error and changes nothing. -/
def Sets (d : Driver) (p : Param) (v : LuaValue) (r : Result (Option LuaError × Driver)) : Prop :=
  ∃ error d', r = .ok (error, d') ∧
    reading d' = if error = none then Function.update (reading d) p v else reading d

/-! ## Runs -/

inductive Call where
  | set (malloc : Malloc) (c : SetCall)
  | get (malloc : Malloc) (p : Param)

/-- The driver, with what was last set for each parameter. -/
def configStep (flashId : Bool) (s : Driver × Config) : Call → Option (Driver × Config)
  | .set malloc c => (luaSet flashId malloc s.1 c).toOption.map fun r =>
    (r.2, if r.1 = none then Function.update s.2 c.param c.value else s.2)
  | .get malloc p => (luaGet malloc s.1 p).toOption.map fun r => (r.2, s.2)

def configLts (flashId : Bool) (d : Driver) : Lts (Driver × Config) Call :=
  .ofStep (d, reading d) (configStep flashId)

/-- A call does what it is for: it sets its parameter and no other, or it gets what
    was last set. -/
def Behaves (flashId : Bool) (s : Driver × Config) : Call → Prop
  | .set malloc c => Sets s.1 c.param c.value (luaSet flashId malloc s.1 c)
  | .get malloc p => luaGet malloc s.1 p = .ok (s.2 p, s.1)

/-! ## When calls behave -/

/-- `hex_str_pad` raises an error. -/
def Refused (malloc : Malloc) (len : Nat) (arg : CString) : Prop :=
  arg.chars.all isHexDigit = false ∨ malloc (len + 1) = none

/-- The argument is refused, or it has full length. -/
def HexOk (malloc : Malloc) (len : Nat) (arg : CString) : Prop :=
  Refused malloc len arg ∨ arg.chars.length = len

/-- The argument is refused, or it is an `int`. -/
def NumberOk (d : Driver) (arg : BitVec 64) : Prop :=
  asInt arg < 0 ∨ 7 < asInt arg ∨ d.setup = false ∨ asInt arg = arg.toInt

/-- APPEUI is set in earnest, or is what it already was. -/
def AppEuiOk (flashId : Bool) (malloc : Malloc) (d : Driver) (arg : CString) : Prop :=
  flashId = true → Refused malloc 16 arg ∨ d.setup = false ∨
    reading d .appEui = .string arg.chars

def SetOk (flashId : Bool) (malloc : Malloc) (d : Driver) : SetCall → Prop
  | .devAddr arg => HexOk malloc 8 arg
  | .devEui arg => HexOk malloc 16 arg
  | .appEui arg => HexOk malloc 16 arg ∧ AppEuiOk flashId malloc d arg
  | .dr arg | .reTx arg => NumberOk d arg
  | .adr _ => True

/-- The size of the string that a call gets. -/
def needs (d : Driver) : Param → Nat
  | .devAddr => 9
  | .devEui | .appEui => 17
  | .dr | .reTx => 2
  | .adr => if d.lmic.adrEnabled ≠ 0 then 3 else 4

/-- It is not DEVADDR, and there is memory for the string. -/
def GetOk (malloc : Malloc) (d : Driver) (p : Param) : Prop :=
  p ≠ .devAddr ∧ (malloc (needs d p)).isSome

def CallOk (flashId : Bool) (s : Driver × Config) : Call → Prop
  | .set malloc c => SetOk flashId malloc s.1 c
  | .get malloc p => GetOk malloc s.1 p

/-! ## hex_str_pad -/

section Pad

variable {malloc : Malloc} {len : Nat} {arg : CString} {tmp tmp' : List Byte}

theorem length_of_store {i : Nat} {c : Byte} (h : store tmp i c = .ok tmp') :
    i < tmp.length ∧ tmp'.length = tmp.length := by
  unfold store at h
  split at h
  · next hi =>
    cases h
    exact ⟨hi, List.length_set⟩
  · cases h

theorem length_of_padLoop {n i : Nat} (h : padLoop n i tmp = .ok tmp') :
    tmp'.length = tmp.length := by
  induction n generalizing i tmp with
  | zero =>
    cases h
    rfl
  | succ n ih =>
    obtain ⟨tmp₁, hstore, h⟩ := bind_eq_ok.mp h
    rw [ih h, (length_of_store hstore).2]

theorem length_of_copyLoop {str : List Byte} {n j i : Nat} (h : copyLoop str n j i tmp = .ok tmp') :
    tmp'.length = tmp.length := by
  induction n generalizing j i tmp with
  | zero =>
    cases h
    rfl
  | succ n ih =>
    obtain ⟨c, -, h⟩ := bind_eq_ok.mp h
    obtain ⟨tmp₁, hstore, h⟩ := bind_eq_ok.mp h
    rw [ih h, (length_of_store hstore).2]

theorem checkHexStr_eq (arg : CString) (post : List Byte) :
    checkHexStr (arg.chars ++ nul :: post) = .ok (arg.chars.all isHexDigit) := by
  rw [checkHexStr, readStr_append arg.noNul]
  rfl

/-- What is behind the terminator does not matter. -/
theorem hexStrPad_refused (h : Refused malloc len arg) (post : List Byte) :
    ∃ error, hexStrPad malloc (arg.chars ++ nul :: post) len = .ok (.error error) := by
  rw [hexStrPad, checkHexStr_eq, ok_bind]
  cases hhex : arg.chars.all isHexDigit with
  | false => exact ⟨_, rfl⟩
  | true =>
    rw [h.resolve_left (by simp [hhex])]
    exact ⟨_, rfl⟩

theorem not_refused (h : ¬ Refused malloc len arg) :
    arg.chars.all isHexDigit = true ∧ ∃ block, malloc (len + 1) = some block := by
  obtain ⟨hhex, hmem⟩ := not_or.mp h
  exact ⟨by simpa using hhex, Option.ne_none_iff_exists'.mp hmem⟩

theorem hexStrPad_full (h : ¬ Refused malloc len arg) (hlen : arg.chars.length = len)
    (post : List Byte) :
    hexStrPad malloc (arg.chars ++ nul :: post) len = .ok (.ok arg.block) := by
  obtain ⟨hhex, block, hblock⟩ := not_refused h
  rw [hexStrPad, checkHexStr_eq, ok_bind, hhex, hblock]
  simp only [Bool.not_true, Bool.false_eq_true, if_false]
  rw [CString.block, strlen_append arg.noNul, ok_bind, if_neg (by omega), strcpy_eq arg.noNul,
    if_pos (by rw [block.size]; omega), List.drop_eq_nil_of_le (by rw [block.size]; omega)]
  rfl

/-- Another length runs out of the block: too long in `strcpy`, too short by the
    terminator that follows the copied one. -/
theorem hexStrPad_fault (h : ¬ Refused malloc len arg) (hlen : arg.chars.length ≠ len)
    (post : List Byte) (r : Except LuaError (List Byte)) :
    hexStrPad malloc (arg.chars ++ nul :: post) len ≠ .ok r := by
  obtain ⟨hhex, block, hblock⟩ := not_refused h
  rw [hexStrPad, checkHexStr_eq, ok_bind, hhex, hblock]
  simp only [Bool.not_true, Bool.false_eq_true, if_false]
  rw [strlen_append arg.noNul, ok_bind]
  intro hr
  split at hr
  · next hshort =>
    obtain ⟨tmp₁, hpad, hr⟩ := bind_eq_ok.mp hr
    obtain ⟨tmp₂, hcopy, hr⟩ := bind_eq_ok.mp hr
    obtain ⟨tmp₃, hstore, -⟩ := bind_eq_ok.mp hr
    have hin := (length_of_store hstore).1
    rw [length_of_copyLoop hcopy, length_of_padLoop hpad, block.size] at hin
    omega
  · rw [strcpy_eq arg.noNul, if_neg (by rw [block.size]; omega)] at hr
    cases hr

end Pad

/-! ## Setting -/

section Outcome

variable {ε : Type} {d : Driver} {p : Param} {v : LuaValue}

/-- The call sets the parameter. -/
def Takes (d : Driver) (p : Param) (v : LuaValue) (r : Result (Option ε × Driver)) : Prop :=
  ∃ d', r = .ok (none, d') ∧ Ready d' ∧ reading d' = Function.update (reading d) p v

/-- The call raises an error and changes nothing. -/
def Raises (d : Driver) (r : Result (Option ε × Driver)) : Prop := ∃ error, r = .ok (some error, d)

/-- One or the other. -/
def Acts (d : Driver) (p : Param) (v : LuaValue) (r : Result (Option ε × Driver)) : Prop :=
  Raises d r ∨ Takes d p v r

theorem Acts.sets {r : Result (Option LuaError × Driver)} (h : Acts d p v r) : Sets d p v r := by
  rcases h with ⟨error, hr⟩ | ⟨d', hr, -, hreading⟩
  · exact ⟨some error, d, hr, rfl⟩
  · exact ⟨none, d', hr, hreading⟩

theorem Acts.ready {r : Option ε × Driver} (h : Acts d p v (.ok r)) (hd : Ready d) :
    Ready r.2 := by
  rcases h with ⟨error, hr⟩ | ⟨d', hr, hd', -⟩
  · rw [Except.ok.inj hr]
    exact hd
  · rw [Except.ok.inj hr]
    exact hd'

theorem Acts.raised {r : Result (Option DriverError × Driver)} (h : Acts d p v r) :
    Acts d p v (r >>= fun r => pure (raised r)) := by
  rcases h with ⟨error, rfl⟩ | ⟨d', rfl, hd', hreading⟩
  · exact .inl ⟨_, rfl⟩
  · exact .inr ⟨d', rfl, hd', hreading⟩

theorem Takes.raised {r : Result (Option DriverError × Driver)} (h : Takes d p v r) :
    Takes d p v (r >>= fun r => pure (raised r)) := by
  obtain ⟨d', rfl, hd', hreading⟩ := h
  exact ⟨d', rfl, hd', hreading⟩

/-- A call that sets another value than the one asked for. -/
theorem Takes.not_sets {r : Result (Option LuaError × Driver)} {w : LuaValue}
    (h : Takes d p w r) (hw : w ≠ v) : ¬ Sets d p v r := by
  rintro ⟨error, d₂, hr₂, hreading₂⟩
  obtain ⟨d₁, hr₁, -, hreading₁⟩ := h
  obtain ⟨rfl, rfl⟩ := Prod.mk.inj (Except.ok.inj (hr₁.symm.trans hr₂))
  rw [if_pos rfl, hreading₁] at hreading₂
  exact hw (by simpa using congrFun hreading₂ p)

end Outcome

/-- One parameter has changed and no other. -/
theorem reading_eq_update {d d' : Driver} {p : Param} {v : LuaValue} (hp : reading d' p = v)
    (hq : ∀ q, q ≠ p → reading d' q = reading d q) :
    reading d' = Function.update (reading d) p v :=
  Function.eq_update_iff.mpr ⟨hp, hq⟩

section MacSet

variable {flashId : Bool} {d : Driver} {command : MacSet} {value : List Byte} {arg : CString}

theorem mtxLock_of_free (h : d.locked = false) : mtxLock d = .ok { d with locked := true } := by
  rw [mtxLock, h]
  rfl

theorem mtxUnlock_lock (h : d.locked = false) : mtxUnlock { d with locked := true } = d := by
  cases d
  cases h
  rfl

/-- Before the setup nothing is set. -/
theorem loraMacSet_raises (hd : Ready d) (hsetup : d.setup = false) :
    Raises d (loraMacSet flashId d command value) := by
  rw [loraMacSet, mtxLock_of_free hd.free, ok_bind]
  split
  · rw [mtxUnlock_lock hd.free]
    exact ⟨_, rfl⟩
  · next h => exact absurd hsetup (by simpa using h)

theorem loraMacSet_of_setup (hd : Ready d) (hsetup : d.setup = true) :
    loraMacSet flashId d command value =
      loraMacSwitch flashId { d with locked := true } command value := by
  rw [loraMacSet, mtxLock_of_free hd.free, ok_bind]
  split
  · next h => exact absurd hsetup (by simpa using h)
  · rfl

theorem padHex_full {s : List Byte} {len : Nat} (h : s.length = len) : padHex len s = s := by
  simp [padHex, h]

/-- The bytes of a key of full length. -/
theorem hexStringToVal_block {n : Nat} (hhex : arg.chars.all isHexDigit = true)
    (hlen : arg.chars.length = 2 * n) (rev : Bool) :
    hexStringToVal arg.block n rev =
      .ok (if rev then (decodeHex arg.chars).reverse else decodeHex arg.chars) :=
  hexStringToVal_eq [] hlen (List.all_eq_true.mp hhex) rev

theorem length_key {n : Nat} (hlen : arg.chars.length = 2 * n) :
    (decodeHex arg.chars).reverse.length = n := by
  rw [List.length_reverse, length_decodeHex hlen]

/-- A key of full length is read back as its digits. -/
theorem encodeHex_reverse {n : Nat} (hhex : arg.chars.all isHexDigit = true)
    (hlen : arg.chars.length = 2 * n) :
    encodeHex (decodeHex arg.chars).reverse.reverse = arg.chars := by
  rw [List.reverse_reverse]
  exact encodeHex_decodeHex hlen (List.all_eq_true.mp hhex)

section Keys

variable (hd : Ready d) (hsetup : d.setup = true) (hhex : arg.chars.all isHexDigit = true)
include hd hsetup hhex

theorem loraMacSet_devaddr (hlen : arg.chars.length = 2 * 4) :
    Takes d .devAddr (.string arg.chars) (loraMacSet flashId d .devaddr arg.block) := by
  rw [loraMacSet_of_setup hd hsetup, loraMacSwitch, hexStringToVal_block hhex hlen, ok_bind]
  refine ⟨_, rfl, { hd with free := rfl, devaddr := length_key hlen }, ?_⟩
  refine reading_eq_update ?_ fun q hq => by cases q <;> first | rfl | exact absurd rfl hq
  exact congrArg LuaValue.string (encodeHex_reverse hhex hlen)

theorem loraMacSet_deveui (hlen : arg.chars.length = 2 * 8) :
    Takes d .devEui (.string arg.chars) (loraMacSet false d .deveui arg.block) := by
  rw [loraMacSet_of_setup hd hsetup, loraMacSwitch, if_neg Bool.false_ne_true,
    hexStringToVal_block hhex hlen, ok_bind]
  refine ⟨_, rfl, { hd with free := rfl, deveui := length_key hlen }, ?_⟩
  refine reading_eq_update ?_ fun q hq => by cases q <;> first | rfl | exact absurd rfl hq
  exact congrArg LuaValue.string (encodeHex_reverse hhex hlen)

theorem loraMacSet_appeui (hlen : arg.chars.length = 2 * 8) :
    Takes d .appEui (.string arg.chars) (loraMacSet false d .appeui arg.block) := by
  rw [loraMacSet_of_setup hd hsetup, loraMacSwitch, if_neg Bool.false_ne_true,
    hexStringToVal_block hhex hlen, ok_bind]
  refine ⟨_, rfl, { hd with free := rfl, appeui := length_key hlen }, ?_⟩
  refine reading_eq_update ?_ fun q hq => by cases q <;> first | rfl | exact absurd rfl hq
  exact congrArg LuaValue.string (encodeHex_reverse hhex hlen)

end Keys

/-- The board that has its own DEVEUI refuses another, and takes no notice of APPEUI. -/
theorem loraMacSet_flashId (hd : Ready d) (hsetup : d.setup = true) :
    Raises d (loraMacSet true d .deveui value) ∧
      Takes d .appEui (reading d .appEui) (loraMacSet true d .appeui value) := by
  rw [loraMacSet_of_setup hd hsetup, loraMacSet_of_setup hd hsetup]
  constructor
  · rw [loraMacSwitch, if_pos rfl, mtxUnlock_lock hd.free]
    exact ⟨_, rfl⟩
  · rw [loraMacSwitch, if_pos rfl, mtxUnlock_lock hd.free]
    refine ⟨d, rfl, hd, ?_⟩
    exact (Function.update_eq_self .appEui (reading d)).symm

end MacSet

section Digits

/-- The character of a number with one digit. -/
def digit (n : Nat) : Byte := BitVec.ofNat 8 (48 + n)

theorem chars_toString : ∀ n < 10, chars (toString n) = [digit n] := by decide

theorem sprintfD_digit {b : List Byte} {n : Nat} (hb : b.length = 2) (hn : n < 10) :
    sprintfD b n = .ok [digit n, nul] := by
  rw [sprintfD, chars_toString n hn, if_pos (by rw [hb]; exact Nat.one_lt_two),
    List.drop_eq_nil_of_le (by rw [hb]; exact Nat.le_refl 2)]
  rfl

theorem atoi_digit : ∀ n < 10, atoi [digit n, nul] = .ok n := by decide

theorem load_dataRates : ∀ n < 8, load dataRates n = .ok (BitVec.ofNat 8 n) := by decide

end Digits

section Members

variable {flashId : Bool} {malloc : Malloc} {d : Driver} {len : Nat} {arg : CString}
  {command : MacSet} {p : Param} {v : LuaValue}

theorem lloraSetHex_raises (h : Refused malloc len arg) :
    Raises d (lloraSetHex flashId malloc d command len arg) := by
  obtain ⟨error, hpad⟩ : ∃ error, hexStrPad malloc arg.block len = .ok (.error error) :=
    hexStrPad_refused h []
  rw [lloraSetHex, hpad, ok_bind]
  exact ⟨error, rfl⟩

theorem lloraSetHex_full (h : ¬ Refused malloc len arg) (hlen : arg.chars.length = len) :
    lloraSetHex flashId malloc d command len arg =
      loraMacSet flashId d command arg.block >>= fun r => pure (raised r) := by
  have hpad : hexStrPad malloc arg.block len = .ok (.ok arg.block) := hexStrPad_full h hlen []
  rw [lloraSetHex, hpad, ok_bind]

theorem lloraSetHex_fault (h : ¬ Refused malloc len arg) (hlen : arg.chars.length ≠ len) :
    ¬ Sets d p v (lloraSetHex flashId malloc d command len arg) := by
  rintro ⟨error, d', hr, -⟩
  obtain ⟨r, hpad, -⟩ := bind_eq_ok.mp hr
  exact hexStrPad_fault h hlen [] r hpad

theorem lloraSetHex_acts (hd : Ready d) (hok : HexOk malloc len arg)
    (hmac : arg.chars.all isHexDigit = true → arg.chars.length = len → d.setup = true →
      Acts d p (.string arg.chars) (loraMacSet flashId d command arg.block)) :
    Acts d p (.string (padHex len arg.chars))
      (lloraSetHex flashId malloc d command len arg) := by
  by_cases href : Refused malloc len arg
  · exact .inl (lloraSetHex_raises href)
  have hlen := hok.resolve_left href
  rw [lloraSetHex_full href hlen, padHex_full hlen]
  cases hsetup : d.setup with
  | false => exact Acts.raised (.inl (loraMacSet_raises hd hsetup))
  | true => exact (hmac (not_refused href).1 hlen hsetup).raised

section Number

variable {text : String} {n : Nat} {arg : BitVec 64}

theorem lloraSetNumber_raises (h : asInt arg < 0 ∨ 7 < asInt arg) :
    Raises d (lloraSetNumber flashId d command text arg) := by
  rw [lloraSetNumber]
  exact ⟨_, if_pos h⟩

theorem lloraSetNumber_eq (hn : n < 8) (h : asInt arg = n) :
    lloraSetNumber flashId d command text arg =
      loraMacSet flashId d command [digit n, nul] >>= fun r => pure (raised r) := by
  have hrange : ¬ (asInt arg < 0 ∨ 7 < asInt arg) := by omega
  have hnat : (asInt arg).toNat = n := by omega
  rw [lloraSetNumber, if_neg hrange, hnat,
    sprintfD_digit (freshBlock 2).size (by omega), ok_bind]

/-- An argument that is not refused is a number with one digit. -/
theorem exists_digit (h : ¬ (asInt arg < 0 ∨ 7 < asInt arg)) : ∃ n < 8, asInt arg = (n : Nat) :=
  ⟨(asInt arg).toNat, by omega, by omega⟩

theorem loraMacSet_dr (hd : Ready d) (hsetup : d.setup = true) (hn : n < 8) :
    Takes d .dr (.integer n) (loraMacSet flashId d .dr [digit n, nul]) := by
  have hdr : (BitVec.ofNat 8 n).toNat = n := by
    rw [BitVec.toNat_ofNat]
    omega
  rw [loraMacSet_of_setup hd hsetup, loraMacSwitch, atoi_digit n (by omega), ok_bind,
    load_dataRates n hn, ok_bind]
  refine ⟨_, rfl, { hd with free := rfl, currentDr := ?_ }, ?_⟩
  · rw [mtxUnlock, hdr]
    omega
  · refine reading_eq_update ?_ fun q hq => by cases q <;> first | rfl | exact absurd rfl hq
    exact congrArg (fun n : Nat => LuaValue.integer n) hdr

theorem loraMacSet_retx (hd : Ready d) (hsetup : d.setup = true) (hn : n < 8) :
    Takes d .reTx (.integer n) (loraMacSet flashId d .retx [digit n, nul]) := by
  have hretx : (BitVec.ofNat 8 n).toNat = n := by
    rw [BitVec.toNat_ofNat]
    omega
  rw [loraMacSet_of_setup hd hsetup, loraMacSwitch, atoi_digit n (by omega), ok_bind]
  refine ⟨_, rfl, { hd with free := rfl, txAttempts := ?_ }, ?_⟩
  · rw [mtxUnlock, hretx]
    omega
  · refine reading_eq_update ?_ fun q hq => by cases q <;> first | rfl | exact absurd rfl hq
    exact congrArg (fun n : Nat => LuaValue.integer n) hretx

theorem lloraSetNumber_acts (hd : Ready d) (hok : NumberOk d arg)
    (hmac : ∀ n < 8, d.setup = true →
      Takes d p (.integer (n : Nat)) (loraMacSet flashId d command [digit n, nul])) :
    Acts d p (.integer arg.toInt) (lloraSetNumber flashId d command text arg) := by
  by_cases href : asInt arg < 0 ∨ 7 < asInt arg
  · exact .inl (lloraSetNumber_raises href)
  obtain ⟨n, hn, harg⟩ := exists_digit href
  rw [lloraSetNumber_eq hn harg]
  cases hsetup : d.setup with
  | false => exact Acts.raised (.inl (loraMacSet_raises hd hsetup))
  | true =>
    have hint : arg.toInt = n := by
      rcases hok with h | h | h | h
      · exact absurd (.inl h) href
      · exact absurd (.inr h) href
      · rw [hsetup] at h
        cases h
      · rw [← h, harg]
    rw [hint]
    exact .inr (hmac n hn hsetup).raised

/-- A number that is not an `int` is set to its last 32 bits. -/
theorem lloraSetNumber_not_sets (hbad : ¬ NumberOk d arg)
    (hmac : ∀ n < 8, d.setup = true →
      Takes d p (.integer (n : Nat)) (loraMacSet flashId d command [digit n, nul])) :
    ¬ Sets d p (.integer arg.toInt) (lloraSetNumber flashId d command text arg) := by
  obtain ⟨hneg, hbig, hsetup, hint⟩ : ¬ asInt arg < 0 ∧ ¬ 7 < asInt arg ∧ d.setup ≠ false ∧
      asInt arg ≠ arg.toInt := by
    simpa only [NumberOk, not_or] using hbad
  obtain ⟨n, hn, harg⟩ := exists_digit (not_or.mpr ⟨hneg, hbig⟩)
  rw [lloraSetNumber_eq hn harg]
  refine (hmac n hn (by simpa using hsetup)).raised.not_sets fun heq => hint ?_
  rw [harg]
  exact LuaValue.integer.inj heq

end Number

theorem lloraSetAdr_acts (hd : Ready d) (b : Bool) :
    Acts d .adr (.boolean b) (lloraSetAdr flashId d b) := by
  have hcopy : strcpy (freshBlock 4).bytes (lit (if b then "on" else "off")) =
      .ok (lit (if b then "on" else "off") ++ List.replicate (if b then 1 else 0) 0xa5) := by
    cases b <;> rfl
  have hcmp : strcmp (lit (if b then "on" else "off") ++ List.replicate (if b then 1 else 0) 0xa5)
      (lit "on") = .ok (if b then 0 else -8) := by
    cases b <;> rfl
  rw [lloraSetAdr, hcopy, ok_bind]
  refine Acts.raised ?_
  cases hsetup : d.setup with
  | false => exact .inl (loraMacSet_raises hd hsetup)
  | true =>
    rw [loraMacSet_of_setup hd hsetup, loraMacSwitch, hcmp, ok_bind]
    refine .inr ⟨_, rfl, { hd with free := rfl }, ?_⟩
    refine reading_eq_update ?_ fun q hq => by cases q <;> first | rfl | exact absurd rfl hq
    cases b <;> rfl

end Members

/-! ## The calls of Lua -/

section LuaSet

variable {flashId : Bool} {malloc : Malloc} {d : Driver}

theorem lloraSetAppEui_acts (hd : Ready d) {arg : CString} (hok : HexOk malloc 16 arg)
    (happ : AppEuiOk flashId malloc d arg) :
    Acts d .appEui (.string (padHex 16 arg.chars)) (lloraSetAppEui flashId malloc d arg) := by
  by_cases href : Refused malloc 16 arg
  · exact .inl (lloraSetHex_raises href)
  refine lloraSetHex_acts hd hok fun hhex hlen hsetup => .inr ?_
  cases flashId with
  | false => exact loraMacSet_appeui hd hsetup hhex hlen
  | true =>
    have hsame : reading d .appEui = .string arg.chars := by
      rcases happ rfl with h | h | h
      · exact absurd h href
      · rw [hsetup] at h
        cases h
      · exact h
    rw [← hsame]
    exact (loraMacSet_flashId hd hsetup).2

theorem luaSet_acts (hd : Ready d) {c : SetCall} (hok : SetOk flashId malloc d c) :
    Acts d c.param c.value (luaSet flashId malloc d c) := by
  cases c with
  | devAddr arg =>
    exact lloraSetHex_acts hd hok fun hhex hlen hsetup =>
      .inr (loraMacSet_devaddr hd hsetup hhex hlen)
  | devEui arg =>
    refine lloraSetHex_acts hd hok fun hhex hlen hsetup => ?_
    cases flashId with
    | false => exact .inr (loraMacSet_deveui hd hsetup hhex hlen)
    | true => exact .inl (loraMacSet_flashId hd hsetup).1
  | appEui arg => exact lloraSetAppEui_acts hd hok.1 hok.2
  | dr arg => exact lloraSetNumber_acts hd hok fun n hn hsetup => loraMacSet_dr hd hsetup hn
  | adr arg => exact lloraSetAdr_acts hd arg
  | reTx arg => exact lloraSetNumber_acts hd hok fun n hn hsetup => loraMacSet_retx hd hsetup hn

theorem luaSet_not_sets (hd : Ready d) {c : SetCall} (hbad : ¬ SetOk flashId malloc d c) :
    ¬ Sets d c.param c.value (luaSet flashId malloc d c) := by
  cases c with
  | devAddr arg | devEui arg =>
    obtain ⟨href, hlen⟩ := not_or.mp hbad
    exact lloraSetHex_fault href hlen
  | appEui arg =>
    by_cases hok : HexOk malloc 16 arg
    · -- the board takes no notice of the value
      have happ : ¬ AppEuiOk flashId malloc d arg := fun happ => hbad ⟨hok, happ⟩
      simp only [AppEuiOk, Classical.not_imp, not_or] at happ
      obtain ⟨rfl, href, hsetup, hother⟩ := happ
      have hlen := hok.resolve_left href
      have htakes : Takes d .appEui (reading d .appEui) (loraMacSet true d .appeui arg.block) :=
        (loraMacSet_flashId hd (by simpa using hsetup)).2
      rw [luaSet, lloraSetAppEui, lloraSetHex_full href hlen]
      refine htakes.raised.not_sets fun heq => hother ?_
      rw [heq, SetCall.value, padHex_full hlen]
    · obtain ⟨href, hlen⟩ := not_or.mp hok
      exact lloraSetHex_fault href hlen
  | dr arg =>
    exact lloraSetNumber_not_sets hbad fun n hn hsetup => loraMacSet_dr hd hsetup hn
  | adr arg => exact absurd trivial hbad
  | reTx arg =>
    exact lloraSetNumber_not_sets hbad fun n hn hsetup => loraMacSet_retx hd hsetup hn

end LuaSet

section LuaGet

variable {malloc : Malloc} {d : Driver} {p : Param}

theorem loraMacGet_eq {command : MacGet} {result : Result (Option (List Byte))} (hd : Ready d)
    (h : loraMacResult malloc d command = result) :
    loraMacGet malloc d command = result >>= fun result => pure (result, d) := by
  have hlock : loraMacResult malloc { d with locked := true } command = result := by
    cases command <;> exact h
  rw [loraMacGet, mtxLock_of_free hd.free, ok_bind, hlock, mtxUnlock_lock hd.free]

/-- A function that gets an EUI. -/
theorem lloraGetString_iff {command : MacGet} {v : List Byte} (hd : Ready d) (hv : v.length = 8)
    (h : loraMacResult malloc d command = do
      let result ← unchecked (malloc 17)
      let result ← valToHexString result v 8 true
      pure (some result)) :
    lloraGetString malloc d command = .ok (.string (encodeHex v.reverse), d) ↔
      (malloc 17).isSome := by
  rw [lloraGetString, loraMacGet_eq hd h]
  cases malloc 17 with
  | none => exact iff_of_false nofun nofun
  | some b =>
    have hhex := valToHexString_block (v := v) (by rw [b.size, hv]) [] true
    rw [List.append_nil, hv, if_pos rfl] at hhex
    refine iff_of_true ?_ rfl
    simp only [unchecked, pure_eq_ok, ok_bind, hhex, nonNull, readStr_append
      (nul_notMem_encodeHex v.reverse)]

/-- A function that gets a number. -/
theorem lloraGetNumber_iff {command : MacGet} {n : Nat} (hd : Ready d) (hn : n < 10)
    (h : loraMacResult malloc d command = ifAlloc (malloc 2) fun b => sprintfD b n) :
    lloraGetNumber malloc d command = .ok (.integer n, d) ↔ (malloc 2).isSome := by
  rw [lloraGetNumber, loraMacGet_eq hd h]
  cases malloc 2 with
  | none => exact iff_of_false nofun nofun
  | some b =>
    refine iff_of_true ?_ rfl
    simp only [ifAlloc, sprintfD_digit b.size hn, pure_eq_ok, ok_bind, nonNull, atoi_digit n hn]

/-- A literal in a block of its size. -/
theorem strcpy_lit {n : Nat} (b : Block n) {text : String} (hnul : nul ∉ chars text)
    (hn : n = (chars text).length + 1) : strcpy b.bytes (lit text) = .ok (lit text) := by
  have hsize : b.bytes.length = (chars text).length + 1 := b.size.trans hn
  rw [lit, strcpy_eq hnul, if_pos (by omega), List.drop_eq_nil_of_le (by omega)]

theorem onOff_true : onOff malloc true = .ok ((malloc 3).map fun _ => lit "on") := by
  rw [onOff, if_pos rfl]
  cases malloc 3 with
  | none => rfl
  | some b => rw [ifAlloc, strcpy_lit b (by decide) rfl]; rfl

theorem onOff_false : onOff malloc false = .ok ((malloc 4).map fun _ => lit "off") := by
  rw [onOff, if_neg Bool.false_ne_true]
  cases malloc 4 with
  | none => rfl
  | some b => rw [ifAlloc, strcpy_lit b (by decide) rfl]; rfl

theorem lloraGetAdr_iff (hd : Ready d) :
    lloraGetAdr malloc d = .ok (reading d .adr, d) ↔ (malloc (needs d .adr)).isSome := by
  have hget : loraMacGet malloc d .adr =
      onOff malloc (decide (d.lmic.adrEnabled ≠ 0)) >>= fun result => pure (result, d) :=
    loraMacGet_eq hd rfl
  rw [lloraGetAdr, hget, reading, needs]
  by_cases hadr : d.lmic.adrEnabled ≠ 0
  · rw [if_pos hadr, decide_eq_true hadr, onOff_true]
    cases malloc 3 with
    | none => exact iff_of_false nofun nofun
    | some b => exact iff_of_true rfl rfl
  · rw [if_neg hadr, decide_eq_false hadr, onOff_false]
    cases malloc 4 with
    | none => exact iff_of_false nofun nofun
    | some b => exact iff_of_true rfl rfl

theorem luaGet_iff (hd : Ready d) :
    luaGet malloc d p = .ok (reading d p, d) ↔ GetOk malloc d p := by
  cases p with
  | devAddr =>
    -- there is no case for DEVADDR, so its value is NULL
    refine iff_of_false ?_ fun h => h.1 rfl
    rw [luaGet, lloraGetDevAddr, lloraGetString, loraMacGet_eq hd rfl]
    nofun
  | devEui => exact (lloraGetString_iff hd hd.deveui rfl).trans (and_iff_right nofun).symm
  | appEui => exact (lloraGetString_iff hd hd.appeui rfl).trans (and_iff_right nofun).symm
  | dr => exact (lloraGetNumber_iff hd hd.currentDr rfl).trans (and_iff_right nofun).symm
  | adr => exact (lloraGetAdr_iff hd).trans (and_iff_right nofun).symm
  | reTx => exact (lloraGetNumber_iff hd hd.txAttempts rfl).trans (and_iff_right nofun).symm

end LuaGet

/-! ## Runs -/

section Runs

variable {flashId : Bool} {d₀ : Driver} {s s' : Driver × Config} {call : Call}

theorem callOk_iff (hd : Ready s.1) (hs : s.2 = reading s.1) (call : Call) :
    Behaves flashId s call ↔ CallOk flashId s call := by
  cases call with
  | set malloc c =>
    refine ⟨fun hsets => ?_, fun hok => (luaSet_acts hd hok).sets⟩
    by_contra hbad
    exact luaSet_not_sets hd hbad hsets
  | get malloc p =>
    rw [Behaves, hs]
    exact luaGet_iff hd

/-- The driver is ready for the next call and holds what was last set. -/
def Holding (s : Driver × Config) : Prop := Ready s.1 ∧ s.2 = reading s.1

/-- The step lemma. -/
theorem configStep_holding (h : Holding s) (hok : CallOk flashId s call)
    (hstep : configStep flashId s call = some s') : Holding s' := by
  obtain ⟨hd, hs⟩ := h
  cases call with
  | set malloc c =>
    obtain ⟨r, hr, rfl⟩ := toOption_map_eq_some.mp hstep
    have hacts := luaSet_acts hd hok
    obtain ⟨error, d', hr', hreading⟩ := hacts.sets
    rw [hr] at hacts hr'
    obtain rfl := Except.ok.inj hr'
    exact ⟨hacts.ready hd, by rw [hs, hreading]⟩
  | get malloc p =>
    obtain ⟨r, hr, rfl⟩ := toOption_map_eq_some.mp hstep
    obtain rfl := Except.ok.inj (hr.symm.trans ((luaGet_iff hd).mpr hok))
    exact ⟨hd, hs⟩

/-- In the runs whose calls all meet the condition, the next call sets its parameter
    and no other, or gets what was last set, exactly if it meets the condition too. -/
theorem luaConfig_behaves_iff (h₀ : Ready d₀)
    (h : (configLts flashId d₀).Reach (CallOk flashId) s) (call : Call) :
    Behaves flashId s call ↔ CallOk flashId s call := by
  have hs : Holding s := by
    refine h.invariant ?_ fun s call s' hs hok hstep => configStep_holding hs hok hstep
    rintro s rfl
    exact ⟨h₀, rfl⟩
  exact callOk_iff hs.1 hs.2 call

end Runs

/-- After a reset, `lora_setup` makes the driver ready. -/
theorem loraSetup_ready {deveui : List Byte} (h : deveui.length = 8) {msgid : BitVec 32} {l : Lmic}
    {band : Int} {d₁ d₂ : Driver} {uxBits : BitVec 8}
    (hbegin : loraSetupBegin (.off deveui msgid l) band none = .ok (.waiting .setup d₁))
    (hwait : waitBits (loraInit d₁) Waiter.setup.mask = some (uxBits, d₂)) :
    Ready (loraSetupEnd d₂).2 := by
  obtain ⟨-, -, rfl⟩ := waitBits_eq_some hwait
  cases hbegin
  exact ⟨rfl, rfl, h, rfl, Nat.zero_lt_succ 9, Nat.zero_lt_succ 9⟩

/-! ## Four calls -/

/-- The driver after `lora_setup(868)`. -/
def setUp : Driver :=
  { Driver.off (List.replicate 8 0) 0 lmicReset with setup := true, currentBand := 868 }

theorem ready_setUp : Ready setUp := ⟨rfl, rfl, rfl, rfl, by decide, by decide⟩

/-- The data rate is set to 5. -/
theorem luaConfig_behaves_iff_dr :
    ∃ s : Driver × Config, s.2 .dr = .integer 5 ∧
      (Behaves false s (.get plenty .dr) ↔ CallOk false s (.get plenty .dr)) := by
  have hset : CallOk false (setUp, reading setUp) (.set plenty (.dr 5)) :=
    .inr (.inr (.inr rfl))
  have hreach : (configLts false setUp).Reach (CallOk false) _ := .step (.init rfl) hset rfl
  exact ⟨_, rfl, luaConfig_behaves_iff ready_setUp hreach _⟩

/-- `"1"`. -/
def one : CString := ⟨chars "1", by decide⟩

/-- A full EUI. -/
def eui : CString := ⟨chars "70B3D57ED0000001", by decide⟩

/-- DEVADDR cannot be read; one digit is padded with one byte too many; and the board that
    has its own DEVEUI takes no notice of APPEUI. -/
theorem not_behaves_setUp :
    ¬ Behaves false (setUp, reading setUp) (.get plenty .devAddr) ∧
      ¬ Behaves false (setUp, reading setUp) (.set plenty (.devAddr one)) ∧
      ¬ Behaves true (setUp, reading setUp) (.set plenty (.appEui eui)) := by
  refine ⟨fun h => ?_, fun h => ?_, fun h => ?_⟩
  · exact ((callOk_iff ready_setUp rfl _).mp h).1 rfl
  · rcases (callOk_iff ready_setUp rfl _).mp h with (hhex | hmem) | hlen
    · exact absurd hhex (by decide)
    · cases hmem
    · exact absurd hlen (by decide)
  · obtain ⟨-, happ⟩ := (callOk_iff ready_setUp rfl _).mp h
    rcases happ rfl with (hhex | hmem) | hsetup | hsame
    · exact absurd hhex (by decide)
    · cases hmem
    · cases hsetup
    · exact absurd hsame (by decide)

end LuaRtos.Lora
