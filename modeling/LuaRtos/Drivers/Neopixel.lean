/-
  LuaRtos.Drivers.Neopixel

  The colours of drivers/neopixel.c, and the sender of drivers/nzr.c.

  A unit has its pixels in a block of their own, three bytes each.  What goes out on the pin is a
  pulse for each bit, given by the cycles that the pin is high and low; the time between pulses is
  left out.
-/

import LuaRtos.CLib.Mem
import LuaRtos.Drivers.Devices
import LuaRtos.Drivers.EspiExact

namespace LuaRtos.Driver

open LuaRtos.CLib LuaRtos.Sys

/-! ## The code -/

/-- NRZ_ERR_INVALID_UNIT. -/
def nrzErrInvalidUnit : Int := driverExceptionBase 17 + 1
/-- NEOPIXEL_ERR_INVALID_UNIT. -/
def neopixelErrInvalidUnit : Int := driverExceptionBase 18 + 1
/-- NEOPIXEL_ERR_INVALID_PIXEL. -/
def neopixelErrInvalidPixel : Int := driverExceptionBase 18 + 2

/-- The units, and the blocks of their pixels. -/
structure Strips where
  nzr : Units NzrInstance
  neopixel : Units NeopixelInstance
  pixels : Heap (List Byte)

/-- `driver_operation_error`: a null pointer, which says that there is no error, where there is no
    memory for it. -/
def operationError (mem : Bool) (exception : Int) : Option Int :=
  if mem then some exception else none

/-- The item that `list_get` finds. -/
def Units.get {α : Type} (u : Units α) (unit : Int) : Result (Option α) := do
  let (ret, block) ← listGet u.list unit
  match ret, block with
  | .success, some p => do
    let item ← u.blocks.read p
    pure (some item)
  | _, _ => pure none

/-- The arguments of `neopixel_rgb`, and whether there is memory for a driver error. -/
structure RgbCall where
  unit : Int
  pixel : UInt32
  r : Byte
  g : Byte
  b : Byte
  mem : Bool
deriving DecidableEq, Repr

/-- `neopixel_rgb`.  A pixel is `g`, `r` and `b`. -/
def neopixelRgb (s : Strips) (c : RgbCall) : Result (Option Int × Strips) := do
  -- Get instance
  match ← s.neopixel.get c.unit with
  | none => pure (operationError c.mem neopixelErrInvalidUnit, s)
  | some inst =>
    if inst.npixels < c.pixel then pure (operationError c.mem neopixelErrInvalidPixel, s)
    else do
      let block ← s.pixels.read inst.pixels
      let block ← store block (3 * c.pixel.toNat + 1) c.r
      let block ← store block (3 * c.pixel.toNat) c.g
      let block ← store block (3 * c.pixel.toNat + 2) c.b
      let pixels ← s.pixels.write inst.pixels block
      pure (none, { s with pixels := pixels })

/-- The cycles that the pin is high, and then low. -/
structure Pulse where
  high : UInt32
  low : UInt32
deriving DecidableEq, Repr

/-- The pulse of a bit. -/
def NzrTiming.pulse (t : NzrTiming) (bit : Bool) : Pulse :=
  if bit then ⟨t.t1h, t.t1l⟩ else ⟨t.t0h, t.t0l⟩

/-- The loop of `nzr_send`, with the bits that are left. -/
def sendBits (t : NzrTiming) (data : List Byte) : Nat → Byte → Nat → Result (List Pulse)
  | 0, _, _ => pure []
  | bits + 1, mask, pos => do
    let b ← load data pos
    let pulse := t.pulse (decide (b &&& mask ≠ 0))
    let rest ← (if mask >>> 1 = 0 then sendBits t data bits 0x80 (pos + 1)
      else sendBits t data bits (mask >>> 1) pos)
    pure (pulse :: rest)

/-- `nzr_send`. -/
def nzrSend (nzr : Units NzrInstance) (mem : Bool) (unit : Int) (data : List Byte)
    (bits : UInt32) : Result (Option Int × List Pulse) := do
  -- Get instance
  match ← nzr.get unit with
  | none => pure (operationError mem nrzErrInvalidUnit, [])
  | some inst => do
    let pulses ← sendBits inst.timings data bits.toNat 0x80 0
    pure (none, pulses)

/-- `neopixel_update`. -/
def neopixelUpdate (s : Strips) (mem : Bool) (unit : Int) : Result (Option Int × List Pulse) := do
  -- Get instance
  match ← s.neopixel.get unit with
  | none => pure (operationError mem neopixelErrInvalidUnit, [])
  | some inst =>
    match inst.nzrUnit with
    | none => throw .undefined
    | some nzrUnit => do
      -- Send buffer
      let block ← s.pixels.read inst.pixels
      nzrSend s.nzr mem nzrUnit block (24 * inst.npixels)

/-! ## The sender -/

section Send

variable {t : NzrTiming} {data : List Byte}

/-- The mask selects a bit, counted from the high one. -/
theorem and_mask (b : Byte) {j : Nat} (hj : j < 8) :
    decide (b &&& (0x80 : Byte) >>> j ≠ 0) = b.getMsbD j := by
  have hmask : (0x80 : Byte) >>> j = BitVec.twoPow 8 (7 - j) := by
    obtain rfl | rfl | rfl | rfl | rfl | rfl | rfl | rfl : j = 0 ∨ j = 1 ∨ j = 2 ∨ j = 3 ∨ j = 4 ∨
      j = 5 ∨ j = 6 ∨ j = 7 := by omega
    all_goals rfl
  have hbit : b.getMsbD j = b.getLsbD (7 - j) := by
    rw [BitVec.getMsbD_eq_getLsbD, decide_eq_true hj, Bool.true_and]
  have hpow : BitVec.twoPow 8 (7 - j) ≠ 0 := by
    rw [← hmask]
    obtain rfl | rfl | rfl | rfl | rfl | rfl | rfl | rfl : j = 0 ∨ j = 1 ∨ j = 2 ∨ j = 3 ∨ j = 4 ∨
      j = 5 ∨ j = 6 ∨ j = 7 := by omega
    all_goals decide
  rw [hmask, hbit, BitVec.and_twoPow]
  cases b.getLsbD (7 - j) with
  | true => exact decide_eq_true hpow
  | false => exact decide_eq_false fun h => h rfl

/-- A bit of the bytes, the high bit of a byte first. -/
theorem getElem?_wire (bs : List Byte) {pos j : Nat} (hpos : pos < bs.length) (hj : j < 8) :
    (Espi.wire bs)[8 * pos + j]? = some (bs[pos].getMsbD j) := by
  induction bs generalizing pos with
  | nil => exact absurd hpos (Nat.not_lt_zero pos)
  | cons b bs ih =>
    have hcons : Espi.wire (b :: bs) = (List.range 8).map b.getMsbD ++ Espi.wire bs := rfl
    have hlen : ((List.range 8).map b.getMsbD).length = 8 := rfl
    rw [hcons]
    cases pos with
    | zero =>
      rw [Nat.mul_zero, Nat.zero_add, List.getElem?_append_left (by omega), List.getElem?_map,
        List.getElem?_range hj]
      rfl
    | succ pos =>
      have hat : 8 * (pos + 1) + j - 8 = 8 * pos + j := by omega
      rw [List.getElem?_append_right (by omega), hlen, hat]
      exact ih (Nat.lt_of_succ_lt_succ hpos)

/-- The bits go out from where the mask is. -/
theorem sendBits_eq (bits pos j : Nat) (hj : j < 8) (hlen : 8 * pos + j + bits ≤ 8 * data.length) :
    sendBits t data bits ((0x80 : Byte) >>> j) pos =
      .ok (((Espi.wire data).drop (8 * pos + j)).take bits |>.map t.pulse) := by
  induction bits generalizing pos j with
  | zero =>
    rw [List.take_zero]
    rfl
  | succ bits ih =>
    have hpos : pos < data.length := by omega
    have hbit := getElem?_wire data hpos hj
    obtain ⟨hlt, hget⟩ := List.getElem?_eq_some_iff.mp hbit
    have hrest : (if (0x80 : Byte) >>> j >>> 1 = 0 then sendBits t data bits 0x80 (pos + 1)
        else sendBits t data bits ((0x80 : Byte) >>> j >>> 1) pos) =
        .ok (((Espi.wire data).drop (8 * pos + j + 1)).take bits |>.map t.pulse) := by
      have hshift : (0x80 : Byte) >>> j >>> 1 = (0x80 : Byte) >>> (j + 1) :=
        (BitVec.shiftRight_add _ j 1).symm
      by_cases hlast : j = 7
      · rw [hlast, if_pos (by decide)]
        exact ih (pos + 1) 0 (by decide) (by omega)
      · have hmask : ¬ (0x80 : Byte) >>> j >>> 1 = 0 := by
          obtain rfl | rfl | rfl | rfl | rfl | rfl | rfl : j = 0 ∨ j = 1 ∨ j = 2 ∨ j = 3 ∨ j = 4 ∨
            j = 5 ∨ j = 6 := by omega
          all_goals decide
        rw [if_neg hmask, hshift]
        exact ih pos (j + 1) (by omega) (by omega)
    rw [sendBits, load_of_lt hpos, ok_bind]
    dsimp only
    rw [hrest, and_mask _ hj, List.drop_eq_getElem_cons hlt, hget]
    rfl

/-- As many pulses as bits. -/
theorem length_sendBits {bits : Nat} {mask : Byte} {pos : Nat} {ps : List Pulse}
    (h : sendBits t data bits mask pos = .ok ps) : ps.length = bits := by
  induction bits generalizing mask pos ps with
  | zero =>
    rw [← Except.ok.inj h]
    rfl
  | succ bits ih =>
    obtain ⟨b, -, h⟩ := bind_eq_ok.mp h
    obtain ⟨rest, hrest, h⟩ := bind_eq_ok.mp h
    rw [← Except.ok.inj h, List.length_cons]
    split at hrest
    · rw [ih hrest]
    · rw [ih hrest]

end Send

/-! ## What the pixels show -/

structure Colour where
  r : Byte
  g : Byte
  b : Byte
deriving DecidableEq, Repr

/-- The colour of a pixel that was not set. -/
def Colour.black : Colour := ⟨0, 0, 0⟩

/-- The bytes of a colour in the order in which they go out. -/
def Colour.bytes (c : Colour) : List Byte := [c.g, c.r, c.b]

/-- The colour of the last call for a pixel, those for pixels that a unit does not have apart. -/
def lastColour (calls : List RgbCall) (unit : Int) (i : Nat) : Colour :=
  calls.foldl
    (fun col c => if c.unit = unit ∧ c.pixel.toNat = i then ⟨c.r, c.g, c.b⟩ else col) .black

/-- The colours of the `n` pixels of a unit. -/
def shown (calls : List RgbCall) (unit : Int) (n : Nat) : List Colour :=
  (List.range n).map (lastColour calls unit)

/-- The unit is there, with its unit of nzr.c. -/
structure LiveUnit (s : Strips) (unit : Int) (inst : NeopixelInstance) (out : NzrInstance) :
    Prop where
  got : s.neopixel.get unit = .ok (some inst)
  nzr : ∃ u, inst.nzrUnit = some u ∧ s.nzr.get u = .ok (some out)

/-- The units are as `neopixel_setup` leaves them: each one has its block to itself, which is
    cleared and has the size that was computed in 32 bits. -/
structure Fresh (s : Strips) : Prop where
  clear : ∀ unit inst out, LiveUnit s unit inst out →
    s.pixels.read inst.pixels = .ok (List.replicate (3 * inst.npixels).toNat 0)
  own : ∀ unit inst out unit' inst' out', LiveUnit s unit inst out → LiveUnit s unit' inst' out' →
    unit ≠ unit' → inst.pixels ≠ inst'.pixels

/-- The update of a unit sends the colours of its pixels in order, and nothing else. -/
def UpdatesRight (s : Strips) (calls : List RgbCall) : Prop :=
  ∀ mem unit inst out, LiveUnit s unit inst out → neopixelUpdate s mem unit =
    .ok (none, (Espi.wire ((shown calls unit inst.npixels.toNat).flatMap Colour.bytes)).map
      out.timings.pulse)

/-- The calls that follow those that are done: each one returns, and is accepted just for a pixel
    of the unit; the updates are right after them. -/
def CallsRight (s : Strips) (done : List RgbCall) : List RgbCall → Prop
  | [] => UpdatesRight s done
  | c :: cs => ∃ e s', neopixelRgb s c = .ok (e, s') ∧
      (∀ inst out, LiveUnit s c.unit inst out → (e = none ↔ c.pixel < inst.npixels)) ∧
      CallsRight s' (done ++ [c]) cs

/-- The bits of the units that are there fit in 32 bits, and no call is for the pixel after the
    last one, nor for one further without memory for the error. -/
structure CallsMeet (s : Strips) (calls : List RgbCall) : Prop where
  bits : ∀ unit inst out, LiveUnit s unit inst out → 24 * inst.npixels.toNat < 2 ^ 32
  pixel : ∀ c ∈ calls, ∀ inst out, LiveUnit s c.unit inst out →
    c.pixel < inst.npixels ∨ inst.npixels < c.pixel ∧ c.mem = true

section Shown

variable {calls : List RgbCall} {unit : Int} {n : Nat}

theorem length_flatMap_bytes (cols : List Colour) :
    (cols.flatMap Colour.bytes).length = 3 * cols.length := by
  induction cols with
  | nil => rfl
  | cons c cols ih =>
    rw [List.flatMap_cons, List.length_append, ih, List.length_cons]
    show 3 + 3 * cols.length = _
    omega

theorem length_shown (calls : List RgbCall) (unit : Int) (n : Nat) :
    (shown calls unit n).length = n := by
  rw [shown, List.length_map, List.length_range]

theorem shown_nil (unit : Int) (n : Nat) :
    (shown [] unit n).flatMap Colour.bytes = List.replicate (3 * n) 0 := by
  induction n with
  | zero => rfl
  | succ n ih =>
    have hsucc : shown [] unit (n + 1) = shown [] unit n ++ [Colour.black] := by
      rw [shown, List.range_succ, List.map_append]
      rfl
    rw [hsucc, List.flatMap_append, ih, Nat.mul_succ, List.replicate_add]
    rfl

/-- A call for another unit, or for no pixel of this one. -/
theorem shown_other {c : RgbCall} (h : c.unit = unit → n ≤ c.pixel.toNat) :
    shown (calls ++ [c]) unit n = shown calls unit n := by
  unfold shown
  apply List.map_congr_left
  intro i hi
  rw [List.mem_range] at hi
  rw [lastColour, List.foldl_append, List.foldl_cons, List.foldl_nil, if_neg]
  · rfl
  · rintro ⟨hunit, hpixel⟩
    have hle := h hunit
    omega

/-- A call for a pixel of the unit. -/
theorem shown_set (c : RgbCall) :
    shown (calls ++ [c]) c.unit n = (shown calls c.unit n).set c.pixel.toNat ⟨c.r, c.g, c.b⟩ := by
  apply List.ext_getElem?
  intro i
  rw [List.getElem?_set, length_shown]
  by_cases hi : i < n
  · have hget : ∀ calls', (shown calls' c.unit n)[i]? = some (lastColour calls' c.unit i) := by
      intro calls'
      rw [shown, List.getElem?_map, List.getElem?_range hi]
      rfl
    rw [hget, hget, lastColour, List.foldl_append, List.foldl_cons, List.foldl_nil]
    by_cases hpixel : c.pixel.toNat = i
    · rw [if_pos ⟨rfl, hpixel⟩, if_pos hpixel, if_pos (hpixel ▸ hi)]
    · rw [if_neg fun h => hpixel h.2, if_neg hpixel]
      rfl
  · have hnone : ∀ calls', (shown calls' c.unit n)[i]? = none := by
      intro calls'
      rw [List.getElem?_eq_none_iff, length_shown]
      omega
    rw [hnone, hnone]
    split
    · rw [if_neg (by omega)]
    · rfl

/-- The bytes of a colour that is set. -/
theorem flatMap_set (cols : List Colour) {i : Nat} (hi : i < cols.length) (v : Colour) :
    (cols.set i v).flatMap Colour.bytes =
      (((cols.flatMap Colour.bytes).set (3 * i + 1) v.r).set (3 * i) v.g).set (3 * i + 2) v.b := by
  induction cols generalizing i with
  | nil => exact absurd hi (Nat.not_lt_zero i)
  | cons c cols ih =>
    have hcons :
        (c :: cols).flatMap Colour.bytes = c.g :: c.r :: c.b :: cols.flatMap Colour.bytes := rfl
    rw [hcons]
    cases i with
    | zero => rfl
    | succ i =>
      have hat : 3 * (i + 1) = 3 * i + 3 := by omega
      rw [List.set_cons_succ, List.flatMap_cons, ih (Nat.lt_of_succ_lt_succ hi), hat]
      rfl

end Shown

/-! ## The calls -/

/-- The blocks hold the colours of the calls. -/
structure Holds (s : Strips) (calls : List RgbCall) : Prop where
  block : ∀ unit inst out, LiveUnit s unit inst out → s.pixels.read inst.pixels =
    .ok ((shown calls unit inst.npixels.toNat).flatMap Colour.bytes)
  own : ∀ unit inst out unit' inst' out', LiveUnit s unit inst out → LiveUnit s unit' inst' out' →
    unit ≠ unit' → inst.pixels ≠ inst'.pixels

section Calls

variable {s s' : Strips} {c : RgbCall} {cs done : List RgbCall} {e : Option Int} {unit : Int}
variable {inst inst' : NeopixelInstance} {out out' : NzrInstance}

theorem LiveUnit.unique (h : LiveUnit s unit inst out) (h' : LiveUnit s unit inst' out') :
    inst = inst' :=
  Option.some.inj (Except.ok.inj (h.got.symm.trans h'.got))

/-- A call changes the pixels alone. -/
theorem neopixelRgb_units (h : neopixelRgb s c = .ok (e, s')) :
    s'.neopixel = s.neopixel ∧ s'.nzr = s.nzr := by
  obtain ⟨found, -, h⟩ := bind_eq_ok.mp h
  cases found with
  | none =>
    cases h
    exact ⟨rfl, rfl⟩
  | some inst =>
    dsimp only at h
    split at h
    · cases h
      exact ⟨rfl, rfl⟩
    · obtain ⟨_, -, h⟩ := bind_eq_ok.mp h
      obtain ⟨_, -, h⟩ := bind_eq_ok.mp h
      obtain ⟨_, -, h⟩ := bind_eq_ok.mp h
      obtain ⟨_, -, h⟩ := bind_eq_ok.mp h
      obtain ⟨_, -, h⟩ := bind_eq_ok.mp h
      cases h
      exact ⟨rfl, rfl⟩

theorem liveUnit_iff (h : neopixelRgb s c = .ok (e, s')) :
    LiveUnit s' unit inst out ↔ LiveUnit s unit inst out := by
  obtain ⟨hneopixel, hnzr⟩ := neopixelRgb_units h
  constructor
  · rintro ⟨hgot, hout⟩
    rw [hneopixel] at hgot
    rw [hnzr] at hout
    exact ⟨hgot, hout⟩
  · rintro ⟨hgot, hout⟩
    rw [← hneopixel] at hgot
    rw [← hnzr] at hout
    exact ⟨hgot, hout⟩

/-- A call for a pixel past the one after the last. -/
theorem neopixelRgb_refuses (h : LiveUnit s c.unit inst out) (hpixel : inst.npixels < c.pixel) :
    neopixelRgb s c = .ok (operationError c.mem neopixelErrInvalidPixel, s) := by
  unfold neopixelRgb
  rw [h.got, ok_bind]
  exact if_pos hpixel

/-- A call that returns for any other pixel is accepted. -/
theorem neopixelRgb_accepts (h : LiveUnit s c.unit inst out) (hpixel : ¬ inst.npixels < c.pixel)
    (hcall : neopixelRgb s c = .ok (e, s')) : e = none := by
  unfold neopixelRgb at hcall
  rw [h.got, ok_bind] at hcall
  dsimp only at hcall
  rw [if_neg hpixel] at hcall
  obtain ⟨_, -, hcall⟩ := bind_eq_ok.mp hcall
  obtain ⟨_, -, hcall⟩ := bind_eq_ok.mp hcall
  obtain ⟨_, -, hcall⟩ := bind_eq_ok.mp hcall
  obtain ⟨_, -, hcall⟩ := bind_eq_ok.mp hcall
  obtain ⟨_, -, hcall⟩ := bind_eq_ok.mp hcall
  exact (Prod.mk.inj (Except.ok.inj hcall)).1.symm

/-- A call for a pixel of the unit sets its colour. -/
theorem Holds.sets (hholds : Holds s done) (h : LiveUnit s c.unit inst out)
    (hpixel : c.pixel < inst.npixels) :
    ∃ s', neopixelRgb s c = .ok (none, s') ∧ Holds s' (done ++ [c]) := by
  have hread := hholds.block c.unit inst out h
  have hlt : c.pixel.toNat < inst.npixels.toNat := UInt32.lt_iff_toNat_lt.mp hpixel
  obtain ⟨cols, hcols⟩ : ∃ cols, cols = shown done c.unit inst.npixels.toNat := ⟨_, rfl⟩
  have hlen : cols.length = inst.npixels.toNat := by rw [hcols, length_shown]
  have hsize : (cols.flatMap Colour.bytes).length = 3 * inst.npixels.toNat := by
    rw [length_flatMap_bytes, hlen]
  obtain ⟨pixels, hpixels⟩ : ∃ pixels, pixels = s.pixels.set inst.pixels
      (some ((cols.set c.pixel.toNat ⟨c.r, c.g, c.b⟩).flatMap Colour.bytes)) := ⟨_, rfl⟩
  have hwrite : s.pixels.write inst.pixels
      ((cols.set c.pixel.toNat ⟨c.r, c.g, c.b⟩).flatMap Colour.bytes) = .ok pixels :=
    Heap.write_eq_ok.mpr ⟨⟨_, Heap.read_eq_ok.mp hread⟩, hpixels⟩
  have hcall : neopixelRgb s c = .ok (none, { s with pixels := pixels }) := by
    unfold neopixelRgb
    rw [h.got, ok_bind]
    dsimp only
    rw [if_neg (UInt32.not_lt.mpr (UInt32.le_of_lt hpixel)), hread, ok_bind, ← hcols, store,
      if_pos (by omega), ok_bind, store, if_pos (by rw [List.length_set]; omega), ok_bind, store,
      if_pos (by rw [List.length_set, List.length_set]; omega), ok_bind,
      ← flatMap_set cols (by omega) ⟨c.r, c.g, c.b⟩, hwrite]
    rfl
  refine ⟨_, hcall, ?_, ?_⟩
  · intro unit' inst' out' h'
    rw [liveUnit_iff hcall] at h'
    by_cases hunit : unit' = c.unit
    · subst hunit
      obtain rfl := h.unique h'
      rw [Heap.read_eq_ok, shown_set, ← hcols]
      dsimp only
      rw [hpixels]
      exact List.getElem?_set_self (List.getElem?_eq_some_iff.mp (Heap.read_eq_ok.mp hread)).1
    · have hblock : inst'.pixels ≠ inst.pixels :=
        hholds.own unit' inst' out' c.unit inst out h' h hunit
      rw [Heap.read_eq_ok, shown_other fun heq => absurd heq.symm hunit]
      dsimp only
      rw [hpixels, List.getElem?_set_ne hblock.symm]
      exact Heap.read_eq_ok.mp (hholds.block unit' inst' out' h')
  · intro unit' inst' out' unit'' inst'' out'' h' h''
    rw [liveUnit_iff hcall] at h' h''
    exact hholds.own unit' inst' out' unit'' inst'' out'' h' h''

/-- One that is refused for its pixel leaves the colours. -/
theorem Holds.refuses (hholds : Holds s done) (h : LiveUnit s c.unit inst out)
    (hpixel : inst.npixels < c.pixel) : Holds s (done ++ [c]) := by
  have hlt : inst.npixels.toNat < c.pixel.toNat := UInt32.lt_iff_toNat_lt.mp hpixel
  refine ⟨?_, hholds.own⟩
  intro unit' inst' out' h'
  rw [shown_other]
  · exact hholds.block unit' inst' out' h'
  · rintro rfl
    obtain rfl := h.unique h'
    exact Nat.le_of_lt hlt

/-- The update sends as many pulses as the bits in 32 bits. -/
theorem length_neopixelUpdate {mem : Bool} {ps : List Pulse} (h : LiveUnit s unit inst out)
    (hupdate : neopixelUpdate s mem unit = .ok (none, ps)) :
    ps.length = (24 * inst.npixels).toNat := by
  obtain ⟨u, hu, hout⟩ := h.nzr
  unfold neopixelUpdate at hupdate
  rw [h.got, ok_bind] at hupdate
  dsimp only at hupdate
  rw [hu] at hupdate
  obtain ⟨block, -, hupdate⟩ := bind_eq_ok.mp hupdate
  unfold nzrSend at hupdate
  rw [hout, ok_bind] at hupdate
  obtain ⟨pulses, hsend, hupdate⟩ := bind_eq_ok.mp hupdate
  obtain ⟨-, rfl⟩ := Prod.mk.inj (Except.ok.inj hupdate)
  exact length_sendBits hsend

/-- The update of a unit whose bits fit. -/
theorem Holds.updates (hholds : Holds s done)
    (hbits : ∀ unit inst out, LiveUnit s unit inst out → 24 * inst.npixels.toNat < 2 ^ 32) :
    UpdatesRight s done := by
  intro mem unit inst out h
  obtain ⟨u, hu, hout⟩ := h.nzr
  have hlen : ((shown done unit inst.npixels.toNat).flatMap Colour.bytes).length =
      3 * inst.npixels.toNat := by
    rw [length_flatMap_bytes, length_shown]
  have hprod : (24 * inst.npixels).toNat = 24 * inst.npixels.toNat := by
    rw [UInt32.toNat_mul]
    exact Nat.mod_eq_of_lt (hbits unit inst out h)
  have hsend : sendBits out.timings ((shown done unit inst.npixels.toNat).flatMap Colour.bytes)
      (24 * inst.npixels.toNat) 0x80 0 = _ :=
    sendBits_eq (24 * inst.npixels.toNat) 0 0 (by decide) (by omega)
  unfold neopixelUpdate
  rw [h.got, ok_bind]
  dsimp only
  rw [hu]
  dsimp only
  rw [hholds.block unit inst out h, ok_bind]
  unfold nzrSend
  rw [hout, ok_bind, hprod]
  dsimp only
  rw [hsend, ok_bind, List.drop_zero, List.take_of_length_le]
  · rfl
  · rw [Espi.length_wire, hlen]
    omega

theorem UpdatesRight.bits (h : UpdatesRight s done) (hlive : LiveUnit s unit inst out) :
    24 * inst.npixels.toNat < 2 ^ 32 := by
  have hlen := length_neopixelUpdate hlive (h true unit inst out hlive)
  rw [List.length_map, Espi.length_wire, length_flatMap_bytes, length_shown] at hlen
  have hlt := (24 * inst.npixels).toNat_lt
  omega

theorem CallsRight.meet (h : CallsRight s done cs) : CallsMeet s cs := by
  induction cs generalizing s done with
  | nil => exact ⟨fun _ _ _ hlive => UpdatesRight.bits h hlive, nofun⟩
  | cons c cs ih =>
    obtain ⟨e, s', hcall, haccept, hrest⟩ := h
    obtain ⟨hbits, hpixel⟩ := ih hrest
    refine ⟨?_, ?_⟩
    · intro unit inst out hlive
      exact hbits unit inst out ((liveUnit_iff hcall).mpr hlive)
    · intro c' hc' inst out hlive
      rcases List.mem_cons.mp hc' with rfl | hc'
      · by_cases hfar : inst.npixels < c'.pixel
        · refine .inr ⟨hfar, ?_⟩
          by_contra hmem
          -- without memory for the error the call looks accepted
          have hnone : e = none := by
            rw [neopixelRgb_refuses hlive hfar] at hcall
            rw [← (Prod.mk.inj (Except.ok.inj hcall)).1]
            exact if_neg hmem
          exact UInt32.lt_asymm hfar ((haccept inst out hlive).mp hnone)
        · exact .inl ((haccept inst out hlive).mp (neopixelRgb_accepts hlive hfar hcall))
      · exact hpixel c' hc' inst out ((liveUnit_iff hcall).mpr hlive)

theorem CallsMeet.right (hmeet : CallsMeet s cs)
    (hlive : ∀ c ∈ cs, ∃ inst out, LiveUnit s c.unit inst out) (hholds : Holds s done) :
    CallsRight s done cs := by
  induction cs generalizing s done with
  | nil => exact hholds.updates hmeet.bits
  | cons c cs ih =>
    obtain ⟨hbits, hpixel⟩ := hmeet
    obtain ⟨inst, out, hc⟩ := hlive c (List.mem_cons_self ..)
    -- what a call leaves meets the rest
    have hnext : ∀ e s', neopixelRgb s c = .ok (e, s') → Holds s' (done ++ [c]) →
        CallsRight s' (done ++ [c]) cs := by
      intro e s' hcall hholds'
      apply ih _ _ hholds'
      · refine ⟨?_, ?_⟩
        · intro unit inst' out' hunit
          exact hbits unit inst' out' ((liveUnit_iff hcall).mp hunit)
        · intro c' hc' inst' out' hunit
          exact hpixel c' (List.mem_cons_of_mem _ hc') inst' out' ((liveUnit_iff hcall).mp hunit)
      · intro c' hc'
        obtain ⟨inst', out', hunit⟩ := hlive c' (List.mem_cons_of_mem _ hc')
        exact ⟨inst', out', (liveUnit_iff hcall).mpr hunit⟩
    rcases hpixel c (List.mem_cons_self ..) inst out hc with hlt | ⟨hfar, hmem⟩
    · obtain ⟨s', hcall, hholds'⟩ := hholds.sets hc hlt
      refine ⟨none, s', hcall, ?_, hnext none s' hcall hholds'⟩
      intro inst' out' hc'
      rw [← hc.unique hc']
      exact ⟨fun _ => hlt, fun _ => rfl⟩
    · have hcall := neopixelRgb_refuses hc hfar
      refine ⟨_, s, hcall, ?_, hnext _ s hcall (hholds.refuses hc hfar)⟩
      intro inst' out' hc'
      rw [← hc.unique hc', operationError, if_pos hmem]
      exact ⟨nofun, fun hlt => absurd hlt (UInt32.lt_asymm hfar)⟩

end Calls

/-- The calls and the updates after them are right just where the bits of every unit fit in 32
    bits, and no call is for the pixel after the last one. -/
theorem neopixel_right_iff (s : Strips) (hfresh : Fresh s) (calls : List RgbCall)
    (hlive : ∀ c ∈ calls, ∃ inst out, LiveUnit s c.unit inst out) :
    CallsRight s [] calls ↔ CallsMeet s calls := by
  constructor
  · exact CallsRight.meet
  · intro hmeet
    refine hmeet.right hlive ⟨?_, hfresh.own⟩
    intro unit inst out hunit
    have hprod : (3 * inst.npixels).toNat = 3 * inst.npixels.toNat := by
      have hbits := hmeet.bits unit inst out hunit
      rw [UInt32.toNat_mul]
      exact Nat.mod_eq_of_lt (by show 3 * inst.npixels.toNat < 2 ^ 32; omega)
    rw [hfresh.clear unit inst out hunit, shown_nil, hprod]

end LuaRtos.Driver
