/-
  LuaRtos.Tft.Clip

  The clip window of Lua/modules/screen/tft.c and the four drawing functions that send
  pixels to the display through it.

  `Sent` is what goes to the display: an address window and a count of pixels.  The
  display fills the window row by row and starts again at its corner when it is full.
  Coordinates and lengths are `int16_t`, so that a difference that is stored in one
  wraps.  The display is taken to be selected.
-/

import Mathlib.Tactic.Linarith
import Mathlib.Data.Int.Init

namespace LuaRtos.Tft

/-- A value stored in an `int16_t`. -/
def int16 (z : Int) : Int := (z + 32768) % 65536 - 32768

/-- A value passed as a `uint16_t`. -/
def uint16 (z : Int) : Int := z % 65536

/-- `_width` and `_height`. -/
structure Screen where
  width : Int
  height : Int
  width_bounds : 0 < width ∧ width ≤ 320
  height_bounds : 0 < height ∧ height ≤ 320

/-- The sizes before a display is set up. -/
def Screen.initial : Screen := ⟨320, 240, by decide, by decide⟩

/-- `TFT_setRotation`, the sizes. -/
def setRotation (tftType : Int) (m : BitVec 8) (s : Screen) : Screen :=
  if m.toNat > 3 then s
  else if tftType = 0 then
    if m.toNat % 2 = 1 then ⟨160, 128, by decide, by decide⟩ else ⟨128, 160, by decide, by decide⟩
  else if tftType = 1 then
    if m.toNat % 2 = 1 then ⟨320, 240, by decide, by decide⟩ else ⟨240, 320, by decide, by decide⟩
  else s

/-- `dispWin`, as `tft_setclipwin` leaves it. -/
structure DispWin (s : Screen) where
  x1 : Int
  y1 : Int
  x2 : Int
  y2 : Int
  columns : 0 ≤ x1 ∧ x1 ≤ x2 ∧ x2 < s.width
  rows : 0 ≤ y1 ∧ y1 ≤ y2 ∧ y2 < s.height

/-- The ends of a window along one axis, for a screen of `size` pixels. -/
def clipEnds (size a b : Int) : Int × Int :=
  let a := uint16 a
  let b := uint16 b
  let b := if b ≥ size then size - 1 else b
  let a := if a > b then b else a
  (a, b)

theorem clipEnds_bounds {size : Int} (hsize : 0 < size) (a b : Int) :
    0 ≤ (clipEnds size a b).1 ∧ (clipEnds size a b).1 ≤ (clipEnds size a b).2 ∧
      (clipEnds size a b).2 < size := by
  unfold clipEnds uint16
  dsimp only
  split <;> split <;> omega

/-- `tft_setclipwin`. -/
def tftSetclipwin (s : Screen) (x1 y1 x2 y2 : BitVec 32) : DispWin s where
  x1 := (clipEnds s.width x1.toInt x2.toInt).1
  y1 := (clipEnds s.height y1.toInt y2.toInt).1
  x2 := (clipEnds s.width x1.toInt x2.toInt).2
  y2 := (clipEnds s.height y1.toInt y2.toInt).2
  columns := clipEnds_bounds s.width_bounds.1 _ _
  rows := clipEnds_bounds s.height_bounds.1 _ _

/-- What is sent to the display: the address window, the number of pixels, their colour. -/
structure Sent where
  x1 : Int
  x2 : Int
  y1 : Int
  y2 : Int
  len : Nat
  color : BitVec 16
deriving DecidableEq, Repr

/-- `disp_spi_transfer_addrwin`, and the `len` pixels that follow it. -/
def transfer (x1 x2 y1 y2 : Int) (len : Nat) (color : BitVec 16) : Sent :=
  ⟨uint16 x1, uint16 x2, uint16 y1, uint16 y2, len, color⟩

/-- `disp_spi_set_pixel`. -/
def setPixel (x y : Int) (color : BitVec 16) : Sent := transfer x (x + 1) y (y + 1) 1 color

/-- `TFT_pushColorRep`.  The length is passed as a `uint32_t`. -/
def pushColorRep (x1 y1 x2 y2 : Int) (color : BitVec 16) (len : Int) : Sent :=
  transfer x1 x2 y1 y2 (len % 4294967296).toNat color

/-- The clipping of a length along one axis. -/
def clipAxis (lo hi a n : Int) : Int × Int :=
  let n' := if a < lo then int16 (n - (lo - a)) else n
  let a := if a < lo then lo else a
  let n := if n' < 0 then 0 else n'
  let n := if a + n > hi + 1 then int16 (hi - a + 1) else n
  (a, if n = 0 then 1 else n)

section Drawing

variable {s : Screen} (win : DispWin s)

/-- `TFT_drawPixel`. -/
def drawPixel (x y color : BitVec 16) : Option Sent :=
  if x.toInt < win.x1 ∨ y.toInt < win.y1 ∨ x.toInt > win.x2 ∨ y.toInt > win.y2 then none
  else some (setPixel x.toInt y.toInt color)

/-- `TFT_drawFastVLine`. -/
def drawFastVLine (x y h color : BitVec 16) : Option Sent :=
  if x.toInt < win.x1 ∨ x.toInt > win.x2 ∨ y.toInt > win.y2 then none
  else
    let (y, h) := clipAxis win.y1 win.y2 y.toInt h.toInt
    some (pushColorRep x.toInt y x.toInt (y + h - 1) color h)

/-- `TFT_drawFastHLine`. -/
def drawFastHLine (x y w color : BitVec 16) : Option Sent :=
  if y.toInt < win.y1 ∨ x.toInt > win.x2 ∨ y.toInt > win.y2 then none
  else
    let (x, w) := clipAxis win.x1 win.x2 x.toInt w.toInt
    some (pushColorRep x y.toInt (x + w - 1) y.toInt color w)

/-- `TFT_fillRect`.  Its first test leaves out the last column of the window. -/
def fillRect (x y w h color : BitVec 16) : Option Sent :=
  if x.toInt ≥ win.x2 ∨ y.toInt > win.y2 then none
  else
    let (x, w) := clipAxis win.x1 win.x2 x.toInt w.toInt
    let (y, h) := clipAxis win.y1 win.y2 y.toInt h.toInt
    some (pushColorRep x y (x + w - 1) (y + h - 1) color (h * w))

end Drawing

/-! ## What the display shows -/

/-- The pixels of the address window. -/
def Sent.area (t : Sent) : Int := (t.x2 - t.x1 + 1) * (t.y2 - t.y1 + 1)

/-- The pixel that gets the colour number `k`. -/
def Sent.pixel (t : Sent) (k : Nat) : Int × Int :=
  (t.x1 + k % (t.x2 - t.x1 + 1), t.y1 + k / (t.x2 - t.x1 + 1) % (t.y2 - t.y1 + 1))

/-- The pixel at `px`, `py` is changed. -/
def Changes (sent : Option Sent) (px py : Int) : Prop :=
  ∃ t ∈ sent, ∃ k < t.len, t.pixel k = (px, py)

/-- The pixel lies in the clip window. -/
def DispWin.Inside {s : Screen} (win : DispWin s) (px py : Int) : Prop :=
  win.x1 ≤ px ∧ px ≤ win.x2 ∧ win.y1 ≤ py ∧ py ≤ win.y2

/-- Just the pixels of the shape in the window are changed, and as many are sent as the
    address window has. -/
structure Clips {s : Screen} (win : DispWin s) (shape : Int → Int → Prop) (sent : Option Sent) :
    Prop where
  pixels : ∀ px py, Changes sent px py ↔ shape px py ∧ win.Inside px py
  count : ∀ t ∈ sent, (t.len : Int) = t.area

/-- The rectangle of `w` by `h` pixels; a row, a column and a point are the ones with a side
    of one pixel. -/
def Rectangle (x y w h : Int) (px py : Int) : Prop :=
  x ≤ px ∧ px < x + w ∧ y ≤ py ∧ py < y + h

/-! ## A full window -/

section Window

variable {t : Sent} {px py : Int}

/-- As many pixels as the window has reach each of its pixels, and no other. -/
theorem changes_full (hx : t.x1 ≤ t.x2) (hy : t.y1 ≤ t.y2) (hlen : (t.len : Int) = t.area) :
    Changes (some t) px py ↔ t.x1 ≤ px ∧ px ≤ t.x2 ∧ t.y1 ≤ py ∧ py ≤ t.y2 := by
  constructor
  · rintro ⟨_, ⟨⟩, k, -, hk⟩
    obtain ⟨rfl, rfl⟩ := Prod.mk.inj hk
    have hcol := Int.emod_nonneg k (show t.x2 - t.x1 + 1 ≠ 0 by omega)
    have hcol' := Int.emod_lt_of_pos k (show 0 < t.x2 - t.x1 + 1 by omega)
    have hrow := Int.emod_nonneg (k / (t.x2 - t.x1 + 1)) (show t.y2 - t.y1 + 1 ≠ 0 by omega)
    have hrow' :=
      Int.emod_lt_of_pos (k / (t.x2 - t.x1 + 1)) (show 0 < t.y2 - t.y1 + 1 by omega)
    omega
  · rintro ⟨hpx, hpx', hpy, hpy'⟩
    have hw : 0 < t.x2 - t.x1 + 1 := by omega
    -- the rows before this one, and the pixels before this one in its row
    obtain ⟨k, hk⟩ : ∃ k : Nat, (k : Int) = (px - t.x1) + (t.x2 - t.x1 + 1) * (py - t.y1) := by
      refine ⟨((px - t.x1) + (t.x2 - t.x1 + 1) * (py - t.y1)).toNat, Int.toNat_of_nonneg ?_⟩
      have := Int.mul_nonneg hw.le (show 0 ≤ py - t.y1 by omega)
      omega
    refine ⟨t, rfl, k, ?_, ?_⟩
    · have hrows : (t.x2 - t.x1 + 1) * (py - t.y1) ≤ (t.x2 - t.x1 + 1) * (t.y2 - t.y1) :=
        Int.mul_le_mul_of_nonneg_left (by omega) hw.le
      have harea : t.area = (t.x2 - t.x1 + 1) * (t.y2 - t.y1) + (t.x2 - t.x1 + 1) := by
        rw [Sent.area, Int.mul_add, Int.mul_one]
      omega
    · have hcol : (k : Int) % (t.x2 - t.x1 + 1) = px - t.x1 := by
        rw [hk, Int.add_mul_emod_self_left]
        exact Int.emod_eq_of_lt (by omega) (by omega)
      have hrow : (k : Int) / (t.x2 - t.x1 + 1) = py - t.y1 := by
        rw [hk, Int.add_mul_ediv_left _ _ hw.ne', Int.ediv_eq_zero_of_lt (by omega) (by omega),
          Int.zero_add]
      rw [Sent.pixel, hcol, hrow, Int.emod_eq_of_lt (by omega) (by omega)]
      simp only [Prod.mk.injEq]
      omega

end Window

/-! ## One axis -/

section Axis

variable {lo hi a n : Int}

/-- The clipped length has at least one pixel and stays between the ends. -/
theorem clipAxis_bounds (hlo : 0 ≤ lo) (hhi : lo ≤ hi ∧ hi < 320) (ha : a ≤ hi) :
    (clipAxis lo hi a n).1 = max lo a ∧ 1 ≤ (clipAxis lo hi a n).2 ∧
      (clipAxis lo hi a n).1 + (clipAxis lo hi a n).2 ≤ hi + 1 := by
  unfold clipAxis int16
  dsimp only
  split <;> split <;> split <;> split <;> omega

/-- Where the length reaches into the window, the clipped one is the part inside. -/
theorem clipAxis_reaches (hlo : 0 ≤ lo) (hhi : lo ≤ hi ∧ hi < 320) (ha : a ≤ hi)
    (hn : n ≤ 32767) (hpos : 0 < n) (hreach : lo < a + n) :
    (clipAxis lo hi a n).1 + (clipAxis lo hi a n).2 = min (hi + 1) (a + n) := by
  unfold clipAxis int16
  dsimp only
  split <;> split <;> split <;> split <;> omega

end Axis

/-! ## The four functions -/

section Sends

variable {s : Screen} {win : DispWin s} {x y w h x' y' w' h' : Int}

/-- A rectangle on the screen is sent as it is, with its area as the count. -/
theorem pushColorRep_rectangle (color : BitVec 16) (px py : Int) (hx : 0 ≤ x ∧ x + w ≤ 320)
    (hw : 1 ≤ w) (hy : 0 ≤ y ∧ y + h ≤ 320) (hh : 1 ≤ h) :
    (Changes (some (pushColorRep x y (x + w - 1) (y + h - 1) color (h * w))) px py ↔
        Rectangle x y w h px py) ∧
      ((pushColorRep x y (x + w - 1) (y + h - 1) color (h * w)).len : Int) =
        (pushColorRep x y (x + w - 1) (y + h - 1) color (h * w)).area := by
  have hpos : 0 ≤ h * w := Int.mul_nonneg (by omega) (by omega)
  have hmul : h * w ≤ 320 * 320 :=
    Int.mul_le_mul (by omega) (by omega) (by omega) (by omega)
  have hx₁ : uint16 x = x := Int.emod_eq_of_lt (by omega) (by omega)
  have hx₂ : uint16 (x + w - 1) = x + w - 1 := Int.emod_eq_of_lt (by omega) (by omega)
  have hy₁ : uint16 y = y := Int.emod_eq_of_lt (by omega) (by omega)
  have hy₂ : uint16 (y + h - 1) = y + h - 1 := Int.emod_eq_of_lt (by omega) (by omega)
  have hlen : h * w % 4294967296 = h * w := Int.emod_eq_of_lt hpos (by omega)
  have hsent : pushColorRep x y (x + w - 1) (y + h - 1) color (h * w) =
      ⟨x, x + w - 1, y, y + h - 1, (h * w).toNat, color⟩ := by
    rw [pushColorRep, transfer, hx₁, hx₂, hy₁, hy₂, hlen]
  rw [hsent]
  have hcount : ((h * w).toNat : Int) = (x + w - 1 - x + 1) * (y + h - 1 - y + 1) := by
    rw [Int.toNat_of_nonneg hpos, show x + w - 1 - x + 1 = w by omega,
      show y + h - 1 - y + 1 = h by omega, Int.mul_comm]
  refine ⟨?_, hcount⟩
  rw [changes_full (by dsimp only; omega) (by dsimp only; omega) hcount, Rectangle]
  dsimp only
  omega

/-- A part of the axis of the window that was clipped from `a`, `n`. -/
structure Clipped (lo hi a n a' n' : Int) : Prop where
  start : a' = max lo a
  pos : 1 ≤ n'
  stop : a' + n' ≤ hi + 1
  reaches : 0 < n → lo < a + n → a' + n' = min (hi + 1) (a + n)

theorem clipped_clipAxis {lo hi : Int} (hlo : 0 ≤ lo) (hhi : lo ≤ hi ∧ hi < 320) {a n : BitVec 16}
    (ha : a.toInt ≤ hi) :
    Clipped lo hi a.toInt n.toInt (clipAxis lo hi a.toInt n.toInt).1
      (clipAxis lo hi a.toInt n.toInt).2 := by
  obtain ⟨hstart, hpos, hstop⟩ := clipAxis_bounds (n := n.toInt) hlo hhi ha
  have hn : n.toInt < 2 ^ 15 := BitVec.toInt_lt
  exact ⟨hstart, hpos, hstop, clipAxis_reaches hlo hhi ha (by omega)⟩

/-- One pixel in the window is not cut. -/
theorem clipped_one {lo hi a : Int} (ha : lo ≤ a) (ha' : a ≤ hi) : Clipped lo hi a 1 a 1 := by
  refine ⟨by omega, by omega, by omega, fun _ _ => by omega⟩

/-- What is sent is right just where the rectangle reaches into the window: there is always
    something sent. -/
theorem clips_sent_iff (color : BitVec 16) (hx : Clipped win.x1 win.x2 x w x' w')
    (hy : Clipped win.y1 win.y2 y h y' h') :
    Clips win (Rectangle x y w h)
        (some (pushColorRep x' y' (x' + w' - 1) (y' + h' - 1) color (h' * w'))) ↔
      (0 < w ∧ win.x1 < x + w) ∧ 0 < h ∧ win.y1 < y + h := by
  obtain ⟨hxstart, hxpos, hxstop, hxreach⟩ := hx
  obtain ⟨hystart, hypos, hystop, hyreach⟩ := hy
  have hcols := win.columns
  have hrows := win.rows
  have hwidth := s.width_bounds
  have hheight := s.height_bounds
  have hsent : ∀ px py, _ := fun px py =>
    pushColorRep_rectangle color px py (show 0 ≤ x' ∧ x' + w' ≤ 320 by omega) hxpos
      (show 0 ≤ y' ∧ y' + h' ≤ 320 by omega) hypos
  constructor
  · intro hclips
    -- the corner is sent in any case
    have hcorner := (hclips.pixels x' y').mp ((hsent x' y').1.mpr (by unfold Rectangle; omega))
    unfold Rectangle at hcorner
    omega
  · rintro ⟨⟨hw, hxw⟩, hh, hyh⟩
    have hxstop' := hxreach hw hxw
    have hystop' := hyreach hh hyh
    refine ⟨fun px py => ?_, ?_⟩
    · rw [(hsent px py).1]
      unfold Rectangle DispWin.Inside
      omega
    · rintro _ ⟨⟩
      exact (hsent x' y').2

/-- Where nothing is sent the shape must not reach into the window. -/
theorem clips_none_iff {shape : Int → Int → Prop} :
    Clips win shape none ↔ ∀ px py, ¬ (shape px py ∧ win.Inside px py) := by
  have hnone : ∀ px py, ¬ Changes none px py := by
    rintro px py ⟨t, ht, -⟩
    cases ht
  constructor
  · intro hclips px py hin
    exact hnone px py ((hclips.pixels px py).mpr hin)
  · intro hout
    refine ⟨fun px py => iff_of_false (hnone px py) (hout px py), ?_⟩
    rintro _ ⟨⟩

/-- `TFT_drawPixel` changes the pixel in any case where it should. -/
theorem drawPixel_changes (win : DispWin s) (x y color : BitVec 16) (px py : Int) :
    Changes (drawPixel win x y color) px py ↔
      Rectangle x.toInt y.toInt 1 1 px py ∧ win.Inside px py := by
  have hcols := win.columns
  have hrows := win.rows
  have hwidth := s.width_bounds
  have hheight := s.height_bounds
  unfold drawPixel Rectangle DispWin.Inside
  split
  next hout =>
    refine iff_of_false ?_ (by omega)
    rintro ⟨t, ht, -⟩
    cases ht
  next hin =>
    have hx : uint16 x.toInt = x.toInt := Int.emod_eq_of_lt (by omega) (by omega)
    have hy : uint16 y.toInt = y.toInt := Int.emod_eq_of_lt (by omega) (by omega)
    constructor
    · rintro ⟨_, ⟨⟩, k, hk, hpixel⟩
      have hzero : k = 0 := Nat.lt_one_iff.mp hk
      subst hzero
      obtain ⟨rfl, rfl⟩ := Prod.mk.inj hpixel
      simp only [setPixel, transfer, hx, hy, Nat.cast_zero, Int.zero_emod, Int.zero_ediv]
      omega
    · rintro ⟨hpoint, -⟩
      refine ⟨_, rfl, 0, Nat.one_pos, ?_⟩
      simp only [Sent.pixel, setPixel, transfer, hx, hy, Nat.cast_zero, Int.zero_emod,
        Int.zero_ediv, Prod.mk.injEq]
      omega

/-- But the address window it sends has four pixels. -/
theorem clips_drawPixel_iff (win : DispWin s) (x y color : BitVec 16) :
    Clips win (Rectangle x.toInt y.toInt 1 1) (drawPixel win x y color) ↔
      ¬ win.Inside x.toInt y.toInt := by
  have hcols := win.columns
  have hrows := win.rows
  have hwidth := s.width_bounds
  have hheight := s.height_bounds
  constructor
  · intro hclips hin
    unfold DispWin.Inside at hin
    have hx : uint16 (x.toInt + 1) - uint16 x.toInt = 1 := by unfold uint16; omega
    have hy : uint16 (y.toInt + 1) - uint16 y.toInt = 1 := by unfold uint16; omega
    have hcount := hclips.count (setPixel x.toInt y.toInt color)
      (by rw [drawPixel, if_neg (by omega)]; rfl)
    rw [setPixel, transfer, Sent.area, hx, hy] at hcount
    have hfour : (1 : Int) = (1 + 1) * (1 + 1) := hcount
    omega
  · intro hout
    refine ⟨drawPixel_changes win x y color, ?_⟩
    have hnone : drawPixel win x y color = none := by
      rw [drawPixel, if_pos]
      unfold DispWin.Inside at hout
      omega
    rw [hnone]
    rintro _ ⟨⟩

theorem clips_drawFastVLine_iff (win : DispWin s) (x y h color : BitVec 16) :
    Clips win (Rectangle x.toInt y.toInt 1 h.toInt) (drawFastVLine win x y h color) ↔
      (x.toInt < win.x1 ∨ win.x2 < x.toInt ∨ win.y2 < y.toInt) ∨
        0 < h.toInt ∧ win.y1 < y.toInt + h.toInt := by
  have hcols := win.columns
  have hrows := win.rows
  have hheight := s.height_bounds
  unfold drawFastVLine
  split
  next hout =>
    refine iff_of_true (clips_none_iff.mpr ?_) (.inl (by omega))
    unfold Rectangle DispWin.Inside
    intro px py
    omega
  next hin =>
    have hx : Clipped win.x1 win.x2 x.toInt 1 x.toInt 1 := clipped_one (by omega) (by omega)
    have hy := clipped_clipAxis (n := h) hrows.1 ⟨hrows.2.1, by omega⟩ (a := y) (by omega)
    have hsent := clips_sent_iff color hx hy
    rw [Int.mul_one, Int.add_sub_cancel] at hsent
    rw [hsent]
    omega

theorem clips_drawFastHLine_iff (win : DispWin s) (x y w color : BitVec 16) :
    Clips win (Rectangle x.toInt y.toInt w.toInt 1) (drawFastHLine win x y w color) ↔
      (y.toInt < win.y1 ∨ win.x2 < x.toInt ∨ win.y2 < y.toInt) ∨
        0 < w.toInt ∧ win.x1 < x.toInt + w.toInt := by
  have hcols := win.columns
  have hrows := win.rows
  have hwidth := s.width_bounds
  unfold drawFastHLine
  split
  next hout =>
    refine iff_of_true (clips_none_iff.mpr ?_) (.inl (by omega))
    unfold Rectangle DispWin.Inside
    intro px py
    omega
  next hin =>
    have hy : Clipped win.y1 win.y2 y.toInt 1 y.toInt 1 := clipped_one (by omega) (by omega)
    have hx := clipped_clipAxis (n := w) hcols.1 ⟨hcols.2.1, by omega⟩ (a := x) (by omega)
    have hsent := clips_sent_iff color hx hy
    rw [Int.one_mul, Int.add_sub_cancel] at hsent
    rw [hsent]
    omega

theorem clips_fillRect_iff (win : DispWin s) (x y w h color : BitVec 16) :
    Clips win (Rectangle x.toInt y.toInt w.toInt h.toInt) (fillRect win x y w h color) ↔
      win.x2 < x.toInt ∨ win.y2 < y.toInt ∨
        (x.toInt = win.x2 ∧ ¬ (0 < w.toInt ∧ 0 < h.toInt ∧ win.y1 < y.toInt + h.toInt)) ∨
        (x.toInt < win.x2 ∧ (0 < w.toInt ∧ win.x1 < x.toInt + w.toInt) ∧
          0 < h.toInt ∧ win.y1 < y.toInt + h.toInt) := by
  have hcols := win.columns
  have hrows := win.rows
  have hwidth := s.width_bounds
  have hheight := s.height_bounds
  unfold fillRect
  split
  next hout =>
    rw [clips_none_iff]
    unfold Rectangle DispWin.Inside
    constructor
    · intro hempty
      have hcorner := hempty win.x2 (max win.y1 y.toInt)
      omega
    · intro hcond px py
      omega
  next hin =>
    have hx := clipped_clipAxis (n := w) hcols.1 ⟨hcols.2.1, by omega⟩ (a := x) (by omega)
    have hy := clipped_clipAxis (n := h) hrows.1 ⟨hrows.2.1, by omega⟩ (a := y) (by omega)
    have hsent := clips_sent_iff color hx hy
    rw [hsent]
    omega

end Sends

/-- In every window that `tft_setclipwin` can leave, the lines and the rectangle are right where
    they are turned away at once and lie outside, and where they reach into the window; a point
    is where it lies outside. -/
theorem clipping_iff {s : Screen} (win : DispWin s) (x y w h color : BitVec 16) :
    (Clips win (Rectangle x.toInt y.toInt 1 1) (drawPixel win x y color) ↔
      ¬ win.Inside x.toInt y.toInt) ∧
    (Clips win (Rectangle x.toInt y.toInt w.toInt 1) (drawFastHLine win x y w color) ↔
      (y.toInt < win.y1 ∨ win.x2 < x.toInt ∨ win.y2 < y.toInt) ∨
        0 < w.toInt ∧ win.x1 < x.toInt + w.toInt) ∧
    (Clips win (Rectangle x.toInt y.toInt 1 h.toInt) (drawFastVLine win x y h color) ↔
      (x.toInt < win.x1 ∨ win.x2 < x.toInt ∨ win.y2 < y.toInt) ∨
        0 < h.toInt ∧ win.y1 < y.toInt + h.toInt) ∧
    (Clips win (Rectangle x.toInt y.toInt w.toInt h.toInt) (fillRect win x y w h color) ↔
      win.x2 < x.toInt ∨ win.y2 < y.toInt ∨
        (x.toInt = win.x2 ∧ ¬ (0 < w.toInt ∧ 0 < h.toInt ∧ win.y1 < y.toInt + h.toInt)) ∨
        (x.toInt < win.x2 ∧ (0 < w.toInt ∧ win.x1 < x.toInt + w.toInt) ∧
          0 < h.toInt ∧ win.y1 < y.toInt + h.toInt)) :=
  ⟨clips_drawPixel_iff win x y color, clips_drawFastHLine_iff win x y w color,
    clips_drawFastVLine_iff win x y h color, clips_fillRect_iff win x y w h color⟩

/-- The whole screen as the window. -/
def wholeScreen : DispWin Screen.initial := tftSetclipwin Screen.initial 0 0 319 239

/-- A row of no pixels is one pixel, and the last column is not filled. -/
theorem not_clips_row :
    ¬ Clips wholeScreen (Rectangle 5 5 0 1) (drawFastHLine wholeScreen 5 5 0 0xffff) ∧
      ¬ Clips wholeScreen (Rectangle 319 0 1 1) (fillRect wholeScreen 319 0 1 1 0xffff) := by
  constructor
  · intro hclips
    exact absurd ((clips_drawFastHLine_iff wholeScreen 5 5 0 0xffff).mp hclips) (by decide)
  · intro hclips
    exact absurd ((clips_fillRect_iff wholeScreen 319 0 1 1 0xffff).mp hclips) (by decide)

end LuaRtos.Tft
