/-
  LuaRtos.Tft.Draw

  Drawings of several calls: what they change together, and what one call changes where its
  line or point lies in the window.
-/

import LuaRtos.CLib.While
import LuaRtos.Tft.Clip

namespace LuaRtos.Tft

open LuaRtos.CLib

/-- A value passed as an `int16_t`. -/
def arg16 (z : Int) : BitVec 16 := BitVec.ofInt 16 z

/-- The value fits in an `int`. -/
def Int32 (z : Int) : Prop := -2147483648 ≤ z ∧ z ≤ 2147483647

instance (z : Int) : Decidable (Int32 z) := inferInstanceAs (Decidable (_ ∧ _))

/-- The result of `int` arithmetic. -/
def int32 (z : Int) : Result Int := if Int32 z then pure z else throw .undefined

/-- The drawing changes the pixel. -/
def Shows (drawn : List (Option Sent)) (px py : Int) : Prop := ∃ t ∈ drawn, Changes t px py

section Values

variable {z : Int}

theorem arg16_toInt (hlow : -32768 ≤ z) (hhigh : z < 32768) : (arg16 z).toInt = z := by
  rw [arg16, BitVec.toInt_ofInt]
  exact Int.bmod_eq_of_le (by omega) (by omega)

theorem int32_ok {z' : Int} : int32 z = .ok z' ↔ Int32 z ∧ z' = z := by
  unfold int32
  split
  next h =>
    exact ⟨fun heq => ⟨h, (Except.ok.inj heq).symm⟩, fun heq => congrArg Except.ok heq.2.symm⟩
  next h => exact iff_of_false (by rintro ⟨⟩) (fun heq => h heq.1)

theorem int32_of_fits (h : Int32 z) : int32 z = .ok z := int32_ok.mpr ⟨h, rfl⟩

theorem int16_eq (hlow : -32768 ≤ z) (hhigh : z < 32768) : int16 z = z := by
  unfold int16
  omega

end Values

section Shows

variable {drawn drawn' : List (Option Sent)} {t : Option Sent} {px py : Int}

theorem not_shows_nil : ¬ Shows [] px py := by
  rintro ⟨t, ht, -⟩
  exact absurd ht List.not_mem_nil

theorem shows_append :
    Shows (drawn ++ drawn') px py ↔ Shows drawn px py ∨ Shows drawn' px py := by
  unfold Shows
  simp only [List.mem_append, or_and_right, exists_or]

theorem shows_cons : Shows (t :: drawn) px py ↔ Changes t px py ∨ Shows drawn px py := by
  unfold Shows
  simp only [List.mem_cons, or_and_right, exists_or, exists_eq_left]

theorem shows_singleton : Shows [t] px py ↔ Changes t px py := by
  rw [shows_cons, or_iff_left not_shows_nil]

end Shows

section Inside

variable {s : Screen} {win : DispWin s} {x y h w : Int} {color : BitVec 16}

theorem DispWin.inside_bounds (win : DispWin s) {px py : Int} (h : win.Inside px py) :
    (0 ≤ px ∧ px < 320) ∧ 0 ≤ py ∧ py < 320 := by
  have hcols := win.columns
  have hrows := win.rows
  have hwidth := s.width_bounds
  have hheight := s.height_bounds
  unfold DispWin.Inside at h
  omega

/-- A point in the window. -/
theorem drawPixel_shows (hin : win.Inside x y) (color : BitVec 16) (px py : Int) :
    Changes (drawPixel win (arg16 x) (arg16 y) color) px py ↔ px = x ∧ py = y := by
  have hbounds := win.inside_bounds hin
  rw [drawPixel_changes, arg16_toInt (by omega) (by omega), arg16_toInt (by omega) (by omega)]
  unfold Rectangle DispWin.Inside at *
  omega

/-- A vertical line in the window. -/
theorem drawFastVLine_shows (hfirst : win.Inside x y) (hlast : win.Inside x (y + h - 1))
    (hpos : 0 < h) (color : BitVec 16) (px py : Int) :
    Changes (drawFastVLine win (arg16 x) (arg16 y) (arg16 h) color) px py ↔
      px = x ∧ y ≤ py ∧ py < y + h := by
  have hbounds := win.inside_bounds hfirst
  have hbounds' := win.inside_bounds hlast
  have hx : (arg16 x).toInt = x := arg16_toInt (by omega) (by omega)
  have hy : (arg16 y).toInt = y := arg16_toInt (by omega) (by omega)
  have hh : (arg16 h).toInt = h := arg16_toInt (by omega) (by omega)
  have hclips := (clips_drawFastVLine_iff win (arg16 x) (arg16 y) (arg16 h) color).mpr
  unfold DispWin.Inside at hfirst hlast
  rw [hx, hy, hh] at hclips
  rw [(hclips (by omega)).pixels px py]
  unfold Rectangle DispWin.Inside
  omega

/-- A horizontal line in the window. -/
theorem drawFastHLine_shows (hfirst : win.Inside x y) (hlast : win.Inside (x + w - 1) y)
    (hpos : 0 < w) (color : BitVec 16) (px py : Int) :
    Changes (drawFastHLine win (arg16 x) (arg16 y) (arg16 w) color) px py ↔
      (x ≤ px ∧ px < x + w) ∧ py = y := by
  have hbounds := win.inside_bounds hfirst
  have hbounds' := win.inside_bounds hlast
  have hx : (arg16 x).toInt = x := arg16_toInt (by omega) (by omega)
  have hy : (arg16 y).toInt = y := arg16_toInt (by omega) (by omega)
  have hw : (arg16 w).toInt = w := arg16_toInt (by omega) (by omega)
  have hclips := (clips_drawFastHLine_iff win (arg16 x) (arg16 y) (arg16 w) color).mpr
  unfold DispWin.Inside at hfirst hlast
  rw [hx, hy, hw] at hclips
  rw [(hclips (by omega)).pixels px py]
  unfold Rectangle DispWin.Inside
  omega

/-- What a horizontal line changes in any case. -/
theorem drawFastHLine_changes (win : DispWin s) (x y w color : BitVec 16) (px py : Int) :
    Changes (drawFastHLine win x y w color) px py ↔
      (win.y1 ≤ y.toInt ∧ y.toInt ≤ win.y2 ∧ x.toInt ≤ win.x2) ∧ py = y.toInt ∧
        max win.x1 x.toInt ≤ px ∧ px < (clipAxis win.x1 win.x2 x.toInt w.toInt).1 +
          (clipAxis win.x1 win.x2 x.toInt w.toInt).2 := by
  have hcols := win.columns
  have hrows := win.rows
  have hwidth := s.width_bounds
  have hheight := s.height_bounds
  unfold drawFastHLine
  split
  next hout =>
    refine iff_of_false ?_ (by omega)
    rintro ⟨t, ht, -⟩
    cases ht
  next hin =>
    obtain ⟨hstart, hpos, hstop⟩ := clipAxis_bounds (n := w.toInt) hcols.1
      ⟨hcols.2.1, by omega⟩ (show x.toInt ≤ win.x2 by omega)
    dsimp only
    generalize (clipAxis win.x1 win.x2 x.toInt w.toInt).1 = x' at *
    generalize (clipAxis win.x1 win.x2 x.toInt w.toInt).2 = w' at *
    have hsent := (pushColorRep_rectangle (y := y.toInt) (h := 1) color px py
      (show 0 ≤ x' ∧ x' + w' ≤ 320 by omega) hpos ⟨by omega, by omega⟩ (Int.le_refl 1)).1
    rw [Int.one_mul, Int.add_sub_cancel] at hsent
    rw [hsent, hstart]
    unfold Rectangle
    omega

/-- The end of the clipped length: `a + n` in the window, where the difference does not wrap. -/
theorem clipAxis_end {lo hi a n : Int} (hlo : 0 ≤ lo) (hhi : lo ≤ hi ∧ hi < 320) (ha : a ≤ hi)
    (hn : n ≤ 32767) (hlast : -32768 ≤ a + n - 1) :
    (clipAxis lo hi a n).1 + (clipAxis lo hi a n).2 =
      if a < lo ∧ a + n - lo < -32768 then hi + 1
      else max (max lo a + 1) (min (hi + 1) (a + n)) := by
  unfold clipAxis int16
  dsimp only
  split <;> split <;> split <;> split <;> split <;> omega

end Inside

end LuaRtos.Tft
