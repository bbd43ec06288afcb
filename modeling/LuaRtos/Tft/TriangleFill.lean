/-
  LuaRtos.Tft.TriangleFill

  TFT_fillTriangle for vertices on one line, and for any three vertices in any order.

  The ends of a line are found by comparisons of `uint16_t` values with `int16_t` ones, so that a
  vertex left of the screen counts as the right end where it is not the first.
-/

import LuaRtos.Tft.TriangleRows

namespace LuaRtos.Tft

open LuaRtos.CLib

/-! ## Vertices in one row -/

/-- The part of the window that a call from `a` to `b` shows is the one between `l` and `h`. -/
def ShowsSame (lo hi a b l h : Int) : Prop :=
  if a ≤ hi then
    max lo a = max lo l ∧
      (if a < lo ∧ b + 1 - lo < -32768 then hi + 1
        else max (max lo a + 1) (min (hi + 1) (b + 1))) = min hi h + 1
  else min hi h < max lo l

section Flat

variable {s : Screen} {win : DispWin s} {color : BitVec 16} {v0 v1 v2 : Vertex}
  {a b l h lo hi px py : Int}

/-- The comparisons in coordinates: one left of the screen is the end. -/
def widenCoord (ab : Int × Int) (x : Int) : Int × Int :=
  if x < 0 then (ab.1, x)
  else if x < ab.1 then (x, ab.2)
  else if ab.2 < x then (ab.1, x)
  else ab

theorem widenSpan_eq {ab : Int × Int} (x : BitVec 16) (hab : Int16 ab.1 ∧ Int16 ab.2) :
    widenSpan ab x = widenCoord ab x.toInt := by
  have hx := BitVec.toInt_eq_toNat_cond x
  have hlt := x.isLt
  unfold Int16 at hab
  unfold widenSpan widenCoord
  by_cases hneg : x.toInt < 0
  · have hlarge : 32768 ≤ x.toNat := by split at hx <;> omega
    rw [if_neg (by omega), if_pos (by omega), if_pos hneg]
  · rw [toInt_eq_toNat (by omega), if_neg hneg]

/-- The call shows what it should just where both ends agree in the window. -/
theorem showsSame_iff (hlohi : lo ≤ hi) :
    (∀ px, (a ≤ hi ∧ max lo a ≤ px ∧ px < if a < lo ∧ b + 1 - lo < -32768 then hi + 1
        else max (max lo a + 1) (min (hi + 1) (b + 1))) ↔
      (l ≤ px ∧ px ≤ h) ∧ lo ≤ px ∧ px ≤ hi) ↔
    ShowsSame lo hi a b l h := by
  unfold ShowsSame
  have hend : max lo a + 1 ≤ (if a < lo ∧ b + 1 - lo < -32768 then hi + 1
      else max (max lo a + 1) (min (hi + 1) (b + 1))) ∨ hi < a := by
    split <;> omega
  generalize (if a < lo ∧ b + 1 - lo < -32768 then hi + 1
    else max (max lo a + 1) (min (hi + 1) (b + 1))) = e at *
  have hm : lo ≤ max lo a ∧ (a ≤ hi → max lo a ≤ hi) := by omega
  have hp : ∀ px, max lo l ≤ px ∧ px ≤ min hi h ↔ (l ≤ px ∧ px ≤ h) ∧ lo ≤ px ∧ px ≤ hi := by
    intro px
    omega
  simp only [← hp]
  generalize max lo a = m at *
  generalize max lo l = p at *
  generalize min hi h = q at *
  constructor
  · intro hall
    have hleft := hall m
    have hright := hall (e - 1)
    have hleft' := hall p
    have hright' := hall q
    split
    next ha => omega
    next ha => omega
  · intro hsame px
    split at hsame
    next ha => omega
    next ha => omega

theorem crosses_flat (h1 : v1.y = v0.y) (h2 : v2.y = v0.y) (y x : Int) :
    Crosses [v0, v1, v2] y x ↔
      y = v0.y.toInt ∧ (x = v0.x.toInt ∨ x = v1.x.toInt ∨ x = v2.x.toInt) := by
  have hlevel : ∀ v ∈ [v0, v1, v2], v.y.toInt = v0.y.toInt := by
    intro v hv
    rcases mem_three.mp hv with rfl | rfl | rfl
    · rfl
    · rw [h1]
    · rw [h2]
  constructor
  · rintro ⟨v, hv, w, hw, hy, rfl⟩
    have hvy := hlevel v hv
    have hwy := hlevel w hw
    rw [lineX_level (hvy.trans hwy.symm)]
    refine ⟨by omega, ?_⟩
    rcases mem_three.mp hv with rfl | rfl | rfl
    · exact .inl rfl
    · exact .inr (.inl rfl)
    · exact .inr (.inr rfl)
  · rintro ⟨rfl, rfl | rfl | rfl⟩
    · exact crosses_vertex (by simp)
    · rw [← hlevel v1 (by simp)]
      exact crosses_vertex (by simp)
    · rw [← hlevel v2 (by simp)]
      exact crosses_vertex (by simp)

theorem spanned_flat (h1 : v1.y = v0.y) (h2 : v2.y = v0.y) (px py : Int) :
    Spanned [v0, v1, v2] px py ↔ py = v0.y.toInt ∧
      min v0.x.toInt (min v1.x.toInt v2.x.toInt) ≤ px ∧
      px ≤ max v0.x.toInt (max v1.x.toInt v2.x.toInt) := by
  unfold Spanned
  simp only [crosses_flat h1 h2]
  constructor
  · rintro ⟨x, x', ⟨hy, hx⟩, ⟨-, hx'⟩, hpx, hpx'⟩
    refine ⟨hy, ?_⟩
    omega
  · rintro ⟨hy, hpx, hpx'⟩
    refine ⟨min v0.x.toInt (min v1.x.toInt v2.x.toInt),
      max v0.x.toInt (max v1.x.toInt v2.x.toInt), ⟨hy, ?_⟩, ⟨hy, ?_⟩, hpx, hpx'⟩
    · omega
    · omega

/-- The ends that the code finds, in coordinates. -/
theorem flatSpan_eq (v0 v1 v2 : Vertex) :
    widenSpan (widenSpan (v0.x.toInt, v0.x.toInt) v1.x) v2.x =
        widenCoord (widenCoord (v0.x.toInt, v0.x.toInt) v1.x.toInt) v2.x.toInt ∧
      Int16 (widenSpan (widenSpan (v0.x.toInt, v0.x.toInt) v1.x) v2.x).1 ∧
      Int16 (widenSpan (widenSpan (v0.x.toInt, v0.x.toInt) v1.x) v2.x).2 := by
  have key : ∀ (ab : Int × Int) (x : BitVec 16), Int16 ab.1 ∧ Int16 ab.2 →
      Int16 (widenSpan ab x).1 ∧ Int16 (widenSpan ab x).2 := by
    intro ab x hab
    have hx := toInt_int16 x
    unfold widenSpan
    split
    next => exact ⟨hx, hab.2⟩
    next =>
      split
      next => exact ⟨hab.1, hx⟩
      next => exact hab
  have hstart : Int16 v0.x.toInt ∧ Int16 v0.x.toInt := ⟨toInt_int16 v0.x, toInt_int16 v0.x⟩
  have hmiddle := key (v0.x.toInt, v0.x.toInt) v1.x hstart
  refine ⟨?_, key _ _ hmiddle⟩
  rw [widenSpan_eq v2.x hmiddle, widenSpan_eq v1.x hstart]

/-- One order of vertices on one line. -/
theorem fillsTo_flat_iff (h1 : v1.y = v0.y) (h2 : v2.y = v0.y) {ab : Int × Int}
    (hab : widenSpan (widenSpan (v0.x.toInt, v0.x.toInt) v1.x) v2.x = ab) :
    (∃ drawn, FillsTo win v0 v1 v2 color drawn ∧
      ∀ px py, Shows drawn px py ↔ Spanned [v0, v1, v2] px py ∧ win.Inside px py) ↔
    Int16 (ab.2 - ab.1 + 1) ∧ (win.y1 ≤ v0.y.toInt → v0.y.toInt ≤ win.y2 →
      ShowsSame win.x1 win.x2 ab.1 ab.2 (min v0.x.toInt (min v1.x.toInt v2.x.toInt))
        (max v0.x.toInt (max v1.x.toInt v2.x.toInt))) := by
  have hcols := win.columns
  have hscreen := s.width_bounds
  obtain ⟨-, ha, hb⟩ := flatSpan_eq v0 v1 v2
  rw [hab] at ha hb
  have hrun : ∀ assign fuel, fillTriangle assign win fuel v0 v1 v2 color = (do
      let w ← assign (ab.2 - ab.1 + 1)
      pure [drawFastHLine win (arg16 ab.1) v0.y (arg16 w) color]) := by
    intro assign fuel
    rw [fillTriangle, sortVertices_flat h1 h2]
    dsimp only
    rw [if_pos h2.symm, fillFlat, hab]
  have hpixels : Int16 (ab.2 - ab.1 + 1) →
      ((∀ px py,
        Shows [drawFastHLine win (arg16 ab.1) v0.y (arg16 (ab.2 - ab.1 + 1)) color] px py ↔
        Spanned [v0, v1, v2] px py ∧ win.Inside px py) ↔
      (win.y1 ≤ v0.y.toInt → v0.y.toInt ≤ win.y2 →
        ShowsSame win.x1 win.x2 ab.1 ab.2 (min v0.x.toInt (min v1.x.toInt v2.x.toInt))
          (max v0.x.toInt (max v1.x.toInt v2.x.toInt)))) := by
    intro hfits
    unfold Int16 at hfits ha hb
    have hx : (arg16 ab.1).toInt = ab.1 := arg16_toInt (by omega) (by omega)
    have hw : (arg16 (ab.2 - ab.1 + 1)).toInt = ab.2 - ab.1 + 1 := arg16_toInt (by omega) (by omega)
    have hchanges := drawFastHLine_changes win (arg16 ab.1) v0.y (arg16 (ab.2 - ab.1 + 1)) color
    rw [hx, hw] at hchanges
    simp only [shows_singleton, hchanges, spanned_flat h1 h2]
    rw [← showsSame_iff hcols.2.1]
    have hend : ab.1 ≤ win.x2 → _ := fun hle => clipAxis_end (n := ab.2 - ab.1 + 1) hcols.1
      ⟨hcols.2.1, by omega⟩ hle (by omega) (by omega)
    have hsum : ab.1 + (ab.2 - ab.1 + 1) = ab.2 + 1 := by omega
    rw [hsum] at hend
    unfold DispWin.Inside
    -- the ends of the two ranges are all that is left
    clear hfits hx hw hsum hchanges hscreen ha hb hrun
    generalize min v0.x.toInt (min v1.x.toInt v2.x.toInt) = l
    generalize max v0.x.toInt (max v1.x.toInt v2.x.toInt) = h
    generalize (if ab.1 < win.x1 ∧ ab.2 + 1 - win.x1 < -32768 then win.x2 + 1
      else max (max win.x1 ab.1 + 1) (min (win.x2 + 1) (ab.2 + 1))) = e at *
    generalize max win.x1 ab.1 = m at *
    constructor
    · intro hall hrow hrow' px
      have hpx := hall px v0.y.toInt
      by_cases hle : ab.1 ≤ win.x2
      · rw [hend hle] at hpx
        omega
      · omega
    · intro hall px py
      constructor
      · rintro ⟨hrow, rfl, hpx⟩
        have hsame := (hall hrow.1 hrow.2.1 px).mp
        rw [hend hrow.2.2] at hpx
        omega
      · rintro ⟨⟨rfl, hpx⟩, hin⟩
        obtain ⟨hle, hpx'⟩ := (hall hin.2.2.1 hin.2.2.2 px).mpr ⟨hpx, hin.1, hin.2.1⟩
        rw [hend hle]
        exact ⟨⟨hin.2.2.1, hin.2.2.2, hle⟩, rfl, hpx'⟩
  constructor
  · rintro ⟨drawn, ⟨n, hn⟩, hshows⟩
    obtain ⟨hexact, -⟩ := hn (n + 1) (Nat.lt_succ_self n)
    rw [hrun] at hexact
    obtain ⟨w, hw, hdrawn⟩ := bind_eq_ok.mp hexact
    obtain ⟨hfits, rfl⟩ := exact_ok.mp hw
    obtain rfl := Except.ok.inj hdrawn
    exact ⟨hfits, (hpixels hfits).mp hshows⟩
  · rintro ⟨hfits, hsame⟩
    refine ⟨_, ⟨0, fun fuel _ => ?_⟩, (hpixels hfits).mpr hsame⟩
    have hexact : fillTriangle exact win fuel v0 v1 v2 color =
        .ok [drawFastHLine win (arg16 ab.1) v0.y (arg16 (ab.2 - ab.1 + 1)) color] := by
      rw [hrun, exact_of_fits hfits]
      rfl
    exact ⟨hexact, fillTriangle_wrapped hexact⟩

/-- What an order of vertices on one line needs. -/
def FlatOrder (lo hi : Int) (row : Prop) (x0 x1 x2 : Int) : Prop :=
  Int16 ((widenCoord (widenCoord (x0, x0) x1) x2).2 -
    (widenCoord (widenCoord (x0, x0) x1) x2).1 + 1) ∧
  (row → ShowsSame lo hi (widenCoord (widenCoord (x0, x0) x1) x2).1
    (widenCoord (widenCoord (x0, x0) x1) x2).2 (min x0 (min x1 x2)) (max x0 (max x1 x2)))

/-- What they need in any order. -/
def FlatFits (lo hi : Int) (row : Prop) (x0 x1 x2 : Int) : Prop :=
  max x0 (max x1 x2) - min x0 (min x1 x2) ≤ 32766 ∧ (row → lo ≤ max x0 (max x1 x2)) ∧
    (row → min x0 (min x1 x2) < 0 → (max x0 (max x1 x2) ≤ lo ∨ lo = hi) ∧
      (0 ≤ x0 ∧ x0 ≤ lo ∨ 0 ≤ x1 ∧ x1 ≤ lo ∨ 0 ≤ x2 ∧ x2 ≤ lo))

/-- The ends, by where the second and the third vertex are. -/
theorem widenCoord_twice (x0 x1 x2 : Int) :
    ∃ a b, widenCoord (widenCoord (x0, x0) x1) x2 = (a, b) ∧
      ((0 ≤ x1 ∧ 0 ≤ x2 ∧ a = min x0 (min x1 x2) ∧ b = max x0 (max x1 x2)) ∨
        (x1 < 0 ∧ 0 ≤ x2 ∧ x0 ≤ x2 ∧ a = x0 ∧ b = x2) ∨
        (x1 < 0 ∧ 0 ≤ x2 ∧ x2 < x0 ∧ a = x2 ∧ b = x1) ∨
        (x2 < 0 ∧ (0 ≤ x1 → a = min x0 x1) ∧ (x1 < 0 → a = x0) ∧ b = x2)) := by
  have hfirst : ∃ a b, widenCoord (x0, x0) x1 = (a, b) ∧
      (0 ≤ x1 → a = min x0 x1 ∧ b = max x0 x1) ∧ (x1 < 0 → a = x0 ∧ b = x1) := by
    unfold widenCoord
    dsimp only
    split
    next hneg => exact ⟨_, _, rfl, by omega, by omega⟩
    next hpos =>
      split
      next hlt => exact ⟨_, _, rfl, by omega, by omega⟩
      next hge =>
        split
        next hgt => exact ⟨_, _, rfl, by omega, by omega⟩
        next hle => exact ⟨_, _, rfl, by omega, by omega⟩
  obtain ⟨a, b, hab, hpos, hneg⟩ := hfirst
  rw [hab]
  unfold widenCoord
  dsimp only
  by_cases hleft : x1 < 0
  · obtain ⟨rfl, rfl⟩ := hneg hleft
    split
    next hneg' => exact ⟨_, _, rfl, .inr (.inr (.inr ⟨hneg', by omega, fun _ => rfl, rfl⟩))⟩
    next hpos' =>
      split
      next hlt => exact ⟨_, _, rfl, .inr (.inr (.inl ⟨hleft, by omega, hlt, rfl, rfl⟩))⟩
      next hge =>
        rw [if_pos (by omega)]
        exact ⟨_, _, rfl, .inr (.inl ⟨hleft, by omega, by omega, rfl, rfl⟩)⟩
  · obtain ⟨rfl, rfl⟩ := hpos (by omega)
    split
    next hneg' =>
      exact ⟨_, _, rfl, .inr (.inr (.inr ⟨hneg', fun _ => rfl, by omega, rfl⟩))⟩
    next hpos' =>
      refine ⟨min x0 (min x1 x2), max x0 (max x1 x2), ?_,
        .inl ⟨by omega, by omega, rfl, rfl⟩⟩
      split
      next hlt => exact Prod.ext (by dsimp only; omega) (by dsimp only; omega)
      next hge =>
        split
        next hgt => exact Prod.ext (by dsimp only; omega) (by dsimp only; omega)
        next hle => exact Prod.ext (by dsimp only; omega) (by dsimp only; omega)

/-- The whole line. -/
theorem showsSame_full (hhi : lo ≤ hi) (hlh : l ≤ h) (hreach : lo ≤ h) :
    ShowsSame lo hi l h l h := by
  unfold ShowsSame
  split
  next ha =>
    refine ⟨rfl, ?_⟩
    rw [if_neg (by omega)]
    omega
  next ha => omega

/-- The line from the left end of the window on. -/
theorem showsSame_from (hhi : lo ≤ hi) (ha : a ≤ lo) (hl : l ≤ lo)
    (hreach : lo ≤ h) : ShowsSame lo hi a h l h := by
  unfold ShowsSame
  rw [if_pos (by omega)]
  refine ⟨by omega, ?_⟩
  rw [if_neg (by omega)]
  omega

/-- A line whose ends are exchanged is one pixel. -/
theorem showsSame_one (ha : a ≤ lo) (hl : l ≤ lo) (hhi : lo ≤ hi) (hb : b < lo)
    (hfits : -32768 ≤ b + 1 - lo) (hone : min hi h = lo) : ShowsSame lo hi a b l h := by
  unfold ShowsSame
  rw [if_pos (by omega)]
  refine ⟨by omega, ?_⟩
  rw [if_neg (by omega)]
  omega

theorem min_three (x0 x1 x2 : Int) : ∃ m, min x0 (min x1 x2) = m ∧
    (m ≤ x0 ∧ m ≤ x1 ∧ m ≤ x2) ∧ (m = x0 ∨ m = x1 ∨ m = x2) :=
  ⟨_, rfl, by omega, by omega⟩

theorem max_three (x0 x1 x2 : Int) : ∃ m, max x0 (max x1 x2) = m ∧
    (x0 ≤ m ∧ x1 ≤ m ∧ x2 ≤ m) ∧ (m = x0 ∨ m = x1 ∨ m = x2) :=
  ⟨_, rfl, by omega, by omega⟩

/-- Where the vertices fit, each order is right. -/
theorem flatOrder_of_fits {row : Prop} {x0 x1 x2 : Int} (hlo : 0 ≤ lo) (hhi : lo ≤ hi)
    (hfits : FlatFits lo hi row x0 x1 x2) : FlatOrder lo hi row x0 x1 x2 := by
  obtain ⟨a, b, hab, hcases⟩ := widenCoord_twice x0 x1 x2
  unfold FlatFits at hfits
  unfold FlatOrder
  rw [hab]
  obtain ⟨l, hl, hleast, -⟩ := min_three x0 x1 x2
  obtain ⟨h, hh, hgreatest, hh'⟩ := max_three x0 x1 x2
  rw [hl, hh] at hfits hcases ⊢
  obtain ⟨hwidth, hreach, hleft⟩ := hfits
  have hone : row → l < 0 → min hi h = lo := by
    intro hrow hneg
    have hreach' := hreach hrow
    have hlast := (hleft hrow hneg).1
    omega
  dsimp only
  rcases hcases with ⟨h1, h2, rfl, rfl⟩ | ⟨h1, h2, h02, rfl, rfl⟩ | ⟨h1, h2, h02, rfl, rfl⟩ |
    ⟨h2, hp, hn, rfl⟩
  · refine ⟨by unfold Int16; omega, fun hrow => ?_⟩
    exact showsSame_full hhi (by omega) (hreach hrow)
  · obtain rfl : h = b := by
      clear hwidth hreach hleft hone
      omega
    refine ⟨by unfold Int16; omega, fun hrow => ?_⟩
    have hfirst := (hleft hrow (by omega)).2
    exact showsSame_from hhi (by omega) (by omega) (hreach hrow)
  · refine ⟨by unfold Int16; omega, fun hrow => ?_⟩
    have hfirst := (hleft hrow (by omega)).2
    have hreach' := hreach hrow
    exact showsSame_one (by omega) (by omega) hhi (by omega) (by omega) (hone hrow (by omega))
  · have ha : l ≤ a ∧ a ≤ h := by
      clear hwidth hreach hleft hone
      omega
    refine ⟨by unfold Int16; omega, fun hrow => ?_⟩
    have hfirst := (hleft hrow (by omega)).2
    have hreach' := hreach hrow
    have hle : a ≤ lo := by
      clear hwidth hreach hleft hone hgreatest hh' hreach'
      omega
    exact showsSame_one hle (by omega) hhi (by omega) (by omega) (hone hrow (by omega))

/-- The ends of one order, and what it needs. -/
theorem FlatOrder.ends {row : Prop} {x0 x1 x2 : Int} (ho : FlatOrder lo hi row x0 x1 x2)
    (hab : widenCoord (widenCoord (x0, x0) x1) x2 = (a, b)) :
    Int16 (b - a + 1) ∧
      (row → ShowsSame lo hi a b (min x0 (min x1 x2)) (max x0 (max x1 x2))) := by
  unfold FlatOrder at ho
  rwa [hab] at ho

/-- And the vertices fit where four orders of them, given from left to right, are. -/
theorem fits_of_flatOrder {row : Prop} {x0 x1 x2 : Int} (hlo : 0 ≤ lo) (hhi : lo ≤ hi)
    (h01 : x0 ≤ x1) (h12 : x1 ≤ x2) (ho : FlatOrder lo hi row x0 x1 x2)
    (ho₁ : FlatOrder lo hi row x1 x0 x2) (ho₂ : FlatOrder lo hi row x2 x1 x0)
    (ho₃ : FlatOrder lo hi row x2 x0 x1) : FlatFits lo hi row x0 x1 x2 := by
  have hmin : min x0 (min x1 x2) = x0 ∧ min x1 (min x0 x2) = x0 ∧ min x2 (min x1 x0) = x0 ∧
      min x2 (min x0 x1) = x0 := by omega
  have hmax : max x0 (max x1 x2) = x2 ∧ max x1 (max x0 x2) = x2 ∧ max x2 (max x1 x0) = x2 ∧
      max x2 (max x0 x1) = x2 := by omega
  obtain ⟨a, b, hab, hcases⟩ := widenCoord_twice x0 x1 x2
  obtain ⟨hwidth, hshows⟩ := ho.ends hab
  rw [hmin.1, hmax.1] at hcases hshows
  have hends : a = x0 ∧ b = x2 := by
    clear hwidth hshows hab hmin hmax
    omega
  rw [hends.1, hends.2] at hwidth hshows
  have hreach : row → lo ≤ x2 := by
    intro hrow
    have hsame := hshows hrow
    unfold ShowsSame at hsame
    clear hwidth hcases hmin hmax
    split at hsame
    next =>
      split at hsame <;> omega
    next => omega
  unfold Int16 at hwidth
  unfold FlatFits
  rw [hmin.1, hmax.1]
  refine ⟨by omega, hreach, fun hrow hneg => ?_⟩
  have hreach' := hreach hrow
  clear hends hcases hab
  by_cases hmiddle : 0 ≤ x1
  · -- the one in the middle comes first, and the left one last
    obtain ⟨a, b, hab, hcases⟩ := widenCoord_twice x1 x0 x2
    have hsame := (ho₁.ends hab).2 hrow
    rw [hmin.2.1, hmax.2.1] at hcases hsame
    have hends : a = x1 ∧ b = x2 := by
      clear hsame hwidth hmin hmax
      omega
    rw [hends.1, hends.2] at hsame
    have hle : x1 ≤ lo := by
      unfold ShowsSame at hsame
      clear hmin hmax hcases
      split at hsame
      next => omega
      next => omega
    clear hcases hab hends hsame
    obtain ⟨a, b, hab, hcases⟩ := widenCoord_twice x2 x1 x0
    have hsame := (ho₂.ends hab).2 hrow
    rw [hmin.2.2.1, hmax.2.2.1] at hcases hsame
    have hends : a = x1 ∧ b = x0 := by
      clear hsame hwidth hmin hmax
      omega
    rw [hends.1, hends.2] at hsame
    refine ⟨?_, .inr (.inl ⟨hmiddle, hle⟩)⟩
    unfold ShowsSame at hsame
    clear hmin hmax hcases
    rw [if_pos (by omega), if_neg (by omega)] at hsame
    omega
  · -- the right one comes first
    obtain ⟨a, b, hab, hcases⟩ := widenCoord_twice x2 x0 x1
    have hsame := (ho₃.ends hab).2 hrow
    rw [hmin.2.2.2, hmax.2.2.2] at hcases hsame
    have hends : a = x2 := by
      clear hsame hwidth hmin hmax
      omega
    rw [hends] at hsame
    have hle : x2 ≤ lo := by
      unfold ShowsSame at hsame
      clear hmin hmax hcases
      split at hsame
      next => omega
      next => omega
    exact ⟨.inl hle, .inr (.inr ⟨by omega, hle⟩)⟩

/-- For vertices on one line. -/
theorem triangleFits_flat (h1 : v1.y = v0.y) (h2 : v2.y = v0.y) :
    TriangleFits win [v0, v1, v2] ↔
      FlatFits win.x1 win.x2 (win.y1 ≤ v0.y.toInt ∧ v0.y.toInt ≤ win.y2) v0.x.toInt v1.x.toInt
        v2.x.toInt := by
  obtain ⟨l, hl, hleast, hl'⟩ := min_three v0.x.toInt v1.x.toInt v2.x.toInt
  obtain ⟨h, hh, hgreatest, hh'⟩ := max_three v0.x.toInt v1.x.toInt v2.x.toInt
  have hsame : ∀ v ∈ [v0, v1, v2], v.y = v0.y ∧ l ≤ v.x.toInt ∧ v.x.toInt ≤ h := by
    intro v hv
    rcases mem_three.mp hv with rfl | rfl | rfl
    · exact ⟨rfl, hleast.1, hgreatest.1⟩
    · exact ⟨h1, hleast.2.1, hgreatest.2.1⟩
    · exact ⟨h2, hleast.2.2, hgreatest.2.2⟩
  have hcrosses : ∀ v ∈ [v0, v1, v2], Crosses [v0, v1, v2] v0.y.toInt v.x.toInt := by
    intro v hv
    have hcross := crosses_vertex hv
    rwa [(hsame v hv).1] at hcross
  have hbetween : ∀ y x, Crosses [v0, v1, v2] y x → y = v0.y.toInt ∧ l ≤ x ∧ x ≤ h := by
    intro y x hx
    obtain ⟨hy, hx'⟩ := (crosses_flat h1 h2 y x).mp hx
    refine ⟨hy, ?_⟩
    clear hl' hh' hsame
    omega
  have hgreat : ∃ v ∈ [v0, v1, v2], v.x.toInt = h := by
    rcases hh' with rfl | rfl | rfl
    · exact ⟨v0, by simp, rfl⟩
    · exact ⟨v1, by simp, rfl⟩
    · exact ⟨v2, by simp, rfl⟩
  have hleft : ∃ v ∈ [v0, v1, v2], v.x.toInt = l := by
    rcases hl' with rfl | rfl | rfl
    · exact ⟨v0, by simp, rfl⟩
    · exact ⟨v1, by simp, rfl⟩
    · exact ⟨v2, by simp, rfl⟩
  obtain ⟨right, hright, rfl⟩ := hgreat
  obtain ⟨left, hleft, rfl⟩ := hleft
  unfold FlatFits
  rw [hl, hh]
  clear hl hh hl' hh'
  constructor
  · intro hfits
    refine ⟨?_, ?_, ?_⟩
    · have hwidth := hfits.width _ _ _ (hcrosses left hleft) (hcrosses right hright)
      unfold Int16 at hwidth
      omega
    · rintro ⟨hrow, hrow'⟩
      obtain ⟨x, hx, hreach⟩ := hfits.reaches _ _ hrow hrow' (hcrosses v0 (by simp))
      have hx' := (hbetween _ x hx).2
      omega
    · rintro ⟨hrow, hrow'⟩ hneg
      rw [← (hsame left hleft).1] at hrow hrow'
      obtain ⟨hlast, w, hw, hpos, hw'⟩ := hfits.flat left hleft
        (fun w hw => (hsame w hw).1.trans (hsame left hleft).1.symm) hrow hrow' hneg
      refine ⟨hlast.imp_left fun hall => hall right hright, ?_⟩
      rcases mem_three.mp hw with rfl | rfl | rfl
      · exact .inl ⟨hpos, hw'⟩
      · exact .inr (.inl ⟨hpos, hw'⟩)
      · exact .inr (.inr ⟨hpos, hw'⟩)
  · rintro ⟨hwidth, hreach, hneg⟩
    refine ⟨?_, ?_, ?_, ?_, ?_⟩
    · intro y x x' hx hx'
      have hxb := (hbetween y x hx).2
      have hxb' := (hbetween y x' hx').2
      unfold Int16
      omega
    · intro y x hrow hrow' hx
      obtain ⟨rfl, -⟩ := hbetween y x hx
      exact ⟨_, hcrosses right hright, hreach ⟨hrow, hrow'⟩⟩
    · intro v hv w hw hne
      exact absurd ((hsame v hv).1.trans (hsame w hw).1.symm) hne
    · intro v hv w hw _
      have hvb := (hsame v hv).2
      have hwb := (hsame w hw).2
      unfold Int16
      omega
    · intro v hv _ hrow hrow' hv'
      rw [(hsame v hv).1] at hrow hrow'
      have hvb := (hsame v hv).2
      obtain ⟨hlast, hfirst⟩ := hneg ⟨hrow, hrow'⟩ (by omega)
      refine ⟨hlast.imp_left fun hle w hw => (hsame w hw).2.2.trans hle, ?_⟩
      rcases hfirst with hx | hx | hx
      · exact ⟨v0, by simp, hx⟩
      · exact ⟨v1, by simp, hx⟩
      · exact ⟨v2, by simp, hx⟩

/-- One order of them, by what it needs. -/
theorem fillsTo_flatOrder (h1 : v1.y = v0.y) (h2 : v2.y = v0.y) :
    (∃ drawn, FillsTo win v0 v1 v2 color drawn ∧
      ∀ px py, Shows drawn px py ↔ Spanned [v0, v1, v2] px py ∧ win.Inside px py) ↔
    FlatOrder win.x1 win.x2 (win.y1 ≤ v0.y.toInt ∧ v0.y.toInt ≤ win.y2) v0.x.toInt v1.x.toInt
      v2.x.toInt := by
  rw [fillsTo_flat_iff h1 h2 (flatSpan_eq v0 v1 v2).1]
  unfold FlatOrder
  rw [and_imp]

end Flat

/-! ## Any triangle -/

/-- A triangle is filled right, in any order of its vertices, just where its rows and edges fit. -/
theorem fillsTriangle_iff {s : Screen} (win : DispWin s) (v0 v1 v2 : Vertex)
    (color : BitVec 16) :
    FillsTriangle win [v0, v1, v2] color ↔ TriangleFits win [v0, v1, v2] := by
  have hcols := win.columns
  by_cases hflat : v1.y = v0.y ∧ v2.y = v0.y
  · have hlevel : ∀ w0 w1 w2, [w0, w1, w2].Perm [v0, v1, v2] → w1.y = w0.y ∧ w2.y = w0.y := by
      intro w0 w1 w2 hperm
      have hall : ∀ w ∈ [v0, v1, v2], w.y = v0.y := by
        intro w hw
        rcases mem_three.mp hw with rfl | rfl | rfl
        · rfl
        · exact hflat.1
        · exact hflat.2
      simp only [← hperm.mem_iff] at hall
      have hw0 := hall w0 (by simp)
      exact ⟨(hall w1 (by simp)).trans hw0.symm, (hall w2 (by simp)).trans hw0.symm⟩
    have horder : FillsTriangle win [v0, v1, v2] color ↔
        ∀ w0 w1 w2, [w0, w1, w2].Perm [v0, v1, v2] →
          FlatOrder win.x1 win.x2 (win.y1 ≤ w0.y.toInt ∧ w0.y.toInt ≤ win.y2) w0.x.toInt
            w1.x.toInt w2.x.toInt := by
      refine forall₃_congr fun w0 w1 w2 => forall_congr' fun hperm => ?_
      obtain ⟨h1, h2⟩ := hlevel w0 w1 w2 hperm
      rw [← fillsTo_flatOrder h1 h2, spanned_perm hperm]
    rw [horder]
    constructor
    · intro hall
      obtain ⟨a, b, c, -, hperm, hab, hbc⟩ := sortBy_spec (fun v => v.x.toInt) v0 v1 v2
      obtain ⟨h1, h2⟩ := hlevel a b c hperm
      have ho := hall a b c hperm
      have ho₁ := hall b a c ((List.Perm.swap a b [c]).trans hperm)
      have ho₂ := hall c b a (((List.reverse_perm [a, b, c])).trans hperm)
      have ho₃ := hall c a b
        (((List.Perm.swap a c [b]).trans ((List.Perm.swap b c []).cons a)).trans hperm)
      rw [h1] at ho₁
      rw [h2] at ho₂ ho₃
      have hfits := fits_of_flatOrder hcols.1 hcols.2.1 hab hbc ho ho₁ ho₂ ho₃
      exact ((triangleFits_flat h1 h2).mpr hfits).perm hperm
    · intro hfits w0 w1 w2 hperm
      obtain ⟨h1, h2⟩ := hlevel w0 w1 w2 hperm
      exact flatOrder_of_fits hcols.1 hcols.2.1
        ((triangleFits_flat h1 h2).mp (hfits.perm hperm.symm))
  · have hlevel : ∀ w0 w1 w2, [w0, w1, w2].Perm [v0, v1, v2] → ¬ (w1.y = w0.y ∧ w2.y = w0.y) := by
      rintro w0 w1 w2 hperm ⟨h1, h2⟩
      have hall : ∀ w ∈ [w0, w1, w2], w.y = w0.y := by
        intro w hw
        rcases mem_three.mp hw with rfl | rfl | rfl
        · rfl
        · exact h1
        · exact h2
      simp only [hperm.mem_iff] at hall
      have hv0 := hall v0 (by simp)
      exact hflat ⟨(hall v1 (by simp)).trans hv0.symm, (hall v2 (by simp)).trans hv0.symm⟩
    constructor
    · intro hfills
      exact (fillsTo_rows_iff hflat).mp (hfills v0 v1 v2 (List.Perm.refl _))
    · intro hfits w0 w1 w2 hperm
      rw [← spanned_perm hperm]
      exact (fillsTo_rows_iff (hlevel w0 w1 w2 hperm)).mpr (hfits.perm hperm.symm)

/-- A corner above the screen. -/
theorem not_fillsTriangle_above :
    ¬ FillsTriangle wholeScreen [⟨0, -1⟩, ⟨5, 3⟩, ⟨2, 6⟩] 0xffff := by
  intro hfills
  have hone := hfills ⟨0, -1⟩ ⟨5, 3⟩ ⟨2, 6⟩ (List.Perm.refl _)
  have hfits := (fillsTo_rows_iff (by decide)).mp hone
  have htop := hfits.rows ⟨0, -1⟩ (by decide) ⟨5, 3⟩ (by decide) (by decide)
  exact absurd htop.1 (by decide)

end LuaRtos.Tft
