/-
  LuaRtos.Tft.Triangle

  TFT_fillTriangle of Lua/modules/screen/tft.c, and the rows between the edges of a triangle.

  The vertices come as `uint16_t` and are compared as such; what is computed from them goes to
  `int16_t` variables.  `wrapped` is what the compiler stores there, `exact` stops where the
  value does not fit.  A `uint16_t` operand of a sum is written as the coordinate it stands for,
  which is the same in an `int16_t`.
-/

import LuaRtos.CLib.Cycle
import LuaRtos.Tft.Draw

namespace LuaRtos.Tft

open LuaRtos.CLib

/-! ## The code -/

structure Vertex where
  x : BitVec 16
  y : BitVec 16
deriving DecidableEq, Repr

/-- The value fits in an `int16_t`. -/
def Int16 (z : Int) : Prop := -32768 ≤ z ∧ z ≤ 32767

instance (z : Int) : Decidable (Int16 z) := inferInstanceAs (Decidable (_ ∧ _))

/-- A store in an `int16_t`. -/
def wrapped (z : Int) : Result Int := pure (int16 z)

/-- A store in an `int16_t` that the value fits in. -/
def exact (z : Int) : Result Int := if Int16 z then pure z else throw .undefined

/-- `a / b` -/
def quotient (a b : Int) : Result Int := if b = 0 then throw .undefined else int32 (a.tdiv b)

/-- The three `swap`s of the sort.  The bits of a coordinate go through an `int16_t`. -/
def sortVertices (v0 v1 v2 : Vertex) : Vertex × Vertex × Vertex :=
  let (v0, v1) := if v0.y.toNat > v1.y.toNat then (v1, v0) else (v0, v1)
  let (v1, v2) := if v1.y.toNat > v2.y.toNat then (v2, v1) else (v1, v2)
  let (v0, v1) := if v0.y.toNat > v1.y.toNat then (v1, v0) else (v0, v1)
  (v0, v1, v2)

/-- `if(x < a) a = x; else if(x > b) b = x;`, with the `uint16_t` made an `int`. -/
def widenSpan (ab : Int × Int) (x : BitVec 16) : Int × Int :=
  if (x.toNat : Int) < ab.1 then (x.toInt, ab.2)
  else if (x.toNat : Int) > ab.2 then (ab.1, x.toInt)
  else ab

/-- One of the two edges of a loop: where it starts, `dx` and `dy`. -/
structure ScanEdge where
  x : BitVec 16
  dx : Int
  dy : Int

/-- The variables of the loops, and what was drawn. -/
structure ScanState where
  y : Int
  sa : Int
  sb : Int
  drawn : List (Option Sent)

section Code

variable {s : Screen} (assign : Int → Result Int) (win : DispWin s)

/-- `a = x + sa / dy` -/
def edgeCrossing (e : ScanEdge) (sum : Int) : Result Int := do
  let q ← quotient sum e.dy
  let _ ← int32 (e.x.toNat + q)
  assign (e.x.toInt + q)

/-- A round of either loop. -/
def scanRound (ea eb : ScanEdge) (color : BitVec 16) (l : ScanState) : Result ScanState := do
  let a ← edgeCrossing assign ea l.sa
  let b ← edgeCrossing assign eb l.sb
  let sa ← int32 (l.sa + ea.dx)
  let sb ← int32 (l.sb + eb.dx)
  let ab := if a > b then (b, a) else (a, b)
  let w ← assign (ab.2 - ab.1 + 1)
  let y ← assign (l.y + 1)
  pure ⟨y, sa, sb, l.drawn ++ [drawFastHLine win (arg16 ab.1) (arg16 l.y) (arg16 w) color]⟩

/-- `TFT_fillTriangle` with all vertices on one line. -/
def fillFlat (v0 v1 v2 : Vertex) (color : BitVec 16) : Result (List (Option Sent)) := do
  let ab := widenSpan (widenSpan (v0.x.toInt, v0.x.toInt) v1.x) v2.x
  let w ← assign (ab.2 - ab.1 + 1)
  pure [drawFastHLine win (arg16 ab.1) v0.y (arg16 w) color]

/-- The rest of it. -/
def fillRows (fuel : Nat) (v0 v1 v2 : Vertex) (color : BitVec 16) :
    Result (List (Option Sent)) := do
  let dx01 ← assign (v1.x.toInt - v0.x.toInt)
  let dy01 ← assign (v1.y.toInt - v0.y.toInt)
  let dx02 ← assign (v2.x.toInt - v0.x.toInt)
  let dy02 ← assign (v2.y.toInt - v0.y.toInt)
  let dx12 ← assign (v2.x.toInt - v1.x.toInt)
  let dy12 ← assign (v2.y.toInt - v1.y.toInt)
  let last ← (if v1.y = v2.y then pure v1.y.toInt else assign (v1.y.toInt - 1))
  let l ← whileLoop (fun l => decide (l.y ≤ last))
    (scanRound assign win ⟨v0.x, dx01, dy01⟩ ⟨v0.x, dx02, dy02⟩ color) fuel
    ⟨v0.y.toInt, 0, 0, []⟩
  let sa ← int32 (dx12 * (l.y - v1.y.toNat))
  let sb ← int32 (dx02 * (l.y - v0.y.toNat))
  let l ← whileLoop (fun l => decide (l.y ≤ (v2.y.toNat : Int)))
    (scanRound assign win ⟨v1.x, dx12, dy12⟩ ⟨v0.x, dx02, dy02⟩ color) fuel
    ⟨l.y, sa, sb, l.drawn⟩
  pure l.drawn

/-- `TFT_fillTriangle`. -/
def fillTriangle (fuel : Nat) (v0 v1 v2 : Vertex) (color : BitVec 16) :
    Result (List (Option Sent)) :=
  let (v0, v1, v2) := sortVertices v0 v1 v2
  if v0.y = v2.y then fillFlat assign win v0 v1 v2 color
  else fillRows assign win fuel v0 v1 v2 color

end Code

/-! ## The triangle -/

/-- Where the edge from one vertex down to another crosses the row, as the comments on the loops
    have it. -/
def lineX (v w : Vertex) (y : Int) : Int :=
  v.x.toInt + ((w.x.toInt - v.x.toInt) * (y - v.y.toInt)).tdiv (w.y.toInt - v.y.toInt)

/-- An edge, or an end of one, crosses the row `y` at `x`. -/
def Crosses (vs : List Vertex) (y x : Int) : Prop :=
  ∃ v ∈ vs, ∃ w ∈ vs, (v.y.toInt ≤ y ∧ y ≤ w.y.toInt) ∧ x = lineX v w y

/-- The pixel lies between the edges that cross its row. -/
def Spanned (vs : List Vertex) (px py : Int) : Prop :=
  ∃ x x', Crosses vs py x ∧ Crosses vs py x' ∧ x ≤ px ∧ px ≤ x'

/-- With enough fuel the function ends with the drawing, and nothing overflows. -/
def FillsTo {s : Screen} (win : DispWin s) (v0 v1 v2 : Vertex) (color : BitVec 16)
    (drawn : List (Option Sent)) : Prop :=
  ∃ n, ∀ fuel > n, fillTriangle exact win fuel v0 v1 v2 color = .ok drawn ∧
    fillTriangle wrapped win fuel v0 v1 v2 color = .ok drawn

/-- The triangle is filled: in whatever order the vertices come, nothing overflows and just the
    pixels of its rows in the window are changed. -/
def FillsTriangle {s : Screen} (win : DispWin s) (vs : List Vertex) (color : BitVec 16) : Prop :=
  ∀ v0 v1 v2, [v0, v1, v2].Perm vs → ∃ drawn, FillsTo win v0 v1 v2 color drawn ∧
    ∀ px py, Shows drawn px py ↔ Spanned vs px py ∧ win.Inside px py

/-- What `TFT_fillTriangle` needs. -/
structure TriangleFits {s : Screen} (win : DispWin s) (vs : List Vertex) : Prop where
  /-- A row is no longer than an `int16_t` says. -/
  width : ∀ y x x', Crosses vs y x → Crosses vs y x' → Int16 (x' - x + 1)
  /-- A row of the window is not left of it. -/
  reaches : ∀ y x, win.y1 ≤ y → y ≤ win.y2 → Crosses vs y x →
    ∃ x', Crosses vs y x' ∧ win.x1 ≤ x'
  /-- No vertex is above the screen, or in the last row that there can be. -/
  rows : ∀ v ∈ vs, ∀ w ∈ vs, v.y ≠ w.y → 0 ≤ v.y.toInt ∧ v.y.toInt < 32767
  edges : ∀ v ∈ vs, ∀ w ∈ vs, v.y.toInt ≤ w.y.toInt → Int16 (w.x.toInt - v.x.toInt)
  /-- A line left of the screen at one end, where it shows, shows its last pixel only. -/
  flat : ∀ v ∈ vs, (∀ w ∈ vs, w.y = v.y) → win.y1 ≤ v.y.toInt → v.y.toInt ≤ win.y2 →
    v.x.toInt < 0 → ((∀ w ∈ vs, w.x.toInt ≤ win.x1) ∨ win.x1 = win.x2) ∧
      ∃ w ∈ vs, 0 ≤ w.x.toInt ∧ w.x.toInt ≤ win.x1

/-! ## Without an overflow -/

section Exact

variable {s : Screen} {win : DispWin s} {color : BitVec 16} {z z' : Int}

theorem exact_ok : exact z = .ok z' ↔ Int16 z ∧ z' = z := by
  unfold exact
  split
  next h =>
    exact ⟨fun heq => ⟨h, (Except.ok.inj heq).symm⟩, fun heq => congrArg _ heq.2.symm⟩
  next h => exact iff_of_false (by rintro ⟨⟩) (fun heq => h heq.1)

theorem exact_of_fits (h : Int16 z) : exact z = .ok z := exact_ok.mpr ⟨h, rfl⟩

theorem wrapped_of_exact (h : exact z = .ok z') : wrapped z = .ok z' := by
  obtain ⟨⟨hlow, hhigh⟩, rfl⟩ := exact_ok.mp h
  exact congrArg Except.ok (int16_eq hlow (by omega))

theorem edgeCrossing_wrapped {e : ScanEdge} (h : edgeCrossing exact e z = .ok z') :
    edgeCrossing wrapped e z = .ok z' := by
  obtain ⟨q, hq, h⟩ := bind_eq_ok.mp h
  obtain ⟨r, hr, h⟩ := bind_eq_ok.mp h
  rw [edgeCrossing, hq, ok_bind, hr, ok_bind]
  exact wrapped_of_exact h

theorem scanRound_wrapped {ea eb : ScanEdge} (l l' : ScanState)
    (h : scanRound exact win ea eb color l = .ok l') :
    scanRound wrapped win ea eb color l = .ok l' := by
  obtain ⟨a, ha, h⟩ := bind_eq_ok.mp h
  obtain ⟨b, hb, h⟩ := bind_eq_ok.mp h
  obtain ⟨sa, hsa, h⟩ := bind_eq_ok.mp h
  obtain ⟨sb, hsb, h⟩ := bind_eq_ok.mp h
  rw [scanRound, edgeCrossing_wrapped ha, ok_bind, edgeCrossing_wrapped hb, ok_bind, hsa, ok_bind,
    hsb, ok_bind]
  dsimp only at h ⊢
  obtain ⟨w, hw, h⟩ := bind_eq_ok.mp h
  obtain ⟨y, hy, h⟩ := bind_eq_ok.mp h
  rw [wrapped_of_exact hw, ok_bind, wrapped_of_exact hy, ok_bind]
  exact h

/-- A run in which everything fits is the one of the compiled code. -/
theorem fillTriangle_wrapped {fuel : Nat} {v0 v1 v2 : Vertex} {drawn : List (Option Sent)}
    (h : fillTriangle exact win fuel v0 v1 v2 color = .ok drawn) :
    fillTriangle wrapped win fuel v0 v1 v2 color = .ok drawn := by
  unfold fillTriangle at h ⊢
  generalize sortVertices v0 v1 v2 = sorted at h ⊢
  obtain ⟨v0, v1, v2⟩ := sorted
  dsimp only at h ⊢
  by_cases hflat : v0.y = v2.y
  · rw [if_pos hflat] at h ⊢
    obtain ⟨w, hw, h⟩ := bind_eq_ok.mp h
    rw [fillFlat, wrapped_of_exact hw, ok_bind]
    exact h
  · rw [if_neg hflat] at h ⊢
    obtain ⟨dx01, hdx01, h⟩ := bind_eq_ok.mp h
    obtain ⟨dy01, hdy01, h⟩ := bind_eq_ok.mp h
    obtain ⟨dx02, hdx02, h⟩ := bind_eq_ok.mp h
    obtain ⟨dy02, hdy02, h⟩ := bind_eq_ok.mp h
    obtain ⟨dx12, hdx12, h⟩ := bind_eq_ok.mp h
    obtain ⟨dy12, hdy12, h⟩ := bind_eq_ok.mp h
    obtain ⟨last, hlast, h⟩ := bind_eq_ok.mp h
    obtain ⟨l, hl, h⟩ := bind_eq_ok.mp h
    obtain ⟨sa, hsa, h⟩ := bind_eq_ok.mp h
    obtain ⟨sb, hsb, h⟩ := bind_eq_ok.mp h
    obtain ⟨l', hl', h⟩ := bind_eq_ok.mp h
    have hlast' : (if v1.y = v2.y then pure v1.y.toInt else wrapped (v1.y.toInt - 1)) =
        Except.ok last := by
      by_cases hbottom : v1.y = v2.y
      · rwa [if_pos hbottom] at hlast ⊢
      · rw [if_neg hbottom] at hlast ⊢
        exact wrapped_of_exact hlast
    rw [fillRows, wrapped_of_exact hdx01, ok_bind, wrapped_of_exact hdy01, ok_bind,
      wrapped_of_exact hdx02, ok_bind, wrapped_of_exact hdy02, ok_bind, wrapped_of_exact hdx12,
      ok_bind, wrapped_of_exact hdy12, ok_bind, hlast', ok_bind,
      whileLoop_mono scanRound_wrapped hl, ok_bind, hsa, ok_bind, hsb, ok_bind,
      whileLoop_mono scanRound_wrapped hl', ok_bind]
    exact h

end Exact

/-! ## The loops -/

/-- A part of a difference, rounded towards zero, is between zero and the difference. -/
theorem tdiv_between {d k n : Int} (hk : 0 ≤ k) (hkn : k ≤ n) (hn : 0 < n) :
    (0 ≤ d → 0 ≤ (d * k).tdiv n ∧ (d * k).tdiv n ≤ d) ∧
      (d ≤ 0 → d ≤ (d * k).tdiv n ∧ (d * k).tdiv n ≤ 0) := by
  have key : ∀ e : Int, 0 ≤ e → 0 ≤ (e * k).tdiv n ∧ (e * k).tdiv n ≤ e := by
    intro e he
    have hprod : 0 ≤ e * k := Int.mul_nonneg he hk
    have hle : e * k ≤ e * n := Int.mul_le_mul_of_nonneg_left hkn he
    rw [Int.tdiv_eq_ediv_of_nonneg hprod]
    exact ⟨Int.ediv_nonneg hprod hn.le, Int.ediv_le_of_le_mul hn hle⟩
  refine ⟨key d, ?_⟩
  intro hd
  have hneg := key (-d) (by omega)
  rw [Int.neg_mul, Int.neg_tdiv] at hneg
  omega

/-- The edge from one vertex down to another. -/
def scanEdge (v w : Vertex) : ScanEdge :=
  ⟨v.x, w.x.toInt - v.x.toInt, w.y.toInt - v.y.toInt⟩

/-- The sum of the differences at a row. -/
def edgeSum (v w : Vertex) (y : Int) : Int := (w.x.toInt - v.x.toInt) * (y - v.y.toInt)

/-- The edge goes down, on the screen and without an overflow. -/
structure EdgeFits (v w : Vertex) : Prop where
  dx : Int16 (w.x.toInt - v.x.toInt)
  top : 0 ≤ v.y.toInt
  down : v.y.toInt < w.y.toInt
  bottom : w.y.toInt < 32767

section Loops

variable {s : Screen} {win : DispWin s} {color : BitVec 16} {v w v' w' : Vertex} {y : Int}

theorem toInt_int16 (x : BitVec 16) : Int16 x.toInt := by
  have hlow := BitVec.le_toInt x
  have hhigh := BitVec.toInt_lt (x := x)
  unfold Int16
  omega

/-- A crossing is between the ends. -/
theorem lineX_between (hy : v.y.toInt ≤ y ∧ y ≤ w.y.toInt)
    (hdown : v.y.toInt < w.y.toInt) :
    min v.x.toInt w.x.toInt ≤ lineX v w y ∧ lineX v w y ≤ max v.x.toInt w.x.toInt := by
  obtain ⟨hright, hleft⟩ := tdiv_between (d := w.x.toInt - v.x.toInt)
    (k := y - v.y.toInt) (n := w.y.toInt - v.y.toInt) (by omega) (by omega) (by omega)
  unfold lineX
  omega

/-- The sums stay in an `int`, also behind the last row. -/
theorem EdgeFits.edgeSum_bounds (h : EdgeFits v w) (hy : v.y.toInt ≤ y ∧ y ≤ w.y.toInt + 1) :
    -1073741824 ≤ edgeSum v w y ∧ edgeSum v w y ≤ 1073741824 := by
  obtain ⟨⟨hlow, hhigh⟩, htop, hdown, hbottom⟩ := h
  unfold edgeSum
  have hk : 0 ≤ y - v.y.toInt := by omega
  have hk' : y - v.y.toInt ≤ 32768 := by omega
  have hup : (w.x.toInt - v.x.toInt) * (y - v.y.toInt) ≤ 32768 * (y - v.y.toInt) :=
    Int.mul_le_mul_of_nonneg_right (by omega) hk
  have hdn : -32768 * (y - v.y.toInt) ≤ (w.x.toInt - v.x.toInt) * (y - v.y.toInt) :=
    Int.mul_le_mul_of_nonneg_right hlow hk
  omega

theorem edgeSum_next (v w : Vertex) (y : Int) :
    edgeSum v w y + (w.x.toInt - v.x.toInt) = edgeSum v w (y + 1) := by
  have hrow : y + 1 - v.y.toInt = y - v.y.toInt + 1 := by omega
  rw [edgeSum, edgeSum, hrow, Int.mul_add, Int.mul_one]

theorem edgeSum_top (v w : Vertex) : edgeSum v w v.y.toInt = 0 := by
  rw [edgeSum, Int.sub_self, Int.mul_zero]

theorem EdgeFits.edgeCrossing_eq (h : EdgeFits v w) (hy : v.y.toInt ≤ y ∧ y ≤ w.y.toInt) :
    edgeCrossing exact (scanEdge v w) (edgeSum v w y) = .ok (lineX v w y) := by
  have hbetween := lineX_between hy h.down
  have hv := toInt_int16 v.x
  have hw := toInt_int16 w.x
  have hnat := v.x.isLt
  have hdown := h.down
  unfold Int16 at hv hw
  have hline : v.x.toInt + (edgeSum v w y).tdiv (w.y.toInt - v.y.toInt) = lineX v w y := rfl
  generalize hq : (edgeSum v w y).tdiv (w.y.toInt - v.y.toInt) = q at hline
  have hne : w.y.toInt - v.y.toInt ≠ 0 := by omega
  have hquot : quotient (edgeSum v w y) (scanEdge v w).dy = .ok q := by
    show quotient (edgeSum v w y) (w.y.toInt - v.y.toInt) = _
    rw [quotient, if_neg hne, hq]
    exact int32_of_fits (by unfold Int32; omega)
  have hsum : int32 ((scanEdge v w).x.toNat + q) = .ok (v.x.toNat + q) :=
    int32_of_fits (show Int32 ((v.x.toNat : Int) + q) by unfold Int32; omega)
  rw [edgeCrossing, hquot, ok_bind, hsum, ok_bind]
  show exact (v.x.toInt + q) = _
  rw [hline]
  exact exact_of_fits (by unfold Int16; omega)

/-- The pixels of a row between two edges. -/
def rowWidth (v w v' w' : Vertex) (y : Int) : Int :=
  max (lineX v w y) (lineX v' w' y) - min (lineX v w y) (lineX v' w' y) + 1

/-- The call for a row. -/
def fillRow (win : DispWin s) (v w v' w' : Vertex) (color : BitVec 16) (y : Int) : Option Sent :=
  drawFastHLine win (arg16 (min (lineX v w y) (lineX v' w' y))) (arg16 y)
    (arg16 (rowWidth v w v' w' y)) color

/-- The calls for so many rows. -/
def fillRowsFrom (win : DispWin s) (v w v' w' : Vertex) (color : BitVec 16) :
    Nat → Int → List (Option Sent)
  | 0, _ => []
  | n + 1, y => fillRow win v w v' w' color y :: fillRowsFrom win v w v' w' color n (y + 1)

/-- A round comes through just where the row has a width. -/
theorem scanRound_ok (h : EdgeFits v w) (h' : EdgeFits v' w')
    (hy : v.y.toInt ≤ y ∧ y ≤ w.y.toInt) (hy' : v'.y.toInt ≤ y ∧ y ≤ w'.y.toInt)
    (drawn : List (Option Sent)) (l : ScanState) :
    scanRound exact win (scanEdge v w) (scanEdge v' w') color
        ⟨y, edgeSum v w y, edgeSum v' w' y, drawn⟩ = .ok l ↔
      Int16 (rowWidth v w v' w' y) ∧ l = ⟨y + 1, edgeSum v w (y + 1), edgeSum v' w' (y + 1),
        drawn ++ [fillRow win v w v' w' color y]⟩ := by
  have hnext := h.edgeSum_bounds (y := y + 1) (by omega)
  have hnext' := h'.edgeSum_bounds (y := y + 1) (by omega)
  have hsa : int32 (edgeSum v w y + (scanEdge v w).dx) = .ok (edgeSum v w (y + 1)) := by
    show int32 (edgeSum v w y + (w.x.toInt - v.x.toInt)) = _
    rw [edgeSum_next]
    exact int32_of_fits (by unfold Int32; omega)
  have hsb : int32 (edgeSum v' w' y + (scanEdge v' w').dx) = .ok (edgeSum v' w' (y + 1)) := by
    show int32 (edgeSum v' w' y + (w'.x.toInt - v'.x.toInt)) = _
    rw [edgeSum_next]
    exact int32_of_fits (by unfold Int32; omega)
  have hab : (if lineX v w y > lineX v' w' y then (lineX v' w' y, lineX v w y)
      else (lineX v w y, lineX v' w' y)) =
      (min (lineX v w y) (lineX v' w' y), max (lineX v w y) (lineX v' w' y)) := by
    split
    next hlt => rw [min_eq_right (by omega), max_eq_left (by omega)]
    next hge => rw [min_eq_left (by omega), max_eq_right (by omega)]
  have hy16 : exact (y + 1) = .ok (y + 1) := by
    have htop := h.top
    have hbottom := h.bottom
    exact exact_of_fits (by unfold Int16; omega)
  have hround : scanRound exact win (scanEdge v w) (scanEdge v' w') color
      ⟨y, edgeSum v w y, edgeSum v' w' y, drawn⟩ = (do
        let width ← exact (rowWidth v w v' w' y)
        pure ⟨y + 1, edgeSum v w (y + 1), edgeSum v' w' (y + 1),
          drawn ++ [drawFastHLine win (arg16 (min (lineX v w y) (lineX v' w' y))) (arg16 y)
            (arg16 width) color]⟩) := by
    rw [scanRound, h.edgeCrossing_eq hy, ok_bind, h'.edgeCrossing_eq hy', ok_bind, hsa, ok_bind,
      hsb, ok_bind, hab, hy16]
    rfl
  rw [hround, bind_eq_ok]
  constructor
  · rintro ⟨width, hwidth, heq⟩
    obtain ⟨hfits, rfl⟩ := exact_ok.mp hwidth
    exact ⟨hfits, (Except.ok.inj heq).symm⟩
  · rintro ⟨hfits, rfl⟩
    exact ⟨_, exact_of_fits hfits, rfl⟩

/-- A loop ends just where each of its rows has a width, and draws these rows. -/
theorem fillLoop_ends {last : Int} (hlast : last ≤ w.y.toInt ∧ last ≤ w'.y.toInt) (n : Nat)
    (h : 0 < n → EdgeFits v w) (h' : 0 < n → EdgeFits v' w') (y : Int)
    (hn : y + n = last + 1) (hy : v.y.toInt ≤ y ∧ v'.y.toInt ≤ y) (drawn : List (Option Sent))
    (l : ScanState) :
    Ends (fun l => decide (l.y ≤ last))
        (scanRound exact win (scanEdge v w) (scanEdge v' w') color)
        ⟨y, edgeSum v w y, edgeSum v' w' y, drawn⟩ l ↔
      (∀ k, y ≤ k → k ≤ last → Int16 (rowWidth v w v' w' k)) ∧
        l = ⟨last + 1, edgeSum v w (last + 1), edgeSum v' w' (last + 1),
          drawn ++ fillRowsFrom win v w v' w' color n y⟩ := by
  induction n generalizing y drawn with
  | zero =>
    obtain rfl : y = last + 1 := by omega
    refine Iff.trans (ends_of_done ?_) ?_
    · exact decide_eq_false (show ¬ last + 1 ≤ last by omega)
    constructor
    · rintro rfl
      refine ⟨fun k hk hk' => absurd hk' (by omega), ?_⟩
      rw [fillRowsFrom, List.append_nil]
    · rintro ⟨-, rfl⟩
      rw [fillRowsFrom, List.append_nil]
  | succ n ih =>
    refine Iff.trans (ends_of_cond ?_) ?_
    · exact decide_eq_true (show y ≤ last by omega)
    have hedge := h (Nat.succ_pos n)
    have hedge' := h' (Nat.succ_pos n)
    have hrest := ih (fun _ => hedge) (fun _ => hedge') (y + 1) (by omega) (by omega)
      (drawn ++ [fillRow win v w v' w' color y])
    have happend : drawn ++ [fillRow win v w v' w' color y] ++
        fillRowsFrom win v w v' w' color n (y + 1) =
        drawn ++ fillRowsFrom win v w v' w' color (n + 1) y := by
      rw [List.append_assoc]
      rfl
    rw [happend] at hrest
    constructor
    · rintro ⟨l₁, hround, hends⟩
      obtain ⟨hwidth, rfl⟩ :=
        (scanRound_ok hedge hedge' ⟨hy.1, by omega⟩ ⟨hy.2, by omega⟩ drawn l₁).mp hround
      obtain ⟨hwidths, heq⟩ := hrest.mp hends
      refine ⟨?_, heq⟩
      intro k hk hk'
      by_cases hfirst : k = y
      · rwa [hfirst]
      · exact hwidths k (by omega) hk'
    · rintro ⟨hwidths, heq⟩
      refine ⟨_, (scanRound_ok hedge hedge' ⟨hy.1, by omega⟩ ⟨hy.2, by omega⟩ drawn _).mpr
        ⟨hwidths y (Int.le_refl y) (by omega), rfl⟩, ?_⟩
      exact hrest.mpr ⟨fun k hk hk' => hwidths k (by omega) hk', heq⟩

theorem shows_fillRowsFrom (n : Nat) (y px py : Int) :
    Shows (fillRowsFrom win v w v' w' color n y) px py ↔
      ∃ k, (y ≤ k ∧ k < y + n) ∧ Changes (fillRow win v w v' w' color k) px py := by
  induction n generalizing y with
  | zero =>
    refine iff_of_false not_shows_nil ?_
    rintro ⟨k, hk, -⟩
    omega
  | succ n ih =>
    rw [fillRowsFrom, shows_cons, ih]
    constructor
    · rintro (hfirst | ⟨k, hk, hchanges⟩)
      · exact ⟨y, by omega, hfirst⟩
      · exact ⟨k, by omega, hchanges⟩
    · rintro ⟨k, hk, hchanges⟩
      by_cases hfirst : k = y
      · rw [hfirst] at hchanges
        exact .inl hchanges
      · exact .inr ⟨k, by omega, hchanges⟩

end Loops

/-! ## The rows -/

/-- The last row of the upper loop. -/
def upperLast (v1 v2 : Vertex) : Int :=
  if v1.y = v2.y then v1.y.toInt else v1.y.toInt - 1

/-- Where the two short edges cross the row. -/
def sideX (v0 v1 v2 : Vertex) (y : Int) : Int :=
  if y ≤ upperLast v1 v2 then lineX v0 v1 y else lineX v1 v2 y

/-- The ends of a row. -/
def spanLeft (v0 v1 v2 : Vertex) (y : Int) : Int := min (sideX v0 v1 v2 y) (lineX v0 v2 y)

def spanRight (v0 v1 v2 : Vertex) (y : Int) : Int := max (sideX v0 v1 v2 y) (lineX v0 v2 y)

/-- What the two loops need of sorted vertices. -/
structure RowsFit (v0 v1 v2 : Vertex) : Prop where
  top : 0 ≤ v0.y.toInt
  upper : v0.y.toInt ≤ v1.y.toInt
  lower : v1.y.toInt ≤ v2.y.toInt
  bottom : v2.y.toInt < 32767
  dx01 : Int16 (v1.x.toInt - v0.x.toInt)
  dx02 : Int16 (v2.x.toInt - v0.x.toInt)
  dx12 : Int16 (v2.x.toInt - v1.x.toInt)
  widths : ∀ y, v0.y.toInt ≤ y → y ≤ v2.y.toInt →
    Int16 (spanRight v0 v1 v2 y - spanLeft v0 v1 v2 y + 1)

section Rows

variable {s : Screen} {win : DispWin s} {color : BitVec 16} {v0 v1 v2 : Vertex}

/-- The calls of both loops. -/
def triangleRows (win : DispWin s) (v0 v1 v2 : Vertex) (color : BitVec 16) :
    List (Option Sent) :=
  fillRowsFrom win v0 v1 v0 v2 color (upperLast v1 v2 + 1 - v0.y.toInt).toNat v0.y.toInt ++
    fillRowsFrom win v1 v2 v0 v2 color (v2.y.toInt - upperLast v1 v2).toNat
      (upperLast v1 v2 + 1)

theorem toInt_of_small {x : BitVec 16} (h : x.toNat < 32768) : x.toInt = x.toNat :=
  BitVec.toInt_eq_toNat_of_lt (by omega)

theorem toInt_inj_of_ne {x x' : BitVec 16} (h : x ≠ x') : x.toInt ≠ x'.toInt :=
  fun heq => h (BitVec.eq_of_toInt_eq heq)

theorem upperLast_bounds (v1 v2 : Vertex) :
    v1.y.toInt - 1 ≤ upperLast v1 v2 ∧ upperLast v1 v2 ≤ v1.y.toInt ∧
      (upperLast v1 v2 = v1.y.toInt ↔ v1.y = v2.y) := by
  unfold upperLast
  split
  next heq => exact ⟨by omega, Int.le_refl _, iff_of_true rfl heq⟩
  next hne => exact ⟨Int.le_refl _, by omega, iff_of_false (by omega) hne⟩

/-- The widths of the rows of both loops. -/
theorem widths_iff : (∀ y, v0.y.toInt ≤ y → y ≤ v2.y.toInt →
      Int16 (spanRight v0 v1 v2 y - spanLeft v0 v1 v2 y + 1)) ↔
    (∀ y, v0.y.toInt ≤ y → y ≤ upperLast v1 v2 → y ≤ v2.y.toInt →
      Int16 (rowWidth v0 v1 v0 v2 y)) ∧
    ∀ y, v0.y.toInt ≤ y → upperLast v1 v2 + 1 ≤ y → y ≤ v2.y.toInt →
      Int16 (rowWidth v1 v2 v0 v2 y) := by
  unfold spanRight spanLeft sideX rowWidth
  constructor
  · intro hall
    constructor
    · intro y htop hlast hbottom
      have hwidth := hall y htop hbottom
      rwa [if_pos hlast] at hwidth
    · intro y htop hlast hbottom
      have hwidth := hall y htop hbottom
      rwa [if_neg (by omega)] at hwidth
  · rintro ⟨hupper, hlower⟩ y htop hbottom
    by_cases hlast : y ≤ upperLast v1 v2
    · rw [if_pos hlast]
      exact hupper y htop hlast hbottom
    · rw [if_neg hlast]
      exact hlower y htop (by omega) hbottom

theorem scanRound_y {ea eb : ScanEdge} {l l' : ScanState}
    (h : scanRound exact win ea eb color l = .ok l') : l'.y ≤ 32767 := by
  obtain ⟨a, ha, h⟩ := bind_eq_ok.mp h
  obtain ⟨b, hb, h⟩ := bind_eq_ok.mp h
  obtain ⟨sa, hsa, h⟩ := bind_eq_ok.mp h
  obtain ⟨sb, hsb, h⟩ := bind_eq_ok.mp h
  dsimp only at h
  obtain ⟨w, hw, h⟩ := bind_eq_ok.mp h
  obtain ⟨y, hy, h⟩ := bind_eq_ok.mp h
  obtain rfl := Except.ok.inj h
  obtain ⟨hfits, rfl⟩ := exact_ok.mp hy
  exact hfits.2

/-- A loop that ends has a last row before the last there can be: `y` goes behind it. -/
theorem fillLoop_limit {ea eb : ScanEdge} {limit : Int} {l l' : ScanState} (hl : l.y ≤ 32767)
    (h : Ends (fun l => decide (l.y ≤ limit)) (scanRound exact win ea eb color) l l') :
    limit < 32767 ∧ l'.y ≤ 32767 := by
  obtain ⟨hrounds, hend⟩ := h.rounds
  have hy : l'.y ≤ 32767 := hrounds.invariant (fun l => l.y ≤ 32767)
    (fun _ _ _ hround => scanRound_y hround) hl
  have hdone : ¬ l'.y ≤ limit := of_decide_eq_false hend
  exact ⟨by omega, hy⟩

/-- The loops, for vertices in the rows that there are. -/
theorem fillLoops_ends (win : DispWin s) (color : BitVec 16) (htop : 0 ≤ v0.y.toInt)
    (hupper : v0.y.toInt ≤ v1.y.toInt) (hlower : v1.y.toInt ≤ v2.y.toInt)
    (hbottom : v2.y.toInt < 32767) (hne : v0.y ≠ v2.y)
    (hdx01 : Int16 (v1.x.toInt - v0.x.toInt)) (hdx02 : Int16 (v2.x.toInt - v0.x.toInt))
    (hdx12 : Int16 (v2.x.toInt - v1.x.toInt)) (drawn : List (Option Sent)) (l : ScanState) :
    (Ends (fun l => decide (l.y ≤ upperLast v1 v2))
        (scanRound exact win (scanEdge v0 v1) (scanEdge v0 v2) color)
        ⟨v0.y.toInt, 0, 0, []⟩ l ↔
      (∀ y, v0.y.toInt ≤ y → y ≤ upperLast v1 v2 → Int16 (rowWidth v0 v1 v0 v2 y)) ∧
        l = ⟨upperLast v1 v2 + 1, edgeSum v0 v1 (upperLast v1 v2 + 1),
          edgeSum v0 v2 (upperLast v1 v2 + 1), fillRowsFrom win v0 v1 v0 v2 color
            (upperLast v1 v2 + 1 - v0.y.toInt).toNat v0.y.toInt⟩) ∧
    (Ends (fun l => decide (l.y ≤ v2.y.toInt))
        (scanRound exact win (scanEdge v1 v2) (scanEdge v0 v2) color)
        ⟨upperLast v1 v2 + 1, edgeSum v1 v2 (upperLast v1 v2 + 1),
          edgeSum v0 v2 (upperLast v1 v2 + 1), drawn⟩ l ↔
      (∀ y, upperLast v1 v2 + 1 ≤ y → y ≤ v2.y.toInt → Int16 (rowWidth v1 v2 v0 v2 y)) ∧
        l = ⟨v2.y.toInt + 1, edgeSum v1 v2 (v2.y.toInt + 1), edgeSum v0 v2 (v2.y.toInt + 1),
          drawn ++ fillRowsFrom win v1 v2 v0 v2 color (v2.y.toInt - upperLast v1 v2).toNat
            (upperLast v1 v2 + 1)⟩) := by
  have hrows := toInt_inj_of_ne hne
  obtain ⟨hlast, hlast', hflat⟩ := upperLast_bounds v1 v2
  have hlong : EdgeFits v0 v2 := ⟨hdx02, htop, by omega, hbottom⟩
  constructor
  · have hstart : (⟨v0.y.toInt, 0, 0, []⟩ : ScanState) =
        ⟨v0.y.toInt, edgeSum v0 v1 v0.y.toInt, edgeSum v0 v2 v0.y.toInt, []⟩ := by
      rw [edgeSum_top, edgeSum_top]
    have hshort : 0 < (upperLast v1 v2 + 1 - v0.y.toInt).toNat → EdgeFits v0 v1 := by
      intro hpos
      refine ⟨hdx01, htop, ?_, by omega⟩
      by_contra hlevel
      have hsame := hflat.mp (by omega)
      rw [hsame] at hupper hlevel
      omega
    rw [hstart]
    exact fillLoop_ends ⟨by omega, by omega⟩ _ hshort (fun _ => hlong) v0.y.toInt (by omega)
      ⟨Int.le_refl _, Int.le_refl _⟩ [] l
  · have hshort : 0 < (v2.y.toInt - upperLast v1 v2).toNat → EdgeFits v1 v2 := by
      intro hpos
      refine ⟨hdx12, by omega, ?_, hbottom⟩
      by_contra hlevel
      have hsame : v1.y = v2.y := BitVec.eq_of_toInt_eq (by omega)
      have hlast := hflat.mpr hsame
      omega
    exact fillLoop_ends ⟨Int.le_refl _, Int.le_refl _⟩ _ hshort (fun _ => hlong)
      (upperLast v1 v2 + 1) (by omega) ⟨by omega, by omega⟩ drawn l

theorem toInt_eq_toNat {x : BitVec 16} (h : 0 ≤ x.toInt) : (x.toNat : Int) = x.toInt := by
  have hx := BitVec.toInt_eq_toNat_cond x
  have hlt := x.isLt
  split at hx <;> omega

/-- Fitting rows are drawn. -/
theorem fillRows_of_fits (win : DispWin s) (color : BitVec 16) (h : RowsFit v0 v1 v2)
    (hne : v0.y ≠ v2.y) :
    ∃ n, ∀ fuel > n, fillRows exact win fuel v0 v1 v2 color =
      .ok (triangleRows win v0 v1 v2 color) := by
  obtain ⟨htop, hupper, hlower, hbottom, hdx01, hdx02, hdx12, hwidths⟩ := h
  obtain ⟨hwidths, hwidths'⟩ := widths_iff.mp hwidths
  obtain ⟨hlast, hlast', hflat⟩ := upperLast_bounds v1 v2
  have hrows := toInt_inj_of_ne hne
  have hloops : ∀ drawn l, _ := fun drawn l => fillLoops_ends win color htop hupper
    hlower hbottom hne hdx01 hdx02 hdx12 drawn l
  obtain ⟨n, hn⟩ := ((hloops [] _).1.mpr
    ⟨fun y hy hy' => hwidths y hy hy' (by omega), rfl⟩).fuel
  obtain ⟨n', hn'⟩ := ((hloops _ _).2.mpr
    ⟨fun y hy hy' => hwidths' y (by omega) hy hy', rfl⟩).fuel
  refine ⟨max n n', ?_⟩
  intro fuel hfuel
  have hdy : ∀ v w : Vertex, 0 ≤ v.y.toInt → v.y.toInt ≤ w.y.toInt → w.y.toInt < 32767 →
      exact (w.y.toInt - v.y.toInt) = .ok (w.y.toInt - v.y.toInt) :=
    fun v w _ _ _ => exact_of_fits (by unfold Int16; omega)
  have hlastStore : (if v1.y = v2.y then pure v1.y.toInt else exact (v1.y.toInt - 1)) =
      Except.ok (upperLast v1 v2) := by
    unfold upperLast
    by_cases hbot : v1.y = v2.y
    · rw [if_pos hbot, if_pos hbot]
      rfl
    · rw [if_neg hbot, if_neg hbot]
      exact exact_of_fits (by unfold Int16; omega)
  have hsa : int32 ((v2.x.toInt - v1.x.toInt) * (upperLast v1 v2 + 1 - v1.y.toNat)) =
      .ok (edgeSum v1 v2 (upperLast v1 v2 + 1)) := by
    have hk : upperLast v1 v2 + 1 - v1.y.toInt = 0 ∨ upperLast v1 v2 + 1 - v1.y.toInt = 1 := by
      omega
    obtain ⟨hlow, hhigh⟩ := hdx12
    rw [toInt_eq_toNat (by omega)]
    unfold edgeSum
    rcases hk with hk | hk
    · rw [hk, Int.mul_zero]
      rfl
    · rw [hk, Int.mul_one]
      exact int32_of_fits (by unfold Int32; omega)
  have hsb : int32 ((v2.x.toInt - v0.x.toInt) * (upperLast v1 v2 + 1 - v0.y.toNat)) =
      .ok (edgeSum v0 v2 (upperLast v1 v2 + 1)) := by
    have hlong : EdgeFits v0 v2 := ⟨hdx02, htop, by omega, hbottom⟩
    have hbounds := hlong.edgeSum_bounds (y := upperLast v1 v2 + 1) (by omega)
    rw [toInt_eq_toNat htop]
    exact int32_of_fits (by unfold edgeSum at hbounds; unfold Int32; omega)
  have hlimit : (v2.y.toNat : Int) = v2.y.toInt := toInt_eq_toNat (by omega)
  rw [fillRows, exact_of_fits hdx01, ok_bind, hdy v0 v1 htop hupper (by omega), ok_bind,
    exact_of_fits hdx02, ok_bind, hdy v0 v2 htop (by omega) hbottom, ok_bind,
    exact_of_fits hdx12, ok_bind, hdy v1 v2 (by omega) hlower hbottom, ok_bind, hlastStore, ok_bind]
  show (whileLoop _ (scanRound exact win (scanEdge v0 v1) (scanEdge v0 v2) color) fuel
    ⟨v0.y.toInt, 0, 0, []⟩ >>= _) = _
  rw [hn fuel (by omega), ok_bind, hsa, ok_bind, hsb, ok_bind, hlimit]
  show (whileLoop _ (scanRound exact win (scanEdge v1 v2) (scanEdge v0 v2) color) fuel _ >>= _) = _
  rw [hn' fuel (by omega), ok_bind]
  rfl

/-- Rows that are drawn fit. -/
theorem fits_of_fillRows {fuel : Nat} {drawn : List (Option Sent)}
    (hupper : v0.y.toNat ≤ v1.y.toNat) (hlower : v1.y.toNat ≤ v2.y.toNat) (hne : v0.y ≠ v2.y)
    (h : fillRows exact win fuel v0 v1 v2 color = .ok drawn) : RowsFit v0 v1 v2 := by
  obtain ⟨dx01, hdx01, h⟩ := bind_eq_ok.mp h
  obtain ⟨dy01, hdy01, h⟩ := bind_eq_ok.mp h
  obtain ⟨dx02, hdx02, h⟩ := bind_eq_ok.mp h
  obtain ⟨dy02, hdy02, h⟩ := bind_eq_ok.mp h
  obtain ⟨dx12, hdx12, h⟩ := bind_eq_ok.mp h
  obtain ⟨dy12, hdy12, h⟩ := bind_eq_ok.mp h
  obtain ⟨last, hlast, h⟩ := bind_eq_ok.mp h
  obtain ⟨l, hl, h⟩ := bind_eq_ok.mp h
  obtain ⟨sa, hsa, h⟩ := bind_eq_ok.mp h
  obtain ⟨sb, hsb, h⟩ := bind_eq_ok.mp h
  obtain ⟨l', hl', -⟩ := bind_eq_ok.mp h
  obtain ⟨hfits01, rfl⟩ := exact_ok.mp hdx01
  obtain ⟨hfits02, rfl⟩ := exact_ok.mp hdx02
  obtain ⟨hfits12, rfl⟩ := exact_ok.mp hdx12
  obtain ⟨-, rfl⟩ := exact_ok.mp hdy01
  obtain ⟨-, rfl⟩ := exact_ok.mp hdy02
  obtain ⟨-, rfl⟩ := exact_ok.mp hdy12
  -- the last row is before the last that there can be, so that all are what they seem
  have hstart : v0.y.toInt ≤ 32767 := (toInt_int16 v0.y).2
  have hmiddle := fillLoop_limit hstart ⟨fuel, hl⟩
  have hbetween : (⟨l.y, sa, sb, l.drawn⟩ : ScanState).y ≤ 32767 := hmiddle.2
  have hend := fillLoop_limit hbetween ⟨fuel, hl'⟩
  have hy0 := toInt_of_small (x := v0.y) (by omega)
  have hy1 := toInt_of_small (x := v1.y) (by omega)
  have hy2 := toInt_of_small (x := v2.y) (by omega)
  have hlast' : last = upperLast v1 v2 := by
    unfold upperLast
    by_cases hbot : v1.y = v2.y
    · rw [if_pos hbot] at hlast ⊢
      exact (Except.ok.inj hlast).symm
    · rw [if_neg hbot] at hlast ⊢
      exact (exact_ok.mp hlast).2
  subst hlast'
  have hloops : ∀ drawn l, _ := fun drawn l => fillLoops_ends win color (by omega)
    (by omega) (by omega) (by omega) hne hfits01 hfits02 hfits12 drawn l
  obtain ⟨hwidths, rfl⟩ := (hloops [] l).1.mp ⟨fuel, hl⟩
  have hsa' : sa = (v2.x.toInt - v1.x.toInt) * (upperLast v1 v2 + 1 - v1.y.toNat) :=
    (int32_ok.mp hsa).2
  have hsb' : sb = (v2.x.toInt - v0.x.toInt) * (upperLast v1 v2 + 1 - v0.y.toNat) :=
    (int32_ok.mp hsb).2
  have hsums : sa = edgeSum v1 v2 (upperLast v1 v2 + 1) ∧
      sb = edgeSum v0 v2 (upperLast v1 v2 + 1) := by
    rw [hsa', hsb', ← hy1, ← hy0]
    exact ⟨rfl, rfl⟩
  obtain ⟨rfl, rfl⟩ := hsums
  rw [← hy2] at hl'
  obtain ⟨hwidths', -⟩ := (hloops _ l').2.mp ⟨fuel, hl'⟩
  exact ⟨by omega, by omega, by omega, by omega, hfits01, hfits02, hfits12,
    widths_iff.mpr ⟨fun y hy hy' _ => hwidths y hy hy', fun y _ hy hy' => hwidths' y hy hy'⟩⟩

end Rows

end LuaRtos.Tft
