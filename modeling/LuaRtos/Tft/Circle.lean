/-
  LuaRtos.Tft.Circle

  TFT_drawCircle and TFT_fillCircle of Lua/modules/screen/tft.c.

  Both go through the same sequence of rows, that of the midpoint algorithm: one with variables
  of `int`, the other with variables of `int16_t`.  `Midpoint` is that sequence.
-/

import LuaRtos.CLib.Cycle
import LuaRtos.Tft.Draw
import Mathlib.Tactic.Ring

namespace LuaRtos.Tft

open LuaRtos.CLib

/-! ## The code -/

section Code

variable {s : Screen} (win : DispWin s)

/-- The eight calls of a round. -/
def circlePoints (x y x1 y1 : Int) (color : BitVec 16) : List (Option Sent) :=
  [drawPixel win (arg16 (x + x1)) (arg16 (y + y1)) color,
    drawPixel win (arg16 (x - x1)) (arg16 (y + y1)) color,
    drawPixel win (arg16 (x + x1)) (arg16 (y - y1)) color,
    drawPixel win (arg16 (x - x1)) (arg16 (y - y1)) color,
    drawPixel win (arg16 (x + y1)) (arg16 (y + x1)) color,
    drawPixel win (arg16 (x - y1)) (arg16 (y + x1)) color,
    drawPixel win (arg16 (x + y1)) (arg16 (y - x1)) color,
    drawPixel win (arg16 (x - y1)) (arg16 (y - x1)) color]

/-- The variables of the loop in `TFT_drawCircle`, and what was drawn. -/
structure CircleState where
  x1 : Int
  y1 : Int
  f : Int
  ddF_x : Int
  ddF_y : Int
  drawn : List (Option Sent)

def circleRound (x y : Int) (color : BitVec 16) (c : CircleState) : CircleState :=
  let (y1, ddF_y, f) :=
    if c.f ≥ 0 then (c.y1 - 1, c.ddF_y + 2, c.f + (c.ddF_y + 2)) else (c.y1, c.ddF_y, c.f)
  let x1 := c.x1 + 1
  let ddF_x := c.ddF_x + 2
  ⟨x1, y1, f + ddF_x, ddF_x, ddF_y, c.drawn ++ circlePoints win x y x1 y1 color⟩

/-- `TFT_drawCircle`. -/
def drawCircle (fuel : Nat) (x y radius : Int) (color : BitVec 16) :
    Result (List (Option Sent)) := do
  let c ← whileLoop (fun c => decide (c.x1 < c.y1)) (fun c => pure (circleRound win x y color c))
    fuel ⟨0, radius, 1 - radius, 1, -2 * radius,
      [drawPixel win (arg16 x) (arg16 (y + radius)) color,
        drawPixel win (arg16 x) (arg16 (y - radius)) color,
        drawPixel win (arg16 (x + radius)) (arg16 y) color,
        drawPixel win (arg16 (x - radius)) (arg16 y) color]⟩
  pure c.drawn

/-- The calls for the columns `a` beside the middle. -/
def circleColumns (x0 y0 a b delta : Int) (cornername : BitVec 8) (color : BitVec 16) :
    List (Option Sent) :=
  (if cornername &&& 0x1 ≠ 0 then
      [drawFastVLine win (arg16 (x0 + a)) (arg16 (y0 - b)) (arg16 (2 * b + 1 + delta)) color]
    else []) ++
  (if cornername &&& 0x2 ≠ 0 then
      [drawFastVLine win (arg16 (x0 - a)) (arg16 (y0 - b)) (arg16 (2 * b + 1 + delta)) color]
    else [])

/-- The variables of the loop in `fillCircleHelper`, and what was drawn. -/
structure FillState where
  x : Int
  y : Int
  f : Int
  ddF_x : Int
  ddF_y : Int
  ylm : Int
  drawn : List (Option Sent)

def fillRound (x0 y0 delta : Int) (cornername : BitVec 8) (color : BitVec 16) (c : FillState) :
    FillState :=
  let c :=
    if c.f ≥ 0 then
      { c with
        drawn := c.drawn ++ circleColumns win x0 y0 c.y c.x delta cornername color
        ylm := int16 (x0 - c.y)
        y := int16 (c.y - 1)
        ddF_y := int16 (c.ddF_y + 2)
        f := int16 (c.f + int16 (c.ddF_y + 2)) }
    else c
  let x := int16 (c.x + 1)
  let ddF_x := int16 (c.ddF_x + 2)
  { c with
    x := x
    ddF_x := ddF_x
    f := int16 (c.f + ddF_x)
    drawn := if x0 - x > c.ylm then
        c.drawn ++ circleColumns win x0 y0 x c.y delta cornername color
      else c.drawn }

/-- `fillCircleHelper`. -/
def fillCircleHelper (fuel : Nat) (x0 y0 r : Int) (cornername : BitVec 8) (delta : Int)
    (color : BitVec 16) : Result (List (Option Sent)) := do
  let c ← whileLoop (fun c => decide (c.x < c.y))
    (fun c => pure (fillRound win x0 y0 delta cornername color c)) fuel
    ⟨0, r, int16 (1 - r), 1, int16 (-2 * r), int16 (x0 - r), []⟩
  pure c.drawn

/-- `TFT_fillCircle`. -/
def fillCircle (fuel : Nat) (x y radius : Int) (color : BitVec 16) :
    Result (List (Option Sent)) := do
  let drawn ← fillCircleHelper win fuel x y (int16 radius) 3 0 color
  pure (drawFastVLine win (arg16 x) (arg16 (y - radius)) (arg16 (2 * radius + 1)) color :: drawn)

end Code

/-! ## The midpoint algorithm -/

/-- The row, the value that decides on it, and the last column that was drawn for its row. -/
structure Midpoint where
  y : Int
  f : Int
  limit : Int

/-- After `k` columns. -/
def midpoint (r : Int) : Nat → Midpoint
  | 0 => ⟨r, 1 - r, r⟩
  | k + 1 =>
    let m := midpoint r k
    if 0 ≤ m.f then ⟨m.y - 1, m.f + (2 - 2 * m.y) + (2 * k + 3), m.y⟩
    else ⟨m.y, m.f + (2 * k + 3), m.limit⟩

/-- The loops end after `n` rounds. -/
structure Meets (r : Int) (n : Nat) : Prop where
  before : ∀ k < n, (k : Int) < (midpoint r k).y
  stop : (midpoint r n).y ≤ n

/-- The pixels of the outline, by their distances from the middle. -/
def OnOutline (r : Int) (n : Nat) (c d : Int) : Prop :=
  (c = 0 ∧ d = r) ∨ (c = r ∧ d = 0) ∨ ∃ k, (1 ≤ k ∧ k ≤ n) ∧
    ((c = k ∧ d = (midpoint r k).y) ∨ (c = (midpoint r k).y ∧ d = k))

/-- The pixels of the filled circle. -/
def OnFill (r : Int) (n : Nat) (c d : Int) : Prop :=
  (c = 0 ∧ d ≤ r) ∨
    (∃ k < n, 0 ≤ (midpoint r k).f ∧ c = (midpoint r k).y ∧ d ≤ k) ∨
    ∃ k, (1 ≤ k ∧ k ≤ n) ∧ k < (midpoint r k).limit ∧ c = k ∧ d ≤ (midpoint r k).y

section Midpoint

variable {r : Int} {n k : Nat}

theorem midpoint_down (h : 0 ≤ (midpoint r k).f) :
    midpoint r (k + 1) = ⟨(midpoint r k).y - 1,
      (midpoint r k).f + (2 - 2 * (midpoint r k).y) + (2 * k + 3), (midpoint r k).y⟩ := if_pos h

theorem midpoint_level (h : ¬ 0 ≤ (midpoint r k).f) :
    midpoint r (k + 1) = ⟨(midpoint r k).y, (midpoint r k).f + (2 * k + 3),
      (midpoint r k).limit⟩ := if_neg h

/-- One column on, the row is the same or the next one. -/
theorem midpoint_row (r : Int) (k : Nat) : (midpoint r (k + 1)).y ≤ (midpoint r k).y ∧
    (midpoint r k).y ≤ (midpoint r (k + 1)).y + 1 := by
  by_cases h : 0 ≤ (midpoint r k).f
  · rw [midpoint_down h]
    dsimp only
    omega
  · rw [midpoint_level h]
    dsimp only
    omega

theorem midpoint_antitone {j : Nat} (h : j ≤ k) : (midpoint r k).y ≤ (midpoint r j).y := by
  induction h with
  | refl => exact Int.le_refl _
  | step _ ih => exact Int.le_trans (midpoint_row r _).1 ih

/-- The last column drawn is the one above the row, unless the first row was never left. -/
theorem midpoint_limit (r : Int) (k : Nat) : (midpoint r k).limit = (midpoint r k).y + 1 ∨
    (midpoint r k).limit = r ∧ (midpoint r k).y = r := by
  induction k with
  | zero => exact .inr ⟨rfl, rfl⟩
  | succ k ih =>
    by_cases h : 0 ≤ (midpoint r k).f
    · rw [midpoint_down h]
      dsimp only
      omega
    · rw [midpoint_level h]
      exact ih

theorem midpoint_limit_le (r : Int) (k : Nat) : (midpoint r k).limit ≤ r := by
  induction k with
  | zero => exact Int.le_refl r
  | succ k ih =>
    by_cases h : 0 ≤ (midpoint r k).f
    · rw [midpoint_down h]
      exact midpoint_antitone (Nat.zero_le k)
    · rw [midpoint_level h]
      exact ih

/-- What decides is the distance of the midpoint from the circle. -/
theorem midpoint_f (r : Int) (k : Nat) : (midpoint r k).f =
    (k + 1) * (k + 1) + (midpoint r k).y * (midpoint r k).y - (midpoint r k).y - r * r := by
  induction k with
  | zero =>
    show 1 - r = (0 + 1) * (0 + 1) + r * r - r - r * r
    omega
  | succ k ih =>
    push_cast
    by_cases h : 0 ≤ (midpoint r k).f
    · rw [midpoint_down h]
      dsimp only
      rw [ih]
      ring
    · rw [midpoint_level h]
      dsimp only
      rw [ih]
      ring

theorem exists_meets (hr : 0 ≤ r) : ∃ n, Meets r n := by
  have hlast : ∃ n, (midpoint r n).y ≤ n := by
    have htop : (midpoint r r.toNat).y ≤ r := midpoint_antitone (Nat.zero_le _)
    exact ⟨r.toNat, by omega⟩
  classical
  refine ⟨Nat.find hlast, ?_, Nat.find_spec hlast⟩
  intro k hk
  exact Int.not_le.mp (Nat.find_min hlast hk)

/-- Where the loops end, the column and the row have met or just passed each other. -/
theorem Meets.row (h : Meets r n) (hn : 0 < n) :
    (midpoint r n).y = n ∨ (midpoint r n).y = n - 1 ∧ (midpoint r (n - 1)).y = n := by
  obtain ⟨m, rfl⟩ := Nat.exists_eq_add_one_of_ne_zero (Nat.ne_of_gt hn)
  have hbefore := h.before m (Nat.lt_succ_self m)
  have hstop := h.stop
  have hrow := midpoint_row r m
  rw [Nat.add_sub_cancel]
  push_cast at hstop ⊢
  omega

theorem Meets.le (h : Meets r n) (hr : 0 ≤ r) : (n : Int) ≤ r := by
  cases n with
  | zero => exact hr
  | succ m =>
    have hbefore := h.before m (Nat.lt_succ_self m)
    have htop : (midpoint r m).y ≤ r := midpoint_antitone (Nat.zero_le m)
    push_cast
    omega

/-- The row is left before the columns reach it: otherwise it would be the first row still, and
    what decides on it would not be negative any more. -/
theorem Meets.limit_lt (h : Meets r n) (hn : 0 < n) (hr : 0 < r)
    (hrow : (midpoint r n).y = n) : (n : Int) < (midpoint r n).limit := by
  rcases midpoint_limit r n with hlimit | ⟨-, hfirst⟩
  · omega
  · exfalso
    obtain ⟨m, rfl⟩ := Nat.exists_eq_add_one_of_ne_zero (Nat.ne_of_gt hn)
    have htop : (midpoint r m).y ≤ r := midpoint_antitone (Nat.zero_le m)
    have hlast := (midpoint_row r m).1
    have hm : (midpoint r m).y = r := by omega
    have hmr : (m : Int) + 1 = r := by
      push_cast at hrow
      omega
    have hf := midpoint_f r m
    rw [hm, hmr] at hf
    have hsquare : r ≤ r * r := by nlinarith
    have hdown := midpoint_down (r := r) (k := m) (by omega)
    rw [hdown] at hfirst
    dsimp only at hfirst
    omega

/-- A row that is left before the end is left at one column. -/
theorem exists_down {k : Nat} (hkn : k ≤ n) (hleft : (midpoint r n).y < (midpoint r k).y) :
    ∃ j, (k ≤ j ∧ j < n) ∧ (midpoint r j).y = (midpoint r k).y ∧ 0 ≤ (midpoint r j).f := by
  induction n, hkn using Nat.le_induction with
  | base => exact absurd hleft (Int.lt_irrefl _)
  | succ n hkn ih =>
    by_cases hbefore : (midpoint r n).y < (midpoint r k).y
    · obtain ⟨j, hj, hrow, hf⟩ := ih hbefore
      exact ⟨j, ⟨hj.1, by omega⟩, hrow, hf⟩
    · have hle : (midpoint r n).y ≤ (midpoint r k).y := midpoint_antitone hkn
      refine ⟨n, ⟨hkn, Nat.lt_succ_self n⟩, by omega, ?_⟩
      by_contra hf
      rw [midpoint_level hf] at hleft
      exact hbefore hleft

/-- What is filled is what the outline reaches over. -/
theorem onFill_iff (h : Meets r n) (hr : 0 ≤ r) {c d : Int} :
    OnFill r n c d ↔ ∃ d', d ≤ d' ∧ OnOutline r n c d' := by
  have hnr := h.le hr
  constructor
  · rintro (⟨hc, hle⟩ | ⟨k, hk, -, hc, hle⟩ | ⟨k, hk, -, hc, hle⟩)
    · exact ⟨r, hle, .inl ⟨hc, rfl⟩⟩
    · rcases Nat.eq_zero_or_pos k with rfl | hpos
      · exact ⟨0, hle, .inr (.inl ⟨hc, rfl⟩)⟩
      · exact ⟨k, hle, .inr (.inr ⟨k, ⟨hpos, Nat.le_of_lt hk⟩, .inr ⟨hc, rfl⟩⟩)⟩
    · exact ⟨(midpoint r k).y, hle, .inr (.inr ⟨k, hk, .inl ⟨hc, rfl⟩⟩)⟩
  · rintro ⟨d', hle, hout⟩
    rcases Nat.eq_zero_or_pos n with rfl | hn
    · -- the point
      have hzero : r = 0 := by
        have hstop : r ≤ 0 := h.stop
        omega
      refine .inl ?_
      rcases hout with ⟨hc, hd'⟩ | ⟨hc, hd'⟩ | ⟨k, hk, -⟩
      · exact ⟨hc, by omega⟩
      · exact ⟨by omega, by omega⟩
      · omega
    have hrows := h.row hn
    have hrpos : 0 < r := by omega
    -- the column of the row that is left for good, and the one below it
    have hlast : ∀ k, 1 ≤ k → k ≤ n → d ≤ (midpoint r k).y → OnFill r n k d := by
      intro k hk hkn hdk
      by_cases hlimit : (k : Int) < (midpoint r k).limit
      · exact .inr (.inr ⟨k, ⟨hk, hkn⟩, hlimit, rfl, hdk⟩)
      · have hkn' : k = n := by
          by_contra hne
          have hbefore := h.before k (by omega)
          rcases midpoint_limit r k with hlim | ⟨hlim, hrow⟩
          · omega
          · omega
        rw [hkn'] at hdk hlimit ⊢
        rcases hrows with hrow | ⟨hrow, hrow'⟩
        · exact absurd (h.limit_lt hn hrpos hrow) hlimit
        · obtain ⟨j, hj, hjrow, hf⟩ := exists_down (r := r) (k := n - 1) (n := n) (by omega)
            (by omega)
          exact .inr (.inl ⟨j, hj.2, hf, by omega, by omega⟩)
    rcases hout with ⟨hc, hd'⟩ | ⟨hc, hd'⟩ | ⟨k, hk, (⟨hc, hd'⟩ | ⟨hc, hd'⟩)⟩
    · exact .inl ⟨hc, by omega⟩
    · have hleft : (midpoint r n).y < (midpoint r 0).y := by
        show (midpoint r n).y < r
        rcases hrows with hrow | ⟨hrow, -⟩
        · have hlimit := h.limit_lt hn hrpos hrow
          have hle := midpoint_limit_le r n
          omega
        · omega
      obtain ⟨j, hj, hjrow, hf⟩ := exists_down (Nat.zero_le n) hleft
      exact .inr (.inl ⟨j, hj.2, hf, by rw [hjrow]; exact hc, by omega⟩)
    · rw [hc]
      exact hlast k hk.1 hk.2 (by omega)
    · by_cases hleft : (midpoint r n).y < (midpoint r k).y
      · obtain ⟨j, hj, hjrow, hf⟩ := exists_down hk.2 hleft
        exact .inr (.inl ⟨j, hj.2, hf, by omega, by omega⟩)
      · have hle' : (midpoint r n).y ≤ (midpoint r k).y := midpoint_antitone hk.2
        rcases hrows with hrow | ⟨hrow, hrow'⟩
        · have hcn : c = (n : Int) := by omega
          rw [hcn]
          exact hlast n hn (Nat.le_refl n) (by omega)
        · have hkn : k = n := by
            by_contra hne
            have hbelow : (midpoint r (n - 1)).y ≤ (midpoint r k).y :=
              midpoint_antitone (by omega)
            omega
          rcases Nat.eq_zero_or_pos (n - 1) with hzero | hpos
          · exact .inl ⟨by omega, by omega⟩
          · have hcn : c = ((n - 1 : Nat) : Int) := by omega
            rw [hcn]
            exact hlast (n - 1) hpos (Nat.sub_le n 1) (by omega)

end Midpoint

/-! ## The loops -/

section Loops

variable {s : Screen} {win : DispWin s} {x y r : Int} {n k : Nat}

/-- The circle lies in the window. -/
structure CircleInside (win : DispWin s) (x y r : Int) : Prop where
  radius : 0 ≤ r
  first : win.Inside (x - r) (y - r)
  last : win.Inside (x + r) (y + r)

theorem CircleInside.inside (h : CircleInside win x y r) {a b : Int} (ha : -r ≤ a ∧ a ≤ r)
    (hb : -r ≤ b ∧ b ≤ r) : win.Inside (x + a) (y + b) := by
  have hfirst := h.first
  have hlast := h.last
  unfold DispWin.Inside at *
  omega

theorem CircleInside.small (h : CircleInside win x y r) :
    r < 160 ∧ (0 ≤ x ∧ x < 320) ∧ 0 ≤ y ∧ y < 320 := by
  have hfirst := win.inside_bounds h.first
  have hlast := win.inside_bounds h.last
  have hr := h.radius
  omega

/-- Rows and columns up to the end are within the radius. -/
theorem Meets.bounds (h : Meets r n) (hr : 0 ≤ r) (hk : k ≤ n) :
    (k : Int) ≤ r ∧ 0 ≤ (midpoint r k).y ∧ (midpoint r k).y ≤ r := by
  have hn := h.le hr
  have htop : (midpoint r k).y ≤ r := midpoint_antitone (Nat.zero_le k)
  refine ⟨by omega, ?_, htop⟩
  rcases Nat.lt_or_eq_of_le hk with hlt | rfl
  · have hbefore := h.before k hlt
    omega
  · rcases Nat.eq_zero_or_pos k with rfl | hpos
    · exact hr
    · have hrow := h.row hpos
      omega

/-- A point of the outline, by its distances. -/
theorem circlePoints_shows (h : CircleInside win x y r) {a b : Int} (ha : 0 ≤ a ∧ a ≤ r)
    (hb : 0 ≤ b ∧ b ≤ r) (color : BitVec 16) (px py : Int) :
    Shows (circlePoints win x y a b color) px py ↔
      ((px - x).natAbs = a ∧ (py - y).natAbs = b) ∨
        ((px - x).natAbs = b ∧ (py - y).natAbs = a) := by
  have hin : ∀ c d : Int, (-r ≤ c ∧ c ≤ r) → (-r ≤ d ∧ d ≤ r) →
      (Changes (drawPixel win (arg16 (x + c)) (arg16 (y + d)) color) px py ↔
        px = x + c ∧ py = y + d) := fun c d hc hd => drawPixel_shows (h.inside hc hd) color px py
  unfold circlePoints
  simp only [shows_cons, not_shows_nil, or_false, Int.sub_eq_add_neg]
  rw [hin a b (by omega) (by omega), hin (-a) b (by omega) (by omega),
    hin a (-b) (by omega) (by omega), hin (-a) (-b) (by omega) (by omega),
    hin b a (by omega) (by omega), hin (-b) a (by omega) (by omega),
    hin b (-a) (by omega) (by omega), hin (-b) (-a) (by omega) (by omega)]
  omega

/-- Two columns beside the middle. -/
theorem circleColumns_shows (h : CircleInside win x y r) {a b : Int} (ha : 0 ≤ a ∧ a ≤ r)
    (hb : 0 ≤ b ∧ b ≤ r) (color : BitVec 16) (px py : Int) :
    Shows (circleColumns win x y a b 0 3 color) px py ↔
      (px - x).natAbs = a ∧ (py - y).natAbs ≤ b := by
  have hin : ∀ c : Int, (-r ≤ c ∧ c ≤ r) →
      (Changes (drawFastVLine win (arg16 (x + c)) (arg16 (y - b)) (arg16 (2 * b + 1 + 0)) color)
          px py ↔ px = x + c ∧ y - b ≤ py ∧ py < y - b + (2 * b + 1 + 0)) := by
    intro c hc
    have hlast : win.Inside (x + c) (y - b + (2 * b + 1 + 0) - 1) := by
      have hrow : y - b + (2 * b + 1 + 0) - 1 = y + b := by omega
      rw [hrow]
      exact h.inside hc (by omega)
    exact drawFastVLine_shows (h.inside hc (by omega)) hlast (by omega) color px py
  show Shows ([drawFastVLine win (arg16 (x + a)) _ _ color] ++
    [drawFastVLine win (arg16 (x - a)) _ _ color]) px py ↔ _
  rw [shows_append, shows_singleton, shows_singleton, hin a (by omega),
    show x - a = x + -a from rfl, hin (-a) (by omega)]
  omega

/-! ### The outline -/

/-- What is drawn after `k` rounds. -/
def circleDrawn (win : DispWin s) (x y r : Int) (color : BitVec 16) :
    Nat → List (Option Sent)
  | 0 => [drawPixel win (arg16 x) (arg16 (y + r)) color,
      drawPixel win (arg16 x) (arg16 (y - r)) color,
      drawPixel win (arg16 (x + r)) (arg16 y) color,
      drawPixel win (arg16 (x - r)) (arg16 y) color]
  | k + 1 => circleDrawn win x y r color k ++
      circlePoints win x y (k + 1) (midpoint r (k + 1)).y color

def circleTrace (win : DispWin s) (x y r : Int) (color : BitVec 16) (k : Nat) : CircleState :=
  ⟨k, (midpoint r k).y, (midpoint r k).f, 2 * k + 1, -2 * (midpoint r k).y,
    circleDrawn win x y r color k⟩

theorem circleRound_trace (win : DispWin s) (x y r : Int) (color : BitVec 16) (k : Nat) :
    circleRound win x y color (circleTrace win x y r color k) =
      circleTrace win x y r color (k + 1) := by
  unfold circleRound circleTrace
  dsimp only
  by_cases h : 0 ≤ (midpoint r k).f
  · rw [if_pos h, circleDrawn, midpoint_down h]
    dsimp only
    simp only [CircleState.mk.injEq, and_true, true_and]
    omega
  · rw [if_neg h, circleDrawn, midpoint_level h]
    dsimp only
    simp only [CircleState.mk.injEq, and_true, true_and]
    omega

theorem drawCircle_eq (win : DispWin s) (x y : Int) (hm : Meets r n) (color : BitVec 16)
    {fuel : Nat} (hfuel : n < fuel) :
    drawCircle win fuel x y r color = .ok (circleDrawn win x y r color n) := by
  have hrounds : RoundsIn (fun c : CircleState => decide (c.x1 < c.y1))
      (fun c => pure (circleRound win x y color c)) n (circleTrace win x y r color 0)
      (circleTrace win x y r color n) := by
    apply RoundsIn.of_trace (circleTrace win x y r color)
    · exact fun k hk => decide_eq_true (hm.before k hk)
    · exact fun k hk => congrArg Except.ok (circleRound_trace win x y r color k)
  have hloop := hrounds.whileLoop_eq (decide_eq_false (Int.not_lt.mpr hm.stop)) hfuel
  unfold drawCircle
  refine (congrArg (· >>= _) hloop).trans ?_
  rfl

/-- The outline, by the distances of its pixels. -/
theorem circleDrawn_shows (h : CircleInside win x y r) (hm : Meets r n) (color : BitVec 16)
    (px py : Int) : Shows (circleDrawn win x y r color n) px py ↔
      OnOutline r n (px - x).natAbs (py - y).natAbs := by
  have hr := h.radius
  have key : ∀ m ≤ n, (Shows (circleDrawn win x y r color m) px py ↔
      OnOutline r m (px - x).natAbs (py - y).natAbs) := by
    intro m
    induction m with
    | zero =>
      intro _
      have hin : ∀ c d : Int, (-r ≤ c ∧ c ≤ r) → (-r ≤ d ∧ d ≤ r) →
          (Changes (drawPixel win (arg16 (x + c)) (arg16 (y + d)) color) px py ↔
            px = x + c ∧ py = y + d) :=
        fun c d hc hd => drawPixel_shows (h.inside hc hd) color px py
      have htop := hin 0 r (by omega) (by omega)
      have hbottom := hin 0 (-r) (by omega) (by omega)
      have hright := hin r 0 (by omega) (by omega)
      have hleft := hin (-r) 0 (by omega) (by omega)
      rw [Int.add_zero] at htop hbottom hright hleft
      unfold circleDrawn OnOutline
      simp only [shows_cons, not_shows_nil, or_false, Int.sub_eq_add_neg]
      rw [htop, hbottom, hright, hleft]
      have hnone : ¬ ∃ k : Nat, (1 ≤ k ∧ k ≤ 0) ∧
          (((px + -x).natAbs : Int) = k ∧ ((py + -y).natAbs : Int) = (midpoint r k).y ∨
            ((px + -x).natAbs : Int) = (midpoint r k).y ∧ ((py + -y).natAbs : Int) = k) := by
        rintro ⟨k, hk, -⟩
        omega
      rw [or_iff_left hnone]
      omega
    | succ m ih =>
      intro hmn
      obtain ⟨hcol, hlow, hhigh⟩ := hm.bounds hr hmn
      have hpoints := circlePoints_shows h (a := (m : Int) + 1) (b := (midpoint r (m + 1)).y)
        (by omega) ⟨hlow, hhigh⟩ color px py
      rw [circleDrawn, shows_append, ih (Nat.le_of_succ_le hmn), hpoints]
      unfold OnOutline
      constructor
      · rintro ((hfirst | hfirst | ⟨k, hk, hpoint⟩) | hlast)
        · exact .inl hfirst
        · exact .inr (.inl hfirst)
        · exact .inr (.inr ⟨k, by omega, hpoint⟩)
        · exact .inr (.inr ⟨m + 1, by omega, hlast⟩)
      · rintro (hfirst | hfirst | ⟨k, hk, hpoint⟩)
        · exact .inl (.inl hfirst)
        · exact .inl (.inr (.inl hfirst))
        · rcases Nat.lt_or_eq_of_le hk.2 with hlt | rfl
          · exact .inl (.inr (.inr ⟨k, by omega, hpoint⟩))
          · exact .inr hpoint
  exact key n (Nat.le_refl n)

/-! ### The columns -/

/-- What is drawn after `k` rounds. -/
def fillDrawn (win : DispWin s) (x y r : Int) (color : BitVec 16) : Nat → List (Option Sent)
  | 0 => []
  | k + 1 =>
    (fillDrawn win x y r color k ++
      (if 0 ≤ (midpoint r k).f then circleColumns win x y (midpoint r k).y k 0 3 color else [])) ++
      (if (k + 1 : Int) < (midpoint r (k + 1)).limit then
        circleColumns win x y (k + 1) (midpoint r (k + 1)).y 0 3 color else [])

def fillTrace (win : DispWin s) (x y r : Int) (color : BitVec 16) (k : Nat) : FillState :=
  ⟨k, (midpoint r k).y, (midpoint r k).f, 2 * k + 1, -2 * (midpoint r k).y,
    x - (midpoint r k).limit, fillDrawn win x y r color k⟩

/-- The value that decides stays small. -/
theorem Meets.f_bounds (h : Meets r n) (hr : 0 ≤ r ∧ r < 160) (hk : k ≤ n) :
    -26000 ≤ (midpoint r k).f ∧ (midpoint r k).f ≤ 26000 := by
  obtain ⟨hcol, hlow, hhigh⟩ := h.bounds hr.1 hk
  rw [midpoint_f]
  have hsquare : r * r ≤ 159 * 159 := by nlinarith
  have hrow : (midpoint r k).y * (midpoint r k).y ≤ r * r := by nlinarith
  have hrow' : (midpoint r k).y ≤ (midpoint r k).y * (midpoint r k).y := by
    rcases Int.lt_or_eq_of_le hlow with hpos | hzero
    · nlinarith
    · rw [← hzero]
      omega
  have hcols : ((k : Int) + 1) * (k + 1) ≤ 160 * 160 := by nlinarith
  have hcols' : 0 ≤ ((k : Int) + 1) * (k + 1) := by nlinarith
  omega

/-- The test for the column `k` compares it with the last one. -/
theorem fillColumn_eq (x k l : Int) (drawn cols : List (Option Sent)) :
    (if x - k > x - l then drawn ++ cols else drawn) = drawn ++ (if k < l then cols else []) := by
  by_cases hlt : k < l
  · rw [if_pos hlt, if_pos (by omega)]
  · rw [if_neg hlt, if_neg (by omega), List.append_nil]

theorem fillRound_trace (h : CircleInside win x y r) (hm : Meets r n) (color : BitVec 16)
    (hk : k < n) : fillRound win x y 0 3 color (fillTrace win x y r color k) =
      fillTrace win x y r color (k + 1) := by
  have hr := h.radius
  obtain ⟨hsmall, hx, -⟩ := h.small
  obtain ⟨hcol, hlow, hhigh⟩ := hm.bounds hr (Nat.le_of_lt hk)
  have hf := hm.f_bounds ⟨hr, hsmall⟩ (Nat.le_of_lt hk)
  have hf' := hm.f_bounds ⟨hr, hsmall⟩ hk
  have hx16 : int16 ((k : Int) + 1) = k + 1 := int16_eq (by omega) (by omega)
  have hd16 : int16 (2 * (k : Int) + 1 + 2) = 2 * k + 3 := int16_eq (by omega) (by omega)
  unfold fillRound fillTrace
  dsimp only
  by_cases hdown : 0 ≤ (midpoint r k).f
  · have hlim16 : int16 (x - (midpoint r k).y) = x - (midpoint r k).y :=
      int16_eq (by omega) (by omega)
    have hy16 : int16 ((midpoint r k).y - 1) = (midpoint r k).y - 1 :=
      int16_eq (by omega) (by omega)
    have hdy16 : int16 (-2 * (midpoint r k).y + 2) = 2 - 2 * (midpoint r k).y :=
      (int16_eq (by omega) (by omega)).trans (by omega)
    have hfy16 : int16 ((midpoint r k).f + (2 - 2 * (midpoint r k).y)) =
        (midpoint r k).f + (2 - 2 * (midpoint r k).y) := int16_eq (by omega) (by omega)
    rw [midpoint_down hdown] at hf'
    dsimp only at hf'
    have hfx16 : int16 ((midpoint r k).f + (2 - 2 * (midpoint r k).y) + (2 * k + 3)) =
        (midpoint r k).f + (2 - 2 * (midpoint r k).y) + (2 * k + 3) :=
      int16_eq (by omega) (by omega)
    rw [if_pos hdown]
    dsimp only
    rw [hx16, hd16, hlim16, hy16, hdy16, hfy16, hfx16, fillColumn_eq, fillDrawn, if_pos hdown,
      midpoint_down hdown]
    dsimp only
    simp only [FillState.mk.injEq, and_true, true_and]
    omega
  · rw [midpoint_level hdown] at hf'
    dsimp only at hf'
    have hfx16 : int16 ((midpoint r k).f + (2 * k + 3)) = (midpoint r k).f + (2 * k + 3) :=
      int16_eq (by omega) (by omega)
    rw [if_neg hdown]
    dsimp only
    rw [hx16, hd16, hfx16, fillColumn_eq, fillDrawn, if_neg hdown, midpoint_level hdown,
      List.append_nil]
    dsimp only
    simp only [FillState.mk.injEq, and_true, true_and]
    omega

theorem fillCircle_eq (h : CircleInside win x y r) (hm : Meets r n) (color : BitVec 16)
    {fuel : Nat} (hfuel : n < fuel) : fillCircle win fuel x y r color =
      .ok (drawFastVLine win (arg16 x) (arg16 (y - r)) (arg16 (2 * r + 1)) color ::
        fillDrawn win x y r color n) := by
  have hr := h.radius
  obtain ⟨hsmall, hx, -⟩ := h.small
  have hrounds : RoundsIn (fun c : FillState => decide (c.x < c.y))
      (fun c => pure (fillRound win x y 0 3 color c)) n (fillTrace win x y r color 0)
      (fillTrace win x y r color n) := by
    apply RoundsIn.of_trace (fillTrace win x y r color)
    · exact fun k hk => decide_eq_true (hm.before k hk)
    · exact fun k hk => congrArg Except.ok (fillRound_trace h hm color hk)
  have hloop := hrounds.whileLoop_eq (decide_eq_false (Int.not_lt.mpr hm.stop)) hfuel
  have hr16 : int16 r = r := int16_eq (by omega) (by omega)
  have hf16 : int16 (1 - r) = 1 - r := int16_eq (by omega) (by omega)
  have hd16 : int16 (-2 * r) = -2 * r := int16_eq (by omega) (by omega)
  have hl16 : int16 (x - r) = x - r := int16_eq (by omega) (by omega)
  unfold fillCircle fillCircleHelper
  rw [hr16, hf16, hd16, hl16]
  refine (congrArg (fun l => (l >>= fun c : FillState => pure c.drawn) >>= _) hloop).trans ?_
  rfl

/-- The columns of a round, if any. -/
theorem shows_ite {c : Prop} [Decidable c] {drawn : List (Option Sent)} {px py : Int} :
    Shows (if c then drawn else []) px py ↔ c ∧ Shows drawn px py := by
  by_cases hc : c
  · rw [if_pos hc, and_iff_right hc]
  · rw [if_neg hc]
    exact iff_of_false not_shows_nil (fun h => hc h.1)

/-- The filled circle, by the distances of its pixels. -/
theorem fillDrawn_shows (h : CircleInside win x y r) (hm : Meets r n) (color : BitVec 16)
    (px py : Int) :
    Shows (drawFastVLine win (arg16 x) (arg16 (y - r)) (arg16 (2 * r + 1)) color ::
        fillDrawn win x y r color n) px py ↔ OnFill r n (px - x).natAbs (py - y).natAbs := by
  have hr := h.radius
  have hmiddle : Changes
      (drawFastVLine win (arg16 x) (arg16 (y - r)) (arg16 (2 * r + 1)) color) px py ↔
        ((px - x).natAbs : Int) = 0 ∧ ((py - y).natAbs : Int) ≤ r := by
    have hfirst : win.Inside (x + 0) (y - r) := h.inside (b := -r) (by omega) (by omega)
    have hlast := h.inside (a := 0) (b := r) (by omega) (by omega)
    have hrow : y + r = y - r + (2 * r + 1) - 1 := by omega
    rw [Int.add_zero] at hfirst hlast
    rw [hrow] at hlast
    rw [drawFastVLine_shows hfirst hlast (by omega)]
    omega
  have key : ∀ m ≤ n, (Shows (fillDrawn win x y r color m) px py ↔
      (∃ k < m, 0 ≤ (midpoint r k).f ∧ ((px - x).natAbs : Int) = (midpoint r k).y ∧
        ((py - y).natAbs : Int) ≤ k) ∨
      ∃ k : Nat, (1 ≤ k ∧ k ≤ m) ∧ k < (midpoint r k).limit ∧ ((px - x).natAbs : Int) = k ∧
        ((py - y).natAbs : Int) ≤ (midpoint r k).y) := by
    intro m
    induction m with
    | zero =>
      intro _
      refine iff_of_false not_shows_nil ?_
      rintro (⟨k, hk, -⟩ | ⟨k, hk, -⟩)
      · exact absurd hk (Nat.not_lt_zero k)
      · omega
    | succ m ih =>
      intro hmn
      obtain ⟨hcol, hlow, hhigh⟩ := hm.bounds hr hmn
      obtain ⟨hcol', hlow', hhigh'⟩ := hm.bounds hr (Nat.le_of_succ_le hmn)
      have hrow := circleColumns_shows h (a := (midpoint r m).y) (b := m) ⟨hlow', hhigh'⟩
        (by omega) color px py
      have hcolumn := circleColumns_shows h (a := (m : Int) + 1) (b := (midpoint r (m + 1)).y)
        (by omega) ⟨hlow, hhigh⟩ color px py
      rw [fillDrawn, shows_append, shows_append, shows_ite, shows_ite, hrow, hcolumn,
        ih (Nat.le_of_succ_le hmn)]
      constructor
      · rintro (((⟨k, hk, hdown⟩ | ⟨k, hk, hlevel⟩) | hdown) | hlevel)
        · exact .inl ⟨k, by omega, hdown⟩
        · exact .inr ⟨k, by omega, hlevel⟩
        · exact .inl ⟨m, Nat.lt_succ_self m, hdown⟩
        · exact .inr ⟨m + 1, by omega, hlevel⟩
      · rintro (⟨k, hk, hdown⟩ | ⟨k, hk, hlevel⟩)
        · rcases Nat.lt_succ_iff_lt_or_eq.mp hk with hlt | rfl
          · exact .inl (.inl (.inl ⟨k, hlt, hdown⟩))
          · exact .inl (.inr hdown)
        · rcases Nat.lt_or_eq_of_le hk.2 with hlt | rfl
          · exact .inl (.inl (.inr ⟨k, by omega, hlevel⟩))
          · exact .inr hlevel
  rw [shows_cons, hmiddle, key n (Nat.le_refl n)]
  rfl

end Loops

/-! ## The circle and its outline -/

/-- The pixel is between the topmost and the bottommost that the drawing changes in its
    column. -/
def Between (drawn : List (Option Sent)) (px py : Int) : Prop :=
  (∃ t ≤ py, Shows drawn px t) ∧ ∃ b ≥ py, Shows drawn px b

/-- Both functions end, and the pixels that the one fills are those between the topmost and the
    bottommost of the other's in their column. -/
def FillsOutline {s : Screen} (win : DispWin s) (x y r : Int) (color : BitVec 16) : Prop :=
  ∃ fill outline,
    (∃ n, ∀ fuel > n, fillCircle win fuel x y r color = .ok fill) ∧
    (∃ n, ∀ fuel > n, drawCircle win fuel x y r color = .ok outline) ∧
    ∀ px py, Shows fill px py ↔ Between outline px py

/-- In the window every circle fills its outline. -/
theorem fillCircle_outline {s : Screen} (win : DispWin s) (x y r : Int) (color : BitVec 16)
    (hr : 0 ≤ r) (hfirst : win.Inside (x - r) (y - r)) (hlast : win.Inside (x + r) (y + r)) :
    FillsOutline win x y r color := by
  have h : CircleInside win x y r := ⟨hr, hfirst, hlast⟩
  obtain ⟨n, hm⟩ := exists_meets hr
  refine ⟨_, _, ⟨n, fun fuel hfuel => fillCircle_eq h hm color hfuel⟩,
    ⟨n, fun fuel hfuel => drawCircle_eq win x y hm color hfuel⟩, ?_⟩
  intro px py
  have hout := circleDrawn_shows h hm color px
  rw [fillDrawn_shows h hm, onFill_iff hm hr]
  constructor
  · rintro ⟨d, hle, hd⟩
    have hpos : ∀ e : Int, ((e.natAbs : Int) = d → ∀ z, z = y + e →
        Shows (circleDrawn win x y r color n) px z) := by
      rintro e he z rfl
      have hdist : y + e - y = e := by omega
      rw [hout, hdist, he]
      exact hd
    exact ⟨⟨y - d, by omega, hpos (-d) (by omega) _ rfl⟩, y + d, by omega,
      hpos d (by omega) _ rfl⟩
  · rintro ⟨⟨t, ht, htop⟩, b, hb, hbottom⟩
    rw [hout] at htop hbottom
    by_cases hside : y ≤ py
    · exact ⟨_, by omega, hbottom⟩
    · exact ⟨_, by omega, htop⟩

theorem fillCircle_outline_disc : FillsOutline wholeScreen 100 60 25 0xf800 :=
  fillCircle_outline wholeScreen 100 60 25 0xf800 (by decide)
    ⟨by decide, by decide, by decide, by decide⟩ ⟨by decide, by decide, by decide, by decide⟩

end LuaRtos.Tft
