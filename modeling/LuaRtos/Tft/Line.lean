/-
  LuaRtos.Tft.Line

  TFT_drawLine of Lua/modules/screen/tft.c, which draws runs of pixels, and the algorithm of
  Bresenham, which draws them one by one.

  Coordinates are values of `int16_t`.  A line that goes more in y than in x is drawn with the
  two exchanged: `steep`.
-/

import LuaRtos.CLib.Cycle
import LuaRtos.Tft.Draw

namespace LuaRtos.Tft

open LuaRtos.CLib

/-! ## The code -/

section Code

variable {s : Screen} (win : DispWin s)

/-- The call for the pixels from `xs` on: a segment. -/
def lineSegment (steep : Bool) (xs y0 dlen : Int) (color : BitVec 16) : Option Sent :=
  if steep then drawFastVLine win (arg16 y0) (arg16 xs) (arg16 dlen) color
  else drawFastHLine win (arg16 xs) (arg16 y0) (arg16 dlen) color

/-- The call in the loop: a point, if it is one. -/
def lineRun (steep : Bool) (xs y0 dlen : Int) (color : BitVec 16) : Option Sent :=
  if dlen = 1 then
    if steep then drawPixel win (arg16 y0) (arg16 xs) color
    else drawPixel win (arg16 xs) (arg16 y0) color
  else lineSegment win steep xs y0 dlen color

/-- The variables of the loops, and what was drawn. -/
structure LineState where
  x0 : Int
  y0 : Int
  err : Int
  xs : Int
  dlen : Int
  drawn : List (Option Sent)

/-- A round of either loop. -/
def runRound (steep : Bool) (dx dy ystep : Int) (color : BitVec 16) (l : LineState) :
    LineState :=
  let dlen := int16 (l.dlen + 1)
  let err := int16 (l.err - dy)
  if err < 0 then
    ⟨int16 (l.x0 + 1), int16 (l.y0 + ystep), int16 (err + dx), int16 (l.x0 + 1), 0,
      l.drawn ++ [lineRun win steep l.xs l.y0 dlen color]⟩
  else ⟨int16 (l.x0 + 1), l.y0, err, l.xs, dlen, l.drawn⟩

/-- `if (dlen)` behind the loop. -/
def lineRest (steep : Bool) (color : BitVec 16) (l : LineState) : List (Option Sent) :=
  if l.dlen ≠ 0 then l.drawn ++ [lineSegment win steep l.xs l.y0 l.dlen color] else l.drawn

/-- From `dx` on. -/
def drawRuns (fuel : Nat) (steep : Bool) (x0 y0 x1 y1 : Int) (color : BitVec 16) :
    Result (List (Option Sent)) := do
  let dx := int16 (x1 - x0)
  let dy := int16 |y1 - y0|
  let ystep := if y0 < y1 then 1 else -1
  let l ← whileLoop (fun l => decide (l.x0 ≤ x1))
    (fun l => pure (runRound win steep dx dy ystep color l)) fuel ⟨x0, y0, dx / 2, x0, 0, []⟩
  pure (lineRest win steep color l)

/-- The exchanges: whether the line is steep, and its ends. -/
def lineEnds (x0 y0 x1 y1 : Int) : Bool × (Int × Int) × Int × Int :=
  let steep := decide (|x1 - x0| < |y1 - y0|)
  let a := if steep then (y0, x0) else (x0, y0)
  let b := if steep then (y1, x1) else (x1, y1)
  if a.1 > b.1 then (steep, b, a) else (steep, a, b)

/-- `TFT_drawLine`. -/
def drawLine (fuel : Nat) (x0 y0 x1 y1 : Int) (color : BitVec 16) :
    Result (List (Option Sent)) :=
  if x0 = x1 then
    if y0 ≤ y1 then pure [drawFastVLine win (arg16 x0) (arg16 y0) (arg16 (y1 - y0)) color]
    else pure [drawFastVLine win (arg16 x0) (arg16 y1) (arg16 (y0 - y1)) color]
  else if y0 = y1 then
    if x0 ≤ x1 then pure [drawFastHLine win (arg16 x0) (arg16 y0) (arg16 (x1 - x0)) color]
    else pure [drawFastHLine win (arg16 x1) (arg16 y0) (arg16 (x0 - x1)) color]
  else
    let (steep, a, b) := lineEnds x0 y0 x1 y1
    drawRuns win fuel steep a.1 a.2 b.1 b.2 color

end Code

/-! ## Pixel by pixel -/

/-- The pixels from one on. -/
def plot (dx dy ystep : Int) : Nat → Int → Int → Int → List (Int × Int)
  | 0, _, _, _ => []
  | n + 1, x, y, err =>
    (x, y) :: if err - dy < 0 then plot dx dy ystep n (x + 1) (y + ystep) (err - dy + dx)
      else plot dx dy ystep n (x + 1) y (err - dy)

/-- The pixels of a line that goes more in x than in y, to the right. -/
def plotLine (x0 y0 x1 y1 : Int) : List (Int × Int) :=
  plot (x1 - x0) |y1 - y0| (if y0 < y1 then 1 else -1) (x1 - x0 + 1).toNat x0 y0 ((x1 - x0) / 2)

/-- Bresenham's algorithm. -/
def bresenham (x0 y0 x1 y1 : Int) : List (Int × Int) :=
  let (steep, a, b) := lineEnds x0 y0 x1 y1
  let pixels := plotLine a.1 a.2 b.1 b.2
  if steep then pixels.map Prod.swap else pixels

/-! ## The rows of the pixels -/

section Plot

variable {dx dy ystep err k j : Int} {n : Nat}

/-- `j` rows up after `k` columns: the error says how far the row is off. -/
structure OnTrack (dx dy k j err : Int) : Prop where
  error : err = dx / 2 - k * dy + j * dx
  low : 0 ≤ err
  high : err < dx
  column : k ≤ dx
  row : 0 ≤ j

/-- The rows stay between those of the ends. -/
theorem OnTrack.row_le (h : OnTrack dx dy k j err) (hdy : 0 ≤ dy) : j ≤ dy := by
  obtain ⟨herr, hlow, hhigh, hk, -⟩ := h
  by_contra hlt
  have hdx : 0 < dx := by omega
  have hj : (dy + 1) * dx ≤ j * dx := Int.mul_le_mul_of_nonneg_right (by omega) (by omega)
  have hk' : k * dy ≤ dx * dy := Int.mul_le_mul_of_nonneg_right hk hdy
  rw [Int.add_mul, Int.one_mul, Int.mul_comm dy dx] at hj
  omega

/-- The last pixel is in the row of the end. -/
theorem OnTrack.row_last (h : OnTrack dx dy dx j err) (hdy : 0 ≤ dy) : j = dy := by
  have hle := h.row_le hdy
  obtain ⟨herr, hlow, hhigh, -, -⟩ := h
  by_contra hne
  have hdx : 0 < dx := by omega
  have hj : j * dx ≤ (dy - 1) * dx := Int.mul_le_mul_of_nonneg_right (by omega) (by omega)
  rw [Int.sub_mul, Int.one_mul, Int.mul_comm dy dx] at hj
  omega

/-- One column on. -/
theorem OnTrack.next (h : OnTrack dx dy k j err) (hk : k < dx) (hdy : 0 ≤ dy ∧ dy ≤ dx) :
    if err - dy < 0 then OnTrack dx dy (k + 1) (j + 1) (err - dy + dx)
    else OnTrack dx dy (k + 1) j (err - dy) := by
  obtain ⟨herr, hlow, hhigh, -, hrow⟩ := h
  have hcol : (k + 1) * dy = k * dy + dy := by rw [Int.add_mul, Int.one_mul]
  have hrow' : (j + 1) * dx = j * dx + dx := by rw [Int.add_mul, Int.one_mul]
  split
  next hneg => exact ⟨by omega, by omega, by omega, by omega, by omega⟩
  next hpos => exact ⟨by omega, by omega, by omega, by omega, hrow⟩

/-- The pixels from the column `k` on are those of later columns, in the rows up to the last. -/
theorem plot_bounds (x0 y0 ystep : Int) (h : OnTrack dx dy k j err) (hdy : 0 ≤ dy ∧ dy ≤ dx)
    (hn : k + n = dx + 1) (p : Int × Int)
    (hp : p ∈ plot dx dy ystep n (x0 + k) (y0 + ystep * j) err) :
    ∃ k' j', (k ≤ k' ∧ k' ≤ dx) ∧ (0 ≤ j' ∧ j' ≤ dy) ∧ p = (x0 + k', y0 + ystep * j') := by
  induction n generalizing k j err with
  | zero => exact absurd hp List.not_mem_nil
  | succ n ih =>
    rcases List.mem_cons.mp hp with rfl | hp
    · exact ⟨k, j, ⟨Int.le_refl k, h.column⟩, ⟨h.row, h.row_le hdy.1⟩, rfl⟩
    · have hk : k < dx := by
        by_contra hlast
        have hzero : n = 0 := by
          have hcolumn := h.column
          omega
        rw [hzero] at hp
        split at hp
        next => exact absurd hp List.not_mem_nil
        next => exact absurd hp List.not_mem_nil
      have hnext := h.next hk hdy
      have hcolumn : x0 + k + 1 = x0 + (k + 1) := Int.add_assoc ..
      rw [hcolumn] at hp
      by_cases hneg : err - dy < 0
      · rw [if_pos hneg] at hp hnext
        have hrow : y0 + ystep * j + ystep = y0 + ystep * (j + 1) := by
          rw [Int.mul_add, Int.mul_one, Int.add_assoc]
        rw [hrow] at hp
        obtain ⟨k', j', hk', hj', heq⟩ := ih hnext (by omega) hp
        exact ⟨k', j', by omega, hj', heq⟩
      · rw [if_neg hneg] at hp hnext
        obtain ⟨k', j', hk', hj', heq⟩ := ih hnext (by omega) hp
        exact ⟨k', j', by omega, hj', heq⟩

/-- The end is one of them. -/
theorem plot_last (x0 y0 ystep : Int) (h : OnTrack dx dy k j err) (hdy : 0 ≤ dy ∧ dy ≤ dx)
    (hn : k + n = dx) :
    (x0 + dx, y0 + ystep * dy) ∈ plot dx dy ystep (n + 1) (x0 + k) (y0 + ystep * j) err := by
  induction n generalizing k j err with
  | zero =>
    obtain rfl : k = dx := by omega
    rw [h.row_last hdy.1]
    exact List.mem_cons_self
  | succ n ih =>
    have hnext := h.next (by omega) hdy
    have hcolumn : x0 + k + 1 = x0 + (k + 1) := Int.add_assoc ..
    rw [plot]
    apply List.mem_cons_of_mem
    rw [hcolumn]
    by_cases hneg : err - dy < 0
    · have hrow : y0 + ystep * j + ystep = y0 + ystep * (j + 1) := by
        rw [Int.mul_add, Int.mul_one, Int.add_assoc]
      rw [if_pos hneg] at hnext
      rw [if_pos hneg, hrow]
      exact ih hnext (by omega)
    · rw [if_neg hneg] at hnext
      rw [if_neg hneg]
      exact ih hnext (by omega)

theorem onTrack_start (dy : Int) (hdx : 0 < dx) : OnTrack dx dy 0 0 (dx / 2) :=
  ⟨by omega, by omega, by omega, by omega, by omega⟩

end Plot

/-! ## Runs -/

section Runs

variable {s : Screen} {win : DispWin s} {steep : Bool} {color : BitVec 16}

/-- The pixel in the direction of the line and across it. -/
def along (steep : Bool) (px py : Int) : Int × Int := if steep then (py, px) else (px, py)

/-- A pixel, given in the direction of the line and across it, lies in the window. -/
def InsideAlong (win : DispWin s) (steep : Bool) (x y : Int) : Prop :=
  if steep then win.Inside y x else win.Inside x y

theorem InsideAlong.bounds {x y : Int} (h : InsideAlong win steep x y) :
    (0 ≤ x ∧ x < 320) ∧ 0 ≤ y ∧ y < 320 := by
  cases steep with
  | false => exact win.inside_bounds h
  | true => exact (win.inside_bounds h).symm

/-- A segment changes the pixels of its run. -/
theorem lineSegment_shows {xs y n : Int} (hfirst : InsideAlong win steep xs y)
    (hlast : InsideAlong win steep (xs + n - 1) y) (hn : 0 < n) (px py : Int) :
    Changes (lineSegment win steep xs y n color) px py ↔
      (xs ≤ (along steep px py).1 ∧ (along steep px py).1 < xs + n) ∧
        (along steep px py).2 = y := by
  cases steep with
  | false => exact drawFastHLine_shows hfirst hlast hn color px py
  | true =>
    refine (drawFastVLine_shows hfirst hlast hn color px py).trans ?_
    show _ ↔ (xs ≤ py ∧ py < xs + n) ∧ px = y
    exact and_comm

theorem lineRun_shows {xs y n : Int} (hfirst : InsideAlong win steep xs y)
    (hlast : InsideAlong win steep (xs + n - 1) y) (hn : 0 < n) (px py : Int) :
    Changes (lineRun win steep xs y n color) px py ↔
      (xs ≤ (along steep px py).1 ∧ (along steep px py).1 < xs + n) ∧
        (along steep px py).2 = y := by
  unfold lineRun
  by_cases hone : n = 1
  · rw [if_pos hone, hone]
    cases steep with
    | false =>
      refine (drawPixel_shows hfirst color px py).trans ?_
      show _ ↔ (xs ≤ px ∧ px < xs + 1) ∧ py = y
      omega
    | true =>
      refine (drawPixel_shows hfirst color px py).trans ?_
      show _ ↔ (xs ≤ py ∧ py < xs + 1) ∧ px = y
      omega
  · rw [if_neg hone]
    exact lineSegment_shows hfirst hlast hn px py

/-- The rounds of the loop, with a run from `xs` on that is not drawn yet. -/
theorem drawRuns_rounds (steep : Bool) (color : BitVec 16) (dx dy ystep x1 : Int)
    (hdx : dx < 320) (hdy : 0 ≤ dy ∧ dy ≤ dx)
    (hstep : ystep = 1 ∨ ystep = -1) (n : Nat) (x y err xs : Int) (drawn : List (Option Sent))
    (hn : x + n = x1 + 1) (hx : 0 ≤ x ∧ x ≤ 320) (herr : 0 ≤ err ∧ err < dx) (hxs : xs ≤ x)
    (hin : ∀ p ∈ plot dx dy ystep n x y err, InsideAlong win steep p.1 p.2)
    (hrun : xs < x → InsideAlong win steep xs y ∧ InsideAlong win steep (x - 1) y) :
    ∃ l, RoundsIn (fun l => decide (l.x0 ≤ x1))
        (fun l => pure (runRound win steep dx dy ystep color l)) n
        ⟨x, y, err, xs, x - xs, drawn⟩ l ∧ decide (l.x0 ≤ x1) = false ∧
      ∀ px py, Shows (lineRest win steep color l) px py ↔ Shows drawn px py ∨
        ((xs ≤ (along steep px py).1 ∧ (along steep px py).1 < x) ∧
          (along steep px py).2 = y) ∨
        along steep px py ∈ plot dx dy ystep n x y err := by
  induction n generalizing x y err xs drawn with
  | zero =>
    refine ⟨_, .refl _, decide_eq_false (by dsimp only; omega), ?_⟩
    intro px py
    unfold lineRest
    dsimp only
    by_cases hrest : xs < x
    · obtain ⟨hfirst, hlast⟩ := hrun hrest
      have hsum : xs + (x - xs) = x := by omega
      have hlast' : InsideAlong win steep (xs + (x - xs) - 1) y := by rwa [hsum]
      rw [if_pos (by omega), shows_append, shows_singleton,
        lineSegment_shows hfirst hlast' (by omega), hsum]
      exact or_congr_right (or_iff_left List.not_mem_nil).symm
    · rw [if_neg (by omega)]
      refine (or_iff_left ?_).symm
      rintro (hbetween | hnone)
      · omega
      · exact absurd hnone List.not_mem_nil
  | succ n ih =>
    have hhere : InsideAlong win steep x y := hin (x, y) List.mem_cons_self
    have hbounds := hhere.bounds
    have hfirst : InsideAlong win steep xs y := by
      rcases Int.lt_or_eq_of_le hxs with hlt | rfl
      · exact (hrun hlt).1
      · exact hhere
    have hxs' := hfirst.bounds
    have hcond : decide (x ≤ x1) = true := decide_eq_true (by omega)
    have hx16 : int16 (x + 1) = x + 1 := int16_eq (by omega) (by omega)
    have hd16 : int16 (x - xs + 1) = x - xs + 1 := int16_eq (by omega) (by omega)
    have he16 : int16 (err - dy) = err - dy := int16_eq (by omega) (by omega)
    have hlast : InsideAlong win steep (xs + (x - xs + 1) - 1) y := by
      have hcol : xs + (x - xs + 1) - 1 = x := by omega
      rwa [hcol]
    by_cases hneg : err - dy < 0
    · have hy16 : int16 (y + ystep) = y + ystep := int16_eq (by omega) (by omega)
      have ha16 : int16 (err - dy + dx) = err - dy + dx := int16_eq (by omega) (by omega)
      have hround : runRound win steep dx dy ystep color ⟨x, y, err, xs, x - xs, drawn⟩ =
          ⟨x + 1, y + ystep, err - dy + dx, x + 1, x + 1 - (x + 1),
            drawn ++ [lineRun win steep xs y (x - xs + 1) color]⟩ := by
        rw [runRound, hd16, he16, if_pos hneg, hx16, hy16, ha16, Int.sub_self]
      have hplot : plot dx dy ystep (n + 1) x y err =
          (x, y) :: plot dx dy ystep n (x + 1) (y + ystep) (err - dy + dx) := by
        rw [plot, if_pos hneg]
      rw [hplot] at hin
      obtain ⟨l, hrounds, hend, hshows⟩ := ih (x + 1) (y + ystep) (err - dy + dx) (x + 1)
        (drawn ++ [lineRun win steep xs y (x - xs + 1) color]) (by omega) (by omega) (by omega)
        (Int.le_refl _) (fun p hp => hin p (List.mem_cons_of_mem _ hp))
        (fun hlt => absurd hlt (Int.lt_irrefl _))
      refine ⟨l, .head hcond (congrArg Except.ok hround) hrounds, hend, ?_⟩
      intro px py
      rw [hshows, hplot, List.mem_cons, shows_append, shows_singleton,
        lineRun_shows hfirst hlast (by omega), or_assoc]
      apply or_congr_right
      rw [Prod.ext_iff]
      dsimp only
      constructor
      · rintro (hrow | hnone | hrest)
        · by_cases hend : (along steep px py).1 = x
          · exact .inr (.inl ⟨hend, hrow.2⟩)
          · exact .inl ⟨⟨hrow.1.1, by omega⟩, hrow.2⟩
        · omega
        · exact .inr (.inr hrest)
      · rintro (hrow | hhere | hrest)
        · exact .inl ⟨⟨hrow.1.1, by omega⟩, hrow.2⟩
        · exact .inl ⟨⟨by omega, by omega⟩, hhere.2⟩
        · exact .inr (.inr hrest)
    · have hround : runRound win steep dx dy ystep color ⟨x, y, err, xs, x - xs, drawn⟩ =
          ⟨x + 1, y, err - dy, xs, x + 1 - xs, drawn⟩ := by
        have hlen : x - xs + 1 = x + 1 - xs := by omega
        rw [runRound, hd16, he16, if_neg hneg, hx16, hlen]
      have hplot : plot dx dy ystep (n + 1) x y err =
          (x, y) :: plot dx dy ystep n (x + 1) y (err - dy) := by
        rw [plot, if_neg hneg]
      rw [hplot] at hin
      have hback : InsideAlong win steep (x + 1 - 1) y := by rwa [Int.add_sub_cancel]
      obtain ⟨l, hrounds, hend, hshows⟩ := ih (x + 1) y (err - dy) xs drawn (by omega) (by omega)
        (by omega) (by omega) (fun p hp => hin p (List.mem_cons_of_mem _ hp))
        (fun _ => ⟨hfirst, hback⟩)
      refine ⟨l, .head hcond (congrArg Except.ok hround) hrounds, hend, ?_⟩
      intro px py
      rw [hshows, hplot, List.mem_cons, Prod.ext_iff]
      apply or_congr_right
      dsimp only
      constructor
      · rintro (hrow | hrest)
        · by_cases hend : (along steep px py).1 = x
          · exact .inr (.inl ⟨hend, hrow.2⟩)
          · exact .inl ⟨⟨hrow.1.1, by omega⟩, hrow.2⟩
        · exact .inr (.inr hrest)
      · rintro (hrow | hhere | hrest)
        · exact .inl ⟨⟨hrow.1.1, by omega⟩, hrow.2⟩
        · exact .inl ⟨⟨by omega, by omega⟩, hhere.2⟩
        · exact .inr hrest

end Runs

/-! ## Whole lines -/

/-- The line is drawn: with enough fuel the function ends, and the pixels that change are those
    of Bresenham's algorithm, the two ends among them. -/
def DrawsLine {s : Screen} (win : DispWin s) (x0 y0 x1 y1 : Int) (color : BitVec 16) : Prop :=
  ∃ drawn, (∃ n, ∀ fuel > n, drawLine win fuel x0 y0 x1 y1 color = .ok drawn) ∧
    (∀ px py, Shows drawn px py ↔ (px, py) ∈ bresenham x0 y0 x1 y1) ∧
    Shows drawn x0 y0 ∧ Shows drawn x1 y1

section Line

variable {s : Screen} {win : DispWin s} {x0 y0 x1 y1 : Int}

/-- The ends after the exchanges. -/
structure LineEnds (win : DispWin s) (x0 y0 x1 y1 : Int) (steep : Bool) (a b : Int × Int) :
    Prop where
  eq : lineEnds x0 y0 x1 y1 = (steep, a, b)
  slope : |b.2 - a.2| ≤ b.1 - a.1
  first : InsideAlong win steep a.1 a.2
  last : InsideAlong win steep b.1 b.2
  ends : a = along steep x0 y0 ∧ b = along steep x1 y1 ∨
    a = along steep x1 y1 ∧ b = along steep x0 y0

theorem insideAlong_along {steep : Bool} {px py : Int} (h : win.Inside px py) :
    InsideAlong win steep (along steep px py).1 (along steep px py).2 := by
  cases steep with
  | false => exact h
  | true => exact h

theorem lineEnds_spec (h0 : win.Inside x0 y0) (h1 : win.Inside x1 y1) :
    ∃ steep a b, LineEnds win x0 y0 x1 y1 steep a b := by
  have key : ∀ steep : Bool, steep = decide (|x1 - x0| < |y1 - y0|) →
      |(along steep x1 y1).2 - (along steep x0 y0).2| ≤
        |(along steep x1 y1).1 - (along steep x0 y0).1| := by
    intro steep hsteep
    cases steep with
    | false => exact Int.not_lt.mp (of_decide_eq_false hsteep.symm)
    | true => exact Int.le_of_lt (of_decide_eq_true hsteep.symm)
  have hslope := key _ rfl
  have heq : lineEnds x0 y0 x1 y1 =
      if (along (decide (|x1 - x0| < |y1 - y0|)) x0 y0).1 >
          (along (decide (|x1 - x0| < |y1 - y0|)) x1 y1).1 then
        (decide (|x1 - x0| < |y1 - y0|), along (decide (|x1 - x0| < |y1 - y0|)) x1 y1,
          along (decide (|x1 - x0| < |y1 - y0|)) x0 y0)
      else (decide (|x1 - x0| < |y1 - y0|), along (decide (|x1 - x0| < |y1 - y0|)) x0 y0,
        along (decide (|x1 - x0| < |y1 - y0|)) x1 y1) := rfl
  generalize decide (|x1 - x0| < |y1 - y0|) = steep at heq hslope
  by_cases hswap : (along steep x0 y0).1 > (along steep x1 y1).1
  · rw [if_pos hswap] at heq
    refine ⟨steep, _, _, heq, ?_, insideAlong_along h1, insideAlong_along h0,
      .inr ⟨rfl, rfl⟩⟩
    rw [abs_sub_comm]
    refine hslope.trans ?_
    rw [abs_sub_comm, abs_of_nonneg (by omega)]
  · rw [if_neg hswap] at heq
    refine ⟨steep, _, _, heq, ?_, insideAlong_along h0, insideAlong_along h1,
      .inl ⟨rfl, rfl⟩⟩
    refine hslope.trans ?_
    rw [abs_of_nonneg (by omega)]

theorem LineEnds.mem_bresenham {steep : Bool} {a b : Int × Int}
    (h : LineEnds win x0 y0 x1 y1 steep a b) (px py : Int) :
    (px, py) ∈ bresenham x0 y0 x1 y1 ↔
      along steep px py ∈ plotLine a.1 a.2 b.1 b.2 := by
  unfold bresenham
  rw [h.eq]
  dsimp only
  cases steep with
  | false => exact Iff.rfl
  | true =>
    show (px, py) ∈ List.map Prod.swap _ ↔ (py, px) ∈ _
    rw [List.mem_map]
    constructor
    · rintro ⟨p, hp, hswap⟩
      have hp' : p = (py, px) := by
        rw [← Prod.swap_swap p, hswap]
        rfl
      rwa [hp'] at hp
    · exact fun hp => ⟨_, hp, rfl⟩

/-- The pixels of a line that is not a point are in the window, and the two ends are among
    them. -/
theorem LineEnds.plotLine_spec {steep : Bool} {a b : Int × Int}
    (h : LineEnds win x0 y0 x1 y1 steep a b) (hlong : a.1 < b.1) :
    (∀ p ∈ plotLine a.1 a.2 b.1 b.2, InsideAlong win steep p.1 p.2) ∧
      a ∈ plotLine a.1 a.2 b.1 b.2 ∧ b ∈ plotLine a.1 a.2 b.1 b.2 := by
  have hslope := h.slope
  have hpos := abs_nonneg (b.2 - a.2)
  have hcount : ((b.1 - a.1 + 1).toNat : Int) = b.1 - a.1 + 1 := Int.toNat_of_nonneg (by omega)
  obtain ⟨m, hm⟩ : ∃ m : Nat, (b.1 - a.1 + 1).toNat = m + 1 := ⟨(b.1 - a.1).toNat, by omega⟩
  have hstart := onTrack_start |b.2 - a.2| (show 0 < b.1 - a.1 by omega)
  have hrow : a.2 + (if a.2 < b.2 then 1 else -1) * |b.2 - a.2| = b.2 := by
    split
    next hup =>
      rw [abs_of_nonneg (by omega)]
      omega
    next hdown =>
      rw [abs_of_nonpos (by omega)]
      omega
  unfold plotLine
  refine ⟨?_, ?_, ?_⟩
  · intro p hp
    have hbounds := plot_bounds a.1 a.2 (if a.2 < b.2 then 1 else -1)
      (n := (b.1 - a.1 + 1).toNat) hstart ⟨hpos, hslope⟩
      (by omega) p
    rw [Int.add_zero, Int.mul_zero, Int.add_zero] at hbounds
    obtain ⟨k, j, hk, hj, rfl⟩ := hbounds hp
    have hfirst := h.first
    have hlast := h.last
    -- between the two ends in both directions
    have hbetween : (a.2 ≤ a.2 + (if a.2 < b.2 then 1 else -1) * j ∧
          a.2 + (if a.2 < b.2 then 1 else -1) * j ≤ b.2) ∨
        (b.2 ≤ a.2 + (if a.2 < b.2 then 1 else -1) * j ∧
          a.2 + (if a.2 < b.2 then 1 else -1) * j ≤ a.2) := by
      by_cases hup : a.2 < b.2
      · rw [if_pos hup] at hrow ⊢
        exact .inl (by omega)
      · rw [if_neg hup] at hrow ⊢
        exact .inr (by omega)
    generalize a.2 + (if a.2 < b.2 then 1 else -1) * j = row at hbetween
    cases steep with
    | false =>
      unfold InsideAlong DispWin.Inside at *
      simp only [Bool.false_eq_true, if_false] at *
      omega
    | true =>
      unfold InsideAlong DispWin.Inside at *
      simp only [if_true] at *
      omega
  · rw [hm]
    exact List.mem_cons_self
  · have hlast := plot_last a.1 a.2 (if a.2 < b.2 then 1 else -1) (n := m) hstart
      ⟨hpos, hslope⟩ (by omega)
    rw [Int.add_zero, Int.mul_zero, Int.add_zero, hrow] at hlast
    have hcol : a.1 + (b.1 - a.1) = b.1 := by omega
    rw [hcol] at hlast
    rw [hm]
    exact hlast

/-- In the general case the runs are the line. -/
theorem drawsLine_runs (h0 : win.Inside x0 y0) (h1 : win.Inside x1 y1) (hx : x0 ≠ x1)
    (hy : y0 ≠ y1) (color : BitVec 16) : DrawsLine win x0 y0 x1 y1 color := by
  obtain ⟨steep, a, b, h⟩ := lineEnds_spec h0 h1
  have hslope := h.slope
  have hfirst := h.first.bounds
  have hlast := h.last.bounds
  have hpos := abs_nonneg (b.2 - a.2)
  have hlong : a.1 < b.1 := by
    by_contra hpoint
    have hzero : |b.2 - a.2| = 0 := by omega
    have hrow := abs_eq_zero.mp hzero
    rcases h.ends with ⟨ha, hb⟩ | ⟨ha, hb⟩
    · rw [ha, hb] at hrow
      cases steep with
      | false => exact hy (Int.sub_eq_zero.mp hrow).symm
      | true => exact hx (Int.sub_eq_zero.mp hrow).symm
    · rw [ha, hb] at hrow
      cases steep with
      | false => exact hy (Int.sub_eq_zero.mp hrow)
      | true => exact hx (Int.sub_eq_zero.mp hrow)
  obtain ⟨hin, hamem, hbmem⟩ := h.plotLine_spec hlong
  have hrows : |b.2 - a.2| < 320 := by omega
  have hdx16 : int16 (b.1 - a.1) = b.1 - a.1 := int16_eq (by omega) (by omega)
  have hdy16 : int16 |b.2 - a.2| = |b.2 - a.2| := int16_eq (by omega) (by omega)
  obtain ⟨l, hrounds, hend, hshows⟩ := drawRuns_rounds steep color
    (b.1 - a.1) |b.2 - a.2| (if a.2 < b.2 then 1 else -1) b.1 (by omega)
    ⟨hpos, hslope⟩ (by split; exact .inl rfl; exact .inr rfl) (b.1 - a.1 + 1).toNat a.1 a.2
    ((b.1 - a.1) / 2) a.1 [] (by omega) (by omega) (by omega) (Int.le_refl _) hin
    (fun hlt => absurd hlt (Int.lt_irrefl _))
  have hpixels : ∀ px py, Shows (lineRest win steep color l) px py ↔
      (px, py) ∈ bresenham x0 y0 x1 y1 := by
    intro px py
    rw [hshows, h.mem_bresenham, or_iff_right not_shows_nil]
    refine or_iff_right ?_
    rintro ⟨hnone, -⟩
    omega
  refine ⟨lineRest win steep color l, ⟨(b.1 - a.1 + 1).toNat, ?_⟩, hpixels, ?_, ?_⟩
  · intro fuel hfuel
    rw [Int.sub_self] at hrounds
    have hloop := hrounds.whileLoop_eq hend hfuel
    unfold drawLine drawRuns
    rw [if_neg hx, if_neg hy, h.eq]
    dsimp only
    rw [hdx16, hdy16, hloop, ok_bind, pure_eq_ok]
  · rw [hpixels, h.mem_bresenham]
    rcases h.ends with ⟨ha, hb⟩ | ⟨ha, hb⟩
    · rw [← ha]
      exact hamem
    · rw [← hb]
      exact hbmem
  · rw [hpixels, h.mem_bresenham]
    rcases h.ends with ⟨ha, hb⟩ | ⟨ha, hb⟩
    · rw [← hb]
      exact hbmem
    · rw [← ha]
      exact hamem

/-- What lies in the window is not cut. -/
theorem clipAxis_whole {lo hi a n : Int} (ha : lo ≤ a) (hn : 0 ≤ n) (hend : a + n ≤ hi + 1) :
    clipAxis lo hi a n = (a, if n = 0 then 1 else n) := by
  unfold clipAxis
  simp only [if_neg (Int.not_lt.mpr ha), if_neg (Int.not_lt.mpr hn), if_neg (Int.not_lt.mpr hend),
    gt_iff_lt]

/-- A line of no pixels is drawn as one. -/
theorem drawFastVLine_zero {x y : Int} (hin : win.Inside x y) (color : BitVec 16) :
    drawFastVLine win (arg16 x) (arg16 y) (arg16 0) color =
      drawFastVLine win (arg16 x) (arg16 y) (arg16 1) color := by
  have hbounds := win.inside_bounds hin
  have hx : (arg16 x).toInt = x := arg16_toInt (by omega) (by omega)
  have hy : (arg16 y).toInt = y := arg16_toInt (by omega) (by omega)
  have hclip : clipAxis win.y1 win.y2 y 0 = clipAxis win.y1 win.y2 y 1 := by
    unfold DispWin.Inside at hin
    rw [clipAxis_whole (by omega) (by omega) (by omega),
      clipAxis_whole (by omega) (by omega) (by omega)]
    rfl
  have hzero : (arg16 0).toInt = 0 := by decide
  have hone : (arg16 1).toInt = 1 := by decide
  unfold drawFastVLine
  rw [hx, hy, hzero, hone, hclip]

/-- A point is drawn by the shortcut for vertical lines. -/
theorem drawsLine_point (h0 : win.Inside x0 y0) (color : BitVec 16) :
    DrawsLine win x0 y0 x0 y0 color := by
  have hshows : ∀ px py,
      Shows [drawFastVLine win (arg16 x0) (arg16 y0) (arg16 (y0 - y0)) color] px py ↔
        px = x0 ∧ py = y0 := by
    intro px py
    have hlast : win.Inside x0 (y0 + 1 - 1) := by rwa [Int.add_sub_cancel]
    rw [shows_singleton, Int.sub_self, drawFastVLine_zero h0,
      drawFastVLine_shows h0 hlast Int.one_pos]
    omega
  have hline : bresenham x0 y0 x0 y0 = [(x0, y0)] := by
    have hends : lineEnds x0 y0 x0 y0 = (false, (x0, y0), x0, y0) := by
      unfold lineEnds
      rw [Int.sub_self, Int.sub_self, decide_eq_false (Int.lt_irrefl _)]
      exact if_neg (Int.lt_irrefl _)
    unfold bresenham plotLine
    rw [hends]
    dsimp only
    rw [Int.sub_self, Int.sub_self]
    rfl
  refine ⟨_, ⟨0, fun fuel _ => ?_⟩, ?_, (hshows x0 y0).mpr ⟨rfl, rfl⟩,
    (hshows x0 y0).mpr ⟨rfl, rfl⟩⟩
  · unfold drawLine
    rw [if_pos rfl, if_pos (Int.le_refl _)]
    rfl
  · intro px py
    rw [hshows, hline, List.mem_singleton, Prod.mk.injEq]

/-- A vertical line stops before its lower end. -/
theorem not_drawsLine_vertical (h0 : win.Inside x0 y0) (h1 : win.Inside x0 y1) (hy : y0 ≠ y1)
    (color : BitVec 16) : ¬ DrawsLine win x0 y0 x0 y1 color := by
  rintro ⟨drawn, ⟨n, hrun⟩, -, hshow0, hshow1⟩
  have hdrawn := hrun (n + 1) (Nat.lt_succ_self n)
  unfold drawLine at hdrawn
  rw [if_pos rfl] at hdrawn
  by_cases hle : y0 ≤ y1
  · rw [if_pos hle] at hdrawn
    obtain rfl := Except.ok.inj hdrawn
    have hlast : win.Inside x0 (y0 + (y1 - y0) - 1) := by
      unfold DispWin.Inside at *
      omega
    rw [shows_singleton, drawFastVLine_shows h0 hlast (by omega)] at hshow1
    omega
  · rw [if_neg hle] at hdrawn
    obtain rfl := Except.ok.inj hdrawn
    have hlast : win.Inside x0 (y1 + (y0 - y1) - 1) := by
      unfold DispWin.Inside at *
      omega
    rw [shows_singleton, drawFastVLine_shows h1 hlast (by omega)] at hshow0
    omega

/-- A horizontal line stops before its right end. -/
theorem not_drawsLine_horizontal (h0 : win.Inside x0 y0) (h1 : win.Inside x1 y0) (hx : x0 ≠ x1)
    (color : BitVec 16) : ¬ DrawsLine win x0 y0 x1 y0 color := by
  rintro ⟨drawn, ⟨n, hrun⟩, -, hshow0, hshow1⟩
  have hdrawn := hrun (n + 1) (Nat.lt_succ_self n)
  unfold drawLine at hdrawn
  rw [if_neg hx, if_pos rfl] at hdrawn
  by_cases hle : x0 ≤ x1
  · rw [if_pos hle] at hdrawn
    obtain rfl := Except.ok.inj hdrawn
    have hlast : win.Inside (x0 + (x1 - x0) - 1) y0 := by
      unfold DispWin.Inside at *
      omega
    rw [shows_singleton, drawFastHLine_shows h0 hlast (by omega)] at hshow1
    omega
  · rw [if_neg hle] at hdrawn
    obtain rfl := Except.ok.inj hdrawn
    have hlast : win.Inside (x1 + (x0 - x1) - 1) y0 := by
      unfold DispWin.Inside at *
      omega
    rw [shows_singleton, drawFastHLine_shows h1 hlast (by omega)] at hshow0
    omega

end Line

/-- A line in the window is drawn just where it takes neither shortcut, or is a point. -/
theorem drawsLine_iff {s : Screen} (win : DispWin s) (x0 y0 x1 y1 : Int) (color : BitVec 16)
    (h0 : win.Inside x0 y0) (h1 : win.Inside x1 y1) :
    DrawsLine win x0 y0 x1 y1 color ↔ (x0 ≠ x1 ∧ y0 ≠ y1) ∨ (x0 = x1 ∧ y0 = y1) := by
  constructor
  · intro hdraws
    by_cases hx : x0 = x1
    · by_cases hy : y0 = y1
      · exact .inr ⟨hx, hy⟩
      · rw [← hx] at hdraws h1
        exact absurd hdraws (not_drawsLine_vertical h0 h1 hy color)
    · by_cases hy : y0 = y1
      · rw [← hy] at hdraws h1
        exact absurd hdraws (not_drawsLine_horizontal h0 h1 hx color)
      · exact .inl ⟨hx, hy⟩
  · rintro (⟨hx, hy⟩ | ⟨rfl, rfl⟩)
    · exact drawsLine_runs h0 h1 hx hy color
    · exact drawsLine_point h0 color

theorem drawsLine_iff_slope :
    DrawsLine wholeScreen 10 20 3 40 0xffff ↔
      ((10 : Int) ≠ 3 ∧ (20 : Int) ≠ 40) ∨ ((10 : Int) = 3 ∧ (20 : Int) = 40) :=
  drawsLine_iff wholeScreen 10 20 3 40 0xffff ⟨by decide, by decide, by decide, by decide⟩
    ⟨by decide, by decide, by decide, by decide⟩

/-- The row from column 3 to column 7: the pixel in column 7 is missing. -/
theorem not_drawsLine_row : wholeScreen.Inside 3 5 ∧ wholeScreen.Inside 7 5 ∧
    (7, 5) ∈ bresenham 3 5 7 5 ∧ ¬ DrawsLine wholeScreen 3 5 7 5 0xffff := by
  have h0 : wholeScreen.Inside 3 5 := ⟨by decide, by decide, by decide, by decide⟩
  have h1 : wholeScreen.Inside 7 5 := ⟨by decide, by decide, by decide, by decide⟩
  exact ⟨h0, h1, by decide, not_drawsLine_horizontal h0 h1 (by decide) 0xffff⟩

end LuaRtos.Tft
