/-
  LuaRtos.Tft.Ellipse

  TFT_draw_ellipse and TFT_draw_filled_ellipse of Lua/modules/screen/tft.c, for the radii that
  tft.ellipse takes.

  Both functions have the same two loops, and the second loop is the first with the axes
  exchanged: `u` is the variable that falls and `v` the one that rises.  The variables are of
  `int32_t` but for the two coordinates, which are of `uint16_t`.
-/

import LuaRtos.CLib.Cycle
import LuaRtos.Tft.Draw
import LuaRtos.Tft.EllipseScan

namespace LuaRtos.Tft

open LuaRtos.CLib

/-! ## The code -/

section Sections

variable {s : Screen} (win : DispWin s)

/-- `TFT_draw_ellipse_section`. -/
def drawEllipseSection (x y : Int) (x0 y0 color : BitVec 16) (option : BitVec 8) :
    List (Option Sent) :=
  (if option &&& 0x01 ≠ 0 then
    [drawPixel win (arg16 (x0.toNat + x)) (arg16 (y0.toNat - y)) color] else []) ++
  (if option &&& 0x02 ≠ 0 then
    [drawPixel win (arg16 (x0.toNat - x)) (arg16 (y0.toNat - y)) color] else []) ++
  (if option &&& 0x08 ≠ 0 then
    [drawPixel win (arg16 (x0.toNat + x)) (arg16 (y0.toNat + y)) color] else []) ++
  (if option &&& 0x04 ≠ 0 then
    [drawPixel win (arg16 (x0.toNat - x)) (arg16 (y0.toNat + y)) color] else [])

/-- `TFT_draw_filled_ellipse_section`. -/
def drawFilledEllipseSection (x y : Int) (x0 y0 color : BitVec 16) (option : BitVec 8) :
    List (Option Sent) :=
  (if option &&& 0x01 ≠ 0 then
    [drawFastVLine win (arg16 (x0.toNat + x)) (arg16 (y0.toNat - y)) (arg16 (y + 1)) color]
    else []) ++
  (if option &&& 0x02 ≠ 0 then
    [drawFastVLine win (arg16 (x0.toNat - x)) (arg16 (y0.toNat - y)) (arg16 (y + 1)) color]
    else []) ++
  (if option &&& 0x08 ≠ 0 then
    [drawFastVLine win (arg16 (x0.toNat + x)) y0 (arg16 (y + 1)) color] else []) ++
  (if option &&& 0x04 ≠ 0 then
    [drawFastVLine win (arg16 (x0.toNat - x)) y0 (arg16 (y + 1)) color] else [])

end Sections

/-- The variables of a loop, and the points it drew. -/
structure SideState where
  u : Int
  v : Int
  stopu : Int
  stopv : Int
  uchg : Int
  vchg : Int
  err : Int
  points : List (Int × Int)

/-- A round of either loop. -/
def sideRound (uu2 vv2 : Int) (l : SideState) : Result SideState := do
  let stopv ← int32 (l.stopv + uu2)
  let err ← int32 (l.err + l.vchg)
  let vchg ← int32 (l.vchg + uu2)
  let twice ← int32 (2 * err)
  let test ← int32 (twice + l.uchg)
  if test > 0 then do
    let stopu ← int32 (l.stopu - vv2)
    let err ← int32 (err + l.uchg)
    let uchg ← int32 (l.uchg + vv2)
    pure ⟨uint16 (l.u - 1), uint16 (l.v + 1), stopu, stopv, uchg, vchg, err,
      l.points ++ [(l.u, l.v)]⟩
  else
    pure ⟨l.u, uint16 (l.v + 1), l.stopu, stopv, l.uchg, vchg, err, l.points ++ [(l.u, l.v)]⟩

/-- A loop with what is set before it. -/
def ellipseSide (fuel : Nat) (ru rv uu2 vv2 : Int) : Result (List (Int × Int)) := do
  let uchg ← int32 ((1 - ru - ru) * rv)
  let uchg ← int32 (uchg * rv)
  let vchg ← int32 (ru * ru)
  let stopu ← int32 (vv2 * ru)
  let l ← whileLoop (fun l => decide (l.stopu ≥ l.stopv)) (sideRound uu2 vv2) fuel
    ⟨ru, 0, stopu, 0, uchg, vchg, 0, []⟩
  pure l.points

/-- The points of both loops. -/
def ellipsePoints (fuel : Nat) (rx ry : BitVec 16) : Result (List (Int × Int)) := do
  let rxrx2 ← int32 (rx.toNat * rx.toNat)
  let rxrx2 ← int32 (rxrx2 * 2)
  let ryry2 ← int32 (ry.toNat * ry.toNat)
  let ryry2 ← int32 (ryry2 * 2)
  let first ← ellipseSide fuel rx.toNat ry.toNat rxrx2 ryry2
  let second ← ellipseSide fuel ry.toNat rx.toNat ryry2 rxrx2
  pure (first ++ second.map Prod.swap)

section Code

variable {s : Screen} (win : DispWin s)

/-- `TFT_draw_ellipse`. -/
def drawEllipse (fuel : Nat) (x0 y0 rx ry color : BitVec 16) (option : BitVec 8) :
    Result (List (Option Sent)) := do
  let points ← ellipsePoints fuel rx ry
  pure (points.flatMap fun p => drawEllipseSection win p.1 p.2 x0 y0 color option)

/-- `TFT_draw_filled_ellipse`. -/
def drawFilledEllipse (fuel : Nat) (x0 y0 rx ry color : BitVec 16) (option : BitVec 8) :
    Result (List (Option Sent)) := do
  let points ← ellipsePoints fuel rx ry
  pure (points.flatMap fun p => drawFilledEllipseSection win p.1 p.2 x0 y0 color option)

end Code

/-- Both functions end, without an overflow, and draw the sections of points in the quadrant. -/
def DrawsEllipse (rx ry : BitVec 16) : Prop :=
  ∃ points : List (Int × Int),
    (∀ p ∈ points, (0 ≤ p.1 ∧ p.1 ≤ rx.toNat) ∧ 0 ≤ p.2 ∧ p.2 ≤ ry.toNat) ∧
    ∃ n, ∀ fuel > n, ∀ (s : Screen) (win : DispWin s) (x0 y0 color : BitVec 16)
      (option : BitVec 8),
      drawEllipse win fuel x0 y0 rx ry color option =
          .ok (points.flatMap fun p => drawEllipseSection win p.1 p.2 x0 y0 color option) ∧
        drawFilledEllipse win fuel x0 y0 rx ry color option =
          .ok (points.flatMap fun p => drawFilledEllipseSection win p.1 p.2 x0 y0 color option)

/-- The error at the point above each pixel of the steep part, doubled, is an `int`, and with the
    change of `u` as well. -/
def OctantFits (a b : Int) : Prop :=
  ∀ u v : Nat, EllipsePixel (a * a) (b * b) a u v → Steep (a * a) (b * b) u v →
    2 * curve (a * a) (b * b) u (v + 1) ≤ 2147483647 ∧
      -2147483648 ≤ middle (a * a) (b * b) u (v + 1)

/-- What the two functions need of the radii. -/
structure EllipseFits (a b : Int) : Prop where
  nonzero : a ≠ 0 ∨ b ≠ 0
  squares : 3 * (a * a) ≤ 2147483647 ∧ 3 * (b * b) ≤ 2147483647
  products : b * b * 2 * a ≤ 2147483647 ∧ a * a * 2 * b ≤ 2147483647
  first : OctantFits a b
  second : OctantFits b a

/-! ## The loops -/

section Loops

variable {A B a : Int}

/-- The state in a row of the scan. -/
def sideState (A B a : Int) (k : Nat) (points : List (Int × Int)) : SideState :=
  ⟨uint16 (column A B a k), uint16 k, B * 2 * column A B a k, A * 2 * k,
    B * (1 - 2 * column A B a k), A * (2 * k + 1), curve A B (column A B a k) k, points⟩

/-- What a round computes fits. -/
structure RoundFits (A B u v : Int) : Prop where
  stopv : Int32 (A * 2 * (v + 1))
  err : Int32 (curve A B u (v + 1))
  vchg : Int32 (A * (2 * v + 3))
  twice : Int32 (2 * curve A B u (v + 1))
  test : Int32 (middle A B u (v + 1))
  left : 0 < middle A B u (v + 1) →
    Int32 (B * 2 * (u - 1)) ∧ Int32 (curve A B (u - 1) (v + 1)) ∧ Int32 (B * (3 - 2 * u))

theorem uint16_uint16_add (z w : Int) : uint16 (uint16 z + w) = uint16 (z + w) := by
  unfold uint16
  omega

theorem column_succ (A B a : Int) (k : Nat) : column A B a (k + 1) =
    if 0 < middle A B (column A B a k) (k + 1) then column A B a k - 1 else column A B a k := rfl

/-- A round comes through where all of it fits, and leads to the next row. -/
theorem sideRound_ok (A B a : Int) (k : Nat) (points : List (Int × Int)) (l : SideState) :
    sideRound (A * 2) (B * 2) (sideState A B a k points) = .ok l ↔
      RoundFits A B (column A B a k) k ∧ l = sideState A B a (k + 1)
        (points ++ [(uint16 (column A B a k), uint16 k)]) := by
  have hnext := column_succ A B a k
  have hcast : ((k + 1 : Nat) : Int) = (k : Int) + 1 := rfl
  have hstate : ∀ points, sideState A B a (k + 1) points =
      ⟨uint16 (column A B a (k + 1)), uint16 ((k : Int) + 1), B * 2 * column A B a (k + 1),
        A * 2 * ((k : Int) + 1), B * (1 - 2 * column A B a (k + 1)), A * (2 * ((k : Int) + 1) + 1),
        curve A B (column A B a (k + 1)) ((k : Int) + 1), points⟩ := fun _ => rfl
  rw [hstate, hnext]
  unfold sideRound sideState
  dsimp only
  generalize column A B a k = u
  have hstop : A * 2 * (k : Int) + A * 2 = A * 2 * ((k : Int) + 1) := by ring
  have herr : curve A B u k + A * (2 * k + 1) = curve A B u (k + 1) := (curve_up A B u k).symm
  have hvchg : A * (2 * (k : Int) + 1) + A * 2 = A * (2 * (k : Int) + 3) := by ring
  have hvchg' : A * (2 * ((k : Int) + 1) + 1) = A * (2 * (k : Int) + 3) := by ring
  have htest : 2 * curve A B u (k + 1) + B * (1 - 2 * u) = middle A B u (k + 1) := rfl
  have hstopu : B * 2 * u - B * 2 = B * 2 * (u - 1) := by ring
  have herr' : curve A B u (k + 1) + B * (1 - 2 * u) = curve A B (u - 1) (k + 1) :=
    (curve_left A B u (k + 1)).symm
  have huchg : B * (1 - 2 * u) + B * 2 = B * (3 - 2 * u) := by ring
  have huchg' : B * (1 - 2 * (u - 1)) = B * (3 - 2 * u) := by ring
  rw [hstop, herr, hvchg, hvchg']
  constructor
  · intro hrun
    obtain ⟨stopv, hstopv, hrun⟩ := bind_eq_ok.mp hrun
    obtain ⟨err, herrv, hrun⟩ := bind_eq_ok.mp hrun
    obtain ⟨vchg, hvchgv, hrun⟩ := bind_eq_ok.mp hrun
    obtain ⟨twice, htwice, hrun⟩ := bind_eq_ok.mp hrun
    obtain ⟨test, htestv, hrun⟩ := bind_eq_ok.mp hrun
    obtain ⟨hfits1, rfl⟩ := int32_ok.mp hstopv
    obtain ⟨hfits2, rfl⟩ := int32_ok.mp herrv
    obtain ⟨hfits3, rfl⟩ := int32_ok.mp hvchgv
    obtain ⟨hfits4, rfl⟩ := int32_ok.mp htwice
    obtain ⟨hfits5, rfl⟩ := int32_ok.mp htestv
    rw [htest] at hfits5 hrun
    by_cases hleft : 0 < middle A B u (k + 1)
    · rw [if_pos hleft] at hrun ⊢
      obtain ⟨stopu, hstopuv, hrun⟩ := bind_eq_ok.mp hrun
      obtain ⟨err, herrv, hrun⟩ := bind_eq_ok.mp hrun
      obtain ⟨uchg, huchgv, hrun⟩ := bind_eq_ok.mp hrun
      obtain ⟨hfits6, rfl⟩ := int32_ok.mp hstopuv
      obtain ⟨hfits7, rfl⟩ := int32_ok.mp herrv
      obtain ⟨hfits8, rfl⟩ := int32_ok.mp huchgv
      rw [hstopu] at hfits6 hrun
      rw [herr'] at hfits7 hrun
      rw [huchg] at hfits8 hrun
      refine ⟨⟨hfits1, hfits2, hfits3, hfits4, hfits5, fun _ => ⟨hfits6, hfits7, hfits8⟩⟩, ?_⟩
      obtain rfl := Except.ok.inj hrun
      rw [huchg', sub_eq_add_neg, uint16_uint16_add, uint16_uint16_add, ← sub_eq_add_neg]
    · rw [if_neg hleft] at hrun ⊢
      refine ⟨⟨hfits1, hfits2, hfits3, hfits4, hfits5, fun h => absurd h hleft⟩, ?_⟩
      obtain rfl := Except.ok.inj hrun
      rw [uint16_uint16_add]
  · rintro ⟨⟨hfits1, hfits2, hfits3, hfits4, hfits5, hfits6⟩, rfl⟩
    rw [int32_of_fits hfits1, ok_bind, int32_of_fits hfits2, ok_bind, int32_of_fits hfits3, ok_bind,
      int32_of_fits hfits4, ok_bind, htest, int32_of_fits hfits5, ok_bind]
    by_cases hleft : 0 < middle A B u (k + 1)
    · obtain ⟨hfits6, hfits7, hfits8⟩ := hfits6 hleft
      rw [if_pos hleft, if_pos hleft, hstopu, herr', huchg, int32_of_fits hfits6, ok_bind,
        int32_of_fits hfits7, ok_bind, int32_of_fits hfits8, ok_bind, huchg', sub_eq_add_neg,
        uint16_uint16_add, uint16_uint16_add, ← sub_eq_add_neg]
      rfl
    · rw [if_neg hleft, if_neg hleft, uint16_uint16_add]
      rfl

/-- The points of so many rows. -/
def scanPoints (A B a : Int) (k n : Nat) : List (Int × Int) :=
  (List.range' k n).map fun j => (uint16 (column A B a j), uint16 j)

/-- The loop ends at the first row where the curve is not steep, if all rows fit. -/
theorem sideLoop_ends (A B a : Int) {last : Nat}
    (hsteep : ∀ k < last, Steep A B (column A B a k) k)
    (hlast : ¬ Steep A B (column A B a last) last) (n k : Nat) (hn : k + n = last)
    (points : List (Int × Int)) (l : SideState) :
    Ends (fun l => decide (l.stopu ≥ l.stopv)) (sideRound (A * 2) (B * 2))
        (sideState A B a k points) l ↔
      (∀ j, k ≤ j → j < last → RoundFits A B (column A B a j) j) ∧
        l = sideState A B a last (points ++ scanPoints A B a k n) := by
  have hcond : ∀ k : Nat, A * 2 * (k : Int) ≤ B * 2 * column A B a k ↔
      Steep A B (column A B a k) k := by
    intro k
    have hleft : A * 2 * (k : Int) = 2 * (A * k) := by ring
    have hright : B * 2 * column A B a k = 2 * (B * column A B a k) := by ring
    unfold Steep
    rw [hleft, hright]
    omega
  induction n generalizing k points with
  | zero =>
    obtain rfl : k = last := hn
    refine Iff.trans (ends_of_done ?_) ?_
    · exact decide_eq_false (mt (hcond k).mp hlast)
    have hnil : points ++ scanPoints A B a k 0 = points := List.append_nil points
    rw [hnil]
    constructor
    · rintro rfl
      exact ⟨fun j hj hj' => absurd hj' (by omega), rfl⟩
    · exact fun h => h.2
  | succ n ih =>
    refine Iff.trans (ends_of_cond ?_) ?_
    · exact decide_eq_true ((hcond k).mpr (hsteep k (by omega)))
    have hpoints : ∀ points : List (Int × Int), points ++ [(uint16 (column A B a k), uint16 k)] ++
        scanPoints A B a (k + 1) n = points ++ scanPoints A B a k (n + 1) := by
      intro points
      rw [List.append_assoc]
      rfl
    have hrest := ih (k + 1) (by omega) (points ++ [(uint16 (column A B a k), uint16 k)])
    rw [hpoints] at hrest
    constructor
    · rintro ⟨l₁, hround, hends⟩
      obtain ⟨hfits, rfl⟩ := (sideRound_ok A B a k points l₁).mp hround
      obtain ⟨hall, heq⟩ := hrest.mp hends
      refine ⟨?_, heq⟩
      intro j hj hj'
      by_cases hfirst : j = k
      · rwa [hfirst]
      · exact hall j (by omega) hj'
    · rintro ⟨hall, heq⟩
      refine ⟨_, (sideRound_ok A B a k points _).mpr ⟨hall k (Nat.le_refl k) (by omega), rfl⟩, ?_⟩
      exact hrest.mpr ⟨fun j hj hj' => hall j (by omega) hj', heq⟩

end Loops

/-! ## One side -/

section Side

variable {a b : Int} {u v : Int}

/-- Without a radius along `u` the first step ends the steep part. -/
theorem not_steep_zero (hb : 0 < b) :
    ¬ Steep (0 * 0) (b * b) (column (0 * 0) (b * b) 0 1) ((1 : Nat) : Int) := by
  have hB : 0 < b * b := Int.mul_pos hb hb
  have hmiddle : middle (0 * 0) (b * b) 0 (0 + 1) = b * b := by
    unfold middle curve
    ring
  rw [column_succ]
  show ¬ Steep _ _ (if 0 < middle (0 * 0) (b * b) 0 (0 + 1) then (0 : Int) - 1 else 0) 1
  rw [hmiddle, if_pos hB]
  unfold Steep
  omega

/-- The steep part has an end, but where both radii are zero. -/
theorem exists_last (ha : 0 ≤ a) (hb : 0 ≤ b) (hne : a ≠ 0 ∨ b ≠ 0) :
    ∃ last : Nat, (∀ k < last, Steep (a * a) (b * b) (column (a * a) (b * b) a k) k) ∧
      ¬ Steep (a * a) (b * b) (column (a * a) (b * b) a last) last := by
  classical
  have hends : ∃ k : Nat, ¬ Steep (a * a) (b * b) (column (a * a) (b * b) a k) k := by
    rcases Int.lt_or_eq_of_le ha with hpos | hzero
    · by_contra hall
      have hsteep : ∀ k : Nat, Steep (a * a) (b * b) (column (a * a) (b * b) a k) k :=
        fun k => not_not.mp (not_exists.mp hall k)
      -- the row above the quadrant would have a pixel
      have hpixel := column_pixel hpos rfl (mul_self_nonneg b) (b.toNat + 1) (fun k _ => hsteep k)
      have hbounds := (hpixel.bounds hpos rfl hb rfl (by omega) (hsteep _)).1
      omega
    · subst hzero
      exact ⟨1, not_steep_zero (show 0 < b by omega)⟩
  refine ⟨Nat.find hends, ?_, Nat.find_spec hends⟩
  intro k hk
  exact not_not.mp (Nat.find_min hends hk)

/-- What is computed before a loop fits. -/
structure SetFits (a b : Int) : Prop where
  once : Int32 ((1 - a - a) * b)
  uchg : Int32 ((1 - a - a) * b * b)
  vchg : Int32 (a * a)
  stopu : Int32 (b * b * 2 * a)

theorem sideState_start (ha : 0 ≤ a) (ha' : a < 65536) :
    sideState (a * a) (b * b) a 0 [] =
      ⟨a, 0, b * b * 2 * a, 0, (1 - a - a) * b * b, a * a, 0, []⟩ := by
  have hu : uint16 a = a := Int.emod_eq_of_lt ha ha'
  have hstopv : a * a * 2 * ((0 : Nat) : Int) = 0 := Int.mul_zero _
  have huchg : b * b * (1 - 2 * a) = (1 - a - a) * b * b := by ring
  have hvchg : a * a * (2 * ((0 : Nat) : Int) + 1) = a * a := Int.mul_one _
  have herr : curve (a * a) (b * b) a ((0 : Nat) : Int) = 0 := by
    unfold curve
    rw [Int.natCast_zero]
    ring
  unfold sideState
  rw [column, hu, hstopv, huchg, hvchg, herr]
  rfl

/-- A side is drawn just where the rounds up to the last fit. -/
theorem ellipseSide_iff (ha : 0 ≤ a) (ha' : a < 65536) {last : Nat}
    (hsteep : ∀ k < last, Steep (a * a) (b * b) (column (a * a) (b * b) a k) k)
    (hlast : ¬ Steep (a * a) (b * b) (column (a * a) (b * b) a last) last) :
    ((∃ fuel points, ellipseSide fuel a b (a * a * 2) (b * b * 2) = .ok points) →
      SetFits a b ∧ ∀ k < last, RoundFits (a * a) (b * b) (column (a * a) (b * b) a k) k) ∧
    (SetFits a b ∧ (∀ k < last, RoundFits (a * a) (b * b) (column (a * a) (b * b) a k) k) →
      ∃ n, ∀ fuel > n, ellipseSide fuel a b (a * a * 2) (b * b * 2) =
        .ok (scanPoints (a * a) (b * b) a 0 last)) := by
  have hloop := sideLoop_ends (a * a) (b * b) a hsteep hlast last 0 (Nat.zero_add last) []
  rw [sideState_start ha ha'] at hloop
  constructor
  · rintro ⟨fuel, points, hrun⟩
    obtain ⟨once, honce, hrun⟩ := bind_eq_ok.mp hrun
    obtain ⟨uchg, huchg, hrun⟩ := bind_eq_ok.mp hrun
    obtain ⟨vchg, hvchg, hrun⟩ := bind_eq_ok.mp hrun
    obtain ⟨stopu, hstopu, hrun⟩ := bind_eq_ok.mp hrun
    obtain ⟨l, hl, -⟩ := bind_eq_ok.mp hrun
    obtain ⟨hfits1, rfl⟩ := int32_ok.mp honce
    obtain ⟨hfits2, rfl⟩ := int32_ok.mp huchg
    obtain ⟨hfits3, rfl⟩ := int32_ok.mp hvchg
    obtain ⟨hfits4, rfl⟩ := int32_ok.mp hstopu
    refine ⟨⟨hfits1, hfits2, hfits3, hfits4⟩, fun k hk => ?_⟩
    exact ((hloop l).mp ⟨fuel, hl⟩).1 k (Nat.zero_le k) hk
  · rintro ⟨hset, hrounds⟩
    obtain ⟨n, hn⟩ := ((hloop _).mpr ⟨fun k _ hk => hrounds k hk, rfl⟩).fuel
    refine ⟨n, fun fuel hfuel => ?_⟩
    rw [ellipseSide, int32_of_fits hset.once, ok_bind, int32_of_fits hset.uchg, ok_bind,
      int32_of_fits hset.vchg, ok_bind, int32_of_fits hset.stopu, ok_bind, hn fuel hfuel]
    rfl

/-- With both radii zero the loop does not end: the two products stay equal. -/
theorem ellipseSide_zero (fuel : Nat) (points : List (Int × Int)) :
    ellipseSide fuel 0 0 (0 * 0 * 2) (0 * 0 * 2) ≠ .ok points := by
  intro hrun
  obtain ⟨once, honce, hrun⟩ := bind_eq_ok.mp hrun
  obtain ⟨uchg, huchg, hrun⟩ := bind_eq_ok.mp hrun
  obtain ⟨vchg, hvchg, hrun⟩ := bind_eq_ok.mp hrun
  obtain ⟨stopu, hstopu, hrun⟩ := bind_eq_ok.mp hrun
  obtain ⟨l, hl, -⟩ := bind_eq_ok.mp hrun
  obtain ⟨-, rfl⟩ := int32_ok.mp honce
  obtain ⟨-, rfl⟩ := int32_ok.mp huchg
  obtain ⟨-, rfl⟩ := int32_ok.mp hvchg
  obtain ⟨-, rfl⟩ := int32_ok.mp hstopu
  obtain ⟨hrounds, hend⟩ := Ends.rounds ⟨fuel, hl⟩
  have hinv := hrounds.invariant
    (fun l => l.stopu = 0 ∧ l.stopv = 0 ∧ l.uchg = 0 ∧ l.vchg = 0 ∧ l.err = 0) ?_
    ⟨rfl, rfl, rfl, rfl, rfl⟩
  · have hdone : ¬ l.stopu ≥ l.stopv := of_decide_eq_false hend
    omega
  · rintro l l' ⟨h1, h2, h3, h4, h5⟩ hround
    unfold sideRound at hround
    rw [h1, h2, h3, h4, h5] at hround
    obtain rfl := Except.ok.inj hround
    exact ⟨rfl, rfl, rfl, rfl, rfl⟩

end Side

/-! ## What fits -/

section Fits

variable {a b u v : Int}

/-- Few rows and a square that they bound. -/
theorem vchg_small {A : Int} (hsquare : A * (b - 1) ^ 2 ≤ 4 * (b * b) * b) (hlow : 2 ≤ b)
    (hhigh : b ≤ 5) : A * (2 * (b - 1) + 3) ≤ 5500 := by
  have hcases : b = 2 ∨ b = 3 ∨ b = 4 ∨ b = 5 := by omega
  rcases hcases with rfl | rfl | rfl | rfl
  · omega
  · omega
  · omega
  · omega

/-- The change of `v` stays below the products of the radii. -/
theorem vchg_fits (ha : 1 ≤ a) (hb : 0 ≤ b) (h : EllipsePixel (a * a) (b * b) a u v)
    (hv : 0 ≤ v) (hsteep : Steep (a * a) (b * b) u v) (hsquare : 3 * (a * a) ≤ 2147483647)
    (hprod : b * b * 2 * a ≤ 2147483647) (hprod' : a * a * 2 * b ≤ 2147483647) :
    a * a * (2 * v + 3) ≤ 2147483647 := by
  have hA : 0 < a * a := Int.mul_pos (by omega) (by omega)
  have hB : 0 ≤ b * b := mul_self_nonneg b
  obtain ⟨-, hu⟩ := h.bounds ha rfl hb rfl hv hsteep
  have hinside := h.inside
  unfold middle curve at hinside
  unfold Steep at hsteep
  by_cases hzero : v = 0
  · subst hzero
    linarith
  have hu1 : 1 ≤ u := by omega
  have hB1 : 0 < b * b := by
    by_contra hle
    have hnone : b * b = 0 := by omega
    rw [hnone, Int.zero_mul] at hsteep
    have hpos := Int.mul_pos hA (show 0 < v by omega)
    omega
  have hquad : u ^ 2 ≤ 2 * u ^ 2 - 2 * u + 1 := by nlinarith [sq_nonneg (u - 1)]
  have hinner : b * b * u ^ 2 ≤ b * b * (2 * u ^ 2 - 2 * u + 1) :=
    Int.mul_le_mul_of_nonneg_left hquad hB
  have hpos : 0 < b * b * u ^ 2 := Int.mul_pos hB1 (by positivity)
  have hvb : v < b := by
    by_contra hge
    have hsq : b * b ≤ v ^ 2 := by nlinarith
    have hrow : a * a * (b * b) ≤ a * a * v ^ 2 := Int.mul_le_mul_of_nonneg_left hsq hA.le
    linarith
  by_cases hlast : v + 2 ≤ b
  · have hrow : a * a * (2 * v + 3) ≤ a * a * (2 * b) :=
      Int.mul_le_mul_of_nonneg_left (by omega) hA.le
    linarith
  obtain rfl : v = b - 1 := by omega
  by_cases hslim : a < b
  · -- the other product is greater
    have hside : a * (2 * b + 1) ≤ 2 * (b * b) := by nlinarith
    have hmul : a * (a * (2 * b + 1)) ≤ a * (2 * (b * b)) :=
      Int.mul_le_mul_of_nonneg_left hside (by omega)
    linarith
  · -- the curve would not be steep so far up, but for small radii
    have hupper : b * b * u ^ 2 ≤ 4 * (a * a) * b := by nlinarith
    have hsq : (a * a * (b - 1)) ^ 2 ≤ (b * b * u) ^ 2 :=
      pow_le_pow_left₀ (Int.mul_nonneg hA.le (by omega)) hsteep 2
    have hmul : b * b * (b * b * u ^ 2) ≤ b * b * (4 * (a * a) * b) :=
      Int.mul_le_mul_of_nonneg_left hupper hB
    have hcancel : a * a * (b - 1) ^ 2 ≤ 4 * (b * b) * b := by
      have hboth : a * a * (a * a * (b - 1) ^ 2) ≤ a * a * (4 * (b * b) * b) := by
        calc a * a * (a * a * (b - 1) ^ 2) = (a * a * (b - 1)) ^ 2 := by ring
          _ ≤ (b * b * u) ^ 2 := hsq
          _ = b * b * (b * b * u ^ 2) := by ring
          _ ≤ b * b * (4 * (a * a) * b) := hmul
          _ = a * a * (4 * (b * b) * b) := by ring
      exact le_of_mul_le_mul_left hboth hA
    have hwide : b * b * (b - 1) ^ 2 ≤ a * a * (b - 1) ^ 2 := by
      apply mul_le_mul_of_nonneg_right
      · nlinarith
      · positivity
    have hcancel' : (b - 1) ^ 2 ≤ 4 * b := by
      have hboth : b * b * (b - 1) ^ 2 ≤ b * b * (4 * b) := by linarith
      exact le_of_mul_le_mul_left hboth hB1
    have hsmall : b ≤ 5 := by nlinarith
    have hrows := vchg_small hcancel (by omega) hsmall
    linarith

/-- The rounds fit where the errors at the pixels do. -/
theorem roundFits_of_octant (ha : 0 ≤ a) (hb : 0 ≤ b) (hsquare : 3 * (a * a) ≤ 2147483647)
    (hsquare' : 3 * (b * b) ≤ 2147483647) (hprod : b * b * 2 * a ≤ 2147483647)
    (hprod' : a * a * 2 * b ≤ 2147483647) (hoct : OctantFits a b) {k : Nat}
    (hsteep : ∀ j ≤ k, Steep (a * a) (b * b) (column (a * a) (b * b) a j) j)
    (hne : a ≠ 0 ∨ b ≠ 0) :
    RoundFits (a * a) (b * b) (column (a * a) (b * b) a k) k := by
  have hA : 0 ≤ a * a := mul_self_nonneg a
  have hB : 0 ≤ b * b := mul_self_nonneg b
  rcases Int.lt_or_eq_of_le ha with hpos | hzero
  · have hpixel := column_pixel hpos rfl hB k hsteep
    have hhere := hsteep k (Nat.le_refl k)
    have hradius := hpixel.radius
    obtain ⟨-, hleft⟩ := hpixel.bounds hpos rfl hb rfl (Int.natCast_nonneg k) hhere
    have hu : 0 ≤ column (a * a) (b * b) a k := by omega
    obtain ⟨m, hm⟩ := Int.eq_ofNat_of_zero_le hu
    have hvchg := vchg_fits hpos hb hpixel (Int.natCast_nonneg k) hhere hsquare hprod hprod'
    rw [hm] at hpixel hhere hleft hradius ⊢
    obtain ⟨hhigh, hlow⟩ := hoct m k hpixel hhere
    have hmiddle : middle (a * a) (b * b) m (k + 1) =
        2 * curve (a * a) (b * b) m (k + 1) + b * b * (1 - 2 * m) := rfl
    have hcurve := curve_left (a * a) (b * b) m (k + 1)
    have hchg : b * b * (1 - 2 * (m : Int)) ≤ 0 := by
      rcases hleft with hone | ⟨hnone, -⟩
      · exact Int.mul_nonpos_of_nonneg_of_nonpos hB (by omega)
      · rw [hnone, Int.zero_mul]
    have hwide : b * b * (m : Int) ≤ b * b * a := Int.mul_le_mul_of_nonneg_left hradius hB
    have hrow : 0 ≤ a * a * (k : Int) := Int.mul_nonneg hA (Int.natCast_nonneg k)
    have hcol : 0 ≤ b * b * (m : Int) := Int.mul_nonneg hB (Int.natCast_nonneg m)
    have hstopv : a * a * 2 * ((k : Int) + 1) = a * a * (2 * k + 3) - a * a := by ring
    have hvchg' : a * a * (2 * (k : Int) + 3) = 2 * (a * a * k) + 3 * (a * a) := by ring
    have hchg' : b * b * (1 - 2 * (m : Int)) = b * b - 2 * (b * b * m) := by ring
    have hprod2 : b * b * 2 * a = 2 * (b * b * a) := by ring
    have hstopu : b * b * 2 * ((m : Int) - 1) = 2 * (b * b * m) - 2 * (b * b) := by ring
    have huchg : b * b * (3 - 2 * (m : Int)) = 3 * (b * b) - 2 * (b * b * m) := by ring
    refine ⟨?_, ?_, ?_, ?_, ?_, fun htest => ⟨?_, ?_, ?_⟩⟩
    · unfold Int32
      omega
    · unfold Int32
      omega
    · unfold Int32
      omega
    · unfold Int32
      omega
    · unfold Int32
      omega
    · unfold Int32
      omega
    · unfold Int32
      omega
    · unfold Int32
      omega
  · subst hzero
    have hk : k = 0 := by
      by_contra hpos
      exact not_steep_zero (show 0 < b by omega) (hsteep 1 (by omega))
    subst hk
    have hcurve : curve (0 * 0) (b * b) 0 (0 + 1) = 0 := by
      unfold curve
      ring
    have hcurve' : curve (0 * 0) (b * b) (0 - 1) (0 + 1) = b * b := by
      unfold curve
      ring
    have hmiddle : middle (0 * 0) (b * b) 0 (0 + 1) = b * b := by
      unfold middle curve
      ring
    show RoundFits (0 * 0) (b * b) 0 0
    refine ⟨?_, ?_, ?_, ?_, ?_, fun _ => ⟨?_, ?_, ?_⟩⟩
    · decide
    · rw [hcurve]
      decide
    · decide
    · rw [hcurve]
      decide
    · rw [hmiddle]
      unfold Int32
      omega
    · unfold Int32
      omega
    · rw [hcurve']
      unfold Int32
      omega
    · unfold Int32
      omega

/-- What is computed before a loop fits with the squares and the products. -/
theorem setFits_of_products (ha : 0 ≤ a) (hb : 0 ≤ b) (hb' : b < 65536)
    (hsquare : 3 * (a * a) ≤ 2147483647) (hsquare' : 3 * (b * b) ≤ 2147483647)
    (hprod : b * b * 2 * a ≤ 2147483647) : SetFits a b := by
  have hA : 0 ≤ a * a := mul_self_nonneg a
  have hB : 0 ≤ b * b := mul_self_nonneg b
  have hab : 0 ≤ a * b := Int.mul_nonneg ha hb
  have hmean : 2 * (a * b) ≤ a * a + b * b := by nlinarith [sq_nonneg (a - b)]
  have hBa : 0 ≤ b * b * a := Int.mul_nonneg hB ha
  have honce : (1 - a - a) * b = b - 2 * (a * b) := by ring
  have huchg : (1 - a - a) * b * b = b * b - 2 * (b * b * a) := by ring
  have hstopu : b * b * 2 * a = 2 * (b * b * a) := by ring
  refine ⟨?_, ?_, ?_, ?_⟩
  · unfold Int32
    omega
  · unfold Int32
    omega
  · unfold Int32
    omega
  · unfold Int32
    omega

/-- The points of a side are in the quadrant. -/
theorem scanPoints_bounds (ha : 0 ≤ a) (ha' : a < 65536) (hb : 0 ≤ b) (hb' : b < 65536)
    (hne : a ≠ 0 ∨ b ≠ 0) {last : Nat}
    (hsteep : ∀ k < last, Steep (a * a) (b * b) (column (a * a) (b * b) a k) k)
    (p : Int × Int) (hp : p ∈ scanPoints (a * a) (b * b) a 0 last) :
    (0 ≤ p.1 ∧ p.1 ≤ a) ∧ 0 ≤ p.2 ∧ p.2 ≤ b := by
  obtain ⟨k, hk, rfl⟩ := List.mem_map.mp hp
  have hk' : k < last := by
    rw [List.mem_range'_1] at hk
    omega
  have hall : ∀ j ≤ k, Steep (a * a) (b * b) (column (a * a) (b * b) a j) j :=
    fun j hj => hsteep j (by omega)
  have hcolumn : (0 ≤ column (a * a) (b * b) a k ∧ column (a * a) (b * b) a k ≤ a) ∧
      (k : Int) ≤ b := by
    rcases Int.lt_or_eq_of_le ha with hpos | hzero
    · have hpixel := column_pixel hpos rfl (mul_self_nonneg b) k hall
      have hbounds := hpixel.bounds hpos rfl hb rfl (Int.natCast_nonneg k) (hall k (Nat.le_refl k))
      have hradius := hpixel.radius
      omega
    · subst hzero
      have hk0 : k = 0 := by
        by_contra hup
        exact not_steep_zero (show 0 < b by omega) (hall 1 (by omega))
      subst hk0
      exact ⟨⟨Int.le_refl 0, Int.le_refl 0⟩, hb⟩
  have hu : uint16 (column (a * a) (b * b) a k) = column (a * a) (b * b) a k :=
    Int.emod_eq_of_lt hcolumn.1.1 (by omega)
  have hv : uint16 (k : Int) = k := Int.emod_eq_of_lt (Int.natCast_nonneg k) (by omega)
  dsimp only
  rw [hu, hv]
  exact ⟨hcolumn.1, Int.natCast_nonneg k, hcolumn.2⟩

/-- Rounds that fit up to the last have fitting errors at the pixels. -/
theorem octant_of_roundFits (ha : 0 ≤ a) (hne : a ≠ 0 ∨ b ≠ 0) {last : Nat}
    (hlast : ¬ Steep (a * a) (b * b) (column (a * a) (b * b) a last) last)
    (hrounds : ∀ k < last, RoundFits (a * a) (b * b) (column (a * a) (b * b) a k) k) :
    3 * (a * a) ≤ 2147483647 ∧ OctantFits a b := by
  have hB : 0 ≤ b * b := mul_self_nonneg b
  have hpos : 0 < last := by
    by_contra hzero
    obtain rfl : last = 0 := by omega
    apply hlast
    have hrow : a * a * ((0 : Nat) : Int) = 0 := Int.mul_zero _
    unfold Steep
    rw [hrow]
    exact Int.mul_nonneg hB ha
  constructor
  · have hfits := (hrounds 0 hpos).vchg
    have hthree : a * a * (2 * ((0 : Nat) : Int) + 3) = 3 * (a * a) := by
      rw [Int.natCast_zero]
      ring
    rw [hthree] at hfits
    exact hfits.2
  · intro u v hpixel hsteep
    rcases Int.lt_or_eq_of_le ha with hpos' | hzero
    · obtain ⟨hall, hcolumn⟩ :=
        hpixel.visited hpos' rfl hB (Int.natCast_nonneg u) hsteep
      have hv : v < last := by
        by_contra hge
        exact hlast (hall last (by omega))
      have hfits := hrounds v hv
      rw [hcolumn] at hfits
      exact ⟨hfits.twice.2, hfits.test.1⟩
    · subst hzero
      have hu : (u : Int) = 0 := by
        have hradius := hpixel.radius
        omega
      have hinside := hpixel.inside
      have hmiddle : middle (0 * 0) (b * b) 0 v = b * b := by
        unfold middle curve
        ring
      rw [hu, hmiddle] at hinside
      have hb : b = 0 := by nlinarith
      omega

end Fits

/-! ## Any radii -/

theorem ellipsePoints_ok {fuel : Nat} {rx ry : BitVec 16} {points : List (Int × Int)}
    (h : ellipsePoints fuel rx ry = .ok points) :
    (∃ first, ellipseSide fuel rx.toNat ry.toNat (rx.toNat * rx.toNat * 2)
        (ry.toNat * ry.toNat * 2) = .ok first) ∧
      ∃ second, ellipseSide fuel ry.toNat rx.toNat (ry.toNat * ry.toNat * 2)
        (rx.toNat * rx.toNat * 2) = .ok second := by
  obtain ⟨rxrx, hrxrx, h⟩ := bind_eq_ok.mp h
  obtain ⟨rxrx2, hrxrx2, h⟩ := bind_eq_ok.mp h
  obtain ⟨ryry, hryry, h⟩ := bind_eq_ok.mp h
  obtain ⟨ryry2, hryry2, h⟩ := bind_eq_ok.mp h
  obtain ⟨first, hfirst, h⟩ := bind_eq_ok.mp h
  obtain ⟨second, hsecond, -⟩ := bind_eq_ok.mp h
  obtain ⟨-, rfl⟩ := int32_ok.mp hrxrx
  obtain ⟨-, rfl⟩ := int32_ok.mp hrxrx2
  obtain ⟨-, rfl⟩ := int32_ok.mp hryry
  obtain ⟨-, rfl⟩ := int32_ok.mp hryry2
  exact ⟨⟨first, hfirst⟩, second, hsecond⟩

theorem ellipsePoints_of_sides {fuel : Nat} {rx ry : BitVec 16} {first second : List (Int × Int)}
    (hsquare : 3 * ((rx.toNat : Int) * rx.toNat) ≤ 2147483647)
    (hsquare' : 3 * ((ry.toNat : Int) * ry.toNat) ≤ 2147483647)
    (hfirst : ellipseSide fuel rx.toNat ry.toNat (rx.toNat * rx.toNat * 2)
      (ry.toNat * ry.toNat * 2) = .ok first)
    (hsecond : ellipseSide fuel ry.toNat rx.toNat (ry.toNat * ry.toNat * 2)
      (rx.toNat * rx.toNat * 2) = .ok second) :
    ellipsePoints fuel rx ry = .ok (first ++ second.map Prod.swap) := by
  have hA := mul_self_nonneg (rx.toNat : Int)
  have hB := mul_self_nonneg (ry.toNat : Int)
  rw [ellipsePoints, int32_of_fits (by unfold Int32; omega), ok_bind,
    int32_of_fits (by unfold Int32; omega), ok_bind, int32_of_fits (by unfold Int32; omega),
    ok_bind, int32_of_fits (by unfold Int32; omega), ok_bind, hfirst, ok_bind, hsecond, ok_bind]
  rfl

/-- The functions end, without an overflow and in the quadrant, just where the radii fit. -/
theorem drawsEllipse_iff (rx ry : BitVec 16) :
    DrawsEllipse rx ry ↔ EllipseFits rx.toNat ry.toNat := by
  have ha : (0 : Int) ≤ rx.toNat := Int.natCast_nonneg _
  have hb : (0 : Int) ≤ ry.toNat := Int.natCast_nonneg _
  have ha' : (rx.toNat : Int) < 65536 := by
    have hlt := rx.isLt
    omega
  have hb' : (ry.toNat : Int) < 65536 := by
    have hlt := ry.isLt
    omega
  constructor
  · rintro ⟨points, -, n, hn⟩
    obtain ⟨hdraw, -⟩ := hn (n + 1) (Nat.lt_succ_self n) _ wholeScreen 0 0 0 0
    obtain ⟨points', hpoints, -⟩ := bind_eq_ok.mp hdraw
    obtain ⟨⟨first, hfirst⟩, second, hsecond⟩ := ellipsePoints_ok hpoints
    generalize (rx.toNat : Int) = a at *
    generalize (ry.toNat : Int) = b at *
    have hne : a ≠ 0 ∨ b ≠ 0 := by
      by_contra hzero
      obtain ⟨rfl, rfl⟩ : a = 0 ∧ b = 0 := by omega
      exact ellipseSide_zero _ first hfirst
    obtain ⟨last, hsteep, hlast⟩ := exists_last ha hb hne
    obtain ⟨last', hsteep', hlast'⟩ := exists_last hb ha hne.symm
    obtain ⟨hset, hrounds⟩ :=
      (ellipseSide_iff ha ha' hsteep hlast).1 ⟨_, first, hfirst⟩
    obtain ⟨hset', hrounds'⟩ :=
      (ellipseSide_iff hb hb' hsteep' hlast').1 ⟨_, second, hsecond⟩
    obtain ⟨hsquare, hoct⟩ := octant_of_roundFits ha hne hlast hrounds
    obtain ⟨hsquare', hoct'⟩ := octant_of_roundFits hb hne.symm hlast' hrounds'
    exact ⟨hne, ⟨hsquare, hsquare'⟩, ⟨hset.stopu.2, hset'.stopu.2⟩, hoct, hoct'⟩
  · rintro ⟨hne, ⟨hsquare, hsquare'⟩, ⟨hprod, hprod'⟩, hoct, hoct'⟩
    obtain ⟨last, hsteep, hlast⟩ := exists_last ha hb hne
    obtain ⟨last', hsteep', hlast'⟩ := exists_last hb ha hne.symm
    obtain ⟨n, hn⟩ := (ellipseSide_iff ha ha' hsteep hlast).2
      ⟨setFits_of_products ha hb hb' hsquare hsquare' hprod, fun k hk =>
        roundFits_of_octant ha hb hsquare hsquare' hprod hprod' hoct
          (fun j hj => hsteep j (by omega)) hne⟩
    obtain ⟨n', hn'⟩ := (ellipseSide_iff hb hb' hsteep' hlast').2
      ⟨setFits_of_products hb ha ha' hsquare' hsquare hprod', fun k hk =>
        roundFits_of_octant hb ha hsquare' hsquare hprod' hprod hoct'
          (fun j hj => hsteep' j (by omega)) hne.symm⟩
    refine ⟨scanPoints (rx.toNat * rx.toNat) (ry.toNat * ry.toNat) rx.toNat 0 last ++
      (scanPoints (ry.toNat * ry.toNat) (rx.toNat * rx.toNat) ry.toNat 0 last').map Prod.swap,
      ?_, max n n', ?_⟩
    · intro p hp
      rcases List.mem_append.mp hp with hp | hp
      · exact scanPoints_bounds ha ha' hb hb' hne hsteep p hp
      · obtain ⟨q, hq, rfl⟩ := List.mem_map.mp hp
        exact (scanPoints_bounds hb hb' ha ha' hne.symm hsteep' q hq).symm
    · intro fuel hfuel s win x0 y0 color option
      have hpoints := ellipsePoints_of_sides hsquare hsquare' (hn fuel (by omega))
        (hn' fuel (by omega))
      rw [drawEllipse, drawFilledEllipse, hpoints]
      exact ⟨rfl, rfl⟩

/-- No radius, and two that are too large. -/
theorem not_drawsEllipse_radii : ¬ DrawsEllipse 0 0 ∧ ¬ DrawsEllipse 2000 2000 := by
  constructor
  · rintro ⟨points, -, n, hn⟩
    obtain ⟨hdraw, -⟩ := hn (n + 1) (Nat.lt_succ_self n) _ wholeScreen 0 0 0 0
    obtain ⟨points', hpoints, -⟩ := bind_eq_ok.mp hdraw
    obtain ⟨first, hfirst⟩ := (ellipsePoints_ok hpoints).1
    exact ellipseSide_zero _ first hfirst
  · rintro ⟨points, -, n, hn⟩
    obtain ⟨hdraw, -⟩ := hn (n + 1) (Nat.lt_succ_self n) _ wholeScreen 0 0 0 0
    obtain ⟨points', hpoints, -⟩ := bind_eq_ok.mp hdraw
    have hover : ellipsePoints (n + 1) 2000 2000 = .error .undefined := rfl
    cases hover.symm.trans hpoints

end LuaRtos.Tft
