/-
  LuaRtos.Tft.EllipseScan

  The scan of an eighth of an ellipse by the midpoint algorithm, in integers of any size.

  `u` falls from the radius `a` and `v` rises from 0, with `A` and `B` for the squares of the
  radii along `u` and `v`.  A step of `v` lowers `u` by one where the point half a step to the
  left is still outside of the ellipse, which is right as long as the curve is steep.
-/

import Mathlib.Tactic.Linarith
import Mathlib.Tactic.Ring

namespace LuaRtos.Tft

/-- How far a point is outside: zero on the ellipse. -/
def curve (A B u v : Int) : Int := A * v ^ 2 + B * u ^ 2 - A * B

/-- Twice that for the point half a step to the left, less a half of `B`. -/
def middle (A B u v : Int) : Int := 2 * curve A B u v + B * (1 - 2 * u)

/-- The curve is steep at the point. -/
def Steep (A B u v : Int) : Prop := A * v ≤ B * u

/-- The pixel of the ellipse in the row: the rightmost one that `middle` has inside. -/
structure EllipsePixel (A B a u v : Int) : Prop where
  radius : u ≤ a
  inside : middle A B u v ≤ 0
  next : u < a → 0 < middle A B (u + 1) v

/-- The column that the scan is in, in each row. -/
def column (A B a : Int) : Nat → Int
  | 0 => a
  | v + 1 =>
    if 0 < middle A B (column A B a v) ((v + 1 : Nat) : Int) then column A B a v - 1
    else column A B a v

section Scan

variable {A B a u v : Int}

theorem curve_up (A B u v : Int) : curve A B u (v + 1) = curve A B u v + A * (2 * v + 1) := by
  unfold curve
  ring

theorem curve_left (A B u v : Int) :
    curve A B (u - 1) v = curve A B u v + B * (1 - 2 * u) := by
  unfold curve
  ring

theorem middle_up (A B u v : Int) :
    middle A B u (v + 1) = middle A B u v + 2 * (A * (2 * v + 1)) := by
  unfold middle curve
  ring

theorem middle_left (A B u v : Int) :
    middle A B (u - 1) v = middle A B u v + 4 * (B * (1 - u)) := by
  unfold middle curve
  ring

theorem middle_mono_up (hA : 0 ≤ A) {v' : Int} (hv : 0 ≤ v) (hle : v ≤ v') :
    middle A B u v ≤ middle A B u v' := by
  have hsq : v ^ 2 ≤ v' ^ 2 := by nlinarith
  have hprod : A * v ^ 2 ≤ A * v' ^ 2 := Int.mul_le_mul_of_nonneg_left hsq hA
  unfold middle curve
  linarith

theorem middle_mono_right (hB : 0 ≤ B) {u' : Int} (hu : 1 ≤ u) (hle : u ≤ u') :
    middle A B u v ≤ middle A B u' v := by
  have hsq : u ^ 2 - u ≤ u' ^ 2 - u' := by nlinarith
  have hprod : B * (u ^ 2 - u) ≤ B * (u' ^ 2 - u') := Int.mul_le_mul_of_nonneg_left hsq hB
  have key : ∀ w, middle A B w v = 2 * (A * v ^ 2 - A * B) + 2 * (B * (w ^ 2 - w)) + B := by
    intro w
    unfold middle curve
    ring
  rw [key, key]
  linarith

/-- The scan starts at a pixel. -/
theorem ellipsePixel_start (ha : 1 ≤ a) (hB : 0 ≤ B) : EllipsePixel (a * a) B a a 0 := by
  refine ⟨Int.le_refl a, ?_, fun h => absurd h (Int.lt_irrefl a)⟩
  have hstart : middle (a * a) B a 0 = B * (1 - 2 * a) := by
    unfold middle curve
    ring
  rw [hstart]
  exact Int.mul_nonpos_of_nonneg_of_nonpos hB (by omega)

/-- A step from a pixel leads to one, as long as the curve is steep. -/
theorem EllipsePixel.step (h : EllipsePixel A B a u v) (hA : 0 ≤ A) (hv : 0 ≤ v) :
    if 0 < middle A B u (v + 1) then
      Steep A B (u - 1) (v + 1) → EllipsePixel A B a (u - 1) (v + 1)
    else EllipsePixel A B a u (v + 1) := by
  obtain ⟨hradius, hinside, hnext⟩ := h
  split
  next hout =>
    intro hsteep'
    refine ⟨by omega, ?_, fun _ => by rwa [Int.sub_add_cancel]⟩
    unfold Steep at hsteep'
    rw [middle_left, middle_up]
    linarith
  next hin =>
    refine ⟨hradius, by omega, fun hlt => ?_⟩
    exact Int.lt_of_lt_of_le (hnext hlt) (middle_mono_up hA hv (by omega))

theorem column_le (v : Nat) : column A B a v ≤ a := by
  induction v with
  | zero => exact Int.le_refl a
  | succ v ih =>
    rw [column]
    split <;> omega

/-- In the rows before the end of the steep part, the scan is at the pixel of the row. -/
theorem column_pixel (ha : 1 ≤ a) (hA : A = a * a) (hB : 0 ≤ B) (v : Nat)
    (hsteep : ∀ k ≤ v, Steep A B (column A B a k) (k : Int)) :
    EllipsePixel A B a (column A B a v) (v : Int) := by
  have hA' : 0 ≤ A := by
    rw [hA]
    exact mul_self_nonneg a
  induction v with
  | zero =>
    rw [hA]
    exact ellipsePixel_start ha hB
  | succ v ih =>
    have hpixel := ih (fun k hk => hsteep k (by omega))
    have hstep := hpixel.step hA' (Int.natCast_nonneg v)
    have hlast := hsteep (v + 1) (Nat.le_refl _)
    have hcast : ((v + 1 : Nat) : Int) = (v : Int) + 1 := rfl
    rw [column, hcast] at hlast ⊢
    split at hstep
    next hout =>
      rw [if_pos hout] at hlast ⊢
      exact hstep hlast
    next hin =>
      rw [if_neg hin]
      exact hstep

/-- The scan has not passed a pixel before its row. -/
theorem le_column (hA : 0 ≤ A) {v : Nat} (h : EllipsePixel A B a u (v : Int)) (k : Nat)
    (hk : k ≤ v) : u ≤ column A B a k := by
  induction k with
  | zero => exact h.radius
  | succ k ih =>
    have hle := ih (by omega)
    rw [column]
    split
    next hout =>
      by_contra hpast
      have hhere : column A B a k = u := by omega
      rw [hhere] at hout
      have hmono := middle_mono_up (B := B) (u := u) hA (Int.natCast_nonneg (k + 1))
        (show ((k + 1 : Nat) : Int) ≤ (v : Int) by omega)
      have hinside := h.inside
      omega
    next hin => exact hle

/-- A steep pixel is one that the scan comes to. -/
theorem EllipsePixel.visited (ha : 1 ≤ a) (hA : A = a * a) (hB : 0 ≤ B) (hu : 0 ≤ u) {v : Nat}
    (h : EllipsePixel A B a u (v : Int)) (hsteep : Steep A B u (v : Int)) :
    (∀ k ≤ v, Steep A B (column A B a k) (k : Int)) ∧ column A B a v = u := by
  have hA' : 0 ≤ A := by
    rw [hA]
    exact mul_self_nonneg a
  have hall : ∀ k ≤ v, Steep A B (column A B a k) (k : Int) := by
    intro k hk
    have hrow : A * (k : Int) ≤ A * (v : Int) := Int.mul_le_mul_of_nonneg_left (by omega) hA'
    have hcol : B * u ≤ B * column A B a k :=
      Int.mul_le_mul_of_nonneg_left (le_column hA' h k hk) hB
    unfold Steep at hsteep ⊢
    omega
  refine ⟨hall, ?_⟩
  have hge := le_column hA' h v (Nat.le_refl v)
  by_contra hne
  have hpixel := column_pixel ha hA hB v hall
  have hright := h.next (by have hle := hpixel.radius; omega)
  have hmono := middle_mono_right (A := A) (v := (v : Int)) hB (show 1 ≤ u + 1 by omega)
    (show u + 1 ≤ column A B a v by omega)
  have hinside := hpixel.inside
  omega

/-- A steep pixel is in the quadrant. -/
theorem EllipsePixel.bounds {b : Int} (h : EllipsePixel A B a u v) (ha : 1 ≤ a)
    (hA : A = a * a) (hb : 0 ≤ b) (hB : B = b * b) (hv : 0 ≤ v) (hsteep : Steep A B u v) :
    v ≤ b ∧ (1 ≤ u ∨ B = 0 ∧ u = a ∧ v = 0) := by
  have hA' : 0 < A := by
    rw [hA]
    exact Int.mul_pos (by omega) (by omega)
  have hB' : 0 ≤ B := by
    rw [hB]
    exact mul_self_nonneg b
  have hinside := h.inside
  have hinner : 2 * (A * v ^ 2) ≤ 2 * (A * B) := by
    have hrest : 0 ≤ B * (2 * u ^ 2 - 2 * u + 1) := Int.mul_nonneg hB' (by nlinarith)
    unfold middle curve at hinside
    linarith
  have hsq : v ^ 2 ≤ B := le_of_mul_le_mul_left (by linarith) hA'
  have hvb : v ≤ b := by
    rw [hB] at hsq
    by_contra hlt
    have hlarge : b + 1 ≤ v := by omega
    nlinarith
  refine ⟨hvb, ?_⟩
  rcases Int.lt_or_eq_of_le hB' with hpos | hzero
  · left
    by_contra hleft
    unfold Steep at hsteep
    have hprod : B * u ≤ 0 := Int.mul_nonpos_of_nonneg_of_nonpos hB' (by omega)
    have hrow : 0 ≤ A * v := Int.mul_nonneg hA'.le hv
    have hu : u = 0 := by
      have hBu : B * u = 0 := by omega
      rcases Int.mul_eq_zero.mp hBu with h0 | h0 <;> omega
    have hAv : A * v = 0 := by omega
    have hv0 : v = 0 := by
      rcases Int.mul_eq_zero.mp hAv with h0 | h0 <;> omega
    have hnext := h.next (by omega)
    rw [hu, hv0] at hnext
    have hone : middle A B (0 + 1) 0 = B * (1 - 2 * A) := by
      unfold middle curve
      ring
    rw [hone] at hnext
    have hneg : B * (1 - 2 * A) ≤ 0 := Int.mul_nonpos_of_nonneg_of_nonpos hB' (by omega)
    omega
  · right
    have hv0 : v = 0 := by
      rw [← hzero] at hsq
      nlinarith
    refine ⟨hzero.symm, ?_, hv0⟩
    by_contra hne
    have hradius := h.radius
    have hnext := h.next (by omega)
    have hflat : middle A B (u + 1) v = 0 := by
      rw [← hzero, hv0]
      unfold middle curve
      ring
    omega

end Scan

end LuaRtos.Tft
