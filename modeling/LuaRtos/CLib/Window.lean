/-
  LuaRtos.CLib.Window

  Windows of a list: what stands in `n` places from `i` on, and what a list
  becomes when a window is overwritten or combined with other elements.

  `combine_overwrite_window` is the law of a read-modify-write: where combining
  an element with itself leaves it, a wider window that holds the old elements
  around the new ones has the effect of the new ones alone.
-/

import Mathlib.Data.List.Basic
import Mathlib.Data.Option.NAry

namespace LuaRtos.CLib

variable {α : Type}

/-- The `n` elements from `i` on. -/
def window (l : List α) (i n : Nat) : List α := (l.drop i).take n

/-- The list with `bs` from `i` on. -/
def overwrite (l : List α) (i : Nat) (bs : List α) : List α :=
  l.take i ++ bs ++ l.drop (i + bs.length)

/-- The list with the elements from `i` on combined with those of `bs`. -/
def combine (f : α → α → α) (l : List α) (i : Nat) (bs : List α) : List α :=
  overwrite l i (List.zipWith f (window l i bs.length) bs)

section Window

variable {l bs : List α} {i j n : Nat}

@[simp] theorem length_window (h : i + n ≤ l.length) : (window l i n).length = n := by
  rw [window, List.length_take, List.length_drop]
  omega

@[simp] theorem length_overwrite (h : i + bs.length ≤ l.length) :
    (overwrite l i bs).length = l.length := by
  simp only [overwrite, List.length_append, List.length_take, List.length_drop]
  omega

theorem getElem?_window (hj : j < n) : (window l i n)[j]? = l[i + j]? := by
  rw [window, List.getElem?_take_of_lt hj, List.getElem?_drop]

/-- The elements of an overwritten list. -/
theorem getElem?_overwrite (h : i + bs.length ≤ l.length) (j : Nat) :
    (overwrite l i bs)[j]? = if i ≤ j ∧ j < i + bs.length then bs[j - i]? else l[j]? := by
  have htake : (l.take i).length = i := by
    rw [List.length_take]
    omega
  rw [overwrite, List.append_assoc]
  by_cases hlt : j < i
  · rw [List.getElem?_append_left (by omega), List.getElem?_take_of_lt hlt,
      if_neg (fun hin => by omega)]
  · rw [List.getElem?_append_right (by omega), htake]
    by_cases hin : j < i + bs.length
    · rw [List.getElem?_append_left (by omega), if_pos ⟨by omega, hin⟩]
    · rw [List.getElem?_append_right (by omega), List.getElem?_drop, if_neg (fun h => hin h.2)]
      congr 1
      omega

theorem getElem?_overwrite_of_mem (h : i + bs.length ≤ l.length) (hj : j < bs.length) :
    (overwrite l i bs)[i + j]? = bs[j]? := by
  rw [getElem?_overwrite h, if_pos ⟨by omega, by omega⟩]
  congr 1
  omega

theorem window_window {k m : Nat} (h : k + m ≤ n) :
    window (window l i n) k m = window l (i + k) m := by
  rw [window, window, window, List.drop_take, List.take_take, List.drop_drop,
    Nat.min_eq_left (by omega)]

theorem window_add (l : List α) (i m n : Nat) :
    window l i (m + n) = window l i m ++ window l (i + m) n := by
  rw [window, window, window, List.take_add, List.drop_drop]

theorem overwrite_nil (l : List α) (i : Nat) : overwrite l i [] = l := by
  rw [overwrite, List.append_nil, List.length_nil, Nat.add_zero, List.take_append_drop]

/-- One element, and then the others after it. -/
theorem overwrite_set {a : α} (h : i + bs.length < l.length) :
    overwrite (l.set i a) (i + 1) bs = overwrite l i (a :: bs) := by
  have htake : (l.set i a).take (i + 1) = l.take i ++ [a] := by
    rw [List.take_set, List.take_succ_eq_append_getElem (by omega),
      List.set_append_right _ _ (by rw [List.length_take]; omega), List.length_take,
      Nat.min_eq_left (by omega), Nat.sub_self, List.set_cons_zero]
  have hdrop : (l.set i a).drop (i + 1 + bs.length) = l.drop (i + (bs.length + 1)) := by
    rw [List.drop_set_of_lt (by omega)]
    congr 1
    omega
  rw [overwrite, overwrite, htake, hdrop, List.length_cons, List.append_assoc, List.append_assoc,
    List.append_assoc]
  rfl

theorem window_zero_length (l : List α) : window l 0 l.length = l := by
  rw [window, List.drop_zero, List.take_length]

/-- A window inside the overwritten one. -/
theorem window_overwrite {k : Nat} (h : i + bs.length ≤ l.length) (hk : k + n ≤ bs.length) :
    window (overwrite l i bs) (i + k) n = window bs k n := by
  apply List.ext_getElem?
  intro j
  by_cases hj : j < n
  · have hsum : i + k + j = i + (k + j) := by omega
    rw [getElem?_window hj, getElem?_window hj, hsum, getElem?_overwrite_of_mem h (by omega)]
  · have hlen : (window bs k n).length = n := length_window hk
    have hlen' : (window (overwrite l i bs) (i + k) n).length = n := by
      apply length_window
      rw [length_overwrite h]
      omega
    rw [List.getElem?_eq_none (by omega), List.getElem?_eq_none (by omega)]

/-- Two windows that follow one another. -/
theorem overwrite_append {cs : List α} (h : i + bs.length + cs.length ≤ l.length) :
    overwrite (overwrite l i bs) (i + bs.length) cs = overwrite l i (bs ++ cs) := by
  have hbs : i + bs.length ≤ l.length := by omega
  have hlen : (overwrite l i bs).length = l.length := length_overwrite hbs
  have hall : i + (bs ++ cs).length ≤ l.length := by
    rw [List.length_append]
    omega
  apply List.ext_getElem?
  intro j
  rw [getElem?_overwrite (by omega), getElem?_overwrite hall, getElem?_overwrite hbs,
    List.length_append]
  by_cases hcs : i + bs.length ≤ j ∧ j < i + bs.length + cs.length
  · rw [if_pos hcs, if_pos (by omega), List.getElem?_append_right (by omega)]
    congr 1
    omega
  · rw [if_neg hcs]
    by_cases hin : i ≤ j ∧ j < i + bs.length
    · rw [if_pos hin, if_pos (by omega), List.getElem?_append_left (by omega)]
    · rw [if_neg hin, if_neg (by omega)]

/-- The window as it is after a write inside it. -/
theorem window_overwrite_overwrite {us : List α} {k : Nat} (h : i + us.length ≤ l.length)
    (hk : k + bs.length ≤ us.length) :
    window (overwrite (overwrite l i us) (i + k) bs) i us.length = overwrite us k bs := by
  have houter : (overwrite l i us).length = l.length := length_overwrite h
  have hfit : i + k + bs.length ≤ (overwrite l i us).length := by omega
  have hlen : (overwrite us k bs).length = us.length := length_overwrite hk
  have hlen' : (window (overwrite (overwrite l i us) (i + k) bs) i us.length).length =
      us.length := by
    apply length_window
    rw [length_overwrite hfit]
    omega
  apply List.ext_getElem?
  intro j
  by_cases hj : j < us.length
  · rw [getElem?_window hj, getElem?_overwrite hfit, getElem?_overwrite hk]
    by_cases hin : k ≤ j ∧ j < k + bs.length
    · rw [if_pos (by omega), if_pos hin]
      congr 1
      omega
    · rw [if_neg (by omega), if_neg hin, getElem?_overwrite_of_mem h hj]
  · rw [List.getElem?_eq_none (by omega), List.getElem?_eq_none (by omega)]

theorem length_zipWith_window (f : α → α → α) (h : i + bs.length ≤ l.length) :
    (List.zipWith f (window l i bs.length) bs).length = bs.length := by
  rw [List.length_zipWith, length_window h, Nat.min_self]

theorem length_combine (f : α → α → α) (h : i + bs.length ≤ l.length) :
    (combine f l i bs).length = l.length := by
  apply length_overwrite
  rw [length_zipWith_window f h]
  exact h

/-- The elements of a combined list. -/
theorem getElem?_combine (f : α → α → α) (h : i + bs.length ≤ l.length) (j : Nat) :
    (combine f l i bs)[j]? =
      if i ≤ j ∧ j < i + bs.length then Option.map₂ f l[j]? bs[j - i]? else l[j]? := by
  have hlen := length_zipWith_window f h
  rw [combine, getElem?_overwrite (by omega), hlen]
  by_cases hin : i ≤ j ∧ j < i + bs.length
  · rw [if_pos hin, if_pos hin, List.getElem?_zipWith', getElem?_window (by omega)]
    have hsum : i + (j - i) = j := by omega
    rw [hsum]
    cases l[j]? <;> cases bs[j - i]? <;> rfl
  · rw [if_neg hin, if_neg hin]

/-- A read-modify-write of a window around `bs` combines with `bs` alone. -/
theorem combine_overwrite_window {f : α → α → α} (hf : ∀ x, f x x = x) {a : Nat} (hi : a ≤ i)
    (hn : i + bs.length ≤ a + n) (hl : a + n ≤ l.length) :
    combine f l a (overwrite (window l a n) (i - a) bs) = combine f l i bs := by
  have hwindow : (window l a n).length = n := length_window hl
  have hinner : i - a + bs.length ≤ (window l a n).length := by omega
  have hlen : (overwrite (window l a n) (i - a) bs).length = n :=
    (length_overwrite hinner).trans hwindow
  apply List.ext_getElem?
  intro j
  rw [getElem?_combine f (by omega), getElem?_combine f (by omega), hlen]
  by_cases hwide : a ≤ j ∧ j < a + n
  · rw [if_pos hwide, getElem?_overwrite hinner]
    by_cases hin : i ≤ j ∧ j < i + bs.length
    · rw [if_pos (by omega), if_pos hin]
      congr 2
      omega
    · have hsum : a + (j - a) = j := by omega
      rw [if_neg (by omega), if_neg hin, getElem?_window (by omega), hsum]
      cases l[j]? with
      | none => rfl
      | some x => exact congrArg some (hf x)
  · rw [if_neg hwide, if_neg (by omega)]

end Window

end LuaRtos.CLib
