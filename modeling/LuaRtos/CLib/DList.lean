/-
  LuaRtos.CLib.DList

  Doubly linked lists, as the two link fields of their nodes, and the one
  rearrangement that keeps them in the order of last use: a node goes to the
  front.

  `DLinked next prev l` says that the links run through the nodes of `l`, each
  once, in this order.  The backward link of the first node is free: code that
  moves a node to the front may leave the old one in it.
-/

import LuaRtos.CLib.Basic
import Mathlib.Data.List.Perm.Basic

namespace LuaRtos.CLib

variable {ι : Type}

/-- The links run through `l`. -/
structure DLinked (next prev : ι → Option ι) (l : List ι) : Prop where
  nodup : l.Nodup
  next_eq : ∀ {i x}, l[i]? = some x → next x = l[i + 1]?
  prev_eq : ∀ {i x y}, l[i]? = some x → l[i + 1]? = some y → prev y = some x

/-- The loop `while (node) { if (test) ...; node = node->next; }`: the first node
    that passes the test. -/
def walk (next : ι → Option ι) (test : ι → Result Bool) : Nat → Option ι → Result (Option ι)
  | _, none => pure none
  | 0, some _ => throw .diverged
  | fuel + 1, some node => do
    if ← test node then pure (some node) else walk next test fuel (next node)

section DLinked

variable {next prev next' prev' : ι → Option ι} {l : List ι}

theorem DLinked.idx_inj (h : DLinked next prev l) {i j : Nat} {x : ι} (hi : l[i]? = some x)
    (hj : l[j]? = some x) : i = j :=
  (List.getElem?_inj (List.getElem?_eq_some_iff.mp hi).1 h.nodup).mp (hi.trans hj.symm)

/-- A walk from a node of the list ends, with the first node there that passes. -/
theorem DLinked.walk_eq (h : DLinked next prev l) {test : ι → Result Bool} {p : ι → Bool}
    (htest : ∀ x ∈ l, test x = .ok (p x)) {fuel i : Nat} (hfuel : l.length ≤ i + fuel) :
    walk next test fuel l[i]? = .ok ((l.drop i).find? p) := by
  induction fuel generalizing i with
  | zero =>
    rw [Nat.add_zero] at hfuel
    rw [List.getElem?_eq_none hfuel, List.drop_eq_nil_of_le hfuel]
    rfl
  | succ fuel ih =>
    cases hx : l[i]? with
    | none =>
      rw [List.drop_eq_nil_of_le (List.getElem?_eq_none_iff.mp hx)]
      rfl
    | some x =>
      obtain ⟨hlt, hget⟩ := List.getElem?_eq_some_iff.mp hx
      have hmem : x ∈ l := List.mem_of_getElem? hx
      rw [List.drop_eq_getElem_cons hlt, hget, List.find?_cons, walk, htest x hmem, ok_bind]
      cases hp : p x with
      | true => rfl
      | false =>
        rw [h.next_eq hx]
        exact ih (by omega)

/-- The links after a node behind the first has gone to the front. -/
theorem DLinked.toFront {k : Nat} {a f p : ι} (h : DLinked next prev l) (hf : l[0]? = some f)
    (hp : l[k]? = some p) (ha : l[k + 1]? = some a)
    (hnext_a : next' a = some f) (hnext_p : next' p = l[k + 2]?)
    (hnext : ∀ x, x ≠ a → x ≠ p → next' x = next x)
    (hprev_f : prev' f = some a) (hprev_n : ∀ n, l[k + 2]? = some n → prev' n = some p)
    (hprev : ∀ x, x ≠ a → x ≠ f → l[k + 2]? ≠ some x → prev' x = prev x) :
    DLinked next' prev' (a :: l.eraseIdx (k + 1)) := by
  obtain ⟨hlt, hget⟩ := List.getElem?_eq_some_iff.mp ha
  refine ⟨?_, ?_, ?_⟩
  · have hperm := List.getElem_cons_eraseIdx_perm hlt
    rw [hget] at hperm
    exact hperm.nodup_iff.mpr h.nodup
  · intro i x hx
    cases i with
    | zero =>
      obtain rfl : a = x := Option.some.inj hx
      simp [hnext_a, List.getElem?_eraseIdx, hf]
    | succ i =>
      simp only [List.getElem?_cons_succ, List.getElem?_eraseIdx] at hx ⊢
      split at hx
      · next hi =>
        have hxa : x ≠ a := fun he => by have := h.idx_inj hx (he ▸ ha); omega
        by_cases hik : i = k
        · subst hik
          obtain rfl : x = p := Option.some.inj (hx.symm.trans hp)
          rw [hnext_p, if_neg (by omega)]
        · have hxp : x ≠ p := fun he => hik (h.idx_inj hx (he ▸ hp))
          rw [hnext x hxa hxp, h.next_eq hx, if_pos (by omega)]
      · next hi =>
        have hxa : x ≠ a := fun he => by have := h.idx_inj hx (he ▸ ha); omega
        have hxp : x ≠ p := fun he => by have := h.idx_inj hx (he ▸ hp); omega
        rw [hnext x hxa hxp, h.next_eq hx, if_neg (by omega)]
  · intro i x y hx hy
    cases i with
    | zero =>
      obtain rfl : a = x := Option.some.inj hx
      obtain rfl : f = y := by simpa [List.getElem?_eraseIdx, hf] using hy
      exact hprev_f
    | succ i =>
      simp only [List.getElem?_cons_succ, List.getElem?_eraseIdx] at hx hy
      by_cases hik : i = k
      · -- the two nodes that were on either side of the moved one
        subst hik
        rw [if_pos (by omega)] at hx
        rw [if_neg (by omega)] at hy
        obtain rfl : x = p := Option.some.inj (hx.symm.trans hp)
        exact hprev_n y hy
      · have hxy : ∃ j, l[j]? = some x ∧ l[j + 1]? = some y ∧ j + 1 ≠ k + 1 ∧ j + 1 ≠ k + 2 := by
          by_cases hlt : i < k
          · rw [if_pos (by omega)] at hx hy
            exact ⟨i, hx, hy, by omega, by omega⟩
          · rw [if_neg (by omega)] at hx hy
            exact ⟨i + 1, hx, hy, by omega, by omega⟩
        obtain ⟨j, hjx, hjy, ha', hn'⟩ := hxy
        have hya : y ≠ a := fun he => ha' (h.idx_inj hjy (he ▸ ha))
        have hyf : y ≠ f := fun he => by have := h.idx_inj hjy (he ▸ hf); omega
        have hyn : l[k + 2]? ≠ some y := fun he => hn' (h.idx_inj hjy he)
        rw [hprev y hya hyf hyn, h.prev_eq hjx hjy]

end DLinked

/-! ## The order of last use -/

section Recent

variable [DecidableEq ι] {uses l : List ι} {k : Nat} {a : ι}

/-- The nodes of `l` are in the order of their last use, for the uses with the
    latest first; those never used come last. -/
def Recent (uses l : List ι) : Prop := l.Pairwise fun x y => uses.idxOf x ≤ uses.idxOf y

/-- The last node was used the longest ago, or never. -/
theorem Recent.idxOf_le_last (h : Recent uses l) (hlast : l.getLast? = some a) {x : ι}
    (hx : x ∈ l) : uses.idxOf x ≤ uses.idxOf a := by
  obtain ⟨front, rfl⟩ := List.getLast?_eq_some_iff.mp hlast
  rw [List.mem_append, List.mem_singleton] at hx
  obtain hx | rfl := hx
  · exact (List.pairwise_append.mp h).2.2 x hx a (List.mem_singleton_self a)
  · exact Nat.le_refl _

/-- A node that is used and goes to the front keeps the order. -/
theorem Recent.toFront (h : Recent uses l) (hnodup : l.Nodup) (ha : l[k]? = some a) :
    Recent (a :: uses) (a :: l.eraseIdx k) := by
  obtain ⟨hlt, hget⟩ := List.getElem?_eq_some_iff.mp ha
  have hne : ∀ x ∈ l.eraseIdx k, a ≠ x := by
    have hperm := (List.getElem_cons_eraseIdx_perm hlt).nodup_iff.mpr hnodup
    rw [hget] at hperm
    exact fun x hx he => (List.nodup_cons.mp hperm).1 (he ▸ hx)
  refine List.pairwise_cons.mpr ⟨fun x _ => by simp, ?_⟩
  refine (h.sublist (List.eraseIdx_sublist ..)).imp_of_mem fun hx hy hle => ?_
  rw [List.idxOf_cons_ne _ (hne _ hx), List.idxOf_cons_ne _ (hne _ hy)]
  omega

end Recent

end LuaRtos.CLib
