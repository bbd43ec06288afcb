/-
  LuaRtos.Lts.Count

  The threads at certain places, as a finite set, and how their number changes
  when one thread moves.
-/

import Mathlib.Algebra.BigOperators.Group.Finset.Piecewise

namespace LuaRtos

variable {ι α : Type} [Fintype ι] {f : ι → α} {p : α → Bool} {i : ι}

/-- The threads whose place, as `f` gives it, is one of `p`. -/
def threadsAt (p : α → Bool) (f : ι → α) : Finset ι := {i | p (f i)}

theorem mem_threadsAt : i ∈ threadsAt p f ↔ p (f i) := by
  simp [threadsAt]

theorem threadsAt_eq_empty (h : ∀ i, p (f i) = false) : threadsAt p f = ∅ := by
  simp [threadsAt, h]

/-- One thread moves: the number changes by what it leaves and where it goes. -/
theorem card_threadsAt_update [DecidableEq ι] (p : α → Bool) (f : ι → α) (i : ι) (a : α) :
    (threadsAt p (Function.update f i a)).card + (p (f i)).toNat =
      (threadsAt p f).card + (p a).toNat := by
  have hcard (g : ι → α) : (threadsAt p g).card =
      (p (g i)).toNat + ∑ j ∈ Finset.univ.erase i, (p (g j)).toNat := by
    rw [Finset.add_sum_erase _ (fun j => (p (g j)).toNat) (Finset.mem_univ i), threadsAt,
      Finset.card_filter]
    exact Finset.sum_congr rfl fun j _ => by cases p (g j) <;> rfl
  have hrest : ∑ j ∈ Finset.univ.erase i, (p (Function.update f i a j)).toNat =
      ∑ j ∈ Finset.univ.erase i, (p (f j)).toNat :=
    Finset.sum_congr rfl fun j hj => by
      rw [Function.update_of_ne (Finset.ne_of_mem_erase hj)]
  rw [hcard, hcard f, hrest, Function.update_self]
  omega

end LuaRtos
