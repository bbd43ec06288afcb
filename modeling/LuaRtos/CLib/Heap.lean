/-
  LuaRtos.CLib.Heap

  The blocks of one kind that `malloc` has given out.  A pointer is the number
  of its block; a block is `none` once it is freed and its number is not given
  out again, so that an access through a pointer to a freed block, and a second
  `free` of one, is `Fault.useAfterFree`.
-/

import LuaRtos.CLib.Basic

namespace LuaRtos.CLib

/-- The blocks, in the order of their allocation. -/
abbrev Heap (α : Type) := List (Option α)

namespace Heap

variable {α : Type}

/-- The block at `p` is allocated. -/
def Live (h : Heap α) (p : Nat) : Prop := ∃ a, h[p]? = some (some a)

/-- `malloc`, with what is then written into the block. -/
def alloc (h : Heap α) (a : α) : Heap α := h ++ [some a]

/-- `*p`. -/
def read (h : Heap α) (p : Nat) : Result α :=
  match h[p]? with
  | some (some a) => pure a
  | _ => throw .useAfterFree

/-- `*p = a`. -/
def write (h : Heap α) (p : Nat) (a : α) : Result (Heap α) :=
  match h[p]? with
  | some (some _) => pure (h.set p (some a))
  | _ => throw .useAfterFree

/-- `free(p)`. -/
def free (h : Heap α) (p : Nat) : Result (Heap α) :=
  match h[p]? with
  | some (some _) => pure (h.set p none)
  | _ => throw .useAfterFree

variable {h h' : Heap α} {p q : Nat} {a b : α}

theorem read_eq_ok : h.read p = .ok a ↔ h[p]? = some (some a) := by
  delta read
  rcases h[p]? with _ | _ | b <;> simp

theorem read_of_freed (hp : h[p]? = some none) : h.read p = .error .useAfterFree := by
  delta read
  rw [hp]
  rfl

theorem live_iff : h.Live p ↔ ∃ a, h[p]? = some (some a) := Iff.rfl

theorem write_eq_ok : h.write p a = .ok h' ↔ h.Live p ∧ h' = h.set p (some a) := by
  delta write
  rw [live_iff]
  rcases h[p]? with _ | _ | b <;> simp [eq_comm]

theorem free_eq_ok : h.free p = .ok h' ↔ h.Live p ∧ h' = h.set p none := by
  delta free
  rw [live_iff]
  rcases h[p]? with _ | _ | b <;> simp [eq_comm]

/-- A new block does not change the blocks there are. -/
theorem getElem?_alloc_of_lt (hp : p < h.length) : (h.alloc a)[p]? = h[p]? :=
  List.getElem?_append_left hp

@[simp] theorem getElem?_alloc_self : (h.alloc a)[h.length]? = some (some a) :=
  List.getElem?_concat_length

@[simp] theorem length_alloc : (h.alloc a).length = h.length + 1 :=
  List.length_append

/-! ## What the blocks hold -/

theorem write_alloc : (h.alloc a).write h.length b = .ok (h.alloc b) := by
  refine write_eq_ok.mpr ⟨⟨a, getElem?_alloc_self⟩, ?_⟩
  show h ++ [some b] = (h ++ [some a]).set h.length (some b)
  simp

theorem free_alloc : (h.alloc a).free h.length = .ok (h ++ [none]) := by
  refine free_eq_ok.mpr ⟨⟨a, getElem?_alloc_self⟩, ?_⟩
  show h ++ [none] = (h ++ [some a]).set h.length none
  simp

theorem free_of_getElem? (hp : h[p]? = some (some a)) : h.free p = .ok (h.set p none) :=
  free_eq_ok.mpr ⟨⟨a, hp⟩, rfl⟩

theorem getElem?_alloc_iff :
    (h.alloc a)[q]? = some (some b) ↔ h[q]? = some (some b) ∨ q = h.length ∧ a = b := by
  delta alloc
  rcases Nat.lt_trichotomy q h.length with hlt | rfl | hgt
  · rw [List.getElem?_append_left hlt]
    have hne : q ≠ h.length := by omega
    simp [hne]
  · simp
  · have hnone : (h ++ [some a])[q]? = none := List.getElem?_eq_none (by simp; omega)
    have hnone' : h[q]? = none := List.getElem?_eq_none (by omega)
    have hne : q ≠ h.length := by omega
    simp [hnone, hnone', hne]

/-- A block that was freed is as if it had not been allocated. -/
theorem getElem?_append_none_iff : (h ++ [none])[q]? = some (some b) ↔ h[q]? = some (some b) := by
  rcases Nat.lt_trichotomy q h.length with hlt | rfl | hgt
  · rw [List.getElem?_append_left hlt]
  · simp
  · have hnone : (h ++ [none])[q]? = none := List.getElem?_eq_none (by simp; omega)
    have hnone' : h[q]? = none := List.getElem?_eq_none (by omega)
    rw [hnone, hnone']

theorem getElem?_set_none_iff :
    (h.set p none)[q]? = some (some b) ↔ h[q]? = some (some b) ∧ q ≠ p := by
  rw [List.getElem?_set]
  by_cases hq : p = q
  · subst hq
    simp
  · simp [hq, Ne.symm hq]

end Heap
end LuaRtos.CLib
