/-
  LuaRtos.Sys.ListFailure

  What the handle list does when it is refused memory, when its 8-bit counter
  is at its end, and when it is given a handle that is not live.

  `list_add` advances `list->indexes` before the allocation, so a failing one
  leaves the counter one above the array; the range tests of `list_get` and
  `list_remove` let the handle one past the end through, and `list_remove`
  does not look at `deleted`.  The theorems say on which arguments the three
  calls nevertheless keep to their contract.
-/

import LuaRtos.Sys.ListMap

namespace LuaRtos.Sys

open LuaRtos.CLib

variable {α : Type}

/-! ## `list_add` is all or nothing -/

/-- `list_add` returns zero with a handle that was not live and every other
    slot as it was, or an error and the very same list. -/
def AddAtomic (s : Tracked α) (item : α) (malloc : Option (Nat → ListIndex α)) : Prop :=
  ∃ r, listAdd s.list item malloc = .ok r ∧
    ((r.ret = .success ∧ ∃ k, r.itemIndex = some k ∧ k ∉ s.map ∧
        ∀ j, s.list.handle j ≠ k → r.list.slots[j]? = s.list.slots[j]?) ∨
      (r.ret ≠ .success ∧ r.list = s.list))

theorem addAtomic_of_addCond {s : Tracked α} (h : Refines s.list s.map) {item : α}
    {malloc : Option (Nat → ListIndex α)} (hc : AddCond s.list malloc) :
    AddAtomic s item malloc := by
  obtain ⟨i, e, l', heq, hfresh, u, -⟩ := h.listAdd_ok hc item
  refine ⟨_, heq, .inl ⟨rfl, _, rfl, Finmap.lookup_eq_none.mp hfresh, fun j hj => ?_⟩⟩
  have hji : j ≠ i := fun hji => hj (by rw [hji])
  rw [u.slots, if_neg hji]

theorem not_addAtomic_enomem {s : Tracked α} (hf : s.list.free = none) (item : α) :
    ¬ AddAtomic s item none := by
  rintro ⟨r, hr, hcase⟩
  rw [listAdd_enomem hf] at hr
  cases hr
  rcases hcase with ⟨hret, -⟩ | ⟨-, hl⟩
  · cases hret
  · -- an error, but the counter has moved
    have hix : s.list.indexes + 1 = s.list.indexes := congrArg CList.indexes hl
    simp at hix

theorem not_addAtomic_wrap {s : Tracked α} (h : Refines s.list s.map) (hf : s.list.free = none)
    (hn : s.list.indexes = 255) (item : α) (mem : Nat → ListIndex α) :
    ¬ AddAtomic s item (some mem) := by
  rintro ⟨r, hr, -⟩
  rw [listAdd_wrap h.stores hf hn] at hr
  cases hr

/-- In every state of a careful run `list_add` is all or nothing exactly when
    it finds a free slot, or gets memory with the counter below 255. -/
theorem listAdd_atomic_iff {first : Int} {s : Tracked α} (h : (listSys first).Reach Careful s)
    (item : α) (malloc : Option (Nat → ListIndex α)) :
    AddAtomic s item malloc ↔ AddCond s.list malloc := by
  have href := refines_of_careful h
  refine ⟨fun hat => ?_, addAtomic_of_addCond href⟩
  by_contra hc
  obtain ⟨hf, hn⟩ := not_or.mp hc
  rw [not_not] at hf
  cases malloc with
  | none => exact not_addAtomic_enomem hf item hat
  | some mem =>
    -- there is memory, so the counter is at its end
    have hn : s.list.indexes = 255 := by simpa using hn
    exact not_addAtomic_wrap href hf hn item mem hat

theorem listAdd_atomic_iff_oneItem :
    AddAtomic oneItem 9 none ↔ AddCond oneItem.list none :=
  listAdd_atomic_iff (oneItem_reach (.inr ⟨rfl, by decide⟩)) 9 none

/-- The first `list_add` after `list_init`, with no memory: the error comes
    back with the counter already advanced. -/
theorem listAdd_not_atomic :
    ∃ s : Tracked Nat, (listSys 1).Reach (fun _ _ => True) s ∧ ∃ malloc, ¬ AddAtomic s 7 malloc :=
  ⟨⟨listInit 1, ∅⟩, .init rfl, none, not_addAtomic_enomem rfl 7⟩

/-! ## Handles that are not live -/

/-- `list_get` succeeds with the item of a live handle, and answers EINVAL to
    every other one. -/
def GetChecks (s : Tracked α) (k : Int) : Prop :=
  listGet s.list k = .ok (match s.map.lookup k with
    | some x => (.success, some x)
    | none => (.einval, none))

/-- `list_remove` succeeds on a live handle; to every other one it answers
    EINVAL, frees nothing and leaves the list alone. -/
def RemoveChecks (s : Tracked α) (k : Int) (destroy : Bool) : Prop :=
  ∃ r, listRemove s.list k destroy = .ok r ∧
    (k ∈ s.map → r.ret = .success) ∧ (k ∉ s.map → r = ⟨.einval, none, s.list⟩)

/-- `list_get` is not given the handle one past the end of an array. -/
def GetCond (s : Tracked α) (k : Int) : Prop :=
  s.list.indexes = 0 ∨ k ≠ s.list.handle s.list.indexes.toNat

theorem getChecks_iff {s : Tracked α} (h : Refines s.list s.map) (k : Int) :
    GetChecks s k ↔ GetCond s k := by
  unfold GetChecks
  constructor
  · intro hk
    by_contra hc
    obtain ⟨hnz, hend⟩ := not_or.mp hc
    rw [not_not] at hend
    -- `>` instead of `>=`: the slot behind the array is read
    exact listGet_end h hnz _ (hend ▸ hk)
  · intro hc
    cases hk : s.map.lookup k with
    | some x => exact listGet_live h hk
    | none => exact listGet_dead h hk hc

theorem removeChecks_of_removeCond {s : Tracked α} (h : Refines s.list s.map) {k : Int}
    (hc : RemoveCond s k) (destroy : Bool) : RemoveChecks s k destroy := by
  rcases hc with hk | hout
  · obtain ⟨freed, l', heq, -⟩ := h.listRemove_ok hk destroy
    exact ⟨_, heq, fun _ => rfl, fun hnot => absurd hk hnot⟩
  · refine ⟨_, listRemove_out hout destroy, fun hk => ?_, fun _ => rfl⟩
    obtain ⟨i, e, hi, -, rfl⟩ := h.stores.mem_handle hk
    have hlt := h.stores.slot_lt hi
    unfold CList.handle at hout
    omega

/-- A handle the range test lets through without being live names a deleted
    slot, or the slot one past the end. -/
theorem exists_slot_of_not_removeCond {s : Tracked α} (h : Refines s.list s.map) {k : Int}
    (hc : ¬ RemoveCond s k) :
    k ∉ s.map ∧ ∃ i, k = s.list.handle i ∧
      (i = s.list.indexes.toNat ∨ ∃ e, s.list.slots[i]? = some e) := by
  obtain ⟨hnot, hout⟩ := not_or.mp hc
  obtain ⟨hlow, hhigh⟩ := not_or.mp hout
  refine ⟨hnot, (k - s.list.firstIndex.toNat).toNat, ?_, ?_⟩
  · unfold CList.handle
    omega
  · by_cases hend : (k - s.list.firstIndex.toNat).toNat = s.list.indexes.toNat
    · exact .inl hend
    · refine .inr (h.stores.exists_slot ?_)
      unfold CList.handle at hhigh
      omega

theorem removeChecks_iff {s : Tracked α} (h : Refines s.list s.map) (k : Int) (destroy : Bool) :
    RemoveChecks s k destroy ↔ RemoveCond s k := by
  refine ⟨fun ⟨r, hr, _, hdead⟩ => ?_, fun hc => removeChecks_of_removeCond h hc destroy⟩
  by_contra hc
  obtain ⟨hnot, i, rfl, hi⟩ := exists_slot_of_not_removeCond h hc
  rcases hi with rfl | ⟨e, he⟩
  · exact listRemove_end h.stores destroy r hr
  · -- a slot that was removed is removed once more
    rw [listRemove_slot h.stores he] at hr
    cases hr
    have hret := congrArg RemoveResult.ret (hdead hnot)
    cases hret

/-- In every state of a careful run, and for every integer handle, `list_get`
    and `list_remove` check the handle exactly when it is not the one past the
    end, nor, for `list_remove`, the handle of a removed slot. -/
theorem list_checks_iff {first : Int} {s : Tracked α} (h : (listSys first).Reach Careful s)
    (k : Int) :
    (GetChecks s k ↔ GetCond s k) ∧
      ∀ destroy, RemoveChecks s k destroy ↔ RemoveCond s k :=
  ⟨getChecks_iff (refines_of_careful h) k, removeChecks_iff (refines_of_careful h) k⟩

theorem list_checks_iff_oneItem :
    (GetChecks oneItem 2 ↔ GetCond oneItem 2) ∧
      ∀ destroy, RemoveChecks oneItem 2 destroy ↔ RemoveCond oneItem 2 :=
  list_checks_iff (oneItem_reach (.inr ⟨rfl, by decide⟩)) 2

/-- With one item under handle 1 that was removed, `list_remove` accepts the
    handle again and frees the item a second time. -/
theorem listRemove_twice :
    ∃ s : Tracked Nat, (listSys 1).Reach (fun _ _ => True) s ∧
      ∃ k, k ∉ s.map ∧ ¬ RemoveChecks s k true := by
  let s : Tracked Nat := ⟨⟨some ⟨0, [⟨7, 0, 1, none⟩]⟩, some ⟨0, 0⟩, 1, 1⟩, oneItem.map.erase 1⟩
  have hnot : (1 : Int) ∉ s.map := Finmap.notMem_erase_self
  refine ⟨s, .step (oneItem_reach trivial) trivial (a := .remove 1 true) (.remove rfl), 1, hnot, ?_⟩
  rintro ⟨r, hr, -, hdead⟩
  rw [hdead hnot] at hr
  exact absurd hr (by decide)

end LuaRtos.Sys
