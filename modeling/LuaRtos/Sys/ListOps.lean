/-
  LuaRtos.Sys.ListOps

  One equation for each way `list_add`, `list_get` and `list_remove` can go on
  a list that stores a map, and how each moves the map.

  An operation changes at most one slot; `SlotUpdate l i e l'` is that frame
  condition, shared by the reuse of a free slot, the growth of the array and
  the removal.
-/

import LuaRtos.Sys.ListInv

namespace LuaRtos.Sys

open LuaRtos.CLib

variable {α : Type} {l l' : CList α} {m : ListMap α}

/-! ## One slot at a time -/

/-- `l'` is `l` with slot `i` holding `e`; the slot may be a new one. -/
structure SlotUpdate (l : CList α) (i : Nat) (e : ListIndex α) (l' : CList α) : Prop where
  first : l'.firstIndex = l.firstIndex
  slots : ∀ j, l'.slots[j]? = if j = i then some e else l.slots[j]?

section SlotUpdate

variable {i : Nat} {e : ListIndex α}

theorem SlotUpdate.withSlot (hi : i < l.slots.length) (e : ListIndex α) :
    SlotUpdate l i e (l.withSlot i e) where
  first := rfl
  slots j := by
    rw [CList.withSlot_slots, List.getElem?_set]
    by_cases hj : j = i
    · subst hj; simp [hi]
    · simp [hj, Ne.symm hj]

theorem SlotUpdate.handle (u : SlotUpdate l i e l') (j : Nat) : l'.handle j = l.handle j := by
  unfold CList.handle
  rw [u.first]

theorem SlotUpdate.number (u : SlotUpdate l i e l') (h : Stores l m) (he : e.index.toNat = i) :
    ∀ j (e' : ListIndex α), l'.slots[j]? = some e' → e'.index.toNat = j := by
  intro j e' hj
  rw [u.slots] at hj
  split at hj
  · cases hj; omega
  · exact h.number j e' hj

/-- The other handles lead to the same items as before. -/
theorem SlotUpdate.live_other (u : SlotUpdate l i e l') {k : Int} (hk : k ≠ l.handle i) (x : α) :
    (∃ j e', l.slots[j]? = some e' ∧ e'.deleted = 0 ∧ k = l.handle j ∧ e'.item = x) ↔
      ∃ j e', l'.slots[j]? = some e' ∧ e'.deleted = 0 ∧ k = l'.handle j ∧ e'.item = x := by
  constructor
  · rintro ⟨j, e', hj, hd', rfl, rfl⟩
    have hji : j ≠ i := fun heq => hk (by rw [heq])
    exact ⟨j, e', by rw [u.slots, if_neg hji]; exact hj, hd', (u.handle j).symm, rfl⟩
  · rintro ⟨j, e', hj, hd', rfl, rfl⟩
    rw [u.handle] at hk ⊢
    have hji : j ≠ i := fun heq => hk (by rw [heq])
    rw [u.slots, if_neg hji] at hj
    exact ⟨j, e', hj, hd', rfl, rfl⟩

/-- A live slot adds its handle to the map. -/
theorem SlotUpdate.live_insert (u : SlotUpdate l i e l') (h : Stores l m) (hd : e.deleted = 0)
    (k : Int) (x : α) :
    (m.insert (l.handle i) e.item).lookup k = some x ↔
      ∃ j e', l'.slots[j]? = some e' ∧ e'.deleted = 0 ∧ k = l'.handle j ∧ e'.item = x := by
  by_cases hk : k = l.handle i
  · subst hk
    rw [Finmap.lookup_insert]
    constructor
    · rintro ⟨⟩
      exact ⟨i, e, by rw [u.slots, if_pos rfl], hd, (u.handle i).symm, rfl⟩
    · rintro ⟨j, e', hj, -, hkj, rfl⟩
      rw [u.handle] at hkj
      cases CList.handle_inj hkj
      rw [u.slots, if_pos rfl] at hj
      cases hj
      rfl
  · rw [Finmap.lookup_insert_of_ne _ hk, h.live]
    exact u.live_other hk x

/-- A deleted slot takes its handle from the map. -/
theorem SlotUpdate.live_erase (u : SlotUpdate l i e l') (h : Stores l m) (hd : e.deleted ≠ 0)
    (k : Int) (x : α) :
    (m.erase (l.handle i)).lookup k = some x ↔
      ∃ j e', l'.slots[j]? = some e' ∧ e'.deleted = 0 ∧ k = l'.handle j ∧ e'.item = x := by
  by_cases hk : k = l.handle i
  · subst hk
    rw [Finmap.lookup_erase]
    constructor
    · rintro ⟨⟩
    · rintro ⟨j, e', hj, hd', hkj, -⟩
      rw [u.handle] at hkj
      cases CList.handle_inj hkj
      rw [u.slots, if_pos rfl] at hj
      cases hj
      exact absurd hd' hd
  · rw [Finmap.lookup_erase_ne hk, h.live]
    exact u.live_other hk x

end SlotUpdate

/-! ## `list_add` on a free slot -/

/-- The list after slot `p`, the head of the free chain, was given out. -/
def CList.reuse (l : CList α) (p : IndexPtr) (e : ListIndex α) (item : α) : CList α :=
  { l with free := e.next }.withSlot p.slot { e with next := none, item := item, deleted := 0 }

theorem listAdd_free {p : IndexPtr} {e : ListIndex α} (h : Stores l m) (hf : l.free = some p)
    (hd : l.deref p = .ok e) (item : α) (malloc : Option (Nat → ListIndex α)) :
    listAdd l item malloc =
      .ok ⟨.success, some (l.handle p.slot), l.reuse p e item⟩ := by
  have hp := (CList.deref_eq_ok.mp hd).2
  have hlt : p.slot < l.slots.length := (List.getElem?_eq_some_iff.mp hp).1
  have hset : ({ l with free := e.next } : CList α).setSlot p.slot
      { e with next := none, item := item, deleted := 0 } = .ok (l.reuse p e item) :=
    CList.setSlot_eq (by simpa using hlt) _
  unfold listAdd
  simp only [hf, hd, ok_bind, hset, pure_eq_ok, CList.handle, h.number _ _ hp]
  rfl

theorem CList.reuse_update {p : IndexPtr} {e : ListIndex α} (hd : l.deref p = .ok e) (item : α) :
    SlotUpdate l p.slot { e with next := none, item := item, deleted := 0 }
      (l.reuse p e item) := by
  have hlt := (List.getElem?_eq_some_iff.mp (CList.deref_eq_ok.mp hd).2).1
  exact ⟨rfl, (SlotUpdate.withSlot (l := { l with free := e.next }) hlt _).slots⟩

/-- Whatever the free chain is, the slot at its head is stored under its own
    handle. -/
theorem Stores.reuse {p : IndexPtr} {e : ListIndex α} (h : Stores l m) (hd : l.deref p = .ok e)
    (item : α) : Stores (l.reuse p e item) (m.insert (l.handle p.slot) item) := by
  have u := CList.reuse_update hd item
  have hnum := h.number _ _ (CList.deref_eq_ok.mp hd).2
  refine ⟨?_, u.number h hnum, u.live_insert h rfl⟩
  rw [CList.reuse, CList.withSlot_slots, List.length_set]
  exact h.count

/-- The chain behind the head, and that the head is not on it. -/
theorem Refines.chain_head (h : Refines l m) {p : IndexPtr} (hf : l.free = some p) :
    ∃ e c, l.deref p = .ok e ∧ e.deleted ≠ 0 ∧ FreeChain l e.next c ∧ p.slot ∉ c ∧ c.Nodup ∧
      ∀ i, (i = p.slot ∨ i ∈ c) ↔ ∃ e, l.slots[i]? = some e ∧ e.deleted ≠ 0 := by
  obtain ⟨c, hc, hnd, hmem⟩ := h.chain
  rw [hf] at hc
  cases hc with
  | @cons _ e c hd hc =>
    obtain ⟨hnot, hnd⟩ := List.nodup_cons.mp hnd
    have hmem' : ∀ i, (i = p.slot ∨ i ∈ c) ↔ ∃ e, l.slots[i]? = some e ∧ e.deleted ≠ 0 := by
      intro i
      rw [← List.mem_cons]
      exact hmem i
    obtain ⟨e', he', hdel⟩ := (hmem' p.slot).mp (.inl rfl)
    have heq : e' = e := by
      have := (CList.deref_eq_ok.mp hd).2
      rw [he'] at this
      exact Option.some.inj this
    exact ⟨e, c, hd, heq ▸ hdel, hc, hnot, hnd, hmem'⟩

theorem Refines.add_free {p : IndexPtr} {e : ListIndex α} (h : Refines l m)
    (hf : l.free = some p) (hd : l.deref p = .ok e) (item : α) :
    m.lookup (l.handle p.slot) = none ∧
      Refines (l.reuse p e item) (m.insert (l.handle p.slot) item) := by
  obtain ⟨e', c, hd', hdel, hc, hnot, hnd, hmem⟩ := h.chain_head hf
  rw [hd] at hd'
  cases hd'
  have hp := (CList.deref_eq_ok.mp hd).2
  have u := CList.reuse_update hd item
  have hst := h.stores.reuse hd item
  refine ⟨h.stores.lookup_handle_none fun e' he' => ?_, hst.count, hst.number, hst.live, c, ?_,
    hnd, ?_⟩
  -- the slot was free, so its handle was not in the map
  · rw [hp] at he'
    cases he'
    exact hdel
  -- the write is off the rest of the chain
  · exact hc.setFree.withSlot hnot _
  · intro i
    rw [u.slots]
    by_cases hi : i = p.slot
    · subst hi; simp [hnot]
    · rw [if_neg hi, ← hmem i]
      simp [hi]

/-! ## `list_add` on a grown array -/

/-- The list after growth by one slot, with the array in block `b`. -/
def CList.grow (l : CList α) (b : Nat) (item : α) : CList α :=
  { l with index := some ⟨b, l.slots ++ [⟨item, l.indexes, 0, none⟩]⟩, indexes := l.indexes + 1 }

@[simp] theorem CList.grow_slots (l : CList α) (b : Nat) (item : α) :
    (l.grow b item).slots = l.slots ++ [⟨item, l.indexes, 0, none⟩] := rfl

theorem CList.grow_update (h : Stores l m) (b : Nat) (item : α) :
    SlotUpdate l l.indexes.toNat ⟨item, l.indexes, 0, none⟩ (l.grow b item) := by
  refine ⟨rfl, fun j => ?_⟩
  rw [CList.grow_slots, ← h.count]
  by_cases hj : j = l.slots.length
  · subst hj; simp
  · rw [if_neg hj]
    rcases Nat.lt_or_gt_of_ne hj with hlt | hgt
    · rw [List.getElem?_append_left hlt]
    · rw [List.getElem?_eq_none (by simp; omega), List.getElem?_eq_none (by omega)]

theorem toNat_succ_indexes {n : UInt8} (hn : n ≠ 255) : (n + 1).toNat = n.toNat + 1 := by
  have hlt := n.toNat_lt
  have hne : n.toNat ≠ 255 := fun h => hn (UInt8.toNat_inj.mp (by rw [h]; rfl))
  rw [UInt8.toNat_add]
  simp only [UInt8.reduceToNat]
  omega

theorem growArray_eq (h : Stores l m) (hn : l.indexes ≠ 255) (mem : Nat → ListIndex α) :
    ∃ b, growArray l.index (l.indexes + 1) mem =
      .ok ⟨b, l.slots ++ [mem l.indexes.toNat]⟩ := by
  have hcount := h.count
  have hsucc := toNat_succ_indexes hn
  unfold growArray
  unfold CList.slots at hcount ⊢
  cases hix : l.index with
  | none =>
    -- the first allocation
    rw [hix] at hcount
    have hz : l.indexes.toNat = 0 := hcount.symm
    exact ⟨0, by simp [hsucc, hz]⟩
  | some a =>
    -- the old slots are copied, and one byte pattern is left behind them
    rw [hix] at hcount
    simp only at hcount ⊢
    have hnz : ¬ (l.indexes + 1 = 0 ∨ a.slots.length < (l.indexes + 1).toNat - 1) := by
      rintro (hz | hlt)
      · rw [hz] at hsucc; simp at hsucc
      · omega
    have hfresh : (List.map mem (List.range (l.indexes.toNat + 1))).drop l.indexes.toNat =
        [mem l.indexes.toNat] := by
      rw [List.range_succ, List.map_append, List.drop_append_of_le_length (by simp)]
      simp
    refine ⟨a.block + 1, ?_⟩
    rw [if_neg hnz, hsucc, Nat.add_sub_cancel, hfresh, ← hcount, List.take_length]
    rfl

theorem listAdd_grow (h : Stores l m) (hf : l.free = none) (hn : l.indexes ≠ 255) (item : α)
    (mem : Nat → ListIndex α) :
    ∃ b, listAdd l item (some mem) =
      .ok ⟨.success, some (l.handle l.indexes.toNat), l.grow b item⟩ := by
  obtain ⟨b, hb⟩ := growArray_eq h hn mem
  have hnz : ¬ l.indexes + 1 = 0 := by
    intro hz
    have hsucc := toNat_succ_indexes hn
    rw [hz] at hsucc
    simp at hsucc
  have hlast : l.indexes + 1 - 1 = l.indexes := by simp
  have hset : (l.slots ++ [mem l.indexes.toNat]).set l.indexes.toNat ⟨item, l.indexes, 0, none⟩ =
      l.slots ++ [⟨item, l.indexes, 0, none⟩] := by
    rw [← h.count, List.set_append_right _ _ (Nat.le_refl _)]
    simp
  refine ⟨b, ?_⟩
  unfold listAdd
  simp only [hf, hb, ok_bind, if_neg hnz, hlast]
  rw [CList.setSlot_eq (by simp [CList.slots, ← h.count])]
  simp only [CList.withSlot, Option.map_some, hset, ok_bind, pure_eq_ok, CList.handle, CList.grow]
  rw [hf]

theorem Stores.grow (h : Stores l m) (hn : l.indexes ≠ 255) (b : Nat) (item : α) :
    Stores (l.grow b item) (m.insert (l.handle l.indexes.toNat) item) := by
  have u := CList.grow_update h b item
  refine ⟨?_, u.number h rfl, u.live_insert h rfl⟩
  rw [CList.grow_slots, List.length_append, h.count]
  exact (toNat_succ_indexes hn).symm

theorem Refines.add_grow (h : Refines l m) (hf : l.free = none) (hn : l.indexes ≠ 255) (b : Nat)
    (item : α) :
    m.lookup (l.handle l.indexes.toNat) = none ∧
      Refines (l.grow b item) (m.insert (l.handle l.indexes.toNat) item) := by
  have hend : l.slots[l.indexes.toNat]? = none :=
    List.getElem?_eq_none (Nat.le_of_eq h.count)
  have u := CList.grow_update h.stores b item
  have hst := h.stores.grow hn b item
  obtain ⟨c, hc, hnd, hmem⟩ := h.chain
  rw [hf] at hc
  cases hc
  refine ⟨h.stores.lookup_handle_none (by simp [hend]), hst.count, hst.number, hst.live, [], ?_,
    hnd, ?_⟩
  · simp only [CList.grow, hf]
    exact .nil
  · intro i
    rw [u.slots]
    by_cases hi : i = l.indexes.toNat
    · subst hi; simp
    · rw [if_neg hi]; exact hmem i

/-- Without memory the growth leaves its mark on the counter all the same. -/
theorem listAdd_enomem (hf : l.free = none) (item : α) :
    listAdd l item none = .ok ⟨.enomem, none, { l with indexes := l.indexes + 1 }⟩ := by
  unfold listAdd
  simp [hf]

/-- With the counter at its end, growth wraps it and copies past the array. -/
theorem listAdd_wrap (h : Stores l m) (hf : l.free = none) (hn : l.indexes = 255) (item : α)
    (mem : Nat → ListIndex α) : listAdd l item (some mem) = .error .outOfBounds := by
  have hcount := h.count
  unfold listAdd growArray
  unfold CList.slots at hcount
  cases hix : l.index with
  | none =>
    rw [hix, hn] at hcount
    simp at hcount
  -- the counter is 0 again, so the array gets no byte and the write has no slot
  | some a => simp [hf, hn]

/-! ## `list_get` -/

theorem listGet_live (h : Refines l m) {k : Int} {x : α} (hk : m.lookup k = some x) :
    listGet l k = .ok (.success, some x) := by
  obtain ⟨i, e, hi, hd, rfl, rfl⟩ := (h.live _ _).mp hk
  have hlt := h.stores.slot_lt hi
  have hnz : l.indexes ≠ 0 := by
    rintro hz
    rw [hz] at hlt
    simp at hlt
  have hfirst : ¬ l.handle i < l.firstIndex.toNat := by unfold CList.handle; omega
  have hii : l.handle i - l.firstIndex.toNat = i := by unfold CList.handle; omega
  have hrange : ¬ (i : Int) > l.indexes.toNat := by omega
  unfold listGet
  rw [if_neg hnz, if_neg hfirst]
  simp only [hii, if_neg hrange, Int.toNat_natCast, CList.slotAt_eq_ok.mpr hi, ok_bind, hd]
  simp

theorem listGet_dead (h : Refines l m) {k : Int} (hk : m.lookup k = none)
    (hend : l.indexes = 0 ∨ k ≠ l.handle l.indexes.toNat) :
    listGet l k = .ok (.einval, none) := by
  unfold listGet
  dsimp only
  split
  · rfl
  split
  · rfl
  split
  · rfl
  rename_i hnz hfirst hrange
  have hke : k ≠ l.handle l.indexes.toNat := hend.resolve_left hnz
  have hki : k = l.handle (k - l.firstIndex.toNat).toNat := by unfold CList.handle; omega
  have hlt : (k - l.firstIndex.toNat).toNat < l.indexes.toNat := by
    unfold CList.handle at hke
    omega
  obtain ⟨e, he⟩ := h.stores.exists_slot hlt
  -- a live slot would have its handle in the map
  have hd : e.deleted ≠ 0 := by
    intro hd
    have := h.stores.lookup_slot he hd
    rw [← hki, hk] at this
    cases this
  simp only [CList.slotAt_eq_ok.mpr he, ok_bind, if_pos hd, pure_eq_ok]

/-- One past the end the range test lets the handle through. -/
theorem listGet_end (h : Refines l m) (hnz : l.indexes ≠ 0) (r : Errno × Option α) :
    listGet l (l.handle l.indexes.toNat) ≠ .ok r := by
  have hfirst : ¬ l.handle l.indexes.toNat < l.firstIndex.toNat := by unfold CList.handle; omega
  have hii : l.handle l.indexes.toNat - l.firstIndex.toNat = l.indexes.toNat := by
    unfold CList.handle; omega
  unfold listGet
  rw [if_neg hnz, if_neg hfirst]
  simp only [hii, gt_iff_lt, Int.lt_irrefl, if_false, Int.toNat_natCast]
  intro hr
  obtain ⟨e, he, -⟩ := bind_eq_ok.mp hr
  exact CList.slotAt_ne_ok (Nat.le_of_eq h.count) e he

/-- A `list_get` that returns answers as the map does. -/
theorem listGet_eq_ok (h : Refines l m) {k : Int} {r : Errno × Option α}
    (hr : listGet l k = .ok r) :
    r = match m.lookup k with
      | some x => (.success, some x)
      | none => (.einval, none) := by
  cases hk : m.lookup k with
  | some x =>
    rw [listGet_live h hk] at hr
    exact (Except.ok.inj hr).symm
  | none =>
    have hend : l.indexes = 0 ∨ k ≠ l.handle l.indexes.toNat := by
      by_contra hc
      obtain ⟨hnz, heq⟩ := not_or.mp hc
      rw [not_not] at heq
      exact listGet_end h hnz r (heq ▸ hr)
    rw [listGet_dead h hk hend] at hr
    exact (Except.ok.inj hr).symm

/-! ## `list_remove` -/

/-- The list after slot `i` was put at the head of the free chain. -/
def CList.release (l : CList α) (i : Nat) (e : ListIndex α) : CList α :=
  { l.withSlot i { e with next := l.free, deleted := 1 } with free := l.addr i }

/-- A slot of the array is removed whether or not it is live. -/
theorem listRemove_slot (h : Stores l m) {i : Nat} {e : ListIndex α} (hi : l.slots[i]? = some e)
    (destroy : Bool) :
    listRemove l (l.handle i) destroy =
      .ok ⟨.success, if destroy then some e.item else none, l.release i e⟩ := by
  have hlt := h.slot_lt hi
  have hfirst : ¬ l.handle i < l.firstIndex.toNat := by unfold CList.handle; omega
  have hii : l.handle i - l.firstIndex.toNat = i := by unfold CList.handle; omega
  have hrange : ¬ ((i : Int) < 0 ∨ (i : Int) > l.indexes.toNat) := by omega
  unfold listRemove
  rw [if_neg hfirst]
  simp only [hii, if_neg hrange, Int.toNat_natCast, CList.slotAt_eq_ok.mpr hi, ok_bind]
  rw [CList.setSlot_eq (List.getElem?_eq_some_iff.mp hi).1]
  rfl

/-- A handle below the first one or above one past the last is refused. -/
theorem listRemove_out {k : Int} (hk : k < l.firstIndex.toNat ∨ l.handle l.indexes.toNat < k)
    (destroy : Bool) : listRemove l k destroy = .ok ⟨.einval, none, l⟩ := by
  unfold listRemove
  split
  · rfl
  · rename_i hfirst
    have hgt := hk.resolve_left hfirst
    rw [if_pos (by unfold CList.handle at hgt; omega)]
    rfl

/-- One past the end the range test lets the handle through here too. -/
theorem listRemove_end (h : Stores l m) (destroy : Bool) (r : RemoveResult α) :
    listRemove l (l.handle l.indexes.toNat) destroy ≠ .ok r := by
  have hfirst : ¬ l.handle l.indexes.toNat < l.firstIndex.toNat := by unfold CList.handle; omega
  have hii : l.handle l.indexes.toNat - l.firstIndex.toNat = l.indexes.toNat := by
    unfold CList.handle; omega
  have hrange : ¬ ((l.indexes.toNat : Int) < 0 ∨ (l.indexes.toNat : Int) > l.indexes.toNat) := by
    omega
  unfold listRemove
  rw [if_neg hfirst]
  simp only [hii, if_neg hrange, Int.toNat_natCast]
  intro hr
  obtain ⟨e, he, -⟩ := bind_eq_ok.mp hr
  exact CList.slotAt_ne_ok (Nat.le_of_eq h.count) e he

theorem CList.release_update {i : Nat} {e : ListIndex α} (hi : l.slots[i]? = some e) :
    SlotUpdate l i { e with next := l.free, deleted := 1 } (l.release i e) :=
  ⟨rfl, (SlotUpdate.withSlot (List.getElem?_eq_some_iff.mp hi).1 _).slots⟩

theorem Stores.release (h : Stores l m) {i : Nat} {e : ListIndex α} (hi : l.slots[i]? = some e) :
    Stores (l.release i e) (m.erase (l.handle i)) := by
  have u := CList.release_update hi
  have hnum := h.number _ _ hi
  refine ⟨?_, u.number h hnum, u.live_erase h (by simp)⟩
  simp only [CList.release, CList.slots_setFree, CList.withSlot_slots, List.length_set]
  exact h.count

theorem Refines.remove (h : Refines l m) {i : Nat} {e : ListIndex α} (hi : l.slots[i]? = some e)
    (hd : e.deleted = 0) : Refines (l.release i e) (m.erase (l.handle i)) := by
  have hlt := (List.getElem?_eq_some_iff.mp hi).1
  have u := CList.release_update hi
  have hst := h.stores.release hi
  obtain ⟨c, hc, hnd, hmem⟩ := h.chain
  have hnot : i ∉ c := by
    intro hic
    obtain ⟨e', he', hd'⟩ := (hmem i).mp hic
    rw [hi] at he'
    cases he'
    exact hd' hd
  refine ⟨hst.count, hst.number, hst.live, i :: c, ?_, List.nodup_cons.mpr ⟨hnot, hnd⟩, ?_⟩
  · -- the new head points at slot `i` of the present array, and on to the old head
    obtain ⟨p, hp⟩ : ∃ p, l.addr i = some p := by
      unfold CList.addr
      unfold CList.slots at hlt
      cases hix : l.index with
      | none => rw [hix] at hlt; exact absurd hlt (Nat.not_lt_zero _)
      | some a => exact ⟨_, rfl⟩
    have hpi : p.slot = i := by
      obtain ⟨a, -, ha⟩ := Option.map_eq_some_iff.mp hp
      rw [← ha]
    have haddr : (l.release i e).addr p.slot = some p := by
      rw [hpi, ← hp]
      unfold CList.addr CList.release CList.withSlot
      cases l.index <;> rfl
    have hderef : (l.release i e).deref p = .ok { e with next := l.free, deleted := 1 } := by
      rw [CList.deref_eq_ok]
      exact ⟨haddr, by rw [u.slots, if_pos hpi]⟩
    have hchain := FreeChain.cons hderef ((hc.withSlot hnot _).setFree)
    rw [hpi, ← hp] at hchain
    exact hchain
  · intro j
    rw [u.slots, List.mem_cons]
    by_cases hj : j = i
    · subst hj; simp
    · rw [if_neg hj, ← hmem j]
      simp [hj]

end LuaRtos.Sys
