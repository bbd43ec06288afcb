/-
  LuaRtos.Sys.ListInv

  The handle list against a finite map from handles to items.

  `Refines l m` says that `m` maps exactly the handles of the slots that are
  not deleted to their items, and that the free chain walks the deleted slots,
  each once, through pointers into the present array.  Each operation has one
  equation for what it computes and one lemma for how it moves `Refines`.
-/

import Mathlib.Data.Finmap
import LuaRtos.Sys.List

namespace LuaRtos.Sys

open LuaRtos.CLib

variable {α : Type}

/-- The abstract list: a finite map from handles to items. -/
abbrev ListMap (α : Type) := Finmap fun _ : Int => α

namespace CList

/-! ## Slots -/

/-- The list with slot `i` replaced by `e`. -/
def withSlot (l : CList α) (i : Nat) (e : ListIndex α) : CList α :=
  { l with index := l.index.map fun a => { a with slots := a.slots.set i e } }

@[simp] theorem withSlot_slots (l : CList α) (i : Nat) (e : ListIndex α) :
    (l.withSlot i e).slots = l.slots.set i e := by
  unfold withSlot slots
  cases l.index <;> simp

@[simp] theorem slots_setFree (l : CList α) (p : Option IndexPtr) :
    ({ l with free := p } : CList α).slots = l.slots := rfl

theorem slotAt_eq_ok {l : CList α} {i : Nat} {e : ListIndex α} :
    l.slotAt i = .ok e ↔ l.slots[i]? = some e := by
  unfold slotAt slots
  cases l.index with
  | none => simp
  | some a => cases h : a.slots[i]? <;> simp [h]

/-- A read outside the array is a fault, whether or not there is an array. -/
theorem slotAt_ne_ok {l : CList α} {i : Nat} (hi : l.slots.length ≤ i) (e : ListIndex α) :
    l.slotAt i ≠ .ok e := by
  intro h
  rw [slotAt_eq_ok, List.getElem?_eq_none hi] at h
  cases h

theorem setSlot_eq {l : CList α} {i : Nat} (hi : i < l.slots.length) (e : ListIndex α) :
    l.setSlot i e = .ok (l.withSlot i e) := by
  unfold setSlot withSlot
  unfold slots at hi
  cases h : l.index with
  | none => rw [h] at hi; exact absurd hi (Nat.not_lt_zero _)
  | some a =>
    rw [h] at hi
    simp [hi]

theorem deref_eq_ok {l : CList α} {p : IndexPtr} {e : ListIndex α} :
    l.deref p = .ok e ↔ l.addr p.slot = some p ∧ l.slots[p.slot]? = some e := by
  obtain ⟨b, i⟩ := p
  rw [← slotAt_eq_ok]
  unfold deref addr
  cases h : l.index with
  | none => simp
  | some a =>
    by_cases hb : b = a.block
    · simp [hb]
    · simp [hb, Ne.symm hb]

end CList

/-! ## The free chain -/

/-- The slots met by following `next` from a pointer, in order, up to NULL.
    Every pointer on the way points into the present array. -/
inductive FreeChain (l : CList α) : Option IndexPtr → List Nat → Prop
  | nil : FreeChain l none []
  | cons {p : IndexPtr} {e : ListIndex α} {c : List Nat} (hd : l.deref p = .ok e)
      (hc : FreeChain l e.next c) : FreeChain l (some p) (p.slot :: c)

/-- A chain survives every change to the list that leaves its slots alone. -/
theorem FreeChain.congr {l l' : CList α} {p : Option IndexPtr} {c : List Nat}
    (h : FreeChain l p c)
    (hkeep : ∀ p e, p.slot ∈ c → l.deref p = .ok e → l'.deref p = .ok e) :
    FreeChain l' p c := by
  induction h with
  | nil => exact .nil
  | cons hd _ ih =>
    refine .cons (hkeep _ _ (List.mem_cons_self ..) hd) (ih ?_)
    exact fun p e hp => hkeep p e (List.mem_cons_of_mem _ hp)

theorem FreeChain.withSlot {l : CList α} {p : Option IndexPtr} {c : List Nat} {i : Nat}
    (h : FreeChain l p c) (hi : i ∉ c) (e : ListIndex α) :
    FreeChain (l.withSlot i e) p c := by
  refine h.congr fun q e' hq hd => ?_
  rw [CList.deref_eq_ok] at hd ⊢
  have hne : i ≠ q.slot := fun h => hi (h ▸ hq)
  refine ⟨?_, by rw [CList.withSlot_slots, List.getElem?_set_ne hne]; exact hd.2⟩
  rw [← hd.1]
  unfold CList.addr CList.withSlot
  cases l.index <;> rfl

theorem FreeChain.setFree {l : CList α} {p q : Option IndexPtr} {c : List Nat}
    (h : FreeChain l p c) : FreeChain { l with free := q } p c :=
  h.congr fun _ _ _ hd => hd

/-! ## The refinement relation -/

/-- The handle of slot `i`. -/
def CList.handle (l : CList α) (i : Nat) : Int := i + l.firstIndex.toNat

theorem CList.handle_inj {l : CList α} {i j : Nat} (h : l.handle i = l.handle j) : i = j := by
  unfold CList.handle at h
  omega

/-- The list stores the map `m`. -/
structure Refines (l : CList α) (m : ListMap α) : Prop where
  /-- The counter is the size of the array. -/
  count : l.slots.length = l.indexes.toNat
  /-- A slot knows its own number. -/
  number : ∀ i (e : ListIndex α), l.slots[i]? = some e → e.index.toNat = i
  /-- The slots that are not deleted are the map. -/
  live : ∀ h x, m.lookup h = some x ↔
    ∃ i e, l.slots[i]? = some e ∧ e.deleted = 0 ∧ h = l.handle i ∧ e.item = x
  /-- The free chain is the deleted slots, each once. -/
  chain : ∃ c, FreeChain l l.free c ∧ c.Nodup ∧
    ∀ i, i ∈ c ↔ ∃ e, l.slots[i]? = some e ∧ e.deleted ≠ 0

/-- The array stores the map `m`, whatever the free chain is. -/
structure Stores (l : CList α) (m : ListMap α) : Prop where
  count : l.slots.length = l.indexes.toNat
  number : ∀ i (e : ListIndex α), l.slots[i]? = some e → e.index.toNat = i
  live : ∀ h x, m.lookup h = some x ↔
    ∃ i e, l.slots[i]? = some e ∧ e.deleted = 0 ∧ h = l.handle i ∧ e.item = x

section Refines

variable {l : CList α} {m : ListMap α}

theorem Refines.stores (h : Refines l m) : Stores l m := ⟨h.count, h.number, h.live⟩

theorem refines_init (first : Int) : Refines (listInit first : CList α) ∅ where
  count := rfl
  number := by intro i e h; simp [listInit, CList.slots] at h
  live := by intro h x; simp [listInit, CList.slots]
  chain := ⟨[], .nil, List.nodup_nil, by intro i; simp [listInit, CList.slots]⟩

/-- A handle whose slot is not deleted is live. -/
theorem Stores.lookup_slot (h : Stores l m) {i : Nat} {e : ListIndex α}
    (hi : l.slots[i]? = some e) (hd : e.deleted = 0) :
    m.lookup (l.handle i) = some e.item :=
  (h.live _ _).mpr ⟨i, e, hi, hd, rfl, rfl⟩

/-- A handle whose slot is deleted, or is not a slot at all, is not live. -/
theorem Stores.lookup_handle_none (h : Stores l m) {i : Nat}
    (hi : ∀ e, l.slots[i]? = some e → e.deleted ≠ 0) : m.lookup (l.handle i) = none := by
  rw [Option.eq_none_iff_forall_ne_some]
  intro x hx
  obtain ⟨j, e, hj, hd, hij, -⟩ := (h.live _ _).mp hx
  cases CList.handle_inj hij
  exact hi e hj hd

theorem Stores.slot_lt (h : Stores l m) {i : Nat} {e : ListIndex α}
    (hi : l.slots[i]? = some e) : i < l.indexes.toNat := by
  rw [← h.count]
  exact (List.getElem?_eq_some_iff.mp hi).1

theorem Stores.exists_slot (h : Stores l m) {i : Nat} (hi : i < l.indexes.toNat) :
    ∃ e, l.slots[i]? = some e := by
  rw [← h.count] at hi
  exact ⟨_, List.getElem?_eq_getElem hi⟩

/-- The live handles lie from `first_index` on, one for each slot. -/
theorem Stores.mem_handle (h : Stores l m) {k : Int} (hk : k ∈ m) :
    ∃ i e, l.slots[i]? = some e ∧ e.deleted = 0 ∧ k = l.handle i := by
  obtain ⟨x, hx⟩ := Finmap.mem_iff.mp hk
  obtain ⟨i, e, hi, hd, hh, -⟩ := (h.live _ _).mp hx
  exact ⟨i, e, hi, hd, hh⟩

/-- While nothing is free every slot is live, so the map is as large as the
    array. -/
theorem Refines.indexes_le_card (h : Refines l m) (hf : l.free = none) :
    l.indexes.toNat ≤ m.keys.card := by
  obtain ⟨c, hc, -, hdel⟩ := h.chain
  rw [hf] at hc
  cases hc
  have hsub : (Finset.range l.indexes.toNat).image l.handle ⊆ m.keys := by
    intro k hk
    obtain ⟨i, hi, rfl⟩ := Finset.mem_image.mp hk
    obtain ⟨e, he⟩ := h.stores.exists_slot (Finset.mem_range.mp hi)
    have hd : e.deleted = 0 := by
      by_contra hne
      exact absurd ((hdel i).mpr ⟨e, he, hne⟩) (List.not_mem_nil)
    exact Finmap.mem_keys.mpr (Finmap.mem_iff.mpr ⟨_, h.stores.lookup_slot he hd⟩)
  calc l.indexes.toNat = ((Finset.range l.indexes.toNat).image l.handle).card := by
        rw [Finset.card_image_of_injective _ fun i j => CList.handle_inj, Finset.card_range]
    _ ≤ m.keys.card := Finset.card_le_card hsub

end Refines

end LuaRtos.Sys
