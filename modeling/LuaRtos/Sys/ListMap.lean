/-
  LuaRtos.Sys.ListMap

  Runs of the handle list, tracked by the finite map of the live handles.

  `Careful` is what a caller has to keep to: `list_add` is called only when it
  need not grow the array or can grow it, and `list_remove` only with a live
  handle or one the range test refuses.  Under it the list stores the map in
  every state.  `WellUsed` is the plainer discipline of few live items and
  enough memory.
-/

import LuaRtos.Lts.Run
import LuaRtos.Sys.ListOps

namespace LuaRtos.Sys

open LuaRtos.CLib

variable {α : Type}

/-- A call on the list. -/
inductive ListOp (α : Type) where
  | add (item : α) (malloc : Option (Nat → ListIndex α))
  | get (index : Int)
  | remove (index : Int) (destroy : Bool)

/-- The list and the map of the handles that were given out and not removed. -/
structure Tracked (α : Type) where
  list : CList α
  map : ListMap α

/-- A call that returns, with its effect on the live handles. -/
inductive ListStep : Tracked α → ListOp α → Tracked α → Prop
  | add {l l' : CList α} {m : ListMap α} {item : α} {malloc : Option (Nat → ListIndex α)} {k : Int}
      (h : listAdd l item malloc = .ok ⟨.success, some k, l'⟩) :
      ListStep ⟨l, m⟩ (.add item malloc) ⟨l', m.insert k item⟩
  | addFails {l : CList α} {m : ListMap α} {item : α} {malloc : Option (Nat → ListIndex α)}
      {r : AddResult α} (h : listAdd l item malloc = .ok r) (hr : r.ret ≠ .success) :
      ListStep ⟨l, m⟩ (.add item malloc) ⟨r.list, m⟩
  | get {l : CList α} {m : ListMap α} {k : Int} {r : Errno × Option α} (h : listGet l k = .ok r) :
      ListStep ⟨l, m⟩ (.get k) ⟨l, m⟩
  | remove {l l' : CList α} {m : ListMap α} {k : Int} {destroy : Bool} {freed : Option α}
      (h : listRemove l k destroy = .ok ⟨.success, freed, l'⟩) :
      ListStep ⟨l, m⟩ (.remove k destroy) ⟨l', m.erase k⟩
  | removeFails {l : CList α} {m : ListMap α} {k : Int} {destroy : Bool} {r : RemoveResult α}
      (h : listRemove l k destroy = .ok r) (hr : r.ret ≠ .success) :
      ListStep ⟨l, m⟩ (.remove k destroy) ⟨r.list, m⟩

/-- The runs of calls after `list_init`. -/
def listSys (firstIndex : Int) : Lts (Tracked α) (ListOp α) where
  init s := s = ⟨listInit firstIndex, ∅⟩
  step := ListStep

/-- `list_add` has a free slot, or memory and a counter that can go up. -/
def AddCond (l : CList α) (malloc : Option (Nat → ListIndex α)) : Prop :=
  l.free ≠ none ∨ malloc.isSome ∧ l.indexes ≠ 255

/-- `list_remove` is given a live handle, or one outside the range test. -/
def RemoveCond (s : Tracked α) (k : Int) : Prop :=
  k ∈ s.map ∨ k < s.list.firstIndex.toNat ∨ s.list.handle s.list.indexes.toNat < k

/-- The discipline under which the list stores the map. -/
def Careful (s : Tracked α) : ListOp α → Prop
  | .add _ malloc => AddCond s.list malloc
  | .get _ => True
  | .remove k _ => RemoveCond s k

/-- Memory is there, at most 254 items are live, and only live handles are
    removed. -/
def WellUsed (s : Tracked α) : ListOp α → Prop
  | .add _ malloc => malloc.isSome ∧ s.map.keys.card < 254
  | .get _ => True
  | .remove k _ => k ∈ s.map

section Steps

variable {l : CList α} {m : ListMap α}

/-- What `list_add` does when it can: a fresh handle, and one slot written. -/
theorem Refines.listAdd_ok (h : Refines l m) {malloc : Option (Nat → ListIndex α)}
    (hc : AddCond l malloc) (item : α) :
    ∃ i e l', listAdd l item malloc = .ok ⟨.success, some (l.handle i), l'⟩ ∧
      m.lookup (l.handle i) = none ∧ SlotUpdate l i e l' ∧
      Refines l' (m.insert (l.handle i) item) := by
  cases hf : l.free with
  | some p =>
    obtain ⟨e, -, hd, -⟩ := h.chain_head hf
    obtain ⟨hfresh, href⟩ := h.add_free hf hd item
    exact ⟨p.slot, _, _, listAdd_free h.stores hf hd item malloc, hfresh,
      CList.reuse_update hd item, href⟩
  | none =>
    obtain ⟨hsome, hn⟩ := hc.resolve_left (fun hne => hne hf)
    obtain ⟨mem, rfl⟩ := Option.isSome_iff_exists.mp hsome
    obtain ⟨b, hb⟩ := listAdd_grow h.stores hf hn item mem
    obtain ⟨hfresh, href⟩ := h.add_grow hf hn b item
    exact ⟨l.indexes.toNat, _, _, hb, hfresh, CList.grow_update h.stores b item, href⟩

/-- A `list_add` that returns has stored the item under a fresh handle, or had
    no memory. -/
theorem Refines.listAdd_cases (h : Refines l m) {item : α} {malloc : Option (Nat → ListIndex α)}
    {r : AddResult α} (hr : listAdd l item malloc = .ok r) :
    (∃ k l', r = ⟨.success, some k, l'⟩ ∧ m.lookup k = none ∧ Refines l' (m.insert k item)) ∨
      r.ret = .enomem := by
  by_cases hc : AddCond l malloc
  · obtain ⟨i, e, l', heq, hfresh, -, href⟩ := h.listAdd_ok hc item
    rw [hr] at heq
    cases heq
    exact .inl ⟨_, l', rfl, hfresh, href⟩
  · obtain ⟨hf, hn⟩ := not_or.mp hc
    rw [not_not] at hf
    cases malloc with
    | none =>
      rw [listAdd_enomem hf] at hr
      cases hr
      exact .inr rfl
    | some mem =>
      have hn : l.indexes = 255 := by simpa using hn
      rw [listAdd_wrap h.stores hf hn] at hr
      cases hr

/-- What `list_remove` does with a live handle. -/
theorem Refines.listRemove_ok (h : Refines l m) {k : Int} (hk : k ∈ m) (destroy : Bool) :
    ∃ freed l', listRemove l k destroy = .ok ⟨.success, freed, l'⟩ ∧ Refines l' (m.erase k) := by
  obtain ⟨i, e, hi, hd, rfl⟩ := h.stores.mem_handle hk
  exact ⟨_, _, listRemove_slot h.stores hi destroy, h.remove hi hd⟩

/-- `list_remove` of a live handle frees its item. -/
theorem Refines.listRemove_lookup (h : Refines l m) {k : Int} {x : α} (hk : m.lookup k = some x) :
    ∃ l', listRemove l k true = .ok ⟨.success, some x, l'⟩ ∧ Refines l' (m.erase k) := by
  obtain ⟨i, e, hi, hd, rfl, rfl⟩ := (h.live _ _).mp hk
  exact ⟨_, listRemove_slot h.stores hi true, h.remove hi hd⟩

/-- Every careful call that returns keeps the list and the map together. -/
theorem Refines.step {s s' : Tracked α} {a : ListOp α} (h : Refines s.list s.map)
    (hok : Careful s a) (hs : ListStep s a s') : Refines s'.list s'.map := by
  cases hs with
  | @add l l' m item malloc k hadd =>
    obtain ⟨i, e, l'', heq, -, -, href⟩ := h.listAdd_ok hok item
    rw [hadd] at heq
    cases heq
    exact href
  | @addFails l m item malloc r hadd hr =>
    obtain ⟨i, e, l'', heq, -⟩ := h.listAdd_ok hok item
    rw [hadd] at heq
    cases heq
    exact absurd rfl hr
  | get _ => exact h
  | @remove l l' m k destroy freed hrem =>
    rcases hok with hk | hout
    · obtain ⟨freed', l'', heq, href⟩ := h.listRemove_ok hk destroy
      rw [hrem] at heq
      cases heq
      exact href
    · rw [listRemove_out hout] at hrem
      cases hrem
  | @removeFails l m k destroy r hrem hr =>
    rcases hok with hk | hout
    · obtain ⟨freed', l'', heq, -⟩ := h.listRemove_ok hk destroy
      rw [hrem] at heq
      cases heq
      exact absurd rfl hr
    · rw [listRemove_out hout] at hrem
      cases hrem
      exact h

theorem Refines.careful {s : Tracked α} {a : ListOp α} (h : Refines s.list s.map)
    (hok : WellUsed s a) : Careful s a := by
  cases a with
  | add item malloc =>
    obtain ⟨hsome, hcard⟩ := hok
    by_cases hf : s.list.free = none
    · refine .inr ⟨hsome, fun hn => ?_⟩
      have hle := h.indexes_le_card hf
      have h255 : s.list.indexes.toNat = 255 := by rw [hn]; rfl
      omega
    · exact .inl hf
  | get _ => trivial
  | remove k destroy => exact .inl hok

theorem refines_of_careful {first : Int} {s : Tracked α} (h : (listSys first).Reach Careful s) :
    Refines s.list s.map := by
  refine Lts.Reach.invariant (I := fun s => Refines s.list s.map) ?_ ?_ h
  · rintro s rfl
    exact refines_init first
  · intro s a s' hi hok hs
    exact hi.step hok hs

theorem refines_of_wellUsed {first : Int} {s : Tracked α} (h : (listSys first).Reach WellUsed s) :
    Refines s.list s.map := by
  refine Lts.Reach.invariant (I := fun s => Refines s.list s.map) ?_ ?_ h
  · rintro s rfl
    exact refines_init first
  · intro s a s' hi hok hs
    exact hi.step (hi.careful hok) hs

end Steps

/-! ## The list as a finite map -/

/-- Every other live handle still yields the item it did. -/
def KeepsOthers (s : Tracked α) (k : Int) (l' : CList α) : Prop :=
  ∀ k' ∈ s.map, k' ≠ k → listGet l' k' = listGet s.list k'

theorem keepsOthers_of_lookup {s : Tracked α} (h : Refines s.list s.map) {k : Int} {l' : CList α}
    {m' : ListMap α} (h' : Refines l' m')
    (hsame : ∀ k', k' ≠ k → m'.lookup k' = s.map.lookup k') : KeepsOthers s k l' := by
  intro k' hk' hne
  obtain ⟨x, hx⟩ := Finmap.mem_iff.mp hk'
  rw [listGet_live h hx, listGet_live h' ((hsame k' hne).trans hx)]

/-- The handle list refines a finite map: fresh handles, lookups of what was
    last stored, no interference, and a free chain of exactly the slots whose
    handles are not live. -/
theorem list_refines_map {first : Int} {s : Tracked α} (h : (listSys first).Reach WellUsed s) :
    (∀ item malloc, WellUsed s (.add item malloc) →
      ∃ k l', listAdd s.list item malloc = .ok ⟨.success, some k, l'⟩ ∧ k ∉ s.map ∧
        KeepsOthers s k l') ∧
    (∀ k x, s.map.lookup k = some x → listGet s.list k = .ok (.success, some x)) ∧
    (∀ k destroy, WellUsed s (.remove k destroy) →
      ∃ freed l', listRemove s.list k destroy = .ok ⟨.success, freed, l'⟩ ∧ KeepsOthers s k l') ∧
    ∃ c, FreeChain s.list s.list.free c ∧ c.Nodup ∧
      ∀ i, i ∈ c ↔ i < s.list.indexes.toNat ∧ s.list.handle i ∉ s.map := by
  have href := refines_of_wellUsed h
  refine ⟨?_, fun k x => listGet_live href, ?_, ?_⟩
  · intro item malloc hok
    obtain ⟨i, e, l', heq, hfresh, -, href'⟩ := href.listAdd_ok (href.careful hok) item
    exact ⟨_, l', heq, Finmap.lookup_eq_none.mp hfresh,
      keepsOthers_of_lookup href href' fun k' hne => Finmap.lookup_insert_of_ne _ hne⟩
  · intro k destroy hk
    obtain ⟨freed, l', heq, href'⟩ := href.listRemove_ok hk destroy
    exact ⟨freed, l', heq,
      keepsOthers_of_lookup href href' fun k' hne => Finmap.lookup_erase_ne hne⟩
  · obtain ⟨c, hc, hnd, hmem⟩ := href.chain
    refine ⟨c, hc, hnd, fun i => (hmem i).trans ⟨?_, ?_⟩⟩
    · rintro ⟨e, he, hd⟩
      refine ⟨href.stores.slot_lt he, Finmap.lookup_eq_none.mp (href.stores.lookup_handle_none ?_)⟩
      intro e' he'
      rw [he] at he'
      cases he'
      exact hd
    · rintro ⟨hlt, hnot⟩
      obtain ⟨e, he⟩ := href.stores.exists_slot hlt
      refine ⟨e, he, fun hd => hnot ?_⟩
      exact Finmap.mem_iff.mpr ⟨_, href.stores.lookup_slot he hd⟩

/-- One item under handle 1, as `list_add` stores it in a list from `list_init(list, 1)`. -/
def oneItem : Tracked Nat :=
  ⟨⟨some ⟨0, [⟨7, 0, 0, none⟩]⟩, none, 1, 1⟩, (∅ : ListMap Nat).insert 1 7⟩

theorem oneItem_reach {ok : Tracked Nat → ListOp Nat → Prop}
    (hok : ok ⟨listInit 1, ∅⟩ (.add 7 (some fun _ => ⟨0, 0, 0, none⟩))) :
    (listSys 1).Reach ok oneItem :=
  .step (.init rfl) hok (.add rfl)

theorem list_refines_map_oneItem :
    (∀ item malloc, WellUsed oneItem (.add item malloc) →
      ∃ k l', listAdd oneItem.list item malloc = .ok ⟨.success, some k, l'⟩ ∧ k ∉ oneItem.map ∧
        KeepsOthers oneItem k l') ∧
    (∀ k x, oneItem.map.lookup k = some x → listGet oneItem.list k = .ok (.success, some x)) ∧
    (∀ k destroy, WellUsed oneItem (.remove k destroy) →
      ∃ freed l', listRemove oneItem.list k destroy = .ok ⟨.success, freed, l'⟩ ∧
        KeepsOthers oneItem k l') ∧
    ∃ c, FreeChain oneItem.list oneItem.list.free c ∧ c.Nodup ∧
      ∀ i, i ∈ c ↔ i < oneItem.list.indexes.toNat ∧ oneItem.list.handle i ∉ oneItem.map :=
  list_refines_map (oneItem_reach ⟨rfl, by decide⟩)

end LuaRtos.Sys
