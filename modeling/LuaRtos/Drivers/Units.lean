/-
  LuaRtos.Drivers.Units

  The units of a driver that keeps them in a handle list: the list, and the blocks
  that its items point to.

  A driver allocates the block of a unit, and gives it to `list_add`; where a later
  step fails it calls `list_remove`, which frees the block.  The array of the list
  stays as long as it has become.
-/

import LuaRtos.CLib.Heap
import LuaRtos.Sys.ListMap

namespace LuaRtos.Driver

open LuaRtos.CLib Sys

variable {α : Type}

/-- The list of a driver's units, and their blocks. -/
structure Units (α : Type) where
  list : CList Nat
  blocks : Heap α

/-- The driver after `list_init(list, 0)`. -/
def Units.start : Units α := ⟨listInit 0, []⟩

/-- `list_add` of a block that was just allocated, with its handle for `*item_index`;
    the block is freed where `list_add` fails. -/
def Units.add (u : Units α) (index : Option (Nat → ListIndex Nat)) (x : Int → α) :
    Result (Option Int × Units α) := do
  let r ← listAdd u.list u.blocks.length index
  match r.ret, r.itemIndex with
  | .success, some k => pure (some k, ⟨r.list, u.blocks.alloc (x k)⟩)
  | _, _ => do
    let blocks ← (u.blocks.alloc (x 0)).free u.blocks.length
    pure (none, ⟨r.list, blocks⟩)

/-- `list_remove(list, unit, 1)`. -/
def Units.remove (u : Units α) (unit : Int) : Result (Units α) := do
  let r ← listRemove u.list unit true
  match r.freed with
  | some p => do
    let blocks ← u.blocks.free p
    pure ⟨r.list, blocks⟩
  | none => pure ⟨r.list, u.blocks⟩

/-- The handle that `list_add` gives out next. -/
def nextHandle (l : CList α) : Int :=
  match l.free with
  | some p => l.handle p.slot
  | none => l.handle l.indexes.toNat

/-- The blocks that are allocated are the same. -/
def SameBlocks (h h' : Heap α) : Prop :=
  ∀ (p : Nat) (x : α), h'[p]? = some (some x) ↔ h[p]? = some (some x)

/-- The list has the same live handles, and the blocks are the same. -/
structure Units.Same (u u' : Units α) : Prop where
  list : ∀ m, Refines u.list m → Refines u'.list m
  blocks : SameBlocks u.blocks u'.blocks

theorem SameBlocks.refl (h : Heap α) : SameBlocks h h := fun _ _ => Iff.rfl

theorem SameBlocks.trans {h₁ h₂ h₃ : Heap α} (h : SameBlocks h₁ h₂) (h' : SameBlocks h₂ h₃) :
    SameBlocks h₁ h₃ := fun p x => (h' p x).trans (h p x)

theorem SameBlocks.freed (h : Heap α) : SameBlocks h (h ++ [none]) :=
  fun _ _ => Heap.getElem?_append_none_iff

/-- A block that was not there before. -/
theorem not_sameBlocks_alloc {h : Heap α} {a : α} : ¬ SameBlocks h (h.alloc a) := by
  intro hsame
  have hnew := (hsame h.length a).mp Heap.getElem?_alloc_self
  rw [List.getElem?_eq_none (Nat.le_refl _)] at hnew
  cases hnew

theorem Units.Same.refl (u : Units α) : u.Same u := ⟨fun _ => id, .refl _⟩

theorem Units.Same.trans {u₁ u₂ u₃ : Units α} (h : u₁.Same u₂) (h' : u₂.Same u₃) : u₁.Same u₃ :=
  ⟨fun m hm => h'.list m (h.list m hm), h.blocks.trans h'.blocks⟩

section Handles

variable {u : Units α} {m : ListMap Nat} {index : Option (Nat → ListIndex Nat)} {x : Int → α}

/-- A list stores one map. -/
theorem Refines.unique {l : CList Nat} {m' : ListMap Nat} (h : Refines l m) (h' : Refines l m') :
    m = m' := by
  refine Finmap.ext_lookup fun k => Option.ext fun p => ?_
  exact (h.live k p).trans (h'.live k p).symm

theorem erase_insert {k : Int} {p : Nat} (hfresh : m.lookup k = none) :
    (m.insert k p).erase k = m := by
  refine Finmap.ext_lookup fun k' => ?_
  by_cases hk : k' = k
  · rw [hk, Finmap.lookup_erase, hfresh]
  · rw [Finmap.lookup_erase_ne hk, Finmap.lookup_insert_of_ne _ hk]

/-- What `list_add` gives out when it can. -/
theorem Refines.listAdd_next {l : CList Nat} (h : Refines l m) (hc : AddCond l index)
    (item : Nat) :
    ∃ l', listAdd l item index = .ok ⟨.success, some (nextHandle l), l'⟩ ∧
      m.lookup (nextHandle l) = none ∧ Refines l' (m.insert (nextHandle l) item) := by
  unfold nextHandle
  cases hf : l.free with
  | some p =>
    obtain ⟨e, -, hd, -⟩ := h.chain_head hf
    obtain ⟨hfresh, href⟩ := h.add_free hf hd item
    exact ⟨_, listAdd_free h.stores hf hd item index, hfresh, href⟩
  | none =>
    obtain ⟨hsome, hn⟩ := hc.resolve_left (fun hne => hne hf)
    obtain ⟨mem, rfl⟩ := Option.isSome_iff_exists.mp hsome
    obtain ⟨b, hb⟩ := listAdd_grow h.stores hf hn item mem
    obtain ⟨hfresh, href⟩ := h.add_grow hf hn b item
    exact ⟨_, hb, hfresh, href⟩

theorem Units.add_ok (h : Refines u.list m) (hc : AddCond u.list index) :
    ∃ l', u.add index x = .ok (some (nextHandle u.list),
        ⟨l', u.blocks.alloc (x (nextHandle u.list))⟩) ∧
      m.lookup (nextHandle u.list) = none ∧
      Refines l' (m.insert (nextHandle u.list) u.blocks.length) := by
  obtain ⟨l', hadd, hfresh, href⟩ := Refines.listAdd_next h hc u.blocks.length
  refine ⟨l', ?_, hfresh, href⟩
  unfold Units.add
  rw [hadd]
  rfl

/-- A list that cannot grow loses its count, or is left behind by an access out of
    bounds. -/
theorem Units.add_fails (h : Refines u.list m) (hc : ¬ AddCond u.list index) :
    (∃ f, u.add index x = .error f) ∨
      ∃ u', u.add index x = .ok (none, u') ∧ ¬ u.Same u' := by
  obtain ⟨hf, hn⟩ := not_or.mp hc
  rw [not_not] at hf
  cases index with
  | none =>
    refine .inr ⟨⟨{ u.list with indexes := u.list.indexes + 1 }, u.blocks ++ [none]⟩, ?_, ?_⟩
    · unfold Units.add
      rw [listAdd_enomem hf, ok_bind]
      show ((u.blocks.alloc (x 0)).free u.blocks.length >>= _) = _
      rw [Heap.free_alloc]
      rfl
    · intro hsame
      -- the array has one slot less than the count
      have hcount := (hsame.list m h).count
      have hold : u.list.slots.length = u.list.indexes.toNat := h.count
      have hslots : ({ u.list with indexes := u.list.indexes + 1 } : CList Nat).slots =
          u.list.slots := rfl
      have hmod : (u.list.indexes + 1).toNat = (u.list.indexes.toNat + 1) % 256 := by
        simp [UInt8.toNat_add]
      have hlt := u.list.indexes.toNat_lt
      rw [hslots, hold, hmod] at hcount
      omega
  | some mem =>
    have hn : u.list.indexes = 255 := by simpa using hn
    refine .inl ⟨.outOfBounds, ?_⟩
    unfold Units.add
    rw [listAdd_wrap h.stores hf hn]
    rfl

/-- The slot of a handle that is removed is free. -/
theorem listRemove_free {l l' : CList Nat} {k : Int} {destroy : Bool} {freed : Option Nat}
    (hrem : listRemove l k destroy = .ok ⟨.success, freed, l'⟩) : l'.free ≠ none := by
  unfold listRemove at hrem
  split at hrem
  · cases hrem
  · dsimp only at hrem
    split at hrem
    · cases hrem
    · obtain ⟨e, hslot, hrem⟩ := bind_eq_ok.mp hrem
      obtain ⟨l₁, -, hrem⟩ := bind_eq_ok.mp hrem
      cases hrem
      unfold CList.addr
      unfold CList.slotAt at hslot
      cases hindex : l.index with
      | none =>
        rw [hindex] at hslot
        cases hslot
      | some a => exact Option.some_ne_none _

/-- `list_remove` takes back what `list_add` has done, and leaves a free slot. -/
theorem Units.remove_added {l' : CList Nat} {k : Int} (h : Refines u.list m)
    (hfresh : m.lookup k = none) (href : Refines l' (m.insert k u.blocks.length)) :
    ∃ u', u.Same u' ∧ u'.list.free ≠ none ∧
      ∀ x, Units.remove ⟨l', u.blocks.alloc x⟩ k = .ok u' := by
  obtain ⟨l'', hrem, href'⟩ := href.listRemove_lookup (Finmap.lookup_insert _)
  refine ⟨⟨l'', u.blocks ++ [none]⟩, ⟨?_, .freed _⟩, listRemove_free hrem, ?_⟩
  · intro m' hm'
    obtain rfl := Refines.unique h hm'
    rwa [erase_insert hfresh] at href'
  · intro x
    unfold Units.remove
    rw [hrem, ok_bind]
    show ((u.blocks.alloc x).free u.blocks.length >>= _) = _
    rw [Heap.free_alloc]
    rfl

end Handles

end LuaRtos.Driver
