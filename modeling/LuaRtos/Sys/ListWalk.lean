/-
  LuaRtos.Sys.ListWalk

  Walks of the handle list with `list_first` and `list_next`, as `thread_stop`
  makes one: the handle just visited may be removed before the walk goes on.

  A walk is right as soon as the array stores the map (`Stores`); the free
  chain is not looked at.  So a handle that is removed twice does no harm here,
  and the one thing the caller has to see to is that `list_add` does not fail
  (`AddsFit`): it advances the counter all the same, and the loops then run
  past the array.
-/

import LuaRtos.Sys.ListMap

namespace LuaRtos.Sys

open LuaRtos.CLib

variable {α : Type}

/-- The removal of the handle just visited, where the caller wants it. -/
def walkRemove (removes : Int → Bool) (destroy : Bool) (l : CList α) (idx : Int) :
    Result (CList α) :=
  if removes idx then do
    let r ← listRemove l idx destroy
    pure r.list
  else pure l

/-- The rest of a walk that stands at `idx`: the handles it visits, and the
    list it leaves. -/
def walkFrom (removes : Int → Bool) (destroy : Bool) :
    Nat → CList α → Int → Result (List Int × CList α)
  | 0, _, _ => throw .diverged
  | fuel + 1, l, idx =>
    if idx < 0 then pure ([], l)
    else do
      let l ← walkRemove removes destroy l idx
      let next ← listNext l idx
      let rest ← walkFrom removes destroy fuel l next
      pure (idx :: rest.1, rest.2)

/-- `for (idx = list_first(l); idx >= 0; idx = list_next(l, idx))`. -/
def listWalk (removes : Int → Bool) (destroy : Bool) (l : CList α) :
    Result (List Int × CList α) := do
  let idx ← listFirst l
  walkFrom removes destroy (l.indexes.toNat + 1) l idx

/-- Every walk visits the live handles, each once and in increasing order, and
    takes out the ones it was to remove and no other. -/
def WalksLive (s : Tracked α) : Prop :=
  ∀ (removes : Int → Bool) (destroy : Bool), ∃ ks l' m',
    listWalk removes destroy s.list = .ok (ks, l') ∧ ks.Pairwise (· < ·) ∧
      (∀ k, k ∈ ks ↔ k ∈ s.map) ∧ Stores l' m' ∧
      ∀ k x, m'.lookup k = some x ↔ s.map.lookup k = some x ∧ ¬ removes k

/-- `list_add` has a free slot, or memory and a counter that can go up. -/
def AddsFit (s : Tracked α) : ListOp α → Prop
  | .add _ malloc => AddCond s.list malloc
  | .get _ => True
  | .remove _ _ => True

/-! ## The array and the map over a run -/

section Stores

variable {l : CList α} {m : ListMap α}

theorem Stores.listAdd_of_ok (h : Stores l m) {item : α} {malloc : Option (Nat → ListIndex α)}
    {r : AddResult α} (hc : AddCond l malloc) (hr : listAdd l item malloc = .ok r) :
    ∃ k l', r = ⟨.success, some k, l'⟩ ∧ Stores l' (m.insert k item) := by
  cases hf : l.free with
  | some p =>
    -- the pointer was followed, so it leads to a slot of the present array
    obtain ⟨e, hd⟩ : ∃ e, l.deref p = .ok e := by
      unfold listAdd at hr
      rw [hf] at hr
      obtain ⟨e, hd, -⟩ := bind_eq_ok.mp hr
      exact ⟨e, hd⟩
    rw [listAdd_free h hf hd item malloc] at hr
    exact ⟨_, _, (Except.ok.inj hr).symm, h.reuse hd item⟩
  | none =>
    obtain ⟨hsome, hn⟩ := hc.resolve_left (fun hne => hne hf)
    obtain ⟨mem, rfl⟩ := Option.isSome_iff_exists.mp hsome
    obtain ⟨b, hb⟩ := listAdd_grow h hf hn item mem
    rw [hb] at hr
    exact ⟨_, _, (Except.ok.inj hr).symm, h.grow hn b item⟩

/-- A removal that returns took out a slot of the array, or changed nothing. -/
theorem Stores.listRemove_of_ok (h : Stores l m) {k : Int} {destroy : Bool} {r : RemoveResult α}
    (hr : listRemove l k destroy = .ok r) :
    (r.ret = .success ∧ Stores r.list (m.erase k)) ∨ (r.ret = .einval ∧ r.list = l) := by
  by_cases hout : k < l.firstIndex.toNat ∨ l.handle l.indexes.toNat < k
  · rw [listRemove_out hout] at hr
    cases hr
    exact .inr ⟨rfl, rfl⟩
  · obtain ⟨hlow, hhigh⟩ := not_or.mp hout
    obtain ⟨i, rfl⟩ : ∃ i : Nat, k = l.handle i :=
      ⟨(k - l.firstIndex.toNat).toNat, by unfold CList.handle; omega⟩
    have hle : i ≤ l.indexes.toNat := by unfold CList.handle at hhigh; omega
    rcases Nat.lt_or_eq_of_le hle with hlt | rfl
    · obtain ⟨e, he⟩ := h.exists_slot hlt
      rw [listRemove_slot h he] at hr
      cases hr
      exact .inl ⟨rfl, h.release he⟩
    · exact absurd hr (listRemove_end h destroy r)

theorem Stores.step {s s' : Tracked α} {a : ListOp α} (h : Stores s.list s.map)
    (hok : AddsFit s a) (hs : ListStep s a s') : Stores s'.list s'.map := by
  cases hs with
  | add hadd =>
    obtain ⟨k, l', heq, hst⟩ := h.listAdd_of_ok hok hadd
    cases heq
    exact hst
  | addFails hadd hr =>
    obtain ⟨k, l', rfl, -⟩ := h.listAdd_of_ok hok hadd
    exact absurd rfl hr
  | get _ => exact h
  | remove hrem =>
    rcases h.listRemove_of_ok hrem with ⟨-, hst⟩ | ⟨hret, -⟩
    · exact hst
    · cases hret
  | removeFails hrem hr =>
    rcases h.listRemove_of_ok hrem with ⟨hret, -⟩ | ⟨-, hl⟩
    · exact absurd hret hr
    · dsimp only at hl ⊢
      rw [hl]
      exact h

theorem stores_of_addsFit {first : Int} {s : Tracked α} (h : (listSys first).Reach AddsFit s) :
    Stores s.list s.map := by
  refine Lts.Reach.invariant (I := fun s => Stores s.list s.map) ?_ ?_ h
  · rintro s rfl
    exact (refines_init first).stores
  · intro s a s' hi hok hs
    exact hi.step hok hs

/-! ## The search for the next live slot -/

theorem Stores.mem_handle_iff (h : Stores l m) {i : Nat} {e : ListIndex α}
    (hi : l.slots[i]? = some e) : l.handle i ∈ m ↔ e.deleted = 0 := by
  constructor
  · intro hmem
    by_contra hd
    have hnone : m.lookup (l.handle i) = none := by
      apply h.lookup_handle_none
      intro e' he'
      rw [hi] at he'
      cases he'
      exact hd
    exact Finmap.lookup_eq_none.mp hnone hmem
  · intro hd
    exact Finmap.mem_iff.mpr ⟨_, h.lookup_slot hi hd⟩

theorem Stores.lt_of_mem (h : Stores l m) {i : Nat} (hi : l.handle i ∈ m) :
    i < l.indexes.toNat := by
  obtain ⟨j, e, hj, -, heq⟩ := h.mem_handle hi
  cases CList.handle_inj heq
  exact h.slot_lt hj

/-- The first live slot from `i` on. -/
def FirstLive (l : CList α) (m : ListMap α) (i : Nat) : Option Nat → Prop
  | none => ∀ j, i ≤ j → l.handle j ∉ m
  | some j => i ≤ j ∧ l.handle j ∈ m ∧ ∀ j', i ≤ j' → j' < j → l.handle j' ∉ m

theorem FirstLive.of_succ {i : Nat} {o : Option Nat} (hnot : l.handle i ∉ m)
    (h : FirstLive l m (i + 1) o) : FirstLive l m i o := by
  cases o with
  | none =>
    intro j hj
    rcases Nat.eq_or_lt_of_le hj with rfl | hlt
    · exact hnot
    · exact h j hlt
  | some k =>
    obtain ⟨hle, hmem, hbetween⟩ := h
    refine ⟨by omega, hmem, ?_⟩
    intro j hj hjk
    rcases Nat.eq_or_lt_of_le hj with rfl | hlt
    · exact hnot
    · exact hbetween j hlt hjk

/-- The loop finds the first live slot, with nothing but slots of the array read. -/
theorem Stores.scanLive_eq (h : Stores l m) :
    ∀ n i, l.indexes.toNat ≤ i + n → i + n ≤ max i l.indexes.toNat →
      ∃ o, scanLive l n i = .ok o ∧ FirstLive l m i o := by
  intro n
  induction n with
  | zero =>
    intro i hi _
    refine ⟨none, rfl, ?_⟩
    intro j hj hmem
    have := h.lt_of_mem hmem
    omega
  | succ n ih =>
    intro i hi hmax
    obtain ⟨e, he⟩ := h.exists_slot (i := i) (by omega)
    have hslot := CList.slotAt_eq_ok.mpr he
    by_cases hd : e.deleted = 0
    · refine ⟨some i, ?_, Nat.le_refl i, (h.mem_handle_iff he).mpr hd, by omega⟩
      simp only [scanLive, hslot, ok_bind, if_pos hd, pure_eq_ok]
    · obtain ⟨o, ho, hfirst⟩ := ih (i + 1) (by omega) (by omega)
      refine ⟨o, ?_, hfirst.of_succ fun hmem => hd ((h.mem_handle_iff he).mp hmem)⟩
      simp only [scanLive, hslot, ok_bind, if_neg hd, ho]

theorem Stores.listFirst_eq (h : Stores l m) :
    ∃ o, listFirst l = .ok (handleOf l o) ∧ FirstLive l m 0 o := by
  obtain ⟨o, ho, hfirst⟩ := h.scanLive_eq l.indexes.toNat 0 (by omega) (by omega)
  refine ⟨o, ?_, hfirst⟩
  simp only [listFirst, ho, ok_bind, pure_eq_ok]

theorem Stores.listNext_eq (h : Stores l m) (i : Nat) :
    ∃ o, listNext l (l.handle i) = .ok (handleOf l o) ∧ FirstLive l m (i + 1) o := by
  obtain ⟨o, ho, hfirst⟩ :=
    h.scanLive_eq (l.indexes.toNat - (i + 1)) (i + 1) (by omega) (by omega)
  have hlow : ¬ l.handle i < l.firstIndex.toNat := by unfold CList.handle; omega
  have hi : (l.handle i - l.firstIndex.toNat + 1).toNat = i + 1 := by unfold CList.handle; omega
  refine ⟨o, ?_, hfirst⟩
  simp only [listNext, if_neg hlow, hi, ho, ok_bind, pure_eq_ok]

/-! ## The walk -/

/-- The removal of a live handle leaves the other slots, and every slot number. -/
theorem Stores.walkRemove_eq (h : Stores l m) {i : Nat} (hi : l.handle i ∈ m)
    (removes : Int → Bool) (destroy : Bool) :
    ∃ l' m', walkRemove removes destroy l (l.handle i) = .ok l' ∧ Stores l' m' ∧
      l'.indexes = l.indexes ∧ (∀ j, l'.handle j = l.handle j) ∧
      ∀ k x, m'.lookup k = some x ↔
        m.lookup k = some x ∧ ¬ (removes k ∧ k = l.handle i) := by
  unfold walkRemove
  by_cases hr : removes (l.handle i)
  · obtain ⟨e, he⟩ := h.exists_slot (h.lt_of_mem hi)
    refine ⟨l.release i e, m.erase (l.handle i), ?_, h.release he, rfl,
      (CList.release_update he).handle, ?_⟩
    · rw [if_pos hr, listRemove_slot h he]
      rfl
    · intro k x
      by_cases hk : k = l.handle i
      · subst hk
        rw [Finmap.lookup_erase]
        simp [hr]
      · rw [Finmap.lookup_erase_ne hk]
        simp [hk]
  · refine ⟨l, m, by rw [if_neg hr]; rfl, h, rfl, fun _ => rfl, ?_⟩
    intro k x
    constructor
    · intro hx
      refine ⟨hx, ?_⟩
      rintro ⟨hk, rfl⟩
      exact hr hk
    · exact And.left

/-- By induction on the slots left: a walk that stands at the first live slot
    from `i` on visits the live handles from there. -/
theorem Stores.walkFrom_eq (removes : Int → Bool) (destroy : Bool) :
    ∀ (fuel : Nat) (l : CList α) (m : ListMap α) (i : Nat) (o : Option Nat), Stores l m →
      FirstLive l m i o → l.indexes.toNat - i < fuel → ∃ ks l' m',
        walkFrom removes destroy fuel l (handleOf l o) = .ok (ks, l') ∧ ks.Pairwise (· < ·) ∧
        (∀ k, k ∈ ks ↔ k ∈ m ∧ l.handle i ≤ k) ∧ Stores l' m' ∧
        ∀ k x, m'.lookup k = some x ↔ m.lookup k = some x ∧ ¬ (removes k ∧ k ∈ ks) := by
  intro fuel
  induction fuel with
  | zero =>
    intro l m i o _ _ hfuel
    omega
  | succ fuel ih =>
    intro l m i o h hfirst hfuel
    cases o with
    | none =>
      refine ⟨[], l, m, ?_, .nil, ?_, h, by simp⟩
      · simp [walkFrom, handleOf]
      · intro k
        constructor
        · rintro ⟨⟩
        · rintro ⟨hk, hle⟩
          obtain ⟨j, -, -, -, rfl⟩ := h.mem_handle hk
          exact absurd hk (hfirst j (by unfold CList.handle at hle; omega))
    | some j =>
      obtain ⟨hij, hmem, hbetween⟩ := hfirst
      have hj := h.lt_of_mem hmem
      obtain ⟨l₁, m₁, hremove, h₁, hindexes, hhandle, hlookup⟩ :=
        h.walkRemove_eq hmem removes destroy
      obtain ⟨o, hnext, hfirst₁⟩ := h₁.listNext_eq j
      obtain ⟨ks, l', m', hrest, hsorted, hks, h', hlookup'⟩ :=
        ih l₁ m₁ (j + 1) o h₁ hfirst₁ (by rw [hindexes]; omega)
      -- past `j` the removal changed nothing
      have hlater : ∀ k, l.handle j < k → (k ∈ m₁ ↔ k ∈ m) := by
        intro k hk
        rw [Finmap.mem_iff, Finmap.mem_iff]
        apply exists_congr
        intro x
        rw [hlookup]
        apply and_iff_left
        rintro ⟨-, rfl⟩
        exact lt_irrefl _ hk
      have hsucc : ∀ k, l₁.handle (j + 1) ≤ k ↔ l.handle j < k := by
        intro k
        rw [hhandle]
        unfold CList.handle
        omega
      refine ⟨l.handle j :: ks, l', m', ?_, List.pairwise_cons.mpr ⟨?_, hsorted⟩, ?_, h', ?_⟩
      · have hidx : handleOf l (some j) = l.handle j := rfl
        have hpos : ¬ l.handle j < 0 := by unfold CList.handle; omega
        rw [hhandle] at hnext
        rw [hidx, walkFrom, if_neg hpos, hremove, ok_bind, hnext, ok_bind, hrest, ok_bind]
        rfl
      · intro k hk
        exact (hsucc k).mp ((hks k).mp hk).2
      · intro k
        rw [List.mem_cons, hks, hsucc]
        constructor
        · rintro (rfl | ⟨hk, hlt⟩)
          · exact ⟨hmem, by unfold CList.handle; omega⟩
          · exact ⟨(hlater k hlt).mp hk, by unfold CList.handle at hlt ⊢; omega⟩
        · rintro ⟨hk, hle⟩
          obtain ⟨t, -, -, -, rfl⟩ := h.mem_handle hk
          rcases Nat.lt_trichotomy t j with hlt | rfl | hgt
          · exact absurd hk (hbetween t (by unfold CList.handle at hle; omega) hlt)
          · exact .inl rfl
          · have hlt : l.handle j < l.handle t := by unfold CList.handle; omega
            exact .inr ⟨(hlater _ hlt).mpr hk, hlt⟩
      · intro k x
        rw [hlookup', hlookup, List.mem_cons, and_assoc, ← not_or]
        apply and_congr_right
        intro _
        rw [← and_or_left]

end Stores

/-! ## Walks of the lists that runs reach -/

/-- In every run whose calls of `list_add` fit, a walk visits the live handles
    in increasing order, whatever it removes on its way. -/
theorem listWalk_live {first : Int} {s : Tracked α} (h : (listSys first).Reach AddsFit s) :
    WalksLive s := by
  have hst := stores_of_addsFit h
  intro removes destroy
  obtain ⟨o, hfirst, hlive⟩ := hst.listFirst_eq
  obtain ⟨ks, l', m', hwalk, hsorted, hks, hst', hlookup⟩ :=
    hst.walkFrom_eq removes destroy (s.list.indexes.toNat + 1) s.list s.map 0 o hlive (by omega)
  have hall : ∀ k, k ∈ ks ↔ k ∈ s.map := by
    intro k
    rw [hks]
    apply and_iff_left_of_imp
    intro hk
    obtain ⟨i, -, -, -, rfl⟩ := hst.mem_handle hk
    unfold CList.handle
    omega
  refine ⟨ks, l', m', ?_, hsorted, hall, hst', ?_⟩
  · rw [listWalk, hfirst, ok_bind, hwalk]
  · intro k x
    rw [hlookup, hall]
    apply and_congr_right
    intro hx
    rw [and_iff_left (Finmap.mem_iff.mpr ⟨x, hx⟩)]

theorem listWalk_live_oneItem : WalksLive oneItem :=
  listWalk_live (oneItem_reach (.inr ⟨rfl, by decide⟩))

/-- After a first `list_add` that had no memory, `list_first` reads a slot of
    an array that is not there. -/
theorem not_walksLive_enomem :
    ∃ s : Tracked Nat, (listSys 1).Reach (fun _ _ => True) s ∧ ¬ WalksLive s := by
  refine ⟨⟨{ listInit 1 with indexes := 1 }, ∅⟩, ?_, ?_⟩
  · exact .step (.init rfl) trivial (.addFails (listAdd_enomem rfl 7) (by decide))
  · intro h
    obtain ⟨ks, l', m', hwalk, -⟩ := h (fun _ => false) false
    cases hwalk

end LuaRtos.Sys
