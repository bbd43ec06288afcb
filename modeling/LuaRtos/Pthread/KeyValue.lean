/-
  LuaRtos.Pthread.KeyValue

  What `pthread_getspecific` returns in the interleavings of the key calls.

  `pthread_setspecific` never links its block into the key's list.  So the
  invariant is that the list of every live key is as `list_init` left it, and
  the answer is NULL whatever was set.
-/

import LuaRtos.Pthread.Key

namespace LuaRtos.Pthread

open LuaRtos.CLib LuaRtos.Sys

variable {Tid : Type} {s s' : KeyState Tid} {m : KeyMem Tid}

/-- The thread is inside `pthread_getspecific(k)` and has found the key. -/
def KeyPc.InGet (k : Int) : KeyPc → Prop
  | .idle => False
  | .getFirst k' _ => k' = k
  | .getItem k' _ _ _ => k' = k
  | .getNext k' _ _ _ => k' = k
  | .delRemove _ => False

/-- The key list with the live keys. -/
def KeyState.tracked (s : KeyState Tid) : Tracked Nat := ⟨s.mem.keyList, s.live⟩

/-- The discipline of the callers: `list_add` can add, no handle is the one
    just past the end of the key list, and a key is removed only while it is
    live and no thread is reading it. -/
def KeyCareful (s : KeyState Tid) : KeyAct Tid → Prop
  | .create _ malloc grow => malloc = none ∨ AddCond s.mem.keyList grow
  | .set _ k _ _ => GetCond s.tracked k
  | .getStart _ k => GetCond s.tracked k
  | .getStep _ => True
  | .delStart _ k => GetCond s.tracked k
  | .delRemove _ k => k ∈ s.live ∧ ∀ t, ¬ (s.pc t).InGet k

/-- What holds in every state of a careful run. -/
structure KeyInv (s : KeyState Tid) : Prop where
  /-- The key list stores the live keys. -/
  refines : Refines s.mem.keyList s.live
  /-- The block of a live key is in use, and its list is empty. -/
  blocks : ∀ k key, s.live.lookup k = some key → ∃ d, s.mem.keys key = some ⟨listInit 1, d⟩
  /-- Live keys have blocks of their own. -/
  apart : ∀ k k' key, s.live.lookup k = some key → s.live.lookup k' = some key → k = k'
  /-- A reader is before its first look at the list of a live key. -/
  readers : ∀ t k, (s.pc t).InGet k → ∃ key, s.pc t = .getFirst k key ∧ s.live.lookup k = some key

/-! ## The calls on a state that meets the invariant -/

theorem pthreadKeyCreate_ok {live : ListMap Nat} (h : Refines m.keyList live)
    {grow : Option (Nat → ListIndex Nat)} (hc : AddCond m.keyList grow) (d : Ptr) (key : Nat) :
    ∃ k l, pthreadKeyCreate m d (some key) grow = .ok (.success, some k,
        { m with keyList := l, keys := Function.update m.keys key (some ⟨listInit 1, d⟩) }) ∧
      live.lookup k = none ∧ Refines l (live.insert k key) := by
  obtain ⟨i, e, l, heq, hfresh, -, href⟩ := h.listAdd_ok hc key
  refine ⟨_, l, ?_, hfresh, href⟩
  simp [pthreadKeyCreate, heq]

/-- `pthread_setspecific` leaves the keys and their lists alone. -/
theorem pthreadSetspecific_keys {t : Tid} {k : Int} {v : Ptr} {malloc : Option Nat} {e : Errno}
    {m' : KeyMem Tid} (h : pthreadSetspecific m t k v malloc = .ok (e, m')) :
    m'.keyList = m.keyList ∧ m'.keys = m.keys := by
  obtain ⟨⟨res, key⟩, -, h⟩ := bind_eq_ok.mp h
  dsimp only at h
  by_cases hres : res = .success
  · rw [if_neg (not_not_intro hres)] at h
    cases malloc with
    | none =>
      cases h
      exact ⟨rfl, rfl⟩
    | some a =>
      cases h
      exact ⟨rfl, rfl⟩
  · rw [if_pos hres] at h
    cases h
    exact ⟨rfl, rfl⟩

theorem getspecificStart_live (h : KeyInv s) {k : Int} {key : Nat}
    (hk : s.live.lookup k = some key) :
    getspecificStart s.mem k = .ok (.next (.getFirst k key)) := by
  simp only [getspecificStart, listGet_live h.refines hk, ok_bind, pure_eq_ok]

theorem getspecificStart_dead (h : KeyInv s) {k : Int} (hk : s.live.lookup k = none)
    (hc : GetCond s.tracked k) : getspecificStart s.mem k = .ok (.ret 0) := by
  simp only [getspecificStart, listGet_dead h.refines hk hc, ok_bind, pure_eq_ok]

/-- The list of a live key is empty, so the loop of `pthread_getspecific` does
    not run. -/
theorem getspecificStep_first [DecidableEq Tid] (h : KeyInv s) {t : Tid} {k : Int} {key : Nat}
    (hpc : s.pc t = .getFirst k key) (hk : s.live.lookup k = some key) :
    getspecificStep s.mem t (s.pc t) = .ok (.ret 0) := by
  obtain ⟨d, hd⟩ := h.blocks k key hk
  have hfirst : listFirst (listInit 1 : CList Nat) = .ok (-1) := rfl
  simp only [hpc, getspecificStep, derefBlock, hd, pure_eq_ok, ok_bind, hfirst]
  rfl

theorem keyDeleteRemove_ok (h : KeyInv s) {k : Int} {key : Nat}
    (hk : s.live.lookup k = some key) :
    ∃ l, keyDeleteRemove s.mem k = .ok
        { s.mem with keyList := l, keys := Function.update s.mem.keys key none } ∧
      Refines l (s.live.erase k) := by
  obtain ⟨i, e, hi, hd, rfl, rfl⟩ := (h.refines.live _ _).mp hk
  obtain ⟨d, hkey⟩ := h.blocks _ _ hk
  refine ⟨_, ?_, h.refines.remove hi hd⟩
  simp [keyDeleteRemove, listRemove_slot h.refines.stores hi, derefBlock, hkey]

/-! ## The invariant -/

/-- The threads read as before, but for one that stops reading. -/
theorem readers_update [DecidableEq Tid] {live : ListMap Nat} {pc : Tid → KeyPc} {t : Tid}
    {p : KeyPc}
    (h : ∀ t k, (pc t).InGet k → ∃ key, pc t = .getFirst k key ∧ live.lookup k = some key)
    (hp : ∀ k, p.InGet k → ∃ key, p = .getFirst k key ∧ live.lookup k = some key) :
    ∀ t' k, (Function.update pc t p t').InGet k →
      ∃ key, Function.update pc t p t' = .getFirst k key ∧ live.lookup k = some key := by
  intro t' k hin
  by_cases ht : t' = t
  · subst ht
    rw [Function.update_self] at hin ⊢
    exact hp k hin
  · rw [Function.update_of_ne ht] at hin ⊢
    exact h t' k hin

theorem keyInv_init : KeyInv (keyInit : KeyState Tid) where
  refines := refines_init 1
  blocks := by intro k key hk; simp [keyInit] at hk
  apart := by intro k k' key hk; simp [keyInit] at hk
  readers := by intro t k hin; exact absurd hin id

/-- `pthread_key_create` adds a key. -/
theorem KeyInv.create (h : KeyInv s) {d : Ptr} {key : Nat} {grow : Option (Nat → ListIndex Nat)}
    {k : Int} {vals : Int → Tid → Ptr} (hc : AddCond s.mem.keyList grow)
    (hfresh : s.mem.keys key = none)
    (hcreate : pthreadKeyCreate s.mem d (some key) grow = .ok (.success, some k, m)) :
    KeyInv { s with mem := m, live := s.live.insert k key, vals := vals } := by
  obtain ⟨k', l, heq, hnew, href⟩ := pthreadKeyCreate_ok h.refines hc d key
  rw [hcreate] at heq
  cases heq
  -- a block that was in use is not the one that `malloc` returned
  have hold : ∀ {j key'}, s.live.lookup j = some key' → key' ≠ key := by
    rintro j key' hj rfl
    obtain ⟨d', hd'⟩ := h.blocks j key' hj
    rw [hfresh] at hd'
    cases hd'
  have hother : ∀ {j}, j ≠ k → (s.live.insert k key).lookup j = s.live.lookup j :=
    fun hj => Finmap.lookup_insert_of_ne _ hj
  have hself : (s.live.insert k key).lookup k = some key := Finmap.lookup_insert _
  refine ⟨href, ?_, ?_, ?_⟩
  · intro j key' hj
    by_cases hjk : j = k
    · -- the new key has its block from `malloc`
      rw [hjk, hself] at hj
      cases hj
      exact ⟨d, Function.update_self ..⟩
    · rw [hother hjk] at hj
      obtain ⟨d', hd'⟩ := h.blocks j key' hj
      exact ⟨d', (Function.update_of_ne (hold hj) _ _).trans hd'⟩
  · intro j j' key' hj hj'
    by_cases hjk : j = k <;> by_cases hjk' : j' = k
    · rw [hjk, hjk']
    · rw [hjk, hself] at hj
      rw [hother hjk'] at hj'
      cases hj
      exact absurd rfl (hold hj')
    · rw [hjk', hself] at hj'
      rw [hother hjk] at hj
      cases hj'
      exact absurd rfl (hold hj)
    · rw [hother hjk] at hj
      rw [hother hjk'] at hj'
      exact h.apart j j' key' hj hj'
  · -- the new handle was not live, so nobody is reading it
    intro t j hin
    obtain ⟨key', hpc, hj⟩ := h.readers t j hin
    have hjk : j ≠ k := by
      rintro rfl
      rw [hnew] at hj
      cases hj
    exact ⟨key', hpc, (hother hjk).trans hj⟩

section Step

variable [DecidableEq Tid]

/-- The step of a reader returns NULL; it does not go on. -/
theorem KeyInv.reader_returns (h : KeyInv s) {t : Tid} {k : Int} (hin : (s.pc t).InGet k) :
    getspecificStep s.mem t (s.pc t) = .ok (.ret 0) := by
  obtain ⟨key, hpc, hk⟩ := h.readers t k hin
  exact getspecificStep_first h hpc hk

/-- A thread that is not reading stays where it is. -/
theorem getspecificStep_other {t : Tid} {p : KeyPc} (hp : ∀ k, ¬ p.InGet k) {o : Outcome}
    (h : getspecificStep s.mem t p = .ok o) : o = .next p := by
  cases p with
  | idle => cases h; rfl
  | getFirst k key => exact absurd rfl (hp k)
  | getItem k key index specific => exact absurd rfl (hp k)
  | getNext k key index specific => exact absurd rfl (hp k)
  | delRemove k => cases h; rfl

/-- `pthread_key_delete` removes a key that nobody reads. -/
theorem KeyInv.delRemove (h : KeyInv s) {t : Tid} {k : Int} (hk : k ∈ s.live)
    (hnone : ∀ t, ¬ (s.pc t).InGet k) (hdel : keyDeleteRemove s.mem k = .ok m) :
    KeyInv { s with mem := m, pc := Function.update s.pc t .idle, live := s.live.erase k } := by
  obtain ⟨key, hkey⟩ := Finmap.mem_iff.mp hk
  obtain ⟨l, heq, href⟩ := keyDeleteRemove_ok h hkey
  rw [hdel] at heq
  cases heq
  have hrest : ∀ {j key'}, (s.live.erase k).lookup j = some key' →
      j ≠ k ∧ s.live.lookup j = some key' := by
    intro j key' hj
    by_cases hjk : j = k
    · rw [hjk, Finmap.lookup_erase] at hj
      cases hj
    · rw [Finmap.lookup_erase_ne hjk] at hj
      exact ⟨hjk, hj⟩
  refine ⟨href, ?_, ?_, readers_update ?_ fun _ hin => absurd hin id⟩
  · -- the block that was freed belonged to no other key
    intro j key' hj
    obtain ⟨hjk, hj⟩ := hrest hj
    obtain ⟨d, hd⟩ := h.blocks j key' hj
    have hne : key' ≠ key := fun heq => hjk (h.apart j k key' hj (heq ▸ hkey))
    exact ⟨d, (Function.update_of_ne hne _ _).trans hd⟩
  · exact fun j j' key' hj hj' => h.apart j j' key' (hrest hj).2 (hrest hj').2
  · -- nobody was reading the key that goes
    intro t' j hin
    obtain ⟨key', hpc', hj⟩ := h.readers t' j hin
    have hjk : j ≠ k := by
      rintro rfl
      exact hnone t' hin
    exact ⟨key', hpc', (Finmap.lookup_erase_ne hjk).trans hj⟩

theorem keyInv_step {a : KeyAct Tid} (h : KeyInv s) (hok : KeyCareful s a)
    (hs : KeyStep s a s') : KeyInv s' := by
  cases hs with
  | create hfresh hcreate =>
    exact h.create (hok.resolve_left (by simp)) hfresh hcreate
  | @createFails d malloc grow e k m hfresh hcreate he =>
    rcases hok with rfl | hc
    · cases hcreate
      exact h
    · cases malloc with
      | none =>
        cases hcreate
        exact h
      | some key =>
        obtain ⟨k', l, heq, -⟩ := pthreadKeyCreate_ok h.refines hc d key
        rw [hcreate] at heq
        cases heq
        exact absurd rfl he
  | set hidle hset =>
    -- the new block is in no list: what the invariant speaks of is as it was
    obtain ⟨hl, hk⟩ := pthreadSetspecific_keys hset
    exact ⟨hl ▸ h.refines, fun k key hkey => hk ▸ h.blocks k key hkey, h.apart, h.readers⟩
  | setFails hidle hset he =>
    obtain ⟨hl, hk⟩ := pthreadSetspecific_keys hset
    exact ⟨hl ▸ h.refines, fun k key hkey => hk ▸ h.blocks k key hkey, h.apart, h.readers⟩
  | @getStart t k pc hidle hget =>
    refine ⟨h.refines, h.blocks, h.apart, readers_update h.readers ?_⟩
    cases hk : s.live.lookup k with
    | none =>
      -- a dead handle is refused, and nobody starts to read
      rw [getspecificStart_dead h hk hok] at hget
      cases hget
    | some key =>
      rw [getspecificStart_live h hk] at hget
      cases hget
      rintro k' rfl
      exact ⟨key, rfl, hk⟩
  | getStartReturns hidle hget => exact h
  | @getStep t pc hget =>
    refine ⟨h.refines, h.blocks, h.apart, readers_update h.readers fun k hin => ?_⟩
    by_cases hread : ∃ k, (s.pc t).InGet k
    · -- a reader returns, so this is not its step
      obtain ⟨k', hk'⟩ := hread
      rw [h.reader_returns hk'] at hget
      cases hget
    · have hpc := getspecificStep_other (not_exists.mp hread) hget
      cases hpc
      exact h.readers t k hin
  | @getReturns t v hget =>
    exact ⟨h.refines, h.blocks, h.apart, readers_update h.readers fun _ hin => absurd hin id⟩
  | @delStart t k e pc hidle hdel =>
    refine ⟨h.refines, h.blocks, h.apart, readers_update h.readers fun k' hin => ?_⟩
    obtain ⟨⟨res, key⟩, -, hdel⟩ := bind_eq_ok.mp hdel
    dsimp only at hdel
    by_cases hres : res = .success
    · rw [if_neg (not_not_intro hres)] at hdel
      cases hdel
      exact absurd hin id
    · rw [if_pos hres] at hdel
      cases hdel
      exact absurd hin id
  | delRemove hpc hdel =>
    obtain ⟨hk, hnone⟩ := hok
    exact h.delRemove hk hnone hdel

theorem keyInv_of_careful (h : (keySys Tid).Reach KeyCareful s) : KeyInv s := by
  refine h.invariant (I := KeyInv) ?_ fun s a s' => keyInv_step
  rintro s rfl
  exact keyInv_init

/-- In every state of a careful run a call for a live key finds it, and a
    thread that reads a key gets the value it set last for it exactly when that
    is NULL. -/
theorem pthreadGetspecific_iff (h : (keySys Tid).Reach KeyCareful s) :
    (∀ k ∈ s.live, ∃ key, getspecificStart s.mem k = .ok (.next (.getFirst k key))) ∧
    ∀ t k, (s.pc t).InGet k →
      ((∃ v, getspecificStep s.mem t (s.pc t) = .ok (.ret v) ∧ v = s.vals k t) ↔
        s.vals k t = 0) := by
  have hinv := keyInv_of_careful h
  refine ⟨fun k hk => ?_, fun t k hin => ?_⟩
  · obtain ⟨key, hkey⟩ := Finmap.mem_iff.mp hk
    exact ⟨key, getspecificStart_live hinv hkey⟩
  · -- whatever was set, the call returns NULL
    have hret := hinv.reader_returns hin
    constructor
    · rintro ⟨v, hv, hset⟩
      rw [hret] at hv
      cases hv
      exact hset.symm
    · intro hv
      exact ⟨0, hret, hv.symm⟩

end Step

/-! ## One key and one value -/

/-- A key under handle 1, just created. -/
def oneKey : KeyState Nat where
  mem := ⟨⟨some ⟨0, [⟨4096, 0, 0, none⟩]⟩, none, 1, 1⟩,
    Function.update (fun _ => none) 4096 (some ⟨listInit 1, 0⟩), fun _ => none⟩
  pc := fun _ => .idle
  live := (∅ : ListMap Nat).insert 1 4096
  vals := Function.update (fun _ _ => 0) 1 fun _ => 0

/-- Thread 7 has set the value `v` for the key. -/
def oneValue (v : Ptr) : KeyState Nat :=
  { oneKey with
    mem := { oneKey.mem with specifics := Function.update (fun _ => none) 8192 (some ⟨7, v⟩) }
    vals := Function.update oneKey.vals 1 (Function.update (oneKey.vals 1) 7 v) }

/-- Thread 7 is reading the key. -/
def oneReader (v : Ptr) : KeyState Nat :=
  { oneValue v with pc := Function.update (fun _ => .idle) 7 (.getFirst 1 4096) }

theorem oneReader_reach {ok : KeyState Nat → KeyAct Nat → Prop} {v : Ptr}
    (hcreate : ok keyInit (.create 0 (some 4096) (some fun _ => ⟨0, 0, 0, none⟩)))
    (hset : ok oneKey (.set 7 1 v (some 8192))) (hget : ok (oneValue v) (.getStart 7 1)) :
    (keySys Nat).Reach ok (oneReader v) :=
  .step (.step (.step (.init rfl) hcreate (.create rfl rfl)) hset (.set rfl rfl)) hget
    (.getStart rfl rfl)

/-- A thread that has set NULL reads NULL. -/
theorem pthreadGetspecific_iff_oneReader :
    ∃ v, getspecificStep (oneReader 0).mem 7 ((oneReader 0).pc 7) = .ok (.ret v) ∧
      v = (oneReader 0).vals 1 7 :=
  ((pthreadGetspecific_iff (oneReader_reach (.inr (.inr ⟨rfl, by decide⟩)) (.inr (by decide))
    (.inr (by decide)))).2 7 1 rfl).mpr rfl

/-- A thread that has set 5 for a live key reads NULL. -/
theorem pthreadGetspecific_null :
    ∃ s : KeyState Nat, (keySys Nat).Reach (fun _ _ => True) s ∧
      ∃ t k, k ∈ s.live ∧ (s.pc t).InGet k ∧ s.vals k t = 5 ∧
        getspecificStep s.mem t (s.pc t) = .ok (.ret 0) :=
  ⟨oneReader 5, oneReader_reach trivial trivial trivial, 7, 1, by decide, rfl, rfl, rfl⟩

end LuaRtos.Pthread
