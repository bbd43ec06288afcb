/-
  LuaRtos.Pthread.MutexLifetime

  What becomes of a handle over sequences of calls of mutex.c.

  `pthread_mutex_destroy` deletes the semaphore and leaves the entry of
  `mutex_list` where it is, so from then on the list refers to a deleted
  semaphore, every call on the handle goes through it, and
  `pthread_mutex_init` finds the entry and answers EBUSY.  Up to that call
  every entry of the list has its block and its own live semaphore.

  A call that leaves defined behaviour has no successor: besides the use of a
  destroyed handle this is the `list_get` one past the end of the array, and
  the `pthread_mutex_init` whose `list_add` fails, which frees the semaphore
  twice.
-/

import LuaRtos.Lts.Run
import LuaRtos.Pthread.Mutex
import LuaRtos.Sys.ListFailure

namespace LuaRtos.Mutex

open LuaRtos.CLib LuaRtos.Rtos LuaRtos.Sys

/-- A call of mutex.c; `mutVal` is what the `pthread_mutex_t` holds. -/
inductive MutexCall (Tid : Type) where
  | init (mutVal : Int) (attr : Option Int) (mem : InitMem)
  | lock (me : Tid) (mutVal : Int)
  | unlock (me : Tid) (mutVal : Int)
  | trylock (me : Tid) (mutVal : Int)
  | destroy (me : Tid) (mutVal : Int)

section Runs

variable {Tid : Type} [DecidableEq Tid]

/-- A call that returns. -/
def mutexStep (w : MutexWorld Tid) : MutexCall Tid → Option (MutexWorld Tid)
  | .init mutVal attr mem => (pthreadMutexInit w mutVal attr mem).toOption.map (·.world)
  | .lock me mutVal => (pthreadMutexLock w me mutVal).toOption.bind fun r => r.map (·.2)
  | .unlock me mutVal => (pthreadMutexUnlock w me mutVal).toOption.map (·.2)
  | .trylock me mutVal => (pthreadMutexTrylock w me mutVal).toOption.map (·.2)
  | .destroy me mutVal => (pthreadMutexDestroy w me mutVal).toOption.map (·.2)

/-- The handles that were live when `pthread_mutex_destroy` was called with
    them, and that no `pthread_mutex_init` has given out since. -/
def destroyedNext (w : MutexWorld Tid) : MutexCall Tid → List Int → List Int
  | .init mutVal attr mem, d =>
    match pthreadMutexInit w mutVal attr mem with
    | .ok r => if r.ret = .success then d.filter (· ≠ r.mutVal) else d
    | .error _ => d
  | .destroy _ mutVal, d =>
    match listGet w.list mutVal with
    | .ok (.success, _) => mutVal :: d
    | _ => d
  | _, d => d

/-- No mutexes: after `list_init(&mutex_list, 1)`. -/
def mutexInit (Tid : Type) : MutexWorld Tid := ⟨listInit 1, [], []⟩

/-- All sequences of calls, with the record of the destroyed handles. -/
def mutexSys (Tid : Type) [DecidableEq Tid] : Lts (MutexWorld Tid × List Int) (MutexCall Tid) :=
  .ofStep (mutexInit Tid, []) (Lts.withHistory mutexStep destroyedNext)

/-- What is expected of the handles, `d` being the destroyed ones. -/
structure LifetimeOk (w : MutexWorld Tid) (d : List Int) : Prop where
  /-- A destroyed handle is dead. -/
  dead : ∀ k ∈ d, ∀ me : Tid,
    (∃ e w', e ≠ .success ∧ pthreadMutexLock w me k = .ok (some (e, w'))) ∧
    (∃ e w', e ≠ .success ∧ pthreadMutexTrylock w me k = .ok (e, w')) ∧
    (∃ e w', e ≠ .success ∧ pthreadMutexUnlock w me k = .ok (e, w')) ∧
    (∃ e w', e ≠ .success ∧ pthreadMutexDestroy w me k = .ok (e, w'))
  /-- The list refers to mutexes that are allocated, and these to semaphores
      that are not deleted. -/
  live : ∀ k p, listGet w.list k = .ok (.success, some p) →
    ∃ mutex sem, w.mutexes.read p = .ok mutex ∧ w.sems.read mutex.sem = .ok sem
  /-- A destroyed handle can be initialized again, where there is memory. -/
  again : ∀ k ∈ d, ∀ type mem, checkAttr type = .success → mem.mutex = true → mem.sem = true →
    AddCond w.list mem.list →
    ∃ k' w', pthreadMutexInit w k (some type) mem = .ok ⟨.success, k', w'⟩

end Runs

/-! ## The entries of the list -/

section Entries

variable {Tid : Type} {w w' : MutexWorld Tid} {d : List Int} {m : ListMap Nat} {k : Int}

/-- The entry `k` of the list leads to the semaphore `h`. -/
def SemAt (w : MutexWorld Tid) (m : ListMap Nat) (k : Int) (h : Nat) : Prop :=
  ∃ p mutex, m.lookup k = some p ∧ w.mutexes[p]? = some (some mutex) ∧ mutex.sem = h

theorem SemAt.mem {h : Nat} (hat : SemAt w m k h) : k ∈ m := by
  obtain ⟨p, -, hp, -⟩ := hat
  exact Finmap.mem_iff.mpr ⟨p, hp⟩

theorem SemAt.unique {h h' : Nat} (hat : SemAt w m k h) (hat' : SemAt w m k h') : h = h' := by
  obtain ⟨p, mutex, hp, hmutex, rfl⟩ := hat
  obtain ⟨p', mutex', hp', hmutex', rfl⟩ := hat'
  rw [hp] at hp'
  cases hp'
  rw [hmutex] at hmutex'
  cases hmutex'
  rfl

/-- Every entry has a block and a semaphore of its own, and the deleted ones
    are those of the destroyed handles. -/
structure LifetimeInv (w : MutexWorld Tid) (d : List Int) (m : ListMap Nat) : Prop where
  refines : Refines w.list m
  destroyed : ∀ k ∈ d, k ∈ m
  entry : ∀ k ∈ m, ∃ h, SemAt w m k h ∧ h < w.sems.length ∧ (w.sems[h]? = some none ↔ k ∈ d)
  distinct : ∀ k k' h, SemAt w m k h → SemAt w m k' h → k = k'

/-- The handle lookup of a call that returns: either the list refuses the
    handle, or its semaphore is live. -/
theorem getMutex_ok (h : LifetimeInv w d m) {r : Errno ⊕ PthreadMutex × Semaphore Tid}
    (hr : getMutex w k = .ok r) :
    (∃ res, r = .inl res ∧ res ≠ .success ∧ k ∉ m ∧ listGet w.list k = .ok (res, none)) ∨
      ∃ p mutex sem, r = .inr (mutex, sem) ∧ listGet w.list k = .ok (.success, some p) ∧
        k ∈ m ∧ SemAt w m k mutex.sem ∧ w.sems[mutex.sem]? = some (some sem) := by
  unfold getMutex at hr
  obtain ⟨g, hg, hr⟩ := bind_eq_ok.mp hr
  have hlist := listGet_eq_ok h.refines hg
  cases hk : m.lookup k with
  | some p =>
    -- the call has read the block and the semaphore, so both are live
    rw [hk] at hlist
    subst hlist
    obtain ⟨mutex, hmutex, hr⟩ := bind_eq_ok.mp hr
    obtain ⟨sem, hsem, hr⟩ := bind_eq_ok.mp hr
    cases hr
    rw [Heap.read_eq_ok] at hmutex hsem
    exact .inr ⟨p, mutex, sem, rfl, hg, Finmap.mem_iff.mpr ⟨p, hk⟩, ⟨p, mutex, hk, hmutex, rfl⟩,
      hsem⟩
  | none =>
    rw [hk] at hlist
    subst hlist
    cases hr
    exact .inl ⟨.einval, rfl, by decide, Finmap.lookup_eq_none.mp hk, hg⟩

/-- A change of the semaphores that deletes none and revives none. -/
theorem LifetimeInv.sems (h : LifetimeInv w d m) {sems : Heap (Semaphore Tid)}
    (hlen : sems.length = w.sems.length)
    (hdead : ∀ i : Nat, sems[i]? = some none ↔ w.sems[i]? = some none) :
    LifetimeInv { w with sems := sems } d m where
  refines := h.refines
  destroyed := h.destroyed
  entry k hk := by
    obtain ⟨i, hat, hlt, hiff⟩ := h.entry k hk
    exact ⟨i, hat, hlen ▸ hlt, (hdead i).trans hiff⟩
  distinct := h.distinct

/-- `setSem` on a semaphore that is there. -/
theorem LifetimeInv.setSem (h : LifetimeInv w d m) {i : Nat} {sem : Semaphore Tid}
    (hw : setSem w i sem = .ok w') : LifetimeInv w' d m := by
  obtain ⟨sems, hsems, hw⟩ := bind_eq_ok.mp hw
  cases hw
  obtain ⟨⟨sem₀, hsem₀⟩, rfl⟩ := Heap.write_eq_ok.mp hsems
  refine h.sems (by simp) fun j => ?_
  by_cases hj : i = j
  · subst hj
    rw [List.getElem?_set_self (List.getElem?_eq_some_iff.mp hsem₀).1, hsem₀]
    simp
  · rw [List.getElem?_set_ne hj]

/-- How a `pthread_mutex_init` that returns ends: with an error, after which at
    most a block is lost, or with a fresh handle, a new block and a new
    semaphore. -/
theorem pthreadMutexInit_cases (h : Refines w.list m) {v : Int} {attr : Option Int} {mem : InitMem}
    {r : InitResult Tid} (hr : pthreadMutexInit w v attr mem = .ok r) :
    (r.ret ≠ .success ∧ ∃ mutexes, r.world = { w with mutexes := mutexes } ∧
        (mutexes = w.mutexes ∨ ∃ a, mutexes = w.mutexes.alloc a)) ∨
      ∃ k l' type, m.lookup k = none ∧ Refines l' (m.insert k w.mutexes.length) ∧
        r = ⟨.success, k, ⟨l', w.mutexes.alloc ⟨w.sems.length, type⟩,
          w.sems.alloc xSemaphoreCreate⟩⟩ := by
  cases attr with
  | none =>
    cases hr
    exact .inl ⟨by simp, w.mutexes, rfl, .inl rfl⟩
  | some type =>
    simp only [pthreadMutexInit] at hr
    -- one case for each place where `pthread_mutex_init` may return
    by_cases hattr : checkAttr type ≠ .success
    · rw [if_pos hattr] at hr
      cases hr
      exact .inl ⟨hattr, w.mutexes, rfl, .inl rfl⟩
    rw [if_neg hattr] at hr
    obtain ⟨⟨res, item⟩, -, hr⟩ := bind_eq_ok.mp hr
    by_cases hbusy : res = .success
    · rw [if_pos hbusy] at hr
      cases hr
      exact .inl ⟨by simp, w.mutexes, rfl, .inl rfl⟩
    rw [if_neg hbusy] at hr
    by_cases hmutex : mem.mutex = false
    · rw [if_pos hmutex] at hr
      cases hr
      exact .inl ⟨by simp, w.mutexes, rfl, .inl rfl⟩
    rw [if_neg hmutex] at hr
    by_cases hsem : mem.sem = false
    · -- the block of the mutex is not given back
      rw [if_pos hsem] at hr
      cases hr
      exact .inl ⟨by simp, _, rfl, .inr ⟨_, rfl⟩⟩
    rw [if_neg hsem] at hr
    obtain ⟨a, hadd, hr⟩ := bind_eq_ok.mp hr
    rcases h.listAdd_cases hadd with ⟨k, l', rfl, hfresh, href⟩ | hmem
    · cases hr
      exact .inr ⟨k, l', type, hfresh, href, rfl⟩
    · -- the semaphore is freed, and then it is deleted
      exfalso
      simp only [hmem] at hr
      obtain ⟨sems, hfree, hr⟩ := bind_eq_ok.mp hr
      obtain ⟨sems', hdelete, -⟩ := bind_eq_ok.mp hr
      obtain ⟨-, rfl⟩ := Heap.free_eq_ok.mp hfree
      obtain ⟨⟨x, hx⟩, -⟩ := Heap.free_eq_ok.mp hdelete
      simp at hx

theorem SemAt.congr_mutexes {mutexes : Heap PthreadMutex} {h : Nat}
    (hkeep : ∀ p < w.mutexes.length, mutexes[p]? = w.mutexes[p]?)
    (hlt : ∀ k p, m.lookup k = some p → p < w.mutexes.length) (list : CList Nat)
    (sems : Heap (Semaphore Tid)) : SemAt ⟨list, mutexes, sems⟩ m k h ↔ SemAt w m k h := by
  constructor
  · rintro ⟨p, mutex, hp, hmutex, hh⟩
    exact ⟨p, mutex, hp, (hkeep p (hlt k p hp)) ▸ hmutex, hh⟩
  · rintro ⟨p, mutex, hp, hmutex, hh⟩
    exact ⟨p, mutex, hp, (hkeep p (hlt k p hp)).trans hmutex, hh⟩

theorem LifetimeInv.addr_lt (h : LifetimeInv w d m) {p : Nat} (hp : m.lookup k = some p) :
    p < w.mutexes.length := by
  obtain ⟨-, ⟨p', mutex, hp', hmutex, -⟩, -⟩ := h.entry k (Finmap.mem_iff.mpr ⟨p, hp⟩)
  rw [hp] at hp'
  cases hp'
  exact (List.getElem?_eq_some_iff.mp hmutex).1

/-- A block that is allocated and not used. -/
theorem LifetimeInv.lost (h : LifetimeInv w d m) (a : PthreadMutex) :
    LifetimeInv { w with mutexes := w.mutexes.alloc a } d m := by
  have hat (k : Int) (i : Nat) :
      SemAt { w with mutexes := w.mutexes.alloc a } m k i ↔ SemAt w m k i :=
    SemAt.congr_mutexes (fun _ hp => Heap.getElem?_alloc_of_lt hp) (fun _ _ => h.addr_lt) _ _
  refine ⟨h.refines, h.destroyed, fun k hk => ?_, fun k k' i hki hki' => ?_⟩
  · obtain ⟨i, hki, hrest⟩ := h.entry k hk
    exact ⟨i, (hat k i).mpr hki, hrest⟩
  · exact h.distinct k k' i ((hat k i).mp hki) ((hat k' i).mp hki')

/-- A new mutex under a fresh handle. -/
theorem LifetimeInv.insert (h : LifetimeInv w d m) {l' : CList Nat} {type : Int}
    {sem : Semaphore Tid} (hfresh : m.lookup k = none)
    (href : Refines l' (m.insert k w.mutexes.length)) :
    LifetimeInv ⟨l', w.mutexes.alloc ⟨w.sems.length, type⟩, w.sems.alloc sem⟩ d
      (m.insert k w.mutexes.length) := by
  set w' : MutexWorld Tid := ⟨l', w.mutexes.alloc ⟨w.sems.length, type⟩, w.sems.alloc sem⟩
  -- the new handle leads to the new semaphore, the others to where they led
  have hself (i : Nat) : SemAt w' (m.insert k w.mutexes.length) k i ↔ i = w.sems.length := by
    constructor
    · rintro ⟨p, mutex, hp, hmutex, rfl⟩
      rw [Finmap.lookup_insert] at hp
      cases hp
      rw [Heap.getElem?_alloc_self] at hmutex
      cases hmutex
      rfl
    · rintro rfl
      exact ⟨_, _, Finmap.lookup_insert _, Heap.getElem?_alloc_self, rfl⟩
  have hother (k' : Int) (hne : k' ≠ k) (i : Nat) :
      SemAt w' (m.insert k w.mutexes.length) k' i ↔ SemAt w m k' i := by
    unfold SemAt
    rw [Finmap.lookup_insert_of_ne _ hne]
    exact SemAt.congr_mutexes (w := w) (fun _ hp => Heap.getElem?_alloc_of_lt hp)
      (fun _ _ => h.addr_lt) l' w'.sems
  have hlt (k' : Int) (i : Nat) (hat : SemAt w m k' i) : i < w.sems.length := by
    obtain ⟨j, hat', hj, -⟩ := h.entry k' hat.mem
    rwa [hat.unique hat']
  refine ⟨href, fun k' hk' => Finmap.mem_insert.mpr (.inr (h.destroyed k' hk')),
    fun k' hk' => ?_, fun k₁ k₂ i h₁ h₂ => ?_⟩
  · by_cases hne : k' = k
    · subst hne
      refine ⟨_, (hself _).mpr rfl, by simp [w'], ?_⟩
      have hnot : k' ∉ d := fun hd => Finmap.lookup_eq_none.mp hfresh (h.destroyed k' hd)
      rw [Heap.getElem?_alloc_self]
      simp [hnot]
    · obtain ⟨i, hat, hi, hiff⟩ := h.entry k' ((Finmap.mem_insert.mp hk').resolve_left hne)
      refine ⟨i, (hother k' hne i).mpr hat, by simp [w']; omega, ?_⟩
      rw [← hiff]
      simp [w', Heap.getElem?_alloc_of_lt hi]
  · by_cases hk₁ : k₁ = k
    · by_cases hk₂ : k₂ = k
      · exact hk₁.trans hk₂.symm
      · subst hk₁
        have hi := hlt k₂ i ((hother k₂ hk₂ i).mp h₂)
        rw [(hself i).mp h₁] at hi
        exact absurd hi (Nat.lt_irrefl _)
    · by_cases hk₂ : k₂ = k
      · subst hk₂
        have hi := hlt k₁ i ((hother k₁ hk₁ i).mp h₁)
        rw [(hself i).mp h₂] at hi
        exact absurd hi (Nat.lt_irrefl _)
      · exact h.distinct k₁ k₂ i ((hother k₁ hk₁ i).mp h₁) ((hother k₂ hk₂ i).mp h₂)

/-- The semaphore of one handle is deleted. -/
theorem LifetimeInv.delete (h : LifetimeInv w d m) {i : Nat} {sems : Heap (Semaphore Tid)}
    (hat : SemAt w m k i) (hfree : w.sems.free i = .ok sems) :
    LifetimeInv { w with sems := sems } (k :: d) m := by
  obtain ⟨hlive, rfl⟩ := Heap.free_eq_ok.mp hfree
  refine ⟨h.refines, ?_, fun k' hk' => ?_, h.distinct⟩
  · rintro k' (_ | ⟨_, hk'⟩)
    · exact hat.mem
    · exact h.destroyed k' hk'
  · obtain ⟨j, hat', hj, hiff⟩ := h.entry k' hk'
    refine ⟨j, hat', by simpa using hj, ?_⟩
    -- by `distinct` no other handle leads to the semaphore that is deleted
    by_cases hji : i = j
    · subst hji
      obtain rfl := h.distinct k k' i hat hat'
      simp [List.getElem?_set_self hj]
    · have hne : k' ≠ k := by
        rintro rfl
        exact hji (hat.unique hat')
      simp [List.getElem?_set_ne hji, hiff, hne]

end Entries

/-! ## Every run -/

section Reach

variable {Tid : Type} [DecidableEq Tid] {w w' : MutexWorld Tid} {d : List Int} {m : ListMap Nat}

theorem pthreadMutexLock_inv (h : LifetimeInv w d m) {me : Tid} {v : Int} {e : Errno}
    (hr : pthreadMutexLock w me v = .ok (some (e, w'))) : LifetimeInv w' d m := by
  obtain ⟨r, hget, hr⟩ := bind_eq_ok.mp hr
  rcases getMutex_ok h hget with ⟨res, rfl, -⟩ | ⟨p, mutex, sem, rfl, -⟩
  · cases hr
    exact h
  · cases htake : mutexTake mutex.type me sem with
    | none =>
      simp only [htake] at hr
      cases hr
    | some sem' =>
      simp only [htake] at hr
      obtain ⟨w₁, hset, hr⟩ := bind_eq_ok.mp hr
      cases hr
      exact h.setSem hset

theorem pthreadMutexTrylock_inv (h : LifetimeInv w d m) {me : Tid} {v : Int} {e : Errno}
    (hr : pthreadMutexTrylock w me v = .ok (e, w')) : LifetimeInv w' d m := by
  obtain ⟨r, hget, hr⟩ := bind_eq_ok.mp hr
  rcases getMutex_ok h hget with ⟨res, rfl, -⟩ | ⟨p, mutex, sem, rfl, -⟩
  · cases hr
    exact h
  · cases htake : mutexTake mutex.type me sem with
    | none =>
      simp only [htake] at hr
      cases hr
      exact h
    | some sem' =>
      simp only [htake] at hr
      obtain ⟨w₁, hset, hr⟩ := bind_eq_ok.mp hr
      cases hr
      exact h.setSem hset

theorem pthreadMutexUnlock_inv (h : LifetimeInv w d m) {me : Tid} {v : Int} {e : Errno}
    (hr : pthreadMutexUnlock w me v = .ok (e, w')) : LifetimeInv w' d m := by
  obtain ⟨r, hget, hr⟩ := bind_eq_ok.mp hr
  rcases getMutex_ok h hget with ⟨res, rfl, -⟩ | ⟨p, mutex, sem, rfl, -⟩
  · cases hr
    exact h
  · obtain ⟨w₁, hset, hr⟩ := bind_eq_ok.mp hr
    cases hr
    exact h.setSem hset

/-- `pthread_mutex_destroy` with a live handle deletes its semaphore, and with
    any other does nothing. -/
theorem pthreadMutexDestroy_inv (h : LifetimeInv w d m) {me : Tid} {v : Int} {e : Errno}
    (hr : pthreadMutexDestroy w me v = .ok (e, w')) :
    LifetimeInv w' (destroyedNext w (.destroy me v) d) m := by
  obtain ⟨r, hget, hr⟩ := bind_eq_ok.mp hr
  rcases getMutex_ok h hget with
    ⟨res, rfl, hres, -, hlist⟩ | ⟨p, mutex, sem, rfl, hlist, -, hat, -⟩
  · -- the list has refused the handle, and nothing is deleted
    cases hr
    simp only [destroyedNext, hlist]
    split
    · next heq =>
      cases heq
      exact absurd rfl hres
    · exact h
  · obtain ⟨w₁, hset, hr⟩ := bind_eq_ok.mp hr
    obtain ⟨sems, hfree, hr⟩ := bind_eq_ok.mp hr
    cases hr
    simp only [destroyedNext, hlist]
    have hkeep := h.setSem hset
    obtain ⟨sems₁, -, hset⟩ := bind_eq_ok.mp hset
    cases hset
    exact hkeep.delete hat hfree

/-- A call keeps the entries in order, the map growing with `mutex_list`. -/
theorem mutexStep_inv (h : LifetimeInv w d m) {a : MutexCall Tid} (hs : mutexStep w a = some w') :
    ∃ m', LifetimeInv w' (destroyedNext w a d) m' := by
  cases a with
  | init v attr mem =>
    cases hr : pthreadMutexInit w v attr mem with
    | error e => simp [mutexStep, hr, Except.toOption] at hs
    | ok r =>
      obtain rfl : r.world = w' := by simpa [mutexStep, hr, Except.toOption] using hs
      simp only [destroyedNext, hr]
      rcases pthreadMutexInit_cases h.refines hr with
        ⟨hret, mutexes, hw, hmutexes⟩ | ⟨k, l', type, hfresh, href, rfl⟩
      · rw [if_neg hret, hw]
        rcases hmutexes with rfl | ⟨a, rfl⟩
        · exact ⟨m, h⟩
        · exact ⟨m, h.lost a⟩
      · rw [if_pos rfl]
        -- the handle is fresh, so it is none of the destroyed ones
        have hfilter : d.filter (· ≠ k) = d := by
          refine List.filter_eq_self.mpr fun k' hk' => ?_
          have hne : k' ≠ k := by
            rintro rfl
            exact Finmap.lookup_eq_none.mp hfresh (h.destroyed k' hk')
          simpa using hne
        rw [hfilter]
        exact ⟨_, h.insert hfresh href⟩
  | lock me v =>
    obtain ⟨r, hr, hs⟩ := Option.bind_eq_some_iff.mp hs
    obtain ⟨⟨e, w₁⟩, rfl, rfl⟩ := Option.map_eq_some_iff.mp hs
    exact ⟨m, pthreadMutexLock_inv h (toOption_eq_some.mp hr)⟩
  | unlock me v =>
    obtain ⟨⟨e, w₁⟩, hr, rfl⟩ := Option.map_eq_some_iff.mp hs
    exact ⟨m, pthreadMutexUnlock_inv h (toOption_eq_some.mp hr)⟩
  | trylock me v =>
    obtain ⟨⟨e, w₁⟩, hr, rfl⟩ := Option.map_eq_some_iff.mp hs
    exact ⟨m, pthreadMutexTrylock_inv h (toOption_eq_some.mp hr)⟩
  | destroy me v =>
    obtain ⟨⟨e, w₁⟩, hr, rfl⟩ := Option.map_eq_some_iff.mp hs
    exact ⟨m, pthreadMutexDestroy_inv h (toOption_eq_some.mp hr)⟩

theorem lifetimeInv_reach {p : MutexWorld Tid × List Int}
    (h : (mutexSys Tid).Reach (fun _ _ => True) p) : ∃ m, LifetimeInv p.1 p.2 m := by
  refine Lts.Reach.invariant (I := fun p => ∃ m, LifetimeInv p.1 p.2 m) ?_ ?_ h
  · rintro p rfl
    exact ⟨∅, refines_init 1, fun k hk => absurd hk List.not_mem_nil,
      fun k hk => absurd hk Finmap.notMem_empty,
      fun k k' i hat _ => absurd hat.mem Finmap.notMem_empty⟩
  · rintro ⟨w, d⟩ a ⟨w', d'⟩ ⟨m, hi⟩ - hs
    obtain ⟨w₁, hw, heq⟩ := Option.map_eq_some_iff.mp hs
    cases heq
    exact mutexStep_inv hi hw

/-- In every state of every run the handles are as expected exactly when
    `pthread_mutex_destroy` has not been called with a live handle. -/
theorem lifetime_iff {p : MutexWorld Tid × List Int}
    (h : (mutexSys Tid).Reach (fun _ _ => True) p) : LifetimeOk p.1 p.2 ↔ p.2 = [] := by
  obtain ⟨m, hi⟩ := lifetimeInv_reach h
  constructor
  · intro hok
    refine List.eq_nil_iff_forall_not_mem.mpr fun k hk => ?_
    -- the entry of a destroyed handle is still there, and leads to a deleted semaphore
    obtain ⟨i, ⟨a, mutex, ha, hmutex, rfl⟩, -, hiff⟩ := hi.entry k (hi.destroyed k hk)
    obtain ⟨mutex', sem, hread, hsem⟩ := hok.live k a (listGet_live hi.refines ha)
    rw [Heap.read_eq_ok, hmutex] at hread
    cases hread
    rw [Heap.read_eq_ok, hiff.mpr hk] at hsem
    cases hsem
  · intro hd
    rw [hd]
    refine ⟨fun k hk => absurd hk (List.not_mem_nil), fun k a hget => ?_,
      fun k hk => absurd hk (List.not_mem_nil)⟩
    have hlist := listGet_eq_ok hi.refines hget
    cases ha : m.lookup k with
    | none =>
      rw [ha] at hlist
      cases hlist
    | some a' =>
      rw [ha] at hlist
      cases hlist
      obtain ⟨i, ⟨a', mutex, ha', hmutex, rfl⟩, hlt, hiff⟩ :=
        hi.entry k (Finmap.mem_iff.mpr ⟨a, ha⟩)
      rw [ha] at ha'
      cases ha'
      have hnone : p.1.sems[mutex.sem]? ≠ some none := by
        rw [Ne, hiff, hd]
        exact List.not_mem_nil
      obtain ⟨x, hx⟩ : ∃ x, p.1.sems[mutex.sem]? = some x := ⟨_, List.getElem?_eq_getElem hlt⟩
      cases x with
      | none => exact absurd hx hnone
      | some sem => exact ⟨mutex, sem, Heap.read_eq_ok.mpr hmutex, Heap.read_eq_ok.mpr hx⟩

end Reach

/-! ## Runs with one mutex -/

/-- Memory for everything. -/
def enoughMem : InitMem := ⟨true, true, some fun _ => ⟨0, 0, 0, none⟩⟩

/-- One thread initializes a mutex and locks it. -/
theorem lifetime_iff_locked : ∃ p : MutexWorld Unit × List Int,
    p.1.sems = [some ⟨false, none, 0⟩] ∧ (LifetimeOk p.1 p.2 ↔ p.2 = []) :=
  ⟨_, rfl, lifetime_iff (Lts.Reach.schedule
    [.init 0 (some pthreadMutexNormal) enoughMem, .lock () 1] rfl)⟩

/-- One thread initializes a mutex and destroys it: handle 1 still leads to the
    deleted semaphore. -/
theorem not_lifetimeOk_destroyed :
    ¬ ∀ p, (mutexSys Unit).Reach (fun _ _ => True) p → LifetimeOk p.1 p.2 := by
  intro h
  have hok := h _ (Lts.Reach.schedule
    [.init 0 (some pthreadMutexNormal) enoughMem, .destroy () 1] rfl)
  obtain ⟨mutex, sem, hmutex, hsem⟩ := hok.live 1 0 rfl
  cases hmutex
  cases hsem

end LuaRtos.Mutex
