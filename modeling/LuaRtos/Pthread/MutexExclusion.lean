/-
  LuaRtos.Pthread.MutexExclusion

  Mutual exclusion under lock, trylock and unlock, while threads end.

  A thread that ends, or one that stops another, runs `_pthread_mutex_free`,
  which walks `mutex_list` and gives every semaphore on it, one after the other.
  The plain semaphores are given whoever holds them; of the recursive ones the
  kernel lets the calling task give only its own, which in a stop is the task
  that stops and not the one that ends.

  `mutex_list` does not change in these runs, so a mutex is the number of its
  entry, and a call that the semaphore does not block is one step.  What a
  thread has locked and not unlocked (`held`) is recorded beside the semaphores.
-/

import Mathlib.Data.Fintype.Basic
import Mathlib.Logic.Function.Basic
import LuaRtos.Lts.Run
import LuaRtos.Pthread.Mutex

namespace LuaRtos.Mutex

open LuaRtos.Rtos

/-- Where a thread is. -/
inductive ThreadPc (Tid : Type) where
  | running
  /-- In `_pthread_free` for the thread `ending`, at entry `k` of `mutex_list`:
      its own end, or that of a thread it has stopped. -/
  | freeing (ending : Tid) (k : Nat)
  | dead
deriving DecidableEq, Repr

/-- The mutexes, what the threads hold, and where they are. -/
structure ExclState (Tid : Type) where
  /-- The number of entries of `mutex_list`. -/
  count : Nat
  type : Nat → Int
  sem : Nat → Semaphore Tid
  /-- How often a thread has locked a mutex and not unlocked it yet. -/
  held : Tid → Nat → Nat
  pc : Tid → ThreadPc Tid

/-- A call that returns, the end of a thread, or the next step of the walk over
    `mutex_list`. -/
inductive ExclAct (Tid : Type) where
  | lock (t : Tid) (k : Nat)
  | trylock (t : Tid) (k : Nat)
  | unlock (t : Tid) (k : Nat)
  /-- The start routine of `t` returns. -/
  | finish (t : Tid)
  /-- `t` stops `u`: `_pthread_stop`, then `_pthread_free`. -/
  | stop (t u : Tid)
  /-- The next step of `_pthread_mutex_free`. -/
  | free (t : Tid)
deriving DecidableEq, Repr

section Steps

variable {Tid : Type} [DecidableEq Tid]

namespace ExclState

/-- Not yet ended. -/
def live (s : ExclState Tid) (t : Tid) : Prop := s.pc t ≠ .dead

instance (s : ExclState Tid) (t : Tid) : Decidable (s.live t) :=
  inferInstanceAs (Decidable (s.pc t ≠ .dead))

/-- Thread `t` goes on to `p`. -/
def go (s : ExclState Tid) (t : Tid) (p : ThreadPc Tid) : ExclState Tid :=
  { s with pc := Function.update s.pc t p }

/-- Mutex `k` gets the semaphore `sem`, and `t` now holds it `n` times. -/
def setMutex (s : ExclState Tid) (t : Tid) (k : Nat) (sem : Semaphore Tid) (n : Nat) :
    ExclState Tid :=
  { s with
    sem := Function.update s.sem k sem
    held := Function.update s.held t (Function.update (s.held t) k n) }

/-- What is recorded when `t`, in `_pthread_free` for `ending`, gives mutex `k`:
    at its own end it gives up what it holds. -/
def heldAfterGive (s : ExclState Tid) (t ending : Tid) (k : Nat) : Nat :=
  if ending = t then s.held t k - 1 else s.held t k

end ExclState

/-- One step of `_pthread_mutex_free`, run by `t` for the thread `ending`. -/
def mutexFreeStep (s : ExclState Tid) (t ending : Tid) (k : Nat) : ExclState Tid :=
  if k < s.count then
    if s.type k = pthreadMutexRecursive then
      match xSemaphoreGiveRecursive t (s.sem k) with
      -- the `while` loop gives again
      | some sem => s.setMutex t k sem (s.heldAfterGive t ending k)
      | none => s.go t (.freeing ending (k + 1))
    else
      (s.setMutex t k (xSemaphoreGive (s.sem k)) (s.heldAfterGive t ending k)).go t
        (.freeing ending (k + 1))
  else s.go t (if ending = t then .dead else .running)

/-- A step; none where the thread is blocked, is not there, or is not the owner
    of the mutex it would unlock. -/
def exclStep (s : ExclState Tid) : ExclAct Tid → Option (ExclState Tid)
  | .lock t k =>
    if s.pc t = .running ∧ k < s.count then
      (mutexTake (s.type k) t (s.sem k)).map fun sem => s.setMutex t k sem (s.held t k + 1)
    else none
  | .trylock t k =>
    if s.pc t = .running ∧ k < s.count then
      match mutexTake (s.type k) t (s.sem k) with
      | none => some s
      | some sem => some (s.setMutex t k sem (s.held t k + 1))
    else none
  | .unlock t k =>
    if s.pc t = .running ∧ k < s.count ∧ 0 < s.held t k then
      some (s.setMutex t k (mutexGive (s.type k) t (s.sem k)) (s.held t k - 1))
    else none
  | .finish t => if s.pc t = .running then some (s.go t (.freeing t 0)) else none
  | .stop t u =>
    if s.pc t = .running ∧ s.live u then
      -- a thread that stops itself does not return from `vTaskDelete`
      if t = u then some (s.go t .dead) else some ((s.go u .dead).go t (.freeing u 0))
    else none
  | .free t =>
    match s.pc t with
    | .freeing ending k => some (mutexFreeStep s t ending k)
    | _ => none

/-- `count` mutexes of the given types after their initialization, no thread
    in a call. -/
def exclInit (Tid : Type) (count : Nat) (type : Nat → Int) : ExclState Tid where
  count := count
  type := type
  sem _ := xSemaphoreCreate
  held _ _ := 0
  pc _ := .running

/-- All interleavings. -/
def exclSys (Tid : Type) [DecidableEq Tid] (count : Nat) (type : Nat → Int) :
    Lts (ExclState Tid) (ExclAct Tid) :=
  .ofStep (exclInit Tid count type) exclStep

/-- No two live threads are between a lock and an unlock of one mutex, and none
    can lock one that another live thread holds. -/
structure Exclusive (s : ExclState Tid) : Prop where
  unique : ∀ k u v, s.live u → s.live v → 0 < s.held u k → 0 < s.held v k → u = v
  locked : ∀ k u v, s.live u → 0 < s.held u k → v ≠ u → mutexTake (s.type k) v (s.sem k) = none

/-! ## One mutex -/

/-- A semaphore guards what the live threads hold of its mutex. -/
structure Guards (type : Int) (sem : Semaphore Tid) (held : Tid → Nat) (live : Tid → Prop) :
    Prop where
  /-- A plain mutex has one holder, who has locked it once, and cannot be taken. -/
  plain : type ≠ pthreadMutexRecursive → ∀ u, live u → 0 < held u →
    sem.available = false ∧ held u = 1 ∧ ∀ v, live v → 0 < held v → v = u
  /-- A recursive one that is available has no holder. -/
  free : type = pthreadMutexRecursive → sem.available = true → sem.holder = none
  /-- The kernel counts what is held of a recursive one. -/
  counted : type = pthreadMutexRecursive → ∀ u, live u →
    held u = if sem.holder = some u then sem.callCount else 0

section Guards

variable {type : Int} {sem sem' : Semaphore Tid} {held : Tid → Nat} {live : Tid → Prop} {me : Tid}

theorem guards_create : Guards type (xSemaphoreCreate : Semaphore Tid) (fun _ => 0) live where
  plain _ _ _ h := absurd h (Nat.lt_irrefl 0)
  free _ _ := rfl
  counted _ _ _ := by simp [xSemaphoreCreate]

/-- Threads that end hold nothing any more. -/
theorem Guards.mono {live' : Tid → Prop} (h : Guards type sem held live)
    (hlive : ∀ u, live' u → live u) : Guards type sem held live' where
  plain ht u hu hheld := by
    obtain ⟨hav, hone, huniq⟩ := h.plain ht u (hlive u hu) hheld
    exact ⟨hav, hone, fun v hv => huniq v (hlive v hv)⟩
  free := h.free
  counted ht u hu := h.counted ht u (hlive u hu)

theorem Guards.take (h : Guards type sem held live) (hlive : live me)
    (htake : mutexTake type me sem = some sem') :
    Guards type sem' (Function.update held me (held me + 1)) live := by
  unfold mutexTake at htake
  by_cases ht : type = pthreadMutexRecursive
  · rw [if_pos ht, xSemaphoreTakeRecursive] at htake
    refine ⟨fun hne => absurd ht hne, fun _ => ?_, fun _ u hu => ?_⟩
    · split_ifs at htake with hme hav <;> cases htake
      · exact h.free ht
      · -- it has just been taken
        exact fun hav' => absurd hav' (by simp)
    · have hcount := h.counted ht u hu
      split_ifs at htake with hme hav <;> cases htake
      · -- the holder takes it once more
        by_cases hum : u = me
        · subst hum
          rw [Function.update_self, hcount, if_pos hme, if_pos hme]
        · rw [Function.update_of_ne hum, hcount]
          have hne : sem.holder ≠ some u := by
            rw [hme]
            exact fun heq => hum (Option.some.inj heq).symm
          rw [if_neg hne, if_neg hne]
      · -- nobody held it, so the count starts with the caller
        rw [h.free ht hav, if_neg (by simp)] at hcount
        by_cases hum : u = me
        · subst hum
          simp [hcount]
        · simp [Function.update_of_ne hum, hcount, Ne.symm hum]
  · rw [if_neg ht, xSemaphoreTake_eq_some] at htake
    obtain ⟨hav, rfl⟩ := htake
    -- a plain semaphore that can be taken guards nothing
    have hnone : ∀ u, live u → held u = 0 := by
      intro u hu
      by_contra hne
      have := (h.plain ht u hu (Nat.pos_of_ne_zero hne)).1
      rw [hav] at this
      cases this
    have honly : ∀ v, live v → 0 < Function.update held me (held me + 1) v → v = me := by
      intro v hv hpos
      by_contra hvm
      rw [Function.update_of_ne hvm, hnone v hv] at hpos
      exact Nat.lt_irrefl 0 hpos
    refine ⟨fun _ u hu hheld => ?_, fun he => absurd he ht, fun he => absurd he ht⟩
    obtain rfl := honly u hu hheld
    exact ⟨rfl, by rw [Function.update_self, hnone u hu], fun v hv => honly v hv⟩

/-- A recursive give by a live task takes one from what it holds. -/
theorem Guards.giveRecursive (h : Guards type sem held live) (ht : type = pthreadMutexRecursive)
    (hlive : live me) (hgive : xSemaphoreGiveRecursive me sem = some sem') :
    Guards type sem' (Function.update held me (held me - 1)) live := by
  rw [xSemaphoreGiveRecursive] at hgive
  split_ifs at hgive with hme hle
  · -- the last give: nobody holds it now
    cases hgive
    refine ⟨fun hne => absurd ht hne, fun _ _ => rfl, fun _ u hu => ?_⟩
    have hcount := h.counted ht u hu
    by_cases hum : u = me
    · subst hum
      rw [if_pos hme] at hcount
      simp only [Function.update_self, xSemaphoreCreate]
      simp
      omega
    · rw [hme, if_neg (fun heq => hum (Option.some.inj heq).symm)] at hcount
      simp [Function.update_of_ne hum, hcount, xSemaphoreCreate]
  · -- it is still held, once less
    cases hgive
    refine ⟨fun hne => absurd ht hne, h.free, fun _ u hu => ?_⟩
    have hcount := h.counted ht u hu
    by_cases hum : u = me
    · subst hum
      rw [if_pos hme] at hcount
      simp [hme, hcount]
    · rw [Function.update_of_ne hum, hcount]
      simp [hme, Ne.symm hum]

/-- A plain give while nobody is left that holds the mutex. -/
theorem Guards.givePlain (ht : type ≠ pthreadMutexRecursive) (hnone : ∀ u, live u → held u = 0) :
    Guards type (xSemaphoreGive sem) held live where
  plain _ u hu hheld := by
    rw [hnone u hu] at hheld
    exact absurd hheld (Nat.lt_irrefl 0)
  free he := absurd he ht
  counted he := absurd he ht

/-- Who holds a recursive mutex is the holder the kernel knows. -/
theorem Guards.holder_of_held (h : Guards type sem held live) (ht : type = pthreadMutexRecursive)
    {u : Tid} (hu : live u) (hheld : 0 < held u) : sem.holder = some u := by
  have hcount := h.counted ht u hu
  by_contra hne
  rw [if_neg hne] at hcount
  omega

/-- An unlock by a thread that holds the mutex. -/
theorem Guards.give (h : Guards type sem held live) (hlive : live me) (hheld : 0 < held me) :
    Guards type (mutexGive type me sem) (Function.update held me (held me - 1)) live := by
  unfold mutexGive
  by_cases ht : type = pthreadMutexRecursive
  · have hme : sem.holder = some me := h.holder_of_held ht hlive hheld
    obtain ⟨sem', hgive⟩ : ∃ sem', xSemaphoreGiveRecursive me sem = some sem' := by
      rw [xSemaphoreGiveRecursive, if_pos hme]
      split_ifs
      · exact ⟨_, rfl⟩
      · exact ⟨_, rfl⟩
    rw [if_pos ht, hgive]
    exact h.giveRecursive ht hlive hgive
  · -- the caller was the only one, so nobody is left
    rw [if_neg ht]
    obtain ⟨-, hone, huniq⟩ := h.plain ht me hlive hheld
    refine .givePlain ht fun u hu => ?_
    by_cases hum : u = me
    · rw [hum, Function.update_self, hone]
    · rw [Function.update_of_ne hum]
      by_contra hne
      exact hum (huniq u hu (Nat.pos_of_ne_zero hne))

theorem Guards.unique (h : Guards type sem held live) {u v : Tid} (hu : live u) (hv : live v)
    (hheldu : 0 < held u) (hheldv : 0 < held v) : u = v := by
  by_cases ht : type = pthreadMutexRecursive
  · have hholdu : sem.holder = some u := h.holder_of_held ht hu hheldu
    have hholdv : sem.holder = some v := h.holder_of_held ht hv hheldv
    exact Option.some.inj (hholdu.symm.trans hholdv)
  · exact (h.plain ht v hv hheldv).2.2 u hu hheldu

theorem Guards.locked (h : Guards type sem held live) {u v : Tid} (hu : live u)
    (hheld : 0 < held u) (hvu : v ≠ u) : mutexTake type v sem = none := by
  unfold mutexTake
  by_cases ht : type = pthreadMutexRecursive
  · have hholder : sem.holder = some u := h.holder_of_held ht hu hheld
    have hav : ¬ sem.available = true := fun hav => by
      rw [h.free ht hav] at hholder
      cases hholder
    rw [if_pos ht, xSemaphoreTakeRecursive, hholder,
      if_neg (fun heq => hvu (Option.some.inj heq).symm), if_neg hav]
  · rw [if_neg ht, xSemaphoreTake, (h.plain ht u hu hheld).1]
    rfl

end Guards

/-! ## Every run -/

/-- The give of `t` at `p` takes no mutex away from a live thread: nobody but
    `t` itself, at its own end, holds a plain one, and a thread that stops
    another holds no recursive one. -/
def GivesOwn (s : ExclState Tid) (t : Tid) : ThreadPc Tid → Prop
  | .freeing ending k => k < s.count →
    (s.type k ≠ pthreadMutexRecursive → ∀ u, s.live u → s.held u k = 0 ∨ u = t ∧ ending = t) ∧
    (s.type k = pthreadMutexRecursive → ending = t ∨ s.held t k = 0)
  | _ => True

/-- `_pthread_mutex_free` takes no mutex away from a live thread. -/
def ReleasesOwn (s : ExclState Tid) : ExclAct Tid → Prop
  | .free t => GivesOwn s t (s.pc t)
  | _ => True

instance [Fintype Tid] (s : ExclState Tid) (t : Tid) (p : ThreadPc Tid) :
    Decidable (GivesOwn s t p) :=
  match p with
  | .freeing ending k => inferInstanceAs (Decidable (k < s.count →
      (s.type k ≠ pthreadMutexRecursive → ∀ u, s.live u → s.held u k = 0 ∨ u = t ∧ ending = t) ∧
      (s.type k = pthreadMutexRecursive → ending = t ∨ s.held t k = 0)))
  | .running | .dead => .isTrue trivial

instance [Fintype Tid] (s : ExclState Tid) (a : ExclAct Tid) : Decidable (ReleasesOwn s a) :=
  match a with
  | .free t => inferInstanceAs (Decidable (GivesOwn s t (s.pc t)))
  | .lock _ _ | .trylock _ _ | .unlock _ _ | .finish _ | .stop _ _ => .isTrue trivial

/-- Every semaphore guards its mutex. -/
def ExclInv (s : ExclState Tid) : Prop :=
  ∀ k, Guards (s.type k) (s.sem k) (fun u => s.held u k) s.live

variable {s s' : ExclState Tid} {t : Tid} {k : Nat}

/-- One mutex changes hands. -/
theorem ExclInv.setMutex (h : ExclInv s) {sem : Semaphore Tid} {n : Nat}
    (hk : Guards (s.type k) sem (Function.update (fun u => s.held u k) t n) s.live) :
    ExclInv (s.setMutex t k sem n) := by
  intro j
  by_cases hj : j = k
  · subst hj
    have hheld : (fun u => (s.setMutex t j sem n).held u j) =
        Function.update (fun u => s.held u j) t n := by
      funext u
      by_cases hu : u = t
      · subst hu
        simp [ExclState.setMutex]
      · simp [ExclState.setMutex, Function.update_of_ne hu]
    have hsem : (s.setMutex t j sem n).sem j = sem := Function.update_self ..
    rw [hheld, hsem]
    exact hk
  · have hheld : (fun u => (s.setMutex t k sem n).held u j) = fun u => s.held u j := by
      funext u
      by_cases hu : u = t
      · subst hu
        simp [ExclState.setMutex, Function.update_of_ne hj]
      · simp [ExclState.setMutex, Function.update_of_ne hu]
    have hsem : (s.setMutex t k sem n).sem j = s.sem j := Function.update_of_ne hj ..
    rw [hheld, hsem]
    exact h j

/-- A thread that is live goes on, or a thread ends. -/
theorem ExclInv.go (h : ExclInv s) {p : ThreadPc Tid} (hp : s.live t ∨ p = .dead) :
    ExclInv (s.go t p) := by
  refine fun k => (h k).mono fun u hu => ?_
  by_cases hut : u = t
  · subst hut
    refine hp.resolve_right fun hdead => hu ?_
    show Function.update s.pc u p u = .dead
    rw [Function.update_self, hdead]
  · have hpc : (s.go t p).pc u = s.pc u := Function.update_of_ne hut ..
    exact fun hdead => hu (hpc.trans hdead)

theorem mutexFreeStep_inv (h : ExclInv s) {ending : Tid} (hpc : s.pc t = .freeing ending k)
    (hok : GivesOwn s t (.freeing ending k)) : ExclInv (mutexFreeStep s t ending k) := by
  have hlive : s.live t := by
    rw [ExclState.live, hpc]
    exact fun hdead => nomatch hdead
  unfold mutexFreeStep
  split_ifs with hk ht hself
  · obtain ⟨-, hrec⟩ := hok hk
    cases hgive : xSemaphoreGiveRecursive t (s.sem k) with
    | none => exact h.go (.inl hlive)
    | some sem =>
      refine h.setMutex ?_
      have hguards := (h k).giveRecursive ht hlive hgive
      -- the stopping thread holds nothing here, so taking one from it changes nothing
      have heq : s.heldAfterGive t ending k = s.held t k - 1 := by
        unfold ExclState.heldAfterGive
        split_ifs with he
        · rfl
        · rw [(hrec ht).resolve_left he]
      rw [heq]
      exact hguards
  · -- a plain semaphore is given whoever holds it: by `hok`, nobody but `t`
    obtain ⟨hplain, -⟩ := hok hk
    refine ExclInv.go (h.setMutex (.givePlain ht fun u hu => ?_)) (.inl hlive)
    by_cases hut : u = t
    · subst hut
      rw [Function.update_self, ExclState.heldAfterGive]
      split_ifs with he
      · by_cases hheld : 0 < s.held u k
        · rw [((h k).plain ht u hlive hheld).2.1]
        · omega
      · exact (hplain ht u hlive).resolve_right fun hself => he hself.2
    · rw [Function.update_of_ne hut]
      exact (hplain ht u hu).resolve_right fun hself => hut hself.1
  · exact h.go (.inr rfl)
  · exact h.go (.inl hlive)

theorem exclStep_inv (h : ExclInv s) {a : ExclAct Tid} (hok : ReleasesOwn s a)
    (hs : exclStep s a = some s') : ExclInv s' := by
  have hrunning {t : Tid} (hpc : s.pc t = .running) : s.live t := by
    rw [ExclState.live, hpc]
    exact fun hdead => nomatch hdead
  cases a with
  | lock t k =>
    simp only [exclStep] at hs
    split_ifs at hs with hpre
    obtain ⟨sem, htake, rfl⟩ := Option.map_eq_some_iff.mp hs
    exact h.setMutex ((h k).take (hrunning hpre.1) htake)
  | trylock t k =>
    simp only [exclStep] at hs
    split_ifs at hs with hpre
    cases htake : mutexTake (s.type k) t (s.sem k) with
    | none =>
      -- pthread_mutex_trylock answers EBUSY
      rw [htake] at hs
      cases hs
      exact h
    | some sem =>
      rw [htake] at hs
      cases hs
      exact h.setMutex ((h k).take (hrunning hpre.1) htake)
  | unlock t k =>
    simp only [exclStep] at hs
    split_ifs at hs with hpre
    cases hs
    exact h.setMutex ((h k).give (hrunning hpre.1) hpre.2.2)
  | finish t =>
    simp only [exclStep] at hs
    split_ifs at hs with hpre
    cases hs
    exact h.go (.inl (hrunning hpre))
  | stop t u =>
    simp only [exclStep] at hs
    split_ifs at hs with hpre hself
    · cases hs
      exact h.go (.inr rfl)
    · cases hs
      have hlive : (s.go u .dead).live t := by
        show Function.update s.pc u .dead t ≠ .dead
        rw [Function.update_of_ne hself]
        exact hrunning hpre.1
      exact ExclInv.go (h.go (.inr rfl)) (.inl hlive)
  | free t =>
    simp only [exclStep] at hs
    split at hs
    · next ending k hpc =>
      cases hs
      refine mutexFreeStep_inv h hpc ?_
      rw [← hpc]
      exact hok
    · cases hs

theorem exclInv_reach {count : Nat} {type : Nat → Int}
    (h : (exclSys Tid count type).Reach ReleasesOwn s) : ExclInv s := by
  refine Lts.Reach.invariant ?_ ?_ h
  · rintro s rfl
    exact fun _ => guards_create
  · exact fun _ _ _ hi hok hs => exclStep_inv hi hok hs

/-- As long as `_pthread_mutex_free` takes no mutex away from a live thread,
    the mutexes exclude. -/
theorem exclusive_of_releasesOwn {count : Nat} {type : Nat → Int}
    (h : (exclSys Tid count type).Reach ReleasesOwn s) : Exclusive s where
  unique k _ _ hu hv hheldu hheldv := (exclInv_reach h k).unique hu hv hheldu hheldv
  locked k _ _ hu hheld hvu := (exclInv_reach h k).locked hu hheld hvu

end Steps

/-! ## Runs of three threads with a plain mutex -/

/-- Thread 1 locks, unlocks and ends, and then thread 0 locks. -/
theorem exclusive_of_releasesOwn_oneHolder :
    ∃ s : ExclState (Fin 3), s.held 0 0 = 1 ∧ s.pc 1 = .dead ∧ Exclusive s :=
  ⟨_, rfl, rfl, exclusive_of_releasesOwn
    (show (exclSys (Fin 3) 1 fun _ => pthreadMutexNormal).Reach ReleasesOwn _ from
      Lts.Reach.schedule [.lock 1 0, .unlock 1 0, .finish 1, .free 1, .free 1, .lock 0 0] rfl)⟩

/-- Thread 0 holds the mutex; thread 1 ends and gives it, so that thread 2
    locks it too. -/
theorem not_exclusive_ending :
    ¬ ∀ s, (exclSys (Fin 3) 1 fun _ => pthreadMutexNormal).Reach (fun _ _ => True) s →
      Exclusive s := by
  intro h
  have hreach := h _ (Lts.Reach.schedule [.lock 0 0, .finish 1, .free 1, .lock 2 0] rfl)
  exact absurd (hreach.unique 0 0 2 (by decide) (by decide) (by decide) (by decide)) (by decide)

end LuaRtos.Mutex
