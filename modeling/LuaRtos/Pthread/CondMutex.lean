/-
  LuaRtos.Pthread.CondMutex

  Whether a wait releases the user's mutex while it is blocked and holds it
  when it returns.

  The waits never unlock the mutex before they block, and they unlock it at the
  end, where they should lock it.  `ReleasesOk` is the condition on one step
  under which this does no harm: a thread that holds the mutex meets a
  semaphore that it can take at once, and it returns from the wait with a
  recursive mutex that it holds more than once.
-/

import Mathlib.Data.Fintype.Basic
import LuaRtos.Pthread.Cond

namespace LuaRtos.Pthread

open LuaRtos.CLib

variable {Tid : Type} {s s' : CondState Tid} {t : Tid} {p : CondPc}

/-- What a wait promises about the user's mutex. -/
structure MutexProper (s : CondState Tid) : Prop where
  /-- A thread blocked inside a wait does not hold it. -/
  released : ∀ t, s.Blocked t → s.owner ≠ some t
  /-- A thread that has returned from a wait holds it. -/
  held : ∀ t e, s.pc t = .returned e → s.owner = some t

/-- No thread but `t` is at a lock inside a wait and holds the user's mutex. -/
def OthersReleased (s : CondState Tid) (t : Tid) : Prop :=
  ∀ u, u ≠ t → (s.pc u).atLock → s.owner ≠ some u

/-- `t` can go to a lock: it does not hold the user's mutex, or the semaphore is
    not taken. -/
def CanLock (s : CondState Tid) (t : Tid) : Prop :=
  s.sem = some false → s.owner ≠ some t

/-- The condition on the next step of `t`, which is at `p`. -/
def RunReleasesOk (s : CondState Tid) (t : Tid) : CondPc → Prop
  | .wInc => CanLock s t
  | .wLock | .wLock2 | .tTake _ => OthersReleased s t
  | .wTest => s.referenced = 1 → CanLock s t
  | .tTest ticks => s.referenced = 1 ∨ 0 < ticks → CanLock s t
  -- the semaphore that `t` takes here is the one it asks for next
  | .tLock ticks => OthersReleased s t ∧ (0 < ticks → s.owner ≠ some t)
  | .wUnlock | .tUnlock => s.owner = some t ∧ 2 ≤ s.depth
  | .iSem mem => s.sem = none ∧ mem → OthersReleased s t
  | _ => True

/-- The condition on a step. -/
def ReleasesOk (s : CondState Tid) : CondAct Tid → Prop
  | .wait t | .timedwait t _ => s.sem = none → s.owner = some t
  | .timeout t => s.owner = some t
  | .run t => RunReleasesOk s t (s.pc t)
  | _ => True

instance [Fintype Tid] [DecidableEq Tid] : Decidable (OthersReleased s t) :=
  inferInstanceAs (Decidable (∀ u, u ≠ t → (s.pc u).atLock → s.owner ≠ some u))

instance [DecidableEq Tid] : Decidable (CanLock s t) :=
  inferInstanceAs (Decidable (s.sem = some false → s.owner ≠ some t))

instance [Fintype Tid] [DecidableEq Tid] : (p : CondPc) → Decidable (RunReleasesOk s t p)
  | .wInc => inferInstanceAs (Decidable (CanLock s t))
  | .wLock | .wLock2 | .tTake _ => inferInstanceAs (Decidable (OthersReleased s t))
  | .wTest => inferInstanceAs (Decidable (s.referenced = 1 → CanLock s t))
  | .tTest ticks => inferInstanceAs (Decidable (s.referenced = 1 ∨ 0 < ticks → CanLock s t))
  | .tLock ticks =>
    inferInstanceAs (Decidable (OthersReleased s t ∧ (0 < ticks → s.owner ≠ some t)))
  | .wUnlock | .tUnlock => inferInstanceAs (Decidable (s.owner = some t ∧ 2 ≤ s.depth))
  | .iSem mem => inferInstanceAs (Decidable (s.sem = none ∧ mem → OthersReleased s t))
  | .idle | .tInc _ | .returned _ | .sDec | .sGive | .iTest _ | .iGive | .iZero | .dTest | .dSem
  | .dDelete | .answered _ => .isTrue trivial

instance [Fintype Tid] [DecidableEq Tid] : (a : CondAct Tid) → Decidable (ReleasesOk s a)
  | .wait t | .timedwait t _ => inferInstanceAs (Decidable (s.sem = none → s.owner = some t))
  | .timeout t => inferInstanceAs (Decidable (s.owner = some t))
  | .run t => inferInstanceAs (Decidable (RunReleasesOk s t (s.pc t)))
  | .lock _ | .unlock _ | .signal _ | .init .. | .destroy _ | .leave _ => .isTrue trivial

/-! ## One thread moves -/

/-- The promise about `t` at `p`. -/
def ThreadProper (sem : Option Bool) (owner : Option Tid) (t : Tid) (p : CondPc) : Prop :=
  (p.atLock → sem = some false → owner ≠ some t) ∧ ∀ e, p = .returned e → owner = some t

theorem mutexProper_iff :
    MutexProper s ↔ ∀ t, ThreadProper s.sem s.owner t (s.pc t) := by
  constructor
  · exact fun h t => ⟨fun hp hs => h.released t ⟨hp, hs⟩, h.held t⟩
  · exact fun h => ⟨fun t hb => (h t).1 hb.1 hb.2, fun t => (h t).2⟩

/-- A thread that is neither at a lock nor back from a wait has no promise to keep. -/
theorem threadProper_of_inside {sem : Option Bool} {owner : Option Tid} (hl : p.atLock = false)
    (hr : ∀ e, p ≠ .returned e) : ThreadProper sem owner t p :=
  ⟨fun h => absurd (hl ▸ h) (by decide), fun e h => absurd h (hr e)⟩

theorem threadProper_atLock {owner : Option Tid} {sem : Option Bool} (hl : p.atLock = true)
    (hr : ∀ e, p ≠ .returned e) :
    ThreadProper sem owner t p ↔ (sem = some false → owner ≠ some t) :=
  ⟨fun h => h.1 hl, fun h => ⟨fun _ => h, fun e hp => absurd hp (hr e)⟩⟩

theorem threadProper_returned {sem : Option Bool} {owner : Option Tid} {e : Errno} :
    ThreadProper sem owner t (.returned e) ↔ owner = some t :=
  ⟨fun h => h.2 e rfl, fun h => ⟨fun hl => absurd hl Bool.false_ne_true, fun _ _ => h⟩⟩

variable [DecidableEq Tid]

theorem mutexProper_go :
    MutexProper (s.go t p) ↔ ThreadProper s.sem s.owner t p ∧
      ∀ u, u ≠ t → ThreadProper s.sem s.owner u (s.pc u) := by
  rw [mutexProper_iff]
  exact Function.forall_update_iff s.pc fun u p => ThreadProper s.sem s.owner u p

/-- A step that does not take the semaphore and leaves the mutex alone concerns
    only the thread that moves. -/
theorem mutexProper_keep (h : MutexProper s) (hpc : s'.pc = s.pc)
    (hsem : s'.sem = some false → s.sem = some false) (howner : s'.owner = s.owner) :
    MutexProper (s'.go t p) ↔ ThreadProper s'.sem s.owner t p := by
  rw [mutexProper_go, howner, hpc]
  refine and_iff_left fun u _ => ?_
  have hu := mutexProper_iff.mp h u
  exact ⟨fun hl hs => hu.1 hl (hsem hs), hu.2⟩

/-- A step that makes the semaphore unavailable blocks every thread at a lock. -/
theorem mutexProper_take (h : MutexProper s) :
    MutexProper ({ s with sem := some false }.go t p) ↔
      ThreadProper (some false) s.owner t p ∧ OthersReleased s t := by
  rw [mutexProper_go]
  refine and_congr_right fun _ => forall₂_congr fun u _ => ?_
  exact ⟨fun hu hl => hu.1 hl rfl, fun hu => ⟨fun hl _ => hu hl, h.held u⟩⟩

/-- A step to a place without a promise that does not take the semaphore. -/
theorem mutexProper_inside (h : MutexProper s) (hpc : s'.pc = s.pc)
    (hsem : s'.sem = some false → s.sem = some false) (howner : s'.owner = s.owner)
    (hl : p.atLock = false) (hr : ∀ e, p ≠ .returned e) : MutexProper (s'.go t p) :=
  (mutexProper_keep h hpc hsem howner).mpr (threadProper_of_inside hl hr)

/-- The end of a wait: the mutex is still held only if it was held twice. -/
theorem mutexProper_unlock (h : MutexProper s) (e : Errno) :
    MutexProper ((pthreadMutexUnlock s t).go t (.returned e)) ↔
      s.owner = some t ∧ 2 ≤ s.depth := by
  rw [mutexProper_go, threadProper_returned, pthreadMutexUnlock_owner, pthreadMutexUnlock_sem,
    pthreadMutexUnlock_pc]
  by_cases hlast : s.owner = some t ∧ s.depth ≤ 1
  · rw [if_pos hlast]
    constructor
    · exact fun ⟨hn, _⟩ => absurd hn (by simp)
    · exact fun ⟨_, hd⟩ => absurd hlast.2 (by omega)
  · rw [if_neg hlast]
    constructor
    · exact fun ⟨ho, _⟩ => ⟨ho, Nat.lt_of_not_le fun hd => hlast ⟨ho, hd⟩⟩
    · exact fun ⟨ho, _⟩ => ⟨ho, fun u _ => mutexProper_iff.mp h u⟩

/-! ## One step -/

theorem condRun_proper_iff (h : MutexProper s) (hs : condRun s t = some s') :
    MutexProper s' ↔ RunReleasesOk s t (s.pc t) := by
  have hstep := condRun_step hs
  generalize s.pc t = p at hstep
  cases hstep with
  | wInc => exact Iff.trans (mutexProper_keep h rfl id rfl) (threadProper_atLock rfl (by simp))
  | wLock | wLock2 | tTake =>
    exact (mutexProper_take h).trans (and_iff_right (threadProper_of_inside rfl (by simp)))
  | tLock ticks =>
    rw [mutexProper_take h, and_comm]
    refine and_congr_right fun _ => ?_
    simp [ThreadProper, CondPc.atLock]
  | wTestFirst href =>
    refine Iff.trans (mutexProper_keep h rfl id rfl)
      ((threadProper_atLock rfl (by simp)).trans ?_)
    simp [RunReleasesOk, CanLock, href]
  | wTestOther href =>
    exact iff_of_true (mutexProper_inside h rfl id rfl rfl (by simp)) fun h1 => absurd h1 href
  | tTestFirst ticks href =>
    refine Iff.trans (mutexProper_keep h rfl id rfl)
      ((threadProper_atLock rfl (by simp)).trans ?_)
    simp [RunReleasesOk, CanLock, href]
  | tTestOther ticks href =>
    refine Iff.trans (mutexProper_keep h rfl id rfl) ?_
    simp [RunReleasesOk, CanLock, href, ThreadProper, CondPc.atLock]
  | wUnlock | tUnlock => exact mutexProper_unlock h _
  | iSemCreate hsem =>
    refine (mutexProper_take h).trans
      ((and_iff_right (threadProper_of_inside rfl (by simp))).trans ?_)
    simp [RunReleasesOk, hsem]
  | iSemBusy mem hsem =>
    exact iff_of_true (mutexProper_inside h rfl id rfl rfl (by simp)) fun hm => absurd hm.1 hsem
  | iSemNoMem =>
    exact iff_of_true (mutexProper_inside h rfl id rfl rfl (by simp)) fun hm => nomatch hm.2
  | sGive | iGive | dSemGive | dDelete =>
    exact iff_of_true (mutexProper_inside h rfl (by simp) rfl rfl (by simp)) trivial
  | tInc | sDec | iZero | iTestBusy | iTestFree | dTestBusy | dTestFree | dSemNull =>
    exact iff_of_true (mutexProper_inside h rfl id rfl rfl (by simp)) trivial

/-- A thread outside of the waits takes the mutex while nobody else has it. -/
theorem pthreadMutexLock_proper (h : MutexProper s) (hidle : s.pc t = .idle)
    (hs : pthreadMutexLock s t = some s') : MutexProper s' := by
  obtain ⟨howner, hfree, hsem, -, hpc⟩ := pthreadMutexLock_some hs
  refine ⟨fun u hb hu => ?_, fun u e hu => ?_⟩
  · obtain rfl : t = u := by simpa [howner] using hu
    simp [CondState.Blocked, hpc, hidle, CondPc.atLock] at hb
  · have hheld := h.held u e (hpc ▸ hu)
    rcases hfree with hn | ht
    · simp [hn] at hheld
    · rw [howner, ← ht, hheld]

/-- The holder gives the mutex back outside of the waits. -/
theorem pthreadMutexUnlock_proper (h : MutexProper s) (hidle : s.pc t = .idle)
    (ht : s.owner = some t) : MutexProper (pthreadMutexUnlock s t) := by
  refine ⟨fun u hb hu => ?_, fun u e hu => ?_⟩
  · rw [CondState.Blocked, pthreadMutexUnlock_pc, pthreadMutexUnlock_sem] at hb
    rw [pthreadMutexUnlock_owner] at hu
    split_ifs at hu
    exact h.released u hb hu
  · rw [pthreadMutexUnlock_pc] at hu
    have hheld := h.held u e hu
    obtain rfl : t = u := by simpa [ht] using hheld
    simp [hidle] at hu

/-- A step keeps the promise exactly when it meets the condition. -/
theorem condStep_proper_iff (h : MutexProper s) {a : CondAct Tid} (hs : condStep s a = some s') :
    MutexProper s' ↔ ReleasesOk s a := by
  cases a with
  | run t => exact condRun_proper_iff h hs
  | lock t =>
    obtain ⟨hidle, hs⟩ := condCall_eq_some.mp hs
    exact iff_of_true (pthreadMutexLock_proper h hidle hs) trivial
  | unlock t =>
    obtain ⟨hidle, hs⟩ := condCall_eq_some.mp hs
    split_ifs at hs with ht
    cases hs
    exact iff_of_true (pthreadMutexUnlock_proper h hidle ht) trivial
  | wait t | timedwait t =>
    obtain ⟨-, hs⟩ := condCall_eq_some.mp hs
    cases hs
    by_cases hsem : s.sem = none
    · rw [if_pos hsem]
      refine Iff.trans (mutexProper_keep h rfl id rfl) (threadProper_returned.trans ?_)
      exact ⟨fun ho _ => ho, fun ho => ho hsem⟩
    · rw [if_neg hsem]
      exact iff_of_true (mutexProper_inside h rfl id rfl rfl (by simp)) fun h0 => absurd h0 hsem
  | signal t =>
    obtain ⟨-, hs⟩ := condCall_eq_some.mp hs
    cases hs
    refine iff_of_true ?_ trivial
    split_ifs
    · exact h
    · exact mutexProper_inside h rfl id rfl rfl (by simp)
  | init t attr mem =>
    obtain ⟨-, hs⟩ := condCall_eq_some.mp hs
    refine iff_of_true ?_ trivial
    split_ifs at hs <;> cases hs <;> exact mutexProper_inside h rfl id rfl rfl (by simp)
  | destroy t =>
    obtain ⟨-, hs⟩ := condCall_eq_some.mp hs
    refine iff_of_true ?_ trivial
    split_ifs at hs
    cases hs
    exact mutexProper_inside h rfl id rfl rfl (by simp)
  | timeout t =>
    simp only [condStep] at hs
    split at hs <;> cases hs
    exact Iff.trans (mutexProper_keep h rfl id rfl) threadProper_returned
  | leave t =>
    simp only [condStep] at hs
    refine iff_of_true ?_ trivial
    split at hs <;> cases hs <;> exact mutexProper_inside h rfl id rfl rfl (by simp)

/-! ## Every run -/

omit [DecidableEq Tid] in
theorem mutexProper_ready {recursive : Bool} : MutexProper (condReady recursive : CondState Tid) :=
  ⟨fun _ _ => by simp [condReady], fun _ _ h => by simp [condReady] at h⟩

theorem mutexProper_reach {recursive : Bool}
    (h : (condSys (condReady recursive)).Reach ReleasesOk s) : MutexProper s :=
  h.invariant (fun _ h => h ▸ mutexProper_ready)
    fun _ _ _ hI hok hs => (condStep_proper_iff hI hs).mpr hok

/-- The waits release the mutex while they block and hold it when they return,
    in every state of the runs that meet the condition; from such a state a step
    keeps this up exactly when it meets the condition. -/
theorem waits_release_mutex (recursive : Bool)
    (h : (condSys (condReady recursive)).Reach ReleasesOk s) :
    MutexProper s ∧ ∀ a s', condStep s a = some s' → (MutexProper s' ↔ ReleasesOk s a) :=
  ⟨mutexProper_reach h, fun _ _ hs => condStep_proper_iff (mutexProper_reach h) hs⟩

/-- A thread that holds the mutex twice waits on a condition that was signalled
    before: it returns at once, and holds the mutex once. -/
theorem waits_release_mutex_signalled :
    ∃ s : CondState (Fin 2),
      (s.pc 0 = .returned .success ∧ s.owner = some 0) ∧ MutexProper s ∧
        ∀ a s', condStep s a = some s' → (MutexProper s' ↔ ReleasesOk s a) :=
  ⟨_, ⟨rfl, rfl⟩, waits_release_mutex true <|
    Lts.Reach.schedule [.signal 1, .run 1, .run 1, .lock 0, .lock 0, .wait 0,
      .run 0, .run 0, .run 0, .run 0] rfl⟩

/-- A thread blocks in its wait while it holds the mutex; and once it is
    signalled it returns without it. -/
theorem wait_keeps_mutex :
    (¬ ∀ s : CondState (Fin 2), (condSys (condReady false)).Reach (fun _ _ => True) s →
      ∀ t, s.Blocked t → s.owner ≠ some t) ∧
    ¬ ∀ s : CondState (Fin 2), (condSys (condReady false)).Reach (fun _ _ => True) s →
      ∀ t e, s.pc t = .returned e → s.owner = some t := by
  constructor
  · intro h
    exact h _ (Lts.Reach.schedule [.lock 0, .wait 0, .run 0, .run 0, .run 0] rfl) 0
      ⟨rfl, rfl⟩ rfl
  · intro h
    have hheld := h _ (Lts.Reach.schedule [.lock 0, .wait 0, .run 0, .run 0, .run 0,
      .signal 1, .run 1, .run 1, .run 0, .run 0] rfl) 0 .success rfl
    exact nomatch hheld

end LuaRtos.Pthread
