/-
  LuaRtos.Pthread.CondCount

  What `cond->referenced` counts, and when `pthread_cond_init` and
  `pthread_cond_destroy` answer EBUSY.

  A wait raises the counter when it begins; what lowers it is not the end of
  the wait but the signal.  So the counter is the number of threads inside a
  wait, less the signals that no wait has returned for yet.  A timed wait that
  runs out of time lowers nothing, and runs with such a wait are left out here.
-/

import Mathlib.Data.Fintype.Basic
import LuaRtos.Lts.Count
import LuaRtos.Pthread.Cond

namespace LuaRtos.Pthread

open LuaRtos.CLib

/-- Inside a wait, after `cond->referenced++`. -/
def CondPc.inside : CondPc → Bool
  | .wLock | .wTest | .wLock2 | .wUnlock => true
  | .tTest _ | .tLock _ | .tTake _ | .tUnlock => true
  | _ => false

/-- What has happened since `pthread_cond_init` last set the counter to 0: the
    waits that returned, the signals, and the threads that were inside a wait
    at that moment. -/
structure Tally where
  returns : Nat
  signals : Nat
  before : Nat

section Count

variable {Tid : Type} [Fintype Tid]

/-- How many threads are inside a wait. -/
def CondState.inside (s : CondState Tid) : Nat := (threadsAt CondPc.inside s.pc).card

/-- The tally after the next step of a thread that is at `p`. -/
def Tally.run (g : Tally) (s : CondState Tid) : CondPc → Tally
  | .wUnlock | .tUnlock => { g with returns := g.returns + 1 }
  | .sDec => { g with signals := g.signals + 1 }
  | .iZero => ⟨0, 0, s.inside⟩
  | _ => g

def Tally.next (s : CondState Tid) (a : CondAct Tid) (g : Tally) : Tally :=
  match a with
  | .run t => g.run s (s.pc t)
  | _ => g

/-- The signals that no wait has returned for. -/
def Tally.unanswered (g : Tally) : Int := g.signals - g.returns

/-- The threads inside a wait that began after the counter was set to 0, less
    the signals that no wait has returned for. -/
def waitersLeft (p : CondState Tid × Tally) : Int :=
  (p.1.inside - p.2.before) - p.2.unanswered

/-- No timed wait ends because its time is over. -/
def NoTimeout (_ : CondState Tid × Tally) : CondAct Tid → Prop
  | .timeout _ => False
  | _ => True

/-- When the next step of `t` answers EBUSY. -/
def Busy (p : CondState Tid × Tally) (t : Tid) : Prop :=
  match p.1.pc t with
  | .iTest _ | .dTest => 0 < waitersLeft p
  | .iSem _ => p.1.sem ≠ none
  | _ => False

variable [DecidableEq Tid]

/-- All interleavings from a condition that is not initialized, with the tally. -/
def countSys (Tid : Type) [DecidableEq Tid] [Fintype Tid] (recursive : Bool) :
    Lts (CondState Tid × Tally) (CondAct Tid) :=
  .ofStep (condBlank recursive, ⟨0, 0, 0⟩) (Lts.withHistory condStep Tally.next)

variable {s s' : CondState Tid} {g : Tally} {t : Tid} {q : CondPc}

/-! ## What one step keeps -/

theorem inside_go : (s.go t q).inside + (s.pc t).inside.toNat = s.inside + q.inside.toNat :=
  card_threadsAt_update CondPc.inside s.pc t q

omit [DecidableEq Tid] in
theorem inside_congr (hpc : s'.pc = s.pc) : s'.inside = s.inside := by
  rw [CondState.inside, hpc, CondState.inside]

/-- The counter is right. -/
def Counts (p : CondState Tid × Tally) : Prop := p.1.referenced = waitersLeft p

/-- Thread `t` goes to `q`. -/
theorem counts_go (s : CondState Tid) {g' : Tally} (hpc : s'.pc = s.pc)
    (heq : s'.referenced + (s.pc t).inside.toNat + g'.before + g'.signals =
      s.inside + q.inside.toNat + g'.returns) : Counts (s'.go t q, g') := by
  have hmove := inside_go (s := s') (t := t) (q := q)
  rw [hpc, inside_congr hpc] at hmove
  simp only [Counts, waitersLeft, Tally.unanswered, go_referenced]
  omega

theorem condRun_counts (h : Counts (s, g)) (hs : condRun s t = some s') :
    Counts (s', g.run s (s.pc t)) := by
  have hstep := condRun_step hs
  simp only [Counts, waitersLeft, Tally.unanswered] at h
  generalize hp : s.pc t = p at hstep
  cases hstep with
  | wUnlock | tUnlock =>
    refine counts_go s pthreadMutexUnlock_pc ?_
    simp [hp, CondPc.inside, Tally.run]
    omega
  | iZero =>
    -- the tally starts again, with the threads that are inside now
    refine counts_go s rfl ?_
    simp [hp, CondPc.inside, Tally.run]
  | _ =>
    refine counts_go s rfl ?_
    simp [hp, CondPc.inside, Tally.run]
    omega

omit [DecidableEq Tid] in
theorem counts_congr (h : Counts (s, g)) (hpc : s'.pc = s.pc)
    (hreferenced : s'.referenced = s.referenced) : Counts (s', g) := by
  simp only [Counts, waitersLeft] at h ⊢
  rw [inside_congr hpc, hreferenced, h]

theorem condStep_counts (h : Counts (s, g)) {a : CondAct Tid} (hok : NoTimeout (s, g) a)
    (hs : condStep s a = some s') : Counts (s', Tally.next s a g) := by
  cases a with
  | timeout => exact hok.elim
  | run t => exact condRun_counts h hs
  | lock t =>
    obtain ⟨-, hs⟩ := condCall_eq_some.mp hs
    obtain ⟨-, -, -, hreferenced, hpc⟩ := pthreadMutexLock_some hs
    exact counts_congr h hpc hreferenced
  | unlock t =>
    obtain ⟨-, hs⟩ := condCall_eq_some.mp hs
    split_ifs at hs
    cases hs
    exact counts_congr h pthreadMutexUnlock_pc pthreadMutexUnlock_referenced
  | wait t | timedwait t | init t | destroy t =>
    obtain ⟨hidle, hs⟩ := condCall_eq_some.mp hs
    simp only [Counts, waitersLeft, Tally.unanswered] at h
    split_ifs at hs <;> cases hs
    all_goals
      refine counts_go s rfl ?_
      simp [hidle, CondPc.inside, Tally.next]
      omega
  | signal t =>
    obtain ⟨hidle, hs⟩ := condCall_eq_some.mp hs
    by_cases hsem : s.sem = none
    · rw [if_pos hsem] at hs
      cases hs
      exact h
    · rw [if_neg hsem] at hs
      cases hs
      simp only [Counts, waitersLeft, Tally.unanswered] at h
      refine counts_go s rfl ?_
      simp [hidle, CondPc.inside, Tally.next]
      omega
  | leave t =>
    simp only [Counts, waitersLeft, Tally.unanswered] at h
    simp only [condStep] at hs
    split at hs <;> cases hs
    all_goals
      rename_i hp
      refine counts_go s rfl ?_
      simp [hp, CondPc.inside, Tally.next]
      omega

/-! ## When a call is busy -/

/-- EBUSY is the answer exactly where the code tests the counter and finds a
    waiter, and where `pthread_cond_init` finds a semaphore. -/
theorem condRun_busy_iff (h : Counts (s, g)) (hs : condRun s t = some s') :
    s'.pc t = .answered .ebusy ↔ Busy (s, g) t := by
  have hcount : s.referenced = waitersLeft (s, g) := h
  have hstep := condRun_step hs
  unfold Busy
  rw [← hcount]
  generalize s.pc t = p at hstep
  cases hstep with
  | iTestBusy _ hpos | iTestFree _ hpos | dTestBusy hpos | dTestFree hpos => simp [hpos]
  | iSemBusy _ hsem | iSemNoMem hsem | iSemCreate hsem => simp [hsem]
  | _ => simp

/-! ## Every run -/

omit [DecidableEq Tid] in
theorem counts_blank {recursive : Bool} :
    Counts ((condBlank recursive : CondState Tid), ⟨0, 0, 0⟩) := by
  have hnone : (condBlank recursive : CondState Tid).inside = 0 :=
    Finset.card_eq_zero.mpr (threadsAt_eq_empty fun _ => rfl)
  simp only [Counts, waitersLeft, hnone]
  rfl

theorem counts_reach {recursive : Bool} {p : CondState Tid × Tally}
    (h : (countSys Tid recursive).Reach NoTimeout p) : Counts p := by
  refine h.invariant (fun _ h => h ▸ counts_blank) fun p a p' hI hok hs => ?_
  obtain ⟨s', hstep, rfl⟩ := Option.map_eq_some_iff.mp hs
  exact condStep_counts hI hok hstep

end Count

instance (p : CondState (Fin 2) × Tally) : (a : CondAct (Fin 2)) → Decidable (NoTimeout p a)
  | .timeout _ => .isFalse id
  | .lock _ | .unlock _ | .wait _ | .timedwait .. | .signal _ | .init .. | .destroy _ | .run _
  | .leave _ => .isTrue trivial

end LuaRtos.Pthread
