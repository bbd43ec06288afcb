/-
  LuaRtos.Pthread.CondWakeup

  Which waits a signal lets go.

  Beside the run goes a record of the signals that no wait has answered yet,
  each with the threads that were waiting when it was sent.  A wait that is let
  go answers one of them.  The semaphore carries less than this record: a give
  to a semaphore that can already be taken is lost, a thread that is woken may
  find `cond->referenced == 1` and block again, and a semaphore left over from
  `pthread_cond_init` or from a signal that nobody waited for lets a later wait
  go.  `WakeOk` is the condition on one step that excludes this.
-/

import Mathlib.Data.Fintype.Basic
import LuaRtos.Lts.Count
import LuaRtos.Pthread.Cond

namespace LuaRtos.Pthread

open LuaRtos.CLib

/-! ## The record -/

/-- Inside a wait, after `cond->referenced++` and before it is let go. -/
def CondPc.waiting : CondPc → Bool
  | .wLock | .wTest | .wLock2 | .tTest _ | .tLock _ | .tTake _ => true
  | _ => false

/-- Before the give of a signal, or between the two locks of a wait: the thread
    has a wakeup in its hands. -/
def CondPc.carries : CondPc → Bool
  | .sGive | .wTest => true
  | _ => false

/-- Outside of the calls. -/
def CondPc.outside : CondPc → Bool
  | .idle | .returned _ | .answered _ => true
  | _ => false

/-- Inside `pthread_cond_init` or `pthread_cond_destroy`. -/
def CondPc.manages : CondPc → Bool
  | .iTest _ | .iSem _ | .iGive | .iZero | .dTest | .dSem | .dDelete => true
  | _ => false

/-- The signals that are not answered, oldest first, each as the set of threads
    that were waiting; and how many waits were let go without one. -/
structure Signals (Tid : Type) where
  owed : List (Finset Tid)
  unearned : Nat

section Record

variable {Tid : Type} [DecidableEq Tid]

/-- `t` was waiting when one of the unanswered signals was sent. -/
def Earned (l : Signals Tid) (t : Tid) : Prop := ∃ S ∈ l.owed, t ∈ S

instance (l : Signals Tid) (t : Tid) : Decidable (Earned l t) :=
  inferInstanceAs (Decidable (∃ S ∈ l.owed, t ∈ S))

/-- A wait of `t` is let go and answers the oldest signal sent while it waited. -/
def Signals.letGo (l : Signals Tid) (t : Tid) : Signals Tid :=
  if Earned l t then { l with owed := l.owed.eraseP (t ∈ ·) }
  else { l with unearned := l.unearned + 1 }

variable [Fintype Tid]

/-- The threads that are waiting. -/
def CondState.waiters (s : CondState Tid) : Finset Tid := threadsAt CondPc.waiting s.pc

/-- The wakeups under way: in the hands of a thread or in the semaphore. -/
def CondState.wakeups (s : CondState Tid) : Nat :=
  (threadsAt CondPc.carries s.pc).card + (s.sem == some true).toNat

/-- The record after the next step of `t`, which is at `p`.  A signal is owed a
    wait when some thread is waiting that the signals before it will not let go. -/
def Signals.run (l : Signals Tid) (s : CondState Tid) (t : Tid) : CondPc → Signals Tid
  | .sDec => if l.owed.length < s.waiters.card then { l with owed := l.owed ++ [s.waiters] } else l
  | .wTest => if s.referenced = 1 then l else l.letGo t
  | .wLock2 | .tTake _ => l.letGo t
  | _ => l

def Signals.next (s : CondState Tid) (a : CondAct Tid) (l : Signals Tid) : Signals Tid :=
  match a with
  | .run t => l.run s t (s.pc t)
  | _ => l

/-- All interleavings from an initialized condition, with the record. -/
def wakeSys (Tid : Type) [DecidableEq Tid] [Fintype Tid] (recursive : Bool) :
    Lts (CondState Tid × Signals Tid) (CondAct Tid) :=
  .ofStep (condReady recursive, ⟨[], 0⟩) (Lts.withHistory condStep Signals.next)

/-- No thread inside the calls can go on. -/
def CondState.Settled (s : CondState Tid) : Prop :=
  ∀ t, (s.pc t).outside ∨ s.Blocked t

/-- What waits and signals promise. -/
structure WakeupsProper (p : CondState Tid × Signals Tid) : Prop where
  /-- No wait was let go without a signal that was sent while it waited. -/
  notStored : p.2.unearned = 0
  /-- When nothing goes on, every signal has let one of its waits go. -/
  notLost : p.1.Settled → p.2.owed = []

/-! ## The condition -/

/-- More wakeups are under way than signals wait for an answer. -/
def Spare (s : CondState Tid) (l : Signals Tid) : Prop := l.owed.length < s.wakeups

/-- The condition on the next step of `t`, which is at `p`. -/
def RunWakeOk (s : CondState Tid) (l : Signals Tid) (t : Tid) : CondPc → Prop
  -- the give is lost when the semaphore can be taken already
  | .sGive => s.sem = some true → Spare s l
  -- the first thread to wait locks again, and its wakeup is gone
  | .wTest => if s.referenced = 1 then Spare s l else Earned l t
  | .tLock _ => Spare s l
  | .wLock2 | .tTake _ => Earned l t
  | _ => True

/-- The condition on a step. -/
def WakeOk (p : CondState Tid × Signals Tid) : CondAct Tid → Prop
  | .init .. | .destroy .. => False
  | .timeout _ => p.2.owed.length < p.1.waiters.card
  | .run t => RunWakeOk p.1 p.2 t (p.1.pc t)
  | _ => True

instance (s : CondState Tid) (l : Signals Tid) : Decidable (Spare s l) :=
  inferInstanceAs (Decidable (l.owed.length < s.wakeups))

instance (s : CondState Tid) (l : Signals Tid) (t : Tid) : (q : CondPc) →
    Decidable (RunWakeOk s l t q)
  | .sGive => inferInstanceAs (Decidable (s.sem = some true → Spare s l))
  | .wTest => inferInstanceAs (Decidable (if s.referenced = 1 then Spare s l else Earned l t))
  | .tLock _ => inferInstanceAs (Decidable (Spare s l))
  | .wLock2 | .tTake _ => inferInstanceAs (Decidable (Earned l t))
  | .idle | .wInc | .wLock | .wUnlock | .tInc _ | .tTest _ | .tUnlock | .returned _ | .sDec
  | .iTest _ | .iSem _ | .iGive | .iZero | .dTest | .dSem | .dDelete | .answered _ =>
    .isTrue trivial

instance (p : CondState Tid × Signals Tid) : (a : CondAct Tid) → Decidable (WakeOk p a)
  | .init .. | .destroy .. => .isFalse id
  | .timeout _ => inferInstanceAs (Decidable (p.2.owed.length < p.1.waiters.card))
  | .run t => inferInstanceAs (Decidable (RunWakeOk p.1 p.2 t (p.1.pc t)))
  | .lock _ | .unlock _ | .wait _ | .timedwait .. | .signal _ | .leave _ => .isTrue trivial

/-- Waits and signals only, and a wait is called with the mutex locked. -/
def WaitOrSignal (p : CondState Tid × Signals Tid) : CondAct Tid → Prop
  | .init .. | .destroy .. => False
  | .wait t | .timedwait t _ => p.1.owner = some t
  | _ => True

instance (p : CondState Tid × Signals Tid) : (a : CondAct Tid) → Decidable (WaitOrSignal p a)
  | .init .. | .destroy .. => .isFalse id
  | .wait t | .timedwait t _ => inferInstanceAs (Decidable (p.1.owner = some t))
  | .lock _ | .unlock _ | .signal _ | .run _ | .timeout _ | .leave _ => .isTrue trivial

/-! ## What one step keeps -/

/-- Every unanswered signal has a wakeup under way and a thread to let go. -/
structure WakeInv (p : CondState Tid × Signals Tid) : Prop where
  present : p.1.sem ≠ none
  users : ∀ t, (p.1.pc t).manages = false
  carried : p.2.owed.length ≤ p.1.wakeups
  awaited : p.2.owed.length ≤ p.1.waiters.card
  earned : p.2.unearned = 0

variable {s s' : CondState Tid} {l l' : Signals Tid} {t : Tid} {q : CondPc}

omit [Fintype Tid] in
theorem letGo_of_earned (h : Earned l t) :
    (l.letGo t).unearned = l.unearned ∧ (l.letGo t).owed.length + 1 = l.owed.length := by
  rw [Signals.letGo, if_pos h]
  obtain ⟨S, hS, ht⟩ := h
  have hlen := List.length_eraseP_of_mem (p := fun S => decide (t ∈ S)) hS (by simpa using ht)
  have hpos := List.length_pos_of_mem hS
  exact ⟨rfl, by rw [hlen]; omega⟩

omit [DecidableEq Tid] in
theorem wakeInv_congr (h : WakeInv (s, l)) (hpc : s'.pc = s.pc) (hsem : s'.sem = s.sem) :
    WakeInv (s', l) := by
  obtain ⟨h1, h2, h3, h4, h5⟩ := h
  simp only [CondState.wakeups, CondState.waiters] at h3 h4
  exact ⟨hsem ▸ h1, hpc ▸ h2, by simpa only [CondState.wakeups, hsem, hpc] using h3,
    by simpa only [CondState.waiters, hpc] using h4, h5⟩

/-- Thread `t` goes to `q`: the wakeups and the waiting threads are counted anew. -/
theorem wakeInv_go (h : WakeInv (s, l)) (hpc : s'.pc = s.pc) (hsem : s'.sem ≠ none)
    (hq : q.manages = false)
    (hcarried : l'.owed.length + (s.pc t).carries.toNat + (s.sem == some true).toNat ≤
      s.wakeups + q.carries.toNat + (s'.sem == some true).toNat)
    (hawaited : l'.owed.length + (s.pc t).waiting.toNat ≤ s.waiters.card + q.waiting.toNat)
    (hearned : l'.unearned = 0) : WakeInv (s'.go t q, l') where
  present := hsem
  users := by
    simp only [go_pc, hpc]
    exact (Function.forall_update_iff s.pc fun _ p => p.manages = false).mpr
      ⟨hq, fun u _ => h.users u⟩
  carried := by
    have hcount := card_threadsAt_update CondPc.carries s.pc t q
    simp only [CondState.wakeups, go_pc, go_sem, hpc] at hcarried ⊢
    omega
  awaited := by
    have hcount := card_threadsAt_update CondPc.waiting s.pc t q
    simp only [CondState.waiters, go_pc, hpc] at hawaited ⊢
    omega
  earned := hearned

theorem condRun_wakeInv (h : WakeInv (s, l)) (hok : RunWakeOk s l t (s.pc t))
    (hs : condRun s t = some s') : WakeInv (s', l.run s t (s.pc t)) := by
  have hcarried : l.owed.length ≤ s.wakeups := h.carried
  have hawaited : l.owed.length ≤ s.waiters.card := h.awaited
  have husers := h.users t
  have hstep := condRun_step hs
  generalize hp : s.pc t = p at hstep hok husers
  cases hstep with
  | iTestBusy | iTestFree | iSemBusy | iSemNoMem | iSemCreate | iGive | iZero => cases husers
  | dTestBusy | dTestFree | dSemNull | dSemGive | dDelete => cases husers
  | wInc | tInc | tTestFirst | tTestOther =>
    refine wakeInv_go h rfl h.present rfl ?_ ?_ h.earned <;>
      simp [hp, CondPc.carries, CondPc.waiting, Signals.run] <;> omega
  | wUnlock | tUnlock =>
    refine wakeInv_go h (by simp) (by simpa using h.present) rfl ?_ ?_ h.earned <;>
      simp [hp, CondPc.carries, CondPc.waiting, Signals.run] <;> omega
  | wLock hsem =>
    -- the wakeup goes from the semaphore into the hands of `t`
    refine wakeInv_go h rfl (by simp) rfl ?_ ?_ h.earned <;>
      simp [hp, hsem, CondPc.carries, CondPc.waiting, Signals.run] <;> omega
  | wTestFirst href =>
    -- the wakeup in the hands of `t` is gone
    have hspare : l.owed.length < s.wakeups := by
      simpa [RunWakeOk, href, Spare] using hok
    simp only [Signals.run, if_pos href]
    refine wakeInv_go h rfl h.present rfl ?_ ?_ h.earned <;>
      simp [hp, CondPc.carries, CondPc.waiting] <;> omega
  | wTestOther href =>
    have hearned : Earned l t := by simpa [RunWakeOk, href] using hok
    obtain ⟨he, hlen⟩ := letGo_of_earned hearned
    simp only [Signals.run, if_neg href]
    refine wakeInv_go h rfl h.present rfl ?_ ?_ (he.trans h.earned) <;>
      simp [hp, CondPc.carries, CondPc.waiting] <;> omega
  | wLock2 hsem | tTake _ hsem =>
    obtain ⟨he, hlen⟩ := letGo_of_earned hok
    refine wakeInv_go h rfl (by simp) rfl ?_ ?_ (he.trans h.earned) <;>
      simp [hp, hsem, CondPc.carries, CondPc.waiting, Signals.run] <;> omega
  | tLock _ hsem =>
    -- the wakeup in the semaphore is gone
    have hspare : l.owed.length < s.wakeups := hok
    refine wakeInv_go h rfl (by simp) rfl ?_ ?_ h.earned <;>
      simp [hp, hsem, CondPc.carries, CondPc.waiting, Signals.run] <;> omega
  | sDec =>
    unfold Signals.run
    split_ifs <;> refine wakeInv_go h rfl h.present rfl ?_ ?_ h.earned <;>
      simp [hp, CondPc.carries, CondPc.waiting] <;> omega
  | sGive =>
    by_cases hsem : s.sem = some true
    · -- the give is lost
      have hspare : l.owed.length < s.wakeups := hok hsem
      refine wakeInv_go h rfl (by simp) rfl ?_ ?_ h.earned <;>
        simp [hp, hsem, CondPc.carries, CondPc.waiting, Signals.run] <;> omega
    · have hfree : (s.sem == some true) = false := by simpa using hsem
      refine wakeInv_go h rfl (by simp) rfl ?_ ?_ h.earned <;>
        simp [hp, hfree, CondPc.carries, CondPc.waiting, Signals.run] <;> omega

/-- Every step that meets the condition keeps the invariant. -/
theorem condStep_wakeInv (h : WakeInv (s, l)) {a : CondAct Tid} (hok : WakeOk (s, l) a)
    (hs : condStep s a = some s') : WakeInv (s', Signals.next s a l) := by
  have hcarried : l.owed.length ≤ s.wakeups := h.carried
  have hawaited : l.owed.length ≤ s.waiters.card := h.awaited
  cases a with
  | init | destroy => exact hok.elim
  | run t => exact condRun_wakeInv h hok hs
  | lock t =>
    obtain ⟨-, hs⟩ := condCall_eq_some.mp hs
    obtain ⟨-, -, hsem, -, hpc⟩ := pthreadMutexLock_some hs
    exact wakeInv_congr h hpc hsem
  | unlock t =>
    obtain ⟨-, hs⟩ := condCall_eq_some.mp hs
    split_ifs at hs
    cases hs
    exact wakeInv_congr h pthreadMutexUnlock_pc pthreadMutexUnlock_sem
  | wait t | timedwait t | signal t =>
    obtain ⟨hidle, hs⟩ := condCall_eq_some.mp hs
    rw [if_neg h.present] at hs
    cases hs
    refine wakeInv_go h rfl h.present rfl ?_ ?_ h.earned <;>
      simp [hidle, CondPc.carries, CondPc.waiting, Signals.next] <;> omega
  | timeout t =>
    -- another thread waits for the signals that are not answered yet
    have hmore : l.owed.length < s.waiters.card := hok
    simp only [condStep] at hs
    split at hs <;> cases hs
    rename_i hp hsem
    refine wakeInv_go h rfl h.present rfl ?_ ?_ h.earned <;>
      simp [hp, hsem, CondPc.carries, CondPc.waiting, Signals.next] <;> omega
  | leave t =>
    simp only [condStep] at hs
    split at hs <;> cases hs
    all_goals
      rename_i hp
      refine wakeInv_go h rfl h.present rfl ?_ ?_ h.earned <;>
        simp [hp, CondPc.carries, CondPc.waiting, Signals.next] <;> omega

/-! ## Every run -/

omit [DecidableEq Tid] in
theorem wakeInv_ready {recursive : Bool} :
    WakeInv ((condReady recursive : CondState Tid), ⟨[], 0⟩) :=
  ⟨by simp [condReady], fun _ => rfl, Nat.zero_le _, Nat.zero_le _, rfl⟩

theorem wakeInv_reach {recursive : Bool} {p : CondState Tid × Signals Tid}
    (h : (wakeSys Tid recursive).Reach WakeOk p) : WakeInv p := by
  refine h.invariant (fun _ h => h ▸ wakeInv_ready) fun p a p' hI hok hs => ?_
  obtain ⟨s', hstep, rfl⟩ := Option.map_eq_some_iff.mp hs
  exact condStep_wakeInv hI hok hstep

omit [DecidableEq Tid] in
/-- Where nothing goes on, a wakeup under way is in the semaphore, and then
    nobody is blocked. -/
theorem owed_eq_nil_of_settled (h : WakeInv (s, l)) (hset : s.Settled) : l.owed = [] := by
  have hcarried : l.owed.length ≤ s.wakeups := h.carried
  have hawaited : l.owed.length ≤ s.waiters.card := h.awaited
  have hnone : threadsAt CondPc.carries s.pc = ∅ := threadsAt_eq_empty fun t => by
    have ht := hset t
    unfold CondState.Blocked at ht
    cases hp : s.pc t <;> simp_all [CondPc.outside, CondPc.atLock, CondPc.carries]
  rw [CondState.wakeups, hnone, Finset.card_empty, Nat.zero_add] at hcarried
  by_contra howed
  have hpos := List.length_pos_of_ne_nil howed
  have hsem : s.sem = some true := by
    by_contra hsem
    have hfree : (s.sem == some true) = false := by simpa using hsem
    rw [hfree, Bool.toNat_false] at hcarried
    omega
  -- a thread waits, and the semaphore can be taken
  obtain ⟨t, hwaits⟩ := Finset.card_pos.mp (Nat.lt_of_lt_of_le hpos hawaited)
  rcases hset t with hout | hblocked
  · have hwaits := mem_threadsAt.mp hwaits
    cases hp : s.pc t <;> simp_all [CondPc.outside, CondPc.waiting]
  · exact nomatch hsem.symm.trans hblocked.2

end Record

end LuaRtos.Pthread
