/-
  LuaRtos.Pthread.Signal

  Signals that are queued for a task and run later by the task itself, in the
  build of pthread/pthread.c with LUA_USE_SAFE_SIGNAL.

  The word `signaled` in the TCB of the task is the only thing that goes from
  `_pthread_queue_signal` to `_pthread_process_signal`: the one stores the
  signal number in it, the other reads it as a mask of signal numbers.
-/

import LuaRtos.CLib.Basic

namespace LuaRtos.Pthread

open LuaRtos.CLib

/-- A signal handler: SIG_DFL, SIG_IGN, or a function. -/
inductive SigHandler where
  | dfl
  | ign
  | fn (f : Nat)
deriving DecidableEq, Repr

/-- `(h != SIG_DFL) && (h != SIG_IGN)`. -/
def SigHandler.isFn : SigHandler → Bool
  | .fn _ => true
  | _ => false

/-- PTHREAD_NSIG, which is SIGINT + 1. -/
def pthreadNsig : Nat := 3

/-- A thread of `thread_list`: its number, its handlers, and the word `signaled`
    in the TCB of its task. -/
structure SigThread where
  thread : Int
  signals : Fin pthreadNsig → SigHandler
  signaled : BitVec 32

namespace SigThread

/-- `thread->signals[s]`. -/
def handler (th : SigThread) (s : Int) : Result SigHandler :=
  if h : 0 ≤ s ∧ s < pthreadNsig then pure (th.signals ⟨s.toNat, by omega⟩)
  else throw .outOfBounds

/-- `uxSetSignaled(thread->task, s)`: the word becomes `s`. -/
def setSignaled (th : SigThread) (s : Int) : SigThread := { th with signaled := BitVec.ofInt 32 s }

/-- `uxGetSignaled(thread->task) & (1 << s)`. -/
def isSignaled (th : SigThread) (s : Nat) : Bool := th.signaled.getLsbD s

end SigThread

/-- `_pthread_signal` by the thread `self`: the previous handler, none for
    SIG_ERR, and the threads. -/
def pthreadSignal (self : Int) (s : Int) (h : SigHandler) :
    List SigThread → Result (Option SigHandler × List SigThread)
  | [] => pure (none, [])
  | th :: rest =>
    if s > pthreadNsig then pure (none, th :: rest)
    else if th.thread = self then
      if hs : 0 ≤ s ∧ s < pthreadNsig then
        let i : Fin pthreadNsig := ⟨s.toNat, by omega⟩
        pure (some (th.signals i),
          { th with signals := fun j => if j = i then h else th.signals j } :: rest)
      -- the test above lets PTHREAD_NSIG itself and negative numbers through
      else throw .outOfBounds
    else do
      let (prev, rest') ← pthreadSignal self s h rest
      pure (prev, th :: rest')

/-- `_pthread_queue_signal`: the loop over `thread_list`. -/
def pthreadQueueSignal (s : Int) : List SigThread → Result (List SigThread)
  | [] => pure []
  | th :: rest =>
    if th.thread = 1 then do
      let h ← th.handler s
      let rest' ← pthreadQueueSignal s rest
      pure ((if h.isFn then th.setSignaled s else th) :: rest')
    else do
      let rest' ← pthreadQueueSignal s rest
      pure (th :: rest')

/-- The loop of `_pthread_process_signal`: the `n` signal numbers from `s` on.
    What runs is listed with the number each handler is called with. -/
def processLoop : Nat → Nat → SigThread → Result (SigThread × List (Int × SigHandler))
  | 0, _, th => pure (th, [])
  | n + 1, s, th =>
    if th.isSignaled s then do
      let h ← th.handler s
      let (th', ran) ← processLoop n (s + 1) (th.setSignaled 0)
      pure (th', if h.isFn then (s, h) :: ran else ran)
    else processLoop n (s + 1) th

/-- `_pthread_process_signal` in the thread `th`. -/
def pthreadProcessSignal (th : SigThread) : Result (SigThread × List (Int × SigHandler)) :=
  processLoop 32 0 th

/-- A sequence of `_pthread_queue_signal` calls. -/
def queueSignals (qs : List Int) (l : List SigThread) : Result (List SigThread) :=
  qs.foldlM (fun l s => pthreadQueueSignal s l) l

/-- The thread that `_pthread_queue_signal` looks for, and that processes. -/
def mainThread (l : List SigThread) : Option SigThread := l.find? fun th => th.thread = 1

/-- After the signals `qs` are queued for the threads `l`, and the main thread
    processes them, the handlers that ran are those of the signals in `qs`. -/
def SignalsRun (l : List SigThread) (main : SigThread) (qs : List Int) : Prop :=
  ∃ l' main' main'' ran, queueSignals qs l = .ok l' ∧ mainThread l' = some main' ∧
    pthreadProcessSignal main' = .ok (main'', ran) ∧
    ∀ s h, (s, h) ∈ ran ↔ s ∈ qs ∧ h.isFn = true ∧ main.handler s = .ok h

/-- None of the signals has a handler to run, and all have a place in the table. -/
def NothingToRun (main : SigThread) (qs : List Int) : Prop :=
  ∀ s ∈ qs, ∃ h, main.handler s = .ok h ∧ h.isFn = false

section Signals

variable {l l' : List SigThread} {th main : SigThread} {qs : List Int} {s : Int} {h : SigHandler}

/-! ## The table of handlers -/

theorem handler_eq_ok : th.handler s = .ok h ↔
    ∃ hs : 0 ≤ s ∧ s < pthreadNsig, th.signals ⟨s.toNat, by omega⟩ = h := by
  unfold SigThread.handler
  split_ifs with hs
  · simp [hs]
  · simp [hs]

/-- Whether a signal has a place in the table does not depend on the thread. -/
theorem handler_ok_of_ok (hs : th.handler s = .ok h) (th' : SigThread) :
    ∃ h', th'.handler s = .ok h' := by
  obtain ⟨hrange, -⟩ := handler_eq_ok.mp hs
  exact ⟨_, handler_eq_ok.mpr ⟨hrange, rfl⟩⟩

theorem handler_congr (hsig : th.signals = main.signals) : th.handler s = main.handler s := by
  simp only [SigThread.handler, hsig]

/-- A registration that succeeds changes one handler of one thread. -/
theorem pthreadSignal_handler {self : Int} {prev : Option SigHandler}
    (hr : pthreadSignal self s h l = .ok (prev, l')) (hprev : prev ≠ none) :
    ∃ th', l'.find? (fun th => th.thread = self) = some th' ∧ th'.handler s = .ok h := by
  induction l generalizing l' with
  | nil =>
    cases hr
    exact absurd rfl hprev
  | cons th rest ih =>
    rw [pthreadSignal] at hr
    by_cases hbig : s > pthreadNsig
    · -- SIG_ERR
      rw [if_pos hbig] at hr
      cases hr
      exact absurd rfl hprev
    rw [if_neg hbig] at hr
    by_cases hself : th.thread = self
    · rw [if_pos hself] at hr
      by_cases hs : 0 ≤ s ∧ s < pthreadNsig
      · rw [dif_pos hs] at hr
        cases hr
        refine ⟨_, List.find?_cons_of_pos (by simpa using hself), handler_eq_ok.mpr ⟨hs, ?_⟩⟩
        simp
      · -- a number that the check lets pass, and the table does not have
        rw [dif_neg hs] at hr
        cases hr
    · rw [if_neg hself] at hr
      obtain ⟨⟨prev', rest'⟩, hrest, hr⟩ := bind_eq_ok.mp hr
      cases hr
      obtain ⟨th', hfind, hth'⟩ := ih hrest
      exact ⟨th', by rw [List.find?_cons_of_neg (by simpa using hself), hfind], hth'⟩

/-! ## What is queued -/

/-- A call that returns stores the number in the main thread, if that has a
    handler to run for it. -/
theorem pthreadQueueSignal_main (hq : pthreadQueueSignal s l = .ok l')
    (hmain : mainThread l = some main) :
    ∃ h, main.handler s = .ok h ∧
      mainThread l' = some (if h.isFn then main.setSignaled s else main) := by
  induction l generalizing l' with
  | nil => cases hmain
  | cons th rest ih =>
    simp only [pthreadQueueSignal] at hq
    by_cases hth : th.thread = 1
    · rw [if_pos hth] at hq
      obtain ⟨h, hh, hq⟩ := bind_eq_ok.mp hq
      obtain ⟨rest', -, hq⟩ := bind_eq_ok.mp hq
      cases hq
      rw [mainThread, List.find?_cons_of_pos (by simpa using hth)] at hmain
      cases hmain
      refine ⟨h, hh, ?_⟩
      have hth' : (if h.isFn then main.setSignaled s else main).thread = 1 := by
        split_ifs
        · exact hth
        · exact hth
      rw [mainThread, List.find?_cons_of_pos (by simpa using hth')]
    · rw [if_neg hth] at hq
      obtain ⟨rest', hrest, hq⟩ := bind_eq_ok.mp hq
      cases hq
      rw [mainThread, List.find?_cons_of_neg (by simpa using hth)] at hmain
      obtain ⟨h, hh, hmain'⟩ := ih hrest hmain
      exact ⟨h, hh, by rw [mainThread, List.find?_cons_of_neg (by simpa using hth)]; exact hmain'⟩

/-- A signal that has a place in the table can be queued. -/
theorem pthreadQueueSignal_ok (hs : main.handler s = .ok h) (l : List SigThread) :
    ∃ l', pthreadQueueSignal s l = .ok l' := by
  induction l with
  | nil => exact ⟨[], rfl⟩
  | cons th rest ih =>
    obtain ⟨rest', hrest⟩ := ih
    obtain ⟨h', hh'⟩ := handler_ok_of_ok hs th
    by_cases hth : th.thread = 1
    · exact ⟨_, by rw [pthreadQueueSignal, if_pos hth, hh', ok_bind, hrest]; rfl⟩
    · exact ⟨_, by rw [pthreadQueueSignal, if_neg hth, hrest]; rfl⟩

theorem queueSignals_ok (hqs : NothingToRun main qs) (l : List SigThread) :
    ∃ l', queueSignals qs l = .ok l' := by
  induction qs generalizing l with
  | nil => exact ⟨l, rfl⟩
  | cons q qs ih =>
    obtain ⟨h, hh, -⟩ := hqs q List.mem_cons_self
    obtain ⟨l₁, hl₁⟩ := pthreadQueueSignal_ok hh l
    obtain ⟨l', hl'⟩ := ih (fun s hs => hqs s (List.mem_cons_of_mem q hs)) l₁
    exact ⟨l', by rw [queueSignals, List.foldlM_cons, hl₁]; exact hl'⟩

/-- What is left in the word after a sequence of calls: nothing new, or the
    number of one of the signals that have a handler to run. -/
theorem queueSignals_main (hq : queueSignals qs l = .ok l') (hmain : mainThread l = some main) :
    (∀ s ∈ qs, ∃ h, main.handler s = .ok h) ∧
      ∃ main', mainThread l' = some main' ∧ main'.signals = main.signals ∧
        ((NothingToRun main qs ∧ main'.signaled = main.signaled) ∨
          ∃ s ∈ qs, ∃ h, main.handler s = .ok h ∧ h.isFn = true ∧
            main'.signaled = BitVec.ofInt 32 s) := by
  induction qs generalizing l main with
  | nil =>
    cases hq
    exact ⟨fun s hs => absurd hs List.not_mem_nil, main, hmain, rfl,
      .inl ⟨fun s hs => absurd hs List.not_mem_nil, rfl⟩⟩
  | cons q qs ih =>
    rw [queueSignals, List.foldlM_cons] at hq
    obtain ⟨l₁, hl₁, hq⟩ := bind_eq_ok.mp hq
    obtain ⟨h, hh, hmain₁⟩ := pthreadQueueSignal_main hl₁ hmain
    set main₁ := if h.isFn then main.setSignaled q else main with hdef
    have hsig : main₁.signals = main.signals := by
      rw [hdef]
      split_ifs
      · rfl
      · rfl
    obtain ⟨hok, main', hmain', hsig', hcase⟩ := ih hq hmain₁
    have hhandler (s : Int) : main₁.handler s = main.handler s := handler_congr hsig
    simp only [hhandler] at hok hcase
    refine ⟨?_, main', hmain', hsig'.trans hsig, ?_⟩
    · rintro s (_ | ⟨_, hs⟩)
      · exact ⟨h, hh⟩
      · exact hok s hs
    · rcases hcase with ⟨hnothing, hword⟩ | ⟨s, hs, h', hh', hfn, hword⟩
      · -- the word is as the first call has left it
        cases hfn : h.isFn with
        | true =>
          refine .inr ⟨q, List.mem_cons_self, h, hh, hfn, ?_⟩
          rw [hword, hdef, if_pos hfn]
          rfl
        | false =>
          refine .inl ⟨?_, ?_⟩
          · rintro s (_ | ⟨_, hs⟩)
            · exact ⟨h, hh, hfn⟩
            · obtain ⟨h', hh', hfn'⟩ := hnothing s hs
              exact ⟨h', (hhandler s) ▸ hh', hfn'⟩
          · rw [hword, hdef, if_neg (by simp [hfn])]
      · exact .inr ⟨s, List.mem_cons_of_mem q hs, h', hh', hfn, hword⟩

/-! ## What is processed -/

/-- With the word at 0 nothing runs. -/
theorem processLoop_zero (hzero : th.signaled = 0) (n i : Nat) :
    processLoop n i th = .ok (th, []) := by
  induction n generalizing i with
  | zero => rfl
  | succ n ih =>
    have hbit : th.isSignaled i = false := by simp [SigThread.isSignaled, hzero]
    rw [processLoop, hbit, if_neg (by simp), ih]

/-- The lowest bit of the word is the only one that is looked at. -/
theorem processLoop_bit {n i : Nat} (hbit : th.isSignaled i = true)
    {r : SigThread × List (Int × SigHandler)} (hr : processLoop (n + 1) i th = .ok r) :
    ∀ s h, (s, h) ∈ r.2 → s = i := by
  rw [processLoop, if_pos hbit] at hr
  obtain ⟨h', hh', hr⟩ := bind_eq_ok.mp hr
  rw [processLoop_zero (show (th.setSignaled 0).signaled = 0 from rfl)] at hr
  cases hr
  intro s h hmem
  split_ifs at hmem
  · cases List.mem_singleton.mp hmem
    rfl
  · exact absurd hmem List.not_mem_nil

/-- A word that holds the number of a signal never runs that signal. -/
theorem process_not_mem (hs : th.handler s = .ok h) (hword : th.signaled = BitVec.ofInt 32 s)
    {r : SigThread × List (Int × SigHandler)} (hr : pthreadProcessSignal th = .ok r)
    (h' : SigHandler) : (s, h') ∉ r.2 := by
  obtain ⟨⟨hlo, hhi⟩, -⟩ := handler_eq_ok.mp hs
  have hcases : s = 0 ∨ s = 1 ∨ s = 2 := by
    have : (pthreadNsig : Int) = 3 := rfl
    omega
  have hbit (i : Nat) : th.isSignaled i = (BitVec.ofInt 32 s).getLsbD i := by
    rw [SigThread.isSignaled, hword]
  intro hmem
  rcases hcases with rfl | rfl | rfl
  · -- 0 as a mask is empty
    rw [pthreadProcessSignal, processLoop_zero hword] at hr
    cases hr
    exact absurd hmem List.not_mem_nil
  · -- 1 is the mask of signal 0
    have := processLoop_bit (hbit 0) hr 1 h' hmem
    omega
  · -- 2 is the mask of signal 1
    rw [pthreadProcessSignal, processLoop, hbit 0] at hr
    have := processLoop_bit (hbit 1) hr 2 h' hmem
    omega

/-- The handlers that run are those of the queued signals exactly when none of
    the queued signals has a handler to run. -/
theorem signalsRun_iff (hmain : mainThread l = some main) (hword : main.signaled = 0)
    (qs : List Int) : SignalsRun l main qs ↔ NothingToRun main qs := by
  constructor
  · rintro ⟨l', main', main'', ran, hq, hmain', hr, hran⟩
    obtain ⟨-, main₁, hmain₁, hsig, hcase⟩ := queueSignals_main hq hmain
    rw [hmain'] at hmain₁
    cases hmain₁
    rcases hcase with ⟨hnothing, -⟩ | ⟨s, hs, h, hh, hfn, hword'⟩
    · exact hnothing
    · -- the handler of the last signal that has one should have run
      refine absurd ((hran s h).mpr ⟨hs, hfn, hh⟩) (process_not_mem (h := h) ?_ hword' hr h)
      rw [handler_congr hsig, hh]
  · intro hnothing
    obtain ⟨l', hq⟩ := queueSignals_ok hnothing l
    obtain ⟨-, main', hmain', hsig, hcase⟩ := queueSignals_main hq hmain
    have hnone : ∀ s ∈ qs, ∀ h, main.handler s = .ok h → h.isFn ≠ true := by
      intro s hs h hh hfn
      obtain ⟨h', hh', hfn'⟩ := hnothing s hs
      rw [hh] at hh'
      cases hh'
      rw [hfn] at hfn'
      cases hfn'
    have hzero : main'.signaled = 0 := by
      rcases hcase with ⟨-, hword'⟩ | ⟨s, hs, h, hh, hfn, -⟩
      · rw [hword', hword]
      · exact absurd hfn (hnone s hs h hh)
    refine ⟨l', main', main', [], hq, hmain', processLoop_zero hzero 32 0, fun s h => ?_⟩
    refine ⟨fun hmem => absurd hmem List.not_mem_nil, fun ⟨hs, hfn, hh⟩ => ?_⟩
    exact absurd hfn (hnone s hs h hh)

end Signals

/-- The main thread, with a handler for SIGINT only. -/
def sigintThread : SigThread := ⟨1, fun i => if i.val = 2 then .fn 7 else .dfl, 0⟩

/-- Signal 1 has no handler, so that nothing has to run. -/
theorem signalsRun_iff_ignored :
    SignalsRun [sigintThread] sigintThread [1] ↔ NothingToRun sigintThread [1] :=
  signalsRun_iff rfl rfl [1]

/-- SIGINT is queued: the word is 2, the mask of signal 1, and no handler runs. -/
theorem sigint_lost : ¬ ∀ l main qs, mainThread l = some main → main.signaled = 0 →
    (∀ s ∈ qs, ∃ h, main.handler s = .ok h) → SignalsRun l main qs := by
  intro h
  obtain ⟨l', main', main'', ran, hq, hmain', hr, hran⟩ :=
    h [sigintThread] sigintThread [2] rfl rfl (by simp [SigThread.handler, pthreadNsig])
  cases hq
  cases hmain'
  cases hr
  exact absurd ((hran 2 (.fn 7)).mpr ⟨by simp, rfl, rfl⟩) (by decide)

end LuaRtos.Pthread
