/-
  LuaRtos.Lmic.Wakeup

  The run loop of LMIC and what wakes it: `os_runloop`, `hal_sleep` and
  `hal_resume` (lmic/oslmic.c, drivers/lmic_hal.c), with other threads and
  interrupts that queue jobs.

  The critical sections of the queues are one step, and the two queues the lists
  that the links spell.  Every other access to `resumed`, `sleeped`, the mutex and
  the event bit is a step of its own.

  `resumed` is there to set the bit once, so a thread that queues a job while
  another has yet to set it leaves the wakeup to that one.  The thread that queued
  the job may be done, but somebody has still to set the bit.
-/

import LuaRtos.Lts.Run
import Mathlib.Logic.Function.Basic

namespace LuaRtos.Lmic

/-- Where a thread or an interrupt is in `hal_resume`. -/
inductive ResumePc where
  /-- Outside. -/
  | idle
  | lock
  /-- Before `if (resumed == 0)`. -/
  | test
  /-- Before `resumed = 1`. -/
  | write
  /-- Before the unlock, with the value of the local variable `resume`. -/
  | unlock (resume : Bool)
  /-- Before the bit is set. -/
  | setBits
deriving DecidableEq, Repr

/-- Where the run loop is. -/
inductive LoopPc where
  /-- Before the critical section that takes a job. -/
  | takeJob
  /-- In `j->func(j)`. -/
  | runJob
  /-- Before `if (!OS.scheduledjobs)`. -/
  | test
  -- hal_sleep
  | lock
  | testSleeped
  | unlock (sleep : Bool)
  /-- In `xEventGroupWaitBits`. -/
  | wait
  | lock2
  | clearSleeped
  | clearResumed
  | unlock2
deriving DecidableEq, Repr

/-- `J` are the jobs, and `A` the threads and interrupts besides the run loop.
    The run loop itself is `none` among those that call `hal_resume`. -/
structure WakeState (J A : Type) where
  scheduledjobs : List J
  runnablejobs : List J
  deadline : J → BitVec 64
  /-- Who has queued a job; nothing reads it. -/
  queuedBy : J → Option (Option A)
  /-- Somebody holds `lmic_hal_mtx`. -/
  locked : Bool
  sleeped : Bool
  resumed : Bool
  /-- `evLMIC_SLEEP` in `lmicSleepEvent`. -/
  bit : Bool
  /-- The messages of `xEventGroupSetBitsFromISR` that the timer task has yet to
      act on. -/
  messages : Nat
  pc : Option A → ResumePc
  loop : LoopPc

/-- What a thread or an interrupt does next. -/
inductive AgentAct (J : Type) where
  | clearCallback (job : J)
  | setCallback (job : J)
  | setTimedCallback (job : J) (time : BitVec 64)
  /-- `hal_resume` by itself, as the interrupt handler calls it. -/
  | resume
  /-- The next step of `hal_resume`.  Where it is `xEventGroupSetBitsFromISR`,
      `accepted` is whether the queue of the timer task has room. -/
  | go (accepted : Bool)
deriving DecidableEq, Repr

inductive WakeAct (J A : Type) where
  | agent (a : Option A) (act : AgentAct J)
  /-- A step of the run loop; `ticks` is the time `hal_checkTimer` reads. -/
  | loop (ticks : BitVec 64)
  /-- The timer task acts on a message. -/
  | timerTask
deriving DecidableEq, Repr

section Step

variable {J A : Type} [DecidableEq J] [DecidableEq A]

namespace WakeState

omit [DecidableEq J] in
/-- `a` goes on at `pc`. -/
def goto (s : WakeState J A) (a : Option A) (pc : ResumePc) : WakeState J A :=
  { s with pc := Function.update s.pc a pc }

omit [DecidableEq A] in
/-- `os_clearCallback`. -/
def clear (s : WakeState J A) (job : J) : WakeState J A :=
  { s with
    scheduledjobs := s.scheduledjobs.erase job
    runnablejobs := s.runnablejobs.erase job }

omit [DecidableEq A] in
/-- The critical section of `os_setCallback`. -/
def setCallback (s : WakeState J A) (a : Option A) (job : J) : WakeState J A :=
  let s := s.clear job
  { s with
    runnablejobs := s.runnablejobs ++ [job]
    queuedBy := Function.update s.queuedBy job (some a) }

omit [DecidableEq A] in
/-- The critical section of `os_setTimedCallback`. -/
def setTimedCallback (s : WakeState J A) (a : Option A) (job : J) (time : BitVec 64) :
    WakeState J A :=
  let s := s.clear job
  { s with
    scheduledjobs := s.scheduledjobs.takeWhile (fun x => decide (s.deadline x = time)) ++
      job :: s.scheduledjobs.dropWhile fun x => decide (s.deadline x = time)
    deadline := Function.update s.deadline job time
    queuedBy := Function.update s.queuedBy job (some a) }

end WakeState

variable (isr : A → Bool)

/-- Is it an interrupt, so that a lock does not wait? -/
def inIsr : Option A → Bool
  | none => false
  | some a => isr a

omit [DecidableEq J] in
/-- `hal_resume`. -/
def halResumeStep (s : WakeState J A) (a : Option A) (accepted : Bool) :
    Option (WakeState J A) :=
  match s.pc a with
  | .idle => none
  | .lock =>
    -- `xSemaphoreTakeFromISR` fails at once, which is not looked at
    if s.locked && !inIsr isr a then none
    else some ({ s with locked := true }.goto a .test)
  | .test => some (s.goto a (if s.resumed then .unlock false else .write))
  | .write => some ({ s with resumed := true }.goto a (.unlock true))
  | .unlock resume => some ({ s with locked := false }.goto a (if resume then .setBits else .idle))
  | .setBits =>
    if inIsr isr a then
      -- what `xEventGroupSetBitsFromISR` answers is not looked at
      some ({ s with messages := if accepted then s.messages + 1 else s.messages }.goto a .idle)
    else some ({ s with bit := true }.goto a .idle)

/-- A step of a thread or an interrupt. -/
def agentStep (s : WakeState J A) (a : Option A) (act : AgentAct J) : Option (WakeState J A) :=
  -- the run loop calls these functions only from its jobs
  if a = none ∧ s.loop ≠ .runJob then none
  else match act with
    | .go accepted => halResumeStep isr s a accepted
    | .clearCallback job => if s.pc a = .idle then some (s.clear job) else none
    | .setCallback job =>
      if s.pc a = .idle then some ((s.setCallback a job).goto a .lock) else none
    | .setTimedCallback job time =>
      if s.pc a = .idle then some ((s.setTimedCallback a job time).goto a .lock) else none
    | .resume => if s.pc a = .idle then some (s.goto a .lock) else none

omit [DecidableEq J] [DecidableEq A] in
/-- A step of `os_runloop`. -/
def loopStep (s : WakeState J A) (ticks : BitVec 64) : Option (WakeState J A) :=
  match s.loop with
  | .takeJob =>
    match s.runnablejobs, s.scheduledjobs with
    | _ :: rest, _ => some { s with runnablejobs := rest, loop := .runJob }
    | [], j :: rest =>
      if s.deadline j ≤ ticks then some { s with scheduledjobs := rest, loop := .runJob }
      else some { s with loop := .test }
    | [], [] => some { s with loop := .test }
  | .runJob => if s.pc none = .idle then some { s with loop := .takeJob } else none
  | .test => some { s with loop := if s.scheduledjobs.isEmpty then .lock else .takeJob }
  | .lock => if s.locked then none else some { s with locked := true, loop := .testSleeped }
  | .testSleeped => some { s with sleeped := true, loop := .unlock (!s.sleeped) }
  | .unlock sleep => some { s with locked := false, loop := if sleep then .wait else .takeJob }
  -- the bit is cleared on exit
  | .wait => if s.bit then some { s with bit := false, loop := .lock2 } else none
  | .lock2 => if s.locked then none else some { s with locked := true, loop := .clearSleeped }
  | .clearSleeped => some { s with sleeped := false, loop := .clearResumed }
  | .clearResumed => some { s with resumed := false, loop := .unlock2 }
  | .unlock2 => some { s with locked := false, loop := .takeJob }

def wakeStep (s : WakeState J A) : WakeAct J A → Option (WakeState J A)
  | .agent a act => agentStep isr s a act
  | .loop ticks => loopStep s ticks
  | .timerTask =>
    if 0 < s.messages then some { s with bit := true, messages := s.messages - 1 } else none

end Step

/-! ## Runs -/

section Runs

variable {J A : Type}

/-- The run loop has been started, and there are no jobs. -/
def wakeInit (deadline : J → BitVec 64) : WakeState J A where
  scheduledjobs := []
  runnablejobs := []
  deadline := deadline
  queuedBy := fun _ => none
  locked := false
  sleeped := false
  resumed := false
  bit := false
  messages := 0
  pc := fun _ => .idle
  loop := .takeJob

def wakeLts [DecidableEq J] [DecidableEq A] (isr : A → Bool) (deadline : J → BitVec 64) :
    Lts (WakeState J A) (WakeAct J A) :=
  .ofStep (wakeInit deadline) (wakeStep isr)

/-- No message to the timer task is refused. -/
def Accepted (_ : WakeState J A) : WakeAct J A → Prop
  | .agent _ (.go accepted) => accepted = true
  | _ => True

instance (s : WakeState J A) : (a : WakeAct J A) → Decidable (Accepted s a)
  | .agent _ (.go accepted) => inferInstanceAs (Decidable (accepted = true))
  | .agent _ (.clearCallback _) | .agent _ (.setCallback _) | .agent _ (.setTimedCallback _ _)
  | .agent _ .resume | .loop _ | .timerTask => .isTrue trivial

namespace WakeState

/-- `a` has still to set the bit: it has found, or will find, `resumed == 0`. -/
def HasToSet (s : WakeState J A) (a : Option A) : Prop :=
  match s.pc a with
  | .lock | .test => s.resumed = false
  | .write | .unlock true | .setBits => True
  | .idle | .unlock false => False

/-- Some queue is not empty. -/
def HasJobs (s : WakeState J A) : Prop := s.scheduledjobs ≠ [] ∨ s.runnablejobs ≠ []

end WakeState

end Runs

/-! ## The invariant -/

/-- Between the insertion of a job and the write to `resumed`. -/
def ResumePc.asks : ResumePc → Bool
  | .lock | .test | .write => true
  | .idle | .unlock _ | .setBits => false

/-- Between the write to `resumed` and the bit. -/
def ResumePc.commits : ResumePc → Bool
  | .unlock true | .setBits => true
  | .idle | .lock | .test | .write | .unlock false => false

/-- After the wait and before `resumed = 0`. -/
def LoopPc.resets : LoopPc → Bool
  | .lock2 | .clearSleeped | .clearResumed => true
  | .takeJob | .runJob | .test | .lock | .testSleeped | .unlock _ | .wait | .unlock2 => false

/-- On the way into the wait, and in it. -/
def LoopPc.sleeps : LoopPc → Bool
  | .lock | .testSleeped | .unlock _ | .wait => true
  | .takeJob | .runJob | .test | .lock2 | .clearSleeped | .clearResumed | .unlock2 => false

section Invariant

variable {J A : Type}

namespace WakeState

/-- The bit is set, or will be by a step that no test stands before. -/
def Waking (s : WakeState J A) : Prop :=
  s.bit = true ∨ 0 < s.messages ∨ ∃ a, (s.pc a).commits = true

/-- There is a job that the run loop does not look for before it blocks. -/
def Unseen (s : WakeState J A) : Prop :=
  s.loop = .test ∧ s.runnablejobs ≠ [] ∨ s.loop.sleeps = true ∧ s.HasJobs

end WakeState

/-- The invariant of the runs. -/
structure WakeInv (s : WakeState J A) : Prop where
  /-- Who has set `resumed` sets the bit, up to the reset after the wait. -/
  resumed : s.resumed = true → s.Waking ∨ s.loop.resets = true
  /-- A job that came too late for the run loop has somebody who will ask. -/
  unseen : s.Unseen → s.resumed = false → ∃ a, (s.pc a).asks = true

theorem wakeInv_init (deadline : J → BitVec 64) : WakeInv (wakeInit (A := A) deadline) :=
  ⟨nofun, nofun⟩

theorem WakeState.HasToSet.of_asks {s : WakeState J A} {a : Option A}
    (h : (s.pc a).asks = true) (hresumed : s.resumed = false) : s.HasToSet a := by
  rw [HasToSet]
  cases hpc : s.pc a with
  | lock => exact hresumed
  | test => exact hresumed
  | write => trivial
  | idle => simp [hpc, ResumePc.asks] at h
  | unlock resume => simp [hpc, ResumePc.asks] at h
  | setBits => simp [hpc, ResumePc.asks] at h

theorem WakeState.HasToSet.of_commits {s : WakeState J A} {a : Option A}
    (h : (s.pc a).commits = true) : s.HasToSet a := by
  rw [HasToSet]
  cases hpc : s.pc a with
  | unlock resume =>
    cases resume with
    | true => trivial
    | false => simp [hpc, ResumePc.commits] at h
  | setBits => trivial
  | idle => simp [hpc, ResumePc.commits] at h
  | lock => simp [hpc, ResumePc.commits] at h
  | test => simp [hpc, ResumePc.commits] at h
  | write => simp [hpc, ResumePc.commits] at h

variable [DecidableEq A] {s s' : WakeState J A} {a : Option A}

/-- Somebody is still at one of the places `p` after `a` has moved, if `a` was not
    there or goes to another of them. -/
theorem exists_update {p : ResumePc → Bool} {f : Option A → ResumePc} {pc : ResumePc}
    (h : ∃ b, p (f b) = true) (ha : p (f a) = true → p pc = true) :
    ∃ b, p (Function.update f a pc b) = true := by
  obtain ⟨b, hb⟩ := h
  by_cases hba : b = a
  · exact ⟨a, by rw [Function.update_self]; exact ha (hba ▸ hb)⟩
  · exact ⟨b, by rwa [Function.update_of_ne hba]⟩

theorem WakeState.Waking.goto {pc : ResumePc} (h : s.Waking)
    (ha : (s.pc a).commits = true → pc.commits = true) : (s.goto a pc).Waking := by
  obtain h | h | h := h
  · exact .inl h
  · exact .inr (.inl h)
  · exact .inr (.inr (exists_update h ha))

/-- A step that goes on in `hal_resume` and neither commits nor ends the asking. -/
theorem WakeInv.goto {pc : ResumePc} (h : WakeInv s)
    (hcommits : (s.pc a).commits = true → pc.commits = true)
    (hasks : s.resumed = false → (s.pc a).asks = true → pc.asks = true) :
    WakeInv (s.goto a pc) where
  resumed hresumed := (h.resumed hresumed).imp_left fun hwaking => hwaking.goto hcommits
  unseen hunseen hresumed := exists_update (h.unseen hunseen hresumed) (hasks hresumed)

omit [DecidableEq A] in
/-- A step of the lock does not matter here. -/
theorem WakeInv.setLocked (h : WakeInv s) (locked : Bool) :
    WakeInv { s with locked := locked } := ⟨h.resumed, h.unseen⟩

theorem halResumeStep_inv (isr : A → Bool) (h : WakeInv s)
    (hstep : halResumeStep isr s a true = some s') : WakeInv s' := by
  rw [halResumeStep] at hstep
  cases hpc : s.pc a with
  | idle => simp [hpc] at hstep
  | lock =>
    simp only [hpc] at hstep
    split at hstep
    · cases hstep
    · obtain rfl := Option.some.inj hstep
      exact (h.setLocked true).goto (by simp [hpc, ResumePc.commits]) fun _ _ => rfl
  | test =>
    simp only [hpc, Option.some.injEq] at hstep
    obtain rfl := hstep
    cases hresumed : s.resumed with
    | true => exact h.goto (by simp [hpc, ResumePc.commits]) (by simp [hresumed])
    | false => exact h.goto (by simp [hpc, ResumePc.commits]) fun _ _ => rfl
  | write =>
    simp only [hpc, Option.some.injEq] at hstep
    obtain rfl := hstep
    -- from here on the bit will be set
    exact ⟨fun _ => .inl (.inr (.inr ⟨a, by simp [WakeState.goto, ResumePc.commits]⟩)),
      fun _ hresumed => absurd hresumed (by simp [WakeState.goto])⟩
  | unlock resume =>
    simp only [hpc, Option.some.injEq] at hstep
    obtain rfl := hstep
    cases resume with
    | true => exact (h.setLocked false).goto (fun _ => rfl) (by simp [hpc, ResumePc.asks])
    | false =>
      exact (h.setLocked false).goto (by simp [hpc, ResumePc.commits])
        (by simp [hpc, ResumePc.asks])
  | setBits =>
    simp only [hpc, if_true] at hstep
    have hasks : s.resumed = false → (s.pc a).asks = true → ResumePc.idle.asks = true := by
      simp [hpc, ResumePc.asks]
    split at hstep
    · obtain rfl := Option.some.inj hstep
      exact ⟨fun _ => .inl (.inr (.inl (Nat.succ_pos s.messages))),
        fun hunseen hresumed => exists_update (h.unseen hunseen hresumed) (hasks hresumed)⟩
    · obtain rfl := Option.some.inj hstep
      exact ⟨fun _ => .inl (.inl rfl),
        fun hunseen hresumed => exists_update (h.unseen hunseen hresumed) (hasks hresumed)⟩

/-- A job is queued, and the thread that did it goes on to `hal_resume`. -/
theorem WakeInv.queue (h : WakeInv s) (hidle : s.pc a = .idle)
    (hresumed : s'.resumed = s.resumed) (hbit : s'.bit = s.bit)
    (hmessages : s'.messages = s.messages) (hpc : s'.pc = Function.update s.pc a .lock)
    (hloop : s'.loop = s.loop) : WakeInv s' := by
  refine ⟨fun hres => ?_, fun _ _ => ⟨a, by simp [hpc, ResumePc.asks]⟩⟩
  rw [hresumed] at hres
  rw [hloop]
  refine (h.resumed hres).imp_left ?_
  rw [WakeState.Waking, WakeState.Waking, hbit, hmessages, hpc]
  exact Or.imp_right (Or.imp_right fun hb => exists_update hb (by simp [hidle, ResumePc.commits]))

variable [DecidableEq J]

omit [DecidableEq A] in
theorem WakeInv.clear (h : WakeInv s) (job : J) : WakeInv (s.clear job) := by
  refine ⟨h.resumed, fun hunseen => h.unseen ?_⟩
  have hempty (l : List J) (hl : l.erase job ≠ []) : l ≠ [] := by
    rintro rfl
    exact hl rfl
  have hjobs : (s.clear job).HasJobs → s.HasJobs :=
    Or.imp (hempty s.scheduledjobs) (hempty s.runnablejobs)
  exact hunseen.imp (And.imp_right (hempty _)) (And.imp_right hjobs)

omit [DecidableEq A] [DecidableEq J] in
/-- The run loop goes on at a place that is neither on the way into the wait nor
    behind the test of the queues. -/
theorem WakeInv.awake {loop : LoopPc} (h : WakeInv s) (hresumed : s'.resumed = s.resumed)
    (hbit : s'.bit = s.bit) (hmessages : s'.messages = s.messages) (hpc : s'.pc = s.pc)
    (hloop : s'.loop = loop) (hresets : s.loop.resets = true → loop.resets = true)
    (htest : loop ≠ .test) (hsleeps : loop.sleeps = false) : WakeInv s' := by
  refine ⟨fun hres => ?_, ?_⟩
  · rw [hresumed] at hres
    obtain hwaking | hreset := h.resumed hres
    · refine .inl ?_
      rwa [WakeState.Waking, hbit, hmessages, hpc]
    · exact .inr (hloop ▸ hresets hreset)
  · rintro (⟨hloop', -⟩ | ⟨hsleeps', -⟩)
    · exact absurd (hloop.symm.trans hloop') htest
    · rw [hloop, hsleeps] at hsleeps'
      cases hsleeps'

omit [DecidableEq A] [DecidableEq J] in
/-- The run loop goes on towards the wait, with nothing more to see. -/
theorem WakeInv.drowse (h : WakeInv s) (hresumed : s'.resumed = s.resumed)
    (hbit : s'.bit = s.bit) (hmessages : s'.messages = s.messages) (hpc : s'.pc = s.pc)
    (hreset : s.loop.resets = false) (hunseen : s'.Unseen → s.Unseen) : WakeInv s' := by
  refine ⟨fun hres => .inl ?_, fun hun hres => ?_⟩
  · rw [hresumed] at hres
    obtain hwaking | hreset' := h.resumed hres
    · rwa [WakeState.Waking, hbit, hmessages, hpc]
    · rw [hreset] at hreset'
      cases hreset'
  · rw [hpc]
    exact h.unseen (hunseen hun) (hresumed ▸ hres)

omit [DecidableEq A] [DecidableEq J] in
theorem loopStep_inv {ticks : BitVec 64} (h : WakeInv s) (hstep : loopStep s ticks = some s') :
    WakeInv s' := by
  rw [loopStep] at hstep
  cases hloop : s.loop with
  | takeJob =>
    simp only [hloop] at hstep
    have hreset : s.loop.resets = true → LoopPc.runJob.resets = true := by
      simp [hloop, LoopPc.resets]
    split at hstep
    · obtain rfl := Option.some.inj hstep
      exact h.awake rfl rfl rfl rfl rfl hreset nofun rfl
    · split at hstep
      · obtain rfl := Option.some.inj hstep
        exact h.awake rfl rfl rfl rfl rfl hreset nofun rfl
      · -- no runnable job, so none is left unseen
        obtain rfl := Option.some.inj hstep
        refine h.drowse rfl rfl rfl rfl (by simp [hloop, LoopPc.resets]) ?_
        rintro (⟨-, hne⟩ | ⟨hsleeps, -⟩)
        · exact absurd ‹s.runnablejobs = []› hne
        · cases hsleeps
    · obtain rfl := Option.some.inj hstep
      refine h.drowse rfl rfl rfl rfl (by simp [hloop, LoopPc.resets]) ?_
      rintro (⟨-, hne⟩ | ⟨hsleeps, -⟩)
      · exact absurd ‹s.runnablejobs = []› hne
      · cases hsleeps
  | runJob =>
    simp only [hloop] at hstep
    split at hstep
    · obtain rfl := Option.some.inj hstep
      exact h.awake rfl rfl rfl rfl rfl (by simp [hloop, LoopPc.resets]) nofun rfl
    · cases hstep
  | test =>
    simp only [hloop, Option.some.injEq] at hstep
    obtain rfl := hstep
    refine h.drowse rfl rfl rfl rfl (by simp [hloop, LoopPc.resets]) ?_
    cases hsched : s.scheduledjobs with
    | nil =>
      -- what is in the queues now is a runnable job
      rintro (⟨hloop', -⟩ | ⟨-, hjobs | hjobs⟩)
      · simp at hloop'
      · exact absurd rfl hjobs
      · exact .inl ⟨hloop, hjobs⟩
    | cons j rest =>
      rintro (⟨hloop', -⟩ | ⟨hsleeps, -⟩)
      · simp at hloop'
      · simp [LoopPc.sleeps] at hsleeps
  | lock =>
    simp only [hloop] at hstep
    split at hstep
    · cases hstep
    · obtain rfl := Option.some.inj hstep
      refine h.drowse rfl rfl rfl rfl (by simp [hloop, LoopPc.resets]) ?_
      exact fun hun => .inr ⟨by simp [hloop, LoopPc.sleeps], (hun.resolve_left nofun).2⟩
  | testSleeped =>
    simp only [hloop, Option.some.injEq] at hstep
    obtain rfl := hstep
    refine h.drowse rfl rfl rfl rfl (by simp [hloop, LoopPc.resets]) ?_
    exact fun hun => .inr ⟨by simp [hloop, LoopPc.sleeps], (hun.resolve_left nofun).2⟩
  | unlock sleep =>
    simp only [hloop, Option.some.injEq] at hstep
    obtain rfl := hstep
    refine h.drowse rfl rfl rfl rfl (by simp [hloop, LoopPc.resets]) ?_
    rintro (⟨hloop', -⟩ | ⟨-, hjobs⟩)
    · cases sleep <;> simp at hloop'
    · exact .inr ⟨by simp [hloop, LoopPc.sleeps], hjobs⟩
  | wait =>
    simp only [hloop] at hstep
    split at hstep
    · -- the bit is gone, and `resumed` will be reset
      obtain rfl := Option.some.inj hstep
      refine ⟨fun _ => .inr rfl, ?_⟩
      rintro (⟨hloop', -⟩ | ⟨hsleeps, -⟩)
      · cases hloop'
      · cases hsleeps
    · cases hstep
  | lock2 =>
    simp only [hloop] at hstep
    split at hstep
    · cases hstep
    · obtain rfl := Option.some.inj hstep
      exact h.awake rfl rfl rfl rfl rfl (fun _ => rfl) nofun rfl
  | clearSleeped =>
    simp only [hloop, Option.some.injEq] at hstep
    obtain rfl := hstep
    exact h.awake rfl rfl rfl rfl rfl (fun _ => rfl) nofun rfl
  | clearResumed =>
    simp only [hloop, Option.some.injEq] at hstep
    obtain rfl := hstep
    refine ⟨nofun, ?_⟩
    rintro (⟨hloop', -⟩ | ⟨hsleeps, -⟩)
    · cases hloop'
    · cases hsleeps
  | unlock2 =>
    simp only [hloop, Option.some.injEq] at hstep
    obtain rfl := hstep
    exact h.awake rfl rfl rfl rfl rfl (by simp [hloop, LoopPc.resets]) nofun rfl

/-- The step lemma. -/
theorem wakeStep_inv (isr : A → Bool) {act : WakeAct J A} (h : WakeInv s)
    (hok : Accepted s act) (hstep : wakeStep isr s act = some s') : WakeInv s' := by
  cases act with
  | agent a act =>
    simp only [wakeStep, agentStep] at hstep
    split at hstep
    · cases hstep
    · cases act with
      | go accepted =>
        obtain rfl : accepted = true := hok
        exact halResumeStep_inv isr h hstep
      | clearCallback job =>
        simp only at hstep
        split at hstep
        · obtain rfl := Option.some.inj hstep
          exact h.clear job
        · cases hstep
      | setCallback job =>
        simp only at hstep
        split at hstep
        · obtain rfl := Option.some.inj hstep
          exact h.queue ‹_› rfl rfl rfl rfl rfl
        · cases hstep
      | setTimedCallback job time =>
        simp only at hstep
        split at hstep
        · obtain rfl := Option.some.inj hstep
          exact h.queue ‹_› rfl rfl rfl rfl rfl
        · cases hstep
      | resume =>
        simp only at hstep
        split at hstep
        · obtain rfl := Option.some.inj hstep
          exact h.queue ‹_› rfl rfl rfl rfl rfl
        · cases hstep
  | loop ticks => exact loopStep_inv h hstep
  | timerTask =>
    simp only [wakeStep] at hstep
    split at hstep
    · obtain rfl := Option.some.inj hstep
      exact ⟨fun _ => .inl (.inl rfl), h.unseen⟩
    · cases hstep

/-- The run lemma. -/
theorem wakeInv_of_reach {isr : A → Bool} {deadline : J → BitVec 64}
    (h : (wakeLts isr deadline).Reach Accepted s) : WakeInv s := by
  refine h.invariant ?_ fun s act s' hinv hok hstep => wakeStep_inv isr hinv hok hstep
  rintro s rfl
  exact wakeInv_init deadline

omit [DecidableEq J] in
/-- A step of `hal_resume` moves nobody else. -/
theorem halResumeStep_frame {isr : A → Bool} {accepted : Bool}
    (hstep : halResumeStep isr s a accepted = some s') :
    s'.loop = s.loop ∧ ∀ b, b ≠ a → s'.pc b = s.pc b := by
  have hgoto (t : WakeState J A) (pc : ResumePc) (b : Option A) (hb : b ≠ a) :
      (t.goto a pc).pc b = t.pc b := Function.update_of_ne hb _ _
  rw [halResumeStep] at hstep
  split at hstep
  · cases hstep
  · split at hstep
    · cases hstep
    · obtain rfl := Option.some.inj hstep
      exact ⟨rfl, hgoto _ _⟩
  · obtain rfl := Option.some.inj hstep
    exact ⟨rfl, hgoto _ _⟩
  · obtain rfl := Option.some.inj hstep
    exact ⟨rfl, hgoto _ _⟩
  · obtain rfl := Option.some.inj hstep
    exact ⟨rfl, hgoto _ _⟩
  · split at hstep
    · obtain rfl := Option.some.inj hstep
      exact ⟨rfl, hgoto _ _⟩
    · obtain rfl := Option.some.inj hstep
      exact ⟨rfl, hgoto _ _⟩

theorem agentStep_frame {isr : A → Bool} {act : AgentAct J}
    (hstep : agentStep isr s a act = some s') :
    (a = none → s.loop = .runJob) ∧ s'.loop = s.loop ∧ ∀ b, b ≠ a → s'.pc b = s.pc b := by
  simp only [agentStep] at hstep
  split at hstep
  · cases hstep
  · next hself =>
    refine ⟨fun ha => by_contra fun hne => hself ⟨ha, hne⟩, ?_⟩
    cases act with
    | go accepted => exact halResumeStep_frame hstep
    | clearCallback job =>
      simp only at hstep
      split at hstep
      · obtain rfl := Option.some.inj hstep
        exact ⟨rfl, fun _ _ => rfl⟩
      · cases hstep
    | setCallback job =>
      simp only at hstep
      split at hstep
      · obtain rfl := Option.some.inj hstep
        exact ⟨rfl, fun b hb => Function.update_of_ne hb _ _⟩
      · cases hstep
    | setTimedCallback job time =>
      simp only at hstep
      split at hstep
      · obtain rfl := Option.some.inj hstep
        exact ⟨rfl, fun b hb => Function.update_of_ne hb _ _⟩
      · cases hstep
    | resume =>
      simp only at hstep
      split at hstep
      · obtain rfl := Option.some.inj hstep
        exact ⟨rfl, fun b hb => Function.update_of_ne hb _ _⟩
      · cases hstep

omit [DecidableEq A] [DecidableEq J] in
/-- A step of the run loop moves nobody, and it ends a job only outside
    `hal_resume`. -/
theorem loopStep_frame {ticks : BitVec 64} (hstep : loopStep s ticks = some s') :
    s'.pc = s.pc ∧ (s.loop = .runJob → s.pc none = .idle) := by
  constructor
  · unfold loopStep at hstep
    repeat' split at hstep
    all_goals cases hstep
    all_goals rfl
  · intro hloop
    simp only [loopStep, hloop] at hstep
    split at hstep
    · assumption
    · cases hstep

/-- The run loop is in `hal_resume` only from a job. -/
theorem loop_idle_of_reach {isr : A → Bool} {deadline : J → BitVec 64}
    (h : (wakeLts isr deadline).Reach Accepted s) : s.loop ≠ .runJob → s.pc none = .idle := by
  refine h.invariant (I := fun s => s.loop ≠ .runJob → s.pc none = .idle) ?_ ?_
  · rintro s rfl -
    rfl
  · intro s act s' hidle _ hstep
    cases act with
    | agent a act =>
      obtain ⟨hself, hloop, hpc⟩ := agentStep_frame hstep
      rw [hloop]
      intro hne
      rw [hpc none fun ha => hne (hself ha.symm)]
      exact hidle hne
    | loop ticks =>
      obtain ⟨hpc, hrun⟩ := loopStep_frame hstep
      intro _
      rw [hpc]
      by_cases hloop : s.loop = .runJob
      · exact hrun hloop
      · exact hidle hloop
    | timerTask =>
      change (if 0 < s.messages then _ else _) = some s' at hstep
      split at hstep
      · obtain rfl := Option.some.inj hstep
        exact hidle
      · cases hstep

/-- While the run loop is blocked and a queue is not empty, the bit is set, or a
    message to set it is under way, or some other thread or interrupt has still to
    set it. -/
theorem halSleep_woken {isr : A → Bool} {deadline : J → BitVec 64}
    (h : (wakeLts isr deadline).Reach Accepted s) (hwait : s.loop = .wait)
    (hjobs : s.HasJobs) : s.bit = true ∨ 0 < s.messages ∨ ∃ a : A, s.HasToSet (some a) := by
  have hinv := wakeInv_of_reach h
  have hidle : s.pc none = .idle := loop_idle_of_reach h (by simp [hwait])
  have hother {a : Option A} (ha : s.HasToSet a) : ∃ a : A, s.HasToSet (some a) := by
    cases a with
    | none => simp [WakeState.HasToSet, hidle] at ha
    | some a => exact ⟨a, ha⟩
  cases hresumed : s.resumed with
  | false =>
    obtain ⟨a, ha⟩ := hinv.unseen (.inr ⟨by simp [hwait, LoopPc.sleeps], hjobs⟩) hresumed
    exact .inr (.inr (hother (.of_asks ha hresumed)))
  | true =>
    obtain (hbit | hmessages | ⟨a, ha⟩) | hreset := hinv.resumed hresumed
    · exact .inl hbit
    · exact .inr (.inl hmessages)
    · exact .inr (.inr (hother (.of_commits ha)))
    · simp [hwait, LoopPc.resets] at hreset

/-! ## Two threads -/

/-- One thread has written `resumed` and not yet set the bit when the run loop
    takes its job and goes to sleep; then another one queues a job. -/
def lateSchedule : List (WakeAct Bool Bool) :=
  [.agent (some false) (.setCallback false), .agent (some false) (.go true),
   .agent (some false) (.go true), .agent (some false) (.go true),
   .agent (some false) (.go true),
   .loop 0, .loop 0, .loop 0, .loop 0, .loop 0, .loop 0, .loop 0,
   .agent (some true) (.setCallback true), .agent (some true) (.go true),
   .agent (some true) (.go true), .agent (some true) (.go true)]

theorem lateSchedule_reach {s : WakeState Bool Bool}
    (h : lateSchedule.foldlM (Lts.guarded Accepted (wakeStep fun _ => false))
      (wakeInit fun _ => 0) = some s) :
    (wakeLts (fun _ => false) fun _ => 0).Reach Accepted s := .schedule lateSchedule h

/-- After it the first thread has still to set the bit. -/
theorem halSleep_woken_late :
    ∃ s : WakeState Bool Bool, s.loop = .wait ∧ s.HasJobs ∧
      (s.bit = true ∨ 0 < s.messages ∨ ∃ a : Bool, s.HasToSet (some a)) := by
  refine ⟨_, rfl, ?_, halSleep_woken (lateSchedule_reach rfl) rfl ?_⟩
  · exact .inr (by decide)
  · exact .inr (by decide)

/-- The run loop is blocked, the bit is clear, and the thread that queued the job
    is done. -/
theorem queuer_not_hasToSet :
    ∃ s : WakeState Bool Bool, (wakeLts (fun _ => false) fun _ => 0).Reach Accepted s ∧
      s.loop = .wait ∧ s.runnablejobs = [true] ∧ s.bit = false ∧ s.messages = 0 ∧
      s.queuedBy true = some (some true) ∧ ¬ s.HasToSet (some true) :=
  ⟨_, lateSchedule_reach rfl, rfl, rfl, rfl, rfl, rfl, id⟩

end Invariant

end LuaRtos.Lmic
