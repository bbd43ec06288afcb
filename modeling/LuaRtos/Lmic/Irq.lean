/-
  LuaRtos.Lmic.Irq

  `hal_disableIRQs` and `hal_enableIRQs` (drivers/lmic_hal.c), called by threads
  on two cores in properly nested pairs.

  `nested` counts the calls of all threads together.  Only a call that finds it 0
  disables anything, and what it disables is the interrupts and the preemption on
  its own core; so a thread that finds another one inside goes in as well.

  A thread does a step only while it runs on a core.  The core can turn to another
  one while its interrupts are enabled, or when its thread waits for the mutex.
-/

import LuaRtos.Lts.Run
import Mathlib.Logic.Function.Basic

namespace LuaRtos.Lmic

/-- The cores of the chip. -/
inductive Core where
  | pro
  | app
deriving DecidableEq, Repr

/-- Where a thread is in the two calls; the argument is the local variable
    `disable` or `enable`. -/
inductive IrqPc where
  /-- Outside. -/
  | out
  | disableLock
  /-- Before `nested++ == 0`. -/
  | disableCount
  | disableUnlock (disable : Bool)
  | portDisable
  | enableLock
  /-- Before `--nested == 0`. -/
  | enableCount
  | enableUnlock (enable : Bool)
  | portEnable
deriving DecidableEq, Repr

structure IrqState (T : Type) where
  nested : Int
  /-- Somebody holds `lmic_hal_mtx`. -/
  locked : Bool
  /-- The interrupts of a core are disabled. -/
  disabled : Core → Bool
  running : Core → Option T
  pc : T → IrqPc
  /-- How many calls of `hal_disableIRQs` have returned whose `hal_enableIRQs`
      has not begun. -/
  depth : T → Nat

inductive IrqAct (T : Type) where
  | disableIRQs (t : T)
  | enableIRQs (t : T)
  /-- The next step of a call. -/
  | go (t : T)
  /-- A core turns to another thread, or to none. -/
  | switch (c : Core) (t : Option T)
deriving DecidableEq, Repr

section Step

variable {T : Type} [DecidableEq T]

namespace IrqState

/-- The core that a thread runs on. -/
def core (s : IrqState T) (t : T) : Option Core :=
  if s.running .pro = some t then some .pro
  else if s.running .app = some t then some .app
  else none

def goto (s : IrqState T) (t : T) (pc : IrqPc) : IrqState T :=
  { s with pc := Function.update s.pc t pc }

/-- A call of `hal_disableIRQs` returns. -/
def enter (s : IrqState T) (t : T) : IrqState T :=
  { s.goto t .out with depth := Function.update s.depth t (s.depth t + 1) }

/-- A call of `hal_enableIRQs` begins. -/
def leave (s : IrqState T) (t : T) : IrqState T :=
  { s.goto t .enableLock with depth := Function.update s.depth t (s.depth t - 1) }

omit [DecidableEq T] in
/-- The thread waits for the mutex. -/
def waits (s : IrqState T) (t : T) : Bool :=
  s.locked && (s.pc t = .disableLock || s.pc t = .enableLock)

omit [DecidableEq T] in
/-- A core can turn to another thread. -/
def canSwitch (s : IrqState T) (c : Core) : Bool :=
  !s.disabled c || (s.running c).all s.waits

end IrqState

/-- The next step of the call that `t` is in, on the core `c`. -/
def irqGo (s : IrqState T) (t : T) (c : Core) : Option (IrqState T) :=
  match s.pc t with
  | .out => none
  | .disableLock => if s.locked then none else some ({ s with locked := true }.goto t .disableCount)
  | .disableCount =>
    some ({ s with nested := s.nested + 1 }.goto t (.disableUnlock (s.nested = 0)))
  | .disableUnlock disable =>
    let s := { s with locked := false }
    some (if disable then s.goto t .portDisable else s.enter t)
  | .portDisable => some ({ s with disabled := Function.update s.disabled c true }.enter t)
  | .enableLock => if s.locked then none else some ({ s with locked := true }.goto t .enableCount)
  | .enableCount =>
    some ({ s with nested := s.nested - 1 }.goto t (.enableUnlock (s.nested - 1 = 0)))
  | .enableUnlock enable =>
    some ({ s with locked := false }.goto t (if enable then .portEnable else .out))
  | .portEnable => some ({ s with disabled := Function.update s.disabled c false }.goto t .out)

def irqStep (s : IrqState T) : IrqAct T → Option (IrqState T)
  | .disableIRQs t =>
    if (s.core t).isSome ∧ s.pc t = .out then some (s.goto t .disableLock) else none
  | .enableIRQs t =>
    if (s.core t).isSome ∧ s.pc t = .out ∧ 0 < s.depth t then some (s.leave t) else none
  | .go t => (s.core t).bind (irqGo s t)
  | .switch c t =>
    if s.canSwitch c ∧ ∀ u ∈ t, s.core u = none then
      some { s with running := Function.update s.running c t }
    else none

end Step

/-! ## Runs -/

section Runs

variable {T : Type}

def irqInit : IrqState T where
  nested := 0
  locked := false
  disabled := fun _ => false
  running := fun _ => none
  pc := fun _ => .out
  depth := fun _ => 0

def irqLts (T : Type) [DecidableEq T] : Lts (IrqState T) (IrqAct T) := .ofStep irqInit irqStep

namespace IrqState

/-- The thread is between its outermost `hal_disableIRQs` and the matching
    `hal_enableIRQs`. -/
def Inside (s : IrqState T) (t : T) : Prop := 0 < s.depth t

/-- At most one thread is. -/
def Exclusive (s : IrqState T) : Prop := ∀ t u, s.Inside t → s.Inside u → t = u

end IrqState

/-- An outermost `hal_disableIRQs` finds `nested` at 0. -/
def FindsZero (s : IrqState T) : IrqAct T → Prop
  | .go t => s.pc t = .disableCount → s.depth t = 0 → s.nested = 0
  | .disableIRQs _ | .enableIRQs _ | .switch _ _ => True

instance (s : IrqState T) : (a : IrqAct T) → Decidable (FindsZero s a)
  | .go t => inferInstanceAs (Decidable (s.pc t = .disableCount → s.depth t = 0 → s.nested = 0))
  | .disableIRQs _ | .enableIRQs _ | .switch _ _ => .isTrue trivial

end Runs

/-! ## The invariant -/

/-- What the place of a thread adds to `nested`. -/
def IrqPc.counted : IrqPc → Nat
  | .disableUnlock _ | .portDisable | .enableLock | .enableCount => 1
  | .out | .disableLock | .disableCount | .enableUnlock _ | .portEnable => 0

section Invariant

variable {T : Type}

/-- What a thread adds to `nested`. -/
def IrqState.share (s : IrqState T) (t : T) : Nat := s.depth t + (s.pc t).counted

/-- The calls that are counted are all by one thread. -/
def IrqInv (s : IrqState T) : Prop :=
  ∃ t, s.nested = s.share t ∧ ∀ u, u ≠ t → s.share u = 0

theorem IrqInv.exclusive {s : IrqState T} (h : IrqInv s) : s.Exclusive := by
  obtain ⟨t, -, hzero⟩ := h
  have howner : ∀ u, s.Inside u → u = t := by
    intro u hu
    by_contra hne
    have hshare := hzero u hne
    rw [IrqState.share] at hshare
    have hdepth : 0 < s.depth u := hu
    omega
  intro u v hu hv
  rw [howner u hu, howner v hv]

/-- A step that changes no share but that of `t`, and `nested` as much. -/
theorem IrqInv.of_share {s s' : IrqState T} {t : T} (h : IrqInv s)
    (hother : ∀ u, u ≠ t → s'.share u = s.share u)
    (hnested : s'.nested - s.nested = (s'.share t : Int) - s.share t)
    (howner : s.share t = 0 → s'.share t ≠ 0 → s.nested = 0) : IrqInv s' := by
  obtain ⟨o, ho, hzero⟩ := h
  by_cases hot : o = t
  · refine ⟨t, ?_, fun u hu => ?_⟩
    · rw [hot] at ho
      omega
    · rw [hother u hu]
      exact hzero u (hot ▸ hu)
  · have hshare : s.share t = 0 := hzero t (Ne.symm hot)
    by_cases hnew : s'.share t = 0
    · refine ⟨o, ?_, fun u hu => ?_⟩
      · rw [hother o hot]
        omega
      · by_cases hut : u = t
        · rw [hut, hnew]
        · rw [hother u hut]
          exact hzero u hu
    · -- `t` is the first to be counted
      have hn : s.nested = 0 := howner hshare hnew
      refine ⟨t, by omega, fun u hu => ?_⟩
      rw [hother u hu]
      by_cases huo : u = o
      · rw [huo]
        omega
      · exact hzero u huo

variable [DecidableEq T] {s s' : IrqState T} {t : T} {c : Core}

/-- A step within the calls moves only the thread that does it. -/
theorem irqGo_other (hstep : irqGo s t c = some s') {u : T} (hu : u ≠ t) :
    s'.share u = s.share u := by
  have hpc (pc : IrqPc) : Function.update s.pc t pc u = s.pc u := Function.update_of_ne hu _ _
  have hdepth (n : Nat) : Function.update s.depth t n u = s.depth u :=
    Function.update_of_ne hu _ _
  unfold irqGo at hstep
  repeat' split at hstep
  all_goals cases hstep
  all_goals simp [IrqState.share, IrqState.goto, IrqState.enter, hpc, hdepth]

/-- It changes `nested` by as much as the thread's share, and a thread that was
    not counted is counted only by an outermost `hal_disableIRQs`. -/
theorem irqGo_self (hstep : irqGo s t c = some s') :
    s'.nested - s.nested = (s'.share t : Int) - s.share t ∧
      (s.share t = 0 → s'.share t ≠ 0 → s.pc t = .disableCount ∧ s.depth t = 0) := by
  -- a step that changes neither
  have hsame (hn : s'.nested = s.nested) (hs : s'.share t = s.share t) :
      s'.nested - s.nested = (s'.share t : Int) - s.share t ∧
        (s.share t = 0 → s'.share t ≠ 0 → s.pc t = .disableCount ∧ s.depth t = 0) := by
    rw [hn, hs]
    exact ⟨by omega, fun hzero hne => absurd hzero hne⟩
  unfold irqGo at hstep
  cases hpc : s.pc t with
  | out => simp [hpc] at hstep
  | disableLock =>
    simp only [hpc] at hstep
    split at hstep
    · cases hstep
    · obtain rfl := Option.some.inj hstep
      exact hpc ▸ hsame rfl (by simp [IrqState.share, IrqState.goto, hpc, IrqPc.counted])
  | disableCount =>
    simp only [hpc, Option.some.injEq] at hstep
    obtain rfl := hstep
    refine ⟨?_, fun hzero _ => ⟨rfl, ?_⟩⟩
    · simp only [IrqState.share, IrqState.goto, hpc, IrqPc.counted, Function.update_self]
      omega
    · simpa [IrqState.share, hpc, IrqPc.counted] using hzero
  | disableUnlock disable =>
    simp only [hpc, Option.some.injEq] at hstep
    obtain rfl := hstep
    cases disable with
    | true => exact hpc ▸ hsame rfl (by simp [IrqState.share, IrqState.goto, hpc, IrqPc.counted])
    | false =>
      exact hpc ▸ hsame rfl
        (by simp [IrqState.share, IrqState.enter, IrqState.goto, hpc, IrqPc.counted])
  | portDisable =>
    simp only [hpc, Option.some.injEq] at hstep
    obtain rfl := hstep
    exact hpc ▸ hsame rfl
      (by simp [IrqState.share, IrqState.enter, IrqState.goto, hpc, IrqPc.counted])
  | enableLock =>
    simp only [hpc] at hstep
    split at hstep
    · cases hstep
    · obtain rfl := Option.some.inj hstep
      exact hpc ▸ hsame rfl (by simp [IrqState.share, IrqState.goto, hpc, IrqPc.counted])
  | enableCount =>
    simp only [hpc, Option.some.injEq] at hstep
    obtain rfl := hstep
    refine ⟨?_, fun hzero _ => ?_⟩
    · simp only [IrqState.share, IrqState.goto, hpc, IrqPc.counted, Function.update_self]
      omega
    · simp [IrqState.share, hpc, IrqPc.counted] at hzero
  | enableUnlock enable =>
    simp only [hpc, Option.some.injEq] at hstep
    obtain rfl := hstep
    cases enable with
    | true => exact hpc ▸ hsame rfl (by simp [IrqState.share, IrqState.goto, hpc, IrqPc.counted])
    | false => exact hpc ▸ hsame rfl (by simp [IrqState.share, IrqState.goto, hpc, IrqPc.counted])
  | portEnable =>
    simp only [hpc, Option.some.injEq] at hstep
    obtain rfl := hstep
    exact hpc ▸ hsame rfl (by simp [IrqState.share, IrqState.goto, hpc, IrqPc.counted])

/-- The step lemma. -/
theorem irqStep_inv {act : IrqAct T} (h : IrqInv s) (hok : FindsZero s act)
    (hstep : irqStep s act = some s') : IrqInv s' := by
  cases act with
  | disableIRQs t =>
    simp only [irqStep] at hstep
    split at hstep
    · next hcall =>
      obtain rfl := Option.some.inj hstep
      refine h.of_share (t := t) (fun u hu => ?_) ?_ (fun hzero hne => absurd ?_ hne)
      · simp [IrqState.share, IrqState.goto, Function.update_of_ne hu]
      · simp [IrqState.share, IrqState.goto, hcall.2, IrqPc.counted]
      · simpa [IrqState.share, IrqState.goto, hcall.2, IrqPc.counted] using hzero
    · cases hstep
  | enableIRQs t =>
    simp only [irqStep] at hstep
    split at hstep
    · next hcall =>
      -- what leaves `depth` is still counted
      obtain rfl := Option.some.inj hstep
      obtain ⟨-, hout, hdepth⟩ := hcall
      refine h.of_share (t := t) (fun u hu => ?_) ?_ (fun hzero _ => ?_)
      · simp [IrqState.share, IrqState.leave, IrqState.goto, Function.update_of_ne hu]
      · simp [IrqState.share, IrqState.leave, IrqState.goto, hout, IrqPc.counted]
        omega
      · rw [IrqState.share] at hzero
        omega
    · cases hstep
  | go t =>
    obtain ⟨c, -, hgo⟩ := Option.bind_eq_some_iff.mp hstep
    obtain ⟨hnested, hfirst⟩ := irqGo_self hgo
    refine h.of_share (fun u hu => irqGo_other hgo hu) hnested fun hzero hne => ?_
    obtain ⟨hpc, hdepth⟩ := hfirst hzero hne
    exact hok hpc hdepth
  | switch c t =>
    simp only [irqStep] at hstep
    split at hstep
    · obtain rfl := Option.some.inj hstep
      exact h
    · cases hstep

/-- In the runs in which every outermost `hal_disableIRQs` finds `nested` at 0, at
    most one thread is inside. -/
theorem halDisableIRQs_exclusive (h : (irqLts T).Reach FindsZero s) : s.Exclusive := by
  intro t u ht hu
  have hinv : IrqInv s := by
    refine h.invariant ?_ fun s act s' hinv hok hstep => irqStep_inv hinv hok hstep
    rintro s rfl
    exact ⟨t, rfl, fun _ _ => rfl⟩
  exact hinv.exclusive t u ht hu

/-! ## Two threads -/

/-- Each thread runs on its core and calls `hal_disableIRQs`. -/
def bothSchedule : List (IrqAct Bool) :=
  [.switch .pro (some false), .switch .app (some true),
   .disableIRQs false, .go false, .go false, .go false, .go false,
   .disableIRQs true, .go true, .go true, .go true]

/-- One thread that goes in twice. -/
theorem halDisableIRQs_exclusive_nested :
    ∃ s : IrqState Bool, s.depth false = 2 ∧ s.Exclusive := by
  refine ⟨_, rfl, halDisableIRQs_exclusive (Lts.Reach.schedule
    [.switch .pro (some false), .disableIRQs false, .go false, .go false, .go false, .go false,
     .disableIRQs false, .go false, .go false, .go false] rfl)⟩

/-- Both threads are inside, on two cores. -/
theorem not_exclusive_two :
    ∃ s : IrqState Bool, (irqLts Bool).Reach (fun _ _ => True) s ∧ s.core false = some .pro ∧
      s.core true = some .app ∧ ¬ s.Exclusive := by
  refine ⟨_, Lts.Reach.schedule bothSchedule rfl, rfl, rfl, fun h => ?_⟩
  exact absurd (h false true Nat.zero_lt_one Nat.zero_lt_one) nofun

end Invariant

end LuaRtos.Lmic
