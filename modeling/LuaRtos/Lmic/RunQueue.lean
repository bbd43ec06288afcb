/-
  LuaRtos.Lmic.RunQueue

  The job queues of lmic/oslmic.c: `OS.scheduledjobs` and `OS.runnablejobs`, which
  share the link field of the jobs.

  A call runs with the interrupts disabled, and is one step here.  `fuel` bounds
  the steps of each loop, and is enough if it exceeds the number of calls made.

  The deadlines are 64 bit and unsigned, so that `deadline - time > 0` only says
  that they differ.
-/

import LuaRtos.CLib.SList
import Mathlib.Data.List.Basic
import Mathlib.Data.List.TakeWhile

namespace LuaRtos.Lmic

open LuaRtos.CLib

variable {J F : Type}

/-- `OS`, and the fields of all jobs there are. -/
structure OS (J F : Type) where
  scheduledjobs : Option J
  runnablejobs : Option J
  next : J → Option J
  deadline : J → BitVec 64
  func : J → F

/-- `memset(&OS, 0x00, sizeof(OS))`. -/
def osInit (os : OS J F) : OS J F :=
  { os with scheduledjobs := none, runnablejobs := none }

/-- The two queues. -/
inductive Queue where
  | scheduled
  | runnable
deriving DecidableEq, Repr

namespace OS

/-- A queue as a list in memory. -/
def list (os : OS J F) : Queue → SList J
  | .scheduled => ⟨os.scheduledjobs, os.next⟩
  | .runnable => ⟨os.runnablejobs, os.next⟩

/-- What a change of one of the queues leaves behind. -/
def setList (os : OS J F) (q : Queue) (s : SList J) : OS J F :=
  match q with
  | .scheduled => { os with scheduledjobs := s.head, next := s.next }
  | .runnable => { os with runnablejobs := s.head, next := s.next }

end OS

section Calls

variable [DecidableEq J] (fuel : Nat)

/-- `unlinkjob`. -/
def unlinkjob (os : OS J F) (q : Queue) (job : J) : Result (OS J F × Bool) := do
  let pnext ← (os.list q).seek (fun x => decide (x = job)) fuel .head
  match (os.list q).get pnext with
  | some _ => pure (os.setList q ((os.list q).set pnext (os.next job)), true)
  | none => pure (os, false)

/-- `os_clearCallback`. -/
def osClearCallback (os : OS J F) (job : J) : Result (OS J F) := do
  let (os, _) ← unlinkjob fuel os .scheduled job
  let (os, _) ← unlinkjob fuel os .runnable job
  pure os

/-- `os_setCallback`. -/
def osSetCallback (os : OS J F) (job : J) (cb : F) : Result (OS J F) := do
  -- remove if job was already queued
  let os ← osClearCallback fuel os job
  -- fill-in job
  let os := { os with
    func := Function.update os.func job cb
    next := Function.update os.next job none }
  -- add to end of run queue
  let pnext ← (os.list .runnable).seek (fun _ => false) fuel .head
  pure (os.setList .runnable ((os.list .runnable).set pnext (some job)))

/-- `os_setTimedCallback`. -/
def osSetTimedCallback (os : OS J F) (job : J) (time : BitVec 64) (cb : F) :
    Result (OS J F) := do
  -- remove if job was already queued
  let os ← osClearCallback fuel os job
  -- fill-in job
  let os := { os with
    deadline := Function.update os.deadline job time
    func := Function.update os.func job cb
    next := Function.update os.next job none }
  -- insert into schedule
  let pnext ← (os.list .scheduled).seek (fun x => decide (os.deadline x - time > 0)) fuel .head
  -- enqueue before next element, if the loop was left there
  let os := match (os.list .scheduled).get pnext with
    | some x => { os with next := Function.update os.next job (some x) }
    | none => os
  pure (os.setList .scheduled ((os.list .scheduled).set pnext (some job)))

omit [DecidableEq J] in
/-- The part of the loop of `os_runloop` that takes a job; `ticks` is the time
    that `hal_checkTimer` reads. -/
def osTakeJob (os : OS J F) (ticks : BitVec 64) : Option J × OS J F :=
  match os.runnablejobs with
  -- check for runnable jobs
  | some j => (some j, { os with runnablejobs := os.next j })
  | none =>
    match os.scheduledjobs with
    -- check for expired timed jobs
    | some j =>
      if os.deadline j ≤ ticks then (some j, { os with scheduledjobs := os.next j })
      else (none, os)
    | none => (none, os)

end Calls

/-! ## Runs -/

/-- A call of the run queue. -/
inductive Op (J F : Type) where
  | clearCallback (job : J)
  | setCallback (job : J) (cb : F)
  | setTimedCallback (job : J) (time : BitVec 64) (cb : F)
  | takeJob (ticks : BitVec 64)
deriving DecidableEq, Repr

section Runs

variable [DecidableEq J] (fuel : Nat)

/-- One call: the job it takes from the queues to run it, if any. -/
def Op.run (os : OS J F) : Op J F → Result (Option J × OS J F)
  | .clearCallback job => do
    let os ← osClearCallback fuel os job
    pure (none, os)
  | .setCallback job cb => do
    let os ← osSetCallback fuel os job cb
    pure (none, os)
  | .setTimedCallback job time cb => do
    let os ← osSetTimedCallback fuel os job time cb
    pure (none, os)
  | .takeJob ticks => pure (osTakeJob os ticks)

/-- The calls one after the other. -/
def runOps (os : OS J F) : List (Op J F) → Result (OS J F)
  | [] => pure os
  | op :: ops => do
    let (_, os) ← op.run fuel os
    runOps os ops

end Runs

/-! ## What the queues hold -/

/-- The jobs of the two queues, no job twice. -/
structure OS.Holds (os : OS J F) (sched run : List J) : Prop where
  scheduled : (os.list .scheduled).Is sched
  runnable : (os.list .runnable).Is run
  nodup : (sched ++ run).Nodup

/-- The first queue is in the order of the deadlines. -/
def OS.Sorted (os : OS J F) : Prop :=
  ∀ sched, (os.list .scheduled).Is sched → sched.Pairwise fun x y => os.deadline x ≤ os.deadline y

/-- A job is only scheduled for a time that is not later than the deadlines of
    the other jobs that are scheduled. -/
def Op.Timely (os : OS J F) : Op J F → Prop
  | .setTimedCallback job time _ => ∀ sched, (os.list .scheduled).Is sched →
      ∀ x ∈ sched, x ≠ job → time ≤ os.deadline x
  | .clearCallback _ | .setCallback _ _ | .takeJob _ => True

/-- What a call does to the two queues. -/
def Op.Effect [DecidableEq J] (op : Op J F) (sched run sched' run' : List J)
    (taken : Option J) : Prop :=
  match op with
  | .clearCallback job => sched' = sched.erase job ∧ run' = run.erase job ∧ taken = none
  | .setCallback job _ => sched' = sched.erase job ∧ run' = run.erase job ++ [job] ∧ taken = none
  | .setTimedCallback job _ _ =>
      job ∈ sched' ∧ sched'.erase job = sched.erase job ∧ run' = run.erase job ∧ taken = none
  | .takeJob _ =>
      sched' = sched ∧ run' = run ∧ taken = none ∨
      ∃ j, taken = some j ∧ (run = j :: run' ∧ sched' = sched ∨
        run = [] ∧ run' = [] ∧ sched = j :: sched')

section Properties

variable [DecidableEq J] (fuel : Nat)

/-- The first queue is in order in every state of a run. -/
def AllSorted (os : OS J F) : List (Op J F) → Prop
  | [] => os.Sorted
  | op :: ops => os.Sorted ∧ ∀ taken os', op.run fuel os = .ok (taken, os') → AllSorted os' ops

/-- Every call of a run is timely. -/
def AllTimely (os : OS J F) : List (Op J F) → Prop
  | [] => True
  | op :: ops => op.Timely os ∧ ∀ taken os', op.run fuel os = .ok (taken, os') → AllTimely os' ops

end Properties

/-! ## The lists in memory -/

section Lists

variable {os : OS J F} {q q' : Queue} {l l' pre post post' sched run : List J} {v : Option J}

theorem list_setList_self (os : OS J F) (q : Queue) (s : SList J) :
    (os.setList q s).list q = s := by
  cases q <;> rfl

theorem list_setList_of_ne (os : OS J F) (s : SList J) (h : q' ≠ q) :
    (os.setList q s).list q' = ⟨(os.list q').head, s.next⟩ := by
  cases q with
  | scheduled =>
    cases q' with
    | scheduled => exact absurd rfl h
    | runnable => rfl
  | runnable =>
    cases q' with
    | scheduled => rfl
    | runnable => exact absurd rfl h

theorem list_next (os : OS J F) (q : Queue) : (os.list q).next = os.next := by
  cases q <;> rfl

theorem deadline_setList (os : OS J F) (q : Queue) (s : SList J) :
    (os.setList q s).deadline = os.deadline := by
  cases q <;> rfl

/-- A change of the fields of a job that is in no queue. -/
theorem OS.Holds.fill {os' : OS J F} {job : J} (h : os.Holds sched run)
    (hs : os'.scheduledjobs = os.scheduledjobs) (hr : os'.runnablejobs = os.runnablejobs)
    (hnext : ∀ x, x ≠ job → os'.next x = os.next x) (hjob : job ∉ sched ++ run) :
    os'.Holds sched run := by
  rw [List.mem_append, not_or] at hjob
  obtain ⟨hsched, hrun⟩ := hjob
  refine ⟨?_, ?_, h.nodup⟩
  · show Spells os'.next os'.scheduledjobs sched
    rw [hs]
    exact h.scheduled.congr fun x hx => hnext x fun heq => hsched (heq ▸ hx)
  · show Spells os'.next os'.runnablejobs run
    rw [hr]
    exact h.runnable.congr fun x hx => hnext x fun heq => hrun (heq ▸ hx)

variable [DecidableEq J]

theorem is_setList (h : (os.list q).Is (pre ++ post)) (hv : Spells os.next v post')
    (hnodup : (pre ++ post').Nodup) :
    ((os.setList q ((os.list q).set (linkAfter pre) v)).list q).Is (pre ++ post') := by
  rw [list_setList_self]
  exact SList.set_linkAfter h (by rw [list_next]; exact hv) hnodup

/-- The other queue shares no link with the one that is written. -/
theorem is_setList_of_ne (hq : q' ≠ q) (h : (os.list q').Is l) (hpre : ∀ x ∈ pre, x ∉ l) :
    ((os.setList q ((os.list q).set (linkAfter pre) v)).list q').Is l := by
  rw [list_setList_of_ne _ _ hq]
  refine Spells.congr h fun x hx => ?_
  have howner : (linkAfter pre).owner ≠ some x := fun heq => hpre x (owner_linkAfter heq) hx
  rw [SList.set_next howner, list_next, list_next]

theorem OS.Holds.write_scheduled (h : os.Holds (pre ++ post) run)
    (hv : Spells os.next v post') (hnodup : (pre ++ post' ++ run).Nodup) :
    (os.setList .scheduled ((os.list .scheduled).set (linkAfter pre) v)).Holds
      (pre ++ post') run := by
  obtain ⟨hsched, -, hdisjoint⟩ := List.nodup_append.mp hnodup
  refine ⟨is_setList h.scheduled hv hsched, is_setList_of_ne nofun h.runnable ?_, hnodup⟩
  exact fun x hx hx' => hdisjoint x (List.mem_append_left _ hx) x hx' rfl

theorem OS.Holds.write_runnable (h : os.Holds sched (pre ++ post))
    (hv : Spells os.next v post') (hnodup : (sched ++ (pre ++ post')).Nodup) :
    (os.setList .runnable ((os.list .runnable).set (linkAfter pre) v)).Holds
      sched (pre ++ post') := by
  obtain ⟨-, hrun, hdisjoint⟩ := List.nodup_append.mp hnodup
  refine ⟨is_setList_of_ne nofun h.scheduled ?_, is_setList h.runnable hv hrun, hnodup⟩
  exact fun x hx hx' => hdisjoint x hx' x (List.mem_append_left _ hx) rfl

end Lists

/-! ## The calls -/

section Specs

variable [DecidableEq J] {os : OS J F} {q : Queue} {l sched run : List J} {fuel : Nat}

/-- The search for a job, in a queue that holds it and in one that does not. -/
theorem unlinkjob_cases (h : (os.list q).Is l) (hfuel : l.length < fuel) (job : J) :
    (job ∉ l ∧ unlinkjob fuel os q job = .ok (os, false)) ∨
    ∃ pre post, l = pre ++ job :: post ∧ l.erase job = pre ++ post ∧
      unlinkjob fuel os q job =
        .ok (os.setList q ((os.list q).set (linkAfter pre) (os.next job)), true) := by
  by_cases hmem : job ∈ l
  · obtain ⟨pre, post, hpre, rfl, herase⟩ := List.exists_erase_eq hmem
    refine .inr ⟨pre, post, rfl, herase, ?_⟩
    rw [List.length_append] at hfuel
    have hseek : (os.list q).seek (fun x => decide (x = job)) fuel .head =
        .ok (linkAfter pre) := by
      refine SList.seek_linkAfter h (fun x hx => ?_) (by simp) (by omega)
      simpa using fun heq : x = job => hpre (heq ▸ hx)
    rw [unlinkjob, hseek, ok_bind, SList.get_linkAfter h]
    rfl
  · refine .inl ⟨hmem, ?_⟩
    have h' : (os.list q).Is (l ++ []) := by rwa [List.append_nil]
    have hseek : (os.list q).seek (fun x => decide (x = job)) fuel .head = .ok (linkAfter l) := by
      refine SList.seek_linkAfter h' (fun x hx => ?_) (by simp) hfuel
      simpa using fun heq : x = job => hmem (heq ▸ hx)
    rw [unlinkjob, hseek, ok_bind, SList.get_linkAfter h']
    rfl

theorem unlinkjob_scheduled (h : os.Holds sched run) (hfuel : sched.length < fuel) (job : J) :
    ∃ os' found, unlinkjob fuel os .scheduled job = .ok (os', found) ∧
      os'.Holds (sched.erase job) run ∧ os'.deadline = os.deadline := by
  obtain ⟨hno, hrun⟩ | ⟨pre, post, rfl, herase, hrun⟩ := unlinkjob_cases h.scheduled hfuel job
  · refine ⟨os, false, hrun, ?_, rfl⟩
    rwa [List.erase_of_not_mem hno]
  · refine ⟨_, true, hrun, ?_, deadline_setList _ _ _⟩
    rw [herase]
    refine h.write_scheduled (Spells.tail h.scheduled) (h.nodup.sublist ?_)
    exact ((List.sublist_cons_self job post).append_left pre).append_right run

theorem unlinkjob_runnable (h : os.Holds sched run) (hfuel : run.length < fuel) (job : J) :
    ∃ os' found, unlinkjob fuel os .runnable job = .ok (os', found) ∧
      os'.Holds sched (run.erase job) ∧ os'.deadline = os.deadline := by
  obtain ⟨hno, hrun⟩ | ⟨pre, post, rfl, herase, hrun⟩ := unlinkjob_cases h.runnable hfuel job
  · refine ⟨os, false, hrun, ?_, rfl⟩
    rwa [List.erase_of_not_mem hno]
  · refine ⟨_, true, hrun, ?_, deadline_setList _ _ _⟩
    rw [herase]
    refine h.write_runnable (Spells.tail h.runnable) (h.nodup.sublist ?_)
    exact ((List.sublist_cons_self job post).append_left pre).append_left sched

/-- `os_clearCallback` removes the job from both queues. -/
theorem osClearCallback_spec (h : os.Holds sched run) (hsched : sched.length < fuel)
    (hrun : run.length < fuel) (job : J) :
    ∃ os', osClearCallback fuel os job = .ok os' ∧
      os'.Holds (sched.erase job) (run.erase job) ∧ os'.deadline = os.deadline := by
  obtain ⟨os₁, found₁, hunlink₁, h₁, hdeadline₁⟩ := unlinkjob_scheduled h hsched job
  obtain ⟨os₂, found₂, hunlink₂, h₂, hdeadline₂⟩ := unlinkjob_runnable h₁ hrun job
  refine ⟨os₂, ?_, h₂, hdeadline₂.trans hdeadline₁⟩
  rw [osClearCallback, hunlink₁, ok_bind]
  simp only [hunlink₂, ok_bind, pure_eq_ok]

/-- A job that was removed is in no queue, and may be put into one. -/
theorem notMem_erase_append (h : (sched ++ run).Nodup) (job : J) :
    job ∉ sched.erase job ++ run.erase job := by
  obtain ⟨hsched, hrun, -⟩ := List.nodup_append.mp h
  rw [List.mem_append, not_or]
  exact ⟨hsched.not_mem_erase, hrun.not_mem_erase⟩

/-- `os_setCallback` puts the job at the end of the second queue. -/
theorem osSetCallback_spec (h : os.Holds sched run) (hsched : sched.length < fuel)
    (hrun : run.length < fuel) (job : J) (cb : F) :
    ∃ os', osSetCallback fuel os job cb = .ok os' ∧
      os'.Holds (sched.erase job) (run.erase job ++ [job]) ∧ os'.deadline = os.deadline := by
  obtain ⟨os₁, hclear, h₁, hdeadline⟩ := osClearCallback_spec h hsched hrun job
  have hnew := notMem_erase_append h.nodup job
  let os₂ : OS J F := { os₁ with
    func := Function.update os₁.func job cb
    next := Function.update os₁.next job none }
  have h₂ : os₂.Holds (sched.erase job) (run.erase job ++ []) := by
    rw [List.append_nil]
    exact h₁.fill rfl rfl (fun x hx => Function.update_of_ne hx _ _) hnew
  have hseek : (os₂.list .runnable).seek (fun _ => false) fuel .head =
      .ok (linkAfter (run.erase job)) := by
    refine SList.seek_linkAfter h₂.runnable (fun _ _ => rfl) (by simp) ?_
    exact Nat.lt_of_le_of_lt List.length_erase_le hrun
  have hv : Spells os₂.next (some job) [job] := ⟨rfl, Function.update_self ..⟩
  refine ⟨_, ?_, h₂.write_runnable hv ?_, (deadline_setList _ _ _).trans hdeadline⟩
  · rw [osSetCallback, hclear, ok_bind]
    show ((os₂.list .runnable).seek (fun _ => false) fuel .head >>= _) = _
    rw [hseek]
    rfl
  · rw [← List.append_assoc]
    have hnodup := h₁.nodup
    rw [List.nodup_append]
    refine ⟨hnodup, by simp, ?_⟩
    rintro x hx y hy rfl
    rw [List.mem_singleton.mp hy] at hx
    exact hnew hx

/-- The test of the loop in `os_setTimedCallback`, on unsigned numbers. -/
theorem sub_pos_iff_ne (x time : BitVec 64) : x - time > 0 ↔ x ≠ time := by
  constructor
  · rintro h rfl
    simp at h
  · intro h
    rw [gt_iff_lt, BitVec.lt_def]
    bv_omega

/-- `os_setTimedCallback` puts the job behind the first jobs that have the very
    same deadline. -/
theorem osSetTimedCallback_spec (h : os.Holds sched run) (hsched : sched.length < fuel)
    (hrun : run.length < fuel) (job : J) (time : BitVec 64) (cb : F) :
    ∃ os', osSetTimedCallback fuel os job time cb = .ok os' ∧
      os'.Holds
        ((sched.erase job).takeWhile (fun x => decide (os.deadline x = time)) ++
          job :: (sched.erase job).dropWhile fun x => decide (os.deadline x = time))
        (run.erase job) ∧
      os'.deadline = Function.update os.deadline job time := by
  obtain ⟨os₁, hclear, h₁, hdeadline⟩ := osClearCallback_spec h hsched hrun job
  have hnew := notMem_erase_append h.nodup job
  have hnew' : job ∉ sched.erase job := fun hmem => hnew (List.mem_append_left _ hmem)
  let p : J → Bool := fun x => decide (os.deadline x = time)
  let pre := (sched.erase job).takeWhile p
  let post := (sched.erase job).dropWhile p
  have hsplit : pre ++ post = sched.erase job := List.takeWhile_append_dropWhile
  let os₂ : OS J F := { os₁ with
    deadline := Function.update os₁.deadline job time
    func := Function.update os₁.func job cb
    next := Function.update os₁.next job none }
  have h₂ : os₂.Holds (pre ++ post) (run.erase job) := by
    rw [hsplit]
    exact h₁.fill rfl rfl (fun x hx => Function.update_of_ne hx _ _) hnew
  -- the loop is left at the first job with another deadline
  have hstop : ∀ x ∈ sched.erase job, decide (os₂.deadline x - time > 0) = !p x := by
    intro x hx
    have hxjob : x ≠ job := fun heq => hnew' (heq ▸ hx)
    have hx' : os₂.deadline x = os.deadline x := by
      show Function.update os₁.deadline job time x = os.deadline x
      rw [Function.update_of_ne hxjob, hdeadline]
    rw [hx', decide_eq_decide.mpr (sub_pos_iff_ne _ _), decide_not]
  have hseek : (os₂.list .scheduled).seek (fun x => decide (os₂.deadline x - time > 0)) fuel
      .head = .ok (linkAfter pre) := by
    rw [hsplit] at h₂
    exact SList.seek_takeWhile h₂.scheduled hstop
      (Nat.lt_of_le_of_lt List.length_erase_le hsched)
  have hget : (os₂.list .scheduled).get (linkAfter pre) = post.head? :=
    SList.get_linkAfter h₂.scheduled
  -- the link of the job, whether or not the loop has met such a job
  let os₃ : OS J F := { os₂ with next := Function.update os₂.next job post.head? }
  have hmatch : (match (os₂.list .scheduled).get (linkAfter pre) with
      | some x => { os₂ with next := Function.update os₂.next job (some x) }
      | none => os₂) = os₃ := by
    rw [hget]
    cases hhead : post.head? with
    | some x => simp [os₃, hhead]
    | none =>
      have hself : Function.update os₂.next job none = os₂.next := by simp [os₂]
      simp [os₃, hhead, hself]
  have h₃ : os₃.Holds (pre ++ post) (run.erase job) := by
    refine h₂.fill rfl rfl (fun x hx => Function.update_of_ne hx _ _) ?_
    rwa [hsplit]
  have hpost : Spells os₃.next post.head? post := by
    have hrest := SList.get_linkFrom (q := .head) h₃.scheduled
    rwa [show (os₃.list .scheduled).get (linkFrom .head pre) = post.head? from
      SList.get_linkAfter h₃.scheduled] at hrest
  have hv : Spells os₃.next (some job) (job :: post) := by
    refine ⟨rfl, ?_⟩
    rwa [show os₃.next job = post.head? from Function.update_self ..]
  refine ⟨_, ?_, h₃.write_scheduled hv ?_, ?_⟩
  · rw [osSetTimedCallback, hclear, ok_bind]
    show ((os₂.list .scheduled).seek (fun x => decide (os₂.deadline x - time > 0)) fuel .head
      >>= _) = _
    rw [hseek, ok_bind]
    exact congrArg (fun os : OS J F => Except.ok
      (os.setList .scheduled ((os.list .scheduled).set (linkAfter pre) (some job)))) hmatch
  · have hperm : (pre ++ job :: post ++ run.erase job).Perm
        (job :: (sched.erase job ++ run.erase job)) := by
      rw [← hsplit, List.append_assoc, List.append_assoc]
      exact List.perm_middle
    rw [hperm.nodup_iff, List.nodup_cons]
    exact ⟨hnew, h₁.nodup⟩
  · rw [deadline_setList]
    show Function.update os₁.deadline job time = _
    rw [hdeadline]

end Specs

end LuaRtos.Lmic
