/-
  LuaRtos.Lmic.RunQueueOrder

  Runs of the job queues: what a call does to the two lists, and when the first
  one is in the order of the deadlines.

  No call loses a job or puts one twice.  But a job is inserted before the first
  one with another deadline, not with a later one, so the queue is in order
  exactly as long as every job is scheduled for a time before all that are there.
-/

import LuaRtos.Lmic.RunQueue

namespace LuaRtos.Lmic

open LuaRtos.CLib

variable {J F : Type}

/-! ## The order -/

section Order

variable [DecidableEq J] {os os' : OS J F} {sched run : List J} {fuel : Nat}

omit [DecidableEq J] in
theorem OS.Holds.sorted_iff (h : os.Holds sched run) :
    os.Sorted ↔ sched.Pairwise fun x y => os.deadline x ≤ os.deadline y := by
  constructor
  · exact fun hsorted => hsorted sched h.scheduled
  · intro hpairwise sched' hsched'
    rw [← Spells.unique h.scheduled hsched']
    exact hpairwise

omit [DecidableEq J] in
/-- A shorter queue with the same deadlines is in order. -/
theorem OS.Sorted.sublist {sched' run' : List J} (hsorted : os.Sorted) (h : os.Holds sched run)
    (h' : os'.Holds sched' run') (hdeadline : os'.deadline = os.deadline)
    (hsub : sched'.Sublist sched) : os'.Sorted := by
  rw [h'.sorted_iff, hdeadline]
  exact (hsorted sched h.scheduled).sublist hsub

/-- A job put behind those with its very deadline `t` is in its place exactly if
    no deadline is smaller. -/
theorem pairwise_insert_iff {d : J → BitVec 64} {l : List J} {job : J} {t : BitVec 64}
    (hjob : job ∉ l) (hl : l.Pairwise fun x y => d x ≤ d y) :
    ((l.takeWhile fun x => decide (d x = t)) ++
      job :: l.dropWhile fun x => decide (d x = t)).Pairwise
        (fun x y => Function.update d job t x ≤ Function.update d job t y) ↔
      ∀ x ∈ l, t ≤ d x := by
  have hd : ∀ x ∈ l, Function.update d job t x = d x := by
    intro x hx
    have hne : x ≠ job := fun heq => hjob (heq ▸ hx)
    exact Function.update_of_ne hne _ _
  have hself : Function.update d job t job = t := Function.update_self ..
  have hpre : ∀ x ∈ l.takeWhile (fun x => decide (d x = t)), d x = t := by
    intro x hx
    simpa using List.mem_takeWhile_imp hx
  have hsplit : (l.takeWhile fun x => decide (d x = t)) ++
      (l.dropWhile fun x => decide (d x = t)) = l := List.takeWhile_append_dropWhile
  constructor
  · intro h x hx
    obtain ⟨-, hrest, -⟩ := List.pairwise_append.mp h
    rw [← hsplit] at hx
    obtain hx | hx := List.mem_append.mp hx
    · rw [hpre x hx]
      exact BitVec.le_refl t
    · have hle := (List.pairwise_cons.mp hrest).1 x hx
      rwa [hself, hd x ((List.dropWhile_sublist _).subset hx)] at hle
  · intro h
    have hl' : l.Pairwise
        (fun x y => Function.update d job t x ≤ Function.update d job t y) := by
      refine hl.imp_of_mem fun hx hy hxy => ?_
      rwa [hd _ hx, hd _ hy]
    rw [← hsplit, List.pairwise_append] at hl'
    obtain ⟨htake, hdrop, hcross⟩ := hl'
    refine List.pairwise_append.mpr ⟨htake, List.pairwise_cons.mpr ⟨?_, hdrop⟩, ?_⟩
    · intro y hy
      have hy' := (List.dropWhile_sublist _).subset hy
      rw [hself, hd y hy']
      exact h y hy'
    · intro x hx y hy
      obtain rfl | hy := List.mem_cons.mp hy
      · rw [hself, hd x (List.takeWhile_subset _ hx), hpre x hx]
        exact BitVec.le_refl t
      · exact hcross x hx y hy

/-- A runnable job comes first, then the first scheduled job if it is due. -/
theorem osTakeJob_spec (h : os.Holds sched run) (ticks : BitVec 64) :
    ∃ taken os' sched' run', osTakeJob os ticks = (taken, os') ∧ os'.Holds sched' run' ∧
      (Op.takeJob ticks : Op J F).Effect sched run sched' run' taken ∧
      sched'.Sublist sched ∧ run'.Sublist run ∧ os'.deadline = os.deadline := by
  have hs : os.scheduledjobs = sched.head? := Spells.head_eq h.scheduled
  have hr : os.runnablejobs = run.head? := Spells.head_eq h.runnable
  cases run with
  | cons j run =>
    have h' : ({ os with runnablejobs := os.next j } : OS J F).Holds sched run :=
      ⟨h.scheduled, h.runnable.2,
        h.nodup.sublist ((List.sublist_cons_self j run).append_left sched)⟩
    exact ⟨some j, _, sched, run, by simp [osTakeJob, hr], h', .inr ⟨j, rfl, .inl ⟨rfl, rfl⟩⟩,
      List.Sublist.refl _, List.sublist_cons_self j run, rfl⟩
  | nil =>
    cases sched with
    | nil =>
      exact ⟨none, os, [], [], by simp [osTakeJob, hr, hs], h, .inl ⟨rfl, rfl, rfl⟩,
        List.Sublist.refl _, List.Sublist.refl _, rfl⟩
    | cons j sched =>
      by_cases hdue : os.deadline j ≤ ticks
      · have h' : ({ os with scheduledjobs := os.next j } : OS J F).Holds sched [] :=
          ⟨h.scheduled.2, h.runnable, h.nodup.sublist (List.sublist_cons_self _ _)⟩
        exact ⟨some j, _, sched, [], by simp [osTakeJob, hr, hs, hdue], h',
          .inr ⟨j, rfl, .inr ⟨rfl, rfl, rfl⟩⟩, List.sublist_cons_self _ _, List.Sublist.refl _, rfl⟩
      · exact ⟨none, os, j :: sched, [], by simp [osTakeJob, hr, hs, hdue], h,
          .inl ⟨rfl, rfl, rfl⟩, List.Sublist.refl _, List.Sublist.refl _, rfl⟩

/-- The step lemma: a call returns, does to the queues what it should, and keeps
    the first one in order exactly if it is timely. -/
theorem Op.run_spec (h : os.Holds sched run) (hsched : sched.length < fuel)
    (hrun : run.length < fuel) (op : Op J F) :
    ∃ taken os' sched' run', op.run fuel os = .ok (taken, os') ∧ os'.Holds sched' run' ∧
      op.Effect sched run sched' run' taken ∧
      sched'.length ≤ sched.length + 1 ∧ run'.length ≤ run.length + 1 ∧
      (os.Sorted → (os'.Sorted ↔ op.Timely os)) := by
  cases op with
  | clearCallback job =>
    obtain ⟨os', hclear, h', hdeadline⟩ := osClearCallback_spec h hsched hrun job
    refine ⟨none, os', _, _, by simp [Op.run, hclear], h', ⟨rfl, rfl, rfl⟩,
      List.length_erase_le.trans (Nat.le_succ _), List.length_erase_le.trans (Nat.le_succ _),
      fun hsorted => ?_⟩
    exact iff_of_true (hsorted.sublist h h' hdeadline List.erase_sublist) trivial
  | setCallback job cb =>
    obtain ⟨os', hset, h', hdeadline⟩ := osSetCallback_spec h hsched hrun job cb
    refine ⟨none, os', _, _, by simp [Op.run, hset], h', ⟨rfl, rfl, rfl⟩,
      List.length_erase_le.trans (Nat.le_succ _), ?_, fun hsorted => ?_⟩
    · rw [List.length_append]
      exact Nat.succ_le_succ List.length_erase_le
    · exact iff_of_true (hsorted.sublist h h' hdeadline List.erase_sublist) trivial
  | setTimedCallback job time cb =>
    obtain ⟨os', hset, h', hdeadline⟩ := osSetTimedCallback_spec h hsched hrun job time cb
    have hnodup : sched.Nodup := (List.nodup_append.mp h.nodup).1
    have hnew : job ∉ sched.erase job := hnodup.not_mem_erase
    refine ⟨none, os', _, _, by simp [Op.run, hset], h', ⟨?_, ?_, rfl, rfl⟩, ?_,
      List.length_erase_le.trans (Nat.le_succ _), fun hsorted => ?_⟩
    · exact List.mem_append_right _ List.mem_cons_self
    · rw [List.erase_append_right _ fun hx => hnew (List.takeWhile_subset _ hx),
        List.erase_cons_head, List.takeWhile_append_dropWhile]
    · have hlen := congrArg List.length (List.takeWhile_append_dropWhile
        (p := fun x => decide (os.deadline x = time)) (l := sched.erase job))
      rw [List.length_append] at hlen
      have hle := List.length_erase_le (a := job) (l := sched)
      rw [List.length_append, List.length_cons]
      omega
    · rw [h'.sorted_iff, hdeadline,
        pairwise_insert_iff hnew ((hsorted sched h.scheduled).sublist List.erase_sublist)]
      constructor
      · intro hle sched' hsched' x hx hne
        rw [← Spells.unique h.scheduled hsched'] at hx
        exact hle x ((List.mem_erase_of_ne hne).mpr hx)
      · intro htimely x hx
        have hne : x ≠ job := fun heq => hnew (heq ▸ hx)
        exact htimely sched h.scheduled x (List.mem_of_mem_erase hx) hne
  | takeJob ticks =>
    obtain ⟨taken, os', sched', run', htake, h', heffect, hsched', hrun', hdeadline⟩ :=
      osTakeJob_spec h ticks
    refine ⟨taken, os', sched', run', congrArg Except.ok htake, h', heffect,
      hsched'.length_le.trans (Nat.le_succ _), hrun'.length_le.trans (Nat.le_succ _),
      fun hsorted => ?_⟩
    exact iff_of_true (hsorted.sublist h h' hdeadline hsched') trivial

/-- The run lemma. -/
theorem runOps_spec (h : os.Holds sched run) {ops : List (Op J F)}
    (hsched : sched.length + ops.length < fuel) (hrun : run.length + ops.length < fuel) :
    ∃ os' sched' run', runOps fuel os ops = .ok os' ∧ os'.Holds sched' run' ∧
      sched'.length ≤ sched.length + ops.length ∧ run'.length ≤ run.length + ops.length ∧
      (os.Sorted → (AllSorted fuel os ops ↔ AllTimely fuel os ops)) := by
  induction ops generalizing os sched run with
  | nil =>
    exact ⟨os, sched, run, rfl, h, le_rfl, le_rfl, fun hsorted => iff_of_true hsorted trivial⟩
  | cons op ops ih =>
    rw [List.length_cons] at hsched hrun
    obtain ⟨taken, os₁, sched₁, run₁, hop, h₁, -, hlen, hlen', hiff⟩ :=
      op.run_spec h (show sched.length < fuel by omega) (by omega)
    obtain ⟨os', sched', run', hops, h', hle, hle', hrest⟩ := ih h₁ (by omega) (by omega)
    refine ⟨os', sched', run', ?_, h', ?_, ?_, fun hsorted => ?_⟩
    · rw [runOps, hop, ok_bind]
      exact hops
    · rw [List.length_cons]
      omega
    · rw [List.length_cons]
      omega
    · -- the call has only this one result
      have hnext {P : OS J F → Prop} :
          (∀ taken os', op.run fuel os = .ok (taken, os') → P os') ↔ P os₁ := by
        constructor
        · exact fun hall => hall taken os₁ hop
        · intro hP taken' os'' hop'
          obtain ⟨-, rfl⟩ := Prod.mk.inj (Except.ok.inj (hop.symm.trans hop'))
          exact hP
      rw [AllSorted, AllTimely, hnext, hnext]
      constructor
      · rintro ⟨-, hall⟩
        have hsorted₁ : os₁.Sorted := by
          cases ops with
          | nil => exact hall
          | cons op' ops => exact hall.1
        exact ⟨(hiff hsorted).mp hsorted₁, (hrest hsorted₁).mp hall⟩
      · rintro ⟨htimely, hall⟩
        exact ⟨hsorted, (hrest ((hiff hsorted).mpr htimely)).mpr hall⟩

/-- The queues after any calls.  Every job is in at most one of them and at most
    once, and the next call returns and does to them what it should.  The first
    one is in order in every state of the run exactly if every call is timely. -/
theorem runQueue_sorted_iff (os₀ : OS J F) (fuel : Nat) (ops : List (Op J F))
    (hfuel : ops.length < fuel) :
    ∃ os sched run, runOps fuel (osInit os₀) ops = .ok os ∧ os.Holds sched run ∧
      (∀ op : Op J F, ∃ taken os' sched' run', op.run fuel os = .ok (taken, os') ∧
        os'.Holds sched' run' ∧ op.Effect sched run sched' run' taken) ∧
      (AllSorted fuel (osInit os₀) ops ↔ AllTimely fuel (osInit os₀) ops) := by
  have hinit : (osInit os₀).Holds [] [] := ⟨rfl, rfl, List.nodup_nil⟩
  have hsorted : (osInit os₀).Sorted := hinit.sorted_iff.mpr List.Pairwise.nil
  have hroom : ([] : List J).length + ops.length < fuel := by simpa using hfuel
  obtain ⟨os, sched, run, hrun, h, hlen, hlen', hiff⟩ := runOps_spec hinit hroom hroom
  rw [List.length_nil, Nat.zero_add] at hlen hlen'
  refine ⟨os, sched, run, hrun, h, fun op => ?_, hiff hsorted⟩
  obtain ⟨taken, os', sched', run', hop, h', heffect, -⟩ :=
    op.run_spec h (show sched.length < fuel by omega) (by omega)
  exact ⟨taken, os', sched', run', hop, h', heffect⟩

/-- Two jobs, of which the second is due first, and the run loop after that. -/
theorem runQueue_sorted_two :
    ∃ os sched run, runOps 4 (osInit ⟨none, none, fun _ => none, fun _ => 0, fun _ => ()⟩)
        [.setTimedCallback false 20 (), .setTimedCallback true 10 (), .takeJob 15] = .ok os ∧
      os.Holds sched run ∧
      (∀ op : Op Bool Unit, ∃ taken os' sched' run', op.run 4 os = .ok (taken, os') ∧
        os'.Holds sched' run' ∧ op.Effect sched run sched' run' taken) ∧
      (AllSorted 4 (osInit ⟨none, none, fun _ => none, fun _ => 0, fun _ => ()⟩)
          [.setTimedCallback false 20 (), .setTimedCallback true 10 (), .takeJob 15] ↔
        AllTimely 4 (osInit ⟨none, none, fun _ => none, fun _ => 0, fun _ => ()⟩)
          [.setTimedCallback false 20 (), .setTimedCallback true 10 (), .takeJob 15]) :=
  runQueue_sorted_iff ⟨none, none, fun _ => none, fun _ => 0, fun _ => ()⟩ 4 _ (by decide)

/-- A job due at 20 is put before one due at 10. -/
theorem not_sorted_two :
    ¬ AllSorted 3 (osInit ⟨none, none, fun _ => none, fun _ => 0, fun _ => ()⟩ : OS Bool Unit)
      [.setTimedCallback false 10 (), .setTimedCallback true 20 ()] := by
  intro h
  have hsorted := (h.2 none _ rfl).2 none _ rfl
  have hpairwise := hsorted [true, false] ⟨rfl, rfl, rfl⟩
  have hle : (20 : BitVec 64) ≤ 10 := (List.pairwise_cons.mp hpairwise).1 false (by simp)
  exact absurd hle (by decide)

end Order

end LuaRtos.Lmic
