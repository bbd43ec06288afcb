/-
  LuaRtos.Pthread.Join

  `_pthread_join(t)` in one thread against the end of the task of `t`, every
  step of either between the steps of the other.

  The joiner looks the thread up, allocates a join structure and a queue, puts
  the structure on the join list of the thread and waits on the queue.  The
  ending task walks that list once, sends to the queues it finds, and then
  destroys the list with its structures and frees the thread.  No lock is held
  over any of this; only the list operations themselves are atomic.

  Where the joiner goes through memory that is gone it ends in
  `JoinPc.faulted`.  The ending task has no step where it would (the array of a
  join list that did not grow for want of memory).
-/

import LuaRtos.Lts.Progress
import LuaRtos.Sys.List

namespace LuaRtos.Pthread

open LuaRtos.CLib LuaRtos.Sys

/-- What has become of a block of memory. -/
inductive Block where
  | absent
  | live
  | freed
deriving DecidableEq, Repr

/-- Where the joiner is in `_pthread_join`. -/
inductive JoinPc where
  /-- Before `list_get(&thread_list, ..)`. -/
  | lookup
  /-- Before the `malloc` of the join structure. -/
  | alloc
  /-- Before `xQueueCreate`. -/
  | create
  /-- Before `list_add(&thread->join_list, ..)`. -/
  | add
  /-- Before `join->queue` is read. -/
  | load
  /-- In `xQueueReceive`. -/
  | wait
  | done (e : Errno)
  | faulted (f : Fault)
deriving DecidableEq, Repr

/-- Where the task of `t` is in `pthreadTask`. -/
inductive EndPc where
  /-- In the start routine. -/
  | run
  /-- Before `list_first(&thread->join_list)`. -/
  | first
  /-- Before `list_get` of entry `i` and `xQueueSend` to its queue. -/
  | send (i : Int)
  /-- Before `list_next`. -/
  | next (i : Int)
  /-- Before the clean list is executed. -/
  | clean
  /-- In `_pthread_free`: before `list_destroy(&thread->join_list, 1)`. -/
  | destroy
  /-- Before `list_remove(&thread_list, id, 1)`. -/
  | remove
  | ended
deriving DecidableEq, Repr

/-- The thread `t`, the one join structure with its queue, and where both
    parties are. -/
structure JoinState where
  /-- `thread_list` has an entry for `t`. -/
  listed : Bool
  /-- The `struct pthread` of `t`. -/
  thread : Block
  /-- `thread->join_list`, whose only item can be the structure of the joiner. -/
  joinList : CList Unit
  /-- `thread->join_list` has been destroyed. -/
  destroyed : Bool
  /-- The `struct pthread_join` of the joiner. -/
  join : Block
  /-- The messages in `join->queue`, once it is created. -/
  queue : Option Nat
  joiner : JoinPc
  ender : EndPc

/-- A step of the joiner, with the memory it gets if it asks for some, or of the
    ending task. -/
inductive JoinAct where
  | joiner (mem : Option (Nat → ListIndex Unit))
  | ender

/-- The next step of `_pthread_join`. -/
def joinerStep (s : JoinState) (mem : Option (Nat → ListIndex Unit)) : Option JoinState :=
  match s.joiner with
  | .lookup => some { s with joiner := if s.listed then .alloc else .done .einval }
  | .alloc =>
    if mem.isSome then some { s with join := .live, joiner := .create }
    else some { s with joiner := .done .esrch }
  | .create =>
    if mem.isSome then some { s with queue := some 0, joiner := .add }
    else some { s with join := .freed, joiner := .done .esrch }
  | .add =>
    -- the list is inside the thread structure, its mutex gone after `list_destroy`
    if s.thread ≠ .live ∨ s.destroyed then some { s with joiner := .faulted .useAfterFree }
    else
      match listAdd s.joinList () mem with
      | .error f => some { s with joiner := .faulted f }
      | .ok r =>
        if r.ret = .success then some { s with joinList := r.list, joiner := .load }
        else some { s with
          joinList := r.list, queue := none, join := .freed, joiner := .done .esrch }
  | .load =>
    if s.join = .live then some { s with joiner := .wait }
    else some { s with joiner := .faulted .useAfterFree }
  | .wait =>
    match s.queue with
    | some (n + 1) => some { s with queue := some n, joiner := .done .success }
    | _ => none
  | .done _ | .faulted _ => none

/-- The loop over the join list goes on at entry `i`, or has ended. -/
def joinWalk (i : Int) : EndPc := if i ≥ 0 then .send i else .clean

/-- The next step of the end of `pthreadTask`. -/
def enderStep (s : JoinState) : Option JoinState :=
  match s.ender with
  | .run => some { s with ender := .first }
  | .first =>
    match listFirst s.joinList with
    | .ok i => some { s with ender := joinWalk i }
    | .error _ => none
  | .send i =>
    match listGet s.joinList i, s.join, s.queue with
    -- the queue takes one message
    | .ok (.success, some ()), .live, some 0 => some { s with queue := some 1, ender := .next i }
    | _, _, _ => none
  | .next i =>
    match listNext s.joinList i with
    | .ok j => some { s with ender := joinWalk j }
    | .error _ => none
  | .clean => some { s with ender := .destroy }
  | .destroy =>
    match listDestroy s.joinList true with
    | .ok items => some { s with
        join := if items = [] then s.join else .freed, destroyed := true, ender := .remove }
    | .error _ => none
  | .remove => some { s with listed := false, thread := .freed, ender := .ended }
  | .ended => none

def joinStep (s : JoinState) : JoinAct → Option JoinState
  | .joiner mem => joinerStep s mem
  | .ender => enderStep s

/-- `t` is running and nobody has joined it yet. -/
def joinInit : JoinState where
  listed := true
  thread := .live
  joinList := listInit 1
  destroyed := false
  join := .absent
  queue := none
  joiner := .lookup
  ender := .run

/-- All interleavings. -/
def joinSys : Lts JoinState JoinAct := .ofStep joinInit joinStep

/-- What is expected of a join, over the runs whose steps meet `ok`. -/
structure JoinOk (ok : JoinState → JoinAct → Prop) (s : JoinState) : Prop where
  /-- The joiner touches no memory that is gone. -/
  noFault : ∀ f, s.joiner ≠ .faulted f
  /-- It does not wait on an empty queue once `t` is freed. -/
  notLost : ¬ (s.thread = .freed ∧ s.joiner = .wait ∧ s.queue = some 0)
  /-- It comes to its end, with the notification or an error. -/
  returns : joinSys.Inevitably ok (fun s => ∃ e, s.joiner = .done e) s

/-! ## The orders that are safe -/

/-- Between `list_get` and `list_add`. -/
def JoinPc.between : JoinPc → Bool
  | .alloc | .create | .add => true
  | _ => false

/-- Before the walk over the join list. -/
def EndPc.before : EndPc → Bool
  | .run | .first => true
  | _ => false

/-- The walk begins while the joiner is not between lookup and registration, the
    joiner does not find the thread after that, and the join list is destroyed
    only once the joiner has read its queue. -/
def Orderly (s : JoinState) : JoinAct → Prop
  | .joiner _ => s.joiner = .lookup → s.listed = true → s.ender.before = true
  | .ender => (s.ender = .first → s.joiner.between = false) ∧
      (s.ender = .destroy → s.joiner ≠ .load)

instance (s : JoinState) (a : JoinAct) : Decidable (Orderly s a) :=
  match a with
  | .joiner _ => inferInstanceAs
      (Decidable (s.joiner = .lookup → s.listed = true → s.ender.before = true))
  | .ender => inferInstanceAs (Decidable ((s.ender = .first → s.joiner.between = false) ∧
      (s.ender = .destroy → s.joiner ≠ .load)))

/-! ## What one step keeps -/

/-- The join list before and after the registration of the joiner. -/
def noJoins : CList Unit := listInit 1

def oneJoin : CList Unit := ⟨some ⟨0, [⟨(), 0, 0, none⟩]⟩, none, 1, 1⟩

/-- The messages that the ending task has sent. -/
def EndPc.sent : EndPc → Nat
  | .run | .first | .send _ => 0
  | .next _ | .clean | .destroy | .remove | .ended => 1

/-- In the walk, at no other entry than the first. -/
def EndPc.inWalk : EndPc → Prop
  | .send i | .next i => i = 1
  | _ => True

/-- Not in the walk. -/
def EndPc.outOfWalk : EndPc → Prop
  | .send _ | .next _ => False
  | _ => True

/-- After the join list is destroyed. -/
def EndPc.after : EndPc → Bool
  | .remove | .ended => true
  | _ => false

/-- What the joiner has built, by where it and the ending task are. -/
inductive JoinPlace : JoinPc → EndPc → CList Unit → Block → Option Nat → Prop
  | lookup {e : EndPc} (he : e.outOfWalk) : JoinPlace .lookup e noJoins .absent none
  | alloc {e : EndPc} (he : e.before = true) : JoinPlace .alloc e noJoins .absent none
  | create {e : EndPc} (he : e.before = true) : JoinPlace .create e noJoins .live none
  | add {e : EndPc} (he : e.before = true) : JoinPlace .add e noJoins .live (some 0)
  | load {e : EndPc} (he : e.inWalk) (hlive : e.after = false) :
      JoinPlace .load e oneJoin .live (some e.sent)
  | wait {e : EndPc} {b : Block} (he : e.inWalk) (hb : e.after = false → b = .live) :
      JoinPlace .wait e oneJoin b (some e.sent)
  | done {r : Errno} {e : EndPc} {l : CList Unit} {b : Block} {q : Option Nat} :
      JoinPlace (.done r) e l b q

/-- The invariant. -/
structure JoinInv (s : JoinState) : Prop where
  listed : s.listed = true ↔ s.ender ≠ .ended
  thread : s.thread = .live ↔ s.ender ≠ .ended
  destroyed : s.destroyed = s.ender.after
  place : JoinPlace s.joiner s.ender s.joinList s.join s.queue

/-- The steps that are left. -/
def JoinPc.rank : JoinPc → Nat
  | .lookup => 6
  | .alloc => 5
  | .create => 4
  | .add => 3
  | .load => 2
  | .wait => 1
  | .done _ | .faulted _ => 0

def EndPc.rank : EndPc → Nat
  | .run => 7
  | .first => 6
  | .send _ => 5
  | .next _ => 4
  | .clean => 3
  | .destroy => 2
  | .remove => 1
  | .ended => 0

def JoinState.rank (s : JoinState) : Nat := s.joiner.rank + s.ender.rank

variable {s s' : JoinState}

theorem listAdd_noJoins (f : Nat → ListIndex Unit) :
    listAdd noJoins () (some f) = .ok ⟨.success, some 1, oneJoin⟩ := rfl

/-- Before the walk the thread is there, and nothing is sent. -/
theorem EndPc.of_before {e : EndPc} (he : e.before = true) :
    e ≠ .ended ∧ e.after = false ∧ e.sent = 0 ∧ e.inWalk := by
  cases e <;> simp_all [EndPc.before, EndPc.after, EndPc.sent, EndPc.inWalk]

theorem joinerStep_keep (h : JoinInv s) {mem : Option (Nat → ListIndex Unit)}
    (hok : Orderly s (.joiner mem)) (hs : joinerStep s mem = some s') :
    JoinInv s' ∧ s'.rank < s.rank := by
  obtain ⟨hlisted, hthread, hdestroyed, hplace⟩ := h
  obtain ⟨listed, thread, joinList, destroyed, join, queue, joiner, ender⟩ := s
  dsimp only at hlisted hthread hdestroyed hplace
  have hgo {joiner' : JoinPc} {joinList' : CList Unit} {join' : Block} {queue' : Option Nat}
      (hp : JoinPlace joiner' ender joinList' join' queue') (hr : joiner'.rank < joiner.rank) :
      let s' : JoinState := ⟨listed, thread, joinList', destroyed, join', queue', joiner', ender⟩
      JoinInv s' ∧ s'.rank < JoinState.rank
        ⟨listed, thread, joinList, destroyed, join, queue, joiner, ender⟩ := by
    refine ⟨⟨hlisted, hthread, hdestroyed, hp⟩, ?_⟩
    simp only [JoinState.rank]
    omega
  cases hplace with
  | lookup he =>
    cases hs
    by_cases hl : listed = true
    · -- by `hok` the walk has not begun
      rw [if_pos hl]
      exact hgo (.alloc (hok rfl hl)) (by simp [JoinPc.rank])
    · rw [if_neg hl]
      exact hgo .done (by simp [JoinPc.rank])
  | alloc he =>
    cases mem with
    | none =>
      cases hs
      exact hgo .done (by simp [JoinPc.rank])
    | some f =>
      cases hs
      exact hgo (.create he) (by simp [JoinPc.rank])
  | create he =>
    cases mem with
    | none =>
      cases hs
      exact hgo .done (by simp [JoinPc.rank])
    | some f =>
      cases hs
      exact hgo (.add he) (by simp [JoinPc.rank])
  | add he =>
    -- before the walk the thread structure is there, with its list
    obtain ⟨hended, hafter, hsent, hwalk⟩ := EndPc.of_before he
    have hthere : ¬ (thread ≠ .live ∨ destroyed = true) := by
      rw [Ne, hthread, hdestroyed, hafter]
      simp [hended]
    simp only [joinerStep, if_neg hthere] at hs
    cases mem with
    | none =>
      cases hs
      exact hgo .done (by simp [JoinPc.rank])
    | some f =>
      rw [listAdd_noJoins] at hs
      cases hs
      have hplace := JoinPlace.load hwalk hafter
      rw [hsent] at hplace
      exact hgo hplace (by simp [JoinPc.rank])
  | load he hlive =>
    cases hs
    exact hgo (.wait he fun _ => rfl) (by simp [JoinPc.rank])
  | wait he hb =>
    simp only [joinerStep] at hs
    split at hs
    · cases hs
      exact hgo .done (by simp [JoinPc.rank])
    · cases hs
  | done => cases hs

/-- A step of the ending task outside its walk. -/
theorem JoinPlace.go {j : JoinPc} {e e' : EndPc} {l : CList Unit} {b : Block} {q : Option Nat}
    (h : JoinPlace j e l b q) (hsent : e.sent = e'.sent) (hafter : e.after = e'.after)
    (hbefore : e.before = e'.before) (hout : e'.outOfWalk) (hin : e'.inWalk) :
    JoinPlace j e' l b q := by
  cases h with
  | lookup he => exact .lookup hout
  | alloc he => exact .alloc (hbefore ▸ he)
  | create he => exact .create (hbefore ▸ he)
  | add he => exact .add (hbefore ▸ he)
  | load he hlive =>
    rw [hsent]
    exact .load hin (hafter ▸ hlive)
  | wait he hb =>
    rw [hsent]
    exact .wait hin (hafter ▸ hb)
  | done => exact .done

/-- A joiner that waits finds in its queue what was sent. -/
theorem JoinPlace.wait_queue {e : EndPc} {l : CList Unit} {b : Block} {q : Option Nat}
    (h : JoinPlace .wait e l b q) : q = some e.sent := by
  cases h
  rfl

/-- The walk begins: without a joiner it ends at once, else it finds the one. -/
theorem JoinPlace.first {j : JoinPc} {l : CList Unit} {b : Block} {q : Option Nat} {i : Int}
    (h : JoinPlace j .first l b q) (hok : j.between = false) (hi : listFirst l = .ok i) :
    JoinPlace j (joinWalk i) l b q := by
  cases h with
  | lookup he =>
    cases hi
    exact .lookup trivial
  | alloc | create | add =>
    -- between lookup and registration: these orders are left out
    cases hok
  | load he hlive =>
    cases hi
    exact .load (e := .send 1) rfl rfl
  | wait he hb =>
    cases hi
    exact .wait (e := .send 1) rfl fun _ => hb rfl
  | done => exact .done

/-- The message is sent. -/
theorem JoinPlace.send {j : JoinPc} {l : CList Unit} {b : Block} {q : Option Nat} {i : Int}
    (h : JoinPlace j (.send i) l b q) : JoinPlace j (.next i) l b (some 1) := by
  cases h with
  | lookup he => exact he.elim
  | alloc he | create he | add he => cases he
  | load he hlive => exact .load (e := .next i) he rfl
  | wait he hb => exact .wait (e := .next i) he fun _ => hb rfl
  | done => exact .done

/-- The walk ends after the one entry. -/
theorem JoinPlace.next {j : JoinPc} {l : CList Unit} {b : Block} {q : Option Nat} {i k : Int}
    (h : JoinPlace j (.next i) l b q) (hk : listNext l i = .ok k) :
    JoinPlace j (joinWalk k) l b q ∧ ((∀ r, j ≠ .done r) → joinWalk k = .clean) := by
  cases h with
  | lookup he => exact he.elim
  | alloc he | create he | add he => cases he
  | load he hlive =>
    obtain rfl : i = 1 := he
    cases hk
    exact ⟨.load (e := .clean) trivial rfl, fun _ => rfl⟩
  | wait he hb =>
    obtain rfl : i = 1 := he
    cases hk
    exact ⟨.wait (e := .clean) trivial fun _ => hb rfl, fun _ => rfl⟩
  | done => exact ⟨.done, fun hne => absurd rfl (hne _)⟩

/-- The join list is destroyed, once the joiner no longer needs its structure. -/
theorem JoinPlace.destroy {j : JoinPc} {l : CList Unit} {b : Block} {q : Option Nat}
    {items : List Unit} (h : JoinPlace j .destroy l b q) (hok : j ≠ .load)
    (hitems : listDestroy l true = .ok items) :
    JoinPlace j .remove l (if items = [] then b else .freed) q := by
  cases h with
  | lookup he =>
    cases hitems
    exact .lookup trivial
  | alloc he | create he | add he => cases he
  | load => exact absurd rfl hok
  | wait he hb => exact .wait (e := .remove) trivial fun hne => nomatch hne
  | done => exact .done

theorem enderStep_keep (h : JoinInv s) (hok : Orderly s .ender) (hs : enderStep s = some s') :
    JoinInv s' ∧ ((∀ r, s.joiner ≠ .done r) → s'.rank < s.rank) := by
  obtain ⟨hlisted, hthread, hdestroyed, hplace⟩ := h
  obtain ⟨listed, thread, joinList, destroyed, join, queue, joiner, ender⟩ := s
  dsimp only at hlisted hthread hdestroyed hplace
  have hjoinWalk (i : Int) : joinWalk i ≠ .ended ∧ (joinWalk i).after = false ∧
      (joinWalk i).rank ≤ 5 := by
    by_cases hi : i ≥ 0
    · rw [joinWalk, if_pos hi]
      exact ⟨nofun, rfl, Nat.le_refl 5⟩
    · rw [joinWalk, if_neg hi]
      exact ⟨nofun, rfl, by simp [EndPc.rank]⟩
  cases ender with
  | run =>
    cases hs
    refine ⟨⟨by simpa using hlisted, by simpa using hthread, hdestroyed, ?_⟩, fun _ => ?_⟩
    · exact hplace.go rfl rfl rfl trivial trivial
    · simp [JoinState.rank, EndPc.rank]
  | first =>
    simp only [enderStep] at hs
    split at hs
    · next i hi =>
      cases hs
      obtain ⟨hne, hafter, hrank⟩ := hjoinWalk i
      refine ⟨⟨?_, ?_, ?_, hplace.first (hok.1 rfl) hi⟩, fun _ => ?_⟩
      · simpa [hne] using hlisted
      · simpa [hne] using hthread
      · exact hdestroyed.trans hafter.symm
      · show joiner.rank + (joinWalk i).rank < joiner.rank + 6
        omega
    · cases hs
  | send i =>
    simp only [enderStep] at hs
    split at hs
    · cases hs
      refine ⟨⟨by simpa using hlisted, by simpa using hthread, hdestroyed, hplace.send⟩,
        fun _ => ?_⟩
      simp [JoinState.rank, EndPc.rank]
    · cases hs
  | next i =>
    simp only [enderStep] at hs
    split at hs
    · -- with a joiner that waits the walk is over, and the rank falls by one
      next k hk =>
      cases hs
      obtain ⟨hne, hafter, -⟩ := hjoinWalk k
      obtain ⟨hplace, hclean⟩ := hplace.next hk
      refine ⟨⟨?_, ?_, ?_, hplace⟩, fun hnd => ?_⟩
      · simpa [hne] using hlisted
      · simpa [hne] using hthread
      · exact hdestroyed.trans hafter.symm
      · simp [JoinState.rank, hclean hnd, EndPc.rank]
    · cases hs
  | clean =>
    cases hs
    refine ⟨⟨by simpa using hlisted, by simpa using hthread, hdestroyed, ?_⟩, fun _ => ?_⟩
    · exact hplace.go rfl rfl rfl trivial trivial
    · simp [JoinState.rank, EndPc.rank]
  | destroy =>
    simp only [enderStep] at hs
    split at hs
    · next items hitems =>
      cases hs
      refine ⟨⟨by simpa using hlisted, by simpa using hthread, rfl,
        hplace.destroy (hok.2 rfl) hitems⟩, fun _ => ?_⟩
      simp [JoinState.rank, EndPc.rank]
    · cases hs
  | remove =>
    cases hs
    refine ⟨⟨by simp, by simp, hdestroyed, ?_⟩, fun _ => ?_⟩
    · exact hplace.go rfl rfl rfl trivial trivial
    · simp [JoinState.rank, EndPc.rank]
  | ended => cases hs

theorem joinStep_keep (h : JoinInv s) {a : JoinAct} (hok : Orderly s a)
    (hs : joinStep s a = some s') :
    JoinInv s' ∧ ((∀ r, s.joiner ≠ .done r) → s'.rank < s.rank) := by
  cases a with
  | joiner mem =>
    obtain ⟨hinv, hrank⟩ := joinerStep_keep h hok hs
    exact ⟨hinv, fun _ => hrank⟩
  | ender => exact enderStep_keep h hok hs

/-- As long as the joiner has not returned, it or the ending task can go on. -/
theorem joinStep_go (h : JoinInv s) (hdone : ∀ r, s.joiner ≠ .done r) :
    ∃ a s', Orderly s a ∧ joinStep s a = some s' := by
  obtain ⟨hlisted, hthread, hdestroyed, hplace⟩ := h
  obtain ⟨listed, thread, joinList, destroyed, join, queue, joiner, ender⟩ := s
  dsimp only at hlisted hthread hdestroyed hplace hdone
  cases hplace with
  | lookup he =>
    -- while the ending task is past its walk, the joiner has to wait for its end
    cases ender with
    | run | first => exact ⟨.joiner none, _, fun _ _ => rfl, rfl⟩
    | send i | next i => exact he.elim
    | clean | destroy | remove => exact ⟨.ender, _, ⟨nofun, nofun⟩, rfl⟩
    | ended =>
      refine ⟨.joiner none, _, fun _ hl => ?_, rfl⟩
      exact absurd rfl (hlisted.mp hl)
  | alloc he => exact ⟨.joiner none, _, nofun, rfl⟩
  | create he => exact ⟨.joiner none, _, nofun, rfl⟩
  | add he =>
    obtain ⟨hended, hafter, -⟩ := EndPc.of_before he
    have hthere : ¬ (thread ≠ .live ∨ destroyed = true) := by
      rw [Ne, hthread, hdestroyed, hafter]
      simp [hended]
    refine ⟨.joiner none, ?_⟩
    simp only [joinStep, joinerStep, if_neg hthere]
    exact ⟨_, nofun, rfl⟩
  | load he hlive => exact ⟨.joiner none, _, nofun, rfl⟩
  | wait he hb =>
    cases ender with
    | run | first => exact ⟨.ender, _, ⟨fun _ => rfl, nofun⟩, rfl⟩
    | send i =>
      obtain rfl : i = 1 := he
      obtain rfl := hb rfl
      exact ⟨.ender, _, ⟨nofun, nofun⟩, rfl⟩
    | next | clean | destroy | remove | ended => exact ⟨.joiner none, _, nofun, rfl⟩
  | done => exact absurd rfl (hdone _)

/-! ## Every run -/

theorem joinInv_init : JoinInv joinInit where
  listed := by simp [joinInit]
  thread := by simp [joinInit]
  destroyed := rfl
  place := .lookup trivial

theorem joinInv_reach (h : joinSys.Reach Orderly s) : JoinInv s := by
  refine Lts.Reach.invariant ?_ ?_ h
  · rintro s rfl
    exact joinInv_init
  · exact fun _ _ _ hi hok hs => (joinStep_keep hi hok hs).1

/-- In the safe orders a join ends, with the notification or an error, and
    touches no memory that is gone. -/
theorem joinOk_of_orderly (h : joinSys.Reach Orderly s) : JoinOk Orderly s := by
  have hinv := joinInv_reach h
  refine ⟨fun f hf => ?_, fun ⟨hfreed, hwait, hqueue⟩ => ?_, ?_⟩
  · have hplace := hinv.place
    rw [hf] at hplace
    cases hplace
  · -- the thread is freed after the walk, so the message was sent
    have hended : s.ender = .ended := by
      by_contra hne
      rw [hinv.thread.mpr hne] at hfreed
      cases hfreed
    have hplace := hinv.place
    rw [hwait, hended] at hplace
    rw [hplace.wait_queue] at hqueue
    cases hqueue
  · refine Lts.Inevitably.of_rank (I := JoinInv) JoinState.rank ?_ ?_ hinv
    · intro s a s' hi hP hok hs
      obtain ⟨hi', hrank⟩ := joinStep_keep hi hok hs
      exact ⟨hi', hrank fun r hr => hP ⟨r, hr⟩⟩
    · exact fun s hi hP => joinStep_go hi fun r hr => hP ⟨r, hr⟩

/-- The joiner waits, the ending task has sent and freed everything. -/
theorem joinOk_of_orderly_sent : ∃ s, s.thread = .freed ∧ s.joiner = .wait ∧ JoinOk Orderly s :=
  let mem : Option (Nat → ListIndex Unit) := some fun _ => ⟨(), 0, 0, none⟩
  ⟨_, rfl, rfl, joinOk_of_orderly (Lts.Reach.schedule
    [.joiner mem, .joiner mem, .joiner mem, .joiner mem, .joiner mem,
      .ender, .ender, .ender, .ender, .ender, .ender, .ender] rfl)⟩

/-- The ending task looks at its join list just before the joiner registers:
    the joiner waits on its empty queue when the thread is freed. -/
theorem not_joinOk_late :
    ¬ ∀ s, joinSys.Reach (fun _ _ => True) s → JoinOk (fun _ _ => True) s := by
  intro h
  let mem : Option (Nat → ListIndex Unit) := some fun _ => ⟨(), 0, 0, none⟩
  have hok := h _ (Lts.Reach.schedule
    [.joiner mem, .joiner mem, .joiner mem, .ender, .ender,
      .joiner mem, .joiner mem, .ender, .ender, .ender] rfl)
  exact hok.notLost ⟨rfl, rfl, rfl⟩

end LuaRtos.Pthread
