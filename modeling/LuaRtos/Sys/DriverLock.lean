/-
  LuaRtos.Sys.DriverLock

  What `driver_lock` promises its callers, over any history of requests.

  Ownership is kept by every request: a table entry, once set, is never written
  again.  A request on a driver with a table is granted exactly when the entry
  is free or the caller's own, and a refusal is a new lock error that describes
  the conflict.

  A request on a driver without a table goes through `lock_resources`, and there
  the promise ends where that function fails: the lock error it answers with has
  been freed by `driver_lock_error`, or was never made, and the units locked
  before the failure stay locked.
-/

import LuaRtos.Drivers.Registry

namespace LuaRtos.Driver

open LuaRtos.CLib

variable {D : Type}

/-- No entry that has an owner in `s` differs in `s'`. -/
def DriverState.Keeps (s s' : DriverState D) : Prop :=
  ∀ d i, (s.locks d i).owner ≠ none → s'.locks d i = s.locks d i

theorem DriverState.Keeps.refl (s : DriverState D) : s.Keeps s := fun _ _ _ => rfl

theorem DriverState.Keeps.of_locks {s s' : DriverState D} (h : s'.locks = s.locks) :
    s.Keeps s' := fun d i _ => by rw [h]

theorem DriverState.Keeps.trans {s₁ s₂ s₃ : DriverState D} (h : s₁.Keeps s₂) (h' : s₂.Keeps s₃) :
    s₁.Keeps s₃ := by
  intro d i hown
  have h₂ : s₂.locks d i = s₁.locks d i := h d i hown
  rw [h' d i (by rwa [h₂]), h₂]

/-- `p` is a lock error that was made after `s` and describes a conflict in `s`:
    an entry, and an owner it is refused to. -/
def ValidLockError (s s' : DriverState D) (p : Nat) : Prop :=
  s.lockErrors[p]? = none ∧ ∃ e, s'.lockErrors[p]? = some (some e) ∧
    (s.locks e.lock.1 e.lock.2).RefusedTo e.ownerDriver e.ownerUnit

/-- Every lock error that is live in `s'` was so in `s`. -/
def DriverState.NoNewLockErrors (s s' : DriverState D) : Prop :=
  ∀ (p : Nat) (e : LockError D),
    s'.lockErrors[p]? = some (some e) → s.lockErrors[p]? = some (some e)

section Grant

variable [DecidableEq D] {s : DriverState D} {owner target d : D} {ownerUnit : Int} {i j : Nat}

theorem DriverState.grant_locks : (s.grant owner ownerUnit target i).locks d j =
    if d = target ∧ j = i then ⟨some owner, ownerUnit⟩ else s.locks d j := by
  by_cases hd : d = target
  · subst hd
    by_cases hj : j = i <;> simp [DriverState.grant, hj]
  · simp [DriverState.grant, hd]

/-- A free entry may be taken without anybody losing one. -/
theorem DriverState.keeps_grant (h : (s.locks target i).owner = none) :
    s.Keeps (s.grant owner ownerUnit target i) := by
  intro d j hown
  rw [grant_locks, if_neg]
  rintro ⟨rfl, rfl⟩
  exact hown h

/-- What `driver_lock` does on a driver with a table: the entry is the caller's
    already, or free and now the caller's, or somebody else's. -/
theorem lockUnit_cases {n : Nat} {unit : Int} {r : Option Nat} {s' : DriverState D}
    (h : lockUnit s owner ownerUnit target n unit = .ok (r, s')) :
    (0 ≤ unit ∧ unit < n) ∧
    ((s.locks target unit.toNat = ⟨some owner, ownerUnit⟩ ∧ r = none ∧ s' = s) ∨
     ((s.locks target unit.toNat).owner = none ∧ r = none ∧
        s' = s.grant owner ownerUnit target unit.toNat) ∨
     ((s.locks target unit.toNat).RefusedTo owner ownerUnit ∧ r = some s.lockErrors.length ∧
        s' = s.revoke owner ownerUnit target unit)) := by
  unfold lockUnit at h
  by_cases hr : 0 ≤ unit ∧ unit < n
  · rw [if_pos hr] at h
    refine ⟨hr, ?_⟩
    match hl : s.locks target unit.toNat with
    | ⟨none, u⟩ =>
      -- nobody owns the entry: `driver_lock` writes the caller into it
      simp only [hl, pure_eq_ok, Except.ok.injEq, Prod.mk.injEq] at h
      exact .inr (.inl ⟨rfl, h.1.symm, h.2.symm⟩)
    | ⟨some o, u⟩ =>
      by_cases hme : o = owner ∧ u = ownerUnit
      · simp only [hl, if_pos hme, pure_eq_ok, Except.ok.injEq, Prod.mk.injEq] at h
        exact .inl ⟨by rw [hme.1, hme.2], h.1.symm, h.2.symm⟩
      · simp only [hl, if_neg hme, pure_eq_ok, Except.ok.injEq, Prod.mk.injEq] at h
        exact .inr (.inr ⟨by simpa [UnitLock.RefusedTo, UnitLock.GrantsTo] using hme,
          h.1.symm, h.2.symm⟩)
  · -- the index is not checked: the access is out of bounds
    rw [if_neg hr] at h
    cases h

/-- Inside the table `driver_lock` always returns. -/
theorem lockUnit_total (s : DriverState D) (owner : D) (ownerUnit : Int) (target : D) {n : Nat}
    {unit : Int} (h : 0 ≤ unit ∧ unit < n) :
    ∃ r s', lockUnit s owner ownerUnit target n unit = .ok (r, s') := by
  unfold lockUnit
  rw [if_pos h]
  match hl : s.locks target unit.toNat with
  | ⟨none, u⟩ => exact ⟨_, _, rfl⟩
  | ⟨some o, u⟩ =>
    by_cases hme : o = owner ∧ u = ownerUnit
    · exact ⟨none, s, by simp [hme]⟩
    · exact ⟨_, _, by simp only [if_neg hme]; rfl⟩

end Grant

/-! ## A call of `lock_resources` -/

section Steps

variable [DecidableEq D] {R : Registry D} {mem : Option (DriverError D)} {owner : D}
  {ownerUnit : Int} {steps : List (LockStep D)} {s s' : DriverState D} {r : Option Nat}

/-- Taking an entry does not take it from its new owner. -/
theorem UnitLock.GrantsTo.grant {d target : D} {i j : Nat}
    (h : (s.locks d j).GrantsTo owner ownerUnit) :
    ((s.grant owner ownerUnit target i).locks d j).GrantsTo owner ownerUnit := by
  rw [DriverState.grant_locks]
  split
  · exact .inr rfl
  · exact h

theorem LockStep.Succeeds.grant {step : LockStep D} {target : D} {i : Nat}
    (h : step.Succeeds R s owner ownerUnit) :
    step.Succeeds R (s.grant owner ownerUnit target i) owner ownerUnit := by
  cases step with
  | lock t u => exact ⟨h.1, h.2.grant⟩
  | error e m => exact h.elim
  | fault f => exact h.elim

omit [DecidableEq D] in
/-- `driver_lock_error` frees the lock error, and touches no lock table. -/
theorem driverLockError_cases {p : Nat} (h : driverLockError s mem p = .ok (r, s')) :
    s'.locks = s.locks ∧ s'.lockErrors = s.lockErrors.set p none ∧
    (mem = none ∧ r = none ∧ s'.errors = s.errors ∨
      ∃ block, mem = some block ∧ r = some s.errors.length ∧
        s'.errors = s.errors.alloc { block with type := .lock, lockError := p }) := by
  unfold driverLockError at h
  obtain ⟨lockErrors, hfree, hok⟩ := bind_eq_ok.mp h
  obtain ⟨-, rfl⟩ := Heap.free_eq_ok.mp hfree
  cases mem with
  | none =>
    -- `malloc` has failed, and the lock error is freed all the same
    simp only [pure_eq_ok, Except.ok.injEq, Prod.mk.injEq] at hok
    obtain ⟨rfl, rfl⟩ := hok
    exact ⟨rfl, rfl, .inl ⟨rfl, rfl, rfl⟩⟩
  | some block =>
    simp only [pure_eq_ok, Except.ok.injEq, Prod.mk.injEq] at hok
    obtain ⟨rfl, rfl⟩ := hok
    exact ⟨rfl, rfl, .inr ⟨block, rfl, rfl, rfl⟩⟩

omit [DecidableEq D] in
theorem driverLockError_total (mem : Option (DriverError D)) {p : Nat} (h : s.lockErrors.Live p) :
    ∃ r s', driverLockError s mem p = .ok (r, s') := by
  unfold driverLockError
  rw [Heap.free_eq_ok.mpr ⟨h, rfl⟩]
  exact ⟨_, _, rfl⟩

omit [DecidableEq D] in
/-- The other driver errors touch neither a lock table nor a lock error. -/
theorem driverError_tables {type : ErrorType} {exception : Int} {msg : Option String}
    (h : driverError type s mem owner exception msg = (r, s')) :
    s'.locks = s.locks ∧ s'.lockErrors = s.lockErrors := by
  unfold driverError at h
  cases mem with
  | none =>
    obtain ⟨-, rfl⟩ := Prod.mk.inj h
    exact ⟨rfl, rfl⟩
  | some block =>
    obtain ⟨-, rfl⟩ := Prod.mk.inj h
    exact ⟨rfl, rfl⟩

omit [DecidableEq D] in
/-- The error they return is of their type. -/
theorem driverError_type {type : ErrorType} {exception : Int} {msg : Option String} {p : Nat}
    {e : DriverError D} (h : driverError type s mem owner exception msg = (some p, s'))
    (he : s'.errors[p]? = some (some e)) : e.type = type := by
  unfold driverError at h
  cases mem with
  | none => cases h
  | some block =>
    obtain ⟨hp, rfl⟩ := Prod.mk.inj h
    obtain rfl := Option.some.inj hp
    rw [Heap.getElem?_alloc_self] at he
    obtain rfl := Option.some.inj (Option.some.inj he)
    rfl

omit [DecidableEq D] in
/-- A lock error that has just been made and given to `driver_lock_error` is gone. -/
theorem lockError_of_revoked {h : Heap (LockError D)} {a e : LockError D} {p : Nat}
    (hp : ((h.alloc a).set h.length none)[p]? = some (some e)) : h[p]? = some (some e) := by
  rw [List.getElem?_set] at hp
  split at hp
  · simp at hp
  · next hne =>
    have hlt : p < (h.alloc a).length := (List.getElem?_eq_some_iff.mp hp).1
    rw [Heap.length_alloc] at hlt
    rwa [Heap.getElem?_alloc_of_lt (by omega)] at hp

/-- What a call of `lock_resources` leaves: every owner what it had, and no lock
    error that was not there before. -/
theorem lockSteps_keeps (h : lockSteps R mem owner ownerUnit s steps = .ok (r, s')) :
    s.Keeps s' ∧ s.NoNewLockErrors s' := by
  induction steps generalizing s with
  | nil =>
    obtain ⟨-, rfl⟩ := Prod.mk.inj (Except.ok.inj h)
    exact ⟨.refl s, fun _ _ => id⟩
  | cons step rest ih =>
    cases step with
    | lock target unit =>
      obtain ⟨⟨lockError, s₁⟩, hlock, hrest⟩ := bind_eq_ok.mp h
      obtain ⟨-, ⟨-, rfl, rfl⟩ | ⟨hfree, rfl, rfl⟩ | ⟨-, rfl, rfl⟩⟩ := lockUnit_cases hlock
      · exact ih hrest
      · -- the entry was free, so nobody loses it
        obtain ⟨hkeep, herr⟩ := ih hrest
        exact ⟨(DriverState.keeps_grant hfree).trans hkeep, herr⟩
      · -- the refusal makes a lock error, and `driver_lock_error` frees it
        obtain ⟨hlocks, herr, -⟩ := driverLockError_cases hrest
        refine ⟨.of_locks hlocks, fun p e hp => ?_⟩
        rw [herr] at hp
        exact lockError_of_revoked hp
    | error exception msg =>
      obtain ⟨hlocks, herr⟩ := driverError_tables (Except.ok.inj h)
      exact ⟨.of_locks hlocks, fun p e hp => by rwa [herr] at hp⟩
    | fault f => cases h

/-- A call all of whose actions succeed returns NULL. -/
theorem lockSteps_of_succeeds (mem : Option (DriverError D))
    (h : ∀ step ∈ steps, step.Succeeds R s owner ownerUnit) :
    ∃ s', lockSteps R mem owner ownerUnit s steps = .ok (none, s') := by
  induction steps generalizing s with
  | nil => exact ⟨s, rfl⟩
  | cons step rest ih =>
    have hrest : ∀ step ∈ rest, step.Succeeds R s owner ownerUnit :=
      fun step hs => h step (List.mem_cons_of_mem _ hs)
    have hstep : step.Succeeds R s owner ownerUnit := h step List.mem_cons_self
    cases step with
    | lock target unit =>
      obtain ⟨hrange, hgrant⟩ := hstep
      obtain ⟨lockError, s₁, hlock⟩ := lockUnit_total s owner ownerUnit target hrange
      rw [lockSteps, hlock, ok_bind]
      obtain ⟨-, ⟨-, rfl, rfl⟩ | ⟨-, rfl, rfl⟩ | ⟨href, -, -⟩⟩ := lockUnit_cases hlock
      · exact ih hrest
      · -- the new owner is the one the rest of the actions are for
        exact ih fun step hs => (hrest step hs).grant
      · exact absurd hgrant href
    | error e m => exact hstep.elim
    | fault f => exact hstep.elim

end Steps

/-! ## A request -/

/-- A request, with the block `malloc` would find for a driver error. -/
structure Request (D : Type) where
  mem : Option (DriverError D)
  owner : D
  ownerUnit : Int
  target : D
  unit : Int
deriving DecidableEq, Repr

/-- The unit lies within the target's table, if it has one. -/
def Request.InTable (R : Registry D) (q : Request D) : Prop :=
  ∀ n, R.lock q.target = some n → 0 ≤ q.unit ∧ q.unit < n

/-- What a request that answers `r` owes: owners are kept, a table entry is
    granted to the right ones, a driver without a table is refused exactly when
    its `lock_resources` fails, and a refusal is a valid lock error and changes
    no table. -/
structure Contract (R : Registry D) (s : DriverState D) (q : Request D) (r : Option Nat)
    (s' : DriverState D) : Prop where
  keeps : s.Keeps s'
  granted : (R.lock q.target).isSome →
    (r = none ↔ (s.locks q.target q.unit.toNat).GrantsTo q.owner q.ownerUnit)
  refused : R.lock q.target = none →
    (r ≠ none ↔ ∃ f, R.lockResources q.target = some f ∧ (f q.unit).Fails R s)
  error : ∀ p, r = some p → ValidLockError s s' p ∧ s'.locks = s.locks

section Requests

variable [DecidableEq D] {R : Registry D} {q : Request D} {s s' : DriverState D} {r : Option Nat}

/-- The call `driver_lock` of a request. -/
def Request.run (R : Registry D) (s : DriverState D) (q : Request D) :
    Result (Option Nat × DriverState D) :=
  driverLock R s q.mem q.owner q.ownerUnit q.target q.unit

/-- The request returns, and as it should. -/
def MeetsContract (R : Registry D) (s : DriverState D) (q : Request D) : Prop :=
  ∃ r s', q.run R s = .ok (r, s') ∧ Contract R s q r s'

/-- One request after the other; what they answer is looked at apart. -/
def runRequests (R : Registry D) (s : DriverState D) (qs : List (Request D)) :
    Result (DriverState D) :=
  qs.foldlM (fun s q => do
    let (_, s) ← q.run R s
    pure s) s

/-- A request on a driver with a table meets its contract. -/
theorem contract_of_table {n : Nat} (hn : R.lock q.target = some n)
    (h : q.run R s = .ok (r, s')) : Contract R s q r s' := by
  rw [Request.run, driverLock, hn] at h
  obtain ⟨-, hcases⟩ := lockUnit_cases h
  have hsome : R.lock q.target ≠ none := by simp [hn]
  obtain ⟨hown, rfl, rfl⟩ | ⟨hfree, rfl, rfl⟩ | ⟨href, rfl, rfl⟩ := hcases
  · exact ⟨.refl s', fun _ => by simp [hown, UnitLock.GrantsTo], fun hnone => absurd hnone hsome,
      nofun⟩
  · exact ⟨DriverState.keeps_grant hfree, fun _ => by simp [hfree, UnitLock.GrantsTo],
      fun hnone => absurd hnone hsome, nofun⟩
  · refine ⟨.of_locks rfl, fun _ => by simpa [UnitLock.RefusedTo] using href,
      fun hnone => absurd hnone hsome, ?_⟩
    rintro p ⟨⟩
    exact ⟨⟨by simp, _, Heap.getElem?_alloc_self, href⟩, rfl⟩

/-- A request on a driver without a table, and what it answers, comes from a
    call of `lock_resources` that keeps owners and leaves no new lock error. -/
theorem run_tableless (hn : R.lock q.target = none) (h : q.run R s = .ok (r, s')) :
    s.Keeps s' ∧ s.NoNewLockErrors s' := by
  rw [Request.run, driverLock, hn] at h
  cases hf : R.lockResources q.target with
  | none =>
    simp only [hf] at h
    obtain ⟨-, rfl⟩ := Prod.mk.inj (Except.ok.inj h)
    exact ⟨.refl s, fun _ _ => id⟩
  | some f =>
    simp only [hf] at h
    obtain ⟨⟨error, s₁⟩, hsteps, hrest⟩ := bind_eq_ok.mp h
    cases error with
    | none =>
      obtain ⟨-, rfl⟩ := Prod.mk.inj (Except.ok.inj hrest)
      exact lockSteps_keeps hsteps
    | some p =>
      -- `error->lock_error` is read, and what it points to is not
      obtain ⟨e, -, hret⟩ := bind_eq_ok.mp hrest
      obtain ⟨-, rfl⟩ := Prod.mk.inj (Except.ok.inj hret)
      exact lockSteps_keeps hsteps

/-- The step lemma: a request keeps every owner. -/
theorem run_keeps (h : q.run R s = .ok (r, s')) : s.Keeps s' := by
  cases hn : R.lock q.target with
  | some n => exact (contract_of_table hn h).keeps
  | none => exact (run_tableless hn h).1

/-- The run lemma: so does any sequence of requests. -/
theorem runRequests_keeps {qs : List (Request D)} (h : runRequests R s qs = .ok s') :
    s.Keeps s' := by
  induction qs generalizing s with
  | nil =>
    obtain rfl : s = s' := Except.ok.inj h
    exact .refl s
  | cons q qs ih =>
    rw [runRequests, List.foldlM_cons] at h
    obtain ⟨s₁, hq, hqs⟩ := bind_eq_ok.mp h
    obtain ⟨⟨r, s₂⟩, hrun, hret⟩ := bind_eq_ok.mp hq
    obtain rfl : s₂ = s₁ := Except.ok.inj hret
    exact (run_keeps hrun).trans (ih hqs)

/-- On a driver without a table the contract is met exactly when there is no
    `lock_resources` function or it succeeds. -/
theorem meetsContract_tableless (hn : R.lock q.target = none) :
    MeetsContract R s q ↔ ∀ f, R.lockResources q.target = some f → ¬ (f q.unit).Fails R s := by
  constructor
  · rintro ⟨r, s', hrun, hc⟩ f hf hfails
    have hr : r ≠ none := (hc.refused hn).mpr ⟨f, hf, hfails⟩
    obtain ⟨p, rfl⟩ := Option.ne_none_iff_exists'.mp hr
    -- the lock error would have to be new and live, but no new one is left
    obtain ⟨⟨hnew, e, hlive, -⟩, -⟩ := hc.error p rfl
    have hold : s.lockErrors[p]? = some (some e) := (run_tableless hn hrun).2 p e hlive
    simp [hold] at hnew
  · intro hok
    cases hf : R.lockResources q.target with
    | none =>
      -- neither a table nor a function: `driver_lock` returns NULL at once
      refine ⟨none, s, ?_, .refl s, by simp [hn], ?_, nofun⟩
      · simp [Request.run, driverLock, hn, hf]
      · simp [hf]
    | some f =>
      have hsucc : ∀ step ∈ (f q.unit).steps,
          step.Succeeds R s (f q.unit).owner (f q.unit).unit := by
        intro step hs
        by_contra hno
        exact hok f hf ⟨step, hs, hno⟩
      obtain ⟨s', hsteps⟩ := lockSteps_of_succeeds q.mem hsucc
      refine ⟨none, s', ?_, (lockSteps_keeps hsteps).1, by simp [hn], ?_, nofun⟩
      · simp [Request.run, driverLock, hn, hf, hsteps]
      · intro _
        refine ⟨fun h => absurd rfl h, ?_⟩
        rintro ⟨f', hf', hfails⟩
        obtain rfl : f = f' := Option.some.inj (hf.symm.trans hf')
        exact absurd hfails (hok f hf)

/-- After any sequence of requests every entry that was owned is owned as
    before, and the next request meets its contract exactly when its target has
    a table, or its `lock_resources` does not fail. -/
theorem driverLock_contract_iff {qs : List (Request D)} (hrun : runRequests R s qs = .ok s')
    (hq : q.InTable R) :
    s.Keeps s' ∧ (MeetsContract R s' q ↔ (R.lock q.target).isSome ∨
      ∀ f, R.lockResources q.target = some f → ¬ (f q.unit).Fails R s') := by
  refine ⟨runRequests_keeps hrun, ?_⟩
  cases hn : R.lock q.target with
  | none => simpa using meetsContract_tableless hn
  | some n =>
    have htotal : ∃ r s'', q.run R s' = .ok (r, s'') := by
      rw [Request.run, driverLock, hn]
      exact lockUnit_total _ _ _ _ (hq n hn)
    obtain ⟨r, s'', h⟩ := htotal
    simpa using ⟨r, s'', h, contract_of_table hn h⟩

/-- The contract where a stepper holds a pin of uart0 that is asked for directly. -/
theorem driverLock_contract_gpio :
    ∃ s, runRequests (drivers false) .start [⟨none, .stepper, 0, .gpio, 3⟩] = .ok s ∧
      DriverState.start.Keeps s ∧ MeetsContract (drivers false) s ⟨none, .uart, 0, .gpio, 3⟩ := by
  refine ⟨_, rfl, ?_⟩
  obtain ⟨hkeeps, hiff⟩ := driverLock_contract_iff (q := ⟨none, .uart, 0, .gpio, 3⟩)
    (show runRequests (drivers false) .start [⟨none, .stepper, 0, .gpio, 3⟩] = .ok _ from rfl)
    (by rintro n ⟨⟩; decide)
  exact ⟨hkeeps, hiff.mpr (.inl rfl)⟩

/-- A stepper holds the tx pin of uart1.  A sensor that asks for uart1 is refused
    with a lock error that was freed before, and the rx pin stays locked. -/
theorem not_meetsContract_uart :
    ∃ s s' p, runRequests (drivers false) .start [⟨none, .stepper, 0, .gpio, 10⟩] = .ok s ∧
      Request.run (drivers false) s
        ⟨some ⟨.operation, none, 0, 0, none, none⟩, .sensor, 0, .uart, 1⟩ = .ok (some p, s') ∧
      s'.lockErrors[p]? = some none ∧ s'.locks .gpio 9 ≠ s.locks .gpio 9 ∧
      ¬ MeetsContract (drivers false) s
        ⟨some ⟨.operation, none, 0, 0, none, none⟩, .sensor, 0, .uart, 1⟩ := by
  refine ⟨_, _, 0, rfl, rfl, rfl, by decide, ?_⟩
  rw [meetsContract_tableless rfl]
  exact fun h => h uartLockResources rfl (by decide)

end Requests

end LuaRtos.Driver
