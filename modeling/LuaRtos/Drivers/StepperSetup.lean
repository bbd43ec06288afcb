/-
  LuaRtos.Drivers.StepperSetup

  Which unit a call of `stepper_setup` sets up.

  The search ends with the index NSTEP where all units are taken, and the test after it is for
  a larger one; the call then goes on with whatever `*unit` holds.  Where `malloc` has nothing
  for a driver error, a call that is refused returns NULL as one that succeeds does.
-/

import LuaRtos.Drivers.Setup
import LuaRtos.Sys.DriverLock

namespace LuaRtos.Driver

open LuaRtos.CLib

/-- STEPPER_ERR_NO_MORE_UNITS. -/
def stepperErrNoMoreUnits : Int := driverExceptionBase 19 + 2

/-- The driver error says that there are no more units. -/
def NoMoreUnits (b : Board) (p : Nat) : Prop :=
  ∃ e, b.drv.errors[p]? = some (some e) ∧ e.type = .operation ∧
    e.exception = stepperErrNoMoreUnits

/-- The call stays in the table, sets up one unit that was not set up where it succeeds, and
    says so where there is none. -/
structure SetupRight (b : Board) (unit : Nat) (r : Result (Option Nat × Board)) : Prop where
  inside : ∀ f, r ≠ .error f
  success : ∀ b', r = .ok (none, b') →
    stepperFreeUnit b unit < nstep ∧ (b.stepper (stepperFreeUnit b unit)).setup = false ∧
      (b'.stepper (stepperFreeUnit b unit)).setup = true ∧
      ∀ v, v ≠ stepperFreeUnit b unit → b'.stepper v = b.stepper v
  full : (∀ v < nstep, (b.stepper v).setup = true) →
    ∃ p b', r = .ok (some p, b') ∧ NoMoreUnits b' p ∧ b'.stepper = b.stepper

/-- The call is given two pins that the unit can have. -/
structure PinsGranted (b : Board) (stepPin dirPin unit : Nat) : Prop where
  step_le : stepPin ≤ 31
  dir_le : dirPin ≤ 31
  step : (b.drv.locks .gpio stepPin).GrantsTo .stepper unit
  dir : (b.drv.locks .gpio dirPin).GrantsTo .stepper unit

/-- Some unit is free, and there is memory for a driver error where one is due. -/
structure SetupMeets (b : Board) (mem : Option (DriverError DriverId)) (stepPin dirPin unit : Nat) :
    Prop where
  free : ∃ v < nstep, (b.stepper v).setup = false
  told : mem = none → PinsGranted b stepPin dirPin (stepperFreeUnit b unit)

section Setup

variable {sd1bit : Bool} {b b' : Board} {mem : Option (DriverError DriverId)}
  {stepPin dirPin unit p : Nat}

/-! ## The unit -/

theorem stepperFreeUnit_of_free (unit : Nat) (h : ∃ v < nstep, (b.stepper v).setup = false) :
    stepperFreeUnit b unit < nstep ∧ (b.stepper (stepperFreeUnit b unit)).setup = false := by
  obtain ⟨v, hv, hfree⟩ := h
  unfold stepperFreeUnit
  cases hfind : (List.range nstep).find? fun i => !(b.stepper i).setup with
  | none =>
    have hno := List.find?_eq_none.mp hfind v (List.mem_range.mpr hv)
    rw [hfree] at hno
    exact absurd rfl hno
  | some u =>
    have hsetup := List.find?_some hfind
    rw [Bool.not_eq_true'] at hsetup
    exact ⟨List.mem_range.mp (List.mem_of_find?_eq_some hfind), hsetup⟩

theorem full_of_not_free (h : ¬ ∃ v < nstep, (b.stepper v).setup = false) :
    ∀ v < nstep, (b.stepper v).setup = true := by
  intro v hv
  by_contra hno
  exact h ⟨v, hv, (Bool.not_eq_true _).mp hno⟩

/-! ## The locks -/

/-- A pin that may be locked is, and nothing the unit had is lost. -/
theorem lockUnit_granted {s : DriverState DriverId} {pin u : Nat} (hpin : pin ≤ 31)
    (h : (s.locks .gpio pin).GrantsTo .stepper u) :
    ∃ s', lockUnit s .stepper u .gpio (cpuLastGpio + 1) pin = .ok (none, s') ∧
      ∀ j, (s'.locks .gpio j).GrantsTo .stepper u ↔ (s.locks .gpio j).GrantsTo .stepper u := by
  have hin : (0 : Int) ≤ pin ∧ (pin : Int) < (cpuLastGpio + 1 : Nat) := by
    unfold cpuLastGpio
    omega
  obtain ⟨r, s', hlock⟩ := lockUnit_total s .stepper u .gpio hin
  have hnat : (pin : Int).toNat = pin := Int.toNat_natCast pin
  rcases (lockUnit_cases hlock).2 with ⟨-, rfl, rfl⟩ | ⟨-, rfl, rfl⟩ | ⟨hrefused, -, -⟩
  · exact ⟨_, hlock, fun _ => Iff.rfl⟩
  · refine ⟨_, hlock, fun j => ⟨fun hgrant => ?_, UnitLock.GrantsTo.grant⟩⟩
    rw [DriverState.grant_locks, hnat] at hgrant
    split at hgrant
    · next heq =>
      rw [heq.2]
      exact h
    · exact hgrant
  · rw [hnat] at hrefused
    exact absurd h hrefused

/-- A pin of another unit is refused, and the lock error becomes a driver error. -/
theorem lockUnit_refused {s : DriverState DriverId} {pin u : Nat} (hpin : pin ≤ 31)
    (h : ¬ (s.locks .gpio pin).GrantsTo .stepper u) :
    ∃ q s' error s'', lockUnit s .stepper u .gpio (cpuLastGpio + 1) pin = .ok (some q, s') ∧
      driverLockError s' mem q = .ok (error, s'') ∧
      (mem = none ∧ error = none ∨ ∃ p e, mem ≠ none ∧ error = some p ∧
        s''.errors[p]? = some (some e) ∧ e.type = .lock) := by
  have hin : (0 : Int) ≤ pin ∧ (pin : Int) < (cpuLastGpio + 1 : Nat) := by
    unfold cpuLastGpio
    omega
  have hnat : (pin : Int).toNat = pin := Int.toNat_natCast pin
  obtain ⟨r, s', hlock⟩ := lockUnit_total s .stepper u .gpio hin
  rcases (lockUnit_cases hlock).2 with ⟨hown, -, -⟩ | ⟨hown, -, -⟩ | ⟨-, rfl, rfl⟩
  · rw [hnat] at hown
    exact absurd (.inr hown) h
  · rw [hnat] at hown
    exact absurd (.inl hown) h
  · obtain ⟨error, s'', herror⟩ := driverLockError_total mem
      (s := s.revoke .stepper u .gpio pin) (p := s.lockErrors.length)
      ⟨_, Heap.getElem?_alloc_self⟩
    refine ⟨_, _, error, s'', hlock, herror, ?_⟩
    rcases (driverLockError_cases herror).2.2 with ⟨hmem, rfl, -⟩ | ⟨block, hmem, rfl, herrors⟩
    · exact .inl ⟨hmem, rfl⟩
    · refine .inr ⟨_, { block with type := .lock, lockError := s.lockErrors.length }, ?_, rfl, ?_,
        rfl⟩
      · rw [hmem]
        nofun
      · rw [herrors]
        exact Heap.getElem?_alloc_self

/-! ## The ends of a call -/

/-- How a call comes to an end that has no more-units error, with `u` for its unit. -/
inductive SetupEnd (b : Board) (mem : Option (DriverError DriverId)) (u : Nat) :
    Result (Option Nat × Board) → Prop
  /-- A driver error of another kind. -/
  | fails {p : Nat} {b' : Board} (hmem : mem ≠ none) (hother : ¬ NoMoreUnits b' p) :
      SetupEnd b mem u (.ok (some p, b'))
  | succeeds {b' : Board} (hu : u < nstep) (hset : (b'.stepper u).setup = true)
      (hframe : ∀ v, v ≠ u → b'.stepper v = b.stepper v) : SetupEnd b mem u (.ok (none, b'))
  | outside (hu : ¬ u < nstep) : SetupEnd b mem u (.error .outOfBounds)

/-- An operation error has the exception that it was made with. -/
theorem not_noMoreUnits_of_fail {driver : DriverId} {exception : Int} {msg : Option String}
    (hne : exception ≠ stepperErrNoMoreUnits)
    (h : (some p, b') = b.fail (driverOperationError b.drv mem driver exception msg)) :
    ¬ NoMoreUnits b' p := by
  rintro ⟨e, he, -, hexception⟩
  unfold driverOperationError driverError at h
  cases mem with
  | none => cases h
  | some block =>
    obtain ⟨hp, rfl⟩ := Prod.mk.inj h
    obtain rfl := Option.some.inj hp
    change (b.drv.errors.alloc _)[_]? = _ at he
    rw [Heap.getElem?_alloc_self] at he
    obtain rfl := Option.some.inj (Option.some.inj he)
    exact hne hexception

theorem not_noMoreUnits_of_lock {e : DriverError DriverId}
    (he : b'.drv.errors[p]? = some (some e)) (htype : e.type = .lock) : ¬ NoMoreUnits b' p := by
  rintro ⟨e', he', htype', -⟩
  rw [he] at he'
  obtain rfl := Option.some.inj (Option.some.inj he')
  rw [htype] at htype'
  cases htype'

/-- An operation error needs memory. -/
theorem fail_ne_none {driver : DriverId} {exception : Int} {msg : Option String}
    (h : (some p, b') = b.fail (driverOperationError b.drv mem driver exception msg)) :
    mem ≠ none := by
  rintro rfl
  cases h

theorem gpioPinOutput_cases {error : Option Nat} {pin : Nat}
    (h : gpioPinOutput b mem pin = (error, b')) :
    b'.stepper = b.stepper ∧ ∀ p, error = some p → mem ≠ none ∧ ¬ NoMoreUnits b' p := by
  unfold gpioPinOutput at h
  split at h
  · obtain ⟨rfl, rfl⟩ := Prod.mk.inj h
    exact ⟨rfl, nofun⟩
  · refine ⟨?_, ?_⟩
    · rw [← (Prod.mk.inj h).2]
    · rintro p rfl
      exact ⟨fail_ne_none h.symm, not_noMoreUnits_of_fail (by decide) h.symm⟩

/-- The pins are configured and the unit is written, inside the table or not. -/
theorem stepperConfigure_end {u : Nat} (hunits : b'.stepper = b.stepper) :
    SetupEnd b mem u (stepperConfigure b' mem stepPin dirPin u) := by
  unfold stepperConfigure
  cases hstep : gpioPinOutput b' mem stepPin with
  | mk error b₁ =>
    obtain ⟨hunits₁, hother₁⟩ := gpioPinOutput_cases hstep
    cases error with
    | some p =>
      obtain ⟨hmem, hother⟩ := hother₁ p rfl
      exact .fails hmem hother
    | none =>
      dsimp only
      cases hdir : gpioPinOutput b₁ mem dirPin with
      | mk error b₂ =>
        obtain ⟨hunits₂, hother₂⟩ := gpioPinOutput_cases hdir
        cases error with
        | some p =>
          obtain ⟨hmem, hother⟩ := hother₂ p rfl
          exact .fails hmem hother
        | none =>
          dsimp only
          split
          · next hu =>
            refine .succeeds hu ?_ fun v hv => ?_
            · show (Function.update b₂.stepper u _ u).setup = true
              rw [Function.update_self]
            · show Function.update b₂.stepper u _ v = _
              rw [Function.update_of_ne hv, hunits₂, hunits₁, hunits]
          · next hu => exact .outside hu

/-- A call that is granted its pins comes to its unit. -/
theorem stepperSetup_granted (sd1bit : Bool) (mem : Option (DriverError DriverId))
    (h : PinsGranted b stepPin dirPin (stepperFreeUnit b unit)) :
    SetupEnd b mem (stepperFreeUnit b unit)
      (stepperSetup sd1bit b mem stepPin dirPin unit) := by
  obtain ⟨hstep, hdir, hstepGrant, hdirGrant⟩ := h
  obtain ⟨s₁, hlock₁, hkeep⟩ := lockUnit_granted hstep hstepGrant
  obtain ⟨s₂, hlock₂, -⟩ := lockUnit_granted hdir ((hkeep dirPin).mpr hdirGrant)
  have hcall : stepperSetup sd1bit b mem stepPin dirPin unit =
      stepperConfigure { b with drv := s₂ } mem stepPin dirPin (stepperFreeUnit b unit) := by
    unfold stepperSetup
    rw [if_neg (by omega), if_neg (by omega)]
    show ((lockUnit _ _ _ _ (cpuLastGpio + 1) _) >>= _) = _
    rw [hlock₁]
    show ((lockUnit _ _ _ _ (cpuLastGpio + 1) _) >>= _) = _
    rw [hlock₂]
    rfl
  rw [hcall]
  exact stepperConfigure_end rfl

/-- One that is not returns NULL or another error, and leaves the units. -/
theorem stepperSetup_refused (sd1bit : Bool) (mem : Option (DriverError DriverId))
    (h : ¬ PinsGranted b stepPin dirPin (stepperFreeUnit b unit)) :
    ∃ error b', stepperSetup sd1bit b mem stepPin dirPin unit = .ok (error, b') ∧
      b'.stepper = b.stepper ∧ (error = none ↔ mem = none) ∧
      ∀ p, error = some p → ¬ NoMoreUnits b' p := by
  have hinvalid : ∀ {error : Option Nat} {b' : Board},
      (error, b') = b.fail (driverOperationError b.drv mem .stepper stepperErrInvalidPin
        (some "must be between 0 and 31")) →
      b'.stepper = b.stepper ∧ (error = none ↔ mem = none) ∧
        ∀ p, error = some p → ¬ NoMoreUnits b' p := by
    intro error b' hfail
    refine ⟨?_, ?_, ?_⟩
    · rw [(Prod.mk.inj hfail).2]
    · cases mem with
      | none => exact ⟨fun _ => rfl, fun _ => (Prod.mk.inj hfail).1⟩
      | some block =>
        rw [(Prod.mk.inj hfail).1]
        exact ⟨nofun, nofun⟩
    · rintro p rfl
      exact not_noMoreUnits_of_fail (by decide) hfail
  have hlocked : ∀ {s'' : DriverState DriverId} {error : Option Nat},
      (mem = none ∧ error = none ∨ ∃ p e, mem ≠ none ∧ error = some p ∧
        s''.errors[p]? = some (some e) ∧ e.type = .lock) →
      (error = none ↔ mem = none) ∧
        ∀ p, error = some p → ¬ NoMoreUnits { b with drv := s'' } p := by
    rintro s'' error (⟨hmem, rfl⟩ | ⟨p, e, hmem, rfl, he, htype⟩)
    · exact ⟨iff_of_true rfl hmem, nofun⟩
    · refine ⟨iff_of_false nofun hmem, ?_⟩
      rintro q ⟨⟩
      exact not_noMoreUnits_of_lock he htype
  unfold stepperSetup
  by_cases hstep : stepPin ≤ 31
  · by_cases hdir : dirPin ≤ 31
    · rw [if_neg (by omega), if_neg (by omega)]
      by_cases hgrant : (b.drv.locks .gpio stepPin).GrantsTo .stepper (stepperFreeUnit b unit)
      · -- the first pin is locked and stays so
        obtain ⟨s₁, hlock₁, hkeep⟩ := lockUnit_granted hstep hgrant
        have hrefused : ¬ (s₁.locks .gpio dirPin).GrantsTo .stepper (stepperFreeUnit b unit) :=
          fun hdirGrant => h ⟨hstep, hdir, hgrant, (hkeep dirPin).mp hdirGrant⟩
        obtain ⟨q, s₂, error, s₃, hlock₂, herror, hcases⟩ := lockUnit_refused hdir hrefused
        refine ⟨error, { b with drv := s₃ }, ?_, rfl, hlocked hcases⟩
        show ((lockUnit _ _ _ _ (cpuLastGpio + 1) _) >>= _) = _
        rw [hlock₁]
        show ((lockUnit _ _ _ _ (cpuLastGpio + 1) _) >>= _) = _
        rw [hlock₂]
        show (driverLockError s₂ mem q >>= _) = _
        rw [herror]
        rfl
      · obtain ⟨q, s₂, error, s₃, hlock, herror, hcases⟩ := lockUnit_refused hstep hgrant
        refine ⟨error, { b with drv := s₃ }, ?_, rfl, hlocked hcases⟩
        show ((lockUnit _ _ _ _ (cpuLastGpio + 1) _) >>= _) = _
        rw [hlock]
        show (driverLockError s₂ mem q >>= _) = _
        rw [herror]
        rfl
    · rw [if_neg (by omega), if_pos (by omega)]
      exact ⟨_, _, rfl, hinvalid rfl⟩
  · rw [if_pos (by omega)]
    exact ⟨_, _, rfl, hinvalid rfl⟩

/-! ## One call -/

/-- A call is right just where it finds a free unit and can tell that it fails. -/
theorem setupRight_iff (sd1bit : Bool) (b : Board) (mem : Option (DriverError DriverId))
    (stepPin dirPin unit : Nat) :
    SetupRight b unit (stepperSetup sd1bit b mem stepPin dirPin unit) ↔
      SetupMeets b mem stepPin dirPin unit := by
  constructor
  · intro hright
    constructor
    · by_contra hfree
      obtain ⟨p, b', hcall, hnone, -⟩ := hright.full (full_of_not_free hfree)
      by_cases hpins : PinsGranted b stepPin dirPin (stepperFreeUnit b unit)
      · have hend := stepperSetup_granted sd1bit mem hpins
        rw [hcall] at hend
        cases hend with
        | fails _ hother => exact hother hnone
      · obtain ⟨error, b'', hcall', -, -, hother⟩ :=
          stepperSetup_refused sd1bit mem hpins
        rw [hcall] at hcall'
        obtain ⟨rfl, rfl⟩ := Prod.mk.inj (Except.ok.inj hcall')
        exact hother p rfl hnone
    · intro hmem
      by_contra hpins
      obtain ⟨error, b', hcall, hunits, hnull, -⟩ :=
        stepperSetup_refused sd1bit mem hpins
      obtain rfl := hnull.mpr hmem
      obtain ⟨-, hfree, hset, -⟩ := hright.success b' hcall
      rw [hunits, hfree] at hset
      cases hset
  · rintro ⟨hfree, htold⟩
    obtain ⟨hlt, hunit⟩ := stepperFreeUnit_of_free unit hfree
    have hnotFull : ¬ ∀ v < nstep, (b.stepper v).setup = true := by
      obtain ⟨v, hv, hclear⟩ := hfree
      intro hfull
      rw [hfull v hv] at hclear
      cases hclear
    by_cases hpins : PinsGranted b stepPin dirPin (stepperFreeUnit b unit)
    · have hend := stepperSetup_granted sd1bit mem hpins
      generalize stepperSetup sd1bit b mem stepPin dirPin unit = r at hend
      cases hend with
      | fails hmem hother => exact ⟨nofun, nofun, fun hfull => absurd hfull hnotFull⟩
      | succeeds hu hset hframe =>
        refine ⟨nofun, ?_, fun hfull => absurd hfull hnotFull⟩
        rintro _ ⟨⟩
        exact ⟨hlt, hunit, hset, hframe⟩
      | outside hu => exact absurd hlt hu
    · obtain ⟨error, b', hcall, -, hnull, -⟩ :=
        stepperSetup_refused sd1bit mem hpins
      rw [hcall]
      refine ⟨nofun, ?_, fun hfull => absurd hfull hnotFull⟩
      rintro b'' h
      obtain ⟨rfl, rfl⟩ := Prod.mk.inj (Except.ok.inj h)
      exact absurd (htold (hnull.mp rfl)) hpins

/-! ## Runs -/

/-- The arguments of a call, what `*unit` holds before it, and the block that `malloc` finds. -/
structure SetupArgs where
  stepPin : Nat
  dirPin : Nat
  unit : Nat
  mem : Option (DriverError DriverId)

def SetupArgs.run (sd1bit : Bool) (b : Board) (c : SetupArgs) : Result (Option Nat × Board) :=
  stepperSetup sd1bit b c.mem c.stepPin c.dirPin c.unit

/-- Every call of the run is right, up to one that faults. -/
def SetupsRight (sd1bit : Bool) : Board → List SetupArgs → Prop
  | _, [] => True
  | b, c :: cs => SetupRight b c.unit (c.run sd1bit b) ∧
      ∀ error b', c.run sd1bit b = .ok (error, b') → SetupsRight sd1bit b' cs

/-- Every call of the run meets the condition. -/
def SetupsMeet (sd1bit : Bool) : Board → List SetupArgs → Prop
  | _, [] => True
  | b, c :: cs => SetupMeets b c.mem c.stepPin c.dirPin c.unit ∧
      ∀ error b', c.run sd1bit b = .ok (error, b') → SetupsMeet sd1bit b' cs

/-- The calls of a run are all right just where each finds a free unit and can tell that it
    fails. -/
theorem stepperSetups_right_iff (sd1bit : Bool) (b : Board) (cs : List SetupArgs) :
    SetupsRight sd1bit b cs ↔ SetupsMeet sd1bit b cs := by
  induction cs generalizing b with
  | nil => exact Iff.rfl
  | cons c cs ih =>
    unfold SetupsRight SetupsMeet
    apply and_congr
    · exact setupRight_iff sd1bit b c.mem c.stepPin c.dirPin c.unit
    · exact forall_congr' fun error => forall_congr' fun b' => imp_congr_right fun _ => ih b'

/-- The board after the calls. -/
def afterSetups (sd1bit : Bool) : Board → List SetupArgs → Result Board
  | b, [] => pure b
  | b, c :: cs => do
    let (_, b) ← c.run sd1bit b
    afterSetups sd1bit b cs

theorem SetupsRight.last {cs : List SetupArgs} {c : SetupArgs}
    (h : SetupsRight sd1bit b (cs ++ [c])) (hcs : afterSetups sd1bit b cs = .ok b') :
    SetupRight b' c.unit (c.run sd1bit b') := by
  induction cs generalizing b with
  | nil =>
    obtain rfl := Except.ok.inj hcs
    exact h.1
  | cons c₁ cs ih =>
    obtain ⟨⟨error, b₁⟩, hcall, hrest⟩ := bind_eq_ok.mp hcs
    exact ih (h.2 error b₁ hcall) hrest

/-- The call with the pins `2 * i` and `2 * i + 1`. -/
def pairOfPins (i : Nat) : SetupArgs :=
  ⟨2 * i, 2 * i + 1, 0, some ⟨.setup, none, 0, 0, none, none⟩⟩

/-- All units are set up on the board. -/
def Taken (r : Result Board) : Bool :=
  match r with
  | .ok b => (List.range nstep).all fun v => (b.stepper v).setup
  | .error _ => false

theorem taken_eight :
    Taken (afterSetups false .start ((List.range nstep).map pairOfPins)) = true := by
  decide

/-- The ninth call goes on with unit 0. -/
theorem not_setupsRight_nine :
    ¬ SetupsRight false .start ((List.range nstep).map pairOfPins ++ [pairOfPins nstep]) := by
  intro h
  have htaken := taken_eight
  cases hafter : afterSetups false .start ((List.range nstep).map pairOfPins) with
  | error f =>
    rw [hafter] at htaken
    cases htaken
  | ok b =>
    rw [hafter] at htaken
    have hmeets := (setupRight_iff false b _ _ _ _).mp (h.last hafter)
    obtain ⟨v, hv, hfree⟩ := hmeets.free
    have hsetup := List.all_eq_true.mp htaken v (List.mem_range.mpr hv)
    rw [hfree] at hsetup
    cases hsetup

end Setup

end LuaRtos.Driver
