/-
  LuaRtos.Drivers.StepperStart

  The calls of several threads, between the locks and unlocks of the driver's
  mutex, with the interrupt.

  The mutex is also the signal of the end of a motion: `stepper_start` takes it
  twice, and the interrupt gives it when some unit stops.  That is the end of the
  motion only if all the units stop at that interrupt.  Under this condition one
  of three has the mutex: nobody, a thread between its lock and its unlock, or
  the units that move.
-/

import LuaRtos.Drivers.StepperMotion
import LuaRtos.Rtos.Semaphore

namespace LuaRtos.Stepper

open CLib Rtos

/-! ## The units that an interrupt stops -/

theorem not_getLsbD_zero (i : Nat) : ¬ (0 : BitVec 32).getLsbD i = true := by
  have hzero : (0 : BitVec 32).getLsbD i = false := BitVec.getLsbD_zero
  rw [hzero]
  nofun

/-- A mask of nothing. -/
theorem mask_eq_zero {mask : BitVec 32} (h : ∀ i, ¬ mask.getLsbD i = true) : mask = 0 := by
  apply BitVec.eq_of_getLsbD_eq
  intro i _
  rw [Bool.eq_false_of_not_eq_true (h i), Bool.eq_false_of_not_eq_true (not_getLsbD_zero i)]

/-- What a round of the loop of `stepper_isr` does to the unit it is at. -/
inductive RoundCase (l l' : Scan) : Prop
  | skip (hbit : l.started.getLsbD 0 = false) (h : l' = l.shift)
  | pass {u : Fin NSTEP} {p' : StepperT} (hu : l.unit = u) (hbit : l.started.getLsbD 0 = true)
      (hno : ¬ ((l.stepper u).cticks + 1 = (l.stepper u).ticks ∧ (l.stepper u).steps = 1))
      (hstepper : l'.stepper = Function.update l.stepper u p') (hstart : l'.start = l.start)
      (hstop : l'.stop_mask = l.stop_mask) (hunit : l'.unit = l.unit + 1)
      (hstarted : l'.started = l.started >>> 1)
  | again {u : Fin NSTEP} {p' : StepperT} (hu : l.unit = u) (hbit : l.started.getLsbD 0 = true)
      (hdue : (l.stepper u).cticks + 1 = (l.stepper u).ticks) (hsteps : (l.stepper u).steps = 1)
      (hp' : p'.steps = 1) (hstepper : l'.stepper = Function.update l.stepper u p')
      (hstart : l'.start = l.start &&& ~~~bit u) (hstop : l'.stop_mask = l.stop_mask ||| bit u)
      (hunit : l'.unit = l.unit) (hstarted : l'.started = l.started)

section Stops

variable {d : Driver} {l l' : Scan}

theorem scanRound_cases (h : scanRound l = .ok l') : RoundCase l l' := by
  cases hbit : l.started.getLsbD 0 with
  | false =>
    unfold scanRound at h
    rw [hbit] at h
    exact .skip hbit (Except.ok.inj h).symm
  | true =>
    by_cases hlt : l.unit < NSTEP
    · have hu : l.unit = (⟨l.unit, hlt⟩ : Fin NSTEP) := rfl
      by_cases hdue : (l.stepper ⟨l.unit, hlt⟩).cticks + 1 = (l.stepper ⟨l.unit, hlt⟩).ticks
      · have hround := h
        unfold scanRound at hround
        rw [if_pos hbit, dif_pos hlt, if_pos hdue] at hround
        obtain ⟨⟨cticks, lost⟩, hc, hround⟩ := bind_eq_ok.mp hround
        by_cases hsteps : (l.stepper ⟨l.unit, hlt⟩).steps = 1
        · rw [scanRound_stops hbit hu rfl hdue hsteps hc] at h
          cases h
          refine .again hu hbit hdue hsteps ?_ rfl rfl rfl rfl rfl
          exact hsteps
        · dsimp only at hround
          rw [if_neg hsteps] at hround
          obtain ⟨q, hr, -⟩ := bind_eq_ok.mp hround
          rw [scanRound_steps hbit hu rfl hdue hsteps hc hr] at h
          cases h
          exact .pass hu hbit (fun hno => hsteps hno.2) rfl rfl rfl rfl rfl
      · rw [scanRound_waits hbit hu rfl hdue] at h
        cases h
        exact .pass hu hbit (fun hno => hdue hno.1) rfl rfl rfl rfl rfl
    · unfold scanRound at h
      rw [if_pos hbit, dif_neg hlt] at h
      cases h

/-- What the loop has stopped when it is at `l.unit`, whatever the units hold. -/
structure Stopped (d : Driver) (l : Scan) : Prop where
  started : l.started = d.start >>> l.unit
  start : l.start = d.start &&& ~~~l.stop_mask
  past : ∀ v : Fin NSTEP, v < l.unit → (l.stop_mask.getLsbD v = true ↔ Stops d v)
  /-- The unit is not served yet, or is at its last pulse. -/
  present : ∀ v : Fin NSTEP, v = l.unit →
    l.stop_mask.getLsbD v = false ∧ l.stepper v = d.stepper v ∨
      l.stop_mask.getLsbD v = true ∧ Stops d v ∧ (l.stepper v).steps = 1
  future : ∀ v : Fin NSTEP, l.unit < v → l.stop_mask.getLsbD v = false ∧ l.stepper v = d.stepper v
  only : ∀ i, l.stop_mask.getLsbD i = true → i < NSTEP
  /-- There are no other units. -/
  wide : ∀ i, NSTEP ≤ i → i < l.unit → d.start.getLsbD i = false

theorem stopped_init (d : Driver) : Stopped d d.scan := by
  have hzero : ∀ i, d.scan.stop_mask.getLsbD i = false := fun _ => BitVec.getLsbD_zero
  refine ⟨(scanned_init d).started, (scanned_init d).start, ?_, ?_, ?_, ?_, ?_⟩
  · intro v hv
    have hlt : v.val < 0 := hv
    omega
  · intro v _
    exact .inl ⟨hzero v, rfl⟩
  · intro v _
    exact ⟨hzero v, rfl⟩
  · intro i hi
    rw [hzero i] at hi
    cases hi
  · intro i _ hi
    have hlt : i < 0 := hi
    omega

theorem getLsbD_or_bit_of_ne {mask : BitVec 32} {u v : Fin NSTEP} (hne : v ≠ u) :
    (mask ||| bit u).getLsbD v = mask.getLsbD v := by
  have hbit : (bit u).getLsbD v = false := by
    by_contra hset
    obtain ⟨-, heq⟩ := (getLsbD_bit u v).mp (Bool.eq_true_of_not_eq_false hset)
    exact hne (Fin.ext heq.symm)
  rw [BitVec.getLsbD_or, hbit, Bool.or_false]

theorem getLsbD_or_bit_self (mask : BitVec 32) (u : Fin NSTEP) :
    (mask ||| bit u).getLsbD u = true := by
  have hbit : (bit u).getLsbD u = true :=
    (getLsbD_bit u u).mpr ⟨Nat.lt_trans u.isLt (by decide), rfl⟩
  rw [BitVec.getLsbD_or, hbit, Bool.or_true]

/-- A unit that is passed is stopped just when it is at its last pulse. -/
theorem Stopped.advance (h : Stopped d l)
    (hwide : NSTEP ≤ l.unit → d.start.getLsbD l.unit = false)
    (hpass : ∀ v : Fin NSTEP, v = l.unit → l.stop_mask.getLsbD v = false → ¬ Stops d v)
    (hstarted : l'.started = l.started >>> 1) (hunit : l'.unit = l.unit + 1)
    (hstart : l'.start = l.start) (hstop : l'.stop_mask = l.stop_mask)
    (hstepper : ∀ v : Fin NSTEP, l.unit < v → l'.stepper v = l.stepper v) : Stopped d l' := by
  refine ⟨?_, ?_, ?_, ?_, ?_, ?_, ?_⟩
  · rw [hstarted, hunit, h.started, BitVec.shiftRight_add]
  · rw [hstart, hstop]
    exact h.start
  · intro v hv
    rw [hstop]
    by_cases hlt : v.val < l.unit
    · exact h.past v hlt
    · have heq : v.val = l.unit := by omega
      rcases h.present v heq with ⟨hclear, -⟩ | ⟨hset, hstops, -⟩
      · rw [hclear]
        exact ⟨nofun, fun hstops => absurd hstops (hpass v heq hclear)⟩
      · exact ⟨fun _ => hstops, fun _ => hset⟩
  · intro v hv
    have hlt : l.unit < v.val := by omega
    obtain ⟨hclear, hsame⟩ := h.future v hlt
    rw [hstop]
    exact .inl ⟨hclear, (hstepper v hlt).trans hsame⟩
  · intro v hv
    have hlt : l.unit < v.val := by omega
    obtain ⟨hclear, hsame⟩ := h.future v hlt
    rw [hstop]
    exact ⟨hclear, (hstepper v hlt).trans hsame⟩
  · intro i hi
    exact h.only i (hstop ▸ hi)
  · intro i hi hlt
    by_cases heq : i = l.unit
    · subst heq
      exact hwide hi
    · exact h.wide i hi (by omega)

theorem Stopped.bit_eq (h : Stopped d l) : l.started.getLsbD 0 = d.start.getLsbD l.unit := by
  rw [h.started, BitVec.getLsbD_ushiftRight]
  rfl

theorem Stopped.round (h : Stopped d l) (hround : scanRound l = .ok l') : Stopped d l' := by
  cases scanRound_cases hround with
  | skip hbit hshift =>
    subst hshift
    have hclear : d.start.getLsbD l.unit = false := h.bit_eq.symm.trans hbit
    refine h.advance (fun _ => hclear) ?_ rfl rfl rfl rfl fun _ _ => rfl
    intro v hv _ hstops
    have hset := hstops.1.1
    rw [hv, hclear] at hset
    cases hset
  | @pass u p' hu hbit hno hstepper hstart hstop hunit hstarted =>
    have hlt := u.isLt
    refine h.advance (fun hle => by omega) ?_ hstarted hunit hstart hstop ?_
    · intro v hv hclear hstops
      have hvu : v = u := Fin.ext (hv.trans hu)
      subst hvu
      rcases h.present v hv with ⟨-, hsame⟩ | ⟨hset, -⟩
      · rw [hsame] at hno
        exact hno ⟨hstops.1.2, hstops.2⟩
      · rw [hclear] at hset
        cases hset
    · intro v hv
      have hne : v ≠ u := by
        rintro rfl
        omega
      rw [hstepper, Function.update_of_ne hne]
  | @again u p' hu hbit hdue hsteps hp' hstepper hstart hstop hunit hstarted =>
    have hstops : Stops d u := by
      rcases h.present u hu.symm with ⟨-, hsame⟩ | ⟨-, hstops, -⟩
      · rw [hsame] at hdue hsteps
        exact ⟨⟨hu ▸ h.bit_eq.symm.trans hbit, hdue⟩, hsteps⟩
      · exact hstops
    refine ⟨?_, ?_, ?_, ?_, ?_, ?_, ?_⟩
    · rw [hstarted, hunit]
      exact h.started
    · rw [hstart, hstop, h.start, BitVec.not_or, BitVec.and_assoc]
    · intro v hv
      have hne : v ≠ u := by
        rintro rfl
        omega
      rw [hstop, getLsbD_or_bit_of_ne hne]
      exact h.past v (hunit ▸ hv)
    · intro v hv
      have hvu : v = u := Fin.ext (by omega)
      subst hvu
      rw [hstop, hstepper, getLsbD_or_bit_self, Function.update_self]
      exact .inr ⟨rfl, hstops, hp'⟩
    · intro v hv
      have hne : v ≠ u := by
        rintro rfl
        omega
      rw [hstop, hstepper, getLsbD_or_bit_of_ne hne, Function.update_of_ne hne]
      exact h.future v (hunit ▸ hv)
    · intro i hi
      by_cases heq : i = u
      · have hlt := u.isLt
        omega
      · rw [hstop, BitVec.getLsbD_or, Bool.or_eq_true, getLsbD_bit] at hi
        rcases hi with hold | ⟨-, hnew⟩
        · exact h.only i hold
        · exact absurd hnew.symm heq
    · intro i hi hlt
      exact h.wide i hi (hunit ▸ hlt)

theorem Stopped.rounds (h : Stopped d l) (hrounds : Rounds scanGoes scanRound l l') :
    Stopped d l' := by
  induction hrounds with
  | refl l => exact h
  | head _ hround _ ih => exact ih (h.round hround)

/-- An interrupt that comes to an end clears the bits of the units at their last
    pulse, and unlocks when there is one. -/
theorem isr_stops {fuel : Nat} {r : IsrResult} (h : stepperIsr fuel d = .ok r) :
    (∀ i, r.driver.start.getLsbD i = true ↔
      d.start.getLsbD i = true ∧ ¬ ∃ u : Fin NSTEP, u = i ∧ Stops d u) ∧
    (r.unlock = true ↔ ∃ u, Stops d u) ∧ ∀ i, NSTEP ≤ i → d.start.getLsbD i = false := by
  obtain ⟨l, hl, hr⟩ := bind_eq_ok.mp h
  obtain rfl : l.finish d.out = r := Except.ok.inj hr
  obtain ⟨hrounds, hend⟩ := Ends.rounds ⟨fuel, hl⟩
  have hstopped := (stopped_init d).rounds hrounds
  have hzero : l.started = 0 := by simpa [scanGoes] using hend
  have hpast : ∀ i, d.start.getLsbD i = true → i < l.unit := by
    intro i hi
    by_contra hle
    have hbit : (d.start >>> l.unit).getLsbD (i - l.unit) = d.start.getLsbD i := by
      rw [BitVec.getLsbD_ushiftRight]
      congr 1
      omega
    rw [← hstopped.started, hzero, hi] at hbit
    exact not_getLsbD_zero _ hbit
  have hstop : ∀ i, l.stop_mask.getLsbD i = true ↔ ∃ u : Fin NSTEP, u = i ∧ Stops d u := by
    intro i
    constructor
    · intro hi
      have hlt := hstopped.only i hi
      refine ⟨⟨i, hlt⟩, rfl, ?_⟩
      rcases Nat.lt_trichotomy i l.unit with hless | heq | hmore
      · exact (hstopped.past ⟨i, hlt⟩ hless).mp hi
      · rcases hstopped.present ⟨i, hlt⟩ heq with ⟨hclear, -⟩ | ⟨-, hstops, -⟩
        · rw [hi] at hclear
          cases hclear
        · exact hstops
      · have hclear := (hstopped.future ⟨i, hlt⟩ hmore).1
        rw [hi] at hclear
        cases hclear
    · rintro ⟨u, rfl, hu⟩
      exact (hstopped.past u (hpast u hu.1.1)).mpr hu
  refine ⟨?_, ?_, ?_⟩
  · intro i
    show l.start.getLsbD i = true ↔ _
    rw [← hstop, hstopped.start, BitVec.getLsbD_and, BitVec.getLsbD_not, Bool.and_eq_true]
    constructor
    · rintro ⟨hi, hno⟩
      have hlt : i < 32 := BitVec.lt_of_getLsbD hi
      exact ⟨hi, by simpa [hlt] using hno⟩
    · rintro ⟨hi, hno⟩
      have hlt : i < 32 := BitVec.lt_of_getLsbD hi
      exact ⟨hi, by simpa [hlt] using hno⟩
  · show decide (l.stop_mask ≠ 0) = true ↔ _
    rw [decide_eq_true_iff]
    constructor
    · intro hne
      by_contra hno
      apply hne
      apply mask_eq_zero
      intro i hset
      obtain ⟨u, -, hu⟩ := (hstop i).mp hset
      exact hno ⟨u, hu⟩
    · rintro ⟨u, hu⟩ hmask
      have hset := (hstop u).mpr ⟨u, rfl, hu⟩
      rw [hmask] at hset
      exact not_getLsbD_zero u hset
  · intro i hi
    by_contra hset
    have hbit := Bool.eq_true_of_not_eq_false hset
    exact hset (hstopped.wide i hi (hpast i hbit))

end Stops

/-! ## The calls of the threads -/

/-- A call of the driver.  `unit` of a setup is what `*unit` holds before it, and
    `granted` says whether the pins can be locked and made outputs. -/
inductive Call where
  | setup (step_pin dir_pin unit : Nat) (granted : Bool)
  | move (unit dir : Nat) (steps ramp : BitVec 32) (ifreq efreq : ℚ)
  | start (mask : BitVec 32)
deriving DecidableEq

/-- The unit that `stepper_setup` goes on with.  Where none is free `*unit` is
    not written, and the check after the search lets it pass. -/
def foundUnit (d : Driver) (unit : Nat) : Nat :=
  match freeUnit d with
  | some u => u
  | none => unit

/-- What a call does between the first lock and the unlock, or the second lock. -/
def Call.body (d : Driver) : Call → Result Driver
  | .setup step_pin dir_pin unit granted =>
    if h : foundUnit d unit < NSTEP then
      pure (if granted then setupUnit d ⟨foundUnit d unit, h⟩ step_pin dir_pin else d)
    else throw .outOfBounds
  | .move unit dir steps ramp ifreq efreq => do
    let r ← stepperMove d unit dir steps ramp ifreq efreq
    pure r.2
  | .start mask => pure (stepperStart d mask)

/-- The unit that a call sets up or gives a move. -/
def Call.unit (d : Driver) : Call → Option Nat
  | .setup _ _ unit _ => some (foundUnit d unit)
  | .move unit .. => some unit
  | .start _ => none

/-- The checks that are made without the mutex. -/
def Call.passes : Call → Bool
  | .setup step_pin dir_pin .. => decide (step_pin ≤ 31 ∧ dir_pin ≤ 31)
  | .move unit dir .. => decide (dir ≤ 1 ∧ unit ≤ NSTEP)
  | .start _ => true

/-- Where a thread is. -/
inductive Pc where
  | idle
  /-- At the first lock. -/
  | waits (c : Call)
  /-- Past the first lock. -/
  | holds (c : Call)
  /-- At the second lock of `stepper_start`. -/
  | blocked (mask : BitVec 32)
  /-- At the unlock. -/
  | leaves (c : Call)
deriving DecidableEq

/-- Between a lock and the unlock. -/
def Pc.Inside : Pc → Prop
  | holds _ => True
  | leaves _ => True
  | _ => False

/-- Where a call goes on after its body. -/
def Call.after : Call → Pc
  | .start mask => .blocked mask
  | c => .leaves c

/-- The driver, its mutex and the threads. -/
structure World (Tid : Type) where
  driver : Driver
  sem : Semaphore Tid
  pc : Tid → Pc
  /-- The units of the last start of a thread whose last pulse has not come since.
      No step depends on it. -/
  pending : Tid → BitVec 32

inductive Act (Tid : Type) where
  | call (t : Tid) (c : Call)
  | lock (t : Tid)
  | body (t : Tid)
  | unlock (t : Tid)
  | interrupt (fuel : Nat)

section Threads

variable {Tid : Type} [DecidableEq Tid]

/-- What a body leaves pending. -/
def Call.pend (t : Tid) (pending : Tid → BitVec 32) : Call → Tid → BitVec 32
  | .start mask => Function.update pending t mask
  | _ => pending

/-- A step of a thread, or the interrupt. -/
def World.step (w : World Tid) : Act Tid → Option (World Tid)
  | .call t c =>
    match w.pc t with
    | .idle => if c.passes then some { w with pc := Function.update w.pc t (.waits c) } else some w
    | _ => none
  | .lock t =>
    match w.pc t with
    | .waits c => (xSemaphoreTake w.sem).map fun sem =>
        { w with sem := sem, pc := Function.update w.pc t (.holds c) }
    | .blocked mask => (xSemaphoreTake w.sem).map fun sem =>
        { w with sem := sem, pc := Function.update w.pc t (.leaves (.start mask)) }
    | _ => none
  | .body t =>
    match w.pc t with
    | .holds c =>
      match c.body w.driver with
      | .ok d => some { w with
          driver := d, pc := Function.update w.pc t c.after, pending := c.pend t w.pending }
      | .error _ => none
    | _ => none
  | .unlock t =>
    match w.pc t with
    | .leaves _ => some { w with
        sem := xSemaphoreGive w.sem, pc := Function.update w.pc t .idle }
    | _ => none
  | .interrupt fuel =>
    match stepperIsr fuel w.driver with
    | .ok r => some { w with
        driver := r.driver
        sem := if r.unlock then xSemaphoreGive w.sem else w.sem
        pending := fun t => w.pending t &&& r.driver.start }
    | .error _ => none

/-- `stepper_init`, with no call made. -/
def World.init : World Tid := ⟨stepperInit, xSemaphoreCreate, fun _ => .idle, fun _ => 0⟩

/-- The runs of the driver under the calls of all threads. -/
def threads (Tid : Type) [DecidableEq Tid] : Lts (World Tid) (Act Tid) :=
  .ofStep .init World.step

/-- An interrupt at which a unit stops is one at which all that move stop. -/
def Together (w : World Tid) : Act Tid → Prop
  | .interrupt _ => (∃ u, Stops w.driver u) →
      ∀ u : Fin NSTEP, w.driver.start.getLsbD u = true → Stops w.driver u
  | _ => True

instance (d : Driver) (u : Fin NSTEP) : Decidable (Stops d u) :=
  inferInstanceAs (Decidable ((_ ∧ _) ∧ _))

instance (w : World Tid) (a : Act Tid) : Decidable (Together w a) :=
  match a with
  | .interrupt _ => inferInstanceAs (Decidable (_ → _))
  | .call .. => .isTrue trivial
  | .lock _ => .isTrue trivial
  | .body _ => .isTrue trivial
  | .unlock _ => .isTrue trivial

/-- A start that returns has none of its units left to stop, and a unit that is
    set up or given a move does not move. -/
structure Safe (w : World Tid) : Prop where
  returns : ∀ t mask, w.pc t = .leaves (.start mask) → w.pending t = 0
  prepares : ∀ t c u, w.pc t = .holds c → c.unit w.driver = some u →
    w.driver.start.getLsbD u = false

/-! ## Who has the mutex -/

/-- Who has it: a thread inside, and then no unit moves, or else nobody or the
    units that move. -/
structure Exclusive (w : World Tid) : Prop where
  free : w.sem.available = true → w.driver.start = 0 ∧ ∀ t, ¬ (w.pc t).Inside
  still : ∀ t, (w.pc t).Inside → w.driver.start = 0
  alone : ∀ t t', (w.pc t).Inside → (w.pc t').Inside → t = t'
  pending : ∀ t i, (w.pending t).getLsbD i = true → w.driver.start.getLsbD i = true

omit [DecidableEq Tid] in
theorem exclusive_init : Exclusive (World.init : World Tid) := by
  refine ⟨fun _ => ⟨rfl, fun _ h => h⟩, fun _ h => h.elim, fun _ _ h => h.elim, ?_⟩
  intro t i hi
  exact absurd hi (not_getLsbD_zero i)

section Steps

variable {w w' : World Tid} {t : Tid} {c : Call}

omit [DecidableEq Tid] in
/-- The thread inside has taken it. -/
theorem Exclusive.taken (h : Exclusive w) (hin : (w.pc t).Inside) : w.sem.available = false := by
  by_contra hfree
  exact (h.free (Bool.eq_true_of_not_eq_false hfree)).2 t hin

/-- A thread comes in where the mutex is free. -/
theorem Exclusive.enter (h : Exclusive w) (hfree : w.sem.available = true) {pc : Pc} :
    Exclusive { w with
      sem := { w.sem with available := false }, pc := Function.update w.pc t pc } := by
  obtain ⟨hzero, hnone⟩ := h.free hfree
  have honly : ∀ t', (Function.update w.pc t pc t').Inside → t' = t := by
    intro t' hin
    by_contra hne
    rw [Function.update_of_ne hne] at hin
    exact hnone t' hin
  refine ⟨nofun, fun _ _ => hzero, ?_, h.pending⟩
  intro t₁ t₂ h₁ h₂
  exact (honly t₁ h₁).trans (honly t₂ h₂).symm

/-- A step that no thread comes in with. -/
theorem Exclusive.outside (h : Exclusive w) {pc : Pc} (hpc : pc.Inside → (w.pc t).Inside) :
    Exclusive { w with pc := Function.update w.pc t pc } := by
  have hin : ∀ t', (Function.update w.pc t pc t').Inside → (w.pc t').Inside := by
    intro t' h'
    by_cases heq : t' = t
    · subst heq
      rw [Function.update_self] at h'
      exact hpc h'
    · rwa [Function.update_of_ne heq] at h'
  refine ⟨?_, ?_, ?_, h.pending⟩
  · intro hfree
    obtain ⟨hzero, hnone⟩ := h.free hfree
    exact ⟨hzero, fun t' h' => hnone t' (hin t' h')⟩
  · intro t' h'
    exact h.still t' (hin t' h')
  · intro t₁ t₂ h₁ h₂
    exact h.alone t₁ t₂ (hin t₁ h₁) (hin t₂ h₂)

theorem Exclusive.leave (h : Exclusive w) (hin : (w.pc t).Inside) :
    Exclusive { w with sem := xSemaphoreGive w.sem, pc := Function.update w.pc t .idle } := by
  have hnone : ∀ t', ¬ (Function.update w.pc t .idle t').Inside := by
    intro t' h'
    by_cases heq : t' = t
    · subst heq
      rw [Function.update_self] at h'
      exact h'
    · rw [Function.update_of_ne heq] at h'
      exact heq (h.alone t' t h' hin)
  refine ⟨fun _ => ⟨h.still t hin, hnone⟩, ?_, ?_, h.pending⟩
  · intro t' h'
    exact absurd h' (hnone t')
  · intro t₁ t₂ h₁
    exact absurd h₁ (hnone t₁)

theorem stepperMove_start {d d' : Driver} {unit dir : Nat} {steps ramp : BitVec 32}
    {ifreq efreq : ℚ} {err : Option Err}
    (h : stepperMove d unit dir steps ramp ifreq efreq = .ok (err, d')) : d'.start = d.start := by
  unfold stepperMove at h
  dsimp only at h
  split at h
  · cases h
    rfl
  · split at h
    · cases h
      rfl
    · split at h
      · split at h
        · cases h
          rfl
        · obtain ⟨p, -, hd⟩ := bind_eq_ok.mp h
          cases hd
          rfl
      · cases h

/-- Only a start changes which units move. -/
theorem Call.body_start {d d' : Driver} (h : c.body d = .ok d') :
    d'.start = d.start ∧ c.after = .leaves c ∨
      ∃ mask, c = .start mask ∧ d' = stepperStart d mask := by
  cases c with
  | setup step_pin dir_pin unit granted =>
    simp only [Call.body] at h
    split at h
    · next hlt =>
      obtain rfl := Except.ok.inj h
      cases granted with
      | true => exact .inl ⟨rfl, rfl⟩
      | false => exact .inl ⟨rfl, rfl⟩
    · cases h
  | move unit dir steps ramp ifreq efreq =>
    obtain ⟨⟨err, d₁⟩, hmove, hd⟩ := bind_eq_ok.mp h
    cases hd
    exact .inl ⟨stepperMove_start hmove, rfl⟩
  | start mask =>
    cases h
    exact .inr ⟨mask, rfl, rfl⟩

theorem Exclusive.body (h : Exclusive w) (hpc : w.pc t = .holds c) {d : Driver}
    (hbody : c.body w.driver = .ok d) :
    Exclusive { w with
      driver := d, pc := Function.update w.pc t c.after, pending := c.pend t w.pending } := by
  have hin : (w.pc t).Inside := by
    rw [hpc]
    trivial
  have hzero := h.still t hin
  rcases Call.body_start hbody with ⟨hstart, hafter⟩ | ⟨mask, rfl, rfl⟩
  · have hpend : c.pend t w.pending = w.pending := by
      cases c with
      | start mask => cases hafter
      | _ => rfl
    rw [hafter, hpend]
    have hout : Exclusive { w with pc := Function.update w.pc t (.leaves c) } :=
      h.outside fun _ => hin
    exact ⟨fun hfree => ⟨hstart.trans (hout.free hfree).1, (hout.free hfree).2⟩,
      fun t' h' => hstart.trans (hout.still t' h'), hout.alone,
      fun t' i hi => hstart ▸ hout.pending t' i hi⟩
  · have htaken := h.taken hin
    have hnone : ∀ t', ¬ (Function.update w.pc t (.blocked mask) t').Inside := by
      intro t' h'
      by_cases heq : t' = t
      · subst heq
        rw [Function.update_self] at h'
        exact h'
      · rw [Function.update_of_ne heq] at h'
        exact heq (h.alone t' t h' hin)
    refine ⟨?_, fun t' h' => absurd h' (hnone t'), fun t₁ _ h₁ => absurd h₁ (hnone t₁), ?_⟩
    · intro hfree
      cases htaken.symm.trans hfree
    · intro t' i hi
      show (w.driver.start ||| mask).getLsbD i = true
      rw [BitVec.getLsbD_or, Bool.or_eq_true]
      by_cases heq : t' = t
      · subst heq
        have hmask : (Function.update w.pending t' mask t').getLsbD i = true := hi
        rw [Function.update_self] at hmask
        exact .inr hmask
      · have hmask : (Function.update w.pending t mask t').getLsbD i = true := hi
        rw [Function.update_of_ne heq] at hmask
        exact .inl (h.pending t' i hmask)

omit [DecidableEq Tid] in
/-- The interrupt gives the mutex only where no unit is left. -/
theorem Exclusive.interrupt (h : Exclusive w) {fuel : Nat} {r : IsrResult}
    (hok : Together w (.interrupt fuel)) (hisr : stepperIsr fuel w.driver = .ok r) :
    Exclusive { w with
      driver := r.driver
      sem := if r.unlock then xSemaphoreGive w.sem else w.sem
      pending := fun t => w.pending t &&& r.driver.start } := by
  obtain ⟨hstart, hunlock, hwide⟩ := isr_stops hisr
  have hstill : w.driver.start = 0 → r.driver.start = 0 := by
    intro hzero
    apply mask_eq_zero
    intro i hset
    have hold := ((hstart i).mp hset).1
    rw [hzero] at hold
    exact not_getLsbD_zero i hold
  refine ⟨?_, fun t ht => hstill (h.still t ht), h.alone, ?_⟩
  · intro hfree
    cases hgive : r.unlock with
    | false =>
      dsimp only at hfree
      rw [hgive] at hfree
      obtain ⟨hzero, hnone⟩ := h.free hfree
      exact ⟨hstill hzero, hnone⟩
    | true =>
      obtain ⟨u, hu⟩ := hunlock.mp hgive
      constructor
      · apply mask_eq_zero
        intro i hleft
        obtain ⟨hset, hno⟩ := (hstart i).mp hleft
        have hlt : i < NSTEP := by
          by_contra hle
          cases (hwide i (Nat.not_lt.mp hle)).symm.trans hset
        exact hno ⟨⟨i, hlt⟩, rfl, hok ⟨u, hu⟩ ⟨i, hlt⟩ hset⟩
      · intro t ht
        -- the units that stop were moving
        have hset := hu.1.1
        have hzero : w.driver.start = 0 := h.still t ht
        rw [hzero] at hset
        exact not_getLsbD_zero u hset
  · intro t i hi
    have hand : (w.pending t &&& r.driver.start).getLsbD i = true := hi
    rw [BitVec.getLsbD_and, Bool.and_eq_true] at hand
    exact hand.2

end Steps

/-! ## Runs -/

theorem Exclusive.step {w w' : World Tid} {a : Act Tid} (h : Exclusive w) (hok : Together w a)
    (hs : w.step a = some w') : Exclusive w' := by
  unfold World.step at hs
  cases a with
  | call t c =>
    dsimp only at hs
    split at hs
    · split at hs
      · obtain rfl := Option.some.inj hs
        exact h.outside (fun hin => hin.elim)
      · obtain rfl := Option.some.inj hs
        exact h
    · cases hs
  | lock t =>
    dsimp only at hs
    split at hs
    · obtain ⟨sem, htake, rfl⟩ := Option.map_eq_some_iff.mp hs
      obtain ⟨hfree, rfl⟩ := xSemaphoreTake_eq_some.mp htake
      exact h.enter hfree
    · obtain ⟨sem, htake, rfl⟩ := Option.map_eq_some_iff.mp hs
      obtain ⟨hfree, rfl⟩ := xSemaphoreTake_eq_some.mp htake
      exact h.enter hfree
    · cases hs
  | body t =>
    dsimp only at hs
    split at hs
    · next c hpc =>
      split at hs
      · next d hbody =>
        obtain rfl := Option.some.inj hs
        exact h.body hpc hbody
      · cases hs
    · cases hs
  | unlock t =>
    dsimp only at hs
    split at hs
    · next c hpc =>
      obtain rfl := Option.some.inj hs
      apply h.leave
      rw [hpc]
      trivial
    · cases hs
  | interrupt fuel =>
    dsimp only at hs
    split at hs
    · next r hisr =>
      obtain rfl := Option.some.inj hs
      exact h.interrupt hok hisr
    · cases hs

omit [DecidableEq Tid] in
theorem Exclusive.safe {w : World Tid} (h : Exclusive w) : Safe w := by
  constructor
  · intro t mask hpc
    have hzero := h.still t (by rw [hpc]; trivial)
    apply mask_eq_zero
    intro i hi
    have hset := h.pending t i hi
    rw [hzero] at hset
    exact not_getLsbD_zero i hset
  · intro t c u hpc _
    have hzero := h.still t (by rw [hpc]; trivial)
    rw [hzero]
    exact Bool.eq_false_of_not_eq_true (not_getLsbD_zero u)

/-- In every run whose interrupts stop all the units that move or none, a start
    returns after the last pulse of each of its units, and a unit is set up or
    given a move only while it does not move. -/
theorem stepperStart_safe {w : World Tid} (h : (threads Tid).Reach Together w) : Safe w := by
  have hinv : Exclusive w := by
    apply Lts.Reach.invariant (L := threads Tid) (I := Exclusive) _ _ h
    · rintro w rfl
      exact exclusive_init
    · intro w a w' hi hok hs
      exact hi.step hok hs
  exact hinv.safe

end Threads

/-- A thread sets up a unit for each pair of pins. -/
def setups (t : Bool) : List (Nat × Nat) → List (Act Bool)
  | [] => []
  | (step_pin, dir_pin) :: pins =>
    [.call t (.setup step_pin dir_pin 0 true), .lock t, .body t, .unlock t] ++ setups t pins

/-- It gives the units, from `unit` on, moves of the given steps at 50000 Hz, two
    ticks for each step. -/
def moves (t : Bool) (unit : Nat) : List (BitVec 32) → List (Act Bool)
  | [] => []
  | steps :: rest =>
    [.call t (.move unit 1 steps 0 0 50000), .lock t, .body t, .unlock t] ++
      moves t (unit + 1) rest

/-- It starts the units, and the first two interrupts come. -/
def starts (t : Bool) (mask : BitVec 32) : List (Act Bool) :=
  [.call t (.start mask), .lock t, .body t, .interrupt 20, .interrupt 20, .lock t]

/-- A thread starts two units that were given these moves. -/
def startsTwo (steps : List (BitVec 32)) : List (Act Bool) :=
  setups true [(4, 5), (12, 13)] ++ moves true 0 steps ++ starts true 3

/-- With one step each they stop together. -/
theorem stepperStart_safe_both : ∃ w : World Bool, w.pc true = .leaves (.start 3) ∧ Safe w := by
  have hrun : ((startsTwo [1, 1]).foldlM (Lts.guarded Together World.step) .init).any
      (fun w => decide (w.pc true = .leaves (.start 3))) = true := by decide +kernel
  obtain ⟨w, hw, hpc⟩ := (Option.any_eq_true ..).mp hrun
  exact ⟨w, of_decide_eq_true hpc, stepperStart_safe (Lts.Reach.schedule _ hw)⟩

/-- With one step and two the start returns while the second unit moves. -/
theorem stepperStart_early :
    ¬ ∀ w : World Bool, (threads Bool).Reach (fun _ _ => True) w → Safe w := by
  have hrun : ((startsTwo [1, 2]).foldlM (Lts.guarded (fun _ _ => True) World.step) .init).any
      (fun w => decide (w.pc true = .leaves (.start 3) ∧ w.pending true = 2)) = true := by
    decide +kernel
  obtain ⟨w, hw, hend⟩ := (Option.any_eq_true ..).mp hrun
  obtain ⟨hpc, hpending⟩ := of_decide_eq_true hend
  intro hall
  have hzero := (hall w (Lts.Reach.schedule _ hw)).returns true 3 hpc
  rw [hpending] at hzero
  exact absurd hzero (by decide)

end LuaRtos.Stepper
