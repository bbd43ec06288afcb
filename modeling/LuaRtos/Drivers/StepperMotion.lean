/-
  LuaRtos.Drivers.StepperMotion

  The pulses of a unit over runs of the driver.

  Beside the driver a log is kept for each unit: the move it was last given, and
  from its start on the rising edges of its clock pin and the interrupts so far.
  Setups, moves and starts of other units come in between as they like; the pins
  of the units differ, since the lock of a pin is refused to a second unit.
-/

import LuaRtos.Drivers.StepperMove
import LuaRtos.Lts.Run

namespace LuaRtos.Stepper

open CLib

/-- What has happened to a unit. -/
inductive Log where
  | unmoved
  /-- Nothing is said of it: it was started again, or moved on the move. -/
  | idle
  | armed (m : Move)
  | running (m : Move) (pulses interrupts : Nat)

namespace Log

/-- The unit is given a move, and is started or not. -/
def move (started : Bool) (m : Move) : Log := if started then idle else armed m

/-- A start of the unit, which is started already or not. -/
def start (started : Bool) : Log → Log
  | unmoved => unmoved
  | idle => idle
  | armed m => running m 0 0
  | running m n k => if started then running m n k else idle

/-- An interrupt, with the rising edges of the pin. -/
def interrupt (edges : Nat) : Log → Log
  | unmoved => unmoved
  | idle => idle
  | armed m => armed m
  | running m n k => running m (n + edges) (k + 1)

theorem start_running (started : Bool) (m : Move) (n k : Nat) :
    (running m n k).start started = if started then running m n k else idle := rfl

end Log

/-- The driver and the log of each unit. -/
structure State where
  driver : Driver
  log : Fin NSTEP → Log

inductive Event where
  | setup (step_pin dir_pin : Nat)
  | move (unit : Fin NSTEP) (dir : Nat) (m : Move)
  | start (mask : BitVec 32)
  | interrupt

/-- No unit has the pin. -/
def Unused (d : Driver) (pin : Nat) : Prop :=
  ∀ u, (d.stepper u).setup = true → (d.stepper u).clock_pin ≠ pin ∧ (d.stepper u).dir_pin ≠ pin

/-- The steps of the driver.  A mask is of units that have been given a move. -/
inductive Step : State → Event → State → Prop
  | setup {d : Driver} {log : Fin NSTEP → Log} {u : Fin NSTEP} {step_pin dir_pin : Nat}
      (hfree : freeUnit d = some u) (hstep : step_pin ≤ 31) (hdir : dir_pin ≤ 31)
      (hstep' : Unused d step_pin) (hdir' : Unused d dir_pin) :
      Step ⟨d, log⟩ (.setup step_pin dir_pin) ⟨setupUnit d u step_pin dir_pin, log⟩
  | move {d d' : Driver} {log : Fin NSTEP → Log} {u : Fin NSTEP} {dir : Nat} {m : Move}
      (h : stepperMove d u dir m.steps m.ramp m.ifreq m.efreq = .ok (none, d')) :
      Step ⟨d, log⟩ (.move u dir m)
        ⟨d', Function.update log u (Log.move (d.start.getLsbD u) m)⟩
  | moveFails {d d' : Driver} {log : Fin NSTEP → Log} {u : Fin NSTEP} {dir : Nat} {m : Move}
      {err : Err} (h : stepperMove d u dir m.steps m.ramp m.ifreq m.efreq = .ok (some err, d')) :
      Step ⟨d, log⟩ (.move u dir m) ⟨d', log⟩
  | start {d : Driver} {log : Fin NSTEP → Log} {mask : BitVec 32}
      (hmask : ∀ i, mask.getLsbD i = true → ∃ u : Fin NSTEP, u = i ∧ log u ≠ .unmoved) :
      Step ⟨d, log⟩ (.start mask) ⟨stepperStart d mask, fun u =>
        if mask.getLsbD u then (log u).start (d.start.getLsbD u) else log u⟩
  | interrupt {d : Driver} {log : Fin NSTEP → Log} {fuel : Nat} {r : IsrResult}
      (h : stepperIsr fuel d = .ok r) :
      Step ⟨d, log⟩ .interrupt ⟨r.driver, fun u =>
        (log u).interrupt (rises (d.stepper u).clock_pin d.out r.writes)⟩

/-- The runs of the driver after `stepper_init`. -/
def motion : Lts State Event where
  init s := s = ⟨stepperInit, fun _ => .unmoved⟩
  step := Step

/-! ## The invariant -/

/-- The log of a unit agrees with its state. -/
def Logged (d : Driver) (u : Fin NSTEP) : Log → Prop
  | .unmoved => True
  | .idle => True
  | .armed m => d.start.getLsbD u = false ∧ Moving m (d.stepper u) ∧
      (d.stepper u).steps = m.steps
  | .running m n k => Moving m (d.stepper u) ∧
      (d.start.getLsbD u = true → n + (d.stepper u).steps.toNat = m.steps.toNat ∧
        k ≤ n * m.longest + (d.stepper u).cticks.toNat) ∧
      (d.start.getLsbD u = false → n = m.steps.toNat)

structure Inv (s : State) : Prop where
  start_lt : ∀ i, NSTEP ≤ i → s.driver.start.getLsbD i = false
  moved : ∀ u : Fin NSTEP, s.driver.start.getLsbD u = true → s.log u ≠ .unmoved
  moving : ∀ u, s.log u ≠ .unmoved →
    (s.driver.stepper u).setup = true ∧ ∃ m, Moving m (s.driver.stepper u)
  pin_lt : ∀ u, (s.driver.stepper u).setup = true → (s.driver.stepper u).clock_pin < 32
  pins : ∀ u v, (s.driver.stepper u).setup = true → (s.driver.stepper v).setup = true → v ≠ u →
    (s.driver.stepper v).clock_pin ≠ (s.driver.stepper u).clock_pin ∧
      (s.driver.stepper v).dir_pin ≠ (s.driver.stepper u).clock_pin
  low : ∀ u, (s.driver.stepper u).setup = true →
    s.driver.out.getLsbD (s.driver.stepper u).clock_pin = false
  log : ∀ u, Logged s.driver u (s.log u)

theorem inv_init : Inv ⟨stepperInit, fun _ => .unmoved⟩ := by
  have hsetup : ∀ u, ¬ (stepperInit.stepper u).setup = true := by
    intro u h
    cases h
  refine ⟨fun _ _ => BitVec.getLsbD_zero, ?_, ?_, ?_, ?_, ?_, fun _ => trivial⟩
  · intro u h
    have hzero : stepperInit.start.getLsbD u = false := BitVec.getLsbD_zero
    rw [hzero] at h
    cases h
  · intro u h
    exact absurd rfl h
  · intro u h
    exact absurd h (hsetup u)
  · intro u v h
    exact absurd h (hsetup u)
  · intro u h
    exact absurd h (hsetup u)

/-- A unit is served as it was logged. -/
theorem Inv.served {s : State} (h : Inv s) (u : Fin NSTEP)
    (hu : s.driver.start.getLsbD u = true) : ∃ m, Moving m (s.driver.stepper u) :=
  (h.moving u (h.moved u hu)).2

/-! ## Setups -/

section Setup

variable {d : Driver} {log : Fin NSTEP → Log} {u : Fin NSTEP} {step_pin dir_pin : Nat}

theorem freeUnit_setup (hfree : freeUnit d = some u) : (d.stepper u).setup = false := by
  have h := List.find?_some hfree
  simpa using h

/-- A pin that a write clears is low, and the others are as they were. -/
theorem low_w1tc {out : BitVec 32} {pin n : Nat} (h : out.getLsbD pin = false ∨ pin = n)
    (hpin : pin < 32) : ((GpioWrite.w1tc (bit n)).apply out).getLsbD pin = false := by
  rw [getLsbD_w1tc]
  rcases h with hlow | rfl
  · rw [hlow]
    rfl
  · have hbit : (bit pin).getLsbD pin = true := (getLsbD_bit pin pin).mpr ⟨hpin, rfl⟩
    rw [hbit]
    exact Bool.and_false _

theorem Inv.setup (h : Inv ⟨d, log⟩) (hfree : freeUnit d = some u) (hstep : step_pin ≤ 31)
    (hstep' : Unused d step_pin) (hdir' : Unused d dir_pin) :
    Inv ⟨setupUnit d u step_pin dir_pin, log⟩ := by
  have hu := freeUnit_setup hfree
  have hself : (setupUnit d u step_pin dir_pin).stepper u =
      { d.stepper u with clock_pin := step_pin, dir_pin := dir_pin, setup := true } :=
    Function.update_self ..
  have hother : ∀ v, v ≠ u → (setupUnit d u step_pin dir_pin).stepper v = d.stepper v :=
    fun v hv => Function.update_of_ne hv ..
  have hlog : ∀ v, log v ≠ .unmoved → v ≠ u := by
    rintro v hv rfl
    have hset := (h.moving v hv).1
    rw [hu] at hset
    cases hset
  have hlogged : ∀ v, log v ≠ .unmoved →
      (setupUnit d u step_pin dir_pin).stepper v = d.stepper v := fun v hv => hother v (hlog v hv)
  refine ⟨h.start_lt, h.moved, ?_, ?_, ?_, ?_, ?_⟩
  · intro v hv
    rw [hlogged v hv]
    exact h.moving v hv
  · intro v hv
    by_cases hne : v = u
    · subst hne
      rw [hself]
      show step_pin < 32
      omega
    · rw [hother v hne] at hv ⊢
      exact h.pin_lt v hv
  · intro v w hv hw hne
    by_cases hvu : v = u
    · subst hvu
      rw [hother w hne] at hw ⊢
      rw [hself]
      exact hstep' w hw
    · by_cases hwu : w = u
      · subst hwu
        rw [hother v hvu] at hv ⊢
        rw [hself]
        exact ⟨(hstep' v hv).1.symm, (hdir' v hv).1.symm⟩
      · rw [hother v hvu] at hv ⊢
        rw [hother w hwu] at hw ⊢
        exact h.pins v w hv hw hne
  · intro v hv
    show ((GpioWrite.w1tc (bit dir_pin)).apply
      ((GpioWrite.w1tc (bit step_pin)).apply d.out)).getLsbD _ = false
    by_cases hne : v = u
    · subst hne
      rw [hself]
      have hlt : step_pin < 32 := by omega
      exact low_w1tc (.inl (low_w1tc (.inr rfl) hlt)) hlt
    · rw [hother v hne] at hv ⊢
      have hlt := h.pin_lt v hv
      exact low_w1tc (.inl (low_w1tc (.inl (h.low v hv)) hlt)) hlt
  · intro v
    have hv := h.log v
    dsimp only at hv ⊢
    cases hcase : log v with
    | unmoved => trivial
    | idle => trivial
    | armed m =>
      rw [hcase] at hv
      have heq := hlogged v (by rw [hcase]; nofun)
      exact ⟨hv.1, heq ▸ hv.2⟩
    | running m n k =>
      rw [hcase] at hv
      have heq := hlogged v (by rw [hcase]; nofun)
      unfold Logged at hv ⊢
      rw [heq]
      exact hv

end Setup

/-! ## Moves -/

section Moves

variable {d d' : Driver} {log : Fin NSTEP → Log} {u : Fin NSTEP} {dir : Nat} {m : Move}

/-- The unit that `stepper_move` sets the frequency of. -/
def moved (p : StepperT) (dir : Nat) (m : Move) : StepperT :=
  { p with
    steps := m.steps
    steps_up := m.steps - m.ramp + 1
    steps_down := m.ramp
    target_freq := m.efreq
    current_freq := m.base
    freq_inc := m.inc
    dir := dir
    lost := 0
    cticks := 0 }

/-- `stepper_move` puts a unit that is set up on the move. -/
theorem stepperMove_ok (hsetup : (d.stepper u).setup = true) (hdir : dir ≤ 1) (m : Move) :
    ∃ p, stepperMove d u dir m.steps m.ramp m.ifreq m.efreq =
        .ok (none, { d with stepper := Function.update d.stepper u p }) ∧
      Moving m p ∧ p.steps = m.steps ∧ p.setup = true ∧
      p.clock_pin = (d.stepper u).clock_pin ∧ p.dir_pin = (d.stepper u).dir_pin := by
  have hbase : m.base = m.freqAt m.steps.toNat := by
    rw [Move.freqAt, m.level_start, Nat.cast_zero, mul_zero, add_zero]
  have hslow : STEPPER_HZ / m.base < 4294967296 := m.slow
  obtain ⟨t, ht, heq⟩ := updateFrequency_eq m.base_pos hslow (moved (d.stepper u) dir m)
  refine ⟨{ moved (d.stepper u) dir m with
      ticks := t, lticks := Int.fract (STEPPER_HZ / m.base) }, ?_,
    ⟨m.steps_pos, Nat.le_refl _, rfl, rfl, rfl, hbase, ht, rfl, ?_, le_refl 0, zero_lt_one⟩, rfl,
    hsetup, rfl, rfl⟩
  · have hset : ¬ (!(d.stepper u).setup) = true := by
      rw [hsetup]
      decide
    unfold stepperMove
    rw [if_neg (Nat.not_lt.mpr hdir), if_neg (Nat.not_lt.mpr (Nat.le_of_lt u.isLt)),
      dif_pos u.isLt]
    dsimp only
    rw [if_neg hset]
    exact bind_eq_ok.mpr ⟨_, heq, rfl⟩
  · have htwo : (2 : Int) ≤ ⌊STEPPER_HZ / m.base⌋ := by
      apply Int.le_floor.mpr
      rw [hbase]
      exact_mod_cast m.two_le_period _
    show (0 : BitVec 32).toNat < t.toNat
    have hzero : (0 : BitVec 32).toNat = 0 := rfl
    omega

/-- It succeeds with a unit that is set up, and leaves the driver alone when it fails. -/
theorem stepperMove_cases {err : Option Err}
    (h : stepperMove d u dir m.steps m.ramp m.ifreq m.efreq = .ok (err, d')) :
    err = none ∧ (d.stepper u).setup = true ∧ dir ≤ 1 ∨ err ≠ none ∧ d' = d := by
  by_cases hdir : dir ≤ 1
  · cases hsetup : (d.stepper u).setup with
    | true =>
      obtain ⟨p, heq, -⟩ := stepperMove_ok hsetup hdir m
      rw [h] at heq
      cases heq
      exact .inl ⟨rfl, rfl, hdir⟩
    | false =>
      unfold stepperMove at h
      rw [if_neg (Nat.not_lt.mpr hdir), if_neg (Nat.not_lt.mpr (Nat.le_of_lt u.isLt)),
        dif_pos u.isLt] at h
      dsimp only at h
      rw [hsetup] at h
      cases h
      exact .inr ⟨nofun, rfl⟩
  · unfold stepperMove at h
    rw [if_pos (Nat.not_le.mp hdir)] at h
    cases h
    exact .inr ⟨nofun, rfl⟩

/-- Where only `stepper u` and the log of `u` change, the other units stay as logged. -/
theorem Logged.of_ne {v : Fin NSTEP} {stepper : Fin NSTEP → StepperT} {entry : Log}
    (h : Logged d v entry) (heq : stepper v = d.stepper v) :
    Logged { d with stepper := stepper } v entry := by
  cases entry with
  | unmoved => trivial
  | idle => trivial
  | armed m =>
    unfold Logged at h ⊢
    dsimp only
    rw [heq]
    exact h
  | running m n k =>
    unfold Logged at h ⊢
    dsimp only
    rw [heq]
    exact h

theorem Inv.move (h : Inv ⟨d, log⟩)
    (hmove : stepperMove d u dir m.steps m.ramp m.ifreq m.efreq = .ok (none, d')) :
    Inv ⟨d', Function.update log u (Log.move (d.start.getLsbD u) m)⟩ := by
  rcases stepperMove_cases hmove with ⟨-, hsetup, hdir⟩ | ⟨hne, -⟩
  · obtain ⟨p, heq, hmoving, hsteps, hset, hclock, hpin⟩ := stepperMove_ok hsetup hdir m
    rw [hmove] at heq
    cases heq
    have hself : Function.update d.stepper u p u = p := Function.update_self ..
    have hframe : ∀ v, (Function.update d.stepper u p v).setup = (d.stepper v).setup ∧
        (Function.update d.stepper u p v).clock_pin = (d.stepper v).clock_pin ∧
        (Function.update d.stepper u p v).dir_pin = (d.stepper v).dir_pin := by
      intro v
      by_cases hne : v = u
      · subst hne
        rw [hself]
        exact ⟨hset.trans hsetup.symm, hclock, hpin⟩
      · rw [Function.update_of_ne hne]
        exact ⟨rfl, rfl, rfl⟩
    have hmove_ne : Log.move (d.start.getLsbD u) m ≠ .unmoved := by
      unfold Log.move
      split <;> nofun
    refine ⟨h.start_lt, ?_, ?_, ?_, ?_, ?_, ?_⟩
    · intro v hv
      dsimp only
      by_cases hne : v = u
      · subst hne
        rw [Function.update_self]
        exact hmove_ne
      · rw [Function.update_of_ne hne]
        exact h.moved v hv
    · intro v hv
      dsimp only at hv ⊢
      by_cases hne : v = u
      · subst hne
        rw [hself]
        exact ⟨hset, m, hmoving⟩
      · rw [Function.update_of_ne hne] at hv ⊢
        exact h.moving v hv
    · intro v hv
      dsimp only at hv ⊢
      rw [(hframe v).1] at hv
      rw [(hframe v).2.1]
      exact h.pin_lt v hv
    · intro v w hv hw hne
      dsimp only at hv hw ⊢
      rw [(hframe v).1] at hv
      rw [(hframe w).1] at hw
      rw [(hframe v).2.1, (hframe w).2.1, (hframe w).2.2]
      exact h.pins v w hv hw hne
    · intro v hv
      dsimp only at hv ⊢
      rw [(hframe v).1] at hv
      rw [(hframe v).2.1]
      exact h.low v hv
    · intro v
      dsimp only
      by_cases hne : v = u
      · subst hne
        rw [Function.update_self]
        unfold Log.move
        split
        · trivial
        · next hstart =>
          show _ ∧ Moving m (Function.update d.stepper v p v) ∧
            (Function.update d.stepper v p v).steps = m.steps
          rw [hself]
          exact ⟨Bool.eq_false_of_not_eq_true hstart, hmoving, hsteps⟩
      · rw [Function.update_of_ne hne]
        exact (h.log v).of_ne (Function.update_of_ne hne ..)
  · exact absurd rfl hne

end Moves

/-! ## Starts -/

section Starts

variable {d : Driver} {log : Fin NSTEP → Log} {mask : BitVec 32}

theorem Inv.start (h : Inv ⟨d, log⟩)
    (hmask : ∀ i, mask.getLsbD i = true → ∃ u : Fin NSTEP, u = i ∧ log u ≠ .unmoved) :
    Inv ⟨stepperStart d mask, fun u =>
      if mask.getLsbD u then (log u).start (d.start.getLsbD u) else log u⟩ := by
  have hbit : ∀ i, (stepperStart d mask).start.getLsbD i =
      (d.start.getLsbD i || mask.getLsbD i) := fun i => BitVec.getLsbD_or
  have hlog : ∀ u : Fin NSTEP, (if mask.getLsbD u then (log u).start (d.start.getLsbD u)
      else log u) = .unmoved ↔ log u = .unmoved := by
    intro u
    split
    · cases log u with
      | running m n k =>
        rw [Log.start_running]
        split <;> simp
      | _ => simp [Log.start]
    · rfl
  refine ⟨?_, ?_, ?_, h.pin_lt, h.pins, h.low, ?_⟩
  · intro i hi
    have hmask' : mask.getLsbD i = false := by
      by_contra hset
      obtain ⟨u, hu, -⟩ := hmask i (Bool.eq_true_of_not_eq_false hset)
      have hlt := u.isLt
      omega
    have hold : d.start.getLsbD i = false := h.start_lt i hi
    show (stepperStart d mask).start.getLsbD i = false
    rw [hbit, hold, hmask']
    rfl
  · intro u hu hun
    have hun' : log u = .unmoved := (hlog u).mp hun
    have hset : (d.start.getLsbD u || mask.getLsbD u) = true := (hbit u).symm.trans hu
    rcases Bool.or_eq_true_iff.mp hset with hold | hnew
    · exact h.moved u hold hun'
    · obtain ⟨v, hv, hmoved⟩ := hmask u hnew
      rw [Fin.ext hv] at hmoved
      exact hmoved hun'
  · intro u hu
    exact h.moving u fun hun => hu ((hlog u).mpr hun)
  · intro u
    have hu := h.log u
    have hbu := hbit u
    dsimp only at hu ⊢
    by_cases hset : mask.getLsbD u = true
    · rw [if_pos hset]
      rw [hset, Bool.or_true] at hbu
      cases hcase : log u with
      | unmoved => trivial
      | idle => trivial
      | armed m =>
        rw [hcase] at hu
        obtain ⟨-, hmoving, hsteps⟩ := hu
        refine ⟨hmoving, ?_, ?_⟩
        · intro _
          show 0 + (d.stepper u).steps.toNat = _ ∧ _
          rw [hsteps]
          exact ⟨Nat.zero_add _, Nat.zero_le _⟩
        · intro hstop
          rw [hbu] at hstop
          cases hstop
      | running m n k =>
        rw [hcase] at hu
        rw [Log.start_running]
        split
        · next hold =>
          obtain ⟨hmoving, hgo, -⟩ := hu
          refine ⟨hmoving, fun _ => hgo hold, ?_⟩
          intro hstop
          rw [hbu] at hstop
          cases hstop
        · trivial
    · rw [if_neg hset]
      rw [Bool.eq_false_of_not_eq_true hset, Bool.or_false] at hbu
      cases hcase : log u with
      | unmoved => trivial
      | idle => trivial
      | armed m =>
        rw [hcase] at hu
        exact ⟨hbu.trans hu.1, hu.2⟩
      | running m n k =>
        rw [hcase] at hu
        obtain ⟨hmoving, hgo, hdone⟩ := hu
        exact ⟨hmoving, fun hstart => hgo (hbu.symm.trans hstart),
          fun hstop => hdone (hbu.symm.trans hstop)⟩

end Starts

/-! ## Interrupts -/

section Interrupts

variable {d : Driver} {log : Fin NSTEP → Log} {l : Scan} {u : Fin NSTEP}

/-- An interrupt comes to an end. -/
theorem Inv.isr_ends (h : Inv ⟨d, log⟩) :
    ∃ l fuel, stepperIsr fuel d = .ok (l.finish d.out) ∧ Scanned d l ∧ l.started = 0 := by
  apply stepperIsr_ends h.start_lt
  intro u hu
  obtain ⟨m, hmoving⟩ := h.served u hu
  exact ⟨hmoving.paced, hmoving.ramps⟩

theorem Inv.started_setup (h : Inv ⟨d, log⟩) (hu : d.start.getLsbD u = true) :
    (d.stepper u).setup = true :=
  (h.moving u (h.moved u hu)).1

theorem Inv.ownPin (h : Inv ⟨d, log⟩) (hsetup : (d.stepper u).setup = true) : OwnPin d u :=
  fun v hne hv => h.pins u v hsetup (h.started_setup hv.1) hne

/-- What stays the same of a unit. -/
theorem Inv.frame (h : Inv ⟨d, log⟩) (hs : Scanned d l) (hzero : l.started = 0) (u : Fin NSTEP) :
    (l.stepper u).setup = (d.stepper u).setup ∧
      (l.stepper u).clock_pin = (d.stepper u).clock_pin ∧
      (l.stepper u).dir_pin = (d.stepper u).dir_pin ∧
      ∀ m, Moving m (d.stepper u) → Moving m (l.stepper u) := by
  cases hbit : d.start.getLsbD u with
  | true =>
    have hserved := hs.served u (hs.lt_of_started hzero hbit) hbit
    obtain ⟨m, hmoving⟩ := h.served u hbit
    obtain ⟨-, hsetup, hclock, hpin, -⟩ := hmoving.served hserved
    exact ⟨hsetup, hclock, hpin, fun m' hm' => (hm'.served hserved).1⟩
  | false =>
    rw [hs.idle u hbit]
    exact ⟨rfl, rfl, rfl, fun _ hm => hm⟩

/-- The units that stop are those at their last pulse. -/
theorem Scanned.start_bit (hs : Scanned d l) (hzero : l.started = 0) (u : Fin NSTEP) :
    l.start.getLsbD u = true ↔ d.start.getLsbD u = true ∧ ¬ Stops d u := by
  have hlt : u.val < 32 := Nat.lt_trans u.isLt (by decide)
  have hstop : l.stop_mask.getLsbD u = true ↔ Stops d u := by
    rw [hs.stop]
    constructor
    · rintro ⟨-, v, -, hv, heq⟩
      exact Fin.ext heq ▸ hv
    · intro hstops
      exact ⟨hlt, u, hs.lt_of_started hzero hstops.1.1, hstops, rfl⟩
  rw [← hstop, hs.start, BitVec.getLsbD_and, BitVec.getLsbD_not]
  simp [hlt]

/-- The log of a running unit after an interrupt. -/
theorem Inv.running (h : Inv ⟨d, log⟩) (hs : Scanned d l) (hzero : l.started = 0)
    (hsetup : (d.stepper u).setup = true) {m : Move} {n k : Nat}
    (hlog : Logged d u (.running m n k)) :
    Logged (l.finish d.out).driver u
      (.running m (n + rises (d.stepper u).clock_pin d.out l.writes) (k + 1)) := by
  obtain ⟨hmoving, hgo, hdone⟩ := hlog
  have hlongest := hmoving.ticks_le
  have hcticks := hmoving.cticks_lt
  have hstart := hs.start_bit hzero u
  obtain ⟨hone, hnone, -⟩ :=
    hs.rises_own hzero (h.ownPin hsetup) (h.pin_lt u hsetup) (h.low u hsetup)
  refine ⟨(h.frame hs hzero u).2.2.2 m hmoving, ?_⟩
  show (l.start.getLsbD u = true → n + _ + (l.stepper u).steps.toNat = _ ∧
      k + 1 ≤ (n + _) * m.longest + (l.stepper u).cticks.toNat) ∧
    (l.start.getLsbD u = false → n + _ = m.steps.toNat)
  cases hbit : d.start.getLsbD u with
  | false =>
    have hfires : ¬ Fires d u := fun hf => by simp [hf.1] at hbit
    have hstopped : ¬ l.start.getLsbD u = true := by
      rw [hstart, hbit]
      rintro ⟨hno, -⟩
      cases hno
    refine ⟨fun hno => absurd hno hstopped, fun _ => ?_⟩
    rw [hnone hfires]
    exact hdone hbit
  | true =>
    obtain ⟨hsum, hcount⟩ := hgo hbit
    obtain ⟨-, -, -, -, hwaits, hsteps⟩ :=
      hmoving.served (hs.served u (hs.lt_of_started hzero hbit) hbit)
    by_cases hdue : (d.stepper u).cticks + 1 = (d.stepper u).ticks
    · have hticks : (d.stepper u).cticks.toNat + 1 = (d.stepper u).ticks.toNat := by
        by_contra hne
        have hsucc := (hmoving.paced).two_le
        have heq := congrArg BitVec.toNat hdue
        rw [BitVec.toNat_add] at heq
        have hbound := (d.stepper u).ticks.isLt
        have hone' : (1 : BitVec 32).toNat = 1 := rfl
        omega
      rw [hone ⟨hbit, hdue⟩, Nat.succ_mul]
      by_cases hlast : (d.stepper u).steps = 1
      · have hstopped : ¬ l.start.getLsbD u = true := by
          rw [hstart]
          rintro ⟨-, hno⟩
          exact hno ⟨⟨hbit, hdue⟩, hlast⟩
        refine ⟨fun hno => absurd hno hstopped, fun _ => ?_⟩
        rw [hlast] at hsum
        exact hsum
      · have hgoes : l.start.getLsbD u = true := by
          rw [hstart]
          exact ⟨hbit, fun hstops => hlast hstops.2⟩
        have hnext := hsteps hdue hlast
        refine ⟨fun _ => ⟨by omega, by omega⟩, fun hno => ?_⟩
        rw [hgoes] at hno
        cases hno
    · obtain ⟨hsame, hcticks'⟩ := hwaits hdue
      have hgoes : l.start.getLsbD u = true := by
        rw [hstart]
        exact ⟨hbit, fun hstops => hdue hstops.1.2⟩
      rw [hnone fun hf => hdue hf.2, hsame, hcticks', Nat.add_zero]
      refine ⟨fun _ => ⟨hsum, by omega⟩, fun hno => ?_⟩
      rw [hgoes] at hno
      cases hno

theorem Inv.interrupt (h : Inv ⟨d, log⟩) (hs : Scanned d l) (hzero : l.started = 0) :
    Inv ⟨(l.finish d.out).driver, fun u =>
      (log u).interrupt (rises (d.stepper u).clock_pin d.out l.writes)⟩ := by
  have hlog : ∀ u, (log u).interrupt (rises (d.stepper u).clock_pin d.out l.writes) = .unmoved ↔
      log u = .unmoved := by
    intro u
    cases log u <;> simp [Log.interrupt]
  have hframe := h.frame hs hzero
  refine ⟨?_, ?_, ?_, ?_, ?_, ?_, ?_⟩
  · intro i hi
    show l.start.getLsbD i = false
    have hold : d.start.getLsbD i = false := h.start_lt i hi
    rw [hs.start, BitVec.getLsbD_and, hold]
    rfl
  · intro u hu hun
    exact h.moved u ((hs.start_bit hzero u).mp hu).1 ((hlog u).mp hun)
  · intro u hu
    obtain ⟨hsetup, m, hmoving⟩ := h.moving u fun hun => hu ((hlog u).mpr hun)
    exact ⟨(hframe u).1.trans hsetup, m, (hframe u).2.2.2 m hmoving⟩
  · intro u hu
    show (l.stepper u).clock_pin < 32
    rw [(hframe u).2.1]
    exact h.pin_lt u ((hframe u).1.symm.trans hu)
  · intro u v hu hv hne
    show (l.stepper v).clock_pin ≠ (l.stepper u).clock_pin ∧
      (l.stepper v).dir_pin ≠ (l.stepper u).clock_pin
    rw [(hframe u).2.1, (hframe v).2.1, (hframe v).2.2.1]
    exact h.pins u v ((hframe u).1.symm.trans hu) ((hframe v).1.symm.trans hv) hne
  · intro u hu
    have hsetup := (hframe u).1.symm.trans hu
    show (outAfter d.out l.writes).getLsbD (l.stepper u).clock_pin = false
    rw [(hframe u).2.1]
    exact (hs.rises_own hzero (h.ownPin hsetup) (h.pin_lt u hsetup) (h.low u hsetup)).2.2
  · intro u
    have hu := h.log u
    have hmoved := h.moving u
    dsimp only at hu hmoved ⊢
    cases hcase : log u with
    | unmoved => trivial
    | idle => trivial
    | armed m =>
      rw [hcase] at hu
      obtain ⟨hstop, hmoving, hsteps⟩ := hu
      have hgoes : ¬ l.start.getLsbD u = true := by
        rw [hs.start_bit hzero, hstop]
        rintro ⟨hno, -⟩
        cases hno
      have hidle : l.stepper u = d.stepper u := hs.idle u hstop
      refine ⟨Bool.eq_false_of_not_eq_true hgoes, ?_⟩
      show Moving m (l.stepper u) ∧ (l.stepper u).steps = m.steps
      rw [hidle]
      exact ⟨hmoving, hsteps⟩
    | running m n k =>
      rw [hcase] at hu
      have hsetup := (hmoved (by rw [hcase]; nofun)).1
      exact h.running hs hzero hsetup hu

end Interrupts

/-! ## Runs -/

theorem Inv.step {s s' : State} {e : Event} (h : Inv s) (hs : Step s e s') : Inv s' := by
  cases hs with
  | setup hfree hstep hdir hstep' hdir' => exact h.setup hfree hstep hstep' hdir'
  | move hmove => exact h.move hmove
  | moveFails hfails =>
    rcases stepperMove_cases hfails with ⟨hnone, -⟩ | ⟨-, rfl⟩
    · cases hnone
    · exact h
  | start hmask => exact h.start hmask
  | @interrupt d log fuel r hisr =>
    obtain ⟨l, fuel', hends, hscanned, hzero⟩ := h.isr_ends
    rw [stepperIsr_unique hends hisr]
    exact h.interrupt hscanned hzero

theorem inv_of_reach {s : State} (h : motion.Reach (fun _ _ => True) s) : Inv s := by
  apply Lts.Reach.invariant (L := motion) (I := Inv) _ _ h
  · rintro s rfl
    exact inv_init
  · intro s e s' hi _ hs
    exact hi.step hs

/-- A unit that was started on a move has made no more pulses than the move has steps, and all
    of them just when it has stopped, within `longest` interrupts for each. -/
theorem Inv.made {s : State} (h : Inv s) {u : Fin NSTEP} {m : Move} {n k : Nat}
    (hrunning : s.log u = .running m n k) :
    n ≤ m.steps.toNat ∧ (s.driver.start.getLsbD u = false ↔ n = m.steps.toNat) ∧
      (m.steps.toNat * m.longest ≤ k → n = m.steps.toNat) := by
  have hlog := h.log u
  rw [hrunning] at hlog
  obtain ⟨hmoving, hgo, hdone⟩ := hlog
  have hpos := hmoving.steps_pos
  have hcticks := hmoving.cticks_lt
  have hlongest := hmoving.ticks_le
  cases hbit : s.driver.start.getLsbD u with
  | false =>
    have hall := hdone hbit
    exact ⟨Nat.le_of_eq hall, ⟨fun _ => hall, fun _ => rfl⟩, fun _ => hall⟩
  | true =>
    obtain ⟨hsum, hcount⟩ := hgo hbit
    refine ⟨by omega, ⟨nofun, fun hall => by omega⟩, ?_⟩
    intro hk
    -- fewer pulses than steps take less than `longest` interrupts each
    have hle : (n + 1) * m.longest ≤ m.steps.toNat * m.longest :=
      Nat.mul_le_mul_right _ (by omega)
    rw [Nat.succ_mul] at hle
    omega

/-- In every state of every run the interrupt comes to an end, and a unit that
    was started on a move has made no more pulses than the move has steps, is
    stopped just when it has made them all, and has made them all after `longest`
    interrupts for each. -/
theorem stepper_pulses {s : State} (h : motion.Reach (fun _ _ => True) s) :
    (∃ fuel r, stepperIsr fuel s.driver = .ok r) ∧
    ∀ (u : Fin NSTEP) (m : Move) (n k : Nat), s.log u = .running m n k →
      n ≤ m.steps.toNat ∧ (s.driver.start.getLsbD u = false ↔ n = m.steps.toNat) ∧
        (m.steps.toNat * m.longest ≤ k → n = m.steps.toNat) := by
  have hinv := inv_of_reach h
  constructor
  · obtain ⟨l, fuel, hends, -⟩ := hinv.isr_ends
    exact ⟨fuel, _, hends⟩
  · intro u m n k hrunning
    exact hinv.made hrunning

/-- Three steps with a ramp of one, at 1000 Hz and 2000 Hz. -/
def shortMove : Move where
  steps := 3
  ramp := 1
  ifreq := 1000
  efreq := 2000
  steps_pos := by decide
  ramp_le := by decide
  ifreq_pos := by norm_num
  ifreq_le := by norm_num
  fast := by norm_num [STEPPER_HZ]
  slow := by
    rw [if_neg (by decide)]
    norm_num [STEPPER_HZ]

def unit0 : Fin NSTEP := ⟨0, by decide⟩

/-- A unit that was set up. -/
def oneUnit : Driver := setupUnit stepperInit unit0 4 5

theorem reach_oneUnit : motion.Reach (fun _ _ => True) ⟨oneUnit, fun _ => .unmoved⟩ := by
  have hunused : ∀ pin, Unused stepperInit pin := by
    intro pin u h
    cases h
  exact (Lts.Reach.init rfl).step (a := .setup 4 5) trivial
    (.setup rfl (by decide) (by decide) (hunused 4) (hunused 5))

theorem oneUnit_setup : (oneUnit.stepper unit0).setup = true := by
  unfold oneUnit setupUnit
  dsimp only
  rw [Function.update_self]

theorem reach_start {d : Driver} {log : Fin NSTEP → Log} {mask : BitVec 32}
    (h : motion.Reach (fun _ _ => True) ⟨d, log⟩)
    (hmask : ∀ i, mask.getLsbD i = true → ∃ u : Fin NSTEP, u = i ∧ log u ≠ .unmoved) :
    motion.Reach (fun _ _ => True) ⟨stepperStart d mask, fun u =>
      if mask.getLsbD u then (log u).start (d.start.getLsbD u) else log u⟩ :=
  h.step (a := .start mask) trivial (Step.start hmask)

/-- Any move of a unit can be started. -/
theorem reach_running (m : Move) :
    ∃ s, motion.Reach (fun _ _ => True) s ∧ s.log unit0 = .running m 0 0 := by
  obtain ⟨p, hmove, -⟩ := stepperMove_ok oneUnit_setup (Nat.le_refl 1) m
  have hmoved : motion.Reach (fun _ _ => True) ⟨_, Function.update (fun _ => Log.unmoved) unit0
      (Log.move (oneUnit.start.getLsbD unit0) m)⟩ :=
    reach_oneUnit.step (a := .move unit0 1 m) trivial (Step.move hmove)
  have hlog : Function.update (fun _ => Log.unmoved) unit0
      (Log.move (oneUnit.start.getLsbD unit0) m) unit0 = .armed m :=
    Function.update_self ..
  have hmask : ∀ i, (bit 0).getLsbD i = true → ∃ u : Fin NSTEP, u = i ∧
      Function.update (fun _ => Log.unmoved) unit0
        (Log.move (oneUnit.start.getLsbD unit0) m) u ≠ .unmoved := by
    intro i hi
    obtain ⟨-, rfl⟩ := (getLsbD_bit 0 i).mp hi
    refine ⟨unit0, rfl, ?_⟩
    rw [hlog]
    nofun
  refine ⟨_, reach_start hmoved hmask, ?_⟩
  dsimp only
  rw [hlog]
  rfl

/-- It is started on the move. -/
theorem stepper_pulses_shortMove : ∃ s : State, motion.Reach (fun _ _ => True) s ∧
    s.log unit0 = .running shortMove 0 0 ∧
    (∃ fuel r, stepperIsr fuel s.driver = .ok r) ∧
    ∀ (u : Fin NSTEP) (m : Move) (n k : Nat), s.log u = .running m n k →
      n ≤ m.steps.toNat ∧ (s.driver.start.getLsbD u = false ↔ n = m.steps.toNat) ∧
        (m.steps.toNat * m.longest ≤ k → n = m.steps.toNat) := by
  obtain ⟨s, hreach, hlog⟩ := reach_running shortMove
  exact ⟨s, hreach, hlog, stepper_pulses hreach⟩

/-- A step in more than twelve hours: the period is no `uint32_t`. -/
theorem stepperMove_slow : ∃ freq : ℚ, 0 < freq ∧ 2 ≤ STEPPER_HZ / freq ∧
    motion.Reach (fun _ _ => True) ⟨oneUnit, fun _ => .unmoved⟩ ∧
    stepperMove oneUnit unit0 1 1 0 freq freq = .error .undefined := by
  refine ⟨1 / 100000, by norm_num, by norm_num [STEPPER_HZ], reach_oneUnit, ?_⟩
  have hset : ¬ (!(oneUnit.stepper unit0).setup) = true := by
    rw [oneUnit_setup]
    decide
  unfold stepperMove
  rw [if_neg (by decide), if_neg (by decide), dif_pos unit0.isLt]
  dsimp only
  rw [if_neg hset, if_pos rfl, updateFrequency_slow (by norm_num) (by norm_num [STEPPER_HZ])]
  rfl

end LuaRtos.Stepper
