/-
  LuaRtos.Drivers.StepperTiming

  When the pulses of a move without ramp come.

  A period is rounded down and its fraction added to `lost`, whose whole ticks go to the counter:
  the next period is then a tick shorter, where it ought to be a tick longer.  The pulses are
  early by the fractions that were cut off, and by the ticks that are taken for them once more.
-/

import LuaRtos.Drivers.StepperMotion

namespace LuaRtos.Stepper

open CLib

namespace Move

variable (m : Move)

/-- The ticks of a period, rounded down. -/
def whole : Int := ⌊STEPPER_HZ / m.efreq⌋

/-- What is lost of a period. -/
def part : ℚ := Int.fract (STEPPER_HZ / m.efreq)

theorem part_nonneg : 0 ≤ m.part := Int.fract_nonneg _

theorem part_lt : m.part < 1 := Int.fract_lt_one _

theorem period_eq : STEPPER_HZ / m.efreq = m.whole + m.part := (Int.floor_add_fract _).symm

variable {m}

/-- A unit on a move without ramp has the frequency of the move. -/
theorem freqAt_eq (h : m.ramp = 0) (s : Nat) : m.freqAt s = m.efreq :=
  (m.freqAt_no_ramp h s).trans (if_pos h)

end Move

section Timing

variable {m : Move} {p q : StepperT}

theorem Moving.whole (h : Moving m p) (hramp : m.ramp = 0) : (p.ticks.toNat : Int) = m.whole := by
  rw [h.ticks, h.freq, Move.freqAt_eq hramp]
  rfl

theorem Moving.part (h : Moving m p) (hramp : m.ramp = 0) : p.lticks = m.part := by
  rw [h.lticks, h.freq, Move.freqAt_eq hramp]
  rfl

/-! ## The lost ticks -/

/-- A fraction that is added up by its whole and its rest. -/
theorem fract_add_part (x y : ℚ) : Int.fract (Int.fract x + y) = Int.fract (x + y) := by
  have h : Int.fract x + y = x + y - ⌊x⌋ := by
    rw [Int.fract]
    ring
  rw [h, Int.fract_sub_intCast]

theorem floor_add_part (x y : ℚ) : ⌊Int.fract x + y⌋ = ⌊x + y⌋ - ⌊x⌋ := by
  have h : Int.fract x + y = x + y - ⌊x⌋ := by
    rw [Int.fract]
    ring
  rw [h, Int.floor_sub_intCast]

/-- The unit after `n` pulses, which it has made within `k` interrupts. -/
structure Timed (m : Move) (n k : Nat) (p : StepperT) : Prop where
  lost : p.lost = Int.fract (n * m.part)
  time : (k : Int) + ⌊n * m.part⌋ = n * m.whole + p.cticks.toNat

/-- An interrupt without a pulse counts one tick. -/
theorem Timed.waits {n k : Nat} (h : Timed m n k p)
    (hsucc : (p.cticks + 1).toNat = p.cticks.toNat + 1) :
    Timed m n (k + 1) { p with cticks := p.cticks + 1 } := by
  refine ⟨h.lost, ?_⟩
  have htime := h.time
  show ((k + 1 : Nat) : Int) + _ = _ + ((p.cticks + 1).toNat : Int)
  rw [hsucc]
  omega

/-- A pulse starts a period with the whole ticks that were lost. -/
theorem Timed.pulse {n k : Nat} (h : Timed m n k p) (hmoving : Moving m p) (hramp : m.ramp = 0)
    (hdue : p.cticks.toNat + 1 = p.ticks.toNat) {cticks : BitVec 32} {lost : ℚ}
    (hc : compensate 0 (p.lost + p.lticks) = .ok (cticks, lost)) (hcticks : q.cticks = cticks)
    (hlost : q.lost = lost) : Timed m (n + 1) (k + 1) q := by
  have hsum : (n : ℚ) * m.part + m.part = ((n + 1 : Nat) : ℚ) * m.part := by
    push_cast
    ring
  have hpos : 0 ≤ p.lost + p.lticks := by
    have hpart := m.part_nonneg
    have hnonneg := hmoving.lost_nonneg
    rw [hmoving.part hramp]
    linarith
  have hlt : p.lost + p.lticks < 2 := by
    have hpart := m.part_lt
    have hlost' := hmoving.lost_lt
    rw [hmoving.part hramp]
    linarith
  have heq := compensate_eq 0 hpos
  rw [hc] at heq
  obtain ⟨rfl, rfl⟩ := Prod.mk.inj (Except.ok.inj heq)
  have hfloor : ⌊p.lost + p.lticks⌋ = ⌊((n + 1 : Nat) : ℚ) * m.part⌋ - ⌊(n : ℚ) * m.part⌋ := by
    rw [h.lost, hmoving.part hramp, floor_add_part, hsum]
  have hnat : (q.cticks.toNat : Int) = ⌊p.lost + p.lticks⌋ := by
    have hfloor_nonneg : 0 ≤ ⌊p.lost + p.lticks⌋ := Int.floor_nonneg.mpr hpos
    have hfloor_lt : ⌊p.lost + p.lticks⌋ < 2 := Int.floor_lt.mpr (by exact_mod_cast hlt)
    have hzero : (0 : BitVec 32).toNat = 0 := rfl
    rw [hcticks, BitVec.toNat_add, BitVec.toNat_ofNat, hzero]
    omega
  refine ⟨?_, ?_⟩
  · rw [hlost, h.lost, hmoving.part hramp, fract_add_part, hsum]
  · have htime := h.time
    have hwhole := hmoving.whole hramp
    have hmul : ((n + 1 : Nat) : Int) * m.whole = n * m.whole + m.whole := by
      push_cast
      ring
    rw [hnat, hfloor, hmul]
    omega

/-- The interrupt of the pulse number `n + 1`. -/
theorem Timed.due {n k : Nat} (h : Timed m n k p) (hmoving : Moving m p) (hramp : m.ramp = 0)
    (hdue : p.cticks.toNat + 1 = p.ticks.toNat) :
    ((k + 1 : Nat) : ℚ) - ((n + 1 : Nat) : ℚ) * (STEPPER_HZ / m.efreq) =
      -(((n + 1 : Nat) : ℚ) * m.part + ⌊(n : ℚ) * m.part⌋) := by
  have htime := h.time
  have hwhole := hmoving.whole hramp
  have hk : (k + 1 : Int) = (n + 1) * m.whole - ⌊(n : ℚ) * m.part⌋ := by
    rw [add_mul, one_mul]
    omega
  have hkq : ((k + 1 : Nat) : ℚ) = ((n : ℚ) + 1) * m.whole - ⌊(n : ℚ) * m.part⌋ := by
    exact_mod_cast hk
  rw [hkq, m.period_eq]
  push_cast
  ring

/-- It is less than two ticks early just where no tick has been taken for the lost ones. -/
theorem early_lt_two {x : ℚ} (hx : 0 ≤ x) (hlt : x < 1) (n : Nat) :
    |(-(((n + 1 : Nat) : ℚ) * x + ⌊(n : ℚ) * x⌋) : ℚ)| < 2 ↔ (n : ℚ) * x < 1 := by
  have hn : 0 ≤ (n : ℚ) * x := mul_nonneg (Nat.cast_nonneg n) hx
  have hsucc : ((n + 1 : Nat) : ℚ) * x = n * x + x := by
    push_cast
    ring
  have hfloor : (0 : ℚ) ≤ ⌊(n : ℚ) * x⌋ := by
    exact_mod_cast Int.floor_nonneg.mpr hn
  rw [abs_neg, abs_of_nonneg (by rw [hsucc]; linarith), hsucc]
  constructor
  · intro h
    by_contra hge
    have hone : (1 : ℚ) ≤ ⌊(n : ℚ) * x⌋ := by
      exact_mod_cast Int.le_floor.mpr (by exact_mod_cast not_lt.mp hge)
    linarith
  · intro h
    have hzero : ⌊(n : ℚ) * x⌋ = 0 := Int.floor_eq_zero_iff.mpr ⟨hn, h⟩
    rw [hzero]
    push_cast
    linarith

end Timing

/-! ## Runs -/

section Runs

variable {d d' : Driver} {log : Fin NSTEP → Log} {u : Fin NSTEP} {m : Move} {n k : Nat}

/-- The log of a unit tells its interrupts. -/
def TimedLog (d : Driver) (u : Fin NSTEP) : Log → Prop
  | .unmoved => True
  | .idle => True
  | .armed m => m.ramp = 0 → Timed m 0 0 (d.stepper u)
  | .running m n k => m.ramp = 0 → d.start.getLsbD u = true → Timed m n k (d.stepper u)

def Punctual (s : State) : Prop := ∀ u, TimedLog s.driver u (s.log u)

/-- A unit that is left alone keeps its time. -/
theorem TimedLog.congr {entry : Log} (h : TimedLog d u entry)
    (heq : entry ≠ .unmoved → d'.stepper u = d.stepper u)
    (hstart : d'.start.getLsbD u = true → d.start.getLsbD u = true) : TimedLog d' u entry := by
  cases entry with
  | unmoved => trivial
  | idle => trivial
  | armed m =>
    intro hramp
    rw [heq nofun]
    exact h hramp
  | running m n k =>
    intro hramp hgo
    rw [heq nofun]
    exact h hramp (hstart hgo)

theorem timed_zero {p : StepperT} (hlost : p.lost = 0) (hcticks : p.cticks = 0) :
    Timed m 0 0 p := by
  refine ⟨?_, ?_⟩
  · rw [hlost, Nat.cast_zero, zero_mul, Int.fract_zero]
  · have hzero : (0 : BitVec 32).toNat = 0 := rfl
    rw [hcticks, hzero, Nat.cast_zero, Nat.cast_zero, zero_mul, zero_mul, Int.floor_zero]

/-- `stepper_move` clears the counter and the lost ticks, and leaves the other units. -/
theorem stepperMove_cleared {dir : Nat}
    (h : stepperMove d u dir m.steps m.ramp m.ifreq m.efreq = .ok (none, d')) :
    d'.start = d.start ∧ (∀ v, v ≠ u → d'.stepper v = d.stepper v) ∧
      (d'.stepper u).lost = 0 ∧ (d'.stepper u).cticks = 0 := by
  rcases stepperMove_cases h with ⟨-, hsetup, hdir⟩ | ⟨hne, -⟩
  · have hslow : STEPPER_HZ / m.base < 4294967296 := m.slow
    obtain ⟨t, -, heq⟩ := updateFrequency_eq m.base_pos hslow (moved (d.stepper u) dir m)
    have hset : ¬ (!(d.stepper u).setup) = true := by
      rw [hsetup]
      decide
    unfold stepperMove at h
    rw [if_neg (Nat.not_lt.mpr hdir), if_neg (Nat.not_lt.mpr (Nat.le_of_lt u.isLt)),
      dif_pos u.isLt] at h
    dsimp only at h
    rw [if_neg hset] at h
    obtain ⟨p, hp, hret⟩ := bind_eq_ok.mp h
    obtain rfl := Except.ok.inj (heq.symm.trans hp)
    obtain ⟨-, rfl⟩ := Prod.mk.inj (Except.ok.inj hret)
    refine ⟨rfl, fun v hv => Function.update_of_ne hv .., ?_, ?_⟩
    · show (Function.update d.stepper u _ u).lost = 0
      rw [Function.update_self]
      rfl
    · show (Function.update d.stepper u _ u).cticks = 0
      rw [Function.update_self]
      rfl
  · exact absurd rfl hne

theorem Punctual.setup (h : Punctual ⟨d, log⟩) (hinv : Inv ⟨d, log⟩) {step_pin dir_pin : Nat}
    (hfree : freeUnit d = some u) : Punctual ⟨setupUnit d u step_pin dir_pin, log⟩ := by
  intro v
  refine (h v).congr (fun hmoved => ?_) fun hgo => hgo
  have hne : v ≠ u := by
    rintro rfl
    have hset := (hinv.moving v hmoved).1
    rw [freeUnit_setup hfree] at hset
    cases hset
  exact Function.update_of_ne hne ..

theorem Punctual.move (h : Punctual ⟨d, log⟩) {dir : Nat}
    (hmove : stepperMove d u dir m.steps m.ramp m.ifreq m.efreq = .ok (none, d')) :
    Punctual ⟨d', Function.update log u (Log.move (d.start.getLsbD u) m)⟩ := by
  obtain ⟨hstart, hother, hlost, hcticks⟩ := stepperMove_cleared hmove
  intro v
  dsimp only
  by_cases hne : v = u
  · subst hne
    rw [Function.update_self]
    unfold Log.move
    split
    · trivial
    · exact fun _ => timed_zero hlost hcticks
  · rw [Function.update_of_ne hne]
    refine (h v).congr (fun _ => hother v hne) fun hgo => ?_
    rwa [hstart] at hgo

theorem Punctual.start (h : Punctual ⟨d, log⟩) (mask : BitVec 32) :
    Punctual ⟨stepperStart d mask, fun u =>
      if mask.getLsbD u then (log u).start (d.start.getLsbD u) else log u⟩ := by
  intro u
  have hu := h u
  have hbit : (stepperStart d mask).start.getLsbD u =
      (d.start.getLsbD u || mask.getLsbD u) := BitVec.getLsbD_or
  dsimp only at hu ⊢
  by_cases hset : mask.getLsbD u = true
  · rw [if_pos hset]
    cases hcase : log u with
    | unmoved => trivial
    | idle => trivial
    | armed m =>
      rw [hcase] at hu
      exact fun hramp _ => hu hramp
    | running m n k =>
      rw [hcase] at hu
      rw [Log.start_running]
      split
      · next hold => exact fun hramp _ => hu hramp hold
      · trivial
  · rw [if_neg hset]
    refine hu.congr (fun _ => rfl) fun hgo => ?_
    rw [hbit, Bool.or_eq_true] at hgo
    exact hgo.resolve_right hset

/-- A due counter is one below the period. -/
theorem Moving.due_iff {p : StepperT} (h : Moving m p) :
    p.cticks + 1 = p.ticks ↔ p.cticks.toNat + 1 = p.ticks.toNat := by
  have hlt := h.cticks_lt
  have hbound := p.ticks.isLt
  have hone : (1 : BitVec 32).toNat = 1 := rfl
  constructor
  · intro heq
    have hnat := congrArg BitVec.toNat heq
    rw [BitVec.toNat_add, hone] at hnat
    omega
  · intro heq
    apply BitVec.eq_of_toNat_eq
    rw [BitVec.toNat_add, hone]
    omega

/-- A running unit after an interrupt that does not end its move. -/
theorem Timed.served {p q : StepperT} (h : Timed m n k p) (hmoving : Moving m p)
    (hramp : m.ramp = 0) (hserved : Served p q) (hlast : ¬ (p.cticks + 1 = p.ticks ∧ p.steps = 1)) :
    (p.cticks + 1 ≠ p.ticks → Timed m n (k + 1) q) ∧
      (p.cticks + 1 = p.ticks → Timed m (n + 1) (k + 1) q) := by
  cases hserved with
  | waits hdue =>
    refine ⟨fun _ => h.waits (hmoving.paced.succ_lt hdue).1, fun hdue' => absurd hdue' hdue⟩
  | @steps cticks lost q hdue hsteps hc hr =>
    refine ⟨fun hdue' => absurd hdue hdue', fun _ => ?_⟩
    obtain ⟨q', hq', hramped⟩ := hmoving.ramp hsteps cticks lost
    obtain rfl := Except.ok.inj (hr.symm.trans hq')
    exact h.pulse hmoving hramp (hmoving.due_iff.mp hdue) hc hramped.cticks hramped.lost
  | stops hdue hsteps => exact absurd ⟨hdue, hsteps⟩ hlast

theorem Punctual.interrupt (h : Punctual ⟨d, log⟩) (hinv : Inv ⟨d, log⟩) {l : Scan}
    (hs : Scanned d l) (hzero : l.started = 0) :
    Punctual ⟨(l.finish d.out).driver, fun u =>
      (log u).interrupt (rises (d.stepper u).clock_pin d.out l.writes)⟩ := by
  intro u
  have hu := h u
  have hlog := hinv.log u
  have hmoved := hinv.moving u
  dsimp only at hu hlog hmoved ⊢
  cases hcase : log u with
  | unmoved => trivial
  | idle => trivial
  | armed m =>
    rw [hcase] at hu hlog
    intro hramp
    show Timed m 0 0 (l.stepper u)
    rw [hs.idle u hlog.1]
    exact hu hramp
  | running m n k =>
    rw [hcase] at hu hlog
    have hsetup := (hmoved (by rw [hcase]; nofun)).1
    intro hramp hgo
    obtain ⟨hbit, hnot⟩ := (hs.start_bit hzero u).mp hgo
    obtain ⟨hwaits, hpulse⟩ := (hu hramp hbit).served hlog.1 hramp
      (hs.served u (hs.lt_of_started hzero hbit) hbit) fun hlast => hnot ⟨⟨hbit, hlast.1⟩, hlast.2⟩
    obtain ⟨hone, hnone, -⟩ :=
      hs.rises_own hzero (hinv.ownPin hsetup) (hinv.pin_lt u hsetup) (hinv.low u hsetup)
    show Timed m (n + rises (d.stepper u).clock_pin d.out l.writes) (k + 1) (l.stepper u)
    by_cases hdue : (d.stepper u).cticks + 1 = (d.stepper u).ticks
    · rw [hone ⟨hbit, hdue⟩]
      exact hpulse hdue
    · rw [hnone fun hfires => hdue hfires.2]
      exact hwaits hdue

theorem Punctual.step {s s' : State} {e : Event} (h : Punctual s) (hinv : Inv s)
    (hs : Step s e s') : Punctual s' := by
  cases hs with
  | setup hfree => exact h.setup hinv hfree
  | move hmove => exact h.move hmove
  | moveFails hfails =>
    rcases stepperMove_cases hfails with ⟨hnone, -⟩ | ⟨-, rfl⟩
    · cases hnone
    · exact h
  | start hmask => exact h.start _
  | interrupt hisr =>
    obtain ⟨l, fuel, hends, hscanned, hzero⟩ := hinv.isr_ends
    rw [stepperIsr_unique hends hisr]
    exact h.interrupt hinv hscanned hzero

theorem punctual_of_reach {s : State} (h : motion.Reach (fun _ _ => True) s) : Punctual s := by
  have hboth : Inv s ∧ Punctual s := by
    apply Lts.Reach.invariant (L := motion) (I := fun s => Inv s ∧ Punctual s) _ _ h
    · rintro s rfl
      exact ⟨inv_init, fun _ => trivial⟩
    · rintro s e s' ⟨hinv, hpunctual⟩ _ hs
      exact ⟨hinv.step hs, hpunctual.step hinv hs⟩
  exact hboth.2

/-! ## The pulses -/

/-- The pulse number `n + 1` of a unit comes with the interrupt number `k + 1` of its move. -/
structure PulseAt (u : Fin NSTEP) (m : Move) (n k : Nat) (s s' : State) : Prop where
  reach : motion.Reach (fun _ _ => True) s
  step : Step s .interrupt s'
  before : s.log u = .running m n k
  after : s'.log u = .running m (n + 1) (k + 1)

/-- The unit was due. -/
theorem PulseAt.due {s s' : State} (h : PulseAt u m n k s s') :
    s.driver.start.getLsbD u = true ∧
      (s.driver.stepper u).cticks + 1 = (s.driver.stepper u).ticks := by
  obtain ⟨hreach, hstep, hbefore, hafter⟩ := h
  have hinv := inv_of_reach hreach
  cases hstep with
  | @interrupt d log fuel r hisr =>
    obtain ⟨l, fuel', hends, hscanned, hzero⟩ := hinv.isr_ends
    obtain rfl := stepperIsr_unique hends hisr
    have hsetup := (hinv.moving u (by rw [hbefore]; nofun)).1
    by_contra hfires
    obtain ⟨-, hnone, -⟩ :=
      hscanned.rises_own hzero (hinv.ownPin hsetup) (hinv.pin_lt u hsetup) (hinv.low u hsetup)
    dsimp only at hbefore hafter
    rw [hbefore] at hafter
    change Log.running m (n + rises (d.stepper u).clock_pin d.out l.writes) (k + 1) = _ at hafter
    rw [hnone hfires] at hafter
    injection hafter with _ hn _
    omega

/-- A pulse of a move without ramp is early by what was lost, and what was taken for it. -/
theorem PulseAt.early {s s' : State} (h : PulseAt u m n k s s') (hramp : m.ramp = 0) :
    n < m.steps.toNat ∧ ((k + 1 : Nat) : ℚ) - ((n + 1 : Nat) : ℚ) * (STEPPER_HZ / m.efreq) =
      -(((n + 1 : Nat) : ℚ) * m.part + ⌊(n : ℚ) * m.part⌋) := by
  obtain ⟨hbit, hdue⟩ := h.due
  have htimed := punctual_of_reach h.reach u
  have hlog := (inv_of_reach h.reach).log u
  rw [h.before] at htimed hlog
  obtain ⟨hmoving, hgo, -⟩ := hlog
  have hpos := hmoving.steps_pos
  have hsum := (hgo hbit).1
  exact ⟨by omega, (htimed hramp hbit).due hmoving hramp (hmoving.due_iff.mp hdue)⟩

/-- An interrupt always comes, with one pulse of a unit at most. -/
theorem exists_interrupt {s : State} (h : motion.Reach (fun _ _ => True) s)
    (hrun : s.log u = .running m n k) :
    ∃ s' n', Step s .interrupt s' ∧ s'.log u = .running m n' (k + 1) ∧ n ≤ n' ∧ n' ≤ n + 1 := by
  obtain ⟨d, log⟩ := s
  have hinv := inv_of_reach h
  obtain ⟨l, fuel, hends, hscanned, hzero⟩ := hinv.isr_ends
  have hsetup := (hinv.moving u (by rw [hrun]; nofun)).1
  obtain ⟨hone, hnone, -⟩ :=
    hscanned.rises_own hzero (hinv.ownPin hsetup) (hinv.pin_lt u hsetup) (hinv.low u hsetup)
  refine ⟨_, n + rises (d.stepper u).clock_pin d.out l.writes, .interrupt hends, ?_,
    Nat.le_add_right .., ?_⟩
  · dsimp only at hrun ⊢
    rw [hrun]
    rfl
  · by_cases hfires : Fires d u
    · exact Nat.le_of_eq (congrArg (n + ·) (hone hfires))
    · rw [hnone hfires]
      omega

/-- Every pulse of a move comes in some run. -/
theorem exists_pulse (m : Move) {n : Nat} (hn : n < m.steps.toNat) :
    ∃ k s s', PulseAt unit0 m n k s s' := by
  by_contra hnone
  -- before the pulse the interrupts go on, and the pulses made are no more than `n`
  have hruns : ∀ k, ∃ s i, motion.Reach (fun _ _ => True) s ∧
      s.log unit0 = .running m i k ∧ i ≤ n := by
    intro k
    induction k with
    | zero =>
      obtain ⟨s, hreach, hlog⟩ := reach_running m
      exact ⟨s, 0, hreach, hlog, Nat.zero_le n⟩
    | succ k ih =>
      obtain ⟨s, i, hreach, hlog, hle⟩ := ih
      obtain ⟨s', i', hstep, hlog', hle', hle''⟩ := exists_interrupt hreach hlog
      refine ⟨s', i', hreach.step (a := .interrupt) trivial hstep, hlog', ?_⟩
      by_contra hgt
      obtain rfl : i' = n + 1 := by omega
      obtain rfl : i = n := by omega
      exact hnone ⟨k, s, s', hreach, hstep, hlog, hlog'⟩
  obtain ⟨s, i, hreach, hlog, hle⟩ := hruns (m.steps.toNat * m.longest)
  have hall := ((inv_of_reach hreach).made hlog).2.2 (Nat.le_refl _)
  omega

/-- A move of so many steps without ramp is accepted, and each of its pulses comes less than two
    interrupts from where it belongs. -/
structure OnTime (steps : BitVec 32) (f : ℚ) : Prop where
  accepted : ∀ (d : Driver) (u : Fin NSTEP) (dir : Nat), (d.stepper u).setup = true → dir ≤ 1 →
    ∃ d', stepperMove d u dir steps 0 f f = .ok (none, d')
  pulses : ∀ u m n k s s', m.steps = steps → m.ramp = 0 → m.efreq = f → PulseAt u m n k s s' →
    |((k + 1 : Nat) : ℚ) - ((n + 1 : Nat) : ℚ) * (STEPPER_HZ / f)| < 2

theorem onTime_of_exact {steps : BitVec 32} {f : ℚ} (hf : 0 < f)
    (hslow : STEPPER_HZ / f < 4294967296)
    (hexact : ((steps.toNat : ℚ) - 1) * Int.fract (STEPPER_HZ / f) < 1) : OnTime steps f := by
  constructor
  · intro d u dir hsetup hdir
    obtain ⟨t, -, heq⟩ := updateFrequency_eq hf hslow
      { d.stepper u with
        steps := steps, steps_up := steps - 0 + 1, steps_down := 0, target_freq := f,
        current_freq := f, freq_inc := 0, dir := dir, lost := 0, cticks := 0 }
    have hset : ¬ (!(d.stepper u).setup) = true := by
      rw [hsetup]
      decide
    unfold stepperMove
    rw [if_neg (Nat.not_lt.mpr hdir), if_neg (Nat.not_lt.mpr (Nat.le_of_lt u.isLt)),
      dif_pos u.isLt]
    dsimp only
    rw [if_neg hset]
    exact ⟨_, bind_eq_ok.mpr ⟨_, heq, rfl⟩⟩
  · rintro u m n k s s' rfl hramp rfl hpulse
    obtain ⟨hn, hearly⟩ := hpulse.early hramp
    rw [hearly, early_lt_two m.part_nonneg m.part_lt]
    have hle : (n : ℚ) ≤ (m.steps.toNat : ℚ) - 1 := by
      have hcast : ((n + 1 : Nat) : ℚ) ≤ m.steps.toNat := by exact_mod_cast hn
      push_cast at hcast
      linarith
    exact lt_of_le_of_lt (mul_le_mul_of_nonneg_right hle m.part_nonneg) hexact

/-- From where the lost ticks make up a whole one on, the pulses are off. -/
theorem not_onTime {steps : BitVec 32} {f : ℚ} (hf : 0 < f) (hfast : 2 ≤ STEPPER_HZ / f)
    (hlost : ¬ (STEPPER_HZ / f < 4294967296 ∧
      ((steps.toNat : ℚ) - 1) * Int.fract (STEPPER_HZ / f) < 1)) : ¬ OnTime steps f := by
  intro h
  by_cases hslow : STEPPER_HZ / f < 4294967296
  · have hdrift : 1 ≤ ((steps.toNat : ℚ) - 1) * Int.fract (STEPPER_HZ / f) :=
      not_lt.mp fun hlt => hlost ⟨hslow, hlt⟩
    have hsteps : 1 ≤ steps.toNat := by
      by_contra hzero
      obtain hzero : steps.toNat = 0 := by omega
      have hfract := Int.fract_nonneg (STEPPER_HZ / f)
      rw [hzero, Nat.cast_zero, zero_sub, neg_one_mul] at hdrift
      linarith
    obtain ⟨n, hn⟩ := Nat.exists_eq_add_one_of_ne_zero (Nat.ne_of_gt hsteps)
    obtain ⟨m, rfl, hramp, rfl⟩ : ∃ m : Move, m.steps = steps ∧ m.ramp = 0 ∧ m.efreq = f := by
      refine ⟨⟨steps, 0, f, f, hsteps, Nat.zero_le _, hf, le_refl f, hfast, ?_⟩, rfl, rfl, rfl⟩
      rw [if_pos rfl]
      exact hslow
    obtain ⟨k, s, s', hpulse⟩ := exists_pulse m (show n < m.steps.toNat by omega)
    have hoff := h.pulses unit0 m n k s s' rfl hramp rfl hpulse
    rw [(hpulse.early hramp).2, early_lt_two m.part_nonneg m.part_lt] at hoff
    rw [hn] at hdrift
    push_cast at hdrift
    rw [add_sub_cancel_right] at hdrift
    exact absurd hoff (not_lt.mpr hdrift)
  · obtain ⟨d', hmove⟩ := h.accepted oneUnit unit0 1 oneUnit_setup (Nat.le_refl 1)
    have hset : ¬ (!(oneUnit.stepper unit0).setup) = true := by
      rw [oneUnit_setup]
      decide
    unfold stepperMove at hmove
    rw [if_neg (by decide), if_neg (by decide), dif_pos unit0.isLt] at hmove
    dsimp only at hmove
    rw [if_neg hset, if_pos rfl, updateFrequency_slow hf (not_lt.mp hslow)] at hmove
    cases hmove

end Runs

end LuaRtos.Stepper
