/-
  LuaRtos.Drivers.StepperRamp

  The frequencies of a move with a ramp.

  The thresholds of the ramp come from `steps - ramp + 1` in `uint32_t`.  For a ramp of at most one
  step more than the move that is a number of steps, and the frequency goes up with the first
  pulses and down with the last ones.  A longer ramp makes the subtraction wrap: the frequency then
  goes down from the first pulse on.
-/

import LuaRtos.Drivers.StepperDrive

namespace LuaRtos.Stepper

open CLib

/-- The frequency that the ramp writes at a pulse that is not the last. -/
def StepperT.rampFreq (p : StepperT) : ℚ :=
  if p.steps_up ≤ p.steps then p.current_freq + p.freq_inc
  else if p.steps ≤ p.steps_down then p.current_freq - p.freq_inc
  else p.current_freq

/-- The frequency of a unit on the move stays between the first and the last one, and so does the
    one that an interrupt gives it. -/
structure RampsWithin (a : Request) : Prop where
  accepted : ∀ (d : Driver) (u : Fin NSTEP), (d.stepper u).setup = true →
    ∃ d', stepperMove d u 0 a.steps a.ramp a.ifreq a.efreq = .ok (none, d')
  freq : ∀ (s : Track) (u : Fin NSTEP), drive.Reach (fun _ _ => True) s → s.last u = some a →
    a.ifreq ≤ (s.driver.stepper u).current_freq ∧ (s.driver.stepper u).current_freq ≤ a.efreq
  next : ∀ (s : Track) (u : Fin NSTEP), drive.Reach (fun _ _ => True) s → s.last u = some a →
    s.driver.start.getLsbD u = true →
    (s.driver.stepper u).cticks + 1 = (s.driver.stepper u).ticks →
    (s.driver.stepper u).steps ≠ 1 →
    a.ifreq ≤ (s.driver.stepper u).rampFreq ∧ (s.driver.stepper u).rampFreq ≤ a.efreq

section Ramp

variable {a : Request} {p q : StepperT}

theorem ramp_freq (h : ramp p = .ok q) : q.current_freq = p.rampFreq := by
  unfold ramp at h
  unfold StepperT.rampFreq
  split at h
  · next hup =>
    rw [if_pos hup, (updateFrequency_tuned h).1]
  · next hup =>
    rw [if_neg hup]
    split at h
    · next hdown =>
      rw [if_pos hdown, (updateFrequency_tuned h).1]
    · next hdown =>
      rw [if_neg hdown, Except.ok.inj h]

theorem OnMove.rampFreq_eq (h : OnMove a p) :
    p.rampFreq = a.nextFreq p.steps p.current_freq := by
  unfold StepperT.rampFreq Request.nextFreq
  rw [h.up, h.down, h.inc]

namespace Request

variable (a)

/-- The increments after `k` pulses: one up for each of the first, one down for each of the
    last. -/
def level (k : Nat) : Nat :=
  min k a.ramp.toNat - (k - max a.ramp.toNat (a.steps.toNat - a.ramp.toNat))

theorem level_le (k : Nat) : a.level k ≤ a.ramp.toNat := by
  unfold level
  omega

variable {a}

theorem ramp_toNat_pos (h : a.ramp ≠ 0) : 0 < a.ramp.toNat := by
  rw [Nat.pos_iff_ne_zero]
  intro hzero
  exact h (BitVec.eq_of_toNat_eq hzero)

/-- The steps that are left. -/
theorem left_toNat {k : Nat} (hk : k ≤ a.steps.toNat) :
    (a.steps - BitVec.ofNat 32 k).toNat = a.steps.toNat - k := by
  have hlt := a.steps.isLt
  have hmod : k % 2 ^ 32 = k := Nat.mod_eq_of_lt (Nat.lt_of_le_of_lt hk hlt)
  rw [BitVec.toNat_sub, BitVec.toNat_ofNat, hmod]
  omega

/-- Pulses none of which is the last are less than the steps. -/
theorem lt_steps {k : Nat} (hsteps : a.steps ≠ 0)
    (hmore : ∀ j < k, a.steps - BitVec.ofNat 32 j ≠ 1) : k < a.steps.toNat := by
  have hpos : 0 < a.steps.toNat := by
    rw [Nat.pos_iff_ne_zero]
    intro hzero
    exact hsteps (BitVec.eq_of_toNat_eq hzero)
  by_contra hge
  have hlast := left_toNat (a := a) (Nat.sub_le a.steps.toNat 1)
  refine hmore (a.steps.toNat - 1) (by omega) ?_
  apply BitVec.eq_of_toNat_eq
  rw [hlast]
  show _ = 1
  omega

/-- The threshold of a ramp that is not too long. -/
theorem up_toNat (hramp : a.ramp ≠ 0) (hlen : a.ramp.toNat ≤ a.steps.toNat + 1) :
    (a.steps - a.ramp + 1).toNat = a.steps.toNat + 1 - a.ramp.toNat := by
  have hlt := a.steps.isLt
  have hpos := ramp_toNat_pos hramp
  have hone : (1 : BitVec 32).toNat = 1 := rfl
  rw [BitVec.toNat_add, BitVec.toNat_sub, hone]
  omega

/-- What a pulse adds to the increments. -/
theorem nextFreq_level (hramp : a.ramp ≠ 0) (hlen : a.ramp.toNat ≤ a.steps.toNat + 1) {k : Nat}
    (hk : k + 1 < a.steps.toNat) :
    a.nextFreq (a.steps - BitVec.ofNat 32 k) (a.base + a.inc * a.level k) =
      a.base + a.inc * a.level (k + 1) := by
  have hup := up_toNat hramp hlen
  have hleft := left_toNat (a := a) (k := k) (by omega)
  unfold nextFreq
  by_cases hfirst : k < a.ramp.toNat
  · have hcase : a.steps - a.ramp + 1 ≤ a.steps - BitVec.ofNat 32 k := by
      rw [BitVec.le_def, hup, hleft]
      omega
    have hlevel : a.level (k + 1) = a.level k + 1 := by
      unfold level
      omega
    rw [if_pos hcase, hlevel]
    push_cast
    ring
  · have hcase : ¬ a.steps - a.ramp + 1 ≤ a.steps - BitVec.ofNat 32 k := by
      rw [BitVec.le_def, hup, hleft]
      omega
    rw [if_neg hcase]
    by_cases hlast : a.steps.toNat - k ≤ a.ramp.toNat
    · have hcase' : a.steps - BitVec.ofNat 32 k ≤ a.ramp := by
        rw [BitVec.le_def, hleft]
        exact hlast
      have hlevel : a.level k = a.level (k + 1) + 1 := by
        unfold level
        omega
      rw [if_pos hcase', hlevel]
      push_cast
      ring
    · have hcase' : ¬ a.steps - BitVec.ofNat 32 k ≤ a.ramp := by
        rw [BitVec.le_def, hleft]
        exact hlast
      have hlevel : a.level (k + 1) = a.level k := by
        unfold level
        omega
      rw [if_neg hcase', hlevel]

theorem freqAfter_level (hramp : a.ramp ≠ 0) (hlen : a.ramp.toNat ≤ a.steps.toNat + 1) (k : Nat)
    (hk : k < a.steps.toNat) : a.freqAfter k = a.base + a.inc * a.level k := by
  induction k with
  | zero =>
    have hlevel : a.level 0 = 0 := by
      unfold level
      omega
    rw [freqAfter, hlevel, Nat.cast_zero, mul_zero, add_zero]
  | succ k ih =>
    rw [freqAfter, ih (by omega)]
    exact nextFreq_level hramp hlen hk

/-- Without increments the frequency stays. -/
theorem freqAfter_flat (hinc : a.inc = 0) (k : Nat) : a.freqAfter k = a.base := by
  induction k with
  | zero => rfl
  | succ k ih =>
    rw [freqAfter, ih, nextFreq, hinc, add_zero, sub_zero, ite_self, ite_self]

/-- A ramp that is not longer than the move and one step, or that has nothing to do. -/
def Fits (a : Request) : Prop :=
  a.ramp.toNat ≤ a.steps.toNat + 1 ∨ a.steps = 1 ∨ a.ifreq = a.efreq

theorem inc_eq (hramp : a.ramp ≠ 0) : a.inc = (a.efreq - a.ifreq) / a.ramp.toNat := if_neg hramp

theorem base_eq (hramp : a.ramp ≠ 0) : a.base = a.ifreq := if_neg hramp

theorem base_within (hle : a.ifreq ≤ a.efreq) : a.ifreq ≤ a.base ∧ a.base ≤ a.efreq := by
  unfold base
  split
  · exact ⟨hle, le_refl _⟩
  · exact ⟨le_refl _, hle⟩

/-- Every frequency before the last pulse is between the first and the last one. -/
theorem freqAfter_within (hsteps : a.steps ≠ 0) (hle : a.ifreq ≤ a.efreq) (hfits : a.Fits)
    {k : Nat} (hmore : ∀ j < k, a.steps - BitVec.ofNat 32 j ≠ 1) :
    a.ifreq ≤ a.freqAfter k ∧ a.freqAfter k ≤ a.efreq := by
  have hflat : a.inc = 0 → a.ifreq ≤ a.freqAfter k ∧ a.freqAfter k ≤ a.efreq := by
    intro hinc
    rw [freqAfter_flat hinc]
    exact base_within hle
  by_cases hramp : a.ramp = 0
  · exact hflat (if_pos hramp)
  rcases hfits with hlen | hone | heq
  · have hpos : (0 : ℚ) < a.ramp.toNat := by exact_mod_cast ramp_toNat_pos hramp
    have hlevel : (a.level k : ℚ) ≤ a.ramp.toNat := by exact_mod_cast a.level_le k
    have hinc : 0 ≤ a.inc := by
      rw [inc_eq hramp]
      exact div_nonneg (sub_nonneg.mpr hle) (le_of_lt hpos)
    have hlow : 0 ≤ a.inc * a.level k := mul_nonneg hinc (Nat.cast_nonneg _)
    have hhigh : a.inc * a.level k ≤ a.inc * a.ramp.toNat := mul_le_mul_of_nonneg_left hlevel hinc
    have hfull : a.inc * a.ramp.toNat = a.efreq - a.ifreq := by
      rw [inc_eq hramp]
      exact div_mul_cancel₀ _ (ne_of_gt hpos)
    rw [freqAfter_level hramp hlen k (lt_steps hsteps hmore), base_eq hramp]
    constructor <;> linarith
  · -- no pulse before the last one
    have hlt := lt_steps hsteps hmore
    rw [hone] at hlt
    obtain rfl : k = 0 := Nat.lt_one_iff.mp hlt
    exact base_within hle
  · apply hflat
    rw [inc_eq hramp, heq, sub_self, zero_div]

end Request

theorem OnMove.within (h : OnMove a p) (hsteps : a.steps ≠ 0) (hle : a.ifreq ≤ a.efreq)
    (hfits : a.Fits) : a.ifreq ≤ p.current_freq ∧ p.current_freq ≤ a.efreq := by
  obtain ⟨k, -, hfreq, hmore⟩ := h.pulses
  rw [hfreq]
  exact Request.freqAfter_within hsteps hle hfits hmore

theorem OnMove.rampFreq_within (h : OnMove a p) (hsteps : a.steps ≠ 0) (hle : a.ifreq ≤ a.efreq)
    (hfits : a.Fits) (hlast : p.steps ≠ 1) :
    a.ifreq ≤ p.rampFreq ∧ p.rampFreq ≤ a.efreq := by
  obtain ⟨k, hleft, hfreq, hmore⟩ := h.pulses
  have hnext : p.rampFreq = a.freqAfter (k + 1) := by
    rw [h.rampFreq_eq, hleft, hfreq]
    rfl
  rw [hnext]
  apply Request.freqAfter_within hsteps hle hfits
  intro j hj
  rcases Nat.lt_succ_iff_lt_or_eq.mp hj with hlt | rfl
  · exact hmore j hlt
  · rw [← hleft]
    exact hlast

/-! ## The first pulse of a ramp that is too long -/

/-- The threshold wraps, and the frequency goes down at once. -/
theorem nextFreq_wraps (hlen : a.steps.toNat + 1 < a.ramp.toNat) (f : ℚ) :
    a.nextFreq a.steps f = f - a.inc := by
  have hramp := a.ramp.isLt
  have hone : (1 : BitVec 32).toNat = 1 := rfl
  have hup : ¬ a.steps - a.ramp + 1 ≤ a.steps := by
    rw [BitVec.le_def, BitVec.toNat_add, BitVec.toNat_sub, hone]
    omega
  have hdown : a.steps ≤ a.ramp := by
    rw [BitVec.le_def]
    omega
  rw [Request.nextFreq, if_neg hup, if_pos hdown]

/-- An interrupt for the first unit alone, when that is not due. -/
theorem stepperIsr_waits {d : Driver} (hstart : d.start = bit 0)
    (hdue : (d.stepper unit0).cticks + 1 ≠ (d.stepper unit0).ticks) :
    ∃ r, stepperIsr 2 d = .ok r ∧ r.driver.start = bit 0 ∧ r.driver.stepper unit0 =
      { d.stepper unit0 with cticks := (d.stepper unit0).cticks + 1 } := by
  have hbit : d.scan.started.getLsbD 0 = true := by
    show d.start.getLsbD 0 = true
    rw [hstart]
    decide
  have hround := scanRound_waits (u := unit0) hbit rfl rfl hdue
  obtain ⟨l, hround, hset, hzero, hkeep⟩ : ∃ l, scanRound d.scan = .ok l ∧
      l.stepper unit0 = { d.stepper unit0 with cticks := (d.stepper unit0).cticks + 1 } ∧
      l.started = d.start >>> 1 ∧ l.start = d.start := by
    refine ⟨_, hround, ?_, rfl, rfl⟩
    show Function.update d.stepper unit0 _ unit0 = _
    rw [Function.update_self]
    rfl
  have hdone : scanGoes l = false := by
    refine decide_eq_false ?_
    rw [hzero, hstart]
    decide
  refine ⟨l.finish d.out, ?_, hkeep.trans hstart, hset⟩
  refine bind_eq_ok.mpr ⟨l, ?_, rfl⟩
  rw [whileLoop_round (scanGoes_of_bit hbit) hround]
  exact whileLoop_done hdone 0

/-- After the interrupts of a period the first unit is due. -/
theorem reach_due {s : Track} (h : drive.Reach (fun _ _ => True) s)
    (hstart : s.driver.start = bit 0) (n : Nat)
    (hn : ((s.driver.stepper unit0).ticks - 1 - (s.driver.stepper unit0).cticks).toNat = n) :
    ∃ s', drive.Reach (fun _ _ => True) s' ∧ s'.last = s.last ∧ s'.driver.start = bit 0 ∧
      (s'.driver.stepper unit0).cticks + 1 = (s'.driver.stepper unit0).ticks ∧
      (s'.driver.stepper unit0).steps = (s.driver.stepper unit0).steps ∧
      (s'.driver.stepper unit0).current_freq = (s.driver.stepper unit0).current_freq := by
  induction n generalizing s with
  | zero =>
    refine ⟨s, h, rfl, hstart, ?_, rfl, rfl⟩
    have hzero : (s.driver.stepper unit0).ticks - 1 - (s.driver.stepper unit0).cticks = 0 :=
      BitVec.eq_of_toNat_eq hn
    bv_omega
  | succ n ih =>
    obtain ⟨d, last⟩ := s
    dsimp only at hstart hn ⊢
    have hdue : (d.stepper unit0).cticks + 1 ≠ (d.stepper unit0).ticks := by
      intro hdue
      rw [← hdue] at hn
      bv_omega
    obtain ⟨r, hisr, hstart', hunit⟩ := stepperIsr_waits hstart hdue
    obtain ⟨s', hreach, hlast, hgo, hat, hsteps, hfreq⟩ :=
      ih (h.step (a := .interrupt) trivial (Drives.interrupt hisr)) hstart' (by
        dsimp only
        rw [hunit]
        dsimp only
        bv_omega)
    dsimp only at hlast hsteps hfreq
    rw [hunit] at hsteps hfreq
    exact ⟨s', hreach, hlast, hgo, hat, hsteps, hfreq⟩

/-- A ramp that is too long takes the frequency below the first one. -/
theorem RampsWithin.fits (h : RampsWithin a) (hpos : 0 < a.base) (hle : a.ifreq ≤ a.efreq)
    (hslow : STEPPER_HZ / a.base < 4294967296) : a.Fits := by
  by_contra hlong
  obtain ⟨hlen, hmore, hne⟩ : a.steps.toNat + 1 < a.ramp.toNat ∧ a.steps ≠ 1 ∧
      a.ifreq ≠ a.efreq := by
    unfold Request.Fits at hlong
    push Not at hlong
    exact hlong
  have hramp : a.ramp ≠ 0 := by
    intro hzero
    rw [hzero] at hlen
    exact absurd hlen (Nat.not_lt_zero _)
  have hinc : 0 < a.inc := by
    rw [Request.inc_eq hramp]
    exact div_pos (sub_pos.mpr (lt_of_le_of_ne hle hne))
      (by exact_mod_cast Request.ramp_toNat_pos hramp)
  obtain ⟨s, hreach, hlast, hstarted⟩ := reach_started (fun _ _ => True) hpos hslow
    fun _ => ⟨trivial, trivial, trivial⟩
  obtain ⟨s', hreach', hlast', hgo, hdue, hleft, hfreq⟩ := reach_due hreach hstarted.start _ rfl
  have hlast₀ : s'.last unit0 = some a := by
    rw [hlast']
    exact hlast
  have hon : OnMove a (s'.driver.stepper unit0) := by
    have hknown := (driven_of_reach hreach').known unit0
    rw [hlast₀] at hknown
    exact hknown
  have hbit : s'.driver.start.getLsbD unit0 = true := by
    rw [hgo]
    decide
  have hleft' : (s'.driver.stepper unit0).steps = a.steps := hleft.trans hstarted.steps
  have hlow := (h.next s' unit0 hreach' hlast₀ hbit hdue (by rwa [hleft'])).1
  rw [hon.rampFreq_eq, hleft', nextFreq_wraps hlen, hfreq, hstarted.freq,
    Request.base_eq hramp] at hlow
  linarith

end Ramp

/-- The frequency stays within those of the move just where the first period fits in a `uint32_t`
    and the ramp is not longer than the move and one step, or has nothing to do. -/
theorem rampsWithin_iff (a : Request) (hsteps : a.steps ≠ 0) (hpos : 0 < a.ifreq)
    (hle : a.ifreq ≤ a.efreq) :
    RampsWithin a ↔ STEPPER_HZ / a.base < 4294967296 ∧
      (a.ramp.toNat ≤ a.steps.toNat + 1 ∨ a.steps = 1 ∨ a.ifreq = a.efreq) := by
  have hbase : 0 < a.base := lt_of_lt_of_le hpos (Request.base_within hle).1
  constructor
  · intro h
    have hslow : STEPPER_HZ / a.base < 4294967296 := by
      by_contra hfast
      obtain ⟨d', hmove⟩ := h.accepted oneUnit unit0 oneUnit_setup
      rw [stepperMove_too_slow oneUnit_setup hbase (not_lt.mp hfast)] at hmove
      cases hmove
    exact ⟨hslow, h.fits hbase hle hslow⟩
  · rintro ⟨hslow, hfits⟩
    have hknown : ∀ (s : Track) (u : Fin NSTEP), drive.Reach (fun _ _ => True) s →
        s.last u = some a → OnMove a (s.driver.stepper u) := by
      intro s u hreach hlast
      have hknown := (driven_of_reach hreach).known u
      rw [hlast] at hknown
      exact hknown
    refine ⟨?_, ?_, ?_⟩
    · intro d u hsetup
      exact stepperMove_accepts hsetup hbase hslow
    · intro s u hreach hlast
      exact (hknown s u hreach hlast).within hsteps hle hfits
    · intro s u hreach hlast _ _ hmore
      exact (hknown s u hreach hlast).rampFreq_within hsteps hle hfits hmore

/-- Ten steps with a ramp of four. -/
theorem rampsWithin_iff_short : RampsWithin ⟨10, 4, 1000, 2000⟩ ↔
    STEPPER_HZ / (Request.mk 10 4 1000 2000).base < 4294967296 ∧
      ((4 : BitVec 32).toNat ≤ (10 : BitVec 32).toNat + 1 ∨ (10 : BitVec 32) = 1 ∨
        (1000 : ℚ) = 2000) :=
  rampsWithin_iff ⟨10, 4, 1000, 2000⟩ (by decide) (by norm_num) (by norm_num)

/-- Two steps with a ramp of four. -/
theorem not_rampsWithin_long : (2 : BitVec 32) ≠ 0 ∧ (0 : ℚ) < 1000 ∧ (1000 : ℚ) ≤ 2000 ∧
    ¬ RampsWithin ⟨2, 4, 1000, 2000⟩ := by
  refine ⟨by decide, by norm_num, by norm_num, ?_⟩
  intro h
  have hbase : (Request.mk 2 4 1000 2000).base = 1000 := Request.base_eq (by decide)
  have hslow : STEPPER_HZ / (Request.mk 2 4 1000 2000).base < 4294967296 := by
    rw [hbase]
    norm_num [STEPPER_HZ]
  have hpos : 0 < (Request.mk 2 4 1000 2000).base := by
    rw [hbase]
    norm_num
  rcases h.fits hpos (by norm_num) hslow with hlen | hone | heq
  · exact absurd hlen (by decide)
  · exact absurd hone (by decide)
  · norm_num at heq

end LuaRtos.Stepper
