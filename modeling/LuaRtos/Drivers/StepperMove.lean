/-
  LuaRtos.Drivers.StepperMove

  A move of a unit: what `stepper_move` is given, and the frequency of the unit
  at each step of it.

  The frequency goes up by one increment with each of the first `ramp` pulses,
  and down with the last ones; `Move.level` is how many increments it is above
  the first frequency, and never more than `ramp`.  `Moving` is what holds of the
  unit from the move to its last pulse, and is kept by every interrupt.
-/

import LuaRtos.Drivers.StepperScan

namespace LuaRtos.Stepper

open CLib

/-- The arguments of `stepper_move` that a unit can move by. -/
structure Move where
  steps : BitVec 32
  ramp : BitVec 32
  ifreq : ℚ
  efreq : ℚ
  steps_pos : 1 ≤ steps.toNat
  ramp_le : ramp.toNat ≤ steps.toNat
  ifreq_pos : 0 < ifreq
  ifreq_le : ifreq ≤ efreq
  fast : 2 ≤ STEPPER_HZ / efreq
  /-- The first period fits in a `uint32_t`. -/
  slow : STEPPER_HZ / (if ramp = 0 then efreq else ifreq) < 4294967296

namespace Move

variable (m : Move)

/-- The first frequency. -/
def base : ℚ := if m.ramp = 0 then m.efreq else m.ifreq

def inc : ℚ := if m.ramp = 0 then 0 else (m.efreq - m.ifreq) / m.ramp.toNat

/-- The increments made when `s` steps are left. -/
def level (s : Nat) : Nat :=
  min (m.steps.toNat - s) m.ramp.toNat - (min m.ramp.toNat (m.steps.toNat - m.ramp.toNat) - s)

/-- The frequency when `s` steps are left. -/
def freqAt (s : Nat) : ℚ := m.base + m.inc * m.level s

/-- The ticks of the longest period. -/
def longest : Nat := ⌊STEPPER_HZ / m.base⌋.toNat

theorem ramp_eq_zero : m.ramp = 0 ↔ m.ramp.toNat = 0 := by
  constructor
  · intro h
    rw [h]
    rfl
  · intro h
    exact BitVec.eq_of_toNat_eq h

theorem level_le (s : Nat) : m.level s ≤ m.ramp.toNat := by
  unfold level
  omega

theorem level_start : m.level m.steps.toNat = 0 := by
  unfold level
  omega

theorem base_pos : 0 < m.base := by
  unfold base
  split
  · exact lt_of_lt_of_le m.ifreq_pos m.ifreq_le
  · exact m.ifreq_pos

theorem inc_nonneg : 0 ≤ m.inc := by
  unfold inc
  split
  · exact le_refl 0
  · exact div_nonneg (sub_nonneg.mpr m.ifreq_le) (Nat.cast_nonneg _)

theorem base_le_freqAt (s : Nat) : m.base ≤ m.freqAt s := by
  have h : 0 ≤ m.inc * m.level s := mul_nonneg m.inc_nonneg (Nat.cast_nonneg _)
  unfold freqAt
  linarith

theorem freqAt_pos (s : Nat) : 0 < m.freqAt s := lt_of_lt_of_le m.base_pos (m.base_le_freqAt s)

theorem freqAt_le (s : Nat) : m.freqAt s ≤ m.efreq := by
  by_cases h : m.ramp = 0
  · have hbase : m.base = m.efreq := if_pos h
    have hinc : m.inc = 0 := if_pos h
    rw [freqAt, hbase, hinc, zero_mul, add_zero]
  · have hbase : m.base = m.ifreq := if_neg h
    have hinc : m.inc = (m.efreq - m.ifreq) / m.ramp.toNat := if_neg h
    have hpos : (0 : ℚ) < m.ramp.toNat := by
      have hne : m.ramp.toNat ≠ 0 := fun hz => h (m.ramp_eq_zero.mpr hz)
      exact_mod_cast Nat.pos_of_ne_zero hne
    have hlevel : m.inc * m.level s ≤ m.inc * m.ramp.toNat := by
      apply mul_le_mul_of_nonneg_left _ m.inc_nonneg
      exact_mod_cast m.level_le s
    have hall : m.inc * m.ramp.toNat = m.efreq - m.ifreq := by
      rw [hinc]
      exact div_mul_cancel₀ _ (ne_of_gt hpos)
    rw [freqAt, hbase]
    linarith

/-- Every period has two ticks or more, and no more than the first. -/
theorem two_le_period (s : Nat) : 2 ≤ STEPPER_HZ / m.freqAt s := by
  have hhz : (0 : ℚ) ≤ STEPPER_HZ := by norm_num [STEPPER_HZ]
  exact le_trans m.fast (div_le_div_of_nonneg_left hhz (m.freqAt_pos s) (m.freqAt_le s))

theorem period_le (s : Nat) : STEPPER_HZ / m.freqAt s ≤ STEPPER_HZ / m.base := by
  have hhz : (0 : ℚ) ≤ STEPPER_HZ := by norm_num [STEPPER_HZ]
  exact div_le_div_of_nonneg_left hhz m.base_pos (m.base_le_freqAt s)

theorem period_lt (s : Nat) : STEPPER_HZ / m.freqAt s < 4294967296 :=
  lt_of_le_of_lt (m.period_le s) m.slow

theorem longest_pos : 0 < m.longest := by
  have h := le_trans (m.two_le_period 0) (m.period_le 0)
  have hfloor : (2 : Int) ≤ ⌊STEPPER_HZ / m.base⌋ := Int.le_floor.mpr (by exact_mod_cast h)
  unfold longest
  omega

/-! ## From one step to the next -/

/-- The sum that `stepper_move` stores, which wraps for the longest move without
    a ramp. -/
theorem steps_up_toNat (h : m.ramp ≠ 0) :
    (m.steps - m.ramp + 1).toNat = m.steps.toNat - m.ramp.toNat + 1 := by
  have hle := m.ramp_le
  have hlt := m.steps.isLt
  have hne : m.ramp.toNat ≠ 0 := fun hz => h (m.ramp_eq_zero.mpr hz)
  have hsub : (m.steps - m.ramp).toNat = m.steps.toNat - m.ramp.toNat := by
    rw [BitVec.toNat_sub]
    omega
  rw [BitVec.toNat_add, hsub]
  show (m.steps.toNat - m.ramp.toNat + 1) % 2 ^ 32 = _
  omega

theorem freqAt_no_ramp (h : m.ramp = 0) (s : Nat) : m.freqAt s = m.base := by
  have hinc : m.inc = 0 := if_pos h
  rw [freqAt, hinc, zero_mul, add_zero]

/-- One frequency up. -/
theorem freqAt_up {s : Nat} (hs : 2 ≤ s) (hle : s ≤ m.steps.toNat)
    (hup : m.steps.toNat - m.ramp.toNat + 1 ≤ s) : m.freqAt s + m.inc = m.freqAt (s - 1) := by
  by_cases h : m.ramp = 0
  · have hinc : m.inc = 0 := if_pos h
    rw [m.freqAt_no_ramp h, m.freqAt_no_ramp h, hinc, add_zero]
  · have hramp := m.ramp_le
    have hlevel : m.level (s - 1) = m.level s + 1 := by
      unfold level
      omega
    rw [freqAt, freqAt, hlevel]
    push_cast
    ring

/-- One frequency down. -/
theorem freqAt_down {s : Nat} (hs : 2 ≤ s) (hup : s < m.steps.toNat - m.ramp.toNat + 1)
    (hdown : s ≤ m.ramp.toNat) : m.freqAt s - m.inc = m.freqAt (s - 1) := by
  have hlevel : m.level s = m.level (s - 1) + 1 := by
    unfold level
    omega
  rw [freqAt, freqAt, hlevel]
  push_cast
  ring

/-- The same frequency. -/
theorem freqAt_same {s : Nat} (hs : 2 ≤ s) (hle : s ≤ m.steps.toNat)
    (hup : s < m.steps.toNat - m.ramp.toNat + 1) (hdown : m.ramp.toNat < s) :
    m.freqAt s = m.freqAt (s - 1) := by
  have hlevel : m.level s = m.level (s - 1) := by
    unfold level
    omega
  rw [freqAt, freqAt, hlevel]

end Move

/-! ## A unit on its move -/

/-- The unit is on the move, with `p.steps` steps left. -/
structure Moving (m : Move) (p : StepperT) : Prop where
  steps_pos : 1 ≤ p.steps.toNat
  steps_le : p.steps.toNat ≤ m.steps.toNat
  up : p.steps_up = m.steps - m.ramp + 1
  down : p.steps_down = m.ramp
  inc : p.freq_inc = m.inc
  freq : p.current_freq = m.freqAt p.steps.toNat
  ticks : (p.ticks.toNat : Int) = ⌊STEPPER_HZ / p.current_freq⌋
  lticks : p.lticks = Int.fract (STEPPER_HZ / p.current_freq)
  cticks_lt : p.cticks.toNat < p.ticks.toNat
  lost_nonneg : 0 ≤ p.lost
  lost_lt : p.lost < 1

section Moving

variable {m : Move} {p q : StepperT}

theorem Moving.two_le (h : Moving m p) : 2 ≤ p.ticks.toNat := by
  have hfloor : (2 : Int) ≤ ⌊STEPPER_HZ / p.current_freq⌋ := by
    apply Int.le_floor.mpr
    rw [h.freq]
    exact_mod_cast m.two_le_period _
  have hticks := h.ticks
  omega

/-- No period is longer than the first. -/
theorem Moving.ticks_le (h : Moving m p) : p.ticks.toNat ≤ m.longest := by
  have hfloor : ⌊STEPPER_HZ / p.current_freq⌋ ≤ ⌊STEPPER_HZ / m.base⌋ := by
    apply Int.floor_le_floor
    rw [h.freq]
    exact m.period_le _
  have hticks := h.ticks
  unfold Move.longest
  omega

theorem Moving.paced (h : Moving m p) : Paced p := by
  refine ⟨h.two_le, h.cticks_lt, h.lost_nonneg, h.lost_lt, ?_, ?_⟩
  · rw [h.lticks]
    exact Int.fract_nonneg _
  · rw [h.lticks]
    exact Int.fract_lt_one _

/-- What a pulse that is not the last leaves of the unit. -/
structure Ramped (m : Move) (p q : StepperT) : Prop where
  setup : q.setup = p.setup
  clock_pin : q.clock_pin = p.clock_pin
  dir_pin : q.dir_pin = p.dir_pin
  steps : q.steps = p.steps
  up : q.steps_up = p.steps_up
  down : q.steps_down = p.steps_down
  inc : q.freq_inc = p.freq_inc
  freq : q.current_freq = m.freqAt (p.steps.toNat - 1)
  ticks : (q.ticks.toNat : Int) = ⌊STEPPER_HZ / q.current_freq⌋
  lticks : q.lticks = Int.fract (STEPPER_HZ / q.current_freq)
  cticks : q.cticks = p.cticks
  lost : q.lost = p.lost

theorem steps_ne_one (hpos : 1 ≤ p.steps.toNat) (hsteps : p.steps ≠ 1) : 2 ≤ p.steps.toNat := by
  have hne : p.steps.toNat ≠ 1 := fun h => hsteps (BitVec.eq_of_toNat_eq h)
  omega

/-- The frequency is set to that of the next step. -/
theorem updateFrequency_ramped (p : StepperT) {freq : ℚ}
    (hfreq : freq = m.freqAt (p.steps.toNat - 1)) :
    ∃ q, updateFrequency { p with current_freq := freq } freq = .ok q ∧ Ramped m p q := by
  have hpos : 0 < freq := hfreq ▸ m.freqAt_pos _
  have hslow : STEPPER_HZ / freq < 4294967296 := hfreq ▸ m.period_lt _
  obtain ⟨t, ht, heq⟩ := updateFrequency_eq hpos hslow { p with current_freq := freq }
  exact ⟨_, heq, rfl, rfl, rfl, rfl, rfl, rfl, rfl, hfreq, ht, rfl, rfl, rfl⟩

/-- The ramp goes to the frequency of the next step. -/
theorem Moving.ramp (h : Moving m p) (hsteps : p.steps ≠ 1) (cticks : BitVec 32) (lost : ℚ) :
    ∃ q, ramp { p with cticks := cticks, lost := lost } = .ok q ∧
      Ramped m { p with cticks := cticks, lost := lost } q := by
  have hs := steps_ne_one h.steps_pos hsteps
  have hle := h.steps_le
  unfold Stepper.ramp
  dsimp only
  by_cases hramp : m.ramp = 0
  · -- the increment is zero, on whichever branch
    have hinc : p.freq_inc = 0 := h.inc.trans (if_pos hramp)
    have hfreq : p.current_freq = m.freqAt (p.steps.toNat - 1) := by
      rw [h.freq, m.freqAt_no_ramp hramp, m.freqAt_no_ramp hramp]
    split
    · refine updateFrequency_ramped { p with cticks := cticks, lost := lost } ?_
      rw [hinc, add_zero]
      exact hfreq
    split
    · refine updateFrequency_ramped { p with cticks := cticks, lost := lost } ?_
      rw [hinc, sub_zero]
      exact hfreq
    · exact ⟨_, rfl, rfl, rfl, rfl, rfl, rfl, rfl, rfl, hfreq, h.ticks, h.lticks, rfl, rfl⟩
  · have hup : p.steps_up ≤ p.steps ↔ m.steps.toNat - m.ramp.toNat + 1 ≤ p.steps.toNat := by
      rw [h.up, BitVec.le_def, m.steps_up_toNat hramp]
    have hdown : p.steps ≤ p.steps_down ↔ p.steps.toNat ≤ m.ramp.toNat := by
      rw [h.down, BitVec.le_def]
    split
    · next hcase =>
      refine updateFrequency_ramped { p with cticks := cticks, lost := lost } ?_
      rw [h.inc, h.freq]
      exact m.freqAt_up hs hle (hup.mp hcase)
    have hnot := mt hup.mpr ‹_›
    split
    · next hcase =>
      refine updateFrequency_ramped { p with cticks := cticks, lost := lost } ?_
      rw [h.inc, h.freq]
      exact m.freqAt_down hs (by omega) (hdown.mp hcase)
    · next hcase =>
      have hnot' := mt hdown.mpr hcase
      have hfreq : p.current_freq = m.freqAt (p.steps.toNat - 1) := by
        rw [h.freq]
        exact m.freqAt_same hs hle (by omega) (by omega)
      exact ⟨_, rfl, rfl, rfl, rfl, rfl, rfl, rfl, rfl, hfreq, h.ticks, h.lticks, rfl, rfl⟩

theorem Moving.ramps (h : Moving m p) : Ramps p := by
  intro hsteps cticks lost
  obtain ⟨q, hq, -⟩ := h.ramp hsteps cticks lost
  exact ⟨q, hq⟩

/-- The unit goes on with the next step. -/
theorem Moving.next (h : Moving m p) (hsteps : p.steps ≠ 1) {cticks : BitVec 32} {lost : ℚ}
    (hc : compensate 0 (p.lost + p.lticks) = .ok (cticks, lost))
    (hr : Ramped m { p with cticks := cticks, lost := lost } q) :
    Moving m { q with steps := q.steps - 1 } ∧ (q.steps - 1).toNat + 1 = p.steps.toNat := by
  have hs := steps_ne_one h.steps_pos hsteps
  have hle := h.steps_le
  have hlt := p.steps.isLt
  have hsub : (q.steps - 1).toNat = p.steps.toNat - 1 := by
    rw [hr.steps, BitVec.toNat_sub]
    show (2 ^ 32 - 1 + p.steps.toNat) % 2 ^ 32 = _
    omega
  have hfreq : q.current_freq = m.freqAt (q.steps - 1).toNat := by
    rw [hsub]
    exact hr.freq
  obtain ⟨cticks', lost', hc', hcticks, hpos, hlost, -⟩ := h.paced.compensate
  rw [hc] at hc'
  cases hc'
  refine ⟨⟨?_, ?_, hr.up.trans h.up, hr.down.trans h.down, hr.inc.trans h.inc, hfreq, hr.ticks,
    hr.lticks, ?_, hr.lost.symm ▸ hpos, hr.lost.symm ▸ hlost⟩, ?_⟩
  · show 1 ≤ (q.steps - 1).toNat
    omega
  · show (q.steps - 1).toNat ≤ _
    omega
  · -- the counter starts below two, which every period has
    have htwo : (2 : Int) ≤ ⌊STEPPER_HZ / q.current_freq⌋ := by
      apply Int.le_floor.mpr
      rw [hfreq]
      exact_mod_cast m.two_le_period _
    have hticks := hr.ticks
    have hcq : q.cticks = cticks := hr.cticks
    show q.cticks.toNat < q.ticks.toNat
    rw [hcq]
    omega
  · omega

/-- What an interrupt makes of a unit on the move. -/
theorem Moving.served (h : Moving m p) (hs : Served p q) :
    Moving m q ∧ q.setup = p.setup ∧ q.clock_pin = p.clock_pin ∧ q.dir_pin = p.dir_pin ∧
      (p.cticks + 1 ≠ p.ticks → q.steps = p.steps ∧ q.cticks.toNat = p.cticks.toNat + 1) ∧
      (p.cticks + 1 = p.ticks → p.steps ≠ 1 → q.steps.toNat + 1 = p.steps.toNat) := by
  cases hs with
  | waits hdue =>
    obtain ⟨hsucc, hlt⟩ := h.paced.succ_lt hdue
    refine ⟨⟨h.steps_pos, h.steps_le, h.up, h.down, h.inc, h.freq, h.ticks, h.lticks, hlt,
      h.lost_nonneg, h.lost_lt⟩, rfl, rfl, rfl, fun _ => ⟨rfl, hsucc⟩, ?_⟩
    intro hdue'
    exact absurd hdue' hdue
  | @steps cticks lost q hdue hsteps hc hr =>
    obtain ⟨q', hq', hramped⟩ := h.ramp hsteps cticks lost
    rw [hr] at hq'
    cases hq'
    obtain ⟨hmoving, hnext⟩ := h.next hsteps hc hramped
    exact ⟨hmoving, hramped.setup, hramped.clock_pin, hramped.dir_pin,
      fun hdue' => absurd hdue hdue', fun _ _ => hnext⟩
  | stops hdue hsteps hcticks hpos hlt =>
    refine ⟨⟨h.steps_pos, h.steps_le, h.up, h.down, h.inc, h.freq, h.ticks, h.lticks, hcticks,
      hpos, hlt⟩, rfl, rfl, rfl, fun hdue' => absurd hdue hdue', ?_⟩
    intro _ hsteps'
    exact absurd hsteps hsteps'

end Moving

end LuaRtos.Stepper
