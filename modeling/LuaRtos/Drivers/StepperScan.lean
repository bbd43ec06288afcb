/-
  LuaRtos.Drivers.StepperScan

  The loop of `stepper_isr`, which serves the started units one after the other.

  At the last pulse of a unit the loop continues with the same unit, and tests
  it again with the ticks that the compensation has left.  With two ticks or
  more to a pulse it comes out of there (`retest`): every round in which the
  unit is due again takes one lost tick, and less than one is added.
-/

import Mathlib.Algebra.Order.Archimedean.Basic
import Mathlib.Tactic.Linarith
import Mathlib.Tactic.FieldSimp
import Mathlib.Tactic.Ring
import LuaRtos.Drivers.Stepper

namespace LuaRtos.Stepper

open CLib

/-! ## Frequencies and lost ticks -/

theorem toU32_eq {r : Int} (hr : 0 ≤ r) (hlt : r < 4294967296) :
    ∃ t : BitVec 32, (t.toNat : Int) = r ∧ toU32 r = .ok t := by
  refine ⟨BitVec.ofInt 32 r, ?_, if_pos ⟨hr, hlt⟩⟩
  rw [BitVec.toNat_ofInt]
  omega

theorem tticks_eq (freq : ℚ) : 1 / freq / (1 / STEPPER_HZ) = STEPPER_HZ / freq := by
  have hhz : STEPPER_HZ ≠ 0 := by norm_num [STEPPER_HZ]
  field_simp

/-- A positive frequency whose period fits is stored with its period. -/
theorem updateFrequency_eq {freq : ℚ} (hpos : 0 < freq) (hslow : STEPPER_HZ / freq < 4294967296)
    (p : StepperT) :
    ∃ t : BitVec 32, (t.toNat : Int) = ⌊STEPPER_HZ / freq⌋ ∧ updateFrequency p freq =
      .ok { p with ticks := t, lticks := Int.fract (STEPPER_HZ / freq) } := by
  have hhz : (0 : ℚ) < STEPPER_HZ := by norm_num [STEPPER_HZ]
  have hnonneg : 0 ≤ ⌊STEPPER_HZ / freq⌋ := Int.floor_nonneg.mpr (le_of_lt (div_pos hhz hpos))
  have hlt : ⌊STEPPER_HZ / freq⌋ < 4294967296 := by
    rw [Int.floor_lt]
    exact_mod_cast hslow
  obtain ⟨t, ht, heq⟩ := toU32_eq hnonneg hlt
  refine ⟨t, ht, ?_⟩
  unfold updateFrequency
  rw [if_neg (ne_of_gt hpos), tticks_eq]
  dsimp only
  rw [heq]
  rfl

/-- A period that does not fit has no conversion. -/
theorem updateFrequency_slow {freq : ℚ} (hpos : 0 < freq)
    (hslow : 4294967296 ≤ STEPPER_HZ / freq) (p : StepperT) :
    updateFrequency p freq = .error .undefined := by
  have hbig : (4294967296 : Int) ≤ ⌊STEPPER_HZ / freq⌋ := by
    rw [Int.le_floor]
    exact_mod_cast hslow
  have hnot : ¬ (0 ≤ ⌊STEPPER_HZ / freq⌋ ∧ ⌊STEPPER_HZ / freq⌋ < 4294967296) := by omega
  unfold updateFrequency toU32
  rw [if_neg (ne_of_gt hpos), tticks_eq]
  dsimp only
  rw [if_neg hnot]
  rfl

theorem compensate_rounds (n : Nat) (cticks : BitVec 32) {lost : ℚ} (hn : (n : ℚ) ≤ lost)
    (hlt : lost < n + 1) :
    whileLoop (fun c => decide (1 ≤ c.2)) lostRound (n + 1) (cticks, lost) =
      .ok (cticks + BitVec.ofNat 32 n, lost - n) := by
  induction n generalizing cticks lost with
  | zero =>
    refine (whileLoop_done ?_ 0).trans ?_
    · have hlt' : lost < 1 := by simpa using hlt
      simpa using hlt'
    · simp
  | succ n ih =>
    push_cast at hn hlt
    have hround : lostRound (cticks, lost) = .ok (cticks + 1, lost - 1) := rfl
    refine (whileLoop_round ?_ hround (n + 1)).trans ?_
    · have hpos : (0 : ℚ) ≤ n := Nat.cast_nonneg n
      have hle : 1 ≤ lost := by linarith
      simpa using hle
    · rw [ih (cticks + 1) (by linarith) (by linarith)]
      have hticks : cticks + 1 + BitVec.ofNat 32 n = cticks + BitVec.ofNat 32 (n + 1) := by
        rw [BitVec.ofNat_add, BitVec.add_assoc, BitVec.add_comm 1]
        rfl
      have hlost : lost - 1 - n = lost - ((n + 1 : Nat) : ℚ) := by
        push_cast
        ring
      rw [hticks, hlost]

/-- The whole ticks of `lost` go to the counter, and the fraction stays. -/
theorem compensate_eq (cticks : BitVec 32) {lost : ℚ} (hpos : 0 ≤ lost) :
    compensate cticks lost = .ok (cticks + BitVec.ofNat 32 ⌊lost⌋.toNat, Int.fract lost) := by
  have hfloor : ((⌊lost⌋.toNat : Nat) : ℚ) = (⌊lost⌋ : ℚ) := by
    exact_mod_cast Int.toNat_of_nonneg (Int.floor_nonneg.mpr hpos)
  have hle : (⌊lost⌋.toNat : ℚ) ≤ lost := by
    rw [hfloor]
    exact Int.floor_le lost
  have hlt : lost < ⌊lost⌋.toNat + 1 := by
    rw [hfloor]
    exact Int.lt_floor_add_one lost
  unfold compensate
  rw [compensate_rounds _ cticks hle hlt, hfloor]
  rfl

/-- Less than two lost ticks add one tick at most. -/
theorem compensate_lt {lost : ℚ} (hpos : 0 ≤ lost) (hlt : lost < 2) :
    ∃ cticks lost', compensate 0 lost = .ok (cticks, lost') ∧ 0 ≤ lost' ∧ lost' < 1 ∧
      (lost < 1 ∧ cticks = 0 ∧ lost' = lost ∨ 1 ≤ lost ∧ cticks = 1 ∧ lost' = lost - 1) := by
  refine ⟨_, _, compensate_eq 0 hpos, Int.fract_nonneg lost, Int.fract_lt_one lost, ?_⟩
  by_cases h : lost < 1
  · have hfloor : ⌊lost⌋ = 0 := Int.floor_eq_zero_iff.mpr ⟨hpos, h⟩
    have hfract : Int.fract lost = lost := Int.fract_eq_self.mpr ⟨hpos, h⟩
    rw [hfloor, hfract]
    exact .inl ⟨h, rfl, rfl⟩
  · rw [not_lt] at h
    have hfloor : ⌊lost⌋ = 1 := by
      rw [Int.floor_eq_iff]
      constructor
      · exact_mod_cast h
      · push_cast
        linarith
    have hfract : Int.fract lost = lost - 1 := by
      rw [Int.fract, hfloor]
      push_cast
      rfl
    rw [hfloor, hfract]
    exact .inr ⟨h, rfl, rfl⟩

/-! ## One unit -/

/-- A unit with a period of two ticks or more, in the midst of one. -/
structure Paced (p : StepperT) : Prop where
  two_le : 2 ≤ p.ticks.toNat
  cticks_lt : p.cticks.toNat < p.ticks.toNat
  lost_nonneg : 0 ≤ p.lost
  lost_lt : p.lost < 1
  lticks_nonneg : 0 ≤ p.lticks
  lticks_lt : p.lticks < 1

theorem Paced.compensate {p : StepperT} (hp : Paced p) :
    ∃ cticks lost, compensate 0 (p.lost + p.lticks) = .ok (cticks, lost) ∧
      cticks.toNat < 2 ∧ 0 ≤ lost ∧ lost < 1 ∧
      (cticks = 0 ∨ lost = p.lost + p.lticks - 1) := by
  have h₁ := hp.lost_nonneg
  have h₂ := hp.lost_lt
  have h₃ := hp.lticks_nonneg
  have h₄ := hp.lticks_lt
  have hnonneg : 0 ≤ p.lost + p.lticks := by linarith
  have hsum : p.lost + p.lticks < 2 := by linarith
  obtain ⟨cticks, lost, heq, hpos, hlt, ⟨-, rfl, -⟩ | ⟨-, rfl, hlost⟩⟩ := compensate_lt hnonneg hsum
  · exact ⟨_, _, heq, by decide, hpos, hlt, .inl rfl⟩
  · exact ⟨_, _, heq, by decide, hpos, hlt, .inr hlost⟩

/-- The counter of a unit that is not due stays under the period. -/
theorem Paced.succ_lt {p : StepperT} (hp : Paced p) (hdue : p.cticks + 1 ≠ p.ticks) :
    (p.cticks + 1).toNat = p.cticks.toNat + 1 ∧ (p.cticks + 1).toNat < p.ticks.toNat := by
  have hlt := hp.cticks_lt
  have hbound := p.ticks.isLt
  have hne : (p.cticks + 1).toNat ≠ p.ticks.toNat := fun h => hdue (BitVec.eq_of_toNat_eq h)
  have hsucc : (p.cticks + 1).toNat = p.cticks.toNat + 1 := by
    rw [BitVec.toNat_add]
    show (p.cticks.toNat + 1) % 2 ^ 32 = _
    omega
  omega

/-- What an interrupt makes of a started unit. -/
inductive Served (p : StepperT) : StepperT → Prop
  /-- No pulse is due. -/
  | waits (hdue : p.cticks + 1 ≠ p.ticks) : Served p { p with cticks := p.cticks + 1 }
  /-- A pulse, and more to come. -/
  | steps {cticks : BitVec 32} {lost : ℚ} {q : StepperT} (hdue : p.cticks + 1 = p.ticks)
      (hsteps : p.steps ≠ 1) (hc : compensate 0 (p.lost + p.lticks) = .ok (cticks, lost))
      (hr : ramp { p with cticks := cticks, lost := lost } = .ok q) :
      Served p { q with steps := q.steps - 1 }
  /-- The last pulse. -/
  | stops {cticks : BitVec 32} {lost : ℚ} (hdue : p.cticks + 1 = p.ticks) (hsteps : p.steps = 1)
      (hcticks : cticks.toNat < p.ticks.toNat) (hpos : 0 ≤ lost) (hlt : lost < 1) :
      Served p { p with cticks := cticks, lost := lost }

/-- The ramp of the unit has a frequency to go on with. -/
def Ramps (p : StepperT) : Prop :=
  p.steps ≠ 1 → ∀ cticks lost, ∃ q, ramp { p with cticks := cticks, lost := lost } = .ok q

/-- The state of the loop after a started unit that has become `p'`. -/
def Scan.after (l : Scan) (u : Fin NSTEP) (p' : StepperT) : Scan :=
  let p := l.stepper u
  { stepper := Function.update l.stepper u p'
    start := if p.cticks + 1 = p.ticks ∧ p.steps = 1 then l.start &&& ~~~bit u else l.start
    clock_mask := if p.cticks + 1 = p.ticks then l.clock_mask ||| bit p.clock_pin
      else l.clock_mask
    dirs_mask := if p.cticks + 1 = p.ticks then
        if p.dir ≠ 0 then l.dirs_mask ||| bit p.dir_pin else l.dirs_mask
      else l.dirs_mask
    dirc_mask := if p.cticks + 1 = p.ticks then
        if p.dir ≠ 0 then l.dirc_mask else l.dirc_mask ||| bit p.dir_pin
      else l.dirc_mask
    stop_mask := if p.cticks + 1 = p.ticks ∧ p.steps = 1 then l.stop_mask ||| bit u
      else l.stop_mask
    unit := l.unit + 1
    started := l.started >>> 1 }

section Round

variable {l : Scan} {u : Fin NSTEP} {p : StepperT}

theorem scanGoes_of_bit (hbit : l.started.getLsbD 0 = true) : scanGoes l = true := by
  refine decide_eq_true ?_
  intro hzero
  rw [hzero] at hbit
  exact absurd hbit (by decide)

/-- A round for a unit that is not due. -/
theorem scanRound_waits (hbit : l.started.getLsbD 0 = true) (hu : l.unit = u)
    (hp : l.stepper u = p) (hdue : p.cticks + 1 ≠ p.ticks) :
    scanRound l = .ok { l with
      stepper := Function.update l.stepper u { p with cticks := p.cticks + 1 } }.shift := by
  obtain ⟨u, hlt⟩ := u
  obtain rfl : l.unit = u := hu
  subst hp
  unfold scanRound
  rw [if_pos hbit, dif_pos hlt, if_neg hdue]
  rfl

/-- A round for the last pulse of a unit. -/
theorem scanRound_stops (hbit : l.started.getLsbD 0 = true) (hu : l.unit = u)
    (hp : l.stepper u = p) (hdue : p.cticks + 1 = p.ticks) (hsteps : p.steps = 1)
    {cticks : BitVec 32} {lost : ℚ}
    (hc : compensate 0 (p.lost + p.lticks) = .ok (cticks, lost)) :
    scanRound l = .ok { l with
      stepper := Function.update l.stepper u { p with cticks := cticks, lost := lost }
      start := l.start &&& ~~~bit u
      clock_mask := l.clock_mask ||| bit p.clock_pin
      dirs_mask := if p.dir ≠ 0 then l.dirs_mask ||| bit p.dir_pin else l.dirs_mask
      dirc_mask := if p.dir ≠ 0 then l.dirc_mask else l.dirc_mask ||| bit p.dir_pin
      stop_mask := l.stop_mask ||| bit u } := by
  obtain ⟨u, hlt⟩ := u
  obtain rfl : l.unit = u := hu
  subst hp
  unfold scanRound
  rw [if_pos hbit, dif_pos hlt, if_pos hdue]
  simp only [hc, ok_bind, if_pos hsteps]
  rfl

/-- A round for any other pulse. -/
theorem scanRound_steps (hbit : l.started.getLsbD 0 = true) (hu : l.unit = u)
    (hp : l.stepper u = p) (hdue : p.cticks + 1 = p.ticks) (hsteps : p.steps ≠ 1)
    {cticks : BitVec 32} {lost : ℚ}
    (hc : compensate 0 (p.lost + p.lticks) = .ok (cticks, lost)) {q : StepperT}
    (hr : ramp { p with cticks := cticks, lost := lost } = .ok q) :
    scanRound l = .ok { l with
      stepper := Function.update l.stepper u { q with steps := q.steps - 1 }
      clock_mask := l.clock_mask ||| bit p.clock_pin
      dirs_mask := if p.dir ≠ 0 then l.dirs_mask ||| bit p.dir_pin else l.dirs_mask
      dirc_mask := if p.dir ≠ 0 then l.dirc_mask else l.dirc_mask ||| bit p.dir_pin }.shift := by
  obtain ⟨u, hlt⟩ := u
  obtain rfl : l.unit = u := hu
  subst hp
  unfold scanRound
  rw [if_pos hbit, dif_pos hlt, if_pos hdue]
  simp only [hc, ok_bind, if_neg hsteps, hr, Function.update_idem]
  rfl

/-- A unit at its last step is tested again until it is not due.  The rounds take
    lost ticks, `1 - lticks` each, and there are less than `n` times as many. -/
theorem retest (hbit : l.started.getLsbD 0 = true) (hu : l.unit = u) (n : Nat)
    (hp : l.stepper u = p) (hpaced : Paced p) (hsteps : p.steps = 1)
    (hn : p.lost < n * (1 - p.lticks)) (hstart : l.start &&& ~~~bit u = l.start)
    (hclock : l.clock_mask ||| bit p.clock_pin = l.clock_mask)
    (hdirs : (if p.dir ≠ 0 then l.dirs_mask ||| bit p.dir_pin else l.dirs_mask) = l.dirs_mask)
    (hdirc : (if p.dir ≠ 0 then l.dirc_mask else l.dirc_mask ||| bit p.dir_pin) = l.dirc_mask)
    (hstop : l.stop_mask ||| bit u = l.stop_mask) :
    ∃ cticks lost, cticks.toNat < p.ticks.toNat ∧ 0 ≤ lost ∧ lost < 1 ∧
      Rounds scanGoes scanRound l { l with
        stepper := Function.update l.stepper u
          { p with cticks := cticks, lost := lost } }.shift := by
  induction n generalizing l p with
  | zero =>
    have hneg : p.lost < 0 := by simpa using hn
    exact absurd hpaced.lost_nonneg (not_le.mpr hneg)
  | succ n ih =>
    by_cases hdue : p.cticks + 1 = p.ticks
    · obtain ⟨cticks, lost, hc, hlt, hpos, hlost, hcase⟩ := hpaced.compensate
      have hround := scanRound_stops hbit hu hp hdue hsteps hc
      rw [hstart, hclock, hdirs, hdirc, hstop] at hround
      have hfirst := Rounds.one (scanGoes_of_bit hbit) hround
      have hticks := hpaced.two_le
      have hpaced' : Paced { p with cticks := cticks, lost := lost } :=
        ⟨hticks, Nat.lt_of_lt_of_le hlt hticks, hpos, hlost, hpaced.lticks_nonneg,
          hpaced.lticks_lt⟩
      rcases hcase with rfl | hless
      · -- no tick is lost, and one is not the period
        have hwait : (0 : BitVec 32) + 1 ≠ p.ticks := by
          intro h
          rw [← h] at hticks
          exact absurd hticks (by decide)
        have hlast := scanRound_waits (l := { l with
          stepper := Function.update l.stepper u { p with cticks := 0, lost := lost } }) hbit hu
          (Function.update_self ..) hwait
        rw [Function.update_idem] at hlast
        refine ⟨0 + 1, lost, Nat.lt_of_lt_of_le (by decide) hticks, hpos, hlost, ?_⟩
        exact hfirst.trans (Rounds.one (scanGoes_of_bit hbit) hlast)
      · have hn' : lost < n * (1 - p.lticks) := by
          push_cast at hn
          rw [hless]
          linarith
        obtain ⟨cticks', lost', hlt', hpos', hlost', hrest⟩ := ih (l := { l with
          stepper := Function.update l.stepper u { p with cticks := cticks, lost := lost } })
          hbit hu (Function.update_self ..) hpaced' hsteps hn' hstart hclock hdirs hdirc hstop
        rw [Function.update_idem] at hrest
        exact ⟨cticks', lost', hlt', hpos', hlost', hfirst.trans hrest⟩
    · refine ⟨p.cticks + 1, p.lost, (hpaced.succ_lt hdue).2, hpaced.lost_nonneg, hpaced.lost_lt,
        ?_⟩
      exact Rounds.one (scanGoes_of_bit hbit) (scanRound_waits hbit hu hp hdue)

theorem or_bit_idem (mask : BitVec 32) (n : Nat) : mask ||| bit n ||| bit n = mask ||| bit n := by
  rw [BitVec.or_assoc, BitVec.or_self]

theorem and_not_bit_idem (mask : BitVec 32) (n : Nat) :
    mask &&& ~~~bit n &&& ~~~bit n = mask &&& ~~~bit n := by
  rw [BitVec.and_assoc, BitVec.and_self]

theorem dirs_idem (c : Prop) [Decidable c] (mask : BitVec 32) (n : Nat) :
    (if c then (if c then mask ||| bit n else mask) ||| bit n
      else if c then mask ||| bit n else mask) = if c then mask ||| bit n else mask := by
  by_cases h : c
  · simp only [if_pos h, or_bit_idem]
  · simp only [if_neg h]

theorem dirc_idem (c : Prop) [Decidable c] (mask : BitVec 32) (n : Nat) :
    (if c then if c then mask else mask ||| bit n
      else (if c then mask else mask ||| bit n) ||| bit n) =
        if c then mask else mask ||| bit n := by
  by_cases h : c
  · simp only [if_pos h]
  · simp only [if_neg h, or_bit_idem]

section After

variable {p' : StepperT}

theorem after_waits (hp : l.stepper u = p) (hdue : p.cticks + 1 ≠ p.ticks) :
    l.after u p' = { l with stepper := Function.update l.stepper u p' }.shift := by
  subst hp
  simp only [Scan.after, Scan.shift, if_neg hdue, if_neg fun h => hdue (And.left h)]

theorem after_steps (hp : l.stepper u = p) (hdue : p.cticks + 1 = p.ticks)
    (hsteps : p.steps ≠ 1) : l.after u p' = { l with
      stepper := Function.update l.stepper u p'
      clock_mask := l.clock_mask ||| bit p.clock_pin
      dirs_mask := if p.dir ≠ 0 then l.dirs_mask ||| bit p.dir_pin else l.dirs_mask
      dirc_mask := if p.dir ≠ 0 then l.dirc_mask else l.dirc_mask ||| bit p.dir_pin }.shift := by
  subst hp
  simp only [Scan.after, Scan.shift, if_pos hdue, if_neg fun h => hsteps (And.right h)]

theorem after_stops (hp : l.stepper u = p) (hdue : p.cticks + 1 = p.ticks)
    (hsteps : p.steps = 1) : l.after u p' = { l with
      stepper := Function.update l.stepper u p'
      start := l.start &&& ~~~bit u
      clock_mask := l.clock_mask ||| bit p.clock_pin
      dirs_mask := if p.dir ≠ 0 then l.dirs_mask ||| bit p.dir_pin else l.dirs_mask
      dirc_mask := if p.dir ≠ 0 then l.dirc_mask else l.dirc_mask ||| bit p.dir_pin
      stop_mask := l.stop_mask ||| bit u }.shift := by
  subst hp
  simp only [Scan.after, Scan.shift, if_pos hdue, if_pos (And.intro hdue hsteps)]

end After

/-- The rounds that serve a started unit. -/
theorem visit (hbit : l.started.getLsbD 0 = true) (hu : l.unit = u) (hp : l.stepper u = p)
    (hpaced : Paced p) (hramps : Ramps p) :
    ∃ p', Served p p' ∧ Rounds scanGoes scanRound l (l.after u p') := by
  have hgoes := scanGoes_of_bit hbit
  by_cases hdue : p.cticks + 1 = p.ticks
  · obtain ⟨cticks, lost, hc, hlt, hpos, hlost, -⟩ := hpaced.compensate
    by_cases hsteps : p.steps = 1
    · have hfirst := Rounds.one hgoes (scanRound_stops hbit hu hp hdue hsteps hc)
      have hpaced' : Paced { p with cticks := cticks, lost := lost } :=
        ⟨hpaced.two_le, Nat.lt_of_lt_of_le hlt hpaced.two_le, hpos, hlost,
          hpaced.lticks_nonneg, hpaced.lticks_lt⟩
      have hpositive : 0 < 1 - p.lticks := by
        have hlticks := hpaced.lticks_lt
        linarith
      obtain ⟨n, hn⟩ := exists_nat_gt (lost / (1 - p.lticks))
      obtain ⟨cticks', lost', hlt', hpos', hlost', hrest⟩ :=
        retest (l := { l with
          stepper := Function.update l.stepper u { p with cticks := cticks, lost := lost }
          start := l.start &&& ~~~bit u
          clock_mask := l.clock_mask ||| bit p.clock_pin
          dirs_mask := if p.dir ≠ 0 then l.dirs_mask ||| bit p.dir_pin else l.dirs_mask
          dirc_mask := if p.dir ≠ 0 then l.dirc_mask else l.dirc_mask ||| bit p.dir_pin
          stop_mask := l.stop_mask ||| bit u }) hbit hu n (Function.update_self ..) hpaced' hsteps
          ((div_lt_iff₀ hpositive).mp hn) (and_not_bit_idem _ _) (or_bit_idem _ _)
          (dirs_idem _ _ _) (dirc_idem _ _ _) (or_bit_idem _ _)
      rw [Function.update_idem] at hrest
      refine ⟨_, .stops hdue hsteps hlt' hpos' hlost', ?_⟩
      rw [after_stops hp hdue hsteps]
      exact hfirst.trans hrest
    · obtain ⟨q, hr⟩ := hramps hsteps cticks lost
      refine ⟨_, .steps hdue hsteps hc hr, ?_⟩
      rw [after_steps hp hdue hsteps]
      exact Rounds.one hgoes (scanRound_steps hbit hu hp hdue hsteps hc hr)
  · refine ⟨_, .waits hdue, ?_⟩
    rw [after_waits hp hdue]
    exact Rounds.one hgoes (scanRound_waits hbit hu hp hdue)

end Round

/-! ## All units -/

/-- The unit is started, and a pulse is due. -/
def Fires (d : Driver) (u : Fin NSTEP) : Prop :=
  d.start.getLsbD u = true ∧ (d.stepper u).cticks + 1 = (d.stepper u).ticks

/-- The pulse is the last one. -/
def Stops (d : Driver) (u : Fin NSTEP) : Prop := Fires d u ∧ (d.stepper u).steps = 1

/-- The mask holds a pin for each of the first `n` units that meet `P`. -/
def Collects (mask : BitVec 32) (n : Nat) (P : Fin NSTEP → Prop) (pin : Fin NSTEP → Nat) : Prop :=
  ∀ i, mask.getLsbD i = true ↔ i < 32 ∧ ∃ u : Fin NSTEP, u < n ∧ P u ∧ pin u = i

theorem getLsbD_bit (n i : Nat) : (bit n).getLsbD i = true ↔ i < 32 ∧ n = i := by
  unfold bit
  rw [BitVec.getLsbD_twoPow]
  constructor
  · intro h
    obtain ⟨hlt, rfl⟩ : n < 32 ∧ n = i := by simpa using h
    exact ⟨hlt, rfl⟩
  · rintro ⟨hlt, rfl⟩
    simpa using hlt

section Collects

variable {mask mask' : BitVec 32} {n : Nat} {P : Fin NSTEP → Prop} {pin : Fin NSTEP → Nat}

theorem collects_zero : Collects 0 0 P pin := by
  intro i
  constructor
  · intro h
    simp at h
  · rintro ⟨-, u, hlt, -⟩
    omega

/-- The mask after one unit more. -/
theorem Collects.succ (h : Collects mask n P pin) {u : Fin NSTEP} (hu : n = u)
    (hmem : P u → mask' = mask ||| bit (pin u)) (hnot : ¬ P u → mask' = mask) :
    Collects mask' (n + 1) P pin := by
  intro i
  have hsplit : (∃ v : Fin NSTEP, v < n + 1 ∧ P v ∧ pin v = i) ↔
      (∃ v : Fin NSTEP, v < n ∧ P v ∧ pin v = i) ∨ P u ∧ pin u = i := by
    constructor
    · rintro ⟨v, hlt, hP, hpin⟩
      by_cases hv : v = u
      · exact .inr (hv ▸ ⟨hP, hpin⟩)
      · have hne : v.val ≠ u.val := fun h => hv (Fin.ext h)
        exact .inl ⟨v, by omega, hP, hpin⟩
    · rintro (⟨v, hlt, hP, hpin⟩ | ⟨hP, hpin⟩)
      · exact ⟨v, by omega, hP, hpin⟩
      · exact ⟨u, by omega, hP, hpin⟩
  rw [hsplit]
  by_cases hP : P u
  · have hpin : (P u ∧ pin u = i) ↔ pin u = i := and_iff_right hP
    rw [hmem hP, BitVec.getLsbD_or, Bool.or_eq_true, h i, getLsbD_bit, hpin, and_or_left]
  · have hpin : ¬ (P u ∧ pin u = i) := fun hpin => hP hpin.1
    rw [hnot hP, h i, or_iff_left hpin]

end Collects

/-- The loop has served the units before `l.unit`. -/
structure Scanned (d : Driver) (l : Scan) : Prop where
  started : l.started = d.start >>> l.unit
  rest : ∀ u : Fin NSTEP, l.unit ≤ u → l.stepper u = d.stepper u
  idle : ∀ u : Fin NSTEP, d.start.getLsbD u = false → l.stepper u = d.stepper u
  served : ∀ u : Fin NSTEP, u < l.unit → d.start.getLsbD u = true →
    Served (d.stepper u) (l.stepper u)
  start : l.start = d.start &&& ~~~l.stop_mask
  clock : Collects l.clock_mask l.unit (Fires d) fun u => (d.stepper u).clock_pin
  dirs : Collects l.dirs_mask l.unit (fun u => Fires d u ∧ (d.stepper u).dir ≠ 0)
    fun u => (d.stepper u).dir_pin
  dirc : Collects l.dirc_mask l.unit (fun u => Fires d u ∧ (d.stepper u).dir = 0)
    fun u => (d.stepper u).dir_pin
  stop : Collects l.stop_mask l.unit (Stops d) fun u => u

section Scan

variable {d : Driver} {l : Scan} {u : Fin NSTEP}

theorem scanned_init (d : Driver) : Scanned d d.scan where
  started := (BitVec.ushiftRight_zero d.start).symm
  rest _ _ := rfl
  idle _ _ := rfl
  served u hlt := by
    have hzero : u.val < 0 := hlt
    omega
  start := by
    show d.start = d.start &&& ~~~0#32
    rw [BitVec.not_zero, BitVec.and_allOnes]
  clock := collects_zero
  dirs := collects_zero
  dirc := collects_zero
  stop := collects_zero

theorem Scanned.bit_eq (h : Scanned d l) (hu : l.unit = u) :
    l.started.getLsbD 0 = d.start.getLsbD u := by
  rw [h.started, BitVec.getLsbD_ushiftRight, hu]
  rfl

theorem Scanned.shift_started (h : Scanned d l) :
    l.started >>> 1 = d.start >>> (l.unit + 1) := by
  rw [h.started, BitVec.shiftRight_add]

/-- A unit that is not started is passed over. -/
theorem Scanned.skip (h : Scanned d l) (hu : l.unit = u) (hbit : d.start.getLsbD u = false) :
    Scanned d l.shift := by
  have hfires : ¬ Fires d u := fun hf => by simp [hf.1] at hbit
  refine ⟨h.shift_started, ?_, h.idle, ?_, h.start, ?_, ?_, ?_, ?_⟩
  · intro v hv
    have hle : l.unit + 1 ≤ v := hv
    exact h.rest v (by omega)
  · intro v hv hv'
    have hlt : v.val < l.unit + 1 := hv
    have hne : v.val ≠ u.val := by
      intro heq
      rw [Fin.ext heq, hbit] at hv'
      cases hv'
    exact h.served v (by omega) hv'
  · exact h.clock.succ hu (fun hf => absurd hf hfires) fun _ => rfl
  · exact h.dirs.succ hu (fun hf => absurd hf.1 hfires) fun _ => rfl
  · exact h.dirc.succ hu (fun hf => absurd hf.1 hfires) fun _ => rfl
  · exact h.stop.succ hu (fun hf => absurd hf.1 hfires) fun _ => rfl

/-- A started unit is served. -/
theorem Scanned.after (h : Scanned d l) (hu : l.unit = u) (hbit : d.start.getLsbD u = true)
    {p' : StepperT} (hserved : Served (d.stepper u) p') : Scanned d (l.after u p') := by
  have hp : l.stepper u = d.stepper u := h.rest u (Nat.le_of_eq hu)
  have hfires : Fires d u ↔ (l.stepper u).cticks + 1 = (l.stepper u).ticks := by
    rw [hp]
    exact ⟨fun hf => hf.2, fun hdue => ⟨hbit, hdue⟩⟩
  have hstops : Stops d u ↔
      (l.stepper u).cticks + 1 = (l.stepper u).ticks ∧ (l.stepper u).steps = 1 := by
    rw [← hfires, hp]
    rfl
  refine ⟨h.shift_started, ?_, ?_, ?_, ?_, ?_, ?_, ?_, ?_⟩
  · intro v hv
    have hle : l.unit + 1 ≤ v := hv
    have hne : v ≠ u := by
      rintro rfl
      omega
    exact (Function.update_of_ne hne ..).trans (h.rest v (by omega))
  · intro v hv
    have hne : v ≠ u := by
      rintro rfl
      rw [hbit] at hv
      cases hv
    exact (Function.update_of_ne hne ..).trans (h.idle v hv)
  · intro v hv hv'
    have hlt : v.val < l.unit + 1 := hv
    show Served (d.stepper v) (Function.update l.stepper u p' v)
    by_cases hne : v = u
    · subst hne
      rw [Function.update_self]
      exact hserved
    · have hval : v.val ≠ u.val := fun heq => hne (Fin.ext heq)
      rw [Function.update_of_ne hne]
      exact h.served v (by omega) hv'
  · show (if _ then _ else _) = d.start &&& ~~~(if _ then _ else _)
    split
    · rw [h.start, BitVec.not_or, BitVec.and_assoc]
    · exact h.start
  · refine h.clock.succ hu ?_ ?_
    · intro hf
      rw [← hp]
      exact if_pos (hfires.mp hf)
    · intro hf
      exact if_neg fun hdue => hf (hfires.mpr hdue)
  · refine h.dirs.succ hu ?_ ?_
    · rintro ⟨hf, hdir⟩
      rw [← hp] at hdir ⊢
      exact (if_pos (hfires.mp hf)).trans (if_pos hdir)
    · intro hno
      show (if _ then _ else _) = _
      split
      · next hdue =>
        rw [← hp] at hno
        exact if_neg fun hdir => hno ⟨hfires.mpr hdue, hdir⟩
      · rfl
  · refine h.dirc.succ hu ?_ ?_
    · rintro ⟨hf, hdir⟩
      rw [← hp] at hdir ⊢
      exact (if_pos (hfires.mp hf)).trans (if_neg (not_not.mpr hdir))
    · intro hno
      show (if _ then _ else _) = _
      split
      · next hdue =>
        rw [← hp] at hno
        exact if_pos fun hdir => hno ⟨hfires.mpr hdue, hdir⟩
      · rfl
  · refine h.stop.succ hu ?_ ?_
    · intro hs
      exact if_pos (hstops.mp hs)
    · intro hs
      exact if_neg fun hno => hs (hstops.mpr hno)

/-- The loop serves every started unit, and ends. -/
theorem Scanned.ends (h : Scanned d l) (hstart : ∀ i, NSTEP ≤ i → d.start.getLsbD i = false)
    (hserve : ∀ u : Fin NSTEP, d.start.getLsbD u = true →
      Paced (d.stepper u) ∧ Ramps (d.stepper u)) (n : Nat) (hn : NSTEP ≤ l.unit + n) :
    ∃ l', Ends scanGoes scanRound l l' ∧ Scanned d l' ∧ l'.started = 0 := by
  induction n generalizing l with
  | zero =>
    have hdone : l.started = 0 := by
      apply BitVec.eq_of_getLsbD_eq
      intro i _
      rw [h.started, BitVec.getLsbD_ushiftRight, hstart _ (by omega)]
      simp
    exact ⟨l, (Rounds.refl l).ends (by simp [scanGoes, hdone]), h, hdone⟩
  | succ n ih =>
    by_cases hdone : l.started = 0
    · exact ⟨l, (Rounds.refl l).ends (by simp [scanGoes, hdone]), h, hdone⟩
    · by_cases hlt : l.unit < NSTEP
      · have hu : l.unit = (⟨l.unit, hlt⟩ : Fin NSTEP) := rfl
        cases hbit : d.start.getLsbD l.unit with
        | true =>
          have hbit' := (h.bit_eq hu).trans hbit
          obtain ⟨hpaced, hramps⟩ := hserve ⟨l.unit, hlt⟩ hbit
          obtain ⟨p', hserved, hrounds⟩ := visit hbit' hu (h.rest _ (Nat.le_refl _)) hpaced hramps
          obtain ⟨l', hends, hscanned, hzero⟩ := ih (h.after hu hbit hserved) (by
            show NSTEP ≤ l.unit + 1 + n
            omega)
          exact ⟨l', (hrounds.trans hends.rounds.1).ends hends.rounds.2, hscanned, hzero⟩
        | false =>
          have hbit' := (h.bit_eq hu).trans hbit
          have hround : scanRound l = .ok l.shift := by
            unfold scanRound
            rw [hbit']
            rfl
          obtain ⟨l', hends, hscanned, hzero⟩ := ih (h.skip hu hbit) (by
            show NSTEP ≤ l.unit + 1 + n
            omega)
          have hgoes : scanGoes l = true := decide_eq_true hdone
          have hrounds := Rounds.head hgoes hround hends.rounds.1
          exact ⟨l', hrounds.ends hends.rounds.2, hscanned, hzero⟩
      · refine absurd ?_ hdone
        apply BitVec.eq_of_getLsbD_eq
        intro i _
        rw [h.started, BitVec.getLsbD_ushiftRight, hstart _ (by omega)]
        simp

/-- Once the loop has ended, it has come past every started unit. -/
theorem Scanned.lt_of_started (h : Scanned d l) (hzero : l.started = 0) {i : Nat}
    (hi : d.start.getLsbD i = true) : i < l.unit := by
  by_contra hle
  have hbit : (d.start >>> l.unit).getLsbD (i - l.unit) = d.start.getLsbD i := by
    rw [BitVec.getLsbD_ushiftRight]
    congr 1
    omega
  rw [← h.started, hzero, hi] at hbit
  simp at hbit

end Scan

/-! ## The interrupt -/

/-- The interrupt comes to an end, after a loop that has served every started unit. -/
theorem stepperIsr_ends {d : Driver} (hstart : ∀ i, NSTEP ≤ i → d.start.getLsbD i = false)
    (hserve : ∀ u : Fin NSTEP, d.start.getLsbD u = true →
      Paced (d.stepper u) ∧ Ramps (d.stepper u)) :
    ∃ l fuel, stepperIsr fuel d = .ok (l.finish d.out) ∧ Scanned d l ∧ l.started = 0 := by
  obtain ⟨l, ⟨fuel, hfuel⟩, hscanned, hzero⟩ :=
    (scanned_init d).ends hstart hserve NSTEP (Nat.le_add_left ..)
  refine ⟨l, fuel, ?_, hscanned, hzero⟩
  unfold stepperIsr
  rw [hfuel]
  rfl

/-- It ends in one way, however many rounds it is given. -/
theorem stepperIsr_unique {d : Driver} {l : Scan} {fuel fuel' : Nat} {r : IsrResult}
    (h : stepperIsr fuel d = .ok (l.finish d.out)) (h' : stepperIsr fuel' d = .ok r) :
    r = l.finish d.out := by
  obtain ⟨l₁, hl₁, hr₁⟩ := bind_eq_ok.mp h
  obtain ⟨l₂, hl₂, hr₂⟩ := bind_eq_ok.mp h'
  obtain rfl : l₁ = l₂ := Ends.unique ⟨fuel, hl₁⟩ ⟨fuel', hl₂⟩
  rw [← Except.ok.inj hr₁, ← Except.ok.inj hr₂]

/-- The pin is that of one unit only, of those that the interrupt serves. -/
def OwnPin (d : Driver) (u : Fin NSTEP) : Prop :=
  ∀ v, v ≠ u → Fires d v →
    (d.stepper v).clock_pin ≠ (d.stepper u).clock_pin ∧
      (d.stepper v).dir_pin ≠ (d.stepper u).clock_pin

section Writes

variable {d : Driver} {l : Scan} {u : Fin NSTEP}

theorem Scanned.clock_own (h : Scanned d l) (hzero : l.started = 0) (hown : OwnPin d u)
    (hpin : (d.stepper u).clock_pin < 32) :
    l.clock_mask.getLsbD (d.stepper u).clock_pin = true ↔ Fires d u := by
  rw [h.clock]
  constructor
  · rintro ⟨-, v, -, hv, heq⟩
    by_cases hne : v = u
    · exact hne ▸ hv
    · exact absurd heq (hown v hne hv).1
  · intro hf
    exact ⟨hpin, u, h.lt_of_started hzero hf.1, hf, rfl⟩

theorem Scanned.dirs_own (h : Scanned d l) (hown : OwnPin d u)
    (hbit : l.dirs_mask.getLsbD (d.stepper u).clock_pin = true) :
    Fires d u ∧ (d.stepper u).dir ≠ 0 := by
  obtain ⟨-, v, -, ⟨hv, hdir⟩, heq⟩ := (h.dirs _).mp hbit
  by_cases hne : v = u
  · exact hne ▸ ⟨hv, hdir⟩
  · exact absurd heq (hown v hne hv).2

theorem Scanned.dirc_own (h : Scanned d l) (hown : OwnPin d u)
    (hbit : l.dirc_mask.getLsbD (d.stepper u).clock_pin = true) :
    Fires d u ∧ (d.stepper u).dir = 0 := by
  obtain ⟨-, v, -, ⟨hv, hdir⟩, heq⟩ := (h.dirc _).mp hbit
  by_cases hne : v = u
  · exact hne ▸ ⟨hv, hdir⟩
  · exact absurd heq (hown v hne hv).2

theorem getLsbD_w1ts (out mask : BitVec 32) (pin : Nat) :
    ((GpioWrite.w1ts mask).apply out).getLsbD pin = (out.getLsbD pin || mask.getLsbD pin) :=
  BitVec.getLsbD_or

theorem getLsbD_w1tc (out mask : BitVec 32) (pin : Nat) :
    ((GpioWrite.w1tc mask).apply out).getLsbD pin = (out.getLsbD pin && !mask.getLsbD pin) := by
  show (out &&& ~~~mask).getLsbD pin = _
  rw [BitVec.getLsbD_and, BitVec.getLsbD_not]
  by_cases hpin : pin < 32
  · simp only [hpin, decide_true, Bool.true_and]
  · have hout : out.getLsbD pin = false := BitVec.getLsbD_of_ge out pin (Nat.le_of_not_lt hpin)
    simp only [hout, Bool.false_and]

/-- The four writes raise a pin of the clock mask once. -/
theorem rises_pulse {pin : Nat} {out dirs dirc clock : BitVec 32}
    (hlow : out.getLsbD pin = false) (hclock : clock.getLsbD pin = true)
    (hdir : ¬ (dirs.getLsbD pin = true ∧ dirc.getLsbD pin = true)) :
    rises pin out [.w1ts dirs, .w1tc dirc, .w1ts clock, .w1tc clock] = 1 := by
  simp only [rises, getLsbD_w1ts, getLsbD_w1tc, hlow, hclock]
  cases hs : dirs.getLsbD pin with
  | false => simp
  | true =>
    have hc : dirc.getLsbD pin = false := by
      by_contra hc
      exact hdir ⟨hs, Bool.eq_true_of_not_eq_false hc⟩
    simp [hc]

theorem low_writes {pin : Nat} {out dirs dirc clock : BitVec 32}
    (hlow : out.getLsbD pin = false)
    (hdirs : clock.getLsbD pin = false → dirs.getLsbD pin = false) :
    (outAfter out [.w1ts dirs, .w1tc dirc, .w1ts clock, .w1tc clock]).getLsbD pin = false := by
  show ((GpioWrite.w1tc clock).apply _).getLsbD pin = false
  simp only [getLsbD_w1ts, getLsbD_w1tc, hlow]
  cases hclock : clock.getLsbD pin with
  | true => simp
  | false => simp [hdirs hclock]

theorem rises_none {pin : Nat} {out dirs dirc clock : BitVec 32}
    (hlow : out.getLsbD pin = false) (hclock : clock.getLsbD pin = false)
    (hdirs : dirs.getLsbD pin = false) :
    rises pin out [.w1ts dirs, .w1tc dirc, .w1ts clock, .w1tc clock] = 0 := by
  simp [rises, getLsbD_w1ts, getLsbD_w1tc, hlow, hclock, hdirs]

/-- A unit makes one pulse when it is due, and none when not; its pin is low
    between them. -/
theorem Scanned.rises_own (h : Scanned d l) (hzero : l.started = 0) (hown : OwnPin d u)
    (hpin : (d.stepper u).clock_pin < 32)
    (hlow : d.out.getLsbD (d.stepper u).clock_pin = false) :
    (Fires d u → rises (d.stepper u).clock_pin d.out l.writes = 1) ∧
      (¬ Fires d u → rises (d.stepper u).clock_pin d.out l.writes = 0) ∧
      (outAfter d.out l.writes).getLsbD (d.stepper u).clock_pin = false := by
  have hclock := h.clock_own hzero hown hpin
  have hdirs : l.clock_mask.getLsbD (d.stepper u).clock_pin = false →
      l.dirs_mask.getLsbD (d.stepper u).clock_pin = false := by
    intro hfalse
    by_contra hbit
    have hf := (h.dirs_own hown (Bool.eq_true_of_not_eq_false hbit)).1
    rw [hclock.mpr hf] at hfalse
    cases hfalse
  by_cases hmask : l.clock_mask = 0
  · have hwrites : l.writes = [] := if_neg (not_not.mpr hmask)
    rw [hwrites]
    refine ⟨?_, fun _ => rfl, hlow⟩
    intro hf
    have hbit := hclock.mpr hf
    rw [hmask] at hbit
    simp at hbit
  · have hwrites : l.writes = [.w1ts l.dirs_mask, .w1tc l.dirc_mask, .w1ts l.clock_mask,
        .w1tc l.clock_mask] := if_pos hmask
    rw [hwrites]
    refine ⟨?_, ?_, low_writes hlow hdirs⟩
    · intro hf
      apply rises_pulse hlow (hclock.mpr hf)
      rintro ⟨hs, hc⟩
      exact (h.dirs_own hown hs).2 (h.dirc_own hown hc).2
    · intro hf
      have hfalse := Bool.eq_false_iff.mpr (hclock.not.mpr hf)
      exact rises_none hlow hfalse (hdirs hfalse)

end Writes

end LuaRtos.Stepper
