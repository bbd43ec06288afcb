/-
  LuaRtos.Drivers.StepperHalt

  Whether the loop of `stepper_isr` comes to an end.

  At the last pulse of a unit the loop goes on with the same unit, whose counter was just started
  again.  It leaves the unit once the counter is off the period, and that is a matter of the lost
  ticks: with a period of one tick and none lost the counter matches forever.
-/

import LuaRtos.Drivers.StepperDrive

namespace LuaRtos.Stepper

open CLib

/-- The loop of `stepper_isr` comes to an end, if only at a conversion that C does not define. -/
def LoopEnds (l : Scan) : Prop :=
  ∃ fuel, (∃ l', whileLoop scanGoes scanRound fuel l = .ok l') ∨
    whileLoop scanGoes scanRound fuel l = .error .undefined

/-- The interrupt comes to an end. -/
def Terminates (d : Driver) : Prop :=
  ∃ fuel, (∃ r, stepperIsr fuel d = .ok r) ∨ stepperIsr fuel d = .error .undefined

section Halt

variable {l l' : Scan} {p q : StepperT} {a : Request} {u : Fin NSTEP}

theorem LoopEnds.terminates {d : Driver} (h : LoopEnds d.scan) : Terminates d := by
  obtain ⟨fuel, ⟨l', hl⟩ | hfault⟩ := h
  · exact ⟨fuel, .inl ⟨_, bind_eq_ok.mpr ⟨l', hl, rfl⟩⟩⟩
  · refine ⟨fuel, .inr ?_⟩
    unfold stepperIsr
    rw [hfault]
    rfl

theorem LoopEnds.rounds (h : Rounds scanGoes scanRound l l') (hends : LoopEnds l') :
    LoopEnds l := by
  induction h with
  | refl l => exact hends
  | head hgo hround _ ih =>
    obtain ⟨fuel, hfuel⟩ := ih hends
    refine ⟨fuel + 1, ?_⟩
    rw [whileLoop_round hgo hround]
    exact hfuel

/-! ## The last pulse -/

/-- The lost ticks take the counter off the period within `n` pulses.  A period of one tick
    needs a lost one; any other needs that none is left. -/
def Loosens (p : StepperT) (n : Nat) : Prop :=
  p.ticks = 1 ∧ 1 ≤ p.lost + n * p.lticks ∨ p.ticks ≠ 1 ∧ p.lost < n * (1 - p.lticks)

theorem exists_loosens (h : Counted p) (hone : p.ticks = 1 → p.lticks ≠ 0) :
    ∃ n, Loosens p n := by
  by_cases hticks : p.ticks = 1
  · have hpos : 0 < p.lticks := lt_of_le_of_ne h.lticks_nonneg (hone hticks).symm
    obtain ⟨n, hn⟩ := exists_nat_gt (1 / p.lticks)
    have hmul : 1 < n * p.lticks := (div_lt_iff₀ hpos).mp hn
    have hlost := h.lost_nonneg
    exact ⟨n, .inl ⟨hticks, by linarith⟩⟩
  · have hpos : 0 < 1 - p.lticks := sub_pos.mpr h.lticks_lt
    obtain ⟨n, hn⟩ := exists_nat_gt (p.lost / (1 - p.lticks))
    exact ⟨n, .inr ⟨hticks, (div_lt_iff₀ hpos).mp hn⟩⟩

/-- The loop leaves a unit at its last pulse, as it was but for the unit. -/
theorem leaves_last (n : Nat) (hbit : l.started.getLsbD 0 = true) (hu : l.unit = u)
    (hp : l.stepper u = p) (hlast : p.steps = 1) (hcounted : Counted p) (hn : Loosens p n) :
    ∃ l', Rounds scanGoes scanRound l l' ∧ l'.unit = l.unit ∧ l'.started = l.started ∧
      (l'.stepper u).cticks + 1 ≠ (l'.stepper u).ticks := by
  induction n generalizing l p with
  | zero =>
    rcases hn with ⟨-, hlost⟩ | ⟨-, hlost⟩
    · have hlt := hcounted.lost_lt
      rw [Nat.cast_zero, zero_mul, add_zero] at hlost
      linarith
    · have hpos := hcounted.lost_nonneg
      rw [Nat.cast_zero, zero_mul] at hlost
      linarith
  | succ n ih =>
    by_cases hdue : p.cticks + 1 = p.ticks
    · obtain ⟨cticks, lost, hc, hpos, hlt, hcases⟩ := hcounted.compensate
      obtain ⟨l₁, hround, hunit₁, hstarted₁, hset⟩ : ∃ l₁, scanRound l = .ok l₁ ∧
          l₁.unit = l.unit ∧ l₁.started = l.started ∧
          l₁.stepper u = { p with cticks := cticks, lost := lost } :=
        ⟨_, scanRound_stops hbit hu hp hdue hlast hc, rfl, rfl, Function.update_self ..⟩
      have hgo := Rounds.one (scanGoes_of_bit hbit) hround
      by_cases hoff : cticks + 1 = p.ticks
      · -- the counter matches again: there is one pulse less to go
        have hless : Loosens { p with cticks := cticks, lost := lost } n := by
          rcases hcases with ⟨-, rfl, rfl⟩ | ⟨-, rfl, rfl⟩
          · refine .inl ⟨hoff.symm, ?_⟩
            rcases hn with ⟨-, hlost⟩ | ⟨hne, -⟩
            · push_cast at hlost
              show 1 ≤ p.lost + p.lticks + n * p.lticks
              linarith
            · exact absurd hoff.symm hne
          · refine .inr ⟨?_, ?_⟩
            · show p.ticks ≠ 1
              rw [← hoff]
              decide
            · rcases hn with ⟨hone, -⟩ | ⟨-, hlost⟩
              · rw [hone] at hoff
                cases hoff
              · push_cast at hlost
                show p.lost + p.lticks - 1 < n * (1 - p.lticks)
                linarith
        obtain ⟨l', hrounds, hunit, hstarted, hfree⟩ := ih (hstarted₁ ▸ hbit)
          (hunit₁.trans hu) hset hlast
          ⟨hpos, hlt, hcounted.lticks_nonneg, hcounted.lticks_lt⟩ hless
        exact ⟨l', hgo.trans hrounds, hunit.trans hunit₁, hstarted.trans hstarted₁, hfree⟩
      · refine ⟨l₁, hgo, hunit₁, hstarted₁, ?_⟩
        rw [hset]
        exact hoff
    · exact ⟨l, .refl l, rfl, rfl, by rwa [hp]⟩

/-- With a period of one tick and none lost it never does. -/
theorem never_leaves (fuel : Nat) (hbit : l.started.getLsbD 0 = true) (hu : l.unit = u)
    (hp : l.stepper u = p) (hlast : p.steps = 1) (hcounted : Counted p) (hticks : p.ticks = 1)
    (hlticks : p.lticks = 0) (hcticks : p.cticks = 0) :
    whileLoop scanGoes scanRound fuel l = .error .diverged := by
  induction fuel generalizing l p with
  | zero => rfl
  | succ fuel ih =>
    have hdue : p.cticks + 1 = p.ticks := by
      rw [hcticks, hticks]
      rfl
    obtain ⟨cticks, lost, hc, hpos, hlt, hcases⟩ := hcounted.compensate
    have hzero : cticks = 0 := by
      rcases hcases with ⟨-, hzero, -⟩ | ⟨hone, -⟩
      · exact hzero
      · have hlost := hcounted.lost_lt
        rw [hlticks, add_zero] at hone
        linarith
    obtain ⟨l₁, hround, hunit₁, hstarted₁, hset⟩ : ∃ l₁, scanRound l = .ok l₁ ∧
        l₁.unit = l.unit ∧ l₁.started = l.started ∧
        l₁.stepper u = { p with cticks := cticks, lost := lost } :=
      ⟨_, scanRound_stops hbit hu hp hdue hlast hc, rfl, rfl, Function.update_self ..⟩
    rw [whileLoop_round (scanGoes_of_bit hbit) hround]
    exact ih (hstarted₁ ▸ hbit) (hunit₁.trans hu) hset hlast
      ⟨hpos, hlt, hcounted.lticks_nonneg, hcounted.lticks_lt⟩ hticks hlticks hzero

/-! ## The loop -/

theorem sub_sub_bits (x y : BitVec 32) : x - (x - y) = y := by bv_omega

/-- The last step has its frequency. -/
theorem OnMove.freq_last (h : OnMove a p) (hlast : p.steps = 1) : p.current_freq = a.lastFreq := by
  obtain ⟨k, hsteps, hfreq, hmore⟩ := h.pulses
  have hk : a.steps - BitVec.ofNat 32 k = 1 := hsteps.symm.trans hlast
  have hle : k ≤ (a.steps - 1).toNat := by
    by_contra hgt
    refine hmore _ (Nat.lt_of_not_le hgt) ?_
    rw [BitVec.ofNat_toNat, BitVec.setWidth_eq]
    exact sub_sub_bits _ _
  have hlt : k < 2 ^ 32 := Nat.lt_of_le_of_lt hle (a.steps - 1).isLt
  have heq : a.steps - 1 = BitVec.ofNat 32 k := by
    rw [← hk]
    exact sub_sub_bits _ _
  rw [hfreq, Request.lastFreq, heq, BitVec.toNat_ofNat, Nat.mod_eq_of_lt hlt]

/-- A period of one tick without lost ticks is that of the base frequency. -/
theorem OnMove.off_base (h : OnMove a p) (hlast : p.steps = 1) (hoff : a.lastFreq ≠ STEPPER_HZ)
    (hticks : p.ticks = 1) : p.lticks ≠ 0 := by
  intro hzero
  have hone : (p.ticks.toNat : Int) = 1 := by
    rw [hticks]
    rfl
  have hperiod : STEPPER_HZ / p.current_freq = 1 := by
    rw [← Int.floor_add_fract (STEPPER_HZ / p.current_freq), ← h.tuned.ticks, ← h.tuned.lticks,
      hone, hzero]
    norm_num
  have hfreq : p.current_freq ≠ 0 := by
    intro hzero'
    rw [hzero', div_zero] at hperiod
    norm_num at hperiod
  apply hoff
  rw [← h.freq_last hlast]
  exact ((div_eq_one_iff_eq hfreq).mp hperiod).symm

theorem Known.off_base {o : Option Request} (h : Known p o) (hlast : p.steps = 1)
    (hoff : ∀ a, o = some a → a.lastFreq ≠ STEPPER_HZ) (hticks : p.ticks = 1) : p.lticks ≠ 0 := by
  cases o with
  | none =>
    have hzero := Unmoved.steps h
    rw [hlast] at hzero
    cases hzero
  | some a => exact OnMove.off_base h hlast (hoff a rfl) hticks

/-- The ramp only faults at a conversion. -/
theorem updateFrequency_fault {freq : ℚ} {e : Fault} (h : updateFrequency p freq = .error e) :
    e = .undefined := by
  unfold updateFrequency at h
  split at h
  · exact (Except.error.inj h).symm
  · dsimp only at h
    unfold toU32 at h
    split at h
    · cases h
    · exact (Except.error.inj h).symm

theorem ramp_fault {e : Fault} (h : ramp p = .error e) : e = .undefined := by
  unfold ramp at h
  split at h
  · exact updateFrequency_fault h
  · split at h
    · exact updateFrequency_fault h
    · cases h

theorem scanRound_fault {e : Fault} (hbit : l.started.getLsbD 0 = true) (hu : l.unit = u)
    (hp : l.stepper u = p) (hdue : p.cticks + 1 = p.ticks) (hsteps : p.steps ≠ 1)
    {cticks : BitVec 32} {lost : ℚ}
    (hc : compensate 0 (p.lost + p.lticks) = .ok (cticks, lost))
    (hr : ramp { p with cticks := cticks, lost := lost } = .error e) :
    scanRound l = .error e := by
  obtain ⟨u, hlt⟩ := u
  obtain rfl : l.unit = u := hu
  subst hp
  unfold scanRound
  rw [if_pos hbit, dif_pos hlt, if_pos hdue]
  simp only [hc, ok_bind, if_neg hsteps, hr]
  rfl

/-- A unit that is not at a last pulse is left in one round, or faults at a conversion. -/
theorem leaves {o : Option Request} (hbit : l.started.getLsbD 0 = true) (hu : l.unit = u)
    (hknown : Known (l.stepper u) o)
    (hmore : (l.stepper u).cticks + 1 = (l.stepper u).ticks → (l.stepper u).steps ≠ 1) :
    (∃ l', scanRound l = .ok l' ∧ l'.unit = l.unit + 1 ∧ l'.started = l.started >>> 1) ∨
      scanRound l = .error .undefined := by
  by_cases hdue : (l.stepper u).cticks + 1 = (l.stepper u).ticks
  · obtain ⟨cticks, lost, hc, -⟩ := hknown.counted.compensate
    cases hr : ramp { l.stepper u with cticks := cticks, lost := lost } with
    | ok q => exact .inl ⟨_, scanRound_steps hbit hu rfl hdue (hmore hdue) hc hr, rfl, rfl⟩
    | error e =>
      obtain rfl := ramp_fault hr
      exact .inr (scanRound_fault hbit hu rfl hdue (hmore hdue) hc hr)
  · exact .inl ⟨_, scanRound_waits hbit hu rfl hdue, rfl, rfl⟩

/-- The loop comes to the next unit, or to a fault. -/
theorem LoopEnds.unit {last : Fin NSTEP → Option Request}
    (hoff : ∀ v a, last v = some a → a.lastFreq ≠ STEPPER_HZ)
    (hbit : l.started.getLsbD 0 = true) (hu : l.unit = u)
    (hknown : ∀ v, Known (l.stepper v) (last v))
    (hnext : ∀ l', l'.unit = l.unit + 1 → l'.started = l.started >>> 1 →
      (∀ v, Known (l'.stepper v) (last v)) → LoopEnds l') : LoopEnds l := by
  -- the rounds at a last pulse come first
  obtain ⟨l₁, hrounds, hunit₁, hstarted₁, hmore⟩ : ∃ l₁, Rounds scanGoes scanRound l l₁ ∧
      l₁.unit = l.unit ∧ l₁.started = l.started ∧
      ((l₁.stepper u).cticks + 1 = (l₁.stepper u).ticks → (l₁.stepper u).steps ≠ 1) := by
    by_cases hlast : (l.stepper u).steps = 1
    · obtain ⟨n, hn⟩ := exists_loosens (hknown u).counted ((hknown u).off_base hlast (hoff u))
      obtain ⟨l₁, hrounds, hunit₁, hstarted₁, hfree⟩ :=
        leaves_last n hbit hu rfl hlast (hknown u).counted hn
      exact ⟨l₁, hrounds, hunit₁, hstarted₁, fun hdue => absurd hdue hfree⟩
    · exact ⟨l, .refl l, rfl, rfl, fun _ => hlast⟩
  have hknown₁ : ∀ v, Known (l₁.stepper v) (last v) :=
    rounds_keep (P := fun v p => Known p (last v)) (fun _ _ _ hround hp => hp.round hround)
      hrounds hknown
  have hbit₁ : l₁.started.getLsbD 0 = true := hstarted₁ ▸ hbit
  have hgo := scanGoes_of_bit hbit₁
  refine .rounds hrounds ?_
  rcases leaves hbit₁ (hunit₁.trans hu) (hknown₁ u) hmore with
    ⟨l₂, hround, hunit₂, hstarted₂⟩ | hfault
  · refine .rounds (.one hgo hround) (hnext l₂ ?_ ?_ ?_)
    · rw [hunit₂, hunit₁]
    · rw [hstarted₂, hstarted₁]
    · exact scanRound_keeps (P := fun v p => Known p (last v))
        (fun _ _ _ hround hp => hp.round hround) hround hknown₁
  · refine ⟨1, .inr ?_⟩
    rw [whileLoop, hgo, if_pos rfl, hfault]
    rfl

/-- With `n` units to go. -/
theorem loop_ends {last : Fin NSTEP → Option Request}
    (hoff : ∀ v a, last v = some a → a.lastFreq ≠ STEPPER_HZ) (n : Nat) (hn : NSTEP ≤ l.unit + n)
    (hstarted : ∀ i, NSTEP ≤ l.unit + i → l.started.getLsbD i = false)
    (hknown : ∀ v, Known (l.stepper v) (last v)) : LoopEnds l := by
  induction n generalizing l with
  | zero =>
    have hzero : l.started = 0 := by
      apply mask_eq_zero
      intro i
      rw [hstarted i (Nat.le_trans hn (Nat.add_le_add_left (Nat.zero_le i) _))]
      decide
    exact ⟨1, .inl ⟨l, whileLoop_done (by simp [scanGoes, hzero]) 0⟩⟩
  | succ n ih =>
    have hnext : ∀ l' : Scan, l'.unit = l.unit + 1 → l'.started = l.started >>> 1 →
        (∀ v, Known (l'.stepper v) (last v)) → LoopEnds l' := by
      intro l' hunit' hstarted' hknown'
      refine ih (by omega) ?_ hknown'
      intro i hi
      rw [hstarted', BitVec.getLsbD_ushiftRight]
      exact hstarted (1 + i) (by omega)
    cases hbit : l.started.getLsbD 0 with
    | true =>
      have hlt : l.unit < NSTEP := by
        by_contra hge
        rw [hstarted 0 (by omega)] at hbit
        cases hbit
      exact .unit (u := ⟨l.unit, hlt⟩) hoff hbit rfl hknown hnext
    | false =>
      by_cases hgo : scanGoes l = true
      · have hround : scanRound l = .ok l.shift := by
          unfold scanRound
          rw [hbit]
          rfl
        exact .rounds (.one hgo hround) (hnext l.shift rfl rfl hknown)
      · exact ⟨1, .inl ⟨l, whileLoop_done ((Bool.not_eq_true _).mp hgo) 0⟩⟩

end Halt

/-! ## Runs -/

/-- No move is accepted that has the frequency of the timer at its last step. -/
def OffBase (_ : Track) (e : Cause) : Prop :=
  ∀ u a, e = .accept u a → a.lastFreq ≠ STEPPER_HZ

theorem offBase_of_reach {s : Track} (h : drive.Reach OffBase s) :
    ∀ u a, s.last u = some a → a.lastFreq ≠ STEPPER_HZ := by
  apply Lts.Reach.invariant (L := drive)
    (I := fun s => ∀ u a, s.last u = some a → a.lastFreq ≠ STEPPER_HZ) _ _ h
  · rintro s rfl u a hlast
    cases hlast
  · intro s e s' hoff hok hs
    cases hs with
    | setup => exact hoff
    | @accept d d' last u dir a hmove =>
      intro v b hlast
      dsimp only at hlast
      by_cases hv : v = u
      · rw [hv, Function.update_self] at hlast
        obtain rfl := Option.some.inj hlast
        exact hok u a rfl
      · rw [Function.update_of_ne hv] at hlast
        exact hoff v b hlast
    | refuse => exact hoff
    | start => exact hoff
    | interrupt => exact hoff

end LuaRtos.Stepper
