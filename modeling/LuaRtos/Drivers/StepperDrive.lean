/-
  LuaRtos.Drivers.StepperDrive

  The stepper driver with moves of any kind.

  Nothing is asked of the steps, the ramp or the frequencies of a move but that `stepper_move`
  accepts it, nor of the units that are set up and started.  A unit goes through the frequencies
  of its move one pulse after the other: `Request.freqAfter` is what the increments of the ramp
  come to, with the unsigned arithmetic of the thresholds.
-/

import LuaRtos.Drivers.StepperMotion
import LuaRtos.Drivers.StepperStart
import LuaRtos.Lts.Run

namespace LuaRtos.Stepper

open CLib

/-! ## One round for a unit -/

/-- What a round of the loop of `stepper_isr` makes of the unit it is at. -/
inductive UnitRound (p : StepperT) : StepperT → Prop
  | waits (hdue : p.cticks + 1 ≠ p.ticks) : UnitRound p { p with cticks := p.cticks + 1 }
  | stops {cticks : BitVec 32} {lost : ℚ} (hdue : p.cticks + 1 = p.ticks) (hsteps : p.steps = 1)
      (hc : compensate 0 (p.lost + p.lticks) = .ok (cticks, lost)) :
      UnitRound p { p with cticks := cticks, lost := lost }
  | steps {cticks : BitVec 32} {lost : ℚ} {q : StepperT} (hdue : p.cticks + 1 = p.ticks)
      (hsteps : p.steps ≠ 1) (hc : compensate 0 (p.lost + p.lticks) = .ok (cticks, lost))
      (hr : ramp { p with cticks := cticks, lost := lost } = .ok q) :
      UnitRound p { q with steps := q.steps - 1 }

section Rounds

variable {l l' : Scan} {P : Fin NSTEP → StepperT → Prop}

/-- A round changes one unit at most. -/
theorem scanRound_unit (h : scanRound l = .ok l') :
    l'.stepper = l.stepper ∨
      ∃ u p', UnitRound (l.stepper u) p' ∧ l'.stepper = Function.update l.stepper u p' := by
  cases hbit : l.started.getLsbD 0 with
  | false =>
    unfold scanRound at h
    rw [hbit] at h
    rw [← Except.ok.inj h]
    exact .inl rfl
  | true =>
    by_cases hlt : l.unit < NSTEP
    · have hu : l.unit = (⟨l.unit, hlt⟩ : Fin NSTEP) := rfl
      refine .inr ⟨⟨l.unit, hlt⟩, ?_⟩
      by_cases hdue : (l.stepper ⟨l.unit, hlt⟩).cticks + 1 = (l.stepper ⟨l.unit, hlt⟩).ticks
      · have hround := h
        unfold scanRound at hround
        rw [if_pos hbit, dif_pos hlt, if_pos hdue] at hround
        obtain ⟨⟨cticks, lost⟩, hc, hround⟩ := bind_eq_ok.mp hround
        by_cases hsteps : (l.stepper ⟨l.unit, hlt⟩).steps = 1
        · rw [scanRound_stops hbit hu rfl hdue hsteps hc] at h
          rw [← Except.ok.inj h]
          exact ⟨_, .stops hdue hsteps hc, rfl⟩
        · dsimp only at hround
          rw [if_neg hsteps] at hround
          obtain ⟨q, hr, -⟩ := bind_eq_ok.mp hround
          rw [scanRound_steps hbit hu rfl hdue hsteps hc hr] at h
          rw [← Except.ok.inj h]
          exact ⟨_, .steps hdue hsteps hc hr, rfl⟩
      · rw [scanRound_waits hbit hu rfl hdue] at h
        rw [← Except.ok.inj h]
        exact ⟨_, .waits hdue, rfl⟩
    · unfold scanRound at h
      rw [if_pos hbit, dif_neg hlt] at h
      cases h

/-- What a round for a unit keeps, the rounds of the loop keep of every unit. -/
theorem scanRound_keeps (hkeep : ∀ u p p', UnitRound p p' → P u p → P u p')
    (h : scanRound l = .ok l') (hP : ∀ u, P u (l.stepper u)) (v : Fin NSTEP) :
    P v (l'.stepper v) := by
  rcases scanRound_unit h with hsame | ⟨u, p', hunit, hset⟩
  · rw [hsame]
    exact hP v
  · rw [hset]
    by_cases hv : v = u
    · subst hv
      rw [Function.update_self]
      exact hkeep v _ _ hunit (hP v)
    · rw [Function.update_of_ne hv]
      exact hP v

theorem rounds_keep (hkeep : ∀ u p p', UnitRound p p' → P u p → P u p')
    (h : Rounds scanGoes scanRound l l') (hP : ∀ u, P u (l.stepper u)) :
    ∀ u, P u (l'.stepper u) := by
  induction h with
  | refl l => exact hP
  | head _ hround _ ih => exact ih (scanRound_keeps hkeep hround hP)

theorem stepperIsr_keeps (hkeep : ∀ u p p', UnitRound p p' → P u p → P u p') {d : Driver}
    {fuel : Nat} {r : IsrResult} (h : stepperIsr fuel d = .ok r)
    (hd : ∀ u, P u (d.stepper u)) (u : Fin NSTEP) : P u (r.driver.stepper u) := by
  obtain ⟨l, hl, hret⟩ := bind_eq_ok.mp h
  obtain rfl := Except.ok.inj hret
  have hrounds : Rounds scanGoes scanRound d.scan l := (Ends.rounds ⟨fuel, hl⟩).1
  exact rounds_keep hkeep hrounds hd u

end Rounds

/-! ## The frequencies of a move -/

/-- The arguments of `stepper_move`, the unit and the direction apart. -/
structure Request where
  steps : BitVec 32
  ramp : BitVec 32
  ifreq : ℚ
  efreq : ℚ
deriving DecidableEq

namespace Request

variable (a : Request)

/-- The first frequency. -/
def base : ℚ := if a.ramp = 0 then a.efreq else a.ifreq

def inc : ℚ := if a.ramp = 0 then 0 else (a.efreq - a.ifreq) / a.ramp.toNat

/-- The frequency after a pulse with `s` steps left, that of the pulse included. -/
def nextFreq (s : BitVec 32) (f : ℚ) : ℚ :=
  if a.steps - a.ramp + 1 ≤ s then f + a.inc
  else if s ≤ a.ramp then f - a.inc
  else f

/-- The frequency after `k` pulses. -/
def freqAfter : Nat → ℚ
  | 0 => a.base
  | k + 1 => a.nextFreq (a.steps - BitVec.ofNat 32 k) (freqAfter k)

/-- The frequency of the last step. -/
def lastFreq : ℚ := a.freqAfter (a.steps - 1).toNat

end Request

/-- A unit whose counter and lost ticks are in order. -/
structure Counted (p : StepperT) : Prop where
  lost_nonneg : 0 ≤ p.lost
  lost_lt : p.lost < 1
  lticks_nonneg : 0 ≤ p.lticks
  lticks_lt : p.lticks < 1

/-- The unit has its period from its frequency. -/
structure Tuned (p : StepperT) : Prop where
  ticks : (p.ticks.toNat : Int) = ⌊STEPPER_HZ / p.current_freq⌋
  lticks : p.lticks = Int.fract (STEPPER_HZ / p.current_freq)

/-- The unit is on a move, after some pulses none of which was the last. -/
structure OnMove (a : Request) (p : StepperT) : Prop where
  up : p.steps_up = a.steps - a.ramp + 1
  down : p.steps_down = a.ramp
  inc : p.freq_inc = a.inc
  tuned : Tuned p
  counted : Counted p
  pulses : ∃ k, p.steps = a.steps - BitVec.ofNat 32 k ∧ p.current_freq = a.freqAfter k ∧
    ∀ j < k, a.steps - BitVec.ofNat 32 j ≠ 1

/-- The unit has never been given a move. -/
structure Unmoved (p : StepperT) : Prop where
  steps : p.steps = 0
  up : p.steps_up = 0
  inc : p.freq_inc = 0
  freq : p.current_freq = 0
  counted : Counted p

section Unit

variable {a : Request} {p q : StepperT}

/-- A conversion that is defined gives the whole ticks of the period. -/
theorem updateFrequency_tuned {freq : ℚ} (h : updateFrequency p freq = .ok q) :
    q = { p with ticks := q.ticks, lticks := Int.fract (STEPPER_HZ / freq) } ∧
      (q.ticks.toNat : Int) = ⌊STEPPER_HZ / freq⌋ := by
  unfold updateFrequency at h
  split at h
  · cases h
  · rw [tticks_eq] at h
    obtain ⟨t, ht, hq⟩ := bind_eq_ok.mp h
    unfold toU32 at ht
    split at ht
    · next hfits =>
      obtain rfl := Except.ok.inj ht
      obtain rfl := Except.ok.inj hq
      obtain ⟨t', ht', heq⟩ := toU32_eq hfits.1 hfits.2
      unfold toU32 at heq
      rw [if_pos hfits] at heq
      have hbits : BitVec.ofInt 32 ⌊STEPPER_HZ / freq⌋ = t' := Except.ok.inj heq
      refine ⟨rfl, ?_⟩
      show ((BitVec.ofInt 32 ⌊STEPPER_HZ / freq⌋).toNat : Int) = _
      rw [hbits]
      exact ht'
    · cases ht

/-- The ramp leads to the next frequency of the move. -/
theorem ramp_tuned (hup : p.steps_up = a.steps - a.ramp + 1) (hdown : p.steps_down = a.ramp)
    (hinc : p.freq_inc = a.inc) (htuned : Tuned p) (h : ramp p = .ok q) :
    q = { p with
      current_freq := a.nextFreq p.steps p.current_freq, ticks := q.ticks, lticks := q.lticks } ∧
      Tuned q := by
  unfold ramp at h
  unfold Request.nextFreq
  rw [← hup, ← hdown, ← hinc]
  split at h
  · next hcase =>
    obtain ⟨hq, hticks⟩ := updateFrequency_tuned h
    rw [if_pos hcase]
    rw [hq]
    exact ⟨rfl, hticks, rfl⟩
  · next hcase =>
    rw [if_neg hcase]
    split at h
    · next hcase' =>
      obtain ⟨hq, hticks⟩ := updateFrequency_tuned h
      rw [if_pos hcase']
      rw [hq]
      exact ⟨rfl, hticks, rfl⟩
    · next hcase' =>
      obtain rfl := Except.ok.inj h
      rw [if_neg hcase']
      exact ⟨rfl, htuned⟩

theorem Tuned.counted (h : Tuned p) (hpos : 0 ≤ p.lost) (hlt : p.lost < 1) : Counted p := by
  refine ⟨hpos, hlt, ?_, ?_⟩
  · rw [h.lticks]
    exact Int.fract_nonneg _
  · rw [h.lticks]
    exact Int.fract_lt_one _

/-- The lost ticks that stay are a fraction. -/
theorem Counted.compensate (h : Counted p) :
    ∃ cticks lost, compensate 0 (p.lost + p.lticks) = .ok (cticks, lost) ∧ 0 ≤ lost ∧ lost < 1 ∧
      (p.lost + p.lticks < 1 ∧ cticks = 0 ∧ lost = p.lost + p.lticks ∨
        1 ≤ p.lost + p.lticks ∧ cticks = 1 ∧ lost = p.lost + p.lticks - 1) := by
  obtain ⟨hpos, hlt, hpos', hlt'⟩ := h
  exact compensate_lt (by linarith) (by linarith)

/-- A round keeps a unit on its move. -/
theorem OnMove.round (h : OnMove a p) (hround : UnitRound p q) : OnMove a q := by
  obtain ⟨hup, hdown, hinc, htuned, hcounted, k, hsteps, hfreq, hmore⟩ := h
  cases hround with
  | waits =>
    exact ⟨hup, hdown, hinc, ⟨htuned.ticks, htuned.lticks⟩,
      ⟨hcounted.lost_nonneg, hcounted.lost_lt, hcounted.lticks_nonneg, hcounted.lticks_lt⟩,
      k, hsteps, hfreq, hmore⟩
  | stops hdue hlast hc =>
    obtain ⟨cticks, lost, hc', hpos, hlt, -⟩ := hcounted.compensate
    rw [hc] at hc'
    cases hc'
    exact ⟨hup, hdown, hinc, ⟨htuned.ticks, htuned.lticks⟩,
      ⟨hpos, hlt, hcounted.lticks_nonneg, hcounted.lticks_lt⟩, k, hsteps, hfreq, hmore⟩
  | @steps cticks lost q hdue hlast hc hr =>
    obtain ⟨cticks', lost', hc', hpos, hlt, -⟩ := hcounted.compensate
    rw [hc] at hc'
    cases hc'
    obtain ⟨hq, htuned'⟩ := ramp_tuned (a := a) (p := { p with cticks := cticks, lost := lost })
      hup hdown hinc ⟨htuned.ticks, htuned.lticks⟩ hr
    rw [hq] at htuned' ⊢
    dsimp only at htuned' ⊢
    refine ⟨hup, hdown, hinc, ⟨htuned'.ticks, htuned'.lticks⟩, ?_, k + 1, ?_, ?_, ?_⟩
    · exact Tuned.counted ⟨htuned'.ticks, htuned'.lticks⟩ hpos hlt
    · show p.steps - 1 = _
      rw [hsteps, BitVec.ofNat_add, BitVec.sub_sub]
      rfl
    · show a.nextFreq p.steps p.current_freq = _
      rw [Request.freqAfter, hsteps, hfreq]
    · intro j hj
      rcases Nat.lt_succ_iff_lt_or_eq.mp hj with hlt' | rfl
      · exact hmore j hlt'
      · rw [← hsteps]
        exact hlast

/-- One without a move has no frequency to go on with. -/
theorem Unmoved.round (h : Unmoved p) (hround : UnitRound p q) : Unmoved q := by
  obtain ⟨hsteps, hup, hinc, hfreq, hcounted⟩ := h
  cases hround with
  | waits =>
    exact ⟨hsteps, hup, hinc, hfreq,
      ⟨hcounted.lost_nonneg, hcounted.lost_lt, hcounted.lticks_nonneg, hcounted.lticks_lt⟩⟩
  | stops hdue hlast =>
    rw [hsteps] at hlast
    cases hlast
  | steps hdue hlast hc hr =>
    unfold ramp at hr
    dsimp only at hr
    rw [hup, hsteps, if_pos (BitVec.le_refl _), hfreq, hinc, add_zero] at hr
    unfold updateFrequency at hr
    rw [if_pos rfl] at hr
    cases hr

/-- `stepper_setup` writes nothing that a move goes by. -/
theorem OnMove.setup (h : OnMove a p) (step_pin dir_pin : Nat) :
    OnMove a { p with clock_pin := step_pin, dir_pin := dir_pin, setup := true } := by
  obtain ⟨hup, hdown, hinc, htuned, hcounted, hpulses⟩ := h
  exact ⟨hup, hdown, hinc, ⟨htuned.ticks, htuned.lticks⟩,
    ⟨hcounted.lost_nonneg, hcounted.lost_lt, hcounted.lticks_nonneg, hcounted.lticks_lt⟩, hpulses⟩

theorem Unmoved.setup (h : Unmoved p) (step_pin dir_pin : Nat) :
    Unmoved { p with clock_pin := step_pin, dir_pin := dir_pin, setup := true } := by
  obtain ⟨hsteps, hup, hinc, hfreq, hcounted⟩ := h
  exact ⟨hsteps, hup, hinc, hfreq,
    ⟨hcounted.lost_nonneg, hcounted.lost_lt, hcounted.lticks_nonneg, hcounted.lticks_lt⟩⟩

/-- A move that is accepted is a move of the unit, with nothing counted and nothing lost. -/
theorem stepperMove_accepted {d d' : Driver} {u : Fin NSTEP} {dir : Nat}
    (h : stepperMove d u dir a.steps a.ramp a.ifreq a.efreq = .ok (none, d')) :
    d'.start = d.start ∧ d'.out = d.out ∧ ∃ q, d'.stepper = Function.update d.stepper u q ∧
      OnMove a q ∧ q.steps = a.steps ∧ q.current_freq = a.base ∧ q.cticks = 0 ∧ q.lost = 0 := by
  unfold stepperMove at h
  split at h
  · cases h
  split at h
  · cases h
  rw [dif_pos u.isLt] at h
  dsimp only at h
  split at h
  · cases h
  obtain ⟨q, hq, hret⟩ := bind_eq_ok.mp h
  obtain ⟨-, rfl⟩ := Prod.mk.inj (Except.ok.inj hret)
  obtain ⟨heq, hticks⟩ := updateFrequency_tuned hq
  refine ⟨rfl, rfl, q, rfl, ?_⟩
  rw [heq]
  refine ⟨⟨rfl, rfl, rfl, ⟨hticks, rfl⟩, ?_, 0, ?_, rfl, ?_⟩, rfl, rfl, rfl, rfl⟩
  · exact ⟨le_refl _, zero_lt_one, Int.fract_nonneg _, Int.fract_lt_one _⟩
  · exact (BitVec.sub_zero _).symm
  · intro j hj
    cases hj

/-- A move that is refused changes nothing. -/
theorem stepperMove_refused {d d' : Driver} {unit dir : Nat} {steps ramp : BitVec 32}
    {ifreq efreq : ℚ} {err : Err}
    (h : stepperMove d unit dir steps ramp ifreq efreq = .ok (some err, d')) : d' = d := by
  unfold stepperMove at h
  split at h
  · exact (Prod.mk.inj (Except.ok.inj h)).2.symm
  split at h
  · exact (Prod.mk.inj (Except.ok.inj h)).2.symm
  split at h
  · dsimp only at h
    split at h
    · exact (Prod.mk.inj (Except.ok.inj h)).2.symm
    · obtain ⟨q, -, hret⟩ := bind_eq_ok.mp h
      cases (Prod.mk.inj (Except.ok.inj hret)).1
  · cases h

end Unit

/-! ## Runs -/

/-- The driver, and for every unit its last accepted move. -/
structure Track where
  driver : Driver
  last : Fin NSTEP → Option Request

/-- What calls the driver.  `.accept` is a move that it accepts. -/
inductive Cause where
  | setup
  | accept (u : Fin NSTEP) (a : Request)
  | refuse
  | start (mask : BitVec 32)
  | interrupt

inductive Drives : Track → Cause → Track → Prop
  | setup {d : Driver} {last : Fin NSTEP → Option Request} {u : Fin NSTEP} {step_pin dir_pin : Nat}
      (hfree : freeUnit d = some u) :
      Drives ⟨d, last⟩ .setup ⟨setupUnit d u step_pin dir_pin, last⟩
  | accept {d d' : Driver} {last : Fin NSTEP → Option Request} {u : Fin NSTEP} {dir : Nat}
      {a : Request} (h : stepperMove d u dir a.steps a.ramp a.ifreq a.efreq = .ok (none, d')) :
      Drives ⟨d, last⟩ (.accept u a) ⟨d', Function.update last u (some a)⟩
  | refuse {d d' : Driver} {last : Fin NSTEP → Option Request} {unit dir : Nat}
      {steps ramp : BitVec 32} {ifreq efreq : ℚ} {err : Err}
      (h : stepperMove d unit dir steps ramp ifreq efreq = .ok (some err, d')) :
      Drives ⟨d, last⟩ .refuse ⟨d', last⟩
  | start {d : Driver} {last : Fin NSTEP → Option Request} {mask : BitVec 32}
      (hunits : ∀ i, NSTEP ≤ i → mask.getLsbD i = false) :
      Drives ⟨d, last⟩ (.start mask) ⟨stepperStart d mask, last⟩
  | interrupt {d : Driver} {last : Fin NSTEP → Option Request} {fuel : Nat} {r : IsrResult}
      (h : stepperIsr fuel d = .ok r) : Drives ⟨d, last⟩ .interrupt ⟨r.driver, last⟩

/-- The runs of the driver after `stepper_init`, with any moves. -/
def drive : Lts Track Cause where
  init s := s = ⟨stepperInit, fun _ => none⟩
  step := Drives

/-- The unit is where its last move has led it. -/
def Known (p : StepperT) : Option Request → Prop
  | none => Unmoved p
  | some a => OnMove a p

structure Driven (s : Track) : Prop where
  start_lt : ∀ i, NSTEP ≤ i → s.driver.start.getLsbD i = false
  known : ∀ u, Known (s.driver.stepper u) (s.last u)

section Runs

variable {s s' : Track} {e : Cause} {p q : StepperT}

theorem Known.round {last : Option Request} (h : Known p last) (hround : UnitRound p q) :
    Known q last := by
  cases last with
  | none => exact Unmoved.round h hround
  | some a => exact OnMove.round h hround

theorem Known.setup {last : Option Request} (h : Known p last) (step_pin dir_pin : Nat) :
    Known { p with clock_pin := step_pin, dir_pin := dir_pin, setup := true } last := by
  cases last with
  | none => exact Unmoved.setup h step_pin dir_pin
  | some a => exact OnMove.setup h step_pin dir_pin

theorem driven_init : Driven ⟨stepperInit, fun _ => none⟩ :=
  ⟨fun _ _ => BitVec.getLsbD_zero, fun _ => ⟨rfl, rfl, rfl, rfl, ⟨le_refl _, zero_lt_one,
    le_refl _, zero_lt_one⟩⟩⟩

theorem Known.counted {last : Option Request} (h : Known p last) : Counted p := by
  cases last with
  | none => exact Unmoved.counted h
  | some a => exact OnMove.counted h

/-- What is known of a unit stays when it is exchanged for one that is known. -/
theorem known_update {stepper : Fin NSTEP → StepperT} {last : Fin NSTEP → Option Request}
    {u : Fin NSTEP} {o : Option Request} (h : ∀ v, Known (stepper v) (last v)) (hq : Known q o)
    (v : Fin NSTEP) :
    Known (Function.update stepper u q v) (Function.update last u o v) := by
  by_cases hv : v = u
  · rw [hv, Function.update_self, Function.update_self]
    exact hq
  · rw [Function.update_of_ne hv, Function.update_of_ne hv]
    exact h v

theorem Driven.step (h : Driven s) (hs : Drives s e s') : Driven s' := by
  obtain ⟨hstart, hknown⟩ := h
  cases hs with
  | @setup d last u step_pin dir_pin hfree =>
    refine ⟨hstart, ?_⟩
    have hset := known_update (u := u) hknown ((hknown u).setup step_pin dir_pin)
    rw [Function.update_eq_self] at hset
    exact hset
  | accept hmove =>
    obtain ⟨hsame, -, q, hq, hon, -⟩ := stepperMove_accepted hmove
    refine ⟨?_, ?_⟩
    · intro i hi
      show BitVec.getLsbD _ i = false
      rw [hsame]
      exact hstart i hi
    · intro v
      dsimp only
      rw [hq]
      exact known_update (o := some _) hknown hon v
  | refuse hmove =>
    rw [stepperMove_refused hmove]
    exact ⟨hstart, hknown⟩
  | start hunits =>
    refine ⟨?_, hknown⟩
    intro i hi
    show BitVec.getLsbD (_ ||| _) i = false
    rw [BitVec.getLsbD_or, hstart i hi, hunits i hi]
    rfl
  | @interrupt d last fuel r hisr =>
    refine ⟨?_, ?_⟩
    · intro i hi
      show r.driver.start.getLsbD i = false
      rw [← Bool.not_eq_true]
      intro hset
      have hold := ((isr_stops hisr).1 i).mp hset
      rw [hstart i hi] at hold
      cases hold.1
    · exact stepperIsr_keeps (P := fun u p => Known p (last u)) (fun _ _ _ hround hp =>
        hp.round hround) hisr hknown

theorem driven_of_reach {ok : Track → Cause → Prop} (h : drive.Reach ok s) : Driven s := by
  apply Lts.Reach.invariant (L := drive) (I := Driven) _ _ h
  · rintro s rfl
    exact driven_init
  · exact fun _ _ _ hdriven _ hs => hdriven.step hs

/-! ## A unit that is started on a move -/

/-- A move with a period is accepted. -/
theorem stepperMove_accepts {d : Driver} {u : Fin NSTEP} {a : Request}
    (hsetup : (d.stepper u).setup = true) (hbase : 0 < a.base)
    (hslow : STEPPER_HZ / a.base < 4294967296) :
    ∃ d', stepperMove d u 0 a.steps a.ramp a.ifreq a.efreq = .ok (none, d') := by
  have hset : ¬ (!(d.stepper u).setup) = true := by
    rw [hsetup]
    decide
  obtain ⟨t, -, heq⟩ := updateFrequency_eq hbase hslow { d.stepper u with
    steps := a.steps, steps_up := a.steps - a.ramp + 1, steps_down := a.ramp
    target_freq := a.efreq, current_freq := a.base, freq_inc := a.inc
    dir := 0, lost := 0, cticks := 0 }
  unfold stepperMove
  rw [if_neg (by decide), if_neg (Nat.not_lt.mpr (Nat.le_of_lt u.isLt)), dif_pos u.isLt]
  dsimp only
  rw [if_neg hset]
  exact ⟨_, bind_eq_ok.mpr ⟨_, heq, rfl⟩⟩

/-- One whose first period does not fit has no conversion. -/
theorem stepperMove_too_slow {d : Driver} {u : Fin NSTEP} {a : Request}
    (hsetup : (d.stepper u).setup = true) (hbase : 0 < a.base)
    (hslow : 4294967296 ≤ STEPPER_HZ / a.base) :
    stepperMove d u 0 a.steps a.ramp a.ifreq a.efreq = .error .undefined := by
  have hset : ¬ (!(d.stepper u).setup) = true := by
    rw [hsetup]
    decide
  have heq := updateFrequency_slow hbase hslow { d.stepper u with
    steps := a.steps, steps_up := a.steps - a.ramp + 1, steps_down := a.ramp
    target_freq := a.efreq, current_freq := a.base, freq_inc := a.inc
    dir := 0, lost := 0, cticks := 0 }
  unfold stepperMove
  rw [if_neg (by decide), if_neg (Nat.not_lt.mpr (Nat.le_of_lt u.isLt)), dif_pos u.isLt]
  dsimp only
  rw [if_neg hset]
  change (updateFrequency _ a.base >>= _) = _
  exact (congrArg (· >>= _) heq).trans rfl

/-- A unit at the start of its move. -/
structure Started (a : Request) (d : Driver) : Prop where
  start : d.start = bit 0
  onMove : OnMove a (d.stepper unit0)
  steps : (d.stepper unit0).steps = a.steps
  freq : (d.stepper unit0).current_freq = a.base
  cticks : (d.stepper unit0).cticks = 0
  lost : (d.stepper unit0).lost = 0

theorem reach_started (ok : Track → Cause → Prop) {a : Request} (hbase : 0 < a.base)
    (hslow : STEPPER_HZ / a.base < 4294967296)
    (hok : ∀ s, ok s .setup ∧ ok s (.accept unit0 a) ∧ ok s (.start (bit 0))) :
    ∃ s, drive.Reach ok s ∧ s.last unit0 = some a ∧ Started a s.driver := by
  have hsetup : drive.Reach ok ⟨oneUnit, fun _ => none⟩ :=
    (Lts.Reach.init rfl).step (hok _).1 (Drives.setup rfl)
  obtain ⟨d', hmove⟩ := stepperMove_accepts oneUnit_setup hbase hslow
  have hmoved := hsetup.step (hok _).2.1 (Drives.accept hmove)
  have hunits : ∀ i, NSTEP ≤ i → (bit 0).getLsbD i = false := by
    intro i hi
    rw [← Bool.not_eq_true, getLsbD_bit]
    rintro ⟨-, rfl⟩
    cases hi
  refine ⟨_, hmoved.step (hok _).2.2 (Drives.start hunits),
    Function.update_self unit0 (some a) fun _ => none, ?_⟩
  obtain ⟨hstart, -, q, hq, hon, hsteps, hfreq, hcticks, hlost⟩ := stepperMove_accepted hmove
  have hunit : (stepperStart d' (bit 0)).stepper unit0 = q := by
    show d'.stepper unit0 = q
    rw [hq, Function.update_self]
  refine ⟨?_, ?_, ?_, ?_, ?_, ?_⟩
  · show d'.start ||| bit 0 = bit 0
    rw [hstart]
    rfl
  all_goals rwa [hunit]

end Runs

end LuaRtos.Stepper
