/-
  LuaRtos.Tft.Touch

  Reading the touch panel: tp_get_data of Lua/modules/screen/tft.c, on touch_get_data of
  tftspi.c.

  The panel is given by what each transfer brings, in the order of the transfers; the command
  byte only goes to the panel.  A reading is unsigned, so that the tests for a negative one are
  never true.
-/

import LuaRtos.CLib.Basic
import Mathlib.Data.List.Perm.Basic

namespace LuaRtos.Tft

open LuaRtos.CLib

/-! ## The code -/

/-- `touch_get_data`, from the second and the third byte received; none where the device is not
    selected. -/
def touchGetData : Option (Byte × Byte) → Nat
  | none => 0
  | some (hi, lo) => (((hi.setWidth 16 <<< 8) ||| lo.setWidth 16) >>> 4).toNat

/-- `vbuf`, `minval` and `maxval`. -/
structure TouchSamples where
  vbuf : List Nat
  minval : Nat
  maxval : Nat
deriving DecidableEq, Repr

/-- The loop for the values from `n` on, with the transfer for the first of them. -/
def sampleLoop (panel : Nat → Option (Byte × Byte)) :
    Nat → Nat → Nat → TouchSamples → TouchSamples
  | 0, _, _, r => r
  | left + 1, n, t, r =>
    let result := touchGetData (panel t)
    sampleLoop panel left (n + 1) (t + 1)
      ⟨r.vbuf.set n result, if result < r.minval then result else r.minval,
        if r.maxval < result then result else r.maxval⟩

/-- `while (i < 10)`, with `10 - i` and the next transfer. -/
def roundLoop (panel : Nat → Option (Byte × Byte)) (samples : Nat) :
    Nat → Nat → TouchSamples → TouchSamples
  | 0, _, r => r
  | left + 1, t, r =>
    let r := sampleLoop panel samples 0 t ⟨r.vbuf, 5000, 0⟩
    if r.maxval - r.minval < 40 then r else roundLoop panel samples left (t + samples) r

/-- The loop that overwrites one value of the first `k`. -/
def removeOne (v : Nat) : Nat → List Nat → List Nat
  | k + 1, x :: vbuf => if x = v then 5000 :: vbuf else x :: removeOne v k vbuf
  | _, vbuf => vbuf

/-- The loop that adds up the first `k`. -/
def sumLoop : Nat → List Nat → Nat → Nat
  | k + 1, x :: vbuf, val => sumLoop k vbuf (if x < 5000 then val + x else val)
  | _, _, val => val

/-- The number of samples. -/
def sampleCount (samples : Int) : Nat :=
  if samples < 3 then 1 else if 18 < samples then 18 else samples.toNat

/-- `tp_get_data`; `vbuf` is what is on the stack.  The transfer 0 is the dummy read. -/
def tpGetData (panel : Nat → Option (Byte × Byte)) (vbuf : List Nat) (samples : Int) : Nat :=
  let samples := sampleCount samples
  let r := roundLoop panel samples 10 1 ⟨vbuf, 5000, 0⟩
  if 2 < samples then
    let vbuf := removeOne r.maxval samples (removeOne r.minval samples r.vbuf)
    sumLoop samples vbuf 0 / (samples - 2)
  else r.vbuf.headD 0

/-! ## The rounds -/

/-- The readings of some transfers. -/
def readings (panel : Nat → Option (Byte × Byte)) (t : Nat) : Nat → List Nat
  | 0 => []
  | k + 1 => touchGetData (panel t) :: readings panel (t + 1) k

/-- The samples of a round. -/
def roundOf (panel : Nat → Option (Byte × Byte)) (samples : Int) (i : Nat) : List Nat :=
  readings panel (1 + i * sampleCount samples) (sampleCount samples)

/-- The spread is below 40. -/
def Calm (l : List Nat) : Prop := ∀ u ∈ l, ∀ v ∈ l, v < u + 40

/-- The round is the first that is calm, or the tenth. -/
structure LastRound (panel : Nat → Option (Byte × Byte)) (samples : Int) (i : Nat) : Prop where
  before : ∀ j < i, ¬ Calm (roundOf panel samples j)
  stop : i < 9 ∧ Calm (roundOf panel samples i) ∨ i = 9

def total (l : List Nat) : Nat := l.foldr (· + ·) 0

/-- The mean of the samples without one that is least and one that is greatest, and between the
    two. -/
def TrimmedMean (l : List Nat) (r : Nat) : Prop :=
  ∃ lo hi rest, l.Perm (lo :: hi :: rest) ∧ (∀ v ∈ l, lo ≤ v ∧ v ≤ hi) ∧ rest ≠ [] ∧
    r = total rest / rest.length ∧ lo ≤ r ∧ r ≤ hi

section Rounds

variable {panel : Nat → Option (Byte × Byte)} {l rest vbuf : List Nat} {u v : Nat}

/-- A reading has 12 bits. -/
theorem touchGetData_lt (x : Option (Byte × Byte)) : touchGetData x < 4096 := by
  cases x with
  | none => decide
  | some x =>
    obtain ⟨hi, lo⟩ := x
    show (((hi.setWidth 16 <<< 8) ||| lo.setWidth 16) >>> 4).toNat < 4096
    have hlt := ((hi.setWidth 16 <<< 8) ||| lo.setWidth 16).isLt
    rw [BitVec.toNat_ushiftRight, Nat.shiftRight_eq_div_pow]
    omega

theorem length_readings (panel : Nat → Option (Byte × Byte)) (t k : Nat) :
    (readings panel t k).length = k := by
  induction k generalizing t with
  | zero => rfl
  | succ k ih => exact congrArg (· + 1) (ih (t + 1))

theorem readings_lt {t k : Nat} : ∀ v ∈ readings panel t k, v < 4096 := by
  induction k generalizing t with
  | zero => exact fun v hv => absurd hv List.not_mem_nil
  | succ k ih => exact List.forall_mem_cons.mpr ⟨touchGetData_lt _, ih⟩

/-- The values of `minval` and `maxval` are among the samples and what was there before. -/
theorem sampleLoop_spec (panel : Nat → Option (Byte × Byte)) (pre w : List Nat)
    (k t lo hi : Nat) (hk : k ≤ w.length) :
    ∃ mn mx, sampleLoop panel k pre.length t ⟨pre ++ w, lo, hi⟩ =
        ⟨pre ++ readings panel t k ++ w.drop k, mn, mx⟩ ∧
      (mn = lo ∨ mn ∈ readings panel t k) ∧ (mx = hi ∨ mx ∈ readings panel t k) ∧
      mn ≤ lo ∧ hi ≤ mx ∧ ∀ v ∈ readings panel t k, mn ≤ v ∧ v ≤ mx := by
  induction k generalizing pre w t lo hi with
  | zero =>
    refine ⟨lo, hi, ?_, .inl rfl, .inl rfl, Nat.le_refl _, Nat.le_refl _, ?_⟩
    · show TouchSamples.mk (pre ++ w) lo hi = ⟨pre ++ [] ++ w, lo, hi⟩
      rw [List.append_nil]
    · exact fun v hv => absurd hv List.not_mem_nil
  | succ k ih =>
    cases w with
    | nil => exact absurd hk (Nat.not_succ_le_zero k)
    | cons x w =>
      obtain ⟨mn, mx, hrun, hmn, hmx, hlo, hhi, hall⟩ := ih (pre ++ [touchGetData (panel t)]) w
        (t + 1) (if touchGetData (panel t) < lo then touchGetData (panel t) else lo)
        (if hi < touchGetData (panel t) then touchGetData (panel t) else hi)
        (Nat.le_of_succ_le_succ hk)
      refine ⟨mn, mx, ?_, ?_, ?_, ?_, ?_, ?_⟩
      · rw [List.length_append, List.append_assoc] at hrun
        rw [sampleLoop, List.set_append_right _ _ (Nat.le_refl _), Nat.sub_self]
        refine hrun.trans ?_
        rw [List.append_assoc pre [_]]
        rfl
      · rcases hmn with hmn | hmn
        · by_cases hlt : touchGetData (panel t) < lo
          · rw [if_pos hlt] at hmn
            rw [hmn]
            exact .inr List.mem_cons_self
          · rw [if_neg hlt] at hmn
            exact .inl hmn
        · exact .inr (List.mem_cons_of_mem _ hmn)
      · rcases hmx with hmx | hmx
        · by_cases hlt : hi < touchGetData (panel t)
          · rw [if_pos hlt] at hmx
            rw [hmx]
            exact .inr List.mem_cons_self
          · rw [if_neg hlt] at hmx
            exact .inl hmx
        · exact .inr (List.mem_cons_of_mem _ hmx)
      · split at hlo
        next => omega
        next => exact hlo
      · split at hhi
        next => omega
        next => exact hhi
      · intro v hv
        rcases List.mem_cons.mp hv with rfl | hv
        · constructor
          · split at hlo
            next => exact hlo
            next => omega
          · split at hhi
            next => exact hhi
            next => omega
        · exact hall v hv

/-- What a round leaves: the samples in front, with the least and the greatest of them. -/
structure Sampled (l : List Nat) (r : TouchSamples) : Prop where
  front : ∃ w, r.vbuf = l ++ w
  min_mem : r.minval ∈ l
  max_mem : r.maxval ∈ l
  bounds : ∀ v ∈ l, r.minval ≤ v ∧ v ≤ r.maxval

theorem sampleLoop_sampled (panel : Nat → Option (Byte × Byte)) {k : Nat} (hpos : 0 < k)
    (hk : k ≤ vbuf.length) (t : Nat) :
    Sampled (readings panel t k) (sampleLoop panel k 0 t ⟨vbuf, 5000, 0⟩) ∧
      (sampleLoop panel k 0 t ⟨vbuf, 5000, 0⟩).vbuf.length = vbuf.length := by
  obtain ⟨mn, mx, hrun, hmn, hmx, -, -, hall⟩ := sampleLoop_spec panel [] vbuf k t 5000 0 hk
  have hfirst : ∃ v, v ∈ readings panel t k := by
    apply List.exists_mem_of_length_pos
    rw [length_readings]
    exact hpos
  obtain ⟨v, hv⟩ := hfirst
  have hlt := readings_lt v hv
  have hbounds := hall v hv
  rw [List.nil_append, List.nil_append, List.length_nil] at hrun
  rw [hrun]
  refine ⟨⟨⟨_, rfl⟩, hmn.resolve_left ?_, ?_, hall⟩, ?_⟩
  · -- 5000 is no reading
    intro hmn
    omega
  · rcases hmx with hmx | hmx
    · have hzero : mx = v := by omega
      show mx ∈ _
      rw [hzero]
      exact hv
    · exact hmx
  · show (readings panel t k ++ vbuf.drop k).length = _
    rw [List.length_append, length_readings, List.length_drop]
    omega

theorem Sampled.calm_iff {r : TouchSamples} (h : Sampled l r) :
    r.maxval - r.minval < 40 ↔ Calm l := by
  have hle := (h.bounds _ h.min_mem).2
  constructor
  · intro hspread u hu v hv
    have hu' := h.bounds u hu
    have hv' := h.bounds v hv
    omega
  · intro hcalm
    have hlt := hcalm _ h.min_mem _ h.max_mem
    omega

/-- The loop ends with the samples of the last round. -/
theorem roundLoop_last (panel : Nat → Option (Byte × Byte)) (samples : Int) (left i : Nat)
    {r : TouchSamples} (hleft : left + i = 9) (hlen : sampleCount samples ≤ r.vbuf.length)
    (hpos : 0 < sampleCount samples) (hbefore : ∀ j < i, ¬ Calm (roundOf panel samples j)) :
    ∃ j, LastRound panel samples j ∧ Sampled (roundOf panel samples j)
      (roundLoop panel (sampleCount samples) (left + 1) (1 + i * sampleCount samples) r) := by
  induction left generalizing i r with
  | zero =>
    obtain ⟨hsampled, -⟩ := sampleLoop_sampled panel hpos hlen
      (1 + i * sampleCount samples)
    refine ⟨i, ⟨hbefore, .inr (by omega)⟩, ?_⟩
    show Sampled _ (if _ then _ else _)
    split
    next => exact hsampled
    next => exact hsampled
  | succ left ih =>
    obtain ⟨hsampled, hsize⟩ := sampleLoop_sampled panel hpos hlen
      (1 + i * sampleCount samples)
    unfold roundLoop
    dsimp only
    by_cases hcalm : Calm (roundOf panel samples i)
    · rw [if_pos (hsampled.calm_iff.mpr hcalm)]
      exact ⟨i, ⟨hbefore, .inl ⟨by omega, hcalm⟩⟩, hsampled⟩
    · have hnext : 1 + i * sampleCount samples + sampleCount samples =
          1 + (i + 1) * sampleCount samples := by
        rw [Nat.add_mul, Nat.one_mul, Nat.add_assoc]
      rw [if_neg (fun hspread => hcalm (hsampled.calm_iff.mp hspread)), hnext]
      apply ih (i + 1) (by omega) (by omega)
      intro j hj
      rcases Nat.lt_succ_iff_lt_or_eq.mp hj with hj | rfl
      · exact hbefore j hj
      · exact hcalm

end Rounds

/-! ## The mean -/

section Mean

variable {l l' w : List Nat} {v lo hi : Nat}

theorem removeOne_append (v : Nat) (l w : List Nat) :
    removeOne v l.length (l ++ w) = removeOne v l.length l ++ w := by
  induction l with
  | nil => cases w <;> rfl
  | cons x l ih =>
    show (if x = v then _ else _) = (if x = v then _ else _) ++ w
    split
    next => rfl
    next => exact congrArg (x :: ·) ih

theorem length_removeOne (v k : Nat) (l : List Nat) : (removeOne v k l).length = l.length := by
  induction l generalizing k with
  | nil => cases k <;> rfl
  | cons x l ih =>
    cases k with
    | zero => rfl
    | succ k =>
      show (if x = v then 5000 :: l else x :: removeOne v k l).length = l.length + 1
      split
      next => rfl
      next => exact congrArg (· + 1) (ih k)

/-- One value is replaced by 5000. -/
theorem removeOne_perm (hv : v ∈ l) : (removeOne v l.length l).Perm (5000 :: l.erase v) := by
  induction l with
  | nil => exact absurd hv List.not_mem_nil
  | cons x l ih =>
    show (if x = v then 5000 :: l else x :: removeOne v l.length l).Perm _
    by_cases hx : x = v
    · rw [if_pos hx, hx, List.erase_cons_head]
    · have hmem : v ∈ l := (List.mem_cons.mp hv).resolve_left (Ne.symm hx)
      rw [if_neg hx, List.erase_cons_tail (by simpa using hx)]
      exact ((ih hmem).cons x).trans (List.Perm.swap 5000 x _)

theorem total_perm (h : l.Perm l') : total l = total l' := by
  induction h with
  | nil => rfl
  | cons x _ ih => exact congrArg (x + ·) ih
  | swap x y l => exact Nat.add_left_comm y x (total l)
  | trans _ _ ih ih' => exact ih.trans ih'

/-- What is 5000 does not count. -/
theorem sumLoop_eq (l w : List Nat) (val : Nat) :
    sumLoop l.length (l ++ w) val = val + total (l.filter (· < 5000)) := by
  induction l generalizing val with
  | nil => cases w <;> rfl
  | cons x l ih =>
    show sumLoop l.length (l ++ w) _ = _
    rw [ih]
    by_cases hx : x < 5000
    · rw [if_pos hx, List.filter_cons, if_pos (decide_eq_true hx), Nat.add_assoc]
      rfl
    · rw [if_neg hx, List.filter_cons, if_neg (by simpa using hx)]

theorem total_bounds (h : ∀ v ∈ l, lo ≤ v ∧ v ≤ hi) :
    l.length * lo ≤ total l ∧ total l ≤ l.length * hi := by
  induction l with
  | nil =>
    rw [List.length_nil, Nat.zero_mul, Nat.zero_mul]
    exact ⟨Nat.le_refl _, Nat.le_refl _⟩
  | cons x l ih =>
    obtain ⟨hx, hl⟩ := List.forall_mem_cons.mp h
    have hl := ih hl
    rw [List.length_cons, Nat.add_mul, Nat.add_mul, Nat.one_mul, Nat.one_mul]
    show _ ≤ x + total l ∧ x + total l ≤ _
    omega

/-- The mean that is computed from the samples of a round. -/
theorem trimmedMean_of_sampled {r : TouchSamples} (h : Sampled l r) (hlt : ∀ v ∈ l, v < 4096)
    (hlen : 3 ≤ l.length) :
    TrimmedMean l (sumLoop l.length
      (removeOne r.maxval l.length (removeOne r.minval l.length r.vbuf)) 0 / (l.length - 2)) := by
  obtain ⟨⟨w, hfront⟩, hmin, hmax, hbounds⟩ := h
  have hsmall := hlt _ hmax
  have hmin5 := hlt _ hmin
  have hmid : (l.erase r.minval).length = l.length - 1 := List.length_erase_of_mem hmin
  -- the greatest value is still there, also where it is the least one
  have hmax' : r.maxval ∈ l.erase r.minval := by
    by_cases heq : r.maxval = r.minval
    · obtain ⟨v, hv⟩ := List.exists_mem_of_length_pos (l := l.erase r.minval) (by omega)
      have hv' := hbounds v (List.mem_of_mem_erase hv)
      have hvmax : v = r.maxval := by omega
      rwa [hvmax] at hv
    · exact (List.mem_erase_of_ne heq).mpr hmax
  have hperm := removeOne_perm hmin
  have hmem : r.maxval ∈ removeOne r.minval l.length l :=
    hperm.mem_iff.mpr (List.mem_cons_of_mem _ hmax')
  have hlen1 := length_removeOne r.minval l.length l
  have hperm2 : (removeOne r.maxval l.length (removeOne r.minval l.length l)).Perm
      (5000 :: 5000 :: (l.erase r.minval).erase r.maxval) := by
    have hone := removeOne_perm hmem
    rw [hlen1] at hone
    refine hone.trans (List.Perm.cons _ ((hperm.erase r.maxval).trans ?_))
    rw [List.erase_cons_tail (by simp; omega)]
  have hrest : ∀ v ∈ (l.erase r.minval).erase r.maxval, v ∈ l :=
    fun v hv => List.mem_of_mem_erase (List.mem_of_mem_erase hv)
  have hcount : ((l.erase r.minval).erase r.maxval).length = l.length - 2 := by
    rw [List.length_erase_of_mem hmax', hmid]
    omega
  have hsum : sumLoop l.length
      (removeOne r.maxval l.length (removeOne r.minval l.length r.vbuf)) 0 =
        total ((l.erase r.minval).erase r.maxval) := by
    have hlen2 := (length_removeOne r.maxval l.length (removeOne r.minval l.length l)).trans hlen1
    have hall : ((l.erase r.minval).erase r.maxval).filter (· < 5000) =
        (l.erase r.minval).erase r.maxval := by
      apply List.filter_eq_self.mpr
      intro v hv
      have hv' := hlt v (hrest v hv)
      exact decide_eq_true (by omega)
    have happ : removeOne r.maxval l.length (removeOne r.minval l.length l ++ w) =
        removeOne r.maxval l.length (removeOne r.minval l.length l) ++ w := by
      have h := removeOne_append r.maxval (removeOne r.minval l.length l) w
      rwa [hlen1] at h
    rw [hfront, removeOne_append, happ]
    have hsumEq := sumLoop_eq (removeOne r.maxval l.length (removeOne r.minval l.length l)) w 0
    rw [hlen2, Nat.zero_add] at hsumEq
    rw [hsumEq, total_perm (hperm2.filter _), List.filter_cons_of_neg (by decide),
      List.filter_cons_of_neg (by decide), hall]
  obtain ⟨hlow, hhigh⟩ := total_bounds fun v hv => hbounds v (hrest v hv)
  rw [hcount] at hlow hhigh
  rw [hsum]
  refine ⟨r.minval, r.maxval, (l.erase r.minval).erase r.maxval, ?_, hbounds, ?_, by rw [hcount],
    ?_, ?_⟩
  · exact (List.perm_cons_erase hmin).trans ((List.perm_cons_erase hmax').cons _)
  · apply List.ne_nil_of_length_pos
    omega
  · exact (Nat.le_div_iff_mul_le (by omega)).mpr (by rwa [Nat.mul_comm])
  · exact Nat.div_le_of_le_mul hhigh

end Mean

/-! ## The reading of the panel -/

section Panel

variable {samples : Int}

theorem sampleCount_small (h : samples < 3) : sampleCount samples = 1 := if_pos h

theorem sampleCount_bounds (samples : Int) :
    0 < sampleCount samples ∧ sampleCount samples ≤ 18 := by
  unfold sampleCount
  split
  next => decide
  next =>
    split
    next => decide
    next => omega

theorem sampleCount_large (h : 3 ≤ samples) : 3 ≤ sampleCount samples := by
  unfold sampleCount
  rw [if_neg (by omega)]
  split
  next => decide
  next => omega

/-- With a count of three or more the result is the trimmed mean of the last round, and with a
    smaller one the only sample, of the first round. -/
theorem tpGetData_mean (panel : Nat → Option (Byte × Byte)) (vbuf : List Nat) (samples : Int)
    (hvbuf : vbuf.length = 18) :
    ∃ i, LastRound panel samples i ∧
      (3 ≤ samples → TrimmedMean (roundOf panel samples i) (tpGetData panel vbuf samples)) ∧
      (samples < 3 → i = 0 ∧ roundOf panel samples i = [tpGetData panel vbuf samples]) := by
  obtain ⟨hpos, hmax⟩ := sampleCount_bounds samples
  obtain ⟨i, hlast, hsampled⟩ := roundLoop_last panel samples 9 0
    (r := ⟨vbuf, 5000, 0⟩) rfl (by dsimp only; omega) hpos
    (fun j hj => absurd hj (Nat.not_lt_zero j))
  have hstart : Sampled (roundOf panel samples i)
      (roundLoop panel (sampleCount samples) 10 1 ⟨vbuf, 5000, 0⟩) := by
    rw [Nat.zero_mul] at hsampled
    exact hsampled
  have hlen : (roundOf panel samples i).length = sampleCount samples := length_readings ..
  refine ⟨i, hlast, ?_, ?_⟩
  · intro hthree
    have hcount := sampleCount_large hthree
    have hmean := trimmedMean_of_sampled hstart readings_lt (by omega)
    rw [hlen] at hmean
    unfold tpGetData
    dsimp only
    rw [if_pos (Nat.lt_of_succ_le hcount)]
    exact hmean
  · intro hsmall
    have hone := sampleCount_small hsmall
    obtain ⟨w, hfront⟩ := hstart.front
    rw [hone] at hlen
    obtain ⟨v, hv⟩ := List.length_eq_one_iff.mp hlen
    have hcalm : Calm (roundOf panel samples 0) := by
      intro u hu v hv
      unfold roundOf at hu hv
      rw [hone] at hu hv
      rw [List.mem_singleton.mp hu, List.mem_singleton.mp hv]
      omega
    refine ⟨?_, ?_⟩
    · by_contra hi
      exact hlast.before 0 (Nat.pos_of_ne_zero hi) hcalm
    · unfold tpGetData
      dsimp only
      rw [if_neg (by omega), hfront, hv]
      rfl

/-- A panel that reads 66 once and then 2. -/
def jumpy (t : Nat) : Option (Byte × Byte) := some (if t = 1 then 0x04 else 0x00, 0x20)

theorem tpGetData_mean_jumpy : (List.replicate 18 0).length = 18 ∧
    ∃ i, LastRound jumpy 4 i ∧
      (3 ≤ (4 : Int) → TrimmedMean (roundOf jumpy 4 i) (tpGetData jumpy (List.replicate 18 0) 4)) ∧
      ((4 : Int) < 3 → i = 0 ∧
        roundOf jumpy 4 i = [tpGetData jumpy (List.replicate 18 0) 4]) :=
  ⟨by decide, tpGetData_mean jumpy _ 4 (by decide)⟩

/-- Two samples asked for: one is taken, and has no mean without its least and its greatest. -/
theorem not_trimmedMean_two : tpGetData jumpy (List.replicate 18 0) 2 = 66 ∧
    ¬ ∃ i, LastRound jumpy 2 i ∧
      TrimmedMean (roundOf jumpy 2 i) (tpGetData jumpy (List.replicate 18 0) 2) := by
  refine ⟨by decide, ?_⟩
  rintro ⟨i, -, lo, hi, rest, hperm, -⟩
  have hlen : (roundOf jumpy 2 i).length = 1 := length_readings ..
  have hlen' := hperm.length_eq
  rw [hlen, List.length_cons, List.length_cons] at hlen'
  omega

end Panel

end LuaRtos.Tft
