/-
  LuaRtos.Lmic.DutyCycleRun

  The duty cycle: in every run, the transmissions in one band are as far apart as the band asks.
-/

import LuaRtos.Lmic.DutyCycle
import Mathlib.Data.List.Chain

namespace LuaRtos.Lmic

open LuaRtos.CLib
open LuaRtos.Lora (opScan opTrack opJoining opTxdata opPoll opRejoin opShutdown opTxrxpend opRndtx
  opNextchnl)

namespace Sched

variable {s s' : Sched}

/-! ## The search for a channel -/

theorem nextChannel_eq {chnl : Nat} (h : chnl < maxChannels) :
    nextChannel chnl = (chnl + 1) % maxChannels := by
  unfold nextChannel maxChannels at *
  split <;> omega

theorem findChannel_some {band n chnl c : Nat} (h : s.findChannel band n chnl = some c) :
    s.usable band c = true := by
  induction n generalizing chnl with
  | zero => cases h
  | succ n ih =>
    rw [findChannel] at h
    split at h
    · rename_i husable
      cases h
      exact husable
    · exact ih h

theorem findChannel_lt {band n chnl c : Nat} (hchnl : chnl < maxChannels)
    (h : s.findChannel band n chnl = some c) : c < maxChannels := by
  induction n generalizing chnl with
  | zero => cases h
  | succ n ih =>
    have hnext : nextChannel chnl < maxChannels := by
      rw [nextChannel_eq hchnl]
      exact Nat.mod_lt _ (by decide)
    rw [findChannel] at h
    split at h
    · cases h
      exact hnext
    · exact ih hnext h

/-- The channels are tried in a circle, from the one behind the last on. -/
theorem findChannel_none {band n chnl : Nat} (hchnl : chnl < maxChannels) (hn : n ≤ maxChannels)
    (h : s.findChannel band n chnl = none) (k : Nat) (hk : k < n) :
    s.usable band ((chnl + 1 + k) % maxChannels) = false := by
  induction n generalizing chnl k with
  | zero => omega
  | succ n ih =>
    rw [findChannel] at h
    rw [nextChannel_eq hchnl] at h
    split at h
    · cases h
    · rename_i hfirst
      have hlt : (chnl + 1) % maxChannels < maxChannels := Nat.mod_lt _ (by decide)
      cases k with
      | zero => exact eq_false_of_ne_true hfirst
      | succ k =>
        have hrest := ih hlt (by omega) h k (by omega)
        have hsame : ((chnl + 1) % maxChannels + 1 + k) % maxChannels =
            (chnl + 1 + (k + 1)) % maxChannels := by
          unfold maxChannels
          omega
        rwa [hsame] at hrest

/-- Where the search finds nothing, no channel of the band can be used. -/
theorem findChannel_none_all {band chnl : Nat} (hchnl : chnl < maxChannels)
    (h : s.findChannel band maxChannels chnl = none) {c : Nat} (hc : c < maxChannels) :
    s.usable band c = false := by
  have hcircle := findChannel_none hchnl (Nat.le_refl _) h
    ((c + maxChannels - (chnl + 1)) % maxChannels) (Nat.mod_lt _ (by decide))
  have hsame : (chnl + 1 + (c + maxChannels - (chnl + 1)) % maxChannels) % maxChannels = c := by
    unfold maxChannels at *
    omega
  rwa [hsame] at hcircle

/-! ## The bands -/

/-- The band is in the map. -/
def InMap (bmap : BitVec 8) (b : Nat) : Prop := bmap &&& 1#8 <<< b ≠ 0

instance (bmap : BitVec 8) (b : Nat) : Decidable (InMap bmap b) :=
  inferInstanceAs (Decidable (_ ≠ _))

/-- The time is that of the band, which is in the map. -/
def OfBand (s : Sched) (bmap : BitVec 8) (r : BitVec 64 × Nat) : Prop :=
  InMap bmap r.2 ∧ r.2 < 4 ∧ r.1 = (s.band r.2).avail

theorem earlier_ofBand {bmap : BitVec 8} {r : BitVec 64 × Nat} {bi : Nat} (hbi : bi < 4)
    (h : s.OfBand bmap r) : s.OfBand bmap (s.earlier bmap r bi) := by
  unfold earlier
  split
  · rename_i hin
    exact ⟨hin.1, hbi, rfl⟩
  · exact h

theorem foldl_earlier_ofBand {bmap : BitVec 8} (bis : List Nat) (hbis : ∀ bi ∈ bis, bi < 4)
    {r : BitVec 64 × Nat} (h : s.OfBand bmap r) : s.OfBand bmap (bis.foldl (s.earlier bmap) r) := by
  induction bis generalizing r with
  | nil => exact h
  | cons bi bis ih =>
    exact ih (fun b hb => hbis b (List.mem_cons_of_mem _ hb))
      (earlier_ofBand (hbis bi List.mem_cons_self) h)

/-- The loop over the bands finds a band of the map, with its time, or leaves the first band. -/
theorem foldl_earlier (s : Sched) (bmap : BitVec 8) (t : BitVec 64) (bis : List Nat)
    (hbis : ∀ bi ∈ bis, bi < 4) :
    s.OfBand bmap (bis.foldl (s.earlier bmap) (t, 0)) ∨
      bis.foldl (s.earlier bmap) (t, 0) = (t, 0) := by
  induction bis with
  | nil => exact .inr rfl
  | cons bi bis ih =>
    have hrest : ∀ b ∈ bis, b < 4 := fun b hb => hbis b (List.mem_cons_of_mem _ hb)
    rw [List.foldl_cons]
    by_cases hin : bmap &&& 1#8 <<< bi ≠ 0 ∧ 0 < t - (s.band bi).avail
    · have hone : s.OfBand bmap (s.earlier bmap (t, 0) bi) := by
        rw [earlier, if_pos hin]
        exact ⟨hin.1, hbis bi List.mem_cons_self, rfl⟩
      exact .inl (foldl_earlier_ofBand bis hrest hone)
    · have hone : s.earlier bmap (t, 0) bi = (t, 0) := if_neg hin
      rw [hone]
      exact ih hrest

theorem bands_ofBand (s : Sched) (bmap : BitVec 8) (t : BitVec 64) :
    s.OfBand bmap ((List.range 4).foldl (s.earlier bmap) (t, 0)) ∨
      ¬ InMap bmap 0 ∧ (List.range 4).foldl (s.earlier bmap) (t, 0) = (t, 0) := by
  have hrange : List.range 4 = [0, 1, 2, 3] := rfl
  by_cases hzero : InMap bmap 0
  · have hfirst : s.OfBand bmap (s.earlier bmap (t, 0) 0) := by
      unfold earlier
      by_cases hlater : 0 < t - (s.band 0).avail
      · rw [if_pos ⟨hzero, hlater⟩]
        exact ⟨hzero, Nat.zero_lt_succ 3, rfl⟩
      · rw [if_neg fun h => hlater h.2]
        refine ⟨hzero, Nat.zero_lt_succ 3, ?_⟩
        show t = (s.band 0).avail
        bv_omega
    rw [hrange, List.foldl_cons]
    exact .inl (foldl_earlier_ofBand _ (by decide) hfirst)
  · obtain hband | hstart := foldl_earlier s bmap t (List.range 4) (by decide)
    · exact .inl hband
    · exact .inr ⟨hzero, hstart⟩

theorem inMap_iff {bmap : BitVec 8} {b : Nat} (hb : b < 8) :
    InMap bmap b ↔ bmap.getLsbD b = true := by
  have hpow : (1#8 <<< b) = BitVec.twoPow 8 b := rfl
  rw [InMap, hpow, BitVec.and_twoPow]
  by_cases hbit : bmap.getLsbD b = true
  · rw [if_pos hbit]
    simp only [hbit, iff_true]
    intro hzero
    have hbits := congrArg (fun x : BitVec 8 => x.getLsbD b) hzero
    simp [hb] at hbits
  · rw [if_neg hbit]
    simp [hbit]

/-- What is left of the map behind a band. -/
theorem inMap_remove {bmap : BitVec 8} {b b' : Nat} (hb : b < 4) (hb' : b' < 4) :
    InMap (bmap &&& ~~~(1#8 <<< b)) b' ↔ InMap bmap b' ∧ b' ≠ b := by
  rw [inMap_iff (by omega), inMap_iff (by omega)]
  simp
  omega

/-- There is a channel for the data rate. -/
def Feasible (s : Sched) : Prop := ∃ c < maxChannels, s.usable (s.bandOf c) c = true

instance (s : Sched) : Decidable s.Feasible := inferInstanceAs (Decidable (∃ c < _, _))

/-- The last channels are channels. -/
def LastOk (s : Sched) : Prop := ∀ b < 4, (s.band b).lastchnl < maxChannels

instance (s : Sched) : Decidable s.LastOk := inferInstanceAs (Decidable (∀ b < _, _))

theorem bandOf_lt (s : Sched) (c : Nat) : s.bandOf c < 4 := by
  have hle : (s.channelFreq.getD c 0 &&& 3).toNat ≤ 3 := by
    rw [BitVec.toNat_and]
    exact Nat.and_le_right
  rw [bandOf]
  omega

theorem usable_bandOf {b c : Nat} (h : s.usable b c = true) : b = s.bandOf c :=
  (of_decide_eq_true h).2.2

/-- `nextTx` finds a channel that can be used, and returns the time from which its band is free. -/
theorem nextTxLoop_spec (hfeasible : s.Feasible) (hlast : s.LastOk) (now t : BitVec 64) (fuel : Nat)
    (bmap : BitVec 8)
    (hdone : ∀ b < 4, ¬ InMap bmap b → ∀ c < maxChannels, s.usable b c = false)
    (h : s.nextTxLoop now fuel bmap = .ok (t, s')) :
    ∃ c < maxChannels, s' = s.choose (s.bandOf c) c ∧ t = (s.band (s.bandOf c)).avail := by
  induction fuel generalizing bmap with
  | zero => cases h
  | succ fuel ih =>
    rw [nextTxLoop] at h
    have hbands := s.bands_ofBand bmap (now + BitVec.ofNat 64 (28800 * ostickSec))
    generalize (List.range 4).foldl (s.earlier bmap)
      (now + BitVec.ofNat 64 (28800 * ostickSec), 0) = r at h hbands
    have hr : r.2 < 4 := by
      obtain hband | ⟨-, rfl⟩ := hbands
      · exact hband.2.1
      · exact Nat.zero_lt_succ 3
    split at h
    · rename_i c hfind
      have husable := findChannel_some hfind
      have hc := findChannel_lt (hlast r.2 hr) hfind
      cases h
      obtain hband | ⟨hzero, rfl⟩ := hbands
      · refine ⟨c, hc, ?_, ?_⟩
        · rw [usable_bandOf husable]
        · rw [← usable_bandOf husable]
          exact hband.2.2
      · exact absurd husable (Bool.eq_false_iff.mp (hdone 0 (by decide) hzero c hc))
    · rename_i hfind
      have hnone : ∀ b < 4, ¬ InMap (bmap &&& ~~~(1#8 <<< r.2)) b →
          ∀ c < maxChannels, s.usable b c = false := by
        intro b hb hout c hc
        by_cases heq : b = r.2
        · rw [heq]
          exact findChannel_none_all (hlast r.2 hr) hfind hc
        · exact hdone b hb (fun hin => hout ((inMap_remove hr hb).mpr ⟨hin, heq⟩)) c hc
      split at h
      · rename_i hempty
        -- no band is left, but a channel can be used
        obtain ⟨c, hc, husable⟩ := hfeasible
        have hout : ¬ InMap (bmap &&& ~~~(1#8 <<< r.2)) (s.bandOf c) := by
          rw [hempty]
          exact fun h => h (BitVec.zero_and)
        exact absurd husable (Bool.eq_false_iff.mp (hnone _ (s.bandOf_lt c) hout c hc))
      · exact ih _ hnone h

theorem nextTx_spec (hfeasible : s.Feasible) (hlast : s.LastOk) {now t : BitVec 64}
    (h : s.nextTx now = .ok (t, s')) :
    ∃ c < maxChannels, s' = s.choose (s.bandOf c) c ∧ t = (s.band (s.bandOf c)).avail := by
  refine nextTxLoop_spec hfeasible hlast now t 5 0x0F ?_ h
  intro b hb hout
  exact absurd (show InMap 0x0F b by revert b; decide) hout

/-! ## Which band -/

/-- No two bands are blocked until the same time, and none until eight hours from now. -/
def Distinct (s : Sched) (now : BitVec 64) : Prop :=
  (∀ b < 4, ∀ b' < 4, (s.band b).avail = (s.band b').avail → b = b') ∧
    ∀ b < 4, (s.band b).avail ≠ now + BitVec.ofNat 64 (28800 * ostickSec)

instance (s : Sched) (now : BitVec 64) : Decidable (s.Distinct now) :=
  inferInstanceAs (Decidable (_ ∧ _))

theorem earlier_of_inMap {bmap : BitVec 8} {r : BitVec 64 × Nat} {bi : Nat} (hin : InMap bmap bi)
    (hne : (s.band bi).avail ≠ r.1) : s.earlier bmap r bi = ((s.band bi).avail, bi) := by
  refine if_pos ⟨hin, ?_⟩
  bv_omega

theorem earlier_of_not_inMap {bmap : BitVec 8} {r : BitVec 64 × Nat} {bi : Nat}
    (hout : ¬ InMap bmap bi) : s.earlier bmap r bi = r :=
  if_neg fun h => hout h.1

/-- The bands up to one, as the map. -/
def upTo (b : Nat) : BitVec 8 := BitVec.ofNat 8 (2 ^ (b + 1) - 1)

/-- The last band of the map is taken, whatever the times are: the difference of two times is not
    negative. -/
theorem foldl_earlier_upTo {now : BitVec 64} (hdistinct : s.Distinct now) {b : Nat} (hb : b < 4) :
    (List.range 4).foldl (s.earlier (upTo b)) (now + BitVec.ofNat 64 (28800 * ostickSec), 0) =
      ((s.band b).avail, b) := by
  obtain ⟨hne, hstart⟩ := hdistinct
  have hstep (bi : Nat) (hbi : bi < 3) (hin : InMap (upTo b) (bi + 1)) :
      s.earlier (upTo b) ((s.band bi).avail, bi) (bi + 1) = ((s.band (bi + 1)).avail, bi + 1) := by
    refine earlier_of_inMap hin fun heq => ?_
    have := hne (bi + 1) (by omega) bi (by omega) heq
    omega
  have hin (b' : Nat) (hb' : b' < 4) : InMap (upTo b) b' ↔ b' ≤ b := by
    interval_cases b <;> interval_cases b' <;> decide
  have hrange : List.range 4 = [0, 1, 2, 3] := rfl
  generalize now + BitVec.ofNat 64 (28800 * ostickSec) = t at hstart
  have hfirst : s.earlier (upTo b) (t, 0) 0 = ((s.band 0).avail, 0) :=
    earlier_of_inMap ((hin 0 (by decide)).mpr (Nat.zero_le b)) (hstart 0 (by decide))
  have hstay (bi : Nat) (hbi : bi < 4) (r : BitVec 64 × Nat) (hout : b < bi) :
      s.earlier (upTo b) r bi = r :=
    earlier_of_not_inMap fun h => Nat.not_lt.mpr ((hin bi hbi).mp h) hout
  rw [hrange, List.foldl_cons, hfirst, List.foldl_cons, List.foldl_cons, List.foldl_cons,
    List.foldl_nil]
  interval_cases b
  · rw [hstay 1 (by decide) _ (by decide), hstay 2 (by decide) _ (by decide),
      hstay 3 (by decide) _ (by decide)]
  · rw [hstep 0 (by decide) (by decide), hstay 2 (by decide) _ (by decide),
      hstay 3 (by decide) _ (by decide)]
  · rw [hstep 0 (by decide) (by decide), hstep 1 (by decide) (by decide),
      hstay 3 (by decide) _ (by decide)]
  · rw [hstep 0 (by decide) (by decide), hstep 1 (by decide) (by decide),
      hstep 2 (by decide) (by decide)]

/-- The band has a channel that can be used. -/
def Offers (s : Sched) (b : Nat) : Prop := ∃ c < maxChannels, s.usable b c = true

theorem upTo_succ {b : Nat} (hb : b < 3) :
    upTo (b + 1) &&& ~~~(1#8 <<< (b + 1)) = upTo b ∧ upTo b ≠ 0 := by
  interval_cases b <;> decide

theorem nextTxLoop_highest (hlast : s.LastOk) {now : BitVec 64} (hdistinct : s.Distinct now)
    (hoffers : ∃ b, s.Offers b) (fuel b : Nat) (hb : b < 4) (hfuel : b < fuel)
    (hhigh : ∀ b', s.Offers b' → b' ≤ b) :
    ∃ i c, s.usable i c = true ∧ (∀ b', s.Offers b' → b' ≤ i) ∧
      s.nextTxLoop now fuel (upTo b) = .ok ((s.band i).avail, s.choose i c) := by
  induction fuel generalizing b with
  | zero => omega
  | succ fuel ih =>
    rw [nextTxLoop, foldl_earlier_upTo hdistinct hb]
    cases hfind : s.findChannel b maxChannels (s.band b).lastchnl with
    | some c => exact ⟨b, c, findChannel_some hfind, hhigh, rfl⟩
    | none =>
      have hlower (b' : Nat) (hb' : s.Offers b') : b' < b := by
        refine Nat.lt_of_le_of_ne (hhigh b' hb') ?_
        rintro rfl
        obtain ⟨c, hc, husable⟩ := hb'
        exact Bool.eq_false_iff.mp (findChannel_none_all (hlast _ hb) hfind hc) husable
      obtain ⟨b₀, hb₀⟩ := hoffers
      obtain ⟨b, rfl⟩ : ∃ n, b = n + 1 := ⟨b - 1, by have := hlower b₀ hb₀; omega⟩
      obtain ⟨hmap, hne⟩ := upTo_succ (show b < 3 by omega)
      simp only [hmap, if_neg hne]
      exact ih b (by omega) (by omega) fun b' hb' => Nat.lt_succ_iff.mp (hlower b' hb')

/-! ## The engine -/

theorem band_set {b : Nat} (hbands : s.bands.length = 4) (hb : b < 4) (x : Band) (i : Nat) :
    (s.bands.set b x).getD i ⟨0, 0, 0⟩ = if i = b then x else s.band i := by
  rw [List.getD_eq_getElem?_getD, List.getElem?_set]
  by_cases heq : b = i
  · rw [if_pos heq, if_pos (by omega), if_pos heq.symm]
    rfl
  · rw [if_neg heq, if_neg (Ne.symm heq), band, List.getD_eq_getElem?_getD]

theorem and_not_nextchnl (opmode : BitVec 16) :
    (opmode &&& ~~~opNextchnl) &&& opNextchnl = 0 := by
  have hnone : ~~~opNextchnl &&& opNextchnl = 0#16 := by decide
  rw [BitVec.and_assoc, hnone, BitVec.and_zero]
  rfl

theorem or_nextchnl (opmode : BitVec 16) : (opmode ||| opNextchnl) &&& opNextchnl ≠ 0 := by
  intro hzero
  have hbit := congrArg (fun x : BitVec 16 => x.getLsbD 11) hzero
  simp [opNextchnl] at hbit

theorem or_rndtx (opmode : BitVec 16) :
    (opmode ||| opRndtx) &&& opNextchnl = opmode &&& opNextchnl := by
  have hnone : opNextchnl &&& opRndtx = 0#16 := by decide
  rw [BitVec.and_comm, BitVec.and_or_distrib_left, hnone, BitVec.or_zero, BitVec.and_comm]

/-- A channel that is chosen for later is not sent on before its band is free. -/
def Waits (s : Sched) : Prop :=
  s.opmode &&& opNextchnl = 0 → (s.band (s.bandOf s.txChnl)).avail ≤ s.txend

instance (s : Sched) : Decidable s.Waits := inferInstanceAs (Decidable (_ → _))

/-- The same bands, blocked for as long. -/
def SameBands (s s' : Sched) : Prop :=
  s'.bands.length = 4 ∧ s'.LastOk ∧ ∀ b, (s'.band b).avail = (s.band b).avail

theorem sameBands_choose (hbands : s.bands.length = 4) (hlast : s.LastOk) {b c : Nat} (hb : b < 4)
    (hc : c < maxChannels) : s.SameBands (s.choose b c) := by
  have hset := band_set hbands hb { s.band b with lastchnl := c }
  refine ⟨(List.length_set ..).trans hbands, ?_, ?_⟩
  · intro i hi
    show ((s.bands.set b _).getD i ⟨0, 0, 0⟩).lastchnl < maxChannels
    rw [hset]
    split
    · exact hc
    · exact hlast i hi
  · intro i
    show ((s.bands.set b _).getD i ⟨0, 0, 0⟩).avail = _
    rw [hset]
    split
    · rename_i heq
      rw [heq]
    · rfl

/-- Behind `pendingTx` a channel is chosen, whose band is free at the time that is returned. -/
theorem pendingTx_spec (hbands : s.bands.length = 4) (hlast : s.LastOk) (hwaits : s.Waits)
    (hfeasible : s.Feasible) {now t : BitVec 64} (h : s.pendingTx now = .ok (t, s')) :
    s.SameBands s' ∧ s'.opmode &&& opNextchnl = 0 ∧ s'.txend = t ∧ s'.Waits := by
  unfold pendingTx at h
  split at h
  · obtain ⟨⟨t₁, s₁⟩, hnext, h⟩ := bind_eq_ok.mp h
    cases h
    obtain ⟨c, hc, rfl, rfl⟩ := nextTx_spec hfeasible hlast hnext
    have hsame := sameBands_choose hbands hlast (s.bandOf_lt c) hc
    refine ⟨hsame, and_not_nextchnl _, rfl, fun _ => ?_⟩
    show ((s.choose (s.bandOf c) c).band (s.bandOf c)).avail ≤ (s.band (s.bandOf c)).avail
    rw [hsame.2.2]
    exact Nat.le_refl _
  · rename_i hclear
    cases h
    have hzero : s.opmode &&& opNextchnl = 0 := not_not.mp hclear
    exact ⟨⟨hbands, hlast, fun _ => rfl⟩, hzero, rfl, hwaits⟩

theorem le_dutyTime (s : Sched) (txbeg : BitVec 64) : txbeg ≤ s.dutyTime txbeg := by
  unfold dutyTime
  split
  · rename_i hlater
    exact Nat.le_of_lt hlater.2
  · exact Nat.le_refl _

/-- What `engineUpdate` does to the bands. -/
theorem engineUpdate_cases (hbands : s.bands.length = 4) (hlast : s.LastOk) (hwaits : s.Waits)
    (hfeasible : s.Feasible) {now rnd : BitVec 64} {txdr dlen : Byte} {tx : Option Tx}
    (h : s.engineUpdate now rnd txdr dlen = .ok (s', tx)) :
    tx = none ∧ s.SameBands s' ∧ s'.Waits ∨
      ∃ s₁, s.SameBands s₁ ∧ (s₁.band (s₁.bandOf s₁.txChnl)).avail < now + rampup ∧
        (s', tx) = ((s₁.updateTx now).1, some (s₁.updateTx now).2) ∧
        s₁.opmode &&& opNextchnl ≠ 0 := by
  have hself : s.SameBands s := ⟨hbands, hlast, fun _ => rfl⟩
  unfold engineUpdate at h
  split at h
  · cases h
    exact .inl ⟨rfl, hself, hwaits⟩
  split at h
  · cases h
  split at h
  · cases h
    exact .inl ⟨rfl, hself, hwaits⟩
  obtain ⟨⟨t, s₁⟩, hpending, h⟩ := bind_eq_ok.mp h
  obtain ⟨hsame, hclear, htxend, hwaits₁⟩ :=
    pendingTx_spec hbands hlast hwaits hfeasible hpending
  dsimp only at h
  split at h
  · cases h
    refine .inl ⟨rfl, ?_, ?_⟩
    · unfold txDelay
      dsimp only
      split <;> exact hsame
    · unfold txDelay
      dsimp only
      split
      · intro _
        exact hwaits₁ hclear
      · exact hwaits₁
  · split at h
    · rename_i hready
      obtain ⟨rps, -, h⟩ := bind_eq_ok.mp h
      cases h
      refine .inr ⟨_, ?_, ?_, rfl, or_nextchnl _⟩
      · exact hsame
      have hfree := hwaits₁ hclear
      rw [htxend] at hfree
      exact Nat.lt_of_le_of_lt (Nat.le_trans hfree (s₁.le_dutyTime t)) hready
    · cases h
      exact .inl ⟨rfl, hsame, hwaits₁⟩

end Sched

/-! ## The time on air -/

theorem symbols_le {bits : Int} {q cr : Nat} (hbits : bits ≤ 2084) (hq : q ≤ 52) (hcr : cr ≤ 3) :
    symbols bits q cr ≤ 17088 := by
  unfold symbols
  split
  · have hdiv : (bits.toNat + q - 1) / q ≤ 2135 := Nat.le_trans (Nat.div_le_self _ _) (by omega)
    have hmul := Nat.mul_le_mul hdiv (show cr + 5 ≤ 8 by omega)
    omega
  · decide

theorem calcAirTime_lt (rps : BitVec 16) (plen : Byte) : (calcAirTime rps plen).toNat < 2 ^ 37 := by
  have hplen := plen.isLt
  have hcr : (rps >>> 5 &&& 3).toNat ≤ 3 := by
    rw [BitVec.toNat_and]
    exact Nat.and_le_right
  have hmod (x : Nat) (hx : x < 2 ^ 37) : (BitVec.ofNat 64 x).toNat < 2 ^ 37 :=
    Nat.lt_of_le_of_lt (by rw [BitVec.toNat_ofNat]; exact Nat.mod_le _ _) hx
  unfold calcAirTime
  dsimp only
  split
  · apply hmod
    simp only [ostickSec]
    omega
  · apply hmod
    refine Nat.lt_of_le_of_lt (Nat.div_le_self _ _) ?_
    have hsf : (rps &&& 7).toNat ≤ 7 := by
      rw [BitVec.toNat_and]
      exact Nat.and_le_right
    generalize (rps &&& 7).toNat = sf at hsf
    have hsyms := @symbols_le (8 * plen.toNat - (4 * (sf + 6) : Nat) + 28 +
        (if rps >>> 7 &&& 1 ≠ 0 then 0 else 16) - (if rps >>> 8 ≠ 0 then 20 else 0))
      (4 * (sf + 6) - if 5 ≤ sf then 8 else 0) _ (by split <;> split <;> omega) (by omega) hcr
    generalize symbols _ _ _ = syms at hsyms ⊢
    have hshift : 2 ^ min (sf + 1 - (rps >>> 3 &&& 3).toNat) 4 ≤ 2 ^ 4 :=
      Nat.pow_le_pow_right (by decide) (Nat.min_le_right _ _)
    have hquarters := Nat.mul_le_mul (show 4 * syms + 49 ≤ 68401 by omega) hshift
    have hdiv : 15625 >>> (sf + 1 - (rps >>> 3 &&& 3).toNat - 4) ≤ 15625 := Nat.shiftRight_le _ _
    rw [Nat.shiftLeft_eq, ostickSec]
    omega

/-! ## Runs -/

/-- How long the band is blocked. -/
def Tx.blocked (x : Tx) : Nat := x.airtime.toNat * x.txcap.toNat

/-- The time from which the band is free again. -/
def Tx.ends (x : Tx) : Nat := x.beg.toNat + x.blocked

/-- What happens: LMIC decides what to do next, or the other code works on its variables. -/
inductive SchedAct where
  | update (now rnd : BitVec 64) (txdr dlen : Byte)
  | work (f : Sched → Sched)

/-- LMIC, and the transmissions so far, the latest one first. -/
abbrev SchedState := Sched × List Tx

def schedStep (p : SchedState) : SchedAct → Option SchedState
  | .update now rnd txdr dlen =>
    (p.1.engineUpdate now rnd txdr dlen).toOption.map fun r => (r.1, r.2.toList ++ p.2)
  | .work f => some (f p.1, p.2)

/-- The clock is not near its end, and there is a channel for the data rate; the other code leaves
    the bands, and lets LMIC search a channel again where the one it has chosen is not free. -/
def Regular (p : SchedState) : SchedAct → Prop
  | .update now _ _ _ => now.toNat < 2 ^ 63 ∧ p.1.Feasible
  | .work f => (f p.1).bands = p.1.bands ∧ (f p.1).Waits

instance (p : SchedState) : (a : SchedAct) → Decidable (Regular p a)
  | .update _ _ _ _ => inferInstanceAs (Decidable (_ ∧ _))
  | .work _ => inferInstanceAs (Decidable (_ ∧ _))

def schedLts (s : Sched) : Lts SchedState SchedAct := .ofStep (s, []) schedStep

/-- The transmissions in a band. -/
def inBand (log : List Tx) (b : Nat) : List Tx := log.filter fun x => x.band = b

/-- A transmission begins behind the end of the one before, but for the time that the radio needs
    to ramp up. -/
def Behind (new old : Tx) : Prop := old.ends < new.beg.toNat + 100

/-- What holds between the steps. -/
structure Spaced (p : SchedState) : Prop where
  bands : p.1.bands.length = 4
  last : p.1.LastOk
  waits : p.1.Waits
  chain : ∀ b, (inBand p.2 b).IsChain Behind
  latest : ∀ b, ∀ x ∈ (inBand p.2 b).head?, (p.1.band b).avail.toNat = x.ends

section Runs

variable {s : Sched} {p p' : SchedState}

theorem Spaced.sameBands (h : Spaced p) {s' : Sched} (hsame : p.1.SameBands s')
    (hwaits : s'.Waits) : Spaced (s', p.2) where
  bands := hsame.1
  last := hsame.2.1
  waits := hwaits
  chain := h.chain
  latest := by
    intro b x hx
    show (s'.band b).avail.toNat = x.ends
    rw [hsame.2.2]
    exact h.latest b x hx

/-- A transmission in a band that is free. -/
theorem Spaced.send (h : Spaced p) {s₁ : Sched} (hsame : p.1.SameBands s₁) {now : BitVec 64}
    (hnow : now.toNat < 2 ^ 63) (hfree : (s₁.band (s₁.bandOf s₁.txChnl)).avail < now + rampup)
    (hnext : s₁.opmode &&& opNextchnl ≠ 0) :
    Spaced ((s₁.updateTx now).1, (s₁.updateTx now).2 :: p.2) := by
  have hb := s₁.bandOf_lt s₁.txChnl
  have hset := Sched.band_set hsame.1 hb { s₁.band (s₁.bandOf s₁.txChnl) with
    avail := now + calcAirTime s₁.rps s₁.dataLen *
      (s₁.band (s₁.bandOf s₁.txChnl)).txcap.setWidth 64 }
  have hband (i : Nat) : (s₁.updateTx now).1.band i = _ := hset i
  have htx : (s₁.updateTx now).2.band = s₁.bandOf s₁.txChnl := rfl
  have hbeg : (s₁.updateTx now).2.beg = now := rfl
  have hends : (s₁.updateTx now).2.ends = now.toNat +
      (calcAirTime s₁.rps s₁.dataLen).toNat * (s₁.band (s₁.bandOf s₁.txChnl)).txcap.toNat := rfl
  generalize (s₁.updateTx now).2 = x at htx hbeg hends
  refine ⟨(List.length_set ..).trans hsame.1, ?_, fun hclear => absurd hclear hnext, ?_, ?_⟩
  · intro i hi
    rw [hband]
    split
    · exact hsame.2.1 _ hb
    · exact hsame.2.1 i hi
  · intro b
    by_cases heq : x.band = b
    · have hcons : inBand (x :: p.2) b = x :: inBand p.2 b :=
        List.filter_cons_of_pos (decide_eq_true heq)
      rw [hcons]
      refine List.isChain_cons.mpr ⟨fun y hy => ?_, h.chain b⟩
      have hlatest := h.latest b y hy
      have hfree' : (p.1.band b).avail < now + rampup := by
        rw [← hsame.2.2, ← heq, htx]
        exact hfree
      rw [BitVec.lt_def, BitVec.toNat_add, hlatest] at hfree'
      have hrampup : rampup.toNat = 100 := rfl
      show y.ends < x.beg.toNat + 100
      rw [hbeg]
      omega
    · have hcons : inBand (x :: p.2) b = inBand p.2 b :=
        List.filter_cons_of_neg (by simpa using heq)
      rw [hcons]
      exact h.chain b
  · intro b y hy
    show ((s₁.updateTx now).1.band b).avail.toNat = y.ends
    rw [hband]
    by_cases heq : x.band = b
    · have hcons : inBand (x :: p.2) b = x :: inBand p.2 b :=
        List.filter_cons_of_pos (decide_eq_true heq)
      have hy' : y ∈ (inBand (x :: p.2) b).head? := hy
      rw [hcons] at hy'
      obtain rfl : x = y := Option.some.inj hy'
      rw [if_pos (heq.symm.trans htx), hends]
      -- the time on air is too short for a wrap
      have hair := calcAirTime_lt s₁.rps s₁.dataLen
      have hcap := (s₁.band (s₁.bandOf s₁.txChnl)).txcap.isLt
      have hmul := Nat.mul_le_mul (Nat.le_of_lt hair) (Nat.le_of_lt hcap)
      show (now + calcAirTime s₁.rps s₁.dataLen * BitVec.setWidth 64 _).toNat = _
      rw [BitVec.toNat_add, BitVec.toNat_mul, BitVec.toNat_setWidth,
        Nat.mod_eq_of_lt (show (s₁.band (s₁.bandOf s₁.txChnl)).txcap.toNat < 2 ^ 64 by omega)]
      rw [Nat.mod_eq_of_lt (show (calcAirTime s₁.rps s₁.dataLen).toNat *
        (s₁.band (s₁.bandOf s₁.txChnl)).txcap.toNat < 2 ^ 64 by omega), Nat.mod_eq_of_lt (by omega)]
    · have hcons : inBand (x :: p.2) b = inBand p.2 b :=
        List.filter_cons_of_neg (by simpa using heq)
      have hy' : y ∈ (inBand (x :: p.2) b).head? := hy
      rw [hcons] at hy'
      rw [if_neg fun h => heq (htx.trans h.symm), hsame.2.2]
      exact h.latest b y hy'

theorem Spaced.step (h : Spaced p) {a : SchedAct} (hok : Regular p a)
    (hstep : schedStep p a = some p') : Spaced p' := by
  cases a with
  | update now rnd txdr dlen =>
    obtain ⟨hnow, hfeasible⟩ := hok
    obtain ⟨⟨s', tx⟩, hrun, rfl⟩ := toOption_map_eq_some.mp hstep
    obtain ⟨rfl, hsame, hwaits⟩ | ⟨s₁, hsame, hfree, heq, hnext⟩ :=
      Sched.engineUpdate_cases h.bands h.last h.waits hfeasible hrun
    · exact h.sameBands hsame hwaits
    · cases heq
      exact h.send hsame hnow hfree hnext
  | work f =>
    obtain ⟨hbands, hwaits⟩ := hok
    cases hstep
    have hband (b : Nat) : (f p.1).band b = p.1.band b := by
      rw [Sched.band, hbands, Sched.band]
    exact h.sameBands ⟨by rw [hbands]; exact h.bands,
      fun b hb => by rw [hband]; exact h.last b hb, fun b => by rw [hband]⟩ hwaits

theorem sched_spaced (hbands : s.bands.length = 4) (hlast : s.LastOk) (hwaits : s.Waits)
    (h : (schedLts s).Reach Regular p) : Spaced p := by
  refine h.invariant ?_ ?_
  · rintro _ rfl
    exact ⟨hbands, hlast, hwaits, fun _ => List.isChain_nil, nofun⟩
  · intro p a p' hp hok hstep
    exact hp.step hok hstep

end Runs
/-- How long the transmissions have blocked their band. -/
def totalBlocked : List Tx → Nat
  | [] => 0
  | x :: log => x.blocked + totalBlocked log

/-- From the first transmission to the last one there is room for the times in between. -/
theorem totalBlocked_le {x first : Tx} {log : List Tx} (h : (x :: log).IsChain Behind)
    (hfirst : (x :: log).getLast? = some first) :
    first.beg.toNat + totalBlocked log ≤ x.beg.toNat + 100 * log.length := by
  induction log generalizing x with
  | nil =>
    obtain rfl : x = first := Option.some.inj hfirst
    exact Nat.le_refl _
  | cons y log ih =>
    obtain ⟨hbehind, hrest⟩ := List.isChain_cons_cons.mp h
    have hle := ih hrest (by rwa [List.getLast?_cons_cons] at hfirst)
    have hends : y.beg.toNat + y.blocked < x.beg.toNat + 100 := hbehind
    rw [totalBlocked, List.length_cons]
    omega

/-- Joined, with the default channels and something to send. -/
def schedJoined : Sched where
  bands := [⟨1000, 3, 0⟩, ⟨100, 5, 0⟩, ⟨10, 7, 0⟩, ⟨0, 0, 0⟩]
  channelFreq := [868100001, 868300001, 868500001]
  channelDrMap := [0x3F, 0x3F, 0x3F]
  channelMap := 0x07
  datarate := 5
  errcr := 0
  txChnl := 0
  txend := 0
  opmode := opTxdata ||| opNextchnl
  globalDutyRate := 0
  globalDutyAvail := 0
  bcnRxtime := 0
  rps := 0
  dataLen := 0

/-- There is something to send again. -/
def sendAgain (s : Sched) : Sched := { s with opmode := opTxdata ||| opNextchnl }

/-- Where no two times are the same, `nextTx` does find a channel if there is one, and it is always
    in the last band that has one: it is sent there, however long that band is blocked. -/
theorem nextTx_highest {s : Sched} {now : BitVec 64} (hlast : s.LastOk) (hdistinct : s.Distinct now)
    (hoffers : ∃ b, s.Offers b) :
    ∃ b c, s.usable b c = true ∧ (∀ b', s.Offers b' → b' ≤ b) ∧
      s.nextTx now = .ok ((s.band b).avail, s.choose b c) := by
  have hmap : (0x0F : BitVec 8) = Sched.upTo 3 := by decide
  rw [Sched.nextTx, hmap]
  refine Sched.nextTxLoop_highest hlast hdistinct hoffers 5 3 (by decide) (by decide) ?_
  rintro b ⟨c, -, husable⟩
  rw [Sched.usable_bandOf husable]
  exact Nat.le_of_lt_succ (s.bandOf_lt c)

/-- Channels in the first two bands: the first one is free, the second one is not for an hour. -/
def schedBlocked : Sched :=
  { schedJoined with
    bands := [⟨1000, 3, 5⟩, ⟨100, 5, 180001000⟩, ⟨10, 7, 6⟩, ⟨0, 0, 7⟩]
    channelFreq := [868850000, 868300001, 868500001] }

theorem nextTx_highest_blocked : schedBlocked.Offers 0 ∧ (schedBlocked.band 0).avail = 5 ∧
    ∃ s', schedBlocked.nextTx 1000 = .ok (180001000, s') := by
  have hfirst : schedBlocked.Offers 0 := ⟨0, by decide, rfl⟩
  obtain ⟨b, c, husable, hhigh, hnext⟩ :=
    @nextTx_highest schedBlocked 1000 (by decide) (by decide) ⟨0, hfirst⟩
  have hlow : 1 ≤ b := hhigh 1 ⟨1, by decide, rfl⟩
  have hband : schedBlocked.bandOf c ≤ 1 := by
    rcases c with _ | _ | _ | c
    · decide
    · decide
    · decide
    · simp [Sched.bandOf, schedBlocked]
  obtain rfl : b = 1 := by
    have heq := Sched.usable_bandOf husable
    omega
  exact ⟨hfirst, rfl, _, hnext⟩

end LuaRtos.Lmic
