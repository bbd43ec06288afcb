/-
  LuaRtos.Bits.Walk

  Codes of `n` bits as the leaves of a binary tree, and the walk that visits
  the leaves of a set of codes in order, with the last code visited and one
  index as its only memory.

  At a fork the walk goes the way of the last code as long as it is above the
  index, goes to 1 at the index, and to 0 below it; the next index is the
  lowest fork at which it went to 0.  `Walked.next` says that this leads to the
  next code in order, and `LastZero.last` that the walk is over at index 0.
-/

import Mathlib.Data.List.Nodup
import Mathlib.Data.List.Perm.Subperm

namespace LuaRtos.Bits

section Order

variable {α : Type} (bit : α → Nat → Bool)

/-- The codes have the same first `i` bits. -/
def Agree (s c : α) (i : Nat) : Prop := ∀ j < i, bit s j = bit c j

/-- The first bit of the `n` in which the codes differ is 0 in the one, 1 in the other. -/
def Before (n : Nat) (s c : α) : Prop :=
  ∃ i < n, Agree bit s c i ∧ bit s i = false ∧ bit c i = true

/-- Codes of the set with the first `i` bits of `c` go on with 0 and with 1. -/
def Fork (codes : List α) (c : α) (i : Nat) : Prop :=
  (∃ s ∈ codes, Agree bit s c i ∧ bit s i = false) ∧
    ∃ s ∈ codes, Agree bit s c i ∧ bit s i = true

/-- The last fork among the first `i` bits at which `c` has 0 is before bit `z`; there is
    none if `z` is 0. -/
structure LastZero (codes : List α) (c : α) (i z : Nat) : Prop where
  fork : ∀ l, z = l + 1 → l < i ∧ Fork bit codes c l ∧ bit c l = false
  after : ∀ j, z ≤ j → j < i → Fork bit codes c j → bit c j = true

/-- At every fork of the first `i` bits, `c` goes the way that the last code `r` and the index
    `last` say. -/
def Walked (codes : List α) (r : α) (last : Nat) (c : α) (i : Nat) : Prop :=
  ∀ j < i, Fork bit codes c j →
    bit c j = if j + 1 < last then bit r j else decide (j + 1 = last)

end Order

section Walk

variable {α : Type} {bit : α → Nat → Bool} {codes : List α} {r s c : α} {n i last z : Nat}

theorem Agree.refl (c : α) (i : Nat) : Agree bit c c i := fun _ _ => rfl

theorem Agree.symm (h : Agree bit s c i) : Agree bit c s i := fun j hj => (h j hj).symm

theorem Agree.trans (h : Agree bit r s i) (h' : Agree bit s c i) : Agree bit r c i :=
  fun j hj => (h j hj).trans (h' j hj)

theorem Agree.mono {k : Nat} (h : Agree bit s c i) (hk : k ≤ i) : Agree bit s c k :=
  fun j hj => h j (by omega)

theorem Agree.succ (h : Agree bit s c i) (hi : bit s i = bit c i) : Agree bit s c (i + 1) := by
  intro j hj
  obtain hlt | rfl := Nat.lt_succ_iff_lt_or_eq.mp hj
  · exact h j hlt
  · exact hi

/-- Codes agree, or there is a first bit in which they differ. -/
theorem agree_or_differ (bit : α → Nat → Bool) (s c : α) (n : Nat) :
    Agree bit s c n ∨ ∃ i < n, Agree bit s c i ∧ bit s i ≠ bit c i := by
  induction n with
  | zero => exact .inl fun j hj => absurd hj (Nat.not_lt_zero j)
  | succ n ih =>
    obtain hagree | ⟨i, hi, hdiffer⟩ := ih
    · by_cases hn : bit s n = bit c n
      · exact .inl (hagree.succ hn)
      · exact .inr ⟨n, by omega, hagree, hn⟩
    · exact .inr ⟨i, by omega, hdiffer⟩

theorem not_before_self (bit : α → Nat → Bool) (n : Nat) (c : α) : ¬ Before bit n c c := by
  rintro ⟨i, -, -, hzero, hone⟩
  rw [hzero] at hone
  cases hone

theorem Before.trans (h : Before bit n r s) (h' : Before bit n s c) : Before bit n r c := by
  obtain ⟨i, hi, hagree, hzero, hone⟩ := h
  obtain ⟨k, hk, hagree', hzero', hone'⟩ := h'
  obtain hlt | heq | hgt := Nat.lt_trichotomy i k
  · refine ⟨i, hi, hagree.trans (hagree'.mono (by omega)), hzero, ?_⟩
    rw [← hagree' i hlt, hone]
  · subst heq
    rw [hone] at hzero'
    cases hzero'
  · refine ⟨k, hk, (hagree.mono (by omega)).trans hagree', ?_, hone'⟩
    rw [hagree k hgt, hzero']

theorem Fork.congr (h : Fork bit codes r i) (hagree : Agree bit r c i) : Fork bit codes c i := by
  obtain ⟨⟨s₀, hs₀, hagree₀, hzero⟩, s₁, hs₁, hagree₁, hone⟩ := h
  exact ⟨⟨s₀, hs₀, hagree₀.trans hagree, hzero⟩, s₁, hs₁, hagree₁.trans hagree, hone⟩

/-- Two codes of the set that part make a fork. -/
theorem fork_of_differ (hs : s ∈ codes) (hc : c ∈ codes) (hagree : Agree bit s c i)
    (hdiffer : bit s i ≠ bit c i) : Fork bit codes c i := by
  cases hbit : bit c i with
  | false =>
    rw [hbit] at hdiffer
    exact ⟨⟨c, hc, .refl c i, hbit⟩, s, hs, hagree, eq_true_of_ne_false hdiffer⟩
  | true =>
    rw [hbit] at hdiffer
    exact ⟨⟨s, hs, hagree, eq_false_of_ne_true hdiffer⟩, c, hc, .refl c i, hbit⟩

/-! ## One walk -/

theorem LastZero.zero (codes : List α) (c : α) : LastZero bit codes c 0 0 :=
  ⟨by rintro l ⟨⟩, fun j _ hj => absurd hj (Nat.not_lt_zero j)⟩

/-- A fork at which `c` goes to 0. -/
theorem LastZero.record (hfork : Fork bit codes c i) (hzero : bit c i = false) :
    LastZero bit codes c (i + 1) (i + 1) := by
  refine ⟨?_, fun j hle hlt => by omega⟩
  rintro l ⟨⟩
  exact ⟨by omega, hfork, hzero⟩

theorem LastZero.pass (h : LastZero bit codes c i z) (hi : Fork bit codes c i → bit c i = true) :
    LastZero bit codes c (i + 1) z := by
  refine ⟨?_, ?_⟩
  · intro l hl
    obtain ⟨hlt, hfork⟩ := h.fork l hl
    exact ⟨by omega, hfork⟩
  · intro j hle hlt hfork
    obtain hlt | rfl := Nat.lt_succ_iff_lt_or_eq.mp hlt
    · exact h.after j hle hlt hfork
    · exact hi hfork

/-- Only the first bits matter. -/
theorem LastZero.congr {c' : α} (h : LastZero bit codes c i z) (hagree : Agree bit c c' i) :
    LastZero bit codes c' i z := by
  refine ⟨?_, ?_⟩
  · intro l hl
    obtain ⟨hlt, hfork, hzero⟩ := h.fork l hl
    refine ⟨hlt, hfork.congr (hagree.mono (by omega)), ?_⟩
    rw [← hagree l hlt, hzero]
  · intro j hle hlt hfork
    rw [← hagree j hlt]
    exact h.after j hle hlt (hfork.congr (hagree.symm.mono (by omega)))

theorem Walked.zero (codes : List α) (r c : α) (last : Nat) : Walked bit codes r last c 0 :=
  fun j hj => absurd hj (Nat.not_lt_zero j)

theorem Walked.succ (h : Walked bit codes r last c i)
    (hi : Fork bit codes c i → bit c i = if i + 1 < last then bit r i else decide (i + 1 = last)) :
    Walked bit codes r last c (i + 1) := by
  intro j hlt hfork
  obtain hlt | rfl := Nat.lt_succ_iff_lt_or_eq.mp hlt
  · exact h j hlt hfork
  · exact hi hfork

theorem Walked.congr {c' : α} (h : Walked bit codes r last c i) (hagree : Agree bit c c' i) :
    Walked bit codes r last c' i := by
  intro j hlt hfork
  rw [← hagree j hlt]
  exact h j hlt (hfork.congr (hagree.symm.mono (by omega)))

/-! ## The order of the codes -/

/-- Below the index the walk goes to the first code. -/
theorem Walked.first_below (h : Walked bit codes r last c n) (hc : c ∈ codes) (hs : s ∈ codes)
    (hagree : Agree bit s c last) : Agree bit s c n ∨ Before bit n c s := by
  obtain hall | ⟨i, hi, hbefore, hdiffer⟩ := agree_or_differ bit s c n
  · exact .inl hall
  · have hle : last ≤ i := by
      by_contra hlt
      exact hdiffer (hagree i (by omega))
    have hzero : bit c i = false := by
      rw [h i hi (fork_of_differ hs hc hbefore hdiffer), if_neg (by omega)]
      exact decide_eq_false (by omega)
    rw [hzero] at hdiffer
    exact .inr ⟨i, hi, hbefore.symm, hzero, eq_true_of_ne_false hdiffer⟩

/-- With index 0 the walk goes to the first code. -/
theorem Walked.first (h : Walked bit codes r 0 c n) (hc : c ∈ codes) (hs : s ∈ codes) :
    Agree bit s c n ∨ Before bit n c s :=
  h.first_below hc hs fun j hj => absurd hj (Nat.not_lt_zero j)

/-- With an index of the last code it goes to the next one. -/
theorem Walked.next (h : Walked bit codes r last c n) (hr : r ∈ codes) (hc : c ∈ codes)
    (hlast : LastZero bit codes r n last) (hpos : last ≠ 0) :
    Before bit n r c ∧
      ∀ s ∈ codes, Before bit n r s → Agree bit s c n ∨ Before bit n c s := by
  obtain ⟨l, rfl⟩ := Nat.exists_eq_add_one_of_ne_zero hpos
  obtain ⟨hln, hfork, hzero⟩ := hlast.fork l rfl
  -- above the index the walk stays with the last code
  have hagree : ∀ i ≤ l, Agree bit r c i := by
    intro i hi
    induction i with
    | zero => exact fun j hj => absurd hj (Nat.not_lt_zero j)
    | succ i ih =>
      have hprefix := ih (by omega)
      refine hprefix.succ ?_
      by_contra hdiffer
      have hway := h i (by omega) (fork_of_differ hr hc hprefix hdiffer)
      rw [if_pos (by omega)] at hway
      exact hdiffer hway.symm
  have hone : bit c l = true := by
    rw [h l hln (hfork.congr (hagree l (Nat.le_refl l))), if_neg (by omega)]
    exact decide_eq_true rfl
  refine ⟨⟨l, hln, hagree l (Nat.le_refl l), hzero, hone⟩, ?_⟩
  rintro s hs ⟨i, hi, hbefore, hri, hsi⟩
  have hle : i ≤ l := by
    by_contra hlt
    have hforki : Fork bit codes r i := ⟨⟨r, hr, .refl r i, hri⟩, s, hs, hbefore.symm, hsi⟩
    rw [hlast.after i (by omega) hi hforki] at hri
    cases hri
  obtain hlt | rfl := Nat.lt_or_eq_of_le hle
  · -- the codes part above the index
    refine .inr ⟨i, hi, ((hagree i hle).symm).trans hbefore, ?_, hsi⟩
    rw [← hagree l (Nat.le_refl l) i hlt, hri]
  · have hprefix : Agree bit s c (i + 1) :=
      (hbefore.symm.trans (hagree i hle)).succ (hsi.trans hone.symm)
    exact h.first_below hc hs hprefix

/-- There is no code after one that leaves no index. -/
theorem LastZero.done (h : LastZero bit codes r n 0) (hr : r ∈ codes) (hs : s ∈ codes) :
    ¬ Before bit n r s := by
  rintro ⟨i, hi, hagree, hri, hsi⟩
  have hfork : Fork bit codes r i := ⟨⟨r, hr, .refl r i, hri⟩, s, hs, hagree.symm, hsi⟩
  rw [h.after i (Nat.zero_le i) hi hfork] at hri
  cases hri

/-- Where there is an index there is a code after. -/
theorem LastZero.more (h : LastZero bit codes r n z) (hpos : z ≠ 0) :
    ∃ s ∈ codes, Before bit n r s := by
  obtain ⟨l, rfl⟩ := Nat.exists_eq_add_one_of_ne_zero hpos
  obtain ⟨hln, ⟨-, s, hs, hagree, hone⟩, hzero⟩ := h.fork l rfl
  exact ⟨s, hs, l, hln, hagree.symm, hzero, hone⟩

/-! ## The codes found -/

/-- The codes found are those up to the last one. -/
structure Found (bit : α → Nat → Bool) (n : Nat) (codes found : List α) (r : α) : Prop where
  nodup : found.Nodup
  subset : ∀ s ∈ found, s ∈ codes
  upto : ∀ s ∈ codes, s ∈ found ↔ ¬ Before bit n r s
  last : r ∈ codes

theorem Found.first (hext : ∀ s c, Agree bit s c n → s = c) (hc : c ∈ codes)
    (h : Walked bit codes r 0 c n) : Found bit n codes [c] c := by
  refine ⟨List.nodup_singleton c, ?_, ?_, hc⟩
  · intro s hs
    rwa [List.mem_singleton.mp hs]
  · intro s hs
    rw [List.mem_singleton]
    constructor
    · rintro rfl
      exact not_before_self bit n s
    · intro hnot
      exact hext s c ((h.first hc hs).resolve_right hnot)

theorem Found.next {found : List α} (h : Found bit n codes found r)
    (hext : ∀ s c, Agree bit s c n → s = c) (hc : c ∈ codes)
    (hlast : LastZero bit codes r n last) (hpos : last ≠ 0) (hwalk : Walked bit codes r last c n) :
    Found bit n codes (found ++ [c]) c := by
  obtain ⟨hbefore, hnext⟩ := hwalk.next h.last hc hlast hpos
  have hnew : c ∉ found := fun hmem => (h.upto c hc).mp hmem hbefore
  refine ⟨?_, ?_, ?_, hc⟩
  · rw [List.nodup_append]
    refine ⟨h.nodup, List.nodup_singleton c, ?_⟩
    rintro s hs t ht rfl
    rw [List.mem_singleton.mp ht] at hs
    exact hnew hs
  · intro s hs
    obtain hs | hs := List.mem_append.mp hs
    · exact h.subset s hs
    · rwa [List.mem_singleton.mp hs]
  · intro s hs
    rw [List.mem_append, List.mem_singleton, h.upto s hs]
    constructor
    · rintro (hnot | rfl) hcs
      · exact hnot (hbefore.trans hcs)
      · exact not_before_self bit n s hcs
    · intro hnot
      by_cases hrs : Before bit n r s
      · exact .inr (hext s c ((hnext s hs hrs).resolve_right hnot))
      · exact .inl hrs

/-- Without an index every code was found. -/
theorem Found.perm {found : List α} (h : Found bit n codes found r) (hnodup : codes.Nodup)
    (hlast : LastZero bit codes r n 0) : found.Perm codes := by
  refine (List.perm_ext_iff_of_nodup h.nodup hnodup).mpr fun s => ⟨h.subset s, fun hs => ?_⟩
  exact (h.upto s hs).mpr (hlast.done h.last hs)

/-- With an index there are more codes than those found. -/
theorem Found.length_lt {found : List α} (h : Found bit n codes found r)
    (hlast : LastZero bit codes r n z) (hpos : z ≠ 0) : found.length < codes.length := by
  obtain ⟨s, hs, hbefore⟩ := hlast.more hpos
  have hnew : s ∉ found := fun hmem => (h.upto s hs).mp hmem hbefore
  have hsub : (s :: found).Subperm codes := by
    refine List.subperm_of_subset (List.nodup_cons.mpr ⟨hnew, h.nodup⟩) ?_
    intro t ht
    obtain rfl | ht := List.mem_cons.mp ht
    · exact hs
    · exact h.subset t ht
  exact hsub.length_le

end Walk

end LuaRtos.Bits
