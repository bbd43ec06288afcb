/-
  LuaRtos.CLib.Cycle

  Loops that may come back to where they were.

  Where a round depends on a key alone, and there are finitely many keys, the loop ends within
  as many rounds or never ends, so that fuel for so many rounds is enough.
-/

import Mathlib.Data.Fintype.Card
import LuaRtos.CLib.While

namespace LuaRtos.CLib

variable {σ : Type}

/-- So many rounds of the loop lead from the one state to the other. -/
inductive RoundsIn (cond : σ → Bool) (body : σ → Result σ) : Nat → σ → σ → Prop
  | refl (s : σ) : RoundsIn cond body 0 s s
  | head {n : Nat} {s s₁ s' : σ} (hc : cond s = true) (hb : body s = .ok s₁)
      (h : RoundsIn cond body n s₁ s') : RoundsIn cond body (n + 1) s s'

section Count

variable {κ : Type} {cond : σ → Bool} {body : σ → Result σ} {s s₁ s' : σ} {m n : Nat}

theorem Rounds.count (h : Rounds cond body s s') : ∃ n, RoundsIn cond body n s s' := by
  induction h with
  | refl s => exact ⟨0, .refl s⟩
  | head hc hb _ ih =>
    obtain ⟨n, hn⟩ := ih
    exact ⟨n + 1, .head hc hb hn⟩

theorem RoundsIn.whileLoop_eq (h : RoundsIn cond body n s s') (hend : cond s' = false)
    {fuel : Nat} (hfuel : n < fuel) : whileLoop cond body fuel s = .ok s' := by
  induction h generalizing fuel with
  | refl s =>
    obtain ⟨k, rfl⟩ := Nat.exists_eq_add_one_of_ne_zero (Nat.ne_zero_of_lt hfuel)
    exact whileLoop_done hend k
  | head hc hb _ ih =>
    obtain ⟨k, rfl⟩ := Nat.exists_eq_add_one_of_ne_zero (Nat.ne_zero_of_lt hfuel)
    rw [whileLoop_round hc hb]
    exact ih hend (Nat.lt_of_succ_lt_succ hfuel)

/-- From some fuel on it does not matter how much there is. -/
theorem Ends.fuel (h : Ends cond body s s') :
    ∃ n, ∀ fuel > n, whileLoop cond body fuel s = .ok s' := by
  obtain ⟨hrounds, hend⟩ := h.rounds
  obtain ⟨n, hn⟩ := hrounds.count
  exact ⟨n, fun fuel hfuel => hn.whileLoop_eq hend hfuel⟩

/-- Rounds along a sequence of states. -/
theorem RoundsIn.of_trace (st : Nat → σ) (hc : ∀ k < n, cond (st k) = true)
    (hb : ∀ k < n, body (st k) = .ok (st (k + 1))) : RoundsIn cond body n (st 0) (st n) := by
  have key : ∀ m k, k + m = n → RoundsIn cond body m (st k) (st n) := by
    intro m
    induction m with
    | zero =>
      rintro k rfl
      exact .refl _
    | succ m ih =>
      intro k hk
      exact .head (hc k (by omega)) (hb k (by omega)) (ih (k + 1) (by omega))
  exact key n 0 (Nat.zero_add n)

/-- There is one number of rounds up to the end. -/
theorem RoundsIn.unique (h : RoundsIn cond body m s s') (h' : RoundsIn cond body n s s')
    (hend : cond s' = false) : m = n := by
  induction h generalizing n with
  | refl s =>
    cases h' with
    | refl => rfl
    | head hc _ _ =>
      rw [hend] at hc
      cases hc
  | head hc hb _ ih =>
    cases h' with
    | refl =>
      rw [hend] at hc
      cases hc
    | head hc' hb' hrest =>
      rw [hb] at hb'
      obtain rfl := Except.ok.inj hb'
      rw [ih hrest hend]

/-- The state from which there are so many rounds to go. -/
theorem RoundsIn.before (h : RoundsIn cond body n s s') {i : Nat} (hi : i < n) :
    ∃ t t₁, body t = .ok t₁ ∧ RoundsIn cond body i t₁ s' := by
  induction h with
  | refl s => exact absurd hi (Nat.not_lt_zero i)
  | head hc hb hrest ih =>
    rcases Nat.lt_succ_iff_lt_or_eq.mp hi with hlt | rfl
    · exact ih hlt
    · exact ⟨_, _, hb, hrest⟩

/-- States with one key go on alike, so that the rounds up to the end have keys of their own. -/
theorem RoundsIn.le_card [Fintype κ] (key : σ → κ)
    (hkey : ∀ s t, key s = key t → body s = body t) (h : RoundsIn cond body n s s')
    (hend : cond s' = false) : n ≤ Fintype.card κ := by
  have hbefore : ∀ i : Fin n, ∃ t t₁, body t = .ok t₁ ∧ RoundsIn cond body i t₁ s' :=
    fun i => h.before i.isLt
  choose t t₁ hb hrest using hbefore
  have hinj : Function.Injective fun i => key (t i) := by
    intro i j hsame
    have hnext : body (t i) = body (t j) := hkey _ _ hsame
    rw [hb i, hb j] at hnext
    have hi := hrest i
    rw [Except.ok.inj hnext] at hi
    exact Fin.ext (hi.unique (hrest j) hend)
  have hcard := Fintype.card_le_of_injective _ hinj
  rwa [Fintype.card_fin] at hcard

/-- A loop that ends does so with fuel for one round more than there are keys. -/
theorem Ends.whileLoop_card [Fintype κ] (key : σ → κ)
    (hkey : ∀ s t, key s = key t → body s = body t) (h : Ends cond body s s') {fuel : Nat}
    (hfuel : Fintype.card κ < fuel) : whileLoop cond body fuel s = .ok s' := by
  obtain ⟨hrounds, hend⟩ := h.rounds
  obtain ⟨n, hn⟩ := hrounds.count
  exact hn.whileLoop_eq hend (Nat.lt_of_le_of_lt (hn.le_card key hkey hend) hfuel)

end Count

end LuaRtos.CLib
