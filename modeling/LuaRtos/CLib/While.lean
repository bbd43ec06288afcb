/-
  LuaRtos.CLib.While

  Loops of C code, run with a bound on their rounds.

  `whileLoop` is the loop with fuel; without enough of it the run is
  `Fault.diverged`.  `Rounds` is what some number of rounds does, so that the
  parts of a long loop are proved apart and put together by `Rounds.trans`, and
  `Ends` that the loop comes to an end, whatever the fuel that takes.
-/

import LuaRtos.CLib.Basic

namespace LuaRtos.CLib

variable {σ : Type}

/-- `while (cond) body`. -/
def whileLoop (cond : σ → Bool) (body : σ → Result σ) : Nat → σ → Result σ
  | 0, _ => throw .diverged
  | fuel + 1, s =>
    if cond s then do
      let s ← body s
      whileLoop cond body fuel s
    else pure s

/-- Some rounds of the loop lead from the one state to the other. -/
inductive Rounds (cond : σ → Bool) (body : σ → Result σ) : σ → σ → Prop
  | refl (s : σ) : Rounds cond body s s
  | head {s s₁ s' : σ} (hc : cond s = true) (hb : body s = .ok s₁)
      (h : Rounds cond body s₁ s') : Rounds cond body s s'

/-- The loop ends in the state. -/
def Ends (cond : σ → Bool) (body : σ → Result σ) (s s' : σ) : Prop :=
  ∃ fuel, whileLoop cond body fuel s = .ok s'

section While

variable {cond : σ → Bool} {body : σ → Result σ} {s s₁ s' s'' : σ}

theorem Rounds.trans (h : Rounds cond body s s') (h' : Rounds cond body s' s'') :
    Rounds cond body s s'' := by
  induction h with
  | refl s => exact h'
  | head hc hb _ ih => exact .head hc hb (ih h')

theorem Rounds.one (hc : cond s = true) (hb : body s = .ok s') : Rounds cond body s s' :=
  .head hc hb (.refl s')

theorem whileLoop_done (hc : cond s = false) (fuel : Nat) :
    whileLoop cond body (fuel + 1) s = .ok s :=
  if_neg (ne_true_of_eq_false hc)

theorem whileLoop_succ (hc : cond s = true) (fuel : Nat) :
    whileLoop cond body (fuel + 1) s = body s >>= whileLoop cond body fuel :=
  if_pos hc

theorem whileLoop_round (hc : cond s = true) (hb : body s = .ok s₁) (fuel : Nat) :
    whileLoop cond body (fuel + 1) s = whileLoop cond body fuel s₁ := by
  rw [whileLoop_succ hc, hb]
  rfl

/-- Rounds up to where the condition fails. -/
theorem Rounds.ends (h : Rounds cond body s s') (hc : cond s' = false) :
    Ends cond body s s' := by
  induction h with
  | refl s => exact ⟨1, whileLoop_done hc 0⟩
  | head hcond hb _ ih =>
    obtain ⟨fuel, hfuel⟩ := ih hc
    exact ⟨fuel + 1, (whileLoop_round hcond hb fuel).trans hfuel⟩

/-- Fuel above a measure that every round lowers. -/
theorem Rounds.whileLoop_eq {μ : σ → Nat}
    (hμ : ∀ s s', cond s = true → body s = .ok s' → μ s' < μ s)
    (h : Rounds cond body s s') (hc : cond s' = false) {fuel : Nat} (hfuel : μ s < fuel) :
    whileLoop cond body fuel s = .ok s' := by
  induction h generalizing fuel with
  | refl s =>
    obtain ⟨k, rfl⟩ := Nat.exists_eq_add_one_of_ne_zero (Nat.ne_zero_of_lt hfuel)
    exact whileLoop_done hc k
  | head hcond hb _ ih =>
    obtain ⟨k, rfl⟩ := Nat.exists_eq_add_one_of_ne_zero (Nat.ne_zero_of_lt hfuel)
    rw [whileLoop_round hcond hb]
    have hless := hμ _ _ hcond hb
    exact ih hc (by omega)

/-- The loop is a sequence of rounds, and stops where the condition fails. -/
theorem Ends.rounds (h : Ends cond body s s') : Rounds cond body s s' ∧ cond s' = false := by
  obtain ⟨fuel, hfuel⟩ := h
  induction fuel generalizing s with
  | zero => cases hfuel
  | succ fuel ih =>
    cases hc : cond s with
    | false =>
      rw [whileLoop_done hc] at hfuel
      obtain rfl : s = s' := Except.ok.inj hfuel
      exact ⟨.refl s, hc⟩
    | true =>
      rw [whileLoop_succ hc] at hfuel
      obtain ⟨s₁, hb, hrest⟩ := bind_eq_ok.mp hfuel
      obtain ⟨hrounds, hend⟩ := ih hrest
      exact ⟨.head hc hb hrounds, hend⟩

/-- Where the condition fails no round leads on. -/
theorem Rounds.eq_of_done (h : Rounds cond body s s') (hc : cond s = false) : s' = s := by
  cases h with
  | refl => rfl
  | head hcond _ _ =>
    rw [hc] at hcond
    cases hcond

theorem Rounds.unique (h : Rounds cond body s s') (hend : cond s' = false)
    (h' : Rounds cond body s s'') (hend' : cond s'' = false) : s' = s'' := by
  induction h with
  | refl s => exact (h'.eq_of_done hend).symm
  | head hc hb _ ih =>
    cases h' with
    | refl =>
      rw [hend'] at hc
      cases hc
    | head hc' hb' hrest =>
      rw [hb] at hb'
      cases hb'
      exact ih hend hrest

/-- The loop ends in one state only. -/
theorem Ends.unique (h : Ends cond body s s') (h' : Ends cond body s s'') : s' = s'' := by
  obtain ⟨hrounds, hend⟩ := h.rounds
  obtain ⟨hrounds', hend'⟩ := h'.rounds
  exact hrounds.unique hend hrounds' hend'

theorem ends_of_done (hc : cond s = false) : Ends cond body s s' ↔ s' = s := by
  constructor
  · intro h
    obtain ⟨hrounds, -⟩ := h.rounds
    exact hrounds.eq_of_done hc
  · rintro rfl
    exact ⟨1, whileLoop_done hc 0⟩

/-- One round, and the loop from there. -/
theorem ends_of_cond (hc : cond s = true) :
    Ends cond body s s' ↔ ∃ s₁, body s = .ok s₁ ∧ Ends cond body s₁ s' := by
  constructor
  · intro h
    obtain ⟨hrounds, hend⟩ := h.rounds
    cases hrounds with
    | refl =>
      rw [hc] at hend
      cases hend
    | head _ hb hrest => exact ⟨_, hb, hrest.ends hend⟩
  · rintro ⟨s₁, hb, fuel, hfuel⟩
    exact ⟨fuel + 1, (whileLoop_round hc hb fuel).trans hfuel⟩

theorem Rounds.invariant (inv : σ → Prop)
    (hinv : ∀ s s', inv s → body s = .ok s' → inv s') (h : Rounds cond body s s')
    (hs : inv s) : inv s' := by
  induction h with
  | refl s => exact hs
  | head _ hb _ ih => exact ih (hinv _ _ hs hb)

/-- A body that comes through wherever another does, with the same state. -/
theorem whileLoop_mono {body' : σ → Result σ} (hbody : ∀ s s', body s = .ok s' → body' s = .ok s')
    {fuel : Nat} (h : whileLoop cond body fuel s = .ok s') :
    whileLoop cond body' fuel s = .ok s' := by
  induction fuel generalizing s with
  | zero => cases h
  | succ fuel ih =>
    cases hc : cond s with
    | false =>
      rw [whileLoop_done hc] at h ⊢
      exact h
    | true =>
      rw [whileLoop_succ hc] at h
      obtain ⟨s₁, hb, hrest⟩ := bind_eq_ok.mp h
      rw [whileLoop_round hc (hbody s s₁ hb)]
      exact ih hrest

end While

section For
/-- A loop over a counter comes through just where every round does, when what lets a round
    through can be said beforehand. -/
theorem forLoop_ok_iff {step : σ → Nat → Result σ} (inv : Nat → σ → Prop) (ok : Nat → Prop)
    (hok : ∀ k s, inv k s → ((∃ s', step s k = .ok s') ↔ ok k))
    (hinv : ∀ k s s', inv k s → step s k = .ok s' → inv (k + 1) s') {s : σ} (hs : inv 0 s)
    (n : Nat) :
    ((∃ s', (List.range n).foldlM step s = .ok s') ↔ ∀ k < n, ok k) ∧
      ∀ s', (List.range n).foldlM step s = .ok s' → inv n s' := by
  induction n with
  | zero =>
    refine ⟨iff_of_true ⟨s, rfl⟩ fun k hk => absurd hk (Nat.not_lt_zero k), ?_⟩
    intro s' hrun
    rwa [← Except.ok.inj hrun]
  | succ n ih =>
    obtain ⟨hruns, hkeeps⟩ := ih
    have hsplit : ∀ s', (List.range (n + 1)).foldlM step s = .ok s' ↔
        ∃ t, (List.range n).foldlM step s = .ok t ∧ step t n = .ok s' := by
      intro s'
      rw [List.range_succ, List.foldlM_append, bind_eq_ok]
      simp only [List.foldlM_cons, List.foldlM_nil, bind_pure]
    constructor
    · constructor
      · rintro ⟨s', hrun⟩ k hk
        obtain ⟨t, hfirst, hlast⟩ := (hsplit s').mp hrun
        rcases Nat.lt_succ_iff_lt_or_eq.mp hk with hlt | rfl
        · exact hruns.mp ⟨t, hfirst⟩ k hlt
        · exact (hok k t (hkeeps t hfirst)).mp ⟨s', hlast⟩
      · intro hall
        obtain ⟨t, hfirst⟩ := hruns.mpr fun k hk => hall k (Nat.lt_succ_of_lt hk)
        obtain ⟨s', hlast⟩ := (hok n t (hkeeps t hfirst)).mpr (hall n (Nat.lt_succ_self n))
        exact ⟨s', (hsplit s').mpr ⟨t, hfirst, hlast⟩⟩
    · intro s' hrun
      obtain ⟨t, hfirst, hlast⟩ := (hsplit s').mp hrun
      exact hinv n t s' (hkeeps t hfirst) hlast

end For

end LuaRtos.CLib
