/-
  LuaRtos.Lts.Run

  Labelled transition systems, the states their runs reach, and the
  induction principle every safety proof here goes through.

  `Reach ok` collects the states of the runs whose every step `s --a--> s'`
  meets `ok s a`.  A property of all runs is one with the trivial condition;
  a property that holds as long as callers keep to a discipline is one with
  that discipline as `ok`.
-/

import Mathlib.Logic.Basic

namespace LuaRtos

/-- A labelled transition system: initial states and labelled steps. -/
structure Lts (σ act : Type) where
  init : σ → Prop
  step : σ → act → σ → Prop

namespace Lts

variable {σ act : Type} {L : Lts σ act} {ok : σ → act → Prop} {I : σ → Prop}

/-- The system of a step function, which has no result where no step is possible. -/
def ofStep (s₀ : σ) (f : σ → act → Option σ) : Lts σ act where
  init s := s = s₀
  step s a s' := f s a = some s'

/-- The states of the runs all of whose steps meet `ok`. -/
inductive Reach (L : Lts σ act) (ok : σ → act → Prop) : σ → Prop
  | init {s : σ} (h : L.init s) : Reach L ok s
  | step {s s' : σ} {a : act} (h : Reach L ok s) (hok : ok s a) (hs : L.step s a s') :
      Reach L ok s'

/-- The invariant rule: what holds initially and is kept by every step that
    meets the condition holds in every state of such a run. -/
theorem Reach.invariant (hinit : ∀ s, L.init s → I s)
    (hstep : ∀ s a s', I s → ok s a → L.step s a s' → I s') {s : σ} (h : L.Reach ok s) :
    I s := by
  induction h with
  | init h => exact hinit _ h
  | step _ hok hs ih => exact hstep _ _ _ ih hok hs

/-! ## Step functions -/

variable {f : σ → act → Option σ} {s₀ : σ}

/-- The step function where the condition is met. -/
def guarded (ok : σ → act → Prop) [∀ s a, Decidable (ok s a)] (f : σ → act → Option σ)
    (s : σ) (a : act) : Option σ :=
  if ok s a then f s a else none

/-- The step function with a record of the run, which does not restrict it. -/
def withHistory {γ : Type} (f : σ → act → Option σ) (next : σ → act → γ → γ)
    (p : σ × γ) (a : act) : Option (σ × γ) :=
  (f p.1 a).map fun s => (s, next p.1 a p.2)

/-- A schedule whose steps all meet the condition leads on from a reached state. -/
theorem Reach.schedule_from [∀ s a, Decidable (ok s a)] {as : List act} {s s' : σ}
    (h : (ofStep s₀ f).Reach ok s) (hs : as.foldlM (guarded ok f) s = some s') :
    (ofStep s₀ f).Reach ok s' := by
  induction as generalizing s with
  | nil =>
    obtain rfl : s = s' := by simpa using hs
    exact h
  | cons a as ih =>
    rw [List.foldlM_cons] at hs
    obtain ⟨s₁, hs₁, hrest⟩ := Option.bind_eq_some_iff.mp hs
    by_cases hok : ok s a
    · rw [guarded, if_pos hok] at hs₁
      exact ih (.step h hok hs₁) hrest
    · simp [guarded, hok] at hs₁

theorem Reach.schedule [∀ s a, Decidable (ok s a)] {s : σ} (as : List act)
    (hs : as.foldlM (guarded ok f) s₀ = some s) : (ofStep s₀ f).Reach ok s :=
  .schedule_from (.init rfl) hs

end Lts
end LuaRtos
