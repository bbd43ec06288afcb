/-
  LuaRtos.Lts.Progress

  What a system comes to, whichever steps it takes.

  `Inevitably ok P s` says that every run from `s` whose steps meet `ok` comes
  to a state with `P` and does not stop before.  No fairness is involved: it is
  for systems whose runs are all finite, which a rank shows.
-/

import LuaRtos.Lts.Run

namespace LuaRtos
namespace Lts

variable {σ act : Type} {L : Lts σ act} {ok : σ → act → Prop} {P I : σ → Prop}

/-- Every run from `s` whose steps meet `ok` comes to a state with `P`. -/
inductive Inevitably (L : Lts σ act) (ok : σ → act → Prop) (P : σ → Prop) : σ → Prop
  | here {s : σ} (h : P s) : Inevitably L ok P s
  | next {s : σ} (hsome : ∃ a s', ok s a ∧ L.step s a s')
      (hall : ∀ a s', ok s a → L.step s a s' → Inevitably L ok P s') : Inevitably L ok P s

theorem Inevitably.mono {Q : σ → Prop} (hPQ : ∀ s, P s → Q s) {s : σ}
    (h : Inevitably L ok P s) : Inevitably L ok Q s := by
  induction h with
  | here h => exact .here (hPQ _ h)
  | next hsome _ ih => exact .next hsome ih

/-- The rank rule for an invariant that tells how many steps are left at most:
    as long as `P` does not hold, some step is possible, and every step keeps
    the invariant with fewer. -/
theorem Inevitably.of_left {I : Nat → σ → Prop}
    (hkeep : ∀ n s a s', I n s → ¬ P s → ok s a → L.step s a s' → ∃ n', n' < n ∧ I n' s')
    (hgo : ∀ n s, I n s → ¬ P s → ∃ a s', ok s a ∧ L.step s a s') {n : Nat} {s : σ}
    (hs : I n s) : Inevitably L ok P s := by
  induction n using Nat.strongRecOn generalizing s with
  | ind n ih =>
    by_cases hP : P s
    · exact .here hP
    · refine .next (hgo n s hs hP) fun a s' hok hstep => ?_
      obtain ⟨n', hlt, hs'⟩ := hkeep n s a s' hs hP hok hstep
      exact ih n' hlt hs'

/-- The rank rule: as long as `P` does not hold, some step is possible, and
    every step keeps the invariant and lowers the rank. -/
theorem Inevitably.of_rank (rank : σ → Nat)
    (hkeep : ∀ s a s', I s → ¬ P s → ok s a → L.step s a s' → I s' ∧ rank s' < rank s)
    (hgo : ∀ s, I s → ¬ P s → ∃ a s', ok s a ∧ L.step s a s') {s : σ} (hs : I s) :
    Inevitably L ok P s := by
  refine .of_left (I := fun n s => I s ∧ rank s = n) (fun n s a s' h hP hok hstep => ?_)
    (fun n s h => hgo s h.1) ⟨hs, rfl⟩
  obtain ⟨hs', hlt⟩ := hkeep s a s' h.1 hP hok hstep
  exact ⟨rank s', h.2 ▸ hlt, hs', rfl⟩

/-- Two ends that every run comes to, and where no step is possible, are one. -/
theorem Inevitably.common {Q : σ → Prop} (hP : ∀ s a s', P s → ¬ L.step s a s')
    (hQ : ∀ s a s', Q s → ¬ L.step s a s') {s : σ} (h : Inevitably L ok P s)
    (h' : Inevitably L ok Q s) : ∃ t, P t ∧ Q t := by
  induction h with
  | here h =>
    cases h' with
    | here h' => exact ⟨_, h, h'⟩
    | next hsome hall =>
      obtain ⟨a, s', -, hstep⟩ := hsome
      exact absurd hstep (hP _ a s' h)
  | next hsome hall ih =>
    obtain ⟨a, s', hok, hstep⟩ := hsome
    cases h' with
    | here h' => exact absurd hstep (hQ _ a s' h')
    | next hsome' hall' => exact ih a s' hok hstep (hall' a s' hok hstep)

end Lts
end LuaRtos
