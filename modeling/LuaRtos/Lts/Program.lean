/-
  LuaRtos.Lts.Program

  Threads that run programs of atomic operations on a state that they share.

  A program is its next operation and a rest for every reply.  A contract says,
  from what a thread knows, which operations it may do, and what it may know after
  each reply.  `Machine.kept` is the rule for runs: where every call is a program
  that keeps the contract, and the shared state agrees with what the threads know
  after each operation, it does so in every state reached.
-/

import LuaRtos.Lts.Run
import Mathlib.Logic.Function.Basic

namespace LuaRtos

/-- A program of atomic operations: the next one, and the rest for each reply. -/
inductive Prog (Op : Type) (Reply : Op → Type) (α : Type) where
  | pure (a : α)
  | op (o : Op) (rest : Reply o → Prog Op Reply α)

/-- What a thread may do, from what it knows, and what it may know after a reply. -/
structure Contract (H Op : Type) (Reply : Op → Type) where
  may : H → Op → Prop
  learns : H → (o : Op) → Reply o → H → Prop

namespace Prog

variable {H Op α β : Type} {Reply : Op → Type}

def bind (p : Prog Op Reply α) (f : α → Prog Op Reply β) : Prog Op Reply β :=
  match p with
  | .pure a => f a
  | .op o rest => .op o fun r => (rest r).bind f

instance : Monad (Prog Op Reply) where
  pure := .pure
  bind := bind

/-- One operation. -/
def perform (o : Op) : Prog Op Reply (Reply o) := .op o .pure

/-- The operation that the program comes to next. -/
def nextOp : Prog Op Reply α → Option Op
  | .pure _ => none
  | .op o _ => some o

/-- The program keeps the contract from `h` on, and ends in `post`. -/
def Keeps (C : Contract H Op Reply) (post : H → α → Prop) : Prog Op Reply α → H → Prop
  | .pure a, h => post h a
  | .op o rest, h =>
    C.may h o ∧ ∀ r h', C.learns h o r h' → (rest r).Keeps C post h'

variable {C : Contract H Op Reply} {post : H → α → Prop} {h : H}

theorem keeps_bind {p : Prog Op Reply β} {f : β → Prog Op Reply α} :
    (p >>= f).Keeps C post h ↔ p.Keeps C (fun h b => (f b).Keeps C post h) h := by
  induction p generalizing h with
  | pure b => exact Iff.rfl
  | op o rest ih =>
    apply and_congr Iff.rfl
    exact forall_congr' fun r => forall_congr' fun h' => imp_congr Iff.rfl (ih r)

theorem keeps_then {o : Op} {rest : Reply o → Prog Op Reply α} :
    (perform o >>= rest).Keeps C post h ↔
      C.may h o ∧ ∀ r h', C.learns h o r h' → (rest r).Keeps C post h' := Iff.rfl

theorem Keeps.mono {p : Prog Op Reply α} {post' : H → α → Prop} (hp : p.Keeps C post h)
    (himp : ∀ h a, post h a → post' h a) : p.Keeps C post' h := by
  induction p generalizing h with
  | pure a => exact himp h a hp
  | op o rest ih => exact ⟨hp.1, fun r h' hr => ih r (hp.2 r h' hr)⟩

end Prog

/-- A state, and the rest of the program of each thread.  A thread with nothing left
    but a value is idle. -/
structure Threads (σ Tid Op : Type) (Reply : Op → Type) (α : Type) where
  state : σ
  rest : Tid → Prog Op Reply α

/-- A thread makes a call, or does its next operation in some environment. -/
inductive ThreadAct (Tid Call Env : Type) where
  | call (t : Tid) (c : Call)
  | next (t : Tid) (e : Env)

/-- The programs of the calls, and what an operation does; no result where the thread
    waits, and where the operation is a fault. -/
structure Machine (σ Tid Call Env Op : Type) (Reply : Op → Type) (α : Type) where
  program : Call → Prog Op Reply α
  run : Tid → (o : Op) → Env → σ → Option (σ × Reply o)

namespace Machine

variable {σ Tid Call Env Op α H : Type} {Reply : Op → Type} [DecidableEq Tid]

/-- The rest of the program of a thread that does its next operation. -/
def advance (M : Machine σ Tid Call Env Op Reply α) (t : Tid) (e : Env) (s : σ) :
    Prog Op Reply α → Option (σ × Prog Op Reply α)
  | .pure _ => none
  | .op o rest => (M.run t o e s).map fun r => (r.1, rest r.2)

def step (M : Machine σ Tid Call Env Op Reply α) (w : Threads σ Tid Op Reply α) :
    ThreadAct Tid Call Env → Option (Threads σ Tid Op Reply α)
  | .call t c =>
    if (w.rest t).nextOp.isNone then
      some { w with rest := Function.update w.rest t (M.program c) }
    else none
  | .next t e =>
    (M.advance t e w.state (w.rest t)).map fun r => ⟨r.1, Function.update w.rest t r.2⟩

/-- The runs from a state, with all threads idle. -/
def threads (M : Machine σ Tid Call Env Op Reply α) (s : σ) (a : α) :
    Lts (Threads σ Tid Op Reply α) (ThreadAct Tid Call Env) :=
  .ofStep ⟨s, fun _ => .pure a⟩ M.step

end Machine

/-- The shared state agrees with what the threads know, and each keeps the contract. -/
structure Threads.Kept {σ Tid Op α H : Type} {Reply : Op → Type} (C : Contract H Op Reply)
    (post : H → α → Prop) (I : σ → (Tid → H) → Prop) (w : Threads σ Tid Op Reply α)
    (g : Tid → H) : Prop where
  agree : I w.state g
  keeps : ∀ t, (w.rest t).Keeps C post (g t)

namespace Machine

variable {σ Tid Call Env Op α H : Type} {Reply : Op → Type} [DecidableEq Tid]
variable {M : Machine σ Tid Call Env Op Reply α} {C : Contract H Op Reply} {post : H → α → Prop}
variable {I : σ → (Tid → H) → Prop} {w w' : Threads σ Tid Op Reply α} {g : Tid → H}
variable {ok : Threads σ Tid Op Reply α → ThreadAct Tid Call Env → Prop} {s₀ : σ} {a₀ : α}

omit [DecidableEq Tid] in
theorem advance_eq_some {t : Tid} {e : Env} {s s' : σ} {p p' : Prog Op Reply α} :
    M.advance t e s p = some (s', p') ↔
      ∃ o rest r, p = .op o rest ∧ M.run t o e s = some (s', r) ∧ p' = rest r := by
  cases p with
  | pure a => simp [advance]
  | op o rest =>
    simp only [advance, Option.map_eq_some_iff, Prod.exists, Prod.mk.injEq, Prog.op.injEq]
    constructor
    · rintro ⟨s₁, r, hr, rfl, rfl⟩
      exact ⟨o, rest, r, ⟨rfl, HEq.rfl⟩, hr, rfl⟩
    · rintro ⟨o', rest', r, ⟨rfl, hrest⟩, hr, rfl⟩
      cases hrest
      exact ⟨s', r, hr, rfl, rfl⟩

omit [DecidableEq Tid] in
theorem nextOp_eq_none {p : Prog Op Reply α} (h : p.nextOp.isNone = true) : ∃ a, p = .pure a := by
  cases p with
  | pure a => exact ⟨a, rfl⟩
  | op o rest => cases h

/-- Only one thread goes on. -/
theorem keeps_update (hkeep : ∀ u, (w.rest u).Keeps C post (g u)) {t : Tid}
    {p : Prog Op Reply α} {h : H} (hp : p.Keeps C post h) (u : Tid) :
    (Function.update w.rest t p u).Keeps C post (Function.update g t h u) := by
  by_cases hu : u = t
  · subst hu
    rw [Function.update_self, Function.update_self]
    exact hp
  · rw [Function.update_of_ne hu, Function.update_of_ne hu]
    exact hkeep u

/-- The rule for runs.  A call begins with what its thread knows then, and after every
    operation the thread knows what the contract says of its reply. -/
theorem kept (hinit : ∃ g : Tid → H, I s₀ g ∧ ∀ t, post (g t) a₀)
    (hcall : ∀ w g t c a, w.Kept C post I g → w.rest t = .pure a → post (g t) a →
      ok w (.call t c) →
      ∃ h, I w.state (Function.update g t h) ∧ (M.program c).Keeps C post h)
    (hnext : ∀ (w : Threads σ Tid Op Reply α) (g : Tid → H) (t : Tid) (e : Env) (o : Op)
      (rest : Reply o → Prog Op Reply α) (s : σ) (r : Reply o), w.Kept C post I g →
      w.rest t = .op o rest → C.may (g t) o → ok w (.next t e) → M.run t o e w.state = some (s, r) →
      ∃ h', C.learns (g t) o r h' ∧ I s (Function.update g t h'))
    (h : (M.threads s₀ a₀).Reach ok w) : ∃ g, w.Kept C post I g := by
  apply Lts.Reach.invariant _ _ h
  · rintro w rfl
    obtain ⟨g, hI, hpost⟩ := hinit
    exact ⟨g, hI, hpost⟩
  · rintro w a w' ⟨g, hw⟩ hok hs
    cases a with
    | call t c =>
      obtain ⟨hidle, hw'⟩ := Option.ite_none_right_eq_some.mp hs
      cases hw'
      obtain ⟨a, ha⟩ := nextOp_eq_none hidle
      have hpost : post (g t) a := by
        have hk := hw.keeps t
        rwa [ha] at hk
      obtain ⟨h', hI, hp⟩ := hcall w g t c a hw ha hpost hok
      exact ⟨_, hI, keeps_update hw.keeps hp⟩
    | next t e =>
      obtain ⟨⟨s, p⟩, hadv, rfl⟩ := Option.map_eq_some_iff.mp hs
      obtain ⟨o, rest, r, hrest, hrun, rfl⟩ := advance_eq_some.mp hadv
      have hk := hw.keeps t
      rw [hrest] at hk
      obtain ⟨h', hr, hI⟩ := hnext w g t e o rest s r hw hrest hk.1 hok hrun
      exact ⟨_, hI, keeps_update hw.keeps (hk.2 r h' hr)⟩

end Machine

end LuaRtos
