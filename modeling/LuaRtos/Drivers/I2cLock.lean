/-
  LuaRtos.Drivers.I2cLock

  The mutexes of the I2C units, over the calls of any number of threads.

  The helpers of `i2c_start`, `i2c_stop` and `i2c_flush` unlock on their own errors,
  and so do the callers, so that these errors unlock once more than they lock.
  `i2c_flush` does not lock at all.  Without these errors, and with `i2c_flush` alone
  on its unit, every call gives back what it takes, and one thread at a time is
  inside a unit.
-/

import LuaRtos.Drivers.I2c
import Mathlib.Data.Fintype.Basic

namespace LuaRtos.I2c

open CLib Rtos Sys

/-! ## Inside a unit -/

/-- The unit on which an operation executes commands. -/
def Op.executes : Op → Option Int
  | cmdBegin u _ => some u
  | _ => none

/-- The unit on which a program executes commands next. -/
def nextUnit {α : Type} (p : I2cProg α) : Option Int := p.nextOp.bind Op.executes

section Conditions

variable {Tid : Type}

/-- A thread is inside a unit while it has taken its mutex, and when it comes to
    execute commands on it. -/
def Inside (w : World Tid) (t : Tid) (u : Int) : Prop :=
  w.state.seen.released t u < w.state.seen.taken t u ∨ nextUnit (w.rest t) = some u

instance (w : World Tid) (t : Tid) (u : Int) : Decidable (Inside w t u) :=
  inferInstanceAs (Decidable (_ ∨ _))

/-- A thread that is in no call has released every mutex as often as it took it, and
    at most one thread is inside a unit. -/
structure Exclusive (w : World Tid) : Prop where
  balanced : ∀ t u, (w.rest t).nextOp = none →
    w.state.seen.released t u = w.state.seen.taken t u
  alone : ∀ u t t', Inside w t u → Inside w t' u → t = t'

/-- The calls whose helpers unlock when there is no command. -/
def Call.needsCommand : Call → Bool
  | start _ _ => true
  | flush _ _ _ => true
  | _ => false

/-- The command that `list_get` finds. -/
def found (s : Bus Tid) (i : Int) : Option Nat :=
  (Sys.listGet s.transactions i).toOption.bind fun r => if r.1 = .success then r.2 else none

/-- `i2c_start` and `i2c_flush` find a command or make one; no execution ends with an
    acknowledge missing or a timeout; and `i2c_flush` comes to the unit while nobody is
    inside, and nobody takes its mutex until it has executed. -/
def CalmAt (w : World Tid) (t : Tid) (env : Env) : I2cProg (Option I2cErr) → Prop
  | .op (.listGet i) rest =>
    (∀ c ∈ w.state.seen.current t, c.1.needsCommand → (found w.state i).isSome) ∧
      ∀ cmd ∈ found w.state i, ∀ u ∈ nextUnit (rest (some cmd)), ∀ t', ¬ Inside w t' u
  | .op .linkCreate _ => env.link.isSome
  | .op (.listAdd cmd _) _ =>
    ∀ r ∈ (Sys.listAdd w.state.transactions cmd env.malloc).toOption, r.ret = .success
  | .op (.cmdBegin _ _) _ => env.err ≠ .fail ∧ env.err ≠ .timeout
  | .op (.lock u) _ => ∀ t', nextUnit (w.rest t') ≠ some u
  | _ => True

def Calm (w : World Tid) : Act Tid → Prop
  | .call _ _ => True
  | .next t env => CalmAt w t env (w.rest t)

end Conditions

/-! ## What a thread holds -/

/-- What a thread knows: its call, the mutex it has taken, and the unit that
    `i2c_flush` comes to, until it has executed. -/
structure Hold where
  call : Option Call
  held : Option Int
  flushing : Option Int
  flushed : Bool

/-- What a thread in no call knows. -/
def Hold.idle : Hold := ⟨none, none, none, false⟩

def Call.flushes : Call → Option Int
  | flush u _ _ => some u
  | _ => none

def Hold.may (h : Hold) (o : Op) : Prop :=
  (∀ u, h.flushing = some u → o.executes = some u) ∧
    match o with
    | .lock _ => h.held = none
    | .unlock u => h.held = some u
    | .cmdBegin u _ => h.held = some u ∨ h.flushing = some u
    | _ => True

def Hold.replies (h : Hold) : (o : Op) → o.Reply → Prop
  | .listGet _, (r : Option Nat) => (∃ c ∈ h.call, c.needsCommand) → r ≠ none
  | .linkCreate, (r : Option Nat) => r ≠ none
  | .listAdd _ _, (r : Bool) => r = true
  | .cmdBegin _ _, (r : EspErr) => r ≠ .fail ∧ r ≠ .timeout
  | _, _ => True

/-- The first command that a thread gets in `i2c_flush` is what it executes. -/
def Hold.gets (h : Hold) : Hold :=
  if h.flushed then h
  else match h.call.bind Call.flushes with
    | none => h
    | some u => { h with flushing := some u, flushed := true }

def Hold.next (h : Hold) : (o : Op) → o.Reply → Hold
  | .invoke c, _ => { h with call := some c }
  | .returns _, _ => { h with call := none }
  | .lock u, _ => { h with held := some u }
  | .unlock _, _ => { h with held := none }
  | .listGet _, _ => h.gets
  | .cmdBegin _ _, _ => { h with flushing := none }
  | _, _ => h

def holding : Contract Hold Op Op.Reply where
  may := Hold.may
  learns h o r h' := h.replies o r ∧ h.next o r = h'

/-- Nothing is held. -/
def Hold.Free (h : Hold) (_ : Option I2cErr) : Prop := h.held = none ∧ h.flushing = none

/-- A call has ended. -/
def Hold.Ended (h : Hold) (_ : Option I2cErr) : Prop :=
  h.call = none ∧ h.held = none ∧ h.flushing = none

/-! ## The calls keep to it -/

section Programs

variable {h : Hold} {u : Int} {v : Nat}

theorem Hold.step {o : Op} {P : o.Reply → Hold → Prop} (hmay : h.may o)
    (hr : ∀ r, h.replies o r → P r (h.next o r)) :
    holding.may h o ∧ ∀ r h', holding.learns h o r h' → P r h' := by
  refine ⟨hmay, ?_⟩
  rintro r h' ⟨hreply, rfl⟩
  exact hr r hreply

theorem Hold.quiet (hf : h.flushing = none) {o : Op} :
    ∀ u, h.flushing = some u → o.executes = some u := by
  intro u hu
  rw [hf] at hu
  cases hu

theorem Hold.gets_of_flushes (hcall : h.call.bind Call.flushes = none) : h.gets = h := by
  unfold Hold.gets
  rw [hcall]
  split
  · rfl
  · rfl

theorem keeps_i2cCheck {post : Hold → Option I2cErr → Prop} (hf : h.flushing = none)
    (hpost : ∀ e, post h e) : (i2cCheck u).Keeps holding post h := by
  unfold i2cCheck
  split
  · exact Hold.step ⟨h.quiet hf, trivial⟩ fun r => r.elim
  · split
    · exact Hold.step ⟨h.quiet hf, trivial⟩ fun e _ => hpost e
    · refine keeps_unitAt.mpr <| Hold.step ⟨h.quiet hf, trivial⟩ fun i2c _ => ?_
      split
      · exact hpost none
      · exact Hold.step ⟨h.quiet hf, trivial⟩ fun e _ => hpost e

theorem keeps_i2cLocked {post : Hold → Option I2cErr → Prop} {body : I2cProg (Option I2cErr)}
    (hh : h.held = none) (hf : h.flushing = none) (hpost : ∀ e, post h e)
    (hbody : body.Keeps holding post { h with held := some u }) :
    (i2cLocked u body).Keeps holding post h := by
  apply Prog.keeps_bind.mpr
  apply keeps_i2cCheck hf
  intro e
  cases e with
  | some e => exact hpost (some e)
  | none =>
    refine keeps_unitAt.mpr <| Hold.step ⟨h.quiet hf, trivial⟩ fun i2c _ => ?_
    split
    · exact Hold.step ⟨h.quiet hf, trivial⟩ fun e _ => hpost e
    · exact Hold.step ⟨h.quiet hf, hh⟩ fun _ _ => hbody

/-- A call that unlocks itself where there is no command. -/
theorem keeps_withCommand {post : Hold → Option I2cErr → Prop}
    {body : Nat → I2cProg (Option I2cErr)} (hh : h.held = some u) (hf : h.flushing = none)
    (hcall : h.call.bind Call.flushes = none) (hpost : ∀ e, post { h with held := none } e)
    (hbody : ∀ cmd, (body cmd).Keeps holding post h) :
    (withCommand u v body).Keeps holding post h := by
  refine Hold.step ⟨h.quiet hf, trivial⟩ fun i _ => Hold.step ⟨h.quiet hf, trivial⟩ fun r _ => ?_
  have hgets : Hold.next (Hold.next h (.transaction v) i) (.listGet i) r = h :=
    Hold.gets_of_flushes hcall
  rw [hgets]
  cases r with
  | some cmd => exact hbody cmd
  | none =>
    exact Hold.step ⟨h.quiet hf, hh⟩ fun _ _ =>
      Hold.step ⟨Hold.quiet hf, trivial⟩ fun e _ => hpost e

/-- A call that gets a command. -/
theorem keeps_i2cGetCommand {post : Hold → Option I2cErr × Option Nat → Prop}
    (hf : h.flushing = none) (hneeds : ∃ c ∈ h.call, c.needsCommand)
    (hpost : ∀ cmd, post h.gets (none, some cmd)) :
    (i2cGetCommand u v).Keeps holding post h := by
  refine Hold.step ⟨h.quiet hf, trivial⟩ fun i _ => Hold.step ⟨h.quiet hf, trivial⟩ fun r hr => ?_
  cases r with
  | some cmd => exact hpost cmd
  | none => exact absurd rfl (hr hneeds)

theorem keeps_i2cCreateOrGetCommand {post : Hold → Option I2cErr × Option Nat → Prop}
    (hf : h.flushing = none) (hneeds : ∃ c ∈ h.call, c.needsCommand) (hgets : h.gets = h)
    (hpost : ∀ cmd, post h (none, some cmd)) :
    (i2cCreateOrGetCommand u v).Keeps holding post h := by
  refine keeps_getTransaction.mpr <| Hold.step ⟨h.quiet hf, trivial⟩ fun i _ => ?_
  split
  · apply keeps_i2cGetCommand hf hneeds
    intro cmd
    show post h.gets (none, some cmd)
    rw [hgets]
    exact hpost cmd
  · refine Hold.step ⟨h.quiet hf, trivial⟩ fun r hr => ?_
    cases r with
    | none => exact absurd rfl hr
    | some cmd =>
      refine Hold.step ⟨h.quiet hf, trivial⟩ fun added hadded => ?_
      obtain rfl : added = true := hadded
      exact hpost cmd

/-- Without an error of the bus nothing is unlocked. -/
theorem keeps_i2cFlushInternal {post : Hold → Option I2cErr → Prop} {cmd : Option Nat}
    (hunit : h.held = some u ∨ h.flushing = some u)
    (honly : ∀ u', h.flushing = some u' → some u = some u')
    (hpost : post { h with flushing := none } none) :
    (i2cFlushInternal u v cmd).Keeps holding post h := by
  have hquiet : ∀ {o : Op} (u' : Int),
      ({ h with flushing := none } : Hold).flushing = some u' → o.executes = some u' :=
    Hold.quiet rfl
  refine keeps_i2cMasterCmdBegin.mpr <| Hold.step ⟨honly, hunit⟩ fun err herr => ?_
  rw [if_neg herr.1, if_neg herr.2]
  exact Hold.step ⟨hquiet, trivial⟩ fun _ _ => Hold.step ⟨hquiet, trivial⟩ fun _ _ =>
    Hold.step ⟨hquiet, trivial⟩ fun _ _ => Hold.step ⟨hquiet, trivial⟩ fun _ _ => hpost

/-- The end of a call that has done its work. -/
theorem keeps_unlocks (hh : h.held = some u) (hf : h.flushing = none) {e : Option I2cErr} :
    (do mtxUnlock u; pure e : I2cProg (Option I2cErr)).Keeps holding Hold.Free h :=
  Hold.step ⟨h.quiet hf, hh⟩ fun _ _ => ⟨rfl, hf⟩

theorem keeps_i2cStart {c : Call} (hneeds : c.needsCommand) (hflushes : c.flushes = none) :
    (i2cStart u v).Keeps holding Hold.Free ⟨some c, none, none, false⟩ := by
  apply keeps_i2cLocked rfl rfl fun _ => ⟨rfl, rfl⟩
  apply Prog.keeps_bind.mpr
  have hgets : Hold.gets ⟨some c, some u, none, false⟩ = ⟨some c, some u, none, false⟩ :=
    Hold.gets_of_flushes hflushes
  apply keeps_i2cCreateOrGetCommand rfl ⟨c, rfl, hneeds⟩ hgets
  intro cmd
  exact Hold.step ⟨Hold.quiet rfl, trivial⟩ fun _ _ => keeps_unlocks rfl rfl

theorem keeps_i2cStop {c : Call} (hflushes : c.flushes = none) :
    (i2cStop u v).Keeps holding Hold.Free ⟨some c, none, none, false⟩ := by
  apply keeps_i2cLocked rfl rfl fun _ => ⟨rfl, rfl⟩
  have hcall : (some c).bind Call.flushes = none := hflushes
  apply keeps_withCommand rfl rfl hcall fun _ => ⟨rfl, rfl⟩
  intro cmd
  refine Prog.keeps_then.mpr <| Hold.step ⟨Hold.quiet rfl, trivial⟩ fun _ _ => ?_
  apply Prog.keeps_bind.mpr
  have honly : ∀ u', Hold.flushing ⟨some c, some u, none, false⟩ = some u' → some u = some u' := by
    intro u' hu
    cases hu
  apply keeps_i2cFlushInternal (.inl rfl) honly
  exact keeps_unlocks rfl rfl

/-- `i2c_flush` has nothing locked, and unlocks nothing. -/
theorem keeps_i2cFlush {newTransaction : Bool} : (i2cFlush u v newTransaction).Keeps holding
    Hold.Free ⟨some (.flush u v newTransaction), none, none, false⟩ := by
  have hneeds : ∃ c ∈ some (Call.flush u v newTransaction), c.needsCommand := ⟨_, rfl, rfl⟩
  apply Prog.keeps_bind.mpr
  apply keeps_i2cGetCommand rfl hneeds
  intro cmd
  apply Prog.keeps_bind.mpr
  apply keeps_i2cFlushInternal (.inr rfl) fun _ hu => hu
  dsimp only
  split
  · apply Prog.keeps_bind.mpr
    apply keeps_i2cCreateOrGetCommand rfl hneeds rfl
    intro cmd
    exact ⟨rfl, rfl⟩
  · exact ⟨rfl, rfl⟩

theorem keeps_body (c : Call) : c.body.Keeps holding Hold.Free ⟨some c, none, none, false⟩ := by
  cases c with
  | start u v => exact keeps_i2cStart rfl rfl
  | stop u v => exact keeps_i2cStop rfl
  | flush u v newTransaction => exact keeps_i2cFlush
  | writeAddress u v address isRead =>
    apply keeps_i2cLocked rfl rfl fun _ => ⟨rfl, rfl⟩
    apply keeps_withCommand rfl rfl rfl fun _ => ⟨rfl, rfl⟩
    intro cmd
    exact Hold.step ⟨Hold.quiet rfl, trivial⟩ fun _ _ => keeps_unlocks rfl rfl
  | write u v data len =>
    apply keeps_i2cLocked rfl rfl fun _ => ⟨rfl, rfl⟩
    apply keeps_withCommand rfl rfl rfl fun _ => ⟨rfl, rfl⟩
    intro cmd
    split
    · exact Hold.step ⟨Hold.quiet rfl, trivial⟩ fun _ _ => keeps_unlocks rfl rfl
    · exact Hold.step ⟨Hold.quiet rfl, trivial⟩ fun _ _ =>
        Hold.step ⟨Hold.quiet rfl, trivial⟩ fun _ _ => keeps_unlocks rfl rfl
  | read u v data len =>
    apply keeps_i2cLocked rfl rfl fun _ => ⟨rfl, rfl⟩
    apply keeps_withCommand rfl rfl rfl fun _ => ⟨rfl, rfl⟩
    intro cmd
    split
    · exact Hold.step ⟨Hold.quiet rfl, trivial⟩ fun _ _ =>
        Hold.step ⟨Hold.quiet rfl, trivial⟩ fun _ _ => keeps_unlocks rfl rfl
    · exact Hold.step ⟨Hold.quiet rfl, trivial⟩ fun _ _ => keeps_unlocks rfl rfl

/-- Every call keeps to the contract, and holds nothing when it has ended. -/
theorem keeps_program (c : Call) : c.program.Keeps holding Hold.Ended .idle := by
  refine Prog.keeps_then.mpr <| Hold.step ⟨Hold.quiet rfl, trivial⟩ fun _ _ => ?_
  apply Prog.keeps_bind.mpr
  have hbody : c.body.Keeps holding Hold.Free ⟨some c, none, none, false⟩ := keeps_body c
  apply hbody.mono
  intro h e hfree
  exact Hold.step ⟨h.quiet hfree.2, trivial⟩ fun _ _ => ⟨rfl, hfree⟩

end Programs

/-! ## The steps -/

section Steps

variable {Tid : Type} {s s' : Bus Tid} {t : Tid} {env : Env}

/-- Nothing of the mutexes and the calls has changed. -/
structure SameLocks (s s' : Bus Tid) : Prop where
  mtx : s'.mtx = s.mtx
  taken : s'.seen.taken = s.seen.taken
  released : s'.seen.released = s.seen.released
  current : s'.seen.current = s.seen.current

theorem SameLocks.refl (s : Bus Tid) : SameLocks s s := ⟨rfl, rfl, rfl, rfl⟩

theorem linkCreate_sameLocks {p p' : Option Nat} (h : s.linkCreate p = some (s', p')) :
    SameLocks s s' := by
  unfold Bus.linkCreate at h
  split at h
  · cases h
    exact .refl s
  · obtain ⟨-, h⟩ := Option.ite_none_right_eq_some.mp h
    cases h
    exact ⟨rfl, rfl, rfl, rfl⟩

theorem linkDelete_sameLocks {p : Option Nat} (h : s.linkDelete p = .ok s') :
    SameLocks s s' := by
  unfold Bus.linkDelete at h
  split at h
  · cases h
    exact .refl s
  · obtain ⟨l, -, h⟩ := bind_eq_ok.mp h
    cases h
    exact ⟨rfl, rfl, rfl, rfl⟩

theorem queue_sameLocks {queued : Bool} {c : Cmd} {p : Option Nat}
    (h : s.queue queued c p = .ok s') : SameLocks s s' := by
  unfold Bus.queue at h
  split at h
  · cases h
    exact .refl s
  · obtain ⟨l, -, h⟩ := bind_eq_ok.mp h
    cases h
    split
    · exact ⟨rfl, rfl, rfl, rfl⟩
    · exact .refl s

theorem cmdBegin_sameLocks [DecidableEq Tid] {u : Int} {p : Option Nat} {err : EspErr}
    (h : s.cmdBegin t env u p = .ok (s', err)) : SameLocks s s' := by
  unfold Bus.cmdBegin at h
  split at h
  · cases h
    exact .refl s
  · obtain ⟨l, -, h⟩ := bind_eq_ok.mp h
    cases h
    exact ⟨rfl, rfl, rfl, rfl⟩

theorem sem_eq_ok {u : Int} {m : Semaphore Unit} (h : s.sem u = .ok m) : s.mtx u = some m := by
  unfold Bus.sem at h
  obtain ⟨-, -, h⟩ := bind_eq_ok.mp h
  split at h
  · cases h
  · next hm =>
    cases h
    exact hm

variable [DecidableEq Tid]

/-- The operations that are not about the mutexes and the calls. -/
def Op.others : Op → Bool
  | invoke _ => false
  | returns _ => false
  | lock _ => false
  | unlock _ => false
  | _ => true

theorem run_sameLocks {o : Op} {r : o.Reply} (ho : o.others)
    (h : s.run t env o = .ok (some (s', r))) : SameLocks s s' := by
  cases o with
  | invoke c => cases ho
  | returns e => cases ho
  | lock u => cases ho
  | unlock u => cases ho
  | fault f => cases h
  | unit u =>
    obtain ⟨-, -, h⟩ := bind_eq_ok.mp h
    cases h
    exact .refl s
  | operationError e =>
    cases h
    exact .refl s
  | transaction v =>
    cases h
    exact .refl s
  | setTransaction v i =>
    cases h
    exact ⟨rfl, rfl, rfl, rfl⟩
  | listGet i =>
    obtain ⟨q, hq, h⟩ := bind_eq_ok.mp h
    cases h
    exact .refl s
  | listAdd cmd v =>
    obtain ⟨q, hq, h⟩ := bind_eq_ok.mp h
    obtain ⟨q', hq', hq⟩ := bind_eq_ok.mp hq
    cases hq
    cases h
    exact ⟨rfl, rfl, rfl, rfl⟩
  | listRemove i =>
    obtain ⟨q, hq, h⟩ := bind_eq_ok.mp h
    cases h
    exact ⟨rfl, rfl, rfl, rfl⟩
  | linkCreate => exact linkCreate_sameLocks (Except.ok.inj h)
  | linkDelete cmd =>
    obtain ⟨s₁, hs, h⟩ := bind_eq_ok.mp h
    cases h
    exact linkDelete_sameLocks hs
  | queue cmd c =>
    obtain ⟨s₁, hs, h⟩ := bind_eq_ok.mp h
    cases h
    exact queue_sameLocks hs
  | load data =>
    cases h
    exact .refl s
  | cmdBegin u cmd =>
    obtain ⟨⟨s₁, err⟩, hs, h⟩ := bind_eq_ok.mp h
    cases h
    exact cmdBegin_sameLocks hs

end Steps

/-! ## What the threads hold together -/

/-- A thread is inside a unit. -/
def Hold.inside (h : Hold) (u : Int) : Prop := h.held = some u ∨ h.flushing = some u

/-- The counts are those of the mutexes that are held, a mutex that is held is not
    available, and one thread at a time is inside. -/
structure Agrees {Tid : Type} (s : Bus Tid) (g : Tid → Hold) : Prop where
  call : ∀ t, (s.seen.current t).map Prod.fst = (g t).call
  count : ∀ t u, s.seen.taken t u = s.seen.released t u + if (g t).held = some u then 1 else 0
  mutex : ∀ t u m, (g t).held = some u → s.mtx u = some m → m.available = false
  alone : ∀ u t t', (g t).inside u → (g t').inside u → t = t'

section Agreement

variable {Tid : Type} [DecidableEq Tid] {s s' : Bus Tid} {g : Tid → Hold} {t : Tid} {h' : Hold}
variable {w : World Tid} {u : Int}

omit [DecidableEq Tid] in
theorem Agrees.init (unit : Int → Driver.I2cUnit) :
    Agrees (i2cInit Tid unit) fun _ => Hold.idle where
  call _ := rfl
  count _ _ := rfl
  mutex t u m hheld _ := by cases hheld
  alone u t t' ht _ := by
    rcases ht with ht | ht
    · cases ht
    · cases ht

/-- A step that leaves the mutexes alone, after which its thread is inside a unit only
    where it was, or where nobody was. -/
theorem Agrees.move (ha : Agrees s g) (hmtx : s'.mtx = s.mtx)
    (htaken : s'.seen.taken = s.seen.taken) (hreleased : s'.seen.released = s.seen.released)
    (hcall : ∀ t', (s'.seen.current t').map Prod.fst = (Function.update g t h' t').call)
    (hheld : h'.held = (g t).held)
    (hflushing : ∀ u, h'.flushing = some u →
      (g t).flushing = some u ∨ ∀ t', ¬ (g t').inside u) :
    Agrees s' (Function.update g t h') := by
  have hsame : ∀ t', (Function.update g t h' t').held = (g t').held := by
    intro t'
    by_cases ht : t' = t
    · subst ht
      rw [Function.update_self, hheld]
    · rw [Function.update_of_ne ht]
  have hinside : ∀ u t', (Function.update g t h' t').inside u →
      (g t').inside u ∨ t' = t ∧ ∀ t'', ¬ (g t'').inside u := by
    intro u t' hin
    by_cases ht : t' = t
    · subst ht
      rw [Function.update_self] at hin
      rcases hin with hin | hin
      · exact .inl (.inl (hheld ▸ hin))
      · rcases hflushing u hin with hold | hnone
        · exact .inl (.inr hold)
        · exact .inr ⟨rfl, hnone⟩
    · rw [Function.update_of_ne ht] at hin
      exact .inl hin
  refine ⟨hcall, ?_, ?_, ?_⟩
  · intro t' u
    rw [htaken, hreleased, hsame]
    exact ha.count t' u
  · intro t' u m hm
    rw [hmtx]
    rw [hsame] at hm
    exact ha.mutex t' u m hm
  · intro u t₁ t₂ h₁ h₂
    rcases hinside u t₁ h₁ with k₁ | ⟨rfl, hnone⟩
    · rcases hinside u t₂ h₂ with k₂ | ⟨rfl, hnone⟩
      · exact ha.alone u t₁ t₂ k₁ k₂
      · exact absurd k₁ (hnone t₁)
    · rcases hinside u t₂ h₂ with k₂ | ⟨rfl, -⟩
      · exact absurd k₂ (hnone t₂)
      · rfl

/-- An operation that is not about the mutexes and the calls. -/
theorem Agrees.others (ha : Agrees s g) (hs : SameLocks s s') (hcall : h'.call = (g t).call)
    (hheld : h'.held = (g t).held)
    (hflushing : ∀ u, h'.flushing = some u →
      (g t).flushing = some u ∨ ∀ t', ¬ (g t').inside u) :
    Agrees s' (Function.update g t h') := by
  apply ha.move hs.mtx hs.taken hs.released _ hheld hflushing
  intro t'
  rw [hs.current, ha.call]
  by_cases ht : t' = t
  · subst ht
    rw [Function.update_self, hcall]
  · rw [Function.update_of_ne ht]

theorem Agrees.lock (ha : Agrees s g) (hnone : (g t).held = none)
    (hothers : ∀ t', (g t').flushing ≠ some u) (hr : s.lock t u = .ok (some s')) :
    Agrees s' (Function.update g t { g t with held := some u }) := by
  obtain ⟨m, hm, hr⟩ := bind_eq_ok.mp hr
  obtain ⟨m', htake, hs⟩ := Option.map_eq_some_iff.mp (Except.ok.inj hr)
  obtain ⟨havail, rfl⟩ := xSemaphoreTake_eq_some.mp htake
  have hmtx : s.mtx u = some m := sem_eq_ok hm
  subst hs
  -- the mutex was available, so that nobody was inside
  have hout : ∀ t', ¬ (g t').inside u := by
    rintro t' (hheld | hflushing)
    · cases havail.symm.trans (ha.mutex t' u m hheld hmtx)
    · exact hothers t' hflushing
  refine ⟨?_, ?_, ?_, ?_⟩
  · intro t'
    rw [ha.call]
    by_cases ht : t' = t
    · subst ht
      rw [Function.update_self]
    · rw [Function.update_of_ne ht]
  · intro t' u'
    have hcount := ha.count t' u'
    by_cases ht : t' = t
    · subst ht
      rw [hnone] at hcount
      by_cases hu : u' = u
      · subst hu
        simpa using hcount
      · simpa [hu, Ne.symm hu] using hcount
    · simpa [ht] using hcount
  · intro t' u' m' hheld hm'
    by_cases ht : t' = t
    · subst ht
      rw [Function.update_self] at hheld
      cases hheld
      dsimp only at hm'
      rw [Function.update_self] at hm'
      cases hm'
      rfl
    · rw [Function.update_of_ne ht] at hheld
      by_cases hu : u' = u
      · subst hu
        exact absurd (.inl hheld) (hout t')
      · dsimp only at hm'
        rw [Function.update_of_ne hu] at hm'
        exact ha.mutex t' u' m' hheld hm'
  · have hinside : ∀ u' t', (Function.update g t { g t with held := some u } t').inside u' →
        (g t').inside u' ∨ t' = t ∧ u' = u := by
      intro u' t' hin
      by_cases ht : t' = t
      · subst ht
        rw [Function.update_self] at hin
        rcases hin with hin | hin
        · cases hin
          exact .inr ⟨rfl, rfl⟩
        · exact .inl (.inr hin)
      · rw [Function.update_of_ne ht] at hin
        exact .inl hin
    intro u' t₁ t₂ h₁ h₂
    rcases hinside u' t₁ h₁ with k₁ | ⟨rfl, rfl⟩
    · rcases hinside u' t₂ h₂ with k₂ | ⟨rfl, rfl⟩
      · exact ha.alone u' t₁ t₂ k₁ k₂
      · exact absurd k₁ (hout t₁)
    · rcases hinside u' t₂ h₂ with k₂ | ⟨rfl, -⟩
      · exact absurd k₂ (hout t₂)
      · rfl

theorem Agrees.unlock (ha : Agrees s g) (hheld : (g t).held = some u)
    (hr : s.unlock t u = .ok s') :
    Agrees s' (Function.update g t { g t with held := none }) := by
  obtain ⟨m, hm, hr⟩ := bind_eq_ok.mp hr
  obtain rfl := Except.ok.inj hr
  have hinside : ∀ u' t', (Function.update g t { g t with held := none } t').inside u' →
      (g t').inside u' := by
    intro u' t' hin
    by_cases ht : t' = t
    · subst ht
      rw [Function.update_self] at hin
      rcases hin with hin | hin
      · cases hin
      · exact .inr hin
    · rwa [Function.update_of_ne ht] at hin
  refine ⟨?_, ?_, ?_, ?_⟩
  · intro t'
    rw [ha.call]
    by_cases ht : t' = t
    · subst ht
      rw [Function.update_self]
    · rw [Function.update_of_ne ht]
  · intro t' u'
    have hcount := ha.count t' u'
    by_cases ht : t' = t
    · subst ht
      rw [hheld] at hcount
      by_cases hu : u' = u
      · subst hu
        simpa using hcount
      · simpa [hu, Ne.symm hu] using hcount
    · simpa [ht] using hcount
  · intro t' u' m' hheld' hm'
    by_cases ht : t' = t
    · subst ht
      rw [Function.update_self] at hheld'
      cases hheld'
    · rw [Function.update_of_ne ht] at hheld'
      by_cases hu : u' = u
      · subst hu
        exact absurd (ha.alone u' t' t (.inl hheld') (.inl hheld)) ht
      · dsimp only at hm'
        rw [Function.update_of_ne hu] at hm'
        exact ha.mutex t' u' m' hheld' hm'
  · intro u' t₁ t₂ h₁ h₂
    exact ha.alone u' t₁ t₂ (hinside u' t₁ h₁) (hinside u' t₂ h₂)

omit [DecidableEq Tid] in
/-- A thread that flushes a unit comes to execute commands on it. -/
theorem nextUnit_of_flushing (hw : w.Kept holding Hold.Ended Agrees g)
    (hf : (g t).flushing = some u) : nextUnit (w.rest t) = some u := by
  have hkeep := hw.keeps t
  cases hrest : w.rest t with
  | pure a =>
    rw [hrest] at hkeep
    cases hf.symm.trans hkeep.2.2
  | op o rest =>
    rw [hrest] at hkeep
    exact hkeep.1.1 u hf

omit [DecidableEq Tid] in
/-- Who is inside, by what the threads hold. -/
theorem inside_iff (hw : w.Kept holding Hold.Ended Agrees g) :
    Inside w t u ↔ (g t).inside u := by
  have hkeep := hw.keeps t
  have hcount := hw.agree.count t u
  constructor
  · rintro (hlt | hnext)
    · refine .inl ?_
      by_contra hne
      rw [if_neg hne] at hcount
      omega
    · cases hrest : w.rest t with
      | pure a =>
        rw [hrest] at hnext
        cases hnext
      | op o rest =>
        rw [hrest] at hnext hkeep
        have hexec : o.executes = some u := hnext
        cases o with
        | cmdBegin u' cmd =>
          cases hexec
          exact hkeep.1.2
        | _ => cases hexec
  · rintro (hheld | hflushing)
    · rw [if_pos hheld] at hcount
      exact .inl (by omega)
    · exact .inr (nextUnit_of_flushing hw hflushing)

theorem run_found {i : Int} {r : Option Nat} {env : Env}
    (h : s.run t env (.listGet i) = .ok (some (s', r))) : r = found s i := by
  obtain ⟨q, hq, h⟩ := bind_eq_ok.mp h
  cases h
  unfold found
  rw [hq]
  rfl

theorem run_linkCreate {r : Option Nat} {env : Env}
    (h : s.run t env .linkCreate = .ok (some (s', r))) : r = env.link := by
  have hc : s.linkCreate env.link = some (s', r) := Except.ok.inj h
  unfold Bus.linkCreate at hc
  split at hc
  · next hl =>
    cases hc
    exact hl.symm
  · next p hl =>
    obtain ⟨-, hc⟩ := Option.ite_none_right_eq_some.mp hc
    cases hc
    exact hl.symm

theorem run_listAdd {cmd v : Nat} {r : Bool} {env : Env}
    (h : s.run t env (.listAdd cmd v) = .ok (some (s', r))) :
    ∃ q, Sys.listAdd s.transactions cmd env.malloc = .ok q ∧ r = decide (q.ret = .success) := by
  obtain ⟨b, hb, h⟩ := bind_eq_ok.mp h
  obtain ⟨q, hq, hb⟩ := bind_eq_ok.mp hb
  cases hb
  cases h
  exact ⟨q, hq, rfl⟩

theorem run_cmdBegin {cmd : Option Nat} {r : EspErr} {env : Env}
    (h : s.run t env (.cmdBegin u cmd) = .ok (some (s', r))) : r = .other ∨ r = env.err := by
  obtain ⟨b, hb, h⟩ := bind_eq_ok.mp h
  cases h
  unfold Bus.cmdBegin at hb
  split at hb
  · cases hb
    exact .inl rfl
  · obtain ⟨l, -, hb⟩ := bind_eq_ok.mp hb
    cases hb
    exact .inr rfl

omit [DecidableEq Tid] in
/-- The first command that `i2c_flush` gets is the next it executes. -/
theorem gets_flushing (hw : w.Kept holding Hold.Ended Agrees g) {i : Int} {r : Option Nat}
    {rest : (Op.listGet i).Reply → I2cProg (Option I2cErr)} {env : Env}
    (hrest : w.rest t = .op (.listGet i) rest) (hok : CalmAt w t env (w.rest t))
    (hr : (g t).replies (.listGet i) r) (hfound : r = found w.state i)
    (hu : (g t).gets.flushing = some u) : (g t).flushing = some u ∨ ∀ t', ¬ (g t').inside u := by
  have hkeep := hw.keeps t
  rw [hrest] at hkeep hok
  have hnext := hkeep.2 r _ ⟨hr, rfl⟩
  unfold Hold.gets at hu
  split at hu
  · exact .inl hu
  · next hnot =>
    split at hu
    · exact .inl hu
    · next u' hu' =>
      obtain ⟨c, hc, hflushes⟩ := Option.bind_eq_some_iff.mp hu'
      have hneeds : c.needsCommand = true := by
        cases c with
        | flush u v newTransaction => rfl
        | _ => cases hflushes
      obtain ⟨cmd, rfl⟩ := Option.ne_none_iff_exists'.mp (hr ⟨c, hc, hneeds⟩)
      refine .inr fun t' hin => ?_
      apply hok.2 cmd hfound.symm u _ t' ((inside_iff hw).mpr hin)
      -- the rest of the program starts with the execution
      have hflushing : ((g t).next (.listGet i) (some cmd)).flushing = some u := by
        show (g t).gets.flushing = some u
        unfold Hold.gets
        rw [if_neg hnot, hu']
        exact hu
      cases hprog : rest (some cmd) with
      | pure a =>
        rw [hprog] at hnext
        cases hflushing.symm.trans hnext.2.2
      | op o rest' =>
        rw [hprog] at hnext
        exact hnext.1.1 u hflushing

/-- The reply to an operation is one of the contract, and the threads agree after it. -/
theorem holding_step (hw : w.Kept holding Hold.Ended Agrees g) {env : Env} {o : Op}
    {rest : o.Reply → I2cProg (Option I2cErr)} {r : o.Reply} (hrest : w.rest t = .op o rest)
    (hok : CalmAt w t env (w.rest t)) (hr : w.state.run t env o = .ok (some (s', r))) :
    (g t).replies o r ∧ Agrees s' (Function.update g t ((g t).next o r)) := by
  have hmay : (g t).may o := by
    have hkeep := hw.keeps t
    rw [hrest] at hkeep
    exact hkeep.1
  have hokay := hok
  rw [hrest] at hokay
  -- an operation after which the thread holds what it held
  have hothers : o.others = true → Agrees s' (Function.update g t (g t)) := fun ho =>
    hw.agree.others (run_sameLocks ho hr) rfl rfl fun u hu => .inl hu
  cases o with
  | fault f => exact r.elim
  | unit u => exact ⟨trivial, hothers rfl⟩
  | operationError e => exact ⟨trivial, hothers rfl⟩
  | transaction v => exact ⟨trivial, hothers rfl⟩
  | setTransaction v i => exact ⟨trivial, hothers rfl⟩
  | listRemove i => exact ⟨trivial, hothers rfl⟩
  | linkDelete cmd => exact ⟨trivial, hothers rfl⟩
  | queue cmd c => exact ⟨trivial, hothers rfl⟩
  | load data => exact ⟨trivial, hothers rfl⟩
  | lock u =>
    obtain ⟨p, hp, hr⟩ := bind_eq_ok.mp hr
    obtain ⟨s₁, hs, hr⟩ := Option.map_eq_some_iff.mp (Except.ok.inj hr)
    cases hr
    subst hs
    refine ⟨trivial, hw.agree.lock hmay.2 ?_ hp⟩
    intro t' hflushing
    exact hokay t' (nextUnit_of_flushing hw hflushing)
  | unlock u =>
    obtain ⟨s₁, hs, hr⟩ := bind_eq_ok.mp hr
    cases hr
    exact ⟨trivial, hw.agree.unlock hmay.2 hs⟩
  | invoke c =>
    cases hr
    refine ⟨trivial, hw.agree.move rfl rfl rfl ?_ rfl fun u hu => .inl hu⟩
    intro t'
    by_cases ht : t' = t
    · subst ht
      simp [Hold.next]
    · simpa [ht] using hw.agree.call t'
  | returns e =>
    cases hr
    refine ⟨trivial, hw.agree.move rfl rfl rfl ?_ rfl fun u hu => .inl hu⟩
    intro t'
    by_cases ht : t' = t
    · subst ht
      simp [Hold.next, History.returns]
    · simpa [ht, History.returns] using hw.agree.call t'
  | listGet i =>
    have hfound : r = found w.state i := run_found hr
    have hreply : (g t).replies (.listGet i) r := by
      rintro ⟨c, hc, hneeds⟩
      rw [Option.mem_def, ← hw.agree.call t] at hc
      obtain ⟨q, hq, rfl⟩ := Option.map_eq_some_iff.mp hc
      have hsome := hokay.1 q hq hneeds
      rw [hfound]
      exact Option.isSome_iff_ne_none.mp hsome
    refine ⟨hreply, hw.agree.others (run_sameLocks rfl hr) ?_ ?_ ?_⟩
    · show (g t).gets.call = _
      unfold Hold.gets
      split
      · rfl
      · split
        · rfl
        · rfl
    · show (g t).gets.held = _
      unfold Hold.gets
      split
      · rfl
      · split
        · rfl
        · rfl
    · intro u hu
      exact gets_flushing hw hrest hok hreply hfound hu
  | linkCreate =>
    refine ⟨?_, hothers rfl⟩
    show r ≠ none
    rw [run_linkCreate hr]
    exact Option.isSome_iff_ne_none.mp hokay
  | listAdd cmd v =>
    refine ⟨?_, hothers rfl⟩
    obtain ⟨q, hq, hadded⟩ := run_listAdd hr
    show r = true
    rw [hadded]
    exact decide_eq_true (hokay q (toOption_eq_some.mpr hq))
  | cmdBegin u cmd =>
    refine ⟨?_, hw.agree.others (run_sameLocks rfl hr) rfl rfl ?_⟩
    · rcases run_cmdBegin hr with rfl | rfl
      · exact ⟨by decide, by decide⟩
      · exact hokay
    · intro u' hu'
      cases hu'

/-- In every run in which `i2c_start` and `i2c_flush` find a command or make one, no
    execution fails with a missing acknowledge or a timeout, and `i2c_flush` has its
    unit for itself, every call releases what it takes, and one thread at a time is
    inside a unit. -/
theorem i2c_exclusive {unit : Int → Driver.I2cUnit}
    (h : (threads Tid (i2cInit Tid unit)).Reach Calm w) : Exclusive w := by
  obtain ⟨g, hw⟩ : ∃ g, w.Kept holding Hold.Ended Agrees g := by
    apply Machine.kept _ _ _ h
    · exact ⟨fun _ => .idle, .init unit, fun _ => ⟨rfl, rfl, rfl⟩⟩
    · intro w g t c a hw _ hpost _
      refine ⟨.idle, ?_, keeps_program c⟩
      apply hw.agree.move rfl rfl rfl
      · intro t'
        rw [hw.agree.call]
        by_cases ht : t' = t
        · subst ht
          rw [Function.update_self]
          exact hpost.1
        · rw [Function.update_of_ne ht]
      · exact hpost.2.1.symm
      · intro u hu
        cases hu
    · intro w g t env o rest s' r hw hrest _ hok hrun
      have hq := Option.join_eq_some_iff.mp hrun
      obtain ⟨hr, hagree⟩ := holding_step hw hrest hok (toOption_eq_some.mp hq)
      exact ⟨_, ⟨hr, rfl⟩, hagree⟩
  refine ⟨?_, ?_⟩
  · intro t u hidle
    have hkeep := hw.keeps t
    have hcount := hw.agree.count t u
    cases hrest : w.rest t with
    | pure a =>
      rw [hrest] at hkeep
      rw [hkeep.2.1] at hcount
      simpa using hcount.symm
    | op o rest =>
      rw [hrest] at hidle
      cases hidle
  · intro u t t' ht ht'
    exact hw.agree.alone u t t' ((inside_iff hw).mp ht) ((inside_iff hw).mp ht')

end Agreement

/-! ## Three threads -/

instance {Tid : Type} [Fintype Tid] (w : World Tid) (t : Tid) (env : Env) :
    (p : I2cProg (Option I2cErr)) → Decidable (CalmAt w t env p)
  | .op (.listGet _) _ => inferInstanceAs (Decidable (_ ∧ _))
  | .op .linkCreate _ => inferInstanceAs (Decidable (_ = true))
  | .op (.listAdd _ _) _ => inferInstanceAs (Decidable (∀ _ ∈ _, _))
  | .op (.cmdBegin _ _) _ => inferInstanceAs (Decidable (_ ∧ _))
  | .op (.lock _) _ => inferInstanceAs (Decidable (∀ _, _))
  | .pure _ => .isTrue trivial
  | .op (.invoke _) _ | .op (.returns _) _ | .op (.fault _) _ | .op (.unit _) _
  | .op (.unlock _) _ | .op (.operationError _) _ | .op (.transaction _) _
  | .op (.setTransaction _ _) _ | .op (.listRemove _) _ | .op (.linkDelete _) _
  | .op (.queue _ _) _ | .op (.load _) _ => .isTrue trivial

instance {Tid : Type} [Fintype Tid] (w : World Tid) : (a : Act Tid) → Decidable (Calm w a)
  | .call _ _ => .isTrue trivial
  | .next _ _ => inferInstanceAs (Decidable (CalmAt ..))

/-- Two threads with a transaction each, one of which stops. -/
theorem i2c_exclusive_turns : ∃ w : World (Fin 3), w.state.seen.executed.length = 1 ∧
    w.state.seen.taken 0 0 = 2 ∧ Exclusive w := by
  have hrun : ((callSteps (0 : Fin 3) (.start 0 0) (sampleEnv (some 100)) 4 ++
      callSteps 1 (.start 0 1) (sampleEnv (some 200)) 3 ++
      threadSteps 0 (sampleEnv (some 100)) 6 ++
      threadSteps 1 (sampleEnv (some 200)) 7 ++
      callSteps 0 (.stop 0 0) (sampleEnv none) 14).foldlM
        (Lts.guarded Calm (machine (Fin 3)).step)
        ⟨i2cInit (Fin 3) sampleUnit, fun _ => .pure none⟩).any
      (fun w : World (Fin 3) =>
        decide (w.state.seen.executed.length = 1 ∧ w.state.seen.taken 0 0 = 2)) = true := by
    decide +kernel
  obtain ⟨w, hw, hend⟩ := (Option.any_eq_true ..).mp hrun
  obtain ⟨hexecuted, htaken⟩ := of_decide_eq_true hend
  exact ⟨w, hexecuted, htaken, i2c_exclusive (Lts.Reach.schedule _ hw)⟩

/-- There is no memory for the command link of thread 0, which unlocks twice, and the
    second time while thread 1 is inside, so that thread 2 comes in. -/
theorem i2cStart_unlocks_twice : ∃ w : World (Fin 3),
    (threads (Fin 3) (i2cInit (Fin 3) sampleUnit)).Reach (fun _ _ => True) w ∧
      w.state.seen.taken 0 0 = 1 ∧ w.state.seen.released 0 0 = 2 ∧
      Inside w 1 0 ∧ Inside w 2 0 ∧ ¬ Exclusive w := by
  have hrun : ((callSteps (0 : Fin 3) (.start 0 0) (sampleEnv none) 7 ++
      callSteps 1 (.start 0 1) (sampleEnv none) 4 ++ threadSteps 0 (sampleEnv none) 3 ++
      callSteps 2 (.start 0 2) (sampleEnv none) 4).foldlM
        (Lts.guarded (fun _ _ => True) (machine (Fin 3)).step)
        ⟨i2cInit (Fin 3) sampleUnit, fun _ => .pure none⟩).any
      (fun w : World (Fin 3) => decide (w.state.seen.taken 0 0 = 1 ∧ w.state.seen.released 0 0 = 2 ∧
        Inside w 1 0 ∧ Inside w 2 0)) = true := by
    decide +kernel
  obtain ⟨w, hw, hend⟩ := (Option.any_eq_true ..).mp hrun
  obtain ⟨htaken, hreleased, hone, htwo⟩ := of_decide_eq_true hend
  refine ⟨w, Lts.Reach.schedule _ hw, htaken, hreleased, hone, htwo, ?_⟩
  intro hexclusive
  cases hexclusive.alone 0 1 2 hone htwo

end LuaRtos.I2c
