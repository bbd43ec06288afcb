/-
  LuaRtos.Lua.TryClean

  When `try` keeps its promises: the finally function runs once whatever happened, the catch
  function exactly when the try function failed, an error comes out exactly when catch or
  finally failed, every reference is released once and the stack of the caller is as it was.

  A catch function that fails is the case that breaks it: the function cleans up and raises
  there, so that the finally function does not run.
-/

import LuaRtos.Lua.Try
import Mathlib.Order.Lattice.Nat

namespace LuaRtos.Lua

open LuaRtos.CLib

variable {W : Type}

/-! ## What a run has to do -/

/-- A call of `try`, with the catch and the finally function that are given. -/
structure TryCall where
  tryFunc : Nat
  catchFunc : Option Nat
  finallyFunc : Option Nat
deriving DecidableEq, Repr

/-- The arguments.  A nil stands for a catch function that is not given before a finally
    function that is. -/
def TryCall.args (c : TryCall) : List LuaValue :=
  match c.catchFunc, c.finallyFunc with
  | none, none => [.function c.tryFunc]
  | some f, none => [.function c.tryFunc, .function f]
  | none, some g => [.function c.tryFunc, .nil, .function g]
  | some f, some g => [.function c.tryFunc, .function f, .function g]

/-- The call of `luaB_try`, on the stack of its caller with its own slot on it. -/
def TryCall.start (c : TryCall) (func : LuaValue) (caller : List LuaValue) (g : LuaGlobal W) :
    TryState W :=
  ⟨c.args.reverse ++ func :: caller, caller.length + 1, g, []⟩

def TryEvent.taken? : TryEvent → Option Nat
  | .ref r => some r
  | _ => none

def TryEvent.released? : TryEvent → Option Nat
  | .unref r => some r
  | _ => none

def TryEvent.call? : TryEvent → Option (TryPart × Option LuaValue)
  | .called part error => some (part, error)
  | _ => none

/-- The protected calls of a run, each with the error it ended with. -/
def callsOf (log : List TryEvent) : List (TryPart × Option LuaValue) :=
  log.filterMap TryEvent.call?

/-- A part has run and failed. -/
def Fails (log : List TryEvent) (part : TryPart) : Prop := ∃ e, (part, some e) ∈ callsOf log

/-- The end of a run as it should be. -/
structure TryClean (c : TryCall) (caller : List LuaValue) (r : TryOutcome × TryState W) : Prop where
  tryOnce : ((callsOf r.2.log).map Prod.fst).count .tryFunc = 1
  finallyOnce : ((callsOf r.2.log).map Prod.fst).count .finallyFunc =
    if c.finallyFunc.isSome then 1 else 0
  catchOnce : ((callsOf r.2.log).map Prod.fst).count .catchFunc ≤ 1
  catches : .catchFunc ∈ (callsOf r.2.log).map Prod.fst ↔
    c.catchFunc.isSome ∧ Fails r.2.log .tryFunc
  raises : r.1 ≠ .returned ↔ Fails r.2.log .catchFunc ∨ Fails r.2.log .finallyFunc
  taken : (r.2.log.filterMap TryEvent.taken?).Nodup
  releases : (r.2.log.filterMap TryEvent.released?).Perm (r.2.log.filterMap TryEvent.taken?)
  stack : caller <:+ r.2.stack

/-- The call of `try` ends, and as it should. -/
def TryRight (lua : LuaMachine W) (c : TryCall) (func : LuaValue) (caller : List LuaValue)
    (g : LuaGlobal W) : Prop :=
  ∃ r, luaBTry lua (c.start func caller g) = .ok r ∧ TryClean c caller r

/-! ## The condition -/

/-- The globals after `luaL_ref` of a value. -/
def LuaGlobal.ref (lua : LuaMachine W) (v : LuaValue) (g : LuaGlobal W) : LuaGlobal W :=
  { g with
    registry := g.registry.insert (lua.newRef g.registry) v
    held := insert (lua.newRef g.registry) g.held }

/-- The globals in which the try function is called. -/
def TryCall.globals (lua : LuaMachine W) (c : TryCall) (g : LuaGlobal W) : LuaGlobal W :=
  let g := c.finallyFunc.elim g fun f => g.ref lua (.function f)
  let g := c.catchFunc.elim g fun f => g.ref lua (.function f)
  g.ref lua (.function c.tryFunc)

/-- `luaL_error` can raise the value again: it has a text, with no conversion that takes an
    argument. -/
def Raisable (lua : LuaMachine W) (e : LuaValue) : Prop :=
  ∃ msg, luaLError (e.text lua.numberText) = .ok msg

/-- The finally function does not fail with a value that cannot be raised. -/
def FinallyFits (lua : LuaMachine W) (c : TryCall) (g : LuaGlobal W) : Prop :=
  ∀ f e, c.finallyFunc = some f → (lua.call (.function f) [] g).1 = some e → Raisable lua e

/-- The catch function, called with the parts of the message, does not fail before a finally
    function, nor with a value that cannot be raised. -/
def CatchFits (lua : LuaMachine W) (c : TryCall) (f : Nat) (parts : ErrorParts)
    (g : LuaGlobal W) : Prop :=
  let r := lua.call (.function f) parts.args g
  (r.1 = none → FinallyFits lua c r.2) ∧
    ∀ e, r.1 = some e → c.finallyFunc = none ∧ Raisable lua e

/-- The functions given fit: an error of the try function comes with no finally function where
    no catch function is given; else it can be parsed, and the catch function fits. -/
def TryFits (lua : LuaMachine W) (c : TryCall) (g : LuaGlobal W) : Prop :=
  let r := lua.call (.function c.tryFunc) [] g
  (r.1 = none → FinallyFits lua c r.2) ∧
    ∀ e, r.1 = some e →
      (c.catchFunc = none → c.finallyFunc = none) ∧
        ∀ f, c.catchFunc = some f → ∃ msg parts, e.text lua.numberText = some msg ∧
          parseError (msg ++ [nul]) = .ok parts ∧ CatchFits lua c f parts r.2

/-! ## References -/

/-- The reference leads to the function, and is held. -/
def Holds (g : LuaGlobal W) (ref : LuaRef) (f : Nat) : Prop :=
  ∃ r, ref = .ref r ∧ r ∈ g.held ∧ g.registry.lookup r = some (.function f)

theorem Holds.call {lua : LuaMachine W} {g : LuaGlobal W} {ref : LuaRef} {f : Nat}
    (h : Holds g ref f) (v : LuaValue) (args : List LuaValue) :
    Holds (lua.call v args g).2 ref f := by
  obtain ⟨r, rfl, hheld, hlookup⟩ := h
  refine ⟨r, rfl, ?_, ?_⟩
  · rw [lua.call_held]
    exact hheld
  · rw [lua.call_keeps v args g r hheld]
    exact hlookup

theorem Holds.ref_self (lua : LuaMachine W) (g : LuaGlobal W) (f : Nat) :
    Holds (g.ref lua (.function f)) (.ref (lua.newRef g.registry)) f :=
  ⟨_, rfl, Finset.mem_insert_self _ _, Finmap.lookup_insert _⟩

theorem newRef_ne (lua : LuaMachine W) (g : LuaGlobal W) {r : Nat} (hr : r ∈ g.registry) :
    r ≠ lua.newRef g.registry := by
  rintro rfl
  exact lua.newRef_fresh _ hr

theorem Holds.mem {g : LuaGlobal W} {r f : Nat} (h : Holds g (.ref r) f) : r ∈ g.registry := by
  obtain ⟨r', heq, -, hlookup⟩ := h
  cases heq
  exact Finmap.mem_iff.mpr ⟨_, hlookup⟩

/-- A later reference leaves it. -/
theorem Holds.ref {lua : LuaMachine W} {g : LuaGlobal W} {ref : LuaRef} {f : Nat}
    (h : Holds g ref f) (v : LuaValue) : Holds (g.ref lua v) ref f := by
  obtain ⟨r, rfl, hheld, hlookup⟩ := h
  have hne := newRef_ne lua g (Finmap.mem_iff.mpr ⟨_, hlookup⟩)
  refine ⟨r, rfl, Finset.mem_insert_of_mem hheld, ?_⟩
  rw [LuaGlobal.ref, Finmap.lookup_insert_of_ne _ hne]
  exact hlookup

/-- The references of a call. -/
structure TryRefs.Hold (refs : TryRefs) (c : TryCall) (g : LuaGlobal W) : Prop where
  tryFunc : Holds g refs.tryFunc c.tryFunc
  catchFunc : ∀ f, c.catchFunc = some f → Holds g refs.catchFunc f
  finallyFunc : ∀ f, c.finallyFunc = some f → Holds g refs.finallyFunc f
  noCatch : c.catchFunc = none →
    refs.catchFunc = if c.finallyFunc.isSome then .refNil else .noRef
  noFinally : c.finallyFunc = none → refs.finallyFunc = .noRef

theorem TryRefs.Hold.call (lua : LuaMachine W) {refs : TryRefs} {c : TryCall} {g : LuaGlobal W}
    (h : refs.Hold c g) (v : LuaValue) (args : List LuaValue) :
    refs.Hold c (lua.call v args g).2 where
  tryFunc := h.tryFunc.call v args
  catchFunc f hf := (h.catchFunc f hf).call v args
  finallyFunc f hf := (h.finallyFunc f hf).call v args
  noCatch := h.noCatch
  noFinally := h.noFinally

/-- The number of a reference. -/
def LuaRef.number? : LuaRef → Option Nat
  | .ref r => some r
  | _ => none

/-- The references as they are taken. -/
def TryRefs.numbers (refs : TryRefs) : List Nat :=
  refs.finallyFunc.number?.toList ++
    (refs.catchFunc.number?.toList ++ refs.tryFunc.number?.toList)

/-- The references as they are released. -/
def TryRefs.released (refs : TryRefs) : List Nat :=
  refs.tryFunc.number?.toList ++
    (refs.catchFunc.number?.toList ++ refs.finallyFunc.number?.toList)

theorem TryRefs.released_perm (refs : TryRefs) : refs.released.Perm refs.numbers := by
  unfold TryRefs.released TryRefs.numbers
  apply List.perm_append_comm.trans
  rw [List.append_assoc]
  apply List.perm_append_comm.trans
  rw [List.append_assoc]
  exact List.perm_append_comm.append_left _

theorem luaLUnref_log (s : TryState W) (ref : LuaRef) :
    (s.luaLUnref ref).log = s.log ++ ref.number?.toList.map TryEvent.unref := by
  cases ref with
  | noRef => exact (List.append_nil _).symm
  | refNil => exact (List.append_nil _).symm
  | ref r => rfl

theorem luaLUnref_stack (s : TryState W) (ref : LuaRef) :
    (s.luaLUnref ref).stack = s.stack := by
  cases ref <;> rfl

theorem unrefAll_stack (refs : TryRefs) (s : TryState W) :
    (s.unrefAll refs).stack = s.stack := by
  unfold TryState.unrefAll
  rw [luaLUnref_stack, luaLUnref_stack, luaLUnref_stack]

theorem unrefAll_log (refs : TryRefs) (s : TryState W) :
    (s.unrefAll refs).log = s.log ++ refs.released.map TryEvent.unref := by
  unfold TryState.unrefAll TryRefs.released
  rw [luaLUnref_log, luaLUnref_log, luaLUnref_log, List.map_append, List.map_append,
    List.append_assoc, List.append_assoc]

/-! ## Taking the references -/

theorem luaLRef_function (lua : LuaMachine W) (f : Nat) (stack : List LuaValue) (base : Nat)
    (g : LuaGlobal W) (log : List TryEvent) :
    TryState.luaLRef lua ⟨.function f :: stack, base, g, log⟩ =
      (.ref (lua.newRef g.registry), ⟨stack, base, g.ref lua (.function f),
        log ++ [.ref (lua.newRef g.registry)]⟩) := rfl

/-- The frame: the arguments left, the last of them first. -/
theorem getTop_frame (frame below : List LuaValue) (g : LuaGlobal W) (log : List TryEvent) :
    TryState.getTop ⟨frame ++ below, below.length, g, log⟩ = frame.length := by
  unfold TryState.getTop
  rw [List.length_append]
  exact Nat.add_sub_cancel _ _

theorem firstIsFunction_frame (frame below : List LuaValue) (f : Nat) (g : LuaGlobal W)
    (log : List TryEvent) :
    TryState.firstIsFunction ⟨frame ++ [.function f] ++ below, below.length, g, log⟩ = true := by
  unfold TryState.firstIsFunction
  rw [getTop_frame, List.take_left, List.getLast?_concat]

/-- An argument for which a reference is taken. -/
theorem refArgument_function (lua : LuaMachine W) (n f t : Nat) (frame below : List LuaValue)
    (g : LuaGlobal W) (log : List TryEvent) :
    refArgument lua n n ⟨.function f :: frame ++ [.function t] ++ below, below.length, g, log⟩ =
      some (.ref (lua.newRef g.registry), n - 1, ⟨frame ++ [.function t] ++ below, below.length,
        g.ref lua (.function f), log ++ [.ref (lua.newRef g.registry)]⟩) := by
  unfold refArgument
  rw [if_pos rfl, if_pos (firstIsFunction_frame _ _ _ _ _)]
  rfl

theorem refArgument_nil (lua : LuaMachine W) (n t : Nat) (frame below : List LuaValue)
    (g : LuaGlobal W) (log : List TryEvent) :
    refArgument lua n n ⟨.nil :: frame ++ [.function t] ++ below, below.length, g, log⟩ =
      some (.refNil, n - 1, ⟨frame ++ [.function t] ++ below, below.length, g, log⟩) := by
  unfold refArgument
  rw [if_pos rfl, if_pos (firstIsFunction_frame _ _ _ _ _)]
  rfl

theorem refArgument_none (lua : LuaMachine W) {n total : Nat} (h : total ≠ n) (s : TryState W) :
    refArgument lua n total s = some (.noRef, total, s) := by
  unfold refArgument
  rw [if_neg h]

/-- The two optional references, then that of the try function. -/
theorem luaBTry_args {lua : LuaMachine W} {s s₁ : TryState W} {r₃ r₂ : LuaRef}
    {total total' t : Nat} {below : List LuaValue} {g : LuaGlobal W} {log : List TryEvent}
    (h₃ : refArgument lua 3 s.getTop s = some (r₃, total, s₁))
    (h₂ : refArgument lua 2 total s₁ =
      some (r₂, total', ⟨[.function t] ++ below, below.length, g, log⟩)) :
    luaBTry lua s = runTry lua ⟨.ref (lua.newRef g.registry), r₂, r₃⟩
      ⟨below, below.length, g.ref lua (.function t), log ++ [.ref (lua.newRef g.registry)]⟩ := by
  have h₁ := firstIsFunction_frame [] below t g log
  rw [List.nil_append] at h₁
  unfold luaBTry
  simp only [h₃, h₂, h₁, if_true]
  rfl

theorem pair_nodup {r r' : Nat} (h : r ≠ r') : [r, r'].Nodup :=
  List.nodup_cons.mpr ⟨List.mem_singleton.not.mpr h, List.nodup_singleton _⟩

theorem refArgument_getTop (lua : LuaMachine W) (frame below : List LuaValue) (g : LuaGlobal W) :
    refArgument lua 3 (TryState.getTop ⟨frame ++ below, below.length, g, []⟩)
        ⟨frame ++ below, below.length, g, []⟩ =
      refArgument lua 3 frame.length ⟨frame ++ below, below.length, g, []⟩ := by
  rw [getTop_frame]

/-- The function runs with its references taken, on the stack of its caller. -/
theorem luaBTry_start (lua : LuaMachine W) (c : TryCall) (func : LuaValue)
    (caller : List LuaValue) (g : LuaGlobal W) :
    ∃ refs : TryRefs, luaBTry lua (c.start func caller g) =
        runTry lua refs ⟨func :: caller, caller.length + 1, c.globals lua g,
          refs.numbers.map TryEvent.ref⟩ ∧
      refs.Hold c (c.globals lua g) ∧ refs.numbers.Nodup := by
  obtain ⟨t, catchFunc, finallyFunc⟩ := c
  cases finallyFunc with
  | none =>
    cases catchFunc with
    | none =>
      refine ⟨⟨.ref (lua.newRef g.registry), .noRef, .noRef⟩, ?_, ?_, List.nodup_singleton _⟩
      · have h₃ := (refArgument_getTop lua [.function t] (func :: caller) g).trans
          (refArgument_none lua (by simp) _)
        exact luaBTry_args h₃ (refArgument_none lua (by simp) _)
      · exact ⟨.ref_self lua g t, by rintro f ⟨⟩, by rintro f ⟨⟩, fun _ => rfl, fun _ => rfl⟩
    | some f =>
      have hf := Holds.ref_self lua g f
      refine ⟨⟨.ref (lua.newRef (g.ref lua (.function f)).registry),
        .ref (lua.newRef g.registry), .noRef⟩, ?_, ?_, ?_⟩
      · have h₃ := (refArgument_getTop lua [.function f, .function t] (func :: caller) g).trans
          (refArgument_none lua (by simp) _)
        exact luaBTry_args h₃ (refArgument_function lua 2 f t [] (func :: caller) g [])
      · refine ⟨.ref_self lua _ t, ?_, by rintro f ⟨⟩, by rintro ⟨⟩, fun _ => rfl⟩
        rintro f' ⟨⟩
        exact hf.ref _
      · exact pair_nodup (newRef_ne lua _ hf.mem)
  | some k =>
    have hk := Holds.ref_self lua g k
    cases catchFunc with
    | none =>
      refine ⟨⟨.ref (lua.newRef (g.ref lua (.function k)).registry), .refNil,
        .ref (lua.newRef g.registry)⟩, ?_, ?_, ?_⟩
      · have h₃ := (refArgument_getTop lua [.function k, .nil, .function t] (func :: caller)
          g).trans (refArgument_function lua 3 k t [.nil] (func :: caller) g [])
        exact luaBTry_args h₃ (refArgument_nil lua 2 t [] (func :: caller) _ _)
      · refine ⟨.ref_self lua _ t, by rintro f ⟨⟩, ?_, fun _ => rfl, by rintro ⟨⟩⟩
        rintro k' ⟨⟩
        exact hk.ref _
      · exact pair_nodup (newRef_ne lua _ hk.mem)
    | some f =>
      have hf := Holds.ref_self lua (g.ref lua (.function k)) f
      have hk' : Holds ((g.ref lua (.function k)).ref lua (.function f)) _ k := hk.ref _
      refine ⟨⟨.ref (lua.newRef ((g.ref lua (.function k)).ref lua (.function f)).registry),
        .ref (lua.newRef (g.ref lua (.function k)).registry), .ref (lua.newRef g.registry)⟩,
        ?_, ?_, ?_⟩
      · have h₃ := (refArgument_getTop lua [.function k, .function f, .function t]
          (func :: caller) g).trans
          (refArgument_function lua 3 k t [.function f] (func :: caller) g [])
        exact luaBTry_args h₃ (refArgument_function lua 2 f t [] (func :: caller) _ _)
      · refine ⟨.ref_self lua _ t, ?_, ?_, by rintro ⟨⟩, by rintro ⟨⟩⟩
        · rintro f' ⟨⟩
          exact hf.ref _
        · rintro k' ⟨⟩
          exact hk'.ref _
      · have hkf := newRef_ne lua _ hk.mem
        have hkt := newRef_ne lua _ hk'.mem
        have hft := newRef_ne lua _ hf.mem
        refine List.nodup_cons.mpr ⟨fun hmem => ?_, pair_nodup hft⟩
        rcases List.mem_pair.mp hmem with heq | heq
        · exact hkf heq
        · exact hkt heq

/-! ## The calls -/

section Calls

variable {lua : LuaMachine W} {refs : TryRefs} {c : TryCall} {s : TryState W}
  {calls : List (TryPart × Option LuaValue)} {caller : List LuaValue}

/-- The state after a protected call, with its error on the stack. -/
def TryState.afterCall (lua : LuaMachine W) (part : TryPart) (v : LuaValue) (args : List LuaValue)
    (s : TryState W) : TryState W :=
  { s with
    stack := (lua.call v args s.glob).1.toList ++ s.stack
    glob := (lua.call v args s.glob).2
    log := s.log ++ [.called part (lua.call v args s.glob).1] }

theorem foldl_push (args : List LuaValue) (s : TryState W) :
    args.foldl TryState.push s = { s with stack := args.reverse ++ s.stack } := by
  induction args generalizing s with
  | nil => rfl
  | cons v args ih =>
    rw [List.foldl_cons, ih, List.reverse_cons, List.append_assoc]
    rfl

/-- The call of a value with arguments on the stack. -/
theorem pcall_push (s : TryState W) (v : LuaValue) (args : List LuaValue) (part : TryPart) :
    (args.foldl TryState.push (s.push v)).pcall lua part args.length =
      .ok ((lua.call v args s.glob).1.isNone, s.afterCall lua part v args) := by
  have hdrop : (args.reverse ++ v :: s.stack).drop args.length = v :: s.stack :=
    List.drop_left' List.length_reverse
  have htake : (args.reverse ++ v :: s.stack).take args.length = args.reverse :=
    List.take_left' List.length_reverse
  rw [foldl_push]
  unfold TryState.push TryState.pcall TryState.afterCall
  simp only [hdrop, htake, List.reverse_reverse]
  cases (lua.call v args s.glob).1 <;> rfl

theorem rawGetI_ref {ref : LuaRef} {f : Nat} (h : Holds s.glob ref f) :
    s.rawGetI ref = s.push (.function f) := by
  obtain ⟨r, rfl, -, hlookup⟩ := h
  exact congrArg (fun v => s.push (v.getD .nil)) hlookup

/-- The call of a function behind a reference. -/
theorem pcall_ref {ref : LuaRef} {f : Nat} (h : Holds s.glob ref f) (part : TryPart) :
    (s.rawGetI ref).pcall lua part 0 =
      .ok ((lua.call (.function f) [] s.glob).1.isNone,
        s.afterCall lua part (.function f) []) := by
  rw [rawGetI_ref h]
  exact pcall_push s (.function f) [] part

/-- The error at the top, raised again. -/
theorem raiseTop_eq {e : LuaValue} {stack : List LuaValue} (h : s.stack = e :: stack)
    {r : TryOutcome × TryState W} : raiseTop lua refs s = .ok r ↔
      ∃ msg, luaLError (e.text lua.numberText) = .ok msg ∧
        r = (.raised msg, s.unrefAll refs) := by
  unfold raiseTop TryState.topText
  rw [h]
  constructor
  · intro hr
    obtain ⟨msg, hmsg, hr⟩ := bind_eq_ok.mp hr
    exact ⟨msg, hmsg, (Except.ok.inj hr).symm⟩
  · rintro ⟨msg, hmsg, rfl⟩
    exact bind_eq_ok.mpr ⟨msg, hmsg, rfl⟩

theorem raiseTop_state {r : TryOutcome × TryState W} (hr : raiseTop lua refs s = .ok r) :
    r.2 = s.unrefAll refs := by
  obtain ⟨msg, -, hr⟩ := bind_eq_ok.mp hr
  cases hr
  rfl

/-- The catch function, called where the message can be parsed: the error takes the slot of
    `luaB_try` itself, and the call is made above it. -/
theorem runCatch_eq {e func v : LuaValue} (hstack : s.stack = e :: func :: caller)
    (hv : ∀ s' : TryState W, s'.glob = s.glob → s'.rawGetI refs.catchFunc = s'.push v)
    {r : Bool × TryState W} : runCatch lua refs s = .ok r ↔
      ∃ msg parts, e.text lua.numberText = some msg ∧ parseError (msg ++ [nul]) = .ok parts ∧
        r = ((lua.call v parts.args s.glob).1.isNone,
          TryState.afterCall lua .catchFunc v parts.args { s with stack := e :: caller }) := by
  have hremove : s.removeSecond = { s with stack := e :: caller } := by
    unfold TryState.removeSecond
    rw [hstack]
    rfl
  have hcall : ∀ parts : ErrorParts,
      TryState.pcall lua .catchFunc 4 (parts.args.foldl TryState.push
        (s.removeSecond.rawGetI refs.catchFunc)) =
      .ok ((lua.call v parts.args s.glob).1.isNone,
        TryState.afterCall lua .catchFunc v parts.args { s with stack := e :: caller }) := by
    intro parts
    rw [hremove, hv { s with stack := e :: caller } rfl]
    exact pcall_push _ v parts.args .catchFunc
  have htop : s.topText lua = e.text lua.numberText := by
    unfold TryState.topText
    rw [hstack]
    rfl
  unfold runCatch
  rw [htop]
  cases e.text lua.numberText with
  | none =>
    constructor
    · rintro ⟨⟩
    · rintro ⟨msg, parts, hmsg, -⟩
      cases hmsg
  | some msg =>
    constructor
    · intro hr
      obtain ⟨parts, hparts, hr⟩ := bind_eq_ok.mp hr
      exact ⟨msg, parts, rfl, hparts, (Except.ok.inj ((hcall parts).symm.trans hr)).symm⟩
    · rintro ⟨msg', parts, hmsg, hparts, rfl⟩
      cases hmsg
      exact bind_eq_ok.mpr ⟨parts, hparts, hcall parts⟩

/-! ## The log -/

/-- The log after the calls, with nothing released. -/
structure Called (refs : TryRefs) (calls : List (TryPart × Option LuaValue))
    (caller : List LuaValue) (s : TryState W) : Prop where
  log : s.log = refs.numbers.map TryEvent.ref ++ calls.map fun p => .called p.1 p.2
  stack : caller <:+ s.stack

theorem Called.afterCall (lua : LuaMachine W) (h : Called refs calls caller s) (part : TryPart)
    (v : LuaValue) (args : List LuaValue) :
    Called refs (calls ++ [(part, (lua.call v args s.glob).1)]) caller
      (s.afterCall lua part v args) where
  log := by
    unfold TryState.afterCall
    rw [h.log, List.map_append, List.append_assoc]
    rfl
  stack := h.stack.trans (List.suffix_append _ _)

/-- What the log of a run that ends says. -/
theorem filterMap_unrefAll (h : Called refs calls caller s) :
    callsOf (s.unrefAll refs).log = calls ∧
      (s.unrefAll refs).log.filterMap TryEvent.taken? = refs.numbers ∧
      (s.unrefAll refs).log.filterMap TryEvent.released? = refs.released := by
  unfold callsOf
  rw [unrefAll_log, h.log]
  refine ⟨?_, ?_, ?_⟩
  · simp [List.filterMap_append, List.filterMap_map, Function.comp_def, TryEvent.call?]
  · simp [List.filterMap_append, List.filterMap_map, Function.comp_def, TryEvent.taken?]
  · simp [List.filterMap_append, List.filterMap_map, Function.comp_def, TryEvent.released?]

/-- The calls of a run that ends, and whether it raises, are as they should be. -/
structure CallsRight (c : TryCall) (calls : List (TryPart × Option LuaValue)) (raised : Prop) :
    Prop where
  tryOnce : (calls.map Prod.fst).count .tryFunc = 1
  finallyOnce : (calls.map Prod.fst).count .finallyFunc = if c.finallyFunc.isSome then 1 else 0
  catchOnce : (calls.map Prod.fst).count .catchFunc ≤ 1
  catches : .catchFunc ∈ calls.map Prod.fst ↔
    c.catchFunc.isSome ∧ ∃ e, (.tryFunc, some e) ∈ calls
  raises : raised ↔ (∃ e, (.catchFunc, some e) ∈ calls) ∨ ∃ e, (.finallyFunc, some e) ∈ calls

/-- The references and the stack are right wherever the run ends. -/
theorem tryClean_iff (h : Called refs calls caller s) (hnd : refs.numbers.Nodup)
    (outcome : TryOutcome) : TryClean c caller (outcome, s.unrefAll refs) ↔
      CallsRight c calls (outcome ≠ .returned) := by
  obtain ⟨hcalls, htaken, hreleased⟩ := filterMap_unrefAll h
  constructor
  · rintro ⟨htry, hfinally, hcatch, hcatches, hraises, -, -, -⟩
    unfold Fails at hcatches hraises
    rw [hcalls] at htry hfinally hcatch hcatches hraises
    exact ⟨htry, hfinally, hcatch, hcatches, hraises⟩
  · rintro ⟨htry, hfinally, hcatch, hcatches, hraises⟩
    refine ⟨?_, ?_, ?_, ?_, ?_, ?_, ?_, ?_⟩
    · rwa [hcalls]
    · rwa [hcalls]
    · rwa [hcalls]
    · unfold Fails
      rwa [hcalls]
    · unfold Fails
      rwa [hcalls]
    · rw [htaken]
      exact hnd
    · rw [htaken, hreleased]
      exact refs.released_perm
    · rw [unrefAll_stack]
      exact h.stack

/-- The calls before the finally function are as they should be, and nothing is to be raised. -/
structure Before (c : TryCall) (calls : List (TryPart × Option LuaValue)) : Prop where
  tryOnce : (calls.map Prod.fst).count .tryFunc = 1
  noFinally : .finallyFunc ∉ calls.map Prod.fst
  catchOnce : (calls.map Prod.fst).count .catchFunc ≤ 1
  catches : .catchFunc ∈ calls.map Prod.fst ↔
    c.catchFunc.isSome ∧ ∃ e, (.tryFunc, some e) ∈ calls
  caught : ∀ e, (.catchFunc, some e) ∉ calls

theorem Before.right_none (hb : Before c calls) (hf : c.finallyFunc = none) {raised : Prop}
    (hr : ¬ raised) : CallsRight c calls raised where
  tryOnce := hb.tryOnce
  finallyOnce := by
    rw [hf]
    exact List.count_eq_zero.mpr hb.noFinally
  catchOnce := hb.catchOnce
  catches := hb.catches
  raises := by
    refine iff_of_false hr ?_
    rintro (⟨e, he⟩ | ⟨e, he⟩)
    · exact hb.caught e he
    · exact hb.noFinally (List.mem_map_of_mem he)

theorem Before.right_some (hb : Before c calls) {f : Nat} (hf : c.finallyFunc = some f)
    {error : Option LuaValue} {raised : Prop} (hr : raised ↔ error ≠ none) :
    CallsRight c (calls ++ [(.finallyFunc, error)]) raised where
  tryOnce := by
    rw [List.map_append, List.count_append, hb.tryOnce]
    rfl
  finallyOnce := by
    rw [List.map_append, List.count_append, List.count_eq_zero.mpr hb.noFinally, hf]
    rfl
  catchOnce := by
    rw [List.map_append, List.count_append]
    exact hb.catchOnce
  catches := by
    have h := hb.catches
    simpa using h
  raises := by
    rw [hr]
    constructor
    · intro hne
      obtain ⟨e, he⟩ := Option.ne_none_iff_exists'.mp hne
      exact .inr ⟨e, by simp [he]⟩
    · rintro (⟨e, he⟩ | ⟨e, he⟩) rfl
      · exact hb.caught e (by simpa using he)
      · rcases List.mem_append.mp he with he | he
        · exact hb.noFinally (List.mem_map_of_mem he)
        · simp at he

/-- From the finally function on, the run is right where that function fits. -/
theorem runFinally_right (h : Called refs calls caller s) (hold : refs.Hold c s.glob)
    (hnd : refs.numbers.Nodup) (hb : Before c calls) :
    (∃ r, runFinally lua refs s = .ok r ∧ TryClean c caller r) ↔
      FinallyFits lua c s.glob := by
  unfold runFinally
  cases hf : c.finallyFunc with
  | none =>
    rw [if_pos (hold.noFinally hf)]
    refine iff_of_true ⟨_, rfl, (tryClean_iff h hnd _).mpr (hb.right_none hf ?_)⟩ ?_
    · exact fun hne => hne rfl
    · intro f e hsome
      rw [hf] at hsome
      cases hsome
  | some f =>
    have href := hold.finallyFunc f hf
    have hne : refs.finallyFunc ≠ .noRef := by
      obtain ⟨r, hr, -⟩ := href
      rw [hr]
      rintro ⟨⟩
    have hcalled := h.afterCall lua .finallyFunc (.function f) []
    have hfits : FinallyFits lua c s.glob ↔
        ∀ e, (lua.call (.function f) [] s.glob).1 = some e → Raisable lua e := by
      constructor
      · exact fun hfit e he => hfit f e hf he
      · intro hfit f' e hf' he
        rw [hf] at hf'
        cases hf'
        exact hfit e he
    rw [if_neg hne, pcall_ref href, ok_bind, hfits]
    cases he : (lua.call (.function f) [] s.glob).1 with
    | none =>
      rw [he] at hcalled
      refine iff_of_true ⟨_, rfl, (tryClean_iff hcalled hnd _).mpr (hb.right_some hf ?_)⟩ ?_
      · exact iff_of_false (fun hne => hne rfl) (fun hne => hne rfl)
      · rintro e ⟨⟩
    | some e =>
      have hstack : (s.afterCall lua .finallyFunc (.function f) []).stack = e :: s.stack := by
        unfold TryState.afterCall
        rw [he]
        rfl
      rw [he] at hcalled
      constructor
      · rintro ⟨r, hr, -⟩ e' ⟨⟩
        obtain ⟨msg, hmsg, -⟩ := (raiseTop_eq hstack).mp hr
        exact ⟨msg, hmsg⟩
      · intro hfit
        obtain ⟨msg, hmsg⟩ := hfit e rfl
        refine ⟨_, (raiseTop_eq hstack).mpr ⟨msg, hmsg, rfl⟩,
          (tryClean_iff hcalled hnd _).mpr (hb.right_some hf ?_)⟩
        exact iff_of_true (by rintro ⟨⟩) (by rintro ⟨⟩)

theorem raiseTop_calls (h : Called refs calls caller s) {r : TryOutcome × TryState W}
    (hr : raiseTop lua refs s = .ok r) : callsOf r.2.log = calls := by
  rw [raiseTop_state hr]
  exact (filterMap_unrefAll h).1

theorem rawGetI_push (s : TryState W) (ref : LuaRef) : ∃ v, s.rawGetI ref = s.push v := by
  cases ref <;> exact ⟨_, rfl⟩

/-- The calls made before the finally function stay in the log. -/
theorem runFinally_calls (h : Called refs calls caller s) {r : TryOutcome × TryState W}
    (hr : runFinally lua refs s = .ok r) : calls <+: callsOf r.2.log := by
  unfold runFinally at hr
  split at hr
  · cases hr
    exact (filterMap_unrefAll h).1 ▸ List.prefix_refl _
  · obtain ⟨v, hv⟩ := rawGetI_push s refs.finallyFunc
    have hcalled := h.afterCall lua .finallyFunc v []
    have hpcall : (s.push v).pcall lua .finallyFunc 0 = _ := pcall_push s v [] .finallyFunc
    rw [hv, hpcall, ok_bind] at hr
    split at hr
    · cases hr
      exact (filterMap_unrefAll hcalled).1 ▸ List.prefix_append _ _
    · exact raiseTop_calls hcalled hr ▸ List.prefix_append _ _

end Calls

/-! ## The whole run -/

section Runs

variable {lua : LuaMachine W} {refs : TryRefs} {c : TryCall} {s : TryState W}
  {caller : List LuaValue} {func e : LuaValue}

theorem before_try (c : TryCall) : Before c [(.tryFunc, none)] where
  tryOnce := rfl
  noFinally := by simp
  catchOnce := Nat.zero_le _
  catches := by simp
  caught := by simp

theorem before_uncaught (hc : c.catchFunc = none) (e : LuaValue) :
    Before c [(.tryFunc, some e)] where
  tryOnce := rfl
  noFinally := by simp
  catchOnce := Nat.zero_le _
  catches := by simp [hc]
  caught := by simp

theorem before_caught {f : Nat} (hc : c.catchFunc = some f) (e : LuaValue) :
    Before c [(.tryFunc, some e), (.catchFunc, none)] where
  tryOnce := rfl
  noFinally := by simp
  catchOnce := Nat.le_refl _
  catches := by simp [hc]
  caught := by simp

/-- A catch function that fails leaves no room for a finally function. -/
theorem callsRight_catchFails {f : Nat} (hc : c.catchFunc = some f) (e e' : LuaValue)
    {raised : Prop} (hr : raised) :
    CallsRight c [(.tryFunc, some e), (.catchFunc, some e')] raised ↔ c.finallyFunc = none := by
  constructor
  · intro h
    have honce := h.finallyOnce
    cases hf : c.finallyFunc with
    | none => rfl
    | some k =>
      rw [hf] at honce
      cases honce
  · intro hf
    exact ⟨rfl, by rw [hf]; rfl, Nat.le_refl _, by simp [hc], iff_of_true hr (by simp)⟩

/-- From the end of the catch function on. -/
theorem caught_right (s : TryState W) {f : Nat} (hf : c.catchFunc = some f) {args : List LuaValue}
    (hold : refs.Hold c s.glob) (hnd : refs.numbers.Nodup)
    (h : Called refs [(.tryFunc, some e)] caller s) :
    (∃ r, (if (lua.call (.function f) args s.glob).1.isNone then
          runFinally lua refs (s.afterCall lua .catchFunc (.function f) args)
        else raiseTop lua refs (s.afterCall lua .catchFunc (.function f) args)) = .ok r ∧
        TryClean c caller r) ↔
      ((lua.call (.function f) args s.glob).1 = none →
          FinallyFits lua c (lua.call (.function f) args s.glob).2) ∧
        ∀ e', (lua.call (.function f) args s.glob).1 = some e' →
          c.finallyFunc = none ∧ Raisable lua e' := by
  have hcalled := h.afterCall lua .catchFunc (.function f) args
  cases he : (lua.call (.function f) args s.glob).1 with
  | none =>
    rw [he] at hcalled
    rw [Option.isNone_none, if_pos rfl,
      runFinally_right hcalled (hold.call lua _ _) hnd (before_caught hf e)]
    constructor
    · exact fun hfit => ⟨fun _ => hfit, by rintro e' ⟨⟩⟩
    · exact fun hfit => hfit.1 rfl
  | some e' =>
    have hstack : (s.afterCall lua .catchFunc (.function f) args).stack = e' :: s.stack := by
      unfold TryState.afterCall
      rw [he]
      rfl
    rw [he] at hcalled
    rw [Option.isNone_some, if_neg Bool.false_ne_true]
    constructor
    · rintro ⟨r, hr, hclean⟩
      obtain ⟨msg, hmsg, rfl⟩ := (raiseTop_eq hstack).mp hr
      refine ⟨by rintro ⟨⟩, ?_⟩
      rintro e'' ⟨⟩
      have hright := (tryClean_iff hcalled hnd _).mp hclean
      exact ⟨(callsRight_catchFails hf e e' (by rintro ⟨⟩)).mp hright, msg, hmsg⟩
    · rintro ⟨-, hfit⟩
      obtain ⟨hnone, msg, hmsg⟩ := hfit e' rfl
      refine ⟨_, (raiseTop_eq hstack).mpr ⟨msg, hmsg, rfl⟩, (tryClean_iff hcalled hnd _).mpr ?_⟩
      exact (callsRight_catchFails hf e e' (by rintro ⟨⟩)).mpr hnone

/-- After an error of the try function, where a catch function is given. -/
theorem runCatch_right {f : Nat} (hf : c.catchFunc = some f) (hold : refs.Hold c s.glob)
    (hnd : refs.numbers.Nodup) (h : Called refs [(.tryFunc, some e)] caller s)
    (hstack : s.stack = e :: func :: caller) :
    (∃ r, (runCatch lua refs s >>= fun r =>
        if r.1 then runFinally lua refs r.2 else raiseTop lua refs r.2) = .ok r ∧
        TryClean c caller r) ↔
      ∃ msg parts, e.text lua.numberText = some msg ∧ parseError (msg ++ [nul]) = .ok parts ∧
        CatchFits lua c f parts s.glob := by
  have hv : ∀ s' : TryState W, s'.glob = s.glob →
      s'.rawGetI refs.catchFunc = s'.push (.function f) := by
    intro s' hg
    apply rawGetI_ref
    rw [hg]
    exact hold.catchFunc f hf
  have hremoved : Called refs [(.tryFunc, some e)] caller { s with stack := e :: caller } :=
    ⟨h.log, List.suffix_cons _ _⟩
  constructor
  · rintro ⟨r, hr, hclean⟩
    obtain ⟨q, hq, hr⟩ := bind_eq_ok.mp hr
    obtain ⟨msg, parts, hmsg, hparts, rfl⟩ := (runCatch_eq hstack hv).mp hq
    have hfit := (caught_right { s with stack := e :: caller } hf hold hnd hremoved).mp
      ⟨r, hr, hclean⟩
    exact ⟨msg, parts, hmsg, hparts, hfit⟩
  · rintro ⟨msg, parts, hmsg, hparts, hfit⟩
    have hcatch := (runCatch_eq hstack hv).mpr ⟨msg, parts, hmsg, hparts, rfl⟩
    rw [hcatch, ok_bind]
    exact (caught_right { s with stack := e :: caller } hf hold hnd hremoved).mpr hfit

/-- Where nil stands for the catch function, an error of the try function has it called. -/
theorem not_clean_refNil (hc : c.catchFunc = none) (hnil : refs.catchFunc = .refNil)
    (h : Called refs [(.tryFunc, some e)] caller s) (hstack : s.stack = e :: func :: caller) :
    ¬ ∃ r, (runCatch lua refs s >>= fun r =>
        if r.1 then runFinally lua refs r.2 else raiseTop lua refs r.2) = .ok r ∧
        TryClean c caller r := by
  rintro ⟨r, hr, hclean⟩
  have hv : ∀ s' : TryState W, s'.glob = s.glob → s'.rawGetI refs.catchFunc = s'.push .nil := by
    intro s' _
    rw [hnil]
    rfl
  have hremoved : Called refs [(.tryFunc, some e)] caller { s with stack := e :: caller } :=
    ⟨h.log, List.suffix_cons _ _⟩
  obtain ⟨q, hq, hr⟩ := bind_eq_ok.mp hr
  obtain ⟨msg, parts, -, -, rfl⟩ := (runCatch_eq hstack hv).mp hq
  have hcalled := hremoved.afterCall lua .catchFunc .nil parts.args
  have hmem : .catchFunc ∈ (callsOf r.2.log).map Prod.fst := by
    have hlast : ∀ error : Option LuaValue, TryPart.catchFunc ∈
        ([(TryPart.tryFunc, some e)] ++ [(TryPart.catchFunc, error)]).map Prod.fst := by simp
    dsimp only at hr
    split at hr
    · exact ((runFinally_calls hcalled hr).map Prod.fst).subset (hlast _)
    · rw [raiseTop_calls hcalled hr]
      exact hlast _
  have hsome := (hclean.catches.mp hmem).1
  rw [hc] at hsome
  cases hsome

/-- `try` does what it promises exactly where its functions fit. -/
theorem luaBTry_right_iff (lua : LuaMachine W) (c : TryCall) (func : LuaValue)
    (caller : List LuaValue) (g : LuaGlobal W) :
    TryRight lua c func caller g ↔ TryFits lua c (c.globals lua g) := by
  obtain ⟨refs, hrun, hold, hnd⟩ := luaBTry_start lua c func caller g
  have hstart : Called refs [] caller ⟨func :: caller, caller.length + 1, c.globals lua g,
      refs.numbers.map TryEvent.ref⟩ := ⟨(List.append_nil _).symm, List.suffix_cons _ _⟩
  have hcalled := hstart.afterCall lua .tryFunc (.function c.tryFunc) []
  have hold' := hold.call lua (.function c.tryFunc) []
  unfold TryRight TryFits
  rw [hrun, runTry, pcall_ref hold.tryFunc, ok_bind]
  dsimp only at hcalled ⊢
  cases he : (lua.call (.function c.tryFunc) [] (c.globals lua g)).1 with
  | none =>
    rw [he] at hcalled
    rw [if_neg (by simp), runFinally_right hcalled hold' hnd (before_try c)]
    constructor
    · exact fun hfit => ⟨fun _ => hfit, by rintro e ⟨⟩⟩
    · exact fun hfit => hfit.1 rfl
  | some e =>
    rw [he] at hcalled
    have hstack : (TryState.afterCall lua .tryFunc (.function c.tryFunc) []
        ⟨func :: caller, caller.length + 1, c.globals lua g,
          refs.numbers.map TryEvent.ref⟩).stack = e :: func :: caller := by
      unfold TryState.afterCall
      rw [he]
      rfl
    cases hc : c.catchFunc with
    | none =>
      cases hf : c.finallyFunc with
      | none =>
        have hnoRef : refs.catchFunc = .noRef := by rw [hold.noCatch hc, hf]; rfl
        rw [if_neg (fun h => h.2 hnoRef),
          runFinally_right hcalled hold' hnd (before_uncaught hc e)]
        refine iff_of_true ?_ ⟨by rintro ⟨⟩, ?_⟩
        · intro f e' hsome
          rw [hf] at hsome
          cases hsome
        · intro e' _
          exact ⟨fun _ => rfl, by rintro f ⟨⟩⟩
      | some k =>
        have hnil : refs.catchFunc = .refNil := by rw [hold.noCatch hc, hf]; rfl
        rw [if_pos ⟨rfl, by rw [hnil]; rintro ⟨⟩⟩]
        refine iff_of_false (not_clean_refNil hc hnil hcalled hstack) ?_
        rintro ⟨-, hfit⟩
        cases (hfit e rfl).1 rfl
    | some f =>
      have hne : refs.catchFunc ≠ .noRef := by
        obtain ⟨r, hr, -⟩ := hold.catchFunc f hc
        rw [hr]
        rintro ⟨⟩
      rw [if_pos ⟨rfl, hne⟩, runCatch_right hc hold' hnd hcalled hstack]
      constructor
      · intro hfit
        refine ⟨by rintro ⟨⟩, ?_⟩
        rintro e' ⟨⟩
        refine ⟨by rintro ⟨⟩, ?_⟩
        rintro f' ⟨⟩
        exact hfit
      · intro hfit
        exact (hfit.2 e rfl).2 f rfl

end Runs

/-- A try function 0 that fails, a catch function 1 that fails, and nothing else that does. -/
def failingMachine : LuaMachine Unit where
  newRef registry := registry.keys.sup id + 1
  numberText _ := []
  call f _ g :=
    (if f = .function 0 then some (.string (chars "f:1: x"))
      else if f = .function 1 then some (.string (chars "g:2: y")) else none, g)
  newRef_fresh _ h :=
    absurd (Finset.le_sup (f := id) (Finmap.mem_keys.mpr h)) (Nat.not_succ_le_self _)
  call_held _ _ _ := rfl
  call_keeps _ _ _ _ _ := rfl

/-- The catch function fails, and the finally function does not run. -/
theorem catch_fails_without_finally :
    (luaBTry failingMachine (TryCall.start ⟨0, some 1, some 2⟩ .nil [] ⟨∅, ∅, ()⟩)).map
        (fun r => callsOf r.2.log) =
      .ok [(.tryFunc, some (.string (chars "f:1: x"))),
        (.catchFunc, some (.string (chars "g:2: y")))] ∧
    ¬ TryRight failingMachine ⟨0, some 1, some 2⟩ .nil [] ⟨∅, ∅, ()⟩ := by
  have hcalls : (luaBTry failingMachine
      (TryCall.start ⟨0, some 1, some 2⟩ .nil [] ⟨∅, ∅, ()⟩)).map (fun r => callsOf r.2.log) =
      .ok [(.tryFunc, some (.string (chars "f:1: x"))),
        (.catchFunc, some (.string (chars "g:2: y")))] := by
    decide +kernel
  refine ⟨hcalls, ?_⟩
  rintro ⟨r, hr, hclean⟩
  rw [hr] at hcalls
  have hlog : callsOf r.2.log = _ := Except.ok.inj hcalls
  have honce := hclean.finallyOnce
  rw [hlog] at honce
  cases honce

end LuaRtos.Lua
