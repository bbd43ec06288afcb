/-
  LuaRtos.Drivers.I2cTransactions

  The transactions of any number of threads, over the list that they share.

  A write or a read of length zero queues a byte that nobody asked for.  A command for
  which there is no memory is left out, a list that cannot grow loses its count, and
  the buffers are read when the link is executed.  Without these, with one call at a
  variable at a time and one unit for a transaction, every transaction is executed and
  deleted once, with what its own calls asked for.
-/

import LuaRtos.Drivers.I2cRequests
import LuaRtos.Sys.ListMap
import Mathlib.Data.Fintype.Basic

namespace LuaRtos.I2c

open CLib Rtos Sys

/-! ## Isolation -/

section Isolation

variable {Tid : Type}

/-- What was executed is what was asked for, on the unit that it was asked for on. -/
def Transfer.Exact (x : Transfer) : Prop := x.asked = some (x.wires.map fun w => (x.unit, w))

/-- A thread is in a call at the variable. -/
def Bus.InCall (s : Bus Tid) (v : Nat) : Prop := ∃ t a, s.seen.current t = some a ∧ a.1.variable = v

/-- The value of the variable leads to a command link. -/
def Bus.OpenAt (s : Bus Tid) (v : Nat) (l : Link) : Prop :=
  ∃ p, Sys.listGet s.transactions (s.transaction v) = .ok (.success, some p) ∧ s.link p = some l

/-- The links that were executed. -/
def History.numbers (h : History Tid) : List Nat := h.executed.map Transfer.number

structure Isolated (w : World Tid) : Prop where
  exact : ∀ x ∈ w.state.seen.executed, x.Exact
  executedOnce : w.state.seen.numbers.Nodup
  deletedOnce : w.state.seen.deleted.Nodup
  /-- A link was executed and deleted, or is that of an open transaction. -/
  complete : (∀ v, ¬ w.state.InCall v) → ∀ n < w.state.seen.created,
    n ∈ w.state.seen.numbers ∧ n ∈ w.state.seen.deleted ∨
      n ∉ w.state.seen.numbers ∧ n ∉ w.state.seen.deleted ∧
        ∃ v l, w.state.OpenAt v l ∧ l.number = n
  /-- A variable is as it was at first, or leads to the link of its own transaction. -/
  handle : ∀ v, ¬ w.state.InCall v →
    w.state.transaction v = I2C_TRANSACTION_INITIALIZER ∧ w.state.seen.asked v = none ∨
      ∃ l as, w.state.OpenAt v l ∧ w.state.seen.asked v = some as
  apart : ∀ v v' l l', ¬ w.state.InCall v → ¬ w.state.InCall v' → w.state.OpenAt v l →
    w.state.OpenAt v' l' → l.number = l'.number → v = v'
  /-- A stop or a flush that succeeds has executed what was asked for. -/
  ended : ∀ t a, w.state.seen.current t = some a → a.1.ends →
    (w.rest t).nextOp = some (.returns none) → w.state.seen.asked a.1.variable = none

/-- The calls at one variable come one after the other, and for one unit; there is
    memory for a driver error, for the list and for each command; and the buffers of the
    writes hold what they held. -/
def CarefulAt (w : World Tid) (t : Tid) (env : Env) : I2cProg (Option I2cErr) → Prop
  | .op (.invoke c) _ =>
    (∀ t', ∀ b ∈ w.state.seen.current t', b.1.variable ≠ c.variable) ∧
      ∀ as ∈ w.state.seen.asked c.variable, ∀ b ∈ as, b.1.unit = c.unit
  | .op (.operationError _) _ => env.error = true
  | .op (.listAdd _ _) _ => AddCond w.state.transactions env.malloc
  | .op (.queue _ _) _ => env.queued = true
  | .op (.load data) _ => ∀ b ∈ w.state.seen.current t, env.mem data = b.2 data
  | .op (.cmdBegin _ _) _ => ∀ b ∈ w.state.seen.current t,
    ∀ as ∈ w.state.seen.asked b.1.variable, ∀ a ∈ as ++ [b], a.SameBuffer env.mem
  | _ => True

/-- Moreover a write or a read has a length of at least one. -/
def Careful (w : World Tid) : Act Tid → Prop
  | .call _ c => c.HasLength
  | .next t env => CarefulAt w t env (w.rest t)

end Isolation

/-! ## What the variables are -/

section Ties

variable {Tid : Type} {s s' : Bus Tid} {g : Tid → Grip} {G G' : Nat → Slot} {m : ListMap Nat}

/-- The list has the entries of the variables. -/
structure Listed (s : Bus Tid) (m : ListMap Nat) (G : Nat → Slot) : Prop where
  refines : Refines s.transactions m
  var : ∀ v, s.transaction v = (G v).var
  entry : ∀ v k p, (G v).entry = some (k, p) → m.lookup k = some p
  apart : ∀ v v' k p p', (G v).entry = some (k, p) → (G v').entry = some (k, p') → v = v'

/-- The links are those of the variables, and those that were executed and deleted. -/
structure Linked (s : Bus Tid) (G : Nat → Slot) : Prop where
  live : ∀ v p l, (G v).link = some (p, l) → s.link p = some l
  apart : ∀ v v' p p' l l', (G v).link = some (p, l) → (G v').link = some (p', l') →
    p = p' ∨ l.number = l'.number → v = v'
  number : ∀ v p l, (G v).link = some (p, l) → l.number < s.seen.created ∧
    l.number ∉ s.seen.deleted ∧ ((G v).ran = true ↔ l.number ∈ s.seen.numbers)
  known : ∀ n < s.seen.created, n ∈ s.seen.deleted ∨ ∃ v p l, (G v).link = some (p, l) ∧
    l.number = n
  deleted : ∀ n ∈ s.seen.deleted, n < s.seen.created ∧ n ∈ s.seen.numbers
  executed : ∀ n ∈ s.seen.numbers, n < s.seen.created
  executedOnce : s.seen.numbers.Nodup
  deletedOnce : s.seen.deleted.Nodup
  exact : ∀ x ∈ s.seen.executed, x.Exact

/-- A thread knows the variable of its call, and the others are at rest. -/
structure Threaded (s : Bus Tid) (g : Tid → Grip) (G : Nat → Slot) : Prop where
  call : ∀ t, s.seen.current t = (g t).call
  asked : ∀ v, s.seen.asked v = (G v).asked
  slot : ∀ t a, (g t).call = some a → (g t).slot = G a.1.variable
  idle : ∀ t, (g t).call = none → (g t).slot = .closed
  apart : ∀ t t' a a', (g t).call = some a → (g t').call = some a' →
    a.1.variable = a'.1.variable → t = t'
  rests : ∀ v, (∀ t a, (g t).call = some a → a.1.variable ≠ v) → (G v).Resting

def Tied (s : Bus Tid) (g : Tid → Grip) : Prop := ∃ m G, Listed s m G ∧ Linked s G ∧ Threaded s g G

theorem Tied.init [DecidableEq Tid] (unit : Int → Driver.I2cUnit) :
    Tied (i2cInit Tid unit) fun _ => ⟨none, .closed⟩ := by
  have hentry : ∀ {k p}, Slot.closed.entry ≠ some (k, p) := by rintro k p ⟨⟩
  have hlink : ∀ {p l}, Slot.closed.link ≠ some (p, l) := by rintro p l ⟨⟩
  have hcall : ∀ {a}, (⟨none, .closed⟩ : Grip).call ≠ some a := by rintro a ⟨⟩
  refine ⟨∅, fun _ => .closed, ⟨refines_init 0, fun _ => rfl, ?_, ?_⟩, ⟨?_, ?_, ?_, ?_, ?_, ?_,
    List.nodup_nil, List.nodup_nil, ?_⟩, ⟨fun _ => rfl, fun _ => rfl, ?_, fun _ _ => rfl, ?_,
    fun _ _ => .inl rfl⟩⟩
  · exact fun _ _ _ h => absurd h hentry
  · exact fun _ _ _ _ _ h => absurd h hentry
  · exact fun _ _ _ h => absurd h hlink
  · exact fun _ _ _ _ _ _ h => absurd h hlink
  · exact fun _ _ _ h => absurd h hlink
  · exact fun _ h => absurd h (Nat.not_lt_zero _)
  · exact fun _ h => absurd h List.not_mem_nil
  · exact fun _ h => absurd h List.not_mem_nil
  · exact fun _ h => absurd h List.not_mem_nil
  · exact fun _ _ h => absurd h hcall
  · exact fun _ _ _ _ h => absurd h hcall

/-- A part of the variables that a change of one leaves as it is. -/
theorem slot_same {β : Type} (f : Slot → β) {v : Nat} {x : Slot} (hx : f x = f (G v)) (v' : Nat) :
    f (Function.update G v x v') = f (G v') := by
  by_cases hv : v' = v
  · subst hv
    rw [Function.update_self, hx]
  · rw [Function.update_of_ne hv]

theorem Listed.same (h : Listed s m G) (htransactions : s'.transactions = s.transactions)
    (hvar : ∀ v, s'.transaction v = (G' v).var) (hentry : ∀ v, (G' v).entry = (G v).entry) :
    Listed s' m G' := by
  refine ⟨htransactions ▸ h.refines, hvar, ?_, ?_⟩
  · intro v k p hv
    rw [hentry] at hv
    exact h.entry v k p hv
  · intro v v' k p p' hv hv'
    rw [hentry] at hv hv'
    exact h.apart v v' k p p' hv hv'

theorem Linked.same (h : Linked s G) (hlink : s'.link = s.link)
    (hcreated : s'.seen.created = s.seen.created) (hexecuted : s'.seen.executed = s.seen.executed)
    (hdeleted : s'.seen.deleted = s.seen.deleted) (hlinks : ∀ v, (G' v).link = (G v).link)
    (hran : ∀ v, (G' v).ran = (G v).ran) : Linked s' G' := by
  have hnumbers : s'.seen.numbers = s.seen.numbers := by
    unfold History.numbers
    rw [hexecuted]
  refine ⟨?_, ?_, ?_, ?_, ?_, ?_, hnumbers ▸ h.executedOnce, hdeleted ▸ h.deletedOnce,
    hexecuted ▸ h.exact⟩
  · intro v p l hv
    rw [hlinks] at hv
    rw [hlink]
    exact h.live v p l hv
  · intro v v' p p' l l' hv hv'
    rw [hlinks] at hv hv'
    exact h.apart v v' p p' l l' hv hv'
  · intro v p l hv
    rw [hlinks] at hv
    rw [hcreated, hdeleted, hran, hnumbers]
    exact h.number v p l hv
  · intro n hn
    rw [hcreated] at hn
    rw [hdeleted]
    simp only [hlinks]
    exact h.known n hn
  · rw [hcreated, hdeleted, hnumbers]
    exact h.deleted
  · rw [hcreated, hnumbers]
    exact h.executed

variable [DecidableEq Tid] {t : Tid} {a : Asked} {x : Slot}

/-- A thread changes the variable of its call. -/
theorem Threaded.move (h : Threaded s g G) (ha : (g t).call = some a)
    (hcurrent : s'.seen.current = s.seen.current)
    (hasked : ∀ v, s'.seen.asked v = (Function.update G a.1.variable x v).asked) :
    Threaded s' (Function.update g t ⟨some a, x⟩) (Function.update G a.1.variable x) := by
  have hcall : ∀ t', (Function.update g t ⟨some a, x⟩ t').call = (g t').call := by
    intro t'
    by_cases ht : t' = t
    · subst ht
      rw [Function.update_self, ha]
    · rw [Function.update_of_ne ht]
  refine ⟨?_, hasked, ?_, ?_, ?_, ?_⟩
  · intro t'
    rw [hcurrent, hcall]
    exact h.call t'
  · intro t' b hb
    rw [hcall] at hb
    by_cases ht : t' = t
    · subst ht
      cases ha.symm.trans hb
      rw [Function.update_self, Function.update_self]
    · have hv : b.1.variable ≠ a.1.variable := fun heq => ht (h.apart t' t b a hb ha heq)
      rw [Function.update_of_ne ht, Function.update_of_ne hv]
      exact h.slot t' b hb
  · intro t' hb
    rw [hcall] at hb
    have ht : t' ≠ t := by
      rintro rfl
      cases ha.symm.trans hb
    rw [Function.update_of_ne ht]
    exact h.idle t' hb
  · intro t' t'' b b' hb hb'
    rw [hcall] at hb hb'
    exact h.apart t' t'' b b' hb hb'
  · intro v hv
    have hva : v ≠ a.1.variable := by
      intro heq
      exact hv t a (by rw [hcall, ha]) heq.symm
    rw [Function.update_of_ne hva]
    refine h.rests v fun t' b hb => hv t' b ?_
    rw [hcall]
    exact hb

/-! ## The operations -/

variable {env : Env} {v : Nat}

theorem Tied.setTransaction (hl : Listed s m G) (hk : Linked s G) (hw : Threaded s g G)
    (ha : (g t).call = some a) {i : Int} :
    Tied { s with transaction := Function.update s.transaction a.1.variable i }
      (Function.update g t ⟨some a, { (g t).slot with var := i }⟩) := by
  rw [hw.slot t a ha]
  refine ⟨m, _, hl.same rfl ?_ ?_, hk.same rfl rfl rfl rfl ?_ ?_, hw.move ha rfl ?_⟩
  · intro v'
    by_cases hv : v' = a.1.variable
    · subst hv
      simp
    · simpa [hv] using hl.var v'
  · exact slot_same Slot.entry rfl
  · exact slot_same Slot.link rfl
  · exact slot_same Slot.ran rfl
  · intro v'
    exact (hw.asked v').trans (slot_same Slot.asked (by rfl) v').symm

/-- The handle is fresh, so that no other variable has it. -/
theorem Tied.listAdd (hl : Listed s m G) (hk : Linked s G) (hw : Threaded s g G)
    (ha : (g t).call = some a) (hok : AddCond s.transactions env.malloc) {cmd : Nat} {r : Bool}
    (hr : s.listAdd env cmd a.1.variable = .ok (s', r)) :
    r = true ∧ ∃ k : Int, 0 ≤ k ∧
      Tied s' (Function.update g t
        ⟨some a, { (g t).slot with var := k, entry := some (k, cmd) }⟩) := by
  rw [hw.slot t a ha]
  obtain ⟨i, e, l', hadd, hfresh, -, href⟩ := hl.refines.listAdd_ok hok cmd
  have hne : ∀ {v k p}, (G v).entry = some (k, p) → k ≠ s.transactions.handle i := by
    rintro v k p hv rfl
    cases hfresh.symm.trans (hl.entry v _ p hv)
  obtain ⟨q, hq, hr⟩ := bind_eq_ok.mp hr
  rw [hadd] at hq
  cases hq
  cases hr
  refine ⟨rfl, s.transactions.handle i, ?_, m.insert (s.transactions.handle i) cmd, _,
    ⟨href, ?_, ?_, ?_⟩, hk.same rfl rfl rfl rfl ?_ ?_, hw.move ha rfl ?_⟩
  · unfold CList.handle
    omega
  · intro v'
    by_cases hv : v' = a.1.variable
    · subst hv
      simp
    · simpa [hv] using hl.var v'
  · intro v' k p hv'
    by_cases hv : v' = a.1.variable
    · subst hv
      rw [Function.update_self] at hv'
      cases hv'
      exact Finmap.lookup_insert _
    · rw [Function.update_of_ne hv] at hv'
      rw [Finmap.lookup_insert_of_ne _ (hne hv')]
      exact hl.entry v' k p hv'
  · intro v₁ v₂ k p p' h₁ h₂
    by_cases hv₁ : v₁ = a.1.variable
    · by_cases hv₂ : v₂ = a.1.variable
      · rw [hv₁, hv₂]
      · subst hv₁
        rw [Function.update_self] at h₁
        rw [Function.update_of_ne hv₂] at h₂
        cases h₁
        exact absurd rfl (hne h₂)
    · rw [Function.update_of_ne hv₁] at h₁
      by_cases hv₂ : v₂ = a.1.variable
      · subst hv₂
        rw [Function.update_self] at h₂
        cases h₂
        exact absurd rfl (hne h₁)
      · rw [Function.update_of_ne hv₂] at h₂
        exact hl.apart v₁ v₂ k p p' h₁ h₂
  · exact slot_same Slot.link rfl
  · exact slot_same Slot.ran rfl
  · intro v'
    exact (hw.asked v').trans (slot_same Slot.asked (by rfl) v').symm

theorem Tied.listRemove (hl : Listed s m G) (hk : Linked s G) (hw : Threaded s g G)
    (ha : (g t).call = some a) {i : Int} {p : Nat} (hentry : (g t).slot.entry = some (i, p))
    {r : RemoveResult Nat} (hr : Sys.listRemove s.transactions i false = .ok r) :
    Tied { s with transactions := r.list }
      (Function.update g t ⟨some a, { (g t).slot with entry := none }⟩) := by
  rw [hw.slot t a ha] at hentry ⊢
  have hmem : i ∈ m := Finmap.mem_iff.mpr ⟨p, hl.entry _ _ _ hentry⟩
  obtain ⟨freed, l', hrem, href⟩ := hl.refines.listRemove_ok hmem false
  rw [hrem] at hr
  cases hr
  have hold : ∀ {v k p'}, (Function.update G a.1.variable
      { G a.1.variable with entry := none } v).entry = some (k, p') →
      (G v).entry = some (k, p') ∧ v ≠ a.1.variable := by
    intro v k p' hv
    by_cases hva : v = a.1.variable
    · subst hva
      rw [Function.update_self] at hv
      cases hv
    · rw [Function.update_of_ne hva] at hv
      exact ⟨hv, hva⟩
  refine ⟨m.erase i, _, ⟨href, ?_, ?_, ?_⟩, hk.same rfl rfl rfl rfl ?_ ?_, hw.move ha rfl ?_⟩
  · intro v'
    exact (hl.var v').trans (slot_same Slot.var (by rfl) v').symm
  · intro v' k p' hv'
    obtain ⟨hv', hne⟩ := hold hv'
    have hki : k ≠ i := by
      rintro rfl
      exact hne (hl.apart _ _ _ _ _ hv' hentry)
    rw [Finmap.lookup_erase_ne hki]
    exact hl.entry v' k p' hv'
  · intro v₁ v₂ k p₁ p₂ h₁ h₂
    exact hl.apart v₁ v₂ k p₁ p₂ (hold h₁).1 (hold h₂).1
  · exact slot_same Slot.link rfl
  · exact slot_same Slot.ran rfl
  · intro v'
    exact (hw.asked v').trans (slot_same Slot.asked (by rfl) v').symm

/-- A new link has a number of its own, at an address that is free. -/
theorem Tied.linkCreate (hl : Listed s m G) (hk : Linked s G) (hw : Threaded s g G)
    (ha : (g t).call = some a) (hnone : (g t).slot.link = none) (hran : (g t).slot.ran = false)
    {p : Nat} (hfree : s.link p = none) :
    Tied { s with
        link := Function.update s.link p (some ⟨s.seen.created, []⟩)
        seen := { s.seen with created := s.seen.created + 1 } }
      (Function.update g t
        ⟨some a, { (g t).slot with link := some (p, ⟨s.seen.created, []⟩) }⟩) := by
  rw [hw.slot t a ha] at hnone hran ⊢
  have hcases : ∀ {v q l}, (Function.update G a.1.variable
      { G a.1.variable with link := some (p, ⟨s.seen.created, []⟩) } v).link = some (q, l) →
      v = a.1.variable ∧ q = p ∧ l = ⟨s.seen.created, []⟩ ∨
        v ≠ a.1.variable ∧ (G v).link = some (q, l) ∧ q ≠ p ∧ l.number < s.seen.created := by
    intro v q l hv
    by_cases hva : v = a.1.variable
    · subst hva
      rw [Function.update_self] at hv
      cases hv
      exact .inl ⟨rfl, rfl, rfl⟩
    · rw [Function.update_of_ne hva] at hv
      refine .inr ⟨hva, hv, ?_, (hk.number v q l hv).1⟩
      rintro rfl
      cases hfree.symm.trans (hk.live v q l hv)
  refine ⟨m, _, hl.same rfl ?_ ?_, ⟨?_, ?_, ?_, ?_, ?_, ?_, hk.executedOnce, hk.deletedOnce,
    hk.exact⟩, hw.move ha rfl ?_⟩
  · intro v'
    exact (hl.var v').trans (slot_same Slot.var (by rfl) v').symm
  · exact slot_same Slot.entry rfl
  · intro v q l hv
    rcases hcases hv with ⟨-, rfl, rfl⟩ | ⟨-, hv, hq, -⟩
    · exact Function.update_self ..
    · dsimp only
      rw [Function.update_of_ne hq]
      exact hk.live v q l hv
  · intro v₁ v₂ q₁ q₂ l₁ l₂ h₁ h₂ heq
    rcases hcases h₁ with ⟨rfl, rfl, rfl⟩ | ⟨hv₁, h₁, hq₁, hn₁⟩
    · rcases hcases h₂ with ⟨rfl, rfl, rfl⟩ | ⟨hv₂, h₂, hq₂, hn₂⟩
      · rfl
      · rcases heq with heq | heq
        · exact absurd heq.symm hq₂
        · exact absurd heq.symm (Nat.ne_of_lt hn₂)
    · rcases hcases h₂ with ⟨rfl, rfl, rfl⟩ | ⟨hv₂, h₂, hq₂, hn₂⟩
      · rcases heq with heq | heq
        · exact absurd heq hq₁
        · exact absurd heq (Nat.ne_of_lt hn₁)
      · exact hk.apart v₁ v₂ q₁ q₂ l₁ l₂ h₁ h₂ heq
  · intro v q l hv
    rcases hcases hv with ⟨rfl, rfl, rfl⟩ | ⟨hne, hv, -, hn⟩
    · refine ⟨Nat.lt_succ_self _, ?_, ?_⟩
      · intro hdel
        exact absurd (hk.deleted _ hdel).1 (Nat.lt_irrefl _)
      · rw [Function.update_self]
        dsimp only
        rw [hran]
        refine ⟨fun hno => absurd hno Bool.false_ne_true, ?_⟩
        intro hexec
        exact absurd (hk.executed _ hexec) (Nat.lt_irrefl _)
    · obtain ⟨hlt, hdel, hiff⟩ := hk.number v q l hv
      rw [Function.update_of_ne hne]
      exact ⟨Nat.lt_succ_of_lt hlt, hdel, hiff⟩
  · intro n hn
    rcases Nat.lt_succ_iff_lt_or_eq.mp hn with hlt | rfl
    · rcases hk.known n hlt with hdel | ⟨v, q, l, hv, hnum⟩
      · exact .inl hdel
      · have hva : v ≠ a.1.variable := by
          rintro rfl
          rw [hnone] at hv
          cases hv
        refine .inr ⟨v, q, l, ?_, hnum⟩
        rw [Function.update_of_ne hva]
        exact hv
    · exact .inr ⟨a.1.variable, p, _, by rw [Function.update_self], rfl⟩
  · intro n hn
    obtain ⟨hlt, hexec⟩ := hk.deleted n hn
    exact ⟨Nat.lt_succ_of_lt hlt, hexec⟩
  · intro n hn
    exact Nat.lt_succ_of_lt (hk.executed n hn)
  · intro v'
    exact (hw.asked v').trans (slot_same Slot.asked (by rfl) v').symm

/-- The links of the variables after a change of the link of one. -/
theorem link_cases {y : Option (Nat × Link)} {b : Bool} {u : Nat} {q : Nat} {l : Link}
    (hu : (Function.update G v { G v with link := y, ran := b } u).link = some (q, l)) :
    u = v ∧ y = some (q, l) ∨ u ≠ v ∧ (G u).link = some (q, l) := by
  by_cases huv : u = v
  · subst huv
    rw [Function.update_self] at hu
    exact .inl ⟨rfl, hu⟩
  · rw [Function.update_of_ne huv] at hu
    exact .inr ⟨huv, hu⟩

/-- A link that was executed is deleted. -/
theorem Tied.linkDelete (hl : Listed s m G) (hk : Linked s G) (hw : Threaded s g G)
    (ha : (g t).call = some a) {p : Nat} {l : Link} (hlink : (g t).slot.link = some (p, l))
    (hran : (g t).slot.ran = true) (hr : s.linkDelete (some p) = .ok s') :
    Tied s' (Function.update g t ⟨some a, { (g t).slot with link := none, ran := false }⟩) := by
  rw [hw.slot t a ha] at hlink hran ⊢
  obtain ⟨l', hlive, hr⟩ := bind_eq_ok.mp hr
  have hp := hk.live _ _ _ hlink
  unfold Bus.live at hlive
  rw [hp] at hlive
  cases hlive
  cases hr
  obtain ⟨hlt, hdel, hexec⟩ := hk.number _ _ _ hlink
  have hcases : ∀ {u q k}, (Function.update G a.1.variable
      { G a.1.variable with link := none, ran := false } u).link = some (q, k) →
      u ≠ a.1.variable ∧ (G u).link = some (q, k) ∧ q ≠ p ∧ k.number ≠ l.number := by
    intro u q k hu
    rcases link_cases hu with ⟨-, hnone⟩ | ⟨hne, hu⟩
    · cases hnone
    · refine ⟨hne, hu, ?_, ?_⟩
      · exact fun heq => hne (hk.apart _ _ _ _ _ _ hu hlink (.inl heq))
      · exact fun heq => hne (hk.apart _ _ _ _ _ _ hu hlink (.inr heq))
  refine ⟨m, _, hl.same rfl ?_ ?_, ⟨?_, ?_, ?_, ?_, ?_, hk.executed, hk.executedOnce, ?_,
    hk.exact⟩, hw.move ha rfl ?_⟩
  · intro v'
    exact (hl.var v').trans (slot_same Slot.var (by rfl) v').symm
  · exact slot_same Slot.entry rfl
  · intro u q k hu
    obtain ⟨-, hu, hq, -⟩ := hcases hu
    dsimp only
    rw [Function.update_of_ne hq]
    exact hk.live u q k hu
  · intro v₁ v₂ q₁ q₂ l₁ l₂ h₁ h₂ heq
    exact hk.apart v₁ v₂ q₁ q₂ l₁ l₂ (hcases h₁).2.1 (hcases h₂).2.1 heq
  · intro u q k hu
    obtain ⟨hne, hu, -, hnum⟩ := hcases hu
    obtain ⟨hlt', hdel', hiff⟩ := hk.number u q k hu
    rw [Function.update_of_ne hne]
    refine ⟨hlt', ?_, hiff⟩
    intro hmem
    rcases List.mem_cons.mp hmem with heq | hmem
    · exact hnum heq
    · exact hdel' hmem
  · intro n hn
    by_cases hnl : n = l.number
    · exact .inl (List.mem_cons.mpr (.inl hnl))
    · rcases hk.known n hn with hmem | ⟨u, q, k, hu, hnum⟩
      · exact .inl (List.mem_cons_of_mem _ hmem)
      · have hne : u ≠ a.1.variable := by
          rintro rfl
          cases hlink.symm.trans hu
          exact hnl hnum.symm
        refine .inr ⟨u, q, k, ?_, hnum⟩
        rw [Function.update_of_ne hne]
        exact hu
  · intro n hn
    rcases List.mem_cons.mp hn with rfl | hn
    · exact ⟨hlt, hexec.mp hran⟩
    · exact hk.deleted n hn
  · exact List.nodup_cons.mpr ⟨hdel, hk.deletedOnce⟩
  · intro v'
    exact (hw.asked v').trans (slot_same Slot.asked (by rfl) v').symm

/-- A command is queued in the link of the variable, which keeps its number. -/
theorem Tied.queue (hl : Listed s m G) (hk : Linked s G) (hw : Threaded s g G)
    (ha : (g t).call = some a) {p : Nat} {l : Link} (hlink : (g t).slot.link = some (p, l))
    {c : Cmd} (hr : s.queue true c (some p) = .ok s') :
    Tied s' (Function.update g t
      ⟨some a, { (g t).slot with link := some (p, { l with cmds := l.cmds ++ [c] }) }⟩) := by
  rw [hw.slot t a ha] at hlink ⊢
  obtain ⟨l', hlive, hr⟩ := bind_eq_ok.mp hr
  unfold Bus.live at hlive
  rw [hk.live _ _ _ hlink] at hlive
  cases hlive
  cases hr
  rw [if_pos rfl]
  -- a link after the step was one before, at the same address and with the same number
  have hold : ∀ {u q k}, (Function.update G a.1.variable { G a.1.variable with
      link := some (p, { l with cmds := l.cmds ++ [c] }) } u).link = some (q, k) →
      ∃ k', (G u).link = some (q, k') ∧ k'.number = k.number ∧
        (u = a.1.variable ∧ q = p ∧ k = { l with cmds := l.cmds ++ [c] } ∨
          u ≠ a.1.variable ∧ q ≠ p ∧ k = k') := by
    intro u q k hu
    rcases link_cases hu with ⟨rfl, hy⟩ | ⟨hne, hu⟩
    · cases hy
      exact ⟨l, hlink, rfl, .inl ⟨rfl, rfl, rfl⟩⟩
    · refine ⟨k, hu, rfl, .inr ⟨hne, ?_, rfl⟩⟩
      exact fun heq => hne (hk.apart _ _ _ _ _ _ hu hlink (.inl heq))
  refine ⟨m, _, hl.same rfl ?_ ?_, ⟨?_, ?_, ?_, ?_, hk.deleted, hk.executed, hk.executedOnce,
    hk.deletedOnce, hk.exact⟩, hw.move ha rfl ?_⟩
  · intro v'
    exact (hl.var v').trans (slot_same Slot.var (by rfl) v').symm
  · exact slot_same Slot.entry rfl
  · intro u q k hu
    obtain ⟨k', hu, -, ⟨rfl, rfl, rfl⟩ | ⟨-, hq, rfl⟩⟩ := hold hu
    · exact Function.update_self ..
    · dsimp only
      rw [Function.update_of_ne hq]
      exact hk.live u q _ hu
  · intro v₁ v₂ q₁ q₂ l₁ l₂ h₁ h₂ heq
    obtain ⟨k₁, h₁, hn₁, -⟩ := hold h₁
    obtain ⟨k₂, h₂, hn₂, -⟩ := hold h₂
    rw [← hn₁, ← hn₂] at heq
    exact hk.apart v₁ v₂ q₁ q₂ k₁ k₂ h₁ h₂ heq
  · intro u q k hu
    obtain ⟨k', hu, hnum, -⟩ := hold hu
    rw [slot_same Slot.ran (by rfl), ← hnum]
    exact hk.number u q k' hu
  · intro n hn
    rcases hk.known n hn with hmem | ⟨u, q, k, hu, hnum⟩
    · exact .inl hmem
    · by_cases hne : u = a.1.variable
      · subst hne
        cases hlink.symm.trans hu
        refine .inr ⟨a.1.variable, p, { l with cmds := l.cmds ++ [c] }, ?_, hnum⟩
        rw [Function.update_self]
      · refine .inr ⟨u, q, k, ?_, hnum⟩
        rw [Function.update_of_ne hne]
        exact hu
  · intro v'
    exact (hw.asked v').trans (slot_same Slot.asked (by rfl) v').symm

omit [DecidableEq Tid] in
/-- What is executed is what was asked for, where the buffers hold what they held. -/
theorem Matches.exact {cmds : List Cmd} {as : List Asked} {u : Int} {n : Nat}
    {mem : Int → Byte} (hm : Matches cmds as) (hu : ∀ b ∈ as, b.1.unit = u)
    (hmem : ∀ b ∈ as, b.SameBuffer mem) :
    Transfer.Exact ⟨n, u, cmds.flatMap (Cmd.wires mem), some (as.flatMap Asked.requests)⟩ := by
  unfold Transfer.Exact
  rw [hm mem hmem, List.map_flatMap]
  refine congrArg some (List.flatMap_congr fun b hb => ?_)
  unfold Asked.requests
  rw [hu b hb]

theorem Tied.cmdBegin (hl : Listed s m G) (hk : Linked s G) (hw : Threaded s g G)
    {u : Int} {cmd : Option Nat} (hmay : (g t).MayRun u cmd)
    (hmem : ∀ b ∈ s.seen.current t, ∀ as ∈ s.seen.asked b.1.variable,
      ∀ c ∈ as ++ [b], c.SameBuffer env.mem) {err : EspErr}
    (hr : s.cmdBegin t env u cmd = .ok (s', err)) :
    Tied s' (Function.update g t
      { g t with slot := { (g t).slot with ran := true, asked := none } }) := by
  obtain ⟨p, l, a, as, rfl, hlink, ha, hasked, hm, hunit, honly⟩ := hmay.link
  have hran := hmay.ran
  have hsame : ({ g t with slot := { (g t).slot with ran := true, asked := none } } : Grip) =
      ⟨some a, { (g t).slot with ran := true, asked := none }⟩ := by
    show (⟨(g t).call, _⟩ : Grip) = _
    rw [ha]
  rw [hsame]
  rw [hw.slot t a ha] at hlink hasked honly hran ⊢
  have hcurrent : s.seen.current t = some a := (hw.call t).trans ha
  have haskedBus : s.seen.asked a.1.variable = some as := (hw.asked _).trans hasked
  obtain ⟨l', hlive, hr⟩ := bind_eq_ok.mp hr
  unfold Bus.live at hlive
  rw [hk.live _ _ _ hlink] at hlive
  cases hlive
  cases hr
  obtain ⟨hlt, hdel, hexec⟩ := hk.number _ _ _ hlink
  have hnew : l.number ∉ s.seen.numbers := by
    intro hmem
    rw [hexec.mpr hmem] at hran
    cases hran
  refine ⟨m, _, hl.same rfl ?_ ?_, ⟨?_, ?_, ?_, ?_, ?_, ?_, ?_, hk.deletedOnce, ?_⟩,
    hw.move ha rfl ?_⟩
  · intro v'
    exact (hl.var v').trans (slot_same Slot.var (by rfl) v').symm
  · exact slot_same Slot.entry rfl
  · intro v' q k hv'
    rw [slot_same Slot.link (by rfl)] at hv'
    exact hk.live v' q k hv'
  · intro v₁ v₂ q₁ q₂ l₁ l₂ h₁ h₂ heq
    rw [slot_same Slot.link (by rfl)] at h₁ h₂
    exact hk.apart v₁ v₂ q₁ q₂ l₁ l₂ h₁ h₂ heq
  · intro v' q k hv'
    rw [slot_same Slot.link (by rfl)] at hv'
    obtain ⟨hlt', hdel', hiff⟩ := hk.number v' q k hv'
    refine ⟨hlt', hdel', ?_⟩
    by_cases hva : v' = a.1.variable
    · subst hva
      cases hlink.symm.trans hv'
      rw [Function.update_self]
      exact ⟨fun _ => List.mem_cons_self .., fun _ => rfl⟩
    · rw [Function.update_of_ne hva, hiff]
      refine ⟨List.mem_cons_of_mem _, ?_⟩
      intro hmem
      rcases List.mem_cons.mp hmem with heq | hmem
      · exact absurd (hk.apart _ _ _ _ _ _ hv' hlink (.inr heq)) hva
      · exact hmem
  · intro n hn
    rcases hk.known n hn with hmem | ⟨v', q, k, hv', hnum⟩
    · exact .inl hmem
    · refine .inr ⟨v', q, k, ?_, hnum⟩
      rw [slot_same Slot.link (by rfl)]
      exact hv'
  · intro n hn
    obtain ⟨hlt', hmem⟩ := hk.deleted n hn
    exact ⟨hlt', List.mem_cons_of_mem _ hmem⟩
  · intro n hn
    rcases List.mem_cons.mp hn with rfl | hn
    · exact hlt
    · exact hk.executed n hn
  · exact List.nodup_cons.mpr ⟨hnew, hk.executedOnce⟩
  · intro y hy
    rcases List.mem_cons.mp hy with rfl | hy
    · have haskedBy : s.seen.askedBy t = some ((as ++ [a]).flatMap Asked.requests) := by
        unfold History.askedBy
        rw [hcurrent, Option.bind_some, haskedBus, Option.map_some]
      rw [haskedBy]
      apply hm.exact
      · intro b hb
        rcases List.mem_append.mp hb with hb | hb
        · exact honly as hasked b hb
        · rw [List.mem_singleton.mp hb]
          exact hunit
      · exact hmem a hcurrent as haskedBus
    · exact hk.exact y hy
  · intro v'
    dsimp only
    rw [hcurrent]
    dsimp only
    by_cases hv : v' = a.1.variable
    · subst hv
      rw [Function.update_self, Function.update_self]
    · rw [Function.update_of_ne hv, Function.update_of_ne hv]
      exact hw.asked v'

/-- A call begins at a variable that no other call is at. -/
theorem Tied.invoke (hl : Listed s m G) (hk : Linked s G) (hw : Threaded s g G)
    (hnone : (g t).call = none) {c : Call} {mem : Int → Byte}
    (hothers : ∀ t', ∀ b ∈ s.seen.current t', b.1.variable ≠ c.variable) :
    (G c.variable).Resting ∧
      Tied { s with seen := { s.seen with
          current := Function.update s.seen.current t (some (c, mem)) } }
        (Function.update g t ⟨some (c, mem), G c.variable⟩) := by
  have hfree : ∀ t' b, (g t').call = some b → b.1.variable ≠ c.variable := by
    intro t' b hb
    exact hothers t' b ((hw.call t').trans hb)
  refine ⟨hw.rests _ hfree, m, G, hl.same rfl hl.var fun _ => rfl,
    hk.same rfl rfl rfl rfl (fun _ => rfl) fun _ => rfl, ⟨?_, hw.asked, ?_, ?_, ?_, ?_⟩⟩
  · intro t'
    by_cases ht : t' = t
    · subst ht
      simp
    · simpa [ht] using hw.call t'
  · intro t' b hb
    by_cases ht : t' = t
    · subst ht
      rw [Function.update_self] at hb ⊢
      cases hb
      rfl
    · rw [Function.update_of_ne ht] at hb ⊢
      exact hw.slot t' b hb
  · intro t' hb
    by_cases ht : t' = t
    · subst ht
      rw [Function.update_self] at hb
      cases hb
    · rw [Function.update_of_ne ht] at hb ⊢
      exact hw.idle t' hb
  · intro t₁ t₂ b₁ b₂ h₁ h₂ heq
    by_cases ht₁ : t₁ = t
    · by_cases ht₂ : t₂ = t
      · rw [ht₁, ht₂]
      · subst ht₁
        rw [Function.update_self] at h₁
        rw [Function.update_of_ne ht₂] at h₂
        cases h₁
        exact absurd heq.symm (hfree t₂ b₂ h₂)
    · rw [Function.update_of_ne ht₁] at h₁
      by_cases ht₂ : t₂ = t
      · subst ht₂
        rw [Function.update_self] at h₂
        cases h₂
        exact absurd heq (hfree t₁ b₁ h₁)
      · rw [Function.update_of_ne ht₂] at h₂
        exact hw.apart t₁ t₂ b₁ b₂ h₁ h₂ heq
  · intro v hv
    refine hw.rests v fun t' b hb => ?_
    by_cases ht : t' = t
    · subst ht
      cases hnone.symm.trans hb
    · refine hv t' b ?_
      rw [Function.update_of_ne ht]
      exact hb

omit [DecidableEq Tid] in
theorem Slot.returned_asked (x : Slot) (a : Asked) (e : Option I2cErr) :
    (x.returned a e).asked =
      if e = none ∧ a.1.opens then some (x.asked.getD [] ++ [a]) else x.asked := by
  unfold Slot.returned
  split
  · rfl
  · rfl

omit [DecidableEq Tid] in
/-- A return changes nothing but what was asked for. -/
theorem Slot.returned_same {β : Type} (f : Slot → β) (hf : ∀ x as, f { x with asked := as } = f x)
    (x : Slot) (a : Asked) (e : Option I2cErr) : f (x.returned a e) = f x := by
  unfold Slot.returned
  split
  · exact hf x _
  · rfl

/-- A call leaves its variable at rest. -/
theorem Tied.returns (hl : Listed s m G) (hk : Linked s G) (hw : Threaded s g G)
    {e : Option I2cErr} (hmay : (g t).MayReturn e) :
    Tied { s with seen := s.seen.returns t e } (Function.update g t ⟨none, .closed⟩) := by
  have hcall := hw.call t
  cases ha : (g t).call with
  | none =>
    have hsame : Function.update g t ⟨none, .closed⟩ = g := by
      rw [← hw.idle t ha, ← ha]
      exact Function.update_eq_self ..
    rw [ha] at hcall
    rw [hsame]
    refine ⟨m, G, hl.same rfl hl.var fun _ => rfl,
      hk.same rfl rfl rfl rfl (fun _ => rfl) fun _ => rfl,
      ⟨?_, ?_, hw.slot, hw.idle, hw.apart, hw.rests⟩⟩
    · intro t'
      by_cases ht : t' = t
      · subst ht
        simpa [History.returns] using ha.symm
      · simpa [History.returns, ht] using hw.call t'
    · intro v'
      simpa [History.returns, hcall] using hw.asked v'
  | some a =>
    have hrest := hmay.rests a ha
    rw [hw.slot t a ha] at hrest
    rw [ha] at hcall
    refine ⟨m, Function.update G a.1.variable ((G a.1.variable).returned a e), hl.same rfl ?_ ?_,
      hk.same rfl rfl rfl rfl ?_ ?_, ⟨?_, ?_, ?_, ?_, ?_, ?_⟩⟩
    · intro v'
      refine (hl.var v').trans (slot_same Slot.var ?_ v').symm
      exact Slot.returned_same Slot.var (fun _ _ => rfl) _ _ _
    · exact slot_same Slot.entry (Slot.returned_same Slot.entry (fun _ _ => rfl) _ _ _)
    · exact slot_same Slot.link (Slot.returned_same Slot.link (fun _ _ => rfl) _ _ _)
    · exact slot_same Slot.ran (Slot.returned_same Slot.ran (fun _ _ => rfl) _ _ _)
    · intro t'
      by_cases ht : t' = t
      · subst ht
        simp [History.returns]
      · simpa [History.returns, ht] using hw.call t'
    · intro v'
      have hasked := hw.asked a.1.variable
      by_cases hv : v' = a.1.variable
      · subst hv
        rw [Function.update_self, Slot.returned_asked, ← hasked]
        unfold History.returns
        rw [hcall]
        dsimp only
        split
        · rw [Function.update_self]
        · rfl
      · rw [Function.update_of_ne hv]
        unfold History.returns
        rw [hcall]
        dsimp only
        split
        · rw [Function.update_of_ne hv]
          exact hw.asked v'
        · exact hw.asked v'
    · intro t' b hb
      have ht : t' ≠ t := by
        rintro rfl
        rw [Function.update_self] at hb
        cases hb
      rw [Function.update_of_ne ht] at hb ⊢
      have hv : b.1.variable ≠ a.1.variable := fun heq => ht (hw.apart t' t b a hb ha heq)
      rw [Function.update_of_ne hv]
      exact hw.slot t' b hb
    · intro t' hb
      by_cases ht : t' = t
      · subst ht
        rw [Function.update_self]
      · rw [Function.update_of_ne ht] at hb ⊢
        exact hw.idle t' hb
    · intro t₁ t₂ b₁ b₂ h₁ h₂ heq
      have hold : ∀ {t' b}, (Function.update g t ⟨none, .closed⟩ t').call = some b →
          (g t').call = some b := by
        intro t' b hb
        by_cases ht : t' = t
        · subst ht
          rw [Function.update_self] at hb
          cases hb
        · rwa [Function.update_of_ne ht] at hb
      exact hw.apart t₁ t₂ b₁ b₂ (hold h₁) (hold h₂) heq
    · intro v' hv
      by_cases hva : v' = a.1.variable
      · subst hva
        rw [Function.update_self]
        exact hrest
      · rw [Function.update_of_ne hva]
        refine hw.rests v' fun t' b hb => ?_
        by_cases ht : t' = t
        · subst ht
          cases ha.symm.trans hb
          exact Ne.symm hva
        · refine hv t' b ?_
          rw [Function.update_of_ne ht]
          exact hb

omit [DecidableEq Tid] in
/-- A step that is about the mutexes only. -/
theorem Tied.same (h : Tied s g) (htransactions : s'.transactions = s.transactions)
    (hlink : s'.link = s.link) (hvar : s'.transaction = s.transaction)
    (hcurrent : s'.seen.current = s.seen.current) (hasked : s'.seen.asked = s.seen.asked)
    (hcreated : s'.seen.created = s.seen.created) (hexecuted : s'.seen.executed = s.seen.executed)
    (hdeleted : s'.seen.deleted = s.seen.deleted) : Tied s' g := by
  obtain ⟨m, G, hl, hk, hw⟩ := h
  refine ⟨m, G, hl.same htransactions (hvar ▸ hl.var) fun _ => rfl,
    hk.same hlink hcreated hexecuted hdeleted (fun _ => rfl) fun _ => rfl,
    ⟨hcurrent ▸ hw.call, hasked ▸ hw.asked, hw.slot, hw.idle, hw.apart, hw.rests⟩⟩

omit [DecidableEq Tid] in
theorem Threaded.inCall (h : Threaded s g G) (hne : (g t).slot ≠ .closed) :
    ∃ a, (g t).call = some a := by
  cases ha : (g t).call with
  | none => exact absurd (h.idle t ha) hne
  | some a => exact ⟨a, rfl⟩

omit [DecidableEq Tid] in
/-- What `list_get` finds with the value of a variable at rest. -/
theorem listGet_slot (hl : Listed s m G) {y : Slot} (hy : y.Resting)
    (hentry : ∀ k p, y.entry = some (k, p) → m.lookup k = some p) {q : Errno × Option Nat}
    (hq : Sys.listGet s.transactions y.var = .ok q) :
    (if q.1 = .success then q.2 else none) = y.entry.map Prod.snd := by
  rcases hy.cases with rfl | ⟨k, p, l, as, rfl, -, -⟩
  · have hdead : m.lookup I2C_TRANSACTION_INITIALIZER = none := by
      refine Finmap.lookup_eq_none.mpr fun hmem => ?_
      obtain ⟨i, e, -, -, hi⟩ := hl.refines.stores.mem_handle hmem
      unfold CList.handle I2C_TRANSACTION_INITIALIZER at hi
      omega
    have hres := listGet_eq_ok hl.refines hq
    rw [show Slot.closed.var = I2C_TRANSACTION_INITIALIZER from rfl, hdead] at hres
    subst hres
    rfl
  · have hlive := listGet_live hl.refines (hentry k p rfl)
    rw [show (Slot.opened k p l (some as)).var = k from rfl, hlive] at hq
    cases hq
    rfl

/-- After each operation the thread knows what the contract says. -/
theorem gripping_step {w : World Tid} (hw : w.Kept gripping Grip.Over Tied g) {o : Op}
    {rest : o.Reply → I2cProg (Option I2cErr)} {r : o.Reply} (hrest : w.rest t = .op o rest)
    (hmay : (g t).may o) (hok : CarefulAt w t env (w.rest t))
    (hr : w.state.run t env o = .ok (some (s', r))) :
    ∃ h', (g t).learns o r h' ∧ Tied s' (Function.update g t h') := by
  rw [hrest] at hok
  -- an operation after which the thread knows what it knew
  have hstay : ∀ {s₁ : Bus Tid}, Tied s₁ g → Tied s₁ (Function.update g t (g t)) := by
    intro s₁ hs₁
    rwa [Function.update_eq_self]
  have hagree := hw.agree
  obtain ⟨m, G, hl, hk, ht⟩ := hw.agree
  cases o with
  | fault f => exact r.elim
  | unit u =>
    obtain ⟨-, -, hr⟩ := bind_eq_ok.mp hr
    cases hr
    exact ⟨_, rfl, hstay hagree⟩
  | lock u =>
    obtain ⟨p, hp, hr⟩ := bind_eq_ok.mp hr
    obtain ⟨s₁, hs, hr⟩ := Option.map_eq_some_iff.mp (Except.ok.inj hr)
    cases hr
    subst hs
    obtain ⟨sem, -, hp⟩ := bind_eq_ok.mp hp
    obtain ⟨sem', -, rfl⟩ := Option.map_eq_some_iff.mp (Except.ok.inj hp)
    exact ⟨_, rfl, hstay (hagree.same rfl rfl rfl rfl rfl rfl rfl rfl)⟩
  | unlock u =>
    obtain ⟨s₁, hs, hr⟩ := bind_eq_ok.mp hr
    cases hr
    obtain ⟨sem, -, hs⟩ := bind_eq_ok.mp hs
    cases hs
    exact ⟨_, rfl, hstay (hagree.same rfl rfl rfl rfl rfl rfl rfl rfl)⟩
  | operationError e =>
    cases hr
    have herror : env.error = true := hok
    rw [herror]
    exact ⟨_, ⟨rfl, rfl⟩, hstay hagree⟩
  | transaction v =>
    cases hr
    obtain ⟨a, ha, rfl⟩ := hmay
    refine ⟨_, ⟨?_, rfl⟩, hstay hagree⟩
    rw [ht.slot t a ha]
    exact hl.var _
  | setTransaction v i =>
    cases hr
    obtain ⟨a, ha, rfl⟩ := hmay
    refine ⟨_, rfl, ?_⟩
    rw [ha]
    exact Tied.setTransaction hl hk ht ha
  | listGet i =>
    obtain ⟨q, hq, hr⟩ := bind_eq_ok.mp hr
    cases hr
    obtain ⟨rfl, hresting⟩ := hmay
    refine ⟨_, ⟨listGet_slot hl hresting ?_ hq, rfl⟩, hstay hagree⟩
    intro k p hkp
    obtain ⟨a, ha⟩ := ht.inCall (t := t) fun hclosed => by
      rw [hclosed] at hkp
      cases hkp
    rw [ht.slot t a ha] at hkp
    exact hl.entry _ k p hkp
  | listAdd cmd v =>
    obtain ⟨⟨s₁, added⟩, hs, hr⟩ := bind_eq_ok.mp hr
    cases hr
    obtain ⟨⟨a, ha, rfl⟩, -, -⟩ := hmay
    obtain ⟨rfl, k, hpos, htied⟩ := Tied.listAdd hl hk ht ha hok hs
    refine ⟨_, ⟨rfl, k, hpos, rfl⟩, ?_⟩
    rw [ha]
    exact htied
  | listRemove i =>
    obtain ⟨q, hq, hr⟩ := bind_eq_ok.mp hr
    cases hr
    obtain ⟨p, hentry⟩ := hmay
    obtain ⟨a, ha⟩ := ht.inCall (t := t) fun hclosed => by
      rw [hclosed] at hentry
      cases hentry
    refine ⟨_, rfl, ?_⟩
    rw [ha]
    exact Tied.listRemove hl hk ht ha hentry hq
  | linkCreate =>
    have hc : w.state.linkCreate env.link = some (s', r) := Except.ok.inj hr
    obtain ⟨hnone, hran, hcall⟩ := hmay
    obtain ⟨a, ha⟩ := Option.ne_none_iff_exists'.mp hcall
    unfold Bus.linkCreate at hc
    split at hc
    · cases hc
      exact ⟨_, .inl ⟨rfl, rfl⟩, hstay hagree⟩
    · next p _ =>
      obtain ⟨hfree, hc⟩ := Option.ite_none_right_eq_some.mp hc
      cases hc
      refine ⟨_, .inr ⟨p, w.state.seen.created, rfl, rfl⟩, ?_⟩
      rw [ha]
      exact Tied.linkCreate hl hk ht ha hnone hran hfree
  | linkDelete cmd =>
    obtain ⟨s₁, hs, hr⟩ := bind_eq_ok.mp hr
    cases hr
    obtain ⟨p, l, rfl, hlink, hran⟩ := hmay
    obtain ⟨a, ha⟩ := ht.inCall (t := t) fun hclosed => by
      rw [hclosed] at hlink
      cases hlink
    refine ⟨_, rfl, ?_⟩
    rw [ha]
    exact Tied.linkDelete hl hk ht ha hlink hran hs
  | queue cmd c =>
    obtain ⟨s₁, hs, hr⟩ := bind_eq_ok.mp hr
    cases hr
    obtain ⟨p, l, rfl, hlink⟩ := hmay
    obtain ⟨a, ha⟩ := ht.inCall (t := t) fun hclosed => by
      rw [hclosed] at hlink
      cases hlink
    have hqueued : env.queued = true := hok
    rw [hqueued] at hs
    refine ⟨⟨some a, _⟩, ?_, Tied.queue hl hk ht ha hlink hs⟩
    intro p' l' hlink'
    cases hlink.symm.trans hlink'
    rw [ha]
  | load data =>
    cases hr
    refine ⟨_, ⟨?_, rfl⟩, hstay hagree⟩
    intro a ha
    exact hok a ((ht.call t).trans ha)
  | cmdBegin u cmd =>
    obtain ⟨⟨s₁, err⟩, hs, hr⟩ := bind_eq_ok.mp hr
    cases hr
    exact ⟨_, rfl, Tied.cmdBegin hl hk ht hmay hok hs⟩
  | invoke c =>
    cases hr
    obtain ⟨hresting, htied⟩ := Tied.invoke hl hk ht hmay hok.1
    refine ⟨_, ⟨env.mem, rfl, hresting, ?_⟩, htied⟩
    intro as has b hb
    refine hok.2 as ?_ b hb
    rw [Option.mem_def, ht.asked]
    exact has
  | returns e =>
    cases hr
    exact ⟨_, rfl, Tied.returns hl hk ht hmay⟩

omit [DecidableEq Tid] in
/-- A variable at rest that leads to a link has that link. -/
theorem openAt_iff (hl : Listed s m G) (hk : Linked s G) (hx : (G v).Resting) {l : Link} :
    s.OpenAt v l ↔ ∃ k p as, G v = .opened k p l (some as) := by
  constructor
  · rintro ⟨p, hget, hlive⟩
    rw [hl.var] at hget
    have hfound := listGet_slot hl hx (hl.entry v) hget
    rcases hx.cases with hclosed | ⟨k, p', l', as, hopen, -, -⟩
    · rw [hclosed] at hfound
      cases hfound
    · rw [hopen] at hfound
      cases hfound
      have hlink : (G v).link = some (p', l') := by rw [hopen]; rfl
      cases hlive.symm.trans (hk.live v p' l' hlink)
      exact ⟨k, p', as, hopen⟩
  · rintro ⟨k, p, as, hopen⟩
    have hentry : (G v).entry = some (k, p) := by rw [hopen]; rfl
    have hlink : (G v).link = some (p, l) := by rw [hopen]; rfl
    refine ⟨p, ?_, hk.live v p l hlink⟩
    rw [hl.var, hopen]
    exact listGet_live hl.refines (hl.entry v k p hentry)

/-- In every run in which the calls are careful, the transactions are isolated. -/
theorem i2c_isolated {unit : Int → Driver.I2cUnit} {w : World Tid}
    (h : (threads Tid (i2cInit Tid unit)).Reach Careful w) : Isolated w := by
  obtain ⟨g, hw⟩ : ∃ g, w.Kept gripping Grip.Over Tied g := by
    apply Machine.kept _ _ _ h
    · exact ⟨fun _ => ⟨none, .closed⟩, .init unit, fun _ => rfl⟩
    · intro w g t c a hw _ hpost hok
      refine ⟨g t, ?_, grips_program hok hpost⟩
      rw [Function.update_eq_self]
      exact hw.agree
    · intro w g t env o rest s' r hw hrest hmay hok hrun
      have hq := Option.join_eq_some_iff.mp hrun
      exact gripping_step hw hrest hmay hok (toOption_eq_some.mp hq)
  obtain ⟨m, G, hl, hk, ht⟩ := hw.agree
  have hrests : ∀ v, ¬ w.state.InCall v → (G v).Resting := by
    intro v hv
    refine ht.rests v fun t a ha heq => hv ⟨t, a, ?_, heq⟩
    rw [ht.call]
    exact ha
  refine ⟨hk.exact, hk.executedOnce, hk.deletedOnce, ?_, ?_, ?_, ?_⟩
  · intro hidle n hn
    rcases hk.known n hn with hdel | ⟨v, p, l, hlink, rfl⟩
    · exact .inl ⟨(hk.deleted n hdel).2, hdel⟩
    · obtain ⟨-, hdel, hiff⟩ := hk.number v p l hlink
      rcases (hrests v (hidle v)).cases with hclosed | ⟨k, p', l', as, hopen, -, -⟩
      · rw [hclosed] at hlink
        cases hlink
      · have hlink' : (G v).link = some (p', l') := by rw [hopen]; rfl
        cases hlink.symm.trans hlink'
        refine .inr ⟨?_, hdel, v, l, ?_, rfl⟩
        · intro hexec
          have hran := hiff.mpr hexec
          rw [hopen] at hran
          cases hran
        · exact (openAt_iff hl hk (hrests v (hidle v))).mpr ⟨k, p, as, hopen⟩
  · intro v hv
    rw [hl.var, ht.asked]
    rcases (hrests v hv).cases with hclosed | ⟨k, p, l, as, hopen, -, -⟩
    · rw [hclosed]
      exact .inl ⟨rfl, rfl⟩
    · refine .inr ⟨l, as, (openAt_iff hl hk (hrests v hv)).mpr ⟨k, p, as, hopen⟩, ?_⟩
      rw [hopen]
      rfl
  · intro v v' l l' hv hv' hopen hopen' heq
    obtain ⟨k, p, as, hx⟩ := (openAt_iff hl hk (hrests v hv)).mp hopen
    obtain ⟨k', p', as', hx'⟩ := (openAt_iff hl hk (hrests v' hv')).mp hopen'
    refine hk.apart v v' p p' l l' ?_ ?_ (.inr heq)
    · rw [hx]
      rfl
    · rw [hx']
      rfl
  · intro t a ha hends hnext
    have hkeep := hw.keeps t
    cases hrest : w.rest t with
    | pure e =>
      rw [hrest] at hnext
      cases hnext
    | op o rest =>
      rw [hrest] at hnext hkeep
      obtain rfl : o = .returns none := Option.some.inj hnext
      have hcall : (g t).call = some a := (ht.call t).symm.trans ha
      have hmay : (g t).MayReturn none := hkeep.1
      rw [ht.asked, ← ht.slot t a hcall]
      exact hmay.ends a hcall hends rfl

end Ties

/-! ## Two threads -/

instance (a : Asked) (mem : Int → Byte) : Decidable (a.SameBuffer mem) :=
  match a with
  | (.write _ _ _ _, _) => inferInstanceAs (Decidable (∀ _ < _, _))
  | (.start _ _, _) | (.stop _ _, _) | (.writeAddress _ _ _ _, _) | (.read _ _ _ _, _)
  | (.flush _ _ _, _) => .isTrue trivial

instance : (c : Call) → Decidable c.HasLength
  | .write _ _ _ _ => inferInstanceAs (Decidable (_ ≤ _))
  | .read _ _ _ _ => inferInstanceAs (Decidable (_ ≤ _))
  | .start _ _ | .stop _ _ | .writeAddress _ _ _ _ | .flush _ _ _ => .isTrue trivial

instance (l : CList Nat) (malloc : Option (Nat → ListIndex Nat)) : Decidable (AddCond l malloc) :=
  inferInstanceAs (Decidable (_ ∨ _))

instance {Tid : Type} [Fintype Tid] (w : World Tid) (t : Tid) (env : Env) :
    (p : I2cProg (Option I2cErr)) → Decidable (CarefulAt w t env p)
  | .op (.invoke _) _ => inferInstanceAs (Decidable (_ ∧ _))
  | .op (.operationError _) _ => inferInstanceAs (Decidable (_ = true))
  | .op (.listAdd _ _) _ => inferInstanceAs (Decidable (AddCond ..))
  | .op (.queue _ _) _ => inferInstanceAs (Decidable (_ = true))
  | .op (.load _) _ => inferInstanceAs (Decidable (∀ _ ∈ _, _))
  | .op (.cmdBegin _ _) _ => inferInstanceAs (Decidable (∀ _ ∈ _, _))
  | .pure _ => .isTrue trivial
  | .op (.returns _) _ | .op (.fault _) _ | .op (.unit _) _ | .op (.lock _) _ | .op (.unlock _) _
  | .op (.transaction _) _ | .op (.setTransaction _ _) _ | .op (.listGet _) _
  | .op (.listRemove _) _ | .op .linkCreate _ | .op (.linkDelete _) _ => .isTrue trivial

instance {Tid : Type} [Fintype Tid] (w : World Tid) : (a : Act Tid) → Decidable (Careful w a)
  | .call _ c => inferInstanceAs (Decidable c.HasLength)
  | .next _ _ => inferInstanceAs (Decidable (CarefulAt ..))

/-- Two threads write and read, each through a transaction of its own. -/
theorem i2c_isolated_turns : ∃ w : World Bool,
    w.state.seen.executed.map Transfer.wires =
      [[.start, .receive 8 true, .receive 9 false, .stop], [.start, .send 7, .send 7, .stop]] ∧
    Isolated w := by
  have hrun : ((callSteps true (.start 0 0) (sampleEnv (some 100)) 10 ++
      callSteps false (.start 0 1) (sampleEnv (some 200)) 10 ++
      callSteps true (.write 0 0 5 2) (sampleEnv none) 6 ++
      callSteps false (.read 0 1 8 2) (sampleEnv none) 3 ++
      threadSteps true (sampleEnv none) 3 ++ threadSteps false (sampleEnv none) 7 ++
      callSteps true (.stop 0 0) (sampleEnv none) 14 ++
      callSteps false (.stop 0 1) (sampleEnv none) 14).foldlM
        (Lts.guarded Careful (machine Bool).step)
        ⟨i2cInit Bool sampleUnit, fun _ => .pure none⟩).any
      (fun w : World Bool => decide (w.state.seen.executed.map Transfer.wires =
        [[.start, .receive 8 true, .receive 9 false, .stop],
          [.start, .send 7, .send 7, .stop]])) = true := by
    decide +kernel
  obtain ⟨w, hw, hend⟩ := (Option.any_eq_true ..).mp hrun
  exact ⟨w, of_decide_eq_true hend, i2c_isolated (Lts.Reach.schedule _ hw)⟩

/-- A write of length zero sends a byte. -/
theorem i2cWrite_sends_byte : ∃ w : World Bool,
    (threads Bool (i2cInit Bool sampleUnit)).Reach (fun _ _ => True) w ∧
      (w.state.seen.executed.map fun x => (x.wires, x.asked)) =
        [([.start, .send 7, .stop], some [(0, .start), (0, .stop)])] ∧ ¬ Isolated w := by
  have hrun : ((callSteps true (.start 0 0) (sampleEnv (some 100)) 10 ++
      callSteps true (.write 0 0 5 0) (sampleEnv none) 10 ++
      callSteps true (.stop 0 0) (sampleEnv none) 14).foldlM
        (Lts.guarded (fun _ _ => True) (machine Bool).step)
        ⟨i2cInit Bool sampleUnit, fun _ => .pure none⟩).any
      (fun w : World Bool => decide ((w.state.seen.executed.map fun x => (x.wires, x.asked)) =
        [([.start, .send 7, .stop], some [(0, .start), (0, .stop)])])) = true := by
    decide +kernel
  obtain ⟨w, hw, hend⟩ := (Option.any_eq_true ..).mp hrun
  have hexecuted := of_decide_eq_true hend
  refine ⟨w, Lts.Reach.schedule _ hw, hexecuted, ?_⟩
  intro hisolated
  obtain ⟨x, hx⟩ : ∃ x, w.state.seen.executed = [x] := by
    apply List.length_eq_one_iff.mp
    simpa using congrArg List.length hexecuted
  rw [hx] at hexecuted
  have hexact := hisolated.exact x (by rw [hx]; exact List.mem_singleton.mpr rfl)
  rw [List.map_singleton, List.cons.injEq, Prod.mk.injEq] at hexecuted
  unfold Transfer.Exact at hexact
  rw [hexecuted.1.1, hexecuted.1.2] at hexact
  cases congrArg List.length (Option.some.inj hexact)

end LuaRtos.I2c
