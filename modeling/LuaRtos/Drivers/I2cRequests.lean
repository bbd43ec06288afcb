/-
  LuaRtos.Drivers.I2cRequests

  What a call of i2c.c does with the transaction of its variable, as long as nobody
  else touches it.

  A variable is closed, or open: then the list leads from its value to a command link
  whose commands are what the calls of the transaction asked for.  `Grip` is what a
  thread knows of the variable in between, and every call with a length of at least
  one keeps to `gripping`.
-/

import LuaRtos.Drivers.I2c

namespace LuaRtos.I2c

open CLib Rtos Sys

/-! ## Commands and requests -/

/-- The buffer of a write holds what it held when the call was made. -/
def Asked.SameBuffer (a : Asked) (mem : Int → Byte) : Prop :=
  match a.1 with
  | .write _ _ data len => ∀ i < len.toNat, mem (data + i) = a.2 (data + i)
  | _ => True

/-- The length of a write or a read is at least one. -/
def Call.HasLength : Call → Prop
  | write _ _ _ len => 1 ≤ len
  | read _ _ _ len => 1 ≤ len
  | _ => True

/-- The execution of the commands is what the calls asked for, if the buffers hold what
    they held. -/
def Matches (cmds : List Cmd) (as : List Asked) : Prop :=
  ∀ mem : Int → Byte, (∀ a ∈ as, a.SameBuffer mem) →
    cmds.flatMap (Cmd.wires mem) = as.flatMap fun a => a.1.wires a.2

section Commands

variable {cmds cmds' : List Cmd} {as : List Asked} {a : Asked}

theorem matches_nil : Matches [] [] := fun _ _ => rfl

/-- A call that queues what it asks for. -/
theorem Matches.append (hm : Matches cmds as)
    (ha : ∀ mem, a.SameBuffer mem → cmds'.flatMap (Cmd.wires mem) = a.1.wires a.2) :
    Matches (cmds ++ cmds') (as ++ [a]) := by
  intro mem hmem
  rw [List.flatMap_append, List.flatMap_append, hm mem fun b hb => hmem b (by simp [hb]),
    ha mem (hmem a (by simp))]
  simp

theorem wires_write {u data len : Int} {v : Nat} {mem₀ mem : Int → Byte}
    (hmem : Asked.SameBuffer (.write u v data len, mem₀) mem) :
    [Cmd.write data len.toNat].flatMap (Cmd.wires mem) = (Call.write u v data len).wires mem₀ := by
  have hall : ∀ i ∈ List.range len.toNat, Wire.send (mem (data + i)) = .send (mem₀ (data + i)) := by
    intro i hi
    rw [hmem i (List.mem_range.mp hi)]
  simpa [Cmd.wires, Call.wires] using hall

theorem wires_writeByte {u data : Int} {v : Nat} {mem₀ mem : Int → Byte} :
    [Cmd.writeByte (mem₀ data)].flatMap (Cmd.wires mem) = (Call.write u v data 1).wires mem₀ := by
  simp [Cmd.wires, Call.wires, List.range_succ]

theorem wires_read {u data len : Int} {v : Nat} {mem₀ mem : Int → Byte} (hlen : 1 < len) :
    [Cmd.read data (len - 1).toNat, Cmd.readByte (data + len - 1)].flatMap (Cmd.wires mem) =
      (Call.read u v data len).wires mem₀ := by
  obtain ⟨n, rfl⟩ : ∃ n : Nat, len = n + 1 := ⟨(len - 1).toNat, by omega⟩
  have hlast : data + (n + 1 : Int) - 1 = data + n := by omega
  have hall : ∀ i ∈ List.range n,
      Wire.receive (data + i) true = .receive (data + i) (decide (i + 1 ≠ n + 1)) := by
    intro i hi
    have hne : i + 1 ≠ n + 1 := by
      have := List.mem_range.mp hi
      omega
    rw [decide_eq_true hne]
  have hlen : (n + 1 : Int).toNat = n + 1 := by omega
  simp only [Cmd.wires, Call.wires, List.flatMap_cons, List.flatMap_nil, List.append_nil, hlast,
    hlen, List.range_succ, List.map_append, List.map_cons, List.map_nil]
  rw [show (n + 1 - 1 : Int).toNat = n by omega, List.map_congr_left hall]
  simp

theorem wires_readByte {u data : Int} {v : Nat} {mem₀ mem : Int → Byte} :
    [Cmd.readByte (data + 1 - 1)].flatMap (Cmd.wires mem) =
      (Call.read u v data 1).wires mem₀ := by
  simp [Cmd.wires, Call.wires, List.range_succ]

end Commands

/-! ## What a thread knows of its variable -/

/-- A variable: its value, the entry of the list and the command link of its
    transaction, whether the link was executed, and the calls of the transaction. -/
structure Slot where
  var : Int
  entry : Option (Int × Nat)
  link : Option (Nat × Link)
  ran : Bool
  asked : Option (List Asked)

def Slot.closed : Slot := ⟨I2C_TRANSACTION_INITIALIZER, none, none, false, none⟩

/-- A variable with an open transaction. -/
structure Slot.Opened (x : Slot) : Prop where
  entry : ∃ p l as, x.entry = some (x.var, p) ∧ x.link = some (p, l) ∧ x.asked = some as ∧
    Matches l.cmds as
  handle : 0 ≤ x.var
  ran : x.ran = false

/-- A variable that no call is at. -/
def Slot.Resting (x : Slot) : Prop := x = .closed ∨ x.Opened

/-- All calls of the transaction are for the unit. -/
def Slot.OnUnit (x : Slot) (u : Int) : Prop := ∀ as ∈ x.asked, ∀ a ∈ as, a.1.unit = u

/-- The variable when the call has returned. -/
def Slot.returned (x : Slot) (a : Asked) (e : Option I2cErr) : Slot :=
  if e = none ∧ a.1.opens then { x with asked := some (x.asked.getD [] ++ [a]) } else x

/-- A thread's call, and what it knows of the variable. -/
structure Grip where
  call : Option Asked
  slot : Slot

/-- The call is at its variable. -/
def Grip.At (h : Grip) (v : Nat) : Prop := ∃ a, h.call = some a ∧ a.1.variable = v

/-- The calls that end a transaction. -/
def Call.ends : Call → Bool
  | stop _ _ => true
  | flush _ _ _ => true
  | _ => false

/-- The link is executed with what its calls asked for. -/
structure Grip.MayRun (h : Grip) (u : Int) (cmd : Option Nat) : Prop where
  link : ∃ p l a as, cmd = some p ∧ h.slot.link = some (p, l) ∧ h.call = some a ∧
    h.slot.asked = some as ∧ Matches l.cmds (as ++ [a]) ∧ a.1.unit = u ∧ h.slot.OnUnit u
  ran : h.slot.ran = false

/-- The call has left its variable resting, and closed if it ends a transaction. -/
structure Grip.MayReturn (h : Grip) (e : Option I2cErr) : Prop where
  rests : ∀ a, h.call = some a → (h.slot.returned a e).Resting
  ends : ∀ a, h.call = some a → a.1.ends → e = none → h.slot.asked = none

def Grip.may (h : Grip) : Op → Prop
  | .invoke _ => h.call = none
  | .returns e => h.MayReturn e
  | .transaction v => h.At v
  | .setTransaction v _ => h.At v
  | .listGet i => i = h.slot.var ∧ h.slot.Resting
  | .listAdd cmd v => h.At v ∧ h.slot.entry = none ∧ ∃ l, h.slot.link = some (cmd, l)
  | .listRemove i => ∃ p, h.slot.entry = some (i, p)
  | .linkCreate => h.slot.link = none ∧ h.slot.ran = false ∧ h.call ≠ none
  | .linkDelete cmd => ∃ p l, cmd = some p ∧ h.slot.link = some (p, l) ∧ h.slot.ran = true
  | .queue cmd _ => ∃ p l, cmd = some p ∧ h.slot.link = some (p, l)
  | .cmdBegin u cmd => h.MayRun u cmd
  | _ => True

/-- What the thread knows after a reply. -/
def Grip.learns (h : Grip) : (o : Op) → o.Reply → Grip → Prop
  | .invoke c, _, h' =>
    ∃ mem, h'.call = some (c, mem) ∧ h'.slot.Resting ∧ h'.slot.OnUnit c.unit
  | .returns _, _, h' => h' = ⟨none, .closed⟩
  | .operationError e, (r : Option I2cErr), h' => r = some e ∧ h' = h
  | .transaction _, (r : Int), h' => r = h.slot.var ∧ h' = h
  | .setTransaction _ i, _, h' => h' = { h with slot := { h.slot with var := i } }
  | .listGet _, (r : Option Nat), h' => r = h.slot.entry.map Prod.snd ∧ h' = h
  | .listAdd cmd _, (r : Bool), h' => r = true ∧ ∃ k : Int, 0 ≤ k ∧
      h' = { h with slot := { h.slot with var := k, entry := some (k, cmd) } }
  | .listRemove _, _, h' => h' = { h with slot := { h.slot with entry := none } }
  | .linkCreate, (r : Option Nat), h' => r = none ∧ h' = h ∨ ∃ p n, r = some p ∧
      h' = { h with slot := { h.slot with link := some (p, ⟨n, []⟩) } }
  | .linkDelete _, _, h' => h' = { h with slot := { h.slot with link := none, ran := false } }
  | .queue _ c, _, h' => ∀ p l, h.slot.link = some (p, l) →
      h' = { h with slot := { h.slot with link := some (p, { l with cmds := l.cmds ++ [c] }) } }
  | .load data, (r : Byte), h' => (∀ a, h.call = some a → r = a.2 data) ∧ h' = h
  | .cmdBegin _ _, _, h' => h' = { h with slot := { h.slot with ran := true, asked := none } }
  | _, _, h' => h' = h

def gripping : Contract Grip Op Op.Reply := ⟨Grip.may, Grip.learns⟩

/-- The call has returned. -/
def Grip.Over (h : Grip) (_ : Option I2cErr) : Prop := h.call = none

/-! ## The calls keep to it -/

section Programs

variable {h : Grip} {u : Int} {v : Nat} {a : Asked} {x : Slot}

/-- The slot of an open transaction. -/
def Slot.opened (k : Int) (p : Nat) (l : Link) (as : Option (List Asked)) : Slot :=
  ⟨k, some (k, p), some (p, l), false, as⟩

theorem Slot.opened_resting {k : Int} {p : Nat} {l : Link} {as : List Asked} (hk : 0 ≤ k)
    (hm : Matches l.cmds as) : (Slot.opened k p l (some as)).Resting :=
  .inr ⟨⟨p, l, as, rfl, rfl, rfl, hm⟩, hk, rfl⟩

theorem Slot.Resting.cases (hx : x.Resting) : x = .closed ∨
    ∃ k p l as, x = .opened k p l (some as) ∧ 0 ≤ k ∧ Matches l.cmds as := by
  rcases hx with rfl | ho
  · exact .inl rfl
  · obtain ⟨p, l, as, hentry, hlink, hasked, hm⟩ := ho.entry
    refine .inr ⟨x.var, p, l, as, ?_, ho.handle, hm⟩
    have hran := ho.ran
    cases x
    dsimp only at hentry hlink hasked hran
    rw [hentry, hlink, hasked, hran]
    rfl

/-- An error leaves the transaction of the variable as it is. -/
theorem mayReturn_error (hx : x.Resting) {e : I2cErr} : Grip.MayReturn ⟨some a, x⟩ (some e) := by
  refine ⟨?_, fun _ _ _ he => nomatch he⟩
  intro b _
  unfold Slot.returned
  rw [if_neg fun hand => nomatch hand.1]
  exact hx

/-- A call whose transaction is open when it returns. -/
theorem mayReturn_opened {k : Int} {p : Nat} {l : Link} {as : Option (List Asked)} (hk : 0 ≤ k)
    (hopens : a.1.opens) (hends : a.1.ends → as = none) (hm : Matches l.cmds (as.getD [] ++ [a])) :
    Grip.MayReturn ⟨some a, .opened k p l as⟩ none := by
  refine ⟨?_, ?_⟩
  · rintro b ⟨⟩
    unfold Slot.returned
    rw [if_pos ⟨rfl, hopens⟩]
    exact Slot.opened_resting hk hm
  · rintro b ⟨⟩ he _
    exact hends he

/-- A call that has closed its variable. -/
theorem mayReturn_closed (hopens : a.1.opens = false) {e : Option I2cErr} :
    Grip.MayReturn ⟨some a, .closed⟩ e := by
  refine ⟨?_, fun _ _ _ _ => rfl⟩
  rintro b ⟨⟩
  unfold Slot.returned
  rw [if_neg fun hand => by rw [hopens] at hand; exact absurd hand.2 Bool.false_ne_true]
  exact .inl rfl

theorem keeps_operationError {post : Grip → Option I2cErr → Prop} {e : I2cErr}
    (hpost : post h (some e)) : (driverOperationError e).Keeps gripping post h := by
  refine ⟨trivial, ?_⟩
  rintro r h' ⟨rfl, rfl⟩
  exact hpost

theorem grips_i2cCheck {post : Grip → Option I2cErr → Prop} (hpost : ∀ e, post h e) :
    (i2cCheck u).Keeps gripping post h := by
  unfold i2cCheck
  split
  · exact ⟨trivial, fun r => r.elim⟩
  · split
    · exact keeps_operationError (hpost _)
    · refine keeps_unitAt.mpr ⟨trivial, ?_⟩
      rintro i2c h' rfl
      split
      · exact hpost none
      · exact keeps_operationError (hpost _)

theorem grips_i2cLocked {post : Grip → Option I2cErr → Prop} {body : I2cProg (Option I2cErr)}
    (hpost : ∀ e, post h (some e)) (hbody : body.Keeps gripping post h) :
    (i2cLocked u body).Keeps gripping post h := by
  apply Prog.keeps_bind.mpr
  apply grips_i2cCheck
  intro e
  cases e with
  | some e => exact hpost e
  | none =>
    refine keeps_unitAt.mpr ⟨trivial, ?_⟩
    rintro i2c h' rfl
    split
    · exact keeps_operationError (hpost _)
    · refine ⟨trivial, ?_⟩
      rintro _ h'' rfl
      exact hbody

/-- `mtx_unlock` and a return. -/
theorem grips_unlocks {post : Grip → Option I2cErr → Prop} {e : Option I2cErr}
    (hpost : post h e) :
    (do mtxUnlock u; pure e : I2cProg (Option I2cErr)).Keeps gripping post h := by
  refine ⟨trivial, ?_⟩
  rintro _ h' rfl
  exact hpost

/-- A call that finds the link of its transaction, or returns with an error. -/
theorem grips_withCommand {body : Nat → I2cProg (Option I2cErr)} (hv : a.1.variable = v)
    (hx : x.Resting)
    (hbody : ∀ k p l as, x = .opened k p l (some as) → 0 ≤ k → Matches l.cmds as →
      (body p).Keeps gripping Grip.MayReturn ⟨some a, x⟩) :
    (withCommand u v body).Keeps gripping Grip.MayReturn ⟨some a, x⟩ := by
  refine keeps_getTransaction.mpr ⟨⟨a, rfl, hv⟩, ?_⟩
  rintro i h' ⟨rfl, rfl⟩
  refine ⟨⟨rfl, hx⟩, ?_⟩
  rintro r h'' ⟨rfl, rfl⟩
  rcases hx.cases with rfl | ⟨k, p, l, as, rfl, hk, hm⟩
  · refine ⟨trivial, ?_⟩
    rintro _ h' rfl
    exact keeps_operationError (mayReturn_error hx)
  · exact hbody k p l as rfl hk hm

/-- What `i2c_get_command` finds. -/
theorem grips_i2cGetCommand {post : Grip → Option I2cErr × Option Nat → Prop}
    (hv : a.1.variable = v) (hx : x.Resting) (herr : ∀ e, post ⟨some a, x⟩ (some e, none))
    (hpost : ∀ k p l as, x = .opened k p l (some as) → 0 ≤ k → Matches l.cmds as →
      post ⟨some a, x⟩ (none, some p)) :
    (i2cGetCommand u v).Keeps gripping post ⟨some a, x⟩ := by
  refine keeps_getTransaction.mpr ⟨⟨a, rfl, hv⟩, ?_⟩
  rintro i h' ⟨rfl, rfl⟩
  refine ⟨⟨rfl, hx⟩, ?_⟩
  rintro r h'' ⟨rfl, rfl⟩
  rcases hx.cases with rfl | ⟨k, p, l, as, rfl, hk, hm⟩
  · refine ⟨trivial, ?_⟩
    rintro _ h' rfl
    refine ⟨trivial, ?_⟩
    rintro e h'' ⟨rfl, rfl⟩
    exact herr _
  · exact hpost k p l as rfl hk hm

/-- What `i2c_create_or_get_command` makes or finds. -/
theorem grips_i2cCreateOrGetCommand {post : Grip → Option I2cErr × Option Nat → Prop}
    (hv : a.1.variable = v) (hx : x.Resting)
    (herr : ∀ e c, post ⟨some a, x⟩ (some e, c))
    (hget : ∀ k p l as, x = .opened k p l (some as) → 0 ≤ k → Matches l.cmds as →
      post ⟨some a, x⟩ (none, some p))
    (hnew : ∀ k p n, x = .closed → 0 ≤ k →
      post ⟨some a, .opened k p ⟨n, []⟩ none⟩ (none, some p)) :
    (i2cCreateOrGetCommand u v).Keeps gripping post ⟨some a, x⟩ := by
  refine keeps_getTransaction.mpr ⟨⟨a, rfl, hv⟩, ?_⟩
  rintro i h' ⟨rfl, rfl⟩
  split
  · exact grips_i2cGetCommand hv hx (fun e => herr e none) hget
  · next hclosed =>
    have hclosed' : x = .closed := by
      rcases hx.cases with rfl | ⟨k, p, l, as, rfl, hk, hm⟩
      · rfl
      · refine absurd (not_not.mp hclosed) ?_
        show k ≠ -1
        omega
    subst hclosed'
    refine ⟨⟨rfl, rfl, fun hcall => nomatch hcall⟩, ?_⟩
    rintro r h' (⟨rfl, rfl⟩ | ⟨p, n, rfl, rfl⟩)
    · refine ⟨trivial, ?_⟩
      rintro _ h' rfl
      refine ⟨trivial, ?_⟩
      rintro e h'' ⟨rfl, rfl⟩
      exact herr _ none
    · refine ⟨⟨⟨a, rfl, hv⟩, rfl, ⟨n, []⟩, rfl⟩, ?_⟩
      rintro r h' ⟨rfl, k, hk, rfl⟩
      exact hnew k p n rfl hk

/-- `i2c_flush_internal` closes the variable. -/
theorem grips_i2cFlushInternal {post : Grip → Option I2cErr → Prop} {k : Int} {p : Nat} {l : Link}
    {as : List Asked} (hv : a.1.variable = v) (hu : a.1.unit = u)
    (honly : (Slot.opened k p l (some as)).OnUnit u) (hm : Matches l.cmds (as ++ [a]))
    (hpost : ∀ e, post ⟨some a, .closed⟩ e) :
    (i2cFlushInternal u v (some p)).Keeps gripping post ⟨some a, .opened k p l (some as)⟩ := by
  refine keeps_i2cMasterCmdBegin.mpr
    ⟨⟨⟨p, l, a, as, rfl, rfl, rfl, rfl, hm, hu, honly⟩, rfl⟩, ?_⟩
  rintro err h' rfl
  refine Prog.keeps_then.mpr ⟨⟨p, l, rfl, rfl, rfl⟩, ?_⟩
  rintro _ h' rfl
  refine keeps_getTransaction.mpr ⟨⟨a, rfl, hv⟩, ?_⟩
  rintro i h' ⟨rfl, rfl⟩
  refine Prog.keeps_then.mpr ⟨⟨p, rfl⟩, ?_⟩
  rintro _ h' rfl
  refine Prog.keeps_then.mpr ⟨⟨a, rfl, hv⟩, ?_⟩
  rintro _ h' rfl
  split
  · refine Prog.keeps_then.mpr ⟨trivial, ?_⟩
    rintro _ h' rfl
    exact keeps_operationError (hpost _)
  · split
    · refine Prog.keeps_then.mpr ⟨trivial, ?_⟩
      rintro _ h' rfl
      exact keeps_operationError (hpost _)
    · exact hpost none

theorem grips_i2cStart {mem : Int → Byte} (hx : x.Resting) :
    (i2cStart u v).Keeps gripping Grip.MayReturn ⟨some (.start u v, mem), x⟩ := by
  apply grips_i2cLocked fun e => mayReturn_error hx
  apply Prog.keeps_bind.mpr
  apply grips_i2cCreateOrGetCommand rfl hx
  · intro e c
    exact grips_unlocks (mayReturn_error hx)
  · rintro k p l as rfl hk hm
    refine Prog.keeps_then.mpr ⟨⟨p, l, rfl, rfl⟩, ?_⟩
    rintro _ h' hl
    obtain rfl := hl p l rfl
    apply grips_unlocks
    apply mayReturn_opened hk rfl
    · intro he
      cases he
    · exact hm.append fun _ _ => rfl
  · rintro k p n rfl hk
    refine Prog.keeps_then.mpr ⟨⟨p, ⟨n, []⟩, rfl, rfl⟩, ?_⟩
    rintro _ h' hl
    obtain rfl := hl p ⟨n, []⟩ rfl
    apply grips_unlocks
    apply mayReturn_opened hk rfl
    · intro he
      cases he
    · exact matches_nil.append fun _ _ => rfl

theorem grips_i2cStop {mem : Int → Byte} (hx : x.Resting) (hu : x.OnUnit u) :
    (i2cStop u v).Keeps gripping Grip.MayReturn ⟨some (.stop u v, mem), x⟩ := by
  apply grips_i2cLocked fun e => mayReturn_error hx
  apply grips_withCommand rfl hx
  rintro k p l as rfl hk hm
  refine Prog.keeps_then.mpr ⟨⟨p, l, rfl, rfl⟩, ?_⟩
  rintro _ h' hl
  obtain rfl := hl p l rfl
  apply Prog.keeps_bind.mpr
  have hm' : Matches (l.cmds ++ [Cmd.stop]) (as ++ [(.stop u v, mem)]) :=
    hm.append fun _ _ => rfl
  apply grips_i2cFlushInternal (k := k) (l := { l with cmds := l.cmds ++ [.stop] }) rfl rfl hu hm'
  intro e
  exact grips_unlocks (mayReturn_closed rfl)

theorem grips_i2cFlush {mem : Int → Byte} {newTransaction : Bool} (hx : x.Resting)
    (hu : x.OnUnit u) : (i2cFlush u v newTransaction).Keeps gripping Grip.MayReturn
      ⟨some (.flush u v newTransaction, mem), x⟩ := by
  apply Prog.keeps_bind.mpr
  apply grips_i2cGetCommand rfl hx
  · intro e
    exact mayReturn_error hx
  rintro k p l as rfl hk hm
  apply Prog.keeps_bind.mpr
  have hm' : Matches l.cmds (as ++ [(.flush u v newTransaction, mem)]) := by
    have happ : Matches (l.cmds ++ []) (as ++ [(.flush u v newTransaction, mem)]) :=
      hm.append fun _ _ => rfl
    rwa [List.append_nil] at happ
  apply grips_i2cFlushInternal rfl rfl hu hm'
  intro e
  cases e with
  | some e => exact mayReturn_error (.inl rfl)
  | none =>
    dsimp only
    split
    · next hnew =>
      subst hnew
      apply Prog.keeps_bind.mpr
      apply grips_i2cCreateOrGetCommand rfl (.inl rfl)
      · intro e c
        exact grips_unlocks (mayReturn_error (.inl rfl))
      · intro k p l as heq
        cases heq
      · intro k p n _ hk
        apply mayReturn_opened hk rfl fun _ => rfl
        exact matches_nil.append fun _ _ => rfl
    · next hold =>
      have hopens : (Call.flush u v newTransaction).opens = false := by
        simpa [Call.opens] using hold
      exact mayReturn_closed hopens

/-- The end of a call that has queued commands, of which `cmds'` is its own. -/
theorem grips_queued {k : Int} {p : Nat} {l : Link} {as : List Asked} (hk : 0 ≤ k)
    (hm : Matches l.cmds as) {cmds' : List Cmd} (hopens : a.1.opens) (hends : a.1.ends = false)
    (ha : ∀ mem, a.SameBuffer mem → cmds'.flatMap (Cmd.wires mem) = a.1.wires a.2) :
    (do mtxUnlock u; pure none : I2cProg (Option I2cErr)).Keeps gripping Grip.MayReturn
      ⟨some a, .opened k p { l with cmds := l.cmds ++ cmds' } (some as)⟩ := by
  apply grips_unlocks
  apply mayReturn_opened hk hopens
  · intro he
    rw [hends] at he
    cases he
  · exact hm.append ha

theorem grips_i2cWriteAddress {mem : Int → Byte} {address : Byte} {isRead : Bool}
    (hx : x.Resting) : (i2cWriteAddress u v address isRead).Keeps gripping Grip.MayReturn
      ⟨some (.writeAddress u v address isRead, mem), x⟩ := by
  apply grips_i2cLocked fun e => mayReturn_error hx
  apply grips_withCommand rfl hx
  rintro k p l as rfl hk hm
  refine Prog.keeps_then.mpr ⟨⟨p, l, rfl, rfl⟩, ?_⟩
  rintro _ h' hl
  obtain rfl := hl p l rfl
  exact grips_queued hk hm rfl rfl fun _ _ => rfl

theorem grips_i2cWrite {mem : Int → Byte} {data len : Int} (hx : x.Resting) (hlen : 1 ≤ len) :
    (i2cWrite u v data len).Keeps gripping Grip.MayReturn
      ⟨some (.write u v data len, mem), x⟩ := by
  apply grips_i2cLocked fun e => mayReturn_error hx
  apply grips_withCommand rfl hx
  rintro k p l as rfl hk hm
  split
  · refine Prog.keeps_then.mpr ⟨⟨p, l, rfl, rfl⟩, ?_⟩
    rintro _ h' hl
    obtain rfl := hl p l rfl
    exact grips_queued hk hm rfl rfl fun _ => wires_write
  · obtain rfl : len = 1 := by omega
    refine Prog.keeps_then.mpr ⟨trivial, ?_⟩
    rintro b h' ⟨hb, rfl⟩
    obtain rfl : b = mem data := hb _ rfl
    refine Prog.keeps_then.mpr ⟨⟨p, l, rfl, rfl⟩, ?_⟩
    rintro _ h' hl
    obtain rfl := hl p l rfl
    exact grips_queued hk hm rfl rfl fun _ _ => wires_writeByte

theorem grips_i2cRead {mem : Int → Byte} {data len : Int} (hx : x.Resting) (hlen : 1 ≤ len) :
    (i2cRead u v data len).Keeps gripping Grip.MayReturn
      ⟨some (.read u v data len, mem), x⟩ := by
  apply grips_i2cLocked fun e => mayReturn_error hx
  apply grips_withCommand rfl hx
  rintro k p l as rfl hk hm
  split
  · next hlong =>
    refine Prog.keeps_then.mpr ⟨⟨p, l, rfl, rfl⟩, ?_⟩
    rintro _ h' hl
    obtain rfl := hl p l rfl
    refine Prog.keeps_then.mpr ⟨⟨p, _, rfl, rfl⟩, ?_⟩
    rintro _ h' hl'
    obtain rfl := hl' p _ rfl
    dsimp only
    rw [List.append_assoc]
    exact grips_queued hk hm rfl rfl fun _ _ => wires_read hlong
  · obtain rfl : len = 1 := by omega
    refine Prog.keeps_then.mpr ⟨⟨p, l, rfl, rfl⟩, ?_⟩
    rintro _ h' hl
    obtain rfl := hl p l rfl
    exact grips_queued hk hm rfl rfl fun _ _ => wires_readByte

theorem grips_body {c : Call} {mem : Int → Byte} (hx : x.Resting) (hu : x.OnUnit c.unit)
    (hlen : c.HasLength) : c.body.Keeps gripping Grip.MayReturn ⟨some (c, mem), x⟩ := by
  cases c with
  | start u v => exact grips_i2cStart hx
  | stop u v => exact grips_i2cStop hx hu
  | writeAddress u v address isRead => exact grips_i2cWriteAddress hx
  | write u v data len => exact grips_i2cWrite hx hlen
  | read u v data len => exact grips_i2cRead hx hlen
  | flush u v newTransaction => exact grips_i2cFlush hx hu

/-- Every call with a length keeps to the contract. -/
theorem grips_program {c : Call} (hlen : c.HasLength) (hcall : h.call = none) :
    c.program.Keeps gripping Grip.Over h := by
  refine Prog.keeps_then.mpr ⟨hcall, ?_⟩
  rintro _ ⟨call, x⟩ ⟨mem, rfl, hx, hu⟩
  apply Prog.keeps_bind.mpr
  apply (grips_body hx hu hlen).mono
  intro h' e hreturn
  refine ⟨hreturn, ?_⟩
  rintro _ h'' rfl
  rfl

end Programs

end LuaRtos.I2c
