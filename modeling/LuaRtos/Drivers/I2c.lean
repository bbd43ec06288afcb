/-
  LuaRtos.Drivers.I2c

  Transactions of i2c.c: the calls of several threads as programs of atomic
  operations on the units, the list of the transactions and their command links.

  An operation of the list runs with the list's own mutex, and is one step; so is a
  call of ESP-IDF.  A command link is the commands queued in it, with pointers to the
  buffers of the caller, which are read when the link is executed.  What memory holds,
  and whether there is memory, is the environment of a step.  `seen` records what
  the threads asked for and what was executed, and no operation looks at it.
-/

import LuaRtos.Drivers.Setup
import LuaRtos.Lts.Program
import LuaRtos.Rtos.Semaphore
import LuaRtos.Sys.List

namespace LuaRtos.I2c

open CLib Rtos Sys

/-- CPU_LAST_I2C. -/
def CPU_LAST_I2C : Int := 1
/-- I2C_TRANSACTION_INITIALIZER. -/
def I2C_TRANSACTION_INITIALIZER : Int := -1
/-- I2C_MASTER. -/
def I2C_MASTER : Int := 1

/-- I2C_ERR_*. -/
inductive I2cErr where
  | isNotSetup
  | invalidUnit
  | invalidOperation
  | notEnoughMemory
  | invalidTransaction
  | notAck
  | timeout
deriving DecidableEq, Repr

/-- What `i2c_master_cmd_begin` returns. -/
inductive EspErr where
  | ok
  | fail
  | timeout
  | other
deriving DecidableEq, Repr

/-- A command of a command link. -/
inductive Cmd where
  | start
  | writeByte (b : Byte)
  | write (data : Int) (len : Nat)
  /-- `i2c_master_read` with ACK_VAL. -/
  | read (data : Int) (len : Nat)
  /-- `i2c_master_read_byte` with NACK_VAL. -/
  | readByte (data : Int)
  | stop
deriving DecidableEq, Repr

/-- What happens on the bus. -/
inductive Wire where
  | start
  | send (b : Byte)
  /-- A byte is received into the address `data`, and acknowledged or not. -/
  | receive (data : Int) (ack : Bool)
  | stop
deriving DecidableEq, Repr

/-- The execution of a command, with what memory holds then. -/
def Cmd.wires (mem : Int → Byte) : Cmd → List Wire
  | start => [.start]
  | writeByte b => [.send b]
  | write data len => (List.range len).map fun i : Nat => .send (mem (data + i))
  | read data len => (List.range len).map fun i : Nat => .receive (data + i) true
  | readByte data => [.receive data false]
  | stop => [.stop]

/-- A call on the transaction of the variable at `v`. -/
inductive Call where
  | start (unit : Int) (v : Nat)
  | stop (unit : Int) (v : Nat)
  | writeAddress (unit : Int) (v : Nat) (address : Byte) (isRead : Bool)
  | write (unit : Int) (v : Nat) (data len : Int)
  | read (unit : Int) (v : Nat) (data len : Int)
  | flush (unit : Int) (v : Nat) (newTransaction : Bool)
deriving DecidableEq, Repr

def Call.unit : Call → Int
  | start u _ => u
  | stop u _ => u
  | writeAddress u _ _ _ => u
  | write u _ _ _ => u
  | read u _ _ _ => u
  | flush u _ _ => u

def Call.variable : Call → Nat
  | start _ v => v
  | stop _ v => v
  | writeAddress _ v _ _ => v
  | write _ v _ _ => v
  | read _ v _ _ => v
  | flush _ v _ => v

/-- The byte with which a device is addressed, I2C_MASTER_READ and I2C_MASTER_WRITE
    last. -/
def addressByte (address : Byte) (isRead : Bool) : Byte :=
  address <<< 1 ||| if isRead then 1 else 0

/-- What a call asks for, with what memory holds when it is made. -/
def Call.wires (mem : Int → Byte) : Call → List Wire
  | start _ _ => [.start]
  | stop _ _ => [.stop]
  | writeAddress _ _ address isRead => [.send (addressByte address isRead)]
  | write _ _ data len => (List.range len.toNat).map fun i : Nat => .send (mem (data + i))
  | read _ _ data len =>
    (List.range len.toNat).map fun i : Nat => .receive (data + i) (decide (i + 1 ≠ len.toNat))
  | flush _ _ _ => []

/-- What is asked for, with the unit it is asked for on. -/
abbrev Request := Int × Wire

/-- A call, with what memory held when it was made. -/
abbrev Asked := Call × (Int → Byte)

def Asked.requests (a : Asked) : List Request := (a.1.wires a.2).map fun w => (a.1.unit, w)

/-- A success of the call leaves a transaction open. -/
def Call.opens : Call → Bool
  | stop _ _ => false
  | flush _ _ newTransaction => newTransaction
  | _ => true

/-! ## State -/

/-- A command link, with the number of links made before it. -/
structure Link where
  number : Nat
  cmds : List Cmd
deriving DecidableEq, Repr

/-- The execution of a link on a unit, and what had been asked for through the
    transaction until then. -/
structure Transfer where
  number : Nat
  unit : Int
  wires : List Wire
  asked : Option (List Request)
deriving DecidableEq, Repr

/-- What has been seen of the calls. -/
structure History (Tid : Type) where
  /-- The call a thread is in, with what memory held when it was made. -/
  current : Tid → Option Asked
  /-- The calls made through the open transaction of a variable. -/
  asked : Nat → Option (List Asked)
  created : Nat
  executed : List Transfer
  deleted : List Nat
  taken : Tid → Int → Nat
  released : Tid → Int → Nat

/-- The units with their mutexes, the transactions, and the variables of the callers. -/
structure Bus (Tid : Type) where
  unit : Int → Driver.I2cUnit
  mtx : Int → Option (Semaphore Unit)
  transactions : CList Nat
  link : Nat → Option Link
  transaction : Nat → Int
  seen : History Tid

/-- What a step finds: memory, and whether there is more of it; what the bus did. -/
structure Env where
  mem : Int → Byte
  /-- The memory of a driver error. -/
  error : Bool
  /-- The memory of `list_add`. -/
  malloc : Option (Nat → ListIndex Nat)
  /-- The memory of a command link. -/
  link : Option Nat
  /-- The memory of a command. -/
  queued : Bool
  err : EspErr

/-! ## Operations -/

inductive Op where
  | invoke (c : Call)
  | returns (e : Option I2cErr)
  | fault (f : Fault)
  /-- The fields of `i2c[unit]`. -/
  | unit (u : Int)
  | lock (u : Int)
  | unlock (u : Int)
  | operationError (e : I2cErr)
  /-- `*transaction`. -/
  | transaction (v : Nat)
  | setTransaction (v : Nat) (i : Int)
  | listGet (i : Int)
  | listAdd (cmd : Nat) (v : Nat)
  | listRemove (i : Int)
  | linkCreate
  | linkDelete (cmd : Option Nat)
  | queue (cmd : Option Nat) (c : Cmd)
  | load (data : Int)
  | cmdBegin (u : Int) (cmd : Option Nat)
deriving DecidableEq, Repr

def Op.Reply : Op → Type
  | fault _ => Empty
  | unit _ => Driver.I2cUnit
  | operationError _ => Option I2cErr
  | transaction _ => Int
  | listGet _ => Option Nat
  | listAdd _ _ => Bool
  | linkCreate => Option Nat
  | load _ => Byte
  | cmdBegin _ _ => EspErr
  | _ => Unit

section Operations

variable {Tid : Type} [DecidableEq Tid]

/-- `i2c[u]` is an entry of the array. -/
def inArray (u : Int) : Result Unit :=
  if 0 ≤ u ∧ u ≤ CPU_LAST_I2C then pure () else throw .outOfBounds

/-- The semaphore of the mutex of a unit. -/
def Bus.sem (s : Bus Tid) (u : Int) : Result (Semaphore Unit) := do
  inArray u
  match s.mtx u with
  | none => throw .nullDeref
  | some m => pure m

/-- A link that was not deleted. -/
def Bus.live (s : Bus Tid) (p : Nat) : Result Link :=
  match s.link p with
  | none => throw .useAfterFree
  | some l => pure l

/-- `mtx_lock`; no result while the mutex is not available. -/
def Bus.lock (s : Bus Tid) (t : Tid) (u : Int) : Result (Option (Bus Tid)) := do
  let m ← s.sem u
  pure ((xSemaphoreTake m).map fun m =>
    { s with
      mtx := Function.update s.mtx u (some m)
      seen := { s.seen with
        taken := Function.update s.seen.taken t
          (Function.update (s.seen.taken t) u (s.seen.taken t u + 1)) } })

/-- `mtx_unlock`. -/
def Bus.unlock (s : Bus Tid) (t : Tid) (u : Int) : Result (Bus Tid) := do
  let m ← s.sem u
  pure { s with
    mtx := Function.update s.mtx u (some (xSemaphoreGive m))
    seen := { s.seen with
      released := Function.update s.seen.released t
        (Function.update (s.seen.released t) u (s.seen.released t u + 1)) } }

/-- `i2c_cmd_link_create`: no result where the memory it finds is not free. -/
def Bus.linkCreate (s : Bus Tid) : Option Nat → Option (Bus Tid × Option Nat)
  | none => some (s, none)
  | some p =>
    if s.link p = none then
      some ({ s with
        link := Function.update s.link p (some ⟨s.seen.created, []⟩)
        seen := { s.seen with created := s.seen.created + 1 } }, some p)
    else none

/-- `i2c_cmd_link_delete`, which does nothing with NULL. -/
def Bus.linkDelete (s : Bus Tid) : Option Nat → Result (Bus Tid)
  | none => pure s
  | some p => do
    let l ← s.live p
    pure { s with
      link := Function.update s.link p none
      seen := { s.seen with deleted := l.number :: s.seen.deleted } }

/-- An `i2c_master_*` call, whose result nobody looks at. -/
def Bus.queue (s : Bus Tid) (queued : Bool) (c : Cmd) : Option Nat → Result (Bus Tid)
  | none => pure s
  | some p => do
    let l ← s.live p
    pure (if queued then
      { s with link := Function.update s.link p (some { l with cmds := l.cmds ++ [c] }) } else s)

/-- What was asked for through the transaction of a thread's call, the call included. -/
def History.askedBy (h : History Tid) (t : Tid) : Option (List Request) :=
  (h.current t).bind fun a =>
    (h.asked a.1.variable).map fun as => (as ++ [a]).flatMap Asked.requests

/-- `i2c_master_cmd_begin`, which refuses NULL. -/
def Bus.cmdBegin (s : Bus Tid) (t : Tid) (env : Env) (u : Int) :
    Option Nat → Result (Bus Tid × EspErr)
  | none => pure (s, .other)
  | some p => do
    let l ← s.live p
    let transfer : Transfer := ⟨l.number, u, l.cmds.flatMap (Cmd.wires env.mem), s.seen.askedBy t⟩
    pure ({ s with seen := { s.seen with
      executed := transfer :: s.seen.executed
      asked := match s.seen.current t with
        | none => s.seen.asked
        | some a => Function.update s.seen.asked a.1.variable none } }, env.err)

/-- `list_add`, which writes the handle to the variable. -/
def Bus.listAdd (s : Bus Tid) (env : Env) (cmd v : Nat) : Result (Bus Tid × Bool) := do
  let r ← Sys.listAdd s.transactions cmd env.malloc
  pure ({ s with
    transactions := r.list
    transaction := match r.itemIndex with
      | none => s.transaction
      | some i => Function.update s.transaction v i }, r.ret = .success)

/-- A call returns.  One that succeeds, and leaves a transaction open, belongs to it. -/
def History.returns (h : History Tid) (t : Tid) (e : Option I2cErr) : History Tid :=
  { h with
    current := Function.update h.current t none
    asked := match h.current t with
      | none => h.asked
      | some a =>
        if e = none ∧ a.1.opens then
          Function.update h.asked a.1.variable (some ((h.asked a.1.variable).getD [] ++ [a]))
        else h.asked }

/-- An operation of the thread `t`; no result where it waits. -/
def Bus.run (s : Bus Tid) (t : Tid) (env : Env) : (o : Op) → Result (Option (Bus Tid × o.Reply))
  | .invoke c =>
    pure (some ({ s with seen := { s.seen with
      current := Function.update s.seen.current t (some (c, env.mem)) } }, ()))
  | .returns e => pure (some ({ s with seen := s.seen.returns t e }, ()))
  | .fault f => throw f
  | .unit u => do
    inArray u
    pure (some (s, s.unit u))
  | .lock u => do
    let r ← s.lock t u
    pure (r.map fun s => (s, ()))
  | .unlock u => do
    let s ← s.unlock t u
    pure (some (s, ()))
  | .operationError e => pure (some (s, if env.error then some e else none))
  | .transaction v => pure (some (s, s.transaction v))
  | .setTransaction v i =>
    pure (some ({ s with transaction := Function.update s.transaction v i }, ()))
  | .listGet i => do
    let r ← Sys.listGet s.transactions i
    pure (some (s, if r.1 = .success then r.2 else none))
  | .listAdd cmd v => do
    let r ← s.listAdd env cmd v
    pure (some r)
  | .listRemove i => do
    let r ← Sys.listRemove s.transactions i false
    pure (some ({ s with transactions := r.list }, ()))
  | .linkCreate => pure (s.linkCreate env.link)
  | .linkDelete cmd => do
    let s ← s.linkDelete cmd
    pure (some (s, ()))
  | .queue cmd c => do
    let s ← s.queue env.queued c cmd
    pure (some (s, ()))
  | .load data => pure (some (s, env.mem data))
  | .cmdBegin u cmd => do
    let r ← s.cmdBegin t env u cmd
    pure (some r)

end Operations

/-! ## The calls -/

abbrev I2cProg := Prog Op Op.Reply

def fault (f : Fault) {α : Type} : I2cProg α := .op (Op.fault f) Empty.elim
def unitAt (unit : Int) : I2cProg Driver.I2cUnit := .perform (Op.unit unit)
def mtxLock (unit : Int) : I2cProg Unit := .perform (Op.lock unit)
def mtxUnlock (unit : Int) : I2cProg Unit := .perform (Op.unlock unit)
def driverOperationError (e : I2cErr) : I2cProg (Option I2cErr) := .perform (Op.operationError e)
def getTransaction (v : Nat) : I2cProg Int := .perform (Op.transaction v)
def setTransaction (v : Nat) (i : Int) : I2cProg Unit := .perform (Op.setTransaction v i)
def listGet (i : Int) : I2cProg (Option Nat) := .perform (Op.listGet i)
def listAdd (cmd v : Nat) : I2cProg Bool := .perform (Op.listAdd cmd v)
def listRemove (i : Int) : I2cProg Unit := .perform (Op.listRemove i)
def i2cCmdLinkCreate : I2cProg (Option Nat) := .perform Op.linkCreate
def i2cCmdLinkDelete (cmd : Option Nat) : I2cProg Unit := .perform (Op.linkDelete cmd)
def i2cMaster (cmd : Option Nat) (c : Cmd) : I2cProg Unit := .perform (Op.queue cmd c)
def loadByte (data : Int) : I2cProg Byte := .perform (Op.load data)
def invoke (c : Call) : I2cProg Unit := .perform (Op.invoke c)
def returns (e : Option I2cErr) : I2cProg Unit := .perform (Op.returns e)
def i2cMasterCmdBegin (unit : Int) (cmd : Option Nat) : I2cProg EspErr :=
  .perform (Op.cmdBegin unit cmd)

section Keeps

variable {H α : Type} {C : Contract H Op Op.Reply} {post : H → α → Prop} {h : H} {u : Int}

theorem keeps_unitAt {rest : Driver.I2cUnit → I2cProg α} :
    (unitAt u >>= rest).Keeps C post h ↔ C.may h (.unit u) ∧ ∀ (i2c : Driver.I2cUnit) h',
      C.learns h (.unit u) i2c h' → (rest i2c).Keeps C post h' := Iff.rfl

theorem keeps_getTransaction {v : Nat} {rest : Int → I2cProg α} :
    (getTransaction v >>= rest).Keeps C post h ↔ C.may h (.transaction v) ∧ ∀ (i : Int) h',
      C.learns h (.transaction v) i h' → (rest i).Keeps C post h' := Iff.rfl

theorem keeps_i2cMasterCmdBegin {cmd : Option Nat} {rest : EspErr → I2cProg α} :
    (i2cMasterCmdBegin u cmd >>= rest).Keeps C post h ↔ C.may h (.cmdBegin u cmd) ∧
      ∀ (err : EspErr) h', C.learns h (.cmdBegin u cmd) err h' → (rest err).Keeps C post h' :=
  Iff.rfl

end Keeps

/-- `i2c_check`. -/
def i2cCheck (unit : Int) : I2cProg (Option I2cErr) :=
  -- `1 << unit`
  if unit < 0 ∨ 32 ≤ unit then fault .undefined
  else if Driver.cpuI2cAll.testBit unit.toNat = false then driverOperationError .invalidUnit
  else do
    let i2c ← unitAt unit
    if i2c.setup then pure none else driverOperationError .isNotSetup

/-- `i2c_get_command`: its result, and `*cmd`. -/
def i2cGetCommand (unit : Int) (v : Nat) : I2cProg (Option I2cErr × Option Nat) := do
  let transaction ← getTransaction v
  match ← listGet transaction with
  | some cmd => pure (none, some cmd)
  | none => do
    mtxUnlock unit
    let error ← driverOperationError .invalidTransaction
    pure (error, none)

/-- `i2c_create_or_get_command`. -/
def i2cCreateOrGetCommand (unit : Int) (v : Nat) : I2cProg (Option I2cErr × Option Nat) := do
  let transaction ← getTransaction v
  -- If transaction is valid get command, we don't need to create
  if transaction ≠ I2C_TRANSACTION_INITIALIZER then i2cGetCommand unit v
  else do
    -- Create command
    match ← i2cCmdLinkCreate with
    | none => do
      mtxUnlock unit
      let error ← driverOperationError .notEnoughMemory
      pure (error, none)
    | some cmd => do
      -- Add transaction to list
      if ← listAdd cmd v then pure (none, some cmd)
      else do
        setTransaction v I2C_TRANSACTION_INITIALIZER
        i2cCmdLinkDelete (some cmd)
        mtxUnlock unit
        let error ← driverOperationError .notEnoughMemory
        pure (error, some cmd)

/-- `i2c_flush_internal`. -/
def i2cFlushInternal (unit : Int) (v : Nat) (cmd : Option Nat) : I2cProg (Option I2cErr) := do
  -- Flush
  let err ← i2cMasterCmdBegin unit cmd
  i2cCmdLinkDelete cmd
  let transaction ← getTransaction v
  listRemove transaction
  setTransaction v I2C_TRANSACTION_INITIALIZER
  if err = .fail then do
    mtxUnlock unit
    driverOperationError .notAck
  else if err = .timeout then do
    mtxUnlock unit
    driverOperationError .timeout
  else pure none

/-- `i2c_flush`. -/
def i2cFlush (unit : Int) (v : Nat) (newTransaction : Bool) : I2cProg (Option I2cErr) := do
  -- Get command
  match ← i2cGetCommand unit v with
  | (some error, _) => pure (some error)
  | (none, cmd) => do
    -- Flush
    match ← i2cFlushInternal unit v cmd with
    | some error => pure (some error)
    | none =>
      if newTransaction then do
        -- Create a new command
        match ← i2cCreateOrGetCommand unit v with
        | (some error, _) => do
          mtxUnlock unit
          pure (some error)
        | (none, _) => pure none
      else pure none

/-- The beginning that `i2c_start`, `i2c_stop`, `i2c_write_address`, `i2c_write` and
    `i2c_read` have in common. -/
def i2cLocked (unit : Int) (body : I2cProg (Option I2cErr)) : I2cProg (Option I2cErr) := do
  -- Sanity checks
  match ← i2cCheck unit with
  | some error => pure (some error)
  | none => do
    let i2c ← unitAt unit
    if i2c.mode ≠ I2C_MASTER then driverOperationError .invalidOperation
    else do
      mtxLock unit
      body

/-- How the last four go on: they get the command, and unlock where there is none. -/
def withCommand (unit : Int) (v : Nat) (body : Nat → I2cProg (Option I2cErr)) :
    I2cProg (Option I2cErr) := do
  let transaction ← getTransaction v
  match ← listGet transaction with
  | some cmd => body cmd
  | none => do
    mtxUnlock unit
    driverOperationError .invalidTransaction

/-- `i2c_start`. -/
def i2cStart (unit : Int) (v : Nat) : I2cProg (Option I2cErr) :=
  i2cLocked unit do
    match ← i2cCreateOrGetCommand unit v with
    | (some error, _) => do
      mtxUnlock unit
      pure (some error)
    | (none, cmd) => do
      i2cMaster cmd .start
      mtxUnlock unit
      pure none

/-- `i2c_stop`. -/
def i2cStop (unit : Int) (v : Nat) : I2cProg (Option I2cErr) :=
  i2cLocked unit <| withCommand unit v fun cmd => do
    i2cMaster (some cmd) .stop
    -- Flush
    let error ← i2cFlushInternal unit v (some cmd)
    mtxUnlock unit
    pure error

/-- `i2c_write_address`. -/
def i2cWriteAddress (unit : Int) (v : Nat) (address : Byte) (isRead : Bool) :
    I2cProg (Option I2cErr) :=
  i2cLocked unit <| withCommand unit v fun cmd => do
    i2cMaster (some cmd) (.writeByte (addressByte address isRead))
    mtxUnlock unit
    pure none

/-- `i2c_write`. -/
def i2cWrite (unit : Int) (v : Nat) (data len : Int) : I2cProg (Option I2cErr) :=
  i2cLocked unit <| withCommand unit v fun cmd =>
    if len > 1 then do
      i2cMaster (some cmd) (.write data len.toNat)
      mtxUnlock unit
      pure none
    else do
      let b ← loadByte data
      i2cMaster (some cmd) (.writeByte b)
      mtxUnlock unit
      pure none

/-- `i2c_read`. -/
def i2cRead (unit : Int) (v : Nat) (data len : Int) : I2cProg (Option I2cErr) :=
  i2cLocked unit <| withCommand unit v fun cmd => do
    if len > 1 then do
      i2cMaster (some cmd) (.read data (len - 1).toNat)
      i2cMaster (some cmd) (.readByte (data + len - 1))
      mtxUnlock unit
      pure none
    else do
      i2cMaster (some cmd) (.readByte (data + len - 1))
      mtxUnlock unit
      pure none

def Call.body : Call → I2cProg (Option I2cErr)
  | start u v => i2cStart u v
  | stop u v => i2cStop u v
  | writeAddress u v address isRead => i2cWriteAddress u v address isRead
  | write u v data len => i2cWrite u v data len
  | read u v data len => i2cRead u v data len
  | flush u v newTransaction => i2cFlush u v newTransaction

/-- A call, from its invocation to its return. -/
def Call.program (c : Call) : I2cProg (Option I2cErr) := do
  invoke c
  let error ← c.body
  returns error
  pure error

/-! ## The threads -/

section Threads

variable (Tid : Type) [DecidableEq Tid]

abbrev World := Threads (Bus Tid) Tid Op Op.Reply (Option I2cErr)

abbrev Act := ThreadAct Tid Call Env

def machine : Machine (Bus Tid) Tid Call Env Op Op.Reply (Option I2cErr) where
  program := Call.program
  run t o env s := (s.run t env o).toOption.join

/-- After `i2c_init`, which makes the mutexes of the units before the last one, with
    units that are set up or not.  No transaction is open. -/
def i2cInit (unit : Int → Driver.I2cUnit) : Bus Tid where
  unit := unit
  mtx u := if 0 ≤ u ∧ u < CPU_LAST_I2C then some xSemaphoreCreate else none
  transactions := listInit 0
  link _ := none
  transaction _ := I2C_TRANSACTION_INITIALIZER
  seen := ⟨fun _ => none, fun _ => none, 0, [], [], fun _ _ => 0, fun _ _ => 0⟩

/-- The runs from a state, with no thread in a call. -/
def threads (s : Bus Tid) : Lts (World Tid) (Act Tid) := (machine Tid).threads s none

variable {Tid}

/-- So many steps of a thread in one environment. -/
def threadSteps (t : Tid) (env : Env) (n : Nat) : List (Act Tid) := List.replicate n (.next t env)

/-- A call, and so many steps of it. -/
def callSteps (t : Tid) (c : Call) (env : Env) (n : Nat) : List (Act Tid) :=
  .call t c :: threadSteps t env n

end Threads

/-- Units that are set up as masters. -/
def sampleUnit (_ : Int) : Driver.I2cUnit := ⟨1, true⟩

/-- Memory for everything, with a command link at an address, and a seven in each byte. -/
def sampleEnv (link : Option Nat) : Env :=
  ⟨fun _ => 7, true, some fun _ => ⟨0, 0, 0, none⟩, link, true, .ok⟩

end LuaRtos.I2c
