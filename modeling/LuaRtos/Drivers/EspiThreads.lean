/-
  LuaRtos.Drivers.EspiThreads

  The calls of several threads that select, deselect, take and give one bus, step
  by step.

  `Pc.advance` is the rest of a call up to its next access to what the threads
  share, and `opened` has the pairs that a thread has begun and not ended: a
  select, or a take, that succeeded and whose deselect, or give, has not returned.
-/

import LuaRtos.Drivers.EspiBus
import LuaRtos.Lts.Run

namespace LuaRtos.SpiBus

open CLib Rtos

/-- A pair that a thread has begun, through a handle. -/
inductive Pair where
  | device (p : Nat)
  | semaphore (p : Nat)
deriving DecidableEq, Repr

inductive Call where
  | select (p : Nat) (force : Bool)
  | deselect (p : Nat)
  | takeSemaphore (p : Nat)
  | giveSemaphore (p : Nat)
deriving DecidableEq, Repr

def Call.handle : Call → Nat
  | select p _ => p
  | deselect p => p
  | takeSemaphore p => p
  | giveSemaphore p => p

/-- The pair that a call ends. -/
def Call.ends : Call → Option Pair
  | deselect p => some (.device p)
  | giveSemaphore p => some (.semaphore p)
  | _ => none

/-- Where a thread is.  Each place is named by what it does next. -/
inductive Pc where
  | idle
  /-- `spi_device_select`, from the test of `selected` on. -/
  | select (p : Nat) (force : Bool)
  | selectChecks (p : Nat) (force : Bool)
  | selectTakes (p : Nat) (force : Bool) (i : Fin NO_DEV)
  | selectReconfigures (p : Nat) (force : Bool) (i : Fin NO_DEV)
  | selectConfigures (p : Nat) (force : Bool) (i : Fin NO_DEV)
  | selectLowers (p : Nat)
  | selectMarks (p : Nat)
  /-- After an error. -/
  | selectGives (p : Nat)
  /-- `spi_device_deselect`, from the test of `selected` on. -/
  | deselect (p : Nat)
  | deselectChecks (p : Nat)
  | deselectRaises (p : Nat)
  | deselectClears (p : Nat)
  | deselectGives (p : Nat)
  /-- `spi_device_TakeSemaphore`, with its two takes. -/
  | takes (p : Nat)
  | takesAgain (p : Nat)
  /-- `spi_device_GiveSemaphore`, which takes. -/
  | gives (p : Nat)
deriving DecidableEq

def Call.start : Call → Pc
  | select p force => .select p force
  | deselect p => .deselect p
  | takeSemaphore p => .takes p
  | giveSemaphore p => .gives p

/-- Where a thread goes on. -/
inductive Next where
  | goto (pc : Pc)
  /-- It returns with success and has begun a pair. -/
  | opens (pair : Pair)
  /-- It returns from the call that ends a pair. -/
  | closes (pair : Pair)
  /-- It returns with an error. -/
  | fails
deriving DecidableEq

/-- A take of the mutex of the bus of a device; none while it is not available. -/
def takeBus (s : Spi) (p : Nat) (next : Next) : Result (Option (Spi × Next)) := do
  let d ← s.read p
  let h ← s.host d.host
  let h ← h.take
  pure (h.map fun h => (s.setHost d.host h, next))

/-- The next step of a thread; none where it waits. -/
def Pc.advance (gpio : Gpio) (s : Spi) : Pc → Result (Option (Spi × Next))
  | idle => pure none
  | select p force => do
    let d ← s.read p
    pure (some (s, if d.cfg.selected = 1 then .opens (.device p)
      else .goto (.selectChecks p force)))
  | selectChecks p force => do
    match ← checkHandle s p with
    | .inl _ => pure (some (s, .fails))
    | .inr i => pure (some (s, .goto (.selectTakes p force i)))
  | selectTakes p force i => takeBus s p (.goto (.selectReconfigures p force i))
  | selectReconfigures p force i => do
    let (err, s) ← reconfigureBus gpio s p i
    pure (some (s, .goto (if err = .ok then .selectConfigures p force i else .selectGives p)))
  | selectConfigures p force i => do
    let s ← configureDevice s p force i
    pure (some (s, .goto (.selectLowers p)))
  | selectLowers p => do
    let s ← setCs s p false
    pure (some (s, .goto (.selectMarks p)))
  | selectMarks p => do
    let s ← setSelected s p 1
    pure (some (s, .opens (.device p)))
  | selectGives p => do
    let d ← s.read p
    let s ← s.give d.host
    pure (some (s, .fails))
  | deselect p => do
    let d ← s.read p
    pure (some (s, if d.cfg.selected = 0 then .closes (.device p) else .goto (.deselectChecks p)))
  | deselectChecks p => do
    match ← checkHandle s p with
    | .inl _ => pure (some (s, .closes (.device p)))
    | .inr _ => pure (some (s, .goto (.deselectRaises p)))
  | deselectRaises p => do
    let s ← raiseCs s p
    pure (some (s, .goto (.deselectClears p)))
  | deselectClears p => do
    let s ← setSelected s p 0
    pure (some (s, .goto (.deselectGives p)))
  | deselectGives p => do
    let d ← s.read p
    let s ← s.give d.host
    pure (some (s, .closes (.device p)))
  | takes p => takeBus s p (.goto (.takesAgain p))
  | takesAgain p => takeBus s p (.opens (.semaphore p))
  | gives p => takeBus s p (.closes (.semaphore p))

/-- The places of the takes that wait for a limited time. -/
def Pc.timesOut : Pc → Bool
  | selectTakes .. => true
  | takesAgain _ => true
  | _ => false

/-- The hosts and devices, and the threads. -/
structure World (Tid : Type) where
  spi : Spi
  pc : Tid → Pc
  opened : Tid → List Pair

inductive Act (Tid : Type) where
  | call (t : Tid) (c : Call)
  | next (t : Tid)
  | timeout (t : Tid)

section Threads

variable {Tid : Type} [DecidableEq Tid]

/-- A thread goes on. -/
def World.follow (w : World Tid) (t : Tid) (s : Spi) : Next → World Tid
  | .goto pc => { w with spi := s, pc := Function.update w.pc t pc }
  | .opens pair =>
    { spi := s, pc := Function.update w.pc t .idle
      opened := Function.update w.opened t (pair :: w.opened t) }
  | .closes pair =>
    { spi := s, pc := Function.update w.pc t .idle
      opened := Function.update w.opened t ((w.opened t).erase pair) }
  | .fails => { w with spi := s, pc := Function.update w.pc t .idle }

/-- A thread calls for a device of the bus, and ends only what it has begun. -/
def World.mayCall (b : Nat) (w : World Tid) (t : Tid) (c : Call) : Bool :=
  (w.spi.devices c.handle).any (fun d => decide (d.host = b)) &&
    c.ends.all (fun pair => (w.opened t).contains pair)

/-- A step of a thread, with the devices of the bus `b`. -/
def World.step (gpio : Gpio) (b : Nat) (w : World Tid) : Act Tid → Option (World Tid)
  | .call t c =>
    if w.pc t = .idle ∧ w.mayCall b t c then
      some { w with pc := Function.update w.pc t c.start }
    else none
  | .next t =>
    match (w.pc t).advance gpio w.spi with
    | .ok (some (s, next)) => some (w.follow t s next)
    | _ => none
  | .timeout t =>
    match (w.pc t).advance gpio w.spi with
    | .ok none =>
      if (w.pc t).timesOut then some { w with pc := Function.update w.pc t .idle } else none
    | _ => none

/-- The threads have made no call. -/
def World.init (s : Spi) : World Tid := ⟨s, fun _ => .idle, fun _ => []⟩

/-- The runs from given hosts and devices. -/
def threads (Tid : Type) [DecidableEq Tid] (gpio : Gpio) (b : Nat) (s : Spi) :
    Lts (World Tid) (Act Tid) :=
  .ofStep (.init s) (World.step gpio b)

/-! ## Ownership -/

/-- The mutex of the bus is available. -/
def Spi.BusFree (s : Spi) (b : Nat) : Prop :=
  ∃ h m, s.spihost b = some h ∧ h.spi_bus_mutex = some m ∧ m.available = true

/-- The chip select of a device of the bus is active.  One that is an output of its
    own is active while it is low.  The controller drives the others in a transfer,
    and a transfer is made inside a pair. -/
def World.ChipSelect (b : Nat) (w : World Tid) (p : Nat) : Prop :=
  ∃ d h, w.spi.devices p = some d ∧ d.host = b ∧ w.spi.spihost b = some h ∧
    if d.cfg.ExtCs then w.spi.level d.cfg.spics_ext_io_num = false
    else (∃ t, w.opened t ≠ []) ∧ (w.spi.module b).enabled = true ∧
      ∃ (i : Fin NO_DEV) (c : Fin NO_CS), h.device i = .device p ∧ i.val = c.val ∧
        (w.spi.module b).regs.cs_dis c = false

/-- At most one thread is inside a pair, at most one chip select is active, and
    outside all pairs and calls the bus is free. -/
structure Owned (b : Nat) (w : World Tid) : Prop where
  alone : ∀ t u, w.opened t ≠ [] → w.opened u ≠ [] → t = u
  chip : ∀ p q, w.ChipSelect b p → w.ChipSelect b q → p = q
  free : (∀ t, w.pc t = .idle ∧ w.opened t = []) →
    w.spi.BusFree b ∧ ∀ p, ¬ w.ChipSelect b p

/-- The steps with which a pair ends leave the bus free. -/
def EndsFree (gpio : Gpio) (b : Nat) (ok : World Tid → Act Tid → Prop) (w : World Tid) : Prop :=
  ∀ a w', ok w a → w.step gpio b a = some w' →
    (∃ t, (w'.opened t).length < (w.opened t).length) → w'.spi.BusFree b

/-- A device that is selected is not selected again.  The device of an unforced
    selection is compared with a device. -/
def Pc.Disciplined (s : Spi) : Pc → Prop
  | select p _ => ∀ d ∈ s.devices p, d.cfg.selected ≠ 1
  | selectConfigures p force _ => force = true ∨
      ∀ d ∈ s.devices p, ∀ h ∈ s.spihost d.host, h.cur_device.isSome = true ∨ h.below ≠ .device p
  | _ => True

instance (s : Spi) : (pc : Pc) → Decidable (pc.Disciplined s)
  | .select _ _ => inferInstanceAs (Decidable (∀ _ ∈ _, _))
  | .selectConfigures _ _ _ => inferInstanceAs (Decidable (_ ∨ _))
  | .idle | .selectChecks _ _ | .selectTakes _ _ _ | .selectReconfigures _ _ _ | .selectLowers _
  | .selectMarks _ | .selectGives _ | .deselect _ | .deselectChecks _ | .deselectRaises _
  | .deselectClears _ | .deselectGives _ | .takes _ | .takesAgain _ | .gives _ => .isTrue trivial

/-- Moreover nobody takes or gives the semaphore. -/
def Disciplined (w : World Tid) : Act Tid → Prop
  | .call _ c => c ≠ .takeSemaphore c.handle
  | .next t => (w.pc t).Disciplined w.spi
  | .timeout _ => True

instance (w : World Tid) : (a : Act Tid) → Decidable (Disciplined w a)
  | .call _ _ => inferInstanceAs (Decidable (_ ≠ _))
  | .next _ => inferInstanceAs (Decidable (Pc.Disciplined _ _))
  | .timeout _ => .isTrue trivial

end Threads

/-- Nothing is selected, and the enabled chip selects of the controller are those of
    the current device. -/
structure Ready (b : Nat) (s : Spi) : Prop where
  free : s.BusFree b
  lines : ∀ h i, s.spihost b = some h → h.cur_device = some i →
    (s.module b).enabled = true →
      ∀ c : Fin NO_CS, (s.module b).regs.cs_dis c = false → i.val = c.val
  flag : ∀ p d, s.devices p = some d → d.host = b → d.cfg.selected = 0
  level : ∀ p d, s.devices p = some d → d.host = b → d.cfg.ExtCs →
    s.level d.cfg.spics_ext_io_num = true

/-- No two devices of the bus have the same pin as chip select. -/
def DistinctCs (b : Nat) (s : Spi) : Prop :=
  ∀ p q d e, s.devices p = some d → s.devices q = some e → d.host = b → e.host = b →
    d.cfg.ExtCs → e.cfg.ExtCs → d.cfg.spics_ext_io_num = e.cfg.spics_ext_io_num → p = q

end LuaRtos.SpiBus
