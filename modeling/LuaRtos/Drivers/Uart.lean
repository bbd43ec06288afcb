/-
  LuaRtos.Drivers.Uart

  The receive path of drivers/uart.c: the interrupt handler, the filter of the
  bytes that it queues, and `uart_read`.

  The handler is taken one test of its loops at a time, since bytes go on
  arriving in the receive FIFO of a unit while it runs.  What it reads in the
  interrupt status register is up to the hardware.  A queue holds `qs` bytes:
  what is sent to it when it is full is lost.
-/

import LuaRtos.Pthread.Signal
import LuaRtos.Sys.Status
import LuaRtos.Lts.Run
import Mathlib.Logic.Function.Basic

namespace LuaRtos.Uart

open CLib Pthread Sys

def NUART : Nat := 3

/-- The console of the default configuration. -/
def CONSOLE_UART : Fin NUART := ⟨0, by decide⟩

/-- `SIGINT`, as an index of the tables of handlers. -/
def SIGINT : Fin pthreadNsig := ⟨2, by decide⟩

/-- `_pthread_has_signal`: the loop over `thread_list`. -/
def pthreadHasSignal (s : Fin pthreadNsig) (threads : List SigThread) : Bool :=
  threads.any fun thread => thread.thread = 1 && (thread.signals s).isFn

/-- A call that the handler leaves to the timer task. -/
inductive Deferred where
  | process_signal (signal : Fin pthreadNsig)
  | report_status (status : Nat)
deriving DecidableEq, Repr

/-- What `queue_byte` returns and leaves in `*status` and `*signal`. -/
structure Verdict where
  queued : Bool
  status : Nat
  signal : Option (Fin pthreadNsig)
deriving DecidableEq, Repr

/-- `queue_byte`, with the status word that it leaves. -/
def queueByte (console : Fin NUART) (threads : List SigThread) (unit : Fin NUART) (byte : Byte)
    (w : Status) : Verdict × Status :=
  let running := statusGet STATUS_LUA_RUNNING w
  if unit = console ∧ !statusGet STATUS_UART_QUE_NOTFILTER w then
    if byte = 0x04 then
      (⟨false, if !running then 1 else 2, none⟩, statusSet STATUS_LUA_ABORT_BOOT_SCRIPTS w)
    else if byte = 0x03 then
      if running then
        if pthreadHasSignal SIGINT threads then (⟨false, 0, some SIGINT⟩, w)
        else (⟨true, 0, some SIGINT⟩, w)
      else (⟨false, 0, none⟩, w)
    else (⟨running, 0, none⟩, w)
  else (⟨running, 0, none⟩, w)

/-- A unit: whether it is initialised, its queue and the size of it, and its
    receive FIFO. -/
structure UartUnit where
  init : Bool
  q : List Byte
  qs : Nat
  fifo : List Byte
deriving DecidableEq, Repr

/-- What the handler tests in the interrupt status register of a unit. -/
structure IntStatus where
  frmErr : Bool
  rxfifoFull : Bool
  rxfifoTout : Bool
  other : Bool
deriving DecidableEq, Repr

/-- Where the handler is. -/
inductive Isr where
  | idle
  /-- At the test of the loop over the units. -/
  | scan (unit : Nat)
  /-- At the end of a round of the loop over the interrupt status of the unit. -/
  | poll (unit : Fin NUART)
  /-- In the loop over the FIFO, after the interrupt for the FIFO being full. -/
  | full (unit : Fin NUART)
  /-- In the same loop, after the interrupt for its time-out. -/
  | tout (unit : Fin NUART)
deriving DecidableEq, Repr

/-- The driver with the status word, and the calls left to the timer task. -/
structure Driver where
  uart : Fin NUART → UartUnit
  status : Status
  isr : Isr
  deferred : List Deferred

namespace Driver

variable (console : Fin NUART) (threads : List SigThread)

/-- A change of one unit. -/
def set (d : Driver) (unit : Fin NUART) (x : UartUnit) : Driver :=
  { d with uart := Function.update d.uart unit x }

/-- `xQueueSendFromISR`. -/
def send (d : Driver) (unit : Fin NUART) (byte : Byte) : Driver :=
  let x := d.uart unit
  if x.q.length < x.qs then d.set unit { x with q := x.q ++ [byte] } else d

/-- What the handler does with a byte that it has taken from the FIFO. -/
def receive (d : Driver) (unit : Fin NUART) (byte : Byte) : Driver :=
  let (verdict, w) := queueByte console threads unit byte d.status
  let d := { d with status := w }
  if verdict.queued then d.send unit byte
  else
    let signals := (verdict.signal.map Deferred.process_signal).toList
    let reports := if verdict.status ≠ 0 then [Deferred.report_status verdict.status] else []
    { d with deferred := d.deferred ++ signals ++ reports }

/-- A round of the loop over the FIFO, or the end of it. -/
def drain (d : Driver) (unit : Fin NUART) : Driver :=
  let x := d.uart unit
  match x.fifo with
  | [] => { d with isr := .poll unit }
  | byte :: fifo => (d.set unit { x with fifo := fifo }).receive console threads unit byte

/-- The tests of the interrupt status of a unit. -/
def serve (unit : Fin NUART) (st : IntStatus) : Isr :=
  if st.frmErr then .poll unit
  else if st.rxfifoFull then .full unit
  else if st.rxfifoTout then .tout unit
  else if st.other then .poll unit
  else .scan (unit + 1)

/-- `uart_rx_intr_handler`, to its next test, where it reads `st` in the
    interrupt status register. -/
def handler (d : Driver) (st : IntStatus) : Driver :=
  match d.isr with
  | .idle => { d with isr := .scan 0 }
  | .scan i =>
    if h : i < NUART then
      if (d.uart ⟨i, h⟩).init then { d with isr := serve ⟨i, h⟩ st }
      else { d with isr := .scan (i + 1) }
    else { d with isr := .idle }
  | .poll unit => { d with isr := serve unit st }
  | .full unit => d.drain console threads unit
  | .tout unit => d.drain console threads unit

/-- `uart_read` of a byte that is in the queue. -/
def read (d : Driver) (unit : Fin NUART) : Option (Driver × Byte) :=
  let x := d.uart unit
  match x.q with
  | [] => none
  | byte :: q => some (d.set unit { x with q := q }, byte)

end Driver

/-- What happens to the driver. -/
inductive Act where
  /-- A byte arrives in the FIFO of a unit. -/
  | arrive (unit : Fin NUART) (byte : Byte)
  /-- The handler goes on, or starts. -/
  | handler (st : IntStatus)
  | read (unit : Fin NUART)
  /-- A task sets or clears a flag. -/
  | flag (flag : Nat) (on : Bool)
deriving DecidableEq, Repr

/-- A step of the driver. -/
def step (console : Fin NUART) (threads : List SigThread) (d : Driver) : Act → Option Driver
  | .arrive unit byte =>
    let x := d.uart unit
    some (d.set unit { x with fifo := x.fifo ++ [byte] })
  | .handler st => some (d.handler console threads st)
  | .read unit => (d.read unit).map Prod.fst
  | .flag flag on =>
    some { d with status := if on then statusSet flag d.status else statusClear flag d.status }

/-! ## What a step does to the console -/

section Steps

variable {console : Fin NUART} {threads : List SigThread} {unit : Fin NUART} {byte : Byte}
  {w : Status} {d : Driver} {x : UartUnit}

/-- A byte that goes through: the filter is off, or the byte is none of the two that
    it looks for. -/
def Passes (threads : List SigThread) (notFilter : Bool) (byte : Byte) : Prop :=
  notFilter = true ∨ byte ≠ 0x04 ∧ (byte = 0x03 → pthreadHasSignal SIGINT threads = false)

instance (notFilter : Bool) : Decidable (Passes threads notFilter byte) :=
  inferInstanceAs (Decidable (_ ∨ _))

/-- While Lua is running, a byte that is let through is queued. -/
theorem queueByte_passes (hrunning : statusGet STATUS_LUA_RUNNING w = true)
    (h : unit = console → Passes threads (statusGet STATUS_UART_QUE_NOTFILTER w) byte) :
    (queueByte console threads unit byte w).1.queued = true ∧
      (queueByte console threads unit byte w).2 = w := by
  unfold queueByte
  dsimp only
  by_cases hfilter : unit = console ∧ (!statusGet STATUS_UART_QUE_NOTFILTER w) = true
  · obtain ⟨hunit, hon⟩ := hfilter
    rw [if_pos ⟨hunit, hon⟩]
    rcases h hunit with hoff | ⟨hfour, hthree⟩
    · rw [hoff] at hon
      cases hon
    rw [if_neg hfour]
    by_cases hbyte : byte = 0x03
    · rw [if_pos hbyte, if_pos hrunning, hthree hbyte]
      exact ⟨rfl, rfl⟩
    · rw [if_neg hbyte]
      exact ⟨hrunning, rfl⟩
  · rw [if_neg hfilter]
    exact ⟨hrunning, rfl⟩

/-- One that is not is left to the timer task. -/
theorem queueByte_held (console : Fin NUART) (hrunning : statusGet STATUS_LUA_RUNNING w = true)
    (h : ¬ Passes threads (statusGet STATUS_UART_QUE_NOTFILTER w) byte) :
    (queueByte console threads console byte w).1.queued = false ∧
      ((queueByte console threads console byte w).1.signal ≠ none ∨
        (queueByte console threads console byte w).1.status ≠ 0) := by
  have hon : (!statusGet STATUS_UART_QUE_NOTFILTER w) = true := by
    cases hflag : statusGet STATUS_UART_QUE_NOTFILTER w with
    | false => rfl
    | true => exact absurd (.inl hflag) h
  unfold queueByte
  dsimp only
  rw [if_pos ⟨rfl, hon⟩]
  by_cases hfour : byte = 0x04
  · rw [if_pos hfour, hrunning]
    exact ⟨rfl, .inr (Nat.succ_ne_zero 1)⟩
  rw [if_neg hfour]
  have hthree : byte = 0x03 ∧ pthreadHasSignal SIGINT threads = true := by
    by_cases hbyte : byte = 0x03
    · refine ⟨hbyte, ?_⟩
      cases hsignal : pthreadHasSignal SIGINT threads with
      | true => rfl
      | false => exact absurd (.inr ⟨hfour, fun _ => hsignal⟩) h
    · exact absurd (.inr ⟨hfour, fun hb => absurd hb hbyte⟩) h
  rw [if_pos hthree.1, if_pos hrunning, if_pos hthree.2]
  exact ⟨rfl, .inl nofun⟩

@[simp] theorem uart_set_self (d : Driver) (unit : Fin NUART) (x : UartUnit) :
    (d.set unit x).uart unit = x :=
  Function.update_self ..

theorem uart_set_of_ne (d : Driver) {unit other : Fin NUART} (h : other ≠ unit) (x : UartUnit) :
    (d.set unit x).uart other = d.uart other :=
  Function.update_of_ne h ..

@[simp] theorem set_set (d : Driver) (unit : Fin NUART) (x y : UartUnit) :
    (d.set unit x).set unit y = d.set unit y := by
  simp [Driver.set]

/-- A byte that is let through goes to the end of the queue of its unit. -/
theorem receive_passes (hrunning : statusGet STATUS_LUA_RUNNING d.status = true)
    (h : unit = console → Passes threads (statusGet STATUS_UART_QUE_NOTFILTER d.status) byte) :
    d.receive console threads unit byte = d.send unit byte := by
  obtain ⟨hqueued, hstatus⟩ := queueByte_passes hrunning h
  show (if (queueByte console threads unit byte d.status).1.queued then
      Driver.send { d with status := (queueByte console threads unit byte d.status).2 } unit byte
    else _) = _
  rw [hstatus, if_pos hqueued]

/-- One that is not makes the handler leave a call to the timer task. -/
theorem receive_held (console : Fin NUART) (hrunning : statusGet STATUS_LUA_RUNNING d.status = true)
    (h : ¬ Passes threads (statusGet STATUS_UART_QUE_NOTFILTER d.status) byte) :
    (d.receive console threads console byte).deferred ≠ d.deferred := by
  obtain ⟨hqueued, hcall⟩ := queueByte_held console hrunning h
  unfold Driver.receive
  dsimp only
  rw [if_neg (ne_of_eq_of_ne hqueued Bool.false_ne_true)]
  intro hsame
  have hnone := List.append_right_eq_self.mp ((List.append_assoc ..).symm.trans hsame)
  obtain ⟨hsignals, hreports⟩ := List.append_eq_nil_iff.mp hnone
  rcases hcall with hsignal | hstatus
  · obtain ⟨s, hs⟩ := Option.ne_none_iff_exists'.mp hsignal
    rw [hs] at hsignals
    cases hsignals
  · rw [if_pos hstatus] at hreports
    cases hreports

theorem send_eq (h : (d.uart unit).q.length < (d.uart unit).qs) : d.send unit byte =
    d.set unit { d.uart unit with q := (d.uart unit).q ++ [byte] } :=
  if_pos h

@[simp] theorem status_send (d : Driver) (unit : Fin NUART) (byte : Byte) :
    (d.send unit byte).status = d.status := by
  unfold Driver.send
  dsimp only
  split <;> rfl

@[simp] theorem deferred_send (d : Driver) (unit : Fin NUART) (byte : Byte) :
    (d.send unit byte).deferred = d.deferred := by
  unfold Driver.send
  dsimp only
  split <;> rfl

theorem uart_send_of_ne (d : Driver) {unit other : Fin NUART} (h : other ≠ unit) (byte : Byte) :
    (d.send unit byte).uart other = d.uart other := by
  unfold Driver.send
  dsimp only
  split
  · exact uart_set_of_ne d h _
  · rfl

end Steps

end LuaRtos.Uart
