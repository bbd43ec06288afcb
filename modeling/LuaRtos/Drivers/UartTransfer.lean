/-
  LuaRtos.Drivers.UartTransfer

  The console UART while a file is transferred over it.

  The handler filters what arrives on the console, unless a flag says that it
  must not.  Only the YMODEM routines set the flag around their transfer.  A
  transfer is transparent where every byte of the stream is handed out by
  `uart_read`, and none makes the handler call for a signal or a report.
-/

import LuaRtos.Drivers.Uart

namespace LuaRtos.Uart

open CLib Pthread Sys

/-- The routines that transfer a file over the console. -/
inductive Routine where
  | f_receive
  | f_send
  | f_ymreceive
  | f_ymsend
deriving DecidableEq, Repr

namespace Routine

/-- What a routine does to the status word before it transfers. -/
def enter : Routine → Status → Status
  | f_receive | f_send => id
  | f_ymreceive | f_ymsend => statusSet STATUS_UART_QUE_NOTFILTER

/-- And what it does when it has transferred. -/
def leave : Routine → Status → Status
  | f_receive | f_send => id
  | f_ymreceive | f_ymsend => statusClear STATUS_UART_QUE_NOTFILTER

/-- The routines that turn the filter off. -/
def notFilter : Routine → Bool
  | f_receive | f_send => false
  | f_ymreceive | f_ymsend => true

/-- Every routine leaves the status word as it was. -/
theorem leave_enter (r : Routine) {w : Status}
    (h : statusGet STATUS_UART_QUE_NOTFILTER w = false) : r.leave (r.enter w) = w := by
  cases r with
  | f_receive => rfl
  | f_send => rfl
  | f_ymreceive => exact statusClear_set (by decide) h
  | f_ymsend => exact statusClear_set (by decide) h

theorem running_enter (r : Routine) {w : Status} (h : statusGet STATUS_LUA_RUNNING w = true) :
    statusGet STATUS_LUA_RUNNING (r.enter w) = true := by
  cases r with
  | f_receive => exact h
  | f_send => exact h
  | f_ymreceive =>
    rw [enter, statusGet_set (by decide) (by decide), h]
    rfl
  | f_ymsend =>
    rw [enter, statusGet_set (by decide) (by decide), h]
    rfl

theorem notFilter_enter (r : Routine) {w : Status}
    (h : statusGet STATUS_UART_QUE_NOTFILTER w = false) :
    statusGet STATUS_UART_QUE_NOTFILTER (r.enter w) = r.notFilter := by
  cases r with
  | f_receive => exact h
  | f_send => exact h
  | f_ymreceive =>
    rw [enter, statusGet_set (by decide) (by decide)]
    exact Bool.or_true _
  | f_ymsend =>
    rw [enter, statusGet_set (by decide) (by decide)]
    exact Bool.or_true _

end Routine

/-! ## The bytes of the console -/

/-- What has arrived on the console, and what `uart_read` has handed out of it. -/
structure Record where
  arrived : List Byte
  handed : List Byte
deriving DecidableEq, Repr

/-- The record after a step. -/
def Record.next (console : Fin NUART) (d : Driver) (a : Act) (r : Record) : Record :=
  match a with
  | .arrive unit byte => if unit = console then { r with arrived := r.arrived ++ [byte] } else r
  | .read unit =>
    if unit = console then { r with handed := r.handed ++ ((d.read unit).map Prod.snd).toList }
    else r
  | _ => r

section Console

variable (console : Fin NUART) (threads : List SigThread)

/-- The runs of the driver from `d`. -/
def runs (d : Driver) : Lts (Driver × Record) Act :=
  .ofStep (d, ⟨[], []⟩) (Lts.withHistory (step console threads) (Record.next console))

/-- A step while `bs` arrives on the console and Lua is running: the handler finds
    room in the queue, and the tasks leave the two flags that it tests alone. -/
def Window (bs : List Byte) (p : Driver × Record) : Act → Prop
  | .arrive unit byte => unit = console → p.2.arrived ++ [byte] <+: bs
  | .handler _ => (p.1.uart console).q.length < (p.1.uart console).qs
  | .read _ => True
  | .flag flag _ => flag < 32 ∧ flag ≠ STATUS_LUA_RUNNING ∧ flag ≠ STATUS_UART_QUE_NOTFILTER

/-- The driver when a routine starts to transfer. -/
structure Begins (d : Driver) : Prop where
  init : (d.uart console).init = true
  room : 0 < (d.uart console).qs
  fifo : (d.uart console).fifo = []
  isr : d.isr = .idle
  running : statusGet STATUS_LUA_RUNNING d.status = true
  filter : statusGet STATUS_UART_QUE_NOTFILTER d.status = false

/-- Whatever the order of things: what is handed out is what was in the queue and
    what has arrived, in order, less what is still to come; and nothing is left to
    the timer task. -/
def Transparent (r : Routine) (d : Driver) (bs : List Byte) : Prop :=
  ∀ p, (runs console threads { d with status := r.enter d.status }).Reach (Window console bs) p →
    p.2.handed ++ ((p.1.uart console).q ++ (p.1.uart console).fifo) =
      (d.uart console).q ++ p.2.arrived ∧
    p.1.deferred = d.deferred

end Console

/-! ## A stream that passes the filter -/

section Transfer

variable {console : Fin NUART} {threads : List SigThread} {r : Routine} {d d₀ : Driver}
  {bs : List Byte} {p : Driver × Record}

/-- The routine has turned the filter off, or none of the bytes is held by it. -/
def Clear (threads : List SigThread) (r : Routine) (bs : List Byte) : Prop :=
  r.notFilter = true ∨ 0x04 ∉ bs ∧ (0x03 ∈ bs → pthreadHasSignal SIGINT threads = false)

instance : Decidable (Clear threads r bs) := inferInstanceAs (Decidable (_ ∨ _))

/-- So every byte goes through. -/
theorem clear_iff : Clear threads r bs ↔ ∀ b ∈ bs, Passes threads r.notFilter b := by
  constructor
  · rintro (hoff | ⟨hfour, hthree⟩) b hb
    · exact .inl hoff
    · refine .inr ⟨?_, ?_⟩
      · rintro rfl
        exact hfour hb
      · rintro rfl
        exact hthree hb
  · intro h
    cases hoff : r.notFilter with
    | true => exact .inl hoff
    | false =>
      rw [hoff] at h
      refine .inr ⟨fun hfour => ?_, fun hthree => ?_⟩
      · rcases h _ hfour with hon | ⟨hne, -⟩
        · cases hon
        · exact hne rfl
      · rcases h _ hthree with hon | ⟨-, hsignal⟩
        · cases hon
        · exact hsignal rfl

/-- What holds while the stream of a transfer comes in. -/
structure Incoming (console : Fin NUART) (r : Routine) (d₀ : Driver) (bs : List Byte)
    (p : Driver × Record) : Prop where
  running : statusGet STATUS_LUA_RUNNING p.1.status = true
  filter : statusGet STATUS_UART_QUE_NOTFILTER p.1.status = r.notFilter
  bytes : p.2.handed ++ ((p.1.uart console).q ++ (p.1.uart console).fifo) =
    (d₀.uart console).q ++ p.2.arrived
  deferred : p.1.deferred = d₀.deferred
  stream : ∀ b ∈ (p.1.uart console).fifo, b ∈ bs

/-- Only the console counts. -/
theorem Incoming.of_console {d : Driver} (h : Incoming console r d₀ bs p)
    (huart : d.uart console = p.1.uart console) (hstatus : d.status = p.1.status)
    (hdeferred : d.deferred = p.1.deferred) : Incoming console r d₀ bs (d, p.2) where
  running := hstatus ▸ h.running
  filter := hstatus ▸ h.filter
  bytes := huart ▸ h.bytes
  deferred := hdeferred.trans h.deferred
  stream := huart ▸ h.stream

/-- A round of the loop over a FIFO. -/
theorem Incoming.drain (h : Incoming console r d₀ bs p) (hclear : Clear threads r bs)
    (hroom : (p.1.uart console).q.length < (p.1.uart console).qs) (unit : Fin NUART) :
    Incoming console r d₀ bs (p.1.drain console threads unit, p.2) := by
  unfold Driver.drain
  dsimp only
  cases hfifo : (p.1.uart unit).fifo with
  | nil => exact h.of_console rfl rfl rfl
  | cons byte fifo =>
    have hpasses : unit = console →
        Passes threads (statusGet STATUS_UART_QUE_NOTFILTER p.1.status) byte := by
      rintro rfl
      rw [h.filter]
      apply clear_iff.mp hclear
      apply h.stream
      rw [hfifo]
      exact List.mem_cons_self
    show Incoming console r d₀ bs (Driver.receive console threads _ unit byte, p.2)
    rw [receive_passes (d := p.1.set unit _) h.running hpasses]
    by_cases hunit : console = unit
    · subst hunit
      have hbytes := h.bytes
      rw [hfifo] at hbytes
      rw [send_eq (d := p.1.set console _) (by rw [uart_set_self]; exact hroom), uart_set_self]
      refine ⟨h.running, h.filter, ?_, h.deferred, fun b hb => ?_⟩
      · rw [uart_set_self]
        simpa using hbytes
      · rw [uart_set_self] at hb
        apply h.stream
        rw [hfifo]
        exact List.mem_cons_of_mem _ hb
    · refine h.of_console ?_ (status_send ..) (deferred_send ..)
      rw [uart_send_of_ne _ hunit, uart_set_of_ne _ hunit]

/-- The handler, wherever it is. -/
theorem Incoming.handler (h : Incoming console r d₀ bs p) (hclear : Clear threads r bs)
    (hroom : (p.1.uart console).q.length < (p.1.uart console).qs) (st : IntStatus) :
    Incoming console r d₀ bs (p.1.handler console threads st, p.2) := by
  unfold Driver.handler
  cases hisr : p.1.isr with
  | idle => exact h.of_console rfl rfl rfl
  | scan i =>
    dsimp only
    split
    · split
      · exact h.of_console rfl rfl rfl
      · exact h.of_console rfl rfl rfl
    · exact h.of_console rfl rfl rfl
  | poll unit => exact h.of_console rfl rfl rfl
  | full unit => exact h.drain hclear hroom unit
  | tout unit => exact h.drain hclear hroom unit

theorem Incoming.step (h : Incoming console r d₀ bs p) (hclear : Clear threads r bs) {a : Act}
    (hok : Window console bs p a) {p' : Driver × Record}
    (hstep : Lts.withHistory (step console threads) (Record.next console) p a = some p') :
    Incoming console r d₀ bs p' := by
  obtain ⟨d', hd', rfl⟩ := Option.map_eq_some_iff.mp hstep
  have hbytes := h.bytes
  cases a with
  | arrive unit byte =>
    obtain rfl := Option.some.inj hd'
    by_cases hunit : unit = console
    · subst hunit
      rw [Record.next, if_pos rfl]
      refine ⟨h.running, h.filter, ?_, h.deferred, fun b hb => ?_⟩
      · rw [uart_set_self]
        show _ = (d₀.uart unit).q ++ (p.2.arrived ++ [byte])
        rw [← List.append_assoc (d₀.uart unit).q, ← hbytes]
        simp only [List.append_assoc]
      · rw [uart_set_self] at hb
        rcases List.mem_append.mp hb with hb | hb
        · exact h.stream b hb
        · obtain rfl := List.mem_singleton.mp hb
          exact (hok rfl).subset (List.mem_append_right _ (List.mem_singleton_self _))
    · rw [Record.next, if_neg hunit]
      exact h.of_console (uart_set_of_ne _ (Ne.symm hunit) _) rfl rfl
  | handler st =>
    obtain rfl := Option.some.inj hd'
    exact h.handler hclear hok st
  | read unit =>
    obtain ⟨⟨d, byte⟩, hread, rfl⟩ := Option.map_eq_some_iff.mp hd'
    cases hq : (p.1.uart unit).q with
    | nil =>
      simp only [Driver.read, hq] at hread
      cases hread
    | cons b q =>
      have hread' := hread
      simp only [Driver.read, hq] at hread'
      obtain ⟨rfl, rfl⟩ := Prod.mk.inj (Option.some.inj hread')
      by_cases hunit : unit = console
      · subst hunit
        rw [hq] at hbytes
        rw [Record.next, if_pos rfl, hread]
        refine ⟨h.running, h.filter, ?_, h.deferred, fun c hc => ?_⟩
        · rw [uart_set_self]
          simpa using hbytes
        · rw [uart_set_self] at hc
          exact h.stream c hc
      · rw [Record.next, if_neg hunit]
        exact h.of_console (uart_set_of_ne _ (Ne.symm hunit) _) rfl rfl
  | flag flag on =>
    obtain rfl := Option.some.inj hd'
    obtain ⟨hflag, hrunning, hfilter⟩ := hok
    have hkeep : ∀ g < 32, g ≠ flag → statusGet g
        (if on then statusSet flag p.1.status else statusClear flag p.1.status) =
        statusGet g p.1.status := by
      intro g hg hne
      cases on with
      | true =>
        rw [if_pos rfl, statusGet_set hflag hg, decide_eq_false hne, Bool.or_false]
      | false =>
        rw [if_neg Bool.false_ne_true, statusGet_clear hflag hg, decide_eq_false hne]
        exact Bool.and_true _
    exact ⟨(hkeep _ (by decide) hrunning.symm).trans h.running,
      (hkeep _ (by decide) hfilter.symm).trans h.filter, hbytes, h.deferred, h.stream⟩

theorem transparent_of_clear (hd : Begins console d) (hclear : Clear threads r bs) :
    Transparent console threads r d bs := by
  intro p hp
  have hinv : Incoming console r d bs p := by
    refine hp.invariant (I := Incoming console r d bs) ?_ ?_
    · rintro _ rfl
      refine ⟨r.running_enter hd.running, r.notFilter_enter hd.filter, ?_, rfl, ?_⟩
      · rw [hd.fifo, List.append_nil]
        rfl
      · rw [hd.fifo]
        exact nofun
    · intro p a p' h hok hstep
      exact h.step hclear hok hstep
  exact ⟨hinv.bytes, hinv.deferred⟩

/-! ## A stream that does not -/

/-- A state in which the console is served: the handler is at `isr`, `q` is left in
    the queue and nothing in the FIFO, and `pre` has arrived. -/
structure Served (console : Fin NUART) (threads : List SigThread) (r : Routine) (d₀ : Driver)
    (bs : List Byte) (isr : Isr) (q pre : List Byte) (p : Driver × Record) : Prop where
  reach : (runs console threads { d₀ with status := r.enter d₀.status }).Reach
    (Window console bs) p
  isr : p.1.isr = isr
  init : (p.1.uart console).init = true
  room : 0 < (p.1.uart console).qs
  q : (p.1.uart console).q = q
  fifo : (p.1.uart console).fifo = []
  running : statusGet STATUS_LUA_RUNNING p.1.status = true
  filter : statusGet STATUS_UART_QUE_NOTFILTER p.1.status = r.notFilter
  deferred : p.1.deferred = d₀.deferred
  arrived : p.2.arrived = pre

section Served

variable {isr : Isr} {q pre : List Byte}

theorem Served.start (hd : Begins console d) : Served console threads r d bs .idle
    (d.uart console).q [] ({ d with status := r.enter d.status }, ⟨[], []⟩) where
  reach := .init rfl
  isr := hd.isr
  init := hd.init
  room := hd.room
  q := rfl
  fifo := hd.fifo
  running := r.running_enter hd.running
  filter := r.notFilter_enter hd.filter
  deferred := rfl
  arrived := rfl

/-- What is in the queue is read. -/
theorem Served.read (h : Served console threads r d bs isr q pre p) :
    ∃ p', Served console threads r d bs isr [] pre p' := by
  induction q generalizing p with
  | nil => exact ⟨p, h⟩
  | cons b q ih =>
    have hread : p.1.read console = some (p.1.set console { p.1.uart console with q := q }, b) := by
      simp only [Driver.read, h.q]
    have hstep : Lts.withHistory (step console threads) (Record.next console) p (.read console) =
        some (p.1.set console { p.1.uart console with q := q },
          { p.2 with handed := p.2.handed ++ [b] }) := by
      rw [Lts.withHistory, step, hread, Record.next, if_pos rfl, hread]
      rfl
    refine ih ⟨h.reach.step (a := .read console) trivial hstep, h.isr, ?_, ?_, ?_, ?_, h.running,
      h.filter, h.deferred, h.arrived⟩
    · rw [uart_set_self]
      exact h.init
    · rw [uart_set_self]
      exact h.room
    · rw [uart_set_self]
    · rw [uart_set_self]
      exact h.fifo

/-- A step of the handler between the tests of its loops. -/
theorem Served.handler (h : Served console threads r d bs isr [] pre p) {isr' : Isr}
    (st : IntStatus) (hhandler : p.1.handler console threads st = { p.1 with isr := isr' }) :
    Served console threads r d bs isr' [] pre ({ p.1 with isr := isr' }, p.2) := by
  have hroom : (p.1.uart console).q.length < (p.1.uart console).qs := by
    rw [h.q]
    exact h.room
  have hstep : Lts.withHistory (step console threads) (Record.next console) p (.handler st) =
      some ({ p.1 with isr := isr' }, p.2) := by
    rw [Lts.withHistory, step, hhandler]
    rfl
  exact ⟨h.reach.step (a := .handler st) hroom hstep, rfl, h.init, h.room, h.q, h.fifo, h.running,
    h.filter, h.deferred, h.arrived⟩

/-- The handler comes to the console. -/
theorem Served.scan {i : Nat} (hi : i ≤ console)
    (h : Served console threads r d bs (.scan i) [] pre p) :
    ∃ p', Served console threads r d bs (.full console) [] pre p' := by
  induction hk : console.val - i generalizing i p with
  | zero =>
    obtain rfl : i = console := by omega
    have hhandler : p.1.handler console threads ⟨false, true, false, false⟩ =
        { p.1 with isr := .full console } := by
      unfold Driver.handler
      rw [h.isr]
      dsimp only
      rw [dif_pos console.isLt, if_pos h.init]
      rfl
    exact ⟨_, h.handler _ hhandler⟩
  | succ k ih =>
    have hlt : i < NUART := by
      have := console.isLt
      omega
    have hhandler : p.1.handler console threads ⟨false, false, false, false⟩ =
        { p.1 with isr := .scan (i + 1) } := by
      unfold Driver.handler
      rw [h.isr]
      dsimp only
      rw [dif_pos hlt]
      split <;> rfl
    exact ih (by omega) (h.handler _ hhandler) (by omega)

/-- A byte arrives and the handler takes it. -/
theorem Served.arrive (h : Served console threads r d bs (.full console) [] pre p) {b : Byte}
    (hb : pre ++ [b] <+: bs) :
    (runs console threads { d with status := r.enter d.status }).Reach (Window console bs)
      ((p.1.set console { p.1.uart console with fifo := [] }).receive console threads console b,
        { p.2 with arrived := pre ++ [b] }) := by
  have harrive : Lts.withHistory (step console threads) (Record.next console) p
      (.arrive console b) = some (p.1.set console { p.1.uart console with fifo := [b] },
        { p.2 with arrived := pre ++ [b] }) := by
    rw [Lts.withHistory, step, Record.next, if_pos rfl, h.fifo, h.arrived]
    rfl
  have hroom : ((p.1.set console { p.1.uart console with fifo := [b] }).uart console).q.length <
      ((p.1.set console { p.1.uart console with fifo := [b] }).uart console).qs := by
    rw [uart_set_self]
    show (p.1.uart console).q.length < (p.1.uart console).qs
    rw [h.q]
    exact h.room
  have hhandler : (p.1.set console { p.1.uart console with fifo := [b] }).handler console threads
      ⟨false, false, false, false⟩ =
      (p.1.set console { p.1.uart console with fifo := [] }).receive console threads console b := by
    have hisr : (p.1.set console { p.1.uart console with fifo := [b] }).isr = .full console := h.isr
    unfold Driver.handler
    rw [hisr]
    show Driver.drain console threads _ console = _
    unfold Driver.drain
    dsimp only
    rw [uart_set_self]
    dsimp only
    rw [set_set]
  have hok : Window console bs p (.arrive console b) := by
    intro _
    rw [h.arrived]
    exact hb
  refine (h.reach.step hok harrive).step (a := .handler ⟨false, false, false, false⟩) hroom ?_
  show Lts.withHistory (step console threads) (Record.next console) _ (.handler _) = _
  rw [Lts.withHistory, step, hhandler]
  rfl

/-- A byte that goes through is queued and read. -/
theorem Served.pass (h : Served console threads r d bs (.full console) [] pre p) {b : Byte}
    (hb : pre ++ [b] <+: bs) (hpasses : Passes threads r.notFilter b) :
    ∃ p', Served console threads r d bs (.full console) [] (pre ++ [b]) p' := by
  have hroom : ((p.1.set console { p.1.uart console with fifo := [] }).uart console).q.length <
      ((p.1.set console { p.1.uart console with fifo := [] }).uart console).qs := by
    rw [uart_set_self]
    show (p.1.uart console).q.length < (p.1.uart console).qs
    rw [h.q]
    exact h.room
  have hreach := h.arrive hb
  rw [← h.filter] at hpasses
  rw [receive_passes (d := p.1.set console _) h.running fun _ => hpasses, send_eq hroom,
    uart_set_self, set_set] at hreach
  have hserved : Served console threads r d bs (.full console) [b] (pre ++ [b])
      (p.1.set console { p.1.uart console with q := (p.1.uart console).q ++ [b], fifo := [] },
        { p.2 with arrived := pre ++ [b] }) := by
    refine ⟨hreach, h.isr, ?_, ?_, ?_, ?_, h.running, h.filter, h.deferred, rfl⟩
    · rw [uart_set_self]
      exact h.init
    · rw [uart_set_self]
      exact h.room
    · rw [uart_set_self, h.q]
      rfl
    · rw [uart_set_self]
  exact hserved.read

theorem Served.stream (h : Served console threads r d bs (.full console) [] pre p)
    {cs : List Byte} (hcs : pre ++ cs <+: bs) (hpasses : ∀ b ∈ cs, Passes threads r.notFilter b) :
    ∃ p', Served console threads r d bs (.full console) [] (pre ++ cs) p' := by
  induction cs generalizing pre p with
  | nil =>
    rw [List.append_nil]
    exact ⟨p, h⟩
  | cons b cs ih =>
    have hassoc : pre ++ b :: cs = (pre ++ [b]) ++ cs := by simp
    rw [hassoc] at hcs ⊢
    have hb : pre ++ [b] <+: bs := (List.prefix_append _ cs).trans hcs
    obtain ⟨p', hp'⟩ := h.pass hb (hpasses b List.mem_cons_self)
    exact ih hp' hcs fun c hc => hpasses c (List.mem_cons_of_mem b hc)

end Served

/-- A byte that does not go through makes the handler leave a call to the timer
    task: the first such byte of the stream, with every byte before it read. -/
theorem clear_of_transparent (hd : Begins console d) (h : Transparent console threads r d bs) :
    Clear threads r bs := by
  rw [clear_iff]
  by_contra hheld
  obtain ⟨b₀, hb₀, hnot₀⟩ : ∃ b ∈ bs, ¬ Passes threads r.notFilter b := by
    simpa using hheld
  have hfind : (bs.find? fun b => decide (¬ Passes threads r.notFilter b)).isSome := by
    rw [List.find?_isSome]
    exact ⟨b₀, hb₀, decide_eq_true hnot₀⟩
  obtain ⟨b, hb⟩ := Option.isSome_iff_exists.mp hfind
  obtain ⟨hnot, pre, post, rfl, hpre⟩ := List.find?_eq_some_iff_append.mp hb
  have hpasses : ∀ c ∈ pre, Passes threads r.notFilter c := by
    intro c hc
    simpa using hpre c hc
  have h₀ : Served console threads r d (pre ++ b :: post) .idle _ _ _ := .start hd
  obtain ⟨p₁, h₁⟩ := h₀.read
  have hidle : p₁.1.handler console threads ⟨false, false, false, false⟩ =
      { p₁.1 with isr := .scan 0 } := by
    unfold Driver.handler
    rw [h₁.isr]
  obtain ⟨p₂, h₂⟩ := (h₁.handler _ hidle).scan (Nat.zero_le _)
  obtain ⟨p₃, h₃⟩ := h₂.stream (List.prefix_append pre _) hpasses
  have hbegins : pre ++ [b] <+: pre ++ b :: post := ⟨post, by simp⟩
  have hheld : ¬ Passes threads (statusGet STATUS_UART_QUE_NOTFILTER p₃.1.status) b := by
    rw [h₃.filter]
    exact of_decide_eq_true hnot
  have hcall := receive_held console
    (d := p₃.1.set console { p₃.1.uart console with fifo := [] }) h₃.running hheld
  exact hcall ((h _ (h₃.arrive hbegins)).2.trans h₃.deferred.symm)

/-- A driver with Lua running and the units set up, and nothing received. -/
def sample : Driver := ⟨fun _ => ⟨true, [], 1024, []⟩, statusSet STATUS_LUA_RUNNING 0, .idle, []⟩

theorem sample_begins (console : Fin NUART) : Begins console sample :=
  ⟨rfl, Nat.zero_lt_succ _, rfl, rfl, by decide, by decide⟩

/-- A file with one byte 4 in it is not received by `f_receive`. -/
theorem not_transparent_receive : ¬ Transparent CONSOLE_UART [] .f_receive sample [0x04] := by
  intro h
  exact absurd (clear_of_transparent (sample_begins _) h) (by decide)

/-- A transfer is transparent exactly where its routine turns the filter off, or no
    byte of the stream is held by the filter. -/
theorem transparent_iff (hd : Begins console d) :
    Transparent console threads r d bs ↔ Clear threads r bs :=
  ⟨clear_of_transparent hd, transparent_of_clear hd⟩

/-- The same byte is received by `f_ymreceive`. -/
theorem transparent_ymreceive : Transparent CONSOLE_UART [] .f_ymreceive sample [0x04] :=
  (transparent_iff (sample_begins _)).mpr (by decide)

end Transfer

end LuaRtos.Uart
