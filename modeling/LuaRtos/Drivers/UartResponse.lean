/-
  LuaRtos.Drivers.UartResponse

  `uart_reads` and `_uart_wait_response` of drivers/uart.c: the lines that a device answers,
  read to a buffer of 80 bytes and compared with the answers that are expected.

  The outcomes of the reads of a unit are a list, in which `none` is a time-out; behind its end
  the line is silent.  A call notes what it has written to the buffer.
-/

import LuaRtos.CLib.Mem

namespace LuaRtos.Uart

open CLib

/-! ## uart.c -/

/-- How a call of `uart_reads` ends, what it has written from the start of the buffer on, and
    the outcomes behind it. -/
structure ReadEnd where
  ret : Bool
  buffer : List Byte
  written : List Byte
  rest : List (Option Byte)
deriving DecidableEq, Repr

/-- `uart_reads`, after `written`. -/
def uart_reads (crlf : Bool) : List (Option Byte) → List Byte → List Byte → Result ReadEnd
  | [], buffer, written => .ok ⟨false, buffer, written, []⟩
  | none :: rs, buffer, written => .ok ⟨false, buffer, written, rs⟩
  | some c :: rs, buffer, written =>
    if c = 0x00 then .ok ⟨true, buffer, written, rs⟩
    else if c = 0x0a then do
      let buffer ← storeBytes buffer written.length [0]
      .ok ⟨true, buffer, written ++ [0], rs⟩
    else if c = 0x0d ∧ !crlf then do
      let buffer ← storeBytes buffer written.length [0]
      .ok ⟨true, buffer, written ++ [0], rs⟩
    else if c ≠ 0x0d then do
      let buffer ← storeBytes buffer written.length [c]
      uart_reads crlf rs buffer (written ++ [c])
    else uart_reads crlf rs buffer written

/-- Whether a text begins somewhere in another one. -/
def occurs (t : List Byte) : List Byte → Bool
  | [] => t.isEmpty
  | c :: s => t.isPrefixOf (c :: s) || occurs t s

/-- `strstr(s, t) != 0`. -/
def strstr (s t : List Byte) : Result Bool := do
  let s ← readStr s
  let t ← readStr t
  pure (occurs t s)

/-- `strcmp(s, t) == 0`. -/
def streq (s t : List Byte) : Result Bool := do
  let r ← strcmp s t
  pure (r = 0)

/-- The answer that ends a wait in any case. -/
def ERROR : List Byte := [0x45, 0x52, 0x52, 0x4f, 0x52]

/-- The test of one expected answer. -/
def matchArg (substring : Bool) (buffer arg : List Byte) : Result Bool := do
  let ok ← (if substring then strstr buffer (arg ++ [nul]) else streq buffer (arg ++ [nul]))
  if ok then .ok true else streq buffer (ERROR ++ [nul])

/-- The loop over the expected answers. -/
def matchArgs (substring : Bool) (buffer : List Byte) : List (List Byte) → Result Bool
  | [] => .ok false
  | arg :: args => do
    let ok ← matchArg substring buffer arg
    if ok then .ok true else matchArgs substring buffer args

/-- The answer as it is copied, if one is expected for a return. -/
def copyRet (ret ok : Bool) (buffer : List Byte) : Result (Option (List Byte)) :=
  if ok ∧ ret then do
    let s ← readStr buffer
    .ok (some s)
  else .ok none

/-- What `_uart_wait_response` returns and copies to `*ret`, and for each read whose line is
    compared what the read has written. -/
structure Waited where
  ok : Bool
  ret : Option (List Byte)
  compared : List (List Byte)
deriving DecidableEq, Repr

/-- The same with one more read before. -/
def Waited.after (written : List Byte) (w : Waited) : Waited :=
  { w with compared := written :: w.compared }

/-- What the loop does with a line, and how it goes on with `next`.  `ret` tells whether there is
    a buffer for the answer. -/
def lineRead (ret substring : Bool) (args : List (List Byte))
    (next : List (Option Byte) → List Byte → Result Waited) (r : ReadEnd) : Result Waited :=
  if r.ret then do
    let ok ← matchArgs substring r.buffer args
    -- If we expected for a return, copy
    let copied ← copyRet ret ok r.buffer
    let error ← streq r.buffer (ERROR ++ [nul])
    if error then .ok ⟨false, copied, [r.written]⟩
    else if ok then .ok ⟨true, copied, [r.written]⟩
    else do
      let w ← next r.rest r.buffer
      .ok (w.after r.written)
  else .ok ⟨false, none, []⟩

/-- The loop that reads until an expected answer is received. -/
def waitLoop (ret substring : Bool) (args : List (List Byte)) :
    Nat → List (Option Byte) → List Byte → Result Waited
  | 0, _, _ => .error .diverged
  | fuel + 1, rs, buffer => do
    let r ← uart_reads true rs buffer []
    lineRead ret substring args (waitLoop ret substring args fuel) r

/-- What is made of the line that should be the echo of the command. -/
def echoRead (command : List Byte) (ret substring : Bool) (args : List (List Byte))
    (r : ReadEnd) : Result Waited :=
  if r.ret then do
    let ok ← streq r.buffer (command ++ [nul])
    if ok ∧ args.length > 0 then do
      let w ← waitLoop ret substring args (r.rest.length + 1) r.rest r.buffer
      .ok (w.after r.written)
    else .ok ⟨ok, none, [r.written]⟩
  else .ok ⟨false, none, []⟩

/-- `_uart_wait_response`, with the `command` whose echo is tested, if any. -/
def _uart_wait_response (command : Option (List Byte)) (ret substring : Bool)
    (args : List (List Byte)) (rs : List (Option Byte)) (buffer : Block 80) : Result Waited :=
  match command with
  | some command => do
    -- Test if we receive an echo of the command sended
    let r ← uart_reads true rs buffer.bytes []
    echoRead command ret substring args r
  | none =>
    if args.length > 0 then waitLoop ret substring args (rs.length + 1) rs buffer.bytes
    else .ok ⟨true, none, []⟩

/-! ## One line -/

/-- The four ways a line ends; one of them is for callers without `crlf`. -/
inductive LineEnd where
  | zero
  | newline
  | timeout
deriving DecidableEq, Repr

/-- The characters of a line without its carriage returns, how it ends, and what is behind it. -/
def splitLine : List (Option Byte) → List Byte × LineEnd × List (Option Byte)
  | [] => ([], .timeout, [])
  | none :: rs => ([], .timeout, rs)
  | some c :: rs =>
    if c = 0x00 then ([], .zero, rs)
    else if c = 0x0a then ([], .newline, rs)
    else if c = 0x0d then splitLine rs
    else (c :: (splitLine rs).1, (splitLine rs).2)

/-- What the end of a line adds to the buffer. -/
def LineEnd.terminator : LineEnd → List Byte
  | .newline => [nul]
  | .zero | .timeout => []

section Line

variable {rs rest : List (Option Byte)} {cs : List Byte} {e : LineEnd}

theorem nul_notMem_splitLine (rs : List (Option Byte)) : nul ∉ (splitLine rs).1 := by
  fun_induction splitLine rs with
  | case1 => exact List.not_mem_nil
  | case2 => exact List.not_mem_nil
  | case3 => exact List.not_mem_nil
  | case4 => exact List.not_mem_nil
  | case5 rs hzero hnl ih => exact ih
  | case6 c rs hzero hnl hcr ih =>
    exact List.not_mem_cons_of_ne_of_not_mem (Ne.symm hzero) ih

/-- A line that does not end with a time-out is taken off the stream. -/
theorem length_splitLine (rs : List (Option Byte)) (he : (splitLine rs).2.1 ≠ .timeout) :
    (splitLine rs).2.2.length < rs.length := by
  fun_induction splitLine rs with
  | case1 => exact absurd rfl he
  | case2 => exact absurd rfl he
  | case3 rs => exact Nat.lt_succ_self _
  | case4 rs hzero => exact Nat.lt_succ_self _
  | case5 rs hzero hnl ih => exact Nat.lt_succ_of_lt (ih he)
  | case6 c rs hzero hnl hcr ih => exact Nat.lt_succ_of_lt (ih he)

/-- A read writes the line to the buffer, and a terminator where a newline ends it. -/
theorem uart_reads_eq (rs : List (Option Byte)) {buffer written : List Byte}
    (hroom : written.length ≤ buffer.length) :
    uart_reads true rs buffer written =
      storeBytes buffer written.length ((splitLine rs).1 ++ (splitLine rs).2.1.terminator) >>=
        fun buffer => .ok ⟨decide ((splitLine rs).2.1 ≠ .timeout), buffer,
          written ++ ((splitLine rs).1 ++ (splitLine rs).2.1.terminator), (splitLine rs).2.2⟩ := by
  fun_induction splitLine rs generalizing buffer written with
  | case1 =>
    rw [List.nil_append, LineEnd.terminator, storeBytes_nil hroom, List.append_nil]
    rfl
  | case2 rs =>
    rw [List.nil_append, LineEnd.terminator, storeBytes_nil hroom, List.append_nil]
    rfl
  | case3 rs =>
    rw [List.nil_append, LineEnd.terminator, storeBytes_nil hroom, List.append_nil, uart_reads,
      if_pos rfl]
    rfl
  | case4 rs hzero =>
    rw [uart_reads, if_neg hzero, if_pos rfl]
    rfl
  | case5 rs hzero hnl ih =>
    rw [uart_reads, if_neg hzero, if_neg hnl, if_neg (by simp), if_neg (by simp)]
    exact ih hroom
  | case6 c rs hzero hnl hcr ih =>
    have hstep := storeBytes_cons buffer written.length c
      ((splitLine rs).1 ++ (splitLine rs).2.1.terminator)
    dsimp only
    rw [uart_reads, if_neg hzero, if_neg hnl, if_neg fun h => hcr h.1, if_pos hcr,
      List.cons_append, hstep, bind_assoc]
    by_cases hone : written.length + 1 ≤ buffer.length
    · obtain ⟨buffer', hstore⟩ : ∃ buffer', storeBytes buffer written.length [c] = .ok buffer' :=
        ⟨_, if_pos hone⟩
      have hlen := length_storeBytes hstore
      have hwritten : (written ++ [c]).length = written.length + 1 := List.length_append
      rw [hstore, ok_bind, ok_bind, ih (by omega), hwritten, List.append_assoc]
      rfl
    · have hstore : storeBytes buffer written.length [c] = .error .outOfBounds := if_neg hone
      rw [hstore]
      rfl

/-- What a read from the start of the buffer does. -/
theorem uart_reads_start (rs : List (Option Byte)) (buffer : List Byte) :
    uart_reads true rs buffer [] =
      storeBytes buffer 0 ((splitLine rs).1 ++ (splitLine rs).2.1.terminator) >>=
        fun buffer => .ok ⟨decide ((splitLine rs).2.1 ≠ .timeout), buffer,
          (splitLine rs).1 ++ (splitLine rs).2.1.terminator, (splitLine rs).2.2⟩ :=
  uart_reads_eq rs (Nat.zero_le _)

/-- A line that a newline ends, where it fits. -/
theorem uart_reads_newline {buffer : List Byte} (he : (splitLine rs).2.1 = .newline)
    (hfits : (splitLine rs).1.length < buffer.length) :
    uart_reads true rs buffer [] =
      .ok ⟨true, (splitLine rs).1 ++ nul :: buffer.drop ((splitLine rs).1.length + 1),
        (splitLine rs).1 ++ [nul], (splitLine rs).2.2⟩ := by
  have hstore := storeBytes_start hfits
  rw [uart_reads_start, he, LineEnd.terminator, hstore]
  rfl

/-- A line that a time-out ends, where it fits. -/
theorem uart_reads_timeout {buffer : List Byte} (he : (splitLine rs).2.1 = .timeout)
    (hfits : (splitLine rs).1.length ≤ buffer.length) :
    ∃ buffer', uart_reads true rs buffer [] =
      .ok ⟨false, buffer', (splitLine rs).1, (splitLine rs).2.2⟩ := by
  have hstore : storeBytes buffer 0 (splitLine rs).1 = .ok _ :=
    if_pos (by rw [Nat.zero_add]; exact hfits)
  rw [uart_reads_start, he, LineEnd.terminator, List.append_nil, hstore]
  exact ⟨_, rfl⟩

/-- A read that succeeds has stayed inside the buffer. -/
theorem fits_of_uart_reads {buffer : List Byte} {r : ReadEnd}
    (h : uart_reads true rs buffer [] = .ok r) :
    ((splitLine rs).1 ++ (splitLine rs).2.1.terminator).length ≤ buffer.length ∧
      r.ret = decide ((splitLine rs).2.1 ≠ .timeout) ∧
      r.written = (splitLine rs).1 ++ (splitLine rs).2.1.terminator := by
  rw [uart_reads_start] at h
  obtain ⟨buffer', hstore, h⟩ := bind_eq_ok.mp h
  cases h
  refine ⟨?_, rfl, rfl⟩
  by_contra hlong
  rw [storeBytes, if_neg (by rwa [Nat.zero_add])] at hstore
  cases hstore

end Line

/-! ## The comparisons -/

section Compare

variable {cs : List Byte}

/-- A line that ends a wait. -/
def Expected (substring : Bool) (args : List (List Byte)) (cs : List Byte) : Prop :=
  cs = ERROR ∨ ∃ arg ∈ args, if substring then arg <:+: cs else cs = arg

theorem streq_terminated {t : List Byte} (hcs : nul ∉ cs) (ht : nul ∉ t) (post : List Byte) :
    streq (cs ++ nul :: post) (t ++ [nul]) = .ok (decide (cs = t)) := by
  obtain ⟨r, hr, hiff⟩ := strcmp_append hcs ht post []
  rw [streq, hr, ok_bind]
  exact congrArg _ (decide_eq_decide.mpr hiff)

theorem occurs_iff {t s : List Byte} : occurs t s = true ↔ t <:+: s := by
  induction s with
  | nil => rw [occurs, List.isEmpty_iff, List.infix_nil]
  | cons c s ih =>
    rw [occurs, Bool.or_eq_true, List.isPrefixOf_iff_prefix, ih, List.infix_cons_iff]

theorem strstr_terminated {t : List Byte} (hcs : nul ∉ cs) (ht : nul ∉ t) (post : List Byte) :
    strstr (cs ++ nul :: post) (t ++ [nul]) = .ok (occurs t cs) := by
  rw [strstr, readStr_append hcs, ok_bind, readStr_append ht, ok_bind]
  rfl

theorem nul_notMem_ERROR : nul ∉ ERROR := by decide

/-- The test of one answer tells whether the line is that one, or the one that ends any wait. -/
theorem matchArg_terminated (substring : Bool) {arg : List Byte} (hcs : nul ∉ cs)
    (harg : nul ∉ arg) (post : List Byte) :
    ∃ ok, matchArg substring (cs ++ nul :: post) arg = .ok ok ∧
      (ok = true ↔ (if substring then arg <:+: cs else cs = arg) ∨ cs = ERROR) := by
  have herror := streq_terminated hcs nul_notMem_ERROR post
  have htest (first : Bool) (p : Prop) (hp : first = true ↔ p) :
      ∃ ok, (if first then .ok true else streq (cs ++ nul :: post) (ERROR ++ [nul])) = .ok ok ∧
        (ok = true ↔ p ∨ cs = ERROR) := by
    rw [herror]
    by_cases h : first = true
    · rw [if_pos h]
      exact ⟨true, rfl, iff_of_true rfl (.inl (hp.mp h))⟩
    · rw [if_neg h]
      exact ⟨_, rfl, decide_eq_true_iff.trans (or_iff_right (mt hp.mpr h)).symm⟩
  unfold matchArg
  cases substring with
  | false =>
    have hfirst := streq_terminated hcs harg post
    rw [if_neg Bool.false_ne_true, hfirst, ok_bind]
    exact htest _ _ decide_eq_true_iff
  | true =>
    have hfirst := strstr_terminated hcs harg post
    rw [if_pos rfl, hfirst, ok_bind]
    exact htest _ _ occurs_iff

/-- The loop over the answers finds out whether the line is expected. -/
theorem matchArgs_terminated (substring : Bool) {args : List (List Byte)} (hcs : nul ∉ cs)
    (hargs : ∀ arg ∈ args, nul ∉ arg) (hne : args ≠ []) (post : List Byte) :
    ∃ ok, matchArgs substring (cs ++ nul :: post) args = .ok ok ∧
      (ok = true ↔ Expected substring args cs) := by
  induction args with
  | nil => exact absurd rfl hne
  | cons arg args ih =>
    have harg := hargs arg List.mem_cons_self
    have hhead : Expected substring (arg :: args) cs ↔
        ((if substring then arg <:+: cs else cs = arg) ∨ cs = ERROR) ∨
          Expected substring args cs := by
      simp only [Expected, List.exists_mem_cons_iff]
      tauto
    obtain ⟨first, hfirst, hiff⟩ := matchArg_terminated substring hcs harg post
    rw [matchArgs, hfirst, ok_bind, hhead, ← hiff]
    by_cases h : first = true
    · rw [if_pos h]
      exact ⟨true, rfl, iff_of_true rfl (.inl h)⟩
    · rw [if_neg h]
      cases args with
      | nil =>
        refine ⟨false, rfl, iff_of_false Bool.false_ne_true ?_⟩
        rintro (h' | h' | ⟨arg', hmem, -⟩)
        · exact h h'
        · exact h (hiff.mpr (.inr h'))
        · exact absurd hmem List.not_mem_nil
      | cons next args =>
        obtain ⟨ok, hok, hiff'⟩ := ih (fun a ha => hargs a (List.mem_cons_of_mem arg ha))
          (List.cons_ne_nil next args)
        exact ⟨ok, hok, hiff'.trans (or_iff_right h).symm⟩

theorem copyRet_terminated (ret ok : Bool) (hcs : nul ∉ cs) (post : List Byte) :
    ∃ copied, copyRet ret ok (cs ++ nul :: post) = .ok copied := by
  unfold copyRet
  by_cases h : ok ∧ ret
  · rw [if_pos h, readStr_append hcs]
    exact ⟨_, rfl⟩
  · rw [if_neg h]
    exact ⟨_, rfl⟩

end Compare

/-! ## The whole wait -/

section Wait

variable {ret substring : Bool} {args : List (List Byte)}

/-- A call that stays inside its buffer, and compares only lines that the read just made has
    terminated. -/
def Safe (result : Result Waited) : Prop :=
  ∃ w, result = .ok w ∧ ∀ written ∈ w.compared, nul ∈ written

/-- A terminated line before a safe call. -/
theorem safe_after {written : List Byte} (hnul : nul ∈ written) {result : Result Waited} :
    Safe (result >>= fun w => .ok (w.after written)) ↔ Safe result := by
  constructor
  · rintro ⟨w, h, hall⟩
    obtain ⟨w', hw', h⟩ := bind_eq_ok.mp h
    cases h
    exact ⟨w', hw', fun line hmem => hall line (List.mem_cons_of_mem _ hmem)⟩
  · rintro ⟨w', hw', hall⟩
    refine ⟨w'.after written, by rw [hw']; rfl, ?_⟩
    intro line hmem
    rcases List.mem_cons.mp hmem with rfl | hmem
    · exact hnul
    · exact hall line hmem

/-- The lines up to an expected one, or to a time-out, fit in the buffer, and those that are
    compared end with a newline. -/
inductive LinesFit (substring : Bool) (args : List (List Byte)) : List (Option Byte) → Prop
  | silent {rs : List (Option Byte)} (he : (splitLine rs).2.1 = .timeout)
      (hfits : (splitLine rs).1.length ≤ 80) : LinesFit substring args rs
  | answer {rs : List (Option Byte)} (he : (splitLine rs).2.1 = .newline)
      (hfits : (splitLine rs).1.length < 80) (h : Expected substring args (splitLine rs).1) :
      LinesFit substring args rs
  | other {rs : List (Option Byte)} (he : (splitLine rs).2.1 = .newline)
      (hfits : (splitLine rs).1.length < 80) (h : LinesFit substring args (splitLine rs).2.2) :
      LinesFit substring args rs

theorem linesFit_iff {rs : List (Option Byte)} : LinesFit substring args rs ↔
    (splitLine rs).2.1 = .timeout ∧ (splitLine rs).1.length ≤ 80 ∨
    (splitLine rs).2.1 = .newline ∧ (splitLine rs).1.length < 80 ∧
      (Expected substring args (splitLine rs).1 ∨
        LinesFit substring args (splitLine rs).2.2) := by
  constructor
  · intro h
    cases h with
    | silent he hfits => exact .inl ⟨he, hfits⟩
    | answer he hfits h => exact .inr ⟨he, hfits, .inl h⟩
    | other he hfits h => exact .inr ⟨he, hfits, .inr h⟩
  · rintro (⟨he, hfits⟩ | ⟨he, hfits, h | h⟩)
    · exact .silent he hfits
    · exact .answer he hfits h
    · exact .other he hfits h

/-- A line that a newline ends is compared, and ends the wait if it is expected. -/
theorem waitLoop_newline (ret substring : Bool) (hargs : ∀ arg ∈ args, nul ∉ arg)
    (hne : args ≠ []) (fuel : Nat) {rs : List (Option Byte)} {buffer : List Byte}
    (he : (splitLine rs).2.1 = .newline) (hfits : (splitLine rs).1.length < buffer.length) :
    (Expected substring args (splitLine rs).1 ∧ ∃ ok copied,
      waitLoop ret substring args (fuel + 1) rs buffer =
        .ok ⟨ok, copied, [(splitLine rs).1 ++ [nul]]⟩) ∨
    ¬ Expected substring args (splitLine rs).1 ∧ ∃ buffer', buffer'.length = buffer.length ∧
      waitLoop ret substring args (fuel + 1) rs buffer =
        waitLoop ret substring args fuel (splitLine rs).2.2 buffer' >>= fun w =>
          .ok (w.after ((splitLine rs).1 ++ [nul])) := by
  have hcs := nul_notMem_splitLine rs
  let post := buffer.drop ((splitLine rs).1.length + 1)
  obtain ⟨ok, hmatch, hok⟩ := matchArgs_terminated substring hcs hargs hne post
  obtain ⟨copied, hcopy⟩ := copyRet_terminated ret ok hcs post
  have herror := streq_terminated hcs nul_notMem_ERROR post
  have hloop : waitLoop ret substring args (fuel + 1) rs buffer =
      if (splitLine rs).1 = ERROR then .ok ⟨false, copied, [(splitLine rs).1 ++ [nul]]⟩
      else if ok then .ok ⟨true, copied, [(splitLine rs).1 ++ [nul]]⟩
      else waitLoop ret substring args fuel (splitLine rs).2.2 ((splitLine rs).1 ++ nul :: post) >>=
        fun w => .ok (w.after ((splitLine rs).1 ++ [nul])) := by
    rw [waitLoop, uart_reads_newline he hfits, ok_bind, lineRead, if_pos rfl]
    dsimp only
    rw [hmatch, ok_bind, hcopy, ok_bind, herror, ok_bind]
    simp only [decide_eq_true_eq]
    rfl
  by_cases hexpected : Expected substring args (splitLine rs).1
  · refine .inl ⟨hexpected, ?_⟩
    rw [hloop, hok.mpr hexpected]
    by_cases hE : (splitLine rs).1 = ERROR
    · exact ⟨false, copied, if_pos hE⟩
    · exact ⟨true, copied, if_neg hE⟩
  · refine .inr ⟨hexpected, (splitLine rs).1 ++ nul :: post, ?_, ?_⟩
    · show ((splitLine rs).1 ++ nul :: buffer.drop _).length = _
      rw [List.length_append, List.length_cons, List.length_drop]
      omega
    · rw [hloop, if_neg fun hE => hexpected (.inl hE), if_neg (mt hok.mp hexpected)]

/-- What a read has written is compared when the read reports a line. -/
theorem written_mem_lineRead {next : List (Option Byte) → List Byte → Result Waited} {r : ReadEnd}
    {w : Waited} (h : lineRead ret substring args next r = .ok w) (hret : r.ret = true) :
    r.written ∈ w.compared := by
  rw [lineRead, if_pos hret] at h
  obtain ⟨ok, -, h⟩ := bind_eq_ok.mp h
  obtain ⟨copied, -, h⟩ := bind_eq_ok.mp h
  obtain ⟨error, -, h⟩ := bind_eq_ok.mp h
  by_cases herror : error = true
  · rw [if_pos herror] at h
    cases h
    exact List.mem_cons_self
  rw [if_neg herror] at h
  by_cases hok : ok = true
  · rw [if_pos hok] at h
    cases h
    exact List.mem_cons_self
  rw [if_neg hok] at h
  obtain ⟨w', -, h⟩ := bind_eq_ok.mp h
  cases h
  exact List.mem_cons_self

theorem written_mem_echoRead {command : List Byte} {r : ReadEnd} {w : Waited}
    (h : echoRead command ret substring args r = .ok w) (hret : r.ret = true) :
    r.written ∈ w.compared := by
  rw [echoRead, if_pos hret] at h
  obtain ⟨ok, -, h⟩ := bind_eq_ok.mp h
  by_cases hok : ok ∧ args.length > 0
  · rw [if_pos hok] at h
    obtain ⟨w', -, h⟩ := bind_eq_ok.mp h
    cases h
    exact List.mem_cons_self
  · rw [if_neg hok] at h
    cases h
    exact List.mem_cons_self

/-- A read whose line is not terminated, or does not fit, makes what is done with it unsafe. -/
theorem fits_of_safe {rs : List (Option Byte)} {buffer : List Byte} {f : ReadEnd → Result Waited}
    (hmem : ∀ r w, f r = .ok w → r.ret = true → r.written ∈ w.compared)
    (h : Safe (uart_reads true rs buffer [] >>= f)) :
    (splitLine rs).2.1 = .timeout ∧ (splitLine rs).1.length ≤ buffer.length ∨
      (splitLine rs).2.1 = .newline ∧ (splitLine rs).1.length < buffer.length := by
  obtain ⟨w, h, hall⟩ := h
  obtain ⟨r, hread, h⟩ := bind_eq_ok.mp h
  obtain ⟨hlen, hret, hwritten⟩ := fits_of_uart_reads hread
  cases he : (splitLine rs).2.1 with
  | zero =>
    rw [he] at hret hwritten
    have hnul := hall _ (hmem r w h hret)
    rw [hwritten, LineEnd.terminator, List.append_nil] at hnul
    exact absurd hnul (nul_notMem_splitLine rs)
  | timeout =>
    rw [he, LineEnd.terminator, List.append_nil] at hlen
    exact .inl ⟨rfl, hlen⟩
  | newline =>
    rw [he, LineEnd.terminator, List.length_append] at hlen
    exact .inr ⟨rfl, hlen⟩

/-- The loop is safe exactly when its lines fit. -/
theorem waitLoop_safe (hargs : ∀ arg ∈ args, nul ∉ arg) (hne : args ≠ []) {fuel : Nat}
    {rs : List (Option Byte)} (hfuel : rs.length < fuel) {buffer : List Byte}
    (hbuffer : buffer.length = 80) :
    Safe (waitLoop ret substring args fuel rs buffer) ↔ LinesFit substring args rs := by
  induction fuel generalizing rs buffer with
  | zero => omega
  | succ fuel ih =>
    have hfits (h : Safe (waitLoop ret substring args (fuel + 1) rs buffer)) :
        (splitLine rs).2.1 = .timeout ∧ (splitLine rs).1.length ≤ 80 ∨
          (splitLine rs).2.1 = .newline ∧ (splitLine rs).1.length < 80 := by
      rw [← hbuffer]
      exact fits_of_safe (fun r w => written_mem_lineRead) h
    rw [linesFit_iff]
    by_cases htimeout : (splitLine rs).2.1 = .timeout ∧ (splitLine rs).1.length ≤ 80
    · obtain ⟨he, hlen⟩ := htimeout
      refine iff_of_true ?_ (.inl ⟨he, hlen⟩)
      rw [← hbuffer] at hlen
      obtain ⟨buffer', hread⟩ := uart_reads_timeout he hlen
      rw [waitLoop, hread]
      exact ⟨⟨false, none, []⟩, rfl, fun written h => absurd h List.not_mem_nil⟩
    by_cases hnewline : (splitLine rs).2.1 = .newline ∧ (splitLine rs).1.length < 80
    swap
    · -- a zero byte, or a line that is too long
      refine iff_of_false (fun h => (hfits h).elim htimeout hnewline) ?_
      rintro (h | ⟨he, hlen, -⟩)
      · exact htimeout h
      · exact hnewline ⟨he, hlen⟩
    obtain ⟨he, hlen⟩ := hnewline
    have hrest := length_splitLine rs (by rw [he]; decide)
    have hnul : nul ∈ (splitLine rs).1 ++ [nul] := List.mem_append_right _ List.mem_cons_self
    rcases waitLoop_newline ret substring hargs hne fuel he (by rw [hbuffer]; exact hlen) with
      ⟨hexpected, ok, copied, hloop⟩ | ⟨hexpected, buffer', hlen', hloop⟩
    · refine iff_of_true ⟨_, hloop, ?_⟩ (.inr ⟨he, hlen, .inl hexpected⟩)
      intro written hmem
      rw [List.mem_singleton.mp hmem]
      exact hnul
    · have hnext : Safe (waitLoop ret substring args fuel (splitLine rs).2.2 buffer') ↔
          LinesFit substring args (splitLine rs).2.2 := ih (by omega) (hlen'.trans hbuffer)
      rw [hloop, safe_after hnul, hnext]
      constructor
      · exact fun h => .inr ⟨he, hlen, .inr h⟩
      · rintro (h | ⟨-, -, h | h⟩)
        · exact absurd h htimeout
        · exact absurd h hexpected
        · exact h

/-- What a call reads fits: the line of an echo, if one is tested, and then the lines of the loop,
    if an answer is expected. -/
def ResponseFits (command : Option (List Byte)) (substring : Bool) (args : List (List Byte))
    (rs : List (Option Byte)) : Prop :=
  match command with
  | some command =>
    (splitLine rs).2.1 = .timeout ∧ (splitLine rs).1.length ≤ 80 ∨
    (splitLine rs).2.1 = .newline ∧ (splitLine rs).1.length < 80 ∧
      ((splitLine rs).1 = command → args ≠ [] → LinesFit substring args (splitLine rs).2.2)
  | none => args ≠ [] → LinesFit substring args rs

/-- A call stays inside the buffer and compares only lines that it has terminated exactly when
    what it reads fits. -/
theorem wait_response_safe {command : Option (List Byte)} (hcommand : ∀ c ∈ command, nul ∉ c)
    (hargs : ∀ arg ∈ args, nul ∉ arg) (rs : List (Option Byte)) (buffer : Block 80) :
    Safe (_uart_wait_response command ret substring args rs buffer) ↔
      ResponseFits command substring args rs := by
  have hsize := buffer.size
  have hpos : args.length > 0 ↔ args ≠ [] := List.length_pos_iff
  cases command with
  | none =>
    show Safe (if args.length > 0 then _ else _) ↔ (args ≠ [] → _)
    by_cases hne : args = []
    · rw [if_neg (by rw [hpos]; exact not_not.mpr hne)]
      refine iff_of_true ⟨_, rfl, fun written h => absurd h List.not_mem_nil⟩ ?_
      exact fun h => absurd hne h
    · rw [if_pos (hpos.mpr hne), waitLoop_safe hargs hne (Nat.lt_succ_self _) hsize]
      exact ⟨fun h _ => h, fun h => h hne⟩
  | some command =>
    have hcommand := hcommand command rfl
    show Safe (uart_reads true rs buffer.bytes [] >>= echoRead command ret substring args) ↔
      (splitLine rs).2.1 = .timeout ∧ (splitLine rs).1.length ≤ 80 ∨ _
    have hfits (h : Safe (uart_reads true rs buffer.bytes [] >>=
        echoRead command ret substring args)) :
        (splitLine rs).2.1 = .timeout ∧ (splitLine rs).1.length ≤ 80 ∨
          (splitLine rs).2.1 = .newline ∧ (splitLine rs).1.length < 80 := by
      rw [← hsize]
      exact fits_of_safe (fun r w => written_mem_echoRead) h
    by_cases htimeout : (splitLine rs).2.1 = .timeout ∧ (splitLine rs).1.length ≤ 80
    · obtain ⟨he, hlen⟩ := htimeout
      refine iff_of_true ?_ (.inl ⟨he, hlen⟩)
      rw [← hsize] at hlen
      obtain ⟨buffer', hread⟩ := uart_reads_timeout he hlen
      rw [hread]
      exact ⟨⟨false, none, []⟩, rfl, fun written h => absurd h List.not_mem_nil⟩
    by_cases hnewline : (splitLine rs).2.1 = .newline ∧ (splitLine rs).1.length < 80
    swap
    · refine iff_of_false (fun h => (hfits h).elim htimeout hnewline) ?_
      rintro (h | ⟨he, hlen, -⟩)
      · exact htimeout h
      · exact hnewline ⟨he, hlen⟩
    obtain ⟨he, hlen⟩ := hnewline
    have hnul : nul ∈ (splitLine rs).1 ++ [nul] := List.mem_append_right _ List.mem_cons_self
    have hlen' : (splitLine rs).1.length < buffer.bytes.length := by
      rw [hsize]
      exact hlen
    have hecho := streq_terminated (nul_notMem_splitLine rs) hcommand
      (buffer.bytes.drop ((splitLine rs).1.length + 1))
    rw [uart_reads_newline he hlen', ok_bind, echoRead, if_pos rfl]
    dsimp only
    rw [hecho, ok_bind]
    by_cases hgo : (splitLine rs).1 = command ∧ args ≠ []
    · have hbuffer : ((splitLine rs).1 ++
          nul :: buffer.bytes.drop ((splitLine rs).1.length + 1)).length = 80 := by
        rw [List.length_append, List.length_cons, List.length_drop]
        omega
      rw [if_pos ⟨decide_eq_true hgo.1, hpos.mpr hgo.2⟩, safe_after hnul,
        waitLoop_safe hargs hgo.2 (Nat.lt_succ_self _) hbuffer]
      constructor
      · exact fun h => .inr ⟨he, hlen, fun _ _ => h⟩
      · rintro (h | ⟨-, -, h⟩)
        · exact absurd h htimeout
        · exact h hgo.1 hgo.2
    · rw [if_neg fun h => hgo ⟨of_decide_eq_true h.1, hpos.mp h.2⟩]
      refine iff_of_true ⟨_, rfl, ?_⟩ (.inr ⟨he, hlen, fun h h' => absurd ⟨h, h'⟩ hgo⟩)
      intro written hmem
      rw [List.mem_singleton.mp hmem]
      exact hnul

/-- The answer to a command, behind its echo. -/
theorem wait_response_safe_ok :
    Safe (_uart_wait_response (some [0x41, 0x54]) true false [[0x4f, 0x4b]]
      ([0x41, 0x54, 0x0d, 0x0a, 0x4f, 0x4b, 0x0d, 0x0a].map some) (freshBlock 80)) ↔
    ResponseFits (some [0x41, 0x54]) false [[0x4f, 0x4b]]
      ([0x41, 0x54, 0x0d, 0x0a, 0x4f, 0x4b, 0x0d, 0x0a].map some) :=
  wait_response_safe (by decide) (by decide) _ (freshBlock 80)

/-- A zero byte before the answer: the buffer is compared as it was. -/
theorem not_safe_zero :
    ¬ Safe (_uart_wait_response none false false [[0x4f, 0x4b]] [some 0x00] (freshBlock 80)) := by
  rintro ⟨w, h, hall⟩
  have hread : uart_reads true [some 0x00] (freshBlock 80).bytes [] =
    .ok ⟨true, (freshBlock 80).bytes, [], []⟩ := rfl
  have hmem : [] ∈ w.compared := by
    have h' : (uart_reads true [some 0x00] (freshBlock 80).bytes [] >>=
      lineRead false false [[0x4f, 0x4b]] (waitLoop false false [[0x4f, 0x4b]] 1)) = .ok w := h
    rw [hread, ok_bind] at h'
    exact written_mem_lineRead h' rfl
  exact absurd (hall [] hmem) List.not_mem_nil

end Wait

end LuaRtos.Uart
