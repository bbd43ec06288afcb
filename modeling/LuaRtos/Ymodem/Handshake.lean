/-
  LuaRtos.Ymodem.Handshake

  The start of a session, with any time-outs.

  Each side calls with 'C' when it hears nothing, and the receiver answers a
  call by throwing away what it has received and calling itself.  Neither side
  takes a second 'C' for what it is: the sender goes on at the first one, and
  any other that is on the line then is a wrong answer to its header.

  `Unhurried` says of a step that it does not bring about a second 'C' before the
  header is acknowledged.  Where all steps are unhurried the handshake comes to
  its end, whichever side starts and however often the sender times out first.
-/

import LuaRtos.Ymodem.Transfer

namespace LuaRtos.Ymodem

open CLib Link

/-! ## Runs with their time-outs -/

/-- What a run has counted: whether the sender has read a byte, its time-outs
    before and after that, and the errors of the receiver. -/
structure Tally where
  heard : Bool
  early : Nat
  late : Nat
  errors : Nat
deriving DecidableEq, Repr

/-- The count after a step. -/
def Tally.next (w : Wire Byte Int SessionEnd) (a : WireAct) (t : Tally) : Tally :=
  match a with
  | .left .timeout =>
    if t.heard then { t with late := t.late + 1 } else { t with early := t.early + 1 }
  | .left .act => { t with heard := t.heard || w.left.proc.reads }
  | .right .timeout => { t with errors := t.errors + 1 }
  | .right .act => if w.right.proc.discards then { t with errors := t.errors + 1 } else t
  | _ => t

section Tally

variable {w : Wire Byte Int SessionEnd} {t : Tally}

theorem Tally.next_early (h : t.heard = false) :
    Tally.next w (.left .timeout) t = { t with early := t.early + 1 } :=
  if_neg (ne_of_eq_of_ne h Bool.false_ne_true)

theorem Tally.next_late (h : t.heard = true) :
    Tally.next w (.left .timeout) t = { t with late := t.late + 1 } :=
  if_pos h

/-- What the receiver does counts as its own errors only. -/
theorem Tally.next_right (w : Wire Byte Int SessionEnd) (t : Tally) (m : Move) :
    (Tally.next w (.right m) t).heard = t.heard ∧ (Tally.next w (.right m) t).late = t.late := by
  cases m with
  | act =>
    cases hdiscards : w.right.proc.discards <;> simp [Tally.next, hdiscards]
  | timeout => exact ⟨rfl, rfl⟩
  | arrive => exact ⟨rfl, rfl⟩

theorem Tally.next_discard (h : w.right.proc.discards = true) :
    Tally.next w (.right .act) t = { t with errors := t.errors + 1 } :=
  if_pos h

theorem Tally.next_act (h : w.right.proc.discards = false) : Tally.next w (.right .act) t = t :=
  if_neg (ne_of_eq_of_ne h Bool.false_ne_true)

end Tally

/-- A step that stays below the error limits of both sides. -/
def WithinLimits (p : Wire Byte Int SessionEnd × Tally) : WireAct → Prop
  | .left .timeout => if p.2.heard then p.2.late + 1 < 10 else p.2.early + 1 < 45
  | .right .timeout => p.2.errors + 1 ≤ MAX_ERRORS
  | .right .act => p.1.right.proc.discards = true → p.2.errors + 1 ≤ MAX_ERRORS
  | _ => True

/-- A step that does not bring about a second 'C' before the header is
    acknowledged.  Before the sender has read the first one, it times out only when
    nothing is on its way to it or about to be; the receiver times out, or throws
    away what it has received, only when nothing is still on its way to it or about
    to be.  After that the receiver does not time out before its acknowledgement is
    on its way. -/
def Unhurried (p : Wire Byte Int SessionEnd × Tally) (a : WireAct) : Prop :=
  WithinLimits p a ∧
  match a with
  | .left .timeout =>
    p.2.heard = false → p.1.left.pending = [] ∧ p.1.right.proc.writes = false
  | .right .timeout =>
    ACK ∈ p.1.left.pending ∨
      p.2.heard = false ∧ p.1.left.pending = [] ∧ p.1.right.pending = [] ∧
        p.1.left.proc.writes = false
  | .right .act =>
    p.2.heard = false → p.1.right.proc.discards = true →
      p.1.right.flight = [] ∧ p.1.left.proc.writes = false
  | _ => True

/-- The runs of a sender and a receiver from their first operations. -/
def startRuns (p : Proc Byte Int) (q : Proc Byte SessionEnd) :
    Lts (Wire Byte Int SessionEnd × Tally) WireAct :=
  Lts.ofStep (.start p q, ⟨false, 0, 0, 0⟩) (Lts.withHistory Wire.step Tally.next)

section Step

variable {p : Wire Byte Int SessionEnd × Tally} {m : Move} {e : End Byte Int}
  {f : End Byte SessionEnd} {bs : List Byte}

theorem step_left (h : p.1.left.move m = some (e, bs)) : Lts.withHistory Wire.step Tally.next p
    (.left m) = some (⟨e, p.1.right.post bs⟩, Tally.next p.1 (.left m) p.2) := by
  rw [Lts.withHistory, Wire.step, h]
  rfl

theorem step_right (h : p.1.right.move m = some (f, bs)) : Lts.withHistory Wire.step Tally.next p
    (.right m) = some (⟨p.1.left.post bs, f⟩, Tally.next p.1 (.right m) p.2) := by
  rw [Lts.withHistory, Wire.step, h]
  rfl

end Step

/-! ## The two as parties of the handshake -/

/-- A sender and a receiver, by what they do on the line until the header is
    acknowledged: `accepted` is what the sender does then, `taken` the receiver
    after its answer. -/
structure Parties where
  packet : List Byte
  calls : Nat → Proc Byte Int
  listens : Nat → Proc Byte Int
  waiting : Nat → Proc Byte Int
  accepted : Proc Byte Int
  waits : Proc Byte SessionEnd
  unheard : Proc Byte SessionEnd
  called : Proc Byte SessionEnd
  taken : Proc Byte SessionEnd
  calls_eq : ∀ i < 45, calls i = .write CRC16 (listens i)
  listens_eq : ∀ i < 45, ∃ k, listens i = .read k ∧ k none = calls (i + 1) ∧
    k (some CRC16) = Proc.puts packet >>= fun _ => waiting 10
  waiting_eq : ∀ t, ∃ k, waiting (t + 1) = .read k ∧ k (some ACK) = accepted ∧ k none = waiting t
  waits_eq : ∃ k, waits = .read k ∧ k none = unheard ∧ k (some CRC16) = .discard unheard
  unheard_eq : unheard = .write CRC16 called
  called_eq : ∃ k, called = .read k
  header : Plays called (packet.map .recv ++ [.send ACK, .send CRC16]) taken
  taken_rests : taken.writes = false ∧ taken.discards = false

/-- Where the receiver stands before it has called. -/
inductive Place where
  | waits
  | discards
  | answers
deriving DecidableEq, Repr

namespace Parties

variable (P : Parties)

/-- The rest of its program there. -/
def receiver : Place → Proc Byte SessionEnd
  | .waits => P.waits
  | .discards => .discard P.unheard
  | .answers => P.unheard

/-- The sender before it has heard anything, about to call or listening. -/
def sender (out : Bool) (early : Nat) : Proc Byte Int :=
  if out then P.calls early else P.listens early

/-- The receiver has not called: nothing is on its way to the sender. -/
structure Calling (out : Bool) (place : Place) (p : Wire Byte Int SessionEnd × Tally) :
    Prop where
  heard : p.2.heard = false
  early : p.2.early < 45
  late : p.2.late = 0
  left : p.1.left.proc = P.sender out p.2.early
  right : p.1.right.proc = P.receiver place
  to_left : p.1.left.pending = []
  to_right : ∀ b ∈ p.1.right.pending, b = CRC16
  answers : place = .answers → out = false ∧ p.1.right.pending = []
  errors : place ≠ .answers → p.2.errors = 0

/-- The receiver has called: its 'C' is all that is on the line. -/
structure Called (p : Wire Byte Int SessionEnd × Tally) : Prop where
  heard : p.2.heard = false
  early : p.2.early < 45
  late : p.2.late = 0
  left : p.1.left.proc = P.listens p.2.early
  right : p.1.right.proc = P.called
  to_left : p.1.left.pending = [CRC16]
  to_right : p.1.right.pending = []

/-- The sender has heard the call: `rest` of the header is still to be sent, and
    `out` of the answer. -/
structure Sending (rest out : List Byte) (p : Wire Byte Int SessionEnd × Tally) : Prop where
  heard : p.2.heard = true
  late : p.2.late < 10
  left : p.1.left.proc = Proc.puts rest >>= fun _ => P.waiting (10 - p.2.late)
  right : Plays p.1.right.proc
    ((p.1.right.pending ++ rest).map .recv ++ out.map .send) P.taken
  to_left : p.1.left.pending ++ out = [ACK, CRC16]
  answered : p.1.left.pending ≠ [] → p.1.right.pending ++ rest = []

/-- The receiver has answered: it may time out again before the sender reads the
    acknowledgement. -/
structure Answered (p : Wire Byte Int SessionEnd × Tally) : Prop where
  heard : p.2.heard = true
  late : p.2.late < 10
  left : p.1.left.proc = P.waiting (10 - p.2.late)
  right : P.taken.Unanswered p.1.right.proc
  to_left : ∃ bs, p.1.left.pending = ACK :: CRC16 :: bs
  to_right : p.1.right.pending = []

/-- The header is accepted, and the sender has read the acknowledgement of it: the
    'C' that comes with it is about to be written, or first on the line. -/
def Shaken (p : Wire Byte Int SessionEnd × Tally) : Prop :=
  p.1.left.proc = P.accepted ∧ p.1.right.pending = [] ∧
    (p.1.right.proc = .write CRC16 P.taken ∧ p.1.left.pending = [] ∨
      P.taken.Unanswered p.1.right.proc ∧ ∃ bs, p.1.left.pending = CRC16 :: bs)

/-- How far the handshake is from its end. -/
def callingLeft (out : Bool) (place : Place) (p : Wire Byte Int SessionEnd × Tally) : Nat :=
  2 * P.taken.silence + 4 * P.packet.length + 20 + 10 * (45 - p.2.early) + (if out then 6 else 0) +
    2 * p.1.right.pending.length + p.1.right.flight.length +
    match place with
    | .waits => 8
    | .discards => 7
    | .answers => 6

def calledLeft (p : Wire Byte Int SessionEnd × Tally) : Nat :=
  2 * P.taken.silence + 4 * P.packet.length + 20 + p.1.left.flight.length

def sendingLeft (rest out : List Byte) (p : Wire Byte Int SessionEnd × Tally) : Nat :=
  2 * P.taken.silence + 4 * rest.length + 2 * p.1.right.pending.length +
    p.1.right.flight.length + 2 * out.length + p.1.left.flight.length + (10 - p.2.late)

def answeredLeft (p : Wire Byte Int SessionEnd × Tally) : Nat :=
  2 * p.1.right.proc.silence + p.1.left.flight.length + (10 - p.2.late)

/-- The handshake is on its way, with at most `n` steps left. -/
inductive Underway : Nat → Wire Byte Int SessionEnd × Tally → Prop
  | calling (out : Bool) (place : Place) {p : Wire Byte Int SessionEnd × Tally}
      (h : P.Calling out place p) : Underway (P.callingLeft out place p) p
  | called {p : Wire Byte Int SessionEnd × Tally} (h : P.Called p) : Underway (P.calledLeft p) p
  | sending (rest out : List Byte) {p : Wire Byte Int SessionEnd × Tally}
      (h : P.Sending rest out p) : Underway (P.sendingLeft rest out p) p
  | answered {p : Wire Byte Int SessionEnd × Tally} (h : P.Answered p) :
      Underway (answeredLeft p) p
  | shaken {p : Wire Byte Int SessionEnd × Tally} (h : P.Shaken p) : Underway 0 p

/-! ### What a step does -/

section Step

variable {P} {out : Bool} {place : Place} {p : Wire Byte Int SessionEnd × Tally} {m : Move}
  {e : End Byte Int} {f : End Byte SessionEnd} {bs : List Byte}

theorem sender_true {i : Nat} (hi : i < 45) : P.sender true i = .write CRC16 (P.sender false i) :=
  P.calls_eq i hi

theorem sender_false {i : Nat} (hi : i < 45) : ∃ k, P.sender false i = .read k ∧
    k none = P.sender true (i + 1) ∧
    k (some CRC16) = Proc.puts P.packet >>= fun _ => P.waiting 10 :=
  P.listens_eq i hi

theorem Calling.not_answers (h : P.Calling true place p) : place ≠ .answers := by
  intro hplace
  exact absurd (h.answers hplace).1 (by decide)

/-- A sender that has not heard the call: it calls, or gives up waiting. -/
theorem Calling.left_step (h : P.Calling out place p) (hok : Unhurried p (.left m))
    (hmove : p.1.left.move m = some (e, bs)) :
    ∃ n', n' < P.callingLeft out place p ∧
      P.Underway n' (⟨e, p.1.right.post bs⟩, Tally.next p.1 (.left m) p.2) := by
  have hleft := h.left
  rcases End.move_cases hmove with
    ⟨b, q, hq, hq', hpend, rfl, rfl⟩ | ⟨k, b, -, hpend, -⟩ | ⟨q, hq, -⟩ |
    ⟨k, hq, -, hq', hpend, rfl, rfl⟩ | ⟨-, -, hlen, -⟩
  · cases out with
    | false =>
      obtain ⟨k, hk, -⟩ := P.sender_false h.early
      rw [hleft, hk] at hq
      cases hq
    | true =>
      rw [hleft, P.sender_true h.early] at hq
      obtain ⟨rfl, rfl⟩ := Proc.write.inj hq
      have hheard : (p.2.heard || p.1.left.proc.reads) = false := by
        rw [h.heard, hleft, P.sender_true h.early]
        rfl
      refine ⟨_, ?_, .calling false place ⟨hheard, h.early, h.late, hq',
        h.right, hpend.trans h.to_left, ?_, fun hp => absurd hp h.not_answers, h.errors⟩⟩
      · simp only [callingLeft, Tally.next, End.pending_post, End.length_flight_post,
          List.length_append, List.length_singleton, Bool.false_eq_true, if_false, if_true]
        omega
      · intro c hc
        rw [End.pending_post] at hc
        rcases List.mem_append.mp hc with hc | hc
        · exact h.to_right c hc
        · exact List.mem_singleton.mp hc
  · rw [h.to_left] at hpend
    cases hpend
  · cases out with
    | false =>
      obtain ⟨k, hk, -⟩ := P.sender_false h.early
      rw [hleft, hk] at hq
      cases hq
    | true =>
      rw [hleft, P.sender_true h.early] at hq
      cases hq
  · cases out with
    | true =>
      rw [hleft, P.sender_true h.early] at hq
      cases hq
    | false =>
      obtain ⟨k', hk, hnone, -⟩ := P.sender_false h.early
      rw [hleft, hk] at hq
      obtain rfl := Proc.read.inj hq
      obtain ⟨hlimit, hquiet⟩ := hok
      have hearly : p.2.early + 1 < 45 := by
        have hlimit' : if p.2.heard then p.2.late + 1 < 10 else p.2.early + 1 < 45 := hlimit
        rwa [h.heard] at hlimit'
      -- the receiver is not about to answer
      have hplace : place ≠ .answers := by
        rintro rfl
        have hwrites : p.1.right.proc.writes = false := (hquiet h.heard).2
        rw [h.right, receiver, P.unheard_eq] at hwrites
        cases hwrites
      rw [Tally.next_early h.heard, End.post_nil]
      refine ⟨_, ?_, .calling true place ⟨h.heard, hearly, h.late,
        hq'.trans hnone, h.right, hpend.trans h.to_left, h.to_right,
        fun hp => absurd hp hplace, h.errors⟩⟩
      simp only [callingLeft, Bool.false_eq_true, if_false, if_true]
      omega
  · have hflight : p.1.left.flight = [] := (List.append_eq_nil_iff.mp h.to_left).2
    rw [hflight] at hlen
    cases hlen

/-- A receiver that has not called: it comes to do so. -/
theorem Calling.right_step (h : P.Calling out place p) (hok : Unhurried p (.right m))
    (hmove : p.1.right.move m = some (f, bs)) :
    ∃ n', n' < P.callingLeft out place p ∧
      P.Underway n' (⟨p.1.left.post bs, f⟩, Tally.next p.1 (.right m) p.2) := by
  have hright := h.right
  obtain ⟨k₀, hwaits, hwaits_none, hwaits_call⟩ := P.waits_eq
  have hflight := End.flight_move hmove
  -- where the sender does not write it is listening
  have hout : p.1.left.proc.writes = false → out = false := by
    intro hwrites
    cases out with
    | false => rfl
    | true =>
      rw [h.left, P.sender_true h.early] at hwrites
      cases hwrites
  rcases End.move_cases hmove with
    ⟨b, q, hq, hq', hpend, rfl, rfl⟩ | ⟨k, b, hq, hpend, hq', rfl, rfl⟩ |
    ⟨q, hq, hq', hpend, rfl, rfl⟩ | ⟨k, hq, -, hq', hpend, rfl, rfl⟩ | ⟨hq', hpend, hlen, rfl, rfl⟩
  · -- the call, with nothing on its way to the receiver
    cases place with
    | waits =>
      rw [hright, receiver, hwaits] at hq
      cases hq
    | discards =>
      rw [hright, receiver] at hq
      cases hq
    | answers =>
      rw [hright, receiver, P.unheard_eq] at hq
      obtain ⟨rfl, rfl⟩ := Proc.write.inj hq
      obtain ⟨rfl, hnone⟩ := h.answers rfl
      have hdiscards : p.1.right.proc.discards = false := by
        rw [hright, receiver, P.unheard_eq]
        rfl
      have hcall : (p.1.left.post [CRC16]).pending = [CRC16] := by
        rw [End.pending_post, h.to_left]
        rfl
      have hlefts : p.1.left.flight = [] := (List.append_eq_nil_iff.mp h.to_left).2
      have hearly := h.early
      rw [Tally.next_act hdiscards]
      refine ⟨_, ?_, .called ⟨h.heard, h.early, h.late, h.left, hq', hcall, hpend.trans hnone⟩⟩
      simp only [calledLeft, callingLeft, End.length_flight_post, hlefts, List.length_nil,
        List.length_singleton]
      omega
  · -- a call of the sender is read
    cases place with
    | waits =>
      rw [hright, receiver, hwaits] at hq
      obtain rfl := Proc.read.inj hq
      have hb : b ∈ p.1.right.pending := hpend ▸ List.mem_cons_self
      obtain rfl := h.to_right b hb
      have hdiscards : p.1.right.proc.discards = false := by
        rw [hright, receiver, hwaits]
        rfl
      rw [Tally.next_act hdiscards, End.post_nil]
      refine ⟨_, ?_, .calling out .discards ⟨h.heard, h.early, h.late, h.left,
        hq'.trans hwaits_call, h.to_left, fun c hc => ?_, nofun, fun _ => h.errors nofun⟩⟩
      · simp only [callingLeft, hpend, hflight nofun, List.length_cons]
        omega
      · apply h.to_right
        rw [hpend]
        exact List.mem_cons_of_mem _ hc
    | discards =>
      rw [hright, receiver] at hq
      cases hq
    | answers =>
      rw [hright, receiver, P.unheard_eq] at hq
      cases hq
  · -- nothing else is on its way, so nothing is left after the discard
    cases place with
    | waits =>
      rw [hright, receiver, hwaits] at hq
      cases hq
    | discards =>
      rw [hright, receiver] at hq
      obtain rfl := Proc.discard.inj hq
      have hdiscards : p.1.right.proc.discards = true := by
        rw [hright]
        rfl
      obtain ⟨hnone, hwrites⟩ := hok.2 h.heard hdiscards
      rw [hnone] at hpend
      rw [Tally.next_discard hdiscards, End.post_nil]
      refine ⟨_, ?_, .calling out .answers ⟨h.heard, h.early, h.late, h.left,
        hq', h.to_left, ?_, fun _ => ⟨hout hwrites, hpend⟩, fun hp => absurd rfl hp⟩⟩
      · simp only [callingLeft, hpend, hflight nofun, List.length_nil]
        omega
      · rw [hpend]
        exact nofun
    | answers =>
      rw [hright, receiver, P.unheard_eq] at hq
      cases hq
  · -- the wait for a call is over: none is on its way
    cases place with
    | waits =>
      rw [hright, receiver, hwaits] at hq
      obtain rfl := Proc.read.inj hq
      obtain hack | ⟨-, -, hnone, hwrites⟩ := hok.2
      · rw [h.to_left] at hack
        cases hack
      rw [End.post_nil]
      refine ⟨_, ?_, .calling out .answers ⟨h.heard, h.early, h.late, h.left,
        hq'.trans hwaits_none, h.to_left, ?_, fun _ => ⟨hout hwrites, hpend.trans hnone⟩,
        fun hp => absurd rfl hp⟩⟩
      · simp only [callingLeft, hpend, hflight nofun, Tally.next]
        omega
      · rw [hpend]
        exact h.to_right
    | discards =>
      rw [hright, receiver] at hq
      cases hq
    | answers =>
      rw [hright, receiver, P.unheard_eq] at hq
      cases hq
  · rw [End.post_nil]
    refine ⟨_, ?_, .calling out place ⟨h.heard, h.early, h.late, h.left,
      hq'.trans hright, h.to_left, ?_, fun hp => ?_, h.errors⟩⟩
    · simp only [callingLeft, hpend, Tally.next]
      omega
    · rw [hpend]
      exact h.to_right
    · rw [hpend]
      exact h.answers hp

/-- The call is on its way to the sender, which does nothing but read it. -/
theorem Called.left_step (h : P.Called p) (hok : Unhurried p (.left m))
    (hmove : p.1.left.move m = some (e, bs)) :
    ∃ n', n' < P.calledLeft p ∧
      P.Underway n' (⟨e, p.1.right.post bs⟩, Tally.next p.1 (.left m) p.2) := by
  have hleft := h.left
  obtain ⟨k₀, hlistens, -, hheard⟩ := P.listens_eq _ h.early
  rw [hlistens] at hleft
  rcases End.move_cases hmove with
    ⟨b, q, hq, -⟩ | ⟨k, b, hq, hpend, hq', rfl, rfl⟩ | ⟨q, hq, -⟩ |
    ⟨k, -, -, -, -, rfl, rfl⟩ | ⟨hq', hpend, hlen, rfl, rfl⟩
  · rw [hleft] at hq
    cases hq
  · rw [hleft] at hq
    obtain rfl := Proc.read.inj hq
    rw [h.to_left] at hpend
    obtain ⟨rfl, hnone⟩ := List.cons.inj hpend
    have hlate : p.2.late < 10 := by
      rw [h.late]
      decide
    have hreads : (p.2.heard || p.1.left.proc.reads) = true := by
      rw [hleft]
      exact Bool.or_true _
    have hflights : p.1.right.flight = [] := (List.append_eq_nil_iff.mp h.to_right).2
    rw [End.post_nil]
    refine ⟨_, ?_, .sending P.packet [ACK, CRC16]
      ⟨hreads, hlate, ?_, ?_, ?_, fun hp => absurd hnone.symm hp⟩⟩
    · simp only [calledLeft, sendingLeft, Tally.next, h.to_right, hflights, h.late,
        End.flight_move hmove nofun, List.length_nil, List.length_cons]
      omega
    · rw [hq', hheard]
      show _ = Proc.puts P.packet >>= fun _ => P.waiting (10 - p.2.late)
      rw [h.late]
    · show Plays p.1.right.proc ((p.1.right.pending ++ P.packet).map .recv ++ _) P.taken
      rw [h.right, h.to_right]
      exact P.header
    · show e.pending ++ _ = _
      rw [← hnone]
      rfl
  · rw [hleft] at hq
    cases hq
  · have hquiet := (hok.2 h.heard).1
    rw [h.to_left] at hquiet
    cases hquiet
  · rw [End.post_nil]
    refine ⟨_, ?_, .called ⟨h.heard, h.early, h.late, hq'.trans h.left, h.right,
      hpend.trans h.to_left, h.to_right⟩⟩
    simp only [calledLeft]
    omega

/-- The receiver waits for the header. -/
theorem Called.right_step (h : P.Called p) (hok : Unhurried p (.right m))
    (hmove : p.1.right.move m = some (f, bs)) : False := by
  have hright := h.right
  obtain ⟨k₀, hcalled⟩ := P.called_eq
  rw [hcalled] at hright
  rcases End.move_cases hmove with
    ⟨b, q, hq, -⟩ | ⟨k, b, hq, hpend, -⟩ | ⟨q, hq, -⟩ | ⟨k, -, -, -, -, rfl, rfl⟩ |
    ⟨-, -, hlen, -⟩
  · rw [hright] at hq
    cases hq
  · rw [h.to_right] at hpend
    cases hpend
  · rw [hright] at hq
    cases hq
  · have hquiet := hok.2
    rw [h.to_left] at hquiet
    rcases hquiet with hack | ⟨-, hnone, -⟩
    · exact absurd (List.mem_singleton.mp hack) (by decide)
    · cases hnone
  · rw [(List.append_eq_nil_iff.mp h.to_right).2] at hlen
    cases hlen

variable {rest out' : List Byte}

/-- The sender writes its header and then waits for the answer to it. -/
theorem Sending.left_step (h : P.Sending rest out' p) (hok : Unhurried p (.left m))
    (hmove : p.1.left.move m = some (e, bs)) :
    ∃ n', n' < P.sendingLeft rest out' p ∧
      P.Underway n' (⟨e, p.1.right.post bs⟩, Tally.next p.1 (.left m) p.2) := by
  have hleft := h.left
  have hlate := h.late
  have hflight := End.flight_move hmove
  have hheard : (p.2.heard || p.1.left.proc.reads) = true := by
    rw [h.heard]
    rfl
  obtain ⟨k₀, hwaiting, hack, hnone⟩ := P.waiting_eq (9 - p.2.late)
  have htries : 9 - p.2.late + 1 = 10 - p.2.late := by omega
  rw [htries] at hwaiting
  rcases End.move_cases hmove with
    ⟨b, q, hq, hq', hpend, rfl, rfl⟩ | ⟨k, b, hq, hpend, hq', rfl, rfl⟩ | ⟨q, hq, -⟩ |
    ⟨k, hq, -, hq', hpend, rfl, rfl⟩ | ⟨hq', hpend, hlen, rfl, rfl⟩
  · cases rest with
    | nil =>
      rw [hleft, hwaiting] at hq
      cases hq
    | cons c rest =>
      rw [hleft] at hq
      obtain ⟨rfl, rfl⟩ := Proc.write.inj hq
      refine ⟨_, ?_, .sending rest out' ⟨hheard, hlate, hq', ?_,
        (congrArg (· ++ out') hpend).trans h.to_left, fun hp => ?_⟩⟩
      · simp only [sendingLeft, Tally.next, hflight nofun, End.pending_post,
          End.length_flight_post, List.length_append, List.length_cons, List.length_nil]
        omega
      · show Plays p.1.right.proc (((p.1.right.post [c]).pending ++ rest).map .recv ++ _) P.taken
        rw [End.pending_post, List.append_assoc]
        exact h.right
      · have hnone := h.answered (hpend ▸ hp)
        cases (List.append_eq_nil_iff.mp hnone).2
  · cases rest with
    | cons c rest =>
      rw [hleft] at hq
      cases hq
    | nil =>
      rw [hleft] at hq
      obtain rfl := Proc.read.inj (hwaiting.symm.trans hq)
      have hto := h.to_left
      have hanswered := h.answered (hpend ▸ List.cons_ne_nil _ _)
      have hright := h.right
      rw [hanswered] at hright
      rw [hpend] at hto
      obtain ⟨rfl, hrest⟩ := List.cons.inj hto
      rw [List.append_nil] at hanswered
      rw [End.post_nil]
      refine ⟨0, ?_, .shaken ⟨hq'.trans hack, hanswered, ?_⟩⟩
      · simp only [sendingLeft]
        omega
      · -- its 'C' is still to be written, or on the line
        rcases List.append_eq_singleton_iff.mp hrest with ⟨hnothing, rfl⟩ | ⟨hcall, rfl⟩
        · left
          generalize p.1.right.proc = q at hright ⊢
          cases hright with
          | write hright =>
            cases hright with
            | done => exact ⟨rfl, hnothing⟩
        · right
          generalize p.1.right.proc = q at hright ⊢
          cases hright with
          | done => exact ⟨.here, [], hcall⟩
  · cases rest with
    | nil =>
      rw [hleft] at hq
      cases hwaiting.symm.trans hq
    | cons c rest =>
      rw [hleft] at hq
      cases hq
  · cases rest with
    | cons c rest =>
      rw [hleft] at hq
      cases hq
    | nil =>
      rw [hleft] at hq
      obtain rfl := Proc.read.inj (hwaiting.symm.trans hq)
      have hlimit : p.2.late + 1 < 10 := by
        have hlimit' : if p.2.heard then p.2.late + 1 < 10 else p.2.early + 1 < 45 := hok.1
        rwa [h.heard] at hlimit'
      have htries' : 9 - p.2.late = 10 - (p.2.late + 1) := by omega
      rw [Tally.next_late h.heard, End.post_nil]
      refine ⟨_, ?_, .sending [] out' ⟨h.heard, hlimit, ?_, h.right,
        (congrArg (· ++ out') hpend).trans h.to_left, fun hp => h.answered (hpend ▸ hp)⟩⟩
      · simp only [sendingLeft, hflight nofun]
        omega
      · show e.proc = P.waiting (10 - (p.2.late + 1))
        rw [hq', hnone, htries']
  · rw [End.post_nil]
    refine ⟨_, ?_, .sending rest out' ⟨h.heard, hlate, hq'.trans hleft, h.right,
      (congrArg (· ++ out') hpend).trans h.to_left, fun hp => h.answered (hpend ▸ hp)⟩⟩
    simp only [sendingLeft, Tally.next]
    omega

/-- The receiver reads the header and then answers it. -/
theorem Sending.right_step (h : P.Sending rest out' p) (hok : Unhurried p (.right m))
    (hmove : p.1.right.move m = some (f, bs)) :
    ∃ n', n' < P.sendingLeft rest out' p ∧
      P.Underway n' (⟨p.1.left.post bs, f⟩, Tally.next p.1 (.right m) p.2) := by
  have hflight := End.flight_move hmove
  have hright := h.right
  -- the receiver that has answered does nothing before it gets an answer itself
  have hrests : out' = [] → p.1.right.pending ++ rest = [] := by
    rintro rfl
    apply h.answered
    intro hnone
    have hto := h.to_left
    rw [hnone] at hto
    cases hto
  rcases End.move_cases hmove with
    ⟨b, q, hq, hq', hpend, rfl, rfl⟩ | ⟨k, b, hq, hpend, hq', rfl, rfl⟩ |
    ⟨q, hq, hq', hpend, rfl, rfl⟩ | ⟨k, hq, -, hq', hpend, rfl, rfl⟩ | ⟨hq', hpend, hlen, rfl, rfl⟩
  · rw [hq] at hright
    obtain ⟨hover, hrest⟩ | ⟨es, hes, hplays⟩ := hright.of_write
    · have hwrites := P.taken_rests.1
      rw [hrest] at hwrites
      cases hwrites
    · -- the whole header is read
      have hnone : p.1.right.pending ++ rest = [] := by
        cases hread : p.1.right.pending ++ rest with
        | nil => rfl
        | cons c cs => simp [hread] at hes
      rw [hnone] at hes
      obtain ⟨c, out', rfl, hc, rfl⟩ := List.map_eq_cons_iff.mp hes
      obtain rfl := Event.send.inj hc
      have hdiscards : p.1.right.proc.discards = false := by
        rw [hq]
        rfl
      rw [Tally.next_act hdiscards]
      refine ⟨_, ?_, .sending rest out' ⟨h.heard, h.late, h.left, ?_, ?_,
        fun _ => hpend ▸ hnone⟩⟩
      · simp only [sendingLeft, hpend, hflight nofun, End.length_flight_post, List.length_cons,
          List.length_nil]
        omega
      · show Plays f.proc ((f.pending ++ rest).map .recv ++ _) P.taken
        rw [hq', hpend, hnone]
        exact hplays
      · show (p.1.left.post [c]).pending ++ out' = _
        rw [End.pending_post, List.append_assoc]
        exact h.to_left
  · rw [hq, hpend] at hright
    obtain ⟨hover, hrest⟩ | ⟨c, es, hes, hplays⟩ := hright.of_read
    · cases hover
    · obtain ⟨hc, rfl⟩ := List.cons.inj hes
      obtain rfl := Event.recv.inj hc
      have hdiscards : p.1.right.proc.discards = false := by
        rw [hq]
        rfl
      rw [Tally.next_act hdiscards, End.post_nil]
      refine ⟨_, ?_, .sending rest out' ⟨h.heard, h.late, h.left, ?_,
        h.to_left, fun hp => ?_⟩⟩
      · simp only [sendingLeft, hpend, hflight nofun, List.length_cons]
        omega
      · show Plays f.proc _ P.taken
        rw [hq']
        exact hplays
      · have hnone := h.answered hp
        rw [hpend] at hnone
        cases hnone
  · rw [hq] at hright
    have hdiscards := P.taken_rests.2
    rw [hright.of_discard.2] at hdiscards
    cases hdiscards
  · -- only after the whole answer
    obtain hack | ⟨hunheard, -⟩ := hok.2
    swap
    · rw [h.heard] at hunheard
      cases hunheard
    have hanswered := h.answered (List.ne_nil_of_mem hack)
    rw [hq, hanswered] at hright
    obtain ⟨hover, hrest⟩ | ⟨b, es, hes, hplays⟩ := hright.of_read
    swap
    · cases out' with
      | nil => cases hes
      | cons c out' => cases hes
    obtain rfl : out' = [] := List.map_eq_nil_iff.mp hover
    obtain ⟨hnone, rfl⟩ := List.append_eq_nil_iff.mp hanswered
    have hto := h.to_left
    have hleft := h.left
    have hlate := h.late
    rw [List.append_nil] at hto
    rw [End.post_nil]
    refine ⟨_, ?_, .answered ⟨h.heard, h.late, hleft, ?_, ⟨[], hto⟩, hpend.trans hnone⟩⟩
    · simp only [sendingLeft, answeredLeft, hrest, hq', Proc.silence, Tally.next]
      omega
    · rw [hq', hrest]
      exact .read .here
  · rw [End.post_nil]
    refine ⟨_, ?_, .sending rest out' ⟨h.heard, h.late, h.left, ?_, h.to_left,
      fun hp => ?_⟩⟩
    · simp only [sendingLeft, hpend, Tally.next]
      omega
    · rw [hpend, hq']
      exact hright
    · rw [hpend]
      exact h.answered hp

/-- The sender reads the acknowledgement, or waits for it. -/
theorem Answered.left_step (h : P.Answered p) (hok : Unhurried p (.left m))
    (hmove : p.1.left.move m = some (e, bs)) :
    ∃ n', n' < answeredLeft p ∧
      P.Underway n' (⟨e, p.1.right.post bs⟩, Tally.next p.1 (.left m) p.2) := by
  have hleft := h.left
  have hlate := h.late
  obtain ⟨ds, hto⟩ := h.to_left
  obtain ⟨k₀, hwaiting, hack, hnone⟩ := P.waiting_eq (9 - p.2.late)
  have htries : 9 - p.2.late + 1 = 10 - p.2.late := by omega
  rw [htries] at hwaiting
  rw [hwaiting] at hleft
  rcases End.move_cases hmove with
    ⟨b, q, hq, -⟩ | ⟨k, b, hq, hpend, hq', rfl, rfl⟩ | ⟨q, hq, -⟩ |
    ⟨k, hq, -, hq', hpend, rfl, rfl⟩ | ⟨hq', hpend, hlen, rfl, rfl⟩
  · cases hleft.symm.trans hq
  · obtain rfl := Proc.read.inj (hleft.symm.trans hq)
    rw [hpend] at hto
    obtain ⟨rfl, hrest⟩ := List.cons.inj hto
    rw [End.post_nil]
    refine ⟨0, ?_, .shaken ⟨hq'.trans hack, h.to_right, .inr ⟨h.right, ds, hrest⟩⟩⟩
    simp only [answeredLeft]
    omega
  · cases hleft.symm.trans hq
  · obtain rfl := Proc.read.inj (hleft.symm.trans hq)
    have hlimit : p.2.late + 1 < 10 := by
      have hlimit' : if p.2.heard then p.2.late + 1 < 10 else p.2.early + 1 < 45 := hok.1
      rwa [h.heard] at hlimit'
    have htries' : 9 - p.2.late = 10 - (p.2.late + 1) := by omega
    rw [htries'] at hnone
    rw [Tally.next_late h.heard, End.post_nil]
    refine ⟨_, ?_, .answered ⟨h.heard, hlimit, hq'.trans hnone, h.right, ⟨ds, hpend.trans hto⟩,
      h.to_right⟩⟩
    simp only [answeredLeft, End.flight_move hmove nofun]
    omega
  · rw [End.post_nil]
    refine ⟨_, ?_, .answered ⟨h.heard, hlate, hq'.trans h.left, h.right, ⟨ds, hpend.trans hto⟩,
      h.to_right⟩⟩
    simp only [answeredLeft, Tally.next]
    omega

/-- The receiver goes on without an answer. -/
theorem Answered.right_step (h : P.Answered p) (hmove : p.1.right.move m = some (f, bs)) :
    ∃ n', n' < answeredLeft p ∧
      P.Underway n' (⟨p.1.left.post bs, f⟩, Tally.next p.1 (.right m) p.2) := by
  have hright := h.right
  obtain ⟨ds, hto⟩ := h.to_left
  obtain ⟨hheard, hlate⟩ := Tally.next_right p.1 p.2 m
  have hleft : p.1.left.proc = P.waiting (10 - (Tally.next p.1 (.right m) p.2).late) := by
    rw [hlate]
    exact h.left
  -- whatever it writes comes after the acknowledgement
  have hmore : ∃ ds, (p.1.left.post bs).pending = ACK :: CRC16 :: ds := by
    refine ⟨ds ++ bs, ?_⟩
    rw [End.pending_post, hto]
    rfl
  have hkeep (hproc : P.taken.Unanswered f.proc) (hnone : f.pending = []) :
      P.Answered (⟨p.1.left.post bs, f⟩, Tally.next p.1 (.right m) p.2) :=
    ⟨hheard.trans h.heard, lt_of_eq_of_lt hlate h.late, hleft, hproc, hmore, hnone⟩
  rcases End.move_cases hmove with
    ⟨b, q, hq, hq', hpend, rfl, rfl⟩ | ⟨k, b, -, hpend, -⟩ | ⟨q, hq, hq', hpend, rfl, rfl⟩ |
    ⟨k, hq, -, hq', hpend, rfl, rfl⟩ | ⟨-, -, hlen, -⟩
  · rw [hq] at hright
    refine ⟨_, ?_, .answered (hkeep (hq' ▸ .write hright) (hpend.trans h.to_right))⟩
    simp only [answeredLeft, hq, hq', hlate, Proc.silence, End.length_flight_post,
      List.length_singleton]
    omega
  · rw [h.to_right] at hpend
    cases hpend
  · rw [hq] at hright
    have hnone : f.pending = [] := hpend.trans (List.append_eq_nil_iff.mp h.to_right).2
    refine ⟨_, ?_, .answered (hkeep (hq' ▸ .discard hright) hnone)⟩
    simp only [answeredLeft, hq, hq', hlate, Proc.silence, End.post_nil]
    omega
  · rw [hq] at hright
    refine ⟨_, ?_, .answered (hkeep (hq' ▸ .read hright) (hpend.trans h.to_right))⟩
    simp only [answeredLeft, hq, hq', hlate, Proc.silence, End.post_nil]
    omega
  · rw [(List.append_eq_nil_iff.mp h.to_right).2] at hlen
    cases hlen

end Step

/-! ### The handshake goes on -/

section Progress

variable {P} {out : Bool} {place : Place} {p : Wire Byte Int SessionEnd × Tally} {m : Move}
  {e : End Byte Int} {f : End Byte SessionEnd} {bs rest : List Byte}

/-- Some unhurried step is possible. -/
def GoesOn (p : Wire Byte Int SessionEnd × Tally) : Prop :=
  ∃ a p', Unhurried p a ∧ Lts.withHistory Wire.step Tally.next p a = some p'

/-- What is in flight may arrive at any time. -/
theorem goesOn_arrive_left (h : p.1.left.flight ≠ []) : GoesOn p := by
  obtain ⟨b, bs, hflight⟩ := List.exists_cons_of_ne_nil h
  exact ⟨.left .arrive, _, ⟨trivial, trivial⟩, step_left (End.move_arrive hflight)⟩

theorem goesOn_arrive_right (h : p.1.right.flight ≠ []) : GoesOn p := by
  obtain ⟨b, bs, hflight⟩ := List.exists_cons_of_ne_nil h
  exact ⟨.right .arrive, _, ⟨trivial, trivial⟩, step_right (End.move_arrive hflight)⟩

/-- The sender may always act. -/
theorem goesOn_act_left (h : p.1.left.move .act = some (e, bs)) : GoesOn p :=
  ⟨.left .act, _, ⟨trivial, trivial⟩, step_left h⟩

/-- The receiver may act where it does not throw anything away. -/
theorem goesOn_act_right (hdiscards : p.1.right.proc.discards = false)
    (h : p.1.right.move .act = some (f, bs)) : GoesOn p := by
  refine ⟨.right .act, _, ⟨fun hd => ?_, fun _ hd => ?_⟩, step_right h⟩
  · rw [hdiscards] at hd
    cases hd
  · rw [hdiscards] at hd
    cases hd

theorem Calling.goesOn (h : P.Calling out place p) : GoesOn p := by
  have hleft := h.left
  have hright := h.right
  cases out with
  | true =>
    rw [P.sender_true h.early] at hleft
    exact goesOn_act_left (End.move_write hleft)
  | false =>
    obtain ⟨k, hk, -⟩ := P.sender_false h.early
    rw [hk] at hleft
    have hwrites : p.1.left.proc.writes = false := by
      rw [hleft]
      rfl
    by_cases hflight : p.1.right.flight = []
    swap
    · exact goesOn_arrive_right hflight
    cases place with
    | answers =>
      rw [receiver, P.unheard_eq] at hright
      exact goesOn_act_right (by rw [hright]; rfl) (End.move_write hright)
    | discards =>
      have herrors : p.2.errors + 1 ≤ MAX_ERRORS := by
        rw [h.errors nofun]
        decide
      rw [receiver] at hright
      exact ⟨.right .act, _, ⟨fun _ => herrors, fun _ _ => ⟨hflight, hwrites⟩⟩,
        step_right (End.move_discard hright)⟩
    | waits =>
      have herrors : p.2.errors + 1 ≤ MAX_ERRORS := by
        rw [h.errors nofun]
        decide
      obtain ⟨k', hk', -⟩ := P.waits_eq
      rw [receiver, hk'] at hright
      cases hqueue : p.1.right.queue with
      | cons b bs => exact goesOn_act_right (by rw [hright]; rfl) (End.move_read hright hqueue)
      | nil =>
        have hnone : p.1.right.pending = [] := by
          rw [End.pending, hqueue, hflight]
          rfl
        exact ⟨.right .timeout, _, ⟨herrors, .inr ⟨h.heard, h.to_left, hnone, hwrites⟩⟩,
          step_right (End.move_timeout hright hqueue)⟩

theorem Called.goesOn (h : P.Called p) : GoesOn p := by
  have hleft := h.left
  obtain ⟨k, hk, -⟩ := P.listens_eq _ h.early
  rw [hk] at hleft
  by_cases hflight : p.1.left.flight = []
  swap
  · exact goesOn_arrive_left hflight
  have hqueue := h.to_left
  rw [End.pending, hflight, List.append_nil] at hqueue
  exact goesOn_act_left (End.move_read hleft hqueue)

theorem Sending.goesOn {out : List Byte} (h : P.Sending rest out p) : GoesOn p := by
  have hleft := h.left
  have hright := h.right
  by_cases hflights : p.1.left.flight = []
  swap
  · exact goesOn_arrive_left hflights
  by_cases hflight : p.1.right.flight = []
  swap
  · exact goesOn_arrive_right hflight
  cases rest with
  | cons b rest => exact goesOn_act_left (End.move_write hleft)
  | nil =>
    have hto := h.to_left
    rw [End.pending, hflights, List.append_nil] at hto
    rw [End.pending, hflight, List.append_nil, List.append_nil] at hright
    cases hqueue : p.1.right.queue with
    | cons b bs =>
      rw [hqueue] at hright
      generalize hproc : p.1.right.proc = q at hright
      cases hright with
      | read hplays => exact goesOn_act_right (by rw [hproc]; rfl) (End.move_read hproc hqueue)
    | nil =>
      rw [hqueue] at hright
      cases out with
      | cons b out =>
        generalize hproc : p.1.right.proc = q at hright
        cases hright with
        | write hplays => exact goesOn_act_right (by rw [hproc]; rfl) (End.move_write hproc)
      | nil =>
        have hlate := h.late
        obtain ⟨k, hk, -⟩ := P.waiting_eq (9 - p.2.late)
        have htries : 9 - p.2.late + 1 = 10 - p.2.late := by omega
        rw [htries] at hk
        rw [List.append_nil] at hto
        exact goesOn_act_left (End.move_read (hleft.trans hk) hto)

theorem Answered.goesOn (h : P.Answered p) : GoesOn p := by
  have hleft := h.left
  have hlate := h.late
  obtain ⟨bs, hto⟩ := h.to_left
  obtain ⟨k, hk, -⟩ := P.waiting_eq (9 - p.2.late)
  have htries : 9 - p.2.late + 1 = 10 - p.2.late := by omega
  rw [htries] at hk
  by_cases hflight : p.1.left.flight = []
  swap
  · exact goesOn_arrive_left hflight
  rw [End.pending, hflight, List.append_nil] at hto
  exact goesOn_act_left (End.move_read (hleft.trans hk) hto)

theorem Underway.goesOn {n : Nat} (h : P.Underway n p) (hshaken : ¬ P.Shaken p) : GoesOn p := by
  cases h with
  | calling out place h => exact h.goesOn
  | called h => exact h.goesOn
  | sending rest out h => exact h.goesOn
  | answered h => exact h.goesOn
  | shaken h => exact absurd h hshaken

/-- Every unhurried step brings the handshake nearer to its end. -/
theorem Underway.step {n : Nat} {p' : Wire Byte Int SessionEnd × Tally} {a : WireAct}
    (h : P.Underway n p) (hshaken : ¬ P.Shaken p) (hok : Unhurried p a)
    (hstep : Lts.withHistory Wire.step Tally.next p a = some p') :
    ∃ n', n' < n ∧ P.Underway n' p' := by
  obtain ⟨w', hw', rfl⟩ := Option.map_eq_some_iff.mp hstep
  cases a with
  | left m =>
    obtain ⟨⟨e, bs⟩, hmove, rfl⟩ := Option.map_eq_some_iff.mp hw'
    cases h with
    | calling out place h => exact h.left_step hok hmove
    | called h => exact h.left_step hok hmove
    | sending rest out h => exact h.left_step hok hmove
    | answered h => exact h.left_step hok hmove
    | shaken h => exact absurd h hshaken
  | right m =>
    obtain ⟨⟨f, bs⟩, hmove, rfl⟩ := Option.map_eq_some_iff.mp hw'
    cases h with
    | calling out place h => exact h.right_step hok hmove
    | called h => exact (h.right_step hok hmove).elim
    | sending rest out h => exact h.right_step hok hmove
    | answered h => exact h.right_step hmove
    | shaken h => exact absurd h hshaken

end Progress

/-- Whichever side starts, the handshake comes to its end where no step is
    hurried. -/
theorem shaken_inevitably : (startRuns (P.calls 0) P.waits).Inevitably Unhurried P.Shaken
    (.start (P.calls 0) P.waits, ⟨false, 0, 0, 0⟩) := by
  have hstart : P.Calling true .waits (.start (P.calls 0) P.waits, ⟨false, 0, 0, 0⟩) :=
    ⟨rfl, Nat.zero_lt_succ 44, rfl, rfl, rfl, rfl, nofun, nofun, fun _ => rfl⟩
  refine .of_left (I := P.Underway) ?_ ?_ (.calling true .waits hstart)
  · intro n p a p' h hshaken hok hstep
    exact h.step hshaken hok hstep
  · intro n p h hshaken
    exact h.goesOn hshaken

end Parties

end LuaRtos.Ymodem
