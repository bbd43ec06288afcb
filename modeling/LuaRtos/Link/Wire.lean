/-
  LuaRtos.Link.Wire

  Two programs at the two ends of a lossless serial line.

  A symbol that one end writes is in flight until it arrives in the queue of
  the other end, where it stays until it is read or thrown away.  Which end
  moves, when a symbol arrives and when a read times out is up to the run; a
  read times out only where its queue is empty.
-/

import LuaRtos.Link.Proc
import LuaRtos.Lts.Progress

namespace LuaRtos
namespace Link

variable {α β γ : Type}

/-- One end of the line: the rest of its program, the symbols it has received
    and not read, and those in flight towards it. -/
structure End (β α : Type) where
  proc : Proc β α
  queue : List β
  flight : List β

/-- What an end can do. -/
inductive Move where
  /-- The next operation of the program: a write, a read of a symbol, a discard. -/
  | act
  /-- A read gives up. -/
  | timeout
  /-- The first symbol in flight arrives. -/
  | arrive
deriving DecidableEq, Repr

namespace End

/-- An end that starts a program. -/
def start (p : Proc β α) : End β α := ⟨p, [], []⟩

/-- The symbols on their way to this end, in the order it will read them. -/
def pending (e : End β α) : List β := e.queue ++ e.flight

/-- Symbols that the other end writes. -/
def post (e : End β α) (bs : List β) : End β α := { e with flight := e.flight ++ bs }

/-- The end after a move, and what it wrote. -/
def move (e : End β α) : Move → Option (End β α × List β)
  | .act =>
    match e.proc, e.queue with
    | .write b p, _ => some ({ e with proc := p }, [b])
    | .read k, b :: bs => some ({ e with proc := k (some b), queue := bs }, [])
    | .discard p, _ => some ({ e with proc := p, queue := [] }, [])
    | _, _ => none
  | .timeout =>
    match e.proc, e.queue with
    | .read k, [] => some ({ e with proc := k none }, [])
    | _, _ => none
  | .arrive =>
    match e.flight with
    | b :: bs => some ({ e with queue := e.queue ++ [b], flight := bs }, [])
    | [] => none

/-- The end can go on without giving up a read. -/
def Busy (e : End β α) : Prop := (e.move .act).isSome ∨ (e.move .arrive).isSome

instance (e : End β α) : Decidable e.Busy := inferInstanceAs (Decidable (_ ∨ _))

@[simp] theorem pending_start (p : Proc β α) : (start p).pending = [] := rfl

@[simp] theorem pending_post (e : End β α) (bs : List β) :
    (e.post bs).pending = e.pending ++ bs := (List.append_assoc ..).symm

@[simp] theorem proc_post (e : End β α) (bs : List β) : (e.post bs).proc = e.proc := rfl

@[simp] theorem length_flight_post (e : End β α) (bs : List β) :
    (e.post bs).flight.length = e.flight.length + bs.length := List.length_append

@[simp] theorem post_nil (e : End β α) : e.post [] = e := by
  simp [post]

section Possible

variable {e : End β α} {b : β} {bs : List β} {p : Proc β α} {k : Option β → Proc β α}

theorem move_write (h : e.proc = .write b p) : e.move .act = some ({ e with proc := p }, [b]) := by
  rw [move, h]

theorem move_discard (h : e.proc = .discard p) :
    e.move .act = some ({ e with proc := p, queue := [] }, []) := by
  rw [move, h]

theorem move_read (h : e.proc = .read k) (hqueue : e.queue = b :: bs) :
    e.move .act = some ({ e with proc := k (some b), queue := bs }, []) := by
  rw [move, h, hqueue]

theorem move_timeout (h : e.proc = .read k) (hqueue : e.queue = []) :
    e.move .timeout = some ({ e with proc := k none }, []) := by
  rw [move, h, hqueue]

theorem move_arrive (h : e.flight = b :: bs) :
    e.move .arrive = some ({ e with queue := e.queue ++ [b], flight := bs }, []) := by
  rw [move, h]

end Possible

/-- Everything that a move of an end can be. -/
theorem move_cases {e e' : End β α} {m : Move} {out : List β} (h : e.move m = some (e', out)) :
    (∃ b p, e.proc = .write b p ∧ e'.proc = p ∧ e'.pending = e.pending ∧ out = [b] ∧ m = .act) ∨
    (∃ k b, e.proc = .read k ∧ e.pending = b :: e'.pending ∧ e'.proc = k (some b) ∧ out = [] ∧
      m = .act) ∨
    (∃ p, e.proc = .discard p ∧ e'.proc = p ∧ e'.pending = e.flight ∧ out = [] ∧ m = .act) ∨
    (∃ k, e.proc = .read k ∧ e.queue = [] ∧ e'.proc = k none ∧ e'.pending = e.pending ∧
      out = [] ∧ m = .timeout) ∨
    (e'.proc = e.proc ∧ e'.pending = e.pending ∧ e'.flight.length + 1 = e.flight.length ∧
      out = [] ∧ m = .arrive) := by
  obtain ⟨p, q, f⟩ := e
  cases m with
  | act =>
    cases p with
    | ret a => simp [move] at h
    | stop why => simp [move] at h
    | write b p =>
      obtain ⟨rfl, rfl⟩ := by simpa [move] using h
      exact .inl ⟨b, p, rfl, rfl, rfl, rfl, rfl⟩
    | read k =>
      cases q with
      | nil => simp [move] at h
      | cons b bs =>
        obtain ⟨rfl, rfl⟩ := by simpa [move] using h
        exact .inr (.inl ⟨k, b, rfl, rfl, rfl, rfl, rfl⟩)
    | discard p =>
      obtain ⟨rfl, rfl⟩ := by simpa [move] using h
      exact .inr (.inr (.inl ⟨p, rfl, rfl, rfl, rfl, rfl⟩))
  | timeout =>
    cases p with
    | read k =>
      cases q with
      | nil =>
        obtain ⟨rfl, rfl⟩ := by simpa [move] using h
        exact .inr (.inr (.inr (.inl ⟨k, rfl, rfl, rfl, rfl, rfl, rfl⟩)))
      | cons b bs => simp [move] at h
    | _ => simp [move] at h
  | arrive =>
    cases f with
    | nil => simp [move] at h
    | cons b bs =>
      obtain ⟨rfl, rfl⟩ := by simpa [move] using h
      refine .inr (.inr (.inr (.inr ⟨rfl, ?_, rfl, rfl, rfl⟩)))
      show q ++ [b] ++ bs = q ++ b :: bs
      simp

/-- Only arrivals take symbols out of flight. -/
theorem flight_move {e e' : End β α} {m : Move} {out : List β} (h : e.move m = some (e', out))
    (hm : m ≠ .arrive) : e'.flight = e.flight := by
  obtain ⟨p, q, f⟩ := e
  cases m with
  | arrive => exact absurd rfl hm
  | act =>
    dsimp only [move] at h
    split at h
    · cases h
      rfl
    · cases h
      rfl
    · cases h
      rfl
    · cases h
  | timeout =>
    dsimp only [move] at h
    split at h
    · cases h
      rfl
    · cases h

/-- An end that has nothing on its way to it and cannot act has ended or waits
    for a symbol. -/
theorem not_busy {e : End β α} (h : ¬ e.Busy) :
    e.pending = [] ∨ (∃ a, e.proc = .ret a) ∨ ∃ why, e.proc = .stop why := by
  obtain ⟨p, q, f⟩ := e
  cases p with
  | ret a => exact .inr (.inl ⟨a, rfl⟩)
  | stop why => exact .inr (.inr ⟨why, rfl⟩)
  | write b p => simp [Busy, move] at h
  | discard p => simp [Busy, move] at h
  | read k =>
    cases f with
    | cons b bs => simp [Busy, move] at h
    | nil =>
      cases q with
      | cons b bs => simp [Busy, move] at h
      | nil => exact .inl rfl

end End

/-- The two ends of a line. -/
structure Wire (β α γ : Type) where
  left : End β α
  right : End β γ

/-- A move of one of the ends. -/
inductive WireAct where
  | left (m : Move)
  | right (m : Move)
deriving DecidableEq, Repr

namespace Wire

/-- The move and the symbols it puts in flight towards the other end. -/
def step (w : Wire β α γ) : WireAct → Option (Wire β α γ)
  | .left m => (w.left.move m).map fun r => ⟨r.1, w.right.post r.2⟩
  | .right m => (w.right.move m).map fun r => ⟨w.left.post r.2, r.1⟩

/-- Two programs on a line with nothing on it. -/
def start (p : Proc β α) (q : Proc β γ) : Wire β α γ := ⟨.start p, .start q⟩

/-- The runs of two programs on a line. -/
def runs (p : Proc β α) (q : Proc β γ) : Lts (Wire β α γ) WireAct :=
  Lts.ofStep (start p q) step

/-- A move that gives up a read. -/
def WireAct.IsTimeout : WireAct → Prop
  | .left m => m = .timeout
  | .right m => m = .timeout

/-- Each end answers within the time-outs of the other: a read gives up only
    where nothing else can happen on the line. -/
def Prompt (w : Wire β α γ) (a : WireAct) : Prop :=
  WireAct.IsTimeout a → ¬ w.left.Busy ∧ ¬ w.right.Busy

end Wire
end Link
end LuaRtos
