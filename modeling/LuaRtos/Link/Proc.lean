/-
  LuaRtos.Link.Proc

  Programs that talk over a serial line, as trees of what they do to it.

  A `Proc β α` reads symbols of `β`, writes them, throws away what has been
  received, and returns an `α`.  A read gets `none` where it times out.  C code
  is written in the monad of these programs; a loop is `Proc.loop`, which stops
  as `Stop.spent` when it is longer than the steps it was given, so that
  "the loop ends" is the statement that the steps suffice.

  `Proc.run` is a program against one list of outcomes of its reads, whatever
  the other end of the line did to bring them about.
-/

import Mathlib.Data.List.Basic

namespace LuaRtos
namespace Link

/-- Why a program stops without a result. -/
inductive Stop where
  /-- It left the behaviour the language defines. -/
  | undefined
  /-- A loop took more steps than it was given. -/
  | spent
deriving DecidableEq, Repr

/-- A program on a line with symbols `β` and result `α`. -/
inductive Proc (β α : Type) where
  | ret (a : α)
  | stop (why : Stop)
  | write (b : β) (next : Proc β α)
  | read (next : Option β → Proc β α)
  | discard (next : Proc β α)

namespace Proc

variable {α γ β σ : Type}

/-- The operations of a program whose reads all give up. -/
def silence : Proc β α → Nat
  | ret _ => 0
  | stop _ => 0
  | write _ next => next.silence + 1
  | read next => (next none).silence + 1
  | discard next => next.silence + 1

/-- What a program comes to while its reads all give up. -/
inductive Unanswered (p : Proc β α) : Proc β α → Prop
  | here : Unanswered p p
  | write {b : β} {next : Proc β α} (h : Unanswered p (.write b next)) : Unanswered p next
  | read {next : Option β → Proc β α} (h : Unanswered p (.read next)) : Unanswered p (next none)
  | discard {next : Proc β α} (h : Unanswered p (.discard next)) : Unanswered p next

/-- One program after the other. -/
def bind : Proc β α → (α → Proc β γ) → Proc β γ
  | ret a, f => f a
  | stop why, _ => stop why
  | write b next, f => write b (next.bind f)
  | read next, f => read fun b => (next b).bind f
  | discard next, f => discard (next.bind f)

instance : Monad (Proc β) where
  pure := ret
  bind := bind

@[simp] theorem pure_eq_ret (a : α) : (pure a : Proc β α) = ret a := rfl

@[simp] theorem ret_bind (a : α) (f : α → Proc β γ) : (ret a : Proc β α) >>= f = f a := rfl

@[simp] theorem stop_bind (why : Stop) (f : α → Proc β γ) :
    (stop why : Proc β α) >>= f = stop why := rfl

@[simp] theorem write_bind (b : β) (p : Proc β α) (f : α → Proc β γ) :
    write b p >>= f = write b (p >>= f) := rfl

@[simp] theorem read_bind (k : Option β → Proc β α) (f : α → Proc β γ) :
    read k >>= f = read fun b => k b >>= f := rfl

@[simp] theorem discard_bind (p : Proc β α) (f : α → Proc β γ) :
    discard p >>= f = discard (p >>= f) := rfl

theorem bind_bind {δ : Type} (p : Proc β α) (f : α → Proc β γ) (g : γ → Proc β δ) :
    (p >>= f) >>= g = p >>= fun a => f a >>= g := by
  induction p with
  | ret a => rfl
  | stop why => rfl
  | write b p ih => exact congrArg (write b) ih
  | read k ih =>
    show read _ = read _
    congr 1
    funext b
    exact ih b
  | discard p ih => exact congrArg discard ih

/-! ## The operations of the line -/

/-- Write one symbol. -/
def put (b : β) : Proc β Unit := write b (ret ())

/-- Read one symbol, or time out. -/
def get : Proc β (Option β) := read ret

/-- Throw away what has been received and not read. -/
def consume : Proc β Unit := discard (ret ())

@[simp] theorem put_bind (b : β) (f : Unit → Proc β γ) : put b >>= f = write b (f ()) := rfl

@[simp] theorem get_bind (f : Option β → Proc β γ) : get >>= f = read f := rfl

@[simp] theorem consume_bind (f : Unit → Proc β γ) : consume >>= f = discard (f ()) := rfl

/-- The next operation is a write. -/
def writes : Proc β α → Bool
  | write _ _ => true
  | _ => false

/-- The next operation is a read. -/
def reads : Proc β α → Bool
  | read _ => true
  | _ => false

/-- The next operation is a discard. -/
def discards : Proc β α → Bool
  | discard _ => true
  | _ => false

/-- Write symbols one after the other. -/
def puts : List β → Proc β Unit
  | [] => ret ()
  | b :: bs => write b (puts bs)

/-- Read `n` symbols into a buffer, from index `i` on, and tell whether all of
    them came: the first read that times out ends it. -/
def fill (buf : List β) (i : Nat) : Nat → Proc β (List β × Bool)
  | 0 => ret (buf, true)
  | n + 1 => read fun
    | none => ret (buf, false)
    | some b => fill (buf.set i b) (i + 1) n

/-- A loop of at most `n` rounds.  A round goes on with a new state or leaves
    with a result. -/
def loop (body : σ → Proc β (σ ⊕ α)) : Nat → σ → Proc β α
  | 0, _ => stop .spent
  | n + 1, s => body s >>= Sum.elim (loop body n) ret

theorem loop_succ (body : σ → Proc β (σ ⊕ α)) (n : Nat) (s : σ) :
    loop body (n + 1) s = body s >>= Sum.elim (loop body n) ret := rfl

/-! ## Runs against a list of outcomes -/

/-- The result of a program whose reads come out as in the list, and the
    outcomes that it did not use.  There is none where the list is too short or
    the program stops. -/
def run : Proc β α → List (Option β) → Option (α × List (Option β))
  | ret a, rs => some (a, rs)
  | stop _, _ => none
  | write _ next, rs => next.run rs
  | read _, [] => none
  | read k, r :: rs => (k r).run rs
  | discard next, rs => next.run rs

@[simp] theorem run_ret (a : α) (rs : List (Option β)) : (ret a).run rs = some (a, rs) := rfl

@[simp] theorem run_stop (why : Stop) (rs : List (Option β)) :
    (stop why : Proc β α).run rs = none := rfl

@[simp] theorem run_write (b : β) (p : Proc β α) (rs : List (Option β)) :
    (write b p).run rs = p.run rs := rfl

@[simp] theorem run_discard (p : Proc β α) (rs : List (Option β)) :
    (discard p).run rs = p.run rs := rfl

@[simp] theorem run_read_cons (k : Option β → Proc β α) (r : Option β) (rs : List (Option β)) :
    (read k).run (r :: rs) = (k r).run rs := rfl

/-- A run of two programs in sequence is a run of the first and, on the
    outcomes it leaves, one of the second. -/
theorem run_bind (p : Proc β α) (f : α → Proc β γ) (rs : List (Option β)) :
    (p >>= f).run rs = (p.run rs).bind fun q => (f q.1).run q.2 := by
  induction p generalizing rs with
  | ret a => simp
  | stop why => simp
  | write b p ih => simp [ih]
  | read k ih =>
    cases rs with
    | nil =>
      rw [read_bind]
      unfold run
      rfl
    | cons r rs => simp [ih]
  | discard p ih => simp [ih]

theorem run_bind_eq_some {p : Proc β α} {f : α → Proc β γ} {rs : List (Option β)}
    {q : γ × List (Option β)} :
    (p >>= f).run rs = some q ↔ ∃ a rs', p.run rs = some (a, rs') ∧ (f a).run rs' = some q := by
  rw [run_bind, Option.bind_eq_some_iff]
  constructor
  · rintro ⟨⟨a, rs'⟩, h, h'⟩
    exact ⟨a, rs', h, h'⟩
  · rintro ⟨a, rs', h, h'⟩
    exact ⟨(a, rs'), h, h'⟩

/-- A run only takes outcomes off the list. -/
theorem run_length_le {p : Proc β α} {rs rs' : List (Option β)} {a : α}
    (h : p.run rs = some (a, rs')) : rs'.length ≤ rs.length := by
  induction p generalizing rs with
  | ret b =>
    obtain ⟨-, rfl⟩ : b = a ∧ rs = rs' := by simpa using h
    exact Nat.le_refl _
  | stop why => simp at h
  | write b p ih => exact ih (by simpa using h)
  | read k ih =>
    cases rs with
    | nil => simp [run] at h
    | cons r rs =>
      rw [run_read_cons] at h
      exact Nat.le_succ_of_le (ih r h)
  | discard p ih => exact ih (by simpa using h)

/-- A program that reads first uses an outcome. -/
theorem run_read_length_lt {k : Option β → Proc β α} {rs rs' : List (Option β)} {a : α}
    (h : (read k).run rs = some (a, rs')) : rs'.length < rs.length := by
  cases rs with
  | nil => simp [run] at h
  | cons r rs =>
    rw [run_read_cons] at h
    exact Nat.lt_succ_of_le (run_length_le h)

@[simp] theorem run_puts (bs : List β) (rs : List (Option β)) :
    (puts bs).run rs = some ((), rs) := by
  induction bs with
  | nil => rfl
  | cons b bs ih => rw [puts, run_write, ih]

@[simp] theorem run_puts_bind (bs : List β) (f : Unit → Proc β α) (rs : List (Option β)) :
    (puts bs >>= f).run rs = (f ()).run rs := by
  rw [run_bind, run_puts]
  rfl

/-- The symbols of up to `n` reads, which the first that times out ends, and the outcomes behind
    them. -/
def taken : Nat → List (Option β) → List β × List (Option β)
  | n + 1, some b :: rs => (b :: (taken n rs).1, (taken n rs).2)
  | _ + 1, none :: rs => ([], rs)
  | _, rs => ([], rs)

theorem length_taken (n : Nat) (rs : List (Option β)) : (taken n rs).1.length ≤ n := by
  induction n generalizing rs with
  | zero => exact Nat.le_refl 0
  | succ n ih =>
    cases rs with
    | nil => exact Nat.zero_le _
    | cons r rs =>
      cases r with
      | none => exact Nat.zero_le _
      | some b => exact Nat.succ_le_succ (ih rs)

/-- A run of the reads into a buffer puts what they got over a part of it. -/
theorem run_fill {pre post : List β} {n : Nat} {rs rs' : List (Option β)} {r : List β × Bool}
    (hroom : n ≤ post.length) (h : (fill (pre ++ post) pre.length n).run rs = some (r, rs')) :
    r.1 = pre ++ ((taken n rs).1 ++ post.drop (taken n rs).1.length) ∧ rs' = (taken n rs).2 := by
  induction n generalizing pre post rs with
  | zero =>
    rw [fill, run_ret] at h
    cases h
    exact ⟨rfl, rfl⟩
  | succ n ih =>
    rw [fill] at h
    cases rs with
    | nil =>
      unfold run at h
      cases h
    | cons o rs =>
      rw [run_read_cons] at h
      cases o with
      | none =>
        rw [run_ret] at h
        cases h
        exact ⟨rfl, rfl⟩
      | some b =>
        have hpos : 0 < post.length := Nat.lt_of_lt_of_le n.succ_pos hroom
        obtain ⟨d, post, rfl⟩ := List.exists_cons_of_length_pos hpos
        have hset : (pre ++ d :: post).set pre.length b = (pre ++ [b]) ++ post := by
          simp
        have hlen : pre.length + 1 = (pre ++ [b]).length := by
          simp
        dsimp only at h
        rw [hset, hlen] at h
        obtain ⟨hbuf, hrest⟩ := ih (Nat.le_of_succ_le_succ hroom) h
        refine ⟨?_, hrest⟩
        rw [hbuf, List.append_assoc]
        rfl

end Proc
end Link
end LuaRtos
