/-
  LuaRtos.Link.Script

  Two programs that follow the same script.

  A script is the list of the symbols that cross the line, as one end sees
  them.  If each end would follow the script alone, then together they play it
  to the end in whatever order they move and the symbols arrive: the end that
  is ahead has only written since, and what it wrote is all that is on the
  line.  So no symbol is ever lost to a discard, no read gives up before the
  script is over, and the results are those of the script.
-/

import LuaRtos.Link.Wire

namespace LuaRtos
namespace Link

variable {α β γ : Type}

/-- One symbol on the line, as one end sees it. -/
inductive Event (β : Type) where
  | send (b : β)
  | recv (b : β)
deriving DecidableEq, Repr

/-- The same symbol as the other end sees it. -/
def Event.dual : Event β → Event β
  | send b => recv b
  | recv b => send b

@[simp] theorem Event.dual_send (b : β) : (send b).dual = recv b := rfl

@[simp] theorem Event.dual_recv (b : β) : (recv b).dual = send b := rfl

@[simp] theorem Event.dual_dual (e : Event β) : e.dual.dual = e := by
  cases e <;> rfl

/-- The outcome of the read of a symbol, as `Proc.run` takes it. -/
def Event.received : Event β → Option (Option β)
  | send _ => none
  | recv b => some (some b)

theorem Event.filterMap_received (bs : List β) :
    (bs.map Event.recv).filterMap received = bs.map some := by
  induction bs with
  | nil => rfl
  | cons b bs ih => exact congrArg (some b :: ·) ih

theorem Event.map_dual_dual (es : List (Event β)) : (es.map dual).map dual = es := by
  rw [List.map_map, show dual ∘ dual = (id : Event β → Event β) from funext dual_dual,
    List.map_id]

/-- `p` follows the script to its end and returns `a`, in `n` operations.  What
    it has received it throws away only where it writes next.  When the script
    is over, its reads give up. -/
inductive Follows : Nat → Proc β α → List (Event β) → α → Prop
  | ret (a : α) : Follows 0 (.ret a) [] a
  | write {n : Nat} {b : β} {p : Proc β α} {es : List (Event β)} {a : α}
      (h : Follows n p es a) : Follows (n + 1) (.write b p) (.send b :: es) a
  | read {n : Nat} {b : β} {k : Option β → Proc β α} {es : List (Event β)} {a : α}
      (h : Follows n (k (some b)) es a) : Follows (n + 1) (.read k) (.recv b :: es) a
  | discard {n : Nat} {b : β} {p : Proc β α} {es : List (Event β)} {a : α}
      (h : Follows n p (.send b :: es) a) : Follows (n + 1) (.discard p) (.send b :: es) a
  | timeout {n : Nat} {k : Option β → Proc β α} {a : α}
      (h : Follows n (k none) [] a) : Follows (n + 1) (.read k) [] a

/-- From `p`, the events one after the other lead to `q`, by reads and writes
    only. -/
inductive Plays : Proc β α → List (Event β) → Proc β α → Prop
  | done (p : Proc β α) : Plays p [] p
  | write {b : β} {p q : Proc β α} {es : List (Event β)}
      (h : Plays p es q) : Plays (.write b p) (.send b :: es) q
  | read {b : β} {k : Option β → Proc β α} {q : Proc β α} {es : List (Event β)}
      (h : Plays (k (some b)) es q) : Plays (.read k) (.recv b :: es) q

/-! ## Playing a script in parts -/

namespace Plays

variable {p q r : Proc β α} {es es' : List (Event β)}

theorem trans (h : Plays p es q) (h' : Plays q es' r) : Plays p (es ++ es') r := by
  induction h with
  | done p => exact h'
  | write _ ih => exact .write (ih h')
  | read _ ih => exact .read (ih h')

theorem bind (h : Plays p es q) (f : α → Proc β γ) : Plays (p >>= f) es (q >>= f) := by
  induction h with
  | done p => exact .done _
  | write _ ih => exact .write ih
  | read _ ih => exact .read ih

/-- A program that plays its part and returns, and then the next one. -/
theorem bind_ret {a : α} {f : α → Proc β γ} {s : Proc β γ} (h : Plays p es (.ret a))
    (h' : Plays (f a) es' s) : Plays (p >>= f) (es ++ es') s :=
  (h.bind f).trans h'

theorem follows {n : Nat} {a : α} (h : Plays p es q) (h' : Follows n q es' a) :
    ∃ m, Follows m p (es ++ es') a := by
  induction h with
  | done p => exact ⟨n, h'⟩
  | write _ ih =>
    obtain ⟨m, hm⟩ := ih h'
    exact ⟨m + 1, .write hm⟩
  | read _ ih =>
    obtain ⟨m, hm⟩ := ih h'
    exact ⟨m + 1, .read hm⟩

theorem puts (bs : List β) : Plays (.puts bs) (bs.map .send) (.ret ()) := by
  induction bs with
  | nil => exact .done _
  | cons b bs ih => exact .write ih

/-- Symbols that are read over the middle of a buffer. -/
theorem fill (pre post bs : List β) (h : bs.length ≤ post.length) :
    Plays (.fill (pre ++ post) pre.length bs.length) (bs.map .recv)
      (.ret (pre ++ bs ++ post.drop bs.length, true)) := by
  induction bs generalizing pre post with
  | nil =>
    rw [List.append_nil]
    exact .done _
  | cons b bs ih =>
    cases post with
    | nil => simp at h
    | cons d post =>
      have hset : (pre ++ d :: post).set pre.length b = (pre ++ [b]) ++ post := by
        simp
      have hlen : pre.length + 1 = (pre ++ [b]).length := by
        simp
      refine .read ?_
      show Plays (.fill ((pre ++ d :: post).set pre.length b) (pre.length + 1) bs.length) _ _
      rw [hset, hlen]
      have h' := ih (pre ++ [b]) post (by simpa using h)
      simpa using h'

theorem of_write {b : β} (h : Plays (.write b p) es q) :
    es = [] ∧ q = .write b p ∨ ∃ es', es = .send b :: es' ∧ Plays p es' q := by
  cases h with
  | done => exact .inl ⟨rfl, rfl⟩
  | write h => exact .inr ⟨_, rfl, h⟩

theorem of_read {k : Option β → Proc β α} (h : Plays (.read k) es q) :
    es = [] ∧ q = .read k ∨ ∃ b es', es = .recv b :: es' ∧ Plays (k (some b)) es' q := by
  cases h with
  | done => exact .inl ⟨rfl, rfl⟩
  | read h => exact .inr ⟨_, _, rfl, h⟩

theorem of_discard (h : Plays (.discard p) es q) : es = [] ∧ q = .discard p := by
  cases h with
  | done => exact ⟨rfl, rfl⟩

/-- A program that plays a script, against the symbols that it receives in it. -/
theorem run_eq (h : Plays p es q) (rs : List (Option β)) :
    p.run (es.filterMap Event.received ++ rs) = q.run rs := by
  induction h with
  | done p => rfl
  | write _ ih =>
    rw [Proc.run_write]
    exact ih
  | @read b k q es _ ih =>
    show (Proc.read k).run (some b :: (es.filterMap Event.received ++ rs)) = _
    rw [Proc.run_read_cons, ih]

/-- A loop whose first round goes on. -/
theorem loop_inl {σ : Type} {body : σ → Proc β (σ ⊕ α)} {n : Nat} {s s' : σ} {q : Proc β α}
    (h : Plays (body s) es (.ret (.inl s'))) (h' : Plays (.loop body n s') es' q) :
    Plays (.loop body (n + 1) s) (es ++ es') q :=
  bind_ret h h'

/-- A loop whose first round leaves. -/
theorem loop_inr {σ : Type} {body : σ → Proc β (σ ⊕ α)} {n : Nat} {s : σ} {a : α}
    (h : Plays (body s) es (.ret (.inr a))) : Plays (.loop body (n + 1) s) es (.ret a) :=
  h.bind _

end Plays

/-! ## An end and its script -/

namespace Follows

variable {n : Nat} {p : Proc β α} {k : Option β → Proc β α} {b : β} {es : List (Event β)} {a : α}

theorem of_write (h : Follows n (.write b p) es a) :
    ∃ m es', n = m + 1 ∧ es = .send b :: es' ∧ Follows m p es' a := by
  cases h with
  | write h => exact ⟨_, _, rfl, rfl, h⟩

theorem of_read_recv (h : Follows n (.read k) (.recv b :: es) a) :
    ∃ m, n = m + 1 ∧ Follows m (k (some b)) es a := by
  cases h with
  | read h => exact ⟨_, rfl, h⟩

theorem of_read_nil (h : Follows n (.read k) [] a) : ∃ m, n = m + 1 ∧ Follows m (k none) [] a := by
  cases h with
  | timeout h => exact ⟨_, rfl, h⟩

theorem of_discard (h : Follows n (.discard p) es a) :
    ∃ m c es', n = m + 1 ∧ es = .send c :: es' ∧ Follows m p es a := by
  cases h with
  | discard h => exact ⟨_, _, _, rfl, rfl, h⟩

theorem of_ret {c : α} (h : Follows n (.ret c) es a) : es = [] ∧ c = a := by
  cases h with
  | ret => exact ⟨rfl, rfl⟩

theorem of_nil (h : Follows n p [] a) : p = .ret a ∨ ∃ k, p = .read k := by
  cases h with
  | ret => exact .inl rfl
  | timeout => exact .inr ⟨_, rfl⟩

theorem not_stop {why : Stop} : ¬ Follows n (.stop why : Proc β α) es a := by
  intro h
  cases h

/-- Who writes next is not waiting. -/
theorem busy_of_send {e : End β α} (h : Follows n e.proc (.send b :: es) a) : e.Busy := by
  obtain ⟨p, q, f⟩ := e
  cases h with
  | write => exact .inl rfl
  | discard => exact .inl rfl

end Follows

/-! ## Two ends and one script -/

/-- `e` has `es` to play after the symbols on their way to it, which are all
    that `f` wrote since it was ahead; `f` has the same left to play. -/
def Behind (e : End β α) (f : End β γ) (n m : Nat) (a : α) (c : γ) : Prop :=
  f.pending = [] ∧ ∃ es, Follows n e.proc (e.pending.map .recv ++ es) a ∧
    Follows m f.proc (es.map .dual) c

/-- One of the ends is behind, or none. -/
def InStep (e : End β α) (f : End β γ) (n m : Nat) (a : α) (c : γ) : Prop :=
  Behind e f n m a c ∨ Behind f e m n c a

section Step

variable {e e' : End β α} {f : End β γ} {n m : Nat} {a : α} {c : γ}

theorem InStep.symm (h : InStep e f n m a c) : InStep f e m n c a := Or.symm h

/-- Two ends that both wait have played the script. -/
theorem InStep.over (h : InStep e f n m a c) (he : ¬ e.Busy) (hf : ¬ f.Busy) :
    e.pending = [] ∧ f.pending = [] ∧ Follows n e.proc [] a ∧ Follows m f.proc [] c := by
  -- the end that is behind has nothing left to read
  have hempty : ∀ {α γ : Type} {e : End β α} {f : End β γ} {n m : Nat} {a : α} {c : γ},
      ¬ e.Busy → ¬ f.Busy → Behind e f n m a c →
      e.pending = [] ∧ f.pending = [] ∧ Follows n e.proc [] a ∧ Follows m f.proc [] c := by
    intro α γ e f n m a c he hf ⟨hpf, es, hfe, hff⟩
    have hpe : e.pending = [] := by
      rcases End.not_busy he with hpe | ⟨b, hret⟩ | ⟨why, hstop⟩
      · exact hpe
      · rw [hret] at hfe
        exact (List.map_eq_nil_iff.mp (List.append_eq_nil_iff.mp hfe.of_ret.1).1)
      · rw [hstop] at hfe
        exact absurd hfe Follows.not_stop
    rw [hpe] at hfe
    cases es with
    | nil => exact ⟨hpe, hpf, hfe, hff⟩
    | cons ev es =>
      cases ev with
      | send b => exact absurd hfe.busy_of_send he
      | recv b => exact absurd hff.busy_of_send hf
  rcases h with h | h
  · exact hempty he hf h
  · obtain ⟨hpf, hpe, hff, hfe⟩ := hempty hf he h
    exact ⟨hpe, hpf, hfe, hff⟩

/-- A move of one end keeps the two in step and uses up operations of its
    script or symbols in flight. -/
theorem InStep.move {mv : Move} {out : List β} (h : InStep e f n m a c)
    (hprompt : mv = .timeout → ¬ e.Busy ∧ ¬ f.Busy) (hmove : e.move mv = some (e', out)) :
    ∃ n', InStep e' (f.post out) n' m a c ∧
      2 * n' + e'.flight.length + out.length < 2 * n + e.flight.length := by
  have hflight := End.flight_move hmove
  rcases End.move_cases hmove with
    ⟨b, p, hp, hp', hpend, rfl, rfl⟩ | ⟨k, b, hp, hpend, hp', rfl, rfl⟩ |
    ⟨p, hp, hp', hpend, rfl, rfl⟩ | ⟨k, hp, -, hp', hpend, rfl, rfl⟩ |
    ⟨hp', hpend, hlen, rfl, rfl⟩
  · -- a write: this end was not behind, or has caught up
    have hlen := hflight (by simp)
    rcases h with ⟨hpf, es, hfe, hff⟩ | ⟨hpe, es, hff, hfe⟩
    · rw [hp] at hfe
      obtain ⟨n', es', rfl, hes, hfe'⟩ := hfe.of_write
      have hnil : e.pending = [] := by
        cases he : e.pending with
        | nil => rfl
        | cons d ds => simp [he] at hes
      rw [hnil] at hes
      obtain rfl : es = .send b :: es' := hes
      refine ⟨n', .inr ⟨hpend.trans hnil, es'.map .dual, ?_, ?_⟩, ?_⟩
      · rw [End.pending_post, hpf]
        exact hff
      · rw [hp', Event.map_dual_dual]
        exact hfe'
      · rw [hlen, List.length_singleton]
        omega
    · rw [hp] at hfe
      obtain ⟨n', es', rfl, hes, hfe'⟩ := hfe.of_write
      obtain ⟨ev, es₁, rfl, hev, rfl⟩ := List.map_eq_cons_iff.mp hes
      obtain rfl : ev = .recv b := by
        rw [← Event.dual_dual ev, hev]
        rfl
      refine ⟨n', .inr ⟨hpend.trans hpe, es₁, ?_, hp' ▸ hfe'⟩, ?_⟩
      · rw [End.pending_post, List.map_append, List.append_assoc]
        exact hff
      · rw [hlen, List.length_singleton]
        omega
  · -- a read of a symbol that the other end wrote
    have hlen := hflight (by simp)
    rcases h with ⟨hpf, es, hfe, hff⟩ | ⟨hpe, -⟩
    · rw [hp, hpend] at hfe
      obtain ⟨n', rfl, hfe'⟩ := hfe.of_read_recv
      refine ⟨n', .inl ⟨by rw [End.post_nil, hpf], es, hp' ▸ hfe', hff⟩, ?_⟩
      rw [hlen, List.length_nil]
      omega
    · rw [hpe] at hpend
      cases hpend
  · -- a discard throws nothing away: a write comes next in the script
    have hlen := hflight (by simp)
    rcases h with ⟨hpf, es, hfe, hff⟩ | ⟨hpe, es, hff, hfe⟩
    · rw [hp] at hfe
      obtain ⟨n', d, es', rfl, hes, hfe'⟩ := hfe.of_discard
      have hnil : e.pending = [] := by
        cases he : e.pending with
        | nil => rfl
        | cons d ds => simp [he] at hes
      have hnil' : e'.pending = [] := by
        rw [hpend]
        exact (List.append_eq_nil_iff.mp hnil).2
      rw [hnil] at hfe'
      refine ⟨n', .inl ⟨by rw [End.post_nil, hpf], es, ?_, hff⟩, ?_⟩
      · rw [hnil', hp']
        exact hfe'
      · rw [hlen, List.length_nil]
        omega
    · rw [hp] at hfe
      obtain ⟨n', d, es', rfl, -, hfe'⟩ := hfe.of_discard
      have hnil' : e'.pending = [] := by
        rw [hpend]
        exact (List.append_eq_nil_iff.mp hpe).2
      refine ⟨n', .inr ⟨hnil', es, ?_, hp' ▸ hfe'⟩, ?_⟩
      · rw [End.post_nil]
        exact hff
      · rw [hlen, List.length_nil]
        omega
  · -- a read gives up: the script is over
    obtain ⟨he, hf⟩ := hprompt rfl
    obtain ⟨hpe, hpf, hfe, hff⟩ := h.over he hf
    rw [hp] at hfe
    obtain ⟨n', rfl, hfe'⟩ := hfe.of_read_nil
    refine ⟨n', .inl ⟨by rw [End.post_nil, hpf], [], ?_, hff⟩, ?_⟩
    · rw [hpend, hpe, hp']
      exact hfe'
    · rw [hflight (by simp), List.length_nil]
      omega
  · -- an arrival
    refine ⟨n, ?_, by rw [List.length_nil]; omega⟩
    rw [End.post_nil]
    unfold InStep Behind
    rw [hp', hpend]
    exact h

end Step

/-! ## Two programs on a line -/

section Run

variable {p : Proc β α} {q : Proc β γ} {n m : Nat} {es : List (Event β)} {a : α} {c : γ}

/-- Both programs have returned, and nothing is left on the line. -/
def Wire.Finished (w : Wire β α γ) (a : α) (c : γ) : Prop :=
  w = ⟨⟨.ret a, [], []⟩, ⟨.ret c, [], []⟩⟩

theorem Wire.Finished.no_step {w w' : Wire β α γ} {x : WireAct} (h : w.Finished a c) :
    w.step x ≠ some w' := by
  subst h
  rcases x with (_ | _ | _) | (_ | _ | _) <;> exact nofun

/-- Two ends in step have finished or can go on. -/
theorem InStep.progress {w : Wire β α γ} (h : InStep w.left w.right n m a c)
    (hfin : ¬ w.Finished a c) : ∃ x w', w.Prompt x ∧ w.step x = some w' := by
  obtain ⟨⟨p, qe, fe⟩, ⟨q, qf, ff⟩⟩ := w
  by_cases he : End.Busy (⟨p, qe, fe⟩ : End β α)
  · rcases he with he | he
    · obtain ⟨r, hr⟩ := Option.isSome_iff_exists.mp he
      exact ⟨.left .act, _, fun ht => (by cases ht), by rw [Wire.step, hr]; rfl⟩
    · obtain ⟨r, hr⟩ := Option.isSome_iff_exists.mp he
      exact ⟨.left .arrive, _, fun ht => (by cases ht), by rw [Wire.step, hr]; rfl⟩
  by_cases hf : End.Busy (⟨q, qf, ff⟩ : End β γ)
  · rcases hf with hf | hf
    · obtain ⟨r, hr⟩ := Option.isSome_iff_exists.mp hf
      exact ⟨.right .act, _, fun ht => (by cases ht), by rw [Wire.step, hr]; rfl⟩
    · obtain ⟨r, hr⟩ := Option.isSome_iff_exists.mp hf
      exact ⟨.right .arrive, _, fun ht => (by cases ht), by rw [Wire.step, hr]; rfl⟩
  -- nothing is on the line: who has not returned gives up a read
  obtain ⟨hpe, hpf, hfe, hff⟩ := h.over he hf
  obtain ⟨rfl, rfl⟩ := List.append_eq_nil_iff.mp hpe
  obtain ⟨rfl, rfl⟩ := List.append_eq_nil_iff.mp hpf
  rcases hfe.of_nil with hp | ⟨k, hp⟩
  · rcases hff.of_nil with hq | ⟨k, hq⟩
    · exact absurd (by cases hp; cases hq; rfl) hfin
    · cases hq
      exact ⟨.right .timeout, _, fun _ => ⟨he, hf⟩, rfl⟩
  · cases hp
    exact ⟨.left .timeout, _, fun _ => ⟨he, hf⟩, rfl⟩

/-- The two ends are in step, with at most `r` moves left. -/
def Left (a : α) (c : γ) (r : Nat) (w : Wire β α γ) : Prop :=
  ∃ n m, InStep w.left w.right n m a c ∧
    2 * n + 2 * m + w.left.flight.length + w.right.flight.length = r

/-- Two programs that follow a script each alone play it together: whatever the
    order of their moves, they return what it says and leave nothing behind. -/
theorem follows_inevitably (hp : Follows n p es a) (hq : Follows m q (es.map .dual) c) :
    (Wire.runs p q).Inevitably Wire.Prompt (fun w => w.Finished a c) (.start p q) := by
  refine .of_left (I := Left a c) ?_ ?_ ⟨n, m, .inl ⟨rfl, es, hp, hq⟩, rfl⟩
  · rintro _ w x w' ⟨n, m, h, rfl⟩ - hok hstep
    cases x with
    | left mv =>
      obtain ⟨⟨e', out⟩, hmove, rfl⟩ := Option.map_eq_some_iff.mp hstep
      obtain ⟨n', hn', hlt⟩ := h.move hok hmove
      refine ⟨_, ?_, n', m, hn', rfl⟩
      simp only [End.length_flight_post]
      omega
    | right mv =>
      obtain ⟨⟨e', out⟩, hmove, rfl⟩ := Option.map_eq_some_iff.mp hstep
      obtain ⟨m', hm', hlt⟩ := h.symm.move (fun ht => (hok ht).symm) hmove
      refine ⟨_, ?_, n, m', hm'.symm, rfl⟩
      simp only [End.length_flight_post]
      omega
  · rintro _ w ⟨n, m, h, rfl⟩ hfin
    exact h.progress hfin

end Run

end Link
end LuaRtos
