/-
  LuaRtos.CLib.SList

  Singly linked lists that are searched and changed through a pointer to a
  pointer: `for (p = &head; *p; p = &(*p)->next) if (test) ...`, and then a
  write to `*p`.

  Such a pointer is a `Link`: to the head of the list, or to the link field of a
  node.  After the nodes of `pre` it is `linkAfter pre`, and a write there keeps
  `pre` and replaces what follows.
-/

import LuaRtos.CLib.Basic
import Mathlib.Data.List.TakeWhile
import Mathlib.Logic.Function.Basic

namespace LuaRtos.CLib

variable {ι : Type}

/-- A pointer to a pointer of a list. -/
inductive Link (ι : Type) where
  | head
  | next (node : ι)
deriving DecidableEq, Repr

/-- The head of a list, and the link fields of all nodes there are. -/
structure SList (ι : Type) where
  head : Option ι
  next : ι → Option ι

/-- The links from `p` on run through the nodes of `l`, and end. -/
def Spells (next : ι → Option ι) : Option ι → List ι → Prop
  | p, [] => p = none
  | p, x :: l => p = some x ∧ Spells next (next x) l

/-- The link that the nodes of `l` lead to from `p`. -/
def linkFrom (p : Link ι) (l : List ι) : Link ι := l.foldl (fun _ x => .next x) p

/-- The link behind the nodes of `l`, which are the first of the list. -/
def linkAfter (l : List ι) : Link ι := linkFrom .head l

/-- The node whose field the link is. -/
def Link.owner : Link ι → Option ι
  | .head => none
  | .next x => some x

namespace SList

/-- `*p`. -/
def get (s : SList ι) : Link ι → Option ι
  | .head => s.head
  | .next x => s.next x

/-- `*p = v`. -/
def set [DecidableEq ι] (s : SList ι) (p : Link ι) (v : Option ι) : SList ι :=
  match p with
  | .head => { s with head := v }
  | .next x => { s with next := Function.update s.next x v }

/-- `for (; *p; p = &(*p)->next) if (stop(*p)) break;`. -/
def seek (s : SList ι) (stop : ι → Bool) : Nat → Link ι → Result (Link ι)
  | 0, _ => throw .diverged
  | fuel + 1, p =>
    match s.get p with
    | none => pure p
    | some x => if stop x then pure p else seek s stop fuel (.next x)

/-- The list runs through `l`. -/
def Is (s : SList ι) (l : List ι) : Prop := Spells s.next s.head l

end SList

section Links

variable {next next' : ι → Option ι} {p : Option ι} {l l' : List ι} {s : SList ι}

/-- Only the links of the nodes that are met matter. -/
theorem Spells.congr (h : Spells next p l) (hnext : ∀ x ∈ l, next' x = next x) :
    Spells next' p l := by
  induction l generalizing p with
  | nil => exact h
  | cons x l ih =>
    obtain ⟨hp, hl⟩ := h
    refine ⟨hp, ?_⟩
    rw [hnext x List.mem_cons_self]
    exact ih hl fun y hy => hnext y (List.mem_cons_of_mem _ hy)

theorem Spells.head_eq (h : Spells next p l) : p = l.head? := by
  cases l with
  | nil => exact h
  | cons x l => exact h.1

/-- The rest of the list begins at the link of the node before. -/
theorem Spells.tail {pre post : List ι} {x : ι} (h : Spells next p (pre ++ x :: post)) :
    Spells next (next x) post := by
  induction pre generalizing p with
  | nil => exact h.2
  | cons y pre ih => exact ih h.2

/-- There is only one list that the links run through. -/
theorem Spells.unique (h : Spells next p l) (h' : Spells next p l') : l = l' := by
  induction l generalizing p l' with
  | nil =>
    cases l' with
    | nil => rfl
    | cons y l' =>
      obtain ⟨hp, -⟩ := h'
      cases hp.symm.trans h
  | cons x l ih =>
    obtain ⟨rfl, hl⟩ := h
    cases l' with
    | nil => cases h'
    | cons y l' =>
      obtain ⟨hxy, hl'⟩ := h'
      obtain rfl := Option.some.inj hxy
      rw [ih hl hl']

theorem linkFrom_cons (q : Link ι) (x : ι) (l : List ι) :
    linkFrom q (x :: l) = linkFrom (.next x) l := rfl

/-- The node whose field is reached is one of the nodes passed, or the first one. -/
theorem owner_linkFrom (q : Link ι) (l : List ι) :
    (linkFrom q l).owner = q.owner ∨ ∃ x ∈ l, (linkFrom q l).owner = some x := by
  induction l generalizing q with
  | nil => exact .inl rfl
  | cons x l ih =>
    rw [linkFrom_cons]
    obtain h | ⟨y, hy, h⟩ := ih (.next x)
    · exact .inr ⟨x, List.mem_cons_self, h⟩
    · exact .inr ⟨y, List.mem_cons_of_mem _ hy, h⟩

theorem owner_linkAfter {x : ι} (h : (linkAfter l).owner = some x) : x ∈ l := by
  obtain h' | ⟨y, hy, h'⟩ := owner_linkFrom .head l
  · cases h'.symm.trans h
  · obtain rfl := Option.some.inj (h'.symm.trans h)
    exact hy

namespace SList

/-- What follows the nodes that were passed. -/
theorem get_linkFrom {q : Link ι} {pre post : List ι}
    (h : Spells s.next (s.get q) (pre ++ post)) :
    Spells s.next (s.get (linkFrom q pre)) post := by
  induction pre generalizing q with
  | nil => exact h
  | cons x pre ih =>
    rw [linkFrom_cons]
    exact ih h.2

/-- The search stops behind the nodes that do not pass the test. -/
theorem seek_linkFrom {stop : ι → Bool} {q : Link ι} {pre post : List ι} {fuel : Nat}
    (h : Spells s.next (s.get q) (pre ++ post)) (hpre : ∀ x ∈ pre, stop x = false)
    (hpost : ∀ x ∈ post.head?, stop x = true) (hfuel : pre.length < fuel) :
    s.seek stop fuel q = .ok (linkFrom q pre) := by
  induction pre generalizing q fuel with
  | nil =>
    obtain ⟨fuel, rfl⟩ := Nat.exists_eq_succ_of_ne_zero (Nat.ne_zero_of_lt hfuel)
    have hget : s.get q = post.head? := h.head_eq
    cases hhead : post.head? with
    | none => simp [seek, hget, hhead, linkFrom]
    | some x => simp [seek, hget, hhead, hpost x hhead, linkFrom]
  | cons x pre ih =>
    obtain ⟨fuel, rfl⟩ := Nat.exists_eq_succ_of_ne_zero (Nat.ne_zero_of_lt hfuel)
    obtain ⟨hget, hrest⟩ := h
    rw [List.length_cons] at hfuel
    rw [seek, hget]
    simp only [hpre x List.mem_cons_self, Bool.false_eq_true, if_false]
    exact ih hrest (fun y hy => hpre y (List.mem_cons_of_mem _ hy)) (by omega)

theorem seek_linkAfter {stop : ι → Bool} {pre post : List ι} {fuel : Nat}
    (h : s.Is (pre ++ post)) (hpre : ∀ x ∈ pre, stop x = false)
    (hpost : ∀ x ∈ post.head?, stop x = true) (hfuel : pre.length < fuel) :
    s.seek stop fuel .head = .ok (linkAfter pre) :=
  seek_linkFrom h hpre hpost hfuel

/-- A walk that stops at the first element that does not meet `p`. -/
theorem seek_takeWhile {stop p : ι → Bool} {fuel : Nat} (h : s.Is l)
    (hstop : ∀ x ∈ l, stop x = !p x) (hfuel : l.length < fuel) :
    s.seek stop fuel .head = .ok (linkAfter (l.takeWhile p)) := by
  have hsplit : l.takeWhile p ++ l.dropWhile p = l := List.takeWhile_append_dropWhile
  rw [← hsplit] at h
  refine seek_linkAfter h (fun x hx => ?_) (fun x hx => ?_) ?_
  · rw [hstop x (List.takeWhile_subset p hx), List.mem_takeWhile_imp hx]
    rfl
  · have hmem : x ∈ l := (List.dropWhile_sublist p).subset (List.mem_of_mem_head? hx)
    have hnot : p x = false := by
      have hhead := List.head?_dropWhile_not p l
      rw [show (List.dropWhile p l).head? = some x from hx] at hhead
      exact hhead
    rw [hstop x hmem, hnot]
    rfl
  · exact Nat.lt_of_le_of_lt (List.takeWhile_sublist p).length_le hfuel

theorem get_linkAfter {pre post : List ι} (h : s.Is (pre ++ post)) :
    s.get (linkAfter pre) = post.head? :=
  (get_linkFrom (q := .head) h).head_eq

variable [DecidableEq ι]

/-- A write changes no link but that of the owner. -/
theorem set_next {q : Link ι} {v : Option ι} {x : ι} (h : q.owner ≠ some x) :
    (s.set q v).next x = s.next x := by
  cases q with
  | head => rfl
  | next y =>
    refine Function.update_of_ne (fun hxy => h ?_) _ _
    rw [hxy, Link.owner]

theorem get_set_self (q : Link ι) (v : Option ι) : (s.set q v).get q = v := by
  cases q with
  | head => rfl
  | next x => exact Function.update_self ..

theorem get_set_of_ne {q q' : Link ι} (v : Option ι) (h : q.owner ≠ q'.owner) :
    (s.set q' v).get q = s.get q := by
  cases q with
  | head =>
    cases q' with
    | head => exact absurd rfl h
    | next y => rfl
  | next x => exact set_next h.symm

theorem set_linkFrom {q : Link ι} {v : Option ι} {pre post post' : List ι}
    (h : Spells s.next (s.get q) (pre ++ post)) (hv : Spells s.next v post')
    (hnodup : pre.Nodup) (hq : ∀ x ∈ q.owner, x ∉ pre ∧ x ∉ post')
    (hpost' : ∀ x ∈ pre, x ∉ post') :
    Spells (s.set (linkFrom q pre) v).next ((s.set (linkFrom q pre) v).get q)
      (pre ++ post') := by
  induction pre generalizing q with
  | nil =>
    show Spells (s.set q v).next ((s.set q v).get q) post'
    rw [get_set_self]
    exact hv.congr fun x hx => set_next fun howner => (hq x howner).2 hx
  | cons x pre ih =>
    obtain ⟨hx, hrest⟩ := h
    obtain ⟨hxpre, hnodup⟩ := List.nodup_cons.mp hnodup
    rw [linkFrom_cons]
    refine ⟨?_, ?_⟩
    · -- the first link is not the one that is written
      rw [get_set_of_ne, hx]
      intro heq
      obtain h | ⟨y, hy, h⟩ := owner_linkFrom (.next x) pre
      · exact (hq x (heq.trans h)).1 List.mem_cons_self
      · exact (hq y (heq.trans h)).1 (List.mem_cons_of_mem _ hy)
    · refine ih (q := .next x) hrest hnodup ?_ fun y hy => hpost' y (List.mem_cons_of_mem _ hy)
      rintro y ⟨⟩
      exact ⟨hxpre, hpost' x List.mem_cons_self⟩

/-- A write behind the first nodes keeps them, and lets the new rest follow. -/
theorem set_linkAfter {v : Option ι} {pre post post' : List ι} (h : s.Is (pre ++ post))
    (hv : Spells s.next v post') (hnodup : (pre ++ post').Nodup) :
    (s.set (linkAfter pre) v).Is (pre ++ post') := by
  obtain ⟨hpre, -, hdisjoint⟩ := List.nodup_append.mp hnodup
  exact set_linkFrom h hv hpre nofun fun x hx hx' => hdisjoint x hx x hx' rfl

end SList
end Links

end LuaRtos.CLib
