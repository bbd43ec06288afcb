/-
  LuaRtos.Lua.CacheList

  The list of the cache over any sequence of gets and puts: it holds every cache
  entry once, in the order of last use, and a pair of a table and a key that is
  put only after a miss is in it at most once.

  All three ways in which cache.c moves an entry to the head, from the middle,
  from the tail and for a put, are the same rearrangement `DLinked.toFront`.
-/

import LuaRtos.Lua.Cache
import Mathlib.Data.Fintype.Card

namespace LuaRtos.Rotable

open LuaRtos.CLib

variable {T E K : Type}

namespace Cache

/-! ## Writing one entry -/

section Fields

variable {c : Cache T E} {s x : Slot} {p : Option Slot} {f : CacheEntry T E → CacheEntry T E}

theorem modify_entries :
    (c.modify s f).entries x = if x = s then f (c.entries x) else c.entries x := by
  by_cases hx : x = s
  · subst hx
    simp [modify]
  · simp [modify, hx]

@[simp] theorem setNext_first : (c.setNext s p).first = c.first := rfl
@[simp] theorem setPrevious_first : (c.setPrevious s p).first = c.first := rfl

theorem setNext_entries : (c.setNext s p).entries x =
    if x = s then { c.entries x with next := p } else c.entries x := modify_entries

theorem setPrevious_entries : (c.setPrevious s p).entries x =
    if x = s then { c.entries x with previous := p } else c.entries x := modify_entries

@[simp] theorem setNext_next : ((c.setNext s p).entries x).next =
    if x = s then p else (c.entries x).next := by
  rw [setNext_entries]
  split <;> rfl

@[simp] theorem setNext_previous : ((c.setNext s p).entries x).previous =
    (c.entries x).previous := by
  rw [setNext_entries]
  split <;> rfl

@[simp] theorem setPrevious_next : ((c.setPrevious s p).entries x).next =
    (c.entries x).next := by
  rw [setPrevious_entries]
  split <;> rfl

@[simp] theorem setPrevious_previous : ((c.setPrevious s p).entries x).previous =
    if x = s then p else (c.entries x).previous := by
  rw [setPrevious_entries]
  split <;> rfl

/-- What an entry caches: its table and its entry there. -/
def pair (c : Cache T E) (s : Slot) : Option T × Option E :=
  ((c.entries s).rotable, (c.entries s).entry)

@[simp] theorem setNext_pair : (c.setNext s p).pair = c.pair := by
  funext x
  simp only [pair, setNext_entries]
  split <;> rfl

@[simp] theorem setPrevious_pair : (c.setPrevious s p).pair = c.pair := by
  funext x
  simp only [pair, setPrevious_entries]
  split <;> rfl

end Fields

/-! ## The list -/

/-- The links run through `l`, which holds every entry, from `first` to `last`. -/
structure Inv (c : Cache T E) (l : List Slot) : Prop where
  links : DLinked (fun s => (c.entries s).next) (fun s => (c.entries s).previous) l
  all : ∀ s, s ∈ l
  first : c.first = l[0]?
  last : c.last = l.getLast?

theorem Inv.of_links {c c' : Cache T E} {l : List Slot} (h : c.Inv l)
    (hnext : ∀ s, (c'.entries s).next = (c.entries s).next)
    (hprev : ∀ s, (c'.entries s).previous = (c.entries s).previous)
    (hfirst : c'.first = c.first) (hlast : c'.last = c.last) : c'.Inv l := by
  refine ⟨?_, h.all, hfirst.trans h.first, hlast.trans h.last⟩
  rw [funext hnext, funext hprev]
  exact h.links

theorem Inv.length {c : Cache T E} {l : List Slot} (h : c.Inv l) :
    l.length = rotableCacheLength := by
  have hall : l.toFinset = Finset.univ :=
    Finset.eq_univ_iff_forall.mpr fun s => List.mem_toFinset.mpr (h.all s)
  rw [← List.toFinset_card_of_nodup h.links.nodup, hall, Finset.card_univ]
  exact Fintype.card_fin _

theorem Inv.exists_last {c : Cache T E} {l : List Slot} (h : c.Inv l) :
    ∃ s, l.getLast? = some s := by
  have hne : l ≠ [] := List.ne_nil_of_length_pos (by rw [h.length]; decide)
  exact ⟨_, List.getLast?_eq_getLast_of_ne_nil hne⟩

/-- The last entry once the entry `k + 1` has gone to the front. -/
theorem getLast?_toFront {l : List Slot} {k : Nat} (a : Slot) (h : k + 1 < l.length) :
    (a :: l.eraseIdx (k + 1)).getLast? = if k + 2 < l.length then l.getLast? else l[k]? := by
  have hlen : (a :: l.eraseIdx (k + 1)).length = l.length := by
    rw [List.length_cons, List.length_eraseIdx_of_lt h]
    omega
  rw [List.getLast?_eq_getElem?, hlen, List.getLast?_eq_getElem?,
    show l.length - 1 = l.length - 2 + 1 by omega, List.getElem?_cons_succ,
    List.getElem?_eraseIdx]
  by_cases hk : k + 2 < l.length
  · rw [if_neg (by omega), if_pos hk]
  · rw [if_pos (by omega), if_neg hk, show l.length - 2 = k by omega]

/-- An entry behind the first: what stands before it, and what is at the head. -/
theorem Inv.before {c : Cache T E} {l : List Slot} {k : Nat} {entry : Slot} (h : c.Inv l)
    (hk : l[k + 1]? = some entry) : ∃ f p, l[0]? = some f ∧ l[k]? = some p ∧
      c.first = some f ∧ (c.entries entry).previous = some p ∧ entry ≠ f ∧ entry ≠ p := by
  have hlt : k + 1 < l.length := (List.getElem?_eq_some_iff.mp hk).1
  have hf : l[0]? = some l[0] := List.getElem?_eq_getElem (by omega)
  have hp : l[k]? = some l[k] := List.getElem?_eq_getElem (by omega)
  refine ⟨l[0], l[k], hf, hp, h.first.trans hf, h.links.prev_eq hp hk, ?_, ?_⟩
  · -- two places of one list hold two entries
    intro he
    have := h.links.idx_inj hk (he ▸ hf)
    omega
  · intro he
    have := h.links.idx_inj hk (he ▸ hp)
    omega

theorem mem_toFront {l : List Slot} {k : Nat} {a x : Slot} (ha : l[k]? = some a) (hx : x ∈ l) :
    x ∈ a :: l.eraseIdx k := by
  obtain ⟨hlt, rfl⟩ := List.getElem?_eq_some_iff.mp ha
  exact (List.getElem_cons_eraseIdx_perm hlt).mem_iff.mpr hx

end Cache

/-! ## Moves to the head -/

section Moves

variable {c : Cache T E} {l : List Slot} {entry : Slot} {k : Nat}

@[simp] theorem nonNull_some (s : Slot) : nonNull (some s) = .ok s := rfl

/-- The move from the middle of the list. -/
theorem promote_middle (h : c.Inv l) (hk : l[k + 1]? = some entry) (hlt : k + 2 < l.length) :
    ∃ c', promote c entry = .ok c' ∧ c'.Inv (entry :: l.eraseIdx (k + 1)) ∧ c'.pair = c.pair := by
  obtain ⟨f, p, hf, hp, hfirst', hprev, hef, hep⟩ := h.before hk
  obtain ⟨n, hn⟩ : ∃ n, l[k + 2]? = some n := ⟨_, List.getElem?_eq_getElem hlt⟩
  have hnext : (c.entries entry).next = some n := (h.links.next_eq hk).trans hn
  have hnf : n ≠ f := fun he => by have := h.links.idx_inj hn (he ▸ hf); omega
  have hfirst : c.first ≠ some entry := by
    rw [h.first, hf]
    simpa using hef.symm
  have hlast : c.last ≠ some entry := by
    rw [h.last, List.getLast?_eq_getElem?]
    intro he
    have := h.links.idx_inj hk he
    omega
  rw [promote, if_neg hfirst, if_pos hlast]
  simp only [hprev, hnext, hfirst', nonNull_some, ok_bind, Cache.setNext_next,
    Cache.setNext_previous, Cache.setPrevious_first, Cache.setNext_first, if_neg hep,
    pure_eq_ok, Except.ok.injEq, exists_eq_left']
  -- the links of the entry, of its neighbours and of the old head, then the rest
  refine ⟨⟨h.links.toFront hf hp hk ?_ ?_ ?_ ?_ ?_ ?_, ?_, rfl, ?_⟩, ?_⟩
  · simp
  · simp [hn, hep.symm]
  · intro x hxa hxp
    simp [hxa, hxp]
  · simp
  · intro n' hn'
    obtain rfl : n' = n := Option.some.inj (hn'.symm.trans hn)
    simp [hnf]
  · intro x _ hxf hxn
    have hxn : x ≠ n := fun he => hxn (he ▸ hn)
    simp [hxf, hxn]
  · exact fun s => Cache.mem_toFront hk (h.all s)
  · rw [Cache.getLast?_toFront entry (by omega), if_pos hlt]
    exact h.last
  · show (Cache.setNext _ _ _).pair = _
    simp

/-- The move of the last entry. -/
theorem promote_tail (h : c.Inv l) (hk : l[k + 1]? = some entry) (hlen : k + 2 = l.length) :
    ∃ c', promote c entry = .ok c' ∧ c'.Inv (entry :: l.eraseIdx (k + 1)) ∧ c'.pair = c.pair := by
  obtain ⟨f, p, hf, hp, hfirst', hprev, hef, hep⟩ := h.before hk
  have hn : l[k + 2]? = none := List.getElem?_eq_none (by omega)
  have hfirst : c.first ≠ some entry := by
    rw [h.first, hf]
    simpa using hef.symm
  have hlast : c.last = some entry := by
    rw [h.last, List.getLast?_eq_getElem?, ← hk, ← hlen]
    rfl
  rw [promote, if_neg hfirst, if_neg (not_not.mpr hlast)]
  simp only [hprev, hfirst', hlast, nonNull_some, ok_bind, Cache.setNext_previous,
    Cache.setPrevious_first, Cache.setNext_first, pure_eq_ok, Except.ok.injEq, exists_eq_left']
  refine ⟨⟨h.links.toFront hf hp hk ?_ ?_ ?_ ?_ ?_ ?_, ?_, rfl, ?_⟩, ?_⟩
  · simp
  · simp [hn, hep.symm]
  · intro x hxa hxp
    simp [hxa, hxp]
  · simp
  · exact fun n' hn' => absurd (hn.symm.trans hn') nofun
  · intro x hxa hxf _
    simp [hxa, hxf]
  · exact fun s => Cache.mem_toFront hk (h.all s)
  · -- `rotable_cache.last` is now the entry before
    rw [Cache.getLast?_toFront entry (by omega), if_neg (by omega), hp]
    rfl
  · show (Cache.setPrevious _ _ _).pair = _
    simp only [Cache.setPrevious_pair, Cache.setNext_pair]
    show (Cache.setNext _ _ _).pair = _
    rw [Cache.setNext_pair]

/-- An entry is promoted: it goes to the head of the list, and nothing else changes. -/
theorem promote_spec (h : c.Inv l) (hk : l[k]? = some entry) :
    ∃ c', promote c entry = .ok c' ∧ c'.Inv (entry :: l.eraseIdx k) ∧ c'.pair = c.pair := by
  cases k with
  | zero =>
    -- the entry is at the head already, and `promote` returns at once
    have hfirst : c.first = some entry := h.first.trans hk
    refine ⟨c, by rw [promote, if_pos hfirst]; rfl, ?_, rfl⟩
    have hl : entry :: l.eraseIdx 0 = l := by
      cases l with
      | nil => cases hk
      | cons a l =>
        obtain rfl : a = entry := Option.some.inj hk
        rfl
    rwa [hl]
  | succ k =>
    have hlt : k + 1 < l.length := (List.getElem?_eq_some_iff.mp hk).1
    by_cases hmid : k + 2 < l.length
    · exact promote_middle h hk hmid
    · exact promote_tail h hk (by omega)

/-- A put takes the last entry to the head, for its pair. -/
theorem rotableCachePut_spec (rotable : T) (e : E) (h : c.Inv l)
    (hlast : l.getLast? = some entry) :
    ∃ c', rotableCachePut c rotable e = .ok c' ∧
      c'.Inv (entry :: l.eraseIdx (l.length - 1)) ∧
      c'.pair = Function.update c.pair entry (some rotable, some e) := by
  have hlen : l.length = rotableCacheLength := h.length
  have hsize : rotableCacheLength = 8 := rfl
  obtain ⟨k, hkl⟩ : ∃ k, k + 2 = l.length := ⟨6, by omega⟩
  have hk : l[k + 1]? = some entry := by
    rw [← hlast, List.getLast?_eq_getElem?, ← hkl]
    rfl
  obtain ⟨f, p, hf, hp, hfirst', hprev, hef, hep⟩ := h.before hk
  have hn : l[k + 2]? = none := List.getElem?_eq_none (by omega)
  have hlast' : c.last = some entry := h.last.trans hlast
  rw [show l.length - 1 = k + 1 by omega]
  simp only [rotableCachePut, hprev, hfirst', hlast', nonNull_some, ok_bind, pure_eq_ok,
    Except.ok.injEq, exists_eq_left']
  refine ⟨⟨h.links.toFront hf hp hk ?_ ?_ ?_ ?_ ?_ ?_, ?_, rfl, ?_⟩, ?_⟩
  · simp [Cache.modify_entries, hep]
  · simp [Cache.modify_entries, hn, hep.symm]
  · intro x hxa hxp
    simp [Cache.modify_entries, hxa, hxp]
  · simp [Cache.modify_entries, hef.symm]
  · exact fun n' hn' => absurd (hn.symm.trans hn') nofun
  · intro x hxa hxf _
    simp [Cache.modify_entries, hxa, hxf]
  · exact fun s => Cache.mem_toFront hk (h.all s)
  · -- the entry before is the new tail
    rw [Cache.getLast?_toFront entry (by omega), if_neg (by omega), hp]
  · -- the links are written first, and they are no part of a pair
    have hlinks : ((((c.setNext entry (some f)).setPrevious entry none).setPrevious f
        (some entry)).setNext p none).pair = c.pair := by simp
    funext x
    by_cases hx : x = entry
    · subst hx
      simp [Cache.pair, Cache.modify_entries]
    · rw [Function.update_of_ne hx, ← hlinks]
      simp [Cache.pair, Cache.modify_entries, hx]

end Moves

/-! ## A get -/

/-- The entry caches an entry of this table with this key. -/
def Cache.Holds (strkey : E → K) (c : Cache T E) (s : Slot) (p : T × K) : Prop :=
  ∃ e, c.pair s = (some p.1, some e) ∧ strkey e = p.2

/-- Where there is a table there is an entry of it. -/
def Cache.Filled (c : Cache T E) : Prop :=
  ∀ s t, (c.pair s).1 = some t → ∃ e, (c.pair s).2 = some e

theorem Cache.Filled.of_pair {c c' : Cache T E} (h : c.Filled) (hpair : c'.pair = c.pair) :
    c'.Filled := by
  rw [Cache.Filled, hpair]
  exact h

theorem Cache.Filled.of_put {c c' : Cache T E} {s₀ : Slot} {t : T} {e : E} (h : c.Filled)
    (hpair : c'.pair = Function.update c.pair s₀ (some t, some e)) : c'.Filled := by
  intro s t' ht'
  rw [hpair] at ht' ⊢
  by_cases hs : s = s₀
  · subst hs
    exact ⟨e, by rw [Function.update_self]⟩
  · rw [Function.update_of_ne hs] at ht' ⊢
    exact h s t' ht'

section Get

variable [DecidableEq T] [DecidableEq K] {strkey : E → K} {c : Cache T E} {l : List Slot}

/-- The test of the lookup, as a function of what the entry caches. -/
def holds (strkey : E → K) (c : Cache T E) (p : T × K) (s : Slot) : Bool :=
  decide ((c.pair s).1 = some p.1) && decide ((c.pair s).2.map strkey = some p.2)

theorem holds_iff {p : T × K} {s : Slot} : holds strkey c p s ↔ c.Holds strkey s p := by
  simp only [holds, Bool.and_eq_true, decide_eq_true_eq, Option.map_eq_some_iff, Cache.Holds]
  constructor
  · rintro ⟨ht, e, he, hkey⟩
    exact ⟨e, Prod.ext ht he, hkey⟩
  · rintro ⟨e, hpair, hkey⟩
    rw [hpair]
    exact ⟨rfl, e, rfl, hkey⟩

theorem cached_eq (hfilled : c.Filled) (p : T × K) (s : Slot) :
    cached strkey c p.1 p.2 s = .ok (holds strkey c p s) := by
  have hpair : c.pair s = ((c.entries s).rotable, (c.entries s).entry) := rfl
  unfold cached holds
  split
  · next ht =>
    obtain ⟨e, he⟩ := hfilled s p.1 ht
    rw [show (c.entries s).entry = some e from he]
    simp [hpair, ht, show (c.entries s).entry = some e from he]
  · next ht => simp [hpair, ht]

/-- What a get does: nothing is found and nothing is moved, or the first entry
    that caches the pair goes to the head. -/
theorem rotableCacheGet_cases (strkey : E → K) (h : c.Inv l) (hfilled : c.Filled) (p : T × K) :
    ∃ r c', rotableCacheGet strkey c p.1 p.2 = .ok (r, c') ∧ c'.pair = c.pair ∧
      ((r = none ∧ (∀ s, ¬ c.Holds strkey s p) ∧ c'.Inv l) ∨
        ∃ k s e, l[k]? = some s ∧ c.pair s = (some p.1, some e) ∧ strkey e = p.2 ∧
          r = some e ∧ c'.Inv (s :: l.eraseIdx k)) := by
  have hwalk : walk (fun s => (c.entries s).next) (cached strkey c p.1 p.2)
      rotableCacheLength c.first = .ok (l.find? (holds strkey c p)) := by
    rw [h.first]
    exact h.links.walk_eq (fun s _ => cached_eq hfilled p s) (by rw [h.length]; omega)
  cases hfind : l.find? (holds strkey c p) with
  | none =>
    rw [hfind] at hwalk
    refine ⟨none, { c with miss := c.miss + 1 }, ?_, rfl, .inl ⟨rfl, fun s hs => ?_, ?_⟩⟩
    · rw [rotableCacheGet, hwalk]
      rfl
    · -- the walk has passed every entry
      exact absurd (holds_iff.mpr hs) (List.find?_eq_none.mp hfind s (h.all s))
    · exact h.of_links (fun _ => rfl) (fun _ => rfl) rfl rfl
  | some s =>
    rw [hfind] at hwalk
    obtain ⟨e, hpair, hkey⟩ := holds_iff.mp (List.find?_some hfind)
    obtain ⟨k, hk⟩ := List.getElem?_of_mem (List.mem_of_find?_eq_some hfind)
    -- counting the hit does not touch the list
    have hcount : ∃ c₁, c₁ = ({ c with hit := c.hit + 1 } : Cache T E).modify s
        (fun e => { e with used := e.used + 1 }) ∧ c₁.Inv l ∧ c₁.pair = c.pair := by
      refine ⟨_, rfl, h.of_links (fun x => ?_) (fun x => ?_) rfl rfl, funext fun x => ?_⟩
      · rw [Cache.modify_entries]
        split <;> rfl
      · rw [Cache.modify_entries]
        split <;> rfl
      · simp only [Cache.pair, Cache.modify_entries]
        split <;> rfl
    obtain ⟨c₁, hc₁, hinv₁, hpair₁⟩ := hcount
    obtain ⟨c', hpromote, hinv', hpair'⟩ := promote_spec hinv₁ hk
    have hsame : c'.pair = c.pair := hpair'.trans hpair₁
    refine ⟨some e, c', ?_, hsame, .inr ⟨k, s, e, hk, hpair, hkey, rfl, hinv'⟩⟩
    rw [rotableCacheGet, hwalk, ok_bind]
    simp only [← hc₁, hpromote, ok_bind, pure_eq_ok]
    have hentry : (c'.entries s).entry = some e := by
      have hps : c'.pair s = (some p.1, some e) := by rw [hsame, hpair]
      exact congrArg Prod.snd hps
    rw [hentry]

end Get

end LuaRtos.Rotable
