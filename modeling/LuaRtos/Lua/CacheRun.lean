/-
  LuaRtos.Lua.CacheRun

  Runs of the cache: any gets and puts after `rotable_cache_init`, with a record
  of which entry each of them used.

  The record has the latest operation first.  A hit and a put use the entry that
  is at the head afterwards; a miss uses none.
-/

import LuaRtos.Lua.CacheList

namespace LuaRtos.Rotable

open LuaRtos.CLib

variable {T E K : Type}

/-- A call of the cache. -/
inductive CacheOp (T E K : Type) where
  | get (rotable : T) (key : K)
  | put (rotable : T) (entry : E)
deriving DecidableEq, Repr

/-- A call that was made, and the entry it used. -/
abbrev CacheEvent (T E K : Type) := CacheOp T E K × Option Slot

/-- The entries that were used, the latest first. -/
def uses (history : List (CacheEvent T E K)) : List Slot := history.filterMap Prod.snd

/-- A put of the pair of a table and a key. -/
def CacheEvent.IsPut (strkey : E → K) (p : T × K) (ev : CacheEvent T E K) : Prop :=
  ∃ e, ev.1 = .put p.1 e ∧ strkey e = p.2

/-- A get of the pair that found nothing. -/
def CacheEvent.IsMiss (p : T × K) (ev : CacheEvent T E K) : Prop :=
  ev = (.get p.1 p.2, none)

/-- The pair was missed, and has not been put since. -/
def MissedSince (strkey : E → K) (p : T × K) : List (CacheEvent T E K) → Prop
  | [] => False
  | ev :: older => ev.IsMiss p ∨ ¬ ev.IsPut strkey p ∧ MissedSince strkey p older

/-- Every put of the pair comes after a miss of it, without another put between. -/
def PutOnlyAfterMiss (strkey : E → K) (p : T × K) : List (CacheEvent T E K) → Prop
  | [] => True
  | ev :: older => PutOnlyAfterMiss strkey p older ∧
      (ev.IsPut strkey p → MissedSince strkey p older)

/-- What the cache owes after the calls of a history: the list holds every entry
    once, with its links, in the order of last use; a put would overwrite the
    one used the longest ago; and a pair put only after a miss is in it once. -/
structure CacheOk (strkey : E → K) (c : Cache T E) (history : List (CacheEvent T E K)) :
    Prop where
  list : ∃ l, c.Inv l ∧ Recent (uses history) l
  put : ∀ t e, ∃ s c', rotableCachePut c t e = .ok c' ∧
    (∀ x, (uses history).idxOf x ≤ (uses history).idxOf s) ∧
    c'.pair = Function.update c.pair s (some t, some e)
  once : ∀ p, PutOnlyAfterMiss strkey p history →
    ∀ s s', c.Holds strkey s p → c.Holds strkey s' p → s = s'

/-! ## The invariant -/

section Invariant

variable {strkey : E → K} {c : Cache T E} {history : List (CacheEvent T E K)}

/-- The invariant of the runs. -/
structure CacheInv (strkey : E → K) (c : Cache T E) (history : List (CacheEvent T E K)) :
    Prop where
  list : ∃ l, c.Inv l ∧ Recent (uses history) l
  filled : c.Filled
  missed : ∀ p, MissedSince strkey p history → ∀ s, ¬ c.Holds strkey s p
  once : ∀ p, PutOnlyAfterMiss strkey p history →
    ∀ s s', c.Holds strkey s p → c.Holds strkey s' p → s = s'

theorem cacheInv_init (strkey : E → K) :
    CacheInv strkey (rotableCacheInit true : Int × Cache T E).2 [] := by
  have hnone : ∀ s p, ¬ (rotableCacheInit true : Int × Cache T E).2.Holds strkey s p := by
    rintro s p ⟨e, hpair, -⟩
    cases hpair
  -- the list is the array in its order
  refine ⟨⟨List.finRange rotableCacheLength, ⟨⟨List.nodup_finRange _, ?_, ?_⟩,
    List.mem_finRange, rfl, rfl⟩, ?_⟩, nofun, nofun, fun p _ s s' hs => absurd hs (hnone s p)⟩
  · intro i x hx
    obtain ⟨hlt, rfl⟩ := List.getElem?_eq_some_iff.mp hx
    rw [List.length_finRange] at hlt
    by_cases hi : i + 1 < rotableCacheLength
    · simp [rotableCacheInit, hi]
    · simp [rotableCacheInit, hi]
  · intro i x y hx hy
    obtain ⟨hlt, rfl⟩ := List.getElem?_eq_some_iff.mp hx
    obtain ⟨hlt', rfl⟩ := List.getElem?_eq_some_iff.mp hy
    simp [rotableCacheInit]
  · exact List.pairwise_of_forall fun x y => by simp [uses]

/-- A call that changes no pair keeps what is held, and by whom. -/
theorem holds_congr {c' : Cache T E} (h : c'.pair = c.pair) (s : Slot) (p : T × K) :
    c'.Holds strkey s p ↔ c.Holds strkey s p := by
  rw [Cache.Holds, Cache.Holds, h]

/-- A get changes no pair, and uses no entry only if the pair is not held. -/
theorem CacheInv.get {c' : Cache T E} {t : T} {key : K} {used : Option Slot}
    (h : CacheInv strkey c history) (hpair : c'.pair = c.pair)
    (hlist : ∃ l, c'.Inv l ∧ Recent (uses (((.get t key, used) : CacheEvent T E K) :: history)) l)
    (hmiss : used = none → ∀ s, ¬ c.Holds strkey s (t, key)) :
    CacheInv strkey c' ((.get t key, used) :: history) := by
  refine ⟨hlist, h.filled.of_pair hpair, ?_, ?_⟩
  · intro p hp s hs
    rw [holds_congr hpair] at hs
    obtain hp | ⟨-, hp⟩ := hp
    · -- this get is the miss
      obtain ⟨⟨rfl, rfl⟩, hused⟩ : (t = p.1 ∧ key = p.2) ∧ used = none := by
        simpa [CacheEvent.IsMiss] using hp
      exact hmiss hused s hs
    · exact h.missed p hp s hs
  · intro p hp s s' hs hs'
    rw [holds_congr hpair] at hs hs'
    exact h.once p hp.1 s s' hs hs'

/-- A put makes one entry hold the pair it is for, and no entry another. -/
theorem CacheInv.put {c' : Cache T E} {t : T} {e : E} {used : Option Slot} {s₀ : Slot}
    (h : CacheInv strkey c history)
    (hpair : c'.pair = Function.update c.pair s₀ (some t, some e))
    (hlist : ∃ l, c'.Inv l ∧ Recent (uses (((.put t e, used) : CacheEvent T E K) :: history)) l) :
    CacheInv strkey c' ((.put t e, used) :: history) := by
  have hother : ∀ s, s ≠ s₀ → c'.pair s = c.pair s := by
    intro s hs
    rw [hpair, Function.update_of_ne hs]
  have hself : c'.pair s₀ = (some t, some e) := by rw [hpair, Function.update_self]
  -- the entry that was overwritten holds the pair of this put only
  have hput : ∀ p, c'.Holds strkey s₀ p →
      CacheEvent.IsPut strkey p ((.put t e, used) : CacheEvent T E K) := by
    rintro p ⟨e', he', hkey⟩
    obtain ⟨ht, he⟩ := Prod.mk.inj (hself.symm.trans he')
    obtain rfl := Option.some.inj ht
    obtain rfl := Option.some.inj he
    exact ⟨e, rfl, hkey⟩
  have hold : ∀ p s, s ≠ s₀ → c'.Holds strkey s p → c.Holds strkey s p := by
    rintro p s hs ⟨e', he', hkey⟩
    exact ⟨e', hother s hs ▸ he', hkey⟩
  refine ⟨hlist, h.filled.of_put hpair, ?_, ?_⟩
  · intro p hp s hs
    obtain hp | ⟨hnoput, hp⟩ := hp
    · cases hp
    · by_cases hss : s = s₀
      · exact hnoput (hput p (hss ▸ hs))
      · exact h.missed p hp s (hold p s hss hs)
  · intro p hp s s' hs hs'
    by_cases hss : s = s₀
    · by_cases hss' : s' = s₀
      · rw [hss, hss']
      · exact absurd (hold p s' hss' hs') (h.missed p (hp.2 (hput p (hss ▸ hs))) s')
    · by_cases hss' : s' = s₀
      · exact absurd (hold p s hss hs) (h.missed p (hp.2 (hput p (hss' ▸ hs'))) s)
      · exact h.once p hp.1 s s' (hold p s hss hs) (hold p s' hss' hs')

end Invariant

/-! ## The calls -/

section Runs

variable [DecidableEq T] [DecidableEq K] (strkey : E → K)

/-- One call, and the entry it used. -/
def CacheOp.run (c : Cache T E) : CacheOp T E K → Result (Option Slot × Cache T E)
  | .get rotable key => do
    let (value, c) ← rotableCacheGet strkey c rotable key
    pure (if value.isSome then c.first else none, c)
  | .put rotable entry => do
    let c ← rotableCachePut c rotable entry
    pure (c.first, c)

/-- The calls one after the other. -/
def runCache (c : Cache T E) (history : List (CacheEvent T E K)) :
    List (CacheOp T E K) → Result (Cache T E × List (CacheEvent T E K))
  | [] => pure (c, history)
  | op :: ops => do
    let (used, c) ← op.run strkey c
    runCache c ((op, used) :: history) ops

variable {strkey} {c : Cache T E} {history : List (CacheEvent T E K)}

/-- The step lemma: a call returns, and keeps the invariant. -/
theorem CacheInv.step (h : CacheInv strkey c history) (op : CacheOp T E K) :
    ∃ used c', op.run strkey c = .ok (used, c') ∧
      CacheInv strkey c' ((op, used) :: history) := by
  obtain ⟨l, hinv, hrecent⟩ := h.list
  cases op with
  | get t key =>
    obtain ⟨r, c', hget, hpair, ⟨rfl, hmiss, hinv'⟩ | ⟨k, s, e, hk, hs, hkey, rfl, hinv'⟩⟩ :=
      rotableCacheGet_cases strkey hinv h.filled (t, key)
    · exact ⟨none, c', by simp [CacheOp.run, hget], h.get hpair ⟨l, hinv', hrecent⟩ fun _ => hmiss⟩
    · -- a hit: the entry it used is at the head
      have hfirst : c'.first = some s := hinv'.first
      refine ⟨some s, c', by simp [CacheOp.run, hget, hfirst], h.get hpair ?_ nofun⟩
      exact ⟨_, hinv', hrecent.toFront hinv.links.nodup hk⟩
  | put t e =>
    -- the entry at the tail is the one a put overwrites
    obtain ⟨s, hlast⟩ := hinv.exists_last
    obtain ⟨c', hput, hinv', hpair⟩ := rotableCachePut_spec t e hinv hlast
    refine ⟨some s, c', ?_, h.put hpair ⟨_, hinv', hrecent.toFront hinv.links.nodup ?_⟩⟩
    · rw [CacheOp.run, hput, ok_bind, hinv'.first]
      rfl
    · rw [← hlast, List.getLast?_eq_getElem?]

/-- The run lemma. -/
theorem CacheInv.run (h : CacheInv strkey c history) (ops : List (CacheOp T E K)) :
    ∃ c' history', runCache strkey c history ops = .ok (c', history') ∧
      CacheInv strkey c' history' := by
  induction ops generalizing c history with
  | nil => exact ⟨c, history, rfl, h⟩
  | cons op ops ih =>
    obtain ⟨used, c₁, hrun, h₁⟩ := h.step op
    obtain ⟨c', history', hrest, h'⟩ := ih h₁
    refine ⟨c', history', ?_, h'⟩
    rw [runCache, hrun, ok_bind]
    exact hrest

end Runs

end LuaRtos.Rotable
