/-
  LuaRtos.Lua.RotableCache

  Where a lookup with the cache gives what the linear scan gives, after any
  history of lookups.

  What is cached is right: an entry of the cache is the one that the scan of its
  table finds for its key.  But on a hit `*ppos` is not set, and where the key is
  not in the table `luaR_auxfind` answers with the NULL of the cache.
-/

import LuaRtos.Lua.Rotable
import LuaRtos.Lua.CacheRun

namespace LuaRtos.Rotable

open LuaRtos.CLib

/-! ## The scan -/

section Scan

variable {test : Nat → LuaRKey → Bool} {keys : List LuaRKey} {i j m : Nat}

/-- The entry a scan finds passes the test, and its index is the count. -/
theorem scan_found (h : scan test keys i = (some j, m)) :
    m = j ∧ i ≤ j ∧ ∃ key, keys[j - i]? = some key ∧ test j key := by
  induction keys generalizing i with
  | nil => cases h
  | cons key rest ih =>
    rw [scan] at h
    split at h
    · cases h
    · split at h
      · next htest =>
        obtain ⟨hj, rfl⟩ := Prod.mk.inj h
        obtain rfl := Option.some.inj hj
        exact ⟨rfl, le_rfl, key, by simp, htest⟩
      · -- the rest is counted from one more
        obtain ⟨hm, hle, key', hkey, htest⟩ := ih h
        refine ⟨hm, by omega, key', ?_, htest⟩
        rw [show j - i = j - (i + 1) + 1 by omega]
        exact hkey

theorem isKey_iff {key : LuaRKey} {k : List Byte} : key.isKey k ↔ key = .str k := by
  cases key with
  | str s =>
    simp only [LuaRKey.isKey, LuaRKey.len, LuaRKey.strkey, Bool.and_eq_true, decide_eq_true_eq,
      Option.map_some, Option.some.injEq, List.take_length, LuaRKey.str.injEq]
    constructor
    · rintro ⟨hlen, htake⟩
      have hlen : s.length = k.length := Int.ofNat_inj.mp (of_decide_eq_true hlen)
      rwa [← hlen, List.take_length] at htake
    · rintro rfl
      simp
  | num n => simp [LuaRKey.isKey, LuaRKey.len, LuaRKey.strkey]
  | nil => simp [LuaRKey.isKey, LuaRKey.len, LuaRKey.strkey]

variable {T : Type} {tables : T → List LuaRKey} {t luaRotable : T} {k : List Byte}

/-- Both loops find the same: what matches a string is a string. -/
theorem scanGlobal_eq : scanGlobal tables t k = scanString tables t k := by
  have htest : (fun (_ : Nat) (key : LuaRKey) => key.isKey k) =
      fun _ key => key.isString && key.isKey k := by
    funext _ key
    cases hkey : key.isKey k with
    | false => simp
    | true => simp [isKey_iff.mp hkey, LuaRKey.isString]
  rw [scanGlobal, scanString, htest]

theorem scanString_found (h : scanString tables t k = (some j, m)) :
    m = j ∧ entryKey tables (t, j) = some k := by
  obtain ⟨hm, -, key, hkey, htest⟩ := scan_found h
  rw [Bool.and_eq_true, isKey_iff] at htest
  refine ⟨hm, ?_⟩
  simp only [Nat.sub_zero] at hkey
  simp [entryKey, hkey, htest.2, LuaRKey.strkey]

end Scan

/-! ## The invariant -/

section Lookups

variable {T : Type} {tables : T → List LuaRKey} {luaRotable : T} {c c' : Cache T (T × Nat)}

/-- The list is in order, and what is cached is what the scan finds. -/
structure Sound (tables : T → List LuaRKey) (c : Cache T (T × Nat)) : Prop where
  list : ∃ l, c.Inv l
  filled : c.Filled
  correct : ∀ s t e, c.pair s = (some t, some e) →
    ∃ k i, e = (t, i) ∧ entryKey tables e = some k ∧ (scanString tables t k).1 = some i

theorem Sound.init (tables : T → List LuaRKey) : Sound tables (rotableCacheInit true).2 := by
  have h := cacheInv_init (T := T) (entryKey tables)
  obtain ⟨l, hinv, -⟩ := h.list
  exact ⟨⟨l, hinv⟩, h.filled, nofun⟩

/-- What a hit returns is where the scan finds the key. -/
theorem Sound.hit (h : Sound tables c) {s : Slot} {t : T} {e : T × Nat} {k : List Byte}
    (hpair : c.pair s = (some t, some e)) (hkey : entryKey tables e = some k) :
    ∃ i, e = (t, i) ∧ scanString tables t k = (some i, i) := by
  obtain ⟨k', i, rfl, hk', hscan⟩ := h.correct s t e hpair
  obtain rfl : k = k' := Option.some.inj (hkey.symm.trans hk')
  have hfull : scanString tables t k = (some i, (scanString tables t k).2) := Prod.ext hscan rfl
  rw [(scanString_found hfull).1] at hfull
  exact ⟨i, rfl, hfull⟩

/-- A put of what the scan has found keeps the cache sound. -/
theorem Sound.put (h : Sound tables c) {t : T} {k : List Byte} {i m : Nat}
    (hscan : scanString tables t k = (some i, m)) :
    ∃ c', rotableCachePut c t (t, i) = .ok c' ∧ Sound tables c' := by
  obtain ⟨l, hinv⟩ := h.list
  obtain ⟨s, hlast⟩ := hinv.exists_last
  obtain ⟨c', hput, hinv', hpair⟩ := rotableCachePut_spec t (t, i) hinv hlast
  refine ⟨c', hput, ⟨_, hinv'⟩, h.filled.of_put hpair, fun s' t' e' he' => ?_⟩
  rw [hpair] at he'
  by_cases hs : s' = s
  · -- the entry that was put: the scan has just found it
    rw [hs, Function.update_self] at he'
    obtain ⟨ht, he⟩ := Prod.mk.inj he'
    obtain rfl := Option.some.inj ht
    obtain rfl := Option.some.inj he
    exact ⟨k, i, rfl, (scanString_found hscan).2, by rw [hscan]⟩
  · rw [Function.update_of_ne hs] at he'
    exact h.correct s' t' e' he'

/-! ## A lookup -/

/-- A lookup with the cache gives what it gives without. -/
def Agrees [DecidableEq T] (tables : T → List LuaRKey) (luaRotable : T) (c : Cache T (T × Nat))
    (l : Lookup T) : Prop :=
  ∃ c', l.cached tables luaRotable c = .ok (l.plain tables luaRotable, c')

/-- The pair of a table and a key is in the cache. -/
def InCache (tables : T → List LuaRKey) (c : Cache T (T × Nat)) (t : T) (k : List Byte) : Prop :=
  ∃ s, c.Holds (entryKey tables) s (t, some k)

/-- The key of a `luaR_findentry` by string is in the table, and `*ppos` is not
    asked for, or the pair is not cached, or `*ppos` is right already. -/
def Lookup.Transparent (tables : T → List LuaRKey) (luaRotable : T) (c : Cache T (T × Nat)) :
    Lookup T → Prop
  | .findglobal _ => True
  | .findentry _ none _ _ => True
  | .findentry pentry (some k) _ ppos =>
    ∃ i, (scanString tables (pentry.getD luaRotable) k).1 = some i ∧
      (ppos = none ∨ ¬ InCache tables c (pentry.getD luaRotable) k ∨ ppos = some i)

variable [DecidableEq T]

/-- What `rotable_cache_get` does on a sound cache. -/
theorem Sound.get (h : Sound tables c) (t : T) (k : List Byte) :
    ∃ r c', rotableCacheGet (entryKey tables) c t (some k) = .ok (r, c') ∧ Sound tables c' ∧
      ((r = none ∧ ¬ InCache tables c t k) ∨
        ∃ i, r = some (t, i) ∧ scanString tables t k = (some i, i) ∧ InCache tables c t k) := by
  obtain ⟨l, hinv⟩ := h.list
  obtain ⟨r, c', hget, hpair, hcases⟩ :=
    rotableCacheGet_cases (entryKey tables) hinv h.filled (t, some k)
  have hsound (hlist : ∃ l, c'.Inv l) : Sound tables c' :=
    ⟨hlist, h.filled.of_pair hpair, by rw [hpair]; exact h.correct⟩
  obtain ⟨rfl, hmiss, hinv'⟩ | ⟨n, s, e, -, hs, hkey, rfl, hinv'⟩ := hcases
  · exact ⟨none, c', hget, hsound ⟨l, hinv'⟩, .inl ⟨rfl, fun ⟨s, hs⟩ => hmiss s hs⟩⟩
  · obtain ⟨i, rfl, hscan⟩ := h.hit hs hkey
    exact ⟨_, c', hget, hsound ⟨_, hinv'⟩, .inr ⟨i, rfl, hscan, s, _, hs, hkey⟩⟩

/-- `luaR_findglobal` is the same with the cache. -/
theorem findglobal_agrees (luaRotable : T) (h : Sound tables c) (name : List Byte) :
    ∃ c', luaRFindglobalCached tables luaRotable c name =
      .ok (luaRFindglobal tables luaRotable name, c') ∧ Sound tables c' := by
  obtain ⟨r, c₁, hget, h₁, ⟨rfl, -⟩ | ⟨i, rfl, hscan, -⟩⟩ := h.get luaRotable name
  · cases hscan : scanString tables luaRotable name with
    | mk found m =>
      cases found with
      | none =>
        refine ⟨c₁, ?_, h₁⟩
        simp [luaRFindglobalCached, hget, luaRFindglobal, scanGlobal_eq, hscan]
      | some j =>
        obtain ⟨c', hput, h'⟩ := h₁.put hscan
        refine ⟨c', ?_, h'⟩
        simp [luaRFindglobalCached, hget, luaRFindglobal, scanGlobal_eq, hscan, hput]
  · refine ⟨c₁, ?_, h₁⟩
    simp [luaRFindglobalCached, hget, luaRFindglobal, scanGlobal_eq, hscan]

/-- `luaR_auxfind` by string is the same with the cache exactly where the key is
    found, and `*ppos` is not asked for, not left by a hit, or right already. -/
theorem auxfind_agrees_iff (h : Sound tables c) (t : T) (k : List Byte) (nk : Int)
    (ppos : Option Nat) :
    ∃ a c', luaRAuxfindCached tables c t (some k) nk ppos = .ok (a, c') ∧ Sound tables c' ∧
      (a = luaRAuxfind tables t (some k) nk ppos ↔
        ∃ i, (scanString tables t k).1 = some i ∧
          (ppos = none ∨ ¬ InCache tables c t k ∨ ppos = some i)) := by
  obtain ⟨r, c₁, hget, h₁, ⟨rfl, hno⟩ | ⟨i, rfl, hscan, hin⟩⟩ := h.get t k
  · cases hscan : scanString tables t k with
    | mk found m =>
      cases found with
      | none =>
        -- the answer is the NULL of the cache, and the scan's is `luaO_nilobject`
        refine ⟨_, c₁, by simp [luaRAuxfindCached, hget, hscan]; rfl, h₁, ?_⟩
        simp [luaRAuxfind, hscan]
      | some j =>
        obtain ⟨c', hput, h'⟩ := h₁.put hscan
        refine ⟨_, c', by simp [luaRAuxfindCached, hget, hscan, hput]; rfl, h', ?_⟩
        simp [luaRAuxfind, hscan, hno]
  · -- a hit returns before `*ppos` is set
    refine ⟨_, c₁, by simp [luaRAuxfindCached, hget]; rfl, h₁, ?_⟩
    cases ppos with
    | none => simp [luaRAuxfind, hscan]
    | some v => simp [luaRAuxfind, hscan, hin]

/-- The step lemma: a lookup returns and keeps the cache sound, and agrees with
    the scan exactly where it is transparent. -/
theorem Sound.step (luaRotable : T) (h : Sound tables c) (l : Lookup T) :
    ∃ a c', l.cached tables luaRotable c = .ok (a, c') ∧ Sound tables c' ∧
      (a = l.plain tables luaRotable ↔ l.Transparent tables luaRotable c) := by
  cases l with
  | findglobal name =>
    obtain ⟨c', hfind, h'⟩ := findglobal_agrees luaRotable h name
    refine ⟨_, c', by simp [Lookup.cached, hfind]; rfl, h', ?_⟩
    simp [Lookup.plain, Lookup.Transparent]
  | findentry pentry strkey nk ppos =>
    cases strkey with
    | none =>
      -- a lookup by number does not ask the cache
      exact ⟨_, c, rfl, h, by simp [Lookup.plain, Lookup.Transparent, luaRAuxfind]⟩
    | some k => exact auxfind_agrees_iff h (pentry.getD luaRotable) k nk ppos

/-- The run lemma. -/
theorem Sound.run (luaRotable : T) (h : Sound tables c) (ls : List (Lookup T)) :
    ∃ c', runLookups tables luaRotable c ls = .ok c' ∧ Sound tables c' := by
  induction ls generalizing c with
  | nil => exact ⟨c, rfl, h⟩
  | cons l ls ih =>
    obtain ⟨a, c₁, hstep, h₁, -⟩ := h.step luaRotable l
    obtain ⟨c', hrest, h'⟩ := ih h₁
    refine ⟨c', ?_, h'⟩
    rw [runLookups, List.foldlM_cons, hstep]
    exact hrest

/-- After any lookups from an empty cache, the next one agrees with the scan
    exactly where it is transparent. -/
theorem lookup_agrees_iff (tables : T → List LuaRKey) (luaRotable : T) (ls : List (Lookup T)) :
    ∃ c, runLookups tables luaRotable (rotableCacheInit true).2 ls = .ok c ∧
      ∀ l, Agrees tables luaRotable c l ↔ l.Transparent tables luaRotable c := by
  obtain ⟨c, hrun, h⟩ := Sound.run luaRotable (Sound.init tables) ls
  refine ⟨c, hrun, fun l => ?_⟩
  obtain ⟨a, c', hstep, -, hiff⟩ := h.step luaRotable l
  rw [← hiff]
  constructor
  · rintro ⟨c'', hagrees⟩
    exact (Prod.mk.inj (Except.ok.inj (hstep.symm.trans hagrees))).1
  · rintro rfl
    exact ⟨c', hstep⟩

/-- One table with one key: a key that is not there, and the position of the one
    that is there, at its second lookup. -/
theorem not_agrees_repeated :
    ¬ Agrees (fun _ : Unit => [.str [97]]) () (rotableCacheInit true).2
        (.findentry none (some [98]) 0 none) ∧
      ∃ c, runLookups (fun _ : Unit => [.str [97]]) () (rotableCacheInit true).2
          [.findentry none (some [97]) 0 none] = .ok c ∧
        ¬ Agrees (fun _ : Unit => [.str [97]]) () c (.findentry none (some [97]) 0 (some 7)) := by
  refine ⟨?_, _, rfl, ?_⟩
  · rintro ⟨c', h⟩
    have hres : (ValuePtr.null : ValuePtr Unit) = .nilObject :=
      congrArg Answer.res (Prod.mk.inj (Except.ok.inj h)).1
    cases hres
  · rintro ⟨c', h⟩
    have hpos : (some 7 : Option Nat) = some 0 :=
      congrArg Answer.ppos (Prod.mk.inj (Except.ok.inj h)).1
    cases hpos

end Lookups

end LuaRtos.Rotable
