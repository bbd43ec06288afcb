/-
  LuaRtos.Lua.RotableNext

  The iteration over a read-only table, `luaR_next` of Lua/common/lrotable.c.

  A step is given the key of the entry before and looks its position up again.
  The key goes through `char strkey[LUA_MAX_ROTABLE_NAME + 1]`, which holds it
  only if it is shorter than LUA_MAX_ROTABLE_NAME, and the position comes back
  through `unsigned keypos`, which a hit in the cache does not write.  So a walk
  is right exactly where every key is short, and none is cached at the moment
  the walk looks it up.
-/

import LuaRtos.CLib.Str
import LuaRtos.Lua.RotableCache
import Mathlib.Data.List.TakeWhile

namespace LuaRtos.Rotable

open LuaRtos.CLib

/-- LUA_MAX_ROTABLE_NAME. -/
def luaMaxRotableName : Nat := 32

/-- LUAI_MAXSHORTLEN. -/
def luaiMaxShortLen : Nat := 40

/-- `TString`.  Only a short string has its length in `shrlen`. -/
structure TString where
  chars : List Byte
  shrlen : BitVec 8
  short : chars.length ≤ luaiMaxShortLen → shrlen.toNat = chars.length

/-- A Lua value that is used as a key. -/
inductive LuaKey where
  | nil
  | str (s : TString)
  | num (n : Int)
  /-- Neither nil, nor a string, nor a number. -/
  | other

/-- What memory holds that a step reads without having written it. -/
structure Junk where
  /-- The local variable `keypos`. -/
  keypos : Nat
  /-- `shrlen` of the long string that the step creates. -/
  shrlen : BitVec 8

/-- `luaS_newlstr`: a long string keeps the `shrlen` that its memory had. -/
def luaSNewlstr (str : List Byte) (junk : BitVec 8) : TString :=
  if h : str.length ≤ luaiMaxShortLen then
    { chars := str
      shrlen := BitVec.ofNat 8 str.length
      short := fun _ => by
        rw [luaiMaxShortLen] at h
        rw [BitVec.toNat_ofNat]
        omega }
  else { chars := str, shrlen := junk, short := fun h' => absurd h' h }

/-- `luaR_getcstr`: the string that `dest` holds. -/
def luaRGetcstr (src : TString) (maxsize : Nat) : List Byte :=
  if src.shrlen.toNat + 1 > maxsize then []
  else (src.chars.take src.shrlen.toNat).takeWhile (· ≠ nul)

/-- `luaR_next_helper`: the key, and the entry whose value it gives. -/
def luaRNextHelper (pentries : List LuaRKey) (pos : Nat) (junk : BitVec 8) :
    Result (LuaKey × Option Nat) :=
  match pentries[pos]? with
  | some (.str s) => pure (.str (luaSNewlstr s junk), some pos)
  | some (.num n) => pure (.num n, some pos)
  | some .nil => pure (.nil, none)
  -- the LRO_NILKEY after the last entry
  | none => if pos = pentries.length then pure (.nil, none) else throw .outOfBounds

section Calls

variable {T : Type} [DecidableEq T] (tables : T → List LuaRKey) (luaRotable : T)

/-- A lookup, in a program built without the cache or with it. -/
def Lookup.run (l : Lookup T) : Option (Cache T (T × Nat)) →
    Result (Answer T × Option (Cache T (T × Nat)))
  | none => pure (l.plain tables luaRotable, none)
  | some c => do
    let (a, c) ← l.cached tables luaRotable c
    pure (a, some c)

/-- The lookups one after the other. -/
def runAll : Option (Cache T (T × Nat)) → List (Lookup T) →
    Result (Option (Cache T (T × Nat)))
  | none, _ => pure none
  | some c, ls => do
    let c ← runLookups tables luaRotable c ls
    pure (some c)

/-- `luaR_next` on a key: the next key, and the entry whose value it gives. -/
def luaRNext (b : Option (Cache T (T × Nat))) (data : T) (key : LuaKey) (junk : Junk) :
    Result (LuaKey × Option Nat × Option (Cache T (T × Nat))) :=
  -- find the previous key again, and advance to the next
  let advance (pstrkey : Option (List Byte)) (numkey : Int) := do
    let (a, b) ← (Lookup.findentry (some data) pstrkey numkey (some junk.keypos)).run
      tables luaRotable b
    let (key, entry) ← luaRNextHelper (tables data) (a.ppos.getD junk.keypos + 1) junk.shrlen
    pure (key, entry, b)
  match key with
  | .nil => do
    let (key, entry) ← luaRNextHelper (tables data) 0 junk.shrlen
    pure (key, entry, b)
  | .str s => advance (some (luaRGetcstr s luaMaxRotableName)) 0
  | .num n => advance none n
  | .other => pure (.other, none, b)

/-! ## The walk -/

variable (before : List (Lookup T)) (during : Nat → List (Lookup T))

/-- `luaR_next` called from nil and then `m` times more, each time with the key it
    has given: the last key, and the entries in the order they were visited.
    Other lookups are made before the walk, and after each of its calls. -/
def luaRWalk (b : Option (Cache T (T × Nat))) (data : T) (junk : Nat → Junk) :
    Nat → Result (LuaKey × List (Option Nat) × Option (Cache T (T × Nat)))
  | 0 => do
    let b ← runAll tables luaRotable b before
    let (key, entry, b) ← luaRNext tables luaRotable b data .nil (junk 0)
    pure (key, [entry], b)
  | m + 1 => do
    let (key, visited, b) ← luaRWalk b data junk m
    let b ← runAll tables luaRotable b (during m)
    let (key, entry, b) ← luaRNext tables luaRotable b data key (junk (m + 1))
    pure (key, visited ++ [entry], b)

/-- The lookups made up to the moment the walk looks the key of entry `m` up. -/
def lookupsBefore (data : T) : Nat → List (Lookup T)
  | 0 => before ++ during 0
  | m + 1 =>
    lookupsBefore data m ++
      [.findentry (some data) ((tables data)[m]?.bind LuaRKey.strkey) 0 (some 0)] ++
      during (m + 1)

/-- Whatever memory held, the walk visits every entry once, in the order of the
    table, and ends with nil. -/
def Iterates (b : Option (Cache T (T × Nat))) (data : T) : Prop :=
  ∀ junk : Nat → Junk, ∃ b', luaRWalk tables luaRotable before during b data junk
    (tables data).length = .ok (.nil, (List.range (tables data).length).map some ++ [none], b')

end Calls

/-- A table all of whose keys are strings, no two of them the same. -/
structure WellFormed (keys : List LuaRKey) : Prop where
  strings : ∀ key ∈ keys, ∃ s, key = .str s ∧ nul ∉ s
  nodup : keys.Nodup

/-! ## Positions -/

section Positions

variable {keys : List LuaRKey} {i off : Nat} {s : List Byte}

/-- The scan stops at the first entry with the key, which is the only one. -/
theorem scan_of_getElem? (h : WellFormed keys) (hkey : keys[i]? = some (.str s)) (off : Nat) :
    scan (fun _ key => key.isString && key.isKey s) keys off = (some (off + i), off + i) := by
  obtain ⟨hstrings, hnodup⟩ := h
  induction keys generalizing i off with
  | nil => simp at hkey
  | cons key rest ih =>
    obtain ⟨s₀, rfl, -⟩ := hstrings key List.mem_cons_self
    obtain ⟨hhead, hrest⟩ := List.nodup_cons.mp hnodup
    cases i with
    | zero =>
      obtain rfl : s₀ = s := by simpa using hkey
      have htest : LuaRKey.isKey (.str s₀) s₀ := isKey_iff.mpr rfl
      simp [scan, LuaRKey.isNull, LuaRKey.isString, htest]
    | succ i =>
      rw [List.getElem?_cons_succ] at hkey
      -- the key of this entry is another one, for no key is there twice
      have hne : LuaRKey.isKey (.str s₀) s = false := by
        rw [Bool.eq_false_iff]
        intro htest
        rw [isKey_iff.mp htest] at hhead
        exact hhead (List.mem_of_getElem? hkey)
      rw [scan, if_neg (by simp [LuaRKey.isNull]), if_neg (by simp [hne]),
        ih hkey (off + 1) (fun key hmem => hstrings key (List.mem_cons_of_mem _ hmem)) hrest]
      rw [show off + 1 + i = off + (i + 1) by omega]

theorem scan_of_notMem (h : ∀ key ∈ keys, ∃ s, key = .str s) (hno : LuaRKey.str s ∉ keys)
    (off : Nat) :
    scan (fun _ key => key.isString && key.isKey s) keys off = (none, off + keys.length) := by
  induction keys generalizing off with
  | nil => rfl
  | cons key rest ih =>
    obtain ⟨s₀, rfl⟩ := h key List.mem_cons_self
    obtain ⟨hhead, hrest⟩ := List.ne_and_not_mem_of_not_mem_cons hno
    have hne : LuaRKey.isKey (.str s₀) s = false := by
      rw [Bool.eq_false_iff]
      intro htest
      exact hhead (isKey_iff.mp htest).symm
    rw [scan, if_neg (by simp [LuaRKey.isNull]), if_neg (by simp [hne]),
      ih (fun key hmem => h key (List.mem_cons_of_mem _ hmem)) hrest, List.length_cons]
    rw [show off + 1 + rest.length = off + (rest.length + 1) by omega]

/-- The copy of a key that is short enough is the key. -/
theorem luaRGetcstr_luaSNewlstr_of_lt {junk : BitVec 8} (hnul : nul ∉ s)
    (h : s.length < luaMaxRotableName) :
    luaRGetcstr (luaSNewlstr s junk) luaMaxRotableName = s := by
  have hshort : s.length ≤ luaiMaxShortLen := by
    rw [luaMaxRotableName] at h
    rw [luaiMaxShortLen]
    omega
  have hchars : (luaSNewlstr s junk).chars = s := by simp [luaSNewlstr, hshort]
  have hlen : (luaSNewlstr s junk).shrlen.toNat = s.length := by
    rw [(luaSNewlstr s junk).short (by rw [hchars]; exact hshort), hchars]
  rw [luaRGetcstr, hlen, if_neg (by omega), hchars, List.take_length, List.takeWhile_eq_self_iff]
  intro c hc
  simpa using fun hcnul : c = nul => hnul (hcnul ▸ hc)

/-- A key that is too long is copied as the empty string, if it is short enough
    to have its length in `shrlen`, or memory held 255 there. -/
theorem luaRGetcstr_luaSNewlstr_of_le (h : luaMaxRotableName ≤ s.length) :
    luaRGetcstr (luaSNewlstr s 255) luaMaxRotableName = [] := by
  rw [luaMaxRotableName] at h
  have hlen : luaMaxRotableName ≤ (luaSNewlstr s 255).shrlen.toNat := by
    by_cases hshort : s.length ≤ luaiMaxShortLen
    · have hchars : (luaSNewlstr s 255).chars = s := by simp [luaSNewlstr, hshort]
      rw [(luaSNewlstr s 255).short (by rw [hchars]; exact hshort), hchars]
      exact h
    · simp [luaSNewlstr, hshort, luaMaxRotableName]
  rw [luaRGetcstr, if_pos (by omega)]

end Positions

/-! ## A lookup of a key -/

section Lookups

variable {T : Type} {tables : T → List LuaRKey} {luaRotable : T}
  {b : Option (Cache T (T × Nat))} {t : T} {k : List Byte}

/-- The cache is sound, if there is one. -/
def BuildSound (tables : T → List LuaRKey) (b : Option (Cache T (T × Nat))) : Prop :=
  ∀ c ∈ b, Sound tables c

/-- A lookup of the key in the table is a hit in the cache. -/
def Hits (tables : T → List LuaRKey) (b : Option (Cache T (T × Nat))) (t : T)
    (k : List Byte) : Prop :=
  ∃ c ∈ b, InCache tables c t k

variable [DecidableEq T]

theorem BuildSound.runAll (luaRotable : T) (h : BuildSound tables b) (ls : List (Lookup T)) :
    ∃ b', runAll tables luaRotable b ls = .ok b' ∧ BuildSound tables b' := by
  cases b with
  | none => exact ⟨none, rfl, nofun⟩
  | some c =>
    obtain ⟨c', hrun, hsound⟩ := (h c rfl).run luaRotable ls
    refine ⟨some c', by simp [Rotable.runAll, hrun], ?_⟩
    rintro c'' ⟨⟩
    exact hsound

theorem runAll_append {b' : Option (Cache T (T × Nat))} {ls ls' : List (Lookup T)}
    (h : runAll tables luaRotable b ls = .ok b') :
    runAll tables luaRotable b (ls ++ ls') = runAll tables luaRotable b' ls' := by
  cases b with
  | none =>
    obtain rfl : none = b' := Except.ok.inj h
    rfl
  | some c =>
    obtain ⟨c', hrun, hb'⟩ := bind_eq_ok.mp h
    obtain rfl : some c' = b' := Except.ok.inj hb'
    have happend : runLookups tables luaRotable c (ls ++ ls') =
        runLookups tables luaRotable c' ls' := by
      rw [runLookups, List.foldlM_append]
      rw [runLookups] at hrun
      rw [hrun]
      rfl
    simp only [runAll, happend]

/-- Only the answer depends on where `*ppos` points. -/
theorem luaRAuxfindCached_ppos {c c' : Cache T (T × Nat)} {strkey : Option (List Byte)}
    {nk : Int} {p : Option Nat} {a : Answer T}
    (h : luaRAuxfindCached tables c t strkey nk p = .ok (a, c')) (q : Option Nat) :
    ∃ a', luaRAuxfindCached tables c t strkey nk q = .ok (a', c') := by
  cases strkey with
  | none =>
    obtain ⟨-, rfl⟩ := Prod.mk.inj (Except.ok.inj h)
    exact ⟨_, rfl⟩
  | some k =>
    obtain ⟨⟨res, c₁⟩, hget, h⟩ := bind_eq_ok.mp h
    cases res with
    | some e =>
      obtain ⟨-, rfl⟩ := Prod.mk.inj (Except.ok.inj h)
      exact ⟨_, by simp [luaRAuxfindCached, hget]; rfl⟩
    | none =>
      cases hscan : scanString tables t k with
      | mk found m =>
        cases found with
        | none =>
          simp only [hscan] at h
          obtain ⟨-, rfl⟩ := Prod.mk.inj (Except.ok.inj h)
          exact ⟨_, by simp [luaRAuxfindCached, hget, hscan]; rfl⟩
        | some j =>
          simp only [hscan] at h
          obtain ⟨c₂, hput, h⟩ := bind_eq_ok.mp h
          obtain ⟨-, rfl⟩ := Prod.mk.inj (Except.ok.inj h)
          exact ⟨_, by simp [luaRAuxfindCached, hget, hscan, hput]; rfl⟩

/-- A lookup of a key writes the position of the scan, unless it is a hit, or the
    key is not there. -/
theorem find_run (luaRotable : T) (h : BuildSound tables b) (t : T) (k : List Byte)
    (ppos : Nat) :
    ∃ a b', (Lookup.findentry (some t) (some k) 0 (some ppos)).run tables luaRotable b =
        .ok (a, b') ∧ BuildSound tables b' ∧
      runAll tables luaRotable b [.findentry (some t) (some k) 0 (some 0)] = .ok b' ∧
      (Hits tables b t k ∧ (∃ i, scanString tables t k = (some i, i)) ∧ a.ppos = some ppos ∨
        ¬ Hits tables b t k ∧ (a.ppos = some (scanString tables t k).2 ∨
          (scanString tables t k).1 = none ∧ a.ppos = some ppos)) := by
  cases b with
  | none => exact ⟨_, none, rfl, nofun, rfl, .inr ⟨nofun, .inl rfl⟩⟩
  | some c =>
    have hhits : Hits tables (some c) t k ↔ InCache tables c t k := by simp [Hits]
    obtain ⟨r, c₁, hget, h₁, hcases⟩ := (h c rfl).get t k
    -- what is left to show once the lookup is evaluated
    have hdone {a : Answer T} {c' : Cache T (T × Nat)} (hc' : Sound tables c')
        (hrun : luaRAuxfindCached tables c t (some k) 0 (some ppos) = .ok (a, c')) :
        (Lookup.findentry (some t) (some k) 0 (some ppos)).run tables luaRotable (some c) =
          .ok (a, some c') ∧ BuildSound tables (some c') ∧
        runAll tables luaRotable (some c) [.findentry (some t) (some k) 0 (some 0)] =
          .ok (some c') := by
      obtain ⟨a', hrun'⟩ := luaRAuxfindCached_ppos hrun (some 0)
      refine ⟨by simp [Lookup.run, Lookup.cached, hrun], ?_, ?_⟩
      · rintro c'' ⟨⟩
        exact hc'
      · simp [Rotable.runAll, runLookups, Lookup.cached, hrun']
    obtain ⟨rfl, hno⟩ | ⟨i, rfl, hscan, hin⟩ := hcases
    · cases hscan : scanString tables t k with
      | mk found m =>
        cases found with
        | none =>
          obtain ⟨hrun, hsound, hall⟩ := hdone h₁
            (by simp [luaRAuxfindCached, hget, hscan]; rfl)
          exact ⟨_, _, hrun, hsound, hall, .inr ⟨hhits.not.mpr hno, .inr ⟨rfl, rfl⟩⟩⟩
        | some j =>
          obtain ⟨c', hput, h'⟩ := h₁.put hscan
          obtain ⟨hrun, hsound, hall⟩ := hdone h'
            (by simp [luaRAuxfindCached, hget, hscan, hput]; rfl)
          exact ⟨_, _, hrun, hsound, hall, .inr ⟨hhits.not.mpr hno, .inl rfl⟩⟩
    · -- a hit leaves `*ppos` alone
      obtain ⟨hrun, hsound, hall⟩ := hdone h₁ (by simp [luaRAuxfindCached, hget]; rfl)
      exact ⟨_, _, hrun, hsound, hall, .inl ⟨hhits.mpr hin, ⟨i, hscan⟩, rfl⟩⟩

end Lookups

/-! ## A step of the walk -/

section Steps

variable {T : Type} {tables : T → List LuaRKey} {luaRotable : T}
  {b : Option (Cache T (T × Nat))} {t : T} {i : Nat} {s : List Byte}

/-- What a call shows that has come to position `pos`. -/
def entryAt (length pos : Nat) : Option Nat := if pos < length then some pos else none

theorem luaRNextHelper_str {keys : List LuaRKey} (hkey : keys[i]? = some (.str s))
    (junk : BitVec 8) :
    luaRNextHelper keys i junk = .ok (.str (luaSNewlstr s junk), some i) := by
  simp [luaRNextHelper, hkey]

theorem luaRNextHelper_length (keys : List LuaRKey) (junk : BitVec 8) :
    luaRNextHelper keys keys.length junk = .ok (.nil, none) := by
  simp [luaRNextHelper]

theorem luaRNextHelper_ok {keys : List LuaRKey} (h : WellFormed keys) {pos : Nat}
    {junk : BitVec 8} {key : LuaKey} {entry : Option Nat}
    (hrun : luaRNextHelper keys pos junk = .ok (key, entry)) :
    pos ≤ keys.length ∧ entry = entryAt keys.length pos := by
  rcases Nat.lt_trichotomy pos keys.length with hlt | rfl | hgt
  · obtain ⟨s, hs, -⟩ := h.strings _ (List.getElem_mem hlt)
    rw [luaRNextHelper_str (List.getElem?_eq_some_iff.mpr ⟨hlt, hs⟩)] at hrun
    obtain ⟨-, rfl⟩ := Prod.mk.inj (Except.ok.inj hrun)
    exact ⟨hlt.le, by rw [entryAt, if_pos hlt]⟩
  · rw [luaRNextHelper_length] at hrun
    obtain ⟨-, rfl⟩ := Prod.mk.inj (Except.ok.inj hrun)
    exact ⟨le_rfl, by rw [entryAt, if_neg (lt_irrefl _)]⟩
  · -- past the LRO_NILKEY
    simp [luaRNextHelper, List.getElem?_eq_none hgt.le, hgt.ne'] at hrun

theorem entryAt_succ_inj {length j : Nat} (hi : i < length) (hj : j < length)
    (h : entryAt length (j + 1) = entryAt length (i + 1)) : j = i := by
  unfold entryAt at h
  split at h
  · split at h
    · simpa using h
    · cases h
  · split at h
    · cases h
    · omega

variable [DecidableEq T]

/-- The key is short and not cached: the step comes to the next position. -/
theorem luaRNext_of_miss (luaRotable : T) (h : BuildSound tables b) (hwf : WellFormed (tables t))
    (hkey : (tables t)[i]? = some (.str s)) (hlen : s.length < luaMaxRotableName)
    (hmiss : ¬ Hits tables b t s) (junk : BitVec 8) (junk' : Junk) :
    ∃ key entry b', luaRNextHelper (tables t) (i + 1) junk'.shrlen = .ok (key, entry) ∧
      luaRNext tables luaRotable b t (.str (luaSNewlstr s junk)) junk' = .ok (key, entry, b') ∧
      BuildSound tables b' ∧
      runAll tables luaRotable b [.findentry (some t) (some s) 0 (some 0)] = .ok b' := by
  obtain ⟨s', hs', hnul⟩ := hwf.strings _ (List.mem_of_getElem? hkey)
  obtain rfl : s = s' := LuaRKey.str.inj hs'
  have hscan : scanString tables t s = (some i, i) := by
    rw [scanString, scan_of_getElem? hwf hkey, Nat.zero_add]
  obtain ⟨a, b', hrun, hsound, hall, ⟨hhit, -⟩ | ⟨-, hpos⟩⟩ :=
    find_run luaRotable h t s junk'.keypos
  · exact absurd hhit hmiss
  · have hppos : a.ppos = some i := by simpa [hscan] using hpos
    have hlt : i < (tables t).length := (List.getElem?_eq_some_iff.mp hkey).1
    -- the next position is that of an entry, or of the LRO_NILKEY
    obtain ⟨key, entry, hhelper⟩ : ∃ key entry,
        luaRNextHelper (tables t) (i + 1) junk'.shrlen = .ok (key, entry) := by
      obtain hlt' | heq := Nat.lt_or_eq_of_le (Nat.succ_le_of_lt hlt)
      · obtain ⟨s₁, hs₁, -⟩ := hwf.strings _ (List.getElem_mem hlt')
        exact ⟨_, _, luaRNextHelper_str (List.getElem?_eq_some_iff.mpr ⟨hlt', hs₁⟩) _⟩
      · exact ⟨_, _, by rw [show i + 1 = (tables t).length from heq, luaRNextHelper_length]⟩
    refine ⟨key, entry, b', hhelper, ?_, hsound, hall⟩
    simp [luaRNext, luaRGetcstr_luaSNewlstr_of_lt hnul hlen, hrun, hppos, hhelper]

/-- The key is long or cached: there is something memory may have held that the
    step does not come to the next position with. -/
theorem luaRNext_of_not (luaRotable : T) (h : BuildSound tables b) (hwf : WellFormed (tables t))
    (hkey : (tables t)[i]? = some (.str s))
    (hnot : s.length < luaMaxRotableName → Hits tables b t s) {key : LuaKey}
    {entry : Option Nat} {b' : Option (Cache T (T × Nat))}
    (hrun : luaRNext tables luaRotable b t (.str (luaSNewlstr s 255))
      ⟨(tables t).length, 255⟩ = .ok (key, entry, b')) :
    entry ≠ entryAt (tables t).length (i + 1) := by
  obtain ⟨⟨a, b₁⟩, hfind, hrest⟩ := bind_eq_ok.mp hrun
  obtain ⟨⟨key', entry'⟩, hhelper, hret⟩ := bind_eq_ok.mp hrest
  obtain ⟨-, hentry, -⟩ : key' = key ∧ entry' = entry ∧ b₁ = b' := by simpa using hret
  rw [hentry] at hhelper
  obtain ⟨hle, rfl⟩ := luaRNextHelper_ok hwf hhelper
  -- `keypos` as it was is no position of the table
  have hstale : a.ppos ≠ some (tables t).length := by
    intro hppos
    rw [hppos, Option.getD_some] at hle
    omega
  have hlt : i < (tables t).length := (List.getElem?_eq_some_iff.mp hkey).1
  obtain hshort | hlong := Nat.lt_or_ge s.length luaMaxRotableName
  · obtain ⟨s', hs', hnul⟩ := hwf.strings _ (List.mem_of_getElem? hkey)
    obtain rfl : s = s' := LuaRKey.str.inj hs'
    obtain ⟨a', b₂, hfind', -, -, ⟨-, -, hppos⟩ | ⟨hmiss, -⟩⟩ :=
      find_run luaRotable h t s (tables t).length
    · rw [luaRGetcstr_luaSNewlstr_of_lt hnul hshort, hfind'] at hfind
      obtain ⟨rfl, -⟩ := Prod.mk.inj (Except.ok.inj hfind)
      exact absurd hppos hstale
    · exact absurd (hnot hshort) hmiss
  · -- the empty string is looked up in place of the key
    rw [luaRGetcstr_luaSNewlstr_of_le hlong] at hfind
    obtain ⟨a', b₂, hfind', -, -, hcases⟩ := find_run luaRotable h t [] (tables t).length
    rw [hfind'] at hfind
    obtain ⟨rfl, -⟩ := Prod.mk.inj (Except.ok.inj hfind)
    obtain ⟨-, -, hppos⟩ | ⟨-, hppos | ⟨-, hppos⟩⟩ := hcases
    · exact absurd hppos hstale
    · by_cases hmem : LuaRKey.str [] ∈ tables t
      · obtain ⟨j, hj⟩ := List.getElem?_of_mem hmem
        have hjlt : j < (tables t).length := (List.getElem?_eq_some_iff.mp hj).1
        have hscan : scanString tables t [] = (some j, j) := by
          rw [scanString, scan_of_getElem? hwf hj, Nat.zero_add]
        have hji : j ≠ i := by
          rintro rfl
          obtain rfl : s = [] := by simpa [hkey] using hj
          simp [luaMaxRotableName] at hlong
        rw [hppos, hscan]
        exact fun heq => hji (entryAt_succ_inj hlt hjlt heq)
      · have hscan : scanString tables t [] = (none, (tables t).length) := by
          rw [scanString, scan_of_notMem _ hmem, Nat.zero_add]
          exact fun key hmem => (hwf.strings key hmem).imp fun _ => And.left
        rw [hscan] at hppos
        exact absurd hppos hstale
    · exact absurd hppos hstale

end Steps

/-! ## The whole walk -/

section Walk

variable {T : Type} [DecidableEq T] (tables : T → List LuaRKey) (luaRotable : T)
  (before : List (Lookup T)) (during : Nat → List (Lookup T))

/-- The key of entry `i` is short, and when the walk looks it up it is not in the
    cache. -/
def FoundAgain (b : Option (Cache T (T × Nat))) (data : T) (i : Nat) : Prop :=
  ∀ s, (tables data)[i]? = some (.str s) → s.length < luaMaxRotableName ∧
    ∃ b', runAll tables luaRotable b (lookupsBefore tables before during data i) = .ok b' ∧
      ¬ Hits tables b' data s

variable {tables} {before} {during} {b : Option (Cache T (T × Nat))} {t : T}

/-- The run lemma: as long as the keys are found again, the walk has visited the
    entries in order, and the lookups made so far are those of `lookupsBefore`. -/
theorem luaRWalk_of_found (h : BuildSound tables b) (hwf : WellFormed (tables t)) {m : Nat}
    (hm : m ≤ (tables t).length)
    (hfound : ∀ i < m, FoundAgain tables luaRotable before during b t i)
    (junk : Nat → Junk) :
    ∃ key entry b', luaRNextHelper (tables t) m (junk m).shrlen = .ok (key, entry) ∧
      luaRWalk tables luaRotable before during b t junk m =
        .ok (key, (List.range m).map some ++ [entry], b') ∧
      BuildSound tables b' ∧
      runAll tables luaRotable b (lookupsBefore tables before during t m) =
        runAll tables luaRotable b' (during m) := by
  induction m with
  | zero =>
    obtain ⟨b', hrun, hsound⟩ := h.runAll luaRotable before
    obtain ⟨key, entry, hhelper⟩ : ∃ key entry,
        luaRNextHelper (tables t) 0 (junk 0).shrlen = .ok (key, entry) := by
      cases hkeys : tables t with
      | nil => exact ⟨_, _, rfl⟩
      | cons key rest =>
        obtain ⟨s, rfl, -⟩ := hwf.strings key (by simp [hkeys])
        exact ⟨_, _, luaRNextHelper_str (List.getElem?_cons_zero ..) _⟩
    refine ⟨key, entry, b', hhelper, ?_, hsound, runAll_append hrun⟩
    simp [luaRWalk, hrun, luaRNext, hhelper]
  | succ m ih =>
    obtain ⟨key, entry, b₁, hhelper, hwalk, h₁, hlookups⟩ :=
      ih (by omega) fun i hi => hfound i (by omega)
    obtain ⟨b₂, hduring, h₂⟩ := h₁.runAll luaRotable (during m)
    -- the call before has given the key of entry `m`
    obtain ⟨s, hs, -⟩ := hwf.strings _ (List.getElem_mem (show m < (tables t).length by omega))
    have hkey : (tables t)[m]? = some (.str s) :=
      List.getElem?_eq_some_iff.mpr ⟨by omega, hs⟩
    rw [luaRNextHelper_str hkey] at hhelper
    obtain ⟨rfl, rfl⟩ := Prod.mk.inj (Except.ok.inj hhelper)
    rw [hduring] at hlookups
    obtain ⟨hlen, b₂', hb₂', hmiss⟩ := hfound m (by omega) s hkey
    rw [hlookups] at hb₂'
    obtain rfl := Except.ok.inj hb₂'
    obtain ⟨key, entry, b', hhelper, hnext, hsound, hfind⟩ :=
      luaRNext_of_miss luaRotable h₂ hwf hkey hlen hmiss (junk m).shrlen (junk (m + 1))
    refine ⟨key, entry, b', hhelper, ?_, hsound, ?_⟩
    · simp [luaRWalk, hwalk, hduring, hnext, List.range_succ]
    · rw [lookupsBefore, hkey, List.append_assoc, runAll_append hlookups]
      exact runAll_append hfind

/-- A walk has gone through every shorter one, and shown what that one has. -/
theorem luaRWalk_prefix {junk : Nat → Junk} {m n : Nat} (hmn : m ≤ n) {key : LuaKey}
    {visited : List (Option Nat)} {b' : Option (Cache T (T × Nat))}
    (hwalk : luaRWalk tables luaRotable before during b t junk n = .ok (key, visited, b')) :
    visited.length = n + 1 ∧ ∃ key' visited' b'',
      luaRWalk tables luaRotable before during b t junk m = .ok (key', visited', b'') ∧
        visited' <+: visited := by
  induction n generalizing m key visited b' with
  | zero =>
    obtain rfl : m = 0 := by omega
    refine ⟨?_, key, visited, b', hwalk, List.prefix_rfl⟩
    obtain ⟨b₁, -, hrest⟩ := bind_eq_ok.mp hwalk
    obtain ⟨⟨key₁, entry, b₂⟩, -, hret⟩ := bind_eq_ok.mp hrest
    obtain ⟨-, rfl, -⟩ : key₁ = key ∧ [entry] = visited ∧ b₂ = b' := by simpa using hret
    rfl
  | succ n ih =>
    have hself := hwalk
    obtain ⟨⟨key₁, visited₁, b₁⟩, hwalk₁, hrest⟩ := bind_eq_ok.mp hwalk
    obtain ⟨b₂, -, hrest⟩ := bind_eq_ok.mp hrest
    obtain ⟨⟨key₂, entry, b₃⟩, -, hret⟩ := bind_eq_ok.mp hrest
    obtain ⟨-, hvisited, -⟩ : key₂ = key ∧ visited₁ ++ [entry] = visited ∧ b₃ = b' := by
      simpa using hret
    obtain hlt | rfl := Nat.lt_or_eq_of_le hmn
    · obtain ⟨hlen, key', visited', b'', hwalk', hpre⟩ :=
        ih (show m ≤ n by omega) hwalk₁
      refine ⟨by simp [← hvisited, hlen], key', visited', b'', hwalk', hpre.trans ?_⟩
      exact hvisited ▸ List.prefix_append _ _
    · obtain ⟨hlen, -⟩ := ih le_rfl hwalk₁
      exact ⟨by simp [← hvisited, hlen], key, visited, b', hself, List.prefix_rfl⟩

/-- A walk visits every entry exactly where every key is found again. -/
theorem iterates_iff_found (h : BuildSound tables b) (hwf : WellFormed (tables t)) :
    Iterates tables luaRotable before during b t ↔
      ∀ i, FoundAgain tables luaRotable before during b t i := by
  constructor
  · intro hiter i
    induction i using Nat.strongRecOn with
    | ind i ih =>
      intro s hkey
      have hlt : i < (tables t).length := (List.getElem?_eq_some_iff.mp hkey).1
      -- `keypos` holds no position, and every long string has the longest `shrlen`
      let junk : Nat → Junk := fun _ => ⟨(tables t).length, 255⟩
      obtain ⟨key, entry, b₁, hhelper, hwalk, h₁, hlookups⟩ :=
        luaRWalk_of_found luaRotable h hwf hlt.le ih junk
      rw [luaRNextHelper_str hkey] at hhelper
      obtain ⟨rfl, rfl⟩ := Prod.mk.inj (Except.ok.inj hhelper)
      obtain ⟨b₂, hduring, h₂⟩ := h₁.runAll luaRotable (during i)
      rw [hduring] at hlookups
      by_contra hnot
      have hlong : s.length < luaMaxRotableName → Hits tables b₂ t s := by
        intro hlen
        by_contra hmiss
        exact hnot ⟨hlen, b₂, hlookups, hmiss⟩
      obtain ⟨b₃, hfull⟩ := hiter junk
      obtain ⟨-, key', visited', b₄, hwalk', hpre⟩ := luaRWalk_prefix luaRotable hlt hfull
      -- the next call of the walk shows another entry than the full walk does
      rw [luaRWalk, hwalk, ok_bind] at hwalk'
      simp only [hduring, ok_bind] at hwalk'
      obtain ⟨⟨key₁, entry, b₅⟩, hnext, hret⟩ := bind_eq_ok.mp hwalk'
      obtain ⟨-, hvisited, -⟩ : key₁ = key' ∧
          (List.range i).map some ++ [some i] ++ [entry] = visited' ∧ b₅ = b₄ := by
        simpa using hret
      refine luaRNext_of_not luaRotable h₂ hwf hkey hlong hnext ?_
      have hget : visited'[i + 1]? = some entry := by simp [← hvisited]
      have hget' : ((List.range (tables t).length).map some ++ [none])[i + 1]? = some entry := by
        obtain ⟨rest, hrest⟩ := hpre
        rw [← hrest, List.getElem?_append_left (List.getElem?_eq_some_iff.mp hget).1, hget]
      rw [entryAt]
      split
      · next hlt' => simpa [List.getElem?_append, hlt'] using hget'.symm
      · next hge =>
        have heq : i + 1 = (tables t).length := by omega
        simpa [heq] using hget'.symm
  · intro hfound junk
    obtain ⟨key, entry, b', hhelper, hwalk, -, -⟩ :=
      luaRWalk_of_found luaRotable h hwf le_rfl (fun i _ => hfound i) junk
    rw [luaRNextHelper_length] at hhelper
    obtain ⟨rfl, rfl⟩ := Prod.mk.inj (Except.ok.inj hhelper)
    exact ⟨b', hwalk⟩

/-- The walk visits every entry once and in order: without the cache exactly if
    all keys are shorter than LUA_MAX_ROTABLE_NAME; with it exactly if besides
    none is in the cache when the walk looks it up. -/
theorem luaRNext_iterates_iff (luaRotable t : T) (before : List (Lookup T))
    (during : Nat → List (Lookup T)) (hwf : WellFormed (tables t)) :
    (Iterates tables luaRotable before during none t ↔
      ∀ (i : Nat) (s : List Byte), (tables t)[i]? = some (.str s) →
        s.length < luaMaxRotableName) ∧
    (Iterates tables luaRotable before during (some (rotableCacheInit true).2) t ↔
      ∀ (i : Nat) (s : List Byte), (tables t)[i]? = some (.str s) →
        s.length < luaMaxRotableName ∧
        ∃ c, runLookups tables luaRotable (rotableCacheInit true).2
            (lookupsBefore tables before during t i) = .ok c ∧ ¬ InCache tables c t s) := by
  constructor
  · have hsound : BuildSound tables none := nofun
    rw [iterates_iff_found luaRotable hsound hwf]
    refine forall_congr' fun i => forall₂_congr fun s hkey => ?_
    constructor
    · exact And.left
    · exact fun hlen => ⟨hlen, none, rfl, nofun⟩
  · have hsound : BuildSound tables (some (rotableCacheInit true).2) := by
      rintro c ⟨⟩
      exact Sound.init tables
    rw [iterates_iff_found luaRotable hsound hwf]
    refine forall_congr' fun i => forall₂_congr fun s hkey => and_congr_right fun _ => ?_
    constructor
    · rintro ⟨b', hrun, hmiss⟩
      obtain ⟨c, hlookups, hb'⟩ := bind_eq_ok.mp hrun
      obtain rfl : some c = b' := Except.ok.inj hb'
      exact ⟨c, hlookups, fun hin => hmiss ⟨c, rfl, hin⟩⟩
    · rintro ⟨c, hrun, hmiss⟩
      refine ⟨some c, by simp [runAll, hrun], ?_⟩
      rintro ⟨c', ⟨⟩, hin⟩
      exact hmiss hin

/-- Two short keys, and no other lookups. -/
theorem luaRNext_iterates_two :
    Iterates (fun _ : Unit => [.str [97], .str [98]]) () [] (fun _ => []) none () := by
  have hwf : WellFormed [.str [97], .str [98]] := by
    refine ⟨fun key hkey => ?_, by decide⟩
    obtain rfl | rfl : key = .str [97] ∨ key = .str [98] := by simpa using hkey
    · exact ⟨[97], rfl, by decide⟩
    · exact ⟨[98], rfl, by decide⟩
  refine (luaRNext_iterates_iff () () [] (fun _ => []) hwf).1.mpr fun i s hkey => ?_
  obtain h | h : LuaRKey.str s = .str [97] ∨ LuaRKey.str s = .str [98] := by
    simpa using List.mem_of_getElem? hkey
  · rw [LuaRKey.str.inj h]
    decide
  · rw [LuaRKey.str.inj h]
    decide

/-- One key of 32 bytes, without the cache; and one short key that was looked up
    before the walk, with the cache. -/
theorem not_iterates_long_or_cached :
    (WellFormed [.str (List.replicate 32 97)] ∧
      ¬ Iterates (fun _ : Unit => [.str (List.replicate 32 97)]) () [] (fun _ => []) none ()) ∧
    (WellFormed [.str [97]] ∧
      ¬ Iterates (fun _ : Unit => [.str [97]]) () [.findentry (some ()) (some [97]) 0 none]
        (fun _ => []) (some (rotableCacheInit true).2) ()) := by
  refine ⟨⟨⟨fun key hkey => ?_, by decide⟩, fun h => ?_⟩, ⟨fun key hkey => ?_, by decide⟩,
    fun h => ?_⟩
  · exact ⟨_, by simpa using hkey, by decide⟩
  · obtain ⟨b', hwalk⟩ := h fun _ => ⟨1, 0⟩
    cases hwalk
  · exact ⟨_, by simpa using hkey, by decide⟩
  · -- `keypos` is 1 and stays 1, so the next position is 2
    obtain ⟨b', hwalk⟩ := h fun _ => ⟨1, 0⟩
    cases hwalk

end Walk

end LuaRtos.Rotable
