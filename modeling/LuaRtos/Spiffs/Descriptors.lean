/-
  LuaRtos.Spiffs.Descriptors

  The descriptor table of SPIFFS over runs of `vfs_spiffs_open` and
  `vfs_spiffs_close`.

  `Tied` is what the two functions maintain between the list, the records and
  SPIFFS: the descriptors that are out are in the table, each leads to a record
  of its own with a handle of its own, and nothing else is allocated or open.
  `Keeps` is the condition on a call under which it does maintain it.
-/

import LuaRtos.Spiffs.Files

namespace LuaRtos.Spiffs

open CLib Sys

/-! ## Runs -/

/-- A call, with what it meets. -/
inductive Call where
  | open_ (objs : Objects) (path : List Byte) (flags : BitVec 32) (env : OpenEnv)
  | close (fd : Int) (flush : Option Int)

def exec (s : Vfs) : Call → Result CallResult
  | .open_ objs path flags env => vfsSpiffsOpen objs s path flags env
  | .close fd flush => vfsSpiffsClose s fd flush

/-- What SPIFFS keeps to: the handle it opens is a free one, and its error codes
    are negative. -/
def Contract (s : Vfs) : Call → Prop
  | .open_ _ _ _ env => ∀ name mode,
      (∀ h, env.open_ name mode = .ok h → Free s.handles h) ∧
      (∀ err, env.open_ name mode = .error err → err < 0)
  | .close _ flush => ∀ err ∈ flush, err < 0

/-- The descriptors that were returned by an open, and not closed since. -/
def next (opened : Finset Int) (a : Call) (r : CallResult) : Finset Int :=
  match a with
  | .open_ .. => if r.ret = -1 then opened else insert r.ret opened
  | .close fd _ => if r.ret = 0 then opened.erase fd else opened

/-- The runs of the two functions after the mount, with the descriptors that are out. -/
def calls : Lts (Vfs × Finset Int) Call where
  init p := p = (mounted, ∅)
  step p a p' := Contract p.1 a ∧ ∃ r, exec p.1 a = .ok r ∧ p' = (r.state, next p.2 a r)

/-! ## The table -/

variable {s s' : Vfs} {opened : Finset Int} {m : ListMap Nat} {fd h : Int} {p : Nat}
  {file : VfsFile}

/-- The descriptor leads to a record with the handle. -/
def Ties (s : Vfs) (m : ListMap Nat) (fd h : Int) : Prop :=
  ∃ p file, m.lookup fd = some p ∧ s.heap[p]? = some (some file) ∧ file.spiffs_file = h

/-- The list stores the table `m` of the descriptors that are out. -/
structure Tied (s : Vfs) (opened : Finset Int) (m : ListMap Nat) : Prop where
  table : Refines s.files m
  /-- The live descriptors are those that are out. -/
  live : ∀ fd, fd ∈ m ↔ fd ∈ opened
  /-- Each has a handle that SPIFFS has open. -/
  handle : ∀ fd ∈ opened, ∃ h, Ties s m fd h ∧ Taken s.handles h
  /-- No two have the same one. -/
  own : ∀ fd fd' h, Ties s m fd h → Ties s m fd' h → fd = fd'
  /-- SPIFFS has no others open. -/
  held : ∀ h ∈ s.handles, ∃ fd, Ties s m fd h
  /-- No other records are allocated. -/
  memory : ∀ p, s.heap.Live p → ∃ fd, m.lookup fd = some p

/-- Some table is tied. -/
def Sound (s : Vfs) (opened : Finset Int) : Prop := ∃ m, Tied s opened m

/-- The table, the handles and the records are as they were.  The array of the
    list may have grown by a free slot. -/
structure Unchanged (s s' : Vfs) : Prop where
  table : ∃ m, Refines s.files m ∧ Refines s'.files m
  handles : s'.handles = s.handles
  memory : ∀ (p : Nat) file, s'.heap[p]? = some (some file) ↔ s.heap[p]? = some (some file)

/-- A call comes back, leaves the table sound, and changes nothing when it fails. -/
def Good (p : Vfs × Finset Int) (a : Call) : Prop :=
  ∃ r, exec p.1 a = .ok r ∧ Sound r.state (next p.2 a r) ∧ (r.ret = -1 → Unchanged p.1 r.state)

/-- Neither does `list_add` fail or SPIFFS_open end with END_OF_OBJECT, nor is a
    handle asked for one past the array or SPIFFS_close refused with a code that
    `spiffs_result` makes non-negative. -/
def Keeps (p : Vfs × Finset Int) : Call → Prop
  | .open_ objs path flags env => env.calloc = true → AddCond p.1.files env.malloc ∧
      env.open_ (openName objs path) (spiffsMode flags) ≠ .error SPIFFS_ERR_END_OF_OBJECT
  | .close fd flush => GetCond ⟨p.1.files, ∅⟩ fd ∧
      (fd ∈ p.2 → ∀ err ∈ flush, spiffsResult err < 0)

/-! ## Tables -/

/-- A list stores one table. -/
theorem refines_unique {l : CList Nat} {m m' : ListMap Nat} (h : Refines l m)
    (h' : Refines l m') : m = m' := by
  apply Finmap.ext_lookup
  intro k
  apply Option.ext
  intro x
  exact (h.live k x).trans (h'.live k x).symm

theorem Ties.fst_mem (ht : Ties s m fd h) : fd ∈ m := by
  obtain ⟨p, file, hp, -⟩ := ht
  exact Finmap.mem_iff.mpr ⟨p, hp⟩

theorem Ties.unique {h' : Int} (ht : Ties s m fd h) (ht' : Ties s m fd h') : h = h' := by
  obtain ⟨p, file, hp, hfile, rfl⟩ := ht
  obtain ⟨p', file', hp', hfile', rfl⟩ := ht'
  rw [hp] at hp'
  cases hp'
  rw [hfile] at hfile'
  cases hfile'
  rfl

theorem Tied.taken (ht : Tied s opened m) (h' : Ties s m fd h) : Taken s.handles h := by
  obtain ⟨h₁, hties, htaken⟩ := ht.handle fd ((ht.live fd).mp h'.fst_mem)
  rw [h'.unique hties]
  exact htaken

/-- The pointer of a descriptor points to an allocated record. -/
theorem Tied.record (ht : Tied s opened m) (hp : m.lookup fd = some p) :
    ∃ file, s.heap[p]? = some (some file) ∧ Taken s.handles file.spiffs_file := by
  have hmem : fd ∈ m := Finmap.mem_iff.mpr ⟨p, hp⟩
  obtain ⟨h, ⟨p', file, hp', hfile, rfl⟩, htaken⟩ := ht.handle fd ((ht.live fd).mp hmem)
  rw [hp] at hp'
  cases hp'
  exact ⟨file, hfile, htaken⟩

theorem Tied.lt_length (ht : Tied s opened m) (hp : m.lookup fd = some p) :
    p < s.heap.length := by
  obtain ⟨file, hfile, -⟩ := ht.record hp
  exact (List.getElem?_eq_some_iff.mp hfile).1

theorem Tied.fresh (ht : Tied s opened m) (hfd : m.lookup fd = none) : fd ∉ opened := by
  intro hmem
  obtain ⟨p, hp⟩ := Finmap.mem_iff.mp ((ht.live fd).mpr hmem)
  rw [hfd] at hp
  cases hp

/-! ## Calls that change nothing -/

/-- The list may be stored differently, and freed blocks may be added. -/
theorem Tied.congr (ht : Tied s opened m) (htable : Refines s'.files m)
    (hhandles : s'.handles = s.handles)
    (hmemory : ∀ (p : Nat) file, s'.heap[p]? = some (some file) ↔ s.heap[p]? = some (some file)) :
    Tied s' opened m := by
  have hties : ∀ fd h, Ties s' m fd h ↔ Ties s m fd h := by
    intro fd h
    unfold Ties
    simp only [hmemory]
  refine ⟨htable, ht.live, ?_, ?_, ?_, ?_⟩
  · intro fd hfd
    obtain ⟨h, hh, htaken⟩ := ht.handle fd hfd
    exact ⟨h, (hties fd h).mpr hh, hhandles ▸ htaken⟩
  · intro fd fd' h hh hh'
    exact ht.own fd fd' h ((hties fd h).mp hh) ((hties fd' h).mp hh')
  · intro h hh
    obtain ⟨fd, hfd⟩ := ht.held h (hhandles ▸ hh)
    exact ⟨fd, (hties fd h).mpr hfd⟩
  · rintro p ⟨file, hfile⟩
    exact ht.memory p ⟨file, (hmemory p file).mp hfile⟩

theorem Tied.unchanged (ht : Tied s opened m) : Unchanged s s :=
  ⟨⟨m, ht.table, ht.table⟩, rfl, fun _ _ => Iff.rfl⟩

/-! ## A descriptor more -/

section Opens

variable {l' : CList Nat} {hd : Int}

theorem Tied.ties_open (ht : Tied s opened m) (hfd : m.lookup fd = none)
    (hfile : file.spiffs_file = hd) {handles : Finset Int} {fd' : Int} :
    Ties ⟨l', s.heap.alloc file, handles⟩ (m.insert fd s.heap.length) fd' h ↔
      fd' = fd ∧ h = hd ∨ Ties s m fd' h := by
  constructor
  · rintro ⟨p, f, hp, hf, rfl⟩
    rcases Heap.getElem?_alloc_iff.mp hf with hold | ⟨rfl, rfl⟩
    · by_cases hfd' : fd' = fd
      · rw [hfd', Finmap.lookup_insert] at hp
        cases hp
        rw [List.getElem?_eq_none (Nat.le_refl _)] at hold
        cases hold
      · rw [Finmap.lookup_insert_of_ne _ hfd'] at hp
        exact .inr ⟨p, f, hp, hold, rfl⟩
    · by_cases hfd' : fd' = fd
      · exact .inl ⟨hfd', hfile⟩
      · -- the block is a new one, and the old descriptors have old ones
        rw [Finmap.lookup_insert_of_ne _ hfd'] at hp
        exact absurd (ht.lt_length hp) (Nat.lt_irrefl _)
  · rintro (⟨rfl, rfl⟩ | ⟨p, f, hp, hf, rfl⟩)
    · exact ⟨s.heap.length, file, Finmap.lookup_insert m, Heap.getElem?_alloc_self, hfile⟩
    · have hne : fd' ≠ fd := by
        rintro rfl
        rw [hfd] at hp
        cases hp
      exact ⟨p, f, (Finmap.lookup_insert_of_ne _ hne).trans hp,
        Heap.getElem?_alloc_iff.mpr (.inl hf), rfl⟩

theorem Tied.opens (ht : Tied s opened m) (hfd : m.lookup fd = none)
    (htable : Refines l' (m.insert fd s.heap.length)) (hfile : file.spiffs_file = hd)
    (hfree : Free s.handles hd) :
    Tied ⟨l', s.heap.alloc file, insert hd s.handles⟩ (insert fd opened)
      (m.insert fd s.heap.length) := by
  have hnew : ∀ {fd'}, ¬ Ties s m fd' hd := fun hties => hfree.fresh (ht.taken hties).mem
  refine ⟨htable, ?_, ?_, ?_, ?_, ?_⟩
  · intro fd'
    rw [Finmap.mem_insert, Finset.mem_insert, ht.live]
  · intro fd' hfd'
    rcases Finset.mem_insert.mp hfd' with rfl | hold
    · exact ⟨hd, (ht.ties_open hfd hfile).mpr (.inl ⟨rfl, rfl⟩),
        hfree.pos, hfree.le, Finset.mem_insert_self _ _⟩
    · obtain ⟨h, hties, htaken⟩ := ht.handle fd' hold
      exact ⟨h, (ht.ties_open hfd hfile).mpr (.inr hties), htaken.pos, htaken.le,
        Finset.mem_insert_of_mem htaken.mem⟩
  · intro fd₁ fd₂ h h₁ h₂
    rcases (ht.ties_open hfd hfile).mp h₁ with ⟨rfl, rfl⟩ | hold₁
    · rcases (ht.ties_open hfd hfile).mp h₂ with ⟨rfl, -⟩ | hold₂
      · rfl
      · exact absurd hold₂ hnew
    · rcases (ht.ties_open hfd hfile).mp h₂ with ⟨-, rfl⟩ | hold₂
      · exact absurd hold₁ hnew
      · exact ht.own fd₁ fd₂ h hold₁ hold₂
  · intro h hh
    rcases Finset.mem_insert.mp hh with rfl | hold
    · exact ⟨fd, (ht.ties_open hfd hfile).mpr (.inl ⟨rfl, rfl⟩)⟩
    · obtain ⟨fd', hties⟩ := ht.held h hold
      exact ⟨fd', (ht.ties_open hfd hfile).mpr (.inr hties)⟩
  · rintro p ⟨f, hf⟩
    rcases Heap.getElem?_alloc_iff.mp hf with hold | ⟨rfl, -⟩
    · obtain ⟨fd', hp⟩ := ht.memory p ⟨f, hold⟩
      have hne : fd' ≠ fd := by
        rintro rfl
        rw [hfd] at hp
        cases hp
      exact ⟨fd', (Finmap.lookup_insert_of_ne _ hne).trans hp⟩
    · exact ⟨fd, Finmap.lookup_insert m⟩

end Opens

/-! ## A descriptor less -/

section Closes

variable {l' : CList Nat}

theorem Tied.ties_close (ht : Tied s opened m) (hfd : m.lookup fd = some p)
    (hfile : s.heap[p]? = some (some file)) {handles : Finset Int} {fd' : Int} :
    Ties ⟨l', s.heap.set p none, handles⟩ (m.erase fd) fd' h ↔ fd' ≠ fd ∧ Ties s m fd' h := by
  constructor
  · rintro ⟨q, f, hq, hf, rfl⟩
    have hne : fd' ≠ fd := by
      rintro rfl
      rw [Finmap.lookup_erase] at hq
      cases hq
    rw [Finmap.lookup_erase_ne hne] at hq
    exact ⟨hne, q, f, hq, (Heap.getElem?_set_none_iff.mp hf).1, rfl⟩
  · rintro ⟨hne, q, f, hq, hf, rfl⟩
    refine ⟨q, f, (Finmap.lookup_erase_ne hne).trans hq,
      Heap.getElem?_set_none_iff.mpr ⟨hf, ?_⟩, rfl⟩
    -- two descriptors with one record would have one handle
    rintro rfl
    exact hne (ht.own fd' fd f.spiffs_file ⟨q, f, hq, hf, rfl⟩ ⟨q, f, hfd, hf, rfl⟩)

theorem Tied.closes (ht : Tied s opened m) (hfd : m.lookup fd = some p)
    (hfile : s.heap[p]? = some (some file)) (htable : Refines l' (m.erase fd)) :
    Tied ⟨l', s.heap.set p none, s.handles.erase file.spiffs_file⟩ (opened.erase fd)
      (m.erase fd) := by
  have hclosed : Ties s m fd file.spiffs_file := ⟨p, file, hfd, hfile, rfl⟩
  refine ⟨htable, ?_, ?_, ?_, ?_, ?_⟩
  · intro fd'
    rw [Finmap.mem_erase, Finset.mem_erase, ht.live]
  · intro fd' hfd'
    obtain ⟨hne, hold⟩ := Finset.mem_erase.mp hfd'
    obtain ⟨h, hties, htaken⟩ := ht.handle fd' hold
    refine ⟨h, (ht.ties_close hfd hfile).mpr ⟨hne, hties⟩, htaken.pos, htaken.le, ?_⟩
    refine Finset.mem_erase.mpr ⟨?_, htaken.mem⟩
    rintro rfl
    exact hne (ht.own fd' fd _ hties hclosed)
  · intro fd₁ fd₂ h h₁ h₂
    exact ht.own fd₁ fd₂ h ((ht.ties_close hfd hfile).mp h₁).2
      ((ht.ties_close hfd hfile).mp h₂).2
  · intro h hh
    obtain ⟨hne, hold⟩ := Finset.mem_erase.mp hh
    obtain ⟨fd', hties⟩ := ht.held h hold
    refine ⟨fd', (ht.ties_close hfd hfile).mpr ⟨?_, hties⟩⟩
    rintro rfl
    exact hne (hties.unique hclosed)
  · rintro q ⟨f, hf⟩
    obtain ⟨hold, hqp⟩ := Heap.getElem?_set_none_iff.mp hf
    obtain ⟨fd', hq⟩ := ht.memory q ⟨f, hold⟩
    have hne : fd' ≠ fd := by
      rintro rfl
      rw [hfd] at hq
      exact hqp (Option.some.inj hq).symm
    exact ⟨fd', (Finmap.lookup_erase_ne hne).trans hq⟩

end Closes

/-! ## Calls -/

theorem good_iff_of_exec (a : Call) {r : CallResult} (hr : exec s a = .ok r) :
    Good (s, opened) a ↔
      Sound r.state (next opened a r) ∧ (r.ret = -1 → Unchanged s r.state) := by
  constructor
  · rintro ⟨r', hr', hgood⟩
    obtain rfl : r = r' := Except.ok.inj (hr.symm.trans hr')
    exact hgood
  · intro hgood
    exact ⟨r, hr, hgood⟩

theorem spiffsResult_eq_zero {err : Int} (hneg : err < 0) :
    spiffsResult err = 0 ↔ err = SPIFFS_ERR_END_OF_OBJECT := by
  constructor
  · intro h
    unfold spiffsResult at h
    split at h
    · next hzero => exact hzero.resolve_left (Int.ne_of_lt hneg)
    split at h
    · cases h
    split at h
    · cases h
    split at h
    · cases h
    · exact absurd h (Int.ne_of_lt hneg)
  · rintro rfl
    rfl

theorem unchanged_of_freed {l' : CList Nat} (ht : Tied s opened m) (htable : Refines l' m) :
    Unchanged s ⟨l', s.heap ++ [none], s.handles⟩ :=
  ⟨⟨m, ht.table, htable⟩, rfl, fun _ _ => Heap.getElem?_append_none_iff⟩

theorem Tied.freed {l' : CList Nat} (ht : Tied s opened m) (htable : Refines l' m) :
    Tied ⟨l', s.heap ++ [none], s.handles⟩ opened m :=
  ht.congr htable rfl fun _ _ => Heap.getElem?_append_none_iff

section Open

variable {objs : Objects} {path : List Byte} {flags : BitVec 32} {env : OpenEnv}

theorem Tied.good_open (ht : Tied s opened m) (hc : Contract s (.open_ objs path flags env))
    (hok : Keeps (s, opened) (.open_ objs path flags env)) :
    Good (s, opened) (.open_ objs path flags env) := by
  by_cases hcalloc : env.calloc = true
  · obtain ⟨hadd, hend⟩ := hok hcalloc
    obtain ⟨hfree, hneg⟩ := hc (openName objs path) (spiffsMode flags)
    cases hopen : env.open_ (openName objs path) (spiffsMode flags) with
    | ok hd =>
      obtain ⟨fd, l', file, fupdate, hfd, hfresh, htable, hfile, heq⟩ :=
        open_ok ht.table hcalloc hadd hopen
      have hret : fd ≠ -1 := by omega
      refine (good_iff_of_exec (.open_ objs path flags env) heq).mpr ⟨?_, fun h => absurd h hret⟩
      rw [next, if_neg hret]
      exact ⟨_, ht.opens hfresh htable hfile (hfree hd hopen)⟩
    | error err =>
      have herr : spiffsResult err ≠ 0 := by
        intro hzero
        rw [spiffsResult_eq_zero (hneg err hopen)] at hzero
        exact hend (hzero ▸ hopen)
      obtain ⟨l', htable, heq⟩ := open_error ht.table hcalloc hadd hopen herr
      refine (good_iff_of_exec (.open_ objs path flags env) heq).mpr
        ⟨?_, fun _ => unchanged_of_freed ht htable⟩
      exact ⟨m, ht.freed htable⟩
  · have hnot : env.calloc = false := Bool.eq_false_iff.mpr hcalloc
    exact (good_iff_of_exec (.open_ objs path flags env) (open_nomem hnot)).mpr
      ⟨⟨m, ht⟩, fun _ => ht.unchanged⟩

/-- A descriptor whose handle is an error code. -/
theorem Tied.not_sound_open {l' : CList Nat} (hlt : file.spiffs_file < 0)
    (htable : Refines l' (m.insert fd s.heap.length)) :
    ¬ Sound ⟨l', s.heap.alloc file, s.handles⟩ (insert fd opened) := by
  rintro ⟨m', ht⟩
  obtain rfl := refines_unique ht.table htable
  obtain ⟨f, hf, htaken⟩ := ht.record (Finmap.lookup_insert m)
  obtain rfl : file = f :=
    Option.some.inj (Option.some.inj (Heap.getElem?_alloc_self.symm.trans hf))
  have hpos := htaken.pos
  omega

theorem Tied.keeps_open (ht : Tied s opened m)
    (hgood : Good (s, opened) (.open_ objs path flags env)) :
    Keeps (s, opened) (.open_ objs path flags env) := by
  intro hcalloc
  have hadd : AddCond s.files env.malloc := by
    by_contra hno
    obtain ⟨hfree, hgrow⟩ := not_or.mp hno
    rw [not_not] at hfree
    cases hmalloc : env.malloc with
    | none =>
      -- the counter is one above the array
      obtain ⟨-, hfail⟩ := (good_iff_of_exec (.open_ objs path flags env)
        (open_nolist hcalloc hfree hmalloc)).mp hgood
      obtain ⟨⟨m', hbefore, hafter⟩, -, -⟩ := hfail rfl
      have hcount : (s.files.indexes + 1).toNat = s.files.indexes.toNat :=
        hafter.count.symm.trans hbefore.count
      have hsame : s.files.indexes + 1 = s.files.indexes := UInt8.toNat_inj.mp hcount
      simp at hsame
    | some mem =>
      have hend : s.files.indexes = 255 := by
        rw [hmalloc] at hgrow
        simpa using hgrow
      have hsome : env.malloc.isSome := by
        rw [hmalloc]
        rfl
      obtain ⟨r, hr, -⟩ := hgood
      cases (open_wrap ht.table hcalloc hfree hend hsome).symm.trans hr
  refine ⟨hadd, ?_⟩
  intro hopen
  obtain ⟨fd, l', file, hfd, hfresh, htable, hfile, heq⟩ :=
    open_end ht.table hcalloc hadd hopen rfl
  have hret : fd ≠ -1 := by omega
  obtain ⟨hsound, -⟩ := (good_iff_of_exec (.open_ objs path flags env) heq).mp hgood
  rw [next, if_neg hret] at hsound
  refine Tied.not_sound_open ?_ htable hsound
  rw [hfile]
  decide

end Open

section Close

variable {flush : Option Int}

theorem Tied.good_close (ht : Tied s opened m) (hc : Contract s (.close fd flush))
    (hok : Keeps (s, opened) (.close fd flush)) : Good (s, opened) (.close fd flush) := by
  obtain ⟨hget, hflush⟩ := hok
  cases hfd : m.lookup fd with
  | none =>
    have heq := close_dead ht.table hfd hget flush
    exact (good_iff_of_exec (.close fd flush) heq).mpr ⟨⟨m, ht⟩, fun _ => ht.unchanged⟩
  | some p =>
    obtain ⟨file, hfile, htaken⟩ := ht.record hfd
    cases flush with
    | none =>
      obtain ⟨l', htable, heq⟩ := close_ok ht.table hfd hfile htaken
      refine (good_iff_of_exec (.close fd none) heq).mpr ⟨⟨_, ht.closes hfd hfile htable⟩, ?_⟩
      intro hret
      cases hret
    | some err =>
      have hmem : fd ∈ opened := (ht.live fd).mp (Finmap.mem_iff.mpr ⟨p, hfd⟩)
      have herr := hflush hmem err rfl
      have hne : err ≠ 0 := Int.ne_of_lt (hc err rfl)
      have heq := close_error ht.table hfd hfile htaken hne herr
      exact (good_iff_of_exec (.close fd (some err)) heq).mpr ⟨⟨m, ht⟩, fun _ => ht.unchanged⟩

/-- A handle that no descriptor leads to. -/
theorem Tied.not_sound_close {l' : CList Nat} (ht : Tied s opened m) (hfd : m.lookup fd = some p)
    (hfile : s.heap[p]? = some (some file)) (htaken : Taken s.handles file.spiffs_file)
    (htable : Refines l' (m.erase fd)) :
    ¬ Sound ⟨l', s.heap.set p none, s.handles⟩ (opened.erase fd) := by
  rintro ⟨m', ht'⟩
  obtain rfl := refines_unique ht'.table htable
  obtain ⟨fd', hties⟩ := ht'.held file.spiffs_file htaken.mem
  obtain ⟨hne, hold⟩ := (ht.ties_close hfd hfile).mp hties
  exact hne (ht.own fd' fd _ hold ⟨p, file, hfd, hfile, rfl⟩)

theorem Tied.keeps_close (ht : Tied s opened m) (hc : Contract s (.close fd flush))
    (hgood : Good (s, opened) (.close fd flush)) : Keeps (s, opened) (.close fd flush) := by
  constructor
  · by_contra hend
    obtain ⟨r, hr, -⟩ := hgood
    exact close_end ht.table hend flush r hr
  · intro hmem err herr
    obtain ⟨p, hfd⟩ := Finmap.mem_iff.mp ((ht.live fd).mpr hmem)
    obtain ⟨file, hfile, htaken⟩ := ht.record hfd
    obtain rfl : flush = some err := herr
    by_contra hnot
    have hne : err ≠ 0 := Int.ne_of_lt (hc err rfl)
    obtain ⟨l', htable, heq⟩ := close_leak ht.table hfd hfile htaken hne hnot
    obtain ⟨hsound, -⟩ := (good_iff_of_exec (.close fd (some err)) heq).mp hgood
    exact ht.not_sound_close hfd hfile htaken htable hsound

end Close

/-! ## Runs -/

theorem sound_mounted : Sound mounted ∅ := by
  refine ⟨∅, refines_init 0, ?_, ?_, ?_, ?_, ?_⟩
  · intro fd
    exact ⟨fun h => absurd h Finmap.notMem_empty, fun h => absurd h (Finset.notMem_empty fd)⟩
  · intro fd hfd
    exact absurd hfd (Finset.notMem_empty fd)
  · intro fd fd' h hties
    exact absurd hties.fst_mem Finmap.notMem_empty
  · intro h hh
    exact absurd hh (Finset.notMem_empty h)
  · rintro p ⟨file, hfile⟩
    cases hfile

/-- On a sound table the condition says which calls are good. -/
theorem Sound.good_iff (hs : Sound s opened) {a : Call} (hc : Contract s a) :
    Good (s, opened) a ↔ Keeps (s, opened) a := by
  obtain ⟨m, ht⟩ := hs
  cases a with
  | open_ objs path flags env => exact ⟨ht.keeps_open, ht.good_open hc⟩
  | close fd flush => exact ⟨ht.keeps_close hc, ht.good_close hc⟩

theorem sound_of_keeps {p : Vfs × Finset Int} (h : calls.Reach Keeps p) : Sound p.1 p.2 := by
  apply Lts.Reach.invariant (L := calls) (I := fun p => Sound p.1 p.2) _ _ h
  · rintro p rfl
    exact sound_mounted
  · rintro ⟨s, opened⟩ a p' hs hok ⟨hc, r, hr, rfl⟩
    exact ((good_iff_of_exec a hr).mp ((hs.good_iff hc).mpr hok)).1

/-- Over every run whose calls meet the condition the table is sound, and the
    next call is good just when it meets it too. -/
theorem descriptors_iff {p : Vfs × Finset Int} (h : calls.Reach Keeps p) :
    Sound p.1 p.2 ∧ ∀ a, Contract p.1 a → (Good p a ↔ Keeps p a) := by
  have hsound := sound_of_keeps h
  exact ⟨hsound, fun a hc => hsound.good_iff hc⟩

/-- An open of "/d/a" that gets handle 1, with the array of the list or without. -/
def openFile (malloc : Option (Nat → ListIndex Nat)) : Call :=
  .open_ oneFile (chars "/d/a") O_RDONLY ⟨true, malloc, true, fun _ _ => .ok 1, none, 0⟩

theorem contract_openFile (malloc : Option (Nat → ListIndex Nat)) :
    Contract mounted (openFile malloc) := by
  intro name mode
  constructor
  · intro h hopen
    obtain rfl : 1 = h := Except.ok.inj hopen
    exact ⟨by decide, by decide, by decide⟩
  · intro err hopen
    cases hopen

/-- The state after it. -/
def oneOpen : Vfs :=
  ⟨⟨some ⟨0, [⟨0, 0, 0, none⟩]⟩, none, 1, 0⟩, [some ⟨1, chars "/d/a", false⟩], insert 1 ∅⟩

theorem reach_oneOpen {ok : Vfs × Finset Int → Call → Prop}
    (hok : ok (mounted, ∅) (openFile (some fun _ => ⟨0, 0, 0, none⟩))) :
    calls.Reach ok (oneOpen, insert 0 ∅) :=
  .step (.init rfl) hok ⟨contract_openFile _, _, rfl, rfl⟩

theorem keeps_openFile : Keeps (mounted, ∅) (openFile (some fun _ => ⟨0, 0, 0, none⟩)) :=
  fun _ => ⟨.inr ⟨rfl, by decide⟩, nofun⟩

theorem descriptors_iff_oneOpen : Sound oneOpen (insert 0 ∅) ∧
    ∀ a, Contract oneOpen a → (Good (oneOpen, insert 0 ∅) a ↔ Keeps (oneOpen, insert 0 ∅) a) :=
  descriptors_iff (reach_oneOpen keeps_openFile)

/-- The first open is refused the array of the list, and a close the flush of
    the handle. -/
theorem descriptors_lost :
    (calls.Reach (fun _ _ => True) (mounted, ∅) ∧ Contract mounted (openFile none) ∧
      ¬ Good (mounted, ∅) (openFile none)) ∧
    (calls.Reach (fun _ _ => True) (oneOpen, insert 0 ∅) ∧
      Contract oneOpen (.close 0 (some SPIFFS_ERR_NOT_FOUND)) ∧
      ¬ Good (oneOpen, insert 0 ∅) (.close 0 (some SPIFFS_ERR_NOT_FOUND))) := by
  have hclose : Contract oneOpen (.close 0 (some SPIFFS_ERR_NOT_FOUND)) := by
    rintro err ⟨⟩
    decide
  refine ⟨⟨.init rfl, contract_openFile _, ?_⟩, reach_oneOpen trivial, hclose, ?_⟩
  · intro hgood
    obtain ⟨hadd, -⟩ := (sound_mounted.good_iff (contract_openFile _)).mp hgood rfl
    rcases hadd with hfree | ⟨hsome, -⟩
    · exact hfree rfl
    · cases hsome
  · intro hgood
    have hsound : Sound oneOpen (insert 0 ∅) := sound_of_keeps (reach_oneOpen keeps_openFile)
    obtain ⟨-, hflush⟩ := (hsound.good_iff hclose).mp hgood
    exact absurd (hflush (Finset.mem_insert_self 0 ∅) _ rfl) (by decide)

end LuaRtos.Spiffs
