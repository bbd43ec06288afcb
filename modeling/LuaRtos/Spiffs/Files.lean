/-
  LuaRtos.Spiffs.Files

  `vfs_spiffs_open` and `vfs_spiffs_close`: a record on the heap, its pointer in
  the handle list under the descriptor, and the handle that SPIFFS opened for it.

  SPIFFS is what the two calls see of it: the set of the handles it has open,
  and for every call whether it fails.  A handle is taken from the free ones of
  `fd_count`, and is given back by a close whose flush does not fail.
-/

import LuaRtos.CLib.Heap
import LuaRtos.Spiffs.Unlink
import LuaRtos.Sys.ListFailure

namespace LuaRtos.Spiffs

open CLib Sys

/-! ## Flags -/

def O_RDONLY : BitVec 32 := 0
def O_WRONLY : BitVec 32 := 1
def O_RDWR : BitVec 32 := 2
def O_CREAT : BitVec 32 := 0x0200
def O_TRUNC : BitVec 32 := 0x0400
def O_EXCL : BitVec 32 := 0x0800

def SPIFFS_TRUNC : BitVec 16 := 2
def SPIFFS_CREAT : BitVec 16 := 4
def SPIFFS_RDONLY : BitVec 16 := 8
def SPIFFS_WRONLY : BitVec 16 := 16
def SPIFFS_RDWR : BitVec 16 := SPIFFS_RDONLY ||| SPIFFS_WRONLY
def SPIFFS_EXCL : BitVec 16 := 64

/-- The translation of the flags in `vfs_spiffs_open`. -/
def spiffsMode (flags : BitVec 32) : BitVec 16 :=
  let mode := if flags = O_RDONLY then SPIFFS_RDONLY else 0
  let mode := if flags &&& O_WRONLY ≠ 0 then mode ||| SPIFFS_WRONLY else mode
  let mode := if flags &&& O_RDWR ≠ 0 then SPIFFS_RDWR else mode
  let mode := if flags &&& O_EXCL ≠ 0 then mode ||| SPIFFS_EXCL else mode
  let mode := if flags &&& O_CREAT ≠ 0 then mode ||| SPIFFS_CREAT else mode
  if flags &&& O_TRUNC ≠ 0 then mode ||| SPIFFS_TRUNC else mode

/-! ## The state -/

/-- `vfs_spiffs_file_t`. -/
structure VfsFile where
  spiffs_file : Int
  path : List Byte
  is_dir : Bool
deriving DecidableEq, Repr

/-- `spiffs_metadata_t`. -/
structure Metadata where
  mtime : Int
  ctime : Int
  atime : Int
deriving DecidableEq, Repr

/-- `files`, which holds pointers to records, the records, and the handles that
    SPIFFS has open. -/
structure Vfs where
  files : CList Nat
  heap : Heap VfsFile
  handles : Finset Int

/-- The state after `vfs_spiffs_mount`. -/
def mounted : Vfs := ⟨listInit 0, [], ∅⟩

/-- What a call of `vfs_spiffs_open` meets. -/
structure OpenEnv where
  /-- `calloc` gets the record. -/
  calloc : Bool
  /-- What `list_add` gets from `malloc`. -/
  malloc : Option (Nat → ListIndex Nat)
  /-- `SPIFFS_stat` finds the file. -/
  stat : Bool
  /-- The handle that `SPIFFS_open` returns, or its error code. -/
  open_ : List Byte → BitVec 16 → Except Int Int
  /-- The metadata that `SPIFFS_fstat` reads, when it does not fail. -/
  fstat : Option Metadata
  time : Int

/-- What a call returns: its value, `errno`, the state, and for `vfs_spiffs_open`
    what it passes to `SPIFFS_fupdate_meta`. -/
structure CallResult where
  ret : Int
  errno : Option Int
  state : Vfs
  fupdate : Option (Int × Metadata)

/-! ## The functions -/

/-- The time information that `vfs_spiffs_open` writes back. -/
def openMeta (env : OpenEnv) (mode : BitVec 16) (md : Metadata) : Metadata where
  atime := env.time
  ctime := if env.stat then md.ctime else env.time
  mtime := if mode ≠ SPIFFS_RDONLY then env.time else md.mtime

/-- The `free` of the item that `list_remove` takes out. -/
def freeItem (heap : Heap VfsFile) : Option Nat → Result (Heap VfsFile)
  | none => pure heap
  | some p => heap.free p

/-- The name that `vfs_spiffs_open` passes to `SPIFFS_open`. -/
def openName (objs : Objects) (path : List Byte) : List Byte :=
  if isDir objs path then dirPath path else path

/-- `vfs_spiffs_open`. -/
def vfsSpiffsOpen (objs : Objects) (s : Vfs) (path : List Byte) (flags : BitVec 32)
    (env : OpenEnv) : Result CallResult :=
  -- Allocate new file
  if !env.calloc then pure ⟨-1, some ENOMEM, s, none⟩
  else do
    let file := s.heap.length
    let heap := s.heap.alloc ⟨0, [], false⟩
    -- Add file to file list. List index is file descriptor.
    let r ← listAdd s.files file env.malloc
    match r.itemIndex with
    | none =>
      let heap ← heap.free file
      pure ⟨-1, some ENOMEM, ⟨r.list, heap, s.handles⟩, none⟩
    | some fd =>
      let mode := spiffsMode flags
      match env.open_ (openName objs path) mode with
      | .ok h =>
        let heap ← heap.write file ⟨h, strlcpy path MAXNAMLEN, isDir objs path⟩
        pure ⟨fd, none, ⟨r.list, heap, insert h s.handles⟩,
          env.fstat.map fun md => (h, openMeta env mode md)⟩
      | .error err =>
        let heap ← heap.write file ⟨err, strlcpy path MAXNAMLEN, isDir objs path⟩
        let result := spiffsResult err
        if result ≠ 0 then do
          let q ← listRemove r.list fd true
          let heap ← freeItem heap q.freed
          pure ⟨-1, some result, ⟨q.list, heap, s.handles⟩, none⟩
        else
          -- SPIFFS_fstat fails on the error code
          pure ⟨fd, none, ⟨r.list, heap, s.handles⟩, none⟩

/-- The descriptors of SPIFFS. -/
def FD_COUNT : Int := 5

def SPIFFS_ERR_FILE_CLOSED : Int := -10008
def SPIFFS_ERR_BAD_DESCRIPTOR : Int := -10010

/-- `SPIFFS_close`, whose flush may fail with the code `flush`. -/
def spiffsClose (handles : Finset Int) (h : Int) (flush : Option Int) : Int × Finset Int :=
  if h ≤ 0 ∨ h > FD_COUNT then (SPIFFS_ERR_BAD_DESCRIPTOR, handles)
  else if h ∉ handles then (SPIFFS_ERR_FILE_CLOSED, handles)
  else
    match flush with
    | some err => (err, handles)
    | none => (SPIFFS_OK, handles.erase h)

/-- `vfs_spiffs_close`. -/
def vfsSpiffsClose (s : Vfs) (fd : Int) (flush : Option Int) : Result CallResult := do
  let got ← listGet s.files fd
  match got with
  | (.success, some p) =>
    let file ← s.heap.read p
    let (res, handles) := spiffsClose s.handles file.spiffs_file flush
    let res := if res ≠ 0 then spiffsResult res else res
    if res < 0 then pure ⟨-1, some res, ⟨s.files, s.heap, handles⟩, none⟩
    else do
      let r ← listRemove s.files fd true
      let heap ← freeItem s.heap r.freed
      pure ⟨0, none, ⟨r.list, heap, handles⟩, none⟩
  | _ => pure ⟨-1, some EBADF, s, none⟩

/-! ## What `vfs_spiffs_open` does -/

section Open

variable {objs : Objects} {s : Vfs} {m : ListMap Nat} {path : List Byte} {flags : BitVec 32}
  {env : OpenEnv}

theorem open_nomem (hcalloc : env.calloc = false) :
    vfsSpiffsOpen objs s path flags env = .ok ⟨-1, some ENOMEM, s, none⟩ := by
  unfold vfsSpiffsOpen
  rw [hcalloc]
  rfl

/-- Without room in the array, and memory for more, the counter is left advanced. -/
theorem open_nolist (hcalloc : env.calloc = true) (hfree : s.files.free = none)
    (hmalloc : env.malloc = none) :
    vfsSpiffsOpen objs s path flags env = .ok ⟨-1, some ENOMEM,
      ⟨{ s.files with indexes := s.files.indexes + 1 }, s.heap ++ [none], s.handles⟩, none⟩ := by
  unfold vfsSpiffsOpen
  simp only [hcalloc, hmalloc, Bool.not_true, Bool.false_eq_true, if_false,
    listAdd_enomem hfree, ok_bind, Heap.free_alloc, pure_eq_ok]

theorem open_wrap (h : Refines s.files m) (hcalloc : env.calloc = true)
    (hfree : s.files.free = none) (hend : s.files.indexes = 255)
    (hmalloc : env.malloc.isSome) :
    vfsSpiffsOpen objs s path flags env = .error .outOfBounds := by
  obtain ⟨mem, hmem⟩ := Option.isSome_iff_exists.mp hmalloc
  unfold vfsSpiffsOpen
  simp only [hcalloc, hmem, Bool.not_true, Bool.false_eq_true, if_false,
    listAdd_wrap h.stores hfree hend, error_bind]

theorem handle_nonneg (l : CList Nat) (i : Nat) : 0 ≤ l.handle i := by
  unfold CList.handle
  omega

/-- SPIFFS opens the file. -/
theorem open_ok (h : Refines s.files m) (hcalloc : env.calloc = true)
    (hadd : AddCond s.files env.malloc) {hd : Int}
    (hopen : env.open_ (openName objs path) (spiffsMode flags) = .ok hd) :
    ∃ fd l' file fupdate, 0 ≤ fd ∧ m.lookup fd = none ∧
      Refines l' (m.insert fd s.heap.length) ∧ file.spiffs_file = hd ∧
      vfsSpiffsOpen objs s path flags env =
        .ok ⟨fd, none, ⟨l', s.heap.alloc file, insert hd s.handles⟩, fupdate⟩ := by
  obtain ⟨i, e, l', heq, hfresh, -, href⟩ := h.listAdd_ok hadd s.heap.length
  refine ⟨s.files.handle i, l', ⟨hd, strlcpy path MAXNAMLEN, isDir objs path⟩,
    env.fstat.map fun md => (hd, openMeta env (spiffsMode flags) md), handle_nonneg _ i, hfresh,
    href, rfl, ?_⟩
  unfold vfsSpiffsOpen
  simp only [hcalloc, Bool.not_true, Bool.false_eq_true, if_false, heq, ok_bind, hopen,
    Heap.write_alloc, pure_eq_ok]

/-- SPIFFS refuses, and everything is taken back. -/
theorem open_error (h : Refines s.files m) (hcalloc : env.calloc = true)
    (hadd : AddCond s.files env.malloc) {err : Int}
    (hopen : env.open_ (openName objs path) (spiffsMode flags) = .error err)
    (herr : spiffsResult err ≠ 0) :
    ∃ l', Refines l' m ∧ vfsSpiffsOpen objs s path flags env =
      .ok ⟨-1, some (spiffsResult err), ⟨l', s.heap ++ [none], s.handles⟩, none⟩ := by
  obtain ⟨i, e, l', heq, hfresh, -, href⟩ := h.listAdd_ok hadd s.heap.length
  obtain ⟨l'', hremove, href'⟩ := href.listRemove_lookup (Finmap.lookup_insert m)
  have hback : (m.insert (s.files.handle i) s.heap.length).erase (s.files.handle i) = m := by
    apply Finmap.ext_lookup
    intro k
    by_cases hk : k = s.files.handle i
    · rw [hk, Finmap.lookup_erase, hfresh]
    · rw [Finmap.lookup_erase_ne hk, Finmap.lookup_insert_of_ne _ hk]
  rw [hback] at href'
  refine ⟨l'', href', ?_⟩
  unfold vfsSpiffsOpen
  simp only [hcalloc, Bool.not_true, Bool.false_eq_true, if_false, heq, ok_bind, hopen,
    Heap.write_alloc, if_pos herr, hremove, freeItem, Heap.free_alloc, pure_eq_ok]

/-- SPIFFS refuses with a code that `spiffs_result` takes for success. -/
theorem open_end (h : Refines s.files m) (hcalloc : env.calloc = true)
    (hadd : AddCond s.files env.malloc) {err : Int}
    (hopen : env.open_ (openName objs path) (spiffsMode flags) = .error err)
    (herr : spiffsResult err = 0) :
    ∃ fd l' file, 0 ≤ fd ∧ m.lookup fd = none ∧ Refines l' (m.insert fd s.heap.length) ∧
      file.spiffs_file = err ∧ vfsSpiffsOpen objs s path flags env =
        .ok ⟨fd, none, ⟨l', s.heap.alloc file, s.handles⟩, none⟩ := by
  obtain ⟨i, e, l', heq, hfresh, -, href⟩ := h.listAdd_ok hadd s.heap.length
  refine ⟨s.files.handle i, l', ⟨err, strlcpy path MAXNAMLEN, isDir objs path⟩,
    handle_nonneg _ i, hfresh, href, rfl, ?_⟩
  unfold vfsSpiffsOpen
  simp only [hcalloc, Bool.not_true, Bool.false_eq_true, if_false, heq, ok_bind, hopen,
    Heap.write_alloc, herr, ne_eq, not_true_eq_false, pure_eq_ok]

end Open

/-! ## What `vfs_spiffs_close` does -/

/-- A handle that `SPIFFS_open` can give out. -/
structure Free (handles : Finset Int) (h : Int) : Prop where
  pos : 0 < h
  le : h ≤ FD_COUNT
  fresh : h ∉ handles

/-- A handle that SPIFFS has open. -/
structure Taken (handles : Finset Int) (h : Int) : Prop where
  pos : 0 < h
  le : h ≤ FD_COUNT
  mem : h ∈ handles

theorem spiffsClose_taken {handles : Finset Int} {h : Int} (ht : Taken handles h)
    (flush : Option Int) : spiffsClose handles h flush =
      match flush with
      | some err => (err, handles)
      | none => (SPIFFS_OK, handles.erase h) := by
  have hrange : ¬ (h ≤ 0 ∨ h > FD_COUNT) := by
    have hpos := ht.pos
    have hle := ht.le
    omega
  unfold spiffsClose
  rw [if_neg hrange, if_neg (not_not.mpr ht.mem)]

section Close

variable {s : Vfs} {m : ListMap Nat} {fd : Int} {p : Nat} {file : VfsFile}

theorem close_dead (h : Refines s.files m) (hfd : m.lookup fd = none)
    (hend : GetCond ⟨s.files, m⟩ fd) (flush : Option Int) :
    vfsSpiffsClose s fd flush = .ok ⟨-1, some EBADF, s, none⟩ := by
  unfold vfsSpiffsClose
  simp only [listGet_dead h hfd hend, ok_bind, pure_eq_ok]

/-- `list_get` reads past the array. -/
theorem close_end (h : Refines s.files m) (hend : ¬ GetCond ⟨s.files, m⟩ fd)
    (flush : Option Int) (r : CallResult) : vfsSpiffsClose s fd flush ≠ .ok r := by
  obtain ⟨hnz, hfd⟩ := not_or.mp hend
  rw [not_not] at hfd
  intro hr
  obtain ⟨got, hgot, -⟩ := bind_eq_ok.mp hr
  exact listGet_end h hnz got (hfd ▸ hgot)

theorem close_ok (h : Refines s.files m) (hfd : m.lookup fd = some p)
    (hfile : s.heap[p]? = some (some file)) (ht : Taken s.handles file.spiffs_file) :
    ∃ l', Refines l' (m.erase fd) ∧ vfsSpiffsClose s fd none =
      .ok ⟨0, none, ⟨l', s.heap.set p none, s.handles.erase file.spiffs_file⟩, none⟩ := by
  obtain ⟨l', hremove, href⟩ := h.listRemove_lookup hfd
  have hok : ¬ SPIFFS_OK ≠ 0 := not_not.mpr rfl
  have hneg : ¬ SPIFFS_OK < 0 := by decide
  refine ⟨l', href, ?_⟩
  unfold vfsSpiffsClose
  simp only [listGet_live h hfd, ok_bind, Heap.read_eq_ok.mpr hfile, spiffsClose_taken ht,
    if_neg hok, if_neg hneg, hremove, freeItem, Heap.free_of_getElem? hfile, pure_eq_ok]

theorem close_error (h : Refines s.files m) (hfd : m.lookup fd = some p)
    (hfile : s.heap[p]? = some (some file)) (ht : Taken s.handles file.spiffs_file) {err : Int}
    (hne : err ≠ 0) (herr : spiffsResult err < 0) :
    vfsSpiffsClose s fd (some err) = .ok ⟨-1, some (spiffsResult err), s, none⟩ := by
  unfold vfsSpiffsClose
  simp only [listGet_live h hfd, ok_bind, Heap.read_eq_ok.mpr hfile, spiffsClose_taken ht,
    if_pos hne, if_pos herr, pure_eq_ok]

/-- The handle stays open under an error that has become an `errno.h` code. -/
theorem close_leak (h : Refines s.files m) (hfd : m.lookup fd = some p)
    (hfile : s.heap[p]? = some (some file)) (ht : Taken s.handles file.spiffs_file) {err : Int}
    (hne : err ≠ 0) (herr : ¬ spiffsResult err < 0) :
    ∃ l', Refines l' (m.erase fd) ∧ vfsSpiffsClose s fd (some err) =
      .ok ⟨0, none, ⟨l', s.heap.set p none, s.handles⟩, none⟩ := by
  obtain ⟨l', hremove, href⟩ := h.listRemove_lookup hfd
  refine ⟨l', href, ?_⟩
  unfold vfsSpiffsClose
  simp only [listGet_live h hfd, ok_bind, Heap.read_eq_ok.mpr hfile, spiffsClose_taken ht,
    if_pos hne, if_neg herr, hremove, freeItem, Heap.free_of_getElem? hfile, pure_eq_ok]

end Close

end LuaRtos.Spiffs
