/-
  LuaRtos.Lua.NvsRoundTrip

  Runs of `nvs.write` and `nvs.read`.  A value comes back as it was written last, and no call
  leaves a buffer or a handle, as long as no string holds a zero byte, memory is there, and the
  library fails nowhere but in `nvs_open`, with an error that `nvs_error` knows.

  Behind `nvs_open` every failure leaves the handle open, and where `nvs_error` returns the
  call goes on with a buffer that was freed or a handle that was never written.
-/

import LuaRtos.Lts.Run
import LuaRtos.Lua.Nvs
import Mathlib.Data.List.TakeWhile

namespace LuaRtos.Lua

open LuaRtos.CLib

variable {F : Type}

/-! ## Values and blobs -/

/-- A value that `nvs.write` can store as it is. -/
def Storable : LuaValue → Prop
  | .string s => nul ∉ s
  | .function _ => False
  | .object _ => False
  | _ => True

theorem cString_eq {s : List Byte} (h : nul ∉ s) : cString s = s := by
  apply List.takeWhile_eq_self_iff.mpr
  intro c hc
  exact decide_eq_true fun hnul => h (hnul ▸ hc)

/-- A word behind the type. -/
theorem loadLE_word (t : Byte) {n x : Nat} (hx : x < 256 ^ n) :
    loadLE (t :: bytesLE n x) 1 n = .ok x := by
  have hload := loadLE_bytesLE [t] [] hx
  rwa [List.append_nil] at hload

section Types

variable (key : LuaValue) (b : List Byte)

theorem nvsValue_integer : nvsValue key (1 :: b) =
    loadLE (1 :: b) 1 4 >>= fun n => pure (.integer (BitVec.ofNat 32 n)) := rfl

theorem nvsValue_number : nvsValue key (2 :: b) =
    loadLE (2 :: b) 1 4 >>= fun n => pure (.number (BitVec.ofNat 32 n)) := rfl

theorem nvsValue_boolean : nvsValue key (3 :: b) =
    loadLE (3 :: b) 1 4 >>= fun n => pure (.boolean (n ≠ 0)) := rfl

theorem nvsValue_string : nvsValue key (5 :: b) =
    readStr b >>= fun s => pure (.string s) := rfl

end Types

/-- The value comes out of its blob. -/
theorem nvsValue_nvsBlob {v : LuaValue} (h : Storable v) (key : LuaValue) :
    ∃ blob, nvsBlob v = some blob ∧ nvsValue key blob = .ok v := by
  cases v with
  | nil => exact ⟨_, rfl, rfl⟩
  | boolean b =>
    refine ⟨_, rfl, ?_⟩
    rw [nvsValue_boolean, loadLE_word 3 (Nat.lt_of_le_of_lt b.toNat_le (by decide)), ok_bind]
    cases b <;> rfl
  | integer n =>
    refine ⟨_, rfl, ?_⟩
    rw [nvsValue_integer, loadLE_word 1 n.isLt, ok_bind, BitVec.ofNat_toNat, BitVec.setWidth_eq]
    rfl
  | number bits =>
    refine ⟨_, rfl, ?_⟩
    rw [nvsValue_number, loadLE_word 2 bits.isLt, ok_bind, BitVec.ofNat_toNat,
      BitVec.setWidth_eq]
    rfl
  | string s =>
    refine ⟨_, rfl, ?_⟩
    rw [nvsValue_string, cString_eq h, readStr_append h []]
    rfl
  | function f => exact h.elim
  | object o => exact h.elim

/-! ## Runs -/

/-- A call: the namespace and the key, the value, and what `malloc` answers. -/
inductive NvsOp where
  | write (nspace key : List Byte) (v : LuaValue) (malloc : Bool)
  | read (nspace key : List Byte) (malloc : Bool)

/-- The flash and the buffers, and the values of the last successful writes. -/
structure NvsRun (F : Type) where
  state : NvsState F
  last : List Byte → List Byte → Option LuaValue

variable (lib : NvsFlash F) (numberText : BitVec 32 → List Byte)

/-- What the call does. -/
def nvsCall (s : NvsState F) : NvsOp → Result (NvsOutcome × NvsState F)
  | .write nspace key v malloc =>
    lNvsWrite lib numberText malloc [.string nspace, .string key, v] s
  | .read nspace key malloc => lNvsRead lib numberText malloc [.string nspace, .string key] s

/-- The last value of a key after the call. -/
def NvsRun.written (s : NvsRun F) (r : NvsOutcome) :
    NvsOp → List Byte → List Byte → Option LuaValue
  | .write nspace key v _ => fun nspace' key' =>
    if r = .returned none ∧ nspace' = nspace ∧ key' = key then some v else s.last nspace' key'
  | .read _ _ _ => s.last

/-- The flash holds the values that were written last. -/
def NvsStores (s : NvsRun F) : Prop :=
  ∀ nspace key, lib.content s.state.flash nspace key = (s.last nspace key).bind nvsBlob ∧
    ∀ v, s.last nspace key = some v → Storable v

/-- The runs of calls on a flash that holds what `nvs.write` has written before. -/
def nvsSys : Lts (NvsRun F) NvsOp where
  init := NvsStores lib
  step s op s' := ∃ r, nvsCall lib numberText s.state op = .ok (r, s'.state) ∧
    s'.last = s.written r op

/-- The call ends with its handle closed and its buffer freed, and a read returns the value
    that was written last. -/
def NvsRight (s : NvsRun F) (op : NvsOp) : Prop :=
  ∃ (r : NvsOutcome) (s' : NvsState F), nvsCall lib numberText s.state op = .ok (r, s') ∧
    lib.handles s'.flash = lib.handles s.state.flash ∧
    (∀ (p : Nat) (b : List Byte),
      s'.heap[p]? = some (some b) ↔ s.state.heap[p]? = some (some b)) ∧
    ∀ nspace key malloc, op = .read nspace key malloc → ∀ v, r = .returned v →
      v.isSome ∧ v = s.last nspace key

/-- No string holds a zero byte; `nvs_open` does not fail but with an error that `nvs_error`
    knows, and behind it there is memory and the library does not fail. -/
def NvsCareful (s : NvsRun F) : NvsOp → Prop
  | .write nspace key v malloc =>
    nul ∉ nspace ∧ nul ∉ key ∧ Storable v ∧
      (∀ err, (lib.open_ nspace s.state.flash).1 = .error err → (nvsError err).isSome) ∧
      ∀ handle, (lib.open_ nspace s.state.flash).1 = .ok handle →
        malloc = true ∧ ∀ blob, nvsBlob v = some blob →
          let r := lib.setBlob handle key blob (lib.open_ nspace s.state.flash).2
          r.1 = none ∧ (lib.commit handle r.2).1 = none
  | .read nspace key malloc =>
    nul ∉ nspace ∧ nul ∉ key ∧
      (∀ err, (lib.open_ nspace s.state.flash).1 = .error err → (nvsError err).isSome) ∧
      ∀ handle, (lib.open_ nspace s.state.flash).1 = .ok handle →
        malloc = true ∧
          let r := lib.getBlob handle key (lib.open_ nspace s.state.flash).2
          (∃ bytes, r.1 = .ok bytes) ∧ ∃ bytes, (lib.getBlob handle key r.2).1 = .ok bytes

/-! ## One call -/

section Calls

variable {lib : NvsFlash F} {numberText : BitVec 32 → List Byte} {s : NvsRun F}
  {nspace key : List Byte} {malloc : Bool}

/-- A handle that was opened and closed is as it was. -/
theorem handles_closed {f f' : F} {h : Nat} (hopen : (lib.open_ nspace f).1 = .ok h)
    (hsame : lib.handles f' = lib.handles (lib.open_ nspace f).2) :
    lib.handles (lib.close h f') = lib.handles f := by
  obtain ⟨hnone, hupdate⟩ := lib.open_ok nspace f h hopen
  rw [lib.close_handles, hsame, hupdate, Function.update_idem]
  exact Function.update_eq_self_iff.mpr hnone.symm

theorem handles_opened {f : F} {h : Nat} (hopen : (lib.open_ nspace f).1 = .ok h) :
    lib.handles (lib.open_ nspace f).2 h = some nspace := by
  rw [(lib.open_ok nspace f h hopen).2, Function.update_self]

/-- The allocation and the release of the buffer. -/
theorem freeVal_alloc (heap : Heap (List Byte)) (b : List Byte) :
    freeVal (heap.alloc b) (some heap.length) = .ok (heap ++ [none]) := Heap.free_alloc

theorem saveBlob_error (key : List Byte) {f : F} {val : Option Nat} {heap heap' : Heap (List Byte)}
    {err : EspErr} {msg : Formatted} (hopen : (lib.open_ nspace f).1 = .error err)
    (hfree : freeVal heap val = .ok heap') (hmsg : nvsError err = some msg)
    (bytes : Option (List Byte)) : saveBlob lib nspace key val bytes ⟨f, heap⟩ =
      .ok (.raised msg, ⟨(lib.open_ nspace f).2, heap'⟩) := by
  unfold saveBlob
  simp only [hopen, hfree, ok_bind, hmsg, pure_eq_ok]

theorem saveBlob_ok {f : F} {val : Option Nat} {heap heap' : Heap (List Byte)} {h : Nat}
    {bytes : List Byte} (hopen : (lib.open_ nspace f).1 = .ok h)
    (hset : (lib.setBlob h key bytes (lib.open_ nspace f).2).1 = none)
    (hfree : freeVal heap val = .ok heap')
    (hcommit : (lib.commit h (lib.setBlob h key bytes (lib.open_ nspace f).2).2).1 = none) :
    saveBlob lib nspace key val (some bytes) ⟨f, heap⟩ = .ok (.returned none,
      ⟨lib.close h (lib.commit h (lib.setBlob h key bytes (lib.open_ nspace f).2).2).2,
        heap'⟩) := by
  unfold saveBlob commitAndClose
  simp only [hopen, hset, hfree, ok_bind, hcommit, Option.bind_none, pure_eq_ok]

/-- The call of a write without zero bytes. -/
theorem nvsCall_write (lib : NvsFlash F) (numberText : BitVec 32 → List Byte) (malloc : Bool)
    {v : LuaValue} {blob : List Byte} (hnspace : nul ∉ nspace) (hkey : nul ∉ key)
    (hblob : nvsBlob v = some blob) (f : F) (heap : Heap (List Byte)) :
    nvsCall lib numberText ⟨f, heap⟩ (.write nspace key v malloc) =
      if malloc then
        saveBlob lib nspace key (some heap.length) (some blob) ⟨f, heap.alloc blob⟩
      else saveBlob lib nspace key none none ⟨f, heap⟩ := by
  simp only [nvsCall, lNvsWrite, LuaValue.text, hblob, cString_eq hnspace, cString_eq hkey]

/-- A careful write stores the value and returns, or opens nothing and raises. -/
theorem write_careful (numberText : BitVec 32 → List Byte) {v : LuaValue}
    (hc : NvsCareful lib s (.write nspace key v malloc)) :
    ∃ (r : NvsOutcome) (s' : NvsState F),
      nvsCall lib numberText s.state (.write nspace key v malloc) = .ok (r, s') ∧
      lib.handles s'.flash = lib.handles s.state.flash ∧
      (∀ (p : Nat) (b : List Byte),
        s'.heap[p]? = some (some b) ↔ s.state.heap[p]? = some (some b)) ∧
      ∀ nspace' key', lib.content s'.flash nspace' key' =
        if r = .returned none ∧ nspace' = nspace ∧ key' = key then nvsBlob v
        else lib.content s.state.flash nspace' key' := by
  obtain ⟨⟨f, heap⟩, last⟩ := s
  obtain ⟨hnspace, hkey, hv, hknown, hopened⟩ := hc
  obtain ⟨blob, hblob, -⟩ := nvsValue_nvsBlob hv .nil
  have hcall := nvsCall_write lib numberText malloc hnspace hkey hblob f heap
  cases hopen : (lib.open_ nspace f).1 with
  | error err =>
    obtain ⟨msg, hmsg⟩ := Option.isSome_iff_exists.mp (hknown err hopen)
    have hraised : ∃ heap', nvsCall lib numberText ⟨f, heap⟩ (.write nspace key v malloc) =
          .ok (.raised msg, ⟨(lib.open_ nspace f).2, heap'⟩) ∧
        ∀ (p : Nat) (b : List Byte), heap'[p]? = some (some b) ↔ heap[p]? = some (some b) := by
      cases malloc with
      | true =>
        have hsave := saveBlob_error key hopen (freeVal_alloc heap blob) hmsg (some blob)
        exact ⟨_, hcall.trans hsave, fun _ _ => Heap.getElem?_append_none_iff⟩
      | false =>
        have hfree : freeVal heap none = .ok heap := rfl
        have hsave := saveBlob_error key hopen hfree hmsg none
        exact ⟨_, hcall.trans hsave, fun _ _ => Iff.rfl⟩
    obtain ⟨heap', hrun, hblocks⟩ := hraised
    refine ⟨_, _, hrun, lib.open_error nspace f err hopen, hblocks, ?_⟩
    intro nspace' key'
    rw [if_neg (by rintro ⟨⟨⟩, -⟩), lib.open_content]
  | ok handle =>
    obtain ⟨rfl, hlater⟩ := hopened handle hopen
    obtain ⟨hset, hcommit⟩ := hlater blob hblob
    have hsave := saveBlob_ok hopen hset (freeVal_alloc heap blob) hcommit
    refine ⟨_, _, hcall.trans hsave, ?_, fun _ _ => Heap.getElem?_append_none_iff, ?_⟩
    · apply handles_closed hopen
      rw [lib.commit_handles, lib.set_handles]
    · intro nspace' key'
      rw [lib.close_content, lib.commit_content,
        lib.set_ok handle nspace key blob _ (handles_opened hopen) hset, lib.open_content, hblob]
      exact if_congr (and_iff_right rfl).symm rfl rfl

theorem loadBlob_ok {f : F} (heap : Heap (List Byte)) {h size : Nat} {keyArg v : LuaValue}
    {bytes : List Byte} (hget : (lib.getBlob h key f).1 = .ok bytes)
    (hsize : bytes.length ≤ size) (hv : nvsValue keyArg bytes = .ok v) :
    loadBlob lib h key keyArg size true ⟨f, heap⟩ = .ok (.returned (some v),
      ⟨lib.close h (lib.getBlob h key f).2, heap ++ [none]⟩) := by
  have hwrite : (heap.alloc []).write heap.length bytes = .ok (heap.alloc bytes) :=
    Heap.write_alloc
  have hread : (heap.alloc bytes).read heap.length = .ok bytes :=
    Heap.read_eq_ok.mpr Heap.getElem?_alloc_self
  unfold loadBlob
  simp only [hget, if_true, if_pos hsize, hwrite, hread, hv, ok_bind, Heap.free_alloc, pure_eq_ok]

/-- The call of a read without zero bytes, where both answers come. -/
theorem nvsCall_read (hnspace : nul ∉ nspace) (hkey : nul ∉ key) {f : F}
    {heap : Heap (List Byte)} {h : Nat} {bytes : List Byte}
    (hopen : (lib.open_ nspace f).1 = .ok h)
    (hget : (lib.getBlob h key (lib.open_ nspace f).2).1 = .ok bytes) :
    nvsCall lib numberText ⟨f, heap⟩ (.read nspace key malloc) =
      loadBlob lib h key (.string key) bytes.length malloc
        ⟨(lib.getBlob h key (lib.open_ nspace f).2).2, heap⟩ := by
  simp only [nvsCall, lNvsRead, LuaValue.text, cString_eq hnspace, cString_eq hkey, hopen, hget]

/-- A careful read returns the value of the blob, or opens nothing and raises. -/
theorem read_careful (numberText : BitVec 32 → List Byte)
    (hc : NvsCareful lib s (.read nspace key malloc)) (hst : NvsStores lib s) :
    ∃ (r : NvsOutcome) (s' : NvsState F),
      nvsCall lib numberText s.state (.read nspace key malloc) = .ok (r, s') ∧
      lib.handles s'.flash = lib.handles s.state.flash ∧
      (∀ (p : Nat) (b : List Byte),
        s'.heap[p]? = some (some b) ↔ s.state.heap[p]? = some (some b)) ∧
      lib.content s'.flash = lib.content s.state.flash ∧
      ∀ v, r = .returned v → v.isSome ∧ v = s.last nspace key := by
  obtain ⟨⟨f, heap⟩, last⟩ := s
  obtain ⟨hnspace, hkey, hknown, hopened⟩ := hc
  cases hopen : (lib.open_ nspace f).1 with
  | error err =>
    obtain ⟨msg, hmsg⟩ := Option.isSome_iff_exists.mp (hknown err hopen)
    refine ⟨.raised msg, ⟨(lib.open_ nspace f).2, heap⟩, ?_, lib.open_error _ _ err hopen,
      fun _ _ => Iff.rfl, lib.open_content _ _, by rintro v ⟨⟩⟩
    simp only [nvsCall, lNvsRead, LuaValue.text, cString_eq hnspace, hopen, hmsg, pure_eq_ok]
  | ok handle =>
    obtain ⟨rfl, ⟨bytes, hget⟩, bytes', hget'⟩ := hopened handle hopen
    have hhandle := handles_opened hopen
    have hhandle' := hhandle
    rw [← lib.get_handles handle key] at hhandle'
    -- both answers are the blob that is stored
    have hblob := lib.get_ok handle nspace key bytes _ hhandle hget
    have hblob' := lib.get_ok handle nspace key bytes' _ hhandle' hget'
    rw [lib.get_content] at hblob'
    obtain rfl := Option.some.inj (hblob.symm.trans hblob')
    obtain ⟨hcontent, hstorable⟩ := hst nspace key
    rw [lib.open_content] at hblob
    obtain ⟨v, hlast, hv⟩ := Option.bind_eq_some_iff.mp (hcontent.symm.trans hblob)
    obtain ⟨blob, hencode, hvalue⟩ := nvsValue_nvsBlob (hstorable v hlast) (.string key)
    obtain rfl := Option.some.inj (hv.symm.trans hencode)
    have hload := loadBlob_ok heap hget' (Nat.le_refl _) hvalue
    refine ⟨_, _, (nvsCall_read hnspace hkey hopen hget).trans hload, ?_,
      fun _ _ => Heap.getElem?_append_none_iff, ?_, ?_⟩
    · apply handles_closed hopen
      rw [lib.get_handles, lib.get_handles]
    · rw [lib.close_content, lib.get_content, lib.get_content, lib.open_content]
    · rintro v' ⟨⟩
      exact ⟨rfl, hlast.symm⟩

end Calls

/-! ## The runs -/

section Runs

variable {lib : NvsFlash F} {numberText : BitVec 32 → List Byte} {s s' : NvsRun F} {op : NvsOp}

theorem written_write (s : NvsRun F) (r : NvsOutcome) (nspace key : List Byte) (v : LuaValue)
    (malloc : Bool) (nspace' key' : List Byte) :
    s.written r (.write nspace key v malloc) nspace' key' =
      if r = .returned none ∧ nspace' = nspace ∧ key' = key then some v
      else s.last nspace' key' := rfl

/-- A careful call keeps the flash and the values written last together. -/
theorem NvsStores.step (h : NvsStores lib s) (hc : NvsCareful lib s op)
    (hs : (nvsSys lib numberText).step s op s') : NvsStores lib s' := by
  obtain ⟨r, hrun, hlast⟩ := hs
  cases op with
  | write nspace key v malloc =>
    obtain ⟨r', s'', hrun', -, -, hcontent⟩ := write_careful numberText hc
    cases hrun.symm.trans hrun'
    intro nspace' key'
    rw [hlast, hcontent, written_write]
    by_cases hw : r = .returned none ∧ nspace' = nspace ∧ key' = key
    · rw [if_pos hw, if_pos hw]
      refine ⟨rfl, ?_⟩
      rintro v' ⟨⟩
      exact hc.2.2.1
    · rw [if_neg hw, if_neg hw]
      exact h nspace' key'
  | read nspace key malloc =>
    obtain ⟨r', s'', hrun', -, -, hcontent, -⟩ := read_careful numberText hc h
    cases hrun.symm.trans hrun'
    intro nspace' key'
    rw [hlast, hcontent]
    exact h nspace' key'

theorem nvsStores_of_reach (h : (nvsSys lib numberText).Reach (NvsCareful lib) s) :
    NvsStores lib s := by
  refine Lts.Reach.invariant (I := NvsStores lib) ?_ ?_ h
  · exact fun s hs => hs
  · intro s a s' hi hok hs
    exact hi.step hok hs

/-- In a careful run every call is right: a read returns the value that was written last, and
    no call leaves a handle open or a buffer allocated. -/
theorem nvs_right (h : (nvsSys lib numberText).Reach (NvsCareful lib) s)
    (hc : NvsCareful lib s op) : NvsRight lib numberText s op := by
  cases op with
  | write nspace key v malloc =>
    obtain ⟨r, s', hrun, hhandles, hblocks, -⟩ := write_careful numberText hc
    exact ⟨r, s', hrun, hhandles, hblocks, by rintro _ _ _ ⟨⟩⟩
  | read nspace key malloc =>
    obtain ⟨r, s', hrun, hhandles, hblocks, -, hvalue⟩ :=
      read_careful numberText hc (nvsStores_of_reach h)
    refine ⟨r, s', hrun, hhandles, hblocks, ?_⟩
    rintro _ _ _ ⟨⟩
    exact hvalue

end Runs

/-! ## A small flash -/

/-- A flash that never fails but for keys it does not have. -/
structure SmallFlash where
  blobs : List Byte → List Byte → Option (List Byte)
  opened : Nat → Option (List Byte)
  next : Nat
  fresh : ∀ n, next ≤ n → opened n = none

def SmallFlash.empty : SmallFlash := ⟨fun _ _ => none, fun _ => none, 0, fun _ _ => rfl⟩

/-- `nvs_open`. -/
def SmallFlash.openNext (nspace : List Byte) (f : SmallFlash) : SmallFlash where
  blobs := f.blobs
  opened := Function.update f.opened f.next (some nspace)
  next := f.next + 1
  fresh n hn := by
    rw [Function.update_of_ne (by omega)]
    exact f.fresh n (by omega)

/-- `nvs_set_blob`. -/
def SmallFlash.store (h : Nat) (key bytes : List Byte) (f : SmallFlash) : SmallFlash :=
  { f with blobs := fun nspace' key' =>
      if some nspace' = f.opened h ∧ key' = key then some bytes else f.blobs nspace' key' }

/-- `nvs_close`. -/
def SmallFlash.closeHandle (h : Nat) (f : SmallFlash) : SmallFlash where
  blobs := f.blobs
  opened := Function.update f.opened h none
  next := f.next
  fresh n hn := by
    by_cases hnh : n = h
    · rw [hnh, Function.update_self]
    · rw [Function.update_of_ne hnh]
      exact f.fresh n hn

/-- `nvs_get_blob`. -/
def SmallFlash.get (h : Nat) (key : List Byte) (f : SmallFlash) : Except EspErr (List Byte) :=
  match (f.opened h).bind fun nspace => f.blobs nspace key with
  | some bytes => .ok bytes
  | none => .error .nvsNotFound

theorem SmallFlash.get_ok {h : Nat} {nspace key bytes : List Byte} {f : SmallFlash}
    (hh : f.opened h = some nspace) (hget : f.get h key = .ok bytes) :
    f.blobs nspace key = some bytes := by
  unfold SmallFlash.get at hget
  rw [hh, Option.bind_some] at hget
  cases hblob : f.blobs nspace key with
  | some bytes' =>
    rw [hblob] at hget
    rw [Except.ok.inj hget]
  | none =>
    rw [hblob] at hget
    cases hget

def smallFlash : NvsFlash SmallFlash where
  open_ nspace f := (.ok f.next, f.openNext nspace)
  setBlob h key bytes f := (none, f.store h key bytes)
  getBlob h key f := (f.get h key, f)
  commit _ f := (none, f)
  close h f := f.closeHandle h
  handles f := f.opened
  content f := f.blobs
  open_ok := by
    rintro nspace f h ⟨⟩
    exact ⟨f.fresh _ (Nat.le_refl _), rfl⟩
  open_error := by rintro nspace f e ⟨⟩
  open_content _ _ := rfl
  set_ok h nspace key bytes f hh _ nspace' key' := by
    exact if_congr (by rw [hh, Option.some_inj]) rfl rfl
  set_handles _ _ _ _ := rfl
  get_ok _ _ _ _ _ hh hget := SmallFlash.get_ok hh hget
  get_handles _ _ _ := rfl
  get_content _ _ _ := rfl
  commit_handles _ _ := rfl
  commit_content _ _ := rfl
  close_handles _ _ := rfl
  close_content _ _ := rfl

/-- A first start. -/
def firstStart : NvsRun SmallFlash := ⟨⟨SmallFlash.empty, []⟩, fun _ _ => none⟩

theorem firstStart_stores : NvsStores smallFlash firstStart :=
  fun _ _ => ⟨rfl, by rintro v ⟨⟩⟩

/-- The namespace "a", the key "b". -/
def writeOp (v : LuaValue) : NvsOp := .write (chars "a") (chars "b") v true

def readOp : NvsOp := .read (chars "a") (chars "b") true

/-- The state after a write, for a value with a blob. -/
def afterWrite (v : LuaValue) (blob : List Byte) : NvsRun SmallFlash where
  state :=
    ⟨((SmallFlash.empty.openNext (chars "a")).store 0 (chars "b") blob).closeHandle 0, [none]⟩
  last := firstStart.written (.returned none) (writeOp v)

theorem afterWrite_step {v : LuaValue} {blob : List Byte} (hblob : nvsBlob v = some blob) :
    (nvsSys smallFlash fun _ => []).step firstStart (writeOp v) (afterWrite v blob) := by
  have hnspace : nul ∉ chars "a" := by decide
  have hkey : nul ∉ chars "b" := by decide
  exact ⟨.returned none, nvsCall_write smallFlash _ true hnspace hkey hblob _ [], rfl⟩

theorem nvs_right_seven :
    NvsRight smallFlash (fun _ => []) (afterWrite (.integer 7) (1 :: bytesLE 4 7)) readOp := by
  apply nvs_right
  · refine .step (.init firstStart_stores) ?_ (afterWrite_step rfl)
    exact ⟨by decide, by decide, trivial, by rintro err ⟨⟩, fun _ _ => ⟨rfl, fun _ _ => ⟨rfl, rfl⟩⟩⟩
  · refine ⟨by decide, by decide, by rintro err ⟨⟩, ?_⟩
    rintro handle ⟨⟩
    exact ⟨rfl, ⟨_, rfl⟩, _, rfl⟩

/-- A string with a zero byte comes back without what is behind it. -/
theorem string_cut_at_zero :
    ∃ s : NvsRun SmallFlash, (nvsSys smallFlash fun _ => []).Reach (fun _ _ => True) s ∧
      s.last (chars "a") (chars "b") = some (.string [0x61, 0, 0x62]) ∧
      (nvsCall smallFlash (fun _ => []) s.state readOp).map Prod.fst =
        .ok (.returned (some (.string [0x61]))) ∧
      ¬ NvsRight smallFlash (fun _ => []) s readOp := by
  have hblob : nvsBlob (.string [0x61, 0, 0x62]) = some [5, 0x61, 0] := by decide
  have hcut : (nvsCall smallFlash (fun _ => [])
      (afterWrite (.string [0x61, 0, 0x62]) [5, 0x61, 0]).state readOp).map Prod.fst =
      .ok (.returned (some (.string [0x61]))) := rfl
  refine ⟨_, .step (.init firstStart_stores) trivial (afterWrite_step hblob), rfl, hcut, ?_⟩
  rintro ⟨r, s', hrun, -, -, hvalue⟩
  rw [hrun] at hcut
  cases hcut
  have hlast := (hvalue _ _ _ rfl _ rfl).2
  cases hlast

end LuaRtos.Lua
