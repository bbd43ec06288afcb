/-
  LuaRtos.CLib.File

  The `stdio.h` functions on a file that is read or written from its start to
  its end.
-/

import LuaRtos.CLib.Basic

namespace LuaRtos.CLib

/-- A file open for reading: the bytes after the position, and the end-of-file
    indicator. -/
structure InFile where
  rest : List Byte
  eof : Bool
deriving DecidableEq, Repr

/-- A file as `fopen` returns it. -/
def InFile.opened (content : List Byte) : InFile := ⟨content, false⟩

/-- `fread` of `n` bytes.  A read that is not served in full sets the
    end-of-file indicator. -/
def fread (f : InFile) (n : Nat) : List Byte × InFile :=
  (f.rest.take n, ⟨f.rest.drop n, f.eof || f.rest.length < n⟩)

/-- `feof`. -/
def feof (f : InFile) : Bool := f.eof

/-- `fwrite` of a block to a file with these contents, on a disk that has room
    for `room file block` more bytes: the new contents and the count. -/
def fwrite (room : List Byte → List Byte → Nat) (file block : List Byte) : List Byte × Nat :=
  (file ++ block.take (room file block), min (room file block) block.length)

/-- A disk with room for whatever is written. -/
def Roomy (room : List Byte → List Byte → Nat) : Prop :=
  ∀ file block, block.length ≤ room file block

theorem fwrite_of_le {room : List Byte → List Byte → Nat} {file block : List Byte}
    (h : block.length ≤ room file block) :
    fwrite room file block = (file ++ block, block.length) := by
  rw [fwrite, List.take_of_length_le h, Nat.min_eq_right h]

/-- A write whose count is that of the block has written the whole block. -/
theorem fwrite_count {room : List Byte → List Byte → Nat} {file block : List Byte}
    (h : (fwrite room file block).2 = block.length) :
    (fwrite room file block).1 = file ++ block := by
  have hmin : min (room file block) block.length = block.length := h
  rw [fwrite_of_le (by omega)]

/-! ## Blocks of one length -/

/-- A content is a row of blocks of one length and a shorter rest. -/
theorem exists_blocks {k : Nat} (hk : 0 < k) (content : List Byte) :
    ∃ (blocks : List (List Byte)) (last : List Byte),
      content = blocks.flatten ++ last ∧ (∀ c ∈ blocks, c.length = k) ∧ last.length < k := by
  induction hn : content.length using Nat.strongRecOn generalizing content with
  | ind n ih =>
    by_cases hlt : content.length < k
    · exact ⟨[], content, rfl, fun c hc => absurd hc List.not_mem_nil, hlt⟩
    · have hdrop : (content.drop k).length < n := by
        rw [List.length_drop]
        omega
      obtain ⟨blocks, last, heq, hblocks, hlast⟩ := ih _ hdrop (content.drop k) rfl
      refine ⟨content.take k :: blocks, last, ?_, ?_, hlast⟩
      · rw [List.flatten_cons, List.append_assoc, ← heq, List.take_append_drop]
      · intro c hc
        rcases List.mem_cons.mp hc with rfl | hc
        · rw [List.length_take]
          omega
        · exact hblocks c hc

theorem length_blocks {k : Nat} {blocks : List (List Byte)} (h : ∀ c ∈ blocks, c.length = k) :
    blocks.flatten.length = k * blocks.length := by
  induction blocks with
  | nil => rfl
  | cons c blocks ih =>
    rw [List.flatten_cons, List.length_append, h c List.mem_cons_self,
      ih fun d hd => h d (List.mem_cons_of_mem c hd), List.length_cons, Nat.mul_succ]
    omega

/-- The blocks that a content is cut into: all of length `k` but the last, which
    is not empty. -/
inductive InBlocks (k : Nat) : List (List Byte) → Prop
  | nil : InBlocks k []
  | last {c : List Byte} (hne : c ≠ []) (hc : c.length ≤ k) : InBlocks k [c]
  | cons {c : List Byte} {cs : List (List Byte)} (hc : c.length = k) (hcs : InBlocks k cs)
      (hrest : cs.flatten ≠ []) : InBlocks k (c :: cs)

theorem InBlocks.length_le {k : Nat} (hk : 0 < k) {cs : List (List Byte)} (h : InBlocks k cs) :
    cs.length ≤ cs.flatten.length := by
  induction h with
  | nil => exact Nat.le_refl 0
  | last hne _ =>
    rw [List.flatten_singleton]
    exact List.length_pos_iff.mpr hne
  | cons hc _ _ ih =>
    rw [List.flatten_cons, List.length_append, List.length_cons]
    omega

theorem InBlocks.length_mem {k : Nat} (hk : 0 < k) {cs : List (List Byte)} (h : InBlocks k cs) :
    ∀ c ∈ cs, 0 < c.length ∧ c.length ≤ k := by
  induction h with
  | nil => nofun
  | last hne hc =>
    intro c hmem
    obtain rfl := List.mem_singleton.mp hmem
    exact ⟨List.length_pos_iff.mpr hne, hc⟩
  | cons hc _ _ ih =>
    intro d hmem
    rcases List.mem_cons.mp hmem with rfl | hrest
    · omega
    · exact ih d hrest

theorem InBlocks.tail {k : Nat} {c : List Byte} {cs : List (List Byte)}
    (h : InBlocks k (c :: cs)) : InBlocks k cs := by
  cases h with
  | last => exact .nil
  | cons _ hcs _ => exact hcs

/-- A block has all that is left, up to `k` bytes. -/
theorem InBlocks.head_length {k : Nat} (hk : 0 < k) {c : List Byte} {cs : List (List Byte)}
    (h : InBlocks k (c :: cs)) : 0 < c.length ∧ c.length = min (c :: cs).flatten.length k := by
  cases h with
  | last hne hc =>
    have hpos := List.length_pos_iff.mpr hne
    rw [List.flatten_singleton]
    omega
  | cons hc _ _ =>
    rw [List.flatten_cons, List.length_append]
    omega

/-- The number of blocks is the length over `k`, rounded up. -/
theorem InBlocks.mul_length {k : Nat} (hk : 0 < k) {cs : List (List Byte)} (h : InBlocks k cs) :
    cs.flatten.length ≤ k * cs.length ∧ k * cs.length < cs.flatten.length + k := by
  induction h with
  | nil => exact ⟨Nat.zero_le _, by simpa using hk⟩
  | last hne hc =>
    have hpos := List.length_pos_iff.mpr hne
    rw [List.flatten_singleton, List.length_singleton]
    omega
  | cons hc _ _ ih =>
    rw [List.flatten_cons, List.length_append, List.length_cons, Nat.mul_succ]
    omega

theorem exists_inBlocks {k : Nat} (hk : 0 < k) (content : List Byte) :
    ∃ cs, InBlocks k cs ∧ cs.flatten = content := by
  induction hn : content.length using Nat.strongRecOn generalizing content with
  | ind n ih =>
    by_cases hnil : content = []
    · exact ⟨[], .nil, hnil.symm⟩
    by_cases hle : content.length ≤ k
    · exact ⟨[content], .last hnil hle, List.flatten_singleton⟩
    have hlen : (content.drop k).length = content.length - k := List.length_drop
    obtain ⟨cs, hcs, hflatten⟩ := ih _ (by omega) (content.drop k) rfl
    refine ⟨content.take k :: cs, .cons (List.length_take_of_le (by omega)) hcs ?_, ?_⟩
    · rw [hflatten]
      intro h
      rw [h, List.length_nil] at hlen
      omega
    · rw [List.flatten_cons, hflatten, List.take_append_drop]

end LuaRtos.CLib
