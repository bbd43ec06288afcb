/-
  LuaRtos.CLib.Mem

  Reads and writes of several bytes of a block.
-/

import LuaRtos.CLib.Str
import LuaRtos.CLib.Window

namespace LuaRtos.CLib

theorem load_of_lt {block : List Byte} {i : Nat} (h : i < block.length) :
    load block i = .ok block[i] := by
  rw [load, List.getElem?_eq_getElem h]

/-- The bytes `bs` written to a block from offset `i` on. -/
def storeBytes (block : List Byte) (i : Nat) (bs : List Byte) : Result (List Byte) :=
  if i + bs.length ≤ block.length then .ok (block.take i ++ bs ++ block.drop (i + bs.length))
  else .error .outOfBounds

/-- The `n` bytes of a block from offset `i` on. -/
def loadBytes (block : List Byte) (i n : Nat) : Result (List Byte) :=
  if i + n ≤ block.length then .ok (window block i n) else .error .outOfBounds

theorem loadBytes_window {block : List Byte} {i n : Nat} (h : i + n ≤ block.length) :
    loadBytes block i n = .ok (window block i n) := if_pos h

theorem storeBytes_overwrite {block bs : List Byte} {i : Nat}
    (h : i + bs.length ≤ block.length) :
    storeBytes block i bs = .ok (overwrite block i bs) := if_pos h

/-- The bytes `bs` written over the middle of a block. -/
theorem storeBytes_append (pre mid post bs : List Byte) (h : bs.length = mid.length) :
    storeBytes (pre ++ (mid ++ post)) pre.length bs = .ok (pre ++ (bs ++ post)) := by
  have hlen : pre.length + bs.length ≤ (pre ++ (mid ++ post)).length := by
    simp only [List.length_append]
    omega
  rw [storeBytes, if_pos hlen, List.take_left, h, ← List.length_append, ← List.append_assoc,
    List.drop_left, List.append_assoc]

theorem storeBytes_eq {block bs : List Byte} {i : Nat} (pre mid post : List Byte)
    (hblock : block = pre ++ (mid ++ post)) (hi : i = pre.length) (h : bs.length = mid.length) :
    storeBytes block i bs = .ok (pre ++ (bs ++ post)) := by
  rw [hblock, hi, storeBytes_append pre mid post bs h]

theorem length_storeBytes {block bs block' : List Byte} {i : Nat}
    (h : storeBytes block i bs = .ok block') : block'.length = block.length := by
  unfold storeBytes at h
  split at h
  · cases h
    simp only [List.length_append, List.length_take, List.length_drop]
    omega
  · cases h

theorem storeBytes_nil {block : List Byte} {i : Nat} (h : i ≤ block.length) :
    storeBytes block i [] = .ok block := by
  have hlen : i + ([] : List Byte).length ≤ block.length := h
  rw [storeBytes, if_pos hlen, List.append_nil]
  exact congrArg _ (List.take_append_drop i block)

/-- Bytes written one after the other; a fault of either write is the same fault. -/
theorem storeBytes_cons (block : List Byte) (k : Nat) (c : Byte) (bs : List Byte) :
    storeBytes block k (c :: bs) =
      storeBytes block k [c] >>= fun block => storeBytes block (k + 1) bs := by
  by_cases hk : k + 1 ≤ block.length
  · have hone : storeBytes block k [c] = .ok (block.take k ++ [c] ++ block.drop (k + 1)) :=
      if_pos hk
    have hlen : (block.take k ++ [c]).length = k + 1 := by
      rw [List.length_append, List.length_take, Nat.min_eq_left (by omega)]
      rfl
    rw [hone, ok_bind]
    unfold storeBytes
    have hfits : k + (c :: bs).length ≤ block.length ↔
        k + 1 + bs.length ≤ (block.take k ++ [c] ++ block.drop (k + 1)).length := by
      rw [List.length_append, hlen, List.length_drop, List.length_cons]
      omega
    have htake : (block.take k ++ [c] ++ block.drop (k + 1)).take (k + 1) =
        block.take k ++ [c] := by
      rw [← hlen, List.take_left]
    have hdrop : (block.take k ++ [c] ++ block.drop (k + 1)).drop (k + 1 + bs.length) =
        block.drop (k + (c :: bs).length) := by
      rw [← List.drop_drop, List.drop_left' hlen, List.drop_drop, List.length_cons]
      congr 1
      omega
    by_cases h : k + (c :: bs).length ≤ block.length
    · rw [if_pos h, if_pos (hfits.mp h), htake, hdrop, List.append_assoc (block.take k) [c] bs]
      rfl
    · rw [if_neg h, if_neg (mt hfits.mpr h)]
  · have hone : storeBytes block k [c] = .error .outOfBounds := if_neg hk
    have hall : storeBytes block k (c :: bs) = .error .outOfBounds := by
      apply if_neg
      rw [List.length_cons]
      omega
    rw [hone, hall]
    rfl

theorem storeBytes_concat {block : List Byte} {k : Nat} (hk : k ≤ block.length)
    (s t : List Byte) : storeBytes block k (s ++ t) =
      storeBytes block k s >>= fun block => storeBytes block (k + s.length) t := by
  induction s generalizing block k with
  | nil => rw [storeBytes_nil hk, ok_bind, List.nil_append, List.length_nil, Nat.add_zero]
  | cons c s ih =>
    rw [List.cons_append, storeBytes_cons block k c (s ++ t), storeBytes_cons block k c s]
    by_cases hone : k + 1 ≤ block.length
    · obtain ⟨block', hstore⟩ : ∃ block', storeBytes block k [c] = .ok block' := ⟨_, if_pos hone⟩
      have hlen := length_storeBytes hstore
      rw [hstore, ok_bind, ok_bind, ih (by omega), List.length_cons, Nat.add_right_comm,
        Nat.add_assoc]
    · have hstore : storeBytes block k [c] = .error .outOfBounds := if_neg hone
      rw [hstore]
      rfl

/-- Bytes written from the end of a part of a block on. -/
theorem storeBytes_after (pre post bs : List Byte) : storeBytes (pre ++ post) pre.length bs =
    if bs.length ≤ post.length then .ok (pre ++ (bs ++ post.drop bs.length))
    else .error .outOfBounds := by
  have hfits : pre.length + bs.length ≤ (pre ++ post).length ↔ bs.length ≤ post.length := by
    rw [List.length_append]
    omega
  rw [storeBytes, List.take_left, List.drop_length_add_append, List.append_assoc]
  simp only [hfits]

/-- A string, with its terminator, at the start of a block. -/
theorem storeBytes_start {block s : List Byte} (h : s.length < block.length) :
    storeBytes block 0 (s ++ [nul]) = .ok (s ++ nul :: block.drop (s.length + 1)) := by
  have hfits : (s ++ [nul]).length ≤ block.length := by
    rw [List.length_append]
    exact h
  have hstore := storeBytes_after [] block (s ++ [nul])
  rw [if_pos hfits, List.length_append, List.append_assoc] at hstore
  exact hstore

end LuaRtos.CLib
