/-
  LuaRtos.CLib.Str

  The `string.h` functions on blocks of memory, as the C standard defines
  them, with a fault for every access outside a block.

  Each function has one equation for a destination and a source that hold
  NUL-terminated strings, written `s ++ 0 :: post`; an `if` in it separates
  the writes that fit from the ones that run past the block.
-/

import LuaRtos.CLib.Basic

namespace LuaRtos.CLib

/-- A block of `n` bytes, as `malloc(n)` returns it: its contents are
    arbitrary. -/
structure Block (n : Nat) where
  bytes : List Byte
  size : bytes.length = n

/-- A block with one particular contents. -/
def freshBlock (n : Nat) : Block n := ⟨List.replicate n 0xa5, List.length_replicate⟩

/-- The terminator of a string. -/
def nul : Byte := 0

/-- The characters of a string literal. -/
def chars (s : String) : List Byte :=
  s.toList.map fun c => BitVec.ofNat 8 c.toNat

/-- A string literal in memory, with its terminator. -/
def lit (s : String) : List Byte := chars s ++ [nul]

/-- The bytes up to the terminator. -/
def readStr : List Byte → Result (List Byte)
  | [] => throw .outOfBounds
  | c :: rest => if c = nul then pure [] else do
    let s ← readStr rest
    pure (c :: s)

/-- The bytes up to the terminator, at most `n` of them. -/
def readStrN : Nat → List Byte → Result (List Byte)
  | 0, _ => pure []
  | _ + 1, [] => throw .outOfBounds
  | n + 1, c :: rest => if c = nul then pure [] else do
    let s ← readStrN n rest
    pure (c :: s)

/-- `strchr`: the text from the first `c` on, none for NULL. -/
def strchr (c : Byte) : List Byte → Result (Option (List Byte))
  | [] => throw .outOfBounds
  | b :: rest =>
    if b = c then pure (some (b :: rest))
    else if b = nul then pure none
    else strchr c rest

/-- `strlen`. -/
def strlen (s : List Byte) : Result Nat := do
  let s ← readStr s
  pure s.length

/-- `strcpy`. -/
def strcpy (dst src : List Byte) : Result (List Byte) := do
  let t ← readStr src
  if t.length < dst.length then pure (t ++ nul :: dst.drop (t.length + 1))
  else throw .outOfBounds

/-- `strcat`. -/
def strcat (dst src : List Byte) : Result (List Byte) := do
  let s ← readStr dst
  let t ← readStr src
  if s.length + t.length < dst.length then
    pure (s ++ t ++ nul :: dst.drop (s.length + t.length + 1))
  else throw .outOfBounds

/-- `strncat`: at most `n` bytes of `src`, and always a terminator. -/
def strncat (dst src : List Byte) (n : Nat) : Result (List Byte) := do
  let s ← readStr dst
  let t ← readStrN n src
  if s.length + t.length < dst.length then
    pure (s ++ t ++ nul :: dst.drop (s.length + t.length + 1))
  else throw .outOfBounds

/-- `strncpy`: exactly `n` bytes, padded with NULs, and no terminator when
    `src` has `n` characters or more. -/
def strncpy (dst src : List Byte) (n : Nat) : Result (List Byte) := do
  let t ← readStrN n src
  if n ≤ dst.length then pure (t ++ List.replicate (n - t.length) nul ++ dst.drop n)
  else throw .outOfBounds

/-- `strncmp`: the difference of the first bytes that differ, among the
    first `n`. -/
def strncmp : List Byte → List Byte → Nat → Result Int
  | _, _, 0 => pure 0
  | c :: s, d :: t, n + 1 =>
    if c ≠ d then pure (c.toNat - d.toNat)
    else if c = nul then pure 0
    else strncmp s t n
  | _, _, _ + 1 => throw .outOfBounds

/-- `strcmp`. -/
def strcmp : List Byte → List Byte → Result Int
  | c :: s, d :: t =>
    if c ≠ d then pure (c.toNat - d.toNat)
    else if c = nul then pure 0
    else strcmp s t
  | _, _ => throw .outOfBounds

/-! ## Reading a string -/

theorem readStr_append {s : List Byte} (hs : nul ∉ s) (post : List Byte) :
    readStr (s ++ nul :: post) = .ok s := by
  induction s with
  | nil => rfl
  | cons c s ih =>
    obtain ⟨hc, hs⟩ := List.ne_and_not_mem_of_not_mem_cons hs
    simp [readStr, Ne.symm hc, ih hs]

/-- A block in which a string can be read holds it with its terminator. -/
theorem readStr_eq_ok {block s : List Byte} :
    readStr block = .ok s ↔ nul ∉ s ∧ ∃ post, block = s ++ nul :: post := by
  constructor
  · intro h
    induction block generalizing s with
    | nil => cases h
    | cons c rest ih =>
      unfold readStr at h
      split at h
      · cases h
        rename_i hc
        exact ⟨List.not_mem_nil, rest, by rw [hc]; rfl⟩
      · rename_i hc
        obtain ⟨t, ht, heq⟩ := bind_eq_ok.mp h
        cases heq
        obtain ⟨hnul, post, rfl⟩ := ih ht
        exact ⟨List.not_mem_cons_of_ne_of_not_mem (Ne.symm hc) hnul, post, rfl⟩
  · rintro ⟨hs, post, rfl⟩
    exact readStr_append hs post

theorem readStrN_append {s : List Byte} (hs : nul ∉ s) (n : Nat) (post : List Byte) :
    readStrN n (s ++ nul :: post) = .ok (s.take n) := by
  induction n generalizing s with
  | zero => rfl
  | succ n ih =>
    cases s with
    | nil => rfl
    | cons c s =>
      obtain ⟨hc, hs⟩ := List.ne_and_not_mem_of_not_mem_cons hs
      simp [readStrN, Ne.symm hc, ih hs]

theorem strlen_append {s : List Byte} (hs : nul ∉ s) (post : List Byte) :
    strlen (s ++ nul :: post) = .ok s.length := by
  simp [strlen, readStr_append hs]

theorem strchr_append {c : Byte} {s : List Byte} (hc : c ∉ s) (hs : nul ∉ s) (post : List Byte) :
    strchr c (s ++ c :: post) = .ok (some (c :: post)) := by
  induction s with
  | nil => exact if_pos rfl
  | cons d s ih =>
    obtain ⟨hcd, hc⟩ := List.ne_and_not_mem_of_not_mem_cons hc
    obtain ⟨hd, hs⟩ := List.ne_and_not_mem_of_not_mem_cons hs
    rw [List.cons_append, strchr, if_neg hcd.symm, if_neg hd.symm]
    exact ih hc hs

/-- What `strchr` has passed when it finds the character. -/
theorem strchr_some {c : Byte} {block r : List Byte} (h : strchr c block = .ok (some r)) :
    ∃ p t, block = p ++ r ∧ r = c :: t ∧ c ∉ p ∧ nul ∉ p := by
  induction block with
  | nil => cases h
  | cons b block ih =>
    rw [strchr] at h
    by_cases hbc : b = c
    · rw [if_pos hbc] at h
      obtain rfl := Option.some.inj (Except.ok.inj h)
      exact ⟨[], block, rfl, by rw [hbc], List.not_mem_nil, List.not_mem_nil⟩
    · rw [if_neg hbc] at h
      by_cases hb : b = nul
      · rw [if_pos hb] at h
        cases h
      · rw [if_neg hb] at h
        obtain ⟨p, t, hblock, hr, hcp, hnp⟩ := ih h
        refine ⟨b :: p, t, by rw [hblock, List.cons_append], hr, ?_, ?_⟩
        · exact List.not_mem_cons_of_ne_of_not_mem (Ne.symm hbc) hcp
        · exact List.not_mem_cons_of_ne_of_not_mem (Ne.symm hb) hnp

/-! ## Appending and copying -/

section Copy

variable {s t : List Byte}

theorem strcpy_eq (ht : nul ∉ t) (dst w : List Byte) :
    strcpy dst (t ++ nul :: w) =
      if t.length < dst.length then .ok (t ++ nul :: dst.drop (t.length + 1))
      else .error .outOfBounds := by
  rw [strcpy, readStr_append ht, ok_bind]
  rfl

theorem strcat_eq (hs : nul ∉ s) (ht : nul ∉ t) (post w : List Byte) :
    strcat (s ++ nul :: post) (t ++ nul :: w) =
      if t.length ≤ post.length then .ok (s ++ t ++ nul :: post.drop t.length)
      else .error .outOfBounds := by
  have hlen : s.length + t.length < (s ++ nul :: post).length ↔ t.length ≤ post.length := by
    simp only [List.length_append, List.length_cons]
    omega
  have hdrop : (s ++ nul :: post).drop (s.length + t.length + 1) = post.drop t.length := by
    rw [Nat.add_assoc, List.drop_length_add_append, List.drop_succ_cons]
  simp only [strcat, readStr_append hs, readStr_append ht, ok_bind, hlen, hdrop, pure_eq_ok,
    throw_eq_error]

theorem strncat_eq (hs : nul ∉ s) (ht : nul ∉ t) (post w : List Byte) (n : Nat) :
    strncat (s ++ nul :: post) (t ++ nul :: w) n =
      if (t.take n).length ≤ post.length then
        .ok (s ++ t.take n ++ nul :: post.drop (t.take n).length)
      else .error .outOfBounds := by
  have hlen : s.length + (t.take n).length < (s ++ nul :: post).length ↔
      (t.take n).length ≤ post.length := by
    simp only [List.length_append, List.length_cons]
    omega
  have hdrop : (s ++ nul :: post).drop (s.length + (t.take n).length + 1) =
      post.drop (t.take n).length := by
    rw [Nat.add_assoc, List.drop_length_add_append, List.drop_succ_cons]
  simp only [strncat, readStr_append hs, readStrN_append ht, ok_bind, hlen, hdrop, pure_eq_ok,
    throw_eq_error]

theorem strncpy_eq (ht : nul ∉ t) (w : List Byte) {dst : List Byte} {n : Nat}
    (hn : n ≤ dst.length) :
    strncpy dst (t ++ nul :: w) n =
      .ok (t.take n ++ List.replicate (n - (t.take n).length) nul ++ dst.drop n) := by
  simp [strncpy, readStrN_append ht, hn]

/-- A source shorter than `n` is copied with its terminator, and all that
    follows up to `n` is NUL. -/
theorem strncpy_short (ht : nul ∉ t) (w : List Byte) {dst : List Byte} {n : Nat}
    (hn : n ≤ dst.length) (hlt : t.length < n) :
    strncpy dst (t ++ nul :: w) n =
      .ok (t ++ nul :: (List.replicate (n - t.length - 1) nul ++ dst.drop n)) := by
  have hrep : List.replicate (n - t.length) nul =
      nul :: List.replicate (n - t.length - 1) nul := by
    rw [← List.replicate_succ]
    congr 1
    omega
  rw [strncpy_eq ht w hn, List.take_of_length_le (Nat.le_of_lt hlt), hrep, List.append_assoc]
  rfl

end Copy

/-! ## The length of a block stays -/

section Length

variable {dst src b : List Byte} {n : Nat}

theorem length_readStrN {s : List Byte} (h : readStrN n src = .ok s) : s.length ≤ n := by
  induction src generalizing n s with
  | nil =>
    cases n with
    | zero =>
      cases h
      exact Nat.le_refl 0
    | succ n => cases h
  | cons c src ih =>
    cases n with
    | zero =>
      cases h
      exact Nat.le_refl 0
    | succ n =>
      unfold readStrN at h
      by_cases hc : c = nul
      · rw [if_pos hc] at h
        cases h
        exact Nat.zero_le _
      · rw [if_neg hc] at h
        obtain ⟨t, ht, hs⟩ := bind_eq_ok.mp h
        cases hs
        exact Nat.succ_le_succ (ih ht)

theorem length_strncpy (h : strncpy dst src n = .ok b) : b.length = dst.length := by
  obtain ⟨t, ht, hb⟩ := bind_eq_ok.mp h
  have htn := length_readStrN ht
  by_cases hn : n ≤ dst.length
  · rw [if_pos hn] at hb
    cases hb
    simp only [List.length_append, List.length_replicate, List.length_drop]
    omega
  · rw [if_neg hn] at hb
    cases hb

theorem length_strncat (h : strncat dst src n = .ok b) : b.length = dst.length := by
  obtain ⟨s, -, h⟩ := bind_eq_ok.mp h
  obtain ⟨t, -, hb⟩ := bind_eq_ok.mp h
  by_cases hfit : s.length + t.length < dst.length
  · rw [if_pos hfit] at hb
    cases hb
    simp only [List.length_append, List.length_cons, List.length_drop]
    omega
  · rw [if_neg hfit] at hb
    cases hb

theorem length_store {i : Nat} {c : Byte} (h : store dst i c = .ok b) :
    b.length = dst.length := by
  unfold store at h
  split at h
  · cases h
    exact List.length_set
  · cases h

end Length

/-! ## Strings in blocks

`Holds n b s`: the block `b` of `n` bytes holds the string `s`.  Each function
that writes a string has one lemma that it succeeds when the string fits, and
one that it has written that string whenever it succeeds. -/

/-- A block of `n` bytes that holds the string `s`. -/
structure Holds (n : Nat) (b s : List Byte) : Prop where
  size : b.length = n
  str : readStr b = .ok s

section Holds

variable {n k : Nat} {b b' s t : List Byte}

theorem Holds.nul_free (h : Holds n b s) : nul ∉ s := (readStr_eq_ok.mp h.str).1

theorem Holds.exists_post (h : Holds n b s) :
    ∃ post, b = s ++ nul :: post ∧ s.length + post.length + 1 = n := by
  obtain ⟨-, post, rfl⟩ := readStr_eq_ok.mp h.str
  refine ⟨post, rfl, ?_⟩
  have hsize := h.size
  simp only [List.length_append, List.length_cons] at hsize
  omega

theorem Holds.length_lt (h : Holds n b s) : s.length < n := by
  obtain ⟨post, -, hlen⟩ := h.exists_post
  omega

theorem Holds.strcat_ok (h : Holds n b s) (ht : nul ∉ t) (w : List Byte)
    (hfit : s.length + t.length < n) : ∃ b', strcat b (t ++ nul :: w) = .ok b' := by
  obtain ⟨post, rfl, hlen⟩ := h.exists_post
  exact ⟨_, by rw [strcat_eq h.nul_free ht, if_pos (by omega)]⟩

theorem Holds.strcat_inv (h : Holds n b s) (ht : nul ∉ t) {w : List Byte}
    (hok : strcat b (t ++ nul :: w) = .ok b') : Holds n b' (s ++ t) := by
  obtain ⟨post, rfl, hlen⟩ := h.exists_post
  rw [strcat_eq h.nul_free ht] at hok
  split at hok
  · cases hok
    have hst : nul ∉ s ++ t := by simp [h.nul_free, ht]
    refine ⟨?_, readStr_append hst _⟩
    simp only [List.length_append, List.length_cons, List.length_drop]
    omega
  · cases hok

/-- A zero that is written into a string cuts it. -/
theorem Holds.cut (h : Holds n b (s ++ t)) :
    ∃ b', store b s.length nul = .ok b' ∧ Holds n b' s := by
  obtain ⟨post, rfl, hlen⟩ := h.exists_post
  have hs : nul ∉ s := fun hmem => h.nul_free (List.mem_append_left t hmem)
  rw [List.append_assoc]
  cases t with
  | nil =>
    refine ⟨_, store_append s post nul nul, ?_, readStr_append hs post⟩
    rw [List.length_append, List.length_cons]
    rw [List.append_nil] at hlen
    omega
  | cons c t =>
    refine ⟨_, store_append s (t ++ nul :: post) c nul, ?_, readStr_append hs _⟩
    simp only [List.length_append, List.length_cons] at hlen ⊢
    omega

theorem Holds.strncat_ok (h : Holds n b s) (ht : nul ∉ t) (w : List Byte)
    (hfit : s.length + (t.take k).length < n) : ∃ b', strncat b (t ++ nul :: w) k = .ok b' := by
  obtain ⟨post, rfl, hlen⟩ := h.exists_post
  exact ⟨_, by rw [strncat_eq h.nul_free ht, if_pos (by omega)]⟩

theorem Holds.strncat_inv (h : Holds n b s) (ht : nul ∉ t) {w : List Byte}
    (hok : strncat b (t ++ nul :: w) k = .ok b') : Holds n b' (s ++ t.take k) := by
  obtain ⟨post, rfl, hlen⟩ := h.exists_post
  rw [strncat_eq h.nul_free ht] at hok
  split at hok
  · cases hok
    have hst : nul ∉ s ++ t.take k := by
      simpa [h.nul_free] using fun hm => ht (List.mem_of_mem_take hm)
    refine ⟨?_, readStr_append hst _⟩
    simp only [List.length_append, List.length_cons, List.length_drop]
    omega
  · cases hok

theorem strncpy_holds (hb : b.length = n) (hk : k ≤ n) (ht : nul ∉ t) (w : List Byte)
    (hlt : t.length < k) : ∃ b', strncpy b (t ++ nul :: w) k = .ok b' ∧ Holds n b' t := by
  refine ⟨_, strncpy_short ht w (by omega) hlt, ?_, readStr_append ht _⟩
  simp only [List.length_append, List.length_cons, List.length_replicate, List.length_drop]
  omega

theorem strcpy_holds (hb : b.length = n) (ht : nul ∉ t) (w : List Byte) (hlt : t.length < n) :
    ∃ b', strcpy b (t ++ nul :: w) = .ok b' ∧ Holds n b' t := by
  refine ⟨_, by rw [strcpy_eq ht, if_pos (by omega)], ?_, readStr_append ht _⟩
  simp only [List.length_append, List.length_cons, List.length_drop]
  omega

/-- With one byte of room behind the `k` that are written, a string that can be
    read back is the source cut to `k`: the byte behind may end it, not extend
    it. -/
theorem strncpy_inv (hb : b.length = k + 1) (ht : nul ∉ t) {w : List Byte}
    (hok : strncpy b (t ++ nul :: w) k = .ok b') (hs : readStr b' = .ok s) :
    Holds (k + 1) b' (t.take k) := by
  by_cases hlt : t.length < k
  · obtain ⟨b₁, hb₁, hh⟩ := strncpy_holds hb (Nat.le_succ k) ht w hlt
    rw [hok] at hb₁
    cases hb₁
    rwa [List.take_of_length_le (Nat.le_of_lt hlt)]
  · rw [strncpy_eq ht w (by omega)] at hok
    have hlen : (t.take k).length = k := by rw [List.length_take]; omega
    rw [hlen, Nat.sub_self, List.replicate_zero, List.append_nil] at hok
    have htk : nul ∉ t.take k := fun hm => ht (List.mem_of_mem_take hm)
    obtain ⟨x, hx⟩ := List.length_eq_one_iff.mp (show (b.drop k).length = 1 by
      rw [List.length_drop]; omega)
    rw [hx] at hok
    cases hok
    refine ⟨by simp only [List.length_append, List.length_singleton, hlen], ?_⟩
    obtain ⟨-, post, heq⟩ := readStr_eq_ok.mp hs
    have hxnul : x = nul := by
      have hmem : nul ∈ t.take k ++ [x] := by rw [heq]; simp
      rcases List.mem_append.mp hmem with hm | hm
      · exact absurd hm htk
      · exact (List.mem_singleton.mp hm).symm
    rw [hxnul]
    exact readStr_append htk []

end Holds

/-! ## Comparing -/

theorem byte_diff_eq_zero {c d : Byte} : (c.toNat : Int) - d.toNat = 0 ↔ c = d := by
  constructor
  · intro h
    exact BitVec.eq_of_toNat_eq (by omega)
  · rintro rfl
    omega

section Compare

variable {c d : Byte} {s t : List Byte}

theorem strcmp_ne (h : c ≠ d) : strcmp (c :: s) (d :: t) = .ok (c.toNat - d.toNat) :=
  if_pos h

theorem strcmp_cons (h : c ≠ nul) : strcmp (c :: s) (c :: t) = strcmp s t :=
  (if_neg (not_not_intro rfl)).trans (if_neg h)

theorem strncmp_ne (h : c ≠ d) (n : Nat) :
    strncmp (c :: s) (d :: t) (n + 1) = .ok (c.toNat - d.toNat) :=
  if_pos h

theorem strncmp_cons (h : c ≠ nul) (n : Nat) :
    strncmp (c :: s) (c :: t) (n + 1) = strncmp s t n :=
  (if_neg (not_not_intro rfl)).trans (if_neg h)

/-- `strcmp` of two strings is zero exactly when they are equal. -/
theorem strcmp_append (hs : nul ∉ s) (ht : nul ∉ t) (v w : List Byte) :
    ∃ r, strcmp (s ++ nul :: v) (t ++ nul :: w) = .ok r ∧ (r = 0 ↔ s = t) := by
  induction s generalizing t with
  | nil =>
    cases t with
    | nil => exact ⟨0, rfl, by simp⟩
    | cons d t =>
      have hd := (List.ne_and_not_mem_of_not_mem_cons ht).1
      exact ⟨_, strcmp_ne hd, by simp [byte_diff_eq_zero, hd]⟩
  | cons c s ih =>
    obtain ⟨hc, hs⟩ := List.ne_and_not_mem_of_not_mem_cons hs
    cases t with
    | nil => exact ⟨_, strcmp_ne (Ne.symm hc), by simp [byte_diff_eq_zero, Ne.symm hc]⟩
    | cons d t =>
      by_cases hcd : c = d
      · subst hcd
        obtain ⟨r, hr, heq⟩ := ih hs (List.ne_and_not_mem_of_not_mem_cons ht).2
        exact ⟨r, (strcmp_cons (Ne.symm hc)).trans hr, by simp [heq]⟩
      · exact ⟨_, strcmp_ne hcd, by simp [byte_diff_eq_zero, hcd]⟩

/-- `strncmp` over all characters of a string, but not its terminator, is a
    prefix test. -/
theorem strncmp_prefix (hs : nul ∉ s) (ht : nul ∉ t) (v w : List Byte) :
    ∃ r, strncmp (s ++ nul :: v) (t ++ w) t.length = .ok r ∧ (r = 0 ↔ t <+: s) := by
  induction t generalizing s with
  | nil => exact ⟨0, by simp [strncmp]⟩
  | cons d t ih =>
    obtain ⟨hd, ht'⟩ := List.ne_and_not_mem_of_not_mem_cons ht
    cases s with
    | nil => exact ⟨_, strncmp_ne hd _, by simp [byte_diff_eq_zero, hd]⟩
    | cons c s =>
      obtain ⟨hc, hs⟩ := List.ne_and_not_mem_of_not_mem_cons hs
      by_cases hcd : c = d
      · subst hcd
        obtain ⟨r, hr, heq⟩ := ih hs ht'
        exact ⟨r, (strncmp_cons (Ne.symm hc) _).trans hr, by simp [heq]⟩
      · exact ⟨_, strncmp_ne hcd _, by simp [byte_diff_eq_zero, hcd, Ne.symm hcd]⟩

/-- `strncmp` over a string and its terminator is equality. -/
theorem strncmp_whole (hs : nul ∉ s) (ht : nul ∉ t) (v w : List Byte) :
    ∃ r, strncmp (s ++ nul :: v) (t ++ nul :: w) (t.length + 1) = .ok r ∧ (r = 0 ↔ s = t) := by
  induction t generalizing s with
  | nil =>
    cases s with
    | nil => exact ⟨0, rfl, by simp⟩
    | cons c s =>
      have hc := (List.ne_and_not_mem_of_not_mem_cons hs).1
      exact ⟨_, strncmp_ne (Ne.symm hc) _, by simp [byte_diff_eq_zero, Ne.symm hc]⟩
  | cons d t ih =>
    obtain ⟨hd, ht'⟩ := List.ne_and_not_mem_of_not_mem_cons ht
    cases s with
    | nil => exact ⟨_, strncmp_ne hd _, by simp [byte_diff_eq_zero, hd]⟩
    | cons c s =>
      obtain ⟨hc, hs⟩ := List.ne_and_not_mem_of_not_mem_cons hs
      by_cases hcd : c = d
      · subst hcd
        obtain ⟨r, hr, heq⟩ := ih hs ht'
        exact ⟨r, (strncmp_cons (Ne.symm hc) _).trans hr, by simp [heq]⟩
      · exact ⟨_, strncmp_ne hcd _, by simp [byte_diff_eq_zero, hcd]⟩

end Compare

end LuaRtos.CLib
