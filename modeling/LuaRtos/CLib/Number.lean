/-
  LuaRtos.CLib.Number

  Numbers as text: `%d` of `printf` and of `sscanf`, and `strtol`, with a `long` of 32 bits.
-/

import LuaRtos.CLib.Str

namespace LuaRtos.CLib

/-- The `int` with the bits of an unsigned number. -/
def toInt32 (n : Nat) : Int := (BitVec.ofNat 32 n).toInt

/-- What `%d` prints for an `int`. -/
def formatD (i : Int) : List Byte := chars (toString i)

/-- `isdigit`. -/
def isDigit (c : Byte) : Bool := 0x30 ≤ c && c ≤ 0x39

/-- `isspace`. -/
def isSpace (c : Byte) : Bool := c = 0x20 || 0x09 ≤ c && c ≤ 0x0d

/-- The digits that a text starts with, as a number. -/
def digitsVal (s : List Byte) : Nat :=
  (s.takeWhile isDigit).foldl (fun n c => 10 * n + (c.toNat - 0x30)) 0

/-- `strtol` with base 10, on the characters of a string. -/
def strtol (s : List Byte) : Int :=
  match s.dropWhile isSpace with
  | 0x2d :: s => max (-(digitsVal s : Int)) (-2147483648)
  | 0x2b :: s => min (digitsVal s : Int) 2147483647
  | s => min (digitsVal s : Int) 2147483647

/-- What comes of `sscanf` with `%d` and one variable. -/
inductive ScanResult where
  /-- The text ends before a number. -/
  | eof
  | mismatch
  | value (n : Int)
deriving DecidableEq, Repr

/-- `sscanf(s, "%d", &n)`. -/
def sscanfD (s : List Byte) : Result ScanResult := do
  let s ← readStr s
  match s.dropWhile isSpace with
  | [] => pure .eof
  | c :: rest =>
    let digits := if c = 0x2d ∨ c = 0x2b then rest else c :: rest
    if digits.head?.any isDigit then pure (.value (strtol s)) else pure .mismatch

theorem toInt32_of_lt {n : Nat} (h : n < 2147483648) : toInt32 n = n := by
  rw [toInt32, BitVec.toInt_ofNat']
  exact Int.bmod_eq_of_le (by omega) (by omega)

theorem toInt32_bounds (n : Nat) : -2147483648 ≤ toInt32 n ∧ toInt32 n ≤ 2147483647 := by
  have hlow := BitVec.le_toInt (BitVec.ofNat 32 n)
  have hhigh := BitVec.toInt_lt (x := BitVec.ofNat 32 n)
  simp only [toInt32]
  omega

theorem toInt32_pos {n : Nat} (h : 0 < toInt32 n) (hn : n < 4294967296) :
    n < 2147483648 ∧ toInt32 n = n := by
  have hlt : n < 2147483648 := by
    rw [toInt32, BitVec.toInt_eq_toNat_cond, BitVec.toNat_ofNat] at h
    split at h
    · omega
    · omega
  exact ⟨hlt, toInt32_of_lt hlt⟩

/-! ## What is printed is read back -/

section RoundTrip

theorem toNat_of_isDigit {c : Char} (h : c.isDigit = true) : 48 ≤ c.toNat ∧ c.toNat ≤ 57 := by
  simp only [Char.isDigit, Bool.and_eq_true, decide_eq_true_eq, ge_iff_le,
    UInt32.le_iff_toNat_le] at h
  exact h

/-- A digit in memory is the code of its character. -/
theorem toNat_digit {c : Char} (h : c.isDigit = true) :
    (BitVec.ofNat 8 c.toNat).toNat = c.toNat := by
  obtain ⟨-, hle⟩ := toNat_of_isDigit h
  rw [BitVec.toNat_ofNat]
  omega

theorem isDigit_ofNat {c : Char} (h : c.isDigit = true) :
    isDigit (BitVec.ofNat 8 c.toNat) = true := by
  obtain ⟨hge, hle⟩ := toNat_of_isDigit h
  have hc := toNat_digit h
  simp only [isDigit, Bool.and_eq_true, decide_eq_true_eq, BitVec.le_def, hc]
  exact ⟨hge, hle⟩

theorem formatD_nat (n : Nat) :
    formatD n = (Nat.toDigits 10 n).map fun c => BitVec.ofNat 8 c.toNat := by
  show chars (toString n) = _
  rw [chars, Nat.toString_eq_repr, Nat.toList_repr]

theorem isDigit_of_mem_formatD {n : Nat} : ∀ c ∈ formatD n, isDigit c = true := by
  intro c hc
  rw [formatD_nat] at hc
  obtain ⟨d, hd, rfl⟩ := List.mem_map.mp hc
  exact isDigit_ofNat (Nat.isDigit_of_mem_toDigits (by decide) (by decide) hd)

theorem formatD_ne_nil (n : Nat) : formatD n ≠ [] := by
  rw [formatD_nat]
  exact fun h => Nat.toDigits_ne_nil (List.map_eq_nil_iff.mp h)

theorem length_formatD_le {n k : Nat} (hk : 0 < k) (h : n < Nat.pow 10 k) :
    (formatD n).length ≤ k := by
  rw [formatD_nat, List.length_map]
  exact (Nat.length_toDigits_le_iff (by decide) hk).mpr h

theorem foldl_digits {l : List Char} (h : ∀ c ∈ l, c.isDigit = true) (init : Nat) :
    (l.map fun c => BitVec.ofNat 8 c.toNat).foldl (fun n c => 10 * n + (c.toNat - 0x30)) init =
      Nat.ofDigitChars 10 l init := by
  induction l generalizing init with
  | nil => rfl
  | cons c l ih =>
    rw [List.map_cons, List.foldl_cons, Nat.ofDigitChars_cons,
      ih fun d hd => h d (List.mem_cons_of_mem c hd), toNat_digit (h c List.mem_cons_self)]
    rfl

theorem takeWhile_isDigit {s post : List Byte} (hs : ∀ c ∈ s, isDigit c = true)
    (hpost : ∀ c ∈ post.head?, isDigit c = false) : (s ++ post).takeWhile isDigit = s := by
  rw [List.takeWhile_append_of_pos hs]
  cases post with
  | nil => simp
  | cons c post => rw [List.takeWhile_cons, hpost c rfl, if_neg Bool.false_ne_true, List.append_nil]

theorem digitsVal_formatD (n : Nat) {post : List Byte}
    (hpost : ∀ c ∈ post.head?, isDigit c = false) : digitsVal (formatD n ++ post) = n := by
  rw [digitsVal, takeWhile_isDigit isDigit_of_mem_formatD hpost, formatD_nat,
    foldl_digits fun c hc => Nat.isDigit_of_mem_toDigits (by decide) (by decide) hc,
    Nat.ofDigitChars_ten_toDigits]

/-- `strtol` after `%d`, whatever follows that is not a digit. -/
theorem strtol_formatD {n : Nat} (h : n < 2147483648) {post : List Byte}
    (hpost : ∀ c ∈ post.head?, isDigit c = false) : strtol (formatD n ++ post) = n := by
  have hval := digitsVal_formatD n hpost
  obtain ⟨c, s, hs⟩ := List.exists_cons_of_ne_nil (formatD_ne_nil n)
  have hc : isDigit c = true := isDigit_of_mem_formatD c (hs ▸ List.mem_cons_self)
  -- a digit is no space and no sign
  have hplain : ∀ c : Byte, isDigit c = true → isSpace c = false ∧ c ≠ 0x2d ∧ c ≠ 0x2b := by
    decide
  obtain ⟨hspace, hminus, hplus⟩ := hplain c hc
  rw [hs, List.cons_append] at hval ⊢
  rw [strtol, List.dropWhile_cons, hspace, if_neg Bool.false_ne_true]
  split
  · next heq => exact absurd (List.cons.inj heq).1 hminus
  · next heq => exact absurd (List.cons.inj heq).1 hplus
  · rw [hval]
    omega

/-! ### Negative numbers -/

theorem formatD_negSucc (n : Nat) :
    formatD (Int.negSucc n) = 0x2d :: formatD (n + 1 : Nat) := by
  rw [formatD, chars, formatD, chars]
  show (("-" ++ toString (n + 1)).toList.map _) = _ :: (toString (n + 1)).toList.map _
  rw [String.toList_append]
  rfl

/-- The characters of a number. -/
theorem digit_or_minus {i : Int} : ∀ c ∈ formatD i, isDigit c = true ∨ c = 0x2d := by
  intro c hc
  cases i with
  | ofNat n => exact .inl (isDigit_of_mem_formatD c hc)
  | negSucc n =>
    rw [formatD_negSucc, List.mem_cons] at hc
    apply hc.symm.imp_left
    exact isDigit_of_mem_formatD c

theorem formatD_int_ne_nil (i : Int) : formatD i ≠ [] := by
  cases i with
  | ofNat n => exact formatD_ne_nil n
  | negSucc n =>
    rw [formatD_negSucc]
    exact List.cons_ne_nil _ _

/-- An `int` has at most ten digits and a sign. -/
theorem length_formatD_int {i : Int} (hlow : -2147483648 ≤ i) (hhigh : i ≤ 2147483647) :
    (formatD i).length ≤ 11 := by
  cases i with
  | ofNat n =>
    have hn : (n : Int) ≤ 2147483647 := hhigh
    have hlen : (formatD n).length ≤ 10 := by
      apply length_formatD_le (by decide)
      show n < 10 ^ 10
      omega
    exact Nat.le_succ_of_le hlen
  | negSucc n =>
    have hlen : (formatD (n + 1 : Nat)).length ≤ 10 := by
      apply length_formatD_le (by decide)
      show n + 1 < 10 ^ 10
      omega
    rw [formatD_negSucc]
    exact Nat.succ_le_succ hlen

/-- `strtol` after `%d`, for every `int`. -/
theorem strtol_formatD_int {i : Int} (hlow : -2147483648 ≤ i) (hhigh : i ≤ 2147483647) :
    strtol (formatD i) = i := by
  cases i with
  | ofNat n =>
    have hn : (n : Int) ≤ 2147483647 := hhigh
    have h : strtol (formatD n ++ []) = n := strtol_formatD (by omega) nofun
    rwa [List.append_nil] at h
  | negSucc n =>
    have hval : digitsVal (formatD (n + 1 : Nat) ++ []) = n + 1 := digitsVal_formatD (n + 1) nofun
    rw [List.append_nil] at hval
    rw [formatD_negSucc]
    show max (-(digitsVal (formatD (n + 1 : Nat)) : Int)) (-2147483648) = _
    rw [hval]
    omega

end RoundTrip

end LuaRtos.CLib
