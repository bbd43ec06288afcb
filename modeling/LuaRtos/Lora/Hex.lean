/-
  LuaRtos.Lora.Hex

  The conversions between bytes and hexadecimal strings of drivers/lora_lmic.c and
  Lua/modules/lora.c.

  A pointer is a block and an offset into it, which may be negative while it is
  not followed.
-/

import LuaRtos.CLib.Str
import Mathlib.Data.List.Induction

namespace LuaRtos.Lora

open LuaRtos.CLib

/-- `p[i]`. -/
def loadAt (block : List Byte) (i : Int) : Result Byte :=
  if i < 0 then throw .outOfBounds else load block i.toNat

/-- `'0'` to `'9'` or `'A'` to `'F'`. -/
def isHexDigit (c : Byte) : Bool := 48 ≤ c && c ≤ 57 || 65 ≤ c && c ≤ 70

/-- What one character adds; one that is no digit adds nothing. -/
def hexNibble (c : Byte) : Byte :=
  if 48 ≤ c && c ≤ 57 then c - 48
  else if 65 ≤ c && c ≤ 70 then 10 + (c - 65)
  else 0

/-- The character of a nibble. -/
def hexDigit (n : Byte) : Byte := if n ≤ 9 then 48 + n else 65 + (n - 10)

section Loops

/-- The loop of `hex_string_to_val`, with `hbuff` at `p`. -/
def hexStringToValLoop (hbuff : List Byte) (rev : Bool) : Nat → Int → Result (List Byte)
  | 0, _ => pure []
  | len + 1, p => do
    let hi ← loadAt hbuff p
    let lo ← loadAt hbuff (p + 1)
    let rest ← hexStringToValLoop hbuff rev len (if rev then p - 2 else p + 2)
    pure ((hexNibble hi <<< 4 ||| hexNibble lo) :: rest)

/-- `hex_string_to_val`: the `len` bytes that it writes to `vbuff`. -/
def hexStringToVal (hbuff : List Byte) (len : Nat) (rev : Bool) : Result (List Byte) :=
  if rev then do
    -- put hbuff at the last byte
    let n ← strlen hbuff
    hexStringToValLoop hbuff rev len ((n : Int) - 2)
  else hexStringToValLoop hbuff rev len 0

/-- The loop of `val_to_hex_string`, with `vbuff` at `p` and `hbuff` at `i`. -/
def valToHexStringLoop (vbuff : List Byte) (reverse : Bool) :
    Nat → Int → Nat → List Byte → Result (Nat × List Byte)
  | 0, _, i, hbuff => pure (i, hbuff)
  | len + 1, p, i, hbuff => do
    let b ← loadAt vbuff p
    let hbuff ← store hbuff i (hexDigit ((b &&& 0xf0) >>> 4))
    let hbuff ← store hbuff (i + 1) (hexDigit (b &&& 0x0f))
    valToHexStringLoop vbuff reverse len (if reverse then p - 1 else p + 1) (i + 2) hbuff

/-- `val_to_hex_string`: `hbuff` afterwards. -/
def valToHexString (hbuff vbuff : List Byte) (len : Nat) (reverse : Bool) :
    Result (List Byte) := do
  let (i, hbuff) ← valToHexStringLoop vbuff reverse len (if reverse then (len : Int) - 1 else 0)
    0 hbuff
  store hbuff i nul

/-- `check_hex_str`. -/
def checkHexStr (str : List Byte) : Result Bool := do
  let s ← readStr str
  pure (s.all isHexDigit)

end Loops

/-! ## What they are for -/

/-- The bytes that pairs of digits stand for. -/
def decodeHex : List Byte → List Byte
  | hi :: lo :: rest => (hexNibble hi <<< 4 ||| hexNibble lo) :: decodeHex rest
  | _ => []

/-- The digits of bytes, upper case. -/
def encodeHex : List Byte → List Byte
  | [] => []
  | b :: rest => hexDigit ((b &&& 0xf0) >>> 4) :: hexDigit (b &&& 0x0f) :: encodeHex rest

section Digits

theorem hexNibble_lt : ∀ c : Byte, hexNibble c < 16 := by decide

theorem hexDigit_hexNibble : ∀ c : Byte, isHexDigit c = true → hexDigit (hexNibble c) = c := by
  decide

theorem isHexDigit_hexDigit : ∀ n : Byte, n < 16 → isHexDigit (hexDigit n) = true := by decide

theorem ne_nul_of_isHexDigit {c : Byte} (h : isHexDigit c = true) : c ≠ nul := by
  rintro rfl
  cases h

theorem high_lt : ∀ b : Byte, (b &&& 0xf0) >>> 4 < 16 := by decide

theorem low_lt : ∀ b : Byte, b &&& 0x0f < 16 := by decide

theorem nibbles_of_byte : ∀ b : Byte,
    hexNibble (hexDigit ((b &&& 0xf0) >>> 4)) <<< 4 ||| hexNibble (hexDigit (b &&& 0x0f)) = b := by
  decide

theorem byte_of_nibbles {x y : Byte} (hx : x < 16) (hy : y < 16) :
    ((x <<< 4 ||| y) &&& 0xf0) >>> 4 = x ∧ (x <<< 4 ||| y) &&& 0x0f = y := by
  have hfin : ∀ i j : Fin 16,
      ((BitVec.ofNat 8 i <<< 4 ||| BitVec.ofNat 8 j) &&& 0xf0) >>> 4 = BitVec.ofNat 8 i ∧
        (BitVec.ofNat 8 i <<< 4 ||| BitVec.ofNat 8 j) &&& 0x0f = BitVec.ofNat 8 j := by decide
  have h := hfin ⟨x.toNat, BitVec.lt_def.mp hx⟩ ⟨y.toNat, BitVec.lt_def.mp hy⟩
  simpa using h

end Digits

/-! ## Round trips -/

section RoundTrips

variable {s v : List Byte}

theorem length_encodeHex (v : List Byte) : (encodeHex v).length = 2 * v.length := by
  induction v with
  | nil => rfl
  | cons b v ih =>
    rw [encodeHex, List.length_cons, List.length_cons, ih, List.length_cons]
    omega

theorem encodeHex_append (s t : List Byte) : encodeHex (s ++ t) = encodeHex s ++ encodeHex t := by
  induction s with
  | nil => rfl
  | cons b s ih =>
    rw [List.cons_append, encodeHex, encodeHex, ih, List.cons_append,
      List.cons_append]

theorem isHexDigit_of_mem_encodeHex {c : Byte} (h : c ∈ encodeHex v) : isHexDigit c = true := by
  induction v with
  | nil => cases h
  | cons b v ih =>
    rw [encodeHex] at h
    obtain rfl | h := List.mem_cons.mp h
    · exact isHexDigit_hexDigit _ (high_lt b)
    · obtain rfl | h := List.mem_cons.mp h
      · exact isHexDigit_hexDigit _ (low_lt b)
      · exact ih h

theorem nul_notMem_of_hex (h : ∀ c ∈ s, isHexDigit c = true) : nul ∉ s :=
  fun hmem => ne_nul_of_isHexDigit (h nul hmem) rfl

theorem nul_notMem_encodeHex (v : List Byte) : nul ∉ encodeHex v :=
  nul_notMem_of_hex fun _ hc => isHexDigit_of_mem_encodeHex hc

/-- What was written as digits reads back. -/
theorem decodeHex_encodeHex (v : List Byte) : decodeHex (encodeHex v) = v := by
  induction v with
  | nil => rfl
  | cons b v ih => rw [encodeHex, decodeHex, ih, nibbles_of_byte]

/-- What was read from digits is written as the same ones. -/
theorem encodeHex_decodeHex {n : Nat} (hlen : s.length = 2 * n)
    (hs : ∀ c ∈ s, isHexDigit c = true) : encodeHex (decodeHex s) = s := by
  induction n generalizing s with
  | zero =>
    rw [List.length_eq_zero_iff.mp hlen]
    rfl
  | succ n ih =>
    match s, hlen, hs with
    | hi :: lo :: rest, hlen, hs =>
      obtain ⟨hhi, hlo⟩ := byte_of_nibbles (hexNibble_lt hi) (hexNibble_lt lo)
      have hrest : encodeHex (decodeHex rest) = rest := by
        refine ih ?_ fun c hc => hs c (List.mem_cons_of_mem _ (List.mem_cons_of_mem _ hc))
        simp only [List.length_cons] at hlen
        omega
      rw [decodeHex, encodeHex, hhi, hlo, hrest, hexDigit_hexNibble _ (hs hi (by simp)),
        hexDigit_hexNibble _ (hs lo (by simp))]

theorem length_decodeHex {n : Nat} (hlen : s.length = 2 * n) : (decodeHex s).length = n := by
  induction n generalizing s with
  | zero =>
    rw [List.length_eq_zero_iff.mp hlen]
    rfl
  | succ n ih =>
    match s, hlen with
    | hi :: lo :: rest, hlen =>
      simp only [List.length_cons] at hlen
      rw [decodeHex, List.length_cons, ih (by omega)]

theorem decodeHex_append {t : List Byte} {n : Nat} (hlen : s.length = 2 * n) :
    decodeHex (s ++ t) = decodeHex s ++ decodeHex t := by
  induction n generalizing s with
  | zero =>
    rw [List.length_eq_zero_iff.mp hlen]
    rfl
  | succ n ih =>
    match s, hlen with
    | hi :: lo :: rest, hlen =>
      simp only [List.length_cons] at hlen
      rw [List.cons_append, List.cons_append, decodeHex, ih (by omega), decodeHex,
        List.cons_append]

end RoundTrips

/-! ## The loops -/

section Specs

variable {s v : List Byte} {n : Nat}

theorem loadAt_append (pre post : List Byte) (c : Byte) :
    loadAt (pre ++ c :: post) (pre.length : Int) = .ok c := by
  rw [loadAt, if_neg (by omega), Int.toNat_natCast, load_append]

/-- Forwards, from the end of `pre`. -/
theorem hexStringToValLoop_forward (pre post : List Byte) (hlen : s.length = 2 * n) :
    hexStringToValLoop (pre ++ s ++ post) false n (pre.length : Int) = .ok (decodeHex s) := by
  induction n generalizing pre s with
  | zero =>
    rw [List.length_eq_zero_iff.mp hlen]
    rfl
  | succ n ih =>
    match s, hlen with
    | hi :: lo :: rest, hlen =>
      simp only [List.length_cons] at hlen
      have hhi : loadAt (pre ++ (hi :: lo :: rest) ++ post) (pre.length : Int) = .ok hi := by
        rw [List.append_assoc]
        exact loadAt_append pre (lo :: rest ++ post) hi
      have hlo : loadAt (pre ++ (hi :: lo :: rest) ++ post) ((pre.length : Int) + 1) = .ok lo := by
        have h := loadAt_append (pre ++ [hi]) (rest ++ post) lo
        simpa using h
      have hrest := ih (pre ++ [hi, lo]) (s := rest) (by omega)
      have hblock : pre ++ [hi, lo] ++ rest ++ post = pre ++ (hi :: lo :: rest) ++ post := by simp
      have hpos : ((pre ++ [hi, lo]).length : Int) = (pre.length : Int) + 2 := by simp
      rw [hblock, hpos] at hrest
      simp only [hexStringToValLoop, hhi, hlo, ok_bind, Bool.false_eq_true, if_false, hrest,
        pure_eq_ok, decodeHex]

/-- Backwards, from the last pair before `post`. -/
theorem hexStringToValLoop_backward (post : List Byte) (hlen : s.length = 2 * n) :
    hexStringToValLoop (s ++ post) true n ((s.length : Int) - 2) =
      .ok (decodeHex s).reverse := by
  induction n generalizing s post with
  | zero =>
    rw [List.length_eq_zero_iff.mp hlen]
    rfl
  | succ n ih =>
    -- the last pair is read first
    obtain ⟨t, hi, lo, rfl⟩ : ∃ t hi lo, s = t ++ [hi, lo] := by
      refine ⟨s.take (2 * n), s[2 * n], s[2 * n + 1], ?_⟩
      have hdrop : s.drop (2 * n) = [s[2 * n], s[2 * n + 1]] := by
        rw [List.drop_eq_getElem_cons (by omega), List.drop_eq_getElem_cons (by omega),
          List.drop_eq_nil_of_le (by omega)]
      rw [← hdrop, List.take_append_drop]
    have htlen : t.length = 2 * n := by
      simp only [List.length_append, List.length_cons, List.length_nil] at hlen
      omega
    have hpos : (((t ++ [hi, lo]).length : Nat) : Int) - 2 = t.length := by
      simp
    have hhi : loadAt (t ++ [hi, lo] ++ post) (t.length : Int) = .ok hi := by
      have h := loadAt_append t (lo :: post) hi
      simpa using h
    have hlo : loadAt (t ++ [hi, lo] ++ post) ((t.length : Int) + 1) = .ok lo := by
      have h := loadAt_append (t ++ [hi]) post lo
      simpa using h
    have hrest := ih (hi :: lo :: post) htlen
    have hblock : t ++ hi :: lo :: post = t ++ [hi, lo] ++ post := by simp
    rw [hblock] at hrest
    rw [hpos, decodeHex_append htlen, List.reverse_append]
    simp only [hexStringToValLoop, hhi, hlo, ok_bind, if_true, hrest, pure_eq_ok, decodeHex,
      List.reverse_cons, List.reverse_nil, List.nil_append, List.cons_append]

/-- A string of as many digits as are asked for. -/
theorem hexStringToVal_eq (post : List Byte) (hlen : s.length = 2 * n)
    (hs : ∀ c ∈ s, isHexDigit c = true) (rev : Bool) :
    hexStringToVal (s ++ nul :: post) n rev =
      .ok (if rev then (decodeHex s).reverse else decodeHex s) := by
  cases rev with
  | true =>
    rw [hexStringToVal, if_pos rfl, strlen_append (nul_notMem_of_hex hs), ok_bind]
    exact hexStringToValLoop_backward (nul :: post) hlen
  | false => exact hexStringToValLoop_forward [] (nul :: post) hlen

/-- Two characters are written behind those that are there. -/
theorem store_two (w tail : List Byte) (x y hi lo : Byte) :
    (do
      let hbuff ← store (w ++ x :: y :: tail) w.length hi
      store hbuff (w.length + 1) lo) = .ok (w ++ hi :: lo :: tail) := by
  rw [store_append, ok_bind]
  have h := store_append (w ++ [hi]) tail y lo
  simpa using h

/-- One turn of the loop. -/
theorem valToHexStringLoop_succ {vbuff w tail : List Byte} {x y b : Byte} {p : Int}
    (hload : loadAt vbuff p = .ok b) (reverse : Bool) (len : Nat) :
    valToHexStringLoop vbuff reverse (len + 1) p w.length (w ++ x :: y :: tail) =
      valToHexStringLoop vbuff reverse len (if reverse then p - 1 else p + 1) (w.length + 2)
        (w ++ hexDigit ((b &&& 0xf0) >>> 4) :: hexDigit (b &&& 0x0f) :: tail) := by
  have h := store_two w tail x y (hexDigit ((b &&& 0xf0) >>> 4)) (hexDigit (b &&& 0x0f))
  rw [store_append, ok_bind] at h
  rw [valToHexStringLoop, hload, ok_bind, store_append, ok_bind, h, ok_bind]

/-- Forwards, behind what is in `w`. -/
theorem valToHexStringLoop_forward (pre post w tail : List Byte) {x : List Byte}
    (hx : x.length = 2 * v.length) :
    valToHexStringLoop (pre ++ v ++ post) false v.length (pre.length : Int) w.length
        (w ++ x ++ tail) =
      .ok (w.length + 2 * v.length, w ++ encodeHex v ++ tail) := by
  induction v generalizing pre w x with
  | nil =>
    rw [List.length_eq_zero_iff.mp hx]
    rfl
  | cons b v ih =>
    match x, hx with
    | c :: d :: x, hx =>
      simp only [List.length_cons] at hx
      have hload : loadAt (pre ++ (b :: v) ++ post) (pre.length : Int) = .ok b := by
        rw [List.append_assoc]
        exact loadAt_append pre (v ++ post) b
      have hrest := ih (pre ++ [b])
        (w ++ [hexDigit ((b &&& 0xf0) >>> 4), hexDigit (b &&& 0x0f)]) (x := x) (by omega)
      have hblock : w ++ (c :: d :: x) ++ tail = w ++ c :: d :: (x ++ tail) := by simp
      rw [hblock, List.length_cons, valToHexStringLoop_succ hload]
      simp only [Bool.false_eq_true, if_false]
      simp only [List.append_assoc, List.cons_append, List.nil_append, List.length_append,
        List.length_cons, List.length_nil, Nat.zero_add] at hrest
      rw [show ((pre.length + 1 : Nat) : Int) = (pre.length : Int) + 1 from rfl] at hrest
      rw [show w.length + (1 + 1) = w.length + 2 by omega] at hrest
      rw [List.append_assoc, List.cons_append, hrest, encodeHex]
      simp only [List.append_assoc, List.cons_append]
      rw [show w.length + 2 + 2 * v.length = w.length + 2 * (v.length + 1) by omega]

/-- Backwards, from the last byte before `post`. -/
theorem valToHexStringLoop_backward (post w tail : List Byte) {x : List Byte}
    (hx : x.length = 2 * v.length) :
    valToHexStringLoop (v ++ post) true v.length ((v.length : Int) - 1) w.length
        (w ++ x ++ tail) =
      .ok (w.length + 2 * v.length, w ++ encodeHex v.reverse ++ tail) := by
  induction v using List.reverseRecOn generalizing post w x with
  | nil =>
    rw [List.length_eq_zero_iff.mp hx]
    rfl
  | append_singleton v b ih =>
    rw [List.length_append, List.length_singleton] at hx
    match x, hx with
    | c :: d :: x, hx =>
      simp only [List.length_cons] at hx
      have hpos : (((v ++ [b]).length : Nat) : Int) - 1 = v.length := by simp
      have hload : loadAt (v ++ [b] ++ post) (v.length : Int) = .ok b := by
        rw [List.append_assoc]
        exact loadAt_append v post b
      have hrest := ih (b :: post)
        (w ++ [hexDigit ((b &&& 0xf0) >>> 4), hexDigit (b &&& 0x0f)]) (x := x) (by omega)
      have hblock : w ++ (c :: d :: x) ++ tail = w ++ c :: d :: (x ++ tail) := by simp
      rw [hpos, hblock, List.length_append, List.length_singleton,
        valToHexStringLoop_succ hload]
      simp only [if_true]
      simp only [List.append_assoc, List.cons_append, List.nil_append, List.length_append,
        List.length_cons, List.length_nil, Nat.zero_add] at hrest
      rw [show w.length + (1 + 1) = w.length + 2 by omega] at hrest
      rw [List.append_assoc, List.cons_append, List.nil_append, hrest, List.reverse_append,
        List.reverse_singleton, List.cons_append, List.nil_append, encodeHex]
      simp only [List.append_assoc, List.cons_append]
      rw [show w.length + 2 + 2 * v.length = w.length + 2 * (v.length + 1) by omega]

/-- The string of digits, in a buffer that has room for it and its terminator. -/
theorem valToHexString_eq {x : List Byte} (c : Byte) (tail : List Byte)
    (hx : x.length = 2 * v.length) (post : List Byte) (reverse : Bool) :
    valToHexString (x ++ c :: tail) (v ++ post) v.length reverse =
      .ok (encodeHex (if reverse then v.reverse else v) ++ nul :: tail) := by
  have hlen : ∀ l : List Byte, l.length = v.length → 2 * v.length = (encodeHex l).length := by
    intro l hl
    rw [length_encodeHex, hl]
  cases reverse with
  | true =>
    have h := valToHexStringLoop_backward (v := v) post [] (c :: tail) hx
    simp only [List.nil_append, List.length_nil, Nat.zero_add] at h
    rw [valToHexString, if_pos rfl, h, ok_bind]
    simp only [if_true]
    rw [hlen v.reverse List.length_reverse, store_append]
  | false =>
    have h := valToHexStringLoop_forward (v := v) [] post [] (c :: tail) hx
    simp only [List.nil_append, List.length_nil, Nat.zero_add] at h
    rw [valToHexString, if_neg Bool.false_ne_true]
    rw [show ((0 : Nat) : Int) = 0 from rfl] at h
    rw [h, ok_bind]
    simp only [Bool.false_eq_true, if_false]
    rw [hlen v rfl, store_append]

/-- In a block of just the right size. -/
theorem valToHexString_block {bytes : List Byte} (hsize : bytes.length = 2 * v.length + 1)
    (post : List Byte) (reverse : Bool) :
    valToHexString bytes (v ++ post) v.length reverse =
      .ok (encodeHex (if reverse then v.reverse else v) ++ [nul]) := by
  have hne : bytes ≠ [] := by
    rintro rfl
    simp at hsize
  have hx : bytes.dropLast.length = 2 * v.length := by
    rw [List.length_dropLast]
    omega
  rw [← List.dropLast_append_getLast hne]
  exact valToHexString_eq (bytes.getLast hne) [] hx post reverse

end Specs

end LuaRtos.Lora
