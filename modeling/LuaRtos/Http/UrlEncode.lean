/-
  LuaRtos.Http.UrlEncode

  URL_encode of http/httpclient.c, and the percent-decoding of what it writes.

  `encoded` is the text that the loop writes.  Characters are unsigned; the count of the special
  ones is a `uint16_t`, and the size of the block a `size_t` of 32 bits.
-/

import Mathlib.Algebra.Group.Nat.Defs
import LuaRtos.CLib.Hex
import LuaRtos.CLib.Mem
import LuaRtos.CLib.Number

namespace LuaRtos.Http

open LuaRtos.CLib

/-! ## The code -/

def reservedChars : List Byte := chars "!*'();:@&=+$,/=#[]-_.~?"

/-- `isalpha`. -/
def isAlpha (c : Byte) : Bool := 0x41 ≤ c && c ≤ 0x5a || 0x61 ≤ c && c ≤ 0x7a

/-- A character that is escaped. -/
def special (c : Byte) : Bool :=
  !isAlpha c && !isDigit c && !reservedChars.any (fun r => r == c)

/-- A digit of `%X`. -/
def upperDigit (n : Nat) : Byte :=
  if n < 10 then BitVec.ofNat 8 (0x30 + n) else BitVec.ofNat 8 (0x37 + n)

/-- `%%%X`, which has one digit below 16. -/
def escape (c : Byte) : List Byte :=
  if c.toNat < 16 then [0x25, upperDigit c.toNat]
  else [0x25, upperDigit (c.toNat / 16), upperDigit (c.toNat % 16)]

/-- The loop that writes. -/
def encodeLoop : List Byte → List Byte → Nat → Result (List Byte × Nat)
  | [], enc_addr, new => pure (enc_addr, new)
  | c :: old, enc_addr, new =>
    if special c then do
      let enc_addr ← storeBytes enc_addr new (escape c ++ [nul])
      encodeLoop old enc_addr (new + (escape c).length)
    else do
      let enc_addr ← store enc_addr new c
      encodeLoop old enc_addr (new + 1)

/-- `special_chars_count` -/
def specialCount (addr : List Byte) : BitVec 16 := BitVec.ofNat 16 (addr.countP special)

/-- The size of the block. -/
def encodeSize (addr : List Byte) : Nat :=
  (addr.length + 2 * (specialCount addr).toNat + 1) % 4294967296

/-- `URL_encode`: the block it returns. -/
def urlEncode (malloc : (n : Nat) → Option (Block n)) (addr : List Byte) : Result (List Byte) :=
  match malloc (encodeSize addr) with
  | none => throw .nullDeref
  | some block => do
    let (enc_addr, new) ← encodeLoop addr block.bytes 0
    store enc_addr new nul

/-! ## Percent-decoding -/

/-- Two hexadecimal digits after each `%`. -/
def percentDecode : List Byte → Option (List Byte)
  | [] => some []
  | c :: s =>
    if c = 0x25 then
      match s with
      | h :: l :: rest => do
        let h ← hexVal h
        let l ← hexVal l
        let t ← percentDecode rest
        some (BitVec.ofNat 8 (16 * h + l) :: t)
      | _ => none
    else (percentDecode s).map (c :: ·)

/-! ## What is written -/

/-- The text for a character. -/
def encodeChar (c : Byte) : List Byte := if special c then escape c else [c]

def encoded (addr : List Byte) : List Byte := addr.flatMap encodeChar

section Write

variable {addr block block' enc : List Byte} {c : Byte} {new new' : Nat}

theorem encodeChar_special (h : special c = true) : encodeChar c = escape c := if_pos h

theorem encodeChar_plain (h : special c = false) : encodeChar c = [c] := by
  rw [encodeChar, h]
  rfl

theorem encoded_cons (c : Byte) (addr : List Byte) :
    encoded (c :: addr) = encodeChar c ++ encoded addr := List.flatMap_cons

/-- The loop writes the text from where it is, as far as there is room for the zero behind it. -/
theorem encodeLoop_ok (pre w : List Byte) (hroom : (encoded addr).length < w.length) :
    ∃ w', w'.length + (encoded addr).length = w.length ∧ encodeLoop addr (pre ++ w) pre.length =
      .ok (pre ++ encoded addr ++ w', pre.length + (encoded addr).length) := by
  induction addr generalizing pre w with
  | nil => exact ⟨w, rfl, by rw [encoded, List.flatMap_nil, List.append_nil]; rfl⟩
  | cons c addr ih =>
    rw [encoded_cons, List.length_append] at hroom ⊢
    by_cases hc : special c = true
    · rw [encodeChar_special hc] at hroom ⊢
      -- the zero of the escape is overwritten by what comes next
      have hsplit : w = w.take ((escape c).length + 1) ++ w.drop ((escape c).length + 1) :=
        (List.take_append_drop _ w).symm
      have hstore : storeBytes (pre ++ w) pre.length (escape c ++ [nul]) =
          .ok (pre ++ (escape c ++ [nul] ++ w.drop ((escape c).length + 1))) := by
        apply storeBytes_eq pre (w.take ((escape c).length + 1))
        · rw [← hsplit]
        · rfl
        · rw [List.length_append, List.length_take, List.length_singleton]
          omega
      obtain ⟨w', hlen, hrun⟩ := ih (pre ++ escape c) (nul :: w.drop ((escape c).length + 1)) (by
        rw [List.length_cons, List.length_drop]
        omega)
      refine ⟨w', ?_, ?_⟩
      · rw [List.length_cons, List.length_drop] at hlen
        omega
      · rw [encodeLoop, if_pos hc, hstore, ok_bind]
        rw [List.length_append] at hrun
        rw [List.append_assoc (escape c), ← List.append_assoc pre]
        refine hrun.trans ?_
        rw [List.append_assoc pre (escape c), Nat.add_assoc]
    · have hplain : special c = false := Bool.eq_false_iff.mpr hc
      rw [encodeChar_plain hplain] at hroom ⊢
      cases w with
      | nil => exact absurd hroom (Nat.not_lt_zero _)
      | cons d w =>
        obtain ⟨w', hlen, hrun⟩ := ih (pre ++ [c]) w (by
          rw [List.length_singleton, List.length_cons] at hroom
          omega)
        refine ⟨w', ?_, ?_⟩
        · rw [List.length_singleton, List.length_cons]
          omega
        · rw [encodeLoop, hplain, if_neg Bool.false_ne_true, store_append, ok_bind]
          rw [List.length_append, List.append_assoc] at hrun
          refine hrun.trans ?_
          rw [List.append_assoc pre [c], Nat.add_assoc]

/-- How far the loop gets, if it comes through. -/
theorem encodeLoop_new (h : encodeLoop addr block new = .ok (block', new')) :
    new' = new + (encoded addr).length ∧ block'.length = block.length := by
  induction addr generalizing block new with
  | nil =>
    obtain ⟨rfl, rfl⟩ := Prod.mk.inj (Except.ok.inj h)
    exact ⟨rfl, rfl⟩
  | cons c addr ih =>
    rw [encoded_cons, List.length_append]
    rw [encodeLoop] at h
    by_cases hc : special c = true
    · rw [if_pos hc] at h
      obtain ⟨b, hstore, hrest⟩ := bind_eq_ok.mp h
      obtain ⟨hnew, hlen⟩ := ih hrest
      rw [encodeChar_special hc, ← Nat.add_assoc]
      exact ⟨hnew, hlen.trans (length_storeBytes hstore)⟩
    · rw [if_neg hc] at h
      obtain ⟨b, hstore, hrest⟩ := bind_eq_ok.mp h
      obtain ⟨hnew, hlen⟩ := ih hrest
      rw [encodeChar_plain (Bool.eq_false_iff.mpr hc), ← Nat.add_assoc]
      exact ⟨hnew, hlen.trans (length_store hstore)⟩

/-- `URL_encode` stays in its block just where the text fits with its zero. -/
theorem urlEncode_ok_iff (malloc : (n : Nat) → Option (Block n)) (addr : List Byte) :
    (∃ block, urlEncode malloc addr = .ok block) ↔
      (malloc (encodeSize addr)).isSome = true ∧ (encoded addr).length < encodeSize addr := by
  unfold urlEncode
  cases malloc (encodeSize addr) with
  | none => exact iff_of_false (fun ⟨block, h⟩ => by cases h) (fun h => by cases h.1)
  | some b =>
    have hsize := b.size
    constructor
    · rintro ⟨block, h⟩
      refine ⟨rfl, ?_⟩
      rw [← hsize]
      obtain ⟨⟨b', new'⟩, hloop, hstore⟩ := bind_eq_ok.mp h
      obtain ⟨hnew, hlen⟩ := encodeLoop_new hloop
      rw [← hlen, ← Nat.zero_add (encoded addr).length, ← hnew]
      by_contra hfull
      have hfault : store b' new' nul = .error .outOfBounds := if_neg hfull
      have hnone : Except.error Fault.outOfBounds = .ok block := hfault.symm.trans hstore
      cases hnone
    · rintro ⟨-, hroom⟩
      rw [← hsize] at hroom
      obtain ⟨w', hlen, hloop⟩ := encodeLoop_ok [] b.bytes hroom
      have hloop' : encodeLoop addr b.bytes 0 =
          .ok (encoded addr ++ w', (encoded addr).length) := by
        rw [List.nil_append, List.nil_append, List.length_nil, Nat.zero_add] at hloop
        exact hloop
      have hin : (encoded addr).length < (encoded addr ++ w').length := by
        rw [List.length_append]
        omega
      refine ⟨(encoded addr ++ w').set (encoded addr).length nul, ?_⟩
      dsimp only
      rw [hloop', ok_bind]
      exact if_pos hin

/-- The string in the block. -/
theorem urlEncode_readStr {malloc : (n : Nat) → Option (Block n)}
    (h : urlEncode malloc addr = .ok block) (hnul : nul ∉ encoded addr) :
    readStr block = .ok (encoded addr) := by
  obtain ⟨hsome, hroom⟩ := (urlEncode_ok_iff malloc addr).mp ⟨block, h⟩
  unfold urlEncode at h
  obtain ⟨b, hb⟩ := Option.isSome_iff_exists.mp hsome
  rw [hb] at h
  have hsize := b.size
  rw [← hsize] at hroom
  obtain ⟨w', hlen, hloop⟩ := encodeLoop_ok [] b.bytes hroom
  dsimp only at h
  rw [List.nil_append, List.nil_append, List.length_nil, Nat.zero_add] at hloop
  rw [hloop, ok_bind] at h
  cases w' with
  | nil =>
    rw [List.length_nil] at hlen
    omega
  | cons d w' =>
    have hstore : Except.ok (encoded addr ++ nul :: w') = Except.ok block :=
      (store_append (encoded addr) w' d nul).symm.trans h
    rw [← Except.ok.inj hstore]
    exact readStr_append hnul w'

end Write

/-! ## Reading it back -/

section Decode

variable {addr : List Byte} {c : Byte}

theorem hexVal_upperDigit : ∀ n < 16, hexVal (upperDigit n) = some n := by decide

theorem hexVal_lt : ∀ c : Byte, ∀ v ∈ hexVal c, v < 16 := by decide

theorem upperDigit_ne_nul : ∀ n < 16, upperDigit n ≠ nul := by decide

theorem special_percent : special 0x25 = true := by decide

theorem percentDecode_plain (hc : c ≠ 0x25) (s : List Byte) :
    percentDecode (c :: s) = (percentDecode s).map (c :: ·) := by
  cases s with
  | nil =>
    show (if c = 0x25 then none else _) = _
    exact if_neg hc
  | cons d s =>
    cases s with
    | nil =>
      show (if c = 0x25 then none else _) = _
      exact if_neg hc
    | cons e s => rw [percentDecode, if_neg hc]

/-- A character that is escaped with two digits is read back. -/
theorem percentDecode_char (hc : 16 ≤ c.toNat) (s : List Byte) :
    percentDecode (encodeChar c ++ s) = (percentDecode s).map (c :: ·) := by
  by_cases hspecial : special c = true
  · have hhi : c.toNat / 16 < 16 := by
      have hlt := c.isLt
      omega
    have hlo : c.toNat % 16 < 16 := Nat.mod_lt _ (by decide)
    rw [encodeChar_special hspecial, escape, if_neg (Nat.not_lt.mpr hc)]
    show percentDecode (0x25 :: upperDigit (c.toNat / 16) :: upperDigit (c.toNat % 16) :: s) = _
    rw [percentDecode, if_pos rfl, hexVal_upperDigit _ hhi, hexVal_upperDigit _ hlo]
    have hbyte : BitVec.ofNat 8 (16 * (c.toNat / 16) + c.toNat % 16) = c := by
      rw [Nat.div_add_mod]
      rw [BitVec.ofNat_toNat, BitVec.setWidth_eq]
    show (percentDecode s).bind (fun t => some (BitVec.ofNat 8 _ :: t)) = _
    rw [hbyte]
    cases percentDecode s with
    | none => rfl
    | some t => rfl
  · have hplain : special c = false := Bool.eq_false_iff.mpr hspecial
    have hne : c ≠ 0x25 := by
      rintro rfl
      exact hspecial special_percent
    rw [encodeChar_plain hplain]
    exact percentDecode_plain hne s

theorem percentDecode_encoded {pre : List Byte} (hpre : ∀ c ∈ pre, 16 ≤ c.toNat) (s : List Byte) :
    percentDecode (encoded pre ++ s) = (percentDecode s).map (pre ++ ·) := by
  induction pre with
  | nil =>
    show percentDecode s = _
    cases percentDecode s with
    | none => rfl
    | some t => rfl
  | cons c pre ih =>
    obtain ⟨hc, hpre⟩ := List.forall_mem_cons.mp hpre
    rw [encoded_cons, List.append_assoc, percentDecode_char hc, ih hpre]
    cases percentDecode s with
    | none => rfl
    | some t => rfl

/-- An escape with one digit is no escape, or one of another character. -/
theorem percentDecode_short (hc : c.toNat < 16) (hnul : c ≠ nul) (s t : List Byte) :
    percentDecode (escape c ++ s) ≠ some (c :: t) := by
  have hpos : 0 < c.toNat := by
    rw [Nat.pos_iff_ne_zero]
    intro hzero
    exact hnul (BitVec.eq_of_toNat_eq hzero)
  rw [escape, if_pos hc]
  show percentDecode (0x25 :: upperDigit c.toNat :: s) ≠ _
  intro h
  cases s with
  | nil =>
    rw [percentDecode, if_pos rfl] at h
    · cases h
    · exact fun h l rest hs => List.cons_ne_nil _ _ (List.cons.inj hs).2.symm
  | cons l s =>
    rw [percentDecode, if_pos rfl, hexVal_upperDigit _ hc] at h
    obtain ⟨n, hn, h⟩ := Option.bind_eq_some_iff.mp h
    obtain ⟨v, hv, h⟩ := Option.bind_eq_some_iff.mp h
    obtain ⟨t', -, h⟩ := Option.bind_eq_some_iff.mp h
    obtain rfl := Option.some.inj hn
    have hbyte := congrArg BitVec.toNat (List.cons.inj (Option.some.inj h)).1
    have hv' : v < 16 := hexVal_lt _ v hv
    have hsmall : 16 * c.toNat + v < 256 := by omega
    rw [BitVec.toNat_ofNat, Nat.mod_eq_of_lt hsmall] at hbyte
    omega

theorem special_of_short (hc : c.toNat < 16) : special c = true := by
  have hall : ∀ n < 16, special (BitVec.ofNat 8 n) = true := by decide
  have h := hall _ hc
  rwa [BitVec.ofNat_toNat, BitVec.setWidth_eq] at h

/-- What is read back as itself has no character below 16. -/
theorem digits_of_percentDecode (hnul : nul ∉ addr)
    (h : percentDecode (encoded addr) = some addr) : ∀ c ∈ addr, 16 ≤ c.toNat := by
  induction addr with
  | nil => exact fun c hc => absurd hc List.not_mem_nil
  | cons c addr ih =>
    rw [encoded_cons] at h
    by_cases hc : 16 ≤ c.toNat
    · rw [percentDecode_char hc] at h
      obtain ⟨t, ht, hcons⟩ := Option.map_eq_some_iff.mp h
      rw [(List.cons.inj hcons).2] at ht
      exact List.forall_mem_cons.mpr ⟨hc, ih (List.not_mem_of_not_mem_cons hnul) ht⟩
    · have hshort := Nat.lt_of_not_le hc
      rw [encodeChar_special (special_of_short hshort)] at h
      exact absurd h (percentDecode_short hshort (List.ne_of_not_mem_cons hnul).symm _ _)

theorem nul_notMem_encoded (hnul : nul ∉ addr) : nul ∉ encoded addr := by
  intro hmem
  obtain ⟨c, hc, hin⟩ := List.mem_flatMap.mp hmem
  by_cases hspecial : special c = true
  · rw [encodeChar_special hspecial, escape] at hin
    have hlt := c.isLt
    split at hin
    next hshort =>
      rcases List.mem_cons.mp hin with hin | hin
      · exact absurd hin (by decide)
      · exact upperDigit_ne_nul _ hshort (List.mem_singleton.mp hin).symm
    next hlong =>
      rcases List.mem_cons.mp hin with hin | hin
      · exact absurd hin (by decide)
      rcases List.mem_cons.mp hin with hin | hin
      · exact upperDigit_ne_nul _ (by omega) hin.symm
      · exact upperDigit_ne_nul _ (by omega) (List.mem_singleton.mp hin).symm
  · rw [encodeChar_plain (Bool.eq_false_iff.mpr hspecial)] at hin
    rw [List.mem_singleton.mp hin] at hnul
    exact hnul hc

/-- With two digits for each escape, the text has two characters more for each. -/
theorem length_encoded (h : ∀ c ∈ addr, 16 ≤ c.toNat) :
    (encoded addr).length = addr.length + 2 * addr.countP special := by
  induction addr with
  | nil => rfl
  | cons c addr ih =>
    obtain ⟨hc, haddr⟩ := List.forall_mem_cons.mp h
    rw [encoded_cons, List.length_append, ih haddr, List.length_cons]
    by_cases hspecial : special c = true
    · rw [encodeChar_special hspecial, List.countP_cons_of_pos hspecial, escape,
        if_neg (Nat.not_lt.mpr hc)]
      show 3 + _ = _
      omega
    · rw [encodeChar_plain (Bool.eq_false_iff.mpr hspecial), List.countP_cons_of_neg hspecial]
      show 1 + _ = _
      omega

end Decode

/-- `URL_encode` stays in its block, and its text is read back as the string. -/
def EncodesRight (malloc : (n : Nat) → Option (Block n)) (addr : List Byte) : Prop :=
  ∃ block enc, urlEncode malloc addr = .ok block ∧ readStr block = .ok enc ∧
    percentDecode enc = some addr

/-- There is memory, and the string has no character below 16 and few enough that are
    escaped. -/
structure Encodable (malloc : (n : Nat) → Option (Block n)) (addr : List Byte) : Prop where
  memory : (malloc (encodeSize addr)).isSome = true
  digits : ∀ c ∈ addr, 16 ≤ c.toNat
  count : addr.countP special < 65536
  size : addr.length + 2 * addr.countP special + 1 < 4294967296

/-- The text is read back just where the string is encodable. -/
theorem encodesRight_iff (malloc : (n : Nat) → Option (Block n)) (addr : List Byte)
    (hnul : nul ∉ addr) : EncodesRight malloc addr ↔ Encodable malloc addr := by
  have hread : ∀ {block}, urlEncode malloc addr = .ok block → readStr block = .ok (encoded addr) :=
    fun h => urlEncode_readStr h (nul_notMem_encoded hnul)
  have hcount : (specialCount addr).toNat = addr.countP special % 65536 := BitVec.toNat_ofNat ..
  constructor
  · rintro ⟨block, enc, hrun, henc, hdecode⟩
    rw [hread hrun] at henc
    obtain rfl := Except.ok.inj henc
    obtain ⟨hmem, hroom⟩ := (urlEncode_ok_iff malloc addr).mp ⟨block, hrun⟩
    have hdigits := digits_of_percentDecode hnul hdecode
    have hlen := length_encoded hdigits
    rw [hlen, encodeSize, hcount] at hroom
    exact ⟨hmem, hdigits, by omega, by omega⟩
  · rintro ⟨hmem, hdigits, hfew, hsize⟩
    have hroom : (encoded addr).length < encodeSize addr := by
      rw [length_encoded hdigits, encodeSize, hcount]
      omega
    obtain ⟨block, hrun⟩ := (urlEncode_ok_iff malloc addr).mpr ⟨hmem, hroom⟩
    refine ⟨block, encoded addr, hrun, hread hrun, ?_⟩
    have hdecode := percentDecode_encoded hdigits []
    rw [List.append_nil] at hdecode
    rw [hdecode]
    show some (addr ++ []) = _
    rw [List.append_nil]

/-- A blank is escaped with two digits. -/
theorem encodesRight_iff_blank :
    EncodesRight (fun n => some (freshBlock n)) (chars "a b") ↔
      Encodable (fun n => some (freshBlock n)) (chars "a b") :=
  encodesRight_iff _ _ (by decide)

/-- A newline in front of a 5 is written as `%A5`, which is another character. -/
theorem not_encodesRight_newline : nul ∉ chars "\n5" ∧
    urlEncode (fun n => some (freshBlock n)) (chars "\n5") = .ok (lit "%A5" ++ [0xa5]) ∧
    percentDecode (chars "%A5") = some [0xa5] ∧
    ¬ EncodesRight (fun n => some (freshBlock n)) (chars "\n5") := by
  have hrun : urlEncode (fun n => some (freshBlock n)) (chars "\n5") =
      .ok (lit "%A5" ++ [0xa5]) := by decide
  have hdecode : percentDecode (chars "%A5") = some [0xa5] := by decide
  refine ⟨by decide, hrun, hdecode, ?_⟩
  rintro ⟨block, enc, hblock, henc, hback⟩
  rw [hrun] at hblock
  have hread : readStr (lit "%A5" ++ [0xa5]) = .ok (chars "%A5") := by decide
  rw [← Except.ok.inj hblock, hread] at henc
  rw [← Except.ok.inj henc, hdecode] at hback
  exact absurd hback (by decide)

end LuaRtos.Http
