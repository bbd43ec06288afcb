/-
  LuaRtos.Lua.TryMessage

  What the catch function of `try` gets: the parts of an error message, as the comment of
  `luaB_try` defines them, and when the parse in the code finds them.
-/

import LuaRtos.Lua.Try
import Mathlib.Data.List.TakeWhile
import Mathlib.Order.Lattice.Nat

namespace LuaRtos.Lua

open LuaRtos.CLib

/-! ## The parts of a message -/

/-- The sign in front of digits. -/
def splitSign : List Byte → Bool × List Byte
  | 0x2d :: s => (true, s)
  | 0x2b :: s => (false, s)
  | s => (false, s)

/-- The number that a text starts with, blanks in front of it apart, and what follows it. -/
def leadingNumber (s : List Byte) : Option (Int × List Byte) :=
  let t := splitSign (s.dropWhile isSpace)
  if t.2.head?.any isDigit then
    some (if t.1 then -(digitsVal t.2 : Int) else digitsVal t.2, t.2.dropWhile isDigit)
  else none

/-- `error-code:error-message`, the code being optional: the code and the message. -/
def codedMessage (text : List Byte) : Option Int × List Byte :=
  match leadingNumber text with
  | some (n, c :: m) => if c = colon then (some n, m) else (none, text)
  | _ => (none, text)

/-- The argument for a code. -/
def CodeArg : Option Int → LuaValue → Prop
  | none, v => v = .nil
  | some n, v => ∃ b : BitVec 32, b.toInt = n ∧ v = .integer b

/-- `where:line-number error-code:error-message`, with the colon and the blank that Lua puts
    behind the line number: the arguments for the catch function. -/
def ErrorArgs (msg : List Byte) (args : List LuaValue) : Prop :=
  ∃ w l text code, colon ∉ w ∧ colon ∉ l ∧ msg = w ++ colon :: (l ++ colon :: 0x20 :: text) ∧
    CodeArg (codedMessage text).1 code ∧
    args = [.string w, .string l, code, .string (codedMessage text).2]

/-- A text that the code takes apart: there is more than blanks, and a number in front is
    followed by a colon, is not 0 and is an `int`. -/
def CodeReadable (text : List Byte) : Prop :=
  text.all isSpace = false ∧ ∀ n rest, leadingNumber text = some (n, rest) →
    rest.head? = some colon ∧ n ≠ 0 ∧ -2147483648 ≤ n ∧ n ≤ 2147483647

/-- A message that the code takes apart: it has its prefix, no zero and a readable rest. -/
def MessageReadable (msg : List Byte) : Prop :=
  nul ∉ msg ∧ ∃ w l text, colon ∉ w ∧ colon ∉ l ∧
    msg = w ++ colon :: (l ++ colon :: 0x20 :: text) ∧ CodeReadable text

/-! ## Searching and scanning -/

section Scan

variable {s text p post : List Byte} {c : Byte}

/-- The place of a character is the first one. -/
theorem split_unique {p q t u : List Byte} (hp : c ∉ p) (hq : c ∉ q)
    (h : p ++ c :: t = q ++ c :: u) : p = q ∧ t = u := by
  induction p generalizing q with
  | nil =>
    cases q with
    | nil => exact ⟨rfl, (List.cons.inj h).2⟩
    | cons d q => exact absurd (List.cons.inj h).1 (List.ne_of_not_mem_cons hq)
  | cons d p ih =>
    cases q with
    | nil => exact absurd (List.cons.inj h).1.symm (List.ne_of_not_mem_cons hp)
    | cons e q =>
      obtain ⟨hde, h⟩ := List.cons.inj h
      obtain ⟨hpq, htu⟩ := ih (List.not_mem_of_not_mem_cons hp)
        (List.not_mem_of_not_mem_cons hq) h
      exact ⟨by rw [hde, hpq], htu⟩

theorem splitSign_other (hminus : c ≠ 0x2d) (hplus : c ≠ 0x2b) (rest : List Byte) :
    splitSign (c :: rest) = (false, c :: rest) := by
  rw [splitSign]
  · exact fun t h => hminus (List.cons.inj h).1
  · exact fun t h => hplus (List.cons.inj h).1

/-- `sscanf` and `strtol` take the same sign. -/
theorem splitSign_digits (c : Byte) (rest : List Byte) :
    (if c = 0x2d ∨ c = 0x2b then rest else c :: rest) = (splitSign (c :: rest)).2 := by
  by_cases hminus : c = 0x2d
  · rw [if_pos (Or.inl hminus), hminus]
    rfl
  by_cases hplus : c = 0x2b
  · rw [if_pos (Or.inr hplus), hplus]
    rfl
  rw [if_neg (not_or.mpr ⟨hminus, hplus⟩), splitSign_other hminus hplus]

theorem strtol_splitSign (hd : text.dropWhile isSpace = c :: s) :
    strtol text = if (splitSign (c :: s)).1 then
        max (-(digitsVal (splitSign (c :: s)).2 : Int)) (-2147483648)
      else min (digitsVal (splitSign (c :: s)).2 : Int) 2147483647 := by
  rw [strtol, hd]
  split
  next heq =>
    obtain ⟨rfl, rfl⟩ := List.cons.inj heq
    rfl
  next heq =>
    obtain ⟨rfl, rfl⟩ := List.cons.inj heq
    rfl
  next hminus hplus =>
    rw [splitSign_other (fun h => hminus s (congrArg (· :: s) h))
      (fun h => hplus s (congrArg (· :: s) h))]
    rfl

/-- What `sscanf` finds in a text. -/
def scanned (text : List Byte) : ScanResult :=
  match leadingNumber text with
  | some (n, _) => .value (max (min n 2147483647) (-2147483648))
  | none => if text.all isSpace then .eof else .mismatch

theorem all_isSpace_iff : text.all isSpace = true ↔ text.dropWhile isSpace = [] := by
  rw [List.all_eq_true, List.dropWhile_eq_nil_iff]

theorem sscanfD_text (hnul : nul ∉ text) : sscanfD (text ++ [nul]) = .ok (scanned text) := by
  rw [sscanfD, readStr_append hnul, ok_bind, scanned, leadingNumber]
  cases hd : text.dropWhile isSpace with
  | nil =>
    rw [if_pos (all_isSpace_iff.mpr hd)]
    rfl
  | cons c rest =>
    have hall : ¬ text.all isSpace = true := by
      rw [all_isSpace_iff, hd]
      exact List.cons_ne_nil c rest
    rw [if_neg hall]
    dsimp only
    rw [splitSign_digits, strtol_splitSign hd]
    by_cases hdigit : (splitSign (c :: rest)).2.head?.any isDigit = true
    · rw [if_pos hdigit, if_pos hdigit]
      show Except.ok (ScanResult.value _) = Except.ok (ScanResult.value _)
      congr 2
      split
      next => omega
      next => omega
    · rw [if_neg hdigit, if_neg hdigit]
      rfl

theorem splitSign_append (s : List Byte) :
    ∃ sign, s = sign ++ (splitSign s).2 ∧ ∀ d ∈ sign, d ≠ colon ∧ d ≠ nul := by
  cases s with
  | nil => exact ⟨[], rfl, fun d hd => absurd hd List.not_mem_nil⟩
  | cons c s =>
    by_cases hsign : c = 0x2d ∨ c = 0x2b
    · refine ⟨[c], by rw [← splitSign_digits, if_pos hsign]; rfl, ?_⟩
      intro d hd
      rw [List.mem_singleton.mp hd]
      rcases hsign with rfl | rfl
      · decide
      · decide
    · refine ⟨[], by rw [← splitSign_digits, if_neg hsign]; rfl, ?_⟩
      exact fun d hd => absurd hd List.not_mem_nil

/-- The characters of a number are neither colons nor zeros. -/
theorem leadingNumber_split {n : Int} {rest : List Byte}
    (h : leadingNumber text = some (n, rest)) :
    ∃ pre, text = pre ++ rest ∧ colon ∉ pre ∧ nul ∉ pre := by
  have hspace : ∀ d ∈ text.takeWhile isSpace, d ≠ colon ∧ d ≠ nul := by
    have hplain : ∀ d : Byte, isSpace d = true → d ≠ colon ∧ d ≠ nul := by decide
    exact fun d hd => hplain d (List.mem_takeWhile_imp hd)
  obtain ⟨sign, hsplit, hsign⟩ := splitSign_append (text.dropWhile isSpace)
  have hdigits : ∀ d ∈ (splitSign (text.dropWhile isSpace)).2.takeWhile isDigit,
      d ≠ colon ∧ d ≠ nul := by
    have hplain : ∀ d : Byte, isDigit d = true → d ≠ colon ∧ d ≠ nul := by decide
    exact fun d hd => hplain d (List.mem_takeWhile_imp hd)
  have hrest : (splitSign (text.dropWhile isSpace)).2.dropWhile isDigit = rest := by
    unfold leadingNumber at h
    dsimp only at h
    split at h
    next => exact (Prod.mk.inj (Option.some.inj h)).2
    next => cases h
  refine ⟨text.takeWhile isSpace ++ (sign ++
    (splitSign (text.dropWhile isSpace)).2.takeWhile isDigit), ?_, ?_, ?_⟩
  · rw [List.append_assoc, List.append_assoc, ← hrest, List.takeWhile_append_dropWhile, ← hsplit,
      List.takeWhile_append_dropWhile]
  · intro hmem
    rcases List.mem_append.mp hmem with hmem | hmem
    · exact (hspace _ hmem).1 rfl
    rcases List.mem_append.mp hmem with hmem | hmem
    · exact (hsign _ hmem).1 rfl
    · exact (hdigits _ hmem).1 rfl
  · intro hmem
    rcases List.mem_append.mp hmem with hmem | hmem
    · exact (hspace _ hmem).2 rfl
    rcases List.mem_append.mp hmem with hmem | hmem
    · exact (hsign _ hmem).2 rfl
    · exact (hdigits _ hmem).2 rfl

end Scan

/-! ## The parse -/

section Parse

variable {msg w l text : List Byte} {parts : ErrorParts}

/-- The parts that are taken have no zeros. -/
theorem parseError_nul (h : parseError msg = .ok parts) :
    nul ∉ parts.where_ ∧ nul ∉ parts.line ∧ nul ∉ parts.message := by
  unfold parseError at h
  obtain ⟨whereEnd, hwhere, h⟩ := bind_eq_ok.mp h
  cases whereEnd with
  | none => cases h
  | some whereEnd =>
    obtain ⟨lineEnd, hline, h⟩ := bind_eq_ok.mp h
    cases lineEnd with
    | none => cases h
    | some lineEnd =>
      obtain ⟨p, -, hmsg, -, -, hp⟩ := strchr_some hwhere
      obtain ⟨q, -, htail, -, -, hq⟩ := strchr_some hline
      have hwhere' : msg.take (msg.length - whereEnd.length) = p := by
        rw [hmsg, List.length_append, Nat.add_sub_cancel, List.take_left]
      have hline' : whereEnd.tail.take (whereEnd.tail.length - lineEnd.length) = q := by
        rw [htail, List.length_append, Nat.add_sub_cancel, List.take_left]
      dsimp only at h
      rw [hwhere', hline'] at h
      obtain ⟨scan, -, h⟩ := bind_eq_ok.mp h
      cases scan with
      | eof => cases h
      | mismatch =>
        obtain ⟨message, hread, h⟩ := bind_eq_ok.mp h
        obtain rfl := Except.ok.inj h
        exact ⟨hp, hq, (readStr_eq_ok.mp hread).1⟩
      | value errorCode =>
        obtain ⟨messageStart, -, h⟩ := bind_eq_ok.mp h
        cases messageStart with
        | none => cases h
        | some messageStart =>
          obtain ⟨message, hread, h⟩ := bind_eq_ok.mp h
          obtain rfl := Except.ok.inj h
          exact ⟨hp, hq, (readStr_eq_ok.mp hread).1⟩

/-- The parse behind the prefix. -/
def parseText (w l text : List Byte) : Result ErrorParts :=
  match scanned text with
  | .mismatch => pure ⟨w, l, 0, text⟩
  | .eof => throw .undefined
  | .value errorCode => do
    match ← strchr colon (text ++ [nul]) with
    | none => throw .nullDeref
    | some messageStart => do
      let message ← readStr messageStart.tail
      pure ⟨w, l, errorCode, message⟩

theorem parseError_prefixed (hw : colon ∉ w) (hl : colon ∉ l) (hwn : nul ∉ w) (hln : nul ∉ l)
    (hnul : nul ∉ text) :
    parseError (w ++ colon :: (l ++ colon :: 0x20 :: (text ++ [nul]))) = parseText w l text := by
  have hwhere : (w ++ colon :: (l ++ colon :: 0x20 :: (text ++ [nul]))).take
      ((w ++ colon :: (l ++ colon :: 0x20 :: (text ++ [nul]))).length -
        (colon :: (l ++ colon :: 0x20 :: (text ++ [nul]))).length) = w := by
    rw [List.length_append, Nat.add_sub_cancel, List.take_left]
  have hline : (l ++ colon :: 0x20 :: (text ++ [nul])).take
      ((l ++ colon :: 0x20 :: (text ++ [nul])).length -
        (colon :: 0x20 :: (text ++ [nul])).length) = l := by
    rw [List.length_append, Nat.add_sub_cancel, List.take_left]
  unfold parseError parseText
  rw [strchr_append hw hwn, ok_bind]
  dsimp only [List.tail_cons]
  rw [strchr_append hl hln, ok_bind]
  dsimp only
  rw [hwhere, hline]
  show sscanfD (text ++ [nul]) >>= _ = _
  rw [sscanfD_text hnul, ok_bind]
  cases scanned text with
  | mismatch =>
    show readStr (text ++ [nul]) >>= _ = _
    rw [readStr_append hnul, ok_bind]
  | eof => rfl
  | value errorCode => rfl

/-- With a number and its colon, the code and the message are found. -/
theorem parseText_coded {n : Int} {m : List Byte} (hnul : nul ∉ text)
    (h : leadingNumber text = some (n, colon :: m)) :
    parseText w l text = .ok ⟨w, l, max (min n 2147483647) (-2147483648), m⟩ := by
  obtain ⟨pre, htext, hcolon, hpre⟩ := leadingNumber_split h
  have hm : nul ∉ m := by
    intro hmem
    apply hnul
    rw [htext]
    exact List.mem_append_right _ (List.mem_cons_of_mem _ hmem)
  have hfind : strchr colon (text ++ [nul]) = .ok (some (colon :: (m ++ [nul]))) := by
    rw [htext, List.append_assoc]
    exact strchr_append hcolon hpre (m ++ [nul])
  unfold parseText scanned
  rw [h]
  dsimp only
  rw [hfind, ok_bind]
  dsimp only [List.tail_cons]
  rw [readStr_append hm, ok_bind]
  rfl

/-- With a number and no colon behind it, the message is cut, if there is one. -/
theorem parseText_uncoded {n : Int} {rest : List Byte} (h : leadingNumber text = some (n, rest))
    (hparts : parseText w l text = .ok parts) : parts.message.length < text.length := by
  unfold parseText scanned at hparts
  rw [h] at hparts
  dsimp only at hparts
  obtain ⟨messageStart, hfind, hparts⟩ := bind_eq_ok.mp hparts
  cases messageStart with
  | none => cases hparts
  | some messageStart =>
    obtain ⟨message, hread, hparts⟩ := bind_eq_ok.mp hparts
    obtain rfl := Except.ok.inj hparts
    obtain ⟨p, t, hsplit, hstart, -, -⟩ := strchr_some hfind
    obtain ⟨-, post, hpost⟩ := readStr_eq_ok.mp hread
    have hlen := congrArg List.length hsplit
    have hlen' := congrArg List.length hpost
    rw [hstart] at hlen hlen'
    simp only [List.length_append, List.length_cons, List.length_nil, List.tail_cons] at hlen hlen'
    show message.length < text.length
    omega

end Parse

/-! ## The call of the catch function -/

/-- The catch function is called with the parts of the message. -/
def CatchRight {W : Type} (lua : LuaMachine W) (refs : TryRefs) (s : TryState W) : Prop :=
  ∃ msg parts, s.topText lua = some msg ∧ parseError (msg ++ [nul]) = .ok parts ∧
    ErrorArgs msg parts.args ∧
    runCatch lua refs s =
      (parts.args.foldl TryState.push (s.removeSecond.rawGetI refs.catchFunc)).pcall lua
        .catchFunc 4

section Catch

variable {W : Type} {w l text m : List Byte} {n : Int}

theorem codedMessage_number (h : leadingNumber text = some (n, colon :: m)) :
    codedMessage text = (some n, m) := by
  rw [codedMessage, h]
  exact if_pos rfl

theorem codedMessage_none (h : ∀ n m, leadingNumber text ≠ some (n, colon :: m)) :
    codedMessage text = (none, text) := by
  rw [codedMessage]
  split
  next n c m heq =>
    rw [if_neg]
    rintro rfl
    exact h n m heq
  next => rfl

theorem leadingNumber_blank (h : text.all isSpace = true) : leadingNumber text = none := by
  rw [leadingNumber, all_isSpace_iff.mp h]
  rfl

theorem nul_notMem_text (h : nul ∉ (codedMessage text).2) : nul ∉ text := by
  by_cases hcoded : ∃ n m, leadingNumber text = some (n, colon :: m)
  · obtain ⟨n, m, hnum⟩ := hcoded
    obtain ⟨pre, htext, -, hpre⟩ := leadingNumber_split hnum
    rw [codedMessage_number hnum] at h
    rw [htext, List.mem_append, List.mem_cons]
    rintro (hmem | hmem | hmem)
    · exact hpre hmem
    · exact absurd hmem (by decide)
    · exact h hmem
  · rwa [codedMessage_none fun n m hnum => hcoded ⟨n, m, hnum⟩] at h

/-- What a parse that gives the parts says about the text behind the prefix. -/
theorem codeReadable_of_parts {parts : ErrorParts} {code : LuaValue}
    (hparse : parseText w l text = .ok parts) (hcode : CodeArg (codedMessage text).1 code)
    (hargs : parts.args = [.string w, .string l, code, .string (codedMessage text).2])
    (hnul : nul ∉ text) : CodeReadable text := by
  constructor
  · rw [Bool.eq_false_iff]
    intro hblank
    unfold parseText scanned at hparse
    rw [leadingNumber_blank hblank] at hparse
    dsimp only at hparse
    rw [if_pos hblank] at hparse
    cases hparse
  · intro n rest hnum
    have hmessage : parts.message = (codedMessage text).2 := by
      unfold ErrorParts.args at hargs
      simp only [List.cons.injEq, LuaValue.string.injEq] at hargs
      exact hargs.2.2.2.1
    by_cases hcolon : ∃ m, rest = colon :: m
    · obtain ⟨m, rfl⟩ := hcolon
      have hparts := (parseText_coded (w := w) (l := l) hnul hnum).symm.trans hparse
      obtain rfl := Except.ok.inj hparts
      rw [codedMessage_number hnum] at hargs hcode
      obtain ⟨b, hb, rfl⟩ := hcode
      unfold ErrorParts.args at hargs
      simp only [List.cons.injEq] at hargs
      have hthird := hargs.2.2.1
      have hlow := BitVec.le_toInt b
      have hhigh := BitVec.toInt_lt (x := b)
      refine ⟨rfl, ?_, by omega, by omega⟩
      rintro rfl
      cases hthird
    · have hnone : codedMessage text = (none, text) := by
        apply codedMessage_none
        intro n' m hnum'
        rw [hnum] at hnum'
        exact hcolon ⟨m, (Prod.mk.inj (Option.some.inj hnum')).2⟩
      have hshort := parseText_uncoded hnum hparse
      rw [hmessage, hnone] at hshort
      exact absurd hshort (Nat.lt_irrefl _)

/-- A readable text is taken apart. -/
theorem parseText_readable (hnul : nul ∉ text) (h : CodeReadable text) (w l : List Byte) :
    ∃ parts code, parseText w l text = .ok parts ∧ CodeArg (codedMessage text).1 code ∧
      parts.args = [.string w, .string l, code, .string (codedMessage text).2] := by
  obtain ⟨hblank, hnumber⟩ := h
  cases hnum : leadingNumber text with
  | none =>
    have hnone : codedMessage text = (none, text) := by
      apply codedMessage_none
      intro n m hsome
      rw [hnum] at hsome
      cases hsome
    refine ⟨⟨w, l, 0, text⟩, .nil, ?_, ?_, ?_⟩
    · unfold parseText scanned
      rw [hnum, hblank]
      rfl
    · rw [hnone]
      exact rfl
    · rw [hnone]
      rfl
  | some r =>
    obtain ⟨n, rest⟩ := r
    obtain ⟨hhead, hzero, hlow, hhigh⟩ := hnumber n rest hnum
    obtain ⟨m, rfl⟩ := List.head?_eq_some_iff.mp hhead
    have hclamp : max (min n 2147483647) (-2147483648) = n := by omega
    have hint : (BitVec.ofInt 32 n).toInt = n := by
      rw [BitVec.toInt_ofInt]
      exact Int.bmod_eq_of_le (by omega) (by omega)
    refine ⟨_, .integer (BitVec.ofInt 32 n), parseText_coded hnul hnum, ?_, ?_⟩
    · rw [codedMessage_number hnum]
      exact ⟨_, hint, rfl⟩
    · rw [codedMessage_number hnum, hclamp]
      unfold ErrorParts.args
      rw [if_neg hzero]

theorem runCatch_parsed {lua : LuaMachine W} {s : TryState W} {msg : List Byte} {parts : ErrorParts}
    (htext : s.topText lua = some msg) (hparse : parseError (msg ++ [nul]) = .ok parts)
    (refs : TryRefs) : runCatch lua refs s =
      (parts.args.foldl TryState.push (s.removeSecond.rawGetI refs.catchFunc)).pcall lua
        .catchFunc 4 := by
  unfold runCatch
  rw [htext]
  dsimp only
  rw [hparse, ok_bind]

theorem prefixed_append (w l text : List Byte) :
    w ++ colon :: (l ++ colon :: 0x20 :: text) ++ [nul] =
      w ++ colon :: (l ++ colon :: 0x20 :: (text ++ [nul])) := by
  simp only [List.append_assoc, List.cons_append]

/-- The catch function gets the parts just where the error is a readable message. -/
theorem catchRight_iff (lua : LuaMachine W) (refs : TryRefs) (s : TryState W) :
    CatchRight lua refs s ↔ ∃ msg, s.topText lua = some msg ∧ MessageReadable msg := by
  constructor
  · rintro ⟨msg, parts, htext, hparse, ⟨w, l, text, code, hw, hl, rfl, hcode, hargs⟩, -⟩
    obtain ⟨hwn, hln, hmn⟩ := parseError_nul hparse
    have hargs' := hargs
    unfold ErrorParts.args at hargs'
    simp only [List.cons.injEq, LuaValue.string.injEq] at hargs'
    rw [hargs'.1] at hwn
    rw [hargs'.2.1] at hln
    rw [hargs'.2.2.2.1] at hmn
    have hnul := nul_notMem_text hmn
    rw [prefixed_append, parseError_prefixed hw hl hwn hln hnul] at hparse
    refine ⟨_, htext, ?_, w, l, text, hw, hl, rfl,
      codeReadable_of_parts hparse hcode hargs hnul⟩
    simp only [List.mem_append, List.mem_cons, not_or]
    exact ⟨hwn, by decide, hln, by decide, by decide, hnul⟩
  · rintro ⟨msg, htext, hnul, w, l, text, hw, hl, rfl, hread⟩
    simp only [List.mem_append, List.mem_cons, not_or] at hnul
    obtain ⟨hwn, -, hln, -, -, htn⟩ := hnul
    obtain ⟨parts, code, hparse, hcode, hargs⟩ := parseText_readable htn hread w l
    rw [← parseError_prefixed hw hl hwn hln htn, ← prefixed_append] at hparse
    exact ⟨_, parts, htext, hparse, ⟨w, l, text, code, hw, hl, rfl, hcode, hargs⟩,
      runCatch_parsed htext hparse refs⟩

end Catch

/-- A number above every one that is taken. -/
theorem sup_keys_fresh (registry : LuaRegistry) : registry.keys.sup id + 1 ∉ registry := by
  intro h
  exact Nat.not_succ_le_self _ (Finset.le_sup (f := id) (Finmap.mem_keys.mpr h))

/-- Lua with functions that do nothing. -/
def idleMachine : LuaMachine Unit where
  newRef registry := registry.keys.sup id + 1
  numberText _ := []
  call _ _ g := (none, g)
  newRef_fresh := sup_keys_fresh
  call_held _ _ _ := rfl
  call_keeps _ _ _ _ _ := rfl

/-- `error("5 apples")`: a number and no colon, and NULL is followed.  `error("", 1)` and
    `error("x:1:", 0)` are no better. -/
theorem not_catchRight_apples :
    parseError (lit "x:1: 5 apples") = .error .nullDeref ∧
    parseError (lit "x:1: ") = .error .undefined ∧
    parseError (lit "x:1:") = .error .outOfBounds ∧
    ¬ CatchRight idleMachine ⟨.noRef, .ref 1, .noRef⟩
      ⟨[.string (chars "x:1: 5 apples"), .nil], 0, ⟨∅, ∅, ()⟩, []⟩ := by
  have hparse : parseError (lit "x:1: 5 apples") = .error .nullDeref := by decide
  refine ⟨hparse, by decide, by decide, ?_⟩
  rintro ⟨msg, parts, htext, hok, -⟩
  obtain rfl : chars "x:1: 5 apples" = msg := Option.some.inj htext
  have hfault := hparse.symm.trans hok
  cases hfault

end LuaRtos.Lua
