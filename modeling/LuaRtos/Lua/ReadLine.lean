/-
  LuaRtos.Lua.ReadLine

  `read_line` of liolib_adds.inc: a line of a file, read through a variable of type `char` that
  holds the characters and the end of the file alike.

  A `char` is unsigned here.  `fuel` bounds the rounds of the loops.
-/

import LuaRtos.CLib.While

namespace LuaRtos.Lua
namespace ReadLine

open CLib

/-- `(char)EOF`. -/
def EOF : Byte := 0xff

/-- `LUAL_BUFFERSIZE`, with pointers and integers of 4 bytes. -/
def LUAL_BUFFERSIZE : Nat := 0x80 * 4 * 4

/-- The character that ends a line: the console sends a carriage return. -/
def newline (stdin : Bool) : Byte := if stdin then 0x0d else 0x0a

/-- `c = l_getc(f)`. -/
def l_getc : List Byte → Byte × List Byte
  | [] => (EOF, [])
  | b :: f => (b, f)

/-- The buffer, the last character, what is left of the file, and what the console shows. -/
structure LineState where
  b : List Byte
  c : Byte
  f : List Byte
  stdout : List Byte
deriving DecidableEq, Repr

/-- The inner loop, with room for `n` more characters. -/
def fillBuffer (stdin : Bool) : Nat → LineState → LineState
  | 0, s => s
  | n + 1, s =>
    let (c, f) := l_getc s.f
    if c ≠ EOF ∧ c ≠ newline stdin then
      fillBuffer stdin n ⟨s.b ++ [c], c, f, if stdin then s.stdout ++ [c] else s.stdout⟩
    else { s with c := c, f := f }

/-- The loop goes on until the end of the line. -/
def unended (stdin : Bool) (s : LineState) : Bool := s.c ≠ EOF && s.c ≠ newline stdin

/-- A round of the outer loop, with a buffer of its own. -/
def fillRound (stdin : Bool) (s : LineState) : Result LineState :=
  .ok (fillBuffer stdin LUAL_BUFFERSIZE s)

/-- What a call returns, the line that it pushes, and what is left of the file. -/
structure LineRead where
  ok : Bool
  line : List Byte
  f : List Byte
  stdout : List Byte
deriving DecidableEq, Repr

/-- `read_line`. -/
def read_line (fuel : Nat) (stdin chop : Bool) (f : List Byte) : Result LineRead := do
  let s ← whileLoop (unended stdin) (fillRound stdin) fuel ⟨[], 0, f, []⟩
  -- want a newline and have one?
  let line := if !chop ∧ s.c = newline stdin then s.b ++ [s.c] else s.b
  -- return ok if read something (either a newline or something else)
  .ok ⟨s.c = newline stdin ∨ line.length > 0, line, s.f, s.stdout⟩

/-- The lines of up to `n` calls, which the first that reports the end of the file ends. -/
def readLines (fuel : Nat) (stdin chop : Bool) : Nat → List Byte → Result (List (List Byte))
  | 0, _ => .error .diverged
  | n + 1, f => do
    let r ← read_line fuel stdin chop f
    if r.ok then do
      let lines ← readLines fuel stdin chop n r.f
      .ok (r.line :: lines)
    else .ok []

/-! ## One line -/

section Line

variable (stdin : Bool)

/-- The characters up to the first that ends a line, that one, and the rest of the file. -/
def scanLine : List Byte → List Byte × Byte × List Byte
  | [] => ([], EOF, [])
  | b :: f =>
    if b ≠ EOF ∧ b ≠ newline stdin then (b :: (scanLine f).1, (scanLine f).2)
    else ([], b, f)

/-- What the console shows of characters that are read. -/
def echo (cs : List Byte) : List Byte := if stdin then cs else []

/-- A state with the rest of its line read. -/
def LineState.finish (s : LineState) : LineState :=
  ⟨s.b ++ (scanLine stdin s.f).1, (scanLine stdin s.f).2.1, (scanLine stdin s.f).2.2,
    s.stdout ++ echo stdin (scanLine stdin s.f).1⟩

theorem unended_iff {s : LineState} :
    unended stdin s = true ↔ s.c ≠ EOF ∧ s.c ≠ newline stdin := by
  rw [unended, Bool.and_eq_true, decide_eq_true_eq, decide_eq_true_eq]

theorem echo_cons (stdout : List Byte) (c : Byte) (cs : List Byte) :
    (if stdin then stdout ++ [c] else stdout) ++ echo stdin cs =
      stdout ++ echo stdin (c :: cs) := by
  cases stdin with
  | false => rfl
  | true => exact List.append_assoc stdout [c] cs

/-- A character of the line leaves the line that is being read. -/
theorem finish_cons {b stdout f : List Byte} {c d : Byte} (hd : d ≠ EOF ∧ d ≠ newline stdin) :
    LineState.finish stdin
        ⟨b ++ [d], d, f, if stdin then stdout ++ [d] else stdout⟩ =
      LineState.finish stdin ⟨b, c, d :: f, stdout⟩ := by
  simp only [LineState.finish, scanLine, if_pos hd, echo_cons, List.append_assoc]
  rfl

/-- The inner loop comes to the end of the line, or fills the buffer with a part of it. -/
theorem fillBuffer_finish (n : Nat) {s : LineState} (hs : unended stdin s = true) :
    (unended stdin (fillBuffer stdin n s) = false ∧ fillBuffer stdin n s = s.finish stdin) ∨
    unended stdin (fillBuffer stdin n s) = true ∧
      (fillBuffer stdin n s).finish stdin = s.finish stdin ∧
      (fillBuffer stdin n s).f.length + n = s.f.length := by
  induction n generalizing s with
  | zero => exact .inr ⟨hs, rfl, rfl⟩
  | succ n ih =>
    obtain ⟨b, c, f, stdout⟩ := s
    have hnone : stdout ++ echo stdin [] = stdout := by
      cases stdin <;> exact List.append_nil stdout
    cases f with
    | nil =>
      have hfill : fillBuffer stdin (n + 1) ⟨b, c, [], stdout⟩ = ⟨b, EOF, [], stdout⟩ := rfl
      have hfinish : LineState.finish stdin ⟨b, c, [], stdout⟩ = ⟨b, EOF, [], stdout⟩ := by
        simp only [LineState.finish, scanLine, List.append_nil, hnone]
      left
      rw [hfill, hfinish]
      exact ⟨rfl, rfl⟩
    | cons d f =>
      by_cases hd : d ≠ EOF ∧ d ≠ newline stdin
      · have hfill : fillBuffer stdin (n + 1) ⟨b, c, d :: f, stdout⟩ = fillBuffer stdin n
            ⟨b ++ [d], d, f, if stdin then stdout ++ [d] else stdout⟩ := if_pos hd
        have hnext : unended stdin
            ⟨b ++ [d], d, f, if stdin then stdout ++ [d] else stdout⟩ = true :=
          (unended_iff stdin).mpr hd
        rw [hfill, ← finish_cons stdin hd]
        rcases ih hnext with hend | ⟨hgo, hsame, hlen⟩
        · exact .inl hend
        · refine .inr ⟨hgo, hsame, ?_⟩
          exact congrArg Nat.succ hlen
      · have hfill : fillBuffer stdin (n + 1) ⟨b, c, d :: f, stdout⟩ = ⟨b, d, f, stdout⟩ :=
          if_neg hd
        have hfinish : LineState.finish stdin ⟨b, c, d :: f, stdout⟩ = ⟨b, d, f, stdout⟩ := by
          simp only [LineState.finish, scanLine, if_neg hd, List.append_nil, hnone]
        left
        rw [hfill, hfinish]
        exact ⟨Bool.eq_false_iff.mpr fun h => hd ((unended_iff stdin).mp h), rfl⟩

/-- The outer loop reads the line, whatever its length. -/
theorem readLoop_finish {fuel : Nat} {s : LineState} (hs : unended stdin s = true)
    (hfuel : s.f.length + 2 ≤ fuel) :
    whileLoop (unended stdin) (fillRound stdin) fuel s = .ok (s.finish stdin) := by
  induction fuel generalizing s with
  | zero => omega
  | succ fuel ih =>
    have hround : fillRound stdin s = .ok (fillBuffer stdin LUAL_BUFFERSIZE s) := rfl
    rw [whileLoop_round hs hround]
    rcases fillBuffer_finish stdin LUAL_BUFFERSIZE hs with ⟨hend, hfinish⟩ | ⟨hgo, hfinish, hlen⟩
    · obtain ⟨k, rfl⟩ : ∃ k, fuel = k + 1 := ⟨fuel - 1, by omega⟩
      rw [whileLoop_done hend, hfinish]
    · have hbuffer : LUAL_BUFFERSIZE = 2048 := rfl
      rw [ih hgo (by omega), hfinish]

/-- The line that is scanned, with the newline that ends it. -/
def lineOf (chop : Bool) (f : List Byte) : List Byte :=
  if !chop ∧ (scanLine stdin f).2.1 = newline stdin then
    (scanLine stdin f).1 ++ [(scanLine stdin f).2.1]
  else (scanLine stdin f).1

theorem read_line_eq {fuel : Nat} (chop : Bool) {f : List Byte} (hfuel : f.length + 2 ≤ fuel) :
    ∃ stdout, read_line fuel stdin chop f =
      .ok ⟨(scanLine stdin f).2.1 = newline stdin ∨ (lineOf stdin chop f).length > 0,
        lineOf stdin chop f, (scanLine stdin f).2.2, stdout⟩ := by
  have hstart : unended stdin ⟨[], 0, f, []⟩ = true := by
    cases stdin <;> rfl
  refine ⟨echo stdin (scanLine stdin f).1, ?_⟩
  rw [read_line, readLoop_finish stdin hstart hfuel, ok_bind]
  rfl

end Line

/-! ## The whole file -/

section File

variable (stdin : Bool)

theorem newline_ne_EOF : newline stdin ≠ EOF := by
  cases stdin <;> decide

/-- A file without a character that looks like its end is scanned up to a newline or its end. -/
theorem scanLine_cases (f : List Byte) (hf : EOF ∉ f) :
    (∃ pre rest, newline stdin ∉ pre ∧ f = pre ++ newline stdin :: rest ∧
      scanLine stdin f = (pre, newline stdin, rest)) ∨
    newline stdin ∉ f ∧ scanLine stdin f = (f, EOF, []) := by
  induction f with
  | nil => exact .inr ⟨List.not_mem_nil, rfl⟩
  | cons b f ih =>
    obtain ⟨hb, hf⟩ := List.ne_and_not_mem_of_not_mem_cons hf
    by_cases hnl : b = newline stdin
    · refine .inl ⟨[], f, List.not_mem_nil, by rw [hnl]; rfl, ?_⟩
      rw [scanLine, if_neg fun h => h.2 hnl, hnl]
    · have hgo : b ≠ EOF ∧ b ≠ newline stdin := ⟨Ne.symm hb, hnl⟩
      rw [scanLine, if_pos hgo]
      rcases ih hf with ⟨pre, rest, hpre, rfl, hscan⟩ | ⟨hall, hscan⟩
      · refine .inl ⟨b :: pre, rest, List.not_mem_cons_of_ne_of_not_mem (Ne.symm hnl) hpre, rfl, ?_⟩
        rw [hscan]
      · refine .inr ⟨List.not_mem_cons_of_ne_of_not_mem (Ne.symm hnl) hall, ?_⟩
        rw [hscan]

/-- A line without its newline. -/
def chopped (line : List Byte) : List Byte :=
  if line.getLast? = some (newline stdin) then line.dropLast else line

/-- The content split only after newlines: the lines are the content, none has a newline before
    its end, and all but the last have one there. -/
structure Splits (content : List Byte) (lines : List (List Byte)) : Prop where
  flatten : lines.flatten = content
  inner : ∀ line ∈ lines, line ≠ [] ∧ newline stdin ∉ line.dropLast
  ends : ∀ line ∈ lines.dropLast, line.getLast? = some (newline stdin)

/-- Calls until the end of the file split the content, and with `chop` the same lines come back
    without their newlines. -/
def ReadsLines (content : List Byte) : Prop :=
  ∃ bound, ∀ n ≥ bound, ∃ lines, readLines n stdin false n content = .ok lines ∧
    Splits stdin content lines ∧
    readLines n stdin true n content = .ok (lines.map (chopped stdin))

theorem Splits.nil : Splits stdin [] [] := by
  refine ⟨rfl, ?_, ?_⟩
  · exact fun line h => absurd h List.not_mem_nil
  · exact fun line h => absurd h List.not_mem_nil

theorem Splits.last {f : List Byte} (hne : f ≠ []) (hf : newline stdin ∉ f) :
    Splits stdin f [f] := by
  refine ⟨List.flatten_singleton, ?_, ?_⟩
  · intro line h
    obtain rfl := List.mem_singleton.mp h
    exact ⟨hne, fun hmem => hf (List.dropLast_subset _ hmem)⟩
  · exact fun line h => absurd h List.not_mem_nil

theorem Splits.cons {pre rest : List Byte} {lines : List (List Byte)}
    (hpre : newline stdin ∉ pre) (h : Splits stdin rest lines) :
    Splits stdin (pre ++ newline stdin :: rest) ((pre ++ [newline stdin]) :: lines) := by
  refine ⟨?_, ?_, ?_⟩
  · rw [List.flatten_cons, h.flatten, List.append_assoc]
    rfl
  · intro line hline
    rcases List.mem_cons.mp hline with rfl | hline
    · rw [List.dropLast_concat]
      exact ⟨List.concat_ne_nil _ _, hpre⟩
    · exact h.inner line hline
  · intro line hline
    cases lines with
    | nil => exact absurd hline List.not_mem_nil
    | cons next lines =>
      rw [List.dropLast_cons_cons] at hline
      rcases List.mem_cons.mp hline with rfl | hline
      · exact List.getLast?_concat
      · exact h.ends line hline

/-- The calls on what is left of the file. -/
theorem readLines_succ {fuel : Nat} (chop : Bool) (n : Nat) {f : List Byte}
    (hfuel : f.length + 2 ≤ fuel) :
    readLines fuel stdin chop (n + 1) f =
      if (scanLine stdin f).2.1 = newline stdin ∨ (lineOf stdin chop f).length > 0 then
        readLines fuel stdin chop n (scanLine stdin f).2.2 >>= fun lines =>
          .ok (lineOf stdin chop f :: lines)
      else .ok [] := by
  obtain ⟨stdout, hread⟩ := read_line_eq stdin chop hfuel
  rw [readLines, hread, ok_bind]
  simp only [decide_eq_true_eq]

theorem chopped_line {pre : List Byte} :
    chopped stdin (pre ++ [newline stdin]) = pre := by
  rw [chopped, if_pos List.getLast?_concat, List.dropLast_concat]

theorem chopped_last {f : List Byte} (hf : newline stdin ∉ f) : chopped stdin f = f :=
  if_neg fun h => hf (List.mem_of_getLast? h)

/-- The lines of a file without a character that looks like its end. -/
theorem readLines_splits {fuel n : Nat} {f : List Byte} (hf : EOF ∉ f)
    (hfuel : f.length + 2 ≤ fuel) (hn : f.length + 1 ≤ n) :
    ∃ lines, readLines fuel stdin false n f = .ok lines ∧ Splits stdin f lines ∧
      readLines fuel stdin true n f = .ok (lines.map (chopped stdin)) := by
  induction n generalizing f with
  | zero => omega
  | succ n ih =>
    rw [readLines_succ stdin false n hfuel, readLines_succ stdin true n hfuel]
    unfold lineOf
    rcases scanLine_cases stdin f hf with ⟨pre, rest, hpre, rfl, hscan⟩ | ⟨hall, hscan⟩
    · -- a line, and the calls on the rest
      have hlen : (pre ++ newline stdin :: rest).length = pre.length + rest.length + 1 :=
        List.length_append
      have hrest : EOF ∉ rest := fun h =>
        hf (List.mem_append_right pre (List.mem_cons_of_mem _ h))
      obtain ⟨lines, hread, hsplits, hchop⟩ := ih hrest (by omega) (by omega)
      refine ⟨(pre ++ [newline stdin]) :: lines, ?_, hsplits.cons stdin hpre, ?_⟩
      · rw [hscan, if_pos (.inl rfl), hread, ok_bind, if_pos ⟨rfl, rfl⟩]
      · rw [hscan, if_pos (.inl rfl), hchop, ok_bind, if_neg (fun h => absurd h.1 (by decide)),
          List.map_cons, chopped_line]
    · -- the end of the file
      have hplain : ∀ chop : Bool, ¬ ((!chop) = true ∧ EOF = newline stdin) :=
        fun chop h => newline_ne_EOF stdin h.2.symm
      rw [hscan, if_neg (hplain false), if_neg (hplain true)]
      by_cases hne : f = []
      · subst hne
        have hnone : ¬ (EOF = newline stdin ∨ ([] : List Byte).length > 0) := by
          rintro (h | h)
          · exact newline_ne_EOF stdin h.symm
          · exact absurd h (by decide)
        rw [if_neg hnone, if_neg hnone]
        exact ⟨[], rfl, .nil stdin, rfl⟩
      · have hpos : EOF = newline stdin ∨ f.length > 0 := .inr (List.length_pos_iff.mpr hne)
        rw [if_pos hpos, if_pos hpos]
        obtain ⟨lines, hread, hsplits, hchop⟩ := ih List.not_mem_nil (by
          show 0 + 2 ≤ fuel
          omega) (by
          have hpos := List.length_pos_iff.mpr hne
          show 0 + 1 ≤ n
          omega)
        have hnone : lines = [] := by
          cases lines with
          | nil => rfl
          | cons line lines =>
            obtain ⟨hline, -⟩ := hsplits.inner line List.mem_cons_self
            exact absurd (List.append_eq_nil_iff.mp hsplits.flatten).1 hline
        subst hnone
        refine ⟨[f], ?_, .last stdin hne hall, ?_⟩
        · rw [hread]
          rfl
        · rw [hchop, List.map_singleton, chopped_last stdin hall]
          rfl

/-- The scan never keeps the character that looks like the end. -/
theorem EOF_notMem_scanLine (f : List Byte) :
    EOF ∉ (scanLine stdin f).1 ∧ (scanLine stdin f).2.2.length ≤ f.length := by
  induction f with
  | nil => exact ⟨List.not_mem_nil, Nat.le_refl 0⟩
  | cons b f ih =>
    obtain ⟨hpre, hlen⟩ := ih
    by_cases hb : b ≠ EOF ∧ b ≠ newline stdin
    · rw [scanLine, if_pos hb]
      exact ⟨List.not_mem_cons_of_ne_of_not_mem (Ne.symm hb.1) hpre, Nat.le_succ_of_le hlen⟩
    · rw [scanLine, if_neg hb]
      exact ⟨List.not_mem_nil, Nat.le_succ _⟩

theorem EOF_notMem_readLines {fuel n : Nat} {f : List Byte} {lines : List (List Byte)}
    (hfuel : f.length + 2 ≤ fuel) (h : readLines fuel stdin false n f = .ok lines) :
    EOF ∉ lines.flatten := by
  induction n generalizing f lines with
  | zero => cases h
  | succ n ih =>
    obtain ⟨hpre, hlen⟩ := EOF_notMem_scanLine stdin f
    rw [readLines_succ stdin false n hfuel] at h
    by_cases hok : (scanLine stdin f).2.1 = newline stdin ∨ (lineOf stdin false f).length > 0
    · rw [if_pos hok] at h
      obtain ⟨rest, hrest, heq⟩ := bind_eq_ok.mp h
      cases heq
      have hline : EOF ∉ lineOf stdin false f := by
        unfold lineOf
        by_cases hnl : (!false) = true ∧ (scanLine stdin f).2.1 = newline stdin
        · rw [if_pos hnl, hnl.2, List.mem_append, List.mem_singleton]
          exact not_or.mpr ⟨hpre, (newline_ne_EOF stdin).symm⟩
        · rw [if_neg hnl]
          exact hpre
      rw [List.flatten_cons, List.mem_append]
      exact not_or.mpr ⟨hline, ih (by omega) hrest⟩
    · rw [if_neg hok] at h
      cases h
      exact List.not_mem_nil

/-- A file is read line by line exactly when none of its characters looks like its end. -/
theorem readsLines_iff (content : List Byte) : ReadsLines stdin content ↔ EOF ∉ content := by
  constructor
  · rintro ⟨bound, h⟩
    obtain ⟨lines, hread, hsplits, -⟩ := h (max bound (content.length + 2)) (Nat.le_max_left _ _)
    rw [← hsplits.flatten]
    exact EOF_notMem_readLines stdin (Nat.le_max_right _ _) hread
  · intro hcontent
    refine ⟨content.length + 2, fun n hn => ?_⟩
    exact readLines_splits stdin hcontent hn (by omega)

/-- Three characters, of which the second looks like the end of the file. -/
theorem not_readsLines_ff : ¬ ReadsLines false [0x61, 0xff, 0x62] := by
  rintro ⟨bound, h⟩
  obtain ⟨lines, hread, hsplits, -⟩ := h (max bound 5) (Nat.le_max_left _ _)
  have hnone := EOF_notMem_readLines false (Nat.le_max_right bound 5) hread
  rw [hsplits.flatten] at hnone
  exact hnone (by decide)

end File

end ReadLine
end LuaRtos.Lua
