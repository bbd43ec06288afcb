/-
  LuaRtos.Tft.FontCompile

  What compile_font_file writes for a list of two-digit literals.

  `Lists` is the text of a list of literals, however it is laid out.  The lines are read one after
  the other; a line is a text of its own, and so is what follows it.
-/

import LuaRtos.CLib.Cycle
import LuaRtos.Tft.FontFile

namespace LuaRtos.Tft

open CLib

/-! ## The text -/

/-- A literal of two digits, with its `x` or `X`. -/
structure HexLit where
  mark : Byte
  hi : Byte
  lo : Byte
  mark_eq : mark = 0x78 ∨ mark = 0x58
  hi_digit : (hexVal hi).isSome = true
  lo_digit : (hexVal lo).isSome = true

def HexLit.chars (l : HexLit) : List Byte := [0x30, l.mark, l.hi, l.lo]

/-- The byte that the literal stands for. -/
def HexLit.value (l : HexLit) : Byte :=
  BitVec.ofNat 8 (16 * (hexVal l.hi).getD 0 + (hexVal l.lo).getD 0)

/-- What may stand around the literals: blanks, commas, newlines, a comment without these. -/
def Layout (c : Byte) : Prop := c ≠ nul ∧ c ≠ 0x30 ∧ c ≠ 0x78 ∧ c ≠ 0x58 ∧ c ≠ 0x7D

/-- The text lists the literals. -/
inductive Lists : List HexLit → List Byte → Prop
  | nil : Lists [] []
  | layout {ls : List HexLit} {text : List Byte} {c : Byte} (hc : Layout c)
      (h : Lists ls text) : Lists ls (c :: text)
  | lit {ls : List HexLit} {text : List Byte} (l : HexLit) (h : Lists ls text) :
      Lists (l :: ls) (l.chars ++ text)

/-- The text lists the literals, and something stands behind the last one. -/
def Closed (ls : List HexLit) (text : List Byte) : Prop :=
  ∃ a c, Lists ls a ∧ Layout c ∧ text = a ++ [c]

/-- No literal with `0x` comes after one with `0X`. -/
def Sorted (ls : List HexLit) : Prop :=
  ls.Pairwise fun l l' => l.mark = 0x58 → l'.mark = 0x58

section Text

variable {ls ls' pre post : List HexLit} {l : HexLit} {a b g s text : List Byte} {c m : Byte}

theorem Lists.append (h : Lists ls a) (h' : Lists ls' b) : Lists (ls ++ ls') (a ++ b) := by
  induction h with
  | nil => exact h'
  | layout hc _ ih => exact .layout hc ih
  | @lit ls text l _ ih =>
    rw [List.append_assoc]
    exact .lit l ih

theorem Lists.one (hc : Layout c) : Lists [] [c] := .layout hc .nil

theorem HexLit.digit_ne {d : Byte} (hd : (hexVal d).isSome = true) :
    d ≠ nul ∧ d ≠ 0x78 ∧ d ≠ 0x58 ∧ d ≠ 0x0A ∧ d ≠ 0x7D := by
  refine ⟨?_, ?_, ?_, ?_, ?_⟩ <;>
  · rintro rfl
    exact absurd hd (by decide)

/-- No text starts with an `x`. -/
theorem Lists.head_ne (h : Lists ls text) : ∀ s, text ≠ 0x78 :: s ∧ text ≠ 0x58 :: s := by
  intro s
  cases h with
  | nil => exact ⟨fun h => List.cons_ne_nil _ _ h.symm, fun h => List.cons_ne_nil _ _ h.symm⟩
  | layout hc _ =>
    refine ⟨fun h => hc.2.2.1 (List.cons.inj h).1, fun h => hc.2.2.2.1 (List.cons.inj h).1⟩
  | lit l _ =>
    refine ⟨fun h => absurd (List.cons.inj h).1 (by decide),
      fun h => absurd (List.cons.inj h).1 (by decide)⟩

/-- The first literal of a text. -/
theorem Lists.first (h : Lists (l :: ls) text) :
    ∃ g a, text = g ++ (l.chars ++ a) ∧ Lists [] g ∧ Lists ls a := by
  generalize hls : l :: ls = all at h
  induction h with
  | nil => cases hls
  | @layout _ text c hc _ ih =>
    obtain ⟨g, a, rfl, hg, ha⟩ := ih hls
    exact ⟨c :: g, a, rfl, .layout hc hg, ha⟩
  | lit l h =>
    obtain ⟨rfl, rfl⟩ := List.cons.inj hls
    exact ⟨[], _, rfl, .nil, h⟩

/-! ### The search for a literal -/

/-- The two characters that a literal starts with. -/
def start (m : Byte) : List Byte := [0x30, m]

theorem strstr_skip {t : List Byte} (h : t.isPrefixOf (c :: s) = false) :
    strstr t (c :: s) = strstr t s := by
  rw [strstr, if_neg (by rw [h]; decide)]

theorem strstr_start_skip (h : c ≠ 0x30 ∨ ∀ r, s ≠ m :: r) :
    strstr (start m) (c :: s) = strstr (start m) s := by
  apply strstr_skip
  rw [Bool.eq_false_iff]
  intro hpre
  obtain ⟨r, hr⟩ := List.isPrefixOf_iff_prefix.mp hpre
  obtain ⟨hc, hs⟩ := List.cons.inj hr
  rcases h with h | h
  · exact h hc.symm
  · exact h r hs.symm

theorem strstr_lit (l : HexLit) (s : List Byte) :
    strstr (start l.mark) (l.chars ++ s) = some (l.chars ++ s) := by
  have hpre : (start l.mark).isPrefixOf (l.chars ++ s) = true :=
    List.isPrefixOf_iff_prefix.mpr ⟨[l.hi, l.lo] ++ s, rfl⟩
  show (if _ then _ else _) = _
  exact if_pos hpre

/-- What is no literal is passed over. -/
theorem strstr_gap (h : Lists [] g) (s : List Byte) :
    strstr (start m) (g ++ s) = strstr (start m) s := by
  generalize hls : ([] : List HexLit) = ls at h
  induction h with
  | nil => rfl
  | layout hc _ ih => exact (strstr_start_skip (.inl hc.2.1)).trans (ih hls)
  | lit l _ => cases hls

/-- And so are the literals with the other spelling. -/
theorem strstr_other (hm : m = 0x78 ∨ m = 0x58) (h : Lists ls text)
    (hls : ∀ l ∈ ls, l.mark ≠ m) : strstr (start m) text = none := by
  induction h with
  | nil => rfl
  | layout hc _ ih =>
    rw [strstr_start_skip (.inl hc.2.1)]
    exact ih hls
  | @lit ls text l h ih =>
    have hlm : l.mark ≠ m := hls l (List.mem_cons_self ..)
    have hmark : l.mark ≠ 0x30 := by
      rcases l.mark_eq with hmark | hmark <;>
      · rw [hmark]
        decide
    have hdigit : ∀ d : Byte, (hexVal d).isSome = true → d ≠ m := by
      intro d hd
      have hne := HexLit.digit_ne hd
      rcases hm with rfl | rfl
      · exact hne.2.1
      · exact hne.2.2.1
    have hhead : ∀ r, text ≠ m :: r := by
      intro r
      rcases hm with rfl | rfl
      · exact (h.head_ne r).1
      · exact (h.head_ne r).2
    show strstr (start m) (0x30 :: l.mark :: l.hi :: l.lo :: text) = none
    rw [strstr_start_skip (.inr fun r hr => hlm (List.cons.inj hr).1),
      strstr_start_skip (.inl hmark),
      strstr_start_skip (.inr fun r hr => hdigit _ l.lo_digit (List.cons.inj hr).1),
      strstr_start_skip (.inr hhead)]
    exact ih fun l' hl' => hls l' (List.mem_cons_of_mem _ hl')

/-- What is found is a part of the text up to its end. -/
theorem strstr_length {t p : List Byte} (h : strstr t s = some p) : p.length ≤ s.length := by
  induction s with
  | nil => cases h
  | cons c s ih =>
    rw [strstr] at h
    split at h
    · exact Nat.le_of_eq (congrArg List.length (Option.some.inj h).symm)
    · exact Nat.le_succ_of_le (ih h)

theorem hexByte_lit (l : HexLit) (s : List Byte) : hexByte (l.chars ++ s) = l.value := by
  obtain ⟨hi, hhi⟩ := Option.isSome_iff_exists.mp l.hi_digit
  obtain ⟨lo, hlo⟩ := Option.isSome_iff_exists.mp l.lo_digit
  have hscan : scanX 2 0 [l.hi, l.lo] = (16 * hi + lo, []) := by
    rw [scanX, hhi]
    show scanX 1 _ _ = _
    rw [scanX, hlo]
    show scanX 0 _ _ = _
    rw [scanX, Nat.mul_zero, Nat.zero_add]
  show BitVec.ofNat 8 (scanX 2 0 [l.hi, l.lo]).1 = _
  rw [hscan, HexLit.value, hhi, hlo]
  rfl

/-! ### Lines -/

/-- What does not have the first character of the text that is searched for is passed over. -/
theorem strstr_without {t : List Byte} (h : c ∉ a) (s : List Byte) :
    strstr (c :: t) (a ++ s) = strstr (c :: t) s := by
  induction a with
  | nil => rfl
  | cons d a ih =>
    refine (strstr_skip ?_).trans (ih (List.not_mem_of_not_mem_cons h))
    rw [Bool.eq_false_iff]
    intro hpre
    obtain ⟨r, hr⟩ := List.isPrefixOf_iff_prefix.mp hpre
    exact List.ne_of_not_mem_cons h (List.cons.inj hr).1

theorem strstr_first {t : List Byte} (h : c ∉ a) (b : List Byte) :
    strstr (c :: t) (a ++ (c :: t ++ b)) = some (c :: t ++ b) := by
  rw [strstr_without h]
  show (if _ then _ else _) = _
  exact if_pos ( List.isPrefixOf_iff_prefix.mpr ⟨b, rfl⟩)

theorem strstr_none {t : List Byte} (h : c ∉ a) : strstr (c :: t) a = none := by
  have hskip := strstr_without (t := t) h []
  rwa [List.append_nil] at hskip

theorem HexLit.no_newline (l : HexLit) : (0x0A : Byte) ∉ l.chars := by
  intro h
  rcases List.mem_cons.mp h with h | h
  · exact absurd h (by decide)
  rcases List.mem_cons.mp h with h | h
  · rcases l.mark_eq with hmark | hmark
    · exact absurd (h.trans hmark) (by decide)
    · exact absurd (h.trans hmark) (by decide)
  rcases List.mem_cons.mp h with h | h
  · exact (HexLit.digit_ne l.hi_digit).2.2.2.1 h.symm
  · exact (HexLit.digit_ne l.lo_digit).2.2.2.1 (List.mem_singleton.mp h).symm

/-- A text is a single line, or a line and what follows it. -/
theorem Lists.line (h : Lists ls text) : (0x0A : Byte) ∉ text ∨
    ∃ pre post a b, ls = pre ++ post ∧ text = a ++ 0x0A :: b ∧ (0x0A : Byte) ∉ a ∧
      Lists pre a ∧ Lists post b := by
  induction h with
  | nil => exact .inl List.not_mem_nil
  | @layout ls text c hc h ih =>
    by_cases hnl : c = 0x0A
    · subst hnl
      exact .inr ⟨[], ls, [], text, rfl, rfl, List.not_mem_nil, .nil, h⟩
    · rcases ih with hno | ⟨pre, post, a, b, rfl, rfl, ha, hpre, hpost⟩
      · exact .inl (List.not_mem_cons_of_ne_of_not_mem (Ne.symm hnl) hno)
      · exact .inr ⟨pre, post, c :: a, b, rfl, rfl,
          List.not_mem_cons_of_ne_of_not_mem (Ne.symm hnl) ha, .layout hc hpre, hpost⟩
  | @lit ls text l h ih =>
    rcases ih with hno | ⟨pre, post, a, b, rfl, rfl, ha, hpre, hpost⟩
    · refine .inl fun hmem => ?_
      rcases List.mem_append.mp hmem with hmem | hmem
      · exact l.no_newline hmem
      · exact hno hmem
    · refine .inr ⟨l :: pre, post, l.chars ++ a, b, rfl, (List.append_assoc ..).symm, ?_,
        .lit l hpre, hpost⟩
      intro hmem
      rcases List.mem_append.mp hmem with hmem | hmem
      · exact l.no_newline hmem
      · exact ha hmem

end Text

/-! ## The scan -/

/-- What was written and what is in the buffer. -/
def FontScan.bytes (s : FontScan) : List Byte := s.file ++ s.outfile

/-- The scan has come to the text, with these bytes read. -/
structure Reads (bytes text : List Byte) (s : FontScan) : Prop where
  fbuf : s.fbuf = text
  bytes : s.bytes = bytes
  room : s.outfile.length ≤ 128
  ok : s.failed = false

section Scan

variable {room : List Byte → List Byte → Nat} {bytes text nextline a b : List Byte}
variable {ls pre post : List HexLit} {l : HexLit} {s : FontScan}

theorem takeLit_lastline (room : List Byte → List Byte → Nat) (p : List Byte) (s : FontScan) :
    (takeLit room p s).lastline = s.lastline := by
  unfold takeLit fwrite
  dsimp only
  split
  · split <;> rfl
  · rfl

theorem Reads.taken (hroomy : Roomy room) (h : Reads bytes text s) (l : HexLit)
    (rest : List Byte) :
    Reads (bytes ++ [l.value]) rest (takeLit room (l.chars ++ rest) s) := by
  obtain ⟨-, hbytes, hroom, hok⟩ := h
  unfold takeLit
  split
  next hfull =>
    have hlen : s.outfile.length = 128 := by omega
    have hall : s.outfile.take 128 = s.outfile := List.take_of_length_le hroom
    rw [hall, fwrite_of_le (hroomy _ _)]
    dsimp only
    rw [if_neg (fun h => h hlen)]
    refine ⟨rfl, ?_, by show 1 ≤ 128; omega, hok⟩
    show (s.file ++ s.outfile) ++ [hexByte (l.chars ++ rest)] = _
    rw [hexByte_lit, ← hbytes]
    rfl
  next hfree =>
    refine ⟨rfl, ?_, ?_, hok⟩
    · show s.file ++ (s.outfile ++ [hexByte (l.chars ++ rest)]) = _
      rw [hexByte_lit, ← List.append_assoc, ← hbytes]
      rfl
    · show (s.outfile ++ [_]).length ≤ 128
      rw [List.length_append]
      show s.outfile.length + 1 ≤ 128
      omega

theorem Reads.goes (h : Reads bytes text s) :
    lineGoes nextline s = true ↔ nextline.length < text.length := by
  unfold lineGoes
  rw [h.fbuf, h.ok, Bool.not_false, Bool.and_true, decide_eq_true_iff]

/-- A literal of the line is read. -/
theorem Reads.literal (hroomy : Roomy room) {ls : List HexLit} (hpre : Lists (l :: pre) a)
    (hall : Lists ls (a ++ nextline)) (hsort : l.mark = 0x78 ∨ ∀ l ∈ ls, l.mark ≠ 0x78)
    (h : Reads bytes (a ++ nextline) s) :
    ∃ a' s', a'.length < a.length ∧ Lists pre a' ∧ lineRound room nextline s = .ok s' ∧
      s'.lastline = s.lastline ∧ Reads (bytes ++ [l.value]) (a' ++ nextline) s' := by
  obtain ⟨g, a', rfl, hg, ha'⟩ := hpre.first
  have hassoc : g ++ (l.chars ++ a') ++ nextline = g ++ (l.chars ++ (a' ++ nextline)) := by
    rw [List.append_assoc, List.append_assoc]
  have hfound : strstr (start l.mark) s.fbuf = some (l.chars ++ (a' ++ nextline)) := by
    rw [h.fbuf, hassoc, strstr_gap hg, strstr_lit]
  have hlen : nextline.length + 4 ≤ (l.chars ++ (a' ++ nextline)).length := by
    rw [List.length_append, List.length_append]
    show _ ≤ 4 + _
    omega
  have hlen' : ¬ s.fbuf.length < nextline.length + 4 :=
    Nat.not_lt.mpr (Nat.le_trans hlen (strstr_length hfound))
  refine ⟨a', takeLit room (l.chars ++ (a' ++ nextline)) s, ?_, ha', ?_, ?_,
    h.taken hroomy l _⟩
  · rw [List.length_append, List.length_append]
    show _ < _ + (4 + _)
    omega
  · have hnum : (if strstr (chars "0x") s.fbuf = none ∨ s.fbuf.length < nextline.length + 4 then
        strstr (chars "0X") s.fbuf else strstr (chars "0x") s.fbuf) =
        some (l.chars ++ (a' ++ nextline)) := by
      by_cases hsmall : l.mark = 0x78
      · rw [hsmall] at hfound
        have hx : strstr (chars "0x") s.fbuf = some (l.chars ++ (a' ++ nextline)) := hfound
        rw [hx, if_neg]
        rintro (hnone | hlt)
        · cases hnone
        · exact hlen' hlt
      · -- no `0x` is left
        have hnone : strstr (start 0x78) s.fbuf = none := by
          rw [h.fbuf]
          exact strstr_other (.inl rfl) hall (hsort.resolve_left hsmall)
        have hbig : l.mark = 0x58 := l.mark_eq.resolve_left hsmall
        rw [hbig] at hfound
        rw [if_pos (.inl hnone)]
        exact hfound
    unfold lineRound
    dsimp only
    rw [hnum]
    dsimp only
    rw [if_pos hlen]
    rfl
  · exact takeLit_lastline ..

/-- Behind the last literal of the line the scan goes on to the next one. -/
theorem Reads.rest (room : List Byte → List Byte → Nat) (hgap : Lists [] a)
    (h : Reads bytes (a ++ nextline) s) :
    ∃ s', lineRound room nextline s = .ok s' ∧ s'.lastline = s.lastline ∧
      Reads bytes nextline s' := by
  have hlate : ∀ m p, strstr (start m) s.fbuf = some p → ¬ nextline.length + 4 ≤ p.length := by
    intro m p hp
    rw [h.fbuf, strstr_gap hgap] at hp
    have hle := strstr_length hp
    omega
  obtain ⟨-, hbytes, hroom, hok⟩ := h
  refine ⟨{ s with fbuf := nextline }, ?_, rfl, ⟨rfl, hbytes, hroom, hok⟩⟩
  unfold lineRound
  dsimp only
  split
  next p hp =>
    refine if_neg ?_
    split at hp
    · exact hlate 0x58 p hp
    · exact hlate 0x78 p hp
  next => rfl

/-- The literals of a line are read in order. -/
theorem Reads.line (hroomy : Roomy room) (hpre : Lists pre a) (hpost : Lists post nextline)
    (hsort : Sorted (pre ++ post)) (h : Reads bytes (a ++ nextline) s) :
    ∃ n s', n ≤ a.length ∧ RoundsIn (lineGoes nextline) (lineRound room nextline) n s s' ∧
      s'.lastline = s.lastline ∧ Reads (bytes ++ pre.map HexLit.value) nextline s' := by
  induction pre generalizing a bytes s with
  | nil =>
    rw [List.map_nil, List.append_nil]
    by_cases ha : a = []
    · subst ha
      exact ⟨0, s, Nat.zero_le _, .refl s, rfl, h⟩
    · have hpos := List.length_pos_iff.mpr ha
      have hgoes : lineGoes nextline s = true := by
        rw [h.goes, List.length_append]
        omega
      obtain ⟨s', hround, hlast, hreads⟩ := h.rest room hpre
      exact ⟨1, s', hpos, .head hgoes hround (.refl s'), hlast, hreads⟩
  | cons l pre ih =>
    have hgoes : lineGoes nextline s = true := by
      obtain ⟨g, a', rfl, -, -⟩ := hpre.first
      rw [h.goes, List.length_append, List.length_append, List.length_append]
      show _ < _ + (4 + _) + _
      omega
    obtain ⟨hlater, hrest⟩ := List.pairwise_cons.mp hsort
    have hfirst : l.mark = 0x78 ∨ ∀ l' ∈ (l :: pre) ++ post, l'.mark ≠ 0x78 := by
      rcases l.mark_eq with hsmall | hbig
      · exact .inl hsmall
      · refine .inr fun l' hl' => ?_
        have hbig' : l'.mark = 0x58 := by
          rcases List.mem_cons.mp hl' with rfl | hl'
          · exact hbig
          · exact hlater l' hl' hbig
        rw [hbig']
        decide
    obtain ⟨a', s₁, hless, ha', hround, hlast, hreads⟩ :=
      h.literal hroomy hpre (hpre.append hpost) hfirst
    obtain ⟨n, s', hn, hrounds, hlast', hreads'⟩ := ih ha' hrest hreads
    refine ⟨n + 1, s', Nat.lt_of_le_of_lt hn hless, .head hgoes hround hrounds,
      hlast'.trans hlast, ?_⟩
    rw [List.map_cons, ← List.singleton_append, ← List.append_assoc]
    exact hreads'

/-- A line is read with one round of the outer loop. -/
theorem Reads.textRound (hroomy : Roomy room) (hpre : Lists pre a) (hpost : Lists post nextline)
    (hsort : Sorted (pre ++ post)) (last : Bool)
    (hnext : nextLine (a ++ nextline) = (nextline, last)) (h : Reads bytes (a ++ nextline) s) :
    ∃ s', textRound room s = .ok s' ∧ s'.lastline = last ∧
      Reads (bytes ++ pre.map HexLit.value) nextline s' := by
  have hstart : Reads bytes (a ++ nextline) { s with lastline := last } :=
    ⟨h.fbuf, h.bytes, h.room, h.ok⟩
  obtain ⟨n, s', hn, hrounds, hlast, hreads⟩ := hstart.line hroomy hpre hpost hsort
  have hend : lineGoes nextline s' = false := by
    rw [Bool.eq_false_iff]
    intro hgoes
    exact absurd (hreads.goes.mp hgoes) (Nat.lt_irrefl _)
  have hloop : whileLoop (lineGoes nextline) (lineRound room nextline) (s.fbuf.length + 1)
      { s with lastline := last } = .ok s' := by
    apply hrounds.whileLoop_eq hend
    rw [h.fbuf, List.length_append]
    omega
  have hset : (if s'.failed then s' else { s' with fbuf := nextline }) = s' := by
    have hok : ¬ s'.failed = true := by
      rw [hreads.ok]
      exact Bool.false_ne_true
    rw [if_neg hok, ← hreads.fbuf]
  refine ⟨s', ?_, hlast, hreads⟩
  rw [Tft.textRound, h.fbuf, hnext, ← h.fbuf]
  dsimp only
  rw [hloop, ok_bind, hset]
  rfl

theorem Reads.textGoes (h : Reads bytes text s) :
    textGoes s = true ↔ text ≠ [] ∧ s.lastline = false := by
  rw [Tft.textGoes, h.fbuf, h.ok, Bool.not_false, Bool.and_true, Bool.and_eq_true,
    decide_eq_true_iff, List.length_pos_iff, Bool.not_eq_true']

theorem nextLine_newline (ha : (0x0A : Byte) ∉ a) (b : List Byte) :
    nextLine (a ++ 0x0A :: b) = (b, false) := by
  have hfound : strstr (chars "\n") (a ++ 0x0A :: b) = some (0x0A :: b) := strstr_first ha b
  rw [nextLine, hfound]
  rfl

theorem nextLine_last {c : Byte} (ha : (0x0A : Byte) ∉ a) (hc : c ≠ 0x0A) :
    nextLine (a ++ [c]) = ([c], true) := by
  have hno : (0x0A : Byte) ∉ a ++ [c] := by
    intro hmem
    rcases List.mem_append.mp hmem with hmem | hmem
    · exact ha hmem
    · exact hc (List.mem_singleton.mp hmem).symm
  have hfound : strstr (chars "\n") (a ++ [c]) = none := strstr_none hno
  rw [nextLine, hfound, List.length_append]
  show (List.drop (a.length + 1 - 1) _, _) = _
  rw [Nat.add_sub_cancel, List.drop_left]

/-- All the literals of a text are read in order, and the scan comes to an end. -/
theorem Reads.whole (hroomy : Roomy room) (hlist : Closed ls text ∨ ls = [] ∧ text = [])
    (hsort : Sorted ls) (h : Reads bytes text s) (hlast : s.lastline = false) :
    ∃ n s', n ≤ text.length ∧ RoundsIn Tft.textGoes (Tft.textRound room) n s s' ∧
      Tft.textGoes s' = false ∧ s'.failed = false ∧ s'.outfile.length ≤ 128 ∧
      s'.bytes = bytes ++ ls.map HexLit.value := by
  induction hn : text.length using Nat.strongRecOn generalizing ls text bytes s with
  | ind k ih =>
    rcases hlist with ⟨a, c, ha, hc, rfl⟩ | ⟨rfl, rfl⟩
    · have hgoes : Tft.textGoes s = true :=
        h.textGoes.mpr ⟨List.append_ne_nil_of_right_ne_nil _ (List.cons_ne_nil c []), hlast⟩
      have hlen : (a ++ [c]).length = a.length + 1 := List.length_append
      have hsort' : Sorted (ls ++ []) := by
        rw [List.append_nil]
        exact hsort
      rcases ha.line with hno | ⟨pre, post, a, b, rfl, rfl, hno, hpre, hpost⟩
      · by_cases hnl : c = 0x0A
        · -- a single line with its newline
          subst hnl
          have hline : Lists ls (a ++ [0x0A]) := by
            have happend := ha.append (Lists.one hc)
            rwa [List.append_nil] at happend
          have hstart : Reads bytes ((a ++ [0x0A]) ++ []) s := by
            rw [List.append_nil]
            exact h
          obtain ⟨s', hround, -, hreads⟩ := hstart.textRound hroomy hline .nil hsort'
            false (by rw [List.append_nil]; exact nextLine_newline hno [])
          refine ⟨1, s', by omega, .head hgoes hround (.refl s'), ?_, hreads.ok, hreads.room,
            hreads.bytes⟩
          rw [Bool.eq_false_iff]
          exact fun hmore => (hreads.textGoes.mp hmore).1 rfl
        · -- a single line without a newline, read up to its last character
          obtain ⟨s', hround, hend, hreads⟩ := h.textRound hroomy ha (Lists.one hc) hsort'
            true (nextLine_last hno hnl)
          refine ⟨1, s', by omega, .head hgoes hround (.refl s'), ?_, hreads.ok, hreads.room,
            hreads.bytes⟩
          rw [Bool.eq_false_iff]
          intro hmore
          rw [(hreads.textGoes.mp hmore).2] at hend
          cases hend
      · -- a line and what follows it
        have hsplit : (a ++ 0x0A :: b) ++ [c] = (a ++ [0x0A]) ++ (b ++ [c]) := by
          rw [List.append_assoc, List.append_assoc]
          rfl
        have hline : Lists pre (a ++ [0x0A]) := by
          have happend := hpre.append (Lists.one (c := 0x0A) (by unfold Layout nul; decide))
          rwa [List.append_nil] at happend
        have hrest : Lists post (b ++ [c]) := by
          have happend := hpost.append (Lists.one hc)
          rwa [List.append_nil] at happend
        have hstart : Reads bytes ((a ++ [0x0A]) ++ (b ++ [c])) s := by
          rw [← hsplit]
          exact h
        obtain ⟨s₁, hround, hlast₁, hreads⟩ := hstart.textRound hroomy hline hrest hsort
          false (by
            rw [List.append_assoc]
            exact nextLine_newline hno (b ++ [c]))
        have hsort₁ : Sorted post := (List.pairwise_append.mp hsort).2.1
        have hless : (b ++ [c]).length < k := by
          rw [← hn]
          simp only [List.length_append, List.length_cons]
          omega
        obtain ⟨n, s', hle, hrounds, hend, hok, hroom, hbytes⟩ :=
          ih _ hless (.inl ⟨b, c, hpost, hc, rfl⟩) hsort₁ hreads hlast₁ rfl
        refine ⟨n + 1, s', by omega, .head hgoes hround hrounds, hend, hok, hroom, ?_⟩
        rw [hbytes, List.map_append, List.append_assoc]
    · refine ⟨0, s, Nat.zero_le _, .refl s, ?_, h.ok, h.room, ?_⟩
      · rw [Bool.eq_false_iff]
        exact fun hmore => (h.textGoes.mp hmore).1 rfl
      · rw [h.bytes, List.map_nil, List.append_nil]

/-- The scan of a text whose first literal has `0x`. -/
theorem scanText_reads (hroomy : Roomy room) (hlist : Closed ls text) (hsort : Sorted ls)
    (hfirst : ∀ l ∈ ls.head?, l.mark = 0x78) :
    ∃ s, scanText room text = .ok s ∧ s.failed = false ∧ s.outfile.length ≤ 128 ∧
      s.bytes = ls.map HexLit.value := by
  obtain ⟨a, c, ha, hc, rfl⟩ := hlist
  cases ls with
  | nil =>
    have hgap : Lists [] (a ++ [c]) := ha.append (Lists.one hc)
    have hnone : strstr (chars "0x") (a ++ [c]) = none :=
      strstr_other (.inl rfl) hgap fun l hl => absurd hl List.not_mem_nil
    refine ⟨⟨[], false, [], [], false⟩, ?_, rfl, Nat.zero_le _, rfl⟩
    rw [scanText, hnone]
    rfl
  | cons l ls =>
    obtain ⟨g, a', rfl, hg, ha'⟩ := ha.first
    have hmark : l.mark = 0x78 := hfirst l rfl
    have hassoc : g ++ (l.chars ++ a') ++ [c] = g ++ (l.chars ++ (a' ++ [c])) := by
      rw [List.append_assoc, List.append_assoc]
    have hfound : strstr (chars "0x") (g ++ (l.chars ++ a') ++ [c]) =
        some (l.chars ++ (a' ++ [c])) := by
      have hlit := strstr_lit l (a' ++ [c])
      rw [hmark] at hlit
      rw [hassoc]
      exact (strstr_gap hg _).trans hlit
    have hclosed : Closed (l :: ls) (l.chars ++ (a' ++ [c])) :=
      ⟨l.chars ++ a', c, .lit l ha', hc, (List.append_assoc ..).symm⟩
    have hstart : Reads [] (l.chars ++ (a' ++ [c]))
        ⟨l.chars ++ (a' ++ [c]), false, [], [], false⟩ := ⟨rfl, rfl, Nat.zero_le _, rfl⟩
    obtain ⟨n, s, hn, hrounds, hend, hok, hroom, hbytes⟩ :=
      hstart.whole hroomy (.inl hclosed) hsort rfl
    refine ⟨s, ?_, hok, hroom, hbytes⟩
    rw [scanText, hfound]
    exact hrounds.whileLoop_eq hend (by omega)

theorem closeFont_eq (hroomy : Roomy room) (hok : s.failed = false) :
    closeFont room s = some (s.bytes ++ chars "RPH_font") := by
  have hdone : ¬ (s.failed = true ∨ s.outfile.length ≠ s.outfile.length) := by
    rw [hok]
    rintro (h | h)
    · cases h
    · exact h rfl
  unfold closeFont
  rw [fwrite_of_le (hroomy _ _)]
  dsimp only
  rw [if_neg hdone, fwrite_of_le (hroomy _ _)]
  rfl

end Scan

/-! ## The whole -/

/-- A source file whose initialiser lists the literals. -/
def Source (ls : List HexLit) (body content : List Byte) : Prop :=
  Lists ls body ∧ ∃ before after, (∀ c ∈ before, c ≠ nul ∧ c ≠ 0x7B) ∧
    content = before ++ 0x7B :: (body ++ 0x7D :: 0x3B :: after)

/-- The source file is there and has a size, and nothing else is missing. -/
structure FontEnv.Works (env : FontEnv) (content : List Byte) : Prop where
  stat : env.stat = some content.length
  source : env.source = some content
  size : content.length < 2147483648
  create : env.create = true
  mem : env.mem = true
  room : Roomy env.room

/-- A name of a source file. -/
def SourceName (fontfile : List Byte) : Prop :=
  3 ≤ fontfile.length ∧ fontfile.length ≤ 125 ∧
    fontfile.drop (fontfile.length - 2) = chars ".c"

section Whole

variable {ls : List HexLit} {text body content : List Byte}

/-- There is no end of the text in the list. -/
theorem Lists.char_ne (h : Lists ls text) : ∀ c ∈ text, c ≠ nul ∧ c ≠ 0x7D := by
  induction h with
  | nil => exact fun c hc => absurd hc List.not_mem_nil
  | layout hc _ ih => exact List.forall_mem_cons.mpr ⟨⟨hc.1, hc.2.2.2.2⟩, ih⟩
  | lit l _ ih =>
    have hmark : l.mark ≠ nul ∧ l.mark ≠ 0x7D := by
      rcases l.mark_eq with hmark | hmark <;>
      · rw [hmark]
        decide
    have hhi := HexLit.digit_ne l.hi_digit
    have hlo := HexLit.digit_ne l.lo_digit
    exact List.forall_mem_cons.mpr ⟨by decide, List.forall_mem_cons.mpr ⟨hmark,
      List.forall_mem_cons.mpr ⟨⟨hhi.1, hhi.2.2.2.2⟩,
        List.forall_mem_cons.mpr ⟨⟨hlo.1, hlo.2.2.2.2⟩, ih⟩⟩⟩⟩

/-- The text of a source file whose initialiser is long enough. -/
theorem Source.fontText (h : Source ls body content) (hlen : 21 ≤ body.length) :
    fontText content = .ok (some body) := by
  obtain ⟨hlist, before, after, hbefore, rfl⟩ := h
  obtain ⟨rest, hrest⟩ : ∃ rest, rest = after.takeWhile (· ≠ nul) := ⟨_, rfl⟩
  have hbuf : (before ++ 0x7B :: (body ++ 0x7D :: 0x3B :: after)).takeWhile (· ≠ nul) =
      before ++ 0x7B :: (body ++ 0x7D :: 0x3B :: rest) := by
    rw [List.takeWhile_append_of_pos, List.takeWhile_cons_of_pos (by decide),
      List.takeWhile_append_of_pos, List.takeWhile_cons_of_pos (by decide),
      List.takeWhile_cons_of_pos (by decide), hrest]
    · exact fun c hc => decide_eq_true (hlist.char_ne c hc).1
    · exact fun c hc => decide_eq_true (hbefore c hc).1
  have hopen : strstr (chars "\x7b") (before ++ 0x7B :: (body ++ 0x7D :: 0x3B :: rest)) =
      some (0x7B :: (body ++ 0x7D :: 0x3B :: rest)) :=
    strstr_first (fun hmem => (hbefore _ hmem).2 rfl) _
  have hclose : strstr (chars "\x7d;") (0x7B :: (body ++ 0x7D :: 0x3B :: rest)) =
      some (0x7D :: 0x3B :: rest) := by
    have hno : (0x7D : Byte) ∉ 0x7B :: body := by
      intro hmem
      rcases List.mem_cons.mp hmem with hmem | hmem
      · exact absurd hmem (by decide)
      · exact (hlist.char_ne _ hmem).2 rfl
    exact strstr_first (a := 0x7B :: body) hno rest
  have hdiff : (0x7B :: (body ++ 0x7D :: 0x3B :: rest)).length - (0x7D :: 0x3B :: rest).length =
      body.length + 1 := by
    simp only [List.length_append, List.length_cons]
    omega
  have hlong : (22 ≤ body.length + 1 : Bool) = true := decide_eq_true (by omega)
  unfold Tft.fontText
  rw [hbuf]
  dsimp only
  rw [hopen]
  dsimp only
  rw [hclose, Option.filter_some, hdiff, if_pos hlong]
  dsimp only
  rw [hdiff, List.take_succ_cons, List.take_left]
  rfl

/-- The font file of a list of literals that is long enough, in which something stands behind the
    last literal and those with `0X` come last. -/
theorem compileFontFile_writes (env : FontEnv) (fontfile content body : List Byte)
    (ls : List HexLit) (hworks : env.Works content) (hname : SourceName fontfile)
    (hsrc : Source ls body content) (hlen : 21 ≤ body.length) (hclosed : Closed ls body)
    (hsort : Sorted ls) (hfirst : ∀ l ∈ ls.head?, l.mark = 0x78) :
    compileFontFile env fontfile =
      .ok (.ok (fontfile.take (fontfile.length - 1) ++ chars "fon",
        ls.map HexLit.value ++ chars "RPH_font")) := by
  obtain ⟨hstat, hsource, hsize, hcreate, hmem, hroom⟩ := hworks
  obtain ⟨hshort, hlong, hend⟩ := hname
  obtain ⟨s, hscan, hok, -, hbytes⟩ := scanText_reads hroom hclosed hsort hfirst
  have hpos : 0 < content.length := by
    obtain ⟨-, before, after, -, rfl⟩ := hsrc
    rw [List.length_append, List.length_cons]
    omega
  have hint : ¬ toInt32 content.length ≤ 0 := by
    rw [toInt32_of_lt hsize]
    omega
  have hbad : ¬ (fontfile.length < 3 ∨ fontfile.length > 125 ∨
      fontfile.drop (fontfile.length - 2) ≠ chars ".c") := by
    rintro (h | h | h)
    · omega
    · omega
    · exact h hend
  unfold compileFontFile
  dsimp only
  rw [if_neg hbad, hstat, hsource]
  dsimp only
  rw [if_neg (by rw [hcreate]; decide), if_neg hint, if_neg (by rw [hmem]; decide),
    List.take_length, if_neg (fun h => h rfl), hsrc.fontText hlen, ok_bind]
  dsimp only
  rw [hscan, ok_bind, closeFont_eq hroom hok, hbytes]
  rfl

end Whole

/-! ## Small files -/

theorem digit_isSome : ∀ k : Fin 10, (hexVal (0x30 + BitVec.ofNat 8 k)).isSome = true := by
  decide

/-- The literals `0x00` to `0x09`. -/
def smallLit (k : Fin 10) : HexLit :=
  ⟨0x78, 0x30, 0x30 + BitVec.ofNat 8 k, .inl rfl, digit_isSome 0, digit_isSome k⟩

/-- The literals `0X00` to `0X09`. -/
def bigLit (k : Fin 10) : HexLit :=
  ⟨0x58, 0x30, 0x30 + BitVec.ofNat 8 k, .inr rfl, digit_isSome 0, digit_isSome k⟩

/-- The literals, a comma behind each one. -/
def commas (ls : List HexLit) : List Byte := ls.flatMap fun l => l.chars ++ [0x2C]

theorem lists_commas (ls : List HexLit) : Lists ls (commas ls) := by
  have hcomma : Layout 0x2C := by
    unfold Layout nul
    decide
  induction ls with
  | nil => exact .nil
  | cons l ls ih =>
    have hcons : commas (l :: ls) = l.chars ++ ([0x2C] ++ commas ls) := by
      rw [commas, List.flatMap_cons, List.append_assoc]
      rfl
    rw [hcons]
    exact .lit l (.layout hcomma ih)

/-- A source file of the initialiser alone. -/
def sourceOf (body : List Byte) : List Byte := 0x7B :: (body ++ [0x7D, 0x3B])

theorem sourceOf_source {ls : List HexLit} {body : List Byte} (h : Lists ls body) :
    Source ls body (sourceOf body) :=
  ⟨h, [], [], fun _ hc => absurd hc List.not_mem_nil, rfl⟩

/-- A disk with just this file, and room. -/
def diskOf (content : List Byte) : FontEnv :=
  ⟨some content.length, some content, true, true, fun _ block => block.length⟩

theorem diskOf_works {content : List Byte} (h : content.length < 2147483648) :
    (diskOf content).Works content :=
  ⟨rfl, rfl, h, rfl, rfl, fun _ _ => Nat.le_refl _⟩

/-- A file of two literals with `0x`, and three with `0X` on the next line. -/
def mixedLits : List HexLit := [smallLit 1, smallLit 2, bigLit 3, bigLit 4, bigLit 5]

theorem compileFontFile_writes_mixed :
    compileFontFile (diskOf (sourceOf (commas mixedLits))) (chars "f.c") =
      .ok (.ok ((chars "f.c").take 2 ++ chars "fon",
        mixedLits.map HexLit.value ++ chars "RPH_font")) := by
  apply compileFontFile_writes _ _ (sourceOf (commas mixedLits)) (commas mixedLits) mixedLits
  · exact diskOf_works (by decide)
  · exact ⟨by decide, by decide, by decide⟩
  · exact sourceOf_source (lists_commas _)
  · decide
  · refine ⟨commas (mixedLits.take 4) ++ (bigLit 5).chars, 0x2C, ?_, ?_, by decide⟩
    · exact (lists_commas (mixedLits.take 4)).append (.lit (bigLit 5) .nil)
    · unfold Layout nul
      decide
  · unfold Sorted mixedLits
    decide
  · intro l hl
    obtain rfl := Option.some.inj hl
    rfl

/-- For the file of this initialiser the code does not write the bytes of the literals. -/
def Misses (ls : List HexLit) (body : List Byte) : Prop :=
  Source ls body (sourceOf body) ∧ (diskOf (sourceOf body)).Works (sourceOf body) ∧
    compileFontFile (diskOf (sourceOf body)) (chars "f.c") ≠
      .ok (.ok (chars "f.fon", ls.map HexLit.value ++ chars "RPH_font"))

/-- Two literals are refused, the last one is lost in front of the brace, and so are those with
    `0X` in front of one with `0x`, or when there is no other. -/
theorem compileFontFile_misses :
    Misses [smallLit 1, smallLit 2] (commas [smallLit 1, smallLit 2]) ∧
      Misses [smallLit 1, smallLit 2, smallLit 3, smallLit 4, smallLit 5]
        (commas [smallLit 1, smallLit 2, smallLit 3, smallLit 4] ++ (smallLit 5).chars) ∧
      Misses [smallLit 1, bigLit 2, smallLit 3, smallLit 4, smallLit 5]
        (commas [smallLit 1, bigLit 2, smallLit 3, smallLit 4, smallLit 5]) ∧
      Misses [bigLit 1, bigLit 2, bigLit 3, bigLit 4, bigLit 5]
        (commas [bigLit 1, bigLit 2, bigLit 3, bigLit 4, bigLit 5]) := by
  refine ⟨⟨sourceOf_source (lists_commas _), diskOf_works (by decide), ?_⟩,
    ⟨sourceOf_source ?_, diskOf_works (by decide), ?_⟩,
    ⟨sourceOf_source (lists_commas _), diskOf_works (by decide), ?_⟩,
    ⟨sourceOf_source (lists_commas _), diskOf_works (by decide), ?_⟩⟩
  · decide
  · exact (lists_commas [smallLit 1, smallLit 2, smallLit 3, smallLit 4]).append
      (.lit (smallLit 5) .nil)
  · decide
  · decide
  · decide

end LuaRtos.Tft
