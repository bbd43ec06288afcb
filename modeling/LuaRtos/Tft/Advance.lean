/-
  LuaRtos.Tft.Advance

  How far TFT_print moves the cursor, and the width that getStringWidth says.

  Along a line each character of a fixed or of a 7-segment font adds the same, and each one of a
  proportional font the width of its record, or of the record at which the search stopped.
-/

import LuaRtos.Tft.Print

namespace LuaRtos.Tft

open CLib

/-- A font that `tft_setfont` has chosen. -/
def Font.Selected (f : Font) : Prop := f.bitmap = 1 ∨ f.bitmap = 2 ∧ f.x_size ≠ 0

/-- The character has a record in the font, and its pixels are there. -/
def HasChar (font : List Byte) (c : Byte) : Prop := ∃ g, Finds font c 4 g ∧ GlyphIn font g

/-- The characters of the string are displayed in the current line, up to the last. -/
inductive InLine {s : Screen} (p : Panel s) (f : Font) : List Byte → Pen → Pen → Prop
  | nil (t : Pen) : InLine p f [] t t
  | cons {ch : Byte} {st : List Byte} {t t₁ t₂ t' : Pen} (hsize : sizeChar p f ch t = .ok t₁)
      (hfits : t₁.X + t₁.tmpw ≤ p.win.x2 + 1) (hshow : showChar p f ch t₁ = .ok t₂)
      (h : InLine p f st t₂ t') : InLine p f (ch :: st) t t'

section Claim

variable {s : Screen} (p : Panel s) (f : Font) (st : List Byte) (x y : Int) (t : Pen)

/-- The string, as it is measured, fits in the line where it starts. -/
def Fits : Prop :=
  ∀ w, getStringWidth f p.forceFixed st = .ok w → startX p w x + w ≤ p.win.x2 + 1 ∧
    startY p f.lineHeight y + f.lineHeight - 1 ≤ p.win.y2

/-- The string is displayed in the line where it starts. -/
def Lined : Prop :=
  ∃ w t', getStringWidth f p.forceFixed st = .ok w ∧
    startY p f.lineHeight y + f.lineHeight - 1 ≤ p.win.y2 ∧
    InLine p f st (startPen p f w x y t) t'

/-- The cursor is one width of the string further. -/
def Advances : Prop :=
  ∃ w t', getStringWidth f p.forceFixed st = .ok w ∧ tftPrint p f st x y t = .ok t' ∧
    t'.X = startX p w x + w

end Claim

/-- A string whose width is the one that is printed: none but the empty one in 7 segments, what a
    proportional font contains, and with a fixed font what is not too long for an `int`. -/
def Measured (f : Font) (st : List Byte) : Prop :=
  if f.bitmap = 2 then st = []
  else if f.x_size = 0 then ∀ c ∈ st, HasChar f.font c
  else f.x_size.toNat * st.length < 2147483648 ∧ ∀ c ∈ st, CharIn f (f.shown c)

/-- `tft_setfont` chooses a font. -/
theorem tftSetfont_selected {fonts : Byte → List Byte} {fg : BitVec 16} {fnt : Byte}
    {bars : Option Bars} {f f' : Font} (h : tftSetfont fonts fg fnt bars f = .ok f') :
    f'.Selected := by
  obtain ⟨f₁, hset, h⟩ := bind_eq_ok.mp h
  by_cases hfnt : fnt = FONT_7SEG
  · rw [tftSetFont, if_pos hfnt] at hset
    obtain rfl := Except.ok.inj hset
    rw [if_pos hfnt] at h
    cases bars with
    | none =>
      obtain rfl := Except.ok.inj h
      exact .inr ⟨rfl, show (12 : Byte) ≠ 0 by decide⟩
    | some b =>
      have hsize : BitVec.ofNat 8 b.sizes.1 ≠ 0 := by
        intro hzero
        have hnat := congrArg BitVec.toNat hzero
        rw [BitVec.toNat_ofNat] at hnat
        have hmin : min 40 (max 6 b.l.toNat) % 256 = 0 := hnat
        omega
      refine .inr ?_
      cases hout : b.outline with
      | none =>
        simp only [hout] at h
        obtain rfl := Except.ok.inj h
        exact ⟨rfl, hsize⟩
      | some color =>
        simp only [hout] at h
        split at h
        · obtain rfl := Except.ok.inj h
          exact ⟨rfl, hsize⟩
        · obtain rfl := Except.ok.inj h
          exact ⟨rfl, hsize⟩
  · rw [tftSetFont, if_neg hfnt] at hset
    rw [if_neg hfnt] at h
    obtain rfl := Except.ok.inj h
    obtain ⟨_, -, hset⟩ := bind_eq_ok.mp hset
    obtain ⟨_, -, hset⟩ := bind_eq_ok.mp hset
    obtain ⟨_, -, hset⟩ := bind_eq_ok.mp hset
    obtain ⟨_, -, hset⟩ := bind_eq_ok.mp hset
    obtain rfl := Except.ok.inj hset
    exact .inl rfl

section Line

variable {s : Screen} {p : Panel s} {f : Font} {ch : Byte} {st : List Byte} {t t' : Pen}

/-- A string in the line is printed so. -/
theorem InLine.prints (h : InLine p f st t t') (hst : ∀ c ∈ st, c ≠ 0x0D ∧ c ≠ 0x0A) :
    printChars p f st t = .ok t' := by
  induction h with
  | nil t => rfl
  | @cons ch st _ _ _ _ hsize hfits hshow _ ih =>
    obtain ⟨hcr, hlf⟩ := hst ch (List.mem_cons_self ..)
    rw [printChars, hsize, ok_bind, if_neg hcr, if_neg hlf, if_neg (Int.not_lt.mpr hfits), hshow,
      ok_bind]
    exact ih fun c hc => hst c (List.mem_cons_of_mem _ hc)

theorem Lined.prints {x y w : Int} (hsel : f.Selected) (hst : ∀ c ∈ st, c ≠ 0x0D ∧ c ≠ 0x0A)
    (hw : getStringWidth f p.forceFixed st = .ok w)
    (hy : startY p f.lineHeight y + f.lineHeight - 1 ≤ p.win.y2)
    (h : InLine p f st (startPen p f w x y t) t') : tftPrint p f st x y t = .ok t' := by
  have hfont : f.bitmap ≠ 0 := by
    rcases hsel with hone | ⟨htwo, -⟩
    · rw [hone]
      decide
    · rw [htwo]
      decide
  have hline : ¬ (startPen p f w x y t).Y + f.lineHeight - 1 > p.win.y2 := Int.not_lt.mpr hy
  rw [tftPrint, if_neg hfont, hw, ok_bind]
  dsimp only
  rw [if_neg hline]
  exact h.prints hst

/-! ### Fonts of one width -/

/-- What a character adds, with a font that is not proportional. -/
def Font.step (f : Font) : Nat := if f.bitmap = 1 then f.cell else f.cell + 2

theorem sizeChar_cell (hx : f.x_size ≠ 0) : sizeChar p f ch t = .ok t := if_neg hx

theorem showChar_cell (hsel : f.Selected) (hx : f.x_size ≠ 0) (ht : t.tmpw = f.cell)
    (h : showChar p f ch t = .ok t') :
    t'.X = t.X + f.step ∧ t'.tmpw = f.cell ∧ (f.bitmap = 1 → CharIn f (f.shown ch)) := by
  rw [showChar, if_neg hx] at h
  by_cases hone : f.bitmap = 1
  · rw [if_pos hone] at h
    obtain ⟨draws, hprint, hset⟩ := bind_eq_ok.mp h
    obtain rfl := Except.ok.inj hset
    refine ⟨?_, ht, fun _ => (printChar_ok_iff p f).mp ⟨draws, hprint⟩⟩
    show t.X + t.tmpw = _
    rw [ht, Font.step, if_pos hone]
  · rw [if_neg hone] at h
    obtain ⟨htwo, -⟩ := hsel.resolve_left hone
    rw [if_pos htwo] at h
    obtain rfl := Except.ok.inj h
    refine ⟨?_, ht, fun h => absurd h hone⟩
    show t.X + (t.tmpw + 2) = _
    rw [ht, Font.step, if_neg hone]
    rfl

/-- Along a line each character adds the same, and the last one ends in the window. -/
theorem InLine.cells (hsel : f.Selected) (hx : f.x_size ≠ 0) (h : InLine p f st t t')
    (ht : t.tmpw = f.cell) :
    t'.X = t.X + st.length * f.step ∧
      (st ≠ [] → t'.X + f.cell ≤ p.win.x2 + 1 + f.step) ∧
      (f.bitmap = 1 → ∀ c ∈ st, CharIn f (f.shown c)) := by
  induction h with
  | nil t =>
    refine ⟨?_, fun h => absurd rfl h, fun _ c hc => absurd hc List.not_mem_nil⟩
    rw [List.length_nil]
    omega
  | @cons ch st t t₁ t₂ t' hsize hfits hshow hrest ih =>
    rw [sizeChar_cell hx] at hsize
    obtain rfl := Except.ok.inj hsize
    obtain ⟨hstep, htmpw, hchar⟩ := showChar_cell hsel hx ht hshow
    obtain ⟨hX, hlast, hchars⟩ := ih htmpw
    refine ⟨?_, ?_, ?_⟩
    · rw [hX, hstep, List.length_cons, Nat.cast_add, Nat.cast_one, Int.add_mul]
      omega
    · intro _
      cases st with
      | nil =>
        have hend : t'.X = t₂.X + (0 : Nat) * f.step := hX
        rw [ht] at hfits
        omega
      | cons c st => exact hlast (List.cons_ne_nil c st)
    · intro hone c hc
      rcases List.mem_cons.mp hc with rfl | hc
      · exact hchar hone
      · exact hchars hone c hc

/-- With a fixed font, characters that are in the font are displayed as far as they fit. -/
theorem inLine_fixed (hone : f.bitmap = 1) (hx : f.x_size ≠ 0)
    (hchars : ∀ c ∈ st, CharIn f (f.shown c)) (ht : t.tmpw = f.cell)
    (hfits : t.X + st.length * f.cell ≤ p.win.x2 + 1) : ∃ t', InLine p f st t t' := by
  induction st generalizing t with
  | nil => exact ⟨t, .nil t⟩
  | cons ch st ih =>
    obtain ⟨draws, hprint⟩ := (printChar_ok_iff p f (x := t.X) (y := t.Y)).mpr
      (hchars ch (List.mem_cons_self ..))
    have hshow : showChar p f ch t =
        .ok { t with X := t.X + t.tmpw, draws := t.draws ++ draws } := by
      rw [showChar, if_neg hx, if_pos hone, hprint]
      rfl
    have hlen : ((ch :: st).length : Int) * f.cell = st.length * f.cell + f.cell := by
      rw [List.length_cons, Nat.cast_add, Nat.cast_one, Int.add_mul, Int.one_mul]
    rw [hlen] at hfits
    have hroom : 0 ≤ (st.length : Int) * f.cell :=
      Int.mul_nonneg (Int.natCast_nonneg _) (Int.natCast_nonneg _)
    obtain ⟨t', hrest⟩ := ih (t := { t with X := t.X + t.tmpw, draws := t.draws ++ draws })
      (fun c hc => hchars c (List.mem_cons_of_mem _ hc)) ht (by
        show t.X + t.tmpw + _ ≤ _
        omega)
    exact ⟨t', .cons (sizeChar_cell hx) (by omega) hshow hrest⟩

/-! ### Proportional fonts -/

/-- The record of a character that was found, with the width that is forced. -/
theorem glyphIn_forceWidth {font : List Byte} {forceFixed : Byte} {g : PropFont} :
    GlyphIn font (forceWidth f forceFixed g) ↔ GlyphIn font g := by
  unfold forceWidth
  split
  · exact Iff.rfl
  · exact Iff.rfl

theorem sizeChar_prop (hx : f.x_size = 0) {t₁ : Pen} (h : sizeChar p f ch t = .ok t₁) :
    ∃ g found, getCharPtr f p.forceFixed ch = .ok (g, found) ∧
      t₁ = { t with fontChar := g, tmpw := if found then g.xDelta else t.tmpw } := by
  rw [sizeChar, if_pos hx] at h
  obtain ⟨⟨g, found⟩, hget, hset⟩ := bind_eq_ok.mp h
  exact ⟨g, found, hget, (Except.ok.inj hset).symm⟩

theorem showChar_prop (hx : f.x_size = 0) (h : showChar p f ch t = .ok t') :
    t'.X = t.X + (t.fontChar.xDelta + 1) ∧ GlyphIn f.font t.fontChar := by
  rw [showChar, if_pos hx] at h
  obtain ⟨r, hprint, hset⟩ := bind_eq_ok.mp h
  obtain rfl := Except.ok.inj hset
  exact ⟨rfl, (printProportionalChar_ok_iff p f).mp ⟨r, hprint⟩⟩

/-- Along a line the cursor moves at least by the width, and just by it where the font contains
    the characters. -/
theorem InLine.widths (hx : f.x_size = 0) (h : InLine p f st t t') (acc : Int) :
    ∃ w, addWidths f p.forceFixed st acc = .ok (acc + w) ∧ w ≤ t'.X - t.X ∧
      (w = t'.X - t.X ↔ ∀ c ∈ st, HasChar f.font c) := by
  induction h generalizing acc with
  | nil t =>
    refine ⟨0, by rw [Int.add_zero]; rfl, by omega, ?_⟩
    exact iff_of_true (by omega) fun c hc => absurd hc List.not_mem_nil
  | @cons ch st t t₁ t₂ t' hsize _ hshow _ ih =>
    obtain ⟨g, found, hget, rfl⟩ := sizeChar_prop hx hsize
    obtain ⟨hX, hglyph⟩ := showChar_prop hx hshow
    have hX' : t₂.X = t.X + (g.xDelta + 1) := hX
    obtain ⟨w, hw, hle, hiff⟩ := ih (if found then acc + (g.xDelta + 1) else acc)
    have hadd : addWidths f p.forceFixed (ch :: st) acc =
        .ok ((if found then acc + (g.xDelta + 1) else acc) + w) := by
      rw [addWidths, hget]
      exact hw
    have hhas : HasChar f.font ch ↔ found = true := by
      constructor
      · rintro ⟨g', hfinds, -⟩
        exact (getCharPtr_found hget).mpr ⟨g', hfinds⟩
      · intro hfound
        obtain ⟨g', hfinds⟩ := (getCharPtr_found hget).mp hfound
        have hsame := getCharPtr_finds f p.forceFixed hfinds
        rw [hget] at hsame
        obtain ⟨rfl, -⟩ := Prod.mk.inj (Except.ok.inj hsame)
        exact ⟨g', hfinds, glyphIn_forceWidth.mp hglyph⟩
    rw [List.forall_mem_cons, hhas, ← hiff]
    cases found with
    | true =>
      refine ⟨g.xDelta + 1 + w, ?_, by omega, ?_⟩
      · rw [hadd, if_pos rfl, Int.add_assoc]
      · rw [and_iff_right rfl]
        omega
    | false =>
      -- a character that is missing adds nothing to the width
      refine ⟨w, by rw [hadd]; rfl, by omega, ?_⟩
      constructor
      · intro hsame
        omega
      · rintro ⟨hfound, -⟩
        cases hfound

/-- Characters that the font contains are displayed as far as they fit. -/
theorem inLine_prop (hx : f.x_size = 0) (hchars : ∀ c ∈ st, HasChar f.font c) (acc : Int) :
    ∃ w, addWidths f p.forceFixed st acc = .ok (acc + w) ∧ 0 ≤ w ∧
      ∀ t : Pen, t.X + w ≤ p.win.x2 + 1 → ∃ t', InLine p f st t t' := by
  induction st generalizing acc with
  | nil => exact ⟨0, by rw [Int.add_zero]; rfl, Int.le_refl 0, fun t _ => ⟨t, .nil t⟩⟩
  | cons ch st ih =>
    obtain ⟨hhas, hchars⟩ := List.forall_mem_cons.mp hchars
    obtain ⟨g, hfinds, hglyph⟩ := hhas
    have hget := getCharPtr_finds f p.forceFixed hfinds
    obtain ⟨w, hw, hpos, hline⟩ := ih hchars (acc + ((forceWidth f p.forceFixed g).xDelta + 1))
    refine ⟨(forceWidth f p.forceFixed g).xDelta + 1 + w, ?_, by omega, ?_⟩
    · rw [addWidths, hget, ← Int.add_assoc]
      exact hw
    · intro t hfits
      obtain ⟨t₁, ht₁⟩ : ∃ t₁ : Pen, t₁ = { t with
          fontChar := forceWidth f p.forceFixed g,
          tmpw := (forceWidth f p.forceFixed g).xDelta } := ⟨_, rfl⟩
      have hsize : sizeChar p f ch t = .ok t₁ := by
        rw [sizeChar, if_pos hx, hget, ht₁]
        rfl
      have hglyph₁ : GlyphIn f.font t₁.fontChar := by
        rw [ht₁]
        exact glyphIn_forceWidth.mpr hglyph
      obtain ⟨r, hprint⟩ := (printProportionalChar_ok_iff p f (x := t₁.X) (y := t₁.Y)).mpr hglyph₁
      obtain ⟨t₂, hshow⟩ : ∃ t₂, showChar p f ch t₁ = .ok t₂ := by
        rw [showChar, if_pos hx, hprint]
        exact ⟨_, rfl⟩
      have hX := (showChar_prop hx hshow).1
      subst ht₁
      have hX' : t₂.X = t.X + ((forceWidth f p.forceFixed g).xDelta + 1) := hX
      obtain ⟨t', hrest⟩ := hline t₂ (by omega)
      refine ⟨t', .cons hsize ?_ hshow hrest⟩
      show t.X + (forceWidth f p.forceFixed g).xDelta ≤ _
      omega

end Line

/-! ## The width and the advance -/

section Claim

variable {s : Screen} {p : Panel s} {f : Font} {st : List Byte} {x y : Int} {t : Pen}

theorem startX_nonneg (p : Panel s) (w x : Int) : 0 ≤ startX p w x := by
  have hcols := p.win.columns
  have hclip : ∀ z, 0 ≤ if z < p.win.x1 then p.win.x1 else z := by
    intro z
    split
    · exact hcols.1
    · omega
  exact hclip _

/-- A width that is small enough for an `int`. -/
theorem getStringWidth_cell (forceFixed : Byte) (hcell : f.bitmap = 2 ∨ f.x_size ≠ 0)
    (hsmall : f.cell * st.length < 2147483648) :
    getStringWidth f forceFixed st = .ok (f.cell * st.length : Nat) := by
  rw [getStringWidth, if_pos hcell, pure_eq_ok, BitVec.toInt_eq_toNat_of_lt]
  · rw [BitVec.toNat_ofNat, Nat.mod_eq_of_lt (by omega)]
  · rw [BitVec.toNat_ofNat, Nat.mod_eq_of_lt (by omega)]
    omega

/-- What is displayed in a line is no wider than the screen. -/
theorem InLine.small {w : Int} {t' : Pen} (hsel : f.Selected) (hx : f.x_size ≠ 0)
    (h : InLine p f st (startPen p f w x y t) t') : f.cell * st.length < 2147483648 := by
  have htmpw : (startPen p f w x y t).tmpw = f.cell := if_pos hx
  obtain ⟨hX, hlast, -⟩ := h.cells hsel hx htmpw
  cases st with
  | nil => exact Nat.lt_of_le_of_lt (Nat.le_of_eq (Nat.mul_zero _)) (by decide)
  | cons c st =>
    have hend := hlast (List.cons_ne_nil c st)
    have hstart : 0 ≤ (startPen p f w x y t).X := startX_nonneg p w x
    have hcols := p.win.columns
    have hwidth := s.width_bounds
    have hstep : f.cell ≤ f.step ∧ f.step ≤ f.cell + 2 := by
      unfold Font.step
      split <;> omega
    have hmono : (c :: st).length * f.cell ≤ (c :: st).length * f.step :=
      Nat.mul_le_mul_left _ hstep.1
    have hmono' : ((c :: st).length : Int) * f.cell ≤ (c :: st).length * f.step := by
      exact_mod_cast hmono
    have hsmall : (((c :: st).length * f.cell : Nat) : Int) < 2147483648 := by
      rw [Nat.cast_mul]
      omega
    rw [Nat.mul_comm]
    exact_mod_cast hsmall

/-- In one line, the cursor moves by the width just where the width is the one that is printed. -/
theorem Lined.advances_iff (hsel : f.Selected) (hst : ∀ c ∈ st, c ≠ 0x0D ∧ c ≠ 0x0A)
    (h : Lined p f st x y t) : Advances p f st x y t ↔ Measured f st := by
  obtain ⟨w, t', hw, hy, hline⟩ := h
  have hprint := Lined.prints hsel hst hw hy hline
  have hadv : Advances p f st x y t ↔ t'.X = startX p w x + w := by
    constructor
    · rintro ⟨w', t'', hw', hprint', hX⟩
      rw [hw] at hw'
      rw [hprint] at hprint'
      rwa [← Except.ok.inj hw', ← Except.ok.inj hprint'] at hX
    · exact fun hX => ⟨w, t', hw, hprint, hX⟩
  rw [hadv]
  have hstart : (startPen p f w x y t).X = startX p w x := rfl
  by_cases hx : f.x_size = 0
  · -- a proportional font
    have hone : f.bitmap = 1 := by
      rcases hsel with hone | ⟨-, hne⟩
      · exact hone
      · exact absurd hx hne
    have htwo : f.bitmap ≠ 2 := by
      rw [hone]
      decide
    obtain ⟨w', hw', -, hiff⟩ := hline.widths hx 0
    have hsame : getStringWidth f p.forceFixed st = .ok (0 + w') := by
      rw [getStringWidth, if_neg (not_or_intro htwo (not_not_intro hx)), hw']
    rw [hw] at hsame
    obtain rfl := Except.ok.inj hsame
    rw [Measured, if_neg htwo, if_pos hx, ← hiff, hstart]
    omega
  · have hsmall := hline.small hsel hx
    obtain ⟨hX, -, hchars⟩ := hline.cells hsel hx (if_pos hx)
    have hwidth := getStringWidth_cell p.forceFixed (.inr hx) hsmall
    rw [hw] at hwidth
    obtain rfl := Except.ok.inj hwidth
    rw [hX, hstart, Nat.cast_mul, Int.mul_comm]
    by_cases hone : f.bitmap = 1
    · -- a fixed font
      have htwo : f.bitmap ≠ 2 := by
        rw [hone]
        decide
      have hstep : f.step = f.cell := if_pos hone
      have hcell : f.cell = f.x_size.toNat := if_neg htwo
      rw [Measured, if_neg htwo, if_neg hx, hstep, ← hcell]
      exact iff_of_true rfl ⟨hsmall, hchars hone⟩
    · -- in 7 segments each character has two pixels more
      obtain ⟨htwo, -⟩ := hsel.resolve_left hone
      have hstep : f.step = f.cell + 2 := if_neg hone
      rw [Measured, if_pos htwo, hstep, Nat.cast_add, Int.mul_add, ← List.length_eq_zero_iff]
      push_cast
      omega

/-- A string that fits is displayed in the line, if its width is the one that is printed. -/
theorem Measured.lined (hsel : f.Selected) (h : Measured f st) (hfits : Fits p f st x y) :
    Lined p f st x y t := by
  unfold Measured at h
  by_cases htwo : f.bitmap = 2
  · rw [if_pos htwo] at h
    subst h
    have hw := getStringWidth_cell (f := f) p.forceFixed (.inl htwo)
      (Nat.lt_of_le_of_lt (Nat.le_of_eq (Nat.mul_zero _)) (by decide) :
        f.cell * ([] : List Byte).length < 2147483648)
    exact ⟨_, _, hw, (hfits _ hw).2, .nil _⟩
  · have hone : f.bitmap = 1 := hsel.resolve_right fun h => htwo h.1
    rw [if_neg htwo] at h
    by_cases hx : f.x_size = 0
    · rw [if_pos hx] at h
      obtain ⟨w, hadd, -, hline⟩ := inLine_prop (p := p) hx h 0
      have hw : getStringWidth f p.forceFixed st = .ok (0 + w) := by
        rw [getStringWidth, if_neg (not_or_intro htwo (not_not_intro hx)), hadd]
      obtain ⟨hroom, hy⟩ := hfits _ hw
      obtain ⟨t', hin⟩ := hline (startPen p f (0 + w) x y t) (by
        show startX p (0 + w) x + w ≤ _
        omega)
      exact ⟨_, t', hw, hy, hin⟩
    · rw [if_neg hx] at h
      obtain ⟨hsmall, hchars⟩ := h
      have hcell : f.cell = f.x_size.toNat := if_neg htwo
      rw [← hcell] at hsmall
      have hw := getStringWidth_cell p.forceFixed (.inr hx) hsmall
      obtain ⟨hroom, hy⟩ := hfits _ hw
      obtain ⟨t', hin⟩ := inLine_fixed (t := startPen p f (f.cell * st.length : Nat) x y t) hone hx
        hchars (if_pos hx) (by
          show startX p _ x + _ ≤ _
          rw [Int.mul_comm, ← Nat.cast_mul]
          exact hroom)
      exact ⟨_, t', hw, hy, hin⟩

/-- A string that fits is printed in its line with the width that was measured just where it is
    `Measured`, and so is every string that is displayed in one line. -/
theorem tftPrint_advances_iff (p : Panel s) (f : Font) (hsel : f.Selected) (st : List Byte)
    (hst : ∀ c ∈ st, c ≠ 0x0D ∧ c ≠ 0x0A) (x y : Int) (t : Pen) :
    (Fits p f st x y → (Lined p f st x y t ∧ Advances p f st x y t ↔ Measured f st)) ∧
      (Lined p f st x y t → (Advances p f st x y t ↔ Measured f st)) := by
  refine ⟨?_, fun hlined => hlined.advances_iff hsel hst⟩
  intro hfits
  constructor
  · rintro ⟨hlined, hadv⟩
    exact (hlined.advances_iff hsel hst).mp hadv
  · intro hmeasured
    have hlined : Lined p f st x y t := hmeasured.lined hsel hfits
    exact ⟨hlined, (hlined.advances_iff hsel hst).mpr hmeasured⟩

end Claim

/-- The whole of the first screen, and a transparent background. -/
def wholePanel : Panel Screen.initial :=
  ⟨tftSetclipwin Screen.initial 0 0 319 239, 0, 1, 0, 0x07E0, 0⟩

def penUp : Pen := ⟨0, 0, 0, firstChar, []⟩

/-- A proportional font of the letter A, which is one pixel. -/
def letterFont : Font :=
  ⟨[0, 8, 0, 0, 0x41, 0, 1, 1, 0, 2, 0x80, 0xFF], 0, 8, 0, 1, 1, 0⟩

/-- The letter twice. -/
theorem tftPrint_advances_iff_letter :
    (Fits wholePanel letterFont [0x41, 0x41] 0 0 →
        (Lined wholePanel letterFont [0x41, 0x41] 0 0 penUp ∧
          Advances wholePanel letterFont [0x41, 0x41] 0 0 penUp ↔
        Measured letterFont [0x41, 0x41])) ∧
      (Lined wholePanel letterFont [0x41, 0x41] 0 0 penUp →
        (Advances wholePanel letterFont [0x41, 0x41] 0 0 penUp ↔
          Measured letterFont [0x41, 0x41])) :=
  tftPrint_advances_iff wholePanel letterFont (.inl rfl) [0x41, 0x41] (by decide) 0 0 penUp

/-- The 7-segment font in its default size. -/
def sevenFont : Font := ⟨[], 12, 2, 0, 0, 2, 0x07E0⟩

/-- A single 1 in 7 segments is measured as 22 pixels and moves the cursor by 24. -/
theorem not_advances_seven : sevenFont.Selected ∧ Fits wholePanel sevenFont [0x31] 0 0 ∧
    Lined wholePanel sevenFont [0x31] 0 0 penUp ∧
    ¬ Advances wholePanel sevenFont [0x31] 0 0 penUp := by
  have hw : getStringWidth sevenFont wholePanel.forceFixed [0x31] = .ok 22 := rfl
  refine ⟨.inr ⟨rfl, by decide⟩, ?_, ?_, ?_⟩
  · intro w hw'
    rw [hw] at hw'
    obtain rfl := Except.ok.inj hw'
    decide
  · exact ⟨22, _, hw, by decide, .cons rfl (by decide) rfl (.nil _)⟩
  · rintro ⟨w, t', hw', hprint, hX⟩
    rw [hw] at hw'
    obtain rfl := Except.ok.inj hw'
    obtain ⟨t₁, hrun, hend⟩ : ∃ t₁, tftPrint wholePanel sevenFont [0x31] 0 0 penUp = .ok t₁ ∧
        t₁.X = 24 := ⟨_, rfl, rfl⟩
    rw [hrun] at hprint
    rw [← Except.ok.inj hprint, hend] at hX
    exact absurd hX (by decide)

end LuaRtos.Tft
