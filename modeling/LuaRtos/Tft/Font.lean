/-
  LuaRtos.Tft.Font

  The fonts of Lua/modules/screen/tft.c: the choice of a font, the characters of a proportional
  font, and the width of a string.

  A proportional font is a list of records behind four bytes: six bytes of a character and its
  packed pixels, up to the code 0xFF.  The pointer into the font is a `uint16_t`, and wraps.
  `Finds` is the walk to the record of a character.
-/

import Mathlib.Data.Fintype.Card
import LuaRtos.CLib.Cycle

namespace LuaRtos.Tft

open CLib

/-! ## The code -/

/-- `Font`.  The font is the block its pointer points to. -/
structure Font where
  font : List Byte
  x_size : Byte
  y_size : Byte
  offset : Byte
  numchars : BitVec 16
  bitmap : Byte
  color : BitVec 16

/-- `propFont`. -/
structure PropFont where
  charCode : Byte
  adjYOffset : Nat
  width : Nat
  height : Nat
  xOffset : Int
  xDelta : Nat
  dataPtr : BitVec 16
deriving DecidableEq, Repr

/-- The bytes of the packed pixels. -/
def PropFont.packed (g : PropFont) : Nat :=
  if g.width ≠ 0 then (g.width * g.height - 1) / 8 + 1 else 0

/-- The six bytes of a character.  `tempPtr` is kept in `dataPtr`, where it ends up. -/
def readGlyph (font : List Byte) (tempPtr : BitVec 16) : Result PropFont := do
  let charCode ← load font tempPtr.toNat
  let adjYOffset ← load font (tempPtr + 1).toNat
  let width ← load font (tempPtr + 2).toNat
  let height ← load font (tempPtr + 3).toNat
  let xOffset ← load font (tempPtr + 4).toNat
  let xDelta ← load font (tempPtr + 5).toNat
  pure ⟨charCode, adjYOffset.toNat, width.toNat, height.toNat,
    if xOffset.toNat < 0x80 then xOffset.toNat else 0x100 - xOffset.toNat, xDelta.toNat,
    tempPtr + 6⟩

/-- One record of the search in `getCharPtr`. -/
def charRound (font : List Byte) (c : Byte) (s : PropFont) : Result PropFont := do
  let g ← readGlyph font s.dataPtr
  if c ≠ g.charCode ∧ g.charCode ≠ 0xFF then
    pure { g with dataPtr := g.dataPtr + BitVec.ofNat 16 g.packed }
  else pure g

/-- `c != fontChar.charCode && fontChar.charCode != 0xFF` -/
def charGoes (c : Byte) (s : PropFont) : Bool := c != s.charCode && s.charCode != 0xFF

/-- The first record is behind four bytes. -/
def firstChar : PropFont := ⟨0, 0, 0, 0, 0, 0, 4⟩

/-- The width of a character when it is forced. -/
def forceWidth (f : Font) (forceFixed : Byte) (g : PropFont) : PropFont :=
  if 0 < forceFixed then
    -- fix width & offset for forced fixed width
    { g with xDelta := f.numchars.toNat, xOffset := Int.tdiv (f.numchars.toNat - g.width) 2 }
  else g

/-- `getCharPtr`, with `fontChar` and what it returns.  There are 65536 pointers to walk. -/
def getCharPtr (f : Font) (forceFixed : Byte) (c : Byte) : Result (PropFont × Bool) := do
  let s ← charRound f.font c firstChar
  let s ← whileLoop (charGoes c) (charRound f.font c) 65537 s
  let s := if c = s.charCode then forceWidth f forceFixed s else s
  pure (s, s.charCode != 0xFF)

/-- One record of `getMaxWidth`: the code, the width so far and the pointer. -/
def maxRound (font : List Byte) (s : Byte × Byte × BitVec 16) :
    Result (Byte × Byte × BitVec 16) := do
  let (_, w, tempPtr) := s
  let cc ← load font tempPtr.toNat
  let cw ← load font (tempPtr + 2).toNat
  let ch ← load font (tempPtr + 3).toNat
  let tempPtr := tempPtr + 6
  if cc ≠ 0xFF ∧ cw ≠ 0 then
    -- packed bits
    let size := (cw.toNat * ch.toNat - 1) / 8 + 1
    pure (cc, if w.toNat < cw.toNat then cw else w, tempPtr + BitVec.ofNat 16 size)
  else pure (cc, w, tempPtr)

/-- `getMaxWidth` -/
def getMaxWidth (font : List Byte) : Result Byte := do
  let s ← maxRound font (0, 0, 4)
  let (_, w, _) ← whileLoop (fun s => s.1 != 0xFF) (maxRound font) 65537 s
  pure w

def FONT_7SEG : Byte := 7

/-- The rest of `TFT_setFont`, for the font that was chosen. -/
def useFont (font : List Byte) (f : Font) : Result Font := do
  let x_size ← load font 0
  let y_size ← load font 1
  let offset ← load font 2
  let numchars ← (if x_size ≠ 0 then load font 3 else getMaxWidth font)
  pure { f with
    font := font, bitmap := 1, x_size := x_size, y_size := y_size, offset := offset,
    numchars := numchars.zeroExtend 16 }

/-- `TFT_setFont`.  `fonts` are the fonts that are built in and the one of the file, or the
    default one for it. -/
def tftSetFont (fonts : Byte → List Byte) (fg : BitVec 16) (font : Byte) (f : Font) :
    Result Font :=
  if font = FONT_7SEG then
    pure { f with font := [], bitmap := 2, x_size := 24, y_size := 6, offset := 0, color := fg }
  else useFont (fonts font) f

/-- The sizes of the bars, and the colour of their outline, in `tft_setfont`. -/
structure Bars where
  l : Byte
  w : Byte
  outline : Option (BitVec 16)

/-- `l` and `w` within their bounds. -/
def Bars.sizes (b : Bars) : Nat × Nat :=
  let l := min 40 (max 6 b.l.toNat)
  (l, min 12 (min (l / 2) (max 1 b.w.toNat)))

/-- `tft_setfont` -/
def tftSetfont (fonts : Byte → List Byte) (fg : BitVec 16) (fnt : Byte) (bars : Option Bars)
    (f : Font) : Result Font := do
  let f ← tftSetFont fonts fg fnt f
  if fnt = FONT_7SEG then
    match bars with
    | some b =>
      let f := { f with
        x_size := BitVec.ofNat 8 b.sizes.1, y_size := BitVec.ofNat 8 b.sizes.2, offset := 0,
        color := fg }
      match b.outline with
      | some color => if 1 < b.sizes.2 then pure { f with offset := 1, color := color } else pure f
      | none => pure f
    -- default size
    | none => pure { f with x_size := 12, y_size := 2 }
  else pure f

/-- The width of a character, for a font that is not proportional. -/
def Font.cell (f : Font) : Nat :=
  if f.bitmap = 2 then 2 * (2 * f.y_size.toNat + 1) + f.x_size.toNat else f.x_size.toNat

/-- The loop of `getStringWidth`. -/
def addWidths (f : Font) (forceFixed : Byte) : List Byte → Int → Result Int
  | [], strWidth => pure strWidth
  | c :: str, strWidth => do
    let (g, found) ← getCharPtr f forceFixed c
    addWidths f forceFixed str (if found then strWidth + (g.xDelta + 1) else strWidth)

/-- `getStringWidth`, for the characters before the final zero. -/
def getStringWidth (f : Font) (forceFixed : Byte) (str : List Byte) : Result Int :=
  if f.bitmap = 2 ∨ f.x_size ≠ 0 then
    pure (BitVec.ofNat 32 (f.cell * str.length)).toInt
  else addWidths f forceFixed str 0

/-! ## The records of a font -/

/-- The pointer behind a record. -/
def PropFont.next (g : PropFont) : BitVec 16 := g.dataPtr + BitVec.ofNat 16 g.packed

/-- The walk over the records from a pointer on comes to the one of the character. -/
inductive Finds (font : List Byte) (c : Byte) : BitVec 16 → PropFont → Prop
  | here {p : BitVec 16} {g : PropFont} (hread : readGlyph font p = .ok g) (hc : g.charCode = c)
      (hend : c ≠ 0xFF) : Finds font c p g
  | next {p : BitVec 16} {g g' : PropFont} (hread : readGlyph font p = .ok g)
      (hc : g.charCode ≠ c) (hend : g.charCode ≠ 0xFF) (hrest : Finds font c g.next g') :
      Finds font c p g'

section Search

variable {f : Font} {font : List Byte} {forceFixed c : Byte} {s s' g g' : PropFont}
  {p : BitVec 16}

theorem charRound_here (hread : readGlyph font s.dataPtr = .ok g)
    (hc : g.charCode = c ∨ g.charCode = 0xFF) : charRound font c s = .ok g := by
  have hstop : ¬ (c ≠ g.charCode ∧ g.charCode ≠ 0xFF) := by
    rintro ⟨hne, hend⟩
    rcases hc with hc | hc
    · exact hne hc.symm
    · exact hend hc
  rw [charRound, hread, ok_bind, if_neg hstop]
  rfl

theorem charRound_next (hread : readGlyph font s.dataPtr = .ok g) (hc : g.charCode ≠ c)
    (hend : g.charCode ≠ 0xFF) :
    charRound font c s = .ok { g with dataPtr := g.next } := by
  rw [charRound, hread, ok_bind, if_pos ⟨hc.symm, hend⟩]
  rfl

theorem charGoes_eq : charGoes c s = true ↔ c ≠ s.charCode ∧ s.charCode ≠ 0xFF := by
  rw [charGoes, Bool.and_eq_true, bne_iff_ne, bne_iff_ne]

theorem charGoes_done (h : s.charCode = c ∨ s.charCode = 0xFF) : charGoes c s = false := by
  rw [Bool.eq_false_iff]
  intro hgoes
  obtain ⟨hne, hend⟩ := charGoes_eq.mp hgoes
  rcases h with h | h
  · exact hne h.symm
  · exact hend h

/-- A record that is found is that of the character. -/
theorem Finds.charCode (h : Finds font c p g) : g.charCode = c ∧ c ≠ 0xFF := by
  induction h with
  | here hread hc hend => exact ⟨hc, hend⟩
  | next _ _ _ _ ih => exact ih

/-- The search comes to the record that the walk finds. -/
theorem Finds.ends (h : Finds font c p g) (s : PropFont) (hs : s.dataPtr = p) :
    ∃ s₁, charRound font c s = .ok s₁ ∧ Ends (charGoes c) (charRound font c) s₁ g := by
  induction h generalizing s with
  | here hread hc hend =>
    rw [← hs] at hread
    refine ⟨_, charRound_here hread (.inl hc), ?_⟩
    exact (Rounds.refl _).ends (charGoes_done (.inl hc))
  | @next _ g _ hread hc hend _ ih =>
    rw [← hs] at hread
    refine ⟨_, charRound_next hread hc hend, ?_⟩
    obtain ⟨s₁, hround, hends⟩ := ih { g with dataPtr := g.next } rfl
    obtain ⟨hrounds, hdone⟩ := hends.rounds
    have hgoes : charGoes c { g with dataPtr := g.next } = true :=
      charGoes_eq.mpr ⟨hc.symm, hend⟩
    exact (Rounds.head hgoes hround hrounds).ends hdone

/-- What the search comes to is what the walk finds. -/
theorem Finds.of_rounds {s₁ : PropFont} (hround : charRound font c s = .ok s₁)
    (h : Rounds (charGoes c) (charRound font c) s₁ s') (hdone : charGoes c s' = false)
    (hend : s'.charCode ≠ 0xFF) : Finds font c s.dataPtr s' := by
  induction h generalizing s with
  | refl s₁ =>
    obtain ⟨g, hread, hg⟩ := bind_eq_ok.mp hround
    split at hg
    next hnext =>
      obtain rfl := Except.ok.inj hg
      exact absurd (charGoes_eq.mpr hnext) (Bool.eq_false_iff.mp hdone)
    next hstop =>
      obtain rfl := Except.ok.inj hg
      have hc : g.charCode = c := by
        by_contra hc
        exact hstop ⟨Ne.symm hc, hend⟩
      exact .here hread hc (hc ▸ hend)
  | head hgoes hround' _ ih =>
    obtain ⟨g, hread, hg⟩ := bind_eq_ok.mp hround
    obtain ⟨hne, hcode⟩ := charGoes_eq.mp hgoes
    split at hg
    next hnext =>
      obtain rfl := Except.ok.inj hg
      exact .next hread hnext.1.symm hnext.2 (ih hround' hdone hend)
    next hstop =>
      obtain rfl := Except.ok.inj hg
      exact absurd ⟨hne, hcode⟩ hstop

/-- `getCharPtr` returns the record of a character of the font. -/
theorem getCharPtr_finds (f : Font) (forceFixed : Byte) (h : Finds f.font c 4 g) :
    getCharPtr f forceFixed c = .ok (forceWidth f forceFixed g, true) := by
  obtain ⟨s₁, hround, hends⟩ := h.ends firstChar rfl
  obtain ⟨hcode, hend⟩ := h.charCode
  have hloop : whileLoop (charGoes c) (charRound f.font c) 65537 s₁ = .ok g := by
    have hfuel : Fintype.card (Fin (2 ^ 16)) < 65537 := by
      rw [Fintype.card_fin]
      exact Nat.lt_succ_self _
    refine hends.whileLoop_card (fun s : PropFont => s.dataPtr.toFin) ?_ hfuel
    intro s t hsame
    rw [charRound, charRound, BitVec.toFin_inj.mp hsame]
  have hfound : (forceWidth f forceFixed g).charCode = c := by
    rw [← hcode]
    unfold forceWidth
    split <;> rfl
  rw [getCharPtr, hround, ok_bind, hloop, ok_bind, if_pos hcode.symm]
  show Except.ok _ = _
  rw [hfound, bne_iff_ne.mpr hend]

/-- A character that `getCharPtr` does not find has no record. -/
theorem getCharPtr_found {b : Bool} (h : getCharPtr f forceFixed c = .ok (g, b)) :
    b = true ↔ ∃ g, Finds f.font c 4 g := by
  constructor
  · intro hb
    obtain ⟨s₁, hround, h⟩ := bind_eq_ok.mp h
    obtain ⟨s, hloop, h⟩ := bind_eq_ok.mp h
    obtain ⟨hrounds, hdone⟩ := Ends.rounds ⟨_, hloop⟩
    obtain ⟨hg, hfound⟩ := Prod.mk.inj (Except.ok.inj h)
    rw [hg, hb, bne_iff_ne] at hfound
    refine ⟨s, Finds.of_rounds hround hrounds hdone ?_⟩
    rw [← hg] at hfound
    intro hcode
    apply hfound
    split
    · unfold forceWidth
      split <;> exact hcode
    · exact hcode
  · rintro ⟨g', hfinds⟩
    rw [getCharPtr_finds f forceFixed hfinds] at h
    exact (Prod.mk.inj (Except.ok.inj h)).2.symm

end Search

end LuaRtos.Tft
