/-
  LuaRtos.Tft.Print

  TFT_print of Lua/modules/screen/tft.c, for text that is not rotated.

  What is drawn is the list of the calls to the drawing functions.  The pixels of a glyph are
  numbered row by row.  `Lined` is a string whose characters are all displayed in the line in which
  it starts, and `Advances` that the cursor ends one width of the string further.
-/

import LuaRtos.Tft.Clip
import LuaRtos.Tft.Font

namespace LuaRtos.Tft

open CLib

/-! ## The code -/

/-- A call to a drawing function. -/
inductive Draw where
  | drawPixel (x y color : BitVec 16)
  | fillRect (x y w h color : BitVec 16)
  | drawRect (x y w h color : BitVec 16)
  | fillTriangle (x0 y0 x1 y1 x2 y2 color : BitVec 16)
  | drawTriangle (x0 y0 x1 y1 x2 y2 color : BitVec 16)
deriving DecidableEq, Repr

/-- The settings of the module. -/
structure Panel (s : Screen) where
  win : DispWin s
  wrap : Byte
  transparent : Byte
  forceFixed : Byte
  fg : BitVec 16
  bg : BitVec 16

/-- `TFT_X`, `TFT_Y`, `fontChar`, the `tmpw` of `TFT_print`, and what was drawn. -/
structure Pen where
  X : Int
  Y : Int
  tmpw : Int
  fontChar : PropFont
  draws : List Draw

/-- A coordinate as an argument of a drawing function. -/
abbrev coord (z : Int) : BitVec 16 := BitVec.ofInt 16 z

/-- `mask`, `ch` and `fontChar.dataPtr` while a glyph is drawn. -/
structure GlyphPen where
  mask : Byte
  ch : Byte
  dataPtr : BitVec 16
  draws : List Draw

section Code

variable {s : Screen} (p : Panel s) (f : Font)

/-- Pixel `k` of the glyph, in column `k % width` of row `k / width`. -/
def glyphPixel (g : PropFont) (x y : Int) (t : GlyphPen) (k : Nat) : Result GlyphPen := do
  let t ← (if k % 8 = 0 then do
      let ch ← load f.font t.dataPtr.toNat
      pure { t with mask := 0x80, ch := ch, dataPtr := t.dataPtr + 1 }
    else pure t)
  let cx := x + g.xOffset + k % g.width
  let cy := y + k / g.width + g.adjYOffset
  let draws := if t.ch &&& t.mask ≠ 0 then [.drawPixel (coord cx) (coord cy) p.fg] else []
  pure { t with mask := t.mask >>> 1, draws := t.draws ++ draws }

/-- `printProportionalChar`: what is drawn, and `fontChar.dataPtr` behind the glyph. -/
def printProportionalChar (g : PropFont) (x y : Int) : Result GlyphPen :=
  -- fill background if not transparent background
  let back := if p.transparent = 0 then
      [.fillRect (coord x) (coord y) (coord (g.xDelta + 1)) (coord f.y_size.toNat) p.bg]
    else []
  -- draw Glyph
  (List.range (g.width * g.height)).foldlM (glyphPixel p f g x y) ⟨0x80, 0, g.dataPtr, back⟩

/-- `fz`, the bytes per character row. -/
def Font.rowBytes : Nat :=
  if f.x_size.toNat % 8 ≠ 0 then f.x_size.toNat / 8 + 1 else f.x_size.toNat / 8

/-- The eight pixels of byte `k` of row `j`. -/
def rowPixels (x y : Int) (j k : Nat) (ch : Byte) : List Draw :=
  (List.range 8).flatMap fun i =>
    if ch &&& (0x80 >>> i) ≠ 0 then
      [.drawPixel (coord (x + i + k * 8)) (coord (y + j)) p.fg]
    else []

/-- Byte `k` of row `j`. -/
def charByte (x y : Int) (temp : BitVec 16) (j : Nat) (draws : List Draw) (k : Nat) :
    Result (List Draw) := do
  let ch ← load f.font (temp.toNat + k)
  pure (draws ++ rowPixels p x y j k ch)

/-- Row `j`. -/
def charRow (x y : Int) (t : BitVec 16 × List Draw) (j : Nat) :
    Result (BitVec 16 × List Draw) := do
  let draws ← (List.range f.rowBytes).foldlM (charByte p f x y t.1 j) t.2
  pure (t.1 + BitVec.ofNat 16 f.rowBytes, draws)

/-- The address of a character. -/
def Font.charAddr (c : Byte) : BitVec 16 :=
  BitVec.ofInt 16 ((c.toNat - f.offset.toNat : Int) * (f.rowBytes * f.y_size.toNat) + 4)

/-- `printChar` -/
def printChar (c : Byte) (x y : Int) : Result (List Draw) := do
  -- fill background if not transparent background
  let back := if p.transparent = 0 then
      [.fillRect (coord x) (coord y) (coord f.x_size.toNat) (coord f.y_size.toNat) p.bg]
    else []
  let t ← (List.range f.y_size.toNat).foldlM (charRow p f x y) (f.charAddr c, back)
  pure t.2

/-- `font_bcd` -/
def fontBcd : List (BitVec 16) :=
  [0x200, 0x080, 0x06C, 0x05f, 0x005, 0x076, 0x075, 0x02d, 0x079, 0x07b, 0x045, 0x07f, 0x07d,
    0x900]

/-- `barVert` -/
def barVert (x y w l color : BitVec 16) : List Draw :=
  [.fillTriangle (x + 1) (y + 2 * w) (x + w) (y + w + 1) (x + 2 * w - 1) (y + 2 * w) color,
    .fillTriangle (x + 1) (y + 2 * w + l + 1) (x + w) (y + 3 * w + l) (x + 2 * w - 1)
      (y + 2 * w + l + 1) color,
    .fillRect x (y + 2 * w + 1) (2 * w + 1) l color] ++
  if f.offset ≠ 0 ∧ color ≠ p.bg then
    [.drawTriangle (x + 1) (y + 2 * w) (x + w) (y + w + 1) (x + 2 * w - 1) (y + 2 * w) f.color,
      .drawTriangle (x + 1) (y + 2 * w + l + 1) (x + w) (y + 3 * w + l) (x + 2 * w - 1)
        (y + 2 * w + l + 1) f.color,
      .drawRect x (y + 2 * w + 1) (2 * w + 1) l f.color]
  else []

/-- `barHor` -/
def barHor (x y w l color : BitVec 16) : List Draw :=
  [.fillTriangle (x + 2 * w) (y + 2 * w - 1) (x + w + 1) (y + w) (x + 2 * w) (y + 1) color,
    .fillTriangle (x + 2 * w + l + 1) (y + 2 * w - 1) (x + 3 * w + l) (y + w)
      (x + 2 * w + l + 1) (y + 1) color,
    .fillRect (x + 2 * w + 1) y l (2 * w + 1) color] ++
  if f.offset ≠ 0 ∧ color ≠ p.bg then
    [.drawTriangle (x + 2 * w) (y + 2 * w - 1) (x + w + 1) (y + w) (x + 2 * w) (y + 1) f.color,
      .drawTriangle (x + 2 * w + l + 1) (y + 2 * w - 1) (x + 3 * w + l) (y + w)
        (x + 2 * w + l + 1) (y + 1) f.color,
      .drawRect (x + 2 * w + 1) y l (2 * w + 1) f.color]
  else []

/-- The points of `TFT_draw7seg`: the bit, and the rectangle. -/
def segPoints (x y w l d : BitVec 16) :
    List (BitVec 16 × BitVec 16 × BitVec 16 × BitVec 16 × BitVec 16) :=
  [(0x080, x + d / 2, y + 2 * d, 2 * w + 1, 2 * w + 1),            -- low point
    (0x100, x + d / 2, y + d + 2 * w + 1, 2 * w + 1, l / 2),       -- down middle point
    (0x800, x + d / 2, y + 2 * w + 1 + l / 2, 2 * w + 1, l / 2),   -- up middle point
    (0x200, x + 2 * w + 1, y + d, l, 2 * w + 1)]                   -- middle, minus

/-- The bars of `TFT_draw7seg`: the bit, and the bar in a colour. -/
def segBars (x y w l d : BitVec 16) : List (BitVec 16 × (BitVec 16 → List Draw)) :=
  [(0x001, barVert p f (x + d) (y + d) w l),   -- down right
    (0x002, barVert p f x (y + d) w l),        -- down left
    (0x004, barVert p f (x + d) y w l),        -- up right
    (0x008, barVert p f x y w l),              -- up left
    (0x010, barHor p f x (y + 2 * d) w l),     -- down
    (0x020, barHor p f x (y + d) w l),         -- middle
    (0x040, barHor p f x y w l)]               -- up

/-- `TFT_draw7seg` -/
def tftDraw7seg (x y : BitVec 16) (num : Byte) (w l color : BitVec 16) : List Draw :=
  if num.toInt < 0x2D ∨ num.toInt > 0x3A then []
  else
    let c := fontBcd.getD (num.toNat - 0x2D) 0
    let d := 2 * w + l + 1
    ((segBars p f x y w l d).flatMap fun (bit, bar) => if c &&& bit = 0 then bar p.bg else []) ++
    ((segPoints x y w l d).flatMap fun (bit, x, y, w, h) =>
      -- the low point and the minus are not erased
      if c &&& bit = 0 ∧ (bit = 0x100 ∨ bit = 0x800) then [.fillRect x y w h p.bg] else []) ++
    ((segBars p f x y w l d).flatMap fun (bit, bar) => if c &&& bit ≠ 0 then bar color else []) ++
    ((segPoints x y w l d).flatMap fun (bit, x, y, w, h) =>
      if c &&& bit ≠ 0 then
        .fillRect x y w h color :: if f.offset ≠ 0 then [.drawRect x y w h f.color] else []
      else [])

def RIGHT : Int := -4

def CENTER : Int := -3

def BOTTOM : Int := -4

/-- The height of a line. -/
def Font.lineHeight : Nat :=
  if f.x_size ≠ 0 ∧ f.bitmap = 2 then 3 * (2 * f.y_size.toNat + 1) + 2 * f.x_size.toNat
  else f.y_size.toNat

/-- Where a string of the width starts, in `TFT_print`. -/
def startX (tmpw x : Int) : Int :=
  let x := if x = RIGHT then p.win.x2 - tmpw - 1 else x
  let x := if x = CENTER then Int.tdiv (p.win.x2 - tmpw - 1) 2 else x
  if x < p.win.x1 then p.win.x1 else x

def startY (fh y : Int) : Int :=
  let y := if y = BOTTOM then p.win.y2 - fh - 1 else y
  let y := if y = CENTER then Int.tdiv (p.win.y2 - Int.tdiv fh 2 - 1) 2 else y
  if y < p.win.y1 then p.win.y1 else y

/-- For a proportional font, the width of the character. -/
def sizeChar (ch : Byte) (t : Pen) : Result Pen :=
  if f.x_size = 0 then do
    let (g, found) ← getCharPtr f p.forceFixed ch
    pure { t with fontChar := g, tmpw := if found then g.xDelta else t.tmpw }
  else pure t

/-- The character that is printed for a character, with a fixed font. -/
def Font.shown (ch : Byte) : Byte :=
  if ch < f.offset ∨ ch.toNat - f.offset.toNat > f.numchars.toNat then f.offset else ch

/-- The character is printed at the cursor. -/
def showChar (ch : Byte) (t : Pen) : Result Pen :=
  if f.x_size = 0 then do
    -- == proportional font
    let r ← printProportionalChar p f t.fontChar t.X t.Y
    pure { t with
      X := t.X + (t.fontChar.xDelta + 1), fontChar := { t.fontChar with dataPtr := r.dataPtr },
      draws := t.draws ++ r.draws }
  else if f.bitmap = 1 then do
    -- == fixed font
    let draws ← printChar p f (f.shown ch) t.X t.Y
    pure { t with X := t.X + t.tmpw, draws := t.draws ++ draws }
  else if f.bitmap = 2 then
    -- 7-seg font
    let draws := tftDraw7seg p f (coord t.X) (coord t.Y) ch (f.y_size.zeroExtend 16)
      (f.x_size.zeroExtend 16) p.fg
    pure { t with X := t.X + (t.tmpw + 2), draws := t.draws ++ draws }
  else pure t

/-- `\r`: erase to eol. -/
def eraseLine (t : Pen) : Pen :=
  if p.transparent = 0 then
    { t with draws := t.draws ++ [.fillRect (coord t.X) (coord t.Y)
      (coord (p.win.x2 + 1 - t.X)) (coord f.lineHeight) p.bg] }
  else t

/-- The next line, unless it is not in the window. -/
def newLine (t : Pen) : Pen × Bool :=
  let t := { t with Y := t.Y + f.lineHeight }
  if t.Y > p.win.y2 - f.lineHeight then (t, false) else ({ t with X := p.win.x1 }, true)

/-- The loop of `TFT_print`. -/
def printChars : List Byte → Pen → Result Pen
  | [], t => pure t
  | ch :: st, t => do
    let t ← sizeChar p f ch t
    if ch = 0x0D then printChars st (eraseLine p f t)
    else if ch = 0x0A then
      if f.bitmap = 1 then
        let (t, more) := newLine p f t
        if more then printChars st t else pure t
      else printChars st t
    -- check if character can be displayed in the current line
    else if t.X + t.tmpw > p.win.x2 + 1 then
      if p.wrap = 0 then pure t
      else
        let (t, more) := newLine p f t
        if more then do
          let t ← showChar p f ch t
          printChars st t
        else pure t
    else do
      let t ← showChar p f ch t
      printChars st t

/-- The pen before the first character of a string of the width. -/
def startPen (tmpw x y : Int) (t : Pen) : Pen :=
  { t with
    X := startX p tmpw x, Y := startY p f.lineHeight y,
    tmpw := if f.x_size ≠ 0 then f.cell else tmpw }

/-- `TFT_print` -/
def tftPrint (st : List Byte) (x y : Int) (t : Pen) : Result Pen :=
  -- wrong font selected
  if f.bitmap = 0 then pure t
  else do
    let tmpw ← getStringWidth f p.forceFixed st
    let t := startPen p f tmpw x y t
    if t.Y + f.lineHeight - 1 > p.win.y2 then pure t else printChars p f st t

end Code

/-! ## The glyphs -/

/-- The pixels of the record are in the font. -/
def GlyphIn (font : List Byte) (g : PropFont) : Prop :=
  ∀ k < g.width * g.height, (g.dataPtr + BitVec.ofNat 16 (k / 8)).toNat < font.length

/-- The rows of the character are in the font. -/
def CharIn (f : Font) (c : Byte) : Prop :=
  ∀ j < f.y_size.toNat, ∀ k < f.rowBytes,
    (f.charAddr c + BitVec.ofNat 16 (j * f.rowBytes)).toNat + k < f.font.length

section Glyphs

variable {s : Screen} (p : Panel s) (f : Font)

theorem load_ok_iff {block : List Byte} {i : Nat} :
    (∃ c, load block i = .ok c) ↔ i < block.length := by
  constructor
  · rintro ⟨c, hload⟩
    by_contra hle
    rw [load, List.getElem?_eq_none (Nat.le_of_not_lt hle)] at hload
    cases hload
  · intro hlt
    rw [load, List.getElem?_eq_getElem hlt]
    exact ⟨_, rfl⟩

/-- A byte is read for the first of eight pixels. -/
theorem glyphPixel_read {g : PropFont} {x y : Int} {t t' : GlyphPen} {k : Nat}
    (h : glyphPixel p f g x y t k = .ok t') :
    (k % 8 = 0 → t.dataPtr.toNat < f.font.length) ∧
      t'.dataPtr = if k % 8 = 0 then t.dataPtr + 1 else t.dataPtr := by
  obtain ⟨t₁, hread, hdraw⟩ := bind_eq_ok.mp h
  have hptr : t'.dataPtr = t₁.dataPtr := by
    rw [← Except.ok.inj hdraw]
  rw [hptr]
  split at hread
  next hk =>
    obtain ⟨ch, hload, hset⟩ := bind_eq_ok.mp hread
    rw [if_pos hk, ← Except.ok.inj hset]
    exact ⟨fun _ => load_ok_iff.mp ⟨ch, hload⟩, rfl⟩
  next hk =>
    rw [if_neg hk, ← Except.ok.inj hread]
    exact ⟨fun h => absurd h hk, rfl⟩

theorem glyphPixel_ok_iff {g : PropFont} {x y : Int} {t : GlyphPen} {k : Nat} :
    (∃ t', glyphPixel p f g x y t k = .ok t') ↔
      (k % 8 = 0 → t.dataPtr.toNat < f.font.length) := by
  constructor
  · rintro ⟨t', h⟩
    exact (glyphPixel_read p f h).1
  · intro hin
    unfold glyphPixel
    by_cases hk : k % 8 = 0
    · obtain ⟨ch, hload⟩ := load_ok_iff.mpr (hin hk)
      rw [if_pos hk, hload]
      exact ⟨_, rfl⟩
    · rw [if_neg hk]
      exact ⟨_, rfl⟩

/-- A glyph is drawn just where its pixels are in the font. -/
theorem printProportionalChar_ok_iff {g : PropFont} {x y : Int} :
    (∃ r, printProportionalChar p f g x y = .ok r) ↔ GlyphIn f.font g := by
  have hruns : ∀ t : GlyphPen, t.dataPtr = g.dataPtr →
      ((∃ t', (List.range (g.width * g.height)).foldlM (glyphPixel p f g x y) t = .ok t') ↔
        ∀ k < g.width * g.height, k % 8 = 0 →
          (g.dataPtr + BitVec.ofNat 16 (k / 8)).toNat < f.font.length) := by
    intro t ht
    -- before pixel `k` the bytes of the pixels before it are read
    refine (forLoop_ok_iff (fun k t => t.dataPtr = g.dataPtr + BitVec.ofNat 16 ((k + 7) / 8)) _
      ?_ ?_ ?_ _).1
    · intro k t ht
      rw [glyphPixel_ok_iff, ht]
      constructor
      · intro hin hk
        rw [show k / 8 = (k + 7) / 8 by omega]
        exact hin hk
      · intro hin hk
        rw [show (k + 7) / 8 = k / 8 by omega]
        exact hin hk
    · intro k t t' ht hstep
      rw [(glyphPixel_read p f hstep).2, ht]
      by_cases hk : k % 8 = 0
      · rw [if_pos hk, show (k + 1 + 7) / 8 = (k + 7) / 8 + 1 by omega, BitVec.add_assoc,
          BitVec.ofNat_add]
        rfl
      · rw [if_neg hk, show (k + 1 + 7) / 8 = (k + 7) / 8 by omega]
    · rw [ht]
      exact (BitVec.add_zero _).symm
  rw [printProportionalChar, hruns _ rfl]
  constructor
  · intro hin k hk
    -- the first pixel of the byte
    have hfirst := hin (k / 8 * 8) (by omega) (by omega)
    rwa [Nat.mul_div_cancel _ (by decide)] at hfirst
  · intro hin k hk _
    exact hin k hk

/-- A row of a character is drawn just where its bytes are in the font. -/
theorem charRow_ok_iff {x y : Int} {t : BitVec 16 × List Draw} {j : Nat} :
    (∃ t', charRow p f x y t j = .ok t') ↔
      ∀ k < f.rowBytes, t.1.toNat + k < f.font.length := by
  have hruns : (∃ draws, (List.range f.rowBytes).foldlM (charByte p f x y t.1 j) t.2 =
      .ok draws) ↔ ∀ k < f.rowBytes, t.1.toNat + k < f.font.length := by
    refine (forLoop_ok_iff (fun _ _ => True) _ ?_ (fun _ _ _ _ _ => trivial) trivial _).1
    intro k draws _
    rw [← load_ok_iff]
    constructor
    · rintro ⟨d, h⟩
      obtain ⟨ch, hload, -⟩ := bind_eq_ok.mp h
      exact ⟨ch, hload⟩
    · rintro ⟨ch, hload⟩
      exact ⟨_, bind_eq_ok.mpr ⟨ch, hload, rfl⟩⟩
  rw [← hruns]
  constructor
  · rintro ⟨t', h⟩
    obtain ⟨draws, hrow, -⟩ := bind_eq_ok.mp h
    exact ⟨draws, hrow⟩
  · rintro ⟨draws, hrow⟩
    exact ⟨_, bind_eq_ok.mpr ⟨draws, hrow, rfl⟩⟩

theorem charRow_addr {x y : Int} {t t' : BitVec 16 × List Draw} {j : Nat}
    (h : charRow p f x y t j = .ok t') : t'.1 = t.1 + BitVec.ofNat 16 f.rowBytes := by
  obtain ⟨draws, -, hset⟩ := bind_eq_ok.mp h
  rw [← Except.ok.inj hset]

/-- A character is drawn just where its rows are in the font. -/
theorem printChar_ok_iff {c : Byte} {x y : Int} :
    (∃ draws, printChar p f c x y = .ok draws) ↔ CharIn f c := by
  have hruns : ∀ t : BitVec 16 × List Draw, t.1 = f.charAddr c →
      ((∃ t', (List.range f.y_size.toNat).foldlM (charRow p f x y) t = .ok t') ↔
        CharIn f c) := by
    intro t ht
    refine (forLoop_ok_iff (fun j t => t.1 = f.charAddr c + BitVec.ofNat 16 (j * f.rowBytes)) _
      ?_ ?_ ?_ _).1
    · intro j t ht
      rw [charRow_ok_iff, ht]
    · intro j t t' ht hstep
      rw [charRow_addr p f hstep, ht, Nat.succ_mul, BitVec.ofNat_add, BitVec.add_assoc]
    · rw [ht, Nat.zero_mul]
      exact (BitVec.add_zero _).symm
  rw [← hruns (f.charAddr c, _) rfl]
  constructor
  · rintro ⟨draws, h⟩
    obtain ⟨t', hrows, -⟩ := bind_eq_ok.mp h
    exact ⟨t', hrows⟩
  · rintro ⟨t', hrows⟩
    exact ⟨_, bind_eq_ok.mpr ⟨t', hrows, rfl⟩⟩

end Glyphs

end LuaRtos.Tft
