/-
  LuaRtos.Tft.FontFile

  compile_font_file of Lua/modules/screen/tft.c.

  A pointer into the text of the font is the text from there to its end, so that of two pointers
  the one with the shorter text is the later one.  `text` is what stands between the `{` and the
  `};`.  The test of the font that was compiled, which only prints a line, is left out.
-/

import LuaRtos.CLib.File
import LuaRtos.CLib.Hex
import LuaRtos.CLib.Number
import LuaRtos.CLib.While

namespace LuaRtos.Tft

open CLib

/-! ## The code -/

/-- `strstr`, on the characters of a string. -/
def strstr (t : List Byte) : List Byte → Option (List Byte)
  | [] => none
  | c :: s => if t.isPrefixOf (c :: s) then some (c :: s) else strstr t s

/-- `fbuf` and `lastline`, the first `bptr` bytes of `outfile`, what was written to the file, and
    whether the `goto error` was taken. -/
structure FontScan where
  fbuf : List Byte
  lastline : Bool
  outfile : List Byte
  file : List Byte
  failed : Bool
deriving DecidableEq, Repr

/-- `strtol(hexstr, NULL, 0)` for the four characters from `0x` or `0X` on, as a `uint8_t`. -/
def hexByte (p : List Byte) : Byte := BitVec.ofNat 8 (scanX 2 0 ((p.take 4).drop 2)).1

section Code

variable (room : List Byte → List Byte → Nat)

/-- The literal at `numptr` is put into the buffer. -/
def takeLit (p : List Byte) (s : FontScan) : FontScan :=
  if 128 ≤ s.outfile.length then
    -- buffer full, write to file
    let (file, n) := fwrite room s.file (s.outfile.take 128)
    if n ≠ 128 then { s with file := file, failed := true }
    else { s with fbuf := p.drop 4, outfile := [hexByte p], file := file }
  else { s with fbuf := p.drop 4, outfile := s.outfile ++ [hexByte p] }

/-- `fbuf < nextline` -/
def lineGoes (nextline : List Byte) (s : FontScan) : Bool :=
  decide (nextline.length < s.fbuf.length) && !s.failed

/-- One round over a line. -/
def lineRound (nextline : List Byte) (s : FontScan) : Result FontScan :=
  let numptr := strstr (chars "0x") s.fbuf
  let numptr :=
    if numptr = none ∨ s.fbuf.length < nextline.length + 4 then strstr (chars "0X") s.fbuf
    else numptr
  match numptr with
  | some p =>
    if nextline.length + 4 ≤ p.length then pure (takeLit room p s)
    else pure { s with fbuf := nextline }
  | none => pure { s with fbuf := nextline }

def textGoes (s : FontScan) : Bool := decide (0 < s.fbuf.length) && !s.lastline && !s.failed

/-- The beginning of the next line, and whether there is none. -/
def nextLine (fbuf : List Byte) : List Byte × Bool :=
  match strstr (chars "\n") fbuf with
  | none => (fbuf.drop (fbuf.length - 1), true)
  | some p => (p.drop 1, false)

/-- One line. -/
def textRound (s : FontScan) : Result FontScan := do
  let (nextline, last) := nextLine s.fbuf
  let s ← whileLoop (lineGoes nextline) (lineRound room nextline) (s.fbuf.length + 1)
    { s with lastline := last }
  pure (if s.failed then s else { s with fbuf := nextline })

/-- The text from the first literal on. -/
def scanText (text : List Byte) : Result FontScan :=
  match strstr (chars "0x") text with
  | none => pure ⟨[], false, [], [], false⟩
  | some fbuf =>
    whileLoop textGoes (textRound room) (fbuf.length + 2) ⟨fbuf, false, [], [], false⟩

/-- The rest of the buffer, and the font ID: the contents of the file, unless a write fails. -/
def closeFont (s : FontScan) : Option (List Byte) :=
  let (file, n) := fwrite room s.file s.outfile
  if s.failed ∨ n ≠ s.outfile.length then none
  else
    let (file, n) := fwrite room file (chars "RPH_font")
    if n ≠ 8 then none else some file

/-- The buffer from `{` on, and the text up to `};`, of a source file that was read. -/
def fontText (src : List Byte) : Result (Option (List Byte)) := do
  let buf := src.takeWhile (· ≠ nul)
  match strstr (chars "\x7b") buf with
  -- `strstr` searches from NULL
  | none => throw .nullDeref
  | some fbuf =>
    let found := (strstr (chars "\x7d;") fbuf).filter fun fend => 22 ≤ fbuf.length - fend.length
    match found with
    | some fend => pure (some ((fbuf.take (fbuf.length - fend.length)).drop 1))
    -- `free(fbuf)` is only right for the start of the buffer
    | none => if fbuf.length = buf.length then pure none else throw .undefined

/-- The file system and the memory. -/
structure FontEnv where
  /-- The source file as `stat`, `fopen` and `fread` find it. -/
  stat : Option Nat
  source : Option (List Byte)
  create : Bool
  mem : Bool
  room : List Byte → List Byte → Nat

/-- `compile_font_file`: the name of the font file and its contents, or the text of the error. -/
def compileFontFile (env : FontEnv) (fontfile : List Byte) :
    Result (Except String (List Byte × List Byte)) :=
  let len := fontfile.length
  if len < 3 ∨ len > 125 ∨ fontfile.drop (len - 2) ≠ chars ".c" then
    pure (.error "not a .c file")
  else
    match env.stat, env.source with
    | none, _ => pure (.error "Error opening source file '%s'")
    | some _, none => pure (.error "Error opening source file '%s'")
    | some st_size, some content =>
      if env.create = false then pure (.error "error opening destination file")
      else if toInt32 st_size ≤ 0 then pure (.error "source file size error")
      else if env.mem = false then pure (.error "memory allocation error")
      else if (content.take st_size).length ≠ st_size then
        pure (.error "error reading from source file")
      else do
        match ← fontText (content.take st_size) with
        | none => pure (.error "wrong source file format")
        | some text =>
          let s ← scanText env.room text
          match closeFont env.room s with
          | none => pure (.error "error writing to destination file")
          | some file => pure (.ok (fontfile.take (len - 1) ++ chars "fon", file))

end Code

end LuaRtos.Tft
