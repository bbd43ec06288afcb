/-
  LuaRtos.Http.Message

  Responses of HTTP as bytes: the lines of the header, the declared length, and bodies in
  chunks.  Lines of a header that no part of this reads may have any form.
-/

import LuaRtos.CLib.Hex
import LuaRtos.CLib.Number

namespace LuaRtos.Http

open LuaRtos.CLib

def cr : Byte := 0x0d

def lf : Byte := 0x0a

/-- The end of a line. -/
def crlf : List Byte := [cr, lf]

/-! ## The header -/

/-- The lines up to the empty one, and what follows it; `line` is what has been read of the
    first. -/
def splitHeader (line : List Byte) : List Byte → Option (List (List Byte) × List Byte)
  | [] => none
  | 0x0d :: 0x0a :: rest =>
    if line = [] then some ([], rest)
    else (splitHeader [] rest).map fun r => (line :: r.1, r.2)
  | c :: rest => splitHeader (line ++ [c]) rest

/-- The value of a field in its line. -/
def fieldValue (field line : List Byte) : Option (List Byte) :=
  if field.isPrefixOf line then some (line.drop field.length) else none

/-- The declared length, of the first line that has one. -/
def contentLength (lines : List (List Byte)) : Option Nat :=
  (lines.findSome? (fieldValue (chars "Content-Length: "))).map digitsVal

/-- The body is in chunks. -/
def Chunked (lines : List (List Byte)) : Prop :=
  chars "Transfer-Encoding: chunked" ∈ lines

/-! ## The body -/

/-- Chunks of some bytes each, and exactly one of none, which is the last. -/
inductive Chunks : List Byte → Prop
  | last : Chunks (chars "0\r\n\r\n")
  | chunk {digits data rest : List Byte} (hdigits : digits ≠ [])
      (hsize : hexNat 0 digits = some data.length) (hdata : data ≠ []) (hrest : Chunks rest) :
      Chunks (digits ++ crlf ++ data ++ crlf ++ rest)

/-- The body is what the header says. -/
def BodyRight (lines : List (List Byte)) (body : List Byte) : Prop :=
  match contentLength lines with
  | some n => body.length = n
  | none => Chunked lines ∧ Chunks body

/-- The bytes are one complete response, and nothing more. -/
def OneResponse (out : List Byte) : Prop :=
  ∃ lines body, splitHeader [] out = some (lines, body) ∧
    (∃ line ∈ lines.head?, (chars "HTTP/1.1 ").isPrefixOf line) ∧ BodyRight lines body

/-! ## Reading what was written -/

theorem splitHeader_line {l : List Byte} (hl : cr ∉ l) (line rest : List Byte) :
    splitHeader line (l ++ crlf ++ rest) =
      if line ++ l = [] then some ([], rest)
      else (splitHeader [] rest).map fun r => ((line ++ l) :: r.1, r.2) := by
  induction l generalizing line with
  | nil =>
    rw [List.append_nil]
    rfl
  | cons c l ih =>
    have hc : c ≠ cr := fun h => hl (by rw [h]; exact List.mem_cons_self)
    have hstep : splitHeader line (c :: (l ++ crlf ++ rest)) =
        splitHeader (line ++ [c]) (l ++ crlf ++ rest) := by
      rw [splitHeader]
      intro rest' heq
      exact absurd heq hc
    rw [List.cons_append, List.cons_append, hstep, ih fun h => hl (List.mem_cons_of_mem c h),
      List.append_assoc line [c] l]
    rfl

/-- A line that is not empty is the first of the header. -/
theorem splitHeader_cons {l : List Byte} (hl : cr ∉ l) (hne : l ≠ []) (rest : List Byte) :
    splitHeader [] (l ++ crlf ++ rest) =
      (splitHeader [] rest).map fun r => (l :: r.1, r.2) := by
  rw [splitHeader_line hl, List.nil_append, if_neg hne]

theorem splitHeader_nil (rest : List Byte) :
    splitHeader [] (crlf ++ rest) = some ([], rest) := rfl

/-- The lines of a header are read back. -/
theorem splitHeader_flatMap {lines : List (List Byte)} (hcr : ∀ l ∈ lines, cr ∉ l)
    (hne : ∀ l ∈ lines, l ≠ []) (body : List Byte) :
    splitHeader [] (lines.flatMap (fun l => l ++ crlf) ++ crlf ++ body) = some (lines, body) := by
  induction lines with
  | nil => exact splitHeader_nil body
  | cons l lines ih =>
    rw [List.flatMap_cons, List.append_assoc, List.append_assoc (l ++ crlf),
      splitHeader_cons (hcr l List.mem_cons_self) (hne l List.mem_cons_self),
      ← List.append_assoc, ih (fun l' h => hcr l' (List.mem_cons_of_mem l h))
        fun l' h => hne l' (List.mem_cons_of_mem l h)]
    rfl

/-- A chunk begins with a digit. -/
theorem Chunks.head {c : Byte} {rest : List Byte} (h : Chunks (c :: rest)) :
    ∃ d, hexVal c = some d := by
  generalize hs : c :: rest = s at h
  cases h with
  | last =>
    cases hs
    exact ⟨0, rfl⟩
  | chunk hdigits hsize hdata hrest =>
    obtain ⟨c', digits, rfl⟩ := List.exists_cons_of_ne_nil hdigits
    cases hs
    rw [hexNat, Option.bind_eq_some_iff] at hsize
    obtain ⟨d, hd, -⟩ := hsize
    exact ⟨d, hd⟩

theorem Chunks.ne_nil {s : List Byte} (h : Chunks s) : s ≠ [] := by
  cases h with
  | last => decide
  | chunk hdigits hsize hdata hrest => simp [crlf]

end LuaRtos.Http
