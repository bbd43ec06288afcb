/-
  LuaRtos.Lora.HexPad

  `hex_str_pad` of Lua/modules/lora.c on any Lua string, which may hold zero bytes: it pads
  nothing, and is right only where there is nothing to pad.
-/

import LuaRtos.Lora.Config

namespace LuaRtos.Lora

open LuaRtos.CLib

section LuaString

variable {s : List Byte}

theorem nul_notMem_takeWhile (s : List Byte) : nul ∉ s.takeWhile fun c => c ≠ nul := by
  intro hmem
  have hall := List.all_takeWhile (p := fun c : Byte => decide (c ≠ nul)) (l := s)
  exact of_decide_eq_true (List.all_eq_true.mp hall nul hmem) rfl

/-- A Lua string as the C code sees it, up to its first zero byte. -/
def cString (s : List Byte) : CString where
  chars := s.takeWhile fun c => c ≠ nul
  noNul := nul_notMem_takeWhile s

/-- A Lua string in memory. -/
theorem luaString_split (s : List Byte) :
    ∃ post, s ++ [nul] = (cString s).chars ++ nul :: post := by
  induction s with
  | nil => exact ⟨[], rfl⟩
  | cons c s ih =>
    obtain ⟨post, hpost⟩ := ih
    by_cases hc : c = nul
    · subst hc
      exact ⟨s ++ [nul], rfl⟩
    · refine ⟨post, ?_⟩
      have hchars : (cString (c :: s)).chars = c :: (cString s).chars := by
        show (c :: s).takeWhile (fun c => c ≠ nul) = _
        rw [List.takeWhile_cons, if_pos (decide_eq_true hc)]
        rfl
      rw [hchars, List.cons_append, hpost]
      rfl

theorem cString_chars (hs : nul ∉ s) : (cString s).chars = s := by
  obtain ⟨post, hpost⟩ := luaString_split s
  have hread := readStr_append hs []
  rw [hpost, readStr_append (cString s).noNul] at hread
  exact Except.ok.inj hread

theorem mem_of_cString {c : Byte} (h : c ∈ (cString s).chars) : c ∈ s :=
  (List.takeWhile_sublist _).subset h

theorem length_cString_lt (hs : nul ∈ s) : (cString s).chars.length < s.length := by
  have hle : (cString s).chars.length ≤ s.length := (List.takeWhile_sublist _).length_le
  rcases Nat.lt_or_eq_of_le hle with hlt | heq
  · exact hlt
  · -- a text of the same length is the whole string
    have hsame : (cString s).chars = s := (List.takeWhile_sublist _).eq_of_length heq
    rw [← hsame] at hs
    exact absurd hs (nul_notMem_takeWhile _)

end LuaString

section Pad

variable {malloc : Malloc} {s : List Byte} {len : Nat}

/-- An error with its reason in the arguments or the memory, or the string padded to the length
    asked for. -/
def PadsOrFails (malloc : Malloc) (s : List Byte) (len : Nat) : Prop :=
  ∃ r, hexStrPad malloc (s ++ [nul]) len = .ok r ∧
    (∀ error, r = .error error →
      s.all isHexDigit = false ∨ len < s.length ∨ malloc (len + 1) = none) ∧
    ∀ tmp, r = .ok tmp →
      s.all isHexDigit = true ∧ s.length ≤ len ∧ tmp = padHex len s ++ [nul]

/-- The string is padded, or an error raised, exactly when there is a character before the first
    zero byte that is no digit, or no memory, or nothing to pad. -/
theorem hexStrPad_right (malloc : Malloc) (s : List Byte) (len : Nat) :
    PadsOrFails malloc s len ↔
      (cString s).chars.all isHexDigit = false ∨ malloc (len + 1) = none ∨
        nul ∉ s ∧ s.length = len := by
  obtain ⟨post, hpost⟩ := luaString_split s
  by_cases hrefused : Refused malloc len (cString s)
  · obtain ⟨error, hpad⟩ := hexStrPad_refused hrefused post
    rw [← hpost] at hpad
    refine iff_of_true ⟨.error error, hpad, fun _ _ => ?_, fun tmp h => ?_⟩ ?_
    · refine hrefused.imp (fun hbad => ?_) .inr
      rw [List.all_eq_false] at hbad ⊢
      obtain ⟨c, hmem, hc⟩ := hbad
      exact ⟨c, mem_of_cString hmem, hc⟩
    · cases h
    · exact hrefused.imp_right .inl
  · have hnot : ¬ ((cString s).chars.all isHexDigit = false ∨ malloc (len + 1) = none) := hrefused
    obtain ⟨hhex, -⟩ := not_refused hrefused
    rw [← or_assoc, or_iff_right hnot]
    by_cases hlen : (cString s).chars.length = len
    · have hpad := hexStrPad_full hrefused hlen post
      rw [← hpost] at hpad
      constructor
      · rintro ⟨r, hr, -, hvalue⟩
        rw [hpad] at hr
        cases hr
        obtain ⟨-, hle, -⟩ := hvalue _ rfl
        have hs : nul ∉ s := by
          intro hmem
          have hlt := length_cString_lt hmem
          omega
        exact ⟨hs, by rw [← hlen, cString_chars hs]⟩
      · rintro ⟨hs, hfull⟩
        refine ⟨_, hpad, fun error h => ?_, fun tmp h => ?_⟩
        · cases h
        cases h
        rw [cString_chars hs] at hhex
        refine ⟨hhex, Nat.le_of_eq hfull, ?_⟩
        rw [CString.block, cString_chars hs, padHex_full hfull]
    · refine iff_of_false ?_ ?_
      · rintro ⟨r, hr, -⟩
        rw [hpost] at hr
        exact hexStrPad_fault hrefused hlen post r hr
      · rintro ⟨hs, hfull⟩
        rw [cString_chars hs] at hlen
        exact hlen hfull

/-- One digit to be padded to eight. -/
theorem not_padsOrFails_short : ¬ PadsOrFails plenty [0x31] 8 := by
  rintro ⟨r, hr, -⟩
  have hrefused : ¬ Refused plenty 8 (cString [0x31]) := by
    rintro (h | h)
    · exact absurd h (by decide)
    · cases h
  exact hexStrPad_fault hrefused (by decide) [] r hr

end Pad

end LuaRtos.Lora
