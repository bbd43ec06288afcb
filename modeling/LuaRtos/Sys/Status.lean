/-
  LuaRtos.Sys.Status

  The status flags of the system, as one word (sys/status.c).
-/

namespace LuaRtos.Sys

/-- `LuaOS_status`, which has one word: no flag is above it. -/
abbrev Status := BitVec 32

def STATUS_LUA_RUNNING : Nat := 0x0001
def STATUS_LUA_ABORT_BOOT_SCRIPTS : Nat := 0x0003
def STATUS_UART_QUE_NOTFILTER : Nat := 0x000c

/-- The bit of a flag in its word. -/
def statusBit (flag : Nat) : Status := 1#32 <<< (flag % 256)

/-- `status_set`. -/
def statusSet (flag : Nat) (w : Status) : Status := w ||| statusBit flag

/-- `status_clear`. -/
def statusClear (flag : Nat) (w : Status) : Status := w &&& ~~~statusBit flag

/-- `status_get`, as a condition. -/
def statusGet (flag : Nat) (w : Status) : Bool := w &&& statusBit flag ≠ 0

section Flags

variable {f g : Nat} {w : Status}

theorem getLsbD_statusBit (hf : f < 32) (i : Nat) : (statusBit f).getLsbD i = decide (i = f) := by
  have hmod : f % 256 = f := Nat.mod_eq_of_lt (by omega)
  rw [statusBit, hmod, BitVec.getLsbD_shiftLeft, BitVec.getLsbD_one]
  by_cases hi : i = f
  · subst hi
    simp [hf]
  · have hne : ¬ (f ≤ i ∧ i - f = 0) := by omega
    simp only [hi, decide_false]
    by_cases hle : i < f
    · simp [hle]
    · have hsub : i - f ≠ 0 := by omega
      simp [hsub]

/-- A flag is one bit of the word. -/
theorem statusGet_eq (hf : f < 32) : statusGet f w = w.getLsbD f := by
  have hand : ∀ i, (w &&& statusBit f).getLsbD i = (w.getLsbD i && decide (i = f)) := by
    intro i
    rw [BitVec.getLsbD_and, getLsbD_statusBit hf]
  unfold statusGet
  by_cases hbit : w.getLsbD f = true
  · rw [hbit, decide_eq_true_iff]
    intro hzero
    have hf' := hand f
    rw [hzero, hbit] at hf'
    simp at hf'
  · rw [Bool.not_eq_true] at hbit
    rw [hbit, decide_eq_false_iff_not, Decidable.not_not]
    apply BitVec.eq_of_getLsbD_eq
    intro i _
    rw [hand i]
    by_cases hi : i = f
    · simp [hi, hbit]
    · simp [hi]

theorem statusGet_set (hf : f < 32) (hg : g < 32) :
    statusGet g (statusSet f w) = (statusGet g w || decide (g = f)) := by
  rw [statusGet_eq hg, statusGet_eq hg, statusSet, BitVec.getLsbD_or, getLsbD_statusBit hf]

theorem statusGet_clear (hf : f < 32) (hg : g < 32) :
    statusGet g (statusClear f w) = (statusGet g w && !decide (g = f)) := by
  rw [statusGet_eq hg, statusGet_eq hg, statusClear, BitVec.getLsbD_and, BitVec.getLsbD_not,
    getLsbD_statusBit hf]
  simp [hg]

/-- A flag that is set and then cleared leaves a word where it was clear. -/
theorem statusClear_set (hf : f < 32) (hclear : statusGet f w = false) :
    statusClear f (statusSet f w) = w := by
  apply BitVec.eq_of_getLsbD_eq
  intro i hi
  rw [← statusGet_eq hi, ← statusGet_eq hi, statusGet_clear hf hi, statusGet_set hf hi]
  by_cases hif : i = f
  · subst hif
    rw [hclear]
    simp
  · simp [hif]

end Flags

end LuaRtos.Sys
