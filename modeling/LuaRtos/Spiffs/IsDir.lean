/-
  LuaRtos.Spiffs.IsDir

  `is_dir` for any path and any set of objects.

  The path with "/." is compared with the start of each name only, so that a hidden file stands
  for the marker of its directory; and the root has no object of its own.
-/

import LuaRtos.Spiffs.Unlink

namespace LuaRtos.Spiffs

open CLib Sys

section IsDir

variable {objs : Objects} {path : List Byte}

theorem isDir_iff_begins (objs : Objects) (path : List Byte) :
    isDir objs path = true ↔ ∃ name ∈ objs.names, dirPath path <+: name := by
  unfold isDir
  rw [List.any_eq_true]
  simp only [ List.isPrefixOf_iff_prefix]

theorem dirPath_root : dirPath root = [slash, dot] := rfl

/-- The marker of a path is an object only where it fits in a name. -/
theorem isDir_of_mem (hpath : path ≠ root) (hmem : marker path ∈ objs.names) :
    isDir objs path = true := by
  have hfits : (marker path).length < 64 := (objs.valid _ hmem).fits
  rw [length_marker] at hfits
  rw [isDir_iff_begins, dirPath_eq hpath (by omega)]
  exact ⟨_, hmem, List.prefix_refl _⟩

/-- For the root some name begins with "/.".  Another path has its marker, or no name begins with
    the path and "/.", as far as the buffer holds it. -/
def Unhidden (objs : Objects) (path : List Byte) : Prop :=
  if path = root then ∃ name ∈ objs.names, [slash, dot] <+: name
  else marker path ∉ objs.names → ∀ name ∈ objs.names, ¬ dirPath path <+: name

/-- The answer is right just there. -/
theorem isDir_right_iff (objs : Objects) (path : List Byte) :
    (isDir objs path = true ↔ path = root ∨ marker path ∈ objs.names) ↔ Unhidden objs path := by
  unfold Unhidden
  by_cases hpath : path = root
  · subst hpath
    rw [if_pos rfl, isDir_iff_begins, dirPath_root]
    exact ⟨fun h => h.mpr (.inl rfl), fun h => ⟨fun _ => .inl rfl, fun _ => h⟩⟩
  · rw [if_neg hpath, or_iff_right hpath]
    constructor
    · intro hright hmem name hname hpre
      exact hmem (hright.mp ((isDir_iff_begins objs path).mpr ⟨name, hname, hpre⟩))
    · intro hunhidden
      refine ⟨fun hdir => ?_, isDir_of_mem hpath⟩
      by_contra hmem
      obtain ⟨name, hname, hpre⟩ := (isDir_iff_begins objs path).mp hdir
      exact hunhidden hmem name hname hpre

/-- A file whose name begins with a dot, in a directory without a marker. -/
def hiddenFile : Objects := ⟨[chars "/d/.x"], by decide, by decide⟩

theorem not_isDir_right_hiddenFile :
    ¬ (isDir hiddenFile (chars "/d") = true ↔
      chars "/d" = root ∨ marker (chars "/d") ∈ hiddenFile.names) := by
  intro hright
  have hdir : isDir hiddenFile (chars "/d") = true := by decide
  rcases hright.mp hdir with hroot | hmem
  · exact absurd hroot (by decide)
  · exact absurd hmem (by decide)

end IsDir

end LuaRtos.Spiffs
