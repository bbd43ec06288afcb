/-
  LuaRtos.Sys.MountLogical

  `mount_resolve_to_logical` on the physical paths that
  `mount_resolve_to_physical` builds.

  It puts the mount point before every path on fat, and drops a slash at the
  end without asking whether it is the root.
-/

import LuaRtos.Sys.MountPhysical

namespace LuaRtos.Sys

open LuaRtos.CLib

/-- The last statement of `mount_resolve_to_logical` on its result. -/
def stripEnd (b : List Byte) : Result (List Byte) := do
  if (← lastChar b) = slash then do
    let n ← strlen b
    store b (n - 1) nul
  else pure b

/-- The mount point of a device, as components. -/
def mountComps (device : List Byte) : List Comp := if device = chars "fat" then [sd] else []

section Logical

variable {n pathMax : Nat} {spiffs fat : BitVec 32} {b s cwd device : List Byte} {cs ds : List Comp}

theorem stripEnd_holds (h : Holds n b s) (hs : s ≠ []) :
    ∃ b', stripEnd b = .ok b' ∧ Holds n b' (stripSlash s) := by
  have hlast := lastChar_eq h hs
  have hiff : s.getLast hs = slash ↔ s.getLast? = some slash := by
    rw [List.getLast?_eq_some_getLast hs, Option.some.injEq]
  have hnul := h.nul_free
  obtain ⟨post, rfl, hlen⟩ := h.exists_post
  obtain ⟨t, c, rfl⟩ := (List.eq_nil_or_concat' s).resolve_left hs
  have hstrlen := strlen_append hnul post
  have hstore : store (t ++ [c] ++ nul :: post) ((t ++ [c]).length - 1) nul =
      .ok (t ++ nul :: nul :: post) := by
    have := store_append t (nul :: post) c nul
    simpa using this
  unfold stripSlash
  simp only [stripEnd, hlast, ok_bind, hiff]
  split
  · refine ⟨t ++ nul :: nul :: post, by rw [hstrlen, ok_bind, hstore], ?_, ?_⟩
    · simp only [List.length_append, List.length_cons, List.length_nil] at hlen ⊢
      omega
    · rw [List.dropLast_concat]
      exact readStr_append (fun hm => hnul (List.mem_append_left _ hm)) _
  · exact ⟨_, rfl, h⟩

/-- The device of a physical path, which always has a slash behind it.  With no
    device on the root the component is empty and passes for spiffs. -/
theorem mountGetDeviceFromPath_eq (spiffs fat : BitVec 32)
    (hdev : device = chars "spiffs" ∨ device = chars "fat" ∨ device = [])
    (hcs : cs ≠ []) (post : List Byte) :
    mountGetDeviceFromPath (mountds spiffs fat) (joinPath (device :: cs) ++ nul :: post) =
      .ok (some (if device = chars "fat" then lit "fat" else lit "spiffs"),
        joinPath cs ++ nul :: post) := by
  have hslash : slash ∉ device := by
    rcases hdev with rfl | rfl | rfl <;> decide
  have hnul : nul ∉ device := by
    rcases hdev with rfl | rfl | rfl <;> decide
  have hbuf : joinPath (device :: cs) ++ nul :: post =
      slash :: (device ++ (joinPath cs ++ nul :: post)) := by
    simp
  have hstands : ∀ name, StandsFor device cs name ↔ device <+: name := by
    intro name
    unfold StandsFor
    rw [if_neg hcs]
  have hspiffs := findPrefix_cons Mountd.device cs post hnul
    (show nul ∉ chars "spiffs" by decide) (a := ⟨lit "spiffs", spiffs⟩) rfl [⟨lit "fat", fat⟩]
  have hfat := findPrefix_cons Mountd.device cs post hnul
    (show nul ∉ chars "fat" by decide) (a := ⟨lit "fat", fat⟩) rfl []
  rw [hbuf, mountGetDeviceFromPath, getFromPath_eq Mountd.device cs post hslash hnul, mountds,
    hspiffs, hfat]
  simp only [hstands, if_neg hcs]
  rcases hdev with rfl | rfl | rfl
  · rfl
  · rfl
  · rfl

theorem slash_notMem_mountComps (device : List Byte) : ∀ c ∈ mountComps device, slash ∉ c := by
  intro c hc
  unfold mountComps at hc
  split at hc
  · rw [List.mem_singleton.mp hc]
    decide
  · cases hc

theorem mountDeviceMountPath_eq (device : List Byte) :
    mountDeviceMountPath (if device = chars "fat" then lit "fat" else lit "spiffs") =
      .ok (joinPath (mountComps device) ++ nul :: []) := by
  unfold mountComps
  split <;> rfl

/-- `mount_resolve_to_logical` on a physical path, once the normalization of
    its argument, whose result it does not use, has returned. -/
theorem mountResolveToLogical_eq (spiffs fat : BitVec 32) (hmax : 6 ≤ pathMax) {pp : List Byte}
    (hdev : device = chars "spiffs" ∨ device = chars "fat" ∨ device = []) (hcs : cs ≠ [])
    (hslash : ∀ c ∈ cs, slash ∉ c) (hpp : Holds (pathMax + 1) pp (joinPath (device :: cs)))
    {m₁ : Option (Block (pathMax + 1))} {nb : Option (List Byte)}
    (hnorm : mountNormalizePath pathMax cwd pp m₁ = .ok nb) (m₂ : Block (pathMax + 1)) :
    ∃ lp, mountResolveToLogical pathMax (mountds spiffs fat) cwd pp m₁ (some m₂) = .ok (some lp) ∧
      Holds (pathMax + 1) lp (joinPath (trimEnd (mountComps device ++ cs))) := by
  have hnul : nul ∉ joinPath cs := fun hm => hpp.nul_free (by simp [hm])
  have hsize := hpp.length_lt
  obtain ⟨post, rfl, -⟩ := hpp.exists_post
  have hget := mountGetDeviceFromPath_eq spiffs fat hdev hcs post
  have hmount := mountDeviceMountPath_eq device
  have hmlen : (joinPath (mountComps device)).length ≤ device.length := by
    unfold mountComps
    split
    · rename_i hfat
      subst hfat
      decide
    · exact Nat.zero_le _
  have hmnul : nul ∉ joinPath (mountComps device) := by
    unfold mountComps
    split <;> decide
  have hroot : rooted (joinPath cs) = joinPath cs := by
    obtain ⟨c, ds, rfl⟩ := List.exists_cons_of_ne_nil hcs
    exact if_pos rfl
  simp only [joinPath_cons, List.length_cons, List.length_append] at hsize
  have hdlen : device.length ≤ 6 := by
    rcases hdev with rfl | rfl | rfl <;> decide
  have hcslen : 0 < (joinPath cs).length := List.length_pos_iff.mpr (joinPath_ne_nil hcs)
  obtain ⟨b₁, hb₁, h₁⟩ := strncpy_holds m₂.size (Nat.le_succ _) hmnul []
    (show (joinPath (mountComps device)).length < pathMax by omega)
  obtain ⟨b₂, hb₂⟩ := appendRest_ok pathMax post h₁ hnul (by rw [hroot]; omega)
  have h₂ := appendRest_inv (by omega) h₁ hnul (by omega) hb₂
  rw [hroot, ← joinPath_append] at h₂
  have hne : mountComps device ++ cs ≠ [] := by simp [hcs]
  obtain ⟨b₃, hb₃, h₃⟩ := stripEnd_holds h₂ (joinPath_ne_nil hne)
  have hfree : ∀ c ∈ mountComps device ++ cs, slash ∉ c := by
    intro c hc
    rcases List.mem_append.mp hc with hc | hc
    · exact slash_notMem_mountComps device c hc
    · exact hslash c hc
  rw [stripSlash_joinPath hne hfree] at h₃
  refine ⟨b₃, ?_, h₃⟩
  have hhead : (joinPath cs).head? = some slash := by
    obtain ⟨c, ds, rfl⟩ := List.exists_cons_of_ne_nil hcs
    rfl
  rw [appendRest_eq, if_pos hhead] at hb₂
  have hderef : deref (joinPath cs ++ nul :: post) = .ok slash := by
    rw [deref_append, headD_eq_slash_iff.mpr hhead]
  obtain ⟨c, hc, hb₃⟩ := bind_eq_ok.mp hb₃
  simp only [mountResolveToLogical, hnorm, ok_bind, hget, hmount, hb₁, hderef, ne_eq,
    not_true_eq_false, if_false, pure_eq_ok, hb₂, hc]
  split at hb₃
  · rename_i hcs
    obtain ⟨k, hk, hb₃⟩ := bind_eq_ok.mp hb₃
    rw [if_pos hcs, hk, ok_bind, hb₃, ok_bind]
  · rename_i hcs
    cases hb₃
    rw [if_neg hcs]

/-- A call that returned has returned from its normalization. -/
theorem normalize_of_resolveToLogical {ds : List Mountd} {pp : List Byte}
    {m₁ m₂ : Option (Block (pathMax + 1))} {r : Option (List Byte)}
    (hok : mountResolveToLogical pathMax ds cwd pp m₁ m₂ = .ok r) :
    ∃ nb, mountNormalizePath pathMax cwd pp m₁ = .ok nb := by
  obtain ⟨nb, hnb, -⟩ := bind_eq_ok.mp hok
  exact ⟨nb, hnb⟩

/-- The normalization of a physical path returns when the path is shorter than
    PATH_MAX: its components are names already. -/
theorem normalize_joinPath_ok (hmax : 0 < pathMax) (hcwd : nul ∉ cwd) {ds : List Comp}
    (hds : ds ≠ []) (hplain : ∀ d ∈ ds, Comp.Plain d) (hlt : (joinPath ds).length < pathMax)
    (v w : List Byte) (m : Block (pathMax + 1)) :
    ∃ b, mountNormalizePath pathMax (cwd ++ nul :: v) (joinPath ds ++ nul :: w) (some m) =
      .ok (some b) := by
  have hslash : ∀ d ∈ ds, slash ∉ d := fun d hd => (hplain d hd).slash_free
  have hnul : nul ∉ joinPath ds := nul_notMem_joinPath.mpr fun d hd => (hplain d hd).nul_free
  have hhead : (joinPath ds).head? = some slash := by
    obtain ⟨c, cs, rfl⟩ := List.exists_cons_of_ne_nil hds
    rfl
  have hfull : fullPath pathMax cwd (joinPath ds) = slash :: dirText (trimEnd ds) := by
    rw [fullPath_absolute hhead, List.take_of_length_le (Nat.le_of_lt hlt),
      withSlash_joinPath hds hslash, slash_dirText]
  have htrim : ∀ d ∈ trimEnd ds, Comp.Plain d := fun d hd =>
    hplain d ((trimEnd_sublist ds).subset hd)
  have hnorm : normalComponents pathMax cwd (joinPath ds) = some (trimEnd ds) := by
    rw [normalComponents, fullComponents, hfull, List.tail_cons,
      splitDirs_dirText fun d hd => (htrim d hd).slash_free,
      resolveDots_names [] fun d hd => (htrim d hd).name]
    rfl
  obtain ⟨b, hb, -⟩ := mountNormalizePath_ok (v := v) (w := w) hmax hcwd hnul m
    (fullPath_length_le _ hhead hlt) (fun _ => hlt) hnorm
  exact ⟨b, hb⟩

end Logical

end LuaRtos.Sys
