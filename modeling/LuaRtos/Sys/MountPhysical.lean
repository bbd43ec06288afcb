/-
  LuaRtos.Sys.MountPhysical

  Which physical path a canonical logical one resolves to, when spiffs holds
  the root: the path below "/fat" for a path under the mount point, and the
  whole path below "/spiffs" for every other.

  The code keeps to it unless the first component is "s" with more behind it,
  a name ends with a dot, or the result does not fit into PATH_MAX characters.
-/

import LuaRtos.Sys.MountResolve

namespace LuaRtos.Sys

open LuaRtos.CLib

/-- The physical path a canonical path stands for. -/
def AbsPath.physical (p : AbsPath) : List Byte :=
  if p.comps.head? = some sd then chars "/fat" ++ pathText p.comps.tail
  else chars "/spiffs" ++ p.text

/-- A call that returned the string `s`. -/
def Returns (r : Result (Option (List Byte))) (s : List Byte) : Prop :=
  ∃ b, r = .ok (some b) ∧ readStr b = .ok s

theorem Returns.unique {r : Result (Option (List Byte))} {s t : List Byte} (hs : Returns r s)
    (ht : Returns r t) : s = t := by
  obtain ⟨b, hb, hbs⟩ := hs
  obtain ⟨c, hc, hct⟩ := ht
  rw [hb] at hc
  cases hc
  exact Except.ok.inj (hbs.symm.trans hct)

/-- The paths that `mount_resolve_to_physical` resolves as it should. -/
structure Resolvable (pathMax : Nat) (p : AbsPath) : Prop where
  /-- The result has at most PATH_MAX characters. -/
  fits : p.text.length + (if p.comps.head? = some sd then 1 else 7) ≤ pathMax
  /-- No name ends with a dot. -/
  no_dot_end : ∀ c ∈ p, c.text.getLast? ≠ some dot
  /-- The path is not one below "/s". -/
  not_below_s : ∀ c q, p = c :: q → c.text = chars "s" → q = []

section Canonical

variable {pathMax : Nat} {spiffs fat : BitVec 32} {cwd v w : List Byte} {p q : AbsPath}
  {cs ds : List Comp}

theorem head?_text (p : AbsPath) : p.text.head? = some slash := by
  unfold AbsPath.text
  cases p.comps <;> rfl

/-- The main loop gets the components of a canonical path as they are. -/
theorem fullComponents_text (cwd : List Byte) (hlt : p.text.length < pathMax) :
    fullComponents pathMax cwd p.text = p.comps := by
  have hslash : ∀ c ∈ p.comps, slash ∉ c := fun c hc => (AbsPath.comps_spec hc).2.1
  have hfull : fullPath pathMax cwd p.text = slash :: dirText p.comps := by
    rw [fullPath_absolute (head?_text p), List.take_of_length_le (Nat.le_of_lt hlt), slash_dirText]
    unfold AbsPath.text
    by_cases hp : p.comps = []
    · rw [hp]
      rfl
    · have hlast : p.comps.getLast? ≠ some [] := fun h =>
        (AbsPath.comps_spec (List.mem_of_getLast? h)).1 rfl
      rw [pathText_of_ne_nil hp, withSlash_joinPath hp hslash, trimEnd_eq_self_iff.mpr hlast]
  rw [fullComponents, hfull, List.tail_cons, splitDirs_dirText hslash]

theorem physical_length (hmax : 256 ≤ pathMax) :
    p.physical.length ≤ pathMax ↔
      p.text.length + (if p.comps.head? = some sd then 1 else 7) ≤ pathMax := by
  unfold AbsPath.physical AbsPath.text
  have hfat : (chars "/fat").length = 4 := rfl
  have hspiffs : (chars "/spiffs").length = 7 := rfl
  have hsd : sd.length = 2 := rfl
  split
  · rename_i hhead
    obtain ⟨cs, hcs⟩ : ∃ cs, p.comps = sd :: cs := by
      cases hc : p.comps with
      | nil => simp [hc] at hhead
      | cons c cs =>
        rw [hc] at hhead
        cases hhead
        exact ⟨cs, rfl⟩
    rw [hcs, List.tail_cons, pathText_of_ne_nil (List.cons_ne_nil sd cs), joinPath_cons]
    simp only [List.length_append, List.length_cons, hfat, hsd]
    cases cs with
    | nil =>
      simp only [pathText_nil, joinPath_nil, List.length_singleton, List.length_nil]
      omega
    | cons c cs =>
      rw [pathText_of_ne_nil (List.cons_ne_nil c cs)]
      omega
  · rw [List.length_append, hspiffs]
    omega

theorem physicalText_eq_joinPath (spiffs fat : BitVec 32) (ds : List Comp) :
    physicalText spiffs fat ds =
      joinPath (deviceName spiffs fat ds :: textComps (cutMount ds)) := by
  rw [physicalText, pathText_eq_joinPath, joinPath_cons]

theorem cutMount_sublist (ds : List Comp) : (cutMount ds).Sublist ds := by
  cases ds with
  | nil => exact List.Sublist.refl []
  | cons c cs =>
    rw [cutMount]
    split
    · exact List.sublist_cons_self c cs
    · exact List.Sublist.refl _

theorem cutMount_sd (cs : List Comp) : cutMount (sd :: cs) = cs := by
  refine if_pos ?_
  unfold StandsFor
  split
  · rfl
  · exact List.prefix_rfl

theorem eq_sd_cons {cs : List Comp} (h : cs.head? = some sd) : cs = sd :: cs.tail := by
  cases cs with
  | nil => cases h
  | cons c cs =>
    cases h
    rfl

/-- The device that a canonical path is on. -/
def AbsPath.device (p : AbsPath) : List Byte :=
  if p.comps.head? = some sd then chars "fat" else chars "spiffs"

/-- The path on its device. -/
def AbsPath.onDevice (p : AbsPath) : List Comp :=
  if p.comps.head? = some sd then p.comps.tail else p.comps

theorem AbsPath.onDevice_sublist (p : AbsPath) : p.onDevice.Sublist p.comps := by
  unfold AbsPath.onDevice
  split
  · exact List.tail_sublist _
  · exact List.Sublist.refl _

theorem AbsPath.slash_notMem_device (p : AbsPath) : slash ∉ p.device := by
  unfold AbsPath.device
  split <;> decide

theorem physical_eq_joinPath (p : AbsPath) :
    p.physical = joinPath (p.device :: textComps p.onDevice) := by
  unfold AbsPath.physical AbsPath.text AbsPath.device AbsPath.onDevice
  split
  · rw [pathText_eq_joinPath, joinPath_cons]
    rfl
  · rw [pathText_eq_joinPath, joinPath_cons]
    rfl

theorem device_eq_iff {cs ds : List Comp} :
    (if cs.head? = some sd then chars "fat" else chars "spiffs") =
      (if ds.head? = some sd then chars "fat" else chars "spiffs") ↔
      (cs.head? = some sd ↔ ds.head? = some sd) := by
  have hne : chars "fat" ≠ chars "spiffs" := by decide
  by_cases h₁ : cs.head? = some sd <;> by_cases h₂ : ds.head? = some sd <;>
    simp [h₁, h₂, hne, Ne.symm hne]

/-- Different canonical paths stand for different physical paths. -/
theorem AbsPath.physical_injective (h : p.physical = q.physical) : p = q := by
  rw [physical_eq_joinPath, physical_eq_joinPath] at h
  obtain ⟨hdev, hrest⟩ := joinPath_textComps_injective p.slash_notMem_device q.slash_notMem_device
    (AbsPath.mem_sublist_comps p.onDevice_sublist) (AbsPath.mem_sublist_comps q.onDevice_sublist) h
  have hhead := device_eq_iff.mp hdev
  unfold AbsPath.onDevice at hrest
  refine AbsPath.comps_injective ?_
  by_cases hp : p.comps.head? = some sd
  · rw [if_pos hp, if_pos (hhead.mp hp)] at hrest
    rw [eq_sd_cons hp, eq_sd_cons (hhead.mp hp), hrest]
  · rwa [if_neg hp, if_neg (mt hhead.mpr hp)] at hrest

/-- Two physical paths are equal when device and path on it are. -/
theorem physicalText_eq_physical_iff (hspiffs : spiffs ≠ 0) (hsub : ds.Sublist p.comps) :
    physicalText spiffs fat ds = p.physical ↔
      (ds.head? = some sd ↔ p.comps.head? = some sd) ∧ cutMount ds = p.onDevice := by
  have hdev : deviceName spiffs fat ds =
      if ds.head? = some sd then chars "fat" else chars "spiffs" := by
    unfold deviceName defaultName
    rw [if_pos hspiffs]
  rw [physicalText_eq_joinPath, physical_eq_joinPath]
  constructor
  · intro h
    obtain ⟨hd, ht⟩ := joinPath_textComps_injective (slash_notMem_deviceName spiffs fat ds)
      p.slash_notMem_device (AbsPath.mem_sublist_comps ((cutMount_sublist ds).trans hsub))
      (AbsPath.mem_sublist_comps p.onDevice_sublist) h
    rw [hdev] at hd
    exact ⟨device_eq_iff.mp hd, ht⟩
  · rintro ⟨hd, ht⟩
    rw [hdev, device_eq_iff.mpr hd, ht]
    rfl

/-- Components left of a canonical path resolve to the physical path of that
    path only when they are all of it, and the cut takes the mount point or
    nothing. -/
theorem physicalText_eq_physical (hspiffs : spiffs ≠ 0) (hsub : ds.Sublist p.comps) :
    physicalText spiffs fat ds = p.physical ↔
      ds = p.comps ∧ (ds.head? = some sd ∨ cutMount ds = ds) := by
  rw [physicalText_eq_physical_iff hspiffs hsub]
  constructor
  · rintro ⟨hhead, hcut⟩
    unfold AbsPath.onDevice at hcut
    by_cases hp : p.comps.head? = some sd
    · -- under the mount point both sides have lost the same component
      have hds := hhead.mpr hp
      rw [if_pos hp, eq_sd_cons hds, cutMount_sd] at hcut
      exact ⟨by rw [eq_sd_cons hds, hcut, ← eq_sd_cons hp], .inl hds⟩
    · rw [if_neg hp] at hcut
      -- nothing can have been cut off: what is left is no longer than the path
      have hds : ds = p.comps := hsub.eq_of_length_le (hcut ▸ (cutMount_sublist ds).length_le)
      exact ⟨hds, .inr (hcut.trans hds.symm)⟩
  · rintro ⟨rfl, hcase⟩
    refine ⟨Iff.rfl, ?_⟩
    unfold AbsPath.onDevice
    split
    · rename_i hp
      rw [eq_sd_cons hp, cutMount_sd, List.tail_cons]
    · rename_i hp
      exact hcase.resolve_left hp

/-- A name that starts the name of the mount point. -/
theorem prefix_sd_iff {c : Comp} (hc : c ≠ []) : c <+: sd ↔ c = chars "s" ∨ c = sd := by
  constructor
  · rintro ⟨r, hr⟩
    rcases c with _ | ⟨a, _ | ⟨b, _ | ⟨e, c⟩⟩⟩
    · exact absurd rfl hc
    · cases hr
      exact .inl rfl
    · cases hr
      exact .inr rfl
    · simp [sd, chars] at hr
  · rintro (rfl | rfl)
    · exact ⟨chars "d", rfl⟩
    · exact List.prefix_rfl

/-- The cut takes the mount point or nothing, unless the path is below "/s". -/
theorem cutMount_comps (p : AbsPath) :
    (p.comps.head? = some sd ∨ cutMount p.comps = p.comps) ↔
      ∀ c q, p = c :: q → c.text = chars "s" → q = [] := by
  cases p with
  | nil => simp [AbsPath.comps, cutMount]
  | cons c q =>
    have hcomps : AbsPath.comps (c :: q) = c.text :: AbsPath.comps q := rfl
    have hcut : cutMount (c.text :: AbsPath.comps q) = c.text :: AbsPath.comps q ↔
        ¬ StandsFor c.text (AbsPath.comps q) sd := by
      rw [cutMount]
      split
      · rename_i hstands
        exact iff_of_false (fun h => List.cons_ne_self _ _ h.symm) (not_not_intro hstands)
      · rename_i hstands
        exact iff_of_true rfl hstands
    have hnil : AbsPath.comps q = [] ↔ q = [] := List.map_eq_nil_iff
    rw [hcomps, hcut, List.head?_cons, Option.some.injEq]
    unfold StandsFor
    simp only [List.cons.injEq, and_imp, hnil]
    constructor
    · intro h c' q' hc' hq' hs
      subst hc' hq'
      by_contra hq
      rw [if_neg hq] at h
      rcases h with h | h
      · rw [hs] at h
        exact absurd h (by decide)
      · exact h ((prefix_sd_iff c.nonempty).mpr (.inl hs))
    · intro h
      by_cases hsd : c.text = sd
      · exact .inl hsd
      · refine .inr ?_
        split
        · exact fun h => hsd h.symm
        · rename_i hq
          intro hpre
          exact hq (h c q rfl rfl (((prefix_sd_iff c.nonempty).mp hpre).resolve_right hsd))

/-- The names of a canonical path that do not end with a dot are what the
    normalization leaves of it. -/
theorem normalComponents_text (cwd : List Byte) (hlt : p.text.length < pathMax)
    (hdot : ∀ c ∈ p, c.text.getLast? ≠ some dot) :
    normalComponents pathMax cwd p.text = some p.comps := by
  rw [normalComponents, fullComponents_text cwd hlt, resolveDots_names]
  · rfl
  · intro c hc
    obtain ⟨a, ha, rfl⟩ := List.mem_map.mp hc
    exact (compKind_eq_name_iff a.text).mpr (hdot a ha)

theorem nul_notMem_text (p : AbsPath) : nul ∉ p.text :=
  nul_notMem_pathText fun _ hc => (AbsPath.comps_spec hc).2.2

/-- The physical path that a canonical path resolves to, whatever it is. -/
theorem returns_physicalText (hmax : 256 ≤ pathMax) (hcwd : nul ∉ cwd)
    (hdot : ∀ c ∈ p, c.text.getLast? ≠ some dot) (hlt : p.text.length < pathMax)
    (hfit : (physicalText spiffs fat p.comps).length ≤ pathMax) (v w : List Byte)
    (m₁ m₂ : Block (pathMax + 1)) :
    Returns (mountResolveToPhysical pathMax (mountds spiffs fat) (cwd ++ nul :: v)
      (p.text ++ nul :: w) (some m₁) (some m₂)) (physicalText spiffs fat p.comps) := by
  have hnorm := normalComponents_text cwd hlt hdot
  obtain ⟨pp, hpp⟩ := mountResolveToPhysical_ok (v := v) (w := w) (by omega) hcwd
    (nul_notMem_text p) (fullPath_length_le _ (head?_text p) hlt) (fun _ => hlt) hnorm hfit m₁ m₂
  obtain ⟨-, ds, hds, hholds⟩ := mountResolveToPhysical_inv (by omega) hcwd (nul_notMem_text p) hpp
  rw [hnorm] at hds
  cases hds
  exact ⟨pp, hpp, hholds.str⟩

/-- With spiffs on the root, the canonical paths that resolve to the physical
    path they stand for are exactly the `Resolvable` ones, and no two of these
    resolve to the same. -/
theorem mountResolveToPhysical_correct_iff (hmax : 256 ≤ pathMax) (hspiffs : spiffs ≠ 0)
    (hcwd : nul ∉ cwd) (fat : BitVec 32) (v : List Byte) (m₁ m₂ : Block (pathMax + 1)) :
    (∀ (p : AbsPath) (w : List Byte),
      Returns (mountResolveToPhysical pathMax (mountds spiffs fat) (cwd ++ nul :: v)
        (p.text ++ nul :: w) (some m₁) (some m₂)) p.physical ↔ Resolvable pathMax p) ∧
    (∀ (p q : AbsPath) (w w' s : List Byte), Resolvable pathMax p → Resolvable pathMax q →
      Returns (mountResolveToPhysical pathMax (mountds spiffs fat) (cwd ++ nul :: v)
        (p.text ++ nul :: w) (some m₁) (some m₂)) s →
      Returns (mountResolveToPhysical pathMax (mountds spiffs fat) (cwd ++ nul :: v)
        (q.text ++ nul :: w') (some m₁) (some m₂)) s → p = q) := by
  have hiff : ∀ (p : AbsPath) (w : List Byte),
      Returns (mountResolveToPhysical pathMax (mountds spiffs fat) (cwd ++ nul :: v)
        (p.text ++ nul :: w) (some m₁) (some m₂)) p.physical ↔ Resolvable pathMax p := by
    intro p w
    constructor
    · -- what the call returned says which components are left, and so what they are
      rintro ⟨pp, hok, hstr⟩
      obtain ⟨-, ds, hds, hholds⟩ :=
        mountResolveToPhysical_inv (by omega) hcwd (nul_notMem_text p) hok
      have hphys : physicalText spiffs fat ds = p.physical := by
        have := hholds.str.symm.trans hstr
        exact Except.ok.inj this
      have hfits := (physical_length hmax).mp (by
        rw [← hphys]
        exact Nat.le_of_lt_succ hholds.length_lt)
      have hlt : p.text.length < pathMax := by
        split at hfits <;> omega
      rw [normalComponents, fullComponents_text cwd hlt] at hds
      obtain ⟨hname, hsub⟩ := resolveDots_some (fun _ hc => absurd hc List.not_mem_nil) hds
      obtain ⟨rfl, hcut⟩ := (physicalText_eq_physical hspiffs hsub).mp hphys
      refine ⟨hfits, fun c hc => ?_, (cutMount_comps p).mp hcut⟩
      exact (compKind_eq_name_iff c.text).mp (hname c.text (List.mem_map_of_mem hc))
    · rintro ⟨hfits, hdot, hbelow⟩
      have hlt : p.text.length < pathMax := by
        split at hfits <;> omega
      have hphys : physicalText spiffs fat p.comps = p.physical :=
        (physicalText_eq_physical hspiffs (List.Sublist.refl _)).mpr
          ⟨rfl, (cutMount_comps p).mpr hbelow⟩
      rw [← hphys]
      refine returns_physicalText hmax hcwd hdot hlt ?_ v w m₁ m₂
      rw [hphys]
      exact (physical_length hmax).mpr hfits
  refine ⟨hiff, fun p q w w' s hp hq hps hqs => ?_⟩
  have hpe := hps.unique ((hiff p w).mpr hp)
  have hqe := hqs.unique ((hiff q w').mpr hq)
  exact AbsPath.physical_injective (hpe.symm.trans hqe)

end Canonical

/-! ## Two paths -/

/-- `s`, `x` and `sd` as names. -/
def nameS : Name := ⟨chars "s", by decide, by decide, by decide, by decide, by decide⟩
def nameX : Name := ⟨chars "x", by decide, by decide, by decide, by decide, by decide⟩
def nameSd : Name := ⟨sd, by decide, by decide, by decide, by decide, by decide⟩

/-- "/sd/x" resolves to "/fat/x". -/
theorem mountResolveToPhysical_correct_sd_x :
    Returns (mountResolveToPhysical 256 (mountds 1 1) (lit "") (lit "/sd/x")
      (some (freshBlock 257)) (some (freshBlock 257))) (chars "/fat/x") :=
  ((mountResolveToPhysical_correct_iff (Nat.le_refl 256) (by decide) List.not_mem_nil 1 []
    (freshBlock 257) (freshBlock 257)).1 [nameSd, nameX] []).mpr
      ⟨by decide, by decide, fun c q h hs => by
        cases h
        exact absurd hs (by decide)⟩

/-- "/s/x" resolves to "/spiffs/x", as "/x" does, and not to "/spiffs/s/x". -/
theorem mountResolveToPhysical_s_x :
    Returns (mountResolveToPhysical 256 (mountds 1 1) (lit "") (lit "/s/x")
      (some (freshBlock 257)) (some (freshBlock 257))) (chars "/spiffs/x") ∧
    Returns (mountResolveToPhysical 256 (mountds 1 1) (lit "") (lit "/x")
      (some (freshBlock 257)) (some (freshBlock 257))) (chars "/spiffs/x") ∧
    ¬ Returns (mountResolveToPhysical 256 (mountds 1 1) (lit "") (lit "/s/x")
      (some (freshBlock 257)) (some (freshBlock 257))) (AbsPath.physical [nameS, nameX]) := by
  have hsx : Returns (mountResolveToPhysical 256 (mountds 1 1) (lit "") (lit "/s/x")
      (some (freshBlock 257)) (some (freshBlock 257))) (chars "/spiffs/x") :=
    returns_physicalText (p := [nameS, nameX]) (Nat.le_refl 256) List.not_mem_nil (by decide)
      (by decide) (by decide) [] [] (freshBlock 257) (freshBlock 257)
  have hx : Returns (mountResolveToPhysical 256 (mountds 1 1) (lit "") (lit "/x")
      (some (freshBlock 257)) (some (freshBlock 257))) (chars "/spiffs/x") :=
    returns_physicalText (p := [nameX]) (Nat.le_refl 256) List.not_mem_nil (by decide)
      (by decide) (by decide) [] [] (freshBlock 257) (freshBlock 257)
  exact ⟨hsx, hx, fun h => absurd (hsx.unique h) (by decide)⟩

end LuaRtos.Sys
