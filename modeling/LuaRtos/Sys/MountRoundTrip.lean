/-
  LuaRtos.Sys.MountRoundTrip

  The round trip from a logical path to a physical one and back, for every
  path and current directory, every set of mounted devices and every contents
  of the allocated blocks.

  Both directions are functions on components by now, so the round trip is an
  equation between two lists: the components of the normalized path, and those
  that are left when the mount point of the device is put before what was not
  cut off and one empty component at the end is dropped.
-/

import LuaRtos.Sys.MountLogical

namespace LuaRtos.Sys

open LuaRtos.CLib

/-- The normalized paths that come back from their physical path. -/
structure RoundTrips (pathMax : Nat) (spiffs fat : BitVec 32) (ds : List Comp) : Prop where
  /-- The physical path is shorter than PATH_MAX. -/
  fits : (pathText ds).length +
    (if ds.head? = some sd then 1 else (defaultName spiffs fat).length + 1) < pathMax
  /-- The path is not the root. -/
  not_root : ds ≠ []
  /-- The path does not end with a slash. -/
  no_slash_end : ds.getLast? ≠ some []
  /-- The path is under the mount point, or it is one of the device on the root
      that is not cut, and that device is not the one of the mount point. -/
  device : ds.head? = some sd ∨ (cutMount ds = ds ∧ defaultName spiffs fat ≠ chars "fat")

section RoundTrip

variable {pathMax : Nat} {spiffs fat : BitVec 32} {cwd path v w pp n : List Byte} {ds : List Comp}
  {m₀ m₁ m₂ : Option (Block (pathMax + 1))}

/-- The round trip on components. -/
theorem trimEnd_mountComps_iff (spiffs fat : BitVec 32) (ds : List Comp) :
    trimEnd (mountComps (deviceName spiffs fat ds) ++ textComps (cutMount ds)) = textComps ds ↔
      ds ≠ [] ∧ ds.getLast? ≠ some [] ∧
        (ds.head? = some sd ∨ (cutMount ds = ds ∧ defaultName spiffs fat ≠ chars "fat")) := by
  cases ds with
  | nil =>
    have hroot : textComps (cutMount []) = [[]] := rfl
    rw [hroot, trimEnd_concat_nil]
    refine iff_of_false (fun h => ?_) (fun h => h.1 rfl)
    unfold mountComps at h
    split at h
    · exact absurd h (by decide)
    · exact absurd h (by decide)
  | cons c cs =>
    have htext : textComps (c :: cs) = c :: cs := if_neg (List.cons_ne_nil c cs)
    by_cases hsd : c = sd
    · subst hsd
      have hdev : deviceName spiffs fat (sd :: cs) = chars "fat" := if_pos rfl
      have hmount : mountComps (chars "fat") = [sd] := rfl
      rw [hdev, hmount, cutMount_sd, htext]
      cases cs with
      | nil => exact iff_of_true rfl ⟨List.cons_ne_nil _ _, by decide, .inl rfl⟩
      | cons d cs =>
        have hd : textComps (d :: cs) = d :: cs := if_neg (List.cons_ne_nil d cs)
        rw [hd, List.singleton_append, trimEnd_eq_self_iff]
        exact ⟨fun h => ⟨List.cons_ne_nil _ _, h, .inl rfl⟩, fun h => h.2.1⟩
    · have hhead : (c :: cs).head? ≠ some sd := by simpa using hsd
      have hdev : deviceName spiffs fat (c :: cs) = defaultName spiffs fat := if_neg hhead
      rw [hdev, htext]
      by_cases hfat : defaultName spiffs fat = chars "fat"
      · -- the mount point comes first, which it was not
        have hmount : mountComps (defaultName spiffs fat) = [sd] := if_pos hfat
        rw [hmount, List.singleton_append, trimEnd_cons (textComps_ne_nil _)]
        refine iff_of_false (fun h => hsd (List.cons.inj h).1.symm) fun h => ?_
        exact h.2.2.elim hhead fun h => h.2 hfat
      · have hmount : mountComps (defaultName spiffs fat) = [] := if_neg hfat
        rw [hmount, List.nil_append]
        by_cases hstands : StandsFor c cs sd
        · -- the first component is cut off and does not come back
          have hcut : cutMount (c :: cs) = cs := if_pos hstands
          have hcs : cs ≠ [] := by
            rintro rfl
            exact hsd (Eq.symm hstands)
          have hrest : textComps cs = cs := if_neg hcs
          rw [hcut, hrest]
          refine iff_of_false (fun h => ?_) fun h => ?_
          · have hlen := (trimEnd_sublist cs).length_le
            rw [h, List.length_cons] at hlen
            omega
          · exact h.2.2.elim hhead fun h => List.cons_ne_self _ _ h.1.symm
        · have hcut : cutMount (c :: cs) = c :: cs := if_neg hstands
          rw [hcut, htext, trimEnd_eq_self_iff]
          exact ⟨fun h => ⟨List.cons_ne_nil _ _, h, .inr ⟨rfl, hfat⟩⟩, fun h => h.2.1⟩

theorem length_physicalText (hmax : 256 ≤ pathMax)
    (hdevice : ds.head? = some sd ∨ (cutMount ds = ds ∧ defaultName spiffs fat ≠ chars "fat")) :
    (physicalText spiffs fat ds).length < pathMax ↔ (pathText ds).length +
      (if ds.head? = some sd then 1 else (defaultName spiffs fat).length + 1) < pathMax := by
  unfold physicalText deviceName
  by_cases hsd : ds.head? = some sd
  · rw [if_pos hsd, if_pos hsd, eq_sd_cons hsd, cutMount_sd,
      pathText_of_ne_nil (List.cons_ne_nil _ _), joinPath_cons]
    have hfat : (chars "fat").length = 3 := rfl
    have hlen : sd.length = 2 := rfl
    simp only [List.length_cons, List.length_append, hfat, hlen]
    unfold pathText
    split
    · rename_i hnil
      rw [hnil, joinPath_nil, List.length_singleton, List.length_nil]
      omega
    · omega
  · rw [if_neg hsd, if_neg hsd, (hdevice.resolve_left hsd).1, List.length_cons, List.length_append]
    omega

theorem getLast?_cutMount (h : cutMount ds ≠ []) : (cutMount ds).getLast? = ds.getLast? := by
  cases ds with
  | nil => exact absurd rfl h
  | cons c cs =>
    rw [cutMount] at h ⊢
    split
    · rename_i hstands
      rw [if_pos hstands] at h
      exact (List.getLast?_cons_of_ne_nil h).symm
    · rfl

/-- The physical path that logical resolution gets, read as components. -/
theorem physicalText_plain (spiffs fat : BitVec 32) (hds : ∀ d ∈ ds, Comp.Plain d) :
    ∀ d ∈ deviceName spiffs fat ds :: textComps (cutMount ds), Comp.Plain d := by
  have hempty : Comp.Plain [] := ⟨rfl, List.not_mem_nil, List.not_mem_nil⟩
  refine List.forall_mem_cons.mpr ⟨?_, ?_⟩
  · refine ⟨?_, slash_notMem_deviceName spiffs fat ds, nul_notMem_deviceName spiffs fat ds⟩
    rcases deviceName_cases spiffs fat ds with h | h | h <;> rw [h] <;> rfl
  · unfold textComps
    split
    · exact List.forall_mem_cons.mpr ⟨hempty, fun _ h => absurd h List.not_mem_nil⟩
    · exact fun d hd => hds d ((cutMount_sublist ds).subset hd)

/-- The physical path of a path that has a name at its end: logical resolution
    returns from its normalization only when it is shorter than PATH_MAX. -/
theorem physicalText_lt_of_normalize (hmax : 256 ≤ pathMax) (hcwd : nul ∉ cwd)
    (hds : ∀ d ∈ ds, Comp.Plain d) (hlast : ds.getLast? ≠ some [])
    (hpp : Holds (pathMax + 1) pp (physicalText spiffs fat ds)) {r : Option (List Byte)}
    {m : Block (pathMax + 1)}
    (hok : mountNormalizePath pathMax (cwd ++ nul :: v) pp (some m) = .ok r) :
    (physicalText spiffs fat ds).length < pathMax := by
  have hplain := physicalText_plain spiffs fat hds
  have hnul := hpp.nul_free
  have hle := Nat.le_of_lt_succ hpp.length_lt
  obtain ⟨post, rfl, -⟩ := hpp.exists_post
  rw [mountNormalizePath_some] at hok
  obtain ⟨b₁, hpre, -⟩ := bind_eq_ok.mp hok
  have hfit := (normPrefix_inv (by omega) hcwd hnul m.size hpre).length_lt
  rw [fullPath_absolute rfl, List.take_of_length_le hle, withSlash] at hfit
  split at hfit
  · rename_i hslash
    rw [physicalText_eq_joinPath, getLast?_joinPath (List.cons_ne_nil _ _)
      fun d hd => (hplain d hd).slash_free,
      List.getLast?_cons_of_ne_nil (textComps_ne_nil _)] at hslash
    -- only the root of a device has a physical path with a slash at its end
    have hroot : cutMount ds = [] := by
      by_contra hne
      rw [textComps, if_neg hne, getLast?_cutMount hne] at hslash
      exact hlast hslash
    have hdev := length_deviceName_le spiffs fat ds
    rw [physicalText, hroot, pathText_nil, List.length_cons, List.length_append,
      List.length_singleton]
    omega
  · rw [List.length_append, List.length_singleton] at hfit
    omega

/-- The round trip gives the normalized path back exactly for the paths that
    `RoundTrips` describes. -/
theorem roundTrip_iff (hmax : 256 ≤ pathMax) (hcwd : nul ∉ cwd) (hpath : nul ∉ path)
    (hphys : mountResolveToPhysical pathMax (mountds spiffs fat) (cwd ++ nul :: v)
      (path ++ nul :: w) m₁ m₂ = .ok (some pp))
    (hnorm : Returns (mountNormalizePath pathMax (cwd ++ nul :: v) (path ++ nul :: w) m₀) n)
    (m₃ m₄ : Block (pathMax + 1)) :
    Returns (mountResolveToLogical pathMax (mountds spiffs fat) (cwd ++ nul :: v) pp
      (some m₃) (some m₄)) n ↔
      ∃ ds, normalComponents pathMax cwd path = some ds ∧ RoundTrips pathMax spiffs fat ds := by
  obtain ⟨-, ds, hds, hpp⟩ := mountResolveToPhysical_inv (by omega) hcwd hpath hphys
  have hplain := normalComponents_plain hcwd hpath hds
  have hall := physicalText_plain spiffs fat hplain
  have hn : n = pathText ds := by
    obtain ⟨b, hb, hstr⟩ := hnorm
    obtain ⟨-, ds', hds', hblock⟩ := mountNormalizePath_inv (by omega) hcwd hpath hb
    rw [hds] at hds'
    cases hds'
    exact Except.ok.inj (hstr.symm.trans (hblock.holds hplain).str)
  subst hn
  have hpp' := hpp
  rw [physicalText_eq_joinPath] at hpp'
  have htail : ∀ d ∈ textComps (cutMount ds), slash ∉ d := fun d hd =>
    (hall d (List.mem_cons_of_mem _ hd)).slash_free
  have hmount : ∀ d ∈ mountComps (deviceName spiffs fat ds) ++ textComps (cutMount ds),
      slash ∉ d := by
    intro d hd
    rcases List.mem_append.mp hd with hd | hd
    · exact slash_notMem_mountComps _ d hd
    · exact htail d hd
  have hback : ∀ nb, mountNormalizePath pathMax (cwd ++ nul :: v) pp (some m₃) = .ok nb →
      (Returns (mountResolveToLogical pathMax (mountds spiffs fat) (cwd ++ nul :: v) pp
        (some m₃) (some m₄)) (pathText ds) ↔
      ds ≠ [] ∧ ds.getLast? ≠ some [] ∧
        (ds.head? = some sd ∨ (cutMount ds = ds ∧ defaultName spiffs fat ≠ chars "fat"))) := by
    intro nb hnb
    obtain ⟨lp, hlp, hholds⟩ := mountResolveToLogical_eq spiffs fat (by omega)
      (deviceName_cases spiffs fat ds) (textComps_ne_nil _) htail hpp' hnb m₄
    have hreturns : Returns _ _ := ⟨lp, hlp, hholds.str⟩
    rw [← trimEnd_mountComps_iff spiffs fat ds]
    constructor
    · intro h
      have heq := hreturns.unique h
      rw [pathText_eq_joinPath] at heq
      refine joinPath_injective (fun d hd => hmount d ((trimEnd_sublist _).subset hd)) ?_ heq
      unfold textComps
      split
      · intro d hd
        rw [List.mem_singleton.mp hd]
        exact List.not_mem_nil
      · exact fun d hd => (hplain d hd).slash_free
    · intro h
      rw [pathText_eq_joinPath, ← h]
      exact hreturns
  constructor
  · intro h
    obtain ⟨lp, hlp, -⟩ := id h
    obtain ⟨nb, hnb⟩ := normalize_of_resolveToLogical hlp
    obtain ⟨hroot, hlast, hdevice⟩ := (hback nb hnb).mp h
    have hlt := physicalText_lt_of_normalize hmax hcwd hplain hlast hpp hnb
    exact ⟨ds, hds, (length_physicalText hmax hdevice).mp hlt, hroot, hlast, hdevice⟩
  · rintro ⟨ds', hds', hfits, hroot, hlast, hdevice⟩
    rw [hds] at hds'
    cases hds'
    have hlt := (length_physicalText hmax hdevice).mpr hfits
    obtain ⟨post, hpost, -⟩ := hpp'.exists_post
    rw [physicalText_eq_joinPath] at hlt
    obtain ⟨nb, hnb⟩ := normalize_joinPath_ok (by omega) hcwd (List.cons_ne_nil _ _) hall hlt v
      post m₃
    rw [← hpost] at hnb
    exact (hback (some nb) hnb).mpr ⟨hroot, hlast, hdevice⟩

end RoundTrip

/-! ## Two round trips -/

/-- "x" in "/sd" is "/sd/x", "/fat/x" and again "/sd/x". -/
theorem roundTrip_iff_sd_x :
    Returns (mountResolveToLogical 256 (mountds 1 1) (lit "/sd")
      (chars "/fat/x" ++ List.replicate 250 nul ++ [0xa5]) (some (freshBlock 257))
      (some (freshBlock 257))) (chars "/sd/x") :=
  (roundTrip_iff (Nat.le_refl 256) (by decide) (by decide)
    (show mountResolveToPhysical 256 (mountds 1 1) (chars "/sd" ++ nul :: [])
        (chars "x" ++ nul :: [])
      (some (freshBlock 257)) (some (freshBlock 257)) =
        .ok (some (chars "/fat/x" ++ List.replicate 250 nul ++ [0xa5])) by decide +kernel)
    (show Returns (mountNormalizePath 256 (chars "/sd" ++ nul :: []) (chars "x" ++ nul :: [])
      (some (freshBlock 257))) (chars "/sd/x") from
        ⟨chars "/sd/x" ++ nul :: nul :: List.replicate 250 0xa5, by decide +kernel,
          by decide +kernel⟩)
    (freshBlock 257) (freshBlock 257)).mpr
      ⟨[sd, chars "x"], by decide +kernel, by decide, by decide, by decide, .inl (by decide)⟩

/-- "/" is "/spiffs/", which comes back as the empty string. -/
theorem roundTrip_root :
    mountResolveToPhysical 256 (mountds 1 1) (lit "") (lit "/") (some (freshBlock 257))
      (some (freshBlock 257)) =
        .ok (some (chars "/spiffs/" ++ List.replicate 248 nul ++ [0xa5])) ∧
    Returns (mountNormalizePath 256 (lit "") (lit "/") (some (freshBlock 257))) (chars "/") ∧
    ¬ Returns (mountResolveToLogical 256 (mountds 1 1) (lit "")
      (chars "/spiffs/" ++ List.replicate 248 nul ++ [0xa5]) (some (freshBlock 257))
      (some (freshBlock 257))) (chars "/") := by
  have hback : Returns (mountResolveToLogical 256 (mountds 1 1) (lit "")
      (chars "/spiffs/" ++ List.replicate 248 nul ++ [0xa5]) (some (freshBlock 257))
      (some (freshBlock 257))) [] :=
    ⟨List.replicate 256 nul ++ [0xa5], by decide +kernel, by decide +kernel⟩
  refine ⟨by decide +kernel, ⟨chars "/" ++ List.replicate 255 nul ++ [0xa5], by decide +kernel,
    by decide +kernel⟩, fun h => ?_⟩
  exact absurd (hback.unique h) (by decide)

end LuaRtos.Sys
