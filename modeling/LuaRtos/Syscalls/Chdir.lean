/-
  LuaRtos.Syscalls.Chdir

  The chdir system call of syscalls/chdir.c over the path resolution of
  sys/mount.c, and what the current directory is over whole runs of it.

  The directory test is an answer of the file system and part of the call.
-/

import LuaRtos.Lts.Run
import LuaRtos.Sys.MountRoundTrip

namespace LuaRtos.Syscalls

open LuaRtos.CLib LuaRtos.Sys

/-! ## The call -/

/-- A call of chdir: its argument, with what lies behind it in memory, the
    mounted devices at that time, what the allocations of the two resolutions
    return, and whether the path is a directory. -/
structure ChdirCall (pathMax : Nat) where
  path : List Byte
  nul_free : nul ∉ path
  rest : List Byte
  spiffs : BitVec 32
  fat : BitVec 32
  malloc₁ : Option (Block (pathMax + 1))
  malloc₂ : Option (Block (pathMax + 1))
  malloc₃ : Option (Block (pathMax + 1))
  malloc₄ : Option (Block (pathMax + 1))
  isDir : Bool

/-- The argument in memory. -/
def ChdirCall.arg {pathMax : Nat} (a : ChdirCall pathMax) : List Byte := a.path ++ nul :: a.rest

/-- The mount table at the time of the call. -/
def ChdirCall.devices {pathMax : Nat} (a : ChdirCall pathMax) : List Mountd :=
  mountds a.spiffs a.fat

/-- `chdir`: the error, and the array `currdir` after the call. -/
def chdir (pathMax : Nat) (currdir : List Byte) (a : ChdirCall pathMax) :
    Result (Errno × List Byte) := do
  if pathMax < (← strlen a.arg) then pure (.enametoolong, currdir)
  else
    match ← mountResolveToPhysical pathMax a.devices currdir a.arg a.malloc₁ a.malloc₂ with
    | none => throw .nullDeref
    | some ppath =>
      if (← strcmp ppath (lit "/spiffs/")) = 0 then do
        let currdir ← strncpy currdir (lit "") pathMax
        pure (.success, currdir)
      else if (← strcmp ppath (lit "/fat/")) = 0 then do
        let currdir ← strncpy currdir (lit "/sd") pathMax
        pure (.success, currdir)
      else
        -- Not on root
        match ← mountResolveToLogical pathMax a.devices currdir ppath a.malloc₃ a.malloc₄ with
        | none => pure (.enotdir, currdir)
        | some lpath =>
          if a.isDir = false then pure (.enotdir, currdir)
          else do
            let currdir ← strncpy currdir lpath pathMax
            pure (.success, currdir)

/-- The current directory over runs of chdir; it is the empty string at boot. -/
def chdirSys (pathMax : Nat) : Lts (List Byte) (ChdirCall pathMax) where
  init s := s = List.replicate (pathMax + 1) nul
  step s a s' := ∃ e, chdir pathMax s a = .ok (e, s')

/-! ## What a call should do -/

/-- `currdir` holds the empty string or a canonical absolute path. -/
structure CwdOk (pathMax : Nat) (s : List Byte) : Prop where
  size : s.length = pathMax + 1
  last : s[pathMax]? = some nul
  canonical : ∃ cwd, readStr s = .ok cwd ∧ (cwd = [] ∨ ∃ p : AbsPath, cwd = p.text)

/-- `getcwd` answers the string `n`, whatever buffer it is given. -/
def CwdIs (pathMax : Nat) (s n : List Byte) : Prop :=
  ∀ pt : Block (pathMax + 1), ∃ b, getcwd s pt.bytes = .ok b ∧ readStr b = .ok n

/-- The argument of the call is normalized to the string `n`, whatever memory
    that uses. -/
def ArgIs (pathMax : Nat) (s : List Byte) (a : ChdirCall pathMax) (n : List Byte) : Prop :=
  ∀ m : Block (pathMax + 1), Returns (mountNormalizePath pathMax s a.arg (some m)) n

/-- The call returns with a current directory that is empty or canonical: the
    old one when it fails, and when it succeeds one that `getcwd` answers as
    the normalized argument. -/
def ChdirKeeps (pathMax : Nat) (s : List Byte) (a : ChdirCall pathMax) : Prop :=
  ∃ e s', chdir pathMax s a = .ok (e, s') ∧ CwdOk pathMax s' ∧ (e ≠ .success → s' = s) ∧
    (e = .success → ∃ n, CwdIs pathMax s' n ∧ ArgIs pathMax s a n)

/-- The paths that chdir can handle: no component is empty, and the path is
    under the mount point, or it is one of the device on the root that is not
    cut, and that device is not the one of the mount point. -/
structure Keepable (spiffs fat : BitVec 32) (ds : List Comp) : Prop where
  no_empty : ∀ d ∈ ds, d ≠ []
  device : ds.head? = some sd ∨ (cutMount ds = ds ∧ defaultName spiffs fat ≠ chars "fat")

/-- The path is not the root of a device. -/
def OffRoot (spiffs fat : BitVec 32) (ds : List Comp) : Prop :=
  deviceName spiffs fat ds = [] ∨ (cutMount ds ≠ [] ∧ cutMount ds ≠ [[]])

/-- The calls that do what chdir should do: the argument is too long, or it
    fits with its current directory, does not climb above the root, the
    physical path fits and the memory for it is there, and the path is one that
    chdir can handle, or one that the call refuses. -/
def ChdirOk (pathMax : Nat) (s : List Byte) (a : ChdirCall pathMax) : Prop :=
  pathMax < a.path.length ∨
    ∃ cwd ds, readStr s = .ok cwd ∧
      (fullPath pathMax cwd a.path).length ≤ pathMax ∧
      (a.path.head? = some slash → a.path.length < pathMax) ∧
      normalComponents pathMax cwd a.path = some ds ∧
      (physicalText a.spiffs a.fat ds).length < pathMax ∧
      a.malloc₁.isSome ∧ a.malloc₂.isSome ∧
      (Keepable a.spiffs a.fat ds ∨
        (OffRoot a.spiffs a.fat ds ∧ (a.malloc₄ = none ∨ a.isDir = false)))

section Step

variable {pathMax : Nat} {s s' cwd t : List Byte} {a : ChdirCall pathMax} {ds : List Comp}
  {spiffs fat : BitVec 32}

/-! ## Setting the current directory -/

/-- The last byte of `currdir` is never written, so every string of at most
    PATH_MAX characters ends in it. -/
theorem CwdOk.strncpy_holds (h : CwdOk pathMax s) (ht : nul ∉ t) (hlen : t.length ≤ pathMax)
    (w : List Byte) :
    ∃ s', strncpy s (t ++ nul :: w) pathMax = .ok s' ∧ Holds (pathMax + 1) s' t ∧
      s'[pathMax]? = some nul := by
  have hsize := h.size
  have hdrop : s.drop pathMax = [nul] := by
    rw [List.drop_eq_getElem_cons (by omega), List.drop_eq_nil_of_le (by omega)]
    have hlast := h.last
    rw [List.getElem?_eq_getElem (by omega), Option.some.injEq] at hlast
    rw [hlast]
  have heq := strncpy_eq ht w (show pathMax ≤ s.length by omega)
  rw [List.take_of_length_le hlen, hdrop] at heq
  refine ⟨_, heq, ⟨?_, ?_⟩, ?_⟩
  · simp only [List.length_append, List.length_replicate, List.length_singleton]
    omega
  · have hpad : List.replicate (pathMax - t.length) nul ++ [nul] =
        nul :: List.replicate (pathMax - t.length) nul := by
      rw [← List.replicate_succ', List.replicate_succ]
    rw [List.append_assoc, hpad]
    exact readStr_append ht _
  · rw [List.getElem?_append_right (by
      simp only [List.length_append, List.length_replicate]
      omega)]
    simp only [List.length_append, List.length_replicate]
    rw [show pathMax - (t.length + (pathMax - t.length)) = 0 by omega]
    rfl

theorem cwdIs_rooted (h : Holds (pathMax + 1) s t) (hfit : (rooted t).length ≤ pathMax) :
    CwdIs pathMax s (rooted t) := by
  intro pt
  obtain ⟨post, rfl, -⟩ := h.exists_post
  obtain ⟨b, hb⟩ := getcwd_ok (v := post) h.nul_free pt.size (by omega)
  exact ⟨b, hb, (getcwd_inv h.nul_free pt.size (Nat.succ_pos _) hb).str⟩

/-! ## The three ends of a call -/

/-- The physical path is the root of a device when nothing but it is left. -/
theorem physicalText_eq_root_iff (spiffs fat : BitVec 32) (hds : ∀ d ∈ ds, Comp.Plain d) {d : Comp}
    (hd : slash ∉ d) :
    physicalText spiffs fat ds = slash :: (d ++ [slash]) ↔
      deviceName spiffs fat ds = d ∧ (cutMount ds = [] ∨ cutMount ds = [[]]) := by
  have hplain := physicalText_plain spiffs fat hds
  have hroot : slash :: (d ++ [slash]) = joinPath [d, []] := by simp
  have htext : textComps (cutMount ds) = [[]] ↔ cutMount ds = [] ∨ cutMount ds = [[]] := by
    unfold textComps
    split
    · rename_i hnil
      simp [hnil]
    · rename_i hnil
      simp [hnil]
  rw [physicalText_eq_joinPath, hroot, ← htext]
  constructor
  · intro h
    have hfree : ∀ e ∈ [d, []], slash ∉ e := by
      simp [hd]
    have heq := joinPath_injective (fun e he => (hplain e he).slash_free) hfree h
    exact ⟨(List.cons.inj heq).1, (List.cons.inj heq).2⟩
  · rintro ⟨hdev, htail⟩
    rw [hdev, htail]

theorem argIs_pathText (hmax : 0 < pathMax) (hs : readStr s = .ok cwd)
    (hfit : (fullPath pathMax cwd a.path).length ≤ pathMax)
    (habs : a.path.head? = some slash → a.path.length < pathMax)
    (hds : normalComponents pathMax cwd a.path = some ds) :
    ArgIs pathMax s a (pathText ds) ∧ (pathText ds).length ≤ pathMax := by
  obtain ⟨hcwd, v, rfl⟩ := readStr_eq_ok.mp hs
  have hnorm : ∀ m : Block (pathMax + 1), ∃ b,
      mountNormalizePath pathMax (cwd ++ nul :: v) a.arg (some m) = .ok (some b) ∧
        Holds (pathMax + 1) b (pathText ds) := by
    intro m
    obtain ⟨b, hb, hblock⟩ := mountNormalizePath_ok (v := v) (w := a.rest) hmax hcwd a.nul_free m
      hfit habs hds
    exact ⟨b, hb, hblock.holds (normalComponents_plain hcwd a.nul_free hds)⟩
  refine ⟨fun m => ?_, ?_⟩
  · obtain ⟨b, hb, hholds⟩ := hnorm m
    exact ⟨b, hb, hholds.str⟩
  · obtain ⟨b, -, hholds⟩ := hnorm (freshBlock (pathMax + 1))
    exact Nat.le_of_lt_succ hholds.length_lt

/-- A call that ends by setting the current directory to the path it got. -/
theorem chdirKeeps_success (hds : ∀ d ∈ ds, Comp.Plain d) (hne : ∀ d ∈ ds, d ≠ [])
    (harg : ArgIs pathMax s a (pathText ds)) (hfit : (pathText ds).length ≤ pathMax)
    (ht : t = pathText ds ∨ (t = [] ∧ ds = []))
    (hok : chdir pathMax s a = .ok (.success, s')) (hholds : Holds (pathMax + 1) s' t)
    (hlast : s'[pathMax]? = some nul) : ChdirKeeps pathMax s a := by
  have hroot : rooted t = pathText ds := by
    rcases ht with rfl | ⟨rfl, rfl⟩
    · exact rooted_pathText ds
    · rfl
  refine ⟨.success, s', hok, ⟨hholds.size, hlast, t, hholds.str, ?_⟩, fun h => absurd rfl h,
    fun _ => ⟨pathText ds, ?_, harg⟩⟩
  · rcases ht with rfl | ⟨rfl, -⟩
    · obtain ⟨p, hp⟩ := exists_absPath (fun d hd => (hds d hd).name)
        (fun d hd => (hds d hd).slash_free) (fun d hd => (hds d hd).nul_free) hne
      exact .inr ⟨p, by rw [AbsPath.text, hp]⟩
    · exact .inl rfl
  · rw [← hroot]
    exact cwdIs_rooted hholds (by rw [hroot]; exact hfit)

/-- Logical resolution of a physical path, with or without memory for its
    result. -/
theorem mountResolveToLogical_physicalText (hmax : 256 ≤ pathMax) (hcwd : nul ∉ cwd)
    (v : List Byte) (hds : ∀ d ∈ ds, Comp.Plain d) {pp : List Byte}
    (hpp : Holds (pathMax + 1) pp (physicalText spiffs fat ds))
    (hlt : (physicalText spiffs fat ds).length < pathMax) (m₃ m₄ : Option (Block (pathMax + 1))) :
    ∃ r, mountResolveToLogical pathMax (mountds spiffs fat) (cwd ++ nul :: v) pp m₃ m₄ = .ok r ∧
      (r = none ∧ m₄ = none ∨ ∃ lp, r = some lp ∧ m₄ ≠ none ∧
        Holds (pathMax + 1) lp (joinPath
          (trimEnd (mountComps (deviceName spiffs fat ds) ++ textComps (cutMount ds))))) := by
  have hplain := physicalText_plain spiffs fat hds
  rw [physicalText_eq_joinPath] at hpp hlt
  have htail : ∀ d ∈ textComps (cutMount ds), slash ∉ d := fun d hd =>
    (hplain d (List.mem_cons_of_mem _ hd)).slash_free
  have hnorm : ∃ nb, mountNormalizePath pathMax (cwd ++ nul :: v) pp m₃ = .ok nb := by
    cases m₃ with
    | none => exact ⟨none, rfl⟩
    | some m =>
      obtain ⟨post, rfl, -⟩ := hpp.exists_post
      obtain ⟨b, hb⟩ := normalize_joinPath_ok (by omega) hcwd (List.cons_ne_nil _ _) hplain hlt v
        post m
      exact ⟨some b, hb⟩
  obtain ⟨nb, hnb⟩ := hnorm
  cases m₄ with
  | none =>
    refine ⟨none, ?_, .inl ⟨rfl, rfl⟩⟩
    obtain ⟨post, rfl, -⟩ := hpp.exists_post
    have hget := mountGetDeviceFromPath_eq spiffs fat (deviceName_cases spiffs fat ds)
      (textComps_ne_nil (cutMount ds)) post
    simp only [mountResolveToLogical, hnb, ok_bind, hget, mountDeviceMountPath_eq, pure_eq_ok]
  | some m =>
    obtain ⟨lp, hlp, hholds⟩ := mountResolveToLogical_eq spiffs fat (by omega)
      (deviceName_cases spiffs fat ds) (textComps_ne_nil _) htail hpp hnb m
    exact ⟨some lp, hlp, .inr ⟨lp, rfl, by simp, hholds⟩⟩

/-- What a call returns once it has the physical path. -/
theorem chdir_of_physical {pp : List Byte} (hlen : ¬ pathMax < a.path.length)
    (hphys : mountResolveToPhysical pathMax a.devices s a.arg a.malloc₁ a.malloc₂ = .ok (some pp))
    (hpp : Holds (pathMax + 1) pp t) :
    chdir pathMax s a =
      if t = chars "/spiffs/" then
        strncpy s (lit "") pathMax >>= fun s => .ok (.success, s)
      else if t = chars "/fat/" then
        strncpy s (lit "/sd") pathMax >>= fun s => .ok (.success, s)
      else
        mountResolveToLogical pathMax a.devices s pp a.malloc₃ a.malloc₄ >>= fun
          | none => .ok (.enotdir, s)
          | some lpath => if a.isDir = false then .ok (.enotdir, s)
            else strncpy s lpath pathMax >>= fun s => .ok (.success, s) := by
  obtain ⟨post, rfl, -⟩ := hpp.exists_post
  have hstrlen : strlen a.arg = .ok a.path.length := strlen_append a.nul_free a.rest
  obtain ⟨r₁, hr₁, hiff₁⟩ := strcmp_append hpp.nul_free
    (show nul ∉ chars "/spiffs/" by decide) post []
  obtain ⟨r₂, hr₂, hiff₂⟩ := strcmp_append hpp.nul_free
    (show nul ∉ chars "/fat/" by decide) post []
  change strcmp _ (lit "/spiffs/") = _ at hr₁
  change strcmp _ (lit "/fat/") = _ at hr₂
  simp only [chdir, hstrlen, ok_bind, if_neg hlen, hphys, hr₁, hr₂, hiff₁, hiff₂, pure_eq_ok]

/-- A path that chdir can handle and that is the root of a device. -/
theorem Keepable.root_cases (h : Keepable spiffs fat ds)
    (hcut : cutMount ds = [] ∨ cutMount ds = [[]]) :
    (ds = [] ∧ defaultName spiffs fat ≠ chars "fat") ∨ ds = [sd] := by
  rcases h.device with hsd | ⟨hself, hdefault⟩
  · rw [eq_sd_cons hsd, cutMount_sd] at hcut
    rcases hcut with hcut | hcut
    · exact .inr (by rw [eq_sd_cons hsd, hcut])
    · have hmem : [] ∈ ds := by
        rw [eq_sd_cons hsd, hcut]
        simp
      exact absurd rfl (h.no_empty [] hmem)
  · rw [hself] at hcut
    rcases hcut with hcut | hcut
    · exact .inl ⟨hcut, hdefault⟩
    · exact absurd rfl (h.no_empty [] (by rw [hcut]; simp))

/-- The logical path of a path that chdir can handle is that path; the root comes back
    as the empty path, which `getcwd` makes absolute again. -/
theorem Keepable.logical (h : Keepable spiffs fat ds) {lp : List Byte}
    (hholds : Holds (pathMax + 1) lp (joinPath
      (trimEnd (mountComps (deviceName spiffs fat ds) ++ textComps (cutMount ds))))) :
    ∃ t, (t = pathText ds ∨ (t = [] ∧ ds = [])) ∧ Holds (pathMax + 1) lp t := by
  by_cases hnil : ds = []
  · subst hnil
    have hdefault := (h.device.resolve_left (by simp)).2
    have hmount : mountComps (deviceName spiffs fat []) = [] := if_neg hdefault
    rw [hmount] at hholds
    exact ⟨[], .inr ⟨rfl, rfl⟩, hholds⟩
  · have hlast : ds.getLast? ≠ some [] := fun hlast =>
      h.no_empty [] (List.mem_of_getLast? hlast) rfl
    rw [(trimEnd_mountComps_iff spiffs fat ds).mpr ⟨hnil, hlast, h.device⟩,
      ← pathText_eq_joinPath] at hholds
    exact ⟨pathText ds, .inl rfl, hholds⟩

/-- A path that is the root of a device is not refused. -/
theorem not_offRoot {d : Comp} (hdev : deviceName spiffs fat ds = d) (hd : d ≠ [])
    (hcut : cutMount ds = [] ∨ cutMount ds = [[]]) : ¬ OffRoot spiffs fat ds := by
  rintro (h | ⟨h₁, h₂⟩)
  · exact hd (hdev.symm.trans h)
  · exact hcut.elim h₁ h₂

/-! ## The step and the run -/

/-- One call that meets the condition, from any state that meets the invariant. -/
theorem chdirKeeps_of_chdirOk (hmax : 256 ≤ pathMax) (hs : CwdOk pathMax s)
    (ha : ChdirOk pathMax s a) : ChdirKeeps pathMax s a := by
  have hstrlen : strlen a.arg = .ok a.path.length := strlen_append a.nul_free a.rest
  by_cases hlen : pathMax < a.path.length
  · refine ⟨.enametoolong, s, ?_, hs, fun _ => rfl, fun h => by cases h⟩
    simp only [chdir, hstrlen, ok_bind, if_pos hlen, pure_eq_ok]
  obtain ⟨cwd, ds, hcwd, hfit, habs, hds, hlt, hm₁, hm₂, hcase⟩ := ha.resolve_left hlen
  obtain ⟨m₁, hm₁⟩ := Option.isSome_iff_exists.mp hm₁
  obtain ⟨m₂, hm₂⟩ := Option.isSome_iff_exists.mp hm₂
  obtain ⟨harg, hn⟩ := argIs_pathText (by omega) hcwd hfit habs hds
  obtain ⟨hnul, v, hsv⟩ := readStr_eq_ok.mp hcwd
  have hplain := normalComponents_plain hnul a.nul_free hds
  obtain ⟨pp, hphys⟩ := mountResolveToPhysical_ok (v := v) (w := a.rest) (by omega) hnul a.nul_free
    hfit habs hds (Nat.le_of_lt hlt) m₁ m₂
  rw [← hm₁, ← hm₂, ← hsv] at hphys
  have hpp : Holds (pathMax + 1) pp (physicalText a.spiffs a.fat ds) := by
    rw [hsv] at hphys
    obtain ⟨-, ds', hds', hpp⟩ := mountResolveToPhysical_inv (by omega) hnul a.nul_free hphys
    rw [hds] at hds'
    cases hds'
    exact hpp
  have hcall := chdir_of_physical hlen hphys hpp
  have hspiffs := physicalText_eq_root_iff a.spiffs a.fat hplain
    (show slash ∉ chars "spiffs" by decide)
  have hfat := physicalText_eq_root_iff a.spiffs a.fat hplain
    (show slash ∉ chars "fat" by decide)
  change physicalText a.spiffs a.fat ds = chars "/spiffs/" ↔ _ at hspiffs
  change physicalText a.spiffs a.fat ds = chars "/fat/" ↔ _ at hfat
  by_cases hroot : physicalText a.spiffs a.fat ds = chars "/spiffs/"
  · -- the root of spiffs: the path is the root
    obtain ⟨hdev, hcut⟩ := hspiffs.mp hroot
    have hkeep := hcase.resolve_right fun h => not_offRoot hdev (by decide) hcut h.1
    obtain ⟨rfl, -⟩ | rfl := hkeep.root_cases hcut
    · obtain ⟨s', hs', hholds, hlast⟩ :=
        hs.strncpy_holds (t := []) List.not_mem_nil (Nat.zero_le _) []
      refine chdirKeeps_success hplain hkeep.no_empty harg hn (.inr ⟨rfl, rfl⟩) ?_ hholds hlast
      rw [hcall, if_pos hroot]
      exact congrArg (· >>= _) hs'
    · have hsd : deviceName a.spiffs a.fat [sd] = chars "fat" := if_pos rfl
      exact absurd (hsd.symm.trans hdev) (by decide)
  by_cases hroot' : physicalText a.spiffs a.fat ds = chars "/fat/"
  · -- the root of fat: the path is the mount point
    obtain ⟨hdev, hcut⟩ := hfat.mp hroot'
    have hkeep := hcase.resolve_right fun h => not_offRoot hdev (by decide) hcut h.1
    obtain ⟨rfl, hdefault⟩ | rfl := hkeep.root_cases hcut
    · exact absurd hdev hdefault
    · obtain ⟨s', hs', hholds, hlast⟩ := hs.strncpy_holds (t := chars "/sd") (by decide)
        (show 3 ≤ pathMax by omega) []
      refine chdirKeeps_success hplain hkeep.no_empty harg hn (.inl rfl) ?_ hholds hlast
      rw [hcall, if_neg hroot, if_pos hroot']
      exact congrArg (· >>= _) hs'
  · -- no root: the logical path decides, and `stat` on it
    rw [if_neg hroot, if_neg hroot'] at hcall
    obtain ⟨r, hr, hlogical⟩ := mountResolveToLogical_physicalText hmax hnul v hplain hpp hlt
      a.malloc₃ a.malloc₄
    rw [← hsv] at hr
    change mountResolveToLogical pathMax a.devices s pp a.malloc₃ a.malloc₄ = .ok r at hr
    rw [hr, ok_bind] at hcall
    have hrefused : chdir pathMax s a = .ok (.enotdir, s) → ChdirKeeps pathMax s a := fun h =>
      ⟨.enotdir, s, h, hs, fun _ => rfl, fun h => by cases h⟩
    rcases hlogical with ⟨rfl, -⟩ | ⟨lp, rfl, hm₄, hholds⟩
    · exact hrefused hcall
    by_cases hdir : a.isDir = false
    · exact hrefused (hcall.trans (if_pos hdir))
    have hkeep := hcase.resolve_right fun h => h.2.elim hm₄ hdir
    obtain ⟨t, ht, hholds⟩ := hkeep.logical hholds
    obtain ⟨post, rfl, -⟩ := hholds.exists_post
    obtain ⟨s', hs', hholds', hlast⟩ := hs.strncpy_holds hholds.nul_free
      (Nat.le_of_lt_succ hholds.length_lt) post
    refine chdirKeeps_success hplain hkeep.no_empty harg hn ht ?_ hholds' hlast
    rw [hcall]
    simp only [if_neg hdir, hs', ok_bind]

/-- `currdir` at boot. -/
theorem cwdOk_init : CwdOk pathMax (List.replicate (pathMax + 1) nul) :=
  ⟨List.length_replicate, by simp, [], by rw [List.replicate_succ]; rfl, .inl rfl⟩

/-- In every state of a run whose calls meet the condition the current
    directory is empty or canonical, and every further call that meets it does
    what chdir should do. -/
theorem chdir_keeps_cwd (hmax : 256 ≤ pathMax)
    (h : (chdirSys pathMax).Reach (ChdirOk pathMax) s) :
    CwdOk pathMax s ∧ ∀ a, ChdirOk pathMax s a → ChdirKeeps pathMax s a := by
  have hinv : CwdOk pathMax s := by
    refine h.invariant ?_ ?_
    · rintro s rfl
      exact cwdOk_init
    · rintro s a s' hs ha ⟨e, hstep⟩
      obtain ⟨e', s'', hok, hs'', -⟩ := chdirKeeps_of_chdirOk hmax hs ha
      rw [hstep] at hok
      cases hok
      exact hs''
  exact ⟨hinv, fun a ha => chdirKeeps_of_chdirOk hmax hinv ha⟩

end Step

/-! ## Two runs -/

/-- A call for a directory, with both devices mounted and memory to spare. -/
def callFor (path : List Byte) (h : nul ∉ path) : ChdirCall 256 :=
  ⟨path, h, [], 1, 1, some (freshBlock 257), some (freshBlock 257), some (freshBlock 257),
    some (freshBlock 257), true⟩

/-- `currdir` with the string `t`. -/
def currdirOf (t : List Byte) : List Byte := t ++ List.replicate (257 - t.length) nul

/-- After chdir("/sd/lib"), chdir("..") does what it should. -/
theorem chdir_keeps_cwd_parent :
    ChdirKeeps 256 (currdirOf (chars "/sd/lib")) (callFor (chars "..") (by decide)) :=
  (chdir_keeps_cwd (Nat.le_refl 256)
    (.step (a := callFor (chars "/sd/lib") (by decide)) (.init rfl)
      (.inr ⟨[], [sd, chars "lib"], by decide +kernel, by decide, by decide, by decide +kernel,
        by decide, rfl, rfl, .inl ⟨by decide, .inl (by decide)⟩⟩)
      (show ∃ e, chdir 256 (currdirOf []) _ = .ok (e, currdirOf (chars "/sd/lib")) from
        ⟨.success, by decide +kernel⟩))).2 _
    (.inr ⟨chars "/sd/lib", [sd], by decide +kernel, by decide, by decide, by decide +kernel,
      by decide, rfl, rfl, .inl ⟨by decide, .inl (by decide)⟩⟩)

/-- At boot chdir("/s/x") sets the current directory to "/x". -/
theorem chdir_s_x : ¬ ChdirKeeps 256 (currdirOf []) (callFor (chars "/s/x") (by decide)) := by
  rintro ⟨e, s', hok, -, -, hsuccess⟩
  have hcall : chdir 256 (currdirOf []) (callFor (chars "/s/x") (by decide)) =
      .ok (.success, currdirOf (chars "/x")) := by
    decide +kernel
  rw [hcall] at hok
  cases hok
  obtain ⟨n, hcwd, harg⟩ := hsuccess rfl
  obtain ⟨b, hb, hn⟩ := hcwd (freshBlock 257)
  have hgetcwd : getcwd (currdirOf (chars "/x")) (freshBlock 257).bytes =
      .ok (chars "/x" ++ nul :: List.replicate 254 0xa5) := by
    decide +kernel
  rw [hgetcwd] at hb
  cases hb
  have hnorm : Returns (mountNormalizePath 256 (currdirOf [])
      (callFor (chars "/s/x") (by decide)).arg (some (freshBlock 257))) (chars "/s/x") :=
    ⟨chars "/s/x" ++ List.replicate 252 nul ++ [0xa5], by decide +kernel,
      by decide +kernel⟩
  have hne := (harg (freshBlock 257)).unique hnorm
  rw [hne] at hn
  exact absurd hn (by decide +kernel)

end LuaRtos.Syscalls
