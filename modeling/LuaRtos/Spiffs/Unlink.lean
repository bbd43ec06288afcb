/-
  LuaRtos.Spiffs.Unlink

  `vfs_spiffs_unlink` of a directory.

  The directory is read to see whether it is empty, and its marker removed if
  so.  The reading shows the immediate children only: an object further down is
  not seen where the directories between have no markers.

  The paths that the file system gets are those that path resolution makes, and
  resolving them again leads to the same file system and path.
-/

import LuaRtos.Spiffs.Listing

namespace LuaRtos.Spiffs

open CLib Sys

/-! ## The functions -/

/-- `is_dir`. -/
def isDir (objs : Objects) (path : List Byte) : Bool :=
  objs.names.any fun name => (dirPath path).isPrefixOf name

/-- `vfs_spiffs_stat`, as far as the type: `able` when it gets its memory and its
    handles. -/
def vfsSpiffsStat (objs : Objects) (able : Bool) (path : List Byte) : Option DType :=
  if !able then none
  else if isDir objs path then if dirPath path ∈ objs.names then some .dir else none
  else if path ∈ objs.names then some .reg else none

/-- The loop of readdir calls, of at most `n` rounds. -/
def readAll (ds : List Mountd) : Nat → Dir → Option (List Dirent)
  | 0, _ => none
  | n + 1, dir =>
    match vfsSpiffsReaddir ds dir with
    | (none, _) => some []
    | (some ent, dir) => (readAll ds n dir).map (ent :: ·)

/-- What the calls of `vfs_spiffs_unlink` meet with. -/
structure UnlinkEnv where
  /-- Whether `vfs_spiffs_stat` gets its memory and its handles. -/
  stat : Bool
  /-- Whether `calloc` has memory for the stream. -/
  memory : Bool
  /-- The error of `SPIFFS_opendir`. -/
  opendir : Option Int
  /-- Whether `closedir(NULL)` returns. -/
  closedir_null : Bool
  /-- The error of `SPIFFS_open` for an object that is there. -/
  open_ : Option Int
  /-- The error of `SPIFFS_fremove`. -/
  fremove : Option Int
deriving DecidableEq, Repr

/-- The end of `vfs_spiffs_unlink`: the error number, if it fails, and the objects. -/
def removeObject (objs : Objects) (env : UnlinkEnv) (npath : List Byte) :
    Option Int × List (List Byte) :=
  if npath ∉ objs.names then (some (spiffsResult SPIFFS_ERR_NOT_FOUND), objs.names)
  else
    match env.open_ with
    | some err => (some (spiffsResult err), objs.names)
    | none =>
      match env.fremove with
      | some err => (some (spiffsResult err), objs.names)
      | none => (none, objs.names.erase npath)

/-- `vfs_spiffs_unlink`: none when it does not return. -/
def vfsSpiffsUnlink (ds : List Mountd) (objs : Objects) (env : UnlinkEnv) (path : List Byte) :
    Option (Option Int × List (List Byte)) :=
  let npath := strlcpy path PATH_MAX
  if isDir objs path then
    let npath := if path ≠ root then strlcat npath [slash, dot] PATH_MAX else npath
    -- Check if directory is empty
    match vfsSpiffsOpendir objs path (chars "/spiffs" ++ path) (vfsSpiffsStat objs env.stat path)
      env.memory env.opendir with
    | .error _ => if env.closedir_null then some (removeObject objs env npath) else none
    | .ok dir => do
      let ents ← readAll ds (objs.names.length + 2) dir
      -- Directory not empty, cannot remove
      if ents.length > 0 then return (some ENOTEMPTY, objs.names)
      else return removeObject objs env npath
  else some (removeObject objs env npath)

/-! ## What it is to do -/

/-- The own marker of a directory. -/
def ownMarker (path : List Byte) : List Byte := under path [dot]

/-- Nothing lies under a directory but its own marker. -/
def Empty (objs : Objects) (path : List Byte) : Prop :=
  ∀ name ∈ objs.names, under path [] <+: name → name = ownMarker path

/-- A call succeeds on an empty directory only, and removes its marker and nothing
    else; or it returns an error and leaves the objects alone. -/
def UnlinksRight (objs : Objects) (path : List Byte) :
    Option (Option Int × List (List Byte)) → Prop
  | some (none, names) =>
    Empty objs path ∧ ∀ name, name ∈ names ↔ name ∈ objs.names ∧ name ≠ ownMarker path
  | some (some _, names) => names = objs.names
  | none => False

/-- The stream of the directory can be opened. -/
def Opens (env : UnlinkEnv) (path : List Byte) : Prop :=
  (path = root ∨ env.stat = true) ∧ env.memory = true ∧ env.opendir = none

/-- There is something that the listing shows. -/
def Shows (ds : List Mountd) (objs : Objects) (path : List Byte) : Prop :=
  mountPoints ds path ≠ [] ∨ (∃ ent, Child objs path ent) ∨ path = root ∧ Doubled objs

/-- SPIFFS does not remove the object. -/
def Refuses (env : UnlinkEnv) : Prop := env.open_ ≠ none ∨ env.fremove ≠ none

/-- There is nothing that the removal could be wrong about: the directory is empty
    or, if it is the root, has no object to remove. -/
def Bare (objs : Objects) (path : List Byte) : Prop :=
  if path = root then root ∉ objs.names else Empty objs path

/-- What lies under the directory is seen, or not removed from. -/
def Safe (ds : List Mountd) (objs : Objects) (env : UnlinkEnv) (path : List Byte) : Prop :=
  (isDir objs path = true → Opens env path ∨ env.closedir_null = true) ∧
    (isDir objs path = true ∧ Opens env path ∧ Shows ds objs path ∨ Refuses env ∨
      Bare objs path)

/-! ## The removal -/

section Unlink

variable {ds : List Mountd} {objs : Objects} {env : UnlinkEnv} {path : List Byte} {dir : Dir}
  {ents : List Dirent}

/-- The object that is removed. -/
def target (path : List Byte) : List Byte := if path = root then root else marker path

theorem ownMarker_eq (hpath : path ≠ root) : ownMarker path = marker path := if_neg hpath

theorem Objects.Directory.marker_mem (h : objs.Directory path) (hpath : path ≠ root) :
    marker path ∈ objs.names := by
  rcases h with hroot | ⟨-, -, hmarker⟩
  · exact absurd hroot hpath
  · exact hmarker

theorem Objects.Directory.length_le (h : objs.Directory path) : path.length ≤ 61 := by
  rcases h with rfl | ⟨-, -, hmarker⟩
  · decide
  · have hfits : (marker path).length < 64 := (objs.valid _ hmarker).fits
    rw [length_marker] at hfits
    omega

/-- A removal that succeeds is right where there is nothing to be wrong about. -/
theorem removeObject_iff (h : objs.Directory path) :
    UnlinksRight objs path (some (removeObject objs env (target path))) ↔
      Refuses env ∨ Bare objs path := by
  unfold removeObject
  by_cases hmem : target path ∈ objs.names
  swap
  · rw [if_pos hmem]
    refine ⟨fun _ => .inr ?_, fun _ => rfl⟩
    by_cases hroot : path = root
    · subst hroot
      exact (if_pos rfl).mpr hmem
    · rw [target, if_neg hroot] at hmem
      exact absurd (h.marker_mem hroot) hmem
  rw [if_neg (not_not_intro hmem)]
  cases hopen : env.open_ with
  | some err => exact ⟨fun _ => .inl (.inl (by rw [hopen]; exact nofun)), fun _ => rfl⟩
  | none =>
    cases hremove : env.fremove with
    | some err => exact ⟨fun _ => .inl (.inr (by rw [hremove]; exact nofun)), fun _ => rfl⟩
    | none =>
      have haccepts : ¬ Refuses env := by
        rintro (hrefuses | hrefuses)
        · exact hrefuses hopen
        · exact hrefuses hremove
      rw [or_iff_right haccepts]
      show (Empty objs path ∧ ∀ name, name ∈ objs.names.erase (target path) ↔ _) ↔ _
      by_cases hroot : path = root
      · -- the root has no object of its own to remove
        subst hroot
        have hmem' : root ∈ objs.names := hmem
        constructor
        · rintro ⟨hempty, -⟩
          exact absurd (hempty root hmem' (List.prefix_refl _)) (by decide)
        · intro hbare
          exact absurd hmem' hbare
      · have hbare : Bare objs path ↔ Empty objs path := by
          unfold Bare
          rw [if_neg hroot]
        rw [hbare, ownMarker_eq hroot, target, if_neg hroot]
        refine ⟨And.left, fun hempty => ⟨hempty, fun name => ?_⟩⟩
        rw [objs.nodup.mem_erase_iff, and_comm]

/-! ## The reading -/

theorem readAll_eq {n : Nat} (h : Reads ds dir ents) (hn : ents.length < n) :
    readAll ds n dir = some ents := by
  induction h generalizing n with
  | done h =>
    cases n with
    | zero => cases hn
    | succ n =>
      rw [readAll]
      generalize hread : vfsSpiffsReaddir ds _ = r at h ⊢
      obtain ⟨ent, dir⟩ := r
      obtain rfl : ent = none := h
      rfl
  | next h _ ih =>
    cases n with
    | zero => cases hn
    | succ n =>
      rw [readAll, h]
      dsimp only
      rw [ih (Nat.lt_of_succ_lt_succ hn)]
      rfl

/-- The listing shows something exactly where there is something that it shows. -/
theorem shows_iff (h : objs.Directory path) :
    mountPoints ds path ++ objs.names.filterMap (entryOf path) ≠ [] ↔ Shows ds objs path := by
  have hpath := h.length
  rw [Ne, List.append_eq_nil_iff, not_and_or]
  refine or_congr Iff.rfl ?_
  rw [List.filterMap_eq_nil_iff]
  push Not
  constructor
  · rintro ⟨fn, hfn, hentry⟩
    obtain ⟨ent, hent⟩ := Option.ne_none_iff_exists'.mp hentry
    obtain ⟨hnamed, p, hlisted, rfl⟩ := (entryOf_object hpath hfn).mp hent
    rcases hlisted with rfl | ⟨rfl, rfl⟩
    · exact .inl ⟨ent, child_iff.mpr ⟨hnamed, hfn⟩⟩
    · exact .inr ⟨rfl, ent, hnamed, hfn⟩
  · rintro (⟨ent, hchild⟩ | ⟨rfl, ent, hnamed, hobject⟩)
    · obtain ⟨hnamed, hobject⟩ := child_iff.mp hchild
      refine ⟨_, hobject, ?_⟩
      rw [(entryOf_object hpath hobject).mpr ⟨hnamed, _, .inl rfl, rfl⟩]
      exact nofun
    · refine ⟨_, hobject, ?_⟩
      rw [(entryOf_object hpath hobject).mpr ⟨hnamed, _, .inr ⟨rfl, rfl⟩, rfl⟩]
      exact nofun

theorem length_listing_lt :
    (mountPoints ds path ++ objs.names.filterMap (entryOf path)).length <
      objs.names.length + 2 := by
  have hentries := List.length_filterMap_le (entryOf path) objs.names
  have hmounts : (mountPoints ds path).length ≤ 1 := by
    unfold mountPoints
    rw [List.length_map]
    exact List.length_filter_le ..
  rw [List.length_append]
  omega

/-- A directory other than the root is taken for one. -/
theorem isDir_of_marker (h : objs.Directory path) (hpath : path ≠ root) :
    isDir objs path = true := by
  unfold isDir
  rw [dirPath_eq hpath h.length_le]
  exact List.any_eq_true.mpr ⟨_, h.marker_mem hpath,
    List.isPrefixOf_iff_prefix.mpr (List.prefix_refl _)⟩

theorem stat_directory (h : objs.Directory path) (hpath : path ≠ root) (able : Bool) :
    vfsSpiffsStat objs able path = if able then some .dir else none := by
  have hmarker := h.marker_mem hpath
  unfold vfsSpiffsStat
  rw [dirPath_eq hpath h.length_le, if_pos (isDir_of_marker h hpath), if_pos hmarker]
  cases able with
  | true => rfl
  | false => rfl

/-- Without the memory or SPIFFS there is no stream. -/
theorem opendir_checked {ppath : List Byte} {stat : Option DType}
    (hfound : ppath ≠ chars "/spiffs/" → stat = some .dir) :
    vfsSpiffsOpendir objs path ppath stat env.memory env.opendir =
      if !env.memory then .error ENOMEM
      else
        match env.opendir with
        | some err => .error (spiffsResult err)
        | none => .ok ⟨strlcpy path MAXNAMLEN, objs.names, false⟩ := by
  have hthere : ¬ (ppath ≠ chars "/spiffs/" ∧ stat = none) := by
    rintro ⟨hother, hnone⟩
    rw [hfound hother] at hnone
    cases hnone
  have hdir : ¬ (ppath ≠ chars "/spiffs/" ∧ stat ≠ some .dir) := by
    rintro ⟨hother, hne⟩
    exact hne (hfound hother)
  exact (if_neg hthere).trans (if_neg hdir)

theorem opendir_of_opens (h : objs.Directory path) (hopens : Opens env path) :
    ∃ dir, vfsSpiffsOpendir objs path (chars "/spiffs" ++ path)
      (vfsSpiffsStat objs env.stat path) env.memory env.opendir = .ok dir := by
  obtain ⟨hfound, hmemory, hopendir⟩ := hopens
  rw [opendir_checked, hmemory, hopendir]
  · exact ⟨_, rfl⟩
  · intro hother
    have hpath : path ≠ root := by
      rintro rfl
      exact hother rfl
    rw [stat_directory h hpath, hfound.resolve_left hpath]
    rfl

theorem opendir_of_not_opens (h : objs.Directory path) (hopens : ¬ Opens env path) :
    ∃ err, vfsSpiffsOpendir objs path (chars "/spiffs" ++ path)
      (vfsSpiffsStat objs env.stat path) env.memory env.opendir = .error err := by
  by_cases hfound : path = root ∨ env.stat = true
  · rw [opendir_checked]
    · cases hmemory : env.memory with
      | false => exact ⟨_, rfl⟩
      | true =>
        cases hopendir : env.opendir with
        | none => exact absurd ⟨hfound, hmemory, hopendir⟩ hopens
        | some err => exact ⟨_, rfl⟩
    · intro hother
      have hpath : path ≠ root := by
        rintro rfl
        exact hother rfl
      rw [stat_directory h hpath, hfound.resolve_left hpath]
      rfl
  · obtain ⟨hpath, hstat⟩ := not_or.mp hfound
    have hother : chars "/spiffs" ++ path ≠ chars "/spiffs/" := by
      intro hsame
      exact hpath (List.append_cancel_left (hsame.trans (rfl : _ = chars "/spiffs" ++ root)))
    have hnone : vfsSpiffsStat objs env.stat path = none := by
      rw [stat_directory h hpath, if_neg hstat]
    unfold vfsSpiffsOpendir
    rw [if_pos ⟨hother, hnone⟩]
    exact ⟨_, rfl⟩

/-- The call does what it is to do exactly where what lies under the directory is
    seen, or not removed from. -/
theorem unlink_iff (h : objs.Directory path) :
    UnlinksRight objs path (vfsSpiffsUnlink ds objs env path) ↔ Safe ds objs env path := by
  have htarget : (if path ≠ root then strlcat (strlcpy path PATH_MAX) [slash, dot] PATH_MAX
      else strlcpy path PATH_MAX) = target path := by
    unfold target
    by_cases hpath : path = root
    · subst hpath
      rfl
    · rw [if_pos hpath, if_neg hpath, strlcat_strlcpy h.length_le]
  unfold vfsSpiffsUnlink Safe
  dsimp only
  rw [htarget]
  by_cases hdir : isDir objs path = true
  · rw [if_pos hdir]
    by_cases hopens : Opens env path
    · obtain ⟨dir, hopendir⟩ := opendir_of_opens h hopens
      have hread : readAll ds (objs.names.length + 2) dir = some _ :=
        readAll_eq ((reads_directory h hopendir).mpr rfl) length_listing_lt
      rw [hopendir]
      dsimp only
      rw [hread]
      show UnlinksRight objs path (if List.length _ > 0 then some (some ENOTEMPTY, objs.names)
        else some (removeObject objs env (target path))) ↔ _
      by_cases hshows : Shows ds objs path
      · have hne := List.length_pos_iff.mpr ((shows_iff h).mpr hshows)
        rw [if_pos hne]
        exact ⟨fun _ => ⟨fun _ => .inl hopens, .inl ⟨hdir, hopens, hshows⟩⟩, fun _ => rfl⟩
      · have hnone : ¬ List.length (mountPoints ds path ++
            objs.names.filterMap (entryOf path)) > 0 := by
          intro hpos
          exact hshows ((shows_iff h).mp (List.length_pos_iff.mp hpos))
        rw [if_neg hnone, removeObject_iff h]
        refine ⟨fun hremove => ⟨fun _ => .inl hopens, .inr hremove⟩, ?_⟩
        rintro ⟨-, ⟨-, -, hshows'⟩ | hremove⟩
        · exact absurd hshows' hshows
        · exact hremove
    · obtain ⟨err, hopendir⟩ := opendir_of_not_opens h hopens
      rw [hopendir]
      dsimp only
      by_cases hclose : env.closedir_null = true
      · rw [if_pos hclose, removeObject_iff h]
        refine ⟨fun hremove => ⟨fun _ => .inr hclose, .inr hremove⟩, ?_⟩
        rintro ⟨-, ⟨-, hopens', -⟩ | hremove⟩
        · exact absurd hopens' hopens
        · exact hremove
      · rw [if_neg hclose]
        refine ⟨False.elim, ?_⟩
        rintro ⟨hreturns, -⟩
        rcases hreturns hdir with hopens' | hclose'
        · exact hopens hopens'
        · exact hclose hclose'
  · -- only the root can be without a marker
    rw [if_neg hdir]
    have hpath : path = root := by
      by_contra hpath
      exact hdir (isDir_of_marker h hpath)
    have hwhole : strlcpy path PATH_MAX = target path := by
      subst hpath
      rfl
    rw [hwhole, removeObject_iff h]
    refine ⟨fun hremove => ⟨fun hd => absurd hd hdir, .inr hremove⟩, ?_⟩
    rintro ⟨-, ⟨hd, -⟩ | hremove⟩
    · exact absurd hd hdir
    · exact hremove

end Unlink

/-- Nothing fails. -/
def calm : UnlinkEnv := ⟨true, true, none, true, none, none⟩

/-- A directory with a file in it is left alone. -/
theorem unlinksRight_oneFile :
    UnlinksRight oneFile (chars "/d") (vfsSpiffsUnlink [] oneFile calm (chars "/d")) := by
  have hdir : oneFile.Directory (chars "/d") := .inr ⟨rfl, by decide, by decide⟩
  have hchild : Child oneFile (chars "/d") ⟨chars "a", .reg⟩ :=
    ⟨by decide, by decide, by decide, by decide⟩
  refine (unlink_iff hdir).mpr ⟨fun _ => .inr rfl, .inl ⟨by decide, ⟨.inr rfl, rfl, rfl⟩, ?_⟩⟩
  exact .inr (.inl ⟨_, hchild⟩)

/-- A file with a directory before it that has no marker: it was made by opening it. -/
def deepFile : Objects := ⟨[chars "/d/.", chars "/d/sub/f"], by decide, by decide⟩

/-- The directory is removed from above the file. -/
theorem unlink_deepFile : vfsSpiffsUnlink [] deepFile calm (chars "/d") =
    some (none, [chars "/d/sub/f"]) := by
  decide

theorem not_unlinksRight_deepFile :
    ¬ UnlinksRight deepFile (chars "/d") (vfsSpiffsUnlink [] deepFile calm (chars "/d")) := by
  rw [unlink_deepFile]
  rintro ⟨hempty, -⟩
  exact absurd (hempty (chars "/d/sub/f") (by decide) (by decide)) (by decide)

end LuaRtos.Spiffs
