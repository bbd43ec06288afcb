/-
  LuaRtos.Spiffs.Readdir

  The listing of a directory by `vfs_spiffs_readdir`: every object of the file
  system is looked at, and the immediate children are cut out of the names.
-/

import LuaRtos.Spiffs.Name

namespace LuaRtos.Spiffs

open CLib Sys

/-- `d_type`. -/
inductive DType where
  /-- DT_REG -/
  | reg
  /-- DT_DIR -/
  | dir
deriving DecidableEq, Repr

/-- `struct dirent`. -/
structure Dirent where
  d_name : List Byte
  d_type : DType
deriving DecidableEq, Repr

/-! ## Mount points -/

/-- `mount_is_mounted`. -/
def mountIsMounted (device : List Byte) : List Mountd → Bool
  | [] => false
  | m :: ms => if m.device = device then m.mounted ≠ 0 else mountIsMounted device ms

/-- The loop of `mount_readdir`. -/
def mountReaddirLoop (ds : List Mountd) (dev path : List Byte) (idx : Nat) :
    Nat → List Mountp → Option (List Byte)
  | _, [] => none
  | actual, m :: ms =>
    if mountIsMounted m.ddev ds ∧ dev = m.odev ∧ path = m.path then
      if actual = idx then some m.name else mountReaddirLoop ds dev path idx (actual + 1) ms
    else mountReaddirLoop ds dev path idx actual ms

/-- `mount_readdir`. -/
def mountReaddir (ds : List Mountd) (dev path : List Byte) (idx : Nat) : Option (List Byte) :=
  mountReaddirLoop ds dev path idx 0 mountps

/-! ## The directory stream -/

/-- `vfs_spiffs_dir_t`: the path, the objects that `SPIFFS_readdir` has still to
    enumerate, and whether the mount points are read. -/
structure Dir where
  path : List Byte
  rest : List (List Byte)
  read_mount : Bool
deriving DecidableEq, Repr

/-- The end of the loop of `vfs_spiffs_readdir`: the name after the path of the
    directory is a child, or is skipped. -/
def childName (fn : List Byte) (type : DType) : Option Dirent :=
  -- Skip root directory
  if fn.length = 0 then none
  else
    -- Skip initial /
    let fn := if fn.length > 1 ∧ fn.head? = some slash then fn.drop 1 else fn
    -- Skip subdirectories
    if fn.contains slash then none else some ⟨strlcpy fn MAXNAMLEN, type⟩

/-- The name ends in "/.". -/
def IsMarker (fn : List Byte) : Prop :=
  fn.length ≥ 2 ∧ fn[fn.length - 1]? = some dot ∧ fn[fn.length - 2]? = some slash

instance (fn : List Byte) : Decidable (IsMarker fn) := inferInstanceAs (Decidable (_ ∧ _))

/-- A round of the loop of `vfs_spiffs_readdir`, for the name of an object. -/
def entryOf (path fn : List Byte) : Option Dirent :=
  let type := if IsMarker fn then DType.dir else DType.reg
  let fn := if IsMarker fn then fn.take (fn.length - 2) else fn
  -- Skip root dir
  if type = .dir ∧ fn.length = 0 then none
  -- Skip entries not belonged to path
  else if ¬ path <+: fn then none
  else if path.length > 1 ∧ fn[path.length]? ≠ some slash then none
  else childName (fn.drop path.length) type

/-- The loop of `vfs_spiffs_readdir`, and the objects after it. -/
def nextEntry (path : List Byte) : List (List Byte) → Option Dirent × List (List Byte)
  | [] => (none, [])
  | fn :: rest =>
    -- Break condition
    if fn = [] then (none, rest)
    else
      match entryOf path fn with
      | some ent => (some ent, rest)
      | none => nextEntry path rest

/-- `vfs_spiffs_readdir`. -/
def vfsSpiffsReaddir (ds : List Mountd) (dir : Dir) : Option Dirent × Dir :=
  let scan : Option Dirent × Dir :=
    let (ent, rest) := nextEntry dir.path dir.rest
    (ent, { dir with rest := rest, read_mount := true })
  if !dir.read_mount ∧ dir.path = root then
    match mountReaddir ds (lit "spiffs") (dir.path ++ [nul]) 0 with
    | some mdir => (some ⟨strlcpy (mdir.dropLast) PATH_MAX, .dir⟩, { dir with read_mount := true })
    | none => scan
  else scan

/-- `vfs_spiffs_opendir`, for a path that resolves to `ppath`: what
    `vfs_spiffs_stat` makes of it, whether `calloc` has memory, and the error of
    `SPIFFS_opendir`.  The stream, or the error number. -/
def vfsSpiffsOpendir (objs : Objects) (name ppath : List Byte) (stat : Option DType)
    (memory : Bool) (failure : Option Int) : Except Int Dir :=
  -- Not on root
  if ppath ≠ chars "/spiffs/" ∧ stat = none then .error ENOENT
  else if ppath ≠ chars "/spiffs/" ∧ stat ≠ some .dir then .error ENOTDIR
  else if !memory then .error ENOMEM
  else
    match failure with
    | some err => .error (spiffsResult err)
    | none => .ok ⟨strlcpy name MAXNAMLEN, objs.names, false⟩

/-- Calls of `vfs_spiffs_readdir`, until one returns NULL, return these. -/
inductive Reads (ds : List Mountd) : Dir → List Dirent → Prop
  | done {dir : Dir} (h : (vfsSpiffsReaddir ds dir).1 = none) : Reads ds dir []
  | next {dir dir' : Dir} {ent : Dirent} {ents : List Dirent}
      (h : vfsSpiffsReaddir ds dir = (some ent, dir')) (hrest : Reads ds dir' ents) :
      Reads ds dir (ent :: ents)

/-! ## What is listed -/

/-- The mount points on a directory. -/
def mountPoints (ds : List Mountd) (path : List Byte) : List Dirent :=
  (mountps.filter fun m =>
    mountIsMounted m.ddev ds ∧ m.odev = lit "spiffs" ∧ m.path = path ++ [nul]).map
    fun m => ⟨m.name.dropLast, .dir⟩

/-- The immediate children of a directory: the objects in it, and the directories. -/
structure Child (objs : Objects) (path : List Byte) (ent : Dirent) : Prop where
  named : ent.d_name ≠ []
  immediate : slash ∉ ent.d_name
  object : match ent.d_type with
    | .reg => ent.d_name ≠ [dot] ∧ under path ent.d_name ∈ objs.names
    | .dir => marker (under path ent.d_name) ∈ objs.names

/-- Listing a directory returns the mount points on it and every child once, and
    ends. -/
def Lists (ds : List Mountd) (objs : Objects) (path : List Byte) (dir : Dir) : Prop :=
  ∃ ents, Reads ds dir (mountPoints ds path ++ ents) ∧ ents.Nodup ∧
    ∀ ent, ent ∈ ents ↔ Child objs path ent

/-! ## One object -/

section Entry

variable {path p fn n : List Byte} {type : DType} {ent : Dirent}

theorem length_marker (p : List Byte) : (marker p).length = p.length + 2 := by
  simp [marker]

theorem isMarker_marker (p : List Byte) : IsMarker (marker p) := by
  refine ⟨?_, ?_, ?_⟩
  · rw [length_marker]
    omega
  · simp [marker]
  · simp [marker]

/-- A name that ends in "/." is what is before it with a marker. -/
theorem isMarker_iff : IsMarker fn ↔ ∃ p, fn = marker p := by
  constructor
  · rintro ⟨hlen, hdot, hslash⟩
    refine ⟨fn.take (fn.length - 2), ?_⟩
    have hsplit : fn = fn.take (fn.length - 2) ++ fn.drop (fn.length - 2) :=
      (List.take_append_drop ..).symm
    have hlast : fn.drop (fn.length - 2) = [slash, dot] := by
      obtain ⟨h₁, hs⟩ := List.getElem?_eq_some_iff.mp hslash
      obtain ⟨h₂, hd⟩ := List.getElem?_eq_some_iff.mp hdot
      rw [List.drop_eq_getElem_cons h₁, hs]
      have hnext : fn.length - 2 + 1 = fn.length - 1 := by omega
      rw [hnext, List.drop_eq_getElem_cons h₂, hd, List.drop_of_length_le (by omega)]
    rw [marker, ← hlast, ← hsplit]
  · rintro ⟨p, rfl⟩
    exact isMarker_marker p

theorem childName_name (hne : n ≠ []) (hslash : slash ∉ n) (type : DType) :
    childName n type = some ⟨strlcpy n MAXNAMLEN, type⟩ := by
  have hlen : n.length ≠ 0 := fun h => hne (List.length_eq_zero_iff.mp h)
  have hkeep : ¬ (n.length > 1 ∧ n.head? = some slash) := by
    rintro ⟨-, hhead⟩
    exact hslash (List.mem_of_mem_head? hhead)
  unfold childName
  rw [if_neg hlen, if_neg hkeep]
  exact if_neg (List.contains_iff_mem.not.mpr hslash)

theorem childName_slash (hne : n ≠ []) (hslash : slash ∉ n) (type : DType) :
    childName (slash :: n) type = some ⟨strlcpy n MAXNAMLEN, type⟩ := by
  have hcut : (slash :: n).length > 1 ∧ (slash :: n).head? = some slash := by
    refine ⟨?_, rfl⟩
    have hpos := List.length_pos_iff.mpr hne
    rw [List.length_cons]
    omega
  unfold childName
  rw [if_neg (show (slash :: n).length ≠ 0 from Nat.succ_ne_zero _), if_pos hcut]
  exact if_neg (List.contains_iff_mem.not.mpr hslash)

/-- What is left of a name after the path of the directory is a child's, with a
    slash before it or not. -/
theorem childName_eq_some : childName fn type = some ent ↔
    ∃ n, n ≠ [] ∧ slash ∉ n ∧ (fn = n ∨ fn = slash :: n) ∧ ent = ⟨strlcpy n MAXNAMLEN, type⟩ := by
  constructor
  · intro h
    unfold childName at h
    split at h
    · cases h
    · rename_i hlen
      have hne : fn ≠ [] := fun hnil => hlen (List.length_eq_zero_iff.mpr hnil)
      by_cases hcut : fn.length > 1 ∧ fn.head? = some slash
      · rw [if_pos hcut] at h
        obtain ⟨n, rfl⟩ : ∃ n, fn = slash :: n := List.head?_eq_some_iff.mp hcut.2
        have hn : n ≠ [] := by
          rintro rfl
          exact absurd hcut.1 (by decide)
        dsimp only [List.drop_succ_cons, List.drop_zero] at h
        split at h
        · cases h
        · rename_i hslash
          exact ⟨n, hn, List.contains_iff_mem.not.mp hslash, .inr rfl, (Option.some.inj h).symm⟩
      · rw [if_neg hcut] at h
        dsimp only at h
        split at h
        · cases h
        · rename_i hslash
          exact ⟨fn, hne, List.contains_iff_mem.not.mp hslash, .inl rfl, (Option.some.inj h).symm⟩
  · rintro ⟨n, hne, hslash, rfl | rfl, rfl⟩
    · exact childName_name hne hslash type
    · exact childName_slash hne hslash type

/-- The names that `vfs_spiffs_readdir` takes for `n` in a directory. -/
def ListedAs (path n p : List Byte) : Prop :=
  p = under path n ∨ path = root ∧ p = root ++ slash :: n

/-- The rest of a name after the path of a directory. -/
theorem listedAs_iff (hpath : path = root ∨ path.length > 1) (hslash : slash ∉ n) :
    ListedAs path n p ↔ path <+: p ∧ (path.length > 1 → p[path.length]? = some slash) ∧
      (p.drop path.length = n ∨ p.drop path.length = slash :: n) := by
  rcases hpath with rfl | hlong
  · constructor
    · rintro (rfl | ⟨-, rfl⟩)
      · exact ⟨List.prefix_append _ _, nofun, .inl rfl⟩
      · exact ⟨List.prefix_append _ _, nofun, .inr rfl⟩
    · rintro ⟨⟨t, rfl⟩, -, hrest⟩
      rw [List.drop_left] at hrest
      rcases hrest with rfl | rfl
      · exact .inl rfl
      · exact .inr ⟨rfl, rfl⟩
  · have hroot : path ≠ root := by
      rintro rfl
      exact absurd hlong (by decide)
    have hunder : under path n = path ++ slash :: n := if_neg hroot
    constructor
    · rintro (rfl | ⟨hr, -⟩)
      · rw [hunder]
        refine ⟨List.prefix_append _ _, fun _ => ?_, .inr ?_⟩
        · rw [List.getElem?_append_right (Nat.le_refl _), Nat.sub_self]
          rfl
        · exact List.drop_left
      · exact absurd hr hroot
    · rintro ⟨⟨t, rfl⟩, hnext, hrest⟩
      rw [List.drop_left] at hrest
      rcases hrest with rfl | rfl
      · have hhead := hnext hlong
        rw [List.getElem?_append_right (Nat.le_refl _), Nat.sub_self] at hhead
        exact absurd (List.mem_of_getElem? hhead) hslash
      · exact .inl hunder.symm

/-- Only the name "." makes a marker of an object in a directory. -/
theorem isMarker_listedAs (hne : n ≠ []) (hslash : slash ∉ n) (h : ListedAs path n fn) :
    IsMarker fn ↔ n = [dot] := by
  obtain ⟨q, rfl⟩ : ∃ q, fn = q ++ slash :: n := by
    rcases h with rfl | ⟨-, rfl⟩
    · by_cases hpath : path = root
      · exact ⟨[], if_pos hpath⟩
      · exact ⟨path, if_neg hpath⟩
    · exact ⟨root, rfl⟩
  rw [isMarker_iff]
  constructor
  · rintro ⟨p, hp⟩
    obtain ⟨m, c, rfl⟩ := (List.eq_nil_or_concat' n).resolve_left hne
    have hp' : (q ++ slash :: m) ++ [c] = (p ++ [slash]) ++ [dot] := by
      simpa [marker] using hp
    obtain ⟨hinit, hlast⟩ := List.append_inj' hp' rfl
    obtain rfl := (List.cons.inj hlast).1
    rcases List.eq_nil_or_concat' m with rfl | ⟨m, d, rfl⟩
    · rfl
    · have hd : (q ++ slash :: m) ++ [d] = p ++ [slash] := by
        simpa using hinit
      obtain rfl := (List.cons.inj (List.append_inj' hd rfl).2).1
      exact absurd (by simp) hslash
  · rintro rfl
    exact ⟨q, rfl⟩

/-- The tests on a name whose marker, if any, is cut off. -/
theorem tests_eq_some (hpath : path = root ∨ path.length > 1) :
    (if ¬ path <+: p then none
      else if path.length > 1 ∧ p[path.length]? ≠ some slash then none
      else childName (p.drop path.length) type) = some ent ↔
    ∃ n, n ≠ [] ∧ slash ∉ n ∧ ListedAs path n p ∧ ent = ⟨strlcpy n MAXNAMLEN, type⟩ := by
  constructor
  · intro h
    split at h
    · cases h
    · rename_i hbegins
      split at h
      · cases h
      · rename_i hnext
        obtain ⟨n, hne, hslash, hrest, hent⟩ := childName_eq_some.mp h
        refine ⟨n, hne, hslash, (listedAs_iff hpath hslash).mpr ⟨?_, fun hlong => ?_, hrest⟩, hent⟩
        · exact Decidable.not_not.mp hbegins
        · by_contra hother
          exact hnext ⟨hlong, hother⟩
  · rintro ⟨n, hne, hslash, hlisted, hent⟩
    obtain ⟨hbegins, hnext, hrest⟩ := (listedAs_iff hpath hslash).mp hlisted
    rw [if_neg (not_not_intro hbegins), if_neg fun h => h.2 (hnext h.1)]
    exact childName_eq_some.mpr ⟨n, hne, hslash, hrest, hent⟩

theorem ListedAs.ne_nil (h : ListedAs path n p) : p ≠ [] := by
  rcases h with rfl | ⟨-, rfl⟩
  · unfold under
    split
    · exact List.cons_ne_nil _ _
    · simp
  · exact List.cons_ne_nil _ _

/-- The round for a marker. -/
theorem entryOf_marker (hpath : path = root ∨ path.length > 1) :
    entryOf path (marker p) = some ent ↔
      ∃ n, n ≠ [] ∧ slash ∉ n ∧ ListedAs path n p ∧ ent = ⟨strlcpy n MAXNAMLEN, .dir⟩ := by
  have hcut : (marker p).take ((marker p).length - 2) = p := by
    rw [length_marker, Nat.add_sub_cancel]
    exact List.take_left
  unfold entryOf
  dsimp only
  rw [if_pos (isMarker_marker p), if_pos (isMarker_marker p), hcut]
  by_cases hp : p.length = 0
  · rw [if_pos ⟨rfl, hp⟩]
    refine ⟨nofun, ?_⟩
    rintro ⟨n, -, -, hlisted, -⟩
    exact absurd (List.length_eq_zero_iff.mp hp) hlisted.ne_nil
  · rw [if_neg fun h => hp h.2]
    exact tests_eq_some hpath

/-- The round for any other name. -/
theorem entryOf_file (hpath : path = root ∨ path.length > 1) (hfile : ¬ IsMarker fn) :
    entryOf path fn = some ent ↔
      ∃ n, n ≠ [] ∧ slash ∉ n ∧ ListedAs path n fn ∧ ent = ⟨strlcpy n MAXNAMLEN, .reg⟩ := by
  unfold entryOf
  dsimp only
  rw [if_neg hfile, if_neg hfile, if_neg nofun]
  exact tests_eq_some hpath

/-- What a round of the loop makes of a name. -/
theorem entryOf_eq_some (hpath : path = root ∨ path.length > 1) : entryOf path fn = some ent ↔
    ∃ n, n ≠ [] ∧ slash ∉ n ∧ ent.d_name = strlcpy n MAXNAMLEN ∧
      match ent.d_type with
      | .reg => n ≠ [dot] ∧ ListedAs path n fn
      | .dir => ∃ p, fn = marker p ∧ ListedAs path n p := by
  obtain ⟨name, type⟩ := ent
  by_cases hmarker : IsMarker fn
  · obtain ⟨p, rfl⟩ := isMarker_iff.mp hmarker
    rw [entryOf_marker hpath]
    constructor
    · rintro ⟨n, hne, hslash, hlisted, hent⟩
      cases hent
      exact ⟨n, hne, hslash, rfl, p, rfl, hlisted⟩
    · rintro ⟨n, hne, hslash, rfl, hobject⟩
      cases type with
      | reg => exact absurd ((isMarker_listedAs hne hslash hobject.2).mp hmarker) hobject.1
      | dir =>
        obtain ⟨p', hp', hlisted⟩ := hobject
        obtain rfl : p = p' := List.append_cancel_right hp'
        exact ⟨n, hne, hslash, hlisted, rfl⟩
  · rw [entryOf_file hpath hmarker]
    constructor
    · rintro ⟨n, hne, hslash, hlisted, hent⟩
      cases hent
      exact ⟨n, hne, hslash, rfl,
        fun hdot => hmarker ((isMarker_listedAs hne hslash hlisted).mpr hdot), hlisted⟩
    · rintro ⟨n, hne, hslash, rfl, hobject⟩
      cases type with
      | reg => exact ⟨n, hne, hslash, hobject.2, rfl⟩
      | dir =>
        obtain ⟨p, rfl, -⟩ := hobject
        exact absurd (isMarker_marker p) hmarker

end Entry

end LuaRtos.Spiffs
