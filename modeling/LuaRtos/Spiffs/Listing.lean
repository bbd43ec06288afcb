/-
  LuaRtos.Spiffs.Listing

  A directory stream read to its end.

  The stream returns what `entryOf` makes of the objects, after the mount points.
  That is every child of the directory once, but for the root: a name with two
  slashes before it is taken for the name with one.
-/

import LuaRtos.Spiffs.Readdir

namespace LuaRtos.Spiffs

open CLib Sys

variable {ds : List Mountd} {objs : Objects} {path n : List Byte} {rest : List (List Byte)}
  {dir : Dir} {ent : Dirent} {ents : List Dirent}

/-! ## The stream as a list -/

/-- The loop finds the first object that makes an entry. -/
theorem nextEntry_eq (path : List Byte) (hrest : ∀ fn ∈ rest, fn ≠ []) :
    (nextEntry path rest).1 = (rest.filterMap (entryOf path)).head? ∧
      (nextEntry path rest).2.filterMap (entryOf path) = (rest.filterMap (entryOf path)).tail ∧
      ∀ fn ∈ (nextEntry path rest).2, fn ≠ [] := by
  induction rest with
  | nil => exact ⟨rfl, rfl, nofun⟩
  | cons fn rest ih =>
    have htail : ∀ fn ∈ rest, fn ≠ [] := fun g hg => hrest g (List.mem_cons_of_mem fn hg)
    rw [nextEntry, if_neg (hrest fn List.mem_cons_self)]
    cases hentry : entryOf path fn with
    | none =>
      rw [List.filterMap_cons_none hentry]
      exact ih htail
    | some ent =>
      rw [List.filterMap_cons_some hentry]
      exact ⟨rfl, rfl, htail⟩

theorem Reads.unique {ents' : List Dirent} (h : Reads ds dir ents) (h' : Reads ds dir ents') :
    ents = ents' := by
  induction h generalizing ents' with
  | done h =>
    cases h' with
    | done h' => rfl
    | next h' hrest =>
      rw [h'] at h
      cases h
  | next h _ ih =>
    cases h' with
    | done h' =>
      rw [h] at h'
      cases h'
    | next h' hrest =>
      rw [h] at h'
      cases h'
      rw [ih hrest]

theorem Reads.congr {dir' : Dir} (h : Reads ds dir ents)
    (hsame : vfsSpiffsReaddir ds dir' = vfsSpiffsReaddir ds dir) : Reads ds dir' ents := by
  cases h with
  | done h => exact .done (hsame ▸ h)
  | next h hrest => exact .next (hsame.trans h) hrest

theorem readdir_scan (hscan : dir.read_mount = true ∨ dir.path ≠ root) :
    vfsSpiffsReaddir ds dir = ((nextEntry dir.path dir.rest).1,
      { dir with rest := (nextEntry dir.path dir.rest).2, read_mount := true }) := by
  unfold vfsSpiffsReaddir
  apply if_neg
  rintro ⟨hread, hpath⟩
  rcases hscan with hmount | hother
  · rw [hmount] at hread
    cases hread
  · exact hother hpath

/-- A stream with no mount points to read returns the entries of the objects that
    are left. -/
theorem reads_scan (dir : Dir) (hscan : dir.read_mount = true ∨ dir.path ≠ root)
    (hrest : ∀ fn ∈ dir.rest, fn ≠ []) :
    Reads ds dir (dir.rest.filterMap (entryOf dir.path)) := by
  generalize hents : dir.rest.filterMap (entryOf dir.path) = ents
  induction ents generalizing dir with
  | nil =>
    apply Reads.done
    rw [readdir_scan hscan]
    have hhead := (nextEntry_eq dir.path hrest).1
    rw [hents] at hhead
    exact hhead
  | cons ent ents ih =>
    obtain ⟨hhead, htail, hne⟩ := nextEntry_eq dir.path hrest
    rw [hents] at hhead htail
    refine .next ?_ (@ih ⟨dir.path, (nextEntry dir.path dir.rest).2, true⟩ (.inl rfl) hne htail)
    rw [readdir_scan hscan, hhead]
    rfl

/-- What the first call finds on the root. -/
theorem mountReaddir_root : mountReaddir ds (lit "spiffs") (root ++ [nul]) 0 =
    if mountIsMounted (lit "fat") ds then some (lit "sd") else none := by
  have hpath : root ++ [nul] = lit "/" := rfl
  cases hmounted : mountIsMounted (lit "fat") ds with
  | true => simp [mountReaddir, mountps, mountReaddirLoop, hmounted, hpath]
  | false => simp [mountReaddir, mountps, mountReaddirLoop, hmounted]

theorem mountPoints_root : mountPoints ds root =
    if mountIsMounted (lit "fat") ds then [⟨chars "sd", .dir⟩] else [] := by
  have hpath : lit "/" = root ++ [nul] := rfl
  have hname : (lit "sd").dropLast = chars "sd" := rfl
  cases hmounted : mountIsMounted (lit "fat") ds with
  | true => simp [mountPoints, mountps, hmounted, hpath, hname]
  | false => simp [mountPoints, mountps, hmounted]

/-- Nothing is mounted elsewhere. -/
theorem mountPoints_of_ne (hpath : path ≠ root) : mountPoints ds path = [] := by
  have hother : lit "/" ≠ path ++ [nul] := by
    intro h
    have hroot : root ++ [nul] = path ++ [nul] := h
    exact hpath (List.append_cancel_right hroot).symm
  simp [mountPoints, mountps, hother]

/-- A stream from its start returns the mount points and then the entries. -/
theorem reads_start (hrest : ∀ fn ∈ rest, fn ≠ []) : Reads ds ⟨path, rest, false⟩ ents ↔
    ents = mountPoints ds path ++ rest.filterMap (entryOf path) := by
  have hreads : Reads ds ⟨path, rest, false⟩
      (mountPoints ds path ++ rest.filterMap (entryOf path)) := by
    by_cases hpath : path = root
    · subst hpath
      have hscan : Reads ds ⟨root, rest, true⟩ _ := reads_scan _ (.inl rfl) hrest
      rw [mountPoints_root]
      cases hmounted : mountIsMounted (lit "fat") ds with
      | true =>
        have hfirst : vfsSpiffsReaddir ds ⟨root, rest, false⟩ =
            (some ⟨chars "sd", .dir⟩, ⟨root, rest, true⟩) := by
          rw [vfsSpiffsReaddir, if_pos ⟨rfl, rfl⟩, mountReaddir_root, hmounted]
          rfl
        exact .next hfirst hscan
      | false =>
        refine hscan.congr ?_
        rw [vfsSpiffsReaddir, vfsSpiffsReaddir, if_pos ⟨rfl, rfl⟩, mountReaddir_root, hmounted]
        rfl
    · rw [mountPoints_of_ne hpath]
      exact reads_scan ⟨path, rest, false⟩ (.inr hpath) hrest
  constructor
  · intro h
    exact h.unique hreads
  · rintro rfl
    exact hreads

/-! ## The entries of a directory -/

/-- Two objects of a list without duplicates never make one entry exactly where
    the entries have no duplicates. -/
theorem nodup_filterMap_iff {α β : Type} {f : α → Option β} {l : List α} (hl : l.Nodup) :
    (l.filterMap f).Nodup ↔
      ∀ x ∈ l, ∀ y ∈ l, ∀ b, f x = some b → f y = some b → x = y := by
  induction l with
  | nil => simp
  | cons a l ih =>
    obtain ⟨ha, hl⟩ := List.nodup_cons.mp hl
    cases hf : f a with
    | none =>
      rw [List.filterMap_cons_none hf, ih hl]
      constructor
      · intro h x hx y hy b hfx hfy
        rcases List.mem_cons.mp hx with rfl | hx
        · rw [hf] at hfx
          cases hfx
        rcases List.mem_cons.mp hy with rfl | hy
        · rw [hf] at hfy
          cases hfy
        exact h x hx y hy b hfx hfy
      · intro h x hx y hy
        exact h x (List.mem_cons_of_mem a hx) y (List.mem_cons_of_mem a hy)
    | some c =>
      rw [List.filterMap_cons_some hf, List.nodup_cons, ih hl]
      constructor
      · rintro ⟨hc, h⟩ x hx y hy b hfx hfy
        have hnew : ∀ z ∈ l, f z ≠ some c := fun z hz hfz =>
          hc (List.mem_filterMap.mpr ⟨z, hz, hfz⟩)
        rcases List.mem_cons.mp hx with hxa | hxl
        · rw [hxa, hf] at hfx
          obtain rfl := Option.some.inj hfx
          rcases List.mem_cons.mp hy with hya | hyl
          · rw [hxa, hya]
          · exact absurd hfy (hnew y hyl)
        rcases List.mem_cons.mp hy with hya | hyl
        · rw [hya, hf] at hfy
          obtain rfl := Option.some.inj hfy
          exact absurd hfx (hnew x hxl)
        · exact h x hxl y hyl b hfx hfy
      · intro h
        refine ⟨fun hc => ?_, fun x hx y hy => ?_⟩
        · obtain ⟨z, hz, hfz⟩ := List.mem_filterMap.mp hc
          obtain rfl := h a List.mem_cons_self z (List.mem_cons_of_mem a hz) c hf hfz
          exact ha hz
        · exact h x (List.mem_cons_of_mem a hx) y (List.mem_cons_of_mem a hy)

/-- The object that an entry stands for, by the path of the entry. -/
def Dirent.object (ent : Dirent) (path : List Byte) : List Byte :=
  match ent.d_type with
  | .reg => path
  | .dir => marker path

/-- The names that entries can have. -/
structure Dirent.Named (ent : Dirent) : Prop where
  ne_nil : ent.d_name ≠ []
  immediate : slash ∉ ent.d_name
  not_marker : ent.d_type = .reg → ent.d_name ≠ [dot]

theorem child_iff : Child objs path ent ↔
    ent.Named ∧ ent.object (under path ent.d_name) ∈ objs.names := by
  obtain ⟨name, type⟩ := ent
  cases type with
  | reg =>
    constructor
    · intro h
      exact ⟨⟨h.named, h.immediate, fun _ => h.object.1⟩, h.object.2⟩
    · rintro ⟨⟨hne, hslash, hdot⟩, hobject⟩
      exact ⟨hne, hslash, hdot rfl, hobject⟩
  | dir =>
    constructor
    · intro h
      exact ⟨⟨h.named, h.immediate, nofun⟩, h.object⟩
    · rintro ⟨⟨hne, hslash, -⟩, hobject⟩
      exact ⟨hne, hslash, hobject⟩

theorem ListedAs.length_lt {p : List Byte} (h : ListedAs path n p) : n.length < p.length := by
  rcases h with rfl | ⟨-, rfl⟩
  · unfold under root
    split
    · simp
    · simp
      omega
  · have hlen : (root ++ slash :: n).length = n.length + 2 := rfl
    omega

theorem length_le_object (ent : Dirent) (p : List Byte) : p.length ≤ (ent.object p).length := by
  unfold Dirent.object
  split
  · exact Nat.le_refl _
  · rw [length_marker]
    exact Nat.le_add_right ..

/-- An object of the file system makes the entries that it is listed as. -/
theorem entryOf_object (hpath : path = root ∨ path.length > 1) {fn : List Byte}
    (hfn : fn ∈ objs.names) : entryOf path fn = some ent ↔
      ent.Named ∧ ∃ p, ListedAs path ent.d_name p ∧ fn = ent.object p := by
  have hlen : fn.length < 64 := (objs.valid fn hfn).fits
  have hwhole : ∀ {n p : List Byte}, ListedAs path n p → p.length ≤ fn.length →
      strlcpy n MAXNAMLEN = n := by
    intro n p hlisted hle
    have hlt := hlisted.length_lt
    apply List.take_of_length_le
    show n.length ≤ 63
    omega
  rw [entryOf_eq_some hpath]
  obtain ⟨name, type⟩ := ent
  constructor
  · rintro ⟨n, hne, hslash, rfl, hobject⟩
    cases type with
    | reg =>
      obtain ⟨hdot, hlisted⟩ := hobject
      rw [hwhole hlisted (Nat.le_refl _)]
      exact ⟨⟨hne, hslash, fun _ => hdot⟩, fn, hlisted, rfl⟩
    | dir =>
      obtain ⟨p, rfl, hlisted⟩ := hobject
      rw [hwhole hlisted (by rw [length_marker]; omega)]
      exact ⟨⟨hne, hslash, nofun⟩, p, hlisted, rfl⟩
  · rintro ⟨⟨hne, hslash, hdot⟩, p, hlisted, rfl⟩
    refine ⟨name, hne, hslash, (hwhole hlisted (length_le_object _ p)).symm, ?_⟩
    cases type with
    | reg => exact ⟨hdot rfl, hlisted⟩
    | dir => exact ⟨p, rfl, hlisted⟩

/-- An object whose name is that of a child of the root with a second slash before
    it. -/
def Doubled (objs : Objects) : Prop :=
  ∃ ent : Dirent, ent.Named ∧ ent.object (root ++ slash :: ent.d_name) ∈ objs.names

theorem under_root (n : List Byte) : under root n = root ++ n := if_pos rfl

theorem object_inj {p q : List Byte} (h : ent.object p = ent.object q) : p = q := by
  unfold Dirent.object at h
  split at h
  · exact h
  · exact List.append_cancel_right h

/-- A directory is the root, or its name is longer. -/
theorem Objects.Directory.length (h : objs.Directory path) : path = root ∨ path.length > 1 := by
  rcases h with hroot | ⟨hhead, hne, -⟩
  · exact .inl hroot
  · right
    obtain ⟨rest, rfl⟩ := List.head?_eq_some_iff.mp hhead
    cases rest with
    | nil => exact absurd rfl hne
    | cons c rest => exact Nat.succ_lt_succ (Nat.succ_pos _)

/-- The path of a directory is not cut off. -/
theorem Objects.Directory.whole (h : objs.Directory path) : strlcpy path MAXNAMLEN = path := by
  have hlen : path.length ≤ 63 := by
    rcases h with rfl | ⟨-, -, hmarker⟩
    · decide
    · have hfits : (marker path).length < 64 := (objs.valid _ hmarker).fits
      rw [length_marker] at hfits
      omega
  exact List.take_of_length_le hlen

/-- The stream of an opened directory returns the mount points and the entries. -/
theorem reads_directory (h : objs.Directory path) {ppath : List Byte} {stat : Option DType}
    {memory : Bool} {failure : Option Int}
    (hopen : vfsSpiffsOpendir objs path ppath stat memory failure = .ok dir) :
    Reads ds dir ents ↔
      ents = mountPoints ds path ++ objs.names.filterMap (entryOf path) := by
  have hne : ∀ fn ∈ objs.names, fn ≠ [] := by
    rintro fn hfn rfl
    cases (objs.valid _ hfn).absolute
  unfold vfsSpiffsOpendir at hopen
  split at hopen
  · cases hopen
  split at hopen
  · cases hopen
  split at hopen
  · cases hopen
  split at hopen
  · cases hopen
  cases hopen
  rw [h.whole]
  exact reads_start hne

/-- The entries are the children, each once, but where a name is doubled. -/
theorem entries_iff (h : objs.Directory path) :
    ((objs.names.filterMap (entryOf path)).Nodup ∧
      ∀ ent, ent ∈ objs.names.filterMap (entryOf path) ↔ Child objs path ent) ↔
    path ≠ root ∨ ¬ Doubled objs := by
  have hpath := h.length
  constructor
  · rintro ⟨hnodup, hmem⟩
    by_contra hboth
    obtain ⟨hroot, hdoubled⟩ := not_or.mp hboth
    obtain rfl := Decidable.not_not.mp hroot
    obtain ⟨ent, hnamed, hobject⟩ := not_not.mp hdoubled
    -- the doubled name makes an entry, which must be a child's as well
    have hentry : entryOf root (ent.object (root ++ slash :: ent.d_name)) = some ent :=
      (entryOf_object hpath hobject).mpr ⟨hnamed, _, .inr ⟨rfl, rfl⟩, rfl⟩
    have hchild := (hmem ent).mp (List.mem_filterMap.mpr ⟨_, hobject, hentry⟩)
    have hobject' := (child_iff.mp hchild).2
    have hentry' : entryOf root (ent.object (under root ent.d_name)) = some ent :=
      (entryOf_object hpath hobject').mpr ⟨hnamed, _, .inl rfl, rfl⟩
    have hsame := object_inj ((nodup_filterMap_iff objs.nodup).mp hnodup _ hobject _ hobject' ent
      hentry hentry')
    rw [under_root] at hsame
    have hlen := congrArg List.length hsame
    simp at hlen
  · intro hcond
    -- then every object is listed as what it is
    have hlisted : ∀ {ent : Dirent} {p : List Byte}, ent.Named → ent.object p ∈ objs.names →
        ListedAs path ent.d_name p → p = under path ent.d_name := by
      rintro ent p hnamed hobject (hp | ⟨rfl, rfl⟩)
      · exact hp
      · rcases hcond with hne | hsingle
        · exact absurd rfl hne
        · exact absurd ⟨ent, hnamed, hobject⟩ hsingle
    constructor
    · rw [nodup_filterMap_iff objs.nodup]
      intro x hx y hy ent hfx hfy
      obtain ⟨hnamed, p, hp, rfl⟩ := (entryOf_object hpath hx).mp hfx
      obtain ⟨-, q, hq, rfl⟩ := (entryOf_object hpath hy).mp hfy
      rw [hlisted hnamed hx hp, hlisted hnamed hy hq]
    · intro ent
      rw [List.mem_filterMap, child_iff]
      constructor
      · rintro ⟨fn, hfn, hentry⟩
        obtain ⟨hnamed, p, hp, rfl⟩ := (entryOf_object hpath hfn).mp hentry
        rw [← hlisted hnamed hfn hp]
        exact ⟨hnamed, hfn⟩
      · rintro ⟨hnamed, hobject⟩
        exact ⟨_, hobject, (entryOf_object hpath hobject).mpr ⟨hnamed, _, .inl rfl, rfl⟩⟩

theorem lists_iff_entries (h : objs.Directory path) {ppath : List Byte} {stat : Option DType}
    {memory : Bool} {failure : Option Int}
    (hopen : vfsSpiffsOpendir objs path ppath stat memory failure = .ok dir) :
    Lists ds objs path dir ↔ (objs.names.filterMap (entryOf path)).Nodup ∧
      ∀ ent, ent ∈ objs.names.filterMap (entryOf path) ↔ Child objs path ent := by
  constructor
  · rintro ⟨ents, hreads, hnodup, hmem⟩
    have hents := List.append_cancel_left ((reads_directory h hopen).mp hreads)
    rw [← hents]
    exact ⟨hnodup, hmem⟩
  · rintro ⟨hnodup, hmem⟩
    exact ⟨_, (reads_directory h hopen).mpr rfl, hnodup, hmem⟩

/-- Listing a directory returns the mount points and every child once, exactly
    where it is not the root or no name is doubled. -/
theorem lists_iff (h : objs.Directory path) {ppath : List Byte} {stat : Option DType}
    {memory : Bool} {failure : Option Int}
    (hopen : vfsSpiffsOpendir objs path ppath stat memory failure = .ok dir) :
    Lists ds objs path dir ↔ path ≠ root ∨ ¬ Doubled objs :=
  (lists_iff_entries h hopen).trans (entries_iff h)

/-- A directory with a file in it. -/
def oneFile : Objects := ⟨[chars "/d/.", chars "/d/a"], by decide, by decide⟩

theorem lists_oneFile : Lists [] oneFile (chars "/d") ⟨chars "/d", oneFile.names, false⟩ := by
  have hdir : oneFile.Directory (chars "/d") := .inr ⟨rfl, by decide, by decide⟩
  have hopen : vfsSpiffsOpendir oneFile (chars "/d") (chars "/spiffs/d") (some .dir) true none =
      .ok ⟨chars "/d", oneFile.names, false⟩ := rfl
  exact (lists_iff hdir hopen).mpr (.inl (by decide))

/-- A root with an object whose name is "//a": the listing has a file "a". -/
def doubledFile : Objects := ⟨[chars "//a"], by decide, by decide⟩

theorem not_lists_doubledFile : ¬ Lists [] doubledFile root ⟨root, doubledFile.names, false⟩ := by
  intro h
  have hdir : doubledFile.Directory root := .inl rfl
  have hopen : vfsSpiffsOpendir doubledFile root (chars "/spiffs/") none true none =
      .ok ⟨root, doubledFile.names, false⟩ := rfl
  have hcond := (entries_iff hdir).mp ((lists_iff_entries hdir hopen).mp h)
  rcases hcond with hne | hsingle
  · exact hne rfl
  · exact hsingle ⟨⟨chars "a", .reg⟩, ⟨by decide, by decide, by decide⟩, by decide⟩

end LuaRtos.Spiffs
