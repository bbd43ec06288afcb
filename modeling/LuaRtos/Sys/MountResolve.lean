/-
  LuaRtos.Sys.MountResolve

  `mount_resolve_to_physical` on a normalized path: the device that
  `mount_device` finds, the part of the path that `mount_get_mount_from_path`
  cuts off, and the physical path built from the two.

  The two look the first component up in different ways.  `mount_device` wants
  the whole mount path; `mount_get_mount_from_path` compares as many characters
  as the component has, so that with a slash behind it a prefix of the name of
  the mount point is enough.
-/

import LuaRtos.Sys.MountNormal

namespace LuaRtos.Sys

open LuaRtos.CLib

/-! ## The device of a path -/

/-- `sd`, the name of the mount point. -/
def sd : Comp := chars "sd"

/-- The device that holds the root. -/
def defaultName (spiffs fat : BitVec 32) : List Byte :=
  if spiffs ≠ 0 then chars "spiffs" else if fat ≠ 0 then chars "fat" else []

/-- The device of a path, by its first component. -/
def deviceName (spiffs fat : BitVec 32) (ds : List Comp) : List Byte :=
  if ds.head? = some sd then chars "fat" else defaultName spiffs fat

/-- The devices there are. -/
theorem deviceName_cases (spiffs fat : BitVec 32) (ds : List Comp) :
    deviceName spiffs fat ds = chars "spiffs" ∨ deviceName spiffs fat ds = chars "fat" ∨
      deviceName spiffs fat ds = [] := by
  unfold deviceName defaultName
  split
  · exact .inr (.inl rfl)
  · split
    · exact .inl rfl
    · split
      · exact .inr (.inl rfl)
      · exact .inr (.inr rfl)

theorem nul_notMem_deviceName (spiffs fat : BitVec 32) (ds : List Comp) :
    nul ∉ deviceName spiffs fat ds := by
  rcases deviceName_cases spiffs fat ds with h | h | h <;> rw [h] <;> decide

theorem slash_notMem_deviceName (spiffs fat : BitVec 32) (ds : List Comp) :
    slash ∉ deviceName spiffs fat ds := by
  rcases deviceName_cases spiffs fat ds with h | h | h <;> rw [h] <;> decide

theorem length_deviceName_le (spiffs fat : BitVec 32) (ds : List Comp) :
    (deviceName spiffs fat ds).length ≤ 6 := by
  rcases deviceName_cases spiffs fat ds with h | h | h <;> rw [h] <;> decide

section Device

variable {s t r c post w : List Byte} {cs ds : List Comp}

theorem mountDefaultDevice_mountds (spiffs fat : BitVec 32) :
    mountDefaultDevice (mountds spiffs fat) = defaultName spiffs fat ++ nul :: [] := by
  unfold defaultName
  simp only [mountds, mountDefaultDevice, ne_eq]
  split
  · rfl
  · split <;> rfl

theorem skipCommon_prefix (ht : nul ∉ t) (r post w : List Byte) :
    skipCommon (t ++ (r ++ nul :: post)) (t ++ nul :: w) = .ok (r ++ nul :: post, nul :: w) := by
  induction t with
  | nil =>
    obtain ⟨c, u, hu⟩ : ∃ c u, r ++ nul :: post = c :: u := by
      cases r with
      | nil => exact ⟨nul, post, rfl⟩
      | cons c r => exact ⟨c, r ++ nul :: post, rfl⟩
    simp [hu, skipCommon]
  | cons d t ih =>
    obtain ⟨hd, ht⟩ := List.ne_and_not_mem_of_not_mem_cons ht
    simp [skipCommon, Ne.symm hd, ih ht]

theorem skipCommon_not_prefix (hs : nul ∉ s) (ht : nul ∉ t) (h : ¬ t <+: s) (post w : List Byte) :
    ∃ x d y, skipCommon (s ++ nul :: post) (t ++ nul :: w) = .ok (x, d :: y) ∧ d ≠ nul := by
  induction t generalizing s with
  | nil => exact absurd List.nil_prefix h
  | cons d t ih =>
    obtain ⟨hd, ht'⟩ := List.ne_and_not_mem_of_not_mem_cons ht
    cases s with
    | nil =>
      have heq : skipCommon ([] ++ nul :: post) (d :: t ++ nul :: w) =
          .ok (nul :: post, d :: (t ++ nul :: w)) := by
        simp [skipCommon]
      exact ⟨_, d, _, heq, Ne.symm hd⟩
    | cons c s =>
      obtain ⟨hc, hs⟩ := List.ne_and_not_mem_of_not_mem_cons hs
      by_cases hcd : c = d
      · subst hcd
        obtain ⟨x, e, y, heq, he⟩ := ih hs ht' fun hp => h (List.cons_prefix_cons.mpr ⟨rfl, hp⟩)
        exact ⟨x, e, y, by simp [skipCommon, Ne.symm hc, heq], he⟩
      · have heq : skipCommon (c :: s ++ nul :: post) (d :: t ++ nul :: w) =
            .ok (c :: (s ++ nul :: post), d :: (t ++ nul :: w)) := by
          simp [skipCommon, hcd]
        exact ⟨_, d, _, heq, Ne.symm hd⟩

/-- A component ends at the first slash. -/
theorem takeWhile_component (hc : slash ∉ c) (hr : r = [] ∨ ∃ u, r = slash :: u) :
    (c ++ r).takeWhile (· ≠ slash) = c := by
  have hpos : ∀ b ∈ c, decide (b ≠ slash) = true := by
    intro b hb
    have hne : b ≠ slash := fun h => hc (h ▸ hb)
    simpa using hne
  rw [List.takeWhile_append_of_pos hpos]
  rcases hr with rfl | ⟨u, rfl⟩ <;> simp

theorem joinPath_nil_or_slash (cs : List Comp) :
    joinPath cs = [] ∨ ∃ u, joinPath cs = slash :: u := by
  cases cs with
  | nil => exact .inl rfl
  | cons c cs => exact .inr ⟨_, rfl⟩

/-- The scan of `mount_device` finds the mount point exactly when it is the
    whole first component. -/
theorem mountedOn_pathText (hds : ∀ d ∈ ds, Comp.Plain d) (post : List Byte) :
    mountedOn (pathText ds ++ nul :: post) mountps =
      .ok (if ds.head? = some sd then some (lit "fat") else none) := by
  have hnul : nul ∉ pathText ds := nul_notMem_pathText fun d hd => (hds d hd).nul_free
  have hsd : nul ∉ chars "/sd" := by decide
  by_cases hp : chars "/sd" <+: pathText ds
  · obtain ⟨r, hr⟩ := hp
    have hskip : skipCommon (pathText ds ++ nul :: post) (lit "/sd") =
        .ok (r ++ nul :: post, nul :: []) := by
      rw [← hr, List.append_assoc]
      exact skipCommon_prefix hsd r post []
    -- `/sd` is a prefix; it is the whole component when a slash or the end follows
    have hend : (r.headD nul = nul ∨ r.headD nul = slash) ↔ ds.head? = some sd := by
      cases ds with
      | nil =>
        have := congrArg List.length hr
        simp [chars] at this
      | cons c cs =>
        have hc := (hds c List.mem_cons_self).slash_free
        have heq : sd ++ r = c ++ joinPath cs := List.cons.inj hr |>.2
        have hhead : (r.headD nul = nul ∨ r.headD nul = slash) ↔ r = [] ∨ ∃ u, r = slash :: u := by
          cases r with
          | nil => simp
          | cons b r =>
            have hb : b ≠ nul := fun h => hnul (by rw [← hr, h]; simp)
            simp [hb]
        rw [hhead, List.head?_cons, Option.some.injEq]
        constructor
        · intro hr'
          rw [← takeWhile_component hc (joinPath_nil_or_slash cs), ← heq,
            takeWhile_component (by decide) hr']
        · rintro rfl
          rw [List.append_cancel_left heq]
          exact joinPath_nil_or_slash cs
    have hfpath : deref (nul :: []) = .ok nul := rfl
    simp only [mountps, mountedOn, hskip, ok_bind, deref_append, hfpath, if_true, hend, pure_eq_ok]
    split <;> rfl
  · obtain ⟨x, d, y, hskip, hd⟩ := skipCommon_not_prefix hnul hsd hp post []
    have hne : ds.head? ≠ some sd := by
      intro h
      cases ds with
      | nil => cases h
      | cons c cs =>
        cases h
        exact hp ⟨joinPath cs, rfl⟩
    rw [if_neg hne]
    change skipCommon _ (lit "/sd") = _ at hskip
    simp only [mountps, mountedOn, hskip, ok_bind, deref, hd, if_false, pure_eq_ok]

/-- `mount_device` on a normalized path. -/
theorem mountDevice_pathText (hds : ∀ d ∈ ds, Comp.Plain d) (post : List Byte)
    (spiffs fat : BitVec 32) :
    mountDevice (mountds spiffs fat) (pathText ds ++ nul :: post) =
      .ok (some (deviceName spiffs fat ds ++ nul :: [])) := by
  rw [mountDevice, mountedOn_pathText hds, ok_bind, deviceName]
  by_cases hsd : ds.head? = some sd
  · rw [if_pos hsd, if_pos hsd]
    rfl
  · rw [if_neg hsd, if_neg hsd, ← mountDefaultDevice_mountds]
    rfl

end Device

/-! ## The part that is cut off -/

/-- How many characters the comparison with the first component covers: with
    no slash behind it, the terminator too. -/
def compareLen (c : Comp) (cs : List Comp) : Nat := if cs = [] then c.length + 1 else c.length

/-- The names that the comparison lets the first component stand for. -/
def StandsFor (c : Comp) (cs : List Comp) (name : List Byte) : Prop :=
  if cs = [] then name = c else c <+: name

instance (c : Comp) (cs : List Comp) (name : List Byte) : Decidable (StandsFor c cs name) := by
  unfold StandsFor
  infer_instance

section Cut

variable {α : Type} {c : Comp} {cs ds : List Comp} {post name : List Byte}

theorem componentLen_eq (hslash : slash ∉ c) (hnul : nul ∉ c) (cs : List Comp) (post : List Byte) :
    componentLen (c ++ (joinPath cs ++ nul :: post)) = .ok c.length := by
  induction c with
  | nil =>
    cases cs with
    | nil => simp [componentLen]
    | cons d cs => simp [componentLen]
  | cons b c ih =>
    obtain ⟨hb, hslash⟩ := List.ne_and_not_mem_of_not_mem_cons hslash
    obtain ⟨hb', hnul⟩ := List.ne_and_not_mem_of_not_mem_cons hnul
    simp [componentLen, Ne.symm hb, Ne.symm hb', ih hslash hnul]

/-- One round of the search. -/
theorem findPrefix_cons (key : α → List Byte) (cs : List Comp) (post : List Byte)
    (hnul : nul ∉ c) {a : α} (hname : nul ∉ name)
    (hkey : key a = name ++ nul :: []) (table : List α) :
    findPrefix key (c ++ (joinPath cs ++ nul :: post)) (compareLen c cs) (a :: table) =
      if StandsFor c cs name then .ok (some a)
      else findPrefix key (c ++ (joinPath cs ++ nul :: post)) (compareLen c cs) table := by
  have hcmp : ∃ r, strncmp (key a) (c ++ (joinPath cs ++ nul :: post)) (compareLen c cs) = .ok r ∧
      (r = 0 ↔ StandsFor c cs name) := by
    rw [hkey]
    unfold compareLen StandsFor
    split
    · rename_i hcs
      subst hcs
      exact strncmp_whole hname hnul [] post
    · exact strncmp_prefix hname hnul [] _
  obtain ⟨r, hr, hiff⟩ := hcmp
  simp only [findPrefix, hr, ok_bind, hiff, pure_eq_ok]

/-- The scan over the first component: the search, and behind it the rest of
    the path, which starts behind the terminator when the component ends on
    it. -/
theorem getFromPath_eq (key : α → List Byte) (cs : List Comp) (post : List Byte)
    (hslash : slash ∉ c) (hnul : nul ∉ c) (table : List α) :
    getFromPath key table (slash :: (c ++ (joinPath cs ++ nul :: post))) =
      findPrefix key (c ++ (joinPath cs ++ nul :: post)) (compareLen c cs) table >>= fun
        | some a => .ok (some a, if cs = [] then post else joinPath cs ++ nul :: post)
        | none => .ok (none, slash :: (c ++ (joinPath cs ++ nul :: post))) := by
  have hlen := componentLen_eq hslash hnul cs post
  have hfirst : deref (slash :: (c ++ (joinPath cs ++ nul :: post))) = .ok slash := rfl
  have hname : (slash :: (c ++ (joinPath cs ++ nul :: post))).drop 1 =
      c ++ (joinPath cs ++ nul :: post) := rfl
  have hlast : deref ((c ++ (joinPath cs ++ nul :: post)).drop c.length) =
      .ok (if cs = [] then nul else slash) := by
    rw [List.drop_left]
    cases cs <;> rfl
  have hcompare : (if (if cs = [] then nul else slash) ≠ nul then c.length else c.length + 1) =
      compareLen c cs := by
    unfold compareLen
    by_cases hcs : cs = []
    · simp [hcs]
    · have : slash ≠ nul := by decide
      simp [hcs, this]
  have hdrop : (c ++ (joinPath cs ++ nul :: post)).drop (compareLen c cs) =
      if cs = [] then post else joinPath cs ++ nul :: post := by
    unfold compareLen
    split
    · rename_i hcs
      subst hcs
      simp
    · simp
  cases hfind : findPrefix key (c ++ (joinPath cs ++ nul :: post)) (compareLen c cs) table with
  | error e =>
    simp only [getFromPath, hfirst, ok_bind, if_true, hname, hlen, hlast, hcompare, hfind,
      error_bind]
  | ok a =>
    cases a <;>
      simp only [getFromPath, hfirst, ok_bind, if_true, hname, hlen, hlast, hcompare, hdrop, hfind,
        pure_eq_ok]

/-- The components that are left of a path when the mount point is cut off. -/
def cutMount : List Comp → List Comp
  | [] => []
  | c :: cs => if StandsFor c cs sd then cs else c :: cs

theorem rooted_joinPath (cs : List Comp) : rooted (joinPath cs) = pathText cs := by
  cases cs with
  | nil => rfl
  | cons c cs => rw [pathText_of_ne_nil (List.cons_ne_nil c cs)]; exact if_pos rfl

theorem rooted_pathText (cs : List Comp) : rooted (pathText cs) = pathText cs := by
  cases cs with
  | nil => rfl
  | cons c cs => exact if_pos rfl

/-- The rest that `mount_get_mount_from_path` leaves of a normalized path. -/
theorem mountGetMountFromPath_eq {pathMax : Nat} {b : List Byte} (h : NormalBlock pathMax b ds)
    (hds : ∀ d ∈ ds, Comp.Plain d) :
    ∃ m rest w, mountGetMountFromPath b = .ok (m, rest ++ nul :: w) ∧ nul ∉ rest ∧
      rest.length ≤ pathMax ∧ rooted rest = pathText (cutMount ds) := by
  obtain ⟨post, rfl, hpost⟩ := h.text
  have hsize := h.size
  have hnul := nul_notMem_pathText fun d hd => (hds d hd).nul_free
  cases ds with
  | nil =>
    -- the root: an empty component with its terminator is no mount point
    refine ⟨none, [slash], post, rfl, by decide, ?_, rfl⟩
    simp only [pathText_nil, List.length_append, List.length_cons] at hsize ⊢
    omega
  | cons c cs =>
    have hc := hds c List.mem_cons_self
    have hbuf : pathText (c :: cs) ++ nul :: post =
        slash :: (c ++ (joinPath cs ++ nul :: post)) := by
      rw [pathText_of_ne_nil (List.cons_ne_nil c cs), joinPath_cons, List.cons_append,
        List.append_assoc]
    obtain ⟨post', rfl⟩ := hpost (List.cons_ne_nil c cs)
    have hkey : (fun m : Mountp => m.fpath.drop 1)
        ⟨lit "/", lit "sd", lit "/sd", lit "spiffs", lit "fat"⟩ = sd ++ nul :: [] := rfl
    have hfind := findPrefix_cons (fun m : Mountp => m.fpath.drop 1) cs (nul :: post')
      hc.nul_free (show nul ∉ sd by decide) hkey []
    simp only [pathText_of_ne_nil (List.cons_ne_nil c cs), joinPath_cons, List.length_append,
      List.length_cons] at hsize
    have hcs : nul ∉ joinPath cs := nul_notMem_joinPath.mpr fun d hd =>
      (hds d (List.mem_cons_of_mem c hd)).nul_free
    have hget := getFromPath_eq (fun m : Mountp => m.fpath.drop 1) cs (nul :: post')
      hc.slash_free hc.nul_free mountps
    rw [hbuf, mountGetMountFromPath, hget, mountps, hfind]
    by_cases hsd : StandsFor c cs sd
    -- with no slash behind it the rest starts at the second terminator, and is empty
    · have hcut : cutMount (c :: cs) = cs := if_pos hsd
      have hrest : (if cs = [] then nul :: post' else joinPath cs ++ nul :: nul :: post') =
          joinPath cs ++ nul :: (if cs = [] then post' else nul :: post') := by
        split
        · rename_i hnil
          rw [hnil]
          rfl
        · rfl
      rw [if_pos hsd, hcut]
      refine ⟨_, joinPath cs, _, by simp only [ok_bind, hrest, pure_eq_ok]; rfl, hcs, by omega,
        rooted_joinPath cs⟩
    · have hcut : cutMount (c :: cs) = c :: cs := if_neg hsd
      rw [if_neg hsd, hcut, ← hbuf]
      refine ⟨_, pathText (c :: cs), _, by simp only [findPrefix, ok_bind, pure_eq_ok]; rfl, hnul,
        ?_, rooted_pathText _⟩
      rw [pathText_of_ne_nil (List.cons_ne_nil c cs), joinPath_cons, List.length_cons,
        List.length_append]
      omega

end Cut

/-! ## Building a path -/

/-- `if (*rest != '/') strncat(b, "/", PATH_MAX); strncat(b, rest, PATH_MAX);`,
    the end of both directions. -/
def appendRest (pathMax : Nat) (rest b : List Byte) : Result (List Byte) := do
  let b ← if (← deref rest) ≠ slash then strncat b (lit "/") pathMax else pure b
  strncat b rest pathMax

section Build

variable {n pathMax : Nat} {b b' s r w : List Byte}

theorem appendRest_eq (r w b : List Byte) :
    appendRest pathMax (r ++ nul :: w) b =
      if r.head? = some slash then strncat b (r ++ nul :: w) pathMax
      else strncat b (lit "/") pathMax >>= fun b => strncat b (r ++ nul :: w) pathMax := by
  have hhead := headD_eq_slash_iff (s := r)
  simp only [appendRest, deref_append, ok_bind, ne_eq, ite_not, hhead, pure_eq_ok]

theorem appendRest_ok (pathMax : Nat) (w : List Byte) (h : Holds n b s) (hr : nul ∉ r)
    (hfit : s.length + (rooted r).length < n) :
    ∃ b', appendRest pathMax (r ++ nul :: w) b = .ok b' := by
  have htake := List.length_take_le' pathMax r
  rw [appendRest_eq]
  unfold rooted at hfit
  split
  · rename_i hhead
    rw [if_pos hhead] at hfit
    exact h.strncat_ok hr w (by omega)
  · rename_i hhead
    rw [if_neg hhead, List.length_cons] at hfit
    have hone : ([slash].take pathMax).length ≤ 1 := List.length_take_le' _ _
    rw [lit_slash]
    obtain ⟨b₁, hb₁⟩ := h.strncat_ok (k := pathMax) (t := [slash]) (by decide) [] (by omega)
    have h₁ := h.strncat_inv (by decide) hb₁
    obtain ⟨b₂, hb₂⟩ := h₁.strncat_ok (k := pathMax) hr w (by
      rw [List.length_append]
      omega)
    exact ⟨b₂, by rw [hb₁, ok_bind, hb₂]⟩

theorem appendRest_inv (hmax : 0 < pathMax) (h : Holds n b s) (hr : nul ∉ r)
    (hlen : r.length ≤ pathMax) (hok : appendRest pathMax (r ++ nul :: w) b = .ok b') :
    Holds n b' (s ++ rooted r) := by
  have htake : r.take pathMax = r := List.take_of_length_le hlen
  rw [appendRest_eq] at hok
  unfold rooted
  split at hok
  · rename_i hhead
    rw [if_pos hhead]
    simpa [htake] using h.strncat_inv hr hok
  · rename_i hhead
    rw [if_neg hhead]
    rw [lit_slash] at hok
    obtain ⟨b₁, hb₁, hok⟩ := bind_eq_ok.mp hok
    have hone : [slash].take pathMax = [slash] := List.take_of_length_le hmax
    have h₁ := h.strncat_inv (by decide) hb₁
    rw [hone] at h₁
    simpa [htake] using h₁.strncat_inv hr hok

end Build

/-! ## The physical path -/

/-- The physical path of the components `ds`. -/
def physicalText (spiffs fat : BitVec 32) (ds : List Comp) : List Byte :=
  slash :: (deviceName spiffs fat ds ++ pathText (cutMount ds))

section Physical

variable {pathMax : Nat} {spiffs fat : BitVec 32} {cwd path v w pp : List Byte} {ds : List Comp}
  {m₁ m₂ : Option (Block (pathMax + 1))}

theorem mountResolveToPhysical_eq (spiffs fat : BitVec 32) {b cwd path : List Byte}
    (hnorm : mountNormalizePath pathMax cwd path m₁ = .ok (some b))
    (hb : NormalBlock pathMax b ds) (hds : ∀ d ∈ ds, Comp.Plain d) (m : Block (pathMax + 1)) :
    ∃ rest w, nul ∉ rest ∧ rest.length ≤ pathMax ∧ rooted rest = pathText (cutMount ds) ∧
      mountResolveToPhysical pathMax (mountds spiffs fat) cwd path m₁ (some m) =
        strncpy m.bytes (lit "/") pathMax >>= fun b =>
          strncat b (deviceName spiffs fat ds ++ nul :: []) pathMax >>= fun b =>
            appendRest pathMax (rest ++ nul :: w) b >>= fun b => .ok (some b) := by
  obtain ⟨mnt, rest, w, hget, hnul, hlen, hroot⟩ := mountGetMountFromPath_eq hb hds
  obtain ⟨post, hpost, -⟩ := hb.text
  have hdev := mountDevice_pathText hds post spiffs fat
  rw [← hpost] at hdev
  refine ⟨rest, w, hnul, hlen, hroot, ?_⟩
  simp only [mountResolveToPhysical, hnorm, ok_bind, hdev, hget, pure_eq_ok, appendRest,
    deref_append]
  by_cases hslash : rest.headD nul = slash
  · simp only [hslash, ne_eq, not_true_eq_false, if_false]
  · simp only [hslash, ne_eq, not_false_eq_true, if_true, bind_assoc]

/-- What `mount_resolve_to_physical` has done when it returns a path. -/
theorem mountResolveToPhysical_inv (hmax : 6 ≤ pathMax) (hcwd : nul ∉ cwd) (hpath : nul ∉ path)
    (hok : mountResolveToPhysical pathMax (mountds spiffs fat) (cwd ++ nul :: v) (path ++ nul :: w)
      m₁ m₂ = .ok (some pp)) :
    (fullPath pathMax cwd path).length ≤ pathMax ∧
      ∃ ds, normalComponents pathMax cwd path = some ds ∧
        Holds (pathMax + 1) pp (physicalText spiffs fat ds) := by
  obtain ⟨nb, hnb, hrest⟩ := bind_eq_ok.mp hok
  cases nb with
  | none => cases hrest
  | some b =>
    obtain ⟨hfit, ds, hds, hblock⟩ := mountNormalizePath_inv (by omega) hcwd hpath hnb
    refine ⟨hfit, ds, hds, ?_⟩
    have hplain := normalComponents_plain hcwd hpath hds
    cases m₂ with
    | none =>
      -- without memory for the result the call returns NULL, not a path
      obtain ⟨mnt, rest, w, hget, -⟩ := mountGetMountFromPath_eq hblock hplain
      obtain ⟨post, hpost, -⟩ := hblock.text
      have hdev := mountDevice_pathText hplain post spiffs fat
      rw [← hpost] at hdev
      simp [hdev, hget] at hrest
    | some m =>
      obtain ⟨rest, w', hnul, hlen, hroot, heq⟩ :=
        mountResolveToPhysical_eq spiffs fat hnb hblock hplain m
      rw [heq] at hok
      obtain ⟨b₁, hb₁, hok⟩ := bind_eq_ok.mp hok
      obtain ⟨b₂, hb₂, hok⟩ := bind_eq_ok.mp hok
      obtain ⟨b₃, hb₃, hok⟩ := bind_eq_ok.mp hok
      cases hok
      rw [lit_slash] at hb₁
      obtain ⟨b₁', hb₁', h₁⟩ := strncpy_holds (k := pathMax) m.size (Nat.le_succ _)
        (show nul ∉ [slash] by decide) [] (by simp only [List.length_singleton]; omega)
      rw [hb₁] at hb₁'
      cases hb₁'
      have hdev : (deviceName spiffs fat ds).take pathMax = deviceName spiffs fat ds :=
        List.take_of_length_le (Nat.le_trans (length_deviceName_le spiffs fat ds) hmax)
      have h₂ := h₁.strncat_inv (nul_notMem_deviceName spiffs fat ds) hb₂
      have h₃ := appendRest_inv (by omega) h₂ hnul hlen hb₃
      rw [hdev, hroot] at h₃
      exact h₃

/-- When `mount_resolve_to_physical` returns a path. -/
theorem mountResolveToPhysical_ok (hmax : 6 ≤ pathMax) (hcwd : nul ∉ cwd) (hpath : nul ∉ path)
    (hfit : (fullPath pathMax cwd path).length ≤ pathMax)
    (habs : path.head? = some slash → path.length < pathMax)
    (hds : normalComponents pathMax cwd path = some ds)
    (hfit' : (physicalText spiffs fat ds).length ≤ pathMax) (m₁ m₂ : Block (pathMax + 1)) :
    ∃ pp, mountResolveToPhysical pathMax (mountds spiffs fat) (cwd ++ nul :: v)
      (path ++ nul :: w) (some m₁) (some m₂) = .ok (some pp) := by
  obtain ⟨b, hnorm, hblock⟩ := mountNormalizePath_ok (v := v) (w := w) (by omega) hcwd hpath m₁
    hfit habs hds
  have hplain := normalComponents_plain hcwd hpath hds
  obtain ⟨rest, w', hnul, hlen, hroot, heq⟩ :=
    mountResolveToPhysical_eq spiffs fat hnorm hblock hplain m₂
  simp only [physicalText, List.length_cons, List.length_append] at hfit'
  have hdev : (deviceName spiffs fat ds).take pathMax = deviceName spiffs fat ds :=
    List.take_of_length_le (Nat.le_trans (length_deviceName_le spiffs fat ds) hmax)
  obtain ⟨b₁, hb₁, h₁⟩ := strncpy_holds (k := pathMax) m₂.size (Nat.le_succ _)
    (show nul ∉ [slash] by decide) [] (by simp only [List.length_singleton]; omega)
  obtain ⟨b₂, hb₂⟩ := h₁.strncat_ok (k := pathMax) (nul_notMem_deviceName spiffs fat ds) [] (by
    rw [hdev, List.length_singleton]
    omega)
  have h₂ := h₁.strncat_inv (nul_notMem_deviceName spiffs fat ds) hb₂
  rw [hdev] at h₂
  obtain ⟨b₃, hb₃⟩ := appendRest_ok pathMax w' h₂ hnul (by
    rw [hroot, List.length_append, List.length_singleton]
    omega)
  refine ⟨b₃, ?_⟩
  rw [← lit_slash] at hb₁
  rw [heq, hb₁, ok_bind, hb₂, ok_bind, hb₃, ok_bind]

end Physical

end LuaRtos.Sys
