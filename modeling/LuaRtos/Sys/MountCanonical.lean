/-
  LuaRtos.Sys.MountCanonical

  `mount_normalize_path` against a reference for absolute paths, and the paths with
  which it stays inside its buffer.

  The reference drops the components "." and "..", with the component before a "..".
  The code drops every component that ends with a dot.
-/

import LuaRtos.Sys.MountPhysical

namespace LuaRtos.Sys

open LuaRtos.CLib

/-! ## The reference -/

/-- The components that are left; `st` are the ones kept so far, the last one first. -/
def removeDots : List Comp → List Comp → Option (List Comp)
  | st, [] => some st.reverse
  | st, c :: cs =>
    if c = [dot] then removeDots st cs
    else if c = [dot, dot] then
      match st with
      | [] => none
      | _ :: st => removeDots st cs
    else removeDots (c :: st) cs

theorem removeDots_dot (st cs : List Comp) :
    removeDots st ([dot] :: cs) = removeDots st cs := by
  simp [removeDots]

theorem removeDots_above_root (cs : List Comp) : removeDots [] ([dot, dot] :: cs) = none := by
  simp [removeDots]

theorem removeDots_dotDot (c : Comp) (st cs : List Comp) :
    removeDots (c :: st) ([dot, dot] :: cs) = removeDots st cs := by
  simp [removeDots]

theorem removeDots_name {c : Comp} (st cs : List Comp) (hdot : c ≠ [dot])
    (hdotDot : c ≠ [dot, dot]) : removeDots st (c :: cs) = removeDots (c :: st) cs := by
  simp [removeDots, hdot, hdotDot]

/-- The components of a path, without the empty ones before its first and behind its last
    slash. -/
def pathComps (path : List Byte) : List Comp := (path.splitOn slash).filter (· ≠ [])

/-- The canonical path of an absolute one; none where a ".." climbs above the root. -/
def canonicalPath (path : List Byte) : Option (List Byte) :=
  (removeDots [] (pathComps path)).map pathText

/-- No two slashes follow each other. -/
def NoRepeatedSlash (path : List Byte) : Prop := ¬ [slash, slash] <:+: path

/-- A name that the code takes for a "." or a "..". -/
def MisreadName (c : Comp) : Prop := c.getLast? = some dot ∧ c ≠ [dot] ∧ c ≠ [dot, dot]

instance (c : Comp) : Decidable (MisreadName c) := inferInstanceAs (Decidable (_ ∧ _ ∧ _))

/-! ## The components that the code works on -/

section Comps

variable {s path cwd v w : List Byte} {pathMax : Nat} {cs : List Comp}

theorem splitOn_eq_splitDirs (s : List Byte) : s.splitOn slash = splitDirs (s ++ [slash]) := by
  induction s with
  | nil => rfl
  | cons b s ih =>
    rw [List.splitOn_cons_eq_if_modifyHead, List.cons_append, splitDirs, ih]
    by_cases hb : b = slash
    · rw [if_pos (beq_iff_eq.mpr hb), if_pos hb]
    · rw [if_neg (fun h => hb (beq_iff_eq.mp h)), if_neg hb]
      cases splitDirs (s ++ [slash]) with
      | nil => rfl
      | cons c cs => rfl

theorem splitDirs_concat_slash (s : List Byte) :
    splitDirs (s ++ [slash] ++ [slash]) = splitDirs (s ++ [slash]) ++ [[]] := by
  induction s with
  | nil => rfl
  | cons b s ih =>
    rw [List.cons_append, List.cons_append, splitDirs, splitDirs, ih]
    by_cases hb : b = slash
    · rw [if_pos hb, if_pos hb]
      rfl
    · rw [if_neg hb, if_neg hb]
      cases hs : splitDirs (s ++ [slash]) with
      | nil =>
        have htext := dirText_splitDirs s
        rw [hs] at htext
        simp at htext
      | cons c cs => rfl

theorem dirText_append (cs ds : List Comp) : dirText (cs ++ ds) = dirText cs ++ dirText ds := by
  simp [dirText]

/-- Where no slashes follow each other no component is empty. -/
theorem splitDirs_ne_nil (h : NoRepeatedSlash (slash :: (s ++ [slash]))) :
    ∀ c ∈ splitDirs (s ++ [slash]), c ≠ [] := by
  rintro c hc rfl
  obtain ⟨as, bs, hsplit⟩ := List.append_of_mem hc
  apply h
  refine ⟨joinPath as, dirText bs, ?_⟩
  have htext := dirText_splitDirs s
  rw [hsplit] at htext
  rw [← htext, dirText_append, dirText_cons, ← List.cons_append, slash_dirText]
  simp

theorem filter_eq_self_of_ne_nil (h : ∀ c ∈ cs, c ≠ []) : cs.filter (· ≠ []) = cs :=
  List.filter_eq_self.mpr fun c hc => decide_eq_true (h c hc)

/-- The components of the main loop are those of the reference. -/
theorem fullComponents_eq (habs : path.head? = some slash) (hrep : NoRepeatedSlash path)
    (hlt : path.length < pathMax) : fullComponents pathMax cwd path = pathComps path := by
  obtain ⟨t, rfl⟩ : ∃ t, path = slash :: t := by
    cases path with
    | nil => cases habs
    | cons b t =>
      cases habs
      exact ⟨t, rfl⟩
  unfold fullComponents pathComps
  rw [fullPath_absolute habs, List.take_of_length_le (Nat.le_of_lt hlt), splitOn_eq_splitDirs,
    List.cons_append, splitDirs_slash, List.filter_cons_of_neg (by simp)]
  unfold withSlash
  split
  · rename_i hlast
    rw [List.tail_cons]
    obtain rfl | ⟨u, b, rfl⟩ := List.eq_nil_or_concat' t
    · rfl
    · rw [← List.cons_append, List.getLast?_concat] at hlast
      obtain rfl := Option.some.inj hlast
      rw [splitDirs_concat_slash, List.filter_append,
        filter_eq_self_of_ne_nil (splitDirs_ne_nil hrep)]
      simp
  · rename_i hlast
    rw [List.cons_append, List.tail_cons]
    refine (filter_eq_self_of_ne_nil (splitDirs_ne_nil ?_)).symm
    -- the slash that is added follows no slash
    rintro ⟨a, b, hab⟩
    rw [← List.cons_append] at hab
    obtain rfl | ⟨b, x, rfl⟩ := List.eq_nil_or_concat' b
    · have hconcat : (a ++ [slash]) ++ [slash] = (slash :: t) ++ [slash] := by simpa using hab
      rw [← List.append_cancel_right hconcat, List.getLast?_concat] at hlast
      exact hlast rfl
    · rw [← List.append_assoc] at hab
      exact hrep ⟨a, b, (List.append_inj' hab rfl).1⟩

/-! ## The dots -/

theorem compKind_dot : compKind [dot] = .dot := rfl

theorem compKind_dotDot : compKind [dot, dot] = .dotDot := rfl

/-- What the code takes a component of the reference for. -/
theorem compKind_of_not_misread {c : Comp} (h : ¬ MisreadName c) :
    (c = [dot] ∨ c = [dot, dot]) ∨ compKind c = .name := by
  by_cases hname : compKind c = .name
  · exact .inr hname
  · rw [compKind_eq_name_iff, not_not] at hname
    by_contra hnot
    obtain ⟨hneither, -⟩ := not_or.mp hnot
    obtain ⟨hdot, hdotDot⟩ := not_or.mp hneither
    exact h ⟨hname, hdot, hdotDot⟩

/-- Without such names the code does what the reference does. -/
theorem resolveDots_eq_removeDots {st : List Comp} (h : ∀ c ∈ cs, ¬ MisreadName c) :
    resolveDots st cs = removeDots st cs := by
  induction cs generalizing st with
  | nil => rfl
  | cons c cs ih =>
    have hrest : ∀ st, resolveDots st cs = removeDots st cs := fun st =>
      ih fun d hd => h d (List.mem_cons_of_mem c hd)
    obtain (rfl | rfl) | hname := compKind_of_not_misread (h c List.mem_cons_self)
    · rw [resolveDots_dot compKind_dot, hrest, removeDots_dot]
    · cases st with
      | nil => rw [resolveDots_above_root compKind_dotDot, removeDots_above_root]
      | cons d st => rw [resolveDots_dotDot compKind_dotDot, hrest, removeDots_dotDot]
    · rw [resolveDots_name hname, hrest, removeDots_name]
      · rintro rfl
        cases hname
      · rintro rfl
        cases hname

/-- Every such name leaves fewer components. -/
theorem resolveDots_length {st st' ds ds' : List Comp} (h : removeDots st cs = some ds)
    (h' : resolveDots st' cs = some ds') :
    ds'.length + st.length + cs.countP (fun c => MisreadName c) ≤ ds.length + st'.length := by
  induction cs generalizing st st' with
  | nil =>
    cases h
    cases h'
    simp only [List.length_reverse, List.countP_nil]
    omega
  | cons c cs ih =>
    by_cases hmis : MisreadName c
    · have hcount : (fun c => decide (MisreadName c)) c = true := decide_eq_true hmis
      obtain ⟨hlast, hdot, hdotDot⟩ := hmis
      rw [removeDots_name _ _ hdot hdotDot] at h
      rw [List.countP_cons_of_pos (p := fun c => decide (MisreadName c)) hcount]
      cases hk : compKind c with
      | name => exact absurd hlast ((compKind_eq_name_iff c).mp hk)
      | dot =>
        rw [resolveDots_dot hk] at h'
        have hle := ih h h'
        rw [List.length_cons] at hle
        omega
      | dotDot =>
        cases st' with
        | nil =>
          rw [resolveDots_above_root hk] at h'
          cases h'
        | cons d st' =>
          rw [resolveDots_dotDot hk] at h'
          have hle := ih h h'
          rw [List.length_cons] at hle ⊢
          omega
    · have hcount : ¬ (fun c => decide (MisreadName c)) c = true := by simpa using hmis
      rw [List.countP_cons_of_neg (p := fun c => decide (MisreadName c)) hcount]
      obtain (rfl | rfl) | hname := compKind_of_not_misread hmis
      · rw [resolveDots_dot compKind_dot] at h'
        rw [removeDots_dot] at h
        exact ih h h'
      · cases st with
        | nil =>
          rw [removeDots_above_root] at h
          cases h
        | cons e st =>
          rw [removeDots_dotDot] at h
          cases st' with
          | nil =>
            rw [resolveDots_above_root compKind_dotDot] at h'
            cases h'
          | cons d st' =>
            rw [resolveDots_dotDot compKind_dotDot] at h'
            have hle := ih h h'
            rw [List.length_cons, List.length_cons]
            omega
      · have hdot : c ≠ [dot] := by
          rintro rfl
          cases hname
        have hdotDot : c ≠ [dot, dot] := by
          rintro rfl
          cases hname
        rw [resolveDots_name hname] at h'
        rw [removeDots_name _ _ hdot hdotDot] at h
        have hle := ih h h'
        rw [List.length_cons, List.length_cons] at hle
        omega

theorem resolveDots_eq_iff {ds : List Comp} (h : removeDots [] cs = some ds) :
    resolveDots [] cs = some ds ↔ ∀ c ∈ cs, ¬ MisreadName c := by
  constructor
  · intro h' c hc hmis
    have hle := resolveDots_length h h'
    have hpos : 0 < cs.countP (fun c => MisreadName c) :=
      List.countP_pos_iff.mpr ⟨c, hc, decide_eq_true hmis⟩
    omega
  · intro hall
    rw [resolveDots_eq_removeDots hall, h]

end Comps

/-! ## The two claims of the function -/

section Normalize

variable {path cwd v w : List Byte} {pathMax : Nat}

theorem pathComps_spec (path : List Byte) : ∀ c ∈ pathComps path, c ≠ [] ∧ slash ∉ c := by
  intro c hc
  obtain ⟨hmem, hne⟩ := List.mem_filter.mp hc
  rw [splitOn_eq_splitDirs] at hmem
  exact ⟨of_decide_eq_true hne, slash_notMem_splitDirs _ c hmem⟩

theorem removeDots_sublist {st cs ds : List Comp} (h : removeDots st cs = some ds) :
    ∀ d ∈ ds, d ∈ st ∨ d ∈ cs := by
  induction cs generalizing st with
  | nil =>
    cases h
    exact fun d hd => .inl (List.mem_reverse.mp hd)
  | cons c cs ih =>
    intro d hd
    by_cases hdot : c = [dot]
    · subst hdot
      rw [removeDots_dot] at h
      exact (ih h d hd).imp_right (List.mem_cons_of_mem _)
    · by_cases hdotDot : c = [dot, dot]
      · subst hdotDot
        cases st with
        | nil =>
          rw [removeDots_above_root] at h
          cases h
        | cons e st =>
          rw [removeDots_dotDot] at h
          exact (ih h d hd).imp (List.mem_cons_of_mem e) (List.mem_cons_of_mem _)
      · rw [removeDots_name _ _ hdot hdotDot] at h
        obtain hst | hcs := ih h d hd
        · obtain rfl | hst := List.mem_cons.mp hst
          · exact .inr List.mem_cons_self
          · exact .inl hst
        · exact .inr (List.mem_cons_of_mem c hcs)

/-- The text determines the components, where none is empty. -/
theorem pathText_inj {cs ds : List Comp} (hcs : ∀ c ∈ cs, c ≠ [] ∧ slash ∉ c)
    (hds : ∀ d ∈ ds, d ≠ [] ∧ slash ∉ d) (h : pathText cs = pathText ds) : cs = ds := by
  refine (joinPath_textComps_injective (c := []) (d := []) List.not_mem_nil List.not_mem_nil hcs hds
    ?_).2
  rw [joinPath_cons, joinPath_cons, ← pathText_eq_joinPath, ← pathText_eq_joinPath, h]

/-- The canonical path is returned exactly when no name ends with a dot. -/
theorem normalize_canonical_iff (hcwd : nul ∉ cwd) (hpath : nul ∉ path)
    (habs : path.head? = some slash) (hrep : NoRepeatedSlash path) (hlt : path.length < pathMax)
    {r : List Byte} (href : canonicalPath path = some r) (m : Block (pathMax + 1)) :
    Returns (mountNormalizePath pathMax (cwd ++ nul :: v) (path ++ nul :: w) (some m)) r ↔
      ∀ c ∈ pathComps path, ¬ MisreadName c := by
  obtain ⟨ds, hds, rfl⟩ := Option.map_eq_some_iff.mp href
  have hmax : 0 < pathMax := by omega
  have hcomps : normalComponents pathMax cwd path = resolveDots [] (pathComps path) := by
    unfold normalComponents
    rw [fullComponents_eq habs hrep hlt]
  have hfit := fullPath_length_le cwd habs hlt
  rw [← resolveDots_eq_iff hds, ← hcomps]
  have hspec : ∀ d ∈ ds, d ≠ [] ∧ slash ∉ d := fun d hd =>
    pathComps_spec path d ((removeDots_sublist hds d hd).resolve_left List.not_mem_nil)
  constructor
  · rintro ⟨b, hrun, htext⟩
    obtain ⟨-, ds', hds', hblock⟩ := mountNormalizePath_inv hmax hcwd hpath hrun
    have hplain := normalComponents_plain hcwd hpath hds'
    have heq : pathText ds' = pathText ds :=
      Except.ok.inj ((hblock.holds hplain).str.symm.trans htext)
    have hspec' : ∀ d ∈ ds', d ≠ [] ∧ slash ∉ d := by
      intro d hd
      rw [hcomps] at hds'
      have hsub := (resolveDots_some (fun _ hc => absurd hc List.not_mem_nil) hds').2.subset hd
      exact pathComps_spec path d hsub
    rw [hds', pathText_inj hspec' hspec heq]
  · intro hds'
    obtain ⟨b, hrun, hblock⟩ := mountNormalizePath_ok (v := v) (w := w) hmax hcwd hpath m hfit
      (fun _ => hlt) hds'
    exact ⟨b, hrun, (hblock.holds (normalComponents_plain hcwd hpath hds')).str⟩

/-- There is never a component taken for ".." too many. -/
def StaysBelow (st : Nat) (cs : List Comp) : Prop :=
  ∀ k, (cs.take k).countP (compKind · = .dotDot) ≤ st + (cs.take k).countP (compKind · = .name)

theorem staysBelow_cons {st : Nat} {c : Comp} {cs : List Comp} : StaysBelow st (c :: cs) ↔
    ∀ k, (cs.take k).countP (compKind · = .dotDot) + (if compKind c = .dotDot then 1 else 0) ≤
      st + ((cs.take k).countP (compKind · = .name) + (if compKind c = .name then 1 else 0)) := by
  unfold StaysBelow
  constructor
  · intro h k
    have hk := h (k + 1)
    rw [List.take_succ_cons, List.countP_cons, List.countP_cons] at hk
    simpa using hk
  · intro h k
    cases k with
    | zero => simp
    | succ k =>
      have hk := h k
      rw [List.take_succ_cons, List.countP_cons, List.countP_cons]
      simpa using hk

theorem resolveDots_isSome (st : List Comp) {cs : List Comp} :
    (∃ ds, resolveDots st cs = some ds) ↔ StaysBelow st.length cs := by
  induction cs generalizing st with
  | nil =>
    refine iff_of_true ⟨_, rfl⟩ fun k => ?_
    rw [List.take_nil]
    exact Nat.zero_le _
  | cons c cs ih =>
    rw [staysBelow_cons]
    cases hk : compKind c with
    | name =>
      rw [resolveDots_name hk, ih]
      refine forall_congr' fun k => ?_
      rw [if_neg (by decide), if_pos rfl, List.length_cons]
      omega
    | dot =>
      rw [resolveDots_dot hk, ih]
      refine forall_congr' fun k => ?_
      rw [if_neg (by decide), if_neg (by decide)]
      omega
    | dotDot =>
      cases st with
      | nil =>
        rw [resolveDots_above_root hk]
        refine iff_of_false (by rintro ⟨ds, ⟨⟩⟩) fun h => ?_
        have hzero := h 0
        simp at hzero
      | cons d st =>
        rw [resolveDots_dotDot hk, ih]
        refine forall_congr' fun k => ?_
        rw [if_pos rfl, if_neg (by decide), List.length_cons]
        omega

/-- The function returns NULL, or a string in a block of PATH_MAX + 1 bytes, whatever memory it
    gets; a run that is not `.ok` has left its block. -/
def NormalizesInside (pathMax : Nat) (currdir path : List Byte) : Prop :=
  ∀ m, ∃ r, mountNormalizePath pathMax currdir path m = .ok r ∧
    ∀ b ∈ r, ∃ s, Holds (pathMax + 1) b s

/-- An absolute path of PATH_MAX characters or more is copied without a terminator. -/
theorem normalizesInside_short (habs : path.head? = some slash) (hpath : nul ∉ path)
    (h : NormalizesInside pathMax (cwd ++ nul :: v) (path ++ nul :: w)) :
    path.length < pathMax := by
  by_contra hlong
  obtain ⟨r, hrun, -⟩ := h (some (freshBlock (pathMax + 1)))
  rw [mountNormalizePath_some] at hrun
  obtain ⟨b, hpre, -⟩ := bind_eq_ok.mp hrun
  rw [normPrefix_absolute habs, strncpy_eq hpath w (by simp [freshBlock])] at hpre
  obtain ⟨s, hs⟩ := readStr_of_endSlash hpre
  have hlen : (path.take pathMax).length = pathMax := by
    rw [List.length_take]
    omega
  obtain ⟨hnul, post, hpost⟩ := readStr_eq_ok.mp hs
  have hmem : nul ∈ path.take pathMax ++
      List.replicate (pathMax - (path.take pathMax).length) nul ++
      (freshBlock (pathMax + 1)).bytes.drop pathMax := by
    rw [hpost]
    simp
  rw [hlen, Nat.sub_self, List.replicate_zero, List.append_nil, List.mem_append] at hmem
  obtain hmem | hmem := hmem
  · exact hpath (List.mem_of_mem_take hmem)
  · have hfresh := List.eq_of_mem_replicate (List.mem_of_mem_drop hmem)
    cases hfresh

/-- The function stays inside its buffer exactly when its path fits, with its terminator, and
    no component taken for ".." climbs above the root. -/
theorem normalizes_inside_iff (hmax : 0 < pathMax) (hcwd : nul ∉ cwd) (hpath : nul ∉ path) :
    NormalizesInside pathMax (cwd ++ nul :: v) (path ++ nul :: w) ↔
      (path.head? = some slash → path.length < pathMax) ∧
        (fullPath pathMax cwd path).length ≤ pathMax ∧
          StaysBelow 0 (fullComponents pathMax cwd path) := by
  constructor
  · intro h
    refine ⟨fun habs => normalizesInside_short habs hpath h, ?_⟩
    obtain ⟨r, hrun, -⟩ := h (some (freshBlock (pathMax + 1)))
    cases r with
    | none =>
      rw [mountNormalizePath_some] at hrun
      obtain ⟨b, -, hrun⟩ := bind_eq_ok.mp hrun
      obtain ⟨b', -, hrun⟩ := bind_eq_ok.mp hrun
      cases hrun
    | some b =>
      obtain ⟨hfit, ds, hds, -⟩ := mountNormalizePath_inv hmax hcwd hpath hrun
      exact ⟨hfit, (resolveDots_isSome _).mp ⟨ds, hds⟩⟩
  · rintro ⟨habs, hfit, hbelow⟩ m
    obtain ⟨ds, hds⟩ := (resolveDots_isSome []).mpr hbelow
    cases m with
    | none => exact ⟨none, rfl, by rintro b ⟨⟩⟩
    | some m =>
      obtain ⟨b, hrun, hblock⟩ := mountNormalizePath_ok (v := v) (w := w) hmax hcwd hpath m hfit
        habs hds
      refine ⟨some b, hrun, ?_⟩
      rintro b' ⟨⟩
      exact ⟨_, hblock.holds (normalComponents_plain hcwd hpath hds)⟩

end Normalize

/-- A path of names without dots at their ends. -/
theorem normalize_canonical_iff_names :
    Returns (mountNormalizePath 256 (lit "") (lit "/a/./.b/../c.d/") (some (freshBlock 257)))
      (chars "/a/c.d") ↔
        ∀ c ∈ pathComps (chars "/a/./.b/../c.d/"), ¬ MisreadName c := by
  have hcwd : nul ∉ ([] : List Byte) := List.not_mem_nil
  refine normalize_canonical_iff (v := []) (w := []) hcwd (by decide) rfl ?_ (by decide)
    (by decide +kernel) (freshBlock 257)
  show ¬ _
  decide +kernel

/-- The name "a." is lost. -/
theorem normalize_loses_name :
    Returns (mountNormalizePath 256 (lit "") (lit "/x/a.") (some (freshBlock 257))) (chars "/x") ∧
      canonicalPath (chars "/x/a.") = some (chars "/x/a.") := by
  have hds : normalComponents 256 [] (chars "/x/a.") = some [chars "x"] := by decide +kernel
  obtain ⟨b, hrun, hblock⟩ := mountNormalizePath_ok (v := []) (w := []) (by decide) (by decide)
    (by decide) (freshBlock 257) (by decide +kernel) (fun _ => by decide) hds
  exact ⟨⟨b, hrun, (hblock.holds (normalComponents_plain (by decide) (by decide) hds)).str⟩,
    by decide +kernel⟩

/-- "/x" with the current directory at the root. -/
theorem normalizes_inside_iff_x : NormalizesInside 256 (lit "/") (lit "/x") := by
  have hcwd : nul ∉ [slash] := by decide
  have hpath : nul ∉ chars "/x" := by decide
  refine (normalizes_inside_iff (v := []) (w := []) (by decide) hcwd hpath).mpr
    ⟨fun _ => by decide, by decide +kernel, ?_⟩
  have hds : resolveDots [] (fullComponents 256 [slash] (chars "/x")) = some [chars "x"] := by
    decide +kernel
  exact (resolveDots_isSome _).mp ⟨_, hds⟩

/-- "/.." scans to the left of the buffer. -/
theorem normalize_above_root : ¬ NormalizesInside 256 (lit "/") (lit "/..") := by
  intro h
  obtain ⟨r, hrun, -⟩ := h (some (freshBlock 257))
  have herror : mountNormalizePath 256 (lit "/") (lit "/..") (some (freshBlock 257)) =
      .error .outOfBounds := by decide +kernel
  rw [herror] at hrun
  cases hrun

end LuaRtos.Sys
