/-
  LuaRtos.Sys.MountNormal

  `mount_normalize_path` as a whole: the absolute path it builds in its buffer
  before the main loop, and the normalized path it returns after it.

  Every function that writes to the buffer has one lemma that it succeeds when
  the text fits and one that says what it has written when it has succeeded: a
  path that is too long makes the code write behind its buffer.
-/

import LuaRtos.Sys.MountLoop

namespace LuaRtos.Sys

open LuaRtos.CLib

/-! ## Before the main loop -/

/-- The path with a slash before it, unless it has one. -/
def rooted (cwd : List Byte) : List Byte := if cwd.head? = some slash then cwd else slash :: cwd

/-- The path the main loop gets. -/
def fullPath (pathMax : Nat) (cwd path : List Byte) : List Byte :=
  if path.head? = some slash then withSlash (path.take pathMax)
  else withSlash (withSlash (rooted cwd) ++ path.take pathMax)

section Prefix

variable {n pathMax : Nat} {b b' s cwd path v w : List Byte}

theorem deref_append (s post : List Byte) : deref (s ++ nul :: post) = .ok (s.headD nul) := by
  cases s <;> rfl

theorem headD_eq_slash_iff : s.headD nul = slash ↔ s.head? = some slash := by
  cases s with
  | nil => simp [nul, slash]
  | cons c s => simp

theorem lastChar_eq (h : Holds n b s) (hs : s ≠ []) : lastChar b = .ok (s.getLast hs) := by
  obtain ⟨post, rfl, -⟩ := h.exists_post
  obtain ⟨t, c, rfl⟩ := (List.eq_nil_or_concat' s).resolve_left hs
  have hload : load (t ++ [c] ++ nul :: post) t.length = .ok c := by
    have := load_append t (nul :: post) c
    simpa using this
  have hlen : (t ++ [c]).length = t.length + 1 := by simp
  rw [lastChar, strlen_append h.nul_free, ok_bind, hlen, if_neg (Nat.succ_ne_zero _),
    Nat.add_sub_cancel, hload]
  simp

theorem withSlash_length_le : s.length ≤ (withSlash s).length := by
  unfold withSlash
  split <;> simp

theorem withSlash_ne_nil (h : s ≠ []) : withSlash s ≠ [] := by
  unfold withSlash
  split <;> simp [h]

theorem endSlash_eq (h : Holds n b s) (hs : s ≠ []) :
    endSlash pathMax b =
      if s.getLast? = some slash then .ok b else strncat b (lit "/") pathMax := by
  have hlast : s.getLast? = some slash ↔ s.getLast hs = slash := by
    rw [List.getLast?_eq_some_getLast hs, Option.some.injEq]
  simp only [endSlash, lastChar_eq h hs, ok_bind, hlast, pure_eq_ok, ne_eq, ite_not]

theorem lit_slash : lit "/" = [slash] ++ nul :: [] := rfl

theorem endSlash_ok (pathMax : Nat) (h : Holds n b s) (hs : s ≠ [])
    (hfit : (withSlash s).length < n) :
    ∃ b', endSlash pathMax b = .ok b' := by
  rw [endSlash_eq h hs]
  unfold withSlash at hfit
  split
  · exact ⟨b, rfl⟩
  · rename_i hlast
    rw [if_neg hlast, List.length_append, List.length_singleton] at hfit
    rw [lit_slash]
    have htake : ([slash].take pathMax).length ≤ 1 := List.length_take_le' _ _
    exact h.strncat_ok (by decide) _ (by omega)

theorem endSlash_inv (hmax : 0 < pathMax) (h : Holds n b s) (hs : s ≠ [])
    (hok : endSlash pathMax b = .ok b') : Holds n b' (withSlash s) := by
  rw [endSlash_eq h hs] at hok
  unfold withSlash
  split at hok
  · rename_i hlast
    cases hok
    rwa [if_pos hlast]
  · rename_i hlast
    rw [if_neg hlast]
    rw [lit_slash] at hok
    have htake : [slash].take pathMax = [slash] := List.take_of_length_le hmax
    simpa [htake] using h.strncat_inv (by decide) hok

theorem rooted_ne_nil (cwd : List Byte) : rooted cwd ≠ [] := by
  unfold rooted
  split
  · intro h
    simp_all
  · simp

theorem nul_notMem_rooted (h : nul ∉ cwd) : nul ∉ rooted cwd := by
  unfold rooted
  split
  · exact h
  · exact List.not_mem_cons_of_ne_of_not_mem (by decide) h

/-- `getcwd` in terms of what it appends to an empty string. -/
theorem getcwd_eq (cwd v : List Byte) (hpt : 0 < b.length) :
    ∃ b₀, Holds b.length b₀ [] ∧ getcwd (cwd ++ nul :: v) b =
      if cwd.head? = some slash then strcat b₀ (cwd ++ nul :: v)
      else strcat b₀ (lit "/") >>= fun b₁ => strcat b₁ (cwd ++ nul :: v) := by
  obtain ⟨c, t, rfl⟩ := List.exists_cons_of_length_pos hpt
  refine ⟨nul :: t, ⟨rfl, rfl⟩, ?_⟩
  have hstore : store (c :: t) 0 nul = .ok (nul :: t) := store_append [] t c nul
  have hhead := headD_eq_slash_iff (s := cwd)
  simp only [getcwd, hstore, ok_bind, deref_append, ne_eq, ite_not, hhead, pure_eq_ok]

theorem getcwd_ok (hcwd : nul ∉ cwd) (hb : b.length = n) (hfit : (rooted cwd).length < n) :
    ∃ b', getcwd (cwd ++ nul :: v) b = .ok b' := by
  obtain ⟨b₀, h₀, heq⟩ := getcwd_eq cwd v (show 0 < b.length by omega)
  rw [hb] at h₀
  rw [heq]
  unfold rooted at hfit
  split
  · rename_i hhead
    rw [if_pos hhead] at hfit
    exact h₀.strcat_ok hcwd v (by simpa using hfit)
  · rename_i hhead
    rw [if_neg hhead, List.length_cons] at hfit
    rw [lit_slash]
    obtain ⟨b₁, hb₁⟩ := h₀.strcat_ok (by decide) [] (show _ + [slash].length < n by simp; omega)
    have h₁ := h₀.strcat_inv (by decide) hb₁
    obtain ⟨b₂, hb₂⟩ := h₁.strcat_ok hcwd v (by simp; omega)
    exact ⟨b₂, by rw [hb₁, ok_bind, hb₂]⟩

theorem getcwd_inv (hcwd : nul ∉ cwd) (hb : b.length = n) (hn : 0 < n)
    (hok : getcwd (cwd ++ nul :: v) b = .ok b') : Holds n b' (rooted cwd) := by
  obtain ⟨b₀, h₀, heq⟩ := getcwd_eq cwd v (show 0 < b.length by omega)
  rw [hb] at h₀
  rw [heq] at hok
  unfold rooted
  split at hok
  · rename_i hhead
    rw [if_pos hhead]
    exact h₀.strcat_inv hcwd hok
  · rename_i hhead
    rw [if_neg hhead]
    rw [lit_slash] at hok
    obtain ⟨b₁, hb₁, hok⟩ := bind_eq_ok.mp hok
    have h₁ := h₀.strcat_inv (by decide) hb₁
    exact h₁.strcat_inv hcwd hok

theorem readStr_of_endSlash (hok : endSlash pathMax b = .ok b') : ∃ s, readStr b = .ok s := by
  obtain ⟨c, hc, -⟩ := bind_eq_ok.mp hok
  obtain ⟨k, hk, -⟩ := bind_eq_ok.mp hc
  obtain ⟨s, hs, -⟩ := bind_eq_ok.mp hk
  exact ⟨s, hs⟩

theorem fullPath_absolute (h : path.head? = some slash) :
    fullPath pathMax cwd path = withSlash (path.take pathMax) := if_pos h

/-- An absolute path shorter than PATH_MAX has room for a slash at its end. -/
theorem fullPath_length_le (cwd : List Byte) (h : path.head? = some slash)
    (hlt : path.length < pathMax) :
    (fullPath pathMax cwd path).length ≤ pathMax := by
  rw [fullPath_absolute h, List.take_of_length_le (Nat.le_of_lt hlt)]
  unfold withSlash
  split
  · exact Nat.le_of_lt hlt
  · rw [List.length_append, List.length_singleton]
    exact hlt

theorem fullPath_relative (h : path.head? ≠ some slash) :
    fullPath pathMax cwd path = withSlash (withSlash (rooted cwd) ++ path.take pathMax) := if_neg h

theorem take_ne_nil_of_head? (hmax : 0 < pathMax) (h : path.head? = some slash) :
    path.take pathMax ≠ [] := by
  cases path with
  | nil => cases h
  | cons c path =>
    obtain ⟨k, rfl⟩ := Nat.exists_eq_add_of_lt hmax
    simp

theorem normPrefix_absolute (h : path.head? = some slash) :
    normPrefix pathMax (cwd ++ nul :: v) (path ++ nul :: w) b =
      strncpy b (path ++ nul :: w) pathMax >>= endSlash pathMax := by
  have hhead := (headD_eq_slash_iff (s := path)).mpr h
  simp only [normPrefix, deref_append, ok_bind, ne_eq, hhead, not_true_eq_false, if_false]

theorem normPrefix_relative (h : path.head? ≠ some slash) :
    normPrefix pathMax (cwd ++ nul :: v) (path ++ nul :: w) b =
      getcwd (cwd ++ nul :: v) b >>= fun b₁ => endSlash pathMax b₁ >>= fun b₂ =>
        strncat b₂ (path ++ nul :: w) pathMax >>= endSlash pathMax := by
  have hhead := (headD_eq_slash_iff (s := path)).not.mpr h
  simp only [normPrefix, deref_append, ok_bind, ne_eq, hhead, not_false_eq_true, if_true]

/-- The path that the code builds when it does not run out of its buffer. -/
theorem normPrefix_inv (hmax : 0 < pathMax) (hcwd : nul ∉ cwd) (hpath : nul ∉ path)
    (hb : b.length = pathMax + 1)
    (hok : normPrefix pathMax (cwd ++ nul :: v) (path ++ nul :: w) b = .ok b') :
    Holds (pathMax + 1) b' (fullPath pathMax cwd path) := by
  by_cases hhead : path.head? = some slash
  · rw [normPrefix_absolute hhead] at hok
    obtain ⟨b₁, hcpy, hend⟩ := bind_eq_ok.mp hok
    -- `strncpy` alone may leave no terminator, but then `endSlash` could not read the string
    obtain ⟨s, hs⟩ := readStr_of_endSlash hend
    have h₁ := strncpy_inv hb hpath hcpy hs
    rw [fullPath_absolute hhead]
    exact endSlash_inv hmax h₁ (take_ne_nil_of_head? hmax hhead) hend
  · rw [normPrefix_relative hhead] at hok
    obtain ⟨b₁, hcwd₁, hok⟩ := bind_eq_ok.mp hok
    obtain ⟨b₂, hend₂, hok⟩ := bind_eq_ok.mp hok
    obtain ⟨b₃, hcat, hend⟩ := bind_eq_ok.mp hok
    have h₁ := getcwd_inv hcwd hb (Nat.succ_pos _) hcwd₁
    have h₂ := endSlash_inv hmax h₁ (rooted_ne_nil cwd) hend₂
    have h₃ := h₂.strncat_inv hpath hcat
    rw [fullPath_relative hhead]
    refine endSlash_inv hmax h₃ ?_ hend
    exact List.append_ne_nil_of_left_ne_nil (withSlash_ne_nil (rooted_ne_nil cwd)) _

/-- The code builds its path when there is room for it; an absolute one is
    copied with its terminator only when it is shorter than PATH_MAX. -/
theorem normPrefix_ok (hmax : 0 < pathMax) (hcwd : nul ∉ cwd) (hpath : nul ∉ path)
    (hb : b.length = pathMax + 1) (hfit : (fullPath pathMax cwd path).length ≤ pathMax)
    (habs : path.head? = some slash → path.length < pathMax) :
    ∃ b', normPrefix pathMax (cwd ++ nul :: v) (path ++ nul :: w) b = .ok b' := by
  by_cases hhead : path.head? = some slash
  · have hlt := habs hhead
    rw [fullPath_absolute hhead, List.take_of_length_le (Nat.le_of_lt hlt)] at hfit
    obtain ⟨b₁, hcpy, h₁⟩ := strncpy_holds hb (Nat.le_succ _) hpath w hlt
    have hne : path ≠ [] := by
      rintro rfl
      cases hhead
    obtain ⟨b₂, hend⟩ := endSlash_ok pathMax h₁ hne (by omega)
    exact ⟨b₂, by rw [normPrefix_absolute hhead, hcpy, ok_bind, hend]⟩
  · -- each of the four writes is no longer than the path in the end
    rw [fullPath_relative hhead] at hfit
    have hlen := Nat.le_trans
      (withSlash_length_le (s := withSlash (rooted cwd) ++ path.take pathMax)) hfit
    rw [List.length_append] at hlen
    have hlen' := withSlash_length_le (s := rooted cwd)
    obtain ⟨b₁, hcwd₁⟩ := getcwd_ok (v := v) hcwd hb (by omega)
    have h₁ := getcwd_inv hcwd hb (Nat.succ_pos _) hcwd₁
    obtain ⟨b₂, hend₂⟩ := endSlash_ok pathMax h₁ (rooted_ne_nil cwd) (by omega)
    have h₂ := endSlash_inv hmax h₁ (rooted_ne_nil cwd) hend₂
    obtain ⟨b₃, hcat⟩ := h₂.strncat_ok (k := pathMax) hpath w (by omega)
    have h₃ := h₂.strncat_inv hpath hcat
    obtain ⟨b₄, hend⟩ := endSlash_ok pathMax h₃
      (List.append_ne_nil_of_left_ne_nil (withSlash_ne_nil (rooted_ne_nil cwd)) _) (by omega)
    exact ⟨b₄, by rw [normPrefix_relative hhead, hcwd₁, ok_bind, hend₂, ok_bind, hcat, ok_bind,
      hend]⟩

theorem head?_append_of_ne_nil {t : List Byte} (h : s ≠ []) : (s ++ t).head? = s.head? := by
  cases s with
  | nil => exact absurd rfl h
  | cons c s => rfl

theorem head?_withSlash (h : s ≠ []) : (withSlash s).head? = s.head? := by
  unfold withSlash
  split
  · rfl
  · exact head?_append_of_ne_nil h

theorem head?_rooted (cwd : List Byte) : (rooted cwd).head? = some slash := by
  unfold rooted
  split
  · assumption
  · rfl

theorem withSlash_concat (s : List Byte) : ∃ t, withSlash s = t ++ [slash] := by
  unfold withSlash
  split
  · rename_i hlast
    exact ⟨_, (List.dropLast_append_getLast? slash hlast).symm⟩
  · exact ⟨s, rfl⟩

theorem nul_notMem_withSlash (h : nul ∉ s) : nul ∉ withSlash s := by
  unfold withSlash
  split
  · exact h
  · simpa [h] using (show nul ≠ slash by decide)

theorem nul_notMem_fullPath (pathMax : Nat) (hcwd : nul ∉ cwd) (hpath : nul ∉ path) :
    nul ∉ fullPath pathMax cwd path := by
  have htake : nul ∉ path.take pathMax := fun h => hpath (List.mem_of_mem_take h)
  unfold fullPath
  split
  · exact nul_notMem_withSlash htake
  · refine nul_notMem_withSlash ?_
    simpa [htake] using nul_notMem_withSlash (nul_notMem_rooted hcwd)

/-- The path of the main loop starts with a slash and ends with one. -/
theorem fullPath_slashes (hmax : 0 < pathMax) (cwd path : List Byte) :
    (fullPath pathMax cwd path).head? = some slash ∧
      ∃ t, fullPath pathMax cwd path = t ++ [slash] := by
  by_cases hhead : path.head? = some slash
  · rw [fullPath_absolute hhead]
    refine ⟨?_, withSlash_concat _⟩
    rw [head?_withSlash (take_ne_nil_of_head? hmax hhead)]
    obtain ⟨k, rfl⟩ := Nat.exists_eq_add_of_lt hmax
    cases path with
    | nil => cases hhead
    | cons c path => simpa using hhead
  · rw [fullPath_relative hhead]
    refine ⟨?_, withSlash_concat _⟩
    have hne := withSlash_ne_nil (rooted_ne_nil cwd)
    rw [head?_withSlash (List.append_ne_nil_of_left_ne_nil hne _), head?_append_of_ne_nil hne,
      head?_withSlash (rooted_ne_nil cwd), head?_rooted]

end Prefix

/-! ## The whole function -/

/-- The components the main loop gets. -/
def fullComponents (pathMax : Nat) (cwd path : List Byte) : List Comp :=
  splitDirs (fullPath pathMax cwd path).tail

/-- The components of the normalized path, when no ".." climbs above the root. -/
def normalComponents (pathMax : Nat) (cwd path : List Byte) : Option (List Comp) :=
  resolveDots [] (fullComponents pathMax cwd path)

/-- A block with the text of a normalized path.  Behind the text of all paths
    but the root there is a second terminator, where the last slash stood. -/
structure NormalBlock (pathMax : Nat) (b : List Byte) (ds : List Comp) : Prop where
  size : b.length = pathMax + 1
  text : ∃ post, b = pathText ds ++ nul :: post ∧ (ds ≠ [] → ∃ post', post = nul :: post')

section Whole

variable {pathMax : Nat} {cwd path v w b : List Byte} {ds : List Comp}

theorem fullPath_components (hmax : 0 < pathMax) (cwd path : List Byte) :
    fullPath pathMax cwd path = slash :: dirText (fullComponents pathMax cwd path) := by
  obtain ⟨hhead, t, ht⟩ := fullPath_slashes hmax cwd path
  obtain ⟨u, hu⟩ : ∃ u, fullPath pathMax cwd path = slash :: u := by
    cases hf : fullPath pathMax cwd path with
    | nil => simp [hf] at hhead
    | cons c u =>
      rw [hf] at hhead
      cases hhead
      exact ⟨u, rfl⟩
  rw [fullComponents, hu, List.tail_cons]
  rcases List.eq_nil_or_concat' u with rfl | ⟨u', c, rfl⟩
  · rfl
  · -- the last character, seen from both ends
    have hc : c = slash := by
      have hlast := congrArg List.getLast? (hu.symm.trans ht)
      rw [← List.cons_append, List.getLast?_concat, List.getLast?_concat] at hlast
      exact Option.some.inj hlast
    rw [hc, dirText_splitDirs]

/-- The last slash goes, but not that of the root. -/
theorem normSuffix_eq (ds : List Comp) (post : List Byte) :
    normSuffix (.at (joinPath ds ++ slash :: nul :: post) ((joinPath ds).length + 1)) =
      .ok (if ds = [] then slash :: nul :: post else joinPath ds ++ nul :: nul :: post) := by
  have hload := load_append (joinPath ds) (nul :: post) slash
  have hstore := store_append (joinPath ds) (nul :: post) slash nul
  by_cases hds : ds = []
  · subst hds
    rfl
  · have hlen : (joinPath ds).length ≠ 0 := fun h =>
      joinPath_ne_nil hds (List.eq_nil_of_length_eq_zero h)
    rw [if_neg hds]
    simp only [normSuffix, NormState.at, Nat.add_sub_cancel, Nat.succ_ne_zero, if_false, hload,
      ok_bind, hstore, hlen, ne_eq, not_false_eq_true, true_and, if_true]

theorem normalBlock_normSuffix (post : List Byte)
    (hlen : (joinPath ds).length + post.length + 2 = pathMax + 1) :
    NormalBlock pathMax
      (if ds = [] then slash :: nul :: post else joinPath ds ++ nul :: nul :: post) ds := by
  by_cases hds : ds = []
  · subst hds
    exact ⟨by simpa using hlen, post, rfl, fun h => absurd rfl h⟩
  · rw [if_neg hds]
    refine ⟨?_, nul :: post, ?_, fun _ => ⟨post, rfl⟩⟩
    · simp only [List.length_append, List.length_cons]
      omega
    · rw [pathText_of_ne_nil hds]

/-- How `mount_normalize_path` goes on once it has its path. -/
theorem normalize_of_prefix (hmax : 0 < pathMax) (hcwd : nul ∉ cwd) (hpath : nul ∉ path)
    (h : Holds (pathMax + 1) b (fullPath pathMax cwd path)) :
    match normalComponents pathMax cwd path with
    | some ds => ∃ b', (normLoop b.length (.at b 0) >>= normSuffix) = .ok b' ∧
        NormalBlock pathMax b' ds
    | none => (normLoop b.length (.at b 0) >>= normSuffix) = .error .outOfBounds := by
  obtain ⟨post, rfl, hlen⟩ := h.exists_post
  have hfull := fullPath_components hmax cwd path
  have hslash := slash_notMem_splitDirs (fullPath pathMax cwd path).tail
  have hnul := nul_notMem_splitDirs
    (fun hm => nul_notMem_fullPath pathMax hcwd hpath (List.mem_of_mem_tail hm))
  have hlt := h.length_lt
  rw [hfull, List.length_cons] at hlen hlt
  have hloop := normLoop_path hslash hnul post hlt rfl
  rw [h.size, hfull]
  -- the loop gets as many rounds as the block has bytes
  change LoopEnds _ (normLoop (pathMax + 1) (.at (slash :: dirText _ ++ nul :: post) 0))
    (normalComponents pathMax cwd path) at hloop
  change (dirText (splitDirs _)).length + 1 + post.length + 1 = pathMax + 1 at hlen
  cases hds : normalComponents pathMax cwd path with
  | none =>
    rw [hds] at hloop
    have hloop : normLoop _ _ = .error .outOfBounds := hloop
    exact by simp only [fullComponents, hloop, error_bind]
  | some ds =>
    rw [hds] at hloop
    obtain ⟨post', hok, hpost⟩ := hloop
    refine ⟨_, ?_, normalBlock_normSuffix post' (by omega)⟩
    simp only [fullComponents, hok, ok_bind, normSuffix_eq]

theorem mountNormalizePath_some (m : Block (pathMax + 1)) :
    mountNormalizePath pathMax cwd path (some m) =
      normPrefix pathMax cwd path m.bytes >>= fun b =>
        (normLoop b.length (.at b 0) >>= normSuffix) >>= fun b' => .ok (some b') := by
  simp only [mountNormalizePath, bind_assoc, pure_eq_ok]

/-- What `mount_normalize_path` has done when it returns a path. -/
theorem mountNormalizePath_inv (hmax : 0 < pathMax) (hcwd : nul ∉ cwd) (hpath : nul ∉ path)
    {m : Option (Block (pathMax + 1))}
    (hok : mountNormalizePath pathMax (cwd ++ nul :: v) (path ++ nul :: w) m = .ok (some b)) :
    (fullPath pathMax cwd path).length ≤ pathMax ∧
      ∃ ds, normalComponents pathMax cwd path = some ds ∧ NormalBlock pathMax b ds := by
  cases m with
  | none => cases hok
  | some m =>
    rw [mountNormalizePath_some] at hok
    obtain ⟨b₁, hpre, hok⟩ := bind_eq_ok.mp hok
    obtain ⟨b₂, hrest, heq⟩ := bind_eq_ok.mp hok
    cases heq
    have h₁ := normPrefix_inv hmax hcwd hpath m.size hpre
    refine ⟨Nat.le_of_lt_succ h₁.length_lt, ?_⟩
    have hnorm := normalize_of_prefix hmax hcwd hpath h₁
    cases hds : normalComponents pathMax cwd path with
    | none =>
      simp only [hds, hrest] at hnorm
      cases hnorm
    | some ds =>
      simp only [hds, hrest] at hnorm
      obtain ⟨b', heq, hblock⟩ := hnorm
      cases heq
      exact ⟨ds, rfl, hblock⟩

/-- When `mount_normalize_path` returns a path. -/
theorem mountNormalizePath_ok (hmax : 0 < pathMax) (hcwd : nul ∉ cwd) (hpath : nul ∉ path)
    (m : Block (pathMax + 1)) (hfit : (fullPath pathMax cwd path).length ≤ pathMax)
    (habs : path.head? = some slash → path.length < pathMax)
    (hds : normalComponents pathMax cwd path = some ds) :
    ∃ b, mountNormalizePath pathMax (cwd ++ nul :: v) (path ++ nul :: w) (some m) =
        .ok (some b) ∧ NormalBlock pathMax b ds := by
  obtain ⟨b₁, hpre⟩ := normPrefix_ok (v := v) (w := w) hmax hcwd hpath m.size hfit habs
  have hnorm := normalize_of_prefix hmax hcwd hpath (normPrefix_inv hmax hcwd hpath m.size hpre)
  rw [hds] at hnorm
  obtain ⟨b', hrest, hblock⟩ := hnorm
  refine ⟨b', ?_, hblock⟩
  rw [mountNormalizePath_some, hpre, ok_bind, hrest, ok_bind]

/-- A component as the normalization leaves it. -/
structure Comp.Plain (c : Comp) : Prop where
  name : compKind c = .name
  slash_free : slash ∉ c
  nul_free : nul ∉ c

theorem normalComponents_plain (hcwd : nul ∉ cwd) (hpath : nul ∉ path)
    (hds : normalComponents pathMax cwd path = some ds) : ∀ d ∈ ds, Comp.Plain d := by
  obtain ⟨hname, hsub⟩ := resolveDots_some (fun _ hc => absurd hc List.not_mem_nil) hds
  have hmem : ∀ d ∈ ds, d ∈ fullComponents pathMax cwd path := fun d hd => hsub.subset hd
  have hnul : nul ∉ (fullPath pathMax cwd path).tail := fun hm =>
    nul_notMem_fullPath pathMax hcwd hpath (List.mem_of_mem_tail hm)
  exact fun d hd => ⟨hname d hd, slash_notMem_splitDirs _ d (hmem d hd),
    nul_notMem_splitDirs hnul d (hmem d hd)⟩

/-- The normalized path can be read back from its block. -/
theorem NormalBlock.holds (h : NormalBlock pathMax b ds) (hds : ∀ d ∈ ds, Comp.Plain d) :
    Holds (pathMax + 1) b (pathText ds) := by
  obtain ⟨post, rfl, -⟩ := h.text
  exact ⟨h.size, readStr_append (nul_notMem_pathText fun d hd => (hds d hd).nul_free) post⟩

end Whole

end LuaRtos.Sys
