/-
  LuaRtos.Sys.MountPath

  Paths as lists of components, which is what the code of sys/mount.c works on
  one character at a time: the text of a list of components, the components of
  a text, what the main loop of `mount_normalize_path` takes a component for,
  and the components that are left when it is done.

  A component may be empty: the code does not drop the second of two slashes.
-/

import LuaRtos.Sys.Mount

namespace LuaRtos.Sys

open LuaRtos.CLib

/-- A component, the text between two slashes. -/
abbrev Comp := List Byte

/-! ## Components and text -/

/-- `/c₁/c₂/…`, the text of an absolute path without a slash at its end. -/
def joinPath (cs : List Comp) : List Byte := cs.flatMap (slash :: ·)

/-- `c₁/c₂/…/`, what is left of a path behind one of its slashes. -/
def dirText (cs : List Comp) : List Byte := cs.flatMap (· ++ [slash])

/-- The text of a normalized path: the root keeps its slash. -/
def pathText (cs : List Comp) : List Byte := if cs = [] then [slash] else joinPath cs

/-- The components that slashes end. -/
def splitDirs : List Byte → List Comp
  | [] => []
  | b :: s => if b = slash then [] :: splitDirs s
    else match splitDirs s with
      | [] => []
      | c :: cs => (b :: c) :: cs

@[simp] theorem joinPath_nil : joinPath [] = [] := rfl

@[simp] theorem joinPath_cons (c : Comp) (cs : List Comp) :
    joinPath (c :: cs) = slash :: (c ++ joinPath cs) := rfl

@[simp] theorem dirText_nil : dirText [] = [] := rfl

@[simp] theorem dirText_cons (c : Comp) (cs : List Comp) :
    dirText (c :: cs) = c ++ slash :: dirText cs := by
  simp [dirText]

theorem joinPath_append (cs ds : List Comp) :
    joinPath (cs ++ ds) = joinPath cs ++ joinPath ds := by
  simp [joinPath]

theorem joinPath_reverse_cons (c : Comp) (st : List Comp) :
    joinPath (c :: st).reverse = joinPath st.reverse ++ slash :: c := by
  rw [List.reverse_cons, joinPath_append, joinPath_cons, joinPath_nil, List.append_nil]

theorem joinPath_reverse_length (c : Comp) (st : List Comp) :
    (joinPath (c :: st).reverse).length = (joinPath st.reverse).length + 1 + c.length := by
  rw [joinPath_reverse_cons, List.length_append, List.length_cons]
  omega

@[simp] theorem pathText_nil : pathText [] = [slash] := rfl

theorem pathText_of_ne_nil {cs : List Comp} (h : cs ≠ []) : pathText cs = joinPath cs :=
  if_neg h

/-- The slash that ends a directory can be read as the one that starts it. -/
theorem slash_dirText (cs : List Comp) : slash :: dirText cs = joinPath cs ++ [slash] := by
  induction cs with
  | nil => rfl
  | cons c cs ih => rw [dirText_cons, ih, joinPath_cons, List.cons_append, List.append_assoc]

theorem joinPath_ne_nil {cs : List Comp} (h : cs ≠ []) : joinPath cs ≠ [] := by
  cases cs with
  | nil => exact absurd rfl h
  | cons c cs => simp

theorem nul_notMem_joinPath {cs : List Comp} :
    nul ∉ joinPath cs ↔ ∀ c ∈ cs, nul ∉ c := by
  have hne : nul ≠ slash := by decide
  simp only [joinPath, List.mem_flatMap, List.mem_cons, hne, false_or, not_exists, not_and]

theorem nul_notMem_dirText {cs : List Comp} : nul ∉ dirText cs ↔ ∀ c ∈ cs, nul ∉ c := by
  have hne : nul ≠ slash := by decide
  simp [dirText, hne]

theorem nul_notMem_pathText {cs : List Comp} (h : ∀ c ∈ cs, nul ∉ c) : nul ∉ pathText cs := by
  unfold pathText
  split
  · decide
  · exact nul_notMem_joinPath.mpr h

theorem splitDirs_slash (s : List Byte) : splitDirs (slash :: s) = [] :: splitDirs s :=
  if_pos rfl

theorem splitDirs_of_ne {b : Byte} (hb : b ≠ slash) (s : List Byte) : splitDirs (b :: s) =
    match splitDirs s with
    | [] => []
    | c :: cs => (b :: c) :: cs := if_neg hb

/-- The components of a text are those it was made of. -/
theorem splitDirs_dirText {cs : List Comp} (h : ∀ c ∈ cs, slash ∉ c) :
    splitDirs (dirText cs) = cs := by
  induction cs with
  | nil => rfl
  | cons c cs ih =>
    have hcs := ih fun d hd => h d (List.mem_cons_of_mem c hd)
    have hc := h c List.mem_cons_self
    clear ih h
    -- now by the bytes of the first component
    rw [dirText_cons]
    induction c with
    | nil => rw [List.nil_append, splitDirs_slash, hcs]
    | cons b c ih =>
      obtain ⟨hb, hc⟩ := List.ne_and_not_mem_of_not_mem_cons hc
      rw [List.cons_append, splitDirs_of_ne (Ne.symm hb), ih hc]

theorem slash_notMem_splitDirs (s : List Byte) : ∀ c ∈ splitDirs s, slash ∉ c := by
  induction s with
  | nil => intro c hc; cases hc
  | cons b s ih =>
    by_cases hb : b = slash
    · rw [hb, splitDirs_slash]
      rintro c (_ | ⟨_, hc⟩)
      · exact List.not_mem_nil
      · exact ih c hc
    · rw [splitDirs_of_ne hb]
      cases hds : splitDirs s with
      | nil => intro c hc; cases hc
      | cons d ds =>
        rw [hds] at ih
        rintro c (_ | ⟨_, hc⟩)
        · exact List.not_mem_cons_of_ne_of_not_mem (Ne.symm hb) (ih d List.mem_cons_self)
        · exact ih c (List.mem_cons_of_mem d hc)

/-- A text with a slash at its end is the text of its components. -/
theorem dirText_splitDirs (s : List Byte) :
    dirText (splitDirs (s ++ [slash])) = s ++ [slash] := by
  induction s with
  | nil => rfl
  | cons b s ih =>
    rw [List.cons_append]
    by_cases hb : b = slash
    · rw [hb, splitDirs_slash, dirText_cons, ih, List.nil_append]
    · rw [splitDirs_of_ne hb]
      cases hds : splitDirs (s ++ [slash]) with
      | nil => simp [hds] at ih
      | cons d ds =>
        rw [hds, dirText_cons] at ih
        rw [dirText_cons, List.cons_append, ih]

theorem nul_notMem_splitDirs {s : List Byte} (h : nul ∉ s) : ∀ c ∈ splitDirs s, nul ∉ c := by
  induction s with
  | nil => intro c hc; cases hc
  | cons b s ih =>
    obtain ⟨hb, hs⟩ := List.ne_and_not_mem_of_not_mem_cons h
    by_cases heq : b = slash
    · rw [heq, splitDirs_slash]
      rintro c (_ | ⟨_, hc⟩)
      · exact List.not_mem_nil
      · exact ih hs c hc
    · rw [splitDirs_of_ne heq]
      cases hds : splitDirs s with
      | nil => intro c hc; cases hc
      | cons d ds =>
        rw [hds] at ih
        rintro c (_ | ⟨_, hc⟩)
        · exact List.not_mem_cons_of_ne_of_not_mem hb (ih hs d List.mem_cons_self)
        · exact ih hs c (List.mem_cons_of_mem d hc)

/-- The text determines the components, but for the empty list and the list of
    one empty component. -/
theorem joinPath_injective {cs ds : List Comp} (hc : ∀ c ∈ cs, slash ∉ c)
    (hd : ∀ d ∈ ds, slash ∉ d) (h : joinPath cs = joinPath ds) : cs = ds := by
  have hdir : dirText cs = dirText ds := by
    -- with a slash at the end both are directories
    have := congrArg (· ++ [slash]) h
    simpa only [← slash_dirText, List.cons.injEq, true_and] using this
  rw [← splitDirs_dirText hc, hdir, splitDirs_dirText hd]

/-- The components of the text of a normalized path: the root has an empty one. -/
def textComps (cs : List Comp) : List Comp := if cs = [] then [[]] else cs

theorem pathText_eq_joinPath (cs : List Comp) : pathText cs = joinPath (textComps cs) := by
  unfold pathText textComps
  split <;> rfl

theorem textComps_ne_nil (cs : List Comp) : textComps cs ≠ [] := by
  unfold textComps
  split
  · exact List.cons_ne_nil _ _
  · assumption

/-- A first component and the text of a path without empty components behind
    it determine each other. -/
theorem joinPath_textComps_injective {c d : Comp} {cs ds : List Comp} (hc : slash ∉ c)
    (hd : slash ∉ d) (hcs : ∀ e ∈ cs, e ≠ [] ∧ slash ∉ e) (hds : ∀ e ∈ ds, e ≠ [] ∧ slash ∉ e)
    (h : joinPath (c :: textComps cs) = joinPath (d :: textComps ds)) : c = d ∧ cs = ds := by
  have hfree : ∀ {es : List Comp}, (∀ e ∈ es, e ≠ [] ∧ slash ∉ e) →
      ∀ e ∈ textComps es, slash ∉ e := by
    intro es hes e he
    unfold textComps at he
    split at he
    · rw [List.mem_singleton.mp he]
      exact List.not_mem_nil
    · exact (hes e he).2
  have hroot : ∀ {es : List Comp}, (∀ e ∈ es, e ≠ [] ∧ slash ∉ e) → es ≠ [[]] := by
    rintro es hes rfl
    exact (hes [] List.mem_cons_self).1 rfl
  obtain ⟨hcd, htext⟩ := List.cons.inj (joinPath_injective
    (List.forall_mem_cons.mpr ⟨hc, hfree hcs⟩) (List.forall_mem_cons.mpr ⟨hd, hfree hds⟩) h)
  refine ⟨hcd, ?_⟩
  have hcs' := hroot hcs
  have hds' := hroot hds
  unfold textComps at htext
  split at htext <;> split at htext
  · simp_all
  · exact absurd htext.symm hds'
  · exact absurd htext hcs'
  · exact htext

/-! ## A slash at the end -/

/-- The path with a slash at its end. -/
def withSlash (s : List Byte) : List Byte := if s.getLast? = some slash then s else s ++ [slash]

/-- The path without one slash at its end. -/
def stripSlash (s : List Byte) : List Byte := if s.getLast? = some slash then s.dropLast else s

/-- The components without one empty one at the end. -/
def trimEnd (cs : List Comp) : List Comp := if cs.getLast? = some [] then cs.dropLast else cs

theorem trimEnd_concat_nil (cs : List Comp) : trimEnd (cs ++ [[]]) = cs := by
  simp [trimEnd]

theorem trimEnd_eq_self_iff {cs : List Comp} : trimEnd cs = cs ↔ cs.getLast? ≠ some [] := by
  rcases List.eq_nil_or_concat' cs with rfl | ⟨ds, c, rfl⟩
  · simp [trimEnd]
  · by_cases hc : c = []
    · subst hc
      simp [trimEnd_concat_nil]
    · simp [trimEnd, hc]

theorem trimEnd_sublist (cs : List Comp) : (trimEnd cs).Sublist cs := by
  unfold trimEnd
  split
  · exact List.dropLast_sublist cs
  · exact List.Sublist.refl cs

theorem trimEnd_cons {c : Comp} {cs : List Comp} (h : cs ≠ []) :
    trimEnd (c :: cs) = c :: trimEnd cs := by
  obtain ⟨ds, d, rfl⟩ := (List.eq_nil_or_concat' cs).resolve_left h
  rw [trimEnd, trimEnd, ← List.cons_append, List.getLast?_concat, List.getLast?_concat,
    List.dropLast_concat, List.dropLast_concat]
  split <;> rfl

/-- The last character of a text is a slash when the last component is empty. -/
theorem getLast?_joinPath {cs : List Comp} (hcs : cs ≠ []) (hslash : ∀ c ∈ cs, slash ∉ c) :
    (joinPath cs).getLast? = some slash ↔ cs.getLast? = some [] := by
  obtain ⟨ds, c, rfl⟩ := (List.eq_nil_or_concat' cs).resolve_left hcs
  have hc : slash ∉ c := hslash c (by simp)
  rw [joinPath_append, joinPath_cons, joinPath_nil, List.append_nil, List.getLast?_concat]
  rcases List.eq_nil_or_concat' c with rfl | ⟨a, b, rfl⟩
  · simp
  · have hb : b ≠ slash := fun h => hc (by simp [h])
    rw [← List.cons_append, ← List.append_assoc, List.getLast?_concat]
    simp [hb]

theorem withSlash_joinPath {cs : List Comp} (hcs : cs ≠ []) (hslash : ∀ c ∈ cs, slash ∉ c) :
    withSlash (joinPath cs) = joinPath (trimEnd cs) ++ [slash] := by
  simp only [withSlash, trimEnd, getLast?_joinPath hcs hslash]
  split
  · rename_i hlast
    obtain ⟨ds, c, rfl⟩ := (List.eq_nil_or_concat' cs).resolve_left hcs
    rw [List.getLast?_concat] at hlast
    rw [Option.some.inj hlast, List.dropLast_concat, joinPath_append]
    rfl
  · rfl

theorem stripSlash_joinPath {cs : List Comp} (hcs : cs ≠ []) (hslash : ∀ c ∈ cs, slash ∉ c) :
    stripSlash (joinPath cs) = joinPath (trimEnd cs) := by
  simp only [stripSlash, trimEnd, getLast?_joinPath hcs hslash]
  split
  · rename_i hlast
    obtain ⟨ds, c, rfl⟩ := (List.eq_nil_or_concat' cs).resolve_left hcs
    rw [List.getLast?_concat] at hlast
    rw [Option.some.inj hlast, List.dropLast_concat, joinPath_append, joinPath_cons, joinPath_nil,
      List.append_nil, List.dropLast_concat]
  · rfl

/-! ## The dots at the end of a component -/

/-- What the main loop takes a component for. -/
inductive CompKind where
  | name
  | dot
  | dotDot
deriving DecidableEq, Repr

/-- The kind of a component given by its characters, the last one first. -/
def kindOfReverse : List Byte → CompKind
  | b₁ :: b₂ :: _ => if b₁ = dot then (if b₂ = dot then .dotDot else .dot) else .name
  | [b] => if b = dot then .dot else .name
  | [] => .name

/-- One dot at the end of a component makes it the current directory, two or
    more the parent: the characters before them do not count. -/
def compKind (c : Comp) : CompKind := kindOfReverse c.reverse

theorem kindOfReverse_dot (r : List Byte) :
    kindOfReverse (dot :: r) = if kindOfReverse r = .name then .dot else .dotDot := by
  rcases r with _ | ⟨b₁, _ | ⟨b₂, r⟩⟩
  · rfl
  · by_cases h₁ : b₁ = dot <;> simp [kindOfReverse, h₁]
  · by_cases h₁ : b₁ = dot <;> by_cases h₂ : b₂ = dot <;> simp [kindOfReverse, h₁, h₂]

theorem kindOfReverse_of_ne (r : List Byte) {b : Byte} (hb : b ≠ dot) :
    kindOfReverse (b :: r) = .name := by
  rcases r with _ | ⟨b₂, r⟩ <;> simp [kindOfReverse, hb]

theorem compKind_concat_dot (c : Comp) :
    compKind (c ++ [dot]) = if compKind c = .name then .dot else .dotDot := by
  rw [compKind, List.reverse_append, List.reverse_singleton, List.singleton_append,
    kindOfReverse_dot]
  rfl

theorem compKind_concat_of_ne (c : Comp) {b : Byte} (hb : b ≠ dot) :
    compKind (c ++ [b]) = .name := by
  rw [compKind, List.reverse_append, List.reverse_singleton, List.singleton_append,
    kindOfReverse_of_ne _ hb]

/-- A component is a name unless its last character is a dot. -/
theorem compKind_eq_name_iff (c : Comp) : compKind c = .name ↔ c.getLast? ≠ some dot := by
  rcases List.eq_nil_or_concat' c with rfl | ⟨c, b, rfl⟩
  · simp [compKind, kindOfReverse]
  · rw [List.getLast?_concat]
    by_cases hb : b = dot
    · subst hb
      rw [compKind_concat_dot]
      split <;> simp
    · simp [compKind_concat_of_ne c hb, hb]

/-! ## The components that are left -/

/-- The components after the main loop: `st` are the ones kept so far, the
    last one first.  There is none above the root. -/
def resolveDots : List Comp → List Comp → Option (List Comp)
  | st, [] => some st.reverse
  | st, c :: cs =>
    match compKind c with
    | .name => resolveDots (c :: st) cs
    | .dot => resolveDots st cs
    | .dotDot =>
      match st with
      | [] => none
      | _ :: st => resolveDots st cs

section Step

variable {c : Comp} {st cs : List Comp}

theorem resolveDots_cons (st : List Comp) (c : Comp) (cs : List Comp) :
    resolveDots st (c :: cs) =
      match compKind c with
      | .name => resolveDots (c :: st) cs
      | .dot => resolveDots st cs
      | .dotDot =>
        match st with
        | [] => none
        | _ :: st => resolveDots st cs := rfl

theorem resolveDots_name (h : compKind c = .name) :
    resolveDots st (c :: cs) = resolveDots (c :: st) cs := by
  rw [resolveDots_cons, h]

theorem resolveDots_dot (h : compKind c = .dot) :
    resolveDots st (c :: cs) = resolveDots st cs := by
  rw [resolveDots_cons, h]

theorem resolveDots_above_root (h : compKind c = .dotDot) :
    resolveDots [] (c :: cs) = none := by
  rw [resolveDots_cons, h]

theorem resolveDots_dotDot (h : compKind c = .dotDot) (d : Comp) :
    resolveDots (d :: st) (c :: cs) = resolveDots st cs := by
  rw [resolveDots_cons, h]

end Step

/-- Names are kept as they are. -/
theorem resolveDots_names (st : List Comp) {cs : List Comp}
    (h : ∀ c ∈ cs, compKind c = .name) : resolveDots st cs = some (st.reverse ++ cs) := by
  induction cs generalizing st with
  | nil => simp [resolveDots]
  | cons c cs ih =>
    rw [resolveDots_name (h c List.mem_cons_self),
      ih (c :: st) fun d hd => h d (List.mem_cons_of_mem c hd)]
    simp

/-- What is left are names of the path, in its order. -/
theorem resolveDots_some {st cs ds : List Comp} (hst : ∀ c ∈ st, compKind c = .name)
    (h : resolveDots st cs = some ds) :
    (∀ d ∈ ds, compKind d = .name) ∧ ds.Sublist (st.reverse ++ cs) := by
  induction cs generalizing st with
  | nil =>
    cases h
    exact ⟨by simpa using hst, by simp⟩
  | cons c cs ih =>
    cases hk : compKind c with
    | name =>
      rw [resolveDots_name hk] at h
      have hst' : ∀ d ∈ c :: st, compKind d = .name := by
        rintro d (_ | ⟨_, hd⟩)
        · exact hk
        · exact hst d hd
      simpa using ih hst' h
    | dot =>
      rw [resolveDots_dot hk] at h
      obtain ⟨hname, hsub⟩ := ih hst h
      exact ⟨hname, hsub.trans ((List.sublist_cons_self c cs).append_left _)⟩
    | dotDot =>
      cases st with
      | nil =>
        rw [resolveDots_above_root hk] at h
        cases h
      | cons d st =>
        rw [resolveDots_dotDot hk] at h
        obtain ⟨hname, hsub⟩ := ih (fun e he => hst e (List.mem_cons_of_mem d he)) h
        refine ⟨hname, hsub.trans ?_⟩
        rw [List.reverse_cons]
        exact (List.sublist_append_left _ _).append (List.sublist_cons_self c cs)

/-! ## Canonical paths -/

/-- A name that an entry of a directory can have. -/
structure Name where
  text : Comp
  nonempty : text ≠ []
  slash_free : slash ∉ text
  nul_free : nul ∉ text
  not_dot : text ≠ [dot]
  not_dotDot : text ≠ [dot, dot]
deriving DecidableEq

/-- A canonical absolute path: the names below the root. -/
abbrev AbsPath := List Name

/-- The components of a canonical path. -/
def AbsPath.comps (p : AbsPath) : List Comp := p.map Name.text

/-- The text of a canonical path. -/
def AbsPath.text (p : AbsPath) : List Byte := pathText p.comps

theorem AbsPath.comps_injective {p q : AbsPath} (h : p.comps = q.comps) : p = q := by
  refine List.map_injective_iff.mpr ?_ h
  rintro ⟨c, _⟩ ⟨d, _⟩ hcd
  cases hcd
  rfl

theorem AbsPath.mem_sublist_comps {p : AbsPath} {cs : List Comp} (h : cs.Sublist p.comps) :
    ∀ c ∈ cs, c ≠ [] ∧ slash ∉ c := by
  intro c hc
  obtain ⟨a, -, rfl⟩ := List.mem_map.mp (h.subset hc)
  exact ⟨a.nonempty, a.slash_free⟩

theorem AbsPath.comps_spec {p : AbsPath} {c : Comp} (h : c ∈ p.comps) :
    c ≠ [] ∧ slash ∉ c ∧ nul ∉ c := by
  obtain ⟨a, -, rfl⟩ := List.mem_map.mp h
  exact ⟨a.nonempty, a.slash_free, a.nul_free⟩

/-- Components that are names make a canonical path. -/
theorem exists_absPath {ds : List Comp} (hkind : ∀ d ∈ ds, compKind d = .name)
    (hslash : ∀ d ∈ ds, slash ∉ d) (hnul : ∀ d ∈ ds, nul ∉ d) (hne : ∀ d ∈ ds, d ≠ []) :
    ∃ p : AbsPath, p.comps = ds := by
  induction ds with
  | nil => exact ⟨[], rfl⟩
  | cons d ds ih =>
    obtain ⟨p, hp⟩ := ih (fun e he => hkind e (List.mem_cons_of_mem d he))
      (fun e he => hslash e (List.mem_cons_of_mem d he))
      (fun e he => hnul e (List.mem_cons_of_mem d he))
      (fun e he => hne e (List.mem_cons_of_mem d he))
    have hk := hkind d List.mem_cons_self
    have hdot : d ≠ [dot] := by
      rintro rfl
      cases hk
    have hdotDot : d ≠ [dot, dot] := by
      rintro rfl
      cases hk
    exact ⟨⟨d, hne d List.mem_cons_self, hslash d List.mem_cons_self, hnul d List.mem_cons_self,
      hdot, hdotDot⟩ :: p, congrArg (d :: ·) hp⟩

end LuaRtos.Sys
