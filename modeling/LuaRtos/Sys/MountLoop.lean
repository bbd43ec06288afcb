/-
  LuaRtos.Sys.MountLoop

  The loops of `mount_normalize_path`: the scan to the left and the copy over
  a gap, then the main loop over the characters of one component and over the
  components of a path, which computes `resolveDots`.

  A ".." at the root makes the code scan to the left of its buffer, so the run
  faults exactly where `resolveDots` has no answer.
-/

import Mathlib.Data.List.Induction
import LuaRtos.Sys.MountPath

namespace LuaRtos.Sys

open LuaRtos.CLib

/-! ## The inner loops -/

/-- The scan to the left stops at the slash before a component. -/
theorem scanBack_slash (a : List Byte) {c : Comp} (hc : slash ∉ c) (tail : List Byte) :
    scanBack (a ++ slash :: (c ++ tail)) (a.length + 1 + c.length) = .ok a.length := by
  induction c using List.reverseRecOn generalizing tail with
  | nil =>
    have hload : load (a ++ slash :: tail) a.length = .ok slash := load_append a tail slash
    simp [scanBack, hload]
  | append_singleton c b ih =>
    -- the scan passes the last character first
    have hb : b ≠ slash := fun h => hc (by simp [h])
    have hc' : slash ∉ c := fun h => hc (by simp [h])
    have hload : load (a ++ slash :: (c ++ [b] ++ tail)) (a.length + 1 + c.length) = .ok b := by
      have := load_append (a ++ slash :: c) tail b
      simpa [Nat.add_assoc, Nat.add_comm 1] using this
    have hlen : a.length + 1 + (c ++ [b]).length = (a.length + 1 + c.length) + 1 := by
      simp only [List.length_append, List.length_singleton]
      omega
    rw [hlen, scanBack, hload, ok_bind, if_neg hb, List.append_assoc]
    exact ih hc' ([b] ++ tail)

/-- The copy to the left closes the gap `m :: mid`. -/
theorem moveDown_gap {tl : List Byte} (htl : nul ∉ tl) (pre : List Byte) (m : Byte)
    (mid post : List Byte) {fuel : Nat} (hfuel : tl.length < fuel) :
    ∃ post', moveDown fuel (pre ++ m :: (mid ++ (tl ++ nul :: post))) pre.length
        (pre.length + 1 + mid.length) = .ok (pre ++ (tl ++ nul :: post')) ∧
      post'.length = mid.length + 1 + post.length := by
  induction tl generalizing pre m mid fuel with
  | nil =>
    obtain ⟨fuel, rfl⟩ := Nat.exists_eq_add_of_lt hfuel
    have hload : load (pre ++ m :: (mid ++ ([] ++ nul :: post))) (pre.length + 1 + mid.length) =
        .ok nul := by
      have := load_append (pre ++ m :: mid) post nul
      simpa [Nat.add_assoc, Nat.add_comm 1] using this
    refine ⟨mid ++ nul :: post, ?_, by simp [Nat.add_assoc, Nat.add_comm 1]⟩
    rw [moveDown, hload, ok_bind, if_pos rfl, store_append]
    rfl
  | cons t tl ih =>
    obtain ⟨ht, htl⟩ := List.ne_and_not_mem_of_not_mem_cons htl
    obtain ⟨fuel, rfl⟩ := Nat.exists_eq_add_of_lt hfuel
    have hload : load (pre ++ m :: (mid ++ (t :: tl ++ nul :: post)))
        (pre.length + 1 + mid.length) = .ok t := by
      have := load_append (pre ++ m :: mid) (tl ++ nul :: post) t
      simpa [Nat.add_assoc, Nat.add_comm 1] using this
    -- the gap moves one to the right: it loses `m` and ends with the copied `t`
    obtain ⟨m', mid', hgap⟩ : ∃ m' mid', mid ++ [t] = m' :: mid' := by
      cases mid with
      | nil => exact ⟨t, [], rfl⟩
      | cons b mid => exact ⟨b, mid ++ [t], rfl⟩
    have hlen : mid'.length = mid.length := by
      have := congrArg List.length hgap
      simp only [List.length_append, List.length_cons, List.length_nil] at this
      omega
    have hbuf : pre ++ t :: (mid ++ (t :: tl ++ nul :: post)) =
        (pre ++ [t]) ++ m' :: (mid' ++ (tl ++ nul :: post)) := by
      have : mid ++ (t :: tl ++ nul :: post) = (mid ++ [t]) ++ (tl ++ nul :: post) := by simp
      rw [this, hgap]
      simp
    have hfuel' : tl.length < (t :: tl).length + fuel := by
      simp only [List.length_cons]
      omega
    obtain ⟨post', hmove, hpost⟩ := ih htl (pre ++ [t]) m' mid' hfuel'
    refine ⟨post', ?_, by rw [hpost, hlen]⟩
    have hidx : pre.length + 1 + mid.length + 1 = (pre ++ [t]).length + 1 + mid'.length := by
      simp only [List.length_append, List.length_singleton, hlen]
      omega
    have hpre : pre.length + 1 = (pre ++ [t]).length := by simp
    rw [moveDown, hload, ok_bind, if_neg (Ne.symm ht), store_append, ok_bind, hbuf, hidx, hpre,
      hmove]
    simp

theorem moveDown_close {gap tl : List Byte} (hgap : gap ≠ []) (htl : nul ∉ tl)
    (pre post : List Byte) {fuel : Nat} (hfuel : tl.length < fuel) :
    ∃ post', moveDown fuel (pre ++ (gap ++ (tl ++ nul :: post))) pre.length
        (pre.length + gap.length) = .ok (pre ++ (tl ++ nul :: post')) ∧
      post'.length = gap.length + post.length := by
  obtain ⟨m, mid, rfl⟩ := List.exists_cons_of_ne_nil hgap
  obtain ⟨post', hmove, hpost⟩ := moveDown_gap htl pre m mid post hfuel
  refine ⟨post', ?_, hpost⟩
  have hidx : pre.length + (m :: mid).length = pre.length + 1 + mid.length := by
    simp only [List.length_cons]
    omega
  rw [hidx]
  exact hmove

/-! ## The flags -/

/-- What a character other than a slash does to the flags `maybeIsDot` and
    `maybeIsDotDot`. -/
def dotFlag (f : Bool × Bool) (b : Byte) : Bool × Bool :=
  if b = dot then (if f.1 then (false, true) else (true, f.2)) else (false, false)

/-- The flags behind a component. -/
def dotFlags (c : Comp) : Bool × Bool := c.foldl dotFlag (false, false)

theorem dotFlags_concat (c : Comp) (b : Byte) :
    dotFlags (c ++ [b]) = dotFlag (dotFlags c) b := by
  simp [dotFlags]

/-- The flags that a component of each kind leaves.  Two of the three bits are
    determined; `maybeIsDot` behind two or more dots depends on their parity. -/
theorem dotFlags_kind (c : Comp) :
    (compKind c = .name → dotFlags c = (false, false)) ∧
    (compKind c = .dot → dotFlags c = (true, false)) ∧
    (compKind c = .dotDot → (dotFlags c).2 = true) := by
  induction c using List.reverseRecOn with
  | nil => simp [dotFlags, compKind, kindOfReverse]
  | append_singleton c b ih =>
    obtain ⟨hname, hdot, hdotDot⟩ := ih
    rw [dotFlags_concat]
    by_cases hb : b = dot
    · subst hb
      rw [compKind_concat_dot]
      cases hk : compKind c with
      | name => simp [hname hk, dotFlag]
      | dot => simp [hdot hk, dotFlag]
      | dotDot =>
        -- a further dot flips `maybeIsDot` and keeps `maybeIsDotDot`
        have h₂ := hdotDot hk
        cases h₁ : (dotFlags c).1 <;> simp [dotFlag, h₁, h₂]
    · simp [compKind_concat_of_ne c hb, dotFlag, hb]

/-! ## The main loop on one component -/

/-- The main loop behind the characters of a component. -/
theorem normLoop_chars {c : Comp} (hslash : slash ∉ c) (hnul : nul ∉ c) (a rest : List Byte)
    (f : Bool × Bool) (fuel : Nat) :
    normLoop (c.length + fuel) ⟨a ++ (c ++ rest), a.length, f.1, f.2, false, false⟩ =
      normLoop fuel ⟨a ++ (c ++ rest), a.length + c.length, (c.foldl dotFlag f).1,
        (c.foldl dotFlag f).2, false, false⟩ := by
  induction c generalizing a f with
  | nil => simp
  | cons b c ih =>
    obtain ⟨hb, hslash⟩ := List.ne_and_not_mem_of_not_mem_cons hslash
    obtain ⟨hb', hnul⟩ := List.ne_and_not_mem_of_not_mem_cons hnul
    have hfuel : (b :: c).length + fuel = (c.length + fuel) + 1 := by
      simp only [List.length_cons]
      omega
    have hload : load (a ++ (b :: c ++ rest)) a.length = .ok b := load_append a _ b
    have hstep : normStep ⟨a ++ (b :: c ++ rest), a.length, f.1, f.2, false, false⟩ b =
        .ok ⟨a ++ (b :: c ++ rest), a.length + 1, (dotFlag f b).1, (dotFlag f b).2, false,
          false⟩ := by
      by_cases hd : b = dot
      · cases h₁ : f.1 <;> simp [normStep, NormState.readChar, dotFlag, hd, h₁]
      · simp [normStep, NormState.readChar, dotFlag, hd, Ne.symm hb]
    have hbuf : a ++ (b :: c ++ rest) = (a ++ [b]) ++ (c ++ rest) := by simp
    have hlen : a.length + 1 = (a ++ [b]).length := by simp
    rw [hfuel, normLoop, hload, ok_bind, if_neg (Ne.symm hb'), hstep, ok_bind, hbuf, hlen,
      ih hslash hnul (a ++ [b]) (dotFlag f b)]
    simp [Nat.add_assoc, Nat.add_comm 1]

section Component

variable {c : Comp} {tl : List Byte} (a post : List Byte)

/-- The slash behind a name: the component stays. -/
theorem normStep_name (h : compKind c = .name) (buf : List Byte) (i : Nat) :
    normStep ⟨buf, i, (dotFlags c).1, (dotFlags c).2, false, false⟩ slash =
      .ok (.at buf (i + 1)) := by
  rw [(dotFlags_kind c).1 h]
  rfl

/-- The slash behind a dot: the component goes. -/
theorem normStep_dot (h : compKind c = .dot) (hc : slash ∉ c) (htl : nul ∉ tl) :
    ∃ post', normStep ⟨a ++ slash :: (c ++ slash :: (tl ++ nul :: post)), a.length + 1 + c.length,
        (dotFlags c).1, (dotFlags c).2, false, false⟩ slash =
        .ok (.at (a ++ slash :: (tl ++ nul :: post')) (a.length + 1)) ∧
      post'.length = c.length + 1 + post.length := by
  set buf := a ++ slash :: (c ++ slash :: (tl ++ nul :: post)) with hbuf
  have hscan : scanBack buf (a.length + 1 + c.length) = .ok a.length := scanBack_slash a hc _
  -- the gap is the component with the slash behind it
  have hgap : buf = (a ++ [slash]) ++ ((c ++ [slash]) ++ (tl ++ nul :: post)) := by simp [hbuf]
  have hfuel : tl.length < buf.length := by
    simp only [hbuf, List.length_append, List.length_cons]
    omega
  have hne : c ++ [slash] ≠ [] := by simp
  obtain ⟨post', hmove, hpost⟩ := moveDown_close hne htl (a ++ [slash]) post hfuel
  rw [← hgap] at hmove
  have hidx : (a ++ [slash]).length + (c ++ [slash]).length = a.length + 1 + c.length + 1 := by
    simp only [List.length_append, List.length_singleton]
    omega
  have hpre : (a ++ [slash]).length = a.length + 1 := by simp
  rw [hidx, hpre] at hmove
  have hflags := (dotFlags_kind c).2.1 h
  have hread : NormState.readChar ⟨buf, a.length + 1 + c.length, (dotFlags c).1, (dotFlags c).2,
      false, false⟩ slash = ⟨buf, a.length + 1 + c.length, true, false, true, false⟩ := by
    rw [hflags]
    rfl
  refine ⟨post', ?_, by simpa using hpost⟩
  simp only [normStep, hread, Bool.false_eq_true, if_false, if_true, hscan, ok_bind, hmove]
  simp

/-- The slash behind two or more dots: the component goes with the one before
    it. -/
theorem normStep_dotDot (h : compKind c = .dotDot) (hc : slash ∉ c) (htl : nul ∉ tl) {d : Comp}
    (hd : slash ∉ d) :
    ∃ post', normStep ⟨a ++ slash :: (d ++ slash :: (c ++ slash :: (tl ++ nul :: post))),
        a.length + 1 + d.length + 1 + c.length, (dotFlags c).1, (dotFlags c).2, false, false⟩
        slash = .ok (.at (a ++ slash :: (tl ++ nul :: post')) (a.length + 1)) ∧
      post'.length = d.length + 1 + c.length + 1 + post.length := by
  set buf := a ++ slash :: (d ++ slash :: (c ++ slash :: (tl ++ nul :: post))) with hbuf
  set i := a.length + 1 + d.length + 1 + c.length with hi
  have hscan : scanBack buf i = .ok (a.length + 1 + d.length) := by
    have := scanBack_slash (a ++ slash :: d) hc (slash :: (tl ++ nul :: post))
    simpa [hbuf, hi, Nat.add_assoc, Nat.add_comm 1] using this
  have hscan' : scanBack buf (a.length + 1 + d.length) = .ok a.length := scanBack_slash a hd _
  -- the gap is both components, each with the slash behind it
  have hgap : buf = (a ++ [slash]) ++ ((d ++ slash :: (c ++ [slash])) ++ (tl ++ nul :: post)) := by
    simp [hbuf]
  have hfuel : tl.length < buf.length := by
    simp only [hbuf, List.length_append, List.length_cons]
    omega
  have hne : d ++ slash :: (c ++ [slash]) ≠ [] := by simp
  obtain ⟨post', hmove, hpost⟩ := moveDown_close hne htl (a ++ [slash]) post hfuel
  rw [← hgap] at hmove
  have hlen : (d ++ slash :: (c ++ [slash])).length = d.length + 1 + c.length + 1 := by
    rw [List.length_append, List.length_cons, List.length_append, List.length_singleton]
    omega
  have hidx : (a ++ [slash]).length + (d ++ slash :: (c ++ [slash])).length = i + 1 := by
    rw [hlen, List.length_append, List.length_singleton]
    omega
  have hpre : (a ++ [slash]).length = a.length + 1 := by simp
  rw [hidx, hpre] at hmove
  have hread : NormState.readChar ⟨buf, i, (dotFlags c).1, (dotFlags c).2, false, false⟩ slash =
      ⟨buf, i, (dotFlags c).1, true, false, true⟩ := by
    rw [(dotFlags_kind c).2.2 h]
    simp [NormState.readChar, slash, dot]
  refine ⟨post', ?_, by rw [hpost, hlen]⟩
  simp only [normStep, hread, if_true, hscan, hscan', ok_bind, hmove]
  simp

/-- The slash behind two or more dots that are the first component. -/
theorem normStep_above_root (h : compKind c = .dotDot) (hc : slash ∉ c) (rest : List Byte) :
    normStep ⟨slash :: (c ++ slash :: rest), 1 + c.length, (dotFlags c).1, (dotFlags c).2, false,
      false⟩ slash = .error .outOfBounds := by
  set buf := slash :: (c ++ slash :: rest) with hbuf
  have hscan : scanBack buf (1 + c.length) = .ok 0 := by
    have := scanBack_slash [] hc (slash :: rest)
    simpa [hbuf] using this
  have hread : NormState.readChar ⟨buf, 1 + c.length, (dotFlags c).1, (dotFlags c).2, false,
      false⟩ slash = ⟨buf, 1 + c.length, (dotFlags c).1, true, false, true⟩ := by
    rw [(dotFlags_kind c).2.2 h]
    simp [NormState.readChar, slash, dot]
  simp only [normStep, hread, if_true, hscan, ok_bind, scanBack, throw_eq_error, error_bind]

end Component

/-! ## The main loop on all components -/

/-- The rounds of the main loop on one component and the slash behind it. -/
theorem normLoop_component {c : Comp} (hslash : slash ∉ c) (hnul : nul ∉ c) (a rest : List Byte)
    (fuel : Nat) :
    normLoop (c.length + (fuel + 1)) (.at (a ++ slash :: (c ++ slash :: rest)) (a.length + 1)) =
      normStep ⟨a ++ slash :: (c ++ slash :: rest), a.length + 1 + c.length, (dotFlags c).1,
        (dotFlags c).2, false, false⟩ slash >>= normLoop fuel := by
  have hbuf : a ++ slash :: (c ++ slash :: rest) = (a ++ [slash]) ++ (c ++ slash :: rest) := by
    simp
  have hload : load (a ++ slash :: (c ++ slash :: rest)) (a.length + 1 + c.length) = .ok slash := by
    have := load_append (a ++ slash :: c) rest slash
    simpa [Nat.add_assoc, Nat.add_comm 1] using this
  have hchars := normLoop_chars hslash hnul (a ++ [slash]) (slash :: rest) (false, false) (fuel + 1)
  rw [← hbuf, List.length_append, List.length_singleton] at hchars
  have hne : slash ≠ nul := by decide
  rw [NormState.at, hchars, normLoop]
  simp only [hload, ok_bind, if_neg hne]
  rfl

/-- The main loop at the start of a component: `st` are the components to the
    left, the last one first, and `rest` is what lies to the right. -/
def atComponent (st : List Comp) (rest : List Byte) : NormState :=
  .at (joinPath st.reverse ++ slash :: rest) ((joinPath st.reverse).length + 1)

/-- How the main loop ends in a block with `n` bytes more than two: behind the
    slash after the components that are left, or in a fault. -/
def LoopEnds (n : Nat) (r : Result NormState) : Option (List Comp) → Prop
  | some ds => ∃ post, r = .ok (.at (joinPath ds ++ slash :: nul :: post)
      ((joinPath ds).length + 1)) ∧ (joinPath ds).length + post.length = n
  | none => r = .error .outOfBounds

/-- The main loop from the start of a component on.  By induction on the
    components to come, with one case of `normStep` for each kind. -/
theorem normLoop_components {cs : List Comp} (hslash : ∀ c ∈ cs, slash ∉ c)
    (hnul : ∀ c ∈ cs, nul ∉ c) {st : List Comp} (hst : ∀ c ∈ st, slash ∉ c) (post : List Byte)
    {fuel n : Nat} (hfuel : (dirText cs).length < fuel)
    (hn : (joinPath st.reverse).length + (dirText cs).length + post.length = n) :
    LoopEnds n (normLoop fuel (atComponent st (dirText cs ++ nul :: post)))
      (resolveDots st cs) := by
  induction cs generalizing st post fuel with
  | nil =>
    obtain ⟨fuel, rfl⟩ := Nat.exists_eq_add_of_lt hfuel
    have hload : load (joinPath st.reverse ++ slash :: nul :: post)
        ((joinPath st.reverse).length + 1) = .ok nul := by
      have := load_append (joinPath st.reverse ++ [slash]) post nul
      simpa using this
    refine ⟨post, ?_, by simpa using hn⟩
    simp only [atComponent, dirText_nil, List.nil_append, normLoop, NormState.at, hload, ok_bind,
      if_true]
    rfl
  | cons c cs ih =>
    have hc := hslash c List.mem_cons_self
    have hcn := hnul c List.mem_cons_self
    have hcs : ∀ d ∈ cs, slash ∉ d := fun d hd => hslash d (List.mem_cons_of_mem c hd)
    have hcsn : ∀ d ∈ cs, nul ∉ d := fun d hd => hnul d (List.mem_cons_of_mem c hd)
    have htl : nul ∉ dirText cs := nul_notMem_dirText.mpr hcsn
    simp only [dirText_cons, List.length_append, List.length_cons] at hfuel hn
    obtain ⟨fuel, rfl⟩ : ∃ f, fuel = c.length + (f + 1) := ⟨fuel - c.length - 1, by omega⟩
    have hfuel' : (dirText cs).length < fuel := by omega
    have hbuf : dirText (c :: cs) ++ nul :: post = c ++ slash :: (dirText cs ++ nul :: post) := by
      simp
    rw [hbuf, atComponent, normLoop_component hc hcn]
    cases hk : compKind c with
    | name =>
      -- the component goes on the stack, the buffer stays
      rw [resolveDots_name hk, normStep_name hk, ok_bind]
      have hst' : ∀ d ∈ c :: st, slash ∉ d := by
        rintro d (_ | ⟨_, hd⟩)
        · exact hc
        · exact hst d hd
      have hlen := joinPath_reverse_length c st
      have := ih hcs hcsn hst' post hfuel' (by omega)
      rw [atComponent, hlen, joinPath_reverse_cons] at this
      simpa using this
    | dot =>
      rw [resolveDots_dot hk]
      obtain ⟨post', hstep, hpost⟩ := normStep_dot (joinPath st.reverse) post hk hc htl
      rw [hstep, ok_bind]
      exact ih hcs hcsn hst post' hfuel' (by omega)
    | dotDot =>
      cases st with
      | nil =>
        -- nothing to the left: the second scan leaves the buffer
        rw [resolveDots_above_root hk]
        have := normStep_above_root hk hc (dirText cs ++ nul :: post)
        simp only [List.reverse_nil, joinPath_nil, List.nil_append, List.length_nil, Nat.zero_add,
          this, error_bind]
        rfl
      | cons d st =>
        -- the top of the stack goes with the dots
        rw [resolveDots_dotDot hk]
        have hd := hst d List.mem_cons_self
        have hst' : ∀ e ∈ st, slash ∉ e := fun e he => hst e (List.mem_cons_of_mem d he)
        have hlen := joinPath_reverse_length d st
        obtain ⟨post', hstep, hpost⟩ := normStep_dotDot (joinPath st.reverse) post hk hc htl hd
        rw [hlen, joinPath_reverse_cons]
        simp only [List.append_assoc, List.cons_append, hstep, ok_bind]
        exact ih hcs hcsn hst' post' hfuel' (by omega)

/-- The main loop on a whole path that starts and ends with a slash. -/
theorem normLoop_path {cs : List Comp} (hslash : ∀ c ∈ cs, slash ∉ c) (hnul : ∀ c ∈ cs, nul ∉ c)
    (post : List Byte) {fuel n : Nat} (hfuel : (dirText cs).length + 1 < fuel)
    (hn : (dirText cs).length + post.length = n) :
    LoopEnds n (normLoop fuel (.at (slash :: (dirText cs ++ nul :: post)) 0))
      (resolveDots [] cs) := by
  obtain ⟨fuel, rfl⟩ : ∃ f, fuel = f + 1 := ⟨fuel - 1, by omega⟩
  have hnone : ∀ c ∈ ([] : List Comp), slash ∉ c := fun _ hc => absurd hc List.not_mem_nil
  have hfuel' : (dirText cs).length < fuel := by omega
  exact normLoop_components hslash hnul hnone post hfuel' (by simpa using hn)

end LuaRtos.Sys
