/-
  LuaRtos.Net.SelectSets

  When `select` gives back what was asked for: each set the descriptors of it whose sockets the
  real `select` reports, and no other.

  The way back sets the bits of the descriptors and leaves those of the lwip numbers, so that
  any socket that is ready is there twice, unless the prefix is 0; and the bound of the call
  has the prefix of its largest descriptor only if the number of that is not the last one.
-/

import LuaRtos.Net.Select
import Mathlib.Data.Nat.Bitwise

namespace LuaRtos.Net

open LuaRtos.CLib

/-! ## Prefixes and numbers -/

theorem fdToSocket_eq (fd : Nat) : fdToSocket fd = fd % 16 :=
  Nat.and_two_pow_sub_one_eq_mod fd 4

theorem vfsOf_eq (maxfdp1 : Nat) : vfsOf maxfdp1 = 16 * (maxfdp1 / 16 % 2048) := by
  have hmask : (maxfdp1 >>> 4) &&& ((1 <<< 11) - 1) = maxfdp1 / 16 % 2048 := by
    rw [Nat.shiftRight_eq_div_pow]
    exact Nat.and_two_pow_sub_one_eq_mod (maxfdp1 / 16) 11
  have hshift : ((maxfdp1 >>> 4) &&& ((1 <<< 11) - 1)) <<< 4 = vfsOf maxfdp1 := by
    apply Nat.eq_of_testBit_eq
    intro i
    unfold vfsOf maxFdBits
    simp only [Nat.testBit_and, Nat.testBit_shiftLeft, Nat.testBit_shiftRight]
    by_cases hi : 4 ≤ i
    · simp [hi]
    · simp [hi]
  rw [← hshift, hmask, Nat.shiftLeft_eq, Nat.mul_comm]

theorem socketToFd_eq (q : Nat) {i : Nat} (hi : i < 16) : socketToFd (16 * q) i = 16 * q + i :=
  (Nat.two_pow_add_eq_or_of_lt (i := 4) hi q).symm

/-! ## The loops on one set -/

section Loops

variable {size : Nat} {s t : FdSet}

/-- `copyBit` where both bits are in the set. -/
def copied (src dst : Nat) (s : FdSet) : FdSet :=
  if src ∈ s then insert dst s else s.erase dst

theorem copyBit_eq {src dst : Nat} (hsrc : src < size) (hdst : dst < size) (s : FdSet) :
    copyBit size src dst s = .ok (copied src dst s) := by
  unfold copyBit fdIsset fdSet fdClr copied
  by_cases hmem : src ∈ s
  · simp [hsrc, hdst, hmem]
  · simp [hsrc, hdst, hmem]

theorem copyBit_lt {src dst : Nat} (h : copyBit size src dst s = .ok t) : dst < size := by
  by_contra hdst
  unfold copyBit fdIsset fdSet fdClr at h
  by_cases hsrc : src < size
  · by_cases hmem : src ∈ s
    · simp [hsrc, hdst, hmem] at h
    · simp [hsrc, hdst, hmem] at h
  · simp [hsrc] at h

theorem mem_copied (src dst x : Nat) (s : FdSet) :
    x ∈ copied src dst s ↔ if x = dst then src ∈ s else x ∈ s := by
  unfold copied
  by_cases hx : x = dst
  · by_cases hmem : src ∈ s <;> simp [hx, hmem]
  · by_cases hmem : src ∈ s <;> simp [hx, hmem]

/-- The rounds of `forUpTo` where no access fails. -/
def upTo {σ : Type} (step : Nat → σ → σ) : Nat → σ → σ
  | 0, s => s
  | n + 1, s => step n (upTo step n s)

theorem forUpTo_succ {σ : Type} (step : Nat → σ → Result σ) (n : Nat) (s : σ) :
    forUpTo step (n + 1) s = forUpTo step n s >>= step n := rfl

theorem forUpTo_eq {σ : Type} {step : Nat → σ → Result σ} {next : Nat → σ → σ} {n : Nat}
    (hstep : ∀ i < n, ∀ s, step i s = .ok (next i s)) (s : σ) :
    forUpTo step n s = .ok (upTo next n s) := by
  induction n with
  | zero => rfl
  | succ n ih =>
    rw [forUpTo_succ, ih fun i hi => hstep i (Nat.lt_succ_of_lt hi), ok_bind]
    exact hstep n (Nat.lt_succ_self n) _

/-- The numbers on the way in: each low bit is that of the last descriptor below `n` that has
    the number, if there is one. -/
theorem mem_toLwip (n x : Nat) (s : FdSet) :
    x ∈ upTo (fun i => copied i (fdToSocket i)) n s ↔
      if x < 16 ∧ x < n then x + 16 * ((n - 1 - x) / 16) ∈ s else x ∈ s := by
  induction n generalizing x with
  | zero => simp [upTo]
  | succ n ih =>
    have hself := ih n
    rw [if_neg (by omega)] at hself
    rw [upTo, mem_copied, fdToSocket_eq]
    by_cases hx : x = n % 16
    · have hlast : x + 16 * ((n + 1 - 1 - x) / 16) = n := by omega
      rw [if_pos hx, hself, if_pos (by omega), hlast]
    · rw [if_neg hx, ih x]
      by_cases hlt : x < 16 ∧ x < n
      · have hsame : (n + 1 - 1 - x) / 16 = (n - 1 - x) / 16 := by omega
        rw [if_pos hlt, if_pos (by omega), hsame]
      · rw [if_neg hlt, if_neg (by omega)]

/-- The way back sets the bits from the prefix on, and leaves all others. -/
theorem mem_fromLwip (q : Nat) {n : Nat} (hn : n ≤ 16) (x : Nat) (s : FdSet) :
    x ∈ upTo (fun i => copied i (socketToFd (16 * q) i)) n s ↔
      if 16 * q ≤ x ∧ x < 16 * q + n then x - 16 * q ∈ s else x ∈ s := by
  induction n generalizing x with
  | zero =>
    rw [if_neg (by omega)]
    exact Iff.rfl
  | succ n ih =>
    have hself := ih (by omega) n
    have hsame : (if 16 * q ≤ n ∧ n < 16 * q + n then n - 16 * q ∈ s else n ∈ s) ↔ n ∈ s := by
      rw [if_neg (by omega)]
    rw [upTo, mem_copied, socketToFd_eq q (by omega)]
    by_cases hx : x = 16 * q + n
    · have hback : x - 16 * q = n := by omega
      rw [if_pos hx, hself, hsame, if_pos (by omega), hback]
    · rw [if_neg hx, ih (by omega) x]
      by_cases hin : 16 * q ≤ x ∧ x < 16 * q + n
      · rw [if_pos hin, if_pos (by omega)]
      · rw [if_neg hin, if_neg (by omega)]

end Loops

/-! ## One set of a call -/

section OneSet

variable (ready : Nat → Bool)

/-- The sockets that the real `select` leaves, of those below the bound it is given. -/
def readyOf (s : FdSet) : FdSet := s.filter fun i => i < 15 ∧ ready i

/-- What becomes of a set. -/
@[irreducible] def selected (maxfdp1 : Nat) (s : FdSet) : FdSet :=
  upTo (fun i => copied i (socketToFd (vfsOf maxfdp1) i)) 15
    (readyOf ready (upTo (fun i => copied i (fdToSocket i)) maxfdp1 s))

/-- The descriptors of a set whose sockets the real `select` reports. -/
def reported (s : FdSet) : FdSet :=
  s.filter fun fd => fdToSocket fd < 15 ∧ ready (fdToSocket fd)

/-- A set of sockets of the file system `k`, all below the bound. -/
def Sockets (k maxfdp1 : Nat) (s : FdSet) : Prop :=
  ∀ fd ∈ s, fd / 16 = k ∧ fd < maxfdp1

variable {ready} {k maxfdp1 : Nat} {s : FdSet}

theorem mem_toLwip_sockets (hs : Sockets k maxfdp1 s) (hmax : (maxfdp1 - 1) / 16 = k)
    (hpos : 0 < maxfdp1) {x : Nat} (hx : x < 16) :
    x ∈ upTo (fun i => copied i (fdToSocket i)) maxfdp1 s ↔ 16 * k + x ∈ s := by
  rw [mem_toLwip]
  by_cases hlt : x < maxfdp1
  · rw [if_pos ⟨hx, hlt⟩]
    by_cases hle : x ≤ (maxfdp1 - 1) % 16
    · have hlast : x + 16 * ((maxfdp1 - 1 - x) / 16) = 16 * k + x := by omega
      rw [hlast]
    · -- the last descriptor of this number has the prefix before
      have hnot : x + 16 * ((maxfdp1 - 1 - x) / 16) ∉ s := by
        intro hmem
        have hnum := (hs _ hmem).1
        omega
      have hnot' : 16 * k + x ∉ s := by
        intro hmem
        have hbound := (hs _ hmem).2
        omega
      exact iff_of_false hnot hnot'
  · have hk : 16 * k + x = x := by omega
    rw [if_neg (by omega), hk]

theorem mem_selected (hs : Sockets k maxfdp1 s) (hmax : (maxfdp1 - 1) / 16 = k)
    (hpos : 0 < maxfdp1) (x : Nat) :
    x ∈ selected ready maxfdp1 s ↔
      (vfsOf maxfdp1 ≤ x ∧ x < vfsOf maxfdp1 + 15 ∧ 16 * k + (x - vfsOf maxfdp1) ∈ s ∧
        ready (x - vfsOf maxfdp1) = true) ∨
      (¬(vfsOf maxfdp1 ≤ x ∧ x < vfsOf maxfdp1 + 15) ∧ x < 15 ∧ 16 * k + x ∈ s ∧
        ready x = true) := by
  have hready (y : Nat) :
      y ∈ readyOf ready (upTo (fun i => copied i (fdToSocket i)) maxfdp1 s) ↔
        y < 15 ∧ 16 * k + y ∈ s ∧ ready y = true := by
    unfold readyOf
    rw [Finset.mem_filter]
    constructor
    · rintro ⟨hmem, hlt, hy⟩
      exact ⟨hlt, (mem_toLwip_sockets hs hmax hpos (by omega)).mp hmem, hy⟩
    · rintro ⟨hlt, hmem, hy⟩
      exact ⟨(mem_toLwip_sockets hs hmax hpos (by omega)).mpr hmem, hlt, hy⟩
  unfold selected
  rw [vfsOf_eq, mem_fromLwip _ (by omega), hready, hready]
  by_cases hin : 16 * (maxfdp1 / 16 % 2048) ≤ x ∧ x < 16 * (maxfdp1 / 16 % 2048) + 15
  · rw [if_pos hin]
    constructor
    · rintro ⟨-, hmem, hy⟩
      exact .inl ⟨hin.1, hin.2, hmem, hy⟩
    · rintro (⟨-, -, hmem, hy⟩ | ⟨hout, -⟩)
      · exact ⟨by omega, hmem, hy⟩
      · exact absurd hin hout
  · rw [if_neg hin]
    constructor
    · intro hmem
      exact .inr ⟨hin, hmem⟩
    · rintro (⟨hle, hlt, -⟩ | ⟨-, hmem⟩)
      · exact absurd ⟨hle, hlt⟩ hin
      · exact hmem

theorem mem_reported (x : Nat) :
    x ∈ reported ready s ↔ x ∈ s ∧ x % 16 < 15 ∧ ready (x % 16) = true := by
  unfold reported
  rw [Finset.mem_filter, fdToSocket_eq]

theorem reported_eq_empty : reported ready s = ∅ ↔
    ∀ fd ∈ s, fd % 16 < 15 → ready (fd % 16) ≠ true := by
  constructor
  · intro hempty fd hmem hlt hready
    have hrep : fd ∈ reported ready s := (mem_reported fd).mpr ⟨hmem, hlt, hready⟩
    rw [hempty] at hrep
    exact Finset.notMem_empty fd hrep
  · intro hnone
    apply Finset.eq_empty_of_forall_notMem
    intro fd hrep
    obtain ⟨hmem, hlt, hready⟩ := (mem_reported fd).mp hrep
    exact hnone fd hmem hlt hready

/-- A descriptor whose socket is ready is there twice: below, and at the prefix. -/
theorem mem_selected_twice (hs : Sockets k maxfdp1 s) (hmax : (maxfdp1 - 1) / 16 = k)
    (hpos : 0 < maxfdp1) {fd : Nat} (hmem : fd ∈ s) (hlt : fd % 16 < 15)
    (hready : ready (fd % 16) = true) :
    fd % 16 ∈ selected ready maxfdp1 s ∧ vfsOf maxfdp1 + fd % 16 ∈ selected ready maxfdp1 s := by
  have hvfs := vfsOf_eq maxfdp1
  have hnum : 16 * k + fd % 16 = fd := by
    have hdiv := (hs fd hmem).1
    omega
  constructor
  · rw [mem_selected hs hmax hpos]
    by_cases hin : vfsOf maxfdp1 ≤ fd % 16 ∧ fd % 16 < vfsOf maxfdp1 + 15
    · have hzero : vfsOf maxfdp1 = 0 := by omega
      rw [hzero, Nat.sub_zero, hnum]
      exact .inl ⟨Nat.zero_le _, by omega, hmem, hready⟩
    · rw [hnum]
      exact .inr ⟨hin, hlt, hmem, hready⟩
  · rw [mem_selected hs hmax hpos, Nat.add_sub_cancel_left, hnum]
    exact .inl ⟨Nat.le_add_right _ _, by omega, hmem, hready⟩

theorem selected_of_zero (hs : Sockets 0 maxfdp1 s) (hpos : 0 < maxfdp1) (hle : maxfdp1 ≤ 15) :
    selected ready maxfdp1 s = reported ready s := by
  have hvfs := vfsOf_eq maxfdp1
  have hzero : vfsOf maxfdp1 = 0 := by omega
  ext x
  rw [mem_selected hs (by omega) hpos, mem_reported, hzero, Nat.mul_zero, Nat.zero_add,
    Nat.zero_add, Nat.sub_zero]
  constructor
  · rintro (⟨-, hlt, hmem, hready⟩ | ⟨hout, hlt, -⟩)
    · rw [Nat.mod_eq_of_lt (by omega : x < 16)]
      exact ⟨hmem, hlt, hready⟩
    · exact absurd ⟨Nat.zero_le x, hlt⟩ hout
  · rintro ⟨hmem, hlt, hready⟩
    have hbound := (hs x hmem).2
    rw [Nat.mod_eq_of_lt (by omega : x < 16)] at hlt hready
    exact .inl ⟨Nat.zero_le x, hlt, hmem, hready⟩

theorem selected_of_none (hs : Sockets k maxfdp1 s) (hmax : (maxfdp1 - 1) / 16 = k)
    (hpos : 0 < maxfdp1) (hnone : reported ready s = ∅) : selected ready maxfdp1 s = ∅ := by
  rw [reported_eq_empty] at hnone
  have hnot (y : Nat) (hy : y < 15) (hmem : 16 * k + y ∈ s) : ready y ≠ true := by
    have hmod : (16 * k + y) % 16 = y := by omega
    have hready := hnone (16 * k + y) hmem
    rw [hmod] at hready
    exact hready hy
  apply Finset.eq_empty_of_forall_notMem
  intro x hx
  rw [mem_selected hs hmax hpos] at hx
  rcases hx with ⟨hle, hlt, hmem, hready⟩ | ⟨-, hlt, hmem, hready⟩
  · exact hnot _ (by omega) hmem hready
  · exact hnot _ hlt hmem hready

/-- A set comes back as it should if nothing of it is reported, or if there is no prefix. -/
theorem selected_eq_reported (hs : Sockets k maxfdp1 s) (hmax : (maxfdp1 - 1) / 16 = k)
    (hpos : 0 < maxfdp1) :
    selected ready maxfdp1 s = reported ready s ↔
      (k = 0 ∧ maxfdp1 ≤ 15) ∨ reported ready s = ∅ := by
  constructor
  · intro heq
    by_cases hempty : reported ready s = ∅
    · exact .inr hempty
    · obtain ⟨fd, hfd⟩ := Finset.nonempty_iff_ne_empty.mpr hempty
      obtain ⟨hmem, hlt, hready⟩ := (mem_reported fd).mp hfd
      obtain ⟨hlow, hhigh⟩ := mem_selected_twice hs hmax hpos hmem hlt hready
      rw [heq] at hlow hhigh
      have hk := (hs _ ((mem_reported _).mp hlow).1).1
      have hq := (hs _ ((mem_reported _).mp hhigh).1).1
      have hvfs := vfsOf_eq maxfdp1
      left
      omega
  · rintro (⟨rfl, hle⟩ | hempty)
    · exact selected_of_zero hs hpos hle
    · rw [selected_of_none hs hmax hpos hempty, hempty]

end OneSet

/-! ## The sets of a call -/

section Call

/-- `f` on each set, with what is ready for it. -/
def FdSets.mapWith (f : (Nat → Bool) → FdSet → FdSet) (answer : SelectAnswer)
    (sets : FdSets) : FdSets :=
  { readset := sets.readset.map (f answer.readable)
    writeset := sets.writeset.map (f answer.writable)
    exceptset := sets.exceptset.map (f answer.exceptional) }

/-- A set is one of the call, where `ready` says what is ready for it. -/
inductive FdSets.Asks (answer : SelectAnswer) (sets : FdSets) : (Nat → Bool) → FdSet → Prop
  | read {s : FdSet} (h : sets.readset = some s) : FdSets.Asks answer sets answer.readable s
  | write {s : FdSet} (h : sets.writeset = some s) : FdSets.Asks answer sets answer.writable s
  | except {s : FdSet} (h : sets.exceptset = some s) :
    FdSets.Asks answer sets answer.exceptional s

/-- The sets ask for sockets of the file system `k`, and `maxfdp1` is one above the largest. -/
structure SocketSets (k maxfdp1 : Nat) (answer : SelectAnswer) (sets : FdSets) : Prop where
  sockets : ∀ ready s, sets.Asks answer ready s → Sockets k maxfdp1 s
  largest : ∃ ready s, sets.Asks answer ready s ∧ ∃ fd ∈ s, fd + 1 = maxfdp1

variable {size k maxfdp1 : Nat} {answer : SelectAnswer} {sets : FdSets}

theorem FdSets.map_eq_map {f g : FdSet → FdSet} {o : Option FdSet} :
    o.map f = o.map g ↔ ∀ s, o = some s → f s = g s := by
  cases o with
  | none => simp
  | some s => simp

theorem FdSets.mapWith_eq_mapWith {f g : (Nat → Bool) → FdSet → FdSet} :
    sets.mapWith f answer = sets.mapWith g answer ↔
      ∀ ready s, sets.Asks answer ready s → f ready s = g ready s := by
  unfold FdSets.mapWith
  rw [FdSets.mk.injEq, FdSets.map_eq_map, FdSets.map_eq_map, FdSets.map_eq_map]
  constructor
  · rintro ⟨hread, hwrite, hexcept⟩ ready s hasks
    cases hasks with
    | read h => exact hread s h
    | write h => exact hwrite s h
    | except h => exact hexcept s h
  · intro hall
    exact ⟨fun s h => hall _ s (.read h), fun s h => hall _ s (.write h),
      fun s h => hall _ s (.except h)⟩

theorem FdSets.mapWith_mapWith (f g : (Nat → Bool) → FdSet → FdSet) :
    (sets.mapWith f answer).mapWith g answer =
      sets.mapWith (fun ready s => g ready (f ready s)) answer := by
  simp only [FdSets.mapWith, Option.map_map, Function.comp_def]

theorem FdSets.asks_mapWith {f : (Nat → Bool) → FdSet → FdSet} {ready : Nat → Bool} {s : FdSet}
    (hasks : sets.Asks answer ready s) : (sets.mapWith f answer).Asks answer ready (f ready s) := by
  cases hasks with
  | read h => exact .read (congrArg (Option.map (f answer.readable)) h)
  | write h => exact .write (congrArg (Option.map (f answer.writable)) h)
  | except h => exact .except (congrArg (Option.map (f answer.exceptional)) h)

theorem FdSets.mapWith_id : sets.mapWith (fun _ s => s) answer = sets := by
  simp [FdSets.mapWith]

theorem FdSets.each_eq {f : FdSet → Result FdSet} {g : FdSet → FdSet}
    (hf : ∀ s, f s = .ok (g s)) (answer : SelectAnswer) (sets : FdSets) :
    sets.each f = .ok (sets.mapWith (fun _ => g) answer) := by
  obtain ⟨readset, writeset, exceptset⟩ := sets
  cases readset <;> cases writeset <;> cases exceptset <;>
    simp [FdSets.each, FdSets.mapWith, hf]

/-- A set of the call stays one, and has been through what is done with each. -/
theorem FdSets.asks_of_each {f : FdSet → Result FdSet} {out : FdSets} {ready : Nat → Bool}
    {s : FdSet} (hasks : sets.Asks answer ready s) (h : sets.each f = .ok out) :
    ∃ t, f s = .ok t ∧ out.Asks answer ready t := by
  obtain ⟨readset, hread, h⟩ := bind_eq_ok.mp h
  obtain ⟨writeset, hwrite, h⟩ := bind_eq_ok.mp h
  obtain ⟨exceptset, hexcept, h⟩ := bind_eq_ok.mp h
  cases h
  cases hasks with
  | read hs =>
    rw [hs] at hread
    obtain ⟨t, ht, hout⟩ := bind_eq_ok.mp hread
    cases hout
    exact ⟨t, ht, .read rfl⟩
  | write hs =>
    rw [hs] at hwrite
    obtain ⟨t, ht, hout⟩ := bind_eq_ok.mp hwrite
    cases hout
    exact ⟨t, ht, .write rfl⟩
  | except hs =>
    rw [hs] at hexcept
    obtain ⟨t, ht, hout⟩ := bind_eq_ok.mp hexcept
    cases hout
    exact ⟨t, ht, .except rfl⟩

theorem forUpTo_asks {f : Nat → FdSet → Result FdSet} {n : Nat} {out : FdSets}
    {ready : Nat → Bool} {s : FdSet} (hasks : sets.Asks answer ready s)
    (h : forUpTo (fun i => FdSets.each (f i)) n sets = .ok out) :
    ∃ t, forUpTo f n s = .ok t ∧ out.Asks answer ready t := by
  induction n generalizing out with
  | zero =>
    cases h
    exact ⟨s, rfl, hasks⟩
  | succ n ih =>
    rw [forUpTo_succ] at h
    obtain ⟨mid, hmid, hlast⟩ := bind_eq_ok.mp h
    obtain ⟨u, hu, hmidAsks⟩ := ih hmid
    obtain ⟨t, ht, hout⟩ := FdSets.asks_of_each hmidAsks hlast
    exact ⟨t, by rw [forUpTo_succ, hu, ok_bind, ht], hout⟩

theorem upTo_mapWith (g : Nat → FdSet → FdSet) (n : Nat) :
    upTo (fun i sets => FdSets.mapWith (fun _ => g i) answer sets) n sets =
      sets.mapWith (fun _ => upTo g n) answer := by
  induction n with
  | zero => exact FdSets.mapWith_id.symm
  | succ n ih =>
    rw [upTo, ih, FdSets.mapWith_mapWith]
    rfl

theorem forUpTo_each {src dst : Nat → Nat} {n : Nat}
    (hlt : ∀ i < n, src i < size ∧ dst i < size) (answer : SelectAnswer) (sets : FdSets) :
    forUpTo (fun i => FdSets.each (copyBit size (src i) (dst i))) n sets =
      .ok (sets.mapWith (fun _ => upTo (fun i => copied (src i) (dst i)) n) answer) := by
  rw [← upTo_mapWith (fun i => copied (src i) (dst i)) n]
  apply forUpTo_eq
  intro i hi s
  exact FdSets.each_eq (copyBit_eq (hlt i hi).1 (hlt i hi).2) answer s

/-- The way in, and what the real `select` makes of it. -/
theorem wrapLwipSelect_in (hsize : maxfdp1 ≤ size) :
    wrapLwipSelect size answer maxfdp1 sets =
      (forUpTo (fun i => FdSets.each (copyBit size i (socketToFd (vfsOf maxfdp1) i))) 15
        (sets.mapWith (fun ready s => readyOf ready
          (upTo (fun i => copied i (fdToSocket i)) maxfdp1 s)) answer)) >>=
        fun out => pure (answer.ret, out) := by
  have hlt (i : Nat) (hi : i < maxfdp1) : i < size ∧ fdToSocket i < size := by
    rw [fdToSocket_eq]
    omega
  unfold wrapLwipSelect
  rw [forUpTo_each hlt answer sets, ok_bind]
  exact congrArg (fun s => forUpTo _ 15 s >>= fun out => pure (answer.ret, out))
    (FdSets.mapWith_mapWith (fun _ => upTo (fun i => copied i (fdToSocket i)) maxfdp1) readyOf)

theorem wrapLwipSelect_eq (hsize : maxfdp1 ≤ size) (hvfs : vfsOf maxfdp1 + 15 ≤ size) :
    wrapLwipSelect size answer maxfdp1 sets =
      .ok (answer.ret, sets.mapWith (fun ready => selected ready maxfdp1) answer) := by
  have hlt (i : Nat) (hi : i < 15) : i < size ∧ socketToFd (vfsOf maxfdp1) i < size := by
    rw [vfsOf_eq] at hvfs ⊢
    rw [socketToFd_eq _ (by omega)]
    omega
  rw [wrapLwipSelect_in hsize, forUpTo_each hlt answer, FdSets.mapWith_mapWith, ok_bind]
  unfold selected
  rfl

/-- The last access of the way back is in the sets. -/
theorem wrapLwipSelect_lt {r : Int × FdSets} {ready : Nat → Bool} {s : FdSet}
    (hsize : maxfdp1 ≤ size) (hasks : sets.Asks answer ready s)
    (h : wrapLwipSelect size answer maxfdp1 sets = .ok r) : vfsOf maxfdp1 + 15 ≤ size := by
  rw [wrapLwipSelect_in hsize] at h
  obtain ⟨out, hback, -⟩ := bind_eq_ok.mp h
  obtain ⟨t, hloop, -⟩ := forUpTo_asks (FdSets.asks_mapWith hasks) hback
  rw [forUpTo_succ] at hloop
  obtain ⟨u, -, hlast⟩ := bind_eq_ok.mp hloop
  have hdst := copyBit_lt hlast
  rw [vfsOf_eq, socketToFd_eq _ (by omega), ← vfsOf_eq] at hdst
  omega

/-- `select` gives back the descriptors that the real one reports, and no other, if and only if
    no set of the call has one whose socket is ready, or the descriptors are the bare numbers
    below 15. -/
theorem wrapLwipSelect_right (hsets : SocketSets k maxfdp1 answer sets)
    (hsize : maxfdp1 ≤ size) :
    wrapLwipSelect size answer maxfdp1 sets =
        .ok (answer.ret, sets.mapWith reported answer) ↔
      vfsOf maxfdp1 + 15 ≤ size ∧ (k = 0 ∧ maxfdp1 ≤ 15 ∨
        ∀ ready s, sets.Asks answer ready s → ∀ fd ∈ s, fdToSocket fd < 15 →
          ready (fdToSocket fd) ≠ true) := by
  obtain ⟨ready₀, s₀, hasks₀, fd, hfd, hlargest⟩ := hsets.largest
  have hmax : (maxfdp1 - 1) / 16 = k := by
    have hdiv := (hsets.sockets ready₀ s₀ hasks₀ fd hfd).1
    rw [← hlargest, Nat.add_sub_cancel, hdiv]
  have hpos : 0 < maxfdp1 := by omega
  by_cases hvfs : vfsOf maxfdp1 + 15 ≤ size
  · have hset (ready : Nat → Bool) (s : FdSet) (hasks : sets.Asks answer ready s) :
        selected ready maxfdp1 s = reported ready s ↔
          (k = 0 ∧ maxfdp1 ≤ 15) ∨ reported ready s = ∅ :=
      selected_eq_reported (hsets.sockets ready s hasks) hmax hpos
    rw [wrapLwipSelect_eq hsize hvfs, Except.ok.injEq, Prod.mk.injEq, FdSets.mapWith_eq_mapWith]
    simp only [fdToSocket_eq]
    constructor
    · rintro ⟨-, hall⟩
      refine ⟨hvfs, ?_⟩
      by_cases hbare : k = 0 ∧ maxfdp1 ≤ 15
      · exact .inl hbare
      · right
        intro ready s hasks
        rw [← reported_eq_empty]
        exact ((hset ready s hasks).mp (hall ready s hasks)).resolve_left hbare
    · rintro ⟨-, hcond⟩
      refine ⟨trivial, fun ready s hasks => (hset ready s hasks).mpr ?_⟩
      rw [reported_eq_empty]
      exact hcond.imp_right fun hnone => hnone ready s hasks
  · constructor
    · intro heq
      exact absurd (wrapLwipSelect_lt hsize hasks₀ heq) hvfs
    · rintro ⟨hle, -⟩
      exact absurd hle hvfs

/-- One socket of the first file system, asked for reading, and not ready. -/
theorem wrapLwipSelect_right_idle :
    wrapLwipSelect 64 ⟨0, fun _ => false, fun _ => false, fun _ => false⟩ 17
        ⟨some {16}, none, none⟩ =
      .ok (0, FdSets.mapWith reported ⟨0, fun _ => false, fun _ => false, fun _ => false⟩
        ⟨some {16}, none, none⟩) := by
  apply (wrapLwipSelect_right (k := 1) ⟨?_, ?_⟩ (by decide)).mpr
  · refine ⟨by decide, .inr ?_⟩
    intro ready s hasks fd hfd hlt
    cases hasks <;> simp
  · intro ready s hasks
    cases hasks with
    | read h =>
      cases h
      intro fd hfd
      rw [Finset.mem_singleton.mp hfd]
      decide
    | write h => cases h
    | except h => cases h
  · exact ⟨_, _, .read rfl, 16, Finset.mem_singleton_self 16, rfl⟩

/-- The same socket, ready: the set comes back with its bare number as well. -/
theorem low_number_left :
    ¬ wrapLwipSelect 64 ⟨1, fun _ => true, fun _ => false, fun _ => false⟩ 17
        ⟨some {16}, none, none⟩ =
      .ok (1, FdSets.mapWith reported ⟨1, fun _ => true, fun _ => false, fun _ => false⟩
        ⟨some {16}, none, none⟩) := by
  decide

end Call

end LuaRtos.Net
