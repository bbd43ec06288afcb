/-
  LuaRtos.Drivers.NeopixelSetup

  The units that `neopixel_setup` makes, with the blocks that it clears.

  A setup that fails may leave its unit of nzr.c behind; the units of neopixel.c and their blocks
  are as they were.
-/

import LuaRtos.Drivers.Neopixel

namespace LuaRtos.Driver

open LuaRtos.CLib LuaRtos.Sys

/-- The units after setups alone: `calloc` has cleared the blocks. -/
def Strips.calloced (p : Pixels) : Strips :=
  ⟨p.nzr, p.neopixel, p.pixels.map (Option.map fun size => List.replicate size 0)⟩

/-- The lists are sound, and every unit has a block of its own with three bytes a pixel. -/
structure SetUp (p : Pixels) : Prop where
  nzr : ∃ m, Refines p.nzr.list m
  neopixel : ∃ m, Refines p.neopixel.list m ∧
    (∀ unit b, m.lookup unit = some b → ∃ inst, p.neopixel.blocks[b]? = some (some inst) ∧
      p.pixels[inst.pixels]? = some (some (3 * inst.npixels).toNat)) ∧
    ∀ unit b inst unit' b' inst', m.lookup unit = some b → m.lookup unit' = some b' →
      p.neopixel.blocks[b]? = some (some inst) → p.neopixel.blocks[b']? = some (some inst') →
      unit ≠ unit' → inst.pixels ≠ inst'.pixels

section Setup

variable {sd1bit : Bool} {ws2812b : NzrTiming} {s s' : Pixels} {env : NzrEnv} {timing : NzrTiming}
variable {gpio : UInt8} {e : Option Nat} {u : Option Int} {m : ListMap Nat}

theorem setUp_start : SetUp .start := by
  refine ⟨⟨∅, refines_init 0⟩, ∅, refines_init 0, ?_, ?_⟩
  · intro unit b h
    cases h
  · intro unit b inst unit' b' inst' h
    cases h

/-- An item that is found is that of the map. -/
theorem Units.get_eq_ok {α : Type} {units : Units α} {unit : Int} {x : α}
    (href : Refines units.list m) (h : units.get unit = .ok (some x)) :
    ∃ b, m.lookup unit = some b ∧ units.blocks[b]? = some (some x) := by
  obtain ⟨⟨ret, block⟩, hget, h⟩ := bind_eq_ok.mp h
  have heq := listGet_eq_ok href hget
  cases hm : m.lookup unit with
  | none =>
    rw [hm] at heq
    cases heq
    cases h
  | some b =>
    rw [hm] at heq
    cases heq
    obtain ⟨item, hread, h⟩ := bind_eq_ok.mp h
    cases h
    exact ⟨b, rfl, Heap.read_eq_ok.mp hread⟩

/-- The units of a sound state are as the theorem on the calls asks. -/
theorem SetUp.fresh (h : SetUp s) : Fresh (.calloced s) := by
  obtain ⟨-, m, href, hblock, hown⟩ := h
  refine ⟨?_, ?_⟩
  · intro unit inst out hlive
    obtain ⟨b, hb, hinst⟩ := Units.get_eq_ok href hlive.got
    obtain ⟨inst', hinst', hsize⟩ := hblock unit b hb
    obtain rfl : inst' = inst := by
      have hinst₀ : s.neopixel.blocks[b]? = some (some inst) := hinst
      rw [hinst'] at hinst₀
      exact Option.some.inj (Option.some.inj hinst₀)
    rw [Heap.read_eq_ok]
    show (s.pixels.map _)[inst'.pixels]? = _
    rw [List.getElem?_map, hsize]
    rfl
  · intro unit inst out unit' inst' out' hlive hlive' hne
    obtain ⟨b, hb, hinst⟩ := Units.get_eq_ok href hlive.got
    obtain ⟨b', hb', hinst'⟩ := Units.get_eq_ok href hlive'.got
    exact hown unit b inst unit' b' inst' hb hb' hinst hinst' hne

/-- `nzr_setup` keeps its list sound, and the units of neopixel.c. -/
theorem nzrSetup_keeps (href : Refines s.nzr.list m) (hadd : AddCond s.nzr.list env.index)
    (hrun : nzrSetup sd1bit s env timing gpio = .ok (e, u, s')) :
    (∃ m', Refines s'.nzr.list m') ∧ s'.neopixel = s.neopixel ∧ s'.pixels = s.pixels := by
  unfold nzrSetup at hrun
  by_cases hblock : env.block = false
  · rw [if_pos hblock] at hrun
    cases hrun
    exact ⟨⟨m, href⟩, rfl, rfl⟩
  · rw [if_neg hblock] at hrun
    obtain ⟨l', hok, hfresh, hins⟩ := Units.add_ok (x := fun _ => (⟨gpio, timing⟩ : NzrInstance))
      href hadd
    rw [hok, ok_bind] at hrun
    obtain ⟨⟨lockError, drv⟩, -, hrun⟩ := bind_eq_ok.mp hrun
    cases lockError with
    | none =>
      cases hrun
      exact ⟨⟨_, hins⟩, rfl, rfl⟩
    | some p =>
      obtain ⟨nzr, hrem, hrun⟩ := bind_eq_ok.mp hrun
      obtain ⟨⟨error, drv'⟩, -, hrun⟩ := bind_eq_ok.mp hrun
      cases hrun
      obtain ⟨u', hsame, -, hrem'⟩ := Units.remove_added href hfresh hins
      have heq : Units.remove ⟨l', s.nzr.blocks.alloc ⟨gpio, timing⟩⟩ (nextHandle s.nzr.list) =
          .ok nzr := hrem
      rw [hrem'] at heq
      obtain rfl := Except.ok.inj heq
      exact ⟨⟨m, hsame.list m href⟩, rfl, rfl⟩

/-- A new unit with a new block. -/
theorem SetUp.add {units : Units NeopixelInstance} {index : Option (Nat → ListIndex Nat)}
    {unit : Option Int} {npixels : UInt32} (h : SetUp s) (s' : Pixels)
    (hnzr : ∃ m, Refines s'.nzr.list m) (hadd : AddCond s.neopixel.list index)
    (hok : s.neopixel.add index (fun _ => ⟨u, s.pixels.length, npixels⟩) = .ok (unit, units))
    (hunits : s'.neopixel = units) (hpixels : s'.pixels = s.pixels.alloc (3 * npixels).toNat) :
    unit ≠ none ∧ SetUp s' := by
  obtain ⟨-, m, href, hblock, hown⟩ := h
  obtain ⟨l', hok', hfresh, hins⟩ := Units.add_ok
    (x := fun _ => (⟨u, s.pixels.length, npixels⟩ : NeopixelInstance)) href hadd
  rw [hok] at hok'
  obtain ⟨rfl, rfl⟩ := Prod.mk.inj (Except.ok.inj hok')
  have hold : ∀ k b, m.lookup k = some b → b < s.neopixel.blocks.length := by
    intro k b hb
    obtain ⟨inst, hinst, -⟩ := hblock k b hb
    exact (List.getElem?_eq_some_iff.mp hinst).1
  -- a unit of the new map is the new one, or an old one in an old block
  have hcases : ∀ k b inst, (m.insert (nextHandle s.neopixel.list)
      s.neopixel.blocks.length).lookup k = some b →
      (s.neopixel.blocks.alloc ⟨u, s.pixels.length, npixels⟩)[b]? = some (some inst) →
      k = nextHandle s.neopixel.list ∧ inst = ⟨u, s.pixels.length, npixels⟩ ∨
        m.lookup k = some b ∧ s.neopixel.blocks[b]? = some (some inst) ∧
          inst.pixels < s.pixels.length := by
    intro k b inst hb hinst
    by_cases hk : k = nextHandle s.neopixel.list
    · rw [hk, Finmap.lookup_insert] at hb
      obtain rfl := Option.some.inj hb
      rw [Heap.getElem?_alloc_self] at hinst
      exact .inl ⟨hk, (Option.some.inj (Option.some.inj hinst)).symm⟩
    · rw [Finmap.lookup_insert_of_ne _ hk] at hb
      rw [Heap.getElem?_alloc_of_lt (hold k b hb)] at hinst
      obtain ⟨inst', hinst', hsize⟩ := hblock k b hb
      rw [hinst] at hinst'
      obtain rfl := Option.some.inj (Option.some.inj hinst')
      exact .inr ⟨hb, hinst, (List.getElem?_eq_some_iff.mp hsize).1⟩
  refine ⟨Option.some_ne_none _, hnzr, _, by rw [hunits]; exact hins, ?_, ?_⟩
  · intro k b hb
    rw [hunits, hpixels]
    dsimp only
    by_cases hk : k = nextHandle s.neopixel.list
    · rw [hk, Finmap.lookup_insert] at hb
      obtain rfl := Option.some.inj hb
      exact ⟨_, Heap.getElem?_alloc_self, Heap.getElem?_alloc_self⟩
    · rw [Finmap.lookup_insert_of_ne _ hk] at hb
      obtain ⟨inst, hinst, hsize⟩ := hblock k b hb
      refine ⟨inst, ?_, ?_⟩
      · rw [Heap.getElem?_alloc_of_lt (hold k b hb)]
        exact hinst
      · rw [Heap.getElem?_alloc_of_lt (List.getElem?_eq_some_iff.mp hsize).1]
        exact hsize
  · intro k b inst k' b' inst' hb hb' hinst hinst' hne
    rw [hunits] at hinst hinst'
    rcases hcases k b inst hb hinst with ⟨hk, rfl⟩ | ⟨hb, hinst, hlt⟩
    · rcases hcases k' b' inst' hb' hinst' with ⟨hk', rfl⟩ | ⟨-, -, hlt'⟩
      · exact absurd (hk.trans hk'.symm) hne
      · exact (Nat.ne_of_lt hlt').symm
    · rcases hcases k' b' inst' hb' hinst' with ⟨-, rfl⟩ | ⟨hb', hinst', -⟩
      · exact Nat.ne_of_lt hlt
      · exact hown k b inst k' b' inst' hb hb' hinst hinst' hne

/-- A setup for whose lists there is memory keeps the units sound, whatever else fails. -/
theorem neopixelSetup_keeps {env : NeopixelEnv} {controller : Nat} {pixels : UInt32}
    (h : SetUp s) (hnzr : AddCond s.nzr.list env.nzr.index)
    (hneopixel : AddCond s.neopixel.list env.index)
    (hrun : neopixelSetup sd1bit ws2812b s env controller gpio pixels = .ok (e, s')) :
    SetUp s' := by
  obtain ⟨m, href⟩ := h.nzr
  unfold neopixelSetup at hrun
  dsimp only at hrun
  split at hrun
  · cases hrun
    exact ⟨h.nzr, h.neopixel⟩
  · obtain ⟨timing, -, hrun⟩ := bind_eq_ok.mp hrun
    obtain ⟨⟨error, u, s₁⟩, hsetup, hrun⟩ := bind_eq_ok.mp hrun
    obtain ⟨hnzr₁, hunits₁, hpixels₁⟩ := nzrSetup_keeps href hnzr hsetup
    have h₁ : SetUp s₁ := by
      refine ⟨hnzr₁, ?_⟩
      rw [hunits₁, hpixels₁]
      exact h.neopixel
    dsimp only at hrun
    cases error with
    | some p =>
      cases hrun
      exact h₁
    | none =>
      dsimp only at hrun
      split at hrun
      · cases hrun
        exact ⟨h₁.nzr, h₁.neopixel⟩
      · split at hrun
        · cases hrun
          exact ⟨h₁.nzr, h₁.neopixel⟩
        · obtain ⟨⟨unit, units⟩, hadd, hrun⟩ := bind_eq_ok.mp hrun
          have hcond : AddCond s₁.neopixel.list env.index := by
            rw [hunits₁]
            exact hneopixel
          obtain ⟨hsome, hset⟩ := h₁.add
            { s₁ with neopixel := units, pixels := s₁.pixels.alloc (3 * pixels).toNat }
            hnzr₁ hcond hadd rfl rfl
          cases unit with
          | none => exact absurd rfl hsome
          | some unit =>
            cases hrun
            exact hset

end Setup

/-! ## A strip -/

def freshIndex : Option (Nat → ListIndex Nat) := some fun _ => ⟨0, 0, 0, none⟩

/-- There is memory for everything. -/
def roomy : NeopixelEnv := ⟨⟨true, freshIndex, none⟩, true, true, freshIndex⟩

def shortTimings : NzrTiming := ⟨84, 216, 216, 84, 12000⟩

/-- The strip of a setup with so many pixels on pin 5. -/
def strip (pixels : UInt32) : Result Pixels := do
  let (_, p) ← neopixelSetup false shortTimings .start roomy 0 5 pixels
  pure p

theorem strip_setUp {pixels : UInt32} {p : Pixels} (h : strip pixels = .ok p) : SetUp p := by
  obtain ⟨⟨e, p'⟩, hrun, h⟩ := bind_eq_ok.mp h
  obtain rfl := Except.ok.inj h
  refine neopixelSetup_keeps setUp_start (.inr ⟨rfl, ?_⟩) (.inr ⟨rfl, ?_⟩) hrun
  · decide
  · decide

/-- The unit of three pixels. -/
theorem strip_three : ∃ p, strip 3 = .ok p ∧
    LiveUnit (.calloced p) 0 ⟨some 0, 0, 3⟩ ⟨5, shortTimings⟩ :=
  ⟨_, rfl, rfl, 0, rfl, rfl⟩

/-- A call for the second pixel, and one for a pixel that is not there. -/
def twoCalls : List RgbCall := [⟨0, 1, 10, 20, 30, true⟩, ⟨0, 7, 1, 2, 3, true⟩]

theorem neopixel_right_iff_two : ∃ p, strip 3 = .ok p ∧
    (CallsRight (.calloced p) [] twoCalls ↔ CallsMeet (.calloced p) twoCalls) := by
  obtain ⟨p, hp, hlive⟩ := strip_three
  refine ⟨p, hp, neopixel_right_iff _ (strip_setUp hp).fresh twoCalls ?_⟩
  intro c hc
  have hunit : c.unit = 0 := by
    rcases List.mem_cons.mp hc with rfl | hc
    · rfl
    · rw [List.mem_singleton.mp hc]
  rw [hunit]
  exact ⟨_, _, hlive⟩

/-- The pixel after the last one is accepted, and its colour written out of the block. -/
theorem not_callsRight_end : ∃ p, strip 3 = .ok p ∧ Fresh (.calloced p) ∧
    LiveUnit (.calloced p) 0 ⟨some 0, 0, 3⟩ ⟨5, shortTimings⟩ ∧
    ¬ CallsRight (.calloced p) [] [⟨0, 3, 10, 20, 30, true⟩] := by
  obtain ⟨p, hp, hlive⟩ := strip_three
  refine ⟨p, hp, (strip_setUp hp).fresh, hlive, ?_⟩
  intro h
  rcases h.meet.pixel _ (List.mem_singleton_self _) _ _ hlive with hlt | ⟨hlt, -⟩
  · exact absurd hlt (by decide)
  · exact absurd hlt (by decide)

end LuaRtos.Driver
