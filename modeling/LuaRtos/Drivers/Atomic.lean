/-
  LuaRtos.Drivers.Atomic

  What a failed setup leaves behind: of a board, and of the drivers of the pixels.

  `nzr_setup` takes its unit back when the lock on the pin is refused, but not when the
  pin is no output; `neopixel_setup` never takes back its unit of nzr.c.
-/

import LuaRtos.Drivers.Devices
import LuaRtos.Sys.DriverLock

namespace LuaRtos.Driver

open LuaRtos.CLib Sys

/-! ## The board -/

/-- `p` is a new block, and the others are the same. -/
structure Returned {α : Type} (h h' : Heap α) (p : Nat) : Prop where
  fresh : ¬ h.Live p
  live : h'.Live p
  others : ∀ (q : Nat) (x : α), q ≠ p → (h'[q]? = some (some x) ↔ h[q]? = some (some x))

theorem Returned.alloc {α : Type} {h h' : Heap α} {e : α} (hs : SameBlocks h h') :
    Returned h (h'.alloc e) h'.length := by
  refine ⟨?_, ⟨e, Heap.getElem?_alloc_self⟩, ?_⟩
  · rintro ⟨x, hx⟩
    rw [← hs, List.getElem?_eq_none (Nat.le_refl _)] at hx
    cases hx
  · intro q x hq
    rw [Heap.getElem?_alloc_iff, or_iff_left fun h => hq h.1]
    exact hs q x

/-- Another new block is left behind. -/
theorem not_returned {α : Type} {h h' : Heap α} {p q : Nat} (hold : ¬ h.Live q) (hnew : h'.Live q)
    (hne : q ≠ p) : ¬ Returned h h' p := by
  obtain ⟨x, hx⟩ := hnew
  exact fun hr => hold ⟨x, (hr.others q x hne).mp hx⟩

/-- The same units are set up, and the same lock errors are there. -/
structure Board.SameUnits (b b' : Board) : Prop where
  lockErrors : SameBlocks b.drv.lockErrors b'.drv.lockErrors
  i2c : ∀ unit, (b'.i2c unit).setup = (b.i2c unit).setup
  spi : ∀ unit, (b'.spi unit).setup = (b.spi unit).setup
  uart : b'.uart = b.uart
  stepper : b'.stepper = b.stepper

theorem Board.SameUnits.refl (b : Board) : b.SameUnits b :=
  ⟨.refl _, fun _ => rfl, fun _ => rfl, rfl, rfl⟩

theorem Board.SameUnits.trans {b₁ b₂ b₃ : Board} (h : b₁.SameUnits b₂) (h' : b₂.SameUnits b₃) :
    b₁.SameUnits b₃ :=
  ⟨h.lockErrors.trans h'.lockErrors, fun u => (h'.i2c u).trans (h.i2c u),
    fun u => (h'.spi u).trans (h.spi u), h'.uart.trans h.uart, h'.stepper.trans h.stepper⟩

/-- The units do not depend on the tables. -/
theorem Board.SameUnits.ofDrv {b : Board} {drv : DriverState DriverId}
    (h : SameBlocks b.drv.lockErrors drv.lockErrors) : b.SameUnits { b with drv := drv } :=
  ⟨h, fun _ => rfl, fun _ => rfl, rfl, rfl⟩

/-- A failure leaves its driver error, and nothing else. -/
structure Board.FailsWith (b b' : Board) (p : Nat) : Prop where
  error : Returned b.drv.errors b'.drv.errors p
  units : b.SameUnits b'

section Errors

variable {b : Board} {mem : Option (DriverError DriverId)}

/-- A driver error that there is memory for. -/
theorem Board.fail_some (hmem : mem.isSome) (b : Board) (type : ErrorType) (driver : DriverId)
    (exception : Int) (msg : Option String) :
    ∃ b', b.fail (driverError type b.drv mem driver exception msg) =
      (some b.drv.errors.length, b') ∧ b.FailsWith b' b.drv.errors.length := by
  obtain ⟨block, rfl⟩ := Option.isSome_iff_exists.mp hmem
  exact ⟨_, rfl, .alloc (.refl _), .ofDrv (.refl _)⟩

/-- A driver error after other changes of the board. -/
theorem Board.FailsWith.trans {b₁ b₂ b₃ : Board} {p : Nat} (hs : b₁.SameUnits b₂)
    (he : SameBlocks b₁.drv.errors b₂.drv.errors) (h : b₂.FailsWith b₃ p) : b₁.FailsWith b₃ p := by
  refine ⟨⟨?_, h.error.live, ?_⟩, hs.trans h.units⟩
  · rintro ⟨x, hx⟩
    exact h.error.fresh ⟨x, (he p x).mpr hx⟩
  · intro q x hq
    exact (h.error.others q x hq).trans (he q x)

end Errors

section Pins

variable {sd1bit : Bool} {s : DriverState DriverId} {mem : Option (DriverError DriverId)}
  {owner : DriverId} {unit : Int} {pin : Nat}

theorem driverLock_gpio : driverLock (drivers sd1bit) s mem owner unit .gpio pin =
    lockUnit s owner unit .gpio (cpuLastGpio + 1) pin := rfl

/-- A pin that is in no table. -/
theorem lockPin_outside (h : cpuLastGpio < pin) :
    lockUnit s owner unit .gpio (cpuLastGpio + 1) pin = .error .outOfBounds := by
  unfold lockUnit
  rw [if_neg (by omega)]
  rfl

theorem lockPin_granted (h : pin ≤ cpuLastGpio)
    (hgrant : (s.locks .gpio pin).GrantsTo owner unit) :
    ∃ s', lockUnit s owner unit .gpio (cpuLastGpio + 1) pin = .ok (none, s') ∧
      s'.errors = s.errors ∧ s'.lockErrors = s.lockErrors := by
  have hrange : 0 ≤ (pin : Int) ∧ (pin : Int) < (cpuLastGpio + 1 : Nat) := by omega
  obtain ⟨r, s', hlock⟩ := lockUnit_total s owner unit .gpio hrange
  obtain ⟨-, ⟨-, rfl, rfl⟩ | ⟨-, rfl, rfl⟩ | ⟨href, -, -⟩⟩ := lockUnit_cases hlock
  · exact ⟨_, hlock, rfl, rfl⟩
  · exact ⟨_, hlock, rfl, rfl⟩
  · exact absurd hgrant href

theorem lockPin_refused (h : pin ≤ cpuLastGpio)
    (href : (s.locks .gpio pin).RefusedTo owner unit) :
    lockUnit s owner unit .gpio (cpuLastGpio + 1) pin =
      .ok (some s.lockErrors.length, s.revoke owner unit .gpio pin) := by
  have hrange : 0 ≤ (pin : Int) ∧ (pin : Int) < (cpuLastGpio + 1 : Nat) := by omega
  obtain ⟨r, s', hlock⟩ := lockUnit_total s owner unit .gpio hrange
  obtain ⟨-, ⟨hheld, -, -⟩ | ⟨hfree, -, -⟩ | ⟨-, rfl, rfl⟩⟩ := lockUnit_cases hlock
  · exact absurd (.inr hheld) href
  · exact absurd (.inl hfree) href
  · exact hlock

/-- A refused lock becomes a driver error. -/
theorem driverLockError_revoke (hmem : mem.isSome) (s : DriverState DriverId) (owner : DriverId)
    (unit : Int) (target : DriverId) (targetUnit : Int) :
    ∃ s', driverLockError (s.revoke owner unit target targetUnit) mem s.lockErrors.length =
        .ok (some s.errors.length, s') ∧
      SameBlocks s.lockErrors s'.lockErrors ∧ Returned s.errors s'.errors s.errors.length := by
  obtain ⟨block, rfl⟩ := Option.isSome_iff_exists.mp hmem
  unfold driverLockError DriverState.revoke
  simp only [Heap.free_alloc]
  exact ⟨_, rfl, .freed _, .alloc (.refl _)⟩

end Pins

/-! ## The pixels -/

/-- The drivers of the pixels are as they were, but for the driver error. -/
structure Pixels.FailsWith (s s' : Pixels) (p : Nat) : Prop where
  board : s.board.FailsWith s'.board p
  nzr : s.nzr.Same s'.nzr
  neopixel : s.neopixel.Same s'.neopixel
  pixels : SameBlocks s.pixels s'.pixels

/-- A step of `nzr_setup` fails. -/
def NzrFails (s : Pixels) (env : NzrEnv) (gpio : UInt8) : Prop :=
  env.block = false ∨ ¬ AddCond s.nzr.list env.index ∨
    (s.board.drv.locks .gpio gpio.toNat).RefusedTo .nzr (nextHandle s.nzr.list) ∨
      gpioAllOut.testBit gpio.toNat = false

/-- The steps that `nzr_setup` cleans up after: the first allocation, and the lock. -/
def NzrCleans (s : Pixels) (env : NzrEnv) (gpio : UInt8) : Prop :=
  env.block = false ∨ AddCond s.nzr.list env.index ∧ gpio.toNat ≤ cpuLastGpio ∧
    (s.board.drv.locks .gpio gpio.toNat).RefusedTo .nzr (nextHandle s.nzr.list)

/-- A step of `neopixel_setup` fails. -/
def NeopixelFails (s : Pixels) (env : NeopixelEnv) (controller : Nat) (gpio : UInt8) : Prop :=
  1 < controller ∨ NzrFails s env.nzr gpio ∨ env.block = false ∨ env.pixels = false ∨
    ¬ AddCond s.neopixel.list env.index

/-- The steps that `neopixel_setup` cleans up after: its check, and those of nzr.c. -/
def NeopixelCleans (s : Pixels) (env : NeopixelEnv) (controller : Nat) (gpio : UInt8) : Prop :=
  1 < controller ∨ controller = 0 ∧ NzrCleans s env.nzr gpio

/-- A failure of `nzr_setup` is reported, and leaves nothing else. -/
def NzrAtomic (sd1bit : Bool) (s : Pixels) (env : NzrEnv) (timing : NzrTiming) (gpio : UInt8) :
    Prop :=
  NzrFails s env gpio → ∃ p u s', nzrSetup sd1bit s env timing gpio = .ok (some p, u, s') ∧
    s.FailsWith s' p

/-- A failure of `neopixel_setup` is reported, and leaves nothing else. -/
def NeopixelAtomic (sd1bit : Bool) (ws2812b : NzrTiming) (s : Pixels) (env : NeopixelEnv)
    (controller : Nat) (gpio : UInt8) (pixels : UInt32) : Prop :=
  NeopixelFails s env controller gpio → ∃ p s',
    neopixelSetup sd1bit ws2812b s env controller gpio pixels = .ok (some p, s') ∧ s.FailsWith s' p

section Pixels

variable {sd1bit : Bool} {s : Pixels} {env : NzrEnv} {timing : NzrTiming} {gpio : UInt8}
  {m : ListMap Nat}

/-- `nzr_setup` cleans up after the step that fails. -/
theorem nzrSetup_cleans (sd1bit : Bool) (timing : NzrTiming) (h : Refines s.nzr.list m)
    (hmem : env.error.isSome)
    (hclean : NzrCleans s env gpio) :
    ∃ p u s', nzrSetup sd1bit s env timing gpio = .ok (some p, u, s') ∧ s.FailsWith s' p := by
  unfold nzrSetup
  by_cases hblock : env.block = false
  · obtain ⟨b', hfail, hb⟩ := Board.fail_some hmem s.board .operation .nzr
      nzrErrNotEnoughMemory none
    refine ⟨_, none, { s with board := b' }, ?_, hb, .refl _, .refl _, .refl _⟩
    rw [if_pos hblock]
    unfold Pixels.fail
    rw [hfail]
    rfl
  · obtain ⟨hadd, hpin, href⟩ := hclean.resolve_left hblock
    obtain ⟨l', hok, hfresh, hins⟩ := Units.add_ok (x := fun _ => (⟨gpio, timing⟩ : NzrInstance))
      h hadd
    obtain ⟨u', hsame, -, hrem⟩ := Units.remove_added h hfresh hins
    obtain ⟨drv, herror, hlocks, hreturned⟩ := driverLockError_revoke hmem s.board.drv .nzr
      (nextHandle s.nzr.list) .gpio gpio.toNat
    refine ⟨_, some (nextHandle s.nzr.list),
      { s with nzr := u', board := { s.board with drv := drv } }, ?_, ⟨hreturned, .ofDrv hlocks⟩,
      hsame, .refl _, .refl _⟩
    rw [if_neg hblock, hok]
    simp only [ok_bind, driverLock_gpio, lockPin_refused hpin href, hrem, herror]
    rfl

/-- After any other step there is a unit more, or a list that has lost its count. -/
theorem nzrSetup_leaves (h : Refines s.nzr.list m) (hclean : ¬ NzrCleans s env gpio)
    {e : Option Nat} {u : Option Int} {s' : Pixels}
    (hrun : nzrSetup sd1bit s env timing gpio = .ok (e, u, s')) : ¬ s.nzr.Same s'.nzr := by
  obtain ⟨hblock, hclean⟩ := not_or.mp hclean
  unfold nzrSetup at hrun
  rw [if_neg hblock] at hrun
  by_cases hadd : AddCond s.nzr.list env.index
  · obtain ⟨l', hok, -, -⟩ := Units.add_ok (x := fun _ => (⟨gpio, timing⟩ : NzrInstance)) h hadd
    simp only [hok, ok_bind, driverLock_gpio] at hrun
    by_cases hpin : gpio.toNat ≤ cpuLastGpio
    · have hgrant : (s.board.drv.locks .gpio gpio.toNat).GrantsTo .nzr (nextHandle s.nzr.list) := by
        by_contra href
        exact hclean ⟨hadd, hpin, href⟩
      obtain ⟨drv, hlock, -, -⟩ := lockPin_granted hpin hgrant
      rw [hlock] at hrun
      cases hrun
      exact fun hsame => not_sameBlocks_alloc hsame.blocks
    · rw [lockPin_outside (by omega)] at hrun
      cases hrun
  · obtain ⟨f, hf⟩ | ⟨u', hu, hnot⟩ := Units.add_fails
      (x := fun _ => (⟨gpio, timing⟩ : NzrInstance)) h hadd
    · rw [hf] at hrun
      cases hrun
    · rw [hu] at hrun
      cases hrun
      exact hnot

/-- Without memory for a driver error there is none. -/
theorem nzrSetup_without_memory (hmem : env.error = none) {e : Option Nat} {u : Option Int}
    {s' : Pixels} (hrun : nzrSetup sd1bit s env timing gpio = .ok (e, u, s')) : e = none := by
  unfold nzrSetup at hrun
  rw [hmem] at hrun
  by_cases hblock : env.block = false
  · rw [if_pos hblock] at hrun
    cases hrun
    rfl
  · rw [if_neg hblock] at hrun
    obtain ⟨⟨unit, nzr⟩, -, hrun⟩ := bind_eq_ok.mp hrun
    cases unit with
    | none =>
      cases hrun
      rfl
    | some unit =>
      obtain ⟨⟨lockError, drv⟩, hlock, hrun⟩ := bind_eq_ok.mp hrun
      cases lockError with
      | none =>
        obtain ⟨rfl, -, -⟩ : (gpioPinOutput _ none _).1 = e ∧ _ := by simpa using hrun
        unfold gpioPinOutput
        split
        · rfl
        · rfl
      | some q =>
        obtain ⟨nzr', -, hrun⟩ := bind_eq_ok.mp hrun
        obtain ⟨⟨error, drv'⟩, herror, hrun⟩ := bind_eq_ok.mp hrun
        obtain ⟨-, -, ⟨-, rfl, -⟩ | ⟨block, hblock, -⟩⟩ := driverLockError_cases herror
        · cases hrun
          rfl
        · cases hblock

/-- `nzr_setup` is atomic exactly when the step that fails is the allocation of the unit,
    or the lock on a pin that there is, and there is memory for the error. -/
theorem nzrSetup_atomic_iff (h : Refines s.nzr.list m) :
    NzrAtomic sd1bit s env timing gpio ↔
      (NzrFails s env gpio → env.error.isSome ∧ NzrCleans s env gpio) := by
  refine forall_congr' fun _ => ⟨?_, ?_⟩
  · rintro ⟨p, u, s', hrun, hsame⟩
    refine ⟨?_, ?_⟩
    · rw [Option.isSome_iff_ne_none]
      intro hmem
      cases nzrSetup_without_memory hmem hrun
    · by_contra hclean
      exact nzrSetup_leaves h hclean hrun hsame.nzr
  · rintro ⟨hmem, hclean⟩
    exact nzrSetup_cleans sd1bit timing h hmem hclean

end Pixels

section Neopixel

variable {sd1bit : Bool} {ws2812b : NzrTiming} {s : Pixels} {env : NeopixelEnv} {controller : Nat}
  {gpio : UInt8} {pixels : UInt32} {m : ListMap Nat}

/-- Without memory for a driver error there is none. -/
theorem neopixelSetup_without_memory (hmem : env.nzr.error = none) {e : Option Nat} {s' : Pixels}
    (hrun : neopixelSetup sd1bit ws2812b s env controller gpio pixels = .ok (e, s')) :
    e = none := by
  unfold neopixelSetup at hrun
  rw [hmem] at hrun
  by_cases hcontroller : 1 < controller
  · rw [if_pos hcontroller] at hrun
    cases hrun
    rfl
  · rw [if_neg hcontroller] at hrun
    obtain ⟨timing, -, hrun⟩ := bind_eq_ok.mp hrun
    obtain ⟨⟨error, u, s₁⟩, hnzr, hrun⟩ := bind_eq_ok.mp hrun
    obtain rfl := nzrSetup_without_memory hmem hnzr
    by_cases hblock : env.block = false
    · simp only [if_pos hblock] at hrun
      cases hrun
      rfl
    · simp only [if_neg hblock] at hrun
      by_cases hpixels : env.pixels = false
      · simp only [if_pos hpixels] at hrun
        cases hrun
        rfl
      · simp only [if_neg hpixels] at hrun
        obtain ⟨⟨unit, neopixel⟩, -, hrun⟩ := bind_eq_ok.mp hrun
        cases unit with
        | some unit =>
          cases hrun
          rfl
        | none =>
          obtain ⟨freed, -, hrun⟩ := bind_eq_ok.mp hrun
          cases hrun
          rfl

/-- The unit of nzr.c stays. -/
theorem neopixelSetup_leaves (h : Refines s.nzr.list m)
    (hclean : ¬ NeopixelCleans s env controller gpio) {e : Option Nat} {s' : Pixels}
    (hrun : neopixelSetup sd1bit ws2812b s env controller gpio pixels = .ok (e, s')) :
    ¬ s.nzr.Same s'.nzr := by
  obtain ⟨hcontroller, hclean⟩ := not_or.mp hclean
  unfold neopixelSetup at hrun
  rw [if_neg hcontroller] at hrun
  obtain ⟨timing, hchip, hrun⟩ := bind_eq_ok.mp hrun
  have hzero : controller = 0 := by
    unfold chipset at hchip
    by_contra hne
    rw [if_neg hne] at hchip
    cases hchip
  obtain ⟨⟨error, u, s₁⟩, hnzr, hrun⟩ := bind_eq_ok.mp hrun
  have hleaves : ¬ s.nzr.Same s₁.nzr :=
    nzrSetup_leaves h (fun hc => hclean ⟨hzero, hc⟩) hnzr
  -- no later step writes the list of nzr.c
  have hkeeps : s'.nzr = s₁.nzr := by
    cases error with
    | some p =>
      cases hrun
      rfl
    | none =>
      by_cases hblock : env.block = false
      · simp only [if_pos hblock] at hrun
        cases hrun
        rfl
      · simp only [if_neg hblock] at hrun
        by_cases hpixels : env.pixels = false
        · simp only [if_pos hpixels] at hrun
          cases hrun
          rfl
        · simp only [if_neg hpixels] at hrun
          obtain ⟨⟨unit, neopixel⟩, -, hrun⟩ := bind_eq_ok.mp hrun
          cases unit with
          | some unit =>
            cases hrun
            rfl
          | none =>
            obtain ⟨freed, -, hrun⟩ := bind_eq_ok.mp hrun
            cases hrun
            rfl
  rwa [hkeeps]

/-- `neopixel_setup` is atomic exactly when the step that fails is its check, or one that
    nzr.c cleans up after, and there is memory for the error. -/
theorem neopixelSetup_atomic_iff (h : Refines s.nzr.list m) :
    NeopixelAtomic sd1bit ws2812b s env controller gpio pixels ↔
      (NeopixelFails s env controller gpio →
        env.nzr.error.isSome ∧ NeopixelCleans s env controller gpio) := by
  refine forall_congr' fun _ => ⟨?_, ?_⟩
  · rintro ⟨p, s', hrun, hsame⟩
    refine ⟨?_, ?_⟩
    · rw [Option.isSome_iff_ne_none]
      intro hmem
      cases neopixelSetup_without_memory hmem hrun
    · by_contra hclean
      exact neopixelSetup_leaves h hclean hrun hsame.nzr
  · rintro ⟨hmem, hcontroller | ⟨rfl, hclean⟩⟩
    · obtain ⟨b', hfail, hb⟩ := Board.fail_some hmem s.board .operation .neopixel
        neopixelErrInvalidController none
      refine ⟨_, { s with board := b' }, ?_, hb, .refl _, .refl _, .refl _⟩
      unfold neopixelSetup Pixels.fail
      rw [if_pos hcontroller, hfail]
      rfl
    · obtain ⟨p, u, s', hnzr, hsame⟩ := nzrSetup_cleans sd1bit ws2812b h hmem hclean
      refine ⟨p, s', ?_, hsame⟩
      unfold neopixelSetup chipset
      rw [if_neg (by omega), if_pos rfl]
      simp only [pure_bind, ok_bind, hnzr]
      rfl

end Neopixel

end LuaRtos.Driver
