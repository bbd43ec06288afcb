/-
  LuaRtos.Spiffs.Flash

  The low level access of esp_spiffs.c: reads and writes of any address and size
  through a flash driver that takes words only.

  The driver is not part of the repository.  It is a parameter, with what it
  documents of accesses to whole words inside the flash; the model makes any
  other access a fault.  What the functions are for is the flash as SPIFFS sees
  it, where bytes are read and programmed one by one.
-/

import LuaRtos.CLib.Mem
import LuaRtos.Spiffs.Name

namespace LuaRtos.Spiffs

open CLib

def SPIFFS_ERR_INTERNAL : Int := -10050

/-! ## The driver -/

/-- `spi_flash_read` and `spi_flash_write` on a flash with the given bytes: the
    code that they answer with, and what they leave in the buffer or the flash. -/
structure SpiFlash where
  read : List Byte → Nat → Nat → Int × List Byte
  write : List Byte → Nat → List Byte → Int × List Byte

/-- Whole words inside the flash. -/
def Words (flash : List Byte) (addr size : Nat) : Prop :=
  4 ∣ addr ∧ 4 ∣ size ∧ addr + size ≤ flash.length

instance (flash : List Byte) (addr size : Nat) : Decidable (Words flash addr size) :=
  inferInstanceAs (Decidable (_ ∧ _ ∧ _))

/-- What the driver documents: a read writes to the bytes of the buffer only, the
    words if it succeeds, and a write that succeeds ANDs the words into the flash. -/
structure SpiFlash.Documented (drv : SpiFlash) : Prop where
  length_read : ∀ flash addr size, Words flash addr size →
    (drv.read flash addr size).2.length = size
  read : ∀ flash addr size, Words flash addr size → (drv.read flash addr size).1 = 0 →
    (drv.read flash addr size).2 = window flash addr size
  write : ∀ flash addr words, Words flash addr words.length →
    (drv.write flash addr words).1 = 0 →
    (drv.write flash addr words).2 = combine (· &&& ·) flash addr words

/-- `malloc(n)`, with the address of the block. -/
structure Buffer (n : Nat) extends Block n where
  addr : BitVec 32
  fits : addr.toNat + n ≤ 4294967296

/-- A call of `spi_flash_read` with the buffer at offset `off` of `buf`. -/
def spiFlashRead (drv : SpiFlash) (flash : List Byte) (addr size : BitVec 32) (buf : List Byte)
    (off : Nat) : Result (Int × List Byte) :=
  if Words flash addr.toNat size.toNat then do
    let r := drv.read flash addr.toNat size.toNat
    let buf ← storeBytes buf off r.2
    pure (r.1, buf)
  else throw .outOfBounds

/-- A call of `spi_flash_write` with the words at offset `off` of `buf`. -/
def spiFlashWrite (drv : SpiFlash) (flash : List Byte) (addr size : BitVec 32) (buf : List Byte)
    (off : Nat) : Result (Int × List Byte) :=
  if Words flash addr.toNat size.toNat then do
    let words ← loadBytes buf off size.toNat
    pure (drv.write flash addr.toNat words)
  else throw .outOfBounds

/-! ## The functions -/

/-- `(x + (4 - 1)) & -4`. -/
def align4 (x : BitVec 32) : BitVec 32 := (x + 3) &&& -4#32

/-- `aaddr` and `asize`. -/
def aligned (addr size : BitVec 32) : BitVec 32 × BitVec 32 :=
  -- Align address to 4 byte
  let aaddr := align4 addr
  if aaddr ≠ addr then
    let aaddr := aaddr - 4
    (aaddr, align4 (size + (addr - aaddr)))
  else (aaddr, align4 size)

/-- The offset of `abuff` in `buff`. -/
def Buffer.abuff {n : Nat} (buff : Buffer n) : Nat := (align4 buff.addr - buff.addr).toNat

/-- `esp32_spi_flash_read`. -/
def esp32SpiFlashRead (drv : SpiFlash) (malloc : (n : Nat) → Option (Buffer n))
    (flash : List Byte) (addr size : BitVec 32) (dst : List Byte) : Result (Int × List Byte) :=
  let (aaddr, asize) := aligned addr size
  if aaddr ≠ addr ∨ asize ≠ size then
    match malloc (asize + 4).toNat with
    | none => pure (SPIFFS_ERR_INTERNAL, dst)
    | some buff => do
      let r ← spiFlashRead drv flash aaddr asize buff.bytes buff.abuff
      if r.1 ≠ 0 then pure (SPIFFS_ERR_INTERNAL, dst)
      else do
        let bytes ← loadBytes r.2 (buff.abuff + (addr - aaddr).toNat) size.toNat
        let dst ← storeBytes dst 0 bytes
        pure (SPIFFS_OK, dst)
  else do
    let r ← spiFlashRead drv flash addr size dst 0
    if r.1 ≠ 0 then pure (SPIFFS_ERR_INTERNAL, r.2) else pure (SPIFFS_OK, r.2)

/-- `esp32_spi_flash_write`. -/
def esp32SpiFlashWrite (drv : SpiFlash) (malloc : (n : Nat) → Option (Buffer n))
    (flash : List Byte) (addr size : BitVec 32) (src : List Byte) : Result (Int × List Byte) :=
  let (aaddr, asize) := aligned addr size
  if aaddr ≠ addr ∨ asize ≠ size then
    match malloc (asize + 4).toNat with
    | none => pure (SPIFFS_ERR_INTERNAL, flash)
    | some buff => do
      let r ← spiFlashRead drv flash aaddr asize buff.bytes buff.abuff
      if r.1 ≠ 0 then pure (SPIFFS_ERR_INTERNAL, flash)
      else do
        let bytes ← loadBytes src 0 size.toNat
        let buf ← storeBytes r.2 (buff.abuff + (addr - aaddr).toNat) bytes
        let r ← spiFlashWrite drv flash aaddr asize buf buff.abuff
        if r.1 ≠ 0 then pure (SPIFFS_ERR_INTERNAL, r.2) else pure (SPIFFS_OK, r.2)
  else do
    let r ← spiFlashWrite drv flash addr size src 0
    if r.1 ≠ 0 then pure (SPIFFS_ERR_INTERNAL, r.2) else pure (SPIFFS_OK, r.2)

/-! ## The words around the bytes -/

section Aligned

/-- The two low bits are cleared. -/
theorem and_neg_four (x : BitVec 32) : x &&& -4#32 = x >>> 2 <<< 2 := by
  have hmask : ∀ i < 32, (-4#32).getLsbD i = decide (2 ≤ i) := by decide
  apply BitVec.eq_of_getLsbD_eq
  intro i hi
  rw [BitVec.getLsbD_and, hmask i hi, BitVec.getLsbD_shiftLeft, BitVec.getLsbD_ushiftRight]
  by_cases htwo : 2 ≤ i
  · have hsum : 2 + (i - 2) = i := by omega
    simp [hi, htwo, hsum, Nat.not_lt.mpr htwo]
  · simp [htwo, Nat.not_le.mp htwo]

theorem toNat_align4 {x : BitVec 32} (h : x.toNat + 3 < 4294967296) :
    (align4 x).toNat = (x.toNat + 3) / 4 * 4 := by
  have hsum : (x + 3).toNat = x.toNat + 3 := by
    rw [BitVec.toNat_add]
    exact Nat.mod_eq_of_lt h
  have hdiv : (x.toNat + 3) / 4 * 4 ≤ x.toNat + 3 := Nat.div_mul_le_self ..
  rw [align4, and_neg_four, BitVec.toNat_shiftLeft, BitVec.toNat_ushiftRight, hsum,
    Nat.shiftLeft_eq, Nat.shiftRight_eq_div_pow]
  apply Nat.mod_eq_of_lt
  show (x.toNat + 3) / 4 * 4 < 4294967296
  omega

/-- A flash of whole words, where the sizes of the words around any of its bytes
    and of the buffer for them are still `uint32_t`. -/
structure Chip (flash : List Byte) : Prop where
  words : 4 ∣ flash.length
  small : flash.length + 4 < 4294967296

variable {flash : List Byte} {addr size : BitVec 32}

/-- The `n` bytes from `a` on are words around the `size` bytes from `addr` on. -/
structure Around (flash : List Byte) (addr size a n : Nat) : Prop where
  words : Words flash a n
  first : a ≤ addr
  last : addr + size ≤ a + n
  /-- At most three more bytes at each end. -/
  tight : n ≤ size + 6

/-- The aligned address and size are those of words around the bytes. -/
theorem aligned_around (h : Chip flash) (hin : addr.toNat + size.toNat ≤ flash.length) :
    Around flash addr.toNat size.toNat (aligned addr size).1.toNat (aligned addr size).2.toNat := by
  obtain ⟨hwords, hsmall⟩ := h
  have haddr : (align4 addr).toNat = (addr.toNat + 3) / 4 * 4 := toNat_align4 (by omega)
  unfold aligned
  dsimp only
  by_cases hne : align4 addr ≠ addr
  · rw [if_pos hne]
    have hne' : (addr.toNat + 3) / 4 * 4 ≠ addr.toNat := by
      intro heq
      exact hne (BitVec.eq_of_toNat_eq (haddr.trans heq))
    have hdown : (align4 addr - 4).toNat = (addr.toNat + 3) / 4 * 4 - 4 := by bv_omega
    have hsize : (size + (addr - (align4 addr - 4))).toNat =
        size.toNat + (addr.toNat - ((addr.toNat + 3) / 4 * 4 - 4)) := by bv_omega
    have hasize : (align4 (size + (addr - (align4 addr - 4)))).toNat =
        ((size + (addr - (align4 addr - 4))).toNat + 3) / 4 * 4 := toNat_align4 (by omega)
    dsimp only
    rw [hasize, hsize, hdown]
    refine ⟨⟨by omega, by omega, by omega⟩, by omega, by omega, by omega⟩
  · rw [if_neg hne]
    have heq : (addr.toNat + 3) / 4 * 4 = addr.toNat := by
      rw [← haddr, not_not.mp hne]
    have hasize : (align4 size).toNat = (size.toNat + 3) / 4 * 4 := toNat_align4 (by omega)
    dsimp only
    rw [hasize, haddr]
    refine ⟨⟨by omega, by omega, by omega⟩, by omega, by omega, by omega⟩

/-- The aligned buffer is inside the allocated one. -/
theorem Buffer.abuff_lt {n : Nat} (buff : Buffer n) (hn : 4 ≤ n) : buff.abuff < 4 := by
  have hfits := buff.fits
  have halign : (align4 buff.addr).toNat = (buff.addr.toNat + 3) / 4 * 4 :=
    toNat_align4 (by omega)
  unfold Buffer.abuff
  bv_omega

end Aligned

/-! ## The flash as it is seen through the functions -/

/-- The buffer afterwards, of a read of `size` bytes from `addr` on. -/
structure ReadBytes (flash : List Byte) (addr size : Nat) (dst dst' : List Byte) : Prop where
  length : dst'.length = dst.length
  bytes : ∀ i < size, dst'[i]? = flash[addr + i]?
  rest : ∀ i, size ≤ i → dst'[i]? = dst[i]?

/-- The flash afterwards, where bytes were programmed from `addr` on. -/
structure ProgrammedBytes (flash : List Byte) (addr size : Nat) (src flash' : List Byte) :
    Prop where
  length : flash'.length = flash.length
  bytes : ∀ i < size, ∃ old new, flash[addr + i]? = some old ∧ src[i]? = some new ∧
    flash'[addr + i]? = some (old &&& new)
  rest : ∀ i, i < addr ∨ addr + size ≤ i → flash'[i]? = flash[i]?

/-- What can make a function fail: there is no memory for the buffer, or the driver
    fails on the words around the bytes. -/
def CanFail (drv : SpiFlash) (malloc : (n : Nat) → Option (Buffer n)) (flash : List Byte)
    (addr size : Nat) : Prop :=
  (∃ n ≤ size + 10, malloc n = none) ∨ ∃ a n, Around flash addr size a n ∧
    ((drv.read flash a n).1 ≠ 0 ∨
      ∃ words, words.length = n ∧ (drv.write flash a words).1 ≠ 0)

/-- Through the two functions the flash is one of bytes: no access is out of bounds,
    a read has the bytes and a write programs them, or else something has failed. -/
structure ActsOnBytes (drv : SpiFlash) (malloc : (n : Nat) → Option (Buffer n)) (flash : List Byte)
    (addr size : BitVec 32) (dst src : List Byte) : Prop where
  read : ∃ code dst', esp32SpiFlashRead drv malloc flash addr size dst = .ok (code, dst') ∧
    (code = SPIFFS_OK ∧ ReadBytes flash addr.toNat size.toNat dst dst' ∨
      code = SPIFFS_ERR_INTERNAL ∧ CanFail drv malloc flash addr.toNat size.toNat)
  write : ∃ code flash', esp32SpiFlashWrite drv malloc flash addr size src = .ok (code, flash') ∧
    (code = SPIFFS_OK ∧ ProgrammedBytes flash addr.toNat size.toNat src flash' ∨
      code = SPIFFS_ERR_INTERNAL ∧ CanFail drv malloc flash addr.toNat size.toNat)

section Refines

variable {drv : SpiFlash} {malloc : (n : Nat) → Option (Buffer n)} {flash : List Byte}
  {addr size : BitVec 32}

theorem readBytes_window {dst : List Byte} {a n : Nat} (hin : a + n ≤ flash.length)
    (hdst : n ≤ dst.length) : ReadBytes flash a n dst (overwrite dst 0 (window flash a n)) := by
  have hlen : (window flash a n).length = n := length_window hin
  have hfit : 0 + (window flash a n).length ≤ dst.length := by omega
  refine ⟨length_overwrite hfit, ?_, ?_⟩
  · intro i hi
    rw [getElem?_overwrite hfit, if_pos (by omega), Nat.sub_zero, getElem?_window hi]
  · intro i hi
    rw [getElem?_overwrite hfit, if_neg (by omega)]

theorem programmedBytes_combine {src : List Byte} {a n : Nat} (hin : a + n ≤ flash.length)
    (hsrc : n ≤ src.length) :
    ProgrammedBytes flash a n src (combine (· &&& ·) flash a (window src 0 n)) := by
  have hlen : (window src 0 n).length = n := length_window (by omega)
  have hfit : a + (window src 0 n).length ≤ flash.length := by omega
  refine ⟨length_combine _ hfit, ?_, ?_⟩
  · intro i hi
    have hold : a + i < flash.length := by omega
    have hnew : i < src.length := by omega
    refine ⟨flash[a + i], src[i], List.getElem?_eq_getElem hold, List.getElem?_eq_getElem hnew, ?_⟩
    rw [getElem?_combine _ hfit, if_pos (by omega), Nat.add_sub_cancel_left,
      getElem?_window hi, Nat.zero_add, List.getElem?_eq_getElem hold,
      List.getElem?_eq_getElem hnew]
    rfl
  · intro i hi
    rw [getElem?_combine _ hfit, if_neg (by omega)]

theorem spiFlashRead_eq (hdrv : drv.Documented) {buf : List Byte} {off : Nat}
    (hwords : Words flash addr.toNat size.toNat) (hroom : off + size.toNat ≤ buf.length) :
    spiFlashRead drv flash addr size buf off =
      .ok ((drv.read flash addr.toNat size.toNat).1,
        overwrite buf off (drv.read flash addr.toNat size.toNat).2) := by
  have hlen := hdrv.length_read _ _ _ hwords
  have hstore : storeBytes buf off (drv.read flash addr.toNat size.toNat).2 =
      .ok (overwrite buf off (drv.read flash addr.toNat size.toNat).2) :=
    storeBytes_overwrite (hlen.symm ▸ hroom)
  unfold spiFlashRead
  dsimp only
  rw [if_pos hwords, hstore]
  rfl

theorem spiFlashWrite_eq {buf : List Byte} {off : Nat}
    (hwords : Words flash addr.toNat size.toNat) (hroom : off + size.toNat ≤ buf.length) :
    spiFlashWrite drv flash addr size buf off =
      .ok (drv.write flash addr.toNat (window buf off size.toNat)) := by
  unfold spiFlashWrite
  rw [if_pos hwords, loadBytes_window hroom]
  rfl

/-- The buffer that is allocated has room for the words and for the alignment. -/
theorem room_of_malloc {asize : BitVec 32} (hchip : Chip flash)
    (hsize : asize.toNat ≤ flash.length) (buff : Buffer (asize + 4).toNat) :
    buff.abuff + asize.toNat ≤ buff.bytes.length := by
  have hsmall := hchip.small
  have hsum : (asize + 4).toNat = asize.toNat + 4 := by bv_omega
  have hlt := buff.abuff_lt (by omega)
  have hlen := buff.size
  omega

/-- A read of any bytes inside the flash. -/
theorem esp32SpiFlashRead_spec (hdrv : drv.Documented) (hchip : Chip flash)
    (hin : addr.toNat + size.toNat ≤ flash.length) {dst : List Byte}
    (hdst : size.toNat ≤ dst.length) :
    ∃ code dst', esp32SpiFlashRead drv malloc flash addr size dst = .ok (code, dst') ∧
      (code = SPIFFS_OK ∧ ReadBytes flash addr.toNat size.toNat dst dst' ∨
        code = SPIFFS_ERR_INTERNAL ∧ CanFail drv malloc flash addr.toNat size.toNat) := by
  have hspec := aligned_around hchip hin
  have hdone := readBytes_window hin hdst
  have hlen : (window flash addr.toNat size.toNat).length = size.toNat := length_window hin
  have hdst' : 0 + (window flash addr.toNat size.toNat).length ≤ dst.length := by omega
  unfold esp32SpiFlashRead
  generalize aligned addr size = p at hspec ⊢
  obtain ⟨aaddr, asize⟩ := p
  have haround : Around flash addr.toNat size.toNat aaddr.toNat asize.toNat := hspec
  have hwords := haround.words
  have hlast := hwords.2.2
  have hfirst := haround.first
  have hcover := haround.last
  have htight := haround.tight
  dsimp only
  by_cases hpad : aaddr ≠ addr ∨ asize ≠ size
  · rw [if_pos hpad]
    cases hmalloc : malloc (asize + 4).toNat with
    | none =>
      have hsmall := hchip.small
      exact ⟨_, _, rfl, .inr ⟨rfl, .inl ⟨_, by bv_omega, hmalloc⟩⟩⟩
    | some buff =>
      have hroom := room_of_malloc hchip (by omega) buff
      have hoff : (addr - aaddr).toNat = addr.toNat - aaddr.toNat := by bv_omega
      have hwide : (window flash aaddr.toNat asize.toNat).length = asize.toNat :=
        length_window hlast
      have hfit : buff.abuff + (window flash aaddr.toNat asize.toNat).length ≤
          buff.bytes.length := by omega
      have hcopy : loadBytes
          (overwrite buff.bytes buff.abuff (window flash aaddr.toNat asize.toNat))
          (buff.abuff + (addr - aaddr).toNat) size.toNat =
            .ok (window flash addr.toNat size.toNat) := by
        have hsum : aaddr.toNat + (addr - aaddr).toNat = addr.toNat := by omega
        rw [loadBytes_window (by rw [length_overwrite hfit]; omega),
          window_overwrite hfit (by omega), window_window (by omega), hsum]
      dsimp only
      rw [spiFlashRead_eq hdrv hwords hroom, ok_bind]
      dsimp only
      by_cases hcode : (drv.read flash aaddr.toNat asize.toNat).1 ≠ 0
      · rw [if_pos hcode]
        exact ⟨_, _, rfl, .inr ⟨rfl, .inr ⟨_, _, haround, .inl hcode⟩⟩⟩
      · rw [if_neg hcode, hdrv.read _ _ _ hwords (not_not.mp hcode), hcopy, ok_bind,
          storeBytes_overwrite hdst', ok_bind]
        exact ⟨_, _, rfl, .inl ⟨rfl, hdone⟩⟩
  · obtain ⟨haddr, hsize⟩ := not_or.mp hpad
    obtain rfl := not_not.mp haddr
    obtain rfl := not_not.mp hsize
    rw [if_neg hpad, spiFlashRead_eq hdrv hwords (by omega), ok_bind]
    dsimp only
    by_cases hcode : (drv.read flash aaddr.toNat asize.toNat).1 ≠ 0
    · rw [if_pos hcode]
      exact ⟨_, _, rfl, .inr ⟨rfl, .inr ⟨_, _, haround, .inl hcode⟩⟩⟩
    · rw [if_neg hcode, hdrv.read _ _ _ hwords (not_not.mp hcode)]
      exact ⟨_, _, rfl, .inl ⟨rfl, hdone⟩⟩

/-- How `esp32_spi_flash_write` ends, with the answer of the driver. -/
theorem write_ends (malloc : (n : Nat) → Option (Buffer n)) (hdrv : drv.Documented) {a n k : Nat}
    {words flash' : List Byte} (haround : Around flash n k a words.length)
    (hsame : combine (· &&& ·) flash a words = flash') :
    ∃ code flash'', (if (drv.write flash a words).1 ≠ 0 then
        pure (SPIFFS_ERR_INTERNAL, (drv.write flash a words).2)
      else pure (SPIFFS_OK, (drv.write flash a words).2) : Result _) = .ok (code, flash'') ∧
      (code = SPIFFS_OK ∧ flash'' = flash' ∨
        code = SPIFFS_ERR_INTERNAL ∧ CanFail drv malloc flash n k) := by
  by_cases hcode : (drv.write flash a words).1 ≠ 0
  · rw [if_pos hcode]
    exact ⟨_, _, rfl, .inr ⟨rfl, .inr ⟨a, _, haround, .inr ⟨words, rfl, hcode⟩⟩⟩⟩
  · rw [if_neg hcode, hdrv.write _ _ _ haround.words (not_not.mp hcode)]
    exact ⟨_, _, rfl, .inl ⟨rfl, hsame⟩⟩

/-- A write of any bytes inside the flash. -/
theorem esp32SpiFlashWrite_spec (hdrv : drv.Documented) (hchip : Chip flash)
    (hin : addr.toNat + size.toNat ≤ flash.length) {src : List Byte}
    (hsrc : size.toNat ≤ src.length) :
    ∃ code flash', esp32SpiFlashWrite drv malloc flash addr size src = .ok (code, flash') ∧
      (code = SPIFFS_OK ∧ ProgrammedBytes flash addr.toNat size.toNat src flash' ∨
        code = SPIFFS_ERR_INTERNAL ∧ CanFail drv malloc flash addr.toNat size.toNat) := by
  have hspec := aligned_around hchip hin
  have hdone := programmedBytes_combine hin hsrc
  have hlen : (window src 0 size.toNat).length = size.toNat := length_window (by omega)
  have hload : loadBytes src 0 size.toNat = .ok (window src 0 size.toNat) :=
    loadBytes_window (by omega)
  unfold esp32SpiFlashWrite
  generalize aligned addr size = p at hspec ⊢
  obtain ⟨aaddr, asize⟩ := p
  have haround : Around flash addr.toNat size.toNat aaddr.toNat asize.toNat := hspec
  have hwords := haround.words
  have hlast := hwords.2.2
  have hfirst := haround.first
  have hcover := haround.last
  have htight := haround.tight
  dsimp only
  by_cases hpad : aaddr ≠ addr ∨ asize ≠ size
  · rw [if_pos hpad]
    cases hmalloc : malloc (asize + 4).toNat with
    | none =>
      have hsmall := hchip.small
      exact ⟨_, _, rfl, .inr ⟨rfl, .inl ⟨_, by bv_omega, hmalloc⟩⟩⟩
    | some buff =>
      have hroom := room_of_malloc hchip (by omega) buff
      have hoff : (addr - aaddr).toNat = addr.toNat - aaddr.toNat := by bv_omega
      have hwide : (window flash aaddr.toNat asize.toNat).length = asize.toNat :=
        length_window hlast
      have hfit : buff.abuff + (window flash aaddr.toNat asize.toNat).length ≤
          buff.bytes.length := by omega
      have hinside : (addr - aaddr).toNat + (window src 0 size.toNat).length ≤
          (window flash aaddr.toNat asize.toNat).length := by omega
      have hbuf := length_overwrite hfit
      have hcopy : buff.abuff + (addr - aaddr).toNat + (window src 0 size.toNat).length ≤
          (overwrite buff.bytes buff.abuff (window flash aaddr.toNat asize.toNat)).length := by
        omega
      dsimp only
      rw [spiFlashRead_eq hdrv hwords hroom, ok_bind]
      dsimp only
      by_cases hcode : (drv.read flash aaddr.toNat asize.toNat).1 ≠ 0
      · rw [if_pos hcode]
        exact ⟨_, _, rfl, .inr ⟨rfl, .inr ⟨_, _, haround, .inl hcode⟩⟩⟩
      · -- the words that are written back: those of the flash, with the bytes of `src` in them
        have hback := window_overwrite_overwrite hfit hinside
        rw [hwide] at hback
        rw [if_neg hcode, hdrv.read _ _ _ hwords (not_not.mp hcode), hload, ok_bind,
          storeBytes_overwrite hcopy, ok_bind,
          spiFlashWrite_eq hwords (by rw [length_overwrite hcopy]; omega), ok_bind, hback]
        have hsame : combine (· &&& ·) flash aaddr.toNat
            (overwrite (window flash aaddr.toNat asize.toNat) (addr - aaddr).toNat
              (window src 0 size.toNat)) =
            combine (· &&& ·) flash addr.toNat (window src 0 size.toNat) := by
          rw [hoff]
          exact combine_overwrite_window (fun _ => BitVec.and_self) hfirst (by omega) hlast
        have hwords' := (length_overwrite hinside).trans hwide
        obtain ⟨code, flash', heq, ⟨hok, rfl⟩ | hfail⟩ :=
          write_ends malloc hdrv (hwords'.symm ▸ haround) hsame
        · exact ⟨_, _, heq, .inl ⟨hok, hdone⟩⟩
        · exact ⟨_, _, heq, .inr hfail⟩
  · obtain ⟨haddr, hsize⟩ := not_or.mp hpad
    obtain rfl := not_not.mp haddr
    obtain rfl := not_not.mp hsize
    rw [if_neg hpad, spiFlashWrite_eq hwords (by omega), ok_bind]
    have haround' : Around flash aaddr.toNat asize.toNat aaddr.toNat
        (window src 0 asize.toNat).length := by
      rw [hlen]
      exact haround
    obtain ⟨code, flash', heq, ⟨hok, rfl⟩ | hfail⟩ := write_ends malloc hdrv haround' rfl
    · exact ⟨_, _, heq, .inl ⟨hok, hdone⟩⟩
    · exact ⟨_, _, heq, .inr hfail⟩

/-- For bytes anywhere inside the flash, at any alignment of both. -/
theorem esp32SpiFlash_refines (hdrv : drv.Documented) (hchip : Chip flash)
    (hin : addr.toNat + size.toNat ≤ flash.length) {dst src : List Byte}
    (hdst : size.toNat ≤ dst.length) (hsrc : size.toNat ≤ src.length) :
    ActsOnBytes drv malloc flash addr size dst src :=
  ⟨esp32SpiFlashRead_spec hdrv hchip hin hdst, esp32SpiFlashWrite_spec hdrv hchip hin hsrc⟩

end Refines

/-- A driver that never fails. -/
def wordFlash : SpiFlash where
  read flash addr size := (0, window flash addr size)
  write flash addr words := (0, combine (· &&& ·) flash addr words)

/-- Up to 64 bytes, at an odd address. -/
def oddMalloc (n : Nat) : Option (Buffer n) :=
  if h : n ≤ 64 then some ⟨freshBlock n, 5, by show 5 + n ≤ _; omega⟩ else none

/-- Two bytes at the end of the first word and one of the second. -/
theorem esp32SpiFlash_refines_unaligned :
    ActsOnBytes wordFlash oddMalloc [1, 2, 3, 4, 5, 6, 7, 8] 2 3 [9, 9, 9, 9] [7, 8, 9] := by
  have hdrv : wordFlash.Documented :=
    ⟨fun _ _ _ h => length_window h.2.2, fun _ _ _ _ _ => rfl, fun _ _ _ _ _ => rfl⟩
  exact esp32SpiFlash_refines hdrv ⟨by decide, by decide⟩ (by decide) (by decide) (by decide)

end LuaRtos.Spiffs
