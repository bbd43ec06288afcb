/-
  LuaRtos.Drivers.SpiMaster

  `spi_master_op` of drivers/spi.c: bytes go through a transfer buffer of 16 words to the data
  registers of the controller and back, 64 at a time.

  The controller is the one of `spi_transfer_data`, in full duplex mode as `spi_select` sets it.
  `none` is a null pointer.
-/

import LuaRtos.CLib.Mem
import Mathlib.Algebra.Group.Nat.Defs
import LuaRtos.Drivers.EspiExact

namespace LuaRtos.Spi

open CLib Espi

/-! ## The code -/

/-- `*out++`, or the padding when there is no output buffer. -/
def nextByte (out : Option (List Byte)) (pos : Nat) : Result Byte :=
  match out with
  | some block => load block pos
  | none => pure 0xFF

/-- The word that is filled: `wdb` bytes of it are to come; `pos` is how far `out` has gone. -/
structure Word where
  wd : BitVec 32
  wdb : Nat
  bytes : Nat
  bits : Nat
  pos : Nat

/-- The loop that fills a word from its high byte on, with the rounds that are left. -/
def fillWord (out : Option (List Byte)) : Nat → Word → Result Word
  | 0, w => pure w
  | k + 1, w =>
    if w.bytes = 0 then pure w
    else do
      let b ← nextByte out w.pos
      fillWord out k
        ⟨w.wd >>> 8 ||| b.setWidth 32 <<< 24, w.wdb - 1, w.bytes - 1, w.bits + 8, w.pos + 1⟩

/-- The loop that shifts a word whose last bytes are missing. -/
def padWord : Nat → BitVec 32 → BitVec 32
  | 0, wd => wd
  | wdb + 1, wd => padWord wdb (wd >>> 8)

/-- What the loop that populates the transfer buffer works on. -/
structure Chunk where
  buffer : Fin 16 → BitVec 32
  idx : Nat
  bits : Nat
  bytes : Nat
  pos : Nat

def populateRound (out : Option (List Byte)) (c : Chunk) : Result Chunk := do
  let w ← fillWord out 4 ⟨0, 4, c.bytes, c.bits, c.pos⟩
  if h : c.idx < 16 then
    pure ⟨Function.update c.buffer ⟨c.idx, h⟩ (padWord w.wdb w.wd), c.idx + 1, w.bits, w.bytes,
      w.pos⟩
  else throw .outOfBounds

def populateGoes (c : Chunk) : Bool := decide (c.bytes ≠ 0 ∧ c.idx < 16)

/-- A round of the loops between the transfer buffer and the data registers. -/
def copyRound (src : Fin 16 → BitVec 32) (p : (Fin 16 → BitVec 32) × Nat) :
    Result ((Fin 16 → BitVec 32) × Nat) :=
  if h : p.2 < 16 then pure (Function.update p.1 ⟨p.2, h⟩ (src ⟨p.2, h⟩), p.2 + 1)
  else throw .outOfBounds

def copyGoes (bits : Nat) (p : (Fin 16 → BitVec 32) × Nat) : Bool := decide (p.2 * 32 < bits)

/-- `while ((idx << 5) < bits)`. -/
def copyWords (bits : Nat) (src dst : Fin 16 → BitVec 32) : Result (Fin 16 → BitVec 32) := do
  let (dst, _) ← whileLoop (copyGoes bits) (copyRound src) (bits + 1) (dst, 0)
  pure dst

/-- What the loop of `spi_master_op` works on. -/
structure Master where
  regs : Regs
  trace : List Transfer
  buffer : Fin 16 → BitVec 32
  bytes : Nat
  pos : Nat
  indata : Option (List Byte)
  inpos : Nat

/-- Read data into buffer. -/
def readIn (bits : Nat) (m : Master) : Result Master :=
  match m.indata with
  | none => pure m
  | some block => do
    let buffer ← copyWords bits m.regs.data_buf m.buffer
    let block ← storeBytes block m.inpos ((bufBytes buffer).take (bits / 8))
    pure { m with buffer := buffer, indata := some block, inpos := m.inpos + bits / 8 }

def masterRound (hw : Controller) (out : Option (List Byte)) (m : Master) : Result Master := do
  -- Populate transfer buffer in chunks of 64 bytes
  let c ← whileLoop populateGoes (populateRound out) 17 ⟨m.buffer, 0, 0, m.bytes, m.pos⟩
  -- Load send buffer
  let data_buf ← copyWords c.bits c.buffer m.regs.data_buf
  let regs := { m.regs with
    usr_mosi_dbitlen := dbitlen c.bits, usr_miso_dbitlen := dbitlen c.bits, data_buf := data_buf }
  -- Start transfer
  let (t, buf) := hw m.trace regs
  readIn c.bits { m with
    regs := { regs with data_buf := buf }, trace := m.trace ++ [t]
    buffer := c.buffer, bytes := c.bytes, pos := c.pos }

def masterGoes (m : Master) : Bool := decide (m.bytes ≠ 0)

/-- `spi_master_op`; `buffer` is what is on the stack. -/
def spiMasterOp (hw : Controller) (regs : Regs) (buffer : Fin 16 → BitVec 32)
    (word_size len : BitVec 32) (out indata : Option (List Byte)) : Result Master :=
  let bytes := (word_size * len).toNat
  whileLoop masterGoes (masterRound hw out) (bytes + 1) ⟨regs, [], buffer, bytes, 0, indata, 0⟩

/-! ## Filling a word -/

section Fill

variable {out : Option (List Byte)} {src : List Byte}

/-- The first bytes to go out are those of the list. -/
def Supplies (out : Option (List Byte)) (src : List Byte) : Prop :=
  ∀ i < src.length, ∃ b, nextByte out i = .ok b ∧ src[i]? = some b

theorem byteAt_ushiftRight (wd : BitVec 32) (bc : Nat) :
    byteAt (wd >>> 8) bc = byteAt wd (bc + 8) := by
  unfold byteAt
  rw [← BitVec.shiftRight_add, Nat.add_comm]

/-- What a byte makes of a word. -/
theorem byteAt_pushed (wd : BitVec 32) (b : Byte) :
    byteAt (wd >>> 8 ||| b.setWidth 32 <<< 24) 24 = b ∧
      ∀ bc, bc + 8 ≤ 24 → byteAt (wd >>> 8 ||| b.setWidth 32 <<< 24) bc = byteAt wd (bc + 8) := by
  refine ⟨?_, ?_⟩
  · apply byteAt_or_self b (by decide)
    rw [byteAt_ushiftRight]
    apply BitVec.eq_of_getLsbD_eq
    intro i hi
    rw [getLsbD_byteAt, BitVec.getLsbD_of_ge _ _ (by omega), Bool.and_false]
    exact BitVec.getLsbD_zero.symm
  · intro bc hbc
    rw [byteAt_or_of_ne b (.inr hbc), byteAt_ushiftRight]

theorem byteAt_padWord (k : Nat) (wd : BitVec 32) (bc : Nat) :
    byteAt (padWord k wd) bc = byteAt wd (bc + k * 8) := by
  induction k generalizing wd with
  | zero =>
    rw [padWord, Nat.zero_mul, Nat.add_zero]
  | succ k ih =>
    rw [padWord, ih, byteAt_ushiftRight, Nat.succ_mul, Nat.add_assoc]

/-- The bytes of a word: the new ones are the high ones, the others go down. -/
theorem fillWord_eq (hsrc : Supplies out src) (k : Nat) (w : Word) (hk : k ≤ 4)
    (hlen : w.pos + w.bytes = src.length) :
    ∃ wd, fillWord out k w = .ok ⟨wd, w.wdb - min k w.bytes, w.bytes - min k w.bytes,
        w.bits + min k w.bytes * 8, w.pos + min k w.bytes⟩ ∧
      (∀ i < min k w.bytes,
        src[w.pos + i]? = some (byteAt wd (32 - min k w.bytes * 8 + i * 8))) ∧
      ∀ bc, bc + min k w.bytes * 8 ≤ 24 → byteAt wd bc = byteAt w.wd (bc + min k w.bytes * 8) := by
  induction k generalizing w with
  | zero =>
    refine ⟨w.wd, ?_, ?_, ?_⟩
    · rw [Nat.zero_min]
      rfl
    · intro i hi
      omega
    · intro bc _
      rw [Nat.zero_min, Nat.zero_mul, Nat.add_zero]
  | succ k ih =>
    by_cases hzero : w.bytes = 0
    · have hnone : min (k + 1) w.bytes = 0 := by omega
      refine ⟨w.wd, ?_, ?_, ?_⟩
      · rw [fillWord, if_pos hzero, hnone]
        rfl
      · intro i hi
        omega
      · intro bc _
        rw [hnone, Nat.zero_mul, Nat.add_zero]
    · obtain ⟨b, hb, hget⟩ := hsrc w.pos (by omega)
      obtain ⟨htop, hdown⟩ := byteAt_pushed w.wd b
      obtain ⟨m, hm⟩ : ∃ m, m = min k (w.bytes - 1) := ⟨_, rfl⟩
      have hmin : min (k + 1) w.bytes = m + 1 := by omega
      obtain ⟨wd, hrest, hnew, hold⟩ := ih ⟨w.wd >>> 8 ||| b.setWidth 32 <<< 24, w.wdb - 1,
        w.bytes - 1, w.bits + 8, w.pos + 1⟩ (by omega) (by
          show w.pos + 1 + (w.bytes - 1) = _
          omega)
      dsimp only at hrest hnew hold
      rw [← hm] at hrest hnew hold
      rw [hmin]
      refine ⟨wd, ?_, ?_, ?_⟩
      · rw [fillWord, if_neg hzero, hb, ok_bind, hrest]
        congr 2 <;> omega
      · intro i hi
        cases i with
        | zero =>
          -- the byte that was put first is the lowest of the new ones
          have hbase : 32 - (m + 1) * 8 + 0 * 8 + m * 8 = 24 := by omega
          rw [hold _ (Nat.le_of_eq hbase), hbase, htop]
          exact hget
        | succ i =>
          have hat : 32 - (m + 1) * 8 + (i + 1) * 8 = 32 - m * 8 + i * 8 := by omega
          have hpos : w.pos + (i + 1) = w.pos + 1 + i := by omega
          rw [hat, hpos]
          exact hnew i (by omega)
      · intro bc hbc
        rw [hold bc (by omega), hdown _ (by omega)]
        congr 1
        omega

/-- A word that is filled and shifted has its bytes from the low one on. -/
theorem filledWord_eq (hsrc : Supplies out src) (bits : Nat) {pos bytes : Nat}
    (hlen : pos + bytes = src.length) :
    ∃ w, fillWord out 4 ⟨0, 4, bytes, bits, pos⟩ = .ok w ∧ w.bytes = bytes - min 4 bytes ∧
      w.bits = bits + min 4 bytes * 8 ∧ w.pos = pos + min 4 bytes ∧
      ∀ i < min 4 bytes, src[pos + i]? = some (byteAt (padWord w.wdb w.wd) (i * 8)) := by
  obtain ⟨wd, hfill, hnew, -⟩ :=
    fillWord_eq hsrc 4 ⟨0, 4, bytes, bits, pos⟩ (Nat.le_refl 4) hlen
  refine ⟨_, hfill, rfl, rfl, rfl, ?_⟩
  intro i hi
  have hat : i * 8 + (4 - min 4 bytes) * 8 = 32 - min 4 bytes * 8 + i * 8 := by omega
  rw [byteAt_padWord, hat]
  exact hnew i hi

/-! ## Populating the transfer buffer -/

/-- The transfer buffer holds the first `n` bytes from `p` on of the `total` that are left. -/
structure Populated (src : List Byte) (p total : Nat) (c : Chunk) (n : Nat) : Prop where
  count : n = min (4 * c.idx) total
  idx : c.idx ≤ 16
  bits : c.bits = n * 8
  bytes : c.bytes = total - n
  pos : c.pos = p + n
  filled : Filled c.buffer (src.drop p) n

theorem Populated.round {p total n : Nat} {c : Chunk} (hsrc : Supplies out src)
    (hlen : p + total = src.length) (h : Populated src p total c n)
    (hgoes : populateGoes c = true) :
    ∃ c', populateRound out c = .ok c' ∧ c'.idx = c.idx + 1 ∧
      Populated src p total c' (min (4 * c'.idx) total) := by
  obtain ⟨hcount, hidx, hbits, hbytes, hpos, hfilled⟩ := h
  obtain ⟨hmore, hroom⟩ : c.bytes ≠ 0 ∧ c.idx < 16 := of_decide_eq_true hgoes
  have hn : n = 4 * c.idx := by omega
  obtain ⟨w, hfill, hwbytes, hwbits, hwpos, hword⟩ :=
    filledWord_eq hsrc c.bits (by omega : c.pos + c.bytes = src.length)
  refine ⟨⟨Function.update c.buffer ⟨c.idx, hroom⟩ (padWord w.wdb w.wd), c.idx + 1, w.bits, w.bytes,
    w.pos⟩, ?_, rfl, ?_⟩
  · unfold populateRound
    rw [hfill, ok_bind, dif_pos hroom]
    rfl
  · have hnext : min (4 * (c.idx + 1)) total = 4 * c.idx + min 4 c.bytes := by omega
    refine ⟨rfl, hroom, ?_, ?_, ?_, ?_⟩
    · show w.bits = min (4 * (c.idx + 1)) total * 8
      omega
    · show w.bytes = total - min (4 * (c.idx + 1)) total
      omega
    · show w.pos = p + min (4 * (c.idx + 1)) total
      omega
    · show Filled _ _ (min (4 * (c.idx + 1)) total)
      rw [hnext]
      rw [hn] at hfilled
      refine hfilled.word hroom (Nat.min_le_left 4 _) ?_
      intro i hi
      have hat : p + (4 * c.idx + i) = c.pos + i := by omega
      rw [List.getElem?_drop, hat]
      exact hword i hi

/-- The loop takes 64 bytes, or those that are left. -/
theorem populate_eq (hsrc : Supplies out src) {p total : Nat} (hlen : p + total = src.length)
    (buffer : Fin 16 → BitVec 32) :
    ∃ c, whileLoop populateGoes (populateRound out) 17 ⟨buffer, 0, 0, total, p⟩ = .ok c ∧
      c.bits = min 64 total * 8 ∧ c.bytes = total - min 64 total ∧ c.pos = p + min 64 total ∧
      Filled c.buffer (src.drop p) (min 64 total) := by
  have hrun : ∀ k c, 16 - c.idx = k → Populated src p total c (min (4 * c.idx) total) →
      ∃ c', whileLoop populateGoes (populateRound out) (k + 1) c = .ok c' ∧
        populateGoes c' = false ∧ Populated src p total c' (min (4 * c'.idx) total) := by
    intro k
    induction k with
    | zero =>
      intro c hk h
      have hdone : populateGoes c = false := decide_eq_false (by omega)
      exact ⟨c, whileLoop_done hdone 0, hdone, h⟩
    | succ k ih =>
      intro c hk h
      cases hgoes : populateGoes c with
      | false => exact ⟨c, whileLoop_done hgoes _, hgoes, h⟩
      | true =>
        obtain ⟨c₁, hround, hidx, h₁⟩ := h.round hsrc hlen hgoes
        obtain ⟨c', hrest⟩ := ih c₁ (by omega) h₁
        rw [whileLoop_round hgoes hround]
        exact ⟨c', hrest⟩
  obtain ⟨c, hloop, hdone, h⟩ := hrun 16 ⟨buffer, 0, 0, total, p⟩ rfl (by
    refine ⟨rfl, Nat.zero_le _, ?_, ?_, ?_, ?_⟩
    · show 0 = min (4 * 0) total * 8
      omega
    · show total = total - min (4 * 0) total
      omega
    · show p = p + min (4 * 0) total
      omega
    · intro i hi
      have hidle : i < min (4 * 0) total := hi
      omega)
  have hend : ¬ (c.bytes ≠ 0 ∧ c.idx < 16) := of_decide_eq_false hdone
  have hsame : min (4 * c.idx) total = min 64 total := by
    have hbytes := h.bytes
    have hidx := h.idx
    omega
  obtain ⟨-, -, hbits, hbytes, hpos, hfilled⟩ := h
  rw [hsame] at hbits hbytes hpos hfilled
  exact ⟨c, hloop, hbits, hbytes, hpos, hfilled⟩

end Fill

/-! ## The data registers -/

section Copy

variable {src dst : Fin 16 → BitVec 32} {n : Nat}

/-- The words with a bit to transfer are copied. -/
def copied (bits : Nat) (src dst : Fin 16 → BitVec 32) (i : Fin 16) : BitVec 32 :=
  if i.val * 32 < bits then src i else dst i

theorem copyWords_eq {bits : Nat} (hbits : bits ≤ 512) (src dst : Fin 16 → BitVec 32) :
    copyWords bits src dst = .ok (copied bits src dst) := by
  have hrounds : ∀ j, j * 32 < bits + 32 → Rounds (copyGoes bits) (copyRound src) (dst, 0)
      (fun i => if i.val < j then src i else dst i, j) := by
    intro j
    induction j with
    | zero =>
      intro _
      exact .refl _
    | succ j ih =>
      intro hj
      have hgoes : copyGoes bits (fun i => if i.val < j then src i else dst i, j) = true :=
        decide_eq_true (by show j * 32 < bits; omega)
      have hlt : j < 16 := by omega
      refine (ih (by omega)).trans (.one hgoes ?_)
      rw [copyRound, dif_pos hlt]
      apply congrArg Except.ok
      refine Prod.ext ?_ rfl
      funext i
      dsimp only
      by_cases hi : i = ⟨j, hlt⟩
      · rw [hi, Function.update_self, if_pos (Nat.lt_succ_self j)]
      · have hne : i.val ≠ j := fun heq => hi (Fin.ext heq)
        rw [Function.update_of_ne hi]
        by_cases hless : i.val < j
        · rw [if_pos hless, if_pos (by omega)]
        · rw [if_neg hless, if_neg (by omega)]
  have hend : ∀ i : Fin 16, (i.val < (bits + 31) / 32) = (i.val * 32 < bits) := by
    intro i
    apply propext
    omega
  have hloop := (hrounds ((bits + 31) / 32) (by omega)).whileLoop_eq
    (μ := fun p => bits - p.2 * 32) (fun p p' hgoes hround => by
      have hmore : p.2 * 32 < bits := of_decide_eq_true hgoes
      rw [copyRound] at hround
      split at hround
      · cases hround
        show bits - (p.2 + 1) * 32 < bits - p.2 * 32
        omega
      · cases hround)
    (decide_eq_false (by show ¬ (bits + 31) / 32 * 32 < bits; omega))
    (by show bits - 0 * 32 < bits + 1; omega)
  unfold copyWords
  rw [hloop, ok_bind]
  apply congrArg Except.ok
  funext i
  simp only [hend]
  rfl

/-- The first bytes are copied. -/
theorem getElem?_copied (hn : n ≤ 64) {i : Nat} (hi : i < n) :
    (bufBytes (copied (n * 8) src dst))[i]? = (bufBytes src)[i]? := by
  have hj : i / 4 < 16 := by omega
  have hk : i % 4 < 4 := Nat.mod_lt i (by decide)
  have hword : i / 4 * 32 < n * 8 := by omega
  rw [getElem?_bufBytes hj hk (by omega), getElem?_bufBytes hj hk (by omega), copied, if_pos hword]

theorem filled_copied (hn : n ≤ 64) {l : List Byte} (h : Filled src l n) :
    Filled (copied (n * 8) src dst) l n := by
  intro i hi
  rw [getElem?_copied hn hi]
  exact h i hi

theorem take_copied (hn : n ≤ 64) :
    (bufBytes (copied (n * 8) src dst)).take n = (bufBytes src).take n := by
  apply List.ext_getElem?
  intro i
  by_cases hi : i < n
  · rw [List.getElem?_take_of_lt hi, List.getElem?_take_of_lt hi, getElem?_copied hn hi]
  · rw [List.getElem?_eq_none, List.getElem?_eq_none]
    · rw [List.length_take]
      omega
    · rw [List.length_take]
      omega

end Copy

/-! ## The bursts -/

/-- The phases that `spi_select` sets: both of them, at the same time. -/
def Selected (r : Regs) : Prop := r.usr_mosi = true ∧ r.usr_miso = true ∧ r.doutdin = true

/-- What goes out comes in. -/
def LoopedBack (hw : Controller) : Prop :=
  ∀ past r, Selected r → (hw past r).1.received = (hw past r).1.sent

/-- The first `k` bytes have gone out, and as many have come in. -/
structure Served (hw : Controller) (src : List Byte) (indata : Option (List Byte)) (m : Master)
    (k : Nat) : Prop where
  selected : Selected m.regs
  le : k ≤ src.length
  bytes : m.bytes = src.length - k
  pos : m.pos = k
  sent : sentBits m.trace = wire (src.take k)
  size : ∀ t ∈ m.trace, t.sent.length ≤ 512
  received : ∃ bs : List Byte, bs.length = k ∧ receivedBits m.trace = wire bs ∧
    m.indata = indata.map (overwrite · 0 bs) ∧ (indata.isSome = true → m.inpos = k)
  echo : LoopedBack hw → receivedBits m.trace = sentBits m.trace

section Bursts

variable {hw : Controller} {out indata : Option (List Byte)} {src : List Byte} {m : Master}
variable {k n : Nat}

/-- The bytes of a burst go to the input buffer. -/
theorem readIn_eq {bs : List Byte} (hn : n ≤ 64) (hlen : bs.length = k)
    (hin : m.indata = indata.map (overwrite · 0 bs)) (hpos : indata.isSome = true → m.inpos = k)
    (hroom : ∀ block, indata = some block → k + n ≤ block.length) :
    ∃ buffer inpos, readIn (n * 8) m = .ok { m with
        buffer := buffer
        indata := indata.map (overwrite · 0 (bs ++ window (bufBytes m.regs.data_buf) 0 n))
        inpos := inpos } ∧ (indata.isSome = true → inpos = k + n) := by
  obtain ⟨regs, trace, buffer, bytes, pos, indata', inpos⟩ := m
  dsimp only at hin hpos ⊢
  subst hin
  cases indata with
  | none => exact ⟨buffer, inpos, rfl, nofun⟩
  | some block =>
    obtain rfl : inpos = k := hpos rfl
    have hfit := hroom block rfl
    have hwindow : (window (bufBytes regs.data_buf) 0 n).length = n :=
      length_window (by rw [length_bufBytes]; omega)
    have hsize : (overwrite block 0 bs).length = block.length := length_overwrite (by omega)
    refine ⟨copied (n * 8) regs.data_buf buffer, inpos + n, ?_, fun _ => rfl⟩
    have hbits : n * 8 / 8 = n := Nat.mul_div_cancel n (by decide)
    have htake : (bufBytes (copied (n * 8) regs.data_buf buffer)).take n =
        window (bufBytes regs.data_buf) 0 n := take_copied hn
    have hstore : storeBytes (overwrite block 0 bs) inpos (window (bufBytes regs.data_buf) 0 n) =
        .ok (overwrite block 0 (bs ++ window (bufBytes regs.data_buf) 0 n)) := by
      rw [storeBytes_overwrite (by omega), ← overwrite_append (by omega), hlen, Nat.zero_add]
    unfold readIn
    dsimp only [Option.map_some]
    rw [copyWords_eq (by omega), ok_bind, hbits, htake, hstore]
    rfl

/-- A burst sends the next bytes, and stores those that come in. -/
theorem Served.round (hdoc : Documented hw) (hsrc : Supplies out src)
    (hroom : ∀ block, indata = some block → src.length ≤ block.length)
    (h : Served hw src indata m k) (hgoes : masterGoes m = true) :
    ∃ m' k', masterRound hw out m = .ok m' ∧ m'.bytes < m.bytes ∧ Served hw src indata m' k' := by
  obtain ⟨⟨hmosi, hmiso, hdout⟩, hle, hbytes, hpos, hsent, hsize, ⟨bs, hlen, hreceived, hin,
    hinpos⟩, hecho⟩ := h
  have hmore : m.bytes ≠ 0 := of_decide_eq_true hgoes
  obtain ⟨n, hn⟩ : ∃ n, n = min 64 m.bytes := ⟨_, rfl⟩
  obtain ⟨c, hpopulate, hbits, hcbytes, hcpos, hfilled⟩ :=
    populate_eq hsrc (by omega : m.pos + m.bytes = src.length) m.buffer
  rw [← hn] at hbits hcbytes hcpos hfilled
  have hn64 : n ≤ 64 := by omega
  have hpos' : 0 < n := by omega
  -- the registers at the start of the transfer
  obtain ⟨regs, hregs⟩ : ∃ regs : Regs, regs = { m.regs with
    usr_mosi_dbitlen := dbitlen (n * 8), usr_miso_dbitlen := dbitlen (n * 8)
    data_buf := copied (n * 8) c.buffer m.regs.data_buf } := ⟨_, rfl⟩
  have hselected : Selected regs := by
    rw [hregs]
    exact ⟨hmosi, hmiso, hdout⟩
  obtain ⟨t, ht⟩ : ∃ t, t = (hw m.trace regs).1 := ⟨_, rfl⟩
  obtain ⟨buf, hbuf⟩ : ∃ buf, buf = (hw m.trace regs).2 := ⟨_, rfl⟩
  have hout : t.sent = wire ((src.drop k).take n) := by
    have hdata : Filled regs.data_buf (src.drop m.pos) n := by
      rw [hregs]
      exact filled_copied hn64 hfilled
    rw [ht, sent_eq hdoc hselected.1 hpos' hn64 (by rw [hregs]), ← hpos,
      ← hdata.window_eq hn64 (by rw [List.length_drop]; omega)]
    rfl
  have hsentlen : t.sent.length = n * 8 := by
    rw [hout, length_wire, List.length_take, List.length_drop]
    omega
  have hcame : t.received = wire (window (bufBytes buf) 0 n) := by
    rw [ht, hbuf]
    apply received_eq hdoc _ hn64
    rw [hdoc.duplex_length m.trace regs hselected.1 hselected.2.1 hselected.2.2, ← ht, hsentlen]
  have hwindow : (window (bufBytes buf) 0 n).length = n :=
    length_window (by rw [length_bufBytes]; omega)
  obtain ⟨buffer, inpos, hread, hinpos'⟩ := readIn_eq
    (m := ⟨{ regs with data_buf := buf }, m.trace ++ [t], c.buffer, c.bytes, c.pos, m.indata,
      m.inpos⟩) hn64 hlen hin hinpos (fun block hblock => by
        have hfit := hroom block hblock
        omega)
  refine ⟨⟨{ regs with data_buf := buf }, m.trace ++ [t], buffer, c.bytes, c.pos,
    indata.map (overwrite · 0 (bs ++ window (bufBytes buf) 0 n)), inpos⟩, k + n, ?_, ?_, ?_⟩
  · unfold masterRound
    rw [hpopulate, ok_bind, hbits, copyWords_eq (by omega), ok_bind, ← hregs]
    subst ht hbuf
    exact hread
  · show c.bytes < m.bytes
    omega
  · refine ⟨hselected, by omega, by show c.bytes = _; omega, by show c.pos = _; omega, ?_, ?_,
      ⟨bs ++ window (bufBytes buf) 0 n, ?_, ?_, rfl, hinpos'⟩, ?_⟩
    · show sentBits (m.trace ++ [t]) = _
      rw [List.take_add, wire_append, ← hsent, ← hout, sentBits, List.flatMap_append,
        List.flatMap_singleton]
      rfl
    · intro t' ht'
      rcases List.mem_append.mp ht' with hold | hnew
      · exact hsize t' hold
      · rw [List.mem_singleton.mp hnew]
        omega
    · rw [List.length_append]
      omega
    · show receivedBits (m.trace ++ [t]) = _
      rw [wire_append, ← hreceived, ← hcame, receivedBits, List.flatMap_append,
        List.flatMap_singleton]
      rfl
    · intro hloop
      have hsame : t.received = t.sent := by
        rw [ht]
        exact hloop m.trace regs hselected
      show receivedBits (m.trace ++ [t]) = sentBits (m.trace ++ [t])
      have hold := hecho hloop
      unfold receivedBits sentBits at hold ⊢
      rw [List.flatMap_append, List.flatMap_append, hold, List.flatMap_singleton,
        List.flatMap_singleton, hsame]

/-- All the bytes go out, whatever comes in. -/
theorem Served.run (hdoc : Documented hw) (hsrc : Supplies out src)
    (hroom : ∀ block, indata = some block → src.length ≤ block.length) (fuel : Nat)
    (hfuel : m.bytes < fuel) (h : Served hw src indata m k) :
    ∃ m', whileLoop masterGoes (masterRound hw out) fuel m = .ok m' ∧
      Served hw src indata m' src.length := by
  induction fuel generalizing m k with
  | zero => omega
  | succ fuel ih =>
    cases hgoes : masterGoes m with
    | false =>
      have hzero : m.bytes = 0 := Decidable.not_not.mp (of_decide_eq_false hgoes)
      have hall : k = src.length := by
        have hbytes := h.bytes
        have hle := h.le
        omega
      rw [whileLoop_done hgoes]
      rw [hall] at h
      exact ⟨m, rfl, h⟩
    | true =>
      obtain ⟨m₁, k₁, hround, hless, h₁⟩ := h.round hdoc hsrc hroom hgoes
      rw [whileLoop_round hgoes hround]
      exact ih (by omega) h₁

end Bursts

/-! ## The whole operation -/

/-- The bytes that are to go out. -/
def outBytes (out : Option (List Byte)) (n : Nat) : List Byte :=
  match out with
  | some block => block.take n
  | none => List.replicate n 0xFF

/-- `n` bytes go out in bursts that fit in the data registers, the bytes that come in are stored
    at the front of the input buffer, and nothing else of it changes. -/
structure MasterExact (hw : Controller) (out indata : Option (List Byte)) (n : Nat) (m : Master) :
    Prop where
  sent : sentBits m.trace = wire (outBytes out n)
  size : ∀ t ∈ m.trace, t.sent.length ≤ 512
  received : ∃ bs : List Byte, bs.length = n ∧ receivedBits m.trace = wire bs ∧
    m.indata = indata.map (overwrite · 0 bs)
  /-- Looped back, the bytes that go out are those that are stored. -/
  echo : LoopedBack hw → m.indata = indata.map (overwrite · 0 (outBytes out n))

section Whole

variable {out indata : Option (List Byte)} {n : Nat}

theorem wire_injective {bs cs : List Byte} (h : wire bs = wire cs) : bs = cs := by
  induction bs generalizing cs with
  | nil =>
    have hlen := congrArg List.length h
    rw [length_wire, length_wire, List.length_nil] at hlen
    exact (List.length_eq_zero_iff.mp (by omega)).symm
  | cons b bs ih =>
    cases cs with
    | nil =>
      have hlen := congrArg List.length h
      rw [length_wire, length_wire, List.length_nil, List.length_cons] at hlen
      omega
    | cons c cs =>
      have hcons : (List.range 8).map b.getMsbD ++ wire bs =
          (List.range 8).map c.getMsbD ++ wire cs := h
      obtain ⟨hhead, htail⟩ := List.append_inj hcons (by simp)
      have hbit : b = c := by
        apply BitVec.eq_of_getMsbD_eq
        intro i hi
        have hget := congrArg (·[i]?) hhead
        simpa [hi] using hget
      rw [hbit, ih htail]

theorem length_outBytes (hout : ∀ block, out = some block → n ≤ block.length) :
    (outBytes out n).length = n := by
  cases out with
  | none => exact List.length_replicate
  | some block => exact List.length_take_of_le (hout block rfl)

theorem supplies_outBytes (hout : ∀ block, out = some block → n ≤ block.length) :
    Supplies out (outBytes out n) := by
  intro i hi
  rw [length_outBytes hout] at hi
  cases out with
  | none =>
    refine ⟨0xFF, rfl, ?_⟩
    show (List.replicate n 0xFF)[i]? = _
    rw [List.getElem?_replicate, if_pos hi]
  | some block =>
    have hlt : i < block.length := Nat.lt_of_lt_of_le hi (hout block rfl)
    refine ⟨block[i], load_of_lt hlt, ?_⟩
    show (block.take n)[i]? = _
    rw [List.getElem?_take_of_lt hi, List.getElem?_eq_getElem hlt]

/-- The operation goes by the product in 32 bits. -/
theorem spiMasterOp_eq {hw : Controller} (hdoc : Documented hw) {regs : Regs}
    (hregs : Selected regs) (buffer : Fin 16 → BitVec 32) {word_size len : BitVec 32}
    (hn : n = (word_size * len).toNat)
    (hout : ∀ block, out = some block → n ≤ block.length)
    (hin : ∀ block, indata = some block → n ≤ block.length) :
    ∃ m, spiMasterOp hw regs buffer word_size len out indata = .ok m ∧
      MasterExact hw out indata n m := by
  have hlen := length_outBytes hout
  have hstart : Served hw (outBytes out n) indata ⟨regs, [], buffer, n, 0, indata, 0⟩ 0 := by
    refine ⟨hregs, Nat.zero_le _, by rw [hlen]; rfl, rfl, rfl, nofun, ⟨[], rfl, rfl, ?_,
      fun _ => rfl⟩, fun _ => rfl⟩
    cases indata with
    | none => rfl
    | some block =>
      show some block = some (overwrite block 0 [])
      rw [overwrite_nil]
  obtain ⟨m, hrun, hserved⟩ := hstart.run hdoc (supplies_outBytes hout)
    (by rw [hlen]; exact hin) (n + 1) (Nat.lt_succ_self n)
  obtain ⟨-, -, -, -, hsent, hsize, ⟨bs, hbs, hreceived, hindata, -⟩, hecho⟩ := hserved
  rw [List.take_length] at hsent
  rw [hlen] at hbs
  refine ⟨m, ?_, hsent, hsize, ⟨bs, hbs, hreceived, hindata⟩, ?_⟩
  · unfold spiMasterOp
    rw [← hn]
    exact hrun
  · intro hloop
    have hsame : bs = outBytes out n := by
      apply wire_injective
      rw [← hreceived, hecho hloop, hsent]
    rw [hindata, hsame]

end Whole

/-- The operation is exact just where the number of bytes fits in 32 bits. -/
theorem spiMasterOp_exact_iff {hw : Controller} (hdoc : Documented hw) {regs : Regs}
    (hregs : Selected regs) (buffer : Fin 16 → BitVec 32) (word_size len : BitVec 32)
    (out indata : Option (List Byte))
    (hout : ∀ block, out = some block → word_size.toNat * len.toNat ≤ block.length)
    (hin : ∀ block, indata = some block → word_size.toNat * len.toNat ≤ block.length) :
    (∃ m, spiMasterOp hw regs buffer word_size len out indata = .ok m ∧
      MasterExact hw out indata (word_size.toNat * len.toNat) m) ↔
      word_size.toNat * len.toNat < 2 ^ 32 := by
  have hprod : (word_size * len).toNat = word_size.toNat * len.toNat % 2 ^ 32 :=
    BitVec.toNat_mul ..
  constructor
  · rintro ⟨m, hop, hexact⟩
    have hle : (word_size * len).toNat ≤ word_size.toNat * len.toNat := by
      rw [hprod]
      exact Nat.mod_le ..
    obtain ⟨m', hop', hexact'⟩ := spiMasterOp_eq hdoc hregs buffer rfl
      (fun block hblock => Nat.le_trans hle (hout block hblock))
      (fun block hblock => Nat.le_trans hle (hin block hblock))
    rw [hop] at hop'
    obtain rfl := Except.ok.inj hop'
    obtain ⟨bs, hbs, hreceived, -⟩ := hexact.received
    obtain ⟨bs', hbs', hreceived', -⟩ := hexact'.received
    have hsame : bs = bs' := wire_injective (hreceived.symm.trans hreceived')
    rw [← hbs, hsame, hbs']
    exact (word_size * len).isLt
  · intro hlt
    rw [Nat.mod_eq_of_lt hlt] at hprod
    exact spiMasterOp_eq hdoc hregs buffer hprod.symm hout hin

/-- Registers as `spi_select` leaves them. -/
def selectedRegs : Regs := ⟨true, true, true, 0, 0, fun _ => 0⟩

/-- Three words of two bytes. -/
theorem spiMasterOp_exact_iff_words :
    (∃ m, spiMasterOp loopback selectedRegs (fun _ => 0) 2 3 (some [1, 2, 3, 4, 5, 6])
        (some [9, 9, 9, 9, 9, 9, 9]) = .ok m ∧
      MasterExact loopback (some [1, 2, 3, 4, 5, 6]) (some [9, 9, 9, 9, 9, 9, 9])
        ((2 : BitVec 32).toNat * (3 : BitVec 32).toNat) m) ↔
      (2 : BitVec 32).toNat * (3 : BitVec 32).toNat < 2 ^ 32 := by
  apply spiMasterOp_exact_iff loopback_documented ⟨rfl, rfl, rfl⟩
  · intro block hblock
    cases hblock
    decide
  · intro block hblock
    cases hblock
    decide

/-- Words of 65536 bytes, as many: no byte goes out. -/
theorem not_spiMasterOp_exact : Documented loopback ∧ Selected selectedRegs ∧
    ¬ ∃ m, spiMasterOp loopback selectedRegs (fun _ => 0) 65536 65536 none none = .ok m ∧
      MasterExact loopback none none ((65536 : BitVec 32).toNat * (65536 : BitVec 32).toNat) m := by
  refine ⟨loopback_documented, ⟨rfl, rfl, rfl⟩, ?_⟩
  rintro ⟨m, hop, hexact⟩
  have hzero : (65536 : BitVec 32) * 65536 = 0 := by decide
  have hidle : spiMasterOp loopback selectedRegs (fun _ => 0) 65536 65536 none none =
      .ok ⟨selectedRegs, [], fun _ => 0, 0, 0, none, 0⟩ := by
    unfold spiMasterOp
    rw [hzero]
    rfl
  rw [hidle] at hop
  obtain rfl := Except.ok.inj hop
  obtain ⟨bs, hbs, hreceived, -⟩ := hexact.received
  have hnone : bs = [] := wire_injective hreceived.symm
  rw [hnone] at hbs
  exact absurd hbs (by decide)

end LuaRtos.Spi
