/-
  LuaRtos.Drivers.DispTransfer

  The display transfers of drivers/espi.c: a command, and colours packed two to a word.

  The controller is that of `spi_transfer_data`.  `half` is the flag of the device for half duplex
  mode; what comes in otherwise is left in the data buffer, over the words that went out.
-/

import Mathlib.Algebra.Group.Nat.Defs
import LuaRtos.CLib.Mem
import LuaRtos.Drivers.EspiExact

namespace LuaRtos.Espi

open CLib

/-- What the display functions work on: the registers, the level of the DC pin, and the transfers
    so far with the level that they were made at. -/
structure Display where
  regs : Regs
  dc : Bool
  trace : List (Bool × Transfer)

def TFT_RAMWR : BitVec 8 := 0x2C

/-- `disp_spi_transfer_start`, and the wait for the end of the transfer. -/
def dispSpiTransferStart (hw : Controller) (half : Bool) (bits : Nat) (d : Display) : Display :=
  let regs := { d.regs with
    usr_mosi_dbitlen := dbitlen bits
    usr_mosi := true
    usr_miso_dbitlen := if half then 0 else dbitlen bits
    usr_miso := !half }
  let (t, buf) := hw (d.trace.map Prod.snd) regs
  { d with regs := { regs with data_buf := buf }, trace := d.trace ++ [(d.dc, t)] }

/-- `data_buf[idx] = wd`. -/
def Display.put (d : Display) (idx : Nat) (wd : BitVec 32) : Result Display :=
  if h : idx < 16 then
    pure { d with regs :=
      { d.regs with data_buf := Function.update d.regs.data_buf ⟨idx, h⟩ wd } }
  else throw .outOfBounds

/-- `disp_spi_transfer_cmd`. -/
def dispSpiTransferCmd (hw : Controller) (half : Bool) (cmd : BitVec 8) (d : Display) :
    Result Display := do
  let d ← { d with dc := false }.put 0 (cmd.signExtend 32)
  pure (dispSpiTransferStart hw half 8 d)

/-- The two bytes of a colour, in the order in which they go out. -/
def pixel (color : List Byte) (rep : Bool) (count : Nat) : Result (Byte × Byte) :=
  if rep then do
    -- get color data
    let b₀ ← load color 1
    let b₁ ← load color 0
    pure (b₀, b₁)
  else do
    -- get color data from buffer: the index is `count << 1` in 32 bits
    let b₀ ← load color (count * 2 % 2 ^ 32)
    let b₁ ← load color (count * 2 % 2 ^ 32 + 1)
    pure (b₀, b₁)

/-- What the loop of `disp_spi_transfer_color_rep` works on. -/
structure Fill where
  d : Display
  count : Nat
  idx : Nat
  bits : Nat

/-- A round of the loop: the second colour of a word is not there at an odd end. -/
def colorRound (hw : Controller) (half : Bool) (color : List Byte) (rep : Bool) (len : Nat)
    (s : Fill) : Result Fill := do
  let (b₀, b₁) ← pixel color rep s.count
  let wd : BitVec 32 := b₀.setWidth 32 ||| b₁.setWidth 32 <<< 8
  if s.count + 1 = len then do
    let d ← s.d.put s.idx wd
    pure ⟨d, s.count + 1, s.idx, s.bits + 16⟩
  else do
    let (b₂, b₃) ← pixel color rep (s.count + 1)
    let wd := wd ||| b₂.setWidth 32 <<< 16 ||| b₃.setWidth 32 <<< 24
    let d ← s.d.put s.idx wd
    if s.idx + 1 = 16 then
      -- SPI buffer full, send data
      pure ⟨dispSpiTransferStart hw half (s.bits + 32) d, s.count + 2, 0, 0⟩
    else pure ⟨d, s.count + 2, s.idx + 1, s.bits + 32⟩

def colorGoes (len : Nat) (s : Fill) : Bool := decide (s.count < len)

/-- `disp_spi_transfer_color_rep`. -/
def dispSpiTransferColorRep (hw : Controller) (half : Bool) (color : List Byte) (len : BitVec 32)
    (rep : Bool) (d : Display) : Result Display := do
  let d ← dispSpiTransferCmd hw half TFT_RAMWR d
  let s ← whileLoop (colorGoes len.toNat) (colorRound hw half color rep len.toNat)
    (len.toNat + 1) ⟨{ d with dc := true }, 0, 0, 0⟩
  if 0 < s.bits then pure (dispSpiTransferStart hw half s.bits s.d) else pure s.d

/-! ## What is to go out -/

/-- The bytes of the colours: a colour in memory has its low byte first, and goes out with its
    high byte first when it is repeated. -/
def colours (color : List Byte) (rep : Bool) (len : Nat) : List Byte :=
  if rep then (List.replicate len [color.getD 1 0, color.getD 0 0]).flatten
  else color.take (2 * len)

/-- The colour to repeat is there, or the colours of the buffer are.  A buffer is in an address
    space of 32 bits. -/
def HasColours (color : List Byte) (rep : Bool) (len : Nat) : Prop :=
  if rep then 2 ≤ color.length else 2 * len ≤ color.length ∧ color.length ≤ 2 ^ 32

/-- After the command there are transfers of data alone, which are the bytes and fit in the data
    buffer. -/
def SendsColours (bs : List Byte) (d d' : Display) : Prop :=
  ∃ t ts, d'.trace = d.trace ++ (false, t) :: ts.map (true, ·) ∧ t.sent = wire [0x2C] ∧
    sentBits ts = wire bs ∧ ∀ t ∈ ts, t.sent.length ≤ 16 * 32

section Pixels

variable {color : List Byte} {rep : Bool} {len i : Nat}

theorem getElem?_flatten_replicate (a b : Byte) {n i : Nat} (hi : i < n) :
    (List.replicate n [a, b]).flatten[2 * i]? = some a ∧
      (List.replicate n [a, b]).flatten[2 * i + 1]? = some b := by
  induction n generalizing i with
  | zero => exact absurd hi (Nat.not_lt_zero i)
  | succ n ih =>
    have hcons : (List.replicate (n + 1) [a, b]).flatten =
        a :: b :: (List.replicate n [a, b]).flatten := rfl
    rw [hcons]
    cases i with
    | zero => exact ⟨rfl, rfl⟩
    | succ i =>
      have hdouble : 2 * (i + 1) = 2 * i + 1 + 1 := by omega
      rw [hdouble]
      exact ih (Nat.lt_of_succ_lt_succ hi)

theorem length_flatten_replicate (a b : Byte) (n : Nat) :
    (List.replicate n [a, b]).flatten.length = 2 * n := by
  induction n with
  | zero => rfl
  | succ n ih =>
    rw [List.replicate_succ, List.flatten_cons, List.length_append, ih, Nat.mul_succ]
    exact Nat.add_comm _ _

theorem length_colours (h : HasColours color rep len) :
    (colours color rep len).length = 2 * len := by
  unfold colours
  unfold HasColours at h
  split
  · exact length_flatten_replicate _ _ len
  · next hrep =>
    rw [if_neg hrep] at h
    rw [List.length_take, Nat.min_eq_left h.1]

/-- A colour that is loaded is the one that is to go out. -/
theorem pixel_eq (h : HasColours color rep len) (hi : i < len) :
    ∃ b₀ b₁, pixel color rep i = .ok (b₀, b₁) ∧ (colours color rep len)[2 * i]? = some b₀ ∧
      (colours color rep len)[2 * i + 1]? = some b₁ := by
  unfold HasColours at h
  unfold pixel colours
  cases rep with
  | true =>
    rw [if_pos rfl] at h
    have hload : ∀ j, j < 2 → load color j = .ok (color.getD j 0) := by
      intro j hj
      have hlt : j < color.length := Nat.lt_of_lt_of_le hj h
      rw [load_of_lt hlt, List.getD_eq_getElem?_getD, List.getElem?_eq_getElem hlt]
      rfl
    obtain ⟨hfst, hsnd⟩ := getElem?_flatten_replicate (color.getD 1 0) (color.getD 0 0) hi
    refine ⟨color.getD 1 0, color.getD 0 0, ?_, hfst, hsnd⟩
    rw [if_pos rfl, hload 1 (by decide), hload 0 (by decide)]
    rfl
  | false =>
    rw [if_neg (by decide)] at h ⊢
    rw [if_neg (by decide)]
    obtain ⟨hlen, hspace⟩ := h
    have hlt : i * 2 < color.length := by omega
    have hlt' : i * 2 + 1 < color.length := by omega
    have hmod : i * 2 % 2 ^ 32 = i * 2 := Nat.mod_eq_of_lt (by omega)
    refine ⟨color[i * 2], color[i * 2 + 1], ?_, ?_, ?_⟩
    · rw [hmod, load_of_lt hlt, load_of_lt hlt']
      rfl
    · rw [List.getElem?_take_of_lt (by omega), Nat.mul_comm, List.getElem?_eq_getElem hlt]
    · rw [List.getElem?_take_of_lt (by omega), Nat.mul_comm, List.getElem?_eq_getElem hlt']

end Pixels

/-! ## A word -/

section Words

theorem byteAt_setWidth (b : Byte) : byteAt (b.setWidth 32) 0 = b := by
  have h := @byteAt_or_self 0#32 0 b (by decide) (byteAt_zero 0)
  rwa [BitVec.shiftLeft_zero, BitVec.zero_or] at h

theorem byteAt_setWidth_high (b : Byte) {bc : Nat} (hbc : 8 ≤ bc) :
    byteAt (b.setWidth 32) bc = 0 := by
  have h := @byteAt_or_of_ne 0#32 0 bc b (.inl hbc)
  rw [BitVec.shiftLeft_zero, BitVec.zero_or] at h
  exact h.trans (byteAt_zero bc)

/-- The bytes of a colour in a word. -/
theorem byteAt_one (b₀ b₁ : Byte) :
    byteAt (b₀.setWidth 32 ||| b₁.setWidth 32 <<< 8) 0 = b₀ ∧
      byteAt (b₀.setWidth 32 ||| b₁.setWidth 32 <<< 8) 8 = b₁ ∧
      ∀ bc, 16 ≤ bc → byteAt (b₀.setWidth 32 ||| b₁.setWidth 32 <<< 8) bc = 0 := by
  refine ⟨?_, ?_, ?_⟩
  · rw [byteAt_or_of_ne b₁ (.inr (by decide)), byteAt_setWidth]
  · exact byteAt_or_self b₁ (by decide) (byteAt_setWidth_high b₀ (by decide))
  · intro bc hbc
    rw [byteAt_or_of_ne b₁ (.inl hbc), byteAt_setWidth_high b₀ (by omega)]

/-- The bytes of two colours in a word. -/
theorem byteAt_two {wd : BitVec 32} (b₂ b₃ : Byte) (hwd : ∀ bc, 16 ≤ bc → byteAt wd bc = 0) :
    (∀ bc, bc ≤ 8 → byteAt (wd ||| b₂.setWidth 32 <<< 16 ||| b₃.setWidth 32 <<< 24) bc =
      byteAt wd bc) ∧
      byteAt (wd ||| b₂.setWidth 32 <<< 16 ||| b₃.setWidth 32 <<< 24) 16 = b₂ ∧
      byteAt (wd ||| b₂.setWidth 32 <<< 16 ||| b₃.setWidth 32 <<< 24) 24 = b₃ := by
  refine ⟨?_, ?_, ?_⟩
  · intro bc hbc
    rw [byteAt_or_of_ne b₃ (.inr (by omega)), byteAt_or_of_ne b₂ (.inr (by omega))]
  · rw [byteAt_or_of_ne b₃ (.inr (by decide))]
    exact byteAt_or_self b₂ (by decide) (hwd 16 (by decide))
  · apply byteAt_or_self b₃ (by decide)
    rw [byteAt_or_of_ne b₂ (.inl (by decide))]
    exact hwd 24 (by decide)

end Words

/-! ## The loop -/

/-- The first bytes have gone out but for the last `n`, which are in the data buffer. -/
structure Packed (cs : List Byte) (before : List (Bool × Transfer)) (s : Fill) (n : Nat) :
    Prop where
  le : n ≤ 2 * s.count
  bits : s.bits = n * 8
  dc : s.d.dc = true
  filled : Filled s.d.regs.data_buf (cs.drop (2 * s.count - n)) n
  sent : ∃ ts : List Transfer, s.d.trace = before ++ ts.map (true, ·) ∧
    sentBits ts = wire (cs.take (2 * s.count - n)) ∧ ∀ t ∈ ts, t.sent.length ≤ 16 * 32

section Loop

variable {hw : Controller} {half : Bool} {color : List Byte} {rep : Bool} {len : Nat}
variable {cs : List Byte} {before : List (Bool × Transfer)} {s s' : Fill} {n : Nat}

/-- A transfer sends the first bytes of the data buffer. -/
theorem start_sends (half : Bool) (hdoc : Documented hw) (d : Display) (hpos : 0 < n)
    (hn : n ≤ 64) :
    ∃ t, (dispSpiTransferStart hw half (n * 8) d).trace = d.trace ++ [(d.dc, t)] ∧
      t.sent = wire ((bufBytes d.regs.data_buf).take n) :=
  ⟨_, rfl, sent_eq hdoc rfl hpos hn rfl⟩

/-- The transfer of what is packed. -/
theorem Packed.burst (half : Bool) (hdoc : Documented hw) (h : Packed cs before s n)
    (hpos : 0 < n) (hn : n ≤ 64) (hlen : 2 * s.count ≤ cs.length) :
    Packed cs before ⟨dispSpiTransferStart hw half s.bits s.d, s.count, 0, 0⟩ 0 := by
  obtain ⟨hle, hbits, hdc, hfilled, ts, htrace, hsent, hsize⟩ := h
  obtain ⟨t, hstart, ht⟩ := start_sends half hdoc s.d hpos hn
  have hroom : n ≤ (cs.drop (2 * s.count - n)).length := by
    rw [List.length_drop]
    omega
  have hbytes : (bufBytes s.d.regs.data_buf).take n = (cs.drop (2 * s.count - n)).take n := by
    rw [← hfilled.window_eq hn hroom]
    rfl
  refine ⟨Nat.zero_le _, rfl, hdc, ?_, ts ++ [t], ?_, ?_, ?_⟩
  · intro i hi
    exact absurd hi (Nat.not_lt_zero i)
  · dsimp only
    rw [hbits, hstart, htrace, hdc, List.map_append, List.append_assoc]
    rfl
  · have hsum : 2 * s.count - n + n = 2 * s.count := by omega
    show sentBits (ts ++ [t]) = wire (cs.take (2 * s.count - 0))
    rw [Nat.sub_zero, ← hsum, List.take_add, wire_append, ← hsent, ← hbytes, ← ht, sentBits,
      List.flatMap_append, List.flatMap_singleton]
    rfl
  · intro t' ht'
    rcases List.mem_append.mp ht' with hold | hnew
    · exact hsize t' hold
    · rw [List.mem_singleton.mp hnew, ht, length_wire, List.length_take, length_bufBytes]
      omega

/-- The next word. -/
theorem Packed.put (h : Packed cs before s (4 * s.idx)) (hidx : s.idx < 16) {c m : Nat}
    (wd : BitVec 32) (hm : m ≤ 4) (hc : 2 * c = 2 * s.count + m)
    (hword : ∀ i < m, cs[2 * s.count + i]? = some (byteAt wd (i * 8))) :
    ∃ d, s.d.put s.idx wd = .ok d ∧
      ∀ idx, Packed cs before ⟨d, c, idx, s.bits + m * 8⟩ (4 * s.idx + m) := by
  obtain ⟨hle, hbits, hdc, hfilled, hsent⟩ := h
  have hbase : 2 * c - (4 * s.idx + m) = 2 * s.count - 4 * s.idx := by omega
  refine ⟨_, dif_pos hidx, ?_⟩
  intro idx
  refine ⟨?_, ?_, hdc, ?_, ?_⟩
  · show 4 * s.idx + m ≤ 2 * c
    omega
  · show s.bits + m * 8 = (4 * s.idx + m) * 8
    omega
  · show Filled _ (cs.drop (2 * c - (4 * s.idx + m))) _
    rw [hbase]
    refine hfilled.word hidx hm ?_
    intro i hi
    have hat : 2 * s.count - 4 * s.idx + (4 * s.idx + i) = 2 * s.count + i := by omega
    rw [List.getElem?_drop, hat]
    exact hword i hi
  · show ∃ ts : List Transfer, _ ∧ sentBits ts = wire (cs.take (2 * c - (4 * s.idx + m))) ∧ _
    rw [hbase]
    exact hsent

/-- A round packs one word, or the half of it at an odd end, and sends a full buffer. -/
theorem Packed.round (half : Bool) (hdoc : Documented hw) (hcolor : HasColours color rep len)
    (h : Packed (colours color rep len) before s (4 * s.idx)) (hidx : s.idx < 16)
    (hmore : s.count < len) :
    ∃ s', colorRound hw half color rep len s = .ok s' ∧ s.count < s'.count ∧ s'.count ≤ len ∧
      ((s'.idx < 16 ∧ Packed (colours color rep len) before s' (4 * s'.idx)) ∨
        s'.count = len ∧ ∃ n, n ≤ 64 ∧ Packed (colours color rep len) before s' n) := by
  obtain ⟨b₀, b₁, hpixel, hget₀, hget₁⟩ := pixel_eq hcolor hmore
  obtain ⟨hbyte₀, hbyte₁, hzero⟩ := byteAt_one b₀ b₁
  unfold colorRound
  rw [hpixel, ok_bind]
  dsimp only
  by_cases hlast : s.count + 1 = len
  · rw [if_pos hlast]
    obtain ⟨d, hput, hpacked⟩ := h.put (c := s.count + 1) (m := 2) hidx
      (b₀.setWidth 32 ||| b₁.setWidth 32 <<< 8) (by decide) (by omega) (by
        intro i hi
        rcases Nat.lt_succ_iff_lt_or_eq.mp hi with hi | rfl
        · obtain rfl : i = 0 := Nat.lt_one_iff.mp hi
          exact hget₀.trans (congrArg some hbyte₀.symm)
        · exact hget₁.trans (congrArg some hbyte₁.symm))
    rw [hput]
    refine ⟨_, rfl, Nat.lt_succ_self _, Nat.le_of_eq hlast, .inr ⟨hlast, _, ?_, hpacked s.idx⟩⟩
    omega
  · rw [if_neg hlast]
    have hnext : s.count + 1 < len := by omega
    obtain ⟨b₂, b₃, hpixel', hget₂, hget₃⟩ := pixel_eq hcolor hnext
    obtain ⟨hlow, hbyte₂, hbyte₃⟩ := byteAt_two b₂ b₃ hzero
    obtain ⟨d, hput, hpacked⟩ := h.put (c := s.count + 2) (m := 4) hidx
      (b₀.setWidth 32 ||| b₁.setWidth 32 <<< 8 ||| b₂.setWidth 32 <<< 16 |||
        b₃.setWidth 32 <<< 24) (by decide) (by omega) (by
        intro i hi
        obtain rfl | rfl | rfl | rfl : i = 0 ∨ i = 1 ∨ i = 2 ∨ i = 3 := by omega
        · rw [hlow 0 (by decide), hbyte₀]
          exact hget₀
        · rw [hlow 8 (by decide), hbyte₁]
          exact hget₁
        · rw [hbyte₂]
          exact hget₂
        · rw [hbyte₃]
          exact hget₃)
    rw [hpixel', ok_bind]
    dsimp only
    rw [hput, ok_bind]
    by_cases hfull : s.idx + 1 = 16
    · rw [if_pos hfull]
      have hburst := (hpacked 0).burst half hdoc (by omega) (by omega) (by
        rw [length_colours hcolor]
        show 2 * (s.count + 2) ≤ _
        omega)
      refine ⟨_, rfl, by show _ < s.count + 2; omega, hnext, .inl ⟨Nat.zero_lt_succ 15, hburst⟩⟩
    · rw [if_neg hfull]
      refine ⟨_, rfl, by show _ < s.count + 2; omega, hnext, .inl ⟨?_, hpacked _⟩⟩
      show s.idx + 1 < 16
      omega

/-- The loop packs all the colours. -/
theorem Packed.rounds (half : Bool) (hdoc : Documented hw) (hcolor : HasColours color rep len)
    (k : Nat) (hk : len - s.count = k) (hle : s.count ≤ len)
    (h : Packed (colours color rep len) before s (4 * s.idx)) (hidx : s.idx < 16) :
    ∃ s' n, Rounds (colorGoes len) (colorRound hw half color rep len) s s' ∧ s'.count = len ∧
      n ≤ 64 ∧ Packed (colours color rep len) before s' n := by
  induction k using Nat.strongRecOn generalizing s with
  | ind k ih =>
    by_cases hmore : s.count < len
    · obtain ⟨s₁, hround, hlt, hle₁, hnext⟩ := h.round half hdoc hcolor hidx hmore
      have hgoes : colorGoes len s = true := decide_eq_true hmore
      have hone := Rounds.one hgoes hround
      rcases hnext with ⟨hidx₁, h₁⟩ | ⟨hend, n, hn, h₁⟩
      · obtain ⟨s', n, hrounds, hrest⟩ := ih (len - s₁.count) (by omega) rfl hle₁ h₁ hidx₁
        exact ⟨s', n, hone.trans hrounds, hrest⟩
      · exact ⟨s₁, n, hone, hend, hn, h₁⟩
    · exact ⟨s, 4 * s.idx, .refl s, by omega, by omega, h⟩

/-- The rounds that are left get fewer. -/
theorem colorRound_lt (hround : colorRound hw half color rep len s = .ok s') :
    s.count < s'.count := by
  obtain ⟨⟨b₀, b₁⟩, -, hround⟩ := bind_eq_ok.mp hround
  dsimp only at hround
  split at hround
  · obtain ⟨d, -, hround⟩ := bind_eq_ok.mp hround
    cases hround
    exact Nat.lt_succ_self _
  · obtain ⟨⟨b₂, b₃⟩, -, hround⟩ := bind_eq_ok.mp hround
    obtain ⟨d, -, hround⟩ := bind_eq_ok.mp hround
    split at hround
    · cases hround
      exact Nat.lt_add_of_pos_right (Nat.zero_lt_succ 1)
    · cases hround
      exact Nat.lt_add_of_pos_right (Nat.zero_lt_succ 1)

end Loop

theorem byteAt_signExtend (cmd : BitVec 8) : byteAt (cmd.signExtend 32) 0 = cmd := by
  apply BitVec.eq_of_getLsbD_eq
  intro i hi
  rw [getLsbD_byteAt, decide_eq_true hi, Bool.true_and, Nat.zero_add, BitVec.getLsbD_signExtend,
    if_pos hi, decide_eq_true (by omega), Bool.true_and]

/-- A command is one byte, with DC low. -/
theorem dispSpiTransferCmd_sends {hw : Controller} (hdoc : Documented hw) (half : Bool)
    (cmd : BitVec 8) (d : Display) :
    ∃ d' t, dispSpiTransferCmd hw half cmd d = .ok d' ∧ d'.trace = d.trace ++ [(false, t)] ∧
      t.sent = wire [cmd] := by
  obtain ⟨t, hstart, ht⟩ := start_sends (n := 1) half hdoc
    ⟨{ d.regs with
      data_buf := Function.update d.regs.data_buf ⟨0, by decide⟩ (cmd.signExtend 32) },
      false, d.trace⟩ (by decide) (by decide)
  refine ⟨_, t, rfl, hstart, ?_⟩
  rw [ht]
  apply congrArg wire
  show [byteAt (Function.update d.regs.data_buf ⟨0, by decide⟩ (cmd.signExtend 32)
    ⟨0, by decide⟩) 0] = [cmd]
  rw [Function.update_self, byteAt_signExtend]

/-- `disp_spi_transfer_color_rep` sends the command and the colours, whatever comes in. -/
theorem dispSpiTransferColorRep_sends {hw : Controller} (hdoc : Documented hw) (half : Bool)
    (color : List Byte) (len : BitVec 32) (rep : Bool) (hcolor : HasColours color rep len.toNat)
    (d : Display) :
    ∃ d', dispSpiTransferColorRep hw half color len rep d = .ok d' ∧
      SendsColours (colours color rep len.toNat) d d' := by
  obtain ⟨d₁, t, hcmd, htrace, ht⟩ := dispSpiTransferCmd_sends hdoc half TFT_RAMWR d
  have hstart : Packed (colours color rep len.toNat) d₁.trace ⟨{ d₁ with dc := true }, 0, 0, 0⟩
      (4 * 0) := by
    refine ⟨Nat.le_refl _, rfl, rfl, ?_, [], (List.append_nil _).symm, rfl, ?_⟩
    · intro i hi
      exact absurd hi (Nat.not_lt_zero i)
    · intro t ht
      cases ht
  obtain ⟨s, n, hrounds, hend, hn, hpacked⟩ :=
    hstart.rounds half hdoc hcolor _ rfl (Nat.zero_le _) (Nat.zero_lt_succ 15)
  have hloop := hrounds.whileLoop_eq (μ := fun s => len.toNat - s.count)
    (fun s s' hgoes hround => by
      have hlt := colorRound_lt hround
      have hmore : s.count < len.toNat := of_decide_eq_true hgoes
      omega) (decide_eq_false (Nat.not_lt.mpr (Nat.le_of_eq hend.symm)))
    (Nat.lt_succ_self _)
  -- the transfer after the loop leaves nothing packed
  obtain ⟨d', hfinish, hdone⟩ : ∃ d',
      (if 0 < s.bits then pure (dispSpiTransferStart hw half s.bits s.d) else pure s.d) =
        (.ok d' : Result Display) ∧
      Packed (colours color rep len.toNat) d₁.trace ⟨d', s.count, 0, 0⟩ 0 := by
    by_cases hbits : 0 < s.bits
    · rw [if_pos hbits]
      have hpos : 0 < n := by
        have hsame := hpacked.bits
        omega
      have hroom : 2 * s.count ≤ (colours color rep len.toNat).length := by
        apply Nat.le_of_eq
        rw [length_colours hcolor, hend]
      exact ⟨_, rfl, hpacked.burst _ hdoc hpos hn hroom⟩
    · rw [if_neg hbits]
      obtain rfl : n = 0 := by
        have hsame := hpacked.bits
        omega
      exact ⟨s.d, rfl, hpacked.le, rfl, hpacked.dc, hpacked.filled, hpacked.sent⟩
  refine ⟨d', ?_, ?_⟩
  · unfold dispSpiTransferColorRep
    rw [hcmd, ok_bind]
    exact bind_eq_ok.mpr ⟨s, hloop, hfinish⟩
  · obtain ⟨ts, hts, hsent, hsize⟩ := hdone.sent
    refine ⟨t, ts, ?_, ht, ?_, hsize⟩
    · rw [hts, htrace, List.append_assoc]
      rfl
    · rw [hsent]
      show wire (List.take (2 * s.count) _) = _
      rw [hend, ← length_colours hcolor, List.take_length]

/-- Three copies of a colour. -/
theorem dispSpiTransferColorRep_sends_three :
    ∃ d', dispSpiTransferColorRep loopback true [0x34, 0x12] 3 true ⟨idleRegs, false, []⟩ =
        .ok d' ∧
      SendsColours [0x12, 0x34, 0x12, 0x34, 0x12, 0x34] ⟨idleRegs, false, []⟩ d' :=
  dispSpiTransferColorRep_sends loopback_documented true [0x34, 0x12] 3 true (Nat.le_refl 2) _

end LuaRtos.Espi
