/-
  LuaRtos.Drivers.EspiSends

  The write part of `spi_transfer_data` as a sequence of transfers, one for each
  block of 64 bytes and one for the rest.

  The loop of the code goes word by word, and starts a transfer when the data
  buffer is full, or after the loop.  `Sends` does not tell the two apart.
-/

import LuaRtos.CLib.File
import LuaRtos.Drivers.EspiBuffer

namespace LuaRtos.Espi

open CLib

/-- The data buffer with other words. -/
def Xfer.fill (x : Xfer) (buf : Fin 16 → BitVec 32) : Xfer :=
  { x with regs := { x.regs with data_buf := buf } }

/-- The blocks are sent one after the other. -/
inductive Sends (hw : Controller) (duplex : Bool) : List (List Byte) → Xfer → Xfer → Prop
  | nil (x : Xfer) : Sends hw duplex [] x x
  | cons {c : List Byte} {cs : List (List Byte)} {x x₁ x' : Xfer} {buf : Fin 16 → BitVec 32}
      (hbuf : Filled buf c c.length)
      (hx : exchange hw duplex (c.length * 8) (x.fill buf) = .ok x₁)
      (h : Sends hw duplex cs x₁ x') : Sends hw duplex (c :: cs) x x'

/-- The input buffer has room for what is to be read. -/
def Ready (x : Xfer) : Prop :=
  x.rdcount = 0 ∨ ∃ b, x.indata = some b ∧ x.rd_read + x.rdcount ≤ b.length

section Sends

variable (hw : Controller) {data : List Byte} {wrlen : Nat} {x : Xfer}

/-- The state at the start of a transfer in duplex mode. -/
def Xfer.duplexed (x : Xfer) : Xfer :=
  { x with regs := { x.regs with usr_mosi_dbitlen := dbitlen (readBits x.rdcount) } }

/-- The bytes that are read of a transfer. -/
def Xfer.read (x : Xfer) : List Byte := window (bufBytes x.regs.data_buf) 0 (min x.rdcount 64)

theorem length_read (x : Xfer) : x.read.length = min x.rdcount 64 := by
  apply length_window
  rw [length_bufBytes]
  omega

/-- A transfer in duplex mode, where nothing is to be read or there is room for it. -/
theorem exchange_duplex (hready : Ready x) (bits : Nat) :
    x.rdcount = 0 ∧ exchange hw true bits x = .ok (x.duplexed.start hw) ∨
      ∃ b, x.indata = some b ∧ x.rd_read + x.rdcount ≤ b.length ∧
        exchange hw true bits x =
          .ok ((x.duplexed.start hw).stored b (x.duplexed.start hw).read) := by
  have hcount : (x.duplexed.start hw).rdcount = x.rdcount := rfl
  have hread : (x.duplexed.start hw).rd_read = x.rd_read := rfl
  have heq : exchange hw true bits x = readBuf (readBits x.rdcount) (x.duplexed.start hw) := rfl
  rw [heq, ← hcount]
  rcases hready with hnone | ⟨b, hb, hroom⟩
  · exact .inl ⟨hnone, readBuf_none hnone⟩
  · exact .inr ⟨b, hb, hroom, readBuf_eq hb (by omega)⟩

theorem exchange_ready (duplex : Bool) (hready : Ready x) (bits : Nat) :
    ∃ x₁, exchange hw duplex bits x = .ok x₁ ∧ Ready x₁ := by
  cases duplex with
  | false => exact ⟨_, rfl, hready⟩
  | true =>
    rcases exchange_duplex hw hready bits with ⟨hnone, heq⟩ | ⟨b, hb, hroom, heq⟩
    · exact ⟨_, heq, .inl hnone⟩
    · refine ⟨_, heq, .inr ⟨_, rfl, ?_⟩⟩
      have hlen : (x.duplexed.start hw).read.length = min x.rdcount 64 := length_read _
      have hread : (x.duplexed.start hw).rd_read = x.rd_read := rfl
      rw [length_overwrite (by omega)]
      show x.rd_read + (x.duplexed.start hw).read.length +
        (x.rdcount - (x.duplexed.start hw).read.length) ≤ b.length
      omega

/-! ## The loop over the words -/

theorem sendRound_eq (duplex : Bool) (x : Xfer) (hlen : wrlen ≤ data.length) {c j : Nat}
    {buf : Fin 16 → BitVec 32} (hj : j < 16) (hc : c + 4 * j < wrlen)
    (hbuf : Filled buf (data.drop c) (4 * j)) :
    ∃ buf', Filled buf' (data.drop c) (4 * j + min 4 (wrlen - (c + 4 * j))) ∧
      sendRound hw duplex data wrlen ⟨x.fill buf, c + 4 * j, j, 4 * j * 8⟩ =
        if j + 1 = 16 then do
          let x ← exchange hw duplex ((4 * j + min 4 (wrlen - (c + 4 * j))) * 8) (x.fill buf')
          pure ⟨x, c + 4 * j + min 4 (wrlen - (c + 4 * j)), 0, 0⟩
        else pure ⟨x.fill buf', c + 4 * j + min 4 (wrlen - (c + 4 * j)), j + 1,
          (4 * j + min 4 (wrlen - (c + 4 * j))) * 8⟩ := by
  obtain ⟨wd, hpack, -, hbytes⟩ : ∃ wd', packWord data wrlen 4 0 (0, c + 4 * j, 4 * j * 8) =
      .ok (wd', c + 4 * j + min 4 (wrlen - (c + 4 * j)),
        4 * j * 8 + min 4 (wrlen - (c + 4 * j)) * 8) ∧ _ ∧ _ :=
    packWord_eq hlen (by omega) (by omega) hc fun i _ => byteAt_zero _
  have hword : ∀ i < min 4 (wrlen - (c + 4 * j)),
      (data.drop c)[4 * j + i]? = some (byteAt wd (i * 8)) := by
    intro i hi
    have hbyte := hbytes i hi
    rw [Nat.zero_add] at hbyte
    rw [List.getElem?_drop, ← Nat.add_assoc, hbyte]
  refine ⟨_, hbuf.word hj (by omega) hword, ?_⟩
  unfold sendRound
  dsimp only
  rw [hpack, ok_bind]
  dsimp only
  rw [dif_pos hj, Nat.add_mul]
  rfl

/-- Whole words are packed up to the last of the buffer. -/
theorem fill_rounds (duplex : Bool) (x : Xfer) (hlen : wrlen ≤ data.length) {c j : Nat}
    (hj : j ≤ 15) (hc : c + 4 * j ≤ wrlen) : ∃ buf, Filled buf (data.drop c) (4 * j) ∧
      Rounds (sendGoes wrlen) (sendRound hw duplex data wrlen) ⟨x, c, 0, 0⟩
        ⟨x.fill buf, c + 4 * j, j, 4 * j * 8⟩ := by
  induction j with
  | zero => exact ⟨x.regs.data_buf, fun i hi => by omega, .refl _⟩
  | succ j ih =>
    have hj' : j < 16 := by omega
    obtain ⟨buf, hbuf, hrounds⟩ := ih (by omega) (by omega)
    obtain ⟨buf', hbuf', hround⟩ := sendRound_eq hw duplex x hlen hj' (by omega) hbuf
    have hfour : min 4 (wrlen - (c + 4 * j)) = 4 := by omega
    rw [hfour] at hbuf' hround
    rw [if_neg (by omega)] at hround
    have hgoes : sendGoes wrlen ⟨x.fill buf, c + 4 * j, j, 4 * j * 8⟩ = true :=
      decide_eq_true (by show c + 4 * j < wrlen; omega)
    exact ⟨buf', hbuf', hrounds.trans (.one hgoes hround)⟩

/-- The rounds for a block: the last one starts the transfer, or leaves it to after
    the loop. -/
theorem block_rounds (duplex : Bool) (x : Xfer) (hlen : wrlen ≤ data.length) {c n : Nat}
    (hc : c < wrlen) (hn : n = min 64 (wrlen - c)) : ∃ buf, Filled buf (data.drop c) n ∧
      ((∀ x₁, exchange hw duplex (n * 8) (x.fill buf) = .ok x₁ →
          Rounds (sendGoes wrlen) (sendRound hw duplex data wrlen) ⟨x, c, 0, 0⟩
            ⟨x₁, c + n, 0, 0⟩) ∨
        c + n = wrlen ∧ ∃ idx, Rounds (sendGoes wrlen) (sendRound hw duplex data wrlen)
          ⟨x, c, 0, 0⟩ ⟨x.fill buf, c + n, idx, n * 8⟩) := by
  have hj : (n - 1) / 4 ≤ 15 := by omega
  have hlast : c + 4 * ((n - 1) / 4) < wrlen := by omega
  obtain ⟨buf, hbuf, hrounds⟩ := fill_rounds hw duplex x hlen hj (Nat.le_of_lt hlast)
  obtain ⟨buf', hbuf', hround⟩ := sendRound_eq hw duplex x hlen (by omega) hlast hbuf
  have hsum : 4 * ((n - 1) / 4) + min 4 (wrlen - (c + 4 * ((n - 1) / 4))) = n := by omega
  have hgoes : sendGoes wrlen
      ⟨x.fill buf, c + 4 * ((n - 1) / 4), (n - 1) / 4, 4 * ((n - 1) / 4) * 8⟩ = true :=
    decide_eq_true hlast
  rw [hsum, Nat.add_assoc, hsum] at hround
  rw [hsum] at hbuf'
  refine ⟨buf', hbuf', ?_⟩
  by_cases hfull : (n - 1) / 4 + 1 = 16
  · left
    intro x₁ hx
    rw [if_pos hfull, hx] at hround
    exact hrounds.trans (.one hgoes hround)
  · right
    rw [if_neg hfull] at hround
    exact ⟨by omega, _, hrounds.trans (.one hgoes hround)⟩

/-- What is done after the loop. -/
def finishSend (duplex : Bool) (s : Send) : Result Xfer :=
  if 0 < s.bits then exchange hw duplex s.bits s.x else pure s.x

theorem Filled.of_flatten {buf : Fin 16 → BitVec 32} {b rest : List Byte} {c : Nat}
    (h : Filled buf (data.drop c) b.length) (hc : c + b.length ≤ wrlen)
    (hflat : b ++ rest = (data.take wrlen).drop c) : Filled buf b b.length := by
  intro i hi
  have hget : (b ++ rest)[i]? = b[i]? := List.getElem?_append_left hi
  rw [h i hi, ← hget, hflat, List.getElem?_drop, List.getElem?_drop,
    List.getElem?_take_of_lt (by omega)]

/-- The loop and what is done after it send the blocks. -/
theorem blocks_rounds (duplex : Bool) (hlen : wrlen ≤ data.length) {cs : List (List Byte)}
    (hcs : InBlocks 64 cs) {c : Nat} (hc : c ≤ wrlen)
    (hflat : cs.flatten = (data.take wrlen).drop c) (hready : Ready x) :
    ∃ s x', Rounds (sendGoes wrlen) (sendRound hw duplex data wrlen) ⟨x, c, 0, 0⟩ s ∧
      sendGoes wrlen s = false ∧ finishSend hw duplex s = .ok x' ∧ Sends hw duplex cs x x' := by
  have htotal : cs.flatten.length = wrlen - c := by
    rw [hflat, List.length_drop, List.length_take_of_le hlen]
  induction hcs generalizing x c with
  | nil =>
    obtain rfl : c = wrlen := by
      rw [List.flatten_nil, List.length_nil] at htotal
      omega
    exact ⟨_, x, .refl _, decide_eq_false (Nat.lt_irrefl c), rfl, .nil x⟩
  | @last b hne hb =>
    have hpos : 0 < b.length := List.length_pos_iff.mpr hne
    rw [List.flatten_singleton] at htotal hflat
    have hfit : c + b.length = wrlen := by omega
    have hdone : ¬ c + b.length < wrlen := by omega
    obtain ⟨buf, hbuf, hblock⟩ := block_rounds hw duplex x hlen (by omega : c < wrlen)
      (by omega : b.length = min 64 (wrlen - c))
    have hbuf' : Filled buf b b.length :=
      hbuf.of_flatten (Nat.le_of_eq hfit) ((List.append_nil b).trans hflat)
    obtain ⟨x₁, hx, -⟩ := exchange_ready (x := x.fill buf) hw duplex hready (b.length * 8)
    rcases hblock with hrounds | ⟨-, idx, hrounds⟩
    · exact ⟨_, x₁, hrounds x₁ hx, decide_eq_false hdone, rfl, .cons hbuf' hx (.nil x₁)⟩
    · refine ⟨_, x₁, hrounds, decide_eq_false hdone, ?_, .cons hbuf' hx (.nil x₁)⟩
      unfold finishSend
      rw [if_pos (by show 0 < b.length * 8; omega)]
      exact hx
  | @cons b cs hb _ hrest ih =>
    have hpos : 0 < cs.flatten.length := List.length_pos_iff.mpr hrest
    rw [List.flatten_cons, List.length_append] at htotal
    rw [List.flatten_cons] at hflat
    obtain ⟨buf, hbuf, hblock⟩ := block_rounds hw duplex x hlen (by omega : c < wrlen)
      (by omega : b.length = min 64 (wrlen - c))
    have hbuf' : Filled buf b b.length := hbuf.of_flatten (by omega) hflat
    obtain ⟨x₁, hx, hready₁⟩ := exchange_ready (x := x.fill buf) hw duplex hready (b.length * 8)
    have hflat' : cs.flatten = (data.take wrlen).drop (c + b.length) := by
      rw [← List.drop_drop, ← hflat, List.drop_left]
    rcases hblock with hrounds | ⟨hend, -⟩
    · obtain ⟨s, x', hrounds', hdone, hfinish, hsends⟩ := ih (by omega) hflat' hready₁ (by omega)
      exact ⟨s, x', (hrounds x₁ hx).trans hrounds', hdone, hfinish, .cons hbuf' hx hsends⟩
    · omega

theorem sendRound_lt {duplex : Bool} {s s' : Send} (h : sendRound hw duplex data wrlen s = .ok s') :
    s.count < s'.count := by
  obtain ⟨⟨wd, count, bits⟩, hpack, h⟩ := bind_eq_ok.mp h
  have hlt : s.count < count := packWord_lt hpack
  dsimp only at h
  split at h
  · split at h
    · obtain ⟨x, -, h⟩ := bind_eq_ok.mp h
      cases h
      exact hlt
    · cases h
      exact hlt
  · cases h

/-- The write part sends the bytes in blocks. -/
theorem sendAll_sends (duplex : Bool) (hlen : wrlen ≤ data.length) {cs : List (List Byte)}
    (hcs : InBlocks 64 cs) (hflat : cs.flatten = data.take wrlen) (hready : Ready x) :
    ∃ x', sendAll hw duplex data wrlen x = .ok x' ∧ Sends hw duplex cs x x' := by
  obtain ⟨s, x', hrounds, hdone, hfinish, hsends⟩ :=
    blocks_rounds hw duplex hlen hcs (Nat.zero_le wrlen) hflat hready
  have hless : ∀ s s' : Send, sendGoes wrlen s = true →
      sendRound hw duplex data wrlen s = .ok s' → wrlen - s'.count < wrlen - s.count := by
    intro s s' hgoes hround
    have hlt := sendRound_lt hw hround
    have hmore : s.count < wrlen := of_decide_eq_true hgoes
    omega
  have hloop : whileLoop (sendGoes wrlen) (sendRound hw duplex data wrlen) (wrlen + 1)
      ⟨x, 0, 0, 0⟩ = .ok s := hrounds.whileLoop_eq hless hdone (Nat.lt_succ_self _)
  refine ⟨x', ?_, hsends⟩
  unfold sendAll
  rw [hloop]
  exact hfinish

end Sends

end LuaRtos.Espi
