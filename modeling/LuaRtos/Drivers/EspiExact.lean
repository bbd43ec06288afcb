/-
  LuaRtos.Drivers.EspiExact

  When `spi_transfer_data` clocks out the bytes to write and no other bit, and
  stores the bytes that come in.

  In duplex mode the bit length of a transfer is that of what is left to read.
  In half duplex mode both phases of the controller are on when there are bytes
  to write and bytes to read, and a bit length of zero is a phase of one bit.
-/

import LuaRtos.Drivers.EspiSends

namespace LuaRtos.Espi

open CLib

/-! ## Bits on the wire -/

section Wire

theorem length_wire (bs : List Byte) : (wire bs).length = bs.length * 8 := by
  induction bs with
  | nil => rfl
  | cons b bs ih =>
    have hcons : wire (b :: bs) = (List.range 8).map b.getMsbD ++ wire bs := rfl
    rw [hcons, List.length_append, ih, List.length_map, List.length_range, List.length_cons]
    omega

theorem wire_append (bs cs : List Byte) : wire (bs ++ cs) = wire bs ++ wire cs :=
  List.flatMap_append

theorem take_wire (bs : List Byte) (n : Nat) : (wire bs).take (n * 8) = wire (bs.take n) := by
  by_cases hn : n ≤ bs.length
  · have hlen : (wire (bs.take n)).length = n * 8 := by
      rw [length_wire, List.length_take_of_le hn]
    have hsplit : wire bs = wire (bs.take n) ++ wire (bs.drop n) := by
      rw [← wire_append, List.take_append_drop]
    rw [hsplit, ← hlen, List.take_left]
  · rw [List.take_of_length_le (by rw [length_wire]; omega), List.take_of_length_le (by omega)]

theorem toNat_dbitlen {n : Nat} (hpos : 0 < n) (hn : n ≤ 64) :
    (dbitlen (n * 8)).toNat + 1 = n * 8 := by
  have hbits : (BitVec.ofNat 32 (n * 8)).toNat = n * 8 := by
    rw [BitVec.toNat_ofNat]
    exact Nat.mod_eq_of_lt (by omega)
  unfold dbitlen
  rw [BitVec.toNat_setWidth]
  have hsub : (BitVec.ofNat 32 (n * 8) - 1).toNat = n * 8 - 1 := by bv_omega
  rw [hsub, Nat.mod_eq_of_lt (by omega)]
  omega

/-- A length of no bits wraps around. -/
theorem toNat_dbitlen_zero : (dbitlen (0 * 8)).toNat + 1 = 16777216 := rfl

theorem readBits_eq (rdcount : Nat) : readBits rdcount = min rdcount 64 * 8 := by
  unfold readBits
  split <;> omega

/-- What is clocked out by the transfers. -/
def sentBits (ts : List Transfer) : List Bool := ts.flatMap Transfer.sent

/-- What comes in. -/
def receivedBits (ts : List Transfer) : List Bool := ts.flatMap Transfer.received

end Wire

/-- The bytes to write go out, with no other bit, and the bytes that come in are
    stored: in duplex mode the first ones of those that come in meanwhile, else
    those that come in afterwards, with no other bit. -/
def Exact (duplex : Bool) (data indata : Option (List Byte)) (wrlen rdlen : Nat) (r : Xfer) :
    Prop :=
  ∃ bs : List Byte, bs.length = rdlen ∧ r.indata = indata.map (overwrite · 0 bs) ∧
    if duplex then
      sentBits r.trace = wire ((data.getD []).take wrlen) ∧ wire bs <+: receivedBits r.trace
    else ∃ ws rs, r.trace = ws ++ rs ∧ (∀ t ∈ ws, t.received = []) ∧ (∀ t ∈ rs, t.sent = []) ∧
      sentBits ws = wire ((data.getD []).take wrlen) ∧ receivedBits rs = wire bs

/-! ## One transfer -/

section One

variable {hw : Controller} {past : List Transfer} {r : Regs} {n : Nat}

/-- Whole bytes go out from the front of the data buffer. -/
theorem sent_eq (hdoc : Documented hw) (hmosi : r.usr_mosi = true) (hpos : 0 < n) (hn : n ≤ 64)
    (hbits : r.usr_mosi_dbitlen = dbitlen (n * 8)) :
    (hw past r).1.sent = wire ((bufBytes r.data_buf).take n) := by
  have hlen := toNat_dbitlen hpos hn
  rw [hdoc.write past r hmosi (by rw [hbits]; omega), hbits, hlen, take_wire]

/-- Whole bytes that have come in are at the front of the data buffer. -/
theorem received_eq (hdoc : Documented hw) (hlen : (hw past r).1.received.length = n * 8)
    (hn : n ≤ 64) : (hw past r).1.received = wire (window (bufBytes (hw past r).2) 0 n) := by
  have hpre := hdoc.read past r (by omega)
  rw [List.prefix_iff_eq_take.mp hpre, hlen, take_wire]
  rfl

end One

section Modes

variable {hw : Controller} {x x₁ x' : Xfer} {cs : List (List Byte)} {b : List Byte}

/-- The phases that are on, and the mode. -/
def Xfer.modes (x : Xfer) : Bool × Bool × Bool := (x.regs.usr_mosi, x.regs.usr_miso, x.regs.doutdin)

theorem modes_eq {mosi miso dout : Bool} (h : x.modes = (mosi, miso, dout)) :
    x.regs.usr_mosi = mosi ∧ x.regs.usr_miso = miso ∧ x.regs.doutdin = dout := by
  obtain ⟨hmosi, hrest⟩ := Prod.mk.inj h
  exact ⟨hmosi, Prod.mk.inj hrest⟩

theorem take_filled {buf : Fin 16 → BitVec 32} {c : List Byte} (h : Filled buf c c.length)
    (hc : c.length ≤ 64) : (bufBytes buf).take c.length = c := by
  have hwindow := h.window_eq hc (Nat.le_refl _)
  rwa [List.take_length] at hwindow

/-! ## Half duplex -/

/-- The write part in half duplex mode: with `usr_miso` every transfer has a read
    phase too. -/
theorem sends_half (hdoc : Documented hw) (hs : Sends hw false cs x x') {miso : Bool}
    (hmodes : x.modes = (true, miso, false)) (hcs : ∀ c ∈ cs, 0 < c.length ∧ c.length ≤ 64) :
    ∃ ts, x'.trace = x.trace ++ ts ∧ ts.length = cs.length ∧ sentBits ts = wire cs.flatten ∧
      (∀ t ∈ ts, t.sent ≠ [] ∧ (t.received = [] ↔ miso = false)) ∧
      x'.indata = x.indata ∧ x'.rdcount = x.rdcount ∧ x'.rd_read = x.rd_read ∧
      x'.modes = x.modes := by
  generalize hd : false = duplex at hs
  induction hs with
  | nil x => exact ⟨[], (List.append_nil _).symm, rfl, rfl, nofun, rfl, rfl, rfl, rfl⟩
  | @cons c cs x x₁ x' buf hbuf hx _ ih =>
    subst hd
    obtain ⟨hpos, hle⟩ := hcs c List.mem_cons_self
    obtain ⟨hmosi, hmiso, hdout⟩ := modes_eq hmodes
    obtain rfl := Except.ok.inj hx
    obtain ⟨ts, htrace, hcount, hsent, hts, hin, hrd, hread, hmodes'⟩ :=
      ih hmodes fun d hd => hcs d (List.mem_cons_of_mem c hd)
    -- the registers at the start of this transfer
    obtain ⟨r, hr⟩ : ∃ r : Regs, r = { (x.fill buf).regs with
      usr_mosi_dbitlen := dbitlen (c.length * 8), usr_miso_dbitlen := 0 } := ⟨_, rfl⟩
    have hsent₁ : (hw x.trace r).1.sent = wire c := by
      rw [sent_eq hdoc (by rw [hr]; exact hmosi) hpos hle (by rw [hr]), hr]
      exact congrArg wire (take_filled hbuf hle)
    have hne : (hw x.trace r).1.sent ≠ [] := by
      rw [hsent₁, ← List.length_pos_iff, length_wire]
      omega
    have hreceived : (hw x.trace r).1.received = [] ↔ miso = false := by
      cases miso with
      | false =>
        rw [hdoc.no_read x.trace r (by rw [hr]; exact hmiso)]
        exact ⟨fun _ => rfl, fun _ => rfl⟩
      | true =>
        have hlen := hdoc.read_length x.trace r (by rw [hr]; exact hmiso) (by rw [hr]; exact hdout)
        refine ⟨fun hnil => ?_, nofun⟩
        rw [hnil, List.length_nil] at hlen
        omega
    refine ⟨(hw x.trace r).1 :: ts, ?_, congrArg (· + 1) hcount, ?_, ?_, hin, hrd, hread, hmodes'⟩
    · rw [htrace, hr, List.append_cons]
      rfl
    · rw [List.flatten_cons, wire_append, ← hsent, ← hsent₁]
      rfl
    · intro t ht
      rcases List.mem_cons.mp ht with rfl | hrest
      · exact ⟨hne, hreceived⟩
      · exact hts t hrest

/-- The read loop in half duplex mode: with `usr_mosi` every transfer has a write
    phase too. -/
theorem receives_half (hdoc : Documented hw) {mosi : Bool} (hmodes : x.modes = (mosi, true, false))
    (hb : x.indata = some b) (hroom : x.rd_read + x.rdcount ≤ b.length) {fuel : Nat}
    (hfuel : x.rdcount < fuel) :
    ∃ rs bs x', whileLoop receiveGoes (receiveRound hw) fuel x = .ok x' ∧
      x'.trace = x.trace ++ rs ∧ receivedBits rs = wire bs ∧ bs.length = x.rdcount ∧
      x'.indata = some (overwrite b x.rd_read bs) ∧
      (mosi = false → ∀ t ∈ rs, t.sent = []) := by
  induction hn : x.rdcount using Nat.strongRecOn generalizing x b fuel with
  | ind n ih =>
    subst hn
    obtain ⟨k, rfl⟩ := Nat.exists_eq_add_one_of_ne_zero (Nat.ne_zero_of_lt hfuel)
    by_cases hzero : x.rdcount = 0
    · refine ⟨[], [], x, whileLoop_done ?_ k, (List.append_nil _).symm, rfl, hzero.symm, ?_, ?_⟩
      · exact decide_eq_false (by omega)
      · rw [overwrite_nil, hb]
      · exact fun _ _ h => absurd h List.not_mem_nil
    · obtain ⟨hmosi, hmiso, hdout⟩ := modes_eq hmodes
      obtain ⟨m, hm⟩ : ∃ m, m = min x.rdcount 64 := ⟨_, rfl⟩
      obtain ⟨r, hr⟩ : ∃ r : Regs, r = { x.regs with
        usr_mosi_dbitlen := 0, usr_miso_dbitlen := dbitlen (m * 8) } := ⟨_, rfl⟩
      have hlen : (hw x.trace r).1.received.length = m * 8 := by
        rw [hdoc.read_length x.trace r (by rw [hr]; exact hmiso) (by rw [hr]; exact hdout), hr]
        exact toNat_dbitlen (by omega) (by omega)
      have hreceived := received_eq hdoc hlen (by omega)
      obtain ⟨bs, hbs⟩ : ∃ bs, bs = window (bufBytes (hw x.trace r).2) 0 m := ⟨_, rfl⟩
      have hbslen : bs.length = m := by
        rw [hbs]
        apply length_window
        rw [length_bufBytes]
        omega
      -- after the transfer, and after its bytes are stored
      obtain ⟨y, hy⟩ : ∃ y : Xfer, y = { x with
        trace := x.trace ++ [(hw x.trace r).1]
        regs := { r with data_buf := (hw x.trace r).2 } } := ⟨_, rfl⟩
      have hycount : y.rdcount = x.rdcount := by rw [hy]
      have hyread : y.rd_read = x.rd_read := by rw [hy]
      obtain ⟨x₁, hx₁⟩ : ∃ x₁ : Xfer, x₁ = y.stored b bs := ⟨_, rfl⟩
      have hround : receiveRound hw x = .ok x₁ := by
        have hstart : receiveRound hw x = readBuf (readBits y.rdcount) y := by
          rw [hy, hr, hm, ← readBits_eq]
          rfl
        have hybuf : bufBytes y.regs.data_buf = bufBytes (hw x.trace r).2 := by rw [hy]
        rw [hstart, readBuf_eq (by rw [hy]; exact hb) (by omega), hx₁, hbs, hybuf, hycount, hm]
      have hcount : x₁.rdcount = x.rdcount - m := by
        rw [hx₁, ← hbslen, ← hycount]
        rfl
      have hrd : x₁.rd_read = x.rd_read + m := by
        rw [hx₁, ← hbslen, ← hyread]
        rfl
      have hin₁ : x₁.indata = some (overwrite b x.rd_read bs) := by
        rw [hx₁, ← hyread]
        rfl
      have hmodes₁ : x₁.modes = (mosi, true, false) := by
        rw [hx₁, hy, ← hmodes, hr]
        rfl
      have htrace₁ : x₁.trace = x.trace ++ [(hw x.trace r).1] := by
        rw [hx₁, hy]
        rfl
      have hgoes : receiveGoes x = true := decide_eq_true (Nat.pos_of_ne_zero hzero)
      have hlen' : (overwrite b x.rd_read bs).length = b.length := length_overwrite (by omega)
      have hfuel' : x₁.rdcount < k := by omega
      obtain ⟨rs, cs, x', hloop, htrace, hcs, hcslen, hin, hquiet⟩ :=
        ih x₁.rdcount (by omega) hmodes₁ hin₁ (by omega) hfuel' rfl
      refine ⟨(hw x.trace r).1 :: rs, bs ++ cs, x', ?_, ?_, ?_, ?_, ?_, ?_⟩
      · rw [whileLoop_round hgoes hround]
        exact hloop
      · rw [htrace, htrace₁]
        exact (List.append_cons ..).symm
      · rw [wire_append, ← hcs, hbs, ← hreceived]
        rfl
      · rw [List.length_append]
        omega
      · rw [hin, hrd, ← hbslen, overwrite_append (by omega)]
      · intro hmosi' t ht
        rcases List.mem_cons.mp ht with rfl | hrest
        · exact hdoc.no_write x.trace r (by rw [hr]; exact hmosi.trans hmosi')
        · exact hquiet hmosi' t hrest

/-! ## Duplex -/

/-- What a transfer in duplex mode does. -/
structure Exchanged (hw : Controller) (x x₁ : Xfer) (t : Transfer) : Prop where
  trace : x₁.trace = x.trace ++ [t]
  modes : x₁.modes = x.modes
  rdcount : x₁.rdcount = x.rdcount - min x.rdcount 64
  sent_length : t.sent.length = (dbitlen (min x.rdcount 64 * 8)).toNat + 1
  received_length : t.received.length = t.sent.length
  sent : 0 < x.rdcount → t.sent = wire ((bufBytes x.regs.data_buf).take (min x.rdcount 64))
  received : 0 < x.rdcount → ∀ b, x.indata = some b → x.rd_read + x.rdcount ≤ b.length →
    ∃ bs, bs.length = min x.rdcount 64 ∧ t.received = wire bs ∧
      x₁.indata = some (overwrite b x.rd_read bs) ∧ x₁.rd_read = x.rd_read + min x.rdcount 64

theorem exchange_exchanged (hdoc : Documented hw) (hready : Ready x)
    (hmodes : x.modes = (true, true, true)) {bits : Nat}
    (hx : exchange hw true bits x = .ok x₁) : ∃ t, Exchanged hw x x₁ t := by
  obtain ⟨hmosi, hmiso, hdout⟩ := modes_eq hmodes
  have hbits : x.duplexed.regs.usr_mosi_dbitlen = dbitlen (min x.rdcount 64 * 8) :=
    congrArg dbitlen (readBits_eq x.rdcount)
  have hsent := hdoc.write_length x.trace x.duplexed.regs hmosi
  have hreceived := hdoc.duplex_length x.trace x.duplexed.regs hmosi hmiso hdout
  rw [hbits] at hsent
  have hbytes : 0 < x.rdcount → (hw x.trace x.duplexed.regs).1.sent =
      wire ((bufBytes x.regs.data_buf).take (min x.rdcount 64)) :=
    fun hpos => sent_eq hdoc hmosi (by omega) (by omega) hbits
  refine ⟨(hw x.trace x.duplexed.regs).1, ?_⟩
  rcases exchange_duplex hw hready bits with ⟨hnone, heq⟩ | ⟨b, hb, hroom, heq⟩
  · obtain rfl := Except.ok.inj (hx.symm.trans heq)
    refine ⟨rfl, rfl, ?_, hsent, hreceived, hbytes, fun hpos => by omega⟩
    show x.rdcount = x.rdcount - _
    omega
  · obtain rfl := Except.ok.inj (hx.symm.trans heq)
    have hlen : (x.duplexed.start hw).read.length = min x.rdcount 64 := length_read _
    refine ⟨rfl, rfl, congrArg (x.rdcount - ·) hlen, hsent, hreceived, hbytes, ?_⟩
    intro hpos b' hb' _
    obtain rfl : b' = b := Option.some.inj (hb'.symm.trans hb)
    have hwhole : (hw x.trace x.duplexed.regs).1.received.length = min x.rdcount 64 * 8 := by
      rw [hreceived, hsent]
      exact toNat_dbitlen (by omega) (by omega)
    exact ⟨_, hlen, received_eq hdoc hwhole (by omega), rfl, congrArg (x.rd_read + ·) hlen⟩

/-- The bits that are clocked out by `m` transfers, with `rdcount` bytes to read. -/
def clocked : Nat → Nat → Nat
  | 0, _ => 0
  | m + 1, rdcount =>
    (dbitlen (min rdcount 64 * 8)).toNat + 1 + clocked m (rdcount - min rdcount 64)

/-- The write part in duplex mode clocks by what is to be read. -/
theorem sends_clocked (hdoc : Documented hw) (hs : Sends hw true cs x x')
    (hmodes : x.modes = (true, true, true)) (hready : Ready x) :
    ∃ ts, x'.trace = x.trace ++ ts ∧ (sentBits ts).length = clocked cs.length x.rdcount ∧
      (receivedBits ts).length = (sentBits ts).length := by
  generalize hd : true = duplex at hs
  induction hs with
  | nil x => exact ⟨[], (List.append_nil _).symm, rfl, rfl⟩
  | @cons c cs x x₁ x' buf hbuf hx _ ih =>
    subst hd
    obtain ⟨x₂, hx₂, hready'⟩ := exchange_ready (x := x.fill buf) hw true hready (c.length * 8)
    obtain rfl : x₂ = x₁ := Except.ok.inj (hx₂.symm.trans hx)
    obtain ⟨t, ht⟩ := exchange_exchanged (x := x.fill buf) hdoc hready hmodes hx
    obtain ⟨ts, htrace, hsent, hreceived⟩ := ih (ht.modes.trans hmodes) hready'
    have hcount : (x.fill buf).rdcount = x.rdcount := rfl
    refine ⟨t :: ts, ?_, ?_, ?_⟩
    · rw [htrace, ht.trace]
      exact (List.append_cons ..).symm
    · show (t.sent ++ sentBits ts).length = _
      rw [List.length_append, hsent, ht.sent_length, ht.rdcount, hcount]
      rfl
    · show (t.received ++ receivedBits ts).length = (t.sent ++ sentBits ts).length
      rw [List.length_append, List.length_append, hreceived, ht.received_length]

/-- With as many bytes to read as to write, both go as they should. -/
theorem sends_duplex (hdoc : Documented hw) (hs : Sends hw true cs x x') (hcs : InBlocks 64 cs)
    (hmodes : x.modes = (true, true, true)) (hcount : x.rdcount = cs.flatten.length)
    (hb : x.indata = some b) (hroom : x.rd_read + x.rdcount ≤ b.length) :
    ∃ ts bs, x'.trace = x.trace ++ ts ∧ sentBits ts = wire cs.flatten ∧
      receivedBits ts = wire bs ∧ bs.length = x.rdcount ∧
      x'.indata = some (overwrite b x.rd_read bs) := by
  generalize hd : true = duplex at hs
  induction hs generalizing b with
  | nil x =>
    refine ⟨[], [], (List.append_nil _).symm, rfl, rfl, hcount.symm, ?_⟩
    rw [overwrite_nil, hb]
  | @cons c cs x x₁ x' buf hbuf hx _ ih =>
    subst hd
    obtain ⟨hpos, hmin⟩ := hcs.head_length (by decide)
    rw [← hcount] at hmin
    have hle : c.length ≤ 64 := by omega
    have hready : Ready (x.fill buf) := .inr ⟨b, hb, hroom⟩
    obtain ⟨t, ht⟩ := exchange_exchanged (x := x.fill buf) hdoc hready hmodes hx
    have hn : min (x.fill buf).rdcount 64 = c.length := hmin.symm
    have hsent := ht.sent (by omega)
    obtain ⟨bs₁, hlen₁, hbs₁, hin₁, hread₁⟩ := ht.received (by omega) b hb hroom
    have hcount₁ := ht.rdcount
    rw [hn] at hsent hlen₁ hread₁ hcount₁
    have hfit : x.rd_read + bs₁.length ≤ b.length := by omega
    have hsame : (x.fill buf).rd_read = x.rd_read := rfl
    have hleft : (x.fill buf).rdcount = x.rdcount := rfl
    rw [hsame] at hread₁ hin₁
    rw [hleft] at hcount₁
    have hflat : (c :: cs).flatten.length = c.length + cs.flatten.length := by
      rw [List.flatten_cons, List.length_append]
    have hlen' : (overwrite b x.rd_read bs₁).length = b.length := length_overwrite hfit
    obtain ⟨ts, bs, htrace, hts, hbs, hbslen, hin⟩ :=
      ih hcs.tail (ht.modes.trans hmodes) (by omega) hin₁ (by omega)
    refine ⟨t :: ts, bs₁ ++ bs, ?_, ?_, ?_, ?_, ?_⟩
    · rw [htrace, ht.trace]
      exact (List.append_cons ..).symm
    · have hc : t.sent = wire c := hsent.trans (congrArg wire (take_filled hbuf hle))
      show t.sent ++ sentBits ts = _
      rw [hc, hts, List.flatten_cons, wire_append]
    · show t.received ++ receivedBits ts = _
      rw [hbs₁, hbs, wire_append]
    · rw [List.length_append]
      omega
    · rw [hin, hread₁, ← hlen₁, overwrite_append (by omega)]

end Modes

/-! ## The condition -/

theorem clocked_zero (m : Nat) : clocked m 0 = m * 16777216 := by
  induction m with
  | zero => rfl
  | succ m ih =>
    have hround : clocked (m + 1) 0 = 16777216 + clocked m 0 := rfl
    rw [hround, ih, Nat.succ_mul]
    omega

/-- The transfers of `w` bytes clock out as many bits only if there are as many bytes
    to read. -/
theorem le_of_clocked {m rdcount w : Nat} (hw : w ≤ 64 * m) (hm : 64 * m < w + 64)
    (h : clocked m rdcount = w * 8) : w ≤ rdcount := by
  induction m generalizing rdcount w with
  | zero => omega
  | succ m ih =>
    have hround : clocked (m + 1) rdcount = (dbitlen (min rdcount 64 * 8)).toNat + 1 +
      clocked m (rdcount - min rdcount 64) := rfl
    by_cases hzero : rdcount = 0
    · rw [hzero, clocked_zero] at h
      omega
    · rw [hround, toNat_dbitlen (by omega) (by omega)] at h
      by_cases hfull : 64 ≤ rdcount
      · have hmin : min rdcount 64 = 64 := Nat.min_eq_right hfull
        rw [hmin] at h
        by_cases hw64 : w ≤ 64
        · omega
        · have hle := @ih (rdcount - 64) (w - 64) (by omega) (by omega) (by omega)
          omega
      · have hmin : min rdcount 64 = rdcount := Nat.min_eq_left (by omega)
        rw [hmin, Nat.sub_self, clocked_zero] at h
        omega

/-- The lengths for which the bytes go as they should. -/
def Fits (duplex : Bool) (wrlen rdlen : Nat) : Prop :=
  if duplex then wrlen = rdlen else wrlen = 0 ∨ rdlen = 0

section Exact

variable {hw : Controller} {duplex : Bool} {regs : Regs} {data indata : Option (List Byte)}
  {wrlen rdlen : Nat}

theorem ready_of_length (x : Xfer) (hin : x.rd_read = 0)
    (h : x.rdcount ≤ (x.indata.getD []).length) : Ready x := by
  cases hb : x.indata with
  | none =>
    rw [hb] at h
    exact .inl (Nat.le_zero.mp h)
  | some b =>
    rw [hb] at h
    refine .inr ⟨b, hb, ?_⟩
    rw [hin, Nat.zero_add]
    exact h

/-- The state when the write part is done, and how the function goes on. -/
theorem exists_sends (hdata : wrlen ≤ (data.getD []).length)
    (hindata : rdlen ≤ (indata.getD []).length) :
    ∃ x x' cs, x.trace = [] ∧ x.indata = indata ∧ x.rdcount = rdlen ∧ x.rd_read = 0 ∧
      x.modes = (decide (0 < wrlen), duplex || decide (0 < rdlen), duplex) ∧
      InBlocks 64 cs ∧ cs.flatten = (data.getD []).take wrlen ∧ Sends hw duplex cs x x' ∧
      spiTransferData hw duplex regs data indata wrlen rdlen =
        if indata.isNone || duplex then pure x'
        else whileLoop receiveGoes (receiveRound hw) (rdlen + 1) x' := by
  have hmosi : (data.isSome && decide (0 < wrlen)) = decide (0 < wrlen) := by
    cases data with
    | none =>
      obtain rfl : wrlen = 0 := Nat.le_zero.mp hdata
      rfl
    | some d => rfl
  have hmiso : (indata.isSome && decide (0 < rdlen)) = decide (0 < rdlen) := by
    cases indata with
    | none =>
      obtain rfl : rdlen = 0 := Nat.le_zero.mp hindata
      rfl
    | some d => rfl
  obtain ⟨x, hx⟩ : ∃ x : Xfer, x = ⟨{ regs with
    usr_mosi := decide (0 < wrlen), usr_miso := duplex || decide (0 < rdlen),
    doutdin := duplex }, [], indata, rdlen, 0⟩ := ⟨_, rfl⟩
  obtain ⟨cs, hcs, hflat⟩ := exists_inBlocks (k := 64) (by decide) ((data.getD []).take wrlen)
  have hready : Ready x := by
    apply ready_of_length
    · rw [hx]
    · rw [hx]
      exact hindata
  obtain ⟨x', hsend, hsends⟩ := sendAll_sends hw duplex hdata hcs hflat hready
  refine ⟨x, if 0 < wrlen then x' else x, cs, ?_, ?_, ?_, ?_, ?_, hcs, hflat, ?_, ?_⟩
  · rw [hx]
  · rw [hx]
  · rw [hx]
  · rw [hx]
  · rw [hx]
    rfl
  · by_cases hpos : 0 < wrlen
    · rw [if_pos hpos]
      exact hsends
    · obtain rfl : wrlen = 0 := by omega
      have hlen := (hcs.mul_length (by decide)).2
      rw [hflat, List.take_zero, List.length_nil] at hlen
      obtain rfl : cs = [] := List.length_eq_zero_iff.mp (by omega)
      exact .nil x
  · unfold spiTransferData
    dsimp only
    rw [hmosi, hmiso, ← hx]
    by_cases hpos : 0 < wrlen
    · rw [if_pos (decide_eq_true hpos), if_pos hpos, hsend]
      rfl
    · rw [if_neg (by simpa using hpos), if_neg hpos]
      rfl

theorem blocks_nil {cs : List (List Byte)} (hcs : InBlocks 64 cs) (hflat : cs.flatten = []) :
    cs = [] := by
  have hlen := (hcs.mul_length (by decide)).2
  rw [hflat, List.length_nil] at hlen
  exact List.length_eq_zero_iff.mp (by omega)

theorem Sends.eq_of_nil {x x' : Xfer} (h : Sends hw duplex [] x x') : x' = x := by
  cases h
  rfl

theorem map_overwrite_nil (indata : Option (List Byte)) :
    indata = indata.map (overwrite · 0 []) := by
  cases indata with
  | none => rfl
  | some b => rw [Option.map_some, overwrite_nil]

/-- Duplex mode. -/
theorem exact_duplex_iff (hdoc : Documented hw) (hdata : wrlen ≤ (data.getD []).length)
    (hindata : rdlen ≤ (indata.getD []).length) :
    (∃ r, spiTransferData hw true regs data indata wrlen rdlen = .ok r ∧
      Exact true data indata wrlen rdlen r) ↔ wrlen = rdlen := by
  obtain ⟨x, x', cs, htrace, hin, hcount, hread, hmodes, hcs, hflat, hsends, hrun⟩ :
      ∃ x x' cs, _ ∧ _ ∧ _ ∧ _ ∧ _ ∧ _ ∧ _ ∧ Sends hw true cs x x' ∧
        spiTransferData hw true regs data indata wrlen rdlen = _ :=
    exists_sends hdata hindata
  have hlen : cs.flatten.length = wrlen := by rw [hflat, List.length_take_of_le hdata]
  rw [hrun, Bool.or_true, if_pos rfl]
  by_cases hzero : wrlen = 0
  · subst hzero
    obtain rfl := blocks_nil hcs (List.length_eq_zero_iff.mp hlen)
    obtain rfl := hsends.eq_of_nil
    constructor
    · rintro ⟨r, hr, bs, hbs, -, hexact⟩
      obtain rfl := Except.ok.inj hr
      rw [if_pos rfl, htrace] at hexact
      have hpre := hexact.2.length_le
      rw [length_wire] at hpre
      have hnone : (receivedBits []).length = 0 := rfl
      omega
    · intro hrd
      refine ⟨x', rfl, [], hrd, ?_, ?_⟩
      · rw [hin]
        exact map_overwrite_nil indata
      · rw [if_pos rfl, htrace]
        exact ⟨rfl, List.prefix_rfl⟩
  · have hpos : 0 < wrlen := Nat.pos_of_ne_zero hzero
    rw [decide_eq_true hpos] at hmodes
    constructor
    · rintro ⟨r, hr, bs, hbs, -, hexact⟩
      obtain rfl := Except.ok.inj hr
      have hready : Ready x := ready_of_length x hread (by rw [hcount, hin]; exact hindata)
      obtain ⟨ts, hts, hclocked, hreceived⟩ := sends_clocked hdoc hsends hmodes hready
      rw [htrace, List.nil_append] at hts
      rw [if_pos rfl, hts] at hexact
      have hpre := hexact.2.length_le
      have hsent := congrArg List.length hexact.1
      rw [length_wire, List.length_take_of_le hdata] at hsent
      rw [length_wire, hreceived, hsent] at hpre
      obtain ⟨hle, hlt⟩ := hcs.mul_length (by decide)
      have hwr := le_of_clocked (by omega) (by omega) (hclocked.symm.trans hsent)
      omega
    · intro hrd
      cases hb : indata with
      | none =>
        rw [hb] at hindata
        have hnone : rdlen = 0 := Nat.le_zero.mp hindata
        omega
      | some b =>
        have hb' : x.indata = some b := hin.trans hb
        rw [hb] at hindata
        have hfit : rdlen ≤ b.length := hindata
        obtain ⟨ts, bs, hts, hsent, hreceived, hbs, hin'⟩ :=
          sends_duplex hdoc hsends hcs hmodes (by omega) hb' (by omega)
        rw [htrace, List.nil_append] at hts
        refine ⟨x', rfl, bs, by omega, ?_, ?_⟩
        · rw [hin', hread]
          rfl
        · rw [if_pos rfl, hts, hsent, hflat, hreceived]
          exact ⟨rfl, List.prefix_rfl⟩

/-- Half duplex mode. -/
theorem exact_half_iff (hdoc : Documented hw) (hdata : wrlen ≤ (data.getD []).length)
    (hindata : rdlen ≤ (indata.getD []).length) :
    (∃ r, spiTransferData hw false regs data indata wrlen rdlen = .ok r ∧
      Exact false data indata wrlen rdlen r) ↔ wrlen = 0 ∨ rdlen = 0 := by
  obtain ⟨x, x', cs, htrace, hin, hcount, hread, hmodes, hcs, hflat, hsends, hrun⟩ :
      ∃ x x' cs, _ ∧ _ ∧ _ ∧ _ ∧ _ ∧ _ ∧ _ ∧ Sends hw false cs x x' ∧
        spiTransferData hw false regs data indata wrlen rdlen = _ := exists_sends hdata hindata
  have hlen : cs.flatten.length = wrlen := by rw [hflat, List.length_take_of_le hdata]
  rw [hrun, Bool.or_false]
  rw [Bool.false_or] at hmodes
  have hwritten : ∃ ts, x'.trace = ts ∧ ts.length = cs.length ∧ sentBits ts = wire cs.flatten ∧
      (∀ t ∈ ts, t.sent ≠ [] ∧ (t.received = [] ↔ decide (0 < rdlen) = false)) ∧
      x'.indata = indata ∧ x'.rdcount = rdlen ∧ x'.rd_read = 0 ∧ x'.modes = x.modes := by
    by_cases hpos : 0 < wrlen
    · rw [decide_eq_true hpos] at hmodes
      obtain ⟨ts, hts, hn, hsent, hboth, hin', hcount', hread', hmodes'⟩ :=
        sends_half hdoc hsends hmodes (hcs.length_mem (by decide))
      rw [htrace, List.nil_append] at hts
      exact ⟨ts, hts, hn, hsent, hboth, hin'.trans hin, hcount'.trans hcount,
        hread'.trans hread, hmodes'⟩
    · obtain rfl := blocks_nil hcs (List.length_eq_zero_iff.mp (by omega))
      obtain rfl := hsends.eq_of_nil
      exact ⟨[], htrace, rfl, rfl, nofun, hin, hcount, hread, rfl⟩
  obtain ⟨ts, hts, hn, hsent, hboth, hin', hcount', hread', hmodes'⟩ := hwritten
  rw [hflat] at hsent
  by_cases hrd : rdlen = 0
  · -- nothing is read
    have hdone : (if indata.isNone = true then pure x'
        else whileLoop receiveGoes (receiveRound hw) (rdlen + 1) x' : Result Xfer) = .ok x' := by
      have hstop : receiveGoes x' = false := decide_eq_false (by omega)
      split
      · rfl
      · exact whileLoop_done hstop rdlen
    refine ⟨fun _ => .inr hrd, fun _ => ⟨x', hdone, [], hrd.symm, ?_, ?_⟩⟩
    · rw [hin']
      exact map_overwrite_nil indata
    · rw [if_neg (by decide)]
      refine ⟨ts, [], by rw [hts, List.append_nil], ?_, nofun, hsent, rfl⟩
      intro t ht
      exact (hboth t ht).2.mpr (decide_eq_false (by omega))
  · have hpos : 0 < rdlen := Nat.pos_of_ne_zero hrd
    rw [decide_eq_true hpos] at hmodes hboth
    cases hb : indata with
    | none =>
      rw [hb] at hindata
      have hnone : rdlen = 0 := Nat.le_zero.mp hindata
      omega
    | some b =>
      rw [hb] at hindata hin'
      have hfit : rdlen ≤ b.length := hindata
      obtain ⟨rs, bs, x'', hloop, htrace', hbs, hbslen, hin'', hquiet⟩ :=
        receives_half hdoc (hmodes'.trans hmodes) hin' (by omega)
          (show x'.rdcount < rdlen + 1 by omega)
      rw [hts] at htrace'
      rw [if_neg (show ¬ (some b).isNone = true from nofun), hloop]
      constructor
      · rintro ⟨r, hr, bs', -, -, hexact⟩
        obtain rfl := Except.ok.inj hr
        left
        by_contra hne
        -- the first transfer has both phases
        have hcspos : 0 < cs.length := by
          rw [List.length_pos_iff]
          rintro rfl
          exact hne hlen.symm
        obtain ⟨t, ht⟩ := List.exists_mem_of_length_pos (hn.symm ▸ hcspos)
        obtain ⟨hout, hinward⟩ := hboth t ht
        rw [if_neg (by decide)] at hexact
        obtain ⟨ws, rs', hsplit, hws, hrs, -⟩ := hexact
        have hmem : t ∈ ws ++ rs' := by
          rw [← hsplit, htrace']
          exact List.mem_append_left rs ht
        rcases List.mem_append.mp hmem with hw' | hr'
        · cases hinward.mp (hws t hw')
        · exact hout (hrs t hr')
      · intro hzero
        have hwr : wrlen = 0 := hzero.resolve_right hrd
        have hnil : ts = [] := by
          obtain rfl := blocks_nil hcs (List.length_eq_zero_iff.mp (by omega))
          exact List.length_eq_zero_iff.mp hn
        refine ⟨x'', rfl, bs, by omega, ?_, ?_⟩
        · rw [hin'', hread']
          rfl
        · rw [if_neg (by decide)]
          refine ⟨[], rs, by rw [htrace', hnil], nofun, ?_, ?_, hbs⟩
          · exact hquiet (decide_eq_false (by omega))
          · rw [hwr, List.take_zero]
            rfl

/-- For buffers of at least the lengths that are given. -/
theorem spiTransferData_exact_iff (hdoc : Documented hw) (hdata : wrlen ≤ (data.getD []).length)
    (hindata : rdlen ≤ (indata.getD []).length) :
    (∃ r, spiTransferData hw duplex regs data indata wrlen rdlen = .ok r ∧
      Exact duplex data indata wrlen rdlen r) ↔ Fits duplex wrlen rdlen := by
  cases duplex with
  | true => exact exact_duplex_iff hdoc hdata hindata
  | false => exact exact_half_iff hdoc hdata hindata

end Exact

/-! ## A device that answers with what it is sent -/

/-- The first bits of the data buffer. -/
def frontBits (buf : Fin 16 → BitVec 32) (n : Nat) : List Bool :=
  (wire (bufBytes buf) ++ List.replicate n false).take n

/-- MISO is tied to MOSI. -/
def loopback : Controller := fun _ r =>
  let sent := if r.usr_mosi then frontBits r.data_buf (r.usr_mosi_dbitlen.toNat + 1) else []
  let received :=
    if r.usr_miso then
      if r.doutdin then sent else frontBits r.data_buf (r.usr_miso_dbitlen.toNat + 1)
    else []
  (⟨sent, received⟩, r.data_buf)

theorem length_frontBits (buf : Fin 16 → BitVec 32) (n : Nat) : (frontBits buf n).length = n := by
  rw [frontBits, List.length_take, List.length_append, List.length_replicate]
  omega

theorem frontBits_eq {buf : Fin 16 → BitVec 32} {n : Nat} (hn : n ≤ 512) :
    frontBits buf n = (wire (bufBytes buf)).take n := by
  apply List.take_append_of_le_length
  rw [length_wire, length_bufBytes]
  exact hn

theorem loopback_documented : Documented loopback := by
  constructor
  · intro past r hmosi
    simp [loopback, hmosi]
  · intro past r hmosi
    simp [loopback, hmosi, length_frontBits]
  · intro past r hmosi hlt
    rw [← frontBits_eq (by omega)]
    simp [loopback, hmosi]
  · intro past r hmiso
    simp [loopback, hmiso]
  · intro past r hmosi hmiso hdout
    simp [loopback, hmosi, hmiso, hdout]
  · intro past r hmiso hdout
    simp [loopback, hmiso, hdout, length_frontBits]
  · intro past r hle
    have hbuf : (loopback past r).2 = r.data_buf := rfl
    have hfront : ∀ n, n ≤ 512 → frontBits r.data_buf n <+: wire (bufBytes r.data_buf) := by
      intro n hn
      rw [frontBits_eq hn]
      exact List.take_prefix ..
    rw [hbuf]
    cases hmiso : r.usr_miso with
    | false => simp [loopback, hmiso]
    | true =>
      cases hdout : r.doutdin with
      | false =>
        simp only [loopback, hmiso, hdout, if_true, Bool.false_eq_true, if_false,
          length_frontBits] at hle ⊢
        exact hfront _ hle
      | true =>
        cases hmosi : r.usr_mosi with
        | false => simp [loopback, hmiso, hdout, hmosi]
        | true =>
          simp only [loopback, hmiso, hdout, hmosi, if_true, length_frontBits] at hle ⊢
          exact hfront _ hle

def idleRegs : Regs := ⟨false, false, false, 0, 0, fun _ => 0⟩

/-- Three bytes in duplex mode. -/
theorem spiTransferData_exact_iff_three :
    (∃ r, spiTransferData loopback true idleRegs (some [1, 2, 3]) (some [9, 9, 9]) 3 3 = .ok r ∧
      Exact true (some [1, 2, 3]) (some [9, 9, 9]) 3 3 r) ↔ Fits true 3 3 :=
  spiTransferData_exact_iff loopback_documented (by decide) (by decide)

/-- Two bytes to write and none to read, in duplex mode. -/
theorem not_exact_write : Documented loopback ∧
    ¬ ∃ r, spiTransferData loopback true idleRegs (some [1, 2]) none 2 0 = .ok r ∧
      Exact true (some [1, 2]) none 2 0 r := by
  refine ⟨loopback_documented, fun h => ?_⟩
  have hlen := (exact_duplex_iff loopback_documented (by decide) (by decide)).mp h
  exact absurd hlen (by decide)

end LuaRtos.Espi
