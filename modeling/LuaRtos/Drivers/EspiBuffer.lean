/-
  LuaRtos.Drivers.EspiBuffer

  The loops of `spi_transfer_data` over the words of the data buffer: reading
  takes the first bytes of the buffer to the input buffer, writing puts the next
  bytes to write at the front of it.
-/

import LuaRtos.CLib.Window
import LuaRtos.Drivers.EspiTransfer

namespace LuaRtos.Espi

open CLib

/-! ## The bytes of a word -/

section Words

theorem getLsbD_byteAt (wd : BitVec 32) (bc i : Nat) :
    (byteAt wd bc).getLsbD i = (decide (i < 8) && wd.getLsbD (bc + i)) := by
  have hmask : ∀ i < 8, (0xFF : BitVec 32).getLsbD i = true := by decide
  by_cases hi : i < 8
  · rw [byteAt, BitVec.getLsbD_setWidth, BitVec.getLsbD_and, hmask i hi,
      BitVec.getLsbD_ushiftRight, Bool.and_true]
  · have hout : (byteAt wd bc).getLsbD i = false := BitVec.getLsbD_of_ge _ _ (Nat.not_lt.mp hi)
    rw [hout, decide_eq_false hi]
    rfl

theorem byteAt_zero (bc : Nat) : byteAt 0 bc = 0 := by
  apply BitVec.eq_of_getLsbD_eq
  intro i _
  rw [getLsbD_byteAt]
  simp

/-- A byte that is ORed into a word is the byte there, where the word had none. -/
theorem byteAt_or_self {wd : BitVec 32} {bc : Nat} (b : Byte) (hbc : bc + 8 ≤ 32)
    (hzero : byteAt wd bc = 0) : byteAt (wd ||| b.setWidth 32 <<< bc) bc = b := by
  apply BitVec.eq_of_getLsbD_eq
  intro i hi
  have hold : wd.getLsbD (bc + i) = false := by
    have hbit : (byteAt wd bc).getLsbD i = (0 : Byte).getLsbD i := by rw [hzero]
    rw [getLsbD_byteAt, decide_eq_true hi, Bool.true_and] at hbit
    exact hbit.trans BitVec.getLsbD_zero
  have hlt : bc + i < 32 := by omega
  have hwide : i < 32 := by omega
  rw [getLsbD_byteAt, BitVec.getLsbD_or, hold, BitVec.getLsbD_shiftLeft, BitVec.getLsbD_setWidth]
  simp [hi, hlt, hwide]

/-- The other bytes are left. -/
theorem byteAt_or_of_ne {wd : BitVec 32} {bc bc' : Nat} (b : Byte)
    (hne : bc + 8 ≤ bc' ∨ bc' + 8 ≤ bc) :
    byteAt (wd ||| b.setWidth 32 <<< bc) bc' = byteAt wd bc' := by
  apply BitVec.eq_of_getLsbD_eq
  intro i hi
  have hnew : (b.setWidth 32 <<< bc).getLsbD (bc' + i) = false := by
    rw [BitVec.getLsbD_shiftLeft, BitVec.getLsbD_setWidth]
    rcases hne with hlow | hhigh
    · have hout : b.getLsbD (bc' + i - bc) = false := BitVec.getLsbD_of_ge _ _ (by omega)
      rw [hout, Bool.and_false, Bool.and_false]
    · have hlt : bc' + i < bc := by omega
      simp [hlt]
  rw [getLsbD_byteAt, getLsbD_byteAt, BitVec.getLsbD_or, hnew, Bool.or_false]

theorem length_bufBytes (buf : Fin 16 → BitVec 32) : (bufBytes buf).length = 64 :=
  List.length_ofFn

theorem getElem?_bufBytes {buf : Fin 16 → BitVec 32} {i j k : Nat} (hj : j < 16) (hk : k < 4)
    (hi : i = 4 * j + k) : (bufBytes buf)[i]? = some (byteAt (buf ⟨j, hj⟩) (k * 8)) := by
  have hlt : i < 64 := by omega
  have hdiv : i / 4 = j := by omega
  have hmod : i % 4 = k := by omega
  rw [bufBytes, List.getElem?_ofFn, dif_pos hlt]
  simp only [hdiv, hmod]

end Words

/-! ## Reading -/

section Reading

/-- The state after bytes have gone to the input buffer `b`. -/
def Xfer.stored (x : Xfer) (b bs : List Byte) : Xfer :=
  { x with
    indata := some (overwrite b x.rd_read bs)
    rd_read := x.rd_read + bs.length
    rdcount := x.rdcount - bs.length }

variable {x : Xfer} {b : List Byte}

theorem Xfer.stored_append {bs cs : List Byte}
    (h : x.rd_read + bs.length + cs.length ≤ b.length) :
    (x.stored b bs).stored (overwrite b x.rd_read bs) cs = x.stored b (bs ++ cs) := by
  unfold Xfer.stored
  dsimp only
  rw [overwrite_append h, List.length_append, Nat.add_assoc, Nat.sub_sub]

theorem Xfer.put_eq (hb : x.indata = some b) (hroom : x.rd_read < b.length) (v : Byte) :
    x.put v = .ok (x.stored b [v]) := by
  have hset : b.set x.rd_read v = overwrite b x.rd_read [v] := by
    rw [← overwrite_set (by simpa using hroom), overwrite_nil]
  unfold Xfer.put Xfer.stored
  rw [hb]
  dsimp only
  rw [store, if_pos hroom, hset]
  rfl

/-- The bytes that are read of a word. -/
def wordBytes (wd : BitVec 32) (bc m : Nat) : List Byte :=
  (List.range m).map fun i => byteAt wd (bc + i * 8)

theorem length_wordBytes (wd : BitVec 32) (bc m : Nat) : (wordBytes wd bc m).length = m := by
  rw [wordBytes, List.length_map, List.length_range]

theorem wordBytes_succ (wd : BitVec 32) (bc m : Nat) :
    wordBytes wd bc (m + 1) = byteAt wd bc :: wordBytes wd (bc + 8) m := by
  rw [wordBytes, wordBytes, List.range_succ_eq_map, List.map_cons, List.map_map, Nat.zero_mul,
    Nat.add_zero]
  congr 1
  apply List.map_congr_left
  intro i _
  show byteAt wd (bc + (i + 1) * 8) = _
  congr 1
  omega

/-- The words of the buffer hold its bytes four at a time. -/
theorem wordBytes_eq_window {buf : Fin 16 → BitVec 32} {j m : Nat} (hj : j < 16) (hm : m ≤ 4) :
    wordBytes (buf ⟨j, hj⟩) 0 m = window (bufBytes buf) (4 * j) m := by
  have hlen := length_bufBytes buf
  have hwindow : (window (bufBytes buf) (4 * j) m).length = m := length_window (by omega)
  have hword := length_wordBytes (buf ⟨j, hj⟩) 0 m
  apply List.ext_getElem?
  intro i
  by_cases hi : i < m
  · rw [getElem?_window hi, getElem?_bufBytes hj (by omega) rfl, wordBytes, List.getElem?_map,
      List.getElem?_range hi, Option.map_some, Nat.zero_add]
  · rw [List.getElem?_eq_none (by omega), List.getElem?_eq_none (by omega)]

/-- The loop over a word reads up to the last byte that is wanted. -/
theorem readWord_eq (wd : BitVec 32) {k bc rdbits : Nat} (hk : 0 < k) (hcount : 0 < x.rdcount)
    (hb : x.indata = some b) (hroom : x.rd_read + min k x.rdcount ≤ b.length) :
    readWord wd k bc (x, rdbits) =
      .ok (x.stored b (wordBytes wd bc (min k x.rdcount)), rdbits - min k x.rdcount * 8) := by
  induction k generalizing x b bc rdbits with
  | zero => omega
  | succ k ih =>
    have hput := Xfer.put_eq hb (by omega) (byteAt wd bc)
    rw [readWord, hput, ok_bind]
    have hcount' : (x.stored b [byteAt wd bc]).rdcount = x.rdcount - 1 := rfl
    dsimp only
    by_cases hlast : (x.stored b [byteAt wd bc]).rdcount = 0
    · have hmin : min (k + 1) x.rdcount = 1 := by omega
      rw [if_pos hlast, hmin, wordBytes_succ]
      rfl
    · rw [if_neg hlast]
      cases k with
      | zero =>
        have hmin : min (0 + 1) x.rdcount = 1 := by omega
        rw [hmin, wordBytes_succ]
        rfl
      | succ k =>
        have hmin : min (k + 1 + 1) x.rdcount = min (k + 1) (x.rdcount - 1) + 1 := by omega
        have hlen : (overwrite b x.rd_read [byteAt wd bc]).length = b.length := by
          apply length_overwrite
          show x.rd_read + 1 ≤ b.length
          omega
        have hroom' : (x.stored b [byteAt wd bc]).rd_read +
            min (k + 1) (x.stored b [byteAt wd bc]).rdcount ≤
              (overwrite b x.rd_read [byteAt wd bc]).length := by
          rw [hlen]
          show x.rd_read + 1 + min (k + 1) (x.rdcount - 1) ≤ b.length
          omega
        have hfit : x.rd_read + [byteAt wd bc].length +
            (wordBytes wd (bc + 8) (min (k + 1) (x.rdcount - 1))).length ≤ b.length := by
          rw [length_wordBytes]
          show x.rd_read + 1 + _ ≤ b.length
          omega
        rw [ih (Nat.succ_pos k) (Nat.pos_of_ne_zero hlast) rfl hroom', hcount', hmin,
          wordBytes_succ, Xfer.stored_append hfit]
        have hbits : rdbits - 8 - min (k + 1) (x.rdcount - 1) * 8 =
            rdbits - (min (k + 1) (x.rdcount - 1) + 1) * 8 := by omega
        rw [hbits]
        rfl

/-- The loop over the words reads `r` bytes: all that are left, or whole words. -/
theorem readLoop_eq {r j fuel : Nat} (hj : 4 * j + r ≤ 64)
    (hr : r = x.rdcount ∨ r ≤ x.rdcount ∧ 4 ∣ r) (hb : x.indata = some b)
    (hroom : x.rd_read + r ≤ b.length) (hfuel : r < fuel) :
    ∃ j', whileLoop readGoes readRound fuel (x, r * 8, j) =
      .ok (x.stored b (window (bufBytes x.regs.data_buf) (4 * j) r), 0, j') := by
  induction r using Nat.strongRecOn generalizing x b j fuel with
  | ind r ih =>
    obtain ⟨n, rfl⟩ := Nat.exists_eq_add_one_of_ne_zero (Nat.ne_zero_of_lt hfuel)
    by_cases hzero : r = 0
    · subst hzero
      refine ⟨j, ?_⟩
      have hnil : x.stored b (window (bufBytes x.regs.data_buf) (4 * j) 0) = x := by
        rw [window, List.take_zero]
        unfold Xfer.stored
        rw [overwrite_nil, ← hb]
        rfl
      rw [hnil]
      exact whileLoop_done rfl n
    · have hlt : j < 16 := by omega
      have hm : min 4 x.rdcount = min 4 r := by omega
      have hlen := length_bufBytes x.regs.data_buf
      -- the bytes of the word, and those of the words after it
      obtain ⟨bs, hbs⟩ : ∃ bs, bs = window (bufBytes x.regs.data_buf) (4 * j) (min 4 r) := ⟨_, rfl⟩
      have hfirst : bs.length = min 4 r := by
        rw [hbs]
        exact length_window (by omega)
      have hword : readWord (x.regs.data_buf ⟨j, hlt⟩) 4 0 (x, r * 8) =
          .ok (x.stored b bs, (r - min 4 r) * 8) := by
        rw [readWord_eq _ (by omega) (by omega) hb (by omega), hm,
          wordBytes_eq_window hlt (by omega), hbs, ← Nat.sub_mul]
      have hround : readRound (x, r * 8, j) = .ok (x.stored b bs, (r - min 4 r) * 8, j + 1) := by
        unfold readRound
        dsimp only
        rw [dif_pos hlt, hword]
        rfl
      have hgoes : readGoes (x, r * 8, j) = true := decide_eq_true (by show 0 < r * 8; omega)
      have hcount : (x.stored b bs).rdcount = x.rdcount - min 4 r :=
        congrArg (x.rdcount - ·) hfirst
      have hread : (x.stored b bs).rd_read = x.rd_read + min 4 r :=
        congrArg (x.rd_read + ·) hfirst
      have hlen' : (overwrite b x.rd_read bs).length = b.length := length_overwrite (by omega)
      have hrest : (window (bufBytes x.regs.data_buf) (4 * j + min 4 r) (r - min 4 r)).length =
          r - min 4 r := length_window (by omega)
      have hnext : window (bufBytes x.regs.data_buf) (4 * (j + 1)) (r - min 4 r) =
          window (bufBytes x.regs.data_buf) (4 * j + min 4 r) (r - min 4 r) := by
        by_cases hmore : r ≤ 4
        · have hnone : r - min 4 r = 0 := by omega
          rw [hnone, window, window, List.take_zero, List.take_zero]
        · have hfour : 4 * (j + 1) = 4 * j + min 4 r := by omega
          rw [hfour]
      have hsum : min 4 r + (r - min 4 r) = r := by omega
      have hbuf : (x.stored b bs).regs.data_buf = x.regs.data_buf := rfl
      obtain ⟨j', hj'⟩ : ∃ j', whileLoop readGoes readRound n
          (x.stored b bs, (r - min 4 r) * 8, j + 1) = .ok ((x.stored b bs).stored
            (overwrite b x.rd_read bs) (window (bufBytes (x.stored b bs).regs.data_buf)
              (4 * (j + 1)) (r - min 4 r)), 0, j') :=
        ih (r - min 4 r) (by omega) (by omega) (by omega) rfl (by omega) (by omega)
      refine ⟨j', (whileLoop_round hgoes hround n).trans (hj'.trans ?_)⟩
      rw [hbuf, hnext, Xfer.stored_append (by omega), hbs, ← window_add, hsum]

/-- What is read of a transfer. -/
theorem readBuf_eq (hb : x.indata = some b) (hroom : x.rd_read + min x.rdcount 64 ≤ b.length) :
    readBuf (readBits x.rdcount) x =
      .ok (x.stored b (window (bufBytes x.regs.data_buf) 0 (min x.rdcount 64))) := by
  have hbits : readBits x.rdcount = min x.rdcount 64 * 8 := by
    unfold readBits
    split <;> omega
  have hr : min x.rdcount 64 = x.rdcount ∨ min x.rdcount 64 ≤ x.rdcount ∧ 4 ∣ min x.rdcount 64 := by
    omega
  obtain ⟨j', hloop⟩ : ∃ j', whileLoop readGoes readRound (min x.rdcount 64 * 8 + 1)
      (x, min x.rdcount 64 * 8, 0) = .ok (x.stored b (window (bufBytes x.regs.data_buf) (4 * 0)
        (min x.rdcount 64)), 0, j') := readLoop_eq (by omega) hr hb hroom (by omega)
  unfold readBuf
  rw [hbits, hloop]
  rfl

theorem readBuf_none (hcount : x.rdcount = 0) : readBuf (readBits x.rdcount) x = .ok x := by
  unfold readBuf
  rw [hcount]
  rfl

end Reading

/-! ## Writing -/

section Writing

variable {data : List Byte} {wrlen : Nat}

/-- The loop over a word packs up to the last byte that is to be written. -/
theorem packWord_eq (hlen : wrlen ≤ data.length) {k bc count bits : Nat} {wd : BitVec 32}
    (hk : 0 < k) (hbc : bc + k * 8 ≤ 32) (hcount : count < wrlen)
    (hzero : ∀ i < k, byteAt wd (bc + i * 8) = 0) :
    ∃ wd', packWord data wrlen k bc (wd, count, bits) =
        .ok (wd', count + min k (wrlen - count), bits + min k (wrlen - count) * 8) ∧
      (∀ bc', bc' + 8 ≤ bc → byteAt wd' bc' = byteAt wd bc') ∧
      ∀ i < min k (wrlen - count), data[count + i]? = some (byteAt wd' (bc + i * 8)) := by
  induction k generalizing bc count bits wd with
  | zero => omega
  | succ k ih =>
    have hlt : count < data.length := by omega
    have hload : load data count = .ok data[count] := by
      rw [load, List.getElem?_eq_getElem hlt]
    have hself : byteAt (wd ||| data[count].setWidth 32 <<< bc) bc = data[count] := by
      apply byteAt_or_self _ (by omega)
      simpa using hzero 0 (Nat.succ_pos k)
    have hbelow : ∀ bc', bc' + 8 ≤ bc →
        byteAt (wd ||| data[count].setWidth 32 <<< bc) bc' = byteAt wd bc' :=
      fun bc' h => byteAt_or_of_ne _ (.inr h)
    rw [packWord, hload, ok_bind]
    dsimp only
    by_cases hdone : count + 1 = wrlen ∨ k = 0
    · have hmin : min (k + 1) (wrlen - count) = 1 := by omega
      rw [hmin]
      refine ⟨wd ||| data[count].setWidth 32 <<< bc, ?_, hbelow, ?_⟩
      · by_cases hlast : count + 1 = wrlen
        · rw [if_pos hlast]
          rfl
        · obtain rfl : k = 0 := hdone.resolve_left hlast
          rw [if_neg hlast]
          rfl
      · intro i hi
        obtain rfl : i = 0 := by omega
        rw [Nat.add_zero, Nat.zero_mul, Nat.add_zero, hself, List.getElem?_eq_getElem hlt]
    · obtain ⟨hmore, hk'⟩ := not_or.mp hdone
      have hmin : min (k + 1) (wrlen - count) = min k (wrlen - (count + 1)) + 1 := by omega
      have hcount' : count + 1 < wrlen := by omega
      have hzero' : ∀ i < k,
          byteAt (wd ||| data[count].setWidth 32 <<< bc) (bc + 8 + i * 8) = 0 := by
        intro i hi
        have hnext := hzero (i + 1) (by omega)
        have hsum : bc + (i + 1) * 8 = bc + 8 + i * 8 := by omega
        rw [byteAt_or_of_ne _ (.inl (by omega))]
        rwa [hsum] at hnext
      obtain ⟨wd', hpack, hkeep, hbytes⟩ := ih (Nat.pos_of_ne_zero hk') (by omega) hcount' hzero'
      rw [if_neg hmore, hpack, hmin]
      refine ⟨wd', ?_, ?_, ?_⟩
      · have hc : count + 1 + min k (wrlen - (count + 1)) =
            count + (min k (wrlen - (count + 1)) + 1) := by omega
        have hb : bits + 8 + min k (wrlen - (count + 1)) * 8 =
            bits + (min k (wrlen - (count + 1)) + 1) * 8 := by omega
        rw [hc, hb]
      · intro bc' h
        rw [hkeep bc' (by omega), hbelow bc' h]
      · intro i hi
        cases i with
        | zero =>
          rw [Nat.add_zero, Nat.zero_mul, Nat.add_zero, hkeep bc (by omega), hself,
            List.getElem?_eq_getElem hlt]
        | succ i =>
          have hnext := hbytes i (by omega)
          have hc : count + 1 + i = count + (i + 1) := by omega
          have hb : bc + 8 + i * 8 = bc + (i + 1) * 8 := by omega
          rwa [hc, hb] at hnext

/-- Packing goes on by a byte at least. -/
theorem packWord_lt {k bc : Nat} {p p' : BitVec 32 × Nat × Nat}
    (h : packWord data wrlen (k + 1) bc p = .ok p') : p.2.1 < p'.2.1 := by
  induction k generalizing bc p with
  | zero =>
    obtain ⟨wd, count, bits⟩ := p
    obtain ⟨b, -, h⟩ := bind_eq_ok.mp h
    dsimp only at h
    split at h
    · cases h
      exact Nat.lt_succ_self count
    · cases h
      exact Nat.lt_succ_self count
  | succ k ih =>
    obtain ⟨wd, count, bits⟩ := p
    obtain ⟨b, -, h⟩ := bind_eq_ok.mp h
    dsimp only at h
    split at h
    · cases h
      exact Nat.lt_succ_self count
    · exact Nat.lt_of_succ_lt (ih h)

/-- The data buffer holds the first `n` bytes of `l`. -/
def Filled (buf : Fin 16 → BitVec 32) (l : List Byte) (n : Nat) : Prop :=
  ∀ i < n, (bufBytes buf)[i]? = l[i]?

/-- The next word of the data buffer. -/
theorem Filled.word {buf : Fin 16 → BitVec 32} {l : List Byte} {j m : Nat} {wd : BitVec 32}
    (h : Filled buf l (4 * j)) (hj : j < 16) (hm : m ≤ 4)
    (hword : ∀ i < m, l[4 * j + i]? = some (byteAt wd (i * 8))) :
    Filled (Function.update buf ⟨j, hj⟩ wd) l (4 * j + m) := by
  intro i hi
  by_cases hlt : i < 4 * j
  · have hq : i / 4 < 16 := by omega
    have hne : (⟨i / 4, hq⟩ : Fin 16) ≠ ⟨j, hj⟩ := by
      intro heq
      have hval := congrArg Fin.val heq
      dsimp only at hval
      omega
    rw [← h i hlt, getElem?_bufBytes hq (Nat.mod_lt i (by decide)) (by omega),
      getElem?_bufBytes hq (Nat.mod_lt i (by decide)) (by omega), Function.update_of_ne hne]
  · obtain ⟨k, rfl⟩ := Nat.exists_eq_add_of_le (Nat.not_lt.mp hlt)
    rw [getElem?_bufBytes hj (by omega) rfl, Function.update_self, hword k (by omega)]

theorem Filled.window_eq {buf : Fin 16 → BitVec 32} {l : List Byte} {n : Nat} (h : Filled buf l n)
    (hn : n ≤ 64) (hl : n ≤ l.length) : window (bufBytes buf) 0 n = l.take n := by
  have hlen := length_bufBytes buf
  have hwindow : (window (bufBytes buf) 0 n).length = n := length_window (by omega)
  have htake : (l.take n).length = n := List.length_take_of_le hl
  apply List.ext_getElem?
  intro i
  by_cases hi : i < n
  · rw [getElem?_window hi, Nat.zero_add, h i hi, List.getElem?_take_of_lt hi]
  · rw [List.getElem?_eq_none (by omega), List.getElem?_eq_none (by omega)]

end Writing

end LuaRtos.Espi
