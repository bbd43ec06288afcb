/-
  LuaRtos.Drivers.OneWireFinds

  The search of drivers/owire.c finds every device on the bus once.

  One search walks down the tree of the ROM codes, the bits of `ROM_NO` being the path
  (`LuaRtos.Bits.Walk`): `Walking` is what holds before each of its 64 rounds.  So a
  search finds the next code in order, and `TM_OneWire_Dosearch` all of them.
-/

import LuaRtos.Bits.Walk
import LuaRtos.Drivers.OneWire

namespace LuaRtos.Driver

open LuaRtos.CLib LuaRtos.Bits

/-! ## The bits of a ROM code -/

section Rom

variable {rom : Rom} {i k : Nat}

theorem Rom.bit_eq {n j : Nat} (hn : n < 8) (hj : j < 8) :
    rom.bit (8 * n + j) = rom[n].getLsbD j := by
  have hdiv : (8 * n + j) / 8 = n := by omega
  have hmod : (8 * n + j) % 8 = j := by omega
  unfold Rom.bit
  rw [hdiv, hmod, Vector.getElem?_eq_getElem hn]
  rfl

/-- The bits are those of the code. -/
theorem Rom.eq_of_agree (s c : Rom) (h : Agree Rom.bit s c 64) : s = c := by
  apply Vector.ext
  intro n hn
  apply BitVec.eq_of_getLsbD_eq
  intro j hj
  have hbit := h (8 * n + j) (by omega)
  rwa [Rom.bit_eq hn hj, Rom.bit_eq hn hj] at hbit

/-- The mask of a bit in its byte. -/
def bitMask (k : Nat) : Byte := 1 <<< (k % 8)

theorem bitMask_getLsbD (k j : Nat) (hj : j < 8) : (bitMask k).getLsbD j = decide (j = k % 8) := by
  have hk : k % 8 < 8 := by omega
  have hall : ∀ m j : Fin 8, ((1 : Byte) <<< m.val).getLsbD j.val = decide (j.val = m.val) := by
    decide
  exact hall ⟨k % 8, hk⟩ ⟨j, hj⟩

/-- The mask of the next bit. -/
theorem bitMask_next (k : Nat) :
    (bitMask k <<< 1 = 0 ↔ (k + 1) % 8 = 0) ∧
      ((k + 1) % 8 ≠ 0 → bitMask k <<< 1 = bitMask (k + 1)) ∧
      ((k + 1) % 8 = 0 → bitMask (k + 1) = 1) := by
  have hk : k % 8 < 8 := by omega
  have hall : ∀ m : Fin 8, ((1 : Byte) <<< m.val <<< 1 = 0 ↔ (m.val + 1) % 8 = 0) ∧
      ((m.val + 1) % 8 ≠ 0 → (1 : Byte) <<< m.val <<< 1 = 1 <<< ((m.val + 1) % 8)) ∧
      ((m.val + 1) % 8 = 0 → (1 : Byte) <<< ((m.val + 1) % 8) = 1) := by decide
  have hmod : (k % 8 + 1) % 8 = (k + 1) % 8 := by omega
  unfold bitMask
  rw [← hmod]
  exact hall ⟨k % 8, hk⟩

/-- The byte with one bit set or cleared. -/
theorem getLsbD_assign (b : Byte) (d : Bool) (k j : Nat) (hj : j < 8) :
    (if d then b ||| bitMask k else b &&& ~~~bitMask k).getLsbD j =
      if j = k % 8 then d else b.getLsbD j := by
  have hmask := bitMask_getLsbD k j hj
  cases d with
  | true =>
    rw [if_pos rfl, BitVec.getLsbD_or, hmask]
    by_cases heq : j = k % 8
    · rw [if_pos heq, decide_eq_true heq, Bool.or_true]
    · rw [if_neg heq, decide_eq_false heq, Bool.or_false]
  | false =>
    rw [if_neg (by decide), BitVec.getLsbD_and, BitVec.getLsbD_not, hmask, decide_eq_true hj]
    by_cases heq : j = k % 8
    · rw [if_pos heq, decide_eq_true heq, Bool.not_true, Bool.and_false, Bool.and_false]
    · rw [if_neg heq, decide_eq_false heq, Bool.not_false, Bool.and_true, Bool.and_true]

/-- Set or clear one bit. -/
theorem Rom.bit_set (rom : Rom) (d : Bool) {n : Fin 8} (hn : n.val = k / 8) :
    Rom.bit (rom.set n (if d then rom[n] ||| bitMask k else rom[n] &&& ~~~bitMask k)) i =
      if i = k then d else rom.bit i := by
  have hj : i % 8 < 8 := by omega
  unfold Rom.bit
  rw [Vector.getElem?_set]
  by_cases hbyte : n.val = i / 8
  · have hget : rom[i / 8]? = some rom[n] := by
      rw [← hbyte]
      exact Vector.getElem?_eq_getElem n.isLt
    rw [if_pos hbyte, hget, Option.getD_some, Option.getD_some, getLsbD_assign _ _ _ _ hj]
    by_cases hik : i = k
    · rw [if_pos hik, if_pos (by rw [hik])]
    · rw [if_neg hik, if_neg (by omega)]
  · rw [if_neg hbyte, if_neg (by omega)]

theorem and_bitMask_ne_zero {n : Fin 8} (hn : n.val = k / 8) :
    decide (rom[n] &&& bitMask k ≠ 0) = rom.bit k := by
  have hk : k % 8 < 8 := by omega
  have hget : rom.bit k = rom[n].getLsbD (k % 8) := by
    unfold Rom.bit
    rw [← hn, Vector.getElem?_eq_getElem n.isLt]
    rfl
  have hbit : (rom[n] &&& bitMask k).getLsbD (k % 8) = rom.bit k := by
    rw [hget, BitVec.getLsbD_and, bitMask_getLsbD k _ hk]
    simp
  cases hb : rom.bit k with
  | true =>
    rw [hb] at hbit
    apply decide_eq_true
    intro hzero
    rw [hzero] at hbit
    simp at hbit
  | false =>
    apply decide_eq_false
    rw [not_not]
    apply BitVec.eq_of_getLsbD_eq
    intro j hj
    rw [BitVec.getLsbD_and, bitMask_getLsbD k j hj]
    by_cases heq : j = k % 8
    · rw [heq, ← hget, hb]
      simp
    · simp [heq]

end Rom

/-! ## The rounds of a search -/

/-- Before the round for bit `k` of a search with the last code `r` and the last discrepancy
    `last`. -/
structure Walking (codes : List Rom) (r : Rom) (last k : Nat) (st : OneWireSearch) : Prop where
  number : st.idBitNumber = k + 1
  byte : st.romByteNumber = k / 8
  mask : st.romByteMask = bitMask k
  run : st.stopped = false
  discrepancy : st.device.lastDiscrepancy = last
  flag : st.device.lastDeviceFlag = false
  roms : st.bus.roms = codes
  /-- The bits to come are those of the last code. -/
  old : ∀ j, k ≤ j → st.device.romNo.bit j = r.bit j
  exists_code : ∃ s ∈ codes, Agree Rom.bit s st.device.romNo k
  walked : Walked Rom.bit codes r last st.device.romNo k

/-- The selected devices are those with the bits of `c` up to bit `k`. -/
def Selects (codes : List Rom) (c : Rom) (k : Nat) (selected : List Rom) : Prop :=
  ∀ s, s ∈ selected ↔ s ∈ codes ∧ Agree Rom.bit s c k

/-- The bus waits for a read of bit `k`, and has none after the last. -/
def BusAt (codes : List Rom) (c : Rom) (k : Nat) (phase : BusPhase) : Prop :=
  k < 64 → ∃ selected, phase = .bit k selected ∧ Selects codes c k selected

section Round

variable {codes selected : List Rom} {r c c' : Rom} {last k : Nat} {st : OneWireSearch}

theorem Walking.record (h : Walking codes r last k st) : Walking codes r last k st.record := by
  unfold OneWireSearch.record
  split
  · exact ⟨h.number, h.byte, h.mask, h.run, h.discrepancy, h.flag, h.roms, h.old, h.exists_code,
      h.walked⟩
  · exact ⟨h.number, h.byte, h.mask, h.run, h.discrepancy, h.flag, h.roms, h.old, h.exists_code,
      h.walked⟩

theorem Selects.fork (h : Selects codes c k selected) :
    Fork Rom.bit codes c k ↔
      (∃ s ∈ selected, s.bit k = false) ∧ ∃ s ∈ selected, s.bit k = true := by
  have hone : ∀ d, (∃ s ∈ codes, Agree Rom.bit s c k ∧ s.bit k = d) ↔
      ∃ s ∈ selected, s.bit k = d := by
    intro d
    constructor
    · rintro ⟨s, hs, hagree, hd⟩
      exact ⟨s, (h s).mpr ⟨hs, hagree⟩, hd⟩
    · rintro ⟨s, hs, hd⟩
      obtain ⟨hs, hagree⟩ := (h s).mp hs
      exact ⟨s, hs, hagree, hd⟩
  exact and_congr (hone false) (hone true)

/-- Those that go on are those with the next bit. -/
theorem Selects.next (h : Selects codes c k selected) {d : Bool} (hagree : Agree Rom.bit c c' k)
    (hd : c'.bit k = d) :
    Selects codes c' (k + 1) (selected.filter fun rom => rom.bit k = d) := by
  intro s
  rw [List.mem_filter, h s, decide_eq_true_iff]
  constructor
  · rintro ⟨⟨hs, hsc⟩, hsd⟩
    exact ⟨hs, (hsc.trans hagree).succ (hsd.trans hd.symm)⟩
  · rintro ⟨hs, hsc⟩
    have hbefore := (hsc.mono (Nat.le_succ k)).trans hagree.symm
    exact ⟨⟨hs, hbefore⟩, (hsc k (Nat.lt_succ_self k)).trans hd⟩

theorem Bus.writeBit_direction {bus : Bus} (d : Bool) (h : bus.phase = .direction k selected) :
    bus.writeBit d = { bus with phase :=
      if k + 1 < 64 then BusPhase.bit (k + 1) (selected.filter fun rom => rom.bit k = d)
      else .idle } := by
  unfold Bus.writeBit
  simp only [h]
  split
  · rfl
  · rfl

/-- A direction that some selected device goes. -/
theorem Walking.advance (h : Walking codes r last k st)
    (hphase : st.bus.phase = .direction k selected)
    (hsel : Selects codes st.device.romNo k selected) {n : Fin 8} (hn : n.val = k / 8) {d : Bool}
    (hd : ∃ s ∈ selected, s.bit k = d)
    (hway : Fork Rom.bit codes st.device.romNo k →
      d = if k + 1 < last then r.bit k else decide (k + 1 = last)) :
    Walking codes r last (k + 1) (st.advance n d) ∧
      BusAt codes (st.advance n d).device.romNo (k + 1) (st.advance n d).bus.phase ∧
      Agree Rom.bit st.device.romNo (st.advance n d).device.romNo k ∧
      (st.advance n d).device.romNo.bit k = d ∧ (st.advance n d).lastZero = st.lastZero := by
  obtain ⟨hzero, hmask, hone⟩ := bitMask_next k
  have hrom : ∀ j, (st.advance n d).device.romNo.bit j =
      if j = k then d else st.device.romNo.bit j := by
    intro j
    have hset := Rom.bit_set st.device.romNo (i := j) d hn
    rw [← h.mask] at hset
    exact hset
  have hagree : Agree Rom.bit st.device.romNo (st.advance n d).device.romNo k := by
    intro j hj
    rw [hrom, if_neg (by omega)]
  have hbit : (st.advance n d).device.romNo.bit k = d := by rw [hrom, if_pos rfl]
  have hbus : (st.advance n d).bus = st.bus.writeBit d := rfl
  refine ⟨⟨?_, ?_, ?_, h.run, h.discrepancy, h.flag, ?_, ?_, ?_, ?_⟩, ?_, hagree, hbit, rfl⟩
  · show st.idBitNumber + 1 = k + 1 + 1
    rw [h.number]
  · show (if st.romByteMask <<< 1 = 0 then st.romByteNumber + 1 else st.romByteNumber) = _
    rw [h.mask, h.byte]
    by_cases hlast : (k + 1) % 8 = 0
    · rw [if_pos (hzero.mpr hlast)]
      omega
    · rw [if_neg fun hz => hlast (hzero.mp hz)]
      omega
  · show (if st.romByteMask <<< 1 = 0 then (1 : Byte) else st.romByteMask <<< 1) = _
    rw [h.mask]
    by_cases hlast : (k + 1) % 8 = 0
    · rw [if_pos (hzero.mpr hlast), hone hlast]
    · rw [if_neg fun hz => hlast (hzero.mp hz), hmask hlast]
  · rw [hbus, Bus.writeBit_direction d hphase]
    exact h.roms
  · intro j hj
    rw [hrom, if_neg (by omega)]
    exact h.old j (by omega)
  · obtain ⟨s, hs, hsd⟩ := hd
    obtain ⟨hs, hsc⟩ := (hsel s).mp hs
    exact ⟨s, hs, (hsc.trans hagree).succ (hsd.trans hbit.symm)⟩
  · refine (h.walked.congr hagree).succ fun hfork => ?_
    rw [hbit]
    exact hway (hfork.congr hagree.symm)
  · intro hlt
    refine ⟨_, ?_, hsel.next hagree hbit⟩
    rw [hbus, Bus.writeBit_direction d hphase]
    exact if_pos hlt

/-- The two reads of a round. -/
theorem Bus.readBit_twice {bus : Bus} (h : bus.phase = .bit k selected) :
    bus.readBit =
        (selected.all fun rom => rom.bit k, { bus with phase := .complement k selected }) ∧
      Bus.readBit { bus with phase := .complement k selected } =
        (selected.all fun rom => !rom.bit k, { bus with phase := .direction k selected }) := by
  refine ⟨?_, rfl⟩
  unfold Bus.readBit
  rw [h]

theorem searchRound_eq (h : st.bus.phase = .bit k selected) :
    searchRound st =
      if (selected.all fun rom => rom.bit k) = true ∧
          (selected.all fun rom => !rom.bit k) = true then
        pure { st with stopped := true, bus := { st.bus with phase := .direction k selected } }
      else (index st.romByteNumber : Result (Fin 8)) >>= fun n =>
        if (selected.all fun rom => rom.bit k) ≠ selected.all fun rom => !rom.bit k then
          pure (OneWireSearch.advance
            { st with bus := { st.bus with phase := .direction k selected } } n
            (selected.all fun rom => rom.bit k))
        else
          pure (OneWireSearch.advance
            (if st.direction n then
                { st with bus := { st.bus with phase := .direction k selected } }
              else OneWireSearch.record
                { st with bus := { st.bus with phase := .direction k selected } }) n
            (st.direction n)) := by
  obtain ⟨hfirst, hsecond⟩ := Bus.readBit_twice h
  unfold searchRound
  rw [hfirst]
  simp only [hsecond]
  rfl

theorem index_eq (hk : k < 64) : (index (k / 8) : Result (Fin 8)) = .ok ⟨k / 8, by omega⟩ := by
  unfold index
  exact dif_pos (by omega)

theorem searchRound_walking (h : Walking codes r last k st) (hk : k < 64)
    (hbus : BusAt codes st.device.romNo k st.bus.phase)
    (hz : LastZero Rom.bit codes st.device.romNo k st.lastZero) :
    ∃ st', searchRound st = .ok st' ∧ Walking codes r last (k + 1) st' ∧
      BusAt codes st'.device.romNo (k + 1) st'.bus.phase ∧
      LastZero Rom.bit codes st'.device.romNo (k + 1) st'.lastZero := by
  obtain ⟨selected, hphase, hsel⟩ := hbus hk
  obtain ⟨s, hs, hagree⟩ := h.exists_code
  have hmem : s ∈ selected := (hsel s).mpr ⟨hs, hagree⟩
  have hfork := hsel.fork
  have hindex : (index st.romByteNumber : Result (Fin 8)) = .ok ⟨k / 8, by omega⟩ := by
    rw [h.byte, index_eq hk]
  generalize hn : (⟨k / 8, by omega⟩ : Fin 8) = n at hindex
  have hn' : n.val = k / 8 := by rw [← hn]
  rw [searchRound_eq hphase, hindex, ok_bind]
  generalize hst₁ : ({ st with bus := { st.bus with phase := .direction k selected } } :
    OneWireSearch) = st₁
  have hdev : st₁.device = st.device := by rw [← hst₁]
  have hlast : st₁.lastZero = st.lastZero := by rw [← hst₁]
  have hphase₁ : st₁.bus.phase = .direction k selected := by rw [← hst₁]
  have h₁ : Walking codes r last k st₁ := by
    rw [← hst₁]
    exact ⟨h.number, h.byte, h.mask, h.run, h.discrepancy, h.flag, h.roms, h.old, h.exists_code,
      h.walked⟩
  rw [← hdev] at hsel hfork hz
  -- all devices coupled have the same bit
  have hsame : ∀ d, (∀ t ∈ selected, t.bit k = d) → ∃ st', (pure (st₁.advance n d) :
      Result OneWireSearch) = .ok st' ∧ Walking codes r last (k + 1) st' ∧
        BusAt codes st'.device.romNo (k + 1) st'.bus.phase ∧
          LastZero Rom.bit codes st'.device.romNo (k + 1) st'.lastZero := by
    intro d hall
    have hnone : ¬ Fork Rom.bit codes st₁.device.romNo k := by
      intro hf
      obtain ⟨⟨s₀, hs₀, hzero⟩, s₁, hs₁, hone⟩ := hfork.mp hf
      have heq := (hall s₀ hs₀).trans (hall s₁ hs₁).symm
      rw [hzero, hone] at heq
      cases heq
    obtain ⟨hw, hb, hag, -, hzero⟩ := h₁.advance hphase₁ hsel hn' ⟨s, hmem, hall s hmem⟩
      fun hf => absurd hf hnone
    refine ⟨_, rfl, hw, hb, ?_⟩
    rw [hzero, hlast]
    exact (hz.congr hag).pass fun hf => absurd (hf.congr hag.symm) hnone
  by_cases hones : ∀ t ∈ selected, t.bit k = true
  · have hid : (selected.all fun rom => rom.bit k) = true := List.all_eq_true.mpr hones
    have hcmp : (selected.all fun rom => !rom.bit k) = false := by
      rw [List.all_eq_false]
      exact ⟨s, hmem, by rw [hones s hmem]; decide⟩
    rw [hid, hcmp, if_neg (by decide), if_pos (by decide)]
    exact hsame true hones
  have hid : (selected.all fun rom => rom.bit k) = false := by
    rw [List.all_eq_false]
    simpa using hones
  rw [hid, if_neg (by rintro ⟨⟨⟩, -⟩)]
  by_cases hzeros : ∀ t ∈ selected, t.bit k = false
  · have hcmp : (selected.all fun rom => !rom.bit k) = true := by
      rw [List.all_eq_true]
      intro t ht
      rw [hzeros t ht]
      rfl
    rw [hcmp, if_pos (by decide)]
    exact hsame false hzeros
  -- a discrepancy
  have hcmp : (selected.all fun rom => !rom.bit k) = false := by
    rw [List.all_eq_false]
    simpa using hzeros
  have hboth : (∃ t ∈ selected, t.bit k = false) ∧ ∃ t ∈ selected, t.bit k = true :=
    ⟨by simpa using hones, by simpa using hzeros⟩
  have hf := hfork.mpr hboth
  have hdir : st.direction n = if k + 1 < last then r.bit k else decide (k + 1 = last) := by
    unfold OneWireSearch.direction
    rw [h.number, h.discrepancy, h.mask, and_bitMask_ne_zero hn', h.old k (Nat.le_refl k)]
  rw [hcmp, if_neg (by decide)]
  cases hd : st.direction n with
  | true =>
    rw [if_pos rfl]
    obtain ⟨hw, hb, hag, hbit, hzero⟩ := h₁.advance hphase₁ hsel hn' hboth.2
      fun _ => hd.symm.trans hdir
    refine ⟨_, rfl, hw, hb, ?_⟩
    rw [hzero, hlast]
    exact (hz.congr hag).pass fun _ => hbit
  | false =>
    rw [if_neg (by decide)]
    have hphase₂ : st₁.record.bus.phase = .direction k selected := by
      unfold OneWireSearch.record
      split
      · exact hphase₁
      · exact hphase₁
    have hrom₂ : st₁.record.device.romNo = st₁.device.romNo := by
      unfold OneWireSearch.record
      split
      · rfl
      · rfl
    have hlast₂ : st₁.record.lastZero = k + 1 := by
      rw [← h₁.number]
      unfold OneWireSearch.record
      split
      · rfl
      · rfl
    rw [← hrom₂] at hsel hf
    obtain ⟨hw, hb, hag, hbit, hzero⟩ := h₁.record.advance hphase₂ hsel hn' hboth.1
      fun _ => hd.symm.trans hdir
    refine ⟨_, rfl, hw, hb, ?_⟩
    rw [hzero, hlast₂]
    exact .record (hf.congr hag) hbit

end Round

/-! ## One search -/

section Search

variable {codes : List Rom} {r : Rom} {last k : Nat} {st : OneWireSearch} {device : OneWire}
  {bus : Bus}

theorem search_loop (h : Walking codes r last k st) (hk : k ≤ 64)
    (hbus : BusAt codes st.device.romNo k st.bus.phase)
    (hz : LastZero Rom.bit codes st.device.romNo k st.lastZero) (fuel : Nat)
    (hfuel : 65 = k + fuel) :
    ∃ st', whileLoop searchCond searchRound fuel st = .ok st' ∧ Walking codes r last 64 st' ∧
      LastZero Rom.bit codes st'.device.romNo 64 st'.lastZero := by
  induction fuel generalizing k st with
  | zero => omega
  | succ fuel ih =>
    have hcond : searchCond st = decide (k < 64) := by
      unfold searchCond
      rw [h.run, h.byte, Bool.not_false, Bool.true_and]
      exact decide_eq_decide.mpr (by omega)
    by_cases hlt : k < 64
    · obtain ⟨st₁, hround, h₁, hbus₁, hz₁⟩ := searchRound_walking h hlt hbus hz
      rw [whileLoop_round (hcond.trans (decide_eq_true hlt)) hround]
      exact ih h₁ (by omega) hbus₁ hz₁ (by omega)
    · obtain rfl : k = 64 := by omega
      exact ⟨st, whileLoop_done (hcond.trans (decide_eq_false hlt)) fuel, h, hz⟩

/-- The command of a search selects all devices. -/
theorem writeByte_searchrom (bus : Bus) :
    Bus.writeByte { bus with phase := .command [] } onewireCmdSearchrom 8 =
      { bus with phase := .bit 0 bus.roms } := rfl

/-- After the last device the next search finds none, and the one after it is the first. -/
theorem oneWireSearch_last (bus : Bus) (command : Byte) (h : device.lastDeviceFlag = true) :
    oneWireSearch device bus command = .ok (false, device.resetSearch, bus) := by
  unfold oneWireSearch
  rw [if_pos h]
  rfl

/-- On a bus without devices there is none. -/
theorem oneWireSearch_empty (command : Byte) (h : device.lastDeviceFlag = false)
    (hroms : bus.roms = []) :
    oneWireSearch device bus command =
      .ok (false, device.resetSearch, { bus with phase := .command [] }) := by
  unfold oneWireSearch Bus.reset
  rw [if_neg (by rw [h]; decide), hroms]
  rfl

/-- What a search has found. -/
structure Searched (codes : List Rom) (device device' : OneWire) (bus' : Bus) : Prop where
  roms : bus'.roms = codes
  found : device'.romNo ∈ codes
  walked : Walked Rom.bit codes device.romNo device.lastDiscrepancy device'.romNo 64
  zero : LastZero Rom.bit codes device'.romNo 64 device'.lastDiscrepancy
  flag : device'.lastDeviceFlag = decide (device'.lastDiscrepancy = 0)

theorem oneWireSearch_finds (device : OneWire) (h : device.lastDeviceFlag = false)
    (hne : bus.roms ≠ []) (hfirst : ∀ rom ∈ bus.roms, rom.family ≠ 0) :
    ∃ device' bus', oneWireSearch device bus onewireCmdSearchrom = .ok (true, device', bus') ∧
      Searched bus.roms device device' bus' := by
  have hstart : Walking bus.roms device.romNo device.lastDiscrepancy 0
      ⟨1, 0, 0, 1, false, device, { bus with phase := .bit 0 bus.roms }⟩ := by
    obtain ⟨s, hs⟩ := List.exists_mem_of_ne_nil _ hne
    exact ⟨rfl, rfl, rfl, rfl, rfl, h, rfl, fun _ _ => rfl, ⟨s, hs, fun j hj => by omega⟩,
      .zero _ _ _ _⟩
  have hbus : BusAt bus.roms device.romNo 0 (.bit 0 bus.roms) := by
    refine fun _ => ⟨_, rfl, fun s => ⟨fun hs => ⟨hs, fun j hj => by omega⟩, fun hs => hs.1⟩⟩
  obtain ⟨st, hloop, hend, hz⟩ := search_loop hstart (by omega) hbus (.zero _ _) 65 rfl
  have hfound : st.device.romNo ∈ bus.roms := by
    obtain ⟨s, hs, hagree⟩ := hend.exists_code
    rwa [← Rom.eq_of_agree s _ hagree]
  unfold oneWireSearch Bus.reset
  have hnonempty : bus.roms.isEmpty = false := by simpa using hne
  rw [if_neg (by rw [h]; decide), hnonempty]
  simp only [writeByte_searchrom, hloop, ok_bind, hend.number]
  by_cases hzero : st.lastZero = 0
  · refine ⟨{ st.device with lastDiscrepancy := st.lastZero, lastDeviceFlag := true }, st.bus, ?_,
      hend.roms, hfound, hend.walked, hz, (decide_eq_true hzero).symm⟩
    rw [if_neg (by decide), if_pos (by decide), if_pos hzero]
    unfold searchEnd
    rw [if_neg]
    · rfl
    · rintro (⟨⟨⟩⟩ | hrom)
      exact hfirst _ hfound hrom
  · refine ⟨{ st.device with lastDiscrepancy := st.lastZero }, st.bus, ?_, hend.roms, hfound,
      hend.walked, hz, ?_⟩
    · rw [if_neg (by decide), if_pos (by decide), if_neg hzero]
      unfold searchEnd
      rw [if_neg]
      · rfl
      · rintro (⟨⟨⟩⟩ | hrom)
        exact hfirst _ hfound hrom
    · exact hend.flag.trans (decide_eq_false hzero).symm

end Search

/-! ## The whole search -/

section Dosearch

variable {codes found : List Rom} {st : DoSearch}

/-- A table whose first entries are the codes. -/
theorem table_store {table : Vector Rom 8} {n : Fin 8} {c : Rom} (hlen : found.length = n.val)
    (h : table.toList.take n = found) : (table.set n c).toList.take (n + 1) = found ++ [c] := by
  have hn : n.val < table.toList.length := by
    rw [Vector.length_toList]
    exact n.isLt
  rw [Vector.toList_set, List.take_set, List.take_succ_eq_append_getElem hn, h,
    List.set_append_right _ _ (by omega), hlen, Nat.sub_self]
  rfl

/-- Before a round of the loop of `TM_OneWire_Dosearch`: `found` is the table, and the device
    just found, if any, is the next. -/
structure Searching (codes found : List Rom) (st : DoSearch) : Prop where
  count : st.count = found.length
  table : st.devices.roms.toList.take found.length = found
  roms : st.bus.roms = codes
  flag : st.devices.device.lastDeviceFlag = decide (st.devices.device.lastDiscrepancy = 0)
  zero : LastZero Rom.bit codes st.devices.device.romNo 64 st.devices.device.lastDiscrepancy
  found : Found Rom.bit 64 codes (found ++ [st.devices.device.romNo]) st.devices.device.romNo

theorem dosearch_loop (h : Searching codes found st) (hrun : st.stopped = false)
    (howdev : st.owdev = true) (hnodup : codes.Nodup) (hlen : codes.length ≤ maxOnewireSensors)
    (hfirst : ∀ rom ∈ codes, rom.family ≠ 0) (fuel : Nat) (hfuel : 9 = found.length + fuel) :
    ∃ st', whileLoop dosearchCond dosearchRound fuel st = .ok st' ∧ st'.count = codes.length ∧
      (st'.devices.roms.toList.take codes.length).Perm codes ∧ st'.bus.roms = codes := by
  induction fuel generalizing found st with
  | zero =>
    have hle := (h.found.nodup.subperm h.found.subset).length_le
    rw [List.length_append, List.length_singleton] at hle
    unfold maxOnewireSensors at hlen
    omega
  | succ fuel ih =>
    have hle := (h.found.nodup.subperm h.found.subset).length_le
    rw [List.length_append, List.length_singleton] at hle
    unfold maxOnewireSensors at hlen
    have hcond : dosearchCond st = true := by
      unfold dosearchCond
      rw [hrun, howdev]
      rfl
    have hindex : (index (st.count + 1 - 1) : Result (Fin 8)) =
        .ok ⟨found.length, by omega⟩ := by
      unfold index
      rw [h.count]
      exact dif_pos (by omega)
    generalize hn : (⟨found.length, by omega⟩ : Fin 8) = n at hindex
    have hn' : found.length = n.val := by rw [← hn]
    have htable := table_store (c := st.devices.device.romNo) hn' (hn' ▸ h.table)
    by_cases hzero : st.devices.device.lastDiscrepancy = 0
    · -- the last device was found
      have hsearch := oneWireSearch_last st.bus onewireCmdSearchrom
        (h.flag.trans (decide_eq_true hzero))
      have hperm := h.found.perm hnodup (hzero ▸ h.zero)
      have hcount := hperm.length_eq
      rw [List.length_append, List.length_singleton] at hcount
      have hround : dosearchRound st = .ok ⟨false, st.count + 1,
          decide (maxOnewireSensors ≤ st.count + 1),
          { st.devices with
            roms := st.devices.roms.set n st.devices.device.romNo
            device := st.devices.device.resetSearch }, st.bus⟩ := by
        unfold dosearchRound oneWireNext
        simp only [hindex, ok_bind, hsearch]
        rfl
      obtain ⟨m, rfl⟩ : ∃ m, fuel = m + 1 := ⟨fuel - 1, by omega⟩
      rw [whileLoop_round hcond hround]
      have hdone : dosearchCond ⟨false, st.count + 1, decide (maxOnewireSensors ≤ st.count + 1),
          { st.devices with
            roms := st.devices.roms.set n st.devices.device.romNo
            device := st.devices.device.resetSearch }, st.bus⟩ = false := Bool.and_false _
      refine ⟨_, whileLoop_done hdone m, ?_, ?_, h.roms⟩
      · show st.count + 1 = codes.length
        rw [h.count, hcount]
      · show ((st.devices.roms.set n st.devices.device.romNo).toList.take codes.length).Perm codes
        rw [← hcount, hn', htable]
        exact hperm
    · have hmore := h.found.length_lt h.zero hzero
      rw [List.length_append, List.length_singleton] at hmore
      have hne : st.bus.roms ≠ [] := by
        rw [h.roms]
        exact List.ne_nil_of_mem h.found.last
      obtain ⟨device', bus', hsearch, hfound⟩ := oneWireSearch_finds _
        (h.flag.trans (decide_eq_false hzero)) hne (h.roms ▸ hfirst)
      rw [h.roms] at hfound
      have hround : dosearchRound st = .ok ⟨true, st.count + 1, false,
          { st.devices with
            roms := st.devices.roms.set n st.devices.device.romNo
            device := device' }, bus'⟩ := by
        have hstop : decide (maxOnewireSensors ≤ st.count + 1) = false := by
          rw [h.count]
          exact decide_eq_false (by unfold maxOnewireSensors; omega)
        unfold dosearchRound oneWireNext
        simp only [hindex, ok_bind, hsearch, hstop]
        rfl
      rw [whileLoop_round hcond hround]
      have hnext : Searching codes (found ++ [st.devices.device.romNo]) ⟨true, st.count + 1, false,
          { st.devices with
            roms := st.devices.roms.set n st.devices.device.romNo
            device := device' }, bus'⟩ := by
        refine ⟨?_, ?_, hfound.roms, hfound.flag, hfound.zero, ?_⟩
        · show st.count + 1 = _
          rw [h.count, List.length_append, List.length_singleton]
        · rw [List.length_append, List.length_singleton, hn']
          exact htable
        · exact h.found.next Rom.eq_of_agree hfound.found h.zero hzero hfound.walked
      apply ih hnext rfl rfl
      rw [List.length_append, List.length_singleton]
      omega

/-- Whatever the search before has left: every device is found once. -/
theorem oneWireDosearch_finds (devices : OneWireDevices) (bus : Bus) (hnodup : bus.roms.Nodup)
    (hlen : bus.roms.length ≤ maxOnewireSensors) (hfirst : ∀ rom ∈ bus.roms, rom.family ≠ 0) :
    ∃ devices' bus', oneWireDosearch devices bus = .ok (bus.roms.length, devices', bus') ∧
      devices'.numdev = bus.roms.length ∧
      (devices'.roms.toList.take devices'.numdev).Perm bus.roms ∧ bus'.roms = bus.roms := by
  unfold oneWireDosearch oneWireFirst
  by_cases hempty : bus.roms = []
  · rw [oneWireSearch_empty _ rfl hempty]
    refine ⟨{ devices with device := devices.device.resetSearch.resetSearch, numdev := 0 },
      { bus with phase := .command [] }, ?_, ?_, ?_, rfl⟩
    · rw [hempty]
      rfl
    · rw [hempty]
      rfl
    · rw [hempty]
      rfl
  · obtain ⟨device', bus', hsearch, hfound⟩ :=
      oneWireSearch_finds devices.device.resetSearch rfl hempty hfirst
    rw [hsearch]
    have hstart : Searching bus.roms []
        ⟨true, 0, false, { devices with device := device' }, bus'⟩ :=
      ⟨rfl, rfl, hfound.roms, hfound.flag, hfound.zero,
        .first Rom.eq_of_agree hfound.found hfound.walked⟩
    obtain ⟨st, hloop, hcount, hperm, hroms⟩ := dosearch_loop hstart rfl rfl hnodup hlen hfirst
      (maxOnewireSensors + 1) rfl
    simp only [ok_bind, hloop]
    refine ⟨{ st.devices with numdev := st.count }, st.bus, ?_, hcount, ?_, hroms⟩
    · rw [hcount]
      rfl
    · rw [hcount]
      exact hperm

/-- What a search that was left in its middle has left. -/
def sampleOneWire : OneWireDevices :=
  ⟨⟨3, 0, false, #v[0x28, 0, 0, 0, 0, 0, 0, 1]⟩, 1, Vector.replicate 8 (Vector.replicate 8 0)⟩

/-- Three devices. -/
def sampleBus : Bus where
  roms := [#v[0x28, 0, 0, 0, 0, 0, 0, 1], #v[0x28, 0, 0, 0, 0, 0, 0, 9],
    #v[0x10, 0, 0, 0, 0, 0, 0, 1]]
  phase := .idle

theorem oneWireDosearch_finds_three :
    ∃ devices' bus', oneWireDosearch sampleOneWire sampleBus = .ok (3, devices', bus') ∧
      devices'.numdev = 3 ∧ (devices'.roms.toList.take devices'.numdev).Perm sampleBus.roms := by
  have hfirst : ∀ rom ∈ sampleBus.roms, rom.family ≠ 0 := by
    intro rom hrom
    obtain rfl | rfl | rfl : rom = #v[0x28, 0, 0, 0, 0, 0, 0, 1] ∨
        rom = #v[0x28, 0, 0, 0, 0, 0, 0, 9] ∨ rom = #v[0x10, 0, 0, 0, 0, 0, 0, 1] := by
      simpa only [sampleBus, List.mem_cons, List.not_mem_nil, or_false] using hrom
    · decide
    · decide
    · decide
  obtain ⟨devices', bus', hrun, hnumdev, hperm, -⟩ :=
    oneWireDosearch_finds sampleOneWire sampleBus (by decide) (by decide) hfirst
  exact ⟨devices', bus', hrun, hnumdev, hperm⟩

end Dosearch

end LuaRtos.Driver
