/-
  LuaRtos.Lua.PackRoundTrip

  `pack.unpack` of what `pack.pack` has made.

  The loops take the values two by two, as the header does.
-/

import LuaRtos.Lua.Pack
import Mathlib.Data.List.TakeWhile

namespace LuaRtos.Lua.Pack

open LuaRtos.CLib LuaRtos.Lora

/-! ## The text of values -/

/-- A value that can be packed; a string has no zero byte. -/
def Packable : LuaValue → Prop
  | .string s => nul ∉ s
  | .function _ | .object _ => False
  | _ => True

/-- The type of a value. -/
def typeOf (v : LuaValue) : Byte := ((encoding v).map Prod.fst).getD 0

/-- The text of a value. -/
def dataOf (v : LuaValue) : List Byte :=
  ((encoding v).map fun e => encodeHex e.2.1 ++ e.2.2).getD []

/-- The bytes of the header behind the first. -/
def headerOf : List LuaValue → List Byte
  | [] => []
  | [v] => [typeOf v <<< 4]
  | v :: u :: vs => (typeOf v <<< 4 ||| typeOf u) :: headerOf vs

section Text

variable {v : LuaValue} {s : List Byte}

theorem takeWhile_ne_nul (hs : nul ∉ s) : (s.takeWhile fun c => c ≠ nul) = s := by
  apply List.takeWhile_eq_self_iff.mpr
  intro c hc
  have hne : c ≠ nul := fun h => hs (h ▸ hc)
  exact decide_eq_true hne

theorem encoding_packable (hv : Packable v) :
    ∃ bytes mark, encoding v = some (typeOf v, bytes, mark) ∧
      dataOf v = encodeHex bytes ++ mark ∧ (dataOf v).length = 2 * valueSize v := by
  cases v with
  | nil => exact ⟨_, _, rfl, rfl, rfl⟩
  | boolean b => exact ⟨_, _, rfl, rfl, by cases b <;> rfl⟩
  | integer n =>
    refine ⟨_, _, rfl, rfl, ?_⟩
    change (encodeHex (bytesLE 4 n.toNat) ++ []).length = _
    rw [List.append_nil, length_encodeHex, length_bytesLE]
    rfl
  | number bits =>
    refine ⟨_, _, rfl, rfl, ?_⟩
    change (encodeHex (bytesLE 4 bits.toNat) ++ []).length = _
    rw [List.append_nil, length_encodeHex, length_bytesLE]
    rfl
  | string s =>
    refine ⟨_, _, rfl, rfl, ?_⟩
    change (encodeHex (s.takeWhile fun c => c ≠ nul) ++ chars "00").length = _
    rw [takeWhile_ne_nul hv, List.length_append, length_encodeHex]
    change 2 * s.length + 2 = 2 * (s.length + 1)
    omega
  | function f => cases hv
  | object o => cases hv

theorem typeOf_lt (v : LuaValue) : typeOf v < 16 := by
  cases v with
  | number _ => exact (by decide : packNumber < 16)
  | integer _ => exact (by decide : packInteger < 16)
  | nil => exact (by decide : packNil < 16)
  | boolean _ => exact (by decide : packBoolean < 16)
  | string _ => exact (by decide : packString < 16)
  | function _ => exact (by decide : (0 : Byte) < 16)
  | object _ => exact (by decide : (0 : Byte) < 16)

theorem length_headerOf (vs : List LuaValue) : (headerOf vs).length = (vs.length + 1) / 2 := by
  induction vs using headerOf.induct with
  | case1 => rfl
  | case2 v => simp [headerOf]
  | case3 v u vs ih =>
    rw [headerOf, List.length_cons, ih, List.length_cons, List.length_cons]
    omega

theorem length_flatMap_dataOf {vs : List LuaValue} (hvs : ∀ v ∈ vs, Packable v) :
    (vs.flatMap dataOf).length = 2 * argSize vs := by
  induction vs with
  | nil => rfl
  | cons v vs ih =>
    obtain ⟨_, _, -, -, hlen⟩ := encoding_packable (hvs v List.mem_cons_self)
    have hsize : argSize (v :: vs) = valueSize v + argSize vs := List.foldr_cons
    rw [List.flatMap_cons, List.length_append, hlen, hsize,
      ih fun u hu => hvs u (List.mem_cons_of_mem v hu)]
    omega

/-- The text has no zero byte. -/
theorem nul_notMem_dataOf (hv : Packable v) : nul ∉ dataOf v := by
  obtain ⟨bytes, mark, henc, hdata, -⟩ := encoding_packable hv
  have hmark : nul ∉ mark := by
    cases v with
    | string s => cases henc; decide
    | nil | boolean _ | integer _ | number _ => cases henc; exact List.not_mem_nil
    | function f => cases hv
    | object o => cases hv
  rw [hdata, List.mem_append, not_or]
  exact ⟨nul_notMem_encodeHex bytes, hmark⟩

theorem nul_notMem_data {vs : List LuaValue} (hvs : ∀ v ∈ vs, Packable v) :
    nul ∉ vs.flatMap dataOf := by
  rw [List.mem_flatMap]
  rintro ⟨v, hv, hnul⟩
  exact nul_notMem_dataOf (hvs v hv) hnul

end Text

/-! ## Packing -/

section Packing

variable {i : Nat} {p : Packing} {pre post w tail : List Byte} {x t : Byte} {v : LuaValue}

/-- The first of two values gets a new byte. -/
theorem nextHeader_odd (hi : i % 2 = 1) (hheader : p.header = pre ++ x :: post)
    (hpos : p.cheader + 1 = pre.length) :
    nextHeader i p = .ok { p with header := pre ++ 0 :: post, cheader := pre.length } := by
  rw [nextHeader, if_pos (by omega), hpos, hheader, store_append, ok_bind]
  rfl

theorem nextHeader_even (hi : i % 2 = 0) (hpos : 0 < i) : nextHeader i p = .ok p := by
  rw [nextHeader, if_neg (by omega)]
  rfl

theorem putType_eq (t : Byte) (hheader : p.header = pre ++ x :: post)
    (hpos : p.cheader = pre.length) :
    putType i t p = .ok { p with header := pre ++ (x ||| packType t i) :: post } := by
  rw [putType, hpos, hheader, load_append, ok_bind, store_append, ok_bind]
  rfl

theorem packType_odd (t : Byte) (hi : i % 2 = 1) : packType t i = t <<< 4 := by
  have hshift : typeShift i = 4 := by
    unfold typeShift
    omega
  rw [packType, hshift]

theorem packType_even (t : Byte) (hi : i % 2 = 0) (hpos : 0 < i) : packType t i = t := by
  have hshift : typeShift i = 0 := by
    unfold typeShift
    omega
  rw [packType, hshift, BitVec.shiftLeft_zero]

/-- A text is put behind what is there, if there is room for it and its end. -/
theorem putData_eq (bytes mark : List Byte) (hpack : p.pack = w ++ tail)
    (hpos : p.data_idx = w.length) (hroom : (encodeHex bytes ++ mark).length < tail.length) :
    putData bytes mark p = .ok { p with
      pack := w ++ (encodeHex bytes ++ mark) ++
        nul :: tail.drop ((encodeHex bytes ++ mark).length + 1)
      data_idx := (w ++ (encodeHex bytes ++ mark)).length } := by
  have hlen := length_encodeHex bytes
  rw [List.length_append] at hroom
  -- the part of the block for the text, for the mark, and for the end
  obtain ⟨a, b, c, rest, rfl, ha, hb⟩ : ∃ a b c rest, tail = a ++ (b ++ c :: rest) ∧
      a.length = 2 * bytes.length ∧ b.length = mark.length := by
    refine ⟨tail.take (2 * bytes.length), (tail.drop (2 * bytes.length)).take mark.length, ?_⟩
    have hne : (tail.drop (2 * bytes.length)).drop mark.length ≠ [] := by
      intro h
      have := congrArg List.length h
      rw [List.length_drop, List.length_drop, List.length_nil] at this
      omega
    obtain ⟨c, rest, hrest⟩ := List.exists_cons_of_ne_nil hne
    refine ⟨c, rest, ?_, ?_, ?_⟩
    · rw [← hrest, List.take_append_drop, List.take_append_drop]
    · rw [List.length_take]
      omega
    · rw [List.length_take, List.length_drop]
      omega
  have htext : valToHexStringLoop bytes false bytes.length 0 p.data_idx p.pack =
      .ok (w.length + 2 * bytes.length, w ++ encodeHex bytes ++ (b ++ c :: rest)) := by
    have h := valToHexStringLoop_forward [] [] w (b ++ c :: rest) ha
    rw [List.nil_append, List.append_nil] at h
    rw [hpack, hpos, ← List.append_assoc]
    exact h
  have hmark : storeBytes (w ++ encodeHex bytes ++ (b ++ c :: rest))
      (w.length + 2 * bytes.length) mark =
        .ok (w ++ encodeHex bytes ++ (mark ++ c :: rest)) := by
    rw [← hlen, ← List.length_append]
    exact storeBytes_append _ b (c :: rest) mark hb.symm
  have hend : store (w ++ encodeHex bytes ++ (mark ++ c :: rest))
      (w.length + 2 * bytes.length + mark.length) nul =
        .ok (w ++ encodeHex bytes ++ mark ++ nul :: rest) := by
    rw [← List.append_assoc, ← hlen, ← List.length_append, ← List.length_append]
    exact store_append _ rest c nul
  have hdrop : (a ++ (b ++ c :: rest)).drop ((encodeHex bytes ++ mark).length + 1) = rest := by
    rw [← List.append_assoc, show (encodeHex bytes ++ mark).length + 1 = (a ++ b ++ [c]).length by
      simp only [List.length_append, List.length_cons, List.length_nil]
      omega, show a ++ b ++ c :: rest = a ++ b ++ [c] ++ rest by simp]
    exact List.drop_left
  rw [putData, htext, ok_bind]
  dsimp only
  rw [hmark, ok_bind, hend, ok_bind, hdrop]
  simp only [List.length_append, List.append_assoc, hlen, pure_eq_ok, Nat.add_assoc]

theorem zero_or_byte (c : Byte) : (0 : Byte) ||| c = c := BitVec.zero_or

/-- One value. -/
theorem packArgs_cons {p₁ : Packing} (vs : List LuaValue) (hv : Packable v)
    (hnext : nextHeader i p = .ok p₁) (hheader : p₁.header = pre ++ x :: post)
    (hpos : p₁.cheader = pre.length) (hpack : p₁.pack = w ++ tail)
    (hidx : p₁.data_idx = w.length) (hroom : (dataOf v).length < tail.length) :
    packArgs i (v :: vs) p = packArgs (i + 1) vs
      { header := pre ++ (x ||| packType (typeOf v) i) :: post
        cheader := p₁.cheader
        pack := w ++ dataOf v ++ nul :: tail.drop ((dataOf v).length + 1)
        data_idx := (w ++ dataOf v).length } := by
  obtain ⟨bytes, mark, henc, hdata, -⟩ := encoding_packable hv
  rw [hdata] at hroom
  rw [packArgs, hnext, ok_bind, henc]
  dsimp only
  have hput := putData_eq bytes mark
    (p := { p₁ with header := pre ++ (x ||| packType (typeOf v) i) :: post }) hpack hidx hroom
  rw [putType_eq (typeOf v) hheader hpos, ok_bind, hput, ok_bind, hdata]

/-- The values are packed, their types in the header and their texts one after the other. -/
theorem packArgs_eq {vs : List LuaValue} (hvs : ∀ v ∈ vs, Packable v) (hi : i % 2 = 1)
    (hheader : p.header = pre ++ post) (hpos : p.cheader + 1 = pre.length)
    (hlen : post.length = (headerOf vs).length) (hpack : p.pack = w ++ tail)
    (hidx : p.data_idx = w.length) (hroom : (vs.flatMap dataOf).length < tail.length) :
    ∃ cheader tail', packArgs i vs p = .ok (.ok
        { header := pre ++ headerOf vs
          cheader := cheader
          pack := w ++ vs.flatMap dataOf ++ tail'
          data_idx := (w ++ vs.flatMap dataOf).length }) ∧
      (vs ≠ [] ∨ tail.head? = some nul → tail'.head? = some nul) := by
  induction vs using headerOf.induct generalizing i p pre post w tail with
  | case1 =>
    refine ⟨p.cheader, tail, ?_, fun h => h.resolve_left fun hne => hne rfl⟩
    rw [List.length_eq_zero_iff.mp hlen, List.append_nil] at hheader
    rw [packArgs, List.flatMap_nil, List.append_nil, headerOf, List.append_nil, ← hheader,
      ← hpack, ← hidx]
    rfl
  | case2 v =>
    obtain ⟨x, rfl⟩ := List.length_eq_one_iff.mp hlen
    rw [List.flatMap_cons, List.flatMap_nil, List.append_nil] at hroom ⊢
    have hnext := nextHeader_odd hi hheader hpos
    refine ⟨pre.length, nul :: tail.drop ((dataOf v).length + 1), ?_, fun _ => rfl⟩
    rw [packArgs_cons [] (hvs v List.mem_cons_self) hnext rfl rfl hpack hidx hroom, packArgs,
      packType_odd _ hi, zero_or_byte]
    rfl
  | case3 v u vs ih =>
    obtain ⟨x, rest, rfl⟩ := List.exists_cons_of_length_eq_add_one hlen
    rw [headerOf, List.length_cons, List.length_cons] at hlen
    have hv := hvs v List.mem_cons_self
    have hu := hvs u (List.mem_cons_of_mem v List.mem_cons_self)
    rw [List.flatMap_cons, List.flatMap_cons, List.length_append, List.length_append] at hroom
    have hnext := nextHeader_odd hi hheader hpos
    have hnext' : ∀ q, nextHeader (i + 1) q = .ok q :=
      fun q => nextHeader_even (by omega) (Nat.succ_pos i)
    -- the second value is put in the byte that the first has begun
    rw [packArgs_cons (u :: vs) hv hnext rfl rfl hpack hidx (by omega),
      packArgs_cons vs hu (hnext' _) rfl rfl rfl rfl
        (by rw [List.length_cons, List.length_drop]; omega),
      packType_odd _ hi, packType_even _ (by omega) (Nat.succ_pos i), zero_or_byte]
    have hcheader : pre.length + 1 = (pre ++ [typeOf v <<< 4 ||| typeOf u]).length := by
      rw [List.length_append, List.length_singleton]
    obtain ⟨cheader, tail', heq, hend⟩ := ih (i := i + 1 + 1)
      (p := { header := pre ++ (typeOf v <<< 4 ||| typeOf u) :: rest
              cheader := pre.length
              pack := w ++ dataOf v ++ dataOf u ++ nul ::
                (nul :: tail.drop ((dataOf v).length + 1)).drop ((dataOf u).length + 1)
              data_idx := (w ++ dataOf v ++ dataOf u).length })
      (fun t ht => hvs t (List.mem_cons_of_mem v (List.mem_cons_of_mem u ht))) (by omega)
      (List.append_cons _ _ _) hcheader (by omega) rfl rfl
      (by simp only [List.length_cons, List.length_drop]; omega)
    refine ⟨cheader, tail', ?_, fun _ => hend (.inr rfl)⟩
    rw [heq, headerOf, List.flatMap_cons, List.flatMap_cons]
    simp only [List.append_assoc, List.singleton_append]

/-- The text of packed values. -/
def packText (vs : List LuaValue) : List Byte :=
  encodeHex (BitVec.ofNat 8 vs.length :: headerOf vs) ++ vs.flatMap dataOf

theorem length_header (vs : List LuaValue) :
    (BitVec.ofNat 8 vs.length :: headerOf vs).length = headerLength vs.length := by
  rw [List.length_cons, length_headerOf, headerLength]
  omega

theorem nul_notMem_packText {vs : List LuaValue} (hvs : ∀ v ∈ vs, Packable v) :
    nul ∉ packText vs := by
  rw [packText, List.mem_append, not_or]
  exact ⟨nul_notMem_encodeHex _, nul_notMem_data hvs⟩

/-- The size of the block for the text. -/
def packSize (vs : List LuaValue) : Nat := (headerLength vs.length + argSize vs) * 2 + 1

/-- With memory for the two blocks, the text is made inside them. -/
theorem lPack_eq {malloc : (n : Nat) → Option (Block n)} {vs : List LuaValue}
    {header : Block (headerLength vs.length)} {pack : Block (packSize vs)} (hne : vs ≠ [])
    (hvs : ∀ v ∈ vs, Packable v) (hheader : malloc (headerLength vs.length) = some header)
    (hpack : malloc (packSize vs) = some pack) :
    lPack malloc vs = .ok (.ok (packText vs)) := by
  have hlen := length_header vs
  have hdata := length_flatMap_dataOf hvs
  obtain ⟨c, rest, hrest⟩ : ∃ c rest, header.bytes = c :: rest := by
    apply List.exists_cons_of_length_pos
    rw [header.size, headerLength]
    omega
  have hsize : rest.length = (headerOf vs).length := by
    have h := header.size
    rw [hrest, ← hlen, List.length_cons, List.length_cons] at h
    omega
  have hstore : store header.bytes 0 (BitVec.ofNat 8 vs.length) =
      .ok ([BitVec.ofNat 8 vs.length] ++ rest) := by
    rw [hrest]
    exact store_append [] rest c _
  -- the part of the block for the header, and the part for the values
  have hroom : (vs.flatMap dataOf).length <
      (pack.bytes.drop (headerLength vs.length * 2)).length := by
    rw [List.length_drop, pack.size, packSize]
    omega
  have hfront : (pack.bytes.take (headerLength vs.length * 2)).length =
      headerLength vs.length * 2 := by
    rw [List.length_take, pack.size, packSize]
    omega
  obtain ⟨cheader, tail', hargs, hend⟩ := packArgs_eq (i := 1) hvs rfl
    (p := ⟨[BitVec.ofNat 8 vs.length] ++ rest, 0, pack.bytes, headerLength vs.length * 2⟩)
    rfl rfl hsize (List.take_append_drop _ _).symm hfront.symm hroom
  obtain ⟨post, rfl⟩ : ∃ post, tail' = nul :: post :=
    ⟨_, List.eq_cons_of_mem_head? (hend (.inl hne))⟩
  have htext : valToHexStringLoop (BitVec.ofNat 8 vs.length :: headerOf vs) false
      (headerLength vs.length) 0 0
      (pack.bytes.take (headerLength vs.length * 2) ++ vs.flatMap dataOf ++ nul :: post) =
        .ok (2 * headerLength vs.length, packText vs ++ nul :: post) := by
    have h := valToHexStringLoop_forward (v := BitVec.ofNat 8 vs.length :: headerOf vs) [] [] []
      (vs.flatMap dataOf ++ nul :: post) (x := pack.bytes.take (headerLength vs.length * 2))
      (by rw [hfront, hlen, Nat.mul_comm])
    rw [hlen, List.append_nil, List.nil_append, List.nil_append, List.nil_append] at h
    rw [List.append_assoc, packText, List.append_assoc]
    rw [List.length_nil, Nat.zero_add] at h
    exact h
  rw [lPack, if_neg (mt List.length_eq_zero_iff.mp hne)]
  dsimp only
  rw [hheader]
  dsimp only
  have hblock : malloc ((headerLength vs.length + argSize vs) * 2 + 1) = some pack := hpack
  rw [hstore, ok_bind, hblock]
  dsimp only
  rw [hargs, ok_bind]
  dsimp only
  rw [List.singleton_append, htext, ok_bind]
  dsimp only
  rw [readStr_append (nul_notMem_packText hvs), ok_bind]
  rfl

/-- The call comes to an end in any case. -/
theorem lPack_ends (malloc : (n : Nat) → Option (Block n)) {vs : List LuaValue} (hne : vs ≠ [])
    (hvs : ∀ v ∈ vs, Packable v) :
    lPack malloc vs = .ok (.ok (packText vs)) ∧ (malloc (headerLength vs.length)).isSome ∧
        (malloc (packSize vs)).isSome ∨
      lPack malloc vs = .ok (.error .notEnoughMemory) ∧
        ((malloc (headerLength vs.length)).isNone ∨ (malloc (packSize vs)).isNone) := by
  cases hheader : malloc (headerLength vs.length) with
  | none =>
    refine .inr ⟨?_, .inl rfl⟩
    rw [lPack, if_neg (mt List.length_eq_zero_iff.mp hne)]
    dsimp only
    rw [hheader]
    rfl
  | some header =>
    cases hpack : malloc (packSize vs) with
    | some pack => exact .inl ⟨lPack_eq hne hvs hheader hpack, rfl, rfl⟩
    | none =>
      refine .inr ⟨?_, .inr rfl⟩
      have hstore : ∃ header', store header.bytes 0 (BitVec.ofNat 8 vs.length) = .ok header' := by
        refine ⟨_, if_pos ?_⟩
        rw [header.size, headerLength]
        omega
      obtain ⟨header', hstore⟩ := hstore
      rw [lPack, if_neg (mt List.length_eq_zero_iff.mp hne)]
      dsimp only
      rw [hheader]
      dsimp only
      have hblock : malloc ((headerLength vs.length + argSize vs) * 2 + 1) = none := hpack
      rw [hstore, ok_bind, hblock]
      rfl

end Packing

/-! ## Unpacking -/

/-- Both digits of the byte are other than zero. -/
def fullByte (c : Byte) : Bool := !(c &&& 0xf0 == 0) && !(c &&& 0x0f == 0)

/-- The end of the value is found, and there is memory for it. -/
def Found (malloc : (n : Nat) → Option (Block n)) : LuaValue → Prop
  | .string s => (∀ c ∈ s, fullByte c = true) ∧ (malloc (s.length + 1)).isSome
  | _ => True

section Values

variable {malloc : (n : Nat) → Option (Block n)} {pre post s : List Byte} {v : LuaValue}

/-- The text of bytes is read back as them. -/
theorem readBytes (pre post bytes : List Byte) : hexStringToValLoop
    (pre ++ (encodeHex bytes ++ post)) false bytes.length (pre.length : Int) = .ok bytes := by
  have h := hexStringToValLoop_forward pre post (length_encodeHex bytes)
  rwa [decodeHex_encodeHex, List.append_assoc] at h

theorem digits_ne_zero : ∀ c : Byte,
    (hexDigit ((c &&& 0xf0) >>> 4) ≠ 0x30 ∧ hexDigit (c &&& 0x0f) ≠ 0x30) ↔ fullByte c = true := by
  decide

/-- The end of a string is found at its first byte that has a zero digit. -/
theorem hexStringLen_eq (s post : List Byte) :
    hexStringLen (encodeHex s ++ 0x30 :: 0x30 :: post) = .ok (s.takeWhile fullByte).length := by
  induction s with
  | nil => rfl
  | cons c s ih =>
    rw [encodeHex, List.cons_append, List.cons_append, hexStringLen]
    by_cases hc : fullByte c = true
    · rw [if_pos ((digits_ne_zero c).mpr hc), ih, List.takeWhile_cons_of_pos hc, List.length_cons]
      rfl
    · rw [if_neg (mt (digits_ne_zero c).mp hc), List.takeWhile_cons_of_neg hc]
      rfl

theorem ofBytesLE_bits (n : BitVec 32) :
    BitVec.ofNat 32 (ofBytesLE (bytesLE 4 n.toNat)) = n := by
  have hlt : n.toNat < 256 ^ 4 := n.isLt
  rw [ofBytesLE_bytesLE, Nat.mod_eq_of_lt hlt, BitVec.ofNat_toNat, BitVec.setWidth_eq]

/-- A string, as it is found. -/
theorem unpackArg_string (hs : nul ∉ s) :
    unpackArg malloc (pre ++ (dataOf (.string s) ++ post)) packString pre.length =
      if (malloc ((s.takeWhile fullByte).length + 1)).isNone then .ok (.error .notEnoughMemory)
      else .ok (.ok (some (.string (s.takeWhile fullByte)),
        pre.length + ((s.takeWhile fullByte).length * 2 + 2))) := by
  have hdata : dataOf (.string s) = encodeHex s ++ [0x30, 0x30] := by
    change encodeHex (s.takeWhile fun c => c ≠ nul) ++ chars "00" = _
    rw [takeWhile_ne_nul hs]
    rfl
  have hlen : hexStringLen ((pre ++ (dataOf (.string s) ++ post)).drop pre.length) =
      .ok (s.takeWhile fullByte).length := by
    rw [List.drop_left, hdata, List.append_assoc]
    exact hexStringLen_eq s post
  have hread : hexStringToValLoop (pre ++ (dataOf (.string s) ++ post)) false
      (s.takeWhile fullByte).length (pre.length : Int) = .ok (s.takeWhile fullByte) := by
    have hsplit : s = s.takeWhile fullByte ++ s.dropWhile fullByte :=
      (List.takeWhile_append_dropWhile).symm
    have htext : dataOf (.string s) ++ post = encodeHex (s.takeWhile fullByte) ++
        (encodeHex (s.dropWhile fullByte) ++ ([0x30, 0x30] ++ post)) := by
      rw [hdata, ← List.append_assoc, ← encodeHex_append, ← hsplit, List.append_assoc]
    rw [htext]
    exact readBytes _ _ _
  have hnul : nul ∉ s.takeWhile fullByte := fun h => hs (List.takeWhile_subset fullByte h)
  rw [unpackArg, if_neg (by decide), if_neg (by decide), if_neg (by decide), if_neg (by decide),
    if_pos rfl, hlen, ok_bind]
  rw [hread, ok_bind, takeWhile_ne_nul hnul]
  rfl

/-- A number of either kind. -/
theorem read_bits (n : BitVec 32) :
    hexStringToValLoop (pre ++ (encodeHex (bytesLE 4 n.toNat) ++ [] ++ post)) false 4
      (pre.length : Int) = .ok (bytesLE 4 n.toNat) := by
  have h := readBytes pre post (bytesLE 4 n.toNat)
  rwa [length_bytesLE, ← List.append_nil (encodeHex _)] at h

/-- A value that is found is unpacked as it was. -/
theorem unpackArg_found (hv : Packable v) (hfound : Found malloc v) :
    unpackArg malloc (pre ++ (dataOf v ++ post)) (typeOf v) pre.length =
      .ok (.ok (some v, pre.length + (dataOf v).length)) := by
  cases v with
  | nil => rfl
  | boolean b =>
    have hread : hexStringToValLoop (pre ++ (dataOf (.boolean b) ++ post)) false 1
        (pre.length : Int) = .ok [if b then 1 else 0] := readBytes pre post [if b then 1 else 0]
    change (hexStringToValLoop _ false 1 (pre.length : Int) >>= _) = _
    rw [hread, ok_bind]
    cases b <;> rfl
  | integer n =>
    change (hexStringToValLoop _ false 4 (pre.length : Int) >>= _) = _
    rw [show dataOf (.integer n) = encodeHex (bytesLE 4 n.toNat) ++ [] from rfl, read_bits, ok_bind,
      ofBytesLE_bits]
    rfl
  | number bits =>
    change (hexStringToValLoop _ false 4 (pre.length : Int) >>= _) = _
    rw [show dataOf (.number bits) = encodeHex (bytesLE 4 bits.toNat) ++ [] from rfl, read_bits,
      ok_bind, ofBytesLE_bits]
    rfl
  | string s =>
    obtain ⟨hfull, hmem⟩ := hfound
    have hall : s.takeWhile fullByte = s := List.takeWhile_eq_self_iff.mpr hfull
    obtain ⟨_, _, -, -, hlen⟩ := encoding_packable hv
    have hsize : s.length * 2 + 2 = 2 * valueSize (.string s) := by
      rw [valueSize]
      omega
    change unpackArg malloc _ packString pre.length = _
    rw [unpackArg_string hv, hall, if_neg (by simpa using Option.isSome_iff_ne_none.mp hmem), hlen,
      hsize]
  | function f => cases hv
  | object o => cases hv

/-- A value that is not found is unpacked as another one, if at all. -/
theorem unpackArg_lost (hv : Packable v) {u : Option LuaValue} {k : Nat}
    (hrun : unpackArg malloc (pre ++ (dataOf v ++ post)) (typeOf v) pre.length = .ok (.ok (u, k)))
    (hu : u = some v) : Found malloc v := by
  cases v with
  | string s =>
    change unpackArg malloc _ packString pre.length = _ at hrun
    rw [unpackArg_string hv] at hrun
    split at hrun
    · cases hrun
    next hmem =>
      subst hu
      injection hrun with hrun
      injection hrun with hrun
      have hall : s.takeWhile fullByte = s :=
        LuaValue.string.inj (Option.some.inj (Prod.mk.inj hrun).1)
      rw [hall, Option.isNone_iff_eq_none] at hmem
      exact ⟨List.takeWhile_eq_self_iff.mp hall, Option.isSome_iff_ne_none.mpr hmem⟩
  | nil | boolean _ | integer _ | number _ => trivial
  | function f => cases hv
  | object o => cases hv

theorem typeOf_cases (v : LuaValue) : typeOf v = packNumber ∨ typeOf v = packInteger ∨
    typeOf v = packNil ∨ typeOf v = packBoolean ∨ typeOf v = packString := by
  cases v with
  | number _ | function _ | object _ => exact .inl rfl
  | integer _ => exact .inr (.inl rfl)
  | nil => exact .inr (.inr (.inl rfl))
  | boolean _ => exact .inr (.inr (.inr (.inl rfl)))
  | string _ => exact .inr (.inr (.inr (.inr rfl)))

/-- There is a value for each of the types. -/
theorem unpackArg_some {pack : List Byte} {i k : Nat} {u : Option LuaValue}
    (hrun : unpackArg malloc pack (typeOf v) i = .ok (.ok (u, k))) : u.isSome := by
  unfold unpackArg at hrun
  split at hrun
  · obtain ⟨_, -, hrun⟩ := bind_eq_ok.mp hrun
    cases hrun
    rfl
  next hnumber =>
  split at hrun
  · obtain ⟨_, -, hrun⟩ := bind_eq_ok.mp hrun
    cases hrun
    rfl
  next hinteger =>
  split at hrun
  · cases hrun
    rfl
  next hnil =>
  split at hrun
  · obtain ⟨_, -, hrun⟩ := bind_eq_ok.mp hrun
    cases hrun
    rfl
  next hboolean =>
  split at hrun
  · obtain ⟨_, -, hrun⟩ := bind_eq_ok.mp hrun
    split at hrun
    · cases hrun
    · obtain ⟨_, -, hrun⟩ := bind_eq_ok.mp hrun
      cases hrun
      rfl
  next hstring =>
    rcases typeOf_cases v with h | h | h | h | h
    · exact absurd h hnumber
    · exact absurd h hinteger
    · exact absurd h hnil
    · exact absurd h hboolean
    · exact absurd h hstring

end Values

section Loop

variable {malloc : (n : Nat) → Option (Block n)} {pack pre post : List Byte} {vs us : List LuaValue}
  {i cheader : Nat} {headerv : Byte}

/-- The header gives the types of the values, from the value number `i` on. -/
def TypesAt (pack : List Byte) : Nat → Nat → Byte → List LuaValue → Prop
  | _, _, _, [] => True
  | i, cheader, headerv, v :: vs => ∃ cheader' headerv',
      nextTypes pack i cheader headerv = .ok (cheader', headerv') ∧
        unpackType headerv' i = typeOf v ∧ TypesAt pack (i + 1) cheader' headerv' vs

theorem unpackType_odd {x y : Byte} (hi : i % 2 = 1) (hx : x < 16) (hy : y < 16) :
    unpackType (x <<< 4 ||| y) i = x := by
  have hshift : typeShift i = 4 := by
    unfold typeShift
    omega
  rw [unpackType, packType, hshift]
  exact (byte_of_nibbles hx hy).1

theorem unpackType_even {x y : Byte} (hi : i % 2 = 0) (hpos : 0 < i) (hx : x < 16) (hy : y < 16) :
    unpackType (x <<< 4 ||| y) i = y := by
  have hshift : typeShift i = 0 := by
    unfold typeShift
    omega
  rw [unpackType, packType, hshift, BitVec.ushiftRight_zero, BitVec.shiftLeft_zero]
  exact (byte_of_nibbles hx hy).2

theorem nextTypes_odd {c : Byte} {cs : List Byte} (hi : i % 2 = 1)
    (hpack : pack = pre ++ (encodeHex (c :: cs) ++ post)) (hpos : cheader + 2 = pre.length) :
    nextTypes pack i cheader headerv = .ok (pre.length, c) := by
  have h := readBytes pre (encodeHex cs ++ post) [c]
  rw [← List.append_assoc (encodeHex [c]), ← encodeHex_append, List.singleton_append] at h
  rw [nextTypes, if_pos (by omega), hpos, hpack]
  change (hexStringToValLoop _ false 1 (pre.length : Int) >>= _) = _
  rw [show hexStringToValLoop _ false 1 (pre.length : Int) = _ from h]
  rfl

theorem nextTypes_even (hi : i % 2 = 0) (hpos : 0 < i) :
    nextTypes pack i cheader headerv = .ok (cheader, headerv) := by
  rw [nextTypes, if_neg (by omega)]
  rfl

/-- The types are read as they were written. -/
theorem typesAt_header (hi : i % 2 = 1)
    (hpack : pack = pre ++ (encodeHex (headerOf vs) ++ post)) (hpos : cheader + 2 = pre.length) :
    TypesAt pack i cheader headerv vs := by
  induction vs using headerOf.induct generalizing i pre cheader headerv with
  | case1 => trivial
  | case2 v =>
    have htype : unpackType (typeOf v <<< 4 ||| 0) i = typeOf v :=
      unpackType_odd hi (typeOf_lt v) (by decide)
    rw [show typeOf v <<< 4 ||| (0 : Byte) = typeOf v <<< 4 from BitVec.or_zero] at htype
    exact ⟨_, _, nextTypes_odd hi hpack hpos, htype, trivial⟩
  | case3 v u vs ih =>
    have hrest : pack = (pre ++ encodeHex [typeOf v <<< 4 ||| typeOf u]) ++
        (encodeHex (headerOf vs) ++ post) := by
      rw [hpack, headerOf, ← List.singleton_append, encodeHex_append]
      simp only [List.append_assoc]
    have hlen : pre.length + 2 = (pre ++ encodeHex [typeOf v <<< 4 ||| typeOf u]).length := by
      rw [List.length_append, length_encodeHex]
      rfl
    exact ⟨_, _, nextTypes_odd hi hpack hpos, unpackType_odd hi (typeOf_lt v) (typeOf_lt u),
      _, _, nextTypes_even (by omega) (Nat.succ_pos i),
      unpackType_even (by omega) (Nat.succ_pos i) (typeOf_lt v) (typeOf_lt u),
      ih (by omega) hrest hlen⟩

/-- One value, and those behind it. -/
theorem unpackArgs_eq_ok {n cheader' k : Nat} {headerv' t : Byte}
    (hnext : nextTypes pack i cheader headerv = .ok (cheader', headerv'))
    (htype : unpackType headerv' i = t) :
    unpackArgs malloc pack (n + 1) i cheader headerv k = .ok (.ok us) ↔
      ∃ u k' ws, unpackArg malloc pack t k = .ok (.ok (u, k')) ∧
        unpackArgs malloc pack n (i + 1) cheader' headerv' k' = .ok (.ok ws) ∧
        us = u.toList ++ ws := by
  rw [unpackArgs, hnext, ok_bind]
  dsimp only
  rw [htype, bind_eq_ok]
  constructor
  · rintro ⟨r, hr, hrun⟩
    cases r with
    | error e => cases hrun
    | ok r =>
      obtain ⟨q, hq, hrun⟩ := bind_eq_ok.mp hrun
      cases q with
      | error e => cases hrun
      | ok ws =>
        cases hrun
        exact ⟨r.1, r.2, ws, hr, hq, rfl⟩
  · rintro ⟨u, k', ws, hr, hq, rfl⟩
    refine ⟨_, hr, ?_⟩
    dsimp only
    rw [hq]
    rfl

/-- As many values are pushed as there are types. -/
theorem length_unpackArgs {k : Nat} (htypes : TypesAt pack i cheader headerv vs)
    (hrun : unpackArgs malloc pack vs.length i cheader headerv k = .ok (.ok us)) :
    us.length = vs.length := by
  induction vs generalizing i cheader headerv k us with
  | nil =>
    cases hrun
    rfl
  | cons v vs ih =>
    obtain ⟨cheader', headerv', hnext, htype, hrest⟩ := htypes
    obtain ⟨u, k', ws, hr, hq, rfl⟩ := (unpackArgs_eq_ok hnext htype).mp hrun
    obtain ⟨x, rfl⟩ := Option.isSome_iff_exists.mp (unpackArg_some hr)
    rw [List.length_append, ih hrest hq, List.length_cons, Nat.add_comm]
    rfl

/-- The values come back just if the end of each is found. -/
theorem unpackArgs_iff (hvs : ∀ v ∈ vs, Packable v) (htypes : TypesAt pack i cheader headerv vs)
    (hpack : pack = pre ++ (vs.flatMap dataOf ++ post)) :
    unpackArgs malloc pack vs.length i cheader headerv pre.length = .ok (.ok vs) ↔
      ∀ v ∈ vs, Found malloc v := by
  induction vs generalizing i cheader headerv pre with
  | nil => exact iff_of_true rfl fun v hv => absurd hv List.not_mem_nil
  | cons v vs ih =>
    obtain ⟨cheader', headerv', hnext, htype, hrest⟩ := htypes
    have hv := hvs v List.mem_cons_self
    have hvs' : ∀ u ∈ vs, Packable u := fun u hu => hvs u (List.mem_cons_of_mem v hu)
    rw [List.flatMap_cons, List.append_assoc] at hpack
    have hpack' : pack = (pre ++ dataOf v) ++ (vs.flatMap dataOf ++ post) := by
      rw [hpack, List.append_assoc]
    have hih := ih hvs' hrest hpack'
    rw [List.length_append] at hih
    rw [List.length_cons, unpackArgs_eq_ok hnext htype, List.forall_mem_cons, ← hih]
    constructor
    · rintro ⟨u, k, ws, hr, hq, heq⟩
      obtain ⟨x, rfl⟩ := Option.isSome_iff_exists.mp (unpackArg_some hr)
      obtain ⟨rfl, rfl⟩ := List.cons.inj heq
      rw [hpack] at hr
      have hfound := unpackArg_lost hv hr rfl
      rw [unpackArg_found hv hfound] at hr
      cases hr
      exact ⟨hfound, hq⟩
    · rintro ⟨hfound, hq⟩
      refine ⟨some v, _, vs, ?_, hq, rfl⟩
      rw [hpack]
      exact unpackArg_found hv hfound

end Loop

/-! ## The round trip -/

/-- What `pack` may be called with: up to 255 values of the types that it knows. -/
structure PackArgs where
  vals : List LuaValue
  count : 1 ≤ vals.length ∧ vals.length ≤ 255
  packable : ∀ v ∈ vals, Packable v

/-- `pack.unpack(pack.pack(...))` gives the values back. -/
def RoundTrips (malloc : (n : Nat) → Option (Block n)) (numberText : BitVec 32 → List Byte)
    (vs : List LuaValue) : Prop :=
  ∃ text, lPack malloc vs = .ok (.ok text) ∧
    lUnpack malloc numberText (.string text) = .ok (.ok vs)

section RoundTrip

variable {malloc : (n : Nat) → Option (Block n)} {vs : List LuaValue}

/-- The text is taken apart with the number and the types of its header. -/
theorem lUnpack_packText (numberText : BitVec 32 → List Byte) (hcount : vs.length ≤ 255)
    (hvs : ∀ v ∈ vs, Packable v) :
    lUnpack malloc numberText (.string (packText vs)) = .ok (.ok vs) ↔
      ∀ v ∈ vs, Found malloc v := by
  have hblock : packText vs ++ [nul] = encodeHex [BitVec.ofNat 8 vs.length] ++
      (encodeHex (headerOf vs) ++ (vs.flatMap dataOf ++ [nul])) := by
    rw [packText, ← List.singleton_append, encodeHex_append]
    simp only [List.append_assoc]
  have hdata : packText vs ++ [nul] = encodeHex (BitVec.ofNat 8 vs.length :: headerOf vs) ++
      (vs.flatMap dataOf ++ [nul]) := List.append_assoc _ _ _
  have htotal : hexStringToValLoop (packText vs ++ [nul]) false 1 0 =
      .ok [BitVec.ofNat 8 vs.length] := by
    rw [hblock]
    exact readBytes [] _ [BitVec.ofNat 8 vs.length]
  have hnum : (BitVec.ofNat 8 vs.length).toNat = vs.length := by
    rw [BitVec.toNat_ofNat]
    omega
  have hstart : headerLength vs.length * 2 =
      (encodeHex (BitVec.ofNat 8 vs.length :: headerOf vs)).length := by
    rw [length_encodeHex, length_header, Nat.mul_comm]
  have htypes : TypesAt (packText vs ++ [nul]) 1 0 0 vs := typesAt_header rfl hblock rfl
  rw [← unpackArgs_iff hvs htypes hdata, ← hstart, lUnpack, if_neg (by simp)]
  change (hexStringToValLoop (packText vs ++ [nul]) false 1 0 >>= _) = _ ↔ _
  rw [htotal, ok_bind]
  dsimp only [List.headD_cons]
  rw [hnum]
  constructor
  · intro hrun
    obtain ⟨r, hr, hrun⟩ := bind_eq_ok.mp hrun
    cases r with
    | error e => cases hrun
    | ok us =>
      -- the values are on top of the argument
      have hlen := length_unpackArgs htypes hr
      dsimp only at hrun
      rw [if_neg (by rw [List.length_cons]; omega), List.length_cons, hlen,
        show vs.length + 1 - vs.length = 1 by omega] at hrun
      injection hrun with hrun
      injection hrun with hrun
      have heq : us = vs := hrun
      rw [← heq] at hr ⊢
      exact hr
  · intro hr
    rw [hr, ok_bind]
    dsimp only
    rw [if_neg (by rw [List.length_cons]; omega), List.length_cons,
      show vs.length + 1 - vs.length = 1 by omega]
    rfl

theorem roundTrips_iff (numberText : BitVec 32 → List Byte) (hne : vs ≠ [])
    (hcount : vs.length ≤ 255) (hvs : ∀ v ∈ vs, Packable v) :
    RoundTrips malloc numberText vs ↔ (malloc (headerLength vs.length)).isSome ∧
      (malloc (packSize vs)).isSome ∧ ∀ v ∈ vs, Found malloc v := by
  rw [← lUnpack_packText numberText hcount hvs]
  rcases lPack_ends malloc hne hvs with ⟨hpack, hheader, hsize⟩ | ⟨hpack, hnone⟩
  · constructor
    · rintro ⟨text, htext, hrun⟩
      rw [hpack] at htext
      cases htext
      exact ⟨hheader, hsize, hrun⟩
    · rintro ⟨-, -, hrun⟩
      exact ⟨_, hpack, hrun⟩
  · refine iff_of_false ?_ ?_
    · rintro ⟨text, htext, -⟩
      rw [hpack] at htext
      cases htext
    · rintro ⟨hheader, hsize, -⟩
      rcases hnone with h | h
      · rw [Option.isNone_iff_eq_none.mp h] at hheader
        cases hheader
      · rw [Option.isNone_iff_eq_none.mp h] at hsize
        cases hsize

end RoundTrip

/-- Packing stays inside its blocks; the values come back just where there is memory and no
    string has a byte with the digit 0. -/
theorem pack_roundTrip (malloc : (n : Nat) → Option (Block n))
    (numberText : BitVec 32 → List Byte) (a : PackArgs) :
    (∃ r, lPack malloc a.vals = .ok r) ∧
      (RoundTrips malloc numberText a.vals ↔ (malloc (headerLength a.vals.length)).isSome ∧
        (malloc (packSize a.vals)).isSome ∧ ∀ v ∈ a.vals, Found malloc v) := by
  have hne : a.vals ≠ [] := List.length_pos_iff.mp a.count.1
  refine ⟨?_, roundTrips_iff numberText hne a.count.2 a.packable⟩
  rcases lPack_ends malloc hne a.packable with ⟨hpack, -⟩ | ⟨hpack, -⟩
  · exact ⟨_, hpack⟩
  · exact ⟨_, hpack⟩

/-- There is always memory. -/
def plentyOfMemory (n : Nat) : Option (Block n) := some (freshBlock n)

/-- A blank is 0x20. -/
theorem not_roundTrips_blank :
    ¬ RoundTrips plentyOfMemory (fun _ => []) [.string [0x20]] := by
  have hpackable : ∀ v ∈ [LuaValue.string [0x20]], Packable v := by
    intro v hv
    rw [List.mem_singleton.mp hv]
    exact (by decide : nul ∉ ([0x20] : List Byte))
  rw [roundTrips_iff _ (List.cons_ne_nil _ _) (by decide) hpackable]
  rintro ⟨-, -, hfound⟩
  exact absurd ((hfound _ (List.mem_singleton_self _)).1 0x20 (List.mem_singleton_self _))
    (by decide)

end LuaRtos.Lua.Pack
