/-
  LuaRtos.Ymodem.Header

  The name and the size in a header packet, as `Ymodem_Receive` copies them to its buffers: the
  loops byte by byte, the packets on which they stay inside the payload and the buffers, and
  what they find in a packet of the sender.
-/

import LuaRtos.Ymodem.Codec

namespace LuaRtos.Ymodem

open CLib Link

/-! ## The three loops

`file_ptr` is what is left of the payload; a read after its end is a fault. -/

/-- The loop that copies the name to `getname`, of which `k` bytes are written.  `i` is tested
    and never counted. -/
def copyGetname (i : Nat) : List Byte → List Byte → Nat → Result (List Byte × Nat)
  | [], _, _ => .error .outOfBounds
  | c :: file_ptr, getname, k =>
    if c ≠ 0 ∧ i < 64 then do
      let getname ← storeBytes getname k [c]
      copyGetname i file_ptr getname (k + 1)
    else .ok (getname, k)

/-- The loop to the end of the name. -/
def skipName (i packet_length : Nat) : List Byte → Result (List Byte)
  | [] => .error .outOfBounds
  | c :: file_ptr =>
    if c ≠ 0 ∧ i < packet_length then skipName i packet_length file_ptr
    else .ok (c :: file_ptr)

/-- The loop that copies the size to `file_size`, which counts `i`. -/
def copySize : List Byte → List Byte → Nat → Result (List Byte × Nat)
  | [], _, _ => .error .outOfBounds
  | c :: file_ptr, file_size, i =>
    if c ≠ 0x20 ∧ i < FILE_SIZE_LENGTH then do
      let file_size ← storeBytes file_size i [c]
      copySize file_ptr file_size (i + 1)
    else .ok (file_size, i)

/-- The two buffers and the size after a header. -/
structure Header where
  getname : List Byte
  file_size : List Byte
  size : Nat
deriving DecidableEq, Repr

/-- A filename packet has valid data, none for one that is empty. -/
def parseHeader (packet_length : Nat) (payload getname file_size : List Byte) :
    Result (Option Header) :=
  match payload with
  | [] => .error .outOfBounds
  | c :: _ =>
    if c ≠ 0 then do
      let (getname, k) ← copyGetname 0 payload getname 0
      let getname ← storeBytes getname k [nul]
      let file_ptr ← skipName 0 packet_length payload
      let (file_size, i) ← copySize (file_ptr.drop 1) file_size 0
      let file_size ← storeBytes file_size i [nul]
      let s ← readStr file_size
      .ok (some ⟨getname, file_size,
        if s.length > 0 then (BitVec.ofInt 32 (strtol s)).toNat else 0⟩)
    else .ok none

/-! ## What the loops do -/

section Loops

variable {name rest : List Byte}

/-- The name with its terminator is written. -/
theorem copyGetname_eq (hname : nul ∉ name) (getname : List Byte) (k : Nat) :
    (copyGetname 0 (name ++ nul :: rest) getname k >>= fun r => storeBytes r.1 r.2 [nul]) =
      storeBytes getname k (name ++ [nul]) := by
  induction name generalizing getname k with
  | nil => rfl
  | cons c name ih =>
    obtain ⟨hc, hname⟩ := List.ne_and_not_mem_of_not_mem_cons hname
    rw [List.cons_append, copyGetname, if_pos ⟨Ne.symm hc, by decide⟩, bind_assoc,
      List.cons_append, storeBytes_cons getname k c (name ++ [nul])]
    apply bind_congr
    intro getname'
    exact ih hname getname' (k + 1)

/-- Without a terminator in the payload the loop does not end in it. -/
theorem copyGetname_endless {payload : List Byte} (hnul : nul ∉ payload) (getname : List Byte)
    (k : Nat) (r : List Byte × Nat) : copyGetname 0 payload getname k ≠ .ok r := by
  induction payload generalizing getname k with
  | nil => exact nofun
  | cons c payload ih =>
    obtain ⟨hc, hnul⟩ := List.ne_and_not_mem_of_not_mem_cons hnul
    intro h
    rw [copyGetname, if_pos ⟨Ne.symm hc, by decide⟩] at h
    obtain ⟨getname', -, h⟩ := bind_eq_ok.mp h
    exact ih hnul getname' (k + 1) h

theorem skipName_eq (hname : nul ∉ name) {packet_length : Nat} (hlen : 0 < packet_length) :
    skipName 0 packet_length (name ++ nul :: rest) = .ok (nul :: rest) := by
  induction name with
  | nil => rfl
  | cons c name ih =>
    obtain ⟨hc, hname⟩ := List.ne_and_not_mem_of_not_mem_cons hname
    rw [List.cons_append, skipName, if_pos ⟨Ne.symm hc, hlen⟩]
    exact ih hname

/-- The characters up to the blank, or all that there is room for, are written. -/
theorem copySize_eq (file_ptr : List Byte) {file_size : List Byte}
    (hroom : FILE_SIZE_LENGTH < file_size.length) {i n : Nat} (hi : i + n = FILE_SIZE_LENGTH) :
    copySize file_ptr file_size i = takeSize n file_ptr >>= fun s =>
      storeBytes file_size i s >>= fun file_size => .ok (file_size, i + s.length) := by
  induction file_ptr generalizing file_size i n with
  | nil => cases n <;> rfl
  | cons c file_ptr ih =>
    by_cases hc : c = 0x20
    · have hstop : takeSize n (c :: file_ptr) = .ok [] := by
        unfold takeSize
        rw [if_pos hc]
      rw [copySize, if_neg fun h => h.1 hc, hstop, ok_bind, storeBytes_nil (by omega)]
      rfl
    · cases n with
      | zero =>
        rw [copySize, if_neg fun h => absurd h.2 (by omega), takeSize, if_neg hc, ok_bind,
          storeBytes_nil (by omega)]
        rfl
      | succ n =>
        obtain ⟨file_size', hone⟩ : ∃ file_size', storeBytes file_size i [c] = .ok file_size' :=
          ⟨_, if_pos (by rw [List.length_singleton]; omega)⟩
        have hlen := length_storeBytes hone
        rw [copySize, if_pos ⟨hc, by omega⟩, hone, ok_bind,
          ih (i := i + 1) (n := n) (by omega) (by omega), takeSize, if_neg hc, bind_assoc]
        apply bind_congr
        intro s
        have hstore : storeBytes file_size i (c :: s) = storeBytes file_size' (i + 1) s := by
          rw [storeBytes_cons, hone, ok_bind]
        rw [pure_eq_ok, ok_bind, hstore, List.length_cons]
        apply bind_congr
        intro file_size''
        rw [Nat.add_right_comm, Nat.add_assoc]

/-- The size is copied when a blank or the limit comes before the end of the payload. -/
theorem takeSize_isOk {n : Nat} {file_ptr : List Byte} :
    (∃ s, takeSize n file_ptr = .ok s) ↔ 0x20 ∈ file_ptr.take (n + 1) ∨ n < file_ptr.length := by
  induction file_ptr generalizing n with
  | nil => cases n <;> simp [takeSize]
  | cons c file_ptr ih =>
    rw [List.take_succ_cons, List.mem_cons]
    by_cases hc : c = 0x20
    · refine iff_of_true ⟨[], ?_⟩ (.inl (.inl hc.symm))
      unfold takeSize
      rw [if_pos hc]
    · cases n with
      | zero =>
        refine iff_of_true ⟨[], ?_⟩ (.inr (Nat.succ_pos _))
        rw [takeSize, if_neg hc]
      | succ n =>
        have hstep : (∃ s, takeSize (n + 1) (c :: file_ptr) = .ok s) ↔
            ∃ s, takeSize n file_ptr = .ok s := by
          rw [takeSize, if_neg hc]
          constructor
          · rintro ⟨s, h⟩
            obtain ⟨t, ht, -⟩ := bind_eq_ok.mp h
            exact ⟨t, ht⟩
          · rintro ⟨t, ht⟩
            rw [ht]
            exact ⟨_, rfl⟩
        rw [hstep, ih, List.length_cons, Nat.succ_lt_succ_iff]
        simp only [Ne.symm hc, false_or]

theorem length_takeSize {n : Nat} {file_ptr s : List Byte} (h : takeSize n file_ptr = .ok s) :
    s.length ≤ n := by
  induction file_ptr generalizing n s with
  | nil => cases n <;> cases h
  | cons c file_ptr ih =>
    unfold takeSize at h
    by_cases hc : c = 0x20
    · rw [if_pos hc] at h
      cases h
      exact Nat.zero_le n
    · rw [if_neg hc] at h
      cases n with
      | zero =>
        cases h
        exact Nat.le_refl 0
      | succ n =>
        obtain ⟨t, ht, heq⟩ := bind_eq_ok.mp h
        cases heq
        exact Nat.succ_le_succ (ih ht)

end Loops

/-! ## The whole header -/

section Parse

/-- A block that holds the terminator of a string. -/
def Terminated (block : List Byte) : Prop := nul ∈ block

/-- The payload starts with a terminator, or the name and its terminator are at most 128 bytes of
    it, and the size after them ends with a blank, or with the character that the loop stops at,
    in the payload too. -/
def HeaderInside (payload : List Byte) : Prop :=
  payload.head? = some 0 ∨
    ∃ name rest, payload = name ++ nul :: rest ∧ nul ∉ name ∧ name.length < 128 ∧
      (0x20 ∈ rest.take (FILE_SIZE_LENGTH + 1) ∨ FILE_SIZE_LENGTH < rest.length)

variable {payload : List Byte}

/-- The size that is made of the characters copied. -/
def sizeOf (s : List Byte) : Result Nat := do
  let s ← readStr (s ++ [nul])
  pure (if s.length > 0 then (BitVec.ofInt 32 (strtol s)).toNat else 0)

/-- What is behind the terminator is not read. -/
theorem readStr_terminated (s post : List Byte) :
    ∃ t, readStr (s ++ nul :: post) = .ok t ∧ readStr (s ++ [nul]) = .ok t := by
  induction s with
  | nil => exact ⟨[], rfl, rfl⟩
  | cons c s ih =>
    obtain ⟨t, hpost, hone⟩ := ih
    rw [List.cons_append, List.cons_append, readStr, readStr]
    by_cases hc : c = nul
    · rw [if_pos hc, if_pos hc]
      exact ⟨[], rfl, rfl⟩
    · rw [if_neg hc, if_neg hc, hpost, hone]
      exact ⟨c :: t, rfl, rfl⟩

theorem parseHeader_cons {c : Byte} (hc : c ≠ 0) (cs : List Byte) (packet_length : Nat)
    (getname file_size : List Byte) :
    parseHeader packet_length (c :: cs) getname file_size =
      (copyGetname 0 (c :: cs) getname 0 >>= fun r => storeBytes r.1 r.2 [nul]) >>=
      fun getname => skipName 0 packet_length (c :: cs) >>= fun file_ptr =>
      copySize (file_ptr.drop 1) file_size 0 >>= fun r => storeBytes r.1 r.2 [nul] >>=
      fun file_size => readStr file_size >>= fun s => .ok (some ⟨getname, file_size,
        if s.length > 0 then (BitVec.ofInt 32 (strtol s)).toNat else 0⟩) := by
  rw [bind_assoc]
  exact if_pos hc

/-- A payload with a name, as it is parsed. -/
theorem parseHeader_named {name : List Byte} (hname : nul ∉ name) (hne : name ≠ [])
    {packet_length : Nat} (hlen : 0 < packet_length) (rest getname : List Byte)
    {file_size : List Byte} (hroom : FILE_SIZE_LENGTH < file_size.length) :
    parseHeader packet_length (name ++ nul :: rest) getname file_size =
      storeBytes getname 0 (name ++ [nul]) >>= fun getname =>
        takeSize FILE_SIZE_LENGTH rest >>= fun s => sizeOf s >>= fun size =>
          .ok (some ⟨getname, s ++ nul :: file_size.drop (s.length + 1), size⟩) := by
  obtain ⟨c, cs, rfl⟩ := List.exists_cons_of_ne_nil hne
  have hc : c ≠ 0 := fun h => hname (h ▸ List.mem_cons_self)
  have hparse := parseHeader_cons hc (cs ++ nul :: rest) packet_length getname file_size
  rw [← List.cons_append] at hparse
  rw [hparse, copyGetname_eq hname]
  apply bind_congr
  intro getname'
  rw [skipName_eq hname hlen, ok_bind]
  show copySize rest file_size 0 >>= _ = _
  rw [copySize_eq rest hroom (Nat.zero_add FILE_SIZE_LENGTH), bind_assoc]
  cases hs : takeSize FILE_SIZE_LENGTH rest with
  | error e => rfl
  | ok s =>
    have hfits : s.length < file_size.length :=
      Nat.lt_of_le_of_lt (length_takeSize hs) hroom
    have hwrite : (storeBytes file_size 0 s >>= fun file_size' =>
        storeBytes file_size' (0 + s.length) [nul]) =
          .ok (s ++ nul :: file_size.drop (s.length + 1)) := by
      rw [← storeBytes_concat (Nat.zero_le _), storeBytes_start hfits]
    obtain ⟨t, hpost, hone⟩ := readStr_terminated s (file_size.drop (s.length + 1))
    have hsize : sizeOf s =
        .ok (if t.length > 0 then (BitVec.ofInt 32 (strtol t)).toNat else 0) := by
      rw [sizeOf, hone]
      rfl
    rw [ok_bind, ok_bind, bind_assoc]
    simp only [ok_bind]
    rw [← bind_assoc, hwrite, ok_bind, hpost, ok_bind, hsize, ok_bind]

/-- The first terminator ends the name. -/
theorem name_unique {name name' rest rest' : List Byte} (hname : nul ∉ name) (hname' : nul ∉ name')
    (h : name ++ nul :: rest = name' ++ nul :: rest') : name = name' ∧ rest = rest' := by
  have hread := readStr_append hname rest
  rw [h, readStr_append hname'] at hread
  cases hread
  exact ⟨rfl, (List.cons.inj (List.append_cancel_left h)).2⟩

theorem headerInside_named {name rest : List Byte} (hname : nul ∉ name) (hne : name ≠ []) :
    HeaderInside (name ++ nul :: rest) ↔ name.length < 128 ∧
      (0x20 ∈ rest.take (FILE_SIZE_LENGTH + 1) ∨ FILE_SIZE_LENGTH < rest.length) := by
  constructor
  · rintro (hfirst | ⟨name', rest', h, hname', hshort, hsize⟩)
    · obtain ⟨c, cs, rfl⟩ := List.exists_cons_of_ne_nil hne
      exact absurd (Option.some.inj hfirst ▸ List.mem_cons_self) hname
    · obtain ⟨rfl, rfl⟩ := name_unique hname hname' h
      exact ⟨hshort, hsize⟩
  · rintro ⟨hshort, hsize⟩
    exact .inr ⟨name, rest, rfl, hname, hshort, hsize⟩

theorem file_size_room (file_size : Block 128) : FILE_SIZE_LENGTH < file_size.bytes.length := by
  rw [file_size.size]
  decide

/-- The size is always a number. -/
theorem sizeOf_isOk (s : List Byte) : ∃ size, sizeOf s = .ok size := by
  obtain ⟨t, -, hone⟩ := readStr_terminated s []
  rw [sizeOf, hone]
  exact ⟨_, rfl⟩

/-- A name that does not end in the payload is not parsed. -/
theorem parseHeader_endless {payload : List Byte} (hnul : nul ∉ payload) (packet_length : Nat)
    (getname file_size : List Byte) (r : Option Header) :
    parseHeader packet_length payload getname file_size ≠ .ok r := by
  cases payload with
  | nil => exact nofun
  | cons c payload =>
    have hc : c ≠ 0 := fun h => hnul (h ▸ List.mem_cons_self)
    intro h
    rw [parseHeader_cons hc] at h
    obtain ⟨getname', h, -⟩ := bind_eq_ok.mp h
    obtain ⟨copied, hcopy, -⟩ := bind_eq_ok.mp h
    exact copyGetname_endless hnul getname 0 copied hcopy

/-- What is parsed was inside the payload. -/
theorem inside_of_parse {packet_length : Nat} (hlen : 0 < packet_length)
    {getname file_size : Block 128} {r : Option Header}
    (h : parseHeader packet_length payload getname.bytes file_size.bytes = .ok r) :
    HeaderInside payload := by
  by_cases hnul : nul ∈ payload
  · obtain ⟨name, rest, rfl, hname⟩ := List.eq_append_cons_of_mem hnul
    by_cases hne : name = []
    · subst hne
      exact .inl rfl
    rw [parseHeader_named hname hne hlen rest _ (file_size_room file_size)] at h
    obtain ⟨getname', hname', h⟩ := bind_eq_ok.mp h
    obtain ⟨s, hs, -⟩ := bind_eq_ok.mp h
    have hfits : 0 + (name ++ [nul]).length ≤ getname.bytes.length := by
      by_contra hlong
      rw [storeBytes, if_neg hlong] at hname'
      cases hname'
    rw [getname.size, Nat.zero_add, List.length_append] at hfits
    exact (headerInside_named hname hne).mpr ⟨hfits, takeSize_isOk.mp ⟨s, hs⟩⟩
  · exact absurd h (parseHeader_endless hnul _ _ _ r)

/-- A name and a size that are inside the payload are parsed. -/
theorem parseHeader_short {name rest s : List Byte} (hname : nul ∉ name) (hne : name ≠ [])
    (hshort : name.length < 128) (hs : takeSize FILE_SIZE_LENGTH rest = .ok s) {size : Nat}
    (hsize : sizeOf s = .ok size) {packet_length : Nat} (hlen : 0 < packet_length)
    (getname file_size : Block 128) :
    parseHeader packet_length (name ++ nul :: rest) getname.bytes file_size.bytes =
      .ok (some ⟨name ++ nul :: getname.bytes.drop (name.length + 1),
        s ++ nul :: file_size.bytes.drop (s.length + 1), size⟩) := by
  have hstore : storeBytes getname.bytes 0 (name ++ [nul]) =
      .ok (name ++ nul :: getname.bytes.drop (name.length + 1)) :=
    storeBytes_start (by rw [getname.size]; exact hshort)
  rw [parseHeader_named hname hne hlen rest _ (file_size_room file_size), hstore, ok_bind, hs,
    ok_bind, hsize, ok_bind]

/-- The header is parsed, with all that is read inside the payload and all that is written inside
    the two buffers, and both end up terminated, exactly for the payloads that `HeaderInside`
    describes. -/
theorem parseHeader_inside (payload : List Byte) (getname file_size : Block 128) :
    (∃ r, parseHeader payload.length payload getname.bytes file_size.bytes = .ok r ∧
      ∀ h ∈ r, Terminated h.getname ∧ Terminated h.file_size) ↔ HeaderInside payload := by
  constructor
  · rintro ⟨r, h, -⟩
    refine inside_of_parse ?_ h
    cases payload with
    | nil => cases h
    | cons c payload => exact Nat.succ_pos payload.length
  · intro hinside
    by_cases hfirst : payload.head? = some 0
    · obtain ⟨rest, rfl⟩ := List.head?_eq_some_iff.mp hfirst
      refine ⟨none, rfl, ?_⟩
      exact fun h hmem => absurd hmem (Option.not_mem_none h)
    · obtain ⟨name, rest, rfl, hname, hshort, hsize⟩ := hinside.resolve_left hfirst
      have hne : name ≠ [] := by
        rintro rfl
        exact hfirst rfl
      obtain ⟨s, hs⟩ := takeSize_isOk.mpr hsize
      obtain ⟨size, hval⟩ := sizeOf_isOk s
      have hpos : 0 < (name ++ nul :: rest).length := by
        rw [List.length_append, List.length_cons]
        omega
      refine ⟨_, parseHeader_short hname hne hshort hs hval hpos getname file_size,
        fun h hmem => ?_⟩
      cases hmem
      exact ⟨List.mem_append_right name List.mem_cons_self,
        List.mem_append_right s List.mem_cons_self⟩

/-- A payload of 128 characters without a terminator. -/
theorem parseHeader_runs_out : ¬ ∃ r,
    parseHeader 128 (List.replicate 128 0x61) (freshBlock 128).bytes (freshBlock 128).bytes =
      .ok r := by
  rintro ⟨r, h⟩
  refine parseHeader_endless ?_ 128 _ _ r h
  intro hmem
  exact absurd (List.eq_of_mem_replicate hmem) (by decide)

/-- The name and the size that the session goes on with. -/
theorem parseHeader_session {data name rest : List Byte} {packet_length : Nat}
    (hlen : 0 < packet_length) {getname file_size : Block 128} {h : Header}
    (hdata : data.drop PACKET_HEADER = name ++ nul :: rest) (hname : nul ∉ name)
    (hne : name ≠ [])
    (hparse : parseHeader packet_length (data.drop PACKET_HEADER) getname.bytes file_size.bytes =
      .ok (some h)) :
    copyName (some 128) [] data = readStr h.getname ∧ headerSize data = .ok h.size := by
  have hinside := inside_of_parse hlen hparse
  rw [hdata] at hinside hparse
  obtain ⟨hshort, hsize⟩ := (headerInside_named hname hne).mp hinside
  obtain ⟨s, hs⟩ := takeSize_isOk.mpr hsize
  obtain ⟨size, hval⟩ := sizeOf_isOk s
  rw [parseHeader_short hname hne hshort hs hval hlen getname file_size] at hparse
  cases hparse
  have hrest : data.drop (PACKET_HEADER + name.length + 1) = rest := by
    rw [Nat.add_assoc, ← List.drop_drop, hdata, ← List.drop_drop, List.drop_left]
    rfl
  refine ⟨?_, ?_⟩
  · dsimp only [copyName]
    rw [hdata, readStr_append hname, ok_bind, List.length_nil, Nat.zero_add, if_pos hshort,
      readStr_append hname]
    rfl
  · rw [headerSize, hdata, readStr_append hname, ok_bind, hrest, hs, ok_bind]
    exact hval

end Parse

end LuaRtos.Ymodem
