/-
  LuaRtos.Lua.Unpack

  `pack.unpack` of Lua/modules/lpack.c for any string, with its second argument and the slots of
  the Lua stack.

  The stack of the function is a list with the argument 1 first.  A C function finds
  `LUA_MINSTACK` free slots above its arguments, and `l_unpack` does not ask for more.
-/

import LuaRtos.Lua.Pack

namespace LuaRtos.Lua.Pack

open LuaRtos.CLib LuaRtos.Lora

/-! ## The code -/

/-- `LUA_MINSTACK` -/
def luaMinStack : Nat := 20

/-- What `pack` and `pack.pack` are, and what the call of a value does: its two results, or its
    error. -/
structure PackModule where
  table : LuaValue
  function : LuaValue
  call : LuaValue → List LuaValue → Except LuaValue (LuaValue × LuaValue)

section Stack

/-- A push, with the number of slots there are. -/
def push (limit : Nat) (v : LuaValue) (stack : List LuaValue) : Result (List LuaValue) :=
  if stack.length < limit then pure (stack ++ [v]) else throw .outOfBounds

/-- `lua_remove(L, -n)`. -/
def luaRemove (n : Nat) (stack : List LuaValue) : Result (List LuaValue) :=
  if n ≤ stack.length then pure (stack.eraseIdx (stack.length - n)) else throw .undefined

/-- `lua_copy`. -/
def luaCopy (fromidx toidx : Nat) (stack : List LuaValue) : Result (List LuaValue) :=
  match stack[fromidx - 1]? with
  | none => throw .undefined
  | some v => if toidx ≤ stack.length then pure (stack.set (toidx - 1) v) else throw .undefined

/-- `lua_pcall(L, nargs, 2, 0)`. -/
def luaPcall (m : PackModule) (nargs : Nat) (stack : List LuaValue) : Result (List LuaValue) :=
  if stack.length < nargs + 1 then throw .undefined
  else
    match stack.drop (stack.length - (nargs + 1)) with
    | [] => throw .undefined
    | f :: args =>
      let stack := stack.take (stack.length - (nargs + 1))
      match m.call f args with
      | .ok r => pure (stack ++ [r.1, r.2])
      | .error e => pure (stack ++ [e])

/-- `return n`: the values on top. -/
def returnValues (n : Nat) (stack : List LuaValue) : Result (List LuaValue) :=
  if n ≤ stack.length then pure (stack.drop (stack.length - n)) else throw .undefined

end Stack

/-- The loop of `l_unpack`, with `n` values to go. -/
def pushArgs (malloc : (n : Nat) → Option (Block n)) (pack : List Byte) (limit : Nat) :
    Nat → Nat → Nat → Byte → Nat → List LuaValue → Result (Except PackError (List LuaValue))
  | 0, _, _, _, _, stack => pure (.ok stack)
  | n + 1, i, cheader, headerv, data_idx, stack => do
    let (cheader, headerv) ← nextTypes pack i cheader headerv
    let r ← unpackArg malloc pack (unpackType headerv i) data_idx
    match r with
    | .error e => pure (.error e)
    | .ok (none, data_idx) => pushArgs malloc pack limit n (i + 1) cheader headerv data_idx stack
    | .ok (some v, data_idx) => do
      let stack ← push limit v stack
      pushArgs malloc pack limit n (i + 1) cheader headerv data_idx stack

/-- `if (unpack_first)`. -/
def unpackFirst (m : PackModule) (limit total : Nat) (stack : List LuaValue) :
    Result (List LuaValue) := do
  if 1 < total then do
    let stack ← push limit m.table stack
    let stack ← push limit m.function stack
    let stack ← luaRemove 2 stack
    let stack ← luaCopy 3 1 stack
    let stack ← luaCopy stack.length 3 stack
    let stack ← luaRemove 1 stack
    let stack ← luaPcall m (total - 1) stack
    let stack ← luaRemove 1 stack
    let stack ← luaRemove 2 stack
    returnValues 2 stack
  else do
    let stack ← push limit .nil stack
    returnValues 2 stack

/-- `l_unpack` of a string, with its second argument if there is one. -/
def lUnpackString (malloc : (n : Nat) → Option (Block n)) (m : PackModule) (s : List Byte)
    (first : Option Bool) : Result (Except PackError (List LuaValue)) := do
  let args := .string s :: (first.map .boolean).toList
  let limit := args.length + luaMinStack
  let pack := s ++ [nul]
  let bytes ← hexStringToValLoop pack false 1 0
  let total := (bytes.headD 0).toNat
  let r ← pushArgs malloc pack limit total 1 0 0 (headerLength total * 2) args
  match r with
  | .error e => pure (.error e)
  | .ok stack => do
    let values ← (if first = some true then unpackFirst m limit total stack
      else returnValues total stack)
    pure (.ok values)

/-! ## The fields of a string -/

/-- The byte of the pair at `k`. -/
def pairAt (pack : List Byte) (k : Nat) : Byte := (decodeHex ((pack.drop k).take 2)).headD 0

/-- The type of the value number `i`. -/
def typeAt (pack : List Byte) (i : Nat) : Byte := unpackType (pairAt pack (2 * ((i + 1) / 2))) i

/-- The pairs before the first with a zero in it, none where there is no such pair. -/
def markPairs : List Byte → Option Nat
  | c1 :: c2 :: s => if c1 ≠ 0x30 ∧ c2 ≠ 0x30 then (markPairs s).map (· + 1) else some 0
  | _ => none

/-- The characters of a field. -/
def fieldSize (pack : List Byte) (ctype : Byte) (k : Nat) : Option Nat :=
  if ctype = packNumber then some 8
  else if ctype = packInteger then some 8
  else if ctype = packNil then some 0
  else if ctype = packBoolean then some 2
  else if ctype = packString then (markPairs (pack.drop k)).map fun n => 2 * n + 2
  else some 0

/-- The bytes that the first `n` pairs of a field stand for. -/
def fieldBytes (pack : List Byte) (k n : Nat) : List Byte := decodeHex ((pack.drop k).take (2 * n))

/-- The value of a field, none for a type that does not exist. -/
def fieldValue (pack : List Byte) (ctype : Byte) (k : Nat) : Option LuaValue :=
  if ctype = packNumber then some (.number (BitVec.ofNat 32 (ofBytesLE (fieldBytes pack k 4))))
  else if ctype = packInteger then
    some (.integer (BitVec.ofNat 32 (ofBytesLE (fieldBytes pack k 4))))
  else if ctype = packNil then some .nil
  else if ctype = packBoolean then some (.boolean (fieldBytes pack k 1 ≠ [0]))
  else if ctype = packString then
    (markPairs (pack.drop k)).map fun n =>
      .string ((fieldBytes pack k n).takeWhile fun c => c ≠ nul)
  else none

/-- There is memory for the field, if it is a string. -/
def fieldMemory (malloc : (n : Nat) → Option (Block n)) (pack : List Byte) (ctype : Byte)
    (k : Nat) : Bool :=
  if ctype = packString then
    match markPairs (pack.drop k) with
    | some n => (malloc (n + 1)).isSome
    | none => true
  else true

/-- The field lies in the string. -/
def FieldFits (pack : List Byte) (ctype : Byte) (k : Nat) : Prop :=
  ∃ size, fieldSize pack ctype k = some size ∧ (size = 0 ∨ k + size ≤ pack.length)

/-- The types and the fields lie in the string and there is room for their values, for `n`
    values from the number `i` on, up to a string that there is no memory for. -/
def Unpackable (malloc : (n : Nat) → Option (Block n)) (pack : List Byte) :
    Nat → Nat → Nat → Nat → Prop
  | 0, _, _, _ => True
  | n + 1, i, k, room =>
    2 * ((i + 1) / 2) + 2 ≤ pack.length ∧ FieldFits pack (typeAt pack i) k ∧
      (fieldMemory malloc pack (typeAt pack i) k = true →
        (fieldValue pack (typeAt pack i) k).toList.length ≤ room ∧
          Unpackable malloc pack n (i + 1) (k + (fieldSize pack (typeAt pack i) k).getD 0)
            (room - (fieldValue pack (typeAt pack i) k).toList.length))

/-- The values of the fields, none where there is no memory for one. -/
def valuesOf (malloc : (n : Nat) → Option (Block n)) (pack : List Byte) :
    Nat → Nat → Nat → Option (List LuaValue)
  | 0, _, _ => some []
  | n + 1, i, k =>
    if fieldMemory malloc pack (typeAt pack i) k then
      (valuesOf malloc pack n (i + 1) (k + (fieldSize pack (typeAt pack i) k).getD 0)).map
        ((fieldValue pack (typeAt pack i) k).toList ++ ·)
    else none

section Fields

variable {malloc : (n : Nat) → Option (Block n)} {pack : List Byte} {ctype : Byte} {k n : Nat}

theorem hexLoop_fits (h : k + 2 * n ≤ pack.length) :
    hexStringToValLoop pack false n (k : Int) = .ok (fieldBytes pack k n) := by
  have hsplit : pack = pack.take k ++ (pack.drop k).take (2 * n) ++ pack.drop (k + 2 * n) := by
    rw [← List.drop_drop, List.append_assoc, List.take_append_drop, List.take_append_drop]
  have hpre : (pack.take k).length = k := List.length_take_of_le (by omega)
  have hlen : ((pack.drop k).take (2 * n)).length = 2 * n := by
    rw [List.length_take, List.length_drop]
    omega
  have hread := hexStringToValLoop_forward (pack.take k) (pack.drop (k + 2 * n)) hlen
  rw [← hsplit, hpre] at hread
  exact hread

theorem hexLoop_unfit (h : pack.length < k + 2 * n) (hn : 0 < n) (r : List Byte) :
    hexStringToValLoop pack false n (k : Int) ≠ .ok r := by
  induction n generalizing k r with
  | zero => exact absurd hn (Nat.lt_irrefl 0)
  | succ n ih =>
    intro hrun
    obtain ⟨hi, hhi, hrun⟩ := bind_eq_ok.mp hrun
    obtain ⟨lo, hlo, hrun⟩ := bind_eq_ok.mp hrun
    obtain ⟨rest, hrest, -⟩ := bind_eq_ok.mp hrun
    have hin : k + 1 < pack.length := by
      by_contra hout
      have hnone : pack[k + 1]? = none := List.getElem?_eq_none (Nat.le_of_not_lt hout)
      have hfault : loadAt pack ((k : Int) + 1) = .error .outOfBounds := by
        have hidx : ((k : Int) + 1).toNat = k + 1 := rfl
        rw [loadAt, if_neg (by omega), hidx, load, hnone]
      rw [hfault] at hlo
      cases hlo
    have hcast : (k : Int) + 2 = ((k + 2 : Nat) : Int) := rfl
    rw [if_neg Bool.false_ne_true, hcast] at hrest
    exact ih (by omega) (by omega) rest hrest

theorem hexStringLen_mark (s : List Byte) : hexStringLen s =
    match markPairs s with
    | some n => .ok n
    | none => .error .outOfBounds := by
  induction s using markPairs.induct with
  | case1 c1 c2 s hzero ih =>
    rw [hexStringLen, markPairs, if_pos hzero, if_pos hzero, ih]
    cases markPairs s with
    | none => rfl
    | some n => rfl
  | case2 c1 c2 s hzero =>
    rw [hexStringLen, markPairs, if_neg hzero, if_neg hzero]
    rfl
  | case3 s hs =>
    cases s with
    | nil => rfl
    | cons c s =>
      cases s with
      | nil => rfl
      | cons d s => exact absurd rfl (hs c d s)

/-- The mark lies in the string. -/
theorem markPairs_le {s : List Byte} (h : markPairs s = some n) : 2 * n + 2 ≤ s.length := by
  induction s using markPairs.induct generalizing n with
  | case1 c1 c2 s hzero ih =>
    rw [markPairs, if_pos hzero] at h
    obtain ⟨m, hm, rfl⟩ := Option.map_eq_some_iff.mp h
    have hle := ih hm
    rw [List.length_cons, List.length_cons]
    omega
  | case2 c1 c2 s hzero =>
    rw [markPairs, if_neg hzero] at h
    obtain rfl := Option.some.inj h
    rw [List.length_cons, List.length_cons]
    omega
  | case3 s hs =>
    cases s with
    | nil => cases h
    | cons c s =>
      cases s with
      | nil => cases h
      | cons d s => exact absurd rfl (hs c d s)

theorem fieldMemory_of_ne (h : ctype ≠ packString) (k : Nat) :
    fieldMemory malloc pack ctype k = true := by
  rw [fieldMemory, if_neg h]

/-- A field in the string is read. -/
theorem unpackArg_fits (h : FieldFits pack ctype k) : unpackArg malloc pack ctype k = .ok
    (if fieldMemory malloc pack ctype k then
      .ok (fieldValue pack ctype k, k + (fieldSize pack ctype k).getD 0)
    else .error .notEnoughMemory) := by
  obtain ⟨size, hsize, hfit⟩ := h
  rw [hsize, Option.getD_some]
  unfold fieldSize at hsize
  unfold unpackArg fieldValue
  by_cases hnumber : ctype = packNumber
  · rw [if_pos hnumber] at hsize
    obtain rfl := Option.some.inj hsize
    rw [if_pos hnumber, if_pos hnumber, hexLoop_fits (n := 4) (by omega), ok_bind,
      fieldMemory_of_ne (by rw [hnumber]; decide), if_pos rfl]
    rfl
  rw [if_neg hnumber] at hsize ⊢
  rw [if_neg hnumber]
  by_cases hinteger : ctype = packInteger
  · rw [if_pos hinteger] at hsize
    obtain rfl := Option.some.inj hsize
    rw [if_pos hinteger, if_pos hinteger, hexLoop_fits (n := 4) (by omega), ok_bind,
      fieldMemory_of_ne (by rw [hinteger]; decide), if_pos rfl]
    rfl
  rw [if_neg hinteger] at hsize ⊢
  rw [if_neg hinteger]
  by_cases hnil : ctype = packNil
  · rw [if_pos hnil] at hsize
    obtain rfl := Option.some.inj hsize
    rw [if_pos hnil, if_pos hnil, fieldMemory_of_ne (by rw [hnil]; decide), if_pos rfl]
    rfl
  rw [if_neg hnil] at hsize ⊢
  rw [if_neg hnil]
  by_cases hboolean : ctype = packBoolean
  · rw [if_pos hboolean] at hsize
    obtain rfl := Option.some.inj hsize
    rw [if_pos hboolean, if_pos hboolean, hexLoop_fits (n := 1) (by omega), ok_bind,
      fieldMemory_of_ne (by rw [hboolean]; decide), if_pos rfl]
    rfl
  rw [if_neg hboolean] at hsize ⊢
  rw [if_neg hboolean]
  by_cases hstring : ctype = packString
  · rw [if_pos hstring] at hsize
    obtain ⟨n, hn, rfl⟩ := Option.map_eq_some_iff.mp hsize
    have hle := markPairs_le hn
    rw [List.length_drop] at hle
    rw [if_pos hstring, if_pos hstring, hexStringLen_mark, hn, fieldMemory, if_pos hstring, hn]
    dsimp only
    rw [ok_bind]
    by_cases hmem : (malloc (n + 1)).isNone = true
    · have hnone : ¬ (malloc (n + 1)).isSome = true := by
        rw [Option.isNone_iff_eq_none.mp hmem]
        exact Bool.false_ne_true
      rw [if_pos hmem, if_neg hnone]
      rfl
    · have hsome : (malloc (n + 1)).isSome = true := by
        rw [Option.isSome_iff_ne_none]
        exact fun hnone => hmem (Option.isNone_iff_eq_none.mpr hnone)
      rw [if_neg hmem, if_pos hsome, hexLoop_fits (by omega), ok_bind, Nat.mul_comm n 2]
      rfl
  · rw [if_neg hstring] at hsize
    obtain rfl := Option.some.inj hsize
    rw [if_neg hstring, if_neg hstring, fieldMemory_of_ne hstring, if_pos rfl]
    rfl

/-- One that does not lie in it is read past the end. -/
theorem unpackArg_unfit (h : ¬ FieldFits pack ctype k)
    (r : Except PackError (Option LuaValue × Nat)) : unpackArg malloc pack ctype k ≠ .ok r := by
  intro hrun
  apply h
  unfold FieldFits fieldSize
  unfold unpackArg at hrun
  by_cases hnumber : ctype = packNumber
  · rw [if_pos hnumber] at hrun ⊢
    obtain ⟨bytes, hbytes, -⟩ := bind_eq_ok.mp hrun
    refine ⟨8, rfl, .inr ?_⟩
    by_contra hout
    exact hexLoop_unfit (by omega) (by decide) bytes hbytes
  rw [if_neg hnumber] at hrun ⊢
  by_cases hinteger : ctype = packInteger
  · rw [if_pos hinteger] at hrun ⊢
    obtain ⟨bytes, hbytes, -⟩ := bind_eq_ok.mp hrun
    refine ⟨8, rfl, .inr ?_⟩
    by_contra hout
    exact hexLoop_unfit (by omega) (by decide) bytes hbytes
  rw [if_neg hinteger] at hrun ⊢
  by_cases hnil : ctype = packNil
  · rw [if_pos hnil]
    exact ⟨0, rfl, .inl rfl⟩
  rw [if_neg hnil] at hrun ⊢
  by_cases hboolean : ctype = packBoolean
  · rw [if_pos hboolean] at hrun ⊢
    obtain ⟨bytes, hbytes, -⟩ := bind_eq_ok.mp hrun
    refine ⟨2, rfl, .inr ?_⟩
    by_contra hout
    exact hexLoop_unfit (by omega) (by decide) bytes hbytes
  rw [if_neg hboolean] at hrun ⊢
  by_cases hstring : ctype = packString
  · rw [if_pos hstring] at hrun ⊢
    obtain ⟨slen, hslen, -⟩ := bind_eq_ok.mp hrun
    rw [hexStringLen_mark] at hslen
    cases hmark : markPairs (pack.drop k) with
    | none =>
      rw [hmark] at hslen
      cases hslen
    | some n =>
      have hle := markPairs_le hmark
      rw [List.length_drop] at hle
      exact ⟨2 * n + 2, rfl, .inr (by omega)⟩
  · rw [if_neg hstring]
    exact ⟨0, rfl, .inl rfl⟩

end Fields

/-! ## The loop -/

section Loop

variable (malloc : (n : Nat) → Option (Block n)) {pack : List Byte}

/-- The types of the value number `i`: the pair is read for the odd ones. -/
theorem nextTypes_eq {i cheader : Nat} {headerv : Byte} (hi : 0 < i)
    (hcheader : cheader = 2 * (i / 2))
    (heven : i % 2 = 0 → headerv = pairAt pack cheader ∧ cheader + 2 ≤ pack.length) :
    (2 * ((i + 1) / 2) + 2 ≤ pack.length → nextTypes pack i cheader headerv =
      .ok (2 * ((i + 1) / 2), pairAt pack (2 * ((i + 1) / 2)))) ∧
    ∀ r, nextTypes pack i cheader headerv = .ok r → 2 * ((i + 1) / 2) + 2 ≤ pack.length := by
  by_cases hodd : (i - 1) % 2 = 0
  · have hnext : cheader + 2 = 2 * ((i + 1) / 2) := by omega
    constructor
    · intro hin
      rw [nextTypes, if_pos hodd, hnext, hexLoop_fits (n := 1) (by omega), ok_bind]
      rfl
    · intro r hrun
      rw [nextTypes, if_pos hodd, hnext] at hrun
      obtain ⟨bytes, hbytes, -⟩ := bind_eq_ok.mp hrun
      by_contra hout
      exact hexLoop_unfit (by omega) (by decide) bytes hbytes
  · obtain ⟨hheader, hin⟩ := heven (by omega)
    have hsame : cheader = 2 * ((i + 1) / 2) := by omega
    constructor
    · intro _
      rw [nextTypes, if_neg hodd, hheader, hsame]
      rfl
    · intro r _
      omega

/-- The loop comes through just where the values are unpackable, and pushes them. -/
theorem pushArgs_spec (pack : List Byte) (limit n i cheader : Nat) (headerv : Byte) (k : Nat)
    (stack : List LuaValue) (room : Nat) (hroom : stack.length + room = limit) (hi : 0 < i)
    (hcheader : cheader = 2 * (i / 2))
    (heven : i % 2 = 0 → headerv = pairAt pack cheader ∧ cheader + 2 ≤ pack.length) :
    (Unpackable malloc pack n i k room →
      pushArgs malloc pack limit n i cheader headerv k stack = .ok
        (match valuesOf malloc pack n i k with
        | none => .error .notEnoughMemory
        | some vs => .ok (stack ++ vs))) ∧
    ∀ r, pushArgs malloc pack limit n i cheader headerv k stack = .ok r →
      Unpackable malloc pack n i k room := by
  induction n generalizing i cheader headerv k stack room with
  | zero =>
    constructor
    · intro _
      show Except.ok (Except.ok stack) = Except.ok (Except.ok (stack ++ []))
      rw [List.append_nil]
    · exact fun r _ => trivial
  | succ n ih =>
    obtain ⟨htypes, htypesIn⟩ := nextTypes_eq hi hcheader heven
    have hnext : ∀ (stack : List LuaValue) (room : Nat), stack.length + room = limit →
        2 * ((i + 1) / 2) + 2 ≤ pack.length → _ := fun stack room hroom hin =>
      ih (i + 1) (2 * ((i + 1) / 2)) (pairAt pack (2 * ((i + 1) / 2)))
        (k + (fieldSize pack (typeAt pack i) k).getD 0) stack room hroom (Nat.succ_pos i)
        (by omega) (fun _ => ⟨rfl, hin⟩)
    constructor
    · rintro ⟨hin, hfit, hrest⟩
      rw [pushArgs, htypes hin, ok_bind]
      show unpackArg malloc pack (typeAt pack i) k >>= _ = _
      rw [unpackArg_fits hfit, ok_bind, valuesOf]
      by_cases hmem : fieldMemory malloc pack (typeAt pack i) k = true
      · obtain ⟨hone, hgo⟩ := hrest hmem
        rw [if_pos hmem, if_pos hmem]
        cases hv : fieldValue pack (typeAt pack i) k with
        | none =>
          rw [hv] at hgo
          dsimp only
          rw [(hnext stack room hroom hin).1 hgo]
          cases valuesOf malloc pack n (i + 1) (k + (fieldSize pack (typeAt pack i) k).getD 0) with
          | none => rfl
          | some vs => rfl
        | some v =>
          rw [hv] at hone hgo
          have hone' : 1 ≤ room := hone
          have hpush : push limit v stack = .ok (stack ++ [v]) := if_pos (by omega)
          have hlen : (stack ++ [v]).length + (room - 1) = limit := by
            rw [List.length_append, List.length_singleton]
            omega
          dsimp only
          rw [hpush, ok_bind, (hnext (stack ++ [v]) (room - 1) hlen hin).1 hgo]
          cases valuesOf malloc pack n (i + 1) (k + (fieldSize pack (typeAt pack i) k).getD 0) with
          | none => rfl
          | some vs =>
            dsimp only [Option.map_some]
            rw [List.append_assoc]
            rfl
      · rw [if_neg hmem, if_neg hmem]
        rfl
    · intro r hrun
      rw [pushArgs] at hrun
      obtain ⟨types, htypes', hrun⟩ := bind_eq_ok.mp hrun
      have hin := htypesIn types htypes'
      rw [htypes hin] at htypes'
      obtain rfl := Except.ok.inj htypes'
      obtain ⟨arg, harg, hrun⟩ := bind_eq_ok.mp hrun
      have harg' : unpackArg malloc pack (typeAt pack i) k = .ok arg := harg
      have hfit : FieldFits pack (typeAt pack i) k := by
        by_contra hunfit
        exact unpackArg_unfit hunfit arg harg'
      refine ⟨hin, hfit, ?_⟩
      intro hmem
      rw [unpackArg_fits hfit, if_pos hmem] at harg'
      obtain rfl := Except.ok.inj harg'
      cases hv : fieldValue pack (typeAt pack i) k with
      | none =>
        rw [hv] at hrun
        exact ⟨Nat.zero_le room, (hnext stack room hroom hin).2 r hrun⟩
      | some v =>
        rw [hv] at hrun
        obtain ⟨stack', hpush, hrun⟩ := bind_eq_ok.mp hrun
        have hlt : stack.length < limit := by
          by_contra hfull
          rw [push, if_neg hfull] at hpush
          cases hpush
        rw [push, if_pos hlt] at hpush
        obtain rfl := Except.ok.inj hpush
        have hlen : (stack ++ [v]).length + (room - 1) = limit := by
          rw [List.length_append, List.length_singleton]
          omega
        exact ⟨show 1 ≤ room by omega, (hnext (stack ++ [v]) (room - 1) hlen hin).2 r hrun⟩

end Loop

/-! ## The whole call -/

/-- What is returned for the values: all of them, or the first and what `pack.pack` gives for
    the others. -/
inductive Returns (m : PackModule) : Option Bool → List LuaValue → List LuaValue → Prop
  | all {first : Option Bool} (h : first ≠ some true) (vs : List LuaValue) : Returns m first vs vs
  | one (v : LuaValue) : Returns m (some true) [v] [v, .nil]
  | first (v : LuaValue) {rest : List LuaValue} (hrest : rest ≠ []) {r : LuaValue × LuaValue}
      (hr : m.call m.function rest = .ok r) : Returns m (some true) (v :: rest) [v, r.1]

/-- The number of values that the string gives. -/
def valueCount (pack : List Byte) : Nat := (pairAt pack 0).toNat

/-- An error is raised, or the values of the fields are returned. -/
def UnpacksRight (malloc : (n : Nat) → Option (Block n)) (m : PackModule) (s : List Byte)
    (first : Option Bool) : Prop :=
  (∃ e, lUnpackString malloc m s first = .ok (.error e)) ∨
  ∃ vs values, valuesOf malloc (s ++ [nul]) (valueCount (s ++ [nul])) 1
      (headerLength (valueCount (s ++ [nul])) * 2) = some vs ∧ Returns m first vs values ∧
    lUnpackString malloc m s first = .ok (.ok values)

/-- What `pack.unpack` needs for the values: that each is one, and with the first only that
    there is a first, room for `pack` and its field, and no error for the others. -/
def ReturnFits (m : PackModule) (first : Option Bool) (total : Nat) (vs : List LuaValue) :
    Prop :=
  vs.length = total ∧ (first = some true → 0 < total ∧
    (1 < total → total + 2 ≤ luaMinStack ∧ ∃ r, m.call m.function vs.tail = .ok r))

/-- The string is not empty, its types and fields lie in it, there is room for the values, and
    the values can be returned. -/
def UnpackFits (malloc : (n : Nat) → Option (Block n)) (m : PackModule) (s : List Byte)
    (first : Option Bool) : Prop :=
  s ≠ [] ∧ Unpackable malloc (s ++ [nul]) (valueCount (s ++ [nul])) 1
      (headerLength (valueCount (s ++ [nul])) * 2) luaMinStack ∧
    ∀ vs, valuesOf malloc (s ++ [nul]) (valueCount (s ++ [nul])) 1
        (headerLength (valueCount (s ++ [nul])) * 2) = some vs →
      ReturnFits m first (valueCount (s ++ [nul])) vs

section Return

variable {malloc : (n : Nat) → Option (Block n)} {m : PackModule} {pack s : List Byte}

/-- There are no more values than the string says, nor more than there is room for. -/
theorem length_valuesOf {n i k : Nat} {vs : List LuaValue} (room : Nat)
    (h : valuesOf malloc pack n i k = some vs) :
    vs.length ≤ n ∧ (Unpackable malloc pack n i k room → vs.length ≤ room) := by
  induction n generalizing i k room vs with
  | zero =>
    obtain rfl := Option.some.inj h
    exact ⟨Nat.le_refl 0, fun _ => Nat.zero_le room⟩
  | succ n ih =>
    rw [valuesOf] at h
    by_cases hmem : fieldMemory malloc pack (typeAt pack i) k = true
    · rw [if_pos hmem] at h
      obtain ⟨ws, hws, rfl⟩ := Option.map_eq_some_iff.mp h
      have hone : (fieldValue pack (typeAt pack i) k).toList.length ≤ 1 := by
        cases fieldValue pack (typeAt pack i) k with
        | none => exact Nat.zero_le 1
        | some v => exact Nat.le_refl 1
      have hrest := fun room => ih room hws
      rw [List.length_append]
      refine ⟨?_, ?_⟩
      · have hle := (hrest 0).1
        omega
      · rintro ⟨-, -, hgo⟩
        obtain ⟨hfirst, hgo⟩ := hgo hmem
        have hle := (hrest _).2 hgo
        omega
    · rw [if_neg hmem] at h
      cases h

/-- All the values are on top of the stack just where there are as many as the string says. -/
theorem returnValues_all (args vs : List LuaValue) (total : Nat) (hle : vs.length ≤ total) :
    (returnValues total (args ++ vs) = .ok vs) ↔ vs.length = total := by
  unfold returnValues
  constructor
  · intro h
    split at h
    next hin =>
      have hdrop := congrArg List.length (Except.ok.inj h)
      rw [List.length_drop] at hdrop
      omega
    next => cases h
  · rintro rfl
    have hin : vs.length ≤ (args ++ vs).length := by
      rw [List.length_append]
      omega
    have hdrop : (args ++ vs).length - vs.length = args.length := by
      rw [List.length_append, Nat.add_sub_cancel]
    rw [if_pos hin, hdrop, List.drop_left]
    rfl

theorem push_ok {limit : Nat} {v : LuaValue} {stack stack' : List LuaValue}
    (h : push limit v stack = .ok stack') : stack.length < limit ∧ stack' = stack ++ [v] := by
  unfold push at h
  split at h
  next hlt => exact ⟨hlt, (Except.ok.inj h).symm⟩
  next => cases h

theorem luaRemove_length {n : Nat} {stack stack' : List LuaValue}
    (h : luaRemove n stack = .ok stack') (hn : 0 < n) : n ≤ stack.length ∧
      stack'.length + 1 = stack.length := by
  unfold luaRemove at h
  split at h
  next hin =>
    obtain rfl := Except.ok.inj h
    rw [List.length_eraseIdx_of_lt (by omega)]
    omega
  next => cases h

theorem luaCopy_length {i j : Nat} {stack stack' : List LuaValue}
    (h : luaCopy i j stack = .ok stack') : stack'.length = stack.length := by
  unfold luaCopy at h
  split at h
  next => cases h
  next v hv =>
    split at h
    next =>
      obtain rfl := Except.ok.inj h
      exact List.length_set
    next => cases h

/-- The function and its arguments are replaced by two results at most. -/
theorem luaPcall_length {nargs : Nat} {stack stack' : List LuaValue}
    (h : luaPcall m nargs stack = .ok stack') :
    nargs + 1 ≤ stack.length ∧ stack'.length ≤ stack.length - (nargs + 1) + 2 := by
  unfold luaPcall at h
  split at h
  next => cases h
  next hin =>
    refine ⟨Nat.le_of_not_lt hin, ?_⟩
    have hlen : (stack.take (stack.length - (nargs + 1))).length =
        stack.length - (nargs + 1) := List.length_take_of_le (Nat.sub_le _ _)
    split at h
    next => cases h
    next f args hf =>
      dsimp only at h
      split at h
      next r hr =>
        obtain rfl := Except.ok.inj h
        rw [List.length_append, hlen]
        exact Nat.le_refl _
      next e he =>
        obtain rfl := Except.ok.inj h
        rw [List.length_append, hlen]
        exact Nat.add_le_add_left (Nat.le_succ 1) _

theorem luaRemove_two (stack : List LuaValue) (v w : LuaValue) :
    luaRemove 2 (stack ++ [v, w]) = .ok (stack ++ [w]) := by
  have hlen : (stack ++ [v, w]).length = stack.length + 2 := List.length_append
  rw [luaRemove, hlen, if_pos (by omega), Nat.add_sub_cancel,
    List.eraseIdx_append_of_length_le (Nat.le_refl _), Nat.sub_self]
  rfl

theorem luaRemove_one (stack : List LuaValue) (v : LuaValue) :
    luaRemove 1 (stack ++ [v]) = .ok stack := by
  have hlen : (stack ++ [v]).length = stack.length + 1 := List.length_append
  rw [luaRemove, hlen, if_pos (by omega), Nat.add_sub_cancel,
    List.eraseIdx_append_of_length_le (Nat.le_refl _), Nat.sub_self, List.eraseIdx_cons_zero,
    List.append_nil]
  rfl

/-- The slot of the first value is for the function, the rest are its arguments. -/
theorem unpackFirst_rest (arg1 arg2 v : LuaValue) {rest : List LuaValue} {limit : Nat}
    (hrest : rest ≠ []) (hroom : rest.length + 4 < limit) :
    unpackFirst m limit (rest.length + 1) (arg1 :: arg2 :: v :: rest) =
      match m.call m.function rest with
      | .ok r => .ok [v, r.1]
      | .error _ => .error .undefined := by
  have hmany : 1 < rest.length + 1 := Nat.succ_lt_succ (List.length_pos_iff.mpr hrest)
  have hlen : (arg1 :: arg2 :: v :: rest).length = rest.length + 3 := rfl
  have hlen1 : ((arg1 :: arg2 :: v :: rest) ++ [m.table]).length = rest.length + 4 :=
    List.length_append
  have htable : push limit m.table (arg1 :: arg2 :: v :: rest) =
      .ok ((arg1 :: arg2 :: v :: rest) ++ [m.table]) := if_pos (by omega)
  have hfunction : push limit m.function ((arg1 :: arg2 :: v :: rest) ++ [m.table]) =
      .ok ((arg1 :: arg2 :: v :: rest) ++ [m.table, m.function]) := by
    rw [push, hlen1, if_pos hroom, List.append_assoc]
    rfl
  have hcopy : luaCopy 3 1 (arg1 :: arg2 :: v :: rest ++ [m.function]) =
      .ok (v :: arg2 :: v :: rest ++ [m.function]) := rfl
  have htop : luaCopy (v :: arg2 :: v :: rest ++ [m.function]).length 3
      (v :: arg2 :: v :: rest ++ [m.function]) =
      .ok (v :: arg2 :: m.function :: rest ++ [m.function]) := by
    have hlast : (v :: arg2 :: v :: rest ++ [m.function])[
        (v :: arg2 :: v :: rest ++ [m.function]).length - 1]? = some m.function := by
      rw [List.length_append, List.length_singleton, Nat.add_sub_cancel]
      exact List.getElem?_concat_length
    rw [luaCopy, hlast]
    rfl
  rw [unpackFirst, if_pos hmany, htable, ok_bind, hfunction, ok_bind, luaRemove_two, ok_bind,
    hcopy, ok_bind, htop, ok_bind, luaRemove_one, ok_bind, Nat.add_sub_cancel]
  have hcall : luaPcall m rest.length (v :: arg2 :: m.function :: rest) =
      match m.call m.function rest with
      | .ok r => .ok [v, arg2, r.1, r.2]
      | .error e => .ok [v, arg2, e] := by
    have hbelow : (v :: arg2 :: m.function :: rest).length - (rest.length + 1) = 2 := by
      show rest.length + 3 - (rest.length + 1) = 2
      omega
    rw [luaPcall, hbelow, if_neg (by show ¬ rest.length + 3 < rest.length + 1; omega)]
    rfl
  rw [hcall]
  cases m.call m.function rest with
  | ok r => rfl
  | error e => rfl

/-- The first value and the rest are returned just where they can be. -/
theorem unpackFirst_returns (arg1 arg2 : LuaValue) {vs : List LuaValue} {total : Nat}
    (hle : vs.length ≤ total) :
    (∃ values, Returns m (some true) vs values ∧
      unpackFirst m (2 + luaMinStack) total (arg1 :: arg2 :: vs) = .ok values) ↔
    ReturnFits m (some true) total vs := by
  constructor
  · rintro ⟨values, hreturns, hrun⟩
    unfold unpackFirst at hrun
    by_cases hmany : 1 < total
    · -- each step but the last two pushes leaves a stack that is known by its length
      rw [if_pos hmany] at hrun
      obtain ⟨s1, h1, hrun⟩ := bind_eq_ok.mp hrun
      obtain ⟨s2, h2, hrun⟩ := bind_eq_ok.mp hrun
      obtain ⟨s3, h3, hrun⟩ := bind_eq_ok.mp hrun
      obtain ⟨s4, h4, hrun⟩ := bind_eq_ok.mp hrun
      obtain ⟨s5, h5, hrun⟩ := bind_eq_ok.mp hrun
      obtain ⟨s6, h6, hrun⟩ := bind_eq_ok.mp hrun
      obtain ⟨s7, h7, hrun⟩ := bind_eq_ok.mp hrun
      obtain ⟨s8, h8, hrun⟩ := bind_eq_ok.mp hrun
      obtain ⟨s9, h9, hend⟩ := bind_eq_ok.mp hrun
      obtain ⟨-, rfl⟩ := push_ok h1
      obtain ⟨hroom, rfl⟩ := push_ok h2
      have l3 := (luaRemove_length h3 (by decide)).2
      have l4 := luaCopy_length h4
      have l5 := luaCopy_length h5
      have l6 := (luaRemove_length h6 (by decide)).2
      have l7 := luaPcall_length h7
      have l8 := (luaRemove_length h8 (by decide)).2
      have l9 := (luaRemove_length h9 (by decide)).2
      have l10 : 2 ≤ s9.length := by
        by_contra hfew
        have hfault : returnValues 2 s9 = .error .undefined := if_neg hfew
        cases hfault.symm.trans hend
      rw [List.length_append, List.length_append, List.length_cons, List.length_cons,
        List.length_singleton, List.length_singleton] at l3
      rw [List.length_append, List.length_cons, List.length_cons, List.length_singleton] at hroom
      have hall : vs.length = total := by omega
      refine ⟨hall, fun _ => ⟨by omega, fun _ => ⟨by omega, ?_⟩⟩⟩
      cases hreturns with
      | all h => exact absurd rfl h
      | one v => exact absurd hall (Nat.ne_of_lt hmany)
      | first v hrest hr => exact ⟨_, hr⟩
    · cases hreturns with
      | all h => exact absurd rfl h
      | one v =>
        rw [List.length_singleton] at hle
        exact ⟨Nat.le_antisymm hle (Nat.le_of_not_lt hmany),
          fun _ => ⟨hle, fun h => absurd h hmany⟩⟩
      | first v hrest hr =>
        have hpos := List.length_pos_iff.mpr hrest
        rw [List.length_cons] at hle
        omega
  · rintro ⟨hall, hfits⟩
    obtain ⟨hpos, hmany⟩ := hfits rfl
    cases vs with
    | nil => exact absurd hall.symm (Nat.ne_of_gt hpos)
    | cons v rest =>
      rw [List.length_cons] at hall
      obtain rfl := hall
      cases rest with
      | nil => exact ⟨[v, .nil], .one v, rfl⟩
      | cons w rest =>
        obtain ⟨hroom, r, hr⟩ := hmany (by rw [List.length_cons]; omega)
        refine ⟨[v, r.1], .first v (List.cons_ne_nil w rest) hr, ?_⟩
        rw [unpackFirst_rest arg1 arg2 v (List.cons_ne_nil w rest) (by omega)]
        have hr' : m.call m.function (w :: rest) = .ok r := hr
        rw [hr']

/-- The arguments of the call. -/
def unpackArguments (s : List Byte) (first : Option Bool) : List LuaValue :=
  .string s :: (first.map .boolean).toList

theorem returned_iff (s : List Byte) (first : Option Bool) {vs : List LuaValue} {total : Nat}
    (hle : vs.length ≤ total) :
    (∃ values, Returns m first vs values ∧
      (if first = some true then
        unpackFirst m ((unpackArguments s first).length + luaMinStack) total
          (unpackArguments s first ++ vs)
      else returnValues total (unpackArguments s first ++ vs)) = .ok values) ↔
    ReturnFits m first total vs := by
  by_cases hfirst : first = some true
  · rw [if_pos hfirst, hfirst]
    exact unpackFirst_returns (.string s) (.boolean true) hle
  · rw [if_neg hfirst]
    constructor
    · rintro ⟨values, hreturns, hrun⟩
      have hsame : values = vs := by
        cases hreturns with
        | all h => rfl
        | one v => exact absurd rfl hfirst
        | first v hrest hr => exact absurd rfl hfirst
      rw [hsame] at hrun
      exact ⟨(returnValues_all (unpackArguments s first) vs total hle).mp hrun,
        fun h => absurd h hfirst⟩
    · rintro ⟨hall, -⟩
      exact ⟨vs, .all hfirst vs,
        (returnValues_all (unpackArguments s first) vs total hle).mpr hall⟩

/-- The call for a string that has a count. -/
theorem lUnpackString_eq (hs : s ≠ []) (first : Option Bool) :
    lUnpackString malloc m s first = (do
      let r ← pushArgs malloc (s ++ [nul]) ((unpackArguments s first).length + luaMinStack)
        (valueCount (s ++ [nul])) 1 0 0 (headerLength (valueCount (s ++ [nul])) * 2)
        (unpackArguments s first)
      match r with
      | .error e => pure (.error e)
      | .ok stack => do
        let values ← (if first = some true then
            unpackFirst m ((unpackArguments s first).length + luaMinStack)
              (valueCount (s ++ [nul])) stack
          else returnValues (valueCount (s ++ [nul])) stack)
        pure (.ok values)) := by
  have hin : 0 + 2 * 1 ≤ (s ++ [nul]).length := by
    have hpos := List.length_pos_iff.mpr hs
    rw [List.length_append, List.length_singleton]
    omega
  have hread : hexStringToValLoop (s ++ [nul]) false 1 0 = .ok (fieldBytes (s ++ [nul]) 0 1) :=
    hexLoop_fits hin
  rw [lUnpackString, hread]
  rfl

/-- Without a count the read goes past the terminator. -/
theorem lUnpackString_nil (first : Option Bool) (r : Except PackError (List LuaValue)) :
    lUnpackString malloc m [] first ≠ .ok r := by
  intro hrun
  obtain ⟨bytes, hbytes, -⟩ := bind_eq_ok.mp hrun
  exact hexLoop_unfit (k := 0) (by decide) (by decide) bytes hbytes

/-- A string is unpacked as it should be just where its count, types and fields lie in it and
    its values fit on the stack, with what is done for the first only. -/
theorem unpacksRight_iff (malloc : (n : Nat) → Option (Block n)) (m : PackModule)
    (s : List Byte) (first : Option Bool) :
    UnpacksRight malloc m s first ↔ UnpackFits malloc m s first := by
  by_cases hs : s = []
  · subst hs
    constructor
    · rintro (⟨e, hrun⟩ | ⟨vs, values, -, -, hrun⟩)
      · exact absurd hrun (lUnpackString_nil first _)
      · exact absurd hrun (lUnpackString_nil first _)
    · rintro ⟨hs, -⟩
      exact absurd rfl hs
  obtain ⟨hpush, hloop⟩ := pushArgs_spec malloc (s ++ [nul])
    ((unpackArguments s first).length + luaMinStack) (valueCount (s ++ [nul])) 1 0 0
    (headerLength (valueCount (s ++ [nul])) * 2) (unpackArguments s first) luaMinStack rfl
    Nat.one_pos rfl (fun h => absurd h (by decide))
  unfold UnpacksRight UnpackFits
  rw [lUnpackString_eq hs first]
  constructor
  · intro hright
    have hunpackable : Unpackable malloc (s ++ [nul]) (valueCount (s ++ [nul])) 1
        (headerLength (valueCount (s ++ [nul])) * 2) luaMinStack := by
      rcases hright with ⟨e, hrun⟩ | ⟨vs, values, -, -, hrun⟩
      · obtain ⟨r, hr, -⟩ := bind_eq_ok.mp hrun
        exact hloop r hr
      · obtain ⟨r, hr, -⟩ := bind_eq_ok.mp hrun
        exact hloop r hr
    refine ⟨hs, hunpackable, ?_⟩
    intro vs hvs
    have hle := (length_valuesOf luaMinStack hvs).1
    rw [hpush hunpackable, hvs, ok_bind] at hright
    rcases hright with ⟨e, hrun⟩ | ⟨ws, values, hws, hreturns, hrun⟩
    · obtain ⟨values, -, herr⟩ := bind_eq_ok.mp hrun
      cases herr
    · obtain rfl := Option.some.inj hws
      obtain ⟨values', hvalues, hsame⟩ := bind_eq_ok.mp hrun
      obtain rfl := Except.ok.inj (Except.ok.inj hsame)
      exact (returned_iff s first hle).mp ⟨_, hreturns, hvalues⟩
  · rintro ⟨-, hunpackable, hfits⟩
    rw [hpush hunpackable, ok_bind]
    cases hvs : valuesOf malloc (s ++ [nul]) (valueCount (s ++ [nul])) 1
        (headerLength (valueCount (s ++ [nul])) * 2) with
    | none => exact .inl ⟨_, rfl⟩
    | some vs =>
      have hle := (length_valuesOf luaMinStack hvs).1
      obtain ⟨values, hreturns, hrun⟩ := (returned_iff s first hle).mpr (hfits vs hvs)
      right
      refine ⟨vs, values, rfl, hreturns, ?_⟩
      dsimp only
      rw [hrun]
      rfl

theorem not_unpacksRight_of_fault {first : Option Bool} {e : Fault}
    (h : lUnpackString malloc m s first = .error e) : ¬ UnpacksRight malloc m s first := by
  rintro (⟨_, hrun⟩ | ⟨_, _, -, -, hrun⟩)
  · cases h.symm.trans hrun
  · cases h.symm.trans hrun

end Return

/-- A `pack` that raises an error. -/
def failingPack : PackModule := ⟨.nil, .nil, fun _ _ => .error .nil⟩

/-- The empty string, a count without types, more nils than there are slots, and a `pack.pack`
    that fails. -/
theorem not_unpacksRight_cut :
    ¬ UnpacksRight (fun n => some (freshBlock n)) failingPack [] none ∧
    ¬ UnpacksRight (fun n => some (freshBlock n)) failingPack (chars "01") none ∧
    ¬ UnpacksRight (fun n => some (freshBlock n)) failingPack
      (chars "152222222222222222222222") none ∧
    ¬ UnpacksRight (fun n => some (freshBlock n)) failingPack (chars "0222") (some true) := by
  refine ⟨?_, ?_, ?_, ?_⟩
  · exact not_unpacksRight_of_fault (e := .outOfBounds) rfl
  · exact not_unpacksRight_of_fault (e := .outOfBounds) rfl
  · exact not_unpacksRight_of_fault (e := .outOfBounds) rfl
  · exact not_unpacksRight_of_fault (e := .undefined) rfl

end LuaRtos.Lua.Pack
