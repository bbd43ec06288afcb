/-
  LuaRtos.Lora.Tx

  `lora.tx`: a string of hexadecimal digits on its way to the frame of LMIC.

  The length goes through an 8-bit variable, an odd digit is dropped, and a payload that LMIC
  refuses is waited for all the same.
-/

import LuaRtos.Lora.Module
import LuaRtos.Lora.HexCodec

namespace LuaRtos.Lora

open LuaRtos.CLib

/-! ## The call -/

/-- `llora_tx` up to the wait. -/
def lloraTxBegin (malloc : Malloc) (d : Driver) (cnf port : Int) (data : CString) :
    Result (Except LuaError Begun) :=
  if port < 1 ∨ 223 < port then
    pure (.error (.luaL (some .invalidArgument) "invalid port number"))
  else do
    let isHex ← checkHexStr data.block
    if !isHex then pure (.error (.luaL (some .invalidArgument) "invalid data"))
    else do
      let b ← loraTxBegin malloc d cnf port data.block
      pure (.ok b)

/-- What the call raises, if a wait gives `uxBits`. -/
def lloraTxRaises (uxBits : BitVec 8) : Except LuaError Begun → Option LuaError
  | .error error => some error
  | .ok (.returned error _) => error.map .driver
  | .ok (.waiting _ d) => (raised (loraTxEnd d uxBits)).1

/-- `payload_len`. -/
def payloadLen (data : CString) : Nat := data.chars.length / 2 % 256

/-- What `lora_tx` writes to its payload: the bytes, and the message id behind them. -/
def loraTxPayload (payload : List Byte) (data : CString) (msgid : BitVec 32) :
    Result (List Byte) := do
  let v ← hexStringToVal data.block (payloadLen data) false
  let payload ← storeBytes payload 0 v
  store payload (payloadLen data) (msgid.truncate 8)

/-! ## What it should do -/

/-- The call hands LMIC the bytes of the digits if it succeeds, raises an error for an odd number
    of digits and for more than a frame takes, and writes inside its payload. -/
def TxRight (malloc : Malloc) (d : Driver) (cnf port : Int) (data : CString)
    (uxBits : BitVec 8) : Prop :=
  ∃ b, lloraTxBegin malloc d cnf port data = .ok b ∧
    (lloraTxRaises uxBits b = none → ∃ w d', b = .ok (.waiting w d') ∧
      d'.lmic.pendTxData = decodeHex data.chars) ∧
    (data.chars.length % 2 = 1 ∨ 2 * maxLenPayload < data.chars.length →
      lloraTxRaises uxBits b ≠ none) ∧
    ∀ payload, malloc (payloadLen data + 1) = some payload →
      ∃ bytes, loraTxPayload payload.bytes data (d.msgid + 1) = .ok bytes

/-- The call does not come to the wait. -/
def TxRefused (malloc : Malloc) (d : Driver) (port : Int) (data : CString) : Prop :=
  (port < 1 ∨ 223 < port) ∨ data.chars.all isHexDigit = false ∨ d.setup = false ∨
    loraTxGuard d ≠ none ∨ malloc (payloadLen data + 1) = none

section Tx

variable {malloc : Malloc} {d : Driver} {cnf port : Int} {data : CString} {uxBits : BitVec 8}

theorem hexStringToVal_payload (data : CString) :
    hexStringToVal data.block (payloadLen data) false =
      .ok (decodeHex (data.chars.take (2 * payloadLen data))) := by
  have hle : 2 * payloadLen data ≤ data.chars.length := by
    unfold payloadLen
    omega
  have hlen : (data.chars.take (2 * payloadLen data)).length = 2 * payloadLen data := by
    rw [List.length_take, Nat.min_eq_left hle]
  have h := hexStringToValLoop_forward [] (data.chars.drop (2 * payloadLen data) ++ [nul]) hlen
  rw [List.nil_append, ← List.append_assoc, List.take_append_drop] at h
  exact h

theorem length_payload (data : CString) :
    (decodeHex (data.chars.take (2 * payloadLen data))).length = payloadLen data := by
  apply length_decodeHex
  rw [List.length_take]
  unfold payloadLen
  omega

/-- The payload has room for the bytes and the message id. -/
theorem loraTxPayload_inside (payload : Block (payloadLen data + 1)) (msgid : BitVec 32) :
    ∃ bytes, loraTxPayload payload.bytes data msgid = .ok bytes := by
  have hlen := length_payload data
  have hfits : 0 + (decodeHex (data.chars.take (2 * payloadLen data))).length ≤
      payload.bytes.length := by
    rw [hlen, payload.size]
    omega
  obtain ⟨bytes, hstore⟩ : ∃ bytes, storeBytes payload.bytes 0
      (decodeHex (data.chars.take (2 * payloadLen data))) = .ok bytes := ⟨_, if_pos hfits⟩
  have hsize := (length_storeBytes hstore).trans payload.size
  rw [loraTxPayload, hexStringToVal_payload, ok_bind, hstore, ok_bind, store,
    if_pos (by omega)]
  exact ⟨_, rfl⟩

theorem checkHexStr_data (data : CString) :
    checkHexStr data.block = .ok (data.chars.all isHexDigit) := by
  rw [checkHexStr, CString.block, readStr_append data.noNul]
  rfl

/-- Behind its two tests the call is `lora_tx`. -/
theorem lloraTxBegin_eq (hport : ¬ (port < 1 ∨ 223 < port))
    (hhex : data.chars.all isHexDigit = true) :
    lloraTxBegin malloc d cnf port data =
      loraTxBegin malloc d cnf port data.block >>= fun b => .ok (.ok b) := by
  rw [lloraTxBegin, if_neg hport, checkHexStr_data, ok_bind, hhex]
  rfl

theorem mtxLock_free (hd : d.locked = false) : mtxLock d = .ok { d with locked := true } := by
  rw [mtxLock, hd]
  rfl

/-- A call that is refused raises an error. -/
theorem lloraTxBegin_refused (cnf : Int) (hd : d.locked = false)
    (h : TxRefused malloc d port data) :
    ∃ b, lloraTxBegin malloc d cnf port data = .ok b ∧
      ∀ uxBits, lloraTxRaises uxBits b ≠ none := by
  by_cases hport : port < 1 ∨ 223 < port
  · rw [lloraTxBegin, if_pos hport]
    exact ⟨_, rfl, fun uxBits h => Option.some_ne_none _ h⟩
  cases hhex : data.chars.all isHexDigit with
  | false =>
    rw [lloraTxBegin, if_neg hport, checkHexStr_data, ok_bind, hhex]
    exact ⟨_, rfl, fun uxBits h => Option.some_ne_none _ h⟩
  | true =>
    have hrest : d.setup = false ∨ loraTxGuard d ≠ none ∨ malloc (payloadLen data + 1) = none := by
      rcases h with hbad | hbad | hrest
      · exact absurd hbad hport
      · rw [hhex] at hbad
        cases hbad
      · exact hrest
    rw [lloraTxBegin_eq hport hhex, loraTxBegin, mtxLock_free hd, ok_bind]
    have hguard' : loraTxGuard { d with locked := true } = loraTxGuard d := rfl
    dsimp only
    by_cases hsetup : d.setup = true
    swap
    · rw [if_pos (by simpa using hsetup)]
      exact ⟨_, rfl, fun uxBits h => Option.some_ne_none _ h⟩
    rw [if_neg (by simpa using hsetup), hguard']
    cases hguard : loraTxGuard d with
    | some error => exact ⟨_, rfl, fun uxBits h => Option.some_ne_none _ h⟩
    | none =>
      have hmem : malloc (payloadLen data + 1) = none := by
        rcases hrest with hbad | hbad | hmem
        · rw [hsetup] at hbad
          cases hbad
        · exact absurd hguard hbad
        · exact hmem
      have hlen : strlen data.block = .ok data.chars.length := strlen_append data.noNul []
      dsimp only
      unfold payloadLen at hmem
      rw [hlen, ok_bind, hmem]
      exact ⟨_, rfl, fun uxBits h => Option.some_ne_none _ h⟩

/-- A call that is not refused waits, with the whole bytes handed to LMIC. -/
theorem lloraTxBegin_waits (cnf : Int) (hd : d.locked = false)
    (h : ¬ TxRefused malloc d port data) :
    ∃ d' : Driver, lloraTxBegin malloc d cnf port data = .ok (.ok (.waiting .tx { d' with
      lmic := lmicSetTxData2 d'.lmic port
        (decodeHex (data.chars.take (2 * payloadLen data))) cnf })) := by
  simp only [TxRefused, not_or, not_not] at h
  obtain ⟨hport, hhex, hsetup, hguard, hmem⟩ := h
  obtain ⟨payload, hpayload⟩ := Option.ne_none_iff_exists'.mp hmem
  have hread := hexStringToVal_payload data
  rw [lloraTxBegin_eq (not_or.mpr hport) (by simpa using hhex), loraTxBegin, mtxLock_free hd,
    ok_bind]
  dsimp only
  have hguard' : loraTxGuard { d with locked := true } = none := hguard
  rw [if_neg (by simpa using hsetup), hguard']
  dsimp only
  have hlen : strlen data.block = .ok data.chars.length := strlen_append data.noNul []
  unfold payloadLen at hpayload hread
  rw [hlen, ok_bind, hpayload]
  dsimp only
  rw [hread]
  exact ⟨_, rfl⟩

/-- A wait succeeds with the bit of a completed transmission. -/
theorem raises_waiting (d : Driver) (uxBits : BitVec 8) :
    lloraTxRaises uxBits (.ok (.waiting .tx d)) = none ↔ uxBits &&& evLoraTxComplete ≠ 0 := by
  show (raised (loraTxEnd d uxBits)).1 = none ↔ _
  unfold loraTxEnd raised
  by_cases hbit : uxBits &&& evLoraTxComplete ≠ 0
  · rw [if_pos hbit]
    exact iff_of_true rfl hbit
  · rw [if_neg hbit]
    refine iff_of_false ?_ hbit
    split <;> exact Option.some_ne_none _

/-- LMIC takes the payload of a whole number of bytes that is not too long. -/
theorem handed_whole {l : Lmic} (heven : data.chars.length % 2 = 0)
    (hfits : data.chars.length ≤ 2 * maxLenPayload) :
    (lmicSetTxData2 l port (decodeHex (data.chars.take (2 * payloadLen data))) cnf).pendTxData =
      decodeHex data.chars := by
  have hmax : maxLenPayload = 52 := rfl
  have hall : 2 * payloadLen data = data.chars.length := by
    unfold payloadLen
    omega
  have hlen := length_payload data
  rw [lmicSetTxData2, if_neg (by omega), hall, List.take_length]
  rfl

/-- A call does what it should exactly when the digits are a whole number of bytes that a frame
    takes, or the call is refused before it waits, or what it waits for is not the end of a
    transmission. -/
theorem loraTx_right (malloc : Malloc) (d : Driver) (cnf port : Int) (data : CString)
    (uxBits : BitVec 8) (hd : d.locked = false) :
    TxRight malloc d cnf port data uxBits ↔
      (data.chars.length % 2 = 0 ∧ data.chars.length ≤ 2 * maxLenPayload) ∨
        TxRefused malloc d port data ∨ uxBits &&& evLoraTxComplete = 0 := by
  have hinside : ∀ payload, malloc (payloadLen data + 1) = some payload →
      ∃ bytes, loraTxPayload payload.bytes data (d.msgid + 1) = .ok bytes :=
    fun payload _ => loraTxPayload_inside payload (d.msgid + 1)
  by_cases hrefused : TxRefused malloc d port data
  · obtain ⟨b, hb, herror⟩ := lloraTxBegin_refused cnf hd hrefused
    refine iff_of_true ⟨b, hb, ?_, fun _ => herror uxBits, hinside⟩ (.inr (.inl hrefused))
    exact fun hnone => absurd hnone (herror uxBits)
  obtain ⟨d', hb⟩ := lloraTxBegin_waits cnf hd hrefused
  constructor
  · rintro ⟨b, hb', -, herror, -⟩
    rw [hb] at hb'
    cases hb'
    rw [ne_eq, raises_waiting, not_not] at herror
    by_cases hfits : data.chars.length % 2 = 0 ∧ data.chars.length ≤ 2 * maxLenPayload
    · exact .inl hfits
    · exact .inr (.inr (herror (by omega)))
  · intro hright
    refine ⟨_, hb, ?_, ?_, hinside⟩
    · intro hnone
      rw [raises_waiting] at hnone
      rcases hright with ⟨heven, hfits⟩ | hbad | hbit
      · exact ⟨.tx, _, rfl, handed_whole heven hfits⟩
      · exact absurd hbad hrefused
      · exact absurd hbit hnone
    · intro hlong
      rw [ne_eq, raises_waiting, not_not]
      rcases hright with hfits | hbad | hbit
      · omega
      · exact absurd hbad hrefused
      · exact hbit

/-- A node with an address and its keys. -/
def abpNode : Driver :=
  { Driver.off (List.replicate 8 0) 0 lmicReset with
    setup := true
    devaddr := [1, 0, 0, 0]
    nwkskey := List.replicate 16 1
    appskey := List.replicate 16 1 }

theorem nul_notMem_cafeDigits : nul ∉ ([0x43, 0x41, 0x46, 0x45] : List Byte) := by decide

theorem nul_notMem_cafDigits : nul ∉ ([0x43, 0x41, 0x46] : List Byte) := by decide

/-- "CAFE". -/
def cafeDigits : CString := ⟨[0x43, 0x41, 0x46, 0x45], nul_notMem_cafeDigits⟩

/-- "CAF". -/
def cafDigits : CString := ⟨[0x43, 0x41, 0x46], nul_notMem_cafDigits⟩

/-- Two bytes are sent. -/
theorem loraTx_right_cafe : TxRight plenty abpNode 0 1 cafeDigits evLoraTxComplete ↔
    (cafeDigits.chars.length % 2 = 0 ∧ cafeDigits.chars.length ≤ 2 * maxLenPayload) ∨
      TxRefused plenty abpNode 1 cafeDigits ∨ evLoraTxComplete &&& evLoraTxComplete = 0 :=
  loraTx_right plenty abpNode 0 1 cafeDigits evLoraTxComplete rfl

/-- Of three digits one byte is sent. -/
theorem not_txRight_odd : ¬ TxRight plenty abpNode 0 1 cafDigits evLoraTxComplete := by
  have hrefused : ¬ TxRefused plenty abpNode 1 cafDigits := by
    rintro (h | h | h | h | h)
    · exact absurd h (by decide)
    · exact absurd h (by decide)
    · exact absurd h (by decide)
    · exact h (by decide)
    · cases h
  rintro ⟨b, hb, -, herror, -⟩
  obtain ⟨d', hb'⟩ := lloraTxBegin_waits 0 rfl hrefused
  rw [hb'] at hb
  cases hb
  exact herror (.inl rfl) ((raises_waiting _ _).mpr (by decide))

end Tx

end LuaRtos.Lora
