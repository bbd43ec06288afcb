/-
  LuaRtos.Lmic.Mic

  What lmic.c makes of `os_aes` for a data frame: its message integrity code, and its payload.

  A frame is the block of memory that it starts, with room for the code.
-/

import LuaRtos.Lmic.Aes

namespace LuaRtos.Lmic

open LuaRtos.CLib LuaRtos.Crypto

/-! ## Numbers in memory -/

/-- What `os_wlsbf4` writes. -/
def osWlsbf4 (v : BitVec 32) : List Byte :=
  [v.setWidth 8, (v >>> 8).setWidth 8, (v >>> 16).setWidth 8, (v >>> 24).setWidth 8]

/-- What `os_wmsbf4` writes. -/
def osWmsbf4 (v : BitVec 32) : List Byte := (osWlsbf4 v).reverse

def osRmsbf4 (buf : List Byte) (i : Nat) : Result (BitVec 32) := do
  let b0 ← load buf i
  let b1 ← load buf (i + 1)
  let b2 ← load buf (i + 2)
  let b3 ← load buf (i + 3)
  pure (word b0 b1 b2 b3)

def osRlsbf2 (buf : List Byte) (i : Nat) : Result (BitVec 16) := do
  let b0 ← load buf i
  let b1 ← load buf (i + 1)
  pure (b1 ++ b0)

/-- What was written is read back. -/
theorem wordAt_osWmsbf4 (v : BitVec 32) : wordAt (osWmsbf4 v) 0 = v := by
  show word ((v >>> 24).setWidth 8) ((v >>> 16).setWidth 8) ((v >>> 8).setWidth 8)
    (v.setWidth 8) = v
  apply BitVec.eq_of_getLsbD_eq
  intro i hi
  simp only [getLsbD_word, BitVec.getLsbD_setWidth, BitVec.getLsbD_ushiftRight]
  grind

theorem osWmsbf4_inj {v w : BitVec 32} : osWmsbf4 v = osWmsbf4 w ↔ v = w := by
  constructor
  · intro h
    rw [← wordAt_osWmsbf4 v, h, wordAt_osWmsbf4]
  · intro h
    rw [h]

theorem osWmsbf4_word (b0 b1 b2 b3 : Byte) : osWmsbf4 (word b0 b1 b2 b3) = [b0, b1, b2, b3] := by
  have hbyte (k : Nat) (b : Byte) (h : ∀ i < 8, (word b0 b1 b2 b3).getLsbD (k + i) = b.getLsbD i) :
      (word b0 b1 b2 b3 >>> k).setWidth 8 = b := by
    apply BitVec.eq_of_getLsbD_eq
    intro i hi
    rw [BitVec.getLsbD_setWidth, BitVec.getLsbD_ushiftRight, h i hi]
    simp [hi]
  have h0 : (word b0 b1 b2 b3).setWidth 8 = b3 := hbyte 0 b3 (by simp only [getLsbD_word]; grind)
  have h1 := hbyte 8 b2 (by simp only [getLsbD_word]; grind)
  have h2 := hbyte 16 b1 (by simp only [getLsbD_word]; grind)
  have h3 := hbyte 24 b0 (by simp only [getLsbD_word]; grind)
  rw [osWmsbf4, osWlsbf4, h0, h1, h2, h3]
  rfl

/-- Four bytes that are read make the number under which they would be written. -/
theorem osRmsbf4_eq {buf : List Byte} {i : Nat} (h : i + 4 ≤ buf.length) (v : BitVec 32) :
    ∃ w, osRmsbf4 buf i = .ok w ∧ (w = v ↔ window buf i 4 = osWmsbf4 v) := by
  have hload (j : Nat) (hj : i + j < buf.length) : load buf (i + j) = .ok buf[i + j] :=
    load_of_lt hj
  have hwindow : window buf i 4 = [buf[i], buf[i + 1], buf[i + 2], buf[i + 3]] := by
    rw [window, List.drop_eq_getElem_cons (by omega), List.drop_eq_getElem_cons (by omega),
      List.drop_eq_getElem_cons (by omega), List.drop_eq_getElem_cons (by omega)]
    rfl
  refine ⟨word buf[i] buf[i + 1] buf[i + 2] buf[i + 3], ?_, ?_⟩
  · rw [osRmsbf4, load_of_lt (show i < buf.length by omega), hload 1 (by omega), hload 2 (by omega),
      hload 3 (by omega)]
    rfl
  · rw [hwindow, ← osWmsbf4_word, osWmsbf4_inj]

/-! ## The message integrity code -/

/-- The direction of a frame, `dndir`. -/
def dirByte (dndir : Bool) : Byte := if dndir then 1 else 0

/-- AESaux behind `micB0`. -/
def micB0 (devaddr : List Byte) (seqno : BitVec 32) (dndir : Bool) (len : Nat) : List Byte :=
  [0x49, 0, 0, 0, 0, dirByte dndir] ++ devaddr ++ osWlsbf4 seqno ++ [0, BitVec.ofNat 8 len]

section Frame

variable (E : List Byte → BitVec 128 → BitVec 128) (key devaddr : List Byte) (seqno : BitVec 32)
  (dndir : Bool)

def aesVerifyMic (pdu : List Byte) (len : Nat) : Result Bool := do
  let r ← osAes E key (micB0 devaddr seqno dndir len) aesMic pdu (BitVec.ofNat 16 len)
  let mic ← osRmsbf4 r.2 len
  pure (decide (r.1 = mic))

def aesAppendMic (pdu : List Byte) (len : Nat) : Result (List Byte) := do
  let r ← osAes E key (micB0 devaddr seqno dndir len) aesMic pdu (BitVec.ofNat 16 len)
  storeBytes r.2 len (osWmsbf4 r.1)

/-- AESaux for the payload, with the block counter. -/
def cipherAux : List Byte :=
  [1, 0, 0, 0, 0, dirByte dndir] ++ devaddr ++ osWlsbf4 seqno ++ [0, 1]

/-- `aes_cipher` on the block that `payload` points to. -/
def aesCipher (payload : List Byte) (len : Int) : Result (List Byte) :=
  if len ≤ 0 then pure payload
  else do
    let r ← osAes E key (cipherAux devaddr seqno dndir) aesCtr payload (BitVec.ofInt 16 len)
    pure r.2

/-- The message integrity code of a frame: the first bytes of CMAC over the block that names
    the sender, the counter and the direction, and the frame. -/
def mic (msg : List Byte) : List Byte :=
  osWmsbf4 (tag (cmac (E key) (micB0 devaddr seqno dndir msg.length ++ msg)))

/-- The payload in the other form, clear or encrypted. -/
def crypt (msg : List Byte) : List Byte :=
  ctr (E key) (counters (.ofBytes (cipherAux devaddr seqno dndir))) msg

variable {E key devaddr seqno dndir}

theorem length_mic (msg : List Byte) : (mic E key devaddr seqno dndir msg).length = 4 := rfl

@[simp] theorem length_crypt (msg : List Byte) :
    (crypt E key devaddr seqno dndir msg).length = msg.length :=
  length_ctr _ _ msg

@[simp] theorem crypt_crypt (msg : List Byte) :
    crypt E key devaddr seqno dndir (crypt E key devaddr seqno dndir msg) = msg :=
  ctr_ctr _ _ msg

theorem length_micB0 (haddr : devaddr.length = 4) (len : Nat) :
    (micB0 devaddr seqno dndir len).length = 16 := by
  simp [micB0, osWlsbf4, haddr]

theorem toNat_len {len : Nat} (hlen : len ≤ 127) : (BitVec.ofNat 16 len).toNat = len := by
  rw [BitVec.toNat_ofNat]
  omega

variable {pdu : List Byte} {len : Nat}

theorem osAes_micB0 (haddr : devaddr.length = 4) (hpos : 0 < len) (hlen : len ≤ 127)
    (hfit : len ≤ pdu.length) :
    osAes E key (micB0 devaddr seqno dndir len) aesMic pdu (BitVec.ofNat 16 len) =
      .ok (tag (cmac (E key) (micB0 devaddr seqno dndir len ++ pdu.take len)), pdu) := by
  have hnat := toNat_len hlen
  have h := @osAes_mic E key (micB0 devaddr seqno dndir len) pdu (BitVec.ofNat 16 len)
    (length_micB0 haddr len) (by omega) (by omega) (by omega)
  rw [hnat] at h
  exact h

/-- `aes_verifyMic` compares the bytes behind the frame with its code. -/
theorem aesVerifyMic_eq (haddr : devaddr.length = 4) (hpos : 0 < len) (hlen : len ≤ 127)
    (hfit : len + 4 ≤ pdu.length) : aesVerifyMic E key devaddr seqno dndir pdu len =
      .ok (decide (window pdu len 4 = mic E key devaddr seqno dndir (pdu.take len))) := by
  have htake : (pdu.take len).length = len := List.length_take_of_le (by omega)
  obtain ⟨w, hread, hw⟩ := osRmsbf4_eq hfit
    (tag (cmac (E key) (micB0 devaddr seqno dndir len ++ pdu.take len)))
  rw [aesVerifyMic, osAes_micB0 haddr hpos hlen (by omega), ok_bind, hread, ok_bind, pure_eq_ok,
    mic, htake]
  refine congrArg _ (decide_eq_decide.mpr ?_)
  rw [eq_comm, hw]

theorem aesAppendMic_eq (haddr : devaddr.length = 4) (hpos : 0 < len) (hlen : len ≤ 127)
    (hfit : len + 4 ≤ pdu.length) : aesAppendMic E key devaddr seqno dndir pdu len =
      .ok (overwrite pdu len (mic E key devaddr seqno dndir (pdu.take len))) := by
  have htake : (pdu.take len).length = len := List.length_take_of_le (by omega)
  rw [aesAppendMic, osAes_micB0 haddr hpos hlen (by omega), ok_bind, mic, htake]
  exact storeBytes_overwrite hfit

/-- `aes_cipher` changes the payload alone. -/
theorem aesCipher_eq {payload : List Byte} (hlen : len ≤ 127) (hfit : len ≤ payload.length) :
    aesCipher E key devaddr seqno dndir payload len =
      .ok (crypt E key devaddr seqno dndir (payload.take len) ++ payload.drop len) := by
  by_cases hzero : len = 0
  · rw [aesCipher, if_pos (by omega), hzero, List.take_zero, crypt, ctr_nil]
    rfl
  · have hnat := toNat_len hlen
    obtain ⟨w, hout⟩ := @osAes_ctr E key (cipherAux devaddr seqno dndir) payload
      (BitVec.ofNat 16 len) (by omega) (by omega)
    rw [hnat] at hout
    rw [aesCipher, if_neg (by omega), BitVec.ofInt_natCast, hout]
    rfl

end Frame

/-- The code of a frame is the start of its CMAC: `aes_appendMic` writes it behind the frame and
    nothing else, and `aes_verifyMic` takes a frame exactly when it is there. -/
theorem aesMic_spec (E : List Byte → BitVec 128 → BitVec 128) (key : List Byte)
    {devaddr : List Byte} (seqno : BitVec 32) (dndir : Bool) {pdu : List Byte} {len : Nat}
    (haddr : devaddr.length = 4) (hpos : 0 < len) (hlen : len ≤ 127) (hfit : len + 4 ≤ pdu.length) :
    let code := osWmsbf4 (tag (cmac (E key) (micB0 devaddr seqno dndir len ++ pdu.take len)))
    aesAppendMic E key devaddr seqno dndir pdu len =
        .ok (pdu.take len ++ code ++ pdu.drop (len + 4)) ∧
      aesVerifyMic E key devaddr seqno dndir (pdu.take len ++ code ++ pdu.drop (len + 4)) len =
        .ok true ∧
      ∃ verified, aesVerifyMic E key devaddr seqno dndir pdu len = .ok verified ∧
        (verified = true ↔ window pdu len 4 = code) := by
  have htake : (pdu.take len).length = len := List.length_take_of_le (by omega)
  have hcode : mic E key devaddr seqno dndir (pdu.take len) =
      osWmsbf4 (tag (cmac (E key) (micB0 devaddr seqno dndir len ++ pdu.take len))) := by
    rw [mic, htake]
  dsimp only
  rw [← hcode]
  generalize hmic : mic E key devaddr seqno dndir (pdu.take len) = code
  have hcodelen : code.length = 4 := by
    rw [← hmic]
    rfl
  refine ⟨?_, ?_, ?_⟩
  · rw [aesAppendMic_eq haddr hpos hlen hfit, hmic, overwrite, hcodelen]
  · have hlength : (pdu.take len ++ code ++ pdu.drop (len + 4)).length = pdu.length := by
      simp only [List.length_append, htake, hcodelen, List.length_drop]
      omega
    rw [aesVerifyMic_eq haddr hpos hlen (by omega), List.append_assoc, List.take_left' htake, hmic,
      window, List.drop_left' htake, List.take_left' hcodelen]
    exact congrArg _ (decide_eq_true rfl)
  · refine ⟨_, aesVerifyMic_eq haddr hpos hlen hfit, ?_⟩
    rw [hmic, decide_eq_true_iff]

/-- Two bytes, with room for their code. -/
theorem aesMic_spec_two :
    ∃ code, aesAppendMic (fun _ x => x) [] [1, 2, 3, 4] 5 true [6, 7, 0, 0, 0, 0, 8] 2 =
      .ok ([6, 7] ++ code ++ [8]) := by
  obtain ⟨happend, -⟩ := @aesMic_spec (fun _ x => x) [] [1, 2, 3, 4] 5 true [6, 7, 0, 0, 0, 0, 8] 2
    rfl (by decide) (by decide) (by decide)
  exact ⟨_, happend⟩

end LuaRtos.Lmic
