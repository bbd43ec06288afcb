/-
  LuaRtos.Lora.Receive

  Downlink data and the receive callback.

  EV_TXCOMPLETE looks at the received data only after an unconfirmed uplink, and it
  gives the callback port 1 whatever the port of the frame is.
-/

import LuaRtos.Lora.Driver

namespace LuaRtos.Lora

open LuaRtos.CLib

/-- The frame carries `payload` for `port`: `dataBeg` is the start of the data, and
    the port is before it. -/
structure Received (l : Lmic) (port : Byte) (payload : List Byte) : Prop where
  frame : ∃ pre post, l.frame = pre ++ port :: (payload ++ post) ∧
    l.dataBeg.toNat = pre.length + 1
  dataLen : l.dataLen.toNat = payload.length
  data : payload ≠ []

/-- EV_TXCOMPLETE calls the callback once, with the payload and its port. -/
def Delivered (malloc : Malloc) (d : Driver) (port : Byte) (payload : List Byte) : Prop :=
  ∃ d', onEvent malloc d .txcomplete = .ok (d', [((port.toNat : Int), encodeHex payload)])

section Received

variable {l : Lmic} {port : Byte} {payload : List Byte}

theorem Received.dataLen_ne (h : Received l port payload) : l.dataLen ≠ 0 := by
  intro hzero
  have hlen := h.dataLen
  rw [hzero] at hlen
  exact h.data (List.length_eq_zero_iff.mp hlen.symm)

/-- What the callback's string is made from. -/
theorem Received.drop_frame (h : Received l port payload) :
    ∃ post, l.frame.drop l.dataBeg.toNat = payload ++ post := by
  obtain ⟨pre, post, hframe, hbeg⟩ := h.frame
  refine ⟨post, ?_⟩
  rw [hframe, hbeg]
  simp [List.drop_append]

/-- The string that is given to the callback. -/
theorem onData_eq {malloc : Malloc} {d : Driver} (h : Received d.lmic port payload)
    (hcb : d.rxCallback = true) (hmem : ∀ n, (malloc n).isSome) :
    onData malloc d = .ok [(1, encodeHex payload)] := by
  obtain ⟨block, hblock⟩ := Option.isSome_iff_exists.mp (hmem (d.lmic.dataLen.toNat * 2 + 1))
  obtain ⟨post, hdrop⟩ := h.drop_frame
  obtain ⟨bytes, hsize⟩ := block
  have hbytes : bytes.length = 2 * payload.length + 1 := by
    rw [hsize, h.dataLen]
    omega
  have hstore : store (encodeHex payload ++ [nul]) (payload.length * 2) nul =
      .ok (encodeHex payload ++ [nul]) := by
    have hlen : payload.length * 2 = (encodeHex payload).length := by
      rw [length_encodeHex]
      omega
    rw [hlen, store_append]
  rw [onData, if_pos ⟨h.dataLen_ne, hcb⟩, hblock]
  dsimp only
  rw [hdrop, h.dataLen, valToHexString_block hbytes, ok_bind, if_neg Bool.false_ne_true, hstore,
    ok_bind, readStr_append (nul_notMem_encodeHex payload)]
  rfl

end Received

section Delivery

variable {malloc : Malloc} {d : Driver} {port : Byte} {payload : List Byte}

/-- Nothing is delivered after a confirmed uplink. -/
theorem not_delivered_of_confirmed (h : d.lmic.pendTxConf ≠ 0) :
    ¬ Delivered malloc d port payload := by
  rintro ⟨d', hd⟩
  rw [onEvent, onTxcomplete, if_pos h] at hd
  cases hd

/-- Received data is delivered exactly after an unconfirmed uplink and on port 1. -/
theorem onEvent_delivered_iff (h : Received d.lmic port payload) (hcb : d.rxCallback = true)
    (hmem : ∀ n, (malloc n).isSome) :
    Delivered malloc d port payload ↔ d.lmic.pendTxConf = 0 ∧ port = 1 := by
  constructor
  · intro hd
    have hconf : d.lmic.pendTxConf = 0 := by
      by_contra hconf
      exact not_delivered_of_confirmed hconf hd
    refine ⟨hconf, ?_⟩
    obtain ⟨d', hd⟩ := hd
    rw [onEvent, onTxcomplete, if_neg (not_not.mpr hconf), onData_eq h hcb hmem] at hd
    have hport : (1 : Int) = port.toNat := by
      simp only [ok_bind, pure_eq_ok, Except.ok.injEq, Prod.mk.injEq, List.cons.injEq] at hd
      exact hd.2.1.1
    apply BitVec.eq_of_toNat_eq
    have hport : port.toNat = 1 := by omega
    simpa using hport
  · rintro ⟨hconf, rfl⟩
    refine ⟨setBits d evLoraTxComplete, ?_⟩
    rw [onEvent, onTxcomplete, if_neg (not_not.mpr hconf), onData_eq h hcb hmem]
    rfl

end Delivery

/-! ## One frame -/

/-- `CAFE` for a port, after an uplink that was confirmed or not. -/
def cafe (confirmed port : Byte) : Driver :=
  { Driver.off [] 0 { lmicClear with
      pendTxConf := confirmed
      txrxFlags := txrxAck ||| txrxPort
      dataLen := 2
      dataBeg := 9
      frame := List.replicate 8 0 ++ port :: ([0xca, 0xfe] ++ List.replicate 53 0) } with
    rxCallback := true }

theorem received_cafe (confirmed port : Byte) :
    Received (cafe confirmed port).lmic port [0xca, 0xfe] where
  frame := ⟨List.replicate 8 0, List.replicate 53 0, rfl, rfl⟩
  dataLen := rfl
  data := nofun

theorem onEvent_delivered_iff_cafe :
    Delivered plenty (cafe 0 1) 1 [0xca, 0xfe] ↔
      (cafe 0 1).lmic.pendTxConf = 0 ∧ (1 : Byte) = 1 :=
  onEvent_delivered_iff (received_cafe 0 1) rfl fun _ => rfl

/-- After a confirmed uplink, or on another port. -/
theorem not_delivered_cafe :
    Received (cafe 1 1).lmic 1 [0xca, 0xfe] ∧
      ¬ Delivered plenty (cafe 1 1) 1 [0xca, 0xfe] ∧
      Received (cafe 0 2).lmic 2 [0xca, 0xfe] ∧
      ¬ Delivered plenty (cafe 0 2) 2 [0xca, 0xfe] := by
  refine ⟨received_cafe 1 1, not_delivered_of_confirmed (by decide), received_cafe 0 2, ?_⟩
  rintro ⟨d', hd⟩
  rw [onEvent, onTxcomplete, if_neg (by decide), onData_eq (received_cafe 0 2) rfl fun _ => rfl]
    at hd
  simp at hd

end LuaRtos.Lora
