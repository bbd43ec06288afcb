/-
  LuaRtos.Lmic.Downlink

  `decodeFrame` of lmic/lmic.c: how a data frame from the network is checked, what its MAC
  options change, and where its payload is left.

  Log messages are not modelled.  An assertion of LMIC that fails stops the device.
-/

import LuaRtos.Lmic.Mic
import LuaRtos.Lora.Uplink

namespace LuaRtos.Lmic

open LuaRtos.CLib
open LuaRtos.Lora (opTrack opPoll opShutdown opNextchnl fctAck offDatOpts)

def hdrFtype : Byte := 0xE0
def hdrMajor : Byte := 0x03
def hdrFtypeDadn : Byte := 0x60
def hdrFtypeDcdn : Byte := 0xA0
def fctMore : Byte := 0x10
def fctOptlen : Byte := 0x0F
def offDatAddr : Nat := 1
def offDatFct : Nat := 5
def offDatSeqno : Nat := 6

def mcmdLchkAns : Byte := 0x02
def mcmdLadrReq : Byte := 0x03
def mcmdDcapReq : Byte := 0x04
def mcmdDn2pSet : Byte := 0x05
def mcmdDevsReq : Byte := 0x06
def mcmdSnchReq : Byte := 0x07
def mcmdPingSet : Byte := 0x11
def mcmdBcniAns : Byte := 0x12

def txrxAck : Byte := 0x80
def txrxNack : Byte := 0x40
def txrxNoport : Byte := 0x20
def txrxPort : Byte := 0x10

def linkCheckOff : Int := -128
def linkCheckInit : Int := -12
def rssiOff : Int := 64
def illegalRps : Byte := 0xFF

/-- The variables of LMIC that a downlink reads or changes. -/
structure Mac extends Lora.Lmic where
  /-- The counter that the next downlink has at least. -/
  seqnoDn : BitVec 32
  rejoinCnt : Byte
  rssi : Int
  rps : BitVec 16
  rxtime : BitVec 64
  channelMap : BitVec 16
  channelFreq : List (BitVec 32)
  channelDrMap : List (BitVec 16)
  upRepeat : Byte
  adrTxPow : Int
  dn2Freq : BitVec 32
  globalDutyRate : Byte
  globalDutyAvail : BitVec 64
  pingFreq : BitVec 32
  -- the beacon that is tracked
  bcnChnl : Byte
  bcnTxtime : BitVec 64
  bcnFlags : Byte
  bcnRxsyms : Byte
  bcnRxtime : BitVec 64
  drift : BitVec 16
  maxDriftDiff : BitVec 16
  missedBcns : Byte
deriving DecidableEq, Repr

/-! ## Tables -/

/-- `_DR2RPS_CRC`, as bytes. -/
def dr2rpsCrc : List Byte := [illegalRps, 6, 5, 4, 3, 2, 1, 9, 0, illegalRps]

def txpowlevels : List Int := [20, 14, 11, 8, 5, 2, 0, 0, 0, 0, 0, 0, 0, 0, 0, 0]

/-- SENSITIVITY, under the spreading factor and the bandwidth. -/
def sensitivity : List (List Int) :=
  [[32, 32, 32], [14, 17, 20], [12, 15, 18], [9, 12, 15], [6, 9, 12], [3, 6, 9], [0, 3, 6]]

def validDR (dr : Byte) : Result Bool := do
  let rps ← load dr2rpsCrc (dr.toNat + 1)
  pure (decide (rps ≠ illegalRps))

def pow2dBm (p1 : Byte) : Int := txpowlevels.getD (p1 &&& 0x0F).toNat 0

def getSensitivity (rps : BitVec 16) : Result Int :=
  match (sensitivity[(rps &&& 7).toNat]?).bind (·[(rps >>> 3 &&& 3).toNat]?) with
  | some s => .ok (-141 + s)
  | none => .error .outOfBounds

/-! ## Times, in ticks of 20 us -/

def ostickSec : Nat := 50000
def ms2osticks (ms : Nat) : Nat := ms * ostickSec / 1000
def ms2osticksCeil (ms : Nat) : Nat := (ms * ostickSec + 999) / 1000
def us2osticksRound (us : Nat) : Nat := (us * ostickSec + 500000) / 1000000

/-- BCN_INTV_osticks. -/
def bcnIntv : BitVec 64 := BitVec.ofNat 64 (128 * ostickSec)

/-- Half a symbol at the data rate of the beacon. -/
def bcnHsym : Nat := us2osticksRound (128 <<< 4)

namespace Mac

/-! ## Channels -/

def setDrTxpow (m : Mac) (dr : Byte) (pow : Int) : Mac :=
  let m := if pow ≠ -128 then { m with adrTxPow := pow } else m
  if m.datarate ≠ dr then { m with datarate := dr, opmode := m.opmode ||| opNextchnl } else m

/-- One round of the loop of `mapChannels`. -/
def mapChannel (m : Mac) (chmap : BitVec 16) (chnl : Nat) : BitVec 16 :=
  if chmap &&& 1#16 <<< chnl ≠ 0 ∧ m.channelFreq.getD chnl 0 = 0 then chmap &&& ~~~(1#16 <<< chnl)
  else chmap

def mapChannels (m : Mac) (chpage : Byte) (chmap : BitVec 16) : Bool × Mac :=
  if chpage ≠ 0 ∨ chmap = 0 ∨ chmap &&& ~~~m.channelMap ≠ 0 then (false, m)
  else (true, { m with channelMap := (List.range 16).foldl m.mapChannel chmap })

/-- The frequency with the duty cycle band in its low bits, where the band is not given. -/
def bandFreq (freq : BitVec 32) : BitVec 32 :=
  if 869400000 ≤ freq ∧ freq ≤ 869650000 then freq ||| 2
  else if 868000000 ≤ freq ∧ freq ≤ 868600000 ∨ 869700000 ≤ freq ∧ freq ≤ 870000000 then freq ||| 1
  else freq ||| 0

/-- DR_RANGE_MAP. -/
def drRangeMap (drlo drhi : Byte) : BitVec 16 :=
  (0xFFFF#16 <<< drlo.toNat) &&& (0xFFFF#16 >>> (15 - drhi.toNat))

/-- `LMIC_setupChannel` without a band. -/
def setupChannel (m : Mac) (chidx : Byte) (freq : BitVec 32) (drmap : BitVec 16) : Bool × Mac :=
  if 16 ≤ chidx.toNat then (false, m)
  else (true, { m with
    channelFreq := m.channelFreq.set chidx.toNat (bandFreq freq)
    channelDrMap := m.channelDrMap.set chidx.toNat (if drmap = 0 then drRangeMap 0 5 else drmap)
    channelMap := m.channelMap ||| 1#16 <<< chidx.toNat })

/-! ## MAC options -/

/-- MCMD_LADR_REQ. -/
def linkAdr (m : Mac) (p1 : Byte) (chmap : BitVec 16) (p4 : Byte) : Result Mac := do
  let r := mapChannels m (p4 &&& 0xF0) chmap
  let ladrAns : Byte := if r.1 then 0x87 else 0x86
  let dr := p1 >>> 4
  let valid ← validDR dr
  let ladrAns := if valid then ladrAns else ladrAns &&& ~~~0x02
  let m : Mac := { r.2 with ladrAns := ladrAns, adrChanged := 1 }
  pure (if ladrAns &&& 0x7F = 0x07 then
      setDrTxpow { m with upRepeat := p4 &&& 0x0F } dr (pow2dBm p1)
    else m)

/-- MCMD_DN2P_SET. -/
def dn2pSet (m : Mac) (p1 : Byte) (freq : BitVec 32) : Result Mac := do
  let dr := p1 &&& 0x0F
  let valid ← validDR dr
  let dn2Ans : Byte := 0x80 ||| (if valid then 0x02 else 0) ||| (if freq ≠ 0 then 0x01 else 0)
  pure (if dn2Ans = 0x83 then { m with dn2Ans := dn2Ans, dn2Dr := dr, dn2Freq := freq }
    else { m with dn2Ans := dn2Ans })

/-- MCMD_DCAP_REQ. -/
def dutyCap (now : BitVec 64) (m : Mac) (cap : Byte) : Mac :=
  { m with
    opmode := if cap = 0xFF then m.opmode ||| opShutdown else m.opmode
    globalDutyRate := cap &&& 0x0F
    globalDutyAvail := now
    dutyCapAns := 1 }

/-- MCMD_SNCH_REQ. -/
def newChannel (m : Mac) (chidx : Byte) (freq : BitVec 32) (drs : Byte) : Mac :=
  let m := { m with snchAns := 0x80 }
  if freq = 0 then m
  else
    let r := setupChannel m chidx freq (drRangeMap (drs &&& 0x0F) (drs >>> 4))
    if r.1 then { r.2 with snchAns := 0x83 } else r.2

/-- MCMD_PING_SET. -/
def pingSet (m : Mac) (freq : BitVec 32) : Mac :=
  if freq ≠ 0 then { m with pingSetAns := 0x81, pingFreq := freq }
  else { m with pingSetAns := 0x80 }

/-- `calcBcnRxWindowFromMillis` for a first beacon within 30 ms. -/
def calcBcnRxWindow (m : Mac) : Mac :=
  let syms : Byte := BitVec.ofNat 8 (5 + ms2osticksCeil 30 / bcnHsym)
  { m with
    drift := 0
    maxDriftDiff := 0
    missedBcns := 0
    bcnFlags := m.bcnFlags ||| 0x0C
    bcnRxsyms := syms
    bcnRxtime := m.bcnTxtime + bcnIntv - BitVec.ofInt 64 ((syms.toNat - 8 : Int) * bcnHsym) }

/-- MCMD_BCNI_ANS. -/
def bcnInfo (m : Mac) (delay : BitVec 16) (chnl : Byte) : Result Mac :=
  if m.opmode &&& opTrack ≠ 0 then pure m
  -- the assertion that the beacon was asked for
  else if m.bcninfoTries = 0 then throw .diverged
  else pure (calcBcnRxWindow { m with
    bcnChnl := chnl
    opmode := m.opmode ||| opTrack
    bcnTxtime := m.rxtime + BitVec.ofNat 64 (ms2osticks (delay.toNat * 30)) +
      BitVec.ofNat 64 (ms2osticksCeil 15) - bcnIntv
    bcnFlags := 0 })

end Mac

def osRlsbf4 (buf : List Byte) (i : Nat) : Result (BitVec 32) := do
  let b0 ← load buf i
  let b1 ← load buf (i + 1)
  let b2 ← load buf (i + 2)
  let b3 ← load buf (i + 3)
  pure (b3 ++ b2 ++ b1 ++ b0)

/-- A frequency in units of 100 Hz, or 0 where it is not of the EU band. -/
def eu868Freq (units : BitVec 32) : BitVec 32 :=
  if units * 100 < 863000000 ∨ 870000000 < units * 100 then 0 else units * 100

/-- `convFreq`, which reads the byte before the pointer too. -/
def convFreq (buf : List Byte) (i : Nat) : Result (BitVec 32) := do
  let v ← osRlsbf4 buf (i - 1)
  pure (eu868Freq (v >>> 8))

/-- The option at `i`: LMIC behind it and the bytes that it has, or none where it is not known. -/
def macOption (now : BitVec 64) (m : Mac) (i : Nat) : Result (Option (Mac × Nat)) := do
  let d := m.frame
  let cid ← load d i
  if cid = mcmdLchkAns then pure (some (m, 3))
  else if cid = mcmdLadrReq then
    let p1 ← load d (i + 1)
    let chmap ← osRlsbf2 d (i + 2)
    let p4 ← load d (i + 4)
    let m ← m.linkAdr p1 chmap p4
    pure (some (m, 5))
  else if cid = mcmdDevsReq then pure (some ({ m with devsAns := 1 }, 1))
  else if cid = mcmdDn2pSet then
    let p1 ← load d (i + 1)
    let freq ← convFreq d (i + 2)
    let m ← m.dn2pSet p1 freq
    pure (some (m, 5))
  else if cid = mcmdDcapReq then
    let cap ← load d (i + 1)
    pure (some (Mac.dutyCap now m cap, 2))
  else if cid = mcmdSnchReq then
    let chidx ← load d (i + 1)
    let freq ← convFreq d (i + 2)
    let drs ← load d (i + 5)
    pure (some (m.newChannel chidx freq drs, 6))
  else if cid = mcmdPingSet then
    let freq ← convFreq d (i + 1)
    pure (some (m.pingSet freq, 4))
  else if cid = mcmdBcniAns then
    let delay ← osRlsbf2 d (i + 1)
    let chnl ← load d (i + 3)
    let m ← m.bcnInfo delay chnl
    pure (some (m, 4))
  else pure none

/-- The loop over the options, up to `last`. -/
def macOptions (now : BitVec 64) (last : Nat) : Nat → Mac → Nat → Result Mac
  | 0, _, _ => .error .diverged
  | fuel + 1, m, i =>
    if i < last then do
      match ← macOption now m i with
      | some (m, n) => macOptions now last fuel m (i + n)
      | none => pure m
    else pure m

/-! ## The frame -/

/-- The 32 bits of a counter of which a frame has the low 16: the next one from `seqnoDn` on. -/
def extendSeqno (seqnoDn : BitVec 32) (seqno : BitVec 16) : BitVec 32 :=
  seqnoDn + ((seqno.setWidth 32 - seqnoDn).setWidth 16).setWidth 32

/-- A downlink with this counter has come. -/
def expectNext (m : Mac) (ftype : Byte) (seqno : BitVec 32) : Mac :=
  { m with seqnoDn := seqno + 1, dnConf := if ftype = hdrFtypeDcdn then fctAck else 0 }

/-- The comparison of a counter with the expected one: a replayed confirmation or not, or none
    where the frame is refused. -/
def checkSeqno (m : Mac) (ftype : Byte) (seqno : BitVec 32) : Option (Bool × Mac) :=
  if seqno < m.seqnoDn then
    if m.seqnoDn.slt seqno then none
    else if seqno ≠ m.seqnoDn - 1 ∨ m.dnConf = 0 ∨ ftype ≠ hdrFtypeDcdn then none
    else some (true, m)
  else some (false, expectNext m ftype seqno)

/-- LMIC has heard from the network. -/
def heard (m : Mac) (fct : Byte) : Result Mac := do
  let m := { m with
    opmode := if m.dnConf ≠ 0 ∨ fct &&& fctMore ≠ 0 then m.opmode ||| opPoll else m.opmode
    adrChanged := 0
    rejoinCnt := 0
    adrAckReq := if m.adrAckReq ≠ linkCheckOff then linkCheckInit else m.adrAckReq }
  let s ← getSensitivity m.rps
  let margin := m.rssi - rssiOff - s
  pure { m with
    margin := BitVec.ofInt 8 (if margin < 0 then 0 else if 254 < margin then 254 else margin) }

/-- The payload is decrypted in place, but for a replay. -/
def decrypt (E : List Byte → BitVec 128 → BitVec 128) (m : Mac) (replayConf : Bool)
    (port : Option Byte) (seqno : BitVec 32) (poff pend : Nat) : Result Mac :=
  match replayConf, port with
  | true, _ => pure m
  | false, none => pure m
  | false, some port => do
    let key := if port = 0 then m.nwkKey else m.artKey
    let payload ← aesCipher E key m.devaddr seqno true (m.frame.drop poff) (pend - poff)
    pure { m with frame := m.frame.take poff ++ payload }

/-- What is reported of the frame. -/
def report (m : Mac) (fct : Byte) (port : Option Byte) (poff pend : Nat) : Mac :=
  let acked : Byte := if fct &&& fctAck ≠ 0 then txrxAck else txrxNack
  { m with
    txrxFlags := (if m.txCnt ≠ 0 then m.txrxFlags ||| acked else m.txrxFlags) |||
      (if port.isSome then txrxPort else txrxNoport)
    dataBeg := BitVec.ofNat 8 poff
    dataLen := BitVec.ofNat 8 (if port.isSome then pend - poff else 0) }

/-- A frame whose counter has been accepted. -/
def acceptFrame (E : List Byte → BitVec 128 → BitVec 128) (now : BitVec 64) (m : Mac) (fct : Byte)
    (replayConf : Bool) (port : Option Byte) (seqno : BitVec 32) (poff pend : Nat) :
    Result Mac := do
  let m ← heard m fct
  let m ← macOptions now (offDatOpts + (fct &&& fctOptlen).toNat) 16 m offDatOpts
  let m ← decrypt E m replayConf port seqno poff pend
  pure (report m fct port poff pend)

/-- The byte before the payload, if the frame has one. -/
def readPort (d : List Byte) (poff pend : Nat) : Result (Option Byte) :=
  if poff < pend then do
    let port ← load d poff
    pure (some port)
  else pure none

/-- The label `norx`. -/
def norx (m : Mac) : Bool × Mac := (false, { m with dataLen := 0 })

def decodeFrame (E : List Byte → BitVec 128 → BitVec 128) (now : BitVec 64) (m : Mac) :
    Result (Bool × Mac) := do
  let d := m.frame
  let hdr ← load d 0
  let ftype := hdr &&& hdrFtype
  let dlen := m.dataLen.toNat
  if dlen < offDatOpts + 4 ∨ hdr &&& hdrMajor ≠ 0 ∨ ftype ≠ hdrFtypeDadn ∧ ftype ≠ hdrFtypeDcdn then
    pure (norx m)
  else
    let fct ← load d offDatFct
    let addr ← loadBytes d offDatAddr 4
    let seqno ← osRlsbf2 d offDatSeqno
    let poff := offDatOpts + (fct &&& fctOptlen).toNat
    let pend := dlen - 4
    if addr ≠ m.devaddr ∨ pend < poff then pure (norx m)
    else
      let port ← readPort d poff pend
      let poff := if poff < pend then poff + 1 else poff
      let seqno := extendSeqno m.seqnoDn seqno
      if ← aesVerifyMic E m.nwkKey m.devaddr seqno true d pend then
        match checkSeqno m ftype seqno with
        | none => pure (norx m)
        | some (replayConf, m) => do
          let m ← acceptFrame E now m fct replayConf port seqno poff pend
          pure (true, m)
      else pure (norx m)

end LuaRtos.Lmic
