/-
  LuaRtos.Lora.Uplink

  The data frames that LMIC sends, lmic/lmic.c: what `buildDataFrame` puts into one,
  when `engineUpdate` sends it, and how LMIC comes by a session.

  A frame is given here as it is before `aes_cipher` and `aes_appendMic`, without the
  MIC.  When the radio is free is not modelled: a frame that can be sent is sent at
  any time.
-/

import LuaRtos.Lora.System

namespace LuaRtos.Lora

open LuaRtos.CLib

def hdrFtypeDaup : Byte := 0x40
def hdrFtypeDcup : Byte := 0x80
def fctAdrarq : Byte := 0x40
def fctAck : Byte := 0x20
def offDatOpts : Nat := 8
def maxLenFrame : Nat := 64

def mcmdLadrAns : Byte := 0x03
def mcmdDcapAns : Byte := 0x04
def mcmdDn2pAns : Byte := 0x05
def mcmdDevsAns : Byte := 0x06
def mcmdSnchAns : Byte := 0x07
def mcmdPingInd : Byte := 0x10
def mcmdPingAns : Byte := 0x11
def mcmdBcniReq : Byte := 0x12
def mcmdLadrAnsRfu : Byte := 0xF8
def mcmdDn2pAnsRfu : Byte := 0xFC
def mcmdSnchAnsRfu : Byte := 0xFC
def mcmdPingAnsRfu : Byte := 0xFE

/-- `os_getBattLevel`. -/
def osGetBattLevel : Byte := 0xFF

/-! ## The frame -/

/-- What `buildDataFrame` reads for a frame, but for the counter. -/
structure FrameSource where
  devaddr : List Byte
  /-- Not only a poll. -/
  txdata : Bool
  dnConf : Byte
  adrEnabled : Byte
  adrarq : Bool
  /-- The MAC options that are piggybacked. -/
  opts : List Byte
  pendTxConf : Byte
  pendTxPort : Byte
  pendTxData : List Byte
deriving DecidableEq, Repr

namespace FrameSource

/-- `end`. -/
def optsEnd (f : FrameSource) : Nat := offDatOpts + f.opts.length

/-- `flen` with the payload. -/
def flen (f : FrameSource) : Nat :=
  (f.optsEnd + if f.txdata then 5 + f.pendTxData.length else 4) % 256

/-- There is a payload, and it is not too big together with the options. -/
def carriesData (f : FrameSource) : Bool := f.txdata && decide (f.flen ≤ maxLenFrame)

/-- `LMIC.frame[OFF_DAT_FCT]`. -/
def fct (f : FrameSource) : Byte :=
  f.dnConf ||| f.adrEnabled ||| (if f.adrarq then fctAdrarq else 0) |||
    BitVec.ofNat 8 f.opts.length

/-- The frame under a counter. -/
def frame (f : FrameSource) (seqno : BitVec 32) : List Byte :=
  (if f.carriesData ∧ f.pendTxConf ≠ 0 then hdrFtypeDcup else hdrFtypeDaup) :: f.devaddr ++
    [f.fct, seqno.setWidth 8, (seqno >>> 8).setWidth 8] ++ f.opts ++
      if f.carriesData then f.pendTxPort :: f.pendTxData else []

end FrameSource

/-- A MAC option, if it is to be sent. -/
def mcmd (pending : Bool) (option : List Byte) : List Byte := if pending then option else []

/-- The MAC options, by importance. -/
def macOptions (l : Lmic) : List Byte :=
  mcmd (l.opmode &&& (opTrack ||| opPingable) = opTrack ||| opPingable)
      [mcmdPingInd, l.pingDr ||| l.pingIntvExp <<< 4] ++
    mcmd (l.dutyCapAns ≠ 0) [mcmdDcapAns] ++
    mcmd (l.dn2Ans ≠ 0) [mcmdDn2pAns, l.dn2Ans &&& ~~~mcmdDn2pAnsRfu] ++
    mcmd (l.devsAns ≠ 0) [mcmdDevsAns, osGetBattLevel, l.margin] ++
    mcmd (l.ladrAns ≠ 0) [mcmdLadrAns, l.ladrAns &&& ~~~mcmdLadrAnsRfu] ++
    mcmd (l.bcninfoTries ≠ 0) [mcmdBcniReq] ++
    mcmd (l.pingSetAns ≠ 0) [mcmdPingAns, l.pingSetAns &&& ~~~mcmdPingAnsRfu] ++
    mcmd (l.snchAns ≠ 0) [mcmdSnchAns, l.snchAns &&& ~~~mcmdSnchAnsRfu]

/-- `adrAckReq` as `buildDataFrame` leaves it. -/
def adrAckReqUp (l : Lmic) : Int := if l.adrChanged ≠ 0 ∧ l.adrAckReq < 0 then 0 else l.adrAckReq

def frameSource (l : Lmic) : FrameSource where
  devaddr := l.devaddr
  txdata := decide (l.opmode &&& (opTxdata ||| opPoll) ≠ opPoll)
  dnConf := l.dnConf
  adrEnabled := l.adrEnabled
  adrarq := decide (0 ≤ adrAckReqUp l)
  opts := macOptions l
  pendTxConf := l.pendTxConf
  pendTxPort := l.pendTxPort
  pendTxData := l.pendTxData

/-- `buildDataFrame`, with the frame that it leaves in LMIC.frame. -/
def buildDataFrame (l : Lmic) : Lmic × List Byte :=
  let f := frameSource l
  -- a retransmission goes under the counter of the first one
  let seqnoUp := if l.txCnt = 0 then l.seqnoUp + 1 else l.seqnoUp
  ({ l with
      -- the answers are in the frame now
      dutyCapAns := 0
      dn2Ans := 0
      devsAns := 0
      ladrAns := 0
      pingSetAns := 0
      snchAns := 0
      adrAckReq := adrAckReqUp l
      adrChanged := 0
      seqnoUp := seqnoUp
      dnConf := 0
      txCnt := if f.carriesData ∧ l.pendTxConf ≠ 0 ∧ l.txCnt = 0 then 1 else l.txCnt
      dataLen := BitVec.ofNat 8 (if f.carriesData then f.flen else f.optsEnd + 4) },
    f.frame (seqnoUp - 1))

/-- `engineUpdate`, as far as it sends a data frame. -/
def engineUpdateData (l : Lmic) : Option (Lmic × List Byte) :=
  -- an ongoing scan or TX/RX transaction
  if l.opmode &&& (opScan ||| opTxrxpend ||| opShutdown) ≠ 0 then none
  -- a join request goes first
  else if isZero l.devaddr ∨ l.opmode &&& (opJoining ||| opRejoin) ≠ 0 then none
  else if l.opmode &&& (opTxdata ||| opPoll) = 0 then none
  -- the counter would roll over: the MAC is reset
  else if l.txCnt = 0 ∧ l.seqnoUp = 0xFFFFFFFF then none
  else
    let (l, frame) := buildDataFrame l
    some ({ l with
      opmode := (l.opmode &&& ~~~(opPoll ||| opRndtx)) ||| opTxrxpend ||| opNextchnl }, frame)

/-! ## Joins -/

/-- What `processJoinAccept` takes from a join accept; the keys are those of
    `aes_sessKeys`, the data rate is the one that it goes on with. -/
structure JoinAccept where
  netid : BitVec 32
  devaddr : List Byte
  nwkKey : List Byte
  artKey : List Byte
  dn2Dr : Byte
  datarate : Byte

/-- `processJoinAccept` for a good frame, up to EV_JOINED. -/
def processJoinAccept (l : Lmic) (j : JoinAccept) : Option Lmic :=
  -- LMIC_ASSERT
  if l.opmode &&& (opJoining ||| opRejoin) = 0 then none
  else some { stateJustJoined { l with
      devaddr := j.devaddr
      netid := j.netid
      nwkKey := j.nwkKey
      artKey := j.artKey
      datarate := j.datarate
      opmode := l.opmode &&&
        (~~~(opJoining ||| opTrack ||| opRejoin ||| opTxrxpend ||| opPingini) ||| opNextchnl)
      txCnt := 0 } with
    dn2Dr := j.dn2Dr }

/-- `runReset` up to EV_RESET. -/
def runReset : Lmic := lmicStartJoining lmicReset

/-! ## Steps -/

inductive MacAct where
  /-- A call of the driver or an event. -/
  | drive (a : Act)
  /-- LMIC sends a data frame. -/
  | send
  | accept (j : JoinAccept)
  | reset
  /-- LMIC works on its data otherwise, which leaves the session as it is. -/
  | work (f : Lmic → Lmic)

def System.setLmic (s : System) (l : Lmic) : System :=
  { s with driver := { s.driver with lmic := l } }

/-- A step of the driver and of LMIC, which sends by itself. -/
def macStep (flashId : Bool) (s : System) : MacAct → Option System
  | .drive (.work _) => none
  | .drive a => systemStep flashId s a
  | .send => (engineUpdateData s.driver.lmic).map fun r => s.setLmic r.1
  | .accept j => (processJoinAccept s.driver.lmic j).map s.setLmic
  | .reset => some (s.setLmic runReset)
  | .work f =>
    if (f s.driver.lmic).session = s.driver.lmic.session then some (s.setLmic (f s.driver.lmic))
    else none

end LuaRtos.Lora
