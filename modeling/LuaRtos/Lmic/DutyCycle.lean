/-
  LuaRtos.Lmic.DutyCycle

  When LMIC sends, lmic/lmic.c: `nextTx` chooses a channel, `engineUpdate` waits for its band, and
  `updateTx` blocks the band for a time in proportion to the time on air.

  Times are in ticks.  What is sent, and the receive windows, are not modelled here.
-/

import LuaRtos.Lmic.Downlink
import LuaRtos.Lts.Run

namespace LuaRtos.Lmic

open LuaRtos.CLib
open LuaRtos.Lora (opScan opTrack opJoining opTxdata opPoll opRejoin opShutdown opTxrxpend opRndtx
  opNextchnl)

structure Band where
  /-- A transmission blocks the band for so many times its time on air. -/
  txcap : BitVec 16
  lastchnl : Nat
  /-- The band is blocked until this time. -/
  avail : BitVec 64
deriving DecidableEq, Repr

/-- The variables of LMIC for the transmissions. -/
structure Sched where
  bands : List Band
  channelFreq : List (BitVec 32)
  channelDrMap : List (BitVec 16)
  channelMap : BitVec 16
  datarate : Byte
  errcr : Byte
  txChnl : Nat
  txend : BitVec 64
  opmode : BitVec 16
  globalDutyRate : Byte
  globalDutyAvail : BitVec 64
  bcnRxtime : BitVec 64
  rps : BitVec 16
  dataLen : Byte
deriving DecidableEq, Repr

def maxChannels : Nat := 16

/-- RX_RAMPUP and TX_RAMPUP: 2 ms. -/
def rampup : BitVec 64 := 100

namespace Sched

def band (s : Sched) (i : Nat) : Band := s.bands.getD i ⟨0, 0, 0⟩

/-- The band of a channel, in the low bits of its frequency. -/
def bandOf (s : Sched) (chnl : Nat) : Nat := (s.channelFreq.getD chnl 0 &&& 3).toNat

/-! ## The next channel -/

/-- The channel is enabled, has the data rate, and is in the band. -/
def usable (s : Sched) (band chnl : Nat) : Bool :=
  decide (s.channelMap &&& 1#16 <<< chnl ≠ 0 ∧
    s.channelDrMap.getD chnl 0 &&& 1#16 <<< (s.datarate &&& 0x0F).toNat ≠ 0 ∧ band = s.bandOf chnl)

/-- One round of the loop over the bands: the time in it, which is unsigned, and the band. -/
def earlier (s : Sched) (bmap : BitVec 8) (r : BitVec 64 × Nat) (bi : Nat) : BitVec 64 × Nat :=
  if bmap &&& 1#8 <<< bi ≠ 0 ∧ 0 < r.1 - (s.band bi).avail then ((s.band bi).avail, bi) else r

/-- The channel behind one, in a circle. -/
def nextChannel (chnl : Nat) : Nat :=
  if maxChannels ≤ chnl + 1 then chnl + 1 - maxChannels else chnl + 1

/-- The loop over the channels of a band, with the rounds left. -/
def findChannel (s : Sched) (band : Nat) : Nat → Nat → Option Nat
  | 0, _ => none
  | n + 1, chnl =>
    if s.usable band (nextChannel chnl) then some (nextChannel chnl)
    else s.findChannel band n (nextChannel chnl)

/-- `LMIC.txChnl = LMIC.bands[band].lastchnl = chnl`. -/
def choose (s : Sched) (band chnl : Nat) : Sched :=
  { s with txChnl := chnl, bands := s.bands.set band { s.band band with lastchnl := chnl } }

/-- The loop of `nextTx`, over the bands of `bmap`. -/
def nextTxLoop (s : Sched) (now : BitVec 64) : Nat → BitVec 8 → Result (BitVec 64 × Sched)
  | 0, _ => .error .diverged
  | fuel + 1, bmap =>
    let r := (List.range 4).foldl (s.earlier bmap) (now + BitVec.ofNat 64 (28800 * ostickSec), 0)
    match s.findChannel r.2 maxChannels (s.band r.2).lastchnl with
    | some chnl => .ok (r.1, s.choose r.2 chnl)
    | none =>
      if bmap &&& ~~~(1#8 <<< r.2) = 0 then .ok (r.1, s)
      else s.nextTxLoop now fuel (bmap &&& ~~~(1#8 <<< r.2))

/-- `nextTx`: the time of the next transmission.  There are four bands. -/
def nextTx (s : Sched) (now : BitVec 64) : Result (BitVec 64 × Sched) := s.nextTxLoop now 5 0x0F

/-! ## The time on air -/

end Sched

/-- The symbols behind the preamble, for so many bits. -/
def symbols (bits : Int) (q cr : Nat) : Nat :=
  if 0 < bits then (bits.toNat + q - 1) / q * (cr + 5) + 8 else 8

def calcAirTime (rps : BitVec 16) (plen : Byte) : BitVec 64 :=
  let sf := (rps &&& 7).toNat
  let bw := (rps >>> 3 &&& 3).toNat
  if sf = 0 then BitVec.ofNat 64 ((plen.toNat + 11) * 8 * ostickSec / 50000)
  else
    let sfx := 4 * (sf + 6)
    let q := sfx - if 5 ≤ sf then 8 else 0
    let tmp : Int := 8 * plen.toNat - sfx + 28 + (if rps >>> 7 &&& 1 ≠ 0 then 0 else 16) -
      (if rps >>> 8 ≠ 0 then 20 else 0)
    let quarters := 4 * symbols tmp q (rps >>> 5 &&& 3).toNat + 49
    -- the shift is cut to 4, and the divisor with it
    let shift := sf + 1 - bw
    let div := 15625 >>> (shift - 4)
    BitVec.ofNat 64 (((quarters <<< min shift 4) * ostickSec + div / 2) / div)

/-- `setCr(updr2rps(dr), cr)`. -/
def upRps (dr cr : Byte) : Result (BitVec 16) := do
  let rps ← load dr2rpsCrc (dr.toNat + 1)
  pure ((rps.setWidth 16 &&& ~~~0x60#16) ||| cr.setWidth 16 <<< 5)

/-! ## The engine -/

/-- What is sent, as far as it is counted: the band, the begin, the time on air, and how many
    times that the band is blocked. -/
structure Tx where
  band : Nat
  beg : BitVec 64
  airtime : BitVec 64
  txcap : BitVec 16
deriving DecidableEq, Repr

namespace Sched

/-- `updateTx`. -/
def updateTx (s : Sched) (txbeg : BitVec 64) : Sched × Tx :=
  let b := s.bandOf s.txChnl
  let airtime := calcAirTime s.rps s.dataLen
  ({ s with
    bands := s.bands.set b { s.band b with
      avail := txbeg + airtime * (s.band b).txcap.setWidth 64 }
    globalDutyAvail :=
      if s.globalDutyRate ≠ 0 then txbeg + airtime <<< s.globalDutyRate.toNat
      else s.globalDutyAvail },
   ⟨b, txbeg, airtime, (s.band b).txcap⟩)

/-- `txDelay`, with what `rndDelay` returns. -/
def txDelay (s : Sched) (reftime rnd : BitVec 64) : Sched :=
  let reftime := reftime + rnd
  if s.globalDutyRate = 0 ∨ 0 < reftime - s.globalDutyAvail then
    { s with globalDutyAvail := reftime, opmode := s.opmode ||| opRndtx }
  else s

/-- The channel and the time for a transmission. -/
def pendingTx (s : Sched) (now : BitVec 64) : Result (BitVec 64 × Sched) :=
  if s.opmode &&& opNextchnl ≠ 0 then do
    let r ← s.nextTx now
    pure (r.1, { r.2 with txend := r.1, opmode := r.2.opmode &&& ~~~opNextchnl })
  else pure (s.txend, s)

/-- The wait for the duty cycle of all bands. -/
def dutyTime (s : Sched) (txbeg : BitVec 64) : BitVec 64 :=
  if (s.globalDutyRate ≠ 0 ∨ s.opmode &&& opRndtx ≠ 0) ∧ txbeg < s.globalDutyAvail then
    s.globalDutyAvail
  else txbeg

/-- A beacon is tracked, and there is no time before it.  The times are unsigned. -/
def beaconClose (s : Sched) (txbeg : BitVec 64) : Bool :=
  let guard := if s.opmode &&& (opJoining ||| opRejoin) ≠ 0 then 9000 else 6000
  decide (s.opmode &&& opTrack ≠ 0 ∧
    0 < txbeg + BitVec.ofNat 64 (ms2osticks guard) - (s.bcnRxtime - rampup))

/-- `engineUpdate` up to the radio, with what `rndDelay` returns, and the data rate and the length
    of the frame that is built: whether it sends. -/
def engineUpdate (s : Sched) (now rnd : BitVec 64) (txdr dlen : Byte) :
    Result (Sched × Option Tx) := do
  if s.opmode &&& (opScan ||| opTxrxpend ||| opShutdown) ≠ 0 then pure (s, none)
  -- the assertion that the beacon is not missed
  else if s.opmode &&& opTrack ≠ 0 ∧ 0 < now + rampup - s.bcnRxtime then throw .diverged
  else if s.opmode &&& (opJoining ||| opRejoin ||| opTxdata ||| opPoll) = 0 then pure (s, none)
  else
    let r ← s.pendingTx now
    let s := r.2
    let txbeg := s.dutyTime r.1
    if s.beaconClose txbeg then
      pure (s.txDelay (s.bcnRxtime - rampup + BitVec.ofNat 64 (ms2osticks 2120)) rnd, none)
    else if txbeg < now + rampup then
      let rps ← upRps txdr s.errcr
      let r := updateTx { s with
        rps := rps
        dataLen := dlen
        opmode := (s.opmode &&& ~~~(opPoll ||| opRndtx)) ||| opTxrxpend ||| opNextchnl } now
      pure (r.1, some r.2)
    else pure (s, none)

end Sched
end LuaRtos.Lmic
