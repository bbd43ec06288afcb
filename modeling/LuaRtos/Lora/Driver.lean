/-
  LuaRtos.Lora.Driver

  The LoRa WAN driver, drivers/lora_lmic.c.

  The calls that wait for an event of LMIC are in two parts, before and after the
  wait; what LMIC does meanwhile reaches the driver through `onEvent`.  A call
  that blocks for ever does not come to an end, which is `Fault.diverged`.

  Of LMIC there are the fields that the driver reads and those that its data frames
  are made of.
-/

import LuaRtos.Lora.Hex

namespace LuaRtos.Lora

open LuaRtos.CLib

/-! ## Data -/

/-- The exceptions of the driver. -/
inductive LoraErr where
  | keysNotConfigured
  | joinDenied
  | unexpectedResponse
  | notJoined
  | notSetup
  | noMem
  | abpExpected
  | cantSetup
  | transmissionFailAckNotReceived
  | invalidArgument
deriving DecidableEq, Repr

/-- A `driver_error_t` with its message, if it has one. -/
structure DriverError where
  exception : LoraErr
  msg : Option String
deriving DecidableEq, Repr

/-- `struct lmic_t`; of `pendTxData` the bytes that are to be sent. -/
structure Lmic where
  netid : BitVec 32
  opmode : BitVec 16
  datarate : Byte
  devaddr : List Byte
  nwkKey : List Byte
  artKey : List Byte
  seqnoUp : BitVec 32
  /-- What confirms the downlink: FCT_ACK or 0. -/
  dnConf : Byte
  dn2Dr : Byte
  adrEnabled : Byte
  adrAckReq : Int
  adrChanged : Byte
  txAttempts : Byte
  /-- The transmissions of a confirmed uplink so far. -/
  txCnt : Byte
  pendTxPort : Byte
  pendTxConf : Byte
  pendTxData : List Byte
  -- answers to MAC commands
  dutyCapAns : Byte
  dn2Ans : Byte
  devsAns : Byte
  margin : Byte
  ladrAns : Byte
  bcninfoTries : Byte
  pingSetAns : Byte
  snchAns : Byte
  pingDr : Byte
  pingIntvExp : Byte
  txrxFlags : Byte
  dataLen : Byte
  dataBeg : Byte
  frame : List Byte
deriving DecidableEq, Repr

/-- `ev_t`. -/
inductive Ev where
  | scanTimeout
  | beaconFound
  | beaconMissed
  | beaconTracked
  | joining
  | joined
  | rfu1
  | joinFailed
  | rejoinFailed
  | txcomplete
  | lostTsync
  | reset
  | rxcomplete
  | linkDead
  | linkAlive
deriving DecidableEq, Repr

/-- The variables of the driver.  DEVADDR is its four bytes in memory. -/
structure Driver where
  /-- Somebody holds `lora_mtx`. -/
  locked : Bool
  /-- The bits of `loraEvent`. -/
  bits : BitVec 8
  appeui : List Byte
  deveui : List Byte
  appkey : List Byte
  joined : Bool
  devaddr : List Byte
  nwkskey : List Byte
  appskey : List Byte
  sessionInit : Bool
  msgid : BitVec 32
  setup : Bool
  currentBand : Int
  /-- `lora_rx_callback` is not NULL. -/
  rxCallback : Bool
  currentDr : Byte
  adr : Bool
  lmic : Lmic
deriving DecidableEq, Repr

def evLoraInited : BitVec 8 := 1
def evLoraJoined : BitVec 8 := 2
def evLoraJoinDenied : BitVec 8 := 4
def evLoraTxComplete : BitVec 8 := 8
def evLoraAckNotReceived : BitVec 8 := 16

def txrxAck : Byte := 0x80
def txrxNack : Byte := 0x40
def txrxNoport : Byte := 0x20
def txrxPort : Byte := 0x10
def txrxDnw1 : Byte := 0x01
def fctAdren : Byte := 0x80
def drSf12 : Byte := 0
def drSf9 : Byte := 3
def drSf7 : Byte := 5
def drPing : Byte := drSf9
def linkCheckInit : Int := -12
def linkCheckOff : Int := -128
def maxLenPayload : Nat := 52
def txconfAttempts : Byte := 8

def opScan : BitVec 16 := 0x0001
def opTrack : BitVec 16 := 0x0002
def opJoining : BitVec 16 := 0x0004
def opTxdata : BitVec 16 := 0x0008
def opPoll : BitVec 16 := 0x0010
def opRejoin : BitVec 16 := 0x0020
def opShutdown : BitVec 16 := 0x0040
def opTxrxpend : BitVec 16 := 0x0080
def opRndtx : BitVec 16 := 0x0100
def opPingini : BitVec 16 := 0x0200
def opPingable : BitVec 16 := 0x0400
def opNextchnl : BitVec 16 := 0x0800
def opLinkdead : BitVec 16 := 0x1000

/-- `data_rates`: DR_SF12 to DR_FSK of the EU 868 band. -/
def dataRates : List Byte := [0, 1, 2, 3, 4, 5, 6, 7]

/-- `malloc`: a block of the size asked for, if there is memory. -/
abbrev Malloc := (n : Nat) → Option (Block n)

/-- A memory that never runs out. -/
def plenty : Malloc := fun n => some (freshBlock n)

/-- `driver_operation_error`. -/
def operationError (exception : LoraErr) (msg : Option String) : Option DriverError :=
  some ⟨exception, msg⟩

/-- `atoi` on digits. -/
def atoi (s : List Byte) : Result Nat := do
  let s ← readStr s
  pure ((s.takeWhile fun c => 48 ≤ c && c ≤ 57).foldl (fun n c => 10 * n + (c.toNat - 48)) 0)

/-- `sprintf(s, "%d", n)`. -/
def sprintfD (s : List Byte) (n : Nat) : Result (List Byte) :=
  let digits := chars (toString n)
  if digits.length < s.length then pure (digits ++ nul :: s.drop (digits.length + 1))
  else throw .outOfBounds

/-! ## LMIC -/

section Lmic

/-- The key is not set. -/
def isZero (key : List Byte) : Bool := key.all fun b => b = 0

/-- `stateJustJoined`. -/
def stateJustJoined (l : Lmic) : Lmic :=
  { l with
    seqnoUp := 0
    dnConf := 0
    adrChanged := 0
    ladrAns := 0
    devsAns := 0
    snchAns := 0
    dn2Ans := 0
    dutyCapAns := 0
    pingSetAns := 0
    adrAckReq := linkCheckInit
    dn2Dr := drSf12
    pingDr := drPing }

/-- `LMIC_setSession`. -/
def lmicSetSession (l : Lmic) (netid : BitVec 32) (devaddr nwkKey artKey : List Byte) : Lmic :=
  stateJustJoined { l with
    netid := netid
    devaddr := devaddr
    nwkKey := nwkKey
    artKey := artKey
    opmode :=
      (l.opmode &&& ~~~(opJoining ||| opTrack ||| opRejoin ||| opTxrxpend ||| opPingini)) |||
        opNextchnl }

/-- `LMIC_startJoining`, which does nothing in a session. -/
def lmicStartJoining (l : Lmic) : Lmic :=
  if isZero l.devaddr then
    { l with
      opmode := (l.opmode &&& ~~~(opScan ||| opRejoin ||| opLinkdead ||| opNextchnl)) ||| opJoining
      txCnt := 0
      -- initJoinLoop
      datarate := drSf7 }
  else l

/-- `LMIC_setDrTxpow`. -/
def lmicSetDrTxpow (l : Lmic) (dr : Byte) : Lmic :=
  if l.datarate ≠ dr then { l with datarate := dr, opmode := l.opmode ||| opNextchnl } else l

/-- `LMIC_setAdrMode`. -/
def lmicSetAdrMode (l : Lmic) (enabled : Bool) : Lmic :=
  { l with adrEnabled := if enabled then fctAdren else 0 }

/-- `LMIC_setLinkCheckMode`. -/
def lmicSetLinkCheckMode (l : Lmic) (enabled : Bool) : Lmic :=
  { l with adrChanged := 0, adrAckReq := if enabled then linkCheckInit else linkCheckOff }

/-- `LMIC_setTxData` up to `engineUpdate`. -/
def lmicSetTxData (l : Lmic) : Lmic :=
  let opmode := l.opmode ||| opTxdata
  -- cancel any ongoing TX/RX retries
  { l with opmode := opmode, txCnt := if opmode &&& opJoining = 0 then 0 else l.txCnt }

/-- `LMIC_setTxData2`, which leaves the frame to be sent; a payload that is too
    long is refused. -/
def lmicSetTxData2 (l : Lmic) (port : Int) (data : List Byte) (confirmed : Int) : Lmic :=
  if data.length > maxLenPayload then l
  else lmicSetTxData { l with
    pendTxData := data
    pendTxConf := BitVec.ofInt 8 confirmed
    pendTxPort := BitVec.ofInt 8 port }

/-- `os_clearMem(&LMIC)`. -/
def lmicClear : Lmic where
  netid := 0
  opmode := 0
  datarate := 0
  devaddr := List.replicate 4 0
  nwkKey := List.replicate 16 0
  artKey := List.replicate 16 0
  seqnoUp := 0
  dnConf := 0
  dn2Dr := 0
  adrEnabled := 0
  adrAckReq := 0
  adrChanged := 0
  txAttempts := 0
  txCnt := 0
  pendTxPort := 0
  pendTxConf := 0
  pendTxData := []
  dutyCapAns := 0
  dn2Ans := 0
  devsAns := 0
  margin := 0
  ladrAns := 0
  bcninfoTries := 0
  pingSetAns := 0
  snchAns := 0
  pingDr := 0
  pingIntvExp := 0
  txrxFlags := 0
  dataLen := 0
  dataBeg := 0
  frame := List.replicate 64 0

/-- `LMIC_reset`. -/
def lmicReset : Lmic :=
  { lmicClear with
    adrEnabled := fctAdren, dn2Dr := drSf12, pingDr := drPing, pingIntvExp := 0xFF }

/-- `LMIC_init`. -/
def lmicInit (l : Lmic) : Lmic := { l with opmode := opShutdown, txAttempts := txconfAttempts }

end Lmic

/-- The driver after a reset of the board.  DEVEUI may come from the flash, and
    the message id lives through a deep sleep. -/
def Driver.off (deveui : List Byte) (msgid : BitVec 32) (l : Lmic) : Driver where
  locked := false
  bits := 0
  appeui := List.replicate 8 0
  deveui := deveui
  appkey := List.replicate 16 0
  joined := false
  devaddr := List.replicate 4 0
  nwkskey := List.replicate 16 0
  appskey := List.replicate 16 0
  sessionInit := false
  msgid := msgid
  setup := false
  currentBand := 0
  rxCallback := false
  currentDr := 0
  adr := false
  lmic := l

/-! ## Events -/

/-- `xEventGroupSetBits`. -/
def setBits (d : Driver) (bits : BitVec 8) : Driver := { d with bits := d.bits ||| bits }

/-- The calls of the receive callback, each with its port and the string it is
    given. -/
def onData (malloc : Malloc) (d : Driver) : Result (List (Int × List Byte)) :=
  if d.lmic.dataLen ≠ 0 ∧ d.rxCallback then
    match malloc (d.lmic.dataLen.toNat * 2 + 1) with
    | some payload => do
      -- coding payload into an hex string
      let payload ← valToHexString payload.bytes (d.lmic.frame.drop d.lmic.dataBeg.toNat)
        d.lmic.dataLen.toNat false
      let payload ← store payload (d.lmic.dataLen.toNat * 2) nul
      -- the callback reads its argument up to the terminator
      let text ← readStr payload
      pure [(1, text)]
    | none => pure []
  else pure []

/-- The outcome of a confirmed uplink. -/
def onAck (d : Driver) : Driver :=
  let d' := if d.lmic.txrxFlags &&& txrxAck ≠ 0 then setBits d evLoraTxComplete else d
  if d.lmic.txrxFlags &&& txrxNack ≠ 0 then setBits d' evLoraAckNotReceived else d'

/-- EV_TXCOMPLETE. -/
def onTxcomplete (malloc : Malloc) (d : Driver) : Result (Driver × List (Int × List Byte)) :=
  if d.lmic.pendTxConf ≠ 0 then pure (onAck d, [])
  else do
    let calls ← onData malloc d
    pure (setBits d evLoraTxComplete, calls)

/-- `onEvent`. -/
def onEvent (malloc : Malloc) (d : Driver) (ev : Ev) : Result (Driver × List (Int × List Byte)) :=
  match ev with
  | .joining => pure ({ d with joined := false }, [])
  | .joined =>
    let d := setBits { d with joined := true } evLoraJoined
    pure ({ d with lmic := { d.lmic with dn2Dr := drSf9 } }, [])
  | .joinFailed => pure (setBits { d with joined := false } evLoraJoinDenied, [])
  | .rejoinFailed => pure ({ d with joined := false }, [])
  | .txcomplete => onTxcomplete malloc d
  | .scanTimeout | .beaconFound | .beaconMissed | .beaconTracked | .rfu1 | .lostTsync | .reset
  | .rxcomplete | .linkDead | .linkAlive => pure (d, [])

/-- `lora_init`, the first job. -/
def loraInit (d : Driver) : Driver :=
  let l := lmicSetLinkCheckMode lmicReset false
  let l := lmicSetAdrMode l false
  setBits { d with adr := false, currentDr := drSf12, lmic := { l with dn2Dr := drSf9 } }
    evLoraInited

/-! ## The calls -/

/-- `mtx_lock(&lora_mtx)`. -/
def mtxLock (d : Driver) : Result Driver :=
  if d.locked then throw .diverged else pure { d with locked := true }

/-- `mtx_unlock(&lora_mtx)`. -/
def mtxUnlock (d : Driver) : Driver := { d with locked := false }

/-- `xEventGroupWaitBits` for any bit of the mask, which are cleared on exit: the
    bits as they were. -/
def waitBits (d : Driver) (mask : BitVec 8) : Option (BitVec 8 × Driver) :=
  if d.bits &&& mask = 0 then none
  else some (d.bits, { d with bits := d.bits &&& ~~~mask })

/-- `lora_must_join()`. -/
def loraMustJoin (d : Driver) : Bool := isZero d.devaddr && isZero d.appskey && isZero d.appskey

/-- `lora_can_participate_otaa()`. -/
def loraCanParticipateOtaa (d : Driver) : Bool :=
  !isZero d.appeui && !isZero d.deveui && !isZero d.appkey

/-- `lora_can_participate_abp()`. -/
def loraCanParticipateAbp (d : Driver) : Bool :=
  !isZero d.devaddr && !isZero d.appskey && !isZero d.appskey

/-- A call that waits for LMIC. -/
inductive Waiter where
  | setup
  | join
  | tx
deriving DecidableEq, Repr

/-- The bits of which it waits for one. -/
def Waiter.mask : Waiter → BitVec 8
  | .setup => evLoraInited
  | .join => evLoraJoined ||| evLoraJoinDenied
  | .tx => evLoraTxComplete ||| evLoraAckNotReceived

/-- Where a call is that may have to wait. -/
inductive Begun where
  | returned (error : Option DriverError) (d : Driver)
  | waiting (w : Waiter) (d : Driver)

/-- The part of `lora_setup` after the sanity checks, up to the wait; `osInit` is
    what `os_init` returns. -/
def loraSetupStart (d : Driver) (osInit : Option DriverError) : Begun :=
  if !d.setup then
    match osInit with
    | none => .waiting .setup { d with bits := 0, lmic := lmicInit d.lmic }
    | some error => .returned (some error) (mtxUnlock { d with setup := false })
  else .returned none (mtxUnlock { d with setup := true })

/-- `lora_setup` up to the wait. -/
def loraSetupBegin (d : Driver) (band : Int) (osInit : Option DriverError) : Result Begun := do
  let d ← mtxLock d
  if d.currentBand = 0 then pure (loraSetupStart { d with currentBand := band } osInit)
  else if d.currentBand ≠ band then
    -- there is no unlock here
    pure (.returned (some ⟨.cantSetup, "you must reset your board for change ISM band"⟩) d)
  else pure (loraSetupStart d osInit)

/-- `lora_setup` after the wait. -/
def loraSetupEnd (d : Driver) : Option DriverError × Driver :=
  (none, mtxUnlock { d with setup := true })

/-- The commands of `lora_mac_set`. -/
inductive MacSet where
  | devaddr
  | deveui
  | appeui
  | nwkskey
  | appskey
  | appkey
  | dr
  | adr
  | linkchk
  | retx
  /-- No case of the switch. -/
  | other
deriving DecidableEq, Repr

/-- The switch of `lora_mac_set`; `flashId` is CONFIG_LUA_RTOS_READ_FLASH_UNIQUE_ID. -/
def loraMacSwitch (flashId : Bool) (d : Driver) (command : MacSet) (value : List Byte) :
    Result (Option DriverError × Driver) :=
  match command with
  | .devaddr => do
    let v ← hexStringToVal value 4 true
    pure (none, mtxUnlock { d with devaddr := v })
  | .deveui =>
    if flashId then
      pure (operationError .invalidArgument "in this board DevEui is assigned automatically",
        mtxUnlock d)
    else do
      -- DEVEUI must be in little-endian format
      let v ← hexStringToVal value 8 true
      pure (none, mtxUnlock { d with deveui := v })
  | .appeui =>
    if flashId then pure (none, mtxUnlock d)
    else do
      -- APPEUI must be in little-endian format
      let v ← hexStringToVal value 8 true
      pure (none, mtxUnlock { d with appeui := v })
  | .nwkskey => do
    let v ← hexStringToVal value 16 false
    pure (none, mtxUnlock { d with nwkskey := v })
  | .appskey => do
    let v ← hexStringToVal value 16 false
    pure (none, mtxUnlock { d with appskey := v })
  | .appkey => do
    -- APPKEY must be in big-endian format
    let v ← hexStringToVal value 16 false
    pure (none, mtxUnlock { d with appkey := v })
  | .dr => do
    let i ← atoi value
    let dr ← load dataRates i
    pure (none, mtxUnlock { d with currentDr := dr })
  | .adr => do
    let on ← strcmp value (lit "on")
    pure (none, mtxUnlock { d with
      adr := decide (on = 0), lmic := lmicSetAdrMode d.lmic (decide (on = 0)) })
  | .linkchk => do
    let on ← strcmp value (lit "on")
    pure (none, mtxUnlock { d with lmic := lmicSetLinkCheckMode d.lmic (decide (on = 0)) })
  | .retx => do
    let n ← atoi value
    pure (none, mtxUnlock { d with lmic := { d.lmic with txAttempts := BitVec.ofNat 8 n } })
  | .other => pure (none, mtxUnlock d)

/-- `lora_mac_set`. -/
def loraMacSet (flashId : Bool) (d : Driver) (command : MacSet) (value : List Byte) :
    Result (Option DriverError × Driver) := do
  let d ← mtxLock d
  if !d.setup then pure (operationError .notSetup none, mtxUnlock d)
  else loraMacSwitch flashId d command value

/-- The commands of `lora_mac_get`. -/
inductive MacGet where
  | devaddr
  | deveui
  | appeui
  | dr
  | adr
  | linkchk
  | retx
  /-- No case of the switch. -/
  | other
deriving DecidableEq, Repr

/-- A buffer that is written without a test whether there is one. -/
def unchecked {n : Nat} : Option (Block n) → Result (List Byte)
  | some b => pure b.bytes
  | none => throw .nullDeref

/-- `if (result) ...`: a buffer that is written if there is one. -/
def ifAlloc {n : Nat} (b : Option (Block n)) (write : List Byte → Result (List Byte)) :
    Result (Option (List Byte)) :=
  match b with
  | some b => do
    let bytes ← write b.bytes
    pure (some bytes)
  | none => pure none

/-- "on" or "off". -/
def onOff (malloc : Malloc) (on : Bool) : Result (Option (List Byte)) :=
  if on then ifAlloc (malloc 3) fun b => strcpy b (lit "on")
  else ifAlloc (malloc 4) fun b => strcpy b (lit "off")

/-- The switch of `lora_mac_get`: `result`, none for NULL. -/
def loraMacResult (malloc : Malloc) (d : Driver) : MacGet → Result (Option (List Byte))
  | .devaddr => pure none
  | .deveui => do
    let result ← unchecked (malloc 17)
    -- DEVEUI is in little-endian format
    let result ← valToHexString result d.deveui 8 true
    pure (some result)
  | .appeui => do
    let result ← unchecked (malloc 17)
    -- APPEUI is in little-endian format
    let result ← valToHexString result d.appeui 8 true
    pure (some result)
  | .dr => ifAlloc (malloc 2) fun b => sprintfD b d.currentDr.toNat
  | .adr => onOff malloc (decide (d.lmic.adrEnabled ≠ 0))
  | .linkchk => onOff malloc (decide (d.lmic.adrAckReq = linkCheckInit))
  | .retx => ifAlloc (malloc 2) fun b => sprintfD b d.lmic.txAttempts.toNat
  | .other => pure none

/-- `lora_mac_get`: `*value`. -/
def loraMacGet (malloc : Malloc) (d : Driver) (command : MacGet) :
    Result (Option (List Byte) × Driver) := do
  let d ← mtxLock d
  let result ← loraMacResult malloc d command
  pure (result, mtxUnlock d)

/-- `if (!adr) LMIC_setDrTxpow(current_dr, 14)`. -/
def loraSetDr (d : Driver) : Driver :=
  { d with lmic := if d.adr then d.lmic else lmicSetDrTxpow d.lmic d.currentDr }

/-- `lora_join` up to the wait. -/
def loraJoinBegin (d : Driver) : Result Begun := do
  let d ← mtxLock d
  if !d.setup then pure (.returned (operationError .notSetup none) (mtxUnlock d))
  else if !loraMustJoin d then pure (.returned (operationError .abpExpected none) (mtxUnlock d))
  else if !loraCanParticipateOtaa d then
    pure (.returned (operationError .keysNotConfigured none) (mtxUnlock d))
  else if d.joined then pure (.returned none (mtxUnlock d))
  else
    let d := loraSetDr { d with msgid := 0 }
    pure (.waiting .join { d with lmic := lmicStartJoining d.lmic })

/-- `lora_join` after the wait, which gave `uxBits`. -/
def loraJoinEnd (d : Driver) (uxBits : BitVec 8) : Option DriverError × Driver :=
  if uxBits &&& evLoraJoined ≠ 0 then (none, mtxUnlock d)
  else if uxBits &&& evLoraJoinDenied ≠ 0 then (operationError .notJoined none, mtxUnlock d)
  else (operationError .unexpectedResponse none, mtxUnlock d)

/-- The guard of `lora_tx`: the error that it returns with, if any. -/
def loraTxGuard (d : Driver) : Option DriverError :=
  if loraMustJoin d then
    if loraCanParticipateOtaa d then
      if !d.joined then operationError .notJoined none else none
    else operationError .keysNotConfigured none
  else if !loraCanParticipateAbp d then operationError .keysNotConfigured none
  else none

/-- The session of a node that need not join, installed once. -/
def loraTxSession (d : Driver) : Driver :=
  if loraMustJoin d || d.sessionInit then d
  else
    let l := lmicSetSession d.lmic 1 d.devaddr d.nwkskey d.appskey
    { d with lmic := { l with dn2Dr := drSf9 }, sessionInit := true }

/-- `lora_tx` up to the wait. -/
def loraTxBegin (malloc : Malloc) (d : Driver) (cnf port : Int) (data : List Byte) :
    Result Begun := do
  let d ← mtxLock d
  if !d.setup then pure (.returned (operationError .notSetup none) (mtxUnlock d))
  else match loraTxGuard d with
    | some error => pure (.returned (some error) (mtxUnlock d))
    | none => do
      let d := loraTxSession d
      let len ← strlen data
      let payloadLen := len / 2 % 256
      match malloc (payloadLen + 1) with
      | none => pure (.returned (operationError .noMem none) (mtxUnlock d))
      | some _ => do
        let payload ← hexStringToVal data payloadLen false
        -- put message id
        let d := { d with msgid := d.msgid + 1 }
        let d := loraSetDr { d with lmic := { d.lmic with seqnoUp := d.msgid } }
        pure (.waiting .tx { d with lmic := lmicSetTxData2 d.lmic port payload cnf })

/-- `lora_tx` after the wait, which gave `uxBits`. -/
def loraTxEnd (d : Driver) (uxBits : BitVec 8) : Option DriverError × Driver :=
  if uxBits &&& evLoraTxComplete ≠ 0 then (none, mtxUnlock d)
  else if uxBits &&& evLoraAckNotReceived ≠ 0 then
    (operationError .transmissionFailAckNotReceived none, mtxUnlock d)
  else (operationError .unexpectedResponse none, mtxUnlock d)

/-- The rest of a call whose wait gave `uxBits`. -/
def Waiter.finish (w : Waiter) (d : Driver) (uxBits : BitVec 8) : Option DriverError × Driver :=
  match w with
  | .setup => loraSetupEnd d
  | .join => loraJoinEnd d uxBits
  | .tx => loraTxEnd d uxBits

/-- `lora_set_rx_callback`. -/
def loraSetRxCallback (d : Driver) (callback : Bool) : Result Driver := do
  let d ← mtxLock d
  pure (mtxUnlock { d with rxCallback := callback })

end LuaRtos.Lora
