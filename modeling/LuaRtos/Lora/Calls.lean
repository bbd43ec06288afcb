/-
  LuaRtos.Lora.Calls

  What each call of the driver and each event do to the mutex, to `joined`, to the
  bits of `loraEvent` and to the session of LMIC.

  Every call but `lora_setup` keeps `joined` and the bits, and gives the mutex back
  when it returns.  No call but `lora_tx` touches the session.
-/

import LuaRtos.Lora.Driver

namespace LuaRtos.Lora

open LuaRtos.CLib

/-- The driver where a call has got to. -/
def Begun.driver : Begun → Driver
  | .returned _ d => d
  | .waiting _ d => d

/-- A call that has returned has given the mutex back, one that waits holds it. -/
def Begun.Released : Begun → Prop
  | .returned _ d => d.locked = false
  | .waiting _ d => d.locked = true

/-- The call begins to wait. -/
def waits : Result Begun → Bool
  | .ok (.waiting _ _) => true
  | _ => false

/-- What LMIC sends its uplinks under. -/
structure Session where
  devaddr : List Byte
  nwkKey : List Byte
  artKey : List Byte
  seqnoUp : BitVec 32
deriving DecidableEq, Repr

def Lmic.session (l : Lmic) : Session := ⟨l.devaddr, l.nwkKey, l.artKey, l.seqnoUp⟩

/-- Nothing has been joined or left, no bit set or cleared, and the session of LMIC goes
    on. -/
structure Kept (d d' : Driver) : Prop where
  joined : d'.joined = d.joined
  bits : d'.bits = d.bits
  session : d'.lmic.session = d.lmic.session

variable {d d' : Driver} {b : Begun} {malloc : Malloc}

theorem mtxLock_eq_ok (h : mtxLock d = .ok d') :
    d.locked = false ∧ d' = { d with locked := true } := by
  unfold mtxLock at h
  split at h
  · cases h
  · next hfree => exact ⟨by simpa using hfree, (Except.ok.inj h).symm⟩

/-- A call begins with the mutex free. -/
theorem free_of_bind {α : Type} {f : Driver → Result α} {x : α}
    (h : (mtxLock d >>= f) = .ok x) : d.locked = false := by
  obtain ⟨d', hlock, -⟩ := bind_eq_ok.mp h
  exact (mtxLock_eq_ok hlock).1

/-! ## lora_setup -/

section Setup

variable {band : Int} {osInit : Option DriverError}

/-- The band is not in use yet, or it is the one in use. -/
def BandKept (d : Driver) (band : Int) : Prop := d.currentBand = 0 ∨ d.currentBand = band

instance (d : Driver) (band : Int) : Decidable (BandKept d band) :=
  inferInstanceAs (Decidable (_ ∨ _))

/-- What `lora_setup` makes of the bits: it waits with none of them set. -/
def SetupBits (d : Driver) : Begun → Prop
  | .returned _ d' => d'.bits = d.bits
  | .waiting w d' => w = .setup ∧ d'.bits = 0 ∧ d'.locked = true

theorem loraSetupStart_spec (osInit : Option DriverError) (h : d.locked = true) :
    (loraSetupStart d osInit).Released ∧
      ((loraSetupStart d osInit).driver.joined = d.joined ∧
        (loraSetupStart d osInit).driver.lmic.session = d.lmic.session) ∧
      SetupBits d (loraSetupStart d osInit) := by
  unfold loraSetupStart
  split
  · cases osInit with
    | none => exact ⟨h, ⟨rfl, rfl⟩, rfl, rfl, h⟩
    | some error => exact ⟨rfl, ⟨rfl, rfl⟩, rfl⟩
  · exact ⟨rfl, ⟨rfl, rfl⟩, rfl⟩

/-- Another band is refused with the mutex held. -/
theorem loraSetupBegin_spec (h : loraSetupBegin d band osInit = .ok b) :
    (b.driver.joined = d.joined ∧ b.driver.lmic.session = d.lmic.session) ∧ SetupBits d b ∧
      (BandKept d band → b.Released) ∧
      (¬ BandKept d band → ∃ e, b = .returned e { d with locked := true }) := by
  obtain ⟨d₁, hlock, h⟩ := bind_eq_ok.mp h
  obtain ⟨-, rfl⟩ := mtxLock_eq_ok hlock
  dsimp only at h
  split at h
  · next hzero =>
    cases h
    obtain ⟨hreleased, hkept, hbits⟩ := loraSetupStart_spec osInit
      (d := { d with locked := true, currentBand := band }) rfl
    exact ⟨hkept, hbits, fun _ => hreleased, fun hbad => absurd (.inl hzero) hbad⟩
  · next hzero =>
    split at h
    · next hother =>
      cases h
      exact ⟨⟨rfl, rfl⟩, rfl, fun hband => absurd hband (not_or.mpr ⟨hzero, hother⟩),
        fun _ => ⟨_, rfl⟩⟩
    · next hsame =>
      cases h
      obtain ⟨hreleased, hkept, hbits⟩ := loraSetupStart_spec osInit
        (d := { d with locked := true }) rfl
      exact ⟨hkept, hbits, fun _ => hreleased, fun hbad => absurd (.inr (not_not.mp hsame)) hbad⟩

end Setup

/-! ## Calls that do not wait -/

section MacSet

variable {flashId : Bool} {command : MacSet} {value : List Byte}
  {r : Option DriverError × Driver}

theorem loraMacSwitch_spec (h : loraMacSwitch flashId d command value = .ok r) :
    r.2.locked = false ∧ Kept d r.2 := by
  cases command with
  | devaddr | nwkskey | appskey | appkey | adr | linkchk | retx =>
    obtain ⟨v, -, h⟩ := bind_eq_ok.mp h
    cases h
    exact ⟨rfl, rfl, rfl, rfl⟩
  | deveui | appeui =>
    dsimp only [loraMacSwitch] at h
    split at h
    · cases h
      exact ⟨rfl, rfl, rfl, rfl⟩
    · obtain ⟨v, -, h⟩ := bind_eq_ok.mp h
      cases h
      exact ⟨rfl, rfl, rfl, rfl⟩
  | dr =>
    obtain ⟨i, -, h⟩ := bind_eq_ok.mp h
    obtain ⟨dr, -, h⟩ := bind_eq_ok.mp h
    cases h
    exact ⟨rfl, rfl, rfl, rfl⟩
  | other =>
    cases h
    exact ⟨rfl, rfl, rfl, rfl⟩

theorem loraMacSet_spec (h : loraMacSet flashId d command value = .ok r) :
    r.2.locked = false ∧ Kept d r.2 := by
  obtain ⟨d₁, hlock, h⟩ := bind_eq_ok.mp h
  obtain ⟨-, rfl⟩ := mtxLock_eq_ok hlock
  split at h
  · cases h
    exact ⟨rfl, rfl, rfl, rfl⟩
  · exact loraMacSwitch_spec h

end MacSet

theorem loraMacGet_spec {command : MacGet} {r : Option (List Byte) × Driver}
    (h : loraMacGet malloc d command = .ok r) : r.2.locked = false ∧ Kept d r.2 := by
  obtain ⟨d₁, hlock, h⟩ := bind_eq_ok.mp h
  obtain ⟨-, rfl⟩ := mtxLock_eq_ok hlock
  obtain ⟨result, -, h⟩ := bind_eq_ok.mp h
  cases h
  exact ⟨rfl, rfl, rfl, rfl⟩

theorem loraSetRxCallback_spec {callback : Bool} (h : loraSetRxCallback d callback = .ok d') :
    d'.locked = false ∧ Kept d d' := by
  obtain ⟨d₁, hlock, h⟩ := bind_eq_ok.mp h
  obtain ⟨-, rfl⟩ := mtxLock_eq_ok hlock
  cases h
  exact ⟨rfl, rfl, rfl, rfl⟩

/-! ## Calls that wait -/

theorem lmicStartJoining_session (l : Lmic) : (lmicStartJoining l).session = l.session := by
  unfold lmicStartJoining
  split <;> rfl

theorem lmicSetDrTxpow_session (l : Lmic) (dr : Byte) :
    (lmicSetDrTxpow l dr).session = l.session := by
  unfold lmicSetDrTxpow
  split <;> rfl

theorem loraSetDr_session (d : Driver) : (loraSetDr d).lmic.session = d.lmic.session := by
  dsimp only [loraSetDr]
  split
  · rfl
  · exact lmicSetDrTxpow_session _ _

/-- `lora_join` returns before it has done anything, or it waits with the message id set
    back. -/
theorem loraJoinBegin_cases (h : loraJoinBegin d = .ok b) :
    (∃ e, b = .returned e { d with locked := false }) ∨
      ∃ l, b = .waiting .join { d with locked := true, msgid := 0, lmic := l } ∧
        l.session = d.lmic.session := by
  obtain ⟨d₁, hlock, h⟩ := bind_eq_ok.mp h
  obtain ⟨-, rfl⟩ := mtxLock_eq_ok hlock
  repeat' split at h
  all_goals cases h
  case isFalse.isFalse.isFalse.isFalse =>
    refine .inr ⟨_, rfl, ?_⟩
    rw [lmicStartJoining_session, loraSetDr_session]
  all_goals exact .inl ⟨_, rfl⟩

theorem loraJoinBegin_spec (h : loraJoinBegin d = .ok b) : b.Released ∧ Kept d b.driver := by
  obtain ⟨e, rfl⟩ | ⟨l, rfl, hsession⟩ := loraJoinBegin_cases h
  · exact ⟨rfl, rfl, rfl, rfl⟩
  · exact ⟨rfl, rfl, rfl, hsession⟩

theorem loraJoinBegin_waiter {w : Waiter} (h : loraJoinBegin d = .ok (.waiting w d')) :
    w = .join := by
  obtain ⟨e, hb⟩ | ⟨l, hb, -⟩ := loraJoinBegin_cases h
  · cases hb
  · cases hb
    rfl

section Tx

variable {cnf port : Int} {data : List Byte}

theorem loraTxSession_lmic (d : Driver) :
    (loraTxSession d).lmic =
      if loraMustJoin d || d.sessionInit then d.lmic
      else { lmicSetSession d.lmic 1 d.devaddr d.nwkskey d.appskey with dn2Dr := drSf9 } := by
  unfold loraTxSession
  split <;> rfl

/-- Only the session changes. -/
theorem loraTxSession_eq (d : Driver) :
    loraTxSession d =
      { d with lmic := (loraTxSession d).lmic, sessionInit := (loraTxSession d).sessionInit } := by
  unfold loraTxSession
  split <;> rfl

theorem loraTxSession_locked (d : Driver) (locked : Bool) :
    loraTxSession { d with locked := locked } = { loraTxSession d with locked := locked } := by
  unfold loraTxSession
  show (if (loraMustJoin d || d.sessionInit) = true then _ else _) = _
  split
  · rfl
  · rfl

theorem lmicSetTxData2_session (l : Lmic) (port : Int) (data : List Byte) (confirmed : Int) :
    (lmicSetTxData2 l port data confirmed).session = l.session := by
  unfold lmicSetTxData2
  split <;> rfl

/-- `lora_tx` is refused before it has done anything; or there is no memory, with the
    session installed; or the count of LMIC is set to the message id. -/
theorem loraTxBegin_cases (h : loraTxBegin malloc d cnf port data = .ok b) :
    (∃ e, b = .returned e { d with locked := false }) ∨
      (d.setup = true ∧ loraTxGuard d = none ∧
        ((∃ e, b = .returned e { loraTxSession d with locked := false }) ∨
          ∃ l, b = .waiting .tx
              { loraTxSession d with locked := true, msgid := d.msgid + 1, lmic := l } ∧
            l.session = { (loraTxSession d).lmic.session with seqnoUp := d.msgid + 1 })) := by
  obtain ⟨d₁, hlock, h⟩ := bind_eq_ok.mp h
  obtain ⟨-, rfl⟩ := mtxLock_eq_ok hlock
  split at h
  · cases h
    exact .inl ⟨_, rfl⟩
  next hsetup =>
  split at h
  · cases h
    exact .inl ⟨_, rfl⟩
  next hguard =>
  refine .inr ⟨by simpa using hsetup, hguard, ?_⟩
  obtain ⟨len, -, h⟩ := bind_eq_ok.mp h
  have hmsgid : (loraTxSession d).msgid = d.msgid := by rw [loraTxSession_eq]
  dsimp only at h
  rw [loraTxSession_locked] at h
  split at h
  · cases h
    exact .inl ⟨_, rfl⟩
  · obtain ⟨payload, -, h⟩ := bind_eq_ok.mp h
    cases h
    rw [hmsgid]
    refine .inr ⟨_, rfl, ?_⟩
    rw [lmicSetTxData2_session, loraSetDr_session]
    rfl

theorem loraTxBegin_spec (h : loraTxBegin malloc d cnf port data = .ok b) :
    b.Released ∧ b.driver.joined = d.joined ∧ b.driver.bits = d.bits := by
  have hjoined : (loraTxSession d).joined = d.joined := by rw [loraTxSession_eq]
  have hbits : (loraTxSession d).bits = d.bits := by rw [loraTxSession_eq]
  obtain ⟨e, rfl⟩ | ⟨-, -, ⟨e, rfl⟩ | ⟨l, rfl, -⟩⟩ := loraTxBegin_cases h
  · exact ⟨rfl, rfl, rfl⟩
  · exact ⟨rfl, hjoined, hbits⟩
  · exact ⟨rfl, hjoined, hbits⟩

theorem loraTxBegin_waiting {w : Waiter}
    (h : loraTxBegin malloc d cnf port data = .ok (.waiting w d')) :
    w = .tx ∧ d.setup = true ∧ loraTxGuard d = none ∧
      ∃ l, d' = { loraTxSession d with locked := true, msgid := d.msgid + 1, lmic := l } ∧
        l.session = { (loraTxSession d).lmic.session with seqnoUp := d.msgid + 1 } := by
  obtain ⟨e, hb⟩ | ⟨hsetup, hguard, ⟨e, hb⟩ | ⟨l, hb, hsession⟩⟩ := loraTxBegin_cases h
  · cases hb
  · cases hb
  · cases hb
    exact ⟨rfl, hsetup, hguard, l, rfl, hsession⟩

end Tx

theorem waitBits_eq_some {mask uxBits : BitVec 8} (h : waitBits d mask = some (uxBits, d')) :
    d.bits &&& mask ≠ 0 ∧ uxBits = d.bits ∧ d' = { d with bits := d.bits &&& ~~~mask } := by
  unfold waitBits at h
  split at h
  · cases h
  · next hbits =>
    cases h
    exact ⟨hbits, rfl, rfl⟩

/-- Whatever the bits are, a call that has waited gives the mutex back. -/
theorem Waiter.finish_spec (w : Waiter) (d : Driver) (uxBits : BitVec 8) :
    (w.finish d uxBits).2.locked = false ∧ Kept d (w.finish d uxBits).2 := by
  cases w with
  | setup => exact ⟨rfl, rfl, rfl, rfl⟩
  | join | tx =>
    simp only [Waiter.finish, loraJoinEnd, loraTxEnd]
    repeat' split
    all_goals exact ⟨rfl, rfl, rfl, rfl⟩

/-! ## Events -/

section Events

variable {r : Driver × List (Int × List Byte)}

/-- What an event makes of `joined`. -/
def Ev.joins : Ev → Bool → Bool
  | .joined, _ => true
  | .joining, _ | .joinFailed, _ | .rejoinFailed, _ => false
  | _, joins => joins

/-- The bits that an event sets. -/
def Ev.raises (l : Lmic) : Ev → BitVec 8
  | .joined => evLoraJoined
  | .joinFailed => evLoraJoinDenied
  | .txcomplete =>
    if l.pendTxConf ≠ 0 then
      (if l.txrxFlags &&& txrxAck ≠ 0 then evLoraTxComplete else 0) |||
        (if l.txrxFlags &&& txrxNack ≠ 0 then evLoraAckNotReceived else 0)
    else evLoraTxComplete
  | _ => 0

theorem onAck_spec (h : d.lmic.pendTxConf ≠ 0) :
    (onAck d).locked = d.locked ∧ (onAck d).joined = d.joined ∧
      (onAck d).bits = d.bits ||| Ev.raises d.lmic .txcomplete ∧
      (onAck d).lmic.session = d.lmic.session := by
  rw [onAck, Ev.raises, if_pos h]
  split <;> split <;> exact ⟨rfl, rfl, by simp [setBits, BitVec.or_assoc], rfl⟩

theorem onTxcomplete_spec (h : onTxcomplete malloc d = .ok r) :
    r.1.locked = d.locked ∧ r.1.joined = d.joined ∧
      r.1.bits = d.bits ||| Ev.raises d.lmic .txcomplete ∧
      r.1.lmic.session = d.lmic.session := by
  unfold onTxcomplete at h
  split at h
  · next hconf =>
    cases h
    exact onAck_spec hconf
  · next hconf =>
    obtain ⟨calls, -, h⟩ := bind_eq_ok.mp h
    cases h
    rw [Ev.raises, if_neg hconf]
    exact ⟨rfl, rfl, rfl, rfl⟩

theorem onEvent_spec {ev : Ev} (h : onEvent malloc d ev = .ok r) :
    r.1.locked = d.locked ∧ r.1.joined = ev.joins d.joined ∧
      r.1.bits = d.bits ||| ev.raises d.lmic ∧ r.1.lmic.session = d.lmic.session := by
  cases ev with
  | txcomplete => exact onTxcomplete_spec h
  | joined | joinFailed =>
    cases h
    exact ⟨rfl, rfl, rfl, rfl⟩
  | _ =>
    cases h
    exact ⟨rfl, rfl, BitVec.or_zero.symm, rfl⟩

end Events

end LuaRtos.Lora
