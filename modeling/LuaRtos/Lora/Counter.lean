/-
  LuaRtos.Lora.Counter

  The counters of the uplinks within a session, which is a pair of session keys.

  LMIC counts its uplinks, and `lora_tx` overwrites the count with its message id.
  The two go well together as long as the message id is not behind the count, a
  retransmission is made of what the frame before it was made of, and keys that are
  installed are new.

  Beside the system there is a record of the frames that have been sent.
-/

import LuaRtos.Lora.Uplink

namespace LuaRtos.Lora

open LuaRtos.CLib

/-! ## The record -/

/-- NWKSKEY and APPSKEY. -/
def Session.keys (c : Session) : List Byte × List Byte := (c.nwkKey, c.artKey)

/-- A data frame that has been encrypted and signed. -/
structure Uplink where
  keys : List Byte × List Byte
  counter : BitVec 32
  source : FrameSource
deriving DecidableEq, Repr

def Uplink.frame (u : Uplink) : List Byte := u.source.frame u.counter

/-- The data frame that LMIC builds. -/
def uplink (l : Lmic) : Uplink :=
  ⟨l.session.keys, (buildDataFrame l).1.seqnoUp - 1, frameSource l⟩

/-- The frames, latest first. -/
def MacAct.record (s : System) : MacAct → List Uplink → List Uplink
  | .send, sent => uplink s.driver.lmic :: sent
  | _, sent => sent

/-- The runs from a reset on, with the frames so far. -/
def uplinkLts (flashId : Bool) (deveui : List Byte) (msgid : BitVec 32) (l : Lmic) :
    Lts (System × List Uplink) MacAct :=
  .ofStep (⟨.off deveui msgid l, none⟩, [])
    (Lts.withHistory (macStep flashId) MacAct.record)

/-- Under one pair of keys, no two different frames have the same counter, and the
    counter never goes backwards. -/
def NoReuse (sent : List Uplink) : Prop :=
  sent.Pairwise fun later earlier => later.keys = earlier.keys →
    earlier.counter ≤ later.counter ∧
      (earlier.counter = later.counter → earlier.frame = later.frame)

/-! ## The condition -/

/-- Nothing has been sent under the keys. -/
def Unused (keys : List Byte × List Byte) (sent : List Uplink) : Prop :=
  ∀ u ∈ sent, u.keys ≠ keys

instance (keys : List Byte × List Byte) (sent : List Uplink) : Decidable (Unused keys sent) :=
  inferInstanceAs (Decidable (∀ u ∈ sent, u.keys ≠ keys))

/-- A call of `lora_tx` installs the session that is configured. -/
def Installs (d : Driver) : Prop :=
  d.setup = true ∧ loraTxGuard d = none ∧ ¬ (loraMustJoin d || d.sessionInit) = true

instance (d : Driver) : Decidable (Installs d) := inferInstanceAs (Decidable (_ ∧ _ ∧ _))

/-- The frame is made of the same as the latest one, which went under the same keys. -/
def Repeats (l : Lmic) (sent : List Uplink) : Prop :=
  (sent.head?.map fun u => (u.keys, u.source)) = some (l.session.keys, frameSource l)

instance (l : Lmic) (sent : List Uplink) : Decidable (Repeats l sent) :=
  inferInstanceAs (Decidable (_ = _))

/-- The count of LMIC goes on. -/
def CountsOn (p : System × List Uplink) : MacAct → Prop
  | .drive (.tx malloc cnf port data) =>
    (Installs p.1.driver → Unused (p.1.driver.nwkskey, p.1.driver.appskey) p.2) ∧
      (waits (loraTxBegin malloc p.1.driver cnf port data) = true →
        (loraTxSession p.1.driver).lmic.seqnoUp ≤ p.1.driver.msgid + 1)
  | .accept j => Unused (j.nwkKey, j.artKey) p.2
  | .send => p.1.driver.lmic.txCnt ≠ 0 → Repeats p.1.driver.lmic p.2
  | _ => True

instance (p : System × List Uplink) : (a : MacAct) → Decidable (CountsOn p a)
  | .drive (.tx _ _ _ _) => inferInstanceAs (Decidable ((_ → _) ∧ (_ = true → _ ≤ _)))
  | .accept _ => inferInstanceAs (Decidable (Unused _ _))
  | .send => inferInstanceAs (Decidable (_ ≠ _ → Repeats _ _))
  | .drive (.setup _ _) | .drive (.macSet _ _) | .drive (.macGet _ _) | .drive .join
  | .drive (.setRxCallback _) | .drive .wake | .drive (.event _ _) | .drive .init
  | .drive (.work _) | .reset | .work _ => .isTrue trivial

/-! ## The invariant -/

/-- The count is above all counters of the session, and a frame that has the latest
    one of them is made of the same as the latest frame. -/
structure Counted (c : Session) (sent : List Uplink) : Prop where
  noReuse : NoReuse sent
  below : isZero c.devaddr = false → ∀ u ∈ sent, u.keys = c.keys → u.counter < c.seqnoUp
  latest : isZero c.devaddr = false → ∀ u ∈ sent, u.keys = c.keys →
    u.counter + 1 = c.seqnoUp → sent.head?.map Uplink.source = some u.source

section Counted

variable {c c' : Session} {sent : List Uplink} {f : FrameSource} {n : BitVec 32}

/-- There is no session any more. -/
theorem Counted.left (h : Counted c sent) (haddr : isZero c'.devaddr = true) : Counted c' sent where
  noReuse := h.noReuse
  below := by simp [haddr]
  latest := by simp [haddr]

/-- A session with new keys. -/
theorem Counted.renew (h : Counted c sent) (hnew : Unused c'.keys sent) : Counted c' sent where
  noReuse := h.noReuse
  below := fun _ u hu hkeys => absurd hkeys (hnew u hu)
  latest := fun _ u hu hkeys => absurd hkeys (hnew u hu)

/-- The count is set to one that is not behind it. -/
theorem Counted.raise (h : Counted c sent) (hle : c.seqnoUp ≤ n) :
    Counted { c with seqnoUp := n } sent where
  noReuse := h.noReuse
  below := by
    intro haddr u hu hkeys
    have hlt := h.below haddr u hu hkeys
    show u.counter < n
    bv_omega
  latest := by
    intro haddr u hu hkeys hcounter
    have hlt := h.below haddr u hu hkeys
    have hcounter : u.counter + 1 = n := hcounter
    apply h.latest haddr u hu hkeys
    bv_omega

/-- A frame under a counter of its own. -/
theorem Counted.send_new (h : Counted c sent) (haddr : isZero c.devaddr = false)
    (hmax : c.seqnoUp ≠ 0xFFFFFFFF) :
    Counted { c with seqnoUp := c.seqnoUp + 1 } (⟨c.keys, c.seqnoUp, f⟩ :: sent) where
  noReuse := by
    refine List.pairwise_cons.mpr ⟨fun u hu hkeys => ?_, h.noReuse⟩
    have hlt := h.below haddr u hu hkeys.symm
    show u.counter ≤ c.seqnoUp ∧ (u.counter = c.seqnoUp → _)
    exact ⟨by bv_omega, fun heq => by bv_omega⟩
  below := by
    intro _ u hu hkeys
    show u.counter < c.seqnoUp + 1
    rcases List.mem_cons.mp hu with rfl | hu
    · show c.seqnoUp < c.seqnoUp + 1
      bv_omega
    · have hlt := h.below haddr u hu hkeys
      bv_omega
  latest := by
    intro _ u hu hkeys hcounter
    rcases List.mem_cons.mp hu with rfl | hu
    · rfl
    · have hlt := h.below haddr u hu hkeys
      have hcounter : u.counter + 1 = c.seqnoUp + 1 := hcounter
      exact absurd hcounter (by bv_omega)

/-- A frame once more, under the counter of the latest one. -/
theorem Counted.send_again (h : Counted c sent) (haddr : isZero c.devaddr = false)
    (hlast : (sent.head?.map fun u => (u.keys, u.source)) = some (c.keys, f)) :
    Counted c (⟨c.keys, c.seqnoUp - 1, f⟩ :: sent) := by
  obtain ⟨v, hv, heq⟩ := Option.map_eq_some_iff.mp hlast
  obtain ⟨hvkeys, rfl⟩ := Prod.mk.inj heq
  have hpos : v.counter < c.seqnoUp := h.below haddr v (List.mem_of_head? hv) hvkeys
  -- a frame under the counter before the count is made of the same as the latest one
  have hsame : ∀ u ∈ sent, u.keys = c.keys → u.counter + 1 = c.seqnoUp → v.source = u.source := by
    intro u hu hkeys hcounter
    have hlatest := h.latest haddr u hu hkeys hcounter
    rw [hv] at hlatest
    exact Option.some.inj hlatest
  refine ⟨List.pairwise_cons.mpr ⟨fun u hu hkeys => ?_, h.noReuse⟩, ?_, ?_⟩
  · have hlt := h.below haddr u hu hkeys.symm
    refine ⟨show u.counter ≤ c.seqnoUp - 1 by bv_omega, fun hcounter => ?_⟩
    have hcounter : u.counter = c.seqnoUp - 1 := hcounter
    have hsource := hsame u hu hkeys.symm (by bv_omega)
    show u.source.frame u.counter = v.source.frame (c.seqnoUp - 1)
    rw [hsource, hcounter]
  · intro _ u hu hkeys
    rcases List.mem_cons.mp hu with rfl | hu
    · show c.seqnoUp - 1 < c.seqnoUp
      bv_omega
    · exact h.below haddr u hu hkeys
  · intro _ u hu hkeys hcounter
    rcases List.mem_cons.mp hu with rfl | hu
    · rfl
    · exact congrArg some (hsame u hu hkeys hcounter)

end Counted

/-! ## Steps -/

section Steps

variable {l : Lmic} {r : Lmic × List Byte} {sent : List Uplink}

theorem engineUpdateData_spec (h : engineUpdateData l = some r) :
    isZero l.devaddr = false ∧ (l.txCnt = 0 → l.seqnoUp ≠ 0xFFFFFFFF) ∧
      r.1.session = (buildDataFrame l).1.session ∧ r.2 = (uplink l).frame := by
  unfold engineUpdateData at h
  split at h
  · cases h
  split at h
  · cases h
  next hjoin =>
  split at h
  · cases h
  split at h
  · cases h
  next hmax =>
  cases h
  obtain ⟨haddr, -⟩ := not_or.mp hjoin
  exact ⟨by simpa using haddr, fun htx hseqno => hmax ⟨htx, hseqno⟩, rfl, rfl⟩

theorem Counted.send (h : Counted l.session sent) (hsend : engineUpdateData l = some r)
    (hok : l.txCnt ≠ 0 → Repeats l sent) : Counted r.1.session (uplink l :: sent) := by
  obtain ⟨haddr, hmax, hsession, -⟩ := engineUpdateData_spec hsend
  rw [hsession]
  by_cases htx : l.txCnt = 0
  · have huplink : uplink l = ⟨l.session.keys, l.session.seqnoUp, frameSource l⟩ := by
      dsimp only [uplink, buildDataFrame]
      rw [if_pos htx, BitVec.add_sub_cancel]
      rfl
    have hcount : (buildDataFrame l).1.session =
        { l.session with seqnoUp := l.session.seqnoUp + 1 } := by
      dsimp only [buildDataFrame, Lmic.session]
      rw [if_pos htx]
    rw [huplink, hcount]
    exact h.send_new haddr (hmax htx)
  · have huplink : uplink l = ⟨l.session.keys, l.session.seqnoUp - 1, frameSource l⟩ := by
      dsimp only [uplink, buildDataFrame]
      rw [if_neg htx]
      rfl
    have hcount : (buildDataFrame l).1.session = l.session := by
      dsimp only [buildDataFrame, Lmic.session]
      rw [if_neg htx]
    rw [huplink, hcount]
    exact h.send_again haddr (hok htx)

/-- `lora_tx`, up to the frame. -/
theorem Counted.installed {d : Driver} (h : Counted d.lmic.session sent) (hsetup : d.setup = true)
    (hguard : loraTxGuard d = none)
    (hok : Installs d → Unused (d.nwkskey, d.appskey) sent) :
    Counted (loraTxSession d).lmic.session sent := by
  rw [loraTxSession_lmic]
  split
  · exact h
  · next hinstall => exact h.renew (hok ⟨hsetup, hguard, hinstall⟩)

variable {flashId : Bool} {s s' : System}

/-- The step lemma for the driver. -/
theorem systemStep_counted {a : Act} (h : Counted s.driver.lmic.session sent)
    (hok : CountsOn (s, sent) (.drive a)) (hwork : ∀ l, a ≠ .work l)
    (hstep : systemStep flashId s a = some s') : Counted s'.driver.lmic.session sent := by
  cases a with
  | setup band osInit =>
    obtain ⟨b, hb, rfl⟩ := toOption_map_eq_some.mp hstep
    rw [System.begun_driver, (loraSetupBegin_spec hb).1.2]
    exact h
  | macSet _ _ | macGet _ _ | setRxCallback _ =>
    obtain ⟨-, d, rfl, -, hkept⟩ := systemStep_returns hstep trivial
    exact hkept.session ▸ h
  | join =>
    obtain ⟨b, hb, rfl⟩ := toOption_map_eq_some.mp hstep
    rw [System.begun_driver, (loraJoinBegin_spec hb).2.session]
    exact h
  | tx malloc cnf port data =>
    obtain ⟨b, hb, rfl⟩ := toOption_map_eq_some.mp hstep
    obtain ⟨hnew, hle⟩ := hok
    rw [System.begun_driver]
    obtain ⟨e, rfl⟩ | ⟨hsetup, hguard, ⟨e, rfl⟩ | ⟨l, rfl, hsession⟩⟩ := loraTxBegin_cases hb
    · exact h
    · exact h.installed hsetup hguard hnew
    · show Counted l.session sent
      rw [hsession]
      apply (h.installed hsetup hguard hnew).raise
      apply hle
      rw [hb]
      rfl
  | wake =>
    obtain ⟨w, d, -, rfl, -, hkept⟩ := System.wake_eq_some hstep
    exact hkept.session ▸ h
  | event malloc ev =>
    obtain ⟨r, hr, rfl⟩ := toOption_map_eq_some.mp hstep
    exact (onEvent_spec hr).2.2.2 ▸ h
  | init =>
    obtain rfl := Option.some.inj hstep
    exact h.left rfl
  | work l => exact absurd rfl (hwork l)

/-- The step lemma. -/
theorem macStep_counted {a : MacAct} (h : Counted s.driver.lmic.session sent)
    (hok : CountsOn (s, sent) a) (hstep : macStep flashId s a = some s') :
    Counted s'.driver.lmic.session (a.record s sent) := by
  cases a with
  | drive a =>
    have hwork : ∀ l, a ≠ .work l := by
      rintro l rfl
      cases hstep
    have hdrive : systemStep flashId s a = some s' := by
      cases a with
      | work l => cases hstep
      | _ => exact hstep
    exact systemStep_counted h hok hwork hdrive
  | send =>
    obtain ⟨r, hr, rfl⟩ := Option.map_eq_some_iff.mp hstep
    exact h.send hr hok
  | accept j =>
    obtain ⟨l, hl, rfl⟩ := Option.map_eq_some_iff.mp hstep
    unfold processJoinAccept at hl
    split at hl
    · cases hl
    · cases hl
      exact h.renew hok
  | reset =>
    obtain rfl := Option.some.inj hstep
    exact h.left rfl
  | work f =>
    dsimp only [macStep] at hstep
    split at hstep
    · next hkept =>
      cases hstep
      exact hkept ▸ h
    · cases hstep

variable {deveui : List Byte} {msgid : BitVec 32} {p : System × List Uplink}

/-- In every run in which the count of LMIC goes on, no counter is used twice under a
    pair of session keys, and none goes backwards. -/
theorem uplink_noReuse (h : (uplinkLts flashId deveui msgid l).Reach CountsOn p) :
    NoReuse p.2 := by
  suffices hcounted : Counted p.1.driver.lmic.session p.2 from hcounted.noReuse
  refine h.invariant (I := fun p => Counted p.1.driver.lmic.session p.2) ?_ ?_
  · rintro p rfl
    exact ⟨.nil, nofun, nofun⟩
  · rintro ⟨s, sent⟩ a p' hcounted hok hstep
    obtain ⟨s', hs', rfl⟩ := Option.map_eq_some_iff.mp hstep
    exact macStep_counted hcounted hok hs'

end Steps

/-! ## Runs under one session -/

/-- Set up, with a session of its own. -/
def sessionSchedule : List MacAct :=
  [.drive (.setup 868 none), .drive .init, .drive .wake,
   .drive (.macSet .devaddr (lit "26011BDA")),
   .drive (.macSet .nwkskey (lit "F0F1F2F3F4F5F6F7F8F9FAFBFCFDFEFF")),
   .drive (.macSet .appskey (lit "000102030405060708090A0B0C0D0E0F"))]

/-- Nothing has been received after a confirmed uplink, which is to be sent once more. -/
def notAcked (l : Lmic) : Lmic :=
  { l with txCnt := l.txCnt + 1, opmode := (l.opmode &&& ~~~opTxrxpend) ||| opRndtx }

/-- Nothing has been received after an uplink. -/
def noDownlink (l : Lmic) : Lmic :=
  { l with
    txrxFlags := if l.txCnt ≠ 0 then txrxNack ||| txrxNoport else txrxNoport
    adrAckReq := if l.adrAckReq ≠ linkCheckOff then l.adrAckReq + 1 else l.adrAckReq
    dataBeg := 0
    dataLen := 0
    opmode := l.opmode &&& ~~~(opTxdata ||| opTxrxpend) }

/-- A confirmed downlink without payload has been received, which acknowledges the uplink
    and asks for a poll. -/
def confirmedDownlink (l : Lmic) : Lmic :=
  { l with
    dnConf := fctAck
    adrChanged := 0
    adrAckReq := if l.adrAckReq ≠ linkCheckOff then linkCheckInit else linkCheckOff
    txrxFlags := txrxDnw1 ||| txrxNoport ||| (if l.txCnt ≠ 0 then txrxAck else 0)
    dataLen := 0
    opmode := (l.opmode ||| opPoll) &&& ~~~(opTxdata ||| opTxrxpend) }

/-- A confirmed uplink that is sent twice, and another one. -/
theorem uplink_noReuse_retransmission :
    ∃ p : System × List Uplink, p.2.map Uplink.counter = [2, 1, 1] ∧ NoReuse p.2 := by
  have hreach :
      (uplinkLts false (List.replicate 8 0) 0 lmicClear).Reach CountsOn (_, _) :=
    Lts.Reach.schedule (sessionSchedule ++
      [.drive (.macSet .retx (lit "2")), .drive (.tx plenty 1 1 (lit "CAFE")), .send,
       .work notAcked, .send, .work noDownlink, .drive (.event plenty .txcomplete),
       .drive .wake, .drive (.tx plenty 0 1 (lit "BEEF")), .send]) rfl
  exact ⟨_, rfl, uplink_noReuse hreach⟩

theorem not_noReuse_cons {u v : Uplink} {sent : List Uplink} (hkeys : u.keys = v.keys)
    (hcounter : v.counter = u.counter) (hframe : v.frame ≠ u.frame) :
    ¬ NoReuse (u :: v :: sent) := by
  intro h
  obtain ⟨hlater, -⟩ := List.pairwise_cons.mp h
  obtain ⟨-, hsame⟩ := hlater v List.mem_cons_self hkeys
  exact hframe (hsame hcounter)

/-- A poll is sent between two uplinks of the driver; or a confirmed uplink is
    acknowledged, and the poll after it is sent like a retransmission. -/
theorem not_noReuse_poll :
    (∃ p, (uplinkLts false (List.replicate 8 0) 0 lmicClear).Reach (fun _ _ => True) p ∧
      p.2.map Uplink.counter = [2, 2, 1] ∧ ¬ NoReuse p.2) ∧
    ∃ p, (uplinkLts false (List.replicate 8 0) 0 lmicClear).Reach (fun _ _ => True) p ∧
      p.2.map Uplink.counter = [1, 1] ∧ ¬ NoReuse p.2 := by
  constructor
  · refine ⟨_, Lts.Reach.schedule (sessionSchedule ++
      [.drive (.tx plenty 0 1 (lit "CAFE")), .send, .work confirmedDownlink,
       .drive (.event plenty .txcomplete), .drive .wake, .send, .work noDownlink,
       .drive (.tx plenty 0 1 (lit "BEEF")), .send]) rfl, rfl, ?_⟩
    exact not_noReuse_cons rfl rfl (by decide)
  · refine ⟨_, Lts.Reach.schedule (sessionSchedule ++
      [.drive (.tx plenty 1 1 (lit "CAFE")), .send, .work confirmedDownlink, .send]) rfl, rfl, ?_⟩
    exact not_noReuse_cons rfl rfl (by decide)

end LuaRtos.Lora
