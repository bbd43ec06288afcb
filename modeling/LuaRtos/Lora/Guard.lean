/-
  LuaRtos.Lora.Guard

  What `lora_tx` sends under: a session that was joined, or the one that is
  configured.

  The guards of the driver compare APPSKEY twice and never look at NWKSKEY, and
  `session_init` keeps the session of LMIC as it was when it was first installed.
-/

import LuaRtos.Lora.System

namespace LuaRtos.Lora

open LuaRtos.CLib

/-! ## The history of joins -/

/-- The events of LMIC, latest first. -/
def Act.record : Act → List Ev → List Ev
  | .event _ ev, evs => ev :: evs
  | _, evs => evs

/-- EV_JOINED, with none of the events after it that end a session. -/
def JoinSucceeded (evs : List Ev) : Prop :=
  ∃ later earlier, evs = later ++ .joined :: earlier ∧
    ∀ ev ∈ later, ev ≠ .joining ∧ ev ≠ .joinFailed ∧ ev ≠ .rejoinFailed

/-- `joined` after a history. -/
def joinedAfter (evs : List Ev) : Bool := evs.foldr Ev.joins false

theorem joinSucceeded_cons {ev : Ev} {evs : List Ev} :
    JoinSucceeded (ev :: evs) ↔ ev = .joined ∨
      (ev ≠ .joining ∧ ev ≠ .joinFailed ∧ ev ≠ .rejoinFailed) ∧ JoinSucceeded evs := by
  constructor
  · rintro ⟨later, earlier, heq, hlater⟩
    cases later with
    | nil => exact .inl (List.cons.inj heq).1
    | cons e later =>
      obtain ⟨rfl, rfl⟩ := List.cons.inj heq
      obtain ⟨he, hlater⟩ := List.forall_mem_cons.mp hlater
      exact .inr ⟨he, later, earlier, rfl, hlater⟩
  · rintro (rfl | ⟨hev, later, earlier, rfl, hlater⟩)
    · exact ⟨[], evs, rfl, nofun⟩
    · exact ⟨ev :: later, earlier, rfl, List.forall_mem_cons.mpr ⟨hev, hlater⟩⟩

theorem joinedAfter_eq_true (evs : List Ev) : joinedAfter evs = true ↔ JoinSucceeded evs := by
  induction evs with
  | nil => simp [joinedAfter, JoinSucceeded]
  | cons ev evs ih =>
    rw [joinSucceeded_cons, ← ih]
    cases ev <;> simp [joinedAfter, Ev.joins]

/-! ## Runs -/

section Runs

variable {flashId : Bool} {s s' : System} {a : Act} {evs : List Ev}

/-- Only events change `joined`. -/
theorem systemStep_joined (h : s.driver.joined = joinedAfter evs)
    (hstep : systemStep flashId s a = some s') : s'.driver.joined = joinedAfter (a.record evs) := by
  cases a with
  | setup band osInit =>
    obtain ⟨b, hb, rfl⟩ := toOption_map_eq_some.mp hstep
    rw [System.begun_driver, (loraSetupBegin_spec hb).1.1]
    exact h
  | macSet _ _ | macGet _ _ | setRxCallback _ =>
    obtain ⟨-, d, rfl, -, hkept⟩ := systemStep_returns hstep trivial
    exact hkept.joined.trans h
  | join =>
    obtain ⟨b, hb, rfl⟩ := toOption_map_eq_some.mp hstep
    rw [System.begun_driver, (loraJoinBegin_spec hb).2.joined]
    exact h
  | tx malloc cnf port data =>
    obtain ⟨b, hb, rfl⟩ := toOption_map_eq_some.mp hstep
    rw [System.begun_driver, (loraTxBegin_spec hb).2.1]
    exact h
  | wake =>
    obtain ⟨w, d, -, rfl, -, hkept⟩ := System.wake_eq_some hstep
    exact hkept.joined.trans h
  | event malloc ev =>
    obtain ⟨r, hr, rfl⟩ := toOption_map_eq_some.mp hstep
    rw [(onEvent_spec hr).2.1, h]
    rfl
  | init =>
    obtain rfl := Option.some.inj hstep
    exact h
  | work l =>
    obtain rfl := Option.some.inj hstep
    exact h

/-- The runs from a reset on, with the events so far. -/
def historyLts (flashId : Bool) (deveui : List Byte) (msgid : BitVec 32) (l : Lmic) :
    Lts (System × List Ev) Act :=
  .ofStep (⟨.off deveui msgid l, none⟩, [])
    (Lts.withHistory (systemStep flashId) fun _ a evs => a.record evs)

variable {deveui : List Byte} {msgid : BitVec 32} {l : Lmic}

theorem reach_joined
    (h : (historyLts flashId deveui msgid l).Reach (fun _ _ => True) (s, evs)) :
    s.driver.joined = true ↔ JoinSucceeded evs := by
  have hinv : s.driver.joined = joinedAfter evs := by
    refine h.invariant (I := fun p => p.1.driver.joined = joinedAfter p.2) ?_ ?_
    · rintro p rfl
      rfl
    · rintro ⟨s, evs⟩ a p' hinv - hstep
      obtain ⟨s', hs', rfl⟩ := Option.map_eq_some_iff.mp hstep
      exact systemStep_joined hinv hs'
  rw [hinv, joinedAfter_eq_true]

end Runs

/-! ## The guard -/

section Guard

/-- The address and both keys are set. -/
def AbpReady (d : Driver) : Prop :=
  isZero d.devaddr = false ∧ isZero d.nwkskey = false ∧ isZero d.appskey = false

/-- LMIC's session is the one that is configured. -/
def SessionConfigured (d : Driver) : Prop :=
  d.lmic.devaddr = d.devaddr ∧ d.lmic.nwkKey = d.nwkskey ∧ d.lmic.artKey = d.appskey

/-- What a node sends under: a session that it joined, or one that is configured. -/
def Guarded (d : Driver) (evs : List Ev) : Prop :=
  (JoinSucceeded evs ∨ AbpReady d) ∧ (AbpReady d → SessionConfigured d)

/-- The node must join; or NWKSKEY is set, and the session of LMIC is still to be
    installed or is the configured one; or NWKSKEY is not set and it has joined. -/
def SessionOk (d : Driver) : Prop :=
  loraMustJoin d = true ∨
    (isZero d.nwkskey = false ∧ (d.sessionInit = false ∨ SessionConfigured d)) ∨
    (isZero d.nwkskey = true ∧ d.joined = true)

variable {d d' : Driver} {w : Waiter} {malloc : Malloc} {cnf port : Int} {data : List Byte}

/-- A node that must join has joined, another one has an address and APPSKEY. -/
theorem of_loraTxGuard_eq_none (h : loraTxGuard d = none) :
    (loraMustJoin d = true → d.joined = true) ∧
      (loraMustJoin d = false → isZero d.devaddr = false ∧ isZero d.appskey = false) := by
  unfold loraTxGuard at h
  split at h
  · next hmust =>
    refine ⟨fun _ => ?_, fun hnot => absurd hmust (by simp [hnot])⟩
    split at h
    · split at h
      · cases h
      · next hjoined => simpa using hjoined
    · cases h
  · next hmust =>
    refine ⟨fun hm => absurd hm hmust, fun _ => ?_⟩
    split at h
    · cases h
    · next habp => simpa [loraCanParticipateAbp] using habp

/-- What LMIC_setTxData2 finds: the guard has let the call through, and nothing but the
    session has changed. -/
theorem loraTxBegin_guarded (h : loraTxBegin malloc d cnf port data = .ok (.waiting w d')) :
    loraTxGuard d = none ∧ (AbpReady d' ↔ AbpReady d) ∧
      (SessionConfigured d' ↔ SessionConfigured (loraTxSession d)) := by
  obtain ⟨-, -, hguard, l, rfl, hsession⟩ := loraTxBegin_waiting h
  obtain ⟨haddr, hnwk, happ, -⟩ := Session.mk.inj hsession
  refine ⟨hguard, ?_, ?_⟩
  · rw [loraTxSession_eq]
    rfl
  · show l.devaddr = _ ∧ l.nwkKey = _ ∧ l.artKey = _ ↔ _
    rw [haddr, hnwk, happ]
    rfl

/-- A session is installed when there is none yet. -/
theorem sessionConfigured_loraTxSession (h : loraMustJoin d = false) :
    SessionConfigured (loraTxSession d) ↔ d.sessionInit = false ∨ SessionConfigured d := by
  rw [loraTxSession, h]
  cases hinit : d.sessionInit with
  | false => simp [SessionConfigured, lmicSetSession, stateJustJoined]
  | true => simp

theorem not_abpReady (h : loraMustJoin d = true) : ¬ AbpReady d := by
  rintro ⟨haddr, -, -⟩
  simp [loraMustJoin, haddr] at h

/-- In every run, a `lora_tx` that reaches LMIC_setTxData2 sends under a session that
    it may use, exactly if the keys and the session were so before. -/
theorem loraTx_guarded_iff {flashId : Bool} {deveui : List Byte} {msgid : BitVec 32} {l : Lmic}
    {s : System} {evs : List Ev}
    (h : (historyLts flashId deveui msgid l).Reach (fun _ _ => True) (s, evs))
    (htx : loraTxBegin malloc s.driver cnf port data = .ok (.waiting w d)) :
    Guarded d evs ↔ SessionOk s.driver := by
  obtain ⟨hguard, habp, hsession⟩ := loraTxBegin_guarded htx
  obtain ⟨hotaa, hkeys⟩ := of_loraTxGuard_eq_none hguard
  rw [Guarded, SessionOk, habp, hsession, ← reach_joined h]
  cases hmust : loraMustJoin s.driver with
  | true => simp [hotaa hmust, not_abpReady hmust]
  | false =>
    obtain ⟨haddr, happ⟩ := hkeys hmust
    rw [sessionConfigured_loraTxSession hmust]
    -- the guard has said nothing of NWKSKEY
    cases hnwk : isZero s.driver.nwkskey with
    | true => simp [AbpReady, hnwk]
    | false => simp [AbpReady, haddr, hnwk, happ]

end Guard

/-! ## ABP without NWKSKEY -/

/-- Set up, with the address and APPSKEY. -/
def abpSchedule : List Act :=
  [.setup 868 none, .init, .wake, .macSet .devaddr (lit "26011BDA"),
   .macSet .appskey (lit "000102030405060708090A0B0C0D0E0F")]

/-- With NWKSKEY as well. -/
theorem loraTx_guarded_iff_abp :
    ∃ s evs d, loraTxBegin plenty (System.driver s) 0 1 (lit "CAFE") = .ok (.waiting .tx d) ∧
      isZero s.driver.nwkskey = false ∧ (Guarded d evs ↔ SessionOk s.driver) := by
  have hreach :
      (historyLts false (List.replicate 8 0) 0 lmicClear).Reach (fun _ _ => True) (_, _) :=
    Lts.Reach.schedule
      (abpSchedule ++ [.macSet .nwkskey (lit "F0F1F2F3F4F5F6F7F8F9FAFBFCFDFEFF")]) rfl
  exact ⟨_, _, _, rfl, rfl,
    @loraTx_guarded_iff _ _ plenty 0 1 (lit "CAFE") _ _ _ _ _ _ hreach rfl⟩

/-- NWKSKEY is not set, and nothing has been joined. -/
theorem not_guarded_abp :
    ∃ s evs d,
      (historyLts false (List.replicate 8 0) 0 lmicClear).Reach (fun _ _ => True) (s, evs) ∧
      loraTxBegin plenty s.driver 0 1 (lit "CAFE") = .ok (.waiting .tx d) ∧ ¬ Guarded d evs := by
  refine ⟨_, _, _, Lts.Reach.schedule abpSchedule rfl, rfl, ?_⟩
  rintro ⟨⟨later, earlier, hjoined, -⟩ | ⟨-, hnwk, -⟩, -⟩
  · simp [Act.record] at hjoined
  · cases hnwk

end LuaRtos.Lora
