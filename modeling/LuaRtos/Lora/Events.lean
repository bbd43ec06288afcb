/-
  LuaRtos.Lora.Events

  What `lora_join` and `lora_tx` report, and the events that made them report it.

  The bits of `loraEvent` stay set until a call that waits for them takes them, so a
  call may report what came of an earlier one, or of an uplink that LMIC sent by
  itself.  Beside the system there is a record of which events have set each bit
  since it was last cleared.
-/

import LuaRtos.Lora.System

namespace LuaRtos.Lora

open LuaRtos.CLib

/-! ## Bits -/

/-- The bits that tell how a join or a transmission went. -/
inductive EvBit where
  | joined
  | joinDenied
  | txComplete
  | ackNotReceived
deriving DecidableEq, Repr

/-- Where the bit is. -/
def EvBit.index : EvBit → Nat
  | .joined => 1
  | .joinDenied => 2
  | .txComplete => 3
  | .ackNotReceived => 4

/-- The bit is set. -/
def EvBit.mem (b : EvBit) (bits : BitVec 8) : Bool := bits.getLsbD b.index

/-- What a call reports for a bit. -/
def EvBit.report : EvBit → Option DriverError
  | .joined | .txComplete => none
  | .joinDenied => operationError .notJoined none
  | .ackNotReceived => operationError .transmissionFailAckNotReceived none

section Bits

variable {x y : BitVec 8} (b : EvBit)

@[simp] theorem EvBit.mem_zero : b.mem 0#8 = false := by
  simp [mem]

@[simp] theorem EvBit.mem_or : b.mem (x ||| y) = (b.mem x || b.mem y) := by
  simp [mem]

@[simp] theorem EvBit.mem_clear : b.mem (x &&& ~~~y) = (b.mem x && !b.mem y) := by
  have hindex : b.index < 8 := by cases b <;> decide
  simp [mem, hindex]

theorem EvBit.mem_of_and_eq_zero (h : x &&& y = 0) (hy : b.mem y = true) : b.mem x = false := by
  have hand : (x &&& y).getLsbD b.index = false := by
    rw [h]
    exact BitVec.getLsbD_zero
  rw [BitVec.getLsbD_and, show y.getLsbD b.index = true from hy, Bool.and_true] at hand
  exact hand

theorem and_joined : ∀ x : BitVec 8, x &&& evLoraJoined ≠ 0 ↔ EvBit.joined.mem x = true := by
  decide

theorem and_txComplete :
    ∀ x : BitVec 8, x &&& evLoraTxComplete ≠ 0 ↔ EvBit.txComplete.mem x = true := by
  decide

/-- One of the bits that a join or a transmission waits for is set. -/
theorem mem_of_join_mask : ∀ x : BitVec 8, x &&& Waiter.join.mask ≠ 0 →
    EvBit.joined.mem x = true ∨
      EvBit.joined.mem x = false ∧ x &&& evLoraJoinDenied ≠ 0 ∧ EvBit.joinDenied.mem x = true := by
  decide

theorem mem_of_tx_mask : ∀ x : BitVec 8, x &&& Waiter.tx.mask ≠ 0 →
    EvBit.txComplete.mem x = true ∨
      EvBit.txComplete.mem x = false ∧ x &&& evLoraAckNotReceived ≠ 0 ∧
        EvBit.ackNotReceived.mem x = true := by
  decide

end Bits

/-- A call that has waited reports what one of its bits says. -/
theorem Waiter.finish_report {w : Waiter} (hw : w ≠ .setup) {d : Driver} {uxBits : BitVec 8}
    (h : uxBits &&& w.mask ≠ 0) :
    ∃ b : EvBit, b.mem w.mask = true ∧ b.mem uxBits = true ∧
      (w.finish d uxBits).1 = b.report := by
  cases w with
  | setup => exact absurd rfl hw
  | join =>
    rcases mem_of_join_mask uxBits h with hset | ⟨hnot, hmask, hset⟩
    · refine ⟨.joined, rfl, hset, ?_⟩
      rw [finish, loraJoinEnd, if_pos ((and_joined uxBits).mpr hset)]
      rfl
    · refine ⟨.joinDenied, rfl, hset, ?_⟩
      rw [finish, loraJoinEnd, if_neg (mt (and_joined uxBits).mp (by simp [hnot])), if_pos hmask]
      rfl
  | tx =>
    rcases mem_of_tx_mask uxBits h with hset | ⟨hnot, hmask, hset⟩
    · refine ⟨.txComplete, rfl, hset, ?_⟩
      rw [finish, loraTxEnd, if_pos ((and_txComplete uxBits).mpr hset)]
      rfl
    · refine ⟨.ackNotReceived, rfl, hset, ?_⟩
      rw [finish, loraTxEnd, if_neg (mt (and_txComplete uxBits).mp (by simp [hnot])),
        if_pos hmask]
      rfl

/-! ## The record -/

/-- What is known of the events. -/
structure Origins where
  /-- How many joins have been started and frames queued. -/
  requests : Nat
  /-- The events that have set a bit since it was last cleared: the request that each was
      for, or none for an older one or LMIC's own. -/
  raised : EvBit → List (Option Nat)

/-- A step; an event is or is not for the last request. -/
abbrev OwnAct := Act × Bool

namespace Origins

/-- A request is made. -/
def request (o : Origins) (r : Result Begun) : Origins :=
  if waits r then { o with requests := o.requests + 1 } else o

def next (s : System) (a : OwnAct) (o : Origins) : Origins :=
  match a.1 with
  | .join => o.request (loraJoinBegin s.driver)
  | .tx malloc cnf port data => o.request (loraTxBegin malloc s.driver cnf port data)
  | .setup band osInit =>
    -- a new event group
    if waits (loraSetupBegin s.driver band osInit) then { o with raised := fun _ => [] } else o
  | .wake =>
    { o with raised := fun b => if s.waiter.any fun w => b.mem w.mask then [] else o.raised b }
  | .event _ ev =>
    { o with raised := fun b =>
        if b.mem (ev.raises s.driver.lmic) then
          (if a.2 then some o.requests else none) :: o.raised b
        else o.raised b }
  | _ => o

end Origins

/-- The runs from a reset on, with the record of events. -/
def originsLts (flashId : Bool) (deveui : List Byte) (msgid : BitVec 32) (l : Lmic) :
    Lts (System × Origins) OwnAct :=
  .ofStep (⟨.off deveui msgid l, none⟩, ⟨0, fun _ => []⟩)
    (Lts.withHistory (fun s a => systemStep flashId s a.1) Origins.next)

/-- A join or a transmission whose wait is over reports what a bit says that has been
    set, and only by events for it. -/
def Attributed (p : System × Origins) : Prop :=
  ∀ w uxBits d, p.1.waiter = some w → w ≠ .setup →
    waitBits p.1.driver w.mask = some (uxBits, d) →
    ∃ b : EvBit, (w.finish d uxBits).1 = b.report ∧ p.2.raised b ≠ [] ∧
      ∀ t ∈ p.2.raised b, t = some p.2.requests

/-- A call begins to wait with none of its bits set, and while it waits they are set
    only by events for it. -/
def OwnEvents (p : System × Origins) (a : OwnAct) : Prop :=
  match a.1 with
  | .join => waits (loraJoinBegin p.1.driver) → p.1.driver.bits &&& Waiter.join.mask = 0
  | .tx malloc cnf port data =>
    waits (loraTxBegin malloc p.1.driver cnf port data) → p.1.driver.bits &&& Waiter.tx.mask = 0
  | .event _ ev =>
    ∀ w ∈ p.1.waiter, ev.raises p.1.driver.lmic &&& w.mask ≠ 0 → a.2 = true
  | _ => True

instance (p : System × Origins) : (a : OwnAct) → Decidable (OwnEvents p a)
  | (.join, _) | (.tx _ _ _ _, _) => inferInstanceAs (Decidable (_ = true → _ = 0#8))
  | (.event _ ev, own) =>
    inferInstanceAs (Decidable (∀ w ∈ p.1.waiter,
      ev.raises p.1.driver.lmic &&& w.mask ≠ 0 → own = true))
  | (.setup _ _, _) | (.macSet _ _, _) | (.macGet _ _, _) | (.setRxCallback _, _) | (.wake, _)
  | (.init, _) | (.work _, _) => .isTrue trivial

/-! ## Runs -/

/-- The record is that of the bits, and a call that waits finds only its own events. -/
structure Recorded (p : System × Origins) : Prop where
  held : ∀ w, p.1.waiter = some w → p.1.driver.locked = true
  set : ∀ b : EvBit, b.mem p.1.driver.bits = true ↔ p.2.raised b ≠ []
  own : ∀ w, p.1.waiter = some w → ∀ b : EvBit, b.mem w.mask = true →
    ∀ t ∈ p.2.raised b, t = some p.2.requests

theorem Recorded.attributed {p : System × Origins} (h : Recorded p) : Attributed p := by
  intro w uxBits d hw hne hwait
  obtain ⟨hmask, rfl, rfl⟩ := waitBits_eq_some hwait
  obtain ⟨b, hb, hset, hreport⟩ := Waiter.finish_report hne hmask
  exact ⟨b, hreport, (h.set b).mp hset, h.own w hw b hb⟩

section Step

variable {flashId : Bool} {s s' : System} {o : Origins} {a : OwnAct} {d : Driver}

theorem Recorded.waiter_of_free (h : Recorded (s, o)) (hfree : s.driver.locked = false) :
    s.waiter = none := by
  rw [Option.eq_none_iff_forall_ne_some]
  intro w hw
  rw [h.held w hw] at hfree
  cases hfree

/-- A step that changes neither the mutex nor the bits. -/
theorem Recorded.frame (h : Recorded (s, o)) (hlocked : d.locked = s.driver.locked)
    (hbits : d.bits = s.driver.bits) : Recorded ({ s with driver := d }, o) where
  held w hw := hlocked.trans (h.held w hw)
  set b := by
    rw [hbits]
    exact h.set b
  own := h.own

/-- A call that returns. -/
theorem Recorded.returned (h : Recorded (s, o)) (hfree : s.driver.locked = false)
    (hbits : d.bits = s.driver.bits) : Recorded ({ s with driver := d }, o) where
  held w hw := by
    have hnone := h.waiter_of_free hfree
    rw [show s.waiter = some w from hw] at hnone
    cases hnone
  set b := by
    rw [hbits]
    exact h.set b
  own := h.own

/-- A join or a transmission begins. -/
theorem Recorded.request (h : Recorded (s, o)) {b : Begun} {w₀ : Waiter}
    (hfree : s.driver.locked = false) (hreleased : b.Released)
    (hbits : b.driver.bits = s.driver.bits) (hw₀ : ∀ w d, b = .waiting w d → w = w₀)
    (hok : waits (.ok b) → s.driver.bits &&& w₀.mask = 0) :
    Recorded (s.begun b, o.request (.ok b)) := by
  cases b with
  | returned e d => exact h.returned hfree hbits
  | waiting w d =>
    obtain rfl := hw₀ w d rfl
    have hclear := hok rfl
    have hset : ∀ b : EvBit, b.mem d.bits = true ↔ o.raised b ≠ [] := by
      intro b
      rw [show d.bits = s.driver.bits from hbits]
      exact h.set b
    refine ⟨fun _ _ => hreleased, hset, fun v hv b hb t ht => ?_⟩
    -- the bits of the mask are clear, so nothing has set them
    obtain rfl := Option.some.inj hv
    have hnil : o.raised b = [] := by
      by_contra hne
      have hmem := (h.set b).mpr hne
      rw [b.mem_of_and_eq_zero hclear hb] at hmem
      cases hmem
    rw [show (o.request (.ok (.waiting w d))).raised b = o.raised b from rfl, hnil] at ht
    cases ht

/-- LMIC reports an event. -/
theorem Recorded.event (h : Recorded (s, o)) {malloc : Malloc} {ev : Ev} {own : Bool}
    (hlocked : d.locked = s.driver.locked)
    (hbits : d.bits = s.driver.bits ||| ev.raises s.driver.lmic)
    (hok : ∀ w ∈ s.waiter, ev.raises s.driver.lmic &&& w.mask ≠ 0 → own = true) :
    Recorded ({ s with driver := d }, o.next s (.event malloc ev, own)) where
  held w hw := hlocked.trans (h.held w hw)
  set b := by
    dsimp only [Origins.next]
    rw [hbits, EvBit.mem_or, Bool.or_eq_true, h.set b]
    by_cases hb : b.mem (ev.raises s.driver.lmic) = true
    · simp [hb]
    · simp [hb]
  own w hw b hb t ht := by
    dsimp only [Origins.next] at ht
    split at ht
    · next hraises =>
      have hown : own = true := by
        refine hok w hw fun hzero => ?_
        rw [b.mem_of_and_eq_zero hzero hb] at hraises
        cases hraises
      rw [hown] at ht
      rcases List.mem_cons.mp ht with rfl | ht
      · rfl
      · exact h.own w hw b hb t ht
    · exact h.own w hw b hb t ht

/-- A wait is over: its bits are cleared. -/
theorem Recorded.wake (h : Recorded (s, o)) {w : Waiter} (hw : s.waiter = some w)
    (hbits : d.bits = s.driver.bits &&& ~~~w.mask) {own : Bool} :
    Recorded (⟨d, none⟩, o.next s (.wake, own)) where
  held _ hw := nomatch hw
  set b := by
    dsimp only [Origins.next]
    rw [hw, hbits, EvBit.mem_clear, Option.any_some]
    cases hb : b.mem w.mask with
    | true => simp
    | false => simpa using h.set b
  own _ hw := nomatch hw

/-- `lora_setup`, which waits for none of these bits. -/
theorem Recorded.setup (h : Recorded (s, o)) {b : Begun} (hfree : s.driver.locked = false)
    (hspec : SetupBits s.driver b) :
    Recorded (s.begun b, if waits (.ok b) then { o with raised := fun _ => [] } else o) := by
  cases b with
  | returned e d => exact h.returned hfree hspec
  | waiting w d =>
    obtain ⟨rfl, hzero, hlocked⟩ := hspec
    refine ⟨fun _ _ => hlocked, fun b => ?_, fun v hv b hb t ht => nomatch ht⟩
    rw [show (s.begun (.waiting .setup d)).driver.bits = 0 from hzero]
    simp [waits]

/-- The step lemma. -/
theorem systemStep_recorded (h : Recorded (s, o)) (hok : OwnEvents (s, o) a)
    (hstep : systemStep flashId s a.1 = some s') : Recorded (s', o.next s a) := by
  obtain ⟨act, own⟩ := a
  cases act with
  | setup band osInit =>
    obtain ⟨b, hb, rfl⟩ := toOption_map_eq_some.mp hstep
    dsimp only [Origins.next]
    rw [hb]
    exact h.setup (free_of_bind hb) (loraSetupBegin_spec hb).2.1
  | macSet _ _ | macGet _ _ | setRxCallback _ =>
    obtain ⟨hfree, d, rfl, -, hkept⟩ := systemStep_returns hstep trivial
    exact h.returned hfree hkept.bits
  | join =>
    obtain ⟨b, hb, rfl⟩ := toOption_map_eq_some.mp hstep
    obtain ⟨hreleased, hkept⟩ := loraJoinBegin_spec hb
    simp only [OwnEvents, hb] at hok
    dsimp only [Origins.next]
    rw [hb]
    refine h.request (free_of_bind hb) hreleased hkept.bits (fun w d hw => ?_) hok
    exact loraJoinBegin_waiter (hw ▸ hb)
  | tx malloc cnf port data =>
    obtain ⟨b, hb, rfl⟩ := toOption_map_eq_some.mp hstep
    obtain ⟨hreleased, -, hbits⟩ := loraTxBegin_spec hb
    simp only [OwnEvents, hb] at hok
    dsimp only [Origins.next]
    rw [hb]
    refine h.request (free_of_bind hb) hreleased hbits (fun w d hw => ?_) hok
    exact (loraTxBegin_waiting (hw ▸ hb)).1
  | wake =>
    obtain ⟨w, d, hw, rfl, -, hkept⟩ := System.wake_eq_some hstep
    exact h.wake hw hkept.bits
  | event malloc ev =>
    obtain ⟨r, hr, rfl⟩ := toOption_map_eq_some.mp hstep
    obtain ⟨hlocked, -, hbits, -⟩ := onEvent_spec hr
    exact h.event hlocked hbits hok
  | init =>
    obtain rfl := Option.some.inj hstep
    -- the bit that it sets is none of these
    refine ⟨fun w hw => h.held w hw, fun b => Iff.trans ?_ (h.set b), h.own⟩
    cases b <;> simp [EvBit.mem, EvBit.index, loraInit, setBits, evLoraInited]
  | work l =>
    obtain rfl := Option.some.inj hstep
    exact h.frame rfl rfl

variable {deveui : List Byte} {msgid : BitVec 32} {l : Lmic} {p : System × Origins}

end Step

/-! ## Two joins -/

/-- Set up, with the keys of a node that joins. -/
def otaaSchedule : List OwnAct :=
  [(.setup 868 none, true), (.init, true), (.wake, true),
   (.macSet .appeui (lit "70B3D57ED0000001"), true),
   (.macSet .deveui (lit "0004A30B001A2B3C"), true),
   (.macSet .appkey (lit "000102030405060708090A0B0C0D0E0F"), true)]

end LuaRtos.Lora
