/-
  LuaRtos.Lua.Mqtt

  The callbacks of Lua/modules/mqtt.c: `lmqtt_subscribe` puts one in the list of the client,
  `messageArrived` calls those whose topic is that of the message.

  What `MQTTClient_subscribe` returns is part of a call.  The subscriptions that are in force
  and the topics that a filter matches are those of the protocol.  A callback returns.
-/

import LuaRtos.CLib.Str
import Mathlib.Data.List.Induction

namespace LuaRtos.Lua.Mqtt

open LuaRtos.CLib

/-- A topic or a filter, without its terminator. -/
structure Topic where
  chars : List Byte
  noNul : nul ∉ chars
deriving DecidableEq

theorem Topic.ext_iff {s t : Topic} : s = t ↔ s.chars = t.chars := by
  constructor
  · rintro rfl
    rfl
  · intro h
    cases s
    cases t
    cases h
    rfl

/-- The string in memory. -/
def Topic.block (t : Topic) : List Byte := t.chars ++ [nul]

/-- `LUA_NOREF` -/
def luaNoref : Int := -2

/-- `mqtt_subs_callback` -/
structure SubsCallback where
  topic : Topic
  callback : Int

/-- `mqtt_userdata`: the callbacks, the newest first, and the references given out so far. -/
structure Userdata where
  callbacks : List SubsCallback
  refs : Nat

/-- A call of `subscribe`. -/
structure SubscribeCall where
  topic : Topic
  /-- There is memory for the callback structure, and for its copy of the topic. -/
  node : Bool
  copy : Bool
  /-- What `MQTTClient_subscribe` returns. -/
  rc : Int

/-- A message that has arrived. -/
structure Message where
  topicName : Topic
  payload : List Byte

/-- A callback called with the length and the bytes of a message. -/
structure LuaCall where
  callback : Int
  payloadlen : Nat
  payload : List Byte
deriving DecidableEq, Repr

/-- `add_subs_callback` -/
def addSubsCallback (mqtt : Userdata) (topic : Topic) (call : Int) (node copy : Bool) :
    Int × Userdata :=
  if ¬ node then (-1, mqtt)
  else if ¬ copy then (-1, mqtt)
  else (0, { mqtt with callbacks := ⟨topic, call⟩ :: mqtt.callbacks })

/-- `lmqtt_subscribe`; the flag is set where it raises an error.  What `add_subs_callback`
    returns is not looked at. -/
def lmqttSubscribe (mqtt : Userdata) (s : SubscribeCall) : Bool × Userdata :=
  -- Copy function reference
  let callback : Int := mqtt.refs + 1
  let mqtt := { mqtt with refs := mqtt.refs + 1 }
  let mqtt := (addSubsCallback mqtt s.topic callback s.node s.copy).2
  (s.rc ≠ 0, mqtt)

/-- The loop of `messageArrived`. -/
def callCallbacks (m : Message) : List SubsCallback → Result (List LuaCall)
  | [] => pure []
  | callback :: next => do
    let r ← strcmp callback.topic.block m.topicName.block
    let calls ← callCallbacks m next
    if r = 0 ∧ callback.callback ≠ luaNoref then
      pure (⟨callback.callback, m.payload.length, m.payload⟩ :: calls)
    else pure calls

/-- `messageArrived` -/
def messageArrived (mqtt : Userdata) (m : Message) : Result (List LuaCall) :=
  callCallbacks m mqtt.callbacks

/-- A client after its calls of `subscribe`, errors caught. -/
def subscribed (calls : List SubscribeCall) : Userdata :=
  calls.foldl (fun mqtt s => (lmqttSubscribe mqtt s).2) ⟨[], 0⟩

/-! ## Subscriptions by the protocol -/

/-- The levels of a topic. -/
def levels (s : List Byte) : List (List Byte) := s.splitOn 0x2f

/-- The levels of a filter match those of a topic: `+` stands for one level, `#` at the end for
    any number of them. -/
def matchLevels : List (List Byte) → List (List Byte) → Bool
  | [], [] => true
  | [], _ :: _ => false
  | f :: fs, ts =>
    if f = [0x23] ∧ fs = [] then true
    else
      match ts with
      | [] => false
      | t :: ts => (f == [0x2b] || f == t) && matchLevels fs ts

/-- A filter matches a topic.  One that begins with a wildcard does not match a topic that
    begins with `$`. -/
def Topic.matchedBy (t f : Topic) : Bool :=
  !(t.chars.head? == some 0x24 && (f.chars.head? == some 0x2b || f.chars.head? == some 0x23)) &&
    matchLevels (levels f.chars) (levels t.chars)

/-- The call number `i` is a subscription in force: it was accepted, and none for the same
    filter was after it. -/
def InForce (calls : List SubscribeCall) (i : Nat) : Prop :=
  ∃ s, calls[i]? = some s ∧ s.rc = 0 ∧
    ∀ j s', i < j → calls[j]? = some s' → s'.topic = s.topic → s'.rc ≠ 0

/-- The message comes to each callback of a subscription in force whose filter matches, and to
    no other, once and with its bytes.  The reference of a callback is the number of its call,
    from 1 on. -/
def Dispatches (calls : List SubscribeCall) (m : Message) : Prop :=
  ∃ cs, messageArrived (subscribed calls) m = .ok cs ∧
    (cs.map LuaCall.callback).Nodup ∧
    (∀ c ∈ cs, c.payloadlen = m.payload.length ∧ c.payload = m.payload) ∧
    ∀ r, (∃ c ∈ cs, c.callback = r) ↔
      ∃ (i : Nat) (s : SubscribeCall), calls[i]? = some s ∧ r = (i : Int) + 1 ∧ InForce calls i ∧
        m.topicName.matchedBy s.topic = true

/-! ## The list of callbacks -/

section Callbacks

variable {calls : List SubscribeCall} {m : Message}

/-- The call has put its callback in the list. -/
def SubscribeCall.Kept (s : SubscribeCall) : Prop := s.node = true ∧ s.copy = true

instance (s : SubscribeCall) : Decidable s.Kept := inferInstanceAs (Decidable (_ ∧ _))

theorem subscribed_append (calls : List SubscribeCall) (s : SubscribeCall) :
    subscribed (calls ++ [s]) = (lmqttSubscribe (subscribed calls) s).2 := by
  rw [subscribed, List.foldl_append]
  rfl

theorem lmqttSubscribe_kept {mqtt : Userdata} {s : SubscribeCall} (hs : s.Kept) :
    (lmqttSubscribe mqtt s).2 =
      ⟨⟨s.topic, (mqtt.refs : Int) + 1⟩ :: mqtt.callbacks, mqtt.refs + 1⟩ := by
  obtain ⟨hnode, hcopy⟩ := hs
  simp [lmqttSubscribe, addSubsCallback, hnode, hcopy]

theorem lmqttSubscribe_lost {mqtt : Userdata} {s : SubscribeCall} (hs : ¬ s.Kept) :
    (lmqttSubscribe mqtt s).2 = ⟨mqtt.callbacks, mqtt.refs + 1⟩ := by
  unfold SubscribeCall.Kept at hs
  unfold lmqttSubscribe addSubsCallback
  dsimp only
  split
  · rfl
  next hnode =>
  split
  · rfl
  next hcopy => exact absurd ⟨not_not.mp hnode, not_not.mp hcopy⟩ hs

theorem refs_subscribed (calls : List SubscribeCall) :
    (subscribed calls).refs = calls.length := by
  induction calls using List.reverseRecOn with
  | nil => rfl
  | append_singleton calls s ih =>
    rw [subscribed_append, List.length_append, ← ih]
    by_cases hs : s.Kept
    · rw [lmqttSubscribe_kept hs]
      rfl
    · rw [lmqttSubscribe_lost hs]
      rfl

/-- The list holds the callbacks that were kept, whatever came of their call. -/
theorem mem_callbacks_iff {e : SubsCallback} : e ∈ (subscribed calls).callbacks ↔
    ∃ (i : Nat) (s : SubscribeCall),
      calls[i]? = some s ∧ s.Kept ∧ e = ⟨s.topic, (i : Int) + 1⟩ := by
  induction calls using List.reverseRecOn with
  | nil =>
    refine iff_of_false List.not_mem_nil ?_
    rintro ⟨i, s, hs, -⟩
    cases hs
  | append_singleton calls s ih =>
    -- a call is one of those before, or the last
    have hsplit : (∃ (i : Nat) (s' : SubscribeCall), (calls ++ [s])[i]? = some s' ∧ s'.Kept ∧
        e = ⟨s'.topic, (i : Int) + 1⟩) ↔
          (∃ (i : Nat) (s' : SubscribeCall), calls[i]? = some s' ∧ s'.Kept ∧
            e = ⟨s'.topic, (i : Int) + 1⟩) ∨
          s.Kept ∧ e = ⟨s.topic, (calls.length : Int) + 1⟩ := by
      constructor
      · rintro ⟨i, s', hs', hkept, rfl⟩
        by_cases hi : i < calls.length
        · rw [List.getElem?_append_left hi] at hs'
          exact .inl ⟨i, s', hs', hkept, rfl⟩
        · rw [List.getElem?_append_right (by omega)] at hs'
          obtain ⟨hzero, rfl⟩ := List.getElem?_eq_some_iff.mp hs'
          have heq : i = calls.length := by
            rw [List.length_singleton] at hzero
            omega
          subst heq
          rw [List.getElem_singleton] at hkept ⊢
          exact .inr ⟨hkept, rfl⟩
      · rintro (⟨i, s', hs', hkept, rfl⟩ | ⟨hkept, rfl⟩)
        · refine ⟨i, s', ?_, hkept, rfl⟩
          rwa [List.getElem?_append_left (List.getElem?_eq_some_iff.mp hs').1]
        · exact ⟨calls.length, s, List.getElem?_concat_length, hkept, rfl⟩
    rw [hsplit, ← ih, subscribed_append]
    by_cases hs : s.Kept
    · rw [lmqttSubscribe_kept hs, List.mem_cons, refs_subscribed, Or.comm]
      simp only [hs, true_and]
    · rw [lmqttSubscribe_lost hs]
      simp only [hs, false_and, or_false]

/-- No callback is in the list twice. -/
theorem nodup_callbacks (calls : List SubscribeCall) :
    ((subscribed calls).callbacks.map SubsCallback.callback).Nodup := by
  induction calls using List.reverseRecOn with
  | nil => exact List.nodup_nil
  | append_singleton calls s ih =>
    rw [subscribed_append]
    by_cases hs : s.Kept
    · rw [lmqttSubscribe_kept hs, List.map_cons, List.nodup_cons, refs_subscribed]
      refine ⟨?_, ih⟩
      rw [List.mem_map]
      rintro ⟨e, he, hcallback⟩
      obtain ⟨i, s', hs', -, rfl⟩ := mem_callbacks_iff.mp he
      have hi := (List.getElem?_eq_some_iff.mp hs').1
      dsimp only at hcallback
      omega
    · rw [lmqttSubscribe_lost hs]
      exact ih

theorem callback_ne_noref {e : SubsCallback} (he : e ∈ (subscribed calls).callbacks) :
    e.callback ≠ luaNoref := by
  obtain ⟨i, s, -, -, rfl⟩ := mem_callbacks_iff.mp he
  unfold luaNoref
  dsimp only
  omega

/-- The callbacks whose topic is that of the message are called. -/
theorem callCallbacks_eq (m : Message) {l : List SubsCallback}
    (hl : ∀ e ∈ l, e.callback ≠ luaNoref) :
    callCallbacks m l = .ok ((l.filter fun e => e.topic = m.topicName).map fun e =>
      ⟨e.callback, m.payload.length, m.payload⟩) := by
  induction l with
  | nil => rfl
  | cons e l ih =>
    obtain ⟨r, hr, hzero⟩ := strcmp_append e.topic.noNul m.topicName.noNul [] []
    have htopic : e.topic = m.topicName ↔ r = 0 := by
      rw [hzero]
      exact Topic.ext_iff
    have hne := hl e List.mem_cons_self
    rw [callCallbacks, Topic.block, Topic.block, hr, ok_bind,
      ih fun e' he' => hl e' (List.mem_cons_of_mem e he'), ok_bind]
    by_cases h0 : r = 0
    · have hpos : decide (e.topic = m.topicName) = true := decide_eq_true (htopic.mpr h0)
      rw [if_pos ⟨h0, hne⟩, List.filter_cons, hpos]
      rfl
    · have hneg : decide (e.topic = m.topicName) = false := decide_eq_false (mt htopic.mp h0)
      rw [if_neg fun h => h0 h.1, List.filter_cons, hneg]
      rfl

/-- What is called for a message. -/
theorem messageArrived_eq (calls : List SubscribeCall) (m : Message) :
    ∃ cs, messageArrived (subscribed calls) m = .ok cs ∧ (cs.map LuaCall.callback).Nodup ∧
      (∀ c ∈ cs, c.payloadlen = m.payload.length ∧ c.payload = m.payload) ∧
      ∀ r, (∃ c ∈ cs, c.callback = r) ↔ ∃ (i : Nat) (s : SubscribeCall),
        calls[i]? = some s ∧ r = (i : Int) + 1 ∧ s.Kept ∧ s.topic = m.topicName := by
  refine ⟨_, callCallbacks_eq m fun e he => callback_ne_noref he, ?_, ?_, fun r => ?_⟩
  · rw [List.map_map]
    exact (nodup_callbacks calls).sublist (List.filter_sublist.map _)
  · intro c hc
    obtain ⟨e, -, rfl⟩ := List.mem_map.mp hc
    exact ⟨rfl, rfl⟩
  · constructor
    · rintro ⟨c, hc, rfl⟩
      obtain ⟨e, he, rfl⟩ := List.mem_map.mp hc
      obtain ⟨hmem, htopic⟩ := List.mem_filter.mp he
      obtain ⟨i, s, hs, hkept, rfl⟩ := mem_callbacks_iff.mp hmem
      exact ⟨i, s, hs, rfl, hkept, of_decide_eq_true htopic⟩
    · rintro ⟨i, s, hs, rfl, hkept, htopic⟩
      have hmem := mem_callbacks_iff.mpr ⟨i, s, hs, hkept, rfl⟩
      exact ⟨_, List.mem_map.mpr ⟨_, List.mem_filter.mpr ⟨hmem, decide_eq_true htopic⟩, rfl⟩, rfl⟩

end Callbacks

/-! ## Who is called -/

theorem matchLevels_self (ts : List (List Byte)) : matchLevels ts ts = true := by
  induction ts with
  | nil => rfl
  | cons t ts ih =>
    rw [matchLevels]
    split
    · rfl
    · simp [ih]

/-- A topic matches itself. -/
theorem matchedBy_self (t : Topic) : t.matchedBy t = true := by
  have hdollar : (t.chars.head? == some 0x24 &&
      (t.chars.head? == some 0x2b || t.chars.head? == some 0x23)) = false := by
    cases hc : t.chars.head? with
    | none => rfl
    | some c =>
      clear hc
      revert c
      decide
  rw [Topic.matchedBy, hdollar, matchLevels_self]
  rfl

/-- For the topic of the message itself just the subscription in force was kept, and no other
    filter in force matches it. -/
def OnlyLiteral (calls : List SubscribeCall) (m : Message) : Prop :=
  ∀ (i : Nat) (s : SubscribeCall), calls[i]? = some s →
    (s.topic = m.topicName → (s.Kept ↔ InForce calls i)) ∧
      (s.topic ≠ m.topicName → InForce calls i → m.topicName.matchedBy s.topic = false)

section Dispatch

variable {calls : List SubscribeCall} {m : Message}

theorem onlyLiteral_of_dispatches (h : Dispatches calls m) : OnlyLiteral calls m := by
  obtain ⟨cs, hcs, -, -, hcalled⟩ := messageArrived_eq calls m
  obtain ⟨cs', hcs', -, -, hexpected⟩ := h
  rw [hcs] at hcs'
  cases hcs'
  intro i s hs
  have hiff := (hcalled ((i : Int) + 1)).symm.trans (hexpected ((i : Int) + 1))
  have hnumber : ∀ {j : Nat}, (i : Int) + 1 = (j : Int) + 1 → i = j := by
    intro j h
    omega
  constructor
  · intro htopic
    constructor
    · intro hkept
      obtain ⟨j, s', -, hj, hforce, -⟩ := hiff.mp ⟨i, s, hs, rfl, hkept, htopic⟩
      rwa [hnumber hj]
    · intro hforce
      have hmatch : m.topicName.matchedBy s.topic = true := by
        rw [htopic]
        exact matchedBy_self _
      obtain ⟨j, s', hs', hj, hkept, -⟩ := hiff.mpr ⟨i, s, hs, rfl, hforce, hmatch⟩
      rw [← hnumber hj, hs] at hs'
      cases hs'
      exact hkept
  · intro htopic hforce
    by_contra hmatch
    rw [Bool.not_eq_false] at hmatch
    obtain ⟨j, s', hs', hj, -, htopic'⟩ := hiff.mpr ⟨i, s, hs, rfl, hforce, hmatch⟩
    rw [← hnumber hj, hs] at hs'
    cases hs'
    exact htopic htopic'

theorem dispatches_of_onlyLiteral (honly : OnlyLiteral calls m) : Dispatches calls m := by
  obtain ⟨cs, hcs, hnodup, hbytes, hcalled⟩ := messageArrived_eq calls m
  refine ⟨cs, hcs, hnodup, hbytes, fun r => (hcalled r).trans ?_⟩
  constructor
  · rintro ⟨i, s, hs, hr, hkept, htopic⟩
    refine ⟨i, s, hs, hr, ((honly i s hs).1 htopic).mp hkept, ?_⟩
    rw [htopic]
    exact matchedBy_self _
  · rintro ⟨i, s, hs, hr, hforce, hmatch⟩
    by_cases htopic : s.topic = m.topicName
    · exact ⟨i, s, hs, hr, ((honly i s hs).1 htopic).mpr hforce, htopic⟩
    · rw [(honly i s hs).2 htopic hforce] at hmatch
      cases hmatch

end Dispatch

/-- A message comes to the callbacks that it should come to just where every filter in force that
    matches it is its topic, the callback of that one was kept, and none that was refused or
    replaced. -/
theorem dispatches_iff (calls : List SubscribeCall) (m : Message) :
    Dispatches calls m ↔ OnlyLiteral calls m :=
  ⟨onlyLiteral_of_dispatches, dispatches_of_onlyLiteral⟩

theorem nul_notMem_filter : nul ∉ ([0x61, 0x2f, 0x2b] : List Byte) := by decide

theorem nul_notMem_topic : nul ∉ ([0x61, 0x2f, 0x62] : List Byte) := by decide

/-- `a/+` -/
def wildcardFilter : Topic := ⟨[0x61, 0x2f, 0x2b], nul_notMem_filter⟩

/-- One byte that arrives on `a/b`. -/
def arrival : Message := ⟨⟨[0x61, 0x2f, 0x62], nul_notMem_topic⟩, [0x31]⟩

/-- A filter with a wildcard is in force and is not called; one that was refused is called. -/
theorem not_dispatches_wildcard :
    ¬ Dispatches [⟨wildcardFilter, true, true, 0⟩] arrival ∧
      ¬ Dispatches [⟨arrival.topicName, true, true, -1⟩] arrival := by
  constructor
  · intro h
    have hforce : InForce [⟨wildcardFilter, true, true, 0⟩] 0 := by
      refine ⟨_, rfl, rfl, fun j s hj hs => ?_⟩
      rw [List.getElem?_eq_none hj] at hs
      cases hs
    have hmatch := (onlyLiteral_of_dispatches h 0 _ rfl).2 (by decide) hforce
    exact absurd hmatch (by decide)
  · intro h
    obtain ⟨s, hs, hrc, -⟩ := ((onlyLiteral_of_dispatches h 0 _ rfl).1 rfl).mp ⟨rfl, rfl⟩
    cases hs
    exact absurd hrc (by decide)

end LuaRtos.Lua.Mqtt
