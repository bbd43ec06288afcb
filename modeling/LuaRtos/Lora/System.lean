/-
  LuaRtos.Lora.System

  The driver together with LMIC: calls of any thread, the events that LMIC reports
  and its work on its own data, in any order.

  A call that cannot take the mutex is no step.  So a call that waits for LMIC
  keeps the other calls out, and LMIC goes on.
-/

import LuaRtos.Lora.Calls
import LuaRtos.Lts.Run

namespace LuaRtos.Lora

open LuaRtos.CLib

structure System where
  driver : Driver
  /-- The call that waits for LMIC. -/
  waiter : Option Waiter
deriving DecidableEq, Repr

inductive Act where
  | setup (band : Int) (osInit : Option DriverError)
  | macSet (command : MacSet) (value : List Byte)
  | macGet (malloc : Malloc) (command : MacGet)
  | join
  | tx (malloc : Malloc) (cnf port : Int) (data : List Byte)
  | setRxCallback (callback : Bool)
  /-- A wait is over. -/
  | wake
  /-- LMIC reports an event. -/
  | event (malloc : Malloc) (ev : Ev)
  /-- The first job of LMIC. -/
  | init
  /-- LMIC works on its data. -/
  | work (l : Lmic)

namespace System

/-- The state after a call that may have to wait. -/
def begun (s : System) : Begun → System
  | .returned _ d => { s with driver := d }
  | .waiting w d => ⟨d, some w⟩

/-- The wait of the call is over. -/
def wake (s : System) : Option System := do
  let w ← s.waiter
  let (bits, d) ← waitBits s.driver w.mask
  pure ⟨(w.finish d bits).2, none⟩

end System

/-- A step; there is none when a call blocks or leaves defined behaviour. -/
def systemStep (flashId : Bool) (s : System) : Act → Option System
  | .setup band osInit => (loraSetupBegin s.driver band osInit).toOption.map s.begun
  | .macSet command value =>
    (loraMacSet flashId s.driver command value).toOption.map fun r => { s with driver := r.2 }
  | .macGet malloc command =>
    (loraMacGet malloc s.driver command).toOption.map fun r => { s with driver := r.2 }
  | .join => (loraJoinBegin s.driver).toOption.map s.begun
  | .tx malloc cnf port data =>
    (loraTxBegin malloc s.driver cnf port data).toOption.map s.begun
  | .setRxCallback callback =>
    (loraSetRxCallback s.driver callback).toOption.map fun d => { s with driver := d }
  | .wake => s.wake
  | .event malloc ev => (onEvent malloc s.driver ev).toOption.map fun r => { s with driver := r.1 }
  | .init => some { s with driver := loraInit s.driver }
  | .work l => some { s with driver := { s.driver with lmic := l } }

/-- The runs from a reset on. -/
def systemLts (flashId : Bool) (deveui : List Byte) (msgid : BitVec 32) (l : Lmic) :
    Lts System Act :=
  .ofStep ⟨.off deveui msgid l, none⟩ (systemStep flashId)

/-! ## What a step can do -/

section Steps

variable {flashId : Bool} {s s' : System} {a : Act}

theorem System.begun_driver (b : Begun) : (s.begun b).driver = b.driver := by
  cases b <;> rfl

/-- The calls that do not wait. -/
def Act.Returns : Act → Prop
  | .macSet _ _ | .macGet _ _ | .setRxCallback _ => True
  | _ => False

theorem systemStep_returns (h : systemStep flashId s a = some s') (ha : a.Returns) :
    s.driver.locked = false ∧
      ∃ d, s' = { s with driver := d } ∧ d.locked = false ∧ Kept s.driver d := by
  cases a with
  | macSet command value =>
    obtain ⟨r, hr, rfl⟩ := toOption_map_eq_some.mp h
    exact ⟨free_of_bind hr, _, rfl, loraMacSet_spec hr⟩
  | macGet malloc command =>
    obtain ⟨r, hr, rfl⟩ := toOption_map_eq_some.mp h
    exact ⟨free_of_bind hr, _, rfl, loraMacGet_spec hr⟩
  | setRxCallback callback =>
    obtain ⟨d, hd, rfl⟩ := toOption_map_eq_some.mp h
    exact ⟨free_of_bind hd, _, rfl, loraSetRxCallback_spec hd⟩
  | _ => cases ha

/-- The call whose wait is over takes its bits and gives the mutex back. -/
theorem System.wake_eq_some (h : s.wake = some s') :
    ∃ w d, s.waiter = some w ∧ s' = ⟨d, none⟩ ∧ d.locked = false ∧
      Kept { s.driver with bits := s.driver.bits &&& ~~~w.mask } d := by
  obtain ⟨w, hw, h⟩ := Option.bind_eq_some_iff.mp h
  obtain ⟨⟨uxBits, d⟩, hwait, h⟩ := Option.bind_eq_some_iff.mp h
  obtain rfl := Option.some.inj h
  obtain ⟨-, -, rfl⟩ := waitBits_eq_some hwait
  exact ⟨w, _, hw, rfl, w.finish_spec _ uxBits⟩

end Steps

end LuaRtos.Lora
