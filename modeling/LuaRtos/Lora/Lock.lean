/-
  LuaRtos.Lora.Lock

  The mutex of the LoRa driver is free whenever no call is in progress, as long as
  `lora_setup` is not called for another band than the one in use.

  The mutex is held by the call that waits and by no other; the one path that
  breaks this is the refusal of another band.
-/

import LuaRtos.Lora.System

namespace LuaRtos.Lora

open LuaRtos.CLib

/-! ## Runs -/

section Runs

variable {flashId : Bool} {s s' : System} {a : Act}

/-- The mutex is free when no call is in progress. -/
def System.Free (s : System) : Prop := s.waiter = none → s.driver.locked = false

/-- The mutex is held exactly by the call that waits. -/
def System.Held (s : System) : Prop := s.driver.locked = s.waiter.isSome

theorem System.Held.free (h : s.Held) : s.Free := by
  intro hw
  rw [h, hw]
  rfl

/-- No call of `lora_setup` for another band. -/
def KeepsBand (s : System) : Act → Prop
  | .setup band _ => BandKept s.driver band
  | _ => True

instance (s : System) : (a : Act) → Decidable (KeepsBand s a)
  | .setup _ _ => inferInstanceAs (Decidable (BandKept _ _))
  | .macSet _ _ | .macGet _ _ | .join | .tx _ _ _ _ | .setRxCallback _ | .wake | .event _ _
  | .init | .work _ => .isTrue trivial

theorem System.Held.waiter_of_free (h : s.Held) (hfree : s.driver.locked = false) :
    s.waiter = none := by
  rw [System.Held, hfree] at h
  simpa using h.symm

/-- A call that may have to wait. -/
theorem System.Held.begun {b : Begun} (h : s.Held) (hfree : s.driver.locked = false)
    (hb : b.Released) : (s.begun b).Held := by
  cases b with
  | returned e d =>
    rw [System.Held, System.begun, h.waiter_of_free hfree]
    exact hb
  | waiting w d => exact hb

/-- A call that returns. -/
theorem System.Held.returned {d : Driver} (h : s.Held) (hfree : s.driver.locked = false)
    (hd : d.locked = false) : System.Held { s with driver := d } :=
  h.begun hfree (b := .returned none d) hd

/-- A step beside the calls. -/
theorem System.Held.frame {d : Driver} (h : s.Held) (hd : d.locked = s.driver.locked) :
    System.Held { s with driver := d } := by
  rw [System.Held, hd]
  exact h

/-- The step lemma. -/
theorem systemStep_held (h : s.Held) (hok : KeepsBand s a)
    (hstep : systemStep flashId s a = some s') : s'.Held := by
  cases a with
  | setup band osInit =>
    obtain ⟨b, hb, rfl⟩ := toOption_map_eq_some.mp hstep
    exact h.begun (free_of_bind hb) ((loraSetupBegin_spec hb).2.2.1 hok)
  | macSet _ _ | macGet _ _ | setRxCallback _ =>
    obtain ⟨hfree, d, rfl, hlocked, -⟩ := systemStep_returns hstep trivial
    exact h.returned hfree hlocked
  | join =>
    obtain ⟨b, hb, rfl⟩ := toOption_map_eq_some.mp hstep
    exact h.begun (free_of_bind hb) (loraJoinBegin_spec hb).1
  | tx malloc cnf port data =>
    obtain ⟨b, hb, rfl⟩ := toOption_map_eq_some.mp hstep
    exact h.begun (free_of_bind hb) (loraTxBegin_spec hb).1
  | wake =>
    obtain ⟨w, d, -, rfl, hlocked, -⟩ := System.wake_eq_some hstep
    exact hlocked
  | event malloc ev =>
    obtain ⟨r, hr, rfl⟩ := toOption_map_eq_some.mp hstep
    exact h.frame (onEvent_spec hr).1
  | init =>
    obtain rfl := Option.some.inj hstep
    exact h.frame rfl
  | work l =>
    obtain rfl := Option.some.inj hstep
    exact h.frame rfl

/-- A call of `lora_setup` for another band returns with the mutex held. -/
theorem systemStep_not_free (h : s.Held) (hbad : ¬ KeepsBand s a)
    (hstep : systemStep flashId s a = some s') : ¬ s'.Free := by
  cases a with
  | setup band osInit =>
    obtain ⟨b, hb, rfl⟩ := toOption_map_eq_some.mp hstep
    obtain ⟨e, rfl⟩ := (loraSetupBegin_spec hb).2.2.2 hbad
    intro hfree
    cases hfree (h.waiter_of_free (free_of_bind hb))
  | _ => exact absurd trivial hbad

variable {deveui : List Byte} {msgid : BitVec 32} {l : Lmic}

/-- In the runs that keep the band, the mutex is free whenever no call is in
    progress; and a step from there leaves it so exactly if it keeps the band. -/
theorem loraMtx_free_iff (h : (systemLts flashId deveui msgid l).Reach KeepsBand s) :
    s.Free ∧ ∀ a s', systemStep flashId s a = some s' → (s'.Free ↔ KeepsBand s a) := by
  have hheld : s.Held := by
    refine h.invariant ?_ fun s a s' hheld hok hstep => systemStep_held hheld hok hstep
    rintro s rfl
    rfl
  refine ⟨hheld.free, fun a s' hstep => ⟨fun hfree => ?_, fun hok => ?_⟩⟩
  · by_contra hbad
    exact systemStep_not_free hheld hbad hstep hfree
  · exact (systemStep_held hheld hok hstep).free

end Runs

/-! ## Two bands -/

/-- The board is set up for 868 MHz. -/
def setup868 : List Act := [.setup 868 none, .init, .wake]

/-- Set up twice for the same band. -/
theorem loraMtx_free_iff_868 :
    ∃ s : System, s.driver.setup = true ∧ s.Free ∧
      ∀ a s', systemStep false s a = some s' → (s'.Free ↔ KeepsBand s a) := by
  have hreach : (systemLts false (List.replicate 8 0) 0 lmicClear).Reach KeepsBand _ :=
    Lts.Reach.schedule (setup868 ++ [.setup 868 none]) rfl
  exact ⟨_, rfl, loraMtx_free_iff hreach⟩

/-- Set up for 868 MHz, and then for 433 MHz. -/
theorem not_free_433 :
    ∃ s, (systemLts false (List.replicate 8 0) 0 lmicClear).Reach (fun _ _ => True) s ∧
      ¬ s.Free := by
  refine ⟨_, Lts.Reach.schedule (setup868 ++ [.setup 433 none]) rfl, fun hfree => ?_⟩
  cases hfree rfl

end LuaRtos.Lora
