import Aesd.Foundation.Draining
import Aesd.Server.Signals

/-!
# Alarms

`timestamp_flag` is cleared behind the timestamp. An alarm that comes while one is
taken has set a flag that was set, and gets no timestamp of its own.
-/

namespace Aesd

open Transition

/-- The handler of the signal runs. -/
def SignalEvent.raises (signal : Signal) : SignalEvent → Bool
  | .arrives raised => raised == signal
  | .interrupts raised => raised == signal
  | _ => false

namespace Signalled

variable {s s' : Signalled}

/-- The flag is set while a timestamp is taken, up to where it is cleared. -/
def FlagHeld (s : Signalled) : Prop :=
  s.point = .taking ∨ s.point = .clearing → s.timestampFlag = true

/-- A timestamp is due that has not been taken. -/
def owed (s : Signalled) : Nat := (s.timestampFlag && s.point != .clearing).toNat

/-- An alarm pays for the timestamp that it makes due. -/
theorem owed_of_alarm (s s' : Signalled) : 0 + s'.owed ≤ 1 + s.owed := by
  have hone : s'.owed ≤ 1 := Bool.toNat_le _
  omega

theorem FlagHeld.step {event : SignalEvent} (h : FlagHeld s) (hstep : Step s event s') :
    FlagHeld s' := by
  cases hstep with
  | arrives signal =>
      intro hpoint
      rw [raise_point] at hpoint
      exact raise_timestampFlag signal (h hpoint)
  | @interrupts signal =>
      cases signal with
      | terminate => exact fun hpoint => by rcases hpoint with hpoint | hpoint <;> cases hpoint
      | alarm => exact fun _ => rfl
  | begins _ hflag => exact fun _ => hflag
  | taken hpoint => exact fun _ => h (Or.inl hpoint)
  | thread => exact h
  | @handles event main =>
      intro hpoint
      cases hplace : main.place <;> rw [hplace] at hpoint <;>
        rcases hpoint with hpoint | hpoint <;> cases hpoint
  | _ => exact fun hpoint => by rcases hpoint with hpoint | hpoint <;> cases hpoint

/-- An alarm makes one timestamp due, and a timestamp is taken only if one is. -/
theorem Step.owed {event : SignalEvent} (hstep : Step s event s') (h : FlagHeld s) :
    (event == .taken).toNat + s'.owed ≤ (event.raises .alarm).toNat + s.owed := by
  cases hstep with
  | arrives signal =>
      cases signal with
      | terminate => exact Nat.le_refl _
      | alarm => exact owed_of_alarm _ _
  | @interrupts signal main hpoint =>
      cases signal with
      | terminate =>
          simp only [Signalled.owed, raise, hpoint]
          exact Nat.le_refl _
      | alarm => exact owed_of_alarm _ _
  | taken hpoint =>
      have hflag := h (Or.inl hpoint)
      simp only [Signalled.owed, hpoint, hflag]
      decide
  | clears => exact Nat.zero_le _
  | thread => exact Nat.le_refl _
  | terminates hpoint | stays hpoint | begins hpoint | notDue hpoint | timestampFails hpoint
  | calls hpoint | accepts hpoint | acceptFails hpoint =>
      simp only [Signalled.owed, hpoint]
      exact Nat.le_refl _
  | @handles event main hpoint =>
      simp only [Signalled.owed, hpoint]
      cases main.place <;> exact Nat.le_refl _

/-- An alarm waits for a timestamp that has not begun. -/
structure Due (s : Signalled) : Prop where
  flag : s.timestampFlag = true
  notTaking : s.point ≠ .taking
  notClearing : s.point ≠ .clearing

/-- The next step begins that timestamp, or is not the one on to `accept`. -/
theorem Due.step {event : SignalEvent} (h : Due s) (haligned : Aligned s)
    (hstep : Step s event s') : event = .begins ∨ event ≠ .main .proceeds ∧ Due s' := by
  cases hstep with
  | begins => exact Or.inl rfl
  | notDue _ hflag =>
      rw [h.flag] at hflag
      cases hflag
  | taken hpoint | timestampFails hpoint => exact absurd hpoint h.notTaking
  | clears hpoint => exact absurd hpoint h.notClearing
  | arrives signal =>
      refine Or.inr ⟨SignalEvent.noConfusion, raise_timestampFlag signal h.flag, ?_, ?_⟩
      · rw [raise_point]
        exact h.notTaking
      · rw [raise_point]
        exact h.notClearing
  | @interrupts signal =>
      refine Or.inr ⟨SignalEvent.noConfusion, raise_timestampFlag signal h.flag, ?_, ?_⟩
      · rw [raise_point]
        exact LoopPoint.noConfusion
      · rw [raise_point]
        exact LoopPoint.noConfusion
  | @handles event main hpoint hevent hstep =>
      -- from here the way to `accept` leads through the test
      simp only [Aligned, hpoint] at haligned
      refine Or.inr ⟨fun heq => ?_, h.flag, ?_, ?_⟩
      · cases heq
        cases hstep with
        | proceeds hplace => exact haligned.1 hplace
      · cases main.place <;> exact LoopPoint.noConfusion
      · cases main.place <;> exact LoopPoint.noConfusion
  | thread => exact Or.inr ⟨by simp, h.flag, h.notTaking, h.notClearing⟩
  | terminates | stays | calls | accepts | acceptFails =>
      exact Or.inr ⟨by simp, h.flag, LoopPoint.noConfusion, LoopPoint.noConfusion⟩

end Signalled

end Aesd
