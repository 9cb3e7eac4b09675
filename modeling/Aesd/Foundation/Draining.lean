import Aesd.Foundation.Run

/-! # Runs that come to an end

A measure that every step lowers bounds the length of all runs. If some step is
possible for as long as the work is not done, no run stops before it is.
-/

namespace Transition

variable {σ ε : Type} {Step : σ → ε → σ → Prop} {s middle s' : σ} {events more : List ε}

namespace Run

theorem append (hfront : Run Step s events middle) (hback : Run Step middle more s') :
    Run Step s (events ++ more) s' := by
  induction hback with
  | nil =>
      rw [List.append_nil]
      exact hfront
  | snoc _ last ih =>
      rw [← List.append_assoc]
      exact .snoc ih last

/-- What some steps spend, others have earned or the measure pays for. -/
theorem countP_add_le_countP_add (spent earned : ε → Bool) (inv : σ → Prop) (measure : σ → Nat)
    (hkeeps : ∀ s event s', inv s → Step s event s' → inv s')
    (hpays : ∀ s event s', inv s → Step s event s' →
      (spent event).toNat + measure s' ≤ (earned event).toNat + measure s)
    (hrun : Run Step s events s') (hs : inv s) :
    events.countP spent + measure s' ≤ events.countP earned + measure s := by
  have hone : ∀ (counted : ε → Bool) (event : ε),
      [event].countP counted = (counted event).toNat := by
    intro counted event
    rw [List.countP_singleton]
    cases counted event <;> rfl
  induction hrun with
  | nil => exact Nat.le_refl _
  | @snoc middle s' events event front last ih =>
      have hlast := hpays _ _ _ (front.invariant inv hkeeps hs) last
      rw [List.countP_append, List.countP_append, hone, hone]
      omega

/-- A measure pays for the steps that are counted. -/
theorem countP_add_le (counted : ε → Bool) (inv : σ → Prop) (measure : σ → Nat)
    (hkeeps : ∀ s event s', inv s → Step s event s' → inv s')
    (hpays : ∀ s event s', inv s → Step s event s' →
      (counted event).toNat + measure s' ≤ measure s)
    (hrun : Run Step s events s') (hs : inv s) :
    events.countP counted + measure s' ≤ measure s := by
  have hcount := hrun.countP_add_le_countP_add counted (fun _ => false) inv measure hkeeps
    (fun s event s' h hstep => by
      rw [Bool.toNat_false, Nat.zero_add]
      exact hpays s event s' h hstep) hs
  rwa [congrFun List.countP_false events, Function.const_apply, Nat.zero_add] at hcount

/-- A measure pays for every step. -/
theorem length_add_le (inv : σ → Prop) (measure : σ → Nat)
    (hkeeps : ∀ s event s', inv s → Step s event s' → inv s')
    (hless : ∀ s event s', inv s → Step s event s' → measure s' < measure s)
    (hrun : Run Step s events s') (hs : inv s) : events.length + measure s' ≤ measure s := by
  rw [← congrFun List.countP_true events]
  refine hrun.countP_add_le _ inv measure hkeeps (fun s event s' h hstep => ?_) hs
  rw [Bool.toNat_true, Nat.add_comm]
  exact hless s event s' h hstep

end Run

/-- The work gets done in any order of the steps: no run is longer than the
bound, and before the work is done one of the steps that count as its own is
possible. -/
structure Drains (Step : σ → ε → σ → Prop) (own : σ → ε → Prop) (done : σ → Prop) (bound : Nat)
    (s : σ) : Prop where
  bounded : ∀ events s', Run Step s events s' → events.length ≤ bound
  progress : ∀ events s', Run Step s events s' → ¬ done s' →
    ∃ event next, own s' event ∧ Step s' event next

namespace Drains

variable {own : σ → ε → Prop} {done : σ → Prop} {bound : Nat}

theorem of_measure (inv : σ → Prop) (measure : σ → Nat)
    (hkeeps : ∀ s event s', inv s → Step s event s' → inv s')
    (hless : ∀ s event s', inv s → Step s event s' → measure s' < measure s)
    (hprogress : ∀ s, inv s → ¬ done s → ∃ event s', own s event ∧ Step s event s')
    (hs : inv s) (hbound : measure s ≤ bound) : Drains Step own done bound s where
  bounded := fun _ _ hrun =>
    Nat.le_trans (Nat.le_of_add_right_le (hrun.length_add_le inv measure hkeeps hless hs)) hbound
  progress := fun _ s' hrun hnot => hprogress s' (hrun.invariant inv hkeeps hs) hnot

end Drains

end Transition
