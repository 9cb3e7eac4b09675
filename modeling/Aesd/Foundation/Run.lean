import Mathlib.Data.List.Induction
import Mathlib.Logic.Basic
import Mathlib.Tactic.Common

/-! # Runs of a labelled transition system

A run lists the events of its steps in order and grows at its end, so that an
induction on runs sees the events so far together with the last step.
-/

namespace Transition

variable {σ ε : Type}

/-- Finitely many steps from one state to another. -/
inductive Run (Step : σ → ε → σ → Prop) : σ → List ε → σ → Prop
  | nil (s : σ) : Run Step s [] s
  | snoc {s middle s' : σ} {events : List ε} {event : ε}
      (front : Run Step s events middle) (last : Step middle event s') :
      Run Step s (events ++ [event]) s'

namespace Run

variable {Step Step' : σ → ε → σ → Prop}

/-- What every step preserves holds at the end of a run. -/
theorem invariant (inv : σ → Prop) (hstep : ∀ s event s', inv s → Step s event s' → inv s')
    {s s' : σ} {events : List ε} (hrun : Run Step s events s') (hs : inv s) : inv s' := by
  induction hrun with
  | nil => exact hs
  | snoc _ last ih => exact hstep _ _ _ ih last

/-- A relation between the events so far and the state, built up step by step. -/
theorem history_invariant (inv : List ε → σ → Prop)
    (hstep : ∀ events s event s', inv events s → Step s event s' → inv (events ++ [event]) s')
    {s s' : σ} {events : List ε} (hrun : Run Step s events s') (hs : inv [] s) :
    inv events s' := by
  induction hrun with
  | nil => exact hs
  | snoc _ last ih => exact hstep _ _ _ _ ih last

/-- Weaker steps allow every run of stronger ones. -/
theorem mono (himp : ∀ s event s', Step s event s' → Step' s event s')
    {s s' : σ} {events : List ε} (hrun : Run Step s events s') : Run Step' s events s' := by
  induction hrun with
  | nil => exact .nil _
  | snoc _ last ih => exact .snoc ih (himp _ _ _ last)

theorem single {s s' : σ} {event : ε} (hstep : Step s event s') : Run Step s [event] s' :=
  .snoc (.nil s) hstep

theorem eq_of_nil {s s' : σ} (hrun : Run Step s [] s') : s = s' := by
  generalize hnil : [] = events at hrun
  cases hrun with
  | nil => rfl
  | snoc => exact absurd hnil.symm (List.append_ne_nil_of_right_ne_nil _ (List.cons_ne_nil _ _))

/-- The first event is that of a first step. -/
theorem exists_first {s s' : σ} {first : ε} {events : List ε}
    (hrun : Run Step s (first :: events) s') : ∃ middle, Step s first middle := by
  generalize hall : first :: events = all at hrun
  induction hrun generalizing events with
  | nil => cases hall
  | @snoc middle s' front event hfront hlast ih =>
      cases front with
      | nil =>
          cases hall
          rw [hfront.eq_of_nil]
          exact ⟨s', hlast⟩
      | cons other others =>
          cases hall
          exact ih rfl

/-- Restrict every step by a property of its event. -/
theorem restrict {ok : ε → Prop} {s s' : σ} {events : List ε} (hrun : Run Step s events s')
    (hevents : ∀ event ∈ events, ok event) :
    Run (fun s event s' => ok event ∧ Step s event s') s events s' := by
  induction hrun with
  | nil => exact .nil _
  | snoc _ last ih =>
      refine .snoc (ih fun event hmem => hevents event (List.mem_append_left _ hmem)) ⟨?_, last⟩
      exact hevents _ (List.mem_append_right _ List.mem_cons_self)

/-- Evaluating a partial step function along events gives a run. -/
theorem of_foldlM {next : σ → ε → Option σ} {events : List ε} {s s' : σ}
    (hfold : events.foldlM next s = some s') :
    Run (fun s event s' => next s event = some s') s events s' := by
  induction events using List.reverseRecOn generalizing s' with
  | nil =>
      cases hfold
      exact .nil s
  | append_singleton events event ih =>
      rw [List.foldlM_append] at hfold
      obtain ⟨middle, hfront, hlast⟩ := Option.bind_eq_some_iff.mp hfold
      refine .snoc (ih hfront) ?_
      simpa using hlast

end Run

end Transition
