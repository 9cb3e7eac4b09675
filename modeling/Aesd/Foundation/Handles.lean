import Aesd.Foundation.Run
import Mathlib.Data.List.Basic
import Mathlib.Logic.Function.Basic

/-! # Handles from a shared table

Threads open, use and close handles that come from one table. The table does not
know who opened a handle, so it lets any thread use or close any open one. Threads
that each keep to handles of their own never meet: a handle is held by one
thread at most, and what is open is what they hold.
-/

namespace Handles

open Transition

variable {η τ : Type}

inductive Act (η : Type)
  | opened (handle : η)
  | used (handle : η)
  | closed (handle : η)
  deriving DecidableEq, Repr

/-- The handle that an act takes to be open. -/
def Act.touched : Act η → Option η
  | .opened _ => none
  | .used handle => some handle
  | .closed handle => some handle

section

variable [DecidableEq η]

/-- The handles that a thread holds after an act, unless the act touches a handle
that it does not hold. -/
def hold (held : List η) : Act η → Option (List η)
  | .opened handle => some (handle :: held)
  | .used handle => if handle ∈ held then some held else none
  | .closed handle => if handle ∈ held then some (held.erase handle) else none

/-- The handles that are held after some acts. -/
def after (held : List η) (acts : List (Act η)) : Option (List η) := acts.foldlM hold held

variable {held held' : List η} {handle : η}

@[simp] theorem after_nil (held : List η) : after held [] = some held := rfl

theorem after_append (held : List η) (front back : List (Act η)) :
    after held (front ++ back) = (after held front).bind fun middle => after middle back := by
  rw [after, List.foldlM_append]
  rfl

theorem after_singleton (held : List η) (act : Act η) : after held [act] = hold held act := by
  rw [after, List.foldlM_cons]
  exact Option.bind_fun_some _

theorem after_concat (held : List η) (acts : List (Act η)) (act : Act η) :
    after held (acts ++ [act]) = (after held acts).bind fun middle => hold middle act := by
  rw [after_append]
  exact congrArg _ (funext fun middle => after_singleton middle act)

theorem hold_used (hmem : handle ∈ held) : hold held (.used handle) = some held := if_pos hmem

theorem hold_closed (hmem : handle ∈ held) :
    hold held (.closed handle) = some (held.erase handle) := if_pos hmem

/-- What an act touches is held. -/
theorem mem_of_hold {act : Act η} (hhold : hold held act = some held')
    (htouched : act.touched = some handle) : handle ∈ held := by
  cases act with
  | opened other => cases htouched
  | used other =>
      cases htouched
      by_contra hnot
      rw [hold, if_neg hnot] at hhold
      cases hhold
  | closed other =>
      cases htouched
      by_contra hnot
      rw [hold, if_neg hnot] at hhold
      cases hhold

/-- An initial part of acts that keep to what is held does so too. -/
theorem after_of_isPrefix {front acts : List (Act η)} (hfront : front <+: acts)
    (hafter : after held acts = some held') : ∃ middle, after held front = some middle := by
  obtain ⟨back, rfl⟩ := hfront
  rw [after_append] at hafter
  obtain ⟨middle, hmiddle, _⟩ := Option.bind_eq_some_iff.mp hafter
  exact ⟨middle, hmiddle⟩

end

/-! ## The shared table -/

section

variable [DecidableEq η] [DecidableEq τ]

/-- One act of one thread. A handle that is opened was not open; using and closing
are not checked against who opened it. -/
inductive Step : (η → Bool) → τ × Act η → (η → Bool) → Prop
  | opened {table : η → Bool} {thread : τ} (handle : η) (hclosed : table handle = false) :
      Step table (thread, .opened handle) (Function.update table handle true)
  | used {table : η → Bool} {thread : τ} (handle : η) : Step table (thread, .used handle) table
  | closed {table : η → Bool} {thread : τ} (handle : η) :
      Step table (thread, .closed handle) (Function.update table handle false)

/-- The acts of one thread. -/
def actsOf (thread : τ) (events : List (τ × Act η)) : List (Act η) :=
  (events.filter fun event => event.1 = thread).map Prod.snd

omit [DecidableEq η] in
theorem actsOf_concat_self (thread : τ) (act : Act η) (events : List (τ × Act η)) :
    actsOf thread (events ++ [(thread, act)]) = actsOf thread events ++ [act] := by
  simp [actsOf]

omit [DecidableEq η] in
theorem actsOf_concat_of_ne {thread other : τ} (hne : other ≠ thread) (act : Act η)
    (events : List (τ × Act η)) :
    actsOf thread (events ++ [(other, act)]) = actsOf thread events := by
  simp [actsOf, hne]

/-- No handle is held twice, and open is what the threads hold or what is open
outside of them. -/
structure Exclusive (outside : η → Prop) (held : τ → List η) (table : η → Bool) : Prop where
  nodup : ∀ thread, (held thread).Nodup
  apart : ∀ thread thread' handle, handle ∈ held thread → handle ∈ held thread' → thread = thread'
  outside_notMem : ∀ thread handle, outside handle → handle ∉ held thread
  open_iff : ∀ handle, table handle = true ↔ outside handle ∨ ∃ thread, handle ∈ held thread

omit [DecidableEq η] [DecidableEq τ] in
/-- Before any thread holds a handle. -/
theorem exclusive_nil (table : η → Bool) :
    Exclusive (fun handle => table handle = true) (fun _ : τ => []) table where
  nodup _ := List.nodup_nil
  apart _ _ _ hmem := absurd hmem List.not_mem_nil
  outside_notMem _ _ _ := List.not_mem_nil
  open_iff handle := by simp

variable {outside : η → Prop} {held : τ → List η} {table table' : η → Bool} {thread : τ}
  {act : Act η} {now : List η}

namespace Exclusive

omit [DecidableEq η] [DecidableEq τ] in
theorem notMem_of_closed (h : Exclusive outside held table) {handle : η}
    (hclosed : table handle = false) (thread : τ) : handle ∉ held thread := by
  intro hmem
  have hopen := (h.open_iff handle).mpr (Or.inr ⟨thread, hmem⟩)
  rw [hclosed] at hopen
  cases hopen

omit [DecidableEq η] in
/-- Only the thread that acts holds other handles than before. -/
theorem update (h : Exclusive outside held table) (hnodup : now.Nodup)
    (hmem : ∀ handle ∈ now, handle ∈ held thread ∨ table handle = false)
    (htable : ∀ handle, table' handle = true ↔ handle ∈ now ∨
      (handle ∉ held thread ∧ table handle = true)) :
    Exclusive outside (Function.update held thread now) table' where
  nodup other := by
    rcases eq_or_ne other thread with rfl | hne
    · rwa [Function.update_self]
    · rw [Function.update_of_ne hne]
      exact h.nodup other
  apart := by
    have hshared : ∀ other handle, other ≠ thread → handle ∈ held other → handle ∉ now := by
      intro other handle hne hother hnow
      rcases hmem handle hnow with hheld | hclosed
      · exact hne (h.apart other thread handle hother hheld)
      · exact h.notMem_of_closed hclosed other hother
    intro first second handle hfirst hsecond
    rcases eq_or_ne first thread with rfl | hne
    · rcases eq_or_ne second first with rfl | hne'
      · rfl
      · rw [Function.update_self] at hfirst
        rw [Function.update_of_ne hne'] at hsecond
        exact absurd hfirst (hshared second handle hne' hsecond)
    · rw [Function.update_of_ne hne] at hfirst
      rcases eq_or_ne second thread with rfl | hne'
      · rw [Function.update_self] at hsecond
        exact absurd hsecond (hshared first handle hne hfirst)
      · rw [Function.update_of_ne hne'] at hsecond
        exact h.apart first second handle hfirst hsecond
  outside_notMem other handle houtside := by
    rcases eq_or_ne other thread with rfl | hne
    · rw [Function.update_self]
      intro hnow
      rcases hmem handle hnow with hheld | hclosed
      · exact h.outside_notMem other handle houtside hheld
      · rw [(h.open_iff handle).mpr (Or.inl houtside)] at hclosed
        cases hclosed
    · rw [Function.update_of_ne hne]
      exact h.outside_notMem other handle houtside
  open_iff handle := by
    rw [htable, h.open_iff]
    constructor
    · rintro (hnow | ⟨hnot, houtside | ⟨other, hother⟩⟩)
      · exact Or.inr ⟨thread, by rwa [Function.update_self]⟩
      · exact Or.inl houtside
      · have hne : other ≠ thread := fun heq => hnot (heq ▸ hother)
        exact Or.inr ⟨other, by rwa [Function.update_of_ne hne]⟩
    · rintro (houtside | ⟨other, hother⟩)
      · exact Or.inr ⟨h.outside_notMem thread handle houtside, Or.inl houtside⟩
      · rcases eq_or_ne other thread with rfl | hne
        · rw [Function.update_self] at hother
          exact Or.inl hother
        · rw [Function.update_of_ne hne] at hother
          have hnot : handle ∉ held thread := fun hheld =>
            hne (h.apart other thread handle hother hheld)
          exact Or.inr ⟨hnot, Or.inr ⟨other, hother⟩⟩

/-- An act on handles of its own keeps the threads apart. -/
theorem step (h : Exclusive outside held table) (hstep : Step table (thread, act) table')
    (hhold : hold (held thread) act = some now) :
    Exclusive outside (Function.update held thread now) table' := by
  cases hstep with
  | opened handle hclosed =>
      cases hhold
      have hnot := h.notMem_of_closed hclosed
      refine h.update (List.nodup_cons.mpr ⟨hnot thread, h.nodup thread⟩) ?_ ?_
      · intro other hmem
        rcases List.mem_cons.mp hmem with rfl | hmem
        · exact Or.inr hclosed
        · exact Or.inl hmem
      · intro other
        rcases eq_or_ne other handle with rfl | hne
        · simp
        · rw [Function.update_of_ne hne, List.mem_cons, or_iff_right hne]
          have hopen : other ∈ held thread → table other = true := fun hmem =>
            (h.open_iff other).mpr (Or.inr ⟨thread, hmem⟩)
          tauto
  | used handle =>
      have hmem := mem_of_hold hhold rfl
      rw [hold_used hmem] at hhold
      cases hhold
      refine h.update (h.nodup thread) (fun _ hmem => Or.inl hmem) fun other => ?_
      have hopen : other ∈ held thread → table other = true := fun hmem =>
        (h.open_iff other).mpr (Or.inr ⟨thread, hmem⟩)
      tauto
  | closed handle =>
      have hmem := mem_of_hold hhold rfl
      rw [hold_closed hmem] at hhold
      cases hhold
      refine h.update ((h.nodup thread).erase handle)
        (fun _ hmem => Or.inl (List.mem_of_mem_erase hmem)) fun other => ?_
      rcases eq_or_ne other handle with rfl | hne
      · simp [(h.nodup thread).not_mem_erase, hmem]
      · rw [Function.update_of_ne hne, List.mem_erase_of_ne hne]
        have hopen : other ∈ held thread → table other = true := fun hmem =>
          (h.open_iff other).mpr (Or.inr ⟨thread, hmem⟩)
        tauto

end Exclusive

/-- In any interleaving of threads that keep to their own handles, no handle is
ever held by two of them. -/
theorem exclusive_of_run {events : List (τ × Act η)} (hrun : Run Step table events table')
    (h : Exclusive outside held table) {now : τ → List η}
    (hafter : ∀ thread, after (held thread) (actsOf thread events) = some (now thread)) :
    Exclusive outside now table' := by
  refine hrun.history_invariant (fun events table' => ∀ now : τ → List η,
    (∀ thread, after (held thread) (actsOf thread events) = some (now thread)) →
      Exclusive outside now table') ?_ ?_ now hafter
  · rintro events table ⟨thread, act⟩ table' ih hstep now hafter
    -- the thread that acts, before it did
    have hlast := hafter thread
    rw [actsOf_concat_self, after_concat] at hlast
    obtain ⟨before, hfront, hhold⟩ := Option.bind_eq_some_iff.mp hlast
    have hbefore := ih (Function.update now thread before) fun other => by
      rcases eq_or_ne other thread with rfl | hne
      · rw [Function.update_self, hfront]
      · rw [Function.update_of_ne hne, ← hafter other, actsOf_concat_of_ne (Ne.symm hne)]
    have hown : hold (Function.update now thread before thread) act = some (now thread) := by
      rwa [Function.update_self]
    have hnow := hbefore.step hstep hown
    rwa [Function.update_idem, Function.update_eq_self] at hnow
  · intro now hafter
    have heq : now = held := funext fun thread => (Option.some.inj (hafter thread)).symm
    rw [heq]
    exact h

end

end Handles
