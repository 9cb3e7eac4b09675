import Mathlib.Data.List.Basic
import Mathlib.Tactic.Common

/-! # Services that answer one request after another

A service is a function from a state and a request to the next state and an
answer. An implementation refines it if every step can be matched; then whole
conversations can be.
-/

namespace Service

variable {S C Q R : Type}

/-- The state after some requests, and their answers. -/
def serveAll (answer : S → Q → S × R) : S → List Q → S × List R
  | s, [] => (s, [])
  | s, q :: qs =>
      let next := answer s q
      let others := serveAll answer next.1 qs
      (others.1, next.2 :: others.2)

/-- The requests are answered one after another. -/
inductive Converses (Step : C → Q → R → C → Prop) : C → List Q → List R → C → Prop
  | nil (c : C) : Converses Step c [] [] c
  | cons {c middle c' : C} {q : Q} {r : R} {qs : List Q} {rs : List R}
      (first : Step c q r middle) (others : Converses Step middle qs rs c') :
      Converses Step c (q :: qs) (r :: rs) c'

namespace Converses

variable {Step : C → Q → R → C → Prop} {answer : S → Q → S × R} {related : S → C → Prop}
  (ok : Q → Prop)

/-- Steps that follow the service make up conversations that do. -/
theorem of_refines
    (hstep : ∀ s c q, related s c → ok q →
      ∃ c', Step c q (answer s q).2 c' ∧ related (answer s q).1 c')
    {s : S} {c : C} (hrelated : related s c) {qs : List Q} (hqs : ∀ q ∈ qs, ok q) :
    ∃ c', Converses Step c qs (serveAll answer s qs).2 c' ∧
      related (serveAll answer s qs).1 c' := by
  induction qs generalizing s c with
  | nil => exact ⟨c, .nil c, hrelated⟩
  | cons q qs ih =>
      obtain ⟨hq, hothers⟩ := List.forall_mem_cons.mp hqs
      obtain ⟨middle, hfirst, hmiddle⟩ := hstep s c q hrelated hq
      obtain ⟨c', hrest, hlast⟩ := ih hmiddle hothers
      exact ⟨c', .cons hfirst hrest, hlast⟩

/-- Steps that have one outcome make up conversations that do. -/
theorem unique
    (hstep : ∀ c q r r' c' c'', Step c q r c' → Step c q r' c'' → r = r' ∧ c' = c'')
    {c c' c'' : C} {qs : List Q} {rs rs' : List R} (h : Converses Step c qs rs c')
    (h' : Converses Step c qs rs' c'') : rs = rs' ∧ c' = c'' := by
  induction h generalizing rs' c'' with
  | nil =>
      cases h'
      exact ⟨rfl, rfl⟩
  | cons first _ ih =>
      cases h' with
      | cons first' others' =>
          obtain ⟨rfl, rfl⟩ := hstep _ _ _ _ _ _ first first'
          obtain ⟨rfl, rfl⟩ := ih others'
          exact ⟨rfl, rfl⟩

end Converses

end Service
