import Mathlib.Logic.Basic
import Mathlib.Logic.Relation
import Mathlib.Tactic.Common

/-! # Executions of C code that may leave defined behaviour

A C function is a total function into `Exec`: either a value or the first
fault met. Loops are driven by fuel, so an execution that returns a value is
an execution of the unbounded loop as well; that a loop ends means that some
fuel is enough.
-/

namespace CSem

/-- The ways in which an execution stops without a defined result. -/
inductive Fault
  | nullPointer
  | deadBlock
  | outOfBounds
  | uninitialized
  | assertion
  | outOfFuel
  deriving DecidableEq, Repr

abbrev Exec (α : Type) := Except Fault α

namespace Exec

variable {α β : Type}

-- Both laws are kept from being used by definitional unfolding: the continuation
-- may hold machine arithmetic that the kernel would start to evaluate.
@[simp] theorem ok_bind (a : α) (f : α → Exec β) : ((.ok a : Exec α) >>= f) = f a := id rfl

@[simp] theorem error_bind (fault : Fault) (f : α → Exec β) :
    ((.error fault : Exec α) >>= f) = .error fault := id rfl

@[simp] theorem pure_eq_ok (a : α) : (pure a : Exec α) = .ok a := rfl

/-- `assert`. -/
def assert (condition : Bool) : Exec Unit := if condition then .ok () else .error .assertion

@[simp] theorem assert_true : assert true = .ok () := rfl

theorem assert_of {condition : Prop} [Decidable condition] (h : condition) :
    assert (decide condition) = .ok () := by
  rw [decide_eq_true h, assert_true]

/-- A sequence that returns ran both of its parts. -/
theorem bind_eq_ok {x : Exec α} {f : α → Exec β} {b : β} :
    (x >>= f) = .ok b ↔ ∃ a, x = .ok a ∧ f a = .ok b := by
  cases x with
  | error fault => simp
  | ok a => simp

end Exec

/-- What one round of a loop decides: go round again, or leave the loop. -/
inductive Round (σ α : Type)
  | again (state : σ)
  | leave (result : α)

variable {σ α : Type}

/-- What a round comes to, either way. -/
def Round.elim {γ : Type} (again : σ → γ) (leave : α → γ) : Round σ α → γ
  | .again state => again state
  | .leave result => leave result

/-- `fuel` rounds of a loop at most. -/
def loop (body : σ → Exec (Round σ α)) : Nat → σ → Exec α
  | 0, _ => .error .outOfFuel
  | fuel + 1, state =>
      match body state with
      | .error fault => .error fault
      | .ok (.again next) => loop body fuel next
      | .ok (.leave result) => .ok result

namespace loop

variable {body : σ → Exec (Round σ α)}

@[simp] theorem zero (state : σ) : loop body 0 state = .error .outOfFuel := rfl

theorem again {state next : σ} (hbody : body state = .ok (.again next)) (fuel : Nat) :
    loop body (fuel + 1) state = loop body fuel next := by
  simp only [loop, hbody]

theorem leave {state : σ} {result : α} (hbody : body state = .ok (.leave result)) (fuel : Nat) :
    loop body (fuel + 1) state = .ok result := by
  simp only [loop, hbody]

theorem fault {state : σ} {fault : Fault} (hbody : body state = .error fault) (fuel : Nat) :
    loop body (fuel + 1) state = .error fault := by
  simp only [loop, hbody]

/-- The last round of a loop that returned, preceded by a returning rest. -/
theorem cases_of_ok {fuel : Nat} {state : σ} {result : α}
    (hloop : loop body fuel state = .ok result) :
    ∃ rest, fuel = rest + 1 ∧
      (body state = .ok (.leave result) ∨
        ∃ next, body state = .ok (.again next) ∧ loop body rest next = .ok result) := by
  cases fuel with
  | zero => simp at hloop
  | succ rest =>
      refine ⟨rest, rfl, ?_⟩
      simp only [loop] at hloop
      split at hloop
      next => cases hloop
      next next heq => exact Or.inr ⟨next, heq, hloop⟩
      next heq =>
        cases hloop
        exact Or.inl heq

/-- Partial correctness: an invariant of the rounds holds up to the exit. -/
theorem sound (invariant : σ → Prop) (post : α → Prop)
    (hagain : ∀ state next, invariant state → body state = .ok (.again next) → invariant next)
    (hleave : ∀ state result, invariant state → body state = .ok (.leave result) → post result)
    {fuel : Nat} {state : σ} {result : α} (hstate : invariant state)
    (hloop : loop body fuel state = .ok result) : post result := by
  induction fuel generalizing state with
  | zero => simp at hloop
  | succ fuel ih =>
      obtain ⟨rest, heq, hround⟩ := cases_of_ok hloop
      cases heq
      rcases hround with hbody | ⟨next, hbody, hrest⟩
      · exact hleave state result hstate hbody
      · exact ih (hagain state next hstate hbody) hrest

/-- One round after which the loop goes on. -/
def Again (body : σ → Exec (Round σ α)) (state next : σ) : Prop := body state = .ok (.again next)

/-- A loop that returned went through some rounds to its last one. -/
theorem exists_last {fuel : Nat} {state : σ} {result : α}
    (hloop : loop body fuel state = .ok result) :
    ∃ last, Relation.ReflTransGen (Again body) state last ∧ body last = .ok (.leave result) := by
  induction fuel generalizing state with
  | zero => cases hloop
  | succ fuel ih =>
      obtain ⟨rest, heq, hround⟩ := cases_of_ok hloop
      cases heq
      rcases hround with hbody | ⟨next, hbody, hrest⟩
      · exact ⟨state, .refl, hbody⟩
      · obtain ⟨last, hrun, hleave⟩ := ih hrest
        exact ⟨last, .head hbody hrun, hleave⟩

/-- Total correctness: rounds that keep an invariant and lower a measure
leave the loop within that many rounds. -/
theorem total (invariant : σ → Prop) (measure : σ → Nat) (post : α → Prop)
    (hround : ∀ state, invariant state →
      (∃ next, body state = .ok (.again next) ∧ invariant next ∧ measure next < measure state) ∨
      (∃ result, body state = .ok (.leave result) ∧ post result))
    {fuel : Nat} {state : σ} (hstate : invariant state) (hfuel : measure state < fuel) :
    ∃ result, loop body fuel state = .ok result ∧ post result := by
  induction fuel generalizing state with
  | zero => omega
  | succ fuel ih =>
      rcases hround state hstate with ⟨next, hbody, hnext, hlt⟩ | ⟨result, hbody, hpost⟩
      · rw [again hbody]
        exact ih hnext (by omega)
      · exact ⟨result, leave hbody fuel, hpost⟩

/-- More fuel does not change a result. -/
theorem mono {fuel more : Nat} {state : σ} {result : α}
    (hloop : loop body fuel state = .ok result) (hle : fuel ≤ more) :
    loop body more state = .ok result := by
  induction fuel generalizing state more with
  | zero => simp at hloop
  | succ fuel ih =>
      obtain ⟨more, rfl⟩ : ∃ rest, more = rest + 1 := ⟨more - 1, by omega⟩
      obtain ⟨rest, heq, hround⟩ := cases_of_ok hloop
      cases heq
      rcases hround with hbody | ⟨next, hbody, hrest⟩
      · exact leave hbody more
      · rw [again hbody]
        exact ih hrest (by omega)

end loop

end CSem
