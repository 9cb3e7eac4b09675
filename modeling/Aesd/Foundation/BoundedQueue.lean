import Mathlib.Data.List.DropRight
import Mathlib.Data.List.Forall2
import Mathlib.Tactic.Common

/-! # Bounded queues that keep the newest elements

A bounded queue accepts every element. Once it holds its capacity, each new
element evicts the oldest one. Its contents are the last elements pushed, and
the evicted elements come back in the order in which they went in.
-/

namespace BoundedQueue

variable {α : Type}

/-- Push an element; the second component is the evicted element, if any. -/
def push (capacity : Nat) (queue : List α) (x : α) : List α × Option α :=
  if queue.length < capacity then (queue ++ [x], none)
  else ((queue ++ [x]).tail, (queue ++ [x]).head?)

/-- Push elements one after another, listing what each push evicts. -/
def pushAll (capacity : Nat) (queue : List α) : List α → List α × List (Option α)
  | [] => (queue, [])
  | x :: xs =>
      let step := push capacity queue x
      let run := pushAll capacity step.1 xs
      (run.1, step.2 :: run.2)

theorem length_rtake (capacity : Nat) (xs : List α) :
    (xs.rtake capacity).length = min xs.length capacity := by
  simp only [List.rtake, List.length_drop]
  omega

theorem push_rtake (capacity : Nat) (xs : List α) (x : α) :
    push capacity (xs.rtake capacity) x =
      ((xs ++ [x]).rtake capacity, if xs.length < capacity then none
        else (xs ++ [x])[xs.length - capacity]?) := by
  unfold push
  rw [length_rtake]
  by_cases hroom : xs.length < capacity
  · rw [if_pos (by omega), if_pos hroom]
    have hall : xs.length - capacity = 0 := by omega
    have hall' : xs.length + 1 - capacity = 0 := by omega
    simp [List.rtake, hall, hall']
  · rw [if_neg (by omega), if_neg hroom]
    have hdrop : xs.drop (xs.length - capacity) ++ [x] =
        (xs ++ [x]).drop (xs.length - capacity) := by
      rw [List.drop_append_of_le_length (by omega)]
    simp only [List.rtake, hdrop, List.tail_drop, List.head?_drop, List.length_append,
      List.length_singleton, Prod.mk.injEq, and_true]
    congr 1
    omega

/-- The contents after any pushes are the last elements pushed. -/
theorem pushAll_rtake (capacity : Nat) (before xs : List α) :
    (pushAll capacity (before.rtake capacity) xs).1 = (before ++ xs).rtake capacity := by
  induction xs generalizing before with
  | nil => simp [pushAll]
  | cons x xs ih =>
      simp only [pushAll, push_rtake]
      rw [ih (before ++ [x])]
      simp

/-- The push at position `i` of a run from the empty queue evicts the element
pushed `capacity` places earlier, and nothing before that. -/
theorem pushAll_evicted (capacity : Nat) (before xs : List α) :
    (pushAll capacity (before.rtake capacity) xs).2 =
      (List.range xs.length).map fun i =>
        if before.length + i < capacity then none
        else (before ++ xs)[before.length + i - capacity]? := by
  induction xs generalizing before with
  | nil => simp [pushAll]
  | cons x xs ih =>
      simp only [pushAll, push_rtake]
      rw [ih (before ++ [x]), List.length_cons, List.range_succ_eq_map, List.map_cons,
        List.map_map]
      congr 1
      · by_cases hroom : before.length < capacity
        · simp [hroom]
        · simp only [hroom, if_false, Nat.add_zero]
          have heq : before ++ x :: xs = (before ++ [x]) ++ xs := by simp
          rw [heq]
          exact (List.getElem?_append_left
            (by rw [List.length_append, List.length_singleton]; omega)).symm
      · apply List.map_congr_left
        intro i _
        simp [Nat.add_assoc, Nat.add_comm 1 i]

/-- Queues that agree elementwise still agree after pushing related elements. -/
theorem forall₂_push {β : Type} {R : α → β → Prop} {capacity : Nat} {queue : List α}
    {queue' : List β} (hqueue : List.Forall₂ R queue queue') {x : α} {x' : β} (hx : R x x') :
    List.Forall₂ R (push capacity queue x).1 (push capacity queue' x').1 := by
  have hall : List.Forall₂ R (queue ++ [x]) (queue' ++ [x']) :=
    List.rel_append hqueue (.cons hx .nil)
  unfold push
  rw [hqueue.length_eq]
  split
  · exact hall
  · generalize queue ++ [x] = longer at hall
    generalize queue' ++ [x'] = longer' at hall
    cases hall with
    | nil => exact .nil
    | cons _ htail => exact htail

end BoundedQueue
