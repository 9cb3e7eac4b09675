import Mathlib.Algebra.BigOperators.Group.Finset.Basic
import Mathlib.Algebra.Order.BigOperators.Group.Finset
import Mathlib.Data.Fintype.BigOperators

/-! # Counting threads by where they are

Finitely many threads are each at some place. A tally counts the threads whose
place has a property; it changes by one when one thread moves.
-/

namespace Tally

variable {ι P : Type} [Fintype ι]

/-- The number of threads whose place has a property. -/
def tally (place : ι → P) (p : P → Bool) : Nat := ∑ i, (p (place i)).toNat

theorem tally_le_card (place : ι → P) (p : P → Bool) : tally place p ≤ Fintype.card ι := by
  calc tally place p ≤ ∑ _i : ι, 1 := Finset.sum_le_sum fun i _ => Bool.toNat_le (p (place i))
    _ = Fintype.card ι := by simp

theorem tally_pos_iff {place : ι → P} {p : P → Bool} :
    0 < tally place p ↔ ∃ i, p (place i) = true := by
  unfold tally
  rw [Finset.sum_pos_iff]
  constructor
  · rintro ⟨i, _, hpos⟩
    refine ⟨i, ?_⟩
    cases hp : p (place i) with
    | false => simp [hp] at hpos
    | true => rfl
  · rintro ⟨i, hp⟩
    exact ⟨i, Finset.mem_univ i, by simp [hp]⟩

/-- A tally of zero: no thread is there. -/
theorem tally_eq_zero_iff {place : ι → P} {p : P → Bool} :
    tally place p = 0 ↔ ∀ i, p (place i) = false := by
  rw [← Nat.le_zero, ← Nat.not_lt, tally_pos_iff, not_exists]
  simp only [Bool.not_eq_true]

/-- One thread that moves leaves the tally of its old place for that of its new. -/
theorem tally_update [DecidableEq ι] (place : ι → P) (i : ι) (x : P) (p : P → Bool) :
    tally (Function.update place i x) p + (p (place i)).toNat =
      tally place p + (p x).toNat := by
  have hold := Finset.sum_erase_add Finset.univ (fun j => (p (place j)).toNat) (Finset.mem_univ i)
  have hnew := Finset.sum_erase_add Finset.univ
    (fun j => (p (Function.update place i x j)).toNat) (Finset.mem_univ i)
  have hothers : ∑ j ∈ Finset.univ.erase i, (p (Function.update place i x j)).toNat =
      ∑ j ∈ Finset.univ.erase i, (p (place j)).toNat := by
    apply Finset.sum_congr rfl
    intro j hmem
    rw [Function.update_of_ne (Finset.ne_of_mem_erase hmem)]
  rw [hothers, Function.update_self] at hnew
  unfold tally
  omega

/-- The ranks of all places, put together. -/
def load (place : ι → P) (rank : P → Nat) : Nat := ∑ i, rank (place i)

theorem load_le {place : ι → P} {rank : P → Nat} {bound : Nat} (hle : ∀ x, rank x ≤ bound) :
    load place rank ≤ bound * Fintype.card ι := by
  calc load place rank ≤ ∑ _i : ι, bound := Finset.sum_le_sum fun i _ => hle (place i)
    _ = bound * Fintype.card ι := by simp [Nat.mul_comm]

/-- The load falls when one thread moves down and no other moves up. -/
theorem load_lt {place place' : ι → P} {rank : P → Nat} (i : ι)
    (hi : rank (place' i) < rank (place i))
    (hothers : ∀ j, j ≠ i → rank (place' j) ≤ rank (place j)) :
    load place' rank < load place rank := by
  refine Finset.sum_lt_sum (fun j _ => ?_) ⟨i, Finset.mem_univ i, hi⟩
  by_cases hji : j = i
  · rw [hji]
    exact Nat.le_of_lt hi
  · exact hothers j hji

end Tally
