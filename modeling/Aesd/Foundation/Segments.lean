import Mathlib.Algebra.BigOperators.Group.List.Basic
import Mathlib.Algebra.Ring.Nat
import Mathlib.Data.List.Basic
import Mathlib.Tactic.Common

/-! # Positions in consecutive segments

Segments of given sizes are laid end to end. A position below the total size
lies in exactly one of them, at a byte offset below its size.
-/

namespace Segments

/-- The segment that a position falls into, with the offset inside it. -/
def locate : List Nat → Nat → Option (Nat × Nat)
  | [], _ => none
  | size :: sizes, position =>
      if position < size then some (0, position)
      else (locate sizes (position - size)).map fun found => (found.1 + 1, found.2)

/-- The position of an offset inside a segment. -/
def position (sizes : List Nat) (index offset : Nat) : Nat := (sizes.take index).sum + offset

theorem locate_cons_of_lt {size pos : Nat} (sizes : List Nat) (hlt : pos < size) :
    locate (size :: sizes) pos = some (0, pos) := if_pos hlt

theorem locate_cons_of_ge {size pos : Nat} (sizes : List Nat) (hge : ¬ pos < size) :
    locate (size :: sizes) pos =
      (locate sizes (pos - size)).map fun found => (found.1 + 1, found.2) := if_neg hge

theorem locate_eq_none_iff {sizes : List Nat} {pos : Nat} :
    locate sizes pos = none ↔ sizes.sum ≤ pos := by
  induction sizes generalizing pos with
  | nil => simp [locate]
  | cons size sizes ih =>
      simp only [locate, List.sum_cons]
      split
      next hlt =>
        simp only [reduceCtorEq, false_iff]
        omega
      next hge =>
        rw [Option.map_eq_none_iff, ih]
        omega

theorem locate_eq_some_iff {sizes : List Nat} {pos index offset : Nat} :
    locate sizes pos = some (index, offset) ↔
      ∃ hindex : index < sizes.length, offset < sizes[index] ∧ position sizes index offset = pos := by
  induction sizes generalizing pos index with
  | nil => simp [locate]
  | cons size sizes ih =>
      simp only [locate]
      cases index with
      | zero =>
          split
          next hlt =>
            simp only [Option.some.injEq, Prod.mk.injEq, true_and, List.length_cons,
              List.getElem_cons_zero, position, List.take_zero, List.sum_nil, Nat.zero_add,
              Nat.zero_lt_succ, exists_const]
            omega
          next hge =>
            constructor
            · intro hfound
              obtain ⟨found, _, heq⟩ := Option.map_eq_some_iff.mp hfound
              exact absurd (congrArg Prod.fst heq) (Nat.succ_ne_zero found.1)
            · rintro ⟨_, hoffset, heq⟩
              simp only [List.getElem_cons_zero, position, List.take_zero, List.sum_nil] at hoffset heq
              omega
      | succ index =>
          have hposition : position (size :: sizes) (index + 1) offset =
              size + position sizes index offset := by
            simp [position, Nat.add_assoc]
          rw [hposition]
          split
          next hlt =>
            simp only [Option.some.injEq, Prod.mk.injEq, Nat.zero_ne_add_one, false_and, false_iff]
            rintro ⟨_, _, heq⟩
            omega
          next hge =>
            have hshift : (locate sizes (pos - size)).map (fun found => (found.1 + 1, found.2)) =
                some (index + 1, offset) ↔ locate sizes (pos - size) = some (index, offset) := by
              cases locate sizes (pos - size) with
              | none => simp
              | some found =>
                  rcases found with ⟨i, b⟩
                  simp
            rw [hshift, ih]
            simp only [List.length_cons, List.getElem_cons_succ, Nat.add_lt_add_iff_right]
            constructor
            · rintro ⟨hlt, hoffset, heq⟩
              exact ⟨hlt, hoffset, by omega⟩
            · rintro ⟨hlt, hoffset, heq⟩
              exact ⟨hlt, hoffset, by omega⟩

theorem locate_position {sizes : List Nat} {index offset : Nat} (hindex : index < sizes.length)
    (hoffset : offset < sizes[index]) :
    locate sizes (position sizes index offset) = some (index, offset) :=
  locate_eq_some_iff.mpr ⟨hindex, hoffset, rfl⟩

/-- A position before the end of its segment is below the total. -/
theorem position_lt_sum {sizes : List Nat} {index offset : Nat} (hindex : index < sizes.length)
    (hoffset : offset < sizes[index]) : position sizes index offset < sizes.sum := by
  by_contra hge
  have hnone := locate_eq_none_iff.mpr (Nat.le_of_not_lt hge)
  rw [locate_position hindex hoffset] at hnone
  cases hnone

theorem sum_take_succ (sizes : List Nat) {index : Nat} (hindex : index < sizes.length) :
    (sizes.take (index + 1)).sum = (sizes.take index).sum + sizes[index] := by
  rw [List.take_succ_eq_append_getElem hindex, List.sum_append, List.sum_singleton]

theorem sum_take_le (sizes : List Nat) (index : Nat) : (sizes.take index).sum ≤ sizes.sum := by
  conv_rhs => rw [← List.take_append_drop index sizes, List.sum_append]
  exact Nat.le_add_right _ _

/-- A position is looked up in the front segments, then in the back ones. -/
theorem locate_append (front back : List Nat) (pos : Nat) :
    locate (front ++ back) pos =
      match locate front pos with
      | some found => some found
      | none => (locate back (pos - front.sum)).map fun found =>
          (found.1 + front.length, found.2) := by
  induction front generalizing pos with
  | nil => simp [locate]
  | cons size front ih =>
      rw [List.cons_append]
      by_cases hlt : pos < size
      · rw [locate_cons_of_lt _ hlt, locate_cons_of_lt _ hlt]
      · rw [locate_cons_of_ge _ hlt, locate_cons_of_ge _ hlt, ih]
        cases locate front (pos - size) with
        | some found => rfl
        | none =>
            simp only [Option.map_none, Option.map_map, List.sum_cons, List.length_cons,
              Nat.sub_add_eq]
            congr 1

section Bytes

variable {α : Type} {segments : List (List α)} {pos index offset : Nat}

/-- From a located position on, the stream is the rest of its segment and then
the segments after it. -/
theorem drop_flatten_of_locate (h : locate (segments.map List.length) pos = some (index, offset)) :
    segments.flatten.drop pos =
      (segments.getD index []).drop offset ++ (segments.drop (index + 1)).flatten := by
  induction segments generalizing pos index with
  | nil => simp [locate] at h
  | cons segment segments ih =>
      rw [List.map_cons] at h
      by_cases hlt : pos < segment.length
      · rw [locate_cons_of_lt _ hlt] at h
        cases h
        rw [List.flatten_cons, List.drop_append_of_le_length (Nat.le_of_lt hlt)]
        rfl
      · rw [locate_cons_of_ge _ hlt] at h
        obtain ⟨⟨before, inside⟩, hfound, heq⟩ := Option.map_eq_some_iff.mp h
        cases heq
        rw [List.flatten_cons, List.drop_append, List.drop_eq_nil_of_le (Nat.le_of_not_lt hlt),
          List.nil_append, ih hfound]
        rfl

/-- A located offset lies inside its segment. -/
theorem lt_of_locate (h : locate (segments.map List.length) pos = some (index, offset)) :
    ∃ hindex : index < segments.length, offset < segments[index].length := by
  obtain ⟨hindex, hoffset, _⟩ := locate_eq_some_iff.mp h
  have hlt : index < segments.length := by simpa using hindex
  exact ⟨hlt, by simpa using hoffset⟩

end Bytes

end Segments
