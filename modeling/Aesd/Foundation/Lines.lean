import Mathlib.Data.List.Basic
import Mathlib.Tactic.Common

/-! # Splitting a stream at a separator

A stream is a list of elements. Its lines are the maximal pieces that end in
the separator; what follows the last separator is the unterminated rest. The
decomposition is unique, so every fact about it reduces to checking pieces.
-/

namespace LineStream

variable {α : Type} (sep : α)

/-- A line ends in its only separator. -/
def IsLine (line : List α) : Prop := ∃ body, line = body ++ [sep] ∧ sep ∉ body

section

variable {sep}

theorem IsLine.ne_nil {line : List α} (hline : IsLine sep line) : line ≠ [] := by
  obtain ⟨body, rfl, _⟩ := hline
  simp

theorem IsLine.cons {line : List α} (hline : IsLine sep line) {x : α} (hne : x ≠ sep) :
    IsLine sep (x :: line) := by
  obtain ⟨body, rfl, hnot⟩ := hline
  exact ⟨x :: body, rfl, by simp [Ne.symm hne, hnot]⟩

theorem isLine_singleton : IsLine sep [sep] := ⟨[], rfl, by simp⟩

/-- A rest without separator in front of a line lengthens the line. -/
theorem IsLine.append {line front : List α} (hline : IsLine sep line) (hfront : sep ∉ front) :
    IsLine sep (front ++ line) := by
  obtain ⟨body, rfl, hnot⟩ := hline
  exact ⟨front ++ body, by simp, by simp [hfront, hnot]⟩

/-- What remains of a line after some of its bytes is a line. -/
theorem IsLine.drop {line : List α} (hline : IsLine sep line) {count : Nat}
    (hlt : count < line.length) : IsLine sep (line.drop count) := by
  obtain ⟨body, rfl, hnot⟩ := hline
  refine ⟨body.drop count, ?_, fun hmem => hnot (List.mem_of_mem_drop hmem)⟩
  rw [List.drop_append_of_le_length (by simpa using Nat.lt_succ_iff.mp (by simpa using hlt))]

end

variable [DecidableEq α]

/-- The lines of a stream, in order, with the unterminated rest. -/
def split : List α → List (List α) × List α
  | [] => ([], [])
  | x :: xs =>
      if x = sep then ([x] :: (split xs).1, (split xs).2)
      else
        match split xs with
        | ([], rest) => ([], x :: rest)
        | (line :: lines, rest) => ((x :: line) :: lines, rest)

/-- The newline-terminated lines of a stream. -/
def lines (stream : List α) : List (List α) := (split sep stream).1

/-- The part of a stream after its last separator. -/
def rest (stream : List α) : List α := (split sep stream).2

variable {sep}

theorem split_of_notMem {stream : List α} (hnot : sep ∉ stream) :
    split sep stream = ([], stream) := by
  induction stream with
  | nil => rfl
  | cons x xs ih =>
      simp only [List.mem_cons, not_or] at hnot
      simp [split, Ne.symm hnot.1, ih hnot.2]

theorem split_line_append {line : List α} (hline : IsLine sep line) (stream : List α) :
    split sep (line ++ stream) = (line :: lines sep stream, rest sep stream) := by
  obtain ⟨body, rfl, hnot⟩ := hline
  induction body with
  | nil => simp [split, lines, rest]
  | cons x xs ih =>
      simp only [List.mem_cons, not_or] at hnot
      have htail := ih hnot.2
      simp only [List.cons_append, split, if_neg (Ne.symm hnot.1), htail]

/-- The decomposition into lines and an unterminated rest is unique. -/
theorem split_flatten_append {ls : List (List α)} {tail : List α}
    (hlines : ∀ line ∈ ls, IsLine sep line) (htail : sep ∉ tail) :
    split sep (ls.flatten ++ tail) = (ls, tail) := by
  induction ls with
  | nil => simpa using split_of_notMem htail
  | cons line ls ih =>
      rw [List.flatten_cons, List.append_assoc,
        split_line_append (hlines line List.mem_cons_self), lines, rest,
        ih fun l hl => hlines l (List.mem_cons_of_mem line hl)]

/-- Lines in front of a stream stay its first lines. -/
theorem lines_flatten_append {ls : List (List α)} (hlines : ∀ line ∈ ls, IsLine sep line)
    (stream : List α) : lines sep (ls.flatten ++ stream) = ls ++ lines sep stream := by
  induction ls with
  | nil => rfl
  | cons line ls ih =>
      have htail := ih fun l hl => hlines l (List.mem_cons_of_mem line hl)
      have hsplit := split_line_append (hlines line List.mem_cons_self) (ls.flatten ++ stream)
      rw [List.flatten_cons, List.append_assoc, lines, hsplit, List.cons_append]
      exact congrArg (line :: ·) htail

theorem rest_notMem (stream : List α) : sep ∉ rest sep stream := by
  induction stream with
  | nil => simp [rest, split]
  | cons x xs ih =>
      unfold rest at ih ⊢
      unfold split
      split
      · exact ih
      next hne =>
        split
        next tail heq =>
          rw [heq] at ih
          simp only [List.mem_cons, not_or]
          exact ⟨Ne.symm hne, ih⟩
        next heq =>
          rw [heq] at ih
          exact ih

theorem isLine_of_mem_lines {stream line : List α} (hmem : line ∈ lines sep stream) :
    IsLine sep line := by
  induction stream generalizing line with
  | nil => simp [lines, split] at hmem
  | cons x xs ih =>
      unfold lines at ih hmem
      unfold split at hmem
      split at hmem
      next heq =>
        rcases List.mem_cons.mp hmem with rfl | hmem
        · exact heq ▸ isLine_singleton
        · exact ih hmem
      next hne =>
        split at hmem
        next => simp at hmem
        next first others tail heq =>
          rw [heq] at ih
          rcases List.mem_cons.mp hmem with rfl | hmem
          · exact (ih List.mem_cons_self).cons hne
          · exact ih (List.mem_cons_of_mem first hmem)

/-- Lines and rest together are the stream. -/
theorem lines_flatten_append_rest (sep : α) (stream : List α) :
    (lines sep stream).flatten ++ rest sep stream = stream := by
  induction stream with
  | nil => rfl
  | cons x xs ih =>
      unfold lines rest at ih ⊢
      unfold split
      split
      · simpa using ih
      · split
        next tail heq =>
          rw [heq] at ih
          simpa using ih
        next first others tail heq =>
          rw [heq] at ih
          simpa using ih

/-- A stream that grows keeps its lines. -/
theorem lines_prefix_append (sep : α) (stream more : List α) :
    lines sep stream <+: lines sep (stream ++ more) := by
  have hstream := lines_flatten_append_rest sep stream
  have hlines : ∀ line ∈ lines sep stream, IsLine sep line := fun _ hmem => isLine_of_mem_lines hmem
  conv_rhs => rw [← hstream, List.append_assoc, lines_flatten_append hlines]
  exact List.prefix_append _ _

/-- Appending without a separator only lengthens the rest. -/
theorem split_append_of_notMem {sep : α} (stream : List α) {chunk : List α} (hnot : sep ∉ chunk) :
    split sep (stream ++ chunk) = (lines sep stream, rest sep stream ++ chunk) := by
  conv_lhs => rw [← lines_flatten_append_rest sep stream, List.append_assoc]
  refine split_flatten_append (fun line hmem => isLine_of_mem_lines hmem) ?_
  simpa [hnot] using rest_notMem stream

/-- Appending a line closes the rest. -/
theorem split_append_line (stream : List α) {chunk : List α} (hline : IsLine sep chunk) :
    split sep (stream ++ chunk) = (lines sep stream ++ [rest sep stream ++ chunk], []) := by
  have hclosed : IsLine sep (rest sep stream ++ chunk) := hline.append (rest_notMem stream)
  have hflatten : stream ++ chunk =
      (lines sep stream ++ [rest sep stream ++ chunk]).flatten ++ [] := by
    simp [← List.append_assoc, lines_flatten_append_rest]
  rw [hflatten]
  refine split_flatten_append ?_ (by simp)
  intro line hmem
  rcases List.mem_append.mp hmem with hmem | hmem
  · exact isLine_of_mem_lines hmem
  · rw [List.mem_singleton.mp hmem]
    exact hclosed

/-- The stream in front of its first separator, and behind it. -/
def cut (sep : α) : List α → Option (List α × List α)
  | [] => none
  | x :: xs =>
      if x = sep then some ([], xs)
      else (cut sep xs).map fun parts => (x :: parts.1, parts.2)

theorem cut_eq_none {stream : List α} (hnot : sep ∉ stream) : cut sep stream = none := by
  induction stream with
  | nil => rfl
  | cons x xs ih =>
      simp only [List.mem_cons, not_or] at hnot
      rw [cut, if_neg (Ne.symm hnot.1), ih hnot.2]
      rfl

theorem cut_append {front : List α} (hnot : sep ∉ front) (back : List α) :
    cut sep (front ++ sep :: back) = some (front, back) := by
  induction front with
  | nil => exact if_pos rfl
  | cons x xs ih =>
      simp only [List.mem_cons, not_or] at hnot
      rw [List.cons_append, cut, if_neg (Ne.symm hnot.1), ih hnot.2]
      rfl

/-- A stream has one first separator. -/
theorem front_unique {front front' back back' : List α} (hfront : sep ∉ front)
    (hfront' : sep ∉ front') (heq : front' ++ sep :: back' = front ++ sep :: back) :
    front' = front := by
  have hcut := (cut_append hfront' back').symm.trans
    ((congrArg (cut sep) heq).trans (cut_append hfront back))
  exact (Prod.mk.inj (Option.some.inj hcut)).1

omit [DecidableEq α] in
/-- Bytes without a separator lie in front of the first one. -/
theorem front_of_notMem {bytes others front back : List α} (hbytes : sep ∉ bytes)
    (heq : bytes ++ others = front ++ sep :: back) :
    ∃ front', front = bytes ++ front' ∧ others = front' ++ sep :: back := by
  rcases List.append_eq_append_iff.mp heq with ⟨front', hfirst, hrest⟩ | ⟨middle, hfirst, hrest⟩
  · exact ⟨front', hfirst, hrest⟩
  · cases middle with
    | nil => exact ⟨[], by simpa using hfirst.symm, by simpa using hrest.symm⟩
    | cons x middle =>
        rw [List.cons_append, List.cons.injEq] at hrest
        rw [hfirst, ← hrest.1] at hbytes
        exact absurd (List.mem_append_right _ List.mem_cons_self) hbytes

/-- Either there is no separator, or the first one cuts the stream. -/
theorem cut_cases (sep : α) (stream : List α) :
    (sep ∉ stream ∧ cut sep stream = none) ∨
      ∃ front back, stream = front ++ sep :: back ∧ sep ∉ front ∧
        cut sep stream = some (front, back) := by
  by_cases hmem : sep ∈ stream
  · obtain ⟨front, back, rfl, hnot⟩ := List.eq_append_cons_of_mem hmem
    exact Or.inr ⟨front, back, rfl, hnot, cut_append hnot back⟩
  · exact Or.inl ⟨hmem, cut_eq_none hmem⟩

end LineStream
