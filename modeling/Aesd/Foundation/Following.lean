import Aesd.Foundation.BoundedQueue
import Aesd.Foundation.Segments

/-! # Following a bounded queue of segments

A reader of a bounded queue keeps a position, counted in elements from the start
of the oldest segment that the queue still has, and takes the rest of one segment
at a time. A push that evicts a segment shifts what the position refers to.
-/

namespace Following

variable {α : Type}

/-- What one read took, and whether the position was known to be at the start of
a segment then. -/
structure Piece (α : Type) where
  text : List α
  steady : Bool
  deriving DecidableEq

/-- The segments ever pushed, the position of the reader, whether no eviction has
shifted it since its last read, the piece it has taken and not yet passed on, and
the pieces it has passed on. -/
structure Reader (α : Type) where
  history : List (List α)
  position : Nat
  steady : Bool
  held : Option (Piece α)
  pieces : List (Piece α)
  deriving DecidableEq

namespace Reader

/-- A reader at the start of a queue that has not evicted anything. -/
def start (history : List (List α)) : Reader α := ⟨history, 0, true, none, []⟩

variable (capacity : Nat)

/-- The segments that the queue still has. -/
def retained (r : Reader α) : List (List α) := r.history.rtake capacity

/-- What a read takes: the rest of the segment at the position. -/
def next (r : Reader α) : List α :=
  match Segments.locate ((r.retained capacity).map List.length) r.position with
  | none => []
  | some (index, offset) => ((r.retained capacity).getD index []).drop offset

/-- At the start of the queue an eviction does no harm. -/
def push (r : Reader α) (segment : List α) : Reader α :=
  { r with
    history := r.history ++ [segment]
    steady := r.steady && (decide (r.history.length < capacity) || decide (r.position = 0)) }

def take [DecidableEq α] (r : Reader α) : Reader α :=
  if r.next capacity = [] then r
  else { r with
    position := r.position + (r.next capacity).length
    steady := true
    held := some ⟨r.next capacity, r.steady⟩ }

def pass (r : Reader α) : Reader α :=
  { r with held := none, pieces := r.pieces ++ r.held.toList }

end Reader

/-- A piece comes from the end of its segment, and is the whole segment if no
eviction shifted the position. -/
def Piece.ComesFrom (piece : Piece α) (segment : List α) : Prop :=
  piece.text ≠ [] ∧ piece.text <:+ segment ∧ (piece.steady = true → piece.text = segment)

/-- The elements of the first segments. -/
def measure (segments : List (List α)) (count : Nat) : Nat :=
  ((segments.map List.length).take count).sum

theorem measure_mono (segments : List (List α)) {count more : Nat} (hle : count ≤ more) :
    measure segments count ≤ measure segments more := by
  have hprefix := List.take_prefix_take_left (l := segments.map List.length) hle
  obtain ⟨others, heq⟩ := hprefix
  rw [measure, measure, ← heq, List.sum_append]
  exact Nat.le_add_right _ _

theorem measure_succ (segments : List (List α)) {count : Nat} (hlt : count < segments.length) :
    measure segments (count + 1) = measure segments count + segments[count].length := by
  rw [measure, Segments.sum_take_succ _ (by simpa using hlt), List.getElem_map, measure]

theorem measure_append {segments : List (List α)} {count : Nat} (hle : count ≤ segments.length)
    (segment : List α) : measure (segments ++ [segment]) count = measure segments count := by
  rw [measure, List.map_append, List.take_append_of_le_length (by simpa using hle), measure]

/-- Counting from a later start. -/
theorem measure_drop (segments : List (List α)) (first count : Nat) :
    measure segments (first + count) =
      measure segments first + measure (segments.drop first) count := by
  rw [measure, List.take_add, List.sum_append, ← List.map_drop, measure, measure]

/-- Only segments up to this one end before a place inside it. -/
theorem le_of_measure_le {segments : List (List α)} {index offset count : Nat}
    (hlt : index < segments.length) (hinside : offset < segments[index].length)
    (hle : measure segments count ≤ measure segments index + offset) : count ≤ index := by
  by_contra hlater
  have hmono := measure_mono segments (Nat.succ_le_of_lt (Nat.lt_of_not_le hlater))
  rw [Nat.succ_eq_add_one, measure_succ _ hlt] at hmono
  omega

/-- The pieces of a reader come from different segments, in the order in which
these were pushed, and its position is behind the last of them. -/
structure Sound (capacity : Nat) (r : Reader α) : Prop where
  served : ∃ count segments, count ≤ r.history.length ∧
    segments.Sublist (r.history.take count) ∧
    List.Forall₂ Piece.ComesFrom (r.pieces ++ r.held.toList) segments ∧
    measure r.history count ≤
      measure r.history (r.history.length - capacity) + r.position
  steady : r.steady = true → ∃ count, count ≤ (r.retained capacity).length ∧
    r.position = measure (r.retained capacity) count

variable {capacity : Nat} {r : Reader α}

theorem sound_start (history : List (List α)) : Sound capacity (Reader.start history) where
  served := ⟨0, [], Nat.zero_le _, by simp, .nil, Nat.zero_le _⟩
  steady _ := ⟨0, Nat.zero_le _, rfl⟩

theorem Sound.pass (h : Sound capacity r) : Sound capacity r.pass where
  served := by
    obtain ⟨count, segments, hcount, hsub, hall, hbehind⟩ := h.served
    exact ⟨count, segments, hcount, hsub, by simpa [Reader.pass] using hall, hbehind⟩
  steady := h.steady

theorem Sound.push (h : Sound capacity r) (segment : List α) :
    Sound capacity (r.push capacity segment) where
  served := by
    obtain ⟨count, segments, hcount, hsub, hall, hbehind⟩ := h.served
    have hlength : (r.push capacity segment).history.length = r.history.length + 1 := by
      simp [Reader.push]
    refine ⟨count, segments, by omega, ?_, hall, ?_⟩
    · rw [Reader.push, List.take_append_of_le_length hcount]
      exact hsub
    · -- an eviction only moves the position further
      have hfurther := measure_mono r.history
        (Nat.sub_le_sub_right (Nat.le_add_right r.history.length 1) capacity)
      rw [hlength]
      simp only [Reader.push]
      rw [measure_append hcount]
      by_cases hroom : r.history.length + 1 - capacity ≤ r.history.length
      · rw [measure_append hroom]
        omega
      · have hall' := measure_mono (r.history ++ [segment])
          (Nat.le_of_lt (Nat.lt_of_not_le hroom))
        rw [measure_append (Nat.le_refl _)] at hall'
        have := measure_mono r.history hcount
        omega
  steady hsteady := by
    simp only [Reader.push, Bool.and_eq_true, Bool.or_eq_true, decide_eq_true_eq] at hsteady
    obtain ⟨hbefore, hroom | hzero⟩ := hsteady
    · obtain ⟨count, hcount, hposition⟩ := h.steady hbefore
      have hretained : (r.push capacity segment).retained capacity =
          r.retained capacity ++ [segment] := by
        have hnone : r.history.length - capacity = 0 := by omega
        have hnone' : r.history.length + 1 - capacity = 0 := by omega
        simp [Reader.retained, Reader.push, List.rtake, hnone, hnone']
      refine ⟨count, ?_, ?_⟩
      · rw [hretained, List.length_append]
        omega
      · rw [hretained, measure_append hcount]
        exact hposition
    · exact ⟨0, Nat.zero_le _, hzero⟩

theorem Sound.take [DecidableEq α] (h : Sound capacity r) (hheld : r.held = none) :
    Sound capacity (r.take capacity) := by
  unfold Reader.take
  by_cases hend : r.next capacity = []
  · rw [if_pos hend]
    exact h
  rw [if_neg hend]
  unfold Reader.next at hend ⊢
  cases hlocate : Segments.locate ((r.retained capacity).map List.length) r.position with
  | none =>
      rw [hlocate] at hend
      exact absurd rfl hend
  | some found =>
      obtain ⟨index, offset⟩ := found
      simp only [hlocate] at hend ⊢
      obtain ⟨hindex, hinside, hposition⟩ := Segments.locate_eq_some_iff.mp hlocate
      have hlt : index < (r.retained capacity).length := by simpa using hindex
      rw [List.getElem_map] at hinside
      have hsegment : (r.retained capacity).getD index [] = (r.retained capacity)[index] := by
        rw [List.getD_eq_getElem?_getD, List.getElem?_eq_getElem hlt, Option.getD_some]
      rw [hsegment] at hend ⊢
      have hstart : r.position = measure (r.retained capacity) index + offset := hposition.symm
      have hnext : r.position + ((r.retained capacity)[index].drop offset).length =
          measure (r.retained capacity) (index + 1) := by
        rw [measure_succ _ hlt, List.length_drop]
        omega
      -- the segment's place in the history
      have hplace : r.history.length - capacity + index < r.history.length := by
        rw [Reader.retained, BoundedQueue.length_rtake] at hlt
        omega
      have hsame : (r.retained capacity)[index] =
          r.history[r.history.length - capacity + index] := by
        simp only [Reader.retained, List.rtake, List.getElem_drop]
      have hmeasure : ∀ count, measure r.history (r.history.length - capacity + count) =
          measure r.history (r.history.length - capacity) + measure (r.retained capacity) count :=
        fun count => measure_drop _ _ _
      refine ⟨?_, fun _ => ⟨index + 1, hlt, hnext⟩⟩
      obtain ⟨count, segments, hcount, hsub, hall, hbehind⟩ := h.served
      have hearlier : count ≤ r.history.length - capacity + index := by
        apply le_of_measure_le hplace (hsame ▸ hinside)
        rwa [hmeasure, Nat.add_assoc, ← hstart]
      refine ⟨r.history.length - capacity + index + 1,
        segments ++ [r.history[r.history.length - capacity + index]], hplace, ?_, ?_, ?_⟩
      · rw [List.take_succ_eq_append_getElem hplace]
        exact (hsub.trans (List.take_prefix_take_left hearlier).sublist).append (.refl _)
      · rw [hheld, Option.toList_none, List.append_nil] at hall
        refine List.rel_append hall (.cons ⟨hend, ?_, ?_⟩ .nil)
        · rw [hsame]
          exact List.drop_suffix _ _
        · intro hsteady
          obtain ⟨boundary, _, hboundary⟩ := h.steady hsteady
          have hbefore : boundary ≤ index := le_of_measure_le hlt hinside (by omega)
          have hzero : offset = 0 := by
            have hmono := measure_mono (r.retained capacity) hbefore
            omega
          rw [hzero, List.drop_zero]
          exact hsame
      · rw [hnext, Nat.add_assoc, hmeasure]

/-- The piece not yet passed on comes from some segment. -/
theorem Sound.held {piece : Piece α} (h : Sound capacity r) (hheld : r.held = some piece) :
    ∃ segment ∈ r.history, piece.ComesFrom segment := by
  obtain ⟨count, segments, _, hsub, hall, _⟩ := h.served
  rw [hheld, Option.toList_some] at hall
  obtain ⟨hlength, hfrom⟩ := List.forall₂_iff_get.mp hall
  have hlast : r.pieces.length < (r.pieces ++ [piece]).length := by
    rw [List.length_append]
    exact Nat.lt_succ_self _
  have hpiece := hfrom r.pieces.length hlast (hlength ▸ hlast)
  rw [List.get_eq_getElem, List.getElem_concat_length rfl] at hpiece
  exact ⟨_, List.mem_of_mem_take (hsub.subset (List.get_mem _ _)), hpiece⟩

/-- What was passed on comes from different segments, in the order of the pushes. -/
theorem Sound.pieces (h : Sound capacity r) :
    ∃ segments, segments.Sublist r.history ∧ List.Forall₂ Piece.ComesFrom r.pieces segments := by
  obtain ⟨count, segments, _, hsub, hall, _⟩ := h.served
  refine ⟨segments.take r.pieces.length, ?_, ?_⟩
  · exact ((List.take_sublist _ _).trans hsub).trans (List.take_sublist _ _)
  · have htake := List.forall₂_take r.pieces.length hall
    rwa [List.take_left] at htake

end Following
