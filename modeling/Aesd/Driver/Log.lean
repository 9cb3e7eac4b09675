import Aesd.Foundation.Lines
import Aesd.Foundation.BoundedQueue
import Aesd.Foundation.Segments

/-!
# The line log

What the device is for: a byte stream goes in, and the device keeps the last ten
complete lines together with the unterminated rest. A log carries the shape of
its lines, so only contents that a stream can leave behind are logs.
-/

namespace Aesd

open LineStream

/-- The line terminator of the log. -/
abbrev newline : UInt8 := 10

theorem notMem_line {front : List UInt8} (hnul : 0 ∉ front) : 0 ∉ front ++ [newline] := by
  rw [List.mem_append, List.mem_singleton, not_or]
  exact ⟨hnul, by decide⟩

/-- The last complete lines of a stream, at most ten, and its unterminated rest. -/
@[ext]
structure Log where
  committed : List (List UInt8)
  pending : List UInt8
  isLine : ∀ line ∈ committed, IsLine newline line
  length_le : committed.length ≤ 10
  notMem : newline ∉ pending

namespace Log

/-- The log that a stream leaves behind. -/
def ofStream (stream : List UInt8) : Log where
  committed := (lines newline stream).rtake 10
  pending := rest newline stream
  isLine := fun _ hmem => isLine_of_mem_lines (List.mem_of_mem_drop hmem)
  length_le := by
    rw [BoundedQueue.length_rtake]
    exact Nat.min_le_right _ _
  notMem := rest_notMem stream

def empty : Log := ofStream []

/-- The bytes that one write uses: up to the first newline, or all of them. -/
def consumed (bytes : List UInt8) : List UInt8 :=
  bytes.take (bytes.findIdx (· == newline) + 1)

/-- Everything a reader can see: the committed lines, then the rest. -/
def contents (log : Log) : List UInt8 := log.committed.flatten ++ log.pending

/-- The pieces that reads are served from: the committed lines, then the rest. -/
def segments (log : Log) : List (List UInt8) := log.committed ++ [log.pending]

/-- The piece a position falls into, with the offset inside it. -/
def locate (log : Log) (pos : Nat) : Option (Nat × Nat) :=
  Segments.locate (log.segments.map List.length) pos

/-- What one read finds at a position: the rest of the piece, as far as asked for. -/
def readAt (log : Log) (count pos : Nat) : List UInt8 :=
  match log.locate pos with
  | none => []
  | some (index, offset) => ((log.segments.getD index []).drop offset).take count

@[simp] theorem flatten_segments (log : Log) : log.segments.flatten = log.contents := by
  simp [segments, contents]

theorem getD_segments_of_lt (log : Log) {i : Nat} (hi : i < log.committed.length) :
    log.segments.getD i [] = log.committed[i] := by
  rw [segments, List.getD_eq_getElem?_getD, List.getElem?_append_left hi,
    List.getElem?_eq_getElem hi, Option.getD_some]

theorem getD_segments_length (log : Log) :
    log.segments.getD log.committed.length [] = log.pending := by
  simp [segments]

theorem length_contents (log : Log) :
    log.contents.length = (log.segments.map List.length).sum := by
  rw [← flatten_segments, List.length_flatten]

theorem locate_eq_none_iff {log : Log} {pos : Nat} :
    log.locate pos = none ↔ log.contents.length ≤ pos := by
  rw [locate, Segments.locate_eq_none_iff, length_contents]

theorem readAt_of_none {log : Log} {pos : Nat} (hlocate : log.locate pos = none) (count : Nat) :
    log.readAt count pos = [] := by
  simp only [readAt, hlocate]

theorem readAt_of_some {log : Log} {pos index offset : Nat}
    (hlocate : log.locate pos = some (index, offset)) (count : Nat) :
    log.readAt count pos = ((log.segments.getD index []).drop offset).take count := by
  simp only [readAt, hlocate]

/-- A located position lies inside its piece. -/
theorem lt_of_locate {log : Log} {pos index offset : Nat}
    (hlocate : log.locate pos = some (index, offset)) :
    index < log.segments.length ∧ offset < (log.segments.getD index []).length := by
  obtain ⟨hindex, hoffset⟩ := Segments.lt_of_locate hlocate
  rw [List.getD_eq_getElem?_getD, List.getElem?_eq_getElem hindex]
  exact ⟨hindex, hoffset⟩

/-- The piece of a located position ends within the contents. -/
theorem end_le_of_locate {log : Log} {pos index offset : Nat}
    (hlocate : log.locate pos = some (index, offset)) :
    pos + ((log.segments.getD index []).length - offset) ≤ log.contents.length := by
  have hinside := (lt_of_locate hlocate).2
  have hdrop := congrArg List.length (Segments.drop_flatten_of_locate hlocate)
  rw [flatten_segments, List.length_drop, List.length_append, List.length_drop] at hdrop
  omega

/-- A read takes the next bytes of the contents. -/
theorem readAt_append_drop (log : Log) (count pos : Nat) :
    log.readAt count pos ++ log.contents.drop (pos + (log.readAt count pos).length) =
      log.contents.drop pos := by
  have hprefix : log.readAt count pos <+: log.contents.drop pos := by
    cases hlocate : log.locate pos with
    | none =>
        rw [readAt_of_none hlocate]
        exact List.nil_prefix
    | some found =>
        rw [readAt_of_some hlocate, ← flatten_segments, Segments.drop_flatten_of_locate hlocate]
        exact (List.take_prefix _ _).trans (List.prefix_append _ _)
  obtain ⟨others, heq⟩ := hprefix
  rw [← List.drop_drop, ← heq, List.drop_left]

/-- Before the end of the contents a read finds something. -/
theorem length_readAt_pos {log : Log} {count pos : Nat} (hcount : 0 < count)
    (hlt : pos < log.contents.length) : 0 < (log.readAt count pos).length := by
  cases hlocate : log.locate pos with
  | none =>
      have := locate_eq_none_iff.mp hlocate
      omega
  | some found =>
      have hinside := (lt_of_locate hlocate).2
      rw [readAt_of_some hlocate, List.length_take, List.length_drop]
      omega

theorem length_readAt_pos_iff {log : Log} {count pos : Nat} (hcount : 0 < count) :
    0 < (log.readAt count pos).length ↔ pos < log.contents.length := by
  refine ⟨fun hpos => ?_, length_readAt_pos hcount⟩
  by_contra hge
  rw [readAt_of_none (locate_eq_none_iff.mpr (Nat.not_lt.mp hge)), List.length_nil] at hpos
  exact Nat.lt_irrefl 0 hpos

theorem length_readAt_le (log : Log) (count pos : Nat) : (log.readAt count pos).length ≤ count := by
  cases hlocate : log.locate pos with
  | none =>
      rw [readAt_of_none hlocate]
      exact Nat.zero_le count
  | some found =>
      rw [readAt_of_some hlocate, List.length_take]
      exact Nat.min_le_left _ _

theorem newline_mem_iff {bytes : List UInt8} :
    newline ∈ bytes ↔ bytes.findIdx (· == newline) < bytes.length := by
  rw [List.findIdx_lt_length]
  simp

theorem consumed_of_notMem {bytes : List UInt8} (hnot : newline ∉ bytes) :
    consumed bytes = bytes := by
  have := mt newline_mem_iff.mpr hnot
  exact List.take_of_length_le (by omega)

/-- Up to the first newline is a line. -/
theorem isLine_consumed {bytes : List UInt8} (hmem : newline ∈ bytes) :
    IsLine newline (consumed bytes) := by
  have hlt := newline_mem_iff.mp hmem
  refine ⟨bytes.take (bytes.findIdx (· == newline)), ?_, ?_⟩
  · have hget : bytes[bytes.findIdx (· == newline)] = newline := by
      simpa using List.findIdx_getElem (w := hlt)
    rw [consumed, List.take_succ_eq_append_getElem hlt, hget]
  · intro hin
    obtain ⟨i, hi, heq⟩ := List.mem_iff_getElem.mp hin
    have hbefore : i < bytes.findIdx (· == newline) := by
      rw [List.length_take] at hi
      omega
    rw [List.getElem_take] at heq
    have := List.not_of_lt_findIdx hbefore
    simp [heq] at this

theorem length_consumed_le (bytes : List UInt8) : (consumed bytes).length ≤ bytes.length := by
  rw [consumed, List.length_take]
  exact Nat.min_le_right _ _

theorem take_length_consumed (bytes : List UInt8) :
    bytes.take (consumed bytes).length = consumed bytes := by
  rw [consumed, List.length_take, List.take_eq_take_iff]
  omega

theorem length_consumed_pos {bytes : List UInt8} (hne : bytes ≠ []) :
    0 < (consumed bytes).length := by
  have := List.length_pos_of_ne_nil hne
  rw [consumed, List.length_take]
  omega

/-- A line is used whole. -/
theorem consumed_of_isLine {line : List UInt8} (hline : IsLine newline line) :
    consumed line = line := by
  obtain ⟨body, rfl, hnot⟩ := hline
  have hidx : (body ++ [newline]).findIdx (· == newline) = body.length := by
    have hnone : body.findIdx (· == newline) = body.length := by
      rw [List.findIdx_eq_length]
      intro x hx
      exact beq_eq_false_iff_ne.mpr fun heq => hnot (heq ▸ hx)
    simp [List.findIdx_append, hnone]
  rw [consumed, hidx]
  exact List.take_of_length_le (by simp)

/-- Add bytes without a newline. -/
def extend (log : Log) (bytes : List UInt8) (hnot : newline ∉ bytes) : Log where
  committed := log.committed
  pending := log.pending ++ bytes
  isLine := log.isLine
  length_le := log.length_le
  notMem := by simp [log.notMem, hnot]

/-- Close the pending bytes with a line, dropping the oldest of ten lines. -/
def commit (log : Log) (line : List UInt8) (hline : IsLine newline line) : Log where
  committed := (BoundedQueue.push 10 log.committed (log.pending ++ line)).1
  pending := []
  isLine := by
    intro l hmem
    have hmem : l ∈ log.committed ++ [log.pending ++ line] := by
      unfold BoundedQueue.push at hmem
      split at hmem
      · exact hmem
      · exact List.mem_of_mem_tail hmem
    rcases List.mem_append.mp hmem with hmem | hmem
    · exact log.isLine l hmem
    · rw [List.mem_singleton.mp hmem]
      exact hline.append log.notMem
  length_le := by
    have := log.length_le
    unfold BoundedQueue.push
    split
    · simp only [List.length_append, List.length_singleton]
      omega
    · simp only [List.length_tail, List.length_append, List.length_singleton]
      omega
  notMem := by simp

/-- What one write does to the log. -/
def accept (log : Log) (bytes : List UInt8) : Log :=
  if hmem : newline ∈ bytes then log.commit (consumed bytes) (isLine_consumed hmem)
  else log.extend bytes hmem

theorem accept_of_notMem (log : Log) {bytes : List UInt8} (hnot : newline ∉ bytes) :
    log.accept bytes = log.extend bytes hnot := dif_neg hnot

theorem accept_of_mem (log : Log) {bytes : List UInt8} (hmem : newline ∈ bytes) :
    log.accept bytes = log.commit (consumed bytes) (isLine_consumed hmem) := dif_pos hmem

/-- A write takes the log of a stream to the log of the longer stream. -/
theorem accept_ofStream (stream bytes : List UInt8) :
    (ofStream stream).accept bytes = ofStream (stream ++ consumed bytes) := by
  by_cases hmem : newline ∈ bytes
  · have hsplit := split_append_line stream (isLine_consumed hmem)
    rw [accept_of_mem _ hmem]
    ext1
    · simp only [commit, ofStream, lines, rest, hsplit]
      rw [BoundedQueue.push_rtake]
    · simp only [commit, ofStream, rest, hsplit]
  · have hsplit := split_append_of_notMem stream hmem
    rw [accept_of_notMem _ hmem, consumed_of_notMem hmem]
    ext1
    · simp only [extend, ofStream, lines, hsplit]
    · simp only [extend, ofStream, rest, hsplit]

end Log

end Aesd
