import Aesd.Driver.Contents

/-!
# The effect of a read

A device that holds a log serves every read from one piece of the log: a
committed line, or the unterminated rest behind the lines.
-/

namespace Aesd

open CSem

/-- What a position may fall into: the stored entries, and then the unterminated
buffer. -/
def Kernel.pieces (k : Kernel) : List BufferEntry :=
  k.dev.buffer.entries ++ [⟨k.dev.unterminatedBuffptr, k.dev.unterminatedSize⟩]

theorem getElem_getD {α : Type} {l : List α} {i : Nat} (hi : i < l.length) (default : α) :
    l.getD i default = l[i] := by
  rw [List.getD_eq_getElem?_getD, List.getElem?_eq_getElem hi, Option.getD_some]

/-- The number of bytes that a read takes of its source. -/
def finalCount (count size currentEntryByte : Nat) : Nat :=
  let available := u64 (size - currentEntryByte)
  if count < available then count else available

theorem finalCount_eq_min (count : Nat) {size currentEntryByte : Nat}
    (hle : currentEntryByte ≤ size) (hlt : size - currentEntryByte < 2 ^ 64) :
    finalCount count size currentEntryByte = min count (size - currentEntryByte) := by
  have havailable := u64_sub hle hlt
  simp only [finalCount, havailable]
  split <;> omega

/-- A read is served from the piece that its position falls into. -/
theorem Kernel.Stores.readSource_eq {k : Kernel} {es : List BufferEntry} (h : k.Stores es)
    (hsum : (entrySizes es).sum < 2 ^ 63) {fPos : Nat} (hlt : fPos < 2 ^ 63) :
    readSource k fPos = .ok ((Segments.locate (entrySizes k.pieces) fPos).map fun found =>
      ((k.pieces.getD found.1 .null).buffptr, (k.pieces.getD found.1 .null).size, found.2)) := by
  have hsize : k.dev.buffer.size = (entrySizes es).sum :=
    h.ring.size_eq h.buffptr_isSome (by omega)
  have hpieces : entrySizes k.pieces = entrySizes es ++ [k.dev.unterminatedSize] := by
    rw [Kernel.pieces, h.entries_eq, entrySizes, List.map_append]
    rfl
  have hwidth : u64 (fPos : Int) = fPos := u64_natCast (by omega)
  rw [hpieces, Segments.locate_append, Kernel.pieces, h.entries_eq]
  unfold readSource
  rw [hwidth, h.ring.findEntryOffsetForFpos hlt]
  cases hfound : Segments.locate (entrySizes es) fPos with
  | some found =>
      obtain ⟨index, offset⟩ := found
      obtain ⟨hindex, _⟩ := Segments.locate_eq_some_iff.mp hfound
      have hes : index < es.length := by rwa [length_entrySizes] at hindex
      have hpiece : (es ++ [BufferEntry.mk k.dev.unterminatedBuffptr k.dev.unterminatedSize]).getD
          index .null = es[index] := by
        rw [getElem_getD (by rw [List.length_append]; omega), List.getElem_append_left hes]
      simp only [Option.map_some, Exec.ok_bind, h.ring.slot_absoluteEntryOffset hes, hpiece]
  | none =>
      have hge := Segments.locate_eq_none_iff.mp hfound
      have hremaining : s64 ((fPos : Int) - k.dev.buffer.size) =
          ((fPos - (entrySizes es).sum : Nat) : Int) := by
        rw [hsize, s64_of_lt (by omega) (by omega)]
        omega
      have hunsigned : u64 ((fPos - (entrySizes es).sum : Nat) : Int) =
          fPos - (entrySizes es).sum := u64_natCast (by omega)
      simp only [Option.map_none, Exec.ok_bind, hremaining, hunsigned]
      by_cases hpending : fPos - (entrySizes es).sum < k.dev.unterminatedSize
      · rw [if_pos hpending, Segments.locate_cons_of_lt _ hpending]
        simp
      · rw [if_neg hpending, Segments.locate_cons_of_ge _ hpending]
        rfl

namespace Kernel.Holds

variable {k : Kernel} {es : List BufferEntry} {log : Log}

theorem entrySizes_eq (h : k.Holds es log) : entrySizes es = log.committed.map List.length := by
  have hall := h.committed
  generalize log.committed = ls at hall
  clear h
  induction hall with
  | nil => rfl
  | cons hhead _ ih =>
      obtain ⟨_, _, hsize, _⟩ := hhead
      simp only [entrySizes, List.map_cons] at ih ⊢
      rw [hsize, ih]

theorem length_eq (h : k.Holds es log) : es.length = log.committed.length :=
  h.committed.length_eq

theorem sum_entrySizes (h : k.Holds es log) :
    (entrySizes es).sum = log.committed.flatten.length := by
  rw [h.entrySizes_eq, List.length_flatten]

/-- The contents fit in the heap. -/
theorem length_contents_le (h : k.Holds es log) : log.contents.length ≤ k.heap.total := by
  have hsum := h.sum_entrySizes
  rw [Log.contents, List.length_append]
  by_cases hnil : log.pending = []
  · have := h.entrySizes_le_total
    rw [hnil, List.length_nil]
    omega
  · obtain ⟨p, hptr, _⟩ := h.pending hnil
    have := h.sum_le_total hptr
    have := h.pending_size
    omega

theorem length_contents_lt (h : k.Holds es log) (htotal : k.heap.total < 2 ^ 63) :
    log.contents.length < 2 ^ 63 :=
  Nat.lt_of_le_of_lt h.length_contents_le htotal

theorem size_eq (h : k.Holds es log) (hlength : log.contents.length < 2 ^ 63) :
    k.dev.buffer.size = (entrySizes es).sum := by
  have hsum := h.sum_entrySizes
  rw [Log.contents, List.length_append] at hlength
  exact h.ring.size_eq h.buffptr_isSome (by omega)

theorem getElem_holds (h : k.Holds es log) {i : Nat} (hes : i < es.length)
    (hi : i < log.committed.length) : EntryHolds k.heap es[i] log.committed[i] :=
  List.Forall₂.get h.committed hes hi

theorem locate_eq (h : k.Holds es log) (fPos : Nat) :
    log.locate fPos = Segments.locate (entrySizes k.pieces) fPos := by
  rw [Log.locate, Log.segments, List.map_append, ← h.entrySizes_eq, Kernel.pieces, h.entries_eq,
    entrySizes, entrySizes, List.map_append, List.map_singleton, List.map_singleton,
    h.pending_size]

/-- A read is served from the piece of the log that its position falls into. -/
theorem readSource_eq (h : k.Holds es log) (hfit : log.contents.length < 2 ^ 63) {fPos : Nat}
    (hlt : fPos < 2 ^ 63) :
    (log.locate fPos = none ∧ readSource k fPos = .ok none) ∨
      ∃ index offset p, log.locate fPos = some (index, offset) ∧
        readSource k fPos = .ok (some (some p, (log.segments.getD index []).length, offset)) ∧
        k.heap.Holds p 0 (log.segments.getD index []) := by
  have hsum := h.sum_entrySizes
  rw [Log.contents, List.length_append] at hfit
  rw [h.toStores.readSource_eq (by omega) hlt, ← h.locate_eq]
  cases hfound : log.locate fPos with
  | none => exact Or.inl ⟨rfl, rfl⟩
  | some found =>
      obtain ⟨index, offset⟩ := found
      obtain ⟨hindex, hinside⟩ := Log.lt_of_locate hfound
      have hlength := h.length_eq
      rw [Log.segments, List.length_append, List.length_singleton] at hindex
      rw [Kernel.pieces, h.entries_eq]
      rcases Nat.lt_or_ge index log.committed.length with hcommitted | hpending
      · have hes : index < es.length := hlength ▸ hcommitted
        obtain ⟨p, hptr, hsize, hholds⟩ := h.getElem_holds hes hcommitted
        have hsegment := log.getD_segments_of_lt hcommitted
        refine Or.inr ⟨index, offset, p, rfl, ?_, hsegment ▸ hholds⟩
        rw [Option.map_some, getElem_getD (by rw [List.length_append]; omega),
          List.getElem_append_left hes, hptr, hsize, hsegment]
      · obtain rfl : index = log.committed.length := by omega
        have hsegment := log.getD_segments_length
        rw [hsegment] at hinside
        obtain ⟨p, hptr, hholds⟩ := h.pending (List.ne_nil_of_length_pos (by omega))
        refine Or.inr ⟨_, offset, p, rfl, ?_, hsegment ▸ hholds⟩
        rw [hsegment, Option.map_some, ← hlength, getElem_getD (by simp),
          List.getElem_append_right (by omega)]
        simp only [Nat.sub_self, List.getElem_cons_zero, hptr, h.pending_size]

/-- A read takes what the log has at the position. -/
theorem finalCount_eq (hfit : log.contents.length < 2 ^ 63) {fPos index offset : Nat}
    (hlocate : log.locate fPos = some (index, offset)) (count : Nat) :
    finalCount count (log.segments.getD index []).length offset = (log.readAt count fPos).length := by
  have hinside := (Log.lt_of_locate hlocate).2
  have hend := Log.end_le_of_locate hlocate
  rw [Log.readAt_of_some hlocate, List.length_take, List.length_drop]
  exact finalCount_eq_min count (Nat.le_of_lt hinside) (by omega)

/-- Every read returns: it delivers what the log has at the position, and the
position moves by what was delivered unless copying to the user fails. -/
theorem aesdRead_eq (h : k.Holds es log) (hfit : log.contents.length < 2 ^ 63)
    {outcome : ReadOutcome} (hlocked : outcome.locked = true) (count : Nat) {fPos : Nat}
    (hlt : fPos < 2 ^ 63) :
    aesdRead k outcome count fPos =
      .ok (if outcome.copied < (log.readAt count fPos).length then
          { retval := -eFault, fPos := fPos,
            delivered := (log.readAt count fPos).take outcome.copied,
            msgCopy := (log.locate fPos).map fun _ => log.readAt count fPos }
        else
          { retval := (log.readAt count fPos).length,
            fPos := ((fPos + (log.readAt count fPos).length : Nat) : Int),
            delivered := log.readAt count fPos,
            msgCopy := (log.locate fPos).map fun _ => log.readAt count fPos }) := by
  unfold aesdRead
  rw [if_neg (by simp [hlocked])]
  rcases h.readSource_eq hfit hlt with ⟨hlocate, hsource⟩ | hfound
  · simp [hsource, Log.readAt_of_none hlocate, hlocate]
  · obtain ⟨index, offset, p, hlocate, hsource, hholds⟩ := hfound
    generalize hsegment : log.segments.getD index [] = segment at hsource hholds
    have hbytes : log.readAt count fPos = (segment.drop offset).take count := by
      rw [Log.readAt_of_some hlocate, hsegment]
    have hinside : offset < segment.length := hsegment ▸ (Log.lt_of_locate hlocate).2
    have hend : fPos + (segment.length - offset) ≤ log.contents.length :=
      hsegment ▸ Log.end_le_of_locate hlocate
    have hcount := hsegment ▸ finalCount_eq hfit hlocate count
    unfold finalCount at hcount
    have hle : (log.readAt count fPos).length ≤ segment.length - offset := by
      rw [hbytes, List.length_take, List.length_drop]
      exact Nat.min_le_right _ _
    have hload : k.heap.load (some p) offset (log.readAt count fPos).length =
        .ok (log.readAt count fPos) := by
      have hslice := hholds.slice offset (log.readAt count fPos).length (by omega)
      have heq : (segment.drop offset).take (log.readAt count fPos).length =
          log.readAt count fPos := by
        rw [hbytes, List.length_take, List.take_eq_take_iff]
        simp
      rw [heq, Nat.zero_add] at hslice
      exact hslice.load
    simp only [hsource, Exec.ok_bind, hcount, hload, hlocate, Option.map_some]
    rw [s64_natCast (by omega), s64_of_lt (by omega) (by omega)]
    split <;> rfl

end Kernel.Holds

end Aesd
