import Aesd.Driver.Ownership
import Aesd.Driver.Log

/-!
# The effect of a write

Every call of `aesd_write` on a device that keeps its memory discipline returns,
and its effect is one of seven. What later results need to know about the
function is read off this case list.
-/

namespace Aesd

open CSem

/-- The entry that a write with a newline adds to the ring. -/
def commandEntry (k : Kernel) (p : Ptr) (buf : List UInt8) : BufferEntry :=
  ⟨some p, k.dev.unterminatedSize + (Log.consumed buf).length⟩

/-- What `aesd_write` does, one case for each way through it. -/
inductive WriteEffect (k : Kernel) (es : List BufferEntry) (outcome : WriteOutcome)
    (buf : List UInt8) (fPos : Int) : Kernel → Reply → Prop
  | interrupted (hlocked : outcome.locked = false) :
      WriteEffect k es outcome buf fPos k { retval := -eRestartSys, fPos := fPos }
  | empty (hlocked : outcome.locked = true) (hbuf : buf = []) :
      WriteEffect k es outcome buf fPos k { retval := -eNoMem, fPos := fPos }
  | noMemory (hlocked : outcome.locked = true) (hbuf : buf ≠ [])
      (hanswer : outcome.krealloc = .null) :
      WriteEffect k es outcome buf fPos ⟨k.heap, { k.dev with unterminatedBuffptr := none }⟩
        { retval := -eNoMem, fPos := fPos }
  | faultPending (hlocked : outcome.locked = true) (hbuf : buf ≠ [])
      (hanswer : outcome.krealloc ≠ .null) (hcopied : outcome.copied < buf.length)
      (hpos : 0 < k.dev.unterminatedSize) (heap : Heap) (p : Ptr)
      (hstaged : Staged k es (copyFromUser buf outcome.copied) heap p) :
      WriteEffect k es outcome buf fPos ⟨heap, { k.dev with unterminatedBuffptr := some p }⟩
        { retval := -eFault, fPos := fPos }
  | faultEmpty (hlocked : outcome.locked = true) (hbuf : buf ≠ [])
      (hanswer : outcome.krealloc ≠ .null) (hcopied : outcome.copied < buf.length)
      (hzero : k.dev.unterminatedSize = 0) (heap released : Heap) (p : Ptr)
      (hstaged : Staged k es (copyFromUser buf outcome.copied) heap p)
      (hfree : heap.free p = .ok released) :
      WriteEffect k es outcome buf fPos ⟨released, { k.dev with unterminatedBuffptr := none }⟩
        { retval := -eFault, fPos := fPos }
  | extended (hlocked : outcome.locked = true) (hbuf : buf ≠ [])
      (hanswer : outcome.krealloc ≠ .null) (hcopied : buf.length ≤ outcome.copied)
      (hnot : newline ∉ buf) (heap : Heap) (p : Ptr) (hstaged : Staged k es buf heap p) :
      WriteEffect k es outcome buf fPos
        ⟨heap, ⟨some p, k.dev.unterminatedSize + buf.length, k.dev.buffer⟩⟩
        { retval := buf.length, fPos := s64 (fPos + buf.length), msgCopy := some buf }
  | committed (hlocked : outcome.locked = true) (hbuf : buf ≠ [])
      (hanswer : outcome.krealloc ≠ .null) (hcopied : buf.length ≤ outcome.copied)
      (hmem : newline ∈ buf) (heap released : Heap) (p : Ptr) (hstaged : Staged k es buf heap p)
      (hfree : Heap.freeNonNull heap (k.dev.buffer.addEntry (commandEntry k p buf)).2 = .ok released) :
      WriteEffect k es outcome buf fPos
        ⟨released, ⟨none, 0, (k.dev.buffer.addEntry (commandEntry k p buf)).1⟩⟩
        { retval := (Log.consumed buf).length, fPos := s64 (fPos + (Log.consumed buf).length),
          msgCopy := some buf }

theorem length_copyFromUser (buf : List UInt8) (copied : Nat) :
    (copyFromUser buf copied).length = buf.length := by
  simp only [copyFromUser, List.length_append, List.length_take, List.length_replicate]
  omega

theorem copyFromUser_of_le {buf : List UInt8} {copied : Nat} (hle : buf.length ≤ copied) :
    copyFromUser buf copied = buf := by
  simp [copyFromUser, List.take_of_length_le hle, Nat.sub_eq_zero_of_le hle]

theorem aesdFindChar_of_notMem {buf : List UInt8} (hnot : newline ∉ buf) :
    aesdFindChar buf terminatorCharacter = -1 := by
  have := mt Log.newline_mem_iff.mpr hnot
  exact if_neg this

theorem aesdFindChar_of_mem {buf : List UInt8} (hmem : newline ∈ buf) :
    aesdFindChar buf terminatorCharacter + 1 = (Log.consumed buf).length := by
  have hlt := Log.newline_mem_iff.mp hmem
  have hfind : aesdFindChar buf terminatorCharacter = (buf.findIdx (· == newline) : Nat) :=
    if_pos hlt
  rw [hfind, Log.consumed, List.length_take, Nat.min_eq_left hlt]
  rfl

theorem aesdWriteAccept_of_notMem {k : Kernel} {buf : List UInt8}
    (hsize : k.dev.unterminatedSize < 2 ^ 63) (hlength : buf.length < 2 ^ 63)
    (hnot : newline ∉ buf) :
    aesdWriteAccept k buf =
      .ok ({ k with dev := { k.dev with
        unterminatedSize := k.dev.unterminatedSize + buf.length } }, buf.length) := by
  have hwidth : u64 ((k.dev.unterminatedSize : Int) + buf.length) =
      k.dev.unterminatedSize + buf.length := u64_add (by omega)
  simp only [aesdWriteAccept, aesdFindChar_of_notMem hnot, hwidth]
  rfl

theorem aesdWriteAccept_of_mem {k : Kernel} {buf : List UInt8} {p : Ptr}
    (hptr : k.dev.unterminatedBuffptr = some p)
    (hsize : k.dev.unterminatedSize < 2 ^ 63) (hlength : buf.length < 2 ^ 63)
    (hmem : newline ∈ buf) {released : Heap}
    (hfree : Heap.freeNonNull k.heap (k.dev.buffer.addEntry (commandEntry k p buf)).2 = .ok released) :
    aesdWriteAccept k buf =
      .ok (⟨released, ⟨none, 0, (k.dev.buffer.addEntry (commandEntry k p buf)).1⟩⟩,
        (Log.consumed buf).length) := by
  have hused := Log.length_consumed_le buf
  have hfind := aesdFindChar_of_mem hmem
  have hcount : u64 (aesdFindChar buf terminatorCharacter + 1) = (Log.consumed buf).length := by
    rw [hfind]
    exact u64_natCast (by omega)
  have hentry : u64 ((k.dev.unterminatedSize : Int) + (Log.consumed buf).length) =
      k.dev.unterminatedSize + (Log.consumed buf).length := u64_add (by omega)
  have hpos : ¬ aesdFindChar buf terminatorCharacter < 0 := by
    have := Log.length_consumed_pos (List.ne_nil_of_mem hmem)
    omega
  have hcommand : (⟨k.dev.unterminatedBuffptr,
      k.dev.unterminatedSize + (Log.consumed buf).length⟩ : BufferEntry) = commandEntry k p buf := by
    rw [hptr]
    rfl
  simp only [aesdWriteAccept, if_neg hpos, hcount, hentry, hcommand, hfree, Exec.ok_bind]

theorem aesdWriteDone_of_nonneg (k : Kernel) {retval : Int} (hnonneg : 0 ≤ retval) (fPos : Int)
    (error : Nat) (msgCopy : Option (List UInt8)) :
    aesdWriteDone k retval fPos error msgCopy =
      .ok (k, { retval := retval, fPos := fPos, msgCopy := msgCopy }) :=
  if_neg (Int.not_lt.mpr hnonneg)

/-- A failed write that leaves no empty block behind has nothing to clean up. -/
theorem aesdWriteDone_of_kept {k : Kernel} (hkept : k.dev.unterminatedBuffptr = none ∨
    k.dev.unterminatedSize ≠ 0) {retval : Int} (hneg : retval < 0) (fPos : Int) (error : Nat)
    (msgCopy : Option (List UInt8)) :
    aesdWriteDone k retval fPos error msgCopy =
      .ok (k, { retval := if error ≠ 0 then -eFault else retval, fPos := fPos,
                msgCopy := msgCopy }) := by
  unfold aesdWriteDone
  rw [if_pos hneg]
  cases hptr : k.dev.unterminatedBuffptr with
  | none => rfl
  | some p =>
      cases hsize : k.dev.unterminatedSize with
      | zero => simp [hptr, hsize] at hkept
      | succ size => rfl

theorem aesdWriteDone_of_empty {k : Kernel} {p : Ptr} (hptr : k.dev.unterminatedBuffptr = some p)
    (hzero : k.dev.unterminatedSize = 0) {heap : Heap} (hfree : k.heap.free p = .ok heap)
    {retval : Int} (hneg : retval < 0) (fPos : Int) (error : Nat) (msgCopy : Option (List UInt8)) :
    aesdWriteDone k retval fPos error msgCopy =
      .ok (⟨heap, { k.dev with unterminatedBuffptr := none }⟩,
        { retval := if error ≠ 0 then -eFault else retval, fPos := fPos, msgCopy := msgCopy }) := by
  unfold aesdWriteDone
  rw [if_pos hneg]
  simp only [hptr, hzero, hfree, Exec.ok_bind]

theorem commandEntry_size_pos (k : Kernel) (p : Ptr) {buf : List UInt8} (hbuf : buf ≠ []) :
    0 < (commandEntry k p buf).size :=
  Nat.add_pos_right _ (Log.length_consumed_pos hbuf)

namespace Kernel.Stores

variable {k : Kernel} {es : List BufferEntry}

/-- The block that a full ring hands back can be released. -/
theorem kfree_evicted (h : k.Stores es) {buf : List UInt8} {heap : Heap} {p : Ptr}
    (hstaged : Staged k es buf heap p) (entry : BufferEntry) :
    ∃ released, Heap.freeNonNull heap (k.dev.buffer.addEntry entry).2 = .ok released := by
  rw [(h.ring.addEntry entry).2]
  unfold BoundedQueue.push
  split
  next => exact ⟨heap, rfl⟩
  next hfull =>
    cases es with
    | nil => simp at hfull
    | cons oldest others =>
        obtain ⟨q, hptr, _⟩ := h.block oldest List.mem_cons_self
        have hmem : q ∈ entryPtrs (oldest :: others) := by
          rw [entryPtrs_cons_some hptr]
          exact List.mem_cons_self
        have hlive : (heap.block? q).isSome := by
          rw [hstaged.frame h hmem]
          exact h.live_of_mem hmem
        obtain ⟨released, hfree, _⟩ := Heap.free_spec hlive
        refine ⟨released, ?_⟩
        simpa [Heap.freeNonNull, hptr] using hfree

/-- Every write returns, and one of the cases describes it. -/
theorem aesdWrite_effect (h : k.Stores es) (outcome : WriteOutcome) {buf : List UInt8}
    (hlength : buf.length < 2 ^ 63) (fPos : Int) :
    ∃ k' reply, aesdWrite k outcome buf fPos = .ok (k', reply) ∧
      WriteEffect k es outcome buf fPos k' reply := by
  have hsize := h.unterminated_lt
  unfold aesdWrite
  cases hlocked : outcome.locked with
  | false => exact ⟨_, _, rfl, .interrupted hlocked⟩
  | true =>
      rw [if_neg (by decide)]
      by_cases hbuf : buf = []
      · rw [if_pos (by simp [hbuf]), aesdWriteDone_of_kept h.none_or_pending (by decide)]
        exact ⟨_, _, rfl, .empty hlocked hbuf⟩
      · rw [if_neg (by simpa using hbuf)]
        have hwidth : u64 ((k.dev.unterminatedSize : Int) + buf.length) =
            k.dev.unterminatedSize + buf.length := u64_add (by omega)
        by_cases hanswer : outcome.krealloc = .null
        · have hnull : k.heap.realloc k.dev.unterminatedBuffptr
              (k.dev.unterminatedSize + buf.length) outcome.krealloc = .ok (k.heap, none) := by
            rw [hanswer]
            rfl
          simp only [hwidth, hnull, Exec.ok_bind]
          rw [aesdWriteDone_of_kept (Or.inl rfl) (by decide)]
          exact ⟨_, _, rfl, .noMemory hlocked hbuf hanswer⟩
        · obtain ⟨grown, heap, p, hrealloc, hstore, hstaged⟩ :=
            Staged.of_krealloc h hanswer (copyFromUser buf outcome.copied)
          rw [length_copyFromUser] at hrealloc
          simp only [hwidth, hrealloc, hstore, Exec.ok_bind]
          by_cases hcopied : outcome.copied < buf.length
          · rw [if_pos (by omega)]
            by_cases hzero : k.dev.unterminatedSize = 0
            · have hpos : 0 < (copyFromUser buf outcome.copied).length := by
                rw [length_copyFromUser]
                exact List.length_pos_of_ne_nil hbuf
              obtain ⟨released, hfree, _⟩ := Heap.free_spec (hstaged.block_live hpos)
              have hdone := aesdWriteDone_of_empty
                (k := ⟨heap, { k.dev with unterminatedBuffptr := some p }⟩) rfl hzero hfree
                (show -eNoMem < 0 by decide) fPos (buf.length - outcome.copied) none
              rw [hdone, if_pos (by omega)]
              exact ⟨_, _, rfl,
                .faultEmpty hlocked hbuf hanswer hcopied hzero heap released p hstaged hfree⟩
            · have hdone := aesdWriteDone_of_kept
                (k := ⟨heap, { k.dev with unterminatedBuffptr := some p }⟩) (Or.inr hzero)
                (show -eNoMem < 0 by decide) fPos (buf.length - outcome.copied) none
              rw [hdone, if_pos (by omega)]
              exact ⟨_, _, rfl, .faultPending hlocked hbuf hanswer hcopied
                (Nat.pos_of_ne_zero hzero) heap p hstaged⟩
          · rw [if_neg (by omega)]
            rw [copyFromUser_of_le (Nat.le_of_not_lt hcopied)] at hstaged
            simp only [hstaged.data.load, Exec.ok_bind]
            by_cases hmem : newline ∈ buf
            · obtain ⟨released, hfree⟩ := h.kfree_evicted hstaged (commandEntry k p buf)
              have hused := Log.length_consumed_le buf
              have haccept := aesdWriteAccept_of_mem
                (k := ⟨heap, { k.dev with unterminatedBuffptr := some p }⟩) (p := p) rfl hsize
                hlength hmem hfree
              simp only [haccept, Exec.ok_bind]
              rw [s64_natCast (by omega), aesdWriteDone_of_nonneg _ (by omega)]
              exact ⟨_, _, rfl, .committed hlocked hbuf hanswer (Nat.le_of_not_lt hcopied) hmem
                heap released p hstaged hfree⟩
            · have haccept := aesdWriteAccept_of_notMem
                (k := ⟨heap, { k.dev with unterminatedBuffptr := some p }⟩) hsize hlength hmem
              simp only [haccept, Exec.ok_bind]
              rw [s64_natCast (by omega), aesdWriteDone_of_nonneg _ (by omega)]
              exact ⟨_, _, rfl, .extended hlocked hbuf hanswer (Nat.le_of_not_lt hcopied) hmem
                heap p hstaged⟩

end Kernel.Stores

end Aesd
