import Aesd.Driver.ReadLaw
import Aesd.Driver.SeekContract
import Aesd.Server.Relay

/-!
# The device as a file

A descriptor of the device reads and writes through the driver. When every piece
of the log is shorter than the server's buffer, each read of the relay fetches
the rest of one piece.
-/

namespace Aesd

open CSem

/-- The device with the position of a descriptor. -/
structure CharFile where
  kernel : Kernel
  fPos : Int
  deriving DecidableEq

namespace CharFile

/-- The file operations of the driver, with the lock taken, all bytes copied and
every `krealloc` met; the kernel decides whether a block moves. -/
def ops (seek : FixedSizeLlseek) (moves : Kernel → Bool) : FileOps CharFile where
  openFile file := { file with fPos := 0 }
  read file count := do
    let reply ← aesdRead file.kernel ⟨true, count⟩ count file.fPos
    .ok (⟨file.kernel, reply.fPos⟩,
      if reply.retval < 0 then .failed else .done reply.delivered)
  write file bytes := do
    let answer := if moves file.kernel then .moved else .inPlace
    let (kernel, reply) ← aesdWrite file.kernel ⟨true, answer, bytes.length⟩ bytes file.fPos
    .ok (⟨kernel, reply.fPos⟩, if reply.retval < 0 then .failed else .done reply.retval.toNat)
  ioctl file arg := do
    let reply ← aesdIoctl seek file.kernel true aesdcharIocseekto (some arg) file.fPos
    .ok (⟨file.kernel, reply.fPos⟩, if reply.retval < 0 then .failed else .done ())

end CharFile

/-- Every piece of the log is free of NULs and shorter than the server's buffer. -/
def Log.Short (log : Log) : Prop :=
  ∀ segment ∈ log.segments, 0 ∉ segment ∧ segment.length < buffsize

theorem Log.Short.length_contents_lt {log : Log} (h : log.Short) :
    log.contents.length < 11 * buffsize := by
  have hsum : (log.segments.map List.length).sum ≤
      (log.segments.map List.length).length • (buffsize - 1) := by
    apply List.sum_le_card_nsmul
    intro size hsize
    obtain ⟨segment, hsegment, rfl⟩ := List.mem_map.mp hsize
    exact Nat.le_sub_one_of_lt (h segment hsegment).2
  rw [List.length_map, Nat.nsmul_eq_mul] at hsum
  have hcount : log.segments.length ≤ 11 := by
    rw [Log.segments, List.length_append, List.length_singleton]
    exact Nat.succ_le_succ log.length_le
  rw [Log.length_contents]
  unfold buffsize at hsum ⊢
  omega

namespace Kernel.Holds

variable {k : Kernel} {es : List BufferEntry} {log : Log} (seek : FixedSizeLlseek)
  (moves : Kernel → Bool)

/-- A read of the relay. -/
theorem read_eq (h : k.Holds es log) (hshort : log.Short) {pos : Nat} (hpos : pos < 2 ^ 63) :
    (CharFile.ops seek moves).read ⟨k, pos⟩ buffsize =
      .ok (⟨k, ((pos + (log.readAt buffsize pos).length : Nat) : Int)⟩,
        .done (log.readAt buffsize pos)) := by
  have hfit : log.contents.length < 2 ^ 63 :=
    Nat.lt_trans hshort.length_contents_lt (by decide)
  obtain ⟨msgCopy, hread⟩ := h.aesdRead_ok hfit buffsize hpos
  simp only [CharFile.ops, hread, Exec.ok_bind]
  rw [if_neg (Int.not_lt.mpr (Int.natCast_nonneg _))]

/-- A position inside a committed line finds the rest of that line. -/
theorem lineOf_committed (h : k.Holds es log) (hshort : log.Short) {pos index offset : Nat}
    (hpos : pos < 2 ^ 63) (hlocate : log.locate pos = some (index, offset))
    (hindex : index < log.committed.length) :
    LineOf (CharFile.ops seek moves) ⟨k, pos⟩
      ⟨k, ((pos + (log.committed[index].drop offset).length : Nat) : Int)⟩
      (log.committed[index].drop offset) false := by
  have hsegment : log.segments.getD index [] = log.committed[index] :=
    log.getD_segments_of_lt hindex
  have hinside := (Log.lt_of_locate hlocate).2
  rw [hsegment] at hinside
  have hmem : log.committed[index] ∈ log.segments :=
    List.mem_append_left _ (List.getElem_mem hindex)
  obtain ⟨hnul, hlength⟩ := hshort _ hmem
  have hbytes : log.readAt buffsize pos = log.committed[index].drop offset := by
    rw [Log.readAt_of_some hlocate, hsegment]
    exact List.take_of_length_le (by rw [List.length_drop]; omega)
  have hread := h.read_eq seek moves hshort hpos
  rw [hbytes] at hread
  obtain ⟨body, hbody, hnot⟩ := (log.isLine _ (List.getElem_mem hindex)).drop hinside
  rw [hbody] at hread ⊢
  refine .line hread hnot ?_ ?_
  · intro hzero
    apply hnul
    apply List.mem_of_mem_drop (i := offset)
    rw [hbody]
    exact List.mem_append_left _ hzero
  · have hle := congrArg List.length hbody
    rw [List.length_drop, List.length_append, List.length_singleton] at hle
    omega

/-- A position inside the pending bytes finds the rest of them. -/
theorem lineOf_pending (h : k.Holds es log) (hshort : log.Short) {pos offset : Nat}
    (hpos : pos < 2 ^ 63) (hlocate : log.locate pos = some (log.committed.length, offset)) :
    ∃ file, LineOf (CharFile.ops seek moves) ⟨k, pos⟩ file (log.contents.drop pos) true ∧
      file.kernel = k := by
  have hinside := (Log.lt_of_locate hlocate).2
  rw [Log.getD_segments_length] at hinside
  have hmem : log.pending ∈ log.segments := List.mem_append_right _ (List.mem_singleton_self _)
  obtain ⟨hnul, hlength⟩ := hshort _ hmem
  have hdrop : log.contents.drop pos = log.pending.drop offset := by
    rw [← Log.flatten_segments, Segments.drop_flatten_of_locate hlocate,
      Log.getD_segments_length]
    have hnone : log.segments.drop (log.committed.length + 1) = [] :=
      List.drop_eq_nil_of_le (by rw [Log.segments, List.length_append, List.length_singleton])
    rw [hnone, List.flatten_nil, List.append_nil]
  have hbytes : log.readAt buffsize pos = log.pending.drop offset := by
    rw [Log.readAt_of_some hlocate, Log.getD_segments_length]
    exact List.take_of_length_le (by rw [List.length_drop]; omega)
  have hend : pos + (log.pending.drop offset).length = log.contents.length := by
    have hlengths := congrArg List.length hdrop
    rw [List.length_drop] at hlengths
    have hlt : pos < log.contents.length := by
      by_contra hge
      rw [Log.locate_eq_none_iff.mpr (Nat.le_of_not_lt hge)] at hlocate
      cases hlocate
    omega
  have hfit : log.contents.length < 2 ^ 63 :=
    Nat.lt_trans hshort.length_contents_lt (by decide)
  have hread := h.read_eq seek moves hshort hpos
  rw [hbytes, hend] at hread
  have hlast := h.read_eq seek moves hshort hfit
  rw [Log.readAt_of_none (Log.locate_eq_none_iff.mpr (Nat.le_refl _))] at hlast
  rw [hdrop]
  refine ⟨_, .unterminated hread ?_ ?_ ?_ ?_ hlast, rfl⟩
  · exact List.ne_nil_of_length_pos (by rw [List.length_drop]; omega)
  · exact fun hnewline => log.notMem (List.mem_of_mem_drop hnewline)
  · exact fun hzero => hnul (List.mem_of_mem_drop hzero)
  · rw [List.length_drop]
    omega

/-- Past the contents there is nothing to read. -/
theorem lineOf_atEnd (h : k.Holds es log) (hshort : log.Short) {pos : Nat} (hpos : pos < 2 ^ 63)
    (hlocate : log.locate pos = none) :
    LineOf (CharFile.ops seek moves) ⟨k, pos⟩ ⟨k, pos⟩ [] true := by
  have hread := h.read_eq seek moves hshort hpos
  rw [Log.readAt_of_none hlocate] at hread
  exact .atEnd hread

/-- The relay sends the contents from its position on. -/
theorem relays (h : k.Holds es log) (hshort : log.Short) {pos : Nat} (hpos : pos < 2 ^ 63) :
    ∃ file, Relays (CharFile.ops seek moves) ⟨k, pos⟩ (log.contents.drop pos) file ∧
      file.kernel = k := by
  induction hleft : log.contents.length - pos using Nat.strong_induction_on generalizing pos with
  | _ left ih =>
    cases hlocate : log.locate pos with
    | none =>
        rw [List.drop_eq_nil_of_le (Log.locate_eq_none_iff.mp hlocate)]
        exact ⟨_, .last (h.lineOf_atEnd seek moves hshort hpos hlocate), rfl⟩
    | some found =>
        obtain ⟨index, offset⟩ := found
        obtain ⟨hbound, hinside⟩ := Log.lt_of_locate hlocate
        rcases Nat.lt_or_ge index log.committed.length with hindex | hge
        · have hline := h.lineOf_committed seek moves hshort hpos hlocate hindex
          have hsegment := log.getD_segments_of_lt hindex
          have hbytes := Segments.drop_flatten_of_locate hlocate
          rw [hsegment, Log.flatten_segments] at hbytes
          rw [hsegment] at hinside
          -- the contents from here on are this line and the contents after it
          have hsplit : log.contents.drop pos = log.committed[index].drop offset ++
              log.contents.drop (pos + (log.committed[index].drop offset).length) := by
            rw [← List.drop_drop, hbytes, List.drop_left]
          have hlengths := congrArg List.length hsplit
          rw [List.length_append, List.length_drop, List.length_drop, List.length_drop] at hlengths
          have hfit := Nat.lt_trans hshort.length_contents_lt (by decide : 11 * buffsize < 2 ^ 63)
          obtain ⟨file, hrest, hkernel⟩ :=
            ih (log.contents.length - (pos + (log.committed[index].drop offset).length))
              (by rw [List.length_drop]; omega) (by rw [List.length_drop]; omega) rfl
          refine ⟨file, ?_, hkernel⟩
          rw [hsplit]
          exact .more hline hrest
        · obtain rfl : index = log.committed.length := by
            rw [Log.segments, List.length_append, List.length_singleton] at hbound
            omega
          obtain ⟨file, hline, hkernel⟩ := h.lineOf_pending seek moves hshort hpos hlocate
          exact ⟨file, .last hline, hkernel⟩

end Kernel.Holds

end Aesd
