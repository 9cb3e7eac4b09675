import Aesd.Ring.CircularBuffer
import Aesd.Foundation.BoundedQueue

/-!
# The circular buffer refines a bounded queue

`Represents` relates a buffer to the queue of its stored entries. Adding an
entry is a push on that queue, so a run of additions from the initial buffer
holds the last ten entries and hands back the earlier ones in order.
-/

namespace Aesd

open CSem

namespace CircularBuffer

/-- The buffer stores exactly these entries, oldest first. While it has room it
starts at slot zero, and the slots not yet used are null. -/
structure Represents (buffer : CircularBuffer) (es : List BufferEntry) : Prop where
  length_le : es.length ≤ 10
  full_iff : buffer.full = true ↔ es.length = 10
  outOffs_lt : buffer.outOffs < 10
  outOffs_eq : es.length < 10 → buffer.outOffs = 0
  inOffs_eq : buffer.inOffs = (buffer.outOffs + es.length) % 10
  stored : ∀ i (hi : i < es.length), buffer.slot ((buffer.outOffs + i) % 10) = es[i]
  vacant : es.length < 10 → ∀ i, es.length ≤ i → i < 10 → buffer.slot i = BufferEntry.null

theorem init_represents : init.Represents [] where
  length_le := by simp
  full_iff := by simp [init]
  outOffs_lt := by simp [init]
  outOffs_eq := by simp [init]
  inOffs_eq := by simp [init]
  stored := by simp
  vacant := by simp

namespace Represents

variable {buffer : CircularBuffer} {es : List BufferEntry}

theorem inOffs_lt (h : buffer.Represents es) : buffer.inOffs < 10 := by
  have := h.inOffs_eq
  omega

theorem full_eq_false_iff (h : buffer.Represents es) : buffer.full = false ↔ es.length < 10 := by
  have hle := h.length_le
  rw [← Bool.not_eq_true, h.full_iff]
  omega

theorem entryArraySize_eq (h : buffer.Represents es) : buffer.entryArraySize = es.length := by
  unfold entryArraySize
  split
  next hfull => exact (h.full_iff.mp hfull).symm
  next hfull =>
    have hlt := h.full_eq_false_iff.mp (by simpa using hfull)
    have hout := h.outOffs_eq hlt
    have hin := h.inOffs_eq
    have hdiff : ((buffer.inOffs : Int) - buffer.outOffs).tmod buffer.entryArrayCapacity =
        es.length := by
      rw [entryArrayCapacity_eq, Int.tmod_eq_emod_of_nonneg (by omega)]
      push_cast
      omega
    rw [hdiff, u8_natCast (by omega)]

theorem slot_absoluteEntryOffset (h : buffer.Represents es) {i : Nat} (hi : i < es.length) :
    buffer.slot (buffer.absoluteEntryOffset i) = es[i] := h.stored i hi

theorem entries_eq (h : buffer.Represents es) : buffer.entries = es := by
  unfold entries
  rw [h.entryArraySize_eq]
  apply List.ext_getElem (by simp)
  intro i _ hi
  simp [h.slot_absoluteEntryOffset hi]

/-- Relative offsets undo absolute ones, except for the first slot of a full
buffer, whose relative offset reads as the capacity. -/
theorem relativeEntryOffset_absoluteEntryOffset (h : buffer.Represents es) {i : Nat}
    (hi : i < 10) (hfirst : es.length = 10 → 0 < i) :
    buffer.relativeEntryOffset (buffer.absoluteEntryOffset i) = i := by
  have hout := h.outOffs_lt
  have hin := h.inOffs_eq
  have hle := h.length_le
  rw [absoluteEntryOffset_eq, relativeEntryOffset_eq _ (by omega)]
  split
  next hwrap =>
    have hlength := h.full_iff.mp hwrap.1
    have hpos := hfirst hlength
    have heq := hwrap.2
    omega
  next =>
    split
    · rw [u8_of_lt (by omega) (by omega)]
      omega
    · rw [u8_of_lt (by omega) (by omega)]
      omega

theorem relativeEntryOffset_outOffs (h : buffer.Represents es) (hfull : es.length = 10) :
    buffer.relativeEntryOffset buffer.outOffs = 10 := by
  have hout := h.outOffs_lt
  have hin := h.inOffs_eq
  rw [relativeEntryOffset_eq _ hout, if_pos ⟨h.full_iff.mpr hfull, by omega⟩]

theorem nextEntryOffset_absoluteEntryOffset (buffer : CircularBuffer) (i : Nat) :
    buffer.nextEntryOffset (buffer.absoluteEntryOffset i) = buffer.absoluteEntryOffset (i + 1) := by
  simp only [nextEntryOffset, absoluteEntryOffset, entryArrayCapacity_eq]
  omega

/-- With room left, adding an entry appends it to the queue. -/
theorem addEntry_of_room (h : buffer.Represents es) (hroom : es.length < 10)
    (entry : BufferEntry) : (buffer.addEntry entry).1.Represents (es ++ [entry]) := by
  have hzero := h.outOffs_eq hroom
  have hidx : buffer.inOffs = es.length := by
    have := h.inOffs_eq
    omega
  have hslot := slot_set buffer h.inOffs_lt entry
  have hnext : buffer.nextEntryOffset buffer.inOffs = (es.length + 1) % 10 := by
    rw [hidx]
    rfl
  rw [addEntry_of_not_full (h.full_eq_false_iff.mpr hroom), hnext, hzero]
  refine
    { length_le := by simp only [List.length_append, List.length_singleton]; omega
      full_iff := by simp only [decide_eq_true_eq, List.length_append, List.length_singleton]; omega
      outOffs_lt := Nat.zero_lt_succ 9
      outOffs_eq := fun _ => rfl
      inOffs_eq := by simp
      stored := ?_
      vacant := ?_ }
  · intro i hi
    rw [List.length_append, List.length_singleton] at hi
    rw [hslot, hidx, Nat.zero_add, Nat.mod_eq_of_lt (by omega)]
    split
    next heq => simp [heq]
    next hne =>
      have hlt : i < es.length := by omega
      have hold := h.stored i hlt
      rw [hzero, Nat.zero_add, Nat.mod_eq_of_lt (by omega)] at hold
      rw [List.getElem_append_left hlt, hold]
  · intro _ i hi hlt
    rw [List.length_append, List.length_singleton] at hi
    rw [hslot, hidx, if_neg (by omega), h.vacant hroom i (by omega) hlt]

/-- When full, the oldest entry gives up its slot to the new one. -/
theorem addEntry_of_full {oldest : BufferEntry} (h : buffer.Represents (oldest :: es))
    (hlength : es.length = 9) (entry : BufferEntry) :
    (buffer.addEntry entry).1.Represents (es ++ [entry]) ∧
      (buffer.addEntry entry).2 = oldest.buffptr := by
  have hout := h.outOffs_lt
  have hidx : buffer.inOffs = buffer.outOffs := by
    have := h.inOffs_eq
    rw [List.length_cons] at this
    omega
  have hslot := slot_set buffer h.inOffs_lt entry
  have hnext : buffer.nextEntryOffset buffer.inOffs = (buffer.outOffs + 1) % 10 := by
    rw [hidx]
    rfl
  have hfirst : buffer.slot buffer.outOffs = oldest := by
    have := h.stored 0 (by simp)
    rwa [Nat.add_zero, Nat.mod_eq_of_lt hout] at this
  rw [CircularBuffer.addEntry_of_full (h.full_iff.mpr (by simp [hlength])), hnext]
  refine ⟨?_, by rw [hidx, hfirst]⟩
  refine
    { length_le := by simp [hlength]
      full_iff := by simp [hlength]
      outOffs_lt := Nat.mod_lt _ (Nat.zero_lt_succ 9)
      outOffs_eq := by simp [hlength]
      inOffs_eq := by simp [hlength]
      stored := ?_
      vacant := by simp [hlength] }
  intro i hi
  rw [List.length_append, List.length_singleton] at hi
  rw [hslot, hidx]
  rcases Nat.lt_or_ge i 9 with hlt | hge
  · have hold := h.stored (i + 1) (by simp only [List.length_cons]; omega)
    rw [List.getElem_cons_succ] at hold
    have hshift : ((buffer.outOffs + 1) % 10 + i) % 10 = (buffer.outOffs + (i + 1)) % 10 := by omega
    rw [hshift, if_neg (by omega), hold, List.getElem_append_left (by omega)]
  · obtain rfl : i = es.length := by omega
    have hlast : ((buffer.outOffs + 1) % 10 + es.length) % 10 = buffer.outOffs := by omega
    rw [if_pos hlast]
    simp

/-- Adding an entry pushes it on the queue and returns the pointer of the
evicted entry. -/
theorem addEntry (h : buffer.Represents es) (entry : BufferEntry) :
    (buffer.addEntry entry).1.Represents (BoundedQueue.push 10 es entry).1 ∧
      (buffer.addEntry entry).2 = (BoundedQueue.push 10 es entry).2.bind BufferEntry.buffptr := by
  unfold BoundedQueue.push
  split
  next hroom =>
    refine ⟨h.addEntry_of_room hroom entry, ?_⟩
    rw [addEntry_of_not_full (h.full_eq_false_iff.mpr hroom)]
    rfl
  next hfull =>
    have hlength := h.length_le
    cases es with
    | nil => simp at hfull
    | cons oldest others =>
        rw [List.length_cons] at hlength hfull
        obtain ⟨hnext, hold⟩ := h.addEntry_of_full (by omega) entry
        exact ⟨hnext, hold⟩

theorem addEntries (h : buffer.Represents es) (added : List BufferEntry) :
    (buffer.addEntries added).1.Represents (BoundedQueue.pushAll 10 es added).1 ∧
      (buffer.addEntries added).2 =
        (BoundedQueue.pushAll 10 es added).2.map fun e => e.bind BufferEntry.buffptr := by
  induction added generalizing buffer es with
  | nil => exact ⟨h, rfl⟩
  | cons entry added ih =>
      obtain ⟨hnext, hold⟩ := h.addEntry entry
      obtain ⟨hrun, hreturned⟩ := ih hnext
      exact ⟨hrun, by
        simp only [CircularBuffer.addEntries, BoundedQueue.pushAll, List.map_cons, hold, hreturned]⟩

end Represents

/-- Any run of additions from the initial buffer keeps the last ten entries:
offsets, fill flag, size, slot contents, the two offset translations, and the
pointer handed back by every single addition. -/
theorem addEntries_init_lastTen (es : List BufferEntry) :
    let buffer := (init.addEntries es).1
    let returned := (init.addEntries es).2
    (buffer.inOffs < 10 ∧ buffer.outOffs < 10) ∧
      (buffer.full = false ↔ es.length < 10) ∧
      (buffer.full = false → buffer.outOffs = 0 ∧ buffer.inOffs = es.length ∧
        0 ≤ ((buffer.inOffs : Int) - buffer.outOffs).tmod buffer.entryArrayCapacity) ∧
      (buffer.full = true → buffer.inOffs = buffer.outOffs) ∧
      buffer.entryArraySize = min es.length 10 ∧
      (∀ i < min es.length 10, some (buffer.slot (buffer.absoluteEntryOffset i)) =
        es[es.length - min es.length 10 + i]?) ∧
      (buffer.full = true → ∀ i, 0 < i → i < 10 →
        buffer.relativeEntryOffset (buffer.absoluteEntryOffset i) = i) ∧
      (buffer.full = false → ∀ i ≤ buffer.inOffs,
        buffer.relativeEntryOffset (buffer.absoluteEntryOffset i) = i) ∧
      returned = (List.range es.length).map fun j =>
        if j < 10 then none else es[j - 10]?.bind BufferEntry.buffptr := by
  obtain ⟨hbuffer, hreturned⟩ := init_represents.addEntries es
  have hqueue := BoundedQueue.pushAll_rtake 10 [] es
  have hevicted := BoundedQueue.pushAll_evicted 10 [] es
  simp only [List.rtake_nil, List.nil_append] at hqueue hevicted
  rw [hqueue] at hbuffer
  have hlength := BoundedQueue.length_rtake 10 es
  have hfalse : (init.addEntries es).1.full = false ↔ es.length < 10 := by
    rw [hbuffer.full_eq_false_iff]
    omega
  have hin := hbuffer.inOffs_eq
  have hinlt := hbuffer.inOffs_lt
  have houtlt := hbuffer.outOffs_lt
  dsimp only
  refine ⟨⟨hinlt, houtlt⟩, hfalse, ?_, ?_, ?_, ?_, ?_, ?_, ?_⟩
  · intro hroom
    have hlt := hfalse.mp hroom
    have hout := hbuffer.outOffs_eq (by omega)
    refine ⟨hout, by omega, ?_⟩
    rw [hout]
    exact Int.tmod_nonneg _ (by omega)
  · intro hfull
    have := hbuffer.full_iff.mp hfull
    omega
  · rw [hbuffer.entryArraySize_eq, hlength]
  · intro i hi
    rw [hbuffer.slot_absoluteEntryOffset (by omega)]
    simp only [List.rtake, List.getElem_drop]
    rw [List.getElem?_eq_getElem (by omega)]
    congr 2
    omega
  · intro _ i hpos hi
    exact hbuffer.relativeEntryOffset_absoluteEntryOffset hi fun _ => hpos
  · intro hroom i hi
    have hlt := hfalse.mp hroom
    refine hbuffer.relativeEntryOffset_absoluteEntryOffset ?_ (by omega)
    exact Nat.lt_of_le_of_lt hi hinlt
  · rw [hreturned, hevicted, List.map_map]
    apply List.map_congr_left
    intro j _
    simp only [Function.comp_apply, List.length_nil, Nat.zero_add]
    split <;> rfl

end CircularBuffer

end Aesd
