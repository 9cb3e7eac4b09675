import Aesd.Ring.BoundedQueue
import Aesd.Foundation.Segments

/-!
# Positions in the circular buffer

The walks over the slots compute the position arithmetic of the stored entries
laid end to end, and the sweep over the raw slots computes their total size.
-/

namespace Aesd

open CSem Segments

/-- The sizes of entries, in order. -/
def entrySizes (es : List BufferEntry) : List Nat := es.map BufferEntry.size

@[simp] theorem length_entrySizes (es : List BufferEntry) : (entrySizes es).length = es.length := by
  simp [entrySizes]

theorem getElem_entrySizes {es : List BufferEntry} {i : Nat} (hes : i < es.length)
    (hi : i < (entrySizes es).length) : (entrySizes es)[i] = es[i].size := by
  simp [entrySizes]

namespace CircularBuffer.Represents

variable {buffer : CircularBuffer} {es : List BufferEntry}

/-- The loop test at the slot of absolute offset `i`: the end has been reached
exactly when all entries are behind. -/
theorem relativeEntryOffset_lt_iff (h : buffer.Represents es) {i : Nat} (hi : i ≤ es.length)
    (hfirst : es.length = 10 → 0 < i) :
    buffer.relativeEntryOffset (buffer.absoluteEntryOffset i) < buffer.entryArraySize ↔
      i < es.length := by
  have hle := h.length_le
  rw [h.entryArraySize_eq]
  rcases Nat.lt_or_ge i 10 with hlt | hge
  · rw [h.relativeEntryOffset_absoluteEntryOffset hlt hfirst]
  · have hten : i = 10 := by omega
    have hround : buffer.absoluteEntryOffset i = buffer.outOffs := by
      have := h.outOffs_lt
      rw [absoluteEntryOffset_eq]
      omega
    rw [hround, h.relativeEntryOffset_outOffs (by omega)]
    omega

theorem iterate_eq (h : buffer.Represents es) {i : Nat} (hi : i < es.length) {charOffset : Nat}
    (hlt : charOffset < 2 ^ 63 + es[i].size) :
    buffer.iterateFindEntryOffsetForFpos (buffer.absoluteEntryOffset i) charOffset =
      if charOffset < es[i].size then
        (some (buffer.absoluteEntryOffset i), buffer.absoluteEntryOffset i, charOffset)
      else (none, buffer.absoluteEntryOffset (i + 1), charOffset - es[i].size) := by
  simp only [iterateFindEntryOffsetForFpos, h.slot_absoluteEntryOffset hi,
    nextEntryOffset_absoluteEntryOffset]
  by_cases hin : charOffset < es[i].size
  · rw [substractEntryFromFpos, if_neg (Nat.not_le.mpr hin), if_pos (by decide), if_pos hin]
  · have hdiff : s64 ((charOffset : Int) - es[i].size) = (charOffset - es[i].size : Nat) := by
      rw [s64_of_lt (by omega) (by omega)]
      omega
    rw [substractEntryFromFpos, if_pos (Nat.not_lt.mp hin), hdiff, if_neg (by omega), if_neg hin,
      u64_natCast (by omega)]

/-- What the walk finds from absolute offset `i` on. -/
def foundFrom (buffer : CircularBuffer) (es : List BufferEntry) (i charOffset : Nat) :
    Option (Nat × Nat) :=
  (locate (entrySizes (es.drop i)) charOffset).map fun found =>
    (buffer.absoluteEntryOffset (i + found.1), found.2)

theorem entrySizes_drop {i : Nat} (hi : i < es.length) :
    entrySizes (es.drop i) = es[i].size :: entrySizes (es.drop (i + 1)) := by
  rw [List.drop_eq_getElem_cons hi]
  rfl

theorem foundFrom_of_lt {i : Nat} (hi : i < es.length) {charOffset : Nat}
    (hlt : charOffset < es[i].size) :
    foundFrom buffer es i charOffset = some (buffer.absoluteEntryOffset i, charOffset) := by
  rw [foundFrom, entrySizes_drop hi, locate_cons_of_lt _ hlt]
  rfl

theorem foundFrom_of_ge {i : Nat} (hi : i < es.length) {charOffset : Nat}
    (hge : ¬ charOffset < es[i].size) :
    foundFrom buffer es i charOffset =
      foundFrom buffer es (i + 1) (charOffset - es[i].size) := by
  rw [foundFrom, entrySizes_drop hi, locate_cons_of_ge _ hge, Option.map_map, foundFrom]
  congr 1
  funext found
  simp only [Function.comp_apply, Nat.add_assoc, Nat.add_comm 1]

theorem findEntry_loop (h : buffer.Represents es) {fuel i charOffset : Nat} (hi : i ≤ es.length)
    (hfirst : es.length = 10 → 0 < i) (hlt : ∀ hi : i < es.length, charOffset < 2 ^ 63 + es[i].size)
    (hfuel : es.length - i < fuel) :
    loop buffer.findEntryRound fuel (buffer.absoluteEntryOffset i, charOffset) =
      .ok (foundFrom buffer es i charOffset) := by
  induction fuel generalizing i charOffset with
  | zero => omega
  | succ fuel ih =>
      have htest := h.relativeEntryOffset_lt_iff hi hfirst
      rcases Nat.lt_or_ge i es.length with hlen | hlen
      · have hstep := h.iterate_eq hlen (hlt hlen)
        by_cases hin : charOffset < es[i].size
        · rw [if_pos hin] at hstep
          rw [foundFrom_of_lt hlen hin]
          apply loop.leave
          simp only [findEntryRound, if_pos (htest.mpr hlen), hstep]
        · rw [if_neg hin] at hstep
          have hrest := hlt hlen
          rw [foundFrom_of_ge hlen hin,
            ← ih (i := i + 1) (by omega) (by omega) (fun _ => by omega) (by omega)]
          apply loop.again
          simp only [findEntryRound, if_pos (htest.mpr hlen), hstep]
      · have hnone : foundFrom buffer es i charOffset = none := by
          simp [foundFrom, List.drop_eq_nil_of_le hlen, entrySizes, locate]
        rw [hnone]
        apply loop.leave
        simp only [findEntryRound, if_neg (fun hc => absurd (htest.mp hc) (by omega))]

/-- The position lookup ends, and finds the entry that holds the position. -/
theorem findEntryOffsetForFpos_of_first (h : buffer.Represents es) {charOffset : Nat}
    (hlt : ∀ hpos : 0 < es.length, charOffset < 2 ^ 63 + es[0].size) :
    buffer.findEntryOffsetForFpos charOffset =
      .ok ((locate (entrySizes es) charOffset).map fun found =>
        (buffer.absoluteEntryOffset found.1, found.2)) := by
  have hle := h.length_le
  have hstart : buffer.outOffs = buffer.absoluteEntryOffset 0 := by
    rw [absoluteEntryOffset_eq, Nat.add_zero, Nat.mod_eq_of_lt h.outOffs_lt]
  have hgoal : (locate (entrySizes es) charOffset).map (fun found =>
      (buffer.absoluteEntryOffset found.1, found.2)) = foundFrom buffer es 0 charOffset := by
    simp [foundFrom]
  rw [hgoal]
  unfold CircularBuffer.findEntryOffsetForFpos
  rw [h.entryArraySize_eq]
  split
  next hpos =>
    have hfirst := hlt hpos
    have hstep := h.iterate_eq hpos hfirst
    rw [hstart]
    by_cases hin : charOffset < es[0].size
    · rw [if_pos hin] at hstep
      rw [hstep, foundFrom_of_lt hpos hin]
    · rw [if_neg hin] at hstep
      rw [hstep, foundFrom_of_ge hpos hin]
      exact h.findEntry_loop (by omega) (by omega) (fun _ => by omega) (by unfold walkFuel; omega)
  next hzero =>
    rw [hstart]
    exact h.findEntry_loop (by omega) (by omega) hlt (by unfold walkFuel; omega)

theorem findEntryOffsetForFpos (h : buffer.Represents es) {charOffset : Nat}
    (hlt : charOffset < 2 ^ 63) :
    buffer.findEntryOffsetForFpos charOffset =
      .ok ((locate (entrySizes es) charOffset).map fun found =>
        (buffer.absoluteEntryOffset found.1, found.2)) :=
  h.findEntryOffsetForFpos_of_first fun _ => Nat.lt_add_right _ hlt

/-- The sum loop stops at the index with the sizes before it added up. -/
theorem findFpos_loop (h : buffer.Represents es) (fuel : Nat) {i j : Nat} (hi : i < es.length)
    (hj : j ≤ i) (hfirst : 0 < i → 0 < j) (hfuel : i - j < fuel)
    (htotal : (entrySizes es).sum < 2 ^ 63) :
    loop (buffer.findFposRound i) fuel
        (buffer.absoluteEntryOffset j, (((entrySizes es).take j).sum : Int)) =
      .ok (((entrySizes es).take i).sum : Int) := by
  have hle := h.length_le
  induction fuel generalizing j with
  | zero => omega
  | succ fuel ih =>
      rcases Nat.lt_or_ge j i with hlt | hge
      · have hrel := h.relativeEntryOffset_absoluteEntryOffset (i := j) (by omega)
          (fun _ => hfirst (by omega))
        have hes : j < es.length := by omega
        have hsum := sum_take_succ (entrySizes es) (show j < _ by rwa [length_entrySizes])
        have hbound := sum_take_le (entrySizes es) (j + 1)
        rw [getElem_entrySizes hes] at hsum
        rw [← ih (j := j + 1) (by omega) (by omega) (by omega)]
        apply loop.again
        simp only [findFposRound, hrel, if_pos hlt, h.slot_absoluteEntryOffset hes,
          nextEntryOffset_absoluteEntryOffset]
        rw [s64_of_lt (by omega) (by omega), hsum]
        push_cast
        rfl
      · obtain rfl : j = i := by omega
        apply loop.leave
        have hnot : ¬ buffer.relativeEntryOffset (buffer.absoluteEntryOffset j) < j := by
          rcases Nat.eq_zero_or_pos j with hzero | hpos
          · omega
          · rw [h.relativeEntryOffset_absoluteEntryOffset (by omega) fun _ => hpos]
            omega
        simp only [findFposRound, if_neg hnot]

/-- The inverse lookup ends, and returns the position of a stored byte. -/
theorem findFposForEntryOffset (h : buffer.Represents es) (htotal : (entrySizes es).sum < 2 ^ 63)
    (i byte : Nat) :
    buffer.findFposForEntryOffset i byte =
      .ok (if ∃ hi : i < es.length, byte < es[i].size then
        (position (entrySizes es) i byte : Int) else -1) := by
  have hle := h.length_le
  unfold CircularBuffer.findFposForEntryOffset
  rw [h.entryArraySize_eq]
  by_cases hin : ∃ hi : i < es.length, byte < es[i].size
  · obtain ⟨hi, hbyte⟩ := hin
    have hposition : position (entrySizes es) i byte < (entrySizes es).sum :=
      position_lt_sum (by simpa using hi) (by rwa [getElem_entrySizes hi])
    have hloop : loop (buffer.findFposRound i) walkFuel
        (if 0 < i then (buffer.nextEntryOffset buffer.outOffs,
            s64 (0 + (buffer.slot buffer.outOffs).size)) else (buffer.outOffs, 0)) =
        .ok (((entrySizes es).take i).sum : Int) := by
      have hstart : buffer.absoluteEntryOffset 0 = buffer.outOffs := by
        rw [absoluteEntryOffset_eq, Nat.add_zero, Nat.mod_eq_of_lt h.outOffs_lt]
      rcases Nat.eq_zero_or_pos i with rfl | hpos
      · have := h.findFpos_loop walkFuel hi (Nat.le_refl 0) (by omega)
          (by unfold walkFuel; omega) htotal
        simpa [hstart] using this
      · have hslot := h.slot_absoluteEntryOffset (i := 0) (by omega)
        rw [hstart] at hslot
        have hsum : ((entrySizes es).take (0 + 1)).sum = es[0].size := by
          rw [sum_take_succ _ (by simp; omega), getElem_entrySizes (by omega), List.take_zero, List.sum_nil,
            Nat.zero_add]
        have hbound := sum_take_le (entrySizes es) (0 + 1)
        have hnext := nextEntryOffset_absoluteEntryOffset buffer 0
        rw [hstart] at hnext
        rw [if_pos hpos, hnext, hslot, Int.zero_add, ← hsum, s64_natCast (by omega),
          ← h.findFpos_loop walkFuel (j := 0 + 1) hi hpos (by omega)
            (by unfold walkFuel; omega) htotal]
    have hslot := h.slot_absoluteEntryOffset hi
    rw [if_pos (And.intro hi (by rw [hslot]; exact hbyte)), if_pos (Exists.intro hi hbyte)]
    simp only [hloop, Exec.ok_bind]
    exact congrArg Except.ok (s64_natCast (Nat.lt_trans hposition htotal))
  · rw [if_neg, if_neg hin]
    rintro ⟨hi, hbyte⟩
    rw [h.slot_absoluteEntryOffset hi] at hbyte
    exact hin ⟨hi, hbyte⟩

/-! ## The sweep over the raw slots -/

/-- The slots are the stored entries in some order, and null entries. -/
theorem slots_perm (h : buffer.Represents es) :
    buffer.entry.toList.Perm (es ++ List.replicate (10 - es.length) BufferEntry.null) := by
  have hle := h.length_le
  have hslots : ∀ i (hi : i < buffer.entry.toList.length),
      buffer.entry.toList[i] = buffer.slot i := by
    intro i hi
    have hi : i < 10 := by simpa using hi
    simp [slot, List.getD_eq_getElem?_getD, hi]
  rcases Nat.lt_or_ge es.length 10 with hroom | hroom
  · have heq : buffer.entry.toList = es ++ List.replicate (10 - es.length) BufferEntry.null := by
      apply List.ext_getElem
      · rw [Vector.length_toList, List.length_append, List.length_replicate]
        exact (Nat.add_sub_cancel' hle).symm
      · intro i hi _
        rw [hslots i hi]
        have hi : i < 10 := by simpa using hi
        have hzero := h.outOffs_eq hroom
        rcases Nat.lt_or_ge i es.length with hlt | hge
        · have hstored := h.stored i hlt
          rw [hzero, Nat.zero_add, Nat.mod_eq_of_lt hi] at hstored
          rw [List.getElem_append_left hlt, hstored]
        · rw [List.getElem_append_right hge, List.getElem_replicate, h.vacant hroom i hge hi]
    rw [heq]
  · have hrotate : es = buffer.entry.toList.rotate buffer.outOffs := by
      apply List.ext_getElem
      · rw [List.length_rotate, Vector.length_toList]
        exact Nat.le_antisymm hle hroom
      · intro i hi _
        have hmod : (buffer.outOffs + i) % 10 < buffer.entry.toList.length := by
          rw [Vector.length_toList]
          exact Nat.mod_lt _ (by omega)
        rw [List.getElem_rotate, ← h.stored i hi, ← hslots _ hmod]
        simp [Nat.add_comm]
    have hlength : 10 - es.length = 0 := by omega
    rw [hlength, List.replicate_zero, List.append_nil]
    conv_rhs => rw [hrotate]
    exact (List.rotate_perm _ _).symm

theorem foldl_size_eq (slots : List BufferEntry) (start : Nat) :
    slots.foldl (fun size entry =>
        if entry.buffptr.isSome then u64 (size + entry.size) else size) (u64 start) =
      u64 (start + ((slots.filter fun entry => entry.buffptr.isSome).map BufferEntry.size).sum :
        Nat) := by
  induction slots generalizing start with
  | nil => simp
  | cons entry slots ih =>
      rw [List.foldl_cons]
      by_cases hsome : entry.buffptr.isSome
      · have hstep : u64 ((u64 start : Nat) + entry.size : Int) = u64 (start + entry.size : Nat) := by
          unfold u64
          omega
        rw [if_pos hsome, hstep, ih, List.filter_cons, if_pos hsome, List.map_cons, List.sum_cons,
          Nat.add_assoc]
      · rw [if_neg hsome, ih, List.filter_cons, if_neg hsome]

/-- The sweep counts every stored entry once. -/
theorem size_eq (h : buffer.Represents es) (hsome : ∀ e ∈ es, e.buffptr.isSome)
    (htotal : (entrySizes es).sum < 2 ^ 64) : buffer.size = (entrySizes es).sum := by
  have hstart : (0 : Nat) = u64 (0 : Nat) := rfl
  have hfilter : (es ++ List.replicate (10 - es.length) BufferEntry.null).filter
      (fun entry => entry.buffptr.isSome) = es := by
    rw [List.filter_append, List.filter_eq_self.mpr hsome]
    simp [BufferEntry.null]
  unfold CircularBuffer.size
  rw [hstart, foldl_size_eq, Nat.zero_add,
    ((h.slots_perm.filter _).map BufferEntry.size).sum_eq, hfilter]
  exact u64_natCast htotal

end CircularBuffer.Represents

end Aesd
