import Aesd.Ring.Lookup

/-!
# The two translations of positions

Between the stream position of a byte and its place in the stored entries. The
stored entries are the last ten that were added, and the translations undo each
other on their bytes.
-/

namespace Aesd

open CSem Segments

namespace CircularBuffer

/-- The position lookup with its out parameter, which is only set when the
position is found. -/
def findEntryOffsetForFposRtn (buffer : CircularBuffer) (charOffset entryOffsetByteRtn : Nat) :
    Exec (Option Nat × Nat) := do
  match ← buffer.findEntryOffsetForFpos charOffset with
  | some (found, remaining) => .ok (some found, remaining)
  | none => .ok (none, entryOffsetByteRtn)

/-- Any additions to the initial buffer leave the last ten entries. -/
theorem addEntries_init_represents (added : List BufferEntry) :
    (init.addEntries added).1.Represents (added.rtake 10) := by
  have h := (init_represents.addEntries added).1
  have hqueue := BoundedQueue.pushAll_rtake 10 [] added
  rw [List.rtake_nil, List.nil_append] at hqueue
  rwa [hqueue] at h

namespace Represents

variable {buffer : CircularBuffer} {es : List BufferEntry}

/-- The slots of the stored entries are different ones. -/
theorem absoluteEntryOffset_injective (h : buffer.Represents es) {i j : Nat} (hi : i < es.length)
    (hj : j < es.length) (heq : buffer.absoluteEntryOffset i = buffer.absoluteEntryOffset j) :
    i = j := by
  have hle := h.length_le
  rw [absoluteEntryOffset_eq, absoluteEntryOffset_eq] at heq
  omega

/-- The lookup finds byte `byte` of entry `i` exactly at the position of this
byte. -/
theorem findEntryOffsetForFpos_eq_some_iff (h : buffer.Represents es) {charOffset : Nat}
    (hlt : charOffset < 2 ^ 63) {i byte : Nat} (hi : i < es.length) :
    buffer.findEntryOffsetForFpos charOffset = .ok (some (buffer.absoluteEntryOffset i, byte)) ↔
      byte < es[i].size ∧ position (entrySizes es) i byte = charOffset := by
  have hsize : i < (entrySizes es).length := by rwa [length_entrySizes]
  rw [h.findEntryOffsetForFpos hlt, Except.ok.injEq, Option.map_eq_some_iff]
  constructor
  · rintro ⟨⟨j, inside⟩, hfound, heq⟩
    obtain ⟨hslot, rfl⟩ := Prod.mk.inj heq
    obtain ⟨hj, hinside, hposition⟩ := locate_eq_some_iff.mp hfound
    rw [length_entrySizes] at hj
    obtain rfl := h.absoluteEntryOffset_injective hj hi hslot
    rw [getElem_entrySizes hi] at hinside
    exact ⟨hinside, hposition⟩
  · rintro ⟨hbyte, rfl⟩
    rw [← getElem_entrySizes hi hsize] at hbyte
    exact ⟨(i, byte), locate_position hsize hbyte, rfl⟩

end Represents

/-- The position lookup ends. A position below the size that the sweep over the
raw slots adds up lies in exactly one stored entry, and the lookup finds that
entry and the rest of the position. From the size on it finds nothing and does
not touch the byte offset. -/
theorem findEntryOffsetForFposRtn_exact {added : List BufferEntry}
    (hsome : ∀ entry ∈ added, entry.buffptr.isSome)
    (htotal : (entrySizes (added.rtake 10)).sum < 2 ^ 63) {charOffset : Nat}
    (hlt : charOffset < 2 ^ 63) (entryOffsetByteRtn : Nat) :
    let buffer := (init.addEntries added).1
    let sizes := entrySizes (added.rtake 10)
    (charOffset < buffer.size → ∃ i, ∃ hi : i < (added.rtake 10).length,
      (∀ j, (∃ hj : j < sizes.length, (sizes.take j).sum ≤ charOffset ∧
        charOffset < (sizes.take j).sum + sizes[j]) ↔ j = i) ∧
      buffer.slot (buffer.absoluteEntryOffset i) = (added.rtake 10)[i] ∧
      buffer.findEntryOffsetForFposRtn charOffset entryOffsetByteRtn =
        .ok (some (buffer.absoluteEntryOffset i), charOffset - (sizes.take i).sum)) ∧
    (buffer.size ≤ charOffset →
      buffer.findEntryOffsetForFposRtn charOffset entryOffsetByteRtn =
        .ok (none, entryOffsetByteRtn)) := by
  have h := addEntries_init_represents added
  have hstored : ∀ entry ∈ added.rtake 10, entry.buffptr.isSome :=
    fun entry hmem => hsome entry (List.mem_of_mem_drop hmem)
  dsimp only
  rw [h.size_eq hstored (Nat.lt_trans htotal (by decide)), findEntryOffsetForFposRtn,
    h.findEntryOffsetForFpos hlt]
  cases hfound : locate (entrySizes (added.rtake 10)) charOffset with
  | none =>
      have hge := locate_eq_none_iff.mp hfound
      exact ⟨fun hinside => absurd hge (Nat.not_le.mpr hinside), fun _ => rfl⟩
  | some found =>
      obtain ⟨i, byte⟩ := found
      obtain ⟨hi, hbyte, hposition⟩ := locate_eq_some_iff.mp hfound
      have hinside := position_lt_sum hi hbyte
      rw [hposition] at hinside
      refine ⟨fun _ => ?_, fun hge => absurd hinside (Nat.not_lt.mpr hge)⟩
      have hentry : i < (added.rtake 10).length := by rwa [length_entrySizes] at hi
      have hrest : byte = charOffset - ((entrySizes (added.rtake 10)).take i).sum := by
        rw [← hposition, position, Nat.add_sub_cancel_left]
      refine ⟨i, hentry, ?_, h.slot_absoluteEntryOffset hentry, ?_⟩
      · intro j
        constructor
        · -- bounds for `j` place the position at a byte of `j`
          rintro ⟨hj, hbefore, hafter⟩
          have hplace : locate (entrySizes (added.rtake 10)) charOffset =
              some (j, charOffset - ((entrySizes (added.rtake 10)).take j).sum) := by
            apply locate_eq_some_iff.mpr
            refine ⟨hj, by omega, ?_⟩
            rw [position]
            omega
          rw [hfound] at hplace
          exact (Prod.mk.inj (Option.some.inj hplace)).1.symm
        · rintro rfl
          rw [position] at hposition
          exact ⟨hi, by omega, by omega⟩
      · rw [← hrest]
        rfl

/-- Two lines of three and no bytes, and the second byte of the first. -/
theorem findEntryOffsetForFposRtn_exact_twoEntries :
    (init.addEntries [⟨some 0, 3⟩, ⟨some 1, 0⟩]).1.findEntryOffsetForFposRtn 1 7 =
      .ok (some 0, 1) ∧
    (init.addEntries [⟨some 0, 3⟩, ⟨some 1, 0⟩]).1.findEntryOffsetForFposRtn 3 7 =
      .ok (none, 7) := by
  have hsome : ∀ entry ∈ [(⟨some 0, 3⟩ : BufferEntry), ⟨some 1, 0⟩], entry.buffptr.isSome := by
    decide
  have htotal : (entrySizes ([(⟨some 0, 3⟩ : BufferEntry), ⟨some 1, 0⟩].rtake 10)).sum < 2 ^ 63 := by
    decide
  constructor
  · obtain ⟨i, hi, honly, _, hfound⟩ := (findEntryOffsetForFposRtn_exact hsome htotal
      (by decide : 1 < 2 ^ 63) 7).1 (by decide)
    obtain rfl := (honly 0).mp ⟨by decide, by decide, by decide⟩
    exact hfound
  · exact (findEntryOffsetForFposRtn_exact hsome htotal (by decide : 3 < 2 ^ 63) 7).2 (by decide)

/-- The inverse lookup ends, and fails exactly where there is no such byte. The
two lookups are inverse to each other. -/
theorem translations_inverse {added : List BufferEntry}
    (htotal : (entrySizes (added.rtake 10)).sum < 2 ^ 63) :
    let buffer := (init.addEntries added).1
    (∀ i byte, ∃ result, buffer.findFposForEntryOffset i byte = .ok result ∧
      (result = -1 ↔ ¬ ∃ hi : i < (added.rtake 10).length, byte < (added.rtake 10)[i].size)) ∧
    (∀ i byte, ∀ result ≥ 0, buffer.findFposForEntryOffset i byte = .ok result →
      buffer.findEntryOffsetForFpos result.toNat =
        .ok (some (buffer.absoluteEntryOffset i, byte))) ∧
    (∀ p < 2 ^ 63, ∀ slot byte, buffer.findEntryOffsetForFpos p = .ok (some (slot, byte)) →
      ∃ i < (added.rtake 10).length, slot = buffer.absoluteEntryOffset i ∧
        buffer.findFposForEntryOffset i byte = .ok (p : Int)) := by
  have h := addEntries_init_represents added
  dsimp only
  refine ⟨?_, ?_, ?_⟩
  · intro i byte
    refine ⟨_, h.findFposForEntryOffset htotal i byte, ?_⟩
    by_cases hin : ∃ hi : i < (added.rtake 10).length, byte < (added.rtake 10)[i].size
    · rw [if_pos hin]
      simp only [hin, not_true_eq_false, iff_false]
      omega
    · rw [if_neg hin]
      simp only [hin, not_false_eq_true]
  · intro i byte result hnonneg hresult
    rw [h.findFposForEntryOffset htotal, Except.ok.injEq] at hresult
    by_cases hin : ∃ hi : i < (added.rtake 10).length, byte < (added.rtake 10)[i].size
    · rw [if_pos hin] at hresult
      obtain ⟨hi, hbyte⟩ := hin
      have hinside : position (entrySizes (added.rtake 10)) i byte < 2 ^ 63 := by
        apply Nat.lt_trans _ htotal
        apply position_lt_sum (by rwa [length_entrySizes])
        rwa [getElem_entrySizes hi]
      subst hresult
      exact (h.findEntryOffsetForFpos_eq_some_iff hinside hi).mpr ⟨hbyte, rfl⟩
    · rw [if_neg hin] at hresult
      omega
  · intro p hp slot byte hfound
    obtain ⟨⟨i, inside⟩, hlocate, heq⟩ := Option.map_eq_some_iff.mp
      (Except.ok.inj ((h.findEntryOffsetForFpos hp).symm.trans hfound))
    obtain ⟨rfl, rfl⟩ := Prod.mk.inj heq
    have hi : i < (added.rtake 10).length := by
      obtain ⟨hi, _⟩ := locate_eq_some_iff.mp hlocate
      rwa [length_entrySizes] at hi
    obtain ⟨hbyte, hposition⟩ := (h.findEntryOffsetForFpos_eq_some_iff hp hi).mp hfound
    refine ⟨i, hi, rfl, ?_⟩
    rw [h.findFposForEntryOffset htotal, if_pos ⟨hi, hbyte⟩, hposition]

/-- The byte at position 2 of two entries of two bytes. -/
theorem translations_inverse_twoEntries :
    (init.addEntries [⟨some 0, 2⟩, ⟨some 1, 2⟩]).1.findEntryOffsetForFpos 2 =
      .ok (some (1, 0)) := by
  have htotal : (entrySizes ([(⟨some 0, 2⟩ : BufferEntry), ⟨some 1, 2⟩].rtake 10)).sum < 2 ^ 63 := by
    decide
  exact (translations_inverse htotal).2.1 1 0 2 (by decide) (by decide +kernel)

end CircularBuffer

end Aesd
