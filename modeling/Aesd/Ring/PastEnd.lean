import Aesd.Ring.Translations

/-!
# Positions past the end

The position lookup takes a negative difference for a found entry. A difference
of 2^63 or more wraps to a negative one, and only at the first entry, since a rest
of the position that was kept is below that.
-/

namespace Aesd

open CSem Segments

theorem s64_sub_neg {charOffset size : Nat} (hwrap : 2 ^ 63 + size ≤ charOffset)
    (hlt : charOffset < 2 ^ 64) : s64 ((charOffset : Int) - size) < 0 := by
  unfold s64
  omega

namespace CircularBuffer

/-- The lookup finds nothing from the total size on, and what it finds is a byte
of the entry. -/
def RejectsPastEnd (buffer : CircularBuffer) (total charOffset entryOffsetByteRtn : Nat) : Prop :=
  ∃ found byte,
    buffer.findEntryOffsetForFposRtn charOffset entryOffsetByteRtn = .ok (found, byte) ∧
    (total ≤ charOffset → found = none) ∧
    ∀ slot, found = some slot → byte < (buffer.slot slot).size

namespace Represents

variable {buffer : CircularBuffer} {es : List BufferEntry} {charOffset : Nat}

theorem rejectsPastEnd (h : buffer.Represents es)
    (hlt : ∀ hpos : 0 < es.length, charOffset < 2 ^ 63 + es[0].size) (entryOffsetByteRtn : Nat) :
    buffer.RejectsPastEnd (entrySizes es).sum charOffset entryOffsetByteRtn := by
  unfold RejectsPastEnd
  rw [findEntryOffsetForFposRtn, h.findEntryOffsetForFpos_of_first hlt]
  cases hfound : locate (entrySizes es) charOffset with
  | none => exact ⟨none, _, rfl, fun _ => rfl, fun _ heq => by cases heq⟩
  | some found =>
      obtain ⟨hi, hbyte, hposition⟩ := locate_eq_some_iff.mp hfound
      have hinside := position_lt_sum hi hbyte
      rw [hposition] at hinside
      refine ⟨some (buffer.absoluteEntryOffset found.1), found.2, rfl,
        fun hge => absurd hinside (Nat.not_lt.mpr hge), ?_⟩
      intro slot heq
      obtain rfl := Option.some.inj heq
      have hes : found.1 < es.length := by rwa [length_entrySizes] at hi
      rw [h.slot_absoluteEntryOffset hes, ← getElem_entrySizes hes hi]
      exact hbyte

/-- A difference that wraps makes the first entry the one found. -/
theorem findEntryOffsetForFpos_of_wrap (h : buffer.Represents es) (hpos : 0 < es.length)
    (hwrap : 2 ^ 63 + es[0].size ≤ charOffset) (hlt : charOffset < 2 ^ 64) :
    buffer.findEntryOffsetForFpos charOffset =
      .ok (some (buffer.absoluteEntryOffset 0, charOffset)) := by
  have hstart : buffer.outOffs = buffer.absoluteEntryOffset 0 := by
    rw [absoluteEntryOffset_eq, Nat.add_zero, Nat.mod_eq_of_lt h.outOffs_lt]
  have hsub : substractEntryFromFpos es[0] charOffset < 0 := by
    rw [substractEntryFromFpos, if_pos (by omega)]
    exact s64_sub_neg hwrap hlt
  unfold CircularBuffer.findEntryOffsetForFpos
  rw [h.entryArraySize_eq, if_pos hpos, hstart]
  simp only [iterateFindEntryOffsetForFpos, h.slot_absoluteEntryOffset hpos, if_pos hsub]

end Represents

/-- Offsets past the end are rejected, and bytes found are bytes of their entry,
exactly when the offset is not 2^63 or more past the oldest entry. -/
theorem rejectsPastEnd_iff {added : List BufferEntry}
    (htotal : (entrySizes (added.rtake 10)).sum < 2 ^ 63) {charOffset : Nat}
    (hlt : charOffset < 2 ^ 64) (entryOffsetByteRtn : Nat) :
    (init.addEntries added).1.RejectsPastEnd (entrySizes (added.rtake 10)).sum charOffset
        entryOffsetByteRtn ↔
      ∀ oldest, (added.rtake 10).head? = some oldest → charOffset < 2 ^ 63 + oldest.size := by
  have h := addEntries_init_represents added
  generalize added.rtake 10 = es at h htotal ⊢
  constructor
  · rintro ⟨found, byte, hfound, -, hbyte⟩ oldest holdest
    by_contra hwrap
    obtain ⟨rest, rfl⟩ := List.head?_eq_some_iff.mp holdest
    have hpos : 0 < (oldest :: rest).length := Nat.zero_lt_succ _
    rw [findEntryOffsetForFposRtn,
      h.findEntryOffsetForFpos_of_wrap hpos (Nat.not_lt.mp hwrap) hlt] at hfound
    obtain ⟨rfl, rfl⟩ := Prod.mk.inj (Except.ok.inj hfound)
    have hinside := hbyte _ rfl
    rw [h.slot_absoluteEntryOffset hpos, List.getElem_cons_zero] at hinside
    omega
  · intro hnear
    refine h.rejectsPastEnd (fun hpos => ?_) entryOffsetByteRtn
    exact hnear es[0] (List.head?_eq_getElem? .. ▸ List.getElem?_eq_getElem hpos)

/-- A position in the upper half of the range, past an entry of two bytes. -/
theorem rejectsPastEnd_iff_twoBytes :
    (init.addEntries [⟨some 0, 2⟩]).1.RejectsPastEnd 2 (2 ^ 63 + 1) 7 := by
  have htotal : (entrySizes ([(⟨some 0, 2⟩ : BufferEntry)].rtake 10)).sum < 2 ^ 63 := by decide
  refine (rejectsPastEnd_iff htotal (by decide) 7).mpr fun oldest heq => ?_
  obtain rfl := Option.some.inj heq
  decide

/-- The first position that wraps is found in an entry of two bytes. -/
theorem past_end_is_found : ¬ (init.addEntries [⟨some 0, 2⟩]).1.RejectsPastEnd 2 (2 ^ 63 + 2) 7 := by
  rintro ⟨found, byte, hfound, hnone, -⟩
  have hwrapped : (init.addEntries [⟨some 0, 2⟩]).1.findEntryOffsetForFposRtn (2 ^ 63 + 2) 7 =
      .ok (some 0, 2 ^ 63 + 2) := by decide +kernel
  obtain ⟨rfl, -⟩ := Prod.mk.inj (Except.ok.inj (hfound.symm.trans hwrapped))
  exact absurd (hnone (by decide)) (Option.some_ne_none 0)

end CircularBuffer

end Aesd
