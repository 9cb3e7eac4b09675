import Aesd.Foundation.Heap
import Aesd.Foundation.MachineInt

/-!
# The circular buffer of write commands

`struct aesd_circular_buffer` and its operations as the driver computes them.
A pointer into the entry array is the index of the slot it points to. Reading
past the ten slots yields the null entry and writing past them does nothing;
no reachable buffer does either.
-/

namespace Aesd

open CSem

/-- `AESDCHAR_MAX_WRITE_OPERATIONS_SUPPORTED`. -/
abbrev maxWriteOperationsSupported : Nat := 10

/-- `struct aesd_buffer_entry`; the null pointer is `none`. -/
structure BufferEntry where
  buffptr : Option Ptr
  size : Nat
  deriving DecidableEq, Repr

/-- The entry of zeroed memory. -/
def BufferEntry.null : BufferEntry := ⟨none, 0⟩

/-- `struct aesd_circular_buffer`. -/
structure CircularBuffer where
  entry : Vector BufferEntry maxWriteOperationsSupported
  inOffs : Nat
  outOffs : Nat
  full : Bool
  deriving DecidableEq, Repr

namespace CircularBuffer

/-- `buffer->entry[index]`. -/
def slot (buffer : CircularBuffer) (index : Nat) : BufferEntry :=
  buffer.entry.toList.getD index BufferEntry.null

def init : CircularBuffer := ⟨Vector.replicate _ BufferEntry.null, 0, 0, false⟩

def entryArrayCapacity (_buffer : CircularBuffer) : Nat := maxWriteOperationsSupported

def relativeEntryOffset (buffer : CircularBuffer) (entryOffset : Nat) : Nat :=
  let adjustedEntryOffset := entryOffset % buffer.entryArrayCapacity
  if buffer.full = true ∧ adjustedEntryOffset = buffer.inOffs then
    buffer.entryArrayCapacity
  else if buffer.outOffs ≤ adjustedEntryOffset then
    u8 (adjustedEntryOffset - buffer.outOffs)
  else
    u8 (adjustedEntryOffset + buffer.entryArrayCapacity - buffer.outOffs)

def absoluteEntryOffset (buffer : CircularBuffer) (entryOffset : Nat) : Nat :=
  (buffer.outOffs + entryOffset) % buffer.entryArrayCapacity

/-- The remainder is the one of C, which takes the sign of the dividend. -/
def entryArraySize (buffer : CircularBuffer) : Nat :=
  if buffer.full then buffer.entryArrayCapacity
  else u8 (((buffer.inOffs : Int) - buffer.outOffs).tmod buffer.entryArrayCapacity)

def nextEntryOffset (buffer : CircularBuffer) (entryOffset : Nat) : Nat :=
  (entryOffset + 1) % buffer.entryArrayCapacity

def substractEntryFromFpos (entry : BufferEntry) (charOffset : Nat) : Int :=
  if entry.size ≤ charOffset then s64 (charOffset - entry.size) else -1

/-- One step of the position lookup: the slot if the position lies in it, and
otherwise the next slot with the rest of the position. -/
def iterateFindEntryOffsetForFpos (buffer : CircularBuffer) (entryOffset charOffset : Nat) :
    Option Nat × Nat × Nat :=
  let substraction := substractEntryFromFpos (buffer.slot entryOffset) charOffset
  if substraction < 0 then (some entryOffset, entryOffset, charOffset)
  else (none, buffer.nextEntryOffset entryOffset, u64 substraction)

/-- Rounds granted to a walk over the slots; a `uint8_t` has no more values. -/
def walkFuel : Nat := 256

/-- A round of the `while` loop of the position lookup. -/
def findEntryRound (buffer : CircularBuffer) :
    Nat × Nat → Exec (Round (Nat × Nat) (Option (Nat × Nat)))
  | (entryOffset, remaining) =>
      if buffer.relativeEntryOffset entryOffset < buffer.entryArraySize then
        match buffer.iterateFindEntryOffsetForFpos entryOffset remaining with
        | (some found, _, remaining) => .ok (.leave (some (found, remaining)))
        | (none, entryOffset, remaining) => .ok (.again (entryOffset, remaining))
      else .ok (.leave none)

/-- The slot that holds a position, with the byte offset inside its entry. The
first step is made before the loop, because the relative offset of the first
slot reads as the capacity when the buffer is full. -/
def findEntryOffsetForFpos (buffer : CircularBuffer) (charOffset : Nat) :
    Exec (Option (Nat × Nat)) :=
  if 0 < buffer.entryArraySize then
    match buffer.iterateFindEntryOffsetForFpos buffer.outOffs charOffset with
    | (some found, _, remaining) => .ok (some (found, remaining))
    | (none, entryOffset, remaining) =>
        loop buffer.findEntryRound walkFuel (entryOffset, remaining)
  else loop buffer.findEntryRound walkFuel (buffer.outOffs, charOffset)

/-- A round of the `while` loop that adds up the entries before an index. -/
def findFposRound (buffer : CircularBuffer) (entryOffset : Nat) :
    Nat × Int → Exec (Round (Nat × Int) Int)
  | (iter, result) =>
      if buffer.relativeEntryOffset iter < entryOffset then
        .ok (.again (buffer.nextEntryOffset iter, s64 (result + (buffer.slot iter).size)))
      else .ok (.leave result)

/-- The position of a byte of an entry, or -1 when there is no such byte. -/
def findFposForEntryOffset (buffer : CircularBuffer) (entryOffset entryOffsetByte : Nat) :
    Exec Int :=
  if entryOffset < buffer.entryArraySize ∧
      entryOffsetByte < (buffer.slot (buffer.absoluteEntryOffset entryOffset)).size then do
    let start : Nat × Int :=
      if 0 < entryOffset then
        (buffer.nextEntryOffset buffer.outOffs, s64 (0 + (buffer.slot buffer.outOffs).size))
      else (buffer.outOffs, 0)
    let result ← loop (buffer.findFposRound entryOffset) walkFuel start
    .ok (s64 (result + entryOffsetByte))
  else .ok (-1)

/-- Store an entry in the slot at `in_offs`; a full buffer hands back the
pointer of the entry it overwrites. -/
def addEntry (buffer : CircularBuffer) (entry : BufferEntry) :
    CircularBuffer × Option Ptr :=
  let old := if buffer.full then (buffer.slot buffer.inOffs).buffptr else none
  let inOffs := buffer.nextEntryOffset buffer.inOffs
  let stored := { buffer with
    entry := buffer.entry.setIfInBounds buffer.inOffs entry
    inOffs := inOffs }
  if stored.full then ({ stored with outOffs := inOffs }, old)
  else if stored.inOffs = stored.outOffs then ({ stored with full := true }, old)
  else (stored, old)

/-- The sizes of all slots with a non-null pointer, whatever their order. -/
def size (buffer : CircularBuffer) : Nat :=
  buffer.entry.toList.foldl
    (fun size entry => if entry.buffptr.isSome then u64 (size + entry.size) else size) 0

/-- Add entries one after another, listing what each call returns. -/
def addEntries (buffer : CircularBuffer) : List BufferEntry → CircularBuffer × List (Option Ptr)
  | [] => (buffer, [])
  | entry :: entries =>
      let step := buffer.addEntry entry
      let run := addEntries step.1 entries
      (run.1, step.2 :: run.2)

/-- The stored entries from `out_offs` on. -/
def entries (buffer : CircularBuffer) : List BufferEntry :=
  (List.range buffer.entryArraySize).map fun i => buffer.slot (buffer.absoluteEntryOffset i)

@[simp] theorem entryArrayCapacity_eq (buffer : CircularBuffer) :
    buffer.entryArrayCapacity = 10 := rfl

@[simp] theorem slot_init (index : Nat) : init.slot index = BufferEntry.null := by
  simp only [slot, init, Vector.toList_replicate, List.getD_eq_getElem?_getD,
    List.getElem?_replicate]
  split <;> rfl

theorem absoluteEntryOffset_eq (buffer : CircularBuffer) (entryOffset : Nat) :
    buffer.absoluteEntryOffset entryOffset = (buffer.outOffs + entryOffset) % 10 := rfl

theorem relativeEntryOffset_eq (buffer : CircularBuffer) {entryOffset : Nat}
    (hlt : entryOffset < 10) :
    buffer.relativeEntryOffset entryOffset =
      if buffer.full = true ∧ entryOffset = buffer.inOffs then 10
      else if buffer.outOffs ≤ entryOffset then u8 (entryOffset - buffer.outOffs)
      else u8 (entryOffset + 10 - buffer.outOffs) := by
  have hmod : entryOffset % buffer.entryArrayCapacity = entryOffset := Nat.mod_eq_of_lt hlt
  simp only [relativeEntryOffset]
  rw [hmod]
  rfl

/-- The slots after an entry is stored. -/
theorem slot_set (buffer : CircularBuffer) {index : Nat} (hlt : index < 10) (entry : BufferEntry)
    (inOffs outOffs : Nat) (full : Bool) (i : Nat) :
    (CircularBuffer.mk (buffer.entry.setIfInBounds index entry) inOffs outOffs full).slot i =
      if i = index then entry else buffer.slot i := by
  simp only [slot, Vector.toList_setIfInBounds, List.getD_eq_getElem?_getD]
  by_cases heq : i = index
  · subst i
    simp [hlt]
  · rw [if_neg heq, List.getElem?_set_ne (Ne.symm heq)]

/-- With room left the entry goes to the slot at `in_offs`, and the buffer is
full once `in_offs` has come round to `out_offs`. -/
theorem addEntry_of_not_full {buffer : CircularBuffer} (hfull : buffer.full = false)
    (entry : BufferEntry) :
    buffer.addEntry entry =
      (⟨buffer.entry.setIfInBounds buffer.inOffs entry, buffer.nextEntryOffset buffer.inOffs,
        buffer.outOffs, decide (buffer.nextEntryOffset buffer.inOffs = buffer.outOffs)⟩, none) := by
  by_cases hwrap : buffer.nextEntryOffset buffer.inOffs = buffer.outOffs
  · simp [addEntry, hfull, hwrap]
  · simp [addEntry, hfull, hwrap]

/-- A full buffer gives up the slot at `in_offs`, and both offsets move on. -/
theorem addEntry_of_full {buffer : CircularBuffer} (hfull : buffer.full = true)
    (entry : BufferEntry) :
    buffer.addEntry entry =
      (⟨buffer.entry.setIfInBounds buffer.inOffs entry, buffer.nextEntryOffset buffer.inOffs,
        buffer.nextEntryOffset buffer.inOffs, true⟩, (buffer.slot buffer.inOffs).buffptr) := by
  simp [addEntry, hfull]

end CircularBuffer

end Aesd
