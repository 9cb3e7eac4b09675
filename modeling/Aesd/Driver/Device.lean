import Aesd.Ring.CircularBuffer

/-!
# The character device

The file operations of the driver on `struct aesd_dev` and the kernel heap. The
outcome of every kernel service a call depends on is an argument of the call.
The copy into `msg_buffer` for the debug message is made apart from the rest; the
bytes it is given are part of the reply.
-/

namespace Aesd

open CSem

/-- `TERMINATOR_CHARACTER`. -/
def terminatorCharacter : UInt8 := 10

abbrev eFault : Int := 14
abbrev eNoMem : Int := 12
abbrev eInval : Int := 22
abbrev eNoTty : Int := 25
abbrev eRestartSys : Int := 512

/-- `struct aesd_dev`. -/
structure AesdDev where
  unterminatedBuffptr : Option Ptr
  unterminatedSize : Nat
  buffer : CircularBuffer
  deriving DecidableEq, Repr

/-- The device together with the memory it allocates from. -/
structure Kernel where
  heap : Heap
  dev : AesdDev
  deriving DecidableEq, Repr

/-- The device over memory as it is, with some byte in every cell. -/
def Kernel.filled (garbage : Ptr → Nat → UInt8) (k : Kernel) : Kernel :=
  ⟨k.heap.filled garbage, k.dev⟩

/-- `aesd_init_module` zeroes the device. -/
def Kernel.init : Kernel := ⟨Heap.empty, ⟨none, 0, CircularBuffer.init⟩⟩

/-- What a call gives back: its return value, the file position it leaves, the
bytes copied to the user, and the bytes handed to the debug copy. -/
structure Reply where
  retval : Int
  fPos : Int
  delivered : List UInt8 := []
  msgCopy : Option (List UInt8) := none
  deriving DecidableEq, Repr

/-- The index of the first occurrence of a character, or -1. -/
def aesdFindChar (buffer : List UInt8) (character : UInt8) : Int :=
  let i := buffer.findIdx (· == character)
  if i < buffer.length then i else -1

/-! ## Reading -/

/-- Whether the lock is taken, and how many bytes `copy_to_user` copies. -/
structure ReadOutcome where
  locked : Bool
  copied : Nat
  deriving DecidableEq, Repr

/-- The pointer, size and byte offset that a read is served from: a stored
entry, or else the unterminated buffer. The position past the stored entries is
compared with the unterminated size as an unsigned number. -/
def readSource (k : Kernel) (fPos : Int) : Exec (Option (Option Ptr × Nat × Nat)) := do
  match ← k.dev.buffer.findEntryOffsetForFpos (u64 fPos) with
  | some (index, currentEntryByte) =>
      let currentEntry := k.dev.buffer.slot index
      .ok (some (currentEntry.buffptr, currentEntry.size, currentEntryByte))
  | none =>
      let remaining := s64 (fPos - k.dev.buffer.size)
      if u64 remaining < k.dev.unterminatedSize then
        .ok (some (k.dev.unterminatedBuffptr, k.dev.unterminatedSize, u64 remaining))
      else .ok none

/-- `aesd_read`; it changes nothing but the file position. Bytes that were never
stored are a fault here; `Kernel.filled` puts something in their place. -/
def aesdRead (k : Kernel) (outcome : ReadOutcome) (count : Nat) (fPos : Int) : Exec Reply :=
  if outcome.locked = false then .ok { retval := -eRestartSys, fPos := fPos }
  else do
    match ← readSource k fPos with
    | none => .ok { retval := 0, fPos := fPos }
    | some (buffptr, size, currentEntryByte) =>
        let available := u64 (size - currentEntryByte)
        let finalCount := if count < available then count else available
        let bytes ← k.heap.load buffptr currentEntryByte finalCount
        if outcome.copied < finalCount then
          .ok { retval := -eFault, fPos := fPos, delivered := bytes.take outcome.copied,
                msgCopy := some bytes }
        else
          .ok { retval := s64 finalCount, fPos := s64 (fPos + finalCount), delivered := bytes,
                msgCopy := some bytes }

/-! ## Writing -/

/-- Whether the lock is taken, how `krealloc` answers, and how many bytes
`copy_from_user` copies. -/
structure WriteOutcome where
  locked : Bool
  krealloc : Resize
  copied : Nat
  deriving DecidableEq, Repr

/-- The bytes `copy_from_user` leaves in its destination: what it could not
copy is padded with zeros. -/
def copyFromUser (buf : List UInt8) (copied : Nat) : List UInt8 :=
  buf.take copied ++ List.replicate (buf.length - copied) 0

/-- The code at `done` of `aesd_write`: a negative result releases an
unterminated buffer that holds nothing. -/
def aesdWriteDone (k : Kernel) (retval fPos : Int) (error : Nat)
    (msgCopy : Option (List UInt8)) : Exec (Kernel × Reply) :=
  if retval < 0 then
    let reply : Reply :=
      { retval := if error ≠ 0 then -eFault else retval, fPos := fPos, msgCopy := msgCopy }
    match k.dev.unterminatedBuffptr, k.dev.unterminatedSize with
    | some p, 0 => do
        let heap ← k.heap.free p
        .ok (⟨heap, { k.dev with unterminatedBuffptr := none }⟩, reply)
    | _, _ => .ok (k, reply)
  else .ok (k, { retval := retval, fPos := fPos, msgCopy := msgCopy })

/-- The part of `aesd_write` that decides on the copied bytes: without a
terminator they stay unterminated, otherwise everything up to the first
terminator becomes a new entry. The result counts the bytes used. -/
def aesdWriteAccept (k : Kernel) (bytes : List UInt8) : Exec (Kernel × Nat) :=
  let terminatorPosition := aesdFindChar bytes terminatorCharacter
  if terminatorPosition < 0 then
    .ok ({ k with dev := { k.dev with
      unterminatedSize := u64 (k.dev.unterminatedSize + bytes.length) } }, bytes.length)
  else do
    let finalCount := u64 (terminatorPosition + 1)
    let entry : BufferEntry :=
      ⟨k.dev.unterminatedBuffptr, u64 (k.dev.unterminatedSize + finalCount)⟩
    let (buffer, oldptr) := k.dev.buffer.addEntry entry
    let heap ← k.heap.freeNonNull oldptr
    .ok (⟨heap, ⟨none, 0, buffer⟩⟩, finalCount)

/-- `aesd_write`. The unterminated pointer takes the result of `krealloc` before
that result is checked. -/
def aesdWrite (k : Kernel) (outcome : WriteOutcome) (buf : List UInt8) (fPos : Int) :
    Exec (Kernel × Reply) :=
  if outcome.locked = false then .ok (k, { retval := -eRestartSys, fPos := fPos })
  else if buf.length = 0 then aesdWriteDone k (-eNoMem) fPos 0 none
  else do
    let (heap, buffptr) ← k.heap.realloc k.dev.unterminatedBuffptr
      (u64 (k.dev.unterminatedSize + buf.length)) outcome.krealloc
    let k : Kernel := ⟨heap, { k.dev with unterminatedBuffptr := buffptr }⟩
    match buffptr with
    | none => aesdWriteDone k (-eNoMem) fPos 0 none
    | some p => do
        let heap ← k.heap.store (some p) k.dev.unterminatedSize (copyFromUser buf outcome.copied)
        let k : Kernel := { k with heap := heap }
        let error := buf.length - outcome.copied
        if error ≠ 0 then aesdWriteDone k (-eNoMem) fPos error none
        else do
          let bytes ← k.heap.load (some p) k.dev.unterminatedSize buf.length
          let (k, finalCount) ← aesdWriteAccept k bytes
          aesdWriteDone k (s64 finalCount) (s64 (fPos + finalCount)) 0 (some bytes)

/-! ## Seeking -/

inductive Whence
  | set
  | cur
  | fromEnd
  deriving DecidableEq, Repr

/-- The position that a seek asks for. -/
def Whence.target (whence : Whence) (fPos offset size : Int) : Int :=
  match whence with
  | .set => offset
  | .cur => fPos + offset
  | .fromEnd => size + offset

/-- A seek from the current position by nothing only reports the position. -/
def Whence.IsTell (whence : Whence) (offset : Int) : Prop := whence = .cur ∧ offset = 0

instance (whence : Whence) (offset : Int) : Decidable (whence.IsTell offset) :=
  inferInstanceAs (Decidable (_ ∧ _))

/-- The kernel's `fixed_size_llseek`, returning its result and the file position
it leaves: it moves to the targets between zero and the size, and to no other. -/
structure FixedSizeLlseek where
  run : (fPos offset : Int) → Whence → (size : Int) → Int × Int
  accept : ∀ fPos offset whence size, 0 ≤ whence.target fPos offset size →
    whence.target fPos offset size ≤ size →
    run fPos offset whence size =
      (whence.target fPos offset size, whence.target fPos offset size)
  tell : ∀ fPos offset whence size, whence.IsTell offset →
    run fPos offset whence size = (fPos, fPos)
  reject : ∀ fPos offset whence size, ¬ whence.IsTell offset →
    ¬ (0 ≤ whence.target fPos offset size ∧ whence.target fPos offset size ≤ size) →
    run fPos offset whence size = (-eInval, fPos)

/-- The behaviour the laws describe. -/
def FixedSizeLlseek.reference : FixedSizeLlseek where
  run fPos offset whence size :=
    let target := whence.target fPos offset size
    if (0 ≤ target ∧ target ≤ size) ∨ whence.IsTell offset then (target, target)
    else (-eInval, fPos)
  accept _ _ _ _ hlower hupper := if_pos (Or.inl ⟨hlower, hupper⟩)
  tell fPos offset whence size htell := by
    have htarget : whence.target fPos offset size = fPos := by
      obtain ⟨rfl, rfl⟩ := htell
      exact Int.add_zero fPos
    simp only [htarget]
    exact if_pos (Or.inr htell)
  reject _ _ _ _ htell hnot := if_neg (not_or.mpr ⟨hnot, htell⟩)

/-- `aesd_llseek`. -/
def aesdLlseek (seek : FixedSizeLlseek) (k : Kernel) (locked : Bool) (offset : Int)
    (whence : Whence) (fPos : Int) : Reply :=
  if locked = false then { retval := -eRestartSys, fPos := fPos }
  else
    let (retval, fPos) := seek.run fPos offset whence (s64 k.dev.buffer.size)
    { retval := retval, fPos := fPos }

/-- `struct aesd_seekto`. -/
structure AesdSeekto where
  writeCmd : UInt32
  writeCmdOffset : UInt32
  deriving DecidableEq

/-- `aesd_iocseekto`. The ring lookup takes the command index as a `uint8_t`. -/
def aesdIocseekto (seek : FixedSizeLlseek) (k : Kernel) (locked : Bool)
    (writeCmd writeCmdOffset : UInt32) (fPos : Int) : Exec Reply :=
  if locked = false then .ok { retval := -eRestartSys, fPos := fPos }
  else do
    let target ← k.dev.buffer.findFposForEntryOffset (u8 writeCmd.toNat) writeCmdOffset.toNat
    if 0 ≤ target then
      let (retval, fPos) := seek.run fPos target .set (s64 k.dev.buffer.size)
      .ok { retval := retval, fPos := fPos }
    else .ok { retval := -eInval, fPos := fPos }

/-- `AESDCHAR_IOCSEEKTO`, that is `_IOWR(AESD_IOC_MAGIC, 1, struct aesd_seekto)`. -/
def aesdcharIocseekto : Nat := 0xC0081601

/-- `aesd_ioctl`; the argument is missing when `get_user` fails. -/
def aesdIoctl (seek : FixedSizeLlseek) (k : Kernel) (locked : Bool) (cmd : Nat)
    (arg : Option AesdSeekto) (fPos : Int) : Exec Reply :=
  if cmd = aesdcharIocseekto then
    match arg with
    | some seekto => aesdIocseekto seek k locked seekto.writeCmd seekto.writeCmdOffset fPos
    | none => .ok { retval := -eFault, fPos := fPos }
  else .ok { retval := -eNoTty, fPos := fPos }

/-! ## Unloading -/

/-- `aesd_cleanup_module`: the unterminated buffer is released, then the buffer
of every slot that has one. -/
def aesdCleanupModule (k : Kernel) : Exec Heap := do
  let heap ← k.heap.freeNonNull k.dev.unterminatedBuffptr
  k.dev.buffer.entry.toList.foldlM (fun heap entry => heap.freeNonNull entry.buffptr) heap

end Aesd
