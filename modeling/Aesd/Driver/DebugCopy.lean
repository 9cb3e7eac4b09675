import Aesd.Driver.Runs
import Aesd.Foundation.CString

/-!
# The debug copy

Reads and writes copy the bytes they pass on to `msg_buffer`, to print them. The
copy stays inside the buffer and leaves a string there when the bytes are fewer
than the buffer holds, or exactly as many with a NUL among them.
-/

namespace Aesd

open CSem Transition

/-- `MSG_MAX_LEN`. -/
abbrev msgMaxLen : Nat := 100

/-- What `strncpy` makes of the zeroed `msg_buffer`. -/
def debugCopy (bytes : List UInt8) : Exec (List UInt8) := do
  let copied ← strncpy (bytes.map some) bytes.length
  storeLocal (List.replicate msgMaxLen 0) 0 copied

/-- The debug copy of a call stays inside `msg_buffer` and leaves a string. -/
def Reply.PrintsString (reply : Reply) : Prop :=
  ∀ bytes, reply.msgCopy = some bytes →
    ∃ message, debugCopy bytes = .ok message ∧ 0 ∈ message

/-- What a call does with its reply when the debug copy is not left aside: the bytes
are copied to `msg_buffer`, and that is printed as a string. -/
def Reply.printed (reply : Reply) : Exec Reply :=
  match reply.msgCopy with
  | none => .ok reply
  | some bytes => do
      let message ← debugCopy bytes
      let _ ← strlen (message.map some)
      .ok reply

/-- `aesd_read` with its debug copy. -/
def aesdReadPrinted (k : Kernel) (outcome : ReadOutcome) (count : Nat) (fPos : Int) :
    Exec Reply := do
  let reply ← aesdRead k outcome count fPos
  reply.printed

/-- `aesd_write` with its debug copy. -/
def aesdWritePrinted (k : Kernel) (outcome : WriteOutcome) (buf : List UInt8) (fPos : Int) :
    Exec (Kernel × Reply) := do
  let (k, reply) ← aesdWrite k outcome buf fPos
  let reply ← reply.printed
  .ok (k, reply)

/-- Bytes that can be printed. -/
def Printable (bytes : List UInt8) : Prop :=
  bytes.length < msgMaxLen ∨ bytes.length = msgMaxLen ∧ 0 ∈ bytes

instance (bytes : List UInt8) : Decidable (Printable bytes) :=
  inferInstanceAs (Decidable (_ ∨ _))

theorem debugCopy_iff (bytes : List UInt8) :
    (∃ message, debugCopy bytes = .ok message ∧ 0 ∈ message) ↔ Printable bytes := by
  obtain ⟨copied, hcopied, hlength⟩ := strncpy_of_le (Nat.le_refl bytes.length)
  have hzero := zero_mem_strncpy_iff hcopied
  have hroom : (List.replicate msgMaxLen (0 : UInt8)).length = msgMaxLen := List.length_replicate
  simp only [debugCopy, hcopied, Exec.ok_bind, storeLocal_eq_ok_iff, hroom, Nat.zero_add, hlength,
    List.take_zero, List.nil_append, List.drop_replicate]
  constructor
  · rintro ⟨message, ⟨hle, rfl⟩, hmem⟩
    rcases Nat.lt_or_ge bytes.length msgMaxLen with hlt | hge
    · exact Or.inl hlt
    · -- a full buffer has no room for another NUL
      have hfull : bytes.length = msgMaxLen := Nat.le_antisymm hle hge
      rw [hfull, Nat.sub_self, List.replicate_zero, List.append_nil, hzero] at hmem
      exact Or.inr ⟨hfull, hmem⟩
  · rintro (hlt | ⟨hfull, hmem⟩)
    · refine ⟨_, ⟨Nat.le_of_lt hlt, rfl⟩, List.mem_append_right _ ?_⟩
      exact List.mem_replicate.mpr ⟨by omega, rfl⟩
    · exact ⟨_, ⟨Nat.le_of_eq hfull, rfl⟩, List.mem_append_left _ (hzero.mpr hmem)⟩

theorem Reply.printsString_of_none {reply : Reply} (hnone : reply.msgCopy = none) :
    reply.PrintsString := by
  intro bytes heq
  rw [hnone] at heq
  cases heq

theorem Reply.printsString_iff {reply : Reply} {bytes : List UInt8}
    (hsome : reply.msgCopy = some bytes) : reply.PrintsString ↔ Printable bytes := by
  rw [← debugCopy_iff]
  constructor
  · exact fun h => h bytes hsome
  · intro h bytes' heq
    obtain rfl := Option.some.inj (hsome.symm.trans heq)
    exact h

/-- A call whose debug copy is a string goes on, with the same reply. -/
theorem Reply.printed_eq_ok_iff {reply reply' : Reply} :
    reply.printed = .ok reply' ↔ reply' = reply ∧ reply.PrintsString := by
  unfold Reply.printed Reply.PrintsString
  cases reply.msgCopy with
  | none =>
      constructor
      · intro hprinted
        cases hprinted
        exact ⟨rfl, nofun⟩
      · rintro ⟨rfl, _⟩
        rfl
  | some bytes =>
      constructor
      · intro hprinted
        obtain ⟨message, hcopy, hprinted⟩ := Exec.bind_eq_ok.mp hprinted
        obtain ⟨length, hlength, heq⟩ := Exec.bind_eq_ok.mp hprinted
        cases heq
        refine ⟨rfl, fun bytes' heq => ?_⟩
        cases heq
        exact ⟨message, hcopy, exists_strlen_iff.mp ⟨length, hlength⟩⟩
      · rintro ⟨rfl, hprints⟩
        obtain ⟨message, hcopy, hmem⟩ := hprints bytes rfl
        obtain ⟨length, hlength⟩ := exists_strlen_iff.mpr hmem
        simp only [hcopy, hlength, Exec.ok_bind]

theorem aesdReadPrinted_eq_ok_iff {k : Kernel} {outcome : ReadOutcome} {count : Nat} {fPos : Int}
    {reply : Reply} :
    aesdReadPrinted k outcome count fPos = .ok reply ↔
      aesdRead k outcome count fPos = .ok reply ∧ reply.PrintsString := by
  unfold aesdReadPrinted
  rw [Exec.bind_eq_ok]
  constructor
  · rintro ⟨_, hread, hprinted⟩
    obtain ⟨rfl, hprints⟩ := Reply.printed_eq_ok_iff.mp hprinted
    exact ⟨hread, hprints⟩
  · rintro ⟨hread, hprints⟩
    exact ⟨reply, hread, Reply.printed_eq_ok_iff.mpr ⟨rfl, hprints⟩⟩

theorem aesdWritePrinted_eq_ok_iff {k k' : Kernel} {outcome : WriteOutcome} {buf : List UInt8}
    {fPos : Int} {reply : Reply} :
    aesdWritePrinted k outcome buf fPos = .ok (k', reply) ↔
      aesdWrite k outcome buf fPos = .ok (k', reply) ∧ reply.PrintsString := by
  unfold aesdWritePrinted
  rw [Exec.bind_eq_ok]
  constructor
  · rintro ⟨⟨written, answer⟩, hwrite, hrest⟩
    obtain ⟨_, hprinted, heq⟩ := Exec.bind_eq_ok.mp hrest
    cases heq
    obtain ⟨rfl, hprints⟩ := Reply.printed_eq_ok_iff.mp hprinted
    exact ⟨hwrite, hprints⟩
  · rintro ⟨hwrite, hprints⟩
    have hprinted := Reply.printed_eq_ok_iff.mpr ⟨rfl, hprints⟩
    exact ⟨(k', reply), hwrite, by simp only [hprinted, Exec.ok_bind]⟩

/-- What a read of this count finds at a position can be printed: nothing, or bytes
in memory that are few enough. -/
def Kernel.PrintableAt (k : Kernel) (count fPos : Nat) : Prop :=
  ∀ index offset, Segments.locate (entrySizes k.pieces) fPos = some (index, offset) →
    let piece := k.pieces.getD index .null
    let size := min count (piece.size - offset)
    size = 0 ∨ piece.buffptr ≠ none ∧ (size < msgMaxLen ∨
      size = msgMaxLen ∧ ∃ bytes, k.heap.load piece.buffptr offset size = .ok bytes ∧ 0 ∈ bytes)

/-- A write gets as far as the debug copy. -/
def WriteOutcome.Copies (outcome : WriteOutcome) (buf : List UInt8) : Prop :=
  outcome.locked = true ∧ outcome.krealloc ≠ .null ∧ buf.length ≤ outcome.copied

theorem Kernel.Stores.size_piece_lt {k : Kernel} {es : List BufferEntry} (h : k.Stores es)
    (hsum : (entrySizes es).sum < 2 ^ 63) {index : Nat} (hindex : index < k.pieces.length) :
    k.pieces[index].size < 2 ^ 63 := by
  have hmem : k.pieces[index] ∈ k.pieces := List.getElem_mem hindex
  generalize k.pieces[index] = piece at hmem
  rw [Kernel.pieces, h.entries_eq, List.mem_append, List.mem_singleton] at hmem
  rcases hmem with hstored | hlast
  · exact Nat.lt_of_le_of_lt (List.le_sum_of_mem (List.mem_map_of_mem hstored)) hsum
  · rw [hlast]
    exact h.unterminated_lt

/-- A piece with a pointer lies in a block. -/
theorem Kernel.Stores.size_piece_le {k : Kernel} {es : List BufferEntry} (h : k.Stores es)
    {index : Nat} (hindex : index < k.pieces.length) {p : Ptr}
    (hptr : k.pieces[index].buffptr = some p) : k.pieces[index].size ≤ k.heap.blockSize p := by
  have hmem : k.pieces[index] ∈ k.pieces := List.getElem_mem hindex
  generalize k.pieces[index] = piece at hmem hptr
  rw [Kernel.pieces, h.entries_eq, List.mem_append, List.mem_singleton] at hmem
  rcases hmem with hstored | rfl
  · obtain ⟨q, hq, _, hle⟩ := h.block piece hstored
    obtain rfl := Option.some.inj (hptr.symm.trans hq)
    exact hle
  · exact (h.unterminated p hptr).2

/-- Filling in what was never stored keeps the memory discipline. -/
theorem Kernel.Stores.filled {k : Kernel} {es : List BufferEntry} (h : k.Stores es)
    (garbage : Ptr → Nat → UInt8) : (k.filled garbage).Stores es where
  ring := h.ring
  block e hmem := by
    obtain ⟨p, hptr, hpos, hle⟩ := h.block e hmem
    exact ⟨p, hptr, hpos, (Heap.blockSize_filled garbage k.heap p).symm ▸ hle⟩
  nodup := h.nodup
  unterminated p hptr := by
    obtain ⟨hpos, hle⟩ := h.unterminated p hptr
    exact ⟨hpos, (Heap.blockSize_filled garbage k.heap p).symm ▸ hle⟩
  unterminated_lt := h.unterminated_lt

/-- A read takes bytes from the piece at its position, as far as it is asked for, and
hands them to the debug copy. -/
theorem Kernel.Stores.aesdRead_cases {k : Kernel} {es : List BufferEntry} (h : k.Stores es)
    (hsum : (entrySizes es).sum < 2 ^ 63) {outcome : ReadOutcome} (hlocked : outcome.locked = true)
    (count : Nat) {fPos : Nat} (hlt : fPos < 2 ^ 63) :
    (Segments.locate (entrySizes k.pieces) fPos = none ∧
      aesdRead k outcome count fPos = .ok { retval := 0, fPos := fPos }) ∨
    ∃ index offset serve, Segments.locate (entrySizes k.pieces) fPos = some (index, offset) ∧
      aesdRead k outcome count fPos = k.heap.load (k.pieces.getD index .null).buffptr offset
        (min count ((k.pieces.getD index .null).size - offset)) >>= serve ∧
      ∀ bytes, ∃ reply, serve bytes = .ok reply ∧ reply.msgCopy = some bytes := by
  unfold aesdRead
  rw [if_neg (by simp [hlocked]), h.readSource_eq hsum hlt, Exec.ok_bind]
  cases hfound : Segments.locate (entrySizes k.pieces) fPos with
  | none => exact Or.inl ⟨rfl, rfl⟩
  | some found =>
      obtain ⟨index, offset⟩ := found
      obtain ⟨hindex, hoffset, _⟩ := Segments.locate_eq_some_iff.mp hfound
      have hpiece : index < k.pieces.length := by rwa [length_entrySizes] at hindex
      rw [getElem_entrySizes hpiece] at hoffset
      have hsize := h.size_piece_lt hsum hpiece
      have hcount := finalCount_eq_min count (Nat.le_of_lt hoffset) (by omega)
      unfold finalCount at hcount
      rw [← getElem_getD hpiece BufferEntry.null] at hcount
      simp only [Option.map_some, hcount]
      refine Or.inr ⟨index, offset, _, rfl, rfl, fun bytes => ?_⟩
      split
      · exact ⟨_, rfl, rfl⟩
      · exact ⟨_, rfl, rfl⟩

/-- A reply made of loaded bytes, and with these to be printed. -/
theorem exists_reply_iff {load : Exec (List UInt8)} {serve : List UInt8 → Exec Reply}
    (hserve : ∀ bytes, ∃ reply, serve bytes = .ok reply ∧ reply.msgCopy = some bytes) :
    (∃ reply, (load >>= serve) = .ok reply ∧ reply.PrintsString) ↔
      ∃ bytes, load = .ok bytes ∧ Printable bytes := by
  constructor
  · rintro ⟨reply, hreply, hprints⟩
    obtain ⟨bytes, hload, hserved⟩ := Exec.bind_eq_ok.mp hreply
    obtain ⟨_, hreply, hcopy⟩ := hserve bytes
    cases hreply.symm.trans hserved
    exact ⟨bytes, hload, (Reply.printsString_iff hcopy).mp hprints⟩
  · rintro ⟨bytes, hload, hprintable⟩
    obtain ⟨reply, hreply, hcopy⟩ := hserve bytes
    exact ⟨reply, Exec.bind_eq_ok.mpr ⟨bytes, hload, hreply⟩,
      (Reply.printsString_iff hcopy).mpr hprintable⟩

/-- A range can be loaded and printed exactly when it is empty, or it has a pointer
and few enough bytes. -/
theorem printable_iff {heap : Heap} {buffptr : Option Ptr} {offset size : Nat}
    (hloads : buffptr ≠ none → ∃ bytes, heap.load buffptr offset size = .ok bytes) :
    (∃ bytes, heap.load buffptr offset size = .ok bytes ∧ Printable bytes) ↔
      size = 0 ∨ buffptr ≠ none ∧ (size < msgMaxLen ∨
        size = msgMaxLen ∧ ∃ bytes, heap.load buffptr offset size = .ok bytes ∧ 0 ∈ bytes) := by
  constructor
  · rintro ⟨bytes, hload, hprintable⟩
    by_cases hzero : size = 0
    · exact Or.inl hzero
    · refine Or.inr ⟨?_, ?_⟩
      · rintro rfl
        rw [Heap.load, if_neg hzero] at hload
        cases hload
      · rw [← Heap.length_of_load hload]
        exact hprintable.imp_right fun ⟨hfull, hmem⟩ =>
          ⟨hfull, bytes, by rwa [Heap.length_of_load hload], hmem⟩
  · rintro (rfl | ⟨hptr, hsmall⟩)
    · exact ⟨[], rfl, Or.inl (by decide)⟩
    · rcases hsmall with hlt | ⟨hfull, bytes, hload, hmem⟩
      · obtain ⟨bytes, hload⟩ := hloads hptr
        exact ⟨bytes, hload, Or.inl (Heap.length_of_load hload ▸ hlt)⟩
      · exact ⟨bytes, hload, Or.inr ⟨(Heap.length_of_load hload).trans hfull, hmem⟩⟩

/-- A read whose range can be loaded when it has a pointer is printed exactly when
what it finds can be. Without the pointer it does not come back. -/
theorem Kernel.Stores.aesdRead_prints_iff {k : Kernel} {es : List BufferEntry} (h : k.Stores es)
    (hsum : (entrySizes es).sum < 2 ^ 63) {outcome : ReadOutcome} (hlocked : outcome.locked = true)
    {count fPos : Nat} (hlt : fPos < 2 ^ 63)
    (hloads : ∀ index offset, Segments.locate (entrySizes k.pieces) fPos = some (index, offset) →
      (k.pieces.getD index .null).buffptr ≠ none →
      ∃ bytes, k.heap.load (k.pieces.getD index .null).buffptr offset
        (min count ((k.pieces.getD index .null).size - offset)) = .ok bytes) :
    (∃ reply, aesdRead k outcome count fPos = .ok reply ∧ reply.PrintsString) ↔
      k.PrintableAt count fPos := by
  unfold Kernel.PrintableAt
  rcases h.aesdRead_cases hsum hlocked count hlt with
    ⟨hnone, hread⟩ | ⟨index, offset, serve, hsome, hread, hserve⟩
  · rw [hnone, hread]
    refine iff_of_true ⟨_, rfl, Reply.printsString_of_none rfl⟩ fun _ _ heq => ?_
    cases heq
  · rw [hread, exists_reply_iff hserve, printable_iff (hloads index offset hsome), hsome]
    constructor
    · rintro hprintable _ _ heq
      cases heq
      exact hprintable
    · exact fun hprintable => hprintable index offset rfl

/-- A read of memory as it is. -/
theorem Kernel.Stores.aesdRead_filled_prints_iff {k : Kernel} {es : List BufferEntry}
    (h : k.Stores es) (hsum : (entrySizes es).sum < 2 ^ 63) {outcome : ReadOutcome}
    (hlocked : outcome.locked = true) {count fPos : Nat} (hlt : fPos < 2 ^ 63)
    (garbage : Ptr → Nat → UInt8) :
    (∃ reply, aesdRead (k.filled garbage) outcome count fPos = .ok reply ∧ reply.PrintsString) ↔
      (k.filled garbage).PrintableAt count fPos := by
  refine (h.filled garbage).aesdRead_prints_iff hsum hlocked hlt fun index offset hfound hptr => ?_
  have hfound : Segments.locate (entrySizes k.pieces) fPos = some (index, offset) := hfound
  obtain ⟨hindex, hoffset, _⟩ := Segments.locate_eq_some_iff.mp hfound
  have hpiece : index < k.pieces.length := by rwa [length_entrySizes] at hindex
  rw [getElem_entrySizes hpiece] at hoffset
  have hpieces : (k.filled garbage).pieces.getD index .null = k.pieces[index] :=
    getElem_getD hpiece BufferEntry.null
  rw [hpieces] at hptr ⊢
  obtain ⟨p, hsome⟩ := Option.ne_none_iff_exists'.mp hptr
  have hle := h.size_piece_le hpiece hsome
  rw [hsome]
  exact Heap.load_filled garbage (by omega)

/-- A read that comes back is printed exactly when what it finds can be. -/
theorem Kernel.Stores.printsString_iff {k : Kernel} {es : List BufferEntry} (h : k.Stores es)
    (hsum : (entrySizes es).sum < 2 ^ 63) {outcome : ReadOutcome} (hlocked : outcome.locked = true)
    {count fPos : Nat} (hlt : fPos < 2 ^ 63) {reply : Reply}
    (hread : aesdRead k outcome count fPos = .ok reply) :
    reply.PrintsString ↔ k.PrintableAt count fPos := by
  rw [← h.aesdRead_prints_iff hsum hlocked hlt]
  · constructor
    · exact fun hprints => ⟨reply, hread, hprints⟩
    · rintro ⟨_, hread', hprints⟩
      cases hread.symm.trans hread'
      exact hprints
  · intro index offset hfound _
    rcases h.aesdRead_cases hsum hlocked count hlt with
      ⟨hnone, _⟩ | ⟨_, _, _, hsome, hcases, _⟩
    · cases hnone.symm.trans hfound
    · cases hsome.symm.trans hfound
      obtain ⟨bytes, hload, _⟩ := Exec.bind_eq_ok.mp (hcases.symm.trans hread)
      exact ⟨bytes, hload⟩

/-- A read that finds only stored bytes is the same over memory as it is. -/
theorem aesdRead_filled {k : Kernel} {outcome : ReadOutcome} {count : Nat} {fPos : Int}
    {reply : Reply} (hread : aesdRead k outcome count fPos = .ok reply)
    (garbage : Ptr → Nat → UInt8) :
    aesdRead (k.filled garbage) outcome count fPos = .ok reply := by
  unfold aesdRead at hread ⊢
  by_cases hlocked : outcome.locked = false
  · rwa [if_pos hlocked] at hread ⊢
  · rw [if_neg hlocked] at hread ⊢
    obtain ⟨source, hsource, hread⟩ := Exec.bind_eq_ok.mp hread
    have hsource : readSource (k.filled garbage) fPos = .ok source := hsource
    rw [hsource, Exec.ok_bind]
    cases source with
    | none => exact hread
    | some source =>
        obtain ⟨bytes, hload, hread⟩ := Exec.bind_eq_ok.mp hread
        exact Exec.bind_eq_ok.mpr ⟨bytes, Heap.load_filled_of_ok garbage hload, hread⟩

/-- A write hands the user's bytes to the debug copy. -/
theorem WriteEffect.printsString_iff {k k' : Kernel} {es : List BufferEntry}
    {outcome : WriteOutcome} {buf : List UInt8} {fPos : Int} {reply : Reply}
    (heffect : WriteEffect k es outcome buf fPos k' reply) :
    reply.PrintsString ↔ (outcome.Copies buf → Printable buf) := by
  cases heffect with
  | interrupted hlocked =>
      refine iff_of_true (Reply.printsString_of_none rfl) fun hcopies => ?_
      have htaken := hcopies.1
      rw [hlocked] at htaken
      cases htaken
  | empty _ hbuf =>
      refine iff_of_true (Reply.printsString_of_none rfl) fun _ => ?_
      rw [hbuf]
      exact Or.inl (by decide)
  | noMemory _ _ hanswer =>
      exact iff_of_true (Reply.printsString_of_none rfl) fun hcopies =>
        absurd hanswer hcopies.2.1
  | faultPending _ _ _ hcopied =>
      exact iff_of_true (Reply.printsString_of_none rfl) fun hcopies =>
        absurd hcopies.2.2 (Nat.not_le.mpr hcopied)
  | faultEmpty _ _ _ hcopied =>
      exact iff_of_true (Reply.printsString_of_none rfl) fun hcopies =>
        absurd hcopies.2.2 (Nat.not_le.mpr hcopied)
  | extended hlocked _ hanswer hcopied =>
      rw [Reply.printsString_iff rfl]
      exact ⟨fun hprintable _ => hprintable, fun h => h ⟨hlocked, hanswer, hcopied⟩⟩
  | committed hlocked _ hanswer hcopied =>
      rw [Reply.printsString_iff rfl]
      exact ⟨fun hprintable _ => hprintable, fun h => h ⟨hlocked, hanswer, hcopied⟩⟩

namespace Driver

/-- In every reachable state the debug copy of a call is a string inside
`msg_buffer` exactly when the bytes can be printed: those that a read finds at its
position, whatever is in memory that was never stored, and those of a write that
gets as far as the copy. -/
theorem debug_copy_iff (seek : FixedSizeLlseek) {d : Driver} (hreach : Reachable seek d) :
    (∀ (garbage : Ptr → Nat → UInt8) (outcome : ReadOutcome) (count fPos : Nat),
      fPos < 2 ^ 63 →
      (∀ reply, aesdRead d.kernel outcome count fPos = .ok reply →
        aesdRead (d.kernel.filled garbage) outcome count fPos = .ok reply) ∧
      ((∃ reply, aesdRead (d.kernel.filled garbage) outcome count fPos = .ok reply ∧
          reply.PrintsString) ↔
        (outcome.locked = true → (d.kernel.filled garbage).PrintableAt count fPos))) ∧
    ∀ (outcome : WriteOutcome) (buf : List UInt8) (fPos : Int), buf.length < 2 ^ 63 →
      ∃ k' reply, aesdWrite d.kernel outcome buf fPos = .ok (k', reply) ∧
        (reply.PrintsString ↔ (outcome.Copies buf → Printable buf)) := by
  obtain ⟨events, hrun⟩ := hreach
  obtain ⟨es, h⟩ := stores_of_run hrun
  have hsum := Nat.lt_of_le_of_lt h.entrySizes_le_total (total_of_run hrun)
  constructor
  · intro garbage outcome count fPos hlt
    refine ⟨fun _ hread => aesdRead_filled hread garbage, ?_⟩
    cases hlocked : outcome.locked with
    | false =>
        unfold aesdRead
        rw [if_pos hlocked]
        refine iff_of_true ⟨_, rfl, Reply.printsString_of_none rfl⟩ fun heq => ?_
        cases heq
    | true =>
        rw [h.aesdRead_filled_prints_iff hsum hlocked hlt garbage]
        exact ⟨fun hprintable _ => hprintable, fun h => h rfl⟩
  · intro outcome buf fPos hlength
    obtain ⟨k', reply, hreturns, heffect⟩ := h.aesdWrite_effect outcome hlength fPos
    exact ⟨k', reply, hreturns, heffect.printsString_iff⟩

/-- A line whose first byte was never stored: it was lost when `krealloc` failed. -/
def lostByte : Driver :=
  ⟨⟨⟨[some [some 97], some [none, some 10]]⟩,
    ⟨none, 0, (CircularBuffer.init.addEntry ⟨some 1, 2⟩).1⟩⟩,
    Function.update (Function.update (Function.update init.fPos 0 1) 0 1) 0 2⟩

theorem lostByte_reachable (seek : FixedSizeLlseek) : Reachable seek lostByte := by
  let pending : Driver :=
    ⟨⟨⟨[some [some 97]]⟩, ⟨some 0, 1, CircularBuffer.init⟩⟩, Function.update init.fPos 0 1⟩
  let lost : Driver :=
    ⟨⟨⟨[some [some 97]]⟩, ⟨none, 1, CircularBuffer.init⟩⟩, Function.update pending.fPos 0 1⟩
  have hwrite : (Request.write ⟨true, .inPlace, 1⟩ [97]).serve seek init.kernel 0 =
      .ok (pending.kernel, ⟨1, 1, [], some [97]⟩) := by
    change aesdWrite init.kernel ⟨true, .inPlace, 1⟩ [97] 0 = _
    decide +kernel
  have hfail : (Request.write ⟨true, .null, 1⟩ [98]).serve seek pending.kernel 1 =
      .ok (lost.kernel, ⟨-12, 1, [], none⟩) := by
    change aesdWrite pending.kernel ⟨true, .null, 1⟩ [98] 1 = _
    decide +kernel
  have hnewline : (Request.write ⟨true, .inPlace, 1⟩ [10]).serve seek lost.kernel 1 =
      .ok (lostByte.kernel, ⟨1, 2, [], some [10]⟩) := by
    change aesdWrite lost.kernel ⟨true, .inPlace, 1⟩ [10] 1 = _
    decide +kernel
  have hfirst := Step.of_serve init 0 (by decide) hwrite (by decide)
  have hsecond := Step.of_serve pending 0 (by decide) hfail (by decide)
  have hthird := Step.of_serve lost 0 (by decide) hnewline (by decide)
  exact ⟨_, .snoc (.snoc (.single hfirst) hsecond) hthird⟩

/-- A write of "a\n" is printed, and so is a read of the line with a lost byte. -/
theorem debug_copy_iff_lostByte :
    (∃ reply, aesdRead (lostByte.kernel.filled fun _ _ => 65) ⟨true, 2⟩ 2 (0 : Nat) = .ok reply ∧
      reply.PrintsString) ∧
    ∃ k' reply, aesdWrite lostByte.kernel ⟨true, .moved, 2⟩ [97, 10] 2 = .ok (k', reply) ∧
      reply.PrintsString := by
  obtain ⟨hreads, hwrites⟩ := debug_copy_iff .reference (lostByte_reachable .reference)
  constructor
  · refine (hreads (fun _ _ => 65) ⟨true, 2⟩ 2 0 (by decide)).2.mpr
      fun _ index offset hfound => ?_
    have hplace : Segments.locate (entrySizes (lostByte.kernel.filled fun _ _ => 65).pieces) 0 =
      some (0, 0) := by decide +kernel
    obtain ⟨rfl, rfl⟩ := Prod.mk.inj (Option.some.inj (hplace.symm.trans hfound))
    exact Or.inr ⟨by decide +kernel, Or.inl (by decide +kernel)⟩
  · obtain ⟨k', reply, hreturns, hiff⟩ := hwrites ⟨true, .moved, 2⟩ [97, 10] 2 (by decide)
    exact ⟨k', reply, hreturns, hiff.mpr fun _ => Or.inl (by decide)⟩

/-- The first write after initialisation, of 101 bytes. -/
theorem debug_copy_overruns : Reachable .reference init ∧ ∃ k' reply,
    aesdWrite init.kernel ⟨true, .moved, 101⟩ (List.replicate 101 97) 0 = .ok (k', reply) ∧
      reply.msgCopy = some (List.replicate 101 97) ∧
      debugCopy (List.replicate 101 97) = .error .outOfBounds := by
  refine ⟨⟨[], .nil _⟩, ⟨⟨[some (List.replicate 101 (some 97))]⟩, ⟨some 0, 101, .init⟩⟩,
    ⟨101, 101, [], some (List.replicate 101 97)⟩, ?_⟩
  decide +kernel

end Driver

end Aesd
