import Aesd.Driver.WriteEffect
import Mathlib.Data.List.Forall2

/-!
# The device holds a log

`Kernel.Holds` adds the bytes to the memory discipline: the entries hold the
committed lines of a log and the unterminated buffer its pending bytes. A write
moves the device from one log to the next. The one exception is a `krealloc`
that fails while bytes are pending, since it loses the pointer to them.
-/

namespace Aesd

open CSem

/-- The block of an entry starts with these bytes. -/
def EntryHolds (heap : Heap) (e : BufferEntry) (line : List UInt8) : Prop :=
  ∃ p, e.buffptr = some p ∧ e.size = line.length ∧ heap.Holds p 0 line

namespace Kernel

/-- The stored entries and the unterminated buffer hold a log. -/
structure Holds (k : Kernel) (es : List BufferEntry) (log : Log) : Prop extends k.Stores es where
  committed : List.Forall₂ (EntryHolds k.heap) es log.committed
  pending_size : k.dev.unterminatedSize = log.pending.length
  pending : log.pending ≠ [] →
    ∃ p, k.dev.unterminatedBuffptr = some p ∧ k.heap.Holds p 0 log.pending

/-- The bytes of the stored entries, in logical order. -/
def committedBytes (k : Kernel) : Exec (List (List UInt8)) :=
  k.dev.buffer.entries.mapM fun e => k.heap.load e.buffptr 0 e.size

/-- The unterminated bytes, read through the unterminated pointer. -/
def pendingBytes (k : Kernel) : Exec (List UInt8) :=
  k.heap.load k.dev.unterminatedBuffptr 0 k.dev.unterminatedSize

theorem init_holds : init.Holds [] Log.empty where
  toStores := init_stores
  committed := .nil
  pending_size := rfl
  pending := by simp [Log.empty, Log.ofStream, LineStream.rest, LineStream.split]

end Kernel

theorem EntryHolds.load {heap : Heap} {e : BufferEntry} {line : List UInt8}
    (h : EntryHolds heap e line) : heap.load e.buffptr 0 e.size = .ok line := by
  obtain ⟨p, hptr, hsize, hholds⟩ := h
  rw [hptr, hsize]
  exact hholds.load

theorem EntryHolds.of_load {heap : Heap} {e : BufferEntry} {line : List UInt8} (hpos : 0 < e.size)
    (hload : heap.load e.buffptr 0 e.size = .ok line) : EntryHolds heap e line := by
  unfold Heap.load at hload
  rw [if_neg (Nat.ne_of_gt hpos)] at hload
  cases hptr : e.buffptr with
  | none =>
      rw [hptr] at hload
      cases hload
  | some p =>
      rw [hptr] at hload
      cases hblock : heap.block? p with
      | none => simp [hblock] at hload
      | some cells =>
          simp only [hblock, List.drop_zero, Nat.zero_add] at hload
          split at hload
          next hle =>
            have hcells := readCells_eq_ok hload
            have hlength := congrArg List.length hcells
            rw [List.length_take, List.length_map] at hlength
            have hsize : e.size = line.length := by omega
            exact ⟨p, hptr, hsize, cells, hblock, by omega, by rw [List.drop_zero, ← hsize, hcells]⟩
          next => cases hload

theorem EntryHolds.congr {heap heap' : Heap} {e : BufferEntry} {line : List UInt8}
    (h : EntryHolds heap e line)
    (hblock : ∀ q, e.buffptr = some q → heap'.block? q = heap.block? q) :
    EntryHolds heap' e line := by
  obtain ⟨p, hptr, hsize, hholds⟩ := h
  exact ⟨p, hptr, hsize, hholds.congr (hblock p hptr)⟩

theorem forall₂_entryHolds_congr {heap heap' : Heap} {es : List BufferEntry}
    {ls : List (List UInt8)} (h : List.Forall₂ (EntryHolds heap) es ls)
    (hframe : ∀ q ∈ entryPtrs es, heap'.block? q = heap.block? q) :
    List.Forall₂ (EntryHolds heap') es ls := by
  refine List.Forall₂.imp ?_ ((List.forall₂_and_left _ _).mpr ⟨fun e he => he, h⟩)
  rintro e line ⟨hmem, hholds⟩
  exact hholds.congr fun q hq => hframe q (mem_entryPtrs.mpr ⟨e, hmem, hq⟩)

namespace Kernel

variable {k : Kernel} {es : List BufferEntry} {log : Log}

theorem Holds.committedBytes_eq (h : k.Holds es log) : k.committedBytes = .ok log.committed := by
  unfold committedBytes
  rw [h.ring.entries_eq]
  have hall := h.committed
  generalize log.committed = ls at hall
  clear h
  induction hall with
  | nil => rfl
  | cons hhead _ ih =>
      rw [List.mapM_cons, hhead.load, ih]
      rfl

theorem Holds.pendingBytes_eq (h : k.Holds es log) : k.pendingBytes = .ok log.pending := by
  unfold pendingBytes
  rw [h.pending_size]
  by_cases hnil : log.pending = []
  · rw [hnil]
    rfl
  · obtain ⟨p, hptr, hholds⟩ := h.pending hnil
    rw [hptr]
    exact hholds.load

/-- What can be read back of the entries is what their blocks hold. -/
theorem Stores.entryHolds_of_committedBytes (h : k.Stores es) {lines : List (List UInt8)}
    (hcommitted : k.committedBytes = .ok lines) :
    List.Forall₂ (EntryHolds k.heap) es lines := by
  unfold committedBytes at hcommitted
  rw [h.ring.entries_eq] at hcommitted
  have hblock := h.block
  clear h
  induction es generalizing lines with
  | nil =>
      cases hcommitted
      exact .nil
  | cons e es ih =>
      rw [List.mapM_cons] at hcommitted
      obtain ⟨line, hload, hcommitted⟩ := Exec.bind_eq_ok.mp hcommitted
      obtain ⟨others, hothers, heq⟩ := Exec.bind_eq_ok.mp hcommitted
      obtain rfl : line :: others = lines := Except.ok.inj heq
      obtain ⟨p, _, hpos, _⟩ := hblock e List.mem_cons_self
      exact .cons (.of_load hpos hload)
        (ih hothers fun e he => hblock e (List.mem_cons_of_mem _ he))

/-- Lines that can be read back, with nothing pending, are a log. -/
theorem Stores.holds_of_committedBytes (h : k.Stores es)
    (hcommitted : k.committedBytes = .ok log.committed) (hsize : k.dev.unterminatedSize = 0)
    (hpending : log.pending = []) : k.Holds es log where
  toStores := h
  committed := h.entryHolds_of_committedBytes hcommitted
  pending_size := by rw [hsize, hpending, List.length_nil]
  pending hne := absurd hpending hne

/-- The block of an entry may not shrink or move under it. -/
theorem Stores.block_congr (h : k.Stores es) {heap : Heap} {es' : List BufferEntry}
    (hsub : ∀ e ∈ es', e ∈ es)
    (hframe : ∀ q ∈ entryPtrs es', heap.block? q = k.heap.block? q) :
    ∀ e ∈ es', ∃ p, e.buffptr = some p ∧ 0 < e.size ∧ e.size ≤ heap.blockSize p := by
  intro e he
  obtain ⟨p, hptr, hpos, hle⟩ := h.block e (hsub e he)
  refine ⟨p, hptr, hpos, ?_⟩
  rw [Heap.blockSize, hframe p (mem_entryPtrs.mpr ⟨e, he, hptr⟩)]
  exact hle

theorem Stores.nodup_entryPtrs (h : k.Stores es) : (entryPtrs es).Nodup :=
  (List.nodup_append.mp h.nodup).1

end Kernel

theorem blockSize_le_total (heap : Heap) (p : Ptr) : heap.blockSize p ≤ heap.total := by
  simpa using heap.sum_blockSize_le_total (List.nodup_singleton p)

/-- Releasing the staged block again leaves those of the entries alone. -/
theorem Staged.frame_released {k : Kernel} {es : List BufferEntry} {buf : List UInt8}
    {heap released : Heap} {p : Ptr} (hstaged : Staged k es buf heap p) (h : k.Stores es)
    (hfree : heap.free p = .ok released) {q : Ptr} (hq : q ∈ entryPtrs es) :
    released.block? q = k.heap.block? q := by
  have hne : some p ≠ some q := fun heq => hstaged.fresh (Option.some.inj heq ▸ hq)
  have hreleased : Heap.freeNonNull heap (some p) = .ok released := hfree
  rw [Heap.block?_freeNonNull hreleased hne, hstaged.frame h hq]

namespace Kernel.Stores

variable {k : Kernel} {es : List BufferEntry}

/-- The entries without an unterminated buffer. -/
theorem without_unterminated (h : k.Stores es) {heap : Heap}
    (hframe : ∀ q ∈ entryPtrs es, heap.block? q = k.heap.block? q) :
    Stores ⟨heap, { k.dev with unterminatedBuffptr := none }⟩ es where
  ring := h.ring
  block := h.block_congr (fun _ he => he) hframe
  nodup := by simpa [Kernel.owned] using h.nodup_entryPtrs
  unterminated := by simp
  unterminated_lt := h.unterminated_lt

/-- The entries with the staged block as the unterminated buffer. -/
theorem with_staged (h : k.Stores es) {buf : List UInt8} {heap : Heap} {p : Ptr}
    (hstaged : Staged k es buf heap p) {size : Nat} (hpos : 0 < size)
    (hle : size ≤ heap.blockSize p) (hlt : size < 2 ^ 63) :
    Stores ⟨heap, ⟨some p, size, k.dev.buffer⟩⟩ es where
  ring := h.ring
  block := h.block_congr (fun _ he => he) fun q hq => hstaged.frame h hq
  nodup := by
    refine List.nodup_append.mpr ⟨h.nodup_entryPtrs, List.nodup_singleton p, ?_⟩
    rintro q hq _ hmem rfl
    exact hstaged.fresh (List.mem_singleton.mp hmem ▸ hq)
  unterminated := by
    rintro _ ⟨⟩
    exact ⟨hpos, hle⟩
  unterminated_lt := hlt

end Kernel.Stores

/-- The entries after a push are old ones or the new one, their blocks are
distinct, and the evicted block is not among them. -/
theorem push_entryPtrs {k : Kernel} {es : List BufferEntry} (h : k.Stores es) (entry : BufferEntry)
    {p : Ptr} (hptr : entry.buffptr = some p) (hfresh : p ∉ entryPtrs es) :
    (∀ e ∈ (BoundedQueue.push 10 es entry).1, e ∈ es ∨ e = entry) ∧
      (entryPtrs (BoundedQueue.push 10 es entry).1).Nodup ∧
      ∀ q ∈ entryPtrs (BoundedQueue.push 10 es entry).1,
        (BoundedQueue.push 10 es entry).2.bind BufferEntry.buffptr ≠ some q := by
  have hnodup : (entryPtrs (es ++ [entry])).Nodup := by
    rw [entryPtrs_append, hptr]
    refine List.nodup_append.mpr ⟨h.nodup_entryPtrs, by simp, ?_⟩
    rintro q hq _ hmem rfl
    simp only [Option.toList_some, List.mem_singleton] at hmem
    exact hfresh (hmem ▸ hq)
  unfold BoundedQueue.push
  split
  next => exact ⟨fun e he => by simpa using he, hnodup, by simp⟩
  next hfull =>
    cases es with
    | nil => simp at hfull
    | cons oldest others =>
        obtain ⟨q, hq, _⟩ := h.block oldest List.mem_cons_self
        rw [List.cons_append, entryPtrs_cons_some hq] at hnodup
        obtain ⟨hnot, htail⟩ := List.nodup_cons.mp hnodup
        refine ⟨?_, htail, ?_⟩
        · intro e he
          rcases List.mem_append.mp he with he | he
          · exact Or.inl (List.mem_cons_of_mem _ he)
          · exact Or.inr (List.mem_singleton.mp he)
        · intro r hr heq
          have hqr : some q = some r := hq.symm.trans heq
          exact hnot (Option.some.inj hqr ▸ hr)

theorem Kernel.Stores.entries_eq {k : Kernel} {es : List BufferEntry} (h : k.Stores es) :
    k.dev.buffer.entries = es := h.ring.entries_eq

/-- The bytes of a write lie right behind the pending ones. -/
theorem Staged.holds_append {k : Kernel} {es : List BufferEntry} {log : Log} {buf : List UInt8}
    {heap : Heap} {p : Ptr} (hstaged : Staged k es buf heap p) (h : k.Holds es log) :
    heap.Holds p 0 (log.pending ++ buf) := by
  have hdata := hstaged.data
  rw [h.pending_size] at hdata
  by_cases hnil : log.pending = []
  · simpa [hnil] using hdata
  · obtain ⟨q, hptr, hholds⟩ := h.pending hnil
    have hfront := hstaged.front q log.pending hptr (Nat.le_of_eq h.pending_size.symm) hholds
    exact hfront.append (by simpa using hdata)

/-- `krealloc` does not fail while bytes are pending. -/
def KreallocSafe (k : Kernel) (outcome : WriteOutcome) (buf : List UInt8) : Prop :=
  outcome.locked = true → buf ≠ [] → outcome.krealloc = .null → k.dev.unterminatedSize = 0

namespace WriteEffect

variable {k k' : Kernel} {es : List BufferEntry} {outcome : WriteOutcome} {buf : List UInt8}
  {fPos : Int} {reply : Reply}

/-- The unterminated bytes fit in the heap that is left. -/
theorem size_lt (heffect : WriteEffect k es outcome buf fPos k' reply) (h : k.Stores es)
    (htotal : k'.heap.total < 2 ^ 63) : k'.dev.unterminatedSize < 2 ^ 63 := by
  cases heffect with
  | extended _ _ _ _ _ heap p hstaged =>
      have hsize := hstaged.blockSize
      have hle := blockSize_le_total heap p
      dsimp only at htotal ⊢
      omega
  | committed => exact Nat.two_pow_pos 63
  | _ => exact h.unterminated_lt

/-- The entries after a write. -/
theorem stores (heffect : WriteEffect k es outcome buf fPos k' reply) (h : k.Stores es)
    (hlt : k'.dev.unterminatedSize < 2 ^ 63) : ∃ es', k'.Stores es' := by
  cases heffect with
  | interrupted => exact ⟨es, h⟩
  | empty => exact ⟨es, h⟩
  | noMemory => exact ⟨es, h.without_unterminated fun _ _ => rfl⟩
  | faultPending _ _ _ _ hpos heap p hstaged =>
      have hle : k.dev.unterminatedSize ≤ heap.blockSize p := by
        rw [hstaged.blockSize]
        exact Nat.le_add_right _ _
      exact ⟨es, h.with_staged hstaged hpos hle h.unterminated_lt⟩
  | faultEmpty _ _ _ _ hzero heap released p hstaged hfree =>
      exact ⟨es, h.without_unterminated fun q hq => hstaged.frame_released h hfree hq⟩
  | extended _ hbuf _ _ _ heap p hstaged =>
      have hpos := List.length_pos_of_ne_nil hbuf
      exact ⟨es, h.with_staged hstaged (Nat.add_pos_right _ hpos) hstaged.blockSize.ge hlt⟩
  | committed _ hbuf _ _ _ heap released p hstaged hfree =>
      obtain ⟨hmem, hnodup, hevicted⟩ :=
        push_entryPtrs h (commandEntry k p buf) rfl hstaged.fresh
      obtain ⟨hring, hold⟩ := h.ring.addEntry (commandEntry k p buf)
      rw [hold] at hfree
      have hused := Log.length_consumed_le buf
      refine ⟨_,
        { ring := hring
          block := ?_
          nodup := by simpa [Kernel.owned] using hnodup
          unterminated := by simp
          unterminated_lt := by simp }⟩
      intro e he
      rcases hmem e he with hin | rfl
      -- an old entry lies where it lay, since its block is not the evicted one
      · obtain ⟨q, hq, hpos, hle⟩ := h.block e hin
        refine ⟨q, hq, hpos, ?_⟩
        rw [Heap.blockSize, Heap.block?_freeNonNull hfree (hevicted q (mem_entryPtrs.mpr ⟨e, he, hq⟩)),
          hstaged.frame h (mem_entryPtrs.mpr ⟨e, hin, hq⟩)]
        exact hle
      · refine ⟨p, rfl, commandEntry_size_pos k p hbuf, ?_⟩
        rw [Heap.blockSize,
          Heap.block?_freeNonNull hfree (hevicted p (mem_entryPtrs.mpr ⟨_, he, rfl⟩)),
          ← Heap.blockSize, hstaged.blockSize]
        exact Nat.add_le_add_left hused _

/-- A write that succeeds moves the device to the next log; one that fails leaves
the log, unless `krealloc` fails while bytes are pending. -/
theorem holds {log : Log} (heffect : WriteEffect k es outcome buf fPos k' reply)
    (h : k.Holds es log) (hsafe : KreallocSafe k outcome buf) (hlt : k'.dev.unterminatedSize < 2 ^ 63) :
    ∃ es', k'.Holds es' (if 0 ≤ reply.retval then log.accept buf else log) := by
  obtain ⟨es', hstores⟩ := heffect.stores h.toStores hlt
  refine ⟨es', ?_⟩
  have hentries := hstores.entries_eq
  have hold := h.entries_eq
  cases heffect with
  | interrupted => exact (hold.symm.trans hentries) ▸ h
  | empty => exact (hold.symm.trans hentries) ▸ h
  | noMemory hlocked hbuf hanswer =>
      obtain rfl : es = es' := hold.symm.trans hentries
      have hnil : log.pending = [] := by
        have hsize := h.pending_size
        rw [hsafe hlocked hbuf hanswer] at hsize
        exact List.length_eq_zero_iff.mp hsize.symm
      exact { toStores := hstores, committed := h.committed, pending_size := h.pending_size,
              pending := fun hne => absurd hnil hne }
  | faultPending _ _ _ _ _ heap p hstaged =>
      obtain rfl : es = es' := hold.symm.trans hentries
      refine { toStores := hstores, committed := ?_, pending_size := h.pending_size,
               pending := ?_ }
      · exact forall₂_entryHolds_congr h.committed fun q hq => hstaged.frame h.toStores hq
      · intro hne
        obtain ⟨q, hptr, hholds⟩ := h.pending hne
        exact ⟨p, rfl, hstaged.front q log.pending hptr (Nat.le_of_eq h.pending_size.symm) hholds⟩
  | faultEmpty _ _ _ _ hzero heap released p hstaged hfree =>
      obtain rfl : es = es' := hold.symm.trans hentries
      refine { toStores := hstores, committed := ?_, pending_size := h.pending_size,
               pending := ?_ }
      · exact forall₂_entryHolds_congr h.committed fun q hq =>
          hstaged.frame_released h.toStores hfree hq
      · intro hne
        have hsize := h.pending_size
        rw [hzero] at hsize
        exact absurd (List.length_eq_zero_iff.mp hsize.symm) hne
  | extended _ _ _ _ hnot heap p hstaged =>
      obtain rfl : es = es' := hold.symm.trans hentries
      rw [if_pos (Int.natCast_nonneg _), Log.accept_of_notMem log hnot]
      refine { toStores := hstores, committed := ?_, pending_size := ?_, pending := ?_ }
      · exact forall₂_entryHolds_congr h.committed fun q hq => hstaged.frame h.toStores hq
      · simp [Log.extend, h.pending_size]
      · intro _
        exact ⟨p, rfl, hstaged.holds_append h⟩
  | committed _ _ _ _ hmem heap released p hstaged hfree =>
      obtain ⟨_, _, hevicted⟩ :=
        push_entryPtrs h.toStores (commandEntry k p buf) rfl hstaged.fresh
      obtain ⟨hring, hback⟩ := h.ring.addEntry (commandEntry k p buf)
      obtain rfl : (BoundedQueue.push 10 es (commandEntry k p buf)).1 = es' :=
        hring.entries_eq.symm.trans hentries
      rw [hback] at hfree
      rw [if_pos (Int.natCast_nonneg _), Log.accept_of_mem log hmem]
      have hused := Log.length_consumed_le buf
      have hline : EntryHolds heap (commandEntry k p buf) (log.pending ++ Log.consumed buf) := by
        refine ⟨p, rfl, ?_, ?_⟩
        · rw [List.length_append, ← h.pending_size]
          rfl
        · have hall := (hstaged.holds_append h).take
            (Nat.add_le_add_left hused log.pending.length |>.trans_eq
              List.length_append.symm)
          rwa [List.take_length_add_append, Log.take_length_consumed] at hall
      have hframed := forall₂_entryHolds_congr h.committed
        fun q hq => hstaged.frame h.toStores hq
      refine { toStores := hstores, committed := ?_, pending_size := rfl,
               pending := fun hne => absurd rfl hne }
      exact forall₂_entryHolds_congr (BoundedQueue.forall₂_push hframed hline)
        fun q hq => Heap.block?_freeNonNull hfree (hevicted q hq)

end WriteEffect

end Aesd
