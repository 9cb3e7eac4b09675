import Aesd.Driver.Device
import Aesd.Ring.Lookup

/-!
# Blocks owned by the device

`Kernel.Stores` is the memory discipline that every operation keeps, whatever
fails: the entries of the ring own distinct live blocks, and an unterminated
buffer, when there is one, owns another. A write is described by its effect on
this discipline, one case for each way through the function.
-/

namespace Aesd

open CSem

/-- The blocks that entries point to, in order. -/
def entryPtrs (es : List BufferEntry) : List Ptr := es.filterMap BufferEntry.buffptr

theorem mem_entryPtrs {es : List BufferEntry} {p : Ptr} :
    p ∈ entryPtrs es ↔ ∃ e ∈ es, e.buffptr = some p := List.mem_filterMap

theorem entryPtrs_append (es : List BufferEntry) (e : BufferEntry) :
    entryPtrs (es ++ [e]) = entryPtrs es ++ e.buffptr.toList := by
  unfold entryPtrs
  rw [List.filterMap_append]
  cases hptr : e.buffptr <;> simp [hptr]

theorem entryPtrs_cons_some {e : BufferEntry} {p : Ptr} (hptr : e.buffptr = some p)
    (es : List BufferEntry) : entryPtrs (e :: es) = p :: entryPtrs es :=
  List.filterMap_cons_some hptr

namespace Kernel

/-- The blocks of the device: those of the entries, then the unterminated one. -/
def owned (k : Kernel) (es : List BufferEntry) : List Ptr :=
  entryPtrs es ++ k.dev.unterminatedBuffptr.toList

/-- The ring stores these entries, and all blocks of the device are distinct,
live and large enough. An unterminated buffer is never empty. -/
structure Stores (k : Kernel) (es : List BufferEntry) : Prop where
  ring : k.dev.buffer.Represents es
  block : ∀ e ∈ es, ∃ p, e.buffptr = some p ∧ 0 < e.size ∧ e.size ≤ k.heap.blockSize p
  nodup : (k.owned es).Nodup
  unterminated : ∀ p, k.dev.unterminatedBuffptr = some p →
    0 < k.dev.unterminatedSize ∧ k.dev.unterminatedSize ≤ k.heap.blockSize p
  unterminated_lt : k.dev.unterminatedSize < 2 ^ 63

theorem init_stores : init.Stores [] where
  ring := CircularBuffer.init_represents
  block := by simp
  nodup := by simp [init, owned, entryPtrs]
  unterminated := by simp [init]
  unterminated_lt := by simp [init]

end Kernel

theorem isSome_of_blockSize_pos {heap : Heap} {p : Ptr} (hpos : 0 < heap.blockSize p) :
    (heap.block? p).isSome := by
  unfold Heap.blockSize at hpos
  cases hblock : heap.block? p with
  | none => simp [hblock] at hpos
  | some cells => rfl

namespace Kernel.Stores

variable {k : Kernel} {es : List BufferEntry}

theorem buffptr_isSome (h : k.Stores es) : ∀ e ∈ es, e.buffptr.isSome := by
  intro e hmem
  obtain ⟨p, hptr, _⟩ := h.block e hmem
  simp [hptr]

theorem live_of_mem (h : k.Stores es) {p : Ptr} (hmem : p ∈ entryPtrs es) :
    (k.heap.block? p).isSome := by
  obtain ⟨e, he, hptr⟩ := mem_entryPtrs.mp hmem
  obtain ⟨q, hq, hpos, hle⟩ := h.block e he
  obtain rfl : p = q := Option.some.inj (hptr.symm.trans hq)
  exact isSome_of_blockSize_pos (Nat.lt_of_lt_of_le hpos hle)

theorem live_unterminated (h : k.Stores es) {p : Ptr}
    (hptr : k.dev.unterminatedBuffptr = some p) : (k.heap.block? p).isSome := by
  obtain ⟨hpos, hle⟩ := h.unterminated p hptr
  exact isSome_of_blockSize_pos (Nat.lt_of_lt_of_le hpos hle)

theorem unterminated_notMem (h : k.Stores es) {p : Ptr} (hmem : p ∈ entryPtrs es) :
    k.dev.unterminatedBuffptr ≠ some p := by
  intro hptr
  have hnodup := h.nodup
  simp only [owned, hptr, Option.toList_some, List.nodup_append, List.mem_singleton] at hnodup
  exact hnodup.2.2 p hmem p rfl rfl

theorem unterminatedBuffptr_eq_none (h : k.Stores es) (hzero : k.dev.unterminatedSize = 0) :
    k.dev.unterminatedBuffptr = none := by
  cases hptr : k.dev.unterminatedBuffptr with
  | none => rfl
  | some p =>
      have := (h.unterminated p hptr).1
      omega

/-- No empty block is kept. -/
theorem none_or_pending (h : k.Stores es) :
    k.dev.unterminatedBuffptr = none ∨ k.dev.unterminatedSize ≠ 0 := by
  by_cases hzero : k.dev.unterminatedSize = 0
  · exact Or.inl (h.unterminatedBuffptr_eq_none hzero)
  · exact Or.inr hzero

theorem sizes_le (h : k.Stores es) :
    (entrySizes es).sum ≤ ((entryPtrs es).map k.heap.blockSize).sum := by
  have hblock := h.block
  clear h
  induction es with
  | nil => simp [entrySizes]
  | cons e es ih =>
      obtain ⟨p, hptr, _, hle⟩ := hblock e List.mem_cons_self
      have htail := ih fun e' he' => hblock e' (List.mem_cons_of_mem e he')
      rw [entryPtrs_cons_some hptr]
      simp only [entrySizes, List.map_cons, List.sum_cons] at htail ⊢
      omega

/-- The stored bytes and an unterminated buffer fit in the heap together. -/
theorem sum_le_total (h : k.Stores es) {p : Ptr} (hptr : k.dev.unterminatedBuffptr = some p) :
    (entrySizes es).sum + k.dev.unterminatedSize ≤ k.heap.total := by
  have hall := k.heap.sum_blockSize_le_total h.nodup
  have hsizes := h.sizes_le
  have hpending := (h.unterminated p hptr).2
  simp only [owned, hptr, Option.toList_some, List.map_append, List.sum_append, List.map_cons,
    List.map_nil, List.sum_singleton] at hall
  omega

theorem entrySizes_le_total (h : k.Stores es) : (entrySizes es).sum ≤ k.heap.total := by
  have hall := k.heap.sum_blockSize_le_total h.nodup
  have hsizes := h.sizes_le
  simp only [owned, List.map_append, List.sum_append] at hall
  omega

end Kernel.Stores

/-- Memory once a write has its bytes behind the unterminated ones in the block
that `krealloc` returned, and nothing else has happened. -/
structure Staged (k : Kernel) (es : List BufferEntry) (data : List UInt8) (heap : Heap)
    (p : Ptr) : Prop where
  others : ∀ q, q ≠ p → heap.block? q =
    if some q = k.dev.unterminatedBuffptr then none else k.heap.block? q
  fresh : p ∉ entryPtrs es
  blockSize : heap.blockSize p = k.dev.unterminatedSize + data.length
  data : heap.Holds p k.dev.unterminatedSize data
  front : ∀ q bytes, k.dev.unterminatedBuffptr = some q →
    bytes.length ≤ k.dev.unterminatedSize → k.heap.Holds q 0 bytes → heap.Holds p 0 bytes

namespace Staged

variable {k : Kernel} {es : List BufferEntry} {data : List UInt8} {heap : Heap} {p : Ptr}

theorem block_live (hstaged : Staged k es data heap p) (hpos : 0 < data.length) :
    (heap.block? p).isSome := by
  apply isSome_of_blockSize_pos
  rw [hstaged.blockSize]
  exact Nat.add_pos_right _ hpos

/-- The entries keep their blocks. -/
theorem frame (hstaged : Staged k es data heap p) (h : k.Stores es) {q : Ptr}
    (hmem : q ∈ entryPtrs es) : heap.block? q = k.heap.block? q := by
  have hne : q ≠ p := fun heq => hstaged.fresh (heq ▸ hmem)
  rw [hstaged.others q hne, if_neg fun heq => h.unterminated_notMem hmem heq.symm]

/-- A `krealloc` that is met, followed by the copy from the user. -/
theorem of_krealloc (h : k.Stores es) {answer : Resize} (hanswer : answer ≠ .null)
    (data : List UInt8) :
    ∃ grown heap p,
      k.heap.realloc k.dev.unterminatedBuffptr (k.dev.unterminatedSize + data.length) answer =
        .ok (grown, some p) ∧
      grown.store (some p) k.dev.unterminatedSize data = .ok heap ∧
      Staged k es data heap p := by
  obtain ⟨grown, heap, p, hrealloc, hstore, hsize, hdata, hothers, hname, hfront⟩ :=
    k.heap.realloc_store (fun q hq => h.live_unterminated hq) (Nat.le_refl _) hanswer
  refine ⟨grown, heap, p, hrealloc, hstore, ?_⟩
  refine { others := hothers, fresh := ?_, blockSize := hsize, data := hdata, front := hfront }
  intro hmem
  rcases hname with hsame | hnew
  · exact h.unterminated_notMem hmem hsame.symm
  · have := h.live_of_mem hmem
    simp [hnew] at this

end Staged

end Aesd
