import Aesd.Foundation.Exec
import Mathlib.Algebra.BigOperators.Group.Finset.Basic
import Mathlib.Algebra.Order.BigOperators.Group.Finset
import Mathlib.Algebra.Ring.Nat

/-! # A heap of separately allocated blocks

Blocks are named by the order of their allocation, so a name is never reused
and a pointer to a released block stays recognizable. A cell that was never
stored to is uninitialized; loading it is a fault.
-/

namespace CSem

/-- The name of a block. -/
abbrev Ptr := Nat

/-- A byte of a block, or nothing when it was never stored. -/
abbrev Cell := Option UInt8

/-- All blocks ever allocated; a released one is kept as `none`. -/
structure Heap where
  blocks : List (Option (List Cell))
  deriving DecidableEq, Repr

/-- How an allocator answers a request to resize a block. -/
inductive Resize
  | null
  | inPlace
  | moved
  deriving DecidableEq, Repr

/-- The bytes of initialized cells. -/
def readCells : List Cell → Exec (List UInt8)
  | [] => .ok []
  | none :: _ => .error .uninitialized
  | some byte :: cells => (readCells cells).map (byte :: ·)

theorem readCells_map_some (bytes : List UInt8) : readCells (bytes.map some) = .ok bytes := by
  induction bytes with
  | nil => rfl
  | cons byte bytes ih => simp [readCells, ih, Except.map]

theorem readCells_eq_ok {cells : List Cell} {bytes : List UInt8}
    (hread : readCells cells = .ok bytes) : cells = bytes.map some := by
  induction cells generalizing bytes with
  | nil =>
      cases hread
      rfl
  | cons cell cells ih =>
      cases cell with
      | none => cases hread
      | some byte =>
          simp only [readCells] at hread
          cases hrest : readCells cells with
          | error fault =>
              rw [hrest] at hread
              cases hread
          | ok others =>
              rw [hrest] at hread
              cases hread
              rw [List.map_cons, ih hrest]

namespace Heap

def empty : Heap := ⟨[]⟩

/-- The cells of a live block. -/
def block? (heap : Heap) (p : Ptr) : Option (List Cell) := (heap.blocks[p]?).join

/-- The number of cells of a block, zero when it is not live. -/
def blockSize (heap : Heap) (p : Ptr) : Nat := ((heap.block? p).getD []).length

/-- The number of cells of all live blocks. -/
def total (heap : Heap) : Nat := (heap.blocks.map fun block => (block.getD []).length).sum

def alloc (heap : Heap) (cells : List Cell) : Heap × Ptr :=
  (⟨heap.blocks ++ [some cells]⟩, heap.blocks.length)

/-- Replace the cells of a block. -/
def put (heap : Heap) (p : Ptr) (cells : List Cell) : Heap := ⟨heap.blocks.set p (some cells)⟩

def free (heap : Heap) (p : Ptr) : Exec Heap :=
  match heap.block? p with
  | none => .error .deadBlock
  | some _ => .ok ⟨heap.blocks.set p none⟩

/-- `free` behind a test for the null pointer. -/
def freeNonNull (heap : Heap) : Option Ptr → Exec Heap
  | none => .ok heap
  | some p => heap.free p

/-- The cells after a resize: the old ones as far as they fit, then fresh ones. -/
def resized (cells : List Cell) (size : Nat) : List Cell :=
  cells.take size ++ List.replicate (size - cells.length) none

/-- `realloc`: the null pointer asks for a new block, and a request that is
not met leaves the old block alone. -/
def realloc (heap : Heap) (p : Option Ptr) (size : Nat) (answer : Resize) :
    Exec (Heap × Option Ptr) :=
  match answer, p with
  | .null, _ => .ok (heap, none)
  | _, none =>
      let (heap, q) := heap.alloc (List.replicate size none)
      .ok (heap, some q)
  | .inPlace, some p =>
      match heap.block? p with
      | none => .error .deadBlock
      | some cells => .ok (heap.put p (resized cells size), some p)
  | .moved, some p =>
      match heap.block? p with
      | none => .error .deadBlock
      | some cells =>
          let (heap, q) := heap.alloc (resized cells size)
          .ok (⟨heap.blocks.set p none⟩, some q)

/-- Load bytes; an empty range touches no memory. -/
def load (heap : Heap) (p : Option Ptr) (offset size : Nat) : Exec (List UInt8) :=
  if size = 0 then .ok []
  else
    match p with
    | none => .error .nullPointer
    | some p =>
        match heap.block? p with
        | none => .error .deadBlock
        | some cells =>
            if offset + size ≤ cells.length then readCells ((cells.drop offset).take size)
            else .error .outOfBounds

/-- Overwrite part of a list. -/
def splice (cells : List Cell) (offset : Nat) (bytes : List UInt8) : List Cell :=
  cells.take offset ++ bytes.map some ++ cells.drop (offset + bytes.length)

/-- Store bytes; an empty range touches no memory. -/
def store (heap : Heap) (p : Option Ptr) (offset : Nat) (bytes : List UInt8) : Exec Heap :=
  if bytes = [] then .ok heap
  else
    match p with
    | none => .error .nullPointer
    | some p =>
        match heap.block? p with
        | none => .error .deadBlock
        | some cells =>
            if offset + bytes.length ≤ cells.length then .ok (heap.put p (splice cells offset bytes))
            else .error .outOfBounds

/-- The block holds these bytes from the offset on. -/
def Holds (heap : Heap) (p : Ptr) (offset : Nat) (bytes : List UInt8) : Prop :=
  ∃ cells, heap.block? p = some cells ∧ offset + bytes.length ≤ cells.length ∧
    (cells.drop offset).take bytes.length = bytes.map some

theorem lt_of_block? {heap : Heap} {p : Ptr} {cells : List Cell}
    (hblock : heap.block? p = some cells) : p < heap.blocks.length := by
  by_contra hge
  simp [block?, List.getElem?_eq_none (Nat.le_of_not_lt hge)] at hblock

theorem block?_alloc (heap : Heap) (cells : List Cell) (q : Ptr) :
    (heap.alloc cells).1.block? q =
      if q = heap.blocks.length then some cells else heap.block? q := by
  unfold alloc block?
  rcases Nat.lt_trichotomy q heap.blocks.length with hlt | heq | hgt
  · rw [if_neg (Nat.ne_of_lt hlt), List.getElem?_append_left hlt]
  · simp [heq]
  · rw [if_neg (Nat.ne_of_gt hgt), List.getElem?_eq_none (by simpa using Nat.succ_le_of_lt hgt),
      List.getElem?_eq_none (Nat.le_of_lt hgt)]

/-- What is live after an allocation. -/
theorem isSome_block?_alloc {heap : Heap} {cells : List Cell} {r : Ptr} :
    ((heap.alloc cells).1.block? r).isSome ↔ r = heap.blocks.length ∨ (heap.block? r).isSome := by
  rw [block?_alloc]
  by_cases heq : r = heap.blocks.length
  · simp [heq]
  · simp [heq]

theorem block?_set (heap : Heap) {p : Ptr} (hlt : p < heap.blocks.length)
    (block : Option (List Cell)) (q : Ptr) :
    (Heap.mk (heap.blocks.set p block)).block? q = if q = p then block else heap.block? q := by
  unfold block?
  by_cases heq : q = p
  · subst q
    simp [hlt]
  · rw [if_neg heq, List.getElem?_set_ne (Ne.symm heq)]

theorem block?_put {heap : Heap} {p : Ptr} (hlt : p < heap.blocks.length)
    (cells : List Cell) (q : Ptr) :
    (heap.put p cells).block? q = if q = p then some cells else heap.block? q :=
  block?_set heap hlt (some cells) q

theorem block?_fresh (heap : Heap) : heap.block? heap.blocks.length = none := by
  simp [block?]

@[simp] theorem length_resized (cells : List Cell) (size : Nat) :
    (resized cells size).length = size := by
  simp only [resized, List.length_append, List.length_take, List.length_replicate]
  omega

theorem length_splice {cells : List Cell} {offset : Nat} {bytes : List UInt8}
    (hle : offset + bytes.length ≤ cells.length) :
    (splice cells offset bytes).length = cells.length := by
  simp only [splice, List.length_append, List.length_take, List.length_map, List.length_drop]
  omega

/-! ## Loading and storing -/

theorem Holds.load {heap : Heap} {p : Ptr} {offset : Nat} {bytes : List UInt8}
    (hholds : heap.Holds p offset bytes) :
    heap.load (some p) offset bytes.length = .ok bytes := by
  obtain ⟨cells, hblock, hle, heq⟩ := hholds
  unfold Heap.load
  split
  next hzero => rw [List.length_eq_zero_iff.mp hzero]
  next => simp only [hblock, if_pos hle, heq, readCells_map_some]

/-- A load gives as many bytes as it is asked for. -/
theorem length_of_load {heap : Heap} {p : Option Ptr} {offset size : Nat} {bytes : List UInt8}
    (hload : heap.load p offset size = .ok bytes) : bytes.length = size := by
  unfold Heap.load at hload
  split at hload
  next hzero =>
    cases hload
    exact hzero.symm
  next =>
    cases p with
    | none => cases hload
    | some p =>
        cases hblock : heap.block? p with
        | none => simp [hblock] at hload
        | some cells =>
            simp only [hblock] at hload
            split at hload
            next hle =>
              have hlength := congrArg List.length (readCells_eq_ok hload)
              rw [List.length_take, List.length_drop, List.length_map] at hlength
              omega
            next => cases hload

theorem Holds.slice {heap : Heap} {p : Ptr} {offset : Nat} {bytes : List UInt8}
    (hholds : heap.Holds p offset bytes) (start size : Nat)
    (hle : start + size ≤ bytes.length) :
    heap.Holds p (offset + start) ((bytes.drop start).take size) := by
  obtain ⟨cells, hblock, hbound, heq⟩ := hholds
  have hlength : ((bytes.drop start).take size).length = size := by
    simp only [List.length_take, List.length_drop]
    omega
  refine ⟨cells, hblock, by omega, ?_⟩
  rw [hlength, List.map_take, List.map_drop, ← heq, List.drop_take, List.take_take,
    List.drop_drop]
  congr 1
  omega

theorem Holds.take {heap : Heap} {p : Ptr} {offset : Nat} {bytes : List UInt8}
    (hholds : heap.Holds p offset bytes) {size : Nat} (hle : size ≤ bytes.length) :
    heap.Holds p offset (bytes.take size) := by
  simpa using hholds.slice 0 size (by omega)

/-- Two adjacent ranges are one range. -/
theorem Holds.append {heap : Heap} {p : Ptr} {offset : Nat} {first second : List UInt8}
    (hfirst : heap.Holds p offset first)
    (hsecond : heap.Holds p (offset + first.length) second) :
    heap.Holds p offset (first ++ second) := by
  obtain ⟨cells, hblock, _, hfirst⟩ := hfirst
  obtain ⟨cells', hblock', hbound, hsecond⟩ := hsecond
  obtain rfl : cells = cells' := by simpa [hblock] using hblock'
  refine ⟨cells, hblock, by simp only [List.length_append]; omega, ?_⟩
  rw [List.length_append, List.take_add, hfirst, List.drop_drop, hsecond, List.map_append]

theorem holds_nil {heap : Heap} {p : Ptr} {cells : List Cell}
    (hblock : heap.block? p = some cells) {offset : Nat} (hle : offset ≤ cells.length) :
    heap.Holds p offset [] :=
  ⟨cells, hblock, by simpa using hle, by simp⟩

theorem Holds.congr {heap heap' : Heap} {p : Ptr} {offset : Nat} {bytes : List UInt8}
    (hholds : heap.Holds p offset bytes) (hblock : heap'.block? p = heap.block? p) :
    heap'.Holds p offset bytes := by
  obtain ⟨cells, heq, hrest⟩ := hholds
  exact ⟨cells, hblock.trans heq, hrest⟩

/-- Storing into a live block succeeds, and only the stored range changes. -/
theorem store_spec {heap : Heap} {p : Ptr} {cells : List Cell} (hblock : heap.block? p = some cells)
    (offset : Nat) (bytes : List UInt8) (hle : offset + bytes.length ≤ cells.length) :
    ∃ heap', heap.store (some p) offset bytes = .ok heap' ∧
      heap'.block? p = some (splice cells offset bytes) ∧
      (∀ q, q ≠ p → heap'.block? q = heap.block? q) ∧
      heap'.blocks.length = heap.blocks.length := by
  have hlt := lt_of_block? hblock
  unfold store
  split
  next hnil =>
    subst hnil
    exact ⟨heap, rfl, by simpa [splice] using hblock, fun _ _ => rfl, rfl⟩
  next =>
    refine ⟨heap.put p (splice cells offset bytes), by simp only [hblock, if_pos hle], ?_, ?_, ?_⟩
    · simp [block?_put hlt]
    · intro q hne
      simp [block?_put hlt, hne]
    · simp [put]

/-- A store allocates and releases nothing. -/
theorem store_eq_ok {heap heap' : Heap} {p : Option Ptr} {offset : Nat} {bytes : List UInt8}
    (hstore : heap.store p offset bytes = .ok heap') :
    heap'.blocks.length = heap.blocks.length ∧
      ∀ r, (heap'.block? r).isSome ↔ (heap.block? r).isSome := by
  unfold store at hstore
  split at hstore
  next =>
    cases hstore
    exact ⟨rfl, fun _ => Iff.rfl⟩
  next =>
    cases p with
    | none => cases hstore
    | some p =>
        cases hblock : heap.block? p with
        | none => simp [hblock] at hstore
        | some cells =>
            simp only [hblock] at hstore
            split at hstore
            next =>
              cases hstore
              refine ⟨List.length_set, fun r => ?_⟩
              rw [block?_put (lt_of_block? hblock)]
              split
              next heq => simp [heq, hblock]
              next => exact Iff.rfl
            next => cases hstore

theorem holds_splice {heap : Heap} {p : Ptr} {cells : List Cell} {offset : Nat}
    {bytes : List UInt8} (hle : offset + bytes.length ≤ cells.length)
    (hblock : heap.block? p = some (splice cells offset bytes)) : heap.Holds p offset bytes := by
  refine ⟨_, hblock, by rw [length_splice hle]; exact hle, ?_⟩
  have htake : (cells.take offset).length = offset := by
    rw [List.length_take]
    omega
  unfold splice
  rw [List.append_assoc, List.drop_left' htake, List.take_left' (by simp)]

/-- Bytes in front of the stored range stay. -/
theorem Holds.splice_front {heap heap' : Heap} {p : Ptr} {cells : List Cell} {offset : Nat}
    {bytes front : List UInt8} (hfront : heap.Holds p 0 front)
    (hcells : heap.block? p = some cells) (hle : offset + bytes.length ≤ cells.length)
    (hbefore : front.length ≤ offset)
    (hblock : heap'.block? p = some (splice cells offset bytes)) : heap'.Holds p 0 front := by
  obtain ⟨cells', hcells', hbound, heq⟩ := hfront
  obtain rfl : cells = cells' := by simpa [hcells] using hcells'
  refine ⟨_, hblock, by rw [length_splice hle]; exact hbound, ?_⟩
  rw [← heq]
  unfold splice
  simp only [List.drop_zero]
  rw [List.append_assoc, List.take_append_of_le_length (by rw [List.length_take]; omega),
    List.take_take, Nat.min_eq_left hbefore]

/-! ## Resizing -/

/-- The cells that a resize of this pointer starts from. -/
def oldCells (heap : Heap) (p : Option Ptr) : List Cell := (p.bind heap.block?).getD []

/-- A resize that is met: the block that comes back has the requested size and
the old prefix, every other block is untouched, and the old name dies unless it
is the one returned. -/
theorem realloc_spec {heap : Heap} {p : Option Ptr}
    (hlive : ∀ q, p = some q → (heap.block? q).isSome) (size : Nat) {answer : Resize}
    (hanswer : answer ≠ .null) :
    ∃ heap' q, heap.realloc p size answer = .ok (heap', some q) ∧
      heap'.block? q = some (resized (heap.oldCells p) size) ∧
      (∀ r, some r ≠ p → r ≠ q → heap'.block? r = heap.block? r) ∧
      (∀ r, some r = p → r ≠ q → heap'.block? r = none) ∧
      (some q = p ∨ heap.block? q = none) := by
  cases p with
  | none =>
      have hresized : resized [] size = List.replicate size none := by simp [resized]
      refine ⟨(heap.alloc (List.replicate size none)).1, heap.blocks.length, ?_, ?_, ?_, ?_, ?_⟩
      · cases answer <;> first | rfl | exact absurd rfl hanswer
      · simp [block?_alloc, oldCells, hresized]
      · intro r _ hne
        simp [block?_alloc, hne]
      · intro r heq
        cases heq
      · exact Or.inr (block?_fresh heap)
  | some p =>
      obtain ⟨cells, hcells⟩ := Option.isSome_iff_exists.mp (hlive p rfl)
      have hold : heap.oldCells (some p) = cells := by simp [oldCells, hcells]
      have hlt : p < heap.blocks.length := lt_of_block? hcells
      rw [hold]
      cases answer with
      | null => exact absurd rfl hanswer
      | inPlace =>
          refine ⟨heap.put p (resized cells size), p, by simp [realloc, hcells], ?_, ?_, ?_, Or.inl rfl⟩
          · simp [block?_put hlt]
          · intro r _ hne
            simp [block?_put hlt, hne]
          · intro r heq hne
            cases heq
            exact absurd rfl hne
      | moved =>
          have hset : ∀ r, (Heap.mk ((heap.alloc (resized cells size)).1.blocks.set p none)).block? r =
              if r = p then none else (heap.alloc (resized cells size)).1.block? r :=
            block?_set _ (by simpa [alloc] using Nat.lt_succ_of_lt hlt) none
          refine ⟨⟨(heap.alloc (resized cells size)).1.blocks.set p none⟩, heap.blocks.length,
            by simp only [realloc, hcells]; rfl, ?_, ?_, ?_, Or.inr (block?_fresh heap)⟩
          · rw [hset, if_neg (Nat.ne_of_gt hlt), block?_alloc, if_pos rfl]
          · intro r hne hfresh
            rw [hset, if_neg (fun heq => hne (congrArg some heq)), block?_alloc, if_neg hfresh]
          · intro r heq _
            cases heq
            rw [hset, if_pos rfl]

/-- A resize gives the null pointer exactly when the allocator says so. -/
theorem realloc_isNone_iff {heap heap' : Heap} {p q : Option Ptr} {size : Nat} {answer : Resize}
    (hrealloc : heap.realloc p size answer = .ok (heap', q)) : q = none ↔ answer = .null := by
  cases answer with
  | null =>
      cases hrealloc
      simp
  | inPlace =>
      cases p with
      | none =>
          cases hrealloc
          simp
      | some p =>
          simp only [realloc] at hrealloc
          split at hrealloc
          · cases hrealloc
          · cases hrealloc
            simp
  | moved =>
      cases p with
      | none =>
          cases hrealloc
          simp
      | some p =>
          simp only [realloc] at hrealloc
          split at hrealloc
          · cases hrealloc
          · cases hrealloc
            simp

/-- A resize that is met was made of the null pointer or of a live block. -/
theorem live_of_realloc {heap : Heap} {p : Option Ptr} {size : Nat} {answer : Resize}
    {result : Heap × Option Ptr} (hrealloc : heap.realloc p size answer = .ok result)
    (hanswer : answer ≠ .null) : ∀ q, p = some q → (heap.block? q).isSome := by
  rintro q rfl
  cases hblock : heap.block? q with
  | some cells => rfl
  | none =>
      cases answer with
      | null => exact absurd rfl hanswer
      | inPlace => simp [realloc, hblock] at hrealloc
      | moved => simp [realloc, hblock] at hrealloc

/-- A resize that returns a block leaves the live blocks as they were, or puts a
block that was never there in the place of the old one. -/
theorem realloc_cases {heap heap' : Heap} {p : Option Ptr} {q : Ptr} {size : Nat} {answer : Resize}
    (hrealloc : heap.realloc p size answer = .ok (heap', some q)) :
    (answer = .inPlace ∧ p = some q ∧ heap'.blocks.length = heap.blocks.length ∧
      ∀ r, (heap'.block? r).isSome ↔ (heap.block? r).isSome) ∨
    ((p = none ∨ answer = .moved) ∧ q = heap.blocks.length ∧
      heap'.blocks.length = heap.blocks.length + 1 ∧
      ∀ r, (heap'.block? r).isSome ↔ r = q ∨ (heap.block? r).isSome ∧ p ≠ some r) := by
  cases p with
  | none =>
      have hnew : heap' = (heap.alloc (List.replicate size none)).1 ∧ q = heap.blocks.length := by
        cases answer with
        | null => cases hrealloc
        | inPlace =>
            cases hrealloc
            exact ⟨rfl, rfl⟩
        | moved =>
            cases hrealloc
            exact ⟨rfl, rfl⟩
      obtain ⟨rfl, rfl⟩ := hnew
      refine Or.inr ⟨Or.inl rfl, rfl, List.length_append, fun r => ?_⟩
      simp [isSome_block?_alloc]
  | some p =>
      cases hblock : heap.block? p with
      | none => cases answer <;> simp [realloc, hblock] at hrealloc
      | some cells =>
          have hlt := lt_of_block? hblock
          cases answer with
          | null => cases hrealloc
          | inPlace =>
              simp only [realloc, hblock] at hrealloc
              cases hrealloc
              refine Or.inl ⟨rfl, rfl, List.length_set, fun r => ?_⟩
              rw [block?_put hlt]
              split
              next heq => simp [heq, hblock]
              next => exact Iff.rfl
          | moved =>
              simp only [realloc, hblock] at hrealloc
              cases hrealloc
              have hbound : p < (heap.alloc (resized cells size)).1.blocks.length := by
                rw [alloc, List.length_append]
                exact Nat.lt_add_right _ hlt
              refine Or.inr ⟨Or.inr rfl, rfl, ?_, fun r => ?_⟩
              · rw [List.length_set, alloc, List.length_append]
                rfl
              · rw [block?_set _ hbound]
                by_cases heq : r = p
                · subst heq
                  simp only [if_true, Option.isSome_none, Bool.false_eq_true, ne_eq, not_true,
                    and_false, or_false, false_iff]
                  exact Nat.ne_of_lt hlt
                · rw [if_neg heq, isSome_block?_alloc]
                  simp [alloc, Ne.symm heq]

/-- A resize to at least the old extent keeps the bytes that were held. -/
theorem Holds.resized {heap heap' : Heap} {p q : Ptr} {bytes : List UInt8} {size : Nat}
    (hholds : heap.Holds p 0 bytes) (hle : bytes.length ≤ size)
    (hblock : heap'.block? q = some (resized (heap.oldCells (some p)) size)) :
    heap'.Holds q 0 bytes := by
  obtain ⟨cells, hcells, hbound, heq⟩ := hholds
  have hold : heap.oldCells (some p) = cells := by simp [oldCells, hcells]
  rw [hold] at hblock
  refine ⟨_, hblock, by simpa using hle, ?_⟩
  rw [← heq, List.drop_zero, List.drop_zero, Heap.resized, List.take_append_of_le_length
    (by rw [List.length_take]; omega), List.take_take, Nat.min_eq_left hle]

/-- A resize that is met, with bytes stored behind what the block held before:
nothing else changes, except that the old name may die. -/
theorem realloc_store {heap : Heap} {p : Option Ptr}
    (hlive : ∀ q, p = some q → (heap.block? q).isSome) {offset size : Nat} {bytes : List UInt8}
    (hle : offset + bytes.length ≤ size) {answer : Resize} (hanswer : answer ≠ .null) :
    ∃ grown heap' q, heap.realloc p size answer = .ok (grown, some q) ∧
      grown.store (some q) offset bytes = .ok heap' ∧
      heap'.blockSize q = size ∧ heap'.Holds q offset bytes ∧
      (∀ r, r ≠ q → heap'.block? r = if some r = p then none else heap.block? r) ∧
      (some q = p ∨ heap.block? q = none) ∧
      (∀ r front, p = some r → front.length ≤ offset → heap.Holds r 0 front →
        heap'.Holds q 0 front) := by
  obtain ⟨grown, q, hrealloc, hblock, hother, hdead, hname⟩ :=
    heap.realloc_spec hlive size hanswer
  have hroom : offset + bytes.length ≤ (resized (heap.oldCells p) size).length := by
    rwa [length_resized]
  obtain ⟨heap', hstore, hspliced, hkept, _⟩ := store_spec hblock offset bytes hroom
  refine ⟨grown, heap', q, hrealloc, hstore, ?_, holds_splice hroom hspliced, ?_, hname, ?_⟩
  · rw [blockSize, hspliced, Option.getD_some, length_splice hroom, length_resized]
  · intro r hne
    rw [hkept r hne]
    by_cases hold : some r = p
    · rw [if_pos hold, hdead r hold hne]
    · rw [if_neg hold, hother r hold hne]
  · intro r front hr hfront hholds
    subst hr
    have hgrown : grown.Holds q 0 front := hholds.resized (by omega) hblock
    exact hgrown.splice_front hblock hroom hfront hspliced

/-- Storing right behind what a block holds lengthens it. -/
theorem store_append {heap : Heap} {p : Ptr} {front bytes : List UInt8}
    (hfront : heap.Holds p 0 front) (hle : front.length + bytes.length ≤ heap.blockSize p) :
    ∃ heap', heap.store (some p) front.length bytes = .ok heap' ∧
      heap'.Holds p 0 (front ++ bytes) ∧ ∀ q, q ≠ p → heap'.block? q = heap.block? q := by
  obtain ⟨cells, hblock, _⟩ := id hfront
  have hroom : front.length + bytes.length ≤ cells.length := by
    simpa [blockSize, hblock] using hle
  obtain ⟨heap', hstore, hspliced, hkept, _⟩ := store_spec hblock front.length bytes hroom
  refine ⟨heap', hstore, ?_, hkept⟩
  have hkeeps := hfront.splice_front hblock hroom (Nat.le_refl _) hspliced
  exact hkeeps.append (by simpa using holds_splice hroom hspliced)

/-! ## Releasing -/

theorem free_spec {heap : Heap} {p : Ptr} (hlive : (heap.block? p).isSome) :
    ∃ heap', heap.free p = .ok heap' ∧ heap'.block? p = none ∧
      ∀ q, q ≠ p → heap'.block? q = heap.block? q := by
  obtain ⟨cells, hcells⟩ := Option.isSome_iff_exists.mp hlive
  have hlt := lt_of_block? hcells
  refine ⟨⟨heap.blocks.set p none⟩, by simp [free, hcells], ?_, ?_⟩
  · simp [block?_set heap hlt]
  · intro q hne
    simp [block?_set heap hlt, hne]

/-- A release that is no fault kills its block and nothing else. -/
theorem free_eq_ok {heap released : Heap} {p : Ptr} (hfree : heap.free p = .ok released) :
    released.block? p = none ∧ ∀ q, q ≠ p → released.block? q = heap.block? q := by
  have hlive : (heap.block? p).isSome := by
    cases hblock : heap.block? p with
    | none => simp [free, hblock] at hfree
    | some cells => rfl
  obtain ⟨heap', hheap', hdead, hothers⟩ := free_spec hlive
  cases hfree.symm.trans hheap'
  exact ⟨hdead, hothers⟩

theorem block?_freeNonNull {heap released : Heap} {old : Option Ptr}
    (hfree : heap.freeNonNull old = .ok released) {q : Ptr} (hne : old ≠ some q) :
    released.block? q = heap.block? q := by
  cases old with
  | none =>
      cases hfree
      rfl
  | some p => exact (free_eq_ok hfree).2 q fun heq => hne (congrArg some heq.symm)

/-- What is live after a release was live before, and was not released. -/
theorem live_of_freeNonNull {heap released : Heap} {old : Option Ptr}
    (hfree : heap.freeNonNull old = .ok released) {q : Ptr}
    (hlive : (released.block? q).isSome) : old ≠ some q ∧ (heap.block? q).isSome := by
  have hne : old ≠ some q := by
    rintro rfl
    rw [(free_eq_ok hfree).1] at hlive
    cases hlive
  rw [block?_freeNonNull hfree hne] at hlive
  exact ⟨hne, hlive⟩

/-- Distinct live blocks can be released one after the other. -/
theorem free_all {heap : Heap} {ps : List Ptr} (hnodup : ps.Nodup)
    (hlive : ∀ p ∈ ps, (heap.block? p).isSome) :
    ∃ heap', ps.foldlM Heap.free heap = .ok heap' ∧ (∀ p ∈ ps, heap'.block? p = none) ∧
      ∀ q, q ∉ ps → heap'.block? q = heap.block? q := by
  induction ps generalizing heap with
  | nil => exact ⟨heap, rfl, nofun, fun _ _ => rfl⟩
  | cons p ps ih =>
      obtain ⟨hnot, hnodup⟩ := List.nodup_cons.mp hnodup
      obtain ⟨middle, hfree, hdead, hothers⟩ := free_spec (hlive p List.mem_cons_self)
      have hrest : ∀ q ∈ ps, (middle.block? q).isSome := by
        intro q hmem
        rw [hothers q fun heq => hnot (heq ▸ hmem)]
        exact hlive q (List.mem_cons_of_mem p hmem)
      obtain ⟨heap', hfold, hdeads, hkept⟩ := ih hnodup hrest
      refine ⟨heap', by rw [List.foldlM_cons, hfree]; exact hfold, ?_, ?_⟩
      · intro q hmem
        rcases List.mem_cons.mp hmem with rfl | hmem
        · rw [hkept q hnot, hdead]
        · exact hdeads q hmem
      · intro q hnotMem
        rw [List.mem_cons, not_or] at hnotMem
        rw [hkept q hnotMem.2, hothers q hnotMem.1]

/-! ## Cells that were never stored -/

/-- The bytes of a block as memory has them, with garbage in the cells that were
never stored. -/
def fillCells (garbage : Nat → UInt8) (cells : List Cell) : List UInt8 :=
  cells.mapIdx fun i cell => cell.getD (garbage i)

/-- The heap as memory has it. -/
def filled (garbage : Ptr → Nat → UInt8) (heap : Heap) : Heap :=
  ⟨heap.blocks.mapIdx fun p block => block.map fun cells => (fillCells (garbage p) cells).map some⟩

theorem length_fillCells (garbage : Nat → UInt8) (cells : List Cell) :
    (fillCells garbage cells).length = cells.length := List.length_mapIdx

section

variable (garbage : Ptr → Nat → UInt8)

theorem block?_filled (heap : Heap) (p : Ptr) :
    (heap.filled garbage).block? p =
      (heap.block? p).map fun cells => (fillCells (garbage p) cells).map some := by
  unfold block? filled
  rw [List.getElem?_mapIdx]
  cases heap.blocks[p]? with
  | none => rfl
  | some block => rfl

theorem blockSize_filled (heap : Heap) (p : Ptr) :
    (heap.filled garbage).blockSize p = heap.blockSize p := by
  unfold blockSize
  rw [block?_filled]
  cases heap.block? p with
  | none => rfl
  | some cells => simp [length_fillCells]

/-- Every load inside a block comes back. -/
theorem load_filled {heap : Heap} {p : Ptr} {offset size : Nat}
    (hle : offset + size ≤ heap.blockSize p) :
    ∃ bytes, (heap.filled garbage).load (some p) offset size = .ok bytes := by
  unfold load
  by_cases hzero : size = 0
  · exact ⟨[], if_pos hzero⟩
  · rw [if_neg hzero]
    unfold blockSize at hle
    cases hblock : heap.block? p with
    | none =>
        simp only [hblock, Option.getD_none, List.length_nil] at hle
        omega
    | some cells =>
        simp only [hblock, Option.getD_some] at hle
        simp only [block?_filled, hblock, Option.map_some, List.length_map, length_fillCells,
          if_pos hle]
        rw [← List.map_drop, ← List.map_take, readCells_map_some]
        exact ⟨_, rfl⟩

/-- What was stored is loaded. -/
theorem load_filled_of_ok {heap : Heap} {p : Option Ptr} {offset size : Nat} {bytes : List UInt8}
    (hload : heap.load p offset size = .ok bytes) :
    (heap.filled garbage).load p offset size = .ok bytes := by
  unfold load at hload ⊢
  by_cases hzero : size = 0
  · rwa [if_pos hzero] at hload ⊢
  · rw [if_neg hzero] at hload ⊢
    cases p with
    | none => cases hload
    | some p =>
        dsimp only at hload ⊢
        rw [block?_filled]
        cases hblock : heap.block? p with
        | none =>
            rw [hblock] at hload
            cases hload
        | some cells =>
            simp only [hblock, Option.map_some, List.length_map, length_fillCells] at hload ⊢
            by_cases hle : offset + size ≤ cells.length
            · rw [if_pos hle] at hload ⊢
              have hcells := readCells_eq_ok hload
              have hfill : ((fillCells (garbage p) cells).drop offset).take size = bytes := by
                refine List.ext_getElem? fun i => ?_
                have hcell := congrArg (fun cells => cells[i]?) hcells
                simp only [fillCells, List.getElem?_take, List.getElem?_drop, List.getElem?_mapIdx,
                  List.getElem?_map] at hcell ⊢
                by_cases hlt : i < size
                · rw [if_pos hlt] at hcell ⊢
                  rw [hcell]
                  cases bytes[i]? with
                  | none => rfl
                  | some byte => rfl
                · rw [if_neg hlt] at hcell ⊢
                  cases hbyte : bytes[i]? with
                  | none => rfl
                  | some byte =>
                      rw [hbyte] at hcell
                      cases hcell
              rw [← List.map_drop, ← List.map_take, hfill, readCells_map_some]
            · rw [if_neg hle] at hload
              cases hload

end

/-! ## Disjoint blocks fit together -/

theorem total_eq_sum_blockSize (heap : Heap) :
    heap.total = ∑ p ∈ Finset.range heap.blocks.length, heap.blockSize p := by
  have hsize : ∀ p, heap.blockSize p = ((heap.blocks[p]?).map fun b => (b.getD []).length).getD 0 := by
    intro p
    cases hblock : heap.blocks[p]? with
    | none => simp [blockSize, block?, hblock]
    | some block => simp [blockSize, block?, hblock]
  unfold total
  simp only [hsize]
  induction heap.blocks using List.reverseRecOn with
  | nil => rfl
  | append_singleton blocks block ih =>
      rw [List.map_append, List.sum_append, ih, List.length_append, List.length_singleton,
        Finset.sum_range_succ]
      congr 1
      · apply Finset.sum_congr rfl
        intro p hp
        rw [List.getElem?_append_left (Finset.mem_range.mp hp)]
      · simp

/-- Distinct blocks do not share memory: together they are no larger than the
whole heap. -/
theorem sum_blockSize_le_total (heap : Heap) {ps : List Ptr} (hnodup : ps.Nodup) :
    (ps.map heap.blockSize).sum ≤ heap.total := by
  rw [total_eq_sum_blockSize, ← List.sum_toFinset _ hnodup]
  have hoff : ∀ p ∈ ps.toFinset, p ∉ ps.toFinset ∩ Finset.range heap.blocks.length →
      heap.blockSize p = 0 := by
    intro p hp hnot
    have hge : heap.blocks.length ≤ p := by
      by_contra hlt
      exact hnot (Finset.mem_inter.mpr ⟨hp, Finset.mem_range.mpr (Nat.lt_of_not_le hlt)⟩)
    simp [blockSize, block?, List.getElem?_eq_none hge]
  rw [← Finset.sum_subset Finset.inter_subset_left hoff]
  exact Finset.sum_le_sum_of_subset Finset.inter_subset_right

end Heap

end CSem
