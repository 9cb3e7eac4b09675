import Aesd.Foundation.Heap

/-! # A variable that owns a block

A variable owns its block when this is the only live block beside those of others.
It may be resized, stored to and released; a copy of it that was not kept up to date
is a dangling pointer, or the block leaks.
-/

namespace CSem.Heap

variable {others : Ptr → Prop} {heap heap' : Heap} {p : Option Ptr} {q : Ptr}

/-- The live blocks are some others, and that of the variable. -/
structure Owns (heap : Heap) (others : Ptr → Prop) (p : Option Ptr) : Prop where
  live_iff : ∀ r, (heap.block? r).isSome ↔ p = some r ∨ others r
  apart : ∀ r, p = some r → ¬ others r

/-- The variable is null or points to a live block, and when this is released only
the others are left. -/
def Releasable (heap : Heap) (others : Ptr → Prop) (p : Option Ptr) : Prop :=
  (∀ r, p = some r → (heap.block? r).isSome) ∧
    ∃ released, heap.freeNonNull p = .ok released ∧ ∀ r, (released.block? r).isSome ↔ others r

/-- A null variable owns nothing. -/
theorem owns_none (heap : Heap) : heap.Owns (fun r => (heap.block? r).isSome) none where
  live_iff r := by simp
  apart r heq := by cases heq

namespace Owns

theorem lt_length (h : heap.Owns others (some q)) : q < heap.blocks.length := by
  obtain ⟨cells, hcells⟩ := Option.isSome_iff_exists.mp ((h.live_iff q).mpr (Or.inl rfl))
  exact lt_of_block? hcells

theorem congr (h : heap.Owns others p)
    (hlive : ∀ r, (heap'.block? r).isSome ↔ (heap.block? r).isSome) : heap'.Owns others p where
  live_iff r := (hlive r).trans (h.live_iff r)
  apart := h.apart

/-- Resizing hands the ownership on. -/
theorem realloc (h : heap.Owns others p) {size : Nat} {answer : Resize}
    (hrealloc : heap.realloc p size answer = .ok (heap', some q)) : heap'.Owns others (some q) := by
  rcases realloc_cases hrealloc with ⟨_, rfl, _, hlive⟩ | ⟨_, rfl, _, hlive⟩
  · exact h.congr hlive
  · constructor
    · intro r
      rw [hlive, h.live_iff, Option.some_inj, eq_comm (a := r)]
      constructor
      · rintro (heq | ⟨heq | hother, hne⟩)
        · exact Or.inl heq
        · exact absurd heq hne
        · exact Or.inr hother
      · rintro (heq | hother)
        · exact Or.inl heq
        · exact Or.inr ⟨Or.inr hother, fun heq => h.apart r heq hother⟩
    · -- the new block is none that was live before
      rintro r heq hother
      obtain rfl := Option.some.inj heq
      have hlive := (h.live_iff _).mpr (Or.inr hother)
      rw [block?_fresh] at hlive
      cases hlive

theorem store (h : heap.Owns others p) {q : Option Ptr} {offset : Nat} {bytes : List UInt8}
    (hstore : heap.store q offset bytes = .ok heap') : heap'.Owns others p :=
  h.congr (store_eq_ok hstore).2

theorem free (h : heap.Owns others p) {released : Heap}
    (hfree : heap.freeNonNull p = .ok released) : released.Owns others none where
  live_iff r := by
    rw [or_iff_right (by simp)]
    constructor
    · intro hlive
      obtain ⟨hne, hlive⟩ := live_of_freeNonNull hfree hlive
      exact ((h.live_iff r).mp hlive).resolve_left hne
    · intro hother
      rw [block?_freeNonNull hfree fun heq => h.apart r heq hother]
      exact (h.live_iff r).mpr (Or.inr hother)
  apart r heq := by cases heq

theorem releasable (h : heap.Owns others p) : heap.Releasable others p := by
  have hlive : ∀ r, p = some r → (heap.block? r).isSome := fun r heq =>
    (h.live_iff r).mpr (Or.inl heq)
  obtain ⟨released, hfree⟩ : ∃ released, heap.freeNonNull p = .ok released := by
    cases p with
    | none => exact ⟨heap, rfl⟩
    | some q =>
        obtain ⟨released, hfree, _⟩ := free_spec (hlive q rfl)
        exact ⟨released, hfree⟩
  refine ⟨hlive, released, hfree, fun r => ?_⟩
  rw [(h.free hfree).live_iff, or_iff_right (by simp)]

/-- Another variable is dead unless it is a copy of the owner. -/
theorem releasable_some_iff (h : heap.Owns others p) (hq : ¬ others q) :
    heap.Releasable others (some q) ↔ p = some q := by
  constructor
  · rintro ⟨hlive, _⟩
    exact ((h.live_iff q).mp (hlive q rfl)).resolve_right hq
  · rintro rfl
    exact h.releasable

/-- A null variable loses the block that is owned. -/
theorem releasable_none_iff (h : heap.Owns others p) :
    heap.Releasable others none ↔ p = none := by
  constructor
  · rintro ⟨_, released, hfree, hlive⟩
    cases hfree
    cases p with
    | none => rfl
    | some q => exact absurd ((hlive q).mp ((h.live_iff q).mpr (Or.inl rfl))) (h.apart q rfl)
  · rintro rfl
    exact h.releasable

end Owns

end CSem.Heap
