import Aesd.Foundation.Handles
import Mathlib.Data.Nat.Find

/-! # A table of open descriptors

A descriptor that is open refers to a file, and a call that opens one takes the
lowest that is not open. What threads that keep to descriptors of their own do to
the table leaves alone what was open before.
-/

namespace FileTable

open Transition Handles

/-- What the descriptors refer to. Only finitely many are open. -/
structure Table (α : Type) where
  file : Nat → Option α
  bounded : ∃ bound, ∀ fd, bound ≤ fd → file fd = none

namespace Table

variable {α : Type} {t t' : Table α} {fd other : Nat} {x : α}

@[ext] theorem ext (hfile : ∀ fd, t.file fd = t'.file fd) : t = t' := by
  cases t
  cases t'
  congr
  funext fd
  apply hfile

def isOpen (t : Table α) (fd : Nat) : Bool := (t.file fd).isSome

theorem isOpen_eq_false_iff : t.isOpen fd = false ↔ t.file fd = none := by
  rw [isOpen, Option.isSome_eq_false_iff, Option.isNone_iff_eq_none]

theorem exists_closed (t : Table α) : ∃ fd, t.isOpen fd = false := by
  obtain ⟨bound, hbound⟩ := t.bounded
  exact ⟨bound, isOpen_eq_false_iff.mpr (hbound bound (Nat.le_refl bound))⟩

/-- The descriptor that is given out next. -/
def lowest (t : Table α) : Nat := Nat.find t.exists_closed

theorem isOpen_lowest (t : Table α) : t.isOpen t.lowest = false := Nat.find_spec t.exists_closed

/-- All below the first `n` descriptors are open, so another one is given out. -/
theorem le_lowest {n : Nat} (hopen : ∀ fd < n, t.isOpen fd = true) : n ≤ t.lowest := by
  by_contra hlt
  have hlowest := hopen t.lowest (Nat.lt_of_not_le hlt)
  rw [isOpen_lowest] at hlowest
  cases hlowest

theorem lowest_eq (hclosed : t.isOpen fd = false) (hopen : ∀ below < fd, t.isOpen below = true) :
    t.lowest = fd :=
  Nat.le_antisymm (Nat.find_le hclosed) (le_lowest hopen)

theorem lowest_le (hclosed : t.isOpen fd = false) : t.lowest ≤ fd := Nat.find_le hclosed

/-- Let a descriptor refer to a file. -/
def put (t : Table α) (fd : Nat) (x : α) : Table α where
  file := Function.update t.file fd (some x)
  bounded := by
    obtain ⟨bound, hbound⟩ := t.bounded
    refine ⟨max bound (fd + 1), fun above hle => ?_⟩
    rw [Function.update_of_ne (by omega)]
    exact hbound above (Nat.le_trans (Nat.le_max_left _ _) hle)

def close (t : Table α) (fd : Nat) : Table α where
  file := Function.update t.file fd none
  bounded := by
    obtain ⟨bound, hbound⟩ := t.bounded
    refine ⟨bound, fun above hle => ?_⟩
    rcases eq_or_ne above fd with rfl | hne
    · rw [Function.update_self]
    · rw [Function.update_of_ne hne]
      exact hbound above hle

/-- `dup`: the copy is the lowest descriptor that is not open. -/
def dup (t : Table α) (fd : Nat) : Option (Table α × Nat) :=
  (t.file fd).map fun x => (t.put t.lowest x, t.lowest)

/-- `dup2`: what the new descriptor referred to is closed. -/
def dup2 (t : Table α) (old new : Nat) : Option (Table α) := (t.file old).map (t.put new)

@[simp] theorem file_put_self (t : Table α) (fd : Nat) (x : α) : (t.put fd x).file fd = some x :=
  Function.update_self ..

theorem file_put_of_ne (t : Table α) (x : α) (hne : other ≠ fd) :
    (t.put fd x).file other = t.file other :=
  Function.update_of_ne hne ..

@[simp] theorem file_close_self (t : Table α) (fd : Nat) : (t.close fd).file fd = none :=
  Function.update_self ..

theorem file_close_of_ne (t : Table α) (hne : other ≠ fd) :
    (t.close fd).file other = t.file other :=
  Function.update_of_ne hne ..

theorem isOpen_put (t : Table α) (fd : Nat) (x : α) :
    (t.put fd x).isOpen = Function.update t.isOpen fd true := by
  funext other
  rcases eq_or_ne other fd with rfl | hne
  · rw [Function.update_self, isOpen, file_put_self]
    rfl
  · rw [Function.update_of_ne hne, isOpen, file_put_of_ne t x hne]
    rfl

theorem isOpen_close (t : Table α) (fd : Nat) :
    (t.close fd).isOpen = Function.update t.isOpen fd false := by
  funext other
  rcases eq_or_ne other fd with rfl | hne
  · rw [Function.update_self, isOpen, file_close_self]
    rfl
  · rw [Function.update_of_ne hne, isOpen, file_close_of_ne t hne]
    rfl

/-! ### Closing the first descriptors and opening them again -/

/-- Of the first `n` descriptors, that were closed, the first `k` refer to a file again. -/
def Refilled (t : Table α) (n : Nat) (x : α) (k : Nat) (t' : Table α) : Prop :=
  ∀ fd, t'.file fd = if fd < k then some x else if fd < n then none else t.file fd

theorem refilled_zero (t : Table α) (n : Nat) (x : α) :
    t.Refilled n x 0 ((List.range n).foldl close t) := by
  intro fd
  rw [if_neg (Nat.not_lt_zero fd)]
  induction n with
  | zero => rfl
  | succ n ih =>
      rw [List.range_succ, List.foldl_append, List.foldl_cons, List.foldl_nil]
      rcases eq_or_ne fd n with rfl | hne
      · rw [file_close_self, if_pos (Nat.lt_succ_self fd)]
      · rw [file_close_of_ne _ hne, ih]
        exact if_congr (by omega) rfl rfl

variable {n k : Nat}

theorem Refilled.lowest_eq (h : t.Refilled n x k t') (hlt : k < n) : t'.lowest = k := by
  apply Table.lowest_eq
  · rw [isOpen_eq_false_iff, h k, if_neg (Nat.lt_irrefl k), if_pos hlt]
  · intro below hbelow
    rw [isOpen, h below, if_pos hbelow]
    rfl

/-- The next descriptor that is opened is the next one of those. -/
theorem Refilled.put (h : t.Refilled n x k t') (hlt : k < n) :
    t.Refilled n x (k + 1) (t'.put t'.lowest x) := by
  intro fd
  rw [h.lowest_eq hlt]
  rcases eq_or_ne fd k with rfl | hne
  · rw [file_put_self, if_pos (Nat.lt_succ_self fd)]
  · rw [file_put_of_ne _ _ hne, h fd]
    exact if_congr (by omega) rfl rfl

theorem Refilled.dup_zero (h : t.Refilled n x k t') (hpos : 0 < k) :
    t'.dup 0 = some (t'.put t'.lowest x, t'.lowest) := by
  rw [dup, h 0, if_pos hpos]
  rfl

end Table

/-! ## Threads that share a table -/

section

variable {α τ : Type}

/-- One act of one thread. -/
inductive Step : Table α → τ × Handles.Act Nat → Table α → Prop
  | opened {t : Table α} {thread : τ} (x : α) :
      Step t (thread, .opened t.lowest) (t.put t.lowest x)
  | used {t : Table α} {thread : τ} (fd : Nat) : Step t (thread, .used fd) t
  | closed {t : Table α} {thread : τ} (fd : Nat) : Step t (thread, .closed fd) (t.close fd)

variable {t t' : Table α} {thread : τ} {events : List (τ × Handles.Act Nat)} {fd : Nat}

theorem Step.of_lowest (hlowest : t.lowest = fd) (thread : τ) (x : α) :
    Step t (thread, .opened fd) (t.put fd x) := by
  subst hlowest
  exact .opened x

theorem Step.isOpen {event : τ × Handles.Act Nat} (hstep : Step t event t') :
    Handles.Step t.isOpen event t'.isOpen := by
  cases hstep with
  | opened x =>
      rw [Table.isOpen_put]
      exact .opened _ t.isOpen_lowest
  | used fd => exact .used fd
  | closed fd =>
      rw [Table.isOpen_close]
      exact .closed fd

/-- A descriptor that is opened first is the lowest one. -/
theorem lowest_of_opened_first (hrun : Run Step t ((thread, .opened fd) :: events) t') :
    fd = t.lowest := by
  obtain ⟨middle, hfirst⟩ := hrun.exists_first
  cases hfirst
  rfl

/-- Which descriptors are open runs along. -/
theorem run_isOpen (hrun : Run Step t events t') : Run Handles.Step t.isOpen events t'.isOpen := by
  induction hrun with
  | nil => exact .nil _
  | snoc _ last ih => exact .snoc ih last.isOpen

variable [DecidableEq τ]

/-- Each thread keeps to the descriptors that it has opened. -/
def KeepToTheirOwn (events : List (τ × Handles.Act Nat)) : Prop :=
  ∀ thread, ∃ held, after [] (actsOf thread events) = some held

theorem KeepToTheirOwn.front {event : τ × Handles.Act Nat}
    (h : KeepToTheirOwn (events ++ [event])) : KeepToTheirOwn events := by
  intro thread
  obtain ⟨held, hheld⟩ := h thread
  have hfront : actsOf thread events <+: actsOf thread (events ++ [event]) := by
    rw [actsOf, actsOf, List.filter_append, List.map_append]
    exact List.prefix_append _ _
  exact after_of_isPrefix hfront hheld

/-- A thread closes only what it holds. -/
theorem KeepToTheirOwn.mem_of_closed (h : KeepToTheirOwn (events ++ [(thread, .closed fd)]))
    {held : τ → List Nat} (hheld : ∀ thread, after [] (actsOf thread events) = some (held thread)) :
    fd ∈ held thread := by
  obtain ⟨now, hnow⟩ := h thread
  rw [actsOf_concat_self, after_concat, hheld thread, Option.bind_some] at hnow
  exact mem_of_hold hnow rfl

/-- What was open before the threads began is not closed, and refers to the same
file for ever. -/
theorem file_eq_of_run (hrun : Run Step t events t') (hown : KeepToTheirOwn events)
    (hopen : t.isOpen fd = true) : t'.file fd = t.file fd := by
  induction hrun with
  | nil => rfl
  | @snoc middle t' events event front last ih =>
      have hmiddle := ih hown.front
      choose held hheld using hown.front
      have hexclusive := exclusive_of_run (run_isOpen front) (exclusive_nil t.isOpen) hheld
      rw [← hmiddle]
      cases last with
      | opened x =>
          apply Table.file_put_of_ne
          rintro rfl
          have hclosed := Table.isOpen_eq_false_iff.mp middle.isOpen_lowest
          rw [Table.isOpen, ← hmiddle, hclosed] at hopen
          cases hopen
      | used => rfl
      | @closed thread other =>
          apply Table.file_close_of_ne
          rintro rfl
          exact hexclusive.outside_notMem thread fd hopen (hown.mem_of_closed hheld)

/-- The threads are given only descriptors above those that were all open. -/
theorem le_of_opened {n : Nat} (hrun : Run Step t events t') (hown : KeepToTheirOwn events)
    (hopen : ∀ fd < n, t.isOpen fd = true) (hmem : (thread, .opened fd) ∈ events) : n ≤ fd := by
  induction hrun with
  | nil => cases hmem
  | @snoc middle t' events event front last ih =>
      rcases List.mem_append.mp hmem with hmem | hmem
      · exact ih hown.front hmem
      · cases List.mem_singleton.mp hmem
        cases last with
        | opened x =>
            apply Table.le_lowest
            intro below hlt
            rw [Table.isOpen, file_eq_of_run front hown.front (hopen below hlt)]
            exact hopen below hlt

end

end FileTable
