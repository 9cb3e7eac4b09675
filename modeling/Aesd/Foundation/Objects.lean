import Aesd.Foundation.Heap
import Mathlib.Logic.Function.Basic

/-! # Memory of typed objects

The live objects of one type by their address. An allocator may hand out any
address that is not live, so addresses of released objects are used again.
-/

namespace CSem

/-- The object at an address, or nothing when no object is live there. -/
abbrev Objects (α : Type) := Ptr → Option α

namespace Objects

variable {α : Type} {objects : Objects α} {p q : Ptr} {a : α}

def empty : Objects α := fun _ => none

/-- A new object at an address. -/
def alloc (objects : Objects α) (p : Ptr) (a : α) : Objects α := Function.update objects p (some a)

def load (objects : Objects α) : Option Ptr → Exec α
  | none => .error .nullPointer
  | some p =>
      match objects p with
      | none => .error .deadBlock
      | some a => .ok a

/-- Store to fields of an object. -/
def modify (objects : Objects α) (p : Option Ptr) (f : α → α) : Exec (Objects α) :=
  match p with
  | none => .error .nullPointer
  | some p =>
      match objects p with
      | none => .error .deadBlock
      | some a => .ok (Function.update objects p (some (f a)))

def free (objects : Objects α) (p : Ptr) : Exec (Objects α) :=
  match objects p with
  | none => .error .deadBlock
  | some _ => .ok (Function.update objects p none)

/-- No object is live outside these addresses. -/
def Within (objects : Objects α) (ps : List Ptr) : Prop := ∀ p, p ∉ ps → objects p = none

/-- Nothing changes outside these addresses. -/
def SameOutside (ps : List Ptr) (objects objects' : Objects α) : Prop :=
  ∀ p, p ∉ ps → objects' p = objects p

theorem load_eq (h : objects p = some a) : objects.load (some p) = .ok a := by
  simp only [load, h]

theorem modify_eq (h : objects p = some a) (f : α → α) :
    objects.modify (some p) f = .ok (Function.update objects p (some (f a))) := by
  simp only [modify, h]

theorem free_eq (h : objects p = some a) :
    objects.free p = .ok (Function.update objects p none) := by
  simp only [free, h]

theorem SameOutside.refl (ps : List Ptr) (objects : Objects α) : SameOutside ps objects objects :=
  fun _ _ => rfl

theorem SameOutside.update {ps : List Ptr} {objects' : Objects α}
    (h : SameOutside ps objects objects') (hmem : p ∈ ps) (content : Option α) :
    SameOutside ps objects (Function.update objects' p content) := by
  intro r hr
  have hne : r ≠ p := fun heq => hr (heq ▸ hmem)
  rw [Function.update_of_ne hne]
  exact h r hr

end Objects

end CSem
