import Aesd.Foundation.Objects
import Mathlib.Data.List.Basic

/-! # Doubly linked segments

A segment is a list of nodes in memory each of which points to the node after it
and to the node before it. The node type is a parameter: `node` builds a node
from its value, its link onward and its link back.
-/

namespace DoublyLinked

open CSem

variable {α ν : Type}

/-- The address of the first item, or what follows the segment. -/
def first : List (Ptr × α) → Option Ptr → Option Ptr
  | [], after => after
  | item :: _, _ => some item.1

/-- The address of the last item, or what precedes the segment. -/
def last : Option Ptr → List (Ptr × α) → Option Ptr
  | before, [] => before
  | _, item :: items => last (some item.1) items

/-- The items lie in memory, linked in both directions. -/
def Segment (node : α → Option Ptr → Option Ptr → ν) (memory : Objects ν) :
    Option Ptr → List (Ptr × α) → Option Ptr → Prop
  | _, [], _ => True
  | before, item :: items, after =>
      memory item.1 = some (node item.2 (first items after) before) ∧
        Segment node memory (some item.1) items after

/-- Following a link from an address meets these addresses, and then the null
pointer. -/
inductive Visits (link : ν → Option Ptr) (memory : Objects ν) : Option Ptr → List Ptr → Prop
  | nil : Visits link memory none []
  | cons {p : Ptr} {content : ν} {ps : List Ptr} (hlive : memory p = some content)
      (hrest : Visits link memory (link content) ps) : Visits link memory (some p) (p :: ps)

@[simp] theorem first_append (front back : List (Ptr × α)) (after : Option Ptr) :
    first (front ++ back) after = first front (first back after) := by
  cases front with
  | nil => rfl
  | cons item items => rfl

@[simp] theorem last_append (before : Option Ptr) (front back : List (Ptr × α)) :
    last before (front ++ back) = last (last before front) back := by
  induction front generalizing before with
  | nil => rfl
  | cons item items ih => exact ih (some item.1)

theorem last_concat (before : Option Ptr) (items : List (Ptr × α)) (item : Ptr × α) :
    last before (items ++ [item]) = some item.1 := last_append before items [item]

/-- What comes after the first items does not change where they start. -/
theorem first_concat_append (items back : List (Ptr × α)) (item : Ptr × α) (after : Option Ptr) :
    first (items ++ [item] ++ back) after = first (items ++ [item]) after := by
  cases items with
  | nil => rfl
  | cons front items => rfl

theorem last_eq_getLast? (before : Option Ptr) (items : List (Ptr × α)) :
    last before items = ((items.map Prod.fst).getLast?).or before := by
  induction items using List.reverseRecOn with
  | nil => rfl
  | append_singleton items item _ => simp [last]

variable {node : α → Option Ptr → Option Ptr → ν} {memory : Objects ν}
  {before after : Option Ptr} {items : List (Ptr × α)}

theorem segment_append {front back : List (Ptr × α)} :
    Segment node memory before (front ++ back) after ↔
      Segment node memory before front (first back after) ∧
        Segment node memory (last before front) back after := by
  induction front generalizing before with
  | nil => simp [Segment, last]
  | cons item items ih => simp only [List.cons_append, Segment, ih, first_append, last, and_assoc]

theorem segment_concat {item : Ptr × α} :
    Segment node memory before (items ++ [item]) after ↔
      Segment node memory before items (some item.1) ∧
        memory item.1 = some (node item.2 after (last before items)) := by
  rw [segment_append]
  simp [Segment, first]

/-- A store elsewhere does not touch a segment. -/
theorem Segment.update (h : Segment node memory before items after) {p : Ptr}
    (hnot : p ∉ items.map Prod.fst) (content : Option ν) :
    Segment node (Function.update memory p content) before items after := by
  induction items generalizing before with
  | nil => trivial
  | cons item items ih =>
      rw [List.map_cons, List.mem_cons, not_or] at hnot
      exact ⟨by rw [Function.update_of_ne (Ne.symm hnot.1)]; exact h.1, ih h.2 hnot.2⟩

theorem Segment.live (h : Segment node memory before items after) {p : Ptr}
    (hmem : p ∈ items.map Prod.fst) : ∃ content, memory p = some content := by
  induction items generalizing before with
  | nil => cases hmem
  | cons item items ih =>
      rcases List.mem_cons.mp hmem with rfl | hmem
      · exact ⟨_, h.1⟩
      · exact ih h.2 hmem

/-! ## Relinking the ends -/

/-- The first item gets another link back. -/
theorem Segment.relink_first {item : Ptr × α}
    (h : Segment node memory before (item :: items) after)
    (hnodup : ((item :: items).map Prod.fst).Nodup) (back : Option Ptr) :
    Segment node (Function.update memory item.1 (some (node item.2 (first items after) back)))
      back (item :: items) after :=
  ⟨Function.update_self .., h.2.update (List.nodup_cons.mp hnodup).1 _⟩

/-- The last item gets another link onward. -/
theorem Segment.relink_last {item : Ptr × α}
    (h : Segment node memory before (items ++ [item]) after)
    (hnodup : ((items ++ [item]).map Prod.fst).Nodup) (onward : Option Ptr) :
    Segment node (Function.update memory item.1 (some (node item.2 onward (last before items))))
      before (items ++ [item]) onward := by
  rw [List.map_append, List.map_singleton, ← List.concat_eq_append, List.nodup_concat] at hnodup
  exact segment_concat.mpr ⟨(segment_concat.mp h).1.update hnodup.1 _, Function.update_self ..⟩

/-- A new item in front, which the first item is linked back to. -/
theorem Segment.push_first {item new : Ptr × α}
    (h : Segment node memory none (item :: items) after)
    (hnodup : ((new :: item :: items).map Prod.fst).Nodup) :
    Segment node (Function.update
        (Function.update memory new.1 (some (node new.2 (some item.1) none))) item.1
        (some (node item.2 (first items after) (some new.1)))) none
      (new :: item :: items) after := by
  obtain ⟨hnot, hnodup⟩ := List.nodup_cons.mp hnodup
  refine ⟨?_, (h.update hnot _).relink_first hnodup _⟩
  have hne : new.1 ≠ item.1 := fun heq => hnot (heq ▸ List.mem_cons_self)
  rw [Function.update_of_ne hne, Function.update_self]
  rfl

/-- A new item at the end, which the last item is linked onward to. -/
theorem Segment.push_last {item new : Ptr × α}
    (h : Segment node memory before (items ++ [item]) none)
    (hnodup : ((items ++ [item] ++ [new]).map Prod.fst).Nodup) :
    Segment node (Function.update
        (Function.update memory new.1 (some (node new.2 none (some item.1)))) item.1
        (some (node item.2 (some new.1) (last before items)))) before
      (items ++ [item] ++ [new]) none := by
  rw [List.map_append, List.map_singleton, ← List.concat_eq_append, List.nodup_concat] at hnodup
  obtain ⟨hnot, hnodup⟩ := hnodup
  refine segment_concat.mpr ⟨(h.update hnot _).relink_last hnodup _, ?_⟩
  have hne : new.1 ≠ item.1 := fun heq => hnot (by simp [heq])
  rw [Function.update_of_ne hne, Function.update_self, last_append]
  rfl

/-- The first item is taken off. -/
theorem Segment.pop_first {item old : Ptr × α}
    (h : Segment node memory before (old :: item :: items) after)
    (hnodup : ((old :: item :: items).map Prod.fst).Nodup) :
    Segment node (Function.update
        (Function.update memory item.1 (some (node item.2 (first items after) none))) old.1 none)
      none (item :: items) after := by
  obtain ⟨hnot, hnodup⟩ := List.nodup_cons.mp hnodup
  exact (h.2.relink_first hnodup none).update hnot _

/-- The last item is taken off. -/
theorem Segment.pop_last {item old : Ptr × α}
    (h : Segment node memory before (items ++ [item] ++ [old]) after)
    (hnodup : ((items ++ [item] ++ [old]).map Prod.fst).Nodup) :
    Segment node (Function.update
        (Function.update memory item.1 (some (node item.2 none (last before items)))) old.1 none)
      before (items ++ [item]) none := by
  rw [List.map_append, List.map_singleton, ← List.concat_eq_append, List.nodup_concat] at hnodup
  obtain ⟨hnot, hnodup⟩ := hnodup
  exact ((segment_concat.mp h).1.relink_last hnodup none).update hnot _

/-! ## Relinking in the middle -/

/-- A new item between two neighbours, which are both linked to it. -/
theorem Segment.splice {front back : List (Ptr × α)} {left new right : Ptr × α}
    (h : Segment node memory before (front ++ left :: right :: back) after)
    (hnodup : ((front ++ left :: new :: right :: back).map Prod.fst).Nodup) :
    Segment node (Function.update (Function.update
        (Function.update memory new.1 (some (node new.2 (some right.1) (some left.1)))) left.1
        (some (node left.2 (some new.1) (last before front)))) right.1
        (some (node right.2 (first back after) (some new.1)))) before
      (front ++ left :: new :: right :: back) after := by
  rw [List.append_cons] at h hnodup ⊢
  rw [List.map_append, List.nodup_append] at hnodup
  obtain ⟨hleft, hright, hapart⟩ := hnodup
  obtain ⟨hnew, hright⟩ := List.nodup_cons.mp hright
  obtain ⟨hfront, hback⟩ := segment_append.mp h
  have hnotNew : new.1 ∉ (front ++ [left]).map Prod.fst := fun hmem =>
    hapart _ hmem _ List.mem_cons_self rfl
  have hnotRight : right.1 ∉ (front ++ [left]).map Prod.fst := fun hmem =>
    hapart _ hmem _ (List.mem_cons_of_mem _ List.mem_cons_self) rfl
  have hnotLeft : left.1 ∉ (new :: right :: back).map Prod.fst := fun hmem =>
    hapart _ (by simp) _ hmem rfl
  rw [List.map_cons, List.mem_cons, not_or] at hnotLeft
  have hnewRight : new.1 ≠ right.1 := fun heq => hnew (heq ▸ List.mem_cons_self)
  refine segment_append.mpr ⟨?_, ?_, ?_⟩
  · exact ((hfront.update hnotNew _).relink_last hleft _).update hnotRight _
  · rw [Function.update_of_ne hnewRight, Function.update_of_ne (Ne.symm hnotLeft.1),
      Function.update_self, last_concat]
    rfl
  · exact ((hback.update hnew _).update hnotLeft.2 _).relink_first hright _

/-- An item is taken out between its neighbours, which are linked to each other. -/
theorem Segment.cut {front back : List (Ptr × α)} {left old right : Ptr × α}
    (h : Segment node memory before (front ++ left :: old :: right :: back) after)
    (hnodup : ((front ++ left :: old :: right :: back).map Prod.fst).Nodup) :
    Segment node (Function.update (Function.update
        (Function.update memory left.1 (some (node left.2 (some right.1) (last before front))))
        right.1 (some (node right.2 (first back after) (some left.1)))) old.1 none) before
      (front ++ left :: right :: back) after := by
  rw [List.append_cons] at h hnodup ⊢
  rw [List.map_append, List.nodup_append] at hnodup
  obtain ⟨hleft, hright, hapart⟩ := hnodup
  obtain ⟨hold, hright⟩ := List.nodup_cons.mp hright
  obtain ⟨hfront, -, hback⟩ := segment_append.mp h
  have hnotOld : old.1 ∉ (front ++ [left]).map Prod.fst := fun hmem =>
    hapart _ hmem _ List.mem_cons_self rfl
  have hnotRight : right.1 ∉ (front ++ [left]).map Prod.fst := fun hmem =>
    hapart _ hmem _ (List.mem_cons_of_mem _ List.mem_cons_self) rfl
  have hnotLeft : left.1 ∉ (right :: back).map Prod.fst := fun hmem =>
    hapart _ (by simp) _ (List.mem_cons_of_mem _ hmem) rfl
  refine segment_append.mpr ⟨?_, ?_⟩
  · exact ((hfront.relink_last hleft _).update hnotRight _).update hnotOld _
  · rw [last_concat]
    exact ((hback.update hnotLeft _).relink_first hright _).update hold _

/-- An item gets another value. -/
theorem Segment.set {front back : List (Ptr × α)} {item : Ptr × α}
    (h : Segment node memory before (front ++ item :: back) after)
    (hnodup : ((front ++ item :: back).map Prod.fst).Nodup) (value : α) :
    Segment node (Function.update memory item.1
        (some (node value (first back after) (last before front)))) before
      (front ++ (item.1, value) :: back) after := by
  rw [List.map_append, List.nodup_append] at hnodup
  obtain ⟨-, hright, hapart⟩ := hnodup
  obtain ⟨hfront, hback⟩ := segment_append.mp h
  have hnot : item.1 ∉ front.map Prod.fst := fun hmem => hapart _ hmem _ List.mem_cons_self rfl
  exact segment_append.mpr ⟨hfront.update hnot _, Function.update_self ..,
    hback.2.update (List.nodup_cons.mp hright).1 _⟩

/-! ## Following the links -/

/-- Where a segment starts and how long it is determines its items. -/
theorem Segment.unique {items' : List (Ptr × α)} {before' : Option Ptr}
    (hnode : ∀ a onward back a' onward' back', node a onward back = node a' onward' back' →
      a = a' ∧ onward = onward')
    (h : Segment node memory before items after) (h' : Segment node memory before' items' after)
    (hfirst : first items after = first items' after) (hlength : items.length = items'.length) :
    items = items' := by
  induction items generalizing before before' items' with
  | nil => exact (List.length_eq_zero_iff.mp hlength.symm).symm
  | cons item items ih =>
      cases items' with
      | nil => cases hlength
      | cons item' items' =>
          have hptr : item.1 = item'.1 := Option.some.inj hfirst
          have hsame := h.1.symm.trans (hptr ▸ h'.1)
          obtain ⟨hvalue, honward⟩ := hnode _ _ _ _ _ _ (Option.some.inj hsame)
          rw [Prod.ext hptr hvalue, ih h.2 h'.2 honward (Nat.succ.inj hlength)]

/-- Following the links onward from the first item. -/
theorem Segment.visits_next {next : ν → Option Ptr}
    (hnext : ∀ value onward back, next (node value onward back) = onward)
    (h : Segment node memory before items none) :
    Visits next memory (first items none) (items.map Prod.fst) := by
  induction items generalizing before with
  | nil => exact .nil
  | cons item items ih =>
      refine .cons h.1 ?_
      rw [hnext]
      exact ih h.2

/-- Following the links back from the last item. -/
theorem Segment.visits_prev {prev : ν → Option Ptr}
    (hprev : ∀ value onward back, prev (node value onward back) = back)
    (h : Segment node memory none items after) :
    Visits prev memory (last none items) (items.map Prod.fst).reverse := by
  induction items using List.reverseRecOn generalizing after with
  | nil => exact .nil
  | append_singleton items item ih =>
      obtain ⟨hfront, hitem⟩ := segment_concat.mp h
      rw [last_append, List.map_append, List.reverse_append]
      refine .cons hitem ?_
      rw [hprev]
      exact ih hfront

/-- The values that the nodes hold, in order. -/
theorem Segment.values {value : ν → α}
    (hvalue : ∀ a onward back, value (node a onward back) = a)
    (h : Segment node memory before items after) :
    (items.map Prod.fst).map (fun p => (memory p).map value) =
      (items.map Prod.snd).map some := by
  induction items generalizing before with
  | nil => rfl
  | cons item items ih =>
      simp only [List.map_cons, h.1, Option.map_some, hvalue, ih h.2]

end DoublyLinked
