import Aesd.Foundation.DoublyLinked
import Aesd.Foundation.Run
import Aesd.Queue.DoublyLinkedList

/-!
# The list refines a double-ended queue

`Linked` and `Represents` relate a list in memory to its nodes and their thread
ids. Every operation at an end keeps them, so that any sequence of calls is one of
calls of a double-ended queue.
-/

namespace Aesd

open CSem DoublyLinked Transition

namespace ListState

/-- The list consists of these nodes with these thread ids, from head to tail. -/
structure Linked (s : ListState) (items : List (Ptr × Tid)) : Prop where
  nodup : (items.map Prod.fst).Nodup
  segment : Segment Node.mk s.nodes none items none
  head_eq : s.self.head = first items none
  tail_eq : s.self.tail = last none items
  size_eq : s.self.size = items.length

/-- The list consists of these nodes with these thread ids, from head to tail,
and no other node is live. -/
structure Represents (s : ListState) (items : List (Ptr × Tid)) : Prop where
  nodup : (items.map Prod.fst).Nodup
  segment : Segment Node.mk s.nodes none items none
  head_eq : s.self.head = first items none
  tail_eq : s.self.tail = last none items
  size_eq : s.self.size = items.length
  within : s.nodes.Within (items.map Prod.fst)

/-- A new node that is not linked yet. -/
abbrev withNode (s : ListState) (p : Ptr) (tid : Tid) : ListState :=
  { s with nodes := Function.update s.nodes p (some ⟨tid, none, none⟩) }

/-- The nodes of a list become others: what is taken out is released, and no node
outside the list changes. -/
structure Becomes (s : ListState) (items : List (Ptr × Tid)) (s' : ListState)
    (items' : List (Ptr × Tid)) : Prop where
  linked : s'.Linked items'
  released : ∀ p ∈ items.map Prod.fst, p ∉ items'.map Prod.fst → s'.nodes p = none
  others : s.nodes.SameOutside (items.map Prod.fst ++ items'.map Prod.fst) s'.nodes

theorem initialize_represents : doublyLinkedListInitialize.Represents [] where
  nodup := List.nodup_nil
  segment := trivial
  head_eq := rfl
  tail_eq := rfl
  size_eq := rfl
  within := fun _ _ => rfl

namespace Represents

variable {s s' : ListState} {items items' : List (Ptr × Tid)}

theorem linked (h : s.Represents items) : s.Linked items :=
  ⟨h.nodup, h.segment, h.head_eq, h.tail_eq, h.size_eq⟩

theorem becomes (h : s.Represents items) (h' : s.Becomes items s' items') :
    s'.Represents items' := by
  obtain ⟨⟨hnodup, hsegment, hhead, htail, hsize⟩, hreleased, hothers⟩ := h'
  refine ⟨hnodup, hsegment, hhead, htail, hsize, ?_⟩
  intro p hp
  by_cases hold : p ∈ items.map Prod.fst
  · exact hreleased p hold hp
  · rw [hothers p (by simp only [List.mem_append, not_or]; exact ⟨hold, hp⟩)]
    exact h.within p hold

end Represents

namespace Linked

variable {s s' : ListState} {items items' : List (Ptr × Tid)} {p : Ptr} {tid : Tid}
  {item : Ptr × Tid}

theorem notMem_of_fresh (h : s.Linked items) (hfresh : s.nodes p = none) :
    p ∉ items.map Prod.fst := by
  intro hmem
  obtain ⟨node, hlive⟩ := h.segment.live hmem
  rw [hfresh] at hlive
  cases hlive

theorem isEmpty_eq (h : s.Linked items) : s.self.isEmpty = items.isEmpty := by
  unfold DoublyLinkedList.isEmpty
  rw [h.size_eq]
  cases items with
  | nil => rfl
  | cons item items => rfl

theorem isEmpty_concat (h : s.Linked (items ++ [item])) : s.self.isEmpty = false := by
  rw [h.isEmpty_eq]
  cases items with
  | nil => rfl
  | cons front items => rfl

theorem tail_concat (h : s.Linked (items ++ [item])) : s.self.tail = some item.1 := by
  rw [h.tail_eq, last_concat]

theorem nodup_concat : ((items ++ [item]).map Prod.fst).Nodup ↔
    item.1 ∉ items.map Prod.fst ∧ (items.map Prod.fst).Nodup := by
  rw [List.map_append, List.map_singleton, ← List.concat_eq_append, List.nodup_concat]

/-- Nodes may be added to a list, and its own nodes changed. -/
theorem grows (h' : s'.Linked items') (hsub : items.map Prod.fst ⊆ items'.map Prod.fst)
    (hothers : s.nodes.SameOutside (items'.map Prod.fst) s'.nodes) :
    s.Becomes items s' items' where
  linked := h'
  released := fun _ hold hnew => absurd (hsub hold) hnew
  others := fun r hr => hothers r fun hmem => hr (List.mem_append_right _ hmem)

/-- One node is taken out and released. -/
theorem shrinks (h' : s'.Linked items')
    (hrest : ∀ r ∈ items.map Prod.fst, r = p ∨ r ∈ items'.map Prod.fst)
    (hgone : s'.nodes p = none) (hothers : s.nodes.SameOutside (items.map Prod.fst) s'.nodes) :
    s.Becomes items s' items' where
  linked := h'
  released := by
    intro r hold hnew
    rcases hrest r hold with rfl | hmem
    · exact hgone
    · exact absurd hmem hnew
  others := fun r hr => hothers r fun hmem => hr (List.mem_append_left _ hmem)

/-! ## Insertion -/

/-- A new node that is not linked yet. -/
theorem nodeSet_nodeNew (nodes : Objects Node) (p : Ptr) (tid : Tid) :
    nodeSet (nodeNew nodes (some p)).1 (some p) tid =
      .ok (Function.update nodes p (some ⟨tid, none, none⟩)) := by
  have hnew : Function.update nodes p (some (⟨0, none, none⟩ : Node)) p = some ⟨0, none, none⟩ :=
    Function.update_self ..
  simp only [nodeSet, nodeNew, Objects.alloc, Objects.modify_eq hnew, Function.update_idem]

theorem insertNodeWhenEmpty (h : s.Linked []) (p : Ptr) (tid : Tid) :
    ∃ s', doublyLinkedListInsertNodeWhenEmpty (s.withNode p tid) (some p) =
      .ok s' ∧
      s.Becomes [] s' [(p, tid)] := by
  refine ⟨⟨Function.update s.nodes p (some ⟨tid, none, none⟩), ⟨some p, some p, 1⟩⟩, ?_, ?_⟩
  · simp only [doublyLinkedListInsertNodeWhenEmpty, h.isEmpty_eq, List.isEmpty_nil,
      Exec.assert_true, Exec.ok_bind]
  · have hlinked : Linked ⟨Function.update s.nodes p (some ⟨tid, none, none⟩),
        ⟨some p, some p, 1⟩⟩ [(p, tid)] :=
      { nodup := List.nodup_singleton _
        segment := ⟨Function.update_self .., trivial⟩
        head_eq := rfl
        tail_eq := rfl
        size_eq := rfl }
    exact hlinked.grows (List.nil_subset _) ((Objects.SameOutside.refl _ _).update
      List.mem_cons_self _)

theorem insertNodeInHead (h : s.Linked (item :: items)) (hfresh : s.nodes p = none)
    (tid : Tid) :
    ∃ s', doublyLinkedListInsertNodeInHead (s.withNode p tid) (some p) =
      .ok s' ∧
      s.Becomes (item :: items) s' ((p, tid) :: item :: items) := by
  have hnot := h.notMem_of_fresh hfresh
  have hne : item.1 ≠ p := fun heq => hnot (heq ▸ List.mem_cons_self)
  have hnodup : (((p, tid) :: item :: items).map Prod.fst).Nodup :=
    List.nodup_cons.mpr ⟨hnot, h.nodup⟩
  -- the new node points on to the old head, and the old head back to it
  refine ⟨⟨Function.update (Function.update s.nodes p (some ⟨tid, some item.1, none⟩)) item.1
    (some ⟨item.2, first items none, some p⟩), ⟨some p, s.self.tail, s.self.size + 1⟩⟩, ?_, ?_⟩
  · have hnew : Function.update s.nodes p (some (⟨tid, none, none⟩ : Node)) p =
        some ⟨tid, none, none⟩ := Function.update_self ..
    have hold : Function.update s.nodes p (some (⟨tid, some item.1, none⟩ : Node)) item.1 =
        some ⟨item.2, first items none, none⟩ := by
      rw [Function.update_of_ne hne]
      exact h.segment.1
    have hhead : s.self.head = some item.1 := h.head_eq
    simp only [doublyLinkedListInsertNodeInHead, h.isEmpty_eq, List.isEmpty_cons, Bool.not_false,
      Exec.assert_true, Exec.ok_bind, hhead, nodeLinkNext, nodeLinkPrev, Objects.modify_eq hnew,
      Function.update_idem, Objects.modify_eq hold]
  · refine grows ⟨hnodup, h.segment.push_first hnodup, rfl, h.tail_eq,
      congrArg Nat.succ h.size_eq⟩ (List.subset_cons_self _ _) ?_
    exact ((Objects.SameOutside.refl _ _).update List.mem_cons_self _).update
      (List.mem_cons_of_mem _ List.mem_cons_self) _

theorem insertNodeInTail (h : s.Linked (items ++ [item])) (hfresh : s.nodes p = none)
    (tid : Tid) :
    ∃ s', doublyLinkedListInsertNodeInTail (s.withNode p tid) (some p) =
      .ok s' ∧
      s.Becomes (items ++ [item]) s' (items ++ [item] ++ [(p, tid)]) := by
  have hnot := h.notMem_of_fresh hfresh
  have hmem : item.1 ∈ (items ++ [item]).map Prod.fst := by simp
  have hne : item.1 ≠ p := fun heq => hnot (heq ▸ hmem)
  have hnodup : ((items ++ [item] ++ [(p, tid)]).map Prod.fst).Nodup :=
    nodup_concat.mpr ⟨hnot, h.nodup⟩
  -- the new node points back to the old tail, and the old tail on to it
  refine ⟨⟨Function.update (Function.update s.nodes p (some ⟨tid, none, some item.1⟩)) item.1
    (some ⟨item.2, some p, last none items⟩), ⟨s.self.head, some p, s.self.size + 1⟩⟩, ?_, ?_⟩
  · have hnew : Function.update s.nodes p (some (⟨tid, none, none⟩ : Node)) p =
        some ⟨tid, none, none⟩ := Function.update_self ..
    have hold : Function.update s.nodes p (some (⟨tid, none, some item.1⟩ : Node)) item.1 =
        some ⟨item.2, none, last none items⟩ := by
      rw [Function.update_of_ne hne]
      exact (segment_concat.mp h.segment).2
    have hempty : s.self.isEmpty = false := h.isEmpty_concat
    simp only [doublyLinkedListInsertNodeInTail, hempty, Bool.not_false,
      Exec.assert_true, Exec.ok_bind, h.tail_concat, nodeLinkNext, nodeLinkPrev, Objects.modify_eq hnew,
      Function.update_idem, Objects.modify_eq hold]
  · have hsub : (items ++ [item]).map Prod.fst ⊆ (items ++ [item] ++ [(p, tid)]).map Prod.fst :=
      List.map_subset _ (List.subset_append_left _ _)
    refine grows ?_ hsub (((Objects.SameOutside.refl _ _).update (by simp) _).update
      (hsub hmem) _)
    exact
      { nodup := hnodup
        segment := h.segment.push_last hnodup
        head_eq := by rw [first_concat_append, h.head_eq]
        tail_eq := by rw [last_concat]
        size_eq := by simp [h.size_eq] }

/-- A new node becomes the head. -/
theorem insertHead (h : s.Linked items) (hfresh : s.nodes p = none) (tid : Tid) :
    ∃ s', doublyLinkedListInsertHead s tid (some p) = .ok (s', true) ∧
      s.Becomes items s' ((p, tid) :: items) := by
  unfold doublyLinkedListInsertHead
  have hnew := nodeSet_nodeNew s.nodes p tid
  cases items with
  | nil =>
      obtain ⟨s', hinsert, h'⟩ := h.insertNodeWhenEmpty p tid
      refine ⟨s', ?_, h'⟩
      simp only [nodeNew] at hnew
      simp only [nodeNew, Option.isNone_some, Bool.false_eq_true, if_false, hnew, Exec.ok_bind,
        h.isEmpty_eq, List.isEmpty_nil, if_true, hinsert]
  | cons item items =>
      obtain ⟨s', hinsert, h'⟩ := h.insertNodeInHead hfresh tid
      refine ⟨s', ?_, h'⟩
      simp only [nodeNew] at hnew
      simp only [nodeNew, Option.isNone_some, Bool.false_eq_true, if_false, hnew, Exec.ok_bind,
        h.isEmpty_eq, List.isEmpty_cons, hinsert]

/-- A new node becomes the tail. -/
theorem insertTail (h : s.Linked items) (hfresh : s.nodes p = none) (tid : Tid) :
    ∃ s', doublyLinkedListInsertTail s tid (some p) = .ok (s', true) ∧
      s.Becomes items s' (items ++ [(p, tid)]) := by
  unfold doublyLinkedListInsertTail
  have hnew := nodeSet_nodeNew s.nodes p tid
  cases items using List.reverseRecOn with
  | nil =>
      obtain ⟨s', hinsert, h'⟩ := h.insertNodeWhenEmpty p tid
      refine ⟨s', ?_, h'⟩
      simp only [nodeNew] at hnew
      simp only [nodeNew, Option.isNone_some, Bool.false_eq_true, if_false, hnew, Exec.ok_bind,
        h.isEmpty_eq, List.isEmpty_nil, if_true, hinsert]
  | append_singleton items item =>
      obtain ⟨s', hinsert, h'⟩ := h.insertNodeInTail hfresh tid
      refine ⟨s', ?_, h'⟩
      have hempty : s.self.isEmpty = false := h.isEmpty_concat
      simp only [nodeNew] at hnew
      simp only [nodeNew, Option.isNone_some, Bool.false_eq_true, if_false, hnew, Exec.ok_bind,
        hempty, hinsert]

/-! ## Removal -/

/-- An unlinked node is read and released. -/
theorem destroyRemoved_eq {nodes : Objects Node} {next prev : Option Ptr}
    (hlive : nodes p = some ⟨tid, next, prev⟩) (self : DoublyLinkedList) :
    destroyRemoved ⟨nodes, self⟩ (some p) = .ok (⟨Function.update nodes p none, self⟩, tid) := by
  simp only [destroyRemoved, nodeGet, nodeDestroy, Objects.load_eq hlive, Exec.ok_bind,
    Objects.free_eq hlive]

theorem removeLastNode (h : s.Linked [item]) :
    ∃ middle, doublyLinkedListRemoveLastNode s = .ok (middle, some item.1) ∧
      ∃ s', destroyRemoved middle (some item.1) = .ok (s', item.2) ∧ s.Becomes [item] s' [] := by
  have hsize : s.self.size = 1 := h.size_eq
  have hhead : s.self.head = some item.1 := h.head_eq
  have hlive : s.nodes item.1 = some ⟨item.2, none, none⟩ := h.segment.1
  refine ⟨{ s with self := ⟨none, none, 0⟩ }, ?_, _, destroyRemoved_eq hlive _, ?_⟩
  · simp only [doublyLinkedListRemoveLastNode, hsize, beq_self_eq_true, Exec.assert_true,
      Exec.ok_bind, hhead]
  · exact shrinks ⟨List.nodup_nil, trivial, rfl, rfl, rfl⟩
      (fun r hr => Or.inl (List.mem_singleton.mp hr)) (Function.update_self ..)
      ((Objects.SameOutside.refl _ _).update List.mem_cons_self _)

theorem removeHeadNode {old : Ptr × Tid} (h : s.Linked (old :: item :: items)) :
    ∃ middle, doublyLinkedListRemoveHeadNode s = .ok (middle, some old.1) ∧
      ∃ s', destroyRemoved middle (some old.1) = .ok (s', old.2) ∧
        s.Becomes (old :: item :: items) s' (item :: items) := by
  have hsize : s.self.size = items.length + 2 := h.size_eq
  have hhead : s.self.head = some old.1 := h.head_eq
  obtain ⟨hold, hitem, _⟩ := h.segment
  have hne : old.1 ≠ item.1 := fun heq =>
    (List.nodup_cons.mp h.nodup).1 (heq ▸ List.mem_cons_self)
  refine ⟨⟨Function.update s.nodes item.1 (some ⟨item.2, first items none, none⟩),
    ⟨some item.1, s.self.tail, s.self.size - 1⟩⟩, ?_, ?_⟩
  · have hmore : decide (1 < s.self.size) = true := decide_eq_true (by omega)
    simp only [doublyLinkedListRemoveHeadNode, hmore, Exec.assert_true, Exec.ok_bind, hhead,
      nodeNext, Objects.load_eq hold, nodeUnlinkPrev, first, Objects.modify_eq hitem]
  · refine ⟨_, destroyRemoved_eq ((Function.update_of_ne hne ..).trans hold) _, ?_⟩
    refine shrinks ?_ (fun r hr => List.mem_cons.mp hr) (Function.update_self ..)
      (((Objects.SameOutside.refl _ _).update (List.mem_cons_of_mem _ List.mem_cons_self) _).update
        List.mem_cons_self _)
    exact
      { nodup := (List.nodup_cons.mp h.nodup).2
        segment := h.segment.pop_first h.nodup
        head_eq := rfl
        tail_eq := h.tail_eq
        size_eq := by rw [List.length_cons, hsize]; rfl }

theorem removeTailNode {old : Ptr × Tid} (h : s.Linked (items ++ [item] ++ [old])) :
    ∃ middle, doublyLinkedListRemoveTailNode s = .ok (middle, some old.1) ∧
      ∃ s', destroyRemoved middle (some old.1) = .ok (s', old.2) ∧
        s.Becomes (items ++ [item] ++ [old]) s' (items ++ [item]) := by
  have hsize : s.self.size = items.length + 2 := by simp [h.size_eq]
  have htail : s.self.tail = some old.1 := h.tail_concat
  obtain ⟨hfront, hold⟩ := segment_concat.mp h.segment
  have hitem := (segment_concat.mp hfront).2
  have hback : last none (items ++ [item]) = some item.1 := last_concat none items item
  have hnodup := nodup_concat.mp h.nodup
  have hmem : item.1 ∈ (items ++ [item]).map Prod.fst := by simp
  have hne : old.1 ≠ item.1 := fun heq => hnodup.1 (heq ▸ hmem)
  refine ⟨⟨Function.update s.nodes item.1 (some ⟨item.2, none, last none items⟩),
    ⟨s.self.head, some item.1, s.self.size - 1⟩⟩, ?_, ?_⟩
  · have hmore : decide (1 < s.self.size) = true := decide_eq_true (by omega)
    simp only [doublyLinkedListRemoveTailNode, hmore, Exec.assert_true, Exec.ok_bind, htail,
      nodePrev, Objects.load_eq hold, nodeUnlinkNext, hback, Objects.modify_eq hitem]
  · refine ⟨_, destroyRemoved_eq ((Function.update_of_ne hne ..).trans hold) _, ?_⟩
    refine shrinks ?_ (fun r hr => ?_) (Function.update_self ..)
      (((Objects.SameOutside.refl _ _).update (by simp) _).update (by simp) _)
    · exact
        { nodup := hnodup.2
          segment := h.segment.pop_last h.nodup
          head_eq := by rw [h.head_eq, first_concat_append]
          tail_eq := hback.symm
          size_eq := by simp [hsize] }
    · rw [List.map_append, List.mem_append] at hr
      exact hr.symm.imp_left List.mem_singleton.mp

/-- The head is removed and its thread id returned. -/
theorem removeHead (h : s.Linked (item :: items)) :
    ∃ s', doublyLinkedListRemoveHead s = .ok (s', item.2) ∧
      s.Becomes (item :: items) s' items := by
  have hempty : s.self.isEmpty = false := h.isEmpty_eq
  have hsize : s.self.size = items.length + 1 := h.size_eq
  unfold doublyLinkedListRemoveHead
  cases items with
  | nil =>
      obtain ⟨middle, hremove, s', hdestroy, h'⟩ := h.removeLastNode
      refine ⟨s', ?_, h'⟩
      simp only [hempty, Bool.not_false, Exec.assert_true, Exec.ok_bind, hsize, List.length_nil,
        Nat.zero_add, if_true, hremove, hdestroy]
  | cons next items =>
      obtain ⟨middle, hremove, s', hdestroy, h'⟩ := h.removeHeadNode
      refine ⟨s', ?_, h'⟩
      have hnot : ¬ s.self.size = 1 := by
        rw [hsize, List.length_cons]
        omega
      simp only [hempty, Bool.not_false, Exec.assert_true, Exec.ok_bind, hnot, if_false, hremove,
        hdestroy]

/-- The tail is removed and its thread id returned. -/
theorem removeTail (h : s.Linked (items ++ [item])) :
    ∃ s', doublyLinkedListRemoveTail s = .ok (s', item.2) ∧
      s.Becomes (items ++ [item]) s' items := by
  have hempty := h.isEmpty_concat
  have hsize : s.self.size = items.length + 1 := by simp [h.size_eq]
  unfold doublyLinkedListRemoveTail
  cases items using List.reverseRecOn with
  | nil =>
      obtain ⟨middle, hremove, s', hdestroy, h'⟩ := h.removeLastNode
      refine ⟨s', ?_, h'⟩
      simp only [hempty, Bool.not_false, Exec.assert_true, Exec.ok_bind, hsize, List.length_nil,
        Nat.zero_add, if_true, hremove, hdestroy]
  | append_singleton items next =>
      obtain ⟨middle, hremove, s', hdestroy, h'⟩ := h.removeTailNode
      refine ⟨s', ?_, h'⟩
      have hnot : ¬ s.self.size = 1 := by
        rw [hsize, List.length_append, List.length_singleton]
        omega
      simp only [hempty, Bool.not_false, Exec.assert_true, Exec.ok_bind, hnot, if_false, hremove,
        hdestroy]

end Linked

end ListState

end Aesd
