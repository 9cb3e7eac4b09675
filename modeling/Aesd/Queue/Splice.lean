import Aesd.Queue.Lookup

/-!
# Insertion and removal by position

A node in the middle is spliced in or cut out between its neighbours. Where the
lookup misses the node, or where the wrong routine is chosen, the call ends in a
failed assertion or at a null pointer.
-/

namespace Aesd

open CSem DoublyLinked

namespace ListState

namespace Linked

variable {s : ListState} {items front back : List (Ptr × Tid)} {left right old : Ptr × Tid}
  {p : Ptr} {pos : Nat} {tid : Tid}

/-! ## Removal -/

/-- A node is taken out between its neighbours. -/
theorem cut (h : s.Linked (front ++ left :: old :: right :: back)) :
    s.Becomes (front ++ left :: old :: right :: back)
      ⟨Function.update (Function.update
          (Function.update s.nodes left.1 (some ⟨left.2, some right.1, last none front⟩)) right.1
          (some ⟨right.2, first back none, some left.1⟩)) old.1 none,
        { s.self with size := s.self.size - 1 }⟩
      (front ++ left :: right :: back) := by
  have hsub : ∀ r ∈ [left.1, right.1, old.1],
      r ∈ (front ++ left :: old :: right :: back).map Prod.fst := by simp
  have hlinked : ListState.Linked
      ⟨Function.update (Function.update
          (Function.update s.nodes left.1 (some ⟨left.2, some right.1, last none front⟩)) right.1
          (some ⟨right.2, first back none, some left.1⟩)) old.1 none,
        { s.self with size := s.self.size - 1 }⟩ (front ++ left :: right :: back) :=
    { nodup := h.nodup.sublist (by simp)
      segment := h.segment.cut h.nodup
      head_eq := by
        rw [h.head_eq, first_append, first_append]
        rfl
      tail_eq := by
        rw [h.tail_eq, last_append, last_append]
        rfl
      size_eq := by
        simp only [h.size_eq, List.length_append, List.length_cons]
        omega }
  refine shrinks hlinked ?_ (Function.update_self ..)
    ((((Objects.SameOutside.refl _ _).update (hsub _ (by simp)) _).update (hsub _ (by simp)) _).update
      (hsub _ (by simp)) _)
  intro r hr
  simp only [List.map_append, List.map_cons, List.mem_append, List.mem_cons] at hr ⊢
  tauto

theorem removeMiddleNode (h : s.Linked (front ++ left :: old :: right :: back))
    (hnode : doublyLinkedListGetNode s (front.length + 1) = .ok (some old.1)) :
    ∃ middle, doublyLinkedListRemoveMiddleNode s (front.length + 1) = .ok (middle, some old.1) ∧
      ∃ s', destroyRemoved middle (some old.1) = .ok (s', old.2) ∧
        s.Becomes (front ++ left :: old :: right :: back) s' (front ++ left :: right :: back) := by
  have hsize : s.self.size = front.length + back.length + 3 := by
    rw [h.size_eq]
    simp only [List.length_append, List.length_cons]
    omega
  have hinner : Exec.assert (decide (0 < front.length + 1 ∧ front.length + 1 < s.self.size - 1)) =
      .ok () := Exec.assert_of (by omega)
  have hnodup := (List.nodup_append.mp (List.map_append ▸ h.nodup)).2.1
  simp only [List.map_cons, List.nodup_cons, List.mem_cons, not_or] at hnodup
  obtain ⟨⟨hleftOld, hleftRight, -⟩, ⟨holdRight, -⟩, -⟩ := hnodup
  have hleft := h.live_at
  have hold := h.live_after
  have hright := (List.append_cons .. ▸ h : s.Linked (front ++ [left] ++ _)).live_after
  have hold' : Function.update s.nodes left.1 (some ⟨left.2, some right.1, last none front⟩)
      old.1 = some ⟨old.2, some right.1, some left.1⟩ := by
    rw [Function.update_of_ne (Ne.symm hleftOld)]
    exact hold
  have hright' : Function.update s.nodes left.1 (some ⟨left.2, some right.1, last none front⟩)
      right.1 = some ⟨right.2, first back none, some old.1⟩ := by
    rw [Function.update_of_ne (Ne.symm hleftRight)]
    exact hright
  refine ⟨⟨Function.update (Function.update s.nodes left.1
      (some ⟨left.2, some right.1, last none front⟩)) right.1
      (some ⟨right.2, first back none, some left.1⟩), { s.self with size := s.self.size - 1 }⟩,
    ?_, ?_⟩
  · simp only [doublyLinkedListRemoveMiddleNode, hinner, Exec.ok_bind, hnode, nodePrev, nodeNext,
      Objects.load_eq hold, first, nodeLinkNext, Objects.modify_eq hleft, Objects.load_eq hold',
      nodeLinkPrev, Objects.modify_eq hright']
  · exact ⟨_, destroyRemoved_eq ((Function.update_of_ne holdRight ..).trans hold') _, h.cut⟩

/-- A node that is there leaves only the head and the middle to choose from. -/
theorem isEmpty_of_pos (h : s.Linked items) (hpos : pos < items.length) :
    s.self.isEmpty = false := by
  rw [h.isEmpty_eq, List.isEmpty_eq_false_iff]
  exact List.ne_nil_of_length_pos (Nat.zero_lt_of_lt hpos)

theorem remove_near (h : s.Linked items) (hpos : pos < items.length)
    (hnear : pos < items.length / 2) :
    ∃ s', doublyLinkedListRemove s pos = .ok (s', items[pos].2) ∧
      s.Becomes items s' (items.eraseIdx pos) := by
  have hempty := h.isEmpty_of_pos hpos
  have hassert := h.assert_pos hpos
  have hnode := h.getNode_near hpos (Or.inr hnear)
  obtain ⟨front, old, back, rfl, rfl⟩ := exists_split hpos
  rw [getElem_split] at hnode ⊢
  rw [List.eraseIdx_append_of_length_le (Nat.le_refl _), Nat.sub_self, List.eraseIdx_cons_zero]
  rw [List.length_append, List.length_cons] at hnear
  obtain ⟨right, back, rfl⟩ := List.exists_cons_of_length_pos (l := back) (by omega)
  cases front using List.reverseRecOn with
  | nil =>
      obtain ⟨middle, hremove, s', hdestroy, h'⟩ := removeHeadNode h
      refine ⟨s', ?_, h'⟩
      rw [List.length_nil] at hassert ⊢
      simp only [doublyLinkedListRemove, hassert, Exec.ok_bind, hempty, Bool.false_eq_true,
        if_false, if_true, hremove, hdestroy]
  | append_singleton front left =>
      rw [List.length_append, List.length_singleton] at hnode hassert hpos ⊢
      rw [← List.append_cons] at h ⊢
      rw [← List.append_cons]
      obtain ⟨middle, hremove, s', hdestroy, h'⟩ := h.removeMiddleNode hnode
      refine ⟨s', ?_, h'⟩
      have hsize : ¬ front.length + 1 = s.self.size := by
        rw [h.size_eq, List.append_cons]
        exact Nat.ne_of_lt hpos
      simp only [doublyLinkedListRemove, hassert, Exec.ok_bind, hempty, Bool.false_eq_true,
        if_false, Nat.succ_ne_zero, hsize, hremove, hdestroy]

/-- From the second half on, no removal succeeds. -/
theorem remove_far (h : s.Linked items) (hpos : pos < items.length)
    (hfar : items.length / 2 ≤ pos) :
    ∃ fault, doublyLinkedListRemove s pos = .error fault := by
  have hempty := h.isEmpty_of_pos hpos
  have hassert := h.assert_pos hpos
  have hsize : ¬ pos = s.self.size := h.size_eq ▸ Nat.ne_of_lt hpos
  simp only [doublyLinkedListRemove, hassert, Exec.ok_bind, hempty, Bool.false_eq_true, if_false,
    hsize]
  by_cases hzero : pos = 0
  · -- the only node is taken for one of several
    have hone : decide (1 < s.self.size) = false := by
      rw [h.size_eq]
      exact decide_eq_false (by omega)
    refine ⟨.assertion, ?_⟩
    rw [if_pos hzero]
    simp only [doublyLinkedListRemoveHeadNode, hone]
    rfl
  · rw [if_neg hzero]
    by_cases hlast : pos + 1 = items.length
    · -- the tail is taken for an inner node
      have houter : decide (0 < pos ∧ pos < s.self.size - 1) = false := by
        rw [h.size_eq]
        exact decide_eq_false (by omega)
      refine ⟨.assertion, ?_⟩
      simp only [doublyLinkedListRemoveMiddleNode, houter]
      rfl
    · have hinner : decide (0 < pos ∧ pos < s.self.size - 1) = true := by
        rw [h.size_eq]
        exact decide_eq_true (by omega)
      have hmissing := h.getNode_missing (by omega) (not_or.mpr ⟨hzero, Nat.not_lt.mpr hfar⟩)
      refine ⟨.nullPointer, ?_⟩
      simp only [doublyLinkedListRemoveMiddleNode, hinner, Exec.assert_true, Exec.ok_bind]
      rcases hmissing with hnode | hnode
      · rw [hnode]
        rfl
      · rw [hnode]
        rfl

/-- A node is removed by its position exactly when that is in the first half. -/
theorem remove_iff (h : s.Linked items) (hpos : pos < items.length) :
    (∃ s', doublyLinkedListRemove s pos = .ok (s', items[pos].2) ∧
      s.Becomes items s' (items.eraseIdx pos)) ↔ pos < items.length / 2 := by
  constructor
  · rintro ⟨s', hremove, -⟩
    by_contra hfar
    obtain ⟨fault, hfault⟩ := h.remove_far hpos (Nat.not_lt.mp hfar)
    rw [hremove] at hfault
    cases hfault
  · exact h.remove_near hpos

/-- In the first half of four thread ids. -/
theorem remove_iff_ofFour : ∃ s s' : ListState,
    doublyLinkedListRemove s 1 = .ok (s', 20) ∧ s'.Linked [(0, 10), (2, 30), (3, 40)] := by
  obtain ⟨s, hs⟩ := exists_represents [10, 20, 30, 40]
  have h : s.Linked [(0, 10), (1, 20), (2, 30), (3, 40)] := hs.linked
  have hpos : 1 < [(0, 10), (1, 20), (2, 30), (3, 40)].length := by decide
  obtain ⟨s', hremove, h'⟩ := (h.remove_iff hpos).mpr (by decide)
  exact ⟨s, s', hremove, h'.linked⟩

/-- The only thread id is not removed. -/
theorem remove_only_fails : ∃ s : ListState, s.Linked [(0, 10)] ∧
    doublyLinkedListRemove s 0 = .error .assertion := by
  obtain ⟨s, hs⟩ := exists_represents [10]
  have h : s.Linked [(0, 10)] := hs.linked
  have hpos : 0 < [(0, 10)].length := Nat.one_pos
  have hempty := h.isEmpty_of_pos hpos
  have hsize : s.self.size = 1 := h.size_eq
  refine ⟨s, h, ?_⟩
  simp only [doublyLinkedListRemove, hempty, Bool.false_eq_true, if_false, if_true,
    doublyLinkedListRemoveHeadNode, hsize]
  rfl

/-! ## Insertion -/

/-- A node that is in no list yet. -/
theorem allocated (h : s.Linked items) (hfresh : s.nodes p = none) (tid : Tid) :
    (s.withNode p tid).Linked items :=
  ⟨h.nodup, h.segment.update (h.notMem_of_fresh hfresh) _, h.head_eq, h.tail_eq, h.size_eq⟩

/-- A new node is put in between two neighbours. -/
theorem splice (h : s.Linked (front ++ left :: right :: back)) (hfresh : s.nodes p = none) :
    s.Becomes (front ++ left :: right :: back)
      ⟨Function.update (Function.update
          (Function.update s.nodes p (some ⟨tid, some right.1, some left.1⟩)) left.1
          (some ⟨left.2, some p, last none front⟩)) right.1
          (some ⟨right.2, first back none, some p⟩), { s.self with size := s.self.size + 1 }⟩
      (front ++ left :: (p, tid) :: right :: back) := by
  have hperm : (front ++ left :: (p, tid) :: right :: back).Perm
      ((p, tid) :: (front ++ left :: right :: back)) := by
    rw [List.append_cons front left ((p, tid) :: right :: back),
      List.append_cons front left (right :: back)]
    exact List.perm_middle
  have hptrs := hperm.map Prod.fst
  have hnodup := hptrs.nodup_iff.mpr (List.nodup_cons.mpr ⟨h.notMem_of_fresh hfresh, h.nodup⟩)
  have hsub : ∀ r ∈ [p, left.1, right.1],
      r ∈ (front ++ left :: (p, tid) :: right :: back).map Prod.fst := by simp
  refine grows ?_ (fun r hr => hptrs.mem_iff.mpr (List.mem_cons_of_mem _ hr))
    ((((Objects.SameOutside.refl _ _).update (hsub _ (by simp)) _).update
    (hsub _ (by simp)) _).update (hsub _ (by simp)) _)
  exact
    { nodup := hnodup
      segment := h.segment.splice hnodup
      head_eq := by
        rw [h.head_eq, first_append, first_append]
        rfl
      tail_eq := by
        rw [h.tail_eq, last_append, last_append]
        rfl
      size_eq := by
        simp only [h.size_eq, List.length_append, List.length_cons]
        omega }

theorem insertMiddleNode (h : s.Linked (front ++ left :: right :: back))
    (hfresh : s.nodes p = none)
    (hnode : doublyLinkedListGetNode (s.withNode p tid) (front.length + 1) =
      .ok (some right.1)) :
    ∃ s', doublyLinkedListInsertMiddleNode (s.withNode p tid) (front.length + 1) (some p) =
        .ok s' ∧
      s.Becomes (front ++ left :: right :: back) s'
        (front ++ left :: (p, tid) :: right :: back) := by
  have hsize : s.self.size = front.length + back.length + 2 := by
    rw [h.size_eq]
    simp only [List.length_append, List.length_cons]
    omega
  have hinner : Exec.assert (decide (0 < front.length + 1 ∧ front.length + 1 < s.self.size)) =
      .ok () := Exec.assert_of (by omega)
  have hnot := h.notMem_of_fresh hfresh
  have hne : p ≠ left.1 ∧ p ≠ right.1 := by
    simp only [List.map_append, List.map_cons, List.mem_append, List.mem_cons, not_or] at hnot
    exact ⟨hnot.2.1, hnot.2.2.1⟩
  have hleftRight : left.1 ≠ right.1 := by
    have hback := (List.nodup_append.mp (List.map_append ▸ h.nodup)).2.1
    exact fun heq => (List.nodup_cons.mp hback).1 (heq ▸ List.mem_cons_self)
  refine ⟨_, ?_, h.splice hfresh⟩
  have hnew : Function.update s.nodes p (some (⟨tid, none, none⟩ : Node)) p =
      some ⟨tid, none, none⟩ := Function.update_self ..
  -- the right neighbour is looked up before and after the new node is linked
  have hright (node : Node) : Function.update s.nodes p (some node) right.1 =
      some ⟨right.2, first back none, some left.1⟩ := by
    rw [Function.update_of_ne (Ne.symm hne.2)]
    exact h.live_after
  have hleft (node : Node) : Function.update s.nodes p (some node) left.1 =
      some ⟨left.2, some right.1, last none front⟩ := by
    rw [Function.update_of_ne (Ne.symm hne.1)]
    exact h.live_at
  have hright' (node node' : Node) : Function.update (Function.update s.nodes p (some node))
      left.1 (some node') right.1 = some ⟨right.2, first back none, some left.1⟩ := by
    rw [Function.update_of_ne (Ne.symm hleftRight)]
    exact hright node
  simp only [doublyLinkedListInsertMiddleNode, hinner, Exec.ok_bind, hnode, nodePrev,
    Objects.load_eq (hright _), nodeLinkPrev, Objects.modify_eq hnew, nodeLinkNext,
    Objects.modify_eq (Function.update_self ..), Function.update_idem,
    Objects.modify_eq (hleft _), Objects.modify_eq (hright' _ _)]

theorem insertIdx_split (front back : List (Ptr × Tid)) (item : Ptr × Tid) :
    (front ++ back).insertIdx front.length item = front ++ item :: back := by
  induction front with
  | nil => rfl
  | cons skipped front ih => exact congrArg (List.cons skipped) ih

/-- What the insertion of a new node does, once there is memory for it. -/
theorem insert_some (h : s.Linked items) (hpos : pos ≤ items.length) (p : Ptr) (tid : Tid) :
    doublyLinkedListInsert s pos tid (some p) = (do
      let s ← (if items.isEmpty then
          doublyLinkedListInsertNodeWhenEmpty (s.withNode p tid) (some p)
        else if pos = 0 then doublyLinkedListInsertNodeInHead (s.withNode p tid) (some p)
        else if pos = items.length then
          doublyLinkedListInsertNodeInTail (s.withNode p tid) (some p)
        else doublyLinkedListInsertMiddleNode (s.withNode p tid) pos (some p))
      .ok (s, true)) := by
  have hassert : Exec.assert (decide (pos ≤ s.self.size)) = .ok () :=
    Exec.assert_of (h.size_eq ▸ hpos)
  have hnew := nodeSet_nodeNew s.nodes p tid
  simp only [nodeNew] at hnew
  simp only [doublyLinkedListInsert, hassert, Exec.ok_bind, nodeNew, Option.isNone_some,
    Bool.false_eq_true, if_false, hnew]
  rw [h.isEmpty_eq, h.size_eq]
  split_ifs <;> rfl

theorem insert_near (h : s.Linked items) (hpos : pos ≤ items.length) (hfresh : s.nodes p = none)
    (hnear : pos = 0 ∨ pos = items.length ∨ pos < items.length / 2) (tid : Tid) :
    ∃ s', doublyLinkedListInsert s pos tid (some p) = .ok (s', true) ∧
      s.Becomes items s' (items.insertIdx pos (p, tid)) := by
  rw [h.insert_some hpos]
  by_cases hempty : items = []
  · subst hempty
    obtain rfl := Nat.le_zero.mp hpos
    obtain ⟨s', hinsert, h'⟩ := h.insertNodeWhenEmpty p tid
    exact ⟨s', by simp only [List.isEmpty_nil, if_true, hinsert, Exec.ok_bind], h'⟩
  have hnonempty := List.isEmpty_eq_false_iff.mpr hempty
  by_cases hzero : pos = 0
  · subst hzero
    obtain ⟨item, rest, rfl⟩ := List.exists_cons_of_ne_nil hempty
    obtain ⟨s', hinsert, h'⟩ := h.insertNodeInHead hfresh tid
    exact ⟨s', by simp only [hnonempty, Bool.false_eq_true, if_false, if_true, hinsert,
      Exec.ok_bind], h'⟩
  by_cases hend : pos = items.length
  · subst hend
    obtain ⟨front, item, rfl⟩ : ∃ front item, items = front ++ [item] :=
      ⟨_, _, (List.dropLast_append_getLast hempty).symm⟩
    obtain ⟨s', hinsert, h'⟩ := h.insertNodeInTail hfresh tid
    rw [List.insertIdx_length_self]
    refine ⟨s', ?_, h'⟩
    simp only [hnonempty, Bool.false_eq_true, hzero, if_false, if_true, hinsert, Exec.ok_bind]
  · have hhalf := (hnear.resolve_left hzero).resolve_left hend
    have hbound : pos < items.length := Nat.lt_of_le_of_ne hpos hend
    have hnode := (h.allocated hfresh tid).getNode_near hbound (Or.inr hhalf)
    simp only [hnonempty, Bool.false_eq_true, hzero, hend, if_false]
    obtain ⟨front, right, back, rfl, rfl⟩ := exists_split hbound
    rw [getElem_split] at hnode
    obtain ⟨front, left, rfl⟩ : ∃ front' left, front = front' ++ [left] :=
      ⟨_, _, (List.dropLast_append_getLast (List.ne_nil_of_length_pos
        (Nat.pos_of_ne_zero hzero))).symm⟩
    rw [insertIdx_split]
    rw [List.length_append, List.length_singleton] at hnode ⊢
    rw [← List.append_cons] at h ⊢
    rw [← List.append_cons]
    obtain ⟨s', hinsert, h'⟩ := h.insertMiddleNode hfresh hnode
    exact ⟨s', by simp only [hinsert, Exec.ok_bind], h'⟩

theorem insert_none (h : s.Linked items) (hpos : pos ≤ items.length) (tid : Tid) :
    doublyLinkedListInsert s pos tid none = .ok (s, false) := by
  simp only [doublyLinkedListInsert, h.size_eq, decide_eq_true hpos]
  rfl

/-- A node that the lookup misses is not spliced in front of. -/
theorem insertMiddleNode_far (h : s.Linked items) (hfresh : s.nodes p = none) (hzero : pos ≠ 0)
    (hpos : pos < items.length) (hfar : items.length / 2 ≤ pos) (tid : Tid) :
    doublyLinkedListInsertMiddleNode (s.withNode p tid) pos (some p) = .error .nullPointer := by
  have h' := h.allocated hfresh tid
  have hfar' : ¬ NearHead items.length pos := not_or.mpr ⟨hzero, Nat.not_lt.mpr hfar⟩
  have hinner : decide (0 < pos ∧ pos < s.self.size) = true := by
    rw [h.size_eq]
    exact decide_eq_true ⟨Nat.pos_of_ne_zero hzero, hpos⟩
  simp only [doublyLinkedListInsertMiddleNode, hinner, Exec.assert_true, Exec.ok_bind]
  by_cases hlast : pos + 1 = items.length
  · -- the head is found, and nothing stands before it
    have hnode := h'.getNode_last hlast hfar'
    obtain ⟨item, rest, rfl, hhead, -⟩ := h'.head_live hpos
    rw [hhead] at hnode
    have hne : item.1 ≠ p := by
      intro heq
      exact h.notMem_of_fresh hfresh (heq ▸ List.mem_cons_self)
    have hlive (node : Node) : Function.update s.nodes p (some node) item.1 =
        some ⟨item.2, first rest none, none⟩ := by
      rw [Function.update_of_ne hne]
      exact h.segment.1
    simp only [hnode, Exec.ok_bind, nodePrev, Objects.load_eq (hlive _), nodeLinkPrev,
      Objects.modify_eq (Function.update_self ..), nodeLinkNext, Function.update_idem]
    rfl
  · rcases h'.getNode_missing (by omega) hfar' with hnode | hnode
    · rw [hnode]
      rfl
    · rw [hnode]
      rfl

/-- What an insertion at a position is to do, with the answer of the allocator. -/
def Inserts (s : ListState) (items : List (Ptr × Tid)) (pos : Nat) (tid : Tid) :
    Option Ptr → Prop
  | none => doublyLinkedListInsert s pos tid none = .ok (s, false)
  | some p => ∃ s', doublyLinkedListInsert s pos tid (some p) = .ok (s', true) ∧
      s.Becomes items s' (items.insertIdx pos (p, tid))

/-- An insertion does what it is to do exactly when there is no memory for it, or
when the position is one of the ends or in the first half. -/
theorem insert_iff (h : s.Linked items) (hpos : pos ≤ items.length) (tid : Tid)
    {answer : Option Ptr} (hfresh : ∀ p, answer = some p → s.nodes p = none) :
    Inserts s items pos tid answer ↔
      answer = none ∨ pos = 0 ∨ pos = items.length ∨ pos < items.length / 2 := by
  cases answer with
  | none => exact ⟨fun _ => Or.inl rfl, fun _ => h.insert_none hpos tid⟩
  | some p =>
      rw [or_iff_right (Option.some_ne_none p)]
      refine ⟨?_, fun hnear => h.insert_near hpos (hfresh p rfl) hnear tid⟩
      rintro ⟨s', hinsert, -⟩
      by_contra hfar
      rw [not_or, not_or, Nat.not_lt] at hfar
      obtain ⟨hzero, hend, hhalf⟩ := hfar
      have hmiddle := h.insertMiddleNode_far (hfresh p rfl) hzero
        (Nat.lt_of_le_of_ne hpos hend) hhalf tid
      have hempty : items.isEmpty = false := by
        rw [List.isEmpty_eq_false_iff]
        rintro rfl
        exact hzero (Nat.le_zero.mp hpos)
      rw [h.insert_some hpos, hmiddle] at hinsert
      simp only [hempty, Bool.false_eq_true, hzero, hend, if_false] at hinsert
      cases hinsert

/-- In the first half of four thread ids, with a node at a free address. -/
theorem insert_iff_ofFour : ∃ s s' : ListState,
    doublyLinkedListInsert s 1 15 (some 9) = .ok (s', true) ∧
      s'.Linked [(0, 10), (9, 15), (1, 20), (2, 30), (3, 40)] := by
  obtain ⟨s, hs⟩ := exists_represents [10, 20, 30, 40]
  have h : s.Linked [(0, 10), (1, 20), (2, 30), (3, 40)] := hs.linked
  have hfresh : ∀ p, some 9 = some p → s.nodes p = none := by
    intro p hp
    obtain rfl := Option.some.inj hp
    exact hs.within 9 (by decide)
  have hpos : 1 ≤ [(0, 10), (1, 20), (2, 30), (3, 40)].length := by decide
  obtain ⟨s', hinsert, h'⟩ := (h.insert_iff hpos 15 hfresh).mpr (by decide)
  exact ⟨s, s', hinsert, h'.linked⟩

/-- In front of the last of two thread ids, the insertion follows a null pointer. -/
theorem insert_before_last_fails : ∃ s : ListState, s.Linked [(0, 10), (1, 20)] ∧
    s.nodes 9 = none ∧ doublyLinkedListInsert s 1 15 (some 9) = .error .nullPointer := by
  obtain ⟨s, hs⟩ := exists_represents [10, 20]
  have h : s.Linked [(0, 10), (1, 20)] := hs.linked
  have hfresh : s.nodes 9 = none := hs.within 9 (by decide)
  refine ⟨s, h, hfresh, ?_⟩
  have hpos : 1 < [(0, 10), (1, 20)].length := by decide
  have hmiddle := h.insertMiddleNode_far hfresh Nat.one_ne_zero hpos (Nat.le_refl _) 15
  rw [h.insert_some (Nat.le_of_lt hpos)]
  simp only [List.isEmpty_cons, Bool.false_eq_true, if_false, Nat.one_ne_zero, List.length_cons,
    List.length_nil, hmiddle]
  rfl

end Linked

end ListState

end Aesd
