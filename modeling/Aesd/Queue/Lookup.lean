import Aesd.Queue.Deque

/-!
# Nodes by position

The walk from the head finds the node at a position. The walk meant to start at
the tail starts at the head as well, so it ends there or on a null pointer.
-/

namespace Aesd

open CSem DoublyLinked

namespace ListState

/-- A position that the lookup resolves from the head. -/
def NearHead (size pos : Nat) : Prop := pos = 0 ∨ pos < size / 2

instance (size pos : Nat) : Decidable (NearHead size pos) :=
  inferInstanceAs (Decidable (pos = 0 ∨ pos < size / 2))

namespace Linked

variable {s s' : ListState} {items items' : List (Ptr × Tid)} {pos : Nat}

/-- Any thread ids can be held. -/
theorem exists_represents (tids : List Tid) :
    ∃ s : ListState, s.Represents ((List.range tids.length).zip tids) := by
  induction tids using List.reverseRecOn with
  | nil => exact ⟨_, initialize_represents⟩
  | append_singleton tids tid ih =>
      obtain ⟨s, h⟩ := ih
      have hfresh : s.nodes tids.length = none := by
        apply h.within
        rw [List.map_fst_zip (Nat.le_of_eq List.length_range)]
        exact List.not_mem_range_self
      obtain ⟨s', -, h'⟩ := h.linked.insertTail hfresh tid
      refine ⟨s', ?_⟩
      rw [List.length_append, List.length_singleton, List.range_succ,
        List.zip_append List.length_range]
      exact h.becomes h'

theorem exists_split (hpos : pos < items.length) :
    ∃ front item back, items = front ++ item :: back ∧ front.length = pos :=
  ⟨items.take pos, items[pos], items.drop (pos + 1),
    by rw [List.cons_getElem_drop_succ, List.take_append_drop],
    List.length_take_of_le (Nat.le_of_lt hpos)⟩

theorem head_live (h : s.Linked items) (hpos : pos < items.length) :
    ∃ item rest, items = item :: rest ∧ s.self.head = some item.1 ∧
      s.nodes item.1 = some ⟨item.2, first rest none, none⟩ := by
  obtain ⟨item, rest, rfl⟩ := List.exists_cons_of_length_pos (Nat.zero_lt_of_lt hpos)
  exact ⟨item, rest, rfl, h.head_eq, h.segment.1⟩

theorem assert_pos (h : s.Linked items) (hpos : pos < items.length) :
    Exec.assert (decide (pos < s.self.size)) = .ok () := Exec.assert_of (h.size_eq ▸ hpos)

/-! ## The two walks -/

theorem followLink_next {nodes : Objects Node} {before after : Option Ptr}
    {front back : List (Ptr × Tid)} {item : Ptr × Tid}
    (h : Segment Node.mk nodes before (front ++ item :: back) after) :
    followLink (nodeNext nodes) front.length (first (front ++ item :: back) after) =
      .ok (some item.1) := by
  induction front generalizing before with
  | nil => rfl
  | cons skipped front ih =>
      have hnext : nodeNext nodes (some skipped.1) =
          .ok (first (front ++ item :: back) after) := by
        simp only [nodeNext, Objects.load_eq h.1, Exec.ok_bind]
        rfl
      rw [List.length_cons, List.cons_append, first, followLink, hnext]
      exact ih h.2

theorem getNodeFromHead (h : s.Linked items) (hpos : pos < items.length) :
    doublyLinkedListGetNodeFromHead s pos = .ok (some items[pos].1) := by
  obtain ⟨front, item, back, rfl, rfl⟩ := exists_split hpos
  have hwalk := followLink_next h.segment
  rw [← h.head_eq] at hwalk
  simp only [doublyLinkedListGetNodeFromHead, h.assert_pos hpos, Exec.ok_bind, hwalk,
    List.getElem_append_right (Nat.le_refl _), Nat.sub_self, List.getElem_cons_zero]

/-- The walk towards the head ends at the head, right before it, or at a null
dereference. -/
theorem getNodeFromTail (h : s.Linked items) (hpos : pos < items.length) :
    doublyLinkedListGetNodeFromTail s pos =
      if pos + 1 = items.length then .ok s.self.head
      else if pos + 2 = items.length then .ok none
      else .error .nullPointer := by
  obtain ⟨item, rest, rfl, hhead, hlive⟩ := h.head_live hpos
  have hprev : nodePrev s.nodes (some item.1) = .ok none := by
    simp only [nodePrev, Objects.load_eq hlive, Exec.ok_bind]
  simp only [doublyLinkedListGetNodeFromTail, h.assert_pos hpos, Exec.ok_bind, hhead]
  -- one step back from the head is already the null pointer
  obtain ⟨count, hcount⟩ : ∃ count, s.self.size - 1 - pos = count := ⟨_, rfl⟩
  rw [hcount]
  rw [h.size_eq] at hcount
  rcases count with _ | _ | count
  · rw [if_pos (by omega), followLink]
  · rw [if_neg (by omega), if_pos (by omega), followLink, hprev]
    rfl
  · rw [if_neg (by omega), if_neg (by omega), followLink, hprev]
    rfl

/-! ## The lookup -/

theorem getNode_near (h : s.Linked items) (hpos : pos < items.length)
    (hnear : NearHead items.length pos) :
    doublyLinkedListGetNode s pos = .ok (some items[pos].1) := by
  simp only [doublyLinkedListGetNode, h.assert_pos hpos, Exec.ok_bind]
  split_ifs with hzero hsize hhalf
  · subst hzero
    obtain ⟨item, rest, rfl, hhead, -⟩ := h.head_live hpos
    rw [hhead]
    rfl
  · exact absurd (h.size_eq ▸ hsize) (Nat.ne_of_lt hpos)
  · exact h.getNodeFromHead hpos
  · rw [h.size_eq] at hhalf
    exact absurd (hnear.resolve_left hzero) hhalf

theorem getNode_far (h : s.Linked items) (hpos : pos < items.length)
    (hfar : ¬ NearHead items.length pos) :
    doublyLinkedListGetNode s pos =
      if pos + 1 = items.length then .ok s.self.head
      else if pos + 2 = items.length then .ok none
      else .error .nullPointer := by
  rw [NearHead, not_or] at hfar
  have hsize : ¬ pos = s.self.size := by
    rw [h.size_eq]
    exact Nat.ne_of_lt hpos
  have hhalf : ¬ pos < s.self.size / 2 := by
    rw [h.size_eq]
    exact hfar.2
  rw [← h.getNodeFromTail hpos]
  simp only [doublyLinkedListGetNode, h.assert_pos hpos, Exec.ok_bind, hfar.1, hsize, hhalf,
    if_false]

/-- Beyond the first half, and short of the last position, no node is found. -/
theorem getNode_missing (h : s.Linked items) (hpos : pos + 1 < items.length)
    (hfar : ¬ NearHead items.length pos) :
    doublyLinkedListGetNode s pos = .ok none ∨
      doublyLinkedListGetNode s pos = .error .nullPointer := by
  rw [h.getNode_far (Nat.lt_of_succ_lt hpos) hfar, if_neg (Nat.ne_of_lt hpos)]
  split_ifs
  · exact Or.inl rfl
  · exact Or.inr rfl

/-- At the last position, beyond the first half, the head is found. -/
theorem getNode_last (h : s.Linked items) (hpos : pos + 1 = items.length)
    (hfar : ¬ NearHead items.length pos) :
    doublyLinkedListGetNode s pos = .ok s.self.head := by
  rw [h.getNode_far (hpos ▸ Nat.lt_succ_self pos) hfar, if_pos hpos]

/-! ## Reading and writing at a position -/

theorem live_at {front back : List (Ptr × Tid)} {item : Ptr × Tid}
    (h : s.Linked (front ++ item :: back)) :
    s.nodes item.1 = some ⟨item.2, first back none, last none front⟩ :=
  (segment_append.mp h.segment).2.1

theorem live_after {front back : List (Ptr × Tid)} {left item : Ptr × Tid}
    (h : s.Linked (front ++ left :: item :: back)) :
    s.nodes item.1 = some ⟨item.2, first back none, some left.1⟩ := by
  rw [List.append_cons] at h
  rw [h.live_at, last_concat]

theorem unique (h : s.Linked items) (h' : s.Linked items') : items = items' := by
  refine h.segment.unique ?_ h'.segment (h.head_eq.symm.trans h'.head_eq)
    (h.size_eq.symm.trans h'.size_eq)
  intro a onward back a' onward' back' heq
  exact ⟨congrArg Node.tid heq, congrArg Node.next heq⟩

theorem get_of_getNode {front back : List (Ptr × Tid)} {item : Ptr × Tid}
    (h : s.Linked (front ++ item :: back)) (hpos : pos < (front ++ item :: back).length)
    (hnode : doublyLinkedListGetNode s pos = .ok (some item.1)) :
    doublyLinkedListGet s pos = .ok item.2 := by
  simp only [doublyLinkedListGet, h.assert_pos hpos, Exec.ok_bind, hnode, nodeGet,
    Objects.load_eq h.live_at]

theorem set_of_getNode {front back : List (Ptr × Tid)} {item : Ptr × Tid}
    (h : s.Linked (front ++ item :: back)) (hpos : pos < (front ++ item :: back).length)
    (hnode : doublyLinkedListGetNode s pos = .ok (some item.1)) (tid : Tid) :
    ∃ s', doublyLinkedListSet s pos tid = .ok s' ∧
      s.Becomes (front ++ item :: back) s' (front ++ (item.1, tid) :: back) := by
  have hsame : (front ++ (item.1, tid) :: back).map Prod.fst =
      (front ++ item :: back).map Prod.fst := by
    rw [List.map_append, List.map_append, List.map_cons, List.map_cons]
  refine ⟨⟨Function.update s.nodes item.1 (some ⟨tid, first back none, last none front⟩), s.self⟩,
    ?_, ?_⟩
  · simp only [doublyLinkedListSet, h.assert_pos hpos, Exec.ok_bind, hnode, nodeSet,
      Objects.modify_eq h.live_at]
  · refine grows ?_ (hsame ▸ List.Subset.refl _)
      ((Objects.SameOutside.refl _ _).update (by simp) _)
    exact
      { nodup := hsame ▸ h.nodup
        segment := h.segment.set h.nodup tid
        head_eq := by rw [h.head_eq, first_append, first_append]; rfl
        tail_eq := by rw [h.tail_eq, last_append, last_append]; rfl
        size_eq := by simp [h.size_eq] }

theorem modify_split (front back : List (Ptr × Tid)) (item : Ptr × Tid) (tid : Tid) :
    (front ++ item :: back).modify front.length (fun item => (item.1, tid)) =
      front ++ (item.1, tid) :: back := by
  induction front with
  | nil => rfl
  | cons skipped front ih => exact congrArg (List.cons skipped) ih

theorem getElem_split (front back : List (Ptr × Tid)) (item : Ptr × Tid)
    (hpos : front.length < (front ++ item :: back).length) :
    (front ++ item :: back)[front.length] = item := by
  rw [List.getElem_append_right (Nat.le_refl _)]
  simp only [Nat.sub_self, List.getElem_cons_zero]

theorem get_near (h : s.Linked items) (hpos : pos < items.length)
    (hnear : NearHead items.length pos) : doublyLinkedListGet s pos = .ok items[pos].2 := by
  have hnode := h.getNode_near hpos hnear
  obtain ⟨front, item, back, rfl, rfl⟩ := exists_split hpos
  rw [getElem_split] at hnode ⊢
  exact h.get_of_getNode hpos hnode

theorem set_near (h : s.Linked items) (hpos : pos < items.length)
    (hnear : NearHead items.length pos) (tid : Tid) :
    ∃ s', doublyLinkedListSet s pos tid = .ok s' ∧
      s.Becomes items s' (items.modify pos fun item => (item.1, tid)) := by
  have hnode := h.getNode_near hpos hnear
  obtain ⟨front, item, back, rfl, rfl⟩ := exists_split hpos
  rw [getElem_split] at hnode
  rw [modify_split]
  exact h.set_of_getNode hpos hnode tid

/-- The last position, beyond the first half, is taken for the first one. -/
theorem get_last (h : s.Linked items) (hpos : pos + 1 = items.length)
    (hfar : ¬ NearHead items.length pos) :
    ∃ item rest, items = item :: rest ∧ doublyLinkedListGet s pos = .ok item.2 ∧
      ∀ tid, ∃ s', doublyLinkedListSet s pos tid = .ok s' ∧
        s.Becomes items s' ((item.1, tid) :: rest) := by
  have hbound : pos < items.length := hpos ▸ Nat.lt_succ_self pos
  have hnode := h.getNode_last hpos hfar
  obtain ⟨item, rest, rfl, hhead, -⟩ := h.head_live hbound
  rw [hhead] at hnode
  have hfront : s.Linked ([] ++ item :: rest) := h
  exact ⟨item, rest, rfl, hfront.get_of_getNode hbound hnode,
    hfront.set_of_getNode hbound hnode⟩

/-- A node that is not found is not accessed. -/
theorem get_missing (h : s.Linked items) (hpos : pos + 1 < items.length)
    (hfar : ¬ NearHead items.length pos) :
    doublyLinkedListGet s pos = .error .nullPointer ∧
      ∀ tid, doublyLinkedListSet s pos tid = .error .nullPointer := by
  have hbound := h.assert_pos (Nat.lt_of_succ_lt hpos)
  rcases h.getNode_missing hpos hfar with hnode | hnode
  · simp only [doublyLinkedListGet, doublyLinkedListSet, hbound, Exec.ok_bind, hnode]
    exact ⟨rfl, fun _ => rfl⟩
  · simp only [doublyLinkedListGet, doublyLinkedListSet, hbound, Exec.ok_bind, hnode]
    exact ⟨rfl, fun _ => rfl⟩

/-! ## When the lookup is right -/

theorem get_iff (h : s.Linked items) (hpos : pos < items.length) :
    doublyLinkedListGet s pos = .ok items[pos].2 ↔
      NearHead items.length pos ∨
        pos + 1 = items.length ∧ items.head?.map Prod.snd = some items[pos].2 := by
  by_cases hnear : NearHead items.length pos
  · exact ⟨fun _ => Or.inl hnear, fun _ => h.get_near hpos hnear⟩
  · rw [or_iff_right hnear]
    by_cases hlast : pos + 1 = items.length
    · obtain ⟨item, rest, hitems, hget, -⟩ := h.get_last hlast hnear
      have hhead : items.head?.map Prod.snd = some item.2 := by rw [hitems]; rfl
      rw [hget, hhead, Except.ok.injEq, Option.some.injEq]
      exact (and_iff_right hlast).symm
    · have hget := (h.get_missing (by omega) hnear).1
      rw [hget]
      constructor
      · intro heq
        cases heq
      · intro hright
        exact absurd hright.1 hlast

theorem modify_eq_self_iff (hpos : pos < items.length) (tid : Tid) :
    items.modify pos (fun item => (item.1, tid)) = items ↔ items[pos].2 = tid := by
  obtain ⟨front, item, back, rfl, rfl⟩ := exists_split hpos
  rw [modify_split, getElem_split, List.append_cancel_left_eq, List.cons.injEq, Prod.ext_iff]
  simp only [and_true, true_and]
  exact eq_comm

/-- Writing the first thread id is as good as writing a later one when nothing
has to change. -/
theorem modify_eq_cons_iff {item : Ptr × Tid} {rest : List (Ptr × Tid)} (hzero : pos ≠ 0)
    (hpos : pos < (item :: rest).length) (tid : Tid) :
    (item :: rest).modify pos (fun item => (item.1, tid)) = (item.1, tid) :: rest ↔
      item.2 = tid ∧ (item :: rest)[pos].2 = tid := by
  obtain ⟨before, rfl⟩ := Nat.exists_eq_add_one_of_ne_zero hzero
  rw [List.modify_succ_cons, List.cons.injEq, Prod.ext_iff,
    modify_eq_self_iff (Nat.lt_of_succ_lt_succ hpos), List.getElem_cons_succ]
  simp only [true_and]

theorem set_iff (h : s.Linked items) (hpos : pos < items.length) (tid : Tid) :
    (∃ s', doublyLinkedListSet s pos tid = .ok s' ∧
        s.Becomes items s' (items.modify pos fun item => (item.1, tid))) ↔
      NearHead items.length pos ∨
        pos + 1 = items.length ∧ items.head?.map Prod.snd = some tid ∧ items[pos].2 = tid := by
  by_cases hnear : NearHead items.length pos
  · exact ⟨fun _ => Or.inl hnear, fun _ => h.set_near hpos hnear tid⟩
  · rw [or_iff_right hnear]
    by_cases hlast : pos + 1 = items.length
    · obtain ⟨item, rest, rfl, -, hset⟩ := h.get_last hlast hnear
      obtain ⟨s₁, hs₁, hbecomes⟩ := hset tid
      have hsame := modify_eq_cons_iff (not_or.mp hnear).1 hpos tid
      rw [List.head?_cons, Option.map_some, Option.some.injEq, ← hsame]
      constructor
      · rintro ⟨s₂, hs₂, hbecomes'⟩
        obtain rfl := Except.ok.inj (hs₁.symm.trans hs₂)
        exact ⟨hlast, hbecomes'.linked.unique hbecomes.linked⟩
      · rintro ⟨-, heq⟩
        exact ⟨s₁, hs₁, heq ▸ hbecomes⟩
    · have hset := (h.get_missing (by omega) hnear).2 tid
      rw [hset]
      constructor
      · rintro ⟨s', hs', -⟩
        cases hs'
      · intro hright
        exact absurd hright.1 hlast

/-- The two walks select the same node only in a list of one node. -/
theorem walks_agree_iff (h : s.Linked items) (hpos : pos < items.length) :
    doublyLinkedListGetNodeFromHead s pos = doublyLinkedListGetNodeFromTail s pos ↔
      items.length = 1 := by
  rw [h.getNodeFromHead hpos, h.getNodeFromTail hpos]
  obtain ⟨item, rest, rfl, hhead, -⟩ := h.head_live hpos
  split_ifs with hlast hbefore
  · rw [hhead, Except.ok.injEq, Option.some.injEq]
    constructor
    · intro heq
      -- the addresses are distinct, so the last position is the first
      have hzero : pos = 0 := by
        have hbound : pos < ((item :: rest).map Prod.fst).length := by rwa [List.length_map]
        have hfirst : ((item :: rest).map Prod.fst)[pos] = ((item :: rest).map Prod.fst)[0] := by
          rw [List.getElem_map]
          exact heq
        exact (h.nodup.getElem_inj_iff).mp hfirst
      rw [← hlast, hzero]
    · intro hone
      have hzero : pos = 0 := by omega
      subst hzero
      rfl
  · refine ⟨fun heq => ?_, fun hone => by omega⟩
    cases Except.ok.inj heq
  · refine ⟨fun heq => ?_, fun hone => by omega⟩
    cases heq

/-- The thread id at a position is read, or written, exactly when the position is
the first one or in the first half, or when it is the last one and holds what the
head holds, or is to hold. The two walks agree on lists of one node. -/
theorem positional_access_iff (h : s.Linked items) (hpos : pos < items.length) :
    (doublyLinkedListGet s pos = .ok items[pos].2 ↔
      NearHead items.length pos ∨
        pos + 1 = items.length ∧ items.head?.map Prod.snd = some items[pos].2) ∧
    (∀ tid, (∃ s', doublyLinkedListSet s pos tid = .ok s' ∧
        s.Becomes items s' (items.modify pos fun item => (item.1, tid))) ↔
      NearHead items.length pos ∨
        pos + 1 = items.length ∧ items.head?.map Prod.snd = some tid ∧ items[pos].2 = tid) ∧
    (doublyLinkedListGetNodeFromHead s pos = doublyLinkedListGetNodeFromTail s pos ↔
      items.length = 1) :=
  ⟨h.get_iff hpos, h.set_iff hpos, h.walks_agree_iff hpos⟩

/-- In the first half of four thread ids. -/
theorem positional_access_iff_ofFour : ∃ s : ListState,
    s.Linked [(0, 10), (1, 20), (2, 30), (3, 40)] ∧ doublyLinkedListGet s 1 = .ok 20 := by
  obtain ⟨s, hs⟩ := exists_represents [10, 20, 30, 40]
  have h : s.Linked [(0, 10), (1, 20), (2, 30), (3, 40)] := hs.linked
  have hpos : 1 < [(0, 10), (1, 20), (2, 30), (3, 40)].length := by decide
  exact ⟨s, h, (h.positional_access_iff hpos).1.mpr (Or.inl (Or.inr (by decide)))⟩

/-- Of two thread ids, the second is read as the first. -/
theorem get_second_is_first : ∃ s : ListState, s.Linked [(0, 10), (1, 20)] ∧
    doublyLinkedListGet s 1 = .ok 10 ∧
    doublyLinkedListGetNodeFromHead s 1 ≠ doublyLinkedListGetNodeFromTail s 1 := by
  obtain ⟨s, hs⟩ := exists_represents [10, 20]
  have h : s.Linked [(0, 10), (1, 20)] := hs.linked
  have hpos : 1 < [((0 : Ptr), (10 : Tid)), (1, 20)].length := by decide
  obtain ⟨item, rest, hitems, hget, -⟩ := h.get_last rfl (by decide)
  obtain ⟨rfl, -⟩ := List.cons.inj hitems
  exact ⟨s, h, hget, fun heq => absurd ((h.walks_agree_iff hpos).mp heq) (by decide)⟩

end Linked

end ListState

end Aesd
