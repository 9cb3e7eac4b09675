import Aesd.Queue.Deque

/-!
# Runs of calls are runs of a deque

Any sequence of calls on an initialised list, with an allocator that fails or
picks addresses at will, has the replies of a mathematical deque, and the links
read back what the deque holds.
-/

namespace Aesd

open CSem DoublyLinked Transition

/-- A call at an end of the list or of the queue. An insertion carries the answer
of the allocator. -/
inductive Call
  | insertHead (tid : Tid) (answer : Option Ptr)
  | insertTail (tid : Tid) (answer : Option Ptr)
  | removeHead
  | removeTail
  | setHead (tid : Tid)
  | setTail (tid : Tid)
  | getHead
  | getTail
  | enqueue (tid : Tid) (answer : Option Ptr)
  | dequeue
  deriving DecidableEq, Repr

/-- What a call returns. -/
inductive Result
  | inserted (ok : Bool)
  | value (tid : Tid)
  | done
  deriving DecidableEq, Repr

def ListState.call (s : ListState) : Call → Exec (ListState × Result)
  | .insertHead tid answer => do
      let (s, ok) ← doublyLinkedListInsertHead s tid answer
      .ok (s, .inserted ok)
  | .insertTail tid answer => do
      let (s, ok) ← doublyLinkedListInsertTail s tid answer
      .ok (s, .inserted ok)
  | .removeHead => do
      let (s, tid) ← doublyLinkedListRemoveHead s
      .ok (s, .value tid)
  | .removeTail => do
      let (s, tid) ← doublyLinkedListRemoveTail s
      .ok (s, .value tid)
  | .setHead tid => do
      let s ← doublyLinkedListSetHead s tid
      .ok (s, .done)
  | .setTail tid => do
      let s ← doublyLinkedListSetTail s tid
      .ok (s, .done)
  | .getHead => do
      let tid ← doublyLinkedListGetHead s
      .ok (s, .value tid)
  | .getTail => do
      let tid ← doublyLinkedListGetTail s
      .ok (s, .value tid)
  | .enqueue tid answer => do
      let (s, ok) ← queueEnqueue s tid answer
      .ok (s, .inserted ok)
  | .dequeue => do
      let (s, tid) ← queueDequeue s
      .ok (s, .value tid)

/-- A call with an address that is free, or on a list that is not empty. -/
def Call.Permitted (s : ListState) : Call → Prop
  | .insertHead _ answer | .insertTail _ answer | .enqueue _ answer =>
      ∀ p, answer = some p → s.nodes p = none
  | .removeHead | .removeTail | .setHead _ | .setTail _ | .getHead | .getTail | .dequeue =>
      s.self.isEmpty = false

def ListState.Step (s : ListState) (event : Call × Result) (s' : ListState) : Prop :=
  event.1.Permitted s ∧ s.call event.1 = .ok (s', event.2)

/-! ## The deque -/

/-- A call on the deque of thread ids. Only an insertion is defined on the empty
deque, and an insertion without memory does nothing. -/
def Deque.call (deque : List Tid) : Call → Option (List Tid × Result)
  | .insertHead tid answer | .enqueue tid answer =>
      some (if answer.isSome then (tid :: deque, .inserted true) else (deque, .inserted false))
  | .insertTail tid answer =>
      some (if answer.isSome then (deque ++ [tid], .inserted true) else (deque, .inserted false))
  | .removeHead => deque.head?.map fun tid => (deque.tail, .value tid)
  | .removeTail | .dequeue => deque.getLast?.map fun tid => (deque.dropLast, .value tid)
  | .setHead tid => deque.head?.map fun _ => (tid :: deque.tail, .done)
  | .setTail tid => deque.getLast?.map fun _ => (deque.dropLast ++ [tid], .done)
  | .getHead => deque.head?.map fun tid => (deque, .value tid)
  | .getTail => deque.getLast?.map fun tid => (deque, .value tid)

def Deque.Step (deque : List Tid) (event : Call × Result) (deque' : List Tid) : Prop :=
  Deque.call deque event.1 = some (deque', event.2)

/-- The thread ids that the queue accepted, in order. -/
def enqueued (events : List (Call × Result)) : List Tid :=
  events.filterMap fun
    | (.enqueue tid _, .inserted true) => some tid
    | _ => none

/-- The thread ids that the queue gave back, in order. -/
def dequeued (events : List (Call × Result)) : List Tid :=
  events.filterMap fun
    | (.dequeue, .value tid) => some tid
    | _ => none

def Call.OnQueue : Call → Prop
  | .enqueue _ _ | .dequeue => True
  | _ => False

/-- What went into a queue is what came out of it and what it still holds. -/
theorem Deque.fifo {events : List (Call × Result)} {deque : List Tid}
    (hrun : Run Deque.Step [] events deque) (hqueue : ∀ event ∈ events, event.1.OnQueue) :
    enqueued events = dequeued events ++ deque.reverse := by
  induction hrun with
  | nil => rfl
  | @snoc middle deque events event front last ih =>
      have ih := ih fun event hmem => hqueue event (List.mem_append_left _ hmem)
      have hlast := hqueue event (List.mem_append_right _ List.mem_cons_self)
      rw [enqueued, dequeued, List.filterMap_append, List.filterMap_append]
      rw [enqueued, dequeued] at ih
      rw [ih]
      obtain ⟨call, result⟩ := event
      cases call with
      | enqueue tid answer =>
          have heq := Option.some.inj last
          cases answer with
          | none =>
              obtain ⟨rfl, rfl⟩ := Prod.mk.inj heq
              simp
          | some p =>
              obtain ⟨rfl, rfl⟩ := Prod.mk.inj heq
              simp
      | dequeue =>
          obtain ⟨tid, htid, heq⟩ := Option.map_eq_some_iff.mp last
          obtain ⟨rfl, rfl⟩ := Prod.mk.inj heq
          obtain ⟨front, rfl⟩ := List.getLast?_eq_some_iff.mp htid
          simp
      | _ => exact hlast.elim

/-! ## Every call is one of the deque -/

namespace ListState

/-- What the links, the ends and the size of a list say about its thread ids. -/
structure Reads (s : ListState) (ptrs : List Ptr) (tids : List Tid) : Prop where
  nodup : ptrs.Nodup
  size_eq : s.self.size = ptrs.length
  onward : Visits Node.next s.nodes s.self.head ptrs
  back : Visits Node.prev s.nodes s.self.tail ptrs.reverse
  tail_eq : s.self.tail = ptrs.getLast?
  head_prev : (s.self.head.bind s.nodes).bind Node.prev = none
  tail_next : (s.self.tail.bind s.nodes).bind Node.next = none
  tids_eq : ptrs.map (fun p => (s.nodes p).map Node.tid) = tids.map some

namespace Represents

variable {s : ListState} {items : List (Ptr × Tid)} {item : Ptr × Tid}

theorem reads (h : s.Represents items) : s.Reads (items.map Prod.fst) (items.map Prod.snd) where
  nodup := h.nodup
  size_eq := by rw [h.size_eq, List.length_map]
  onward := by
    rw [h.head_eq]
    exact h.segment.visits_next fun _ _ _ => rfl
  back := by
    rw [h.tail_eq]
    exact h.segment.visits_prev fun _ _ _ => rfl
  tail_eq := by rw [h.tail_eq, last_eq_getLast?, Option.or_none]
  head_prev := by
    rw [h.head_eq]
    cases items with
    | nil => rfl
    | cons item items => simp only [first, Option.bind_some, h.segment.1]
  tail_next := by
    rw [h.tail_eq]
    cases items using List.reverseRecOn with
    | nil => rfl
    | append_singleton items item =>
        simp only [last_concat, Option.bind_some, (segment_concat.mp h.segment).2]
  tids_eq := h.segment.values fun _ _ _ => rfl

end Represents

namespace Linked

variable {s : ListState} {items : List (Ptr × Tid)} {item : Ptr × Tid}

theorem setHead (h : s.Linked (item :: items)) (tid : Tid) :
    ∃ s', doublyLinkedListSetHead s tid = .ok s' ∧
      s.Becomes (item :: items) s' ((item.1, tid) :: items) := by
  have hempty : s.self.isEmpty = false := h.isEmpty_eq
  have hhead : s.self.head = some item.1 := h.head_eq
  refine ⟨⟨Function.update s.nodes item.1 (some ⟨tid, first items none, none⟩), s.self⟩, ?_, ?_⟩
  · simp only [doublyLinkedListSetHead, hempty, Bool.not_false, Exec.assert_true, Exec.ok_bind,
      hhead, nodeSet, Objects.modify_eq h.segment.1]
  · exact grows
      { nodup := h.nodup
        segment := ⟨Function.update_self .., h.segment.2.update (List.nodup_cons.mp h.nodup).1 _⟩
        head_eq := hhead
        tail_eq := h.tail_eq
        size_eq := h.size_eq }
      (List.Subset.refl _) ((Objects.SameOutside.refl _ _).update List.mem_cons_self _)

theorem setTail (h : s.Linked (items ++ [item])) (tid : Tid) :
    ∃ s', doublyLinkedListSetTail s tid = .ok s' ∧
      s.Becomes (items ++ [item]) s' (items ++ [(item.1, tid)]) := by
  have hempty := h.isEmpty_concat
  have htail := h.tail_concat
  have hsame : (items ++ [(item.1, tid)]).map Prod.fst = (items ++ [item]).map Prod.fst := by simp
  have hnodup := nodup_concat.mp h.nodup
  obtain ⟨hfront, hlive⟩ := segment_concat.mp h.segment
  refine ⟨⟨Function.update s.nodes item.1 (some ⟨tid, none, last none items⟩), s.self⟩, ?_, ?_⟩
  · simp only [doublyLinkedListSetTail, hempty, Bool.not_false, Exec.assert_true, Exec.ok_bind,
      htail, nodeSet, Objects.modify_eq hlive]
  · refine grows ?_ (hsame ▸ List.Subset.refl _)
      ((Objects.SameOutside.refl _ _).update (by simp) _)
    exact
      { nodup := by rw [hsame]; exact h.nodup
        segment := segment_concat.mpr ⟨hfront.update hnodup.1 _, Function.update_self ..⟩
        head_eq := by rw [h.head_eq, first_append, first_append]; rfl
        tail_eq := by rw [htail, last_concat]
        size_eq := by simp [h.size_eq] }

theorem getHead (h : s.Linked (item :: items)) :
    doublyLinkedListGetHead s = .ok item.2 := by
  have hempty : s.self.isEmpty = false := h.isEmpty_eq
  have hhead : s.self.head = some item.1 := h.head_eq
  simp only [doublyLinkedListGetHead, hempty, Bool.not_false, Exec.assert_true, Exec.ok_bind,
    hhead, nodeGet, Objects.load_eq h.segment.1]

theorem getTail (h : s.Linked (items ++ [item])) :
    doublyLinkedListGetTail s = .ok item.2 := by
  have hempty := h.isEmpty_concat
  have htail := h.tail_concat
  simp only [doublyLinkedListGetTail, hempty, Bool.not_false, Exec.assert_true, Exec.ok_bind,
    htail, nodeGet, Objects.load_eq (segment_concat.mp h.segment).2]

end Linked

/-- A call, and what it is for the deque. -/
structure Simulates (s : ListState) (items : List (Ptr × Tid)) (call : Call) (s' : ListState)
    (items' : List (Ptr × Tid)) (result : Result) : Prop where
  returns : s.call call = .ok (s', result)
  represents : s'.Represents items'
  deque : Deque.call (items.map Prod.snd) call = some (items'.map Prod.snd, result)
  failed : result = .inserted false → s' = s

namespace Represents

variable {s : ListState} {items : List (Ptr × Tid)} {item : Ptr × Tid}

/-- An insertion at the head, the one of the queue included. -/
theorem simulates_insertHead (h : s.Represents items) {call : Call} {tid : Tid}
    {answer : Option Ptr} (hfresh : ∀ p, answer = some p → s.nodes p = none)
    (hcall : call = .insertHead tid answer ∨ call = .enqueue tid answer) :
    ∃ s' items' result, s.Simulates items call s' items' result := by
  cases answer with
  | none =>
      refine ⟨s, items, .inserted false, ?_, h, ?_, fun _ => rfl⟩
      · rcases hcall with rfl | rfl <;> rfl
      · rcases hcall with rfl | rfl <;> rfl
  | some p =>
      obtain ⟨s', hinsert, h'⟩ := h.linked.insertHead (hfresh p rfl) tid
      refine ⟨s', (p, tid) :: items, .inserted true, ?_, h.becomes h', ?_, nofun⟩
      · rcases hcall with rfl | rfl
        · simp only [ListState.call, hinsert, Exec.ok_bind]
        · simp only [ListState.call, queueEnqueue, hinsert, Exec.ok_bind]
      · rcases hcall with rfl | rfl <;> rfl

theorem simulates_insertTail (h : s.Represents items) (tid : Tid) {answer : Option Ptr}
    (hfresh : ∀ p, answer = some p → s.nodes p = none) :
    ∃ s' items' result, s.Simulates items (.insertTail tid answer) s' items' result := by
  cases answer with
  | none => exact ⟨s, items, .inserted false, rfl, h, rfl, fun _ => rfl⟩
  | some p =>
      obtain ⟨s', hinsert, h'⟩ := h.linked.insertTail (hfresh p rfl) tid
      refine ⟨s', items ++ [(p, tid)], .inserted true, ?_, h.becomes h', ?_, nofun⟩
      · simp only [ListState.call, hinsert, Exec.ok_bind]
      · simp only [Deque.call, Option.isSome_some, if_true, List.map_append, List.map_cons,
          List.map_nil]

/-- A removal at the tail, the one of the queue included. -/
theorem simulates_removeTail (h : s.Represents (items ++ [item])) {call : Call}
    (hcall : call = .removeTail ∨ call = .dequeue) :
    ∃ s' items' result, s.Simulates (items ++ [item]) call s' items' result := by
  obtain ⟨s', hremove, h'⟩ := h.linked.removeTail
  refine ⟨s', items, .value item.2, ?_, h.becomes h', ?_, nofun⟩
  · rcases hcall with rfl | rfl
    · simp only [ListState.call, hremove, Exec.ok_bind]
    · simp only [ListState.call, queueDequeue, hremove, Exec.ok_bind]
  · rcases hcall with rfl | rfl <;> simp [Deque.call]

/-- Every permitted call returns, and does what it does on the deque. -/
theorem simulates (h : s.Represents items) {call : Call} (hpermitted : call.Permitted s) :
    ∃ s' items' result, s.Simulates items call s' items' result := by
  have hends : s.self.isEmpty = false →
      (∃ item rest, items = item :: rest) ∧ ∃ front item, items = front ++ [item] := by
    intro hempty
    rw [h.linked.isEmpty_eq, List.isEmpty_eq_false_iff] at hempty
    exact ⟨List.exists_cons_of_ne_nil hempty,
      _, _, (List.dropLast_append_getLast hempty).symm⟩
  cases call with
  | insertHead tid answer => exact h.simulates_insertHead hpermitted (Or.inl rfl)
  | enqueue tid answer => exact h.simulates_insertHead hpermitted (Or.inr rfl)
  | insertTail tid answer => exact h.simulates_insertTail tid hpermitted
  | removeHead =>
      obtain ⟨⟨item, rest, rfl⟩, _⟩ := hends hpermitted
      obtain ⟨s', hremove, h'⟩ := h.linked.removeHead
      exact ⟨s', rest, .value item.2, by simp only [ListState.call, hremove, Exec.ok_bind],
        h.becomes h', rfl, nofun⟩
  | removeTail =>
      obtain ⟨_, front, item, rfl⟩ := hends hpermitted
      exact h.simulates_removeTail (Or.inl rfl)
  | dequeue =>
      obtain ⟨_, front, item, rfl⟩ := hends hpermitted
      exact h.simulates_removeTail (Or.inr rfl)
  | setHead tid =>
      obtain ⟨⟨item, rest, rfl⟩, _⟩ := hends hpermitted
      obtain ⟨s', hset, h'⟩ := h.linked.setHead tid
      exact ⟨s', _, .done, by simp only [ListState.call, hset, Exec.ok_bind], h.becomes h', rfl,
        nofun⟩
  | setTail tid =>
      obtain ⟨_, front, item, rfl⟩ := hends hpermitted
      obtain ⟨s', hset, h'⟩ := h.linked.setTail tid
      exact ⟨s', _, .done, by simp only [ListState.call, hset, Exec.ok_bind], h.becomes h',
        by simp [Deque.call], nofun⟩
  | getHead =>
      obtain ⟨⟨item, rest, rfl⟩, _⟩ := hends hpermitted
      exact ⟨s, _, .value item.2, by simp only [ListState.call, h.linked.getHead, Exec.ok_bind], h, rfl,
        nofun⟩
  | getTail =>
      obtain ⟨_, front, item, rfl⟩ := hends hpermitted
      exact ⟨s, _, .value item.2, by simp only [ListState.call, h.linked.getTail, Exec.ok_bind], h,
        by simp [Deque.call], nofun⟩

/-- A run of calls keeps the list in step with the deque. -/
theorem run {events : List (Call × Result)} {s' : ListState} (h : s.Represents items)
    (hrun : Run ListState.Step s events s') :
    ∃ items', s'.Represents items' ∧
      Run Deque.Step (items.map Prod.snd) events (items'.map Prod.snd) := by
  induction hrun with
  | nil => exact ⟨items, h, .nil _⟩
  | snoc _ last ih =>
      obtain ⟨middle, hmiddle, hfront⟩ := ih
      obtain ⟨s', items', result, hsim⟩ := hmiddle.simulates last.1
      obtain ⟨rfl, rfl⟩ := Prod.mk.inj (Except.ok.inj (hsim.returns.symm.trans last.2))
      exact ⟨items', hsim.represents, .snoc hfront hsim.deque⟩

end Represents

/-- After any calls the links read back what a deque holds after the same calls
with the same results. The next permitted call meets no failing assertion or bad
pointer and returns what the deque returns, and an insertion that fails changes
nothing. A queue returns what it accepted, in order and once. -/
theorem deque_refinement {events : List (Call × Result)} {s : ListState}
    (hrun : Run Step doublyLinkedListInitialize events s) :
    ∃ ptrs deque, Run Deque.Step [] events deque ∧ s.Reads ptrs deque ∧
      (∀ call : Call, call.Permitted s → ∃ s' deque' result, s.call call = .ok (s', result) ∧
        Deque.call deque call = some (deque', result) ∧
        (result = .inserted false → s' = s)) ∧
      ((∀ event ∈ events, event.1.OnQueue) →
        enqueued events = dequeued events ++ deque.reverse) := by
  obtain ⟨items, h, hdeque⟩ := initialize_represents.run hrun
  refine ⟨_, _, hdeque, h.reads, ?_, Deque.fifo hdeque⟩
  intro call hpermitted
  obtain ⟨s', items', result, hsim⟩ := h.simulates hpermitted
  exact ⟨s', _, result, hsim.returns, hsim.deque, hsim.failed⟩

/-- Three threads come to the ends of a list, the last of them without memory, and the
one at the tail leaves it again. -/
theorem deque_refinement_bothEnds : ∃ s, Run Step doublyLinkedListInitialize
    [(.insertTail 9 (some 0), .inserted true), (.insertHead 7 (some 1), .inserted true),
      (.insertTail 8 (some 2), .inserted true), (.insertHead 5 none, .inserted false),
      (.removeTail, .value 8)] s ∧
    ∃ ptrs, s.Reads ptrs [7, 9] := by
  have hrun : Run Step doublyLinkedListInitialize
      ([] ++ [(.insertTail 9 (some 0), .inserted true)] ++
        [(.insertHead 7 (some 1), .inserted true)] ++
        [(.insertTail 8 (some 2), .inserted true)] ++ [(.insertHead 5 none, .inserted false)] ++
        [(.removeTail, .value 8)]) _ :=
    .snoc (.snoc (.snoc (.snoc (.snoc (.nil _)
      ⟨fun _ heq => Option.some.inj heq ▸ rfl, rfl⟩)
      ⟨fun _ heq => Option.some.inj heq ▸ rfl, rfl⟩)
      ⟨fun _ heq => Option.some.inj heq ▸ rfl, rfl⟩) ⟨nofun, rfl⟩) ⟨rfl, rfl⟩
  obtain ⟨ptrs, deque, _, hreads, hnext, _⟩ := deque_refinement hrun
  obtain ⟨_, _, result, hhead, hdeque, _⟩ := hnext .getHead rfl
  obtain ⟨_, rfl⟩ := Prod.mk.inj (Except.ok.inj hhead)
  obtain ⟨_, _, result, htail, hdeque', _⟩ := hnext .getTail rfl
  obtain ⟨_, rfl⟩ := Prod.mk.inj (Except.ok.inj htail)
  obtain ⟨first, hfirst, heq⟩ := Option.map_eq_some_iff.mp hdeque
  obtain ⟨last, hlast, heq'⟩ := Option.map_eq_some_iff.mp hdeque'
  obtain rfl := Result.value.inj (Prod.mk.inj heq).2
  obtain rfl := Result.value.inj (Prod.mk.inj heq').2
  have hlength : 2 = deque.length := by
    have htids := congrArg List.length hreads.tids_eq
    rw [List.length_map, List.length_map] at htids
    exact hreads.size_eq.trans htids
  obtain ⟨rest, rfl⟩ := List.head?_eq_some_iff.mp hfirst
  obtain ⟨other, rfl⟩ := List.length_eq_one_iff.mp (Nat.succ.inj hlength).symm
  obtain rfl : other = _ := Option.some.inj hlast
  exact ⟨_, hrun, ptrs, hreads⟩

end ListState

end Aesd
