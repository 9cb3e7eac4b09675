import Aesd.Foundation.Objects

/-!
# The doubly linked list of thread ids

`node_t`, `doubly_linked_list_t` with its operations, and `queue_t`.
Where the C library may fail, the outcome is an argument: a node is allocated at
the address `answer`, or not at all.
-/

namespace Aesd

open CSem

/-- `pthread_t`. -/
abbrev Tid := Nat

/-- `node_t`. -/
structure Node where
  tid : Tid
  next : Option Ptr
  prev : Option Ptr
  deriving DecidableEq, Repr

/-- `node_new`; the new node is cleared. -/
def nodeNew (nodes : Objects Node) : Option Ptr → Objects Node × Option Ptr
  | none => (nodes, none)
  | some p => (nodes.alloc p ⟨0, none, none⟩, some p)

def nodeDestroy (nodes : Objects Node) (self : Ptr) : Exec (Objects Node) := nodes.free self

def nodeSet (nodes : Objects Node) (self : Option Ptr) (tid : Tid) : Exec (Objects Node) :=
  nodes.modify self fun node => { node with tid := tid }

def nodeGet (nodes : Objects Node) (self : Option Ptr) : Exec Tid := do
  let node ← nodes.load self
  .ok node.tid

def nodeNext (nodes : Objects Node) (self : Option Ptr) : Exec (Option Ptr) := do
  let node ← nodes.load self
  .ok node.next

def nodePrev (nodes : Objects Node) (self : Option Ptr) : Exec (Option Ptr) := do
  let node ← nodes.load self
  .ok node.prev

def nodeLinkNext (nodes : Objects Node) (self next : Option Ptr) : Exec (Objects Node) :=
  nodes.modify self fun node => { node with next := next }

def nodeLinkPrev (nodes : Objects Node) (self prev : Option Ptr) : Exec (Objects Node) :=
  nodes.modify self fun node => { node with prev := prev }

def nodeUnlinkNext (nodes : Objects Node) (self : Option Ptr) : Exec (Objects Node) :=
  nodes.modify self fun node => { node with next := none }

def nodeUnlinkPrev (nodes : Objects Node) (self : Option Ptr) : Exec (Objects Node) :=
  nodes.modify self fun node => { node with prev := none }

/-- `doubly_linked_list_t`. A node takes 24 bytes of a 64-bit address space, so
the size cannot wrap. -/
structure DoublyLinkedList where
  head : Option Ptr
  tail : Option Ptr
  size : Nat
  deriving DecidableEq, Repr

/-- The list and the nodes in memory. -/
structure ListState where
  nodes : Objects Node
  self : DoublyLinkedList

/-- `doubly_linked_list_initialize`, with no node allocated yet. -/
def doublyLinkedListInitialize : ListState := ⟨Objects.empty, ⟨none, none, 0⟩⟩

def DoublyLinkedList.isEmpty (self : DoublyLinkedList) : Bool := self.size == 0

/-- A loop that follows a link this many times. -/
def followLink (link : Option Ptr → Exec (Option Ptr)) : Nat → Option Ptr → Exec (Option Ptr)
  | 0, current => .ok current
  | count + 1, current => do
      let current ← link current
      followLink link count current

def doublyLinkedListGetNodeFromHead (s : ListState) (pos : Nat) : Exec (Option Ptr) := do
  Exec.assert (decide (pos < s.self.size))
  followLink (nodeNext s.nodes) pos s.self.head

/-- The walk towards the head starts at the head. -/
def doublyLinkedListGetNodeFromTail (s : ListState) (pos : Nat) : Exec (Option Ptr) := do
  Exec.assert (decide (pos < s.self.size))
  followLink (nodePrev s.nodes) (s.self.size - 1 - pos) s.self.head

def doublyLinkedListGetNode (s : ListState) (pos : Nat) : Exec (Option Ptr) := do
  Exec.assert (decide (pos < s.self.size))
  if pos = 0 then .ok s.self.head
  else if pos = s.self.size then .ok s.self.tail
  else if pos < s.self.size / 2 then doublyLinkedListGetNodeFromHead s pos
  else doublyLinkedListGetNodeFromTail s pos

def doublyLinkedListInsertNodeWhenEmpty (s : ListState) (newNode : Option Ptr) :
    Exec ListState := do
  Exec.assert s.self.isEmpty
  .ok { s with self := ⟨newNode, newNode, 1⟩ }

def doublyLinkedListInsertNodeInHead (s : ListState) (newNode : Option Ptr) :
    Exec ListState := do
  Exec.assert !s.self.isEmpty
  let nodes ← nodeLinkNext s.nodes newNode s.self.head
  let nodes ← nodeLinkPrev nodes s.self.head newNode
  .ok ⟨nodes, { s.self with head := newNode, size := s.self.size + 1 }⟩

def doublyLinkedListInsertNodeInTail (s : ListState) (newNode : Option Ptr) :
    Exec ListState := do
  Exec.assert !s.self.isEmpty
  let nodes ← nodeLinkPrev s.nodes newNode s.self.tail
  let nodes ← nodeLinkNext nodes s.self.tail newNode
  .ok ⟨nodes, { s.self with tail := newNode, size := s.self.size + 1 }⟩

def doublyLinkedListInsertMiddleNode (s : ListState) (pos : Nat) (newNode : Option Ptr) :
    Exec ListState := do
  Exec.assert (decide (0 < pos ∧ pos < s.self.size))
  let nodeInPos ← doublyLinkedListGetNode s pos
  let prev ← nodePrev s.nodes nodeInPos
  let nodes ← nodeLinkPrev s.nodes newNode prev
  let nodes ← nodeLinkNext nodes newNode nodeInPos
  let prev ← nodePrev nodes nodeInPos
  let nodes ← nodeLinkNext nodes prev newNode
  let nodes ← nodeLinkPrev nodes nodeInPos newNode
  .ok ⟨nodes, { s.self with size := s.self.size + 1 }⟩

def doublyLinkedListRemoveLastNode (s : ListState) : Exec (ListState × Option Ptr) := do
  Exec.assert (s.self.size == 1)
  .ok ({ s with self := ⟨none, none, 0⟩ }, s.self.head)

def doublyLinkedListRemoveHeadNode (s : ListState) : Exec (ListState × Option Ptr) := do
  Exec.assert (decide (1 < s.self.size))
  let head ← nodeNext s.nodes s.self.head
  let nodes ← nodeUnlinkPrev s.nodes head
  .ok (⟨nodes, { s.self with head := head, size := s.self.size - 1 }⟩, s.self.head)

def doublyLinkedListRemoveTailNode (s : ListState) : Exec (ListState × Option Ptr) := do
  Exec.assert (decide (1 < s.self.size))
  let tail ← nodePrev s.nodes s.self.tail
  let nodes ← nodeUnlinkNext s.nodes tail
  .ok (⟨nodes, { s.self with tail := tail, size := s.self.size - 1 }⟩, s.self.tail)

def doublyLinkedListRemoveMiddleNode (s : ListState) (pos : Nat) :
    Exec (ListState × Option Ptr) := do
  Exec.assert (decide (0 < pos ∧ pos < s.self.size - 1))
  let oldNode ← doublyLinkedListGetNode s pos
  let prev ← nodePrev s.nodes oldNode
  let next ← nodeNext s.nodes oldNode
  let nodes ← nodeLinkNext s.nodes prev next
  let next ← nodeNext nodes oldNode
  let prev ← nodePrev nodes oldNode
  let nodes ← nodeLinkPrev nodes next prev
  .ok (⟨nodes, { s.self with size := s.self.size - 1 }⟩, oldNode)

def doublyLinkedListSet (s : ListState) (pos : Nat) (tid : Tid) : Exec ListState := do
  Exec.assert (decide (pos < s.self.size))
  let node ← doublyLinkedListGetNode s pos
  let nodes ← nodeSet s.nodes node tid
  .ok { s with nodes := nodes }

def doublyLinkedListSetHead (s : ListState) (tid : Tid) : Exec ListState := do
  Exec.assert !s.self.isEmpty
  let nodes ← nodeSet s.nodes s.self.head tid
  .ok { s with nodes := nodes }

def doublyLinkedListSetTail (s : ListState) (tid : Tid) : Exec ListState := do
  Exec.assert !s.self.isEmpty
  let nodes ← nodeSet s.nodes s.self.tail tid
  .ok { s with nodes := nodes }

def doublyLinkedListGet (s : ListState) (pos : Nat) : Exec Tid := do
  Exec.assert (decide (pos < s.self.size))
  let node ← doublyLinkedListGetNode s pos
  nodeGet s.nodes node

def doublyLinkedListGetHead (s : ListState) : Exec Tid := do
  Exec.assert !s.self.isEmpty
  nodeGet s.nodes s.self.head

def doublyLinkedListGetTail (s : ListState) : Exec Tid := do
  Exec.assert !s.self.isEmpty
  nodeGet s.nodes s.self.tail

def doublyLinkedListInsert (s : ListState) (pos : Nat) (tid : Tid) (answer : Option Ptr) :
    Exec (ListState × Bool) := do
  Exec.assert (decide (pos ≤ s.self.size))
  let (nodes, newNode) := nodeNew s.nodes answer
  if newNode.isNone then .ok ({ s with nodes := nodes }, false)
  else
    let nodes ← nodeSet nodes newNode tid
    let s := { s with nodes := nodes }
    let s ← if s.self.isEmpty then doublyLinkedListInsertNodeWhenEmpty s newNode
      else if pos = 0 then doublyLinkedListInsertNodeInHead s newNode
      else if pos = s.self.size then doublyLinkedListInsertNodeInTail s newNode
      else doublyLinkedListInsertMiddleNode s pos newNode
    .ok (s, true)

def doublyLinkedListInsertHead (s : ListState) (tid : Tid) (answer : Option Ptr) :
    Exec (ListState × Bool) := do
  let (nodes, newNode) := nodeNew s.nodes answer
  if newNode.isNone then .ok ({ s with nodes := nodes }, false)
  else
    let nodes ← nodeSet nodes newNode tid
    let s ← if s.self.isEmpty then doublyLinkedListInsertNodeWhenEmpty { s with nodes := nodes } newNode
      else doublyLinkedListInsertNodeInHead { s with nodes := nodes } newNode
    .ok (s, true)

def doublyLinkedListInsertTail (s : ListState) (tid : Tid) (answer : Option Ptr) :
    Exec (ListState × Bool) := do
  let (nodes, newNode) := nodeNew s.nodes answer
  if newNode.isNone then .ok ({ s with nodes := nodes }, false)
  else
    let nodes ← nodeSet nodes newNode tid
    let s ← if s.self.isEmpty then doublyLinkedListInsertNodeWhenEmpty { s with nodes := nodes } newNode
      else doublyLinkedListInsertNodeInTail { s with nodes := nodes } newNode
    .ok (s, true)

/-- What every removal does with the node it has unlinked. -/
def destroyRemoved (s : ListState) (oldNode : Option Ptr) : Exec (ListState × Tid) := do
  let tid ← nodeGet s.nodes oldNode
  match oldNode with
  | none => .ok (s, tid)
  | some p => do
      let nodes ← nodeDestroy s.nodes p
      .ok ({ s with nodes := nodes }, tid)

def doublyLinkedListRemove (s : ListState) (pos : Nat) : Exec (ListState × Tid) := do
  Exec.assert (decide (pos < s.self.size))
  let (s, oldNode) ← if s.self.isEmpty then doublyLinkedListRemoveLastNode s
    else if pos = 0 then doublyLinkedListRemoveHeadNode s
    else if pos = s.self.size then doublyLinkedListRemoveTailNode s
    else doublyLinkedListRemoveMiddleNode s pos
  destroyRemoved s oldNode

def doublyLinkedListRemoveHead (s : ListState) : Exec (ListState × Tid) := do
  Exec.assert !s.self.isEmpty
  let (s, oldHead) ← if s.self.size = 1 then doublyLinkedListRemoveLastNode s
    else doublyLinkedListRemoveHeadNode s
  destroyRemoved s oldHead

def doublyLinkedListRemoveTail (s : ListState) : Exec (ListState × Tid) := do
  Exec.assert !s.self.isEmpty
  let (s, oldTail) ← if s.self.size = 1 then doublyLinkedListRemoveLastNode s
    else doublyLinkedListRemoveTailNode s
  destroyRemoved s oldTail

def queueIsEmpty (s : ListState) : Bool := s.self.isEmpty

def queueEnqueue (s : ListState) (tid : Tid) (answer : Option Ptr) : Exec (ListState × Bool) :=
  doublyLinkedListInsertHead s tid answer

def queueDequeue (s : ListState) : Exec (ListState × Tid) := doublyLinkedListRemoveTail s

/-- `doubly_linked_list_finalize`: only an empty list may go. -/
def doublyLinkedListFinalize (s : ListState) : Exec Unit := Exec.assert s.self.isEmpty

/-- `queue_destroy`, up to the release of the list itself. -/
def queueDestroy (s : ListState) : Exec Unit := doublyLinkedListFinalize s

end Aesd
