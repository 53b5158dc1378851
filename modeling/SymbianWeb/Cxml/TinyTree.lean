import SymbianWeb.Library.FaultState
import Mathlib.Data.BitVec

/-!
# The tiny tree (`tinytree/src/tree.c`)

A node has one pointer to its first child and one to its next sibling; the next sibling of the
last sibling is the parent, and the flag `TNODE_FLAG_LASTSIBLING` tells the two apart. Nodes are
never moved or freed, so a pointer is the number under which the node was created. A failed
assertion, an access through a null pointer and a walk that never ends are faults.

The walks over siblings take fuel. A walk makes the same step at the same node, so one that takes
more steps than there are nodes never ends.
-/

set_option autoImplicit false

namespace SymbianWeb.TinyTree

open FaultState

/-- The address of a node. -/
abbrev NodeId := Nat

/-- My next_sibling points to parent -/
def TNODE_FLAG_LASTSIBLING : BitVec 16 := 0x8000#16

/-- I'm the tree root -/
def TNODE_FLAG_ROOT : BitVec 16 := 0x4000#16

/-- `NW_TinyTree_Node_t`; the pointer to the tree is the same for all nodes. -/
structure Node where
  flags : BitVec 16
  source_offset : UInt32
  first_child : Option NodeId
  next_sibling : Option NodeId
  token : UInt16
  deriving DecidableEq

/-- `(node->flags & TNODE_FLAG_LASTSIBLING) == TNODE_FLAG_LASTSIBLING` -/
def Node.isLastSibling (n : Node) : Bool :=
  n.flags &&& TNODE_FLAG_LASTSIBLING == TNODE_FLAG_LASTSIBLING

/-- `(node->flags & TNODE_FLAG_ROOT) == TNODE_FLAG_ROOT` -/
def Node.isRoot (n : Node) : Bool := n.flags &&& TNODE_FLAG_ROOT == TNODE_FLAG_ROOT

/-- `NW_TinyTree_t`: the vector of nodes and the index of the root, which is 0 until it is set. -/
structure Tree where
  nodes : NodeId → Option Node
  count : Nat
  root_index : Nat

inductive Status where
  | success
  | failure
  deriving DecidableEq

/-- `NW_TinyTree_new` and `NW_TinyTree_construct` -/
def new : Tree where
  nodes _ := none
  count := 0
  root_index := 0

def Tree.setNode (t : Tree) (id : NodeId) (n : Node) : Tree :=
  { t with nodes := Function.update t.nodes id (some n) }

/-- Read a node through a pointer. -/
def deref (id : NodeId) : FaultM Tree Node := fun t => (t.nodes id).map fun n => (n, t)

/-- Write a node through a pointer. -/
def modifyNode (id : NodeId) (f : Node → Node) : FaultM Tree Unit := fun t =>
  (t.nodes id).map fun n => ((), t.setNode id (f n))

/-! ## Creating nodes -/

/-- `NW_TinyTree_appendNode`; `alloc` tells whether the vector can grow. -/
def appendNode (alloc : Bool) (node : Node) : FaultM Tree (Option NodeId) := do
  if alloc then
    let t ← get
    modify fun t => { t.setNode t.count node with count := t.count + 1 }
    pure (some t.count)
  else
    pure none

def createNode (alloc : Bool) (offset : UInt32) : FaultM Tree (Option NodeId) := do
  let t ← get
  guardM (t.root_index = 1)
  appendNode alloc
    { flags := 0, source_offset := offset, first_child := none, next_sibling := none, token := 0 }

/-- The root is stored twice, the first time as a dummy element. -/
def setRoot (alloc alloc' : Bool) (offset : UInt32) : FaultM Tree (Option NodeId) := do
  let t ← get
  guardM (t.root_index = 0)
  modify fun t => { t with root_index := 1 }
  let root_node : Node :=
    { flags := TNODE_FLAG_ROOT, source_offset := offset, first_child := none,
      next_sibling := none, token := 0 }
  let dummy ← appendNode alloc root_node
  match dummy with
  | none => pure none
  | some _ => appendNode alloc' root_node

/-! ## Finding nodes -/

def findNextSibling (node : NodeId) : FaultM Tree (Option NodeId) := do
  let n ← deref node
  if n.isLastSibling = true ∨ n.next_sibling = none then
    pure none
  else
    pure n.next_sibling

/-- The loop of `findLastSibling`. -/
def lastSiblingLoop : Nat → NodeId → FaultM Tree NodeId
  | 0, _ => fault
  | fuel + 1, sibling => do
      let n ← deref sibling
      match n.isLastSibling, n.next_sibling with
      | false, some next => lastSiblingLoop fuel next
      | _, _ => pure sibling

def findLastSibling (node : NodeId) : FaultM Tree (Option NodeId) := do
  let t ← get
  let sibling ← lastSiblingLoop t.count node
  if sibling = node then
    pure none
  else
    pure (some sibling)

def findFirstChild (node : NodeId) : FaultM Tree (Option NodeId) := do
  let n ← deref node
  pure n.first_child

def findLastChild (node : NodeId) : FaultM Tree (Option NodeId) := do
  let first ← findFirstChild node
  match first with
  | none => pure none
  | some first =>
      let last ← findLastSibling first
      match last with
      | none => pure (some first)
      | some last => pure (some last)

def findParent (node : NodeId) : FaultM Tree (Option NodeId) := do
  let n ← deref node
  if n.isRoot = true then
    pure none
  else if n.next_sibling = none then
    pure none
  else
    let last_sibling ← findLastSibling node
    let last ← deref (last_sibling.getD node)
    pure last.next_sibling

/-- The loop of `findPreviousSibling`: find a sibling whose next_sibling points to `node`. -/
def previousSiblingLoop (node : NodeId) : Nat → NodeId → FaultM Tree NodeId
  | 0, _ => fault
  | fuel + 1, sibling => do
      let n ← deref sibling
      match n.next_sibling with
      | none => fault
      | some next => if next = node then pure sibling else previousSiblingLoop node fuel next

def findPreviousSibling (node : NodeId) : FaultM Tree (Option NodeId) := do
  let parent ← findParent node
  match parent with
  | none => pure none
  | some parent =>
      let first ← findFirstChild parent
      match first with
      | none => fault
      | some sibling =>
          if sibling = node then
            pure none
          else
            let t ← get
            let previous ← previousSiblingLoop node t.count sibling
            pure (some previous)

/-! ## Attaching and deleting nodes -/

def attachAfter (node sibling : NodeId) : FaultM Tree Status := do
  let n ← deref node
  whenM (n.isLastSibling = true) do
    modifyNode node fun n => { n with flags := n.flags &&& ~~~TNODE_FLAG_LASTSIBLING }
    modifyNode sibling fun n => { n with flags := n.flags ||| TNODE_FLAG_LASTSIBLING }
  let n ← deref node
  modifyNode sibling fun m => { m with next_sibling := n.next_sibling }
  modifyNode node fun m => { m with next_sibling := some sibling }
  pure .success

def attachBefore (node sibling : NodeId) : FaultM Tree Status := do
  let previous ← findPreviousSibling node
  match previous with
  | some previous =>
      let _ ← attachAfter previous sibling
      pure .success
  | none =>
      let parent ← findParent node
      match parent with
      | none => pure .failure
      | some parent =>
          modifyNode parent fun n => { n with first_child := some sibling }
          modifyNode sibling fun n => { n with next_sibling := some node }
          pure .success

def attachChild (node child : NodeId) : FaultM Tree Status := do
  let last_child ← findLastChild node
  match last_child with
  | none =>
      modifyNode node fun n => { n with first_child := some child }
      modifyNode child fun n => { n with next_sibling := some node }
      modifyNode child fun n => { n with flags := n.flags ||| TNODE_FLAG_LASTSIBLING }
      pure .success
  | some last_child => attachAfter last_child child

def deleteNode (node : NodeId) : FaultM Tree Status := do
  let n ← deref node
  if n.isRoot = true then
    pure .success
  else
    let previous_sibling ← findPreviousSibling node
    match previous_sibling with
    | none =>
        let parent ← findParent node
        match parent with
        | none => fault
        | some parent =>
            if n.isLastSibling = true then
              modifyNode parent fun m => { m with first_child := none }
            else
              modifyNode parent fun m => { m with first_child := n.next_sibling }
            pure .success
    | some previous_sibling =>
        modifyNode previous_sibling fun m => { m with next_sibling := n.next_sibling }
        whenM (n.isLastSibling = true)
          (modifyNode previous_sibling fun m =>
            { m with flags := m.flags ||| TNODE_FLAG_LASTSIBLING })
        pure .success

def createChild (alloc : Bool) (parent : NodeId) (offset : UInt32) :
    FaultM Tree (Option NodeId) := do
  let child ← createNode alloc offset
  match child with
  | none => pure none
  | some child =>
      let _ ← attachChild parent child
      pure (some child)

/-- The new node is attached without a check that it was created. -/
def createSibling (alloc : Bool) (node : NodeId) (offset : UInt32) :
    FaultM Tree (Option NodeId) := do
  let sibling ← createNode alloc offset
  match sibling with
  | none => fault
  | some sibling =>
      let _ ← attachAfter node sibling
      pure (some sibling)

/-! ## Calls -/

/-- The calls that change the tree. -/
inductive Op where
  | createChild (alloc : Bool) (parent : NodeId) (offset : UInt32)
  | createSibling (alloc : Bool) (node : NodeId) (offset : UInt32)
  | attachAfter (node sibling : NodeId)
  | attachBefore (node sibling : NodeId)
  | attachChild (node child : NodeId)
  | deleteNode (node : NodeId)

/-- What a call returns. -/
inductive Outcome where
  | node (id : Option NodeId)
  | status (status : Status)
  deriving DecidableEq

def exec : Op → FaultM Tree Outcome
  | .createChild alloc parent offset => do return .node (← createChild alloc parent offset)
  | .createSibling alloc node offset => do return .node (← createSibling alloc node offset)
  | .attachAfter node sibling => do return .status (← attachAfter node sibling)
  | .attachBefore node sibling => do return .status (← attachBefore node sibling)
  | .attachChild node child => do return .status (← attachChild node child)
  | .deleteNode node => do return .status (← deleteNode node)

end SymbianWeb.TinyTree
