import SymbianWeb.Cxml.TinyTreeForest

/-!
# Runs of the tiny tree

`Step` says what each call means on an ordered rooted tree, and a `Run` is a sequence of calls
together with what they mean. `deleteNode` leaves the `LASTSIBLING` flag of the node it cuts off,
and `attachAfter` and `attachBefore` do not clear the flag of the node they attach: when such a
node is put before another one it ends the chain of siblings there, and its siblings are lost.
`finders_correct` says that the find functions return what they return on the tree as long as no
flagged node is attached before a sibling.
-/

set_option autoImplicit false

namespace SymbianWeb.TinyTree

open FaultState RootedForest

/-! ## New nodes -/

section Create

variable {t : Tree} {f : RootedForest NodeId}

/-- The heap with a new node. -/
def Tree.withNode (t : Tree) (offset : UInt32) : Tree :=
  { t.setNode t.count
      { flags := 0, source_offset := offset, first_child := none, next_sibling := none,
        token := 0 } with
    count := t.count + 1 }

theorem createNode_run (hroot : t.root_index = 1) (offset : UInt32) :
    createNode true offset t = some (some t.count, t.withNode offset) ∧
      createNode false offset t = some (none, t) := by
  constructor
  · rw [createNode, get_bind, guardM_of hroot]
    rfl
  · rw [createNode, get_bind, guardM_of hroot]
    rfl

theorem withNode_same {offset : UInt32} {n : NodeId} (hn : n ≠ t.count) :
    (t.withNode offset).nodes n = t.nodes n :=
  Function.update_of_ne hn _ _

theorem Represents.not_mem_count (h : Represents t f) : t.count ∉ f.nodes := by
  intro hmem
  exact absurd (h.lt_count hmem) (Nat.lt_irrefl _)

/-- The new node is cut off, and its flag is not set. -/
theorem Represents.withNode (h : Represents t f) (offset : UInt32) :
    Represents (t.withNode offset) (f.addNode t.count) ∧
      ¬ Flagged (t.withNode offset) t.count := by
  have hcount := h.not_mem_count
  have hsame : ∀ {n}, n ∈ f.nodes → (t.withNode offset).nodes n = t.nodes n := by
    intro n hn
    exact withNode_same fun heq => hcount (heq ▸ hn)
  have hnew : (t.withNode offset).nodes t.count = some ⟨0, offset, none, none, 0⟩ :=
    Function.update_self ..
  have hleaf : f.children t.count = [] := by
    apply List.eq_nil_iff_forall_not_mem.2
    intro c hc
    exact hcount (f.child_mem hc).1
  refine ⟨⟨h.root_index, ?_, ?_, ?_, ?_, ?_, ?_⟩, ?_⟩
  · intro n hn
    have hlt : t.count < n := hn
    rw [withNode_same (Nat.ne_of_gt hlt)]
    exact h.fresh n (Nat.le_of_lt hlt)
  · rintro n (rfl | hn)
    · rw [hnew]
      rfl
    · rw [hsame hn]
      exact h.live n hn
  · have hlink := h.rootLink
    rw [Tree.link] at hlink ⊢
    rwa [addNode, hsame f.root_mem]
  · rintro n (rfl | hn)
    · have hne : t.count ≠ f.root := fun heq => hcount (heq ▸ f.root_mem)
      rw [Tree.rootFlag, hnew, addNode, decide_eq_false hne]
      simp [isRoot_eq]
    · rw [Tree.rootFlag, hsame hn]
      exact h.rootFlag n hn
  · rintro n (rfl | hn)
    · rw [Tree.firstChild, hnew, addNode, hleaf]
      rfl
    · rw [Tree.firstChild, hsame hn]
      exact h.firstChild n hn
  · intro p
    apply (h.chain p).congr
    intro n hn
    rw [Tree.link, Tree.link, hsame (f.child_mem hn).2]
  · rintro ⟨d, hd, hlast⟩
    rw [hnew, Option.some.injEq] at hd
    subst hd
    simp [isLastSibling_eq] at hlast

end Create

/-! ## What the calls mean -/

/-- What a call means on an ordered rooted tree. It has no meaning when the node that is to be
attached is not cut off, when the root is to get a sibling, or when a node that is cut off already
is to be deleted. -/
inductive Step (f : RootedForest NodeId) : Op → Outcome → RootedForest NodeId → Prop where
  | createChild {p x : NodeId} {offset : UInt32} (hx : x ∉ f.nodes) (hp : p ∈ f.nodes)
      (hc : (f.addNode x).CanAttach p (f.children p) x []) :
      Step f (.createChild true p offset) (.node (some x)) (attach hc)
  | createChildFails {p : NodeId} {offset : UInt32} :
      Step f (.createChild false p offset) (.node none) f
  | createSibling {n p x : NodeId} {offset : UInt32} {l₁ l₂ : List NodeId} (hx : x ∉ f.nodes)
      (hp : p ∈ f.nodes) (hc : (f.addNode x).CanAttach p (l₁ ++ [n]) x l₂) :
      Step f (.createSibling true n offset) (.node (some x)) (attach hc)
  | attachAfter {n p x : NodeId} {l₁ l₂ : List NodeId} (hc : f.CanAttach p (l₁ ++ [n]) x l₂) :
      Step f (.attachAfter n x) (.status .success) (attach hc)
  | attachBefore {n p x : NodeId} {l₁ l₂ : List NodeId} (hc : f.CanAttach p l₁ x (n :: l₂)) :
      Step f (.attachBefore n x) (.status .success) (attach hc)
  | attachBeforeRoot {x : NodeId} : Step f (.attachBefore f.root x) (.status .failure) f
  | attachChild {p x : NodeId} (hc : f.CanAttach p (f.children p) x []) :
      Step f (.attachChild p x) (.status .success) (attach hc)
  | deleteNode {n p : NodeId} {l₁ l₂ : List NodeId} (h : f.children p = l₁ ++ n :: l₂) :
      Step f (.deleteNode n) (.status .success) (detach h)
  | deleteRoot : Step f (.deleteNode f.root) (.status .success) f

/-- The node that is attached before a sibling does not have the `LASTSIBLING` flag: it is new,
or it was not the last of its siblings when it was deleted. -/
def NoStaleFlag (t : Tree) : Op → Prop
  | .attachAfter n x => Flagged t n ∨ ¬ Flagged t x
  | .attachBefore _ x => ¬ Flagged t x
  | _ => True

section Simulation

variable {t : Tree} {f f' : RootedForest NodeId} {op : Op} {out : Outcome}

/-- A call does what it means, when the number of a new node is the one that the heap gives it. -/
theorem Represents.step (h : Represents t f) (hstep : Step f op out f')
    (hid : ∀ x, out = .node (some x) → x = t.count) (hflag : NoStaleFlag t op) :
    ∃ t', exec op t = some (out, t') ∧ Represents t' f' := by
  cases hstep with
  | @createChild p x offset hx hp hc =>
      obtain rfl := hid x rfl
      obtain ⟨t', hrun, hrep⟩ := (h.withNode offset).1.attachChild hc
      refine ⟨t', ?_, hrep⟩
      have hcreate : TinyTree.createChild true p offset t = some (some t.count, t') := by
        rw [TinyTree.createChild, bind_of (createNode_run h.root_index offset).1]
        exact bind_of hrun
      exact bind_of hcreate
  | @createChildFails p offset =>
      refine ⟨t, ?_, h⟩
      have hcreate : TinyTree.createChild false p offset t = some (none, t) := by
        rw [TinyTree.createChild, bind_of (createNode_run h.root_index offset).2]
        rfl
      exact bind_of hcreate
  | @createSibling n p x offset l₁ l₂ hx hp hc =>
      obtain rfl := hid x rfl
      have hnew := h.withNode offset
      obtain ⟨t', hrun, hrep⟩ := hnew.1.attachAfter hc fun _ => hnew.2
      refine ⟨t', ?_, hrep⟩
      have hcreate : TinyTree.createSibling true n offset t = some (some t.count, t') := by
        rw [TinyTree.createSibling, bind_of (createNode_run h.root_index offset).1]
        exact bind_of hrun
      exact bind_of hcreate
  | @attachAfter n p x l₁ l₂ hc =>
      have hstale : l₂ ≠ [] → ¬ Flagged t x := by
        intro hne
        rcases hflag with ⟨d, hd, hlast⟩ | hx
        · have hsplit : f.children p = l₁ ++ n :: l₂ := by simp [hc.children]
          obtain ⟨d', hd', -, hlast', -⟩ := h.child hsplit
          rw [hd, Option.some.injEq] at hd'
          subst hd'
          exact absurd (List.isEmpty_iff.1 (hlast'.symm.trans hlast)) hne
        · exact hx
      obtain ⟨t', hrun, hrep⟩ := h.attachAfter hc hstale
      exact ⟨t', bind_of hrun, hrep⟩
  | attachBefore hc =>
      obtain ⟨t', hrun, hrep⟩ := h.attachBefore hc hflag
      exact ⟨t', bind_of hrun, hrep⟩
  | @attachBeforeRoot x =>
      refine ⟨t, ?_, h⟩
      have hbefore : TinyTree.attachBefore f.root x t = some (.failure, t) := by
        rw [TinyTree.attachBefore, bind_of h.find_root.2.2.2]
        simp only
        rw [bind_of h.find_root.1]
        rfl
      exact bind_of hbefore
  | attachChild hc =>
      obtain ⟨t', hrun, hrep⟩ := h.attachChild hc
      exact ⟨t', bind_of hrun, hrep⟩
  | deleteNode hsplit =>
      obtain ⟨t', hrun, hrep⟩ := h.deleteNode hsplit
      exact ⟨t', bind_of hrun, hrep⟩
  | deleteRoot =>
      refine ⟨t, ?_, h⟩
      obtain ⟨d, hd, hroot, -⟩ := h.node f.root_mem
      have hdelete : TinyTree.deleteNode f.root t = some (.success, t) := by
        rw [TinyTree.deleteNode, bind_of (deref_of hd), hroot, decide_eq_true rfl]
        rfl
      exact bind_of hdelete

/-- A call that creates a node returns the next free number. -/
theorem exec_node {t' : Tree} {x : NodeId} (h : Represents t f)
    (hstep : Step f op (.node (some x)) f') (hrun : exec op t = some (.node (some x), t')) :
    x = t.count := by
  cases hstep with
  | createChild =>
      obtain ⟨r, t₁, hcreate, hpure⟩ := bind_eq_some.1 hrun
      rw [createChild, bind_of (createNode_run h.root_index _).1] at hcreate
      obtain ⟨_, t₂, -, hid⟩ := bind_eq_some.1 hcreate
      rw [pure_eq_some, Prod.mk.injEq] at hpure hid
      obtain ⟨rfl, -⟩ := hid
      obtain ⟨heq, -⟩ := hpure
      cases heq
      rfl
  | createSibling =>
      obtain ⟨r, t₁, hcreate, hpure⟩ := bind_eq_some.1 hrun
      rw [createSibling, bind_of (createNode_run h.root_index _).1] at hcreate
      obtain ⟨_, t₂, -, hid⟩ := bind_eq_some.1 hcreate
      rw [pure_eq_some, Prod.mk.injEq] at hpure hid
      obtain ⟨rfl, -⟩ := hid
      obtain ⟨heq, -⟩ := hpure
      cases heq
      rfl

/-- With the number that the heap gives to a new node, a call that means something still does. -/
theorem Step.renumber (hstep : Step f op out f') {x : NodeId} (hx : x ∉ f.nodes) :
    ∃ out' f'', Step f op out' f'' ∧ ∀ y, out' = .node (some y) → y = x := by
  cases hstep with
  | @createChild p y offset hy hp hc =>
      refine ⟨_, _, .createChild hx hp (canAttach_addNode hx hp (by simp)), ?_⟩
      intro z hz
      cases hz
      rfl
  | @createSibling n p y offset l₁ l₂ hy hp hc =>
      have hsplit : f.children p = l₁ ++ [n] ++ l₂ := hc.children
      refine ⟨_, _, .createSibling hx hp (canAttach_addNode hx hp hsplit), ?_⟩
      intro z hz
      cases hz
      rfl
  | createChildFails => exact ⟨_, _, .createChildFails, fun y hy => by cases hy⟩
  | attachAfter hc => exact ⟨_, _, .attachAfter hc, fun y hy => by cases hy⟩
  | attachBefore hc => exact ⟨_, _, .attachBefore hc, fun y hy => by cases hy⟩
  | attachBeforeRoot => exact ⟨_, _, .attachBeforeRoot, fun y hy => by cases hy⟩
  | attachChild hc => exact ⟨_, _, .attachChild hc, fun y hy => by cases hy⟩
  | deleteNode h => exact ⟨_, _, .deleteNode h, fun y hy => by cases hy⟩
  | deleteRoot => exact ⟨_, _, .deleteRoot, fun y hy => by cases hy⟩

end Simulation

/-! ## Runs -/

/-- The runs of calls that meet `ok`, with what they mean: the tree is set up with a root, and
every call returns. -/
inductive Run (ok : Tree → Op → Prop) : Tree → RootedForest NodeId → Prop where
  | setRoot {alloc alloc' : Bool} {offset : UInt32} {root : NodeId} {t : Tree}
      (hrun : setRoot alloc alloc' offset new = some (some root, t)) : Run ok t (single root)
  | call {t t' : Tree} {f f' : RootedForest NodeId} {op : Op} {out : Outcome} (h : Run ok t f)
      (hok : ok t op) (hrun : exec op t = some (out, t')) (hstep : Step f op out f') : Run ok t' f'

/-- The find functions return what they return on the tree, for every node that is not at the top
of a cut-off subtree, and each chain of siblings ends in exactly one node with the flag, whose
next_sibling is the parent. -/
structure FindersCorrect (t : Tree) (f : RootedForest NodeId) : Prop where
  firstChild : ∀ n ∈ f.nodes, findFirstChild n t = some (f.firstChild n, t)
  lastChild : ∀ n ∈ f.nodes, findLastChild n t = some (f.lastChild n, t)
  parent : ∀ n ∈ f.nodes, ¬ f.CutOff n → findParent n t = some (f.parent n, t)
  nextSibling : ∀ n ∈ f.nodes, ¬ f.CutOff n → findNextSibling n t = some (f.nextSibling n, t)
  lastSibling : ∀ n ∈ f.nodes, ¬ f.CutOff n → findLastSibling n t = some (f.lastSibling n, t)
  previousSibling : ∀ n ∈ f.nodes, ¬ f.CutOff n →
    findPreviousSibling n t = some (f.previousSibling n, t)
  chains : ∀ p n l, f.children p = l ++ [n] →
    (∃ d, t.nodes n = some d ∧ d.isLastSibling = true ∧ d.next_sibling = some p) ∧
      ∀ m ∈ l, ¬ Flagged t m

/-- A node is the root, at the top of a cut-off subtree, or among the children of some node. -/
theorem node_cases {f : RootedForest NodeId} {n : NodeId} (hn : n ∈ f.nodes) (hc : ¬ f.CutOff n) :
    n = f.root ∨ ∃ p l₁ l₂, f.children p = l₁ ++ n :: l₂ := by
  by_cases hroot : n = f.root
  · exact .inl hroot
  · by_cases hex : ∃ p, n ∈ f.children p
    · obtain ⟨p, hp⟩ := hex
      obtain ⟨l₁, l₂, hsplit⟩ := List.append_of_mem hp
      exact .inr ⟨p, l₁, l₂, hsplit⟩
    · exact absurd ⟨hn, hroot, fun p hp => hex ⟨p, hp⟩⟩ hc

theorem Represents.findersCorrect {t : Tree} {f : RootedForest NodeId} (h : Represents t f) :
    FindersCorrect t f where
  firstChild n hn := h.findFirstChild hn
  lastChild n hn := h.findLastChild hn
  parent n hn hc := by
    rcases node_cases hn hc with rfl | ⟨p, l₁, l₂, hsplit⟩
    · rw [h.find_root.1, (neighbours_of_not_mem f.root_top).1]
    · rw [h.findParent_child hsplit, (neighbours_of_children hsplit).1]
  nextSibling n hn hc := by
    rcases node_cases hn hc with rfl | ⟨p, l₁, l₂, hsplit⟩
    · rw [h.find_root.2.1, nextSibling, (neighbours_of_not_mem f.root_top).2.2]
      rfl
    · rw [h.findNextSibling_child hsplit, nextSibling, (neighbours_of_children hsplit).2.2]
  lastSibling n hn hc := by
    rcases node_cases hn hc with rfl | ⟨p, l₁, l₂, hsplit⟩
    · rw [h.find_root.2.2.1, lastSibling, (neighbours_of_not_mem f.root_top).2.2]
      rfl
    · rw [h.findLastSibling_child hsplit, lastSibling, (neighbours_of_children hsplit).2.2]
  previousSibling n hn hc := by
    rcases node_cases hn hc with rfl | ⟨p, l₁, l₂, hsplit⟩
    · rw [h.find_root.2.2.2, previousSibling, (neighbours_of_not_mem f.root_top).2.1]
      rfl
    · rw [h.findPreviousSibling_child hsplit, previousSibling, (neighbours_of_children hsplit).2.1]
  chains p n l hsplit := by
    refine ⟨?_, ?_⟩
    · obtain ⟨d, hd, -, hlast, hnext⟩ := h.child hsplit
      exact ⟨d, hd, hlast, hnext⟩
    · intro m hm
      obtain ⟨l₁, l₂, rfl⟩ := List.append_of_mem hm
      have hsplit' : f.children p = l₁ ++ m :: (l₂ ++ [n]) := by simp [hsplit]
      rw [not_flagged_iff (h.link hsplit')]
      simp

/-- The root node. -/
def rootNode (offset : UInt32) : Node where
  flags := TNODE_FLAG_ROOT
  source_offset := offset
  first_child := none
  next_sibling := none
  token := 0

theorem setRoot_run {alloc alloc' : Bool} {offset : UInt32} {root : NodeId} {t : Tree}
    (hrun : setRoot alloc alloc' offset new = some (some root, t)) : root = 1 ∧
      t = ⟨Function.update (Function.update (fun _ => none) 0 (some (rootNode offset))) 1
        (some (rootNode offset)), 2, 1⟩ := by
  cases alloc with
  | false => cases hrun
  | true =>
      cases alloc' with
      | false => cases hrun
      | true =>
          cases hrun
          exact ⟨rfl, rfl⟩

/-- The tree behind `setRoot` has only the root. -/
theorem represents_setRoot {alloc alloc' : Bool} {offset : UInt32} {root : NodeId} {t : Tree}
    (hrun : setRoot alloc alloc' offset new = some (some root, t)) :
    Represents t (single root) := by
  obtain ⟨rfl, rfl⟩ := setRoot_run hrun
  refine ⟨rfl, ?_, ?_, ?_, ?_, ?_, fun _ => trivial⟩
  · intro n hn
    have hle : 2 ≤ n := hn
    have h1 : n ≠ 1 := by omega
    have h0 : n ≠ 0 := by omega
    simp [h1, h0]
  · rintro n rfl
    rfl
  · simp [Tree.link, single, rootNode, isLastSibling_eq, TNODE_FLAG_ROOT]
  · rintro n rfl
    simp [Tree.rootFlag, single, rootNode, isRoot_eq, TNODE_FLAG_ROOT]
  · rintro n rfl
    rfl

theorem Run.represents {t : Tree} {f : RootedForest NodeId} (h : Run NoStaleFlag t f) :
    Represents t f := by
  induction h with
  | setRoot hrun => exact represents_setRoot hrun
  | @call t t' f f' op out _ hok hrun hstep ih =>
      have hid : ∀ x, out = .node (some x) → x = t.count := by
        rintro x rfl
        exact exec_node ih hstep hrun
      obtain ⟨t₁, hrun₁, hrep⟩ := ih.step hstep hid hok
      rw [hrun, Option.some.injEq, Prod.mk.injEq] at hrun₁
      rw [hrun₁.2]
      exact hrep

/-- In a run that attaches no flagged node before a sibling, the find functions return what they
return on the ordered tree, and every call that means something there returns and does what it
means. -/
theorem finders_correct {t : Tree} {f : RootedForest NodeId} (h : Run NoStaleFlag t f) :
    FindersCorrect t f ∧ ∀ op out f', Step f op out f' → NoStaleFlag t op →
      ∃ out' t' f'', exec op t = some (out', t') ∧ Step f op out' f'' ∧
        Run NoStaleFlag t' f'' := by
  refine ⟨h.represents.findersCorrect, ?_⟩
  intro op out f' hstep hok
  obtain ⟨out', f'', hstep', hid⟩ := hstep.renumber h.represents.not_mem_count
  obtain ⟨t', hrun, -⟩ := h.represents.step hstep' hid hok
  exact ⟨out', t', f'', hrun, hstep', h.call hok hrun hstep'⟩

/-! ## Two runs -/

section Examples

/-- The heap behind a call. -/
def next (t : Tree) (op : Op) : Tree := ((exec op t).map Prod.snd).getD t

theorem exec_next {t : Tree} {op : Op} (out : Outcome) (h : (exec op t).map Prod.fst = some out) :
    exec op t = some (out, next t op) := by
  obtain ⟨⟨out', t'⟩, hrun, rfl⟩ := Option.map_eq_some_iff.1 h
  simp [next, hrun]

def onlyRoot : Tree := ((setRoot true true 0 new).map Prod.snd).getD new

/-- The root 1 with the children 2 and 3. -/
def created : Tree := next (next onlyRoot (.createChild true 1 0)) (.createChild true 1 0)

def oneChild : RootedForest NodeId :=
  attach (show ((single 1).addNode 2).CanAttach 1 [] 2 [] from
    canAttach_addNode (by simp [single]) rfl rfl)

theorem oneChild_nodes : oneChild.nodes = {2, 1} := rfl

def twoChildren : RootedForest NodeId :=
  attach (show (oneChild.addNode 3).CanAttach 1 [2] 3 [] from
    canAttach_addNode (by simp [oneChild_nodes]) (by simp [oneChild_nodes]) rfl)

theorem twoChildren_nodes : twoChildren.nodes = {3, 2, 1} := rfl

theorem run_created {ok : Tree → Op → Prop} (hok : ∀ t p, ok t (.createChild true p 0)) :
    Run ok created twoChildren := by
  have h₀ : Run ok onlyRoot (single 1) :=
    .setRoot (show setRoot true true 0 new = some (some 1, onlyRoot) from rfl)
  have h₁ : Run ok (next onlyRoot (.createChild true 1 0)) oneChild :=
    h₀.call (hok _ _) (exec_next (.node (some 2)) (by decide +kernel))
      (.createChild (by simp [single]) rfl _)
  exact h₁.call (hok _ _) (exec_next (.node (some 3)) (by decide +kernel))
    (.createChild (by simp [oneChild_nodes]) (by simp [oneChild_nodes]) _)

/-- The tree behind the deletion of the child 2. -/
def firstDeleted : RootedForest NodeId :=
  detach (show twoChildren.children 1 = [] ++ 2 :: [3] from rfl)

/-- The tree behind the deletion of the child 3. -/
def secondDeleted : RootedForest NodeId :=
  detach (show twoChildren.children 1 = [2] ++ 3 :: [] from rfl)

theorem children_deleted {p : NodeId} : (p ≠ 1 → firstDeleted.children p = []) ∧
    (p ≠ 1 → secondDeleted.children p = []) := by
  refine ⟨fun hp => ?_, fun hp => ?_⟩
  · simp [firstDeleted, twoChildren, oneChild, detach, attach, addNode, single, hp]
  · simp [secondDeleted, twoChildren, oneChild, detach, attach, addNode, single, hp]

theorem canAttach_firstDeleted : firstDeleted.CanAttach 1 [3] 2 [] where
  children := rfl
  parent := .inr (.inr rfl)
  cutOff := by
    refine ⟨.inr (.inl rfl), by decide, fun p hp => ?_⟩
    by_cases h : p = 1
    · subst h
      exact absurd hp (by decide)
    · rw [children_deleted.1 h] at hp
      cases hp
  notBelow h := by
    have heq := (below_iff_of_leaf (children_deleted.1 (by decide))).1 h
    cases heq

theorem canAttach_secondDeleted : secondDeleted.CanAttach 1 [] 3 [2] where
  children := rfl
  parent := .inr (.inr rfl)
  cutOff := by
    refine ⟨.inl rfl, by decide, fun p hp => ?_⟩
    by_cases h : p = 1
    · subst h
      exact absurd hp (by decide)
    · rw [children_deleted.2 h] at hp
      cases hp
  notBelow h := by
    have heq := (below_iff_of_leaf (children_deleted.2 (by decide))).1 h
    cases heq

/-- The first child is deleted and attached again as the last one. -/
theorem finders_correct_reattached : ∃ t f, Run NoStaleFlag t f ∧ f.children 1 = [3, 2] ∧
    FindersCorrect t f := by
  have h₁ : Run NoStaleFlag (next created (.deleteNode 2)) firstDeleted :=
    (run_created fun _ _ => trivial).call (show NoStaleFlag created (.deleteNode 2) from trivial)
      (exec_next (.status .success) (by decide +kernel)) (.deleteNode _)
  have hok : NoStaleFlag (next created (.deleteNode 2)) (.attachChild 1 2) := trivial
  have h₂ : Run NoStaleFlag (next (next created (.deleteNode 2)) (.attachChild 1 2))
      (attach canAttach_firstDeleted) :=
    h₁.call hok (exec_next (.status .success) (by decide +kernel))
      (.attachChild canAttach_firstDeleted)
  exact ⟨_, _, h₂, rfl, (finders_correct h₂).1⟩

/-- The last child is deleted and attached again before the first one: it keeps its flag, and its
next sibling is not found. -/
theorem not_finders_correct : ¬ ∀ (t : Tree) (f : RootedForest NodeId),
    Run (fun _ _ => True) t f → FindersCorrect t f := by
  intro h
  have h₁ : Run (fun _ _ => True) (next created (.deleteNode 3)) secondDeleted :=
    (run_created fun _ _ => trivial).call trivial
      (exec_next (.status .success) (by decide +kernel)) (.deleteNode _)
  have h₂ : Run (fun _ _ => True) (next (next created (.deleteNode 3)) (.attachBefore 2 3))
      (attach canAttach_secondDeleted) :=
    h₁.call trivial (exec_next (.status .success) (by decide +kernel))
      (.attachBefore canAttach_secondDeleted)
  have hsplit : (attach canAttach_secondDeleted).children 1 = [] ++ 3 :: [2] := rfl
  have hmem : (3 : NodeId) ∈ (attach canAttach_secondDeleted).children 1 := by
    rw [hsplit]
    exact List.mem_cons_self
  have hfind := (h _ _ h₂).nextSibling 3 (.inl rfl) fun hcut => hcut.2.2 1 hmem
  rw [nextSibling, (neighbours_of_children hsplit).2.2] at hfind
  have hcode : (findNextSibling 3 (next (next created (.deleteNode 3)) (.attachBefore 2 3))).map
      Prod.fst = some none := by
    decide +kernel
  rw [hfind] at hcode
  cases hcode

end Examples

end SymbianWeb.TinyTree
