import SymbianWeb.Cxml.TinyTree
import SymbianWeb.Library.RootedForest

/-!
# The tiny tree is an ordered rooted tree

`Represents t f` says that the nodes of the heap are those of the forest `f` and that the
pointers draw it: the first child is the first of the children, and the children of a node are a
`Chain` that ends at it. All the pointers and flags a function reads or writes are in the views
`firstChild`, `link` and `rootFlag` of the heap, so each mutator has one lemma that gives the
views behind it, and the invariant is kept by comparing the views.
-/

set_option autoImplicit false

namespace SymbianWeb.TinyTree

open FaultState RootedForest

/-! ## Flags -/

theorem isLastSibling_eq (n : Node) : n.isLastSibling = n.flags.getLsbD 15 := by
  have hflag : TNODE_FLAG_LASTSIBLING = BitVec.twoPow 16 15 := by decide
  rw [Node.isLastSibling, hflag, BitVec.and_twoPow]
  cases n.flags.getLsbD 15 <;> decide

theorem isRoot_eq (n : Node) : n.isRoot = n.flags.getLsbD 14 := by
  have hflag : TNODE_FLAG_ROOT = BitVec.twoPow 16 14 := by decide
  rw [Node.isRoot, hflag, BitVec.and_twoPow]
  cases n.flags.getLsbD 14 <;> decide

/-- The node with its `LASTSIBLING` flag set. -/
def Node.setLast (n : Node) : Node := { n with flags := n.flags ||| TNODE_FLAG_LASTSIBLING }

/-- The node with its `LASTSIBLING` flag cleared. -/
def Node.clearLast (n : Node) : Node := { n with flags := n.flags &&& ~~~TNODE_FLAG_LASTSIBLING }

@[simp] theorem isLastSibling_setLast (n : Node) : n.setLast.isLastSibling = true := by
  simp [isLastSibling_eq, Node.setLast, TNODE_FLAG_LASTSIBLING]

@[simp] theorem isLastSibling_clearLast (n : Node) : n.clearLast.isLastSibling = false := by
  simp [isLastSibling_eq, Node.clearLast, TNODE_FLAG_LASTSIBLING]

@[simp] theorem isRoot_setLast (n : Node) : n.setLast.isRoot = n.isRoot := by
  simp [isRoot_eq, Node.setLast, TNODE_FLAG_LASTSIBLING]

@[simp] theorem isRoot_clearLast (n : Node) : n.clearLast.isRoot = n.isRoot := by
  simp [isRoot_eq, Node.clearLast, TNODE_FLAG_LASTSIBLING]

/-! ## Views of the heap -/

/-- The first child of a node. -/
def Tree.firstChild (t : Tree) (n : NodeId) : Option (Option NodeId) :=
  (t.nodes n).map Node.first_child

/-- Whether a node is the last sibling, and where its next sibling points. -/
def Tree.link (t : Tree) (n : NodeId) : Option (Bool × Option NodeId) :=
  (t.nodes n).map fun d => (d.isLastSibling, d.next_sibling)

def Tree.rootFlag (t : Tree) (n : NodeId) : Option Bool := (t.nodes n).map Node.isRoot

theorem exists_of_link {t : Tree} {n : NodeId} {last : Bool} {next : Option NodeId}
    (h : t.link n = some (last, next)) :
    ∃ d, t.nodes n = some d ∧ d.isLastSibling = last ∧ d.next_sibling = next := by
  obtain ⟨d, hd, heq⟩ := Option.map_eq_some_iff.1 h
  rw [Prod.mk.injEq] at heq
  exact ⟨d, hd, heq.1, heq.2⟩

/-- The tree `t'` is `t` with other links and first children. -/
structure Relinked (t t' : Tree) (link : NodeId → Option (Bool × Option NodeId))
    (firstChild : NodeId → Option (Option NodeId)) : Prop where
  count : t'.count = t.count
  root_index : t'.root_index = t.root_index
  live : ∀ n, (t'.nodes n).isSome = (t.nodes n).isSome
  rootFlag : t'.rootFlag = t.rootFlag
  link : t'.link = link
  firstChild : t'.firstChild = firstChild

theorem Relinked.refl (t : Tree) : Relinked t t t.link t.firstChild :=
  ⟨rfl, rfl, fun _ => rfl, rfl, rfl, rfl⟩

theorem Relinked.trans {t₁ t₂ t₃ : Tree} {link₂ link₃ : NodeId → Option (Bool × Option NodeId)}
    {firstChild₂ firstChild₃ : NodeId → Option (Option NodeId)}
    (h : Relinked t₁ t₂ link₂ firstChild₂) (h' : Relinked t₂ t₃ link₃ firstChild₃) :
    Relinked t₁ t₃ link₃ firstChild₃ :=
  ⟨h'.count.trans h.count, h'.root_index.trans h.root_index,
    fun n => (h'.live n).trans (h.live n), h'.rootFlag.trans h.rootFlag, h'.link, h'.firstChild⟩

section Update

variable {t : Tree} {n : NodeId} {d : Node}

/-- Writing one node changes the views at this node. -/
theorem relinked_setNode (d' : Node) (hd : t.nodes n = some d) (hroot : d'.isRoot = d.isRoot) :
    Relinked t (t.setNode n d')
      (Function.update t.link n (some (d'.isLastSibling, d'.next_sibling)))
      (Function.update t.firstChild n (some d'.first_child)) := by
  refine ⟨rfl, rfl, ?_, ?_, ?_, ?_⟩
  · intro m
    by_cases hm : m = n
    · subst hm
      simp [Tree.setNode, hd]
    · simp [Tree.setNode, Function.update_of_ne hm]
  · funext m
    by_cases hm : m = n
    · subst hm
      simp [Tree.rootFlag, Tree.setNode, hd, hroot]
    · simp [Tree.rootFlag, Tree.setNode, Function.update_of_ne hm]
  · funext m
    by_cases hm : m = n
    · subst hm
      simp [Tree.link, Tree.setNode]
    · simp [Tree.link, Tree.setNode, Function.update_of_ne hm]
  · funext m
    by_cases hm : m = n
    · subst hm
      simp [Tree.firstChild, Tree.setNode]
    · simp [Tree.firstChild, Tree.setNode, Function.update_of_ne hm]

/-- Writing a node without its first child. -/
theorem relinked_link (d' : Node) (hd : t.nodes n = some d) (hroot : d'.isRoot = d.isRoot)
    (hfirst : d'.first_child = d.first_child) :
    Relinked t (t.setNode n d')
      (Function.update t.link n (some (d'.isLastSibling, d'.next_sibling))) t.firstChild := by
  have h := relinked_setNode d' hd hroot
  have hsame : Function.update t.firstChild n (some d'.first_child) = t.firstChild := by
    rw [Function.update_eq_self_iff]
    simp [Tree.firstChild, hd, hfirst]
  rwa [hsame] at h

/-- Writing the first child of a node. -/
theorem relinked_firstChild (hd : t.nodes n = some d) (first : Option NodeId) :
    Relinked t (t.setNode n { d with first_child := first }) t.link
      (Function.update t.firstChild n (some first)) := by
  have h : Relinked t (t.setNode n { d with first_child := first })
      (Function.update t.link n (some (d.isLastSibling, d.next_sibling)))
      (Function.update t.firstChild n (some first)) :=
    relinked_setNode { d with first_child := first } hd rfl
  have hsame : Function.update t.link n (some (d.isLastSibling, d.next_sibling)) = t.link := by
    rw [Function.update_eq_self_iff]
    simp [Tree.link, hd]
  rwa [hsame] at h

@[simp] theorem nodes_setNode (t : Tree) (n : NodeId) (d : Node) :
    (t.setNode n d).nodes = Function.update t.nodes n (some d) :=
  rfl

theorem deref_of (hd : t.nodes n = some d) : deref n t = some (d, t) := by
  simp [deref, hd]

theorem modifyNode_of (hd : t.nodes n = some d) (f : Node → Node) :
    modifyNode n f t = some ((), t.setNode n (f d)) := by
  simp [modifyNode, hd]

end Update

/-! ## Chains of siblings -/

/-- The nodes are linked in this order; the link of the last one is `(last, some stop)`. -/
def Chain (t : Tree) (last : Bool) (stop : NodeId) : List NodeId → Prop
  | [] => True
  | n :: l => t.link n = some (l.isEmpty && last, some (l.headD stop)) ∧ Chain t last stop l

theorem chain_append {t : Tree} {last : Bool} {stop : NodeId} {l₁ l₂ : List NodeId} :
    Chain t last stop (l₁ ++ l₂) ↔
      Chain t (l₂.isEmpty && last) (l₂.headD stop) l₁ ∧ Chain t last stop l₂ := by
  induction l₁ with
  | nil => simp [Chain]
  | cons n l ih =>
      have hempty : ((l ++ l₂).isEmpty && last) = (l.isEmpty && (l₂.isEmpty && last)) := by
        cases l <;> simp
      have hhead : (l ++ l₂).headD stop = l.headD (l₂.headD stop) := by
        cases l <;> simp
      rw [List.cons_append, Chain, Chain, ih, hempty, hhead, and_assoc]

/-- A chain only depends on the links of its nodes. -/
theorem Chain.congr {t t' : Tree} {last : Bool} {stop : NodeId} {l : List NodeId}
    (h : Chain t last stop l) (hlink : ∀ n ∈ l, t'.link n = t.link n) : Chain t' last stop l := by
  induction l with
  | nil => trivial
  | cons n l ih =>
      refine ⟨(hlink n List.mem_cons_self).trans h.1, ih h.2 ?_⟩
      intro m hm
      exact hlink m (List.mem_cons_of_mem _ hm)

/-- Of the nodes of a chain of siblings, the last one and no other has the flag. -/
theorem Chain.link_of_split {t : Tree} {p n : NodeId} {l₁ l₂ : List NodeId}
    (h : Chain t true p (l₁ ++ n :: l₂)) :
    t.link n = some (l₂.isEmpty, some (l₂.headD p)) := by
  have hn := (chain_append.1 h).2.1
  rwa [Bool.and_true] at hn

/-- The loop of `findLastSibling` stops at the last node of the chain. -/
theorem lastSiblingLoop_of_chain {t : Tree} {p : NodeId} {fuel : Nat} {n : NodeId}
    {l : List NodeId} (h : Chain t true p (n :: l)) (hfuel : l.length < fuel) :
    lastSiblingLoop fuel n t = some (l.getLastD n, t) := by
  induction l generalizing n fuel with
  | nil =>
      cases fuel with
      | zero => cases hfuel
      | succ fuel =>
          obtain ⟨d, hd, hlast, -⟩ := exists_of_link h.1
          rw [lastSiblingLoop, bind_of (deref_of hd), hlast]
          rfl
  | cons m l ih =>
      cases fuel with
      | zero => cases hfuel
      | succ fuel =>
          obtain ⟨d, hd, hlast, hnext⟩ := exists_of_link h.1
          rw [lastSiblingLoop, bind_of (deref_of hd), hlast, hnext]
          have hrest := ih h.2 (Nat.lt_of_succ_lt_succ hfuel)
          rw [List.getLastD_cons]
          exact hrest

/-- The loop of `findPreviousSibling` stops at the node before. -/
theorem previousSiblingLoop_of_chain {t : Tree} (fuel : Nat) {m n : NodeId} {l : List NodeId}
    (h : Chain t false n (m :: l)) (hn : n ∉ l) (hfuel : l.length < fuel) :
    previousSiblingLoop n fuel m t = some (l.getLastD m, t) := by
  induction l generalizing m fuel with
  | nil =>
      cases fuel with
      | zero => cases hfuel
      | succ fuel =>
          obtain ⟨d, hd, -, hnext⟩ := exists_of_link h.1
          rw [previousSiblingLoop, bind_of (deref_of hd), hnext]
          show (if n = n then pure m else previousSiblingLoop n fuel n : FaultM Tree NodeId) t = _
          rw [if_pos rfl]
          rfl
  | cons k l ih =>
      cases fuel with
      | zero => cases hfuel
      | succ fuel =>
          obtain ⟨d, hd, -, hnext⟩ := exists_of_link h.1
          have hne : k ≠ n := fun heq => hn (heq ▸ List.mem_cons_self)
          have hrest := ih fuel h.2 (fun hmem => hn (List.mem_cons_of_mem _ hmem))
            (Nat.lt_of_succ_lt_succ hfuel)
          rw [previousSiblingLoop, bind_of (deref_of hd), hnext, List.getLastD_cons]
          show (if k = n then pure m else previousSiblingLoop n fuel k : FaultM Tree NodeId) t = _
          rw [if_neg hne]
          exact hrest

/-! ## The views behind the mutators -/

section Mutators

variable {t : Tree} {n p x : NodeId} {last last' : Bool} {next next' : Option NodeId}

theorem Relinked.congr {t' : Tree} {link link' : NodeId → Option (Bool × Option NodeId)}
    {firstChild : NodeId → Option (Option NodeId)} (h : Relinked t t' link firstChild)
    (heq : link = link') : Relinked t t' link' firstChild :=
  heq ▸ h

theorem setNext_run (hn : t.link n = some (last, next)) (next' : Option NodeId) :
    ∃ t', modifyNode n (fun d => { d with next_sibling := next' }) t = some ((), t') ∧
      Relinked t t' (Function.update t.link n (some (last, next'))) t.firstChild := by
  obtain ⟨d, hd, rfl, -⟩ := exists_of_link hn
  exact ⟨_, modifyNode_of hd _, relinked_link { d with next_sibling := next' } hd rfl rfl⟩

theorem setLast_run (hn : t.link n = some (last, next)) :
    ∃ t', modifyNode n (fun d => { d with flags := d.flags ||| TNODE_FLAG_LASTSIBLING }) t =
      some ((), t') ∧ Relinked t t' (Function.update t.link n (some (true, next))) t.firstChild := by
  obtain ⟨d, hd, -, rfl⟩ := exists_of_link hn
  have h := relinked_link d.setLast hd (isRoot_setLast d) rfl
  rw [isLastSibling_setLast] at h
  exact ⟨_, modifyNode_of hd _, h⟩

theorem clearLast_run (hn : t.link n = some (last, next)) :
    ∃ t', modifyNode n (fun d => { d with flags := d.flags &&& ~~~TNODE_FLAG_LASTSIBLING }) t =
      some ((), t') ∧
      Relinked t t' (Function.update t.link n (some (false, next))) t.firstChild := by
  obtain ⟨d, hd, -, rfl⟩ := exists_of_link hn
  have h := relinked_link d.clearLast hd (isRoot_clearLast d) rfl
  rw [isLastSibling_clearLast] at h
  exact ⟨_, modifyNode_of hd _, h⟩

theorem setFirstChild_run (hn : (t.nodes n).isSome) (first : Option NodeId) :
    ∃ t', modifyNode n (fun d => { d with first_child := first }) t = some ((), t') ∧
      Relinked t t' t.link (Function.update t.firstChild n (some first)) := by
  obtain ⟨d, hd⟩ := Option.isSome_iff_exists.1 hn
  exact ⟨_, modifyNode_of hd _, relinked_firstChild hd first⟩

/-- `attachAfter` moves the flag and the pointer of the node to the sibling. A flag that the
sibling has already stays. -/
theorem attachAfter_run (hn : t.link n = some (last, next)) (hx : t.link x = some (last', next'))
    (hne : n ≠ x) : ∃ t', attachAfter n x t = some (.success, t') ∧
      Relinked t t' (Function.update (Function.update t.link n (some (false, some x))) x
        (some (last' || last, next))) t.firstChild := by
  obtain ⟨d, hd, rfl, rfl⟩ := exists_of_link hn
  -- the flags are moved first
  have hflags : ∃ t₁, whenM (d.isLastSibling = true) (do
        modifyNode n fun n => { n with flags := n.flags &&& ~~~TNODE_FLAG_LASTSIBLING }
        modifyNode x fun n => { n with flags := n.flags ||| TNODE_FLAG_LASTSIBLING }) t =
          some ((), t₁) ∧
      Relinked t t₁ (Function.update (Function.update t.link n (some (false, d.next_sibling))) x
        (some (last' || d.isLastSibling, next'))) t.firstChild := by
    cases hlast : d.isLastSibling with
    | true =>
        obtain ⟨t₁, hrun₁, h₁⟩ := clearLast_run hn
        have hx₁ : t₁.link x = some (last', next') := by
          rw [h₁.link, Function.update_of_ne hne.symm, hx]
        obtain ⟨t₂, hrun₂, h₂⟩ := setLast_run hx₁
        refine ⟨t₂, ?_, ?_⟩
        · rw [whenM_of rfl, bind_of hrun₁, hrun₂]
        · rw [Bool.or_true, ← h₁.link, ← h₁.firstChild]
          exact h₁.trans h₂
    | false =>
        refine ⟨t, ?_, ?_⟩
        · rw [whenM_of_not Bool.false_ne_true]
          rfl
        · rw [hlast] at hn
          rw [Bool.or_false, ← hn, ← hx, Function.update_eq_self, Function.update_eq_self]
          exact Relinked.refl t
  obtain ⟨t₁, hrun₁, h₁⟩ := hflags
  have hn₁ : t₁.link n = some (false, d.next_sibling) := by
    rw [h₁.link, Function.update_of_ne hne, Function.update_self]
  obtain ⟨d₁, hd₁, -, hnext₁⟩ := exists_of_link hn₁
  have hx₁ : t₁.link x = some (last' || d.isLastSibling, next') := by
    rw [h₁.link, Function.update_self]
  obtain ⟨t₂, hrun₂, h₂⟩ := setNext_run hx₁ d.next_sibling
  have hn₂ : t₂.link n = some (false, d.next_sibling) := by
    rw [h₂.link, Function.update_of_ne hne, hn₁]
  obtain ⟨t₃, hrun₃, h₃⟩ := setNext_run hn₂ (some x)
  refine ⟨t₃, ?_, ?_⟩
  · rw [attachAfter, bind_of (deref_of hd), bind_of hrun₁, bind_of (deref_of hd₁), hnext₁,
      bind_of hrun₂, bind_of hrun₃]
    rfl
  · have h := (h₁.trans h₂).trans h₃
    rw [h₂.firstChild, h₁.firstChild, h₂.link, h₁.link] at h
    apply h.congr
    funext m
    by_cases hmx : m = x
    · subst hmx
      simp [hne.symm]
    · by_cases hmn : m = n
      · subst hmn
        simp [hmx]
      · simp [hmx, hmn]

end Mutators

/-! ## The heap draws a forest -/

/-- The nodes of the heap are those of the forest, and their pointers and flags draw it. -/
structure Represents (t : Tree) (f : RootedForest NodeId) : Prop where
  root_index : t.root_index = 1
  fresh : ∀ n, t.count ≤ n → t.nodes n = none
  live : ∀ n ∈ f.nodes, (t.nodes n).isSome
  rootLink : t.link f.root = some (false, none)
  rootFlag : ∀ n ∈ f.nodes, t.rootFlag n = some (decide (n = f.root))
  firstChild : ∀ n ∈ f.nodes, t.firstChild n = some (f.children n).head?
  chain : ∀ p, Chain t true p (f.children p)

section Find

variable {t : Tree} {f : RootedForest NodeId} (h : Represents t f) {n p : NodeId}
  {l₁ l₂ : List NodeId}

include h

theorem Represents.lt_count (hn : n ∈ f.nodes) : n < t.count := by
  by_contra hle
  have hlive := h.live n hn
  rw [h.fresh n (Nat.le_of_not_lt hle)] at hlive
  cases hlive

theorem Represents.length_le (p : NodeId) : (f.children p).length ≤ t.count := by
  have hsub : f.children p ⊆ List.range t.count := by
    intro n hn
    exact List.mem_range.2 (h.lt_count (f.child_mem hn).2)
  have hle := ((f.nodup p).subperm hsub).length_le
  rwa [List.length_range] at hle

theorem Represents.link (hsplit : f.children p = l₁ ++ n :: l₂) :
    t.link n = some (l₂.isEmpty, some (l₂.headD p)) :=
  (hsplit ▸ h.chain p).link_of_split

/-- The node that a live node's pointers and flags are in. -/
theorem Represents.node (hn : n ∈ f.nodes) : ∃ d, t.nodes n = some d ∧
    d.isRoot = decide (n = f.root) ∧ d.first_child = (f.children n).head? := by
  obtain ⟨d, hd⟩ := Option.isSome_iff_exists.1 (h.live n hn)
  have hroot := h.rootFlag n hn
  have hfirst := h.firstChild n hn
  simp only [Tree.rootFlag, Tree.firstChild, hd, Option.map_some, Option.some.injEq] at hroot hfirst
  exact ⟨d, hd, hroot, hfirst⟩

theorem Represents.findFirstChild (hn : n ∈ f.nodes) :
    findFirstChild n t = some (f.firstChild n, t) := by
  obtain ⟨d, hd, -, hfirst⟩ := h.node hn
  rw [TinyTree.findFirstChild, bind_of (deref_of hd), hfirst]
  rfl

/-- The node of a child, with its pointers and flags. -/
theorem Represents.child (hsplit : f.children p = l₁ ++ n :: l₂) : ∃ d, t.nodes n = some d ∧
    d.isRoot = false ∧ d.isLastSibling = l₂.isEmpty ∧ d.next_sibling = some (l₂.headD p) := by
  obtain ⟨d, hd, hlast, hnext⟩ := exists_of_link (h.link hsplit)
  have hmem : n ∈ f.children p := by simp [hsplit]
  obtain ⟨d', hd', hroot, -⟩ := h.node (f.child_mem hmem).2
  rw [hd, Option.some.injEq] at hd'
  subst hd'
  have hne : n ≠ f.root := fun heq => f.root_top p (heq ▸ hmem)
  exact ⟨d, hd, by simp [hroot, hne], hlast, hnext⟩

theorem Represents.findNextSibling_child (hsplit : f.children p = l₁ ++ n :: l₂) :
    findNextSibling n t = some (l₂.head?, t) := by
  obtain ⟨d, hd, -, hlast, hnext⟩ := h.child hsplit
  rw [findNextSibling, bind_of (deref_of hd), hlast, hnext]
  cases l₂ with
  | nil => rfl
  | cons m l => rfl

theorem Represents.lastSiblingLoop_child (hsplit : f.children p = l₁ ++ n :: l₂) :
    lastSiblingLoop t.count n t = some (l₂.getLastD n, t) := by
  have hchain := h.chain p
  have hlen := h.length_le p
  rw [hsplit] at hchain hlen
  apply lastSiblingLoop_of_chain (chain_append.1 hchain).2
  simp only [List.length_append, List.length_cons] at hlen
  omega

theorem Represents.findLastSibling_child (hsplit : f.children p = l₁ ++ n :: l₂) :
    findLastSibling n t = some (l₂.getLast?, t) := by
  rw [findLastSibling, get_bind, bind_of (h.lastSiblingLoop_child hsplit)]
  cases l₂ with
  | nil => exact congrFun (if_pos rfl) t
  | cons m l =>
      have hne : (m :: l).getLastD n ≠ n := by
        intro heq
        apply (not_mem_of_split hsplit).2
        rw [← heq, List.getLastD_cons]
        exact List.getLastD_mem_cons
      have hlast : (m :: l).getLast? = some ((m :: l).getLastD n) := by
        simp [List.getLast?_cons, List.getLastD_eq_getLast?]
      rw [if_neg hne, hlast]
      rfl

theorem Represents.findLastChild (hn : n ∈ f.nodes) :
    findLastChild n t = some (f.lastChild n, t) := by
  rw [TinyTree.findLastChild, bind_of (h.findFirstChild hn), RootedForest.firstChild,
    RootedForest.lastChild]
  cases hchildren : f.children n with
  | nil => rfl
  | cons m l =>
      have hsplit : f.children n = [] ++ m :: l := hchildren
      have hlast := h.findLastSibling_child hsplit
      simp only [List.head?_cons]
      rw [bind_of hlast]
      cases l with
      | nil => rfl
      | cons k l =>
          rw [List.getLast?_cons_cons, List.getLast?_cons]
          rfl

theorem Represents.findParent_child (hsplit : f.children p = l₁ ++ n :: l₂) :
    findParent n t = some (some p, t) := by
  obtain ⟨d, hd, hroot, -, hnext⟩ := h.child hsplit
  have hfind := h.findLastSibling_child hsplit
  -- the last sibling, be it the node itself or another one, points to the parent
  have hlast : ∃ d', t.nodes ((l₂.getLast?).getD n) = some d' ∧ d'.next_sibling = some p := by
    rcases List.eq_nil_or_concat' l₂ with rfl | ⟨l, m, rfl⟩
    · exact ⟨d, hd, hnext⟩
    · have hsplit' : f.children p = (l₁ ++ n :: l) ++ m :: [] := by simp [hsplit]
      obtain ⟨d', hd', -, -, hnext'⟩ := h.child hsplit'
      exact ⟨d', by simp [hd'], hnext'⟩
  obtain ⟨d', hd', hnext'⟩ := hlast
  rw [findParent, bind_of (deref_of hd), hroot, if_neg Bool.false_ne_true, hnext,
    if_neg (Option.some_ne_none _), bind_of hfind, bind_of (deref_of hd'), hnext']
  rfl

theorem Represents.findPreviousSibling_child (hsplit : f.children p = l₁ ++ n :: l₂) :
    findPreviousSibling n t = some (l₁.getLast?, t) := by
  have hp : p ∈ f.nodes := (f.child_mem (p := p) (n := n) (by simp [hsplit])).1
  have hfirst := h.findFirstChild hp
  rw [findPreviousSibling, bind_of (h.findParent_child hsplit)]
  simp only
  rw [bind_of hfirst, RootedForest.firstChild, hsplit]
  cases l₁ with
  | nil => exact congrFun (if_pos rfl) t
  | cons m l =>
      have hnot := (not_mem_of_split hsplit).1
      have hne : m ≠ n := fun heq => hnot (heq ▸ List.mem_cons_self)
      have hchain := h.chain p
      have hlen := h.length_le p
      rw [hsplit] at hchain hlen
      have hbefore : Chain t false n (m :: l) := (chain_append.1 hchain).1
      have hloop := previousSiblingLoop_of_chain t.count hbefore
        (fun hmem => hnot (List.mem_cons_of_mem _ hmem)) (by
          simp only [List.length_append, List.length_cons] at hlen
          omega)
      have hlast : (m :: l).getLast? = some (l.getLastD m) := by
        simp [List.getLast?_cons, List.getLastD_eq_getLast?]
      simp only [List.cons_append, List.head?_cons]
      rw [if_neg hne, get_bind, bind_of hloop, hlast]
      rfl

/-- The root has no neighbours. -/
theorem Represents.find_root : findParent f.root t = some (none, t) ∧
    findNextSibling f.root t = some (none, t) ∧ findLastSibling f.root t = some (none, t) ∧
    findPreviousSibling f.root t = some (none, t) := by
  obtain ⟨d, hd, hlast, hnext⟩ := exists_of_link h.rootLink
  obtain ⟨d', hd', hroot, -⟩ := h.node f.root_mem
  rw [hd, Option.some.injEq] at hd'
  subst hd'
  rw [decide_eq_true rfl] at hroot
  have hparent : findParent f.root t = some (none, t) := by
    rw [findParent, bind_of (deref_of hd), hroot]
    exact congrFun (if_pos rfl) t
  refine ⟨hparent, ?_, ?_, ?_⟩
  · rw [findNextSibling, bind_of (deref_of hd), hlast, hnext]
    exact congrFun (if_pos (.inr rfl)) t
  · obtain ⟨k, hk⟩ := Nat.exists_eq_add_of_lt (h.lt_count f.root_mem)
    have hloop : lastSiblingLoop t.count f.root t = some (f.root, t) := by
      rw [hk, lastSiblingLoop, bind_of (deref_of hd), hlast, hnext]
      rfl
    rw [findLastSibling, get_bind, bind_of hloop]
    exact congrFun (if_pos rfl) t
  · rw [findPreviousSibling, bind_of hparent]
    rfl

end Find

/-! ## What keeps the drawing -/

section Redraw

variable {t t' : Tree} {f : RootedForest NodeId} {link : NodeId → Option (Bool × Option NodeId)}
  {firstChild : NodeId → Option (Option NodeId)} {p x : NodeId} {l₁ l₂ l : List NodeId}

/-- The children of one node are drawn anew; `C` are the nodes whose links are written. -/
theorem Represents.redraw (h : Represents t f) (hr : Relinked t t' link firstChild)
    {f' : RootedForest NodeId} (hroot : f'.root = f.root) (hnodes : f'.nodes = f.nodes)
    (hchildren : f'.children = Function.update f.children p l) (hp : p ∈ f.nodes)
    {C : NodeId → Prop} (hlink : ∀ n, ¬ C n → link n = t.link n)
    (hfirst : firstChild = Function.update t.firstChild p (some l.head?))
    (hchanged : ∀ n, C n → n ≠ f.root ∧ ∀ q, q ≠ p → n ∉ f.children q)
    (hchain : Chain t' true p l) : Represents t' f' where
  root_index := hr.root_index.trans h.root_index
  fresh n hn := by
    have hnone := h.fresh n (hr.count ▸ hn)
    have hlive := hr.live n
    rw [hnone] at hlive
    exact Option.isNone_iff_eq_none.1 (by rw [← Option.not_isSome, hlive]; rfl)
  live n hn := by
    rw [hr.live]
    exact h.live n (hnodes ▸ hn)
  rootLink := by
    have hnot : ¬ C f.root := fun hc => (hchanged _ hc).1 rfl
    rw [hroot, hr.link, hlink _ hnot]
    exact h.rootLink
  rootFlag n hn := by
    rw [hr.rootFlag, hroot]
    exact h.rootFlag n (hnodes ▸ hn)
  firstChild n hn := by
    rw [hr.firstChild, hfirst, hchildren]
    by_cases heq : n = p
    · subst heq
      simp
    · rw [Function.update_of_ne heq, Function.update_of_ne heq]
      exact h.firstChild n (hnodes ▸ hn)
  chain q := by
    rw [hchildren]
    by_cases heq : q = p
    · subst heq
      rw [Function.update_self]
      exact hchain
    · rw [Function.update_of_ne heq]
      apply (h.chain q).congr
      intro n hn
      rw [hr.link]
      exact hlink n fun hc => (hchanged n hc).2 q heq hn

end Redraw

/-! ## The mutators keep the drawing -/

/-- The `LASTSIBLING` flag of the node is set. -/
def Flagged (t : Tree) (n : NodeId) : Prop := ∃ d, t.nodes n = some d ∧ d.isLastSibling = true

theorem not_flagged_iff {t : Tree} {n : NodeId} {last : Bool} {next : Option NodeId}
    (h : t.link n = some (last, next)) : ¬ Flagged t n ↔ last = false := by
  obtain ⟨d, hd, rfl, -⟩ := exists_of_link h
  constructor
  · intro hnot
    cases hlast : d.isLastSibling with
    | false => rfl
    | true => exact absurd ⟨d, hd, hlast⟩ hnot
  · rintro hlast ⟨d', hd', hlast'⟩
    rw [hd, Option.some.injEq] at hd'
    subst hd'
    rw [hlast] at hlast'
    cases hlast'

section Mutate

variable {t : Tree} {f : RootedForest NodeId} (h : Represents t f) {n p x : NodeId}
  {l₁ l₂ : List NodeId}

include h

theorem Represents.exists_link (hn : n ∈ f.nodes) : ∃ last next, t.link n = some (last, next) := by
  obtain ⟨d, hd⟩ := Option.isSome_iff_exists.1 (h.live n hn)
  exact ⟨_, _, by rw [Tree.link, hd]; rfl⟩

/-- The node is put behind `n`. A flag that it has must be right there. -/
theorem Represents.attachAfter (hc : f.CanAttach p (l₁ ++ [n]) x l₂)
    (hflag : l₂ ≠ [] → ¬ Flagged t x) :
    ∃ t', attachAfter n x t = some (.success, t') ∧ Represents t' (f.attach hc) := by
  have hsplit : f.children p = l₁ ++ n :: l₂ := by simp [hc.children]
  have hne : n ≠ x := fun heq => hc.cutOff.2.2 p (by simp [hsplit, heq])
  obtain ⟨last, next, hx⟩ := h.exists_link hc.cutOff.1
  obtain ⟨t', hrun, hr⟩ := attachAfter_run (h.link hsplit) hx hne
  have hlast : (last || l₂.isEmpty) = l₂.isEmpty := by
    cases l₂ with
    | nil => exact Bool.or_true _
    | cons m l => rw [(not_flagged_iff hx).1 (hflag (List.cons_ne_nil m l))]; rfl
  rw [hlast] at hr
  have hchain := chain_append.1 (hsplit ▸ h.chain p)
  have hnot := not_mem_of_split hsplit
  have hfresh : x ∉ l₁ ∧ x ∉ l₂ := by
    have hx := hc.cutOff.2.2 p
    rw [hsplit] at hx
    simp only [List.mem_append, List.mem_cons, not_or] at hx
    exact ⟨hx.1, hx.2.2⟩
  have hkeep : ∀ m, m ≠ n → m ≠ x → t'.link m = t.link m := by
    intro m hmn hmx
    rw [hr.link, Function.update_of_ne hmx, Function.update_of_ne hmn]
  refine ⟨t', hrun, h.redraw (C := fun m => m = n ∨ m = x) hr rfl rfl rfl hc.parent ?_ ?_ ?_
    ?_⟩
  · intro m hm
    rw [← hr.link]
    exact hkeep m (fun heq => hm (.inl heq)) fun heq => hm (.inr heq)
  · have hhead : (l₁ ++ [n] ++ x :: l₂).head? = (f.children p).head? := by
      rw [hsplit]
      cases l₁ <;> rfl
    rw [hhead, ← h.firstChild p hc.parent, Function.update_eq_self]
  · rintro m (rfl | rfl)
    · have hmem : m ∈ f.children p := by simp [hsplit]
      exact ⟨fun heq => f.root_top p (heq ▸ hmem), fun q hq hm => hq (f.parent_unique hm hmem)⟩
    · exact ⟨hc.cutOff.2.1, fun q _ => hc.cutOff.2.2 q⟩
  · rw [List.append_assoc, List.singleton_append]
    refine chain_append.2 ⟨?_, ?_, ?_, ?_⟩
    · apply hchain.1.congr
      intro m hm
      exact hkeep m (fun heq => hnot.1 (heq ▸ hm)) fun heq => hfresh.1 (heq ▸ hm)
    · rw [hr.link, Function.update_of_ne hne, Function.update_self]
      rfl
    · rw [hr.link, Function.update_self, Bool.and_true]
    · apply hchain.2.2.congr
      intro m hm
      exact hkeep m (fun heq => hnot.2 (heq ▸ hm)) fun heq => hfresh.2 (heq ▸ hm)

/-- The node becomes the first child, which the pointers of `t'` show. -/
theorem Represents.attachFirst {t' : Tree} (hc : f.CanAttach p [] x l₂)
    (hr : Relinked t t' (Function.update t.link x (some (l₂.isEmpty, some (l₂.headD p))))
      (Function.update t.firstChild p (some (some x)))) : Represents t' (f.attach hc) := by
  have hsplit : f.children p = l₂ := hc.children
  have hfresh : x ∉ l₂ := fun hx => hc.cutOff.2.2 p (hsplit ▸ hx)
  refine h.redraw (C := fun m => m = x) hr rfl rfl rfl hc.parent ?_ ?_ ?_ ?_
  · intro m hm
    exact Function.update_of_ne hm _ _
  · rfl
  · rintro m rfl
    exact ⟨hc.cutOff.2.1, fun q _ => hc.cutOff.2.2 q⟩
  · refine ⟨?_, ?_⟩
    · rw [hr.link, Function.update_self]
      simp
    · apply (hsplit ▸ h.chain p).congr
      intro m hm
      rw [hr.link, Function.update_of_ne]
      rintro rfl
      exact hfresh hm

theorem Represents.attachBefore (hc : f.CanAttach p l₁ x (n :: l₂)) (hflag : ¬ Flagged t x) :
    ∃ t', attachBefore n x t = some (.success, t') ∧ Represents t' (f.attach hc) := by
  have hprevious := h.findPreviousSibling_child hc.children
  rcases List.eq_nil_or_concat' l₁ with rfl | ⟨l, m, rfl⟩
  · have hne : p ≠ x := fun heq => hc.notBelow (heq ▸ .refl)
    obtain ⟨last, next, hx⟩ := h.exists_link hc.cutOff.1
    obtain rfl := (not_flagged_iff hx).1 hflag
    obtain ⟨t₁, hrun₁, h₁⟩ := setFirstChild_run (h.live p hc.parent) (some x)
    have hx₁ : t₁.link x = some (false, next) := by rw [h₁.link, hx]
    obtain ⟨t₂, hrun₂, h₂⟩ := setNext_run hx₁ (some n)
    refine ⟨t₂, ?_, ?_⟩
    · rw [TinyTree.attachBefore, bind_of hprevious]
      simp only [List.getLast?_nil]
      rw [bind_of (h.findParent_child hc.children)]
      simp only
      rw [bind_of hrun₁, bind_of hrun₂]
      rfl
    · apply h.attachFirst hc
      have hr := h₁.trans h₂
      rw [h₁.link, h₁.firstChild] at hr
      exact hr
  · have hc' : f.CanAttach p (l ++ [m]) x (n :: l₂) := by simpa using hc
    obtain ⟨t', hrun, hrep⟩ := h.attachAfter hc' fun _ => hflag
    refine ⟨t', ?_, ?_⟩
    · rw [TinyTree.attachBefore, bind_of hprevious, List.getLast?_concat]
      simp only
      rw [bind_of hrun]
      rfl
    · exact hrep

theorem Represents.attachChild (hc : f.CanAttach p (f.children p) x []) :
    ∃ t', attachChild p x t = some (.success, t') ∧ Represents t' (f.attach hc) := by
  have hlast := h.findLastChild hc.parent
  rw [RootedForest.lastChild] at hlast
  rcases List.eq_nil_or_concat' (f.children p) with hnil | ⟨l, m, hconcat⟩
  · have hc' : f.CanAttach p [] x [] := by simpa only [hnil] using hc
    obtain ⟨last, next, hx⟩ := h.exists_link hc.cutOff.1
    obtain ⟨t₁, hrun₁, h₁⟩ := setFirstChild_run (h.live p hc.parent) (some x)
    have hx₁ : t₁.link x = some (last, next) := by rw [h₁.link, hx]
    obtain ⟨t₂, hrun₂, h₂⟩ := setNext_run hx₁ (some p)
    have hx₂ : t₂.link x = some (last, some p) := by rw [h₂.link, Function.update_self]
    obtain ⟨t₃, hrun₃, h₃⟩ := setLast_run hx₂
    refine ⟨t₃, ?_, ?_⟩
    · rw [TinyTree.attachChild, bind_of hlast, hnil]
      simp only [List.getLast?_nil]
      rw [bind_of hrun₁, bind_of hrun₂, bind_of hrun₃]
      rfl
    · have hr := (h₁.trans h₂).trans h₃
      rw [h₂.firstChild, h₁.firstChild, h₂.link, h₁.link, Function.update_idem] at hr
      have hrep := h.attachFirst hc' hr
      simpa only [hnil] using hrep
  · have hc' : f.CanAttach p (l ++ [m]) x [] := by
      simpa only [hconcat] using hc
    obtain ⟨t', hrun, hrep⟩ := h.attachAfter hc' fun hne => absurd rfl hne
    refine ⟨t', ?_, ?_⟩
    · rw [TinyTree.attachChild, bind_of hlast, hconcat, List.getLast?_concat]
      exact hrun
    · simpa only [hconcat] using hrep

theorem Represents.deleteNode (hsplit : f.children p = l₁ ++ n :: l₂) :
    ∃ t', deleteNode n t = some (.success, t') ∧ Represents t' (f.detach hsplit) := by
  obtain ⟨d, hd, hroot, hlast, hnext⟩ := h.child hsplit
  have hp : p ∈ f.nodes := (f.child_mem (p := p) (n := n) (by simp [hsplit])).1
  have hprevious := h.findPreviousSibling_child hsplit
  have hchain := chain_append.1 (hsplit ▸ h.chain p)
  have hmem : ∀ m ∈ l₁ ++ l₂, m ∈ f.children p := by
    intro m hm
    rw [hsplit]
    simp only [List.mem_append, List.mem_cons] at hm ⊢
    tauto
  rcases List.eq_nil_or_concat' l₁ with rfl | ⟨l, m, rfl⟩
  · -- the first child: the parent is written
    obtain ⟨t₁, hrun₁, h₁⟩ := setFirstChild_run (h.live p hp) l₂.head?
    refine ⟨t₁, ?_, ?_⟩
    · rw [TinyTree.deleteNode, bind_of (deref_of hd), hroot, if_neg Bool.false_ne_true,
        bind_of hprevious]
      simp only [List.getLast?_nil]
      rw [bind_of (h.findParent_child hsplit)]
      simp only
      rw [hlast, hnext]
      cases l₂ with
      | nil => exact bind_of hrun₁
      | cons k l => exact bind_of hrun₁
    · refine h.redraw (C := fun _ => False) h₁ rfl rfl rfl hp (fun _ _ => rfl) rfl
        (fun _ hc => hc.elim) ?_
      apply hchain.2.2.congr
      intro m _
      rw [h₁.link]
  · -- the sibling before it gets its pointer and its flag
    have hsplit' : f.children p = l ++ m :: (n :: l₂) := by simp [hsplit]
    have hmlink := h.link hsplit'
    obtain ⟨t₁, hrun₁, h₁⟩ := setNext_run hmlink d.next_sibling
    have hflag : ∃ t₂, whenM (d.isLastSibling = true) (modifyNode m fun m =>
          { m with flags := m.flags ||| TNODE_FLAG_LASTSIBLING }) t₁ = some ((), t₂) ∧
        Relinked t t₂ (Function.update t.link m (some (l₂.isEmpty, some (l₂.headD p))))
          t.firstChild := by
      have hm₁ : t₁.link m = some (false, d.next_sibling) := by
        rw [h₁.link, Function.update_self]
        rfl
      rw [hlast]
      cases l₂ with
      | nil =>
          obtain ⟨t₂, hrun₂, h₂⟩ := setLast_run hm₁
          have hr := h₁.trans h₂
          rw [h₁.firstChild, h₁.link, Function.update_idem, hnext] at hr
          exact ⟨t₂, (congrFun (whenM_of List.isEmpty_nil _) t₁).trans hrun₂, hr⟩
      | cons k l =>
          rw [hnext] at h₁
          exact ⟨t₁, congrFun (whenM_of_not Bool.false_ne_true _) t₁, h₁⟩
    obtain ⟨t₂, hrun₂, h₂⟩ := hflag
    refine ⟨t₂, ?_, ?_⟩
    · rw [TinyTree.deleteNode, bind_of (deref_of hd), hroot, if_neg Bool.false_ne_true,
        bind_of hprevious, List.getLast?_concat]
      simp only
      rw [bind_of hrun₁, bind_of hrun₂]
      rfl
    · have hm : m ∈ f.children p := hmem m (by simp)
      have hnodup := f.nodup p
      have hnotBefore := not_mem_of_split hsplit'
      have hkeep : ∀ k, k ≠ m → t₂.link k = t.link k := by
        intro k hk
        rw [h₂.link, Function.update_of_ne hk]
      refine h.redraw (C := fun k => k = m) h₂ rfl rfl rfl hp ?_ ?_ ?_ ?_
      · intro k hk
        exact Function.update_of_ne hk _ _
      · have hhead : (l ++ [m] ++ l₂).head? = (f.children p).head? := by
          rw [hsplit]
          cases l <;> rfl
        rw [hhead, ← h.firstChild p hp, Function.update_eq_self]
      · rintro k rfl
        exact ⟨fun heq => f.root_top p (heq ▸ hm), fun q hq hk => hq (f.parent_unique hk hm)⟩
      · have hbefore := chain_append.1 hchain.1
        rw [List.append_assoc, List.singleton_append]
        refine chain_append.2 ⟨?_, ?_, ?_⟩
        · apply hbefore.1.congr
          intro k hk
          exact hkeep k fun heq => hnotBefore.1 (heq ▸ hk)
        · rw [h₂.link, Function.update_self, Bool.and_true]
        · apply hchain.2.2.congr
          intro k hk
          exact hkeep k fun heq => hnotBefore.2 (List.mem_cons_of_mem _ (heq ▸ hk))

end Mutate

end SymbianWeb.TinyTree
