import SymbianWeb.Cxml.TinyTreeRuns
import SymbianWeb.Library.DocumentOrder

/-!
# Iterating over a subtree

`NW_TinyTree_NodeIterator_iterate` keeps the node it gives next, and moves down, to the right, or up
to the first ancestor with a later sibling, until it comes back to the node it started from. What
is still to come is what lies below the current node and what is pending behind it (`Pending`). A
call gives the first node of this list and leaves the others (`Ahead.iterate`), so the calls list
the subtree in document order (`iterate_documentOrder`).
-/

set_option autoImplicit false

namespace SymbianWeb.TinyTree

open FaultState RootedForest

/-! ## The source -/

/-- `NW_TinyTree_NodeIterator_t` -/
structure NodeIterator where
  start_node : Option NodeId
  traversal_node : Option NodeId
  deriving DecidableEq

/-- `NW_TinyTree_NodeIterator_init` -/
def NodeIterator.init (start_node : Option NodeId) : NodeIterator where
  start_node := start_node
  traversal_node := none

/-- The loop that moves back up from `traversal_node`; a node that has no `next_sibling` is
followed to a null pointer. -/
def climbLoop (start_node : NodeId) : Nat → NodeId → FaultM Tree NodeIterator
  | 0, _ => fault
  | fuel + 1, traversal_node => do
      let n ← deref traversal_node
      match n.next_sibling with
      | none => fault
      | some up =>
          -- if you reached the start, quit
          if up = start_node then
            pure { start_node := none, traversal_node := some up }
          else
            let n ← deref up
            if n.isLastSibling = true then
              climbLoop start_node fuel up
            else
              pure { start_node := some start_node, traversal_node := n.next_sibling }

/-- `NW_TinyTree_NodeIterator_iterate` -/
def NodeIterator.iterate (iterator : NodeIterator) :
    FaultM Tree (Option NodeId × NodeIterator) := do
  match iterator.start_node with
  | none => pure (none, iterator)
  | some start_node =>
      match iterator.traversal_node with
      | none =>
          let n ← deref start_node
          match n.first_child with
          | some first_child =>
              pure (some start_node, { iterator with traversal_node := some first_child })
          | none => pure (some start_node, { iterator with start_node := none })
      | some node =>
          let n ← deref node
          match n.first_child with
          | some first_child =>
              pure (some node, { iterator with traversal_node := some first_child })
          | none =>
              if n.isLastSibling = true then
                let t ← get
                let iterator ← climbLoop start_node t.count node
                pure (some node, iterator)
              else
                pure (some node, { iterator with traversal_node := n.next_sibling })

/-- What `k` calls return. -/
def iterateTimes : Nat → NodeIterator → FaultM Tree (List (Option NodeId))
  | 0, _ => pure []
  | k + 1, iterator => do
      let (node, iterator) ← iterator.iterate
      let nodes ← iterateTimes k iterator
      pure (node :: nodes)

/-! ## What is still to come -/

/-- The nodes that come behind what lies below `x`, when the iteration is to end at `start`: the
later siblings of `x`, of its parent, and so on, `depth` steps up. -/
inductive Pending (f : RootedForest NodeId) (start : NodeId) : NodeId → List NodeId → Nat → Prop
  | child {x : NodeId} {l₁ l₂ after : List NodeId} (hsplit : f.children start = l₁ ++ x :: l₂)
      (hafter : DocumentOrder f l₂ after) : Pending f start x after 1
  | deeper {p x : NodeId} {l₁ l₂ after rest : List NodeId} {depth : Nat}
      (hsplit : f.children p = l₁ ++ x :: l₂) (hafter : DocumentOrder f l₂ after)
      (hrest : Pending f start p rest depth) : Pending f start x (after ++ rest) (depth + 1)

/-- The iterator still has to give these nodes. -/
inductive Ahead (f : RootedForest NodeId) : NodeIterator → List NodeId → Prop
  | done (traversal_node : Option NodeId) :
      Ahead f { start_node := none, traversal_node := traversal_node } []
  | start {start : NodeId} {out : List NodeId} (hstart : start ∈ f.nodes)
      (hout : DocumentOrder f [start] out) : Ahead f (NodeIterator.init (some start)) out
  | traversing {start x : NodeId} {below after : List NodeId} {depth : Nat}
      (hbelow : DocumentOrder f (f.children x) below) (hafter : Pending f start x after depth) :
      Ahead f { start_node := some start, traversal_node := some x } (x :: (below ++ after))

section Iterate

variable {f : RootedForest NodeId} {start x p : NodeId} {after out : List NodeId} {depth : Nat}

theorem Pending.transGen (h : Pending f start x after depth) :
    Relation.TransGen (fun p c => c ∈ f.children p) start x := by
  induction h with
  | child hsplit hafter => exact .single (by simp [hsplit])
  | deeper hsplit hafter hrest ih => exact .tail ih (by simp [hsplit])

theorem Pending.ne_start (h : Pending f start x after depth) : x ≠ start := by
  rintro rfl
  exact f.acyclic x h.transGen

/-- The ancestors up to the start, one for each step, are different nodes. -/
theorem Pending.ancestors (h : Pending f start x after depth) :
    ∃ path : List NodeId, path.length = depth ∧ path.Nodup ∧
      ∀ m ∈ path, m ∈ f.nodes ∧ f.Below m x := by
  induction h with
  | @child x l₁ l₂ after hsplit hafter =>
      have hmem : x ∈ f.children start := by simp [hsplit]
      refine ⟨[x], rfl, List.nodup_singleton x, ?_⟩
      intro m hm
      rw [List.mem_singleton.1 hm]
      exact ⟨(f.child_mem hmem).2, .refl⟩
  | @deeper p x l₁ l₂ after rest depth hsplit hafter hrest ih =>
      have hmem : x ∈ f.children p := by simp [hsplit]
      obtain ⟨path, hlength, hnodup, hpath⟩ := ih
      refine ⟨x :: path, by rw [List.length_cons, hlength], List.nodup_cons.2 ⟨?_, hnodup⟩, ?_⟩
      · intro hx
        exact f.acyclic x (.tail' (hpath x hx).2 hmem)
      · intro m hm
        rcases List.mem_cons.1 hm with rfl | hm
        · exact ⟨(f.child_mem hmem).2, .refl⟩
        · exact ⟨(hpath m hm).1, (hpath m hm).2.tail hmem⟩

variable {t : Tree}

theorem Pending.depth_le (hrep : Represents t f) (h : Pending f start x after depth) :
    depth ≤ t.count := by
  obtain ⟨path, rfl, hnodup, hpath⟩ := h.ancestors
  have hsub : path ⊆ List.range t.count :=
    fun m hm => List.mem_range.2 (hrep.lt_count (hpath m hm).1)
  have hle := (hnodup.subperm hsub).length_le
  rwa [List.length_range] at hle

theorem Pending.mem (h : Pending f start x after depth) : x ∈ f.nodes := by
  cases h with
  | child hsplit hafter => exact (f.child_mem (p := start) (by simp [hsplit])).2
  | @deeper p _ _ _ _ _ _ hsplit hafter hrest => exact (f.child_mem (p := p) (by simp [hsplit])).2

/-- The node of a pending child, with the siblings behind it. -/
theorem Pending.node (hrep : Represents t f) (h : Pending f start x after depth) :
    ∃ (p : NodeId) (l₁ l₂ : List NodeId) (d : Node), f.children p = l₁ ++ x :: l₂ ∧
      t.nodes x = some d ∧ d.isLastSibling = l₂.isEmpty ∧ d.next_sibling = some (l₂.headD p) ∧
        d.first_child = (f.children x).head? := by
  have hsplit : ∃ p l₁ l₂, f.children p = l₁ ++ x :: l₂ := by
    cases h with
    | child hsplit hafter => exact ⟨_, _, _, hsplit⟩
    | deeper hsplit hafter hrest => exact ⟨_, _, _, hsplit⟩
  obtain ⟨p, l₁, l₂, hsplit⟩ := hsplit
  obtain ⟨d, hd, -, hlast, hnext⟩ := hrep.child hsplit
  obtain ⟨d', hd', -, hfirst⟩ := hrep.node h.mem
  rw [hd, Option.some.injEq] at hd'
  subst hd'
  exact ⟨p, l₁, l₂, d, hsplit, hd, hlast, hnext, hfirst⟩

/-- A first sibling and what comes behind it, from the list of all of them. -/
theorem ahead_of_siblings {start y : NodeId} {l₂ rest : List NodeId}
    (hout : DocumentOrder f (y :: l₂) out)
    (hpending : ∀ after, DocumentOrder f l₂ after → ∃ depth, Pending f start y (after ++ rest) depth) :
    Ahead f { start_node := some start, traversal_node := some y } (out ++ rest) := by
  cases hout with
  | @cons _ _ below after hbelow hafter =>
      obtain ⟨depth, hrest⟩ := hpending after hafter
      have hlist : y :: (below ++ after) ++ rest = y :: (below ++ (after ++ rest)) := by
        rw [List.cons_append, List.append_assoc]
      rw [hlist]
      exact .traversing hbelow hrest

/-- To the right of a node that is not the last sibling, the pending nodes begin. -/
theorem Pending.right (hrep : Represents t f) {d : Node} (h : Pending f start x after depth)
    (hd : t.nodes x = some d) (hlast : d.isLastSibling = false) :
    Ahead f { start_node := some start, traversal_node := d.next_sibling } after := by
  cases h with
  | @child _ l₁ l₂ _ hsplit hafter =>
      obtain ⟨d', hd', -, hlast', hnext⟩ := hrep.child hsplit
      rw [hd, Option.some.injEq] at hd'
      subst hd'
      cases l₂ with
      | nil => simp [hlast'] at hlast
      | cons y l₂ =>
          have hsplit' : f.children start = (l₁ ++ [x]) ++ y :: l₂ := by simp [hsplit]
          have hahead := @ahead_of_siblings _ _ start y l₂ [] hafter
            fun after hafter => ⟨1, by rw [List.append_nil]; exact .child hsplit' hafter⟩
          rw [List.append_nil] at hahead
          rw [hnext]
          exact hahead
  | @deeper p _ l₁ l₂ _ rest depth hsplit hafter hrest =>
      obtain ⟨d', hd', -, hlast', hnext⟩ := hrep.child hsplit
      rw [hd, Option.some.injEq] at hd'
      subst hd'
      cases l₂ with
      | nil => simp [hlast'] at hlast
      | cons y l₂ =>
          have hsplit' : f.children p = (l₁ ++ [x]) ++ y :: l₂ := by simp [hsplit]
          rw [hnext]
          exact ahead_of_siblings hafter
            fun after hafter => ⟨depth + 1, .deeper hsplit' hafter hrest⟩

/-- Behind the last sibling the loop moves up to where the pending nodes begin. -/
theorem Pending.climb (hrep : Represents t f) {d : Node} {fuel : Nat}
    (h : Pending f start x after depth) (hd : t.nodes x = some d)
    (hlast : d.isLastSibling = true) (hfuel : depth ≤ fuel) :
    ∃ iterator, climbLoop start fuel x t = some (iterator, t) ∧ Ahead f iterator after := by
  induction h generalizing d fuel with
  | @child x l₁ l₂ after hsplit hafter =>
      obtain ⟨d', hd', -, hlast', hnext⟩ := hrep.child hsplit
      rw [hd, Option.some.injEq] at hd'
      subst hd'
      obtain ⟨k, rfl⟩ : ∃ k, fuel = k + 1 := ⟨fuel - 1, by omega⟩
      rw [hlast', List.isEmpty_iff] at hlast
      subst hlast
      cases hafter
      refine ⟨_, ?_, .done (some start)⟩
      rw [climbLoop, bind_of (deref_of hd), hnext]
      simp
  | @deeper p x l₁ l₂ after rest depth hsplit hafter hrest ih =>
      obtain ⟨d', hd', -, hlast', hnext⟩ := hrep.child hsplit
      rw [hd, Option.some.injEq] at hd'
      subst hd'
      obtain ⟨k, rfl⟩ : ∃ k, fuel = k + 1 := ⟨fuel - 1, by omega⟩
      rw [hlast', List.isEmpty_iff] at hlast
      subst hlast
      cases hafter
      obtain ⟨_, _, _, dp, -, hdp, -⟩ := hrest.node hrep
      have hne := hrest.ne_start
      have hup : d.next_sibling = some p := hnext
      rw [climbLoop, bind_of (deref_of hd), hup]
      simp only [hne, if_false]
      rw [bind_of (deref_of hdp)]
      by_cases hlast : dp.isLastSibling = true
      · rw [if_pos hlast]
        exact ih hdp hlast (by omega)
      · rw [if_neg hlast]
        exact ⟨_, rfl, hrest.right hrep hdp (by simpa using hlast)⟩

/-- A call gives the first of the nodes that are still to come, and the iterator then has the
others before it. -/
theorem Ahead.iterate (hrep : Represents t f) {iterator : NodeIterator}
    (h : Ahead f iterator out) :
    ∃ iterator', iterator.iterate t = some ((out.head?, iterator'), t) ∧
      Ahead f iterator' out.tail := by
  cases h with
  | done traversal_node => exact ⟨_, rfl, .done traversal_node⟩
  | @start start _ hstart hout =>
      obtain ⟨d, hd, -, hfirst⟩ := hrep.node hstart
      cases hout with
      | @cons _ _ below after hbelow hafter =>
          cases hafter
          rw [List.append_nil, List.head?_cons, List.tail_cons]
          simp only [NodeIterator.iterate, NodeIterator.init]
          rw [bind_of (deref_of hd), hfirst]
          cases hchildren : f.children start with
          | nil =>
              rw [hchildren] at hbelow
              cases hbelow
              exact ⟨_, rfl, .done none⟩
          | cons c l =>
              rw [hchildren] at hbelow
              have hsplit : f.children start = [] ++ c :: l := hchildren
              have hahead := @ahead_of_siblings _ _ start c l [] hbelow
                fun after hafter => ⟨1, by rw [List.append_nil]; exact .child hsplit hafter⟩
              rw [List.append_nil] at hahead
              exact ⟨_, rfl, hahead⟩
  | @traversing start x below after depth hbelow hafter =>
      obtain ⟨_, _, _, d, -, hd, -, -, hfirst⟩ := hafter.node hrep
      rw [List.head?_cons, List.tail_cons]
      simp only [NodeIterator.iterate]
      rw [bind_of (deref_of hd), hfirst]
      cases hchildren : f.children x with
      | cons c l =>
          -- move down
          rw [hchildren] at hbelow
          refine ⟨_, rfl, ?_⟩
          have hsplit : f.children x = [] ++ c :: l := hchildren
          exact ahead_of_siblings hbelow
            fun after' hafter' => ⟨depth + 1, .deeper hsplit hafter' hafter⟩
      | nil =>
          rw [hchildren] at hbelow
          cases hbelow
          simp only [List.head?_nil, List.nil_append]
          by_cases hlast : d.isLastSibling = true
          · obtain ⟨iterator', hclimb, hahead⟩ :=
              hafter.climb hrep hd hlast (hafter.depth_le hrep)
            refine ⟨iterator', ?_, hahead⟩
            rw [if_pos hlast, get_bind, bind_of hclimb]
            rfl
          · refine ⟨_, by rw [if_neg hlast]; rfl, ?_⟩
            exact hafter.right hrep hd (by simpa using hlast)

/-- The calls give the nodes that are still to come, one by one, and then a null pointer. -/
theorem Ahead.iterateTimes (hrep : Represents t f) {iterator : NodeIterator}
    (h : Ahead f iterator out) (k : Nat) :
    iterateTimes k iterator t = some ((List.range k).map fun i => out[i]?, t) := by
  induction k generalizing iterator out with
  | zero => rfl
  | succ k ih =>
      obtain ⟨iterator', hcall, hahead⟩ := h.iterate hrep
      rw [TinyTree.iterateTimes, bind_of hcall]
      simp only
      rw [bind_of (ih hahead), List.range_succ_eq_map, List.map_cons, List.map_map]
      have hhead : out.head? = out[0]? := by cases out <;> rfl
      have htail : (fun i => out.tail[i]?) = (fun i => out[i]?) ∘ Nat.succ := by
        funext i
        cases out <;> simp
      rw [hhead, htail]
      rfl

end Iterate

/-- In a tree whose chains of siblings are in order, the calls of the iterator give the nodes of
the subtree of the start node in document order, each of them once, and then a null pointer. -/
theorem iterate_documentOrder {t : Tree} {f : RootedForest NodeId} (hrep : Represents t f)
    {start : NodeId} (hstart : start ∈ f.nodes) :
    ∃ out, DocumentOrder f [start] out ∧ out.Nodup ∧ (∀ x, x ∈ out ↔ f.Below start x) ∧
      ∀ k, iterateTimes k (NodeIterator.init (some start)) t =
        some ((List.range k).map fun i => out[i]?, t) := by
  have hfinite : f.nodes.Finite :=
    (Set.finite_lt_nat t.count).subset fun n hn => hrep.lt_count hn
  obtain ⟨out, hout⟩ := exists_documentOrder hfinite hstart
  refine ⟨out, hout, hout.nodup (List.pairwise_singleton _ _), ?_, ?_⟩
  · intro x
    rw [hout.mem_iff]
    simp
  · exact (Ahead.start hstart hout).iterateTimes hrep

/-- The node 2 has a later sibling, which the iteration leaves out. -/
theorem iterate_documentOrder_sibling :
    ∃ out, DocumentOrder twoChildren [2] out ∧ out.Nodup ∧
      (∀ x, x ∈ out ↔ twoChildren.Below 2 x) ∧
      ∀ k, iterateTimes k (NodeIterator.init (some 2)) created =
        some ((List.range k).map fun i => out[i]?, created) :=
  iterate_documentOrder (run_created fun _ _ => trivial).represents (by simp [twoChildren_nodes])

end SymbianWeb.TinyTree
