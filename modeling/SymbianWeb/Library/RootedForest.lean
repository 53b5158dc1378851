import Mathlib.Logic.Relation
import Mathlib.Logic.Function.Basic
import Mathlib.Data.Set.Insert
import Mathlib.Data.List.Nodup

/-!
# Ordered rooted trees with cut-off subtrees

A `RootedForest` is an ordered tree on a set of nodes, together with the subtrees that were cut
off from it and may be attached again. The children of a node are a list; every node is a child
of at most one node, the root is nobody's child, and no node is below itself, so that an ill
formed tree cannot be built. `addNode`, `attach` and `detach` are its three operations, each with
the condition under which it makes sense.

The neighbours of a node (`parent`, `nextSibling`, …) are read off from the list of children it
is in, `neighbours_of_children` computes all of them at once.
-/

set_option autoImplicit false

namespace SymbianWeb

universe u

/-- An ordered tree and the subtrees that are cut off from it. -/
structure RootedForest (α : Type u) where
  root : α
  nodes : Set α
  children : α → List α
  root_mem : root ∈ nodes
  child_mem : ∀ {p n}, n ∈ children p → p ∈ nodes ∧ n ∈ nodes
  root_top : ∀ p, root ∉ children p
  nodup : ∀ p, (children p).Nodup
  parent_unique : ∀ {p q n}, n ∈ children p → n ∈ children q → p = q
  acyclic : ∀ n, ¬ Relation.TransGen (fun p c => c ∈ children p) n n

namespace RootedForest

variable {α : Type u} (f : RootedForest α) {n p x : α} {l₁ l₂ : List α}

/-- The node is at the top of a cut-off subtree. -/
def CutOff (n : α) : Prop := n ∈ f.nodes ∧ n ≠ f.root ∧ ∀ p, n ∉ f.children p

/-- The node is `n` or below `n`. -/
def Below (n : α) : α → Prop := Relation.ReflTransGen (fun p c => c ∈ f.children p) n

/-! ## Neighbours -/

section Neighbours

variable [DecidableEq α]

open Classical in
/-- The parent of a node, if it has one. -/
noncomputable def parent (n : α) : Option α :=
  if h : ∃ p, n ∈ f.children p then some h.choose else none

def firstChild (n : α) : Option α := (f.children n).head?

def lastChild (n : α) : Option α := (f.children n).getLast?

/-- The siblings to the left of a node. -/
noncomputable def siblingsBefore (n : α) : List α :=
  match f.parent n with
  | none => []
  | some p => (f.children p).takeWhile fun m => decide (m ≠ n)

/-- The siblings to the right of a node. -/
noncomputable def siblingsAfter (n : α) : List α :=
  match f.parent n with
  | none => []
  | some p => ((f.children p).dropWhile fun m => decide (m ≠ n)).tail

noncomputable def previousSibling (n : α) : Option α := (f.siblingsBefore n).getLast?

noncomputable def nextSibling (n : α) : Option α := (f.siblingsAfter n).head?

/-- The last of the siblings to the right of a node. -/
noncomputable def lastSibling (n : α) : Option α := (f.siblingsAfter n).getLast?

variable {f}

omit [DecidableEq α] in
theorem parent_of_mem (h : n ∈ f.children p) : f.parent n = some p := by
  have hex : ∃ q, n ∈ f.children q := ⟨p, h⟩
  rw [parent, dif_pos hex, f.parent_unique hex.choose_spec h]

omit [DecidableEq α] in
theorem parent_of_not_mem (h : ∀ p, n ∉ f.children p) : f.parent n = none := by
  apply dif_neg
  rintro ⟨p, hp⟩
  exact h p hp

omit [DecidableEq α] in
theorem not_mem_of_split (h : f.children p = l₁ ++ n :: l₂) : n ∉ l₁ ∧ n ∉ l₂ := by
  have hnodup := f.nodup p
  rw [h] at hnodup
  have hcons := List.nodup_append.1 hnodup
  refine ⟨fun hmem => hcons.2.2 n hmem n List.mem_cons_self rfl, ?_⟩
  exact (List.nodup_cons.1 hcons.2.1).1

/-- The neighbours of a node, from its place among the children of its parent. -/
theorem neighbours_of_children (h : f.children p = l₁ ++ n :: l₂) :
    f.parent n = some p ∧ f.siblingsBefore n = l₁ ∧ f.siblingsAfter n = l₂ := by
  have hmem : n ∈ f.children p := by simp [h]
  have hparent := parent_of_mem hmem
  have hbefore : ∀ m ∈ l₁, decide (m ≠ n) = true := by
    intro m hm
    have hne : m ≠ n := fun heq => (not_mem_of_split h).1 (heq ▸ hm)
    simp [hne]
  refine ⟨hparent, ?_, ?_⟩
  · simp only [siblingsBefore, hparent, h]
    rw [List.takeWhile_append_of_pos hbefore]
    simp
  · simp only [siblingsAfter, hparent, h]
    rw [List.dropWhile_append_of_pos hbefore]
    simp

theorem neighbours_of_not_mem (h : ∀ p, n ∉ f.children p) :
    f.parent n = none ∧ f.siblingsBefore n = [] ∧ f.siblingsAfter n = [] := by
  have hparent := parent_of_not_mem h
  refine ⟨hparent, ?_, ?_⟩
  · simp [siblingsBefore, hparent]
  · simp [siblingsAfter, hparent]

end Neighbours

/-! ## Operations -/

/-- The tree that has only a root. -/
def single (r : α) : RootedForest α where
  root := r
  nodes := {r}
  children _ := []
  root_mem := rfl
  child_mem h := by cases h
  root_top _ h := by cases h
  nodup _ := List.nodup_nil
  parent_unique h _ := by cases h
  acyclic _ h := by
    obtain ⟨_, hmem, -⟩ := Relation.TransGen.head'_iff.1 h
    cases hmem

/-- A new node, which is cut off. -/
def addNode (x : α) : RootedForest α where
  root := f.root
  nodes := insert x f.nodes
  children := f.children
  root_mem := Set.mem_insert_of_mem _ f.root_mem
  child_mem h :=
    ⟨Set.mem_insert_of_mem _ (f.child_mem h).1, Set.mem_insert_of_mem _ (f.child_mem h).2⟩
  root_top := f.root_top
  nodup := f.nodup
  parent_unique := f.parent_unique
  acyclic := f.acyclic

/-- The cut-off node `x` may become a child of `p`, behind `l₁` and before `l₂`. -/
structure CanAttach (p : α) (l₁ : List α) (x : α) (l₂ : List α) : Prop where
  children : f.children p = l₁ ++ l₂
  parent : p ∈ f.nodes
  cutOff : f.CutOff x
  notBelow : ¬ f.Below x p

section Update

variable [DecidableEq α] {f}

omit [DecidableEq α] in
/-- Nothing but the node itself is below a node without children. -/
theorem below_iff_of_leaf (hx : f.children x = []) : f.Below x p ↔ p = x := by
  constructor
  · intro h
    rcases Relation.ReflTransGen.cases_head h with heq | ⟨c, hc, -⟩
    · exact heq.symm
    · rw [hx] at hc
      cases hc
  · rintro rfl
    exact .refl

omit [DecidableEq α] in
/-- A new node may become a child of any node. -/
theorem canAttach_addNode (hx : x ∉ f.nodes) (hp : p ∈ f.nodes) (h : f.children p = l₁ ++ l₂) :
    (f.addNode x).CanAttach p l₁ x l₂ where
  children := h
  parent := Set.mem_insert_of_mem _ hp
  cutOff := by
    refine ⟨Set.mem_insert _ _, fun heq => hx (heq ▸ f.root_mem), fun q hq => ?_⟩
    exact hx (f.child_mem hq).2
  notBelow hbelow := by
    have hleaf : (f.addNode x).children x = [] := by
      apply List.eq_nil_iff_forall_not_mem.2
      intro c hc
      exact hx (f.child_mem hc).1
    exact hx ((below_iff_of_leaf hleaf).1 hbelow ▸ hp)

omit [DecidableEq α] in
/-- A new edge from `p` down to the cut-off `x` closes no circle. -/
theorem transGen_of_edge {R' : α → α → Prop}
    (hedge : ∀ a c, R' a c → c ∈ f.children a ∨ (a = p ∧ c = x)) (hx : ¬ f.Below x p) {a b : α}
    (h : Relation.TransGen R' a b) :
    Relation.TransGen (fun p c => c ∈ f.children p) a b ∨ (f.Below a p ∧ f.Below x b) := by
  induction h with
  | single hab =>
      rcases hedge _ _ hab with hold | ⟨rfl, rfl⟩
      · exact .inl (.single hold)
      · exact .inr ⟨.refl, .refl⟩
  | tail _ hbc ih =>
      rcases hedge _ _ hbc with hold | ⟨rfl, rfl⟩
      · rcases ih with hpath | ⟨hup, hdown⟩
        · exact .inl (hpath.tail hold)
        · exact .inr ⟨hup, hdown.tail hold⟩
      · rcases ih with hpath | ⟨-, hdown⟩
        · exact .inr ⟨hpath.to_reflTransGen, .refl⟩
        · exact absurd hdown hx

theorem mem_update_insert (h : f.children p = l₁ ++ l₂) {q c : α} :
    c ∈ Function.update f.children p (l₁ ++ x :: l₂) q ↔ c ∈ f.children q ∨ (q = p ∧ c = x) := by
  by_cases hq : q = p
  · subst hq
    simp only [Function.update_self, h, List.mem_append, List.mem_cons, true_and]
    tauto
  · simp [hq]

/-- Attach the cut-off node `x` below `p`. -/
def attach (h : f.CanAttach p l₁ x l₂) : RootedForest α where
  root := f.root
  nodes := f.nodes
  children := Function.update f.children p (l₁ ++ x :: l₂)
  root_mem := f.root_mem
  child_mem hmem := by
    rcases (mem_update_insert h.children).1 hmem with hold | ⟨rfl, rfl⟩
    · exact f.child_mem hold
    · exact ⟨h.parent, h.cutOff.1⟩
  root_top q hmem := by
    rcases (mem_update_insert h.children).1 hmem with hold | ⟨-, hroot⟩
    · exact f.root_top q hold
    · exact h.cutOff.2.1 hroot.symm
  nodup q := by
    by_cases hq : q = p
    · subst hq
      have hnodup := f.nodup q
      have hx := h.cutOff.2.2 q
      rw [h.children] at hnodup hx
      rw [Function.update_self]
      exact List.nodup_middle.2 (List.nodup_cons.2 ⟨hx, hnodup⟩)
    · rw [Function.update_of_ne hq]
      exact f.nodup q
  parent_unique hq hr := by
    rcases (mem_update_insert h.children).1 hq with hold | ⟨rfl, rfl⟩
    · rcases (mem_update_insert h.children).1 hr with hold' | ⟨-, rfl⟩
      · exact f.parent_unique hold hold'
      · exact absurd hold (h.cutOff.2.2 _)
    · rcases (mem_update_insert h.children).1 hr with hold' | ⟨rfl, -⟩
      · exact absurd hold' (h.cutOff.2.2 _)
      · rfl
  acyclic n hn := by
    have hpath := transGen_of_edge (fun a c => (mem_update_insert h.children).1) h.notBelow hn
    rcases hpath with hold | ⟨hup, hdown⟩
    · exact f.acyclic n hold
    · exact h.notBelow (hdown.trans hup)

theorem mem_update_remove (h : f.children p = l₁ ++ x :: l₂) {q c : α} :
    c ∈ Function.update f.children p (l₁ ++ l₂) q ↔ c ∈ f.children q ∧ c ≠ x := by
  by_cases hq : q = p
  · subst hq
    have hx := not_mem_of_split h
    simp only [Function.update_self, h, List.mem_append, List.mem_cons]
    constructor
    · intro hc
      exact ⟨by tauto, fun heq => by subst heq; tauto⟩
    · tauto
  · rw [Function.update_of_ne hq]
    refine ⟨fun hc => ⟨hc, ?_⟩, And.left⟩
    rintro rfl
    exact hq (f.parent_unique hc (by simp [h]))

/-- Cut off the child `x` of `p`, and what is below it with it. -/
def detach (h : f.children p = l₁ ++ x :: l₂) : RootedForest α where
  root := f.root
  nodes := f.nodes
  children := Function.update f.children p (l₁ ++ l₂)
  root_mem := f.root_mem
  child_mem hmem := f.child_mem ((mem_update_remove h).1 hmem).1
  root_top q hmem := f.root_top q ((mem_update_remove h).1 hmem).1
  nodup q := by
    by_cases hq : q = p
    · subst hq
      have hnodup := f.nodup q
      rw [h] at hnodup
      rw [Function.update_self]
      exact (List.nodup_cons.1 (List.nodup_middle.1 hnodup)).2
    · rw [Function.update_of_ne hq]
      exact f.nodup q
  parent_unique hq hr :=
    f.parent_unique ((mem_update_remove h).1 hq).1 ((mem_update_remove h).1 hr).1
  acyclic n hn := by
    apply f.acyclic n
    exact Relation.TransGen.mono (fun _ _ hmem => ((mem_update_remove h).1 hmem).1) _ _ hn

end Update

end RootedForest

end SymbianWeb
