import Mathlib

/-!
# Binary trees in heap order

A tree is in heap order when each element is below all that hang from it, so that the root is the
least element. `meld` joins two trees by running down the left children of the lesser root,
`insert` puts an element above the first larger one on a path that may be chosen freely, and
`graft` puts another tree made of the children of an element in its place; `erase` and `replace`
are two grafts. Each operation keeps the order, and its elements are a permutation of the expected
ones.
-/

set_option autoImplicit false

namespace SymbianWeb

universe u

/-- A binary tree. -/
inductive HeapTree (α : Type u) where
  | nil
  | node (s : α) (child1 child2 : HeapTree α)

namespace HeapTree

variable {α : Type u}

/-- The elements, each above those of its children. -/
def elements : HeapTree α → List α
  | nil => []
  | node s child1 child2 => s :: (child1.elements ++ child2.elements)

/-- The element at the top. -/
def root? : HeapTree α → Option α
  | nil => none
  | node s _ _ => some s

@[simp] theorem elements_nil : (nil : HeapTree α).elements = [] := rfl

@[simp] theorem elements_node (s : α) (l r : HeapTree α) :
    (node s l r).elements = s :: (l.elements ++ r.elements) := rfl

variable [LinearOrder α]

/-- Each element is less than those below it. -/
def Ordered : HeapTree α → Prop
  | nil => True
  | node s child1 child2 =>
    (∀ x ∈ child1.elements ++ child2.elements, s < x) ∧ child1.Ordered ∧ child2.Ordered

/-- One of two trees, joined below the lesser root. -/
def meld : HeapTree α → HeapTree α → HeapTree α
  | l, nil => l
  | nil, r => r
  | node a a₁ a₂, node b b₁ b₂ =>
    if a < b then node a (meld a₁ a₂) (node b b₁ b₂) else node b (meld b₁ b₂) (node a a₁ a₂)
termination_by l r => sizeOf l + sizeOf r

/-- An element put above the first larger one on a path. -/
def insert (goLeft : HeapTree α → HeapTree α → Bool) (s : α) : HeapTree α → HeapTree α
  | nil => node s nil nil
  | node n l r =>
    if s < n then node s (node n l r) nil
    else if goLeft l r then node n (insert goLeft s l) r
    else node n l (insert goLeft s r)

/-- The tree with another one made of the children of an element in the place of the element. -/
def graft (s : α) (f : HeapTree α → HeapTree α → HeapTree α) : HeapTree α → HeapTree α
  | nil => nil
  | node n l r => if n = s then f l r else node n (graft s f l) (graft s f r)

/-- The children of an element, melded into its place. -/
def erase (s : α) : HeapTree α → HeapTree α := graft s meld

/-- Another element in the place of one. -/
def replace (s s' : α) : HeapTree α → HeapTree α := graft s (node s')

/-! ## Elements -/

theorem elements_meld (l r : HeapTree α) : (meld l r).elements.Perm (l.elements ++ r.elements) := by
  induction l, r using meld.induct with
  | case1 l =>
    rw [meld, elements_nil, List.append_nil]
  | case2 r hr =>
    rw [meld, elements_nil, List.nil_append]
    exact hr
  | case3 a a₁ a₂ b b₁ b₂ hab ih =>
    rw [meld, if_pos hab, elements_node, elements_node a]
    exact (ih.append_right _).cons a
  | case4 a a₁ a₂ b b₁ b₂ hab ih =>
    rw [meld, if_neg hab, elements_node, elements_node b]
    refine ((ih.append_right _).cons b).trans ?_
    rw [← List.cons_append]
    exact List.perm_append_comm

theorem mem_meld {l r : HeapTree α} {x : α} :
    x ∈ (meld l r).elements ↔ x ∈ l.elements ∨ x ∈ r.elements := by
  rw [(elements_meld l r).mem_iff, List.mem_append]

theorem elements_insert (goLeft : HeapTree α → HeapTree α → Bool) (s : α) (t : HeapTree α) :
    (insert goLeft s t).elements.Perm (s :: t.elements) := by
  induction t with
  | nil => exact List.Perm.refl _
  | node n l r ihl ihr =>
    rw [insert]
    split
    · rw [elements_node, elements_nil, List.append_nil]
    · have hswap : (n :: s :: (l.elements ++ r.elements)).Perm (s :: (node n l r).elements) :=
        List.Perm.swap s n _
      split
      · exact ((ihl.append_right r.elements).cons n).trans hswap
      · refine List.Perm.trans (List.Perm.cons n ?_) hswap
        exact (ihr.append_left l.elements).trans List.perm_middle

theorem graft_of_not_mem {s : α} {f : HeapTree α → HeapTree α → HeapTree α} {t : HeapTree α}
    (hs : s ∉ t.elements) : graft s f t = t := by
  induction t with
  | nil => rfl
  | node n l r ihl ihr =>
    rw [elements_node, List.mem_cons, List.mem_append] at hs
    rw [graft, if_neg fun h => hs (.inl h.symm), ihl fun h => hs (.inr (.inl h)),
      ihr fun h => hs (.inr (.inr h))]

/-- The elements after a graft that brings `new` in for an element. -/
theorem elements_graft {s : α} {f : HeapTree α → HeapTree α → HeapTree α} {new : List α}
    (hf : ∀ l r, (f l r).elements.Perm (new ++ (l.elements ++ r.elements))) {t : HeapTree α}
    (hnodup : t.elements.Nodup) (hmem : s ∈ t.elements) :
    (s :: (graft s f t).elements).Perm (new ++ t.elements) := by
  induction t with
  | nil => exact absurd hmem List.not_mem_nil
  | node n l r ihl ihr =>
    rw [elements_node, List.nodup_cons, List.nodup_append] at hnodup
    obtain ⟨-, hl, hr, hlr⟩ := hnodup
    rw [graft]
    split
    · rename_i hns
      rw [← hns, elements_node]
      exact ((hf l r).cons n).trans List.perm_middle.symm
    · rename_i hns
      rw [elements_node, elements_node]
      refine ((List.Perm.swap n s _).trans (List.Perm.cons n ?_)).trans List.perm_middle.symm
      rcases List.mem_append.mp ((List.mem_cons.mp hmem).resolve_left (Ne.symm hns)) with hsl | hsr
      · rw [graft_of_not_mem fun hsr => hlr s hsl s hsr rfl, ← List.cons_append,
          ← List.append_assoc]
        exact (ihl hl hsl).append_right _
      · rw [graft_of_not_mem fun hsl => hlr s hsl s hsr rfl]
        refine List.perm_middle.symm.trans (((ihr hr hsr).append_left _).trans ?_)
        rw [← List.append_assoc, ← List.append_assoc]
        exact List.perm_append_comm.append_right _

theorem elements_erase {s : α} {t : HeapTree α} (hnodup : t.elements.Nodup)
    (hmem : s ∈ t.elements) : (s :: (erase s t).elements).Perm t.elements :=
  @elements_graft α _ s meld [] elements_meld t hnodup hmem

theorem elements_replace {s s' : α} {t : HeapTree α} (hnodup : t.elements.Nodup)
    (hmem : s ∈ t.elements) : (s :: (replace s s' t).elements).Perm (s' :: t.elements) :=
  @elements_graft α _ s (node s') [s'] (fun _ _ => List.Perm.refl _) t hnodup hmem

theorem mem_elements_erase {s x : α} {t : HeapTree α} (hnodup : t.elements.Nodup)
    (hmem : s ∈ t.elements) : x ∈ (erase s t).elements ↔ x ≠ s ∧ x ∈ t.elements := by
  have hperm := List.cons_perm_iff_perm_erase.mp (elements_erase hnodup hmem)
  rw [hperm.2.mem_iff, hnodup.mem_erase_iff]

theorem mem_elements_replace {s s' x : α} {t : HeapTree α} (hnodup : (s' :: t.elements).Nodup)
    (hmem : s ∈ t.elements) :
    x ∈ (replace s s' t).elements ↔ x ≠ s ∧ (x = s' ∨ x ∈ t.elements) := by
  have hperm := List.cons_perm_iff_perm_erase.mp
    (@elements_replace α _ s s' t (List.nodup_cons.mp hnodup).2 hmem)
  rw [hperm.2.mem_iff, hnodup.mem_erase_iff, List.mem_cons]

/-! ## Order -/

theorem Ordered.root_le {s x : α} {l r : HeapTree α} (h : (node s l r).Ordered)
    (hx : x ∈ (node s l r).elements) : s ≤ x := by
  rcases List.mem_cons.mp hx with rfl | hx
  · exact le_refl x
  · exact le_of_lt (h.1 x hx)

theorem ordered_meld {l r : HeapTree α} (hl : l.Ordered) (hr : r.Ordered)
    (hnodup : (l.elements ++ r.elements).Nodup) : (meld l r).Ordered := by
  induction l, r using meld.induct with
  | case1 l =>
    rw [meld]
    exact hl
  | case2 r hne =>
    rw [meld]
    · exact hr
    · exact hne
  | case3 a a₁ a₂ b b₁ b₂ hab ih =>
    have ha := (List.nodup_cons.mp (List.nodup_append.mp hnodup).1).2
    rw [meld, if_pos hab]
    refine ⟨fun x hx => ?_, ih hl.2.1 hl.2.2 ha, hr⟩
    rcases List.mem_append.mp hx with hx | hx
    · exact hl.1 x (List.mem_append.mpr (mem_meld.mp hx))
    · exact lt_of_lt_of_le hab (hr.root_le hx)
  | case4 a a₁ a₂ b b₁ b₂ hab ih =>
    have hb := (List.nodup_cons.mp (List.nodup_append.mp hnodup).2.1).2
    have hne : a ≠ b := (List.nodup_append.mp hnodup).2.2 a List.mem_cons_self b List.mem_cons_self
    have hba : b < a := lt_of_le_of_ne (not_lt.mp hab) hne.symm
    rw [meld, if_neg hab]
    refine ⟨fun x hx => ?_, ih hr.2.1 hr.2.2 hb, hl⟩
    rcases List.mem_append.mp hx with hx | hx
    · exact hr.1 x (List.mem_append.mpr (mem_meld.mp hx))
    · exact lt_of_lt_of_le hba (hl.root_le hx)

theorem ordered_insert (goLeft : HeapTree α → HeapTree α → Bool) {s : α} {t : HeapTree α}
    (ht : t.Ordered) (hs : s ∉ t.elements) : (insert goLeft s t).Ordered := by
  induction t with
  | nil => exact ⟨fun x hx => absurd hx List.not_mem_nil, trivial, trivial⟩
  | node n l r ihl ihr =>
    rw [elements_node, List.mem_cons, List.mem_append, not_or, not_or] at hs
    obtain ⟨hsn, hsl, hsr⟩ := hs
    rw [insert]
    split
    · rename_i hlt
      refine ⟨fun x hx => ?_, ht, trivial⟩
      rw [elements_nil, List.append_nil] at hx
      exact lt_of_lt_of_le hlt (ht.root_le hx)
    · rename_i hlt
      have hns : n < s := lt_of_le_of_ne (not_lt.mp hlt) (Ne.symm hsn)
      split
      · refine ⟨fun x hx => ?_, ihl ht.2.1 hsl, ht.2.2⟩
        rw [List.mem_append, (elements_insert goLeft s l).mem_iff, List.mem_cons] at hx
        rcases hx with (rfl | hx) | hx
        · exact hns
        · exact ht.1 x (List.mem_append_left _ hx)
        · exact ht.1 x (List.mem_append_right _ hx)
      · refine ⟨fun x hx => ?_, ht.2.1, ihr ht.2.2 hsr⟩
        rw [List.mem_append, (elements_insert goLeft s r).mem_iff, List.mem_cons] at hx
        rcases hx with hx | rfl | hx
        · exact ht.1 x (List.mem_append_left _ hx)
        · exact hns
        · exact ht.1 x (List.mem_append_right _ hx)

/-- A graft keeps the order when what comes in for an element is above what the element is above. -/
theorem ordered_graft {s : α} {f : HeapTree α → HeapTree α → HeapTree α} {new : List α}
    (hf : ∀ l r, (f l r).elements.Perm (new ++ (l.elements ++ r.elements))) {t : HeapTree α}
    (ht : t.Ordered) (hnodup : t.elements.Nodup)
    (hordered : ∀ l r, (node s l r).Ordered → (l.elements ++ r.elements).Nodup →
      (∀ x ∈ l.elements ++ r.elements, x ∈ t.elements) → (f l r).Ordered)
    (hnew : ∀ y ∈ t.elements, y < s → ∀ x ∈ new, y < x) : (graft s f t).Ordered := by
  induction t with
  | nil => trivial
  | node n l r ihl ihr =>
    have hall := (List.nodup_cons.mp hnodup).2
    obtain ⟨hl, hr, -⟩ := List.nodup_append.mp hall
    have hsubl : ∀ x ∈ l.elements, x ∈ (node n l r).elements := fun x hx =>
      List.mem_cons_of_mem _ (List.mem_append_left _ hx)
    have hsubr : ∀ x ∈ r.elements, x ∈ (node n l r).elements := fun x hx =>
      List.mem_cons_of_mem _ (List.mem_append_right _ hx)
    rw [graft]
    split
    · rename_i hns
      subst hns
      exact hordered l r ht hall fun x hx => List.mem_cons_of_mem _ hx
    · -- A part that changes holds `s`, so that what comes in is above `n`.
      have hbelow : ∀ {t' : HeapTree α}, t'.elements.Nodup →
          (∀ x ∈ t'.elements, x ∈ l.elements ++ r.elements) →
          ∀ x ∈ (graft s f t').elements, n < x := by
        intro t' hnodup' hsub x hx
        by_cases hs : s ∈ t'.elements
        · have hx' := (elements_graft hf hnodup' hs).mem_iff.mp (List.mem_cons_of_mem s hx)
          rcases List.mem_append.mp hx' with hx' | hx'
          · exact hnew n List.mem_cons_self (ht.1 s (hsub s hs)) x hx'
          · exact ht.1 x (hsub x hx')
        · rw [graft_of_not_mem hs] at hx
          exact ht.1 x (hsub x hx)
      refine ⟨fun x hx => ?_, ihl ht.2.1 hl ?_ ?_, ihr ht.2.2 hr ?_ ?_⟩
      · rcases List.mem_append.mp hx with hx | hx
        · exact hbelow hl (fun y hy => List.mem_append_left _ hy) x hx
        · exact hbelow hr (fun y hy => List.mem_append_right _ hy) x hx
      · exact fun l' r' h h' hsub => hordered l' r' h h' fun x hx => hsubl x (hsub x hx)
      · exact fun y hy => hnew y (hsubl y hy)
      · exact fun l' r' h h' hsub => hordered l' r' h h' fun x hx => hsubr x (hsub x hx)
      · exact fun y hy => hnew y (hsubr y hy)

theorem ordered_erase {s : α} {t : HeapTree α} (ht : t.Ordered) (hnodup : t.elements.Nodup) :
    (erase s t).Ordered := by
  refine @ordered_graft α _ s meld [] elements_meld t ht hnodup (fun l r h hlr _ => ?_)
    fun y _ _ x hx => ?_
  · exact ordered_meld h.2.1 h.2.2 hlr
  · exact absurd hx List.not_mem_nil

/-- An element may be replaced by one that compares in the same way with the others. -/
theorem ordered_replace {s s' : α} {t : HeapTree α} (ht : t.Ordered) (hnodup : t.elements.Nodup)
    (hbelow : ∀ y ∈ t.elements, y < s → y < s') (habove : ∀ y ∈ t.elements, s < y → s' < y) :
    (replace s s' t).Ordered := by
  refine @ordered_graft α _ s (node s') [s'] (fun _ _ => List.Perm.refl _) t ht hnodup
    (fun l r h _ hsub => ?_) fun y hy hlt x hx => ?_
  · exact ⟨fun x hx => habove x (hsub x hx) (h.1 x hx), h.2.1, h.2.2⟩
  · rw [List.mem_singleton.mp hx]
    exact hbelow y hy hlt

end HeapTree

end SymbianWeb
