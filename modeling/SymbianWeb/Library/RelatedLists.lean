import Mathlib.Data.List.Perm.Basic

/-!
# Lists side by side

Two lists of which each element of one is related to the element of the other at the same place
(`List.Forall₂`), and lists that have grown: the elements of the first are in the second as the
relation says, with new elements, in any order (`Grown`).
-/

set_option autoImplicit false

namespace SymbianWeb.RelatedLists

variable {α β γ : Type} {Q : α → β → Prop} {S : α → γ → Prop} {T : β → γ → Prop}

theorem exists_of_mem_of_forall₂ {l : List α} {l' : List β} (h : List.Forall₂ Q l l') {a : α}
    (ha : a ∈ l) : ∃ b ∈ l', Q a b := by
  induction h with
  | nil => cases ha
  | cons hhead _ ih =>
      rcases List.mem_cons.1 ha with rfl | ha
      · exact ⟨_, List.mem_cons_self, hhead⟩
      · obtain ⟨b, hb, hQ⟩ := ih ha
        exact ⟨b, List.mem_cons_of_mem _ hb, hQ⟩

theorem exists_of_mem_of_forall₂_and {Q' : α → β → Prop} {l : List α} {l' : List β}
    (h : List.Forall₂ Q l l') (h' : List.Forall₂ Q' l l') {a : α} (ha : a ∈ l) :
    ∃ b, Q a b ∧ Q' a b := by
  induction h with
  | nil => cases ha
  | cons hhead _ ih =>
      cases h' with
      | cons hhead' htail' =>
          rcases List.mem_cons.1 ha with rfl | ha
          · exact ⟨_, hhead, hhead'⟩
          · exact ih htail' ha

theorem exists_forall₂ {l : List α} (h : ∀ a ∈ l, ∃ b, Q a b) : ∃ l', List.Forall₂ Q l l' := by
  induction l with
  | nil => exact ⟨[], .nil⟩
  | cons a l ih =>
      obtain ⟨b, hb⟩ := h a List.mem_cons_self
      obtain ⟨l', hl'⟩ := ih fun a' ha' => h a' (List.mem_cons_of_mem _ ha')
      exact ⟨b :: l', .cons hb hl'⟩

theorem forall₂_of_self {Q' : α → β → Prop} {l : List α} {l' : List β} (hQ : List.Forall₂ Q l l')
    (h : ∀ a ∈ l, ∀ b, Q a b → Q' a b) : List.Forall₂ Q' l l' := by
  induction hQ with
  | nil => exact .nil
  | cons hhead _ ih =>
      exact .cons (h _ List.mem_cons_self _ hhead) (ih fun a ha => h a (List.mem_cons_of_mem _ ha))

/-- Two lists that are beside a third one are beside each other. -/
theorem forall₂_of_common {l : List α} {l₁ : List β} {l₂ : List γ} (hQ : List.Forall₂ Q l l₁)
    (hS : List.Forall₂ S l l₂) (h : ∀ a ∈ l, ∀ b c, Q a b → S a c → T b c) :
    List.Forall₂ T l₁ l₂ := by
  induction hQ generalizing l₂ with
  | nil =>
      cases hS
      exact .nil
  | cons hhead _ ih =>
      cases hS with
      | cons hhead' htail' =>
          exact .cons (h _ List.mem_cons_self _ _ hhead hhead')
            (ih htail' fun a ha => h a (List.mem_cons_of_mem _ ha))

/-! ## Lists that grow -/

section

variable {P : α → α → Prop} {N : α → Prop} {xs ys zs : List α}

theorem forall₂_trans (htrans : ∀ x y z, P x y → P y z → P x z) (h : List.Forall₂ P xs ys)
    (h' : List.Forall₂ P ys zs) : List.Forall₂ P xs zs := by
  induction h generalizing zs with
  | nil => exact h'
  | cons hxy _ ih =>
      cases h' with
      | cons hyz h' => exact .cons (htrans _ _ _ hxy hyz) (ih h')

/-- The elements of one list are in the other one as `P` says, with new ones, in any order. -/
def Grown (P : α → α → Prop) (N : α → Prop) (xs ys : List α) : Prop :=
  ∃ kept new, List.Forall₂ P xs kept ∧ (∀ x ∈ new, N x) ∧ ys.Perm (kept ++ new)

theorem Grown.of_perm (hrefl : ∀ x, P x x) (h : xs.Perm ys) : Grown P N xs ys :=
  ⟨xs, [], List.forall₂_same.mpr fun x _ => hrefl x, (fun _ hmem => nomatch hmem), by
    rw [List.append_nil]
    exact h.symm⟩

theorem Grown.mono {N' : α → Prop} (hN : ∀ x, N x → N' x) (h : Grown P N xs ys) :
    Grown P N' xs ys := by
  obtain ⟨kept, new, hkept, hnew, hperm⟩ := h
  exact ⟨kept, new, hkept, fun x hmem => hN x (hnew x hmem), hperm⟩

/-- One element is replaced. -/
theorem Grown.replace {x x' : α} {others : List α} (hrefl : ∀ x, P x x) (hx : P x x')
    (hxs : xs.Perm (x :: others)) (hys : ys.Perm (x' :: others)) : Grown P N xs ys := by
  obtain ⟨kept, hkept, hperm⟩ := List.perm_comp_forall₂ hxs
    (List.Forall₂.cons hx (List.forall₂_same.mpr fun x _ => hrefl x))
  refine ⟨kept, [], hkept, (fun _ hmem => nomatch hmem), ?_⟩
  rw [List.append_nil]
  exact hys.trans hperm.symm

/-- One element is added. -/
theorem Grown.add {x : α} (hrefl : ∀ x, P x x) (hx : N x) (hys : ys.Perm (x :: xs)) :
    Grown P N xs ys := by
  refine ⟨xs, [x], List.forall₂_same.mpr fun x _ => hrefl x, ?_, ?_⟩
  · intro y hmem
    rw [List.mem_singleton.mp hmem]
    exact hx
  · exact hys.trans (List.perm_append_singleton x xs).symm

theorem Grown.trans (htrans : ∀ x y z, P x y → P y z → P x z) (hnew : ∀ x y, N x → P x y → N y)
    (h : Grown P N xs ys) (h' : Grown P N ys zs) : Grown P N xs zs := by
  obtain ⟨kept, new, hkept, hN, hperm⟩ := h
  obtain ⟨kept', new', hkept', hN', hperm'⟩ := h'
  -- the elements after the second step, in the order of those before it
  obtain ⟨l, hl, hlperm⟩ := List.perm_comp_forall₂ hperm.symm hkept'
  have hfirst := List.forall₂_take_append l kept new hl.flip
  have hsecond := List.forall₂_drop_append l kept new hl.flip
  refine ⟨l.take kept.length, l.drop kept.length ++ new', forall₂_trans htrans hkept hfirst.flip,
    ?_, ?_⟩
  · intro x hmem
    rcases List.mem_append.mp hmem with hmem | hmem
    · obtain ⟨y, hy, hyx⟩ := exists_of_mem_of_forall₂ hsecond hmem
      exact hnew y x (hN y hy) hyx
    · exact hN' x hmem
  · rw [← List.append_assoc, List.take_append_drop]
    exact hperm'.trans (hlperm.symm.append_right new')

end

end SymbianWeb.RelatedLists
