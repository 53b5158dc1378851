import Mathlib.Data.List.Basic
import Mathlib.Logic.Function.Basic

/-!
# Queues indexed by a key

A family of queues `q : κ → List α`. `InOnly q a k` says that the element `a` is once in the queue
of `k` and in no other one, `Nowhere q a` that it is in none, and `SameFor q q' b` that `b` occurs
in both families in the same places. Appending and erasing change the places of one element, and
the lemmas say how.
-/

set_option autoImplicit false

namespace SymbianWeb.BucketQueues

universe u v

variable {κ : Type u} {α : Type v} [DecidableEq κ] [DecidableEq α]

/-- The element is once in the queue of `k` and in no other queue. -/
def InOnly (q : κ → List α) (a : α) (k : κ) : Prop :=
  (q k).count a = 1 ∧ ∀ j, j ≠ k → a ∉ q j

/-- The element is in no queue. -/
def Nowhere (q : κ → List α) (a : α) : Prop := ∀ j, a ∉ q j

/-- The element occurs equally often in each queue of both families. -/
def SameFor (q q' : κ → List α) (a : α) : Prop := ∀ j, (q' j).count a = (q j).count a

variable {q q' q'' : κ → List α} {a b : α} {k j : κ}

/-! ## Places of an element -/

omit [DecidableEq κ] in
theorem InOnly.mem (h : InOnly q a k) : a ∈ q k := by
  rw [← List.count_pos_iff, h.1]
  exact Nat.one_pos

theorem InOnly.eq_of_mem (h : InOnly q a k) (hj : a ∈ q j) : j = k := by
  apply Decidable.byContradiction
  intro hne
  exact h.2 j hne hj

omit [DecidableEq κ] in
theorem SameFor.mem_iff (h : SameFor q q' a) : a ∈ q' j ↔ a ∈ q j := by
  rw [← List.count_pos_iff, ← List.count_pos_iff, h j]

omit [DecidableEq κ] in
theorem SameFor.refl (q : κ → List α) (a : α) : SameFor q q a := fun _ => rfl

omit [DecidableEq κ] in
theorem SameFor.trans (h : SameFor q q' a) (h' : SameFor q' q'' a) : SameFor q q'' a :=
  fun j => (h' j).trans (h j)

omit [DecidableEq κ] in
theorem InOnly.same (h : InOnly q a k) (hsame : SameFor q q' a) : InOnly q' a k := by
  refine ⟨(hsame k).trans h.1, ?_⟩
  intro j hj hmem
  exact h.2 j hj (hsame.mem_iff.1 hmem)

omit [DecidableEq κ] in
theorem Nowhere.same (h : Nowhere q a) (hsame : SameFor q q' a) : Nowhere q' a := by
  intro j hmem
  exact h j (hsame.mem_iff.1 hmem)

/-! ## Appending -/

theorem sameFor_append (hne : b ≠ a) : SameFor q (Function.update q k (q k ++ [a])) b := by
  intro j
  cases hj : decide (j = k) with
  | true =>
      rw [decide_eq_true_eq] at hj
      subst hj
      rw [Function.update_self, List.count_append, List.count_singleton]
      simp [hne.symm]
  | false =>
      rw [decide_eq_false_iff_not] at hj
      rw [Function.update_of_ne hj]

theorem inOnly_append (h : Nowhere q a) : InOnly (Function.update q k (q k ++ [a])) a k := by
  constructor
  · rw [Function.update_self, List.count_append, List.count_eq_zero.2 (h k)]
    simp
  · intro j hj
    rw [Function.update_of_ne hj]
    exact h j

/-! ## Erasing -/

theorem sameFor_erase (hne : b ≠ a) : SameFor q (Function.update q k ((q k).erase a)) b := by
  intro j
  cases hj : decide (j = k) with
  | true =>
      rw [decide_eq_true_eq] at hj
      subst hj
      rw [Function.update_self, List.count_erase_of_ne hne]
  | false =>
      rw [decide_eq_false_iff_not] at hj
      rw [Function.update_of_ne hj]

theorem InOnly.erase (h : InOnly q a k) :
    Nowhere (Function.update q k ((q k).erase a)) a := by
  intro j
  cases hj : decide (j = k) with
  | true =>
      rw [decide_eq_true_eq] at hj
      subst hj
      rw [Function.update_self, ← List.count_pos_iff, List.count_erase_self, h.1]
      exact Nat.lt_irrefl 0
  | false =>
      rw [decide_eq_false_iff_not] at hj
      rw [Function.update_of_ne hj]
      exact h.2 j hj

theorem Nowhere.erase (h : Nowhere q a) : Function.update q k ((q k).erase a) = q := by
  rw [List.erase_of_not_mem (h k), Function.update_eq_self]

/-! ## Moving -/

/-- Taking an element out of its queue and appending it to a queue. -/
theorem InOnly.move (h : InOnly q a k) :
    InOnly (Function.update (Function.update q k ((q k).erase a)) j
      ((Function.update q k ((q k).erase a)) j ++ [a])) a j :=
  inOnly_append h.erase

theorem sameFor_move (hne : b ≠ a) :
    SameFor q (Function.update (Function.update q k ((q k).erase a)) j
      ((Function.update q k ((q k).erase a)) j ++ [a])) b :=
  (sameFor_erase hne).trans (sameFor_append hne)

end SymbianWeb.BucketQueues
