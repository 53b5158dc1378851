import Mathlib

/-!
# Bisection

A list is searched by comparing with the element in its middle and going on in one of the halves.
In a sorted list, the search finds what is in the list and nothing else.

The same search by positions (`bisectAt`) says where it finds an element. Where one stands several
times, it may be any of them.
-/

set_option autoImplicit false

namespace SymbianWeb.Bisection

universe u

variable {α : Type u} [LinearOrder α]

/-- Whether the search finds `x`, in at most so many steps. -/
def bisect (x : α) : Nat → List α → Bool
  | 0, _ => false
  | fuel + 1, xs =>
      match xs.drop (xs.length / 2) with
      | [] => false
      | y :: right =>
          if x = y then true
          else if x < y then bisect x fuel (xs.take (xs.length / 2))
          else bisect x fuel right

/-- In a sorted list, with a step for each element, the search finds what is there. -/
theorem bisect_iff {x : α} (fuel : Nat) : ∀ {xs : List α}, xs.Pairwise (· ≤ ·) →
    xs.length ≤ fuel → (bisect x fuel xs = true ↔ x ∈ xs) := by
  induction fuel with
  | zero =>
      intro xs _ hfuel
      rw [List.length_eq_zero_iff.mp (Nat.le_zero.mp hfuel)]
      exact ⟨fun h => Bool.noConfusion h, fun h => (List.not_mem_nil h).elim⟩
  | succ fuel ih =>
      intro xs hsorted hfuel
      have hsplit := List.take_append_drop (xs.length / 2) xs
      have hleft : (xs.take (xs.length / 2)).length = xs.length / 2 := by
        rw [List.length_take]
        omega
      have hlength := List.length_drop (i := xs.length / 2) (l := xs)
      rw [bisect]
      generalize xs.take (xs.length / 2) = left at *
      generalize xs.drop (xs.length / 2) = half at *
      cases half with
      | nil =>
          -- Without a middle, there is nothing at all.
          have hnil : xs = [] := by
            apply List.length_eq_zero_iff.mp
            rw [List.length_nil] at hlength
            omega
          rw [hnil]
          exact ⟨fun h => Bool.noConfusion h, fun h => (List.not_mem_nil h).elim⟩
      | cons y right =>
          rw [List.length_cons] at hlength
          rw [← hsplit] at hsorted ⊢
          obtain ⟨hsleft, hsright, hacross⟩ := List.pairwise_append.mp hsorted
          obtain ⟨hfirst, hsright⟩ := List.pairwise_cons.mp hsright
          rw [List.mem_append, List.mem_cons]
          dsimp only
          by_cases heq : x = y
          · rw [if_pos heq]
            exact ⟨fun _ => .inr (.inl heq), fun _ => rfl⟩
          · rw [if_neg heq]
            by_cases hlt : x < y
            · rw [if_pos hlt, ih hsleft (by omega)]
              refine ⟨Or.inl, ?_⟩
              rintro (hmem | hxy | hmem)
              · exact hmem
              · exact (heq hxy).elim
              · exact (not_lt_of_ge (hfirst x hmem) hlt).elim
            · rw [if_neg hlt, ih hsright (by omega)]
              refine ⟨fun h => .inr (.inr h), ?_⟩
              rintro (hmem | hxy | hmem)
              · have hle := hacross x hmem y List.mem_cons_self
                exact (heq (le_antisymm hle (not_lt.mp hlt))).elim
              · exact (heq hxy).elim
              · exact hmem

/-! ## By positions -/

/-- The position, from `l` on and before `stop`, at which the search meets `x`. -/
def bisectAt (x : α) (f : Nat → α) (l stop : Nat) : Option Nat :=
  if l < stop then
    if x = f ((l + (stop - 1)) / 2) then some ((l + (stop - 1)) / 2)
    else if x < f ((l + (stop - 1)) / 2) then bisectAt x f l ((l + (stop - 1)) / 2)
    else bisectAt x f ((l + (stop - 1)) / 2 + 1) stop
  else none
termination_by stop - l
decreasing_by all_goals omega

theorem eq_of_bisectAt {x : α} {f : Nat → α} {l stop m : Nat} (h : bisectAt x f l stop = some m) :
    l ≤ m ∧ m < stop ∧ f m = x := by
  induction l, stop using bisectAt.induct x f with
  | case1 l stop hlt heq =>
      rw [bisectAt, if_pos hlt, if_pos heq] at h
      obtain rfl := Option.some.inj h
      exact ⟨by omega, by omega, heq.symm⟩
  | case2 l stop hlt hne hleft ih =>
      rw [bisectAt, if_pos hlt, if_neg hne, if_pos hleft] at h
      obtain ⟨hl, hm, hx⟩ := ih h
      exact ⟨hl, by omega, hx⟩
  | case3 l stop hlt hne hright ih =>
      rw [bisectAt, if_pos hlt, if_neg hne, if_neg hright] at h
      obtain ⟨hl, hm, hx⟩ := ih h
      exact ⟨by omega, hm, hx⟩
  | case4 l stop hdone =>
      rw [bisectAt, if_neg hdone] at h
      cases h

/-- Over ascending elements, the search misses nothing. -/
theorem ne_of_bisectAt_eq_none {x : α} {f : Nat → α} {count : Nat}
    (hascending : ∀ i j, i ≤ j → j < count → f i ≤ f j) {l stop : Nat} (hstop : stop ≤ count)
    (h : bisectAt x f l stop = none) {m : Nat} (hl : l ≤ m) (hm : m < stop) : f m ≠ x := by
  induction l, stop using bisectAt.induct x f generalizing m with
  | case1 l stop hlt heq =>
      rw [bisectAt, if_pos hlt, if_pos heq] at h
      cases h
  | case2 l stop hlt hne hleft ih =>
      rw [bisectAt, if_pos hlt, if_neg hne, if_pos hleft] at h
      by_cases hhere : m < (l + (stop - 1)) / 2
      · exact ih (by omega) h hl hhere
      · -- Here and behind, everything is greater.
        have hle := hascending _ m (Nat.le_of_not_lt hhere) (by omega)
        exact ne_of_gt (lt_of_lt_of_le hleft hle)
  | case3 l stop hlt hne hright ih =>
      rw [bisectAt, if_pos hlt, if_neg hne, if_neg hright] at h
      by_cases hhere : (l + (stop - 1)) / 2 < m
      · exact ih hstop h hhere hm
      · have hle := hascending m _ (Nat.le_of_not_lt hhere) (by omega)
        have hgt := lt_of_le_of_ne (not_lt.mp hright) (Ne.symm hne)
        exact ne_of_lt (lt_of_le_of_lt hle hgt)
  | case4 l stop hdone => exact absurd (Nat.lt_of_le_of_lt hl hm) hdone

end SymbianWeb.Bisection
