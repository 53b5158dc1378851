import Mathlib.Data.List.DropRight
import Mathlib.Data.List.TakeWhile

/-!
# Scanning a list from its ends

A scanner that goes on while its characters have a property splits a list in two. The lemmas say
what the parts are, where the scan ends behind the list or in what follows it, and what the scan
from the other end gives.
-/

set_option autoImplicit false

namespace SymbianWeb.Scanning

variable {α : Type*} {p : α → Bool}

/-- The scan of a list that is followed by something else ends where the scan of the list does, when
the first element that follows ends it. -/
theorem dropWhile_append_of_head {tail : List α} (h : ∀ x ∈ tail.head?, ¬ p x) (l : List α) :
    (l ++ tail).dropWhile p = l.dropWhile p ++ tail := by
  induction l with
  | nil =>
      cases tail with
      | nil => rfl
      | cons x tail => exact List.dropWhile_cons_of_neg (h x rfl)
  | cons x l ih =>
      rw [List.cons_append]
      by_cases hx : p x
      · rw [List.dropWhile_cons_of_pos hx, List.dropWhile_cons_of_pos hx, ih]
      · rw [List.dropWhile_cons_of_neg hx, List.dropWhile_cons_of_neg hx, List.cons_append]

theorem takeWhile_append_of_head {tail : List α} (h : ∀ x ∈ tail.head?, ¬ p x) (l : List α) :
    (l ++ tail).takeWhile p = l.takeWhile p := by
  induction l with
  | nil =>
      cases tail with
      | nil => rfl
      | cons x tail => exact List.takeWhile_cons_of_neg (h x rfl)
  | cons x l ih =>
      rw [List.cons_append]
      by_cases hx : p x
      · rw [List.takeWhile_cons_of_pos hx, List.takeWhile_cons_of_pos hx, ih]
      · rw [List.takeWhile_cons_of_neg hx, List.takeWhile_cons_of_neg hx]

/-- What has been scanned, found by the lengths of the list and of what is left. -/
theorem take_sub_length_dropWhile (l : List α) :
    l.take (l.length - (l.dropWhile p).length) = l.takeWhile p := by
  have hlength := congrArg List.length (List.takeWhile_append_dropWhile (p := p) (l := l))
  rw [List.length_append] at hlength
  rw [show l.length - (l.dropWhile p).length = (l.takeWhile p).length by omega]
  exact (List.prefix_iff_eq_take.mp (List.takeWhile_prefix p)).symm

theorem head_dropWhile_not (l : List α) : ∀ x ∈ (l.dropWhile p).head?, ¬ p x := by
  intro x hx
  have h := List.head?_dropWhile_not p l
  rw [Option.mem_def.mp hx] at h
  exact Bool.eq_false_iff.mp h

/-- A list in two parts is split there by the scan when the first part goes on and the second one
does not. -/
theorem scan_append {front back : List α} (hfront : ∀ x ∈ front, p x)
    (hback : ∀ x ∈ back.head?, ¬ p x) :
    (front ++ back).takeWhile p = front ∧ (front ++ back).dropWhile p = back := by
  rw [takeWhile_append_of_head hback, dropWhile_append_of_head hback,
    List.takeWhile_eq_self_iff.mpr hfront, List.dropWhile_eq_nil_iff.mpr hfront]
  exact ⟨rfl, rfl⟩

/-- The same for the scan from the end. -/
theorem rscan_append {front back : List α} (hfront : ∀ x ∈ front.getLast?, ¬ p x)
    (hback : ∀ x ∈ back, p x) :
    (front ++ back).rdropWhile p = front ∧ (front ++ back).rtakeWhile p = back := by
  have hscan : (back.reverse ++ front.reverse).takeWhile p = back.reverse ∧
      (back.reverse ++ front.reverse).dropWhile p = front.reverse := scan_append
    (fun x hx => hback x (List.mem_reverse.mp hx))
    (fun x hx => hfront x (by rwa [List.head?_reverse] at hx))
  rw [← List.reverse_append] at hscan
  constructor
  · rw [List.rdropWhile, hscan.2, List.reverse_reverse]
  · rw [List.rtakeWhile, hscan.1, List.reverse_reverse]

theorem getLast_rdropWhile_not (l : List α) : ∀ x ∈ (l.rdropWhile p).getLast?, ¬ p x := by
  intro x hx
  rw [List.rdropWhile, List.getLast?_reverse] at hx
  exact head_dropWhile_not l.reverse x hx

/-- An element in front does not matter when the scan from the end stops behind it. -/
theorem rtakeWhile_cons_of_mem {x y : α} {l : List α} (hmem : y ∈ l) (hy : ¬ p y) :
    (x :: l).rtakeWhile p = l.rtakeWhile p := by
  have hne : l.rdropWhile p ≠ [] := fun h => hy (List.rdropWhile_eq_nil_iff.mp h y hmem)
  have hsplit : x :: l = (x :: l.rdropWhile p) ++ l.rtakeWhile p := by
    rw [List.cons_append, List.rdropWhile_append_rtakeWhile]
  have hlast : ∀ z ∈ (x :: l.rdropWhile p).getLast?, ¬ p z := by
    intro z hz
    rw [List.getLast?_cons_of_ne_nil hne] at hz
    exact getLast_rdropWhile_not l z hz
  conv_lhs => rw [hsplit]
  exact (rscan_append hlast fun z hz => List.mem_rtakeWhile_imp hz).2

theorem rtakeWhile_cons_of_all {x : α} {l : List α} (hx : ¬ p x) (hl : ∀ y ∈ l, p y) :
    (x :: l).rtakeWhile p = l := by
  have hfront : ∀ z ∈ [x].getLast?, ¬ p z := by
    rintro z ⟨⟩
    exact hx
  exact (rscan_append hfront hl).2

end SymbianWeb.Scanning
