import Mathlib.Data.List.Nodup
import Mathlib.Data.List.Perm.Subperm
import Mathlib.Data.List.Sort

/-!
# Numberings from zero

A list of numbers is a numbering if it holds 0, 1, ... each once. This is so exactly if no number is
there twice and none is missing below another one (`numbers_iff`). The positions in a list without
duplicates are a numbering (`map_idxOf`), and in a list that is sorted by a numbering each element is
at its number (`idxOf_sorted`).
-/

set_option autoImplicit false

namespace SymbianWeb.Numbering

universe u v

/-- The numbers from zero on, each once. -/
def Numbers (l : List Nat) : Prop := l.Perm (List.range l.length)

theorem Numbers.perm {l l' : List Nat} (h : Numbers l) (hperm : l.Perm l') : Numbers l' := by
  rw [Numbers, ← hperm.length_eq]
  exact hperm.symm.trans h

theorem Numbers.nodup {l : List Nat} (h : Numbers l) : l.Nodup :=
  (List.Perm.nodup_iff h).mpr List.nodup_range

theorem Numbers.mem_iff {l : List Nat} (h : Numbers l) {a : Nat} : a ∈ l ↔ a < l.length :=
  (List.Perm.mem_iff h).trans List.mem_range

theorem numbers_of_lt {l : List Nat} (hnodup : l.Nodup) (hlt : ∀ a ∈ l, a < l.length) :
    Numbers l := by
  have hsubset : l ⊆ List.range l.length := fun a ha => List.mem_range.mpr (hlt a ha)
  exact (List.subperm_of_subset hnodup hsubset).perm_of_length_le (List.length_range).le

/-- A numbering is a list without duplicates and gaps. -/
theorem numbers_iff {l : List Nat} : Numbers l ↔ l.Nodup ∧ ∀ a ∈ l, ∀ b < a, b ∈ l := by
  constructor
  · intro h
    refine ⟨h.nodup, fun a ha b hb => ?_⟩
    rw [h.mem_iff] at ha ⊢
    exact hb.trans ha
  · rintro ⟨hnodup, hdown⟩
    refine numbers_of_lt hnodup fun a ha => ?_
    have hsubset : List.range (a + 1) ⊆ l := by
      intro b hb
      rcases (Nat.lt_succ_iff.mp (List.mem_range.mp hb)).eq_or_lt with rfl | hlt
      · exact ha
      · exact hdown a ha b hlt
    have hlength := (List.subperm_of_subset List.nodup_range hsubset).length_le
    rwa [List.length_range] at hlength

theorem numbers_nil : Numbers [] := List.Perm.refl []

/-- A number that makes room for some from an index on. -/
def shift (index size number : Nat) : Nat := if number < index then number else number + size

theorem shift_injective (index size : Nat) : Function.Injective (shift index size) := by
  intro a b h
  rw [shift, shift] at h
  split at h <;> split at h <;> omega

/-- The room is filled. -/
theorem Numbers.insert {l inserted : List Nat} {index size : Nat} (h : Numbers l)
    (hindex : index ≤ l.length) (hinserted : inserted.Perm (List.range' index size)) :
    Numbers (l.map (shift index size) ++ inserted) := by
  have hlength : inserted.length = size := by rw [hinserted.length_eq, List.length_range']
  have hroom : ∀ {n}, n ∈ inserted ↔ index ≤ n ∧ n < index + size := by
    intro n
    rw [hinserted.mem_iff, List.mem_range'_1]
  refine numbers_of_lt ?_ fun n hn => ?_
  · rw [List.nodup_append]
    refine ⟨h.nodup.map (shift_injective index size), ?_, fun a ha b hb heq => ?_⟩
    · exact hinserted.nodup_iff.mpr List.nodup_range'
    · obtain ⟨n, -, rfl⟩ := List.mem_map.mp ha
      rw [hroom, ← heq, shift] at hb
      split at hb <;> omega
  · rw [List.length_append, List.length_map, hlength]
    rcases List.mem_append.mp hn with hn | hn
    · obtain ⟨m, hm, rfl⟩ := List.mem_map.mp hn
      rw [h.mem_iff] at hm
      rw [shift]
      split <;> omega
    · have hlt := (hroom.mp hn).2
      omega

/-- Some elements fill the room that the others make. -/
theorem Numbers.insert_filter {α : Type u} {l : List α} {p : α → Prop} [DecidablePred p]
    {rank order : α → Nat} {index size : Nat} (h : Numbers ((l.filter fun a => ¬ p a).map rank))
    (hindex : index ≤ (l.filter fun a => ¬ p a).length)
    (hstay : ∀ a ∈ l, ¬ p a → order a = shift index size (rank a))
    (hinserted : ((l.filter fun a => p a).map order).Perm (List.range' index size)) :
    Numbers (l.map order) := by
  have hfilled := h.insert (hindex.trans_eq (List.length_map rank).symm) hinserted
  have hshift : (l.filter fun a => ¬ p a).map order =
      ((l.filter fun a => ¬ p a).map rank).map (shift index size) := by
    rw [List.map_map]
    refine List.map_congr_left fun a ha => ?_
    obtain ⟨hmem, hnot⟩ := List.mem_filter.mp ha
    exact hstay a hmem (of_decide_eq_true hnot)
  rw [← hshift, ← List.map_append] at hfilled
  refine hfilled.perm (List.Perm.map order ?_)
  have hboth := List.filter_append_perm (fun a => decide ¬ p a) l
  simpa using hboth

section Positions

variable {α : Type u} [DecidableEq α]

/-- The positions in a list without duplicates. -/
theorem map_idxOf {l : List α} (h : l.Nodup) : l.map (l.idxOf ·) = List.range l.length := by
  refine List.ext_getElem (by rw [List.length_map, List.length_range]) fun i hi hi' => ?_
  rw [List.getElem_map, List.getElem_range, h.idxOf_getElem]

theorem numbers_idxOf {l l' : List α} (h : l.Nodup) (hperm : l'.Perm l) :
    Numbers (l'.map (l.idxOf ·)) := by
  have hrange := hperm.map (l.idxOf ·)
  rw [map_idxOf h] at hrange
  rw [Numbers, List.length_map, hperm.length_eq]
  exact hrange

end Positions

section Sorting

variable {α : Type u} {β : Type v} [DecidableEq β] (key : α → Nat) (name : α → β)

theorem pairwise_sorted (l : List α) :
    (l.mergeSort fun a b => key a ≤ key b).Pairwise fun a b => key a ≤ key b := by
  have hsorted := @List.pairwise_mergeSort α (fun a b => decide (key a ≤ key b))
    (fun a b c hab hbc => decide_eq_true (le_trans (of_decide_eq_true hab) (of_decide_eq_true hbc)))
    (fun a b => by
      rw [Bool.or_eq_true, decide_eq_true_eq, decide_eq_true_eq]
      exact le_total (key a) (key b)) l
  exact hsorted.imp of_decide_eq_true

/-- In the order of a numbering the numbers are 0, 1, ... -/
theorem map_key_sorted {l : List α} (h : Numbers (l.map key)) :
    (l.mergeSort fun a b => key a ≤ key b).map key = List.range l.length := by
  have hperm : ((l.mergeSort fun a b => key a ≤ key b).map key).Perm (List.range l.length) := by
    refine ((List.mergeSort_perm l _).map key).trans ?_
    rw [Numbers, List.length_map] at h
    exact h
  refine hperm.eq_of_pairwise (fun a b _ _ => le_antisymm) ?_ ?_
  · exact List.pairwise_map.mpr (pairwise_sorted key l)
  · exact List.pairwise_le_range

/-- In the order of a numbering each element is at its number. -/
theorem idxOf_sorted {l : List α} (hname : (l.map name).Nodup) (h : Numbers (l.map key)) {a : α}
    (ha : a ∈ l) :
    ((l.mergeSort fun a b => key a ≤ key b).map name).idxOf (name a) = key a := by
  have hkeys := map_key_sorted key h
  have hnames : ((l.mergeSort fun a b => key a ≤ key b).map name).Nodup :=
    ((List.mergeSort_perm l _).map name).nodup_iff.mpr hname
  have hmem : a ∈ l.mergeSort fun a b => key a ≤ key b := List.mem_mergeSort.mpr ha
  obtain ⟨i, hi, rfl⟩ := List.getElem_of_mem hmem
  have hkey : key ((l.mergeSort fun a b => key a ≤ key b)[i]) = i := by
    have hget := List.getElem_of_eq hkeys (i := i) (by rwa [List.length_map])
    rwa [List.getElem_map, List.getElem_range] at hget
  have hidx := hnames.idxOf_getElem i (by rwa [List.length_map])
  rw [List.getElem_map] at hidx
  rw [hidx, hkey]

/-- A sorted list is split at a number. -/
theorem filter_append_filter_of_sorted {l : List α} (h : l.Pairwise fun a b => key a ≤ key b)
    (n : Nat) : l.filter (fun a => key a < n) ++ l.filter (fun a => ¬ key a < n) = l := by
  induction l with
  | nil => rfl
  | cons a l ih =>
    obtain ⟨hle, h⟩ := List.pairwise_cons.mp h
    by_cases hlt : key a < n
    · rw [List.filter_cons, List.filter_cons, if_pos (decide_eq_true hlt),
        if_neg (by simpa using hlt), List.cons_append, ih h]
    · have hnone : l.filter (fun a => key a < n) = [] := by
        rw [List.filter_eq_nil_iff]
        intro b hb hbn
        exact hlt ((hle b hb).trans_lt (of_decide_eq_true hbn))
      have hrest := ih h
      rw [hnone, List.nil_append] at hrest
      rw [List.filter_cons, List.filter_cons, if_neg (by simpa using hlt),
        if_pos (decide_eq_true hlt), hnone, List.nil_append, hrest]

end Sorting

end SymbianWeb.Numbering
