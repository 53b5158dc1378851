import Mathlib

/-!
# Extents of memory

An extent is an address and a number of bytes. Extents that lie apart in an address space are
together no larger than the space (`sum_length_le`).

Behind one another the extents of a list form one range of indexes. `locate` finds the extent that
an index falls in and the offset there; it is inverted by adding the offset to the lengths of the
extents before (`locate_firstIndex`).
-/

set_option autoImplicit false

namespace SymbianWeb.Extents

/-! ## Extents that lie apart -/

/-- The bytes `[address, address + length)`. -/
structure Extent where
  address : Nat
  length : Nat
  deriving DecidableEq

/-- One of the extents ends before the other begins. -/
def Apart (e e' : Extent) : Prop :=
  e.address + e.length ≤ e'.address ∨ e'.address + e'.length ≤ e.address

instance (e e' : Extent) : Decidable (Apart e e') := inferInstanceAs (Decidable (_ ∨ _))

theorem Apart.symm {e e' : Extent} (h : Apart e e') : Apart e' e := Or.symm h

/-- The first extent lies inside the second one. -/
def Inside (e e' : Extent) : Prop :=
  e'.address ≤ e.address ∧ e.address + e.length ≤ e'.address + e'.length

theorem Apart.of_inside {e e' d d' : Extent} (h : Apart d d') (he : Inside e d)
    (he' : Inside e' d') : Apart e e' := by
  obtain ⟨hlow, hhigh⟩ := he
  obtain ⟨hlow', hhigh'⟩ := he'
  rcases h with h | h
  · exact .inl (by omega)
  · exact .inr (by omega)

def Extent.bytes (e : Extent) : Finset Nat := Finset.Ico e.address (e.address + e.length)

theorem Apart.disjoint {e e' : Extent} (h : Apart e e') : Disjoint e.bytes e'.bytes := by
  rw [Finset.disjoint_left]
  intro a ha ha'
  rw [Extent.bytes, Finset.mem_Ico] at ha ha'
  rcases h with h | h <;> omega

/-- Extents that lie apart take no more room than there is. -/
theorem sum_length_le {extents : List Extent} {low high : Nat} (hapart : extents.Pairwise Apart)
    (hlow : ∀ e ∈ extents, low ≤ e.address) (hhigh : ∀ e ∈ extents, e.address + e.length ≤ high) :
    (extents.map (·.length)).sum ≤ high - low := by
  -- the bytes of all of them are a set of this size
  have hset : ∃ bytes : Finset Nat, bytes.card = (extents.map (·.length)).sum ∧
      (∀ a ∈ bytes, ∃ e ∈ extents, a ∈ e.bytes) := by
    clear hlow hhigh
    induction extents with
    | nil => exact ⟨∅, rfl, fun a ha => by cases ha⟩
    | cons e extents ih =>
        obtain ⟨hfirst, hrest⟩ := List.pairwise_cons.1 hapart
        obtain ⟨bytes, hcard, hmem⟩ := ih hrest
        refine ⟨e.bytes ∪ bytes, ?_, ?_⟩
        · rw [Finset.card_union_of_disjoint, hcard, Extent.bytes, Nat.card_Ico, List.map_cons,
            List.sum_cons]
          · omega
          · rw [Finset.disjoint_right]
            intro a ha
            obtain ⟨e', he', hae'⟩ := hmem a ha
            exact Finset.disjoint_right.1 (hfirst e' he').disjoint hae'
        · intro a ha
          rcases Finset.mem_union.1 ha with ha | ha
          · exact ⟨e, List.mem_cons_self .., ha⟩
          · obtain ⟨e', he', hae'⟩ := hmem a ha
            exact ⟨e', List.mem_cons_of_mem _ he', hae'⟩
  obtain ⟨bytes, hcard, hmem⟩ := hset
  have hsub : bytes ⊆ Finset.Ico low high := by
    intro a ha
    obtain ⟨e, he, hae⟩ := hmem a ha
    have hlow := hlow e he
    have hhigh := hhigh e he
    rw [Extent.bytes, Finset.mem_Ico] at hae
    rw [Finset.mem_Ico]
    omega
  have hle := Finset.card_le_card hsub
  rwa [hcard, Nat.card_Ico] at hle

/-! ## Indexes over extents behind one another -/

/-- The index of the first byte of extent `i`, from the lengths of the extents. -/
def firstIndex (lengths : List Nat) (i : Nat) : Nat := (lengths.take i).sum

@[simp] theorem firstIndex_zero (lengths : List Nat) : firstIndex lengths 0 = 0 := by
  simp [firstIndex]

@[simp] theorem firstIndex_succ (length : Nat) (lengths : List Nat) (i : Nat) :
    firstIndex (length :: lengths) (i + 1) = length + firstIndex lengths i := by
  simp [firstIndex]

theorem firstIndex_add_le {lengths : List Nat} {i length : Nat} (h : lengths[i]? = some length) :
    firstIndex lengths i + length ≤ lengths.sum := by
  induction lengths generalizing i with
  | nil => simp at h
  | cons first lengths ih =>
      cases i with
      | zero =>
          simp only [List.getElem?_cons_zero, Option.some.injEq] at h
          rw [firstIndex_zero, List.sum_cons]
          omega
      | succ i =>
          have hle := ih (by simpa using h)
          rw [firstIndex_succ, List.sum_cons]
          omega

/-- The extent an index falls in, and the offset there. -/
def locate : List Nat → Nat → Option (Nat × Nat)
  | [], _ => none
  | length :: lengths, index =>
      if index < length then some (0, index)
      else (locate lengths (index - length)).map fun place => (place.1 + 1, place.2)

theorem locate_firstIndex {lengths : List Nat} {i length offset : Nat}
    (h : lengths[i]? = some length) (hoffset : offset < length) :
    locate lengths (firstIndex lengths i + offset) = some (i, offset) := by
  induction lengths generalizing i with
  | nil => simp at h
  | cons first lengths ih =>
      cases i with
      | zero =>
          simp only [List.getElem?_cons_zero, Option.some.injEq] at h
          rw [firstIndex_zero, Nat.zero_add, locate, if_pos (by omega)]
      | succ i =>
          have hrest := ih (i := i) (by simpa using h)
          rw [firstIndex_succ, locate, if_neg (by omega), Nat.add_assoc, Nat.add_sub_cancel_left,
            hrest]
          rfl

end SymbianWeb.Extents
