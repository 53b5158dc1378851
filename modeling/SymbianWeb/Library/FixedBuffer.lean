import Mathlib.Data.List.Basic

/-!
# Writing to a buffer of fixed size

A buffer takes what fits behind its contents and fails otherwise. A writer that appends some items
in pieces, one behind the other, succeeds exactly when all of them fit together (`Writes.bind`,
`writes_foldlM`).
-/

set_option autoImplicit false

namespace SymbianWeb.FixedBuffer

variable {α ι : Type*} {maxLength : Nat}

/-- Append to the contents of a buffer; `none` when there is no room. -/
def append (maxLength : Nat) (items dest : List α) : Option (List α) :=
  if dest.length + items.length ≤ maxLength then some (dest ++ items) else none

/-- A writer appends the items, or fails when they do not fit. -/
def Writes (maxLength : Nat) (w : List α → Option (List α)) (items : List α) : Prop :=
  ∀ dest, dest.length ≤ maxLength → w dest = append maxLength items dest

theorem Writes.append (items : List α) :
    Writes maxLength (FixedBuffer.append maxLength items) items := fun _ _ => rfl

theorem Writes.nil : Writes maxLength (some : List α → Option (List α)) [] := by
  intro dest hdest
  rw [FixedBuffer.append, if_pos (by simpa using hdest), List.append_nil]

/-- Two writers, the second one after the first. -/
theorem Writes.bind {w k : List α → Option (List α)} {items items' : List α}
    (hw : Writes maxLength w items) (hk : Writes maxLength k items') :
    Writes maxLength (fun dest => w dest >>= k) (items ++ items') := by
  intro dest hdest
  show w dest >>= k = _
  rw [hw dest hdest, FixedBuffer.append, FixedBuffer.append, List.length_append]
  by_cases hfit : dest.length + items.length ≤ maxLength
  · rw [if_pos hfit]
    show k (dest ++ items) = _
    rw [hk _ (by rwa [List.length_append]), FixedBuffer.append, List.length_append,
      List.append_assoc, Nat.add_assoc]
  · rw [if_neg hfit, if_neg (by omega)]
    rfl

/-- A writer for each element of a list. -/
theorem writes_foldlM {w : List α → ι → Option (List α)} {items : ι → List α} {l : List ι}
    (h : ∀ i ∈ l, Writes maxLength (fun dest => w dest i) (items i)) :
    Writes maxLength (fun dest => l.foldlM w dest) (l.flatMap items) := by
  induction l with
  | nil => exact Writes.nil
  | cons i l ih =>
      have hi := h i List.mem_cons_self
      have hl := ih fun j hj => h j (List.mem_cons_of_mem i hj)
      rw [List.flatMap_cons]
      simpa only [List.foldlM_cons] using hi.bind hl

/-- What a writer gives for an empty buffer. -/
theorem Writes.run {w : List α → Option (List α)} {items : List α}
    (h : Writes maxLength w items) :
    w [] = if items.length ≤ maxLength then some items else none := by
  rw [h [] (Nat.zero_le _), FixedBuffer.append, List.length_nil, Nat.zero_add, List.nil_append]

end SymbianWeb.FixedBuffer
