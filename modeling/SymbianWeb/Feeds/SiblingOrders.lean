import SymbianWeb.Feeds.FolderCalls

/-!
# The numbers of siblings

What the two passes that number the children of a folder do to the numbers in each folder list. The
children are numbered as they are sorted, whatever list they are in; in one list that is a numbering
(`numbered_adjust`), and a hole shifts the numbers from an index on (`childrenIn_hole`).
-/

set_option autoImplicit false

namespace SymbianWeb.Feeds

open Numbering

/-- The children of each folder are numbered in each folder list. -/
def Numbered (rows : List FolderListRow) : Prop :=
  ∀ aFolderListId aParentId,
    Numbers ((childrenIn rows aFolderListId aParentId).map (·.siblingOrder))

section

variable {rows : List FolderListRow} {aParentId : UInt16}

theorem mem_childrenIn {row : FolderListRow} {aFolderListId : Int} :
    row ∈ childrenIn rows aFolderListId aParentId ↔
      row ∈ rows ∧ row.folderListId = aFolderListId ∧ row.parentId = aParentId := by
  rw [childrenIn, List.mem_filter, decide_eq_true_eq]

/-- The children of a folder when rows are edited in place. -/
theorem childrenIn_map {edit : FolderListRow → FolderListRow}
    (hedit : ∀ row, (edit row).folderListId = row.folderListId ∧ (edit row).parentId = row.parentId)
    (aFolderListId : Int) (aParentId : UInt16) :
    childrenIn (rows.map edit) aFolderListId aParentId =
      (childrenIn rows aFolderListId aParentId).map edit := by
  rw [childrenIn, childrenIn, List.filter_map]
  refine congrArg (List.map edit) (List.filter_congr fun row _ => ?_)
  rw [Function.comp_apply, (hedit row).1, (hedit row).2]

/-- The children of other folders than the one whose children are edited. -/
theorem childrenIn_map_other {edit : FolderListRow → FolderListRow}
    (hedit : ∀ row, (edit row).folderListId = row.folderListId ∧ (edit row).parentId = row.parentId)
    (hkeeps : ∀ row ∈ rows, row.parentId ≠ aParentId → edit row = row) (aFolderListId : Int)
    {other : UInt16} (hother : other ≠ aParentId) :
    childrenIn (rows.map edit) aFolderListId other = childrenIn rows aFolderListId other := by
  rw [childrenIn_map hedit]
  refine (List.map_congr_left fun row hrow => ?_).trans (List.map_id _)
  obtain ⟨hmem, -, hparent⟩ := mem_childrenIn.mp hrow
  exact hkeeps row hmem (hparent ▸ hother)

/-- The children of a folder are those in one list. -/
theorem childrenIn_eq_of_oneList (hone : OneList rows fun row => row.parentId = aParentId)
    {row : FolderListRow} {aFolderListId : Int}
    (hrow : row ∈ childrenIn rows aFolderListId aParentId) :
    childrenIn rows aFolderListId aParentId = rowsOfParent rows aParentId := by
  obtain ⟨hmem, hlist, hparent⟩ := mem_childrenIn.mp hrow
  refine List.filter_congr fun other hother => decide_eq_decide.mpr ?_
  refine and_iff_right_of_imp fun hother' => ?_
  rw [← hlist]
  exact hone other hother row hmem hother' hparent

/-- The ids of the children of a folder. -/
theorem nodup_rowsOfParent (hnodup : (rows.map (·.folderItemId)).Nodup) (aParentId : UInt16) :
    ((rowsOfParent rows aParentId).map (·.folderItemId)).Nodup :=
  hnodup.sublist (List.filter_sublist.map _)

theorem perm_siblings (rows : List FolderListRow) (aParentId : UInt16) :
    ((rowsOfParent rows aParentId).map (·.folderItemId)).Perm (siblings rows aParentId) :=
  ((List.mergeSort_perm _ _).map _).symm

theorem nodup_siblings (hnodup : (rows.map (·.folderItemId)).Nodup) (aParentId : UInt16) :
    (siblings rows aParentId).Nodup :=
  (perm_siblings rows aParentId).nodup_iff.mp (nodup_rowsOfParent hnodup aParentId)

/-- The children in one list are numbered again; those of other folders stay numbered. -/
theorem numbered_adjust (hnodup : (rows.map (·.folderItemId)).Nodup)
    (hone : OneList rows fun row => row.parentId = aParentId)
    (hothers : ∀ aFolderListId other, other ≠ aParentId →
      Numbers ((childrenIn rows aFolderListId other).map (·.siblingOrder))) :
    Numbered (adjustSiblingIndexesL rows aParentId) := by
  intro aFolderListId other
  by_cases hsame : other = aParentId
  · subst hsame
    have horders : (childrenIn (adjustSiblingIndexesL rows other) aFolderListId other).map
        (·.siblingOrder) = ((childrenIn rows aFolderListId other).map (·.folderItemId)).map
          ((siblings rows other).idxOf ·) := by
      rw [adjustSiblingIndexesL, childrenIn_map (fun row => by split <;> exact ⟨rfl, rfl⟩),
        List.map_map, List.map_map]
      refine List.map_congr_left fun row hrow => ?_
      rw [Function.comp_apply, if_pos (mem_childrenIn.mp hrow).2.2]
      rfl
    rw [horders]
    cases hchildren : childrenIn rows aFolderListId other with
    | nil => exact numbers_nil
    | cons row rest =>
      rw [← hchildren, childrenIn_eq_of_oneList hone (hchildren ▸ List.mem_cons_self)]
      exact numbers_idxOf (nodup_siblings hnodup other) (perm_siblings rows other)
  · rw [adjustSiblingIndexesL, childrenIn_map_other (fun row => by split <;> exact ⟨rfl, rfl⟩)
      (fun _ _ hparent => if_neg hparent) aFolderListId hsame]
    exact hothers aFolderListId other hsame

/-- Numbered children are where their number is. -/
theorem idxOf_siblings (hnodup : (rows.map (·.folderItemId)).Nodup)
    (hone : OneList rows fun row => row.parentId = aParentId) (hnumbered : Numbered rows)
    {row : FolderListRow} (hrow : row ∈ rows) (hparent : row.parentId = aParentId) :
    (siblings rows aParentId).idxOf row.folderItemId = row.siblingOrder := by
  have hmem : row ∈ childrenIn rows row.folderListId aParentId :=
    mem_childrenIn.mpr ⟨hrow, rfl, hparent⟩
  have hnumbers := hnumbered row.folderListId aParentId
  rw [childrenIn_eq_of_oneList hone hmem] at hnumbers hmem
  exact idxOf_sorted (fun row : FolderListRow => row.siblingOrder)
    (fun row : FolderListRow => row.folderItemId) (nodup_rowsOfParent hnodup aParentId) hnumbers hmem

/-- A hole shifts the numbers from an index on. -/
theorem childrenIn_hole (hnodup : (rows.map (·.folderItemId)).Nodup)
    (hone : OneList rows fun row => row.parentId = aParentId) (hnumbered : Numbered rows)
    (aNewIndex aHoleSize : Nat) (aFolderListId : Int) :
    (childrenIn (createSiblingIndexHoleL rows aParentId aNewIndex aHoleSize) aFolderListId
        aParentId).map (·.siblingOrder) =
      ((childrenIn rows aFolderListId aParentId).map (·.siblingOrder)).map
        (shift aNewIndex aHoleSize) := by
  rw [createSiblingIndexHoleL, childrenIn_map (fun row => by split <;> exact ⟨rfl, rfl⟩),
    List.map_map, List.map_map]
  refine List.map_congr_left fun row hrow => ?_
  obtain ⟨hmem, -, hparent⟩ := mem_childrenIn.mp hrow
  rw [Function.comp_apply, if_pos hparent, Function.comp_apply, shift,
    idxOf_siblings hnodup hone hnumbered hmem hparent]

theorem childrenIn_hole_other (rows : List FolderListRow) (aNewIndex aHoleSize : Nat)
    (aFolderListId : Int) {other : UInt16} (hother : other ≠ aParentId) :
    childrenIn (createSiblingIndexHoleL rows aParentId aNewIndex aHoleSize) aFolderListId other =
      childrenIn rows aFolderListId other :=
  childrenIn_map_other (fun row => by split <;> exact ⟨rfl, rfl⟩)
    (fun _ _ hparent => if_neg hparent) aFolderListId hother

end

end SymbianWeb.Feeds
