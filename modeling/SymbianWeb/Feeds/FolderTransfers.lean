import SymbianWeb.Feeds.FolderAdds

/-!
# Moving items to another folder

Statuses do not matter to the places of rows (`SameButStatus`), and without them a move is an edit of
the rows that are listed (`relocate`). In the new folder they are numbered before the others, which
make room for them; a folder that they leave is only numbered again if the first of them was there
(`Placed.moveTo`).
-/

set_option autoImplicit false

namespace SymbianWeb.Feeds

open Numbering

/-! ## Statuses -/

/-- A row without its status. -/
def withoutStatus (row : FolderListRow) : FolderListRow := { row with status := 0 }

theorem fields_of_withoutStatus {row row' : FolderListRow}
    (h : withoutStatus row = withoutStatus row') : row.folderListId = row'.folderListId ∧
      row.isFolder = row'.isFolder ∧ row.feedId = row'.feedId := by
  obtain ⟨hlist, -, -, -, hfolder, hfeedId, -, -⟩ := FolderListRow.mk.inj h
  exact ⟨hlist, hfolder, hfeedId⟩

/-- The same rows up to their statuses. -/
def SameButStatus (rows rows' : List FolderListRow) : Prop :=
  rows.map withoutStatus = rows'.map withoutStatus

section

variable {rows rows' : List FolderListRow}

theorem samePlace_withoutStatus (rows : List FolderListRow) :
    SamePlace rows (rows.map withoutStatus) :=
  ⟨withoutStatus, rfl, fun row => ⟨row.siblingOrder, 0, rfl⟩⟩

theorem SameShape.of_folderTree (h : SameShape rows rows') (htree : FolderTree rows') :
    FolderTree rows where
  nodup := by
    rw [← h.ids]
    exact htree.nodup
  ne_root row hrow := by
    obtain ⟨row', hrow', hid, -, -⟩ := h.exists_row hrow
    rw [← hid]
    exact htree.ne_root row' hrow'
  parents row hrow hparent := by
    obtain ⟨row', hrow', -, hsame, -⟩ := h.exists_row hrow
    rw [← hsame] at hparent ⊢
    obtain ⟨parent', hmem', hid, hfolder⟩ := htree.parents row' hrow' hparent
    obtain ⟨parent, hmem, hid', -, hfolder'⟩ := h.exists_row' hmem'
    exact ⟨parent, hmem, hid'.symm.trans hid, hfolder'.symm.trans hfolder⟩
  rooted row hrow := by
    obtain ⟨row', hrow', hid, -, -⟩ := h.exists_row hrow
    rw [← hid]
    exact h.of_onChain (htree.rooted row' hrow')

/-- Each row is there up to its status. -/
theorem SameButStatus.exists_row (h : SameButStatus rows rows') {row : FolderListRow}
    (hrow : row ∈ rows) : ∃ row' ∈ rows', withoutStatus row' = withoutStatus row := by
  have hmem : withoutStatus row ∈ rows'.map withoutStatus := h ▸ List.mem_map_of_mem hrow
  exact List.mem_map.mp hmem

/-- The orders of the children of a folder. -/
theorem SameButStatus.orders (h : SameButStatus rows rows') (aFolderListId : Int)
    (aParentId : UInt16) : (childrenIn rows aFolderListId aParentId).map (·.siblingOrder) =
      (childrenIn rows' aFolderListId aParentId).map (·.siblingOrder) := by
  have hchildren : ∀ l : List FolderListRow, (childrenIn l aFolderListId aParentId).map
      (·.siblingOrder) =
        (childrenIn (l.map withoutStatus) aFolderListId aParentId).map (·.siblingOrder) := by
    intro l
    have hplace : ∀ row, (withoutStatus row).folderListId = row.folderListId ∧
        (withoutStatus row).parentId = row.parentId := fun _ => ⟨rfl, rfl⟩
    rw [childrenIn_map hplace, List.map_map]
    rfl
  rw [hchildren rows, h, ← hchildren rows']

theorem SameButStatus.ids (h : SameButStatus rows rows') :
    rows'.map (·.folderItemId) = rows.map (·.folderItemId) := by
  have hids := congrArg (List.map (·.folderItemId)) h
  rw [List.map_map, List.map_map] at hids
  exact hids.symm

/-- Rows in one folder list. -/
theorem SameButStatus.oneList (h : SameButStatus rows rows') {which : FolderListRow → Prop}
    (hwhich : ∀ row, which (withoutStatus row) ↔ which row) (hone : OneList rows which) :
    OneList rows' which := by
  intro row hrow other hother hin hin'
  obtain ⟨row₀, hrow₀, heq⟩ := SameButStatus.exists_row h.symm hrow
  obtain ⟨other₀, hother₀, heq'⟩ := SameButStatus.exists_row h.symm hother
  rw [← (fields_of_withoutStatus heq).1, ← (fields_of_withoutStatus heq').1]
  refine hone row₀ hrow₀ other₀ hother₀ ?_ ?_
  · rwa [← hwhich, heq, hwhich]
  · rwa [← hwhich, heq', hwhich]

theorem FolderTree.of_sameButStatus (h : FolderTree rows) (hsame : SameButStatus rows rows') :
    FolderTree rows' := by
  have herased := (samePlace_withoutStatus rows).shape.folderTree h
  rw [hsame] at herased
  exact (samePlace_withoutStatus rows').shape.of_folderTree herased

/-- The places of rows do not depend on their statuses. -/
theorem Placed.of_sameButStatus {tables : FolderTables} (h : Placed tables)
    (hsame : SameButStatus tables.folderList rows') :
    Placed { tables with folderList := rows' } where
  tree := h.tree.of_sameButStatus hsame
  referenced feed hfeed := by
    obtain ⟨row, hrow, hid⟩ := h.referenced feed hfeed
    obtain ⟨row', hrow', heq⟩ := hsame.exists_row hrow
    exact ⟨row', hrow', (fields_of_withoutStatus heq).2.2.trans hid⟩
  feedless row' hrow' hfolder := by
    obtain ⟨row, hrow, heq⟩ := SameButStatus.exists_row hsame.symm hrow'
    obtain ⟨-, hkind, hfeedId⟩ := fields_of_withoutStatus heq
    rw [← hfeedId]
    exact h.feedless row hrow (hkind.trans hfolder)
  feeds := h.feeds

theorem sameButStatus_setStatus (rows : List FolderListRow) (id : UInt16) (status : Int) :
    SameButStatus (setStatus rows id status) rows := by
  rw [SameButStatus, setStatus, List.map_map]
  refine List.map_congr_left fun row _ => ?_
  rw [Function.comp_apply]
  split <;> rfl

theorem sameButStatus_raiseStatus {fuel : Nat} {parent : UInt16}
    (h : raiseStatus fuel parent rows = some rows') : SameButStatus rows' rows := by
  induction fuel generalizing parent rows with
  | zero => cases h
  | succ fuel ih =>
    rw [raiseStatus] at h
    split at h
    · obtain rfl := Option.some.inj h
      rfl
    · split at h
      · exact ih h
      · dsimp only at h
        split at h
        · obtain rfl := Option.some.inj h
          exact sameButStatus_setStatus rows parent _
        · exact (ih h).trans (sameButStatus_setStatus rows parent _)

theorem sameButStatus_lowerStatus {fuel : Nat} {parent : UInt16}
    (h : lowerStatus fuel parent rows = some rows') : SameButStatus rows' rows := by
  induction fuel generalizing parent rows with
  | zero => cases h
  | succ fuel ih =>
    rw [lowerStatus] at h
    split at h
    · obtain rfl := Option.some.inj h
      rfl
    · split at h
      · exact ih h
      · dsimp only at h
        split at h
        · obtain rfl := Option.some.inj h
          exact sameButStatus_setStatus rows parent _
        · exact (ih h).trans (sameButStatus_setStatus rows parent _)

end

/-! ## The rows that are listed -/

/-- The listed rows are in another folder, in the order of the list. -/
def relocate (rows : List FolderListRow) (moved : List UInt16) (aNewParent : UInt16) :
    List FolderListRow :=
  rows.map fun row =>
    if row.folderItemId ∈ moved then
      { row with parentId := aNewParent, siblingOrder := moved.idxOf row.folderItemId }
    else row

section

variable {rows rows₁ rows' : List FolderListRow} {ids : List UInt16} {aNewParent : UInt16}

/-- One more item is moved. -/
theorem moveRow_relocate {moved : List UInt16} {id : UInt16} (hfresh : id ∉ moved)
    (h : SameButStatus (relocate rows moved aNewParent) rows₁) :
    SameButStatus (relocate rows (moved ++ [id]) aNewParent)
      (moveRow rows₁ id aNewParent moved.length) := by
  have hcomm : ∀ l : List FolderListRow, (moveRow l id aNewParent moved.length).map withoutStatus =
      moveRow (l.map withoutStatus) id aNewParent moved.length := by
    intro l
    rw [moveRow, moveRow, List.map_map, List.map_map]
    refine List.map_congr_left fun row _ => ?_
    rw [Function.comp_apply, Function.comp_apply]
    by_cases hid : row.folderItemId = id <;> simp [hid, withoutStatus]
  have hmoved : moveRow (relocate rows moved aNewParent) id aNewParent moved.length =
      relocate rows (moved ++ [id]) aNewParent := by
    rw [moveRow, relocate, relocate, List.map_map]
    refine List.map_congr_left fun row _ => ?_
    rw [Function.comp_apply]
    by_cases hin : row.folderItemId ∈ moved
    · have hne : row.folderItemId ≠ id := fun heq => hfresh (heq ▸ hin)
      simp [hin, hne, List.idxOf_append_of_mem hin]
    · by_cases hid : row.folderItemId = id
      · have hidx : (moved ++ [id]).idxOf id = moved.length := by
          rw [List.idxOf_append_of_notMem hfresh, List.idxOf_cons_self, Nat.add_zero]
        simp [hid, hfresh, hidx]
      · simp [hin, hid]
  rw [SameButStatus, hcomm, ← h, ← hcomm, hmoved]

/-- What a move that returns has done to the rows. -/
theorem relocate_of_returns {fuel : Nat} {parentId : UInt16} {moved rest : List UInt16}
    (hnodup : (moved ++ rest).Nodup) (h : SameButStatus (relocate rows moved aNewParent) rows₁)
    (hreturns : (rest.zipIdx moved.length).foldlM (moveItemL fuel parentId aNewParent) rows₁ =
      some rows') : SameButStatus (relocate rows (moved ++ rest) aNewParent) rows' := by
  induction rest generalizing moved rows₁ with
  | nil =>
    obtain rfl := Option.some.inj hreturns
    rwa [List.append_nil]
  | cons id rest ih =>
    rw [List.zipIdx_cons, List.foldlM_cons, Option.bind_eq_bind, Option.bind_eq_some_iff] at hreturns
    obtain ⟨rows₂, hitem, hreturns⟩ := hreturns
    have hfresh : id ∉ moved := by
      rw [List.nodup_append] at hnodup
      exact fun hmem => hnodup.2.2 id hmem id List.mem_cons_self rfl
    rw [List.append_cons] at hnodup ⊢
    refine ih hnodup ?_ (by rwa [List.length_append, List.length_singleton])
    have hmoved := moveRow_relocate hfresh h
    rw [moveItemL] at hitem
    split at hitem
    next hseek =>
      obtain rfl := Option.some.inj hitem
      -- An item that is not there is not moved.
      have hsame : moveRow rows₁ id aNewParent moved.length = rows₁ := by
        refine (List.map_congr_left fun row hrow => if_neg ?_).trans (List.map_id rows₁)
        exact seekFolderItem_none hseek row hrow
      rwa [hsame] at hmoved
    next =>
      dsimp only at hitem
      split at hitem
      next =>
        rw [Option.bind_eq_bind, Option.bind_eq_some_iff] at hitem
        obtain ⟨rows₃, hraise, hlower⟩ := hitem
        exact hmoved.trans ((sameButStatus_lowerStatus hlower).trans
          (sameButStatus_raiseStatus hraise)).symm
      next =>
        obtain rfl := Option.some.inj hitem
        exact hmoved

theorem exists_relocate (ids : List UInt16) (aNewParent : UInt16) {row : FolderListRow}
    (h : row ∈ rows) : ∃ row' ∈ relocate rows ids aNewParent,
      row'.folderItemId = row.folderItemId ∧ row'.isFolder = row.isFolder ∧
      row'.feedId = row.feedId ∧
      row'.parentId = if row.folderItemId ∈ ids then aNewParent else row.parentId := by
  refine ⟨_, List.mem_map_of_mem h, ?_⟩
  split <;> exact ⟨rfl, rfl, rfl, rfl⟩

theorem mem_relocate {row' : FolderListRow} (h : row' ∈ relocate rows ids aNewParent) :
    ∃ row ∈ rows, row'.folderItemId = row.folderItemId ∧ row'.isFolder = row.isFolder ∧
      row'.feedId = row.feedId ∧
      row'.parentId = if row.folderItemId ∈ ids then aNewParent else row.parentId := by
  obtain ⟨row, hrow, rfl⟩ := List.mem_map.mp h
  refine ⟨row, hrow, ?_⟩
  split <;> exact ⟨rfl, rfl, rfl, rfl⟩

theorem ids_relocate (rows : List FolderListRow) (ids : List UInt16) (aNewParent : UInt16) :
    (relocate rows ids aNewParent).map (·.folderItemId) = rows.map (·.folderItemId) := by
  rw [relocate, List.map_map]
  refine List.map_congr_left fun row _ => ?_
  rw [Function.comp_apply]
  split <;> rfl

/-- A chain that comes to none of the items stays. -/
theorem OnChain.not_relocated {a b : UInt16} (h : OnChain rows a b)
    (hnot : ∀ id ∈ ids, ¬ OnChain rows a id) : OnChain (relocate rows ids aNewParent) a b := by
  induction h with
  | self => exact .self _
  | @up row b hrow _ ih =>
    have hstill : row.folderItemId ∉ ids := fun hmem => hnot _ hmem (.self _)
    obtain ⟨row', hrow', hid, -, -, hparent⟩ := exists_relocate ids aNewParent hrow
    rw [if_neg hstill] at hparent
    rw [← hid]
    exact .up hrow' (hparent ▸ ih fun id hid hup => hnot id hid (.up hrow hup))

/-- The table stays a tree when items are put in a folder that is not below them. -/
theorem folderTree_relocate (htree : FolderTree rows) (htarget : IsFolder rows aNewParent)
    (hnot : ∀ id ∈ ids, ¬ OnChain rows aNewParent id) :
    FolderTree (relocate rows ids aNewParent) where
  nodup := by
    rw [ids_relocate]
    exact htree.nodup
  ne_root row' hrow' := by
    obtain ⟨row, hrow, hid, -⟩ := mem_relocate hrow'
    rw [hid]
    exact htree.ne_root row hrow
  parents row' hrow' hne := by
    obtain ⟨row, hrow, -, -, -, hparent⟩ := mem_relocate hrow'
    have hold : IsFolder rows row'.parentId := by
      rw [hparent]
      split
      · exact htarget
      · exact htree.parents row hrow
    obtain ⟨folder, hfolder, hid, hkind⟩ := hold hne
    obtain ⟨folder', hfolder', hid', hkind', -⟩ := exists_relocate ids aNewParent hfolder
    exact ⟨folder', hfolder', hid'.trans hid, hkind'.trans hkind⟩
  rooted row' hrow' := by
    have htop : OnChain (relocate rows ids aNewParent) aNewParent kRootFolderId :=
      (htree.onChain_root htarget).not_relocated hnot
    obtain ⟨row, hrow, hid, -⟩ := mem_relocate hrow'
    have hrooted := htree.rooted row hrow
    rw [hid]
    generalize row.folderItemId = id₀ at hrooted
    generalize kRootFolderId = root at htop hrooted
    induction hrooted with
    | self => exact .self _
    | @up above root habove _ ih =>
      obtain ⟨above', habove', hid', -, -, hparent'⟩ := exists_relocate ids aNewParent habove
      rw [← hid']
      refine .up habove' ?_
      rw [hparent']
      split
      · exact htop
      · exact ih htop

/-! ## Numbers -/

/-- Where nothing in front of it goes, what stays is numbered. -/
theorem numbers_stay {goes : UInt16 → Prop} [DecidablePred goes] {parent other : UInt16}
    (hnumbered : Numbered rows) (hgap : LeavesNoGap rows parent goes) (hother : other ≠ parent)
    (aFolderListId : Int) :
    Numbers (((childrenIn rows aFolderListId other).filter fun row =>
      ¬ goes row.folderItemId).map (·.siblingOrder)) := by
  obtain ⟨hunique, hdown⟩ := numbers_iff.mp (hnumbered aFolderListId other)
  refine numbers_iff.mpr ⟨hunique.sublist (List.filter_sublist.map _), fun a ha b hlt => ?_⟩
  obtain ⟨row, hrow, rfl⟩ := List.mem_map.mp ha
  obtain ⟨hmem, hstays⟩ := List.mem_filter.mp hrow
  obtain ⟨row', hmem', rfl⟩ := List.mem_map.mp
    (hdown row.siblingOrder (List.mem_map_of_mem hmem) b hlt)
  refine List.mem_map_of_mem (List.mem_filter.mpr ⟨hmem', decide_eq_true fun hgoes => ?_⟩)
  obtain ⟨hin, hlist, hparent⟩ := mem_childrenIn.mp hmem
  obtain ⟨hin', hlist', hparent'⟩ := mem_childrenIn.mp hmem'
  exact Nat.lt_asymm hlt (hgap row hin row' hin' (hparent.trans hparent'.symm) (hparent ▸ hother)
    (hlist.trans hlist'.symm) (of_decide_eq_true hstays) hgoes)

/-- What a move makes of each row, up to its status. -/
theorem relocate_hole_eq (hnodup : (rows.map (·.folderItemId)).Nodup)
    (hone : OneList rows fun row => row.parentId = aNewParent) (hnumbered : Numbered rows)
    (ids : List UInt16) :
    ∃ edit, relocate (createSiblingIndexHoleL rows aNewParent 0 ids.length) ids aNewParent =
        rows.map edit ∧ ∀ row ∈ rows, (edit row).folderListId = row.folderListId ∧
      (row.folderItemId ∈ ids → (edit row).parentId = aNewParent ∧
        (edit row).siblingOrder = ids.idxOf row.folderItemId) ∧
      (row.folderItemId ∉ ids → (edit row).parentId = row.parentId ∧
        (row.parentId = aNewParent →
          (edit row).siblingOrder = shift 0 ids.length row.siblingOrder) ∧
        (row.parentId ≠ aNewParent → edit row = row)) := by
  refine ⟨_, List.map_map, fun row hrow => ?_⟩
  simp only [Function.comp_apply]
  by_cases hlisted : row.folderItemId ∈ ids <;> by_cases hparent : row.parentId = aNewParent
  · simp [hlisted, hparent]
  · simp [hlisted, hparent]
  · have hidx := idxOf_siblings hnodup hone hnumbered hrow hparent
    simp [hlisted, hparent, shift, hidx]
  · simp [hlisted, hparent]

/-- The children of a folder after a move. -/
theorem numbers_moveTo (htree : FolderTree rows) (hnumbered : Numbered rows)
    (hexist : Exist rows ids) (hne : ids ≠ []) (hkeeps : (Call.moveTo ids aNewParent).Keeps rows)
    (aFolderListId : Int) {other : UInt16} (hother : other ≠ parentOfFirst rows ids) :
    Numbers ((childrenIn (relocate (createSiblingIndexHoleL rows aNewParent 0 ids.length) ids
      aNewParent) aFolderListId other).map (·.siblingOrder)) := by
  obtain ⟨hids, -, hone, -, hgap⟩ := hkeeps hne
  obtain ⟨edit, heq, hedit⟩ := relocate_hole_eq htree.nodup
    (fun row hrow row' hrow' hin hin' => hone row hrow row' hrow' (.inl hin) (.inl hin'))
    hnumbered ids
  have hstay := numbers_stay hnumbered hgap hother aFolderListId
  rw [heq, childrenIn, List.filter_map, List.map_map]
  by_cases htarget : other = aNewParent
  · subst htarget
    have hchildren : rows.filter ((fun row => decide (row.folderListId = aFolderListId ∧
        row.parentId = other)) ∘ edit) = rows.filter fun row => row.folderListId = aFolderListId ∧
          (row.folderItemId ∈ ids ∨ row.parentId = other) := by
      refine List.filter_congr fun row hrow => ?_
      obtain ⟨hlist, hgoes, hstays⟩ := hedit row hrow
      rw [Function.comp_apply, hlist]
      by_cases hlisted : row.folderItemId ∈ ids
      · simp [hlisted, (hgoes hlisted).1]
      · simp [hlisted, (hstays hlisted).1]
    rw [hchildren]
    cases hfirst : rows.filter fun row => row.folderListId = aFolderListId ∧
        (row.folderItemId ∈ ids ∨ row.parentId = other) with
    | nil => exact numbers_nil
    | cons first rest =>
      rw [← hfirst]
      have hin : ∀ id ∈ ids, ∃ row ∈ rows.filter (fun row => row.folderListId = aFolderListId ∧
          (row.folderItemId ∈ ids ∨ row.parentId = other)), row.folderItemId = id := by
        intro id hid
        obtain ⟨row, hrow, rfl⟩ := hexist id hid
        obtain ⟨hfirstMem, hfirstIn⟩ := List.mem_filter.mp (hfirst ▸ List.mem_cons_self)
        obtain ⟨hfirstList, hfirstIn⟩ := of_decide_eq_true hfirstIn
        refine ⟨row, List.mem_filter.mpr ⟨hrow, decide_eq_true ⟨?_, .inl hid⟩⟩, rfl⟩
        rw [← hfirstList]
        exact hone row hrow first hfirstMem (.inr hid) hfirstIn.symm
      have horders := perm_orders (htree.nodup.sublist (List.filter_sublist.map _)) hids hin 0
      rw [← List.map_congr_left (f := (·.siblingOrder) ∘ edit) fun row hrow => ?_] at horders
      · have hrank : Numbers (((rows.filter fun row => row.folderListId = aFolderListId ∧
            (row.folderItemId ∈ ids ∨ row.parentId = other)).filter
              fun row => ¬ row.folderItemId ∈ ids).map (·.siblingOrder)) := by
          refine cast (congrArg (fun l => Numbers (List.map _ l)) ?_) hstay
          rw [childrenIn, List.filter_filter, List.filter_filter]
          refine List.filter_congr fun row _ => ?_
          by_cases hlisted : row.folderItemId ∈ ids <;> simp [hlisted]
        refine hrank.insert_filter (Nat.zero_le _) (fun row hrow hnot => ?_) horders
        obtain ⟨hmem, hrowIn⟩ := List.mem_filter.mp hrow
        exact ((hedit row hmem).2.2 hnot).2.1 ((of_decide_eq_true hrowIn).2.resolve_left hnot)
      · obtain ⟨hmem, hlisted⟩ := List.mem_filter.mp hrow
        rw [Function.comp_apply, Nat.zero_add]
        exact ((hedit row (List.mem_filter.mp hmem).1).2.1 (of_decide_eq_true hlisted)).2
  · have hchildren : rows.filter ((fun row => decide (row.folderListId = aFolderListId ∧
        row.parentId = other)) ∘ edit) =
          (childrenIn rows aFolderListId other).filter fun row => ¬ row.folderItemId ∈ ids := by
      rw [childrenIn, List.filter_filter]
      refine List.filter_congr fun row hrow => ?_
      obtain ⟨hlist, hgoes, hstays⟩ := hedit row hrow
      rw [Function.comp_apply, hlist]
      by_cases hlisted : row.folderItemId ∈ ids
      · simp [hlisted, (hgoes hlisted).1, Ne.symm htarget]
      · simp [hlisted, (hstays hlisted).1]
    rw [hchildren]
    refine cast (congrArg Numbers (List.map_congr_left fun row hrow => ?_)) hstay
    obtain ⟨hmem, hnot⟩ := List.mem_filter.mp hrow
    obtain ⟨hmem, -, hparent⟩ := mem_childrenIn.mp hmem
    rw [Function.comp_apply, ((hedit row hmem).2.2 (of_decide_eq_true hnot)).2.2]
    rw [hparent]
    exact htarget

/-- The rows that are in the folder of the first item are in one folder list. -/
theorem oneList_moveTo (htree : FolderTree rows) (hnumbered : Numbered rows) (hne : ids ≠ [])
    (hkeeps : (Call.moveTo ids aNewParent).Keeps rows) :
    OneList (relocate (createSiblingIndexHoleL rows aNewParent 0 ids.length) ids aNewParent)
      fun row => row.parentId = parentOfFirst rows ids := by
  obtain ⟨-, -, honeTarget, honeParent, -⟩ := hkeeps hne
  obtain ⟨edit, heq, hedit⟩ := relocate_hole_eq htree.nodup (fun row hrow row' hrow' hin hin' =>
    honeTarget row hrow row' hrow' (.inl hin) (.inl hin')) hnumbered ids
  have hplace : ∀ row ∈ rows, (edit row).parentId = parentOfFirst rows ids →
      (aNewParent = parentOfFirst rows ids ∧ (row.parentId = aNewParent ∨ row.folderItemId ∈ ids)) ∨
        (row.parentId = parentOfFirst rows ids ∧ row.folderItemId ∉ ids) := by
    intro row hrow hparent
    obtain ⟨-, hgoes, hstays⟩ := hedit row hrow
    by_cases hlisted : row.folderItemId ∈ ids
    · exact .inl ⟨(hgoes hlisted).1.symm.trans hparent, .inr hlisted⟩
    · exact .inr ⟨(hstays hlisted).1.symm.trans hparent, hlisted⟩
  rw [heq]
  intro row₂ hrow₂ row₂' hrow₂' hparent hparent'
  obtain ⟨row, hrow, rfl⟩ := List.mem_map.mp hrow₂
  obtain ⟨row', hrow', rfl⟩ := List.mem_map.mp hrow₂'
  rw [(hedit row hrow).1, (hedit row' hrow').1]
  rcases hplace row hrow hparent with ⟨htarget, hin⟩ | ⟨hin, hnot⟩
  · refine honeTarget row hrow row' hrow' hin ?_
    rcases hplace row' hrow' hparent' with ⟨-, hin'⟩ | ⟨hin', -⟩
    · exact hin'
    · exact .inl (hin'.trans htarget.symm)
  · rcases hplace row' hrow' hparent' with ⟨htarget, hin'⟩ | ⟨hin', hnot'⟩
    · exact honeTarget row hrow row' hrow' (.inl (hin.trans htarget.symm)) hin'
    · exact honeParent row hrow row' hrow' ⟨hin, hnot⟩ ⟨hin', hnot'⟩

/-- Listed rows keep what does not depend on the numbers. -/
theorem Placed.relocate {tables : FolderTables} (h : Placed tables)
    (htarget : IsFolder tables.folderList aNewParent)
    (hnot : ∀ id ∈ ids, ¬ OnChain tables.folderList aNewParent id) :
    Placed { tables with folderList := relocate tables.folderList ids aNewParent } where
  tree := folderTree_relocate h.tree htarget hnot
  referenced feed hfeed := by
    obtain ⟨row, hrow, hid⟩ := h.referenced feed hfeed
    obtain ⟨row', hrow', -, -, hfeedId, -⟩ := exists_relocate ids aNewParent hrow
    exact ⟨row', hrow', hfeedId.trans hid⟩
  feedless row' hrow' hfolder := by
    obtain ⟨row, hrow, -, hkind, hfeedId, -⟩ := mem_relocate hrow'
    rw [hfeedId]
    exact h.feedless row hrow (hkind.symm.trans hfolder)
  feeds := h.feeds

/-- Items are moved to another folder. -/
theorem Placed.moveTo {tables : FolderTables} (h : Placed tables)
    (hnumbered : Numbered tables.folderList)
    (hallowed : (Call.moveTo ids aNewParent).Allowed tables)
    (hkeeps : (Call.moveTo ids aNewParent).Keeps tables.folderList) {fuel : Nat}
    (hreturns : folderItemMoveToL fuel ids aNewParent tables.folderList = some rows') :
    Placed { tables with folderList := rows' } ∧ Numbered rows' := by
  rw [folderItemMoveToL] at hreturns
  split at hreturns
  next =>
    obtain rfl := Option.some.inj hreturns
    exact ⟨h, hnumbered⟩
  next hne =>
    obtain ⟨hexist, htarget⟩ := hallowed
    obtain ⟨hids, hnot, -⟩ := hkeeps hne
    have hfound : (ids.head?.bind (seekFolderItem tables.folderList)).isSome = true := by
      cases ids with
      | nil => exact absurd rfl hne
      | cons id rest =>
        obtain ⟨row, hrow, rfl⟩ := hexist id List.mem_cons_self
        rw [List.head?_cons, Option.bind_some, h.tree.seek hrow]
        rfl
    rw [Option.bind_eq_bind, Option.bind_eq_some_iff] at hreturns
    obtain ⟨rows₃, hmoves, hreturns⟩ := hreturns
    obtain rfl := Option.some.inj hreturns
    rw [if_pos hfound] at hmoves
    have hhole := samePlace_hole tables.folderList aNewParent 0 ids.length
    have hstart : SameButStatus (Feeds.relocate (createSiblingIndexHoleL tables.folderList
        aNewParent 0 ids.length) [] aNewParent)
          (createSiblingIndexHoleL tables.folderList aNewParent 0 ids.length) :=
      congrArg (List.map withoutStatus) ((List.map_congr_left fun row _ =>
        if_neg List.not_mem_nil).trans (List.map_id _))
    have hall : ([] ++ ids).Nodup := hids
    have hsame := relocate_of_returns hall hstart hmoves
    rw [List.nil_append] at hsame
    have hplaced := ((h.of_samePlace hhole).relocate (htarget.of_samePlace hhole)
      fun id hid hchain => hnot id hid (hhole.shape.of_onChain hchain)).of_sameButStatus hsame
    refine ⟨hplaced.of_samePlace (samePlace_adjust rows₃ _), numbered_adjust hplaced.tree.nodup
      (hsame.oneList (fun _ => Iff.rfl) (oneList_moveTo h.tree hnumbered hne hkeeps)) ?_⟩
    intro aFolderListId other hother
    rw [← hsame.orders]
    exact numbers_moveTo h.tree hnumbered hexist hne hkeeps aFolderListId hother

end

end SymbianWeb.Feeds
