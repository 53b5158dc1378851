import SymbianWeb.Feeds.FeedsTables
import Mathlib.Data.List.Nodup
import Mathlib.Data.List.Sort

/-!
# The status of folders

The status of a folder is minus the number of its children whose status is not zero. A deletion and
a move put this right from a folder upwards: `raiseStatus` where a child went, `lowerStatus` where
one came. Both loops stop at a folder that keeps a status other than zero, and go on for ever when
the row of a folder is not there. An item that is deleted or moved is taken to be in the folder of
the first one.
-/

set_option autoImplicit false

namespace SymbianWeb.Feeds

/-! ## The loops -/

/-- `SetColL` and `PutL` of a status. -/
def setStatus (rows : List FolderListRow) (aFolderItemId : UInt16) (status : Int) :
    List FolderListRow :=
  rows.map fun row => if row.folderItemId = aFolderItemId then { row with status } else row

/-- The loop from a folder upwards that has lost a child with a status. Without fuel it goes on. -/
def raiseStatus : Nat → UInt16 → List FolderListRow → Option (List FolderListRow)
  | 0, _, _ => none
  | fuel + 1, parent, rows =>
    if parent = kRootFolderId then some rows
    else
      match seekFolderItem rows parent with
      | none => raiseStatus fuel parent rows
      | some row =>
        let status := row.status + 1
        if status ≠ 0 then some (setStatus rows parent status)
        else raiseStatus fuel row.parentId (setStatus rows parent status)

/-- The loop from a folder upwards that has got a child with a status. -/
def lowerStatus : Nat → UInt16 → List FolderListRow → Option (List FolderListRow)
  | 0, _, _ => none
  | fuel + 1, parent, rows =>
    if parent = kRootFolderId then some rows
    else
      match seekFolderItem rows parent with
      | none => lowerStatus fuel parent rows
      | some row =>
        let previousStatus := row.status
        if previousStatus ≠ 0 then some (setStatus rows parent (previousStatus - 1))
        else lowerStatus fuel row.parentId (setStatus rows parent (previousStatus - 1))

/-! ## Sibling indexes -/

/-- The children of a folder by `SiblingOrder`. -/
def siblings (rows : List FolderListRow) (aParentId : UInt16) : List UInt16 :=
  ((rowsOfParent rows aParentId).mergeSort fun a b => a.siblingOrder ≤ b.siblingOrder).map
    (·.folderItemId)

/-- `AdjustSiblingIndexesL`. -/
def adjustSiblingIndexesL (rows : List FolderListRow) (aParentId : UInt16) : List FolderListRow :=
  rows.map fun row =>
    if row.parentId = aParentId then
      { row with siblingOrder := (siblings rows aParentId).idxOf row.folderItemId }
    else row

/-- `CreateSiblingIndexHoleL`. -/
def createSiblingIndexHoleL (rows : List FolderListRow) (aParentId : UInt16)
    (aNewIndex aHoleSize : Nat) : List FolderListRow :=
  rows.map fun row =>
    if row.parentId = aParentId then
      let index := (siblings rows aParentId).idxOf row.folderItemId
      { row with siblingOrder := if index < aNewIndex then index else index + aHoleSize }
    else row

/-! ## Deletion -/

/-- `DeleteL` of a row. -/
def deleteRow (rows : List FolderListRow) (aFolderItemId : UInt16) : List FolderListRow :=
  rows.filter fun row => row.folderItemId ≠ aFolderItemId

/-- The parent of the first item, which is taken for that of all items. -/
def parentOfFirst (rows : List FolderListRow) (aFolderItemIds : List UInt16) : UInt16 :=
  match aFolderItemIds with
  | [] => 0
  | id :: _ => ((seekFolderItem rows id).map (·.parentId)).getD 0

/-- One item of `FolderItemDeleteHelperL`; `deleteL` deletes the children of a folder. -/
def deleteItemL (iDeleteFolderArray : List UInt16)
    (deleteL : List UInt16 → List FolderListRow → Option (List FolderListRow)) (fuel : Nat)
    (parentId : UInt16) (rows : List FolderListRow) (id : UInt16) :
    Option (List FolderListRow) :=
  match seekFolderItem rows id with
  | none => some rows
  | some row => do
    let rows := deleteRow rows id
    let rows ← (if row.isFolder then deleteL (folderItemGetChildrenL rows id) rows else some rows)
    if row.status ≠ 0 ∧ id ∈ iDeleteFolderArray then raiseStatus fuel parentId rows else some rows

/-- `FolderItemDeleteHelperL`. What is purged are feeds, not rows of this table. -/
def folderItemDeleteHelperL (iDeleteFolderArray : List UInt16) :
    Nat → List UInt16 → List FolderListRow → Option (List FolderListRow)
  | 0, _, _ => none
  | fuel + 1, aFolderItemIds, rows =>
    if aFolderItemIds = [] then some rows
    else do
      let parentId := parentOfFirst rows aFolderItemIds
      let rows ← aFolderItemIds.foldlM
        (deleteItemL iDeleteFolderArray (folderItemDeleteHelperL iDeleteFolderArray fuel) fuel
          parentId) rows
      some (adjustSiblingIndexesL rows parentId)

/-- `FolderItemDeleteL` as a session calls it. -/
def folderItemDeleteL (fuel : Nat) (aFolderItemIds : List UInt16) (rows : List FolderListRow) :
    Option (List FolderListRow) :=
  folderItemDeleteHelperL aFolderItemIds fuel aFolderItemIds rows

/-! ## Moving -/

/-- The new parent and sibling index of a row. -/
def moveRow (rows : List FolderListRow) (aFolderItemId aNewParent : UInt16) (i : Nat) :
    List FolderListRow :=
  rows.map fun row =>
    if row.folderItemId = aFolderItemId then { row with parentId := aNewParent, siblingOrder := i }
    else row

/-- One item of `FolderItemMoveToL`, with its index. -/
def moveItemL (fuel : Nat) (parentId aNewParent : UInt16) (rows : List FolderListRow)
    (item : UInt16 × Nat) : Option (List FolderListRow) :=
  match seekFolderItem rows item.1 with
  | none => some rows
  | some row => do
    let rows := moveRow rows item.1 aNewParent item.2
    if row.status ≠ 0 then
      let rows ← raiseStatus fuel parentId rows
      lowerStatus fuel aNewParent rows
    else some rows

/-- `FolderItemMoveToL`. -/
def folderItemMoveToL (fuel : Nat) (aFolderItemIds : List UInt16) (aNewParent : UInt16)
    (rows : List FolderListRow) : Option (List FolderListRow) :=
  if aFolderItemIds = [] then some rows
  else do
    let parentId := parentOfFirst rows aFolderItemIds
    let found := (aFolderItemIds.head?.bind (seekFolderItem rows)).isSome
    let hole := if found then createSiblingIndexHoleL rows aNewParent 0 aFolderItemIds.length
      else rows
    let rows ← aFolderItemIds.zipIdx.foldlM (moveItemL fuel parentId aNewParent) hole
    some (adjustSiblingIndexesL rows parentId)

/-! ## Folder trees -/

/-- A folder is another one or above it. -/
inductive OnChain (rows : List FolderListRow) : UInt16 → UInt16 → Prop where
  | self (id : UInt16) : OnChain rows id id
  | up {row : FolderListRow} {id : UInt16} : row ∈ rows → OnChain rows row.parentId id →
      OnChain rows row.folderItemId id

/-- A chain is one in every table whose rows have the same parents. -/
theorem OnChain.of_parents {rows rows' : List FolderListRow} {a b : UInt16}
    (h : OnChain rows a b) (hrows : ∀ row ∈ rows, ∃ row' ∈ rows',
      row.folderItemId = row'.folderItemId ∧ row.parentId = row'.parentId) : OnChain rows' a b := by
  induction h with
  | self id => exact .self id
  | up hrow _ ih =>
    obtain ⟨row', hrow', hid, hparent⟩ := hrows _ hrow
    rw [hid]
    rw [hparent] at ih
    exact .up hrow' ih

/-- An acyclic table of folders and feeds. -/
structure FolderTree (rows : List FolderListRow) : Prop where
  nodup : (rows.map (·.folderItemId)).Nodup
  ne_root : ∀ row ∈ rows, row.folderItemId ≠ kRootFolderId
  parents : ∀ row ∈ rows, row.parentId ≠ kRootFolderId →
    ∃ parent ∈ rows, parent.folderItemId = row.parentId ∧ parent.isFolder = true
  rooted : ∀ row ∈ rows, OnChain rows row.folderItemId kRootFolderId

/-- The children of a folder whose status is not zero. -/
def errorsBelow (rows : List FolderListRow) (aFolderItemId : UInt16) : Nat :=
  rows.countP fun row => row.parentId = aFolderItemId ∧ row.status ≠ 0

/-- The status of each folder is minus the number of such children. -/
def Counted (rows : List FolderListRow) : Prop :=
  ∀ row ∈ rows, row.isFolder = true → row.status = -(errorsBelow rows row.folderItemId : Int)

/-! ## Rows that change in their status and place only -/

/-- The rows are those of another table, with other statuses and sibling indexes. -/
def SameShape (rows rows' : List FolderListRow) : Prop :=
  ∃ edit : FolderListRow → FolderListRow, rows' = rows.map edit ∧
    ∀ row, (edit row).folderItemId = row.folderItemId ∧ (edit row).parentId = row.parentId ∧
      (edit row).isFolder = row.isFolder

namespace SameShape

variable {rows rows' rows'' : List FolderListRow}

theorem refl (rows : List FolderListRow) : SameShape rows rows :=
  ⟨id, (List.map_id rows).symm, fun _ => ⟨rfl, rfl, rfl⟩⟩

theorem trans (h : SameShape rows rows') (h' : SameShape rows' rows'') : SameShape rows rows'' := by
  obtain ⟨edit, rfl, hedit⟩ := h
  obtain ⟨edit', rfl, hedit'⟩ := h'
  refine ⟨edit' ∘ edit, List.map_map, fun row => ?_⟩
  obtain ⟨hid, hparent, hfolder⟩ := hedit row
  obtain ⟨hid', hparent', hfolder'⟩ := hedit' (edit row)
  exact ⟨hid'.trans hid, hparent'.trans hparent, hfolder'.trans hfolder⟩

theorem ids (h : SameShape rows rows') :
    rows'.map (·.folderItemId) = rows.map (·.folderItemId) := by
  obtain ⟨edit, rfl, hedit⟩ := h
  rw [List.map_map]
  exact List.map_congr_left fun row _ => (hedit row).1

/-- Each row has one with the same ids. -/
theorem exists_row (h : SameShape rows rows') {row : FolderListRow} (hrow : row ∈ rows) :
    ∃ row' ∈ rows', row'.folderItemId = row.folderItemId ∧ row'.parentId = row.parentId ∧
      row'.isFolder = row.isFolder := by
  obtain ⟨edit, rfl, hedit⟩ := h
  exact ⟨edit row, List.mem_map_of_mem hrow, hedit row⟩

theorem exists_row' (h : SameShape rows rows') {row' : FolderListRow} (hrow : row' ∈ rows') :
    ∃ row ∈ rows, row'.folderItemId = row.folderItemId ∧ row'.parentId = row.parentId ∧
      row'.isFolder = row.isFolder := by
  obtain ⟨edit, rfl, hedit⟩ := h
  obtain ⟨row, hmem, rfl⟩ := List.mem_map.mp hrow
  exact ⟨row, hmem, hedit row⟩

theorem onChain (h : SameShape rows rows') {a b : UInt16} (hchain : OnChain rows a b) :
    OnChain rows' a b := by
  refine hchain.of_parents fun row hrow => ?_
  obtain ⟨row', hrow', hid, hparent, -⟩ := h.exists_row hrow
  exact ⟨row', hrow', hid.symm, hparent.symm⟩

theorem of_onChain (h : SameShape rows rows') {a b : UInt16} (hchain : OnChain rows' a b) :
    OnChain rows a b := by
  refine hchain.of_parents fun row' hrow' => ?_
  obtain ⟨row, hrow, hid, hparent, -⟩ := h.exists_row' hrow'
  exact ⟨row, hrow, hid, hparent⟩

theorem folderTree (h : SameShape rows rows') (htree : FolderTree rows) : FolderTree rows' where
  nodup := by
    rw [h.ids]
    exact htree.nodup
  ne_root row' hrow' := by
    obtain ⟨row, hrow, hid, -, -⟩ := h.exists_row' hrow'
    rw [hid]
    exact htree.ne_root row hrow
  parents row' hrow' hparent := by
    obtain ⟨row, hrow, -, hsame, -⟩ := h.exists_row' hrow'
    rw [hsame] at hparent ⊢
    obtain ⟨parent, hmem, hid, hfolder⟩ := htree.parents row hrow hparent
    obtain ⟨parent', hmem', hid', -, hfolder'⟩ := h.exists_row hmem
    exact ⟨parent', hmem', hid'.trans hid, hfolder'.trans hfolder⟩
  rooted row' hrow' := by
    obtain ⟨row, hrow, hid, -, -⟩ := h.exists_row' hrow'
    rw [hid]
    exact h.onChain (htree.rooted row hrow)

end SameShape

theorem sameShape_setStatus (rows : List FolderListRow) (aFolderItemId : UInt16) (status : Int) :
    SameShape rows (setStatus rows aFolderItemId status) := by
  refine ⟨_, rfl, fun row => ?_⟩
  split <;> exact ⟨rfl, rfl, rfl⟩

/-! ## One row of a table -/

theorem FolderTree.eq_of_id {rows : List FolderListRow} (h : FolderTree rows)
    {row row' : FolderListRow} (hrow : row ∈ rows) (hrow' : row' ∈ rows)
    (hid : row.folderItemId = row'.folderItemId) : row = row' :=
  List.inj_on_of_nodup_map h.nodup hrow hrow' hid

theorem seekFolderItem_some {rows : List FolderListRow} {id : UInt16} {row : FolderListRow}
    (h : seekFolderItem rows id = some row) : row ∈ rows ∧ row.folderItemId = id := by
  refine ⟨List.mem_of_find?_eq_some h, ?_⟩
  simpa using List.find?_some h

theorem FolderTree.seek {rows : List FolderListRow} (h : FolderTree rows) {row : FolderListRow}
    (hrow : row ∈ rows) : seekFolderItem rows row.folderItemId = some row := by
  cases hseek : seekFolderItem rows row.folderItemId with
  | none =>
    rw [seekFolderItem, List.find?_eq_none] at hseek
    exact absurd (decide_eq_true rfl) (hseek row hrow)
  | some row' =>
    obtain ⟨hmem, hid⟩ := seekFolderItem_some hseek
    rw [h.eq_of_id hmem hrow hid]

/-- A count is that of the other rows, and one more if the row is counted. -/
theorem countP_eq_others {rows : List FolderListRow} (h : FolderTree rows)
    {row : FolderListRow} (hrow : row ∈ rows) (p : FolderListRow → Bool) :
    rows.countP p = rows.countP (fun r => p r && decide (r.folderItemId ≠ row.folderItemId)) +
      if p row then 1 else 0 := by
  have hnodup := h.nodup
  clear h
  induction rows with
  | nil => cases hrow
  | cons first rest ih =>
    rw [List.map_cons, List.nodup_cons] at hnodup
    obtain ⟨hnot, hnodup⟩ := hnodup
    rw [List.countP_cons, List.countP_cons]
    rcases List.mem_cons.mp hrow with rfl | hmem
    · have hothers : rest.countP (fun r => p r && decide (r.folderItemId ≠ row.folderItemId)) =
          rest.countP p := by
        apply List.countP_congr
        intro r hr
        have hne : r.folderItemId ≠ row.folderItemId := by
          rintro heq
          exact hnot (heq ▸ List.mem_map_of_mem (f := (·.folderItemId)) hr)
        simp [hne]
      rw [hothers]
      simp
    · have hne : first.folderItemId ≠ row.folderItemId := by
        rintro heq
        exact hnot (heq ▸ List.mem_map_of_mem (f := (·.folderItemId)) hmem)
      rw [ih hmem hnodup]
      simp only [hne, ne_eq, not_false_eq_true, decide_true, Bool.and_true]
      omega

/-! ## Chains -/

theorem OnChain.eq_or_up {rows : List FolderListRow} {a b : UInt16} (h : OnChain rows a b) :
    a = b ∨ ∃ row ∈ rows, row.folderItemId = a ∧ OnChain rows row.parentId b := by
  cases h with
  | self => exact .inl rfl
  | up hrow hparent => exact .inr ⟨_, hrow, rfl, hparent⟩

theorem OnChain.trans {rows : List FolderListRow} {a b c : UInt16} (h : OnChain rows a b)
    (h' : OnChain rows b c) : OnChain rows a c := by
  induction h with
  | self => exact h'
  | up hrow _ ih => exact .up hrow (ih h')

/-- No row is above its own parent. -/
theorem FolderTree.not_onChain_parent {rows : List FolderListRow} (h : FolderTree rows)
    {row : FolderListRow} (hrow : row ∈ rows) : ¬ OnChain rows row.parentId row.folderItemId := by
  have hrooted := h.rooted row hrow
  generalize hroot : kRootFolderId = root at hrooted
  generalize hid : row.folderItemId = id at hrooted ⊢
  induction hrooted generalizing row with
  | self => exact absurd (hid.trans hroot.symm) (h.ne_root row hrow)
  | @up above root habove _ ih =>
    obtain rfl := h.eq_of_id hrow habove hid
    intro hloop
    rcases hloop.eq_or_up with heq | ⟨next, hnext, hnextId, hback⟩
    · exact ih hrow hroot heq.symm (.self _)
    · exact ih hnext hroot hnextId (hback.trans (.up hrow (.self _)))

theorem FolderTree.parent_ne {rows : List FolderListRow} (h : FolderTree rows)
    {row : FolderListRow} (hrow : row ∈ rows) : row.parentId ≠ row.folderItemId := by
  intro heq
  apply h.not_onChain_parent hrow
  rw [heq]
  exact .self _

/-! ## What the statuses owe -/

/-- The children of a folder whose status is not zero, without the item `x`. -/
def errorsBut (x : UInt16) (rows : List FolderListRow) (aFolderItemId : UInt16) : Nat :=
  rows.countP fun row => row.parentId = aFolderItemId ∧ row.status ≠ 0 ∧ row.folderItemId ≠ x

/-- The statuses are right but for that of one folder, which is off by `d`; the item `x` does not
count. -/
def Owes (x p : UInt16) (d : Int) (rows : List FolderListRow) : Prop :=
  ∀ row ∈ rows, row.isFolder = true →
    row.status + errorsBut x rows row.folderItemId = if row.folderItemId = p then d else 0

/-- A new status changes the number at the parent only. -/
theorem errorsBut_setStatus {rows : List FolderListRow} (h : FolderTree rows)
    {row : FolderListRow} (hrow : row ∈ rows) (x f : UInt16) (status : Int) :
    ∃ others, errorsBut x rows f =
        others + (if row.parentId = f ∧ row.status ≠ 0 ∧ row.folderItemId ≠ x then 1 else 0) ∧
      errorsBut x (setStatus rows row.folderItemId status) f =
        others + (if row.parentId = f ∧ status ≠ 0 ∧ row.folderItemId ≠ x then 1 else 0) := by
  refine ⟨rows.countP fun r => decide (r.parentId = f ∧ r.status ≠ 0 ∧ r.folderItemId ≠ x) &&
    decide (r.folderItemId ≠ row.folderItemId), ?_, ?_⟩
  · rw [errorsBut, countP_eq_others h hrow]
    simp only [decide_eq_true_eq]
  · rw [errorsBut, setStatus, List.countP_map, countP_eq_others h hrow]
    simp only [Function.comp_apply, if_true, decide_eq_true_eq]
    refine congrArg (· + _) (List.countP_congr fun r _ => ?_)
    by_cases hid : r.folderItemId = row.folderItemId
    · simp [hid]
    · simp [hid]

theorem mem_setStatus {rows : List FolderListRow} {aFolderItemId : UInt16} {status : Int}
    {row : FolderListRow} (h : row ∈ setStatus rows aFolderItemId status) :
    ∃ old ∈ rows, row.folderItemId = old.folderItemId ∧ row.parentId = old.parentId ∧
      row.isFolder = old.isFolder ∧
      row.status = if old.folderItemId = aFolderItemId then status else old.status := by
  obtain ⟨old, hold, rfl⟩ := List.mem_map.mp h
  refine ⟨old, hold, ?_⟩
  split <;> exact ⟨rfl, rfl, rfl, rfl⟩

theorem mem_setStatus_of_ne {rows : List FolderListRow} {aFolderItemId : UInt16} {status : Int}
    {row : FolderListRow} (hrow : row ∈ rows) (hne : row.folderItemId ≠ aFolderItemId) :
    row ∈ setStatus rows aFolderItemId status := by
  refine List.mem_map.mpr ⟨row, hrow, ?_⟩
  rw [if_neg hne]

/-- A new status of a folder leaves another item and the feeds alone. -/
theorem mem_setStatus_of_kept {rows : List FolderListRow} (h : FolderTree rows)
    {folder : FolderListRow} (hfolder : folder ∈ rows) (hisFolder : folder.isFolder = true)
    {x : UInt16} (hx : folder.folderItemId ≠ x) {status : Int} {row : FolderListRow}
    (hrow : row ∈ rows) (hkept : row.folderItemId = x ∨ row.isFolder = false) :
    row ∈ setStatus rows folder.folderItemId status := by
  apply mem_setStatus_of_ne hrow
  intro hid
  rcases hkept with rfl | hfeed
  · exact hx hid.symm
  · rw [h.eq_of_id hrow hfolder hid, hisFolder] at hfeed
    cases hfeed

/-- The row of a folder with its status from a table of the same shape. -/
theorem SameShape.exists_folder {base rows : List FolderListRow} (h : SameShape base rows)
    (htree : FolderTree base) {row : FolderListRow} (hrow : row ∈ base)
    (hfolder : ∃ folder ∈ base, folder.folderItemId = row.folderItemId ∧ folder.isFolder = true) :
    ∃ row' ∈ rows, row'.folderItemId = row.folderItemId ∧ row'.parentId = row.parentId ∧
      row'.isFolder = true := by
  obtain ⟨folder, hmem, hid, hisFolder⟩ := hfolder
  obtain rfl := htree.eq_of_id hmem hrow hid
  obtain ⟨row', hrow', hid', hparent', hfolder'⟩ := h.exists_row hrow
  exact ⟨row', hrow', hid', hparent', hfolder'.trans hisFolder⟩

/-- What a loop upwards comes to: it ends, the shape, the item `x` and the feeds stay, and the
statuses are right. -/
def Settles (loop : Nat → Option (List FolderListRow)) (x : UInt16) (rows : List FolderListRow) :
    Prop :=
  ∃ rows', (∃ n, ∀ fuel, n ≤ fuel → loop fuel = some rows') ∧ SameShape rows rows' ∧
    Owes x kRootFolderId 0 rows' ∧
    ∀ row ∈ rows, row.folderItemId = x ∨ row.isFolder = false → row ∈ rows'

/-- A new status at the folder that owes passes on what changes for its parent. -/
theorem owes_setStatus {rows : List FolderListRow} (h : FolderTree rows) {row : FolderListRow}
    (hrow : row ∈ rows) (hfolder : row.isFolder = true) {x : UInt16} (hx : row.folderItemId ≠ x)
    {d : Int} (howes : Owes x row.folderItemId d rows) {status : Int}
    (hstatus : status = row.status - d) :
    Owes x row.parentId ((if status ≠ 0 then 1 else 0) - (if row.status ≠ 0 then 1 else 0))
      (setStatus rows row.folderItemId status) := by
  intro new hnew hnewFolder
  obtain ⟨old, hold, hid, -, hisFolder, hset⟩ := mem_setStatus hnew
  obtain ⟨others, hbefore, hafter⟩ := errorsBut_setStatus h hrow x old.folderItemId status
  have hownOwes := howes old hold (hisFolder ▸ hnewFolder)
  rw [hid, hset, hafter]
  rw [hbefore] at hownOwes
  by_cases hsame : old.folderItemId = row.folderItemId
  · obtain rfl := h.eq_of_id hold hrow hsame
    have hparent := h.parent_ne hrow
    simp only [hparent, hparent.symm, if_true, if_false, false_and] at hownOwes ⊢
    omega
  · simp only [hsame, if_false, hx, ne_eq, not_false_eq_true, and_true] at hownOwes ⊢
    by_cases hparent : row.parentId = old.folderItemId
    · simp only [hparent, true_and, if_true] at hownOwes ⊢
      split_ifs at hownOwes ⊢ <;> omega
    · simp only [hparent, Ne.symm hparent, false_and, if_false] at hownOwes ⊢
      exact hownOwes

/-- At the root nothing is owed. -/
theorem Owes.root {rows : List FolderListRow} (h : FolderTree rows) {x p : UInt16} {d : Int}
    (howes : Owes x p d rows) (hp : p = kRootFolderId ∨ d = 0) : Owes x kRootFolderId 0 rows := by
  intro row hrow hfolder
  have hownOwes := howes row hrow hfolder
  have hne := h.ne_root row hrow
  rcases hp with rfl | rfl
  · rw [if_neg hne] at hownOwes ⊢
    exact hownOwes
  · rw [ite_self] at hownOwes ⊢
    exact hownOwes

/-- The loop from a folder that is not there does not end. -/
theorem raiseStatus_absent {rows : List FolderListRow} {parent : UInt16}
    (hroot : parent ≠ kRootFolderId) (habsent : seekFolderItem rows parent = none) (fuel : Nat) :
    raiseStatus fuel parent rows = none := by
  induction fuel with
  | zero => rfl
  | succ fuel ih =>
    rw [raiseStatus, if_neg hroot, habsent]
    exact ih

theorem raiseStatus_settles {base : List FolderListRow} (htree : FolderTree base) {x p : UInt16}
    (hchain : OnChain base p kRootFolderId) {rows : List FolderListRow}
    (hshape : SameShape base rows)
    (howes : Owes x p (-1) rows)
    (hfolder : p ≠ kRootFolderId →
      ∃ folder ∈ base, folder.folderItemId = p ∧ folder.isFolder = true)
    (hx : ∀ row ∈ base, OnChain base p row.folderItemId → row.folderItemId ≠ x) :
    Settles (fun fuel => raiseStatus fuel p rows) x rows := by
  generalize hroot : kRootFolderId = root at hchain
  induction hchain generalizing rows with
  | self =>
    refine ⟨rows, ⟨1, fun fuel hfuel => ?_⟩, .refl rows,
      howes.root (hshape.folderTree htree) (.inl hroot.symm), fun row hrow _ => hrow⟩
    obtain ⟨fuel, rfl⟩ := Nat.exists_eq_add_of_le' hfuel
    dsimp only
    rw [raiseStatus, if_pos hroot.symm]
  | @up top root htop hrest ih =>
    have htree' := hshape.folderTree htree
    have hne := htree.ne_root top htop
    obtain ⟨row, hrow, hid, hparent, hisFolder⟩ :=
      hshape.exists_folder htree htop (hfolder hne)
    have hnotX : row.folderItemId ≠ x := hid ▸ hx top htop (.self _)
    have hstatus := howes row hrow hisFolder
    rw [if_pos hid] at hstatus
    have hnegative : row.status ≠ 0 := by omega
    have hone : row.status + 1 = row.status - -1 := by omega
    have howes' := owes_setStatus htree' hrow hisFolder hnotX (hid ▸ howes) hone
    have hshape' := sameShape_setStatus rows row.folderItemId (row.status + 1)
    have hkeep : ∀ r ∈ rows, r.folderItemId = x ∨ r.isFolder = false →
        r ∈ setStatus rows row.folderItemId (row.status + 1) :=
      fun r hr hrx => mem_setStatus_of_kept htree' hrow hisFolder hnotX hr hrx
    have hstep : ∀ fuel, raiseStatus (fuel + 1) top.folderItemId rows =
        if row.status + 1 ≠ 0 then some (setStatus rows row.folderItemId (row.status + 1))
        else raiseStatus fuel row.parentId (setStatus rows row.folderItemId (row.status + 1)) := by
      intro fuel
      rw [raiseStatus, if_neg hne, ← hid, htree'.seek hrow]
    by_cases hzero : row.status + 1 = 0
    · -- The folder has no more children with a status, and its parent has lost one.
      rw [if_neg (not_not.mpr hzero), if_pos hnegative, hparent] at howes'
      obtain ⟨rows', ⟨n, hrun⟩, hshape'', hsettled, hkeep'⟩ := ih (hshape.trans hshape')
        (by simpa using howes') (htree.parents top htop) (fun r hr hup => hx r hr (.up htop hup))
        hroot
      refine ⟨rows', ⟨n + 1, fun fuel hfuel => ?_⟩, hshape'.trans hshape'', hsettled,
        fun r hr hrx => hkeep' r (hkeep r hr hrx) hrx⟩
      obtain ⟨fuel, rfl⟩ := Nat.exists_eq_add_of_le' (Nat.le_of_add_left_le hfuel)
      dsimp only
      rw [hstep, if_neg (not_not.mpr hzero), hparent]
      exact hrun fuel (by omega)
    · rw [if_pos hzero, if_pos hnegative] at howes'
      refine ⟨_, ⟨1, fun fuel hfuel => ?_⟩, hshape',
        howes'.root (hshape'.folderTree htree') (.inr (by omega)), hkeep⟩
      obtain ⟨fuel, rfl⟩ := Nat.exists_eq_add_of_le' hfuel
      dsimp only
      rw [hstep, if_pos hzero]

theorem lowerStatus_settles {base : List FolderListRow} (htree : FolderTree base) {x p : UInt16}
    (hchain : OnChain base p kRootFolderId) {rows : List FolderListRow}
    (hshape : SameShape base rows)
    (howes : Owes x p 1 rows)
    (hfolder : p ≠ kRootFolderId →
      ∃ folder ∈ base, folder.folderItemId = p ∧ folder.isFolder = true)
    (herror : p ≠ kRootFolderId → 1 ≤ errorsBut x rows p)
    (hx : ∀ row ∈ base, OnChain base p row.folderItemId → row.folderItemId ≠ x) :
    Settles (fun fuel => lowerStatus fuel p rows) x rows := by
  generalize hroot : kRootFolderId = root at hchain
  induction hchain generalizing rows with
  | self =>
    refine ⟨rows, ⟨1, fun fuel hfuel => ?_⟩, .refl rows,
      howes.root (hshape.folderTree htree) (.inl hroot.symm), fun row hrow _ => hrow⟩
    obtain ⟨fuel, rfl⟩ := Nat.exists_eq_add_of_le' hfuel
    dsimp only
    rw [lowerStatus, if_pos hroot.symm]
  | @up top root htop hrest ih =>
    have htree' := hshape.folderTree htree
    have hne := htree.ne_root top htop
    obtain ⟨row, hrow, hid, hparent, hisFolder⟩ :=
      hshape.exists_folder htree htop (hfolder hne)
    have hnotX : row.folderItemId ≠ x := hid ▸ hx top htop (.self _)
    have hpositive := herror hne
    have hstatus := howes row hrow hisFolder
    rw [if_pos hid, hid] at hstatus
    have hnegative : row.status - 1 ≠ 0 := by omega
    have hone : row.status - 1 = row.status - 1 := rfl
    have howes' := owes_setStatus htree' hrow hisFolder hnotX (hid ▸ howes) hone
    have hshape' := sameShape_setStatus rows row.folderItemId (row.status - 1)
    have hkeep : ∀ r ∈ rows, r.folderItemId = x ∨ r.isFolder = false →
        r ∈ setStatus rows row.folderItemId (row.status - 1) :=
      fun r hr hrx => mem_setStatus_of_kept htree' hrow hisFolder hnotX hr hrx
    have hstep : ∀ fuel, lowerStatus (fuel + 1) top.folderItemId rows =
        if row.status ≠ 0 then some (setStatus rows row.folderItemId (row.status - 1))
        else lowerStatus fuel row.parentId (setStatus rows row.folderItemId (row.status - 1)) := by
      intro fuel
      rw [lowerStatus, if_neg hne, ← hid, htree'.seek hrow]
    by_cases hzero : row.status = 0
    · -- The folder had no child with a status, and its parent has got one.
      rw [if_pos hnegative, if_neg (not_not.mpr hzero), hparent] at howes'
      have herror' : 1 ≤ errorsBut x (setStatus rows row.folderItemId (row.status - 1))
          top.parentId := by
        obtain ⟨others, -, hafter⟩ :=
          errorsBut_setStatus htree' hrow x top.parentId (row.status - 1)
        rw [hafter, if_pos ⟨hparent, hnegative, hnotX⟩]
        exact Nat.le_add_left 1 others
      obtain ⟨rows', ⟨n, hrun⟩, hshape'', hsettled, hkeep'⟩ := ih (hshape.trans hshape')
        (by simpa using howes') (htree.parents top htop) (fun _ => herror')
        (fun r hr hup => hx r hr (.up htop hup)) hroot
      refine ⟨rows', ⟨n + 1, fun fuel hfuel => ?_⟩, hshape'.trans hshape'', hsettled,
        fun r hr hrx => hkeep' r (hkeep r hr hrx) hrx⟩
      obtain ⟨fuel, rfl⟩ := Nat.exists_eq_add_of_le' (Nat.le_of_add_left_le hfuel)
      dsimp only
      rw [hstep, if_neg (not_not.mpr hzero), hparent]
      exact hrun fuel (by omega)
    · rw [if_pos hnegative, if_pos hzero] at howes'
      refine ⟨_, ⟨1, fun fuel hfuel => ?_⟩, hshape',
        howes'.root (hshape'.folderTree htree') (.inr (by omega)), hkeep⟩
      obtain ⟨fuel, rfl⟩ := Nat.exists_eq_add_of_le' hfuel
      dsimp only
      rw [hstep, if_pos hzero]

/-! ## Right statuses -/

theorem errorsBut_root {rows : List FolderListRow} (h : FolderTree rows) (f : UInt16) :
    errorsBut kRootFolderId rows f = errorsBelow rows f := by
  refine List.countP_congr fun row hrow => ?_
  simp [h.ne_root row hrow]

theorem Owes.counted {rows : List FolderListRow} (h : FolderTree rows)
    (howes : Owes kRootFolderId kRootFolderId 0 rows) : Counted rows := by
  intro row hrow hfolder
  have hstatus := howes row hrow hfolder
  rw [ite_self, errorsBut_root h] at hstatus
  omega

/-- A child with a status gives one to its folder. -/
theorem Counted.parent_ne_zero {rows : List FolderListRow} (hcounted : Counted rows)
    {row parent : FolderListRow} (hrow : row ∈ rows) (hstatus : row.status ≠ 0)
    (hparent : parent ∈ rows) (hfolder : parent.isFolder = true)
    (hid : parent.folderItemId = row.parentId) : parent.status ≠ 0 := by
  have hpos : 0 < errorsBelow rows parent.folderItemId :=
    List.countP_pos_iff.mpr ⟨row, hrow, by simp [hid, hstatus]⟩
  have hcount := hcounted parent hparent hfolder
  omega

/-- What is above an item with a status has one too. -/
theorem Counted.above_ne_zero {rows : List FolderListRow} (htree : FolderTree rows)
    (hcounted : Counted rows) {a b : UInt16} (h : OnChain rows a b) {row above : FolderListRow}
    (hrow : row ∈ rows) (ha : row.folderItemId = a) (hstatus : row.status ≠ 0)
    (habove : above ∈ rows) (hb : above.folderItemId = b) : above.status ≠ 0 := by
  induction h generalizing row with
  | self => rwa [← htree.eq_of_id hrow habove (ha.trans hb.symm)]
  | @up r b hr hchain ih =>
    obtain rfl := htree.eq_of_id hrow hr ha
    have hne : row.parentId ≠ kRootFolderId := by
      intro hroot
      rcases hchain.eq_or_up with heq | ⟨r, hr, hid, -⟩
      · exact htree.ne_root above habove (hb.trans (heq.symm.trans hroot))
      · exact htree.ne_root r hr (hid.trans hroot)
    obtain ⟨parent, hparent, hid, hfolder⟩ := htree.parents row hrow hne
    exact ih hparent hid (hcounted.parent_ne_zero hrow hstatus hparent hfolder hid) hb

/-- An item with a status has a feed with one at or below it. -/
theorem Counted.exists_feed {rows : List FolderListRow} (htree : FolderTree rows)
    (hcounted : Counted rows) {row : FolderListRow} (hrow : row ∈ rows) (hstatus : row.status ≠ 0) :
    ∃ feed ∈ rows, feed.isFolder = false ∧ feed.status ≠ 0 ∧
      OnChain rows feed.folderItemId row.folderItemId := by
  classical
  generalize hn : (rows.filter fun r =>
    decide (OnChain rows r.folderItemId row.folderItemId)).length = n
  induction n using Nat.strong_induction_on generalizing row with
  | _ n ih =>
    cases hfolder : row.isFolder with
    | false => exact ⟨row, hrow, hfolder, hstatus, .self _⟩
    | true =>
      have hpos : 0 < errorsBelow rows row.folderItemId := by
        have hcount := hcounted row hrow hfolder
        omega
      obtain ⟨child, hchild, hcounts⟩ := List.countP_pos_iff.mp hpos
      obtain ⟨hparent, hne⟩ := of_decide_eq_true hcounts
      have hup : OnChain rows child.folderItemId row.folderItemId :=
        .up hchild (hparent ▸ .self _)
      have hnot := htree.not_onChain_parent hchild
      rw [hparent] at hnot
      -- What is below the child is below the folder, which is not below the child itself.
      have hless : (rows.filter fun r =>
          decide (OnChain rows r.folderItemId child.folderItemId)).length < n := by
        rw [← hn]
        have hsplit : (rows.filter fun r =>
            decide (OnChain rows r.folderItemId child.folderItemId)) =
            (rows.filter fun r => decide (OnChain rows r.folderItemId row.folderItemId)).filter
              fun r => decide (OnChain rows r.folderItemId child.folderItemId) := by
          rw [List.filter_filter]
          refine List.filter_congr fun r _ => ?_
          by_cases hbelow : OnChain rows r.folderItemId child.folderItemId
          · simp [hbelow, hbelow.trans hup]
          · simp [hbelow]
        rw [hsplit]
        refine List.length_filter_lt_length_iff_exists.mpr ⟨row, ?_, by simpa using hnot⟩
        exact List.mem_filter.mpr ⟨hrow, decide_eq_true (.self _)⟩
      obtain ⟨feed, hfeed, hkind, hfeedStatus, hchain⟩ := ih _ hless hchild hne rfl
      exact ⟨feed, hfeed, hkind, hfeedStatus, hchain.trans hup⟩

end SymbianWeb.Feeds
