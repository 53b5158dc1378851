import SymbianWeb.Feeds.FolderTransfers

/-!
# Deleting items and the feeds they refer to

A deletion that returns has removed the rows at and below the listed items, whatever it did to the
statuses (`deleted_of_returns`); the folders below are empty when they are numbered. A feed that no
row refers to any more waits among the feeds that might have to go (`Waits`), and goes at the end of
the call that deletes its item.
-/

set_option autoImplicit false

namespace SymbianWeb.Feeds

open Numbering

/-! ## The rows that are left -/

/-- At or below one of some items. -/
def Below (rows : List FolderListRow) (ids : List UInt16) (id : UInt16) : Prop :=
  ∃ c ∈ ids, OnChain rows id c

open scoped Classical in
/-- The rows that are not below some items. -/
noncomputable def leftRows (rows : List FolderListRow) (ids : List UInt16) : List FolderListRow :=
  rows.filter fun row => ¬ Below rows ids row.folderItemId

section

variable {rows rows₁ rows' : List FolderListRow} {ids before after array : List UInt16} {id : UInt16}

theorem mem_leftRows {row : FolderListRow} :
    row ∈ leftRows rows ids ↔ row ∈ rows ∧ ¬ Below rows ids row.folderItemId := by
  simp [leftRows]

theorem leftRows_subset : leftRows rows ids ⊆ rows := fun _ hrow => (mem_leftRows.mp hrow).1

theorem below_append : Below rows (before ++ after) id ↔
    Below rows before id ∨ Below rows after id := by
  simp only [Below, List.mem_append, or_and_right, exists_or]

/-- Chains do not depend on statuses. -/
theorem SameButStatus.onChain (h : SameButStatus rows rows') {a b : UInt16}
    (hchain : OnChain rows a b) : OnChain rows' a b := by
  have herased := (samePlace_withoutStatus rows).shape.onChain hchain
  rw [h] at herased
  exact (samePlace_withoutStatus rows').shape.of_onChain herased

theorem OnChain.of_subset (h : rows ⊆ rows') {a b : UInt16} (hchain : OnChain rows a b) :
    OnChain rows' a b :=
  hchain.of_parents fun row hrow => ⟨row, h hrow, rfl, rfl⟩

/-- The rows that are left when one more item goes, with what is below its children. -/
theorem below_cons_iff (rows : List FolderListRow) (before : List UInt16) (id other : UInt16) :
    (¬ Below rows before other ∧ other ≠ id ∧
      ¬ Below (deleteRow (leftRows rows before) id)
        (folderItemGetChildrenL (deleteRow (leftRows rows before) id) id) other) ↔
      ¬ Below rows (before ++ [id]) other := by
  have hsubset : deleteRow (leftRows rows before) id ⊆ rows :=
    fun r hr => leftRows_subset (mem_deleteRow.mp hr).1
  rw [below_append, not_or]
  refine and_congr_right fun hkept => ?_
  constructor
  · rintro ⟨hne, hnot⟩ ⟨c, hc, hchain⟩
    rw [List.mem_singleton.mp hc] at hchain
    -- A chain that comes to the item goes through one of its children that are left.
    have hbelow : ∀ {a b : UInt16}, OnChain rows a b → b = id → a ≠ id → ¬ Below rows before a →
        Below (deleteRow (leftRows rows before) id)
          (folderItemGetChildrenL (deleteRow (leftRows rows before) id) id) a := by
      intro a b hup
      induction hup with
      | self => exact fun heq hne => absurd heq hne
      | @up above b habove hup ih =>
        intro hb hne hnotBelow
        have hmem : above ∈ deleteRow (leftRows rows before) id :=
          mem_deleteRow.mpr ⟨mem_leftRows.mpr ⟨habove, hnotBelow⟩, hne⟩
        by_cases hparent : above.parentId = id
        · exact ⟨above.folderItemId, mem_children.mpr ⟨above, hmem, hparent, rfl⟩, .self _⟩
        · have hparentKept : ¬ Below rows before above.parentId := by
            rintro ⟨c, hc, hchain⟩
            exact hnotBelow ⟨c, hc, .up habove hchain⟩
          obtain ⟨child, hchild, hchain⟩ := ih hb hparent hparentKept
          exact ⟨child, hchild, .up hmem hchain⟩
    exact hnot (hbelow hchain rfl hne hkept)
  · intro hnot
    refine ⟨fun heq => hnot ⟨id, List.mem_singleton.mpr rfl, heq ▸ .self _⟩, ?_⟩
    rintro ⟨child, hchild, hchain⟩
    obtain ⟨r, hr, hparent, rfl⟩ := mem_children.mp hchild
    refine hnot ⟨id, List.mem_singleton.mpr rfl, ?_⟩
    refine (hchain.of_subset hsubset).trans (.up (hsubset hr) ?_)
    rw [hparent]
    exact .self _

theorem leftRows_cons (rows : List FolderListRow) (before : List UInt16) (id : UInt16) :
    leftRows (deleteRow (leftRows rows before) id)
      (folderItemGetChildrenL (deleteRow (leftRows rows before) id) id) =
        leftRows rows (before ++ [id]) := by
  classical
  generalize hleft : deleteRow (leftRows rows before) id = left
  have hmem : left = rows.filter fun row => row.folderItemId ≠ id ∧
      ¬ Below rows before row.folderItemId := by
    rw [← hleft, deleteRow, leftRows, List.filter_filter]
    exact List.filter_congr fun row _ => (Bool.decide_and _ _).symm
  have hiff := below_cons_iff rows before id
  rw [hleft] at hiff
  rw [leftRows, leftRows, hmem, List.filter_filter, ← hmem]
  refine List.filter_congr fun row _ => ?_
  rw [← Bool.decide_and, decide_eq_decide, ← hiff]
  tauto

/-- An item that was deleted already goes with nothing. -/
theorem leftRows_absent (habsent : Below rows before id) :
    leftRows rows (before ++ [id]) = leftRows rows before := by
  classical
  refine List.filter_congr fun row _ => decide_eq_decide.mpr (not_congr ?_)
  rw [below_append]
  refine or_iff_left_of_imp ?_
  rintro ⟨c, hc, hchain⟩
  rw [List.mem_singleton.mp hc] at hchain
  obtain ⟨b, hb, hup⟩ := habsent
  exact ⟨b, hb, hchain.trans hup⟩

theorem leftRows_nil (rows : List FolderListRow) : leftRows rows [] = rows := by
  classical
  refine List.filter_eq_self.mpr fun row _ => decide_eq_true ?_
  rintro ⟨c, hc, -⟩
  cases hc

/-! ## Up to statuses -/

/-- Rows that are taken out by their ids. -/
theorem SameButStatus.filter (h : SameButStatus rows rows') (keep : UInt16 → Bool) :
    SameButStatus (rows.filter fun row => keep row.folderItemId)
      (rows'.filter fun row => keep row.folderItemId) := by
  have hfilter : ∀ l : List FolderListRow, (l.filter fun row => keep row.folderItemId).map
      withoutStatus = (l.map withoutStatus).filter fun row => keep row.folderItemId := by
    intro l
    rw [List.filter_map]
    rfl
  rw [SameButStatus, hfilter, hfilter, h]

theorem SameButStatus.below_iff (h : SameButStatus rows rows') :
    Below rows ids id ↔ Below rows' ids id :=
  ⟨fun ⟨c, hc, hchain⟩ => ⟨c, hc, h.onChain hchain⟩,
    fun ⟨c, hc, hchain⟩ => ⟨c, hc, SameButStatus.onChain h.symm hchain⟩⟩

theorem SameButStatus.leftRows (h : SameButStatus rows rows') (ids : List UInt16) :
    SameButStatus (leftRows rows ids) (leftRows rows' ids) := by
  classical
  have hsame : Feeds.leftRows rows' ids =
      rows'.filter fun row => ¬ Below rows ids row.folderItemId :=
    List.filter_congr fun row _ => decide_eq_decide.mpr (not_congr h.below_iff.symm)
  rw [hsame]
  exact h.filter fun id => ¬ Below rows ids id

theorem SameButStatus.deleteRow (h : SameButStatus rows rows') (id : UInt16) :
    SameButStatus (deleteRow rows id) (deleteRow rows' id) :=
  h.filter fun other => other ≠ id

theorem SameButStatus.children (h : SameButStatus rows rows') (id : UInt16) :
    folderItemGetChildrenL rows id = folderItemGetChildrenL rows' id := by
  have hchildren : ∀ l : List FolderListRow, folderItemGetChildrenL l id =
      folderItemGetChildrenL (l.map withoutStatus) id := by
    intro l
    rw [folderItemGetChildrenL, folderItemGetChildrenL, rowsOfParent, rowsOfParent, List.filter_map,
      List.map_map]
    rfl
  rw [hchildren rows, h, ← hchildren rows']

theorem Rows.of_sameButStatus (hrows : Rows rows) (h : SameButStatus rows rows') : Rows rows' where
  nodup := by
    rw [h.ids]
    exact hrows.nodup
  folders row hrow parent hparent hid := by
    obtain ⟨row₀, hrow₀, heq⟩ := SameButStatus.exists_row h.symm hrow
    obtain ⟨parent₀, hparent₀, heq'⟩ := SameButStatus.exists_row h.symm hparent
    obtain ⟨-, -, hsame, -, -, -, -, -⟩ := FolderListRow.mk.inj heq
    obtain ⟨-, hsameId, -, -, hkind, -, -, -⟩ := FolderListRow.mk.inj heq'
    rw [← hkind]
    exact hrows.folders row₀ hrow₀ parent₀ hparent₀ (hsameId.trans (hid.trans hsame.symm))

theorem Rows.leftRows (hrows : Rows rows) (ids : List UInt16) : Rows (leftRows rows ids) := by
  classical
  exact hrows.filter _

theorem Rows.deleteRow (hrows : Rows rows) (id : UInt16) : Rows (deleteRow rows id) :=
  hrows.filter _

/-! ## Deletions that return -/

/-- What `FolderItemDeleteHelperL` leaves, before it numbers the folder of the first item. -/
def Deletes (array : List UInt16) (fuel : Nat) : Prop :=
  ∀ rows ids rows', Rows rows → Exist rows ids →
    folderItemDeleteHelperL array fuel ids rows = some rows' →
    ∃ left, SameButStatus (leftRows rows ids) left ∧
      rows' = if ids = [] then left else adjustSiblingIndexesL left (parentOfFirst rows ids)

/-- A folder without children is not numbered. -/
theorem adjust_of_empty {parent : UInt16} (h : ∀ row ∈ rows, row.parentId ≠ parent) :
    adjustSiblingIndexesL rows parent = rows :=
  (List.map_congr_left fun row hrow => if_neg (h row hrow)).trans (List.map_id _)

/-- The children of a folder are deleted, and nothing is left to be numbered. -/
theorem Deletes.children {fuel : Nat} (h : Deletes array fuel) (hrows : Rows rows)
    (hreturns : folderItemDeleteHelperL array fuel (folderItemGetChildrenL rows id) rows =
      some rows') : SameButStatus (leftRows rows (folderItemGetChildrenL rows id)) rows' := by
  have hexist : Exist rows (folderItemGetChildrenL rows id) := by
    intro child hchild
    obtain ⟨row, hrow, -, hid⟩ := mem_children.mp hchild
    exact ⟨row, hrow, hid⟩
  obtain ⟨left, hsame, rfl⟩ := h rows _ rows' hrows hexist hreturns
  split
  · exact hsame
  next hne =>
    have hparent : parentOfFirst rows (folderItemGetChildrenL rows id) = id := by
      cases hchildren : folderItemGetChildrenL rows id with
      | nil => exact absurd hchildren hne
      | cons child rest =>
        obtain ⟨row, hrow, hparent, hid⟩ := mem_children.mp (hchildren ▸ List.mem_cons_self)
        have hseek : seekFolderItem rows child = some row := by
          cases hseek : seekFolderItem rows child with
          | none => exact absurd hid (seekFolderItem_none hseek row hrow)
          | some row' =>
            obtain ⟨hrow', hid'⟩ := seekFolderItem_some hseek
            rw [hrows.eq_of_id hrow' hrow (hid'.trans hid.symm)]
        rw [parentOfFirst, hseek]
        exact hparent
    have hempty : ∀ row ∈ left, row.parentId ≠ id := by
      intro row hrow hin
      obtain ⟨row₀, hrow₀, heq⟩ := SameButStatus.exists_row hsame.symm hrow
      obtain ⟨-, -, hsameParent, -, -, -, -, -⟩ := FolderListRow.mk.inj heq
      obtain ⟨hmem, hnot⟩ := mem_leftRows.mp hrow₀
      exact hnot ⟨row₀.folderItemId, mem_children.mpr ⟨row₀, hmem, hsameParent.trans hin, rfl⟩,
        .self _⟩
    rw [hparent, adjust_of_empty hempty]
    exact hsame

/-- One item of the list. -/
theorem Deletes.item {fuel fuel' : Nat} (hdeletes : Deletes array fuel) (hrows : Rows rows)
    (h : SameButStatus (leftRows rows before) rows₁) (hexist : ∃ row ∈ rows, row.folderItemId = id)
    {parentId : UInt16}
    (hreturns : deleteItemL array (folderItemDeleteHelperL array fuel) fuel' parentId rows₁ id =
      some rows') : SameButStatus (leftRows rows (before ++ [id])) rows' := by
  rw [deleteItemL] at hreturns
  split at hreturns
  next hseek =>
    obtain rfl := Option.some.inj hreturns
    obtain ⟨row, hrow, rfl⟩ := hexist
    have hbelow : Below rows before row.folderItemId := by
      by_contra hnot
      obtain ⟨row', hrow', heq⟩ := h.exists_row (mem_leftRows.mpr ⟨hrow, hnot⟩)
      obtain ⟨-, hid, -, -, -, -, -, -⟩ := FolderListRow.mk.inj heq
      exact seekFolderItem_none hseek row' hrow' hid
    rwa [leftRows_absent hbelow]
  next row hseek =>
    obtain ⟨hrow, rfl⟩ := seekFolderItem_some hseek
    have hdeleted := h.deleteRow row.folderItemId
    have hrowsDeleted : Rows (deleteRow rows₁ row.folderItemId) :=
      ((hrows.leftRows before).of_sameButStatus h).deleteRow _
    rw [Option.bind_eq_bind, Option.bind_eq_some_iff] at hreturns
    obtain ⟨rows₂, hnested, hreturns⟩ := hreturns
    have hbelow : SameButStatus (leftRows rows (before ++ [row.folderItemId])) rows₂ := by
      rw [← leftRows_cons, hdeleted.children]
      refine (hdeleted.leftRows _).trans ?_
      split at hnested
      next => exact hdeletes.children hrowsDeleted hnested
      next hfeed =>
        obtain rfl := Option.some.inj hnested
        -- A feed has no children.
        have hnone : folderItemGetChildrenL (deleteRow rows₁ row.folderItemId) row.folderItemId =
            [] := by
          rw [List.eq_nil_iff_forall_not_mem]
          intro child hchild
          obtain ⟨r, hr, hparent, -⟩ := mem_children.mp hchild
          exact hfeed (((hrows.leftRows before).of_sameButStatus h).folders r
            (mem_deleteRow.mp hr).1 row hrow hparent.symm)
        rw [hnone, leftRows_nil]
    split at hreturns
    next => exact hbelow.trans (sameButStatus_raiseStatus hreturns).symm
    next =>
      obtain rfl := Option.some.inj hreturns
      exact hbelow

/-- The items of the list. -/
theorem Deletes.items {fuel fuel' : Nat} (hdeletes : Deletes array fuel) (hrows : Rows rows)
    (h : SameButStatus (leftRows rows before) rows₁) (hexist : Exist rows after)
    {parentId : UInt16}
    (hreturns : after.foldlM (deleteItemL array (folderItemDeleteHelperL array fuel) fuel' parentId)
      rows₁ = some rows') : SameButStatus (leftRows rows (before ++ after)) rows' := by
  induction after generalizing before rows₁ with
  | nil =>
    obtain rfl := Option.some.inj hreturns
    rwa [List.append_nil]
  | cons id after ih =>
    rw [List.foldlM_cons, Option.bind_eq_bind, Option.bind_eq_some_iff] at hreturns
    obtain ⟨rows₂, hitem, hreturns⟩ := hreturns
    rw [List.append_cons]
    exact ih (hdeletes.item hrows h (hexist id List.mem_cons_self) hitem)
      (fun other hother => hexist other (List.mem_cons_of_mem id hother)) hreturns

/-- A deletion that returns leaves the rows that are not below the items. -/
theorem deletes (array : List UInt16) (fuel : Nat) : Deletes array fuel := by
  induction fuel with
  | zero =>
    intro rows ids rows' _ _ hreturns
    cases hreturns
  | succ fuel ih =>
    intro rows ids rows' hrows hexist hreturns
    rw [folderItemDeleteHelperL] at hreturns
    by_cases hnil : ids = []
    · rw [if_pos hnil] at hreturns
      obtain rfl := Option.some.inj hreturns
      refine ⟨rows, ?_, (if_pos hnil).symm⟩
      rw [hnil, leftRows_nil]
      rfl
    · rw [if_neg hnil, Option.bind_eq_bind, Option.bind_eq_some_iff] at hreturns
      obtain ⟨left, hitems, hreturns⟩ := hreturns
      obtain rfl := Option.some.inj hreturns
      have hstart : SameButStatus (leftRows rows []) rows := by
        rw [leftRows_nil]
        rfl
      exact ⟨left, ih.items hrows hstart hexist hitems, (if_neg hnil).symm⟩

/-! ## Feeds -/

section Projection

variable {deleteT : List UInt16 → FolderTables → Option FolderTables}
  {deleteR : List UInt16 → List FolderListRow → Option (List FolderListRow)}

/-- The rows of one item are deleted as without the feeds. -/
theorem folderList_deleteEntryL
    (hdelete : ∀ ids tables, (deleteT ids tables).map (·.folderList) = deleteR ids tables.folderList)
    (array : List UInt16) (fuel : Nat) (parentId : UInt16) (state : FolderTables × List UInt16)
    (id : UInt16) : (deleteEntryL array deleteT fuel parentId state id).map (·.1.folderList) =
      deleteItemL array deleteR fuel parentId state.1.folderList id := by
  rw [deleteEntryL, deleteItemL]
  cases seekFolderItem state.1.folderList id with
  | none => rfl
  | some row =>
    have hrows : (if row.isFolder then
        deleteT (folderItemGetChildrenL (deleteRow state.1.folderList id) id)
          { state.1 with folderList := deleteRow state.1.folderList id }
        else some { state.1 with folderList := deleteRow state.1.folderList id }).map
          (·.folderList) = if row.isFolder then
            deleteR (folderItemGetChildrenL (deleteRow state.1.folderList id) id)
              (deleteRow state.1.folderList id)
          else some (deleteRow state.1.folderList id) := by
      split
      · exact hdelete _ _
      · rfl
    dsimp only
    rw [← hrows]
    cases (if row.isFolder then
        deleteT (folderItemGetChildrenL (deleteRow state.1.folderList id) id)
          { state.1 with folderList := deleteRow state.1.folderList id }
        else some { state.1 with folderList := deleteRow state.1.folderList id }) with
    | none => rfl
    | some tables =>
      simp only [Option.map_some, Option.bind_eq_bind, Option.bind_some]
      cases (if row.status ≠ 0 ∧ id ∈ array then raiseStatus fuel parentId tables.folderList
        else some tables.folderList) with
      | none => rfl
      | some rows => rfl

theorem folderList_deleteEntries
    (hdelete : ∀ ids tables, (deleteT ids tables).map (·.folderList) = deleteR ids tables.folderList)
    (array : List UInt16) (fuel : Nat) (parentId : UInt16) (ids : List UInt16)
    (state : FolderTables × List UInt16) :
    (ids.foldlM (deleteEntryL array deleteT fuel parentId) state).map (·.1.folderList) =
      ids.foldlM (deleteItemL array deleteR fuel parentId) state.1.folderList := by
  induction ids generalizing state with
  | nil => rfl
  | cons id ids ih =>
    rw [List.foldlM_cons, List.foldlM_cons, ← folderList_deleteEntryL hdelete]
    cases deleteEntryL array deleteT fuel parentId state id with
    | none => rfl
    | some state' => exact ih state'

end Projection

theorem folderList_purge (feedIds : List UInt16) (tables : FolderTables) :
    (feedIds.foldl purgeFeedIfNotReferencedL tables).folderList = tables.folderList := by
  induction feedIds generalizing tables with
  | nil => rfl
  | cons feedId feedIds ih =>
    rw [List.foldl_cons, ih, purgeFeedIfNotReferencedL]
    split <;> rfl

/-- The rows of both tables are deleted as the rows of one. -/
theorem folderList_deleteTablesL (array : List UInt16) (fuel : Nat) (ids : List UInt16)
    (tables : FolderTables) : (deleteTablesL array fuel ids tables).map (·.folderList) =
      folderItemDeleteHelperL array fuel ids tables.folderList := by
  induction fuel generalizing ids tables with
  | zero => rfl
  | succ fuel ih =>
    rw [deleteTablesL, folderItemDeleteHelperL]
    by_cases hnil : ids = []
    · rw [if_pos hnil, if_pos hnil]
      rfl
    · rw [if_neg hnil, if_neg hnil]
      have hrun := folderList_deleteEntries ih array fuel (parentOfFirst tables.folderList ids) ids
        (tables, [])
      dsimp only at hrun ⊢
      rw [← hrun]
      cases ids.foldlM (deleteEntryL array (deleteTablesL array fuel) fuel
        (parentOfFirst tables.folderList ids)) (tables, []) with
      | none => rfl
      | some state => exact congrArg some (folderList_purge state.2 _)

/-- Each feed is referred to, or is among those that might have to go. -/
structure Waits (tables : FolderTables) (waiting : UInt16 → Prop) : Prop where
  nodup : (tables.folderList.map (·.folderItemId)).Nodup
  referenced : ∀ feed ∈ tables.feeds,
    (∃ row ∈ tables.folderList, row.feedId = feed.feedId) ∨ waiting feed.feedId
  feedless : ∀ row ∈ tables.folderList, row.isFolder = true → row.feedId = 0
  feeds : ∀ feed ∈ tables.feeds, feed.feedId ≠ 0

section

variable {tables tables' : FolderTables} {waiting : UInt16 → Prop}

/-- Statuses and orders do not matter. -/
theorem Waits.of_rows (h : Waits tables waiting)
    (hids : rows'.map (·.folderItemId) = tables.folderList.map (·.folderItemId))
    (hrows : ∀ row ∈ rows', ∃ row₀ ∈ tables.folderList, row₀.isFolder = row.isFolder ∧
      row₀.feedId = row.feedId)
    (hkept : ∀ row₀ ∈ tables.folderList, ∃ row ∈ rows', row.feedId = row₀.feedId) :
    Waits { tables with folderList := rows' } waiting where
  nodup := by
    rw [hids]
    exact h.nodup
  referenced feed hfeed := by
    refine (h.referenced feed hfeed).imp_left ?_
    rintro ⟨row, hrow, hid⟩
    obtain ⟨row', hrow', hsame⟩ := hkept row hrow
    exact ⟨row', hrow', hsame.trans hid⟩
  feedless row hrow hfolder := by
    obtain ⟨row₀, hrow₀, hkind, hid⟩ := hrows row hrow
    rw [← hid]
    exact h.feedless row₀ hrow₀ (hkind.trans hfolder)
  feeds := h.feeds

theorem Waits.of_sameButStatus (h : Waits tables waiting)
    (hsame : SameButStatus tables.folderList rows') :
    Waits { tables with folderList := rows' } waiting := by
  refine h.of_rows hsame.ids (fun row hrow => ?_) fun row hrow => ?_
  · obtain ⟨row₀, hrow₀, heq⟩ := SameButStatus.exists_row hsame.symm hrow
    exact ⟨row₀, hrow₀, (fields_of_withoutStatus heq).2⟩
  · obtain ⟨row', hrow', heq⟩ := hsame.exists_row hrow
    exact ⟨row', hrow', (fields_of_withoutStatus heq).2.2⟩

theorem Waits.of_samePlace (h : Waits tables waiting)
    (hsame : SamePlace tables.folderList rows') :
    Waits { tables with folderList := rows' } waiting := by
  refine h.of_rows hsame.shape.ids (fun row hrow => ?_) fun row hrow => ?_
  · obtain ⟨row₀, hrow₀, order, status, rfl⟩ := hsame.exists_row' hrow
    exact ⟨row₀, hrow₀, rfl, rfl⟩
  · obtain ⟨order, status, hmem⟩ := hsame.exists_row hrow
    exact ⟨_, hmem, rfl⟩

/-- The feed of a row that is deleted might have to go. -/
theorem Waits.deleteRow (h : Waits tables waiting) {row : FolderListRow}
    (hseek : seekFolderItem tables.folderList id = some row) :
    Waits { tables with folderList := deleteRow tables.folderList id }
      fun feedId => waiting feedId ∨ (row.isFolder = false ∧ feedId = row.feedId) where
  nodup := h.nodup.sublist (List.filter_sublist.map _)
  referenced feed hfeed := by
    rcases h.referenced feed hfeed with ⟨r, hr, hid⟩ | hwaits
    · by_cases hgone : r.folderItemId = id
      · obtain ⟨hrow, hrowId⟩ := seekFolderItem_some hseek
        obtain rfl := List.inj_on_of_nodup_map h.nodup hr hrow (hgone.trans hrowId.symm)
        refine .inr (.inr ⟨?_, hid.symm⟩)
        by_contra hfolder
        exact h.feeds feed hfeed
          (hid.symm.trans (h.feedless r hr (Bool.eq_true_of_not_eq_false hfolder)))
      · exact .inl ⟨r, mem_deleteRow.mpr ⟨hr, hgone⟩, hid⟩
    · exact .inr (.inl hwaits)
  feedless r hr := h.feedless r (mem_deleteRow.mp hr).1
  feeds := h.feeds

theorem mem_insertInOrder {feedIds : List UInt16} {feedId other : UInt16} :
    other ∈ insertInOrder feedIds feedId ↔ other ∈ feedIds ∨ other = feedId := by
  rw [insertInOrder]
  split
  next hmem =>
    constructor
    · exact .inl
    · rintro (h | rfl)
      · exact h
      · exact hmem
  next => rw [List.mem_orderedInsert, or_comm]

theorem Waits.mono (h : Waits tables waiting) {waiting' : UInt16 → Prop}
    (hmono : ∀ feedId, waiting feedId → waiting' feedId) : Waits tables waiting' :=
  ⟨h.nodup, fun feed hfeed => (h.referenced feed hfeed).imp_right (hmono _), h.feedless, h.feeds⟩

/-- A feed that might have to go goes or is referred to. -/
theorem Waits.purge {feedIds : List UInt16}
    (h : Waits tables fun feedId => waiting feedId ∨ feedId ∈ feedIds) :
    Waits (feedIds.foldl purgeFeedIfNotReferencedL tables) waiting := by
  induction feedIds generalizing tables with
  | nil => exact h.mono fun feedId hor => hor.resolve_right List.not_mem_nil
  | cons feedId feedIds ih =>
    refine ih ?_
    rw [purgeFeedIfNotReferencedL]
    split
    next hreferred =>
      obtain ⟨row, hrow, hid⟩ := List.any_eq_true.mp hreferred
      refine ⟨h.nodup, fun feed hfeed => ?_, h.feedless, h.feeds⟩
      rcases h.referenced feed hfeed with hrefers | hwaits | hmem
      · exact .inl hrefers
      · exact .inr (.inl hwaits)
      · rcases List.mem_cons.mp hmem with heq | hmem
        · exact .inl ⟨row, hrow, (of_decide_eq_true hid).trans heq.symm⟩
        · exact .inr (.inr hmem)
    next =>
      refine ⟨h.nodup, fun feed hfeed => ?_, h.feedless, fun feed hfeed => ?_⟩
      · obtain ⟨hfeed, hne⟩ := List.mem_filter.mp hfeed
        rcases h.referenced feed hfeed with hrefers | hwaits | hmem
        · exact .inl hrefers
        · exact .inr (.inl hwaits)
        · exact .inr (.inr ((List.mem_cons.mp hmem).resolve_left (of_decide_eq_true hne)))
      · exact h.feeds feed (List.mem_filter.mp hfeed).1

/-- `FolderItemDeleteL` lets no feed wait. -/
def Purges (array : List UInt16) (fuel : Nat) : Prop :=
  ∀ (ids : List UInt16) (tables tables' : FolderTables) (waiting : UInt16 → Prop),
    Waits tables waiting → deleteTablesL array fuel ids tables = some tables' → Waits tables' waiting

/-- One item of the list. -/
theorem Purges.item {fuel fuel' : Nat} (hpurges : Purges array fuel) {parentId : UInt16}
    {state state' : FolderTables × List UInt16}
    (h : Waits state.1 fun feedId => waiting feedId ∨ feedId ∈ state.2)
    (hreturns : deleteEntryL array (deleteTablesL array fuel) fuel' parentId state id =
      some state') : Waits state'.1 fun feedId => waiting feedId ∨ feedId ∈ state'.2 := by
  rw [deleteEntryL] at hreturns
  split at hreturns
  next =>
    obtain rfl := Option.some.inj hreturns
    exact h
  next row hseek =>
    simp only [Option.bind_eq_bind, Option.bind_eq_some_iff] at hreturns
    obtain ⟨tables₂, hnested, rows, hraise, hreturns⟩ := hreturns
    obtain rfl := Option.some.inj hreturns
    have hdeleted : Waits { state.1 with folderList := Feeds.deleteRow state.1.folderList id }
        fun feedId => waiting feedId ∨ feedId ∈ (if row.isFolder then state.2
          else insertInOrder state.2 row.feedId) := by
      refine (h.deleteRow hseek).mono fun feedId hor => ?_
      rcases hor with (hwaits | hmem) | ⟨hfeed, heq⟩
      · exact .inl hwaits
      · right
        split
        · exact hmem
        · exact mem_insertInOrder.mpr (.inl hmem)
      · right
        rw [if_neg (by rw [hfeed]; exact Bool.false_ne_true)]
        exact mem_insertInOrder.mpr (.inr heq)
    have hbelow : Waits tables₂ fun feedId => waiting feedId ∨ feedId ∈ (if row.isFolder then
        state.2 else insertInOrder state.2 row.feedId) := by
      split at hnested
      next => exact hpurges _ _ _ _ hdeleted hnested
      next =>
        obtain rfl := Option.some.inj hnested
        exact hdeleted
    refine hbelow.of_sameButStatus ?_
    split at hraise
    next => exact (sameButStatus_raiseStatus hraise).symm
    next =>
      obtain rfl := Option.some.inj hraise
      rfl

theorem Purges.items {fuel fuel' : Nat} (hpurges : Purges array fuel) {parentId : UInt16}
    {state state' : FolderTables × List UInt16}
    (h : Waits state.1 fun feedId => waiting feedId ∨ feedId ∈ state.2)
    (hreturns : ids.foldlM (deleteEntryL array (deleteTablesL array fuel) fuel' parentId) state =
      some state') : Waits state'.1 fun feedId => waiting feedId ∨ feedId ∈ state'.2 := by
  induction ids generalizing state with
  | nil =>
    obtain rfl := Option.some.inj hreturns
    exact h
  | cons id ids ih =>
    rw [List.foldlM_cons, Option.bind_eq_bind, Option.bind_eq_some_iff] at hreturns
    obtain ⟨state₁, hitem, hreturns⟩ := hreturns
    exact ih (hpurges.item h hitem) hreturns

theorem purges (array : List UInt16) (fuel : Nat) : Purges array fuel := by
  induction fuel with
  | zero =>
    intro ids tables tables' waiting _ hreturns
    cases hreturns
  | succ fuel ih =>
    intro ids tables tables' waiting h hreturns
    rw [deleteTablesL] at hreturns
    split at hreturns
    next =>
      obtain rfl := Option.some.inj hreturns
      exact h
    next =>
      rw [Option.bind_eq_bind, Option.bind_eq_some_iff] at hreturns
      obtain ⟨state, hitems, hreturns⟩ := hreturns
      obtain rfl := Option.some.inj hreturns
      have hstart : Waits (tables, ([] : List UInt16)).1
          fun feedId => waiting feedId ∨ feedId ∈ (tables, ([] : List UInt16)).2 :=
        h.mono fun _ => .inl
      have hstate := ih.items hstart hitems
      exact (hstate.of_samePlace (samePlace_adjust _ _)).purge

end

/-! ## The call -/

/-- The table stays a tree without what is below some items. -/
theorem folderTree_leftRows (htree : FolderTree rows) (ids : List UInt16) :
    FolderTree (leftRows rows ids) where
  nodup := by
    classical
    exact htree.nodup.sublist (List.filter_sublist.map _)
  ne_root row hrow := htree.ne_root row (leftRows_subset hrow)
  parents row hrow hne := by
    obtain ⟨hmem, hnot⟩ := mem_leftRows.mp hrow
    obtain ⟨folder, hfolder, hid, hkind⟩ := htree.parents row hmem hne
    refine ⟨folder, mem_leftRows.mpr ⟨hfolder, ?_⟩, hid, hkind⟩
    rintro ⟨c, hc, hchain⟩
    exact hnot ⟨c, hc, .up hmem (hid ▸ hchain)⟩
  rooted row hrow := by
    obtain ⟨hmem, hnot⟩ := mem_leftRows.mp hrow
    have hrooted := htree.rooted row hmem
    generalize row.folderItemId = id at hrooted hnot
    generalize kRootFolderId = root at hrooted
    induction hrooted with
    | self => exact .self _
    | @up above root habove _ ih =>
      refine .up (mem_leftRows.mpr ⟨habove, hnot⟩) (ih ?_)
      rintro ⟨c, hc, hchain⟩
      exact hnot ⟨c, hc, .up habove hchain⟩

/-- Items are deleted. -/
theorem Placed.delete {tables tables' : FolderTables} (h : Placed tables)
    (hnumbered : Numbered tables.folderList) (hexist : Exist tables.folderList ids)
    (hkeeps : (Call.delete ids).Keeps tables.folderList) {fuel : Nat}
    (hreturns : deleteTablesL array fuel ids tables = some tables') :
    Placed tables' ∧ Numbered tables'.folderList := by
  have hwaits : Waits tables fun _ => False :=
    ⟨h.tree.nodup, fun feed hfeed => .inl (h.referenced feed hfeed), h.feedless, h.feeds⟩
  have hpurged := purges array fuel ids tables tables' _ hwaits hreturns
  have hreferenced : ∀ feed ∈ tables'.feeds, ∃ row ∈ tables'.folderList, row.feedId = feed.feedId :=
    fun feed hfeed => (hpurged.referenced feed hfeed).resolve_right not_false
  have hrows := folderList_deleteTablesL array fuel ids tables
  rw [hreturns, Option.map_some] at hrows
  obtain ⟨left, hsame, hleft⟩ :=
    deletes array fuel _ ids _ h.tree.rows hexist hrows.symm
  have htree : FolderTree left := (folderTree_leftRows h.tree ids).of_sameButStatus hsame
  by_cases hnil : ids = []
  · rw [if_pos hnil] at hleft
    rw [hnil, leftRows_nil] at hsame
    refine ⟨⟨hleft ▸ htree, hreferenced, hpurged.feedless, hpurged.feeds⟩, ?_⟩
    intro aFolderListId aParentId
    rw [hleft, ← hsame.orders]
    exact hnumbered aFolderListId aParentId
  · rw [if_neg hnil] at hleft
    obtain ⟨hone, hgap⟩ := hkeeps hnil
    refine ⟨⟨?_, hreferenced, hpurged.feedless, hpurged.feeds⟩, ?_⟩
    · rw [hleft]
      exact (samePlace_adjust left _).shape.folderTree htree
    · rw [hleft]
      refine numbered_adjust htree.nodup (hsame.oneList (fun _ => Iff.rfl) ?_) ?_
      · intro row hrow row' hrow' hparent hparent'
        obtain ⟨hmem, hnot⟩ := mem_leftRows.mp hrow
        obtain ⟨hmem', hnot'⟩ := mem_leftRows.mp hrow'
        exact hone row hmem row' hmem' ⟨hparent, fun c hc hchain => hnot ⟨c, hc, hchain⟩⟩
          ⟨hparent', fun c hc hchain => hnot' ⟨c, hc, hchain⟩⟩
      · classical
        intro aFolderListId other hother
        have hstay := numbers_stay hnumbered hgap hother aFolderListId
        rw [← hsame.orders]
        refine cast (congrArg (fun l => Numbers (List.map _ l)) ?_) hstay
        rw [childrenIn, childrenIn, leftRows, List.filter_filter, List.filter_filter]
        refine List.filter_congr fun row _ => ?_
        rw [Bool.and_comm]
        exact congrArg (_ && ·) (decide_eq_decide.mpr Iff.rfl)

end

end SymbianWeb.Feeds
