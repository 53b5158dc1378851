import SymbianWeb.Feeds.SiblingOrders

/-!
# Adding an item, and moving items in their folder

Both calls change the sibling orders of one folder only, and one of them adds a row to it. What does
not depend on the orders is `Placed`; it is kept where rows change in their order and status only
(`Placed.of_samePlace`).
-/

set_option autoImplicit false

namespace SymbianWeb.Feeds

open Numbering
open XmlContent (Text)
open Favourites.Store (CharRules)

/-! ## What does not depend on the orders -/

/-- The rows are those of another table, with other orders and statuses. -/
def SamePlace (rows rows' : List FolderListRow) : Prop :=
  ∃ edit : FolderListRow → FolderListRow, rows' = rows.map edit ∧
    ∀ row, ∃ order status, edit row = { row with siblingOrder := order, status := status }

namespace SamePlace

variable {rows rows' rows'' : List FolderListRow}

theorem refl (rows : List FolderListRow) : SamePlace rows rows :=
  ⟨id, (List.map_id rows).symm, fun row => ⟨row.siblingOrder, row.status, rfl⟩⟩

theorem trans (h : SamePlace rows rows') (h' : SamePlace rows' rows'') : SamePlace rows rows'' := by
  obtain ⟨edit, rfl, hedit⟩ := h
  obtain ⟨edit', rfl, hedit'⟩ := h'
  refine ⟨edit' ∘ edit, List.map_map, fun row => ?_⟩
  obtain ⟨order, status, heq⟩ := hedit row
  obtain ⟨order', status', heq'⟩ := hedit' (edit row)
  exact ⟨order', status', by rw [Function.comp_apply, heq', heq]⟩

theorem shape (h : SamePlace rows rows') : SameShape rows rows' := by
  obtain ⟨edit, hrows, hedit⟩ := h
  refine ⟨edit, hrows, fun row => ?_⟩
  obtain ⟨order, status, heq⟩ := hedit row
  rw [heq]
  exact ⟨rfl, rfl, rfl⟩

/-- Each row is there in its place. -/
theorem exists_row (h : SamePlace rows rows') {row : FolderListRow} (hrow : row ∈ rows) :
    ∃ order status, { row with siblingOrder := order, status := status } ∈ rows' := by
  obtain ⟨edit, rfl, hedit⟩ := h
  obtain ⟨order, status, heq⟩ := hedit row
  exact ⟨order, status, heq ▸ List.mem_map_of_mem hrow⟩

theorem exists_row' (h : SamePlace rows rows') {row' : FolderListRow} (hrow : row' ∈ rows') :
    ∃ row ∈ rows, ∃ order status, row' = { row with siblingOrder := order, status := status } := by
  obtain ⟨edit, rfl, hedit⟩ := h
  obtain ⟨row, hmem, rfl⟩ := List.mem_map.mp hrow
  exact ⟨row, hmem, hedit row⟩

end SamePlace

theorem samePlace_setSiblingOrder (rows : List FolderListRow) (id : UInt16) (i : Nat) :
    SamePlace rows (setSiblingOrder rows id i) := by
  refine ⟨_, rfl, fun row => ?_⟩
  split
  · exact ⟨i, row.status, rfl⟩
  · exact ⟨row.siblingOrder, row.status, rfl⟩

theorem samePlace_setSiblingOrders (rows : List FolderListRow) (ids : List UInt16) (first : Nat) :
    SamePlace rows (setSiblingOrders rows ids first) := by
  rw [setSiblingOrders]
  generalize ids.zipIdx = items
  induction items generalizing rows with
  | nil => exact .refl rows
  | cons item items ih => exact (samePlace_setSiblingOrder rows item.1 _).trans (ih _)

theorem samePlace_adjust (rows : List FolderListRow) (aParentId : UInt16) :
    SamePlace rows (adjustSiblingIndexesL rows aParentId) := by
  refine ⟨_, rfl, fun row => ?_⟩
  split
  · exact ⟨_, row.status, rfl⟩
  · exact ⟨row.siblingOrder, row.status, rfl⟩

theorem samePlace_hole (rows : List FolderListRow) (aParentId : UInt16) (index size : Nat) :
    SamePlace rows (createSiblingIndexHoleL rows aParentId index size) := by
  refine ⟨_, rfl, fun row => ?_⟩
  split
  · exact ⟨_, row.status, rfl⟩
  · exact ⟨row.siblingOrder, row.status, rfl⟩

/-- An acyclic table, whose feeds are referred to by items that are no folders. -/
structure Placed (tables : FolderTables) : Prop where
  tree : FolderTree tables.folderList
  referenced : ∀ feed ∈ tables.feeds, ∃ row ∈ tables.folderList, row.feedId = feed.feedId
  feedless : ∀ row ∈ tables.folderList, row.isFolder = true → row.feedId = 0
  feeds : ∀ feed ∈ tables.feeds, feed.feedId ≠ 0

theorem Placed.of_samePlace {tables : FolderTables} (h : Placed tables)
    {rows : List FolderListRow} (hsame : SamePlace tables.folderList rows) :
    Placed { tables with folderList := rows } where
  tree := hsame.shape.folderTree h.tree
  referenced feed hfeed := by
    obtain ⟨row, hrow, hid⟩ := h.referenced feed hfeed
    obtain ⟨order, status, hmem⟩ := hsame.exists_row hrow
    exact ⟨_, hmem, hid⟩
  feedless _ hrow hfolder := by
    obtain ⟨row, hmem, order, status, rfl⟩ := hsame.exists_row' hrow
    exact h.feedless row hmem hfolder
  feeds := h.feeds

/-- What is meant follows. -/
theorem Placed.tablesRight {tables : FolderTables} (h : Placed tables)
    (hnumbered : Numbered tables.folderList) : TablesRight tables where
  numbered := hnumbered
  parents := h.tree.parents
  acyclic _ hrow := h.tree.not_onChain_parent hrow
  referenced := h.referenced

/-! ## Adding an item -/

section Add

variable {tables tables' : FolderTables} {item : NewItem} {rules : CharRules}

/-- Either there is no title, or the item is the first one in its folder. -/
theorem folderItemAddL_cases (h : folderItemAddL rules tables item = some tables') :
    (safeTitle item.aTitle = [] ∧ tables' = { tables with
        folderList := createSiblingIndexHoleL tables.folderList item.aParentEntryId 0 1 }) ∨
      ∃ title, tables' = FolderTables.store { tables with
        folderList := createSiblingIndexHoleL tables.folderList item.aParentEntryId 0 1 }
        { item with aSiblingIndex := 0 } title := by
  rw [folderItemAddL] at h
  by_cases hnil : safeTitle item.aTitle = []
  · refine .inl ⟨hnil, ?_⟩
    rw [folderItemAddHelperL, validateFeedFolderTitleL, hnil] at h
    exact (Option.some.inj h).symm
  · have hne : safeTitle ({ item with aSiblingIndex := 0 } : NewItem).aTitle ≠ [] := hnil
    rw [folderItemAddHelperL_eq hne, Option.map_eq_some_iff] at h
    obtain ⟨title, -, heq⟩ := h
    exact .inr ⟨title, heq.symm⟩

/-- A row that is added to a tree, in a folder of it. -/
theorem FolderTree.append {rows : List FolderListRow} (h : FolderTree rows) {row : FolderListRow}
    (hroot : row.folderItemId ≠ kRootFolderId)
    (hfresh : ∀ other ∈ rows, other.folderItemId ≠ row.folderItemId)
    (hparent : IsFolder rows row.parentId) : FolderTree (rows ++ [row]) := by
  have hchain : ∀ {a b : UInt16}, OnChain rows a b → OnChain (rows ++ [row]) a b := fun hup =>
    hup.of_parents fun other hother => ⟨other, List.mem_append_left _ hother, rfl, rfl⟩
  have hfolder : ∀ id, IsFolder rows id → IsFolder (rows ++ [row]) id := by
    intro id hid hne
    obtain ⟨folder, hmem, hsame⟩ := hid hne
    exact ⟨folder, List.mem_append_left _ hmem, hsame⟩
  refine ⟨?_, fun other hother => ?_, fun other hother => ?_, fun other hother => ?_⟩
  · rw [List.map_append, List.nodup_append]
    refine ⟨h.nodup, List.nodup_singleton _, fun id hid id' hid' heq => ?_⟩
    obtain ⟨other, hother, rfl⟩ := List.mem_map.mp hid
    rw [List.map_singleton, List.mem_singleton] at hid'
    exact hfresh other hother (heq.trans hid')
  · rcases List.mem_append.mp hother with hother | hother
    · exact h.ne_root other hother
    · rw [List.mem_singleton.mp hother]
      exact hroot
  · rcases List.mem_append.mp hother with hother | hother
    · exact hfolder _ (h.parents other hother)
    · rw [List.mem_singleton.mp hother]
      exact hfolder _ hparent
  · rcases List.mem_append.mp hother with hother | hother
    · exact hchain (h.rooted other hother)
    · rw [List.mem_singleton.mp hother]
      exact .up (List.mem_append_right _ List.mem_cons_self) (hchain (h.onChain_root hparent))

/-- A folder keeps its place. -/
theorem IsFolder.of_samePlace {rows rows' : List FolderListRow} {id : UInt16}
    (h : IsFolder rows id) (hsame : SamePlace rows rows') : IsFolder rows' id := by
  intro hne
  obtain ⟨folder, hmem, hid, hfolder⟩ := h hne
  obtain ⟨order, status, hmem'⟩ := hsame.exists_row hmem
  exact ⟨_, hmem', hid, hfolder⟩

/-- A new item has its place. -/
theorem Placed.store (h : Placed tables) {title : Text}
    (hallowed : (Call.add item).Allowed tables) : Placed (tables.store item title) := by
  obtain ⟨hparent, hroot, hfresh, hfeedId, -⟩ := hallowed
  refine ⟨h.tree.append hroot hfresh hparent, fun feed hfeed => ?_, fun row hrow hfolder => ?_,
    fun feed hfeed => ?_⟩
  · rw [FolderTables.store] at hfeed
    have hold : feed ∈ tables.feeds →
        ∃ row ∈ (tables.store item title).folderList, row.feedId = feed.feedId := by
      intro hmem
      obtain ⟨row, hrow, hid⟩ := h.referenced feed hmem
      exact ⟨row, List.mem_append_left _ hrow, hid⟩
    dsimp only at hfeed
    split at hfeed
    next => exact hold hfeed
    next hisFeed =>
      rcases List.mem_append.mp hfeed with hfeed | hfeed
      · exact hold hfeed
      · refine ⟨commitFolderListL item title, List.mem_append_right _ List.mem_cons_self, ?_⟩
        rw [List.mem_singleton.mp hfeed]
        exact if_neg hisFeed
  · rcases List.mem_append.mp hrow with hrow | hrow
    · exact h.feedless row hrow hfolder
    · rw [List.mem_singleton.mp hrow] at hfolder ⊢
      exact if_pos hfolder
  · rw [FolderTables.store] at hfeed
    dsimp only at hfeed
    split at hfeed
    next => exact h.feeds feed hfeed
    next =>
      rcases List.mem_append.mp hfeed with hfeed | hfeed
      · exact h.feeds feed hfeed
      · rw [List.mem_singleton.mp hfeed]
        exact hfeedId

/-- A hole leaves a call that is allowed allowed. -/
theorem Call.Allowed.of_hole (h : (Call.add item).Allowed tables) :
    (Call.add { item with aSiblingIndex := 0 }).Allowed { tables with
      folderList := createSiblingIndexHoleL tables.folderList item.aParentEntryId 0 1 } := by
  obtain ⟨hparent, hroot, hfresh, hfeedId, hfreshFeed⟩ := h
  have hsame := samePlace_hole tables.folderList item.aParentEntryId 0 1
  refine ⟨hparent.of_samePlace hsame, hroot, fun row hrow => ?_, hfeedId, hfreshFeed⟩
  obtain ⟨row, hmem, order, status, rfl⟩ := hsame.exists_row' hrow
  exact hfresh row hmem

/-- Behind a new first item the numbers go on from 1. -/
theorem numbered_append {rows : List FolderListRow} (htree : FolderTree rows)
    (hnumbered : Numbered rows) {row : FolderListRow} (horder : row.siblingOrder = 0)
    (hone : ∀ other ∈ rows, other.parentId = row.parentId →
      other.folderListId = row.folderListId) :
    Numbered (createSiblingIndexHoleL rows row.parentId 0 1 ++ [row]) := by
  have honeList : OneList rows fun other => other.parentId = row.parentId := by
    intro other hother other' hother' hparent hparent'
    rw [hone other hother hparent, hone other' hother' hparent']
  intro aFolderListId aParentId
  rw [childrenIn, List.filter_append, ← childrenIn, List.map_append]
  by_cases hparent : aParentId = row.parentId
  · subst hparent
    rw [childrenIn_hole htree.nodup honeList hnumbered]
    by_cases hlist : row.folderListId = aFolderListId
    · rw [List.filter_cons, if_pos (decide_eq_true ⟨hlist, rfl⟩)]
      refine (hnumbered aFolderListId row.parentId).insert (Nat.zero_le _) ?_
      rw [List.filter_nil, List.map_singleton, horder]
      exact List.Perm.refl _
    · -- The children in other lists are none.
      have hnone : childrenIn rows aFolderListId row.parentId = [] := by
        rw [childrenIn, List.filter_eq_nil_iff]
        intro other hother hin
        obtain ⟨hlist', hparent'⟩ := of_decide_eq_true hin
        exact hlist ((hone other hother hparent').symm.trans hlist')
      rw [hnone, List.filter_cons, if_neg (by simpa using hlist)]
      exact numbers_nil
  · rw [childrenIn_hole_other rows 0 1 aFolderListId hparent,
      List.filter_cons, if_neg (by simpa using fun _ => Ne.symm hparent), List.filter_nil,
      List.map_nil, List.append_nil]
    exact hnumbered aFolderListId aParentId

/-- An item is added. -/
theorem Placed.add (h : Placed tables) (hnumbered : Numbered tables.folderList)
    (hallowed : (Call.add item).Allowed tables) (hkeeps : (Call.add item).Keeps tables.folderList)
    (hreturns : folderItemAddL rules tables item = some tables') :
    Placed tables' ∧ Numbered tables'.folderList := by
  rcases folderItemAddL_cases hreturns with ⟨hnil, rfl⟩ | ⟨title, rfl⟩
  · -- Without a title there are no children either, and nothing is shifted.
    have hnone : ∀ row ∈ tables.folderList, row.parentId ≠ item.aParentEntryId :=
      fun row hrow hparent => (hkeeps row hrow hparent).1 hnil
    have hsame : createSiblingIndexHoleL tables.folderList item.aParentEntryId 0 1 =
        tables.folderList :=
      (List.map_congr_left fun row hrow => if_neg (hnone row hrow)).trans (List.map_id _)
    rw [hsame]
    exact ⟨h, hnumbered⟩
  · refine ⟨(h.of_samePlace (samePlace_hole _ _ 0 1)).store hallowed.of_hole, ?_⟩
    have hone : ∀ row ∈ tables.folderList, row.parentId = item.aParentEntryId →
        row.folderListId = item.aFolderListId := fun row hrow hparent => (hkeeps row hrow hparent).2
    exact @numbered_append tables.folderList h.tree hnumbered
      (commitFolderListL { item with aSiblingIndex := 0 } title) rfl hone

end Add

/-! ## Moving items in their folder -/

section Move

variable {rows : List FolderListRow} {ids : List UInt16}

/-- The orders that the items of a list without duplicates get. -/
theorem setSiblingOrders_eq (hnodup : ids.Nodup) (rows : List FolderListRow) (first : Nat) :
    setSiblingOrders rows ids first = rows.map fun row =>
      if row.folderItemId ∈ ids then { row with siblingOrder := first + ids.idxOf row.folderItemId }
      else row := by
  have hgeneral : ∀ start, (ids.zipIdx start).foldl
      (fun rows item => setSiblingOrder rows item.1 (first + item.2)) rows = rows.map fun row =>
        if row.folderItemId ∈ ids then
          { row with siblingOrder := first + (start + ids.idxOf row.folderItemId) }
        else row := by
    induction ids generalizing rows with
    | nil =>
      intro start
      exact (List.map_id rows).symm
    | cons id ids ih =>
      obtain ⟨hnot, hnodup⟩ := List.nodup_cons.mp hnodup
      intro start
      rw [List.zipIdx_cons, List.foldl_cons, ih hnodup _ (start + 1), setSiblingOrder, List.map_map]
      refine List.map_congr_left fun row _ => ?_
      rw [Function.comp_apply]
      by_cases hid : row.folderItemId = id
      · simp only [hid, if_true, hnot, if_false, List.mem_cons_self, List.idxOf_cons_self]
        rfl
      · have hidx : start + (id :: ids).idxOf row.folderItemId =
            start + 1 + ids.idxOf row.folderItemId := by
          rw [List.idxOf_cons_ne ids (Ne.symm hid)]
          omega
        simp only [hid, if_false, List.mem_cons, false_or, hidx]
  have hzero := hgeneral 0
  simp only [Nat.zero_add] at hzero
  exact hzero

/-- The numbers of a numbered folder are below the size of the table. -/
theorem Numbered.lt_length (h : Numbered rows) {row : FolderListRow} (hrow : row ∈ rows) :
    row.siblingOrder < rows.length := by
  have hmem : row ∈ childrenIn rows row.folderListId row.parentId :=
    mem_childrenIn.mpr ⟨hrow, rfl, rfl⟩
  have hlt := (h row.folderListId row.parentId).mem_iff.mp (List.mem_map_of_mem hmem)
  rw [List.length_map] at hlt
  exact hlt.trans_le (List.length_filter_le _ _)

/-- The orders of the listed items among some rows. -/
theorem perm_orders {children : List FolderListRow}
    (hchildren : (children.map (·.folderItemId)).Nodup) (hnodup : ids.Nodup)
    (hin : ∀ id ∈ ids, ∃ row ∈ children, row.folderItemId = id) (first : Nat) :
    ((children.filter fun row => row.folderItemId ∈ ids).map
      fun row => first + ids.idxOf row.folderItemId).Perm (List.range' first ids.length) := by
  have hids : ((children.filter fun row => row.folderItemId ∈ ids).map (·.folderItemId)).Perm
      ids := by
    refine (List.perm_ext_iff_of_nodup (hchildren.sublist (List.filter_sublist.map _)) hnodup).mpr
      fun id => ?_
    constructor
    · intro hid
      obtain ⟨row, hrow, rfl⟩ := List.mem_map.mp hid
      exact of_decide_eq_true (List.mem_filter.mp hrow).2
    · intro hid
      obtain ⟨row, hrow, rfl⟩ := hin id hid
      exact List.mem_map_of_mem (List.mem_filter.mpr ⟨hrow, decide_eq_true hid⟩)
  have hrange := hids.map fun id => first + ids.idxOf id
  have hpositions : ids.map (fun id => first + ids.idxOf id) = List.range' first ids.length := by
    rw [List.range'_eq_map_range, ← map_idxOf hnodup, List.map_map]
    rfl
  rwa [List.map_map, hpositions] at hrange

/-- The items that stay are numbered as they are sorted, with those that go behind them. -/
theorem numbers_rank (hnodup : (rows.map (·.folderItemId)).Nodup) (hnumbered : Numbered rows)
    (hids : ids.Nodup) (parent : UInt16) :
    Numbers (((rowsOfParent rows parent).filter fun row => row.folderItemId ∉ ids).map fun row =>
      (siblings (setSiblingOrders rows ids rows.length) parent).idxOf row.folderItemId) := by
  generalize hatEnd : setSiblingOrders rows ids rows.length = atEnd
  have hplace : SamePlace rows atEnd := hatEnd ▸ samePlace_setSiblingOrders rows ids rows.length
  have hnodupEnd : (atEnd.map (·.folderItemId)).Nodup := by
    rw [hplace.shape.ids]
    exact hnodup
  rw [setSiblingOrders_eq hids] at hatEnd
  generalize hsorted : ((rowsOfParent atEnd parent).mergeSort
    fun a b => a.siblingOrder ≤ b.siblingOrder) = sorted
  have hsplit : sorted.filter (fun row => row.siblingOrder < rows.length) ++
      sorted.filter (fun row => ¬ row.siblingOrder < rows.length) = sorted := by
    rw [← hsorted]
    exact filter_append_filter_of_sorted (fun row : FolderListRow => row.siblingOrder)
      (pairwise_sorted _ _) rows.length
  have hsiblings : siblings atEnd parent =
      (sorted.filter (fun row => row.siblingOrder < rows.length)).map (·.folderItemId) ++
        (sorted.filter (fun row => ¬ row.siblingOrder < rows.length)).map (·.folderItemId) := by
    rw [← List.map_append, hsplit, siblings, hsorted]
  have hstay : (((rowsOfParent rows parent).filter fun row => row.folderItemId ∉ ids).map
      (·.folderItemId)).Perm ((sorted.filter (fun row => row.siblingOrder < rows.length)).map
        (·.folderItemId)) := by
    refine (List.perm_ext_iff_of_nodup ?_ ?_).mpr fun id => ?_
    · exact (nodup_rowsOfParent hnodup parent).sublist (List.filter_sublist.map _)
    · have hall := nodup_siblings hnodupEnd parent
      rw [hsiblings] at hall
      exact (List.nodup_append.mp hall).1
    · constructor
      · intro hid
        obtain ⟨row, hrow, rfl⟩ := List.mem_map.mp hid
        obtain ⟨hmem, hnot⟩ := List.mem_filter.mp hrow
        obtain ⟨hmem, hparent⟩ := List.mem_filter.mp hmem
        have hkept : row ∈ atEnd := by
          rw [← hatEnd]
          exact List.mem_map.mpr ⟨row, hmem, if_neg (of_decide_eq_true hnot)⟩
        refine List.mem_map_of_mem (List.mem_filter.mpr ⟨?_, ?_⟩)
        · rw [← hsorted, List.mem_mergeSort]
          exact List.mem_filter.mpr ⟨hkept, hparent⟩
        · exact decide_eq_true (hnumbered.lt_length hmem)
      · intro hid
        obtain ⟨row, hrow, rfl⟩ := List.mem_map.mp hid
        obtain ⟨hmem, hlt⟩ := List.mem_filter.mp hrow
        rw [← hsorted, List.mem_mergeSort] at hmem
        obtain ⟨hmem, hparent⟩ := List.mem_filter.mp hmem
        rw [← hatEnd] at hmem
        obtain ⟨old, hold, rfl⟩ := List.mem_map.mp hmem
        -- The orders of the items that go are behind all others.
        by_cases hlisted : old.folderItemId ∈ ids
        · rw [if_pos hlisted] at hlt
          have hlt' := of_decide_eq_true hlt
          exact absurd hlt' (Nat.not_lt.mpr (Nat.le_add_right _ _))
        · rw [if_neg hlisted] at hparent ⊢
          exact List.mem_map_of_mem (List.mem_filter.mpr
            ⟨List.mem_filter.mpr ⟨hold, hparent⟩, decide_eq_true hlisted⟩)
  have hrank : ((rowsOfParent rows parent).filter fun row => row.folderItemId ∉ ids).map
      (fun row => (siblings atEnd parent).idxOf row.folderItemId) =
      (((rowsOfParent rows parent).filter fun row => row.folderItemId ∉ ids).map
        (·.folderItemId)).map (((sorted.filter (fun row => row.siblingOrder < rows.length)).map
          (·.folderItemId)).idxOf ·) := by
    rw [List.map_map]
    refine List.map_congr_left fun row hrow => ?_
    rw [Function.comp_apply, hsiblings, List.idxOf_append_of_mem]
    exact hstay.mem_iff.mp (List.mem_map_of_mem hrow)
  rw [hrank]
  refine numbers_idxOf ?_ hstay
  have hall := nodup_siblings hnodupEnd parent
  rw [hsiblings] at hall
  exact (List.nodup_append.mp hall).1

/-- The order of a child of the folder when some children are moved in it. -/
theorem folderItemMoveL_eq (hne : ids ≠ []) (hids : ids.Nodup) (aNewIndex : Nat) :
    ∃ edit, folderItemMoveL ids aNewIndex rows = rows.map edit ∧ ∀ row,
      (edit row).folderListId = row.folderListId ∧ (edit row).parentId = row.parentId ∧
      (row.folderItemId ∈ ids →
        (edit row).siblingOrder = aNewIndex + ids.idxOf row.folderItemId) ∧
      (row.folderItemId ∉ ids → row.parentId = parentOfFirst rows ids →
        (edit row).siblingOrder = shift aNewIndex ids.length
          ((siblings (setSiblingOrders rows ids rows.length) (parentOfFirst rows ids)).idxOf
            row.folderItemId)) ∧
      (row.folderItemId ∉ ids → row.parentId ≠ parentOfFirst rows ids → edit row = row) := by
  rw [folderItemMoveL, if_neg hne]
  dsimp only
  rw [setSiblingOrders_eq hids (createSiblingIndexHoleL _ _ _ _), createSiblingIndexHoleL,
    List.map_map]
  generalize (siblings (setSiblingOrders rows ids rows.length) (parentOfFirst rows ids)) = order
  rw [setSiblingOrders_eq hids rows, List.map_map]
  refine ⟨_, rfl, fun row => ?_⟩
  simp only [Function.comp_apply]
  by_cases hlisted : row.folderItemId ∈ ids <;>
    by_cases hparent : row.parentId = parentOfFirst rows ids <;>
      simp [hlisted, hparent, shift]

/-- The children are numbered again when some of them are moved. -/
theorem numbered_move (htree : FolderTree rows) (hnumbered : Numbered rows) (hexist : Exist rows ids)
    {aNewIndex : Nat} (hindex : aNewIndex ≤ (rows.filter fun row =>
      row.parentId = parentOfFirst rows ids ∧ row.folderItemId ∉ ids).length)
    (hkeeps : (Call.move ids aNewIndex).Keeps rows) :
    Numbered (folderItemMoveL ids aNewIndex rows) := by
  by_cases hne : ids = []
  · rw [folderItemMoveL, if_pos hne]
    exact hnumbered
  obtain ⟨hids, hparent, hone⟩ := hkeeps hne
  obtain ⟨edit, heq, hedit⟩ := @folderItemMoveL_eq rows ids hne hids aNewIndex
  have hplace : ∀ row, (edit row).folderListId = row.folderListId ∧
      (edit row).parentId = row.parentId := fun row => ⟨(hedit row).1, (hedit row).2.1⟩
  intro aFolderListId aParentId
  rw [heq]
  by_cases hsame : aParentId = parentOfFirst rows ids
  · rw [childrenIn_map hplace, List.map_map]
    cases hchildren : childrenIn rows aFolderListId aParentId with
    | nil => exact numbers_nil
    | cons first rest =>
      have hall := childrenIn_eq_of_oneList (hsame ▸ hone) (hchildren ▸ List.mem_cons_self)
      rw [← hchildren, hall, hsame]
      have hrank := numbers_rank htree.nodup hnumbered hids (parentOfFirst rows ids)
      have hin : ∀ id ∈ ids, ∃ row ∈ rowsOfParent rows (parentOfFirst rows ids),
          row.folderItemId = id := by
        intro id hid
        obtain ⟨row, hrow, rfl⟩ := hexist id hid
        exact ⟨row, List.mem_filter.mpr ⟨hrow, decide_eq_true (hparent row hrow hid)⟩, rfl⟩
      have horders := perm_orders (nodup_rowsOfParent htree.nodup _) hids hin aNewIndex
      rw [← List.map_congr_left fun row hrow =>
        (hedit row).2.2.1 (of_decide_eq_true (List.mem_filter.mp hrow).2)] at horders
      refine hrank.insert_filter ?_ (fun row hrow hnot => ?_) horders
      · refine hindex.trans_eq ?_
        rw [rowsOfParent, List.filter_filter]
        refine congrArg List.length (List.filter_congr fun row _ => ?_)
        rw [Bool.and_comm, ← Bool.decide_and]
      · exact (hedit row).2.2.2.1 hnot (of_decide_eq_true (List.mem_filter.mp hrow).2)
  · rw [childrenIn_map_other hplace _ aFolderListId hsame]
    · exact hnumbered aFolderListId aParentId
    · intro row hrow hother
      refine (hedit row).2.2.2.2 (fun hlisted => hother ?_) hother
      exact hparent row hrow hlisted

/-- Items are moved in their folder. -/
theorem Placed.move {tables : FolderTables} (h : Placed tables) (aNewIndex : Nat) :
    Placed { tables with folderList := folderItemMoveL ids aNewIndex tables.folderList } := by
  refine h.of_samePlace ?_
  rw [folderItemMoveL]
  split
  · exact .refl _
  · exact (samePlace_setSiblingOrders _ ids _).trans ((samePlace_hole _ _ _ _).trans
      (samePlace_setSiblingOrders _ ids _))

end Move

end SymbianWeb.Feeds
