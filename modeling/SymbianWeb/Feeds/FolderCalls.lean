import SymbianWeb.Feeds.DuplicateTitles
import SymbianWeb.Feeds.FolderMoves
import SymbianWeb.Library.Numbering

/-!
# Calls on the folder table

The four calls that change the folder table, with the feeds that go when no row refers to them any
more. What a call is meant to keep is `TablesRight`: the children of each folder are numbered within
each folder list, each parent is there, no folder is above itself, and each feed is referred to.
`Call.Allowed` says which calls the server can get, and `Call.Keeps` what the code takes for granted
of them: the children of a folder that are numbered are in one folder list, and items that go leave
no gap behind in a folder that is not numbered again.
-/

set_option autoImplicit false

namespace SymbianWeb.Feeds

open Numbering
open Favourites.Store (CharRules)

/-! ## Adding and moving -/

/-- `FolderItemAddL`. -/
def folderItemAddL (rules : CharRules) (tables : FolderTables) (item : NewItem) :
    Option FolderTables :=
  folderItemAddHelperL rules
    { tables with folderList := createSiblingIndexHoleL tables.folderList item.aParentEntryId 0 1 }
    { item with aSiblingIndex := 0 }

/-- `SetColL` and `PutL` of a sibling index. -/
def setSiblingOrder (rows : List FolderListRow) (aFolderItemId : UInt16) (i : Nat) :
    List FolderListRow :=
  rows.map fun row =>
    if row.folderItemId = aFolderItemId then { row with siblingOrder := i } else row

/-- The sibling indexes of some items, from one on. -/
def setSiblingOrders (rows : List FolderListRow) (aFolderItemIds : List UInt16) (first : Nat) :
    List FolderListRow :=
  aFolderItemIds.zipIdx.foldl (fun rows item => setSiblingOrder rows item.1 (first + item.2)) rows

/-- `FolderItemMoveL`. -/
def folderItemMoveL (aFolderItemIds : List UInt16) (aNewIndex : Nat) (rows : List FolderListRow) :
    List FolderListRow :=
  if aFolderItemIds = [] then rows
  else
    let parentId := parentOfFirst rows aFolderItemIds
    let count := rows.length
    let rows := setSiblingOrders rows aFolderItemIds count
    let rows := createSiblingIndexHoleL rows parentId aNewIndex aFolderItemIds.length
    setSiblingOrders rows aFolderItemIds aNewIndex

/-! ## Deleting with the feeds -/

/-- `InsertInOrder` of a feed that might have to go. -/
def insertInOrder (aFeedIds : List UInt16) (feedId : UInt16) : List UInt16 :=
  if feedId ∈ aFeedIds then aFeedIds else aFeedIds.orderedInsert (· ≤ ·) feedId

/-- `PurgeFeedIfNotReferencedL`. -/
def purgeFeedIfNotReferencedL (tables : FolderTables) (aFeedId : UInt16) : FolderTables :=
  if tables.folderList.any fun row => row.feedId = aFeedId then tables
  else { tables with feeds := tables.feeds.filter fun feed => feed.feedId ≠ aFeedId }

/-- One item of `FolderItemDeleteHelperL`, with `aFeedIds`. -/
def deleteEntryL (iDeleteFolderArray : List UInt16)
    (deleteL : List UInt16 → FolderTables → Option FolderTables) (fuel : Nat) (parentId : UInt16)
    (state : FolderTables × List UInt16) (id : UInt16) : Option (FolderTables × List UInt16) :=
  match seekFolderItem state.1.folderList id with
  | none => some state
  | some row => do
    let tables := { state.1 with folderList := deleteRow state.1.folderList id }
    let tables ← (if row.isFolder then deleteL (folderItemGetChildrenL tables.folderList id) tables
      else some tables)
    let aFeedIds := if row.isFolder then state.2 else insertInOrder state.2 row.feedId
    let rows ← (if row.status ≠ 0 ∧ id ∈ iDeleteFolderArray then
      raiseStatus fuel parentId tables.folderList else some tables.folderList)
    some ({ tables with folderList := rows }, aFeedIds)

/-- `FolderItemDeleteL` on both tables. -/
def deleteTablesL (iDeleteFolderArray : List UInt16) :
    Nat → List UInt16 → FolderTables → Option FolderTables
  | 0, _, _ => none
  | fuel + 1, aFolderItemIds, tables =>
    if aFolderItemIds = [] then some tables
    else do
      let parentId := parentOfFirst tables.folderList aFolderItemIds
      let state ← aFolderItemIds.foldlM (deleteEntryL iDeleteFolderArray
        (deleteTablesL iDeleteFolderArray fuel) fuel parentId) (tables, [])
      some (state.2.foldl purgeFeedIfNotReferencedL
        { state.1 with folderList := adjustSiblingIndexesL state.1.folderList parentId })

/-! ## What the calls are meant to keep -/

/-- The children of a folder in a folder list. -/
def childrenIn (rows : List FolderListRow) (aFolderListId : Int) (aParentId : UInt16) :
    List FolderListRow :=
  rows.filter fun row => row.folderListId = aFolderListId ∧ row.parentId = aParentId

/-- The root, or a folder of the table. -/
def IsFolder (rows : List FolderListRow) (id : UInt16) : Prop :=
  id ≠ kRootFolderId → ∃ folder ∈ rows, folder.folderItemId = id ∧ folder.isFolder = true

/-- The children of each folder are numbered in each folder list, each parent is there, no folder is
above itself, and each feed is referred to. -/
structure TablesRight (tables : FolderTables) : Prop where
  numbered : ∀ aFolderListId aParentId,
    Numbers ((childrenIn tables.folderList aFolderListId aParentId).map (·.siblingOrder))
  parents : ∀ row ∈ tables.folderList, IsFolder tables.folderList row.parentId
  acyclic : ∀ row ∈ tables.folderList, ¬ OnChain tables.folderList row.parentId row.folderItemId
  referenced : ∀ feed ∈ tables.feeds, ∃ row ∈ tables.folderList, row.feedId = feed.feedId

/-! ## Calls -/

/-- A call that changes the tables. -/
inductive Call where
  | add (item : NewItem)
  | move (aFolderItemIds : List UInt16) (aNewIndex : Nat)
  | moveTo (aFolderItemIds : List UInt16) (aNewParent : UInt16)
  | delete (aFolderItemIds : List UInt16)

/-- A call that returns leaves these tables. -/
def Call.Returns (rules : CharRules) (tables : FolderTables) : Call → FolderTables → Prop
  | .add item, tables' => folderItemAddL rules tables item = some tables'
  | .move ids aNewIndex, tables' =>
    tables' = { tables with folderList := folderItemMoveL ids aNewIndex tables.folderList }
  | .moveTo ids aNewParent, tables' => ∃ fuel rows,
    folderItemMoveToL fuel ids aNewParent tables.folderList = some rows ∧
      tables' = { tables with folderList := rows }
  | .delete ids, tables' => ∃ fuel, deleteTablesL ids fuel ids tables = some tables'

/-- The items are there. -/
def Exist (rows : List FolderListRow) (ids : List UInt16) : Prop :=
  ∀ id ∈ ids, ∃ row ∈ rows, row.folderItemId = id

/-- Items and targets exist, ids are fresh, and a new index is in the folder. -/
def Call.Allowed (tables : FolderTables) : Call → Prop
  | .add item => IsFolder tables.folderList item.aParentEntryId ∧
    item.aOutFolderId ≠ kRootFolderId ∧
    (∀ row ∈ tables.folderList, row.folderItemId ≠ item.aOutFolderId) ∧
    item.nextFeedId ≠ 0 ∧ ∀ feed ∈ tables.feeds, feed.feedId ≠ item.nextFeedId
  | .move ids aNewIndex => Exist tables.folderList ids ∧
    aNewIndex ≤ (tables.folderList.filter fun row =>
      row.parentId = parentOfFirst tables.folderList ids ∧ row.folderItemId ∉ ids).length
  | .moveTo ids aNewParent => Exist tables.folderList ids ∧ IsFolder tables.folderList aNewParent
  | .delete ids => Exist tables.folderList ids

/-- Some rows are in one folder list. -/
def OneList (rows : List FolderListRow) (which : FolderListRow → Prop) : Prop :=
  ∀ row ∈ rows, ∀ row' ∈ rows, which row → which row' → row.folderListId = row'.folderListId

/-- Where items go from a folder other than this one, they are behind those that stay. -/
def LeavesNoGap (rows : List FolderListRow) (aParentId : UInt16) (goes : UInt16 → Prop) : Prop :=
  ∀ row ∈ rows, ∀ row' ∈ rows, row.parentId = row'.parentId → row.parentId ≠ aParentId →
    row.folderListId = row'.folderListId → ¬ goes row.folderItemId → goes row'.folderItemId →
    row.siblingOrder < row'.siblingOrder

/-- The children of a folder that are numbered are in one folder list, an item that is added has a
title, items that are moved are not taken twice, nor put below themselves, and there is no gap where
items go. -/
def Call.Keeps (rows : List FolderListRow) : Call → Prop
  | .add item => ∀ row ∈ rows, row.parentId = item.aParentEntryId →
    safeTitle item.aTitle ≠ [] ∧ row.folderListId = item.aFolderListId
  | .move ids _ => ids ≠ [] → ids.Nodup ∧
    (∀ row ∈ rows, row.folderItemId ∈ ids → row.parentId = parentOfFirst rows ids) ∧
    OneList rows fun row => row.parentId = parentOfFirst rows ids
  | .moveTo ids aNewParent => ids ≠ [] → ids.Nodup ∧
    (∀ id ∈ ids, ¬ OnChain rows aNewParent id) ∧
    OneList rows (fun row => row.parentId = aNewParent ∨ row.folderItemId ∈ ids) ∧
    OneList rows (fun row => row.parentId = parentOfFirst rows ids ∧ row.folderItemId ∉ ids) ∧
    LeavesNoGap rows (parentOfFirst rows ids) (· ∈ ids)
  | .delete ids => ids ≠ [] →
    OneList rows (fun row => row.parentId = parentOfFirst rows ids ∧
      ∀ id ∈ ids, ¬ OnChain rows row.folderItemId id) ∧
    LeavesNoGap rows (parentOfFirst rows ids) fun id => ∃ other ∈ ids, OnChain rows id other

/-- The tables that a run leads to, if its calls are admitted. -/
inductive Reached (rules : CharRules) (admits : List FolderListRow → Call → Prop) :
    FolderTables → Prop where
  | empty : Reached rules admits ⟨[], []⟩
  | call {tables tables' : FolderTables} (call : Call) : Reached rules admits tables →
      call.Allowed tables → admits tables.folderList call → call.Returns rules tables tables' →
      Reached rules admits tables'

end SymbianWeb.Feeds
