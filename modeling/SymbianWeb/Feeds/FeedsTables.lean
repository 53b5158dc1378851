import SymbianWeb.Feeds.XmlUtils

/-!
# The tables of the feeds

The rows of the tables that `CFeedsDatabase` keeps. A table is the list of its
rows in the order in which the database visits them when a query does not ask
for another one; a query is a filter of it.
-/

set_option autoImplicit false

namespace SymbianWeb.Feeds

open XmlContent

/-- A row of `FolderListTable`. -/
structure FolderListRow where
  folderListId : Int
  folderItemId : UInt16
  parentId : UInt16
  siblingOrder : Nat
  isFolder : Bool
  feedId : UInt16
  title : Text
  status : Int
  deriving DecidableEq, Repr

/-- A row of `FeedTable`. -/
structure FeedRow where
  folderListId : Int
  feedId : UInt16
  date : Int
  title : Text
  feedUrl : Text
  description : Text
  webUrl : Text
  unreadCount : Nat
  autoUpdateFreq : Int
  deriving DecidableEq, Repr

/-- `KRootFolderId`. -/
def kRootFolderId : UInt16 := 0

/-- `K100MaxLen`, the width of the title columns. -/
def k100MaxLen : Nat := 100

/-- `SeekL` by the key `FolderItemId`. -/
def seekFolderItem (rows : List FolderListRow) (aFolderItemId : UInt16) : Option FolderListRow :=
  rows.find? (fun row => row.folderItemId = aFolderItemId)

/-- `SELECT ... FROM FolderListTable WHERE ParentId = aParentId`. -/
def rowsOfParent (rows : List FolderListRow) (aParentId : UInt16) : List FolderListRow :=
  rows.filter (fun row => row.parentId = aParentId)

/-- `FolderItemGetChildrenL`. -/
def folderItemGetChildrenL (rows : List FolderListRow) (aFolderItemId : UInt16) : List UInt16 :=
  (rowsOfParent rows aFolderItemId).map (·.folderItemId)

end SymbianWeb.Feeds
