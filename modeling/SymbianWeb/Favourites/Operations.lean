import SymbianWeb.Favourites.Database

/-!
# Operations of the favourites database

Adding, updating and deleting favourites, the special items, the flags, and the restore of the
factory settings from a reference table.
-/

set_option autoImplicit false

namespace SymbianWeb.Favourites.Store

open ErrorState

/-- What to do with a name that is taken. -/
inductive RenameType where
  | autoRename
  | dontRename
  | suppressCheck
  deriving DecidableEq

section

variable (rules : CharRules)

/-! ## Checks -/

def folderExistsL (aFolder : Int) : Op Bool :=
  transaction false do
    let found ← seekToUidL aFolder
    if found then do
      let r ← getL
      pure (r.type = .folder)
    else pure false

/-- The items that need not have a name of their own. -/
def isExempt (uid : Int) : Bool :=
  uid = kFavouritesHomepageUid || uid = kFavouritesLastVisitedUid ||
    uid = kFavouritesStartPageUid || uid = kFavouritesAdaptiveItemsFolderUid

/-- Whether the name is not taken in the folder by another item than the accepted one. -/
def isUniqueNameL (aName : Text) (aFolder aAcceptUid : Int) : Op Bool := do
  setFiltersL ⟨aFolder, none, some aName, kFavouritesNullContextId⟩
  let unique ← whileNextL rules true do
    let r ← getL
    pure (if r.uid ≠ aAcceptUid && !isExempt r.uid then some false else none)
  clearFilters
  pure unique

/-- The postfixes of the names in the folder that go on behind the prefix. -/
def collectPostfixesL (aPrefix : Text) (aAcceptUid : Int) : Nat → List Int → Op (List Int)
  | 0, _ => throw .hang
  | rounds + 1, postfixes => do
      let found ← nextL rules
      if found then do
        let r ← getL
        if r.uid ≠ aAcceptUid && !isExempt r.uid then do
          mayLeave
          collectPostfixesL aPrefix aAcceptUid rounds
            (postfixes ++ [getPostfix rules r.name aPrefix])
        else collectPostfixesL aPrefix aAcceptUid rounds postfixes
      else pure postfixes

/-- A name for the folder that is made from a name that is taken. -/
def makeUniqueNameL (aName : Text) (aFolder aAcceptUid : Int) : Op Text := do
  let (pre, forcePostfix) := renamePrefix aName
  setFiltersL ⟨aFolder, none, some (pre ++ [star]), kFavouritesNullContextId⟩
  beginningL
  let db ← get
  let postfixes ← collectPostfixesL rules pre aAcceptUid (db.table.ahead.length + 1) []
  clearFilters
  mayLeave
  pure (formatName pre (freePostfix forcePostfix postfixes))

/-- The check of the name of an item that is stored: the name it gets in place of a name that is
taken. -/
def newNameL (aRenameType : RenameType) (aName : Text) (aFolder aAcceptUid : Int) :
    Op (Option Text) :=
  if aRenameType = .suppressCheck then pure none
  else do
    let unique ← isUniqueNameL rules aName aFolder aAcceptUid
    if unique then pure none
    else if aRenameType = .autoRename then do
      let name ← makeUniqueNameL rules aName aFolder aAcceptUid
      pure (some name)
    else throw .alreadyExists

/-- Sets the new name, if there is one. -/
def renameL (newName : Option Text) (aItem : Item) : Op Item :=
  match newName with
  | none => pure aItem
  | some name => setNameL rules name aItem

/-! ## Adding and updating -/

/-- Deletes the rows that pass the filter, up to a read-only one. -/
def deleteChildrenL : Nat → List Int → Op (List Int)
  | 0, _ => throw .hang
  | rounds + 1, deletedUids => do
      let found ← nextL rules
      if found then do
        let r ← getL
        leaveIf r.readOnly .accessDenied
        deleteRow
        mayLeave
        deleteChildrenL rounds (deletedUids ++ [r.uid])
      else pure deletedUids

/-- Deletes what is in the folder under the cursor. The cursor is on the folder again after that. -/
def deleteContentsL (aFolder : Int) : Op (List Int) := do
  let originalPos ← bookmark
  setFiltersL ⟨aFolder, none, none, kFavouritesNullContextId⟩
  beginningL
  let db ← get
  let deletedUids ← deleteChildrenL rules (db.table.ahead.length + 1) []
  clearFilters
  gotoL originalPos
  let _ ← getL
  pure deletedUids

/-- Deletes the row under the cursor; with what is in it, if it is a folder. The result is the
list of the uids that have been deleted. -/
def deleteCurrentL : Op (List Int) := do
  let r ← getL
  leaveIf r.readOnly .accessDenied
  let deletedUids ← (if r.type = .folder then deleteContentsL rules r.uid else pure [])
  let r ← currentRow
  deleteRow
  mayLeave
  pure (deletedUids ++ [r.uid])

/-- Writes an item to the row under the cursor. The result is the item with what it has got. -/
def updateCurrentL (aItem : Item) (aRenameType : RenameType) : Op Item := do
  leaveIf (!isValidName aItem.name) .badName
  leaveIf (!aItem.isValid) .argument
  let originalPos ← bookmark
  let r ← getL
  leaveIf (r.type ≠ aItem.type) .argument
  leaveIf r.readOnly .accessDenied
  leaveIf (aItem.type = .folder && aItem.parentFolder ≠ kFavouritesRootUid) .argument
  let parentExists ←
    (if r.parentFolder ≠ aItem.parentFolder then folderExistsL aItem.parentFolder else pure true)
  leaveIf (!parentExists) .argument
  let newName ← newNameL rules aRenameType aItem.name aItem.parentFolder r.uid
  putWriteLockL
  let aItem ← renameL rules newName aItem
  gotoL originalPos
  checkColumns aItem
  updateRow true fun r => { writeItemData aItem r with factoryItem := false }
  let r ← currentRow
  pure { aItem with uid := r.uid, modified := r.modified }

/-- Inserts an item. The cursor stays on its row. -/
def doAddL (aItem : Item) (aRenameType : RenameType) (aFactoryItem aReadOnly : Bool) :
    Op Item := do
  leaveIf (!isValidName aItem.name) .badName
  leaveIf (!aItem.isValid) .argument
  leaveIf (aItem.type = .folder && aItem.parentFolder ≠ kFavouritesRootUid) .argument
  let parentExists ← folderExistsL aItem.parentFolder
  leaveIf (!parentExists) .argument
  let newName ← newNameL rules aRenameType aItem.name aItem.parentFolder kFavouritesNullUid
  putWriteLockL
  let aItem ← renameL rules newName aItem
  checkColumns aItem
  insertRow fun r =>
    { writeItemData aItem r with factoryItem := aFactoryItem, readOnly := aReadOnly }
  let r ← currentRow
  pure { aItem with uid := r.uid, modified := r.modified }

/-! ## Operations of the server -/

def addL (aItem : Item) (aAutoRename : Bool) : Op Item :=
  transaction true
    (doAddL rules aItem (if aAutoRename then .autoRename else .dontRename) false false)

def updateL (aItem : Item) (aUid : Int) (aAutoRename : Bool) : Op Item := do
  leaveIf (aUid = kFavouritesRootUid || aUid = kFavouritesHomepageUid ||
    aUid = kFavouritesLastVisitedUid) .accessDenied
  transaction true do
    gotoToUidL aUid
    updateCurrentL rules aItem (if aAutoRename then .autoRename else .dontRename)

/-- Deletes an item or a folder with its items. Their files are deleted after that; errors of the
file server do not matter there. -/
def deleteL (aUid : Int) : Op (List Int) := do
  leaveIf (aUid = kFavouritesRootUid || aUid = kFavouritesHomepageUid) .accessDenied
  mayLeave
  transaction true do
    gotoToUidL aUid
    deleteCurrentL rules

/-- Sets the home page or the last visited item; no other uid is allowed. -/
def setSpecialItemL (aItem : Item) (aUid : Int) : Op Item := do
  leaveIf (aUid ≠ kFavouritesHomepageUid && aUid ≠ kFavouritesLastVisitedUid) .panic
  leaveIf (aItem.parentFolder ≠ kFavouritesRootUid) .argument
  transaction true do
    let found ← seekToUidL aUid
    if found then updateCurrentL rules aItem .suppressCheck
    else do
      let aItem ← doAddL rules aItem .suppressCheck false false
      updateRow true fun r => { r with uid := aUid }
      let r ← currentRow
      pure { aItem with uid := aUid, modified := r.modified }

/-- Changes a row; the change is one column. -/
def setColumnL (aUid : Int) (aTouch : Bool) (edit : Row → Row) : Op Unit :=
  transaction true do
    gotoToUidL aUid
    updateRow aTouch edit

def setFactoryItemL (aUid : Int) (aFactoryItem : Bool) : Op Unit :=
  setColumnL aUid true fun r => { r with factoryItem := aFactoryItem }

def setReadOnlyL (aUid : Int) (aReadOnly : Bool) : Op Unit :=
  setColumnL aUid true fun r => { r with readOnly := aReadOnly }

def setModifiedL (aUid : Int) (aModified : Int) : Op Unit :=
  setColumnL aUid false fun r => { r with modified := aModified }

def setPreferredUidL (aFolder aUid : Int) : Op Unit :=
  transaction true do
    gotoToUidL aFolder
    let r ← getL
    if r.type = .folder then updateRow true fun r => { r with preferredUid := aUid }
    else throw .argument

/-! ## Restore of the factory settings -/

/-- A pair of a uid map. -/
structure UidPair where
  uid1 : Int
  uid2 : Int
  deriving DecidableEq

/-- The folders that have the context id of a reference row lose it. -/
def clearContextIdsL (reference : List Row) : Op Unit :=
  reference.forM fun ref => do
    mayLeave
    if ref.contextId ≠ kFavouritesNullContextId then do
      setFiltersL ⟨kFavouritesRootUid, some .folder, none, ref.contextId⟩
      let _ ← whileNextL rules () do
        updateRow false fun r => { r with contextId := kFavouritesNullContextId }
        pure none
      clearFilters
    else pure ()

/-- Deletes the row under the cursor if it is an unmodified factory item, and clears the flags of
a folder. -/
def clearFactoryRowL (r : Row) : Op Unit :=
  if r.factoryItem then
    match r.type with
    | .item => deleteRow
    | .folder => updateRow false fun r => { r with factoryItem := false, readOnly := false }
  else pure ()

def clearFactoryItemsL : Op Unit :=
  whileNextL rules () do
    let r ← getL
    clearFactoryRowL r
    pure none

/-- Finds the folder with the name of a reference folder, or adds one. The cursor is on it. -/
def restoreFolderL (ref : Row) : Op Unit := do
  setFiltersL ⟨kFavouritesRootUid, some .folder, some ref.name, kFavouritesNullContextId⟩
  beginningL
  let found ← nextL rules
  if found then
    updateRow false fun r =>
      { r with readOnly := ref.readOnly, factoryItem := ref.factoryItem, contextId := ref.contextId }
  else do
    let item ← readItemDataL rules ref
    let _ ← doAddL rules item .dontRename item.factoryItem item.readOnly
    updateRow false fun r => { r with modified := item.modified }

/-- The target folder of each reference folder, behind the pairs that are there. -/
def restoreFoldersL : List Row → List UidPair → Op (List UidPair)
  | [], parentMap => pure parentMap
  | ref :: reference, parentMap => do
      mayLeave
      restoreFolderL rules ref
      let r ← currentRow
      mayLeave
      clearFilters
      restoreFoldersL reference (parentMap ++ [⟨ref.uid, r.uid⟩])

/-- The folder in place of a folder of the reference table. -/
def mapParent (parentMap : List UidPair) (aParent : Int) : Int :=
  match parentMap.find? (·.uid1 = aParent) with
  | some pair => pair.uid2
  | none => aParent

/-- Adds a reference item, under its own uid if no other row has that. -/
def restoreItemL (parentMap : List UidPair) (ref : Row) : Op Item := do
  let item ← readItemDataL rules ref
  let modTime := item.modified
  let origId := item.uid
  let item := { item with parentFolder := mapParent parentMap item.parentFolder }
  let item ← doAddL rules item .autoRename true item.readOnly
  updateRow false fun r => { r with modified := modTime }
  let newId := item.uid
  let found ← seekToUidL origId
  if found then pure item
  else do
    gotoToUidL newId
    updateRow false fun r => { r with uid := origId }
    pure { item with uid := origId }

/-- The access points of the new items that have one of their own, behind those that are there. -/
def restoreItemsL (parentMap : List UidPair) : List Row → List UidPair → Op (List UidPair)
  | [], aApMap => pure aApMap
  | ref :: reference, aApMap => do
      mayLeave
      let item ← restoreItemL rules parentMap ref
      if item.wapAp.kind = .normal then do
        mayLeave
        restoreItemsL parentMap reference (aApMap ++ [⟨item.uid, item.wapAp.apId⟩])
      else restoreItemsL parentMap reference aApMap

/-- The folders of a reference table. -/
def referenceFolders (reference : List Row) : List Row :=
  reference.filter fun r => r.type = .folder && r.parentFolder = kFavouritesRootUid

/-- The items of a reference table. -/
def referenceItems (reference : List Row) : List Row := reference.filter (·.type = .item)

/-- The first three passes: the context ids, the factory items, and the folders. -/
def restoreFolderTreeL (reference : List Row) : Op (List UidPair) := do
  clearContextIdsL rules reference
  clearFactoryItemsL rules
  mayLeave
  restoreFoldersL rules (referenceFolders reference)
    [⟨kFavouritesRootUid, kFavouritesRootUid⟩]

/-- Restores the factory settings from the rows of a reference table. It runs in a transaction of
the client. The result is the map of access points. -/
def restoreFactorySettingsL (reference : List Row) : Op (List UidPair) := do
  let parentMap ← restoreFolderTreeL rules reference
  mayLeave
  restoreItemsL rules parentMap (referenceItems reference) []

/-- Writes the access points of a map. -/
def setAccessPointsL (aApMap : List UidPair) : Op Unit :=
  aApMap.forM fun pair => do
    gotoToUidL pair.uid1
    updateRow false fun r => { r with wapAp := ⟨pair.uid2.toNat, .normal⟩ }

end

end SymbianWeb.Favourites.Store
