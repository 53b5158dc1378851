import SymbianWeb.Favourites.Table
import SymbianWeb.Library.ErrorState

/-!
# The favourites database

Operations on the table run inside a transaction: one that the client has begun, or one that the
operation begins for itself and commits at its end, or rolls back when it leaves (`transaction`).
They share one cursor and one filter.

Every call that allocates memory or goes to the file can leave. Where it does is given by a number
of such calls that still succeed (`leaveAt`). A row is written by preparing the update or the
insertion, setting columns and putting the row; a leave on the way cancels it, so that the three
are one operation here (`updateRow`, `insertRow`).
-/

set_option autoImplicit false

namespace SymbianWeb.Favourites.Store

open ErrorState

/-! ## Well-known uids -/

def kFavouritesNullUid : Int := 0

def kFavouritesRootUid : Int := -1

def kFavouritesHomepageUid : Int := -2

def kFavouritesLastVisitedUid : Int := -3

def kFavouritesStartPageUid : Int := -4

def kFavouritesAdaptiveItemsFolderUid : Int := -5

def kFavouritesNullContextId : Int := 0

def kFavouritesMaxUrl : Nat := 1024

def kFavouritesMaxUserName : Nat := 40

def kFavouritesMaxPassword : Nat := 40

/-- The number of rows that a table can have. -/
def kMaxRows : Nat := 2147483646

/-! ## Items -/

/-- An item in memory. -/
structure Item where
  uid : Int
  parentFolder : Int
  type : ItemType
  name : Text
  url : Text
  userName : Text
  password : Text
  wapAp : WapAp
  factoryItem : Bool
  readOnly : Bool
  contextId : Int
  modified : Int
  hidden : Bool
  deriving DecidableEq

/-- A name, and a URL for items; no URL and no credentials for folders. -/
def Item.isValid (item : Item) : Bool :=
  isValidName item.name &&
    match item.type with
    | .item => 0 < item.url.length
    | .folder => item.url.isEmpty && item.userName.isEmpty && item.password.isEmpty

/-! ## State -/

/-- Which rows a filter lets pass. -/
structure Filter where
  parentFolder : Int
  type : Option ItemType
  name : Option Text
  contextId : Int

/-- Whether there is no condition. -/
def Filter.isEmpty (f : Filter) : Bool :=
  f.name.isNone && f.type.isNone && f.parentFolder = kFavouritesNullUid &&
    f.contextId = kFavouritesNullContextId

def Filter.matchRow (rules : CharRules) (f : Filter) (r : Row) : Bool :=
  (f.name.all fun pattern => like rules pattern r.name) &&
    (f.type.all fun type => r.type = type) &&
    (f.parentFolder = kFavouritesNullUid || r.parentFolder = f.parentFolder) &&
    (f.contextId = kFavouritesNullContextId || r.contextId = f.contextId)

/-- What is in the file. -/
structure Stored where
  rows : List Row
  counter : Int
  nextRecord : Nat

/-- The database, the table and the filter, and what happens to come: the times that the clock will
give, and after how many calls one leaves. Whether a rollback also takes back the counter is up to
the database server. -/
structure Db where
  stored : Stored
  table : Table
  tableOpen : Bool
  begun : Bool
  iInTransaction : Bool
  filter : Option Filter
  keepsCounter : Bool
  clock : Nat → Int
  leaveAt : Option Nat

/-- Why an operation leaves: an error of the operation, a call that fails, a panic, or a loop that
has made more rounds than there are rows. -/
inductive Leave where
  | accessDenied
  | argument
  | badName
  | alreadyExists
  | notFound
  | overflow
  | fault
  | panic
  | hang
  deriving DecidableEq

abbrev Op := EStateM Leave Db

/-! ## Calls of the table -/

/-- A call that leaves when its turn has come. -/
def mayLeave : Op Unit := fun db =>
  match db.leaveAt with
  | none => .ok () db
  | some 0 => .error .fault db
  | some (n + 1) => .ok () { db with leaveAt := some n }

/-- Leaves if something is wrong. -/
def leaveIf (c : Bool) (e : Leave) : Op Unit := if c then throw e else pure ()

def setTable (f : Table → Table) : Op Unit := modify fun db => { db with table := f db.table }

def beginningL : Op Unit := do
  mayLeave
  setTable Table.beginning

/-- Whether the current filter, if there is one, lets a row pass. -/
def Db.passes (rules : CharRules) (db : Db) (r : Row) : Bool :=
  db.filter.all fun f => f.matchRow rules r

/-- Goes to the next row that the filter lets pass. -/
def nextL (rules : CharRules) : Op Bool := do
  mayLeave
  let db ← get
  setTable (·.next (db.passes rules))
  let db ← get
  pure db.table.current.isSome

/-- The columns of the row under the cursor. -/
def currentRow : Op Row := do
  let db ← get
  match db.table.current with
  | some r => pure r
  | none => throw .panic

/-- Reads the row under the cursor. -/
def getL : Op Row := do
  mayLeave
  currentRow

def seekToUidL (aUid : Int) : Op Bool := do
  mayLeave
  setTable (·.seek (·.uid = aUid))
  let db ← get
  pure db.table.current.isSome

def gotoToUidL (aUid : Int) : Op Unit := do
  let found ← seekToUidL aUid
  leaveIf (!found) .notFound

/-- A bookmark of the row under the cursor. -/
def bookmark : Op Nat := do
  let r ← currentRow
  pure r.record

def gotoL (aBookmark : Nat) : Op Unit := do
  mayLeave
  setTable (·.seek (·.record = aBookmark))

def clearFilters : Op Unit := modify fun db => { db with filter := none }

/-- Sets a filter in place of the one that is set. No filter is needed for no condition. -/
def setFiltersL (aFilter : Filter) : Op Unit := do
  mayLeave
  clearFilters
  if aFilter.isEmpty then pure ()
  else do
    mayLeave
    modify fun db => { db with filter := some aFilter }

/-- The next time of the clock. -/
def now : Op Int := do
  let db ← get
  modify fun db => { db with clock := fun n => db.clock (n + 1) }
  pure (db.clock 0)

/-- A row with the time of its last change. -/
def touch (aTouch : Bool) (time : Int) (r : Row) : Row :=
  if aTouch then { r with modified := time } else r

/-- Changes the row under the cursor; with the time of the change, if that is wanted. -/
def updateRow (aTouch : Bool) (edit : Row → Row) : Op Unit := do
  mayLeave
  let db ← get
  match db.table.current with
  | none => throw .panic
  | some _ => do
      let time ← now
      setTable (·.update fun r => touch aTouch time (edit r))

/-- Inserts a row, as far as there is room for one more. -/
def insertRow (edit : Row → Row) : Op Unit := do
  mayLeave
  let db ← get
  leaveIf (kMaxRows ≤ db.table.rows.length) .overflow
  let time ← now
  setTable (·.insert fun r => touch true time (edit r))

def deleteRow : Op Unit := do
  mayLeave
  let db ← get
  match db.table.current with
  | none => throw .panic
  | some _ => setTable Table.delete

/-- An insertion that is cancelled at once: it leaves if there is no write lock. -/
def putWriteLockL : Op Unit := mayLeave

/-- Goes on to the next row that passes the filter and runs `body` on it, until it has a result or
there are no more rows. -/
def whileNextL {β : Type} (rules : CharRules) (atEnd : β) (body : Op (Option β)) : Op β := do
  beginningL
  let db ← get
  repeatUntil .hang (do
    let found ← nextL rules
    if found then body else pure (some atEnd)) (db.table.ahead.length + 1)

/-! ## Items and rows -/

/-- A name is trimmed when it is set. -/
def setNameL (rules : CharRules) (aName : Text) (item : Item) : Op Item := do
  mayLeave
  match setName rules aName with
  | none => throw .overflow
  | some name => pure { item with name }

/-- An item with the data of a row. -/
def readItemDataL (rules : CharRules) (r : Row) : Op Item := do
  leaveIf (kFavouritesMaxUrl < r.url.length || kFavouritesMaxUserName < r.userName.length
    || kFavouritesMaxPassword < r.password.length) .overflow
  setNameL rules r.name
    { uid := r.uid, parentFolder := r.parentFolder, type := r.type, name := [], url := r.url
      userName := r.userName, password := r.password, wapAp := r.wapAp
      factoryItem := r.factoryItem, readOnly := r.readOnly, contextId := r.contextId
      modified := r.modified, hidden := r.hidden }

/-- The columns that are written from an item. The uid, the flags and the time are not. -/
def writeItemData (item : Item) (r : Row) : Row :=
  { r with
    parentFolder := item.parentFolder
    type := item.type
    name := item.name
    url := item.url
    userName := item.userName
    password := item.password
    wapAp := item.wapAp
    contextId := item.contextId
    hidden := item.hidden }

/-- A text that is too long for its column is refused. -/
def checkColumns (item : Item) : Op Unit :=
  leaveIf (kFavouritesMaxName < item.name.length || kFavouritesMaxUrl < item.url.length
    || kFavouritesMaxUserName < item.userName.length
    || kFavouritesMaxPassword < item.password.length) .overflow

/-! ## Transactions -/

/-- The rows that an open table shows, or those of the file. -/
def Db.visible (db : Db) : List Row := if db.tableOpen then db.table.rows else db.stored.rows

/-- Begins a transaction. What it leaves with is as it was before. -/
def beginL (aWrite : Bool) : Op Unit := fun db =>
  match (do mayLeave; mayLeave; if aWrite then putWriteLockL else pure () : Op Unit) db with
  | .error e db' => .error e { db with leaveAt := db'.leaveAt, filter := none }
  | .ok _ db' => .ok ()
      { db' with
        table := { done := [], current := none, ahead := db.stored.rows
                   counter := db.stored.counter, nextRecord := db.stored.nextRecord }
        tableOpen := true
        begun := true
        iInTransaction := true
        filter := none }

/-- Makes the changes permanent. -/
def commitL : Op Unit := do
  mayLeave
  modify fun db =>
    { db with
      stored := ⟨db.table.rows, db.table.counter, db.table.nextRecord⟩
      begun := false
      iInTransaction := false
      tableOpen := false
      filter := none }

/-- Takes the changes back. -/
def Db.rollback (db : Db) : Db :=
  { db with
    stored := { db.stored with
      counter := if db.keepsCounter then db.table.counter else db.stored.counter
      nextRecord := db.table.nextRecord }
    begun := false
    iInTransaction := false
    tableOpen := false
    filter := none }

/-- Runs an operation in the transaction of the client, or in one of its own. -/
def transaction {α : Type} (aWrite : Bool) (body : Op α) : Op α := fun db =>
  if db.iInTransaction then body db
  else
    match beginL aWrite db with
    | .error e db => .error e db
    | .ok _ db =>
        match (do let a ← body; commitL; pure a : Op α) db with
        | .error e db => .error e db.rollback
        | .ok a db => .ok a db

end SymbianWeb.Favourites.Store
