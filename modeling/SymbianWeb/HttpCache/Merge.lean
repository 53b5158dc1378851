import SymbianWeb.HttpCache.Handler

/-!
# Merging another index

Several processes share a cache directory. When another one has written `index.dat`, the handler
reads it into a second lookup table and merges that table into its own. The entries of the second
table are owned by it alone, so it holds them directly. Its eviction handler is dropped
afterwards and no function reads it.

`mergeL` walks over the slots of both tables from the last to the first, as the loops of `MergeL`
do.
-/

set_option autoImplicit false

namespace SymbianWeb.HttpCache

open FaultState

/-- The second lookup table. -/
abbrev ScratchTable := CHttpCacheLookupTable CHttpCacheEntry

section Merge

variable [Platform]

/-- The insertion loop of `InternalizeL` into the second table, with `SetState( ECacheComplete )`
of each entry. -/
def scratchOf (entries : List CHttpCacheEntry) : ScratchTable :=
  entries.foldl (fun t e => (t.insertEntry CHttpCacheEntry.iUrl
    { e with iState := .eCacheComplete, iEvictionCandidate := true }).1) .newL

/-- `Find` in the second table, with the position. -/
def scratchFind (n : ScratchTable) (aUrl : Des8) : Option (Nat × CHttpCacheEntry) :=
  match n.probeFind CHttpCacheEntry.iUrl aUrl with
  | none => none
  | some pos =>
      match n.entryAt pos with
      | none => none
      | some e => if e.iBodySize = 0 ∧ e.iState = .eCacheComplete then none else some (pos, e)

/-- Is the file on disk? The map of the cache directory is taken before the merge; without it
the file server is asked. -/
def onDisk (onDiskFilesMap : Option (Des16 → Option Des8)) (s : CacheState) (aName : Des16) :
    Bool :=
  match onDiskFilesMap with
  | some map => (map aName).isSome
  | none => (s.files aName).isSome

/-- One round of the first loop of `MergeL`, at a slot of the own table. -/
def mergeOldAt (map : Option (Des16 → Option Des8)) (i : Nat) (n : ScratchTable) :
    CacheM ScratchTable := do
  let s ← get
  match s.iLookupTable.entryAt i with
  | none => pure n
  | some id => do
      let entry ← getEntry id
      match scratchFind n entry.iUrl with
      | some (p, newEntry) => do
          -- entry is in the new index file
          whenM (entry.iLastAccessed < newEntry.iLastAccessed)
            (accessedAt id newEntry.iLastAccessed newEntry.iRef)
          match n.probeFind CHttpCacheEntry.iUrl newEntry.iUrl with
          | none => pure n
          | some pos =>
              if n.valid pos then
                -- another slot would keep the pointer to the deleted `newEntry`, and the
                -- destructor of the table would delete it again
                if pos = p then pure (n.eraseSlot pos) else fault
              else pure n
      | none => do
          -- not in the new index file, and maybe not on disk yet due to postpone operation
          let s ← get
          whenM (entry.bodyDataCached = false ∧ onDisk map s entry.iFileName = false) (do
            match s.locate entry.iUrl with
            | none => pure ()
            | some (thePos, _) => erase thePos)
          pure n

/-- The first loop of `MergeL`. -/
def mergeOld (map : Option (Des16 → Option Des8)) : Nat → ScratchTable → CacheM ScratchTable
  | 0, n => pure n
  | i + 1, n => do
      let n ← mergeOldAt map i n
      mergeOld map i n

/-- One round of the second loop of `MergeL`, at a slot of the second table. -/
def mergeNewAt (now : Clock) (map : Option (Des16 → Option Des8)) (i : Nat) (n : ScratchTable) :
    CacheM ScratchTable := do
  match n.entryAt i with
  | none => pure n
  | some newEntry => do
      let s ← get
      whenM (onDisk map s newEntry.iFileName = true) (do
        let myEntry ← insertL now newEntry.iUrl
        match myEntry with
        | none => fault
        | some id => do
            setState id .eCacheComplete
            accessedAt id newEntry.iLastAccessed newEntry.iRef)
      -- as above: the slot of the deleted `newEntry` must be the one that is marked
      if n.probeFind CHttpCacheEntry.iUrl newEntry.iUrl = some i then pure (n.eraseSlot i)
      else fault

/-- The second loop of `MergeL`. -/
def mergeNew (now : Clock) (map : Option (Des16 → Option Des8)) :
    Nat → ScratchTable → CacheM ScratchTable
  | 0, n => pure n
  | i + 1, n => do
      let n ← mergeNewAt now map i n
      mergeNew now map i n

/-- `MergeL`; the result is the second table as it is left. -/
def mergeL (env : Env) (n : ScratchTable) : CacheM ScratchTable := do
  let s ← get
  let map := if env.hashMapOk then some s.files else none
  let n ← mergeOld map s.iLookupTable.size n
  mergeNew env.clock map n.size n

/-- `SetSavedContentSize`. -/
def setSavedContentSize (aSize : Int) : CacheM Unit :=
  modify fun s => { s with iContentSize := aSize }

/-- `UpdateLookupTable`: `InternalizeL` of the second table sets the size of the stream handler
that both tables share. -/
def updateLookupTable (env : Env) : CacheM Unit := do
  let s ← get
  match openLookupTableL s.iDirectory (if env.indexOk then s.iIndexFile else none) with
  | none => fault
  | some .left => pure ()
  | some .nothing => do
      let _ ← mergeL env .newL
  | some (.loaded entries) => do
      note (.setSavedContentSize s.iContentSize (contentSizeOf entries))
      setSavedContentSize (contentSizeOf entries)
      let _ ← mergeL env (scratchOf entries)

/-! ## Start -/

/-- The insertion of one entry read at start: the entry is complete before it is inserted. -/
def loadEntry (e : CHttpCacheEntry) : CacheM Unit := do
  let s ← get
  let id := s.nextId
  modify fun s => s.withNew e
  setState id .eCacheComplete
  let s ← get
  modify fun s' => { s' with iLookupTable := (s.iLookupTable.insertEntry s.urlOf id).1 }

/-- The part of `ConstructL` that reads the index file. -/
def constructL (env : Env) : CacheM Unit := do
  let s ← get
  match openLookupTableL s.iDirectory (if env.indexOk then s.iIndexFile else none) with
  | none => fault
  | some .left => pure ()
  | some .nothing => pure ()
  | some (.loaded entries) => do
      forEach entries loadEntry
      setSavedContentSize (contentSizeOf entries)

/-! ## The file write handler at work -/

/-- The part of `CHttpCacheFileWriteHandler::RunL` that removes what is written from the queue;
after a failed write the entry is removed from the cache. -/
def finishFlushing (h : CHttpCacheFileWriteHandler) (result : Int) : CacheM Unit := do
  match h.iObjectFlushing with
  | none => pure ()
  | some id => do
      whenM (id ∈ h.iObjectQueue) (do
        modifyPostpone fun h => { h with iObjectQueue := h.iObjectQueue.erase id }
        clearDeleteObserver id
        whenM (result ≠ kErrNone) (do
          let e ← getEntry id
          let _ ← removeL e.iUrl))
      modifyPostpone fun h => { h with iObjectFlushing := none }

/-- Remove any items from the top of the queue which have no body data. -/
def dropEmpty : Nat → CacheM Unit
  | 0 => pure ()
  | fuel + 1 => do
      let s ← get
      match s.iPostponeHandler with
      | none => pure ()
      | some h =>
          match h.iObjectQueue with
          | [] => pure ()
          | id :: rest => do
              let e ← getEntry id
              if e.iBodySize = 0 then do
                clearDeleteObserver id
                modifyPostpone fun h => { h with iObjectQueue := rest }
                dropEmpty fuel
              else pure ()

/-- Nothing left to write, go idle. -/
def goIdle (env : Env) : CacheM Unit := do
  saveLookupTableL env.indexOk
  modifyPostpone fun h => { h with iLowMemoryState := false }

/-- Start writing the first entry of the queue, unless there is none or the handler is active. -/
def startWriting (env : Env) : CacheM Unit := do
  let s ← get
  match s.iPostponeHandler with
  | none => fault
  | some h =>
      match h.iObjectQueue with
      | [] => goIdle env
      | id :: _ =>
          if h.isActive then goIdle env
          else do
            modifyPostpone fun h => { h with isActive := true, iStatus := none }
            flushAsync (env.io 0) id
            modifyPostpone fun h => { h with iObjectFlushing := some id }

/-- `CHttpCacheFileWriteHandler::RunL`. `updated` is what the observer of the index file says. -/
def fileWriteRunL (env : Env) (updated : Bool) : CacheM Unit := do
  let s ← get
  match s.iPostponeHandler with
  | none => fault
  | some h =>
      match h.iStatus with
      | none => fault
      | some result => do
          guardM (h.isActive = true)
          modifyPostpone fun h => { h with isActive := false }
          finishFlushing h result
          let s ← get
          match s.iPostponeHandler with
          | none => fault
          | some h =>
              -- something has been added to the queue: back off until the timer completes
              whenM (h.iWaitTimer = false) (do
                dropEmpty h.iObjectQueue.length
                let s ← get
                match s.iPostponeHandler with
                | none => fault
                | some h =>
                    if h.iObjectQueue = [] then goIdle env
                    else do
                      -- merge index if it's changed; the merge may have removed all items
                      whenM (updated = true) (updateLookupTable env)
                      startWriting env)

end Merge

end SymbianWeb.HttpCache
