import SymbianWeb.HttpCache.Entry

/-!
# The stream handler

`CHttpCacheStreamHandler` stores headers and bodies and counts the bytes stored in
`iContentSize`. The body of an entry is in its heap buffer, or in its body file once it has been
flushed; `saveBodyData` falls back to the file when the buffer cannot grow.

`updateSizeInformation` is the part of `SaveBodyData` behind the comment "update size
information", and `erase` is `CHttpCacheLookupTable::Erase`, which lives with the lookup table in
the sources.
-/

set_option autoImplicit false

namespace SymbianWeb.HttpCache

open FaultState

/-! ## Files -/

/-- The files without those of the given names; a file that is open is not deleted. -/
def CacheState.filesWithout (s : CacheState) (names : List Des16) (name : Des16) :
    Option Des8 :=
  if name ∈ names ∧ name ∉ s.openFiles then none else s.files name

/-- `iRfs.Delete`. -/
def deleteFile (aName : Des16) : CacheM Unit :=
  modify fun s => { s with files := s.filesWithout [aName] }

/-- `OpenBodyFile`: open an existing file exclusively. -/
def openBodyFile (id : EntryId) : CacheM Bool := do
  let e ← getEntry id
  let s ← get
  if (s.files e.iFileName).isSome = true ∧ e.iFileName ∉ s.openFiles then do
    modify fun s => { s with openFiles := e.iFileName :: s.openFiles }
    modifyEntry id fun e => { e with iBodyFile := true }
    pure true
  else pure false

/-- `BodyFile().Write` of a sequence of buffers that stops at the first failure; `k` counts the
writes of the operation. The result is the new contents and whether all writes succeeded. -/
def writeAll (writeOk : Nat → Bool) : Nat → Des8 → List Des8 → Des8 × Bool
  | _, file, [] => (file, true)
  | k, file, buf :: bufs =>
      if writeOk k then writeAll writeOk (k + 1) (file ++ buf) bufs else (file, false)

/-- Write a sequence of buffers to the open body file. -/
def writeBodyFile (io : Io) (id : EntryId) (bufs : List Des8) : CacheM Bool := do
  let e ← getEntry id
  let s ← get
  let result := writeAll io.writeOk 0 ((s.files e.iFileName).getD []) bufs
  modify fun s => { s with files := Function.update s.files e.iFileName (some result.1) }
  pure result.2

/-- `IsDiskSpaceAvailable`. -/
def isDiskSpaceAvailable (io : Io) (iCriticalLevel : Int) (aContentSize : Nat) : Bool :=
  match io.volumeFree with
  | some iFree => decide (iCriticalLevel < iFree - aContentSize)
  | none => false

/-- `CreateNewBodyFile`: create or replace the body file and leave it open. When that fails the
body size is set to zero and the buffer is dropped. -/
def createNewBodyFile (io : Io) (id : EntryId) : CacheM Bool := do
  let e ← getEntry id
  let s ← get
  note (.createNewBodyFile (decide (io.replaceOk = true ∧ e.iFileName ∉ s.openFiles)) e.iBodySize)
  if io.replaceOk = true ∧ e.iFileName ∉ s.openFiles then do
    modify fun s =>
      { s with
        files := Function.update s.files e.iFileName (some [])
        openFiles := e.iFileName :: s.openFiles }
    modifyEntry id fun e => { e with iBodyFile := true }
    pure true
  else do
    setBodySize id 0
    resetBodyData id
    pure false

/-! ## CHttpCacheStreamHandler -/

/-- Adjust `iContentSize`. -/
def addContentSize (aDelta : Int) : CacheM Unit :=
  modify fun s => { s with iContentSize := s.iContentSize + aDelta }

section Names

variable [Platform]

/-- `InitialiseCacheEntryL`: the file name, and no file left over from an earlier entry. -/
def initialiseCacheEntryL (id : EntryId) : CacheM Unit := do
  let e ← getEntry id
  let s ← get
  let bodyFileName := generateNameLC e.iUrl s.iDirectory
  modifyEntry id fun e => { e with iFileName := bodyFileName }
  setState id .eCacheInitialized
  deleteFile bodyFileName
  deleteFile (getHeaderFileName bodyFileName)

end Names

/-- `CHttpCacheStreamHandler::Erase`. -/
def streamErase (id : EntryId) : CacheM Unit := do
  cancelBodyWrite id
  let e ← getEntry id
  deleteFile e.iFileName
  addContentSize (-(e.iBodySize : Int))
  addContentSize (-(e.iHeaderSize.toNat : Int))

/-- `HeadersL`. -/
def headersL (id : EntryId) : CacheM Des8 := headerData id

/-- `NextChunkL`; a null buffer is `none`. -/
def nextChunkL (id : EntryId) : CacheM (Option Des8) := do
  let e ← getEntry id
  let opened ← (if e.bodyDataCached then pure false else openBodyFile id)
  if opened then do
    let s ← get
    closeBodyFile id
    match s.files e.iFileName with
    | some [] => pure none
    | body => pure body
  else do
    -- reuse stored data if we have any
    guardM (e.iCacheBuffer.contents.length ≤ e.iCacheBuffer.length)
    pure (some e.iCacheBuffer.contents)

/-- `SaveHeaders`. -/
def saveHeaders (io : Io) (id : EntryId) (aHeaderStr : Des8) : CacheM Bool := do
  let s ← get
  if aHeaderStr ≠ [] ∧ isDiskSpaceAvailable io s.iCriticalLevel aHeaderStr.length = true then do
    createHeaderBufferL id aHeaderStr
    let e ← getEntry id
    addContentSize e.iHeaderSize.toNat
    pure true
  else pure false

/-- `RemoveHeaders`. -/
def removeHeaders (id : EntryId) : CacheM Unit := do
  let e ← getEntry id
  addContentSize (-(e.iHeaderSize.toNat : Int))
  createHeaderBufferL id []

/-- The end of `SaveBodyData`: the new bytes count, whether or not they were saved. -/
def updateSizeInformation (id : EntryId) (newBodyLength : Nat) : CacheM Unit := do
  let e ← getEntry id
  setBodySize id (e.iBodySize + newBodyLength)
  addContentSize newBodyLength

/-- The branch of `SaveBodyData` behind a failed `AppendL`: write what is buffered and the
remainder to a new body file. -/
def saveToBodyFile (io : Io) (id : EntryId) (aBodyStr : Des8) (remainder : Nat) :
    CacheM Bool := do
  let created ← createNewBodyFile io id
  if created then do
    let e ← getEntry id
    let s ← get
    -- disk too full: drop the cache data
    let saved ←
      (if isDiskSpaceAvailable io s.iCriticalLevel (e.iCacheBuffer.length + remainder) then
        writeBodyFile io id
          (e.iCacheBuffer.iBufferList ++ [aBodyStr.drop (aBodyStr.length - remainder)])
      else pure false)
    setBodyDataCached id false
    closeBodyFile id
    updateSizeInformation id aBodyStr.length
    pure saved
  else pure false

/-- `SaveBodyData`. -/
def saveBodyData (io : Io) (id : EntryId) (aBodyStr : Des8) : CacheM Bool := do
  if aBodyStr = [] then pure true
  else do
    let e ← getEntry id
    let result := e.iCacheBuffer.appendL io.alloc aBodyStr
    modifyEntry id fun e => { e with iCacheBuffer := result.buffer }
    if result.left then saveToBodyFile io id aBodyStr result.aRemainder
    else do
      setBodyDataCached id true
      updateSizeInformation id aBodyStr.length
      pure true

/-- `RemoveBodyData`. -/
def removeBodyData (id : EntryId) : CacheM Unit := do
  let e ← getEntry id
  addContentSize (-(e.iBodySize : Int))
  setBodySize id 0
  resetBodyData id
  let opened ← openBodyFile id
  whenM (opened = true) (do
    modify fun s => { s with files := Function.update s.files e.iFileName (some []) }
    closeBodyFile id)

/-- `FlushL`, and `Flush`, which traps its leaves. -/
def flush (io : Io) (id : EntryId) : CacheM Bool := do
  let e ← getEntry id
  let header ← headerData id
  let s ← get
  if isDiskSpaceAvailable io s.iCriticalLevel (e.iCacheBuffer.length + header.length) then do
    let created ← createNewBodyFile io id
    if created then
      if e.bodyDataCached then do
        let saveOk ← writeBodyFile io id e.iCacheBuffer.iBufferList
        resetBodyData id
        setBodyDataCached id false
        closeBodyFile id
        pure saveOk
      else do
        closeBodyFile id
        pure true
    else pure false
  else pure false

/-- `WriteBodyDataAsync`: a new active object that runs when next possible, or none when there is
no memory for it. Deleting an old one cancels it. -/
def writeBodyDataAsync (memory : Bool) (id : EntryId) : CacheM Unit := do
  let e ← getEntry id
  (match e.iWriteHelper with
  | some helper => cancelWriteHelper id helper
  | none => pure ())
  modifyEntry id fun e =>
    if memory then
      { e with
        iWriteHelper := some { iBodyPart := 0, iStatus := kErrNone, isActive := true }
        bodyDataPartiallyWritten := true }
    else { e with iWriteHelper := none }

/-- `FlushAsync`. Trimming the spare space of the last segment does not change what is stored, and
the only allocation whose failure is not noticed is that of the write helper. -/
def flushAsync (io : Io) (id : EntryId) : CacheM Unit := do
  let e ← getEntry id
  let header ← headerData id
  let s ← get
  if e.iCacheBuffer.length = 0 then
    -- don't bother writing files which have no body data
    requestComplete kErrNone
  else if isDiskSpaceAvailable io s.iCriticalLevel
      (e.iCacheBuffer.length + header.length) then do
    let created ← createNewBodyFile io id
    if created then do
      writeBodyDataAsync (io.alloc 0) id
      modifyEntry id fun e => { e with delayedWriteInProgress := true }
    else resetBodyData id
  else resetBodyData id

/-- `CHttpCacheEntryAsyncWriteHelper::RunL`: write the next segment, or finish and signal the
observer. `status` is the completion code of the write this round issues. -/
def writeHelperRunL (id : EntryId) (status : Int) : CacheM Unit := do
  let e ← getEntry id
  match e.iWriteHelper with
  | none => fault
  | some helper => do
      guardM (helper.isActive = true)
      match e.iCacheBuffer.iBufferList[helper.iBodyPart]? with
      | some seg => do
          whenM (status = kErrNone) (modify fun s =>
            { s with
              files := Function.update s.files e.iFileName
                (some ((s.files e.iFileName).getD [] ++ seg)) })
          modifyEntry id fun e =>
            { e with
              iWriteHelper := some
                { iBodyPart := helper.iBodyPart + 1, iStatus := status, isActive := true } }
      | none => do
          closeBodyFile id
          bodyWriteComplete id
          modifyEntry id fun e => { e with iWriteHelper := some { helper with isActive := false } }
          requestComplete helper.iStatus

/-- `CHttpCacheLookupTable::Erase`. -/
def erase (aPos : Nat) : CacheM Unit := do
  let s ← get
  match s.iLookupTable.entryAt aPos with
  | none => pure ()
  | some id => do
      streamErase id
      modify fun s => { s with iLookupTable := s.iLookupTable.eraseSlot aPos }
      deleteEntry id

end SymbianWeb.HttpCache
