import Mathlib
import SymbianWeb.HttpCache.State

/-!
# Entry methods and the eviction handler

The eviction handler keeps the complete entries in five queues by the logarithm of body size over
reference count. The methods of an entry that change its state, size or reference count move it
between the queues, so the two classes are modelled together. The bucket of an entry is not
stored: `insert`, `accessed` and `remove` compute it from the current values.
-/

set_option autoImplicit false

namespace SymbianWeb.HttpCache

open FaultState

/-! ## CHttpCacheEvictionHandler -/

/-- The macro `FAST_LOG2`. -/
def fastLog2 (aNum : Nat) : Nat :=
  let log2 := if aNum &&& (aNum - 1) ≠ 0 then 1 else 0
  let (log2, j) := if aNum >>> 16 ≠ 0 then (log2 + 16, aNum >>> 16) else (log2, aNum)
  let (log2, j) := if j >>> 8 ≠ 0 then (log2 + 8, j >>> 8) else (log2, j)
  let (log2, j) := if j >>> 4 ≠ 0 then (log2 + 4, j >>> 4) else (log2, j)
  let (log2, j) := if j >>> 2 ≠ 0 then (log2 + 2, j >>> 2) else (log2, j)
  if j >>> 1 ≠ 0 then log2 + 1 else log2

/-- The number of the queues. -/
instance neZeroFive : NeZero 5 := ⟨Nat.succ_ne_zero 4⟩

/-- `BucketIndex`: the last bucket by default. -/
def bucketIndex (aSizeFrequencyValue : Nat) : Fin 5 :=
  if aSizeFrequencyValue = 1 then 0
  else if aSizeFrequencyValue < 4 then 1
  else if aSizeFrequencyValue < 8 then 2
  else if aSizeFrequencyValue < 16 then 3
  else 4

/-- `BucketIndex( FastLog2( size / ref ) )`. -/
def bucketOf (size ref : Nat) : Fin 5 := bucketIndex (fastLog2 (size / ref))

/-- The bucket of an entry for its current body size and reference count. -/
def CHttpCacheEntry.bucket (e : CHttpCacheEntry) : Fin 5 := bucketOf e.iBodySize e.iRef.toNat

/-- Replace one bucket. -/
def setBucket (i : Fin 5) (queue : List EntryId) : CacheM Unit :=
  modify fun s => { s with iBuckets := Function.update s.iBuckets i queue }

/-- `CHttpCacheEvictionHandler::Insert`. -/
def evictionInsert (id : EntryId) : CacheM Unit := do
  let e ← getEntry id
  guardM (e.iRef ≠ 0)
  let s ← get
  setBucket e.bucket (s.iBuckets e.bucket ++ [id])

/-- `CHttpCacheEvictionHandler::Accessed`. -/
def evictionAccessed (id : EntryId) : CacheM Unit := do
  let e ← getEntry id
  let s ← get
  -- a reference count of 0 or 1 is the original access: the entry stays where it was inserted
  if 1 < e.iRef.toNat then
    let current := bucketOf e.iBodySize (e.iRef.toNat - 1)
    if id ∈ s.iBuckets current then
      if current = e.bucket then
        -- move it to the end
        whenM ((s.iBuckets current).getLast? ≠ some id)
          (setBucket current ((s.iBuckets current).erase id ++ [id]))
      else do
        setBucket current ((s.iBuckets current).erase id)
        setBucket e.bucket (s.iBuckets e.bucket ++ [id])
    else pure ()
  else pure ()

/-- `CHttpCacheEvictionHandler::Remove`. -/
def evictionRemove (id : EntryId) : CacheM Unit := do
  let e ← getEntry id
  guardM (e.iRef ≠ 0)
  let s ← get
  whenM (id ∈ s.iBuckets e.bucket) (setBucket e.bucket ((s.iBuckets e.bucket).erase id))

/-! ## CHttpCacheEntry -/

/-- `SetState`: a complete entry becomes an eviction candidate, once. -/
def setState (id : EntryId) (aState : TCacheEntryState) : CacheM Unit := do
  let e ← getEntry id
  whenM (aState = .eCacheComplete ∧ e.iEvictionCandidate = false) (do
    evictionInsert id
    modifyEntry id fun e => { e with iEvictionCandidate := true })
  modifyEntry id fun e => { e with iState := aState }

/-- `Accessed()`. -/
def accessed (now : Clock) (id : EntryId) : CacheM Unit := do
  let e ← getEntry id
  note (.accessed e.iEvictionCandidate e.iRef)
  modifyEntry id fun e => { e with iLastAccessed := now.homeTime, iRef := e.iRef + 1 }
  let e ← getEntry id
  whenM (e.iEvictionCandidate = true) (evictionAccessed id)

/-- `Accessed( TInt64, TUint16 )`. -/
def accessedAt (id : EntryId) (aLastAccessed : Int) (aRef : UInt16) : CacheM Unit := do
  let e ← getEntry id
  note (.accessedAt e.iEvictionCandidate e.iBodySize e.iRef aRef)
  modifyEntry id fun e => { e with iLastAccessed := aLastAccessed, iRef := aRef }
  let e ← getEntry id
  whenM (e.iEvictionCandidate = true) (evictionAccessed id)

/-- `SetBodySize`: an entry that loses its body is no longer an eviction candidate. -/
def setBodySize (id : EntryId) (aBodySize : Nat) : CacheM Unit := do
  let e ← getEntry id
  whenM (e.iBodySize ≠ 0 ∧ aBodySize = 0 ∧ e.iEvictionCandidate = true) (do
    evictionRemove id
    modifyEntry id fun e => { e with iEvictionCandidate := false })
  modifyEntry id fun e => { e with iBodySize := aBodySize }

/-- `SetProtected`. -/
def setProtected (id : EntryId) : CacheM Unit :=
  modifyEntry id fun e => { e with iProtected := 1, iRef := 50 }

/-- `SetBodyFileDeleteNeeded`. -/
def setBodyFileDeleteNeeded (id : EntryId) (aBodyFileDeleteNeeded : Bool) : CacheM Unit :=
  modifyEntry id fun e => { e with iBodyFileDeleteNeeded := aBodyFileDeleteNeeded }

/-- `SetBodyDataCached`: clearing the bit also drops the buffer. -/
def setBodyDataCached (id : EntryId) (aBit : Bool) : CacheM Unit :=
  modifyEntry id fun e =>
    { e with
      bodyDataCached := aBit
      iCacheBuffer := if aBit then e.iCacheBuffer else .reset }

/-- `BodyData().Reset()`. -/
def resetBodyData (id : EntryId) : CacheM Unit :=
  modifyEntry id fun e => { e with iCacheBuffer := .reset }

/-- `CreateHeaderBufferL( const TDesC8& )`: an empty header leaves a null buffer. -/
def createHeaderBufferL (id : EntryId) (aHeaderData : Des8) : CacheM Unit :=
  modifyEntry id fun e =>
    { e with
      iHeaderBuffer := if aHeaderData = [] then none else some aHeaderData
      iHeaderSize := UInt16.ofNat aHeaderData.length }

/-- `HeaderData()`, which dereferences the header buffer. -/
def headerData (id : EntryId) : CacheM Des8 := do
  let e ← getEntry id
  match e.iHeaderBuffer with
  | some header => pure header
  | none => fault

/-- `iBodyFile.Close()`. -/
def closeBodyFile (id : EntryId) : CacheM Unit := do
  let e ← getEntry id
  whenM (e.iBodyFile = true) (do
    modify fun s => { s with openFiles := s.openFiles.erase e.iFileName }
    modifyEntry id fun e => { e with iBodyFile := false })

/-- `BodyWriteComplete`. -/
def bodyWriteComplete (id : EntryId) : CacheM Unit :=
  modifyEntry id fun e =>
    { e with iCacheBuffer := .reset, bodyDataPartiallyWritten := false, bodyDataCached := false }

/-- Completion of the request the file write handler waits for. -/
def requestComplete (aReason : Int) : CacheM Unit :=
  modify fun s =>
    { s with iPostponeHandler := s.iPostponeHandler.map fun h => { h with iStatus := some aReason } }

/-- `iWriteHelper->Cancel()`, with `CHttpCacheEntryAsyncWriteHelper::DoCancel`. -/
def cancelWriteHelper (id : EntryId) (helper : CHttpCacheEntryAsyncWriteHelper) : CacheM Unit :=
  whenM (helper.isActive = true) (do
    requestComplete kErrCancel
    closeBodyFile id
    bodyWriteComplete id
    modifyEntry id fun e => { e with iWriteHelper := some { helper with isActive := false } })

/-- `CancelBodyWrite`. -/
def cancelBodyWrite (id : EntryId) : CacheM Unit := do
  let e ← getEntry id
  match e.iWriteHelper with
  | some helper => whenM (e.bodyDataPartiallyWritten = true) (cancelWriteHelper id helper)
  | none => pure ()

/-! ## Leaving the postpone queue, and deletion -/

/-- Change the postpone handler. -/
def modifyPostpone (f : CHttpCacheFileWriteHandler → CHttpCacheFileWriteHandler) : CacheM Unit :=
  modify fun s => { s with iPostponeHandler := s.iPostponeHandler.map f }

/-- `CHttpCacheFileWriteHandler::RemoveEntry`; nothing happens without a postpone handler. -/
def removeEntry (id : EntryId) : CacheM Unit := do
  let s ← get
  match s.iPostponeHandler with
  | none => pure ()
  | some h =>
      if h.iObjectFlushing = some id ∧ h.isActive = true then
        -- it leaves the list when it is written out; back off from flushing anything else
        modifyPostpone fun h => { h with iWaitTimer := true }
      else if id ∈ h.iObjectQueue then do
        modifyPostpone fun h =>
          { h with
            iObjectQueue := h.iObjectQueue.erase id
            iWaitTimer := if h.iObjectQueue.erase id = [] then false else h.iWaitTimer }
        modifyEntry id fun e => { e with iDeleteObserver := false }
      else pure ()

/-- `CHttpCacheEntry::~CHttpCacheEntry`. An active write helper would reset the buffer that is
already deleted. -/
def deleteEntry (id : EntryId) : CacheM Unit := do
  let e ← getEntry id
  whenM (e.iEvictionCandidate = true) (evictionRemove id)
  whenM (e.iDeleteObserver = true) (removeEntry id)
  closeBodyFile id
  guardM (∀ helper, e.iWriteHelper = some helper → helper.isActive = false)
  modify fun s => s.setEntry id none

end SymbianWeb.HttpCache
