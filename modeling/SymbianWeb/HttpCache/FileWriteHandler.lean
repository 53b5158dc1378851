import SymbianWeb.HttpCache.StreamHandler
import Mathlib.Data.List.Sort

/-!
# The postponed writes

`CHttpCacheFileWriteHandler` keeps the complete entries whose body is still in memory in a queue
and writes them out when its timer expires or memory runs low. Its `RunL` also removes entries and
updates the index, so it is defined with the cache handler.
-/

set_option autoImplicit false

namespace SymbianWeb.HttpCache

open FaultState

/-- `KMaxCollectCount`. -/
def kMaxCollectCount : Nat := 5

/-- `CHttpCacheFileWriteHandler::TAddStatus`. -/
inductive TAddStatus where
  | eAddedOk
  | eBodySmallerThanThreshold
  | eNotEnoughFreeMemory
  | eCheckReturn
  deriving DecidableEq

/-- `iObjectQueue.Sort( CompareHttpCacheEntrySize )`: the largest body first. -/
def sortBySize (s : CacheState) (queue : List EntryId) : List EntryId :=
  queue.insertionSort fun a b =>
    (match s.heap b with
    | some e => e.iBodySize
    | none => 0) ≤
    (match s.heap a with
    | some e => e.iBodySize
    | none => 0)

/-- `BeginWriting`. -/
def beginWriting : CacheM Unit :=
  modifyPostpone fun h =>
    if h.isActive then h else { h with isActive := true, iStatus := some kErrNone }

/-- `AddEntry`; `aFreeMem` is the free system memory and `err` the result of the append. -/
def addEntry (aFreeMem err : Int) (id : EntryId) : CacheM TAddStatus := do
  let e ← getEntry id
  let s ← get
  match s.iPostponeHandler with
  | none => pure .eCheckReturn
  | some h =>
      if h.iImmediateWriteThreshold ≠ 0 ∧
          (e.iBodySize : Int) ≤ h.iImmediateWriteThreshold % 4294967296 then
        pure .eBodySmallerThanThreshold
      else if aFreeMem < h.iFreeRamThreshold then do
        modifyPostpone fun h => { h with iLowMemoryState := true }
        -- begin to flush what is queued, we are going to run out of memory soon anyway
        whenM (h.iWaitTimer = true) (do
          modifyPostpone fun h => { h with iWaitTimer := false }
          beginWriting)
        pure .eNotEnoughFreeMemory
      else do
        -- an entry that is added again may have another size: remove and reinsert it
        let queue := h.iObjectQueue.erase id ++ if err = kErrNone then [id] else []
        guardM (∀ i ∈ queue, (s.heap i).isSome = true)
        modifyPostpone fun h =>
          { h with
            iLowMemoryState := false
            iObjectQueue := sortBySize s queue
            iWaitTimer := if err = kErrNone then true else h.iWaitTimer }
        if err = kErrNone then do
          modifyEntry id fun e => { e with iDeleteObserver := true }
          pure .eAddedOk
        else if err = -4 then pure .eNotEnoughFreeMemory
        else pure .eCheckReturn

/-- `ClearDeleteObserver`. -/
def clearDeleteObserver (id : EntryId) : CacheM Unit :=
  modifyEntry id fun e => { e with iDeleteObserver := false }

/-- `RemoveAll`. Cancelling waits for the completion of the current request, and the write helper
that would complete it runs in the same thread. -/
def postponeRemoveAll : CacheM Unit := do
  let s ← get
  match s.iPostponeHandler with
  | none => pure ()
  | some h => do
      forEach h.iObjectQueue clearDeleteObserver
      modifyPostpone fun h => { h with iObjectQueue := [] }
      guardM (h.isActive = true → h.iStatus ≠ none)
      modifyPostpone fun h => { h with isActive := false }

/-- The loop of `CollectMemory`; the first argument bounds the rounds. -/
def collectLoop (io : Nat → Io) : Nat → Nat → Nat → Nat → CacheM Unit
  | 0, _, _, _ => pure ()
  | fuel + 1, aRequired, count, skip => do
      let s ← get
      match s.iPostponeHandler with
      | none => pure ()
      | some h =>
          if aRequired ≠ 0 ∧ count ≠ 0 ∧ h.iObjectQueue ≠ [] then
            match h.iObjectQueue[skip]? with
            | none => fault
            | some id =>
                if h.iObjectFlushing = some id then
                  collectLoop io fuel aRequired count (skip + 1)
                else do
                  modifyPostpone fun h => { h with iObjectQueue := h.iObjectQueue.eraseIdx skip }
                  clearDeleteObserver id
                  let e ← getEntry id
                  let _ ← flush (io fuel) id
                  collectLoop io fuel
                    ((aRequired + 4294967296 - e.iBodySize % 4294967296) % 4294967296)
                    (count - 1) skip
          else pure ()

/-- `CollectMemory`. -/
def collectMemory (io : Nat → Io) (aRequired : Nat) : CacheM Unit := do
  let s ← get
  match s.iPostponeHandler with
  | none => pure ()
  | some h =>
      collectLoop io (kMaxCollectCount + h.iObjectQueue.length + 1) aRequired kMaxCollectCount 0

/-- `Collect`. -/
def collect (io : Nat → Io) (aRequired : Nat) : CacheM Unit := do
  let s ← get
  match s.iPostponeHandler with
  | none => pure ()
  | some h =>
      whenM (h.iWaitTimer = true) (do
        modifyPostpone fun h => { h with iWaitTimer := false }
        collectMemory io aRequired
        modifyPostpone fun h => { h with iLowMemoryState := true }
        beginWriting)

/-- `WriteTimeout`, when the timer expires. -/
def writeTimeout : CacheM Unit := do
  let s ← get
  match s.iPostponeHandler with
  | none => fault
  | some h => do
      guardM (h.iWaitTimer = true)
      modifyPostpone fun h => { h with iWaitTimer := false }
      beginWriting

end SymbianWeb.HttpCache
