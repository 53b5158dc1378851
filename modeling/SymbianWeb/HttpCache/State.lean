import SymbianWeb.Library.FaultState
import SymbianWeb.HttpCache.SegmentedHeapBuffer
import SymbianWeb.HttpCache.LookupTable
import Mathlib.Logic.Function.Basic

/-!
# Cache entries and the state of a cache handler

A cache entry is a heap object and every table, queue and transaction refers to it by pointer;
here a pointer is an `EntryId` and the heap a partial map. `CacheState` is the state of one
`CHttpCacheHandler` with the objects it owns (lookup table, stream handler, eviction handler,
postpone handler), the files of its directory, and the `THttpCacheEntry` of each transaction.

The functions of the following modules are computations `CacheM` on this state. They fault where
the code reads through a pointer to a deleted entry or a null pointer, divides by zero, or waits
for a completion that cannot come.
-/

set_option autoImplicit false

namespace SymbianWeb.HttpCache

open FaultState

/-- A pointer to a `CHttpCacheEntry`. -/
abbrev EntryId := Nat

/-- A transaction of the HTTP framework. -/
abbrev TransId := Nat

/-- `KErrNone`. -/
def kErrNone : Int := 0

/-- `KErrNotFound`. -/
def kErrNotFound : Int := -1

/-- `KErrCancel`. -/
def kErrCancel : Int := -3

/-- `CHttpCacheEntry::TCacheEntryState`. -/
inductive TCacheEntryState where
  | eCacheUninitialized
  | eCacheInitialized
  | eCacheRequesting
  | eCacheResponding
  | eCacheComplete
  | eCacheDestroyed
  deriving DecidableEq

/-- `CHttpCacheEntryAsyncWriteHelper`: the next segment to write, the completion code of the last
write, and whether the active object is active. -/
structure CHttpCacheEntryAsyncWriteHelper where
  iBodyPart : Nat
  iStatus : Int
  isActive : Bool
  deriving DecidableEq

/-- `CHttpCacheEntry`. The three Booleans behind `iHeaderBuffer` are bits of `iWriteState`, and
`iBodyFile` says whether the body file is open. A null `iHeaderBuffer` is `none`. -/
structure CHttpCacheEntry where
  iUrl : Des8
  iFileName : Des16 := []
  iState : TCacheEntryState := .eCacheUninitialized
  iLastAccessed : Int := 0
  iRef : UInt16 := 0
  iBodySize : Nat := 0
  iHeaderSize : UInt16 := 0
  iProtected : UInt8 := 0
  iEvictionCandidate : Bool := false
  iBodyFileDeleteNeeded : Bool := false
  iBodyFile : Bool := false
  iCacheBuffer : CSegmentedHeapBuffer kBufferSize32k := .reset
  iHeaderBuffer : Option Des8 := some []
  bodyDataCached : Bool := false
  delayedWriteInProgress : Bool := false
  bodyDataPartiallyWritten : Bool := false
  iWriteHelper : Option CHttpCacheEntryAsyncWriteHelper := none
  iDeleteObserver : Bool := false
  deriving DecidableEq

/-- `CHttpCacheEntry::NewLC`. -/
def CHttpCacheEntry.newLC (aUrl : Des8) : CHttpCacheEntry := { iUrl := aUrl }

/-- Bytes of an entry that count towards the content size. -/
def CHttpCacheEntry.size (e : CHttpCacheEntry) : Nat := e.iHeaderSize.toNat + e.iBodySize

/-- `CHttpCacheFileWriteHandler`. `iWaitTimer` says whether the timer is active; a pending
`iStatus` is `none`. -/
structure CHttpCacheFileWriteHandler where
  iFreeRamThreshold : Int
  iImmediateWriteThreshold : Int
  iLowMemoryState : Bool
  iWaitTimer : Bool
  iObjectQueue : List EntryId
  iObjectFlushing : Option EntryId
  isActive : Bool
  iStatus : Option Int
  deriving DecidableEq

/-- Calls whose effect depends on what they find, with what they find. -/
inductive Call where
  /-- `CreateNewBodyFile`: can the file be replaced, and `BodySize()`. -/
  | createNewBodyFile (replaceable : Bool) (bodySize : Nat)
  /-- `Accessed()`: the eviction candidate flag, and `Ref()` before the call. -/
  | accessed (candidate : Bool) (ref : UInt16)
  /-- `Accessed( TInt64, TUint16 )`: the eviction candidate flag, `BodySize()` and `Ref()` before
  the call, and the new reference count. -/
  | accessedAt (candidate : Bool) (bodySize : Nat) (ref aRef : UInt16)
  /-- `DeleteCacheEntry`: the entry with its state and its flags, and the entry at the slot its
  URL probes to. -/
  | deleteCacheEntry (id : EntryId) (state : TCacheEntryState) (candidate deleteNeeded : Bool)
      (located : Option EntryId)
  /-- `InternalizeL` of a second table: `SavedContentSize()` and the total it is set to. -/
  | setSavedContentSize (saved total : Int)
  deriving DecidableEq

/-- A cache handler with everything it owns. -/
structure CacheState where
  /-- `CHttpCacheHandler` -/
  iSize : Int
  iDirectory : Des16
  iPostponeHandler : Option CHttpCacheFileWriteHandler
  iLookupTable : CHttpCacheLookupTable EntryId
  /-- `CHttpCacheStreamHandler` -/
  iCriticalLevel : Int
  iContentSize : Int
  /-- `CHttpCacheEvictionHandler` -/
  iBuckets : Fin 5 → List EntryId
  /-- the heap -/
  heap : EntryId → Option CHttpCacheEntry
  nextId : EntryId
  /-- the file server -/
  files : Des16 → Option Des8
  openFiles : List Des16
  iIndexFile : Option Des8
  /-- `THttpCacheEntry::iCacheEntry` of each transaction -/
  iCacheEntry : TransId → Option EntryId
  /-- the calls so far, the last one first: an auxiliary variable that no function reads -/
  history : List Call

/-- What the file server and the heap answer during one file operation: the free space of the
drive, whether `RFile::Replace` works, whether each `RFile::Write` works, and whether each heap
allocation of `AppendL` or `WriteBodyDataAsync` works. -/
structure Io where
  volumeFree : Option Int
  replaceOk : Bool
  writeOk : Nat → Bool
  alloc : Nat → Bool

/-- The clock, and the value an uninitialised `TTimeIntervalSeconds` happens to have. -/
structure Clock where
  homeTime : Int
  secInt : Int

/-- Computations of the cache handler. -/
abbrev CacheM := FaultM CacheState

/-- `CHttpCacheHandler::NewL` for an empty index file. -/
def CacheState.newL (aSize : Int) (aDirectory : Des16) (aCriticalLevel : Int)
    (aPostpone : Option CHttpCacheFileWriteHandler) (files : Des16 → Option Des8) :
    CacheState where
  iSize := aSize
  iDirectory := aDirectory
  iPostponeHandler := aPostpone
  iLookupTable := .newL
  iCriticalLevel := aCriticalLevel
  iContentSize := 0
  iBuckets := fun _ => []
  heap := fun _ => none
  nextId := 0
  files := files
  openFiles := []
  iIndexFile := none
  iCacheEntry := fun _ => none
  history := []

/-- `CHttpCacheFileWriteHandler::NewL`. -/
def CHttpCacheFileWriteHandler.newL (aFreeRamThreshold aImmediateWriteThreshold : Int) :
    CHttpCacheFileWriteHandler where
  iFreeRamThreshold := aFreeRamThreshold
  iImmediateWriteThreshold := aImmediateWriteThreshold
  iLowMemoryState := false
  iWaitTimer := false
  iObjectQueue := []
  iObjectFlushing := none
  isActive := false
  iStatus := some kErrNone

/-- `DeleteCacheEntry` for an entry with these contents. -/
def CHttpCacheEntry.deleteCall (e : CHttpCacheEntry) (id : EntryId) (located : Option EntryId) :
    Call :=
  .deleteCacheEntry id e.iState e.iEvictionCandidate e.iBodyFileDeleteNeeded located

/-- Note a call in the history. -/
def CacheState.noted (s : CacheState) (c : Call) : CacheState :=
  { s with history := c :: s.history }

/-- Note a call in the history. -/
def note (c : Call) : CacheM Unit := modify fun s => s.noted c

/-! ## Access to the heap -/

/-- Read an entry through its pointer. -/
def getEntry (id : EntryId) : CacheM CHttpCacheEntry := fun s =>
  match s.heap id with
  | some e => some (e, s)
  | none => none

/-- Store an entry. -/
def CacheState.setEntry (s : CacheState) (id : EntryId) (e : Option CHttpCacheEntry) :
    CacheState :=
  { s with heap := Function.update s.heap id e }

/-- `new`: the state with a new object at the address `nextId`. -/
def CacheState.withNew (s : CacheState) (e : CHttpCacheEntry) : CacheState :=
  { s.setEntry s.nextId (some e) with nextId := s.nextId + 1 }

/-- Change an entry through its pointer. -/
def modifyEntry (id : EntryId) (f : CHttpCacheEntry → CHttpCacheEntry) : CacheM Unit := fun s =>
  match s.heap id with
  | some e => some ((), s.setEntry id (some (f e)))
  | none => none

/-- The URL an entry of the lookup table points to. -/
def CacheState.urlOf (s : CacheState) (id : EntryId) : Des8 :=
  match s.heap id with
  | some e => e.iUrl
  | none => []

@[simp] theorem getEntry_eq_some {id : EntryId} {s : CacheState}
    {r : CHttpCacheEntry × CacheState} :
    getEntry id s = some r ↔ ∃ e, s.heap id = some e ∧ r = (e, s) := by
  unfold getEntry
  cases h : s.heap id with
  | none => simp
  | some e => simp [eq_comm]

@[simp] theorem modifyEntry_eq_some {id : EntryId} {f : CHttpCacheEntry → CHttpCacheEntry}
    {s : CacheState} {r : Unit × CacheState} :
    modifyEntry id f s = some r ↔
      ∃ e, s.heap id = some e ∧ r = ((), s.setEntry id (some (f e))) := by
  unfold modifyEntry
  cases h : s.heap id with
  | none => simp
  | some e => simp [eq_comm]

theorem getEntry_of {id : EntryId} {s : CacheState} {e : CHttpCacheEntry}
    (he : s.heap id = some e) : getEntry id s = some (e, s) :=
  getEntry_eq_some.2 ⟨e, he, rfl⟩

theorem modifyEntry_of {id : EntryId} {f : CHttpCacheEntry → CHttpCacheEntry} {s : CacheState}
    {e : CHttpCacheEntry} (he : s.heap id = some e) :
    modifyEntry id f s = some ((), s.setEntry id (some (f e))) :=
  modifyEntry_eq_some.2 ⟨e, he, rfl⟩

theorem getEntry_bind {α : Type} {id : EntryId} {k : CHttpCacheEntry → CacheM α}
    {s : CacheState} {r : α × CacheState} :
    (getEntry id >>= k) s = some r ↔ ∃ e, s.heap id = some e ∧ k e s = some r := by
  rw [bind_eq_some]
  constructor
  · rintro ⟨e, s₁, h, hk⟩
    obtain ⟨e', he, heq⟩ := getEntry_eq_some.1 h
    rw [Prod.mk.injEq] at heq
    obtain ⟨rfl, rfl⟩ := heq
    exact ⟨e, he, hk⟩
  · rintro ⟨e, he, hk⟩
    exact ⟨e, s, getEntry_eq_some.2 ⟨e, he, rfl⟩, hk⟩

theorem modifyEntry_bind {α : Type} {id : EntryId} {f : CHttpCacheEntry → CHttpCacheEntry}
    {k : Unit → CacheM α} {s : CacheState} {r : α × CacheState} :
    (modifyEntry id f >>= k) s = some r ↔
      ∃ e, s.heap id = some e ∧ k () (s.setEntry id (some (f e))) = some r := by
  rw [bind_eq_some]
  constructor
  · rintro ⟨a, s₁, h, hk⟩
    obtain ⟨e, he, heq⟩ := modifyEntry_eq_some.1 h
    rw [Prod.mk.injEq] at heq
    obtain ⟨rfl, rfl⟩ := heq
    exact ⟨e, he, hk⟩
  · rintro ⟨e, he, hk⟩
    exact ⟨(), _, modifyEntry_eq_some.2 ⟨e, he, rfl⟩, hk⟩

theorem modifyEntry_run {id : EntryId} {f : CHttpCacheEntry → CHttpCacheEntry}
    {s s' : CacheState} {a : Unit} :
    modifyEntry id f s = some (a, s') ↔
      ∃ e, s.heap id = some e ∧ s' = s.setEntry id (some (f e)) := by
  rw [modifyEntry_eq_some]
  constructor
  · rintro ⟨e, he, heq⟩
    exact ⟨e, he, (Prod.mk.inj heq).2⟩
  · rintro ⟨e, he, rfl⟩
    exact ⟨e, he, rfl⟩

/-- The run of `modifyEntry` on an entry that is known. -/
theorem modifyEntry_at {id : EntryId} {f : CHttpCacheEntry → CHttpCacheEntry}
    {s s' : CacheState} {e : CHttpCacheEntry} {a : Unit} (h : modifyEntry id f s = some (a, s'))
    (he : s.heap id = some e) : s' = s.setEntry id (some (f e)) := by
  obtain ⟨e', he', hs'⟩ := modifyEntry_run.1 h
  rw [he, Option.some.injEq] at he'
  rw [hs', he']

@[simp] theorem heap_setEntry_self (s : CacheState) (id : EntryId) (e : Option CHttpCacheEntry) :
    (s.setEntry id e).heap id = e :=
  Function.update_self ..

@[simp] theorem setEntry_setEntry (s : CacheState) (id : EntryId)
    (e e' : Option CHttpCacheEntry) : (s.setEntry id e).setEntry id e' = s.setEntry id e' := by
  simp [CacheState.setEntry]

theorem setEntry_eq_self {s : CacheState} {id : EntryId} {e : CHttpCacheEntry}
    (he : s.heap id = some e) : s.setEntry id (some e) = s := by
  rw [CacheState.setEntry, ← he, Function.update_eq_self]

@[simp] theorem heap_withNew_self (s : CacheState) (e : CHttpCacheEntry) :
    (s.withNew e).heap s.nextId = some e :=
  Function.update_self ..

theorem heap_setEntry (s : CacheState) (id : EntryId) (e : Option CHttpCacheEntry)
    (i : EntryId) : (s.setEntry id e).heap i = if i = id then e else s.heap i := by
  by_cases h : i = id
  · subst h
    rw [heap_setEntry_self, if_pos rfl]
  · rw [if_neg h]
    exact Function.update_of_ne h _ _

end SymbianWeb.HttpCache
