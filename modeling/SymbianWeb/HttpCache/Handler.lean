import Mathlib
import SymbianWeb.HttpCache.FileWriteHandler
import SymbianWeb.HttpCache.IndexFile

/-!
# The cache handler

The operations of `CHttpCacheHandler`, with the operations of `CHttpCacheLookupTable` and the
eviction they rest on. What the HTTP framework decides about a transaction (is the response
cacheable, do the cached headers need an update, what do the merged headers look like) is part of
the `Response` or `Request` an operation is given.

An `Env` holds the answers of the system during one operation; `env.io k` is for its `k`-th file
operation.
-/

set_option autoImplicit false

namespace SymbianWeb.HttpCache

open FaultState

/-- The answers of the system during one operation. -/
structure Env where
  clock : Clock
  io : Nat → Io
  freeMem : Int
  appendErr : Int
  indexOk : Bool
  hashMapOk : Bool

/-- What the handler reads from the response of a transaction. `headers` is the text of
`HeadersToBufferLC`, `cacheNeedsUpdate` is `CacheNeedsUpdateL` and `mergeHeaders` is
`MergeHeadersLC`, both as functions of the cached headers. -/
structure Response where
  uri : Des8
  isCacheable : Bool
  protectedEntry : Bool
  statusCode : Nat
  headers : Des8
  cacheNeedsUpdate : Des8 → Bool
  mergeHeaders : Des8 → Des8

/-- What the handler reads from a request. `useCache` is false for `ECacheModeNoCache` and for the
POST method, `fixedUri` is the URI with the path `/` when the path is empty, and `needsValidation`
is `CacheNeedsValidationL` as a function of the cached headers. -/
structure Request where
  uri : Des8
  useCache : Bool
  fixedUri : Option Des8
  needsValidation : Des8 → Bool

/-- `HTTPStatus::EOk`. -/
def eOk : Nat := 200

/-- `HTTPStatus::ENotModified`. -/
def eNotModified : Nat := 304

section Handler

variable [Platform]

/-! ## CHttpCacheLookupTable -/

/-- `Probe( aUrl, EFalse )` with the entry of a `Valid` result. -/
def CacheState.locate (s : CacheState) (aUrl : Des8) : Option (Nat × EntryId) :=
  match s.iLookupTable.probeFind s.urlOf aUrl with
  | none => none
  | some pos =>
      match s.iLookupTable.entryAt pos with
      | none => none
      | some id => some (pos, id)

/-- `CHttpCacheLookupTable::Find`, as a function of the state: complete entries without a body
are not found. -/
def CacheState.find (s : CacheState) (aUrl : Des8) : Option EntryId :=
  match s.locate aUrl with
  | none => none
  | some (_, id) =>
      match s.heap id with
      | none => none
      | some e =>
          if e.iBodySize = 0 ∧ e.iState = .eCacheComplete then none else some id

/-- `CHttpCacheLookupTable::Find`. -/
def find (aUrl : Des8) : CacheM (Option EntryId) := do
  let s ← get
  pure (s.find aUrl)

/-- `CHttpCacheLookupTable::InsertL( const TDesC8& )`. -/
def insertL (now : Clock) (aUrl : Des8) : CacheM (Option EntryId) := do
  let s ← get
  let id := s.nextId
  modify fun s => s.withNew (.newLC aUrl)
  let s ← get
  let result := s.iLookupTable.insertEntry s.urlOf id
  modify fun s => { s with iLookupTable := result.1 }
  if result.2 then do
    accessed now id
    initialiseCacheEntryL id
    pure (some id)
  else do
    deleteEntry id
    pure none

/-- `CHttpCacheLookupTable::Remove`: only an entry that is not active is removed. -/
def remove (aUrl : Des8) : CacheM Int := do
  let s ← get
  match s.locate aUrl with
  | none => pure kErrNotFound
  | some (pos, id) => do
      let e ← getEntry id
      if e.iState = .eCacheComplete then do
        erase pos
        pure kErrNone
      else pure kErrNotFound

/-- `CHttpCacheLookupTable::EraseCacheEntry`. -/
def eraseCacheEntry (aUrl : Des8) : CacheM Unit := do
  let s ← get
  match s.locate aUrl with
  | none => pure ()
  | some (pos, _) => erase pos

/-- One round of `CHttpCacheLookupTable::RemoveAll`. -/
def removeAllAt (pos : Nat) : CacheM Unit := do
  let s ← get
  match s.iLookupTable.entryAt pos with
  | none => pure ()
  | some id => do
      let e ← getEntry id
      whenM (e.iState = .eCacheComplete) (erase pos)

/-- `CHttpCacheLookupTable::RemoveAll`. -/
def removeAll : CacheM Unit := do
  let s ← get
  forEach (List.range s.iLookupTable.size) removeAllAt

/-! ## Eviction -/

/-- The best candidate found so far: its value, its bucket and itself, and `secInt`. -/
structure EvictPick where
  maxVal : Int
  secInt : Int
  candidate : Option (Fin 5 × EntryId)

/-- `TTime::SecondsFrom`; on overflow the interval is not assigned. -/
def secondsFrom (currTime lastAccessed : Int) : Option Int :=
  let seconds := (currTime - lastAccessed).tdiv 1000000
  if -2147483648 ≤ seconds ∧ seconds < 2147483648 then some seconds else none

/-- `TInt val( secInt.Int() * entry->BodySize() / entry->Ref() )`, in 32-bit arithmetic. -/
def evictionValue (secInt : Int) (bodySize ref : Nat) : Int :=
  let v := (secInt * bodySize % 4294967296).toNat / ref
  if v < 2147483648 then v else (v : Int) - 4294967296

/-- The body of the `for` loop of `EvictL`. `none` is an access through a dangling pointer or a
division by zero. -/
def considerBucket (s : CacheState) (currTime : Int) (pick : EvictPick) (i : Fin 5) :
    Option EvictPick :=
  match s.iBuckets i with
  | [] => some pick
  | id :: _ =>
      match s.heap id with
      | none => none
      | some e =>
          -- evacuate nonactive entries only
          if e.iState = .eCacheComplete ∧ e.bodyDataPartiallyWritten = false then
            if e.iRef = 0 then none
            else
              let secInt := (secondsFrom currTime e.iLastAccessed).getD pick.secInt
              let val := evictionValue secInt e.iBodySize e.iRef.toNat
              if pick.maxVal < val then some ⟨val, secInt, some (i, id)⟩
              else some { pick with secInt := secInt }
          else some pick

/-- The `for` loop of `EvictL`. -/
def pickCandidate (s : CacheState) (now : Clock) : Option EvictPick :=
  [0, 1, 2, 3, 4].foldlM (considerBucket s now.homeTime) ⟨-1, now.secInt, none⟩

/-- The `while` loop of `EvictL`; each round takes one entry out of its bucket. -/
def evictLoop (now : Clock) : Nat → Int → CacheM (List EntryId)
  | 0, _ => pure []
  | fuel + 1, aSpaceNeeded =>
      if 0 < aSpaceNeeded then do
        let s ← get
        match pickCandidate s now with
        | none => fault
        | some pick =>
            match pick.candidate with
            | none => pure []
            | some (i, id) => do
                setBucket i ((s.iBuckets i).erase id)
                let e ← getEntry id
                let evicted ← evictLoop now fuel
                  (aSpaceNeeded - e.iBodySize - e.iHeaderSize.toNat)
                pure (id :: evicted)
      else pure []

/-- `CHttpCacheEvictionHandler::EvictL`. -/
def evictL (now : Clock) (aSpaceNeeded : Int) : CacheM (List EntryId) := do
  let s ← get
  evictLoop now
    ((s.iBuckets 0).length + (s.iBuckets 1).length + (s.iBuckets 2).length +
      (s.iBuckets 3).length + (s.iBuckets 4).length + 1) aSpaceNeeded

/-- The loop body of `CacheNeedsSpaceL`: the entry has left its bucket, so it must not try to
leave it again. -/
def destroyEvicted (id : EntryId) : CacheM Unit := do
  removeEntry id
  modifyEntry id fun e => { e with iEvictionCandidate := false }
  let e ← getEntry id
  let _ ← remove e.iUrl

/-- `CacheNeedsSpaceL`. -/
def cacheNeedsSpaceL (now : Clock) (aSize : Nat) : CacheM Bool := do
  let s ← get
  if s.iSize < s.iContentSize + aSize then do
    let evictedList ← evictL now aSize
    if evictedList = [] then pure false
    else do
      forEach evictedList destroyEvicted
      let s ← get
      pure (decide (s.iContentSize + aSize < s.iSize))
  else pure true

/-! ## Saving and deleting -/

/-- `SaveBuffer`. -/
def saveBuffer (now : Clock) (io : Io) (id : EntryId) (aBuffer : Des8) (aBody : Bool) :
    CacheM Bool := do
  let ok ← cacheNeedsSpaceL now aBuffer.length
  if ok then
    if aBody then saveBodyData io id aBuffer else saveHeaders io id aBuffer
  else pure false

/-- `DeleteCacheEntry`: the entry is found again by its URL. -/
def deleteCacheEntry (id : EntryId) : CacheM Unit := do
  removeEntry id
  let e ← getEntry id
  let s ← get
  note (e.deleteCall id ((s.locate e.iUrl).map Prod.snd))
  eraseCacheEntry e.iUrl

/-! ## Responses -/

/-- `HandleResponseOkL`. -/
def handleResponseOkL (env : Env) (id : EntryId) (resp : Response) : CacheM Bool := do
  let cachedHeaderStr ← headersL id
  if resp.cacheNeedsUpdate cachedHeaderStr then do
    let e ← getEntry id
    whenM (e.iHeaderSize ≠ 0) (removeHeaders id)
    let saveOk ← saveBuffer env.clock (env.io 0) id resp.headers false
    -- the old body is removed when new body data arrives
    let e ← getEntry id
    whenM (e.iBodySize ≠ 0) (setBodyFileDeleteNeeded id true)
    pure saveOk
  else do
    -- neither the header nor the body need to be updated
    setState id .eCacheComplete
    pure true

/-- `HandleResponseNotModifiedL`. -/
def handleResponseNotModifiedL (env : Env) (id : EntryId) (resp : Response) : CacheM Bool := do
  let cachedHeaderStr ← headersL id
  removeHeaders id
  let saved ← saveBuffer env.clock (env.io 0) id (resp.mergeHeaders cachedHeaderStr) false
  -- if save failed, let's see if we can save old headers
  let saveOk ← (if saved then pure true
    else saveBuffer env.clock (env.io 1) id cachedHeaderStr false)
  whenM (saveOk = true) (setState id .eCacheComplete)
  pure saveOk

/-- Remember the entry in the `THttpCacheEntry` of a transaction. -/
def setCacheEntry (t : TransId) (entry : Option EntryId) : CacheM Unit :=
  modify fun s => { s with iCacheEntry := Function.update s.iCacheEntry t entry }

/-- The part of `ReceivedResponseHeadersL` behind "save headers". -/
def saveResponseHeaders (env : Env) (t : TransId) (resp : Response) (id : EntryId) :
    CacheM Unit := do
  setState id .eCacheResponding
  let ok ←
    (if resp.statusCode = eOk then handleResponseOkL env id resp
    else if resp.statusCode = eNotModified then handleResponseNotModifiedL env id resp
    else pure false)
  if ok then setCacheEntry t (some id) else deleteCacheEntry id

/-- `ReceivedResponseHeadersL`. -/
def receivedResponseHeadersL (env : Env) (t : TransId) (resp : Response) : CacheM Unit := do
  if resp.isCacheable then do
    let entry ← find resp.uri
    match entry with
    | some id => do
        let e ← getEntry id
        -- multiple incoming entries: ignore this one and the first will proceed
        whenM (e.iState = .eCacheComplete) (saveResponseHeaders env t resp id)
    | none => do
        let entry ← insertL env.clock resp.uri
        match entry with
        | none => pure ()
        | some id => do
            whenM (resp.protectedEntry = true) (setProtected id)
            saveResponseHeaders env t resp id
  else pure ()

/-- `ReceivedResponseBodyDataL` for one data part. -/
def receivedResponseBodyDataL (env : Env) (t : TransId) (bodyStr : Des8) : CacheM Unit := do
  let s ← get
  match s.iCacheEntry t with
  | none => pure ()
  | some id => do
      let e ← getEntry id
      whenM (e.iState = .eCacheResponding) (do
        -- do we have old body data to remove first
        whenM (e.iBodyFileDeleteNeeded = true) (do
          removeBodyData id
          setBodyFileDeleteNeeded id false)
        let saved ← saveBuffer env.clock (env.io 0) id bodyStr true
        whenM (saved = false) (do
          deleteCacheEntry id
          setCacheEntry t none))

/-- `ResponseComplete`. -/
def responseComplete (env : Env) (t : TransId) : CacheM Unit := do
  let s ← get
  match s.iCacheEntry t with
  | none => pure ()
  | some id => do
      let e ← getEntry id
      if e.iState = .eCacheResponding then do
        let addStatus ←
          (if s.iPostponeHandler.isSome then addEntry env.freeMem env.appendErr id
          else pure .eCheckReturn)
        if addStatus = .eAddedOk then setState id .eCacheComplete
        else do
          let flushed ← flush (env.io 0) id
          if flushed then setState id .eCacheComplete
          else do
            deleteCacheEntry id
            setCacheEntry t none
      else if e.iState = .eCacheDestroyed then do
        deleteCacheEntry id
        setCacheEntry t none
      else pure ()

/-! ## Requests -/

/-- `RequestL`. -/
def requestL (env : Env) (t : TransId) (req : Request) : CacheM Unit := do
  if req.useCache then do
    let entry ← find req.uri
    -- check if the trailing slash is missing
    let entry ←
      (match entry, req.fixedUri with
      | none, some fixedUri => find fixedUri
      | entry, _ => pure entry)
    match entry with
    | none => pure ()
    | some id => do
        let e ← getEntry id
        whenM (e.iState = .eCacheComplete) (do
          let headersStr ← headersL id
          whenM (req.needsValidation headersStr = false) (do
            setState id .eCacheRequesting
            accessed env.clock id
            setCacheEntry t (some id)))
  else pure ()

/-- `RequestNextChunkL`. -/
def requestNextChunkL (t : TransId) : CacheM (Option Des8) := do
  let s ← get
  match s.iCacheEntry t with
  | none => pure none
  | some id => do
      let e ← getEntry id
      if e.iState = .eCacheRequesting then nextChunkL id else pure none

/-- `RequestClosed`. -/
def requestClosed (t : TransId) : CacheM Unit := do
  let s ← get
  match s.iCacheEntry t with
  | none => pure ()
  | some id => do
      let e ← getEntry id
      if e.iState = .eCacheRequesting then
        -- normal close on a request - when the content is loaded from the cache
        setState id .eCacheComplete
      else if e.iState = .eCacheResponding ∨ e.iState = .eCacheDestroyed then do
        -- transaction is closed without being completed
        deleteCacheEntry id
        setCacheEntry t none
      else pure ()

/-! ## Other operations -/

/-- `SaveLookupTableL`; `indexOk` says whether the index file could be replaced. -/
def saveLookupTableL (indexOk : Bool) : CacheM Unit := do
  let s ← get
  match externalizeL s.iDirectory (s.iLookupTable.entries.filterMap s.heap) with
  | none => fault
  | some bytes => whenM (indexOk = true) (modify fun s => { s with iIndexFile := some bytes })

/-- `RemoveAllL`. -/
def removeAllL (env : Env) : CacheM Unit := do
  postponeRemoveAll
  removeAll
  saveLookupTableL env.indexOk

/-- `RemoveL`: an active entry is marked and erased when its transaction is complete. -/
def removeL (aUrl : Des8) : CacheM Int := do
  let entry ← find aUrl
  match entry with
  | none => pure kErrNotFound
  | some id => do
      let e ← getEntry id
      if e.iState = .eCacheComplete then remove aUrl
      else do
        setState id .eCacheDestroyed
        pure kErrNone

/-- The saving part of `SaveL`. -/
def saveEntry (env : Env) (id : EntryId) (aHeader aContent : Des8) : CacheM Bool := do
  let headerSaved ← saveBuffer env.clock (env.io 0) id aHeader false
  let saved ← (if headerSaved then saveBuffer env.clock (env.io 1) id aContent true
    else pure false)
  let flushed ← (if saved then flush (env.io 2) id else pure false)
  whenM (flushed = true) (setState id .eCacheComplete)
  pure flushed

/-- `SaveL`: an existing entry is not overwritten. -/
def saveL (env : Env) (aUrl aHeader aContent : Des8) : CacheM Bool := do
  let entry ← find aUrl
  match entry with
  | some _ => pure false
  | none => do
      let entry ← insertL env.clock aUrl
      match entry with
      | none => pure false
      | some id => do
          let saved ← saveEntry env id aHeader aContent
          whenM (saved = false) (deleteCacheEntry id)
          pure saved

/-- The saving part of `AddHeaderL`: the altered headers, or else the original ones. -/
def saveAlteredHeader (env : Env) (id : EntryId) (alter : Des8 → Des8) : CacheM Bool := do
  let headersStr ← headersL id
  removeHeaders id
  let saved ← saveBuffer env.clock (env.io 0) id (alter headersStr) false
  if saved then pure true else saveBuffer env.clock (env.io 1) id headersStr false

/-- `AddHeaderL`; `alter` is `AddHeaderLC` with the name and value of the new header. -/
def addHeaderL (env : Env) (aUrl : Des8) (alter : Des8 → Des8) : CacheM Unit := do
  let entry ← find aUrl
  match entry with
  | none => pure ()
  | some id => do
      let saveOk ← saveAlteredHeader env id alter
      -- sorry, we made this entry corrupt. remove it
      whenM (saveOk = false) (deleteCacheEntry id)

/-- The URLs `ValidateCacheEntriesL` collects: the file is missing or has another size. -/
def badEntries (s : CacheState) : List Des8 :=
  (s.iLookupTable.entries.filterMap s.heap).filterMap fun e =>
    match s.files e.iFileName with
    | some body => if body.length = e.iBodySize then none else some e.iUrl
    | none => some e.iUrl

/-- `ValidateCacheEntriesL`. -/
def validateCacheEntriesL : CacheM Unit := do
  let s ← get
  forEach (badEntries s) fun url => do
    let _ ← remove url

end Handler

end SymbianWeb.HttpCache
