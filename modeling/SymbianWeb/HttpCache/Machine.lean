import SymbianWeb.HttpCache.Merge

/-!
# The cache as a state machine

`Op` lists everything that can happen to a cache handler: the calls of the HTTP framework and of
the cache manager, the callbacks of its active objects and timers, and changes that other
processes make to the files. A run is any sequence of these that starts with `constructL`.
-/

set_option autoImplicit false

namespace SymbianWeb.HttpCache

open FaultState

/-- The operations of a cache handler. -/
inductive Op where
  | receivedResponseHeadersL (env : Env) (t : TransId) (resp : Response)
  | receivedResponseBodyDataL (env : Env) (t : TransId) (bodyStr : Des8)
  | responseComplete (env : Env) (t : TransId)
  | requestL (env : Env) (t : TransId) (req : Request)
  | requestNextChunkL (t : TransId)
  | requestClosed (t : TransId)
  | saveL (env : Env) (aUrl aHeader aContent : Des8)
  | removeL (aUrl : Des8)
  | removeAllL (env : Env)
  | addHeaderL (env : Env) (aUrl : Des8) (alter : Des8 → Des8)
  | validateCacheEntriesL
  | updateLookupTable (env : Env)
  | fileWriteRunL (env : Env) (updated : Bool)
  | writeTimeout
  | writeHelperRunL (id : EntryId) (status : Int)
  | collect (io : Nat → Io) (aRequired : Nat)
  /-- another process changes files or the index file -/
  | fileSystem (files : Des16 → Option Des8) (indexFile : Option Des8)

/-- Another process changes files. -/
def fileSystemChange (files : Des16 → Option Des8) (indexFile : Option Des8) : CacheM Unit :=
  modify fun s => { s with files := files, iIndexFile := indexFile }

section Machine

variable [Platform]

/-- Run one operation. -/
def Op.run : Op → CacheM Unit
  | .receivedResponseHeadersL env t resp => HttpCache.receivedResponseHeadersL env t resp
  | .receivedResponseBodyDataL env t bodyStr => HttpCache.receivedResponseBodyDataL env t bodyStr
  | .responseComplete env t => HttpCache.responseComplete env t
  | .requestL env t req => HttpCache.requestL env t req
  | .requestNextChunkL t => HttpCache.requestNextChunkL t >>= fun _ => pure ()
  | .requestClosed t => HttpCache.requestClosed t
  | .saveL env aUrl aHeader aContent =>
      HttpCache.saveL env aUrl aHeader aContent >>= fun _ => pure ()
  | .removeL aUrl => HttpCache.removeL aUrl >>= fun _ => pure ()
  | .removeAllL env => HttpCache.removeAllL env
  | .addHeaderL env aUrl alter => HttpCache.addHeaderL env aUrl alter
  | .validateCacheEntriesL => HttpCache.validateCacheEntriesL
  | .updateLookupTable env => HttpCache.updateLookupTable env
  | .fileWriteRunL env updated => HttpCache.fileWriteRunL env updated
  | .writeTimeout => HttpCache.writeTimeout
  | .writeHelperRunL id status => HttpCache.writeHelperRunL id status
  | .collect io aRequired => HttpCache.collect io aRequired
  | .fileSystem files indexFile => fileSystemChange files indexFile

/-- Run a list of operations. -/
def runOps (ops : List Op) : CacheM Unit := forEach ops Op.run

/-- A new cache handler, for the files and the index file it finds. -/
structure Construct where
  aSize : Int
  aDirectory : Des16
  aCriticalLevel : Int
  aPostpone : Option CHttpCacheFileWriteHandler
  files : Des16 → Option Des8
  indexFile : Option Des8
  env : Env

/-- The state before `ConstructL` reads the index file. -/
def Construct.initial (c : Construct) : CacheState :=
  { CacheState.newL c.aSize c.aDirectory c.aCriticalLevel c.aPostpone c.files with
    iIndexFile := c.indexFile }

/-- `NewL` and `ConstructL`: a cache handler has just been made. -/
def Construct.Starts (c : Construct) (s : CacheState) : Prop :=
  constructL c.env c.initial = some ((), s)

end Machine

end SymbianWeb.HttpCache
