import Mathlib.Data.List.Basic
import SymbianWeb.Library.FaultState

/-!
# Handles of a favourites session

A client names the objects of its session by handles: 32-bit words that pack the index of a slot
of the session's table and a check number. `EntryL` takes a word apart and compares the check
number with the one in the slot. The words come from the client, which may send anything.

A request is the script of what its function does with the table (`script`), run against the
answers of everything else: which step leaves, and whether the table moves when it grows. Reading
behind the table, using a reference into a table that has moved, and taking an object for one of
another type are faults. The ghost fields of the session record the handles that are alive and
what the requests have seen.
-/

set_option autoImplicit false

namespace SymbianWeb.Favourites

/-! ## Words -/

abbrev Word := BitVec 32

def KFuncBits : Nat := 8
def KIndexBits : Nat := 8
def KChkNumBits : Nat := 15

namespace TFavouritesHandle

/-- `TFavouritesHandle::TFavouritesHandle( aIndex, aChkNum )` -/
def ofParts (aIndex aChkNum : Nat) : Word :=
  ((BitVec.ofNat 32 aChkNum <<< KIndexBits) ||| BitVec.ofNat 32 aIndex) <<< KFuncBits

/-- `operator TInt`: the handle of a word, without the function. -/
def toTInt (iData : Word) : Word :=
  iData &&& (((1#32 <<< (KChkNumBits + KIndexBits)) - 1#32) <<< KFuncBits)

def index (iData : Word) : Nat :=
  (iData.sshiftRight KFuncBits &&& ((1#32 <<< KIndexBits) - 1#32)).toNat

def chkNum (iData : Word) : Nat :=
  (iData.sshiftRight (KIndexBits + KFuncBits) &&& ((1#32 <<< KChkNumBits) - 1#32)).toNat

def isNull (iData : Word) : Bool :=
  iData.sshiftRight KFuncBits &&& ((1#32 <<< (KChkNumBits + KIndexBits)) - 1#32) = 0#32

end TFavouritesHandle

open TFavouritesHandle

/-- `TFavouritesFunction`, in the order of its codes. -/
inductive TFavouritesFunction where
  | nullFunction | testCapabilityStart | resourceMarkStart | resourceMarkEnd | resourceCount
  | setHeapFailure | testCapabilityEnd | readCapabilityStart | openDatabase | openNotifier
  | openStream | isDamaged | size | close | get | getAll | getUids | preferredUid | itemExists
  | folderExists | count | getData | getBrowserData | fileOpen | fileOpenRead | notifyAllEvents
  | notifyChange | notifyCancel | streamRead | readCapabilityEnd | writeCapabilityStart
  | deleteDatabase | recover | compact | updateStats | begin | commit | rollback | delete | update
  | add | setSpecialItem | setFactoryItem | setReadOnly | setModified | setPreferredUid | setData
  | setBrowserData | makeUniqueName | restoreFactorySettings | setAccessPoints | fileOpenWrite
  | fileDelete | incrementalRecover | incrementalCompact | incrementalNext | streamWrite
  | writeCapabilityEnd | unknown
  deriving DecidableEq

open TFavouritesFunction in
def functionCodes : List TFavouritesFunction :=
  [nullFunction, testCapabilityStart, resourceMarkStart, resourceMarkEnd, resourceCount,
    setHeapFailure, testCapabilityEnd, readCapabilityStart, openDatabase, openNotifier, openStream,
    isDamaged, size, close, get, getAll, getUids, preferredUid, itemExists, folderExists, count,
    getData, getBrowserData, fileOpen, fileOpenRead, notifyAllEvents, notifyChange, notifyCancel,
    streamRead, readCapabilityEnd, writeCapabilityStart, deleteDatabase, recover, compact,
    updateStats, begin, commit, rollback, delete, update, add, setSpecialItem, setFactoryItem,
    setReadOnly, setModified, setPreferredUid, setData, setBrowserData, makeUniqueName,
    restoreFactorySettings, setAccessPoints, fileOpenWrite, fileDelete, incrementalRecover,
    incrementalCompact, incrementalNext, streamWrite, writeCapabilityEnd]

/-- `TFavouritesMsg::Function` -/
def function (iData : Word) : TFavouritesFunction :=
  functionCodes.getD (iData &&& ((1#32 <<< KFuncBits) - 1#32)).toNat .unknown

/-! ## The table -/

/-- `TFavouritesSessionEntry::TType`, without `ENone`. -/
inductive TType where
  | EDatabase
  | ENotifier
  | EIncremental
  | EStream
  | EFile
  deriving DecidableEq

structure Object where
  type : TType
  id : Nat
  deriving DecidableEq

/-- `TFavouritesSessionEntry`. The type is `ENone` when there is no object. -/
structure TFavouritesSessionEntry where
  iObject : Option Object
  iChkNum : Nat
  deriving DecidableEq

/-- `TFavouritesSessionEntry::SetNull` -/
def TFavouritesSessionEntry.null : TFavouritesSessionEntry := ⟨none, 0⟩

/-- A handle that was given out, and the object that it was given out for. -/
structure Grant where
  handle : Word
  object : Object
  deriving DecidableEq

/-- What a request has seen: an entry that `EntryL` returned for a word, with the handles that were
alive then, or a handle that it sent to the client. -/
inductive Observation where
  | entry (word : Word) (found : Option Object) (live : List Grant)
  | reply (handle : Word)
  deriving DecidableEq

/-- `CFavouritesSession`. `block` numbers the memory blocks the table has been in. The fields
behind it are ghosts: the number of the next object, the handles given out for objects that have
not been released, and what the requests have seen. -/
structure CFavouritesSession where
  iEntries : List TFavouritesSessionEntry
  iChkNum : Nat
  block : Nat
  next : Nat
  live : List Grant
  trace : List Observation
  deriving DecidableEq

/-- The session when the client has connected. -/
def CFavouritesSession.start : CFavouritesSession := ⟨[], 1, 0, 0, [], []⟩

def CFavouritesSession.iNumEntries (sess : CFavouritesSession) : Nat := sess.iEntries.length

def KFavouritesSrvSessionObjectGranularity : Nat := 4

/-- `CFavouritesSession::NextChkNum`: the number, and the next `iChkNum`. The bound is written
`1 << KChkNumBits - 1`, which is `1 << 14`. -/
def nextChkNum (iChkNum : Nat) : Nat × Nat :=
  let n := if iChkNum > 1 <<< (KChkNumBits - 1) then 1 else iChkNum
  (n, n + 1)

/-- The slot at `i` gets the next check number. -/
def CFavouritesSession.takeSlot (sess : CFavouritesSession) (i : Nat) :
    Word × CFavouritesSession :=
  let (n, iChkNum) := nextChkNum sess.iChkNum
  (ofParts i n, { sess with
    iEntries := sess.iEntries.modify i fun entry => { entry with iChkNum := n }
    iChkNum := iChkNum })

/-- The first free slot. -/
def CFavouritesSession.freeSlot (sess : CFavouritesSession) : Option Nat :=
  sess.iEntries.findIdx? fun entry => entry.iObject.isNone

/-- Whether `NewHandleL` has to make the table longer, and may. -/
def CFavouritesSession.Grows (sess : CFavouritesSession) : Prop :=
  sess.freeSlot = none ∧
    sess.iNumEntries + KFavouritesSrvSessionObjectGranularity ≤ 1 <<< KIndexBits

/-- The table with new slots, in the same block of memory or in another one. -/
def CFavouritesSession.grow (sess : CFavouritesSession) (moved : Bool) : CFavouritesSession :=
  { sess with
    iEntries := sess.iEntries ++
      List.replicate KFavouritesSrvSessionObjectGranularity TFavouritesSessionEntry.null
    block := if moved then sess.block + 1 else sess.block }

/-- `CFavouritesSession::NewHandleL`; `none` when it leaves. -/
def newHandleL (sess : CFavouritesSession) (allocated moved : Bool) :
    Option (Word × CFavouritesSession) :=
  match sess.freeSlot with
  | some i => some (sess.takeSlot i)
  | none =>
      if sess.iNumEntries + KFavouritesSrvSessionObjectGranularity > 1 <<< KIndexBits then none
      else if allocated then some ((sess.grow moved).takeSlot sess.iNumEntries)
      else none

/-- What `EntryL` does with a word. -/
inductive Lookup where
  | badHandle
  | outOfBounds
  | found (i : Nat) (entry : TFavouritesSessionEntry)
  deriving DecidableEq

/-- `CFavouritesSession::EntryL` and `Entry`. The check of the index lets `iNumEntries` through. -/
def CFavouritesSession.entryL (sess : CFavouritesSession) (aHandle : Word) : Lookup :=
  if index aHandle > sess.iNumEntries then .badHandle
  else
    match sess.iEntries[index aHandle]? with
    | none => .outOfBounds
    | some entry =>
        if chkNum aHandle ≠ entry.iChkNum then .badHandle
        else .found (index aHandle) entry

def CFavouritesSession.see (sess : CFavouritesSession) (o : Observation) : CFavouritesSession :=
  { sess with trace := o :: sess.trace }

/-! ## Requests -/

/-- What a request does with the table. -/
inductive Step where
  /-- Something that may leave, outside of the table. -/
  | mayLeave
  /-- The object of the request's entry is used as one of a type. -/
  | use (type : TType)
  /-- `EntryL( aMessage.Int0() ).Stream()` -/
  | useStream
  /-- `h = NewHandleL()` -/
  | newHandle
  /-- `Entry( h ) = *object` -/
  | assign (type : TType)
  /-- `e.Release()` -/
  | release
  /-- `ret = h` -/
  | reply
  deriving DecidableEq

open Step in
/-- `NewStreamL`, and its result sent to the client. -/
def newStreamL : List Step := [mayLeave, newHandle, mayLeave, assign .EStream, reply]

open Step in
/-- The functions of the session: those for the null handle. -/
def sessionScript : TFavouritesFunction → List Step
  | .openDatabase => [mayLeave, newHandle, mayLeave, assign .EDatabase, reply]
  | .openStream => mayLeave :: newStreamL
  | .resourceMarkEnd => [mayLeave]
  | .deleteDatabase => [mayLeave]
  | _ => []

open Step in
/-- A function of a database that takes the data of an item from a stream. -/
def itemScript : List Step := [useStream, mayLeave, use .EDatabase, mayLeave]

open Step in
/-- A function of a database that has no handle to send. -/
def databaseScript : List Step := [mayLeave, use .EDatabase, mayLeave]

open Step in
/-- A function of a database that sends its result in a stream. -/
def streamScript : List Step := mayLeave :: use .EDatabase :: mayLeave :: newStreamL

open Step in
/-- The functions of an object. -/
def objectScript : TFavouritesFunction → List Step
  | .close => [release]
  | .isDamaged | .recover | .compact | .size | .updateStats | .begin | .commit | .rollback
  | .preferredUid | .delete | .setFactoryItem | .setReadOnly | .setModified | .setPreferredUid
  | .itemExists | .folderExists | .count | .makeUniqueName => databaseScript
  | .get | .getAll | .getUids | .getData | .getBrowserData | .restoreFactorySettings =>
      streamScript
  | .update | .add | .setSpecialItem | .setData | .setBrowserData | .setAccessPoints => itemScript
  | .fileOpen => [newHandle, use .EDatabase, mayLeave, assign .EFile, reply]
  | .fileOpenRead | .fileOpenWrite => [use .EFile, mayLeave]
  | .fileDelete => [newHandle, use .EDatabase, mayLeave]
  | .incrementalRecover | .incrementalCompact =>
      [newHandle, mayLeave, assign .EIncremental, use .EDatabase, mayLeave, reply]
  | .incrementalNext => [use .EIncremental, mayLeave]
  | .openNotifier => [newHandle, use .EDatabase, mayLeave, assign .ENotifier, reply]
  | .notifyAllEvents | .notifyChange | .notifyCancel => [use .ENotifier]
  | .streamRead | .streamWrite => [use .EStream, mayLeave]
  | _ => []

/-- A request of the client, and what happens outside of the table while it is served: which step
of the script leaves, whether there is memory for a longer table, and whether the table moves. -/
structure Request where
  word : Word
  int0 : Word
  leaves : Nat → Bool
  allocated : Bool
  moved : Bool

/-- A reference into the table: the slot, and the block of memory it is in. -/
structure Ref where
  i : Nat
  block : Nat
  deriving DecidableEq

inductive Fault where
  | outOfBounds
  | dangling
  | wrongType
  | noHandle
  deriving DecidableEq

/-- The handle that the request has made, before and behind its assignment. -/
inductive Made where
  | nothing
  | handle (h : Word)
  | object (h : Word)
  deriving DecidableEq

inductive Outcome where
  | next (made : Made) (sess : CFavouritesSession)
  | leave (sess : CFavouritesSession)
  | fault (f : Fault)
  deriving DecidableEq

/-- The object in the slot of a reference, as an object of a type. -/
def useEntry (sess : CFavouritesSession) (e : Ref) (type : TType) : Option Fault :=
  if e.block ≠ sess.block then some .dangling
  else
    match sess.iEntries[e.i]? with
    | some ⟨some object, _⟩ => if object.type = type then none else some .wrongType
    | _ => some .wrongType

/-- `Entry( h ) = *object`, with an object that has just been made. -/
def CFavouritesSession.assign (sess : CFavouritesSession) (h : Word) (type : TType) :
    CFavouritesSession :=
  { sess with
    iEntries := sess.iEntries.modify (index h) fun entry =>
      { entry with iObject := some ⟨type, sess.next⟩ }
    next := sess.next + 1
    live := ⟨toTInt h, ⟨type, sess.next⟩⟩ :: sess.live }

/-- `TFavouritesSessionEntry::Release` on the slot at `i`. -/
def CFavouritesSession.release (sess : CFavouritesSession) (i : Nat) : CFavouritesSession :=
  match sess.iEntries[i]? with
  | some ⟨some object, _⟩ =>
      { sess with
        iEntries := sess.iEntries.set i .null
        live := sess.live.filter fun grant => grant.object ≠ object }
  | _ => { sess with iEntries := sess.iEntries.set i .null }

/-- One step of the script, the `k`-th of the request. -/
def runStep (r : Request) (e : Ref) (k : Nat) (made : Made) (sess : CFavouritesSession) :
    Step → Outcome
  | .mayLeave => if r.leaves k then .leave sess else .next made sess
  | .use type =>
      match useEntry sess e type with
      | some f => .fault f
      | none => .next made sess
  | .useStream =>
      match sess.entryL r.int0 with
      | .badHandle => .leave sess
      | .outOfBounds => .fault .outOfBounds
      | .found i entry =>
          match useEntry sess ⟨i, sess.block⟩ .EStream with
          | some f => .fault f
          | none => .next made (sess.see (.entry r.int0 entry.iObject sess.live))
  | .newHandle =>
      match newHandleL sess r.allocated r.moved with
      | none => .leave sess
      | some (h, sess') => .next (.handle h) sess'
  | .assign type =>
      match made with
      | .handle h =>
          match sess.entryL h with
          | .found _ _ => .next (.object h) (sess.assign h type)
          | _ => .fault .noHandle
      | _ => .fault .noHandle
  | .release =>
      if e.block ≠ sess.block then .fault .dangling
      else .next made (sess.release e.i)
  | .reply =>
      match made with
      | .object h => .next made (sess.see (.reply (toTInt h)))
      | _ => .fault .noHandle

/-- The script of a request, from its `k`-th step on. A leave ends the request, and the session
stays as it is then. -/
def runScript (r : Request) (e : Ref) :
    Nat → Made → CFavouritesSession → List Step → Except Fault CFavouritesSession
  | _, _, sess, [] => .ok sess
  | k, made, sess, step :: steps =>
      match runStep r e k made sess step with
      | .next made' sess' => runScript r e (k + 1) made' sess' steps
      | .leave sess' => .ok sess'
      | .fault f => .error f

/-- `CFavouritesSession::ServiceL` -/
def serviceL (r : Request) (sess : CFavouritesSession) : Except Fault CFavouritesSession :=
  if isNull r.word then
    runScript r ⟨0, 0⟩ 0 .nothing sess (sessionScript (function r.word))
  else
    match sess.entryL r.word with
    | .badHandle => .ok sess
    | .outOfBounds => .error .outOfBounds
    | .found i entry =>
        runScript r ⟨i, sess.block⟩ 0 .nothing (sess.see (.entry r.word entry.iObject sess.live))
          (objectScript (function r.word))

end SymbianWeb.Favourites
