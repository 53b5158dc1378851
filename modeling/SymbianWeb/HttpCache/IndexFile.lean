import SymbianWeb.Library.ByteStream
import SymbianWeb.HttpCache.State

/-!
# The index file

`externalizeL` writes the entries of a lookup table to `index.dat` and `internalizeL` reads them
back. A file name is stored as its last eight characters; the reader rebuilds the path from the
directory, the last character and the name.

Reading an entry traps every leave but `KErrNoMemory`, which does not occur here, so a truncated
entry is skipped and the loop goes on with what is left of the stream.
-/

set_option autoImplicit false

namespace SymbianWeb.HttpCache

open ByteStream

/-- `KCacheVersionNumber`. -/
def kCacheVersionNumber : Int := 2

/-- `KFilenameLength`. -/
def kFilenameLength : Nat := 8

/-- `Right`: the rightmost part of a descriptor. -/
def right {α : Type} (aLength : Nat) (d : List α) : List α := d.drop (d.length - aLength)

section Index

variable [Platform]

/-! ## Writing -/

/-- `CHttpCacheEntry::ExternalizeL`; a null header buffer is dereferenced. -/
def CHttpCacheEntry.externalizeL (e : CHttpCacheEntry) : Option Des8 :=
  match e.iHeaderBuffer with
  | none => none
  | some header => some
      (writeInt32 e.iUrl.length ++ e.iUrl ++
      writeUnits (right kFilenameLength e.iFileName) ++
      Platform.writeReal64 e.iLastAccessed ++
      leBytes 4 e.iRef.toNat ++
      leBytes 4 e.iBodySize ++
      leBytes 4 e.iHeaderSize.toNat ++
      writeInt32 e.iProtected.toNat ++
      writeInt32 header.length ++ header)

/-- The second loop of `CHttpCacheLookupTable::ExternalizeL`. -/
def externalizeEntries : List CHttpCacheEntry → Option Des8
  | [] => some []
  | e :: es => do
      let bytes ← e.externalizeL
      let rest ← externalizeEntries es
      pure (bytes ++ rest)

/-- `Valid( i ) && entry->BodySize() > 0`, for the entries of `Valid` slots. -/
def CHttpCacheEntry.goingToWrite (e : CHttpCacheEntry) : Bool := decide (0 < e.iBodySize)

/-- `CHttpCacheLookupTable::ExternalizeL`, for the entries of the `Valid` slots in order. -/
def externalizeL (aDirectory : Des16) (entries : List CHttpCacheEntry) : Option Des8 := do
  let goingToWrite := entries.filter CHttpCacheEntry.goingToWrite
  let bytes ← externalizeEntries goingToWrite
  pure (writeInt32 kCacheVersionNumber ++ writeInt32 aDirectory.length ++
    writeUnits aDirectory ++ writeInt32 goingToWrite.length ++ bytes)

/-! ## Reading -/

/-- A length, a buffer of that length (a negative one panics), and the bytes. -/
def readDes8 : Reader Des8 := do
  let len ← readInt32
  if len < 0 then failWith .panic else readBytes len.toNat

/-- `CHttpCacheEntry::InternalizeL` up to `SetState( ECacheComplete )`, which divides the body
size by the reference count. -/
def internalizeEntryL (aDirectory : Des16) : Reader CHttpCacheEntry := do
  let url ← readDes8
  let uniqueFilename ← readUnits kFilenameLength
  let uniqueSubDir := right 1 uniqueFilename
  let la ← Platform.readReal64 <$> readBytes 8
  let ref ← readLe 4
  let bodySize ← readLe 4
  let headerSize ← readLe 4
  let isProtected ← readInt32
  let header ← readDes8
  if UInt16.ofNat ref = 0 then failWith .panic
  else
    pure { iUrl := url
           iFileName := aDirectory ++ uniqueSubDir ++ kPathDelimiter :: uniqueFilename
           iLastAccessed := la
           iRef := UInt16.ofNat ref
           iBodySize := bodySize
           iHeaderSize := UInt16.ofNat headerSize
           iProtected := UInt8.ofNat (isProtected % 256).toNat
           iHeaderBuffer := some header }

/-- The loop of `CHttpCacheLookupTable::InternalizeL`: the entries that could be read. -/
def internalizeEntries (aDirectory : Des16) : Nat → Reader (List CHttpCacheEntry)
  | 0 => pure []
  | n + 1 => fun bytes =>
      match internalizeEntryL aDirectory bytes with
      | .ok (e, rest) => (internalizeEntries aDirectory n rest).map fun p => (e :: p.1, p.2)
      | .error .eof => internalizeEntries aDirectory n []
      | .error .panic => .error .panic

/-- `CHttpCacheLookupTable::InternalizeL` up to the insertions. `none` means that nothing is
read: the version is another one, or the directory stub is empty. -/
def internalizeL (aDirectory : Des16) : Reader (Option (List CHttpCacheEntry)) := do
  let version ← readInt32
  if version = kCacheVersionNumber then do
    let len ← readInt32
    if len = 0 then pure none
    else if len < 0 then failWith .panic
    else do
      let _ ← readUnits len.toNat
      let count ← readInt32
      some <$> internalizeEntries aDirectory count.toNat
  else pure none

/-- What `OpenLookupTableL` finds: it leaves, or reads nothing, or reads entries. -/
inductive IndexRead where
  | left
  | nothing
  | loaded (entries : List CHttpCacheEntry)

/-- `OpenLookupTableL` up to the insertions, for the contents of the index file when it can be
opened; `none` is a panic. -/
def openLookupTableL (aDirectory : Des16) (indexFile : Option Des8) : Option IndexRead :=
  match indexFile with
  | none => some .nothing
  | some [] => some .nothing
  | some bytes =>
      match internalizeL aDirectory bytes with
      | .ok (none, _) => some .nothing
      | .ok (some entries, _) => some (.loaded entries)
      | .error .eof => some .left
      | .error .panic => none

/-- `contentSize` of `InternalizeL`. -/
def contentSizeOf (entries : List CHttpCacheEntry) : Int :=
  (entries.map fun e => (e.size : Int)).sum

end Index

end SymbianWeb.HttpCache
