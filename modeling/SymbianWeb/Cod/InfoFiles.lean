import SymbianWeb.Cod.CodData
import SymbianWeb.Cod.DescriptorCharset
import SymbianWeb.Cod.DownloadHandOver
import SymbianWeb.Library.FixedBuffer

/-!
# Resume information (`FileExt.h`, `MediaObject.cpp`, `CodData.cpp`, `CodEngBase.cpp`)

The engine keeps what it needs to resume a download in a main file and one file for each media
object. A file is put together in a buffer of fixed size, where an append that does not fit is a
panic (`none`), and read field by field into objects that exist. A leave of a reader is the error
at the end of a file here, also the one for a length that is too large.
-/

set_option autoImplicit false

namespace SymbianWeb.Cod

open ByteStream
open FixedBuffer (append)
open DownloadData (codTypeMaxLen kMaxFileName writeUint32L readUint32L writeInt32L readInt32L)

def KDownloadInfoIncrSize : Nat := 2 * 4096

/-- Stands for the null pointer in a file. -/
def KNullBuffer : Int := -1

/-! ## Writing -/

/-- `APPEND_BUF_INT`, with the bytes of the number. -/
def appendBufInt (number aDest : Bytes) : Option Bytes := append KDownloadInfoIncrSize number aDest

/-- `APPEND_BUF_INT` for a `TBool`. -/
def appendBufBool (flag : Bool) (aDest : Bytes) : Option Bytes :=
  appendBufInt (writeInt32L (if flag then 1 else 0)) aDest

/-- `AppendBufL` for 16-bit units. A descriptor has less than 2^28 of them. -/
def appendBufL (aSrc : HBufC) (aDest : Bytes) : Option Bytes := do
  let length : Int := match aSrc with
    | some src => src.length * 2
    | none => KNullBuffer
  let aDest ← appendBufInt (writeInt32 length) aDest
  if 0 < length then append KDownloadInfoIncrSize (writeUnits (aSrc.getD [])) aDest else some aDest

/-- `AppendBufL` for bytes. -/
def appendBufL8 (aSrc : HBufC8) (aDest : Bytes) : Option Bytes := do
  let length : Int := match aSrc with
    | some src => src.length
    | none => KNullBuffer
  let aDest ← appendBufInt (writeInt32 length) aDest
  if 0 < length then append KDownloadInfoIncrSize (aSrc.getD []) aDest else some aDest

/-- `CMediaObjectData::AppendContentTypesL`: each type goes through a descriptor of the maximum
length of a type. -/
def appendContentTypesL (aTypes : List Bytes) (aBuf : Bytes) : Option Bytes := do
  let aBuf ← appendBufInt (writeInt32 aTypes.length) aBuf
  aTypes.foldlM (fun aBuf type =>
    if type.length ≤ codTypeMaxLen then appendBufL8 (some type) aBuf else none) aBuf

/-- A header of a response, `CHeaderField`. -/
structure HeaderInfo where
  iFieldName : HBufC8
  iFieldRawData : HBufC8

/-- `CMediaObjectData::AppendHeadersL` -/
def appendHeadersL (aHeaders : Option (List HeaderInfo)) (aBuf : Bytes) : Option Bytes :=
  match aHeaders with
  | none => appendBufInt (writeInt32 0) aBuf
  | some headers => do
      let aBuf ← appendBufInt (writeInt32 headers.length) aBuf
      headers.foldlM (fun aBuf header => do
        let aBuf ← appendBufL8 header.iFieldName aBuf
        appendBufL8 header.iFieldRawData aBuf) aBuf

/-- `CMediaObjectData::StoreMediaInfoL` -/
def CMediaObjectData.storeMediaInfoL (m : CMediaObjectData) (aHeaders : Option (List HeaderInfo))
    (aBuf : Bytes) : Option Bytes := do
  let aBuf ← appendBufL m.iName aBuf
  let aBuf ← appendBufL8 m.iUrl aBuf
  let aBuf ← appendBufInt (writeUint32L m.iSize) aBuf
  let aBuf ← appendBufL m.iPrice aBuf
  let aBuf ← appendBufBool m.iProgressiveDl aBuf
  let aBuf ← appendBufL8 m.iSourceUri aBuf
  let aBuf ← appendBufL8 m.iInstallNotify aBuf
  let aBuf ← appendContentTypesL m.iTypes aBuf
  let aBuf ← appendBufInt (writeInt32L m.iState) aBuf
  let aBuf ← appendBufInt (writeInt32L m.iStatusCode) aBuf
  let aBuf ← appendBufInt (writeInt32L m.iResult) aBuf
  let aBuf ← appendBufBool m.iPausable aBuf
  let aBuf ← appendBufBool m.iUniqueFilenameSet aBuf
  let aBuf ← appendBufL m.iFullName aBuf
  let aBuf ← appendBufL (some m.iTempPath) aBuf
  let aBuf ← appendBufL (some m.iRootPath) aBuf
  appendHeadersL aHeaders aBuf

/-- `CCodData::AppendStorageInfoL` -/
def CCodData.appendStorageInfoL (d : CCodData) (aBuf : Bytes) : Option Bytes := do
  let aBuf ← appendBufL d.iName aBuf
  let aBuf ← appendBufL d.iVendor aBuf
  let aBuf ← appendBufL8 d.iNextUrl aBuf
  let aBuf ← appendBufInt (writeUint32L d.iSize) aBuf
  let aBuf ← appendBufL d.iPrice aBuf
  let aBuf ← appendBufL8 d.iSourceUri aBuf
  let aBuf ← appendBufL8 d.iInstallNotify aBuf
  let aBuf ← appendBufL8 d.iUpdatedDDUri aBuf
  appendBufInt (writeInt32 d.iMediaObjects.length) aBuf

/-- The main file and those of the media objects, which are numbered from 1. -/
structure InfoFiles where
  main : Option Bytes
  sub : Nat → Option Bytes

/-- `StoreMainInfoFileL` and `StoreSubInfoFileL` for every media object, with the headers that are
given for it. -/
def CCodData.storeInfoFilesL (d : CCodData) (headers : List (Option (List HeaderInfo))) :
    Option InfoFiles := do
  let main ← d.appendStorageInfoL []
  let subs ← (d.iMediaObjects.zip headers).mapM fun (m, aHeaders) => m.storeMediaInfoL aHeaders []
  return { main := some main, sub := fun i => if i = 0 then none else subs[i - 1]? }

/-! ## Reading -/

/-- The length of a descriptor in a file: `none` for the null pointer. A negative length cannot be
allocated. -/
def readLengthL : Reader (Option Nat) := do
  let length ← readInt32
  if length > 10 * 1024 then
    failWith .eof
  else if length = KNullBuffer then
    pure none
  else if length < 0 then
    failWith .panic
  else
    pure (some length.toNat)

/-- `ReadHBufCL` for 16-bit units. -/
def readHBufCL : Reader HBufC := do
  match ← readLengthL with
  | none => pure none
  | some length => (fun block => some (units block)) <$> readBytes length

/-- `ReadHBufCL` for bytes. -/
def readHBufCL8 : Reader HBufC8 := do
  match ← readLengthL with
  | none => pure none
  | some length => some <$> readBytes length

/-- Reads a `TBool`. -/
def readBoolL : Reader Bool := (fun v => decide (v ≠ 0)) <$> readInt32L

/-- A descriptor whose pointer is used. -/
def derefL {α : Type} (pointer : Option α) : Reader α :=
  match pointer with
  | some d => pure d
  | none => failWith .panic

/-- The assignment of a file name that is not empty. -/
def pathL (old : Text) (aBuf : HBufC) : Reader Text := do
  let path ← derefL aBuf
  if path = [] then
    pure old
  else if path.length ≤ kMaxFileName then
    pure path
  else
    failWith .panic

/-- `CMediaObjectData::LoadContentTypesL` -/
def loadContentTypesL : Reader (List Bytes) := do
  let numTypes ← readInt32
  readList (do derefL (← readHBufCL8)) numTypes.toNat

/-- `CHeaderField::LoadHeaderInfoL` -/
def loadHeaderInfoL : Reader HeaderInfo := do
  let iFieldName ← readHBufCL8
  let iFieldRawData ← readHBufCL8
  pure ⟨iFieldName, iFieldRawData⟩

/-- `CMediaObjectData::LoadHeadersL`; without an array nothing is read. -/
def loadHeadersL (aHeaders : Option (List HeaderInfo)) : Reader (Option (List HeaderInfo)) :=
  match aHeaders with
  | none => pure none
  | some _ => do
      let headers ← readInt32
      some <$> readList loadHeaderInfoL headers.toNat

/-- The file server: the size of a file that can be opened. -/
abbrev FileSizes := Text → Option Int32

/-- `CMediaObjectData::SetDownloadedFileSizeL` -/
def CMediaObjectData.setDownloadedFileSizeL (m : CMediaObjectData) (aFs : FileSizes) :
    CMediaObjectData :=
  match m.iFullName.bind aFs with
  | none => m
  | some size => { m with iDownloadedSize := size }

/-- `CMediaObjectData::LoadMediaInfoL` with the headers that are read. -/
def CMediaObjectData.loadMediaInfoL (m : CMediaObjectData) (aFs : FileSizes)
    (aHeaders : Option (List HeaderInfo)) :
    Reader (CMediaObjectData × Option (List HeaderInfo)) := do
  let iName ← readHBufCL
  let iUrl ← readHBufCL8
  let iSize ← readUint32L
  let iPrice ← readHBufCL
  let iProgressiveDl ← readBoolL
  let iSourceUri ← readHBufCL8
  let iInstallNotify ← readHBufCL8
  let iTypes ← loadContentTypesL
  let iState ← readInt32L
  let iStatusCode ← readInt32L
  let iResult ← readInt32L
  let iPausable ← readBoolL
  let iUniqueFilenameSet ← readBoolL
  let iFullName ← readHBufCL
  let iTempPath ← pathL m.iTempPath (← readHBufCL)
  let iRootPath ← pathL m.iRootPath (← readHBufCL)
  let headers ← loadHeadersL aHeaders
  pure (CMediaObjectData.setDownloadedFileSizeL
    { m with
      iName := iName, iUrl := iUrl, iSize := iSize, iPrice := iPrice
      iProgressiveDl := iProgressiveDl, iSourceUri := iSourceUri
      iInstallNotify := iInstallNotify, iTypes := iTypes, iState := iState
      iStatusCode := iStatusCode, iResult := iResult, iPausable := iPausable
      iUniqueFilenameSet := iUniqueFilenameSet, iFullName := iFullName
      iTempPath := iTempPath, iRootPath := iRootPath } aFs, headers)

/-- `CCodData::LoadStorageInfoL` -/
def CCodData.loadStorageInfoL (d : CCodData) : Reader CCodData := do
  let iName ← readHBufCL
  let iVendor ← readHBufCL
  let iNextUrl ← readHBufCL8
  let iSize ← readUint32L
  let iPrice ← readHBufCL
  let iSourceUri ← readHBufCL8
  let iInstallNotify ← readHBufCL8
  let iUpdatedDDUri ← readHBufCL8
  let mediaCount ← readInt32
  pure ((List.replicate mediaCount.toNat CMediaObjectData.newL).foldl CCodData.appendMediaObjectL
    { d with
      iName := iName, iVendor := iVendor, iNextUrl := iNextUrl, iSize := iSize, iPrice := iPrice
      iSourceUri := iSourceUri, iInstallNotify := iInstallNotify
      iUpdatedDDUri := iUpdatedDDUri })

/-- `CCodEngBase::LoadMainInfoFileL` -/
def CCodData.loadMainInfoFileL (d : CCodData) (files : InfoFiles) : Except StreamError CCodData :=
  match files.main with
  | none => .ok d
  | some bytes => Prod.fst <$> d.loadStorageInfoL bytes

/-- `CCodEngBase::LoadSubInfoFileL` -/
def CMediaObjectData.loadSubInfoFileL (m : CMediaObjectData) (files : InfoFiles) (aFs : FileSizes)
    (aMediaIndex : Nat) (aHeaders : Option (List HeaderInfo)) :
    Except StreamError (CMediaObjectData × Option (List HeaderInfo)) :=
  match files.sub aMediaIndex with
  | none => .ok (m, aHeaders)
  | some bytes => Prod.fst <$> m.loadMediaInfoL aFs aHeaders bytes

/-- The loop of `LoadInfoFilesL` over the media objects from a number on. -/
def loadSubInfoFiles (files : InfoFiles) (aFs : FileSizes) :
    Nat → List CMediaObjectData → Except StreamError (List CMediaObjectData)
  | _, [] => .ok []
  | i, m :: ms => do
      let (m, _) ← m.loadSubInfoFileL files aFs i none
      let ms ← loadSubInfoFiles files aFs (i + 1) ms
      return m :: ms

/-- The media object that the download goes on with: the first one that is queued or in
progress. -/
def firstActive : Nat → List CMediaObjectData → Option Nat
  | _, [] => none
  | i, m :: ms =>
      if m.iState = eInProgress ∨ m.iState = eQueued then some i else firstActive (i + 1) ms

/-- `CCodEngBase::LoadInfoFilesL` -/
def CCodData.loadInfoFilesL (d : CCodData) (files : InfoFiles) (aFs : FileSizes) :
    Except StreamError CCodData := do
  let d ← d.loadMainInfoFileL files
  let iMediaObjects ← loadSubInfoFiles files aFs 1 d.iMediaObjects
  let active := ((firstActive 1 iMediaObjects).map fun i => Int32.ofNat i).getD d.iActiveDownload
  return { d with
    iMediaObjects := iMediaObjects
    iActiveDownload := if active = 0 then Int32.ofNat iMediaObjects.length else active }

end SymbianWeb.Cod
