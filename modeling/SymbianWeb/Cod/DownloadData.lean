import Mathlib
import SymbianWeb.Library.ByteStream

/-!
# Download descriptors (`DownloadDataClient.cpp`, `DownloadDataServ.cpp`)

The COD engine describes a download in a `CDownloadDataClient` and writes it to a stream; the
download manager reads it into a `CDownloadDataServ`. The two classes are matched by hand: the
order of the fields is the order of the two functions below.

A string attribute is a pointer to a heap descriptor; a null pointer is `none`. How a descriptor
is stored in a stream is not part of the repository: `DescriptorStream` is what the code relies on.
-/

set_option autoImplicit false

namespace SymbianWeb.Cod.DownloadData

open ByteStream

/-- A descriptor; its length has 28 bits. -/
abbrev Desc (α : Type) := { d : List α // d.length < 268435456 }

/-- An array whose count is a `TInt`. -/
abbrev BoundedArray (α : Type) := { items : List α // items.length < 2147483648 }

/-- `AppendL`; `none` is a leave. -/
def BoundedArray.appendL {α : Type} (array : BoundedArray α) (item : α) :
    Option (BoundedArray α) :=
  if h : (array.val ++ [item]).length < 2147483648 then some ⟨array.val ++ [item], h⟩ else none

def emptyDesc {α : Type} : Desc α := ⟨[], by simp⟩

def emptyArray {α : Type} : BoundedArray α := ⟨[], by simp⟩

/-- Descriptors in a stream. What is read is limited to a maximum length, and a descriptor of
16-bit characters is not read as one of 8-bit characters. -/
class DescriptorStream where
  write8 : Desc UInt8 → List UInt8
  write16 : Desc UInt16 → List UInt8
  newL8 : Nat → Reader (Desc UInt8)
  newL16 : Nat → Reader (Desc UInt16)
  reads8 : ∀ aMaxLength (d : Desc UInt8), d.val.length ≤ aMaxLength →
    Reads (newL8 aMaxLength) (write8 d) d
  reads16 : ∀ aMaxLength (d : Desc UInt16), d.val.length ≤ aMaxLength →
    Reads (newL16 aMaxLength) (write16 d) d
  long8 : ∀ aMaxLength (d : Desc UInt8), aMaxLength < d.val.length →
    ∀ rest, ∃ e, newL8 aMaxLength (write8 d ++ rest) = .error e
  wide8 : ∀ aMaxLength (d : Desc UInt16) rest,
    ∃ e, newL8 aMaxLength (write16 d ++ rest) = .error e

/-- `COD_NAME_MAX_LEN`. -/
def codNameMaxLen : Nat := 40

/-- `COD_URL_MAX_LEN`. -/
def codUrlMaxLen : Nat := 1024

/-- `COD_TYPE_MAX_LEN`. -/
def codTypeMaxLen : Nat := 40

/-- `COD_ICON_MAX_LEN`. -/
def codIconMaxLen : Nat := 1024

/-- `KMaxFileName`. -/
def kMaxFileName : Nat := 256

/-! ## The COD engine -/

/-- `CMediaDataClient`; `TInt`, `TBool` and the enumeration `TMediaObjectState` have 32 bits. -/
structure CMediaDataClient where
  iName : Option (Desc UInt16)
  iUrl : Option (Desc UInt8)
  iSize : UInt32
  iTypes : Option (BoundedArray (Desc UInt8))
  iIcon : Option (Desc UInt8)
  iSourceUri : Option (Desc UInt8)
  iProgressiveDl : Int32
  iState : Int32
  iResult : Int32
  iRedirUrl : Option (Desc UInt8)
  iMethod : Int32
  iRedirected : Int32
  iDestFilename : Option (Desc UInt16)
  iDownloadedSize : Int32
  iDesRemovable : Int32
  iLastErrorId : Int32
  iGlobalErrorId : Int32
  iPausable : Int32
  iTempFilename : Option (Desc UInt16)
  iStatusCode : Int32
  deriving DecidableEq

/-- `CDownloadDataClient`. -/
structure CDownloadDataClient where
  iName : Option (Desc UInt16)
  iSize : UInt32
  iIcon : Option (Desc UInt8)
  iUpdatedDDUri : Option (Desc UInt8)
  iMediaArray : BoundedArray CMediaDataClient
  deriving DecidableEq

/-- `CMediaDataClient::NewL`: `ConstructL` allocates every string; the rest is zero. -/
def CMediaDataClient.newL : CMediaDataClient where
  iName := some emptyDesc
  iUrl := some emptyDesc
  iSize := 0
  iTypes := some emptyArray
  iIcon := some emptyDesc
  iSourceUri := some emptyDesc
  iProgressiveDl := 0
  iState := 0
  iResult := 0
  iRedirUrl := some emptyDesc
  iMethod := 0
  iRedirected := 0
  iDestFilename := some emptyDesc
  iDownloadedSize := 0
  iDesRemovable := 0
  iLastErrorId := 0
  iGlobalErrorId := 0
  iPausable := 0
  iTempFilename := some emptyDesc
  iStatusCode := 0

/-- `CDownloadDataClient::NewL`. -/
def CDownloadDataClient.newL : CDownloadDataClient where
  iName := some emptyDesc
  iSize := 0
  iIcon := some emptyDesc
  iUpdatedDDUri := some emptyDesc
  iMediaArray := emptyArray

/-- `SetStringAttrL`: the attribute afterwards. -/
def setStringAttrL {α : Type} (aBuf : Option (Desc α)) (aString : Desc α) (aMaxLength : Nat) :
    Option (Desc α) :=
  if aMaxLength < aString.val.length then aBuf else some aString

/-- `AddTypeL`: the type list afterwards. A null pointer is dereferenced, and `AppendL` may leave;
both are `none`. -/
def addTypeL (iTypes : Option (BoundedArray (Desc UInt8))) (aType : Desc UInt8) :
    Option (Option (BoundedArray (Desc UInt8))) :=
  if codTypeMaxLen < aType.val.length ∨ aType.val = [] then some iTypes
  else
    match iTypes with
    | none => none
    | some types => (BoundedArray.appendL types aType).map some

/-- The setters of `CMediaDataClient`. -/
inductive MediaSetter where
  | setNameL (aName : Desc UInt16)
  | setUrlL (aUrl : Desc UInt8)
  | setSize (aSize : UInt32)
  | setTypeL (aType : Desc UInt8)
  | addTypeL (aType : Desc UInt8)
  | resetTypes
  | setIconL (aIcon : Desc UInt8)
  | setSourceUriL (aSourceUri : Desc UInt8)
  | setProgressiveDownload (aProgressiveDl : Int32)
  | setState (aState : Int32)
  | setResult (aResult : Int32)
  | setStatusCode (aStatusCode : Int32)
  | setRedirUrlL (aRedirUrl : Desc UInt8)
  | setMethod (aMethod : Int32)
  | setRedirected (aRedirected : Int32)
  | setDestFilenameL (aDestFilename : Desc UInt16)
  | setTempFilenameL (aTempFilename : Desc UInt16)
  | setDownloadedSize (aDownloadedSize : Int32)
  | setDesRemovable (aDesRemovable : Int32)
  | setLastErrorId (aLastErrorId : Int32)
  | setGlobalErrorId (aGlobalErrorId : Int32)
  | setPausable (aPausable : Int32)

/-- What a setter does; `none` is a null pointer or a leave. -/
def MediaSetter.run (m : CMediaDataClient) : MediaSetter → Option CMediaDataClient
  | .setNameL aName => some { m with iName := setStringAttrL m.iName aName codNameMaxLen }
  | .setUrlL aUrl => some { m with iUrl := setStringAttrL m.iUrl aUrl codUrlMaxLen }
  | .setSize aSize => some (if aSize = 0 then m else { m with iSize := aSize })
  | .setTypeL aType =>
      match m.iTypes with
      | none => none
      | some _ =>
          -- support only one type
          (DownloadData.addTypeL (some emptyArray) aType).map fun types => { m with iTypes := types }
  | .addTypeL aType =>
      (DownloadData.addTypeL m.iTypes aType).map fun types => { m with iTypes := types }
  | .resetTypes => m.iTypes.map fun _ => { m with iTypes := some emptyArray }
  | .setIconL aIcon => some { m with iIcon := setStringAttrL m.iIcon aIcon codIconMaxLen }
  | .setSourceUriL aSourceUri => some { m with iSourceUri := some aSourceUri }
  | .setProgressiveDownload aProgressiveDl => some { m with iProgressiveDl := aProgressiveDl }
  | .setState aState => some { m with iState := aState }
  | .setResult aResult => some { m with iResult := aResult }
  | .setStatusCode aStatusCode => some { m with iStatusCode := aStatusCode }
  | .setRedirUrlL aRedirUrl =>
      some { m with iRedirUrl := setStringAttrL m.iRedirUrl aRedirUrl codUrlMaxLen }
  | .setMethod aMethod => some { m with iMethod := aMethod }
  | .setRedirected aRedirected => some { m with iRedirected := aRedirected }
  | .setDestFilenameL aDestFilename =>
      some { m with iDestFilename := setStringAttrL m.iDestFilename aDestFilename kMaxFileName }
  | .setTempFilenameL aTempFilename =>
      some { m with iTempFilename := setStringAttrL m.iTempFilename aTempFilename kMaxFileName }
  | .setDownloadedSize aDownloadedSize =>
      some (if aDownloadedSize ≤ 0 then m else { m with iDownloadedSize := aDownloadedSize })
  | .setDesRemovable aDesRemovable => some { m with iDesRemovable := aDesRemovable }
  | .setLastErrorId aLastErrorId => some { m with iLastErrorId := aLastErrorId }
  | .setGlobalErrorId aGlobalErrorId => some { m with iGlobalErrorId := aGlobalErrorId }
  | .setPausable aPausable => some { m with iPausable := aPausable }

/-- The setters of `CDownloadDataClient`, and the setters of a media object in its array. -/
inductive DownloadSetter where
  | setNameL (aName : Desc UInt16)
  | setSize (aSize : UInt32)
  | setIconL (aIcon : Desc UInt8)
  | setUpdatedDDURI (aUrl : Desc UInt8)
  | media (aIndex : Nat) (setter : MediaSetter)

/-- What a setter does; an index out of bounds gives a null pointer. -/
def DownloadSetter.run (d : CDownloadDataClient) : DownloadSetter → Option CDownloadDataClient
  | .setNameL aName => some { d with iName := setStringAttrL d.iName aName codNameMaxLen }
  | .setSize aSize => some (if aSize = 0 then d else { d with iSize := aSize })
  | .setIconL aIcon => some { d with iIcon := setStringAttrL d.iIcon aIcon codIconMaxLen }
  | .setUpdatedDDURI aUrl =>
      some { d with iUpdatedDDUri := setStringAttrL d.iUpdatedDDUri aUrl codUrlMaxLen }
  | .media aIndex setter =>
      match d.iMediaArray.val[aIndex]? with
      | none => none
      | some m =>
          (setter.run m).map fun m' =>
            { d with
              iMediaArray := ⟨d.iMediaArray.val.set aIndex m', by
                rw [List.length_set]
                exact d.iMediaArray.property⟩ }

/-- `AppendMediaData`. -/
def CDownloadDataClient.appendMediaData (d : CDownloadDataClient) (aMO : CMediaDataClient) :
    Option CDownloadDataClient :=
  (BoundedArray.appendL d.iMediaArray aMO).map fun iMediaArray => { d with iMediaArray }

/-- The media objects the engine can hold: made by `NewL` and changed by setters. -/
inductive CMediaDataClient.Held : CMediaDataClient → Prop where
  | newL : Held .newL
  | set {m m' : CMediaDataClient} (h : Held m) (setter : MediaSetter)
      (hrun : setter.run m = some m') : Held m'

/-- The descriptors the engine can hold. -/
inductive CDownloadDataClient.Held : CDownloadDataClient → Prop where
  | newL : Held .newL
  | set {d d' : CDownloadDataClient} (h : Held d) (setter : DownloadSetter)
      (hrun : setter.run d = some d') : Held d'
  | append {d d' : CDownloadDataClient} {m : CMediaDataClient} (h : Held d) (hm : m.Held)
      (hrun : d.appendMediaData m = some d') : Held d'

/-! ## The download manager -/

/-- `CMediaDataServ`. -/
structure CMediaDataServ where
  iName : Desc UInt16
  iUrl : Desc UInt8
  iSize : UInt32
  iTypes : List (Desc UInt8)
  iIcon : Desc UInt8
  iSourceUri : Desc UInt8
  iProgressiveDl : Int32
  iState : Int32
  iResult : Int32
  iRedirUrl : Desc UInt8
  iMethod : Int32
  iRedirected : Int32
  iDestFilename : Desc UInt16
  iDownloadedSize : Int32
  iDesRemovable : Int32
  iLastErrorId : Int32
  iGlobalErrorId : Int32
  iPausable : Int32
  iTempFilename : Desc UInt16
  iStatusCode : Int32
  deriving DecidableEq

/-- `CDownloadDataServ`. -/
structure CDownloadDataServ where
  iName : Desc UInt16
  iSize : UInt32
  iIcon : Desc UInt8
  iUpdatedDDUri : Desc UInt8
  iMediaArray : List CMediaDataServ
  deriving DecidableEq

/-! ## The stream -/

/-- `WriteUint32L`. -/
def writeUint32L (v : UInt32) : List UInt8 := leBytes 4 v.toNat

/-- `ReadUint32L`. -/
def readUint32L : Reader UInt32 := UInt32.ofNat <$> readLe 4

/-- `WriteInt32L`. -/
def writeInt32L (v : Int32) : List UInt8 := writeInt32 v.toInt

/-- `ReadInt32L`. -/
def readInt32L : Reader Int32 := Int32.ofInt <$> readInt32

section Stream

variable [DescriptorStream]

/-- An 8-bit attribute, or `KNullDesC`, which has 16-bit characters. -/
def externalize8 (aBuf : Option (Desc UInt8)) : List UInt8 :=
  match aBuf with
  | some d => DescriptorStream.write8 d
  | none => DescriptorStream.write16 emptyDesc

/-- A 16-bit attribute, or `KNullDesC`. -/
def externalize16 (aBuf : Option (Desc UInt16)) : List UInt8 :=
  DescriptorStream.write16 (aBuf.getD emptyDesc)

/-- The number of types and the types. -/
def externalizeTypes (iTypes : Option (BoundedArray (Desc UInt8))) : List UInt8 :=
  match iTypes with
  | some types => writeInt32 types.val.length ++ types.val.flatMap DescriptorStream.write8
  | none => writeInt32 0

/-- The file name, if there is an icon; `none` is a null pointer. -/
def CMediaDataClient.externalizeDestFilename (m : CMediaDataClient) : Option (List UInt8) :=
  match m.iIcon with
  | some _ => m.iDestFilename.map DescriptorStream.write16
  | none => some (DescriptorStream.write16 emptyDesc)

/-- `CMediaDataClient::ExternalizeL`; `none` is a null pointer. -/
def CMediaDataClient.externalizeL (m : CMediaDataClient) : Option (List UInt8) :=
  m.externalizeDestFilename.map fun destFilename =>
    (externalize16 m.iName ++ (externalize8 m.iUrl ++ (writeUint32L m.iSize ++
    (externalizeTypes m.iTypes ++ (externalize8 m.iIcon ++ (externalize8 m.iSourceUri ++
    (writeInt32L m.iProgressiveDl ++ (writeInt32L m.iState ++ (writeInt32L m.iResult ++
    (externalize8 m.iRedirUrl ++ (writeInt32L m.iMethod ++ (writeInt32L m.iRedirected ++
    (destFilename ++ (writeInt32L m.iDownloadedSize ++ (writeInt32L m.iDesRemovable ++
    (writeInt32L m.iLastErrorId ++ (writeInt32L m.iGlobalErrorId ++
    (writeInt32L m.iPausable ++ writeInt32L m.iStatusCode))))))))))))))))))

/-- The loop of `CDownloadDataClient::ExternalizeL`. -/
def externalizeMedia : List CMediaDataClient → Option (List UInt8)
  | [] => some []
  | m :: ms => do
      let bytes ← m.externalizeL
      let rest ← externalizeMedia ms
      pure (bytes ++ rest)

/-- `CDownloadDataClient::ExternalizeL`. -/
def CDownloadDataClient.externalizeL (d : CDownloadDataClient) : Option (List UInt8) := do
  let media ← externalizeMedia d.iMediaArray.val
  pure (externalize16 d.iName ++ (writeUint32L d.iSize ++ (externalize8 d.iIcon ++
    (externalize8 d.iUpdatedDDUri ++ (writeInt32 d.iMediaArray.val.length ++ media)))))

/-- Fill the elements of the array `iTypes`. -/
def internalizeTypes : Reader (List (Desc UInt8)) := do
  let count ← readInt32
  readList (DescriptorStream.newL8 codTypeMaxLen) count.toNat

/-- `CMediaDataServ::InternalizeL`. -/
def CMediaDataServ.internalizeL : Reader CMediaDataServ := do
  let iName ← DescriptorStream.newL16 codNameMaxLen
  let iUrl ← DescriptorStream.newL8 codUrlMaxLen
  let iSize ← readUint32L
  let iTypes ← internalizeTypes
  let iIcon ← DescriptorStream.newL8 codIconMaxLen
  let iSourceUri ← DescriptorStream.newL8 codUrlMaxLen
  let iProgressiveDl ← readInt32L
  let iState ← readInt32L
  let iResult ← readInt32L
  let iRedirUrl ← DescriptorStream.newL8 codUrlMaxLen
  let iMethod ← readInt32L
  let iRedirected ← readInt32L
  let iDestFilename ← DescriptorStream.newL16 kMaxFileName
  let iDownloadedSize ← readInt32L
  let iDesRemovable ← readInt32L
  let iLastErrorId ← readInt32L
  let iGlobalErrorId ← readInt32L
  let iPausable ← readInt32L
  let iStatusCode ← readInt32L
  pure { iName, iUrl, iSize, iTypes, iIcon, iSourceUri, iProgressiveDl, iState, iResult,
         iRedirUrl, iMethod, iRedirected, iDestFilename, iDownloadedSize, iDesRemovable,
         iLastErrorId, iGlobalErrorId, iPausable, iTempFilename := emptyDesc, iStatusCode }

/-- `CDownloadDataServ::InternalizeL`. -/
def CDownloadDataServ.internalizeL : Reader CDownloadDataServ := do
  let iName ← DescriptorStream.newL16 codNameMaxLen
  let iSize ← readUint32L
  let iIcon ← DescriptorStream.newL8 codIconMaxLen
  let iUpdatedDDUri ← DescriptorStream.newL8 codUrlMaxLen
  let count ← readInt32
  let iMediaArray ← readList CMediaDataServ.internalizeL count.toNat
  pure { iName, iSize, iIcon, iUpdatedDDUri, iMediaArray }

end Stream

end SymbianWeb.Cod.DownloadData
