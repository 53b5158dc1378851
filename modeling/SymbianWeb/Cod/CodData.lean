import SymbianWeb.Cod.DownloadData
import SymbianWeb.Cod.FileSaver

/-!
# The data of a descriptor (`CodData.cpp`, `MediaObject.cpp`)

A descriptor describes a download as a whole and the media objects in it. Both parsers fill the same
two classes through their setters. The setters of a media object cut what is too long, or take it;
those of the whole refuse it.
-/

set_option autoImplicit false

namespace SymbianWeb.Cod

open DownloadData (codNameMaxLen codUrlMaxLen codTypeMaxLen codIconMaxLen)

/-- Text as the descriptor has it. -/
abbrev Text := List UInt16

/-- A pointer to a heap descriptor of 16-bit units; `none` is the null pointer. -/
abbrev HBufC := Option Text

abbrev HBufC8 := Option Bytes

def codVendorMaxLen : Nat := 40

def codDescriptionMaxLen : Nat := 160

def codInstallNotifyMaxLen : Nat := 1024

def codNextUrlMaxLen : Nat := 1024

def codNextUrlAtErrorMaxLen : Nat := 1024

def codInfoUrlMaxLen : Nat := 1024

def codPriceMaxLen : Nat := 32

def codVersionMaxLen : Nat := 40

def KErrGeneral : Int := -2

def KErrCodInvalidDescriptor : Int := -1000

def KHttp902UserCancelled : Int := 902

/-- `CodUtil::ConvertL`: a unit that is not in one byte becomes 1. -/
def convertL (aDes : Text) : Bytes :=
  aDes.map fun u => if u.toNat < 256 then u.toUInt8 else 1

/-! ## A media object -/

/-- `TMediaObjectState`, a number that is also read from a file. -/
abbrev TMediaObjectState := Int32

def eQueued : TMediaObjectState := 0

def eInProgress : TMediaObjectState := 1

structure CMediaObjectData where
  iName : HBufC
  iDescription : HBufC
  iUrl : HBufC8
  iSize : UInt32
  iTypes : List Bytes
  iInstallNotify : HBufC8
  iInfoUrl : HBufC8
  iPrice : HBufC
  iIcon : HBufC8
  iSourceUri : HBufC8
  iProgressiveDl : Bool
  iIsPostOrder : Bool
  iDownloadedSize : Int32
  iState : TMediaObjectState
  iStatusCode : Int32
  iResult : Int32
  iFileName : Text
  iFullName : HBufC
  iTempPath : Text
  iRootPath : Text
  iPausable : Bool
  iUniqueFilenameSet : Bool

namespace CMediaObjectData

/-- `CMediaObjectData::NewL` -/
def newL : CMediaObjectData where
  iName := some []
  iDescription := some []
  iUrl := some []
  iSize := 0
  iTypes := []
  iInstallNotify := some []
  iInfoUrl := some []
  iPrice := some []
  iIcon := some []
  iSourceUri := some []
  iProgressiveDl := false
  iIsPostOrder := false
  iDownloadedSize := 0
  iState := eQueued
  iStatusCode := Int32.ofInt KHttp902UserCancelled
  iResult := Int32.ofInt KErrGeneral
  iFileName := []
  iFullName := none
  iTempPath := []
  iRootPath := []
  iPausable := false
  iUniqueFilenameSet := false

/-- `CMediaObjectData::SetStringAttrL` for 16-bit units: cuts. -/
def setStringAttrL (aString : Text) (aMaxLength : Nat) : HBufC := some (aString.take aMaxLength)

/-- `CMediaObjectData::SetStringAttrL` for bytes: the maximum length is not looked at. -/
def setStringAttrL8 (aString : Text) (_aMaxLength : Nat) : HBufC8 := some (convertL aString)

def setNameL (m : CMediaObjectData) (aName : Text) : CMediaObjectData :=
  { m with iName := setStringAttrL aName codNameMaxLen }

def setDescriptionL (m : CMediaObjectData) (aDescription : Text) : CMediaObjectData :=
  { m with iDescription := setStringAttrL aDescription codDescriptionMaxLen }

def setUrlL (m : CMediaObjectData) (aUrl : Text) : CMediaObjectData :=
  { m with iUrl := setStringAttrL8 aUrl codUrlMaxLen }

def setInstallNotifyL (m : CMediaObjectData) (aInstallNotify : Text) : CMediaObjectData :=
  { m with iInstallNotify := setStringAttrL8 aInstallNotify codInstallNotifyMaxLen }

def setInfoUrlL (m : CMediaObjectData) (aInfoUrl : Text) : CMediaObjectData :=
  { m with iInfoUrl := setStringAttrL8 aInfoUrl codInfoUrlMaxLen }

def setPriceL (m : CMediaObjectData) (aPrice : Text) : CMediaObjectData :=
  { m with iPrice := setStringAttrL aPrice codPriceMaxLen }

def setIconL (m : CMediaObjectData) (aIcon : Text) : CMediaObjectData :=
  { m with iIcon := setStringAttrL8 aIcon codIconMaxLen }

/-- `CMediaObjectData::SetSize`: a `TInt`; the parsers do not look at the result. -/
def setSize (m : CMediaObjectData) (aSize : UInt32) : CMediaObjectData :=
  if aSize.toInt32 ≤ 0 then m else { m with iSize := aSize }

/-- `CMediaObjectData::AddTypeL` with its result. -/
def addTypeL (m : CMediaObjectData) (aType : Text) : Bool × CMediaObjectData :=
  if aType.length > codTypeMaxLen ∨ aType.length = 0 then
    (false, m)
  else
    (true, { m with iTypes := m.iTypes ++ [convertL aType] })

/-- `CMediaObjectData::SetTypeL` -/
def setTypeL (m : CMediaObjectData) (aType : Text) : Bool × CMediaObjectData :=
  addTypeL { m with iTypes := [] } aType

def setProgressiveDownload (m : CMediaObjectData) (aProgressiveDl : Bool) : CMediaObjectData :=
  { m with iProgressiveDl := aProgressiveDl }

def setOrderIsPost (m : CMediaObjectData) (aIsPostOrder : Bool) : CMediaObjectData :=
  { m with iIsPostOrder := aIsPostOrder }

end CMediaObjectData

/-! ## The whole -/

structure CCodData where
  iName : HBufC
  iVendor : HBufC
  iDescription : HBufC
  iSize : UInt32
  iInstallNotify : HBufC8
  iNextUrl : HBufC8
  iNextUrlAtError : HBufC8
  iInfoUrl : HBufC8
  iPrice : HBufC
  iIcon : HBufC8
  iVersion : HBufC
  iIsPostOrder : Bool
  iSuppressConfirm : Int32
  iSourceUri : HBufC8
  iUpdatedDDUri : HBufC8
  iActiveDownload : Int32
  iMediaObjects : List CMediaObjectData

namespace CCodData

/-- `CCodData::NewL` -/
def newL : CCodData where
  iName := some []
  iVendor := some []
  iDescription := some []
  iSize := 0
  iInstallNotify := some []
  iNextUrl := some []
  iNextUrlAtError := some []
  iInfoUrl := some []
  iPrice := some []
  iIcon := some []
  iVersion := some []
  iIsPostOrder := false
  iSuppressConfirm := 0
  iSourceUri := some []
  iUpdatedDDUri := some []
  iActiveDownload := 1
  iMediaObjects := []

/-- `CCodData::SetStringAttrL` for 16-bit units: the result and the new buffer. -/
def setStringAttrL (aBuf : HBufC) (aString : Text) (aMaxLength : Nat) : Bool × HBufC :=
  if aString.length > aMaxLength then (false, aBuf) else (true, some aString)

/-- `CCodData::SetStringAttrL` for bytes. -/
def setStringAttrL8 (aBuf : HBufC8) (aString : Text) (aMaxLength : Nat) : Bool × HBufC8 :=
  if aString.length > aMaxLength then (false, aBuf) else (true, some (convertL aString))

def setNameL (d : CCodData) (aName : Text) : Bool × CCodData :=
  let (ok, buf) := setStringAttrL d.iName aName codNameMaxLen
  (ok, { d with iName := buf })

def setVendorL (d : CCodData) (aVendor : Text) : Bool × CCodData :=
  let (ok, buf) := setStringAttrL d.iVendor aVendor codVendorMaxLen
  (ok, { d with iVendor := buf })

def setNextUrlL (d : CCodData) (aNextUrl : Text) : Bool × CCodData :=
  let (ok, buf) := setStringAttrL8 d.iNextUrl aNextUrl codNextUrlMaxLen
  (ok, { d with iNextUrl := buf })

def setNextUrlAtErrorL (d : CCodData) (aNextUrlAtError : Text) : Bool × CCodData :=
  let (ok, buf) := setStringAttrL8 d.iNextUrlAtError aNextUrlAtError codNextUrlAtErrorMaxLen
  (ok, { d with iNextUrlAtError := buf })

def setDescriptionL (d : CCodData) (aDescription : Text) : Bool × CCodData :=
  let (ok, buf) := setStringAttrL d.iDescription aDescription codDescriptionMaxLen
  (ok, { d with iDescription := buf })

def setInstallNotifyL (d : CCodData) (aInstallNotify : Text) : Bool × CCodData :=
  let (ok, buf) := setStringAttrL8 d.iInstallNotify aInstallNotify codInstallNotifyMaxLen
  (ok, { d with iInstallNotify := buf })

def setInfoUrlL (d : CCodData) (aInfoUrl : Text) : Bool × CCodData :=
  let (ok, buf) := setStringAttrL8 d.iInfoUrl aInfoUrl codInfoUrlMaxLen
  (ok, { d with iInfoUrl := buf })

def setIconL (d : CCodData) (aIcon : Text) : Bool × CCodData :=
  let (ok, buf) := setStringAttrL8 d.iIcon aIcon codIconMaxLen
  (ok, { d with iIcon := buf })

def setVersionL (d : CCodData) (aVersion : Text) : Bool × CCodData :=
  let (ok, buf) := setStringAttrL d.iVersion aVersion codVersionMaxLen
  (ok, { d with iVersion := buf })

def setUpdatedDDURI (d : CCodData) (aUrl : Text) : Bool × CCodData :=
  let (ok, buf) := setStringAttrL8 d.iUpdatedDDUri aUrl codUrlMaxLen
  (ok, { d with iUpdatedDDUri := buf })

def setOrderIsPost (d : CCodData) (aIsPostOrder : Bool) : CCodData :=
  { d with iIsPostOrder := aIsPostOrder }

/-- `CCodData::ENever` -/
def eNever : Int32 := 0

def eUserConfirmStepOnly : Int32 := 1

def eAlways : Int32 := 2

def setSuppressConfirm (d : CCodData) (aSuppressConfirm : Int32) : Bool × CCodData :=
  if aSuppressConfirm < eNever ∨ aSuppressConfirm > eAlways then
    (false, d)
  else
    (true, { d with iSuppressConfirm := aSuppressConfirm })

/-- `CCodData::AppendMediaObjectL` for a new object. -/
def appendMediaObjectL (d : CCodData) (aMO : CMediaObjectData) : CCodData :=
  { d with iMediaObjects := d.iMediaObjects ++ [aMO], iSize := d.iSize + aMO.iSize }

end CCodData

end SymbianWeb.Cod
