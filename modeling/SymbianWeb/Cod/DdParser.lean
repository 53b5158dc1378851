import SymbianWeb.Cod.CodParser
import SymbianWeb.Library.ErrorState

/-!
# The parser of OMA download descriptors (`codeng/src/DdParser.cpp`)

The XML parser makes a tree of the text; `TDdParser` walks over it, to a fixed depth, and gives the
texts it finds to the setters of the data. An error of a setter is kept and the walk goes on, so that
the address to notify is known as well.
-/

set_option autoImplicit false

namespace SymbianWeb.Cod

open DownloadData (codUrlMaxLen)

/-! ## The tree -/

/-- A string of the tree as `NW_String_stringToUCS2Char` gives it, up to its terminating zero, or
the code of the status that it returns. -/
abbrev DomString := Except Int Text

/-- A node of the tree: elements have attributes with names and values, text nodes have data. -/
inductive DomNode where
  | element (nodeName : DomString) (attributes : List (DomString × DomString))
      (children : List DomNode)
  | text (data : DomString)
  | other

/-- The functions of the platform: `fold` is what `CompareF` compares texts by, and `buildTree`
makes the tree of a text and gives its document element. -/
structure DdPlatform where
  fold : Text → Text
  /-- ASCII letters are folded to lower case. -/
  fold_ascii : ∀ t : Text, (∀ c ∈ t, c < 128) →
    fold t = t.map fun c => if 65 ≤ c ∧ c ≤ 90 then c + 32 else c
  convertToUnicodeFromUtf8 : Bytes → Text
  buildTree : Text → Except Int (Option DomNode)

/-- Whether `aText.CompareF( aDes )` is zero. -/
def DdPlatform.compareF (platform : DdPlatform) (aText aDes : Text) : Bool :=
  decide (platform.fold aText = platform.fold aDes)

/-! ## The parser -/

/-- How a function ends that does not return. -/
inductive DdStop where
  | leave (code : Int)
  | codPanic
  | nullPointer
  deriving DecidableEq

structure TDdParser where
  iError : Int
  iData : CCodData
  iIsLicenseTag : Bool

abbrev DdM := EStateM DdStop TDdParser

def leave {α : Type} (code : Int) : DdM α := throw (.leave code)

/-- `*aBuf` -/
def desL {α : Type} : Option (List α) → DdM (List α)
  | some des => pure des
  | none => throw .nullPointer

/-- The conversion of a string of the tree with `LeaveIfNwErrorL`. -/
def stringToUcs2L : DomString → DdM Text
  | .ok ucs2 => pure ucs2
  | .error code => leave code

/-- `TDdParser::Error` with the only code that it gets. -/
def TDdParser.error (p : TDdParser) : TDdParser := { p with iError := Cod.error p.iError }

/-- `if ( !ok ) Error( KErrCodInvalidDescriptor );` -/
def errorUnless (ok : Bool) : DdM PUnit :=
  modify fun p => if ok then p else p.error

/-- `TDdParser::PcDataLC`: the first child of an element, when it is a text. -/
def pcDataLC : List DomNode → DdM (Option Text)
  | .text data :: _ => some <$> stringToUcs2L data
  | _ => pure none

/-- The loop over the children of an element: `visit` gets the name and the children of each that is
an element. -/
def childElementsL {α : Type} (visit : α → DomString → List DomNode → DdM α) :
    α → List DomNode → DdM α
  | a, [] => pure a
  | a, .element nodeName _ children :: rest => do
      let a ← visit a nodeName children
      childElementsL visit a rest
  | a, _ :: rest => childElementsL visit a rest

/-! ## Names -/

inductive TDdAttr where
  | eDdName
  | eDdVendor
  | eDdDescription
  | eDdUrl
  | eDdSize
  | eDdType
  | eDdInstallNotify
  | eDdNextUrl
  | eDdInfoUrl
  | eDdIcon
  | eDdVersion
  | eDdProduct
  | eDdMediaObject
  | eDdMeta
  | eDdProgressiveDl
  | eDdSuppressUserConfirmation
  | eDdLicense
  | eDdOrder
  | eDdText
  | eDdUpdatedDDURI
  | eDdUnknownAttr
  deriving DecidableEq

def KDdName : Text := ascii ['n', 'a', 'm', 'e']

def KDdVendor : Text := ascii ['v', 'e', 'n', 'd', 'o', 'r']

def KDdDescription : Text := ascii ['d', 'e', 's', 'c', 'r', 'i', 'p', 't', 'i', 'o', 'n']

def KDdUrl : Text := ascii ['o', 'b', 'j', 'e', 'c', 't', 'U', 'R', 'I']

def KDdSize : Text := ascii ['s', 'i', 'z', 'e']

def KDdType : Text := ascii ['t', 'y', 'p', 'e']

def KDdInstallNotify : Text :=
  ascii ['i', 'n', 's', 't', 'a', 'l', 'l', 'N', 'o', 't', 'i', 'f', 'y', 'U', 'R', 'I']

def KDdNextUrl : Text := ascii ['n', 'e', 'x', 't', 'U', 'R', 'L']

def KDdInfoUrl : Text := ascii ['i', 'n', 'f', 'o', 'U', 'R', 'L']

def KDdIcon : Text := ascii ['i', 'c', 'o', 'n', 'U', 'R', 'I']

def KDdVersion : Text := ascii ['D', 'D', 'V', 'e', 'r', 's', 'i', 'o', 'n']

def KDdMedia : Text := ascii ['m', 'e', 'd', 'i', 'a']

def KDdProduct : Text := ascii ['p', 'r', 'o', 'd', 'u', 'c', 't']

def KDdMediaObject : Text := ascii ['m', 'e', 'd', 'i', 'a', 'O', 'b', 'j', 'e', 'c', 't']

def KDdMeta : Text := ascii ['m', 'e', 't', 'a']

def KDdProgressiveDl : Text :=
  ascii ['p', 'r', 'o', 'g', 'r', 'e', 's', 's', 'i', 'v', 'e', 'D', 'o', 'w', 'n', 'l', 'o', 'a',
    'd', 'F', 'l', 'a', 'g']

def KDdLicense : Text := ascii ['l', 'i', 'c', 'e', 'n', 's', 'e']

def KDdOrder : Text := ascii ['o', 'r', 'd', 'e', 'r']

def KDdSuppressUserConfirmation : Text :=
  ascii ['s', 'u', 'p', 'p', 'r', 'e', 's', 's', 'U', 's', 'e', 'r', 'C', 'o', 'n', 'f', 'i', 'r',
    'm', 'a', 't', 'i', 'o', 'n']

def KDdServer : Text := ascii ['s', 'e', 'r', 'v', 'e', 'r']

def KDdText : Text := ascii ['t', 'e', 'x', 't']

def KDdTrue : Text := ascii ['t', 'r', 'u', 'e']

def KDdFalse : Text := ascii ['f', 'a', 'l', 's', 'e']

def KDdAlways : Text := ascii ['A', 'l', 'w', 'a', 'y', 's']

/-- The text has one letter more than the name of the constant. -/
def KDdUserConfirmStepOnly : Text :=
  ascii ['U', 's', 'e', 'r', 'C', 'o', 'n', 'f', 'i', 'r', 'm', 'a', 'S', 't', 'e', 'p', 'O', 'n',
    'l', 'y']

def KDdNever : Text := ascii ['N', 'e', 'v', 'e', 'r']

def KDdPost : Text := ascii ['p', 'o', 's', 't']

def KDdAny : Text := ascii ['a', 'n', 'y']

def KDdUpdatedDDURI : Text :=
  ascii ['u', 'p', 'd', 'a', 't', 'e', 'd', 'D', 'D', 'U', 'R', 'I']

/-- The first entry whose comparison succeeds. -/
def attributeIn (table : List ((Text → Bool) × TDdAttr)) (aAttrName : Text) : TDdAttr :=
  match table.find? fun entry => entry.1 aAttrName with
  | some entry => entry.2
  | none => .eDdUnknownAttr

/-- `!aAttrName.Compare( name )` -/
def compare (name : Text) (aAttrName : Text) : Bool := decide (aAttrName = name)

/-- `TDdParser::Attribute`, for version 1. -/
def ddAttribute : Text → TDdAttr :=
  attributeIn
    [(compare KDdName, .eDdName), (compare KDdVendor, .eDdVendor),
     (compare KDdDescription, .eDdDescription), (compare KDdUrl, .eDdUrl),
     (compare KDdSize, .eDdSize), (compare KDdType, .eDdType),
     (compare KDdInstallNotify, .eDdInstallNotify), (compare KDdNextUrl, .eDdNextUrl),
     (compare KDdInfoUrl, .eDdInfoUrl), (compare KDdIcon, .eDdIcon),
     (compare KDdVersion, .eDdVersion)]

/-- `TDdParser::MediaAttribute` -/
def mediaAttribute : Text → TDdAttr :=
  attributeIn
    [(compare KDdVersion, .eDdVersion), (compare KDdVendor, .eDdVendor),
     (compare KDdName, .eDdName), (compare KDdNextUrl, .eDdNextUrl),
     (compare KDdProduct, .eDdProduct), (compare KDdUpdatedDDURI, .eDdUpdatedDDURI)]

/-- `TDdParser::MediaObjAttribute` -/
def mediaObjAttribute (platform : DdPlatform) : Text → TDdAttr :=
  attributeIn
    [(compare KDdUrl, .eDdUrl), (compare KDdSize, .eDdSize), (compare KDdType, .eDdType),
     ((platform.compareF · KDdProgressiveDl), .eDdProgressiveDl),
     ((platform.compareF · KDdSuppressUserConfirmation), .eDdSuppressUserConfirmation),
     (compare KDdMeta, .eDdMeta)]

/-- `TDdParser::ObjUriAttribute` -/
def objUriAttribute : Text → TDdAttr := attributeIn [(compare KDdServer, .eDdUrl)]

/-- `TDdParser::DdVersionAttribute` -/
def ddVersionAttribute : Text → TDdAttr := attributeIn [(compare KDdVersion, .eDdVersion)]

/-- `TDdParser::MetaAttribute`. The name is compared first, and what is compared behind it
replaces the result. -/
def metaAttribute : Text → TDdAttr :=
  attributeIn
    [(compare KDdText, .eDdText), (compare KDdDescription, .eDdDescription),
     (compare KDdInstallNotify, .eDdInstallNotify), (compare KDdLicense, .eDdLicense),
     (compare KDdOrder, .eDdOrder), (compare KDdName, .eDdName)]

/-- `TDdParser::ProductAttribute`; here too the later comparison replaces the result. -/
def productAttribute : Text → TDdAttr :=
  attributeIn [(compare KDdMediaObject, .eDdMediaObject), (compare KDdMeta, .eDdMeta)]

/-! ## Setters -/

section

variable (platform : DdPlatform)

/-- `if ( !iData->Attr().Length() ) ok = iData->SetAttrL( aValue );` -/
def setIfEmptyL {α : Type} (attr : CCodData → Option (List α))
    (setter : CCodData → Text → Bool × CCodData) (aValue : Text) : DdM Bool := do
  let p ← get
  let des ← desL (attr p.iData)
  if des = [] then
    modifyGet fun p =>
      let (ok, iData) := setter p.iData aValue
      (ok, { p with iData := iData })
  else
    return true

/-- The same for a media object, whose setters succeed. -/
def setObjIfEmptyL {α : Type} (attr : CMediaObjectData → Option (List α))
    (setter : CMediaObjectData → Text → CMediaObjectData) (aValue : Text)
    (aMediaObject : CMediaObjectData) : DdM CMediaObjectData := do
  let des ← desL (attr aMediaObject)
  return if des = [] then setter aMediaObject aValue else aMediaObject

/-- `SetNextUrlL( aValue ) && SetNextUrlAtErrorL( aValue )` -/
def setNextUrls (iData : CCodData) (aValue : Text) : Bool × CCodData :=
  let (ok, iData) := iData.setNextUrlL aValue
  if ok then iData.setNextUrlAtErrorL aValue else (false, iData)

/-- The size of a media object, when it has none. -/
def setSizeL (aValue : Text) (aMediaObject : CMediaObjectData) : DdM CMediaObjectData :=
  if aMediaObject.iSize = 0 then
    match lexVal aValue with
    | some size => pure (aMediaObject.setSize size)
    | none => do
        errorUnless false
        return aMediaObject
  else
    pure aMediaObject

def addTypeL (aValue : Text) (aMediaObject : CMediaObjectData) : DdM CMediaObjectData := do
  let (ok, aMediaObject) := aMediaObject.addTypeL aValue
  errorUnless ok
  return aMediaObject

/-- What a text with two values says. -/
def flagValue (yes no aValue : Text) : Option Bool :=
  if platform.compareF aValue yes then some true
  else if platform.compareF aValue no then some false
  else none

/-- `TDdParser::SetAttrL`, for version 1. -/
def setAttrL (aAttr : TDdAttr) (aValue : Text) (aMediaObject : CMediaObjectData) :
    DdM CMediaObjectData := do
  match aAttr with
  | .eDdName => setObjIfEmptyL (·.iName) CMediaObjectData.setNameL aValue aMediaObject
  | .eDdDescription =>
      setObjIfEmptyL (·.iDescription) CMediaObjectData.setDescriptionL aValue aMediaObject
  | .eDdUrl => setObjIfEmptyL (·.iUrl) CMediaObjectData.setUrlL aValue aMediaObject
  | .eDdSize => setSizeL aValue aMediaObject
  | .eDdType => addTypeL aValue aMediaObject
  | .eDdInstallNotify =>
      setObjIfEmptyL (·.iInstallNotify) CMediaObjectData.setInstallNotifyL aValue aMediaObject
  | .eDdInfoUrl => setObjIfEmptyL (·.iInfoUrl) CMediaObjectData.setInfoUrlL aValue aMediaObject
  | .eDdIcon => setObjIfEmptyL (·.iIcon) CMediaObjectData.setIconL aValue aMediaObject
  | .eDdVersion => do
      errorUnless (← setIfEmptyL (·.iVersion) CCodData.setVersionL aValue)
      return aMediaObject
  | .eDdNextUrl => do
      errorUnless (← setIfEmptyL (·.iNextUrl) CCodData.setNextUrlL aValue)
      return aMediaObject
  | .eDdVendor => do
      errorUnless (← setIfEmptyL (·.iVendor) CCodData.setVendorL aValue)
      return aMediaObject
  | _ => throw .codPanic

/-- `TDdParser::SetMediaAttrL` -/
def setMediaAttrL (aAttr : TDdAttr) (aValue : Text) : DdM PUnit := do
  match aAttr with
  | .eDdName => errorUnless (← setIfEmptyL (·.iName) CCodData.setNameL aValue)
  | .eDdVersion => errorUnless (← setIfEmptyL (·.iVersion) CCodData.setVersionL aValue)
  | .eDdVendor => errorUnless (← setIfEmptyL (·.iVendor) CCodData.setVendorL aValue)
  | .eDdNextUrl => errorUnless (← setIfEmptyL (·.iNextUrl) setNextUrls aValue)
  | .eDdUpdatedDDURI =>
      -- The result is not looked at.
      discard (setIfEmptyL (·.iUpdatedDDUri) CCodData.setUpdatedDDURI aValue)
  | _ => throw .codPanic

/-- The setting that a text names. The second and the third comparison are the wrong way round. -/
def suppressValue (aValue : Text) : Option Int32 :=
  if platform.compareF aValue KDdNever then some CCodData.eNever
  else if !platform.compareF aValue KDdUserConfirmStepOnly then some CCodData.eUserConfirmStepOnly
  else if !platform.compareF aValue KDdAlways then some CCodData.eAlways
  else none

/-- `TDdParser::SetMediaObjAttrL` -/
def setMediaObjAttrL (aAttr : TDdAttr) (aValue : Text) (aMediaObject : CMediaObjectData) :
    DdM CMediaObjectData := do
  match aAttr with
  | .eDdSize => setSizeL aValue aMediaObject
  | .eDdType => addTypeL aValue aMediaObject
  | .eDdProgressiveDl =>
      match flagValue platform KDdTrue KDdFalse aValue with
      | some pd => pure (aMediaObject.setProgressiveDownload pd)
      | none => do
          errorUnless false
          return aMediaObject
  | .eDdSuppressUserConfirmation => do
      let confirm := suppressValue platform aValue
      errorUnless confirm.isSome
      modify fun p =>
        { p with iData := (p.iData.setSuppressConfirm (confirm.getD CCodData.eNever)).2 }
      return aMediaObject
  | .eDdUpdatedDDURI => do
      discard (setIfEmptyL (·.iUpdatedDDUri) CCodData.setUpdatedDDURI aValue)
      return aMediaObject
  | _ => throw .codPanic

/-- `TDdParser::SetMetaAttrL` for a product. -/
def setMetaAttrL (aAttr : TDdAttr) (aValue : Text) : DdM PUnit := do
  match aAttr with
  | .eDdName => errorUnless (← setIfEmptyL (·.iName) CCodData.setNameL aValue)
  | .eDdDescription =>
      errorUnless (← setIfEmptyL (·.iDescription) CCodData.setDescriptionL aValue)
  | .eDdInstallNotify =>
      errorUnless (← setIfEmptyL (·.iInstallNotify) CCodData.setInstallNotifyL aValue)
  | .eDdInfoUrl => errorUnless (← setIfEmptyL (·.iInfoUrl) CCodData.setInfoUrlL aValue)
  | .eDdIcon => errorUnless (← setIfEmptyL (·.iIcon) CCodData.setIconL aValue)
  | .eDdOrder =>
      match flagValue platform KDdPost KDdAny aValue with
      | some isPostOrder => modify fun p => { p with iData := p.iData.setOrderIsPost isPostOrder }
      | none => errorUnless false
  | .eDdText => pure PUnit.unit
  | _ => throw .codPanic

/-- `TDdParser::SetMetaAttrL` for a media object. -/
def setObjMetaAttrL (aAttr : TDdAttr) (aValue : Text) (aMediaObject : CMediaObjectData) :
    DdM CMediaObjectData := do
  match aAttr with
  | .eDdName => setObjIfEmptyL (·.iName) CMediaObjectData.setNameL aValue aMediaObject
  | .eDdDescription =>
      setObjIfEmptyL (·.iDescription) CMediaObjectData.setDescriptionL aValue aMediaObject
  | .eDdInstallNotify =>
      setObjIfEmptyL (·.iInstallNotify) CMediaObjectData.setInstallNotifyL aValue aMediaObject
  | .eDdInfoUrl => setObjIfEmptyL (·.iInfoUrl) CMediaObjectData.setInfoUrlL aValue aMediaObject
  | .eDdIcon => setObjIfEmptyL (·.iIcon) CMediaObjectData.setIconL aValue aMediaObject
  | .eDdOrder =>
      match flagValue platform KDdPost KDdAny aValue with
      | some isPostOrder => pure (aMediaObject.setOrderIsPost isPostOrder)
      | none => do
          errorUnless false
          return aMediaObject
  | .eDdText => pure aMediaObject
  | _ => throw .codPanic

/-! ## Elements -/

/-- `TDdParser::ElementNodeL`, for version 1. -/
def elementNodeL (aMediaObject : CMediaObjectData) (nodeName : DomString)
    (children : List DomNode) : DdM CMediaObjectData := do
  let attr := ddAttribute (← stringToUcs2L nodeName)
  if attr = .eDdUnknownAttr then
    return aMediaObject
  else
    match ← pcDataLC children with
    | some ucs2 => setAttrL attr ucs2 aMediaObject
    | none => return aMediaObject

/-- `TDdParser::MetaElementNodeL` for a product. -/
def metaElementNodeL (_ : PUnit) (nodeName : DomString) (children : List DomNode) :
    DdM PUnit := do
  let attr := metaAttribute (← stringToUcs2L nodeName)
  if attr = .eDdLicense then
    modify fun p => { p with iIsLicenseTag := true }
  else if attr = .eDdUnknownAttr then
    return PUnit.unit
  else
    match ← pcDataLC children with
    | some ucs2 => setMetaAttrL platform attr ucs2
    | none => return PUnit.unit

/-- `TDdParser::MetaElementNodeL` for a media object. -/
def objMetaElementNodeL (aMediaObject : CMediaObjectData) (nodeName : DomString)
    (children : List DomNode) : DdM CMediaObjectData := do
  let attr := metaAttribute (← stringToUcs2L nodeName)
  if attr = .eDdLicense then do
    modify fun p => { p with iIsLicenseTag := true }
    return aMediaObject
  else if attr = .eDdUnknownAttr then
    return aMediaObject
  else
    match ← pcDataLC children with
    | some ucs2 => setObjMetaAttrL platform attr ucs2 aMediaObject
    | none => return aMediaObject

/-- `TDdParser::ObjUriElementNodeL`: an element that is not a server with a text is an error, one
that is replaces the URL. -/
def objUriElementNodeL (aMediaObject : CMediaObjectData) (nodeName : DomString)
    (children : List DomNode) : DdM CMediaObjectData := do
  let attr := objUriAttribute (← stringToUcs2L nodeName)
  if attr = .eDdUnknownAttr then do
    errorUnless false
    return aMediaObject
  else
    match ← pcDataLC children with
    | some ucs2 => return aMediaObject.setUrlL ucs2
    | none => do
        errorUnless false
        return aMediaObject

/-- `TDdParser::MediaObjElementNodeL` -/
def mediaObjElementNodeL (aMediaObject : CMediaObjectData) (nodeName : DomString)
    (children : List DomNode) : DdM CMediaObjectData := do
  let attr := mediaObjAttribute platform (← stringToUcs2L nodeName)
  if attr = .eDdMeta then
    childElementsL (objMetaElementNodeL platform) aMediaObject children
  else if attr = .eDdUrl then
    childElementsL objUriElementNodeL aMediaObject children
  else if attr = .eDdUnknownAttr then
    return aMediaObject
  else
    match ← pcDataLC children with
    | some ucs2 => setMediaObjAttrL platform attr ucs2 aMediaObject
    | none => return aMediaObject

def KSlash : UInt16 := 0x002F

/-- `buf16.MidTPtr( buf16.LocateReverse( '/' ) + 1 )` -/
def behindLastSlash (buf16 : Text) : Text := (buf16.reverse.takeWhile (· ≠ KSlash)).reverse

/-- The name that the end of a URL is. -/
def nameFromUrl (url : Bytes) : Text :=
  behindLastSlash ((platform.convertToUnicodeFromUtf8 url).take codUrlMaxLen)

/-- `TDdParser::ParseNameFromUrlL` -/
def parseNameFromUrlL (aMediaObject : CMediaObjectData) : DdM CMediaObjectData := do
  let url ← desL aMediaObject.iUrl
  return aMediaObject.setNameL (nameFromUrl platform url)

/-- The end of `ParseMediaObjectElementsL`: a media object without a name is named by its URL. -/
def appendNamedL (mediaObject : CMediaObjectData) : DdM PUnit := do
  let name ← desL mediaObject.iName
  let url ← desL mediaObject.iUrl
  let mediaObject ← (if name = [] ∧ url ≠ [] then parseNameFromUrlL platform mediaObject
    else pure mediaObject : DdM CMediaObjectData)
  modify fun p => { p with iData := p.iData.appendMediaObjectL mediaObject }

/-- `TDdParser::ParseMediaObjectElementsL` -/
def parseMediaObjectElementsL (children : List DomNode) : DdM PUnit := do
  let mediaObject ← childElementsL (mediaObjElementNodeL platform) CMediaObjectData.newL children
  appendNamedL platform mediaObject

/-- `TDdParser::ProductElementNodeL` -/
def productElementNodeL (_ : PUnit) (nodeName : DomString) (children : List DomNode) :
    DdM PUnit := do
  let attr := productAttribute (← stringToUcs2L nodeName)
  if attr = .eDdMeta then
    childElementsL (metaElementNodeL platform) PUnit.unit children
  else if attr = .eDdMediaObject then
    parseMediaObjectElementsL platform children
  else
    return PUnit.unit

/-- `TDdParser::MediaElementNodeL`: a product is passed by once there are media objects. -/
def mediaElementNodeL (_ : PUnit) (nodeName : DomString) (children : List DomNode) :
    DdM PUnit := do
  let attr := mediaAttribute (← stringToUcs2L nodeName)
  let p ← get
  if attr = .eDdProduct then
    if p.iData.iMediaObjects = [] then
      childElementsL (productElementNodeL platform) PUnit.unit children
    else
      return PUnit.unit
  else if attr = .eDdUnknownAttr then
    return PUnit.unit
  else
    match ← pcDataLC children with
    | some ucs2 => setMediaAttrL attr ucs2
    | none => return PUnit.unit

/-- `TDdParser::ParseNodeAttributesL` -/
def parseNodeAttributesL (aAttr : DomString × DomString) : DdM PUnit := do
  let attr := ddVersionAttribute (← stringToUcs2L aAttr.1)
  if attr = .eDdUnknownAttr then
    return PUnit.unit
  else do
    let ucs2 ← stringToUcs2L aAttr.2
    -- The result of the setter is not looked at.
    modify fun p => { p with iData := (p.iData.setVersionL ucs2).2 }

/-- `TDdParser::ParseMediaElementsL`: the attributes are behind the children. -/
def parseMediaElementsL (attributes : List (DomString × DomString)) (children : List DomNode) :
    DdM PUnit := do
  childElementsL (mediaElementNodeL platform) PUnit.unit children
  attributes.forM parseNodeAttributesL

/-! ## Documents -/

/-- The document element, which has to be `media`: its attributes and children. -/
def mediaElementL : Option DomNode → DdM (List (DomString × DomString) × List DomNode)
  | some (.element nodeName attributes children) => do
      if (← stringToUcs2L nodeName) = KDdMedia then
        return (attributes, children)
      else
        leave KErrCodInvalidDescriptor
  | _ => leave KErrCodInvalidDescriptor

/-- `TDdParser::DocNodeL`, for version 1: one media object of all that is under `media`. -/
def docNodeL (aDocNode : Option DomNode) : DdM PUnit := do
  let (_, children) ← mediaElementL aDocNode
  let mediaObject ← childElementsL elementNodeL CMediaObjectData.newL children
  modify fun p => { p with iData := p.iData.appendMediaObjectL mediaObject }

/-- `TDdParser::ParseDd2DocNodeL` -/
def parseDd2DocNodeL (aDocNode : Option DomNode) : DdM PUnit := do
  let (attributes, children) ← mediaElementL aDocNode
  parseMediaElementsL platform attributes children

def buildTreeL (aBuf : Text) : DdM (Option DomNode) :=
  match platform.buildTree aBuf with
  | .ok documentElement => pure documentElement
  | .error code => leave code

/-- `ParseL` on the parser. -/
def parseBufL (aBuf : Text) (aIsDd2 : Bool) : DdM PUnit := do
  let aDocNode ← buildTreeL platform aBuf
  if aIsDd2 then do
    modify fun p => { p with iIsLicenseTag := false }
    parseDd2DocNodeL platform aDocNode
  else
    docNodeL aDocNode
  let p ← get
  if p.iData.iMediaObjects = [] then
    leave KErrCodInvalidDescriptor
  else if p.iError < 0 then
    leave p.iError
  else
    return PUnit.unit

/-- `TDdParser::ParseL`: how it ends when it does not return, the data and the flag. The member for
the flag is not set before version 2 sets it. -/
def TDdParser.parseL (parser : TDdParser) (aBuf : Text) (aData : CCodData) (aIsDd2 : Bool)
    (aIsLicenseTag : Bool) : Option DdStop × CCodData × Bool :=
  match parseBufL platform aBuf aIsDd2 { parser with iError := KErrNone, iData := aData } with
  | .ok _ p => (none, p.iData, p.iIsLicenseTag)
  | .error stop p => (some stop, p.iData, aIsLicenseTag)

end

end SymbianWeb.Cod
