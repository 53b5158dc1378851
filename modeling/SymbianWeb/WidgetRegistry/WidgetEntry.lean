import SymbianWeb.WidgetRegistry.RegistryXml
import SymbianWeb.Favourites.Names

/-!
# Widget entries as XML

`CWidgetEntry` holds the properties of one widget in an array that is indexed by
property number. `ExternalizeXmlL` writes each property that is set as

  `<prop>name<val>value<type>typename</type></val></prop>`

and the ones it does not know, whose value is source text, without a type.
`InternalizeXmlL` walks the parsed nodes and insists on that shape.

Values of properties are written through a buffer of `KMaxFileName` units. The
characters that XML reserves are replaced while a string is copied into it, by
writes through a pointer that nothing bounds, and the length is counted beside.
-/

set_option autoImplicit false

namespace SymbianWeb.WidgetRegistry

open XmlContent
open Favourites.Store (decimal lexVal)

/-- `KMaxFileName`. -/
def kMaxFileName : Nat := 256

/-- `TInt`. -/
abbrev TInt : Type := { i : Int // -2147483648 ≤ i ∧ i < 2147483648 }

/-- `CWidgetPropertyValue`: `iType` and the member of `iValue` that it selects. -/
inductive PropertyValue where
  | unknown
  | bool (b : Bool)
  | int (i : TInt)
  | string (s : Text)
  | uid (iUid : TInt)
  | blob (s : Text)
  deriving DecidableEq

namespace PropertyValue

/-- `operator TInt`: anything but an integer is 0. -/
def toTInt : PropertyValue → Int
  | int i => i
  | _ => 0

/-- `operator const TDesC&`: anything but a string is empty. -/
def toDesC : PropertyValue → Text
  | string s => s
  | _ => []

/-- `operator const TUid&`. -/
def toUid : PropertyValue → Int
  | uid iUid => iUid
  | _ => 0

end PropertyValue

/-! ## Writing -/

/-- `Append` to a buffer of `KMaxFileName` units. -/
def bufAppend (str s : Text) : Except Failure Text :=
  if (str ++ s).length ≤ kMaxFileName then .ok (str ++ s) else .error .panic

/-- What is written for one unit of a string. -/
def encodeUnit (c : UInt16) : Text :=
  if c = 60 then lit "&lt;" else if c = 62 then lit "&gt;" else if c = 38 then lit "&amp;"
  else if c = 34 then lit "&quot;" else if c = 39 then lit "&apos;" else if c = 13 then lit "&#13;"
  else [c]

/-- What is added to `len` for one unit of a string. -/
def encodeExtra (c : UInt16) : Nat :=
  if c = 60 then 3 else if c = 62 then 3 else if c = 38 then 4 else if c = 34 then 5
  else if c = 39 then 5 else if c = 13 then 4 else 0

/-- The string case of `ExternalizeXmlL`: the copy into `orig`, the loop through
`out`, and `SetLength`. -/
def writeString (value : Text) : Except Failure Text := do
  let orig ← bufAppend [] value
  let out := orig.flatMap encodeUnit
  let len := orig.length + (orig.map encodeExtra).sum
  if kMaxFileName < out.length then .error .overrun
  else if kMaxFileName < len then .error .panic
  else .ok (out.take len)

/-- A number as `%d` formats it. -/
def formatInt (i : Int) : Text := if i < 0 then 45 :: decimal (-i).toNat else decimal i.toNat

/-- The text between `<val>` and `<type>`. -/
def valueText (v : PropertyValue) : Except Failure Text :=
  match v with
  | .bool _ => if v.toTInt = 0 then .ok (lit "0") else .ok (lit "1")
  | .int _ => .ok (formatInt v.toTInt)
  | .string _ => writeString v.toDesC
  | .uid _ => .ok (formatInt v.toUid)
  | .unknown => .ok []
  | .blob _ => .ok []

/-- The name of a type. -/
def typeText : PropertyValue → Text
  | .bool _ => lit "bool"
  | .int _ => lit "int"
  | .string _ => lit "string"
  | .uid _ => lit "uid"
  | .unknown => []
  | .blob _ => []

/-- One turn of the loop over the known properties. -/
def externalizeKnown (name : Text) (v : PropertyValue) : Except Failure Text :=
  if v = .unknown then .ok []
  else do
    let head ← bufAppend (lit "<prop>") name
    let value ← valueText v
    .ok (head ++ lit "<val>" ++ value ++ lit "<type>" ++ typeText v ++
      lit "</type></val></prop>\r\n")

/-- One turn of the loop over the other properties. `iValue.s` is used whatever
the type is, and a property that was never set has a null pointer there. -/
def externalizeOther (name : Text) (v : PropertyValue) : Except Failure Text := do
  let head ← bufAppend (lit "<prop>") name
  let s ← match v with
    | .blob s => bufAppend [] s
    | .string s => bufAppend [] s
    | _ => .error .nullPointer
  .ok (head ++ lit "<val>" ++ s ++ lit "</val></prop>\r\n")

section

variable [CharFold]

/-- One turn of `ExternalizeXmlL`. -/
def externalizeAt (x : WidgetRegistryXml) (i : Nat) (v : PropertyValue) : Except Failure Text :=
  if i < kPropertyIdCount then externalizeKnown (x.xmlPropertyName i) v
  else externalizeOther (x.xmlPropertyName i) v

/-- The two loops, from the property `i` on. -/
def externalizeFrom (x : WidgetRegistryXml) : Nat → List PropertyValue → Except Failure Text
  | _, [] => .ok []
  | i, v :: rest => do
    let text ← externalizeAt x i v
    let tail ← externalizeFrom x (i + 1) rest
    .ok (text ++ tail)

/-- `ExternalizeXmlL`. The array must have all known properties. -/
def externalizeXmlL (x : WidgetRegistryXml) (iPropertyValues : List PropertyValue) :
    Except Failure Text :=
  if iPropertyValues.length < kPropertyIdCount then .error .panic
  else externalizeFrom x 0 iPropertyValues

/-! ## Reading -/

/-- `TLex::Val`. -/
def lexTInt (t : Text) : Option TInt :=
  match lexVal t with
  | some i => if h : -2147483648 ≤ i ∧ i < 2147483648 then some ⟨i, h⟩ else none
  | none => none

/-- The value that a type name and a text give. -/
def propertyValue (type value : Text) : Except Failure PropertyValue :=
  if type = lit "bool" then .ok (.bool (value ≠ lit "0"))
  else if type = lit "int" then
    match lexTInt value with
    | some i => .ok (.int i)
    | none => .error (.leave kErrCorrupt)
  else if type = lit "string" then .ok (.string value)
  else if type = lit "uid" then
    match lexTInt value with
    | some i => .ok (.uid i)
    | none => .error (.leave kErrCorrupt)
  else .ok .unknown

/-- The array filled up to the index `i`. -/
def fillTo (i : Nat) (values : List PropertyValue) : List PropertyValue :=
  values ++ List.replicate (i - values.length) .unknown

/-- The value of the property `propId`, from its `val` node. -/
def readVal (propId : Nat) (val : XmlNode) : Except Failure PropertyValue :=
  if nodeName val ≠ lit "val" then .error (.leave kErrCorrupt)
  else if kPropertyIdCount ≤ propId then
    match children val with
    | [] => .ok (.blob [])
    | nodes => do
      let value ← getTextContentAsStringL nodes
      .ok (.blob value)
  else do
    let value ← getContentL (children val)
    match (children val).tail with
    | [] => .error (.leave kErrCorrupt)
    | type :: _ =>
      if nodeName type ≠ lit "type" then .error (.leave kErrCorrupt)
      else do
        let type ← getContentL (children type)
        propertyValue type value

/-- What `InternalizeXmlL` does with the children of one `prop` node. -/
def readProp (nodes : List XmlNode) (x : WidgetRegistryXml) (values : List PropertyValue) :
    Except Failure (WidgetRegistryXml × List PropertyValue) := do
  let name ← getContentL nodes
  let (propId, x) := x.getPropertyId name
  if propId = kPropertyIdInvalid then .error (.leave kErrNoMemory)
  else
    let values := fillTo (propId + 1) values
    match nodes.tail with
    | [] => .error (.leave kErrCorrupt)
    | val :: _ => do
      let value ← readVal propId val
      .ok (x, values.set propId value)

/-- The loop of `InternalizeXmlL`. `skipped` says that nodes other than elements
were passed over since the last property: only then does the end of the list
fill the array up. -/
def internalizeFrom : Bool → List XmlNode → WidgetRegistryXml → List PropertyValue →
    Except Failure (WidgetRegistryXml × List PropertyValue)
  | skipped, [], x, values => .ok (x, if skipped then fillTo kPropertyIdCount values else values)
  | _, .element name nodes :: rest, x, values =>
    if name ≠ lit "prop" then .ok (x, values)
    else do
      let (x, values) ← readProp nodes x values
      internalizeFrom false rest x values
  | _, _ :: rest, x, values => internalizeFrom true rest x values

/-- `InternalizeXmlL` of a new entry. -/
def internalizeXmlL (n : List XmlNode) (x : WidgetRegistryXml) :
    Except Failure (WidgetRegistryXml × List PropertyValue) :=
  internalizeFrom false n x []

end

/-- `KXmlNewline`, which the registry writes behind the start of an entry. -/
def kXmlNewline : Text := lit "\r\n"

end SymbianWeb.WidgetRegistry
