import SymbianWeb.Multipart.Parser

/-!
# The multipart composer (`MultipartParser::ComposeL`)

`ComposeMixedL` first counts the size of the document, and then appends its pieces to a buffer of
that size. The date is the text that `TInternetDate` makes of the current time.
-/

set_option autoImplicit false

namespace SymbianWeb.Multipart

open CString

/-- What the composer reads of a `CBodyPart`: `Headers()` and `Body()`. -/
structure PartText where
  headers : Bytes
  body : Bytes
  deriving DecidableEq

def KErrArgument : Int := -6

/-- `TMultipartTopLevelHeader` -/
def EMultipartTopLevelHeaderContentType : BitVec 32 := 0x0001

def EMultipartTopLevelHeaderContentLength : BitVec 32 := 0x0002

def EMultipartTopLevelHeaderLastModified : BitVec 32 := 0x0004

/-- `TMultipartSubtype` -/
inductive MultipartSubtype where
  | mixed
  | other
  deriving DecidableEq

def isEolChar (c : UInt8) : Bool := c = 0x0D || c = 0x0A

/-- `--(aBoundary)` and a line end. -/
def boundaryLine (aBoundary : Bytes) : Bytes := hyphens ++ aBoundary ++ Eol.crlf.single

def isEmptyPart (part : PartText) : Bool := part.headers.length + part.body.length = 0

/-- The body does not end with CRLF. -/
def needsCrlf (body : Bytes) : Bool :=
  body.length > 0 && body.drop (body.length - 2) ≠ Eol.crlf.single

/-! ## The size of the document -/

/-- The number of line end characters that the headers end with, from their last character on; the
descriptor panics when there is no other character. -/
def countEols : Bytes → ParseM Nat
  | [] => .error .fault
  | c :: rest => if isEolChar c then do return (← countEols rest) + 1 else return 0

/-- What a body part adds to the size. -/
def partSize (aBoundary : Bytes) (part : PartText) : ParseM Int := do
  if isEmptyPart part then
    -- one less boundary
    return -((boundaryLine aBoundary).length + Eol.crlf.single.length : Nat)
  let headers ←
    if part.headers.length > 0 then do
      pure ((part.headers.length : Int) - (← countEols part.headers.reverse) +
        Eol.crlf.single.length)
    else
      pure (part.headers.length : Int)
  let crlf : Int := if needsCrlf part.body then Eol.crlf.single.length else 0
  return headers + part.body.length + crlf

def partsSize (aBoundary : Bytes) : List PartText → ParseM Int
  | [] => return 0
  | part :: parts => do return (← partSize aBoundary part) + (← partsSize aBoundary parts)

/-- `bodySize`: the size of the body parts and the end boundary. -/
def bodySize (aBodyArray : List PartText) (aBoundary : Bytes) : ParseM Int := do
  let boundaries : Int :=
    ((boundaryLine aBoundary).length + Eol.crlf.single.length : Nat) * aBodyArray.length
  return boundaries + (← partsSize aBoundary aBodyArray) + (boundaryLine aBoundary).length

def contentTypeFormat (aBoundary : Bytes) : Bytes :=
  ascii "Content-Type: multipart/mixed; boundary=\"" ++ aBoundary ++ ascii "\"\x0D\n"

/-- `TDes8::Num` -/
def num (n : Int) : Bytes := ascii (toString n)

def contentLengthFormat (bodySize : Int) : Bytes :=
  ascii "Content-Length: " ++ num bodySize ++ Eol.crlf.single

def lastModifiedFormat (date : Bytes) : Bytes :=
  ascii "Last-Modified: " ++ date ++ Eol.crlf.single

/-- `MULTIPART_INTERNET_DATE_STRING_LENGTH` -/
def internetDateStringLength : Nat := 29

/-- The header is selected by the mask. -/
def selected (aHeaderMask header : BitVec 32) : Bool := (aHeaderMask &&& header) ≠ 0

/-- `docSize`: the size of the buffer for the document. -/
def docSize (aBoundary : Bytes) (aHeaderMask : BitVec 32) (bodySize : Int) : Int :=
  bodySize +
    (if selected aHeaderMask EMultipartTopLevelHeaderContentType then
      ((ascii "Content-Type:").length + 1 + ((contentTypeFormat []).length + 2 - 2 +
        aBoundary.length) + Eol.crlf.single.length : Nat) else 0) +
    (if selected aHeaderMask EMultipartTopLevelHeaderContentLength then
      ((ascii "Content-Length:").length + 1 + (num bodySize).length +
        Eol.crlf.single.length : Nat) else 0) +
    (if selected aHeaderMask EMultipartTopLevelHeaderLastModified then
      ((ascii "Last-Modified:").length + 1 + internetDateStringLength +
        Eol.crlf.single.length : Nat) else 0) +
    Eol.crlf.single.length

/-! ## The document -/

/-- The index of the last character of the headers that is no line end character, from `index` on;
the first character is always taken. -/
def headerEnd (headers : Bytes) : Nat → Nat
  | 0 => 0
  | index + 1 =>
      if (headers[index + 1]?).any isEolChar then headerEnd headers index else index + 1

/-- What a body part adds to the document. -/
def composedPart (part : PartText) : Bytes :=
  let headers :=
    match part.headers.length with
    | 0 => Eol.crlf.single
    | length + 1 =>
        let headerLength := headerEnd part.headers length
        part.headers.take (headerLength + 1) ++
          (if headerLength > 0 then Eol.crlf.double else Eol.crlf.single)
  headers ++ part.body ++ (if needsCrlf part.body then Eol.crlf.single else [])

/-- The body parts that are not empty, each behind its boundary. -/
def composedParts (aBoundary : Bytes) : List PartText → Bytes
  | [] => []
  | part :: parts =>
      (if isEmptyPart part then [] else boundaryLine aBoundary ++ composedPart part) ++
        composedParts aBoundary parts

/-- The headers of the document that the mask selects. -/
def topLevelHeaders (aBoundary : Bytes) (aHeaderMask : BitVec 32) (bodySize : Int) (date : Bytes) :
    Bytes :=
  (if selected aHeaderMask EMultipartTopLevelHeaderContentType then
    contentTypeFormat aBoundary else []) ++
  (if selected aHeaderMask EMultipartTopLevelHeaderContentLength then
    contentLengthFormat bodySize else []) ++
  (if selected aHeaderMask EMultipartTopLevelHeaderLastModified then
    lastModifiedFormat date else [])

/-- Appending to the buffer panics when its size is not enough. -/
def composeMixedL (aBodyArray : List PartText) (aBoundary : Bytes) (aHeaderMask : BitVec 32)
    (date : Bytes) : ParseM Bytes := do
  let bodySize ← bodySize aBodyArray aBoundary
  let document := topLevelHeaders aBoundary aHeaderMask bodySize date ++ Eol.crlf.single ++
    composedParts aBoundary aBodyArray ++ (hyphens ++ aBoundary ++ hyphens)
  if (document.length : Int) ≤ docSize aBoundary aHeaderMask bodySize then
    return document
  else
    .error .fault

def composeL (aBodyPartsArray : List PartText) (aBoundary : Bytes) (aSubtype : MultipartSubtype)
    (aHeaderMask : BitVec 32) (date : Bytes) : ParseM Bytes :=
  if aBoundary = [] then
    .error (.leave KErrArgument)
  else
    match aSubtype with
    | .mixed => composeMixedL aBodyPartsArray aBoundary aHeaderMask date
    | .other => .error (.leave KErrArgument)

end SymbianWeb.Multipart
