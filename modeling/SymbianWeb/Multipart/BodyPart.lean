import SymbianWeb.Library.CString

/-!
# Body parts (`multipartparser/src/BodyPart.cpp`)

The descriptors of a body part point into the multipart buffer: a `Ptr8` is a position and a
length there. Only a decoded or unzipped body is memory of its own.
-/

set_option autoImplicit false

namespace SymbianWeb.Multipart

open CString

/-- A descriptor: `TPtrC8( NULL, 0 )`, a pointer into the multipart buffer, or owned memory. -/
inductive Ptr8 where
  | null
  | view (pos len : Nat)
  | owned (bytes : Bytes)
  deriving DecidableEq

/-- What a descriptor holds when it points into `body`. -/
def Ptr8.bytes (body : Bytes) : Ptr8 → Bytes
  | .null => []
  | .view pos len => (body.drop pos).take len
  | .owned bytes => bytes

/-- `CBodyPart` -/
structure CBodyPart where
  iBody : Ptr8 := .null
  iHeaders : Ptr8 := .null
  iBoundary : Ptr8 := .null
  iCharset : Ptr8 := .null
  iContentBase : Ptr8 := .null
  iContentLocation : Ptr8 := .null
  iContentTransferEncoding : Ptr8 := .null
  iContentType : Ptr8 := .null
  iContentID : Ptr8 := .null
  iIsDecodedBody : Bool := false
  iUrl : Option (List UInt16) := none
  deriving DecidableEq

/-- How a function stops before its end: with a panic or an access outside of the buffer, or with
a leave. -/
inductive Stop where
  | fault
  | leave (code : Int)
  deriving DecidableEq

abbrev ParseM := Except Stop

/-- A read that must stay inside the buffer. -/
def readM {α : Type} : Option α → ParseM α
  | none => .error .fault
  | some a => .ok a

def KErrGeneral : Int := -2

def KErrNotSupported : Int := -5

def KErrNoMemory : Int := -4

/-- The parts of a URI, as `TUriParser16` extracts them. -/
structure UriParts where
  scheme : Option (List UInt16)
  userinfo : Option (List UInt16)
  host : Option (List UInt16)
  port : Option (List UInt16)
  path : Option (List UInt16)

/-- The codecs and the URI parser of the platform. Errors are leave codes. -/
structure Platform where
  decodeBase64 : Bytes → Bytes
  decodeQuotedPrintable : Bytes → Bytes
  inflate : Bytes → Except Int Bytes
  /-- `TUriParser8::Parse`, and whether the URI has a scheme. -/
  hasScheme : Bytes → Except Int Bool
  parseUri : List UInt16 → Except Int UriParts

end SymbianWeb.Multipart
