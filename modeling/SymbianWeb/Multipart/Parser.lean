import SymbianWeb.Multipart.BodyPart

/-!
# The multipart parser (`multipartparser/src/MultipartParser.cpp`)

`ParseL` takes the parts out of a multipart buffer one by one: `getNextBodyPartBuffer` looks for
the next two delimiters from a start position, and `parseBodyPartL` fills a `CBodyPart` from what
is between them. Positions are offsets into the multipart buffer. Lengths are below 2^31, so that
the unsigned sums do not overflow.
-/

set_option autoImplicit false

namespace SymbianWeb.Multipart

open CString

/-- The characters that end a line. -/
inductive Eol where
  | crlf
  | lf
  deriving DecidableEq

/-- `singleEolChar` -/
def Eol.single : Eol → Bytes
  | .crlf => [0x0D, 0x0A]
  | .lf => [0x0A]

/-- `doubleEolChar` -/
def Eol.double (e : Eol) : Bytes := e.single ++ e.single

def hyphens : Bytes := ascii "--"

/-! ## `SetEolCharacters` -/

/-- The line end is LF when the first boundary is followed by LF, and CRLF otherwise. -/
def eolLoop (aMultipartBody aBoundary : Bytes) : Nat → Nat → ParseM Eol
  | 0, _ => .error .fault
  | fuel + 1, i => do
      if i < aMultipartBody.length + 1 - hyphens.length then
        if ← readM (strncmp (aMultipartBody.drop i) hyphens) then
          if i + hyphens.length + aBoundary.length ≤ aMultipartBody.length then
            if ← readM (strncasecmp (aMultipartBody.drop (i + hyphens.length)) aBoundary) then
              let i := i + hyphens.length + aBoundary.length
              if i + Eol.lf.single.length ≤ aMultipartBody.length then
                if ← readM (strncmp (aMultipartBody.drop i) Eol.lf.single) then
                  return .lf
              return .crlf
        eolLoop aMultipartBody aBoundary fuel (i + 1)
      else
        return .crlf

def setEolCharacters (aMultipartBody aBoundary : Bytes) : ParseM Eol :=
  eolLoop aMultipartBody aBoundary (aMultipartBody.length + 1) 0

/-! ## `GetNextBodyPartBuffer` -/

/-- The buffer of a body part: its start and its length. -/
abbrev BodyPartBuffer := Nat × Nat

/-- What follows a boundary. -/
inductive BoundaryEnd where
  | eol
  | hyphens
  | bad
  deriving DecidableEq

def boundaryEnd (aMultipartBody : Bytes) (aSingleEolChar : Eol) (offset : Nat) :
    ParseM BoundaryEnd := do
  if ← readM (strncmp (aMultipartBody.drop offset) aSingleEolChar.single) then
    return .eol
  if ← readM (strncmp (aMultipartBody.drop offset) Eol.lf.single) then
    return .eol
  if ← readM (strncmp (aMultipartBody.drop offset) hyphens) then
    return .hyphens
  return .bad

/-- The buffer from the start position to the end position, if there is a start position. A length
that wraps around is a fault. -/
def closeBuffer (startOffset : Option Nat) (endOffset : Nat) : ParseM (Option BodyPartBuffer) :=
  match startOffset with
  | none => .ok none
  | some start => if start ≤ endOffset then .ok (some (start, endOffset - start)) else .error .fault

/-- The while loop, with the start position found so far. -/
def nextLoop (aMultipartBody aBoundary : Bytes) (aSingleEolChar : Eol) :
    Nat → Nat → Option Nat → ParseM (Option BodyPartBuffer)
  | 0, _, _ => .error .fault
  | fuel + 1, i, startOffset => do
      if i < aMultipartBody.length + 1 - hyphens.length then
        if ← readM (strncmp (aMultipartBody.drop i) hyphens) then
          if i + hyphens.length + aBoundary.length ≤ aMultipartBody.length then
            if ← readM (strncasecmp (aMultipartBody.drop (i + hyphens.length)) aBoundary) then
              let offset := i + hyphens.length + aBoundary.length
              if offset + hyphens.length ≤ aMultipartBody.length then
                match ← boundaryEnd aMultipartBody aSingleEolChar offset with
                | .eol =>
                    match startOffset with
                    | none =>
                        -- jump over the boundary information
                        nextLoop aMultipartBody aBoundary aSingleEolChar fuel
                          (offset + aSingleEolChar.single.length + 1) (some offset)
                    | some _ => closeBuffer startOffset i
                | .hyphens => closeBuffer startOffset i
                | .bad => return none
              else
                -- the buffer is too short and not closed properly
                closeBuffer startOffset i
            else
              nextLoop aMultipartBody aBoundary aSingleEolChar fuel (i + 1) startOffset
          else
            -- the buffer is far too short
            closeBuffer startOffset i
        else
          nextLoop aMultipartBody aBoundary aSingleEolChar fuel (i + 1) startOffset
      else
        -- take the end of the body as closing boundary
        closeBuffer startOffset (i - 1)

def getNextBodyPartBuffer (aStartPosition : Nat) (aMultipartBody aBoundary : Bytes)
    (aSingleEolChar : Eol) : ParseM (Option BodyPartBuffer) :=
  nextLoop aMultipartBody aBoundary aSingleEolChar (aMultipartBody.length + 2) aStartPosition none

/-! ## `ParseBodyPartL`: headers and body -/

inductive Header where
  | contentBase
  | contentLocation
  | contentTransferEncoding
  | contentType
  | contentID
  deriving DecidableEq

/-- The names of the headers, in the order in which they are looked for. -/
def headerNames : List (Bytes × Header) :=
  [(ascii "Content-Base:", .contentBase),
    (ascii "Content-Location:", .contentLocation),
    (ascii "Content-Transfer-Encoding:", .contentTransferEncoding),
    (ascii "Content-Encoding:", .contentTransferEncoding),
    (ascii "Content-Type:", .contentType),
    (ascii "Content-ID:", .contentID)]

/-- The header whose name is at the pointer, and the length of its name. -/
def findHeader (buffer : Bytes) : List (Bytes × Header) → ParseM (Option (Header × Nat))
  | [] => return none
  | (name, header) :: names => do
      if ← readM (strncasecmp buffer name) then
        return some (header, name.length)
      findHeader buffer names

/-- Skip spaces; the end of the part does not stop it. -/
def skipSpaces : Bytes → ParseM Nat
  | [] => .error .fault
  | c :: buffer => if c = 0x20 then do return (← skipSpaces buffer) + 1 else return 0

/-- The position of the line end that closes a header value. -/
def valueEnd (aBodyPartBuffer : Bytes) (aBodyPartBufferLength : Nat) (aSingleEolChar : Eol) :
    Nat → Nat → ParseM (Option Nat)
  | 0, _ => .error .fault
  | fuel + 1, j => do
      if j < aBodyPartBufferLength + 1 - aSingleEolChar.single.length then
        if ← readM (strncmp (aBodyPartBuffer.drop j) aSingleEolChar.single) then
          return some j
        if ← readM (strncmp (aBodyPartBuffer.drop j) Eol.lf.single) then
          return some j
        valueEnd aBodyPartBuffer aBodyPartBufferLength aSingleEolChar fuel (j + 1)
      else
        return none

/-- `TPtrC8( aBuf, aLength )` panics when the length is negative. -/
def makePtr (pos : Nat) (length : Int) : ParseM Ptr8 :=
  if length < 0 then .error .fault else .ok (.view pos length.toNat)

def setHeader (aBodyPart : CBodyPart) (header : Header) (value : Ptr8) : CBodyPart :=
  match header with
  | .contentBase => { aBodyPart with iContentBase := value }
  | .contentLocation => { aBodyPart with iContentLocation := value }
  | .contentTransferEncoding => { aBodyPart with iContentTransferEncoding := value }
  | .contentType => { aBodyPart with iContentType := value }
  | .contentID => { aBodyPart with iContentID := value }

/-- What the outer loop of `ParseBodyPartL` carries: the position, the last header value found, and
the body part. -/
structure Scan where
  i : Nat
  contentHeaderValuePtr : Ptr8
  aBodyPart : CBodyPart

/-- A header name was found at `i`: take its value, up to the line end, where the scan goes on. A
content id is taken without its angle brackets; without them, and without a line end, the value is
the one found before. -/
def scanHeader (base : Nat) (aBodyPartBuffer : Bytes) (aBodyPartBufferLength : Nat)
    (aSingleEolChar : Eol) (s : Scan) (found : Header) (nameLength : Nat) : ParseM Scan := do
  let startPos := s.i + nameLength + (← skipSpaces (aBodyPartBuffer.drop (s.i + nameLength)))
  let charFirst ← readM aBodyPartBuffer[startPos]?
  match ← valueEnd aBodyPartBuffer aBodyPartBufferLength aSingleEolChar
      (aBodyPartBufferLength + 1) startPos with
  | none =>
      return { s with aBodyPart := setHeader s.aBodyPart found s.contentHeaderValuePtr }
  | some j =>
      let value ←
        if found = .contentID then
          if charFirst = 0x3C then
            makePtr (base + startPos + 1) ((j : Int) - startPos - 2)
          else
            pure s.contentHeaderValuePtr
        else
          makePtr (base + startPos) ((j : Int) - startPos)
      return { i := j - 1, contentHeaderValuePtr := value
               aBodyPart := setHeader s.aBodyPart found value }

/-- The length of the blank line at the pointer. -/
def blankLine (buffer : Bytes) (aSingleEolChar : Eol) : ParseM (Option Nat) := do
  if ← readM (strncmp buffer aSingleEolChar.double) then
    return some aSingleEolChar.double.length
  if ← readM (strncmp buffer Eol.lf.double) then
    return some Eol.lf.double.length
  return none

/-- The body is what follows the blank line, the headers what is before it. -/
def setBodyAndHeaders (base : Nat) (aBodyPartBufferLength : Nat) (aSingleEolChar : Eol)
    (temp : Nat) (aEolLength : Nat) (s : Scan) : ParseM CBodyPart := do
  let lengthBody : Int := aBodyPartBufferLength - (s.i + aEolLength : Nat)
  let body ← makePtr (base + temp + aEolLength) lengthBody
  let aBodyPart := { s.aBodyPart with iBody := body }
  if s.i ≠ 0 then
    let headers ← makePtr (base + aSingleEolChar.single.length)
      (aBodyPartBufferLength - lengthBody - aSingleEolChar.single.length - aEolLength)
    return { aBodyPart with iHeaders := headers }
  else
    return aBodyPart

/-- The outer loop of `ParseBodyPartL`. `aBodyPartBuffer` is the multipart buffer from the part on,
which starts at `base`. -/
def scanLoop (base : Nat) (aBodyPartBuffer : Bytes) (aBodyPartBufferLength : Nat)
    (aSingleEolChar : Eol) : Nat → Scan → ParseM CBodyPart
  | 0, _ => .error .fault
  | fuel + 1, s => do
      if s.i < aBodyPartBufferLength then
        let temp := s.i
        let s ←
          match ← findHeader (aBodyPartBuffer.drop temp) headerNames with
          | some (found, nameLength) =>
              scanHeader base aBodyPartBuffer aBodyPartBufferLength aSingleEolChar s found nameLength
          | none => pure s
        match ← blankLine (aBodyPartBuffer.drop temp) aSingleEolChar with
        | some aEolLength =>
            setBodyAndHeaders base aBodyPartBufferLength aSingleEolChar temp aEolLength s
        | none =>
            scanLoop base aBodyPartBuffer aBodyPartBufferLength aSingleEolChar fuel
              { s with i := s.i + 1 }
      else
        return s.aBodyPart

/-! ## `ParseBodyPartL`: decoding -/

/-- Whether the buffer at the pointer starts with the text. -/
def ptrStartsWith (aMultipartBody : Bytes) (value : Ptr8) (text : Bytes) : ParseM Bool :=
  match value with
  | .null => return false
  | .view pos _ => readM (strncasecmp (aMultipartBody.drop pos) text)
  | .owned bytes => readM (strncasecmp bytes text)

def isEncoded (aMultipartBody : Bytes) (aContentTransferEncodingValue : Ptr8) : ParseM Bool := do
  if aContentTransferEncodingValue = .null then
    return false
  if ← ptrStartsWith aMultipartBody aContentTransferEncodingValue (ascii "7bit") then
    return false
  if ← ptrStartsWith aMultipartBody aContentTransferEncodingValue (ascii "8bit") then
    return false
  if ← ptrStartsWith aMultipartBody aContentTransferEncodingValue (ascii "binary") then
    return false
  return true

/-- Decoded bytes; no bytes are an error. -/
def decoded (bytes : Bytes) : ParseM Ptr8 :=
  if bytes = [] then .error (.leave KErrGeneral) else .ok (.owned bytes)

/-- An encoding that is not known gives no body. -/
def decodeContentTransferEncoding (P : Platform) (aMultipartBody : Bytes)
    (aContentTransferEncodingValue aEncodedBody : Ptr8) : ParseM Ptr8 := do
  if aEncodedBody = .null then
    .error .fault
  let bytes := aEncodedBody.bytes aMultipartBody
  if ← ptrStartsWith aMultipartBody aContentTransferEncodingValue (ascii "base64") then
    decoded (P.decodeBase64 bytes)
  else if ← ptrStartsWith aMultipartBody aContentTransferEncodingValue
      (ascii "quoted-printable") then
    decoded (P.decodeQuotedPrintable bytes)
  else if ← ptrStartsWith aMultipartBody aContentTransferEncodingValue (ascii "gzip") then
    match P.inflate bytes with
    | .error _ => .error (.leave KErrGeneral)
    | .ok bytes => decoded bytes
  else
    return .null

def isZipped (aMultipartBody : Bytes) (aContentTypeValue : Ptr8) : ParseM Bool :=
  ptrStartsWith aMultipartBody aContentTypeValue (ascii "application/x-gzip")

def unzip (P : Platform) (aMultipartBody : Bytes) (aZippedBody : Ptr8) : ParseM Ptr8 := do
  if aZippedBody = .null then
    .error .fault
  match P.inflate (aZippedBody.bytes aMultipartBody) with
  | .error _ => .error (.leave KErrGeneral)
  | .ok bytes => decoded bytes

/-! ## `CutOffContentTypeAttributes` -/

/-- `TDesC8::Find`: the position of the first occurrence. -/
def findText (text : Bytes) : Bytes → Option Nat
  | [] => if text = [] then some 0 else none
  | c :: s =>
      if text.isPrefixOf (c :: s) then
        some 0
      else
        (findText text s).map (· + 1)

/-- `aDes.Left( aLength )` -/
def Ptr8.left (p : Ptr8) (length : Nat) : Ptr8 :=
  match p with
  | .null => .null
  | .view pos _ => .view pos length
  | .owned bytes => .owned (bytes.take length)

/-- The descriptor without its first `n` characters. -/
def Ptr8.dropLeft (p : Ptr8) (n : Nat) : Ptr8 :=
  match p with
  | .null => .null
  | .view pos len => .view (pos + n) (len - n)
  | .owned bytes => .owned (bytes.drop n)

/-- The value of an attribute of a content type: what follows its name, from the first quote on,
and up to the first quote or semicolon there. -/
def attributeValue (aMultipartBody : Bytes) (unrelated : Ptr8) (name : Bytes) : Option Ptr8 :=
  (findText name (unrelated.bytes aMultipartBody)).map fun offset =>
    let value := unrelated.dropLeft (offset + name.length)
    let value :=
      match findText (ascii "\"") (value.bytes aMultipartBody) with
      | some offsetQ => value.dropLeft offsetQ
      | none => value
    match findText (ascii "\"") (value.bytes aMultipartBody) with
    | some offsetE => value.left offsetE
    | none =>
        match findText (ascii ";") (value.bytes aMultipartBody) with
        | some offsetE => value.left offsetE
        | none => value

def cutOffContentTypeAttributes (aMultipartBody : Bytes) (aBodyPart : CBodyPart) : CBodyPart :=
  let aContentType := aBodyPart.iContentType
  match findText (ascii ";") (aContentType.bytes aMultipartBody) with
  | none => aBodyPart
  | some offset =>
      let unrelated := aContentType.dropLeft offset
      let aBodyPart := { aBodyPart with iContentType := aContentType.left offset }
      let aBodyPart :=
        match attributeValue aMultipartBody unrelated (ascii "boundary=") with
        | some boundary => { aBodyPart with iBoundary := boundary }
        | none => aBodyPart
      match attributeValue aMultipartBody unrelated (ascii "charset=") with
      | some charset => { aBodyPart with iCharset := charset }
      | none => aBodyPart

/-! ## The URL of a body part -/

/-- Text is widened and narrowed character by character. -/
def widen (s : Bytes) : List UInt16 := s.map fun c => c.toUInt16

def leaveIfError {α : Type} : Except Int α → ParseM α
  | .error code => .error (.leave code)
  | .ok a => .ok a

/-- A URL without a scheme is relative. -/
def isUrlRelativeL (P : Platform) (aUrl : Bytes) : ParseM Bool := do
  return !(← leaveIfError (P.hasScheme aUrl))

/-- `TDesC::LocateReverse` -/
def locateReverse (c : UInt16) (s : List UInt16) : Int :=
  match s.reverse.idxOf? c with
  | none => -1
  | some k => (s.length : Int) - 1 - k

/-- The directory of the base path, and whether a slash is to be put behind it. -/
def basePath (path : Option (List UInt16)) : Option (List UInt16) × Bool :=
  match path with
  | none => (none, false)
  | some path =>
      if locateReverse 0x2E path ≠ 0 then
        let indexS := locateReverse 0x2F path
        if indexS ≠ 0 then
          let path := path.take (indexS + 1).toNat
          (some path, locateReverse 0x2F path ≠ (path.length : Int) - 1)
        else
          (none, true)
      else
        (some path, locateReverse 0x2F path ≠ (path.length : Int) - 1)

def urlRelToAbsL (P : Platform) (aBase : List UInt16) (aRelativeUrl : Bytes) :
    ParseM (List UInt16) := do
  let uri ← leaveIfError (P.parseUri aBase)
  match uri.scheme, uri.host with
  | some scheme, some host =>
      let relativeUrl := if aRelativeUrl.take 2 = ascii "./" then aRelativeUrl.drop 2
        else aRelativeUrl
      let (path, appendSlash) := if relativeUrl.head? = some 0x2F then (none, false)
        else basePath uri.path
      let user := (uri.userinfo.map (· ++ [0x40])).getD []
      let port := (uri.port.map (0x3A :: ·)).getD []
      return scheme ++ widen (ascii "://") ++ user ++ host ++ port ++ path.getD [] ++
        (if appendSlash then [0x2F] else []) ++ widen relativeUrl
  | _, _ => .error (.leave KErrNoMemory)

def getBodyPartUrlL (P : Platform) (aMultipartBody : Bytes) (aContentBase aContentLocation : Ptr8)
    (aResponseUrl : List UInt16) : ParseM (List UInt16) := do
  let contentBaseInvalid ←
    if aContentBase = .null then pure true
    else isUrlRelativeL P (aContentBase.bytes aMultipartBody)
  let url := if contentBaseInvalid then aResponseUrl else widen (aContentBase.bytes aMultipartBody)
  if aContentLocation = .null then
    return url
  else if ← isUrlRelativeL P (aContentLocation.bytes aMultipartBody) then
    urlRelToAbsL P url (aContentLocation.bytes aMultipartBody)
  else
    return widen (aContentLocation.bytes aMultipartBody)

/-! ## `ParseBodyPartL` and `ParseL` -/

/-- What `ParseBodyPartL` does with the body behind its loop. -/
def decodeBody (P : Platform) (aMultipartBody : Bytes) (aBodyPart : CBodyPart) :
    ParseM CBodyPart := do
  let aBodyPart ←
    if ← isEncoded aMultipartBody aBodyPart.iContentTransferEncoding then do
      let body ← decodeContentTransferEncoding P aMultipartBody aBodyPart.iContentTransferEncoding
        aBodyPart.iBody
      pure { aBodyPart with iBody := body, iIsDecodedBody := true }
    else
      pure aBodyPart
  let aBodyPart :=
    if aBodyPart.iContentType = .null then aBodyPart
    else cutOffContentTypeAttributes aMultipartBody aBodyPart
  if ← isZipped aMultipartBody aBodyPart.iContentType then do
    let body ← unzip P aMultipartBody aBodyPart.iBody
    return { aBodyPart with iBody := body, iIsDecodedBody := true }
  else
    return aBodyPart

def parseBodyPartL (P : Platform) (aMultipartBody : Bytes) (aBodyPartBuffer : BodyPartBuffer)
    (aSingleEolChar : Eol) (aResponseUrl : List UInt16) : ParseM CBodyPart := do
  let aBodyPart ← scanLoop aBodyPartBuffer.1 (aMultipartBody.drop aBodyPartBuffer.1)
    aBodyPartBuffer.2 aSingleEolChar (aBodyPartBuffer.2 + 1)
    { i := 0, contentHeaderValuePtr := .null, aBodyPart := {} }
  let aBodyPart ← decodeBody P aMultipartBody aBodyPart
  let responseUrl ← getBodyPartUrlL P aMultipartBody aBodyPart.iContentBase
    aBodyPart.iContentLocation aResponseUrl
  return { aBodyPart with iUrl := some responseUrl }

/-- The body parts that were appended to the array, and how `ParseL` ended when not normally. -/
structure Parsed where
  aBodyPartsArray : List CBodyPart
  stop : Option Stop
  deriving DecidableEq

/-- The do loop of `ParseL`; `aMaxToParse` is the number of parts that may still be parsed, and
`none` is no limit. -/
def parseLoop (P : Platform) (aMultipartBody aBoundary : Bytes) (aUrl : List UInt16)
    (aSingleEolChar : Eol) : Nat → Option Nat → Nat → List CBodyPart → Parsed
  | 0, _, _, array => ⟨array, some .fault⟩
  | _ + 1, some 0, _, array => ⟨array, none⟩
  | fuel + 1, limit, startPosition, array =>
      match getNextBodyPartBuffer startPosition aMultipartBody aBoundary aSingleEolChar with
      | .error stop => ⟨array, some stop⟩
      | .ok none => ⟨array, none⟩
      | .ok (some buffer) =>
          match parseBodyPartL P aMultipartBody buffer aSingleEolChar aUrl with
          | .error stop => ⟨array, some stop⟩
          | .ok bodyPart =>
              parseLoop P aMultipartBody aBoundary aUrl aSingleEolChar fuel
                (limit.map (· - 1)) (startPosition + buffer.2) (array ++ [bodyPart])

/-- Only multipart/mixed and multipart/related are supported. -/
def supported (aContentType : Bytes) : ParseM Bool := do
  if ← readM (strncasecmp aContentType (ascii "multipart/mixed")) then
    return true
  readM (strncasecmp aContentType (ascii "multipart/related"))

def parseL (P : Platform) (aMultipartBody aContentType aBoundary : Bytes) (aUrl : List UInt16)
    (aMaxToParse : Option Nat) : Parsed :=
  if aMultipartBody = [] then
    ⟨[], some .fault⟩
  else
    match supported aContentType with
    | .error stop => ⟨[], some stop⟩
    | .ok false => ⟨[], some (.leave KErrNotSupported)⟩
    | .ok true =>
        match setEolCharacters aMultipartBody aBoundary with
        | .error stop => ⟨[], some stop⟩
        | .ok eol =>
            parseLoop P aMultipartBody aBoundary aUrl eol (aMultipartBody.length + 2) aMaxToParse
              0 []

end SymbianWeb.Multipart
