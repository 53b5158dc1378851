import SymbianWeb.Cod.CodData

/-!
# The parser of COD descriptors (`codeng/src/CodParser.cpp`)

A descriptor is a text of lines with a name, a colon and a value. The parser has one cursor, which
is what is left of the text here; a read at its end is a read outside of the text, and `none`. An
error is kept and parsing goes on with the next line, so that the attributes behind it are known as
well. The loops over lines have fuel, and `none` when it ends before them.
-/

set_option autoImplicit false

namespace SymbianWeb.Cod

/-! ## Characters -/

/-- `iCurP` and `iEndP`: the text between them. -/
abbrev Cursor := Text

def KCodSpace : UInt16 := 0x0020

def KCodHorizTab : UInt16 := 0x0009

def KCodCarriageRet : UInt16 := 0x000D

def KCodLineFeed : UInt16 := 0x000A

def KCodColon : UInt16 := 0x003A

def KCodLowControl : UInt16 := 0x001F

def KCodUpControl : UInt16 := 0x007F

def ascii (chars : List Char) : Text := chars.map fun c => UInt16.ofNat c.toNat

/-- What `IsSeparator` compares with, white space apart. -/
def separators : Text :=
  ascii ['(', ')', '<', '>', '@', ',', ';', ':', '\'', '"', '/', '[', ']', '?', '=', '{', '}']

/-- `*iCurP` -/
def deref (iCurP : Cursor) : Option UInt16 := iCurP.head?

/-- `TCodParser::IsControl` -/
def isControl (iCurP : Cursor) : Option Bool := do
  let c ← deref iCurP
  return decide (c ≤ KCodLowControl) || decide (c = KCodUpControl)

/-- `TCodParser::IsWhiteSpace` -/
def isWhiteSpace (iCurP : Cursor) : Option Bool := do
  let c ← deref iCurP
  return decide (c = KCodSpace) || decide (c = KCodHorizTab)

/-- `TCodParser::IsValueChar` -/
def isValueChar (iCurP : Cursor) : Option Bool := do
  let control ← isControl iCurP
  let white ← isWhiteSpace iCurP
  return !(control || white)

/-- `TCodParser::IsSeparator` -/
def isSeparator (iCurP : Cursor) : Option Bool := do
  let white ← isWhiteSpace iCurP
  let c ← deref iCurP
  return white || separators.contains c

/-- `iCurP < iEndP && cond` -/
def inside (cond : Cursor → Option Bool) (iCurP : Cursor) : Option Bool :=
  if iCurP = [] then some false else cond iCurP

/-- `*iCurP == u` -/
def isUnit (u : UInt16) (iCurP : Cursor) : Option Bool := do
  let c ← deref iCurP
  return decide (c = u)

/-- `while ( cond ) iCurP++`. The cursor does not go past the end. -/
def advanceWhile (cond : Cursor → Option Bool) : Cursor → Option Cursor
  | [] => do
      if ← cond [] then none else some []
  | c :: rest => do
      if ← cond (c :: rest) then advanceWhile cond rest else some (c :: rest)

/-! ## Tokens -/

/-- `TCodParser::SkipWhiteSpace` -/
def skipWhiteSpace (iCurP : Cursor) : Option Cursor := advanceWhile (inside isWhiteSpace) iCurP

/-- `TCodParser::NextLine` -/
def nextLine (iCurP : Cursor) : Option Cursor := do
  let iCurP ← advanceWhile (inside fun cur => (!·) <$> isUnit KCodLineFeed cur) iCurP
  return if iCurP = [] then iCurP else iCurP.tail

/-- `TCodParser::IsEndOfLine` -/
def isEndOfLine (iCurP : Cursor) : Option Bool := do
  let carriageRet ← inside (isUnit KCodCarriageRet) iCurP
  inside (isUnit KCodLineFeed) (if carriageRet then iCurP.tail else iCurP)

/-- `TCodParser::Error`: the first error is kept. -/
def error (iError : Int) : Int := if iError = 0 then KErrCodInvalidDescriptor else iError

/-- `TCodParser::EndOfLine`: the cursor and the error. -/
def endOfLine : Cursor → Int → Option (Cursor × Int)
  | [], iError => some ([], iError)
  | c :: rest, iError =>
      if c = KCodLineFeed then
        some (c :: rest, iError)
      else if c = KCodCarriageRet ∧ rest.head? = some KCodLineFeed then
        some (rest, iError)
      else do
        let value ← isValueChar (c :: rest)
        let control ← isControl (c :: rest)
        endOfLine rest (if c = KCodCarriageRet ∨ value ∨ control then error iError else iError)

/-- `TCodParser::Colon`: whether there is one, the cursor and the error. -/
def colon (iCurP : Cursor) (iError : Int) : Option (Bool × Cursor × Int) := do
  let iCurP ← skipWhiteSpace iCurP
  let found ← inside (isUnit KCodColon) iCurP
  let iCurP ← skipWhiteSpace (if found then iCurP.tail else iCurP)
  return (found, iCurP, if found then iError else error iError)

/-- The loop of `AttrValue` with `trailingWs`. -/
def valueLoop : Cursor → Option Cursor → Option (Cursor × Option Cursor)
  | [], trailingWs => some ([], trailingWs)
  | c :: rest, trailingWs => do
      let value ← isValueChar (c :: rest)
      let white ← isWhiteSpace (c :: rest)
      if value || white then
        valueLoop rest
          (if white && trailingWs.isNone then some (c :: rest)
          else if value then none else trailingWs)
      else
        some (c :: rest, trailingWs)

/-- `TCodParser::AttrValue`: the value and the cursor. -/
def attrValue (start : Cursor) : Option (Text × Cursor) := do
  let (iCurP, trailingWs) ← valueLoop start none
  let iCurP := trailingWs.getD iCurP
  return (start.take (start.length - iCurP.length), iCurP)

inductive TCodAttr where
  | eCodName
  | eCodVendor
  | eCodDescription
  | eCodUrl
  | eCodSize
  | eCodType
  | eCodInstallNotify
  | eCodNextUrl
  | eCodNextUrlAtError
  | eCodInfoUrl
  | eCodPrice
  | eCodIcon
  | eCodUnknownAttr
  deriving DecidableEq

/-- The names of the attributes, in the order of the comparisons. -/
def codNames : List (Text × TCodAttr) :=
  [(ascii ['C', 'O', 'D', '-', 'N', 'a', 'm', 'e'], .eCodName),
   (ascii ['C', 'O', 'D', '-', 'V', 'e', 'n', 'd', 'o', 'r'], .eCodVendor),
   (ascii ['C', 'O', 'D', '-', 'D', 'e', 's', 'c', 'r', 'i', 'p', 't', 'i', 'o', 'n'],
    .eCodDescription),
   (ascii ['C', 'O', 'D', '-', 'U', 'R', 'L'], .eCodUrl),
   (ascii ['C', 'O', 'D', '-', 'S', 'i', 'z', 'e'], .eCodSize),
   (ascii ['C', 'O', 'D', '-', 'T', 'y', 'p', 'e'], .eCodType),
   (ascii ['C', 'O', 'D', '-', 'I', 'n', 's', 't', 'a', 'l', 'l', '-', 'N', 'o', 't', 'i', 'f', 'y'],
    .eCodInstallNotify),
   (ascii ['C', 'O', 'D', '-', 'N', 'e', 'x', 't', '-', 'U', 'R', 'L'], .eCodNextUrl),
   (ascii ['C', 'O', 'D', '-', 'N', 'e', 'x', 't', '-', 'U', 'R', 'L', 'a', 't', 'E', 'r', 'r', 'o',
      'r'], .eCodNextUrlAtError),
   (ascii ['C', 'O', 'D', '-', 'I', 'n', 'f', 'o', '-', 'U', 'R', 'L'], .eCodInfoUrl),
   (ascii ['C', 'O', 'D', '-', 'P', 'r', 'i', 'c', 'e'], .eCodPrice),
   (ascii ['C', 'O', 'D', '-', 'I', 'c', 'o', 'n'], .eCodIcon)]

/-- The attribute with a name. -/
def codAttr (token : Text) : TCodAttr :=
  match codNames.find? fun entry => entry.1 = token with
  | some entry => entry.2
  | none => .eCodUnknownAttr

/-- `TCodParser::AttrName`: the attribute, the cursor and the error. -/
def attrName (start : Cursor) (iError : Int) : Option (TCodAttr × Cursor × Int) := do
  let iCurP ← advanceWhile (inside fun cur => do
    let control ← isControl cur
    let separator ← isSeparator cur
    let carriageRet ← isUnit KCodCarriageRet cur
    let lineFeed ← isUnit KCodLineFeed cur
    return !control && !separator && !carriageRet && !lineFeed) start
  let token := start.take (start.length - iCurP.length)
  return (codAttr token, iCurP, if token = [] then error iError else iError)

/-- The number that decimal digits are. -/
def decimal (digits : Text) : Nat := digits.foldl (fun n c => 10 * n + (c.toNat - 48)) 0

def isDigit (c : UInt16) : Bool := decide (48 ≤ c.toNat) && decide (c.toNat ≤ 57)

/-- `TLex::Val( TUint& )`: the number at the start of a text; what is behind it is not looked at. -/
def lexVal (text : Text) : Option UInt32 :=
  let digits := text.takeWhile isDigit
  if digits = [] ∨ 2 ^ 32 ≤ decimal digits then none else some (UInt32.ofNat (decimal digits))

/-! ## Lines -/

/-- `TCodParser`, with the media object that `ParseL` gives to `AttrLineL`. -/
structure TCodParser where
  iCurP : Cursor
  iError : Int
  iData : CCodData
  mediaObject : CMediaObjectData

/-- The setter of an attribute and its result. -/
def TCodParser.setAttr (p : TCodParser) (attr : TCodAttr) (value : Text) : Bool × TCodParser :=
  match attr with
  | .eCodName => (true, { p with mediaObject := p.mediaObject.setNameL value })
  | .eCodVendor =>
      let (ok, data) := p.iData.setVendorL value
      (ok, { p with iData := data })
  | .eCodDescription => (true, { p with mediaObject := p.mediaObject.setDescriptionL value })
  | .eCodSize =>
      match lexVal value with
      | some size => (true, { p with mediaObject := p.mediaObject.setSize size })
      | none => (false, p)
  | .eCodInstallNotify => (true, { p with mediaObject := p.mediaObject.setInstallNotifyL value })
  | .eCodNextUrl =>
      let (ok, data) := p.iData.setNextUrlL value
      (ok, { p with iData := data })
  | .eCodNextUrlAtError =>
      let (ok, data) := p.iData.setNextUrlAtErrorL value
      (ok, { p with iData := data })
  | .eCodInfoUrl => (true, { p with mediaObject := p.mediaObject.setInfoUrlL value })
  | .eCodPrice => (true, { p with mediaObject := p.mediaObject.setPriceL value })
  | .eCodIcon => (true, { p with mediaObject := p.mediaObject.setIconL value })
  | .eCodType =>
      let (ok, mediaObject) := p.mediaObject.setTypeL value
      (ok, { p with mediaObject := mediaObject })
  | .eCodUrl => (true, { p with mediaObject := p.mediaObject.setUrlL value })
  | .eCodUnknownAttr => (true, p)

/-- A line behind the name: the colon, and for an attribute that is known the value and the end of
the line. -/
def TCodParser.attrRest (p : TCodParser) (attr : TCodAttr) : Option (Bool × TCodParser) := do
  let (found, iCurP, iError) ← colon p.iCurP p.iError
  if attr = .eCodUnknownAttr then
    some (found, { p with iCurP := iCurP, iError := iError })
  else if found then do
    let (value, iCurP) ← attrValue iCurP
    let (ok, p) := p.setAttr attr value
    let (iCurP, iError) ← endOfLine iCurP iError
    some (ok, { p with iCurP := iCurP, iError := iError })
  else
    some (true, { p with iCurP := iCurP, iError := iError })

/-- The loop over blank lines at the start of `AttrLineL`. -/
def skipLines : Nat → Cursor → Option Cursor
  | 0, _ => none
  | fuel + 1, iCurP => do
      if ← isEndOfLine iCurP then
        skipLines fuel (← skipWhiteSpace (← nextLine iCurP))
      else
        some iCurP

/-- `TCodParser::AttrLineL` -/
def TCodParser.attrLineL (fuel : Nat) (p : TCodParser) : Option (Bool × TCodParser) := do
  let start ← skipWhiteSpace p.iCurP
  let start ← skipLines fuel start
  if start = [] then
    some (false, { p with iCurP := start })
  else do
    let (attr, iCurP, iError) ← attrName start p.iError
    let (ok, p) ← attrRest { p with iCurP := iCurP, iError := iError } attr
    let iCurP ← nextLine p.iCurP
    some (true, { p with iCurP := iCurP, iError := if ok then p.iError else error p.iError })

/-- The loop of `ParseL`. -/
def TCodParser.attrLines : Nat → TCodParser → Option TCodParser
  | 0, _ => none
  | fuel + 1, p => do
      let (more, p) ← p.attrLineL (fuel + 1)
      if more then attrLines fuel p else some p

/-- `TCodParser::ParseL`: the code with which it leaves, or `KErrNone`, and the data. -/
def TCodParser.parseL (fuel : Nat) (aBuf : Text) (aData : CCodData) : Option (Int × CCodData) := do
  let p ← attrLines fuel ⟨aBuf, KErrNone, aData, CMediaObjectData.newL⟩
  return (p.iError, p.iData.appendMediaObjectL p.mediaObject)

end SymbianWeb.Cod
