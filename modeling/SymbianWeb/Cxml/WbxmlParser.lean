import SymbianWeb.Cxml.MultiByte
import SymbianWeb.Cxml.Ucs2Conversion
import SymbianWeb.Library.ErrorState

/-!
# The WBXML parser

The parser reads a document from a buffer and calls the functions of an event handler as it goes.
A callback gets the parser to read from and the context of the handler. Its status is kept in
`status` and in the flags, and the loops of the parser look at the flags before each round.

The parser stops with `Stop.fault` where the program would read or write outside its memory, and
with `Stop.limit` when a loop would have to make more rounds than it is given. The machine notes
which callbacks were called, what they returned, and at which offset with which code pages the
parser has looked for a token. The parser never looks at these notes.
-/

set_option autoImplicit false

namespace SymbianWeb.WbxmlParser

open Wbxml ErrorState

/-! ## The data -/

/-- `NW_Status_t`. The values the parser neither returns nor compares with are in `other`. -/
inductive NwStatus where
  | success
  | failure
  | outOfMemory
  | wbxmlErrorBytecode
  | wbxmlErrorCharsetUnsupported
  | wmlbrowserBadContent
  | wbxmlIterateMore
  | wbxmlIterateDone
  | wbxmlHasAttributes
  | wbxmlHasContent
  | wbxmlHasAttrContent
  | other (code : Nat)
  deriving DecidableEq

/-- The bits of `parser->flags`: those of `NW_WBXML_PARSER_S_MASK` and `NW_WBXML_REGISTRY_INIT`. -/
structure Flags where
  noMemory : Bool
  bytecodeError : Bool
  charsetUnsupported : Bool
  unknownError : Bool
  registryInit : Bool
  deriving DecidableEq

/-- `(parser->flags & NW_WBXML_PARSER_S_MASK) == NW_WBXML_PARSER_OK` -/
def Flags.ok (flags : Flags) : Bool :=
  !(flags.noMemory || flags.bytecodeError || flags.charsetUnsupported || flags.unknownError)

/-- A pointer to a byte of a buffer, or to one outside of it. -/
structure Pointer where
  buffer : Bytes
  index : Int
  deriving DecidableEq

/-- What the memory holds from the pointer on. -/
def Pointer.rest (p : Pointer) : Option Bytes :=
  if 0 ≤ p.index ∧ p.index ≤ p.buffer.length then some (p.buffer.drop p.index.toNat) else none

def Pointer.add (p : Pointer) (count : Int) : Pointer := { p with index := p.index + count }

/-- `NW_WBXML_Document_t`, as the parser fills it in. -/
structure Document where
  version : UInt8
  publicid : UInt32
  charset : Charset
  strtblLength : UInt32
  strtblData : Pointer
  docType : Option NwString
  deriving DecidableEq

/-- `NW_WBXML_CP_Registry_Entry_t` -/
structure RegistryEntry where
  codePage : UInt8
  startOffset : UInt32
  deriving DecidableEq

/-- `NW_WBXML_CP_Registry_t`, with `current` as an index into the storage. -/
structure CpRegistry where
  storage : List RegistryEntry
  current : Nat
  count : Nat
  deriving DecidableEq

/-- `NW_WBXML_Parser_t` without its handler and context. -/
structure Parser where
  flags : Flags
  state : UInt32
  tagCodePage : UInt8
  attributeCodePage : UInt8
  cpRegistry : CpRegistry
  dictionary : UInt32
  doc : Option Document
  offset : UInt32
  left : UInt32
  status : NwStatus
  p : Option Pointer
  recursiveCallCnt : UInt32
  extTNotTableIndex : UInt8
  deriving DecidableEq

/-- `NW_WBXML_PARSER_S_START`, `NW_WBXML_PARSER_S_HEADER` and `NW_WBXML_REGISTRY_INIT` in the word
`state`. -/
def stateStart : UInt32 := 0x00
def stateHeader : UInt32 := 0x01
def stateMask : UInt32 := 0x0F
def registryInit : UInt32 := 0x10

/-- `NW_WBXML_Parser_newInPlace` -/
def Parser.newInPlace : Parser where
  flags := ⟨false, false, false, false, false⟩
  state := stateStart
  tagCodePage := 0
  attributeCodePage := 0
  cpRegistry := ⟨[], 0, 0⟩
  dictionary := 0
  doc := none
  offset := 0
  left := 0
  status := .success
  p := none
  recursiveCallCnt := 0
  extTNotTableIndex := 0

/-- `NW_WBXML_Parser_addCPRegistry` -/
def Parser.addCPRegistry (storage : List RegistryEntry) (count : Nat) (parser : Parser) : Parser :=
  { parser with
    cpRegistry := ⟨storage, 0, count⟩
    state := parser.state &&& ~~~registryInit }

/-- The functions of `NW_WBXML_EventHandler_t`, with what the parser hands them. -/
inductive Event where
  | startDocument
  | endDocument
  | pi
  | piEnd
  | tagStart
  | tagEnd
  | attrStart
  | attrVal
  | content
  | codePage
  | extension
  | fqToken (token : UInt32)
  | inlineString (len : UInt32)
  | tableString (index : UInt32)
  | binary (value : UInt32)
  | opaqueData (len : UInt32)
  | entity (e : UInt32)
  deriving DecidableEq

/-- An event handler with a context of type `σ`; a function that is null is `none`. -/
abbrev EventHandler (σ : Type) := Event → Option (Parser → σ → NwStatus × σ)

/-- A place where the parser has looked for a token, and the code pages in effect there. -/
structure Boundary where
  offset : UInt32
  tagCodePage : UInt8
  attributeCodePage : UInt8
  deriving DecidableEq

/-- The parser with its handler and context, and the notes about the run so far, last first. -/
structure Machine (σ : Type) where
  parser : Parser
  handler : EventHandler σ
  context : σ
  events : List Event
  returned : List NwStatus
  boundaries : List Boundary

/-- A parser that has not read anything. -/
def Machine.start {σ : Type} (parser : Parser) (handler : EventHandler σ) (context : σ) :
    Machine σ :=
  ⟨parser, handler, context, [], [], []⟩

inductive Stop where
  | fault
  | limit
  deriving DecidableEq

abbrev Parse (σ : Type) := EStateM Stop (Machine σ)

/-- `TOKEN_STATE_TAG` and `TOKEN_STATE_ATTR` -/
inductive TokenState where
  | tag
  | attr
  deriving DecidableEq

variable {σ : Type}

def getParser : Parse σ Parser := do return (← get).parser

def modifyParser (f : Parser → Parser) : Parse σ Unit :=
  modify fun m => { m with parser := f m.parser }

/-- A value that is there, or a read outside the memory. -/
def orFault {α : Type} : Option α → Parse σ α
  | some a => pure a
  | none => throw .fault

/-! ## Callbacks -/

/-- `NW_WBXML_Parser_setStatus` -/
def Parser.setStatus (status : NwStatus) (parser : Parser) : Parser :=
  { parser with
    status
    flags :=
      match status with
      | .success => parser.flags
      | .outOfMemory => { parser.flags with noMemory := true }
      | .wbxmlErrorBytecode => { parser.flags with bytecodeError := true }
      | .wbxmlErrorCharsetUnsupported => { parser.flags with charsetUnsupported := true }
      | _ => { parser.flags with unknownError := true } }

/-- `NW_WBXML_Parser_flagToStatus` -/
def Parser.flagToStatus (parser : Parser) : NwStatus :=
  if parser.flags.noMemory then .outOfMemory
  else if parser.flags.bytecodeError then .wbxmlErrorBytecode
  else if parser.flags.charsetUnsupported then .wbxmlErrorCharsetUnsupported
  else parser.status

/-- The call of a function of the handler, if there is one. -/
def callback (event : Event) : Parse σ (Option NwStatus) := do
  let m ← get
  match m.handler event with
  | none =>
      set { m with events := event :: m.events }
      return none
  | some function =>
      let (status, context) := function m.parser m.context
      set { m with context, events := event :: m.events, returned := status :: m.returned }
      return some status

/-- `Handle_Pi` to `Handle_Entity` -/
def handle (event : Event) : Parse σ Unit := do
  match ← callback event with
  | none => pure ()
  | some status => modifyParser (Parser.setStatus status)

/-- The callbacks for the start and the end of a document, whose status is returned. -/
def handleDocument (event : Event) : Parse σ NwStatus := do
  match ← callback event with
  | none => return .success
  | some status => return status

/-- `CHECK_PARSER_STATUS`, and the way out of a loop that has found an error in the flags. -/
def checkParserStatus (next : Parse σ NwStatus) : Parse σ NwStatus := do
  let parser ← getParser
  if parser.flags.ok then next else return parser.flagToStatus

/-- `if (status != NW_STAT_SUCCESS) return status;` -/
def ifSuccess (first next : Parse σ NwStatus) : Parse σ NwStatus := do
  let status ← first
  if status = .success then next else return status

/-! ## The reader -/

/-- The move of `NW_WBXML_Parser_advance`, if it is allowed. -/
def Parser.advance? (count : Int) (parser : Parser) : Option Parser :=
  let target := (toInt32 parser.offset.toNat + count).bmod 0x100000000
  if toInt32 parser.left.toNat < count ∨ target < 0 then none
  else some
    { parser with
      p := parser.p.map (·.add count)
      offset := .ofNat target.toNat
      left := .ofInt (toInt32 parser.left.toNat - count) }

/-- `NW_WBXML_Parser_advance`: whether it has moved the parser. -/
def advance (count : Int) : Parse σ Bool := do
  match (← getParser).advance? count with
  | none => return false
  | some parser =>
      modifyParser fun _ => parser
      return true

/-- `if (NW_WBXML_Parser_advance (parser, count) < 0) return NW_STAT_WBXML_ERROR_BYTECODE;` -/
def afterAdvance (count : Int) (next : Parse σ NwStatus) : Parse σ NwStatus := do
  if ← advance count then next else return .wbxmlErrorBytecode

/-- `NW_WBXML_Parser_hasMoreBytecode` -/
def Parser.hasMoreBytecode (parser : Parser) : Bool := 0 < parser.left

/-- What is in the memory at the pointer of the parser. -/
def Parser.rest (parser : Parser) : Option Bytes := parser.p.bind (·.rest)

/-- `NW_WBXML_Parser_readUint8` -/
def Parser.readUint8 (parser : Parser) : Option UInt8 := parser.rest.bind (·.head?)

/-- `NW_WBXML_Parser_readMbUint32`, and the error that follows when it returns a number below 0. -/
def withMbUint32 (next : UInt32 → Nat → Parse σ NwStatus) : Parse σ NwStatus := do
  let parser ← getParser
  match ← orFault (parser.rest.bind (readMbUint32 · parser.left.toNat)) with
  | .value val count => next val count
  | .bad => return .wbxmlErrorBytecode

/-- `NW_WBXML_Parser_getInlineStrLen`, and the error that follows when it returns a number
below 0. -/
def withInlineStrLen (next : Nat → Parse σ NwStatus) : Parse σ NwStatus := do
  let parser ← getParser
  let doc ← orFault parser.doc
  let ilen ← orFault (parser.rest.bind (getInlineStrLen doc.charset · parser.left.toNat))
  if ilen < 0 then return .wbxmlErrorBytecode else next ilen.toNat

/-- Whether `NW_String_valid` finds a string in the string table at an index of it. -/
def Document.tableStringValid (index : UInt32) (doc : Document) : Option Bool :=
  if index ≥ doc.strtblLength then some false
  else
    (doc.strtblData.add index.toNat).rest.bind
      (stringValid doc.charset · (doc.strtblLength - index).toNat)

/-- The error for an index behind the string table, or at which there is no string. -/
def ifTableString (index : UInt32) (next : Parse σ NwStatus) : Parse σ NwStatus := do
  let doc ← orFault (← getParser).doc
  if ← orFault (doc.tableStringValid index) then next else return .wbxmlErrorBytecode

/-! ## Tokens -/

/-- `FqToken` -/
def Parser.fqToken (token : UInt8) (tokenState : TokenState) (parser : Parser) : UInt32 :=
  match tokenState with
  | .attr =>
      token.toUInt32 ||| (parser.dictionary <<< 16) |||
        ((parser.attributeCodePage.toUInt32 <<< 8) ||| 0x80000000)
  | .tag =>
      token.toUInt32 ||| (parser.dictionary <<< 16) |||
        ((parser.tagCodePage.toUInt32 <<< 8) ||| 0x00000000)

/-- The offset that `NW_WBXML_CPRegistry_addEntry` notes: even for tags, odd for attributes. -/
def entryOffset (offset : UInt32) : TokenState → UInt32
  | .tag => if offset &&& 1 ≠ 0 then offset + 1 else offset
  | .attr => if offset &&& 1 = 0 then offset + 1 else offset

/-- `NW_WBXML_CPRegistry_addEntry`; no registry if there is no room for the entry. -/
def CpRegistry.addEntry (codePage : UInt8) (offset : UInt32) (tokenState : TokenState)
    (registry : CpRegistry) : Option CpRegistry :=
  if registry.current < registry.storage.length then
    some
      { registry with
        storage := registry.storage.set registry.current ⟨codePage, entryOffset offset tokenState⟩
        current := registry.current + 1 }
  else none

/-- The loop of `NW_WBXML_CPRegistry_getCodePages`. -/
def pagesFrom (offset : UInt32) : UInt8 × UInt8 → List RegistryEntry → UInt8 × UInt8
  | pages, [] => pages
  | (tagCodePage, attributeCodePage), entry :: entries =>
      if offset > entry.startOffset then
        if entry.startOffset &&& 1 ≠ 0 then pagesFrom offset (tagCodePage, entry.codePage) entries
        else pagesFrom offset (entry.codePage, attributeCodePage) entries
      else (tagCodePage, attributeCodePage)

/-- `NW_WBXML_CPRegistry_getCodePages` -/
def CpRegistry.getCodePages (offset : UInt32) (registry : CpRegistry) : UInt8 × UInt8 :=
  pagesFrom offset (0, 0) (registry.storage.take registry.count)

/-- `NW_WBXML_Parser_setOffset`: the parser after it, moved or not. -/
def Parser.setOffset (offset : UInt32) (parser : Parser) : Parser :=
  let count := toInt32 offset.toNat - toInt32 parser.offset.toNat
  let parser :=
    if 0 < parser.cpRegistry.count ∧ parser.flags.registryInit then
      let pages := parser.cpRegistry.getCodePages offset
      { parser with tagCodePage := pages.1, attributeCodePage := pages.2 }
    else parser
  (parser.advance? count).getD parser

def Parser.setPage (tokenState : TokenState) (page : UInt8) (parser : Parser) : Parser :=
  match tokenState with
  | .tag => { parser with tagCodePage := page }
  | .attr => { parser with attributeCodePage := page }

/-- The entry that is made for a switch of the code page while there is a registry that has not
been filled yet. -/
def Parser.registerPage (tokenState : TokenState) (page : UInt8) (parser : Parser) :
    Option Parser :=
  if 0 < parser.cpRegistry.count ∧ !parser.flags.registryInit then
    (parser.cpRegistry.addEntry page (parser.offset - 1) tokenState).map fun cpRegistry =>
      { parser with cpRegistry }
  else some parser

/-- The parser with the code page that it reads. -/
def Parser.enterPage? (tokenState : TokenState) (parser : Parser) : Option Parser :=
  parser.readUint8.bind fun page => (parser.setPage tokenState page).registerPage tokenState page

def enterPage (tokenState : TokenState) : Parse σ Unit := do
  let parser ← orFault ((← getParser).enterPage? tokenState)
  modifyParser fun _ => parser

/-- The body of the loop of `NW_WBXML_Parser_getNextToken`, up to the second call of
`NW_WBXML_Parser_advance`: whether the parser is behind the switch of the code page. -/
def switchPage (tokenState : TokenState) : Parse σ Bool := do
  if ← advance 1 then
    if (← getParser).hasMoreBytecode then
      enterPage tokenState
      handle .codePage
      advance 1
    else return false
  else return false

/-- The parser looks for a token where it is. -/
def readToken : Parse σ UInt8 := do
  let parser ← getParser
  modify fun m =>
    { m with
      boundaries :=
        ⟨parser.offset, parser.tagCodePage, parser.attributeCodePage⟩ :: m.boundaries }
  orFault parser.readUint8

/-- `NW_WBXML_Parser_getNextToken`, and the error that follows when it finds none. Each round of its
loop takes two bytes of those that are left, so the rounds suffice. -/
def withTokenFrom (tokenState : TokenState) (next : UInt8 → Parse σ NwStatus) :
    Nat → Parse σ NwStatus
  | 0 => return .wbxmlErrorBytecode
  | rounds + 1 => do
      if (← getParser).hasMoreBytecode then
        let token ← readToken
        if token = 0x00 then
          if ← switchPage tokenState then withTokenFrom tokenState next rounds
          else return .wbxmlErrorBytecode
        else next token
      else return .wbxmlErrorBytecode

def withToken (tokenState : TokenState) (next : UInt8 → Parse σ NwStatus) : Parse σ NwStatus := do
  withTokenFrom tokenState next (← getParser).left.toNat

/-! ## The parts of a document -/

/-- The tokens of `isTextToken`. -/
def isTextToken (token : UInt8) : Bool :=
  token ∈ [0x03, 0x83, 0xC3, 0x02, 0x40, 0x41, 0x42, 0x80, 0x81, 0x82, 0xC0, 0xC1, 0xC2]

/-- A loop that runs an iterator while the flags are all right: those of
`NW_WBXML_Parser_textParse`, `NW_WBXML_Parser_attributeListParse` and
`NW_WBXML_Parser_attributeParse`. -/
def runIterator (iterator : Parse σ NwStatus) : Nat → Parse σ NwStatus
  | 0 => checkParserStatus (throw .limit)
  | n + 1 => checkParserStatus do
      let status ← iterator
      if status = .wbxmlIterateDone then return .success
      else if status ≠ .wbxmlIterateMore then return status
      else runIterator iterator n

/-- `NW_WBXML_Parser_extensionParse` -/
def extensionParse (tokenState : TokenState) : Parse σ NwStatus := do
  handle .extension
  withToken tokenState fun token => do
    handle (.fqToken ((← getParser).fqToken token tokenState))
    if token = 0x40 ∨ token = 0x41 ∨ token = 0x42 then
      afterAdvance 1 do
        withInlineStrLen fun ilen => do
          handle (.inlineString (.ofNat ilen))
          afterAdvance ilen (return .success)
    else if token = 0x80 ∨ token = 0x81 ∨ token = 0x82 then
      afterAdvance 1 do
        withMbUint32 fun value count => do
          let event : Event :=
            if (← getParser).extTNotTableIndex = 0 then .tableString value else .binary value
          handle event
          afterAdvance count (return .success)
    else if token = 0xC0 ∨ token = 0xC1 ∨ token = 0xC2 then
      afterAdvance 1 do
        handle (.binary 0)
        return .success
    else return .wbxmlErrorBytecode

/-- The opaque data at the parser: the callback and the move behind the data. -/
def skipOpaque (index : UInt32) : Parse σ Bool := do
  handle (.opaqueData index)
  advance (toInt32 index.toNat)

/-- `NW_WBXML_Parser_opaqueParse` -/
def opaqueParse (tokenState : TokenState) : Parse σ NwStatus :=
  withToken tokenState fun token =>
    if token = 0xC3 then
      afterAdvance 1 do
        withMbUint32 fun index count =>
          afterAdvance count do
            if ← skipOpaque index then return .success else return .wbxmlErrorBytecode
    else return .success

/-- `NW_WBXML_Parser_attributeNameParse` -/
def attributeNameParse : Parse σ NwStatus := do
  if (← getParser).hasMoreBytecode then
    withToken .attr fun token =>
      if token < 128 then do
        handle .attrStart
        if (← getParser).status = .outOfMemory then return (← getParser).status
        else
          afterAdvance 1 do
            handle (.fqToken ((← getParser).fqToken token .attr))
            if token = 0x04 then
              withMbUint32 fun index count => do
                handle (.tableString index)
                afterAdvance count (return .success)
            else return .success
      else return .wbxmlErrorBytecode
  else return .wbxmlErrorBytecode

/-- The first part of `NW_WBXML_Parser_attributeValsIterate`: one component of a value. -/
def attributeValParse : Parse σ NwStatus :=
  withToken .attr fun token =>
    if token = 0x03 then
      afterAdvance 1 do
        withInlineStrLen fun ilen => do
          handle .attrVal
          handle (.inlineString (.ofNat ilen))
          afterAdvance ilen (return .success)
    else if token = 0x83 then
      afterAdvance 1 do
        withMbUint32 fun index count => do
          handle .attrVal
          handle (.tableString index)
          afterAdvance count (return .success)
    else if token = 0xC3 then
      afterAdvance 1 do
        withMbUint32 fun index count =>
          afterAdvance count do
            handle .attrVal
            if ← skipOpaque index then return .success else return .wbxmlErrorBytecode
    else if token = 0x02 then
      afterAdvance 1 do
        withMbUint32 fun e count => do
          handle (.entity e)
          afterAdvance count (return .success)
    else if isTextToken token then do
      handle .attrVal
      let status ← extensionParse .attr
      if status = .success then return .success else return .wbxmlErrorBytecode
    else if token ≥ 128 then do
      let fqToken := (← getParser).fqToken token .attr
      handle .attrVal
      handle (.fqToken fqToken)
      afterAdvance 1 (return .success)
    else return .success

/-- `NW_WBXML_Parser_attributeValsIterate` -/
def attributeValsIterate : Parse σ NwStatus :=
  ifSuccess attributeValParse do
    withToken .attr fun token =>
      if isTextToken token ∨ token ≥ 128 then return .wbxmlIterateMore
      else return .wbxmlIterateDone

/-- `NW_WBXML_Parser_attributeParse` -/
def attributeParse (n : Nat) : Parse σ NwStatus :=
  ifSuccess attributeNameParse (runIterator attributeValsIterate n)

/-- `NW_WBXML_Parser_attributeListIterate` -/
def attributeListIterate (n : Nat) : Parse σ NwStatus :=
  ifSuccess (attributeParse n) do
    withToken .attr fun token =>
      if token = 0x01 then return .wbxmlIterateDone else return .wbxmlIterateMore

/-- `NW_WBXML_Parser_attributeListParse` -/
def attributeListParse (n : Nat) : Parse σ NwStatus := runIterator (attributeListIterate n) n

/-- `if (NW_WBXML_Parser_hasMoreBytecode (parser)) NW_WBXML_Parser_advance (parser, 1);` -/
def advanceIfMore : Parse σ Unit := do
  if (← getParser).hasMoreBytecode then
    let _ ← advance 1

/-- `NW_WBXML_Parser_piParse` -/
def piParse (n : Nat) (tokenState : TokenState) : Parse σ NwStatus :=
  withToken tokenState fun token =>
    if token = 0x43 then do
      handle .pi
      afterAdvance 1 do
        ifSuccess (attributeParse n) do
          withToken .attr fun token =>
            if token = 0x01 then do
              handle .piEnd
              advanceIfMore
              return .success
            else return .wbxmlErrorBytecode
    else return .wbxmlErrorBytecode

/-- The `switch` of `NW_WBXML_Parser_textIterate`. -/
def textTokenParse (n : Nat) : Parse σ NwStatus :=
  withToken .tag fun token =>
    if token = 0x03 then do
      handle .content
      afterAdvance 1 do
        withInlineStrLen fun ilen => do
          handle (.inlineString (.ofNat ilen))
          afterAdvance ilen (return .success)
    else if token = 0x83 then do
      handle .content
      afterAdvance 1 do
        withMbUint32 fun index count =>
          ifTableString index do
            handle (.tableString index)
            afterAdvance count (return .success)
    else if token = 0x02 then do
      handle .content
      afterAdvance 1 do
        withMbUint32 fun e count =>
          afterAdvance count do
            handle (.entity e)
            return .success
    else if token = 0xC3 then do
      handle .content
      opaqueParse .tag
    else if isTextToken token then do
      handle .content
      extensionParse .tag
    else if token = 0x43 then piParse n .tag
    else return .failure

/-- `NW_WBXML_Parser_textIterate` -/
def textIterate (n : Nat) : Parse σ NwStatus :=
  ifSuccess (textTokenParse n) do
    if (← getParser).hasMoreBytecode then
      withToken .tag fun token =>
        if isTextToken token then return .wbxmlIterateMore else return .wbxmlIterateDone
    else return .wbxmlIterateDone

/-- `NW_WBXML_Parser_textParse` -/
def textParse (n : Nat) : Parse σ NwStatus := runIterator (textIterate n) n

/-- `HAS_CONTENT` and `HAS_ATTRIBUTES` -/
def hasContent (fqToken : UInt32) : Bool := fqToken &&& 0x40 ≠ 0
def hasAttributes (fqToken : UInt32) : Bool := fqToken &&& 0x80 ≠ 0

/-- The end of `NW_WBXML_Parser_tagNameParse`: what the tag says that follows. -/
def tagStatus (fqToken : UInt32) : Parse σ NwStatus :=
  if hasAttributes fqToken then
    if hasContent fqToken then return .wbxmlHasAttrContent else return .wbxmlHasAttributes
  else if hasContent fqToken then return .wbxmlHasContent
  else do
    handle .tagEnd
    return .success

/-- The name of a literal tag in `NW_WBXML_Parser_tagNameParse`, and what follows. -/
def literalTagName (token : UInt8) (fqToken : UInt32) : Parse σ NwStatus :=
  if token &&& 0x3F = 0x04 then
    withMbUint32 fun index count => do
      handle (.tableString index)
      afterAdvance count (tagStatus fqToken)
  else tagStatus fqToken

/-- `NW_WBXML_Parser_tagNameParse` -/
def tagNameParse : Parse σ NwStatus := do
  handle .tagStart
  checkParserStatus do
    withToken .tag fun token => do
      let fqToken := (← getParser).fqToken token .tag
      handle (.fqToken fqToken)
      if hasContent fqToken ∨ hasAttributes fqToken ∨ (← getParser).hasMoreBytecode then
        afterAdvance 1 (literalTagName token fqToken)
      else literalTagName token fqToken

/-- `while ((parser->flags & NW_WBXML_PARSER_S_MASK) == NW_WBXML_PARSER_OK)` in
`NW_WBXML_Parser_elementParse`, whose end is an error. -/
def whileOk (next : Parse σ NwStatus) : Parse σ NwStatus := do
  if (← getParser).flags.ok then next else return .wbxmlErrorBytecode

/-- The round of `NW_WBXML_Parser_elementParse` for the content of the element. -/
def elementContent (content : Parse σ NwStatus) : Parse σ NwStatus :=
  ifSuccess content do
    handle .tagEnd
    return .success

/-- What follows the attributes of an element in `NW_WBXML_Parser_elementParse`. -/
def behindAttributes (content : Parse σ NwStatus) (tagStatus : NwStatus) : Parse σ NwStatus :=
  if tagStatus = .wbxmlHasAttrContent then whileOk (elementContent content)
  else do
    handle .tagEnd
    return .success

/-- The rounds of `NW_WBXML_Parser_elementParse` behind the one for the name. -/
def elementRest (content : Parse σ NwStatus) (n : Nat) (tagStatus : NwStatus) : Parse σ NwStatus :=
  if tagStatus = .wbxmlHasAttributes ∨ tagStatus = .wbxmlHasAttrContent then
    ifSuccess (attributeListParse n) do
      if (← getParser).hasMoreBytecode then afterAdvance 1 (behindAttributes content tagStatus)
      else behindAttributes content tagStatus
  else if tagStatus = .wbxmlHasContent then elementContent content
  else return .wbxmlErrorBytecode

/-- `NW_WBXML_Parser_elementParse` between the two changes of `recursiveCallCnt`, where `content`
parses the content of the element. -/
def elementRounds (content : Parse σ NwStatus) (n : Nat) : Parse σ NwStatus := do
  if (← getParser).recursiveCallCnt ≥ 120 then return .wbxmlErrorBytecode
  else
    whileOk do
      let tagStatus ← tagNameParse
      if tagStatus = .success then return .success
      else whileOk (elementRest content n tagStatus)

/-- `NW_WBXML_Parser_elementParse` -/
def elementParse (content : Parse σ NwStatus) (n : Nat) : Parse σ NwStatus := do
  modifyParser fun parser => { parser with recursiveCallCnt := parser.recursiveCallCnt + 1 }
  let status ← elementRounds content n
  modifyParser fun parser => { parser with recursiveCallCnt := parser.recursiveCallCnt - 1 }
  return status

/-- `NW_WBXML_Parser_contentParse` -/
def contentParse : Nat → Parse σ NwStatus
  | 0 => checkParserStatus (throw .limit)
  | n + 1 => checkParserStatus do
      withToken .tag fun token =>
        if token = 0x01 then do
          advanceIfMore
          return .success
        else if isTextToken token ∨ token = 0x43 then
          ifSuccess (textParse n) (contentParse n)
        else do
          handle .content
          ifSuccess (elementParse (contentParse n) n) (contentParse n)

/-! ## Documents -/

/-- The loop of `NW_WBXML_Parser_bodyParse`. -/
def bodyLoop : Nat → Parse σ NwStatus
  | 0 => do
      let parser ← getParser
      if parser.flags.ok ∧ parser.hasMoreBytecode then throw .limit else return .success
  | n + 1 => do
      let parser ← getParser
      if parser.flags.ok ∧ parser.hasMoreBytecode then
        withToken .tag fun token =>
          if token = 0x01 then do
            if (← getParser).hasMoreBytecode then
              afterAdvance 1 do
                handle .tagEnd
                bodyLoop n
            else bodyLoop n
          else if isTextToken token ∨ token = 0x43 then
            ifSuccess (textParse n) (bodyLoop n)
          else ifSuccess (elementParse (contentParse n) n) (bodyLoop n)
      else return .success

/-- `NW_WBXML_REGISTRY_INIT`, once a registry has been filled. -/
def Parser.initRegistry (parser : Parser) : Parser :=
  if 0 < parser.cpRegistry.count ∧ !parser.flags.registryInit then
    { parser with flags := { parser.flags with registryInit := true } }
  else parser

/-- `NW_WBXML_Parser_bodyParse` -/
def bodyParse (n : Nat) : Parse σ NwStatus :=
  ifSuccess (bodyLoop n) do
    checkParserStatus do
      modifyParser Parser.initRegistry
      handleDocument .endDocument

/-- What the library around the parser knows and has: the indices of the dictionaries, the public
identifier for a document that names no known one, and the memory for the document type. -/
structure Surroundings where
  getIndexByPublicId : UInt32 → UInt32
  getIndexByDocType : NwString → Charset → UInt32
  defaultPublicId : UInt32
  docTypeMemory : Bool

/-- The document type: of a document without a public identifier it is in the string table, else
it comes from the dictionary and is not kept here. -/
def withDocType (publicid : UInt32) (charset : Charset) (data : Pointer) (length index : UInt32)
    (memory : Bool) (next : Option NwString → Parse σ NwStatus) : Parse σ NwStatus := do
  if publicid = 0 then
    if index ≥ length then return .wbxmlErrorBytecode
    else
      let storage ← orFault (data.add index.toNat).rest
      if ← orFault (stringValid charset storage (length - index).toNat) then
        if memory then
          match ← orFault (initializeString storage charset) with
          | some docType => next (some docType)
          | none => return .wbxmlErrorBytecode
        else return .outOfMemory
      else return .wbxmlErrorBytecode
  else if memory then next none
  else return .outOfMemory

/-- `NW_WBXML_Parser_readStringTable`: the length of the table and where it starts. -/
def withStringTable (next : UInt32 → Pointer → Parse σ NwStatus) : Parse σ NwStatus :=
  withMbUint32 fun length skip =>
    afterAdvance skip do
      let data ← orFault (← getParser).p
      afterAdvance (toInt32 length.toNat) (next length data)

/-- The charset of the document, which a document of version 1.0 does not name. -/
def withCharset (version : UInt8) (next : Charset → Parse σ NwStatus) : Parse σ NwStatus :=
  if version ≠ 0 then
    withMbUint32 fun charset count =>
      afterAdvance count do
        match charsetValid charset.toNat with
        | some charset => next charset
        | none => return .wbxmlErrorCharsetUnsupported
  else next .utf8

/-- The public identifier, and the index of the document type if the identifier is 0. -/
def withPublicId (next : UInt32 → UInt32 → Parse σ NwStatus) : Parse σ NwStatus :=
  withMbUint32 fun publicid count =>
    afterAdvance count do
      if publicid = 0 then
        withMbUint32 fun docTypeByteOffset count =>
          afterAdvance count (next publicid docTypeByteOffset)
      else next publicid 0

/-- The document of a parser whose header has been read. -/
def Parser.setDocument (doc : Document) (parser : Parser) : Parser :=
  { parser with
    state := (~~~stateMask &&& parser.state) ||| stateHeader
    doc := some doc }

/-- `NW_WBXML_Parser_docHeaderParse` -/
def docHeaderParse (docTypeMemory : Bool) : Parse σ NwStatus := do
  let version ← orFault (← getParser).readUint8
  afterAdvance 1 do
    withPublicId fun publicid docTypeByteOffset =>
      if publicid = 1 then return .wmlbrowserBadContent
      else
        withCharset version fun charset =>
          withStringTable fun length data =>
            withDocType publicid charset data length docTypeByteOffset docTypeMemory
              fun docType => do
                modifyParser
                  (Parser.setDocument ⟨version, publicid, charset, length, data, docType⟩)
                return .success

/-- The dictionary for the document of the parser. -/
def Parser.selectDictionary (surroundings : Surroundings) (parser : Parser) : Parser :=
  match parser.doc with
  | none => parser
  | some doc =>
      let dictionary :=
        if 0 < doc.publicid then surroundings.getIndexByPublicId doc.publicid
        else
          match doc.docType with
          | some docType => surroundings.getIndexByDocType docType doc.charset
          | none => parser.dictionary
      if dictionary = 0 then
        { parser with
          doc := some { doc with publicid := surroundings.defaultPublicId }
          dictionary := surroundings.getIndexByPublicId surroundings.defaultPublicId }
      else { parser with dictionary }

/-- `NW_WBXML_Parser_parseBuffer` -/
def parseBuffer (surroundings : Surroundings) (buff : Bytes) (buffsize : UInt32) (n : Nat) :
    Parse σ NwStatus := do
  if (← getParser).p.isNone then
    modifyParser fun parser => { parser with p := some ⟨buff, 0⟩, left := buffsize }
    ifSuccess (docHeaderParse surroundings.docTypeMemory) do
      modifyParser (Parser.selectDictionary surroundings)
      ifSuccess (handleDocument .startDocument) (bodyParse n)
  else bodyParse n

end SymbianWeb.WbxmlParser
