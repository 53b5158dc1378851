import SymbianWeb.Feeds.FeedsTables

/-!
# Exporting and importing OPML

`OpmlWriter` writes a folder item as an `outline` element: a feed with its
address, a folder with the elements of its children. `COpmlParser` reads the
body of such a document into a packed folder. What has a child named `outline` is
a folder for it and everything else a feed; a feed is left out when its title
occurred before and the title and address are found among those of the folder,
which it keeps joined in one string.

An XML library that writes attribute values and nesting and reads them back is
`XmlLibrary`. Elements carry the text in front of their children, which only the
title of the document uses.
-/

set_option autoImplicit false

namespace SymbianWeb.Feeds

open XmlContent

/-- An element, with its attributes, its text and its child elements. -/
inductive XmlElement where
  | element (name : Text) (attributes : List (Text × Text)) (text : Text)
      (children : List XmlElement)

/-- The documents of the XML library, and the buffers that they are written to. -/
structure XmlLibrary where
  Buffer : Type
  write : XmlElement → Buffer
  read : Buffer → Option XmlElement
  read_write : ∀ e, read (write e) = some e

namespace XmlElement

def name : XmlElement → Text
  | element name _ _ _ => name

def text : XmlElement → Text
  | element _ _ text _ => text

def children : XmlElement → List XmlElement
  | element _ _ _ children => children

/-- `AttributeL`. -/
def attributeL (aElement : XmlElement) (aAttribute : Text) : Option Text :=
  match aElement with
  | element _ attributes _ _ => (attributes.find? (fun a => a.1 = aAttribute)).map (·.2)

end XmlElement

/-- `IsNamed`. -/
def isNamed (aElement : XmlElement) (aUtf8Name : Text) : Bool :=
  xmlStrcasecmp aElement.name aUtf8Name == .eq

/-- `GetFirstNamedChild`. -/
def getFirstNamedChild (aElement : XmlElement) (aUtf8Name : Text) : Option XmlElement :=
  aElement.children.find? (isNamed · aUtf8Name)

/-! ## The writer -/

/-- `KTitleValue`. -/
def kTitleValue : Text := lit "S60 Feeds Client - Feed Subscriptions"

/-- `KMaxFolderItemTitleLength`. -/
def kMaxFolderItemTitleLength : Nat := 256

/-- `FolderItemInfoL`: whether it is a folder, its title and its address. A row that is
not found leaves the result of the caller unset. -/
def folderItemInfoL (rows : List FolderListRow) (feeds : List FeedRow) (aFolderItemId : UInt16) :
    Except Failure (Bool × Text × Text) :=
  match seekFolderItem rows aFolderItemId with
  | none => .error .panic
  | some row =>
    if kMaxFolderItemTitleLength < row.title.length then .error .panic
    else if row.isFolder then .ok (true, row.title, [])
    else
      match feeds.find? (fun feed => feed.feedId = row.feedId) with
      | none => .ok (false, row.title, [])
      | some feed => .ok (false, row.title, feed.feedUrl)

/-- `WriteAttributeL`: the value goes through a zero-terminated string. -/
def writeAttributeL (aName aValue : Text) : Text × Text := (aName, cString aValue)

/-- The attributes of a folder item, in which empty ones are left out. -/
def titleAttribute (title : Text) : List (Text × Text) :=
  if title.length ≠ 0 then [writeAttributeL (lit "text") title] else []

def urlAttribute (url : Text) : List (Text × Text) :=
  if url.length ≠ 0 then [writeAttributeL (lit "xmlUrl") url] else []

/-- The loop over folder items. -/
def writeEach (write : UInt16 → Except Failure XmlElement) :
    List UInt16 → Except Failure (List XmlElement)
  | [] => .ok []
  | child :: rest => do
    let e ← write child
    let es ← writeEach write rest
    .ok (e :: es)

section

variable (rows : List FolderListRow) (feeds : List FeedRow)

/-- `WriteFolderItemL`, with the depth of recursion that the stack has room for. -/
def writeFolderItemL : Nat → UInt16 → Except Failure XmlElement
  | 0, _ => .error .stackOverflow
  | depth + 1, aFolderItemId => do
    let (isFolder, title, url) ← folderItemInfoL rows feeds aFolderItemId
    if isFolder then
      let children ← writeEach (writeFolderItemL depth) (folderItemGetChildrenL rows aFolderItemId)
      .ok (.element (lit "outline") (titleAttribute title) [] children)
    else
      .ok (.element (lit "outline")
        (titleAttribute title ++ urlAttribute url ++ [writeAttributeL (lit "type") (lit "rss")])
        [] [])

/-- The document that `ExportL` writes. -/
def exportDocumentL (depth : Nat) (aFolderItemIDs : List UInt16) : Except Failure XmlElement := do
  if aFolderItemIDs.length ≤ 0 then .error (.leave kErrCorrupt)
  else
    let outlines ← writeEach (writeFolderItemL rows feeds depth) aFolderItemIDs
    .ok (.element (lit "opml") [(lit "version", lit "1.0")] []
      [.element (lit "head") [] [] [.element (lit "title") [] kTitleValue []],
        .element (lit "body") [] [] outlines])

/-- `ExportL`. -/
def exportL (xml : XmlLibrary) (depth : Nat) (aFolderItemIDs : List UInt16) :
    Except Failure xml.Buffer := do
  let document ← exportDocumentL rows feeds depth aFolderItemIDs
  .ok (xml.write document)

end

/-! ## The parser -/

/-- What `AddFeedL` puts into a packed folder. -/
structure FeedToken where
  title : Text
  url : Text
  lastUpdate : Int
  freq : Int
  status : Int
  unreadCount : Int
  entryId : Int
  feedId : Int
  deriving DecidableEq

/-- What `CPackedFolder` has been given. -/
inductive FolderToken where
  | folderBegin (title : Text) (entryId status : Int)
  | folderEnd
  | feed (f : FeedToken)
  deriving DecidableEq

def kErrNotFound : Int := -1

/-- `FolderBeginsL` as the parser calls it. -/
def folderBegins (aTitle : Text) : FolderToken := .folderBegin aTitle 0 0

/-- `AddFeedL` as the parser calls it. -/
def addFeed (aTitle aFeedUrl : Text) : FolderToken :=
  .feed ⟨aTitle, aFeedUrl, 0, 0, kErrNotFound, 0, 0, 0⟩

/-- `KMaxURLLength`. -/
def kMaxURLLength : Nat := 256

/-- `KComma`. -/
def kComma : Text := lit " , "

/-- `KBackQuote`. -/
def kBackQuote : Text := [32, 96, 32]

/-- `Find`: what stands in front of the first occurrence, and behind it. -/
def splitFirst (sep : Text) : Text → Option (Text × Text)
  | [] => if sep = [] then some ([], []) else none
  | c :: rest =>
    if sep.isPrefixOf (c :: rest) then some ([], (c :: rest).drop sep.length)
    else (splitFirst sep rest).map fun p => (c :: p.1, p.2)

theorem splitFirst_eq {sep : Text} : ∀ {t front back : Text},
    splitFirst sep t = some (front, back) → t = front ++ sep ++ back
  | [], front, back, h => by
    rw [splitFirst] at h
    split_ifs at h with hsep
    obtain ⟨rfl, rfl⟩ := Prod.mk.inj (Option.some.inj h)
    rw [hsep]
    rfl
  | c :: rest, front, back, h => by
    rw [splitFirst] at h
    split_ifs at h with hsep
    · obtain ⟨rfl, rfl⟩ := Prod.mk.inj (Option.some.inj h)
      obtain ⟨tail, htail⟩ := List.isPrefixOf_iff_prefix.1 hsep
      rw [← htail, List.drop_left, List.nil_append]
    · obtain ⟨p, hp, heq⟩ := Option.map_eq_some_iff.1 h
      obtain ⟨rfl, rfl⟩ := Prod.mk.inj heq
      rw [splitFirst_eq hp]
      rfl

/-- The loop of `SearchURLInCurrentFolderL`. -/
def searchURLFrom (temp aFeedURL : Text) : Bool :=
  match _h : splitFirst kComma temp with
  | none => temp == aFeedURL
  | some (curURL, rest) => if curURL == aFeedURL then true else searchURLFrom rest aFeedURL
termination_by temp.length
decreasing_by
  have hcomma : kComma.length = 3 := rfl
  rw [splitFirst_eq _h, List.length_append, List.length_append]
  omega

/-- `SearchURLInCurrentFolderL`. -/
def searchURLInCurrentFolderL (aURLsInCurFolder : Option Text) (aFeedURL : Text) : Bool :=
  match aURLsInCurFolder with
  | none => false
  | some urls => searchURLFrom urls aFeedURL

/-- The text that a feed is searched by. -/
def titleAndUrl (itemName itemUrl : Text) : Text := itemName ++ kBackQuote ++ itemUrl

/-- The joined string with one more feed. -/
def appendFeedUrl (feedUrlsInCurrentFolder : Option Text) (itemName itemUrl : Text) : Text :=
  match feedUrlsInCurrentFolder with
  | none => titleAndUrl itemName itemUrl
  | some urls => urls ++ kComma ++ titleAndUrl itemName itemUrl

section

variable (p : Platform)

/-- An element is left out when its `isComment` says so. -/
def isCommented (node : XmlElement) : Bool :=
  match node.attributeL (lit "isComment") with
  | none => false
  | some isComment => p.compareF isComment (lit "true")

/-- The name of an element. -/
def itemNameOf (node : XmlElement) : Text := trim p ((node.attributeL (lit "text")).getD [])

/-- The address of an element. -/
def itemUrlOf (node : XmlElement) : Except Failure Text := do
  let itemUrl := match node.attributeL (lit "url") with
    | some url => url
    | none => (node.attributeL (lit "xmlUrl")).getD []
  let itemUrl ← cleanupUrlL p itemUrl
  .ok (trim p itemUrl)

/-- Whether a feed is added: not when its address is too long, and not when its
title occurred before and it is found in the joined string. -/
def isAdded (titleArray : List Text) (feedUrlsInCurrentFolder : Option Text)
    (itemName itemUrl : Text) : Bool :=
  itemUrl.length ≤ kMaxURLLength &&
    !(titleArray.contains itemName &&
      searchURLInCurrentFolderL feedUrlsInCurrentFolder (titleAndUrl itemName itemUrl))

mutual

/-- `ProcessFolderL`. -/
def processFolderL : XmlElement → List FolderToken → Except Failure (List FolderToken)
  | .element _ _ _ children, aPackedFolder => processNodes [] none children aPackedFolder

/-- The loop of `ProcessFolderL`: the titles of the feeds so far, these feeds
joined, and the nodes that are left. -/
def processNodes (titleArray : List Text) (feedUrlsInCurrentFolder : Option Text) :
    List XmlElement → List FolderToken → Except Failure (List FolderToken)
  | [], aPackedFolder => .ok aPackedFolder
  | node :: rest, aPackedFolder =>
    if isNamed node (lit "outline") = false then
      processNodes titleArray feedUrlsInCurrentFolder rest aPackedFolder
    else if isCommented p node then
      processNodes titleArray feedUrlsInCurrentFolder rest aPackedFolder
    else if (getFirstNamedChild node (lit "outline")).isSome then do
      let aPackedFolder ← processFolderL node (aPackedFolder ++ [folderBegins (itemNameOf p node)])
      processNodes titleArray feedUrlsInCurrentFolder rest (aPackedFolder ++ [.folderEnd])
    else do
      let itemUrl ← itemUrlOf p node
      let itemName := itemNameOf p node
      let aPackedFolder :=
        if isAdded titleArray feedUrlsInCurrentFolder itemName itemUrl then
          aPackedFolder ++ [addFeed itemName itemUrl]
        else aPackedFolder
      processNodes (titleArray ++ [itemName])
        (some (appendFeedUrl feedUrlsInCurrentFolder itemName itemUrl)) rest aPackedFolder

end

/-- `KMaxFileName`. -/
def kMaxFileName : Nat := 256

/-- `IsSupported`. -/
def isSupported (document : XmlElement) : Bool :=
  isNamed document (lit "opml") || isNamed document (lit "oml") ||
    isNamed document (lit "outlineDocument")

/-- The name of the folder that an import goes into. -/
def opmlRootFolderName (rootNode : XmlElement) (aImportRootFolder : Text) : Except Failure Text :=
  if aImportRootFolder.length ≤ 0 then .ok []
  else do
    let title ← match getFirstNamedChild rootNode (lit "head") with
      | none => .ok none
      | some headNode =>
        match getFirstNamedChild headNode (lit "title") with
        | none => .ok none
        | some titleNode => extractTextL p titleNode.text
    let name := title.getD aImportRootFolder
    if kMaxFileName < name.length then .error .panic else .ok name

/-- `ParseL`. -/
def parseL (xml : XmlLibrary) (aBuffer : xml.Buffer) (aImportRootFolder : Text) :
    Except Failure (List FolderToken) :=
  match xml.read aBuffer with
  | none => .error (.leave kErrCorrupt)
  | some document =>
    if isSupported document = false then .error (.leave kErrNotSupported)
    else
      match getFirstNamedChild document (lit "body") with
      | none => .error (.leave kErrCorrupt)
      | some bodyNode => do
        let name ← opmlRootFolderName p document aImportRootFolder
        let begins := folderBegins (lit "Root Folder") ::
          if 0 < name.length then [folderBegins name] else []
        let packedFolder ← processFolderL p bodyNode begins
        .ok (packedFolder ++ (if 0 < name.length then [.folderEnd] else []) ++ [.folderEnd])

end

end SymbianWeb.Feeds
