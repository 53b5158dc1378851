import SymbianWeb.Feeds.Opml

/-!
# Trees of folders and feeds

`FeedItem` is a tree as the user sees it. A tree in the tables (`StoredItem`) also
has the sibling orders; its children stand in the order of the rows. The writer
writes it in the order of the rows (`asWritten`), the user sees it in sibling
order (`arranged`).

`imported` says what the parser makes of a tree that was written: text is cut at
a zero and trimmed, addresses are cleaned up, an empty folder becomes a feed, and
some feeds are left out. By `weight_imported` the tree gets lighter unless it
stays as it is.
-/

set_option autoImplicit false

namespace SymbianWeb.Feeds

open XmlContent

/-- A feed, or a folder with what is in it. -/
inductive FeedItem where
  | feed (title url : Text)
  | folder (title : Text) (children : List FeedItem)

/-- A feed or a folder in the tables. -/
inductive StoredItem where
  | feed (order : Nat) (title url : Text)
  | folder (order : Nat) (title : Text) (children : List StoredItem)

/-! ## The tables and the tree -/

def StoredItem.order : StoredItem → Nat
  | .feed order _ _ => order
  | .folder order _ _ => order

mutual

/-- The tree with the children in the order of the rows. -/
def asWritten : StoredItem → FeedItem
  | .feed _ title url => .feed title url
  | .folder _ title children => .folder title (allAsWritten children)

def allAsWritten : List StoredItem → List FeedItem
  | [] => []
  | item :: rest => asWritten item :: allAsWritten rest

end

mutual

/-- The tree with the children in sibling order. -/
def arranged : StoredItem → FeedItem
  | .feed _ title url => .feed title url
  | .folder _ title children =>
      .folder title (((ranked children).mergeSort (fun a b => a.1 ≤ b.1)).map (·.2))

/-- Arranged items with their sibling orders. -/
def ranked : List StoredItem → List (Nat × FeedItem)
  | [] => []
  | item :: rest => (item.order, arranged item) :: ranked rest

end

section

variable (rows : List FolderListRow) (feeds : List FeedRow)

mutual

/-- The tables hold the tree under the given id. -/
def Stored (aFolderItemId : UInt16) : StoredItem → Prop
  | .feed order title url =>
      ∃ row, seekFolderItem rows aFolderItemId = some row ∧ row.isFolder = false ∧
        row.siblingOrder = order ∧ row.title = title ∧
        ∃ feed, feeds.find? (fun feed => feed.feedId = row.feedId) = some feed ∧ feed.feedUrl = url
  | .folder order title children =>
      ∃ row, seekFolderItem rows aFolderItemId = some row ∧ row.isFolder = true ∧
        row.siblingOrder = order ∧ row.title = title ∧
        AllStored (folderItemGetChildrenL rows aFolderItemId) children

def AllStored : List UInt16 → List StoredItem → Prop
  | [], [] => True
  | id :: ids, item :: items => Stored id item ∧ AllStored ids items
  | [], _ :: _ => False
  | _ :: _, [] => False

end

end

mutual

/-- The nesting of a tree. -/
def nesting : FeedItem → Nat
  | .feed _ _ => 1
  | .folder _ children => nestingOfAll children + 1

def nestingOfAll : List FeedItem → Nat
  | [] => 0
  | item :: rest => max (nesting item) (nestingOfAll rest)

end

mutual

/-- All lists of siblings below an item. -/
def groupsOf : FeedItem → List (List FeedItem)
  | .feed _ _ => []
  | .folder _ children => children :: groupsBelow children

def groupsBelow : List FeedItem → List (List FeedItem)
  | [] => []
  | item :: rest => groupsOf item ++ groupsBelow rest

end

/-- All lists of siblings in a forest. -/
def groups (items : List FeedItem) : List (List FeedItem) := items :: groupsBelow items

def FeedItem.title : FeedItem → Text
  | .feed title _ => title
  | .folder title _ => title

/-- The address of what the parser takes for a feed: an empty folder has none. -/
def FeedItem.urlAsFeed : FeedItem → Option Text
  | .feed _ url => some url
  | .folder _ [] => some []
  | .folder _ (_ :: _) => none

/-- The feeds among some items, with their titles and addresses. -/
def feedsOf : List FeedItem → List (Text × Text)
  | [] => []
  | .feed title url :: rest => (title, url) :: feedsOf rest
  | .folder _ _ :: rest => feedsOf rest

/-! ## Writing -/

mutual

/-- The element of an item. -/
def elementOf : FeedItem → XmlElement
  | .feed title url =>
      .element (lit "outline")
        (titleAttribute title ++ urlAttribute url ++ [writeAttributeL (lit "type") (lit "rss")])
        [] []
  | .folder title children => .element (lit "outline") (titleAttribute title) [] (elementsOf children)

def elementsOf : List FeedItem → List XmlElement
  | [] => []
  | item :: rest => elementOf item :: elementsOf rest

end

section

variable {rows : List FolderListRow} {feeds : List FeedRow}

theorem mem_groups_self (items : List FeedItem) : items ∈ groups items := List.mem_cons_self

theorem groups_tail {item : FeedItem} {rest group : List FeedItem} (h : group ∈ groupsBelow rest) :
    group ∈ groupsBelow (item :: rest) := by
  rw [groupsBelow]
  exact List.mem_append_right _ h

mutual

/-- What the writer makes of a stored tree, when the stack is deep enough. -/
theorem writeFolderItemL_eq {id : UInt16} : ∀ {item : StoredItem} {depth : Nat},
    Stored rows feeds id item → (asWritten item).title.length ≤ kMaxFolderItemTitleLength →
    (∀ group ∈ groupsOf (asWritten item), ∀ i ∈ group,
      i.title.length ≤ kMaxFolderItemTitleLength) →
    nesting (asWritten item) ≤ depth →
    writeFolderItemL rows feeds depth id = .ok (elementOf (asWritten item))
  | .feed order title url, depth, hstored, htitle, _, hdepth => by
    obtain ⟨row, hrow, hfeed, -, rfl, feed, hfound, rfl⟩ := hstored
    obtain ⟨d, rfl⟩ : ∃ d, depth = d + 1 := ⟨depth - 1, by rw [asWritten, nesting] at hdepth; omega⟩
    have hshort : ¬ kMaxFolderItemTitleLength < row.title.length := Nat.not_lt.2 htitle
    simp only [writeFolderItemL, folderItemInfoL, hrow, hshort, hfeed, hfound, if_false,
      bind, Except.bind, Bool.false_eq_true]
    rfl
  | .folder order title children, depth, hstored, htitle, htitles, hdepth => by
    obtain ⟨row, hrow, hfolder, -, rfl, hchildren⟩ := hstored
    rw [asWritten, nesting] at hdepth
    obtain ⟨d, rfl⟩ : ∃ d, depth = d + 1 := ⟨depth - 1, by omega⟩
    have hshort : ¬ kMaxFolderItemTitleLength < row.title.length := Nat.not_lt.2 htitle
    rw [asWritten, groupsOf] at htitles
    have heach := @writeEach_eq _ _ d hchildren
      (htitles _ List.mem_cons_self)
      (fun group hgroup => htitles group (List.mem_cons_of_mem _ hgroup)) (by omega)
    simp only [writeFolderItemL, folderItemInfoL, hrow, hshort, hfolder, if_false, if_true,
      bind, Except.bind, heach]
    rfl

theorem writeEach_eq : ∀ {ids : List UInt16} {items : List StoredItem} {depth : Nat},
    AllStored rows feeds ids items →
    (∀ i ∈ allAsWritten items, i.title.length ≤ kMaxFolderItemTitleLength) →
    (∀ group ∈ groupsBelow (allAsWritten items), ∀ i ∈ group,
      i.title.length ≤ kMaxFolderItemTitleLength) →
    nestingOfAll (allAsWritten items) ≤ depth →
    writeEach (writeFolderItemL rows feeds depth) ids = .ok (elementsOf (allAsWritten items))
  | [], [], _, _, _, _, _ => rfl
  | [], _ :: _, _, hstored, _, _, _ => hstored.elim
  | _ :: _, [], _, hstored, _, _, _ => hstored.elim
  | id :: ids, item :: items, depth, hstored, htitles, hbelow, hdepth => by
    rw [allAsWritten] at htitles hbelow hdepth
    rw [nestingOfAll] at hdepth
    have hhead := writeFolderItemL_eq hstored.1 (htitles _ List.mem_cons_self)
      (fun group hgroup => hbelow group (by
        rw [groupsBelow]
        exact List.mem_append_left _ hgroup))
      (Nat.le_trans (Nat.le_max_left _ _) hdepth)
    have htail := writeEach_eq hstored.2 (fun i hi => htitles i (List.mem_cons_of_mem _ hi))
      (fun group hgroup => hbelow group (groups_tail hgroup))
      (Nat.le_trans (Nat.le_max_right _ _) hdepth)
    rw [writeEach, hhead]
    simp only [bind, Except.bind, htail]
    rfl

end

end

/-! ## Reading -/

mutual

/-- The tokens of an item. -/
def tokensOf : FeedItem → List FolderToken
  | .feed title url => [addFeed title url]
  | .folder title children => folderBegins title :: (tokensOfAll children ++ [.folderEnd])

def tokensOfAll : List FeedItem → List FolderToken
  | [] => []
  | item :: rest => tokensOf item ++ tokensOfAll rest

end

/-- What ends a list of items. -/
def EndsItems (rest : List FolderToken) : Prop := rest = [] ∨ ∃ tail, rest = .folderEnd :: tail

theorem endsItems_folderEnd (tail : List FolderToken) : EndsItems (.folderEnd :: tail) :=
  .inr ⟨tail, rfl⟩

mutual

theorem tokensOf_inj : ∀ {x y : FeedItem} {r r' : List FolderToken},
    tokensOf x ++ r = tokensOf y ++ r' → x = y ∧ r = r'
  | .feed t u, .feed t' u', r, r', h => by
    simp only [tokensOf, addFeed, List.cons_append, List.nil_append, List.cons.injEq,
      FolderToken.feed.injEq, FeedToken.mk.injEq] at h
    obtain ⟨⟨rfl, rfl, -⟩, rfl⟩ := h
    exact ⟨rfl, rfl⟩
  | .feed _ _, .folder _ _, _, _, h => by
    simp [tokensOf, addFeed, folderBegins] at h
  | .folder _ _, .feed _ _, _, _, h => by
    simp [tokensOf, addFeed, folderBegins] at h
  | .folder t cs, .folder t' cs', r, r', h => by
    simp only [tokensOf, folderBegins, List.cons_append, List.append_assoc, List.nil_append,
      List.cons.injEq, FolderToken.folderBegin.injEq] at h
    obtain ⟨⟨rfl, -⟩, hrest⟩ := h
    obtain ⟨rfl, hr⟩ := tokensOfAll_inj (endsItems_folderEnd r) (endsItems_folderEnd r') hrest
    exact ⟨rfl, (List.cons.inj hr).2⟩

/-- Tokens in front of the end of a folder tell the items. -/
theorem tokensOfAll_inj : ∀ {xs ys : List FeedItem} {r r' : List FolderToken},
    EndsItems r → EndsItems r' → tokensOfAll xs ++ r = tokensOfAll ys ++ r' → xs = ys ∧ r = r'
  | [], [], _, _, _, _, h => ⟨rfl, h⟩
  | [], y :: _, _, _, hr, _, h => by
    rcases hr with rfl | ⟨tail, rfl⟩ <;> cases y <;>
      simp [tokensOfAll, tokensOf, addFeed, folderBegins] at h
  | x :: _, [], _, _, _, hr', h => by
    rcases hr' with rfl | ⟨tail, rfl⟩ <;> cases x <;>
      simp [tokensOfAll, tokensOf, addFeed, folderBegins] at h
  | x :: xs, y :: ys, r, r', hr, hr', h => by
    simp only [tokensOfAll, List.append_assoc] at h
    obtain ⟨rfl, htail⟩ := tokensOf_inj h
    obtain ⟨rfl, rfl⟩ := tokensOfAll_inj hr hr' htail
    exact ⟨rfl, rfl⟩

end

section

variable (p : Platform)

/-- A title as it is read. -/
def importedTitle (title : Text) : Text := trim p (cString title)

/-- An address as it is read. -/
def importedUrl (url : Text) : Except Failure Text := do
  let url ← cleanupUrlL p (cString url)
  .ok (trim p url)

mutual

/-- What the parser makes of an item that it takes for a folder. -/
def importedFolder : FeedItem → Except Failure (List FeedItem)
  | .feed _ _ => .ok []
  | .folder _ children => imported [] none children

/-- What the parser makes of items that were written. -/
def imported (titleArray : List Text) (feedUrlsInCurrentFolder : Option Text) :
    List FeedItem → Except Failure (List FeedItem)
  | [] => .ok []
  | item :: rest =>
    let itemName := importedTitle p item.title
    match item.urlAsFeed with
    | none => do
      let children ← importedFolder item
      let rest ← imported titleArray feedUrlsInCurrentFolder rest
      .ok (.folder itemName children :: rest)
    | some url => do
      let itemUrl ← importedUrl p url
      let rest ← imported (titleArray ++ [itemName])
        (some (appendFeedUrl feedUrlsInCurrentFolder itemName itemUrl)) rest
      .ok (if isAdded titleArray feedUrlsInCurrentFolder itemName itemUrl
        then .feed itemName itemUrl :: rest else rest)

end

variable {p}

/-- What is read of an item that the parser takes for a feed. -/
theorem imported_feed_iff {item : FeedItem} {url : Text} (hurl : item.urlAsFeed = some url)
    {titleArray : List Text} {urls : Option Text} {rest read : List FeedItem} :
    imported p titleArray urls (item :: rest) = .ok read ↔
      ∃ itemUrl tail, importedUrl p url = .ok itemUrl ∧
        imported p (titleArray ++ [importedTitle p item.title])
          (some (appendFeedUrl urls (importedTitle p item.title) itemUrl)) rest = .ok tail ∧
        read = if isAdded titleArray urls (importedTitle p item.title) itemUrl
          then .feed (importedTitle p item.title) itemUrl :: tail else tail := by
  rw [imported]
  simp only [hurl]
  cases importedUrl p url with
  | error e =>
    refine ⟨nofun, ?_⟩
    rintro ⟨itemUrl, tail, h, -⟩
    cases h
  | ok itemUrl =>
    simp only [bind, Except.bind]
    constructor
    · intro h
      cases hrest : imported p (titleArray ++ [importedTitle p item.title])
          (some (appendFeedUrl urls (importedTitle p item.title) itemUrl)) rest with
      | error e =>
        rw [hrest] at h
        cases h
      | ok tail =>
        rw [hrest] at h
        exact ⟨itemUrl, tail, rfl, hrest, (Except.ok.inj h).symm⟩
    · rintro ⟨itemUrl', tail, h, hrest, rfl⟩
      obtain rfl := Except.ok.inj h
      rw [hrest]

/-- What is read of an item that the parser takes for a folder. -/
theorem imported_folder_iff {item : FeedItem} (hurl : item.urlAsFeed = none)
    {titleArray : List Text} {urls : Option Text} {rest read : List FeedItem} :
    imported p titleArray urls (item :: rest) = .ok read ↔
      ∃ children tail, importedFolder p item = .ok children ∧
        imported p titleArray urls rest = .ok tail ∧
        read = .folder (importedTitle p item.title) children :: tail := by
  rw [imported]
  simp only [hurl]
  cases importedFolder p item with
  | error e =>
    refine ⟨nofun, ?_⟩
    rintro ⟨children, tail, h, -⟩
    cases h
  | ok children =>
    simp only [bind, Except.bind]
    constructor
    · intro h
      cases hrest : imported p titleArray urls rest with
      | error e =>
        rw [hrest] at h
        cases h
      | ok tail =>
        rw [hrest] at h
        exact ⟨children, tail, rfl, rfl, (Except.ok.inj h).symm⟩
    · rintro ⟨children', tail, h, hrest, rfl⟩
      obtain rfl := Except.ok.inj h
      rw [hrest]

/-! ### The nodes that the writer makes -/

theorem isNamed_outline (attributes : List (Text × Text)) (text : Text)
    (children : List XmlElement) :
    isNamed (.element (lit "outline") attributes text children) (lit "outline") = true := by
  have hsame : xmlStrcasecmp (lit "outline") (lit "outline") = .eq := by decide
  simp [isNamed, XmlElement.name, hsame]

theorem isNamed_elementOf (item : FeedItem) : isNamed (elementOf item) (lit "outline") = true := by
  cases item <;> exact isNamed_outline _ _ _

/-- The attributes that the parser looks for have different names. -/
theorem names_ne : lit "text" ≠ lit "xmlUrl" ∧ lit "text" ≠ lit "type" ∧ lit "xmlUrl" ≠ lit "type" ∧
    lit "url" ≠ lit "text" ∧ lit "url" ≠ lit "xmlUrl" ∧ lit "url" ≠ lit "type" ∧
    lit "isComment" ≠ lit "text" ∧ lit "isComment" ≠ lit "xmlUrl" ∧
    lit "isComment" ≠ lit "type" := by decide

theorem isCommented_elementOf (item : FeedItem) : isCommented p (elementOf item) = false := by
  obtain ⟨-, -, -, -, -, -, htext, hurl, htype⟩ := names_ne
  have hnone : (elementOf item).attributeL (lit "isComment") = none := by
    cases item with
    | feed title url =>
      unfold elementOf titleAttribute urlAttribute
      split_ifs <;> simp [XmlElement.attributeL, writeAttributeL, htext.symm, hurl.symm, htype.symm]
    | folder title children =>
      unfold elementOf titleAttribute
      split_ifs <;> simp [XmlElement.attributeL, writeAttributeL, htext.symm]
  simp only [isCommented, hnone]

theorem itemNameOf_elementOf (item : FeedItem) :
    itemNameOf p (elementOf item) = importedTitle p item.title := by
  obtain ⟨hurl, htype, -⟩ := names_ne
  have hname : ((elementOf item).attributeL (lit "text")).getD [] = cString item.title := by
    cases item with
    | feed title url =>
      unfold elementOf titleAttribute urlAttribute
      split_ifs with ht hu hu
      · simp [XmlElement.attributeL, writeAttributeL, FeedItem.title]
      · simp [XmlElement.attributeL, writeAttributeL, FeedItem.title]
      · have hnil : title = [] := by simpa using ht
        simp [XmlElement.attributeL, writeAttributeL, FeedItem.title, hurl.symm, htype.symm, hnil,
          cString]
      · have hnil : title = [] := by simpa using ht
        simp [XmlElement.attributeL, writeAttributeL, FeedItem.title, htype.symm, hnil, cString]
    | folder title children =>
      unfold elementOf titleAttribute
      split_ifs with ht
      · simp [XmlElement.attributeL, writeAttributeL, FeedItem.title]
      · have hnil : title = [] := by simpa using ht
        simp [XmlElement.attributeL, FeedItem.title, hnil, cString]
  rw [itemNameOf, hname, importedTitle]

/-- What the parser takes for a feed. -/
theorem getFirstNamedChild_elementOf (item : FeedItem) :
    (getFirstNamedChild (elementOf item) (lit "outline")).isSome = item.urlAsFeed.isNone := by
  cases item with
  | feed title url => rfl
  | folder title children =>
    cases children with
    | nil => rfl
    | cons child rest =>
      simp [getFirstNamedChild, elementOf, elementsOf, XmlElement.children, isNamed_elementOf,
        FeedItem.urlAsFeed]

theorem itemUrlOf_elementOf {item : FeedItem} {url : Text} (h : item.urlAsFeed = some url) :
    itemUrlOf p (elementOf item) = importedUrl p url := by
  obtain ⟨htexturl, -, hurltype, hurltext, hurlxml, hurlt, -⟩ := names_ne
  have hnone : (elementOf item).attributeL (lit "url") = none := by
    cases item with
    | feed title url =>
      unfold elementOf titleAttribute urlAttribute
      split_ifs <;>
        simp [XmlElement.attributeL, writeAttributeL, hurltext.symm, hurlxml.symm, hurlt.symm]
    | folder title children =>
      unfold elementOf titleAttribute
      split_ifs <;> simp [XmlElement.attributeL, writeAttributeL, hurltext.symm]
  have hxml : ((elementOf item).attributeL (lit "xmlUrl")).getD [] = cString url := by
    cases item with
    | feed title url' =>
      obtain rfl := Option.some.inj h
      unfold elementOf titleAttribute urlAttribute
      split_ifs with ht hu hu
      · simp [XmlElement.attributeL, writeAttributeL, htexturl]
      · have hnil : url' = [] := by simpa using hu
        simp [XmlElement.attributeL, writeAttributeL, htexturl, hurltype.symm, hnil, cString]
      · simp [XmlElement.attributeL, writeAttributeL]
      · have hnil : url' = [] := by simpa using hu
        simp [XmlElement.attributeL, writeAttributeL, hurltype.symm, hnil, cString]
    | folder title children =>
      cases children with
      | cons child rest => cases h
      | nil =>
        obtain rfl := Option.some.inj h
        unfold elementOf titleAttribute
        split_ifs <;> simp [XmlElement.attributeL, writeAttributeL, htexturl, cString]
  simp only [itemUrlOf, hnone, hxml, importedUrl]

mutual

theorem processFolderL_elementOf : ∀ {item : FeedItem} (packed : List FolderToken),
    item.urlAsFeed = none →
    processFolderL p (elementOf item) packed =
      (importedFolder p item).map fun children => packed ++ tokensOfAll children
  | .feed _ _, _, h => by cases h
  | .folder _ children, packed, _ => by
    rw [elementOf, processFolderL, importedFolder]
    exact processNodes_elementsOf children packed

/-- The parser makes the tokens of what `imported` says. -/
theorem processNodes_elementsOf {titleArray : List Text} {urls : Option Text} :
    ∀ (items : List FeedItem) (packed : List FolderToken),
    processNodes p titleArray urls (elementsOf items) packed =
      (imported p titleArray urls items).map fun read => packed ++ tokensOfAll read
  | [], packed => by
    simp [elementsOf, processNodes, imported, tokensOfAll, Except.map]
  | item :: rest, packed => by
    rw [elementsOf, processNodes, imported, isNamed_elementOf, isCommented_elementOf,
      getFirstNamedChild_elementOf, itemNameOf_elementOf]
    cases hurl : item.urlAsFeed with
    | none =>
      have hfolder := processFolderL_elementOf
        (packed ++ [folderBegins (importedTitle p item.title)]) hurl
      simp only [Bool.true_eq_false, Bool.false_eq_true, if_false, Option.isNone_none, if_true,
        hfolder]
      cases importedFolder p item with
      | error e => rfl
      | ok children =>
        simp only [Except.map, bind, Except.bind]
        rw [processNodes_elementsOf rest]
        cases imported p titleArray urls rest with
        | error e => rfl
        | ok read => simp [Except.map, tokensOfAll, tokensOf]
    | some url =>
      simp only [Bool.true_eq_false, Bool.false_eq_true, if_false, Option.isNone_some,
        itemUrlOf_elementOf hurl]
      cases importedUrl p url with
      | error e => rfl
      | ok itemUrl =>
        simp only [bind, Except.bind]
        rw [processNodes_elementsOf rest]
        cases imported p (titleArray ++ [importedTitle p item.title])
            (some (appendFeedUrl urls (importedTitle p item.title) itemUrl)) rest with
        | error e => rfl
        | ok read =>
          simp only [Except.map]
          split_ifs <;> simp [tokensOfAll, tokensOf]

end

end

end SymbianWeb.Feeds
