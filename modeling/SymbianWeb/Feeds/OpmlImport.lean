import SymbianWeb.Feeds.OpmlExport

/-!
# What an import of OPML keeps

An import is meant to give one feed for each outline without outlines in it, except for those that
repeat an earlier feed of the same element (`importedNodes`). Feeds are looked for in one string, in
which a title or an address with the separators can hide a feed or make one up. Where that does not
happen (`Harmless`) the packed folder is the one that is meant; and the title of the document is put
into a buffer of 256 characters without a look at its length (`importsAll_iff`).
-/

set_option autoImplicit false

namespace SymbianWeb.Feeds

open XmlContent

/-! ## What is meant to be imported -/

/-- What the parser takes an element for. -/
inductive NodeKind where
  | skipped
  | folder
  | feed

section

variable (p : Platform)

/-- An outline is a comment, or a folder if it has an outline in it, or a feed. -/
def kindOf (node : XmlElement) : NodeKind :=
  if isNamed node (lit "outline") = false then .skipped
  else if isCommented p node then .skipped
  else if (getFirstNamedChild node (lit "outline")).isSome then .folder
  else .feed

mutual

/-- The tokens for the outlines of an element. -/
def importedBelow : XmlElement → Except Failure (List FolderToken)
  | .element _ _ _ children => importedNodes [] children

/-- The tokens for some outlines behind the feeds `front`. A feed with a long address is left out,
and one that has been there. -/
def importedNodes (front : List (Text × Text)) :
    List XmlElement → Except Failure (List FolderToken)
  | [] => .ok []
  | node :: rest =>
    match kindOf p node with
    | .skipped => importedNodes front rest
    | .folder => do
      let inner ← importedBelow node
      let tokens ← importedNodes front rest
      .ok (folderBegins (itemNameOf p node) :: inner ++ .folderEnd :: tokens)
    | .feed => do
      let itemUrl ← itemUrlOf p node
      let tokens ← importedNodes (front ++ [(itemNameOf p node, itemUrl)]) rest
      .ok (if itemUrl.length ≤ kMaxURLLength ∧ (itemNameOf p node, itemUrl) ∉ front then
          addFeed (itemNameOf p node) itemUrl :: tokens
        else tokens)

end

/-- The name of the folder around everything: that of the document, or else that of the import. It
is empty if there is to be no such folder. -/
def rootName (document : XmlElement) (aImportRootFolder : Text) : Except Failure Text :=
  if aImportRootFolder.length ≤ 0 then .ok []
  else do
    let title ← match getFirstNamedChild document (lit "head") with
      | none => .ok none
      | some headNode =>
        match getFirstNamedChild headNode (lit "title") with
        | none => .ok none
        | some titleNode => extractTextL p titleNode.text
    .ok (title.getD aImportRootFolder)

/-- The folder that is meant for a document. -/
def importedDocument (document bodyNode : XmlElement) (aImportRootFolder : Text) :
    Except Failure (List FolderToken) := do
  let name ← rootName p document aImportRootFolder
  let tokens ← importedBelow p bodyNode
  .ok (folderBegins (lit "Root Folder") :: (if 0 < name.length then [folderBegins name] else []) ++
    tokens ++ (if 0 < name.length then [.folderEnd] else []) ++ [.folderEnd])

/-! ## Conditions at the feeds of a tree -/

mutual

def AtFeedsBelow (P : List (Text × Text) → Text → Text → Prop) : XmlElement → Prop
  | .element _ _ _ children => AtFeeds P [] children

/-- A condition at each feed whose address can be cleaned, on the feeds in front of it, its title
and its address. -/
def AtFeeds (P : List (Text × Text) → Text → Text → Prop) (front : List (Text × Text)) :
    List XmlElement → Prop
  | [] => True
  | node :: rest =>
    match kindOf p node with
    | .skipped => AtFeeds P front rest
    | .folder => AtFeedsBelow P node ∧ AtFeeds P front rest
    | .feed => ∀ itemUrl, itemUrlOf p node = .ok itemUrl →
        P front (itemNameOf p node) itemUrl ∧
          AtFeeds P (front ++ [(itemNameOf p node, itemUrl)]) rest

end

/-- A feed is added in its turn if its address is not too long and it has not been there. -/
def AddedInTurn (front : List (Text × Text)) (title url : Text) : Prop :=
  isAdded (front.map (·.1)) (joinFeeds front) title url = true ↔
    url.length ≤ kMaxURLLength ∧ (title, url) ∉ front

/-- The separators do no harm at a feed: if its title has been there, then the title and the address
are one of the pieces of the joined string exactly if the feed has been there. -/
def HarmlessAt (front : List (Text × Text)) (title url : Text) : Prop :=
  url.length ≤ kMaxURLLength → (ToldApart front title url ↔ (title, url) ∉ front)

/-- The separators do no harm at any feed. -/
def Harmless (bodyNode : XmlElement) : Prop := AtFeedsBelow p HarmlessAt bodyNode

theorem addedInTurn_iff (front : List (Text × Text)) (title url : Text) :
    AddedInTurn front title url ↔ HarmlessAt front title url := by
  rw [AddedInTurn, HarmlessAt]
  by_cases hlength : url.length ≤ kMaxURLLength
  · rw [isAdded_iff hlength]
    simp [hlength]
  · have hnot : isAdded (front.map (·.1)) (joinFeeds front) title url = false := by
      simp [isAdded, hlength]
    simp [hnot, hlength]

mutual

/-- All addresses below an element can be cleaned. -/
def CleanedBelow : XmlElement → Prop
  | .element _ _ _ children => Cleaned children

def Cleaned : List XmlElement → Prop
  | [] => True
  | node :: rest =>
    match kindOf p node with
    | .skipped => Cleaned rest
    | .folder => CleanedBelow node ∧ Cleaned rest
    | .feed => (∃ itemUrl, itemUrlOf p node = .ok itemUrl) ∧ Cleaned rest

end

/-! ## The loop -/

theorem processNodes_skipped {node : XmlElement} (h : kindOf p node = .skipped)
    (titleArray : List Text) (urls : Option Text) (rest : List XmlElement)
    (packed : List FolderToken) :
    processNodes p titleArray urls (node :: rest) packed =
      processNodes p titleArray urls rest packed := by
  rw [processNodes]
  unfold kindOf at h
  split_ifs at h ⊢ with hname hcomment
  · rfl
  · rfl

theorem processNodes_folder {node : XmlElement} (h : kindOf p node = .folder)
    (titleArray : List Text) (urls : Option Text) (rest : List XmlElement)
    (packed : List FolderToken) :
    processNodes p titleArray urls (node :: rest) packed = (do
      let packed ← processFolderL p node (packed ++ [folderBegins (itemNameOf p node)])
      processNodes p titleArray urls rest (packed ++ [.folderEnd])) := by
  rw [processNodes]
  unfold kindOf at h
  split_ifs at h ⊢ with hname hcomment hchild
  rfl

theorem processNodes_feed {node : XmlElement} (h : kindOf p node = .feed)
    (titleArray : List Text) (urls : Option Text) (rest : List XmlElement)
    (packed : List FolderToken) :
    processNodes p titleArray urls (node :: rest) packed = (do
      let itemUrl ← itemUrlOf p node
      processNodes p (titleArray ++ [itemNameOf p node])
        (some (appendFeedUrl urls (itemNameOf p node) itemUrl)) rest
        (if isAdded titleArray urls (itemNameOf p node) itemUrl then
          packed ++ [addFeed (itemNameOf p node) itemUrl]
        else packed)) := by
  rw [processNodes]
  unfold kindOf at h
  split_ifs at h ⊢ with hname hcomment hchild
  rfl

mutual

/-- What the recursion puts behind the tokens that are there: nothing if an address cannot be
cleaned, and what is meant if each feed is added in its turn. -/
theorem processFolderL_cases : ∀ (node : XmlElement) (packed : List FolderToken),
    (∀ e, importedBelow p node = .error e → processFolderL p node packed = .error e) ∧
      ∀ tokens, importedBelow p node = .ok tokens → ∃ tokens',
        processFolderL p node packed = .ok (packed ++ tokens') ∧
          (AtFeedsBelow p AddedInTurn node → tokens' = tokens)
  | .element _ _ _ children, packed => by
    rw [importedBelow, processFolderL, AtFeedsBelow]
    exact processNodes_cases children [] packed

theorem processNodes_cases : ∀ (nodes : List XmlElement) (front : List (Text × Text))
    (packed : List FolderToken),
    (∀ e, importedNodes p front nodes = .error e →
      processNodes p (front.map (·.1)) (joinFeeds front) nodes packed = .error e) ∧
      ∀ tokens, importedNodes p front nodes = .ok tokens → ∃ tokens',
        processNodes p (front.map (·.1)) (joinFeeds front) nodes packed =
            .ok (packed ++ tokens') ∧
          (AtFeeds p AddedInTurn front nodes → tokens' = tokens)
  | [], front, packed => by
    rw [importedNodes, processNodes]
    refine ⟨fun e h => (nomatch h),
      fun tokens h => ⟨[], by rw [List.append_nil], fun _ => ?_⟩⟩
    exact Except.ok.inj h
  | node :: rest, front, packed => by
    rw [importedNodes, AtFeeds]
    cases hkind : kindOf p node with
    | skipped =>
      rw [processNodes_skipped p hkind]
      exact processNodes_cases rest front packed
    | folder =>
      obtain ⟨hfail, hok⟩ :=
        processFolderL_cases node (packed ++ [folderBegins (itemNameOf p node)])
      rw [processNodes_folder p hkind]
      cases hinner : importedBelow p node with
      | error e =>
        rw [hfail e hinner]
        refine ⟨fun e' h => ?_, fun tokens h => (nomatch h)⟩
        cases h
        rfl
      | ok inner =>
        obtain ⟨inner', hrun, hinner'⟩ := hok inner hinner
        obtain ⟨hfailRest, hokRest⟩ := processNodes_cases rest front
          (packed ++ [folderBegins (itemNameOf p node)] ++ inner' ++ [.folderEnd])
        simp only [hrun, bind, Except.bind]
        cases hrest : importedNodes p front rest with
        | error e =>
          refine ⟨fun e' h => ?_, fun tokens h => (nomatch h)⟩
          cases h
          exact hfailRest e hrest
        | ok tokens =>
          obtain ⟨tokens', hrun', htokens⟩ := hokRest tokens hrest
          refine ⟨fun e h => (nomatch h), fun all h => ?_⟩
          refine ⟨folderBegins (itemNameOf p node) :: inner' ++ .folderEnd :: tokens', ?_, ?_⟩
          · rw [hrun']
            simp
          · rintro ⟨hbelow, hbehind⟩
            rw [← Except.ok.inj h, hinner' hbelow, htokens hbehind]
    | feed =>
      rw [processNodes_feed p hkind]
      cases hurl : itemUrlOf p node with
      | error e =>
        refine ⟨fun e' h => ?_, fun tokens h => (nomatch h)⟩
        cases h
        rfl
      | ok itemUrl =>
        have hfront : (front ++ [(itemNameOf p node, itemUrl)]).map (·.1) =
            front.map (·.1) ++ [itemNameOf p node] := by
          rw [List.map_append]
          rfl
        obtain ⟨hfailRest, hokRest⟩ := processNodes_cases rest
          (front ++ [(itemNameOf p node, itemUrl)])
          (if isAdded (front.map (·.1)) (joinFeeds front) (itemNameOf p node) itemUrl then
            packed ++ [addFeed (itemNameOf p node) itemUrl]
          else packed)
        rw [hfront, joinFeeds_append] at hfailRest hokRest
        simp only [bind, Except.bind]
        cases hrest : importedNodes p (front ++ [(itemNameOf p node, itemUrl)]) rest with
        | error e =>
          refine ⟨fun e' h => ?_, fun tokens h => (nomatch h)⟩
          cases h
          exact hfailRest e hrest
        | ok tokens =>
          obtain ⟨tokens', hrun, htokens⟩ := hokRest tokens hrest
          refine ⟨fun e h => (nomatch h), fun all h => ?_⟩
          refine ⟨(if isAdded (front.map (·.1)) (joinFeeds front) (itemNameOf p node) itemUrl then
            [addFeed (itemNameOf p node) itemUrl] else []) ++ tokens', ?_, ?_⟩
          · rw [hrun]
            split <;> simp
          · intro hturns
            obtain ⟨hturn, hbehind⟩ := hturns itemUrl rfl
            rw [← Except.ok.inj h, htokens hbehind]
            by_cases hadded :
                isAdded (front.map (·.1)) (joinFeeds front) (itemNameOf p node) itemUrl = true
            · rw [if_pos hadded, if_pos (hturn.1 hadded)]
              rfl
            · rw [if_neg hadded, if_neg fun hmeant => hadded (hturn.2 hmeant)]
              rfl

end

/-! ## Addresses that can be cleaned -/

mutual

theorem cleanedBelow_iff : ∀ node : XmlElement,
    CleanedBelow p node ↔ ∃ tokens, importedBelow p node = .ok tokens
  | .element _ _ _ children => by
    rw [CleanedBelow, importedBelow]
    exact cleaned_iff children []

theorem cleaned_iff : ∀ (nodes : List XmlElement) (front : List (Text × Text)),
    Cleaned p nodes ↔ ∃ tokens, importedNodes p front nodes = .ok tokens
  | [], front => by
    rw [Cleaned, importedNodes]
    exact ⟨fun _ => ⟨[], rfl⟩, fun _ => trivial⟩
  | node :: rest, front => by
    rw [Cleaned, importedNodes]
    cases kindOf p node with
    | skipped => exact cleaned_iff rest front
    | folder =>
      dsimp only
      rw [cleanedBelow_iff node, cleaned_iff rest front]
      simp only [bind, Except.bind]
      constructor
      · rintro ⟨⟨inner, hinner⟩, tokens, htokens⟩
        rw [hinner, htokens]
        exact ⟨_, rfl⟩
      · rintro ⟨tokens, h⟩
        cases hinner : importedBelow p node with
        | error e =>
          rw [hinner] at h
          cases h
        | ok inner =>
          rw [hinner] at h
          refine ⟨⟨inner, rfl⟩, ?_⟩
          cases hrest : importedNodes p front rest with
          | error e =>
            rw [hrest] at h
            cases h
          | ok tokens => exact ⟨tokens, rfl⟩
    | feed =>
      dsimp only
      simp only [bind, Except.bind]
      cases hurl : itemUrlOf p node with
      | error e =>
        constructor
        · rintro ⟨⟨_, h⟩, -⟩
          cases h
        · rintro ⟨_, h⟩
          cases h
      | ok itemUrl =>
        rw [cleaned_iff rest (front ++ [(itemNameOf p node, itemUrl)])]
        dsimp only
        constructor
        · rintro ⟨-, tokens, htokens⟩
          rw [htokens]
          exact ⟨_, rfl⟩
        · rintro ⟨tokens, h⟩
          refine ⟨⟨itemUrl, rfl⟩, ?_⟩
          cases hrest : importedNodes p (front ++ [(itemNameOf p node, itemUrl)]) rest with
          | error e =>
            rw [hrest] at h
            cases h
          | ok tokens => exact ⟨tokens, rfl⟩

end

/-! ## The document -/

/-- An OPML document in a buffer, and its body. -/
structure OpmlBody (xml : XmlLibrary) (aBuffer : xml.Buffer) (document bodyNode : XmlElement) :
    Prop where
  read : xml.read aBuffer = some document
  supported : isSupported document = true
  body : getFirstNamedChild document (lit "body") = some bodyNode

/-- The name is put into a buffer, if there is room. -/
theorem opmlRootFolderName_eq (document : XmlElement) (aImportRootFolder : Text) :
    opmlRootFolderName p document aImportRootFolder =
      (rootName p document aImportRootFolder >>= fun name =>
        if kMaxFileName < name.length then .error .panic else .ok name) := by
  unfold opmlRootFolderName rootName
  split
  · rfl
  · simp only [bind, Except.bind]
    cases getFirstNamedChild document (lit "head") with
    | none => rfl
    | some headNode =>
      dsimp only
      cases getFirstNamedChild headNode (lit "title") with
      | none => rfl
      | some titleNode =>
        dsimp only
        cases extractTextL p titleNode.text with
        | error e => rfl
        | ok title => rfl

/-- `ParseL` does not panic; the folder that it gives is the one that is meant, and each of its
feeds has been added or left out in its turn. -/
structure ImportsAll (xml : XmlLibrary) (aBuffer : xml.Buffer) (aImportRootFolder : Text)
    (document bodyNode : XmlElement) : Prop where
  no_panic : parseL p xml aBuffer aImportRootFolder ≠ .error .panic
  folder : ∀ packed, parseL p xml aBuffer aImportRootFolder = .ok packed →
    importedDocument p document bodyNode aImportRootFolder = .ok packed
  turns : ∀ packed, parseL p xml aBuffer aImportRootFolder = .ok packed →
    AtFeedsBelow p AddedInTurn bodyNode

theorem parseL_eq {xml : XmlLibrary} {aBuffer : xml.Buffer} {document bodyNode : XmlElement}
    (h : OpmlBody xml aBuffer document bodyNode) (aImportRootFolder : Text) :
    parseL p xml aBuffer aImportRootFolder = (do
      let name ← opmlRootFolderName p document aImportRootFolder
      let begins := folderBegins (lit "Root Folder") ::
        if 0 < name.length then [folderBegins name] else []
      let packedFolder ← processFolderL p bodyNode begins
      .ok (packedFolder ++ (if 0 < name.length then [.folderEnd] else []) ++ [.folderEnd])) := by
  unfold parseL
  rw [h.read]
  dsimp only
  rw [h.supported, h.body]
  rfl

/-! ## Calls that leave -/

theorem itemUrlOf_ne_panic (hdecode : ∀ t, p.escapeDecodeL t ≠ .error .panic)
    (node : XmlElement) : itemUrlOf p node ≠ .error .panic := by
  have hclean : ∀ url, cleanupUrlL p url ≠ .error .panic := by
    intro url
    unfold cleanupUrlL
    simp only [bind, Except.bind]
    cases hresolve : resolveEntitiesL p url with
    | error e =>
      intro h
      rw [Except.error.inj h] at hresolve
      exact resolveFrom_ne_panic p [] none url hresolve
    | ok u =>
      dsimp only
      cases htext : p.escapeDecodeL u with
      | error e =>
        intro h
        rw [Except.error.inj h] at htext
        exact hdecode u htext
      | ok d => exact fun h => (nomatch h)
  unfold itemUrlOf
  simp only [bind, Except.bind]
  split
  · rename_i e herror
    intro h
    rw [Except.error.inj h] at herror
    exact hclean _ herror
  · exact fun h => (nomatch h)

theorem extractTextL_ne_panic (inner : Text) : extractTextL p inner ≠ .error .panic := by
  unfold extractTextL
  split
  · exact fun h => (nomatch h)
  · simp only [bind, Except.bind]
    cases hresolve : resolveEntitiesL p inner with
    | error e =>
      intro h
      rw [Except.error.inj h] at hresolve
      exact resolveFrom_ne_panic p [] none inner hresolve
    | ok u => exact fun h => (nomatch h)

theorem rootName_ne_panic (document : XmlElement) (aImportRootFolder : Text) :
    rootName p document aImportRootFolder ≠ .error .panic := by
  unfold rootName
  split
  · exact fun h => (nomatch h)
  · simp only [bind, Except.bind]
    cases getFirstNamedChild document (lit "head") with
    | none => exact fun h => (nomatch h)
    | some headNode =>
      dsimp only
      cases getFirstNamedChild headNode (lit "title") with
      | none => exact fun h => (nomatch h)
      | some titleNode =>
        dsimp only
        cases htitle : extractTextL p titleNode.text with
        | error e =>
          intro h
          rw [Except.error.inj h] at htitle
          exact extractTextL_ne_panic p titleNode.text htitle
        | ok title => exact fun h => (nomatch h)

mutual

theorem importedBelow_ne_panic (hdecode : ∀ t, p.escapeDecodeL t ≠ .error .panic) :
    ∀ node : XmlElement, importedBelow p node ≠ .error .panic
  | .element _ _ _ children => by
    rw [importedBelow]
    exact importedNodes_ne_panic hdecode children []

theorem importedNodes_ne_panic (hdecode : ∀ t, p.escapeDecodeL t ≠ .error .panic) :
    ∀ (nodes : List XmlElement) (front : List (Text × Text)),
      importedNodes p front nodes ≠ .error .panic
  | [], front => by
    rw [importedNodes]
    exact fun h => (nomatch h)
  | node :: rest, front => by
    rw [importedNodes]
    cases kindOf p node with
    | skipped => exact importedNodes_ne_panic hdecode rest front
    | folder =>
      have hbelow := importedBelow_ne_panic hdecode node
      have hrest := importedNodes_ne_panic hdecode rest front
      simp only [bind, Except.bind]
      cases hinner : importedBelow p node with
      | error e => exact fun h => hbelow (hinner.trans h)
      | ok inner =>
        dsimp only
        cases htokens : importedNodes p front rest with
        | error e => exact fun h => hrest (htokens.trans h)
        | ok tokens => exact fun h => (nomatch h)
    | feed =>
      have hclean := itemUrlOf_ne_panic p hdecode node
      simp only [bind, Except.bind]
      cases hurl : itemUrlOf p node with
      | error e =>
        intro h
        rw [Except.error.inj h] at hurl
        exact hclean hurl
      | ok itemUrl =>
        have hrest := importedNodes_ne_panic hdecode rest (front ++ [(itemNameOf p node, itemUrl)])
        dsimp only
        cases htokens : importedNodes p (front ++ [(itemNameOf p node, itemUrl)]) rest with
        | error e =>
          intro h
          rw [Except.error.inj h] at htokens
          exact hrest htokens
        | ok tokens => exact fun h => (nomatch h)

end

end

/-! ## Titles and addresses without separators -/

theorem splitFirst_comma_of_not_mem {a : Text} (h : 44 ∉ a) : splitFirst kComma a = none := by
  induction a with
  | nil => rfl
  | cons c rest ih =>
    obtain ⟨-, hrest⟩ := List.ne_and_not_mem_of_not_mem_cons h
    have hnot : ¬ kComma.isPrefixOf (c :: rest) = true := by
      intro hfound
      -- The comma would stand in the text.
      exact h ((List.isPrefixOf_iff_prefix.mp hfound).subset (List.mem_cons_of_mem _ List.mem_cons_self))
    rw [splitFirst, if_neg hnot, ih hrest]
    rfl

theorem splitFirst_comma_append {a : Text} (h : 44 ∉ a) (b : Text) :
    splitFirst kComma (a ++ (kComma ++ b)) = some (a, b) := by
  induction a with
  | nil => rfl
  | cons c rest ih =>
    obtain ⟨-, hrest⟩ := List.ne_and_not_mem_of_not_mem_cons h
    have hnot : ¬ kComma.isPrefixOf (c :: (rest ++ (kComma ++ b))) = true := by
      intro hfound
      cases rest with
      | nil =>
        -- The second character is the blank in front of the comma.
        have hsecond : (44 : UInt16) = 32 :=
          (List.cons_prefix_cons.mp (List.cons_prefix_cons.mp
            (List.isPrefixOf_iff_prefix.mp hfound)).2).1
        exact absurd hsecond (by decide)
      | cons d rest =>
        have hsecond : 44 = d :=
          (List.cons_prefix_cons.mp (List.cons_prefix_cons.mp
            (List.isPrefixOf_iff_prefix.mp hfound)).2).1
        exact hrest (hsecond ▸ List.mem_cons_self)
    rw [List.cons_append, splitFirst, if_neg hnot, ih hrest]
    rfl

theorem pieces_of_not_mem {a : Text} (h : 44 ∉ a) : pieces a = [a] := by
  unfold pieces
  split
  · rfl
  · rename_i hsome
    rw [splitFirst_comma_of_not_mem h] at hsome
    cases hsome

theorem pieces_append {a : Text} (h : 44 ∉ a) (b : Text) :
    pieces (a ++ (kComma ++ b)) = a :: pieces b := by
  rw [pieces]
  split
  · rename_i hnone
    rw [splitFirst_comma_append h] at hnone
    cases hnone
  · rename_i front back hsome
    rw [splitFirst_comma_append h] at hsome
    obtain ⟨rfl, rfl⟩ := Prod.mk.inj (Option.some.inj hsome)
    rfl

/-- There is no comma in a feed, and no back quote in its title. -/
def PlainFeed (feed : Text × Text) : Prop :=
  44 ∉ feed.1 ∧ 96 ∉ feed.1 ∧ 44 ∉ feed.2

theorem PlainFeed.not_mem {feed : Text × Text} (h : PlainFeed feed) :
    44 ∉ titleAndUrl feed.1 feed.2 := by
  obtain ⟨htitle, -, hurl⟩ := h
  simp [titleAndUrl, kBackQuote, htitle, hurl]

theorem joined_eq (feeds : List (Text × Text)) (a : Text) :
    feeds.foldl (fun urls feed => some (appendFeedUrl urls feed.1 feed.2)) (some a) =
      some (a ++ feeds.flatMap fun feed => kComma ++ titleAndUrl feed.1 feed.2) := by
  induction feeds generalizing a with
  | nil => simp
  | cons feed rest ih =>
    rw [List.foldl_cons, appendFeedUrl, ih, List.flatMap_cons]
    simp only [List.append_assoc]

/-- The pieces of the joined string are the feeds. -/
theorem pieces_joined {feeds : List (Text × Text)} (hfeeds : ∀ feed ∈ feeds, PlainFeed feed)
    {a : Text} (ha : 44 ∉ a) :
    pieces (a ++ feeds.flatMap fun feed => kComma ++ titleAndUrl feed.1 feed.2) =
      a :: feeds.map fun feed => titleAndUrl feed.1 feed.2 := by
  induction feeds generalizing a with
  | nil =>
    rw [List.flatMap_nil, List.append_nil]
    exact pieces_of_not_mem ha
  | cons feed rest ih =>
    obtain ⟨hfeed, hrest⟩ := List.forall_mem_cons.mp hfeeds
    rw [List.flatMap_cons, List.append_assoc kComma, pieces_append ha, ih hrest hfeed.not_mem]
    rfl

/-- The back quote shows where the title ends. -/
theorem titleAndUrl_inj {title title' url url' : Text} (h : 96 ∉ title) (h' : 96 ∉ title')
    (heq : titleAndUrl title url = titleAndUrl title' url') : title = title' ∧ url = url' := by
  induction title generalizing title' with
  | nil =>
    cases title' with
    | nil => exact ⟨rfl, by simpa [titleAndUrl] using heq⟩
    | cons c rest =>
      exfalso
      cases rest with
      | nil =>
        simp [titleAndUrl, kBackQuote] at heq
      | cons d rest =>
        simp only [titleAndUrl, kBackQuote, List.nil_append, List.cons_append, List.cons.injEq] at heq
        exact h' (heq.2.1 ▸ List.mem_cons_of_mem _ List.mem_cons_self)
  | cons c rest ih =>
    cases title' with
    | nil =>
      exfalso
      cases rest with
      | nil =>
        simp [titleAndUrl, kBackQuote] at heq
      | cons d rest =>
        simp only [titleAndUrl, kBackQuote, List.nil_append, List.cons_append, List.cons.injEq] at heq
        exact h (heq.2.1 ▸ List.mem_cons_of_mem _ List.mem_cons_self)
    | cons c' rest' =>
      obtain ⟨-, hrest⟩ := List.ne_and_not_mem_of_not_mem_cons h
      obtain ⟨-, hrest'⟩ := List.ne_and_not_mem_of_not_mem_cons h'
      obtain ⟨rfl, htail⟩ := List.cons.inj (heq : c :: titleAndUrl rest url = c' :: titleAndUrl rest' url')
      obtain ⟨rfl, rfl⟩ := ih hrest hrest' htail
      exact ⟨rfl, rfl⟩

/-- Without commas and back quotes the separators do no harm. -/
theorem harmlessAt_of_plain {front : List (Text × Text)} {title url : Text}
    (hfront : ∀ feed ∈ front, PlainFeed feed) (hfeed : PlainFeed (title, url)) :
    HarmlessAt front title url := by
  intro _
  cases front with
  | nil => simp [ToldApart]
  | cons first rest =>
    obtain ⟨hfirst, hrest⟩ := List.forall_mem_cons.mp hfront
    have hjoin : joinFeeds (first :: rest) = some (titleAndUrl first.1 first.2 ++
        rest.flatMap fun feed => kComma ++ titleAndUrl feed.1 feed.2) := by
      rw [joinFeeds, List.foldl_cons, appendFeedUrl, joined_eq]
    have hmem : titleAndUrl title url ∈ (first :: rest).map (fun feed => titleAndUrl feed.1 feed.2) ↔
        (title, url) ∈ first :: rest := by
      constructor
      · intro h
        obtain ⟨feed, hfeed', heq⟩ := List.mem_map.mp h
        obtain ⟨rfl, rfl⟩ := titleAndUrl_inj (hfront feed hfeed').2.1 hfeed.2.1 heq
        exact hfeed'
      · intro h
        exact List.mem_map_of_mem (f := fun feed => titleAndUrl feed.1 feed.2) h
    have hpieces : pieces (titleAndUrl first.1 first.2 ++
        rest.flatMap fun feed => kComma ++ titleAndUrl feed.1 feed.2) =
          (first :: rest).map fun feed => titleAndUrl feed.1 feed.2 :=
      pieces_joined hrest hfirst.not_mem
    rw [ToldApart, hjoin]
    constructor
    · intro htold hbefore
      apply htold (List.mem_map_of_mem (f := Prod.fst) hbefore) _ rfl
      rw [hpieces]
      exact hmem.mpr hbefore
    · rintro hnot - urls hurls hfound
      rw [← Option.some.inj hurls, hpieces] at hfound
      exact hnot (hmem.mp hfound)

section

variable (p : Platform)

/-! ## When everything is kept -/

theorem harmless_iff (bodyNode : XmlElement) :
    AtFeedsBelow p AddedInTurn bodyNode ↔ Harmless p bodyNode := by
  have hsame : AddedInTurn = HarmlessAt := by
    funext front title url
    exact propext (addedInTurn_iff front title url)
  rw [Harmless, hsame]

/-- An import keeps what it is meant to keep if the name around everything fits its buffer and the
separators do no harm, and only then; if an address or the title cannot be cleaned, there is no
folder. -/
theorem importsAll_iff {xml : XmlLibrary} {aBuffer : xml.Buffer} {document bodyNode : XmlElement}
    (hbody : OpmlBody xml aBuffer document bodyNode)
    (hdecode : ∀ t, p.escapeDecodeL t ≠ .error .panic) (aImportRootFolder : Text) :
    ImportsAll p xml aBuffer aImportRootFolder document bodyNode ↔
      ∀ name, rootName p document aImportRootFolder = .ok name →
        name.length ≤ kMaxFileName ∧ (CleanedBelow p bodyNode → Harmless p bodyNode) := by
  constructor
  · intro himports name hname
    have hfits : name.length ≤ kMaxFileName := by
      by_contra hlong
      apply himports.no_panic
      rw [parseL_eq p hbody, opmlRootFolderName_eq, hname]
      simp only [bind, Except.bind, Nat.not_le.mp hlong, if_true]
    refine ⟨hfits, fun hcleaned => (harmless_iff p bodyNode).mp ?_⟩
    obtain ⟨tokens, htokens⟩ := (cleanedBelow_iff p bodyNode).mp hcleaned
    obtain ⟨tokens', hrun, -⟩ := (processFolderL_cases p bodyNode (folderBegins (lit "Root Folder") ::
      if 0 < name.length then [folderBegins name] else [])).2 tokens htokens
    refine himports.turns (((folderBegins (lit "Root Folder") ::
      if 0 < name.length then [folderBegins name] else []) ++ tokens') ++
        (if 0 < name.length then [.folderEnd] else []) ++ [.folderEnd]) ?_
    rw [parseL_eq p hbody, opmlRootFolderName_eq, hname]
    simp only [bind, Except.bind, Nat.not_lt.mpr hfits, if_false, hrun]
  · intro hcond
    cases hname : rootName p document aImportRootFolder with
    | error e =>
      have hparse : parseL p xml aBuffer aImportRootFolder = .error e := by
        rw [parseL_eq p hbody, opmlRootFolderName_eq, hname]
        rfl
      refine ⟨?_, fun packed h => ?_, fun packed h => ?_⟩
      · rw [hparse]
        intro h
        rw [Except.error.inj h] at hname
        exact rootName_ne_panic p document aImportRootFolder hname
      · rw [hparse] at h
        cases h
      · rw [hparse] at h
        cases h
    | ok name =>
      obtain ⟨hfits, hharmless⟩ := hcond name hname
      obtain ⟨hfail, hok⟩ := processFolderL_cases p bodyNode (folderBegins (lit "Root Folder") ::
        if 0 < name.length then [folderBegins name] else [])
      cases htokens : importedBelow p bodyNode with
      | error e =>
        have hparse : parseL p xml aBuffer aImportRootFolder = .error e := by
          rw [parseL_eq p hbody, opmlRootFolderName_eq, hname]
          simp only [bind, Except.bind, Nat.not_lt.mpr hfits, if_false, hfail e htokens]
        refine ⟨?_, fun packed h => ?_, fun packed h => ?_⟩
        · rw [hparse]
          intro h
          rw [Except.error.inj h] at htokens
          exact importedBelow_ne_panic p hdecode bodyNode htokens
        · rw [hparse] at h
          cases h
        · rw [hparse] at h
          cases h
      | ok tokens =>
        have hturns := (harmless_iff p bodyNode).mpr
          (hharmless ((cleanedBelow_iff p bodyNode).mpr ⟨tokens, htokens⟩))
        obtain ⟨tokens', hrun, hsame⟩ := hok tokens htokens
        have hparse : parseL p xml aBuffer aImportRootFolder =
            importedDocument p document bodyNode aImportRootFolder := by
          rw [parseL_eq p hbody, opmlRootFolderName_eq, importedDocument, hname, htokens]
          simp only [bind, Except.bind, Nat.not_lt.mpr hfits, if_false, hrun, hsame hturns]
        refine ⟨?_, fun packed h => hparse ▸ h, fun _ _ => hturns⟩
        rw [hparse, importedDocument, hname, htokens]
        exact fun h => (nomatch h)

end

/-! ## A title that is too long -/

theorem squeeze_of_not_space {isSpace : UInt16 → Bool} {t : Text} (h : ∀ c ∈ t, isSpace c = false)
    (afterSpace : Bool) : squeeze isSpace afterSpace t = t := by
  induction t generalizing afterSpace with
  | nil => rfl
  | cons c rest ih =>
    obtain ⟨hc, hrest⟩ := List.forall_mem_cons.mp h
    rw [squeeze, if_neg (by simp [hc]), ih hrest]

theorem trimAll_of_not_space {isSpace : UInt16 → Bool} {t : Text}
    (h : ∀ c ∈ t, isSpace c = false) : trimAll isSpace t = t := by
  have hleft : t.dropWhile isSpace = t := by
    cases t with
    | nil => rfl
    | cons c rest => exact List.dropWhile_cons_of_neg (by simp [h c List.mem_cons_self])
  have hright : t.rdropWhile isSpace = t := by
    rw [List.rdropWhile_eq_self_iff]
    intro hne
    simp [h _ (List.getLast_mem hne)]
  rw [trimAll, hleft, hright, squeeze_of_not_space h]

/-- A text without markup, entities and white space is extracted as it is. -/
theorem extractTextL_of_plain (p : Platform) {t : Text} (hne : t ≠ []) (hmarkup : 60 ∉ t)
    (hentity : EntityFree t) (hspace : ∀ c ∈ t, p.isSpace c = false) :
    extractTextL p t = .ok (some t) := by
  have hstrip : stripCDataMarkers p t = t := by
    rw [stripCDataMarkers, stripFrom_of_not_mem false [] hmarkup]
    rfl
  rw [extractTextL, if_neg hne, resolveEntitiesL_of_entityFree hentity]
  simp only [bind, Except.bind, hstrip, trimAll_of_not_space hspace]

/-- A feed that is there twice. -/
def planetNode : XmlElement :=
  .element (lit "outline") [(lit "text", lit "Planet"), (lit "url", lit "http://p/")] [] []

def planetBody : XmlElement := .element (lit "body") [] [] [planetNode, planetNode]

def titledDocument (title : Text) : XmlElement :=
  .element (lit "opml") [] []
    [.element (lit "head") [] [] [.element (lit "title") [] title []], planetBody]

theorem opmlBody_titledDocument (title : Text) :
    OpmlBody documents (titledDocument title) (titledDocument title) planetBody where
  read := rfl
  supported := rfl
  body := rfl

theorem rootName_titledDocument {title : Text} (hne : title ≠ [])
    (hletters : ∀ c ∈ title, c = 97) :
    rootName asciiPlatform (titledDocument title) (lit "feeds.opml") = .ok title := by
  have hextract : extractTextL asciiPlatform title = .ok (some title) := by
    apply extractTextL_of_plain asciiPlatform hne
    · intro hmem
      exact absurd (hletters 60 hmem) (by decide)
    · intro hmem
      exact absurd (hletters 59 ((List.dropWhile_suffix _).subset hmem)) (by decide)
    · intro c hc
      rw [hletters c hc]
      rfl
  have hhead : getFirstNamedChild (titledDocument title) (lit "head") =
      some (.element (lit "head") [] [] [.element (lit "title") [] title []]) := rfl
  have htitle : getFirstNamedChild
      (.element (lit "head") [] [] [.element (lit "title") [] title []]) (lit "title") =
        some (.element (lit "title") [] title []) := rfl
  have hlength : ¬ (lit "feeds.opml").length ≤ 0 := by decide
  simp only [rootName, hlength, if_false, hhead, htitle, XmlElement.text, hextract, bind,
    Except.bind, Option.getD_some]

theorem percentDecode_ne_panic (t : Text) : percentDecode t ≠ .error .panic := by
  fun_induction percentDecode t with
  | case1 => simp
  | case2 => simp
  | case3 => simp
  | case4 => simp
  | case5 => simp
  | case6 c rest hc e hrest ih =>
    intro h
    rw [Except.error.inj h] at hrest
    exact ih hrest

theorem itemUrlOf_planetNode : itemUrlOf asciiPlatform planetNode = .ok (lit "http://p/") := by
  have hdecoded : asciiPlatform.escapeDecodeL (lit "http://p/") = .ok (lit "http://p/") := by
    rw [escapeDecodeL_asciiPlatform]
    exact percentDecode_of_not_mem (by decide)
  have htrim : trim asciiPlatform (lit "http://p/") = lit "http://p/" := by decide
  have hclean : cleanupUrlL asciiPlatform (lit "http://p/") = .ok (lit "http://p/") :=
    cleanupUrlL_eq_self_iff.mpr ⟨by decide, hdecoded, htrim⟩
  have hurl : planetNode.attributeL (lit "url") = some (lit "http://p/") := rfl
  simp only [itemUrlOf, hurl, hclean, bind, Except.bind, htrim]

theorem harmless_planetBody : Harmless asciiPlatform planetBody := by
  have hkind : kindOf asciiPlatform planetNode = .feed := rfl
  have hplain : PlainFeed (itemNameOf asciiPlatform planetNode, lit "http://p/") :=
    ⟨by decide, by decide, by decide⟩
  simp only [Harmless, planetBody, AtFeedsBelow, AtFeeds, hkind, itemUrlOf_planetNode]
  rintro itemUrl hurl
  obtain rfl := Except.ok.inj hurl
  refine ⟨harmlessAt_of_plain nofun hplain, ?_⟩
  rintro itemUrl hurl
  obtain rfl := Except.ok.inj hurl
  refine ⟨harmlessAt_of_plain ?_ hplain, trivial⟩
  intro feed hfeed
  rw [List.nil_append, List.mem_singleton] at hfeed
  exact hfeed ▸ hplain

/-- The second of two outlines for one feed is left out. -/
theorem importsAll_iff_planet :
    ImportsAll asciiPlatform documents (titledDocument [97]) (lit "feeds.opml")
      (titledDocument [97]) planetBody := by
  refine (importsAll_iff asciiPlatform (opmlBody_titledDocument [97]) percentDecode_ne_panic
    (lit "feeds.opml")).mpr ?_
  intro name hname
  rw [rootName_titledDocument (List.cons_ne_nil _ _) (by simp)] at hname
  obtain rfl := Except.ok.inj hname
  exact ⟨by decide, fun _ => harmless_planetBody⟩

/-- A title of 257 characters does not fit the buffer. -/
theorem not_importsAll_long :
    ¬ ∀ (xml : XmlLibrary) (aBuffer : xml.Buffer) (document bodyNode : XmlElement),
      OpmlBody xml aBuffer document bodyNode →
        ∀ aImportRootFolder, ImportsAll asciiPlatform xml aBuffer aImportRootFolder document bodyNode := by
  intro h
  apply (h documents _ _ _ (opmlBody_titledDocument (List.replicate 257 97)) (lit "feeds.opml")).no_panic
  have hname : rootName asciiPlatform (titledDocument (List.replicate 257 97)) (lit "feeds.opml") =
      .ok (List.replicate 257 97) :=
    rootName_titledDocument (List.cons_ne_nil _ _) fun c hc => List.eq_of_mem_replicate hc
  have hlong : kMaxFileName < (List.replicate 257 (97 : UInt16)).length := by
    rw [List.length_replicate]
    decide
  rw [parseL_eq asciiPlatform (opmlBody_titledDocument _), opmlRootFolderName_eq, hname]
  simp only [bind, Except.bind, hlong, if_true]

end SymbianWeb.Feeds
