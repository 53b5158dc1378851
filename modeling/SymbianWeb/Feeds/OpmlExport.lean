import SymbianWeb.Feeds.OpmlRoundTrip

/-!
# Exporting and importing a forest

`ParseL` makes of the document that `ExportL` writes the tokens of the root folder
with the import folder in it, and in this what `imported` says of the forest. It
is the exported forest exactly when all groups of siblings are faithful and the
rows stand in sibling order.
-/

set_option autoImplicit false

namespace SymbianWeb.Feeds

open XmlContent

/-! ## The title of the document -/

theorem squeeze_congr {f g : UInt16 → Bool} {t : Text} (h : ∀ c ∈ t, f c = g c) :
    ∀ afterSpace, squeeze f afterSpace t = squeeze g afterSpace t := by
  induction t with
  | nil => exact fun _ => rfl
  | cons c rest ih =>
    intro afterSpace
    have hrest := ih fun d hd => h d (List.mem_cons_of_mem _ hd)
    simp only [squeeze, h c List.mem_cons_self, hrest]

theorem dropWhile_congr {f g : UInt16 → Bool} {t : Text} (h : ∀ c ∈ t, f c = g c) :
    t.dropWhile f = t.dropWhile g := by
  induction t with
  | nil => rfl
  | cons c rest ih =>
    rw [List.dropWhile_cons, List.dropWhile_cons, h c List.mem_cons_self,
      ih fun d hd => h d (List.mem_cons_of_mem _ hd)]

theorem trimAll_congr {f g : UInt16 → Bool} {t : Text} (h : ∀ c ∈ t, f c = g c) :
    trimAll f t = trimAll g t := by
  have hleft := dropWhile_congr h
  have hmem : ∀ c ∈ t.dropWhile g, f c = g c :=
    fun c hc => h c ((List.dropWhile_suffix g).mem hc)
  have hright : (t.dropWhile g).rdropWhile f = (t.dropWhile g).rdropWhile g := by
    unfold List.rdropWhile
    rw [dropWhile_congr fun c hc => hmem c (List.mem_reverse.1 hc)]
  unfold trimAll
  rw [hleft, hright]
  exact squeeze_congr (fun c hc => hmem c ((List.rdropWhile_prefix g _).mem hc)) false

/-- Text without `<` has no markers. -/
theorem stripFrom_of_not_mem (changed : Bool) (before : Text) {rest : Text} (h : 60 ∉ rest) :
    stripFrom changed false before rest = (changed, before ++ rest) := by
  induction rest generalizing before with
  | nil =>
    unfold stripFrom
    simp
  | cons c tail ih =>
    have hc : c ≠ 60 := fun hc => h (hc ▸ List.mem_cons_self)
    have hno : (lit "<![CDATA[").isPrefixOf (c :: tail) = false := by
      rw [show lit "<![CDATA[" = 60 :: (lit "![CDATA[") from rfl, List.isPrefixOf]
      simp [Ne.symm hc]
    unfold stripFrom
    simp only [hno, Bool.false_eq_true, if_false, false_and]
    rw [ih _ fun hmem => h (List.mem_cons_of_mem _ hmem), List.append_assoc]
    rfl

section

variable (p : Platform)

theorem extractTextL_title : extractTextL p kTitleValue = .ok (some kTitleValue) := by
  have hfree : EntityFree kTitleValue := by decide
  have hmarkup : stripCDataMarkers p kTitleValue = kTitleValue := by
    unfold stripCDataMarkers
    rw [stripFrom_of_not_mem false [] (by decide)]
    rfl
  have hall : (kTitleValue.all fun c => decide (c < 128)) = true := by decide
  have hascii : ∀ c ∈ kTitleValue, c < 128 :=
    fun c hc => of_decide_eq_true (List.all_eq_true.1 hall c hc)
  have hspace : trimAll p.isSpace kTitleValue = kTitleValue := by
    rw [trimAll_congr fun c hc => p.isSpace_ascii c (hascii c hc)]
    decide
  have hne : kTitleValue ≠ [] := by decide
  simp only [extractTextL, hne, if_false, resolveEntitiesL_of_entityFree hfree, bind, Except.bind,
    hmarkup, hspace]

/-- The document of some elements. -/
def opmlDocument (outlines : List XmlElement) : XmlElement :=
  .element (lit "opml") [(lit "version", lit "1.0")] []
    [.element (lit "head") [] [] [.element (lit "title") [] kTitleValue []],
      .element (lit "body") [] [] outlines]

theorem opmlRootFolderName_opmlDocument (outlines : List XmlElement) {aImportRootFolder : Text}
    (hroot : aImportRootFolder ≠ []) :
    opmlRootFolderName p (opmlDocument outlines) aImportRootFolder = .ok kTitleValue := by
  have hlength : ¬ aImportRootFolder.length ≤ 0 := by
    rw [Nat.le_zero, List.length_eq_zero_iff]
    exact hroot
  have hhead : getFirstNamedChild (opmlDocument outlines) (lit "head") =
      some (.element (lit "head") [] [] [.element (lit "title") [] kTitleValue []]) := rfl
  have htitle : getFirstNamedChild
      (.element (lit "head") [] [] [.element (lit "title") [] kTitleValue []]) (lit "title") =
        some (.element (lit "title") [] kTitleValue []) := rfl
  have hshort : ¬ kMaxFileName < kTitleValue.length := by decide
  simp only [opmlRootFolderName, hlength, if_false, hhead, htitle, XmlElement.text,
    extractTextL_title p, bind, Except.bind, Option.getD_some, hshort]

/-- The packed folder that holds `items` in the import folder. -/
def packedFolderOf (items : List FeedItem) : List FolderToken :=
  tokensOf (.folder (lit "Root Folder") [.folder kTitleValue items])

theorem packedFolderOf_inj {xs ys : List FeedItem} (h : packedFolderOf xs = packedFolderOf ys) :
    xs = ys := by
  have hsame : tokensOf (.folder (lit "Root Folder") [.folder kTitleValue xs]) ++ [] =
      tokensOf (.folder (lit "Root Folder") [.folder kTitleValue ys]) ++ [] := by
    rw [List.append_nil, List.append_nil]
    exact h
  obtain ⟨houter, -⟩ := tokensOf_inj hsame
  obtain ⟨-, hinner⟩ := FeedItem.folder.inj houter
  exact (FeedItem.folder.inj (List.cons.inj hinner).1).2

/-- What the parser makes of a document that was written. -/
theorem parseL_opmlDocument (xml : XmlLibrary) (items : List FeedItem) {aImportRootFolder : Text}
    (hroot : aImportRootFolder ≠ []) :
    parseL p xml (xml.write (opmlDocument (elementsOf items))) aImportRootFolder =
      (imported p [] none items).map packedFolderOf := by
  have hsupported : isSupported (opmlDocument (elementsOf items)) = true := rfl
  have hbody : getFirstNamedChild (opmlDocument (elementsOf items)) (lit "body") =
      some (.element (lit "body") [] [] (elementsOf items)) := rfl
  have hname : 0 < kTitleValue.length := by decide
  simp only [parseL, xml.read_write, hsupported, Bool.true_eq_false, if_false, hbody,
    opmlRootFolderName_opmlDocument p _ hroot, bind, Except.bind, hname, if_true, processFolderL,
    processNodes_elementsOf]
  cases imported p [] none items with
  | error e => rfl
  | ok read => simp [Except.map, packedFolderOf, tokensOf, tokensOfAll]

end

/-! ## The round trip -/

/-- A forest of the tables with the ids that are exported: titles are trimmed and
fit their column, addresses have at most 256 units, and no two feeds of a folder
have the same title and address. -/
structure ExportedForest (p : Platform) (rows : List FolderListRow) (feeds : List FeedRow) where
  aFolderItemIDs : List UInt16
  items : List StoredItem
  stored : AllStored rows feeds aFolderItemIDs items
  ne_nil : aFolderItemIDs ≠ []
  titles : ∀ group ∈ groups (allAsWritten items), ∀ i ∈ group, i.title.length ≤ k100MaxLen
  proper : ∀ group ∈ groups (allAsWritten items), Proper p group
  distinct : ∀ group ∈ groups (allAsWritten items), (feedsOf group).Nodup

section

variable {p : Platform} {rows : List FolderListRow} {feeds : List FeedRow}

/-- The forest that was exported is imported into the import folder. -/
def RoundTrips (xml : XmlLibrary) (depth : Nat) (aImportRootFolder : Text)
    (forest : ExportedForest p rows feeds) : Prop :=
  ∃ aBuffer, exportL rows feeds xml depth forest.aFolderItemIDs = .ok aBuffer ∧
    parseL p xml aBuffer aImportRootFolder = .ok (packedFolderOf (allArranged forest.items))

theorem exportL_eq (forest : ExportedForest p rows feeds) (xml : XmlLibrary) {depth : Nat}
    (hdepth : nestingOfAll (allAsWritten forest.items) ≤ depth) :
    exportL rows feeds xml depth forest.aFolderItemIDs =
      .ok (xml.write (opmlDocument (elementsOf (allAsWritten forest.items)))) := by
  have hshort : k100MaxLen ≤ kMaxFolderItemTitleLength := by decide
  have heach := writeEach_eq forest.stored
    (fun i hi => (forest.titles _ (mem_groups_self _) i hi).trans hshort)
    (fun group hgroup i hi =>
      (forest.titles group (List.mem_cons_of_mem _ hgroup) i hi).trans hshort) hdepth
  have hids : ¬ forest.aFolderItemIDs.length ≤ 0 := by
    rw [Nat.le_zero, List.length_eq_zero_iff]
    exact forest.ne_nil
  simp only [exportL, exportDocumentL, hids, if_false, heach, bind, Except.bind, opmlDocument]

/-- What comes back is what `imported` says. -/
theorem roundTrips_iff_imported (xml : XmlLibrary) {depth : Nat} {aImportRootFolder : Text}
    (forest : ExportedForest p rows feeds) (hroot : aImportRootFolder ≠ [])
    (hdepth : nestingOfAll (allAsWritten forest.items) ≤ depth) :
    RoundTrips xml depth aImportRootFolder forest ↔
      imported p [] none (allAsWritten forest.items) = .ok (allArranged forest.items) := by
  have hparse := parseL_opmlDocument p xml (allAsWritten forest.items) hroot
  unfold RoundTrips
  rw [exportL_eq forest xml hdepth]
  constructor
  · rintro ⟨aBuffer, hbuffer, hread⟩
    obtain rfl := Except.ok.inj hbuffer
    rw [hparse] at hread
    cases himported : imported p [] none (allAsWritten forest.items) with
    | error e =>
      rw [himported] at hread
      cases hread
    | ok read =>
      rw [himported] at hread
      rw [packedFolderOf_inj (Except.ok.inj hread)]
  · intro himported
    refine ⟨_, rfl, ?_⟩
    rw [hparse, himported]
    rfl

/-- An exported forest comes back exactly when all groups of siblings are faithful
and the rows stand in sibling order. -/
theorem roundTrips_iff_faithful (xml : XmlLibrary) {depth : Nat} {aImportRootFolder : Text}
    (forest : ExportedForest p rows feeds) (hroot : aImportRootFolder ≠ [])
    (hdepth : nestingOfAll (allAsWritten forest.items) ≤ depth) :
    RoundTrips xml depth aImportRootFolder forest ↔
      (∀ group ∈ groups (allAsWritten forest.items), Faithful p group) ∧
        allArranged forest.items = allAsWritten forest.items := by
  have hself := @imported_eq_self_iff p _ [] (forest.proper _ (mem_groups_self _))
    fun group hgroup => forest.proper group (List.mem_cons_of_mem _ hgroup)
  have hgroups : (∀ group ∈ groups (allAsWritten forest.items), Faithful p group) ↔
      imported p [] none (allAsWritten forest.items) = .ok (allAsWritten forest.items) := by
    rw [groups, List.forall_mem_cons]
    exact hself.symm
  rw [roundTrips_iff_imported xml forest hroot hdepth, hgroups]
  constructor
  · intro himported
    -- What was changed on the way would have made the forest lighter.
    rcases weight_imported himported with hsame | hlighter
    · exact ⟨by rw [himported, hsame], hsame⟩
    · rw [weight_allArranged] at hlighter
      exact absurd hlighter (Nat.lt_irrefl _)
  · rintro ⟨himported, hsame⟩
    rw [himported, hsame]

end

/-! ### Two forests -/

/-- Escaped characters decoded. -/
def percentDecode : Text → Except Failure Text
  | [] => .ok []
  | c :: rest =>
    if c = 37 then
      match rest with
      | high :: low :: rest =>
        match digitValue high, digitValue low, percentDecode rest with
        | some h, some l, .ok u => .ok (UInt16.ofNat (16 * h + l) :: u)
        | _, _, _ => .error (.leave kErrCorrupt)
      | _ => .error (.leave kErrCorrupt)
    else
      match percentDecode rest with
      | .ok u => .ok (c :: u)
      | .error e => .error e

theorem percentDecode_shorter {t u : Text} (h : percentDecode t = .ok u) :
    u = t ∨ u.length < t.length := by
  fun_induction percentDecode t generalizing u with
  | case1 => exact .inl (Except.ok.inj h).symm
  | case2 high low rest h₁ l₁ u₁ hrest _ _ ih =>
    obtain rfl := Except.ok.inj h
    right
    rcases ih hrest with rfl | hlt
    · simp
    · simp only [List.length_cons]
      omega
  | case3 => cases h
  | case4 => cases h
  | case5 c rest hne u₁ hrest ih =>
    obtain rfl := Except.ok.inj h
    rcases ih hrest with rfl | hlt
    · exact .inl rfl
    · exact .inr (by simpa using hlt)
  | case6 => cases h

/-- A platform that knows ASCII only. -/
def asciiPlatform : Platform where
  isSpace c := decide (c = 32 ∨ 9 ≤ c ∧ c ≤ 13)
  isSpace_ascii _ _ := rfl
  compareF a b := a.map casemap == b.map casemap
  escapeDecodeL := percentDecode
  escapeDecodeL_shorter := percentDecode_shorter
  unset := 0

theorem escapeDecodeL_asciiPlatform (t : Text) :
    asciiPlatform.escapeDecodeL t = percentDecode t := rfl

/-- Text without escaped characters. -/
theorem percentDecode_of_not_mem {t : Text} (h : 37 ∉ t) : percentDecode t = .ok t := by
  induction t with
  | nil => rw [percentDecode]
  | cons c rest ih =>
    have hc : c ≠ 37 := fun hc => h (hc ▸ List.mem_cons_self)
    have htail := ih fun hmem => h (List.mem_cons_of_mem _ hmem)
    unfold percentDecode
    simp only [hc, if_false, htail]

/-- Documents that are handed on as they are. -/
def documents : XmlLibrary where
  Buffer := XmlElement
  write e := e
  read e := some e
  read_write _ := rfl

/-- A folder with a feed, and an empty folder. -/
def newsRows : List FolderListRow :=
  [⟨0, 1, 0, 0, true, 0, lit "News", 0⟩, ⟨0, 2, 1, 0, false, 7, lit "Planet", 0⟩,
    ⟨0, 3, 0, 1, true, 0, lit "Later", 0⟩]

def newsFeeds : List FeedRow := [⟨0, 7, 0, lit "Planet", lit "http://p/", [], [], 0, 0⟩]

theorem groups_news : groups (allAsWritten
    [.folder 0 (lit "News") [.feed 0 (lit "Planet") (lit "http://p/")]]) =
      [[.folder (lit "News") [.feed (lit "Planet") (lit "http://p/")]],
        [.feed (lit "Planet") (lit "http://p/")]] := rfl

def newsForest : ExportedForest asciiPlatform newsRows newsFeeds where
  aFolderItemIDs := [1]
  items := [.folder 0 (lit "News") [.feed 0 (lit "Planet") (lit "http://p/")]]
  stored := ⟨⟨_, rfl, rfl, rfl, rfl, ⟨_, rfl, rfl, rfl, rfl, _, rfl, rfl⟩, trivial⟩, trivial⟩
  ne_nil := List.cons_ne_nil _ _
  titles := by
    simp only [groups_news, List.forall_mem_cons, FeedItem.title]
    exact ⟨⟨by decide, nofun⟩, ⟨by decide, nofun⟩, nofun⟩
  proper := by
    simp only [groups_news, List.forall_mem_cons, Proper, FeedItem.title]
    refine ⟨⟨⟨by decide, nofun⟩, nofun⟩, ⟨⟨by decide, ?_⟩, nofun⟩, nofun⟩
    intro title url h
    obtain ⟨rfl, rfl⟩ := FeedItem.feed.inj h
    decide
  distinct := by
    simp only [groups_news, List.forall_mem_cons]
    exact ⟨List.nodup_nil, List.nodup_singleton _, nofun⟩

/-- The folder with the feed comes back. -/
theorem roundTrips_iff_faithful_news :
    RoundTrips documents 2 (lit "feeds.opml") newsForest := by
  have hordered : allArranged newsForest.items = allAsWritten newsForest.items := by
    simp [newsForest, allArranged, arranged, ranked, allAsWritten, asWritten]
  refine (roundTrips_iff_faithful documents newsForest (List.cons_ne_nil _ _) (Nat.le_refl 2)).2
    ⟨?_, hordered⟩
  have hdecoded : asciiPlatform.escapeDecodeL (lit "http://p/") = .ok (lit "http://p/") := by
    rw [escapeDecodeL_asciiPlatform]
    exact percentDecode_of_not_mem (by decide)
  have hurl : UrlKept asciiPlatform (lit "http://p/") :=
    ⟨by decide, by decide, hdecoded, by decide⟩
  have htold : ToldApart [] (lit "Planet") (lit "http://p/") := fun h => absurd h List.not_mem_nil
  have hplanet : (0 : UInt16) ∉ lit "Planet" := by decide
  have hnews : (0 : UInt16) ∉ lit "News" := by decide
  have hfeed : Faithful asciiPlatform [.feed (lit "Planet") (lit "http://p/")] :=
    faithfulBehind_feed_iff.2 ⟨hplanet, hurl, htold, .nil _⟩
  have hfolder : Faithful asciiPlatform
      [.folder (lit "News") [.feed (lit "Planet") (lit "http://p/")]] :=
    faithfulBehind_folder_iff.2 ⟨hnews, List.cons_ne_nil _ _, .nil _⟩
  have hgroups : groups (allAsWritten newsForest.items) =
      [[.folder (lit "News") [.feed (lit "Planet") (lit "http://p/")]],
        [.feed (lit "Planet") (lit "http://p/")]] := groups_news
  rw [hgroups]
  exact List.forall_mem_cons.2 ⟨hfolder, List.forall_mem_cons.2 ⟨hfeed, nofun⟩⟩

/-- The empty folder on its own. -/
def emptyForest : ExportedForest asciiPlatform newsRows newsFeeds where
  aFolderItemIDs := [3]
  items := [.folder 1 (lit "Later") []]
  stored := ⟨⟨_, rfl, rfl, rfl, rfl, trivial⟩, trivial⟩
  ne_nil := List.cons_ne_nil _ _
  titles := by
    simp only [groups, allAsWritten, asWritten, groupsBelow, groupsOf, List.append_nil,
      List.forall_mem_cons, FeedItem.title]
    exact ⟨⟨by decide, nofun⟩, nofun, nofun⟩
  proper := by
    simp only [groups, allAsWritten, asWritten, groupsBelow, groupsOf, List.append_nil,
      List.forall_mem_cons, Proper, FeedItem.title]
    exact ⟨⟨⟨by decide, nofun⟩, nofun⟩, nofun, nofun⟩
  distinct := by
    simp only [groups, allAsWritten, asWritten, groupsBelow, groupsOf, List.append_nil,
      List.forall_mem_cons]
    exact ⟨List.nodup_nil, List.nodup_nil, nofun⟩

/-- It comes back as a feed. -/
theorem not_roundTrips_iff_faithful :
    ¬ ∀ (xml : XmlLibrary) (depth : Nat) (aImportRootFolder : Text)
      (forest : ExportedForest asciiPlatform newsRows newsFeeds), aImportRootFolder ≠ [] →
      nestingOfAll (allAsWritten forest.items) ≤ depth →
        RoundTrips xml depth aImportRootFolder forest := by
  intro h
  have hdepth : nestingOfAll (allAsWritten emptyForest.items) ≤ 1 := Nat.le_refl 1
  have hround := h documents 1 (lit "feeds.opml") emptyForest (List.cons_ne_nil _ _) hdepth
  have himported :=
    (roundTrips_iff_imported documents emptyForest (List.cons_ne_nil _ _) hdepth).1 hround
  have hwritten : allAsWritten emptyForest.items = [.folder (lit "Later") []] := rfl
  have harranged : allArranged emptyForest.items = [.folder (lit "Later") []] := by
    simp [emptyForest, allArranged, arranged, ranked]
  rw [hwritten, harranged] at himported
  obtain ⟨itemUrl, tail, -, htail, heq⟩ := (imported_feed_iff rfl).1 himported
  rw [imported] at htail
  obtain rfl := Except.ok.inj htail
  split_ifs at heq
  cases (List.cons.inj heq).1

end SymbianWeb.Feeds
