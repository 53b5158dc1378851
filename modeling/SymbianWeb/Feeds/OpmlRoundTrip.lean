import SymbianWeb.Feeds.OpmlTrees
import Mathlib.Data.List.Sort

/-!
# Which trees come back from OPML

Whatever the parser changes makes a tree lighter (`weight_imported`), and the order
of siblings does not change its weight. So an exported tree comes back exactly
when nothing is changed and the rows are in sibling order (`roundTrips_iff`).
-/

set_option autoImplicit false

namespace SymbianWeb.Feeds

open XmlContent

/-! ## Weights -/

mutual

/-- The texts of an item, one more for each feed and two for each folder. -/
def weight : FeedItem → Nat
  | .feed title url => title.length + url.length + 1
  | .folder title children => title.length + weightOfAll children + 2

def weightOfAll : List FeedItem → Nat
  | [] => 0
  | item :: rest => weight item + weightOfAll rest

end

theorem weightOfAll_eq_sum (items : List FeedItem) : weightOfAll items = (items.map weight).sum := by
  induction items with
  | nil => rfl
  | cons item rest ih => rw [weightOfAll, ih, List.map_cons, List.sum_cons]

mutual

/-- The order of siblings does not matter for the weight. -/
theorem weight_arranged : ∀ item : StoredItem, weight (arranged item) = weight (asWritten item)
  | .feed _ _ _ => rfl
  | .folder _ title children => by
    have hperm := List.mergeSort_perm (ranked children) (fun a b => a.1 ≤ b.1)
    have hsum := ((hperm.map (·.2)).map weight).sum_eq
    rw [arranged, asWritten, weight, weight, weightOfAll_eq_sum, hsum, ← weightOfAll_eq_sum,
      weight_ranked children]

theorem weight_ranked : ∀ items : List StoredItem,
    weightOfAll ((ranked items).map (·.2)) = weightOfAll (allAsWritten items)
  | [] => rfl
  | item :: rest => by
    rw [ranked, List.map_cons, allAsWritten, weightOfAll, weightOfAll, weight_arranged item,
      weight_ranked rest]

end

/-- The forest with all children in sibling order. -/
def allArranged (items : List StoredItem) : List FeedItem := items.map arranged

theorem weight_allArranged (items : List StoredItem) :
    weightOfAll (allArranged items) = weightOfAll (allAsWritten items) := by
  rw [← weight_ranked]
  induction items with
  | nil => rfl
  | cons item rest ih =>
    rw [allArranged, List.map_cons, ranked, List.map_cons, weightOfAll, weightOfAll, ← allArranged,
      ih]

/-! ## What the parser does to the texts -/

theorem cString_eq_or_shorter (t : Text) : cString t = t ∨ (cString t).length < t.length := by
  have hpre := List.takeWhile_prefix (· ≠ (0 : UInt16)) (l := t)
  rcases Nat.lt_or_eq_of_le hpre.length_le with hlt | heq
  · exact .inr hlt
  · exact .inl (hpre.eq_of_length heq)

theorem cString_eq_self_iff (t : Text) : cString t = t ↔ 0 ∉ t := by
  unfold cString
  rw [List.takeWhile_eq_self_iff]
  constructor
  · intro h hmem
    simpa using h 0 hmem
  · intro h c hc
    simp only [ne_eq, decide_eq_true_eq]
    rintro rfl
    exact h hc

section

variable {p : Platform}

theorem importedTitle_eq_or_shorter (title : Text) :
    importedTitle p title = title ∨ (importedTitle p title).length < title.length := by
  have hlength := length_trim_le (p := p) (cString title)
  rcases cString_eq_or_shorter title with hsame | hshorter
  · rw [importedTitle, hsame]
    exact trim_eq_or_shorter title
  · right
    rw [importedTitle]
    omega

theorem importedTitle_eq_self_iff {title : Text} (htrim : trim p title = title) :
    importedTitle p title = title ↔ 0 ∉ title := by
  rw [← cString_eq_self_iff]
  constructor
  · intro h
    rcases cString_eq_or_shorter title with hsame | hshorter
    · exact hsame
    · have hlength := length_trim_le (p := p) (cString title)
      rw [importedTitle] at h
      rw [h] at hlength
      omega
  · intro h
    rw [importedTitle, h, htrim]

theorem importedUrl_eq_or_shorter {url u : Text} (h : importedUrl p url = .ok u) :
    u = url ∨ u.length < url.length := by
  unfold importedUrl at h
  cases hclean : cleanupUrlL p (cString url) with
  | error e =>
    rw [hclean] at h
    cases h
  | ok c =>
    rw [hclean] at h
    obtain rfl := Except.ok.inj h
    have hlength := length_trim_le (p := p) c
    have htrim := trim_eq_or_shorter (p := p) c
    have hc := cleanupUrlL_shorter hclean
    rcases cString_eq_or_shorter url with hsame | hshorter
    · rw [hsame] at hc
      rcases hc with rfl | hc
      · exact htrim
      · exact .inr (by omega)
    · right
      have hle : c.length ≤ (cString url).length := by
        rcases hc with hc | hc
        · rw [hc]
        · omega
      omega

/-- An address that the parser leaves alone. -/
structure UrlKept (p : Platform) (url : Text) : Prop where
  noZero : 0 ∉ url
  entityFree : EntityFree url
  decoded : p.escapeDecodeL url = .ok url
  trimmed : trim p url = url

theorem importedUrl_eq_self_iff {url : Text} : importedUrl p url = .ok url ↔ UrlKept p url := by
  constructor
  · intro h
    have hsame : cString url = url := by
      rcases cString_eq_or_shorter url with hsame | hshorter
      · exact hsame
      · unfold importedUrl at h
        cases hclean : cleanupUrlL p (cString url) with
        | error e =>
          rw [hclean] at h
          cases h
        | ok c =>
          rw [hclean] at h
          have htrim : trim p c = url := Except.ok.inj h
          have hlength := length_trim_le (p := p) c
          rw [htrim] at hlength
          have hc := cleanupUrlL_shorter hclean
          have hle : c.length ≤ (cString url).length := by
            rcases hc with hc | hc
            · rw [hc]
            · omega
          omega
    unfold importedUrl at h
    rw [hsame] at h
    cases hclean : cleanupUrlL p url with
    | error e =>
      rw [hclean] at h
      cases h
    | ok c =>
      rw [hclean] at h
      have htrim : trim p c = url := Except.ok.inj h
      have hlength := length_trim_le (p := p) c
      rw [htrim] at hlength
      rcases cleanupUrlL_shorter hclean with rfl | hshorter
      · obtain ⟨hfree, hdecode, htrimmed⟩ := cleanupUrlL_eq_self_iff.1 hclean
        exact ⟨(cString_eq_self_iff c).1 hsame, hfree, hdecode, htrimmed⟩
      · omega
  · rintro ⟨hzero, hfree, hdecode, htrim⟩
    unfold importedUrl
    rw [(cString_eq_self_iff url).2 hzero,
      cleanupUrlL_eq_self_iff.2 ⟨hfree, hdecode, htrim⟩]
    exact congrArg Except.ok htrim

mutual

theorem weight_importedFolder : ∀ {item : FeedItem} {title : Text} {children read : List FeedItem},
    item = .folder title children → importedFolder p item = .ok read →
    read = children ∨ weightOfAll read < weightOfAll children
  | .feed _ _, _, _, _, h, _ => by cases h
  | .folder _ _, _, _, _, h, hread => by
    obtain ⟨rfl, rfl⟩ := FeedItem.folder.inj h
    rw [importedFolder] at hread
    exact weight_imported hread

/-- What the parser makes of items is lighter, or it is the items. -/
theorem weight_imported : ∀ {items : List FeedItem} {titleArray : List Text} {urls : Option Text}
    {read : List FeedItem}, imported p titleArray urls items = .ok read →
    read = items ∨ weightOfAll read < weightOfAll items
  | [], titleArray, urls, read, h => by
    rw [imported] at h
    exact .inl (Except.ok.inj h).symm
  | item :: rest, titleArray, urls, read, h => by
    have htitle := importedTitle_eq_or_shorter (p := p) item.title
    cases hurl : item.urlAsFeed with
    | none =>
      obtain ⟨children, tail, hfolder, hrest, rfl⟩ := (imported_folder_iff hurl).1 h
      cases item with
      | feed title url => cases hurl
      | folder title cs =>
        have hcs := weight_importedFolder rfl hfolder
        have htail := weight_imported hrest
        simp only [FeedItem.title, weightOfAll, weight] at htitle ⊢
        rcases htitle with htitle | htitle <;> rcases hcs with rfl | hcs <;>
          rcases htail with rfl | htail
        · rw [htitle]
          exact .inl rfl
        all_goals
          right
          try rw [htitle]
          omega
    | some url =>
      obtain ⟨itemUrl, tail, hread, hrest, rfl⟩ := (imported_feed_iff hurl).1 h
      have hitem := importedUrl_eq_or_shorter hread
      have htail := weight_imported hrest
      -- A feed that is left out, and a folder that has become a feed, make the list lighter.
      split_ifs with hadded
      · cases item with
        | feed title url' =>
          obtain rfl := Option.some.inj hurl
          simp only [FeedItem.title, weightOfAll, weight] at htitle ⊢
          rcases htitle with htitle | htitle <;> rcases hitem with rfl | hitem <;>
            rcases htail with rfl | htail
          · rw [htitle]
            exact .inl rfl
          all_goals
            right
            try rw [htitle]
            omega
        | folder title cs =>
          cases cs with
          | cons c cs => cases hurl
          | nil =>
            obtain rfl := Option.some.inj hurl
            right
            have hlength : itemUrl.length ≤ 0 := by
              rcases hitem with rfl | hitem
              · exact Nat.le_refl 0
              · exact absurd hitem (Nat.not_lt_zero _)
            have hshort : (importedTitle p title).length ≤ title.length := by
              rcases htitle with htitle | htitle
              · exact (congrArg List.length htitle).le
              · exact htitle.le
            have hle : weightOfAll tail ≤ weightOfAll rest := by
              rcases htail with rfl | htail
              · exact Nat.le_refl _
              · exact htail.le
            simp only [FeedItem.title, weightOfAll, weight]
            omega
      · right
        have hpos : 0 < weight item := by
          cases item <;> rw [weight] <;> omega
        rw [weightOfAll]
        rcases htail with rfl | htail <;> omega

end

/-- A list that is read without its first item is not the whole list. -/
theorem imported_ne_cons {titleArray : List Text} {urls : Option Text} {item : FeedItem}
    {rest : List FeedItem} : imported p titleArray urls rest ≠ .ok (item :: rest) := by
  intro h
  have hpos : 0 < weight item := by
    cases item <;> rw [weight] <;> omega
  rcases weight_imported h with hsame | hlighter
  · exact absurd (congrArg List.length hsame) (by simp)
  · rw [weightOfAll] at hlighter
    omega

/-! ## What is found in the joined string -/

/-- What stands between the commas of a text. -/
def pieces (t : Text) : List Text :=
  match _h : splitFirst kComma t with
  | none => [t]
  | some (front, back) => front :: pieces back
termination_by t.length
decreasing_by
  have hcomma : kComma.length = 3 := rfl
  rw [splitFirst_eq _h, List.length_append, List.length_append]
  omega

/-- The feeds of a folder as they are joined. -/
def joinFeeds (feeds : List (Text × Text)) : Option Text :=
  feeds.foldl (fun urls feed => some (appendFeedUrl urls feed.1 feed.2)) none

theorem joinFeeds_append (feeds : List (Text × Text)) (title url : Text) :
    joinFeeds (feeds ++ [(title, url)]) = some (appendFeedUrl (joinFeeds feeds) title url) := by
  rw [joinFeeds, List.foldl_append]
  rfl

omit p in
theorem searchURLFrom_iff (temp key : Text) : searchURLFrom temp key = true ↔ key ∈ pieces temp := by
  fun_induction searchURLFrom temp key with
  | case1 temp hnone =>
    unfold pieces
    split
    · rw [List.mem_singleton, beq_iff_eq, eq_comm]
    · rename_i hsome
      rw [hnone] at hsome
      cases hsome
  | case2 temp curURL rest hsome hcur =>
    unfold pieces
    split
    · rename_i hnone
      rw [hsome] at hnone
      cases hnone
    · rename_i front back hsplit
      obtain ⟨rfl, rfl⟩ := Prod.mk.inj (Option.some.inj (hsome.symm.trans hsplit))
      simp [beq_iff_eq.1 hcur]
  | case3 temp curURL rest hsome hcur ih =>
    unfold pieces
    split
    · rename_i hnone
      rw [hsome] at hnone
      cases hnone
    · rename_i front back hsplit
      obtain ⟨rfl, rfl⟩ := Prod.mk.inj (Option.some.inj (hsome.symm.trans hsplit))
      rw [ih, List.mem_cons, or_iff_right]
      rintro rfl
      exact hcur (beq_self_eq_true _)

/-- A feed is told apart from the ones in front of it. -/
def ToldApart (front : List (Text × Text)) (title url : Text) : Prop :=
  title ∈ front.map (·.1) → ∀ urls, joinFeeds front = some urls → titleAndUrl title url ∉ pieces urls

/-- A feed with an address that is not too long is added when it is told apart. -/
theorem isAdded_iff {front : List (Text × Text)} {title url : Text}
    (hlength : url.length ≤ kMaxURLLength) :
    isAdded (front.map (·.1)) (joinFeeds front) title url = true ↔ ToldApart front title url := by
  unfold isAdded ToldApart
  cases hjoin : joinFeeds front with
  | none => simp [searchURLInCurrentFolderL, hlength]
  | some urls =>
    have hall : (∀ urls', some urls = some urls' → titleAndUrl title url ∉ pieces urls') ↔
        ¬ searchURLFrom urls (titleAndUrl title url) = true := by
      rw [searchURLFrom_iff]
      refine ⟨fun h => h urls rfl, ?_⟩
      rintro h urls' heq
      exact Option.some.inj heq ▸ h
    rw [hall]
    simp [searchURLInCurrentFolderL, hlength, imp_iff_not_or]

/-! ## Groups of siblings that come back -/

/-- Siblings that the parser leaves alone, behind the feeds `front`. -/
structure FaithfulBehind (p : Platform) (front : List (Text × Text)) (group : List FeedItem) :
    Prop where
  notEmpty : ∀ title, .folder title [] ∉ group
  titles : ∀ item ∈ group, 0 ∉ item.title
  urls : ∀ title url, .feed title url ∈ group → UrlKept p url
  toldApart : ∀ more title url back, feedsOf group = more ++ (title, url) :: back →
    ToldApart (front ++ more) title url

/-- Siblings that the parser leaves alone. -/
def Faithful (p : Platform) (group : List FeedItem) : Prop := FaithfulBehind p [] group

/-- Titles that are trimmed and addresses that are not too long. -/
def Proper (p : Platform) (group : List FeedItem) : Prop :=
  ∀ item ∈ group, trim p item.title = item.title ∧
    ∀ title url, item = .feed title url → url.length ≤ kMaxURLLength

theorem FaithfulBehind.nil (front : List (Text × Text)) : FaithfulBehind p front [] :=
  ⟨fun _ => List.not_mem_nil, fun _ h => absurd h List.not_mem_nil,
    fun _ _ h => absurd h List.not_mem_nil, fun more _ _ _ h => by
      cases more <;> cases h⟩

theorem faithfulBehind_feed_iff {front : List (Text × Text)} {title url : Text}
    {rest : List FeedItem} :
    FaithfulBehind p front (.feed title url :: rest) ↔
      0 ∉ title ∧ UrlKept p url ∧ ToldApart front title url ∧
        FaithfulBehind p (front ++ [(title, url)]) rest := by
  constructor
  · intro h
    refine ⟨h.titles _ List.mem_cons_self, h.urls _ _ List.mem_cons_self, ?_, ?_⟩
    · have := h.toldApart [] title url (feedsOf rest) rfl
      rwa [List.append_nil] at this
    · refine ⟨fun t ht => h.notEmpty t (List.mem_cons_of_mem _ ht),
        fun i hi => h.titles i (List.mem_cons_of_mem _ hi),
        fun t u hi => h.urls t u (List.mem_cons_of_mem _ hi), fun more t u back hfeeds => ?_⟩
      have := h.toldApart ((title, url) :: more) t u back (by rw [feedsOf, hfeeds]; rfl)
      rwa [List.append_assoc, List.singleton_append]
  · rintro ⟨htitle, hurl, htold, hrest⟩
    refine ⟨?_, ?_, ?_, ?_⟩
    · intro t ht
      rcases List.mem_cons.1 ht with ht | ht
      · cases ht
      · exact hrest.notEmpty t ht
    · intro i hi
      rcases List.mem_cons.1 hi with rfl | hi
      · exact htitle
      · exact hrest.titles i hi
    · intro t u hi
      rcases List.mem_cons.1 hi with hi | hi
      · obtain ⟨rfl, rfl⟩ := FeedItem.feed.inj hi
        exact hurl
      · exact hrest.urls t u hi
    · intro more t u back hfeeds
      rw [feedsOf] at hfeeds
      cases more with
      | nil =>
        obtain ⟨hhead, -⟩ := List.cons.inj hfeeds
        obtain ⟨rfl, rfl⟩ := Prod.mk.inj hhead
        rwa [List.append_nil]
      | cons f more =>
        obtain ⟨rfl, htail⟩ := List.cons.inj hfeeds
        have := hrest.toldApart more t u back htail
        rwa [List.append_assoc, List.singleton_append] at this

theorem faithfulBehind_folder_iff {front : List (Text × Text)} {title : Text}
    {children rest : List FeedItem} :
    FaithfulBehind p front (.folder title children :: rest) ↔
      0 ∉ title ∧ children ≠ [] ∧ FaithfulBehind p front rest := by
  constructor
  · intro h
    refine ⟨h.titles _ List.mem_cons_self, ?_, ?_⟩
    · rintro rfl
      exact h.notEmpty title List.mem_cons_self
    · exact ⟨fun t ht => h.notEmpty t (List.mem_cons_of_mem _ ht),
        fun i hi => h.titles i (List.mem_cons_of_mem _ hi),
        fun t u hi => h.urls t u (List.mem_cons_of_mem _ hi),
        fun more t u back hfeeds => h.toldApart more t u back hfeeds⟩
  · rintro ⟨htitle, hne, hrest⟩
    refine ⟨?_, ?_, ?_, fun more t u back hfeeds => hrest.toldApart more t u back hfeeds⟩
    · intro t ht
      rcases List.mem_cons.1 ht with ht | ht
      · exact hne (FeedItem.folder.inj ht).2.symm
      · exact hrest.notEmpty t ht
    · intro i hi
      rcases List.mem_cons.1 hi with rfl | hi
      · exact htitle
      · exact hrest.titles i hi
    · intro t u hi
      rcases List.mem_cons.1 hi with hi | hi
      · cases hi
      · exact hrest.urls t u hi

theorem Proper.tail {item : FeedItem} {rest : List FeedItem} (h : Proper p (item :: rest)) :
    Proper p rest := fun i hi => h i (List.mem_cons_of_mem _ hi)

/-- All of `groupsBelow` for a list with a head. -/
theorem forall_groupsBelow_cons {P : List FeedItem → Prop} {item : FeedItem} {rest : List FeedItem} :
    (∀ group ∈ groupsBelow (item :: rest), P group) ↔
      (∀ group ∈ groupsOf item, P group) ∧ ∀ group ∈ groupsBelow rest, P group := by
  rw [groupsBelow]
  exact List.forall_mem_append

theorem forall_groupsOf_folder {P : List FeedItem → Prop} {title : Text} {children : List FeedItem} :
    (∀ group ∈ groupsOf (.folder title children), P group) ↔
      P children ∧ ∀ group ∈ groupsBelow children, P group := by
  rw [groupsOf]
  exact List.forall_mem_cons

mutual

theorem importedFolder_eq_self_iff : ∀ {item : FeedItem} {title : Text} {children : List FeedItem},
    item = .folder title children → Proper p children →
    (∀ group ∈ groupsBelow children, Proper p group) →
    (importedFolder p item = .ok children ↔
      Faithful p children ∧ ∀ group ∈ groupsBelow children, Faithful p group)
  | .feed _ _, _, _, h, _, _ => by cases h
  | .folder _ _, _, _, h, hproper, hbelow => by
    obtain ⟨rfl, rfl⟩ := FeedItem.folder.inj h
    rw [importedFolder]
    exact @imported_eq_self_iff _ [] hproper hbelow

/-- The parser leaves items alone exactly when all groups of siblings are faithful. -/
theorem imported_eq_self_iff : ∀ {items : List FeedItem} {front : List (Text × Text)},
    Proper p items → (∀ group ∈ groupsBelow items, Proper p group) →
    (imported p (front.map (·.1)) (joinFeeds front) items = .ok items ↔
      FaithfulBehind p front items ∧ ∀ group ∈ groupsBelow items, Faithful p group)
  | [], front, _, _ => by
    simp [imported, groupsBelow, FaithfulBehind.nil]
  | .feed title url :: rest, front, hproper, hbelow => by
    have htrim : trim p title = title := (hproper _ List.mem_cons_self).1
    have hadded : isAdded (front.map (·.1)) (joinFeeds front) title url = true ↔
        ToldApart front title url :=
      isAdded_iff ((hproper _ List.mem_cons_self).2 title url rfl)
    have ih := @imported_eq_self_iff _ (front ++ [(title, url)]) hproper.tail
      (forall_groupsBelow_cons.1 hbelow).2
    rw [joinFeeds_append, List.map_append] at ih
    have hgroups : (∀ group ∈ groupsOf (.feed title url), Faithful p group) ↔ True := by
      simp [groupsOf]
    rw [forall_groupsBelow_cons, hgroups, true_and, faithfulBehind_feed_iff, and_assoc, and_assoc,
      and_assoc, ← ih, ← importedTitle_eq_self_iff htrim, ← importedUrl_eq_self_iff, ← hadded,
      imported_feed_iff (rfl : (FeedItem.feed title url).urlAsFeed = some url)]
    constructor
    · rintro ⟨itemUrl, tail, hread, hrest, heq⟩
      -- The list that is read begins with the feed, so that the feed was added.
      split_ifs at heq with hadd
      · obtain ⟨hhead, rfl⟩ := List.cons.inj heq
        obtain ⟨htitle, rfl⟩ := FeedItem.feed.inj hhead
        simp only [FeedItem.title] at htitle hadd hrest
        rw [← htitle] at hadd hrest
        exact ⟨htitle.symm, hread, hadd, hrest⟩
      · rw [← heq] at hrest
        exact absurd hrest imported_ne_cons
    · rintro ⟨htitle, hurl, hadd, hrest⟩
      refine ⟨url, rest, hurl, ?_, ?_⟩
      · rw [FeedItem.title, htitle]
        exact hrest
      · rw [FeedItem.title, htitle, if_pos hadd]
  | .folder title [] :: rest, front, hproper, hbelow => by
    rw [imported_feed_iff (rfl : (FeedItem.folder title []).urlAsFeed = some _)]
    constructor
    · rintro ⟨itemUrl, tail, -, hrest, heq⟩
      split_ifs at heq with hadd
      · cases (List.cons.inj heq).1
      · rw [← heq] at hrest
        exact absurd hrest imported_ne_cons
    · rintro ⟨h, -⟩
      exact absurd rfl (faithfulBehind_folder_iff.1 h).2.1
  | .folder title (c :: cs) :: rest, front, hproper, hbelow => by
    have htrim : trim p title = title := (hproper _ List.mem_cons_self).1
    obtain ⟨hhere, hthere⟩ := forall_groupsBelow_cons.1 hbelow
    obtain ⟨hchildren, hdeeper⟩ := forall_groupsOf_folder.1 hhere
    have ihfolder := @importedFolder_eq_self_iff _ title _ rfl hchildren hdeeper
    have ihrest := @imported_eq_self_iff _ front hproper.tail hthere
    rw [forall_groupsBelow_cons, forall_groupsOf_folder, ← ihfolder, faithfulBehind_folder_iff,
      ← importedTitle_eq_self_iff htrim,
      imported_folder_iff (rfl : (FeedItem.folder title (c :: cs)).urlAsFeed = none)]
    constructor
    · rintro ⟨children, tail, hfolder, hrest, heq⟩
      obtain ⟨hhead, rfl⟩ := List.cons.inj heq
      obtain ⟨htitle, rfl⟩ := FeedItem.folder.inj hhead
      obtain ⟨hbehind, hgroups⟩ := ihrest.1 hrest
      exact ⟨⟨htitle.symm, List.cons_ne_nil _ _, hbehind⟩, hfolder, hgroups⟩
    · rintro ⟨⟨htitle, -, hbehind⟩, hfolder, hgroups⟩
      refine ⟨c :: cs, rest, hfolder, ihrest.2 ⟨hbehind, hgroups⟩, ?_⟩
      rw [FeedItem.title, htitle]

end

end

end SymbianWeb.Feeds
