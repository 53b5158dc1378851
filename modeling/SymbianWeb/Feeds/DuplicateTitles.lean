import Mathlib.Order.Bounds.Basic
import SymbianWeb.Favourites.GeneratedNames
import SymbianWeb.Feeds.FeedsTables

/-!
# Titles that are taken

A new item gets the title it is given, or this title and the least number that is free if another
item of the folder has it. The numbers that are taken are read from the titles that a pattern query
finds, each from its first parenthesis on, whatever stands before it. So another title with a number
at its end counts as well, and a title with a parenthesis of its own does not count
(`storesRight_iff`).
-/

set_option autoImplicit false

namespace SymbianWeb.Feeds

open XmlContent (Text lit)
open Favourites.Store hiding Text

/-! ## The title of a new item -/

/-- `KResvSpaceForDupTitles`. -/
def kResvSpaceForDupTitles : Nat := 6

/-- `GetDuplicateFolderCounter`. -/
def getDuplicateFolderCounter (aFolderToBeAdded aFolderTitle : Text) : Option Int :=
  if aFolderToBeAdded = aFolderTitle then some 0
  else
    match aFolderTitle.dropWhile (· ≠ openPar) with
    | [] => none
    | _ :: number =>
      match lexVal number with
      | none => none
      | some aCounterVal =>
        -- What is left to the lexer begins behind the digits.
        if (withoutSign number).dropWhile isDigit = [closePar] then some aCounterVal else none

/-- The search for a free number, which ends before the fuel if there is enough. -/
def freePostfixVal (folderPostfixArray : List Int) : Nat → Nat → Nat
  | 0, postfixVal => postfixVal
  | fuel + 1, postfixVal =>
    if (postfixVal : Int) ∈ folderPostfixArray then
      freePostfixVal folderPostfixArray fuel (postfixVal + 1)
    else postfixVal

/-- `KFolderNameFormat`. -/
def folderNameFormat (aTitle : Text) (postfixVal : Nat) : Text :=
  parenthesised (aTitle ++ [32]) (decimal postfixVal)

section

variable (rules : CharRules)

/-- The items with a title like the one that is given. -/
def titleView (rows : List FolderListRow) (aFolderListId : Int) (aParentEntryId : UInt16)
    (aTitle : Text) : List FolderListRow :=
  rows.filter fun row => row.folderListId = aFolderListId ∧ row.parentId = aParentEntryId ∧
    like rules (aTitle ++ [star]) row.title

/-- `GenerateNewFeedFolderTitleL`. A title that does not fit the buffer is a panic. -/
def generateNewFeedFolderTitleL (rows : List FolderListRow) (aFolderListId : Int)
    (aParentEntryId : UInt16) (aTitle : Text) : Option Text :=
  let view := titleView rules rows aFolderListId aParentEntryId aTitle
  if view = [] then some aTitle
  else
    let folderPostfixArray := view.filterMap fun row => getDuplicateFolderCounter aTitle row.title
    let length := folderPostfixArray.length
    if length = 0 then some aTitle
    else
      let title := folderNameFormat aTitle (freePostfixVal folderPostfixArray length 1)
      if title.length ≤ k100MaxLen then some title else none

/-- `ValidateFeedFolderTitleL`, with the new title if the item can be added. -/
def validateFeedFolderTitleL (rows : List FolderListRow) (aFolderListId : Int)
    (aParentEntryId : UInt16) (aTitle : Text) : Option (Option Text) :=
  if aTitle.length = 0 then some none
  else (generateNewFeedFolderTitleL rules rows aFolderListId aParentEntryId aTitle).map some

end

/-- The title without apostrophes, and with room for a number. -/
def safeTitle (aTitle : Text) : Text :=
  (aTitle.filter (· ≠ 39)).take (k100MaxLen - kResvSpaceForDupTitles)

/-! ## The helper -/

/-- The tables of items and feeds. -/
structure FolderTables where
  folderList : List FolderListRow
  feeds : List FeedRow
  deriving DecidableEq, Repr

/-- What a call gives for a new item, and the ids that are drawn for it. -/
structure NewItem where
  aFolderListId : Int
  aTitle : Text
  aUrl : Text
  aIsFolder : Bool
  aSiblingIndex : Nat
  aParentEntryId : UInt16
  aOutFolderId : UInt16
  nextFeedId : UInt16
  aFreq : Int

/-- `CommitFeedL` of a new feed. -/
def commitFeedL (item : NewItem) (title : Text) : FeedRow where
  folderListId := item.aFolderListId
  feedId := item.nextFeedId
  date := 0
  title := title
  feedUrl := item.aUrl
  description := []
  webUrl := []
  unreadCount := 0
  autoUpdateFreq := item.aFreq

/-- `CommitFolderListL`. -/
def commitFolderListL (item : NewItem) (title : Text) : FolderListRow where
  folderListId := item.aFolderListId
  folderItemId := item.aOutFolderId
  parentId := item.aParentEntryId
  siblingOrder := item.aSiblingIndex
  isFolder := item.aIsFolder
  feedId := if item.aIsFolder then 0 else item.nextFeedId
  title := title
  status := 0

/-- The tables with a new item of a title. -/
def FolderTables.store (tables : FolderTables) (item : NewItem) (title : Text) : FolderTables where
  folderList := tables.folderList ++ [commitFolderListL item title]
  feeds := if item.aIsFolder then tables.feeds else tables.feeds ++ [commitFeedL item title]

/-- `FolderItemAddHelperL`. -/
def folderItemAddHelperL (rules : CharRules) (tables : FolderTables) (item : NewItem) :
    Option FolderTables :=
  (validateFeedFolderTitleL rules tables.folderList item.aFolderListId item.aParentEntryId
    (safeTitle item.aTitle)).map fun
    | none => tables
    | some newTitle => tables.store item newTitle

/-! ## What is meant -/

/-- The other items of the folder. -/
def IsSibling (item : NewItem) (row : FolderListRow) : Prop :=
  row.folderListId = item.aFolderListId ∧ row.parentId = item.aParentEntryId

/-- The numbers that no item of the folder uses. -/
def unusedNumbers (rows : List FolderListRow) (item : NewItem) : Set Nat :=
  {n | 1 ≤ n ∧ ∀ row ∈ rows, IsSibling item row →
    row.title ≠ folderNameFormat (safeTitle item.aTitle) n}

/-- An item of the folder has the title. -/
def Taken (rows : List FolderListRow) (item : NewItem) : Prop :=
  ∃ row ∈ rows, IsSibling item row ∧ row.title = safeTitle item.aTitle

/-- The title fits, no other item has it, and it is the one that is given or the one with the least
number that is free. -/
structure TitleRight (rows : List FolderListRow) (item : NewItem) (title : Text) : Prop where
  fits : title.length ≤ k100MaxLen
  fresh : ∀ row ∈ rows, IsSibling item row → row.title ≠ title
  given : ¬ Taken rows item → title = safeTitle item.aTitle
  numbered : Taken rows item → ∃ n, IsLeast (unusedNumbers rows item) n ∧
    title = folderNameFormat (safeTitle item.aTitle) n

/-- An item is stored with the right title, unless nothing is left of the title. -/
def StoresRight (rules : CharRules) (tables : FolderTables) (item : NewItem) : Prop :=
  safeTitle item.aTitle ≠ [] → ∃ title,
    folderItemAddHelperL rules tables item = some (tables.store item title) ∧
      TitleRight tables.folderList item title

/-- From its first parenthesis on, a title is a number in parentheses. -/
def HasCounter (title : Text) (n : Int) : Prop :=
  ∃ front inner, title = parenthesised front inner ∧ openPar ∉ front ∧ IntegerText inner n

/-- An item of the folder has another title, which the query finds, with the number. -/
def Counts (rules : CharRules) (rows : List FolderListRow) (item : NewItem) (n : Int) : Prop :=
  ∃ row ∈ rows, IsSibling item row ∧ like rules (safeTitle item.aTitle ++ [star]) row.title ∧
    row.title ≠ safeTitle item.aTitle ∧ HasCounter row.title n

/-- Where the title is free, no number is found; where it is taken, the least number that is free
fits, and up to it the numbers that are found are those that are used. -/
structure CountersRight (rules : CharRules) (rows : List FolderListRow) (item : NewItem) :
    Prop where
  given : ¬ Taken rows item → ∀ n, ¬ Counts rules rows item n
  numbered : Taken rows item → ∀ n, IsLeast (unusedNumbers rows item) n →
    (folderNameFormat (safeTitle item.aTitle) n).length ≤ k100MaxLen ∧
      ¬ Counts rules rows item n ∧ ∀ k, 1 ≤ k → k < n → Counts rules rows item k

/-! ## The number in a title -/

section

variable {t inner : Text} {n : Int}

theorem digitsValue_append_closePar (t : Text) :
    ∀ acc, digitsValue acc (t ++ [closePar]) = digitsValue acc t := by
  induction t with
  | nil => exact fun _ => rfl
  | cons c t ih =>
    intro acc
    rw [List.cons_append, digitsValue, digitsValue]
    split
    · exact ih _
    · rfl

theorem withoutSign_append_closePar (t : Text) :
    withoutSign (t ++ [closePar]) = withoutSign t ++ [closePar] := by
  cases t with
  | nil => rfl
  | cons c t =>
    rw [withoutSign, withoutSign, List.cons_append, List.head?_cons, List.head?_cons]
    split <;> rfl

/-- A number is read from what stands behind its sign. -/
theorem lexVal_eq (t : Text) : lexVal t =
    if ((withoutSign t).head?.map isDigit).getD false then
      let v : Int := if t.head? = some 45 then - (digitsValue 0 (withoutSign t) : Int)
        else digitsValue 0 (withoutSign t)
      if -2147483648 ≤ v ∧ v < 2147483648 then some v else none
    else none := rfl

/-- The parenthesis behind a number does not change it. -/
theorem lexVal_append_closePar (t : Text) : lexVal (t ++ [closePar]) = lexVal t := by
  have hsign : (t ++ [closePar]).head? = some 45 ↔ t.head? = some 45 := by
    cases t with
    | nil => decide
    | cons c t => exact Iff.rfl
  have hdigit : ∀ u : Text, ((u ++ [closePar]).head?.map isDigit).getD false =
      (u.head?.map isDigit).getD false := by
    intro u
    cases u with
    | nil => rfl
    | cons c u => rfl
  rw [lexVal_eq, lexVal_eq, withoutSign_append_closePar, hdigit, digitsValue_append_closePar]
  simp only [hsign]

theorem dropWhile_append_closePar_iff :
    (t ++ [closePar]).dropWhile isDigit = [closePar] ↔ ∀ c ∈ t, isDigit c := by
  induction t with
  | nil => simp [isDigit, closePar]
  | cons c t ih =>
    rw [List.cons_append, List.dropWhile_cons, List.forall_mem_cons]
    split
    next hdigit => rw [ih, and_iff_right hdigit]
    next hdigit =>
      refine iff_of_false (fun heq => ?_) fun h => hdigit h.1
      have hlength := congrArg List.length heq
      simp at hlength

/-- What the lexer is behind ends the title where the parentheses hold nothing but a number. -/
theorem number_iff : (∃ v, lexVal t = some v ∧ (withoutSign t).dropWhile isDigit = [closePar] ∧
    v = n) ↔ ∃ inner, t = inner ++ [closePar] ∧ IntegerText inner n := by
  constructor
  · rintro ⟨v, hval, hrest, rfl⟩
    have hsuffix : [closePar] <:+ t := by
      have hsign : withoutSign t <:+ t := by
        rw [withoutSign]
        split
        · exact List.tail_suffix t
        · exact List.suffix_rfl
      rw [← hrest]
      exact (List.dropWhile_suffix _).trans hsign
    obtain ⟨inner, rfl⟩ := hsuffix
    rw [lexVal_append_closePar] at hval
    rw [withoutSign_append_closePar, dropWhile_append_closePar_iff] at hrest
    exact ⟨inner, rfl, hval, hrest⟩
  · rintro ⟨inner, rfl, hval, hdigits⟩
    refine ⟨n, ?_, ?_, rfl⟩
    · rw [lexVal_append_closePar, hval]
    · rw [withoutSign_append_closePar, dropWhile_append_closePar_iff]
      exact hdigits

/-- A title is taken apart at its first parenthesis. -/
theorem hasCounter_iff {title : Text} : HasCounter title n ↔
    ∃ number, title.dropWhile (· ≠ openPar) = openPar :: number ∧
      ∃ inner, number = inner ++ [closePar] ∧ IntegerText inner n := by
  constructor
  · rintro ⟨front, inner, rfl, hfront, hinner⟩
    refine ⟨inner ++ [closePar], ?_, inner, rfl, hinner⟩
    rw [parenthesised, List.dropWhile_append_of_pos]
    · simp
    · intro c hmem
      rw [decide_eq_true_eq]
      rintro rfl
      exact hfront hmem
  · rintro ⟨number, hdrop, inner, rfl, hinner⟩
    refine ⟨title.takeWhile (· ≠ openPar), inner, ?_, fun hmem => ?_, hinner⟩
    · rw [parenthesised, ← hdrop, List.takeWhile_append_dropWhile]
    · simpa using List.mem_takeWhile_imp hmem

/-- What is counted of a title. -/
theorem getDuplicateFolderCounter_eq_some {added title : Text} :
    getDuplicateFolderCounter added title = some n ↔
      (added = title ∧ n = 0) ∨ (added ≠ title ∧ HasCounter title n) := by
  rw [getDuplicateFolderCounter]
  split
  next heq => simp [heq, eq_comm]
  next hne =>
    rw [or_iff_right fun h => hne h.1, and_iff_right hne, hasCounter_iff]
    cases hdrop : title.dropWhile (· ≠ openPar) with
    | nil => simp
    | cons c number =>
      have hnil : title.dropWhile (· ≠ openPar) ≠ [] := by
        rw [hdrop]
        exact List.cons_ne_nil _ _
      have hopen : c = openPar := by
        have hfirst := List.head_dropWhile_not (· ≠ openPar) hnil
        simp only [hdrop, List.head_cons] at hfirst
        simpa using hfirst
      subst hopen
      have hcases : (∃ number', openPar :: number = openPar :: number' ∧
          ∃ inner, number' = inner ++ [closePar] ∧ IntegerText inner n) ↔
          ∃ v, lexVal number = some v ∧ (withoutSign number).dropWhile isDigit = [closePar] ∧
            v = n := by
        rw [number_iff]
        simp
      rw [hcases]
      dsimp only
      cases lexVal number with
      | none => simp
      | some v => simp [and_comm]

end

/-! ## The first number that is free -/

/-- Every number from the first one to the result is in the array, and the result is not unless the
fuel has run out. -/
theorem freePostfixVal_spec (used : List Int) (fuel first : Nat) :
    first ≤ freePostfixVal used fuel first ∧ freePostfixVal used fuel first ≤ first + fuel ∧
      (∀ k, first ≤ k → k < freePostfixVal used fuel first → (k : Int) ∈ used) ∧
      ((freePostfixVal used fuel first : Int) ∈ used →
        freePostfixVal used fuel first = first + fuel) := by
  induction fuel generalizing first with
  | zero =>
    refine ⟨le_rfl, le_rfl, fun k hle hlt => ?_, fun _ => rfl⟩
    exact absurd hlt (Nat.not_lt.mpr hle)
  | succ fuel ih =>
    obtain ⟨hge, hle, hbelow, hend⟩ := ih (first + 1)
    rw [freePostfixVal]
    split
    next hmem =>
      refine ⟨by omega, by omega, fun k hfirst hlt => ?_, fun hused => ?_⟩
      · rcases hfirst.eq_or_lt with rfl | hfirst
        · exact hmem
        · exact hbelow k hfirst hlt
      · rw [hend hused]
        omega
    next hfree =>
      refine ⟨le_rfl, by omega, fun k hle hlt => ?_, fun hused => absurd hused hfree⟩
      exact absurd hlt (Nat.not_lt.mpr hle)

/-- A list is too short to hold one number more than it is long. -/
theorem exists_notMem_of_length (used : List Int) (first : Nat) :
    ∃ k, first ≤ k ∧ k ≤ first + used.length ∧ (k : Int) ∉ used := by
  by_contra hall
  have hsubset : (Finset.Icc first (first + used.length)).image (fun k : Nat => (k : Int)) ⊆
      used.toFinset := by
    intro v hv
    obtain ⟨k, hk, rfl⟩ := Finset.mem_image.mp hv
    obtain ⟨hfirst, hlast⟩ := Finset.mem_Icc.mp hk
    rw [List.mem_toFinset]
    by_contra hnot
    exact hall ⟨k, hfirst, hlast, hnot⟩
  have hcard := (Finset.card_le_card hsubset).trans used.toFinset_card_le
  rw [Finset.card_image_of_injective _ Nat.cast_injective, Nat.card_Icc] at hcard
  omega

theorem freePostfixVal_isLeast (used : List Int) :
    IsLeast {n : Nat | 1 ≤ n ∧ (n : Int) ∉ used} (freePostfixVal used used.length 1) := by
  obtain ⟨hge, hle, hbelow, hend⟩ := freePostfixVal_spec used used.length 1
  have hfree : ((freePostfixVal used used.length 1 : Nat) : Int) ∉ used := by
    intro hmem
    obtain ⟨k, hfirst, hlast, hnot⟩ := exists_notMem_of_length used 1
    have hresult := hend hmem
    rcases hlast.eq_or_lt with heq | hlt
    · rw [hresult, ← heq] at hmem
      exact hnot hmem
    · exact hnot (hbelow k hfirst (hresult ▸ hlt))
  refine ⟨⟨hge, hfree⟩, fun n hn => ?_⟩
  by_contra hlt
  exact hn.2 (hbelow n hn.1 (Nat.lt_of_not_le hlt))

/-! ## Titles with numbers -/

theorem folderNameFormat_injective (title : Text) :
    Function.Injective (folderNameFormat title) := by
  intro n m heq
  have hdecimal : decimal n = decimal m :=
    List.append_cancel_right (List.cons.inj (List.append_cancel_left heq)).2
  have hvalue : ∀ k : Nat, digitsValue 0 (decimal k) = k :=
    fun k => digitsValue_decimalDigits k le_rfl
  rw [← hvalue n, hdecimal, hvalue]

theorem folderNameFormat_ne (title : Text) (n : Nat) : folderNameFormat title n ≠ title := by
  intro heq
  have hlength := congrArg List.length heq
  rw [folderNameFormat, parenthesised_length, List.length_append] at hlength
  omega

/-- A folder has not all the numbers. -/
theorem exists_isLeast_unusedNumbers (rows : List FolderListRow) (item : NewItem) :
    ∃ n, IsLeast (unusedNumbers rows item) n := by
  have hinfinite :
      (Set.range fun n : Nat => folderNameFormat (safeTitle item.aTitle) (n + 1)).Infinite :=
    Set.infinite_range_of_injective fun n m heq =>
      Nat.succ_injective (folderNameFormat_injective _ heq)
  obtain ⟨title, ⟨n, rfl⟩, hnot⟩ := hinfinite.exists_notMem_finset (rows.map (·.title)).toFinset
  have hnonempty : (unusedNumbers rows item).Nonempty := by
    refine ⟨n + 1, Nat.succ_pos n, fun row hrow _ heq => hnot ?_⟩
    rw [List.mem_toFinset]
    exact List.mem_map.mpr ⟨row, hrow, heq⟩
  exact ⟨_, Nat.sInf_mem hnonempty, fun m hm => Nat.sInf_le hm⟩

/-! ## The title that is stored -/

section

variable {rules : CharRules} {rows : List FolderListRow} {item : NewItem}

/-- The numbers that the query finds. -/
def foundNumbers (rules : CharRules) (rows : List FolderListRow) (item : NewItem) : List Int :=
  (titleView rules rows item.aFolderListId item.aParentEntryId (safeTitle item.aTitle)).filterMap
    fun row => getDuplicateFolderCounter (safeTitle item.aTitle) row.title

theorem mem_foundNumbers {n : Int} : n ∈ foundNumbers rules rows item ↔
    (n = 0 ∧ Taken rows item) ∨ Counts rules rows item n := by
  rw [foundNumbers, List.mem_filterMap]
  constructor
  · rintro ⟨row, hrow, hcounter⟩
    obtain ⟨hmem, hview⟩ := List.mem_filter.mp hrow
    obtain ⟨hlist, hparent, hlike⟩ := of_decide_eq_true hview
    rcases getDuplicateFolderCounter_eq_some.mp hcounter with ⟨heq, hzero⟩ | ⟨hne, hcounter⟩
    · exact .inl ⟨hzero, row, hmem, ⟨hlist, hparent⟩, heq.symm⟩
    · exact .inr ⟨row, hmem, ⟨hlist, hparent⟩, hlike, Ne.symm hne, hcounter⟩
  · rintro (⟨rfl, row, hmem, hsibling, heq⟩ | ⟨row, hmem, hsibling, hlike, hne, hcounter⟩)
    · refine ⟨row, List.mem_filter.mpr ⟨hmem, ?_⟩,
        getDuplicateFolderCounter_eq_some.mpr (.inl ⟨heq.symm, rfl⟩)⟩
      -- A title is like itself with a wildcard behind it.
      refine decide_eq_true ⟨hsibling.1, hsibling.2, ?_⟩
      rw [heq]
      exact like_star_of_append rules (List.append_nil _).symm
    · exact ⟨row, List.mem_filter.mpr ⟨hmem, decide_eq_true ⟨hsibling.1, hsibling.2, hlike⟩⟩,
        getDuplicateFolderCounter_eq_some.mpr (.inr ⟨Ne.symm hne, hcounter⟩)⟩

theorem mem_foundNumbers_of_pos {n : Nat} (h : 1 ≤ n) :
    (n : Int) ∈ foundNumbers rules rows item ↔ Counts rules rows item n := by
  rw [mem_foundNumbers, or_iff_right]
  rintro ⟨hzero, -⟩
  omega

theorem foundNumbers_eq_nil_iff : foundNumbers rules rows item = [] ↔
    ¬ Taken rows item ∧ ∀ n, ¬ Counts rules rows item n := by
  rw [List.eq_nil_iff_forall_not_mem]
  constructor
  · intro hnone
    exact ⟨fun htaken => hnone 0 (mem_foundNumbers.mpr (.inl ⟨rfl, htaken⟩)),
      fun n hcounts => hnone n (mem_foundNumbers.mpr (.inr hcounts))⟩
  · rintro ⟨htaken, hcounts⟩ n hmem
    rcases mem_foundNumbers.mp hmem with ⟨-, h⟩ | h
    · exact htaken h
    · exact hcounts n h

/-- The title that is generated, by the numbers that are found. -/
theorem generateNewFeedFolderTitleL_eq :
    generateNewFeedFolderTitleL rules rows item.aFolderListId item.aParentEntryId
      (safeTitle item.aTitle) =
    if foundNumbers rules rows item = [] then some (safeTitle item.aTitle)
    else
      let title := folderNameFormat (safeTitle item.aTitle)
        (freePostfixVal (foundNumbers rules rows item) (foundNumbers rules rows item).length 1)
      if title.length ≤ k100MaxLen then some title else none := by
  rw [generateNewFeedFolderTitleL]
  dsimp only
  split
  next hview =>
    have hnil : foundNumbers rules rows item = [] := by
      rw [foundNumbers, hview]
      rfl
    rw [if_pos hnil]
  next hview =>
    rw [foundNumbers]
    simp only [List.length_eq_zero_iff]

theorem store_injective (tables : FolderTables) (item : NewItem) :
    Function.Injective (tables.store item) := by
  intro title title' heq
  have hrow := List.append_cancel_left (congrArg FolderTables.folderList heq)
  exact congrArg FolderListRow.title (List.cons.inj hrow).1

theorem folderItemAddHelperL_eq {tables : FolderTables} (hne : safeTitle item.aTitle ≠ []) :
    folderItemAddHelperL rules tables item =
      (generateNewFeedFolderTitleL rules tables.folderList item.aFolderListId item.aParentEntryId
        (safeTitle item.aTitle)).map (tables.store item) := by
  have hlength : (safeTitle item.aTitle).length ≠ 0 := fun h => hne (List.length_eq_zero_iff.mp h)
  rw [folderItemAddHelperL, validateFeedFolderTitleL, if_neg hlength, Option.map_map]
  rfl

theorem safeTitle_length (title : Text) : (safeTitle title).length ≤ k100MaxLen :=
  (List.length_take_le _ _).trans (Nat.sub_le _ _)

end

/-- The stored title is right exactly where the numbers that the query finds are those that are
used. -/
theorem storesRight_iff (rules : CharRules) (tables : FolderTables) (item : NewItem) :
    StoresRight rules tables item ↔
      (safeTitle item.aTitle ≠ [] → CountersRight rules tables.folderList item) := by
  refine forall_congr' fun hne => ?_
  have hleast := freePostfixVal_isLeast (foundNumbers rules tables.folderList item)
  rw [folderItemAddHelperL_eq hne, generateNewFeedFolderTitleL_eq]
  dsimp only
  constructor
  · rintro ⟨title, hstored, hright⟩
    obtain ⟨title', hgenerated, hsame⟩ := Option.map_eq_some_iff.mp hstored
    obtain rfl := store_injective tables item hsame
    split at hgenerated
    next hnil =>
      rw [foundNumbers_eq_nil_iff] at hnil
      exact ⟨fun _ => hnil.2, fun htaken => absurd htaken hnil.1⟩
    next hsome =>
      split at hgenerated
      next hfits =>
        obtain rfl := Option.some.inj hgenerated
        refine ⟨fun hfree => absurd (hright.given hfree) (folderNameFormat_ne _ _),
          fun htaken n hn => ?_⟩
        -- The number that is found to be free is the one that is.
        obtain ⟨n', hn', htitle⟩ := hright.numbered htaken
        obtain rfl := hn.unique hn'
        rw [folderNameFormat_injective _ htitle] at hfits hleast
        refine ⟨hfits, ?_, fun k hk hlt => ?_⟩
        · rw [← mem_foundNumbers_of_pos hn.1.1]
          exact hleast.1.2
        · rw [← mem_foundNumbers_of_pos hk]
          by_contra hnot
          exact Nat.not_le.mpr hlt (hleast.2 ⟨hk, hnot⟩)
      next => cases hgenerated
  · intro hcounters
    by_cases htaken : Taken tables.folderList item
    · obtain ⟨n, hn⟩ := exists_isLeast_unusedNumbers tables.folderList item
      obtain ⟨hfits, hnot, hbelow⟩ := hcounters.numbered htaken n hn
      have hsome : foundNumbers rules tables.folderList item ≠ [] := by
        rw [Ne, foundNumbers_eq_nil_iff]
        exact fun h => h.1 htaken
      have hfirst : freePostfixVal (foundNumbers rules tables.folderList item)
          (foundNumbers rules tables.folderList item).length 1 = n := by
        refine hleast.unique ⟨⟨hn.1.1, ?_⟩, fun k hk => ?_⟩
        · rw [mem_foundNumbers_of_pos hn.1.1]
          exact hnot
        · by_contra hlt
          refine hk.2 ?_
          rw [mem_foundNumbers_of_pos hk.1]
          exact hbelow k hk.1 (Nat.lt_of_not_le hlt)
      refine ⟨folderNameFormat (safeTitle item.aTitle) n, ?_, hfits, hn.1.2,
        fun hfree => absurd htaken hfree, fun _ => ⟨n, hn, rfl⟩⟩
      rw [if_neg hsome, hfirst, if_pos hfits]
      rfl
    · have hnil : foundNumbers rules tables.folderList item = [] :=
        foundNumbers_eq_nil_iff.mpr ⟨htaken, hcounters.given htaken⟩
      refine ⟨safeTitle item.aTitle, ?_, safeTitle_length _, fun row hrow hsibling heq => ?_,
        fun _ => rfl, fun h => absurd h htaken⟩
      · rw [if_pos hnil]
        rfl
      · exact htaken ⟨row, hrow, hsibling, heq⟩

/-- A new folder in the root. -/
def newFolder (aTitle : Text) (aOutFolderId : UInt16) : NewItem where
  aFolderListId := 1
  aTitle := aTitle
  aUrl := []
  aIsFolder := true
  aSiblingIndex := 0
  aParentEntryId := kRootFolderId
  aOutFolderId := aOutFolderId
  nextFeedId := 1
  aFreq := 0

/-- The tables with a folder `Foo (1)` only. -/
def tablesFooOne : FolderTables :=
  ⟨[commitFolderListL (newFolder (lit "Foo (1)") 1) (lit "Foo (1)")], []⟩

/-- Behind a folder `Foo (1)` that was added to an empty list, a folder `Foo` gets a number. -/
theorem not_storesRight_foo :
    folderItemAddHelperL .ascii ⟨[], []⟩ (newFolder (lit "Foo (1)") 1) = some tablesFooOne ∧
      ¬ StoresRight .ascii tablesFooOne (newFolder (lit "Foo") 2) := by
  refine ⟨by decide, fun hright => ?_⟩
  obtain ⟨title, hstored, hright⟩ := hright (by decide)
  have hnumber : folderItemAddHelperL .ascii tablesFooOne (newFolder (lit "Foo") 2) =
      some (tablesFooOne.store (newFolder (lit "Foo") 2) (lit "Foo (2)")) := by decide
  rw [hnumber] at hstored
  obtain rfl := store_injective _ _ (Option.some.inj hstored)
  have hfree : ¬ Taken tablesFooOne.folderList (newFolder (lit "Foo") 2) := by
    rintro ⟨row, hrow, -, htitle⟩
    rw [List.mem_singleton.mp hrow] at htitle
    exact absurd htitle (by decide)
  exact absurd (hright.given hfree) (by decide)

end SymbianWeb.Feeds
