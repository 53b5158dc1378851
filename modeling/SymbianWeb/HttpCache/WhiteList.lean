import SymbianWeb.HttpCache.Reference
import SymbianWeb.Library.CString
import SymbianWeb.Library.Search

/-!
# The white list

`VSSCacheContent` looks for a URL in a list of domains separated by `;`. Its index moves on by two
behind each separator and its pointer by one, so that the index is ahead by the number of the
separators passed, and the loops that stop at the index stop early. The last piece is taken two
bytes longer to make up for that, which is right behind two separators.

`listed_iff` says which lists are searched right: the domains with enough bytes behind them are
(`wholeDomains`), and of what remains one piece at most is looked at (`cutPiece`).
-/

set_option autoImplicit false

namespace SymbianWeb.HttpCache

open CString Search

/-- `TUriParser8`: whether a text parses, whether two hosts differ, and the path. -/
structure UriParser where
  parses : Des8 → Bool
  compareHost : Des8 → Des8 → Int
  path : Des8 → Des8

/-- The inner loop: from `bufPtr`, which is the text that it points to, to the next separator. At
the end of the list `*bufPtr` is read before the index is compared. -/
def separatorLoop (len : Nat) : Des8 → Nat → Option (Nat × Des8)
  | [], _ => none
  | c :: bufPtr, i =>
      if c ≠ 0x3b ∧ i < len then separatorLoop len bufPtr (i + 1) else some (i, c :: bufPtr)

theorem separatorLoop_length {len i i' : Nat} {bufPtr bufPtr' : Des8}
    (h : separatorLoop len bufPtr i = some (i', bufPtr')) : i ≤ i' := by
  induction bufPtr generalizing i with
  | nil => cases h
  | cons c bufPtr ih =>
      rw [separatorLoop] at h
      split_ifs at h with hc
      · exact Nat.le_of_succ_le (ih h)
      · cases h
        exact Nat.le_refl _

section Code

variable [Platform] (uri : UriParser)

/-- `OperatorCacheContent` -/
def operatorCacheContent (aOpDomain aUrl : Des8) : Bool :=
  if uri.parses aOpDomain = true ∧ uri.parses aUrl = true then
    if uri.compareHost aOpDomain aUrl = 0 then
      let opPath := uri.path aOpDomain
      if opPath ≠ [] then
        let urlPath := uri.path aUrl
        urlPath ≠ [] &&
          findSub (opPath.map Platform.fold8) (urlPath.map Platform.fold8) = some 0
      else true
    else false
  else false

/-- The outer loop, from `startBufPtr`. A piece that reaches behind the list reads what is not
its own. -/
def whiteListLoop (aUrl : Des8) (len : Nat) (startBufPtr : Des8) (i : Nat) : Option Bool :=
  if i < len then
    match h : separatorLoop len startBufPtr i with
    | none => none
    | some (i', bufPtr) =>
        let uriLen := if i' = len then i' - i + 2 else i' - i
        if startBufPtr.length < uriLen then none
        else if operatorCacheContent uri (startBufPtr.take uriLen) aUrl then some true
        else whiteListLoop aUrl len bufPtr.tail (i' + 1 + 1)
  else some false
termination_by len - i
decreasing_by
  have hle := separatorLoop_length h
  omega

/-- `VSSCacheContent`; `none` if it reads outside of the list. -/
def vssCacheContent (aUrl : Des8) (aWhiteList : Option Des8) : Option Bool :=
  match aWhiteList with
  | some list => whiteListLoop uri aUrl list.length list 0
  | none => some false

end Code

/-! ## Lists of domains -/

/-- What stands behind a domain of the list. -/
def following (ds : List Des8) : Des8 := ds.flatMap (0x3b :: ·)

/-- The list of some domains. -/
def listed : List Des8 → Des8
  | [] => []
  | d :: ds => d ++ following ds

theorem following_cons (d : Des8) (ds : List Des8) :
    following (d :: ds) = 0x3b :: listed (d :: ds) := rfl

/-- The domains behind which there are more bytes than the separators before them. -/
def wholeDomains : Nat → List Des8 → List Des8
  | _, [] => []
  | k, d :: ds => if k < (following ds).length then d :: wholeDomains (k + 1) ds else []

/-- The domains of the list that remain. -/
def restDomains (ds : List Des8) : List Des8 := ds.drop (wholeDomains 0 ds).length

/-- What is looked at of them, when `k` separators have been passed. -/
def cutPiece (k : Nat) (ds : List Des8) : Option Des8 :=
  if k < (listed ds).length then some ((listed ds).take ((listed ds).length + 2 - k)) else none

section Loop

variable {d : Des8} {ds : List Des8} {k i : Nat}

/-- The inner loop on a domain that ends before the index does. -/
theorem separatorLoop_whole (hclean : 0x3b ∉ d) (rest : Des8) {len : Nat} (h : i + d.length < len) :
    separatorLoop len (d ++ 0x3b :: rest) i = some (i + d.length, 0x3b :: rest) := by
  induction d generalizing i with
  | nil => rfl
  | cons c d ih =>
      have hc : c ≠ 0x3b := fun heq => hclean (heq ▸ List.mem_cons_self)
      rw [List.cons_append, separatorLoop, if_pos ⟨hc, by omega⟩,
        ih (fun hmem => hclean (List.mem_cons_of_mem _ hmem)) (by rw [List.length_cons] at h; omega),
        List.length_cons]
      congr 2
      omega

/-- The inner loop where the index reaches the length of the list first. -/
theorem separatorLoop_cut (bufPtr : Des8) {len : Nat} (hle : i ≤ len)
    (hclean : ∀ c ∈ bufPtr.take (len - i), c ≠ 0x3b) :
    separatorLoop len bufPtr i =
      if len - i < bufPtr.length then some (len, bufPtr.drop (len - i)) else none := by
  induction bufPtr generalizing i with
  | nil => rw [separatorLoop, if_neg (by simp)]
  | cons c bufPtr ih =>
      rw [separatorLoop]
      by_cases hlt : i < len
      · have hsucc : len - i = (len - (i + 1)) + 1 := by omega
        have hc : c ≠ 0x3b := hclean c (by rw [hsucc]; exact List.mem_cons_self)
        rw [if_pos ⟨hc, hlt⟩, ih (by omega), hsucc, List.length_cons, List.drop_succ_cons]
        · simp only [Nat.add_lt_add_iff_right]
        · intro c' hc'
          refine hclean c' ?_
          rw [hsucc, List.take_succ_cons]
          exact List.mem_cons_of_mem _ hc'
      · have heq : len - i = 0 := by omega
        rw [if_neg fun h => hlt h.2, heq, if_pos (by simp), List.drop_zero,
          Nat.le_antisymm hle (Nat.le_of_not_lt hlt)]

/-- The answer of the loop behind `k` separators. -/
def outcome [Platform] (uri : UriParser) (aUrl : Des8) (k : Nat) (ds : List Des8) : Option Bool :=
  if ∃ d ∈ wholeDomains k ds, operatorCacheContent uri d aUrl = true then some true
  else
    match cutPiece (k + (wholeDomains k ds).length) (ds.drop (wholeDomains k ds).length) with
    | some piece =>
        if k + (wholeDomains k ds).length < 2 then none
        else some (operatorCacheContent uri piece aUrl)
    | none => some false

theorem outcome_whole [Platform] {uri : UriParser} {aUrl : Des8} (h : k < (following ds).length) :
    outcome uri aUrl k (d :: ds) =
      if operatorCacheContent uri d aUrl = true then some true else outcome uri aUrl (k + 1) ds := by
  have hnum : k + ((wholeDomains (k + 1) ds).length + 1) =
      k + 1 + (wholeDomains (k + 1) ds).length := by omega
  rw [outcome, outcome, wholeDomains, if_pos h, List.length_cons, List.drop_succ_cons, hnum]
  by_cases hop : operatorCacheContent uri d aUrl = true
  · rw [if_pos ⟨d, List.mem_cons_self, hop⟩, if_pos hop]
  · rw [if_neg hop]
    simp only [List.exists_mem_cons_iff, hop, Bool.false_eq_true, false_or]

theorem outcome_cut [Platform] {uri : UriParser} {aUrl : Des8} (h : ¬ k < (following ds).length) :
    outcome uri aUrl k (d :: ds) =
      match cutPiece k (d :: ds) with
      | some piece => if k < 2 then none else some (operatorCacheContent uri piece aUrl)
      | none => some false := by
  have hwhole : wholeDomains k (d :: ds) = [] := by rw [wholeDomains, if_neg h]
  rw [outcome, hwhole, if_neg fun ⟨d, hd, _⟩ => List.not_mem_nil hd]
  rfl

/-- The outer loop in front of the domains that remain. -/
theorem whiteListLoop_eq [Platform] (uri : UriParser) (aUrl : Des8) {len : Nat}
    (hclean : ∀ d ∈ ds, 0x3b ∉ d) (hi : i + (listed ds).length = len + k) :
    whiteListLoop uri aUrl len (listed ds) i = outcome uri aUrl k ds := by
  induction ds generalizing k i with
  | nil =>
      have hend : ¬ i < len := by
        rw [listed, List.length_nil] at hi
        omega
      rw [whiteListLoop, if_neg hend]
      rfl
  | cons d ds ih =>
      have hlength : (listed (d :: ds)).length = d.length + (following ds).length := by
        rw [listed, List.length_append]
      by_cases hwhole : k < (following ds).length
      · rw [outcome_whole hwhole]
        cases ds with
        | nil => exact absurd hwhole (Nat.not_lt_zero k)
        | cons d' ds =>
            have hfollowing : (following (d' :: ds)).length = (listed (d' :: ds)).length + 1 := by
              rw [following_cons, List.length_cons]
            have hloop : separatorLoop len (d ++ 0x3b :: listed (d' :: ds)) i =
                some (i + d.length, 0x3b :: listed (d' :: ds)) :=
              separatorLoop_whole (hclean d List.mem_cons_self) _ (by omega)
            have hrest := ih (k := k + 1) (i := i + d.length + 1 + 1)
              (fun t ht => hclean t (List.mem_cons_of_mem _ ht)) (by omega)
            have htake : (d ++ 0x3b :: listed (d' :: ds)).take d.length = d := List.take_left
            rw [listed, following_cons, whiteListLoop, if_pos (by omega), hloop]
            dsimp only
            rw [if_neg (by omega : ¬ i + d.length = len), Nat.add_sub_cancel_left,
              if_neg (by rw [List.length_append]; omega), htake, List.tail_cons, hrest]
      · rw [outcome_cut hwhole, cutPiece]
        by_cases henter : i < len
        · -- the index gets to the end of the list before the next separator
          have hpre : (listed (d :: ds)).take (len - i) = d.take (len - i) := by
            rw [listed, List.take_append_of_le_length (by omega)]
          have hcut : separatorLoop len (listed (d :: ds)) i =
              if len - i < (listed (d :: ds)).length then
                some (len, (listed (d :: ds)).drop (len - i)) else none := by
            refine separatorLoop_cut _ (by omega) fun c hc heq => ?_
            rw [hpre] at hc
            exact hclean d List.mem_cons_self (heq ▸ List.mem_of_mem_take hc)
          rw [whiteListLoop, if_pos henter, if_pos (by omega), hcut]
          by_cases hzero : k = 0
          · rw [if_neg (by omega), hzero]
            rfl
          · rw [if_pos (by omega)]
            dsimp only
            rw [if_pos rfl]
            by_cases hone : k < 2
            · rw [if_pos (by omega), if_pos hone]
            · have hlen : len - i + 2 = (listed (d :: ds)).length + 2 - k := by omega
              rw [if_neg (by omega), if_neg hone, hlen]
              by_cases hop : operatorCacheContent uri
                  ((listed (d :: ds)).take ((listed (d :: ds)).length + 2 - k)) aUrl = true
              · rw [if_pos hop, hop]
              · rw [if_neg hop, Bool.eq_false_iff.2 hop, whiteListLoop, if_neg (by omega)]
        · rw [whiteListLoop, if_neg henter, if_neg (by omega)]

/-! ## Which lists are searched right -/

theorem wholeDomains_append_drop (k : Nat) (ds : List Des8) :
    wholeDomains k ds ++ ds.drop (wholeDomains k ds).length = ds := by
  induction ds generalizing k with
  | nil => rfl
  | cons d ds ih =>
      rw [wholeDomains]
      by_cases hwhole : k < (following ds).length
      · rw [if_pos hwhole, List.length_cons, List.drop_succ_cons, List.cons_append, ih]
      · rw [if_neg hwhole]
        rfl

/-- Two domains are whole exactly if a third one follows. -/
theorem two_le_wholeDomains_iff (hne : ∀ d ∈ ds, d ≠ []) :
    2 ≤ (wholeDomains 0 ds).length ↔ 3 ≤ ds.length := by
  cases ds with
  | nil => simp [wholeDomains]
  | cons a ds =>
    cases ds with
    | nil => simp [wholeDomains, following]
    | cons b ds =>
      have ha : 0 < (following (b :: ds)).length := by
        rw [following_cons, List.length_cons]
        exact Nat.succ_pos _
      cases ds with
      | nil =>
          rw [wholeDomains, if_pos ha, wholeDomains, if_neg (by decide)]
          simp
      | cons c ds =>
          have hc : 0 < c.length := List.length_pos_iff.2 (hne c (by simp))
          have hb : 1 < (following (c :: ds)).length := by
            rw [following_cons, List.length_cons, listed, List.length_append]
            omega
          rw [wholeDomains, if_pos ha, wholeDomains, if_pos hb]
          simp

/-- Of a single domain, or of two, something is looked at behind the whole ones, unless the second
one is a single byte. -/
theorem cutPiece_eq_none_iff (hne : ∀ d ∈ ds, d ≠ []) (hnil : ds ≠ [])
    (hshort : (wholeDomains 0 ds).length < 2) :
    cutPiece (wholeDomains 0 ds).length (ds.drop (wholeDomains 0 ds).length) = none ↔
      ∃ a b, ds = [a, [b]] := by
  have hthree : ¬ 3 ≤ ds.length := by
    rw [← two_le_wholeDomains_iff hne]
    omega
  cases ds with
  | nil => exact absurd rfl hnil
  | cons a ds =>
    cases ds with
    | nil =>
        have ha : 0 < (listed [a]).length := by
          rw [listed, List.length_append]
          exact Nat.add_pos_left (List.length_pos_iff.2 (hne a (by simp))) _
        have hwhole : wholeDomains 0 [a] = [] := rfl
        rw [hwhole, List.length_nil, List.drop_zero, cutPiece, if_pos ha]
        simp
    | cons b ds =>
      cases ds with
      | nil =>
          have hwhole : wholeDomains 0 [a, b] = [a] := by
            rw [wholeDomains, if_pos (by rw [following_cons]; simp), wholeDomains,
              if_neg (by decide)]
          have hlisted : listed [b] = b := List.append_nil b
          rw [hwhole, List.length_singleton, List.drop_succ_cons, List.drop_zero, cutPiece, hlisted]
          by_cases hb : 1 < b.length
          · rw [if_pos hb]
            refine ⟨fun h => (nomatch h), ?_⟩
            rintro ⟨a', b', heq⟩
            simp only [List.cons.injEq, and_true] at heq
            rw [heq.2] at hb
            exact absurd hb (by simp)
          · have hpos : 0 < b.length := List.length_pos_iff.2 (hne b (by simp))
            obtain ⟨b', rfl⟩ := List.length_eq_one_iff.1 (by omega : b.length = 1)
            rw [if_neg hb]
            exact ⟨fun _ => ⟨a, b', rfl⟩, fun _ => rfl⟩
      | cons c ds => exact absurd (by simp) hthree

end Loop

/-- The loop reads bytes of the list only, and finds the URL exactly if one of the domains holds
it. -/
def Searched [Platform] (uri : UriParser) (aUrl : Des8) (ds : List Des8) : Prop :=
  ∃ found, vssCacheContent uri aUrl (some (listed ds)) = some found ∧
    (found = true ↔ ∃ d ∈ ds, operatorCacheContent uri d aUrl = true)

/-- A list is searched right if a whole domain holds the URL. Otherwise it needs a third domain, or
a second one of a single byte, and the piece that is cut off behind the whole domains must hold the
URL exactly if one of the domains does which it is cut from. -/
theorem searched_iff [Platform] {uri : UriParser} {aUrl : Des8} {ds : List Des8}
    (hds : ∀ d ∈ ds, d ≠ [] ∧ 0x3b ∉ d) :
    Searched uri aUrl ds ↔
      ds = [] ∨ (∃ d ∈ wholeDomains 0 ds, operatorCacheContent uri d aUrl = true) ∨
        (3 ≤ ds.length ∨ ∃ a b, ds = [a, [b]]) ∧
          ((∃ piece ∈ cutPiece (wholeDomains 0 ds).length (restDomains ds),
              operatorCacheContent uri piece aUrl = true) ↔
            ∃ d ∈ restDomains ds, operatorCacheContent uri d aUrl = true) := by
  have hne : ∀ d ∈ ds, d ≠ [] := fun d hd => (hds d hd).1
  have hloop : vssCacheContent uri aUrl (some (listed ds)) = outcome uri aUrl 0 ds :=
    whiteListLoop_eq uri aUrl (fun d hd => (hds d hd).2) (Nat.add_comm _ _)
  have hsplit : (∃ d ∈ ds, operatorCacheContent uri d aUrl = true) ↔
      (∃ d ∈ wholeDomains 0 ds, operatorCacheContent uri d aUrl = true) ∨
        ∃ d ∈ restDomains ds, operatorCacheContent uri d aUrl = true := by
    have hlist := wholeDomains_append_drop 0 ds
    rw [← restDomains] at hlist
    conv_lhs => rw [← hlist]
    simp only [List.mem_append, or_and_right, exists_or]
  rw [Searched, hloop, outcome, Nat.zero_add, ← restDomains]
  by_cases hwhole : ∃ d ∈ wholeDomains 0 ds, operatorCacheContent uri d aUrl = true
  · rw [if_pos hwhole]
    exact ⟨fun _ => .inr (.inl hwhole), fun _ => ⟨true, rfl, fun _ => hsplit.2 (.inl hwhole),
      fun _ => rfl⟩⟩
  rw [if_neg hwhole, or_iff_right hwhole]
  rw [or_iff_right hwhole] at hsplit
  by_cases hnil : ds = []
  · subst hnil
    refine ⟨fun _ => .inl rfl, fun _ => ⟨false, rfl, ?_⟩⟩
    simp
  rw [or_iff_right hnil]
  by_cases hshort : (wholeDomains 0 ds).length < 2
  · have hthree : ¬ 3 ≤ ds.length := by
      rw [← two_le_wholeDomains_iff hne]
      omega
    have hcut := cutPiece_eq_none_iff hne hnil hshort
    rw [← restDomains] at hcut
    rw [or_iff_right hthree, ← hcut]
    cases hpiece : cutPiece (wholeDomains 0 ds).length (restDomains ds) with
    | some piece =>
        dsimp only
        rw [if_pos hshort]
        exact ⟨fun ⟨found, h, _⟩ => (nomatch h), fun h => (nomatch h.1)⟩
    | none =>
        dsimp only
        simp only [Option.not_mem_none, false_and, exists_false, true_and]
        rw [hsplit]
        constructor
        · rintro ⟨found, hfound, hiff⟩
          obtain rfl := Option.some.inj hfound
          simpa using hiff
        · exact fun hiff => ⟨false, rfl, by simpa using hiff⟩
  · have hthree : 3 ≤ ds.length := (two_le_wholeDomains_iff hne).1 (by omega)
    rw [and_iff_right (.inl hthree), hsplit]
    cases hpiece : cutPiece (wholeDomains 0 ds).length (restDomains ds) with
    | some piece =>
        dsimp only
        simp only [Option.mem_some_iff, exists_eq_left', if_neg hshort]
        constructor
        · rintro ⟨found, hfound, hiff⟩
          rwa [← Option.some.inj hfound] at hiff
        · exact fun hiff => ⟨_, rfl, hiff⟩
    | none =>
        dsimp only
        simp only [Option.not_mem_none, false_and, exists_false]
        constructor
        · rintro ⟨found, hfound, hiff⟩
          obtain rfl := Option.some.inj hfound
          simpa using hiff
        · exact fun hiff => ⟨false, rfl, by simpa using hiff⟩

section Sample

open Reference

/-- What stands behind the `//` of a URL. -/
def authorityAndPath (uri : Des8) : Option Des8 :=
  (findSub (ascii "//") uri).map fun pos => uri.drop (pos + 2)

/-- URLs without user, port, query and fragment. -/
def plainUris : UriParser where
  parses _ := true
  compareHost a b :=
    if (authorityAndPath a).map (List.takeWhile (· ≠ 0x2f)) =
      (authorityAndPath b).map (List.takeWhile (· ≠ 0x2f)) then 0 else 1
  path uri := ((authorityAndPath uri).map (List.dropWhile (· ≠ 0x2f))).getD uri

/-- Of three domains the third one is found. -/
theorem searched_third :
    Searched plainUris (ascii "http://c.com/x")
      [ascii "http://a.com", ascii "http://b.com", ascii "http://c.com"] := by
  refine (searched_iff (by decide)).2 (.inr (.inr ⟨.inl (by decide), ?_⟩))
  have hrest : restDomains [ascii "http://a.com", ascii "http://b.com", ascii "http://c.com"] =
      [ascii "http://c.com"] := by decide
  have hcut : cutPiece (wholeDomains 0
      [ascii "http://a.com", ascii "http://b.com", ascii "http://c.com"]).length
      (restDomains [ascii "http://a.com", ascii "http://b.com", ascii "http://c.com"]) =
        some (ascii "http://c.com") := by decide
  rw [hcut, hrest]
  simp

/-- A single domain is read with two bytes that are not its own, and of four domains the last one
loses a letter. -/
theorem not_searched :
    ¬ Searched plainUris (ascii "http://a.com/x") [ascii "http://a.com"] ∧
      ¬ Searched plainUris (ascii "http://d.com/x")
        [ascii "http://a.com", ascii "http://b.com", ascii "http://c.com",
          ascii "http://d.com"] := by
  have hrun : ∀ url ds, (∀ d ∈ ds, 0x3b ∉ d) →
      vssCacheContent plainUris url (some (listed ds)) = outcome plainUris url 0 ds :=
    fun url ds hds => whiteListLoop_eq plainUris url hds (Nat.add_comm _ _)
  constructor
  · rintro ⟨found, hfound, -⟩
    rw [hrun _ _ (by decide)] at hfound
    have houtcome : outcome plainUris (ascii "http://a.com/x") 0 [ascii "http://a.com"] = none := by
      decide
    rw [houtcome] at hfound
    cases hfound
  · rintro ⟨found, hfound, hiff⟩
    rw [hrun _ _ (by decide)] at hfound
    have houtcome : outcome plainUris (ascii "http://d.com/x") 0
        [ascii "http://a.com", ascii "http://b.com", ascii "http://c.com",
          ascii "http://d.com"] = some false := by
      decide
    rw [houtcome] at hfound
    cases hfound
    exact Bool.false_ne_true (hiff.2 ⟨ascii "http://d.com", by decide, by decide⟩)

end Sample

end SymbianWeb.HttpCache
