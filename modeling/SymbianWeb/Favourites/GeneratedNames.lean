import Mathlib.Data.Int.LeastGreatest
import Mathlib.Order.Bounds.Basic
import SymbianWeb.Favourites.NameSearch
import SymbianWeb.Library.Search

/-!
# Names that are generated

A name in place of one that is taken is meant to be its prefix with the least number that no other
item of the folder has. The prefix is the name without an integer in parentheses at its end, and
other parentheses belong to the name (`StatedPrefix`, `HasNumber`).

Numbers are read with a lexer that is content with an integer at the beginning of the text. So a
parenthesis that only begins with an integer is taken from the name, and a name that ends with one
takes a number; and a prefix that is empty is a name if its number is 0. Where neither happens, the
name is the one that is meant (`makesUniqueName_iff`).
-/

set_option autoImplicit false

namespace SymbianWeb.Favourites.Store

open ErrorState Search

/-! ## What a generated name is meant to be -/

/-- Without the sign of a number. -/
def withoutSign (t : Text) : Text := if t.head? = some 45 ∨ t.head? = some 43 then t.tail else t

/-- The text is wholly an integer. -/
def IntegerText (t : Text) (v : Int) : Prop := lexVal t = some v ∧ ∀ c ∈ withoutSign t, isDigit c

/-- The name is the prefix with something in parentheses. -/
def parenthesised (pre inner : Text) : Text := pre ++ openPar :: (inner ++ [closePar])

/-- The name without an integer in parentheses at its end. -/
inductive StatedPrefix (aName : Text) : Text → Prop
  | number {pre inner : Text} {v : Int} (h : aName = parenthesised pre inner)
      (hv : IntegerText inner v) : StatedPrefix aName pre
  | whole (h : ∀ pre inner v, aName = parenthesised pre inner → ¬ IntegerText inner v) :
      StatedPrefix aName aName

/-- The longest prefix to which every postfix fits. -/
def cutPrefix (pre : Text) : Text := pre.take (kFavouritesMaxName - kFavouritesMaxPostfix)

/-- A prefix that has to be cut gets a number in any case. -/
def firstNumber (pre : Text) : Int :=
  if kFavouritesMaxName < pre.length + kFavouritesMaxPostfix then 1 else 0

section

variable (rules : CharRules)

/-- The name is the prefix with the number; the prefix alone has the number 0. -/
def HasNumber (name pre : Text) (number : Int) : Prop :=
  (number = 0 ∧ rules.foldText name = rules.foldText pre) ∨
    (0 < number ∧ ∃ pre' inner, name = parenthesised pre' inner ∧
      rules.foldText pre' = rules.foldText pre ∧ IntegerText inner number)

/-- The other items of the folder whose names are to be told apart. -/
def Sibling (aFolder aAcceptUid : Int) (r : Row) : Prop :=
  r.parentFolder = aFolder ∧ r.uid ≠ aAcceptUid ∧ isExempt r.uid = false

/-- The numbers from the first one on that are free. -/
def freeNumbers (rows : List Row) (aFolder aAcceptUid : Int) (first : Int) (pre : Text) : Set Int :=
  {number | first ≤ number ∧
    ∀ r ∈ rows, Sibling aFolder aAcceptUid r → ¬ HasNumber rules r.name pre number}

/-- The name is the one that is meant: a name that an item can have and that fits the buffer of the
caller. -/
structure NameAsMeant (rows : List Row) (aFolder aAcceptUid : Int) (aName name : Text) :
    Prop where
  made : ∃ pre number, StatedPrefix aName pre ∧
    IsLeast (freeNumbers rules rows aFolder aAcceptUid (firstNumber pre) (cutPrefix pre)) number ∧
    name = formatName (cutPrefix pre) number
  valid : isValidName name
  length_le : name.length ≤ kFavouritesMaxName
  fits : name.length ≤ aName.length + kFavouritesMaxPostfix

end

/-! ## Numbers at the end of a name -/

section

variable {t u pre pre' inner inner' : Text} {v : Int}

theorem parenthesised_length (pre inner : Text) :
    (parenthesised pre inner).length = pre.length + inner.length + 2 := by
  simp [parenthesised, Nat.add_assoc]

theorem parenthesised_getLast (pre inner : Text) :
    (parenthesised pre inner).getLast? = some closePar := by
  simp [parenthesised, List.getLast?_append, List.getLast?_cons]

theorem lexVal_nil : lexVal [] = none := rfl

theorem openPar_not_digit : isDigit openPar = false := by decide

/-- There are no parentheses in an integer. -/
theorem openPar_notMem (h : IntegerText inner v) : openPar ∉ inner := by
  intro hmem
  have hdigits := h.2
  rw [withoutSign] at hdigits
  split at hdigits
  · rename_i hsign
    cases inner with
    | nil => cases hmem
    | cons c inner =>
        rcases List.mem_cons.mp hmem with rfl | hmem
        · rw [List.head?_cons] at hsign
          rcases hsign with h | h <;> exact absurd h (by decide)
        · have hdigit := hdigits openPar hmem
          rw [openPar_not_digit] at hdigit
          cases hdigit
  · have hdigit := hdigits openPar hmem
    rw [openPar_not_digit] at hdigit
    cases hdigit

theorem locateReverse_notMem {c : UInt16} (h : c ∉ t) : locateReverse c t = none := by
  induction t with
  | nil => rfl
  | cons d t ih =>
      rw [List.mem_cons, not_or] at h
      rw [locateReverse, ih h.2]
      exact if_neg fun heq => h.1 heq.symm

theorem locateReverse_last {c : UInt16} (h : c ∉ u) :
    locateReverse c (t ++ c :: u) = some t.length := by
  induction t with
  | nil =>
      rw [List.nil_append, locateReverse, locateReverse_notMem h]
      exact if_pos rfl
  | cons d t ih =>
      rw [List.cons_append, locateReverse, ih]
      rfl

/-- A text with something in parentheses at its end is taken apart at the last parenthesis. -/
theorem parenthesised_inj (h : openPar ∉ inner) (h' : openPar ∉ inner')
    (heq : parenthesised pre inner = parenthesised pre' inner') : pre = pre' ∧ inner = inner' := by
  have hnot : openPar ∉ inner ++ [closePar] := by
    rw [List.mem_append, List.mem_singleton, not_or]
    exact ⟨h, by decide⟩
  have hnot' : openPar ∉ inner' ++ [closePar] := by
    rw [List.mem_append, List.mem_singleton, not_or]
    exact ⟨h', by decide⟩
  have hlength : pre.length = pre'.length := by
    have hlocate := locateReverse_last (t := pre) hnot
    rw [show pre ++ openPar :: (inner ++ [closePar]) = _ from heq, parenthesised,
      locateReverse_last hnot'] at hlocate
    exact (Option.some.inj hlocate).symm
  obtain ⟨rfl, hrest⟩ := List.append_inj heq hlength
  exact ⟨rfl, List.append_cancel_right (List.cons.inj hrest).2⟩

/-- What stands between the parentheses. -/
theorem between_parenthesised (pre inner : Text) :
    ((parenthesised pre inner).drop (pre.length + 1)).take
      ((parenthesised pre inner).length - pre.length - 2) = inner := by
  have hdrop : (parenthesised pre inner).drop (pre.length + 1) = inner ++ [closePar] := by
    rw [parenthesised, ← List.drop_drop, List.drop_left, List.drop_succ_cons, List.drop_zero]
  rw [hdrop, parenthesised_length]
  exact List.take_left' (by omega)

/-- A parenthesis with something that begins with an integer is taken from the name. -/
theorem getPrefix_parenthesised (hnot : openPar ∉ inner) (hval : lexVal inner ≠ none) :
    getPrefix (parenthesised pre inner) = pre := by
  have hne : inner ≠ [] := by
    rintro rfl
    exact hval lexVal_nil
  have hlength := List.length_pos_iff.mpr hne
  have hlocate : locateReverse openPar (parenthesised pre inner) = some pre.length := by
    apply locateReverse_last
    rw [List.mem_append, List.mem_singleton, not_or]
    exact ⟨hnot, by decide⟩
  rw [getPrefix, if_pos ⟨by rw [parenthesised_length]; omega, parenthesised_getLast _ _⟩, hlocate]
  dsimp only
  rw [between_parenthesised]
  obtain ⟨v, hv⟩ := Option.ne_none_iff_exists'.mp hval
  rw [hv]
  exact List.take_left' rfl

/-- All other names are their own prefixes. -/
theorem getPrefix_other (h : ∀ pre inner, t = parenthesised pre inner → openPar ∉ inner →
    lexVal inner = none) : getPrefix t = t := by
  rw [getPrefix]
  split
  · rename_i hend
    by_cases hmem : openPar ∈ t
    · obtain ⟨pre, rest, rfl, hnot⟩ := exists_last hmem
      have hrest : rest.getLast? = some closePar := by
        have hlast := hend.2
        cases rest with
        | nil =>
            rw [List.getLast?_concat] at hlast
            exact absurd hlast (by decide)
        | cons c rest =>
            rwa [List.getLast?_append, List.getLast?_cons_cons, List.getLast?_cons,
              Option.some_or, ← List.getLast?_cons] at hlast
      obtain ⟨inner, rfl⟩ := List.getLast?_eq_some_iff.mp hrest
      have hinner : openPar ∉ inner := fun hm => hnot (List.mem_append_left _ hm)
      rw [locateReverse_last hnot]
      dsimp only
      have hbetween := between_parenthesised pre inner
      rw [parenthesised] at hbetween
      rw [hbetween, h pre inner rfl hinner]
    · rw [locateReverse_notMem hmem]
  · rfl

/-- The prefix is the one that is meant where a parenthesis that begins with an integer is one. -/
theorem prefix_cases (aName : Text) :
    (∃ pre inner, aName = parenthesised pre inner ∧ openPar ∉ inner ∧ lexVal inner ≠ none ∧
        getPrefix aName = pre) ∨
      (getPrefix aName = aName ∧ ∀ pre inner, aName = parenthesised pre inner → openPar ∉ inner →
        lexVal inner = none) := by
  by_cases h : ∃ pre inner, aName = parenthesised pre inner ∧ openPar ∉ inner ∧ lexVal inner ≠ none
  · obtain ⟨pre, inner, rfl, hnot, hval⟩ := h
    exact .inl ⟨pre, inner, rfl, hnot, hval, getPrefix_parenthesised hnot hval⟩
  · have hnone : ∀ pre inner, aName = parenthesised pre inner → openPar ∉ inner →
        lexVal inner = none := by
      intro pre inner heq hnot
      by_contra hval
      exact h ⟨pre, inner, heq, hnot, hval⟩
    exact .inr ⟨getPrefix_other hnone, hnone⟩

end

/-! ## The number of an item -/

section

variable (rules : CharRules) {name pre pre' inner rest : Text} {number : Int}

theorem foldPrefix_iff : (pre.length ≤ name.length ∧
      (rules.foldText pre).isPrefixOf (rules.foldText name) = true) ↔
    ∃ pre' rest, name = pre' ++ rest ∧ rules.foldText pre' = rules.foldText pre := by
  constructor
  · rintro ⟨-, hfront⟩
    rw [List.isPrefixOf_iff_prefix, List.prefix_iff_eq_take] at hfront
    refine ⟨name.take pre.length, name.drop pre.length, (List.take_append_drop _ _).symm, ?_⟩
    rw [hfront, rules.length_foldText, CharRules.foldText, CharRules.foldText, List.map_take]
  · rintro ⟨pre', rest, rfl, hfold⟩
    have hlength : pre'.length = pre.length := by
      rw [← rules.length_foldText pre', hfold, rules.length_foldText]
    refine ⟨by rw [List.length_append]; omega, ?_⟩
    rw [List.isPrefixOf_iff_prefix, rules.foldText_append, hfold]
    exact List.prefix_append _ _

theorem length_of_fold (hfold : rules.foldText pre' = rules.foldText pre) :
    pre'.length = pre.length := by
  rw [← rules.length_foldText pre', hfold, rules.length_foldText]

/-- What stands behind the prefix in parentheses is read as a number. -/
theorem getPostfix_parenthesised (hfold : rules.foldText pre' = rules.foldText pre)
    (hval : lexVal inner = some number) (hpos : 0 < number) :
    getPostfix rules (parenthesised pre' inner) pre = number := by
  have hlength := length_of_fold rules hfold
  have hinner : inner.length ≠ 0 := by
    intro hzero
    rw [List.length_eq_zero_iff.mp hzero] at hval
    cases hval
  have hall := parenthesised_length pre' inner
  have hopen : (parenthesised pre' inner)[pre.length]? = some openPar := by
    rw [← hlength, parenthesised, List.getElem?_append_right le_rfl, Nat.sub_self]
    rfl
  have hfront : pre.length ≤ (parenthesised pre' inner).length ∧
      (rules.foldText pre).isPrefixOf (rules.foldText (parenthesised pre' inner)) = true :=
    (foldPrefix_iff rules).2 ⟨pre', _, rfl, hfold⟩
  rw [getPostfix, if_pos hfront, if_neg (by omega), if_pos ⟨by omega, hopen, parenthesised_getLast _ _⟩, ← hlength, between_parenthesised, hval]
  exact if_pos hpos

theorem getPostfix_eq_zero (hfold : rules.foldText name = rules.foldText pre) :
    getPostfix rules name pre = 0 := by
  rw [getPostfix, if_pos ((foldPrefix_iff rules).2 ⟨name, [], (List.append_nil _).symm, hfold⟩),
    if_pos (length_of_fold rules hfold)]

/-- A number that is not negative is found in this way only. -/
theorem getPostfix_cases (name pre : Text) :
    getPostfix rules name pre = -1 ∨
      (getPostfix rules name pre = 0 ∧ rules.foldText name = rules.foldText pre) ∨
      (0 < getPostfix rules name pre ∧ ∃ pre' inner, name = parenthesised pre' inner ∧
        rules.foldText pre' = rules.foldText pre ∧
        lexVal inner = some (getPostfix rules name pre)) := by
  rw [getPostfix]
  split
  · rename_i hfront
    obtain ⟨pre', rest, rfl, hfold⟩ := (foldPrefix_iff rules).1 hfront
    have hlength := length_of_fold rules hfold
    split
    · -- the prefix alone
      rename_i hsame
      rw [List.length_append, hlength, Nat.add_eq_left, List.length_eq_zero_iff] at hsame
      rw [hsame, List.append_nil]
      exact .inr (.inl ⟨rfl, hfold⟩)
    split
    · rename_i hparens
      obtain ⟨hthree, hopen, hlast⟩ := hparens
      rw [← hlength, List.getElem?_append_right le_rfl, Nat.sub_self] at hopen
      obtain ⟨tail, rfl⟩ : ∃ tail, rest = openPar :: tail := by
        cases rest with
        | nil => cases hopen
        | cons c tail =>
            cases hopen
            exact ⟨tail, rfl⟩
      obtain ⟨inner, rfl⟩ : ∃ inner, tail = inner ++ [closePar] := by
        cases tail with
        | nil =>
            rw [List.length_append, List.length_singleton] at hthree
            omega
        | cons c tail =>
            rw [List.getLast?_append, List.getLast?_cons_cons, List.getLast?_cons,
              Option.some_or, ← List.getLast?_cons] at hlast
            exact List.getLast?_eq_some_iff.mp hlast
      have hbetween := between_parenthesised pre' inner
      rw [hlength, parenthesised] at hbetween
      rw [hbetween]
      split
      · rename_i val hval
        split
        · rename_i hpos
          exact .inr (.inr ⟨hpos, pre', inner, rfl, hfold, hval⟩)
        · exact .inl rfl
      · exact .inl rfl
    · exact .inl rfl
  · exact .inl rfl

/-- A name that has the number for the lexer: what stands in parentheses begins with it. -/
def LooksNumbered (name pre : Text) (number : Int) : Prop :=
  ∃ pre' inner, name = parenthesised pre' inner ∧ rules.foldText pre' = rules.foldText pre ∧
    lexVal inner = some number ∧ ¬ ∀ c ∈ withoutSign inner, isDigit c

theorem getPostfix_eq_iff (hnonneg : 0 ≤ number) :
    getPostfix rules name pre = number ↔
      HasNumber rules name pre number ∨ 0 < number ∧ LooksNumbered rules name pre number := by
  constructor
  · rintro rfl
    rcases getPostfix_cases rules name pre with h | h | ⟨hpos, pre', inner, hname, hfold, hval⟩
    · omega
    · exact .inl (.inl h)
    · by_cases hwhole : ∀ c ∈ withoutSign inner, isDigit c
      · exact .inl (.inr ⟨hpos, pre', inner, hname, hfold, hval, hwhole⟩)
      · exact .inr ⟨hpos, pre', inner, hname, hfold, hval, hwhole⟩
  · rintro ((⟨rfl, hfold⟩ | ⟨hpos, pre', inner, rfl, hfold, hval, -⟩) |
      ⟨hpos, pre', inner, rfl, hfold, hval, -⟩)
    · exact getPostfix_eq_zero rules hfold
    · exact getPostfix_parenthesised rules hfold hval hpos
    · exact getPostfix_parenthesised rules hfold hval hpos

/-! ## The least number that is free -/

/-- The search in ascending numbers passes only those that are among them. -/
theorem mem_of_lt_holeSearch {vs : List Int} (hsorted : vs.Pairwise (· ≤ ·)) :
    ∀ {candidate v : Int}, candidate ≤ v → v < holeSearch candidate vs → v ∈ vs := by
  induction vs with
  | nil =>
      intro candidate v hle hlt
      rw [holeSearch] at hlt
      omega
  | cons w vs ih =>
      obtain ⟨-, hsorted⟩ := List.pairwise_cons.mp hsorted
      intro candidate v hle hlt
      rw [holeSearch] at hlt
      split at hlt
      · exact List.mem_cons_of_mem w (ih hsorted hle hlt)
      · split at hlt
        · rename_i heq
          rcases hle.eq_or_lt with rfl | hlt'
          · rw [heq]
            exact List.mem_cons_self
          · exact List.mem_cons_of_mem w (ih hsorted hlt' hlt)
        · omega

theorem freePostfix_isLeast (forcePostfix : Bool) (postfixes : List Int) :
    IsLeast {n | (if forcePostfix then 1 else 0) ≤ n ∧ n ∉ postfixes}
      (freePostfix forcePostfix postfixes) := by
  obtain ⟨hnot, hge, -⟩ := freePostfix_spec forcePostfix postfixes
  refine ⟨⟨hge, hnot⟩, fun n hn => ?_⟩
  by_contra hlt
  apply hn.2
  rw [← List.mem_insertionSort (r := (· ≤ ·))]
  exact mem_of_lt_holeSearch (List.pairwise_insertionSort _ _) hn.1 (not_le.mp hlt)

/-- The query for a prefix finds all names that have a number. -/
theorem like_of_getPostfix (hnonneg : 0 ≤ getPostfix rules name pre) :
    like rules (pre ++ [star]) name = true := by
  rcases getPostfix_cases rules name pre with h | ⟨-, hfold⟩ | ⟨-, pre', inner, rfl, hfold, -⟩
  · omega
  · have hfold' : rules.foldText name = rules.foldText pre ++ [] := by
      rw [hfold, List.append_nil]
    exact like_star_of_append rules hfold'
  · rw [parenthesised]
    apply like_star_of_append rules
    rw [rules.foldText_append, hfold]

/-! ## Runs that return -/

theorem makeUniqueNameL_returns (aName : Text) (aFolder aAcceptUid : Int) {db : Db}
    (h : db.leaveAt = none) :
    ∃ name db', makeUniqueNameL rules aName aFolder aAcceptUid db = .ok name db' := by
  rw [makeUniqueNameL]
  rcases renamePrefix aName with ⟨pre, forcePostfix⟩
  obtain ⟨filter, hfilter⟩ := setFiltersL_of_none ⟨aFolder, none, some (pre ++ [star]),
    kFavouritesNullContextId⟩ h
  have hbegin : beginningL { db with filter := filter } = .ok () _ := beginningL_of_none h
  have hrounds : ∃ postfixes db', collectPostfixesL rules pre aAcceptUid
      (db.table.beginning.ahead.length + 1) []
      { db with filter := filter, table := db.table.beginning } = .ok postfixes db' ∧
        db'.leaveAt = none := by
    rw [collectPostfixesL_eq]
    exact collectL_of_none rules _ _ h (Nat.lt_succ_self _)
  obtain ⟨postfixes, db₁, hcollect, hnone⟩ := hrounds
  refine ⟨formatName pre (freePostfix forcePostfix postfixes), { db₁ with filter := none }, ?_⟩
  dsimp only
  rw [bind_of_ok hfilter, bind_of_ok hbegin, get_bind, bind_of_ok hcollect, clearFilters,
    modify_bind, mayLeave_bind (by exact hnone)]
  rfl

end

/-! ## Prefixes -/

section

variable {aName pre pre' inner : Text} {number number' : Int}

theorem renamePrefix_eq (aName : Text) :
    (renamePrefix aName).1 = cutPrefix (getPrefix aName) ∧
      (if (renamePrefix aName).2 then 1 else 0 : Int) = firstNumber (getPrefix aName) := by
  simp only [renamePrefix, firstNumber]
  split
  · exact ⟨rfl, rfl⟩
  · rename_i hfits
    have hle : (getPrefix aName).length ≤ kFavouritesMaxName - kFavouritesMaxPostfix := by
      rw [kFavouritesMaxName, kFavouritesMaxPostfix] at *
      omega
    exact ⟨(List.take_of_length_le hle).symm, rfl⟩

theorem StatedPrefix.of_whole (hvalue : ∀ pre inner, aName = parenthesised pre inner →
    openPar ∉ inner → lexVal inner = none) : StatedPrefix aName aName := by
  refine .whole fun pre inner v heq hv => ?_
  have hnone := hvalue pre inner heq (openPar_notMem hv)
  rw [hv.1] at hnone
  cases hnone

theorem exists_statedPrefix (aName : Text) : ∃ pre, StatedPrefix aName pre := by
  by_cases h : ∃ pre inner v, aName = parenthesised pre inner ∧ IntegerText inner v
  · obtain ⟨pre, inner, v, heq, hv⟩ := h
    exact ⟨pre, .number heq hv⟩
  · exact ⟨aName, .whole fun pre inner v heq hv => h ⟨pre, inner, v, heq, hv⟩⟩

theorem StatedPrefix.unique (h : StatedPrefix aName pre) (h' : StatedPrefix aName pre') :
    pre = pre' := by
  cases h with
  | number heq hv =>
      cases h' with
      | number heq' hv' =>
          exact (parenthesised_inj (openPar_notMem hv) (openPar_notMem hv')
            (heq.symm.trans heq')).1
      | whole hnot => exact (hnot _ _ _ heq hv).elim
  | whole hnot =>
      cases h' with
      | number heq' hv' => exact (hnot _ _ _ heq' hv').elim
      | whole => rfl

/-- The prefix that is meant for a name with a parenthesis that begins with an integer. -/
theorem statedPrefix_parenthesised (hnot : openPar ∉ inner) (hval : lexVal inner ≠ none)
    (h : StatedPrefix (parenthesised pre' inner) pre) :
    ((∀ c ∈ withoutSign inner, isDigit c) ∧ pre = pre') ∨
      (¬ (∀ c ∈ withoutSign inner, isDigit c) ∧ pre = parenthesised pre' inner) := by
  by_cases hwhole : ∀ c ∈ withoutSign inner, isDigit c
  · obtain ⟨v, hv⟩ := Option.ne_none_iff_exists'.mp hval
    exact .inl ⟨hwhole, h.unique (.number rfl ⟨hv, hwhole⟩)⟩
  · refine .inr ⟨hwhole, h.unique (.whole fun p q v heq hv => hwhole ?_)⟩
    obtain ⟨-, rfl⟩ := parenthesised_inj hnot (openPar_notMem hv) heq
    exact hv.2

/-! ## Names with numbers -/

theorem exists_formatName (pre : Text) (hpos : 0 < number) :
    ∃ digits, openPar ∉ digits ∧ digits ≠ [] ∧ (∀ c ∈ digits, isDigit c = true) ∧
      (digitsValue 0 digits : Int) = number ∧
      formatName pre number = parenthesised pre digits := by
  obtain ⟨digits, hne, hdigits, hvalue, hformat⟩ := formatName_eq pre hpos
  refine ⟨digits, fun hmem => ?_, hne, hdigits, hvalue, hformat⟩
  have hdigit := hdigits openPar hmem
  rw [openPar_not_digit] at hdigit
  cases hdigit

theorem formatName_zero (pre : Text) : formatName pre 0 = pre := if_pos rfl

theorem formatName_inj (hnonneg : 0 ≤ number) (hnonneg' : 0 ≤ number')
    (h : formatName pre number = formatName pre number') : number = number' := by
  rcases hnonneg.eq_or_lt with rfl | hpos
  · rcases hnonneg'.eq_or_lt with rfl | hpos'
    · rfl
    · obtain ⟨digits, -, -, -, -, hformat⟩ := exists_formatName pre hpos'
      rw [formatName_zero, hformat] at h
      have hlength := congrArg List.length h
      rw [parenthesised_length] at hlength
      omega
  · obtain ⟨digits, hnot, -, -, hvalue, hformat⟩ := exists_formatName pre hpos
    rcases hnonneg'.eq_or_lt with rfl | hpos'
    · rw [formatName_zero, hformat] at h
      have hlength := congrArg List.length h
      rw [parenthesised_length] at hlength
      omega
    · obtain ⟨digits', hnot', -, -, hvalue', hformat'⟩ := exists_formatName pre hpos'
      rw [hformat, hformat'] at h
      obtain ⟨-, rfl⟩ := parenthesised_inj hnot hnot' h
      rw [← hvalue, hvalue']

/-- A number has as many digits as it takes. -/
theorem decimalDigits_length (fuel : Nat) :
    ∀ {n k : Nat}, n < 10 ^ (k + 1) → (decimalDigits fuel n).length ≤ k + 1 := by
  induction fuel with
  | zero =>
      intro n k _
      exact Nat.succ_le_succ (Nat.zero_le k)
  | succ fuel ih =>
      intro n k hlt
      rw [decimalDigits]
      split
      · exact Nat.succ_le_succ (Nat.zero_le k)
      · rename_i hge
        cases k with
        | zero => exact absurd hlt (by simpa using Nat.not_lt.mp hge)
        | succ k =>
            have hrest : n / 10 < 10 ^ (k + 1) := by
              rw [Nat.div_lt_iff_lt_mul (by decide), ← pow_succ]
              exact hlt
            rw [List.length_append, List.length_singleton]
            exact Nat.succ_le_succ (ih hrest)

theorem formatName_length (pre : Text) (hnonneg : 0 ≤ number) (hlt : number < 2147483648) :
    (formatName pre number).length ≤ pre.length + kFavouritesMaxPostfix := by
  have hdigits : (decimal number.toNat).length ≤ 9 + 1 := by
    apply decimalDigits_length
    have hbound : number.toNat < 2147483648 := by omega
    exact hbound.trans (by decide)
  rw [formatName, kFavouritesMaxPostfix]
  split
  · omega
  · split <;>
    · simp only [List.length_append, List.length_cons, List.length_nil]
      omega

end

/-! ## The number that is chosen -/

section

variable (rules : CharRules) {rows : List Row} {aFolder aAcceptUid : Int} {aName name pre : Text}
  {number first : Int}

theorem mem_takenPostfixes (hfolder : aFolder ≠ kFavouritesNullUid) (hnonneg : 0 ≤ number) :
    number ∈ takenPostfixes rules pre aFolder aAcceptUid rows ↔
      ∃ r ∈ rows, Sibling aFolder aAcceptUid r ∧
        (HasNumber rules r.name pre number ∨ 0 < number ∧ LooksNumbered rules r.name pre number) := by
  rw [takenPostfixes, mem_postfixesOf]
  constructor
  · rintro ⟨r, hmem, hmatch, huid, hexempt, hpostfix⟩
    refine ⟨r, hmem, ⟨?_, huid, hexempt⟩, (getPostfix_eq_iff rules hnonneg).mp hpostfix⟩
    simp [Filter.matchRow, hfolder] at hmatch
    exact hmatch.2
  · rintro ⟨r, hmem, ⟨hparent, huid, hexempt⟩, hnumber⟩
    have hpostfix := (getPostfix_eq_iff rules hnonneg).mpr hnumber
    refine ⟨r, hmem, ?_, huid, hexempt, hpostfix⟩
    have hlike : like rules (pre ++ [star]) r.name = true :=
      like_of_getPostfix rules (by omega)
    simp [Filter.matchRow, hlike, hparent]

/-- The numbers that are free for the lexer. -/
def lexedNumbers (rows : List Row) (aFolder aAcceptUid : Int) (first : Int) (pre : Text) :
    Set Int :=
  {number | number ∈ freeNumbers rules rows aFolder aAcceptUid first pre ∧
    ∀ r ∈ rows, Sibling aFolder aAcceptUid r → 0 < number → ¬ LooksNumbered rules r.name pre number}

/-- The number that is chosen is the least that is free for the lexer. -/
theorem freePostfix_lexed (hfolder : aFolder ≠ kFavouritesNullUid) :
    IsLeast (lexedNumbers rules rows aFolder aAcceptUid (firstNumber (getPrefix aName))
        (cutPrefix (getPrefix aName)))
      (freePostfix (renamePrefix aName).2
        (takenPostfixes rules (renamePrefix aName).1 aFolder aAcceptUid rows)) := by
  obtain ⟨hpre, hfirst⟩ := renamePrefix_eq aName
  have hleast := freePostfix_isLeast (renamePrefix aName).2
    (takenPostfixes rules (renamePrefix aName).1 aFolder aAcceptUid rows)
  rw [hfirst] at hleast
  rw [hpre] at hleast ⊢
  convert hleast using 1
  ext number
  have hnonneg : firstNumber (getPrefix aName) ≤ number → 0 ≤ number := by
    rw [firstNumber]
    split <;> omega
  constructor
  · rintro ⟨⟨hge, hfree⟩, hlooks⟩
    refine ⟨hge, fun hmem => ?_⟩
    obtain ⟨r, hr, hsibling, hnumber | ⟨hpos, hnumber⟩⟩ :=
      (mem_takenPostfixes rules hfolder (hnonneg hge)).mp hmem
    · exact hfree r hr hsibling hnumber
    · exact hlooks r hr hsibling hpos hnumber
  · rintro ⟨hge, hnot⟩
    rw [mem_takenPostfixes rules hfolder (hnonneg hge)] at hnot
    refine ⟨⟨hge, fun r hr hsibling hnumber => ?_⟩, fun r hr hsibling hpos hnumber => ?_⟩
    · exact hnot ⟨r, hr, hsibling, .inl hnumber⟩
    · exact hnot ⟨r, hr, hsibling, .inr ⟨hpos, hnumber⟩⟩

/-- Where the reading of numbers makes no difference: a parenthesis at the end that begins with an
integer is one, or stands behind the longest prefix; the prefix is not empty, unless there is an
item without a name; and no other name has something in parentheses that only begins with the
number that is meant. -/
structure NumbersPlain (rows : List Row) (aFolder aAcceptUid : Int) (aName : Text) : Prop where
  inner : ∀ pre inner, aName = parenthesised pre inner → openPar ∉ inner → lexVal inner ≠ none →
    (∀ c ∈ withoutSign inner, isDigit c) ∨
      kFavouritesMaxName < pre.length + kFavouritesMaxPostfix ∨
      (pre.length + kFavouritesMaxPostfix = kFavouritesMaxName ∧
        ∃ r ∈ rows, Sibling aFolder aAcceptUid r ∧ rules.foldText r.name = rules.foldText pre)
  ne_nil : StatedPrefix aName [] → ∃ r ∈ rows, Sibling aFolder aAcceptUid r ∧ r.name = []
  number : ∀ pre number, StatedPrefix aName pre →
    IsLeast (freeNumbers rules rows aFolder aAcceptUid (firstNumber pre) (cutPrefix pre)) number →
    0 < number → ∀ r ∈ rows, Sibling aFolder aAcceptUid r →
      ¬ LooksNumbered rules r.name (cutPrefix pre) number

theorem firstNumber_nonneg (pre : Text) : 0 ≤ firstNumber pre := by
  rw [firstNumber]
  split <;> omega

theorem exists_least_free (hinhabited : number ∈ freeNumbers rules rows aFolder aAcceptUid first pre) :
    ∃ least, IsLeast (freeNumbers rules rows aFolder aAcceptUid first pre) least := by
  obtain ⟨least, hmem, hle⟩ := Int.exists_least_of_bdd
    (P := (· ∈ freeNumbers rules rows aFolder aAcceptUid first pre)) ⟨first, fun _ h => h.1⟩
    ⟨number, hinhabited⟩
  exact ⟨least, hmem, hle⟩

/-- The least number that is meant is the one that is chosen, unless a name only looks numbered. -/
theorem isLeast_of_lexed
    (hlexed : IsLeast (lexedNumbers rules rows aFolder aAcceptUid first pre) number)
    (hlooks : ∀ least, IsLeast (freeNumbers rules rows aFolder aAcceptUid first pre) least →
      0 < least → ∀ r ∈ rows, Sibling aFolder aAcceptUid r → ¬ LooksNumbered rules r.name pre least) :
    IsLeast (freeNumbers rules rows aFolder aAcceptUid first pre) number := by
  obtain ⟨least, hleast⟩ := exists_least_free rules hlexed.1.1
  have hmem : least ∈ lexedNumbers rules rows aFolder aAcceptUid first pre :=
    ⟨hleast.1, fun r hr hsibling hpos => hlooks least hleast hpos r hr hsibling⟩
  have heq : number = least := le_antisymm (hlexed.2 hmem) (hleast.2 hlexed.1.1)
  rwa [heq]

/-- A number from 1 on, if 0 is taken. -/
theorem freeNumbers_of_taken (htaken : ∃ r ∈ rows, Sibling aFolder aAcceptUid r ∧
      rules.foldText r.name = rules.foldText pre) :
    lexedNumbers rules rows aFolder aAcceptUid 0 pre =
      lexedNumbers rules rows aFolder aAcceptUid 1 pre := by
  ext number
  constructor
  · rintro ⟨⟨hge, hfree⟩, hlooks⟩
    refine ⟨⟨?_, hfree⟩, hlooks⟩
    rcases hge.eq_or_lt with rfl | hpos
    · obtain ⟨r, hr, hsibling, hfold⟩ := htaken
      exact (hfree r hr hsibling (.inl ⟨rfl, hfold⟩)).elim
    · exact hpos
  · rintro ⟨⟨hge, hfree⟩, hlooks⟩
    exact ⟨⟨by omega, hfree⟩, hlooks⟩

/-! ## Names that are made -/

/-- The prefix for the lexer and the prefix that is meant, and the numbers that go with them, are
the same. -/
theorem prefixes_agree (hplain : NumbersPlain rules rows aFolder aAcceptUid aName)
    (hstated : StatedPrefix aName pre) :
    cutPrefix (getPrefix aName) = cutPrefix pre ∧
      lexedNumbers rules rows aFolder aAcceptUid (firstNumber (getPrefix aName)) (cutPrefix pre) =
        lexedNumbers rules rows aFolder aAcceptUid (firstNumber pre) (cutPrefix pre) := by
  rcases prefix_cases aName with ⟨front, inner, rfl, hnot, hval, hfront⟩ | ⟨hfront, hnone⟩
  · rw [hfront]
    rcases statedPrefix_parenthesised hnot hval hstated with ⟨-, rfl⟩ | ⟨hwhole, rfl⟩
    · exact ⟨rfl, rfl⟩
    · have hcut : kFavouritesMaxName - kFavouritesMaxPostfix ≤ front.length →
          cutPrefix front = cutPrefix (parenthesised front inner) := by
        intro hle
        rw [cutPrefix, cutPrefix, parenthesised, List.take_append_of_le_length hle]
      have hlong : firstNumber (parenthesised front inner) = 1 ∨
          ¬ kFavouritesMaxName ≤ front.length + kFavouritesMaxPostfix := by
        rw [firstNumber, parenthesised_length]
        split
        · exact .inl rfl
        · right
          omega
      rcases hplain.inner front inner rfl hnot hval with hdigits | hlt | ⟨heq, r, hr, hsibling, hfold⟩
      · exact (hwhole hdigits).elim
      · refine ⟨hcut (by omega), ?_⟩
        rw [firstNumber, if_pos hlt, hlong.resolve_right (by omega)]
      · have hsame := hcut (by omega)
        have htake : cutPrefix front = front := List.take_of_length_le (by omega)
        refine ⟨hsame, ?_⟩
        rw [firstNumber, if_neg (by omega), hlong.resolve_right (by omega), ← hsame, htake]
        exact freeNumbers_of_taken rules ⟨r, hr, hsibling, hfold⟩
  · rw [hfront, hstated.unique (.of_whole hnone)]
    exact ⟨rfl, rfl⟩

theorem cutPrefix_length (pre : Text) :
    (cutPrefix pre).length ≤ kFavouritesMaxName - kFavouritesMaxPostfix ∧
      (cutPrefix pre).length ≤ pre.length := by
  rw [cutPrefix, List.length_take]
  exact ⟨Nat.min_le_left _ _, Nat.min_le_right _ _⟩

theorem StatedPrefix.length_le (h : StatedPrefix aName pre) : pre.length ≤ aName.length := by
  cases h with
  | number heq _ =>
      rw [heq, parenthesised_length]
      omega
  | whole => exact le_rfl

theorem nameAsMeant_of_plain (hplain : NumbersPlain rules rows aFolder aAcceptUid aName)
    (hlexed : IsLeast (lexedNumbers rules rows aFolder aAcceptUid (firstNumber (getPrefix aName))
      (cutPrefix (getPrefix aName))) number) (hlt : number < 2147483648) :
    NameAsMeant rules rows aFolder aAcceptUid aName
      (formatName (cutPrefix (getPrefix aName)) number) := by
  obtain ⟨pre, hstated⟩ := exists_statedPrefix aName
  obtain ⟨hcut, hnumbers⟩ := prefixes_agree rules hplain hstated
  rw [hcut] at hlexed ⊢
  rw [hnumbers] at hlexed
  have hleast := isLeast_of_lexed rules hlexed fun least hleast hpos =>
    hplain.number pre least hstated hleast hpos
  have hnonneg : 0 ≤ number := (firstNumber_nonneg pre).trans hleast.1.1
  have hlength := formatName_length (cutPrefix pre) hnonneg hlt
  obtain ⟨hshort, hle⟩ := cutPrefix_length pre
  have hstatedLength := hstated.length_le
  refine ⟨⟨pre, number, hstated, hleast, rfl⟩, ?_, ?_, by omega⟩
  · rw [isValidName, decide_eq_true_eq]
    rcases hnonneg.eq_or_lt with rfl | hpos
    · -- the prefix alone
      rw [formatName_zero, List.length_pos_iff]
      intro hnil
      have hempty : pre = [] := by
        rw [cutPrefix, List.take_eq_nil_iff] at hnil
        exact hnil.resolve_left (by decide)
      rw [hempty] at hstated hleast
      obtain ⟨r, hr, hsibling, hname⟩ := hplain.ne_nil hstated
      exact hleast.1.2 r hr hsibling (.inl ⟨rfl, by rw [hname]; rfl⟩)
    · obtain ⟨digits, -, -, -, -, hformat⟩ := exists_formatName (cutPrefix pre) hpos
      rw [hformat, parenthesised_length]
      omega
  · rw [kFavouritesMaxName, kFavouritesMaxPostfix] at *
    omega

theorem prefix_formatName (pre : Text) (hnonneg : 0 ≤ number) : pre <+: formatName pre number := by
  rcases hnonneg.eq_or_lt with rfl | hpos
  · rw [formatName_zero]
  · obtain ⟨digits, -, -, -, -, hformat⟩ := exists_formatName pre hpos
    rw [hformat]
    exact List.prefix_append _ _

theorem mem_of_mem_withoutSign {t : Text} {c : UInt16} (h : c ∈ withoutSign t) : c ∈ t := by
  rw [withoutSign] at h
  split at h
  · exact List.mem_of_mem_tail h
  · exact h

/-- A short name with a parenthesis that only begins with an integer does not come out. -/
theorem formatName_ne {front inner : Text} {meant : Int} (hnot : openPar ∉ inner)
    (hwhole : ¬ ∀ c ∈ withoutSign inner, isDigit c)
    (hshort : front.length + kFavouritesMaxPostfix < kFavouritesMaxName) (hnonneg : 0 ≤ number)
    (hmeant : firstNumber (parenthesised front inner) ≤ meant) :
    formatName front number ≠ formatName (cutPrefix (parenthesised front inner)) meant := by
  intro heq
  have hmeantNonneg := (firstNumber_nonneg _).trans hmeant
  have hlonger : front.length < (cutPrefix (parenthesised front inner)).length := by
    rw [cutPrefix, List.length_take, parenthesised_length, lt_min_iff]
    rw [kFavouritesMaxName, kFavouritesMaxPostfix] at *
    omega
  rcases hnonneg.eq_or_lt with rfl | hpos
  · rw [formatName_zero] at heq
    have hle := (prefix_formatName (cutPrefix (parenthesised front inner)) hmeantNonneg).length_le
    rw [← heq] at hle
    omega
  · obtain ⟨digits, hdigitsNot, -, hdigits, -, hformat⟩ := exists_formatName front hpos
    rw [hformat] at heq
    rcases hmeantNonneg.eq_or_lt with rfl | hmeantPos
    · -- the whole name, which has not been cut
      have hfits : (parenthesised front inner).length ≤
          kFavouritesMaxName - kFavouritesMaxPostfix := by
        rw [firstNumber] at hmeant
        split at hmeant
        · omega
        · rw [kFavouritesMaxName, kFavouritesMaxPostfix] at *
          omega
      rw [formatName_zero, cutPrefix, List.take_of_length_le hfits] at heq
      obtain ⟨-, rfl⟩ := parenthesised_inj hdigitsNot hnot heq
      exact hwhole fun c hmem => hdigits c (mem_of_mem_withoutSign hmem)
    · obtain ⟨digits', hnot', -, -, -, hformat'⟩ :=
        exists_formatName (cutPrefix (parenthesised front inner)) hmeantPos
      rw [hformat'] at heq
      obtain ⟨hfront, -⟩ := parenthesised_inj hdigitsNot hnot' heq
      rw [← hfront] at hlonger
      omega

/-- The prefix and the number of a name that comes out as it is meant. -/
theorem same_of_formatName {meant : Int} (hnonneg : 0 ≤ number) (hstated : StatedPrefix aName pre)
    (hmeant : firstNumber pre ≤ meant)
    (heq : formatName (cutPrefix (getPrefix aName)) number = formatName (cutPrefix pre) meant) :
    cutPrefix (getPrefix aName) = cutPrefix pre ∧ number = meant := by
  have hsame : cutPrefix (getPrefix aName) = cutPrefix pre := by
    rcases prefix_cases aName with ⟨front, inner, rfl, hnot, hval, hfront⟩ | ⟨hfront, hnone⟩
    · rw [hfront] at heq ⊢
      rcases statedPrefix_parenthesised hnot hval hstated with ⟨-, rfl⟩ | ⟨hwhole, rfl⟩
      · rfl
      · by_cases hshort : front.length + kFavouritesMaxPostfix < kFavouritesMaxName
        · have hfront : cutPrefix front = front := List.take_of_length_le (by omega)
          rw [hfront] at heq
          exact (formatName_ne hnot hwhole hshort hnonneg hmeant heq).elim
        · rw [cutPrefix, cutPrefix, parenthesised, List.take_append_of_le_length (by omega)]
    · rw [hfront, hstated.unique (.of_whole hnone)]
  rw [hsame] at heq
  exact ⟨hsame, formatName_inj hnonneg ((firstNumber_nonneg pre).trans hmeant) heq⟩

theorem plain_of_nameAsMeant
    (hlexed : IsLeast (lexedNumbers rules rows aFolder aAcceptUid (firstNumber (getPrefix aName))
      (cutPrefix (getPrefix aName))) number)
    (hmeant : NameAsMeant rules rows aFolder aAcceptUid aName
      (formatName (cutPrefix (getPrefix aName)) number)) :
    NumbersPlain rules rows aFolder aAcceptUid aName := by
  obtain ⟨⟨pre, meant, hstated, hleast, heq⟩, hvalid, -, -⟩ := hmeant
  have hnonneg : 0 ≤ number := (firstNumber_nonneg _).trans hlexed.1.1.1
  obtain ⟨hsame, rfl⟩ := same_of_formatName hnonneg hstated hleast.1.1 heq
  -- 0 is taken if it is not chosen
  have hzero : ∀ {first : Int} {p : Text}, first = 0 → 0 < number →
      IsLeast (lexedNumbers rules rows aFolder aAcceptUid first p) number →
      ∃ r ∈ rows, Sibling aFolder aAcceptUid r ∧ rules.foldText r.name = rules.foldText p := by
    rintro first p rfl hpos hleast'
    by_contra hfree
    have hmem : (0 : Int) ∈ lexedNumbers rules rows aFolder aAcceptUid 0 p := by
      refine ⟨⟨le_rfl, fun r hr hsibling hnumber => ?_⟩, fun _ _ _ h => absurd h (lt_irrefl 0)⟩
      rcases hnumber with ⟨-, hfold⟩ | ⟨h, -⟩
      · exact hfree ⟨r, hr, hsibling, hfold⟩
      · exact absurd h (lt_irrefl 0)
    have hle := hleast'.2 hmem
    omega
  constructor
  · intro front inner hname hnot hval
    subst hname
    rcases statedPrefix_parenthesised hnot hval hstated with ⟨hwhole, -⟩ | ⟨hwhole, rfl⟩
    · exact .inl hwhole
    · right
      have hfront : getPrefix (parenthesised front inner) = front :=
        getPrefix_parenthesised hnot hval
      rw [hfront] at heq hlexed
      rcases Nat.lt_trichotomy (front.length + kFavouritesMaxPostfix) kFavouritesMaxName with
        hlt | hlen | hgt
      · have hfront : cutPrefix front = front := List.take_of_length_le (by omega)
        rw [hfront] at heq
        exact (formatName_ne hnot hwhole hlt hnonneg hleast.1.1 heq).elim
      · have hfront : cutPrefix front = front := List.take_of_length_le (by omega)
        have hfirst : firstNumber front = 0 := if_neg (by omega)
        have hone : firstNumber (parenthesised front inner) = 1 := by
          rw [firstNumber, parenthesised_length]
          exact if_pos (by omega)
        have hpos : 0 < number := by
          have hge := hleast.1.1
          omega
        rw [hfront] at hlexed
        exact .inr ⟨hlen, hzero hfirst hpos hlexed⟩
      · exact .inl hgt
  · intro hempty
    cases hstated.unique hempty
    have hpos : 0 < number := by
      rcases hnonneg.eq_or_lt with rfl | hpos
      · rw [hsame, formatName_zero] at hvalid
        cases hvalid
      · exact hpos
    by_contra hfree
    have hmem : (0 : Int) ∈ freeNumbers rules rows aFolder aAcceptUid (firstNumber []) (cutPrefix []) := by
      refine ⟨le_rfl, fun r hr hsibling hnumber => ?_⟩
      rcases hnumber with ⟨-, hfold⟩ | ⟨h, -⟩
      · refine hfree ⟨r, hr, hsibling, List.length_eq_zero_iff.mp ?_⟩
        rw [← rules.length_foldText, hfold]
        rfl
      · exact absurd h (lt_irrefl 0)
    have hle := hleast.2 hmem
    omega
  · intro pre' least hstated' hleast' hpos r hr hsibling
    cases hstated.unique hstated'
    cases hleast.unique hleast'
    rw [← hsame]
    exact hlexed.1.2 r hr hsibling hpos

/-- The name that is made is the one that is meant, in every run that returns; and it returns unless
a call of the table leaves. -/
def MakesUniqueName (db : Db) (aName : Text) (aFolder aAcceptUid : Int) : Prop :=
  (∃ name db', makeUniqueNameL rules aName aFolder aAcceptUid { db with leaveAt := none } =
      .ok name db') ∧
    ∀ leaveAt name db', makeUniqueNameL rules aName aFolder aAcceptUid
        { db with leaveAt := leaveAt } = .ok name db' →
      NameAsMeant rules db.table.rows aFolder aAcceptUid aName name

/-- The generated name is the one that is meant exactly where the reading of numbers makes no
difference. -/
theorem makesUniqueName_iff (db : Db) (aName : Text) (aFolder aAcceptUid : Int)
    (hfolder : aFolder ≠ kFavouritesNullUid) (hroom : db.table.rows.length ≤ kMaxRows) :
    MakesUniqueName rules db aName aFolder aAcceptUid ↔
      NumbersPlain rules db.table.rows aFolder aAcceptUid aName := by
  have hlexed : IsLeast (lexedNumbers rules db.table.rows aFolder aAcceptUid
      (firstNumber (getPrefix aName)) (cutPrefix (getPrefix aName))) _ :=
    freePostfix_lexed rules hfolder
  have hlt : freePostfix (renamePrefix aName).2 (takenPostfixes rules (renamePrefix aName).1
      aFolder aAcceptUid db.table.rows) < 2147483648 := by
    obtain ⟨-, -, hle⟩ := freePostfix_spec (renamePrefix aName).2 (takenPostfixes rules
      (renamePrefix aName).1 aFolder aAcceptUid db.table.rows)
    have hlength : (takenPostfixes rules (renamePrefix aName).1 aFolder aAcceptUid
        db.table.rows).length ≤ db.table.rows.length := by
      rw [takenPostfixes, postfixesOf, List.length_map]
      exact List.length_filter_le _ _
    rw [kMaxRows] at hroom
    omega
  have hreturns : ∃ name db', makeUniqueNameL rules aName aFolder aAcceptUid
      { db with leaveAt := none } = .ok name db' :=
    makeUniqueNameL_returns rules aName aFolder aAcceptUid rfl
  constructor
  · rintro ⟨⟨name, db', hrun⟩, hall⟩
    have hmeant := hall none name db' hrun
    rw [makeUniqueNameL_eq rules hrun, (renamePrefix_eq aName).1] at hmeant
    rw [(renamePrefix_eq aName).1] at hlexed
    exact plain_of_nameAsMeant rules hlexed hmeant
  · intro hplain
    refine ⟨hreturns, fun leaveAt name db' hrun => ?_⟩
    rw [makeUniqueNameL_eq rules hrun, (renamePrefix_eq aName).1]
    rw [(renamePrefix_eq aName).1] at hlexed hlt
    exact nameAsMeant_of_plain rules hplain hlexed hlt

end

/-- A folder with one item. -/
def oneItemFolder (name : Text) : Db where
  stored := ⟨[], 2, 2⟩
  table :=
    { done := [], current := none, counter := 2, nextRecord := 2
      ahead := [{ Row.blank 1 1 with parentFolder := kFavouritesRootUid, name := name }] }
  tableOpen := true
  begun := true
  iInTransaction := true
  filter := none
  keepsCounter := true
  clock := fun _ => 0
  leaveAt := none

/-- The names `Foo` and `(1)`. -/
def nameFoo : Text := [70, 111, 111]

def nameOne : Text := [40, 49, 41]

/-- `Foo` is taken, and is made `Foo(01)`. -/
theorem makesUniqueName_iff_foo :
    MakesUniqueName .ascii (oneItemFolder nameFoo) nameFoo kFavouritesRootUid kFavouritesNullUid := by
  refine (makesUniqueName_iff .ascii _ _ _ _ (by decide) (by decide)).mpr ⟨?_, ?_, ?_⟩
  · intro pre inner hname
    exact absurd (congrArg List.getLast? hname) (by rw [parenthesised_getLast]; decide)
  · intro hstated
    generalize hname : nameFoo = name at hstated
    cases hstated with
    | number heq _ =>
        rw [← hname] at heq
        exact absurd (congrArg List.getLast? heq) (by rw [parenthesised_getLast]; decide)
    | whole => exact absurd hname (by decide)
  · rintro pre number hstated hleast hpos r hr hsibling ⟨pre', inner, hname, -⟩
    rw [show (oneItemFolder nameFoo).table.rows = [_] from rfl, List.mem_singleton] at hr
    rw [hr] at hname
    exact absurd (congrArg List.getLast? hname) (by rw [parenthesised_getLast]; decide)

/-- `(1)` is taken, and is made the empty name. -/
theorem not_makesUniqueName_one : ¬ ∀ (rules : CharRules) (db : Db) (aName : Text)
    (aFolder aAcceptUid : Int), isValidName aName → aFolder ≠ kFavouritesNullUid →
      db.table.rows.length ≤ kMaxRows → MakesUniqueName rules db aName aFolder aAcceptUid := by
  intro hall
  obtain ⟨⟨name, db', hrun⟩, hmeant⟩ := hall .ascii (oneItemFolder nameOne) nameOne
    kFavouritesRootUid kFavouritesNullUid (by decide) (by decide) (by decide)
  have hname : name = [] := by
    rw [makeUniqueNameL_eq .ascii hrun]
    decide +kernel
  have hvalid := (hmeant none name db' hrun).valid
  rw [hname] at hvalid
  cases hvalid

end SymbianWeb.Favourites.Store
