import SymbianWeb.Favourites.FilterText
import SymbianWeb.Favourites.FactoryRestore

/-!
# Rows that a filter selects

Going through the table with a constraint comes to the rows that pass it, in their order. With that,
`SetFiltersL` followed by `NextL` until the end gives the rows that match the filter if the text of
the filter has at most 255 characters (`filtersRight_iff`), and panics if it has more.
-/

set_option autoImplicit false

namespace SymbianWeb.Favourites.Store

open SearchCondition (Predicate escape quote blank andWord)

/-! ## How long the text is -/

/-- The length of a clause without what joins it to the one before. -/
def clauseSize : Predicate → Nat
  | .like column pattern => column.length + 8 + pattern.length + pattern.count quote
  | .equals column value => column.length + 5 + (decimalInt value).length

/-- The length of the text of a filter: the clauses, joined by a connective of three characters. -/
def Filter.querySize (aFilter : Filter) : Nat :=
  (aFilter.predicates.map fun p => clauseSize p + 3).sum - 3

theorem length_escape (t : Text) : (escape t).length = t.length + t.count quote := by
  induction t with
  | nil => rfl
  | cons c t ih =>
      have hescape : escape (c :: t) =
          (if c = quote then [quote, quote] else [c]) ++ escape t := List.flatMap_cons
      rw [hescape, List.length_append, ih]
      by_cases hc : c = quote
      · simp only [hc, if_true, List.count_cons_self, List.length_cons, List.length_nil]
        omega
      · simp only [hc, if_false, List.count_cons_of_ne hc, List.length_cons,
          List.length_nil]
        omega

/-- A text together with the connective that is kept for the next clause has room for what is
counted for the clauses so far. -/
structure Sized (sql : Text × Text) (ps : List Predicate) : Prop where
  size : sql.1.length + sql.2.length = (ps.map fun p => clauseSize p + 3).sum
  connective : sql.2.length = 3 ∨ (sql.2 = [] ∧ sql.1 = [])

theorem sized_name (name : Option Text) :
    Sized (nameText name) (name.map (.like kFavouritesDbNameColName)).toList := by
  cases name with
  | none => exact ⟨rfl, .inr ⟨rfl, rfl⟩⟩
  | some iName =>
      refine ⟨?_, .inl rfl⟩
      have hfront : (kFavouritesDbNameColName ++ blank :: SearchCondition.likeWord ++
          [blank, quote]).length = 11 := by decide
      rw [nameText, List.length_append, List.length_append, hfront, length_escape]
      show 11 + _ + 1 + 3 = 4 + 8 + iName.length + iName.count quote + 3 + 0
      omega

theorem sized_number (column : Text) (value : Option Int) {sql : Text × Text}
    {ps : List Predicate} (h : Sized sql ps) :
    Sized (numberText column value sql) (ps ++ (value.map (.equals column)).toList) := by
  cases value with
  | none =>
      rw [Option.map_none, Option.toList_none, List.append_nil]
      exact h
  | some v =>
      refine ⟨?_, .inl rfl⟩
      have hclause : (formatClause sql.2 column v).length =
          sql.2.length + (column.length + 5 + (decimalInt v).length) := by
        simp only [formatClause, List.length_cons, List.length_append]
        omega
      have hsize := h.size
      rw [numberText, List.length_append, hclause, Option.map_some, Option.toList_some,
        List.map_append, List.sum_append, ← hsize]
      show _ + andWord.length = _ + (column.length + 5 + (decimalInt v).length + 3 + 0)
      rw [show andWord.length = 3 from rfl]
      omega

/-- The text of a filter has the length that is worked out for it. -/
theorem length_queryText (aFilter : Filter) : (queryText aFilter).length = aFilter.querySize := by
  have hsized : Sized (numberText kFavouritesDbContextIdColName aFilter.context
      (numberText kFavouritesDbParentColName aFilter.parent
        (numberText kFavouritesDbTypeColName aFilter.typeCode (nameText aFilter.name))))
      aFilter.predicates :=
    sized_number _ _ (sized_number _ _ (sized_number _ _ (sized_name _)))
  rw [queryText, Filter.querySize, ← hsized.size]
  rcases hsized.connective with hthree | ⟨hnone, hempty⟩
  · omega
  · rw [hnone, hempty]
    rfl

/-! ## Going through the table -/

namespace SrvTable

variable {t : SrvTable}

@[simp] theorem passes_nextL (t : SrvTable) : t.nextL.passes = t.passes := rfl

/-- From anywhere, the rows that are still to come and pass are enumerated. -/
theorem enumerate_eq (rounds : Nat) : ∀ {t : SrvTable}, t.table.ahead.length ≤ rounds →
    enumerate rounds t = t.table.ahead.filter t.passes := by
  induction rounds with
  | zero =>
      intro t h
      rw [List.length_eq_zero_iff.mp (Nat.le_zero.mp h)]
      rfl
  | succ rounds ih =>
      intro t h
      obtain ⟨passed, -, hahead, hnot, hpass, hend⟩ := t.table.next_spec t.passes
      have hpassed : passed.filter t.passes = [] := by
        rw [List.filter_eq_nil_iff]
        intro r hmem
        rw [hnot r hmem]
        exact Bool.false_ne_true
      rw [hahead, List.filter_append, hpassed, List.nil_append, enumerate]
      -- `next` on the table is the `nextL` that the enumeration goes on with.
      have hnext : t.nextL.table = t.table.next t.passes := rfl
      rw [← hnext] at hahead hpass hend ⊢
      cases hcurrent : t.nextL.table.current with
      | none =>
          rw [hend hcurrent]
          rfl
      | some r =>
          have hfewer : t.nextL.table.ahead.length ≤ rounds := by
            rw [hahead, List.length_append, List.length_append, hcurrent] at h
            simp only [Option.toList_some, List.length_singleton] at h
            omega
          rw [Option.toList_some, List.singleton_append, List.filter_cons_of_pos (hpass r hcurrent)]
          show r :: enumerate rounds t.nextL = _
          rw [ih hfewer, passes_nextL]

/-- From the beginning, the rows that pass are enumerated. -/
theorem enumerate_beginningL {rounds : Nat} (h : t.table.rows.length ≤ rounds) :
    enumerate rounds t.beginningL = t.table.rows.filter t.passes :=
  enumerate_eq rounds (t := t.beginningL) h

/-! ## Setting a filter -/

variable {rules : CharRules} {dbms : Dbms} {aFilter : Filter} {t' : SrvTable}

/-- A text that does not fit is never made. -/
theorem setFiltersL_panics (h : kFavouritesMaxSql < aFilter.querySize) :
    t.setFiltersL dbms aFilter = .error .panic := by
  have hnone : filterText aFilter = none := by
    rw [filterText_eq, fit, if_neg (by rw [length_queryText]; exact Nat.not_le.mpr h)]
  rw [setFiltersL, hnone]

/-- A filter that fits is set, whatever filter there was, and lets pass the rows that match. -/
theorem setFiltersL_ok (hdbms : dbms.Follows rules) (h : aFilter.querySize ≤ kFavouritesMaxSql) :
    ∃ t', t.setFiltersL dbms aFilter = .ok t' ∧ t'.table = t.table ∧
      t'.passes = aFilter.matchRow rules := by
  have hsome : filterText aFilter = some (queryText aFilter) := by
    rw [filterText_eq, fit, if_pos (by rw [length_queryText]; exact h)]
  rw [setFiltersL, hsome]
  rcases compile_queryText aFilter with ⟨hempty, hnone⟩ | ⟨hne, hcompile⟩
  · refine ⟨t.clearFilters, if_pos hempty, rfl, ?_⟩
    funext r
    rw [← all_predicates, hnone]
    rfl
  · have hopen := hdbms _ _ hcompile (known_predicates aFilter)
    refine ⟨{ t.clearFilters with iFilter := some fun r => aFilter.predicates.all (holds rules r) },
      ?_, rfl, ?_⟩
    · dsimp only
      rw [if_neg hne, hopen]
    · funext r
      exact all_predicates rules aFilter r

end SrvTable

/-! ## Filters are right -/

/-- A filter on a name only. -/
def nameFilter (name : Text) : Filter where
  parentFolder := kFavouritesNullUid
  type := none
  name := some name
  contextId := kFavouritesNullContextId

/-- `SetFiltersL` does not panic, and then the rows that are enumerated are the ones that match. If
the filter is a name without wildcards, they are the rows with that name. -/
def FiltersRight (rules : CharRules) (dbms : Dbms) (t : SrvTable) (aFilter : Filter) : Prop :=
  ∃ t', t.setFiltersL dbms aFilter = .ok t' ∧
    ∀ rounds, t.table.rows.length ≤ rounds →
      t'.beginningL.enumerate rounds = t.table.rows.filter (aFilter.matchRow rules) ∧
      ∀ name, aFilter = nameFilter name → Plain name →
        t'.beginningL.enumerate rounds =
          t.table.rows.filter fun r => rules.foldText name = rules.foldText r.name

theorem querySize_nameFilter (name : Text) :
    (nameFilter name).querySize = 12 + name.length + name.count quote := by
  show (4 + 8 + name.length + name.count quote + 3 + 0) - 3 = _
  omega

theorem matchRow_nameFilter {rules : CharRules} {name : Text} (h : Plain name) :
    (nameFilter name).matchRow rules = fun r => decide (rules.foldText name = rules.foldText r.name) := by
  funext r
  have hlike : like rules name r.name = decide (rules.foldText name = rules.foldText r.name) := by
    rw [Bool.eq_iff_iff, like_plain rules h, decide_eq_true_iff]
  simp [Filter.matchRow, nameFilter, hlike]

/-- Filters are right if the text of the filter fits the buffer, and only then. -/
theorem filtersRight_iff {rules : CharRules} {dbms : Dbms} (hdbms : dbms.Follows rules)
    (t : SrvTable) (aFilter : Filter) :
    FiltersRight rules dbms t aFilter ↔ aFilter.querySize ≤ kFavouritesMaxSql := by
  constructor
  · rintro ⟨t', hset, -⟩
    by_contra hmore
    rw [SrvTable.setFiltersL_panics (Nat.not_le.mp hmore)] at hset
    cases hset
  · intro hfits
    obtain ⟨t', hset, htable, hpasses⟩ := SrvTable.setFiltersL_ok (t := t) hdbms hfits
    refine ⟨t', hset, fun rounds hrounds => ?_⟩
    have henumerate : t'.beginningL.enumerate rounds =
        t.table.rows.filter (aFilter.matchRow rules) := by
      rw [← htable] at hrounds ⊢
      rw [SrvTable.enumerate_beginningL hrounds, hpasses]
    refine ⟨henumerate, ?_⟩
    rintro name rfl hplain
    rw [henumerate, matchRow_nameFilter hplain]

/-- A database that reads conditions the way the library does. -/
def readingDbms (rules : CharRules) : Dbms := fun text =>
  match SearchCondition.compile text with
  | some ps => .ok fun r => ps.all (holds rules r)
  | none => .error .panic

theorem readingDbms_follows (rules : CharRules) : (readingDbms rules).Follows rules := by
  intro text ps hcompile _
  rw [readingDbms, hcompile]

/-- A table without rows. -/
def SrvTable.empty : SrvTable where
  table := { done := [], current := none, ahead := [], counter := 1, nextRecord := 0 }
  iFilter := none

/-- A name that is a quote is looked for. -/
theorem filtersRight_iff_quote :
    FiltersRight .ascii (readingDbms .ascii) .empty (nameFilter [quote]) :=
  (filtersRight_iff (readingDbms_follows .ascii) .empty (nameFilter [quote])).mpr (by decide)

/-- The text for a name of 244 characters does not fit. -/
theorem not_filtersRight_long : ¬ ∀ (rules : CharRules) (dbms : Dbms), dbms.Follows rules →
    ∀ (t : SrvTable) (aFilter : Filter), FiltersRight rules dbms t aFilter := by
  intro h
  obtain ⟨t', hset, -⟩ := h .ascii _ (readingDbms_follows .ascii) .empty
    (nameFilter (List.replicate 244 97))
  have hsize : (nameFilter (List.replicate 244 97)).querySize = 256 := by
    rw [querySize_nameFilter, List.length_replicate, List.count_replicate]
    rfl
  rw [SrvTable.setFiltersL_panics (by rw [hsize]; decide)] at hset
  cases hset

end SymbianWeb.Favourites.Store
