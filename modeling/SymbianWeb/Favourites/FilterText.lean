import SymbianWeb.Favourites.NameSearch
import SymbianWeb.Library.SearchCondition

/-!
# Filters of the favourites table

A filter is written as a search condition into a buffer of 255 characters, one clause for each
criterion that is given, and the database makes a constraint of it that the table asks for each row
(`SrvTable`). What the condition selects are the rows that match the filter, as long as it fits the
buffer, and a filter that was there before does not matter. The name is not limited, so it may not
fit; then the server panics (`filtersRight_iff`).

The database is not part of the program. It is taken as given that it makes of a text what the text
says as a search condition (`Dbms.Follows`).
-/

set_option autoImplicit false

namespace SymbianWeb.Favourites.Store

open SearchCondition (Token Predicate Scan scan escape quote blank andWord)

/-! ## The text of a filter -/

/-- The buffer of the query. -/
def kFavouritesMaxSql : Nat := 255

/-- `Name`, `Type`, `Parent` and `ContextId` -/
def kFavouritesDbNameColName : Text := [78, 97, 109, 101]

def kFavouritesDbTypeColName : Text := [84, 121, 112, 101]

def kFavouritesDbParentColName : Text := [80, 97, 114, 101, 110, 116]

def kFavouritesDbContextIdColName : Text := [67, 111, 110, 116, 101, 120, 116, 73, 100]

/-- The numbers of `EItem` and `EFolder`. -/
def ItemType.code : ItemType → Int
  | .item => 1
  | .folder => 2

/-- `Append` and `Format` on a buffer of the query, which panic when it is full. -/
def appendDes (buf t : Text) : Option Text :=
  if (buf ++ t).length ≤ kFavouritesMaxSql then some (buf ++ t) else none

def appendEscaped (aBuffer : Text) : Text → Option Text
  | [] => some aBuffer
  | c :: aLiteral => do
      let aBuffer ← appendDes aBuffer [c]
      let aBuffer ← if c = quote then appendDes aBuffer [quote] else some aBuffer
      appendEscaped aBuffer aLiteral

/-- A number in decimal, with its sign. -/
def decimalInt (v : Int) : Text :=
  if v < 0 then SearchCondition.minus :: decimal v.natAbs else decimal v.natAbs

/-- The format `" %S %S = %d"`. -/
def formatClause (sConn column : Text) (value : Int) : Text :=
  blank :: (sConn ++ blank :: (column ++ blank :: SearchCondition.equalsSign :: blank ::
    decimalInt value))

/-- The clause for the name, which is the first one. With the text goes the connective for the next
clause. -/
def nameClause : Option Text → Option (Text × Text)
  | none => some ([], [])
  | some iName => do
      let sql ← appendDes [] (kFavouritesDbNameColName ++ blank :: SearchCondition.likeWord ++
        [blank, quote])
      let sql ← appendEscaped sql iName
      let sql ← appendDes sql [quote]
      some (sql, andWord)

/-- The clause for a number, if there is a criterion. It is formatted in a buffer of its own. -/
def numberClause (column : Text) (value : Option Int) (sql : Text × Text) :
    Option (Text × Text) :=
  match value with
  | none => some sql
  | some v => do
      let tmp ← appendDes [] (formatClause sql.2 column v)
      let text ← appendDes sql.1 tmp
      some (text, andWord)

/-- The criteria of a filter that are numbers. -/
def Filter.typeCode (aFilter : Filter) : Option Int := aFilter.type.map ItemType.code

def Filter.parent (aFilter : Filter) : Option Int :=
  if aFilter.parentFolder ≠ kFavouritesNullUid then some aFilter.parentFolder else none

def Filter.context (aFilter : Filter) : Option Int :=
  if aFilter.contextId ≠ kFavouritesNullContextId then some aFilter.contextId else none

/-- The text that is put together for a filter. -/
def filterText (aFilter : Filter) : Option Text := do
  let sql ← nameClause aFilter.name
  let sql ← numberClause kFavouritesDbTypeColName aFilter.typeCode sql
  let sql ← numberClause kFavouritesDbParentColName aFilter.parent sql
  let sql ← numberClause kFavouritesDbContextIdColName aFilter.context sql
  some sql.1

/-! ## The table with its filter -/

/-- The database: what it makes of the text of a query on the table, or an error. -/
abbrev Dbms := Text → Except Leave (Row → Bool)

/-- `RFavouritesSrvTable`, with the constraint that is open while it is filtering. -/
structure SrvTable where
  table : Table
  iFilter : Option (Row → Bool)

namespace SrvTable

def clearFilters (t : SrvTable) : SrvTable := { t with iFilter := none }

/-- `SetFiltersL`; no constraint is made for an empty text. -/
def setFiltersL (dbms : Dbms) (aFilter : Filter) (t : SrvTable) : Except Leave SrvTable :=
  match filterText aFilter with
  | none => .error .panic
  | some sql =>
      if sql = [] then .ok t.clearFilters
      else
        match dbms sql with
        | .error e => .error e
        | .ok iFilter => .ok { t.clearFilters with iFilter := some iFilter }

def beginningL (t : SrvTable) : SrvTable := { t with table := t.table.beginning }

/-- Whether the filter, if there is one, lets a row pass. -/
def passes (t : SrvTable) (r : Row) : Bool := t.iFilter.all fun iFilter => iFilter r

def nextL (t : SrvTable) : SrvTable := { t with table := t.table.next t.passes }

/-- The rows that `NextL` comes to, in at most so many steps. -/
def enumerate : Nat → SrvTable → List Row
  | 0, _ => []
  | rounds + 1, t =>
      match t.nextL.table.current with
      | none => []
      | some r => r :: enumerate rounds t.nextL

end SrvTable

/-! ## What the text says -/

/-- Whether a predicate holds of a row. -/
def holds (rules : CharRules) (r : Row) : Predicate → Bool
  | .like column pattern => column = kFavouritesDbNameColName && like rules pattern r.name
  | .equals column value =>
      (column = kFavouritesDbTypeColName && r.type.code = value) ||
        (column = kFavouritesDbParentColName && r.parentFolder = value) ||
        (column = kFavouritesDbContextIdColName && r.contextId = value)

/-- The predicate is about a column of the table, of the type of the column. -/
def Known : Predicate → Prop
  | .like column _ => column = kFavouritesDbNameColName
  | .equals column _ => column = kFavouritesDbTypeColName ∨ column = kFavouritesDbParentColName ∨
      column = kFavouritesDbContextIdColName

/-- The database follows its query language, with comparisons that fold case. -/
def Dbms.Follows (dbms : Dbms) (rules : CharRules) : Prop :=
  ∀ text ps, SearchCondition.compile text = some ps → (∀ p ∈ ps, Known p) →
    dbms text = .ok fun r => ps.all (holds rules r)

/-- The criteria of a filter as predicates. -/
def Filter.predicates (aFilter : Filter) : List Predicate :=
  (aFilter.name.map (.like kFavouritesDbNameColName)).toList ++
    (aFilter.typeCode.map (.equals kFavouritesDbTypeColName)).toList ++
    (aFilter.parent.map (.equals kFavouritesDbParentColName)).toList ++
    (aFilter.context.map (.equals kFavouritesDbContextIdColName)).toList

theorem ItemType.code_inj {type type' : ItemType} : type.code = type'.code ↔ type = type' := by
  cases type <;> cases type' <;> decide

/-- The predicates of a filter hold of the rows that match it. -/
theorem all_predicates (rules : CharRules) (aFilter : Filter) (r : Row) :
    aFilter.predicates.all (holds rules r) = aFilter.matchRow rules r := by
  have hname : (aFilter.name.map (Predicate.like kFavouritesDbNameColName)).toList.all
      (holds rules r) = aFilter.name.all fun pattern => like rules pattern r.name := by
    cases aFilter.name <;> simp [holds]
  have htype : (aFilter.typeCode.map (Predicate.equals kFavouritesDbTypeColName)).toList.all
      (holds rules r) = aFilter.type.all fun type => r.type = type := by
    cases htype : aFilter.type with
    | none => simp [Filter.typeCode, htype]
    | some type =>
        simp [Filter.typeCode, htype, holds, ItemType.code_inj, kFavouritesDbTypeColName,
          kFavouritesDbParentColName, kFavouritesDbContextIdColName]
  have hparent : (aFilter.parent.map (Predicate.equals kFavouritesDbParentColName)).toList.all
      (holds rules r) =
        (aFilter.parentFolder = kFavouritesNullUid || r.parentFolder = aFilter.parentFolder) := by
    rw [Filter.parent]
    split
    · rename_i hne
      simp [holds, hne, kFavouritesDbTypeColName, kFavouritesDbParentColName,
        kFavouritesDbContextIdColName]
    · rename_i heq
      rw [not_not] at heq
      simp [heq]
  have hcontext : (aFilter.context.map (Predicate.equals kFavouritesDbContextIdColName)).toList.all
      (holds rules r) =
        (aFilter.contextId = kFavouritesNullContextId || r.contextId = aFilter.contextId) := by
    rw [Filter.context]
    split
    · rename_i hne
      simp [holds, hne, kFavouritesDbTypeColName, kFavouritesDbParentColName,
        kFavouritesDbContextIdColName]
    · rename_i heq
      rw [not_not] at heq
      simp [heq]
  rw [Filter.predicates, List.all_append, List.all_append, List.all_append, hname, htype, hparent,
    hcontext, Filter.matchRow]

theorem known_predicates (aFilter : Filter) : ∀ p ∈ aFilter.predicates, Known p := by
  intro p hmem
  simp only [Filter.predicates, List.mem_append, Option.mem_toList, Option.map_eq_some_iff] at hmem
  rcases hmem with ((⟨_, -, rfl⟩ | ⟨_, -, rfl⟩) | ⟨_, -, rfl⟩) | ⟨_, -, rfl⟩
  · rfl
  · exact .inl rfl
  · exact .inr (.inl rfl)
  · exact .inr (.inr rfl)

/-! ## The text without a limit -/

/-- A text that fits the buffer. -/
def fit (t : Text) : Option Text := if t.length ≤ kFavouritesMaxSql then some t else none

/-- The clauses as they are when there is room for them, with the connective for the next one. -/
def nameText : Option Text → Text × Text
  | none => ([], [])
  | some iName =>
      (kFavouritesDbNameColName ++ blank :: SearchCondition.likeWord ++ [blank, quote] ++
        escape iName ++ [quote], andWord)

def numberText (column : Text) (value : Option Int) (sql : Text × Text) : Text × Text :=
  match value with
  | none => sql
  | some v => (sql.1 ++ formatClause sql.2 column v, andWord)

/-- The text of a filter. -/
def queryText (aFilter : Filter) : Text :=
  (numberText kFavouritesDbContextIdColName aFilter.context
    (numberText kFavouritesDbParentColName aFilter.parent
      (numberText kFavouritesDbTypeColName aFilter.typeCode (nameText aFilter.name)))).1

theorem fit_bind (t u : Text) : ((fit t).bind fun s => appendDes s u) = fit (t ++ u) := by
  by_cases h : t.length ≤ kFavouritesMaxSql
  · rw [fit, if_pos h]
    rfl
  · have hmore : ¬ (t ++ u).length ≤ kFavouritesMaxSql := by
      rw [List.length_append]
      omega
    rw [fit, if_neg h, fit, if_neg hmore]
    rfl

/-- An escaped literal is appended character by character. -/
theorem appendEscaped_eq (buf aLiteral : Text) :
    ((fit buf).bind fun s => appendEscaped s aLiteral) = fit (buf ++ escape aLiteral) := by
  induction aLiteral generalizing buf with
  | nil =>
      have hnil : escape [] = [] := rfl
      rw [hnil, List.append_nil]
      exact Option.bind_fun_some (fit buf)
  | cons c aLiteral ih =>
      have hstep : ((fit buf).bind fun s => appendEscaped s (c :: aLiteral)) =
          ((((fit buf).bind fun s => appendDes s [c]).bind fun s =>
            if c = quote then appendDes s [quote] else some s).bind fun s =>
              appendEscaped s aLiteral) := by
        rw [Option.bind_assoc, Option.bind_assoc]
        congr 1
        funext s
        rw [appendEscaped, Option.bind_eq_bind]
        congr 1
        funext s'
        by_cases hc : c = quote
        · simp only [hc, if_true]
        · simp only [hc, if_false]
      rw [hstep, fit_bind]
      have hescape : escape (c :: aLiteral) =
          (if c = quote then [quote, quote] else [c]) ++ escape aLiteral := List.flatMap_cons
      rw [hescape]
      by_cases hc : c = quote
      · simp only [hc, if_true]
        rw [fit_bind, ih, List.append_assoc, List.append_assoc]
        rfl
      · simp only [hc, if_false]
        rw [Option.bind_fun_some, ih, List.append_assoc]

theorem nameClause_eq (name : Option Text) :
    nameClause name = (fit (nameText name).1).map (·, (nameText name).2) := by
  cases name with
  | none => rfl
  | some iName =>
      have hparts : nameClause (some iName) =
          ((((fit []).bind fun s => appendDes s (kFavouritesDbNameColName ++
            blank :: SearchCondition.likeWord ++ [blank, quote])).bind fun s =>
              appendEscaped s iName).bind fun s => appendDes s [quote]).map (·, andWord) := by
        rw [Option.map_eq_bind, Option.bind_assoc, Option.bind_assoc]
        rfl
      rw [hparts, fit_bind, appendEscaped_eq, fit_bind]
      rfl

theorem numberClause_eq (column : Text) (value : Option Int) (sql : Text × Text) :
    (((fit sql.1).map (·, sql.2)).bind fun s => numberClause column value s) =
      (fit (numberText column value sql).1).map (·, (numberText column value sql).2) := by
  cases value with
  | none => exact Option.bind_fun_some _
  | some v =>
      by_cases h : (sql.1 ++ formatClause sql.2 column v).length ≤ kFavouritesMaxSql
      · have hsql : sql.1.length ≤ kFavouritesMaxSql := by
          rw [List.length_append] at h
          omega
        have hclause : ([] ++ formatClause sql.2 column v).length ≤ kFavouritesMaxSql := by
          rw [List.nil_append]
          rw [List.length_append] at h
          omega
        have hright : fit (numberText column (some v) sql).1 =
            some (sql.1 ++ formatClause sql.2 column v) := if_pos h
        rw [hright, fit, if_pos hsql, Option.map_some, Option.map_some, Option.bind_some]
        simp only [numberClause, appendDes, if_pos hclause]
        simp only [List.nil_append, Option.bind_eq_bind, Option.bind_some, if_pos h]
        rfl
      · have hnone : ∀ s : Text × Text, s.1 = sql.1 → s.2 = sql.2 →
            numberClause column (some v) s = none := by
          rintro ⟨_, _⟩ rfl rfl
          simp only [numberClause, appendDes, List.nil_append, Option.bind_eq_bind]
          split
          · rw [Option.bind_some, if_neg h]
            rfl
          · rfl
        have hright : fit (numberText column (some v) sql).1 = none := if_neg h
        rw [hright, Option.map_none]
        cases hfit : fit sql.1 with
        | none => rfl
        | some text =>
            have htext : text = sql.1 := by
              rw [fit] at hfit
              split at hfit
              · exact (Option.some.inj hfit).symm
              · cases hfit
            rw [Option.map_some, Option.bind_some]
            exact hnone _ htext rfl

/-- The text that is put together is the text of the filter, if it fits. -/
theorem filterText_eq (aFilter : Filter) : filterText aFilter = fit (queryText aFilter) := by
  have hchain : filterText aFilter =
      ((((nameClause aFilter.name).bind fun s =>
        numberClause kFavouritesDbTypeColName aFilter.typeCode s).bind fun s =>
          numberClause kFavouritesDbParentColName aFilter.parent s).bind fun s =>
            numberClause kFavouritesDbContextIdColName aFilter.context s).map (·.1) := by
    rw [Option.map_eq_bind, Option.bind_assoc, Option.bind_assoc, Option.bind_assoc]
    rfl
  rw [hchain, nameClause_eq, numberClause_eq, numberClause_eq, numberClause_eq, Option.map_map]
  exact Option.map_id'

/-! ## What is read of the text -/

theorem digitsValue_eq {t : Text} (h : ∀ c ∈ t, isDigit c = true) (acc : Nat) :
    SearchCondition.digitsValue acc t = digitsValue acc t := by
  induction t generalizing acc with
  | nil => rfl
  | cons c t ih =>
      have hc := h c List.mem_cons_self
      rw [SearchCondition.digitsValue, List.foldl_cons, digitsValue, if_pos hc]
      exact ih (fun d hmem => h d (List.mem_cons_of_mem c hmem)) _

theorem not_delimiter_of_digit {c : UInt16} (h : isDigit c = true) :
    SearchCondition.isDelimiter c = false ∧ c ≠ SearchCondition.minus := by
  have hrange := toNat_lt_of_isDigit h
  refine ⟨?_, ?_⟩
  · simp only [SearchCondition.isDelimiter, Bool.or_eq_false_iff, decide_eq_false_iff_not]
    refine ⟨⟨?_, ?_⟩, ?_⟩
    · rintro rfl
      exact absurd hrange.1 (by decide)
    · rintro rfl
      exact absurd hrange.1 (by decide)
    · rintro rfl
      exact absurd hrange.2 (by decide)
  · rintro rfl
    exact absurd hrange.1 (by decide)

theorem begin_digit {c : UInt16} (h : isDigit c = true) :
    SearchCondition.begin c = (.number [c], []) := by
  obtain ⟨hdelimiter, -⟩ := not_delimiter_of_digit h
  simp only [SearchCondition.isDelimiter, Bool.or_eq_false_iff, decide_eq_false_iff_not]
    at hdelimiter
  have hdigit : SearchCondition.isDigit c = true := h
  rw [SearchCondition.begin, if_neg hdelimiter.1.1, if_neg hdelimiter.1.2, if_neg hdelimiter.2,
    hdigit, Bool.true_or, if_pos rfl]

/-- A number is scanned as one, and has its value. -/
theorem scan_decimalInt (v : Int) :
    scan .between (decimalInt v) = (.number (decimalInt v), []) ∧
      SearchCondition.numeral (decimalInt v) = v := by
  have hdigits : ∀ c ∈ decimal v.natAbs, isDigit c = true := isDigit_decimalDigits _
  have hvalue : SearchCondition.digitsValue 0 (decimal v.natAbs) = v.natAbs := by
    rw [digitsValue_eq hdigits]
    exact digitsValue_decimalDigits _ le_rfl
  have hplain : ∀ c ∈ decimal v.natAbs, SearchCondition.isDelimiter c = false :=
    fun c hmem => (not_delimiter_of_digit (hdigits c hmem)).1
  rw [decimalInt]
  split
  · rename_i hneg
    refine ⟨SearchCondition.scan_number (by decide) hplain, ?_⟩
    rw [SearchCondition.numeral, if_pos rfl, hvalue]
    omega
  · rename_i hnonneg
    have hne : decimal v.natAbs ≠ [] := decimalDigits_ne_nil _ _
    generalize decimal v.natAbs = digits at *
    cases digits with
    | nil => exact (hne rfl).elim
    | cons c digits =>
        have hc := hdigits c List.mem_cons_self
        refine ⟨SearchCondition.scan_number (begin_digit hc)
          fun d hmem => hplain d (List.mem_cons_of_mem c hmem), ?_⟩
        rw [SearchCondition.numeral, if_neg (not_delimiter_of_digit hc).2, hvalue]
        omega

/-- What the scanner and the parser have read of the text so far: the predicates `ps`. -/
inductive Reading : Text × Text → List Predicate → Prop
  | empty : Reading ([], []) []
  | read {text : Text} {s : Scan} {ts ts' : List Token} {ps : List Predicate}
      (hscan : scan .between text = (s, ts)) (hflush : s.flush = some ts')
      (hjoined : SearchCondition.Joined (ts ++ ts') ps) : Reading (text, andWord) ps

theorem reading_name (name : Option Text) :
    Reading (nameText name) (name.map (.like kFavouritesDbNameColName)).toList := by
  cases name with
  | none => exact .empty
  | some iName =>
      have hscan : scan .between (nameText (some iName)).1 = (.closed iName,
          [.word kFavouritesDbNameColName, .word SearchCondition.likeWord]) := by
        have hfront : scan .between (kFavouritesDbNameColName ++
            blank :: SearchCondition.likeWord ++ [blank, quote]) = (.literal [],
              [.word kFavouritesDbNameColName, .word SearchCondition.likeWord]) := by
          decide
        have hback : scan (.literal iName) [quote] = (.closed iName, []) := by
          simp [scan, SearchCondition.step]
        rw [nameText, SearchCondition.scan_append, SearchCondition.scan_append, hfront]
        simp only [SearchCondition.scan_escape, List.nil_append, hback, List.append_nil]
      exact .read hscan rfl (.one (.like _ iName))

/-- A clause for a number goes on with the condition. -/
theorem reading_number {column : Text} {sql : Text × Text} {ps : List Predicate}
    (hcolumn : scan .between (column ++ [blank, SearchCondition.equalsSign, blank]) =
      (.between, [.word column, .equals])) (value : Option Int) (h : Reading sql ps) :
    Reading (numberText column value sql) (ps ++ (value.map (.equals column)).toList) := by
  cases value with
  | none =>
      rw [Option.map_none, Option.toList_none, List.append_nil]
      exact h
  | some v =>
      obtain ⟨hdigits, hvalue⟩ := scan_decimalInt v
      have hclause : scan .between (column ++ blank :: SearchCondition.equalsSign :: blank ::
          decimalInt v) = (.number (decimalInt v), [.word column, .equals]) := by
        have hsplit : column ++ blank :: SearchCondition.equalsSign :: blank :: decimalInt v =
            (column ++ [blank, SearchCondition.equalsSign, blank]) ++ decimalInt v := by
          simp
        rw [hsplit, SearchCondition.scan_append, hcolumn]
        simp only [hdigits, List.append_nil]
      have hwritten : SearchCondition.Written [.word column, .equals, .number (decimalInt v)]
          (.equals column v) := by
        have hwritten := SearchCondition.Written.equals column (decimalInt v)
        rwa [hvalue] at hwritten
      cases h with
      | empty =>
          have hbetween : Scan.flush .between = some [] := rfl
          have hread : scan .between ([] ++ formatClause [] column v) =
              (.number (decimalInt v), [.word column, .equals]) := by
            rw [List.nil_append, formatClause, List.nil_append,
              SearchCondition.scan_blank hbetween, SearchCondition.scan_blank hbetween, hclause]
            rfl
          exact .read hread rfl (.one hwritten)
      | @read text s ts ts' _ hscan hflush hjoined =>
          have hand : scan .between (andWord ++ blank :: (column ++ blank ::
              SearchCondition.equalsSign :: blank :: decimalInt v)) =
              (.number (decimalInt v), [.word andWord, .word column, .equals]) := by
            have hword : scan .between andWord = (.word andWord, []) := by decide
            rw [SearchCondition.scan_append, hword]
            dsimp only
            have hflush : (Scan.word andWord).flush = some [.word andWord] := rfl
            rw [SearchCondition.scan_blank hflush, hclause]
            rfl
          have hread : scan .between (text ++ formatClause andWord column v) =
              (.number (decimalInt v), ts ++ ts' ++ [.word andWord, .word column, .equals]) := by
            rw [formatClause, SearchCondition.scan_append, hscan]
            dsimp only
            rw [SearchCondition.scan_blank hflush, hand, List.append_assoc]
          refine .read hread rfl ?_
          have hsnoc := SearchCondition.Joined.snoc hjoined hwritten
          rwa [List.append_assoc (ts ++ ts')]

/-- The text of a filter states the criteria of the filter. -/
theorem compile_queryText (aFilter : Filter) :
    (queryText aFilter = [] ∧ aFilter.predicates = []) ∨
      (queryText aFilter ≠ [] ∧
        SearchCondition.compile (queryText aFilter) = some aFilter.predicates) := by
  have hreading : Reading (numberText kFavouritesDbContextIdColName aFilter.context
      (numberText kFavouritesDbParentColName aFilter.parent
        (numberText kFavouritesDbTypeColName aFilter.typeCode (nameText aFilter.name))))
      aFilter.predicates :=
    reading_number (by decide) _ (reading_number (by decide) _ (reading_number (by decide) _
      (reading_name _)))
  rw [queryText]
  generalize numberText kFavouritesDbContextIdColName aFilter.context _ = sql at hreading ⊢
  generalize aFilter.predicates = ps at hreading ⊢
  cases hreading with
  | empty => exact .inl ⟨rfl, rfl⟩
  | @read text s ts ts' _ hscan hflush hjoined =>
      refine .inr ⟨?_, ?_⟩
      · rintro rfl
        cases hscan
        cases hflush
        exact hjoined.ne_nil rfl
      · rw [SearchCondition.compile, SearchCondition.tokens_eq hscan hflush]
        exact hjoined.search_eq

end SymbianWeb.Favourites.Store
