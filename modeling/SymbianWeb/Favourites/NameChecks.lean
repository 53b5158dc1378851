import SymbianWeb.Favourites.RowLoops

/-!
# What the checks of a name find out

A name is free in a folder if no row takes it. In place of a name that is taken there is one whose
number is not a postfix of any name that begins like it.
-/

set_option autoImplicit false

namespace SymbianWeb.Favourites.Store

open ErrorState

/-! ## Whether a name is taken -/

section

variable (rules : CharRules) {db db' : Db}

theorem folderExistsL_ok {aFolder : Int} (htrans : db.iInTransaction = true)
    (h : folderExistsL aFolder db = .ok true db') :
    ∃ r ∈ db.table.rows, r.uid = aFolder ∧ r.type = .folder := by
  rw [folderExistsL, transaction_of_iInTransaction htrans] at h
  obtain ⟨found, db₁, hseek, hrest⟩ := bind_eq_ok.mp h
  cases found with
  | false => cases hrest
  | true =>
      obtain ⟨r, hcurrent, hmem, huid⟩ := of_seekToUidL hseek
      obtain ⟨r₁, db₂, hget, hpure⟩ := bind_eq_ok.mp hrest
      obtain ⟨hcurrent₁, -⟩ := getL_ok hget
      rw [hcurrent] at hcurrent₁
      cases hcurrent₁
      cases hpure' : decide (r.type = .folder) with
      | true => exact ⟨r, hmem, huid, of_decide_eq_true hpure'⟩
      | false =>
          simp only [hpure', pure_run] at hpure
          cases hpure

/-- Whether a name is taken in a folder: what the query finds, but for the accepted item and those
whose names need not be unique. -/
def Takes (aName : Text) (aFolder aAcceptUid : Int) (r : Row) : Prop :=
  Filter.matchRow rules ⟨aFolder, none, some aName, kFavouritesNullContextId⟩ r = true ∧
    r.uid ≠ aAcceptUid ∧ isExempt r.uid = false

theorem isUniqueNameL_ok {aName : Text} {aFolder aAcceptUid : Int} {unique : Bool}
    (htrans : db.iInTransaction = true)
    (h : isUniqueNameL rules aName aFolder aAcceptUid db = .ok unique db') :
    (unique = true → ∀ r ∈ db.table.rows, ¬ Takes rules aName aFolder aAcceptUid r) ∧
      (unique = false → ∃ r ∈ db.table.rows, Takes rules aName aFolder aAcceptUid r) := by
  obtain ⟨_, db₁, hfilter, hrest⟩ := bind_eq_ok.mp h
  obtain ⟨unique₁, db₂, hloop, hrest⟩ := bind_eq_ok.mp hrest
  obtain ⟨_, db₃, -, hpure⟩ := bind_eq_ok.mp hrest
  cases hpure
  obtain ⟨htable, hpasses⟩ := setFiltersL_ok hfilter
  have hpass := hpasses rules
  have hrows := (quiet_setFiltersL _).of_ok htrans hfilter
  refine whileNextL_ok rules
    (I := fun s => s.passes rules = db₁.passes rules ∧ s.table.rows = db.table.rows ∧
      ∀ r ∈ s.table.done ++ s.table.current.toList, ¬ Takes rules aName aFolder aAcceptUid r)
    (Q := fun unique _ => (unique = true → ∀ r ∈ db.table.rows,
        ¬ Takes rules aName aFolder aAcceptUid r) ∧
      (unique = false → ∃ r ∈ db.table.rows, Takes rules aName aFolder aAcceptUid r))
    ?_ ?_ hloop
  · intro s hstart hfilters
    refine ⟨by funext r; rw [Db.passes, Db.passes, hfilters], ?_, ?_⟩
    · rw [hstart, Table.rows_beginning, hrows.rows]
    · rw [hstart]
      exact fun r hmem => (List.not_mem_nil hmem).elim
  · rintro s s' found ⟨hpasses, hsame, hseen⟩ hnext
    obtain ⟨hnexttable, hfilters, hfound⟩ := nextL_ok hnext
    obtain ⟨passed, hdone, hahead, hnot, hcurrent, hend⟩ := s.table.next_spec (s.passes rules)
    rw [← hnexttable] at hdone hahead hcurrent hend
    have hrows' : s'.table.rows = db.table.rows := by
      rw [hnexttable, Table.rows_next, hsame]
    have hpassed : ∀ r ∈ s'.table.done, ¬ Takes rules aName aFolder aAcceptUid r := by
      rw [hdone]
      intro r hmem
      rcases List.mem_append.mp hmem with hmem | hmem
      · exact hseen r hmem
      · intro htakes
        have := hnot r hmem
        rw [hpasses, hpass, htakes.1] at this
        cases this
    constructor
    · -- the end of the table
      rintro rfl
      refine ⟨fun _ r hmem => ?_, fun h => Bool.noConfusion h⟩
      have hnone := Option.isSome_eq_false_iff.mp hfound.symm
      rw [Option.isNone_iff_eq_none] at hnone
      rw [← hrows', Table.rows, hnone, hend hnone, Option.toList_none, List.append_nil,
        List.append_nil] at hmem
      exact hpassed r hmem
    · rintro rfl result s'' hbody
      obtain ⟨r, s₁, hget, hpure⟩ := bind_eq_ok.mp hbody
      obtain ⟨hr, htable₁, hfilter₁⟩ := getL_ok hget
      have hmatch : Filter.matchRow rules
          ⟨aFolder, none, some aName, kFavouritesNullContextId⟩ r = true := by
        rw [← hpass, ← hpasses]
        exact hcurrent r hr
      cases htaken : (r.uid ≠ aAcceptUid && !isExempt r.uid : Bool) with
      | true =>
          rw [htaken] at hpure
          cases hpure
          rw [Bool.and_eq_true, Bool.not_eq_true', decide_eq_true_eq] at htaken
          refine ⟨fun h => Bool.noConfusion h, fun _ => ⟨r, ?_, hmatch, htaken⟩⟩
          rw [← hrows']
          exact Table.mem_rows_of_current hr
      | false =>
          rw [htaken] at hpure
          cases hpure
          refine ⟨?_, ?_, ?_⟩
          · rw [← hpasses]
            funext x
            rw [Db.passes, Db.passes, hfilter₁, hfilters]
          · rw [htable₁, hrows']
          · rw [htable₁, hr]
            intro x hmem
            rcases List.mem_append.mp hmem with hmem | hmem
            · exact hpassed x hmem
            · rintro ⟨-, huid, hexempt⟩
              rw [Option.toList_some, List.mem_singleton] at hmem
              subst hmem
              rw [hexempt, Bool.not_false, Bool.and_true, decide_eq_false_iff_not] at htaken
              exact htaken huid

/-! ## A name in place of one that is taken -/

/-- The postfixes of the rows that the filter lets pass, but for the accepted item and those whose
names need not be unique. -/
def postfixesOf (passes : Row → Bool) (aPrefix : Text) (aAcceptUid : Int) (rows : List Row) :
    List Int :=
  (rows.filter fun r => passes r && (r.uid ≠ aAcceptUid && !isExempt r.uid)).map fun r =>
    getPostfix rules r.name aPrefix

theorem mem_postfixesOf {passes : Row → Bool} {aPrefix : Text} {aAcceptUid v : Int}
    {rows : List Row} : v ∈ postfixesOf rules passes aPrefix aAcceptUid rows ↔
      ∃ r ∈ rows, passes r = true ∧ r.uid ≠ aAcceptUid ∧ isExempt r.uid = false ∧
        getPostfix rules r.name aPrefix = v := by
  simp [postfixesOf, and_assoc]

/-- What is collected of a row for the postfixes. -/
def selectPostfix (aPrefix : Text) (aAcceptUid : Int) (r : Row) : Option Int :=
  if r.uid ≠ aAcceptUid && !isExempt r.uid then some (getPostfix rules r.name aPrefix) else none

theorem map_filter_and {α β : Type} (p q : α → Bool) (f : α → β) (l : List α) :
    (l.filter fun a => p a && q a).map f =
      (l.filter p).filterMap fun a => if q a = true then some (f a) else none := by
  induction l with
  | nil => rfl
  | cons a l ih =>
      cases hp : p a with
      | false => simp [hp, ih]
      | true =>
          cases hq : q a with
          | false => simp [hp, hq, ih]
          | true => simp [hp, hq, ih]

theorem postfixesOf_eq (passes : Row → Bool) (aPrefix : Text) (aAcceptUid : Int)
    (rows : List Row) : postfixesOf rules passes aPrefix aAcceptUid rows =
      (rows.filter passes).filterMap (selectPostfix rules aPrefix aAcceptUid) :=
  map_filter_and passes (fun r => r.uid ≠ aAcceptUid && !isExempt r.uid) _ rows

/-- The loop for the postfixes is one of the loops over the rows. -/
theorem collectPostfixesL_eq (aPrefix : Text) (aAcceptUid : Int) (rounds : Nat) :
    ∀ acc, collectPostfixesL rules aPrefix aAcceptUid rounds acc =
      collectL rules (selectPostfix rules aPrefix aAcceptUid) rounds acc := by
  induction rounds with
  | zero => exact fun _ => rfl
  | succ rounds ih =>
      intro acc
      rw [collectPostfixesL, collectL]
      congr 1
      funext found
      cases found with
      | false => rfl
      | true =>
          rw [if_pos rfl, if_pos rfl]
          congr 1
          funext r
          cases hcounts : (r.uid ≠ aAcceptUid && !isExempt r.uid : Bool) with
          | false => simp only [selectPostfix, hcounts, Bool.false_eq_true, if_false, ih]
          | true => simp only [selectPostfix, hcounts, if_true, ih]

/-- The name in place of a name that is taken: its number is not the postfix of the name of any
other item in the folder that begins like it. -/
def Generates (aName : Text) (aFolder aAcceptUid : Int) (rows : List Row) (name : Text) : Prop :=
  ∃ postfixes : List Int, postfixes.length ≤ rows.length ∧
    name = formatName (renamePrefix aName).1 (freePostfix (renamePrefix aName).2 postfixes) ∧
    ∀ r ∈ rows, Takes rules ((renamePrefix aName).1 ++ [star]) aFolder aAcceptUid r →
      getPostfix rules r.name (renamePrefix aName).1 ∈ postfixes

/-- The postfixes that the search for a number in a folder finds. -/
def takenPostfixes (aPrefix : Text) (aFolder aAcceptUid : Int) (rows : List Row) : List Int :=
  postfixesOf rules
    (Filter.matchRow rules ⟨aFolder, none, some (aPrefix ++ [star]), kFavouritesNullContextId⟩)
    aPrefix aAcceptUid rows

theorem makeUniqueNameL_eq {aName name : Text} {aFolder aAcceptUid : Int}
    (h : makeUniqueNameL rules aName aFolder aAcceptUid db = .ok name db') :
    name = formatName (renamePrefix aName).1 (freePostfix (renamePrefix aName).2
      (takenPostfixes rules (renamePrefix aName).1 aFolder aAcceptUid db.table.rows)) := by
  obtain ⟨_, db₁, hfilter, hrest⟩ := bind_eq_ok.mp h
  obtain ⟨htable, hpasses⟩ := setFiltersL_ok hfilter
  obtain ⟨_, db₂, hbegin, hrest⟩ := bind_eq_ok.mp hrest
  obtain ⟨hstart, hfilter₂⟩ := beginningL_ok hbegin
  obtain ⟨_, _, hget, hrest⟩ := bind_eq_ok.mp hrest
  cases hget
  obtain ⟨postfixes, db₃, hcollect, hrest⟩ := bind_eq_ok.mp hrest
  obtain ⟨_, db₄, -, hrest⟩ := bind_eq_ok.mp hrest
  obtain ⟨_, db₅, hturn, hpure⟩ := bind_eq_ok.mp hrest
  cases hpure
  have hahead : db₂.table.ahead = db.table.rows := by
    rw [hstart, htable]
    rfl
  have hpass : db₂.passes rules = db₁.passes rules := by
    funext r
    rw [Db.passes, Db.passes, hfilter₂]
  rw [collectPostfixesL_eq] at hcollect
  rw [collectL_ok rules _ _ hcollect, hahead, hpass, hpasses, List.nil_append, takenPostfixes,
    postfixesOf_eq]
  rfl

theorem makeUniqueNameL_ok {aName name : Text} {aFolder aAcceptUid : Int}
    (h : makeUniqueNameL rules aName aFolder aAcceptUid db = .ok name db') :
    Generates rules aName aFolder aAcceptUid db.table.rows name := by
  refine ⟨_, ?_, makeUniqueNameL_eq rules h, ?_⟩
  · rw [takenPostfixes, postfixesOf, List.length_map]
    exact List.length_filter_le _ _
  · rintro r hmem ⟨hmatch, huid, hexempt⟩
    exact (mem_postfixesOf rules).mpr ⟨r, hmem, hmatch, huid, hexempt, rfl⟩

/-- What the check of a name says: it is not checked, or it is free, or there is another one in
its place. -/
inductive NameChecked (aRenameType : RenameType) (aName : Text) (aFolder aAcceptUid : Int)
    (rows : List Row) : Option Text → Prop
  | suppressed : aRenameType = .suppressCheck →
      NameChecked aRenameType aName aFolder aAcceptUid rows none
  | free : (∀ r ∈ rows, ¬ Takes rules aName aFolder aAcceptUid r) →
      NameChecked aRenameType aName aFolder aAcceptUid rows none
  | renamed {name : Text} : aRenameType = .autoRename →
      (∃ r ∈ rows, Takes rules aName aFolder aAcceptUid r) →
      Generates rules aName aFolder aAcceptUid rows name →
      NameChecked aRenameType aName aFolder aAcceptUid rows (some name)

theorem newNameL_ok {aRenameType : RenameType} {aName : Text} {aFolder aAcceptUid : Int}
    {newName : Option Text} (htrans : db.iInTransaction = true)
    (h : newNameL rules aRenameType aName aFolder aAcceptUid db = .ok newName db') :
    NameChecked rules aRenameType aName aFolder aAcceptUid db.table.rows newName := by
  rw [newNameL] at h
  split at h
  · rename_i hsuppress
    cases h
    exact .suppressed hsuppress
  · obtain ⟨unique, db₁, hunique, hrest⟩ := bind_eq_ok.mp h
    obtain ⟨hfree, htaken⟩ := isUniqueNameL_ok rules htrans hunique
    have hsame := (quiet_isUniqueNameL rules aName aFolder aAcceptUid).of_ok htrans hunique
    cases unique with
    | true =>
        cases hrest
        exact .free (hfree rfl)
    | false =>
        simp only [Bool.false_eq_true, if_false] at hrest
        split at hrest
        · rename_i hauto
          obtain ⟨name, db₂, hmake, hpure⟩ := bind_eq_ok.mp hrest
          cases hpure
          have hgenerates := makeUniqueNameL_ok rules hmake
          rw [hsame.rows] at hgenerates
          exact .renamed hauto (htaken rfl) hgenerates
        · cases hrest

/-- The name that an item is stored with. -/
def StoredName (newName : Option Text) (aName name : Text) : Prop :=
  match newName with
  | none => name = aName
  | some made => setName rules made = some name

theorem setNameL_ok {aName : Text} {item item' : Item}
    (h : setNameL rules aName item db = .ok item' db') :
    db'.table = db.table ∧ ∃ name, setName rules aName = some name ∧ item' = { item with name } := by
  obtain ⟨db₁, htable, -, hrest⟩ := of_mayLeave h
  cases hname : setName rules aName with
  | none =>
      rw [hname] at hrest
      cases hrest
  | some name =>
      rw [hname] at hrest
      cases hrest
      exact ⟨htable, name, rfl, rfl⟩

theorem renameL_ok {newName : Option Text} {aItem item' : Item}
    (h : renameL rules newName aItem db = .ok item' db') :
    db'.table = db.table ∧
      ∃ name, StoredName rules newName aItem.name name ∧ item' = { aItem with name } := by
  cases newName with
  | none =>
      cases h
      exact ⟨rfl, aItem.name, rfl, rfl⟩
  | some made => exact setNameL_ok rules h

end

end SymbianWeb.Favourites.Store
