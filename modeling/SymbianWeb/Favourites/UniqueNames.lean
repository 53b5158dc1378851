import SymbianWeb.Favourites.NameSearch
import SymbianWeb.Favourites.TreeRuns

/-!
# Names in every run

The names that requests bring are checked against the names that are there, and a name that is made
in place of another one is new as long as setting it does not change it. It is changed when it is
the prefix alone, without a number, and the prefix ends with a blank; and when it begins with a
right-to-left mark.
-/

set_option autoImplicit false

namespace SymbianWeb.Favourites.Store

open ErrorState

/-- A row whose name is its own in its folder. -/
def Ordinary (r : Row) : Prop :=
  r.uid ≠ kFavouritesRootUid ∧ r.uid ≠ kFavouritesHomepageUid ∧ r.uid ≠ kFavouritesLastVisitedUid

section

variable (rules : CharRules)

/-- Items have names, and no two ordinary items of a folder have the same one, up to case. -/
structure UniqueNames (rows : List Row) : Prop where
  good : ∀ r ∈ rows, r.uid ≠ kFavouritesRootUid → GoodName rules r.name
  unique : ∀ r ∈ rows, ∀ r' ∈ rows, Ordinary r → Ordinary r' →
    r.parentFolder = r'.parentFolder → rules.foldText r.name = rules.foldText r'.name → r = r'

/-- Another item of the folder has the name. -/
def HasName (rows : List Row) (aFolder aAcceptUid : Int) (name : Text) : Prop :=
  ∃ r ∈ rows, r.parentFolder = aFolder ∧ r.uid ≠ aAcceptUid ∧ isExempt r.uid = false ∧
    rules.foldText r.name = rules.foldText name

/-- No blank stands at an end. -/
def Unblanked (name : Text) : Prop :=
  (∀ c, name.head? = some c → rules.isSpace c = false) ∧
    ∀ c, name.getLast? = some c → rules.isSpace c = false

/-- A name in place of a name that is taken is a good one and free, where setting it may change it:
without a number, and behind a right-to-left mark. -/
def RenameSafe (aName : Text) (aFolder aAcceptUid : Int) (rows : List Row) : Prop :=
  ∀ (number : Int) (made : Text),
    (number = 0 ∧ (renamePrefix aName).2 = false ∧
        ¬ HasName rules rows aFolder aAcceptUid (renamePrefix aName).1 ∨
      0 < number ∧ aName.head? = some rightToLeftMark) →
    setName rules (formatName (renamePrefix aName).1 number) = some made →
    GoodName rules made ∧ ¬ HasName rules rows aFolder aAcceptUid made

/-- What is asked of the name of an item that is added or updated. -/
def NameAllowed (aName : Text) (aAutoRename : Bool) (aFolder aAcceptUid : Int)
    (rows : List Row) : Prop :=
  Unblanked rules aName ∧ (aAutoRename = true →
    (∃ r ∈ rows, Takes rules aName aFolder aAcceptUid r) →
    RenameSafe rules aName aFolder aAcceptUid rows)

/-! ## The name that is stored -/

variable {aName name : Text} {aFolder aAcceptUid : Int} {rows others : List Row} {r : Row}

theorem getPrefix_le (aName : Text) : getPrefix aName <+: aName := by
  rw [getPrefix]
  split
  · split
    · exact List.prefix_rfl
    · split
      · exact List.prefix_rfl
      · exact List.take_prefix _ _
  · exact List.prefix_rfl

theorem renamePrefix_le (aName : Text) : (renamePrefix aName).1 <+: aName := by
  simp only [renamePrefix]
  split
  · exact (List.take_prefix _ _).trans (getPrefix_le aName)
  · exact getPrefix_le aName

theorem takes_of_hasName (h : HasName rules rows aFolder aAcceptUid aName) :
    ∃ r ∈ rows, Takes rules aName aFolder aAcceptUid r := by
  obtain ⟨r, hmem, hparent, huid, hexempt, hfold⟩ := h
  refine ⟨r, hmem, ?_, huid, hexempt⟩
  simp [Filter.matchRow, like_of_foldText_eq rules hfold, hparent]

/-- The number of a name that is made is not that of the name of another item in the folder. -/
theorem not_hasName_formatName {pre : Text} {postfixes : List Int} {number : Int}
    (hnonneg : 0 ≤ number) (hlt : number < 2147483648) (hfree : number ∉ postfixes)
    (hall : ∀ r ∈ rows, Takes rules (pre ++ [star]) aFolder aAcceptUid r →
      getPostfix rules r.name pre ∈ postfixes) :
    ¬ HasName rules rows aFolder aAcceptUid (formatName pre number) := by
  rintro ⟨r, hmem, hparent, huid, hexempt, hfold⟩
  obtain ⟨hnumber, hlike⟩ := getPostfix_formatName rules hnonneg hlt hfold
  apply hfree
  rw [← hnumber]
  apply hall r hmem
  refine ⟨?_, huid, hexempt⟩
  simp [Filter.matchRow, hlike, hparent]

/-- A name with a number begins like the name that it has been made from. -/
theorem head?_formatName {number : Int} (hpos : 0 < number) {c : UInt16}
    (h : (formatName (renamePrefix aName).1 number).head? = some c) :
    aName.head? = some c ∨ c = openPar := by
  obtain ⟨digits, -, -, -, hformat⟩ := formatName_eq (renamePrefix aName).1 hpos
  obtain ⟨rest, hrest⟩ := renamePrefix_le aName
  rw [hformat] at h
  cases hpre : (renamePrefix aName).1 with
  | nil =>
      rw [hpre] at h
      cases h
      exact .inr rfl
  | cons d pre =>
      rw [hpre] at h hrest
      cases h
      rw [← hrest]
      exact .inl rfl

theorem getLast?_formatName (pre : Text) {number : Int} (hpos : 0 < number) :
    (formatName pre number).getLast? = some closePar := by
  obtain ⟨digits, -, -, -, hformat⟩ := formatName_eq pre hpos
  rw [hformat, ← List.append_assoc, List.getLast?_append, List.getLast?_singleton]
  rfl

/-- The name that an item is stored with is a good one, and free if it is checked. -/
theorem goodName_of_checked {aRenameType : RenameType} {newName : Option Text}
    (hunblanked : Unblanked rules aName) (hvalid : isValidName aName = true)
    (hroom : rows.length ≤ kMaxRows)
    (hsafe : aRenameType = .autoRename → (∃ r ∈ rows, Takes rules aName aFolder aAcceptUid r) →
      RenameSafe rules aName aFolder aAcceptUid rows)
    (hchecked : NameChecked rules aRenameType aName aFolder aAcceptUid rows newName)
    (hstored : StoredName rules newName aName name) (hlength : name.length ≤ kFavouritesMaxName) :
    GoodName rules name ∧
      (aRenameType ≠ .suppressCheck → ¬ HasName rules rows aFolder aAcceptUid name) := by
  have hgood : name = aName → GoodName rules name := by
    rintro rfl
    refine ⟨?_, hlength, hunblanked.1, hunblanked.2⟩
    rintro rfl
    cases hvalid
  cases hchecked with
  | suppressed hsuppress => exact ⟨hgood hstored, fun hne => (hne hsuppress).elim⟩
  | free hfree =>
      cases hstored
      refine ⟨hgood rfl, fun _ hhas => ?_⟩
      obtain ⟨r, hmem, htakes⟩ := takes_of_hasName rules hhas
      exact hfree r hmem htakes
  | renamed hauto htaken hgenerates =>
      obtain ⟨postfixes, hcount, rfl, hall⟩ := hgenerates
      obtain ⟨hfree, hge, hle⟩ := freePostfix_spec (renamePrefix aName).2 postfixes
      have hsafe := hsafe hauto htaken
      have hstored : setName rules _ = some name := hstored
      generalize freePostfix (renamePrefix aName).2 postfixes = number at *
      have hnonneg : 0 ≤ number := by
        split at hge <;> omega
      have hlt : number < 2147483648 := by
        have hroom : (postfixes.length : Int) ≤ 2147483646 := by
          have := hcount.trans hroom
          rw [kMaxRows] at this
          omega
        omega
      have hnot := not_hasName_formatName rules hnonneg hlt hfree hall
      rcases hnonneg.eq_or_lt with rfl | hpos
      · -- the prefix alone
        have hforce : (renamePrefix aName).2 = false := by
          cases hforce : (renamePrefix aName).2 with
          | false => rfl
          | true =>
              rw [hforce, if_pos rfl] at hge
              omega
        obtain ⟨hmade, hmadeFree⟩ := hsafe 0 name (.inl ⟨rfl, hforce, hnot⟩) hstored
        exact ⟨hmade, fun _ => hmadeFree⟩
      · cases hmark : decide (aName.head? = some rightToLeftMark) with
        | true =>
            obtain ⟨hmade, hmadeFree⟩ :=
              hsafe number name (.inr ⟨hpos, of_decide_eq_true hmark⟩) hstored
            exact ⟨hmade, fun _ => hmadeFree⟩
        | false =>
            -- a name with a number is set as it is
            have hmark := of_decide_eq_false hmark
            have hlast := getLast?_formatName (renamePrefix aName).1 hpos
            have hhead : ∀ c, (formatName (renamePrefix aName).1 number).head? = some c →
                rules.isSpace c = false ∧ c ≠ rightToLeftMark := by
              intro c hc
              rcases head?_formatName hpos hc with hc | rfl
              · refine ⟨hunblanked.1 c hc, ?_⟩
                rintro rfl
                exact hmark hc
              · exact ⟨rules.not_isSpace openPar (by decide) (by decide), by decide⟩
            have hlastSpace : ∀ c, (formatName (renamePrefix aName).1 number).getLast? = some c →
                rules.isSpace c = false := by
              intro c hc
              rw [hlast] at hc
              cases hc
              exact rules.not_isSpace closePar (by decide) (by decide)
            have hname := setName_eq_self rules (fun c hc => (hhead c hc).1) hlastSpace
              (fun hc => (hhead _ hc).2 rfl) (by rw [hlast]; decide) hstored
            refine ⟨⟨?_, hlength, ?_, ?_⟩, fun _ => ?_⟩
            · rintro rfl
              rw [← hname] at hlast
              cases hlast
            · rw [hname]
              exact fun c hc => (hhead c hc).1
            · rw [hname]
              exact hlastSpace
            · rw [hname]
              exact hnot

/-! ## Rows -/

theorem UniqueNames.subset {rows' : List Row} (hsubset : ∀ x ∈ rows', x ∈ rows)
    (h : UniqueNames rules rows) : UniqueNames rules rows' :=
  ⟨fun x hmem => h.good x (hsubset x hmem),
    fun x hmem x' hmem' => h.unique x (hsubset x hmem) x' (hsubset x' hmem')⟩

theorem UniqueNames.cons (h : UniqueNames rules rows) (hgood : GoodName rules r.name)
    (hfree : Ordinary r → ∀ x ∈ rows, Ordinary x → x.parentFolder = r.parentFolder →
      rules.foldText x.name ≠ rules.foldText r.name) : UniqueNames rules (r :: rows) := by
  constructor
  · intro x hmem hne
    rcases List.mem_cons.mp hmem with rfl | hmem
    · exact hgood
    · exact h.good x hmem hne
  · intro x hmem x' hmem' hx hx' hparent hfold
    rcases List.mem_cons.mp hmem with rfl | hold
    · rcases List.mem_cons.mp hmem' with rfl | hold'
      · rfl
      · exact (hfree hx x' hold' hx' hparent.symm hfold.symm).elim
    · rcases List.mem_cons.mp hmem' with rfl | hold'
      · exact (hfree hx' x hold hx hparent hfold).elim
      · exact h.unique x hold x' hold' hx hx' hparent hfold

/-- A file whose names are in order. -/
structure NamesKept (s : Stored) : Prop where
  intact : s.Intact
  uids : ∀ r ∈ s.rows, 0 < r.uid ∨ ¬ Ordinary r
  names : UniqueNames rules s.rows
  room : s.rows.length ≤ kMaxRows

def Table.NamesKept (t : Table) : Prop := Store.NamesKept rules ⟨t.rows, t.counter, t.nextRecord⟩

/-- Ordinary rows are not exempt from the check. -/
theorem not_isExempt_of_pos (h : 0 < r.uid ∨ ¬ Ordinary r) (hordinary : Ordinary r) :
    isExempt r.uid = false := by
  rcases h with hpos | hnot
  · simp only [isExempt, Bool.or_eq_false_iff, decide_eq_false_iff_not]
    refine ⟨⟨⟨?_, ?_⟩, ?_⟩, ?_⟩
    all_goals
      intro heq
      rw [heq] at hpos
      revert hpos
      decide
  · exact (hnot hordinary).elim

end

/-! ## Requests -/

section

variable (rules : CharRules) {db db' : Db} {r r' : Row} {others : List Row}

theorem SameRows.namesKept (hsame : SameRows db db') (h : db.table.NamesKept rules) :
    db'.table.NamesKept rules := by
  rw [Table.NamesKept, hsame.rows, hsame.counter, hsame.nextRecord]
  exact h

theorem namesKept_insert (h : db.table.NamesKept rules) (hintact : db'.table.Intact)
    (hrows : db'.table.rows.Perm (r :: db.table.rows)) (hroom : db.table.rows.length < kMaxRows)
    (huid : 0 < r.uid ∨ ¬ Ordinary r) (hgood : GoodName rules r.name)
    (hfree : Ordinary r →
      ¬ HasName rules db.table.rows r.parentFolder kFavouritesNullUid r.name) :
    db'.table.NamesKept rules := by
  refine ⟨hintact, fun x hmem => ?_, ?_, ?_⟩
  · rcases List.mem_cons.mp (hrows.mem_iff.mp hmem) with rfl | hmem
    · exact huid
    · exact h.uids x hmem
  · refine UniqueNames.subset rules (fun x => hrows.mem_iff.mp) (h.names.cons rules hgood ?_)
    intro hr x hmem hx hparent hfold
    exact hfree hr ⟨x, hmem, hparent, h.intact.tree.not_null x hmem,
      not_isExempt_of_pos (h.uids x hmem) hx, hfold⟩
  · rw [hrows.length_eq, List.length_cons]
    exact hroom

theorem namesKept_update (h : db.table.NamesKept rules) (hintact : db'.table.Intact)
    (hrows : db.table.rows.Perm (r :: others)) (hrows' : db'.table.rows.Perm (r' :: others))
    (huid : r'.uid = r.uid) (hgood : GoodName rules r'.name)
    (hfree : Ordinary r → ¬ HasName rules db.table.rows r'.parentFolder r.uid r'.name) :
    db'.table.NamesKept rules := by
  have hothers : ∀ x ∈ others, x ∈ db.table.rows :=
    fun x hmem => hrows.mem_iff.mpr (List.mem_cons_of_mem r hmem)
  have hordinary : Ordinary r' ↔ Ordinary r := by
    rw [Ordinary, Ordinary, huid]
  refine ⟨hintact, fun x hmem => ?_, ?_, ?_⟩
  · rcases List.mem_cons.mp (hrows'.mem_iff.mp hmem) with rfl | hmem
    · rw [huid, hordinary]
      exact h.uids r (hrows.mem_iff.mpr List.mem_cons_self)
    · exact h.uids x (hothers x hmem)
  · refine UniqueNames.subset rules (fun x => hrows'.mem_iff.mp)
      ((h.names.subset rules hothers).cons rules hgood ?_)
    intro hr x hmem hx hparent hfold
    have hnodup := (Intact.perm hrows h.intact).tree.nodup
    rw [List.map_cons, List.nodup_cons] at hnodup
    refine hfree (hordinary.mp hr) ⟨x, hothers x hmem, hparent, fun heq => ?_,
      not_isExempt_of_pos (h.uids x (hothers x hmem)) hx, hfold⟩
    apply hnodup.1
    rw [← heq]
    exact List.mem_map_of_mem hmem
  · rw [hrows'.length_eq, List.length_cons, ← List.length_cons (a := r), ← hrows.length_eq]
    exact h.room

theorem namesKept_subset (h : db.table.NamesKept rules) (hintact : db'.table.Intact)
    (hsubset : db'.table.rows.Subperm db.table.rows) : db'.table.NamesKept rules :=
  ⟨hintact, fun x hmem => h.uids x (hsubset.subset hmem),
    h.names.subset rules fun _ hmem => hsubset.subset hmem, hsubset.length_le.trans h.room⟩

theorem doAddL_namesKept {aItem item' : Item} {aAutoRename aFactoryItem aReadOnly : Bool}
    (htrans : db.iInTransaction = true) (h : db.table.NamesKept rules)
    (hallowed : NameAllowed rules aItem.name aAutoRename aItem.parentFolder kFavouritesNullUid
      db.table.rows)
    (hrun : doAddL rules aItem (if aAutoRename then .autoRename else .dontRename) aFactoryItem
      aReadOnly db = .ok item' db') : db'.table.NamesKept rules := by
  obtain ⟨r, name, time, hr, hchecked, -, hroom, -, hrows, -⟩ := doAddL_ok rules htrans hrun
  obtain ⟨newName, hnamed, hstored⟩ := hchecked.named
  obtain ⟨hgood, hfree⟩ := goodName_of_checked rules hallowed.1 hchecked.isValidName h.room
    (fun hauto => hallowed.2 (by
      cases aAutoRename with
      | true => rfl
      | false => cases hauto)) hnamed hstored hchecked.length_le
  refine namesKept_insert rules h (doAddL_intact rules htrans h.intact hrun) hrows hroom ?_ ?_ ?_
  · left
    rw [hr]
    exact h.intact.counter_pos
  · rw [hr]
    exact hgood
  · intro _
    rw [hr]
    apply hfree
    cases aAutoRename <;> exact fun h => nomatch h

theorem updateCurrentL_namesKept {aItem item' : Item} {aRenameType : RenameType} {aUid : Int}
    (htrans : db.iInTransaction = true) (h : db.table.NamesKept rules)
    (hcurrent : ∀ r, db.table.current = some r → r.uid = aUid) (hroot : aUid ≠ kFavouritesRootUid)
    (hunblanked : Unblanked rules aItem.name)
    (hsafe : aRenameType = .autoRename →
      (∃ r ∈ db.table.rows, Takes rules aItem.name aItem.parentFolder aUid r) →
      RenameSafe rules aItem.name aItem.parentFolder aUid db.table.rows)
    (hsuppress : aRenameType = .suppressCheck →
      aUid = kFavouritesHomepageUid ∨ aUid = kFavouritesLastVisitedUid)
    (hrun : updateCurrentL rules aItem aRenameType db = .ok item' db') :
    db'.table.NamesKept rules := by
  obtain ⟨r, name, time, others, hr, -, -, hchecked, -, hrows, hrows', -⟩ :=
    updateCurrentL_ok rules htrans h.intact.nodup hrun
  have huid := hcurrent r hr
  obtain ⟨newName, hnamed, hstored⟩ := hchecked.named
  rw [huid] at hnamed
  obtain ⟨hgood, hfree⟩ := goodName_of_checked rules hunblanked hchecked.isValidName h.room hsafe
    hnamed hstored hchecked.length_le
  refine namesKept_update rules h ?_ hrows hrows' rfl hgood ?_
  · apply updateCurrentL_intact rules htrans h.intact _ hrun
    intro x hx
    rw [hcurrent x hx]
    exact hroot
  · intro hordinary
    rw [huid]
    apply hfree
    intro hs
    rcases hsuppress hs with heq | heq
    · exact hordinary.2.1 (huid.trans heq)
    · exact hordinary.2.2 (huid.trans heq)

theorem deleteCurrentL_namesKept {deletedUids : List Int} (htrans : db.iInTransaction = true)
    (h : db.table.NamesKept rules)
    (hroot : ∀ r, db.table.current = some r → r.uid ≠ kFavouritesRootUid)
    (hrun : deleteCurrentL rules db = .ok deletedUids db') : db'.table.NamesKept rules := by
  obtain ⟨r, -, -, hrows, -, -⟩ :=
    deleteCurrentL_ok rules htrans h.intact.tree.not_null h.intact.nodup hrun
  refine namesKept_subset rules h (deleteCurrentL_intact rules htrans h.intact hroot hrun) ?_
  refine ((List.sublist_cons_self r _).subperm.trans hrows.symm.subperm).trans ?_
  split
  · exact List.filter_sublist.subperm
  · exact List.Subperm.refl _

/-- The home page and the last visited item need no name of their own. -/
theorem setSpecialItemL_namesKept {aItem a : Item} {aUid : Int}
    (htrans : db.iInTransaction = true) (h : db.table.NamesKept rules)
    (hspecial : aUid = kFavouritesHomepageUid ∨ aUid = kFavouritesLastVisitedUid)
    (hunblanked : Unblanked rules aItem.name)
    (hrun : (do
      let found ← seekToUidL aUid
      if found then updateCurrentL rules aItem .suppressCheck
      else do
        let aItem ← doAddL rules aItem .suppressCheck false false
        updateRow true fun r => { r with uid := aUid }
        let r ← currentRow
        pure { aItem with uid := aUid, modified := r.modified } : Op Item) db = .ok a db') :
    db'.table.NamesKept rules := by
  have hintact := setSpecialItemL_intact rules htrans h.intact hspecial hrun
  have hordinary : ∀ r : Row, r.uid = aUid → ¬ Ordinary r := by
    rintro r rfl ⟨-, hhome, hlast⟩
    rcases hspecial with heq | heq
    · exact hhome heq
    · exact hlast heq
  obtain ⟨found, db₁, hseek, hsame₁, htrans₁, hrun⟩ := of_quiet (quiet_seekToUidL _) htrans hrun
  have h₁ := hsame₁.namesKept rules h
  cases found with
  | true =>
      refine updateCurrentL_namesKept rules htrans₁ h₁ ?_ ?_ hunblanked ?_ (fun _ => hspecial) hrun
      · intro r hcurrent
        obtain ⟨r', hcurrent', -, huid⟩ := of_seekToUidL hseek
        rw [hcurrent] at hcurrent'
        cases hcurrent'
        exact huid
      · rcases hspecial with rfl | rfl <;> decide
      · exact fun h => nomatch h
  | false =>
      obtain ⟨item, db₂, hadd, hrun⟩ := bind_eq_ok.mp hrun
      obtain ⟨_, db₃, hupdate, hrun⟩ := bind_eq_ok.mp hrun
      obtain ⟨_, _, hpure⟩ := of_currentRow hrun
      cases hpure
      obtain ⟨r, name, time, hr, hchecked, -, hroom, hcurrent, hrows, -⟩ :=
        doAddL_ok rules htrans₁ hadd
      obtain ⟨r', time', others, hcurrent', hperm, hrows', -⟩ := updateRow_perm hupdate
      rw [hcurrent] at hcurrent'
      cases hcurrent'
      obtain ⟨newName, hnamed, hstored⟩ := hchecked.named
      have hsafe : RenameType.suppressCheck = .autoRename →
          (∃ r ∈ db₁.table.rows, Takes rules aItem.name aItem.parentFolder kFavouritesNullUid r) →
          RenameSafe rules aItem.name aItem.parentFolder kFavouritesNullUid db₁.table.rows :=
        fun h => nomatch h
      have hgood := (goodName_of_checked rules hunblanked hchecked.isValidName h₁.room hsafe hnamed
        hstored hchecked.length_le).1
      refine namesKept_insert rules h₁ hintact
        (hrows'.trans ((hperm.symm.trans hrows).cons_inv.cons _)) hroom ?_ ?_ ?_
      · exact .inr (hordinary _ rfl)
      · show GoodName rules r.name
        rw [hr]
        exact hgood
      · exact fun hr => (hordinary _ rfl hr).elim

/-- The requests that add, change and delete items, with names that have been set in them. -/
def Request.SetsNames : Request → Prop
  | .add aItem _ => ∃ aSource, setName rules aSource = some aItem.name
  | .update aItem _ _ => ∃ aSource, setName rules aSource = some aItem.name
  | .setSpecialItem aItem _ => ∃ aSource, setName rules aSource = some aItem.name
  | .delete _ => True
  | _ => False

/-- What is asked of the names of a request. -/
def Request.NamesAllowed (request : Request) (s : Stored) : Prop :=
  match request with
  | .add aItem aAutoRename =>
      NameAllowed rules aItem.name aAutoRename aItem.parentFolder kFavouritesNullUid s.rows
  | .update aItem aUid aAutoRename =>
      NameAllowed rules aItem.name aAutoRename aItem.parentFolder aUid s.rows
  | .setSpecialItem aItem _ => Unblanked rules aItem.name
  | _ => True

theorem NamesKept.of_unchanged {s s' : Stored} (h : NamesKept rules s)
    (hunchanged : Unchanged s s') : NamesKept rules s' := by
  refine ⟨h.intact.of_unchanged hunchanged, ?_, ?_, ?_⟩ <;> rw [hunchanged.rows]
  · exact h.uids
  · exact h.names
  · exact h.room

theorem outside_namesKept {α : Type} {P : Stored → Prop} {aWrite : Bool} {x : Op α}
    (hx : InFile x)
    (hcommit : ∀ (a : α) (db db' : Db), db.iInTransaction = true → db.table.NamesKept rules →
      P ⟨db.table.rows, db.table.counter, db.table.nextRecord⟩ → x db = .ok a db' →
      db'.table.NamesKept rules) :
    Outside (fun s => NamesKept rules s ∧ P s) (NamesKept rules) (transaction aWrite x) :=
  Outside.transaction hx (fun _ _ h => h.1.of_unchanged rules)
    fun a db db' htrans h hrun => hcommit a db db' htrans h.1 h.2 hrun

/-- One request keeps the names in order. -/
theorem serve_namesKept (request : Request) :
    Outside (fun s => NamesKept rules s ∧
        (request.SetsNames rules ∧ request.NamesAllowed rules s))
      (NamesKept rules) (request.serve rules) := by
  cases request with
  | add aItem aAutoRename =>
      apply Outside.ignore
      exact outside_namesKept rules (inFile_doAddL rules _ _ _ _)
        fun a db db' htrans h hallowed hrun =>
          doAddL_namesKept rules htrans h hallowed.2 hrun
  | update aItem aUid aAutoRename =>
      apply Outside.ignore
      cases hforbidden : (aUid = kFavouritesRootUid || aUid = kFavouritesHomepageUid ||
        aUid = kFavouritesLastVisitedUid : Bool) with
      | true =>
          rw [updateL, hforbidden]
          exact fun db hclosed h => ⟨hclosed, h.1⟩
      | false =>
          rw [updateL, hforbidden]
          apply Outside.leaveIf _ _ fun _ h => h.1
          apply outside_namesKept
          · exact inFile_update rules _ _ _
          · intro a db db' htrans h hallowed hrun
            obtain ⟨_, db₁, hgoto, hsame, htrans₁, hrun⟩ :=
              of_quiet (quiet_gotoToUidL _) htrans hrun
            simp only [Bool.or_eq_false_iff, decide_eq_false_iff_not] at hforbidden
            refine updateCurrentL_namesKept rules htrans₁ (hsame.namesKept rules h)
              (fun r => current_of_gotoToUidL hgoto) hforbidden.1.1 hallowed.2.1 ?_ ?_ hrun
            · intro hauto
              rw [hsame.rows]
              apply hallowed.2.2
              cases aAutoRename with
              | true => rfl
              | false => cases hauto
            · cases aAutoRename <;> exact fun h => by cases h
  | delete aUid =>
      apply Outside.ignore
      cases hforbidden : (aUid = kFavouritesRootUid || aUid = kFavouritesHomepageUid : Bool) with
      | true =>
          rw [deleteL, hforbidden]
          exact fun db hclosed h => ⟨hclosed, h.1⟩
      | false =>
          rw [deleteL, hforbidden]
          apply Outside.leaveIf _ _ fun _ h => h.1
          apply Outside.mayLeave fun _ h => h.1
          apply outside_namesKept
          · exact inFile_delete rules _
          · intro a db db' htrans h _ hrun
            obtain ⟨_, db₁, hgoto, hsame, htrans₁, hrun⟩ :=
              of_quiet (quiet_gotoToUidL _) htrans hrun
            apply deleteCurrentL_namesKept rules htrans₁ (hsame.namesKept rules h) _ hrun
            intro r hcurrent
            rw [current_of_gotoToUidL hgoto hcurrent]
            simp only [Bool.or_eq_false_iff, decide_eq_false_iff_not] at hforbidden
            exact hforbidden.1
  | setSpecialItem aItem aUid =>
      apply Outside.ignore
      cases hspecial : (aUid ≠ kFavouritesHomepageUid && aUid ≠ kFavouritesLastVisitedUid : Bool)
        with
      | true =>
          rw [setSpecialItemL, hspecial]
          exact fun db hclosed h => ⟨hclosed, h.1⟩
      | false =>
          rw [setSpecialItemL, hspecial]
          apply Outside.leaveIf _ _ fun _ h => h.1
          apply Outside.leaveIf _ _ fun _ h => h.1
          apply outside_namesKept
          · exact inFile_setSpecialItem rules _ _
          · intro a db db' htrans h hallowed hrun
            refine setSpecialItemL_namesKept rules htrans h ?_ hallowed.2 hrun
            rw [Bool.and_eq_false_iff, decide_eq_false_iff_not, decide_eq_false_iff_not, not_not,
              not_not] at hspecial
            exact hspecial
  | setFactoryItem aUid aFactoryItem => exact fun db hclosed h => h.2.1.elim
  | setReadOnly aUid aReadOnly => exact fun db hclosed h => h.2.1.elim
  | setModified aUid aModified => exact fun db hclosed h => h.2.1.elim
  | setPreferredUid aFolder aUid => exact fun db hclosed h => h.2.1.elim
  | restoreFactorySettings reference => exact fun db hclosed h => h.2.1.elim

theorem OnlyRoot.namesKept (h : OnlyRoot db) : NamesKept rules db.stored := by
  obtain ⟨r, hrows, huid, -⟩ := h.root
  have hmem : ∀ x ∈ db.stored.rows, x = r := by
    rw [hrows]
    exact fun x => List.mem_singleton.mp
  refine ⟨h.intact, fun x hx => .inr fun hordinary => ?_, ⟨?_, ?_⟩, ?_⟩
  · rw [hmem x hx] at hordinary
    exact hordinary.1 huid
  · intro x hx hne
    rw [hmem x hx] at hne
    exact (hne huid).elim
  · intro x hx x' hx' _ _ _ _
    rw [hmem x hx, hmem x' hx']
  · rw [hrows, kMaxRows]
    exact Nat.one_le_of_lt (by decide : 0 < 2147483646)

/-- In every run from a new database whose names are allowed, the names are good ones and unique in
their folders. -/
theorem uniqueNames_of_namesAllowed (hstart : OnlyRoot db) (turns : List Turn)
    (heach : EachTurn rules
      (fun request s => request.SetsNames rules ∧ request.NamesAllowed rules s) turns db) :
    UniqueNames rules (runTurns rules turns db).stored.rows :=
  (runTurns_keeps rules (I := NamesKept rules) (serve_namesKept rules) turns hstart.closed
    (hstart.namesKept rules) heach).names

end

/-- The name `Foo`. -/
def foo : Text := [70, 111, 111]

/-- The name `Foo (2)`. -/
def foo2 : Text := [70, 111, 111, 32, 40, 50, 41]

/-- Two items of one name, the second of which is renamed. -/
theorem uniqueNames_of_namesAllowed_foo :
    UniqueNames .ascii (runTurns .ascii [plainTurn (.add (plainItem foo) false),
      plainTurn (.add (plainItem foo) true)] newDb).stored.rows := by
  have hunblanked : Unblanked .ascii foo := by
    constructor
    · intro c hc
      cases hc
      decide
    · intro c hc
      cases hc
      decide
  refine uniqueNames_of_namesAllowed .ascii onlyRoot_newDb _
    ⟨⟨⟨foo, by decide⟩, hunblanked, fun h => nomatch h⟩, ⟨⟨foo, by decide⟩, hunblanked, ?_⟩,
      trivial⟩
  rintro - - number made (⟨-, -, hnot⟩ | ⟨-, hmark⟩) -
  · -- the prefix alone is taken
    refine (hnot ?_).elim
    rw [HasName]
    decide +kernel
  · exact absurd hmark (by decide)

/-- `Foo (2)` is renamed to its prefix, which is set as `Foo`. -/
theorem not_uniqueNames_of_setsNames :
    ¬ ∀ (rules : CharRules) (db : Db) (turns : List Turn), OnlyRoot db →
      EachTurn rules (fun request _ => request.SetsNames rules) turns db →
      UniqueNames rules (runTurns rules turns db).stored.rows := by
  intro hclaim
  have hnames := hclaim .ascii newDb [plainTurn (.add (plainItem foo) false),
    plainTurn (.add (plainItem foo2) false), plainTurn (.add (plainItem foo2) true)] onlyRoot_newDb
    ⟨⟨foo, by decide⟩, ⟨foo2, by decide⟩, ⟨foo2, by decide⟩, trivial⟩
  have hrows : (runTurns .ascii [plainTurn (.add (plainItem foo) false),
      plainTurn (.add (plainItem foo2) false),
      plainTurn (.add (plainItem foo2) true)] newDb).stored.rows =
      [rootRow, { writeItemData (plainItem foo) (Row.blank 1 1) with modified := 0 },
        { writeItemData (plainItem foo2) (Row.blank 2 2) with modified := 0 },
        { writeItemData (plainItem foo) (Row.blank 3 3) with modified := 0 }] := by
    decide +kernel
  rw [hrows] at hnames
  have hsame := hnames.unique { writeItemData (plainItem foo) (Row.blank 1 1) with modified := 0 }
    (by simp) { writeItemData (plainItem foo) (Row.blank 3 3) with modified := 0 } (by simp)
    ⟨by decide, by decide, by decide⟩ ⟨by decide, by decide, by decide⟩ rfl rfl
  cases hsame

end SymbianWeb.Favourites.Store
