import SymbianWeb.Favourites.FolderTree

/-!
# Deletions, and the steps of the restore

Deleting the rows of a folder leaves the other rows in their order. A step of the restore either
changes a row in place or adds one row.
-/

set_option autoImplicit false

namespace SymbianWeb.Favourites.Store

open ErrorState

/-! ## A row in place of another -/

section

variable {db db' : Db}

/-- A change of the row under the cursor, with the other rows named. -/
theorem updateRow_perm {aTouch : Bool} {edit : Row → Row} {a : Unit}
    (h : updateRow aTouch edit db = .ok a db') :
    ∃ r time others, db.table.current = some r ∧ db.table.rows.Perm (r :: others) ∧
      db'.table.rows.Perm (touch aTouch time (edit r) :: others) ∧
      db'.table.current = some (touch aTouch time (edit r)) ∧ db'.filter = db.filter ∧
      db'.table.counter = db.table.counter ∧ db'.table.nextRecord = db.table.nextRecord := by
  obtain ⟨r, time, hcurrent, hfilter, htable⟩ := updateRow_ok h
  obtain ⟨hrows, hcurrent'⟩ :=
    Table.rows_update (fun r => touch aTouch time (edit r)) hcurrent
  rw [← htable] at hrows hcurrent'
  refine ⟨r, time, _, hcurrent, Table.rows_of_current hcurrent, hrows, hcurrent', hfilter, ?_, ?_⟩
  · rw [htable, Table.counter_update]
  · rw [htable, Table.nextRecord_update]

end

/-! ## Deletions -/

section

variable (rules : CharRules)

/-- The rows ahead that the filter lets pass are gone. -/
theorem deleteChildrenL_ok (rounds : Nat) :
    ∀ {db db' : Db} {acc deletedUids : List Int},
      deleteChildrenL rules rounds acc db = .ok deletedUids db' →
      db'.table.rows = db.table.done ++ db.table.current.toList ++
          db.table.ahead.filter (fun r => !db.passes rules r) ∧
        db'.table.counter = db.table.counter ∧ db'.table.nextRecord = db.table.nextRecord := by
  induction rounds with
  | zero =>
      intro db db' acc deletedUids h
      cases h
  | succ rounds ih =>
      intro db db' acc deletedUids h
      obtain ⟨found, db₁, hnext, hrest⟩ := bind_eq_ok.mp h
      obtain ⟨htable, hfilter, hfound⟩ := nextL_ok hnext
      obtain ⟨passed, hdone, hahead, hnot, hcurrent, hend⟩ := db.table.next_spec (db.passes rules)
      rw [← htable] at hdone hahead hcurrent hend
      have hcounter : db₁.table.counter = db.table.counter := by
        rw [htable, Table.counter_next]
      have hnextRecord : db₁.table.nextRecord = db.table.nextRecord := by
        rw [htable, Table.nextRecord_next]
      have hpassed : passed.filter (fun r => !db.passes rules r) = passed := by
        rw [List.filter_eq_self]
        intro r hmem
        rw [hnot r hmem]
        rfl
      cases found with
      | false =>
          cases hrest
          have hnone := Option.isNone_iff_eq_none.mp (Option.isSome_eq_false_iff.mp hfound.symm)
          refine ⟨?_, hcounter, hnextRecord⟩
          rw [hend hnone, hnone, Option.toList_none, List.append_nil, List.append_nil] at hahead
          rw [hahead, hpassed, Table.rows, hend hnone, hnone, Option.toList_none, List.append_nil,
            List.append_nil, hdone]
      | true =>
          obtain ⟨r, db₂, hget, hrest⟩ := bind_eq_ok.mp hrest
          obtain ⟨hr, htable₂, hfilter₂⟩ := getL_ok hget
          obtain ⟨-, hrest⟩ := of_leaveIf hrest
          obtain ⟨_, db₃, hdelete, hrest⟩ := bind_eq_ok.mp hrest
          obtain ⟨_, -, hfilter₃, htable₃⟩ := deleteRow_ok hdelete
          obtain ⟨db₄, htable₄, hfilter₄, hrest⟩ := of_mayLeave hrest
          obtain ⟨hrows, hcounter', hnextRecord'⟩ := ih hrest
          have htable' : db₄.table = db₁.table.delete := by
            rw [htable₄, htable₃, htable₂]
          have hpasses : db₄.passes rules = db.passes rules := by
            funext x
            rw [Db.passes, Db.passes, hfilter₄, hfilter₃, hfilter₂, hfilter]
          rw [htable'] at hrows hcounter' hnextRecord'
          refine ⟨?_, hcounter'.trans hcounter, hnextRecord'.trans hnextRecord⟩
          -- the row that has been found is one that passes
          rw [hr, Option.toList_some] at hahead
          rw [hrows, hpasses, hahead, List.filter_append, hpassed, List.singleton_append,
            List.filter_cons_of_neg (by rw [hcurrent r hr]; exact Bool.false_ne_true)]
          simp only [Table.delete, Option.toList_none, List.append_nil]
          rw [hdone, List.append_assoc]

/-- What is in the folder is gone, and the cursor is where it was. -/
theorem deleteContentsL_ok {db db' : Db} {aFolder : Int} {deletedUids : List Int} {r : Row}
    (htrans : db.iInTransaction = true) (hnull : aFolder ≠ kFavouritesNullUid)
    (hnodup : (db.table.rows.map (·.record)).Nodup) (hcurrent : db.table.current = some r)
    (h : deleteContentsL rules aFolder db = .ok deletedUids db') :
    db'.table.rows = db.table.rows.filter (·.parentFolder ≠ aFolder) ∧
      db'.table.current = some r ∧ db'.table.counter = db.table.counter ∧
      db'.table.nextRecord = db.table.nextRecord := by
  obtain ⟨r', hcurrent', h⟩ := of_bookmark h
  rw [hcurrent] at hcurrent'
  cases hcurrent'
  obtain ⟨_, db₁, hfilter, hsame₁, htrans₁, h⟩ := of_quiet (quiet_setFiltersL _) htrans h
  obtain ⟨htable₁, hpasses⟩ := setFiltersL_ok hfilter
  obtain ⟨_, db₂, hbegin, hsame₂, htrans₂, h⟩ := of_quiet quiet_beginningL htrans₁ h
  obtain ⟨htable₂, hfilter₂⟩ := beginningL_ok hbegin
  obtain ⟨_, _, hget, h⟩ := bind_eq_ok.mp h
  cases hget
  obtain ⟨uids, db₃, hdelete, h⟩ := bind_eq_ok.mp h
  have htrans₃ := ((inFile_deleteChildrenL rules _ _).of_ok htrans₂ hdelete).iInTransaction.trans
    htrans₂
  obtain ⟨hrows, hcounter, hnextRecord⟩ := deleteChildrenL_ok rules _ hdelete
  obtain ⟨_, db₄, -, hsame₄, htrans₄, h⟩ := of_quiet quiet_clearFilters htrans₃ h
  obtain ⟨_, db₅, hgoto, hsame₅, htrans₅, h⟩ := of_quiet (quiet_gotoL _) htrans₄ h
  obtain ⟨r₁, db₆, hrow, hsame₆, -, h⟩ := of_quiet quiet_getL htrans₅ h
  cases h
  obtain ⟨hcurrent₅, htable₆, -⟩ := getL_ok hrow
  have hpass : db₂.passes rules = fun r => decide (r.parentFolder = aFolder) := by
    have : db₂.passes rules = db₁.passes rules := by
      funext x
      rw [Db.passes, Db.passes, hfilter₂]
    rw [this, hpasses]
    funext x
    simp [Filter.matchRow, hnull, kFavouritesNullContextId]
  have hrows₃ : db₃.table.rows = db.table.rows.filter (·.parentFolder ≠ aFolder) := by
    rw [hrows, hpass, htable₂, htable₁]
    simp [Table.beginning]
  have hsame := (hsame₄.trans hsame₅).trans hsame₆
  refine ⟨hsame.rows.trans hrows₃, ?_, ?_, ?_⟩
  · rw [(gotoL_ok hgoto).1] at hcurrent₅
    obtain ⟨hmem, hrecord⟩ := Table.current_seek hcurrent₅
    rw [hsame₄.rows, hrows₃] at hmem
    have hr : r₁ = r := List.inj_on_of_nodup_map hnodup (List.mem_filter.mp hmem).1
      (Table.mem_rows_of_current hcurrent) (of_decide_eq_true hrecord)
    rw [htable₆, (gotoL_ok hgoto).1, hcurrent₅, hr]
  · rw [hsame.counter, hcounter, hsame₂.counter, hsame₁.counter]
  · rw [hsame.nextRecord, hnextRecord, hsame₂.nextRecord, hsame₁.nextRecord]

/-- The rows that are left by a deletion. -/
theorem deleteCurrentL_ok {db db' : Db} {deletedUids : List Int}
    (htrans : db.iInTransaction = true)
    (hnull : ∀ r ∈ db.table.rows, r.uid ≠ kFavouritesNullUid)
    (hnodup : (db.table.rows.map (·.record)).Nodup)
    (h : deleteCurrentL rules db = .ok deletedUids db') :
    ∃ r, db.table.current = some r ∧ r.readOnly = false ∧
      (if r.type = .folder then db.table.rows.filter (·.parentFolder ≠ r.uid)
        else db.table.rows).Perm (r :: db'.table.rows) ∧
      db'.table.counter = db.table.counter ∧ db'.table.nextRecord = db.table.nextRecord := by
  obtain ⟨r, db₁, hget, hsame₁, htrans₁, h⟩ := of_quiet quiet_getL htrans h
  obtain ⟨hcurrent, htable₁, -⟩ := getL_ok hget
  obtain ⟨hreadOnly, h⟩ := of_leaveIf h
  obtain ⟨uids, db₂, hcontents, h⟩ := bind_eq_ok.mp h
  obtain ⟨r₂, hcurrent₂, h⟩ := of_currentRow h
  obtain ⟨_, db₃, hdelete, h⟩ := bind_eq_ok.mp h
  obtain ⟨_, -, -, htable₃⟩ := deleteRow_ok hdelete
  obtain ⟨db₄, htable₄, -, h⟩ := of_mayLeave h
  cases h
  -- the cursor is on the row, whether it is a folder or not
  have hrows₂ : db₂.table.rows = (if r.type = .folder then
        db.table.rows.filter (·.parentFolder ≠ r.uid) else db.table.rows) ∧
      db₂.table.current = some r ∧ db₂.table.counter = db.table.counter ∧
      db₂.table.nextRecord = db.table.nextRecord := by
    split at hcontents
    · rename_i hfolder
      rw [if_pos hfolder, ← htable₁]
      apply deleteContentsL_ok rules htrans₁ _ _ _ hcontents
      · exact hnull r (Table.mem_rows_of_current hcurrent)
      · rwa [htable₁]
      · rw [htable₁, hcurrent]
    · rename_i hitem
      cases hcontents
      rw [if_neg hitem, htable₁]
      exact ⟨rfl, hcurrent, rfl, rfl⟩
  obtain ⟨hrows₂, hcurrent₂, hcounter₂, hnextRecord₂⟩ := hrows₂
  refine ⟨r, hcurrent, hreadOnly, ?_, ?_, ?_⟩
  · rw [← hrows₂, htable₄, htable₃, Table.rows_delete]
    exact Table.rows_of_current hcurrent₂
  · rw [htable₄, htable₃, ← hcounter₂]
    rfl
  · rw [htable₄, htable₃, ← hnextRecord₂]
    rfl

end

/-! ## Folders of the restore -/

/-- The folders that the restore looks for a name among. -/
def isRootFolder (r : Row) : Bool := r.type = .folder && r.parentFolder = kFavouritesRootUid

/-- What the restore copies to a folder that has the name of a reference folder. -/
def asReference (ref r : Row) : Row :=
  { r with readOnly := ref.readOnly, factoryItem := ref.factoryItem, contextId := ref.contextId }

/-- A row that is added for a row of the reference table. -/
def addedRow (record : Nat) (uid parentFolder : Int) (name : Text) (ref : Row) : Row :=
  { ref with record, uid, parentFolder, name, preferredUid := 0 }

section

variable (rules : CharRules) {db db' : Db}

theorem matchRow_folders (name : Text) (r : Row) :
    Filter.matchRow rules
        ⟨kFavouritesRootUid, some .folder, some name, kFavouritesNullContextId⟩ r =
      (isRootFolder r && like rules name r.name) := by
  simp [Filter.matchRow, isRootFolder, kFavouritesRootUid, kFavouritesNullUid, Bool.and_comm,
    Bool.and_left_comm, Bool.and_assoc]

theorem readItemDataL_ok {r : Row} {item : Item} (h : readItemDataL rules r db = .ok item db') :
    ∃ name, setName rules r.name = some name ∧
      item = ⟨r.uid, r.parentFolder, r.type, name, r.url, r.userName, r.password, r.wapAp,
        r.factoryItem, r.readOnly, r.contextId, r.modified, r.hidden⟩ := by
  obtain ⟨-, h⟩ := of_leaveIf h
  obtain ⟨-, name, hname, rfl⟩ := setNameL_ok rules h
  exact ⟨name, hname, rfl⟩

/-- A reference folder and the folder that has been found or added for it. -/
inductive FolderRestored (ref : Row) (db db' : Db) : Prop
  | found (r : Row) (others : List Row) :
      isRootFolder r = true → like rules ref.name r.name = true →
      db.table.rows.Perm (r :: others) → db'.table.rows.Perm (asReference ref r :: others) →
      db'.table.current = some (asReference ref r) →
      db'.table.counter = db.table.counter → db'.table.nextRecord = db.table.nextRecord →
      FolderRestored ref db db'
  | added (name : Text) :
      (∀ r ∈ db.table.rows, isRootFolder r = true → like rules ref.name r.name = false) →
      setName rules ref.name = some name →
      (∃ f ∈ db.table.rows, f.uid = ref.parentFolder ∧ f.type = .folder) →
      (∀ r ∈ db.table.rows, ¬ Takes rules name ref.parentFolder kFavouritesNullUid r) →
      db'.table.rows.Perm
        (addedRow db.table.nextRecord db.table.counter ref.parentFolder name ref ::
          db.table.rows) →
      db'.table.current =
        some (addedRow db.table.nextRecord db.table.counter ref.parentFolder name ref) →
      db'.table.counter = db.table.counter + 1 →
      db'.table.nextRecord = db.table.nextRecord + 1 → FolderRestored ref db db'

theorem restoreFolderL_ok {ref : Row} {a : Unit} (htrans : db.iInTransaction = true)
    (h : restoreFolderL rules ref db = .ok a db') : FolderRestored rules ref db db' := by
  obtain ⟨_, db₁, hfilter, hsame₁, htrans₁, h⟩ := of_quiet (quiet_setFiltersL _) htrans h
  obtain ⟨htable₁, hpasses⟩ := setFiltersL_ok hfilter
  obtain ⟨_, db₂, hbegin, hsame₂, htrans₂, h⟩ := of_quiet quiet_beginningL htrans₁ h
  obtain ⟨htable₂, hfilter₂⟩ := beginningL_ok hbegin
  obtain ⟨found, db₃, hnext, hsame₃, htrans₃, h⟩ := of_quiet (quiet_nextL rules) htrans₂ h
  obtain ⟨htable₃, -, hfound⟩ := nextL_ok hnext
  have hsame := (hsame₁.trans hsame₂).trans hsame₃
  have hpass : db₂.passes rules = fun r => isRootFolder r && like rules ref.name r.name := by
    have : db₂.passes rules = db₁.passes rules := by
      funext r
      rw [Db.passes, Db.passes, hfilter₂]
    rw [this, hpasses]
    exact funext (matchRow_folders rules ref.name)
  have hseek : db₃.table = db₁.table.seek (db₂.passes rules) := by
    rw [htable₃, htable₂]
    rfl
  cases found with
  | true =>
      obtain ⟨r, time, others, hcurrent, hrows, hrows', hcurrent', -, hcounter, hnext'⟩ :=
        updateRow_perm h
      rw [hseek] at hcurrent
      obtain ⟨-, hwanted⟩ := Table.current_seek hcurrent
      rw [hpass, Bool.and_eq_true] at hwanted
      rw [hsame.rows] at hrows
      exact .found r others hwanted.1 hwanted.2 hrows hrows' hcurrent'
        (hcounter.trans hsame.counter) (hnext'.trans hsame.nextRecord)
  | false =>
      obtain ⟨item, db₄, hread, hsame₄, htrans₄, h⟩ :=
        of_quiet (quiet_readItemDataL rules ref) htrans₃ h
      obtain ⟨name, hname, rfl⟩ := readItemDataL_ok rules hread
      obtain ⟨item', db₅, hadd, h⟩ := bind_eq_ok.mp h
      obtain ⟨r, name', time, hr, hchecked, hparent, -, hcurrent₅, hrows₅, hcounter₅, hnext₅, -, -⟩ :=
        doAddL_ok rules htrans₄ hadd
      obtain ⟨r', time', others, hcurrent', hperm, hrows', hcurrent'', -, hcounter, hnext'⟩ :=
        updateRow_perm h
      have hsame' := hsame.trans hsame₄
      rw [hsame'.rows] at hparent hrows₅
      rw [hsame'.counter, hsame'.nextRecord] at hr
      rw [hcurrent₅] at hcurrent'
      cases hcurrent'
      -- a name that is free is not changed
      obtain ⟨newName, hnamed, hstored⟩ := hchecked.named
      rw [hsame'.rows] at hnamed
      have hfree : name' = name ∧ ∀ x ∈ db.table.rows,
          ¬ Takes rules name ref.parentFolder kFavouritesNullUid x := by
        cases hnamed with
        | suppressed hsuppress => cases hsuppress
        | free hfree => exact ⟨hstored, hfree⟩
        | renamed hauto => cases hauto
      obtain ⟨rfl, hfree⟩ := hfree
      have hrow : touch false time' { r with modified := ref.modified } =
          addedRow db.table.nextRecord db.table.counter ref.parentFolder name' ref := by
        rw [hr]
        rfl
      rw [hrow] at hrows' hcurrent''
      refine .added name' ?_ hname hparent hfree ?_ hcurrent'' ?_ ?_
      · intro x hmem hroot
        have hnone : db₃.table.current = none :=
          Option.isNone_iff_eq_none.mp (Option.isSome_eq_false_iff.mp hfound.symm)
        rw [hseek] at hnone
        have hmem₁ : x ∈ db₁.table.rows := by
          rwa [hsame₁.rows]
        have hnot := Table.not_wanted_of_seek hnone x hmem₁
        rw [hpass] at hnot
        simpa [hroot] using hnot
      · exact hrows'.trans ((hperm.symm.trans hrows₅).cons_inv.cons _)
      · rw [hcounter, hcounter₅, hsame'.counter]
      · rw [hnext', hnext₅, hsame'.nextRecord]

/-! ## Items of the restore -/

/-- A reference item and the row that has been added for it, under the uid of the reference item
if no other row has that. -/
structure ItemRestored (parentMap : List UidPair) (ref : Row) (rows : List Row) (counter : Int)
    (r : Row) : Prop where
  named : ∃ refName, setName rules ref.name = some refName ∧
    ∃ newName, NameChecked rules .autoRename refName (mapParent parentMap ref.parentFolder)
      kFavouritesNullUid rows newName ∧ StoredName rules newName refName r.name
  parent : ∃ f ∈ rows, f.uid = r.parentFolder ∧ f.type = .folder
  folder_root : r.type = .folder → r.parentFolder = kFavouritesRootUid
  row : r = { addedRow r.record r.uid (mapParent parentMap ref.parentFolder) r.name ref with
    factoryItem := true }
  uid : r.uid = if ∃ x ∈ rows, x.uid = ref.uid then counter else ref.uid

theorem restoreItemL_ok {parentMap : List UidPair} {ref : Row} {item : Item}
    (htrans : db.iInTransaction = true)
    (hfresh : (∃ x ∈ db.table.rows, x.uid = ref.uid) ∨ ref.uid = db.table.counter ∨
      ∀ x ∈ db.table.rows, x.uid ≠ db.table.counter)
    (h : restoreItemL rules parentMap ref db = .ok item db') :
    ∃ r, ItemRestored rules parentMap ref db.table.rows db.table.counter r ∧
      r.record = db.table.nextRecord ∧ db'.table.rows.Perm (r :: db.table.rows) ∧
      db'.table.counter = db.table.counter + 1 ∧
      db'.table.nextRecord = db.table.nextRecord + 1 ∧ item.uid = r.uid ∧
      item.wapAp = ref.wapAp := by
  obtain ⟨item₁, db₁, hread, hsame₁, htrans₁, h⟩ :=
    of_quiet (quiet_readItemDataL rules ref) htrans h
  obtain ⟨refName, hname, rfl⟩ := readItemDataL_ok rules hread
  obtain ⟨item₂, db₂, hadd, h⟩ := bind_eq_ok.mp h
  obtain ⟨r, name, time, hr, hchecked, hparent, -, hcurrent₂, hrows₂, hcounter₂, hnext₂, htrans₂,
    hitem₂⟩ := doAddL_ok rules htrans₁ hadd
  obtain ⟨_, db₃, hupdate, h⟩ := bind_eq_ok.mp h
  have htrans₃ := ((inFile_updateRow _ _).of_ok htrans₂ hupdate).iInTransaction.trans htrans₂
  obtain ⟨r', time', others, hcurrent', hperm, hrows₃, -, -, hcounter₃, hnext₃⟩ :=
    updateRow_perm hupdate
  rw [hcurrent₂] at hcurrent'
  cases hcurrent'
  rw [hsame₁.rows] at hparent hrows₂
  rw [hsame₁.counter, hsame₁.nextRecord] at hr
  rw [hsame₁.counter] at hcounter₂ hitem₂
  rw [hsame₁.nextRecord] at hnext₂
  obtain ⟨newName, hnamed, hstored⟩ := hchecked.named
  rw [hsame₁.rows] at hnamed
  -- the row before it gets its final uid
  have hrow : touch false time' { r with modified := ref.modified } =
      { addedRow db.table.nextRecord db.table.counter (mapParent parentMap ref.parentFolder) name
        ref with factoryItem := true } := by
    rw [hr]
    rfl
  rw [hrow] at hrows₃
  replace hrows₃ := hrows₃.trans ((hperm.symm.trans hrows₂).cons_inv.cons _)
  have hrestored : ∀ uid, uid = (if ∃ x ∈ db.table.rows, x.uid = ref.uid then db.table.counter
        else ref.uid) →
      ItemRestored rules parentMap ref db.table.rows db.table.counter
        { addedRow db.table.nextRecord uid (mapParent parentMap ref.parentFolder) name ref with
          factoryItem := true } := by
    intro uid huid
    exact ⟨⟨refName, hname, newName, hnamed, hstored⟩, hparent, hchecked.folder_root, rfl, huid⟩
  obtain ⟨found, db₄, hseek, hsame₄, htrans₄, h⟩ := of_quiet (quiet_seekToUidL _) htrans₃ h
  cases found with
  | true =>
      cases h
      obtain ⟨x, -, hmem, hxuid⟩ := of_seekToUidL hseek
      refine ⟨_, hrestored db.table.counter ?_, rfl, ?_, ?_, ?_, ?_, ?_⟩
      · rcases List.mem_cons.mp (hrows₃.mem_iff.mp hmem) with rfl | hmem
        · have hxuid : db.table.counter = ref.uid := hxuid
          rw [hxuid, ite_self]
        · rw [if_pos ⟨x, hmem, hxuid⟩]
      · rw [hsame₄.rows]
        exact hrows₃
      · rw [hsame₄.counter, hcounter₃, hcounter₂]
      · rw [hsame₄.nextRecord, hnext₃, hnext₂]
      · rw [hitem₂]
        rfl
      · rw [hitem₂]
  | false =>
      obtain ⟨_, db₅, hgoto, hsame₅, htrans₅, h⟩ := of_quiet (quiet_gotoToUidL _) htrans₄ h
      obtain ⟨_, db₆, hupdate₆, h⟩ := bind_eq_ok.mp h
      obtain ⟨x, time₆, others₆, hcurrent₆, hperm₆, hrows₆, -, -, hcounter₆, hnext₆⟩ :=
        updateRow_perm hupdate₆
      cases h
      have hnone := of_not_seekToUidL hseek
      obtain ⟨x', hcurrent₅, hmem₅, huid₅⟩ := gotoToUidL_ok hgoto
      rw [hcurrent₆] at hcurrent₅
      cases hcurrent₅
      rw [hitem₂] at huid₅
      have huid₅ : x.uid = db.table.counter := huid₅
      -- the row that is found again is the new one
      have hx : x = { addedRow db.table.nextRecord db.table.counter
          (mapParent parentMap ref.parentFolder) name ref with factoryItem := true } := by
        rw [hsame₄.rows, hrows₃.mem_iff] at hmem₅
        rcases List.mem_cons.mp hmem₅ with hx | hmem₅
        · exact hx
        · rcases hfresh with ⟨y, hmem, hyuid⟩ | heq | hfresh
          · exact (hnone y (hrows₃.mem_iff.mpr (List.mem_cons_of_mem _ hmem)) hyuid).elim
          · exact (hnone _ (hrows₃.mem_iff.mpr List.mem_cons_self) heq.symm).elim
          · exact (hfresh x hmem₅ huid₅).elim
      rw [hsame₅.rows, hsame₄.rows] at hperm₆
      subst hx
      refine ⟨_, hrestored ref.uid ?_, rfl, ?_, ?_, ?_, rfl, ?_⟩
      · rw [if_neg]
        rintro ⟨x, hmem, hxuid⟩
        exact hnone x (hrows₃.mem_iff.mpr (List.mem_cons_of_mem _ hmem)) hxuid
      · exact hrows₆.trans ((hperm₆.symm.trans hrows₃).cons_inv.cons _)
      · rw [hcounter₆, hsame₅.counter, hsame₄.counter, hcounter₃, hcounter₂]
      · rw [hnext₆, hsame₅.nextRecord, hsame₄.nextRecord, hnext₃, hnext₂]
      · rw [hitem₂]

end

end SymbianWeb.Favourites.Store
