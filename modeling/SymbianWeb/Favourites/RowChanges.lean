import SymbianWeb.Favourites.NameChecks

/-!
# What the operations do to the rows

What is in the file stays as it is until a commit (`InFile`), so that an operation that leaves and
is rolled back has changed nothing. For an operation that succeeds there is one lemma that gives
the rows after it, and what it has checked before.
-/

set_option autoImplicit false

namespace SymbianWeb.Favourites.Store

open ErrorState

/-! ## The file -/

/-- The file is the same, and the counters have not gone back. -/
structure KeepsFile (db db' : Db) : Prop where
  stored : db'.stored = db.stored
  tableOpen : db'.tableOpen = db.tableOpen
  begun : db'.begun = db.begun
  iInTransaction : db'.iInTransaction = db.iInTransaction
  keepsCounter : db'.keepsCounter = db.keepsCounter
  counter_le : db.table.counter ≤ db'.table.counter
  nextRecord_le : db.table.nextRecord ≤ db'.table.nextRecord

theorem SameRows.keepsFile {db db' : Db} (h : SameRows db db') : KeepsFile db db' :=
  ⟨h.stored, h.tableOpen, h.begun, h.iInTransaction, h.keepsCounter, h.counter.ge,
    h.nextRecord.ge⟩

theorem KeepsFile.trans {db₁ db₂ db₃ : Db} (h : KeepsFile db₁ db₂) (h' : KeepsFile db₂ db₃) :
    KeepsFile db₁ db₃ :=
  ⟨h'.stored.trans h.stored, h'.tableOpen.trans h.tableOpen, h'.begun.trans h.begun,
    h'.iInTransaction.trans h.iInTransaction, h'.keepsCounter.trans h.keepsCounter,
    h.counter_le.trans h'.counter_le, h.nextRecord_le.trans h'.nextRecord_le⟩

/-- A call inside a transaction that does not write to the file. -/
def InFile {α : Type} (x : Op α) : Prop :=
  ∀ db, db.iInTransaction = true → KeepsFile db (finalState (x db))

section

variable {α β : Type} {x : Op α} {k : α → Op β}

theorem Quiet.inFile (h : Quiet x) : InFile x := fun db htrans => (h db htrans).keepsFile

theorem InFile.of_ok (h : InFile x) {db db' : Db} {a : α} (htrans : db.iInTransaction = true)
    (hrun : x db = .ok a db') : KeepsFile db db' := by
  have hkeeps := h db htrans
  rwa [hrun] at hkeeps

theorem InFile.bind (hx : InFile x) (hk : ∀ a, InFile (k a)) : InFile (x >>= k) := by
  intro db htrans
  have hkeeps := hx db htrans
  rcases bind_cases x k db with ⟨a, db₁, hrun, hbind⟩ | ⟨e, db₁, hrun, hbind⟩
  · rw [hbind]
    rw [hrun] at hkeeps
    exact hkeeps.trans (hk a db₁ (hkeeps.iInTransaction.trans htrans))
  · rw [hbind]
    rwa [hrun] at hkeeps

theorem InFile.ite {c : Prop} [Decidable c] {y : Op α} (hx : InFile x) (hy : InFile y) :
    InFile (if c then x else y) := by
  split
  · exact hx
  · exact hy

theorem inFile_setTable {f : Table → Table} (hcounter : ∀ t : Table, t.counter ≤ (f t).counter)
    (hnext : ∀ t : Table, t.nextRecord ≤ (f t).nextRecord) : InFile (setTable f) :=
  fun db _ => ⟨rfl, rfl, rfl, rfl, rfl, hcounter db.table, hnext db.table⟩

theorem quiet_now : Quiet now :=
  quiet_get.bind fun _ => Quiet.bind (fun _ _ => ⟨rfl, rfl, rfl, rfl, rfl, rfl, rfl, rfl⟩)
    fun _ => .pure _

theorem inFile_updateRow (aTouch : Bool) (edit : Row → Row) : InFile (updateRow aTouch edit) := by
  refine quiet_mayLeave.inFile.bind fun _ => quiet_get.inFile.bind fun db => ?_
  cases db.table.current with
  | none => exact (Quiet.throw _).inFile
  | some r =>
      exact quiet_now.inFile.bind fun _ =>
        inFile_setTable (fun t => (Table.counter_update _).ge) fun t => (Table.nextRecord_update _).ge

theorem inFile_insertRow (edit : Row → Row) : InFile (insertRow edit) :=
  quiet_mayLeave.inFile.bind fun _ => quiet_get.inFile.bind fun _ =>
    (quiet_leaveIf _ _).inFile.bind fun _ => quiet_now.inFile.bind fun _ =>
      inFile_setTable (fun t => by show t.counter ≤ t.counter + 1; omega)
        fun t => Nat.le_succ t.nextRecord

theorem inFile_deleteRow : InFile deleteRow := by
  refine quiet_mayLeave.inFile.bind fun _ => quiet_get.inFile.bind fun db => ?_
  cases db.table.current with
  | none => exact (Quiet.throw _).inFile
  | some r => exact inFile_setTable (fun t => le_refl t.counter) fun t => Nat.le_refl t.nextRecord

theorem inFile_whileNextL (rules : CharRules) (atEnd : β) {body : Op (Option β)}
    (hbody : InFile body) : InFile (whileNextL rules atEnd body) := by
  refine quiet_beginningL.inFile.bind fun _ => quiet_get.inFile.bind fun db₀ => ?_
  intro db htrans
  have hround : InFile (do
      let found ← nextL rules
      if found then body else pure (some atEnd) : Op (Option β)) :=
    (quiet_nextL rules).inFile.bind fun _ => .ite hbody (Quiet.pure _).inFile
  refine finalState_repeatUntil (I := KeepsFile db) ?_ _ (SameRows.refl db).keepsFile
  intro s hkeeps
  exact hkeeps.trans (hround s (hkeeps.iInTransaction.trans htrans))

theorem inFile_forM {γ : Type} {f : γ → Op PUnit} (hf : ∀ c, InFile (f c)) (l : List γ) :
    InFile (l.forM f) := by
  induction l with
  | nil => exact (Quiet.pure _).inFile
  | cons c l ih => exact (hf c).bind fun _ => ih

end

section

variable (rules : CharRules)

theorem inFile_deleteChildrenL (rounds : Nat) :
    ∀ deletedUids, InFile (deleteChildrenL rules rounds deletedUids) := by
  induction rounds with
  | zero => exact fun _ => (Quiet.throw _).inFile
  | succ rounds ih =>
      intro deletedUids
      refine (quiet_nextL rules).inFile.bind fun _ => .ite ?_ (Quiet.pure _).inFile
      exact quiet_getL.inFile.bind fun _ => (quiet_leaveIf _ _).inFile.bind fun _ =>
        inFile_deleteRow.bind fun _ => quiet_mayLeave.inFile.bind fun _ => ih _

theorem inFile_deleteContentsL (aFolder : Int) : InFile (deleteContentsL rules aFolder) :=
  quiet_bookmark.inFile.bind fun _ => (quiet_setFiltersL _).inFile.bind fun _ =>
    quiet_beginningL.inFile.bind fun _ => quiet_get.inFile.bind fun _ =>
      (inFile_deleteChildrenL rules _ _).bind fun _ => quiet_clearFilters.inFile.bind fun _ =>
        (quiet_gotoL _).inFile.bind fun _ => quiet_getL.inFile.bind fun _ => (Quiet.pure _).inFile

theorem inFile_deleteCurrentL : InFile (deleteCurrentL rules) :=
  quiet_getL.inFile.bind fun _ => (quiet_leaveIf _ _).inFile.bind fun _ =>
    (InFile.ite (inFile_deleteContentsL rules _) (Quiet.pure _).inFile).bind fun _ =>
      quiet_currentRow.inFile.bind fun _ => inFile_deleteRow.bind fun _ =>
        quiet_mayLeave.inFile.bind fun _ => (Quiet.pure _).inFile

theorem inFile_updateCurrentL (aItem : Item) (aRenameType : RenameType) :
    InFile (updateCurrentL rules aItem aRenameType) :=
  (quiet_leaveIf _ _).inFile.bind fun _ => (quiet_leaveIf _ _).inFile.bind fun _ =>
    quiet_bookmark.inFile.bind fun _ => quiet_getL.inFile.bind fun _ =>
    (quiet_leaveIf _ _).inFile.bind fun _ => (quiet_leaveIf _ _).inFile.bind fun _ =>
    (quiet_leaveIf _ _).inFile.bind fun _ =>
    (Quiet.ite (quiet_folderExistsL _) (.pure _)).inFile.bind fun _ =>
    (quiet_leaveIf _ _).inFile.bind fun _ => (quiet_newNameL rules _ _ _ _).inFile.bind fun _ =>
    quiet_mayLeave.inFile.bind fun _ => (quiet_renameL rules _ _).inFile.bind fun _ =>
    (quiet_gotoL _).inFile.bind fun _ => (quiet_checkColumns _).inFile.bind fun _ =>
    (inFile_updateRow _ _).bind fun _ => quiet_currentRow.inFile.bind fun _ =>
      (Quiet.pure _).inFile

theorem inFile_doAddL (aItem : Item) (aRenameType : RenameType) (aFactoryItem aReadOnly : Bool) :
    InFile (doAddL rules aItem aRenameType aFactoryItem aReadOnly) :=
  (quiet_leaveIf _ _).inFile.bind fun _ => (quiet_leaveIf _ _).inFile.bind fun _ =>
    (quiet_leaveIf _ _).inFile.bind fun _ => (quiet_folderExistsL _).inFile.bind fun _ =>
    (quiet_leaveIf _ _).inFile.bind fun _ => (quiet_newNameL rules _ _ _ _).inFile.bind fun _ =>
    quiet_mayLeave.inFile.bind fun _ => (quiet_renameL rules _ _).inFile.bind fun _ =>
    (quiet_checkColumns _).inFile.bind fun _ => (inFile_insertRow _).bind fun _ =>
    quiet_currentRow.inFile.bind fun _ => (Quiet.pure _).inFile

theorem inFile_restoreFolderL (ref : Row) : InFile (restoreFolderL rules ref) :=
  (quiet_setFiltersL _).inFile.bind fun _ => quiet_beginningL.inFile.bind fun _ =>
    (quiet_nextL rules).inFile.bind fun _ =>
    .ite (inFile_updateRow _ _) ((quiet_readItemDataL rules _).inFile.bind fun _ =>
      (inFile_doAddL rules _ _ _ _).bind fun _ => inFile_updateRow _ _)

theorem inFile_restoreFoldersL (reference : List Row) :
    ∀ parentMap, InFile (restoreFoldersL rules reference parentMap) := by
  induction reference with
  | nil => exact fun _ => (Quiet.pure _).inFile
  | cons ref reference ih =>
      intro parentMap
      exact quiet_mayLeave.inFile.bind fun _ => (inFile_restoreFolderL rules ref).bind fun _ =>
        quiet_currentRow.inFile.bind fun _ => quiet_mayLeave.inFile.bind fun _ =>
          quiet_clearFilters.inFile.bind fun _ => ih _

theorem inFile_restoreItemL (parentMap : List UidPair) (ref : Row) :
    InFile (restoreItemL rules parentMap ref) :=
  (quiet_readItemDataL rules ref).inFile.bind fun _ => (inFile_doAddL rules _ _ _ _).bind fun _ =>
    (inFile_updateRow _ _).bind fun _ => (quiet_seekToUidL _).inFile.bind fun _ =>
      .ite (Quiet.pure _).inFile ((quiet_gotoToUidL _).inFile.bind fun _ =>
        (inFile_updateRow _ _).bind fun _ => (Quiet.pure _).inFile)

theorem inFile_restoreItemsL (parentMap : List UidPair) (reference : List Row) :
    ∀ aApMap, InFile (restoreItemsL rules parentMap reference aApMap) := by
  induction reference with
  | nil => exact fun _ => (Quiet.pure _).inFile
  | cons ref reference ih =>
      intro aApMap
      exact quiet_mayLeave.inFile.bind fun _ => (inFile_restoreItemL rules parentMap ref).bind
        fun _ => .ite (quiet_mayLeave.inFile.bind fun _ => ih _) (ih _)

theorem inFile_clearContextIdsL (reference : List Row) :
    InFile (clearContextIdsL rules reference) :=
  inFile_forM (fun _ => quiet_mayLeave.inFile.bind fun _ =>
    .ite ((quiet_setFiltersL _).inFile.bind fun _ =>
      (inFile_whileNextL rules () ((inFile_updateRow _ _).bind fun _ => (Quiet.pure _).inFile)).bind
        fun _ => quiet_clearFilters.inFile) (Quiet.pure _).inFile) reference

theorem inFile_clearFactoryRowL (r : Row) : InFile (clearFactoryRowL r) := by
  refine .ite ?_ (Quiet.pure _).inFile
  cases r.type with
  | item => exact inFile_deleteRow
  | folder => exact inFile_updateRow _ _

theorem inFile_clearFactoryItemsL : InFile (clearFactoryItemsL rules) :=
  inFile_whileNextL rules () (quiet_getL.inFile.bind fun r =>
    (inFile_clearFactoryRowL r).bind fun _ => (Quiet.pure _).inFile)

theorem inFile_restoreFolderTreeL (reference : List Row) :
    InFile (restoreFolderTreeL rules reference) :=
  (inFile_clearContextIdsL rules reference).bind fun _ =>
    (inFile_clearFactoryItemsL rules).bind fun _ => quiet_mayLeave.inFile.bind fun _ =>
      inFile_restoreFoldersL rules _ _

theorem inFile_restoreFactorySettingsL (reference : List Row) :
    InFile (restoreFactorySettingsL rules reference) :=
  (inFile_restoreFolderTreeL rules reference).bind fun _ => quiet_mayLeave.inFile.bind fun _ =>
    inFile_restoreItemsL rules _ _ _

end

/-! ## Changing rows -/

section

variable {db db' : Db}

theorem updateRow_ok {aTouch : Bool} {edit : Row → Row} {a : Unit}
    (h : updateRow aTouch edit db = .ok a db') :
    ∃ r time, db.table.current = some r ∧ db'.filter = db.filter ∧
      db'.table = db.table.update fun r => touch aTouch time (edit r) := by
  obtain ⟨db₁, htable, hfilter, hrest⟩ := of_mayLeave h
  obtain ⟨_, db₂, hget, hrest⟩ := bind_eq_ok.mp hrest
  cases hget
  rw [← htable, ← hfilter]
  cases hcurrent : db₁.table.current with
  | none =>
      rw [hcurrent] at hrest
      cases hrest
  | some r =>
      rw [hcurrent] at hrest
      cases hrest
      exact ⟨r, db₁.clock 0, rfl, rfl, rfl⟩

theorem insertRow_ok {edit : Row → Row} {a : Unit} (h : insertRow edit db = .ok a db') :
    db.table.rows.length < kMaxRows ∧ ∃ time, db'.filter = db.filter ∧
      db'.table = db.table.insert fun r => touch true time (edit r) := by
  obtain ⟨db₁, htable, hfilter, hrest⟩ := of_mayLeave h
  obtain ⟨_, db₂, hget, hrest⟩ := bind_eq_ok.mp hrest
  cases hget
  obtain ⟨_, db₃, hleave, hrest⟩ := bind_eq_ok.mp hrest
  obtain ⟨hroom, rfl⟩ := leaveIf_ok hleave
  cases hrest
  rw [← htable, ← hfilter]
  exact ⟨Nat.not_le.mp (of_decide_eq_false hroom), db₁.clock 0, rfl, rfl⟩

theorem deleteRow_ok {a : Unit} (h : deleteRow db = .ok a db') :
    ∃ r, db.table.current = some r ∧ db'.filter = db.filter ∧ db'.table = db.table.delete := by
  obtain ⟨db₁, htable, hfilter, hrest⟩ := of_mayLeave h
  obtain ⟨_, db₂, hget, hrest⟩ := bind_eq_ok.mp hrest
  cases hget
  rw [← htable, ← hfilter]
  cases hcurrent : db₁.table.current with
  | none =>
      rw [hcurrent] at hrest
      cases hrest
  | some r =>
      rw [hcurrent] at hrest
      cases hrest
      exact ⟨r, rfl, rfl, rfl⟩

/-- A bookmark leads back to its row. -/
theorem gotoL_current {r r₁ : Row} {a : Unit} (hnodup : (db.table.rows.map (·.record)).Nodup)
    (hmem : r ∈ db.table.rows) (h : gotoL r.record db = .ok a db')
    (hcurrent : db'.table.current = some r₁) : r₁ = r := by
  rw [(gotoL_ok h).1] at hcurrent
  obtain ⟨hmem₁, hrecord⟩ := Table.current_seek hcurrent
  exact List.inj_on_of_nodup_map hnodup hmem₁ hmem (of_decide_eq_true hrecord)

end

/-! ## Adding and updating -/

/-- What is checked of an item before it is stored as `name`. -/
structure ItemChecked (rules : CharRules) (aItem : Item) (aRenameType : RenameType)
    (aAcceptUid : Int) (rows : List Row) (name : Text) : Prop where
  isValidName : isValidName aItem.name = true
  isValid : aItem.isValid = true
  folder_root : aItem.type = .folder → aItem.parentFolder = kFavouritesRootUid
  named : ∃ newName, NameChecked rules aRenameType aItem.name aItem.parentFolder aAcceptUid rows
    newName ∧ StoredName rules newName aItem.name name
  length_le : name.length ≤ kFavouritesMaxName

section

variable (rules : CharRules) {db db' : Db}

theorem updateCurrentL_ok {aItem item' : Item} {aRenameType : RenameType}
    (htrans : db.iInTransaction = true) (hnodup : (db.table.rows.map (·.record)).Nodup)
    (h : updateCurrentL rules aItem aRenameType db = .ok item' db') :
    ∃ r name time others, db.table.current = some r ∧ r.type = aItem.type ∧ r.readOnly = false ∧
      ItemChecked rules aItem aRenameType r.uid db.table.rows name ∧
      (r.parentFolder = aItem.parentFolder ∨
        ∃ f ∈ db.table.rows, f.uid = aItem.parentFolder ∧ f.type = .folder) ∧
      db.table.rows.Perm (r :: others) ∧
      db'.table.rows.Perm ({ writeItemData { aItem with name } r with
        factoryItem := false, modified := time } :: others) ∧
      db'.table.counter = db.table.counter ∧ db'.table.nextRecord = db.table.nextRecord ∧
      item' = { aItem with name, uid := r.uid, modified := time } := by
  obtain ⟨hvalidName, h⟩ := of_leaveIf h
  obtain ⟨hvalid, h⟩ := of_leaveIf h
  obtain ⟨r, hcurrent, h⟩ := of_bookmark h
  obtain ⟨r', db₁, hget, hsame₁, htrans₁, h⟩ := of_quiet quiet_getL htrans h
  obtain ⟨hcurrent', -⟩ := getL_ok hget
  rw [hcurrent] at hcurrent'
  cases hcurrent'
  obtain ⟨htype, h⟩ := of_leaveIf h
  obtain ⟨hreadOnly, h⟩ := of_leaveIf h
  obtain ⟨hroot, h⟩ := of_leaveIf h
  obtain ⟨parentExists, db₂, hparent, hsame₂, htrans₂, h⟩ :=
    of_quiet (Quiet.ite (quiet_folderExistsL aItem.parentFolder) (.pure _)) htrans₁ h
  obtain ⟨hexists, h⟩ := of_leaveIf h
  obtain ⟨newName, db₃, hnewName, hsame₃, htrans₃, h⟩ :=
    of_quiet (quiet_newNameL rules _ _ _ _) htrans₂ h
  obtain ⟨_, db₄, -, hsame₄, htrans₄, h⟩ := of_quiet quiet_mayLeave htrans₃ h
  obtain ⟨item₁, db₅, hrename, hsame₅, htrans₅, h⟩ :=
    of_quiet (quiet_renameL rules _ _) htrans₄ h
  obtain ⟨-, name, hstored, rfl⟩ := renameL_ok rules hrename
  obtain ⟨_, db₆, hgoto, hsame₆, -, h⟩ := of_quiet (quiet_gotoL _) htrans₅ h
  obtain ⟨hcolumns, h⟩ := of_leaveIf h
  obtain ⟨_, db₇, hupdate, h⟩ := bind_eq_ok.mp h
  obtain ⟨r₁, time, hcurrent₁, -, htable₇⟩ := updateRow_ok hupdate
  have hchecked := newNameL_ok rules htrans₂ hnewName
  have hrows₂ := (hsame₁.trans hsame₂).rows
  have hsame₁₅ := (hsame₁.trans hsame₂).trans ((hsame₃.trans hsame₄).trans hsame₅)
  have hsame := hsame₁₅.trans hsame₆
  rw [hrows₂] at hchecked
  -- the bookmark leads back to the row
  have hr₁ : r₁ = r := gotoL_current (by rw [hsame₁₅.rows]; exact hnodup)
    (by rw [hsame₁₅.rows]; exact Table.mem_rows_of_current hcurrent) hgoto hcurrent₁
  rw [hr₁] at hcurrent₁
  obtain ⟨hrows₇, hcurrent₇⟩ := Table.rows_update (fun r => touch true time
    { writeItemData { aItem with name } r with factoryItem := false }) hcurrent₁
  rw [← htable₇] at hrows₇ hcurrent₇
  obtain ⟨r₂, hcurrent₂, hpure⟩ := of_currentRow h
  rw [hcurrent₇] at hcurrent₂
  cases hcurrent₂
  cases hpure
  have hperm := Table.rows_of_current hcurrent₁
  rw [hsame.rows] at hperm
  simp only [Bool.not_eq_false'] at hvalidName hvalid hexists
  refine ⟨r, name, time, _, hcurrent, ?_, hreadOnly, ⟨hvalidName, hvalid, ?_,
    ⟨newName, hchecked, hstored⟩, ?_⟩, ?_, hperm, hrows₇, ?_, ?_, rfl⟩
  · exact not_not.mp (of_decide_eq_false htype)
  · intro hfolder
    rw [hfolder] at hroot
    simpa using hroot
  · simp only [Bool.or_eq_false_iff, decide_eq_false_iff_not, Nat.not_lt] at hcolumns
    exact hcolumns.1.1.1
  · rw [hexists] at hparent
    split at hparent
    · right
      have hfound := folderExistsL_ok htrans₁ hparent
      rwa [hsame₁.rows] at hfound
    · rename_i heq
      exact .inl (not_not.mp heq)
  · rw [htable₇, Table.counter_update, hsame.counter]
  · rw [htable₇, Table.nextRecord_update, hsame.nextRecord]

theorem doAddL_ok {aItem item' : Item} {aRenameType : RenameType} {aFactoryItem aReadOnly : Bool}
    (htrans : db.iInTransaction = true)
    (h : doAddL rules aItem aRenameType aFactoryItem aReadOnly db = .ok item' db') :
    ∃ r name time, r = { writeItemData { aItem with name }
          (Row.blank db.table.nextRecord db.table.counter) with
        factoryItem := aFactoryItem, readOnly := aReadOnly, modified := time } ∧
      ItemChecked rules aItem aRenameType kFavouritesNullUid db.table.rows name ∧
      (∃ f ∈ db.table.rows, f.uid = aItem.parentFolder ∧ f.type = .folder) ∧
      db.table.rows.length < kMaxRows ∧
      db'.table.current = some r ∧ db'.table.rows.Perm (r :: db.table.rows) ∧
      db'.table.counter = db.table.counter + 1 ∧
      db'.table.nextRecord = db.table.nextRecord + 1 ∧ db'.iInTransaction = true ∧
      item' = { aItem with name, uid := db.table.counter, modified := time } := by
  have htrans' := ((inFile_doAddL rules _ _ _ _).of_ok htrans h).iInTransaction.trans htrans
  obtain ⟨hvalidName, h⟩ := of_leaveIf h
  obtain ⟨hvalid, h⟩ := of_leaveIf h
  obtain ⟨hroot, h⟩ := of_leaveIf h
  obtain ⟨parentExists, db₁, hparent, hsame₁, htrans₁, h⟩ :=
    of_quiet (quiet_folderExistsL aItem.parentFolder) htrans h
  obtain ⟨hexists, h⟩ := of_leaveIf h
  obtain ⟨newName, db₂, hnewName, hsame₂, htrans₂, h⟩ :=
    of_quiet (quiet_newNameL rules _ _ _ _) htrans₁ h
  obtain ⟨_, db₃, -, hsame₃, htrans₃, h⟩ := of_quiet quiet_mayLeave htrans₂ h
  obtain ⟨item₁, db₄, hrename, hsame₄, htrans₄, h⟩ :=
    of_quiet (quiet_renameL rules _ _) htrans₃ h
  obtain ⟨-, name, hstored, rfl⟩ := renameL_ok rules hrename
  obtain ⟨hcolumns, h⟩ := of_leaveIf h
  obtain ⟨_, db₅, hinsert, h⟩ := bind_eq_ok.mp h
  obtain ⟨hroom, time, -, htable₅⟩ := insertRow_ok hinsert
  have hchecked := newNameL_ok rules htrans₁ hnewName
  have hsame := (hsame₁.trans hsame₂).trans (hsame₃.trans hsame₄)
  rw [hsame₁.rows] at hchecked
  rw [hsame.rows] at hroom
  obtain ⟨r, hcurrent, hpure⟩ := of_currentRow h
  have hrow : db₅.table.current = some { writeItemData { aItem with name }
        (Row.blank db.table.nextRecord db.table.counter) with
      factoryItem := aFactoryItem, readOnly := aReadOnly, modified := time } := by
    rw [htable₅, ← hsame.counter, ← hsame.nextRecord]
    rfl
  have hperm : db₅.table.rows.Perm ({ writeItemData { aItem with name }
        (Row.blank db.table.nextRecord db.table.counter) with
      factoryItem := aFactoryItem, readOnly := aReadOnly, modified := time } ::
        db.table.rows) := by
    rw [htable₅, ← hsame.counter, ← hsame.nextRecord, ← hsame.rows]
    exact Table.rows_insert _
  rw [hrow] at hcurrent
  cases hcurrent
  cases hpure
  simp only [Bool.not_eq_false'] at hvalidName hvalid hexists
  rw [hexists] at hparent
  refine ⟨_, name, time, rfl, ⟨hvalidName, hvalid, ?_, ⟨newName, hchecked, hstored⟩, ?_⟩,
    folderExistsL_ok htrans hparent, hroom, hrow, hperm, ?_, ?_, htrans', rfl⟩
  · intro hfolder
    rw [hfolder] at hroot
    simpa using hroot
  · simp only [Bool.or_eq_false_iff, decide_eq_false_iff_not, Nat.not_lt] at hcolumns
    exact hcolumns.1.1.1
  · rw [htable₅, ← hsame.counter]
    rfl
  · rw [htable₅, ← hsame.nextRecord]
    rfl

end

end SymbianWeb.Favourites.Store
