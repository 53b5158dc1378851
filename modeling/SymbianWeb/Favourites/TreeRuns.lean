import SymbianWeb.Favourites.Transactions

/-!
# The folder tree in every run

Every request keeps the folder tree, as long as a restore gives no row a uid that the counter has
not reached yet: a row that is added later gets that uid once more.
-/

set_option autoImplicit false

namespace SymbianWeb.Favourites.Store

open ErrorState

/-! ## Requests of one row -/

section

variable (rules : CharRules) {db db' : Db}

theorem doAddL_intact {aItem item' : Item} {aRenameType : RenameType}
    {aFactoryItem aReadOnly : Bool} (htrans : db.iInTransaction = true) (h : db.table.Intact)
    (hrun : doAddL rules aItem aRenameType aFactoryItem aReadOnly db = .ok item' db') :
    db'.table.Intact := by
  obtain ⟨r, name, time, hr, hchecked, hparent, -, -, hrows, hcounter, hnext, -, -⟩ :=
    doAddL_ok rules htrans hrun
  rw [Table.Intact, hcounter, hnext]
  refine (Intact.insert h ?_ ?_ ?_ ?_ ?_ ?_).perm hrows.symm
  · rw [hr]
    rfl
  · intro x hmem
    rw [hr]
    exact (h.uid_lt x hmem).ne
  · rw [hr]
    exact h.counter_pos.ne'
  · rw [hr]
    exact Int.lt_add_one_of_le le_rfl
  · rw [hr]
    exact hparent
  · rw [hr]
    exact hchecked.folder_root

theorem updateCurrentL_intact {aItem item' : Item} {aRenameType : RenameType}
    (htrans : db.iInTransaction = true) (h : db.table.Intact)
    (hroot : ∀ r, db.table.current = some r → r.uid ≠ kFavouritesRootUid)
    (hrun : updateCurrentL rules aItem aRenameType db = .ok item' db') : db'.table.Intact := by
  obtain ⟨r, name, time, others, hcurrent, htype, -, hchecked, hparent, hrows, hrows', hcounter,
    hnext, -⟩ := updateCurrentL_ok rules htrans h.nodup hrun
  have hintact := Intact.perm hrows h
  rw [Table.Intact, hcounter, hnext]
  apply Intact.perm hrows'.symm
  apply hintact.update
  · rfl
  · rfl
  · exact htype.symm
  · exact fun hr => (hroot r hcurrent hr).elim
  · intro hne
    rcases hparent with hsame | ⟨f, hmem, huid, hfolder⟩
    · show ∃ f ∈ r :: others, f.uid = aItem.parentFolder ∧ f.type = .folder
      rw [← hsame]
      exact hintact.tree.parents r List.mem_cons_self hne
    · exact ⟨f, hrows.mem_iff.mp hmem, huid, hfolder⟩
  · intro hfolder _
    exact hchecked.folder_root (htype.symm.trans hfolder)

theorem deleteCurrentL_intact {deletedUids : List Int} (htrans : db.iInTransaction = true)
    (h : db.table.Intact)
    (hroot : ∀ r, db.table.current = some r → r.uid ≠ kFavouritesRootUid)
    (hrun : deleteCurrentL rules db = .ok deletedUids db') : db'.table.Intact := by
  obtain ⟨r, hcurrent, -, hrows, hcounter, hnext⟩ :=
    deleteCurrentL_ok rules htrans h.tree.not_null h.nodup hrun
  have hne := hroot r hcurrent
  rw [Table.Intact, hcounter, hnext]
  split at hrows
  · -- the folder is deleted when it is empty
    have hleft := (h.erase_contents (Table.mem_rows_of_current hcurrent) hne).perm hrows
    refine hleft.erase hne (.inr fun x hmem => ?_)
    have hkept := hrows.mem_iff.mpr (List.mem_cons_of_mem r hmem)
    exact of_decide_eq_true (List.mem_filter.mp hkept).2
  · rename_i hitem
    refine (Intact.perm hrows h).erase hne (.inl ?_)
    cases htype : r.type with
    | item => rfl
    | folder => exact (hitem htype).elim

/-- A change of columns that say nothing about the tree. -/
theorem updateRow_intact {aTouch : Bool} {edit : Row → Row} {a : Unit} (h : db.table.Intact)
    (hrecord : ∀ r, (edit r).record = r.record) (huid : ∀ r, (edit r).uid = r.uid)
    (htype : ∀ r, (edit r).type = r.type) (hparent : ∀ r, (edit r).parentFolder = r.parentFolder)
    (hrun : updateRow aTouch edit db = .ok a db') : db'.table.Intact := by
  obtain ⟨r, time, others, -, hrows, hrows', -, -, hcounter, hnext⟩ := updateRow_perm hrun
  rw [Table.Intact, hcounter, hnext]
  apply Intact.perm hrows'.symm
  apply (Intact.perm hrows h).update_columns <;> rw [touch] <;> split
  · exact hrecord r
  · exact hrecord r
  · exact huid r
  · exact huid r
  · exact htype r
  · exact htype r
  · exact hparent r
  · exact hparent r

theorem SameRows.intact (hsame : SameRows db db') (h : db.table.Intact) : db'.table.Intact := by
  rw [Table.Intact, hsame.rows, hsame.counter, hsame.nextRecord]
  exact h

/-- A uid that is found is under the cursor. -/
theorem current_of_gotoToUidL {aUid : Int} {a : Unit} (h : gotoToUidL aUid db = .ok a db') {r : Row}
    (hcurrent : db'.table.current = some r) : r.uid = aUid := by
  obtain ⟨r', hcurrent', -, huid⟩ := gotoToUidL_ok h
  rw [hcurrent] at hcurrent'
  cases hcurrent'
  exact huid

end

/-! ## The restore -/

section

variable (rules : CharRules)

/-- The names of the folders in the root. -/
def rootNames (rows : List Row) : List Text := (rows.filter isRootFolder).map (·.name)

/-- The number of folders that a restore adds: those that are not found by their names. -/
def foldersToAdd : List Text → List Row → Nat
  | _, [] => 0
  | names, ref :: reference =>
      if names.any (like rules ref.name) then foldersToAdd names reference
      else foldersToAdd ((setName rules ref.name).getD [] :: names) reference + 1

/-- A restore gives no row a uid that the counter has not reached. -/
def UidsReached (reference : List Row) (s : Stored) : Prop :=
  ∀ (i : Nat) (ref : Row), (referenceItems reference)[i]? = some ref →
    ref.uid ≤ s.counter + foldersToAdd rules (rootNames s.rows) (referenceFolders reference) + i

variable {db db' : Db}

/-- A table whose rows are in order while it is being restored. -/
structure Restoring (names : List Text) (counter : Int) (t : Table) : Prop where
  intact : t.Intact
  names : ∀ name, name ∈ rootNames t.rows ↔ name ∈ names
  counter : t.counter = counter

variable {names : List Text} {counter : Int}

theorem rootNames_cons_of_eq {r r' : Row} {others : List Row} (htype : r'.type = r.type)
    (hparent : r'.parentFolder = r.parentFolder) (hname : r'.name = r.name) :
    rootNames (r' :: others) = rootNames (r :: others) := by
  simp [rootNames, List.filter_cons, isRootFolder, htype, hparent]
  split <;> simp [hname]

theorem mem_rootNames_perm {rows rows' : List Row} (h : rows.Perm rows') (name : Text) :
    name ∈ rootNames rows ↔ name ∈ rootNames rows' :=
  ((h.filter _).map _).mem_iff

theorem SameRows.restoring (hsame : SameRows db db') (h : Restoring names counter db.table) :
    Restoring names counter db'.table :=
  ⟨hsame.intact h.intact, fun name => by rw [hsame.rows]; exact h.names name,
    hsame.counter.trans h.counter⟩

/-- Changes of flags and context ids, and of the time. -/
theorem updateRow_restoring {aTouch : Bool} {edit : Row → Row} {a : Unit}
    (h : Restoring names counter db.table)
    (hrecord : ∀ r, (edit r).record = r.record) (huid : ∀ r, (edit r).uid = r.uid)
    (htype : ∀ r, (edit r).type = r.type) (hparent : ∀ r, (edit r).parentFolder = r.parentFolder)
    (hname : ∀ r, (edit r).name = r.name) (hrun : updateRow aTouch edit db = .ok a db') :
    Restoring names counter db'.table := by
  obtain ⟨r, time, others, -, hrows, hrows', -, -, hcounter, -⟩ := updateRow_perm hrun
  refine ⟨updateRow_intact h.intact hrecord huid htype hparent hrun, fun name => ?_,
    hcounter.trans h.counter⟩
  rw [← h.names, mem_rootNames_perm hrows, mem_rootNames_perm hrows']
  rw [rootNames_cons_of_eq] <;> rw [touch] <;> split
  · exact htype r
  · exact htype r
  · exact hparent r
  · exact hparent r
  · exact hname r
  · exact hname r

/-- The deletion of an item. -/
theorem deleteRow_restoring {r : Row} {a : Unit} (h : Restoring names counter db.table)
    (hcurrent : db.table.current = some r) (hitem : r.type = .item)
    (hrun : deleteRow db = .ok a db') : Restoring names counter db'.table := by
  obtain ⟨_, -, -, htable⟩ := deleteRow_ok hrun
  have hperm := Table.rows_of_current hcurrent
  rw [← Table.rows_delete] at hperm
  have hne : r.uid ≠ kFavouritesRootUid :=
    h.intact.tree.ne_root_of_item (Table.mem_rows_of_current hcurrent) hitem
  rw [htable]
  refine ⟨(Intact.perm hperm h.intact).erase hne (.inl hitem), fun name => ?_, h.counter⟩
  rw [← h.names, mem_rootNames_perm hperm, rootNames, rootNames, List.filter_cons_of_neg]
  simp [isRootFolder, hitem]

/-- A loop over the rows keeps what its rounds keep. -/
theorem whileNextL_keeps {β : Type} {atEnd b : β} {body : Op (Option β)} {I : Table → Prop}
    (hrows : ∀ t t' : Table, t'.rows = t.rows → t'.counter = t.counter →
      t'.nextRecord = t.nextRecord → I t → I t')
    (hbody : ∀ s result s', I s.table → body s = .ok result s' → I s'.table)
    (hstart : I db.table) (h : whileNextL rules atEnd body db = .ok b db') : I db'.table := by
  refine whileNextL_ok rules (I := fun s => I s.table) (Q := fun _ s => I s.table) ?_ ?_ h
  · intro s htable _
    rw [htable]
    exact hrows db.table _ rfl rfl rfl hstart
  · intro s s' found hI hnext
    obtain ⟨htable, -, -⟩ := nextL_ok hnext
    have hI' : I s'.table := by
      rw [htable]
      exact hrows s.table _ (Table.rows_next _) rfl rfl hI
    refine ⟨fun _ => hI', fun _ result s'' hrun => ?_⟩
    have hkept := hbody s' result s'' hI' hrun
    cases result with
    | none => exact hkept
    | some b => exact hkept

theorem Restoring.congr {t t' : Table} (hrows : t'.rows = t.rows)
    (hcounter : t'.counter = t.counter) (hnext : t'.nextRecord = t.nextRecord)
    (h : Restoring names counter t) : Restoring names counter t' := by
  refine ⟨?_, fun name => by rw [hrows]; exact h.names name, hcounter.trans h.counter⟩
  rw [Table.Intact, hrows, hcounter, hnext]
  exact h.intact

theorem clearContextIdsL_restoring (reference : List Row) :
    ∀ {db db' : Db} {a : Unit}, db.iInTransaction = true → Restoring names counter db.table →
      clearContextIdsL rules reference db = .ok a db' → Restoring names counter db'.table := by
  induction reference with
  | nil =>
      intro db db' a _ h hrun
      cases hrun
      exact h
  | cons ref reference ih =>
      intro db db' a htrans h hrun
      obtain ⟨_, db₁, hfirst, hrest⟩ := bind_eq_ok.mp hrun
      have htrans₁ := (InFile.of_ok (inFile_clearContextIdsL rules [ref]) htrans
        (bind_eq_ok.mpr ⟨_, db₁, hfirst, rfl⟩)).iInTransaction.trans htrans
      apply ih htrans₁ _ hrest
      obtain ⟨_, db₂, -, hsame₂, htrans₂, hfirst⟩ := of_quiet quiet_mayLeave htrans hfirst
      split at hfirst
      · obtain ⟨_, db₃, -, hsame₃, htrans₃, hfirst⟩ := of_quiet (quiet_setFiltersL _) htrans₂ hfirst
        obtain ⟨_, db₄, hloop, hclear⟩ := bind_eq_ok.mp hfirst
        rw [clearFilters_ok hclear]
        show Restoring names counter db₄.table
        refine whileNextL_keeps rules (I := Restoring names counter)
          (fun _ _ => Restoring.congr) ?_ ((hsame₂.trans hsame₃).restoring h) hloop
        intro s result s' hs hbody
        obtain ⟨_, s₁, hupdate, hpure⟩ := bind_eq_ok.mp hbody
        cases hpure
        refine updateRow_restoring hs ?_ ?_ ?_ ?_ ?_ hupdate <;> exact fun _ => rfl
      · cases hfirst
        exact hsame₂.restoring h

theorem clearFactoryItemsL_restoring {a : Unit} (h : Restoring names counter db.table)
    (hrun : clearFactoryItemsL rules db = .ok a db') : Restoring names counter db'.table := by
  refine whileNextL_keeps rules (I := Restoring names counter) (fun _ _ => Restoring.congr) ?_ h
    hrun
  intro s result s' hs hbody
  obtain ⟨r, s₁, hget, hbody⟩ := bind_eq_ok.mp hbody
  obtain ⟨hcurrent, htable, -⟩ := getL_ok hget
  obtain ⟨_, s₂, hclear, hpure⟩ := bind_eq_ok.mp hbody
  cases hpure
  rw [← htable] at hs hcurrent
  rw [clearFactoryRowL] at hclear
  split at hclear
  · cases htype : r.type with
    | item =>
        simp only [htype] at hclear
        exact deleteRow_restoring hs hcurrent htype hclear
    | folder =>
        simp only [htype] at hclear
        refine updateRow_restoring hs ?_ ?_ ?_ ?_ ?_ hclear <;> exact fun _ => rfl
  · cases hclear
    exact hs

/-- The uid of an added folder comes from the counter. -/
theorem restoreFoldersL_restoring (reference : List Row)
    (hfolders : ∀ ref ∈ reference, isRootFolder ref = true) :
    ∀ {db db' : Db} {parentMap parentMap' : List UidPair} {names : List Text} {counter : Int},
      db.iInTransaction = true → Restoring names counter db.table →
      restoreFoldersL rules reference parentMap db = .ok parentMap' db' →
      db'.iInTransaction = true ∧ db'.table.Intact ∧
        db'.table.counter = counter + foldersToAdd rules names reference := by
  induction reference with
  | nil =>
      intro db db' parentMap parentMap' names counter htrans h hrun
      cases hrun
      exact ⟨htrans, h.intact, by rw [h.counter, foldersToAdd]; simp⟩
  | cons ref reference ih =>
      intro db db' parentMap parentMap' names counter htrans h hrun
      obtain ⟨_, db₁, -, hsame₁, htrans₁, hrun⟩ := of_quiet quiet_mayLeave htrans hrun
      obtain ⟨_, db₂, hfolder, hrun⟩ := bind_eq_ok.mp hrun
      have htrans₂ := ((inFile_restoreFolderL rules ref).of_ok htrans₁ hfolder).iInTransaction.trans
        htrans₁
      obtain ⟨r, -, hrun⟩ := of_currentRow hrun
      obtain ⟨_, db₃, -, hsame₃, htrans₃, hrun⟩ := of_quiet quiet_mayLeave htrans₂ hrun
      obtain ⟨_, db₄, -, hsame₄, htrans₄, hrun⟩ := of_quiet quiet_clearFilters htrans₃ hrun
      have h₁ := hsame₁.restoring h
      have hroot := hfolders ref List.mem_cons_self
      have hrest := fun ref hmem => hfolders ref (List.mem_cons_of_mem _ hmem)
      cases restoreFolderL_ok rules htrans₁ hfolder with
      | found r others hrootr hlike hrows hrows' hcurrent hcounter hnext =>
          have hany : names.any (like rules ref.name) = true := by
            refine List.any_eq_true.mpr ⟨r.name, ?_, hlike⟩
            rw [← h₁.names, mem_rootNames_perm hrows, rootNames, List.filter_cons_of_pos hrootr]
            exact List.mem_cons_self
          rw [foldersToAdd, if_pos hany]
          refine ih hrest htrans₄ ((hsame₃.trans hsame₄).restoring ?_) hrun
          refine ⟨?_, fun name => ?_, hcounter.trans h₁.counter⟩
          · rw [Table.Intact, hcounter, hnext]
            apply Intact.perm hrows'.symm
            exact (Intact.perm hrows h₁.intact).update_columns rfl rfl rfl rfl
          · rw [← h₁.names, mem_rootNames_perm hrows', mem_rootNames_perm hrows,
              rootNames_cons_of_eq]
            · rfl
            · rfl
            · rfl
      | added name hnone hname hparent hfree hrows' hcurrent hcounter hnext =>
          have hany : names.any (like rules ref.name) = false := by
            rw [List.any_eq_false]
            intro name hmem
            rw [← h₁.names, rootNames, List.mem_map] at hmem
            obtain ⟨x, hmem, rfl⟩ := hmem
            obtain ⟨hmem, hrootx⟩ := List.mem_filter.mp hmem
            rw [hnone x hmem hrootx]
            exact Bool.false_ne_true
          rw [isRootFolder, Bool.and_eq_true, decide_eq_true_eq, decide_eq_true_eq] at hroot
          rw [foldersToAdd, if_neg (by rw [hany]; exact Bool.false_ne_true), hname,
            Option.getD_some, Nat.cast_add, Nat.cast_one, add_comm _ (1 : Int), ← add_assoc]
          refine ih hrest htrans₄ ((hsame₃.trans hsame₄).restoring ?_) hrun
          refine ⟨?_, fun made => ?_, by rw [hcounter, h₁.counter]⟩
          · rw [Table.Intact, hcounter, hnext]
            apply Intact.perm hrows'.symm
            apply Intact.insert h₁.intact
            · rfl
            · exact fun x hmem => (h₁.intact.uid_lt x hmem).ne
            · exact h₁.intact.counter_pos.ne'
            · exact Int.lt_add_one_of_le le_rfl
            · exact hparent
            · exact fun _ => hroot.2
          · rw [mem_rootNames_perm hrows', List.mem_cons, ← h₁.names, rootNames,
              List.filter_cons_of_pos]
            · rw [List.map_cons, List.mem_cons]
              rfl
            · simp [isRootFolder, addedRow, hroot]

theorem restoreItemsL_intact (parentMap : List UidPair) (reference : List Row) :
    ∀ {db db' : Db} {aApMap aApMap' : List UidPair}, db.iInTransaction = true →
      db.table.Intact →
      (∀ (i : Nat) (ref : Row), reference[i]? = some ref → ref.uid ≤ db.table.counter + i) →
      (∀ ref ∈ reference, ref.uid ≠ kFavouritesNullUid) →
      restoreItemsL rules parentMap reference aApMap db = .ok aApMap' db' → db'.table.Intact := by
  induction reference with
  | nil =>
      intro db db' aApMap aApMap' _ h _ _ hrun
      cases hrun
      exact h
  | cons ref reference ih =>
      intro db db' aApMap aApMap' htrans h hreached hnull hrun
      obtain ⟨_, db₁, -, hsame₁, htrans₁, hrun⟩ := of_quiet quiet_mayLeave htrans hrun
      obtain ⟨item, db₂, hitem, hrun⟩ := bind_eq_ok.mp hrun
      have htrans₂ := ((inFile_restoreItemL rules parentMap ref).of_ok htrans₁
        hitem).iInTransaction.trans htrans₁
      have h₁ := hsame₁.intact h
      obtain ⟨r, hrestored, hrecord, hrows, hcounter, hnext, -, -⟩ :=
        restoreItemL_ok rules htrans₁
          (.inr (.inr fun x hmem => (h₁.uid_lt x hmem).ne)) hitem
      have h₂ : db₂.table.Intact := by
        have huid := hrestored.uid
        rw [Table.Intact, hcounter, hnext]
        apply Intact.perm hrows.symm
        apply Intact.insert h₁ hrecord _ _ _ hrestored.parent hrestored.folder_root
        · intro x hmem heq
          split at huid
          · exact (h₁.uid_lt x hmem).ne (heq.trans huid)
          · rename_i hnot
            exact hnot ⟨x, hmem, heq.trans huid⟩
        · rw [huid]
          split
          · exact h₁.counter_pos.ne'
          · exact hnull ref List.mem_cons_self
        · rw [huid]
          split
          · exact Int.lt_add_one_of_le le_rfl
          · have := hreached 0 ref rfl
            rw [hsame₁.counter]
            simp only [Nat.cast_zero, add_zero] at this
            exact Int.lt_add_one_of_le this
      have hreached' : ∀ (i : Nat) (ref : Row), reference[i]? = some ref →
          ref.uid ≤ db₂.table.counter + i := by
        intro i x hx
        have := hreached (i + 1) x (by rw [List.getElem?_cons_succ]; exact hx)
        rw [hcounter, hsame₁.counter]
        push_cast at this
        omega
      have hnull' := fun ref hmem => hnull ref (List.mem_cons_of_mem _ hmem)
      split at hrun
      · obtain ⟨_, db₃, -, hsame₃, htrans₃, hrun⟩ := of_quiet quiet_mayLeave htrans₂ hrun
        refine ih htrans₃ (hsame₃.intact h₂) ?_ hnull' hrun
        rw [hsame₃.counter]
        exact hreached'
      · exact ih htrans₂ h₂ hreached' hnull' hrun

theorem restoreFactorySettingsL_intact {reference : List Row} {aApMap : List UidPair}
    (htrans : db.iInTransaction = true) (h : db.table.Intact) (hreference : FolderTree reference)
    (hreached : UidsReached rules reference ⟨db.table.rows, db.table.counter, db.table.nextRecord⟩)
    (hrun : restoreFactorySettingsL rules reference db = .ok aApMap db') :
    db'.table.Intact := by
  obtain ⟨parentMap, db₄, hfolders, hrun⟩ := bind_eq_ok.mp hrun
  obtain ⟨_, db₁, hcontext, hfolders⟩ := bind_eq_ok.mp hfolders
  have htrans₁ := ((inFile_clearContextIdsL rules reference).of_ok htrans
    hcontext).iInTransaction.trans htrans
  obtain ⟨_, db₂, hfactory, hfolders⟩ := bind_eq_ok.mp hfolders
  have htrans₂ := ((inFile_clearFactoryItemsL rules).of_ok htrans₁ hfactory).iInTransaction.trans
    htrans₁
  obtain ⟨_, db₃, -, hsame₃, htrans₃, hfolders⟩ := of_quiet quiet_mayLeave htrans₂ hfolders
  have hstart : Restoring (rootNames db.table.rows) db.table.counter db.table :=
    ⟨h, fun name => Iff.rfl, rfl⟩
  have h₂ := clearFactoryItemsL_restoring rules
    (clearContextIdsL_restoring rules reference htrans hstart hcontext) hfactory
  obtain ⟨htrans₄, h₄, hcounter⟩ := restoreFoldersL_restoring rules _
    (fun ref hmem => (List.mem_filter.mp hmem).2) htrans₃ (hsame₃.restoring h₂) hfolders
  obtain ⟨_, db₅, -, hsame₅, htrans₅, hrun⟩ := of_quiet quiet_mayLeave htrans₄ hrun
  refine restoreItemsL_intact rules parentMap _ htrans₅ (hsame₅.intact h₄) ?_ ?_ hrun
  · intro i ref href
    rw [hsame₅.counter, hcounter]
    exact hreached i ref href
  · exact fun ref hmem => hreference.not_null ref (List.mem_filter.mp hmem).1

end

/-! ## Runs -/

section

variable (rules : CharRules)

/-- The reference table of a restore is a folder tree itself. -/
def Request.ReferenceTree : Request → Prop
  | .restoreFactorySettings reference => FolderTree reference
  | _ => True

/-- The uids that a restore gives out are reached by the counter. -/
def Request.UidsReached (request : Request) (s : Stored) : Prop :=
  match request with
  | .restoreFactorySettings reference => Store.UidsReached rules reference s
  | _ => True

theorem Stored.Intact.of_unchanged {s s' : Stored} (h : s.Intact) (hunchanged : Unchanged s s') :
    s'.Intact := by
  rw [Stored.Intact, hunchanged.rows]
  exact Store.Intact.mono h hunchanged.counter_le hunchanged.nextRecord_le

/-- A transaction keeps the tree if its body does. -/
theorem outside_intact {α : Type} {P : Stored → Prop} {aWrite : Bool} {x : Op α} (hx : InFile x)
    (hcommit : ∀ (a : α) (db db' : Db), db.iInTransaction = true → db.table.Intact →
      P ⟨db.table.rows, db.table.counter, db.table.nextRecord⟩ → x db = .ok a db' →
      db'.table.Intact) :
    Outside (fun s => s.Intact ∧ P s) Stored.Intact (transaction aWrite x) :=
  Outside.transaction hx (fun _ _ h => h.1.of_unchanged)
    fun a db db' htrans h hrun => hcommit a db db' htrans h.1 h.2 hrun

/-- A flag or the preferred uid of a row. -/
theorem setColumnL_intact {P : Stored → Prop} (aUid : Int) (aTouch : Bool) (edit : Row → Row)
    (hrecord : ∀ r, (edit r).record = r.record) (huid : ∀ r, (edit r).uid = r.uid)
    (htype : ∀ r, (edit r).type = r.type)
    (hparent : ∀ r, (edit r).parentFolder = r.parentFolder) :
    Outside (fun s => s.Intact ∧ P s) Stored.Intact (setColumnL aUid aTouch edit) := by
  apply outside_intact
  · exact inFile_setColumn _ _ _
  · intro a db db' htrans h _ hrun
    obtain ⟨_, db₁, hgoto, hsame, -, hupdate⟩ := of_quiet (quiet_gotoToUidL _) htrans hrun
    exact updateRow_intact (hsame.intact h) hrecord huid htype hparent hupdate

theorem setSpecialItemL_intact {aItem : Item} {aUid : Int} {a : Item} {db db' : Db}
    (htrans : db.iInTransaction = true) (h : db.table.Intact)
    (hspecial : aUid = kFavouritesHomepageUid ∨ aUid = kFavouritesLastVisitedUid)
    (hrun : (do
      let found ← seekToUidL aUid
      if found then updateCurrentL rules aItem .suppressCheck
      else do
        let aItem ← doAddL rules aItem .suppressCheck false false
        updateRow true fun r => { r with uid := aUid }
        let r ← currentRow
        pure { aItem with uid := aUid, modified := r.modified } : Op Item) db = .ok a db') :
    db'.table.Intact := by
  have hne : aUid ≠ kFavouritesRootUid ∧ aUid ≠ kFavouritesNullUid ∧ aUid < 0 := by
    rcases hspecial with rfl | rfl <;> decide
  obtain ⟨found, db₁, hseek, hsame₁, htrans₁, hrun⟩ := of_quiet (quiet_seekToUidL _) htrans hrun
  have h₁ := hsame₁.intact h
  cases found with
  | true =>
      apply updateCurrentL_intact rules htrans₁ h₁ _ hrun
      intro r hcurrent
      obtain ⟨r', hcurrent', -, huid⟩ := of_seekToUidL hseek
      rw [hcurrent] at hcurrent'
      cases hcurrent'
      rw [huid]
      exact hne.1
  | false =>
      obtain ⟨item, db₂, hadd, hrun⟩ := bind_eq_ok.mp hrun
      obtain ⟨_, db₃, hupdate, hrun⟩ := bind_eq_ok.mp hrun
      obtain ⟨_, _, hpure⟩ := of_currentRow hrun
      cases hpure
      obtain ⟨r, name, time, hr, hchecked, hparent, -, hcurrent, hrows, hcounter, hnext, -, -⟩ :=
        doAddL_ok rules htrans₁ hadd
      obtain ⟨r', time', others, hcurrent', hperm, hrows', -, -, hcounter', hnext'⟩ :=
        updateRow_perm hupdate
      rw [hcurrent] at hcurrent'
      cases hcurrent'
      have hfinal := hrows'.trans ((hperm.symm.trans hrows).cons_inv.cons _)
      rw [Table.Intact, hcounter', hnext', hcounter, hnext]
      apply Intact.perm hfinal.symm
      apply Intact.insert h₁
      · show r.record = db₁.table.nextRecord
        rw [hr]
        rfl
      · intro x hmem
        rw [hsame₁.rows] at hmem
        exact of_not_seekToUidL hseek x hmem
      · exact hne.2.1
      · have hpos := h₁.counter_pos
        have hlt : aUid < db₁.table.counter + 1 := by
          have := hne.2.2
          omega
        exact hlt
      · show ∃ f ∈ db₁.table.rows, f.uid = r.parentFolder ∧ f.type = .folder
        rw [hr]
        exact hparent
      · show r.type = .folder → r.parentFolder = kFavouritesRootUid
        rw [hr]
        exact hchecked.folder_root

/-- One request keeps the tree. -/
theorem serve_intact (request : Request) :
    Outside (fun s => s.Intact ∧ (request.ReferenceTree ∧ request.UidsReached rules s))
      Stored.Intact (request.serve rules) := by
  cases request with
  | add aItem aAutoRename =>
      apply Outside.ignore
      exact outside_intact (inFile_doAddL rules _ _ _ _) fun a db db' htrans h _ hrun =>
        doAddL_intact rules htrans h hrun
  | update aItem aUid aAutoRename =>
      apply Outside.ignore
      cases hallowed : (aUid = kFavouritesRootUid || aUid = kFavouritesHomepageUid ||
        aUid = kFavouritesLastVisitedUid : Bool) with
      | true =>
          rw [updateL, hallowed]
          exact fun db hclosed h => ⟨hclosed, h.1⟩
      | false =>
          rw [updateL, hallowed]
          apply Outside.leaveIf _ _ fun _ h => h.1
          apply outside_intact
          · exact inFile_update rules _ _ _
          · intro a db db' htrans h _ hrun
            obtain ⟨_, db₁, hgoto, hsame, htrans₁, hrun⟩ :=
              of_quiet (quiet_gotoToUidL _) htrans hrun
            apply updateCurrentL_intact rules htrans₁ (hsame.intact h) _ hrun
            intro r hcurrent
            rw [current_of_gotoToUidL hgoto hcurrent]
            simp only [Bool.or_eq_false_iff, decide_eq_false_iff_not] at hallowed
            exact hallowed.1.1
  | delete aUid =>
      apply Outside.ignore
      cases hallowed : (aUid = kFavouritesRootUid || aUid = kFavouritesHomepageUid : Bool) with
      | true =>
          rw [deleteL, hallowed]
          exact fun db hclosed h => ⟨hclosed, h.1⟩
      | false =>
          rw [deleteL, hallowed]
          apply Outside.leaveIf _ _ fun _ h => h.1
          apply Outside.mayLeave fun _ h => h.1
          apply outside_intact
          · exact inFile_delete rules _
          · intro a db db' htrans h _ hrun
            obtain ⟨_, db₁, hgoto, hsame, htrans₁, hrun⟩ :=
              of_quiet (quiet_gotoToUidL _) htrans hrun
            apply deleteCurrentL_intact rules htrans₁ (hsame.intact h) _ hrun
            intro r hcurrent
            rw [current_of_gotoToUidL hgoto hcurrent]
            simp only [Bool.or_eq_false_iff, decide_eq_false_iff_not] at hallowed
            exact hallowed.1
  | setSpecialItem aItem aUid =>
      apply Outside.ignore
      cases hspecial : (aUid ≠ kFavouritesHomepageUid && aUid ≠ kFavouritesLastVisitedUid : Bool)
        with
      | true =>
          rw [setSpecialItemL, hspecial]
          exact fun db hclosed h => ⟨hclosed, h.1⟩
      | false =>
          rw [setSpecialItemL, hspecial]
          apply Outside.leaveIf _ _ fun _ h => h.1
          apply Outside.leaveIf _ _ fun _ h => h.1
          apply outside_intact
          · exact inFile_setSpecialItem rules _ _
          · intro a db db' htrans h _ hrun
            refine setSpecialItemL_intact rules htrans h ?_ hrun
            rw [Bool.and_eq_false_iff, decide_eq_false_iff_not, decide_eq_false_iff_not, not_not,
              not_not] at hspecial
            exact hspecial
  | setFactoryItem aUid aFactoryItem =>
      apply setColumnL_intact <;> exact fun _ => rfl
  | setReadOnly aUid aReadOnly =>
      apply setColumnL_intact <;> exact fun _ => rfl
  | setModified aUid aModified =>
      apply setColumnL_intact <;> exact fun _ => rfl
  | setPreferredUid aFolder aUid =>
      apply outside_intact
      · exact inFile_setPreferredUid _ _
      · intro a db db' htrans h _ hrun
        obtain ⟨_, db₁, -, hsame₁, htrans₁, hrun⟩ := of_quiet (quiet_gotoToUidL _) htrans hrun
        obtain ⟨r, db₂, -, hsame₂, -, hrun⟩ := of_quiet quiet_getL htrans₁ hrun
        split at hrun
        · refine updateRow_intact (hsame₂.intact (hsame₁.intact h)) ?_ ?_ ?_ ?_ hrun <;>
            exact fun _ => rfl
        · cases hrun
  | restoreFactorySettings reference =>
      apply Outside.ignore
      exact outside_intact (inFile_restoreFactorySettingsL rules _)
        fun a db db' htrans h hreference hrun =>
          restoreFactorySettingsL_intact rules htrans h hreference.1 hreference.2 hrun

theorem OnlyRoot.intact {db : Db} (h : OnlyRoot db) : db.stored.Intact := by
  obtain ⟨r, hrows, huid, hfolder, hparent, hrecord⟩ := h.root
  have hpos := h.counter_pos
  have hmem : ∀ x ∈ db.stored.rows, x = r := by
    rw [hrows]
    exact fun x => List.mem_singleton.mp
  refine ⟨⟨⟨r, ?_, huid, hfolder⟩, ?_, ?_, ?_, ?_⟩, ?_, hpos, ?_, ?_, ?_⟩
  · rw [hrows]
    exact List.mem_singleton_self r
  · intro x hx hne
    rw [hmem x hx] at hne
    exact (hne huid).elim
  · intro x hx _ hne
    rw [hmem x hx] at hne
    exact (hne huid).elim
  · intro x hx
    rw [hmem x hx, huid]
    decide
  · rw [hrows]
    exact List.nodup_singleton _
  · intro x hx _
    rw [hmem x hx, hparent]
  · intro x hx
    rw [hmem x hx, huid]
    exact lt_trans (by decide) hpos
  · rw [hrows]
    exact List.nodup_singleton _
  · intro x hx
    rw [hmem x hx]
    exact hrecord

/-- In every run from a new database whose restores give out only uids that the counter has
reached, the rows are a folder tree. -/
theorem folderTree_of_uidsReached {db : Db} (hstart : OnlyRoot db) (turns : List Turn)
    (heach : EachTurn rules
      (fun request s => request.ReferenceTree ∧ request.UidsReached rules s) turns db) :
    FolderTree (runTurns rules turns db).stored.rows :=
  (runTurns_keeps rules (I := Stored.Intact) (serve_intact rules) turns hstart.closed
    hstart.intact heach).tree

end

/-- A reference table with one item. -/
def oneItemTable (uid : Int) : List Row :=
  [rootRow, { Row.blank 1 uid with parentFolder := kFavouritesRootUid, name := [65], url := [104] }]

theorem folderTree_oneItemTable {uid : Int} (hroot : uid ≠ kFavouritesRootUid)
    (hnull : uid ≠ kFavouritesNullUid) : FolderTree (oneItemTable uid) := by
  refine ⟨⟨rootRow, List.mem_cons_self, rfl, rfl⟩, ?_, ?_, ?_, ?_⟩
  · intro r hmem hne
    rcases List.mem_cons.mp hmem with rfl | hmem
    · exact (hne rfl).elim
    · rw [List.mem_singleton.mp hmem]
      exact ⟨rootRow, List.mem_cons_self, rfl, rfl⟩
  · intro r hmem hfolder hne
    rcases List.mem_cons.mp hmem with rfl | hmem
    · exact (hne rfl).elim
    · rw [List.mem_singleton.mp hmem]
  · intro r hmem
    rcases List.mem_cons.mp hmem with rfl | hmem
    · decide
    · rw [List.mem_singleton.mp hmem]
      exact hnull
  · rw [oneItemTable, List.map_cons, List.nodup_cons]
    refine ⟨fun hmem => hroot (List.mem_singleton.mp hmem).symm, List.nodup_singleton _⟩

/-- An item that is restored under the uid that the counter has reached, and another one after
it. -/
theorem folderTree_of_uidsReached_restored :
    FolderTree (runTurns .ascii [plainTurn (.restoreFactorySettings (oneItemTable 1)),
      plainTurn (.add (plainItem [66]) false)] newDb).stored.rows := by
  refine folderTree_of_uidsReached .ascii onlyRoot_newDb _ ⟨⟨?_, ?_⟩, ⟨trivial, trivial⟩, trivial⟩
  · exact folderTree_oneItemTable (by decide) (by decide)
  · intro i ref href
    have hitems : referenceItems (oneItemTable 1) = (oneItemTable 1).tail := by decide
    rw [hitems] at href
    cases i with
    | zero =>
        cases href
        decide
    | succ i => cases href

/-- A restore of an item with the uid 2 into a new database leaves the counter at 2, and the next
item that is added gets that uid too. -/
theorem not_folderTree_of_referenceTree :
    ¬ ∀ (rules : CharRules) (db : Db) (turns : List Turn), OnlyRoot db →
      EachTurn rules (fun request _ => request.ReferenceTree) turns db →
      FolderTree (runTurns rules turns db).stored.rows := by
  intro hclaim
  have htree := hclaim .ascii newDb [plainTurn (.restoreFactorySettings (oneItemTable 2)),
    plainTurn (.add (plainItem [66]) false)] onlyRoot_newDb
    ⟨folderTree_oneItemTable (by decide) (by decide), trivial, trivial⟩
  have huids : (runTurns .ascii [plainTurn (.restoreFactorySettings (oneItemTable 2)),
      plainTurn (.add (plainItem [66]) false)] newDb).stored.rows.map (·.uid) = [-1, 2, 2] := by
    decide +kernel
  have hnodup := htree.nodup
  rw [huids] at hnodup
  revert hnodup
  decide

end SymbianWeb.Favourites.Store
