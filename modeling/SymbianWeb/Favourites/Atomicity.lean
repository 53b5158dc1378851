import SymbianWeb.Favourites.Transactions

/-!
# Requests that leave

A request that runs in a transaction of its own is rolled back when it leaves. In a transaction of
the client nothing is rolled back for one request: there it is the client that rolls back, and what
the request has done is visible until then. Requests that write one row leave before they write it.
-/

set_option autoImplicit false

namespace SymbianWeb.Favourites.Store

open ErrorState

/-- A transaction is open in the database, with its table, exactly while the flag is set. -/
structure Consistent (db : Db) : Prop where
  begun : db.begun = db.iInTransaction
  tableOpen : db.tableOpen = db.iInTransaction

/-- The rows that are in the file after a commit, if a transaction is open. -/
def Db.permanent (db : Db) : List Row :=
  if db.iInTransaction then db.table.rows else db.stored.rows

/-- Nothing has happened to the rows, and no filter is left. -/
structure Atomic (db db' : Db) : Prop where
  visible : db'.visible = db.visible
  permanent : db'.permanent = db.permanent
  filter : db'.filter = none
  consistent : Consistent db'

/-! ## In a transaction of its own -/

/-- What a request that leaves does to a database in which no transaction is open. -/
def LeavesClean {α : Type} (x : Op α) : Prop :=
  ∀ (db : Db), db.iInTransaction = false → Consistent db → db.filter = none →
    ∀ e db', x db = .error e db' → Atomic db db' ∧ db'.iInTransaction = false

section

variable {α : Type} {x : Op α}

theorem Atomic.of_closed {db db' : Db} (hclosed : db.iInTransaction = false) (h : Consistent db)
    (hclosed' : db'.iInTransaction = false) (h' : Consistent db')
    (hrows : db'.stored.rows = db.stored.rows) (hfilter : db'.filter = none) : Atomic db db' := by
  have hopen := h.tableOpen.trans hclosed
  have hopen' := h'.tableOpen.trans hclosed'
  refine ⟨?_, ?_, hfilter, h'⟩
  · simp [Db.visible, hopen, hopen', hrows]
  · simp [Db.permanent, hclosed, hclosed', hrows]

theorem LeavesClean.leaveIf (c : Bool) (e : Leave) (h : LeavesClean x) :
    LeavesClean (leaveIf c e >>= fun _ => x) := by
  intro db hclosed hconsistent hfilter e' db' hrun
  cases c with
  | true =>
      cases hrun
      exact ⟨.of_closed hclosed hconsistent hclosed hconsistent rfl hfilter, hclosed⟩
  | false => exact h db hclosed hconsistent hfilter e' db' hrun

theorem LeavesClean.mayLeave (h : LeavesClean x) :
    LeavesClean (mayLeave >>= fun _ => x) := by
  intro db hclosed hconsistent hfilter e db' hrun
  cases hturn : db.leaveAt with
  | none =>
      rw [bind_of_ok (show Store.mayLeave db = .ok () db by rw [Store.mayLeave, hturn])] at hrun
      exact h db hclosed hconsistent hfilter e db' hrun
  | some n =>
      cases n with
      | zero =>
          rw [bind_of_error (show Store.mayLeave db = .error .fault db by
            rw [Store.mayLeave, hturn])] at hrun
          cases hrun
          exact ⟨.of_closed hclosed hconsistent hclosed hconsistent rfl hfilter, hclosed⟩
      | succ n =>
          rw [bind_of_ok (show Store.mayLeave db = .ok () { db with leaveAt := some n } by
            rw [Store.mayLeave, hturn])] at hrun
          obtain ⟨hatomic, hclosed'⟩ := h { db with leaveAt := some n } hclosed
            ⟨hconsistent.begun, hconsistent.tableOpen⟩ hfilter e db' hrun
          exact ⟨⟨hatomic.visible, hatomic.permanent, hatomic.filter, hatomic.consistent⟩, hclosed'⟩

theorem LeavesClean.ignore (h : LeavesClean x) : LeavesClean (do let _ ← x : Op Unit) := by
  intro db hclosed hconsistent hfilter e db' hrun
  rcases bind_cases x (fun _ => pure ()) db with ⟨a, db₁, hx, hbind⟩ | ⟨e', db₁, hx, hbind⟩
  · rw [hbind] at hrun
    cases hrun
  · rw [hbind] at hrun
    cases hrun
    exact h db hclosed hconsistent hfilter e db' hx

/-- A rollback takes everything back. -/
theorem LeavesClean.transaction (aWrite : Bool) (hx : InFile x) :
    LeavesClean (transaction aWrite x) := by
  intro db hclosed hconsistent hfilter e db' hrun
  rw [Store.transaction, if_neg (by rw [hclosed]; exact Bool.false_ne_true)] at hrun
  cases hbegin : beginL aWrite db with
  | error e₁ db₁ =>
      -- not even begun
      rw [hbegin] at hrun
      cases hrun
      rw [beginL] at hbegin
      split at hbegin
      · cases hbegin
        exact ⟨.of_closed hclosed hconsistent hclosed ⟨hconsistent.begun, hconsistent.tableOpen⟩ rfl
          rfl, hclosed⟩
      · cases hbegin
  | ok a db₁ =>
      have hbegun := beginL_ok hbegin
      have hkeeps := hx db₁ hbegun.iInTransaction
      rw [hbegin] at hrun
      -- the rows of the file are those before the transaction
      have hrolled : ∀ {db₂ : Db}, KeepsFile db₁ db₂ →
          Atomic db db₂.rollback ∧ db₂.rollback.iInTransaction = false := by
        intro db₂ hkeeps₂
        have hrows := (rollback_unchanged hbegun hkeeps₂).rows
        exact ⟨.of_closed hclosed hconsistent rfl ⟨rfl, rfl⟩ hrows rfl, rfl⟩
      dsimp only at hrun
      rcases bind_cases x (fun a => do commitL; pure a) db₁ with
        ⟨b, db₂, hbody, hbind⟩ | ⟨e₂, db₂, hbody, hbind⟩
      · rw [hbody] at hkeeps
        rw [hbind] at hrun
        rcases bind_cases commitL (fun _ => pure b) db₂ with
          ⟨c, db₃, hcommit, hbind'⟩ | ⟨e₃, db₃, hcommit, hbind'⟩
        · rw [hbind'] at hrun
          cases hrun
        · rw [hbind'] at hrun
          cases hrun
          have htrans := hkeeps.iInTransaction.trans hbegun.iInTransaction
          exact hrolled (hkeeps.trans (commitL_error htrans hcommit).keepsFile)
      · rw [hbody] at hkeeps
        rw [hbind] at hrun
        cases hrun
        exact hrolled hkeeps

end

/-! ## In a transaction of the client -/

/-- A call that leaves before it has changed a row. -/
def LeavesRows {α : Type} (x : Op α) : Prop :=
  ∀ db, db.iInTransaction = true → ∀ e db', x db = .error e db' → db'.table.rows = db.table.rows

/-- A call that leaves the filter as it is. -/
def KeepsFilter {α : Type} (x : Op α) : Prop :=
  ∀ db, db.iInTransaction = true →
    (finalState (x db)).filter = db.filter ∧ (finalState (x db)).iInTransaction = true

section

variable {α β : Type} {x : Op α} {k : α → Op β}

theorem Quiet.leavesRows (h : Quiet x) : LeavesRows x := by
  intro db htrans e db' hrun
  have hsame := h db htrans
  rw [hrun] at hsame
  exact hsame.rows

theorem LeavesRows.bind (hx : Quiet x) (hk : ∀ a, LeavesRows (k a)) : LeavesRows (x >>= k) := by
  intro db htrans e db' hrun
  have hsame := hx db htrans
  rcases bind_cases x k db with ⟨a, db₁, hrunx, hbind⟩ | ⟨e', db₁, hrunx, hbind⟩
  · rw [hrunx] at hsame
    rw [hbind] at hrun
    exact (hk a db₁ (hsame.iInTransaction.trans htrans) e db' hrun).trans hsame.rows
  · rw [hrunx] at hsame
    rw [hbind] at hrun
    cases hrun
    exact hsame.rows

/-- What comes behind the change of the row does not leave. -/
theorem LeavesRows.last (hx : LeavesRows x)
    (hk : ∀ db a db', x db = .ok a db' → ∃ b s, k a db' = .ok b s) : LeavesRows (x >>= k) := by
  intro db htrans e db' hrun
  rcases bind_cases x k db with ⟨a, db₁, hrunx, hbind⟩ | ⟨e', db₁, hrunx, hbind⟩
  · obtain ⟨b, s, hok⟩ := hk db a db₁ hrunx
    rw [hbind, hok] at hrun
    cases hrun
  · rw [hbind] at hrun
    cases hrun
    exact hx db htrans e db' hrunx

theorem LeavesRows.ite {c : Prop} [Decidable c] {y : Op α} (hx : LeavesRows x)
    (hy : LeavesRows y) : LeavesRows (if c then x else y) := by
  split
  · exact hx
  · exact hy

theorem LeavesRows.of_never_leaves (h : ∀ db e db', x db ≠ .error e db') : LeavesRows x :=
  fun db _ e db' hrun => (h db e db' hrun).elim

theorem leavesRows_updateRow (aTouch : Bool) (edit : Row → Row) :
    LeavesRows (updateRow aTouch edit) := by
  refine LeavesRows.bind quiet_mayLeave fun _ => .bind quiet_get fun db => ?_
  cases db.table.current with
  | none => exact (Quiet.throw _).leavesRows
  | some r => exact .of_never_leaves fun _ _ _ hrun => nomatch hrun

theorem leavesRows_insertRow (edit : Row → Row) : LeavesRows (insertRow edit) :=
  .bind quiet_mayLeave fun _ => .bind quiet_get fun _ => .bind (quiet_leaveIf _ _) fun _ =>
    .of_never_leaves fun _ _ _ hrun => nomatch hrun

theorem KeepsFilter.bind (hx : KeepsFilter x) (hk : ∀ a, KeepsFilter (k a)) :
    KeepsFilter (x >>= k) := by
  intro db htrans
  obtain ⟨hfilter, htrans'⟩ := hx db htrans
  rcases bind_cases x k db with ⟨a, db₁, hrun, hbind⟩ | ⟨e, db₁, hrun, hbind⟩
  · rw [hrun] at hfilter htrans'
    obtain ⟨hfilter', htrans''⟩ := hk a db₁ htrans'
    rw [hbind]
    exact ⟨hfilter'.trans hfilter, htrans''⟩
  · rw [hrun] at hfilter htrans'
    rw [hbind]
    exact ⟨hfilter, htrans'⟩

theorem KeepsFilter.ite {c : Prop} [Decidable c] {y : Op α} (hx : KeepsFilter x)
    (hy : KeepsFilter y) : KeepsFilter (if c then x else y) := by
  split
  · exact hx
  · exact hy

theorem KeepsFilter.pure (a : α) : KeepsFilter (pure a : Op α) := fun _ htrans => ⟨rfl, htrans⟩

theorem KeepsFilter.throw (e : Leave) : KeepsFilter (throw e : Op α) :=
  fun _ htrans => ⟨rfl, htrans⟩

theorem keepsFilter_mayLeave : KeepsFilter mayLeave := by
  intro db htrans
  refine ⟨?_, (quiet_mayLeave db htrans).iInTransaction.trans htrans⟩
  rw [mayLeave]
  split <;> rfl

theorem keepsFilter_leaveIf (c : Bool) (e : Leave) : KeepsFilter (leaveIf c e) :=
  .ite (.throw e) (.pure ())

theorem keepsFilter_get : KeepsFilter (get : Op Db) := fun _ htrans => ⟨rfl, htrans⟩

theorem keepsFilter_setTable (f : Table → Table) : KeepsFilter (setTable f) :=
  fun _ htrans => ⟨rfl, htrans⟩

theorem keepsFilter_currentRow : KeepsFilter currentRow :=
  keepsFilter_get.bind fun db => by
    cases db.table.current with
    | none => exact .throw _
    | some r => exact .pure r

theorem keepsFilter_seekToUidL (aUid : Int) : KeepsFilter (seekToUidL aUid) :=
  keepsFilter_mayLeave.bind fun _ => (keepsFilter_setTable _).bind fun _ =>
    keepsFilter_get.bind fun _ => .pure _

theorem keepsFilter_gotoToUidL (aUid : Int) : KeepsFilter (gotoToUidL aUid) :=
  (keepsFilter_seekToUidL aUid).bind fun _ => keepsFilter_leaveIf _ _

theorem keepsFilter_getL : KeepsFilter getL := keepsFilter_mayLeave.bind fun _ =>
  keepsFilter_currentRow

theorem keepsFilter_now : KeepsFilter now :=
  keepsFilter_get.bind fun _ => KeepsFilter.bind (fun _ htrans => ⟨rfl, htrans⟩) fun _ => .pure _

theorem keepsFilter_updateRow (aTouch : Bool) (edit : Row → Row) :
    KeepsFilter (updateRow aTouch edit) := by
  refine keepsFilter_mayLeave.bind fun _ => keepsFilter_get.bind fun db => ?_
  cases db.table.current with
  | none => exact .throw _
  | some r => exact keepsFilter_now.bind fun _ => keepsFilter_setTable _

theorem keepsFilter_insertRow (edit : Row → Row) : KeepsFilter (insertRow edit) :=
  keepsFilter_mayLeave.bind fun _ => keepsFilter_get.bind fun _ =>
    (keepsFilter_leaveIf _ _).bind fun _ => keepsFilter_now.bind fun _ => keepsFilter_setTable _

theorem KeepsFilter.transaction (aWrite : Bool) (hx : KeepsFilter x) :
    KeepsFilter (transaction aWrite x) := by
  intro db htrans
  rw [transaction_of_iInTransaction htrans]
  exact hx db htrans

theorem LeavesRows.transaction (aWrite : Bool) (hx : LeavesRows x) :
    LeavesRows (transaction aWrite x) := by
  intro db htrans e db' hrun
  rw [transaction_of_iInTransaction htrans] at hrun
  exact hx db htrans e db' hrun

theorem InFile.transaction (aWrite : Bool) (hx : InFile x) : InFile (transaction aWrite x) := by
  intro db htrans
  rw [transaction_of_iInTransaction htrans]
  exact hx db htrans

theorem LeavesRows.ignore (h : LeavesRows x) : LeavesRows (do let _ ← x : Op Unit) :=
  h.last fun _ _ db' _ => ⟨(), db', rfl⟩

theorem keepsFilter_folderExistsL (aFolder : Int) : KeepsFilter (folderExistsL aFolder) :=
  .transaction false ((keepsFilter_seekToUidL aFolder).bind fun _ =>
    .ite (keepsFilter_getL.bind fun _ => .pure _) (.pure _))

theorem keepsFilter_gotoL (aBookmark : Nat) : KeepsFilter (gotoL aBookmark) :=
  keepsFilter_mayLeave.bind fun _ => keepsFilter_setTable _

end

/-! ## The operations of one row -/

section

variable (rules : CharRules)

/-- The current row can be read when it has been changed. -/
theorem currentRow_of_current {α : Type} {k : Row → α} {db : Db} {r : Row}
    (h : db.table.current = some r) :
    ∃ b s, (currentRow >>= fun r => (pure (k r) : Op α)) db = .ok b s := by
  refine ⟨k r, db, ?_⟩
  have hread : currentRow db = .ok r db := by
    simp [currentRow, h]
  rw [bind_of_ok hread]
  rfl

theorem leavesRows_updateCurrentL (aItem : Item) (aRenameType : RenameType) :
    LeavesRows (updateCurrentL rules aItem aRenameType) := by
  -- validation
  refine .bind (quiet_leaveIf _ _) fun _ => .bind (quiet_leaveIf _ _) fun _ =>
    .bind quiet_bookmark fun _ => .bind quiet_getL fun _ => .bind (quiet_leaveIf _ _) fun _ =>
    .bind (quiet_leaveIf _ _) fun _ => .bind (quiet_leaveIf _ _) fun _ =>
    .bind (.ite (quiet_folderExistsL _) (.pure _)) fun _ => .bind (quiet_leaveIf _ _) fun _ =>
    .bind (quiet_newNameL rules _ _ _ _) fun _ => .bind quiet_mayLeave fun _ =>
    .bind (quiet_renameL rules _ _) fun _ => .bind (quiet_gotoL _) fun _ =>
    .bind (quiet_checkColumns _) fun _ => ?_
  -- the change of the row is the last call that may leave
  refine (leavesRows_updateRow _ _).last fun db a db' hrun => ?_
  obtain ⟨r, time, others, -, -, -, hcurrent, -⟩ := updateRow_perm hrun
  exact currentRow_of_current hcurrent

theorem leavesRows_doAddL (aItem : Item) (aRenameType : RenameType)
    (aFactoryItem aReadOnly : Bool) :
    LeavesRows (doAddL rules aItem aRenameType aFactoryItem aReadOnly) := by
  refine .bind (quiet_leaveIf _ _) fun _ => .bind (quiet_leaveIf _ _) fun _ =>
    .bind (quiet_leaveIf _ _) fun _ => .bind (quiet_folderExistsL _) fun _ =>
    .bind (quiet_leaveIf _ _) fun _ => .bind (quiet_newNameL rules _ _ _ _) fun _ =>
    .bind quiet_mayLeave fun _ => .bind (quiet_renameL rules _ _) fun _ =>
    .bind (quiet_checkColumns _) fun _ => ?_
  refine (leavesRows_insertRow _).last fun db a db' hrun => ?_
  obtain ⟨-, time, -, htable⟩ := insertRow_ok hrun
  obtain ⟨r, hcurrent⟩ : ∃ r, db'.table.current = some r := ⟨_, by rw [htable]; rfl⟩
  exact currentRow_of_current hcurrent

theorem leavesRows_setColumnL (aUid : Int) (aTouch : Bool) (edit : Row → Row) :
    LeavesRows (setColumnL aUid aTouch edit) :=
  .transaction true (.bind (quiet_gotoToUidL _) fun _ => leavesRows_updateRow _ _)

theorem keepsFilter_setColumnL (aUid : Int) (aTouch : Bool) (edit : Row → Row) :
    KeepsFilter (setColumnL aUid aTouch edit) :=
  .transaction true ((keepsFilter_gotoToUidL _).bind fun _ => keepsFilter_updateRow _ _)

theorem keepsFilter_renameL (newName : Option Text) (aItem : Item) :
    KeepsFilter (renameL rules newName aItem) := by
  cases newName with
  | none => exact .pure aItem
  | some name =>
      refine keepsFilter_mayLeave.bind fun _ => ?_
      cases setName rules name with
      | none => exact .throw _
      | some _ => exact .pure _

/-- No query is made for a name that is not checked. -/
theorem keepsFilter_newNameL (aName : Text) (aFolder aAcceptUid : Int) :
    KeepsFilter (newNameL rules .suppressCheck aName aFolder aAcceptUid) := KeepsFilter.pure none

theorem keepsFilter_updateCurrentL (aItem : Item) :
    KeepsFilter (updateCurrentL rules aItem .suppressCheck) :=
  (keepsFilter_leaveIf _ _).bind fun _ => (keepsFilter_leaveIf _ _).bind fun _ =>
    (keepsFilter_currentRow.bind fun _ => .pure _).bind fun _ => keepsFilter_getL.bind fun _ =>
    (keepsFilter_leaveIf _ _).bind fun _ => (keepsFilter_leaveIf _ _).bind fun _ =>
    (keepsFilter_leaveIf _ _).bind fun _ =>
    (KeepsFilter.ite (keepsFilter_folderExistsL _) (.pure _)).bind fun _ =>
    (keepsFilter_leaveIf _ _).bind fun _ => (keepsFilter_newNameL rules _ _ _).bind fun _ =>
    keepsFilter_mayLeave.bind fun _ => (keepsFilter_renameL rules _ _).bind fun _ =>
    (keepsFilter_gotoL _).bind fun _ => (keepsFilter_leaveIf _ _).bind fun _ =>
    (keepsFilter_updateRow _ _).bind fun _ => keepsFilter_currentRow.bind fun _ => .pure _

theorem keepsFilter_doAddL (aItem : Item) (aFactoryItem aReadOnly : Bool) :
    KeepsFilter (doAddL rules aItem .suppressCheck aFactoryItem aReadOnly) :=
  (keepsFilter_leaveIf _ _).bind fun _ => (keepsFilter_leaveIf _ _).bind fun _ =>
    (keepsFilter_leaveIf _ _).bind fun _ => (keepsFilter_folderExistsL _).bind fun _ =>
    (keepsFilter_leaveIf _ _).bind fun _ => (keepsFilter_newNameL rules _ _ _).bind fun _ =>
    keepsFilter_mayLeave.bind fun _ => (keepsFilter_renameL rules _ _).bind fun _ =>
    (keepsFilter_leaveIf _ _).bind fun _ => (keepsFilter_insertRow _).bind fun _ =>
    keepsFilter_currentRow.bind fun _ => .pure _

end

/-! ## Requests -/

section

variable (rules : CharRules)

theorem leavesClean_setColumnL (aUid : Int) (aTouch : Bool) (edit : Row → Row) :
    LeavesClean (setColumnL aUid aTouch edit) :=
  .transaction true (inFile_setColumn _ _ _)

/-- Every request that runs in a transaction of its own is rolled back as a whole. -/
theorem leavesClean_serve (request : Request) : LeavesClean (request.serve rules) := by
  cases request with
  | add aItem aAutoRename => exact (LeavesClean.transaction true (inFile_doAddL rules _ _ _ _)).ignore
  | update aItem aUid aAutoRename =>
      exact ((LeavesClean.transaction true (inFile_update rules _ _ _)).leaveIf _ _).ignore
  | delete aUid =>
      exact ((LeavesClean.transaction true (inFile_delete rules _)).mayLeave.leaveIf _ _).ignore
  | setSpecialItem aItem aUid =>
      apply LeavesClean.ignore
      apply LeavesClean.leaveIf
      apply LeavesClean.leaveIf
      exact .transaction true (inFile_setSpecialItem rules _ _)
  | setFactoryItem aUid aFactoryItem => exact leavesClean_setColumnL _ _ _
  | setReadOnly aUid aReadOnly => exact leavesClean_setColumnL _ _ _
  | setModified aUid aModified => exact leavesClean_setColumnL _ _ _
  | setPreferredUid aFolder aUid => exact .transaction true (inFile_setPreferredUid _ _)
  | restoreFactorySettings reference =>
      exact (LeavesClean.transaction true (inFile_restoreFactorySettingsL rules _)).ignore

theorem inFile_serve (request : Request) : InFile (request.serve rules) := by
  cases request with
  | add aItem aAutoRename =>
      exact (InFile.transaction true (inFile_doAddL rules _ _ _ _)).bind fun _ =>
        (Quiet.pure _).inFile
  | update aItem aUid aAutoRename =>
      refine InFile.bind ?_ fun _ => (Quiet.pure _).inFile
      exact (quiet_leaveIf _ _).inFile.bind fun _ => .transaction true (inFile_update rules _ _ _)
  | delete aUid =>
      refine InFile.bind ?_ fun _ => (Quiet.pure _).inFile
      exact (quiet_leaveIf _ _).inFile.bind fun _ => quiet_mayLeave.inFile.bind fun _ =>
        .transaction true (inFile_delete rules _)
  | setSpecialItem aItem aUid =>
      refine InFile.bind ?_ fun _ => (Quiet.pure _).inFile
      exact (quiet_leaveIf _ _).inFile.bind fun _ => (quiet_leaveIf _ _).inFile.bind fun _ =>
        .transaction true (inFile_setSpecialItem rules _ _)
  | setFactoryItem aUid aFactoryItem => exact .transaction true (inFile_setColumn _ _ _)
  | setReadOnly aUid aReadOnly => exact .transaction true (inFile_setColumn _ _ _)
  | setModified aUid aModified => exact .transaction true (inFile_setColumn _ _ _)
  | setPreferredUid aFolder aUid => exact .transaction true (inFile_setPreferredUid _ _)
  | restoreFactorySettings reference =>
      exact (InFile.transaction true (inFile_restoreFactorySettingsL rules _)).bind fun _ =>
        (Quiet.pure _).inFile

/-- A request that writes one row. -/
def Request.WritesOneRow (request : Request) (rows : List Row) : Prop :=
  match request with
  | .delete _ => False
  | .restoreFactorySettings _ => False
  | .setSpecialItem _ aUid => ∃ r ∈ rows, r.uid = aUid
  | _ => True

/-- A request that sets no filter. -/
def Request.SetsNoFilter : Request → Prop
  | .add _ _ => False
  | .update _ _ _ => False
  | .delete _ => False
  | .restoreFactorySettings _ => False
  | _ => True

/-- A quiet call leaves, or what is behind it does. -/
theorem of_quiet_error {α β : Type} {x : Op α} {k : α → Op β} {db db' : Db} {e : Leave}
    (hx : Quiet x) (htrans : db.iInTransaction = true) (h : (x >>= k) db = .error e db') :
    SameRows db db' ∨ ∃ a db₁, x db = .ok a db₁ ∧ SameRows db db₁ ∧
      db₁.iInTransaction = true ∧ k a db₁ = .error e db' := by
  rcases bind_eq_error h with hrun | ⟨a, db₁, hrun, hk⟩
  · have hsame := hx db htrans
    rw [hrun] at hsame
    exact .inl hsame
  · have hsame := hx.of_ok htrans hrun
    exact .inr ⟨a, db₁, hrun, hsame, hsame.iInTransaction.trans htrans, hk⟩

/-- A special item that is there is one row that is changed. -/
theorem rows_of_setSpecialItemL {aItem : Item} {aUid : Int} {db db' : Db} {e : Leave}
    (htrans : db.iInTransaction = true) (hthere : ∃ r ∈ db.table.rows, r.uid = aUid)
    (hrun : setSpecialItemL rules aItem aUid db = .error e db') :
    db'.table.rows = db.table.rows := by
  rcases of_quiet_error (quiet_leaveIf _ _) htrans hrun with hsame | ⟨_, db₁, -, hsame₁, htrans₁, hrun⟩
  · exact hsame.rows
  rcases of_quiet_error (quiet_leaveIf _ _) htrans₁ hrun with hsame | ⟨_, db₂, -, hsame₂, htrans₂, hrun⟩
  · exact hsame.rows.trans hsame₁.rows
  rw [transaction_of_iInTransaction htrans₂] at hrun
  have hrows₂ := hsame₂.rows.trans hsame₁.rows
  rcases of_quiet_error (quiet_seekToUidL _) htrans₂ hrun with
    hsame | ⟨found, db₃, hseek, hsame₃, htrans₃, hrun⟩
  · exact hsame.rows.trans hrows₂
  cases found with
  | true =>
      rw [leavesRows_updateCurrentL rules _ _ db₃ htrans₃ e db' hrun, hsame₃.rows, hrows₂]
  | false =>
      obtain ⟨r, hmem, huid⟩ := hthere
      rw [← hrows₂] at hmem
      exact (of_not_seekToUidL hseek r hmem huid).elim

theorem rows_of_writesOneRow {request : Request} {db db' : Db} {e : Leave}
    (htrans : db.iInTransaction = true) (hone : request.WritesOneRow db.table.rows)
    (hrun : request.serve rules db = .error e db') : db'.table.rows = db.table.rows := by
  cases request with
  | add aItem aAutoRename =>
      exact (LeavesRows.transaction true (leavesRows_doAddL rules _ _ _ _)).ignore db htrans e db'
        hrun
  | update aItem aUid aAutoRename =>
      refine LeavesRows.ignore (.bind (quiet_leaveIf _ _) fun _ => .transaction true ?_) db htrans e
        db' hrun
      exact .bind (quiet_gotoToUidL _) fun _ => leavesRows_updateCurrentL rules _ _
  | delete aUid => exact hone.elim
  | setSpecialItem aItem aUid =>
      rcases bind_eq_error hrun with hrun | ⟨_, db₁, -, hpure⟩
      · exact rows_of_setSpecialItemL rules htrans hone hrun
      · cases hpure
  | setFactoryItem aUid aFactoryItem => exact leavesRows_setColumnL _ _ _ db htrans e db' hrun
  | setReadOnly aUid aReadOnly => exact leavesRows_setColumnL _ _ _ db htrans e db' hrun
  | setModified aUid aModified => exact leavesRows_setColumnL _ _ _ db htrans e db' hrun
  | setPreferredUid aFolder aUid =>
      refine LeavesRows.transaction true ?_ db htrans e db' hrun
      exact .bind (quiet_gotoToUidL _) fun _ => .bind quiet_getL fun _ =>
        .ite (leavesRows_updateRow _ _) (Quiet.throw _).leavesRows
  | restoreFactorySettings reference => exact hone.elim

theorem filter_of_setsNoFilter {request : Request} {db db' : Db} {e : Leave}
    (htrans : db.iInTransaction = true) (hnone : request.SetsNoFilter)
    (hrun : request.serve rules db = .error e db') : db'.filter = db.filter := by
  have hkeeps : KeepsFilter (request.serve rules) := by
    cases request with
    | add aItem aAutoRename => exact hnone.elim
    | update aItem aUid aAutoRename => exact hnone.elim
    | delete aUid => exact hnone.elim
    | setSpecialItem aItem aUid =>
        refine KeepsFilter.bind ?_ fun _ => .pure _
        refine (keepsFilter_leaveIf _ _).bind fun _ => (keepsFilter_leaveIf _ _).bind fun _ =>
          .transaction true ((keepsFilter_seekToUidL _).bind fun _ => .ite ?_ ?_)
        · exact keepsFilter_updateCurrentL rules _
        · exact (keepsFilter_doAddL rules _ _ _).bind fun _ => (keepsFilter_updateRow _ _).bind
            fun _ => keepsFilter_currentRow.bind fun _ => .pure _
    | setFactoryItem aUid aFactoryItem => exact keepsFilter_setColumnL _ _ _
    | setReadOnly aUid aReadOnly => exact keepsFilter_setColumnL _ _ _
    | setModified aUid aModified => exact keepsFilter_setColumnL _ _ _
    | setPreferredUid aFolder aUid =>
        exact .transaction true ((keepsFilter_gotoToUidL _).bind fun _ =>
          keepsFilter_getL.bind fun _ => .ite (keepsFilter_updateRow _ _) (.throw _))
    | restoreFactorySettings reference => exact hnone.elim
  have hfilter := (hkeeps db htrans).1
  rwa [hrun] at hfilter

/-- What a request that leaves in a transaction of the client leaves to its rollback. -/
structure Recoverable (db db' : Db) : Prop where
  iInTransaction : db'.iInTransaction = true
  consistent : Consistent db'
  stored : db'.stored = db.stored
  rollback_visible : db'.rollback.visible = db.stored.rows
  rollback_filter : db'.rollback.filter = none
  rollback_consistent : Consistent db'.rollback

/-- A request that leaves has done nothing if the transaction is its own. If it is one of the
client, it stays open, and the file is as it was; the rollback of the client takes back what has
been done. A request that writes one row has not done anything then either. -/
theorem leave_atomic (request : Request) (db db' : Db) (e : Leave) (hconsistent : Consistent db)
    (hfilter : db.filter = none) (hrun : request.serve rules db = .error e db') :
    (db.iInTransaction = false → Atomic db db') ∧
      (db.iInTransaction = true → Recoverable db db' ∧
        (request.WritesOneRow db.table.rows →
          db'.visible = db.visible ∧ db'.permanent = db.permanent) ∧
        (request.SetsNoFilter → db'.filter = none)) := by
  constructor
  · intro hclosed
    exact (leavesClean_serve rules request db hclosed hconsistent hfilter e db' hrun).1
  · intro htrans
    have hkeeps := inFile_serve rules request db htrans
    rw [hrun] at hkeeps
    have htrans' : db'.iInTransaction = true := hkeeps.iInTransaction.trans htrans
    have hconsistent' : Consistent db' :=
      ⟨hkeeps.begun.trans (hconsistent.begun.trans (htrans.trans htrans'.symm)),
        hkeeps.tableOpen.trans (hconsistent.tableOpen.trans (htrans.trans htrans'.symm))⟩
    refine ⟨⟨htrans', hconsistent', hkeeps.stored, ?_, rfl, rfl, rfl⟩, fun hone => ?_, fun hnone => ?_⟩
    · rw [← hkeeps.stored]
      rfl
    · have hrows := rows_of_writesOneRow rules htrans hone hrun
      have hopen := hconsistent.tableOpen.trans htrans
      have hopen' := hconsistent'.tableOpen.trans htrans'
      simp [Db.visible, Db.permanent, htrans, htrans', hopen, hopen', hrows]
    · exact (filter_of_setsNoFilter rules htrans hnone hrun).trans hfilter

end

/-- A database in a transaction of the client, with an item and a read-only item in a folder. -/
def folderDb : Db :=
  let rows := [rootRow,
    { Row.blank 1 1 with type := .folder, parentFolder := kFavouritesRootUid, name := [65] },
    { Row.blank 2 2 with parentFolder := 1, name := [66], url := [104] },
    { Row.blank 3 3 with parentFolder := 1, name := [67], url := [104], readOnly := true }]
  { newDb with
    stored := ⟨rows, 4, 4⟩
    table := ⟨[], none, rows, 4, 4⟩
    tableOpen := true
    begun := true
    iInTransaction := true }

/-- An item that is not there cannot be changed in a transaction of the client. -/
theorem leave_atomic_folderDb :
    Recoverable folderDb (finalState ((Request.setReadOnly 7 true).serve .ascii folderDb)) ∧
      (finalState ((Request.setReadOnly 7 true).serve .ascii folderDb)).visible =
        folderDb.visible := by
  have h := (leave_atomic .ascii (.setReadOnly 7 true) folderDb _ .notFound ⟨rfl, rfl⟩ rfl rfl).2
    rfl
  exact ⟨h.1, (h.2.1 trivial).1⟩

/-- The item is deleted before the read-only item is found, and the filter stays. -/
theorem not_leave_atomic :
    ¬ ∀ (rules : CharRules) (request : Request) (db db' : Db) (e : Leave), Consistent db →
      db.filter = none → request.serve rules db = .error e db' → Atomic db db' := by
  intro hclaim
  have hatomic := hclaim .ascii (.delete 1) folderDb _ .accessDenied ⟨rfl, rfl⟩ rfl rfl
  have hvisible := congrArg (List.map Row.uid) hatomic.visible
  revert hvisible
  decide

end SymbianWeb.Favourites.Store
