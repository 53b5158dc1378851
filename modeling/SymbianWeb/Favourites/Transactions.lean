import SymbianWeb.Favourites.RestoreSteps

/-!
# Runs of requests

Each request runs in a transaction of its own: what it has done is committed, or it leaves and is
rolled back (`transaction_cases`). A run is any sequence of requests, with any of the calls in them
leaving.
-/

set_option autoImplicit false

namespace SymbianWeb.Favourites.Store

open ErrorState

/-! ## Committed or rolled back -/

/-- What is in the file is as it was; the counters may have gone on. -/
structure Unchanged (s s' : Stored) : Prop where
  rows : s'.rows = s.rows
  counter_le : s.counter ≤ s'.counter
  nextRecord_le : s.nextRecord ≤ s'.nextRecord

/-- The state of a transaction that has just begun. -/
structure Begun (db db₁ : Db) : Prop where
  stored : db₁.stored = db.stored
  rows : db₁.table.rows = db.stored.rows
  counter : db₁.table.counter = db.stored.counter
  nextRecord : db₁.table.nextRecord = db.stored.nextRecord
  iInTransaction : db₁.iInTransaction = true

/-- What a transaction has done to the file. -/
inductive Transacted {α : Type} (x : Op α) (db db' : Db) : Prop
  | committed (a : α) (db₁ db₂ : Db) : Begun db db₁ → x db₁ = .ok a db₂ →
      db'.stored = ⟨db₂.table.rows, db₂.table.counter, db₂.table.nextRecord⟩ → Transacted x db db'
  | leaves : Unchanged db.stored db'.stored → Transacted x db db'

section

variable {α : Type} {x : Op α} {db db' : Db}

theorem beginL_ok {aWrite : Bool} {a : Unit} (h : beginL aWrite db = .ok a db') : Begun db db' := by
  have hquiet : ∀ {b : Unit} {db₁ : Db},
      (do mayLeave; mayLeave; if aWrite then putWriteLockL else pure () : Op Unit) db = .ok b db₁ →
      db₁.stored = db.stored := by
    intro b db₁ hrun
    have hturn : ∀ {s s' : Db} {c : Unit}, mayLeave s = .ok c s' → s'.stored = s.stored := by
      intro s s' c hs
      rw [mayLeave] at hs
      split at hs
      · cases hs
        rfl
      · cases hs
      · cases hs
        rfl
    obtain ⟨_, s₁, h₁, hrun⟩ := bind_eq_ok.mp hrun
    obtain ⟨_, s₂, h₂, hrun⟩ := bind_eq_ok.mp hrun
    have h₃ : db₁.stored = s₂.stored := by
      split at hrun
      · exact hturn hrun
      · cases hrun
        rfl
    rw [h₃, hturn h₂, hturn h₁]
  rw [beginL] at h
  split at h
  · cases h
  · rename_i hrun
    have hstored := hquiet hrun
    cases h
    exact ⟨hstored, rfl, rfl, rfl, rfl⟩

theorem beginL_error {aWrite : Bool} {e : Leave} (h : beginL aWrite db = .error e db') :
    db'.stored = db.stored ∧ db'.iInTransaction = db.iInTransaction := by
  rw [beginL] at h
  split at h
  · cases h
    exact ⟨rfl, rfl⟩
  · cases h

theorem commitL_ok {a : Unit} (h : commitL db = .ok a db') :
    db'.stored = ⟨db.table.rows, db.table.counter, db.table.nextRecord⟩ ∧
      db'.iInTransaction = false := by
  obtain ⟨db₁, htable, -, h⟩ := of_mayLeave h
  cases h
  rw [← htable]
  exact ⟨rfl, rfl⟩

/-- What a transaction has begun with, and what it has committed. -/
theorem transaction_ok {aWrite : Bool} {a : α} (hclosed : db.iInTransaction = false)
    (h : transaction aWrite x db = .ok a db') :
    ∃ db₁ db₂, Begun db db₁ ∧ db₁.filter = none ∧ x db₁ = .ok a db₂ ∧
      db'.stored = ⟨db₂.table.rows, db₂.table.counter, db₂.table.nextRecord⟩ := by
  rw [transaction, if_neg (by rw [hclosed]; exact Bool.false_ne_true)] at h
  split at h
  · cases h
  · rename_i db₁ hbegin
    have hfilter : db₁.filter = none := by
      rw [beginL] at hbegin
      split at hbegin
      · cases hbegin
      · cases hbegin
        rfl
    split at h
    · cases h
    · rename_i hrun
      cases h
      obtain ⟨_, db₂, hx, hrun⟩ := bind_eq_ok.mp hrun
      obtain ⟨_, db₃, hcommit, hpure⟩ := bind_eq_ok.mp hrun
      cases hpure
      exact ⟨db₁, db₂, beginL_ok hbegin, hfilter, hx, (commitL_ok hcommit).1⟩

theorem commitL_error {e : Leave} (htrans : db.iInTransaction = true)
    (h : commitL db = .error e db') : SameRows db db' := by
  rcases bind_cases mayLeave _ db with ⟨a, db₁, hrun, hbind⟩ | ⟨e', db₁, hrun, hbind⟩
  · rw [commitL, hbind] at h
    cases h
  · rw [commitL, hbind] at h
    cases h
    have hsame := quiet_mayLeave db htrans
    rwa [hrun] at hsame

/-- A rollback leaves nothing but the counters. -/
theorem rollback_unchanged {db₁ : Db} (hbegun : Begun db db₁) (hkeeps : KeepsFile db₁ db') :
    Unchanged db.stored db'.rollback.stored := by
  have hcounter := hkeeps.counter_le
  have hnext := hkeeps.nextRecord_le
  rw [hbegun.counter] at hcounter
  rw [hbegun.nextRecord] at hnext
  have hstored := hkeeps.stored.trans hbegun.stored
  refine ⟨?_, ?_, hnext⟩
  · rw [Db.rollback, hstored]
  · rw [Db.rollback]
    split
    · exact hcounter
    · rw [hstored]

/-- A request is done as a whole, or nothing of it. -/
theorem transaction_cases (aWrite : Bool) (hx : InFile x) (hclosed : db.iInTransaction = false) :
    (finalState (transaction aWrite x db)).iInTransaction = false ∧
      Transacted x db (finalState (transaction aWrite x db)) := by
  rw [transaction, if_neg (by rw [hclosed]; exact Bool.false_ne_true)]
  cases hbegin : beginL aWrite db with
  | error e db₁ =>
      obtain ⟨hstored, htrans⟩ := beginL_error hbegin
      refine ⟨htrans.trans hclosed, .leaves ?_⟩
      exact ⟨congrArg _ hstored, (congrArg _ hstored).ge, (congrArg _ hstored).ge⟩
  | ok a db₁ =>
      have hbegun := beginL_ok hbegin
      have hkeeps := hx db₁ hbegun.iInTransaction
      dsimp only
      rcases bind_cases x (fun a => do commitL; pure a) db₁ with
        ⟨b, db₂, hrun, hbind⟩ | ⟨e, db₂, hrun, hbind⟩
      · rw [hrun] at hkeeps
        have htrans := hkeeps.iInTransaction.trans hbegun.iInTransaction
        rw [hbind]
        rcases bind_cases commitL (fun _ => pure b) db₂ with
          ⟨c, db₃, hcommit, hbind'⟩ | ⟨e, db₃, hcommit, hbind'⟩
        · rw [hbind']
          exact ⟨(commitL_ok hcommit).2, .committed b db₁ db₂ hbegun hrun (commitL_ok hcommit).1⟩
        · rw [hbind']
          have hsame := commitL_error htrans hcommit
          exact ⟨rfl, .leaves (rollback_unchanged hbegun (hkeeps.trans hsame.keepsFile))⟩
      · rw [hrun] at hkeeps
        rw [hbind]
        exact ⟨rfl, .leaves (rollback_unchanged hbegun hkeeps)⟩

end

/-! ## Between two transactions -/

/-- What a request makes of the file: `Q` holds behind it if `P` holds before it, whether it leaves
or not. -/
def Outside {α : Type} (P Q : Stored → Prop) (x : Op α) : Prop :=
  ∀ db, db.iInTransaction = false → P db.stored →
    (finalState (x db)).iInTransaction = false ∧ Q (finalState (x db)).stored

section

variable {α β : Type} {P Q : Stored → Prop} {x : Op α}

theorem Outside.leaveIf (c : Bool) (e : Leave) (hPQ : ∀ s, P s → Q s) (h : Outside P Q x) :
    Outside P Q (leaveIf c e >>= fun _ => x) := by
  intro db hclosed hP
  cases c with
  | true => exact ⟨hclosed, hPQ _ hP⟩
  | false => exact h db hclosed hP

theorem Outside.mayLeave (hPQ : ∀ s, P s → Q s) (h : Outside P Q x) :
    Outside P Q (mayLeave >>= fun _ => x) := by
  intro db hclosed hP
  cases hturn : db.leaveAt with
  | none =>
      rw [bind_of_ok (show Store.mayLeave db = .ok () db by rw [Store.mayLeave, hturn])]
      exact h db hclosed hP
  | some n =>
      cases n with
      | zero =>
          rw [bind_of_error (show Store.mayLeave db = .error .fault db by
            rw [Store.mayLeave, hturn])]
          exact ⟨hclosed, hPQ _ hP⟩
      | succ n =>
          rw [bind_of_ok (show Store.mayLeave db = .ok () { db with leaveAt := some n } by
            rw [Store.mayLeave, hturn])]
          exact h _ hclosed hP

theorem Outside.ignore (h : Outside P Q x) : Outside P Q (do let _ ← x : Op Unit) := by
  intro db hclosed hP
  have hx := h db hclosed hP
  rcases bind_cases x (fun _ => pure ()) db with ⟨a, db₁, hrun, hbind⟩ | ⟨e, db₁, hrun, hbind⟩
  · rw [hrun] at hx
    rw [hbind]
    exact hx
  · rw [hrun] at hx
    rw [hbind]
    exact hx

/-- It is enough to look at what is committed. -/
theorem Outside.transaction {aWrite : Bool} (hx : InFile x)
    (hleave : ∀ s s', P s → Unchanged s s' → Q s')
    (hcommit : ∀ (a : α) (db db' : Db), db.iInTransaction = true →
      P ⟨db.table.rows, db.table.counter, db.table.nextRecord⟩ → x db = .ok a db' →
      Q ⟨db'.table.rows, db'.table.counter, db'.table.nextRecord⟩) :
    Outside P Q (transaction aWrite x) := by
  intro db hclosed hP
  obtain ⟨hclosed', hcases⟩ := transaction_cases aWrite hx hclosed
  refine ⟨hclosed', ?_⟩
  cases hcases with
  | committed a db₁ db₂ hbegun hrun hstored =>
      rw [hstored]
      refine hcommit a db₁ db₂ hbegun.iInTransaction ?_ hrun
      rw [hbegun.rows, hbegun.counter, hbegun.nextRecord]
      exact hP
  | leaves hunchanged => exact hleave _ _ hP hunchanged

end

/-! ## Requests -/

/-- A request of a client to the server. -/
inductive Request where
  | add (aItem : Item) (aAutoRename : Bool)
  | update (aItem : Item) (aUid : Int) (aAutoRename : Bool)
  | delete (aUid : Int)
  | setSpecialItem (aItem : Item) (aUid : Int)
  | setFactoryItem (aUid : Int) (aFactoryItem : Bool)
  | setReadOnly (aUid : Int) (aReadOnly : Bool)
  | setModified (aUid aModified : Int)
  | setPreferredUid (aFolder aUid : Int)
  | restoreFactorySettings (reference : List Row)

section

variable (rules : CharRules)

/-- The restore runs in a transaction that the client has begun for it. -/
def Request.serve : Request → Op Unit
  | .add aItem aAutoRename => do
      let _ ← addL rules aItem aAutoRename
  | .update aItem aUid aAutoRename => do
      let _ ← updateL rules aItem aUid aAutoRename
  | .delete aUid => do
      let _ ← deleteL rules aUid
  | .setSpecialItem aItem aUid => do
      let _ ← setSpecialItemL rules aItem aUid
  | .setFactoryItem aUid aFactoryItem => setFactoryItemL aUid aFactoryItem
  | .setReadOnly aUid aReadOnly => setReadOnlyL aUid aReadOnly
  | .setModified aUid aModified => setModifiedL aUid aModified
  | .setPreferredUid aFolder aUid => setPreferredUidL aFolder aUid
  | .restoreFactorySettings reference => do
      let _ ← transaction true (restoreFactorySettingsL rules reference)

theorem inFile_setColumn (aUid : Int) (aTouch : Bool) (edit : Row → Row) :
    InFile (do gotoToUidL aUid; updateRow aTouch edit : Op Unit) :=
  (quiet_gotoToUidL _).inFile.bind fun _ => inFile_updateRow _ _

theorem inFile_update (aItem : Item) (aUid : Int) (aRenameType : RenameType) :
    InFile (do gotoToUidL aUid; updateCurrentL rules aItem aRenameType : Op Item) :=
  (quiet_gotoToUidL _).inFile.bind fun _ => inFile_updateCurrentL rules _ _

theorem inFile_delete (aUid : Int) :
    InFile (do gotoToUidL aUid; deleteCurrentL rules : Op (List Int)) :=
  (quiet_gotoToUidL _).inFile.bind fun _ => inFile_deleteCurrentL rules

theorem inFile_setSpecialItem (aItem : Item) (aUid : Int) :
    InFile (do
      let found ← seekToUidL aUid
      if found then updateCurrentL rules aItem .suppressCheck
      else do
        let aItem ← doAddL rules aItem .suppressCheck false false
        updateRow true fun r => { r with uid := aUid }
        let r ← currentRow
        pure { aItem with uid := aUid, modified := r.modified } : Op Item) :=
  (quiet_seekToUidL _).inFile.bind fun _ => .ite (inFile_updateCurrentL rules _ _)
    ((inFile_doAddL rules _ _ _ _).bind fun _ => (inFile_updateRow _ _).bind fun _ =>
      quiet_currentRow.inFile.bind fun _ => (Quiet.pure _).inFile)

theorem inFile_setPreferredUid (aFolder aUid : Int) :
    InFile (do
      gotoToUidL aFolder
      let r ← getL
      if r.type = .folder then updateRow true fun r => { r with preferredUid := aUid }
      else throw .argument : Op Unit) :=
  (quiet_gotoToUidL _).inFile.bind fun _ => quiet_getL.inFile.bind fun _ =>
    .ite (inFile_updateRow _ _) (Quiet.throw _).inFile

/-- A request, and what happens to it: the times that it is given, and which of its calls leaves,
if one does. -/
structure Turn where
  request : Request
  leaveAt : Option Nat
  clock : Nat → Int
  keepsCounter : Bool

/-- The database after a request, whether it has left or not. -/
def Turn.run (turn : Turn) (db : Db) : Db :=
  finalState (turn.request.serve rules
    { db with leaveAt := turn.leaveAt, clock := turn.clock, keepsCounter := turn.keepsCounter })

/-- The database after a sequence of requests. -/
def runTurns (turns : List Turn) (db : Db) : Db :=
  turns.foldl (fun db turn => turn.run rules db) db

/-- Every request of a run meets a condition in the state it is made in. -/
def EachTurn (P : Request → Stored → Prop) : List Turn → Db → Prop
  | [], _ => True
  | turn :: turns, db => P turn.request db.stored ∧ EachTurn P turns (turn.run rules db)

/-- What every request that meets the condition keeps holds behind every run of such requests. -/
theorem runTurns_keeps {P : Request → Stored → Prop} {I : Stored → Prop}
    (hstep : ∀ request, Outside (fun s => I s ∧ P request s) I (request.serve rules))
    (turns : List Turn) :
    ∀ {db : Db}, db.iInTransaction = false → I db.stored → EachTurn rules P turns db →
      I (runTurns rules turns db).stored := by
  induction turns with
  | nil => exact fun _ hI _ => hI
  | cons turn turns ih =>
      intro db hclosed hI heach
      obtain ⟨hclosed', hI'⟩ := hstep turn.request { db with
        leaveAt := turn.leaveAt, clock := turn.clock, keepsCounter := turn.keepsCounter }
        hclosed ⟨hI, heach.1⟩
      exact ih hclosed' hI' heach.2

end

/-- A database in which there is nothing but the root, and in which no transaction is open. -/
structure OnlyRoot (db : Db) : Prop where
  root : ∃ r, db.stored.rows = [r] ∧ r.uid = kFavouritesRootUid ∧ r.type = .folder ∧
    r.parentFolder = kFavouritesNullUid ∧ r.record < db.stored.nextRecord
  counter_pos : 0 < db.stored.counter
  closed : db.iInTransaction = false

def rootRow : Row := { Row.blank 0 kFavouritesRootUid with type := .folder }

/-- A new database. The first row has got the uid 0 before it became the root. -/
def newDb : Db where
  stored := ⟨[rootRow], 1, 1⟩
  table := ⟨[], none, [], 0, 0⟩
  tableOpen := false
  begun := false
  iInTransaction := false
  filter := none
  keepsCounter := false
  clock := fun _ => 0
  leaveAt := none

theorem onlyRoot_newDb : OnlyRoot newDb :=
  ⟨⟨rootRow, rfl, rfl, rfl, rfl, Nat.zero_lt_one⟩, Int.zero_lt_one, rfl⟩

/-- An item in the root with a name and a URL. -/
def plainItem (aName : Text) : Item where
  uid := kFavouritesNullUid
  parentFolder := kFavouritesRootUid
  type := .item
  name := aName
  url := [104]
  userName := []
  password := []
  wapAp := ⟨0, .default⟩
  factoryItem := false
  readOnly := false
  contextId := kFavouritesNullContextId
  modified := 0
  hidden := false

/-- A request none of whose calls leaves. -/
def plainTurn (request : Request) : Turn := ⟨request, none, fun _ => 0, false⟩

end SymbianWeb.Favourites.Store
