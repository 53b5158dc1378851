import SymbianWeb.Favourites.Operations

/-!
# What the calls of the database do

`Quiet` calls change the cursor and the filter and nothing else, whether they leave or not: all
checks are of that kind. The other calls are described by the rows before and after them, in any
order (`List.Perm`), since no operation depends on the order that the index gives to rows.
-/

set_option autoImplicit false

namespace SymbianWeb.Favourites.Store

open ErrorState

/-! ## Quiet calls -/

/-- Nothing differs but the cursor, the filter, the clock and the turn of the leaving call. -/
structure SameRows (db db' : Db) : Prop where
  stored : db'.stored = db.stored
  rows : db'.table.rows = db.table.rows
  counter : db'.table.counter = db.table.counter
  nextRecord : db'.table.nextRecord = db.table.nextRecord
  tableOpen : db'.tableOpen = db.tableOpen
  begun : db'.begun = db.begun
  iInTransaction : db'.iInTransaction = db.iInTransaction
  keepsCounter : db'.keepsCounter = db.keepsCounter

theorem SameRows.refl (db : Db) : SameRows db db := ⟨rfl, rfl, rfl, rfl, rfl, rfl, rfl, rfl⟩

theorem SameRows.trans {db₁ db₂ db₃ : Db} (h : SameRows db₁ db₂) (h' : SameRows db₂ db₃) :
    SameRows db₁ db₃ :=
  ⟨h'.stored.trans h.stored, h'.rows.trans h.rows, h'.counter.trans h.counter,
    h'.nextRecord.trans h.nextRecord, h'.tableOpen.trans h.tableOpen, h'.begun.trans h.begun,
    h'.iInTransaction.trans h.iInTransaction, h'.keepsCounter.trans h.keepsCounter⟩

/-- A call inside a transaction that changes no row. -/
def Quiet {α : Type} (x : Op α) : Prop :=
  ∀ db, db.iInTransaction = true → SameRows db (finalState (x db))

section

variable {α β : Type} {x : Op α} {k : α → Op β}

theorem Quiet.of_ok (h : Quiet x) {db db' : Db} {a : α} (htrans : db.iInTransaction = true)
    (hrun : x db = .ok a db') : SameRows db db' := by
  have hsame := h db htrans
  rwa [hrun] at hsame

theorem Quiet.pure (a : α) : Quiet (pure a : Op α) := fun db _ => .refl db

theorem Quiet.throw (e : Leave) : Quiet (throw e : Op α) := fun db _ => .refl db

theorem Quiet.bind (hx : Quiet x) (hk : ∀ a, Quiet (k a)) : Quiet (x >>= k) := by
  intro db htrans
  have hsame := hx db htrans
  rcases bind_cases x k db with ⟨a, db₁, hrun, hbind⟩ | ⟨e, db₁, hrun, hbind⟩
  · rw [hbind]
    rw [hrun] at hsame
    exact hsame.trans (hk a db₁ (hsame.iInTransaction.trans htrans))
  · rw [hbind]
    rwa [hrun] at hsame

theorem Quiet.ite {c : Prop} [Decidable c] {y : Op α} (hx : Quiet x) (hy : Quiet y) :
    Quiet (if c then x else y) := by
  split
  · exact hx
  · exact hy

theorem quiet_mayLeave : Quiet mayLeave := by
  intro db _
  rw [mayLeave]
  split
  · exact .refl _
  · exact .refl _
  · exact ⟨rfl, rfl, rfl, rfl, rfl, rfl, rfl, rfl⟩

theorem quiet_leaveIf (c : Bool) (e : Leave) : Quiet (leaveIf c e) :=
  .ite (.throw e) (.pure ())

theorem quiet_get : Quiet (get : Op Db) := fun db _ => .refl db

theorem quiet_setTable {f : Table → Table} (hrows : ∀ t, (f t).rows = t.rows)
    (hcounter : ∀ t, (f t).counter = t.counter) (hnext : ∀ t, (f t).nextRecord = t.nextRecord) :
    Quiet (setTable f) :=
  fun db _ => ⟨rfl, hrows db.table, hcounter db.table, hnext db.table, rfl, rfl, rfl, rfl⟩

theorem quiet_beginningL : Quiet beginningL :=
  quiet_mayLeave.bind fun _ =>
    quiet_setTable (fun _ => Table.rows_beginning) (fun _ => rfl) fun _ => rfl

theorem quiet_nextL (rules : CharRules) : Quiet (nextL rules) :=
  quiet_mayLeave.bind fun _ => quiet_get.bind fun _ =>
    (quiet_setTable (fun _ => Table.rows_next _) (fun _ => rfl) fun _ => rfl).bind fun _ =>
      quiet_get.bind fun _ => .pure _

theorem quiet_currentRow : Quiet currentRow :=
  quiet_get.bind fun db => by
    cases db.table.current with
    | none => exact .throw _
    | some r => exact .pure r

theorem quiet_getL : Quiet getL := quiet_mayLeave.bind fun _ => quiet_currentRow

theorem quiet_bookmark : Quiet bookmark := quiet_currentRow.bind fun _ => .pure _

theorem quiet_seekToUidL (aUid : Int) : Quiet (seekToUidL aUid) :=
  quiet_mayLeave.bind fun _ =>
    (quiet_setTable (fun _ => Table.rows_seek _) (fun _ => rfl) fun _ => rfl).bind fun _ =>
      quiet_get.bind fun _ => .pure _

theorem quiet_gotoToUidL (aUid : Int) : Quiet (gotoToUidL aUid) :=
  (quiet_seekToUidL aUid).bind fun _ => quiet_leaveIf _ _

theorem quiet_gotoL (aBookmark : Nat) : Quiet (gotoL aBookmark) :=
  quiet_mayLeave.bind fun _ =>
    quiet_setTable (fun _ => Table.rows_seek _) (fun _ => rfl) fun _ => rfl

theorem quiet_clearFilters : Quiet clearFilters :=
  fun _ _ => ⟨rfl, rfl, rfl, rfl, rfl, rfl, rfl, rfl⟩

theorem quiet_setFiltersL (aFilter : Filter) : Quiet (setFiltersL aFilter) :=
  quiet_mayLeave.bind fun _ => quiet_clearFilters.bind fun _ =>
    .ite (.pure ()) (quiet_mayLeave.bind fun _ =>
      fun _ _ => ⟨rfl, rfl, rfl, rfl, rfl, rfl, rfl, rfl⟩)

theorem quiet_whileNextL (rules : CharRules) (atEnd : β) {body : Op (Option β)}
    (hbody : Quiet body) : Quiet (whileNextL rules atEnd body) := by
  refine quiet_beginningL.bind fun _ => quiet_get.bind fun db₀ => ?_
  intro db htrans
  have hround : Quiet (do
      let found ← nextL rules
      if found then body else Pure.pure (some atEnd) : Op (Option β)) :=
    (quiet_nextL rules).bind fun _ => .ite hbody (.pure _)
  refine finalState_repeatUntil (I := SameRows db) ?_ _ (.refl db)
  intro s hsame
  exact hsame.trans (hround s (hsame.iInTransaction.trans htrans))

theorem transaction_of_iInTransaction {aWrite : Bool} {db : Db}
    (h : db.iInTransaction = true) : transaction aWrite x db = x db := by
  rw [transaction, if_pos h]

theorem quiet_transaction {aWrite : Bool} (hx : Quiet x) : Quiet (transaction aWrite x) := by
  intro db htrans
  rw [transaction_of_iInTransaction htrans]
  exact hx db htrans

end

section

variable (rules : CharRules)

theorem quiet_folderExistsL (aFolder : Int) : Quiet (folderExistsL aFolder) :=
  quiet_transaction ((quiet_seekToUidL aFolder).bind fun _ =>
    .ite (quiet_getL.bind fun _ => .pure _) (.pure _))

theorem quiet_isUniqueNameL (aName : Text) (aFolder aAcceptUid : Int) :
    Quiet (isUniqueNameL rules aName aFolder aAcceptUid) :=
  (quiet_setFiltersL _).bind fun _ =>
    (quiet_whileNextL rules true (quiet_getL.bind fun _ => .pure _)).bind fun _ =>
      quiet_clearFilters.bind fun _ => .pure _

theorem quiet_collectPostfixesL (aPrefix : Text) (aAcceptUid : Int) (rounds : Nat) :
    ∀ postfixes, Quiet (collectPostfixesL rules aPrefix aAcceptUid rounds postfixes) := by
  induction rounds with
  | zero => exact fun _ => .throw _
  | succ rounds ih =>
      intro postfixes
      refine (quiet_nextL rules).bind fun found => .ite (quiet_getL.bind fun r => ?_) (.pure _)
      exact .ite (quiet_mayLeave.bind fun _ => ih _) (ih _)

theorem quiet_makeUniqueNameL (aName : Text) (aFolder aAcceptUid : Int) :
    Quiet (makeUniqueNameL rules aName aFolder aAcceptUid) :=
  (quiet_setFiltersL _).bind fun _ => quiet_beginningL.bind fun _ => quiet_get.bind fun _ =>
    (quiet_collectPostfixesL rules _ _ _ _).bind fun _ => quiet_clearFilters.bind fun _ =>
      quiet_mayLeave.bind fun _ => .pure _

theorem quiet_newNameL (aRenameType : RenameType) (aName : Text) (aFolder aAcceptUid : Int) :
    Quiet (newNameL rules aRenameType aName aFolder aAcceptUid) :=
  .ite (.pure _) ((quiet_isUniqueNameL rules _ _ _).bind fun _ =>
    .ite (.pure _) (.ite ((quiet_makeUniqueNameL rules _ _ _).bind fun _ => .pure _) (.throw _)))

theorem quiet_setNameL (aName : Text) (item : Item) : Quiet (setNameL rules aName item) :=
  quiet_mayLeave.bind fun _ => by
    cases setName rules aName with
    | none => exact .throw _
    | some name => exact .pure _

theorem quiet_renameL (newName : Option Text) (aItem : Item) :
    Quiet (renameL rules newName aItem) := by
  cases newName with
  | none => exact .pure _
  | some name => exact quiet_setNameL rules name aItem

theorem quiet_checkColumns (item : Item) : Quiet (checkColumns item) := quiet_leaveIf _ _

theorem quiet_readItemDataL (r : Row) : Quiet (readItemDataL rules r) :=
  (quiet_leaveIf _ _).bind fun _ => quiet_setNameL rules _ _

end

/-! ## Results of the calls -/

section

variable {db db' : Db}

theorem mayLeave_ok {a : Unit} (h : mayLeave db = .ok a db') :
    db'.table = db.table ∧ db'.filter = db.filter := by
  rw [mayLeave] at h
  split at h
  · cases h
    exact ⟨rfl, rfl⟩
  · cases h
  · cases h
    exact ⟨rfl, rfl⟩

theorem leaveIf_ok {c : Bool} {e : Leave} {a : Unit} (h : leaveIf c e db = .ok a db') :
    c = false ∧ db = db' := by
  rw [leaveIf] at h
  split at h
  · cases h
  · rename_i hc
    cases h
    exact ⟨Bool.eq_false_iff.mpr hc, rfl⟩

/-- A call behind one that may leave. -/
theorem of_mayLeave {α : Type} {x : Op α} {a : α}
    (h : (mayLeave >>= fun _ => x) db = .ok a db') :
    ∃ db₁, db₁.table = db.table ∧ db₁.filter = db.filter ∧ x db₁ = .ok a db' := by
  obtain ⟨_, db₁, hturn, hx⟩ := bind_eq_ok.mp h
  exact ⟨db₁, (mayLeave_ok hturn).1, (mayLeave_ok hturn).2, hx⟩

/-- What is behind a check runs only if the check does not leave. -/
theorem of_leaveIf {α : Type} {c : Bool} {e : Leave} {x : Op α} {a : α}
    (h : (leaveIf c e >>= fun _ => x) db = .ok a db') : c = false ∧ x db = .ok a db' := by
  obtain ⟨_, db₁, hleave, hx⟩ := bind_eq_ok.mp h
  obtain ⟨hc, rfl⟩ := leaveIf_ok hleave
  exact ⟨hc, hx⟩

/-- A quiet call and what is behind it. -/
theorem of_quiet {α β : Type} {x : Op α} {k : α → Op β} {b : β} (hx : Quiet x)
    (htrans : db.iInTransaction = true) (h : (x >>= k) db = .ok b db') :
    ∃ a db₁, x db = .ok a db₁ ∧ SameRows db db₁ ∧ db₁.iInTransaction = true ∧
      k a db₁ = .ok b db' := by
  obtain ⟨a, db₁, hrun, hk⟩ := bind_eq_ok.mp h
  have hsame := hx.of_ok htrans hrun
  exact ⟨a, db₁, hrun, hsame, hsame.iInTransaction.trans htrans, hk⟩

theorem beginningL_ok {a : Unit} (h : beginningL db = .ok a db') :
    db'.table = db.table.beginning ∧ db'.filter = db.filter := by
  obtain ⟨db₁, htable, hfilter, hset⟩ := of_mayLeave h
  cases hset
  rw [← htable]
  exact ⟨rfl, hfilter⟩

theorem nextL_ok {rules : CharRules} {found : Bool} (h : nextL rules db = .ok found db') :
    db'.table = db.table.next (db.passes rules) ∧ db'.filter = db.filter ∧
      found = db'.table.current.isSome := by
  obtain ⟨db₁, htable, hfilter, hset⟩ := of_mayLeave h
  have hpasses : db₁.passes rules = db.passes rules := by
    funext r
    rw [Db.passes, Db.passes, hfilter]
  cases hset
  rw [← htable, ← hpasses]
  exact ⟨rfl, hfilter, rfl⟩

theorem currentRow_ok {r : Row} (h : currentRow db = .ok r db') :
    db.table.current = some r ∧ db = db' := by
  obtain ⟨db₁, _, hget, hrest⟩ := bind_eq_ok.mp h
  cases hget
  cases hcurrent : db.table.current with
  | none =>
      rw [hcurrent] at hrest
      cases hrest
  | some r₁ =>
      rw [hcurrent] at hrest
      cases hrest
      exact ⟨rfl, rfl⟩

/-- What is behind a look at the columns of the current row. -/
theorem of_currentRow {α : Type} {k : Row → Op α} {a : α}
    (h : (currentRow >>= k) db = .ok a db') :
    ∃ r, db.table.current = some r ∧ k r db = .ok a db' := by
  obtain ⟨r, db₁, hrow, hk⟩ := bind_eq_ok.mp h
  obtain ⟨hcurrent, rfl⟩ := currentRow_ok hrow
  exact ⟨r, hcurrent, hk⟩

theorem of_bookmark {α : Type} {k : Nat → Op α} {a : α} (h : (bookmark >>= k) db = .ok a db') :
    ∃ r, db.table.current = some r ∧ k r.record db = .ok a db' := by
  obtain ⟨pos, db₁, hbookmark, hk⟩ := bind_eq_ok.mp h
  obtain ⟨r, hcurrent, hpos⟩ := of_currentRow hbookmark
  cases hpos
  exact ⟨r, hcurrent, hk⟩

theorem getL_ok {r : Row} (h : getL db = .ok r db') :
    db.table.current = some r ∧ db'.table = db.table ∧ db'.filter = db.filter := by
  obtain ⟨db₁, htable, hfilter, hrow⟩ := of_mayLeave h
  obtain ⟨hcurrent, rfl⟩ := currentRow_ok hrow
  rw [← htable]
  exact ⟨hcurrent, rfl, hfilter⟩

theorem seekToUidL_ok {aUid : Int} {found : Bool} (h : seekToUidL aUid db = .ok found db') :
    db'.table = db.table.seek (·.uid = aUid) ∧ db'.filter = db.filter ∧
      found = db'.table.current.isSome := by
  obtain ⟨db₁, htable, hfilter, hset⟩ := of_mayLeave h
  cases hset
  rw [← htable]
  exact ⟨rfl, hfilter, rfl⟩

/-- A row that is found is one with the uid. -/
theorem of_seekToUidL {aUid : Int} (h : seekToUidL aUid db = .ok true db') :
    ∃ r, db'.table.current = some r ∧ r ∈ db.table.rows ∧ r.uid = aUid := by
  obtain ⟨htable, -, hfound⟩ := seekToUidL_ok h
  obtain ⟨r, hr⟩ := Option.isSome_iff_exists.mp hfound.symm
  refine ⟨r, hr, ?_⟩
  rw [htable] at hr
  obtain ⟨hmem, huid⟩ := Table.current_seek hr
  exact ⟨hmem, of_decide_eq_true huid⟩

/-- If none is found, there is none. -/
theorem of_not_seekToUidL {aUid : Int} (h : seekToUidL aUid db = .ok false db') :
    ∀ r ∈ db.table.rows, r.uid ≠ aUid := by
  obtain ⟨htable, -, hfound⟩ := seekToUidL_ok h
  have hnone : db'.table.current = none := by
    cases hcurrent : db'.table.current with
    | none => rfl
    | some r =>
        rw [hcurrent] at hfound
        cases hfound
  rw [htable] at hnone
  intro r hmem
  exact of_decide_eq_false (Table.not_wanted_of_seek hnone r hmem)

theorem gotoToUidL_ok {aUid : Int} {a : Unit} (h : gotoToUidL aUid db = .ok a db') :
    ∃ r, db'.table.current = some r ∧ r ∈ db.table.rows ∧ r.uid = aUid := by
  obtain ⟨found, db₁, hseek, hleave⟩ := bind_eq_ok.mp h
  obtain ⟨hfound, rfl⟩ := leaveIf_ok hleave
  rw [Bool.not_eq_false'] at hfound
  subst hfound
  exact of_seekToUidL hseek

theorem gotoL_ok {aBookmark : Nat} {a : Unit} (h : gotoL aBookmark db = .ok a db') :
    db'.table = db.table.seek (·.record = aBookmark) ∧ db'.filter = db.filter := by
  obtain ⟨db₁, htable, hfilter, hset⟩ := of_mayLeave h
  cases hset
  rw [← htable]
  exact ⟨rfl, hfilter⟩

theorem clearFilters_ok {a : Unit} (h : clearFilters db = .ok a db') :
    db' = { db with filter := none } := by
  cases h
  rfl

/-- A filter without a condition lets every row pass. -/
theorem Filter.matchRow_of_isEmpty {f : Filter} (rules : CharRules) (h : f.isEmpty = true)
    (r : Row) : f.matchRow rules r = true := by
  simp only [isEmpty, Bool.and_eq_true, decide_eq_true_eq, Option.isNone_iff_eq_none] at h
  obtain ⟨⟨⟨hname, htype⟩, hparent⟩, hcontext⟩ := h
  simp [matchRow, hname, htype, hparent, hcontext]

theorem setFiltersL_ok {aFilter : Filter} {a : Unit} (h : setFiltersL aFilter db = .ok a db') :
    db'.table = db.table ∧ ∀ rules, db'.passes rules = aFilter.matchRow rules := by
  obtain ⟨db₁, htable, -, hrest⟩ := of_mayLeave h
  obtain ⟨_, db₂, hclear, hset⟩ := bind_eq_ok.mp hrest
  cases hclear
  split at hset
  · rename_i hempty
    cases hset
    refine ⟨htable, fun rules => funext fun r => ?_⟩
    rw [Filter.matchRow_of_isEmpty rules hempty]
    rfl
  · obtain ⟨db₃, htable₃, -, hset⟩ := of_mayLeave hset
    cases hset
    exact ⟨htable₃.trans htable, fun rules => rfl⟩

end

/-! ## Loops over the rows -/

/-- The rule of a loop over the rows that pass the filter. -/
theorem whileNextL_ok {β : Type} (rules : CharRules) {atEnd b : β} {body : Op (Option β)}
    {db db' : Db} {I : Db → Prop} {Q : β → Db → Prop}
    (hbegin : ∀ s, s.table = db.table.beginning → s.filter = db.filter → I s)
    (hround : ∀ s s' found, I s → nextL rules s = .ok found s' →
      (found = false → Q atEnd s') ∧
      (found = true → ∀ result s'', body s' = .ok result s'' →
        match result with
        | none => I s''
        | some b => Q b s''))
    (h : whileNextL rules atEnd body db = .ok b db') : Q b db' := by
  obtain ⟨_, db₁, hstart, hrest⟩ := bind_eq_ok.mp h
  obtain ⟨htable, hfilter⟩ := beginningL_ok hstart
  refine repeatUntil_ok (I := I) (Q := Q) ?_ ?_ _ (hbegin db₁ htable hfilter) hrest
  · intro s s'' hI hrun
    obtain ⟨found, s', hnext, hbody⟩ := bind_eq_ok.mp hrun
    cases found with
    | false => cases hbody
    | true => exact (hround s s' true hI hnext).2 rfl none s'' hbody
  · intro s b s'' hI hrun
    obtain ⟨found, s', hnext, hbody⟩ := bind_eq_ok.mp hrun
    cases found with
    | false =>
        cases hbody
        exact (hround s _ false hI hnext).1 rfl
    | true => exact (hround s s' true hI hnext).2 rfl (some b) s'' hbody

end SymbianWeb.Favourites.Store
