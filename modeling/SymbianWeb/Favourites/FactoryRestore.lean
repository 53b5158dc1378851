import SymbianWeb.Favourites.UniqueNames
import SymbianWeb.Library.RelatedLists

/-!
# The restore of the factory settings

The restore goes over the table in four passes. The first two change columns of rows or delete them
where they are (`whileNextL_filterMap`), the third changes or adds a folder for each reference
folder, and the fourth adds a row for each reference item. Behind them the table is made of the rows
that were kept, the new folders and the new items (`Restored`).
-/

set_option autoImplicit false

namespace SymbianWeb.Favourites.Store

open ErrorState RelatedLists

/-! ## Passes over the table -/

section

variable (rules : CharRules) {db db' : Db}

/-- A pass that changes or deletes each row that passes the filter. -/
theorem whileNextL_filterMap {body : Op (Option Unit)} (f : Row → Option Row)
    (hbody : ∀ s s' result r, s.table.current = some r → body s = .ok result s' →
      result = none ∧ s'.filter = s.filter ∧ s'.table = { s.table with current := f r })
    (h : whileNextL rules () body db = .ok () db') :
    db'.table.rows = db.table.rows.filterMap (fun r => if db.passes rules r then f r else some r) ∧
      db'.table.counter = db.table.counter ∧ db'.filter = db.filter := by
  let F : Row → Option Row := fun r => if db.passes rules r then f r else some r
  have hkept : ∀ {passed : List Row}, (∀ r ∈ passed, db.passes rules r = false) →
      passed.filterMap F = passed := by
    intro passed hnot
    rw [List.filterMap_congr (g := some), List.filterMap_some]
    intro r hmem
    simp [F, hnot r hmem]
  refine whileNextL_ok rules
    (I := fun s => s.filter = db.filter ∧ s.table.counter = db.table.counter ∧
      ∃ done, db.table.rows = done ++ s.table.ahead ∧
        s.table.done ++ s.table.current.toList = done.filterMap F)
    (Q := fun _ s => s.table.rows = db.table.rows.filterMap F ∧
      s.table.counter = db.table.counter ∧ s.filter = db.filter) ?_ ?_ h
  · intro s htable hfilter
    rw [htable]
    exact ⟨hfilter, rfl, [], rfl, rfl⟩
  · rintro s s' found ⟨hfilter, hcounter, done, hrows, hdone⟩ hnext
    obtain ⟨htable, hfilter', hfound⟩ := nextL_ok hnext
    obtain ⟨passed, hdone', hahead, hnot, hcurrent, hend⟩ := s.table.next_spec (s.passes rules)
    have hpasses : s.passes rules = db.passes rules := by
      funext r
      rw [Db.passes, Db.passes, hfilter]
    rw [← htable] at hdone' hahead hcurrent hend
    rw [hpasses] at hnot hcurrent
    have hcounter' : s'.table.counter = db.table.counter := by
      rw [htable, Table.counter_next, hcounter]
    rw [hdone] at hdone'
    constructor
    · -- the end of the table
      rintro rfl
      have hnone := Option.isNone_iff_eq_none.mp (Option.isSome_eq_false_iff.mp hfound.symm)
      rw [hend hnone, hnone, Option.toList_none, List.append_nil, List.append_nil] at hahead
      refine ⟨?_, hcounter', hfilter'.trans hfilter⟩
      rw [hrows, hahead, List.filterMap_append, hkept hnot, Table.rows, hend hnone, hnone, hdone',
        Option.toList_none, List.append_nil, List.append_nil]
    · rintro rfl result s'' hrun
      obtain ⟨r, hr⟩ := Option.isSome_iff_exists.mp hfound.symm
      obtain ⟨hresult, hfilter'', htable''⟩ := hbody s' s'' result r hr hrun
      subst hresult
      refine ⟨hfilter''.trans (hfilter'.trans hfilter), by rw [htable'', hcounter'],
        done ++ passed ++ [r], ?_, ?_⟩
      · rw [hrows, hahead, hr, htable'', Option.toList_some]
        simp
      · have hF : F r = f r := if_pos (hcurrent r hr)
        rw [List.filterMap_append, List.filterMap_append, hkept hnot, htable'', hdone']
        cases hfr : f r <;> simp [hF, hfr]

/-- Each row has one in its place. -/
theorem forall₂_filterMap_of {P : Row → Row → Prop} {f : Row → Option Row} {rows : List Row}
    (h : ∀ r ∈ rows, ∃ r', f r = some r' ∧ P r r') : List.Forall₂ P rows (rows.filterMap f) := by
  induction rows with
  | nil => exact .nil
  | cons r rows ih =>
      obtain ⟨r', hr', hP⟩ := h r List.mem_cons_self
      rw [List.filterMap_cons_some hr']
      exact .cons hP (ih fun x hmem => h x (List.mem_cons_of_mem r hmem))

/-- A change of columns but the uid, where the row is. -/
theorem updateRow_inPlace {edit : Row → Row} {a : Unit} {r : Row}
    (hcurrent : db.table.current = some r) (huid : (edit r).uid = r.uid)
    (h : updateRow false edit db = .ok a db') :
    db'.filter = db.filter ∧ db'.table = { db.table with current := some (edit r) } := by
  obtain ⟨_, time, -, hfilter, htable⟩ := updateRow_ok h
  refine ⟨hfilter, htable.trans ?_⟩
  rw [Table.update, hcurrent]
  exact if_pos huid

/-- The context id may have been cleared. -/
def ContextCleared (r r' : Row) : Prop := r' = { r with contextId := r'.contextId }

theorem clearContextIdsL_ok (reference : List Row) :
    ∀ {db db' : Db} {a : Unit}, db.filter = none →
      clearContextIdsL rules reference db = .ok a db' →
      List.Forall₂ ContextCleared db.table.rows db'.table.rows ∧
        db'.table.counter = db.table.counter ∧ db'.filter = none := by
  induction reference with
  | nil =>
      intro db db' a hfilter h
      cases h
      exact ⟨List.forall₂_same.mpr fun _ _ => rfl, rfl, hfilter⟩
  | cons ref reference ih =>
      intro db db' a hfilter h
      obtain ⟨_, db₁, hfirst, hrest⟩ := bind_eq_ok.mp h
      obtain ⟨db₂, htable₂, hfilter₂, hfirst⟩ := of_mayLeave hfirst
      have hstep : List.Forall₂ ContextCleared db.table.rows db₁.table.rows ∧
          db₁.table.counter = db.table.counter ∧ db₁.filter = none := by
        split at hfirst
        · obtain ⟨_, db₃, hset, hfirst⟩ := bind_eq_ok.mp hfirst
          obtain ⟨htable₃, -⟩ := setFiltersL_ok hset
          obtain ⟨_, db₄, hloop, hclear⟩ := bind_eq_ok.mp hfirst
          obtain ⟨hrows, hcounter, -⟩ := whileNextL_filterMap rules
            (fun r => some { r with contextId := kFavouritesNullContextId }) (by
              intro s s' result r hcurrent hrun
              obtain ⟨_, s₁, hupdate, hpure⟩ := bind_eq_ok.mp hrun
              cases hpure
              exact ⟨rfl, updateRow_inPlace hcurrent rfl hupdate⟩) hloop
          rw [htable₃, htable₂] at hrows hcounter
          rw [clearFilters_ok hclear]
          refine ⟨?_, hcounter, rfl⟩
          show List.Forall₂ ContextCleared db.table.rows db₄.table.rows
          rw [hrows]
          exact forall₂_filterMap_of fun r _ => by
            split
            · exact ⟨_, rfl, rfl⟩
            · exact ⟨_, rfl, rfl⟩
        · cases hfirst
          rw [htable₂]
          exact ⟨List.forall₂_same.mpr fun _ _ => rfl, rfl, hfilter₂.trans hfilter⟩
      obtain ⟨hrows, hcounter, hfilter'⟩ := ih hstep.2.2 hrest
      refine ⟨forall₂_trans ?_ hstep.1 hrows, hcounter.trans hstep.2.1, hfilter'⟩
      rintro x y z hxy hyz
      rw [ContextCleared] at *
      rw [hyz, hxy]

/-! ## Rows that are kept -/

/-- The columns of a row that a restore does not change. -/
structure SameEntry (r r' : Row) : Prop where
  uid : r'.uid = r.uid
  type : r'.type = r.type
  name : r'.name = r.name
  url : r'.url = r.url
  userName : r'.userName = r.userName
  password : r'.password = r.password
  parentFolder : r'.parentFolder = r.parentFolder

theorem SameEntry.refl (r : Row) : SameEntry r r := ⟨rfl, rfl, rfl, rfl, rfl, rfl, rfl⟩

theorem SameEntry.trans (r₁ r₂ r₃ : Row) (h : SameEntry r₁ r₂) (h' : SameEntry r₂ r₃) :
    SameEntry r₁ r₃ :=
  ⟨h'.uid.trans h.uid, h'.type.trans h.type, h'.name.trans h.name, h'.url.trans h.url,
    h'.userName.trans h.userName, h'.password.trans h.password,
    h'.parentFolder.trans h.parentFolder⟩

/-- An item that has not been modified since it was restored. -/
def isFactoryRow (r : Row) : Bool := r.factoryItem && r.type = .item

/-- What the second pass makes of a row. -/
def withoutFactory (r : Row) : Option Row :=
  if r.factoryItem then
    match r.type with
    | .item => none
    | .folder => some { r with factoryItem := false, readOnly := false }
  else some r

theorem withoutFactory_item {r : Row} (hfactory : r.factoryItem = true) (htype : r.type = .item) :
    withoutFactory r = none := by
  simp [withoutFactory, hfactory, htype]

theorem withoutFactory_folder {r : Row} (hfactory : r.factoryItem = true)
    (htype : r.type = .folder) :
    withoutFactory r = some { r with factoryItem := false, readOnly := false } := by
  rw [withoutFactory, if_pos hfactory]
  split
  · rename_i hitem
    rw [hitem] at htype
    cases htype
  · rfl

theorem withoutFactory_own {r : Row} (hfactory : r.factoryItem = false) :
    withoutFactory r = some r := by
  simp [withoutFactory, hfactory]

theorem clearFactoryItemsL_ok {a : Unit} (hfilter : db.filter = none)
    (h : clearFactoryItemsL rules db = .ok a db') :
    db'.table.rows = db.table.rows.filterMap withoutFactory ∧
      db'.table.counter = db.table.counter ∧ db'.filter = none := by
  obtain ⟨hrows, hcounter, hfilter'⟩ := whileNextL_filterMap rules withoutFactory (by
    intro s s' result r hcurrent hrun
    obtain ⟨r', s₁, hget, hrun⟩ := bind_eq_ok.mp hrun
    obtain ⟨hcurrent', htable, hfilter₁⟩ := getL_ok hget
    rw [hcurrent] at hcurrent'
    cases hcurrent'
    obtain ⟨_, s₂, hclear, hpure⟩ := bind_eq_ok.mp hrun
    cases hpure
    rw [clearFactoryRowL] at hclear
    rw [← hfilter₁, ← htable]
    split at hclear
    · rename_i hfactory
      obtain htype | htype : r.type = .item ∨ r.type = .folder := by
        cases r.type <;> simp
      · simp only [htype] at hclear
        rw [withoutFactory_item hfactory htype]
        obtain ⟨_, -, hfilter₂, htable₂⟩ := deleteRow_ok hclear
        exact ⟨rfl, hfilter₂, htable₂⟩
      · simp only [htype] at hclear
        rw [withoutFactory_folder hfactory htype]
        rw [← htable] at hcurrent
        exact ⟨rfl, updateRow_inPlace hcurrent rfl hclear⟩
    · rename_i hfactory
      cases hclear
      rw [withoutFactory_own (Bool.eq_false_iff.mpr hfactory)]
      refine ⟨rfl, rfl, ?_⟩
      rw [← hcurrent, htable]) h
  have hpasses : db.passes rules = fun _ => true := by
    funext r
    simp [Db.passes, hfilter]
  rw [hpasses] at hrows
  exact ⟨hrows, hcounter, hfilter'.trans hfilter⟩

/-- All rows but the unmodified factory items are there after the first two passes. -/
theorem kept_of_cleared {rows rows' : List Row} (h : List.Forall₂ ContextCleared rows rows') :
    List.Forall₂ SameEntry (rows.filter fun r => !isFactoryRow r)
      (rows'.filterMap withoutFactory) := by
  induction h with
  | nil => exact .nil
  | @cons r r' rows rows' hr _ ih =>
      rw [ContextCleared] at hr
      have hfactory : r'.factoryItem = r.factoryItem := by rw [hr]
      have htype : r'.type = r.type := by rw [hr]
      have hentry : SameEntry r r' := by
        rw [hr]
        exact ⟨rfl, rfl, rfl, rfl, rfl, rfl, rfl⟩
      cases hf : r.factoryItem with
      | false =>
          rw [List.filterMap_cons_some (withoutFactory_own (hfactory.trans hf)),
            List.filter_cons_of_pos (by simp [isFactoryRow, hf])]
          exact .cons hentry ih
      | true =>
          cases ht : r.type with
          | item =>
              rw [List.filterMap_cons_none (withoutFactory_item (hfactory.trans hf)
                (htype.trans ht)), List.filter_cons_of_neg (by simp [isFactoryRow, hf, ht])]
              exact ih
          | folder =>
              rw [List.filterMap_cons_some (withoutFactory_folder (hfactory.trans hf)
                (htype.trans ht)), List.filter_cons_of_pos (by simp [isFactoryRow, ht])]
              exact .cons (hentry.trans _ _ _ ⟨rfl, rfl, rfl, rfl, rfl, rfl, rfl⟩) ih

theorem SameEntry.isRootFolder {r r' : Row} (h : SameEntry r r') :
    isRootFolder r' = isRootFolder r := by
  rw [Store.isRootFolder, Store.isRootFolder, h.type, h.parentFolder]

theorem uids_of_sameEntry {rows rows' : List Row} (h : List.Forall₂ SameEntry rows rows') :
    rows'.map (·.uid) = rows.map (·.uid) := by
  induction h with
  | nil => rfl
  | cons hr _ ih => rw [List.map_cons, List.map_cons, hr.uid, ih]

/-- The folders of the root keep their names. -/
theorem rootNames_of_kept {rows rows' : List Row}
    (h : List.Forall₂ SameEntry (rows.filter fun r => !isFactoryRow r) rows') :
    rootNames rows' = rootNames rows := by
  have hsame : ∀ {xs ys : List Row}, List.Forall₂ SameEntry xs ys → rootNames ys = rootNames xs := by
    intro xs ys hxs
    induction hxs with
    | nil => rfl
    | @cons r r' xs ys hr _ ih =>
        rw [rootNames, rootNames] at ih
        rw [rootNames, rootNames, List.filter_cons, List.filter_cons, hr.isRootFolder]
        split
        · rw [List.map_cons, List.map_cons, ih, hr.name]
        · exact ih
  rw [hsame h, rootNames, rootNames, List.filter_filter]
  congr 1
  apply List.filter_congr
  intro r _
  cases htype : r.type with
  | item => simp [Store.isRootFolder, htype]
  | folder => simp [isFactoryRow, htype]

/-! ## Queries without wildcards -/

/-- A name without wildcards. -/
def Plain (name : Text) : Prop := star ∉ name ∧ question ∉ name

theorem matchPattern_plain {pattern : Text} (h : Plain pattern) :
    ∀ t, matchPattern pattern t = true ↔ pattern = t := by
  induction pattern with
  | nil =>
      intro t
      show t.isEmpty = true ↔ _
      rw [List.isEmpty_iff]
      exact eq_comm
  | cons c pattern ih =>
      intro t
      obtain ⟨hstar, hquestion⟩ := h
      rw [List.mem_cons, not_or] at hstar hquestion
      have hc : c ≠ star := Ne.symm hstar.1
      have hc' : c ≠ question := Ne.symm hquestion.1
      rw [matchPattern.eq_def]
      simp only [if_neg hc]
      cases t with
      | nil => simp
      | cons d t => simp [hc', ih ⟨hstar.2, hquestion.2⟩]

/-- Without wildcards, a query compares up to case. -/
theorem like_plain {pattern : Text} (h : Plain pattern) (t : Text) :
    like rules pattern t = true ↔ rules.foldText pattern = rules.foldText t := by
  have hlow : ∀ {c : UInt16}, c.toNat < 65 → c ∉ pattern → c ∉ rules.foldText pattern := by
    intro c hc hnot hmem
    obtain ⟨d, hd, rfl⟩ := List.mem_map.mp hmem
    rw [rules.eq_of_fold d hc] at hnot
    exact hnot hd
  rw [like]
  exact matchPattern_plain ⟨hlow (by decide) h.1, hlow (by decide) h.2⟩ _

/-! ## Folders -/

/-- A folder that has what the restore gives the folder for a reference folder. -/
structure SameFolder (ref f : Row) : Prop where
  root : isRootFolder f = true
  name : rules.foldText f.name = rules.foldText ref.name
  readOnly : f.readOnly = ref.readOnly
  factoryItem : f.factoryItem = ref.factoryItem
  contextId : f.contextId = ref.contextId

/-- The folder that a reference folder is mapped to. -/
def FolderFor (rows : List Row) (ref : Row) (pair : UidPair) : Prop :=
  pair.uid1 = ref.uid ∧ ∃ f ∈ rows, f.uid = pair.uid2 ∧ SameFolder rules ref f

/-- A folder under a uid from the counter. -/
def NewFolder (lo hi : Int) (r : Row) : Prop := r.type = .folder ∧ lo ≤ r.uid ∧ r.uid < hi

/-- What the third pass has done to the table. -/
structure FoldersRestored (reference : List Row) (names : List Text) (db db' : Db)
    (parentMap parentMap' : List UidPair) : Prop where
  iInTransaction : db'.iInTransaction = true
  counter : db'.table.counter = db.table.counter + foldersToAdd rules names reference
  uids : ∀ u, (∃ r ∈ db'.table.rows, r.uid = u) ↔ (∃ r ∈ db.table.rows, r.uid = u) ∨
    db.table.counter ≤ u ∧ u < db'.table.counter
  grown : Grown SameEntry (NewFolder db.table.counter db'.table.counter) db.table.rows
    db'.table.rows
  others : ∀ f ∈ db.table.rows, (∀ ref ∈ reference, rules.foldText ref.name ≠ rules.foldText f.name) →
    f ∈ db'.table.rows
  pairs : ∃ pairs, parentMap' = parentMap ++ pairs ∧
    List.Forall₂ (FolderFor rules db'.table.rows) reference pairs

/-- The uids of a table do not depend on the order of its rows. -/
theorem exists_uid_perm {rows rows' : List Row} (h : rows.Perm rows') {u : Int} :
    (∃ r ∈ rows, r.uid = u) ↔ u ∈ rows'.map (·.uid) := by
  rw [List.mem_map]
  simp only [h.mem_iff]

theorem grown_trans {lo mid hi : Int} {xs ys zs : List Row} (hlo : lo ≤ mid) (hhi : mid ≤ hi)
    (h : Grown SameEntry (NewFolder lo mid) xs ys) (h' : Grown SameEntry (NewFolder mid hi) ys zs) :
    Grown SameEntry (NewFolder lo hi) xs zs := by
  refine Grown.trans SameEntry.trans ?_ (h.mono ?_) (h'.mono ?_)
  · rintro x y ⟨htype, hge, hlt⟩ hxy
    rw [NewFolder, hxy.type, hxy.uid]
    exact ⟨htype, hge, hlt⟩
  · exact fun x hx => ⟨hx.1, hx.2.1, hx.2.2.trans_le hhi⟩
  · exact fun x hx => ⟨hx.1, hlo.trans hx.2.1, hx.2.2⟩

theorem restoreFoldersL_ok (reference : List Row)
    (hroot : ∀ ref ∈ reference, isRootFolder ref = true)
    (hplain : ∀ ref ∈ reference, Plain ref.name)
    (hset : ∀ ref ∈ reference, ∀ name, setName rules ref.name = some name → name = ref.name)
    (hdistinct : reference.Pairwise fun ref ref' =>
      rules.foldText ref.name ≠ rules.foldText ref'.name) :
    ∀ {db db' : Db} {parentMap parentMap' : List UidPair} {names : List Text},
      db.iInTransaction = true → (∀ name, name ∈ rootNames db.table.rows ↔ name ∈ names) →
      restoreFoldersL rules reference parentMap db = .ok parentMap' db' →
      FoldersRestored rules reference names db db' parentMap parentMap' := by
  induction reference with
  | nil =>
      intro db db' parentMap parentMap' names htrans hnames hrun
      cases hrun
      refine ⟨htrans, by simp [foldersToAdd], fun u => ?_, .of_perm SameEntry.refl (.refl _),
        fun f hf _ => hf, [], (List.append_nil _).symm, .nil⟩
      exact (or_iff_left (by omega)).symm
  | cons ref reference ih =>
      intro db db' parentMap parentMap' names htrans hnames hrun
      obtain ⟨hfirst, hdistinct⟩ := List.pairwise_cons.mp hdistinct
      have hrest : ∀ {Q : Row → Prop}, (∀ x ∈ ref :: reference, Q x) → ∀ x ∈ reference, Q x :=
        fun h x hmem => h x (List.mem_cons_of_mem ref hmem)
      obtain ⟨_, db₁, -, hsame₁, htrans₁, hrun⟩ := of_quiet quiet_mayLeave htrans hrun
      obtain ⟨_, db₂, hfolder, hrun⟩ := bind_eq_ok.mp hrun
      have htrans₂ := ((inFile_restoreFolderL rules ref).of_ok htrans₁ hfolder).iInTransaction.trans
        htrans₁
      obtain ⟨r, hcurrent, hrun⟩ := of_currentRow hrun
      obtain ⟨_, db₃, -, hsame₃, htrans₃, hrun⟩ := of_quiet quiet_mayLeave htrans₂ hrun
      obtain ⟨_, db₄, -, hsame₄, htrans₄, hrun⟩ := of_quiet quiet_clearFilters htrans₃ hrun
      have hsame := hsame₃.trans hsame₄
      have hroot' := hroot ref List.mem_cons_self
      rw [isRootFolder, Bool.and_eq_true, decide_eq_true_eq, decide_eq_true_eq] at hroot'
      -- what the step has done: the folder, the names, and the other rows
      obtain ⟨names', ⟨hmem, hfolder⟩, huids, hnames', hcounter, hgrown, hothers⟩ : ∃ names',
          (r ∈ db₂.table.rows ∧ SameFolder rules ref r) ∧
          (∀ u, (∃ r ∈ db₂.table.rows, r.uid = u) ↔ (∃ r ∈ db.table.rows, r.uid = u) ∨
            db.table.counter ≤ u ∧ u < db₂.table.counter) ∧
          (∀ name, name ∈ rootNames db₂.table.rows ↔ name ∈ names') ∧
          (db₂.table.counter : Int) + foldersToAdd rules names' reference =
            db.table.counter + foldersToAdd rules names (ref :: reference) ∧
          (db.table.counter ≤ db₂.table.counter ∧
            Grown SameEntry (NewFolder db.table.counter db₂.table.counter) db.table.rows
              db₂.table.rows) ∧
          (∀ f ∈ db.table.rows, rules.foldText ref.name ≠ rules.foldText f.name →
            f ∈ db₂.table.rows) := by
        cases restoreFolderL_ok rules htrans₁ hfolder with
        | found x others hrootx hlike hrows hrows' hcurrent' hcounter hnext =>
            rw [hcurrent'] at hcurrent
            cases hcurrent
            rw [hsame₁.rows] at hrows
            rw [hsame₁.counter] at hcounter
            have hfold := (like_plain rules (hplain ref List.mem_cons_self) x.name).mp hlike
            have hany : names.any (like rules ref.name) = true := by
              refine List.any_eq_true.mpr ⟨x.name, ?_, hlike⟩
              rw [← hnames, mem_rootNames_perm hrows, rootNames, List.filter_cons_of_pos hrootx]
              exact List.mem_cons_self
            refine ⟨names,
              ⟨hrows'.mem_iff.mpr List.mem_cons_self, hrootx, hfold.symm, rfl, rfl, rfl⟩,
              fun u => ?_, fun name => ?_, ?_, ⟨hcounter.ge, ?_⟩, ?_⟩
            · rw [hcounter, exists_uid_perm hrows', exists_uid_perm hrows, List.map_cons,
                List.map_cons]
              exact (or_iff_left (by omega)).symm
            · rw [← hnames, mem_rootNames_perm hrows', mem_rootNames_perm hrows,
                rootNames_cons_of_eq]
              · rfl
              · rfl
              · rfl
            · rw [foldersToAdd, if_pos hany, hcounter]
            · have hentry : SameEntry x (asReference ref x) := ⟨rfl, rfl, rfl, rfl, rfl, rfl, rfl⟩
              exact .replace SameEntry.refl hentry hrows hrows'
            · intro f hf hne
              rcases List.mem_cons.mp (hrows.mem_iff.mp hf) with rfl | hf
              · exact (hne hfold).elim
              · exact hrows'.mem_iff.mpr (List.mem_cons_of_mem _ hf)
        | added name hnone hname hparent hfree hrows' hcurrent' hcounter hnext =>
            rw [hcurrent'] at hcurrent
            cases hcurrent
            have hsetname := hset ref List.mem_cons_self name hname
            subst hsetname
            rw [hsame₁.rows] at hnone hrows'
            rw [hsame₁.counter] at hcounter hrows'
            have hany : names.any (like rules ref.name) = false := by
              rw [List.any_eq_false]
              intro name hmem
              rw [← hnames, rootNames, List.mem_map] at hmem
              obtain ⟨x, hmem, rfl⟩ := hmem
              obtain ⟨hmem, hrootx⟩ := List.mem_filter.mp hmem
              rw [hnone x hmem hrootx]
              exact Bool.false_ne_true
            refine ⟨ref.name :: names, ⟨?_, ?_, rfl, rfl, rfl, rfl⟩, fun u => ?_, fun made => ?_, ?_,
              ⟨?_, ?_⟩, ?_⟩
            · rw [hsame₁.counter]
              exact hrows'.mem_iff.mpr List.mem_cons_self
            · simp [isRootFolder, addedRow, hroot']
            · rw [hcounter, exists_uid_perm hrows', exists_uid_perm (List.Perm.refl db.table.rows),
                List.map_cons, List.mem_cons]
              have huid : (addedRow db₁.table.nextRecord db.table.counter ref.parentFolder ref.name
                ref).uid = db.table.counter := rfl
              rw [huid, or_comm]
              refine or_congr_right ?_
              omega
            · rw [mem_rootNames_perm hrows', List.mem_cons, ← hnames, rootNames,
                List.filter_cons_of_pos]
              · rw [List.map_cons, List.mem_cons]
                rfl
              · simp [isRootFolder, addedRow, hroot']
            · rw [foldersToAdd, if_neg (by rw [hany]; exact Bool.false_ne_true), hname,
                Option.getD_some, hcounter]
              push_cast
              omega
            · omega
            · refine .add SameEntry.refl ⟨?_, ?_, ?_⟩ hrows'
              · exact hroot'.1
              · exact le_refl db.table.counter
              · rw [hcounter]
                exact Int.lt_add_one_of_le le_rfl
            · exact fun f hf _ => hrows'.mem_iff.mpr (List.mem_cons_of_mem _ hf)
      have hlater := ih (hrest hroot) (hrest hplain) (hrest hset) hdistinct htrans₄
        (by rw [hsame.rows]; exact hnames') hrun
      obtain ⟨pairs, hpairs, hfor⟩ := hlater.pairs
      have hcounter₄ := hsame.counter
      have hle : db₂.table.counter ≤ db'.table.counter := by
        rw [hlater.counter, hcounter₄]
        omega
      refine ⟨hlater.iInTransaction, ?_, fun u => ?_, ?_, ?_, ⟨ref.uid, r.uid⟩ :: pairs, ?_,
        .cons ?_ hfor⟩
      · rw [hlater.counter, hcounter₄, hcounter]
      · rw [hlater.uids, hsame.rows, huids, hcounter₄, or_assoc]
        refine or_congr_right ?_
        omega
      · have hlast := hlater.grown
        rw [hsame.rows, hcounter₄] at hlast
        exact grown_trans hgrown.1 hle hgrown.2 hlast
      · intro f hf hne
        apply hlater.others f
        · rw [hsame.rows]
          exact hothers f hf (hne ref List.mem_cons_self)
        · exact hrest hne
      · rw [hpairs, List.append_assoc, List.singleton_append]
      · refine ⟨rfl, r, ?_, rfl, hfolder⟩
        apply hlater.others r
        · rw [hsame.rows]
          exact hmem
        · intro ref' hmem' heq
          exact hfirst ref' hmem' (heq.trans hfolder.name).symm

/-! ## Items -/

/-- The name of a reference item, or one that has been made in place of it. -/
def AutoRenamed (aName name : Text) : Prop :=
  name = aName ∨
    ∃ number : Int, setName rules (formatName (renamePrefix aName).1 number) = some name

/-- The row that has been added for a reference item. -/
structure ItemFor (parentMap : List UidPair) (ref r : Row) : Prop where
  row : r = { addedRow r.record r.uid (mapParent parentMap ref.parentFolder) r.name ref with
    factoryItem := true }
  name : AutoRenamed rules ref.name r.name

/-- The access points of the rows that have one of their own. -/
def accessPoints (items : List Row) : List UidPair :=
  items.filterMap fun r => if r.wapAp.kind = .normal then some ⟨r.uid, r.wapAp.apId⟩ else none

theorem accessPoints_cons_of_normal {r : Row} {items : List Row} (h : r.wapAp.kind = .normal) :
    accessPoints (r :: items) = ⟨r.uid, r.wapAp.apId⟩ :: accessPoints items := by
  rw [accessPoints, List.filterMap_cons, if_pos h]
  rfl

theorem accessPoints_cons_of_not_normal {r : Row} {items : List Row}
    (h : r.wapAp.kind ≠ .normal) : accessPoints (r :: items) = accessPoints items := by
  rw [accessPoints, List.filterMap_cons, if_neg h]
  rfl

/-- When an item is added, either its own uid is another row's, or no other row has the number
that the item is given first. -/
def NumbersFree : List Int → Int → List Row → Prop
  | _, _, [] => True
  | taken, counter, ref :: reference =>
      (ref.uid ∈ taken ∨ ref.uid = counter ∨ counter ∉ taken) ∧
        NumbersFree ((if ref.uid ∈ taken then counter else ref.uid) :: taken) (counter + 1) reference

theorem ItemRestored.itemFor {parentMap : List UidPair} {ref r : Row} {rows : List Row}
    {counter : Int} (hset : ∀ name, setName rules ref.name = some name → name = ref.name)
    (h : ItemRestored rules parentMap ref rows counter r) : ItemFor rules parentMap ref r := by
  refine ⟨h.row, ?_⟩
  obtain ⟨refName, hrefName, newName, hchecked, hstored⟩ := h.named
  rw [hset refName hrefName] at hchecked hstored
  cases hchecked with
  | suppressed hsuppress => cases hsuppress
  | free hfree => exact .inl hstored
  | renamed hauto htaken hgenerates =>
      obtain ⟨postfixes, -, rfl, -⟩ := hgenerates
      exact .inr ⟨_, hstored⟩

theorem restoreItemsL_ok (parentMap : List UidPair) (reference : List Row)
    (hset : ∀ ref ∈ reference, ∀ name, setName rules ref.name = some name → name = ref.name) :
    ∀ {db db' : Db} {aApMap aApMap' : List UidPair} {taken : List Int},
      db.iInTransaction = true → (∀ u, u ∈ taken ↔ ∃ r ∈ db.table.rows, r.uid = u) →
      NumbersFree taken db.table.counter reference →
      restoreItemsL rules parentMap reference aApMap db = .ok aApMap' db' →
      ∃ items, List.Forall₂ (ItemFor rules parentMap) reference items ∧
        db'.table.rows.Perm (items ++ db.table.rows) ∧ aApMap' = aApMap ++ accessPoints items := by
  induction reference with
  | nil =>
      intro db db' aApMap aApMap' taken _ _ _ hrun
      cases hrun
      exact ⟨[], .nil, .refl _, (List.append_nil _).symm⟩
  | cons ref reference ih =>
      intro db db' aApMap aApMap' taken htrans htaken hnumbers hrun
      obtain ⟨hfirst, hnumbers⟩ := hnumbers
      obtain ⟨_, db₁, -, hsame₁, htrans₁, hrun⟩ := of_quiet quiet_mayLeave htrans hrun
      obtain ⟨item, db₂, hitem, hrun⟩ := bind_eq_ok.mp hrun
      have htrans₂ := ((inFile_restoreItemL rules parentMap ref).of_ok htrans₁
        hitem).iInTransaction.trans htrans₁
      rw [← hsame₁.rows] at htaken
      rw [← hsame₁.counter] at hfirst hnumbers
      have hfresh : (∃ x ∈ db₁.table.rows, x.uid = ref.uid) ∨ ref.uid = db₁.table.counter ∨
          ∀ x ∈ db₁.table.rows, x.uid ≠ db₁.table.counter := by
        rw [htaken, htaken] at hfirst
        push Not at hfirst
        exact hfirst
      obtain ⟨r, hrestored, -, hrows, hcounter, -, huid, hwapAp⟩ :=
        restoreItemL_ok rules htrans₁ hfresh hitem
      have hfor := hrestored.itemFor rules (hset ref List.mem_cons_self)
      have hset' := fun x hmem => hset x (List.mem_cons_of_mem ref hmem)
      have hruid : r.uid = if ref.uid ∈ taken then db₁.table.counter else ref.uid := by
        simp only [htaken]
        exact hrestored.uid
      rw [← hruid, ← hcounter] at hnumbers
      have htaken' : ∀ u, u ∈ r.uid :: taken ↔ ∃ x ∈ db₂.table.rows, x.uid = u := by
        intro u
        rw [exists_uid_perm hrows, List.map_cons, List.mem_cons, List.mem_cons, htaken,
          exists_uid_perm (.refl _)]
      have hpoint : r.wapAp = ref.wapAp := by
        rw [hfor.row]
        rfl
      have hperm : ∀ {items rows : List Row}, rows.Perm (items ++ db₂.table.rows) →
          rows.Perm (r :: items ++ db.table.rows) := by
        intro items rows h
        rw [hsame₁.rows] at hrows
        exact (h.trans (hrows.append_left items)).trans List.perm_middle
      split at hrun
      · rename_i hnormal
        obtain ⟨_, db₃, -, hsame₃, htrans₃, hrun⟩ := of_quiet quiet_mayLeave htrans₂ hrun
        rw [← hsame₃.rows] at htaken' hperm
        rw [← hsame₃.counter] at hnumbers
        obtain ⟨items, hitems, hrows', rfl⟩ := ih hset' htrans₃ htaken' hnumbers hrun
        refine ⟨r :: items, .cons hfor hitems, hperm hrows', ?_⟩
        rw [hwapAp, ← hpoint] at hnormal
        rw [accessPoints_cons_of_normal hnormal, List.append_assoc, List.singleton_append, huid,
          hwapAp, ← hpoint]
      · rename_i hnormal
        obtain ⟨items, hitems, hrows', rfl⟩ := ih hset' htrans₂ htaken' hnumbers hrun
        refine ⟨r :: items, .cons hfor hitems, hperm hrows', ?_⟩
        rw [hwapAp, ← hpoint] at hnormal
        rw [accessPoints_cons_of_not_normal hnormal]

/-! ## The restore -/

/-- The uids that rows have when the items are added: those of the rows that are kept, and the
numbers of the new folders. -/
def takenUids (reference rows : List Row) (counter : Int) : List Int :=
  (rows.filter fun r => !isFactoryRow r).map (·.uid) ++
    (List.range (foldersToAdd rules (rootNames rows) (referenceFolders reference))).map
      fun (i : Nat) => counter + i

/-- What a restore needs to restore all that is in the reference table: names that are set
unchanged, different names of the folders, and numbers that are free. -/
structure Restorable (reference rows : List Row) (counter : Int) : Prop where
  names : ∀ ref ∈ reference, ref.uid ≠ kFavouritesRootUid →
    ∀ name, setName rules ref.name = some name → name = ref.name
  folders : (referenceFolders reference).Pairwise fun ref ref' =>
    rules.foldText ref.name ≠ rules.foldText ref'.name
  numbers : NumbersFree (takenUids rules reference rows counter)
    (counter + foldersToAdd rules (rootNames rows) (referenceFolders reference))
    (referenceItems reference)

/-- The row that is there for a reference item after a restore. -/
structure NewItem (reference rows' : List Row) (ref r : Row) : Prop where
  type : r.type = .item
  url : r.url = ref.url
  userName : r.userName = ref.userName
  password : r.password = ref.password
  wapAp : r.wapAp = ref.wapAp
  modified : r.modified = ref.modified
  factoryItem : r.factoryItem = true
  name : AutoRenamed rules ref.name r.name
  parent : (ref.parentFolder = kFavouritesRootUid ∧ r.parentFolder = kFavouritesRootUid) ∨
    ∃ folder ∈ referenceFolders reference, folder.uid = ref.parentFolder ∧
      ∃ f ∈ rows', SameFolder rules folder f ∧ f.uid = r.parentFolder

/-- The table after a restore: the rows that were kept, the new folders and one new item for each
reference item; and the access points are those of the new items. -/
structure Restored (reference rows rows' : List Row) (aApMap : List UidPair) : Prop where
  rows : ∃ kept folders items,
    List.Forall₂ SameEntry (rows.filter fun r => !isFactoryRow r) kept ∧
      (∀ f ∈ folders, f.type = .folder) ∧
      List.Forall₂ (NewItem rules reference rows') (referenceItems reference) items ∧
      rows'.Perm (kept ++ folders ++ items) ∧ aApMap = accessPoints items
  folders : ∀ ref ∈ referenceFolders reference, ∃ f ∈ rows', SameFolder rules ref f

theorem mem_takenUids {reference rows : List Row} {counter u : Int} :
    u ∈ takenUids rules reference rows counter ↔
      u ∈ (rows.filter fun r => !isFactoryRow r).map (·.uid) ∨ counter ≤ u ∧
        u < counter + foldersToAdd rules (rootNames rows) (referenceFolders reference) := by
  rw [takenUids, List.mem_append]
  refine or_congr_right ?_
  rw [List.mem_map]
  constructor
  · rintro ⟨i, hmem, rfl⟩
    rw [List.mem_range] at hmem
    omega
  · rintro ⟨hle, hlt⟩
    refine ⟨(u - counter).toNat, List.mem_range.mpr ?_, ?_⟩ <;> omega

/-- A folder of the reference table is mapped to the folder for it. -/
theorem mapParent_of_pairs {rows reference : List Row} {pairs : List UidPair} {folder : Row}
    (h : List.Forall₂ (FolderFor rules rows) reference pairs)
    (hnodup : (reference.map (·.uid)).Nodup) (hmem : folder ∈ reference) :
    ∃ f ∈ rows, SameFolder rules folder f ∧ f.uid = mapParent pairs folder.uid := by
  induction h with
  | nil => cases hmem
  | @cons ref pair reference pairs hfor _ ih =>
      obtain ⟨huid, f, hf, hfuid, hsame⟩ := hfor
      rw [List.map_cons, List.nodup_cons] at hnodup
      rw [mapParent, List.find?_cons]
      rcases List.mem_cons.mp hmem with rfl | hmem
      · rw [huid, decide_eq_true rfl]
        exact ⟨f, hf, hsame, hfuid⟩
      · have hne : pair.uid1 ≠ folder.uid := by
          rw [huid]
          intro heq
          rw [heq] at hnodup
          exact hnodup.1 (List.mem_map_of_mem hmem)
        rw [decide_eq_false hne]
        exact ih hnodup.2 hmem

/-- The root is a folder. -/
theorem ne_root_of_item {reference : List Row} (htree : FolderTree reference) {ref : Row}
    (hmem : ref ∈ reference) (hitem : ref.type = .item) : ref.uid ≠ kFavouritesRootUid := by
  intro heq
  obtain ⟨f, hf, hfuid, hfolder⟩ := htree.root
  have hsame := List.inj_on_of_nodup_map htree.nodup hmem hf (heq.trans hfuid.symm)
  rw [← hsame, hitem] at hfolder
  cases hfolder

/-- The folder of a reference item is the root or a reference folder. -/
theorem folder_of_reference {reference : List Row} (htree : FolderTree reference) {ref : Row}
    (hmem : ref ∈ reference) (hne : ref.uid ≠ kFavouritesRootUid) :
    ref.parentFolder = kFavouritesRootUid ∨
      ∃ folder ∈ referenceFolders reference, folder.uid = ref.parentFolder := by
  obtain ⟨f, hf, huid, hfolder⟩ := htree.parents ref hmem hne
  by_cases hroot : f.uid = kFavouritesRootUid
  · exact .inl (huid.symm.trans hroot)
  · refine .inr ⟨f, List.mem_filter.mpr ⟨hf, ?_⟩, huid⟩
    simp [hfolder, htree.folders f hf hfolder hroot]

theorem ItemFor.newItem {reference rows rows' : List Row} {pairs : List UidPair} {ref r : Row}
    (htree : FolderTree reference)
    (hroot : ∀ x ∈ reference, x.uid = kFavouritesRootUid → x.parentFolder = kFavouritesNullUid)
    (hpairs : List.Forall₂ (FolderFor rules rows) (referenceFolders reference) pairs)
    (hsubset : ∀ f ∈ rows, f ∈ rows') (hmem : ref ∈ referenceItems reference)
    (h : ItemFor rules (⟨kFavouritesRootUid, kFavouritesRootUid⟩ :: pairs) ref r) :
    NewItem rules reference rows' ref r := by
  obtain ⟨hmem, hitem⟩ := List.mem_filter.mp hmem
  have hitem : ref.type = .item := of_decide_eq_true hitem
  have hrow := h.row
  have hcopied : r.type = ref.type ∧ r.url = ref.url ∧ r.userName = ref.userName ∧
      r.password = ref.password ∧ r.wapAp = ref.wapAp ∧ r.modified = ref.modified ∧
      r.factoryItem = true ∧ r.parentFolder =
        mapParent (⟨kFavouritesRootUid, kFavouritesRootUid⟩ :: pairs) ref.parentFolder := by
    rw [hrow]
    exact ⟨rfl, rfl, rfl, rfl, rfl, rfl, rfl, rfl⟩
  obtain ⟨htype, hurl, huserName, hpassword, hwapAp, hmodified, hfactory, hparent⟩ := hcopied
  refine ⟨htype.trans hitem, hurl, huserName, hpassword, hwapAp, hmodified, hfactory, h.name, ?_⟩
  have hne := ne_root_of_item htree hmem hitem
  rw [mapParent, List.find?_cons] at hparent
  rcases folder_of_reference htree hmem hne with hfolder | ⟨folder, hfolder, hfuid⟩
  · rw [hfolder] at hparent
    exact .inl ⟨hfolder, hparent⟩
  · have hfne : kFavouritesRootUid ≠ ref.parentFolder := by
      intro heq
      obtain ⟨hmem', hfolder'⟩ := List.mem_filter.mp hfolder
      rw [Bool.and_eq_true, decide_eq_true_eq, decide_eq_true_eq,
        hroot folder hmem' (hfuid.trans heq.symm)] at hfolder'
      exact absurd hfolder'.2 (by decide)
    rw [decide_eq_false hfne] at hparent
    have hnodup : ((referenceFolders reference).map (·.uid)).Nodup :=
      htree.nodup.sublist (List.filter_sublist.map _)
    obtain ⟨f, hf, hsame, huid⟩ := mapParent_of_pairs rules hpairs hnodup hfolder
    refine .inr ⟨folder, hfolder, hfuid, f, hsubset f hf, hsame, ?_⟩
    rw [huid, hfuid, mapParent]
    exact hparent.symm

theorem restoreFactorySettingsL_restored {reference : List Row} {aApMap : List UidPair}
    (htrans : db.iInTransaction = true) (hfilter : db.filter = none)
    (htree : FolderTree reference)
    (hroot : ∀ x ∈ reference, x.uid = kFavouritesRootUid → x.parentFolder = kFavouritesNullUid)
    (hplain : ∀ ref ∈ reference, Plain ref.name)
    (hrestorable : Restorable rules reference db.table.rows db.table.counter)
    (h : restoreFactorySettingsL rules reference db = .ok aApMap db') :
    Restored rules reference db.table.rows db'.table.rows aApMap := by
  obtain ⟨parentMap, db₄, hfolders, h⟩ := bind_eq_ok.mp h
  obtain ⟨_, db₁, hcontext, hfolders⟩ := bind_eq_ok.mp hfolders
  have htrans₁ := ((inFile_clearContextIdsL rules reference).of_ok htrans
    hcontext).iInTransaction.trans htrans
  obtain ⟨_, db₂, hfactory, hfolders⟩ := bind_eq_ok.mp hfolders
  have htrans₂ := ((inFile_clearFactoryItemsL rules).of_ok htrans₁ hfactory).iInTransaction.trans
    htrans₁
  obtain ⟨_, db₃, -, hsame₃, htrans₃, hfolders⟩ := of_quiet quiet_mayLeave htrans₂ hfolders
  obtain ⟨_, db₅, -, hsame₅, htrans₅, h⟩ := of_quiet quiet_mayLeave
    (((inFile_restoreFoldersL rules _ _).of_ok htrans₃ hfolders).iInTransaction.trans htrans₃) h
  -- the first two passes
  obtain ⟨hcleared, hcounter₁, hfilter₁⟩ := clearContextIdsL_ok rules reference hfilter hcontext
  obtain ⟨hrows₂, hcounter₂, -⟩ := clearFactoryItemsL_ok rules hfilter₁ hfactory
  have hkept := kept_of_cleared hcleared
  rw [← hrows₂, ← hsame₃.rows] at hkept
  have hcounter₃ : db₃.table.counter = db.table.counter := by
    rw [hsame₃.counter, hcounter₂, hcounter₁]
  -- the folders
  have hfolder : ∀ ref ∈ referenceFolders reference, ref ∈ reference ∧ isRootFolder ref = true :=
    fun ref hmem => List.mem_filter.mp hmem
  have hsetFolder : ∀ ref ∈ referenceFolders reference, ∀ name,
      setName rules ref.name = some name → name = ref.name := by
    intro ref hmem
    obtain ⟨hmem, hfolder⟩ := hfolder ref hmem
    apply hrestorable.names ref hmem
    intro heq
    rw [isRootFolder, hroot ref hmem heq, Bool.and_eq_true, decide_eq_true_eq] at hfolder
    exact absurd hfolder.2 (by decide)
  have hdone := restoreFoldersL_ok rules (referenceFolders reference)
    (fun ref hmem => (hfolder ref hmem).2) (fun ref hmem => hplain ref (hfolder ref hmem).1)
    hsetFolder hrestorable.folders htrans₃ (fun _ => Iff.rfl) hfolders
  rw [rootNames_of_kept hkept] at hdone
  obtain ⟨pairs, rfl, hpairs⟩ := hdone.pairs
  -- the items
  have hkeptUids : ∀ u, (∃ r ∈ db₃.table.rows, r.uid = u) ↔
      u ∈ (db.table.rows.filter fun r => !isFactoryRow r).map (·.uid) := by
    intro u
    rw [exists_uid_perm (.refl _), uids_of_sameEntry hkept]
  have hcounter₄ := hdone.counter
  rw [hcounter₃] at hcounter₄
  have htaken : ∀ u, u ∈ takenUids rules reference db.table.rows db.table.counter ↔
      ∃ r ∈ db₅.table.rows, r.uid = u := by
    intro u
    rw [mem_takenUids, hsame₅.rows, hdone.uids, hkeptUids, hcounter₄, hcounter₃]
  have hnumbers := hrestorable.numbers
  rw [← hcounter₄, ← hsame₅.counter] at hnumbers
  have hsetItem : ∀ ref ∈ referenceItems reference, ∀ name,
      setName rules ref.name = some name → name = ref.name := by
    intro ref hmem
    obtain ⟨hmem, hitem⟩ := List.mem_filter.mp hmem
    exact hrestorable.names ref hmem (ne_root_of_item htree hmem (of_decide_eq_true hitem))
  obtain ⟨items, hitems, hperm, rfl⟩ := restoreItemsL_ok rules _ _ hsetItem htrans₅ htaken
    hnumbers h
  rw [hsame₅.rows] at hperm
  have hsubset : ∀ f ∈ db₄.table.rows, f ∈ db'.table.rows :=
    fun f hf => hperm.mem_iff.mpr (List.mem_append_right _ hf)
  constructor
  · obtain ⟨kept, folders, hsame, hnew, hgrown⟩ := hdone.grown
    refine ⟨kept, folders, items, forall₂_trans SameEntry.trans hkept hsame,
      fun f hf => (hnew f hf).1, ?_, ?_, List.nil_append _⟩
    · exact forall₂_of_self hitems fun ref hmem r hfor =>
        hfor.newItem rules htree hroot hpairs hsubset hmem
    · exact hperm.trans ((hgrown.append_left items).trans List.perm_append_comm)
  · intro ref hmem
    obtain ⟨pair, -, -, f, hf, -, hsame⟩ := exists_of_mem_of_forall₂ hpairs hmem
    exact ⟨f, hsubset f hf, hsame⟩

end

/-- A reference table with two items. -/
def accessPointTable : List Row :=
  oneItemTable 2 ++ [{ Row.blank 2 3 with
    parentFolder := kFavouritesRootUid, name := [66], url := [104], wapAp := ⟨7, .normal⟩ }]

end SymbianWeb.Favourites.Store
