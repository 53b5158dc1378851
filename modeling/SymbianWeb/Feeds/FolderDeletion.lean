import SymbianWeb.Feeds.FolderStatus

/-!
# Deleting and moving items of the folder tree

A folder is deleted with what is below it; where no item below it is in the list with a status of
its own, no loop is run in between, and the statuses that are left are those there were (`Swept`).
Then the loop from the parent of the item puts them right. An item that is moved does not count
until the folders above its old place are right.
-/

set_option autoImplicit false

namespace SymbianWeb.Feeds

/-! ## What is swept away with a folder -/

/-- Each row is in another table, up to its sibling index. -/
def Within (rows' rows : List FolderListRow) : Prop :=
  ∀ row' ∈ rows', ∃ row ∈ rows, row'.folderItemId = row.folderItemId ∧
    row'.parentId = row.parentId ∧ row'.isFolder = row.isFolder ∧ row'.status = row.status

/-- The same rows up to the sibling indexes. -/
def SameStatus (rows rows' : List FolderListRow) : Prop :=
  ∃ edit : FolderListRow → FolderListRow, rows' = rows.map edit ∧
    ∀ row, (edit row).folderItemId = row.folderItemId ∧ (edit row).parentId = row.parentId ∧
      (edit row).isFolder = row.isFolder ∧ (edit row).status = row.status

theorem Within.trans {a b c : List FolderListRow} (h : Within a b) (h' : Within b c) :
    Within a c := by
  intro row hrow
  obtain ⟨row', hrow', hid, hparent, hfolder, hstatus⟩ := h row hrow
  obtain ⟨row'', hrow'', hid', hparent', hfolder', hstatus'⟩ := h' row' hrow'
  exact ⟨row'', hrow'', hid.trans hid', hparent.trans hparent', hfolder.trans hfolder',
    hstatus.trans hstatus'⟩

theorem within_of_subset {a b : List FolderListRow} (h : a ⊆ b) : Within a b :=
  fun row hrow => ⟨row, h hrow, rfl, rfl, rfl, rfl⟩

theorem OnChain.of_within {rows' rows : List FolderListRow} (h : Within rows' rows)
    {a b : UInt16} (hchain : OnChain rows' a b) : OnChain rows a b := by
  refine hchain.of_parents fun row' hrow' => ?_
  obtain ⟨row, hrow, hid, hparent, -⟩ := h row' hrow'
  exact ⟨row, hrow, hid, hparent⟩

namespace SameStatus

variable {rows rows' rows'' : List FolderListRow}

theorem refl (rows : List FolderListRow) : SameStatus rows rows :=
  ⟨id, (List.map_id rows).symm, fun _ => ⟨rfl, rfl, rfl, rfl⟩⟩

theorem trans (h : SameStatus rows rows') (h' : SameStatus rows' rows'') :
    SameStatus rows rows'' := by
  obtain ⟨edit, rfl, hedit⟩ := h
  obtain ⟨edit', rfl, hedit'⟩ := h'
  refine ⟨edit' ∘ edit, List.map_map, fun row => ?_⟩
  obtain ⟨hid, hparent, hfolder, hstatus⟩ := hedit row
  obtain ⟨hid', hparent', hfolder', hstatus'⟩ := hedit' (edit row)
  exact ⟨hid'.trans hid, hparent'.trans hparent, hfolder'.trans hfolder, hstatus'.trans hstatus⟩

theorem within (h : SameStatus rows rows') : Within rows' rows := by
  obtain ⟨edit, rfl, hedit⟩ := h
  intro row' hrow'
  obtain ⟨row, hrow, rfl⟩ := List.mem_map.mp hrow'
  exact ⟨row, hrow, hedit row⟩

theorem within' (h : SameStatus rows rows') : Within rows rows' := by
  obtain ⟨edit, rfl, hedit⟩ := h
  intro row hrow
  obtain ⟨hid, hparent, hfolder, hstatus⟩ := hedit row
  exact ⟨edit row, List.mem_map_of_mem hrow, hid.symm, hparent.symm, hfolder.symm, hstatus.symm⟩

theorem shape (h : SameStatus rows rows') : SameShape rows rows' := by
  obtain ⟨edit, hrows, hedit⟩ := h
  exact ⟨edit, hrows, fun row => ⟨(hedit row).1, (hedit row).2.1, (hedit row).2.2.1⟩⟩

theorem filter (h : SameStatus rows rows') (keep : UInt16 → Bool) :
    SameStatus (rows.filter fun row => keep row.folderItemId)
      (rows'.filter fun row => keep row.folderItemId) := by
  obtain ⟨edit, rfl, hedit⟩ := h
  refine ⟨edit, ?_, hedit⟩
  rw [List.filter_map]
  refine congrArg (List.map edit) (List.filter_congr fun row _ => ?_)
  rw [Function.comp_apply, (hedit row).1]

theorem errorsBut (h : SameStatus rows rows') (x f : UInt16) :
    errorsBut x rows' f = SymbianWeb.Feeds.errorsBut x rows f := by
  obtain ⟨edit, rfl, hedit⟩ := h
  rw [SymbianWeb.Feeds.errorsBut, SymbianWeb.Feeds.errorsBut, List.countP_map]
  refine List.countP_congr fun row _ => ?_
  obtain ⟨hid, hparent, -, hstatus⟩ := hedit row
  rw [Function.comp_apply, hid, hparent, hstatus]

theorem owes (h : SameStatus rows rows') {x p : UInt16} {d : Int} (howes : Owes x p d rows) :
    Owes x p d rows' := by
  intro row' hrow' hfolder
  obtain ⟨row, hrow, hid, -, hsame, hstatus⟩ := h.within row' hrow'
  rw [h.errorsBut, hid, hstatus]
  exact howes row hrow (hsame ▸ hfolder)

end SameStatus

theorem sameStatus_adjust (rows : List FolderListRow) (aParentId : UInt16) :
    SameStatus rows (adjustSiblingIndexesL rows aParentId) := by
  refine ⟨_, rfl, fun row => ?_⟩
  split <;> exact ⟨rfl, rfl, rfl, rfl⟩

theorem sameStatus_hole (rows : List FolderListRow) (aParentId : UInt16) (index size : Nat) :
    SameStatus rows (createSiblingIndexHoleL rows aParentId index size) := by
  refine ⟨_, rfl, fun row => ?_⟩
  split <;> exact ⟨rfl, rfl, rfl, rfl⟩

/-- The rows that are left when some items are deleted with what is below them. -/
structure Swept (rows : List FolderListRow) (ids : List UInt16) (rows' : List FolderListRow)
    (gone : UInt16 → Bool) : Prop where
  same : SameStatus (rows.filter fun row => !gone row.folderItemId) rows'
  listed : ∀ id ∈ ids, gone id = true
  below : ∀ id, gone id = true → ∃ c ∈ ids, OnChain rows id c
  parents : ∀ row ∈ rows', gone row.parentId = false

namespace Swept

variable {rows rows₁ rows₂ : List FolderListRow} {ids ids' : List UInt16}
  {gone gone' : UInt16 → Bool}

theorem within (h : Swept rows ids rows₁ gone) : Within rows₁ rows :=
  h.same.within.trans (within_of_subset (List.filter_subset_self _))

theorem not_gone (h : Swept rows ids rows₁ gone) {row : FolderListRow} (hrow : row ∈ rows₁) :
    gone row.folderItemId = false := by
  obtain ⟨row', hrow', hid, -⟩ := h.same.within row hrow
  rw [hid]
  simpa using (List.mem_filter.mp hrow').2

/-- What is not gone is left. -/
theorem exists_row (h : Swept rows ids rows₁ gone) {row : FolderListRow} (hrow : row ∈ rows)
    (hleft : gone row.folderItemId = false) :
    ∃ row' ∈ rows₁, row.folderItemId = row'.folderItemId ∧ row.parentId = row'.parentId ∧
      row.isFolder = row'.isFolder ∧ row.status = row'.status :=
  h.same.within' row (List.mem_filter.mpr ⟨hrow, by rw [hleft]; rfl⟩)

theorem nil (rows : List FolderListRow) : Swept rows [] rows fun _ => false where
  same := by
    have hall : (rows.filter fun row => !(fun _ => false) row.folderItemId) = rows :=
      List.filter_eq_self.mpr fun _ _ => rfl
    rw [hall]
    exact .refl rows
  listed _ hmem := by cases hmem
  below _ hgone := by cases hgone
  parents _ _ := rfl

theorem trans (h : Swept rows ids rows₁ gone) (h' : Swept rows₁ ids' rows₂ gone') :
    Swept rows (ids ++ ids') rows₂ fun id => gone id || gone' id where
  same := by
    have hsame := (h.same.filter fun id => !gone' id).trans h'.same
    rw [List.filter_filter] at hsame
    refine cast (congrArg (SameStatus · rows₂) (List.filter_congr fun row _ => ?_)) hsame
    cases gone row.folderItemId <;> cases gone' row.folderItemId <;> rfl
  listed id hid := by
    rcases List.mem_append.mp hid with hid | hid
    · simp [h.listed id hid]
    · simp [h'.listed id hid]
  below id hid := by
    rcases Bool.or_eq_true _ _ ▸ hid with hid | hid
    · obtain ⟨c, hc, hchain⟩ := h.below id hid
      exact ⟨c, List.mem_append_left _ hc, hchain⟩
    · obtain ⟨c, hc, hchain⟩ := h'.below id hid
      exact ⟨c, List.mem_append_right _ hc, hchain.of_within h.within⟩
  parents row hrow := by
    obtain ⟨row₁, hrow₁, -, hparent, -⟩ := h'.within row hrow
    rw [h'.parents row hrow, hparent, h.parents row₁ hrow₁]
    rfl

theorem length_le (h : Swept rows ids rows₁ gone) : rows₁.length ≤ rows.length := by
  obtain ⟨edit, hrows, -⟩ := h.same
  rw [hrows, List.length_map]
  exact List.length_filter_le _ _

/-- An item that is not left was deleted already. -/
theorem append_absent (h : Swept rows ids rows₁ gone) {row : FolderListRow} (hrow : row ∈ rows)
    (habsent : ∀ row' ∈ rows₁, row'.folderItemId ≠ row.folderItemId) :
    Swept rows (ids ++ [row.folderItemId]) rows₁ gone where
  same := h.same
  listed id hid := by
    rcases List.mem_append.mp hid with hid | hid
    · exact h.listed id hid
    · rw [List.mem_singleton.mp hid]
      by_contra hleft
      obtain ⟨row', hrow', hid', -⟩ := h.exists_row hrow (Bool.eq_false_of_not_eq_true hleft)
      exact habsent row' hrow' hid'.symm
  below id hid := by
    obtain ⟨c, hc, hchain⟩ := h.below id hid
    exact ⟨c, List.mem_append_left _ hc, hchain⟩
  parents := h.parents

/-- The sibling indexes do not matter. -/
theorem of_same (h : Swept rows ids rows₁ gone) (hsame : SameStatus rows₁ rows₂) :
    Swept rows ids rows₂ gone where
  same := h.same.trans hsame
  listed := h.listed
  below := h.below
  parents row hrow := by
    obtain ⟨row₁, hrow₁, -, hparent, -⟩ := hsame.within row hrow
    rw [hparent]
    exact h.parents row₁ hrow₁

end Swept

/-! ## Sweeping -/

/-- What stays of a tree when rows are taken out of it: the ids are distinct, and a row that is the
parent of another one is a folder. -/
structure Rows (rows : List FolderListRow) : Prop where
  nodup : (rows.map (·.folderItemId)).Nodup
  folders : ∀ row ∈ rows, ∀ parent ∈ rows, parent.folderItemId = row.parentId →
    parent.isFolder = true

theorem Rows.eq_of_id {rows : List FolderListRow} (h : Rows rows) {row row' : FolderListRow}
    (hrow : row ∈ rows) (hrow' : row' ∈ rows) (hid : row.folderItemId = row'.folderItemId) :
    row = row' :=
  List.inj_on_of_nodup_map h.nodup hrow hrow' hid

theorem Rows.filter {rows : List FolderListRow} (h : Rows rows) (keep : FolderListRow → Bool) :
    Rows (rows.filter keep) where
  nodup := h.nodup.sublist (List.filter_sublist.map _)
  folders row hrow parent hparent :=
    h.folders row (List.mem_of_mem_filter hrow) parent (List.mem_of_mem_filter hparent)

theorem Rows.of_same {rows rows' : List FolderListRow} (h : Rows rows)
    (hsame : SameStatus rows rows') : Rows rows' where
  nodup := by
    rw [hsame.shape.ids]
    exact h.nodup
  folders row hrow parent hparent hid := by
    obtain ⟨row₀, hrow₀, -, hrowParent, -⟩ := hsame.within row hrow
    obtain ⟨parent₀, hparent₀, hparentId, -, hfolder, -⟩ := hsame.within parent hparent
    rw [hfolder]
    exact h.folders row₀ hrow₀ parent₀ hparent₀ (by rw [← hparentId, hid, hrowParent])

theorem Swept.rows {rows rows' : List FolderListRow} {ids : List UInt16} {gone : UInt16 → Bool}
    (h : Swept rows ids rows' gone) (hrows : Rows rows) : Rows rows' :=
  (hrows.filter _).of_same h.same

theorem FolderTree.rows {rows : List FolderListRow} (h : FolderTree rows) : Rows rows where
  nodup := h.nodup
  folders row hrow parent hparent hid := by
    have hne : row.parentId ≠ kRootFolderId := hid ▸ h.ne_root parent hparent
    obtain ⟨folder, hfolder, hfolderId, hisFolder⟩ := h.parents row hrow hne
    rwa [← h.eq_of_id hfolder hparent (hfolderId.trans hid.symm)]

/-- No item below these is in the list with a status. -/
def Quiet (array ids : List UInt16) (rows : List FolderListRow) : Prop :=
  ∀ row ∈ rows, (∃ c ∈ ids, OnChain rows row.folderItemId c) → row.folderItemId ∈ array →
    row.status = 0

theorem mem_children {rows : List FolderListRow} {id child : UInt16} :
    child ∈ folderItemGetChildrenL rows id ↔
      ∃ row ∈ rows, row.parentId = id ∧ row.folderItemId = child := by
  simp [folderItemGetChildrenL, rowsOfParent, and_assoc]

theorem seekFolderItem_none {rows : List FolderListRow} {id : UInt16}
    (h : seekFolderItem rows id = none) : ∀ row ∈ rows, row.folderItemId ≠ id := by
  intro row hrow hid
  rw [seekFolderItem, List.find?_eq_none] at h
  exact h row hrow (decide_eq_true hid)

theorem deleteRow_eq (rows : List FolderListRow) (id : UInt16) :
    deleteRow rows id = rows.filter fun row => !decide (row.folderItemId = id) :=
  List.filter_congr fun _ _ => decide_not

theorem mem_deleteRow {rows : List FolderListRow} {id : UInt16} {row : FolderListRow} :
    row ∈ deleteRow rows id ↔ row ∈ rows ∧ row.folderItemId ≠ id := by
  simp [deleteRow]

theorem length_deleteRow {rows : List FolderListRow} {row : FolderListRow} (hrow : row ∈ rows) :
    (deleteRow rows row.folderItemId).length < rows.length := by
  rw [deleteRow]
  exact List.length_filter_lt_length_iff_exists.mpr ⟨row, hrow, by simp⟩

/-- A feed goes alone. -/
theorem swept_feed {rows : List FolderListRow} (hrows : Rows rows) {row : FolderListRow}
    (hrow : row ∈ rows) (hfeed : row.isFolder = false) :
    Swept rows [row.folderItemId] (deleteRow rows row.folderItemId)
      fun id => decide (id = row.folderItemId) where
  same := by
    rw [deleteRow_eq]
    exact .refl _
  listed id hid := decide_eq_true (List.mem_singleton.mp hid)
  below id hid := ⟨row.folderItemId, List.mem_singleton.mpr rfl, of_decide_eq_true hid ▸ .self _⟩
  parents child hchild := by
    apply decide_eq_false
    intro hparent
    have hfolder := hrows.folders child (mem_deleteRow.mp hchild).1 row hrow hparent.symm
    rw [hfeed] at hfolder
    cases hfolder

/-- A folder goes with what is below its children. -/
theorem swept_folder {rows rows' : List FolderListRow} {gone : UInt16 → Bool} {id : UInt16}
    (h : Swept (deleteRow rows id) (folderItemGetChildrenL (deleteRow rows id) id) rows' gone) :
    Swept rows [id] rows' fun x => decide (x = id) || gone x where
  same := by
    have hsame := h.same
    rw [deleteRow_eq, List.filter_filter] at hsame
    refine cast (congrArg (SameStatus · rows') (List.filter_congr fun row _ => ?_)) hsame
    rw [Bool.not_or, Bool.and_comm]
  listed x hx := by simp [List.mem_singleton.mp hx]
  below x hx := by
    refine ⟨id, List.mem_singleton.mpr rfl, ?_⟩
    rcases Bool.or_eq_true _ _ ▸ hx with hx | hx
    · rw [of_decide_eq_true hx]
      exact .self id
    · obtain ⟨child, hchild, hchain⟩ := h.below x hx
      obtain ⟨row, hrow, hparent, rfl⟩ := mem_children.mp hchild
      have hwithin : Within (deleteRow rows id) rows :=
        within_of_subset (List.filter_subset_self _)
      refine (hchain.of_within hwithin).trans (.up (mem_deleteRow.mp hrow).1 ?_)
      rw [hparent]
      exact .self id
  parents row hrow := by
    rw [h.parents row hrow, Bool.or_false]
    apply decide_eq_false
    intro hparent
    obtain ⟨row₁, hrow₁, hid, hsame, -⟩ := h.within row hrow
    have hgone := h.listed row₁.folderItemId (mem_children.mpr ⟨row₁, hrow₁, hsame ▸ hparent, rfl⟩)
    rw [← hid, h.not_gone hrow] at hgone
    cases hgone

section Sweep

variable {array : List UInt16} {n : Nat}

/-- `FolderItemDeleteHelperL` sweeps every table of fewer than `n` rows. -/
def Sweeps (array : List UInt16) (n : Nat) : Prop :=
  ∀ rows ids, rows.length < n → Rows rows →
    (∀ id ∈ ids, ∃ row ∈ rows, row.folderItemId = id) → Quiet array ids rows →
    ∃ rows' gone, (∀ fuel, n ≤ fuel →
      folderItemDeleteHelperL array fuel ids rows = some rows') ∧ Swept rows ids rows' gone

/-- What an item does to the table before the loop upwards. -/
theorem sweep_below (ih : Sweeps array n) {rows : List FolderListRow} (hlength : rows.length ≤ n)
    (hrows : Rows rows) {row : FolderListRow} (hrow : row ∈ rows)
    (hquiet : ∀ r ∈ rows, OnChain rows r.parentId row.folderItemId → r.folderItemId ∈ array →
      r.status = 0) :
    ∃ rows' gone, (∀ fuel, n ≤ fuel →
      (if row.isFolder then folderItemDeleteHelperL array fuel
          (folderItemGetChildrenL (deleteRow rows row.folderItemId) row.folderItemId)
          (deleteRow rows row.folderItemId)
        else some (deleteRow rows row.folderItemId)) = some rows') ∧
      Swept rows [row.folderItemId] rows' gone := by
  cases hfolder : row.isFolder with
  | false => exact ⟨_, _, fun _ _ => rfl, swept_feed hrows hrow hfolder⟩
  | true =>
    have hwithin : Within (deleteRow rows row.folderItemId) rows :=
      within_of_subset (List.filter_subset_self _)
    obtain ⟨rows', gone, hrun, hswept⟩ := ih (deleteRow rows row.folderItemId)
      (folderItemGetChildrenL (deleteRow rows row.folderItemId) row.folderItemId)
      (Nat.lt_of_lt_of_le (length_deleteRow hrow) hlength) (hrows.filter _)
      (fun child hchild => by
        obtain ⟨r, hr, -, hid⟩ := mem_children.mp hchild
        exact ⟨r, hr, hid⟩)
      (fun r hr hchain harray => by
        obtain ⟨child, hchild, hchain⟩ := hchain
        obtain ⟨c, hc, hparent, rfl⟩ := mem_children.mp hchild
        refine hquiet r (mem_deleteRow.mp hr).1 ?_ harray
        -- From the row to the child, and from there to the folder.
        have hup : OnChain rows c.parentId row.folderItemId := by
          rw [hparent]
          exact .self _
        rcases (hchain.of_within hwithin).eq_or_up with heq | ⟨r', hr', hid', hchain'⟩
        · rw [hrows.eq_of_id (mem_deleteRow.mp hr).1 (mem_deleteRow.mp hc).1 heq]
          exact hup
        · rw [← hrows.eq_of_id hr' (mem_deleteRow.mp hr).1 hid']
          exact hchain'.trans (.up (mem_deleteRow.mp hc).1 hup))
    exact ⟨rows', _, hrun, swept_folder hswept⟩

theorem sweep_fold (ih : Sweeps array n) {rows : List FolderListRow} (hlength : rows.length ≤ n)
    (hrows : Rows rows) (parentId : UInt16) {done todo : List UInt16}
    (hids : ∀ id ∈ todo, ∃ row ∈ rows, row.folderItemId = id) (hquiet : Quiet array todo rows)
    {rows₁ : List FolderListRow} {gone : UInt16 → Bool} (hswept : Swept rows done rows₁ gone) :
    ∃ rows' gone', (∀ fuel, n ≤ fuel → todo.foldlM
      (deleteItemL array (folderItemDeleteHelperL array fuel) fuel parentId) rows₁ = some rows') ∧
      Swept rows (done ++ todo) rows' gone' := by
  induction todo generalizing done rows₁ gone with
  | nil => exact ⟨rows₁, gone, fun _ _ => rfl, by rwa [List.append_nil]⟩
  | cons id todo ihTodo =>
    have hrest : ∀ id' ∈ todo, ∃ row ∈ rows, row.folderItemId = id' :=
      fun id' h => hids id' (List.mem_cons_of_mem id h)
    have hquietRest : Quiet array todo rows := fun row hrow ⟨c, hc, hchain⟩ =>
      hquiet row hrow ⟨c, List.mem_cons_of_mem id hc, hchain⟩
    rw [List.append_cons]
    cases hseek : seekFolderItem rows₁ id with
    | none =>
      obtain ⟨row, hrow, rfl⟩ := hids id List.mem_cons_self
      obtain ⟨rows', gone', hrun, hswept'⟩ :=
        ihTodo hrest hquietRest (hswept.append_absent hrow (seekFolderItem_none hseek))
      refine ⟨rows', gone', fun fuel hfuel => ?_, hswept'⟩
      rw [List.foldlM_cons, deleteItemL, hseek]
      exact hrun fuel hfuel
    | some row =>
      obtain ⟨hrow, rfl⟩ := seekFolderItem_some hseek
      have hquiet₁ : ∀ r ∈ rows₁, OnChain rows₁ r.folderItemId row.folderItemId →
          r.folderItemId ∈ array → r.status = 0 := by
        intro r hr hchain harray
        obtain ⟨r₀, hr₀, hid, -, -, hstatus⟩ := hswept.within r hr
        rw [hstatus]
        apply hquiet r₀ hr₀
        · exact ⟨row.folderItemId, List.mem_cons_self, hid ▸ hchain.of_within hswept.within⟩
        · rwa [← hid]
      obtain ⟨rows₂, gone₂, hbelow, hswept₂⟩ := sweep_below ih (hswept.length_le.trans hlength)
        (hswept.rows hrows) hrow fun r hr hchain => hquiet₁ r hr (.up hr hchain)
      obtain ⟨rows', gone', hrun, hswept'⟩ := ihTodo hrest hquietRest (hswept.trans hswept₂)
      refine ⟨rows', gone', fun fuel hfuel => ?_, hswept'⟩
      have hnoLoop : ¬ (row.status ≠ 0 ∧ row.folderItemId ∈ array) :=
        fun h => h.1 (hquiet₁ row hrow (.self _) h.2)
      rw [List.foldlM_cons, deleteItemL, hseek]
      dsimp only
      rw [hbelow fuel hfuel, Option.bind_eq_bind, Option.bind_some, if_neg hnoLoop]
      exact hrun fuel hfuel

end Sweep

/-- Where no item has a status of its own, a deletion sweeps. -/
theorem sweeps (array : List UInt16) (n : Nat) : Sweeps array n := by
  induction n with
  | zero => exact fun rows ids hlength => absurd hlength (Nat.not_lt_zero _)
  | succ n ih =>
    intro rows ids hlength hrows hids hquiet
    by_cases hnil : ids = []
    · subst hnil
      refine ⟨rows, _, fun fuel hfuel => ?_, Swept.nil rows⟩
      obtain ⟨fuel, rfl⟩ := Nat.exists_eq_add_of_le' (Nat.le_of_add_left_le hfuel)
      rw [folderItemDeleteHelperL, if_pos rfl]
    · obtain ⟨rows', gone, hrun, hswept⟩ := sweep_fold ih (Nat.le_of_lt_succ hlength) hrows
        (parentOfFirst rows ids) hids hquiet (Swept.nil rows)
      refine ⟨_, gone, fun fuel hfuel => ?_,
        hswept.of_same (sameStatus_adjust rows' (parentOfFirst rows ids))⟩
      obtain ⟨fuel, rfl⟩ := Nat.exists_eq_add_of_le' (Nat.le_of_add_left_le hfuel)
      rw [folderItemDeleteHelperL, if_neg hnil]
      dsimp only
      rw [hrun fuel (Nat.le_of_add_le_add_right hfuel)]
      rfl

/-! ## One item of the list -/

section Item

variable {rows rows' : List FolderListRow} {gone : UInt16 → Bool} {row : FolderListRow}

/-- What is below the items is gone. -/
theorem Swept.gone_of_onChain {ids : List UInt16} (h : Swept rows ids rows' gone) {a c : UInt16}
    (hc : c ∈ ids) (hchain : OnChain rows a c) : gone a = true := by
  induction hchain with
  | self => exact h.listed _ hc
  | up hrow _ ih =>
    by_contra hleft
    obtain ⟨row', hrow', -, hparent, -⟩ := h.exists_row hrow (Bool.eq_false_of_not_eq_true hleft)
    have hkept := h.parents row' hrow'
    rw [← hparent, ih hc] at hkept
    cases hkept

/-- What is left of a tree is one. -/
theorem Swept.folderTree {ids : List UInt16} (h : Swept rows ids rows' gone)
    (htree : FolderTree rows) : FolderTree rows' where
  nodup := (h.rows htree.rows).nodup
  ne_root row' hrow' := by
    obtain ⟨row, hrow, hid, -⟩ := h.within row' hrow'
    rw [hid]
    exact htree.ne_root row hrow
  parents row' hrow' hne := by
    obtain ⟨row, hrow, -, hparent, -⟩ := h.within row' hrow'
    obtain ⟨parent, hmem, hid, hfolder⟩ := htree.parents row hrow (hparent ▸ hne)
    have hleft : gone parent.folderItemId = false := by
      rw [hid, ← hparent]
      exact h.parents row' hrow'
    obtain ⟨parent', hmem', hid', -, hfolder', -⟩ := h.exists_row hmem hleft
    exact ⟨parent', hmem', by rw [← hid', hid, hparent], hfolder' ▸ hfolder⟩
  rooted row' hrow' := by
    obtain ⟨row, hrow, hid, -⟩ := h.within row' hrow'
    have hrooted := htree.rooted row hrow
    have hleft := h.not_gone hrow'
    rw [hid] at hleft ⊢
    generalize row.folderItemId = id at hrooted hleft
    generalize hroot : kRootFolderId = root at hrooted ⊢
    induction hrooted with
    | self => exact .self _
    | @up above root habove _ ih =>
      obtain ⟨above', habove', hid', hparent', -⟩ := h.exists_row habove hleft
      rw [hid']
      refine .up habove' (hparent' ▸ ih (hparent' ▸ h.parents above' habove') hroot)

/-- A deletion takes the item itself out of what its folder counts. -/
theorem Swept.errorsBelow (h : Swept rows [row.folderItemId] rows' gone) (htree : FolderTree rows)
    (hrow : row ∈ rows) {f : UInt16} (hf : gone f = false) :
    errorsBelow rows f =
      errorsBelow rows' f + if row.parentId = f ∧ row.status ≠ 0 then 1 else 0 := by
  have hgone : gone row.folderItemId = true := h.listed _ (List.mem_singleton.mpr rfl)
  have hleft : SymbianWeb.Feeds.errorsBelow rows' f = rows.countP fun r =>
      decide (r.parentId = f ∧ r.status ≠ 0) && !gone r.folderItemId := by
    obtain ⟨edit, hrows', hedit⟩ := h.same
    rw [SymbianWeb.Feeds.errorsBelow, hrows', List.countP_map, List.countP_filter]
    refine List.countP_congr fun r _ => ?_
    obtain ⟨-, hparent, -, hstatus⟩ := hedit r
    rw [Function.comp_apply, hparent, hstatus]
  rw [hleft, SymbianWeb.Feeds.errorsBelow, countP_eq_others htree hrow]
  simp only [decide_eq_true_eq]
  refine congrArg (· + _) (List.countP_congr fun r hr => ?_)
  by_cases hcounts : r.parentId = f ∧ r.status ≠ 0
  · rw [decide_eq_true hcounts, Bool.true_and, Bool.true_and]
    by_cases hsame : r.folderItemId = row.folderItemId
    · simp [hsame, hgone]
    · -- Another child of a folder that is left is left too.
      have hkept : gone r.folderItemId = false := by
        by_contra hnot
        obtain ⟨c, hc, hchain⟩ := h.below _ (Bool.eq_true_of_not_eq_false hnot)
        obtain rfl := List.mem_singleton.mp hc
        rcases hchain.eq_or_up with heq | ⟨r', hr', hid, hup⟩
        · exact hsame heq
        · obtain rfl := htree.eq_of_id hr' hr hid
          rw [hcounts.1] at hup
          rw [h.gone_of_onChain (List.mem_singleton.mpr rfl) hup] at hf
          cases hf
      simp [hsame, hkept]
  · rw [decide_eq_false hcounts, Bool.false_and, Bool.false_and]

/-- What the folders owe when an item has been swept away. -/
theorem Swept.owes (h : Swept rows [row.folderItemId] rows' gone) (htree : FolderTree rows)
    (hcounted : Counted rows) (hrow : row ∈ rows) :
    Owes kRootFolderId row.parentId (if row.status ≠ 0 then -1 else 0) rows' := by
  intro folder hfolder hisFolder
  obtain ⟨folder₀, hfolder₀, hid, -, hkind, hstatus⟩ := h.within folder hfolder
  have hcount := hcounted folder₀ hfolder₀ (hkind ▸ hisFolder)
  have hbelow := h.errorsBelow htree hrow (h.not_gone hfolder)
  rw [← hid, ← hstatus] at hcount
  rw [errorsBut_root (h.folderTree htree)]
  by_cases hparent : row.parentId = folder.folderItemId
  · by_cases hzero : row.status = 0
    · simp [hparent, hzero] at hbelow ⊢
      omega
    · simp [hparent, hzero] at hbelow ⊢
      omega
  · simp [hparent, Ne.symm hparent] at hbelow ⊢
    omega

end Item

/-! ## The whole list -/

/-- Each row is in another table, with its status if it is a feed. -/
def FeedsWithin (rows' rows : List FolderListRow) : Prop :=
  ∀ row' ∈ rows', ∃ row ∈ rows, row'.folderItemId = row.folderItemId ∧
    row'.parentId = row.parentId ∧ row'.isFolder = row.isFolder ∧
    (row.isFolder = false → row'.status = row.status)

theorem FeedsWithin.trans {a b c : List FolderListRow} (h : FeedsWithin a b)
    (h' : FeedsWithin b c) : FeedsWithin a c := by
  intro row hrow
  obtain ⟨row', hrow', hid, hparent, hfolder, hstatus⟩ := h row hrow
  obtain ⟨row'', hrow'', hid', hparent', hfolder', hstatus'⟩ := h' row' hrow'
  refine ⟨row'', hrow'', hid.trans hid', hparent.trans hparent', hfolder.trans hfolder', ?_⟩
  intro hfeed
  exact (hstatus (hfolder'.trans hfeed)).trans (hstatus' hfeed)

theorem Within.feeds {rows' rows : List FolderListRow} (h : Within rows' rows) :
    FeedsWithin rows' rows := by
  intro row' hrow'
  obtain ⟨row, hrow, hid, hparent, hfolder, hstatus⟩ := h row' hrow'
  exact ⟨row, hrow, hid, hparent, hfolder, fun _ => hstatus⟩

/-- What a loop upwards leaves of a table. -/
theorem SameShape.feedsWithin {rows rows' : List FolderListRow} (h : SameShape rows rows')
    (htree : FolderTree rows) (hkept : ∀ row ∈ rows, row.isFolder = false → row ∈ rows') :
    FeedsWithin rows' rows := by
  intro row' hrow'
  obtain ⟨row, hrow, hid, hparent, hfolder⟩ := h.exists_row' hrow'
  refine ⟨row, hrow, hid, hparent, hfolder, fun hfeed => ?_⟩
  rw [(h.folderTree htree).eq_of_id hrow' (hkept row hrow hfeed) hid]

theorem OnChain.of_feedsWithin {rows' rows : List FolderListRow} (h : FeedsWithin rows' rows)
    {a b : UInt16} (hchain : OnChain rows' a b) : OnChain rows a b := by
  refine hchain.of_parents fun row' hrow' => ?_
  obtain ⟨row, hrow, hid, hparent, -⟩ := h row' hrow'
  exact ⟨row, hrow, hid, hparent⟩

/-- A feed with a status, at or below an item, that is there when other items have been deleted. -/
def ErrorLeft (rows : List FolderListRow) (deleted : List UInt16) (id : UInt16) : Prop :=
  ∃ feed ∈ rows, feed.isFolder = false ∧ feed.status ≠ 0 ∧ OnChain rows feed.folderItemId id ∧
    ∀ b ∈ deleted, ¬ OnChain rows feed.folderItemId b

/-- An item that is deleted while it has a feed with a status is in the folder of the first item,
and none below it that has one is in the list. -/
def DeletesWell (rows : List FolderListRow) (ids : List UInt16) : Prop :=
  ∀ before id after, ids = before ++ id :: after → ErrorLeft rows before id →
    (∀ row ∈ rows, row.folderItemId = id → row.parentId = parentOfFirst rows ids) ∧
      ∀ other ∈ ids, other ≠ id → OnChain rows other id → ¬ ErrorLeft rows before other

/-- A tree with right statuses that is left of another one. -/
structure DeletedTo (rows : List FolderListRow) (deleted : List UInt16)
    (rows' : List FolderListRow) : Prop where
  tree : FolderTree rows'
  counted : Counted rows'
  within : FeedsWithin rows' rows
  left : ∀ row ∈ rows', ∀ b ∈ deleted, ¬ OnChain rows row.folderItemId b

/-- A tree that is left of another one has nothing below what it has not. -/
theorem FeedsWithin.not_onChain {rows rows' : List FolderListRow} (h : FeedsWithin rows' rows)
    (htree : FolderTree rows) (htree' : FolderTree rows') {id : UInt16} (hroot : id ≠ kRootFolderId)
    (habsent : ∀ row ∈ rows', row.folderItemId ≠ id) {row : FolderListRow} (hrow : row ∈ rows') :
    ¬ OnChain rows row.folderItemId id := by
  intro hchain
  generalize ha : row.folderItemId = a at hchain
  induction hchain generalizing row with
  | self => exact habsent row hrow ha
  | @up above b habove hchain ih =>
    obtain ⟨row₀, hrow₀, hid, hparent, -⟩ := h row hrow
    obtain rfl := htree.eq_of_id hrow₀ habove (hid.symm.trans ha)
    have hne : row.parentId ≠ kRootFolderId := by
      intro hparentRoot
      rcases hchain.eq_or_up with heq | ⟨r, hr, hrid, -⟩
      · exact hroot (heq.symm.trans (hparent.symm.trans hparentRoot))
      · exact htree.ne_root r hr (hrid.trans (hparent.symm.trans hparentRoot))
    obtain ⟨parent, hmem, hparentId, -⟩ := htree'.parents row hrow hne
    exact ih hroot habsent hmem (hparentId.trans hparent)

section List

variable {rows rows₁ : List FolderListRow} {ids before after : List UInt16} {id : UInt16}

theorem DeletedTo.errorLeft (h : DeletedTo rows before rows₁) {row : FolderListRow}
    (hrow : row ∈ rows₁) (hstatus : row.status ≠ 0) : ErrorLeft rows before row.folderItemId := by
  obtain ⟨feed, hfeed, hkind, hne, hchain⟩ := h.counted.exists_feed h.tree hrow hstatus
  obtain ⟨feed₀, hfeed₀, hid, -, hkind₀, hstatus₀⟩ := h.within feed hfeed
  have hfeedKind : feed₀.isFolder = false := hkind₀ ▸ hkind
  refine ⟨feed₀, hfeed₀, hfeedKind, hstatus₀ hfeedKind ▸ hne, ?_, ?_⟩
  · rw [← hid]
    exact hchain.of_feedsWithin h.within
  · rw [← hid]
    exact h.left feed hfeed

/-- One item of the list. -/
theorem delete_step (htree : FolderTree rows) (hwell : DeletesWell rows ids)
    (hids : ids = before ++ id :: after) (hid : ∃ row ∈ rows, row.folderItemId = id)
    (h : DeletedTo rows before rows₁) :
    ∃ rows', (∃ n, ∀ fuel, n ≤ fuel → deleteItemL ids (folderItemDeleteHelperL ids fuel) fuel
        (parentOfFirst rows ids) rows₁ id = some rows') ∧
      DeletedTo rows (before ++ [id]) rows' := by
  obtain ⟨row₀, hrow₀, hid₀⟩ := hid
  have hroot : id ≠ kRootFolderId := hid₀ ▸ htree.ne_root row₀ hrow₀
  -- Whatever is left without the item is not below it.
  have hleft : ∀ {rows'}, FolderTree rows' → Counted rows' → FeedsWithin rows' rows₁ →
      (∀ row ∈ rows', row.folderItemId ≠ id) → DeletedTo rows (before ++ [id]) rows' := by
    intro rows' htree' hcounted' hwithin' habsent
    refine ⟨htree', hcounted', hwithin'.trans h.within, fun row hrow b hb => ?_⟩
    rcases List.mem_append.mp hb with hb | hb
    · obtain ⟨row₁, hrow₁, hsame, -⟩ := hwithin' row hrow
      rw [hsame]
      exact h.left row₁ hrow₁ b hb
    · rw [List.mem_singleton.mp hb]
      exact (hwithin'.trans h.within).not_onChain htree htree' hroot habsent hrow
  cases hseek : seekFolderItem rows₁ id with
  | none =>
    refine ⟨rows₁, ⟨0, fun fuel _ => ?_⟩, hleft h.tree h.counted ?_ (seekFolderItem_none hseek)⟩
    · rw [deleteItemL, hseek]
    · exact (within_of_subset (List.Subset.refl rows₁)).feeds
  | some row =>
    obtain ⟨hrow, rfl⟩ := seekFolderItem_some hseek
    have hquiet : ∀ r ∈ rows₁, OnChain rows₁ r.parentId row.folderItemId →
        r.folderItemId ∈ ids → r.status = 0 := by
      intro r hr hchain hmem
      by_contra hne
      have hup : OnChain rows₁ r.folderItemId row.folderItemId := .up hr hchain
      have hstatus := h.counted.above_ne_zero h.tree hup hr rfl hne hrow rfl
      have hdifferent : r.folderItemId ≠ row.folderItemId := by
        intro hsame
        rw [← hsame] at hchain
        exact h.tree.not_onChain_parent hr hchain
      exact (hwell before _ after hids (h.errorLeft hrow hstatus)).2 r.folderItemId hmem hdifferent
        (hup.of_feedsWithin h.within) (h.errorLeft hr hne)
    obtain ⟨rows₂, gone, hbelow, hswept⟩ := sweep_below (sweeps ids rows₁.length) le_rfl
      h.tree.rows hrow hquiet
    have htree₂ := hswept.folderTree h.tree
    have howes := hswept.owes h.tree h.counted hrow
    have habsent : ∀ r ∈ rows₂, r.folderItemId ≠ row.folderItemId := by
      intro r hr hsame
      have hgone := hswept.not_gone hr
      rw [hsame, hswept.listed _ (List.mem_singleton.mpr rfl)] at hgone
      cases hgone
    have hmem : row.folderItemId ∈ ids := by
      rw [hids]
      exact List.mem_append_right _ List.mem_cons_self
    by_cases hstatus : row.status = 0
    · rw [if_neg (not_not.mpr hstatus)] at howes
      refine ⟨rows₂, ⟨rows₁.length, fun fuel hfuel => ?_⟩,
        hleft htree₂ ((howes.root htree₂ (.inr rfl)).counted htree₂) hswept.within.feeds habsent⟩
      rw [deleteItemL, hseek]
      dsimp only
      rw [hbelow fuel hfuel, Option.bind_eq_bind, Option.bind_some]
      exact if_neg fun hboth => hboth.1 hstatus
    · rw [if_pos hstatus] at howes
      -- The item is in the folder of the first one, and the loop starts there.
      obtain ⟨row', hrow', hid', hparent', -⟩ := h.within row hrow
      have hparent : row.parentId = parentOfFirst rows ids := by
        rw [hparent']
        exact (hwell before _ after hids (h.errorLeft hrow hstatus)).1 row' hrow' hid'.symm
      have hparentFolder : row.parentId ≠ kRootFolderId →
          ∃ folder ∈ rows₂, folder.folderItemId = row.parentId ∧ folder.isFolder = true := by
        intro hne
        obtain ⟨folder, hfolder, hfolderId, hkind⟩ := h.tree.parents row hrow hne
        have hkept : gone folder.folderItemId = false := by
          by_contra hnot
          obtain ⟨c, hc, hchain⟩ := hswept.below _ (Bool.eq_true_of_not_eq_false hnot)
          rw [List.mem_singleton.mp hc, hfolderId] at hchain
          exact h.tree.not_onChain_parent hrow hchain
        obtain ⟨folder', hfolder', hfolderId', -, hkind', -⟩ := hswept.exists_row hfolder hkept
        exact ⟨folder', hfolder', hfolderId' ▸ hfolderId, hkind' ▸ hkind⟩
      have hchain : OnChain rows₂ row.parentId kRootFolderId := by
        by_cases hne : row.parentId = kRootFolderId
        · rw [hne]
          exact .self _
        · obtain ⟨folder, hfolder, hfolderId, -⟩ := hparentFolder hne
          rw [← hfolderId]
          exact htree₂.rooted folder hfolder
      obtain ⟨rows₃, ⟨n, hraise⟩, hshape, hsettled, hkept⟩ := raiseStatus_settles htree₂ hchain
        (.refl rows₂) howes hparentFolder fun r hr _ => htree₂.ne_root r hr
      have htree₃ := hshape.folderTree htree₂
      refine ⟨rows₃, ⟨max n rows₁.length, fun fuel hfuel => ?_⟩,
        hleft htree₃ (hsettled.counted htree₃) ?_ ?_⟩
      · rw [deleteItemL, hseek]
        dsimp only
        rw [hbelow fuel ((le_max_right _ _).trans hfuel), Option.bind_eq_bind, Option.bind_some,
          if_pos ⟨hstatus, hmem⟩, ← hparent]
        exact hraise fuel ((le_max_left _ _).trans hfuel)
      · exact (hshape.feedsWithin htree₂ fun r hr hfeed => hkept r hr (.inr hfeed)).trans
          hswept.within.feeds
      · intro r hr hsame
        obtain ⟨r₂, hr₂, hid₂, -⟩ := hshape.exists_row' hr
        exact habsent r₂ hr₂ (hid₂ ▸ hsame)

/-- The items of the list, one after the other. -/
theorem delete_run (htree : FolderTree rows) (hwell : DeletesWell rows ids)
    (hids : ids = before ++ after) (hexist : ∀ id ∈ after, ∃ row ∈ rows, row.folderItemId = id)
    (h : DeletedTo rows before rows₁) :
    ∃ rows', (∃ n, ∀ fuel, n ≤ fuel → after.foldlM (deleteItemL ids
        (folderItemDeleteHelperL ids fuel) fuel (parentOfFirst rows ids)) rows₁ = some rows') ∧
      DeletedTo rows ids rows' := by
  induction after generalizing before rows₁ with
  | nil =>
    rw [List.append_nil] at hids
    exact ⟨rows₁, ⟨0, fun _ _ => rfl⟩, hids ▸ h⟩
  | cons id after ih =>
    obtain ⟨rows₂, ⟨n, hrun⟩, h₂⟩ :=
      delete_step htree hwell hids (hexist id List.mem_cons_self) h
    obtain ⟨rows', ⟨n', hrun'⟩, h'⟩ := ih (by rw [hids, List.append_cons])
      (fun id' hid' => hexist id' (List.mem_cons_of_mem id hid')) h₂
    refine ⟨rows', ⟨max n n', fun fuel hfuel => ?_⟩, h'⟩
    rw [List.foldlM_cons, hrun fuel ((le_max_left _ _).trans hfuel), Option.bind_eq_bind,
      Option.bind_some]
    exact hrun' fuel ((le_max_right _ _).trans hfuel)

end List

/-- A deletion ends, with right statuses. -/
def DeletesRight (rows : List FolderListRow) (ids : List UInt16) : Prop :=
  ∃ rows', (∃ n, ∀ fuel, n ≤ fuel → folderItemDeleteL fuel ids rows = some rows') ∧ Counted rows'

theorem SameStatus.counted {rows rows' : List FolderListRow} (h : SameStatus rows rows')
    (htree : FolderTree rows) (hcounted : Counted rows) : Counted rows' := by
  have howes : Owes kRootFolderId kRootFolderId 0 rows := by
    intro row hrow hfolder
    have hcount := hcounted row hrow hfolder
    rw [ite_self, errorsBut_root htree]
    omega
  exact (h.owes howes).counted (h.shape.folderTree htree)

theorem deletesRight_of_deletesWell {rows : List FolderListRow} (htree : FolderTree rows)
    (hcounted : Counted rows) {ids : List UInt16}
    (hexist : ∀ id ∈ ids, ∃ row ∈ rows, row.folderItemId = id) (hwell : DeletesWell rows ids) :
    DeletesRight rows ids := by
  by_cases hnil : ids = []
  · subst hnil
    refine ⟨rows, ⟨1, fun fuel hfuel => ?_⟩, hcounted⟩
    obtain ⟨fuel, rfl⟩ := Nat.exists_eq_add_of_le' hfuel
    rw [folderItemDeleteL, folderItemDeleteHelperL, if_pos rfl]
  · have hstart : DeletedTo rows [] rows :=
      ⟨htree, hcounted, (within_of_subset (List.Subset.refl rows)).feeds, fun _ _ _ h => by cases h⟩
    obtain ⟨rows', ⟨n, hrun⟩, h'⟩ := delete_run htree hwell rfl hexist hstart
    refine ⟨_, ⟨n + 1, fun fuel hfuel => ?_⟩, (sameStatus_adjust rows'
      (parentOfFirst rows ids)).counted h'.tree h'.counted⟩
    obtain ⟨fuel, rfl⟩ := Nat.exists_eq_add_of_le' (Nat.le_of_add_left_le hfuel)
    rw [folderItemDeleteL, folderItemDeleteHelperL, if_neg hnil]
    dsimp only
    rw [hrun fuel (Nat.le_of_add_le_add_right hfuel)]
    rfl

end SymbianWeb.Feeds
