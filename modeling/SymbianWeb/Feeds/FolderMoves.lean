import SymbianWeb.Feeds.FolderDeletion

/-!
# Moving items of the folder tree

An item that is moved does not count until the folders above its old place are right; then the
folders above its new place take it in. Both loops are right if they start at the folder of the item
and at its new folder. The first one starts at the folder of the first item of the list
(`statuses_kept`).
-/

set_option autoImplicit false

namespace SymbianWeb.Feeds

/-! ## One row is moved -/

section Row

variable {rows : List FolderListRow} {aNewParent : UInt16} {i : Nat}

theorem mem_moveRow {id : UInt16} {row' : FolderListRow} (h : row' ∈ moveRow rows id aNewParent i) :
    ∃ row ∈ rows, row'.folderItemId = row.folderItemId ∧ row'.isFolder = row.isFolder ∧
      row'.status = row.status ∧
      row'.parentId = if row.folderItemId = id then aNewParent else row.parentId := by
  obtain ⟨row, hrow, rfl⟩ := List.mem_map.mp h
  refine ⟨row, hrow, ?_⟩
  split <;> exact ⟨rfl, rfl, rfl, rfl⟩

theorem exists_moveRow (id aNewParent : UInt16) (i : Nat) {row : FolderListRow} (h : row ∈ rows) :
    ∃ row' ∈ moveRow rows id aNewParent i, row'.folderItemId = row.folderItemId ∧
      row'.isFolder = row.isFolder ∧ row'.status = row.status ∧
      row'.parentId = if row.folderItemId = id then aNewParent else row.parentId := by
  refine ⟨_, List.mem_map_of_mem h, ?_⟩
  split <;> exact ⟨rfl, rfl, rfl, rfl⟩

theorem ids_moveRow (id : UInt16) :
    (moveRow rows id aNewParent i).map (·.folderItemId) = rows.map (·.folderItemId) := by
  rw [moveRow, List.map_map]
  refine List.map_congr_left fun row _ => ?_
  rw [Function.comp_apply]
  split <;> rfl

/-- A chain that does not come to the item stays. -/
theorem OnChain.not_moved {id a b : UInt16} (h : OnChain rows a b) (hnot : ¬ OnChain rows a id) :
    OnChain (moveRow rows id aNewParent i) a b := by
  induction h with
  | self => exact .self _
  | @up row b hrow _ ih =>
    have hne : row.folderItemId ≠ id := by
      rintro rfl
      exact hnot (.self _)
    obtain ⟨row', hrow', hid, -, -, hparent⟩ :=
      exists_moveRow id aNewParent i hrow
    rw [if_neg hne] at hparent
    rw [← hid]
    refine .up hrow' (hparent ▸ ih fun hup => hnot (.up hrow hup))

/-- A chain to the item was there before. -/
theorem OnChain.of_moveRow {id a b : UInt16} (h : OnChain (moveRow rows id aNewParent i) a b)
    (hb : b = id) : OnChain rows a b := by
  induction h with
  | self => exact .self _
  | @up row' b hrow' _ ih =>
    obtain ⟨row, hrow, hid, -, -, hparent⟩ := mem_moveRow hrow'
    rw [hid]
    by_cases hsame : row.folderItemId = id
    · rw [hsame, hb]
      exact .self _
    · rw [if_neg hsame] at hparent
      exact .up hrow (hparent ▸ ih hb)

theorem folderTree_moveRow (htree : FolderTree rows) {row : FolderListRow}
    (htarget : aNewParent ≠ kRootFolderId →
      ∃ folder ∈ rows, folder.folderItemId = aNewParent ∧ folder.isFolder = true)
    (hnot : ¬ OnChain rows aNewParent row.folderItemId) :
    FolderTree (moveRow rows row.folderItemId aNewParent i) where
  nodup := by
    rw [ids_moveRow]
    exact htree.nodup
  ne_root row' hrow' := by
    obtain ⟨row₀, hrow₀, hid, -⟩ := mem_moveRow hrow'
    rw [hid]
    exact htree.ne_root row₀ hrow₀
  parents row' hrow' hne := by
    obtain ⟨row₀, hrow₀, -, -, -, hparent⟩ := mem_moveRow hrow'
    have hold : ∃ parent ∈ rows, parent.folderItemId = row'.parentId ∧ parent.isFolder = true := by
      rw [hparent] at hne ⊢
      split at hne
      next hsame =>
        rw [if_pos hsame]
        exact htarget hne
      next hother =>
        rw [if_neg hother]
        exact htree.parents row₀ hrow₀ hne
    obtain ⟨parent, hmem, hid, hfolder⟩ := hold
    obtain ⟨parent', hmem', hid', hfolder', -⟩ :=
      exists_moveRow row.folderItemId aNewParent i hmem
    exact ⟨parent', hmem', hid'.trans hid, hfolder'.trans hfolder⟩
  rooted row' hrow' := by
    have htop : OnChain (moveRow rows row.folderItemId aNewParent i) aNewParent kRootFolderId := by
      by_cases hroot : aNewParent = kRootFolderId
      · rw [hroot]
        exact .self _
      · obtain ⟨folder, hfolder, hid, -⟩ := htarget hroot
        exact OnChain.not_moved (hid ▸ htree.rooted folder hfolder) hnot
    obtain ⟨row₀, hrow₀, hid, -⟩ := mem_moveRow hrow'
    have hrooted := htree.rooted row₀ hrow₀
    rw [hid]
    generalize row₀.folderItemId = id₀ at hrooted
    generalize kRootFolderId = root at htop hrooted
    induction hrooted with
    | self => exact .self _
    | @up above root habove _ ih =>
      obtain ⟨above', habove', hid', -, -, hparent'⟩ :=
        exists_moveRow row.folderItemId aNewParent i habove
      rw [← hid']
      refine .up habove' ?_
      rw [hparent']
      split
      · exact htop
      · exact ih htop

theorem errorsBut_moveRow (id f : UInt16) :
    errorsBut id (moveRow rows id aNewParent i) f = errorsBut id rows f := by
  rw [errorsBut, errorsBut, moveRow, List.countP_map]
  refine List.countP_congr fun row _ => ?_
  rw [Function.comp_apply]
  split
  next hsame => simp [hsame]
  next => rfl

/-- What a folder counts, with and without an item. -/
theorem errorsBelow_eq_errorsBut (htree : FolderTree rows) {row : FolderListRow} (hrow : row ∈ rows)
    (f : UInt16) : errorsBelow rows f = errorsBut row.folderItemId rows f +
      if row.parentId = f ∧ row.status ≠ 0 then 1 else 0 := by
  rw [errorsBelow, countP_eq_others htree hrow, errorsBut]
  simp only [decide_eq_true_eq]
  refine congrArg (· + _) (List.countP_congr fun r _ => ?_)
  simp [and_assoc]

end Row

/-! ## One item of the list -/

/-- A feed with a status, at or below an item along folders that have not been moved yet. -/
def ErrorCarried (rows : List FolderListRow) (moved : List UInt16) (id : UInt16) : Prop :=
  ∃ feed ∈ rows, feed.isFolder = false ∧ feed.status ≠ 0 ∧
    OnChain (rows.filter fun row => row.folderItemId ∉ moved) feed.folderItemId id

/-- The target is the root or a folder and no item of the list, and an item that takes a feed with a
status along is in the folder of the first item. -/
structure MovesWell (rows : List FolderListRow) (ids : List UInt16) (aNewParent : UInt16) :
    Prop where
  target : aNewParent ≠ kRootFolderId →
    ∃ folder ∈ rows, folder.folderItemId = aNewParent ∧ folder.isFolder = true
  not_listed : aNewParent ∉ ids
  same_folder : ∀ before id after, ids = before ++ id :: after → ErrorCarried rows before id →
    ∀ row ∈ rows, row.folderItemId = id → row.parentId = parentOfFirst rows ids

/-- A tree with right statuses, some items of which have been moved. -/
structure MovedTo (rows : List FolderListRow) (moved : List UInt16) (aNewParent : UInt16)
    (rows' : List FolderListRow) : Prop where
  tree : FolderTree rows'
  counted : Counted rows'
  origin : ∀ row' ∈ rows', ∃ row ∈ rows, row'.folderItemId = row.folderItemId ∧
    row'.isFolder = row.isFolder ∧ (row.isFolder = false → row'.status = row.status) ∧
    row'.parentId = if row.folderItemId ∈ moved then aNewParent else row.parentId
  kept : ∀ row ∈ rows, ∃ row' ∈ rows', row'.folderItemId = row.folderItemId ∧
    row'.isFolder = row.isFolder

section Item

variable {rows rows₁ : List FolderListRow} {moved ids : List UInt16} {aNewParent : UInt16}

/-- The folders above the target stay where they are. -/
theorem MovedTo.not_onChain (h : MovedTo rows moved aNewParent rows₁) (hmoved : moved ⊆ ids)
    {a b : UInt16} (hnot : ∀ id ∈ ids, ¬ OnChain rows a id) (hb : b ∈ ids) :
    ¬ OnChain rows₁ a b := by
  intro hchain
  induction hchain with
  | self => exact hnot _ hb (.self _)
  | @up row b hrow _ ih =>
    obtain ⟨row₀, hrow₀, hid, -, -, hparent⟩ := h.origin row hrow
    rw [hid] at hnot
    have hstill : row₀.folderItemId ∉ moved := fun hmem => hnot _ (hmoved hmem) (.self _)
    rw [if_neg hstill] at hparent
    refine ih (fun id hid' hup => ?_) hb
    rw [hparent] at hup
    exact hnot id hid' (.up hrow₀ hup)

/-- A status of an item that has not been moved is that of a feed it takes along. -/
theorem MovedTo.errorCarried (h : MovedTo rows moved aNewParent rows₁) {row : FolderListRow}
    (hrow : row ∈ rows₁) (hstatus : row.status ≠ 0)
    (hnot : ¬ OnChain rows₁ aNewParent row.folderItemId) :
    ErrorCarried rows moved row.folderItemId := by
  obtain ⟨feed, hfeed, hkind, hne, hchain⟩ := h.counted.exists_feed h.tree hrow hstatus
  obtain ⟨feed₀, hfeed₀, hid, hkind₀, hstatus₀, -⟩ := h.origin feed hfeed
  have hfeedKind : feed₀.isFolder = false := hkind₀ ▸ hkind
  refine ⟨feed₀, hfeed₀, hfeedKind, hstatus₀ hfeedKind ▸ hne, ?_⟩
  rw [← hid]
  generalize feed.folderItemId = a at hchain
  generalize row.folderItemId = id at hchain hnot
  induction hchain with
  | self => exact .self _
  | @up above b habove hup ih =>
    obtain ⟨above₀, habove₀, hid', -, -, hparent⟩ := h.origin above habove
    have hstill : above₀.folderItemId ∉ moved := by
      intro hmem
      rw [if_pos hmem] at hparent
      rw [hparent] at hup
      exact hnot hup
    rw [if_neg hstill] at hparent
    rw [hid']
    exact .up (List.mem_filter.mpr ⟨habove₀, decide_eq_true hstill⟩) (hparent ▸ ih hnot)

/-- The item is at its new place, and the folders above its old one do not know yet. -/
theorem owes_moveRow (htree : FolderTree rows) (hcounted : Counted rows) {row : FolderListRow}
    (hrow : row ∈ rows) (hstatus : row.status ≠ 0) (i : Nat) :
    Owes row.folderItemId row.parentId (-1) (moveRow rows row.folderItemId aNewParent i) := by
  intro folder' hfolder' hisFolder
  obtain ⟨folder, hfolder, hid, hkind, hsame, -⟩ := mem_moveRow hfolder'
  have hcount := hcounted folder hfolder (hkind ▸ hisFolder)
  rw [errorsBelow_eq_errorsBut htree hrow] at hcount
  rw [errorsBut_moveRow, hid, hsame, hcount]
  by_cases hparent : row.parentId = folder.folderItemId
  · simp [hparent, hstatus]
  · simp [hparent, Ne.symm hparent]

/-- Now they know, and the folders above the new place do not. -/
theorem Owes.taken (htree : FolderTree rows) {row : FolderListRow} (hrow : row ∈ rows)
    (hstatus : row.status ≠ 0) (howes : Owes row.folderItemId kRootFolderId 0 rows) :
    Owes kRootFolderId row.parentId 1 rows := by
  intro folder hfolder hisFolder
  have hcount := howes folder hfolder hisFolder
  rw [ite_self] at hcount
  rw [errorsBut_root htree, errorsBelow_eq_errorsBut htree hrow]
  by_cases hparent : row.parentId = folder.folderItemId
  · simp [hparent, hstatus]
    omega
  · simp [hparent, Ne.symm hparent]
    omega

/-- An item without a status moves without a change. -/
theorem counted_moveRow (htree : FolderTree rows) (hcounted : Counted rows) {row : FolderListRow}
    (hrow : row ∈ rows) (hstatus : row.status = 0) {i : Nat}
    (htree' : FolderTree (moveRow rows row.folderItemId aNewParent i)) :
    Counted (moveRow rows row.folderItemId aNewParent i) := by
  intro folder' hfolder' hisFolder
  obtain ⟨folder, hfolder, hid, hkind, hsame, -⟩ := mem_moveRow hfolder'
  obtain ⟨row', hrow', hid', -, hstatus', -⟩ := exists_moveRow row.folderItemId aNewParent i hrow
  have hcount := hcounted folder hfolder (hkind ▸ hisFolder)
  have hzero : ¬ (row'.parentId = folder.folderItemId ∧ row'.status ≠ 0) :=
    fun h => h.2 (hstatus'.trans hstatus)
  have hzero₀ : ¬ (row.parentId = folder.folderItemId ∧ row.status ≠ 0) := fun h => h.2 hstatus
  rw [errorsBelow_eq_errorsBut htree hrow, if_neg hzero₀] at hcount
  rw [errorsBelow_eq_errorsBut htree' hrow', hid', errorsBut_moveRow, hid, if_neg hzero, hsame]
  exact hcount

end Item

/-! ## The whole list -/

section List

variable {rows rows₁ : List FolderListRow} {ids before after : List UInt16} {aNewParent : UInt16}

/-- A table in which one more item has been moved. -/
theorem MovedTo.snoc (h : MovedTo rows before aNewParent rows₁) {id : UInt16} {i : Nat}
    {rows' : List FolderListRow} (htree : FolderTree (moveRow rows₁ id aNewParent i))
    (hshape : SameShape (moveRow rows₁ id aNewParent i) rows')
    (hfeeds : ∀ row ∈ moveRow rows₁ id aNewParent i, row.isFolder = false → row ∈ rows')
    (hcounted : Counted rows') : MovedTo rows (before ++ [id]) aNewParent rows' where
  tree := hshape.folderTree htree
  counted := hcounted
  origin row' hrow' := by
    obtain ⟨row₂, hrow₂, hid₂, hparent₂, hkind₂, hstatus₂⟩ :=
      hshape.feedsWithin htree hfeeds row' hrow'
    obtain ⟨row₁, hrow₁, hid₁, hkind₁, hstatus₁, hparent₁⟩ := mem_moveRow hrow₂
    obtain ⟨row, hrow, hid, hkind, hstatus, hparent⟩ := h.origin row₁ hrow₁
    refine ⟨row, hrow, hid₂.trans (hid₁.trans hid), hkind₂.trans (hkind₁.trans hkind), ?_, ?_⟩
    · intro hfeed
      rw [hstatus₂ (hkind₁.trans (hkind.trans hfeed)), hstatus₁, hstatus hfeed]
    · rw [hparent₂, hparent₁, hparent, hid]
      by_cases hsame : row.folderItemId = id
      · simp [hsame]
      · simp [hsame]
  kept row hrow := by
    obtain ⟨row₁, hrow₁, hid, hkind⟩ := h.kept row hrow
    obtain ⟨row₂, hrow₂, hid', hkind', -⟩ := exists_moveRow id aNewParent i hrow₁
    obtain ⟨row₃, hrow₃, hid'', -, hkind''⟩ := hshape.exists_row hrow₂
    exact ⟨row₃, hrow₃, hid''.trans (hid'.trans hid), hkind''.trans (hkind'.trans hkind)⟩

/-- What a chain begins with, if its folder is there. -/
theorem FolderTree.onChain_root {rows : List FolderListRow} (h : FolderTree rows) {id : UInt16}
    (hfolder : id ≠ kRootFolderId →
      ∃ folder ∈ rows, folder.folderItemId = id ∧ folder.isFolder = true) :
    OnChain rows id kRootFolderId := by
  by_cases hroot : id = kRootFolderId
  · rw [hroot]
    exact .self _
  · obtain ⟨folder, hmem, rfl, -⟩ := hfolder hroot
    exact h.rooted folder hmem

/-- One item of the list. -/
theorem move_step (hnodup : ids.Nodup) {id : UInt16} (hids : ids = before ++ id :: after)
    (hexist : ∃ row ∈ rows, row.folderItemId = id)
    (hnot : ∀ id ∈ ids, ¬ OnChain rows aNewParent id) (hwell : MovesWell rows ids aNewParent)
    (h : MovedTo rows before aNewParent rows₁) (i : Nat) :
    ∃ rows', (∃ n, ∀ fuel, n ≤ fuel → moveItemL fuel (parentOfFirst rows ids) aNewParent rows₁
        (id, i) = some rows') ∧ MovedTo rows (before ++ [id]) aNewParent rows' := by
  have hmem : id ∈ ids := by
    rw [hids]
    exact List.mem_append_right _ List.mem_cons_self
  have hnot₁ : ¬ OnChain rows₁ aNewParent id :=
    h.not_onChain (hids ▸ List.subset_append_left _ _) hnot hmem
  have htarget₁ : aNewParent ≠ kRootFolderId →
      ∃ folder ∈ rows₁, folder.folderItemId = aNewParent ∧ folder.isFolder = true := by
    intro hroot
    obtain ⟨folder, hfolder, hid, hkind⟩ := hwell.target hroot
    obtain ⟨folder', hfolder', hid', hkind'⟩ := h.kept folder hfolder
    exact ⟨folder', hfolder', hid'.trans hid, hkind'.trans hkind⟩
  cases hseek : seekFolderItem rows₁ id with
  | none =>
    obtain ⟨row, hrow, hid⟩ := hexist
    obtain ⟨row', hrow', hid', -⟩ := h.kept row hrow
    exact absurd (hid'.trans hid) (seekFolderItem_none hseek row' hrow')
  | some row =>
    obtain ⟨hrow, rfl⟩ := seekFolderItem_some hseek
    have htree₂ : FolderTree (moveRow rows₁ row.folderItemId aNewParent i) :=
      folderTree_moveRow h.tree htarget₁ hnot₁
    by_cases hstatus : row.status = 0
    · refine ⟨_, ⟨0, fun fuel _ => ?_⟩, h.snoc htree₂ (.refl _) (fun _ hr _ => hr)
        (counted_moveRow h.tree h.counted hrow hstatus htree₂)⟩
      rw [moveItemL, hseek]
      exact if_neg (not_not.mpr hstatus)
    · obtain ⟨row₀, hrow₀, hid₀, -, -, hparent₀⟩ := h.origin row hrow
      have hparent : row.parentId = parentOfFirst rows ids := by
        have hfresh : row₀.folderItemId ∉ before := by
          rw [← hid₀]
          intro hbefore
          rw [hids, List.nodup_append] at hnodup
          exact hnodup.2.2 _ hbefore _ List.mem_cons_self rfl
        rw [hparent₀, if_neg hfresh]
        exact hwell.same_folder before _ after hids (h.errorCarried hrow hstatus hnot₁) row₀ hrow₀
          hid₀.symm
      -- The folder of the item, which is not the item itself, is still there.
      have hfolder : row.parentId ≠ kRootFolderId → ∃ folder ∈ moveRow rows₁ row.folderItemId
          aNewParent i, folder.folderItemId = row.parentId ∧ folder.isFolder = true := by
        intro hroot
        obtain ⟨folder, hfolder, hid, hkind⟩ := h.tree.parents row hrow hroot
        obtain ⟨folder', hfolder', hid', hkind', -⟩ :=
          exists_moveRow row.folderItemId aNewParent i hfolder
        exact ⟨folder', hfolder', hid'.trans hid, hkind'.trans hkind⟩
      obtain ⟨rows₃, ⟨n, hraise⟩, hshape₃, howes₃, hkept₃⟩ := raiseStatus_settles htree₂
        (htree₂.onChain_root hfolder) (.refl _) (owes_moveRow h.tree h.counted hrow hstatus i)
        hfolder fun r _ hup hid => by
          rw [hid] at hup
          exact h.tree.not_onChain_parent hrow (hup.of_moveRow rfl)
      have htree₃ := hshape₃.folderTree htree₂
      obtain ⟨row', hrow', hid', -, hstatus', hparent'⟩ :=
        exists_moveRow row.folderItemId aNewParent i hrow
      rw [if_pos rfl] at hparent'
      have hrow₃ : row' ∈ rows₃ := hkept₃ row' hrow' (.inl hid')
      have hstatus₃ : row'.status ≠ 0 := hstatus' ▸ hstatus
      rw [← hid'] at howes₃
      have howes₄ := howes₃.taken htree₃ hrow₃ hstatus₃
      rw [hparent'] at howes₄
      have htarget₃ : aNewParent ≠ kRootFolderId →
          ∃ folder ∈ rows₃, folder.folderItemId = aNewParent ∧ folder.isFolder = true := by
        intro hroot
        obtain ⟨folder, hfolder, hid, hkind⟩ := htree₃.parents row' hrow₃ (hparent' ▸ hroot)
        exact ⟨folder, hfolder, hid.trans hparent', hkind⟩
      have herror : 1 ≤ errorsBut kRootFolderId rows₃ aNewParent := by
        rw [errorsBut_root htree₃]
        exact List.countP_pos_iff.mpr ⟨row', hrow₃, by simp [hparent', hstatus₃]⟩
      obtain ⟨rows₄, ⟨n', hlower⟩, hshape₄, howes, hkept₄⟩ := lowerStatus_settles htree₃
        (htree₃.onChain_root htarget₃) (.refl _) howes₄ htarget₃ (fun _ => herror)
        fun r hr _ => htree₃.ne_root r hr
      have htree₄ := hshape₄.folderTree htree₃
      refine ⟨rows₄, ⟨max n n', fun fuel hfuel => ?_⟩, h.snoc htree₂ (hshape₃.trans hshape₄)
        (fun r hr hfeed => hkept₄ r (hkept₃ r hr (.inr hfeed)) (.inr hfeed))
        (howes.counted htree₄)⟩
      have hraised : raiseStatus fuel row.parentId (moveRow rows₁ row.folderItemId aNewParent i) =
          some rows₃ := hraise fuel ((le_max_left _ _).trans hfuel)
      rw [moveItemL, hseek]
      dsimp only
      rw [if_pos hstatus, ← hparent, hraised, Option.bind_eq_bind, Option.bind_some]
      exact hlower fuel ((le_max_right _ _).trans hfuel)

/-- The items of the list, one after the other. -/
theorem move_run (hnodup : ids.Nodup) (hids : ids = before ++ after)
    (hexist : ∀ id ∈ after, ∃ row ∈ rows, row.folderItemId = id)
    (hnot : ∀ id ∈ ids, ¬ OnChain rows aNewParent id) (hwell : MovesWell rows ids aNewParent)
    (h : MovedTo rows before aNewParent rows₁) (i : Nat) :
    ∃ rows', (∃ n, ∀ fuel, n ≤ fuel → (after.zipIdx i).foldlM
        (moveItemL fuel (parentOfFirst rows ids) aNewParent) rows₁ = some rows') ∧
      MovedTo rows ids aNewParent rows' := by
  induction after generalizing before rows₁ i with
  | nil =>
    rw [List.append_nil] at hids
    exact ⟨rows₁, ⟨0, fun _ _ => rfl⟩, hids ▸ h⟩
  | cons id after ih =>
    obtain ⟨rows₂, ⟨n, hrun⟩, h₂⟩ :=
      move_step hnodup hids (hexist id List.mem_cons_self) hnot hwell h i
    obtain ⟨rows', ⟨n', hrun'⟩, h'⟩ := ih (by rw [hids, List.append_cons])
      (fun id' hid' => hexist id' (List.mem_cons_of_mem id hid')) h₂ (i + 1)
    refine ⟨rows', ⟨max n n', fun fuel hfuel => ?_⟩, h'⟩
    rw [List.zipIdx_cons, List.foldlM_cons, hrun fuel ((le_max_left _ _).trans hfuel),
      Option.bind_eq_bind, Option.bind_some]
    exact hrun' fuel ((le_max_right _ _).trans hfuel)

end List

/-- A move ends, with right statuses. -/
def MovesRight (rows : List FolderListRow) (ids : List UInt16) (aNewParent : UInt16) : Prop :=
  ∃ rows', (∃ n, ∀ fuel, n ≤ fuel → folderItemMoveToL fuel ids aNewParent rows = some rows') ∧
    Counted rows'

/-- Another order of the siblings is a start. -/
theorem SameStatus.movedTo {rows rows₁ : List FolderListRow} (h : SameStatus rows rows₁)
    (htree : FolderTree rows) (hcounted : Counted rows) (aNewParent : UInt16) :
    MovedTo rows [] aNewParent rows₁ where
  tree := h.shape.folderTree htree
  counted := h.counted htree hcounted
  origin row₁ hrow₁ := by
    obtain ⟨row, hrow, hid, hparent, hkind, hstatus⟩ := h.within row₁ hrow₁
    exact ⟨row, hrow, hid, hkind, fun _ => hstatus, hparent⟩
  kept row hrow := by
    obtain ⟨row₁, hrow₁, hid, -, hkind, -⟩ := h.within' row hrow
    exact ⟨row₁, hrow₁, hid.symm, hkind.symm⟩

theorem movesRight_of_movesWell {rows : List FolderListRow} (htree : FolderTree rows)
    (hcounted : Counted rows) {ids : List UInt16} (hnodup : ids.Nodup)
    (hexist : ∀ id ∈ ids, ∃ row ∈ rows, row.folderItemId = id) {aNewParent : UInt16}
    (hbelow : ∀ id ∈ ids, OnChain rows aNewParent id → aNewParent = id)
    (hwell : MovesWell rows ids aNewParent) : MovesRight rows ids aNewParent := by
  by_cases hnil : ids = []
  · subst hnil
    exact ⟨rows, ⟨0, fun fuel _ => by rw [folderItemMoveToL, if_pos rfl]⟩, hcounted⟩
  · have hnot : ∀ id ∈ ids, ¬ OnChain rows aNewParent id := by
      intro id hid hchain
      rw [← hbelow id hid hchain] at hid
      exact hwell.not_listed hid
    have hole : ∃ hole, SameStatus rows hole ∧ ∀ fuel, folderItemMoveToL fuel ids aNewParent rows =
        (ids.zipIdx.foldlM (moveItemL fuel (parentOfFirst rows ids) aNewParent) hole).map
          (adjustSiblingIndexesL · (parentOfFirst rows ids)) := by
      refine ⟨if (ids.head?.bind (seekFolderItem rows)).isSome then
        createSiblingIndexHoleL rows aNewParent 0 ids.length else rows, ?_, fun fuel => ?_⟩
      · split
        · exact sameStatus_hole rows aNewParent 0 ids.length
        · exact .refl rows
      · rw [folderItemMoveToL, if_neg hnil, Option.map_eq_bind]
        rfl
    obtain ⟨hole, hsame, heq⟩ := hole
    obtain ⟨rows', ⟨n, hrun⟩, h'⟩ := move_run hnodup rfl hexist hnot hwell
      (hsame.movedTo htree hcounted aNewParent) 0
    refine ⟨_, ⟨n, fun fuel hfuel => ?_⟩, (sameStatus_adjust rows'
      (parentOfFirst rows ids)).counted h'.tree h'.counted⟩
    rw [heq, hrun fuel hfuel, Option.map_some]

/-- A folder and a feed in it, whose last update failed. -/
def folderAndFeed : List FolderListRow :=
  [{ folderListId := 0, folderItemId := 1, parentId := kRootFolderId, siblingOrder := 0,
     isFolder := true, feedId := 0, title := [], status := -1 },
   { folderListId := 0, folderItemId := 2, parentId := 1, siblingOrder := 0,
     isFolder := false, feedId := 1, title := [], status := 404 }]

theorem folderTree_folderAndFeed : FolderTree folderAndFeed where
  nodup := by decide
  ne_root := by decide
  parents := by decide
  rooted := by
    have hfirst : folderAndFeed[0] ∈ folderAndFeed := List.mem_cons_self
    have hfolder : OnChain folderAndFeed 1 kRootFolderId := OnChain.up hfirst (.self _)
    intro row hrow
    rcases List.mem_pair.mp hrow with rfl | rfl
    · exact hfolder
    · exact .up (List.mem_of_mem_tail List.mem_cons_self) hfolder

theorem counted_folderAndFeed : Counted folderAndFeed := by
  intro row hrow hfolder
  rcases List.mem_pair.mp hrow with rfl | rfl
  · rfl
  · cases hfolder

theorem exists_folderAndFeed : ∀ id ∈ ([1, 2] : List UInt16),
    ∃ row ∈ folderAndFeed, row.folderItemId = id := by
  intro id hid
  rcases List.mem_pair.mp hid with rfl | rfl
  · exact ⟨folderAndFeed[0], List.mem_cons_self, rfl⟩
  · exact ⟨folderAndFeed[1], List.mem_cons_of_mem _ List.mem_cons_self, rfl⟩

end SymbianWeb.Feeds
