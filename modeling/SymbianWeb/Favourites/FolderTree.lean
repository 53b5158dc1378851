import SymbianWeb.Favourites.RowChanges
import Mathlib.Data.List.Nodup

/-!
# The tree of folders

The rows of a database form a tree of two levels under the root folder (`FolderTree`). With the
counter above all uids, and with the record numbers that bookmarks use (`Intact`), this is kept by
inserting a row under a fresh uid, by changing rows in place, and by deleting items and emptied
folders.
-/

set_option autoImplicit false

namespace SymbianWeb.Favourites.Store

/-- The root is there, every other row is in the root or in a folder, folders are in the root, no
row has the null uid, and no two rows have the same uid. -/
structure FolderTree (rows : List Row) : Prop where
  root : ∃ r ∈ rows, r.uid = kFavouritesRootUid ∧ r.type = .folder
  parents : ∀ r ∈ rows, r.uid ≠ kFavouritesRootUid →
    ∃ f ∈ rows, f.uid = r.parentFolder ∧ f.type = .folder
  folders : ∀ r ∈ rows, r.type = .folder → r.uid ≠ kFavouritesRootUid →
    r.parentFolder = kFavouritesRootUid
  not_null : ∀ r ∈ rows, r.uid ≠ kFavouritesNullUid
  nodup : (rows.map (·.uid)).Nodup

/-- A folder tree with counters that are ahead of what they count. -/
structure Intact (rows : List Row) (counter : Int) (nextRecord : Nat) : Prop where
  tree : FolderTree rows
  root_parent : ∀ r ∈ rows, r.uid = kFavouritesRootUid → r.parentFolder = kFavouritesNullUid
  counter_pos : 0 < counter
  uid_lt : ∀ r ∈ rows, r.uid < counter
  nodup : (rows.map (·.record)).Nodup
  record_lt : ∀ r ∈ rows, r.record < nextRecord

def Table.Intact (t : Table) : Prop := Store.Intact t.rows t.counter t.nextRecord

def Stored.Intact (s : Stored) : Prop := Store.Intact s.rows s.counter s.nextRecord

/-! ## Order and membership -/

theorem FolderTree.perm {rows rows' : List Row} (hperm : rows.Perm rows') (h : FolderTree rows) :
    FolderTree rows' := by
  have hmem : ∀ r, r ∈ rows' ↔ r ∈ rows := fun r => hperm.mem_iff.symm
  refine ⟨?_, ?_, ?_, ?_, (hperm.map _).nodup_iff.mp h.nodup⟩
  · obtain ⟨r, hr, hroot⟩ := h.root
    exact ⟨r, (hmem r).mpr hr, hroot⟩
  · intro r hr huid
    obtain ⟨f, hf, hfolder⟩ := h.parents r ((hmem r).mp hr) huid
    exact ⟨f, (hmem f).mpr hf, hfolder⟩
  · exact fun r hr => h.folders r ((hmem r).mp hr)
  · exact fun r hr => h.not_null r ((hmem r).mp hr)

section

variable {rows rows' others : List Row} {counter counter' : Int} {nextRecord nextRecord' : Nat}
  {r r' : Row}

theorem Intact.perm (hperm : rows.Perm rows') (h : Intact rows counter nextRecord) :
    Intact rows' counter nextRecord :=
  ⟨h.tree.perm hperm, fun r hr => h.root_parent r (hperm.mem_iff.mpr hr), h.counter_pos,
    fun r hr => h.uid_lt r (hperm.mem_iff.mpr hr), (hperm.map _).nodup_iff.mp h.nodup,
    fun r hr => h.record_lt r (hperm.mem_iff.mpr hr)⟩

/-- The counters may go on. -/
theorem Intact.mono (h : Intact rows counter nextRecord) (hcounter : counter ≤ counter')
    (hnext : nextRecord ≤ nextRecord') : Intact rows counter' nextRecord' :=
  ⟨h.tree, h.root_parent, h.counter_pos.trans_le hcounter,
    fun r hr => (h.uid_lt r hr).trans_le hcounter, h.nodup,
    fun r hr => (h.record_lt r hr).trans_le hnext⟩

/-- Rows with the same uid are the same. -/
theorem FolderTree.eq_of_uid (h : FolderTree rows) (hr : r ∈ rows) (hr' : r' ∈ rows)
    (huid : r.uid = r'.uid) : r = r' :=
  List.inj_on_of_nodup_map h.nodup hr hr' huid

/-- The root is a folder. -/
theorem FolderTree.ne_root_of_item (h : FolderTree rows) (hr : r ∈ rows) (hitem : r.type = .item) :
    r.uid ≠ kFavouritesRootUid := by
  obtain ⟨root, hroot, huid, hfolder⟩ := h.root
  intro heq
  have hsame := h.eq_of_uid hr hroot (heq.trans huid.symm)
  rw [hsame, hfolder] at hitem
  cases hitem

/-! ## Changing a row -/

/-- A folder with a given uid is still there when a row is changed that keeps its uid and type. -/
theorem exists_folder_of_update {uid : Int} (huid : r'.uid = r.uid) (htype : r'.type = r.type)
    (h : ∃ f ∈ r :: others, f.uid = uid ∧ f.type = .folder) :
    ∃ f ∈ r' :: others, f.uid = uid ∧ f.type = .folder := by
  obtain ⟨f, hf, hfuid, hfolder⟩ := h
  rcases List.mem_cons.mp hf with rfl | hf
  · exact ⟨r', List.mem_cons_self, huid.trans hfuid, htype.trans hfolder⟩
  · exact ⟨f, List.mem_cons_of_mem r' hf, hfuid, hfolder⟩

theorem Intact.update (h : Intact (r :: others) counter nextRecord)
    (hrecord : r'.record = r.record) (huid : r'.uid = r.uid) (htype : r'.type = r.type)
    (hroot : r.uid = kFavouritesRootUid → r'.parentFolder = r.parentFolder)
    (hparent : r.uid ≠ kFavouritesRootUid →
      ∃ f ∈ r :: others, f.uid = r'.parentFolder ∧ f.type = .folder)
    (hfolder : r.type = .folder → r.uid ≠ kFavouritesRootUid →
      r'.parentFolder = kFavouritesRootUid) :
    Intact (r' :: others) counter nextRecord := by
  have huids : (r' :: others).map (·.uid) = (r :: others).map (·.uid) := by
    simp [huid]
  have hrecords : (r' :: others).map (·.record) = (r :: others).map (·.record) := by
    simp [hrecord]
  refine ⟨⟨?_, ?_, ?_, ?_, ?_⟩, ?_, h.counter_pos, ?_, ?_, ?_⟩
  · exact exists_folder_of_update huid htype h.tree.root
  · intro x hx hne
    apply exists_folder_of_update huid htype
    rcases List.mem_cons.mp hx with rfl | hx
    · exact hparent (huid ▸ hne)
    · exact h.tree.parents x (List.mem_cons_of_mem r hx) hne
  · intro x hx hxtype hne
    rcases List.mem_cons.mp hx with rfl | hx
    · exact hfolder (htype ▸ hxtype) (huid ▸ hne)
    · exact h.tree.folders x (List.mem_cons_of_mem r hx) hxtype hne
  · intro x hx
    rcases List.mem_cons.mp hx with rfl | hx
    · rw [huid]
      exact h.tree.not_null r List.mem_cons_self
    · exact h.tree.not_null x (List.mem_cons_of_mem r hx)
  · rw [huids]
    exact h.tree.nodup
  · intro x hx hxroot
    rcases List.mem_cons.mp hx with rfl | hx
    · rw [hroot (huid.symm.trans hxroot)]
      exact h.root_parent r List.mem_cons_self (huid.symm.trans hxroot)
    · exact h.root_parent x (List.mem_cons_of_mem r hx) hxroot
  · intro x hx
    rcases List.mem_cons.mp hx with rfl | hx
    · rw [huid]
      exact h.uid_lt r List.mem_cons_self
    · exact h.uid_lt x (List.mem_cons_of_mem r hx)
  · rw [hrecords]
    exact h.nodup
  · intro x hx
    rcases List.mem_cons.mp hx with rfl | hx
    · rw [hrecord]
      exact h.record_lt r List.mem_cons_self
    · exact h.record_lt x (List.mem_cons_of_mem r hx)

/-- Changing columns that say nothing about the tree. -/
theorem Intact.update_columns (h : Intact (r :: others) counter nextRecord)
    (hrecord : r'.record = r.record) (huid : r'.uid = r.uid) (htype : r'.type = r.type)
    (hparent : r'.parentFolder = r.parentFolder) : Intact (r' :: others) counter nextRecord := by
  apply h.update hrecord huid htype
  · exact fun _ => hparent
  · intro hne
    rw [hparent]
    exact h.tree.parents r List.mem_cons_self hne
  · intro hfolder hne
    rw [hparent]
    exact h.tree.folders r List.mem_cons_self hfolder hne

/-! ## Inserting and deleting rows -/

theorem Intact.insert (h : Intact rows counter nextRecord) (hrecord : r.record = nextRecord)
    (hfresh : ∀ x ∈ rows, x.uid ≠ r.uid) (hnull : r.uid ≠ kFavouritesNullUid)
    (hlt : r.uid < counter + 1)
    (hparent : ∃ f ∈ rows, f.uid = r.parentFolder ∧ f.type = .folder)
    (hfolder : r.type = .folder → r.parentFolder = kFavouritesRootUid) :
    Intact (r :: rows) (counter + 1) (nextRecord + 1) := by
  have hne_root : r.uid ≠ kFavouritesRootUid := by
    obtain ⟨root, hroot, huid, -⟩ := h.tree.root
    exact fun heq => hfresh root hroot (huid.trans heq.symm)
  have hfound : ∀ uid, (∃ f ∈ rows, f.uid = uid ∧ f.type = .folder) →
      ∃ f ∈ r :: rows, f.uid = uid ∧ f.type = .folder := by
    rintro uid ⟨f, hf, hfuid⟩
    exact ⟨f, List.mem_cons_of_mem r hf, hfuid⟩
  refine ⟨⟨hfound _ h.tree.root, ?_, ?_, ?_, ?_⟩, ?_, ?_, ?_, ?_, ?_⟩
  · intro x hx hne
    apply hfound
    rcases List.mem_cons.mp hx with rfl | hx
    · exact hparent
    · exact h.tree.parents x hx hne
  · intro x hx hxtype hne
    rcases List.mem_cons.mp hx with rfl | hx
    · exact hfolder hxtype
    · exact h.tree.folders x hx hxtype hne
  · intro x hx
    rcases List.mem_cons.mp hx with rfl | hx
    · exact hnull
    · exact h.tree.not_null x hx
  · rw [List.map_cons, List.nodup_cons]
    refine ⟨fun hmem => ?_, h.tree.nodup⟩
    obtain ⟨x, hx, heq⟩ := List.mem_map.mp hmem
    exact hfresh x hx heq
  · intro x hx hxroot
    rcases List.mem_cons.mp hx with rfl | hx
    · exact (hne_root hxroot).elim
    · exact h.root_parent x hx hxroot
  · have := h.counter_pos
    omega
  · intro x hx
    rcases List.mem_cons.mp hx with rfl | hx
    · exact hlt
    · have := h.uid_lt x hx
      omega
  · rw [List.map_cons, List.nodup_cons]
    refine ⟨fun hmem => ?_, h.nodup⟩
    obtain ⟨x, hx, heq⟩ := List.mem_map.mp hmem
    have := h.record_lt x hx
    omega
  · intro x hx
    rcases List.mem_cons.mp hx with rfl | hx
    · omega
    · have := h.record_lt x hx
      omega

/-- An item can be deleted, and a folder with nothing in it. -/
theorem Intact.erase (h : Intact (r :: rows) counter nextRecord)
    (hroot : r.uid ≠ kFavouritesRootUid)
    (hempty : r.type = .item ∨ ∀ x ∈ rows, x.parentFolder ≠ r.uid) :
    Intact rows counter nextRecord := by
  have hnodup := h.tree.nodup
  rw [List.map_cons, List.nodup_cons] at hnodup
  have hrecords := h.nodup
  rw [List.map_cons, List.nodup_cons] at hrecords
  have hmem : ∀ x ∈ rows, x ∈ r :: rows := fun x => List.mem_cons_of_mem r
  refine ⟨⟨?_, ?_, ?_, ?_, hnodup.2⟩, ?_, h.counter_pos, ?_, hrecords.2, ?_⟩
  · obtain ⟨root, hmem, huid, hfolder⟩ := h.tree.root
    rcases List.mem_cons.mp hmem with rfl | hmem
    · exact (hroot huid).elim
    · exact ⟨root, hmem, huid, hfolder⟩
  · intro x hx hne
    obtain ⟨f, hf, huid, hfolder⟩ := h.tree.parents x (hmem x hx) hne
    rcases List.mem_cons.mp hf with rfl | hf
    · rcases hempty with hitem | hempty
      · rw [hitem] at hfolder
        cases hfolder
      · exact (hempty x hx huid.symm).elim
    · exact ⟨f, hf, huid, hfolder⟩
  · exact fun x hx => h.tree.folders x (hmem x hx)
  · exact fun x hx => h.tree.not_null x (hmem x hx)
  · exact fun x hx => h.root_parent x (hmem x hx)
  · exact fun x hx => h.uid_lt x (hmem x hx)
  · exact fun x hx => h.record_lt x (hmem x hx)

/-- What is in a folder can be deleted: there are no folders in it. -/
theorem Intact.erase_contents (h : Intact rows counter nextRecord) (hr : r ∈ rows)
    (hroot : r.uid ≠ kFavouritesRootUid) :
    Intact (rows.filter (·.parentFolder ≠ r.uid)) counter nextRecord := by
  have hmem : ∀ x ∈ rows.filter (·.parentFolder ≠ r.uid), x ∈ rows :=
    fun x hx => (List.mem_filter.mp hx).1
  have hkept : ∀ f ∈ rows, f.type = .folder → f ∈ rows.filter (·.parentFolder ≠ r.uid) := by
    intro f hf hfolder
    refine List.mem_filter.mpr ⟨hf, decide_eq_true ?_⟩
    cases hne : decide (f.uid = kFavouritesRootUid) with
    | true =>
        rw [h.root_parent f hf (of_decide_eq_true hne)]
        exact (h.tree.not_null r hr).symm
    | false =>
        rw [h.tree.folders f hf hfolder (of_decide_eq_false hne)]
        exact hroot.symm
  refine ⟨⟨?_, ?_, ?_, ?_, ?_⟩, ?_, h.counter_pos, ?_, ?_, ?_⟩
  · obtain ⟨root, hrootmem, huid, hfolder⟩ := h.tree.root
    exact ⟨root, hkept root hrootmem hfolder, huid, hfolder⟩
  · intro x hx hne
    obtain ⟨f, hf, huid, hfolder⟩ := h.tree.parents x (hmem x hx) hne
    exact ⟨f, hkept f hf hfolder, huid, hfolder⟩
  · exact fun x hx => h.tree.folders x (hmem x hx)
  · exact fun x hx => h.tree.not_null x (hmem x hx)
  · exact h.tree.nodup.sublist (List.Sublist.map _ List.filter_sublist)
  · exact fun x hx => h.root_parent x (hmem x hx)
  · exact fun x hx => h.uid_lt x (hmem x hx)
  · exact h.nodup.sublist (List.Sublist.map _ List.filter_sublist)
  · exact fun x hx => h.record_lt x (hmem x hx)

end

end SymbianWeb.Favourites.Store
