import SymbianWeb.HttpCache.NameSteps

/-!
# One round of the index merge

The merge reads of an entry its URL, its file name and whether its body is in memory, and of the
disk whether a file exists. `DiskFrame` are the steps that leave these alone, and `Alone` says
that erasing an entry leaves all other entries and all other files as they are. With them
`mergeOldAt_run` says what one round of the first loop does.
-/

set_option autoImplicit false

namespace SymbianWeb.HttpCache

open FaultState CHttpCacheLookupTable

/-- What the merge reads of an entry. -/
def CHttpCacheEntry.diskView (e : CHttpCacheEntry) : (Des8 × Des16) × Bool :=
  (e.names, e.bodyDataCached)

/-- A frame that also keeps the files and what is cached. -/
structure DiskFrame (s s' : CacheState) : Prop extends Frame s s' where
  files : s'.files = s.files
  view : ∀ i, (s'.heap i).map CHttpCacheEntry.diskView = (s.heap i).map CHttpCacheEntry.diskView

/-- Only the entry `id` and the file `name` may be gone or changed. -/
structure Alone (id : EntryId) (name : Des16) (s s' : CacheState) : Prop where
  heap : ∀ i, i ≠ id → s'.heap i = s.heap i
  files : ∀ n, s'.files n = s.files n ∨ n = name ∧ s'.files n = none

variable {s s' : CacheState}

/-! ## Steps that leave the disk alone -/

theorem DiskFrame.refl (s : CacheState) : DiskFrame s s := ⟨Frame.refl s, rfl, fun _ => rfl⟩

theorem DiskFrame.trans {s₁ s₂ s₃ : CacheState} (h : DiskFrame s₁ s₂) (h' : DiskFrame s₂ s₃) :
    DiskFrame s₁ s₃ :=
  ⟨h.toFrame.trans h'.toFrame, h'.files.trans h.files, fun i => (h'.view i).trans (h.view i)⟩

theorem diskFrame_of {α : Type} {m : CacheM α} (h : Stays DiskFrame m) {a : α}
    (hm : m s = some (a, s')) : DiskFrame s s' :=
  related_of_chain DiskFrame.refl (fun _ _ _ => DiskFrame.trans) (h s a s' hm)

theorem diskFrame_modifyEntry {id : EntryId} {f : CHttpCacheEntry → CHttpCacheEntry}
    (hf : ∀ e, (f e).diskView = e.diskView) : Stays DiskFrame (modifyEntry id f) :=
  stays_modifyEntry fun _ e he =>
    ⟨⟨rfl, rfl, rfl, List.suffix_refl _, map_setEntry he (congrArg Prod.fst (hf e))⟩, rfl,
      map_setEntry he (hf e)⟩

theorem diskFrame_setBucket (i : Fin 5) (queue : List EntryId) :
    Stays DiskFrame (setBucket i queue) :=
  stays_modify fun _ => ⟨⟨rfl, rfl, rfl, List.suffix_refl _, fun _ => rfl⟩, rfl, fun _ => rfl⟩

theorem diskFrame_note (c : Call) : Stays DiskFrame (note c) :=
  stays_modify fun _ => ⟨⟨rfl, rfl, rfl, List.suffix_cons _ _, fun _ => rfl⟩, rfl, fun _ => rfl⟩

theorem diskFrame_accessedAt (id : EntryId) (lastAccessed : Int) (ref : UInt16) :
    Stays DiskFrame (accessedAt id lastAccessed ref) := by
  refine Stays.bind (stays_getEntry id) fun e => Stays.bind (diskFrame_note _) fun _ => ?_
  refine Stays.bind (diskFrame_modifyEntry fun _ => rfl) fun _ => ?_
  refine Stays.bind (stays_getEntry id) fun e => Stays.whenM fun _ => ?_
  refine Stays.bind (stays_getEntry id) fun e => Stays.bind Stays.get fun s => ?_
  refine Stays.ite (fun _ => Stays.ite (fun _ => Stays.ite (fun _ => ?_) fun _ => ?_) fun _ =>
    Stays.pure _) fun _ => Stays.pure _
  · exact Stays.whenM fun _ => diskFrame_setBucket _ _
  · exact Stays.bind (diskFrame_setBucket _ _) fun _ => diskFrame_setBucket _ _

/-! ## Erasing one entry -/

section Alone

variable {id : EntryId} {name : Des16}

theorem Alone.refl (id : EntryId) (name : Des16) (s : CacheState) : Alone id name s s :=
  ⟨fun _ _ => rfl, fun _ => .inl rfl⟩

theorem Alone.trans {s₁ s₂ s₃ : CacheState} (h : Alone id name s₁ s₂)
    (h' : Alone id name s₂ s₃) : Alone id name s₁ s₃ := by
  refine ⟨fun i hi => (h'.heap i hi).trans (h.heap i hi), fun n => ?_⟩
  rcases h'.files n with heq | hgone
  · rcases h.files n with heq₁ | ⟨hname, hnone⟩
    · exact .inl (heq.trans heq₁)
    · exact .inr ⟨hname, heq.trans hnone⟩
  · exact .inr hgone

theorem alone_of {α : Type} {m : CacheM α} (h : Stays (Alone id name) m) {a : α}
    (hm : m s = some (a, s')) : Alone id name s s' :=
  related_of_chain (Alone.refl id name) (fun _ _ _ => Alone.trans) (h s a s' hm)

theorem alone_modifyEntry {f : CHttpCacheEntry → CHttpCacheEntry} :
    Stays (Alone id name) (modifyEntry id f) := by
  apply stays_modifyEntry
  intro s e _
  refine ⟨fun i hi => ?_, fun _ => .inl rfl⟩
  rw [heap_setEntry, if_neg hi]

theorem alone_modify {f : CacheState → CacheState} (hheap : ∀ s, (f s).heap = s.heap)
    (hfiles : ∀ s, (f s).files = s.files) : Stays (Alone id name) (modify f : CacheM PUnit) :=
  stays_modify fun s => ⟨fun i _ => by rw [hheap], fun n => .inl (by rw [hfiles])⟩

theorem alone_closeBodyFile : Stays (Alone id name) (closeBodyFile id) := by
  refine Stays.bind (stays_getEntry id) fun e => Stays.whenM fun _ => ?_
  exact Stays.bind (alone_modify (fun _ => rfl) fun _ => rfl) fun _ => alone_modifyEntry

theorem alone_cancelBodyWrite : Stays (Alone id name) (cancelBodyWrite id) := by
  refine Stays.bind (stays_getEntry id) fun e => ?_
  cases e.iWriteHelper with
  | none => exact Stays.pure _
  | some helper =>
      refine Stays.whenM fun _ => Stays.whenM fun _ => ?_
      refine Stays.bind (alone_modify (fun _ => rfl) fun _ => rfl) fun _ => ?_
      refine Stays.bind alone_closeBodyFile fun _ => ?_
      exact Stays.bind alone_modifyEntry fun _ => alone_modifyEntry

theorem alone_deleteFile : Stays (Alone id name) (deleteFile name) := by
  apply stays_modify
  intro s
  refine ⟨fun _ _ => rfl, fun n => ?_⟩
  show (if n ∈ [name] ∧ n ∉ s.openFiles then none else s.files n) = s.files n ∨
    n = name ∧ (if n ∈ [name] ∧ n ∉ s.openFiles then none else s.files n) = none
  split
  · next h => exact .inr ⟨List.mem_singleton.1 h.1, rfl⟩
  · exact .inl rfl

theorem alone_removeEntry : Stays (Alone id name) (removeEntry id) := by
  refine Stays.bind Stays.get fun s => ?_
  cases s.iPostponeHandler with
  | none => exact Stays.pure _
  | some h =>
      refine Stays.ite (fun _ => alone_modify (fun _ => rfl) fun _ => rfl) fun _ => ?_
      refine Stays.ite (fun _ => ?_) fun _ => Stays.pure _
      exact Stays.bind (alone_modify (fun _ => rfl) fun _ => rfl) fun _ => alone_modifyEntry

theorem alone_deleteEntry : Stays (Alone id name) (deleteEntry id) := by
  refine Stays.bind (stays_getEntry id) fun e => Stays.bind (Stays.whenM fun _ => ?_) fun _ => ?_
  · refine Stays.bind (stays_getEntry id) fun e => Stays.bind Stays.guardM fun _ => ?_
    exact Stays.bind Stays.get fun s => Stays.whenM fun _ =>
      alone_modify (fun _ => rfl) fun _ => rfl
  · refine Stays.bind (Stays.whenM fun _ => alone_removeEntry) fun _ => ?_
    refine Stays.bind alone_closeBodyFile fun _ => Stays.bind Stays.guardM fun _ => ?_
    apply stays_modify
    intro s
    refine ⟨fun i hi => ?_, fun _ => .inl rfl⟩
    rw [heap_setEntry, if_neg hi]

/-- `Erase` touches the entry of its slot and its body file only. -/
theorem erase_alone {pos : Nat} {e : CHttpCacheEntry} {a : Unit}
    (hslot : s.iLookupTable.entryAt pos = some id) (he : s.heap id = some e)
    (hrun : erase pos s = some (a, s')) : Alone id e.iFileName s s' := by
  rw [erase, get_bind, hslot] at hrun
  obtain ⟨_, s₁, hstream, hrun⟩ := bind_eq_some.1 hrun
  obtain ⟨_, s₂, hcancel, hstream⟩ := bind_eq_some.1 hstream
  obtain ⟨e₂, he₂, hstream⟩ := getEntry_bind.1 hstream
  obtain ⟨e₀, he₀, hcore⟩ := (quiet_of (quiet_cancelBodyWrite id) hcancel).symm.entry he₂
  rw [he, Option.some.injEq] at he₀
  subst he₀
  have hname : e₂.iFileName = e.iFileName := (congrArg EntryCore.iFileName hcore).symm
  rw [hname] at hstream
  have hdelete : Alone id e.iFileName s₂ s₁ := by
    refine alone_of ?_ hstream
    refine Stays.bind alone_deleteFile fun _ => ?_
    exact Stays.bind (alone_modify (fun _ => rfl) fun _ => rfl) fun _ =>
      alone_modify (fun _ => rfl) fun _ => rfl
  have hrest : Alone id e.iFileName s₁ s' := by
    refine alone_of ?_ hrun
    exact Stays.bind (alone_modify (fun _ => rfl) fun _ => rfl) fun _ => alone_deleteEntry
  exact ((alone_of alone_cancelBodyWrite hcancel).trans hdelete).trans hrest

end Alone

/-! ## The second table -/

section Scratch

variable [Platform]

/-- The second table is well placed, has one entry per URL, and no entry without a body. -/
structure ScratchInv (n : ScratchTable) : Prop where
  placed : n.WellPlaced CHttpCacheEntry.iUrl
  distinct : n.DistinctUrls CHttpCacheEntry.iUrl
  body : ∀ e ∈ n.entries, e.iBodySize ≠ 0

variable {n : ScratchTable}

omit [Platform] in
/-- The second table is well placed and holds the entries that were read. -/
theorem scratchOf_spec (entries : List CHttpCacheEntry) :
    (scratchOf entries).WellPlaced CHttpCacheEntry.iUrl ∧
      (scratchOf entries).entries.Perm (entries.map fun e =>
        { e with iState := .eCacheComplete, iEvictionCandidate := true }) := by
  have hloaded : ∀ (l : List CHttpCacheEntry) (t : ScratchTable),
      t.WellPlaced CHttpCacheEntry.iUrl →
      (l.foldl (fun t e => (t.insertEntry CHttpCacheEntry.iUrl
        { e with iState := .eCacheComplete, iEvictionCandidate := true }).1) t).WellPlaced
          CHttpCacheEntry.iUrl ∧
      (l.foldl (fun t e => (t.insertEntry CHttpCacheEntry.iUrl
        { e with iState := .eCacheComplete, iEvictionCandidate := true }).1) t).entries.Perm
        ((l.map fun e => { e with iState := .eCacheComplete, iEvictionCandidate := true }) ++
          t.entries) := by
    intro l
    induction l with
    | nil => exact fun t ht => ⟨ht, .refl _⟩
    | cons e l ih =>
        intro t ht
        obtain ⟨-, hplaced, hperm⟩ := insertEntry_spec ht
          { e with iState := .eCacheComplete, iEvictionCandidate := true }
        rw [List.foldl_cons, List.map_cons, List.cons_append]
        obtain ⟨hrest, hperm'⟩ := ih _ hplaced
        exact ⟨hrest, hperm'.trans ((List.Perm.append_left _ hperm).trans List.perm_middle)⟩
  have hspec := hloaded entries .newL (wellPlaced_newL _)
  have hnil : (newL : ScratchTable).entries = [] := entries_replicate_null _
  rwa [hnil, List.append_nil] at hspec

theorem ScratchInv.find_eq_some (hn : ScratchInv n) {url : Des8} {p : Nat}
    {e : CHttpCacheEntry} (h : scratchFind n url = some (p, e)) :
    n.probeFind CHttpCacheEntry.iUrl url = some p ∧ n.entryAt p = some e ∧
      compareF e.iUrl url = true := by
  unfold scratchFind at h
  cases hprobe : n.probeFind CHttpCacheEntry.iUrl url with
  | none =>
      rw [hprobe] at h
      cases h
  | some pos =>
      cases hslot : n.entryAt pos with
      | none =>
          simp only [hprobe, hslot] at h
          cases h
      | some e' =>
          simp only [hprobe, hslot] at h
          split at h
          · cases h
          · rw [Option.some.injEq, Prod.mk.injEq] at h
            obtain ⟨rfl, rfl⟩ := h
            exact ⟨rfl, hslot, probeFind_matches hn.placed.size_pos hprobe hslot⟩

/-- An entry is found by its own URL. -/
theorem ScratchInv.find_self (hn : ScratchInv n) {p : Nat} {e : CHttpCacheEntry}
    (he : n.entryAt p = some e) : scratchFind n e.iUrl = some (p, e) := by
  have hprobe := probeFind_of_stored hn.placed.chained hn.distinct he
  have hbody := hn.body e (mem_entries.2 ⟨p, he⟩)
  simp only [scratchFind, hprobe, he]
  exact if_neg fun h => hbody h.1

omit [Platform] in
theorem mem_of_mem_eraseSlot {p : Nat} {e e' : CHttpCacheEntry} (he : n.entryAt p = some e)
    (hmem : e' ∈ (n.eraseSlot p).entries) : ∃ q, q ≠ p ∧ n.entryAt q = some e' := by
  obtain ⟨q, hq⟩ := mem_entries.1 hmem
  rw [entryAt_eraseSlot n (lt_size_of_entryAt he)] at hq
  split at hq
  · cases hq
  · next hne => exact ⟨q, hne, hq⟩

theorem ScratchInv.eraseSlot (hn : ScratchInv n) {p : Nat} {e : CHttpCacheEntry}
    (he : n.entryAt p = some e) : ScratchInv (n.eraseSlot p) := by
  refine ⟨wellPlaced_eraseSlot hn.placed he, hn.distinct.eraseSlot he, ?_⟩
  intro e' hmem
  obtain ⟨q, -, hq⟩ := mem_of_mem_eraseSlot he hmem
  exact hn.body e' (mem_entries.2 ⟨q, hq⟩)

/-- What is left has another URL than what was erased. -/
theorem ScratchInv.ne_of_mem_eraseSlot (hn : ScratchInv n) {p : Nat} {e e' : CHttpCacheEntry}
    (he : n.entryAt p = some e) (hmem : e' ∈ (n.eraseSlot p).entries) :
    compareF e'.iUrl e.iUrl = false := by
  obtain ⟨q, hne, hq⟩ := mem_of_mem_eraseSlot he hmem
  cases hcmp : compareF e'.iUrl e.iUrl with
  | false => rfl
  | true => exact absurd (hn.distinct q p e' e hq he hcmp) hne

/-- Erasing an entry does not change what is found for other URLs. -/
theorem ScratchInv.find_eraseSlot (hn : ScratchInv n) {p : Nat} {e : CHttpCacheEntry}
    (he : n.entryAt p = some e) {url : Des8} (hne : compareF e.iUrl url = false) :
    scratchFind (n.eraseSlot p) url = scratchFind n url := by
  unfold scratchFind
  rw [probeFind_eraseSlot he hne]
  cases hprobe : n.probeFind CHttpCacheEntry.iUrl url with
  | none => rfl
  | some pos =>
      have hpos : pos ≠ p := by
        rintro rfl
        rw [probeFind_matches hn.placed.size_pos hprobe he] at hne
        cases hne
      simp only [entryAt_eraseSlot n (lt_size_of_entryAt he), if_neg hpos]

end Scratch

/-! ## One round -/

section Round

variable [Platform]

/-- What a round of the first loop does at the slot of an entry: an entry that is found in the
second table is erased there, and one that is not is kept or erased. -/
inductive OldRound (map : Option (Des16 → Option Des8)) (i : Nat) (id : EntryId)
    (e : CHttpCacheEntry) (n : ScratchTable) (s : CacheState) : ScratchTable → CacheState → Prop
  where
  | found {p : Nat} {e' : CHttpCacheEntry} {s' : CacheState}
      (hfind : scratchFind n e.iUrl = some (p, e')) (hframe : DiskFrame s s') :
      OldRound map i id e n s (n.eraseSlot p) s'
  | kept (hfind : scratchFind n e.iUrl = none)
      (hkeep : e.bodyDataCached = true ∨ onDisk map s e.iFileName = true) :
      OldRound map i id e n s n s
  | lost {s' : CacheState} (hfind : scratchFind n e.iUrl = none)
      (hcached : e.bodyDataCached = false) (hdisk : onDisk map s e.iFileName = false)
      (herased : Erased i id e s s') (halone : Alone id e.iFileName s s') :
      OldRound map i id e n s n s'

theorem mergeOldAt_run {map : Option (Des16 → Option Des8)} {i : Nat} {n n' : ScratchTable}
    (ht : TableInv s) (hu : UniqueUrls s) (hn : ScratchInv n) {id : EntryId}
    (hslot : s.iLookupTable.entryAt i = some id)
    (hrun : mergeOldAt map i n s = some (n', s')) :
    ∃ e, s.heap id = some e ∧ OldRound map i id e n s n' s' := by
  rw [mergeOldAt, get_bind] at hrun
  simp only [hslot] at hrun
  obtain ⟨e, he, hrun⟩ := getEntry_bind.1 hrun
  refine ⟨e, he, ?_⟩
  cases hfind : scratchFind n e.iUrl with
  | some found =>
      obtain ⟨p, e'⟩ := found
      obtain ⟨-, hp, -⟩ := hn.find_eq_some hfind
      simp only [hfind] at hrun
      obtain ⟨_, s₁, haccessed, hrun⟩ := bind_eq_some.1 hrun
      have hframe : DiskFrame s s₁ :=
        diskFrame_of (Stays.whenM fun _ => diskFrame_accessedAt id _ _) haccessed
      have hvalid : n.valid p = true := (valid_iff n p).2 ⟨e', hp⟩
      simp only [probeFind_of_stored hn.placed.chained hn.distinct hp, hvalid, if_pos] at hrun
      rw [pure_eq_some, Prod.mk.injEq] at hrun
      obtain ⟨rfl, rfl⟩ := hrun
      exact .found hfind hframe
  | none =>
      simp only [hfind, get_bind] at hrun
      obtain ⟨_, s₁, hlost, hrun⟩ := bind_eq_some.1 hrun
      rw [pure_eq_some, Prod.mk.injEq] at hrun
      obtain ⟨rfl, rfl⟩ := hrun
      rcases whenM_run.1 hlost with ⟨⟨hcached, hdisk⟩, herase⟩ | ⟨hkeep, rfl⟩
      · obtain ⟨pos, hloc, hpos⟩ := hu.locate_self ht he
        obtain rfl := entryAt_inj ht.nodup hpos hslot
        rw [hloc] at herase
        obtain ⟨e₁, herased⟩ := erase_spec herase hslot
        obtain rfl : e₁ = e := Option.some.inj (herased.entry.symm.trans he)
        exact .lost hfind hcached hdisk herased (erase_alone hslot he herase)
      · refine .kept hfind ?_
        rw [not_and_or, Bool.not_eq_false, Bool.not_eq_false] at hkeep
        exact hkeep

end Round

end SymbianWeb.HttpCache
