import SymbianWeb.HttpCache.Frame
import SymbianWeb.HttpCache.LookupTablePlacement

/-!
# The table and the heap

`TableInv` says that the lookup table is well placed, that no pointer occurs in it twice, and that
it holds exactly the live entries. Three kinds of steps matter for it: a frame, the erasure of one
entry (`Erased`) and the insertion of a new one (`Inserted`). `erase_spec` and `insertL_spec` say
completely what the two operations do, and the later modules use these instead of the code.
-/

set_option autoImplicit false

namespace SymbianWeb.HttpCache

open FaultState CHttpCacheLookupTable

/-- The lookup table holds exactly the live entries, each once and well placed. -/
structure TableInv (s : CacheState) : Prop where
  placed : s.iLookupTable.WellPlaced s.urlOf
  nodup : s.iLookupTable.entries.Nodup
  live : ∀ i, i ∈ s.iLookupTable.entries ↔ (s.heap i).isSome = true
  fresh : ∀ i, (s.heap i).isSome = true → i < s.nextId

/-- Entry `id`, with the contents `e`, has been erased from slot `pos` and deleted. -/
structure Erased (pos : Nat) (id : EntryId) (e : CHttpCacheEntry) (s s' : CacheState) :
    Prop where
  slot : s.iLookupTable.entryAt pos = some id
  entry : s.heap id = some e
  table : s'.iLookupTable = s.iLookupTable.eraseSlot pos
  nextId : s'.nextId = s.nextId
  directory : s'.iDirectory = s.iDirectory
  content : s'.iContentSize = s.iContentSize - e.size
  buckets : s'.iBuckets = (if e.iEvictionCandidate then
    Function.update s.iBuckets e.bucket ((s.iBuckets e.bucket).erase id) else s.iBuckets)
  history : s'.history = s.history
  gone : s'.heap id = none
  others : ∀ i, i ≠ id →
    (s'.heap i).map CHttpCacheEntry.core = (s.heap i).map CHttpCacheEntry.core

/-- The core of a newly inserted entry. -/
def newCore [Platform] (u : Des8) (directory : Des16) : EntryCore where
  iUrl := u
  iFileName := generateNameLC u directory
  iState := .eCacheInitialized
  iRef := 1
  iBodySize := 0
  iHeaderSize := 0
  iEvictionCandidate := false
  iBodyFileDeleteNeeded := false

/-- A new entry `id` has been created and put into the table. -/
structure Added (id : EntryId) (s s' : CacheState) : Prop where
  isNew : id = s.nextId
  placed : s'.iLookupTable.WellPlaced s'.urlOf
  table : s'.iLookupTable.entries.Perm (id :: s.iLookupTable.entries)
  nextId : s'.nextId = id + 1
  directory : s'.iDirectory = s.iDirectory
  live : (s'.heap id).isSome = true
  others : ∀ i, i ≠ id → s'.heap i = s.heap i

/-- A new entry `id` with the URL `u` has been created and inserted. -/
structure Inserted [Platform] (u : Des8) (id : EntryId) (s s' : CacheState) : Prop
    extends Added id s s' where
  content : s'.iContentSize = s.iContentSize
  buckets : s'.iBuckets = s.iBuckets
  history : s'.history = .accessed false 0 :: s.history
  entry : ∃ e, s'.heap id = some e ∧ e.core = newCore u s.iDirectory ∧
    e.iHeaderBuffer = some [] ∧ e.bodyDataCached = false ∧ e.iCacheBuffer = .reset ∧
    e.iWriteHelper = none
  files : s'.files = s.filesWithout [generateNameLC u s.iDirectory,
    getHeaderFileName (generateNameLC u s.iDirectory)]
  openFiles : s'.openFiles = s.openFiles

/-! ## The initial state -/

theorem tableInv_newL (size : Int) (dir : Des16) (level : Int)
    (postpone : Option CHttpCacheFileWriteHandler) (files : Des16 → Option Des8) :
    TableInv (.newL size dir level postpone files) := by
  have hnil : (newL : CHttpCacheLookupTable EntryId).entries = [] := entries_replicate_null _
  refine ⟨wellPlaced_newL _, ?_, ?_, ?_⟩
  · show (newL : CHttpCacheLookupTable EntryId).entries.Nodup
    rw [hnil]
    exact List.nodup_nil
  · intro i
    show i ∈ (newL : CHttpCacheLookupTable EntryId).entries ↔ false = true
    rw [hnil]
    simp
  · intro i hi
    exact absurd hi (by simp [CacheState.newL])

/-! ## The three kinds of steps -/

theorem TableInv.of_frame {s s' : CacheState} (h : TableInv s) (hf : Frame s s') :
    TableInv s' := by
  refine ⟨?_, ?_, ?_, ?_⟩
  · rw [hf.table, hf.urlOf]
    exact h.placed
  · rw [hf.table]
    exact h.nodup
  · intro i
    rw [hf.table, hf.isSome]
    exact h.live i
  · intro i hi
    rw [hf.nextId]
    rw [hf.isSome] at hi
    exact h.fresh i hi

theorem urlOf_eq_of_map {s s' : CacheState} {i : EntryId}
    (h : (s'.heap i).map CHttpCacheEntry.core = (s.heap i).map CHttpCacheEntry.core) :
    s'.urlOf i = s.urlOf i := by
  unfold CacheState.urlOf
  cases he : s.heap i with
  | none =>
      rw [he, Option.map_none, Option.map_eq_none_iff] at h
      rw [h]
  | some e =>
      obtain ⟨e', he', hcore⟩ := exists_of_map_eq h he
      rw [he']
      exact congrArg EntryCore.iUrl hcore

theorem isSome_eq_of_map {α : Type} {f : CHttpCacheEntry → α} {o o' : Option CHttpCacheEntry}
    (h : o'.map f = o.map f) : o'.isSome = o.isSome := by
  have h' := congrArg Option.isSome h
  rwa [Option.isSome_map, Option.isSome_map] at h'

theorem Erased.perm {pos : Nat} {id : EntryId} {e : CHttpCacheEntry} {s s' : CacheState}
    (h : Erased pos id e s s') : (id :: s'.iLookupTable.entries).Perm s.iLookupTable.entries := by
  rw [h.table]
  exact entries_eraseSlot_perm _ h.slot

theorem TableInv.of_erased {pos : Nat} {id : EntryId} {e : CHttpCacheEntry} {s s' : CacheState}
    (h : TableInv s) (he : Erased pos id e s s') : TableInv s' := by
  have hperm := he.perm
  have hnodup := hperm.nodup_iff.2 h.nodup
  rw [List.nodup_cons] at hnodup
  have hmem : ∀ i, i ∈ s'.iLookupTable.entries ↔ i ≠ id ∧ i ∈ s.iLookupTable.entries := by
    intro i
    rw [← hperm.mem_iff, List.mem_cons]
    constructor
    · intro hi
      refine ⟨?_, .inr hi⟩
      rintro rfl
      exact hnodup.1 hi
    · rintro ⟨hne, heq | hi⟩
      · exact absurd heq hne
      · exact hi
  refine ⟨?_, hnodup.2, ?_, ?_⟩
  · have hplaced := wellPlaced_eraseSlot h.placed he.slot
    rw [← he.table] at hplaced
    refine hplaced.congr fun i hi => ?_
    exact urlOf_eq_of_map (he.others i ((hmem i).1 hi).1)
  · intro i
    rw [hmem]
    cases hi : decide (i = id) with
    | true =>
        rw [decide_eq_true_eq] at hi
        rw [hi, he.gone]
        simp
    | false =>
        rw [decide_eq_false_iff_not] at hi
        rw [h.live, isSome_eq_of_map (he.others i hi)]
        simp [hi]
  · intro i hi
    rw [he.nextId]
    refine h.fresh i ?_
    cases hid : decide (i = id) with
    | true =>
        rw [decide_eq_true_eq] at hid
        rw [hid, he.gone] at hi
        exact absurd hi (by decide)
    | false =>
        rw [decide_eq_false_iff_not] at hid
        rwa [isSome_eq_of_map (he.others i hid)] at hi

theorem TableInv.not_mem_nextId {s : CacheState} (h : TableInv s) :
    s.nextId ∉ s.iLookupTable.entries := by
  intro hmem
  exact Nat.lt_irrefl _ (h.fresh _ ((h.live _).1 hmem))

theorem TableInv.of_added {id : EntryId} {s s' : CacheState} (h : TableInv s)
    (hi : Added id s s') : TableInv s' := by
  have hnot := h.not_mem_nextId
  rw [← hi.isNew] at hnot
  refine ⟨hi.placed, ?_, ?_, ?_⟩
  · exact hi.table.nodup_iff.2 (List.nodup_cons.2 ⟨hnot, h.nodup⟩)
  · intro i
    rw [hi.table.mem_iff, List.mem_cons]
    cases hid : decide (i = id) with
    | true =>
        rw [decide_eq_true_eq] at hid
        simp [hid, hi.live]
    | false =>
        rw [decide_eq_false_iff_not] at hid
        rw [hi.others i hid, h.live]
        simp [hid]
  · intro i hsome
    rw [hi.nextId]
    cases hid : decide (i = id) with
    | true =>
        rw [decide_eq_true_eq] at hid
        rw [hid]
        exact Nat.lt_succ_self id
    | false =>
        rw [decide_eq_false_iff_not] at hid
        rw [hi.others i hid] at hsome
        rw [hi.isNew]
        exact Nat.lt_succ_of_lt (h.fresh i hsome)

section Insert

variable [Platform]

end Insert

/-! ## Erase -/

/-- A quiet computation ends in a state with the same core. -/
theorem quiet_of {α : Type} {m : CacheM α} (h : Stays Quiet m) {s s' : CacheState} {a : α}
    (hm : m s = some (a, s')) : Quiet s s' :=
  related_of_chain Quiet.refl (fun _ _ _ => Quiet.trans) (h s a s' hm)

theorem setBucket_run {i : Fin 5} {queue : List EntryId} {s s' : CacheState} {a : Unit} :
    setBucket i queue s = some (a, s') ↔
      s' = { s with iBuckets := Function.update s.iBuckets i queue } :=
  modify_run

/-- `Remove` takes the entry out of its bucket, if it is there. -/
theorem evictionRemove_run {id : EntryId} {s s' : CacheState} {a : Unit}
    (h : evictionRemove id s = some (a, s')) : ∃ e, s.heap id = some e ∧ e.iRef ≠ 0 ∧
      s' = { s with iBuckets :=
        Function.update s.iBuckets e.bucket ((s.iBuckets e.bucket).erase id) } := by
  obtain ⟨e, he, h⟩ := getEntry_bind.1 h
  obtain ⟨href, h⟩ := guardM_bind.1 h
  rw [get_bind] at h
  refine ⟨e, he, href, ?_⟩
  rcases whenM_run.1 h with ⟨-, h⟩ | ⟨hnot, h⟩
  · exact setBucket_run.1 h
  · rw [List.erase_of_not_mem hnot, Function.update_eq_self]
    exact h

/-- Entry `id`, with the contents `e`, has been deleted. -/
structure Deleted (id : EntryId) (e : CHttpCacheEntry) (s s' : CacheState) : Prop where
  entry : s.heap id = some e
  table : s'.iLookupTable = s.iLookupTable
  nextId : s'.nextId = s.nextId
  directory : s'.iDirectory = s.iDirectory
  content : s'.iContentSize = s.iContentSize
  buckets : s'.iBuckets = (if e.iEvictionCandidate then
    Function.update s.iBuckets e.bucket ((s.iBuckets e.bucket).erase id) else s.iBuckets)
  history : s'.history = s.history
  gone : s'.heap id = none
  others : ∀ i, i ≠ id →
    (s'.heap i).map CHttpCacheEntry.core = (s.heap i).map CHttpCacheEntry.core

/-- The destructor removes the entry from its bucket and from the heap. -/
theorem deleteEntry_spec {id : EntryId} {s s' : CacheState} {a : Unit}
    (h : deleteEntry id s = some (a, s')) : ∃ e, Deleted id e s s' := by
  obtain ⟨e, he, h⟩ := getEntry_bind.1 h
  obtain ⟨_, s₁, hunlink, h⟩ := bind_eq_some.1 h
  obtain ⟨_, s₂, hqueue, h⟩ := bind_eq_some.1 h
  obtain ⟨_, s₃, hclose, h⟩ := bind_eq_some.1 h
  obtain ⟨-, h⟩ := guardM_bind.1 h
  obtain rfl := modify_run.1 h
  have hq₂ : Quiet s₁ s₂ := quiet_of (Stays.whenM fun _ => quiet_removeEntry id) hqueue
  have hq : Quiet s₁ s₃ := hq₂.trans (quiet_of (quiet_closeBodyFile id) hclose)
  have hs₁ : s₁ = { s with iBuckets := (if e.iEvictionCandidate then
      Function.update s.iBuckets e.bucket ((s.iBuckets e.bucket).erase id)
      else s.iBuckets) } := by
    rcases whenM_run.1 hunlink with ⟨hcand, hrun⟩ | ⟨hcand, heq⟩
    · obtain ⟨e', he', -, hs₁⟩ := evictionRemove_run hrun
      rw [he, Option.some.injEq] at he'
      subst he'
      rw [hcand, if_pos rfl]
      exact hs₁
    · rw [if_neg hcand]
      exact heq
  rw [hs₁] at hq
  refine ⟨e, he, hq.table, hq.nextId, hq.directory, hq.content, hq.buckets, hq.history,
    heap_setEntry_self _ _ _, fun i hi => ?_⟩
  rw [heap_setEntry, if_neg hi]
  exact hq.core i

/-- `CHttpCacheStreamHandler::Erase` only takes the bytes of the entry from the content size. -/
theorem streamErase_spec {id : EntryId} {s s' : CacheState} {a : Unit}
    (h : streamErase id s = some (a, s')) : ∃ e, s.heap id = some e ∧
      ∃ s₁, Quiet s s₁ ∧ s' = { s₁ with iContentSize := s.iContentSize - e.size } := by
  obtain ⟨_, s₁, hcancel, h⟩ := bind_eq_some.1 h
  obtain ⟨e₁, he₁, h⟩ := getEntry_bind.1 h
  obtain ⟨_, s₂, hfile, h⟩ := bind_eq_some.1 h
  rw [addContentSize, modify_bind] at h
  obtain rfl := modify_run.1 h
  have hq₁ : Quiet s s₁ := quiet_of (quiet_cancelBodyWrite id) hcancel
  have hq := hq₁.trans (quiet_of (quiet_deleteFile _) hfile)
  obtain ⟨e, he, hcore⟩ := hq₁.symm.entry he₁
  refine ⟨e, he, s₂, hq, ?_⟩
  have hsize : e₁.size = e.size :=
    (congrArg (fun c : EntryCore => c.iHeaderSize.toNat + c.iBodySize) hcore).symm
  have hcontent : s₂.iContentSize + -(e₁.iBodySize : Int) + -(e₁.iHeaderSize.toNat : Int) =
      s.iContentSize - e.size := by
    rw [← hsize, CHttpCacheEntry.size, hq.content]
    omega
  rw [← hcontent]

/-- `Erase` at the slot of an entry. -/
theorem erase_spec {pos : Nat} {id : EntryId} {s s' : CacheState} {a : Unit}
    (h : erase pos s = some (a, s')) (hpos : s.iLookupTable.entryAt pos = some id) :
    ∃ e, Erased pos id e s s' := by
  rw [erase, get_bind, hpos] at h
  obtain ⟨_, s₁, hstream, hdelete⟩ := bind_eq_some.1 h
  obtain ⟨e, he, s₂, hq, rfl⟩ := streamErase_spec hstream
  rw [modify_bind] at hdelete
  obtain ⟨e₂, hd⟩ := deleteEntry_spec hdelete
  obtain ⟨e', he', hcore⟩ := hq.symm.entry hd.entry
  rw [he, Option.some.injEq] at he'
  subst he'
  refine ⟨e, hpos, he, ?_, hd.nextId.trans hq.nextId, hd.directory.trans hq.directory,
    hd.content, ?_, hd.history.trans hq.history, hd.gone, ?_⟩
  · rw [hd.table]
    show s₂.iLookupTable.eraseSlot pos = _
    rw [hq.table]
  · have hcand : e₂.iEvictionCandidate = e.iEvictionCandidate :=
      (congrArg EntryCore.iEvictionCandidate hcore).symm
    have hbucket : e₂.bucket = e.bucket :=
      (congrArg (fun c : EntryCore => bucketOf c.iBodySize c.iRef.toNat) hcore).symm
    rw [hd.buckets, hcand, hbucket]
    show (if _ then Function.update s₂.iBuckets _ ((s₂.iBuckets _).erase id)
      else s₂.iBuckets) = _
    rw [hq.buckets]
  · intro i hi
    rw [hd.others i hi]
    exact hq.core i

/-! ## Insert -/

/-- `Accessed()` outside the buckets. -/
theorem accessed_of_not_candidate {now : Clock} {id : EntryId} {s : CacheState}
    {e : CHttpCacheEntry} (he : s.heap id = some e) (hcand : e.iEvictionCandidate = false) :
    accessed now id s = some ((), (s.noted (.accessed e.iEvictionCandidate e.iRef)).setEntry id
      (some { e with iLastAccessed := now.homeTime, iRef := e.iRef + 1 })) := by
  have he' : (s.noted (.accessed e.iEvictionCandidate e.iRef)).heap id = some e := he
  rw [accessed, bind_of (getEntry_of he), note, modify_bind, bind_of (modifyEntry_of he'), bind_of (getEntry_of (heap_setEntry_self ..)),
    whenM_of_not (by rw [hcand]; decide)]
  rfl

/-- `SetState` to a state in which the entry is not complete. -/
theorem setState_of_ne {id : EntryId} {st : TCacheEntryState} {s : CacheState}
    {e : CHttpCacheEntry} (he : s.heap id = some e) (hst : st ≠ .eCacheComplete) :
    setState id st s = some ((), s.setEntry id (some { e with iState := st })) := by
  rw [setState, bind_of (getEntry_of he), whenM_of_not fun h => hst h.1]
  exact modifyEntry_of he

theorem urlOf_withNew_self (s : CacheState) (e : CHttpCacheEntry) :
    (s.withNew e).urlOf s.nextId = e.iUrl := by
  have hheap : (s.withNew e).heap s.nextId = some e := heap_setEntry_self s s.nextId (some e)
  rw [CacheState.urlOf, hheap]

theorem urlOf_withNew {s : CacheState} {e : CHttpCacheEntry} {i : EntryId} (hi : i ≠ s.nextId) :
    (s.withNew e).urlOf i = s.urlOf i := by
  have hheap : (s.withNew e).heap i = s.heap i := by
    show (s.setEntry s.nextId (some e)).heap i = s.heap i
    rw [heap_setEntry, if_neg hi]
  rw [CacheState.urlOf, hheap]
  rfl

/-- The new object is at the address of the old `nextId`, and only the URL of an entry matters
to the table. -/
theorem insertEntry_withNew {s : CacheState} (h : TableInv s) (e : CHttpCacheEntry) :
    (s.iLookupTable.insertEntry (s.withNew e).urlOf s.nextId).2 = true ∧
    (s.iLookupTable.insertEntry (s.withNew e).urlOf s.nextId).1.WellPlaced (s.withNew e).urlOf ∧
    (s.iLookupTable.insertEntry (s.withNew e).urlOf s.nextId).1.entries.Perm
      (s.nextId :: s.iLookupTable.entries) := by
  refine insertEntry_spec (h.placed.congr fun i hi => urlOf_withNew ?_) s.nextId
  rintro rfl
  exact h.not_mem_nextId hi

section Insert

variable [Platform]

omit [Platform] in
theorem filesWithout_filesWithout (s : CacheState) (a b : Des16) :
    { s with files := s.filesWithout [a] }.filesWithout [b] = s.filesWithout [a, b] := by
  funext name
  simp only [CacheState.filesWithout, List.mem_cons, List.not_mem_nil, or_false]
  split
  · next h => rw [if_pos ⟨.inr h.1, h.2⟩]
  · next h =>
      refine if_congr ⟨fun h' => ⟨.inl h'.1, h'.2⟩, fun h' => ⟨?_, h'.2⟩⟩ rfl rfl
      rcases h'.1 with heq | heq
      · exact heq
      · exact absurd ⟨heq, h'.2⟩ h

/-- `InitialiseCacheEntryL` names the entry and deletes the files of that name. -/
theorem initialiseCacheEntryL_of {id : EntryId} {s : CacheState} {e : CHttpCacheEntry}
    (he : s.heap id = some e) : initialiseCacheEntryL id s = some ((),
      { s.setEntry id (some { e with
          iFileName := generateNameLC e.iUrl s.iDirectory, iState := .eCacheInitialized }) with
        files := s.filesWithout [generateNameLC e.iUrl s.iDirectory,
          getHeaderFileName (generateNameLC e.iUrl s.iDirectory)] }) := by
  rw [initialiseCacheEntryL, bind_of (getEntry_of he), get_bind, bind_of (modifyEntry_of he),
    bind_of (setState_of_ne (heap_setEntry_self ..) (by decide)), setEntry_setEntry,
    deleteFile, modify_bind, ← filesWithout_filesWithout]
  rfl

/-- A newly inserted entry. -/
def insertedEntry (now : Clock) (u : Des8) (directory : Des16) : CHttpCacheEntry :=
  { CHttpCacheEntry.newLC u with
    iFileName := generateNameLC u directory
    iState := .eCacheInitialized
    iLastAccessed := now.homeTime
    iRef := 1 }

/-- What `InsertL` does when the table takes the entry. -/
theorem insertL_of {s : CacheState} {now : Clock} {u : Des8}
    (hok : (s.iLookupTable.insertEntry (s.withNew (.newLC u)).urlOf s.nextId).2 = true) :
    insertL now u s = some (some s.nextId,
      { (s.withNew (insertedEntry now u s.iDirectory)).noted (.accessed false 0) with
        iLookupTable := (s.iLookupTable.insertEntry (s.withNew (.newLC u)).urlOf s.nextId).1
        files := s.filesWithout [generateNameLC u s.iDirectory,
          getHeaderFileName (generateNameLC u s.iDirectory)] }) := by
  let s₂ : CacheState := { s.withNew (.newLC u) with
    iLookupTable := (s.iLookupTable.insertEntry (s.withNew (.newLC u)).urlOf s.nextId).1 }
  let e : CHttpCacheEntry :=
    { CHttpCacheEntry.newLC u with iLastAccessed := now.homeTime, iRef := 1 }
  have haccessed : accessed now s.nextId s₂ =
      some ((), (s₂.noted (.accessed false 0)).setEntry s.nextId (some e)) :=
    accessed_of_not_candidate (heap_setEntry_self ..) rfl
  have hinit := initialiseCacheEntryL_of
    (heap_setEntry_self (s₂.noted (.accessed false 0)) s.nextId (some e))
  rw [insertL, get_bind, modify_bind, get_bind, modify_bind]
  show ((if (s.iLookupTable.insertEntry (s.withNew (.newLC u)).urlOf s.nextId).2 = true then
      (accessed now s.nextId >>= fun _ => initialiseCacheEntryL s.nextId >>= fun _ =>
        pure (some s.nextId)) else _) : CacheM (Option EntryId)) s₂ = _
  rw [if_pos hok, bind_of haccessed, bind_of hinit, setEntry_setEntry]
  show some _ = some _
  simp only [s₂, CacheState.setEntry, CacheState.withNew, CacheState.noted, Function.update_idem]
  rfl

/-- The entry that `InsertL` returns. -/
theorem insertL_run {s s' : CacheState} {now : Clock} {u : Des8} {id : EntryId}
    (hrun : insertL now u s = some (some id, s')) : id = s.nextId ∧
      s'.heap id = some (insertedEntry now u s.iDirectory) := by
  cases hok : (s.iLookupTable.insertEntry (s.withNew (.newLC u)).urlOf s.nextId).2 with
  | true =>
      rw [insertL_of hok, Option.some.injEq, Prod.mk.injEq, Option.some.injEq] at hrun
      obtain ⟨rfl, rfl⟩ := hrun
      exact ⟨rfl, heap_setEntry_self ..⟩
  | false =>
      rw [insertL, get_bind, modify_bind, get_bind, modify_bind] at hrun
      change ((if (s.iLookupTable.insertEntry (s.withNew (.newLC u)).urlOf s.nextId).2 = true
        then _ else (deleteEntry s.nextId >>= fun _ => pure none)) : CacheM (Option EntryId)) _ = _
        at hrun
      rw [hok, if_neg (by decide)] at hrun
      obtain ⟨_, s₁, -, hpure⟩ := bind_eq_some.1 hrun
      rw [pure_eq_some, Prod.mk.injEq] at hpure
      cases hpure.1

/-- `InsertL` always succeeds. -/
theorem insertL_spec {s : CacheState} (h : TableInv s) (now : Clock) (u : Des8) :
    ∃ s', insertL now u s = some (some s.nextId, s') ∧ Inserted u s.nextId s s' := by
  obtain ⟨hok, hplaced, hperm⟩ := insertEntry_withNew h (.newLC u)
  refine ⟨_, insertL_of hok, ⟨rfl, ?_, hperm, rfl, rfl, ?_, ?_⟩, rfl, rfl, rfl, ?_, rfl, rfl⟩
  · refine hplaced.congr fun i _ => ?_
    cases hi : decide (i = s.nextId) with
    | true =>
        rw [decide_eq_true_eq] at hi
        rw [hi]
        exact (urlOf_withNew_self s _).trans (urlOf_withNew_self s (.newLC u)).symm
    | false =>
        rw [decide_eq_false_iff_not] at hi
        exact (urlOf_withNew hi).trans (urlOf_withNew hi).symm
  · show ((s.setEntry _ _).heap _).isSome = true
    rw [heap_setEntry_self]
    rfl
  · intro i hi
    show (s.setEntry _ _).heap i = _
    rw [heap_setEntry, if_neg hi]
  · exact ⟨_, heap_setEntry_self .., rfl, rfl, rfl, rfl, rfl⟩

theorem inserted_of_run {s s' : CacheState} {now : Clock} {u : Des8} {r : Option EntryId}
    (h : TableInv s) (hrun : insertL now u s = some (r, s')) :
    r = some s.nextId ∧ Inserted u s.nextId s s' := by
  obtain ⟨s₁, hrun₁, hi⟩ := insertL_spec h now u
  rw [hrun, Option.some.injEq, Prod.mk.injEq] at hrun₁
  obtain ⟨rfl, rfl⟩ := hrun₁
  exact ⟨rfl, hi⟩

end Insert

end SymbianWeb.HttpCache
