import SymbianWeb.HttpCache.Merge

/-!
# What operations leave alone

The invariants of the cache are about a few fields: the lookup table, the eviction buckets, the
content size, and of each entry its URL, file name, state, reference count, sizes and two flags.
`Quiet s s'` says that all of these are the same in both states. The file operations, the buffer
operations and the postpone queue are quiet, and the rest of this development never looks into
them again.

`Idle` is the same but for the buckets and the eviction candidate flags. `SizeFrame` lets states
and reference counts change too but no size, and `Frame` only fixes which entries there are and
how they are named.
-/

set_option autoImplicit false

namespace SymbianWeb.HttpCache

open FaultState

/-- The fields of an entry that the invariants read. -/
structure EntryCore where
  iUrl : Des8
  iFileName : Des16
  iState : TCacheEntryState
  iRef : UInt16
  iBodySize : Nat
  iHeaderSize : UInt16
  iEvictionCandidate : Bool
  iBodyFileDeleteNeeded : Bool

/-- The core of an entry. -/
def CHttpCacheEntry.core (e : CHttpCacheEntry) : EntryCore where
  iUrl := e.iUrl
  iFileName := e.iFileName
  iState := e.iState
  iRef := e.iRef
  iBodySize := e.iBodySize
  iHeaderSize := e.iHeaderSize
  iEvictionCandidate := e.iEvictionCandidate
  iBodyFileDeleteNeeded := e.iBodyFileDeleteNeeded

/-- The names of an entry. -/
def CHttpCacheEntry.names (e : CHttpCacheEntry) : Des8 × Des16 := (e.iUrl, e.iFileName)

/-- The names and sizes of an entry. -/
def CHttpCacheEntry.sizes (e : CHttpCacheEntry) : (Des8 × Des16) × Nat × UInt16 :=
  (e.names, e.iBodySize, e.iHeaderSize)

/-- The core of an entry without the eviction candidate flag. -/
def CHttpCacheEntry.idleCore (e : CHttpCacheEntry) : EntryCore :=
  { e.core with iEvictionCandidate := false }

/-- The same entries with the same names, in the same table. -/
structure Frame (s s' : CacheState) : Prop where
  table : s'.iLookupTable = s.iLookupTable
  nextId : s'.nextId = s.nextId
  directory : s'.iDirectory = s.iDirectory
  history : s.history <:+ s'.history
  names : ∀ i, (s'.heap i).map CHttpCacheEntry.names = (s.heap i).map CHttpCacheEntry.names

/-- A frame in which no size changes. -/
structure SizeFrame (s s' : CacheState) : Prop where
  table : s'.iLookupTable = s.iLookupTable
  nextId : s'.nextId = s.nextId
  directory : s'.iDirectory = s.iDirectory
  content : s'.iContentSize = s.iContentSize
  history : s.history <:+ s'.history
  sizes : ∀ i, (s'.heap i).map CHttpCacheEntry.sizes = (s.heap i).map CHttpCacheEntry.sizes

/-- The same table, content size and entry cores, except for the eviction candidate flags. -/
structure Idle (s s' : CacheState) : Prop where
  table : s'.iLookupTable = s.iLookupTable
  nextId : s'.nextId = s.nextId
  directory : s'.iDirectory = s.iDirectory
  content : s'.iContentSize = s.iContentSize
  history : s'.history = s.history
  core : ∀ i, (s'.heap i).map CHttpCacheEntry.idleCore = (s.heap i).map CHttpCacheEntry.idleCore

/-- The same table, buckets, content size and entry cores. -/
structure Quiet (s s' : CacheState) : Prop where
  table : s'.iLookupTable = s.iLookupTable
  nextId : s'.nextId = s.nextId
  directory : s'.iDirectory = s.iDirectory
  content : s'.iContentSize = s.iContentSize
  buckets : s'.iBuckets = s.iBuckets
  history : s'.history = s.history
  core : ∀ i, (s'.heap i).map CHttpCacheEntry.core = (s.heap i).map CHttpCacheEntry.core

/-! ## Frames -/

theorem Frame.refl (s : CacheState) : Frame s s :=
  ⟨rfl, rfl, rfl, List.suffix_refl _, fun _ => rfl⟩

theorem Frame.trans {s₁ s₂ s₃ : CacheState} (h : Frame s₁ s₂) (h' : Frame s₂ s₃) : Frame s₁ s₃ :=
  ⟨h'.table.trans h.table, h'.nextId.trans h.nextId, h'.directory.trans h.directory,
    h.history.trans h'.history, fun i => (h'.names i).trans (h.names i)⟩

theorem Quiet.refl (s : CacheState) : Quiet s s := ⟨rfl, rfl, rfl, rfl, rfl, rfl, fun _ => rfl⟩

theorem Quiet.trans {s₁ s₂ s₃ : CacheState} (h : Quiet s₁ s₂) (h' : Quiet s₂ s₃) :
    Quiet s₁ s₃ :=
  ⟨h'.table.trans h.table, h'.nextId.trans h.nextId, h'.directory.trans h.directory,
    h'.content.trans h.content, h'.buckets.trans h.buckets, h'.history.trans h.history,
    fun i => (h'.core i).trans (h.core i)⟩

theorem map_eq_of_map_eq {α β : Type} {f : CHttpCacheEntry → α} (g : α → β)
    {o o' : Option CHttpCacheEntry} (h : o'.map f = o.map f) :
    o'.map (fun e => g (f e)) = o.map fun e => g (f e) := by
  have h' := congrArg (Option.map g) h
  rwa [Option.map_map, Option.map_map] at h'

theorem SizeFrame.frame {s s' : CacheState} (h : SizeFrame s s') : Frame s s' :=
  ⟨h.table, h.nextId, h.directory, h.history, fun i => map_eq_of_map_eq Prod.fst (h.sizes i)⟩

theorem Idle.sizeFrame {s s' : CacheState} (h : Idle s s') : SizeFrame s s' :=
  ⟨h.table, h.nextId, h.directory, h.content, by rw [h.history], fun i => map_eq_of_map_eq
    (fun c : EntryCore => ((c.iUrl, c.iFileName), c.iBodySize, c.iHeaderSize)) (h.core i)⟩

theorem Quiet.idle {s s' : CacheState} (h : Quiet s s') : Idle s s' :=
  ⟨h.table, h.nextId, h.directory, h.content, h.history, fun i => map_eq_of_map_eq
    (fun c : EntryCore => { c with iEvictionCandidate := false }) (h.core i)⟩

theorem Quiet.sizeFrame {s s' : CacheState} (h : Quiet s s') : SizeFrame s s' := h.idle.sizeFrame

theorem Quiet.frame {s s' : CacheState} (h : Quiet s s') : Frame s s' := h.sizeFrame.frame

/-- A field of the entries that a frame fixes, read at a pointer. -/
theorem exists_of_map_eq {α : Type} {f : CHttpCacheEntry → α} {o o' : Option CHttpCacheEntry}
    (h : o'.map f = o.map f) {e : CHttpCacheEntry} (he : o = some e) :
    ∃ e', o' = some e' ∧ f e' = f e := by
  rw [he, Option.map_some, Option.map_eq_some_iff] at h
  exact h

theorem Quiet.entry {s s' : CacheState} (h : Quiet s s') {i : EntryId} {e : CHttpCacheEntry}
    (he : s.heap i = some e) : ∃ e', s'.heap i = some e' ∧ e'.core = e.core :=
  exists_of_map_eq (h.core i) he

theorem Quiet.symm {s s' : CacheState} (h : Quiet s s') : Quiet s' s :=
  ⟨h.table.symm, h.nextId.symm, h.directory.symm, h.content.symm, h.buckets.symm,
    h.history.symm, fun i => (h.core i).symm⟩

theorem Frame.isSome {s s' : CacheState} (h : Frame s s') (i : EntryId) :
    (s'.heap i).isSome = (s.heap i).isSome := by
  have hi := congrArg Option.isSome (h.names i)
  rwa [Option.isSome_map, Option.isSome_map] at hi

theorem Frame.urlOf {s s' : CacheState} (h : Frame s s') : s'.urlOf = s.urlOf := by
  funext i
  have hi := h.names i
  unfold CacheState.urlOf
  cases he : s.heap i with
  | none =>
      rw [he, Option.map_none, Option.map_eq_none_iff] at hi
      rw [hi]
  | some e =>
      obtain ⟨e', he', hnames⟩ := exists_of_map_eq hi he
      rw [he']
      exact congrArg Prod.fst hnames

/-! ## Storing an entry -/

/-- Replacing an entry by one with the same value of `f` keeps `f` at every pointer. -/
theorem map_setEntry {α : Type} {f : CHttpCacheEntry → α} {s : CacheState} {id : EntryId}
    {e e' : CHttpCacheEntry} (he : s.heap id = some e) (hf : f e' = f e) (i : EntryId) :
    ((s.setEntry id (some e')).heap i).map f = (s.heap i).map f := by
  rw [heap_setEntry]
  cases hi : decide (i = id) with
  | true =>
      rw [decide_eq_true_eq] at hi
      rw [if_pos hi, hi, he, Option.map_some, Option.map_some, hf]
  | false =>
      rw [decide_eq_false_iff_not] at hi
      rw [if_neg hi]

section Stays

variable {R : CacheState → CacheState → Prop}

theorem stays_getEntry (id : EntryId) : Stays R (getEntry id) := by
  intro s a s' h
  obtain ⟨e, -, heq⟩ := getEntry_eq_some.1 h
  rw [Prod.mk.injEq] at heq
  rw [heq.2]

theorem stays_modify {f : CacheState → CacheState} (h : ∀ s, R s (f s)) :
    Stays R (modify f : CacheM PUnit) := by
  refine Stays.of_step fun s a s' hm => ?_
  rw [modify_eq_some, Prod.mk.injEq] at hm
  rw [hm.2]
  exact h s

theorem stays_modifyEntry {id : EntryId} {f : CHttpCacheEntry → CHttpCacheEntry}
    (h : ∀ s e, s.heap id = some e → R s (s.setEntry id (some (f e)))) :
    Stays R (modifyEntry id f) := by
  refine Stays.of_step fun s a s' hm => ?_
  obtain ⟨e, he, heq⟩ := modifyEntry_eq_some.1 hm
  rw [Prod.mk.injEq] at heq
  rw [heq.2]
  exact h s e he

end Stays

/-! ## Quiet operations -/

theorem quiet_setEntry {s : CacheState} {id : EntryId} {e e' : CHttpCacheEntry}
    (he : s.heap id = some e) (hcore : e'.core = e.core) :
    Quiet s (s.setEntry id (some e')) :=
  ⟨rfl, rfl, rfl, rfl, rfl, rfl, map_setEntry he hcore⟩

theorem quiet_modifyEntry {id : EntryId} {f : CHttpCacheEntry → CHttpCacheEntry}
    (hf : ∀ e, (f e).core = e.core) : Stays Quiet (modifyEntry id f) :=
  stays_modifyEntry fun _ e he => quiet_setEntry he (hf e)

theorem quiet_modifyPostpone (f : CHttpCacheFileWriteHandler → CHttpCacheFileWriteHandler) :
    Stays Quiet (modifyPostpone f) :=
  stays_modify fun _ => ⟨rfl, rfl, rfl, rfl, rfl, rfl, fun _ => rfl⟩

theorem quiet_requestComplete (r : Int) : Stays Quiet (requestComplete r) :=
  stays_modify fun _ => ⟨rfl, rfl, rfl, rfl, rfl, rfl, fun _ => rfl⟩

theorem quiet_modify_files (f : CacheState → Des16 → Option Des8)
    (g : CacheState → List Des16) :
    Stays Quiet (modify fun s : CacheState => { s with files := f s, openFiles := g s }) :=
  stays_modify fun _ => ⟨rfl, rfl, rfl, rfl, rfl, rfl, fun _ => rfl⟩

theorem quiet_deleteFile (name : Des16) : Stays Quiet (deleteFile name) :=
  quiet_modify_files _ _

theorem quiet_setCacheEntry (t : TransId) (entry : Option EntryId) :
    Stays Quiet (setCacheEntry t entry) :=
  stays_modify fun _ => ⟨rfl, rfl, rfl, rfl, rfl, rfl, fun _ => rfl⟩

theorem quiet_setBodyDataCached (id : EntryId) (bit : Bool) :
    Stays Quiet (setBodyDataCached id bit) :=
  quiet_modifyEntry fun _ => rfl

theorem quiet_resetBodyData (id : EntryId) : Stays Quiet (resetBodyData id) :=
  quiet_modifyEntry fun _ => rfl

theorem quiet_bodyWriteComplete (id : EntryId) : Stays Quiet (bodyWriteComplete id) :=
  quiet_modifyEntry fun _ => rfl

theorem quiet_clearDeleteObserver (id : EntryId) : Stays Quiet (clearDeleteObserver id) :=
  quiet_modifyEntry fun _ => rfl

theorem quiet_headerData (id : EntryId) : Stays Quiet (headerData id) := by
  refine Stays.bind (stays_getEntry id) fun e => ?_
  cases e.iHeaderBuffer with
  | none => exact Stays.fault
  | some header => exact Stays.pure header

theorem quiet_closeBodyFile (id : EntryId) : Stays Quiet (closeBodyFile id) := by
  refine Stays.bind (stays_getEntry id) fun e => Stays.whenM fun _ => ?_
  exact Stays.bind (quiet_modify_files _ _) fun _ => quiet_modifyEntry fun _ => rfl

theorem quiet_openBodyFile (id : EntryId) : Stays Quiet (openBodyFile id) := by
  refine Stays.bind (stays_getEntry id) fun e => Stays.bind Stays.get fun s => ?_
  refine Stays.ite (fun _ => ?_) fun _ => Stays.pure _
  refine Stays.bind (quiet_modify_files _ _) fun _ => ?_
  exact Stays.bind (quiet_modifyEntry fun _ => rfl) fun _ => Stays.pure _

theorem quiet_writeBodyFile (io : Io) (id : EntryId) (bufs : List Des8) :
    Stays Quiet (writeBodyFile io id bufs) := by
  refine Stays.bind (stays_getEntry id) fun e => Stays.bind Stays.get fun s => ?_
  exact Stays.bind (quiet_modify_files _ _) fun _ => Stays.pure _

theorem quiet_cancelWriteHelper (id : EntryId) (helper : CHttpCacheEntryAsyncWriteHelper) :
    Stays Quiet (cancelWriteHelper id helper) := by
  refine Stays.whenM fun _ => ?_
  refine Stays.bind (quiet_requestComplete _) fun _ => ?_
  refine Stays.bind (quiet_closeBodyFile id) fun _ => ?_
  exact Stays.bind (quiet_bodyWriteComplete id) fun _ => quiet_modifyEntry fun _ => rfl

theorem quiet_cancelBodyWrite (id : EntryId) : Stays Quiet (cancelBodyWrite id) := by
  refine Stays.bind (stays_getEntry id) fun e => ?_
  cases e.iWriteHelper with
  | none => exact Stays.pure _
  | some helper => exact Stays.whenM fun _ => quiet_cancelWriteHelper id helper

theorem quiet_removeEntry (id : EntryId) : Stays Quiet (removeEntry id) := by
  refine Stays.bind Stays.get fun s => ?_
  cases s.iPostponeHandler with
  | none => exact Stays.pure _
  | some h =>
      refine Stays.ite (fun _ => quiet_modifyPostpone _) fun _ => ?_
      refine Stays.ite (fun _ => ?_) fun _ => Stays.pure _
      exact Stays.bind (quiet_modifyPostpone _) fun _ => quiet_modifyEntry fun _ => rfl

theorem quiet_writeBodyDataAsync (memory : Bool) (id : EntryId) :
    Stays Quiet (writeBodyDataAsync memory id) := by
  refine Stays.bind (stays_getEntry id) fun e => ?_
  refine Stays.bind ?_ fun _ => quiet_modifyEntry fun _ => ?_
  · cases e.iWriteHelper with
    | none => exact Stays.pure _
    | some helper => exact quiet_cancelWriteHelper id helper
  · cases memory with
    | true => rfl
    | false => rfl

theorem quiet_writeHelperRunL (id : EntryId) (status : Int) :
    Stays Quiet (writeHelperRunL id status) := by
  refine Stays.bind (stays_getEntry id) fun e => ?_
  cases e.iWriteHelper with
  | none => exact Stays.fault
  | some helper =>
      refine Stays.bind Stays.guardM fun _ => ?_
      cases e.iCacheBuffer.iBufferList[helper.iBodyPart]? with
      | some seg =>
          refine Stays.bind (Stays.whenM fun _ => quiet_modify_files _ _) fun _ => ?_
          exact quiet_modifyEntry fun _ => rfl
      | none =>
          refine Stays.bind (quiet_closeBodyFile id) fun _ => ?_
          refine Stays.bind (quiet_bodyWriteComplete id) fun _ => ?_
          exact Stays.bind (quiet_modifyEntry fun _ => rfl) fun _ => quiet_requestComplete _

theorem quiet_nextChunkL (id : EntryId) : Stays Quiet (nextChunkL id) := by
  refine Stays.bind (stays_getEntry id) fun e => ?_
  have hopen : Stays Quiet (if e.bodyDataCached then pure false else openBodyFile id) :=
    Stays.ite (fun _ => Stays.pure _) fun _ => quiet_openBodyFile id
  refine Stays.bind hopen fun opened => ?_
  refine Stays.ite (fun _ => ?_) fun _ => ?_
  · refine Stays.bind Stays.get fun s => Stays.bind (quiet_closeBodyFile id) fun _ => ?_
    split
    · exact Stays.pure _
    · exact Stays.pure _
  · exact Stays.bind Stays.guardM fun _ => Stays.pure _

theorem quiet_beginWriting : Stays Quiet beginWriting := quiet_modifyPostpone _

theorem quiet_addEntry (freeMem err : Int) (id : EntryId) :
    Stays Quiet (addEntry freeMem err id) := by
  refine Stays.bind (stays_getEntry id) fun e => Stays.bind Stays.get fun s => ?_
  cases s.iPostponeHandler with
  | none => exact Stays.pure _
  | some h =>
      refine Stays.ite (fun _ => Stays.pure _) fun _ => Stays.ite (fun _ => ?_) fun _ => ?_
      · refine Stays.bind (quiet_modifyPostpone _) fun _ => ?_
        refine Stays.bind (Stays.whenM fun _ => ?_) fun _ => Stays.pure _
        exact Stays.bind (quiet_modifyPostpone _) fun _ => quiet_beginWriting
      · refine Stays.bind Stays.guardM fun _ => Stays.bind (quiet_modifyPostpone _) fun _ => ?_
        refine Stays.ite (fun _ => ?_) fun _ => ?_
        · exact Stays.bind (quiet_modifyEntry fun _ => rfl) fun _ => Stays.pure _
        · exact Stays.ite (fun _ => Stays.pure _) fun _ => Stays.pure _

theorem quiet_postponeRemoveAll : Stays Quiet postponeRemoveAll := by
  refine Stays.bind Stays.get fun s => ?_
  cases s.iPostponeHandler with
  | none => exact Stays.pure _
  | some h =>
      refine Stays.bind (Stays.forEach fun i _ => quiet_clearDeleteObserver i) fun _ => ?_
      refine Stays.bind (quiet_modifyPostpone _) fun _ => ?_
      exact Stays.bind Stays.guardM fun _ => quiet_modifyPostpone _

theorem quiet_writeTimeout : Stays Quiet writeTimeout := by
  refine Stays.bind Stays.get fun s => ?_
  cases s.iPostponeHandler with
  | none => exact Stays.fault
  | some h =>
      refine Stays.bind Stays.guardM fun _ => ?_
      exact Stays.bind (quiet_modifyPostpone _) fun _ => quiet_beginWriting

theorem quiet_dropEmpty (fuel : Nat) : Stays Quiet (dropEmpty fuel) := by
  induction fuel with
  | zero => exact Stays.pure _
  | succ fuel ih =>
      refine Stays.bind Stays.get fun s => ?_
      cases s.iPostponeHandler with
      | none => exact Stays.pure _
      | some h =>
          dsimp only
          cases h.iObjectQueue with
          | nil => exact Stays.pure _
          | cons id rest =>
              refine Stays.bind (stays_getEntry id) fun e => ?_
              refine Stays.ite (fun _ => ?_) fun _ => Stays.pure _
              refine Stays.bind (quiet_clearDeleteObserver id) fun _ => ?_
              exact Stays.bind (quiet_modifyPostpone _) fun _ => ih

section Names

variable [Platform]

theorem quiet_find (url : Des8) : Stays Quiet (find url) :=
  Stays.bind Stays.get fun _ => Stays.pure _

theorem quiet_saveLookupTableL (indexOk : Bool) : Stays Quiet (saveLookupTableL indexOk) := by
  refine Stays.bind Stays.get fun s => ?_
  cases externalizeL s.iDirectory (s.iLookupTable.entries.filterMap s.heap) with
  | none => exact Stays.fault
  | some bytes =>
      refine Stays.whenM fun _ => stays_modify fun _ => ?_
      exact ⟨rfl, rfl, rfl, rfl, rfl, rfl, fun _ => rfl⟩

theorem quiet_goIdle (env : Env) : Stays Quiet (goIdle env) :=
  Stays.bind (quiet_saveLookupTableL _) fun _ => quiet_modifyPostpone _

end Names

end SymbianWeb.HttpCache
