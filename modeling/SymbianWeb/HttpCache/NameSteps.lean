import SymbianWeb.HttpCache.UniqueUrls

/-!
# What the operations do to the names of the entries

Seen from the outside, an operation that inserts nothing leaves each entry its names, or erases
it. `NameStep` is one step of this kind; all functions the operations are made of consist of such
steps (`admits_nameStep`). The calls of `DeleteCacheEntry` are steps of their own, because which
entry they erase depends on the table.
-/

set_option autoImplicit false

namespace SymbianWeb.HttpCache

open FaultState CHttpCacheLookupTable

/-- A call of `DeleteCacheEntry`. -/
def Call.isDeletion : Call → Bool
  | .deleteCacheEntry .. => true
  | _ => false

/-- The same entries under the same names, and no call of `DeleteCacheEntry`. -/
structure Named (s s' : CacheState) : Prop extends Frame s s' where
  calls : ∀ c ∈ s'.history, c ∈ s.history ∨ c.isDeletion = false

/-- One step of an operation that inserts nothing. -/
inductive NameStep [Platform] (s s' : CacheState) : Prop where
  | named (h : Named s s')
  | erased (pos : Nat) (id : EntryId) (e : CHttpCacheEntry) (h : Erased pos id e s s')
  | deleted (id : EntryId) (a : Unit) (h : deleteCacheEntry id s = some (a, s'))

/-! ## Steps that keep the names -/

theorem Frame.named {s s' : CacheState} (h : Frame s s') (hcalls : s'.history = s.history) :
    Named s s' :=
  ⟨h, fun _ hc => .inl (hcalls ▸ hc)⟩

theorem Quiet.named {s s' : CacheState} (h : Quiet s s') : Named s s' := h.frame.named h.history

theorem Idle.named {s s' : CacheState} (h : Idle s s') : Named s s' :=
  h.sizeFrame.frame.named h.history

theorem named_of_quiet {α : Type} {m : CacheM α} (h : Stays Quiet m) : Stays Named m :=
  h.mono fun _ _ => Quiet.named

theorem named_modifyEntry {id : EntryId} {f : CHttpCacheEntry → CHttpCacheEntry}
    (hf : ∀ e, (f e).names = e.names) : Stays Named (modifyEntry id f) :=
  stays_modifyEntry fun _ e he => Frame.named
    ⟨rfl, rfl, rfl, List.suffix_refl _, map_setEntry he (hf e)⟩ rfl

theorem named_setBucket (i : Fin 5) (queue : List EntryId) : Stays Named (setBucket i queue) :=
  stays_modify fun _ => Frame.named ⟨rfl, rfl, rfl, List.suffix_refl _, fun _ => rfl⟩ rfl

theorem named_addContentSize (n : Int) : Stays Named (addContentSize n) :=
  stays_modify fun _ => Frame.named ⟨rfl, rfl, rfl, List.suffix_refl _, fun _ => rfl⟩ rfl

theorem named_note {c : Call} (hc : c.isDeletion = false) : Stays Named (note c) := by
  apply stays_modify
  intro s
  refine ⟨⟨rfl, rfl, rfl, List.suffix_cons _ _, fun _ => rfl⟩, ?_⟩
  intro c' hc'
  rcases List.mem_cons.1 hc' with rfl | hold
  · exact .inr hc
  · exact .inl hold

theorem named_evictionInsert (id : EntryId) : Stays Named (evictionInsert id) := by
  refine Stays.bind (stays_getEntry id) fun e => Stays.bind Stays.guardM fun _ => ?_
  exact Stays.bind Stays.get fun s => named_setBucket _ _

theorem named_evictionRemove (id : EntryId) : Stays Named (evictionRemove id) := by
  refine Stays.bind (stays_getEntry id) fun e => Stays.bind Stays.guardM fun _ => ?_
  exact Stays.bind Stays.get fun s => Stays.whenM fun _ => named_setBucket _ _

theorem named_evictionAccessed (id : EntryId) : Stays Named (evictionAccessed id) := by
  refine Stays.bind (stays_getEntry id) fun e => Stays.bind Stays.get fun s => ?_
  refine Stays.ite (fun _ => Stays.ite (fun _ => Stays.ite (fun _ => ?_) fun _ => ?_) fun _ =>
    Stays.pure _) fun _ => Stays.pure _
  · exact Stays.whenM fun _ => named_setBucket _ _
  · exact Stays.bind (named_setBucket _ _) fun _ => named_setBucket _ _

theorem named_setState (id : EntryId) (st : TCacheEntryState) : Stays Named (setState id st) := by
  refine Stays.bind (stays_getEntry id) fun e => ?_
  refine Stays.bind (Stays.whenM fun _ => ?_) fun _ => named_modifyEntry fun _ => rfl
  exact Stays.bind (named_evictionInsert id) fun _ => named_modifyEntry fun _ => rfl

theorem named_accessed (now : Clock) (id : EntryId) : Stays Named (accessed now id) := by
  refine Stays.bind (stays_getEntry id) fun e => Stays.bind (named_note rfl) fun _ => ?_
  refine Stays.bind (named_modifyEntry fun _ => rfl) fun _ => ?_
  exact Stays.bind (stays_getEntry id) fun e => Stays.whenM fun _ => named_evictionAccessed id

theorem named_accessedAt (id : EntryId) (lastAccessed : Int) (ref : UInt16) :
    Stays Named (accessedAt id lastAccessed ref) := by
  refine Stays.bind (stays_getEntry id) fun e => Stays.bind (named_note rfl) fun _ => ?_
  refine Stays.bind (named_modifyEntry fun _ => rfl) fun _ => ?_
  exact Stays.bind (stays_getEntry id) fun e => Stays.whenM fun _ => named_evictionAccessed id

theorem named_setBodySize (id : EntryId) (n : Nat) : Stays Named (setBodySize id n) := by
  refine Stays.bind (stays_getEntry id) fun e => ?_
  refine Stays.bind (Stays.whenM fun _ => ?_) fun _ => named_modifyEntry fun _ => rfl
  exact Stays.bind (named_evictionRemove id) fun _ => named_modifyEntry fun _ => rfl

theorem named_createNewBodyFile (io : Io) (id : EntryId) :
    Stays Named (createNewBodyFile io id) := by
  refine Stays.bind (stays_getEntry id) fun e => Stays.bind Stays.get fun s => ?_
  refine Stays.bind (named_note rfl) fun _ => Stays.ite (fun _ => ?_) fun _ => ?_
  · refine Stays.bind (named_of_quiet (quiet_modify_files _ _)) fun _ => ?_
    exact Stays.bind (named_modifyEntry fun _ => rfl) fun _ => Stays.pure _
  · refine Stays.bind (named_setBodySize id 0) fun _ => ?_
    exact Stays.bind (named_of_quiet (quiet_resetBodyData id)) fun _ => Stays.pure _

theorem named_removeBodyData (id : EntryId) : Stays Named (removeBodyData id) := by
  refine Stays.bind (stays_getEntry id) fun e => Stays.bind (named_addContentSize _) fun _ => ?_
  refine Stays.bind (named_setBodySize id 0) fun _ => ?_
  refine Stays.bind (named_of_quiet (quiet_resetBodyData id)) fun _ => ?_
  refine Stays.bind (named_of_quiet (quiet_openBodyFile id)) fun opened => ?_
  refine Stays.whenM fun _ => Stays.bind ?_ fun _ => named_of_quiet (quiet_closeBodyFile id)
  exact named_of_quiet (quiet_modify_files _ fun s => s.openFiles)

theorem named_updateSizeInformation (id : EntryId) (n : Nat) :
    Stays Named (updateSizeInformation id n) := by
  refine Stays.bind (stays_getEntry id) fun e => Stays.bind (named_setBodySize id _) fun _ => ?_
  exact named_addContentSize _

theorem named_setBodyFileDeleteNeeded (id : EntryId) (b : Bool) :
    Stays Named (setBodyFileDeleteNeeded id b) :=
  named_modifyEntry fun _ => rfl

theorem named_removeHeaders (id : EntryId) : Stays Named (removeHeaders id) := by
  refine Stays.bind (stays_getEntry id) fun e => Stays.bind (named_addContentSize _) fun _ => ?_
  exact named_modifyEntry fun _ => rfl

theorem named_saveHeaders (io : Io) (id : EntryId) (header : Des8) :
    Stays Named (saveHeaders io id header) := by
  refine Stays.bind Stays.get fun s => Stays.ite (fun _ => ?_) fun _ => Stays.pure _
  refine Stays.bind (named_modifyEntry fun _ => rfl) fun _ => ?_
  refine Stays.bind (stays_getEntry id) fun e => ?_
  exact Stays.bind (named_addContentSize _) fun _ => Stays.pure _

/-! ## All functions -/

section Functions

variable [Platform]

theorem nameStep_of_named {α : Type} {m : CacheM α} (h : Stays Named m) : Stays NameStep m :=
  h.mono fun _ _ => .named

theorem nameStep_erase {s : CacheState} {pos : Nat} {id : EntryId}
    (hslot : s.iLookupTable.entryAt pos = some id) : StaysFrom NameStep s (erase pos) := by
  apply StaysFrom.of_step
  intro a s' hrun
  obtain ⟨e, herased⟩ := erase_spec hrun hslot
  exact .erased pos id e herased

theorem nameStep_evictStep {s s' : CacheState} (h : EvictStep s s') : NameStep s s' := by
  cases h with
  | idle h => exact .named h.named
  | erased pos id e h _ => exact .erased pos id e h

/-- All functions of which the operations are made do nothing else with the names. -/
theorem admits_nameStep : Admits NameStep fun _ => True where
  quiet _ _ h := .named h.named
  eraseComplete hslot _ _ := nameStep_erase hslot
  space now size := (evictStep_cacheNeedsSpaceL now size).mono fun _ _ => nameStep_evictStep
  deleteCacheEntry id _ := Stays.of_step fun _ a _ hrun => .deleted id a hrun
  setState id st _ _ _ := nameStep_of_named (named_setState id st)
  accessed now id := nameStep_of_named (named_accessed now id)
  removeHeaders id := nameStep_of_named (named_removeHeaders id)
  saveHeaders io id header s _ := nameStep_of_named (named_saveHeaders io id header) s
  createNewBodyFile io id := nameStep_of_named (named_createNewBodyFile io id)
  removeBodyData id := nameStep_of_named (named_removeBodyData id)
  updateSizeInformation id n s _ := nameStep_of_named (named_updateSizeInformation id n) s
  bodyFileDeleteNeeded id := nameStep_of_named (named_setBodyFileDeleteNeeded id true)
  bodyFileDeleted id s _ := nameStep_of_named (named_setBodyFileDeleteNeeded id false) s

theorem nameStep_saveResponseHeaders (env : Env) (t : TransId) (resp : Response) (id : EntryId) :
    Stays NameStep (saveResponseHeaders env t resp id) := fun s =>
  admits_nameStep.saveResponseHeaders env t resp trivial (nameStep_of_named (named_setState id _) s)

theorem nameStep_saveInsertedHeaders (env : Env) (t : TransId) (resp : Response) (id : EntryId) :
    Stays NameStep (do
      whenM (resp.protectedEntry = true) (setProtected id)
      saveResponseHeaders env t resp id) := by
  apply Stays.bind
  · exact Stays.whenM fun _ => nameStep_of_named (named_modifyEntry fun _ => rfl)
  · intro _
    exact nameStep_saveResponseHeaders env t resp id

/-- What a step leaves keeps its names. -/
theorem NameStep.survives {s s' : CacheState} (h : NameStep s s') :
    Survives CHttpCacheEntry.names s s' := by
  have herased : ∀ {pos id e} {s : CacheState}, Erased pos id e s s' →
      Survives CHttpCacheEntry.names s s' := fun he =>
    he.survives.comp fun c : EntryCore => (c.iUrl, c.iFileName)
  cases h with
  | named h => exact Survives.of_map h.names
  | erased pos id e h => exact herased h
  | deleted id a h =>
      obtain ⟨e, s₁, hq, -, ⟨-, rfl⟩ | ⟨pos, j, e', -, he⟩⟩ := deleteCacheEntry_spec h
      · exact Survives.of_map hq.frame.names
      · exact (Survives.of_map hq.frame.names).trans (herased (s := s₁.noted _) he)

theorem NameStep.tableInv {s s' : CacheState} (h : NameStep s s') (ht : TableInv s) :
    TableInv s' := by
  cases h with
  | named h => exact ht.of_frame h.toFrame
  | erased pos id e h => exact ht.of_erased h
  | deleted id a h =>
      obtain ⟨e, s₁, hq, -, hcase⟩ := deleteCacheEntry_spec h
      have hnoted : ∀ c, TableInv (s₁.noted c) := fun c =>
        (ht.of_frame hq.frame).of_frame ⟨rfl, rfl, rfl, List.suffix_cons _ _, fun _ => rfl⟩
      rcases hcase with ⟨-, rfl⟩ | ⟨pos, j, e', -, he⟩
      · exact hnoted _
      · exact (hnoted _).of_erased he

end Functions

end SymbianWeb.HttpCache
