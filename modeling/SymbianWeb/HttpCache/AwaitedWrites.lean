import SymbianWeb.HttpCache.Operations

/-!
# What the file write handler waits for

The file write handler is `Pending` when it is active and its request has not been completed.
Only a running write helper completes it then (`Writing`). `KeepsWrites s s'` says that a handler
which is pending in `s'` was so in `s`, and that the helpers that ran in `s` still run. All that
the cache does keeps writes in this sense but for `FlushAsync`, which makes the handler wait.

The proofs follow the functions, as those of `Operations` do. Where an entry is deleted, its
destructor has checked that no helper runs.
-/

set_option autoImplicit false

namespace SymbianWeb.HttpCache

open FaultState

/-- The file write handler is active and its request is not completed. -/
def CacheState.Pending (s : CacheState) : Prop :=
  ∃ h, s.iPostponeHandler = some h ∧ h.isActive = true ∧ h.iStatus = none

/-- The write helper of an entry runs. -/
def CacheState.Writing (s : CacheState) (id : EntryId) : Prop :=
  ∃ e helper, s.heap id = some e ∧ e.iWriteHelper = some helper ∧ helper.isActive = true

/-- The addresses that have not been given out hold no object. -/
def CacheState.Fresh (s : CacheState) : Prop := ∀ i, s.nextId ≤ i → s.heap i = none

/-- No wait begins, and while there is one the helpers that run go on. -/
structure KeepsWrites (s s' : CacheState) : Prop where
  fresh : s.Fresh → s'.Fresh
  pending : s.Fresh → s'.Pending → s.Pending
  writing : s.Fresh → s'.Pending → ∀ i, s.Writing i → s'.Writing i

theorem KeepsWrites.refl (s : CacheState) : KeepsWrites s s :=
  ⟨fun h => h, fun _ h => h, fun _ _ _ h => h⟩

theorem KeepsWrites.trans (s₁ s₂ s₃ : CacheState) (h : KeepsWrites s₁ s₂)
    (h' : KeepsWrites s₂ s₃) : KeepsWrites s₁ s₃ where
  fresh hs := h'.fresh (h.fresh hs)
  pending hs hp := h.pending hs (h'.pending (h.fresh hs) hp)
  writing hs hp i hi :=
    h'.writing (h.fresh hs) hp i (h.writing hs (h'.pending (h.fresh hs) hp) i hi)

/-- A computation whose steps keep writes keeps them as a whole. -/
theorem keepsWrites_of {α : Type} {m : CacheM α} (h : Stays KeepsWrites m) {s s' : CacheState}
    {a : α} (hm : m s = some (a, s')) : KeepsWrites s s' :=
  related_of_chain KeepsWrites.refl KeepsWrites.trans (h s a s' hm)

/-! ## Steps -/

/-- A step that changes no object and completes the request if it changes the handler. -/
theorem keepsWrites_of_heap {s s' : CacheState} (hheap : s'.heap = s.heap)
    (hnext : s'.nextId = s.nextId) (hpending : s'.Pending → s.Pending) : KeepsWrites s s' where
  fresh hs i hi := by
    rw [hheap]
    exact hs i (by rwa [← hnext])
  pending _ := hpending
  writing _ _ i hi := by
    unfold CacheState.Writing
    rw [hheap]
    exact hi

theorem keeps_modify {f : CacheState → CacheState}
    (h : ∀ s, (f s).heap = s.heap ∧ (f s).nextId = s.nextId ∧
      (f s).iPostponeHandler = s.iPostponeHandler) :
    Stays KeepsWrites (modify f : CacheM PUnit) := by
  refine stays_modify fun s => keepsWrites_of_heap (h s).1 (h s).2.1 ?_
  intro hp
  unfold CacheState.Pending at hp ⊢
  rwa [(h s).2.2] at hp

theorem keeps_modifyPostpone {f : CHttpCacheFileWriteHandler → CHttpCacheFileWriteHandler}
    (h : ∀ x, (f x).isActive = true → (f x).iStatus = none →
      x.isActive = true ∧ x.iStatus = none) : Stays KeepsWrites (modifyPostpone f) := by
  refine stays_modify fun s => keepsWrites_of_heap rfl rfl ?_
  rintro ⟨x', hx', hactive, hstatus⟩
  obtain ⟨x, hx, rfl⟩ := Option.map_eq_some_iff.1 hx'
  exact ⟨x, hx, h x hactive hstatus⟩

theorem not_pending_requestComplete {s s' : CacheState} {r : Int} {a : Unit}
    (h : requestComplete r s = some (a, s')) : ¬ s'.Pending := by
  obtain rfl := modify_run.1 h
  rintro ⟨x', hx', -, hstatus⟩
  obtain ⟨x, -, rfl⟩ := Option.map_eq_some_iff.1 hx'
  cases hstatus

theorem keeps_requestComplete (r : Int) : Stays KeepsWrites (requestComplete r) := by
  refine Stays.of_step fun s a s' hm => ?_
  have hnot := not_pending_requestComplete hm
  obtain rfl := modify_run.1 hm
  exact keepsWrites_of_heap rfl rfl fun hp => absurd hp hnot

theorem fresh_setEntry {s : CacheState} {id : EntryId} {e : CHttpCacheEntry}
    (he : s.heap id = some e) (o : Option CHttpCacheEntry) (hs : s.Fresh) :
    (s.setEntry id o).Fresh := by
  intro i hi
  rw [heap_setEntry]
  have hne : i ≠ id := by
    rintro rfl
    rw [hs i hi] at he
    cases he
  rw [if_neg hne]
  exact hs i hi

/-- Replacing an entry whose helper does not run, or runs on. -/
theorem keepsWrites_setEntry {s : CacheState} {id : EntryId} {e : CHttpCacheEntry}
    (he : s.heap id = some e) {o : Option CHttpCacheEntry}
    (h : s.Writing id → (s.setEntry id o).Writing id) : KeepsWrites s (s.setEntry id o) where
  fresh := fresh_setEntry he o
  pending _ hp := hp
  writing _ _ i hi := by
    by_cases hid : i = id
    · rw [hid] at hi ⊢
      exact h hi
    · unfold CacheState.Writing
      rw [heap_setEntry, if_neg hid]
      exact hi

theorem keeps_modifyEntry {id : EntryId} {f : CHttpCacheEntry → CHttpCacheEntry}
    (hf : ∀ e, (f e).iWriteHelper = e.iWriteHelper) : Stays KeepsWrites (modifyEntry id f) := by
  refine stays_modifyEntry fun s e he => keepsWrites_setEntry he ?_
  rintro ⟨e', helper, he', hhelper, hrun⟩
  obtain rfl : e' = e := Option.some.inj (he'.symm.trans he)
  exact ⟨f e', helper, heap_setEntry_self _ _ _, by rw [hf, hhelper], hrun⟩

theorem keeps_withNew (e : CHttpCacheEntry) :
    Stays KeepsWrites (modify fun s : CacheState => s.withNew e : CacheM PUnit) := by
  refine stays_modify fun s => ⟨?_, fun _ hp => hp, ?_⟩
  · intro hs i hi
    have hne : i ≠ s.nextId := fun heq => Nat.not_succ_le_self i (by rw [heq] at hi ⊢; exact hi)
    show (s.setEntry s.nextId (some e)).heap i = none
    rw [heap_setEntry, if_neg hne]
    exact hs i (Nat.le_of_succ_le hi)
  · rintro hs - i ⟨e', helper, he', hhelper, hrun⟩
    have hne : i ≠ s.nextId := by
      rintro rfl
      rw [hs _ (Nat.le_refl _)] at he'
      cases he'
    refine ⟨e', helper, ?_, hhelper, hrun⟩
    show (s.setEntry s.nextId (some e)).heap i = some e'
    rw [heap_setEntry, if_neg hne, he']

/-! ## Entries -/

theorem keeps_note (c : Call) : Stays KeepsWrites (note c) := keeps_modify fun _ => ⟨rfl, rfl, rfl⟩

theorem keeps_setBucket (i : Fin 5) (queue : List EntryId) :
    Stays KeepsWrites (setBucket i queue) :=
  keeps_modify fun _ => ⟨rfl, rfl, rfl⟩

theorem keeps_evictionInsert (id : EntryId) : Stays KeepsWrites (evictionInsert id) := by
  refine Stays.bind (stays_getEntry id) fun e => Stays.bind Stays.guardM fun _ => ?_
  exact Stays.bind Stays.get fun s => keeps_setBucket _ _

theorem keeps_evictionAccessed (id : EntryId) : Stays KeepsWrites (evictionAccessed id) := by
  refine Stays.bind (stays_getEntry id) fun e => Stays.bind Stays.get fun s => ?_
  refine Stays.ite (fun _ => Stays.ite (fun _ => ?_) fun _ => Stays.pure _) fun _ => Stays.pure _
  refine Stays.ite (fun _ => Stays.whenM fun _ => keeps_setBucket _ _) fun _ => ?_
  exact Stays.bind (keeps_setBucket _ _) fun _ => keeps_setBucket _ _

theorem keeps_evictionRemove (id : EntryId) : Stays KeepsWrites (evictionRemove id) := by
  refine Stays.bind (stays_getEntry id) fun e => Stays.bind Stays.guardM fun _ => ?_
  exact Stays.bind Stays.get fun s => Stays.whenM fun _ => keeps_setBucket _ _

theorem keeps_setState (id : EntryId) (st : TCacheEntryState) :
    Stays KeepsWrites (setState id st) := by
  refine Stays.bind (stays_getEntry id) fun e => ?_
  refine Stays.bind (Stays.whenM fun _ => ?_) fun _ => keeps_modifyEntry fun _ => rfl
  exact Stays.bind (keeps_evictionInsert id) fun _ => keeps_modifyEntry fun _ => rfl

theorem keeps_accessed (now : Clock) (id : EntryId) : Stays KeepsWrites (accessed now id) := by
  refine Stays.bind (stays_getEntry id) fun e => Stays.bind (keeps_note _) fun _ => ?_
  refine Stays.bind (keeps_modifyEntry fun _ => rfl) fun _ => ?_
  exact Stays.bind (stays_getEntry id) fun e => Stays.whenM fun _ => keeps_evictionAccessed id

theorem keeps_accessedAt (id : EntryId) (last : Int) (ref : UInt16) :
    Stays KeepsWrites (accessedAt id last ref) := by
  refine Stays.bind (stays_getEntry id) fun e => Stays.bind (keeps_note _) fun _ => ?_
  refine Stays.bind (keeps_modifyEntry fun _ => rfl) fun _ => ?_
  exact Stays.bind (stays_getEntry id) fun e => Stays.whenM fun _ => keeps_evictionAccessed id

theorem keeps_setBodySize (id : EntryId) (n : Nat) : Stays KeepsWrites (setBodySize id n) := by
  refine Stays.bind (stays_getEntry id) fun e => ?_
  refine Stays.bind (Stays.whenM fun _ => ?_) fun _ => keeps_modifyEntry fun _ => rfl
  exact Stays.bind (keeps_evictionRemove id) fun _ => keeps_modifyEntry fun _ => rfl

theorem keeps_headerData (id : EntryId) : Stays KeepsWrites (headerData id) := by
  refine Stays.bind (stays_getEntry id) fun e => ?_
  cases e.iHeaderBuffer with
  | none => exact Stays.fault
  | some header => exact Stays.pure header

theorem keeps_closeBodyFile (id : EntryId) : Stays KeepsWrites (closeBodyFile id) := by
  refine Stays.bind (stays_getEntry id) fun e => Stays.whenM fun _ => ?_
  refine Stays.bind (keeps_modify fun _ => ⟨rfl, rfl, rfl⟩) fun _ => ?_
  exact keeps_modifyEntry fun _ => rfl

theorem keeps_bodyWriteComplete (id : EntryId) : Stays KeepsWrites (bodyWriteComplete id) :=
  keeps_modifyEntry fun _ => rfl

/-- What a cancelled helper leaves behind is not pending. -/
theorem keeps_cancelWriteHelper (id : EntryId) (helper : CHttpCacheEntryAsyncWriteHelper) :
    Stays KeepsWrites (cancelWriteHelper id helper) := by
  refine Stays.whenM fun _ => Stays.of_step fun s a s' hm => ?_
  obtain ⟨⟨⟩, s₁, hcomplete, hm⟩ := bind_eq_some.1 hm
  obtain ⟨_, s₂, hclose, hm⟩ := bind_eq_some.1 hm
  obtain ⟨_, s₃, hdone, hm⟩ := bind_eq_some.1 hm
  have h₁ : KeepsWrites s s₁ := keepsWrites_of (keeps_requestComplete _) hcomplete
  have h₃ : KeepsWrites s₁ s₃ := (keepsWrites_of (keeps_closeBodyFile id) hclose).trans _ _ _
    (keepsWrites_of (keeps_bodyWriteComplete id) hdone)
  obtain ⟨e, he, rfl⟩ := modifyEntry_run.1 hm
  have hnot : s.Fresh → ¬ s₃.Pending := fun hs hp =>
    not_pending_requestComplete hcomplete (h₃.pending (h₁.fresh hs) hp)
  exact ⟨fun hs => fresh_setEntry he _ (h₃.fresh (h₁.fresh hs)),
    fun hs hp => absurd hp (hnot hs), fun hs hp => absurd hp (hnot hs)⟩

theorem keeps_cancelBodyWrite (id : EntryId) : Stays KeepsWrites (cancelBodyWrite id) := by
  refine Stays.bind (stays_getEntry id) fun e => ?_
  cases e.iWriteHelper with
  | none => exact Stays.pure _
  | some helper => exact Stays.whenM fun _ => keeps_cancelWriteHelper id helper

theorem keeps_removeEntry (id : EntryId) : Stays KeepsWrites (removeEntry id) := by
  refine Stays.bind Stays.get fun s => ?_
  cases s.iPostponeHandler with
  | none => exact Stays.pure _
  | some h =>
      refine Stays.ite (fun _ => keeps_modifyPostpone fun _ h₁ h₂ => ⟨h₁, h₂⟩) fun _ => ?_
      refine Stays.ite (fun _ => ?_) fun _ => Stays.pure _
      refine Stays.bind (keeps_modifyPostpone fun _ h₁ h₂ => ⟨h₁, h₂⟩) fun _ => ?_
      exact keeps_modifyEntry fun _ => rfl

/-- The helper of an entry, as deleting the entry finds it. -/
theorem helper_closeBodyFile (id : EntryId) :
    Stays (Survives CHttpCacheEntry.iWriteHelper) (closeBodyFile id) := by
  refine Stays.bind (stays_getEntry id) fun e => Stays.whenM fun _ => ?_
  refine Stays.bind (stays_heap_modify fun _ => rfl) fun _ => ?_
  exact survives_modifyEntry fun _ => rfl

theorem helper_removeEntry (id : EntryId) :
    Stays (Survives CHttpCacheEntry.iWriteHelper) (removeEntry id) := by
  refine Stays.bind Stays.get fun s => ?_
  cases s.iPostponeHandler with
  | none => exact Stays.pure _
  | some h =>
      refine Stays.ite (fun _ => stays_heap_modify fun _ => rfl) fun _ => ?_
      refine Stays.ite (fun _ => ?_) fun _ => Stays.pure _
      refine Stays.bind (stays_heap_modify fun _ => rfl) fun _ => ?_
      exact survives_modifyEntry fun _ => rfl

theorem helper_evictionRemove (id : EntryId) :
    Stays (Survives CHttpCacheEntry.iWriteHelper) (evictionRemove id) := by
  refine Stays.bind (stays_getEntry id) fun e => Stays.bind Stays.guardM fun _ => ?_
  exact Stays.bind Stays.get fun s => Stays.whenM fun _ => stays_heap_modify fun _ => rfl

theorem keeps_deleteEntry (id : EntryId) : Stays KeepsWrites (deleteEntry id) := by
  refine Stays.of_step fun s a s' hm => ?_
  obtain ⟨e, he, hm⟩ := getEntry_bind.1 hm
  obtain ⟨_, s₁, hunlink, hm⟩ := bind_eq_some.1 hm
  obtain ⟨_, s₂, hqueue, hm⟩ := bind_eq_some.1 hm
  obtain ⟨_, s₃, hclose, hm⟩ := bind_eq_some.1 hm
  obtain ⟨hidle, hm⟩ := guardM_bind.1 hm
  obtain rfl := modify_run.1 hm
  have h₁ : KeepsWrites s s₁ :=
    keepsWrites_of (Stays.whenM fun _ => keeps_evictionRemove id) hunlink
  have h₂ : KeepsWrites s₁ s₂ :=
    keepsWrites_of (Stays.whenM fun _ => keeps_removeEntry id) hqueue
  have h₃ : KeepsWrites s₂ s₃ := keepsWrites_of (keeps_closeBodyFile id) hclose
  have hsame : Survives CHttpCacheEntry.iWriteHelper s s₃ :=
    ((survives_of (Stays.whenM fun _ => helper_evictionRemove id) hunlink).trans
      (survives_of (Stays.whenM fun _ => helper_removeEntry id) hqueue)).trans
      (survives_of (helper_closeBodyFile id) hclose)
  refine KeepsWrites.trans _ _ _ ((h₁.trans _ _ _ h₂).trans _ _ _ h₃) ?_
  cases he₃ : s₃.heap id with
  | none =>
      have hsame : s₃.setEntry id none = s₃ := by
        rw [CacheState.setEntry, ← he₃, Function.update_eq_self]
      rw [hsame]
      exact KeepsWrites.refl _
  | some e₃ =>
      refine keepsWrites_setEntry he₃ ?_
      -- the destructor has checked that the helper does not run
      rintro ⟨e', helper, he', hhelper, hrun⟩
      obtain ⟨e₀, he₀, heq⟩ := hsame id e' he'
      obtain rfl : e₀ = e := Option.some.inj (he₀.symm.trans he)
      rw [hidle helper (by rw [← heq, hhelper])] at hrun
      cases hrun

/-! ## The stream handler -/

theorem keeps_files (f : CacheState → Des16 → Option Des8) (g : CacheState → List Des16) :
    Stays KeepsWrites (modify fun s : CacheState => { s with files := f s, openFiles := g s }) :=
  keeps_modify fun _ => ⟨rfl, rfl, rfl⟩

theorem keeps_deleteFile (name : Des16) : Stays KeepsWrites (deleteFile name) := keeps_files _ _

theorem keeps_openBodyFile (id : EntryId) : Stays KeepsWrites (openBodyFile id) := by
  refine Stays.bind (stays_getEntry id) fun e => Stays.bind Stays.get fun s => ?_
  refine Stays.ite (fun _ => ?_) fun _ => Stays.pure _
  refine Stays.bind (keeps_files _ _) fun _ => ?_
  exact Stays.bind (keeps_modifyEntry fun _ => rfl) fun _ => Stays.pure _

theorem keeps_writeBodyFile (io : Io) (id : EntryId) (bufs : List Des8) :
    Stays KeepsWrites (writeBodyFile io id bufs) := by
  refine Stays.bind (stays_getEntry id) fun e => Stays.bind Stays.get fun s => ?_
  exact Stays.bind (keeps_files _ _) fun _ => Stays.pure _

theorem keeps_resetBodyData (id : EntryId) : Stays KeepsWrites (resetBodyData id) :=
  keeps_modifyEntry fun _ => rfl

theorem keeps_setBodyDataCached (id : EntryId) (bit : Bool) :
    Stays KeepsWrites (setBodyDataCached id bit) :=
  keeps_modifyEntry fun _ => rfl

theorem keeps_createNewBodyFile (io : Io) (id : EntryId) :
    Stays KeepsWrites (createNewBodyFile io id) := by
  refine Stays.bind (stays_getEntry id) fun e => Stays.bind Stays.get fun s => ?_
  refine Stays.bind (keeps_note _) fun _ => Stays.ite (fun _ => ?_) fun _ => ?_
  · refine Stays.bind (keeps_files _ _) fun _ => ?_
    exact Stays.bind (keeps_modifyEntry fun _ => rfl) fun _ => Stays.pure _
  · refine Stays.bind (keeps_setBodySize id 0) fun _ => ?_
    exact Stays.bind (keeps_resetBodyData id) fun _ => Stays.pure _

theorem keeps_addContentSize (delta : Int) : Stays KeepsWrites (addContentSize delta) :=
  keeps_modify fun _ => ⟨rfl, rfl, rfl⟩

theorem keeps_streamErase (id : EntryId) : Stays KeepsWrites (streamErase id) := by
  refine Stays.bind (keeps_cancelBodyWrite id) fun _ => Stays.bind (stays_getEntry id) fun e => ?_
  refine Stays.bind (keeps_deleteFile _) fun _ => ?_
  exact Stays.bind (keeps_addContentSize _) fun _ => keeps_addContentSize _

theorem keeps_nextChunkL (id : EntryId) : Stays KeepsWrites (nextChunkL id) := by
  refine Stays.bind (stays_getEntry id) fun e => ?_
  have hopen : Stays KeepsWrites (if e.bodyDataCached then pure false else openBodyFile id) :=
    Stays.ite (fun _ => Stays.pure _) fun _ => keeps_openBodyFile id
  refine Stays.bind hopen fun opened => Stays.ite (fun _ => ?_) fun _ => ?_
  · refine Stays.bind Stays.get fun s => Stays.bind (keeps_closeBodyFile id) fun _ => ?_
    split
    · exact Stays.pure _
    · exact Stays.pure _
  · exact Stays.bind Stays.guardM fun _ => Stays.pure _

theorem keeps_createHeaderBufferL (id : EntryId) (header : Des8) :
    Stays KeepsWrites (createHeaderBufferL id header) :=
  keeps_modifyEntry fun _ => rfl

theorem keeps_saveHeaders (io : Io) (id : EntryId) (header : Des8) :
    Stays KeepsWrites (saveHeaders io id header) := by
  refine Stays.bind Stays.get fun s => Stays.ite (fun _ => ?_) fun _ => Stays.pure _
  refine Stays.bind (keeps_createHeaderBufferL id header) fun _ => ?_
  refine Stays.bind (stays_getEntry id) fun e => ?_
  exact Stays.bind (keeps_addContentSize _) fun _ => Stays.pure _

theorem keeps_removeHeaders (id : EntryId) : Stays KeepsWrites (removeHeaders id) := by
  refine Stays.bind (stays_getEntry id) fun e => ?_
  exact Stays.bind (keeps_addContentSize _) fun _ => keeps_createHeaderBufferL id []

theorem keeps_updateSizeInformation (id : EntryId) (n : Nat) :
    Stays KeepsWrites (updateSizeInformation id n) := by
  refine Stays.bind (stays_getEntry id) fun e => ?_
  exact Stays.bind (keeps_setBodySize id _) fun _ => keeps_addContentSize _

theorem keeps_saveToBodyFile (io : Io) (id : EntryId) (body : Des8) (remainder : Nat) :
    Stays KeepsWrites (saveToBodyFile io id body remainder) := by
  refine Stays.bind (keeps_createNewBodyFile io id) fun created => ?_
  refine Stays.ite (fun _ => ?_) fun _ => Stays.pure _
  refine Stays.bind (stays_getEntry id) fun e => Stays.bind Stays.get fun s => ?_
  have hwrite : Stays KeepsWrites (if isDiskSpaceAvailable io s.iCriticalLevel
      (e.iCacheBuffer.length + remainder) then
        writeBodyFile io id
          (e.iCacheBuffer.iBufferList ++ [body.drop (body.length - remainder)])
      else pure false) :=
    Stays.ite (fun _ => keeps_writeBodyFile _ _ _) fun _ => Stays.pure _
  refine Stays.bind hwrite fun saved => Stays.bind (keeps_setBodyDataCached id false) fun _ => ?_
  refine Stays.bind (keeps_closeBodyFile id) fun _ => ?_
  exact Stays.bind (keeps_updateSizeInformation id _) fun _ => Stays.pure _

theorem keeps_saveBodyData (io : Io) (id : EntryId) (body : Des8) :
    Stays KeepsWrites (saveBodyData io id body) := by
  refine Stays.ite (fun _ => Stays.pure _) fun _ => Stays.bind (stays_getEntry id) fun e => ?_
  refine Stays.bind (keeps_modifyEntry fun _ => rfl) fun _ => ?_
  refine Stays.ite (fun _ => keeps_saveToBodyFile io id body _) fun _ => ?_
  refine Stays.bind (keeps_setBodyDataCached id true) fun _ => ?_
  exact Stays.bind (keeps_updateSizeInformation id _) fun _ => Stays.pure _

theorem keeps_removeBodyData (id : EntryId) : Stays KeepsWrites (removeBodyData id) := by
  refine Stays.bind (stays_getEntry id) fun e => Stays.bind (keeps_addContentSize _) fun _ => ?_
  refine Stays.bind (keeps_setBodySize id 0) fun _ => ?_
  refine Stays.bind (keeps_resetBodyData id) fun _ => ?_
  refine Stays.bind (keeps_openBodyFile id) fun opened => Stays.whenM fun _ => ?_
  exact Stays.bind (keeps_files _ fun s => s.openFiles) fun _ => keeps_closeBodyFile id

theorem keeps_flush (io : Io) (id : EntryId) : Stays KeepsWrites (flush io id) := by
  refine Stays.bind (stays_getEntry id) fun e => Stays.bind (keeps_headerData id) fun header => ?_
  refine Stays.bind Stays.get fun s => Stays.ite (fun _ => ?_) fun _ => Stays.pure _
  refine Stays.bind (keeps_createNewBodyFile io id) fun created => ?_
  refine Stays.ite (fun _ => Stays.ite (fun _ => ?_) fun _ => ?_) fun _ => Stays.pure _
  · refine Stays.bind (keeps_writeBodyFile _ _ _) fun saveOk => ?_
    refine Stays.bind (keeps_resetBodyData id) fun _ => ?_
    refine Stays.bind (keeps_setBodyDataCached id false) fun _ => ?_
    exact Stays.bind (keeps_closeBodyFile id) fun _ => Stays.pure _
  · exact Stays.bind (keeps_closeBodyFile id) fun _ => Stays.pure _

/-- A running helper goes on with the next segment, or completes the request. -/
theorem keeps_writeHelperRunL (id : EntryId) (status : Int) :
    Stays KeepsWrites (writeHelperRunL id status) := by
  refine Stays.of_step fun s a s' hm => ?_
  obtain ⟨e, he, hm⟩ := getEntry_bind.1 hm
  cases hhelper : e.iWriteHelper with
  | none =>
      rw [hhelper] at hm
      cases hm
  | some helper =>
      rw [hhelper] at hm
      obtain ⟨hactive, hm⟩ := guardM_bind.1 hm
      cases hseg : e.iCacheBuffer.iBufferList[helper.iBodyPart]? with
      | some seg =>
          simp only [hseg] at hm
          obtain ⟨_, s₁, hwrite, hm⟩ := bind_eq_some.1 hm
          have h₁ : KeepsWrites s s₁ :=
            keepsWrites_of (Stays.whenM fun _ => keeps_files _ fun s => s.openFiles) hwrite
          obtain ⟨e₁, he₁, rfl⟩ := modifyEntry_run.1 hm
          refine KeepsWrites.trans _ _ _ h₁ (keepsWrites_setEntry he₁ fun _ => ?_)
          exact ⟨_, _, heap_setEntry_self _ _ _, rfl, rfl⟩
      | none =>
          simp only [hseg] at hm
          obtain ⟨_, s₁, hclose, hm⟩ := bind_eq_some.1 hm
          obtain ⟨_, s₂, hdone, hm⟩ := bind_eq_some.1 hm
          obtain ⟨e₂, he₂, hm⟩ := modifyEntry_bind.1 hm
          have h₁ : KeepsWrites s s₂ := (keepsWrites_of (keeps_closeBodyFile id) hclose).trans
            _ _ _ (keepsWrites_of (keeps_bodyWriteComplete id) hdone)
          have hnot := not_pending_requestComplete hm
          obtain rfl := modify_run.1 hm
          exact ⟨fun hs => fresh_setEntry he₂ _ (h₁.fresh hs), fun _ hp => absurd hp hnot,
            fun _ hp => absurd hp hnot⟩

theorem keeps_erase (pos : Nat) : Stays KeepsWrites (erase pos) := by
  refine Stays.bind Stays.get fun s => ?_
  cases s.iLookupTable.entryAt pos with
  | none => exact Stays.pure _
  | some id =>
      refine Stays.bind (keeps_streamErase id) fun _ => ?_
      exact Stays.bind (keeps_modify fun _ => ⟨rfl, rfl, rfl⟩) fun _ => keeps_deleteEntry id

/-! ## The postpone queue -/

theorem keeps_beginWriting : Stays KeepsWrites beginWriting := by
  refine keeps_modifyPostpone fun x hactive hstatus => ?_
  by_cases hx : x.isActive = true
  · rw [if_pos hx] at hactive hstatus
    exact ⟨hactive, hstatus⟩
  · rw [if_neg hx] at hstatus
    cases hstatus

theorem keeps_clearDeleteObserver (id : EntryId) : Stays KeepsWrites (clearDeleteObserver id) :=
  keeps_modifyEntry fun _ => rfl

theorem keeps_addEntry (freeMem err : Int) (id : EntryId) :
    Stays KeepsWrites (addEntry freeMem err id) := by
  refine Stays.bind (stays_getEntry id) fun e => Stays.bind Stays.get fun s => ?_
  cases s.iPostponeHandler with
  | none => exact Stays.pure _
  | some h =>
      refine Stays.ite (fun _ => Stays.pure _) fun _ => Stays.ite (fun _ => ?_) fun _ => ?_
      · refine Stays.bind (keeps_modifyPostpone fun _ h₁ h₂ => ⟨h₁, h₂⟩) fun _ => ?_
        refine Stays.bind (Stays.whenM fun _ => ?_) fun _ => Stays.pure _
        refine Stays.bind (keeps_modifyPostpone fun _ h₁ h₂ => ⟨h₁, h₂⟩) fun _ => ?_
        exact keeps_beginWriting
      · refine Stays.bind Stays.guardM fun _ => ?_
        refine Stays.bind (keeps_modifyPostpone fun _ h₁ h₂ => ⟨h₁, h₂⟩) fun _ => ?_
        refine Stays.ite (fun _ => ?_) fun _ => ?_
        · exact Stays.bind (keeps_modifyEntry fun _ => rfl) fun _ => Stays.pure _
        · exact Stays.ite (fun _ => Stays.pure _) fun _ => Stays.pure _

theorem keeps_postponeRemoveAll : Stays KeepsWrites postponeRemoveAll := by
  refine Stays.bind Stays.get fun s => ?_
  cases s.iPostponeHandler with
  | none => exact Stays.pure _
  | some h =>
      refine Stays.bind (Stays.forEach fun i _ => keeps_clearDeleteObserver i) fun _ => ?_
      refine Stays.bind (keeps_modifyPostpone fun _ h₁ h₂ => ⟨h₁, h₂⟩) fun _ => ?_
      refine Stays.bind Stays.guardM fun _ => keeps_modifyPostpone fun _ hactive => ?_
      cases hactive

theorem keeps_collectLoop (io : Nat → Io) (fuel required count skip : Nat) :
    Stays KeepsWrites (collectLoop io fuel required count skip) := by
  induction fuel generalizing required count skip with
  | zero => exact Stays.pure _
  | succ fuel ih =>
      refine Stays.bind Stays.get fun s => ?_
      cases s.iPostponeHandler with
      | none => exact Stays.pure _
      | some h =>
          refine Stays.ite (fun _ => ?_) fun _ => Stays.pure _
          cases h.iObjectQueue[skip]? with
          | none => exact Stays.fault
          | some id =>
              refine Stays.ite (fun _ => ih _ _ _) fun _ => ?_
              refine Stays.bind (keeps_modifyPostpone fun _ h₁ h₂ => ⟨h₁, h₂⟩) fun _ => ?_
              refine Stays.bind (keeps_clearDeleteObserver id) fun _ => ?_
              refine Stays.bind (stays_getEntry id) fun e => ?_
              exact Stays.bind (keeps_flush _ id) fun _ => ih _ _ _

theorem keeps_collect (io : Nat → Io) (required : Nat) :
    Stays KeepsWrites (collect io required) := by
  refine Stays.bind Stays.get fun s => ?_
  cases s.iPostponeHandler with
  | none => exact Stays.pure _
  | some h =>
      refine Stays.whenM fun _ => ?_
      refine Stays.bind (keeps_modifyPostpone fun _ h₁ h₂ => ⟨h₁, h₂⟩) fun _ => ?_
      refine Stays.bind ?_ fun _ => ?_
      · refine Stays.bind Stays.get fun s => ?_
        cases s.iPostponeHandler with
        | none => exact Stays.pure _
        | some h => exact keeps_collectLoop io _ _ _ _
      · refine Stays.bind (keeps_modifyPostpone fun _ h₁ h₂ => ⟨h₁, h₂⟩) fun _ => ?_
        exact keeps_beginWriting

theorem keeps_writeTimeout : Stays KeepsWrites writeTimeout := by
  refine Stays.bind Stays.get fun s => ?_
  cases s.iPostponeHandler with
  | none => exact Stays.fault
  | some h =>
      refine Stays.bind Stays.guardM fun _ => ?_
      refine Stays.bind (keeps_modifyPostpone fun _ h₁ h₂ => ⟨h₁, h₂⟩) fun _ => ?_
      exact keeps_beginWriting

/-! ## The cache handler -/

section Handler

variable [Platform]

theorem keeps_initialiseCacheEntryL (id : EntryId) :
    Stays KeepsWrites (initialiseCacheEntryL id) := by
  refine Stays.bind (stays_getEntry id) fun e => Stays.bind Stays.get fun s => ?_
  refine Stays.bind (keeps_modifyEntry fun _ => rfl) fun _ => ?_
  refine Stays.bind (keeps_setState id _) fun _ => ?_
  exact Stays.bind (keeps_deleteFile _) fun _ => keeps_deleteFile _

theorem keeps_find (url : Des8) : Stays KeepsWrites (find url) :=
  Stays.bind Stays.get fun _ => Stays.pure _

theorem keeps_insertL (now : Clock) (url : Des8) : Stays KeepsWrites (insertL now url) := by
  refine Stays.bind Stays.get fun s => Stays.bind (keeps_withNew _) fun _ => ?_
  refine Stays.bind Stays.get fun s => ?_
  refine Stays.bind (keeps_modify fun _ => ⟨rfl, rfl, rfl⟩) fun _ => ?_
  refine Stays.ite (fun _ => ?_) fun _ => ?_
  · refine Stays.bind (keeps_accessed now _) fun _ => ?_
    exact Stays.bind (keeps_initialiseCacheEntryL _) fun _ => Stays.pure _
  · exact Stays.bind (keeps_deleteEntry _) fun _ => Stays.pure _

omit [Platform] in
theorem keeps_erasesComplete : ErasesComplete KeepsWrites := fun _ _ _ => keeps_erase _ _

theorem keeps_remove (url : Des8) : Stays KeepsWrites (remove url) :=
  stays_remove keeps_erasesComplete url

omit [Platform] in
theorem keeps_evictLoop (now : Clock) (fuel : Nat) (space : Int) :
    Stays KeepsWrites (evictLoop now fuel space) := by
  induction fuel generalizing space with
  | zero => exact Stays.pure _
  | succ fuel ih =>
      refine Stays.ite (fun _ => ?_) fun _ => Stays.pure _
      refine Stays.bind Stays.get fun s => ?_
      cases pickCandidate s now with
      | none => exact Stays.fault
      | some pick =>
          dsimp only
          cases pick.candidate with
          | none => exact Stays.pure _
          | some found =>
              obtain ⟨i, id⟩ := found
              refine Stays.bind (keeps_setBucket _ _) fun _ => ?_
              refine Stays.bind (stays_getEntry id) fun e => ?_
              exact Stays.bind (ih _) fun _ => Stays.pure _

theorem keeps_destroyEvicted (id : EntryId) : Stays KeepsWrites (destroyEvicted id) := by
  refine Stays.bind (keeps_removeEntry id) fun _ => ?_
  refine Stays.bind (keeps_modifyEntry fun _ => rfl) fun _ => ?_
  refine Stays.bind (stays_getEntry id) fun e => ?_
  exact Stays.bind (keeps_remove _) fun _ => Stays.pure _

theorem keeps_cacheNeedsSpaceL (now : Clock) (size : Nat) :
    Stays KeepsWrites (cacheNeedsSpaceL now size) := by
  refine Stays.bind Stays.get fun s => Stays.ite (fun _ => ?_) fun _ => Stays.pure _
  refine Stays.bind (Stays.bind Stays.get fun _ => keeps_evictLoop now _ _) fun evicted => ?_
  refine Stays.ite (fun _ => Stays.pure _) fun _ => ?_
  refine Stays.bind (Stays.forEach fun id _ => keeps_destroyEvicted id) fun _ => ?_
  exact Stays.bind Stays.get fun _ => Stays.pure _

theorem keeps_saveBuffer (now : Clock) (io : Io) (id : EntryId) (buffer : Des8) (body : Bool) :
    Stays KeepsWrites (saveBuffer now io id buffer body) := by
  refine Stays.bind (keeps_cacheNeedsSpaceL now _) fun ok => ?_
  refine Stays.ite (fun _ => ?_) fun _ => Stays.pure _
  exact Stays.ite (fun _ => keeps_saveBodyData io id buffer) fun _ => keeps_saveHeaders io id buffer

theorem keeps_eraseCacheEntry (url : Des8) : Stays KeepsWrites (eraseCacheEntry url) := by
  refine Stays.bind Stays.get fun s => ?_
  cases s.locate url with
  | none => exact Stays.pure _
  | some found => exact keeps_erase _

theorem keeps_deleteCacheEntry (id : EntryId) : Stays KeepsWrites (deleteCacheEntry id) := by
  refine Stays.bind (keeps_removeEntry id) fun _ => Stays.bind (stays_getEntry id) fun e => ?_
  refine Stays.bind Stays.get fun s => Stays.bind (keeps_note _) fun _ => ?_
  exact keeps_eraseCacheEntry _

omit [Platform] in
theorem keeps_setCacheEntry (t : TransId) (entry : Option EntryId) :
    Stays KeepsWrites (setCacheEntry t entry) :=
  keeps_modify fun _ => ⟨rfl, rfl, rfl⟩

omit [Platform] in
theorem keeps_setBodyFileDeleteNeeded (id : EntryId) (b : Bool) :
    Stays KeepsWrites (setBodyFileDeleteNeeded id b) :=
  keeps_modifyEntry fun _ => rfl

theorem keeps_handleResponseOkL (env : Env) (id : EntryId) (resp : Response) :
    Stays KeepsWrites (handleResponseOkL env id resp) := by
  refine Stays.bind (keeps_headerData id) fun cached => Stays.ite (fun _ => ?_) fun _ => ?_
  · refine Stays.bind (stays_getEntry id) fun e => ?_
    refine Stays.bind (Stays.whenM fun _ => keeps_removeHeaders id) fun _ => ?_
    refine Stays.bind (keeps_saveBuffer _ _ id _ _) fun saveOk => ?_
    refine Stays.bind (stays_getEntry id) fun e => ?_
    refine Stays.bind (Stays.whenM fun _ => keeps_setBodyFileDeleteNeeded id true) fun _ => ?_
    exact Stays.pure _
  · exact Stays.bind (keeps_setState id _) fun _ => Stays.pure _

/-- The first save, and if it fails the second one. -/
theorem keeps_saveOneOf (now : Clock) (io io' : Io) (id : EntryId) (header header' : Des8) :
    Stays KeepsWrites (saveBuffer now io id header false >>= fun saved =>
      if saved then pure true else saveBuffer now io' id header' false) :=
  Stays.bind (keeps_saveBuffer _ _ id _ _) fun _ =>
    Stays.ite (fun _ => Stays.pure _) fun _ => keeps_saveBuffer _ _ id _ _

theorem keeps_handleResponseNotModifiedL (env : Env) (id : EntryId) (resp : Response) :
    Stays KeepsWrites (handleResponseNotModifiedL env id resp) := by
  refine Stays.bind (keeps_headerData id) fun cached => ?_
  refine Stays.bind (keeps_removeHeaders id) fun _ => ?_
  refine Stays.bind (keeps_saveBuffer _ _ id _ _) fun saved => ?_
  refine Stays.bind (Stays.ite (fun _ => Stays.pure _) fun _ => keeps_saveBuffer _ _ id _ _)
    fun saveOk => ?_
  exact Stays.bind (Stays.whenM fun _ => keeps_setState id _) fun _ => Stays.pure _

theorem keeps_saveResponseHeaders (env : Env) (t : TransId) (resp : Response) (id : EntryId) :
    Stays KeepsWrites (saveResponseHeaders env t resp id) := by
  refine Stays.bind (keeps_setState id _) fun _ => ?_
  refine Stays.bind (Stays.ite (fun _ => keeps_handleResponseOkL env id resp) fun _ =>
    Stays.ite (fun _ => keeps_handleResponseNotModifiedL env id resp) fun _ => Stays.pure _)
    fun ok => ?_
  exact Stays.ite (fun _ => keeps_setCacheEntry t _) fun _ => keeps_deleteCacheEntry id

theorem keeps_receivedResponseHeadersL (env : Env) (t : TransId) (resp : Response) :
    Stays KeepsWrites (receivedResponseHeadersL env t resp) := by
  refine Stays.ite (fun _ => Stays.bind (keeps_find _) fun entry => ?_) fun _ => Stays.pure _
  cases entry with
  | some id =>
      refine Stays.bind (stays_getEntry id) fun e => Stays.whenM fun _ => ?_
      exact keeps_saveResponseHeaders env t resp id
  | none =>
      refine Stays.bind (keeps_insertL _ _) fun entry => ?_
      cases entry with
      | none => exact Stays.pure _
      | some id =>
          refine Stays.bind (Stays.whenM fun _ => keeps_modifyEntry fun _ => rfl) fun _ => ?_
          exact keeps_saveResponseHeaders env t resp id

/-- The entry of a transaction is deleted and forgotten. -/
theorem keeps_dropCacheEntry (t : TransId) (id : EntryId) :
    Stays KeepsWrites (deleteCacheEntry id >>= fun _ => setCacheEntry t none) :=
  Stays.bind (keeps_deleteCacheEntry id) fun _ => keeps_setCacheEntry t none

theorem keeps_receivedResponseBodyDataL (env : Env) (t : TransId) (body : Des8) :
    Stays KeepsWrites (receivedResponseBodyDataL env t body) := by
  refine Stays.bind Stays.get fun s => ?_
  cases s.iCacheEntry t with
  | none => exact Stays.pure _
  | some id =>
      refine Stays.bind (stays_getEntry id) fun e => Stays.whenM fun _ => ?_
      refine Stays.bind (Stays.whenM fun _ => ?_) fun _ => ?_
      · exact Stays.bind (keeps_removeBodyData id) fun _ => keeps_setBodyFileDeleteNeeded id false
      · refine Stays.bind (keeps_saveBuffer _ _ id _ _) fun saved => ?_
        exact Stays.whenM fun _ => keeps_dropCacheEntry t id

theorem keeps_responseComplete (env : Env) (t : TransId) :
    Stays KeepsWrites (responseComplete env t) := by
  refine Stays.bind Stays.get fun s => ?_
  cases s.iCacheEntry t with
  | none => exact Stays.pure _
  | some id =>
      refine Stays.bind (stays_getEntry id) fun e => Stays.ite (fun _ => ?_) fun _ =>
        Stays.ite (fun _ => keeps_dropCacheEntry t id) fun _ => Stays.pure _
      refine Stays.bind (Stays.ite (fun _ => keeps_addEntry _ _ id) fun _ => Stays.pure _)
        fun status => ?_
      refine Stays.ite (fun _ => keeps_setState id _) fun _ => ?_
      refine Stays.bind (keeps_flush _ id) fun flushed => ?_
      exact Stays.ite (fun _ => keeps_setState id _) fun _ => keeps_dropCacheEntry t id

theorem keeps_requestL (env : Env) (t : TransId) (req : Request) :
    Stays KeepsWrites (requestL env t req) := by
  refine Stays.ite (fun _ => Stays.bind (keeps_find _) fun entry => ?_) fun _ => Stays.pure _
  refine Stays.bind ?_ fun entry => ?_
  · split
    · exact keeps_find _
    · exact Stays.pure _
  cases entry with
  | none => exact Stays.pure _
  | some id =>
      refine Stays.bind (stays_getEntry id) fun e => Stays.whenM fun _ => ?_
      refine Stays.bind (keeps_headerData id) fun headers => Stays.whenM fun _ => ?_
      refine Stays.bind (keeps_setState id _) fun _ => ?_
      exact Stays.bind (keeps_accessed _ id) fun _ => keeps_setCacheEntry t _

omit [Platform] in
theorem keeps_requestNextChunkL (t : TransId) : Stays KeepsWrites (requestNextChunkL t) := by
  refine Stays.bind Stays.get fun s => ?_
  cases s.iCacheEntry t with
  | none => exact Stays.pure _
  | some id =>
      refine Stays.bind (stays_getEntry id) fun e => ?_
      exact Stays.ite (fun _ => keeps_nextChunkL id) fun _ => Stays.pure _

theorem keeps_requestClosed (t : TransId) : Stays KeepsWrites (requestClosed t) := by
  refine Stays.bind Stays.get fun s => ?_
  cases s.iCacheEntry t with
  | none => exact Stays.pure _
  | some id =>
      refine Stays.bind (stays_getEntry id) fun e => ?_
      refine Stays.ite (fun _ => keeps_setState id _) fun _ => ?_
      exact Stays.ite (fun _ => keeps_dropCacheEntry t id) fun _ => Stays.pure _

theorem keeps_saveLookupTableL (indexOk : Bool) : Stays KeepsWrites (saveLookupTableL indexOk) := by
  refine Stays.bind Stays.get fun s => ?_
  cases externalizeL s.iDirectory (s.iLookupTable.entries.filterMap s.heap) with
  | none => exact Stays.fault
  | some bytes => exact Stays.whenM fun _ => keeps_modify fun _ => ⟨rfl, rfl, rfl⟩

theorem keeps_removeAllL (env : Env) : Stays KeepsWrites (removeAllL env) := by
  refine Stays.bind keeps_postponeRemoveAll fun _ => ?_
  refine Stays.bind (stays_removeAll keeps_erasesComplete) fun _ => keeps_saveLookupTableL _

theorem keeps_removeL (url : Des8) : Stays KeepsWrites (removeL url) := by
  refine Stays.bind (keeps_find _) fun entry => ?_
  cases entry with
  | none => exact Stays.pure _
  | some id =>
      refine Stays.bind (stays_getEntry id) fun e => Stays.ite (fun _ => keeps_remove url) fun _ => ?_
      exact Stays.bind (keeps_setState id _) fun _ => Stays.pure _

theorem keeps_saveEntry (env : Env) (id : EntryId) (header content : Des8) :
    Stays KeepsWrites (saveEntry env id header content) := by
  refine Stays.bind (keeps_saveBuffer _ _ id _ _) fun headerSaved => ?_
  refine Stays.bind (Stays.ite (fun _ => keeps_saveBuffer _ _ id _ _) fun _ => Stays.pure _)
    fun saved => ?_
  refine Stays.bind (Stays.ite (fun _ => keeps_flush _ id) fun _ => Stays.pure _)
    fun flushed => ?_
  exact Stays.bind (Stays.whenM fun _ => keeps_setState id _) fun _ => Stays.pure _

theorem keeps_saveL (env : Env) (url header content : Des8) :
    Stays KeepsWrites (saveL env url header content) := by
  refine Stays.bind (keeps_find _) fun entry => ?_
  cases entry with
  | some id => exact Stays.pure _
  | none =>
      refine Stays.bind (keeps_insertL _ _) fun entry => ?_
      cases entry with
      | none => exact Stays.pure _
      | some id =>
          refine Stays.bind (keeps_saveEntry env id header content) fun saved => ?_
          exact Stays.bind (Stays.whenM fun _ => keeps_deleteCacheEntry id) fun _ => Stays.pure _

theorem keeps_addHeaderL (env : Env) (url : Des8) (alter : Des8 → Des8) :
    Stays KeepsWrites (addHeaderL env url alter) := by
  refine Stays.bind (keeps_find _) fun entry => ?_
  cases entry with
  | none => exact Stays.pure _
  | some id =>
      refine Stays.bind ?_ fun saveOk => Stays.whenM fun _ => keeps_deleteCacheEntry id
      refine Stays.bind (keeps_headerData id) fun headers => ?_
      exact Stays.bind (keeps_removeHeaders id) fun _ => keeps_saveOneOf _ _ _ id _ _

theorem keeps_validateCacheEntriesL : Stays KeepsWrites validateCacheEntriesL :=
  Stays.bind Stays.get fun _ => Stays.forEach fun url _ =>
    Stays.bind (keeps_remove url) fun _ => Stays.pure _

/-! ## Merging and the start -/

theorem keeps_admitsMerge (map : Option (Des16 → Option Des8)) : AdmitsMerge KeepsWrites map where
  insertL := keeps_insertL
  setState id := keeps_setState id _
  accessedAt := keeps_accessedAt
  erase _ _ _ _ _ _ _ _ _ := keeps_erase _ _

omit [Platform] in
theorem keeps_setSavedContentSize (size : Int) : Stays KeepsWrites (setSavedContentSize size) :=
  keeps_modify fun _ => ⟨rfl, rfl, rfl⟩

theorem keeps_updateLookupTable (env : Env) : Stays KeepsWrites (updateLookupTable env) :=
  fun s => staysFrom_updateLookupTable (keeps_admitsMerge _) fun _ _ =>
    (Stays.bind (keeps_note _) fun _ => keeps_setSavedContentSize _) s

omit [Platform] in
theorem keeps_loadEntry (e : CHttpCacheEntry) : Stays KeepsWrites (loadEntry e) := by
  refine Stays.bind Stays.get fun s => Stays.bind (keeps_withNew e) fun _ => ?_
  refine Stays.bind (keeps_setState _ _) fun _ => Stays.bind Stays.get fun s => ?_
  exact keeps_modify fun _ => ⟨rfl, rfl, rfl⟩

theorem keeps_constructL (env : Env) : Stays KeepsWrites (constructL env) := by
  refine Stays.bind Stays.get fun s => ?_
  cases openLookupTableL s.iDirectory (if env.indexOk then s.iIndexFile else none) with
  | none => exact Stays.fault
  | some read =>
      cases read with
      | left => exact Stays.pure _
      | nothing => exact Stays.pure _
      | loaded entries =>
          refine Stays.bind (Stays.forEach fun e _ => keeps_loadEntry e) fun _ => ?_
          exact keeps_setSavedContentSize _

/-! ## The file write handler at work -/

theorem keeps_finishFlushing (h : CHttpCacheFileWriteHandler) (result : Int) :
    Stays KeepsWrites (finishFlushing h result) := by
  unfold HttpCache.finishFlushing
  cases h.iObjectFlushing with
  | none => exact Stays.pure _
  | some id =>
      refine Stays.bind (Stays.whenM fun _ => ?_) fun _ =>
        keeps_modifyPostpone fun _ h₁ h₂ => ⟨h₁, h₂⟩
      refine Stays.bind (keeps_modifyPostpone fun _ h₁ h₂ => ⟨h₁, h₂⟩) fun _ => ?_
      refine Stays.bind (keeps_clearDeleteObserver id) fun _ => ?_
      refine Stays.whenM fun _ => Stays.bind (stays_getEntry id) fun e => ?_
      exact Stays.bind (keeps_removeL _) fun _ => Stays.pure _

omit [Platform] in
theorem keeps_dropEmpty (fuel : Nat) : Stays KeepsWrites (dropEmpty fuel) := by
  induction fuel with
  | zero => exact Stays.pure _
  | succ fuel ih =>
      refine Stays.bind Stays.get fun s => ?_
      cases s.iPostponeHandler with
      | none => exact Stays.pure _
      | some h =>
          dsimp only
          cases h.iObjectQueue with
          | nil => exact Stays.pure _
          | cons id rest =>
              refine Stays.bind (stays_getEntry id) fun e => ?_
              refine Stays.ite (fun _ => ?_) fun _ => Stays.pure _
              refine Stays.bind (keeps_clearDeleteObserver id) fun _ => ?_
              exact Stays.bind (keeps_modifyPostpone fun _ h₁ h₂ => ⟨h₁, h₂⟩) fun _ => ih

theorem keeps_goIdle (env : Env) : Stays KeepsWrites (goIdle env) :=
  Stays.bind (keeps_saveLookupTableL _) fun _ => keeps_modifyPostpone fun _ h₁ h₂ => ⟨h₁, h₂⟩

end Handler

end SymbianWeb.HttpCache
