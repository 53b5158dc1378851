import SymbianWeb.HttpCache.Eviction
import SymbianWeb.HttpCache.Machine

/-!
# What the operations are made of

`Admits R I` says that a relation `R` between states allows what the operations of the cache are
made of; a function that completes or deletes an entry is allowed for the entries `I`. Each
operation then stays in `R` (`Admits.flush`, `Admits.receivedResponseBodyDataL`, …), so that an
invariant of the cache is proved about these few functions and not about every operation.

Some of them are called in a certain situation only: headers are saved when the entry counts none
(`HeaderZero`), and a body part is counted for an entry that is being received and whose old body
is gone (`StoreReady`). That this is so is proved here, for all relations at once.
-/

set_option autoImplicit false

namespace SymbianWeb.HttpCache

open FaultState CHttpCacheLookupTable

/-- The entry, if it exists, counts no header. -/
def HeaderZero (id : EntryId) (s : CacheState) : Prop :=
  ∀ e, s.heap id = some e → e.iHeaderSize = 0

/-- The entry, if it exists, has no body. -/
def BodyZero (id : EntryId) (s : CacheState) : Prop :=
  ∀ e, s.heap id = some e → e.iBodySize = 0

/-- The entry, if it exists, is being received, and no old body has to be removed first. -/
def StoreReady (id : EntryId) (s : CacheState) : Prop :=
  ∀ e, s.heap id = some e →
    (e.iState = .eCacheResponding ∨ e.iState = .eCacheInitialized) ∧
    e.iBodyFileDeleteNeeded = false

section Survives

variable {α : Type} {f : CHttpCacheEntry → α} {id : EntryId} {s s' : CacheState}

/-- A property of an entry that only depends on `f` survives. -/
theorem Survives.forall_entry (h : Survives f s s') {p : α → Prop}
    (hs : ∀ e, s.heap id = some e → p (f e)) : ∀ e, s'.heap id = some e → p (f e) := by
  intro e' he'
  obtain ⟨e, he, heq⟩ := h id e' he'
  rw [heq]
  exact hs e he

theorem HeaderZero.survives (hs : HeaderZero id s) (h : Survives CHttpCacheEntry.idleCore s s') :
    HeaderZero id s' :=
  h.forall_entry (p := fun c => c.iHeaderSize = 0) hs

theorem StoreReady.survives (hs : StoreReady id s) (h : Survives CHttpCacheEntry.idleCore s s') :
    StoreReady id s' :=
  h.forall_entry (p := fun c : EntryCore =>
    (c.iState = .eCacheResponding ∨ c.iState = .eCacheInitialized) ∧
    c.iBodyFileDeleteNeeded = false) hs

end Survives

/-- What the saving of headers is made of stays in `R`. -/
structure AdmitsHeaders [Platform] (R : CacheState → CacheState → Prop) : Prop where
  quiet : ∀ s s', Quiet s s' → R s s'
  space : ∀ now size, Stays R (cacheNeedsSpaceL now size)
  removeHeaders : ∀ id, Stays R (removeHeaders id)
  saveHeaders : ∀ io id header s, HeaderZero id s → StaysFrom R s (saveHeaders io id header)

/-- What the operations of the cache are made of stays in `R`. -/
structure Admits [Platform] (R : CacheState → CacheState → Prop) (I : EntryId → Prop) : Prop
    extends AdmitsHeaders R where
  eraseComplete : ErasesComplete R
  deleteCacheEntry : ∀ id, I id → Stays R (deleteCacheEntry id)
  setState : ∀ id st, (st = .eCacheComplete → I id) → st ≠ .eCacheResponding →
    st ≠ .eCacheInitialized → Stays R (setState id st)
  accessed : ∀ now id, Stays R (accessed now id)
  createNewBodyFile : ∀ io id, Stays R (createNewBodyFile io id)
  removeBodyData : ∀ id, Stays R (removeBodyData id)
  updateSizeInformation : ∀ id n s, StoreReady id s → StaysFrom R s (updateSizeInformation id n)
  bodyFileDeleteNeeded : ∀ id, Stays R (setBodyFileDeleteNeeded id true)
  bodyFileDeleted : ∀ id s, BodyZero id s → StaysFrom R s (setBodyFileDeleteNeeded id false)

/-! ## Situations -/

theorem quiet_survives {α : Type} {m : CacheM α} (h : Stays Quiet m) {s s' : CacheState} {a : α}
    (hm : m s = some (a, s')) : Survives CHttpCacheEntry.idleCore s s' :=
  Survives.of_map (quiet_of h hm).idle.core

theorem survives_modifyEntry {α : Type} {g : CHttpCacheEntry → α} {id : EntryId}
    {f : CHttpCacheEntry → CHttpCacheEntry} (hf : ∀ e, g (f e) = g e) :
    Stays (Survives g) (modifyEntry id f) :=
  stays_modifyEntry fun _ e he => Survives.of_map (map_setEntry he (hf e))

/-- A computation whose steps all let `f` survive lets it survive. -/
theorem survives_of {α β : Type} {f : CHttpCacheEntry → β} {m : CacheM α}
    (h : Stays (Survives f) m) {s s' : CacheState} {a : α} (hm : m s = some (a, s')) :
    Survives f s s' :=
  related_of_chain (fun _ => Survives.of_map fun _ => rfl) (fun _ _ _ => Survives.trans)
    (h s a s' hm)

/-- State and delete flag of an entry, which `SetBodySize` does not change. -/
def CHttpCacheEntry.phase (e : CHttpCacheEntry) : TCacheEntryState × Bool :=
  (e.iState, e.iBodyFileDeleteNeeded)

theorem stays_heap_modify {α : Type} {g : CHttpCacheEntry → α} {f : CacheState → CacheState}
    (h : ∀ s, (f s).heap = s.heap) : Stays (Survives g) (modify f : CacheM PUnit) :=
  stays_modify fun s => Survives.of_map fun i => by rw [h]

theorem phase_evictionRemove (id : EntryId) :
    Stays (Survives CHttpCacheEntry.phase) (evictionRemove id) := by
  refine Stays.bind (stays_getEntry id) fun e => Stays.bind Stays.guardM fun _ => ?_
  exact Stays.bind Stays.get fun s => Stays.whenM fun _ => stays_heap_modify fun _ => rfl

theorem phase_setBodySize (id : EntryId) (n : Nat) :
    Stays (Survives CHttpCacheEntry.phase) (setBodySize id n) := by
  refine Stays.bind (stays_getEntry id) fun e => ?_
  refine Stays.bind (Stays.whenM fun _ => ?_) fun _ => survives_modifyEntry fun _ => rfl
  exact Stays.bind (phase_evictionRemove id) fun _ => survives_modifyEntry fun _ => rfl

theorem phase_createNewBodyFile (io : Io) (id : EntryId) :
    Stays (Survives CHttpCacheEntry.phase) (createNewBodyFile io id) := by
  refine Stays.bind (stays_getEntry id) fun e => Stays.bind Stays.get fun s => ?_
  refine Stays.bind (stays_heap_modify fun _ => rfl) fun _ => Stays.ite (fun _ => ?_) fun _ => ?_
  · refine Stays.bind (stays_heap_modify fun _ => rfl) fun _ => ?_
    exact Stays.bind (survives_modifyEntry fun _ => rfl) fun _ => Stays.pure _
  · refine Stays.bind (phase_setBodySize id 0) fun _ => ?_
    exact Stays.bind (survives_modifyEntry fun _ => rfl) fun _ => Stays.pure _

theorem phase_saveHeaders (io : Io) (id : EntryId) (header : Des8) :
    Stays (Survives CHttpCacheEntry.phase) (saveHeaders io id header) := by
  refine Stays.bind Stays.get fun s => Stays.ite (fun _ => ?_) fun _ => Stays.pure _
  refine Stays.bind (survives_modifyEntry fun _ => rfl) fun _ => ?_
  refine Stays.bind (stays_getEntry id) fun e => ?_
  exact Stays.bind (stays_heap_modify fun _ => rfl) fun _ => Stays.pure _

theorem quiet_phase {α : Type} {m : CacheM α} (h : Stays Quiet m) :
    Stays (Survives CHttpCacheEntry.phase) m :=
  h.mono fun _ _ hq => (Survives.of_map hq.core).comp fun c : EntryCore =>
    (c.iState, c.iBodyFileDeleteNeeded)

theorem phase_removeBodyData (id : EntryId) :
    Stays (Survives CHttpCacheEntry.phase) (removeBodyData id) := by
  refine Stays.bind (stays_getEntry id) fun e => ?_
  refine Stays.bind (stays_heap_modify fun _ => rfl) fun _ => ?_
  refine Stays.bind (phase_setBodySize id 0) fun _ => ?_
  refine Stays.bind (quiet_phase (quiet_resetBodyData id)) fun _ => ?_
  refine Stays.bind (quiet_phase (quiet_openBodyFile id)) fun opened => Stays.whenM fun _ => ?_
  exact Stays.bind (stays_heap_modify fun _ => rfl) fun _ => quiet_phase (quiet_closeBodyFile id)

theorem StoreReady.of_phase {id : EntryId} {s s' : CacheState} (hs : StoreReady id s)
    (h : Survives CHttpCacheEntry.phase s s') : StoreReady id s' :=
  h.forall_entry (p := fun c => (c.1 = .eCacheResponding ∨ c.1 = .eCacheInitialized) ∧
    c.2 = false) hs

theorem StoreReady.of_quiet {α : Type} {m : CacheM α} (hm : Stays Quiet m) {id : EntryId}
    {s s' : CacheState} {a : α} (hs : StoreReady id s) (h : m s = some (a, s')) :
    StoreReady id s' :=
  hs.survives (quiet_survives hm h)

/-- `RemoveHeaders` leaves an entry that counts no header. -/
theorem headerZero_removeHeaders {id : EntryId} {s s' : CacheState} {a : Unit}
    (h : removeHeaders id s = some (a, s')) : HeaderZero id s' := by
  obtain ⟨e, -, h⟩ := getEntry_bind.1 h
  rw [addContentSize, modify_bind] at h
  obtain ⟨e₁, -, heq⟩ := modifyEntry_eq_some.1 h
  rw [Prod.mk.injEq] at heq
  obtain ⟨-, rfl⟩ := heq
  intro e' he'
  rw [heap_setEntry_self, Option.some.injEq] at he'
  rw [← he']
  rfl

/-- A failed `SaveHeaders` changes nothing. -/
theorem saveHeaders_false {io : Io} {id : EntryId} {header : Des8} {s s' : CacheState}
    (h : saveHeaders io id header s = some (false, s')) : s' = s := by
  rw [saveHeaders, get_bind] at h
  split at h
  · obtain ⟨_, s₁, -, h⟩ := bind_eq_some.1 h
    obtain ⟨e, -, h⟩ := getEntry_bind.1 h
    obtain ⟨_, s₂, -, h⟩ := bind_eq_some.1 h
    rw [pure_eq_some, Prod.mk.injEq] at h
    exact absurd h.1 (by decide)
  · rw [pure_eq_some, Prod.mk.injEq] at h
    exact h.2

/-- `SetBodySize` sets the size. -/
theorem setBodySize_size {id : EntryId} {n : Nat} {s s' : CacheState} {a : Unit}
    (h : setBodySize id n s = some (a, s')) : ∀ e, s'.heap id = some e → e.iBodySize = n := by
  obtain ⟨e, -, h⟩ := getEntry_bind.1 h
  obtain ⟨_, s₁, -, h⟩ := bind_eq_some.1 h
  obtain ⟨e₁, -, heq⟩ := modifyEntry_eq_some.1 h
  rw [Prod.mk.injEq] at heq
  obtain ⟨-, rfl⟩ := heq
  intro e' he'
  rw [heap_setEntry_self, Option.some.injEq] at he'
  rw [← he']

/-- `RemoveBodyData` leaves an entry without a body. -/
theorem bodyZero_removeBodyData {id : EntryId} {s s' : CacheState} {a : Unit}
    (h : removeBodyData id s = some (a, s')) : BodyZero id s' := by
  obtain ⟨e, -, h⟩ := getEntry_bind.1 h
  rw [addContentSize, modify_bind] at h
  obtain ⟨_, s₁, hsize, h⟩ := bind_eq_some.1 h
  have hzero : BodyZero id s₁ := setBodySize_size hsize
  refine (quiet_survives ?_ h).forall_entry (p := fun c => c.iBodySize = 0) hzero
  refine Stays.bind (quiet_resetBodyData id) fun _ => ?_
  refine Stays.bind (quiet_openBodyFile id) fun opened => Stays.whenM fun _ => ?_
  exact Stays.bind (quiet_modify_files _ fun s => s.openFiles) fun _ => quiet_closeBodyFile id

/-- The old body is gone. -/
theorem storeReady_of_removed {id : EntryId} {s s' : CacheState} {e : CHttpCacheEntry} {a : Unit}
    (he : s.heap id = some e) (hstate : e.iState = .eCacheResponding)
    (h : (do
      removeBodyData id
      setBodyFileDeleteNeeded id false : CacheM Unit) s = some (a, s')) :
    StoreReady id s' := by
  obtain ⟨_, s₁, hremove, hflag⟩ := bind_eq_some.1 h
  have hphase : Survives CHttpCacheEntry.phase s s₁ := survives_of (phase_removeBodyData id) hremove
  obtain ⟨e₁, he₁, heq⟩ := modifyEntry_eq_some.1 hflag
  rw [Prod.mk.injEq] at heq
  obtain ⟨-, rfl⟩ := heq
  intro e' he'
  rw [heap_setEntry_self, Option.some.injEq] at he'
  obtain ⟨e₀, he₀, hphase₀⟩ := hphase id e₁ he₁
  rw [he, Option.some.injEq] at he₀
  subst he₀
  rw [← he']
  refine ⟨.inl ?_, rfl⟩
  rw [← hstate]
  exact congrArg Prod.fst hphase₀

section Space

variable [Platform]

theorem survives_cacheNeedsSpaceL {now : Clock} {size : Nat} {s s' : CacheState} {a : Bool}
    (h : cacheNeedsSpaceL now size s = some (a, s')) :
    Survives CHttpCacheEntry.idleCore s s' :=
  survives_of_evict (evictStep_cacheNeedsSpaceL now size s a s' h)

/-- After a failed `SaveBuffer` of headers the entry counts as little as before. -/
theorem headerZero_saveBuffer_false {now : Clock} {io : Io} {id : EntryId} {header : Des8}
    {s s' : CacheState} (hs : HeaderZero id s)
    (h : saveBuffer now io id header false s = some (false, s')) : HeaderZero id s' := by
  obtain ⟨ok, s₁, hspace, h⟩ := bind_eq_some.1 h
  have hs₁ := hs.survives (survives_cacheNeedsSpaceL hspace)
  split at h
  · rw [if_neg (by decide)] at h
    rw [saveHeaders_false h]
    exact hs₁
  · rw [pure_eq_some, Prod.mk.injEq] at h
    rw [h.2]
    exact hs₁

theorem storeReady_saveHeaderBuffer {now : Clock} {io : Io} {id : EntryId} {header : Des8}
    {s s' : CacheState} {a : Bool} (hs : StoreReady id s)
    (h : saveBuffer now io id header false s = some (a, s')) : StoreReady id s' := by
  obtain ⟨ok, s₁, hspace, h⟩ := bind_eq_some.1 h
  have hs₁ := hs.survives (survives_cacheNeedsSpaceL hspace)
  refine hs₁.of_phase (survives_of ?_ h)
  refine Stays.ite (fun _ => Stays.ite (fun hbody => absurd hbody (by decide)) fun _ => ?_)
    fun _ => Stays.pure _
  exact phase_saveHeaders io id header

end Space

/-! ## Saving -/

section Operations

variable [Platform] {R : CacheState → CacheState → Prop} {I : EntryId → Prop}

namespace AdmitsHeaders

theorem of_quiet (hA : AdmitsHeaders R) {α : Type} {m : CacheM α} (h : Stays Quiet m) :
    Stays R m :=
  h.mono hA.quiet

theorem saveHeaderBuffer (hA : AdmitsHeaders R) {now : Clock} {io : Io} {id : EntryId}
    {header : Des8} {s : CacheState} (hs : HeaderZero id s) :
    StaysFrom R s (saveBuffer now io id header false) := by
  refine (hA.space now header.length s).bind fun ok s₁ hspace => ?_
  refine StaysFrom.ite (fun _ => ?_) fun _ => StaysFrom.pure _
  refine StaysFrom.ite (fun hbody => absurd hbody (by decide)) fun _ => ?_
  exact hA.saveHeaders io id header s₁ (hs.survives (survives_cacheNeedsSpaceL hspace))

/-- The first save, and if it fails the second one. -/
theorem saveOneOf (hA : AdmitsHeaders R) {now : Clock} {io io' : Io} {id : EntryId}
    {header header' : Des8} {s : CacheState} (hs : HeaderZero id s) :
    StaysFrom R s (saveBuffer now io id header false >>= fun saved =>
      if saved then pure true else saveBuffer now io' id header' false) := by
  refine (hA.saveHeaderBuffer hs).bind fun saved s₁ hsave => ?_
  cases saved with
  | true => exact StaysFrom.pure _
  | false => exact hA.saveHeaderBuffer (headerZero_saveBuffer_false hs hsave)

/-- The headers an entry counts are removed, if there are any. -/
theorem removeCounted (hA : AdmitsHeaders R) {id : EntryId} {s : CacheState}
    {e : CHttpCacheEntry} (he : s.heap id = some e) :
    StaysFrom R s (whenM (e.iHeaderSize ≠ 0) (HttpCache.removeHeaders id)) ∧
    ∀ a s₁, whenM (e.iHeaderSize ≠ 0) (HttpCache.removeHeaders id) s = some (a, s₁) →
      HeaderZero id s₁ := by
  constructor
  · exact StaysFrom.whenM fun _ => hA.removeHeaders id s
  · intro a s₁ hrun
    rcases whenM_run.1 hrun with ⟨-, hrun⟩ | ⟨hsize, rfl⟩
    · exact headerZero_removeHeaders hrun
    · intro e' he'
      rw [he, Option.some.injEq] at he'
      rw [← he']
      exact not_not.1 hsize

end AdmitsHeaders

namespace Admits

theorem remove (hA : Admits R I) (url : Des8) : Stays R (remove url) :=
  stays_remove hA.eraseComplete url

theorem saveToBodyFile (hA : Admits R I) {io : Io} {id : EntryId} {body : Des8}
    {remainder : Nat} {s : CacheState} (hs : StoreReady id s) :
    StaysFrom R s (saveToBodyFile io id body remainder) := by
  refine (hA.createNewBodyFile io id s).bind fun created s₁ hcreate => ?_
  have hs₁ := hs.of_phase (survives_of (phase_createNewBodyFile io id) hcreate)
  refine StaysFrom.ite (fun _ => ?_) fun _ => StaysFrom.pure _
  refine staysFrom_getEntry fun e _ => staysFrom_get ?_
  have hwrite : Stays Quiet (if isDiskSpaceAvailable io s₁.iCriticalLevel
      (e.iCacheBuffer.length + remainder) then
        writeBodyFile io id
          (e.iCacheBuffer.iBufferList ++ [body.drop (body.length - remainder)])
      else pure false) :=
    Stays.ite (fun _ => quiet_writeBodyFile _ _ _) fun _ => Stays.pure _
  refine (hA.of_quiet hwrite s₁).bind fun saved s₂ hrun₂ => ?_
  refine (hA.of_quiet (quiet_setBodyDataCached id false) s₂).bind fun _ s₃ hrun₃ => ?_
  refine (hA.of_quiet (quiet_closeBodyFile id) s₃).bind fun _ s₄ hrun₄ => ?_
  have hs₄ := ((hs₁.of_quiet hwrite hrun₂).of_quiet (quiet_setBodyDataCached id false)
    hrun₃).of_quiet (quiet_closeBodyFile id) hrun₄
  exact (hA.updateSizeInformation id _ s₄ hs₄).bind fun _ _ _ => StaysFrom.pure _

theorem saveBodyData (hA : Admits R I) {io : Io} {id : EntryId} {body : Des8} {s : CacheState}
    (hs : StoreReady id s) : StaysFrom R s (saveBodyData io id body) := by
  refine StaysFrom.ite (fun _ => StaysFrom.pure _) fun _ => staysFrom_getEntry fun e _ => ?_
  have hbuffer : Stays Quiet (modifyEntry id fun e' =>
      { e' with iCacheBuffer := (e.iCacheBuffer.appendL io.alloc body).buffer }) :=
    quiet_modifyEntry fun _ => rfl
  refine (hA.of_quiet hbuffer s).bind fun _ s₁ hrun₁ => ?_
  have hs₁ := hs.of_quiet hbuffer hrun₁
  refine StaysFrom.ite (fun _ => hA.saveToBodyFile hs₁) fun _ => ?_
  refine (hA.of_quiet (quiet_setBodyDataCached id true) s₁).bind fun _ s₂ hrun₂ => ?_
  have hs₂ := hs₁.of_quiet (quiet_setBodyDataCached id true) hrun₂
  exact (hA.updateSizeInformation id _ s₂ hs₂).bind fun _ _ _ => StaysFrom.pure _

theorem saveBodyBuffer (hA : Admits R I) {now : Clock} {io : Io} {id : EntryId} {body : Des8}
    {s : CacheState} (hs : StoreReady id s) :
    StaysFrom R s (saveBuffer now io id body true) := by
  refine (hA.space now body.length s).bind fun ok s₁ hspace => ?_
  refine StaysFrom.ite (fun _ => ?_) fun _ => StaysFrom.pure _
  refine StaysFrom.ite (fun _ => ?_) fun hbody => absurd rfl hbody
  exact hA.saveBodyData (hs.survives (survives_cacheNeedsSpaceL hspace))

theorem flush (hA : Admits R I) (io : Io) (id : EntryId) : Stays R (flush io id) := by
  refine Stays.bind (stays_getEntry id) fun e => ?_
  refine Stays.bind (hA.of_quiet (quiet_headerData id)) fun header => ?_
  refine Stays.bind Stays.get fun s => Stays.ite (fun _ => ?_) fun _ => Stays.pure _
  refine Stays.bind (hA.createNewBodyFile io id) fun created => ?_
  refine Stays.ite (fun _ => Stays.ite (fun _ => ?_) fun _ => ?_) fun _ => Stays.pure _
  · refine Stays.bind (hA.of_quiet (quiet_writeBodyFile _ _ _)) fun saveOk => ?_
    refine Stays.bind (hA.of_quiet (quiet_resetBodyData id)) fun _ => ?_
    refine Stays.bind (hA.of_quiet (quiet_setBodyDataCached id false)) fun _ => ?_
    exact Stays.bind (hA.of_quiet (quiet_closeBodyFile id)) fun _ => Stays.pure _
  · exact Stays.bind (hA.of_quiet (quiet_closeBodyFile id)) fun _ => Stays.pure _

theorem flushAsync (hA : Admits R I) (io : Io) (id : EntryId) :
    Stays R (flushAsync io id) := by
  refine Stays.bind (stays_getEntry id) fun e => ?_
  refine Stays.bind (hA.of_quiet (quiet_headerData id)) fun header => ?_
  refine Stays.bind Stays.get fun s => ?_
  refine Stays.ite (fun _ => hA.of_quiet (quiet_requestComplete _)) fun _ => ?_
  refine Stays.ite (fun _ => ?_) fun _ => hA.of_quiet (quiet_resetBodyData id)
  refine Stays.bind (hA.createNewBodyFile io id) fun created => ?_
  refine Stays.ite (fun _ => ?_) fun _ => hA.of_quiet (quiet_resetBodyData id)
  exact Stays.bind (hA.of_quiet (quiet_writeBodyDataAsync _ id)) fun _ =>
    hA.of_quiet (quiet_modifyEntry fun _ => rfl)

theorem collectLoop (hA : Admits R I) (io : Nat → Io) (fuel required count skip : Nat) :
    Stays R (collectLoop io fuel required count skip) := by
  induction fuel generalizing required count skip with
  | zero => exact Stays.pure _
  | succ fuel ih =>
      refine Stays.bind Stays.get fun s => ?_
      cases s.iPostponeHandler with
      | none => exact Stays.pure _
      | some h =>
          refine Stays.ite (fun _ => ?_) fun _ => Stays.pure _
          cases h.iObjectQueue[skip]? with
          | none => exact Stays.fault
          | some id =>
              refine Stays.ite (fun _ => ih _ _ _) fun _ => ?_
              refine Stays.bind (hA.of_quiet (quiet_modifyPostpone _)) fun _ => ?_
              refine Stays.bind (hA.of_quiet (quiet_clearDeleteObserver id)) fun _ => ?_
              refine Stays.bind (stays_getEntry id) fun e => ?_
              exact Stays.bind (hA.flush _ id) fun _ => ih _ _ _

theorem collect (hA : Admits R I) (io : Nat → Io) (required : Nat) :
    Stays R (collect io required) := by
  refine Stays.bind Stays.get fun s => ?_
  cases s.iPostponeHandler with
  | none => exact Stays.pure _
  | some h =>
      refine Stays.whenM fun _ => Stays.bind (hA.of_quiet (quiet_modifyPostpone _)) fun _ => ?_
      refine Stays.bind ?_ fun _ => ?_
      · refine Stays.bind Stays.get fun s => ?_
        cases s.iPostponeHandler with
        | none => exact Stays.pure _
        | some h => exact hA.collectLoop io _ _ _ _
      · exact Stays.bind (hA.of_quiet (quiet_modifyPostpone _)) fun _ =>
          hA.of_quiet quiet_beginWriting

/-! ## Responses -/

theorem handleResponseOkL (hA : Admits R I) (env : Env) {id : EntryId} (hid : I id)
    (resp : Response) : Stays R (handleResponseOkL env id resp) := by
  refine Stays.bind (hA.of_quiet (quiet_headerData id)) fun cached => ?_
  refine Stays.ite (fun _ s => ?_) fun _ => ?_
  · refine staysFrom_getEntry fun e he => ?_
    obtain ⟨hremove, hzero⟩ := hA.removeCounted he
    refine hremove.bind fun _ s₁ hrun₁ => ?_
    refine (hA.saveHeaderBuffer (hzero _ s₁ hrun₁)).bind fun saveOk s₂ _ => ?_
    refine staysFrom_getEntry fun e₂ _ => ?_
    refine StaysFrom.bind (StaysFrom.whenM fun _ => hA.bodyFileDeleteNeeded id s₂) ?_
    exact fun _ _ _ => StaysFrom.pure _
  · refine Stays.bind (hA.setState id _ (fun _ => hid) (by decide) (by decide)) fun _ => ?_
    exact Stays.pure _

theorem handleResponseNotModifiedL (hA : Admits R I) (env : Env) {id : EntryId} (hid : I id)
    (resp : Response) : Stays R (handleResponseNotModifiedL env id resp) := by
  refine Stays.bind (hA.of_quiet (quiet_headerData id)) fun cached s => ?_
  refine (hA.removeHeaders id s).bind fun _ s₁ hremove => ?_
  have hzero := headerZero_removeHeaders hremove
  refine (hA.saveHeaderBuffer hzero).bind fun saved s₂ hsave => ?_
  have hold : StaysFrom R s₂ (if saved then pure true
      else saveBuffer env.clock (env.io 1) id cached false) := by
    cases saved with
    | true => exact StaysFrom.pure _
    | false => exact hA.saveHeaderBuffer (headerZero_saveBuffer_false hzero hsave)
  refine hold.bind fun saveOk s₃ _ => ?_
  refine StaysFrom.bind (StaysFrom.whenM fun _ => hA.setState id _ (fun _ => hid) (by decide) (by decide) s₃) ?_
  exact fun _ _ _ => StaysFrom.pure _

theorem saveResponseHeaders (hA : Admits R I) (env : Env) (t : TransId) (resp : Response)
    {id : EntryId} (hid : I id) {s : CacheState}
    (hresponding : StaysFrom R s (HttpCache.setState id .eCacheResponding)) :
    StaysFrom R s (saveResponseHeaders env t resp id) := by
  refine hresponding.bind fun _ s₁ _ => ?_
  refine StaysFrom.bind (StaysFrom.ite (fun _ => hA.handleResponseOkL env hid resp s₁) fun _ =>
    StaysFrom.ite (fun _ => hA.handleResponseNotModifiedL env hid resp s₁) fun _ =>
      StaysFrom.pure _) fun ok s₂ _ => ?_
  exact StaysFrom.ite (fun _ => hA.of_quiet (quiet_setCacheEntry t _) s₂) fun _ =>
    hA.deleteCacheEntry id hid s₂

/-- A body part: the old body is removed first, and the entry is deleted if the part is not
saved. -/
theorem receivedResponseBodyDataL (hA : Admits R I) (env : Env) (t : TransId) (body : Des8)
    {s : CacheState} (hid : ∀ id e, s.iCacheEntry t = some id → s.heap id = some e →
      e.iState = .eCacheResponding → I id) :
    StaysFrom R s (receivedResponseBodyDataL env t body) := by
  refine staysFrom_get ?_
  cases ht : s.iCacheEntry t with
  | none => exact StaysFrom.pure _
  | some id =>
      refine staysFrom_getEntry fun e he => StaysFrom.whenM fun hstate => ?_
      have hI := hid id e ht he hstate
      have hold : StaysFrom R s (whenM (e.iBodyFileDeleteNeeded = true) (do
          HttpCache.removeBodyData id
          setBodyFileDeleteNeeded id false)) := by
        refine StaysFrom.whenM fun _ => (hA.removeBodyData id s).bind fun _ s₁ hrun => ?_
        exact hA.bodyFileDeleted id s₁ (bodyZero_removeBodyData hrun)
      refine hold.bind fun _ s₁ hrun₁ => ?_
      have hready : StoreReady id s₁ := by
        rcases whenM_run.1 hrun₁ with ⟨-, hrun⟩ | ⟨hneeded, rfl⟩
        · exact storeReady_of_removed he hstate hrun
        · intro e' he'
          rw [he, Option.some.injEq] at he'
          subst he'
          exact ⟨.inl hstate, Bool.eq_false_iff.2 hneeded⟩
      refine (hA.saveBodyBuffer hready).bind fun saved s₂ _ => StaysFrom.whenM fun _ => ?_
      exact (hA.deleteCacheEntry id hI s₂).bind fun _ s₃ _ =>
        hA.of_quiet (quiet_setCacheEntry t none) s₃

theorem responseComplete (hA : Admits R I) (env : Env) (t : TransId) {s : CacheState}
    (hid : ∀ id e, s.iCacheEntry t = some id → s.heap id = some e →
      e.iState = .eCacheResponding ∨ e.iState = .eCacheDestroyed → I id) :
    StaysFrom R s (responseComplete env t) := by
  refine staysFrom_get ?_
  cases ht : s.iCacheEntry t with
  | none => exact StaysFrom.pure _
  | some id =>
      have hdelete : ∀ s₁, I id → StaysFrom R s₁ (do
          HttpCache.deleteCacheEntry id
          setCacheEntry t none) := fun s₁ hI =>
        (hA.deleteCacheEntry id hI s₁).bind fun _ s₂ _ =>
          hA.of_quiet (quiet_setCacheEntry t none) s₂
      refine staysFrom_getEntry fun e he => StaysFrom.ite (fun hstate => ?_) fun _ =>
        StaysFrom.ite (fun hstate => ?_) fun _ => StaysFrom.pure _
      · have hI := hid id e ht he (.inl hstate)
        have hcomplete : Stays R (HttpCache.setState id .eCacheComplete) :=
          hA.setState id _ (fun _ => hI) (by decide) (by decide)
        have hadd : Stays Quiet (if s.iPostponeHandler.isSome then
            addEntry env.freeMem env.appendErr id else pure .eCheckReturn) :=
          Stays.ite (fun _ => quiet_addEntry _ _ _) fun _ => Stays.pure _
        refine (hA.of_quiet hadd s).bind fun status s₁ _ => ?_
        refine StaysFrom.ite (fun _ => hcomplete s₁) fun _ => ?_
        refine (hA.flush _ id s₁).bind fun flushed s₂ _ => ?_
        exact StaysFrom.ite (fun _ => hcomplete s₂) fun _ => hdelete s₂ hI
      · exact hdelete s (hid id e ht he (.inr hstate))

/-! ## Requests -/

theorem requestL (hA : Admits R I) (env : Env) (t : TransId) (req : Request) :
    Stays R (requestL env t req) := by
  refine Stays.ite (fun _ => ?_) fun _ => Stays.pure _
  refine Stays.bind (hA.of_quiet (quiet_find _)) fun entry => ?_
  refine Stays.bind (hA.of_quiet ?_) fun entry => ?_
  · split
    · exact quiet_find _
    · exact Stays.pure _
  cases entry with
  | none => exact Stays.pure _
  | some id =>
      refine Stays.bind (stays_getEntry id) fun e => Stays.whenM fun _ => ?_
      refine Stays.bind (hA.of_quiet (quiet_headerData id)) fun headers => Stays.whenM fun _ => ?_
      refine Stays.bind (hA.setState id _ (fun h => absurd h (by decide)) (by decide) (by decide)) fun _ => ?_
      refine Stays.bind (hA.accessed _ id) fun _ => ?_
      exact hA.of_quiet (quiet_setCacheEntry t _)

theorem requestNextChunkL (hA : Admits R I) (t : TransId) : Stays R (requestNextChunkL t) := by
  refine Stays.bind Stays.get fun s => ?_
  cases s.iCacheEntry t with
  | none => exact Stays.pure _
  | some id =>
      refine Stays.bind (stays_getEntry id) fun e => ?_
      exact Stays.ite (fun _ => hA.of_quiet (quiet_nextChunkL id)) fun _ => Stays.pure _

theorem requestClosed (hA : Admits R I) (t : TransId) {s : CacheState}
    (hid : ∀ id e, s.iCacheEntry t = some id → s.heap id = some e →
      e.iState = .eCacheRequesting ∨ e.iState = .eCacheResponding ∨
        e.iState = .eCacheDestroyed → I id) :
    StaysFrom R s (requestClosed t) := by
  refine staysFrom_get ?_
  cases ht : s.iCacheEntry t with
  | none => exact StaysFrom.pure _
  | some id =>
      refine staysFrom_getEntry fun e he => StaysFrom.ite (fun hstate => ?_) fun _ =>
        StaysFrom.ite (fun hstate => ?_) fun _ => StaysFrom.pure _
      · exact hA.setState id _ (fun _ => hid id e ht he (.inl hstate)) (by decide) (by decide) s
      · refine (hA.deleteCacheEntry id (hid id e ht he (.inr hstate)) s).bind fun _ s₁ _ => ?_
        exact hA.of_quiet (quiet_setCacheEntry t none) s₁

/-! ## Other operations -/

theorem removeAllL (hA : Admits R I) (env : Env) : Stays R (removeAllL env) := by
  refine Stays.bind (hA.of_quiet quiet_postponeRemoveAll) fun _ => ?_
  refine Stays.bind (stays_removeAll hA.eraseComplete) fun _ => ?_
  exact hA.of_quiet (quiet_saveLookupTableL _)

theorem removeL (hA : Admits R I) (url : Des8) : Stays R (removeL url) := by
  refine Stays.bind (hA.of_quiet (quiet_find _)) fun entry => ?_
  cases entry with
  | none => exact Stays.pure _
  | some id =>
      refine Stays.bind (stays_getEntry id) fun e => Stays.ite (fun _ => hA.remove url) fun _ => ?_
      refine Stays.bind (hA.setState id _ (fun h => absurd h (by decide)) (by decide) (by decide)) fun _ => ?_
      exact Stays.pure _

theorem validateCacheEntriesL (hA : Admits R I) : Stays R validateCacheEntriesL := by
  refine Stays.bind Stays.get fun s => Stays.forEach fun url _ => ?_
  exact Stays.bind (hA.remove url) fun _ => Stays.pure _

theorem saveAlteredHeader (hA : Admits R I) (env : Env) (id : EntryId) (alter : Des8 → Des8) :
    Stays R (saveAlteredHeader env id alter) := by
  refine Stays.bind (hA.of_quiet (quiet_headerData id)) fun headers s => ?_
  refine (hA.removeHeaders id s).bind fun _ s₁ hremove => ?_
  exact hA.saveOneOf (headerZero_removeHeaders hremove)

theorem addHeaderL (hA : Admits R I) (env : Env) (url : Des8) (alter : Des8 → Des8)
    {s : CacheState} (hid : ∀ id, s.find url = some id → I id) :
    StaysFrom R s (addHeaderL env url alter) := by
  refine staysFrom_find ?_
  cases hfind : s.find url with
  | none => exact StaysFrom.pure _
  | some id =>
      refine (hA.saveAlteredHeader env id alter s).bind fun saveOk s₂ _ => ?_
      exact StaysFrom.whenM fun _ => hA.deleteCacheEntry id (hid id hfind) s₂

/-- The saving part of `SaveL`, for a new entry. -/
theorem saveEntry (hA : Admits R I) (env : Env) {id : EntryId} (hid : I id)
    (header content : Des8) {s : CacheState} (hzero : HeaderZero id s) (hready : StoreReady id s) :
    StaysFrom R s (saveEntry env id header content) := by
  refine (hA.saveHeaderBuffer hzero).bind fun headerSaved s₁ hrun₁ => ?_
  have hready₁ : StoreReady id s₁ := storeReady_saveHeaderBuffer hready hrun₁
  refine StaysFrom.bind (StaysFrom.ite (fun _ => hA.saveBodyBuffer hready₁) fun _ =>
    StaysFrom.pure _) fun saved s₂ _ => ?_
  refine StaysFrom.bind (StaysFrom.ite (fun _ => hA.flush _ id s₂) fun _ =>
    StaysFrom.pure _) fun flushed s₃ _ => ?_
  refine StaysFrom.bind (StaysFrom.whenM fun _ =>
    hA.setState id _ (fun _ => hid) (by decide) (by decide) s₃) fun _ _ _ => StaysFrom.pure _

/-- `SaveL` behind a successful `InsertL`. -/
theorem saveInserted (hA : Admits R I) (env : Env) {id : EntryId} (hid : I id)
    (header content : Des8) {s : CacheState} (hzero : HeaderZero id s) (hready : StoreReady id s) :
    StaysFrom R s (do
      let saved ← HttpCache.saveEntry env id header content
      whenM (saved = false) (HttpCache.deleteCacheEntry id)
      pure saved) := by
  refine (hA.saveEntry env hid header content hzero hready).bind fun saved s₁ _ => ?_
  refine StaysFrom.bind (StaysFrom.whenM fun _ => hA.deleteCacheEntry id hid s₁) ?_
  exact fun _ _ _ => StaysFrom.pure _

/-! ## New entries -/

/-- `ReceivedResponseHeadersL` does nothing, or saves the headers of a complete entry that `Find`
returns, or inserts an entry where `Find` returns none. -/
theorem receivedResponseHeadersL {env : Env} {t : TransId} {resp : Response} {s : CacheState}
    (hold : ∀ id e, s.find resp.uri = some id → s.heap id = some e →
      e.iState = .eCacheComplete → StaysFrom R s (HttpCache.saveResponseHeaders env t resp id))
    (hnew : s.find resp.uri = none → StaysFrom R s (insertL env.clock resp.uri))
    (hinserted : s.find resp.uri = none → ∀ id s₁,
      insertL env.clock resp.uri s = some (some id, s₁) → StaysFrom R s₁ (do
        whenM (resp.protectedEntry = true) (setProtected id)
        HttpCache.saveResponseHeaders env t resp id)) :
    StaysFrom R s (receivedResponseHeadersL env t resp) := by
  refine StaysFrom.ite (fun _ => ?_) fun _ => StaysFrom.pure _
  refine staysFrom_find ?_
  cases hfind : s.find resp.uri with
  | some id =>
      refine staysFrom_getEntry fun e he => StaysFrom.whenM fun hstate => ?_
      exact hold id e hfind he hstate
  | none =>
      refine (hnew hfind).bind fun entry s₁ hrun => ?_
      cases entry with
      | none => exact StaysFrom.pure _
      | some id => exact hinserted hfind id s₁ hrun

/-- `SaveL` does nothing, or inserts an entry where `Find` returns none. -/
theorem saveL {env : Env} {url header content : Des8} {s : CacheState}
    (hnew : s.find url = none → StaysFrom R s (insertL env.clock url))
    (hinserted : s.find url = none → ∀ id s₁,
      insertL env.clock url s = some (some id, s₁) → StaysFrom R s₁ (do
        let saved ← HttpCache.saveEntry env id header content
        whenM (saved = false) (HttpCache.deleteCacheEntry id)
        pure saved)) :
    StaysFrom R s (saveL env url header content) := by
  refine staysFrom_find ?_
  cases hfind : s.find url with
  | some id => exact StaysFrom.pure _
  | none =>
      refine (hnew hfind).bind fun entry s₁ hrun => ?_
      cases entry with
      | none => exact StaysFrom.pure _
      | some id => exact hinserted hfind id s₁ hrun

/-! ## The file write handler -/

theorem finishFlushing (hA : Admits R I) (h : CHttpCacheFileWriteHandler) (result : Int) :
    Stays R (finishFlushing h result) := by
  unfold HttpCache.finishFlushing
  cases h.iObjectFlushing with
  | none => exact Stays.pure _
  | some id =>
      refine Stays.bind (Stays.whenM fun _ => ?_) fun _ => hA.of_quiet (quiet_modifyPostpone _)
      refine Stays.bind (hA.of_quiet (quiet_modifyPostpone _)) fun _ => ?_
      refine Stays.bind (hA.of_quiet (quiet_clearDeleteObserver id)) fun _ => ?_
      refine Stays.whenM fun _ => Stays.bind (stays_getEntry id) fun e => ?_
      exact Stays.bind (hA.removeL _) fun _ => Stays.pure _

theorem startWriting (hA : Admits R I) (env : Env) : Stays R (startWriting env) := by
  refine Stays.bind Stays.get fun s => ?_
  cases s.iPostponeHandler with
  | none => exact Stays.fault
  | some h =>
      dsimp only
      cases h.iObjectQueue with
      | nil => exact hA.of_quiet (quiet_goIdle env)
      | cons id rest =>
          refine Stays.ite (fun _ => hA.of_quiet (quiet_goIdle env)) fun _ => ?_
          refine Stays.bind (hA.of_quiet (quiet_modifyPostpone _)) fun _ => ?_
          refine Stays.bind (hA.flushAsync _ id) fun _ => ?_
          exact hA.of_quiet (quiet_modifyPostpone _)

/-- `RunL` finishes a write, then perhaps merges the index, and starts the next write. -/
theorem fileWriteRunL (hA : Admits R I) (env : Env) (updated : Bool)
    (hmerge : Stays R (updateLookupTable env)) : Stays R (fileWriteRunL env updated) := by
  refine Stays.bind Stays.get fun s => ?_
  cases s.iPostponeHandler with
  | none => exact Stays.fault
  | some h =>
      dsimp only
      cases h.iStatus with
      | none => exact Stays.fault
      | some result =>
          refine Stays.bind Stays.guardM fun _ => ?_
          refine Stays.bind (hA.of_quiet (quiet_modifyPostpone _)) fun _ => ?_
          refine Stays.bind (hA.finishFlushing h result) fun _ => Stays.bind Stays.get fun s => ?_
          cases s.iPostponeHandler with
          | none => exact Stays.fault
          | some h =>
              refine Stays.whenM fun _ => ?_
              refine Stays.bind (hA.of_quiet (quiet_dropEmpty _)) fun _ => ?_
              refine Stays.bind Stays.get fun s => ?_
              cases s.iPostponeHandler with
              | none => exact Stays.fault
              | some h =>
                  refine Stays.ite (fun _ => hA.of_quiet (quiet_goIdle env)) fun _ => ?_
                  exact Stays.bind (Stays.whenM fun _ => hmerge) fun _ => hA.startWriting env

end Admits

/-! ## Merging -/

/-- What `MergeL` is made of stays in `R`. It erases the entry at the slot to which the URL of an
entry probes whose body is neither in memory nor on disk. -/
structure AdmitsMerge [Platform] (R : CacheState → CacheState → Prop)
    (map : Option (Des16 → Option Des8)) : Prop where
  insertL : ∀ now url, Stays R (insertL now url)
  setState : ∀ id, Stays R (setState id .eCacheComplete)
  accessedAt : ∀ id lastAccessed ref, Stays R (accessedAt id lastAccessed ref)
  erase : ∀ s id e pos j, s.heap id = some e → e.bodyDataCached = false →
    onDisk map s e.iFileName = false → s.locate e.iUrl = some (pos, j) →
    StaysFrom R s (erase pos)

namespace AdmitsMerge

variable {map : Option (Des16 → Option Des8)}

theorem mergeOldAt (hM : AdmitsMerge R map) (i : Nat) (n : ScratchTable) :
    Stays R (mergeOldAt map i n) := by
  intro s
  apply staysFrom_get
  cases s.iLookupTable.entryAt i with
  | none => exact StaysFrom.pure _
  | some id =>
      refine staysFrom_getEntry fun e he => ?_
      cases scratchFind n e.iUrl with
      | some found =>
          obtain ⟨p, newEntry⟩ := found
          refine StaysFrom.bind (StaysFrom.whenM fun _ => hM.accessedAt id _ _ s) fun _ s₁ _ => ?_
          cases n.probeFind CHttpCacheEntry.iUrl newEntry.iUrl with
          | none => exact StaysFrom.pure _
          | some pos =>
              refine StaysFrom.ite (fun _ => ?_) fun _ => StaysFrom.pure _
              exact StaysFrom.ite (fun _ => StaysFrom.pure _) fun _ => StaysFrom.fault
      | none =>
          refine staysFrom_get (StaysFrom.bind (StaysFrom.whenM fun hlost => ?_) fun _ _ _ =>
            StaysFrom.pure _)
          cases hloc : s.locate e.iUrl with
          | none => exact StaysFrom.pure _
          | some found =>
              obtain ⟨pos, j⟩ := found
              exact hM.erase s id e pos j he hlost.1 hlost.2 hloc

theorem mergeOld (hM : AdmitsMerge R map) (k : Nat) (n : ScratchTable) :
    Stays R (mergeOld map k n) := by
  induction k generalizing n with
  | zero => exact Stays.pure _
  | succ k ih => exact Stays.bind (hM.mergeOldAt k n) fun n => ih n

theorem mergeNewAt (hM : AdmitsMerge R map) (now : Clock) (i : Nat) (n : ScratchTable) :
    Stays R (mergeNewAt now map i n) := by
  unfold HttpCache.mergeNewAt
  cases n.entryAt i with
  | none => exact Stays.pure _
  | some newEntry =>
      refine Stays.bind Stays.get fun s => Stays.bind (Stays.whenM fun _ => ?_) fun _ => ?_
      · refine Stays.bind (hM.insertL now _) fun myEntry => ?_
        cases myEntry with
        | none => exact Stays.fault
        | some id => exact Stays.bind (hM.setState id) fun _ => hM.accessedAt id _ _
      · exact Stays.ite (fun _ => Stays.pure _) fun _ => Stays.fault

theorem mergeNew (hM : AdmitsMerge R map) (now : Clock) (k : Nat) (n : ScratchTable) :
    Stays R (mergeNew now map k n) := by
  induction k generalizing n with
  | zero => exact Stays.pure _
  | succ k ih => exact Stays.bind (hM.mergeNewAt now k n) fun n => ih n

theorem mergeL {env : Env} {s : CacheState}
    (hM : AdmitsMerge R (if env.hashMapOk then some s.files else none)) (n : ScratchTable) :
    StaysFrom R s (mergeL env n) := by
  apply staysFrom_get
  exact (hM.mergeOld _ n s).bind fun n s₁ _ => hM.mergeNew env.clock _ n s₁

end AdmitsMerge

/-- `UpdateLookupTable` merges nothing, or an empty table, or a table for which it sets the
content size first. -/
theorem staysFrom_updateLookupTable {env : Env} {s : CacheState}
    (hM : AdmitsMerge R (if env.hashMapOk then some s.files else none))
    (hsize : ∀ entries, openLookupTableL s.iDirectory (if env.indexOk then s.iIndexFile else none) =
      some (.loaded entries) → StaysFrom R s (do
        note (.setSavedContentSize s.iContentSize (contentSizeOf entries))
        setSavedContentSize (contentSizeOf entries))) :
    StaysFrom R s (updateLookupTable env) := by
  apply staysFrom_get
  cases hread : openLookupTableL s.iDirectory (if env.indexOk then s.iIndexFile else none) with
  | none => exact StaysFrom.fault
  | some read =>
      cases read with
      | left => exact StaysFrom.pure _
      | nothing => exact (hM.mergeL _).bind fun _ _ _ => StaysFrom.pure _
      | loaded entries =>
          have hnoted := hsize entries hread
          intro a s' hrun
          obtain ⟨_, s₁, hnote, hrun⟩ := bind_eq_some.1 hrun
          obtain ⟨_, s₂, hset, hrun⟩ := bind_eq_some.1 hrun
          apply (hnoted () s₂ (bind_eq_some.2 ⟨_, s₁, hnote, hset⟩)).trans
          have hfiles : s₂.files = s.files := by
            rw [modify_run.1 hset, modify_run.1 hnote]
            rfl
          rw [← hfiles] at hM
          exact (hM.mergeL (scratchOf entries)).bind (fun _ _ _ => StaysFrom.pure _) a s' hrun

/-! ## All operations -/

theorem headerZero_inserted {now : Clock} {u : Des8} {dir : Des16} {id : EntryId}
    {s : CacheState} (h : s.heap id = some (insertedEntry now u dir)) : HeaderZero id s := by
  intro e he
  rw [h, Option.some.injEq] at he
  rw [← he]
  rfl

theorem storeReady_inserted {now : Clock} {u : Des8} {dir : Des16} {id : EntryId}
    {s : CacheState} (h : s.heap id = some (insertedEntry now u dir)) : StoreReady id s := by
  intro e he
  rw [h, Option.some.injEq] at he
  rw [← he]
  exact ⟨.inr rfl, rfl⟩

/-- If `R` also admits the merge and the saving of response headers, it admits every operation. -/
theorem Admits.op (hA : Admits R fun _ => True) (hM : ∀ map, AdmitsMerge R map)
    (hsize : ∀ s total, StaysFrom R s (do
      note (.setSavedContentSize s.iContentSize total)
      setSavedContentSize total))
    (hfound : ∀ env t resp id e s, s.find resp.uri = some id → s.heap id = some e →
      e.iState = .eCacheComplete → StaysFrom R s (HttpCache.saveResponseHeaders env t resp id))
    (hinserted : ∀ env t resp id dir s,
      s.heap id = some (insertedEntry env.clock resp.uri dir) → StaysFrom R s (do
        whenM (resp.protectedEntry = true) (setProtected id)
        HttpCache.saveResponseHeaders env t resp id))
    (op : Op) : Stays R op.run := by
  have hupdate : ∀ env, Stays R (updateLookupTable env) := fun env s =>
    staysFrom_updateLookupTable (hM _) fun entries _ => hsize s _
  intro s
  cases op with
  | receivedResponseHeadersL env t resp =>
      apply Admits.receivedResponseHeadersL
      · intro id e hfind he hstate
        exact hfound env t resp id e s hfind he hstate
      · intro _
        exact (hM none).insertL _ _ s
      · intro _ id s₁ hrun
        exact hinserted env t resp id _ s₁ (insertL_run hrun).2
  | receivedResponseBodyDataL env t body =>
      exact hA.receivedResponseBodyDataL env t body fun _ _ _ _ _ => trivial
  | responseComplete env t => exact hA.responseComplete env t fun _ _ _ _ _ => trivial
  | requestL env t req => exact hA.requestL env t req s
  | requestNextChunkL t =>
      exact (hA.requestNextChunkL t s).bind fun _ _ _ => StaysFrom.pure _
  | requestClosed t => exact hA.requestClosed t fun _ _ _ _ _ => trivial
  | saveL env url header content =>
      apply StaysFrom.bind
      · apply Admits.saveL
        · intro _
          exact (hM none).insertL _ _ s
        · intro _ id s₁ hrun
          have hnew := (insertL_run hrun).2
          exact hA.saveInserted env trivial header content (headerZero_inserted hnew)
            (storeReady_inserted hnew)
      · intro _ _ _
        exact StaysFrom.pure _
  | removeL url => exact (hA.removeL url s).bind fun _ _ _ => StaysFrom.pure _
  | removeAllL env => exact hA.removeAllL env s
  | addHeaderL env url alter => exact hA.addHeaderL env url alter fun _ _ => trivial
  | validateCacheEntriesL => exact hA.validateCacheEntriesL s
  | updateLookupTable env => exact hupdate env s
  | fileWriteRunL env updated => exact hA.fileWriteRunL env updated (hupdate env) s
  | writeTimeout => exact hA.of_quiet quiet_writeTimeout s
  | writeHelperRunL id status => exact hA.of_quiet (quiet_writeHelperRunL id status) s
  | collect io required => exact hA.collect io required s
  | fileSystem files indexFile =>
      apply StaysFrom.of_step
      intro a s' hrun
      obtain rfl := modify_run.1 hrun
      exact hA.quiet _ _ ⟨rfl, rfl, rfl, rfl, rfl, rfl, fun _ => rfl⟩

end Operations

end SymbianWeb.HttpCache
