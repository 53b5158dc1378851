import SymbianWeb.HttpCache.Eviction
import SymbianWeb.HttpCache.Reference

/-!
# Writing a body asynchronously

`CHttpCacheEntryAsyncWriteHelper` writes the segments of a body one by one. Each activation of its
`RunL` starts the next write, or closes the file and completes the observer with the status of
the last write. The statuses of the writes before it are overwritten and never read.

`writeHelper_run` describes the activations for every list of segments and every outcome of the
writes, and `helper_completes` says that the helper completes its observer.
`WritesBody` is the state in which `FlushAsync` leaves the handler. From there the observer
learns of a failed write, and removes the entry, exactly when the last write tells
(`bodyWritten_iff`).
-/

set_option autoImplicit false

namespace SymbianWeb.HttpCache

open FaultState

/-! ## The activations of the helper -/

/-- The body file after writes of these segments with these statuses. -/
def blockFile : Option Des8 → List Des8 → List Int → Option Des8
  | file, seg :: segs, status :: statuses =>
      blockFile (if status = kErrNone then some (file.getD [] ++ seg) else file) segs statuses
  | file, [], _ => file
  | file, _ :: _, [] => file

/-- Writes that all succeed store all segments, in order and once. -/
theorem blockFile_of_ok (file : Des8) (segs : List Des8) (statuses : List Int)
    (hlen : statuses.length = segs.length) (hok : ∀ st ∈ statuses, st = kErrNone) :
    blockFile (some file) segs statuses = some (file ++ segs.flatten) := by
  induction segs generalizing file statuses with
  | nil => simp [blockFile]
  | cons seg segs ih =>
      cases statuses with
      | nil => cases hlen
      | cons status statuses =>
          rw [blockFile, if_pos (hok status List.mem_cons_self), Option.getD_some,
            ih _ _ (Nat.succ.inj hlen) fun st hst => hok st (List.mem_cons_of_mem _ hst),
            List.flatten_cons, List.append_assoc]

/-- The entry with a helper that has started `k` writes, the last one with this status. -/
def CHttpCacheEntry.writing (e : CHttpCacheEntry) (k : Nat) (status : Int) : CHttpCacheEntry :=
  { e with iWriteHelper := some ⟨k, status, true⟩ }

/-- An activation that starts the next write. -/
theorem writeHelperRunL_block {s : CacheState} {id : EntryId} {e : CHttpCacheEntry} {k : Nat}
    {st₀ : Int} (he : s.heap id = some (e.writing k st₀)) {seg : Des8}
    (hseg : e.iCacheBuffer.iBufferList[k]? = some seg) (status : Int) :
    ∃ s', writeHelperRunL id status s = some ((), s') ∧
      s'.heap = Function.update s.heap id (some (e.writing (k + 1) status)) ∧
      s'.files e.iFileName =
        (if status = kErrNone then some ((s.files e.iFileName).getD [] ++ seg)
        else s.files e.iFileName) ∧
      s'.iPostponeHandler = s.iPostponeHandler ∧ s'.iLookupTable = s.iLookupTable := by
  have hseg' : (e.writing k st₀).iCacheBuffer.iBufferList[k]? = some seg := hseg
  unfold writeHelperRunL
  rw [bind_of (getEntry_of he)]
  simp only [CHttpCacheEntry.writing, guardM_of, hseg]
  by_cases hok : status = kErrNone
  · rw [whenM_of hok, if_pos hok]
    refine ⟨_, modifyEntry_of (e := e.writing k st₀) he, ?_, ?_, rfl, rfl⟩
    · rfl
    · exact Function.update_self ..
  · rw [whenM_of_not hok, if_neg hok]
    exact ⟨_, modifyEntry_of (e := e.writing k st₀) he, rfl, rfl, rfl, rfl⟩

/-- The activations that write: the helper counts them and keeps the last status. -/
theorem writeHelper_run {s : CacheState} {id : EntryId} {e : CHttpCacheEntry} {k : Nat}
    {st₀ : Int} (he : s.heap id = some (e.writing k st₀)) (statuses : List Int)
    (hlen : k + statuses.length = e.iCacheBuffer.count) :
    ∃ s', forEach statuses (writeHelperRunL id) s = some ((), s') ∧
      s'.heap = Function.update s.heap id
        (some (e.writing (k + statuses.length) (statuses.getLastD st₀))) ∧
      s'.files e.iFileName =
        blockFile (s.files e.iFileName) (e.iCacheBuffer.iBufferList.drop k) statuses ∧
      s'.iPostponeHandler = s.iPostponeHandler ∧ s'.iLookupTable = s.iLookupTable := by
  induction statuses generalizing s k st₀ with
  | nil =>
      have hdrop : e.iCacheBuffer.iBufferList.drop k = [] := List.drop_eq_nil_of_le (by
        rw [CSegmentedHeapBuffer.count] at hlen
        simp at hlen
        omega)
      refine ⟨s, rfl, ?_, ?_, rfl, rfl⟩
      · show s.heap = Function.update s.heap id (some (e.writing k st₀))
        rw [← he, Function.update_eq_self]
      · rw [hdrop, blockFile]
  | cons status statuses ih =>
      rw [List.length_cons] at hlen
      have hk : k < e.iCacheBuffer.iBufferList.length := by
        rw [CSegmentedHeapBuffer.count] at hlen
        omega
      obtain ⟨s₁, hrun, hheap, hfile, hpost, htable⟩ :=
        writeHelperRunL_block he (List.getElem?_eq_getElem hk) status
      have he₁ : s₁.heap id = some (e.writing (k + 1) status) := by
        rw [hheap, Function.update_self]
      obtain ⟨s₂, hrest, hheap₂, hfile₂, hpost₂, htable₂⟩ := ih he₁ (by omega)
      refine ⟨s₂, ?_, ?_, ?_, by rw [hpost₂, hpost], by rw [htable₂, htable]⟩
      · rw [forEach, bind_of hrun]
        exact hrest
      · rw [hheap₂, hheap, Function.update_idem, List.length_cons, List.getLastD_cons,
          show k + (statuses.length + 1) = k + 1 + statuses.length by omega]
      · rw [hfile₂, hfile, List.drop_eq_getElem_cons hk, blockFile]

theorem closeBodyFile_run {s : CacheState} {id : EntryId} {e : CHttpCacheEntry}
    (he : s.heap id = some e) :
    ∃ s', closeBodyFile id s = some ((), s') ∧
      s'.heap = Function.update s.heap id (some { e with iBodyFile := false }) ∧
      s'.files = s.files ∧ s'.iLookupTable = s.iLookupTable ∧
      s'.iPostponeHandler = s.iPostponeHandler := by
  unfold closeBodyFile
  rw [bind_of (getEntry_of he)]
  cases hopen : e.iBodyFile with
  | true =>
      rw [whenM_of rfl]
      exact ⟨_, modifyEntry_of (e := e) he, rfl, rfl, rfl, rfl⟩
  | false =>
      rw [whenM_of_not (by decide)]
      refine ⟨s, rfl, ?_, rfl, rfl, rfl⟩
      rw [← hopen, ← he, Function.update_eq_self]

/-- The entry behind the last activation: nothing is left to write. -/
def CHttpCacheEntry.written (e : CHttpCacheEntry) (k : Nat) (status : Int) : CHttpCacheEntry :=
  { e with
    iBodyFile := false
    iCacheBuffer := .reset
    bodyDataPartiallyWritten := false
    bodyDataCached := false
    iWriteHelper := some ⟨k, status, false⟩ }

/-- The activation behind the last segment closes the file and completes the observer with the
status of the last write. -/
theorem writeHelperRunL_done {s : CacheState} {id : EntryId} {e : CHttpCacheEntry} {k : Nat}
    {st : Int} (he : s.heap id = some (e.writing k st))
    (hk : e.iCacheBuffer.count ≤ k) (status : Int) :
    ∃ s', writeHelperRunL id status s = some ((), s') ∧
      s'.heap = Function.update s.heap id (some (e.written k st)) ∧
      s'.files = s.files ∧ s'.iLookupTable = s.iLookupTable ∧
      s'.iPostponeHandler = s.iPostponeHandler.map fun h => { h with iStatus := some st } := by
  have hnone : e.iCacheBuffer.iBufferList[k]? = none := List.getElem?_eq_none hk
  obtain ⟨s₁, hclose, hheap, hfiles, htable, hpost⟩ := closeBodyFile_run he
  have he₁ : s₁.heap id = some { e.writing k st with iBodyFile := false } := by
    rw [hheap, Function.update_self]
  unfold writeHelperRunL
  rw [bind_of (getEntry_of he)]
  simp only [CHttpCacheEntry.writing, guardM_of, hnone]
  show ∃ s', (closeBodyFile id >>= fun _ => _) s = some ((), s') ∧ _
  rw [bind_of hclose]
  unfold bodyWriteComplete
  rw [bind_of (modifyEntry_of he₁), bind_of (modifyEntry_of (heap_setEntry_self _ _ _))]
  refine ⟨_, rfl, ?_, hfiles, htable, ?_⟩
  · show Function.update (Function.update s₁.heap id _) id _ = _
    rw [hheap, Function.update_idem, Function.update_idem]
    rfl
  · show Option.map _ s₁.iPostponeHandler = _
    rw [hpost]

/-- A running helper completes its observer, whatever the writes return. -/
theorem helper_completes {s : CacheState} {id : EntryId} {e : CHttpCacheEntry} {k : Nat} {st₀ : Int}
    (he : s.heap id = some (e.writing k st₀)) (statuses : List Int) (x : Int)
    (hlen : statuses.length = e.iCacheBuffer.count - k) :
    ∃ s', forEach (statuses ++ [x]) (writeHelperRunL id) s = some ((), s') ∧
      s'.iPostponeHandler =
        s.iPostponeHandler.map fun h => { h with iStatus := some (statuses.getLastD st₀) } := by
  by_cases hk : k ≤ e.iCacheBuffer.count
  · obtain ⟨s₁, hrun, hheap, -, hpost, -⟩ := writeHelper_run he statuses (by omega)
    have he₁ : s₁.heap id = some (e.writing (k + statuses.length) (statuses.getLastD st₀)) := by
      rw [hheap, Function.update_self]
    obtain ⟨s₂, hlast, -, -, -, hpost₂⟩ := writeHelperRunL_done he₁ (by omega) x
    refine ⟨s₂, ?_, by rw [hpost₂, hpost]⟩
    rw [forEach_append_of hrun, forEach, bind_of hlast]
    rfl
  · -- the buffer has been reset under the helper
    have hnil : statuses = [] := List.eq_nil_of_length_eq_zero (by omega)
    obtain ⟨s₁, hlast, -, -, -, hpost⟩ := writeHelperRunL_done he (by omega) x
    subst hnil
    refine ⟨s₁, ?_, hpost⟩
    rw [List.nil_append, forEach, bind_of hlast]
    rfl

/-! ## The consumer -/

/-- Changing the postpone handler changes nothing that a lookup or the removal reads. -/
theorem modifyPostpone_frame {s s' : CacheState} {a : Unit}
    {f : CHttpCacheFileWriteHandler → CHttpCacheFileWriteHandler}
    (h : modifyPostpone f s = some (a, s')) :
    s'.heap = s.heap ∧ s'.iLookupTable = s.iLookupTable ∧ s'.urlOf = s.urlOf := by
  obtain rfl := modify_run.1 h
  exact ⟨rfl, rfl, rfl⟩

theorem clearDeleteObserver_frame {s s' : CacheState} {id : EntryId} {a : Unit}
    {e : CHttpCacheEntry} (he : s.heap id = some e)
    (h : clearDeleteObserver id s = some (a, s')) :
    s'.heap id = some { e with iDeleteObserver := false } ∧
      s'.iLookupTable = s.iLookupTable ∧ s'.urlOf = s.urlOf := by
  obtain rfl := modifyEntry_at h he
  refine ⟨heap_setEntry_self _ _ _, rfl, ?_⟩
  funext i
  unfold CacheState.urlOf
  rw [heap_setEntry]
  by_cases hi : i = id
  · rw [if_pos hi, hi, he]
  · rw [if_neg hi]

section Consumer

variable [Platform]

/-- The state in which `FlushAsync` leaves the handler: it waits for the helper of an entry of its
queue, which is complete and found by its URL, and whose body file is empty. -/
structure WritesBody (s : CacheState) (id : EntryId) (e : CHttpCacheEntry)
    (h : CHttpCacheFileWriteHandler) : Prop where
  entry : s.heap id = some (e.writing 0 kErrNone)
  file : s.files e.iFileName = some []
  handler : s.iPostponeHandler = some h
  active : h.isActive = true
  pending : h.iStatus = none
  flushing : h.iObjectFlushing = some id
  queued : id ∈ h.iObjectQueue
  located : (s.locate e.iUrl).map Prod.snd = some id
  complete : e.iState = .eCacheComplete
  body : e.iBodySize ≠ 0

/-- The part of the handler's `RunL` that deals with what has been written. -/
def finishWrite (h : CHttpCacheFileWriteHandler) (result : Int) : CacheM Unit := do
  modifyPostpone fun h => { h with isActive := false }
  finishFlushing h result

theorem locate_congr {s s' : CacheState} (htable : s'.iLookupTable = s.iLookupTable)
    (hurl : s'.urlOf = s.urlOf) (url : Des8) : s'.locate url = s.locate url := by
  unfold CacheState.locate
  rw [htable, hurl]

/-- `RemoveL` of a complete entry with a body erases and deletes it. -/
theorem removeL_located {s s' : CacheState} {url : Des8} {pos : Nat} {id : EntryId}
    {e : CHttpCacheEntry} {r : Int} (hloc : s.locate url = some (pos, id))
    (he : s.heap id = some e) (hcomplete : e.iState = .eCacheComplete) (hbody : e.iBodySize ≠ 0)
    (hrun : removeL url s = some (r, s')) : s'.heap id = none := by
  have hfind : s.find url = some id :=
    find_eq_some.2 ⟨pos, e, hloc, he, fun hempty => hbody hempty.1⟩
  rw [removeL] at hrun
  obtain ⟨found, s₁, hpure, hrun⟩ := bind_eq_some.1 hrun
  rw [find, get_bind, pure_eq_some, Prod.mk.injEq] at hpure
  obtain ⟨rfl, rfl⟩ := hpure
  rw [hfind] at hrun
  obtain ⟨e', he', hrun⟩ := getEntry_bind.1 hrun
  obtain rfl : e' = e := Option.some.inj (he'.symm.trans he)
  rw [if_pos hcomplete, remove, get_bind, hloc] at hrun
  obtain ⟨e'', he'', hrun⟩ := getEntry_bind.1 hrun
  obtain rfl : e'' = e' := Option.some.inj (he''.symm.trans he')
  rw [if_pos hcomplete] at hrun
  obtain ⟨_, s₂, herase, hrun⟩ := bind_eq_some.1 hrun
  rw [pure_eq_some, Prod.mk.injEq] at hrun
  obtain ⟨-, rfl⟩ := hrun
  obtain ⟨_, herased⟩ := erase_spec herase (locate_slot hloc).2
  exact herased.gone

/-- Told of an error, the handler removes the entry it was writing. -/
theorem finishWrite_of_error {s s' : CacheState} {id : EntryId} {e : CHttpCacheEntry}
    {h : CHttpCacheFileWriteHandler} {r : Int} {a : Unit} (hr : r ≠ kErrNone)
    (he : s.heap id = some e) (hflushing : h.iObjectFlushing = some id)
    (hqueued : id ∈ h.iObjectQueue) (hloc : (s.locate e.iUrl).map Prod.snd = some id)
    (hcomplete : e.iState = .eCacheComplete) (hbody : e.iBodySize ≠ 0)
    (hrun : finishWrite h r s = some (a, s')) : s'.heap id = none := by
  obtain ⟨_, s₁, hidle, hrun⟩ := bind_eq_some.1 hrun
  obtain ⟨hheap₁, htable₁, hurl₁⟩ := modifyPostpone_frame hidle
  rw [finishFlushing, hflushing] at hrun
  obtain ⟨_, s₂, hwork, hrun⟩ := bind_eq_some.1 hrun
  rw [(modifyPostpone_frame hrun).1]
  rw [whenM_of hqueued] at hwork
  obtain ⟨_, s₃, hqueue, hwork⟩ := bind_eq_some.1 hwork
  obtain ⟨hheap₃, htable₃, hurl₃⟩ := modifyPostpone_frame hqueue
  obtain ⟨_, s₄, hclear, hwork⟩ := bind_eq_some.1 hwork
  have he₃ : s₃.heap id = some e := by rw [hheap₃, hheap₁, he]
  obtain ⟨he₄, htable₄, hurl₄⟩ := clearDeleteObserver_frame he₃ hclear
  rw [whenM_of hr] at hwork
  obtain ⟨e₄, he₄', hwork⟩ := getEntry_bind.1 hwork
  rw [he₄, Option.some.injEq] at he₄'
  subst he₄'
  obtain ⟨_, s₅, hremove, hwork⟩ := bind_eq_some.1 hwork
  rw [pure_eq_some, Prod.mk.injEq] at hwork
  rw [hwork.2]
  -- the lookup still ends at the entry
  obtain ⟨⟨pos, id'⟩, hslot, hid⟩ := Option.map_eq_some_iff.1 hloc
  obtain rfl : id' = id := hid
  have hloc₄ : s₄.locate e.iUrl = some (pos, id') := by
    rw [locate_congr (s := s) (by rw [htable₄, htable₃, htable₁]) (by rw [hurl₄, hurl₃, hurl₁])]
    exact hslot
  exact removeL_located hloc₄ he₄ hcomplete hbody hremove

/-- Told of success, the handler keeps it. -/
theorem finishWrite_of_ok {s : CacheState} {id : EntryId} {e : CHttpCacheEntry}
    {h : CHttpCacheFileWriteHandler} (he : s.heap id = some e)
    (hflushing : h.iObjectFlushing = some id) (hqueued : id ∈ h.iObjectQueue) :
    ∃ s', finishWrite h kErrNone s = some ((), s') ∧ s'.heap id ≠ none := by
  have hclear : ∀ s₁ : CacheState, s₁.heap id = some e → ∃ s₂,
      ((do
        clearDeleteObserver id
        whenM (kErrNone ≠ kErrNone) (do
          let e ← getEntry id
          let _ ← removeL e.iUrl) : CacheM Unit) >>= fun _ =>
        modifyPostpone fun h => { h with iObjectFlushing := none }) s₁ = some ((), s₂) ∧
        s₂.heap id ≠ none := by
    intro s₁ he₁
    rw [clearDeleteObserver, bind_assoc, bind_of (modifyEntry_of (e := e) he₁),
      whenM_of_not (not_not.2 rfl)]
    exact ⟨_, rfl, by simp⟩
  rw [finishWrite, modifyPostpone, modify_bind, finishFlushing, hflushing]
  dsimp only
  rw [whenM_of hqueued, modifyPostpone, bind_assoc, modify_bind]
  exact hclear _ he

/-- For every list of segments and every outcome of the writes, the helper completes the handler
with the status of the last write. The handler learns of a failed write, and removes the entry,
exactly when the last write fails or none does. -/
theorem bodyWritten_iff {s : CacheState} {id : EntryId} {e : CHttpCacheEntry}
    {h : CHttpCacheFileWriteHandler} (hw : WritesBody s id e h) (statuses : List Int)
    (hlen : statuses.length = e.iCacheBuffer.count) (x : Int) :
    ∃ s₁ r, forEach (statuses ++ [x]) (writeHelperRunL id) s = some ((), s₁) ∧
      s₁.iPostponeHandler = some { h with iStatus := some r } ∧
      (((r = kErrNone → (∀ st ∈ statuses, st = kErrNone) ∧
            s₁.files e.iFileName = some e.iCacheBuffer.contents) ∧
          ((∃ st ∈ statuses, st ≠ kErrNone) → r ≠ kErrNone ∧ ∀ a s₂,
            finishWrite { h with iStatus := some r } r s₁ = some (a, s₂) →
              s₂.heap id = none)) ↔
        (∃ st, statuses.getLast? = some st ∧ st ≠ kErrNone) ∨ ∀ st ∈ statuses, st = kErrNone) := by
  obtain ⟨s₁, hwrites, hheap, hfile, hpost, htable⟩ :=
    writeHelper_run hw.entry statuses (by omega)
  have he₁ : s₁.heap id =
      some (e.writing (0 + statuses.length) (statuses.getLastD kErrNone)) := by
    rw [hheap, Function.update_self]
  obtain ⟨s₂, hdone, hheap₂, hfile₂, htable₂, hpost₂⟩ := writeHelperRunL_done he₁ (by omega) x
  have he₂ : s₂.heap id = some (e.written (0 + statuses.length) (statuses.getLastD kErrNone)) := by
    rw [hheap₂, Function.update_self]
  have hurl : s₂.urlOf = s.urlOf := by
    funext i
    unfold CacheState.urlOf
    rw [hheap₂, hheap, Function.update_idem]
    by_cases hi : i = id
    · rw [hi, Function.update_self, hw.entry]
      rfl
    · rw [Function.update_of_ne hi]
  have hloc : (s₂.locate e.iUrl).map Prod.snd = some id := by
    rw [locate_congr (s := s) (by rw [htable₂, htable]) hurl]
    exact hw.located
  refine ⟨s₂, statuses.getLastD kErrNone, ?_, ?_, ?_⟩
  · rw [forEach_append_of hwrites, forEach, bind_of hdone]
    rfl
  · rw [hpost₂, hpost, hw.handler]
    rfl
  · have hlast : (∃ st, statuses.getLast? = some st ∧ st ≠ kErrNone) ↔
        statuses.getLastD kErrNone ≠ kErrNone := by
      rw [List.getLastD_eq_getLast?]
      cases statuses.getLast? with
      | none => simp
      | some st => simp
    rw [hlast]
    constructor
    · rintro ⟨hok, -⟩
      by_cases hr : statuses.getLastD kErrNone = kErrNone
      · exact .inr (hok hr).1
      · exact .inl hr
    · intro hcond
      constructor
      · intro hr
        have hall := hcond.resolve_left (not_not.2 hr)
        refine ⟨hall, ?_⟩
        rw [hfile₂, hfile, hw.file, List.drop_zero, blockFile_of_ok [] _ _ hlen hall,
          List.nil_append]
        rfl
      · rintro ⟨st, hst, hbad⟩
        have hr := hcond.resolve_right fun hall => hbad (hall st hst)
        refine ⟨hr, fun a s₃ hrun => ?_⟩
        exact finishWrite_of_error hr he₂ hw.flushing hw.queued hloc hw.complete hw.body hrun

end Consumer

/-! ## A body of two segments -/

section TwoSegments

open Reference

/-- A body of 32769 bytes. -/
def twoSegments : CSegmentedHeapBuffer kBufferSize32k where
  iBufferList := [List.replicate kBufferSize32k 0, [1]]
  full := by simp
  fits := by
    intro seg hseg
    rcases List.mem_pair.1 hseg with rfl | rfl
    · rw [List.length_replicate]
    · decide

/-- A complete entry with this body. -/
def postponedEntry : CHttpCacheEntry where
  iUrl := [1]
  iFileName := [65]
  iState := .eCacheComplete
  iBodySize := 32769
  iCacheBuffer := twoSegments

/-- The handler waits for it to be written. -/
def waitingHandler : CHttpCacheFileWriteHandler :=
  { CHttpCacheFileWriteHandler.newL 0 0 with
    iObjectQueue := [0]
    iObjectFlushing := some 0
    isActive := true
    iStatus := none }

/-- A cache with this entry and this handler. -/
def writingCache : CacheState :=
  { CacheState.newL 100000 [kPathDelimiter] 0 (some waitingHandler)
      (filesOf [([65], [])]) with
    heap := Function.update (fun _ => none) 0 (some (postponedEntry.writing 0 kErrNone))
    nextId := 1
    iLookupTable := (CHttpCacheLookupTable.newL.insertEntry (fun _ => [1]) 0).1
    openFiles := [[65]] }

theorem writesBody_writingCache : WritesBody writingCache 0 postponedEntry waitingHandler where
  entry := rfl
  file := rfl
  handler := rfl
  active := rfl
  pending := rfl
  flushing := rfl
  queued := List.mem_singleton.2 rfl
  located := by decide +kernel
  complete := rfl
  body := by decide

theorem bodyWritten_iff_twoSegments : ∃ s₁ r,
    forEach [kErrNone, kErrNone, kErrNone] (writeHelperRunL 0) writingCache = some ((), s₁) ∧
      s₁.iPostponeHandler = some { waitingHandler with iStatus := some r } ∧
      (r = kErrNone → s₁.files [65] = some twoSegments.contents) := by
  obtain ⟨s₁, r, hrun, hpost, hiff⟩ :=
    bodyWritten_iff writesBody_writingCache [kErrNone, kErrNone] rfl kErrNone
  exact ⟨s₁, r, hrun, hpost, fun hr => ((hiff.2 (.inr (by simp))).1 hr).2⟩

/-- The first write fails for want of disk space and the second one succeeds: the observer is told
of success, the file holds the last byte of the body only, and the entry stays. -/
theorem not_bodyWritten : ∃ s₁,
    forEach [-26, kErrNone, kErrNone] (writeHelperRunL 0) writingCache = some ((), s₁) ∧
      s₁.iPostponeHandler = some { waitingHandler with iStatus := some kErrNone } ∧
      s₁.files [65] = some [1] ∧
      ∃ s₂, finishWrite { waitingHandler with iStatus := some kErrNone } kErrNone s₁ =
        some ((), s₂) ∧ s₂.heap 0 ≠ none := by
  obtain ⟨s₁, hwrites, hheap, hfile, hpost, -⟩ :=
    writeHelper_run writesBody_writingCache.entry [-26, kErrNone] rfl
  have he₁ : s₁.heap 0 = some (postponedEntry.writing 2 kErrNone) := by
    rw [hheap, Function.update_self]
    rfl
  obtain ⟨s₂, hdone, hheap₂, hfile₂, -, hpost₂⟩ :=
    writeHelperRunL_done he₁ (Nat.le_refl _) kErrNone
  have he₂ : s₂.heap 0 = some (postponedEntry.written 2 kErrNone) := by
    rw [hheap₂, Function.update_self]
  refine ⟨s₂, ?_, ?_, ?_, ?_⟩
  · show forEach ([-26, kErrNone] ++ [kErrNone]) (writeHelperRunL 0) writingCache = _
    rw [forEach_append_of hwrites, forEach, bind_of hdone]
    rfl
  · rw [hpost₂, hpost]
    rfl
  · rw [hfile₂]
    exact hfile
  · exact finishWrite_of_ok he₂ rfl (List.mem_singleton.2 rfl)

end TwoSegments

end SymbianWeb.HttpCache
