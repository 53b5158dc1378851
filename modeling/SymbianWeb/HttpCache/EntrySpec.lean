import SymbianWeb.HttpCache.Operations

/-!
# What the entry methods do

One lemma for each method of an entry that changes a size, a state or a bucket: the state after a
successful call as a function of the state before it. `SizeFrame` follows for the methods that
change no size.
-/

set_option autoImplicit false

namespace SymbianWeb.HttpCache

open FaultState CHttpCacheLookupTable

/-- Replace the buckets. -/
def CacheState.withBuckets (s : CacheState) (buckets : Fin 5 → List EntryId) : CacheState :=
  { s with iBuckets := buckets }

/-! ## Runs of the methods -/

theorem evictionInsert_run {id : EntryId} {s s' : CacheState} {a : Unit}
    (h : evictionInsert id s = some (a, s')) : ∃ e, s.heap id = some e ∧ e.iRef ≠ 0 ∧
      s' = s.withBuckets
        (Function.update s.iBuckets e.bucket (s.iBuckets e.bucket ++ [id])) := by
  obtain ⟨e, he, h⟩ := getEntry_bind.1 h
  obtain ⟨href, h⟩ := guardM_bind.1 h
  rw [get_bind] at h
  exact ⟨e, he, href, setBucket_run.1 h⟩

/-- `SetState( ECacheComplete )` of an entry that is no candidate yet. -/
theorem setState_complete_run {id : EntryId} {s s' : CacheState} {e : CHttpCacheEntry} {a : Unit}
    (he : s.heap id = some e) (hcand : e.iEvictionCandidate = false)
    (h : setState id .eCacheComplete s = some (a, s')) : e.iRef ≠ 0 ∧
      s' = (s.withBuckets (Function.update s.iBuckets e.bucket
          (s.iBuckets e.bucket ++ [id]))).setEntry id
        (some { e with iState := .eCacheComplete, iEvictionCandidate := true }) := by
  rw [setState, bind_of (getEntry_of he), whenM_of ⟨rfl, hcand⟩] at h
  obtain ⟨_, s₁, hinsert, h⟩ := bind_eq_some.1 h
  obtain ⟨_, s₂, hqueue, hflag⟩ := bind_eq_some.1 hinsert
  obtain ⟨e', he', href, rfl⟩ := evictionInsert_run hqueue
  rw [he, Option.some.injEq] at he'
  subst he'
  obtain rfl := modifyEntry_at hflag he
  have hs' := modifyEntry_at h (heap_setEntry_self ..)
  rw [setEntry_setEntry] at hs'
  exact ⟨href, hs'⟩

/-- `SetState` in all other cases. -/
theorem setState_other_run {id : EntryId} {st : TCacheEntryState} {s s' : CacheState}
    {e : CHttpCacheEntry} {a : Unit} (he : s.heap id = some e)
    (hcase : ¬ (st = .eCacheComplete ∧ e.iEvictionCandidate = false))
    (h : setState id st s = some (a, s')) :
    s' = s.setEntry id (some { e with iState := st }) := by
  rw [setState, bind_of (getEntry_of he), whenM_of_not hcase] at h
  obtain ⟨_, s₁, hpure, h⟩ := bind_eq_some.1 h
  rw [pure_eq_some, Prod.mk.injEq] at hpure
  obtain ⟨-, rfl⟩ := hpure
  exact modifyEntry_at h he

/-- `SetBodySize( 0 )` of an eviction candidate with a body. -/
theorem setBodySize_unlink_run {id : EntryId} {s s' : CacheState} {e : CHttpCacheEntry} {a : Unit}
    (he : s.heap id = some e) (hsize : e.iBodySize ≠ 0) (hcand : e.iEvictionCandidate = true)
    (h : setBodySize id 0 s = some (a, s')) :
    s' = (s.withBuckets (Function.update s.iBuckets e.bucket
        ((s.iBuckets e.bucket).erase id))).setEntry id
      (some { e with iBodySize := 0, iEvictionCandidate := false }) := by
  rw [setBodySize, bind_of (getEntry_of he), whenM_of ⟨hsize, rfl, hcand⟩] at h
  obtain ⟨_, s₁, hremove, h⟩ := bind_eq_some.1 h
  obtain ⟨_, s₂, hqueue, hflag⟩ := bind_eq_some.1 hremove
  obtain ⟨e', he', -, rfl⟩ := evictionRemove_run hqueue
  rw [he, Option.some.injEq] at he'
  subst he'
  obtain rfl := modifyEntry_at hflag he
  have hs' := modifyEntry_at h (heap_setEntry_self ..)
  rw [setEntry_setEntry] at hs'
  exact hs'

/-- `SetBodySize` in all other cases. -/
theorem setBodySize_other_run {id : EntryId} {n : Nat} {s s' : CacheState}
    {e : CHttpCacheEntry} {a : Unit} (he : s.heap id = some e)
    (hcase : ¬ (e.iBodySize ≠ 0 ∧ n = 0 ∧ e.iEvictionCandidate = true))
    (h : setBodySize id n s = some (a, s')) :
    s' = s.setEntry id (some { e with iBodySize := n }) := by
  rw [setBodySize, bind_of (getEntry_of he), whenM_of_not hcase] at h
  obtain ⟨_, s₁, hpure, h⟩ := bind_eq_some.1 h
  rw [pure_eq_some, Prod.mk.injEq] at hpure
  obtain ⟨-, rfl⟩ := hpure
  exact modifyEntry_at h he

/-- In any case the entry gets its size, and nothing but it and the buckets changes. -/
theorem setBodySize_run {id : EntryId} {n : Nat} {s s' : CacheState} {a : Unit}
    (h : setBodySize id n s = some (a, s')) : ∃ e buckets candidate, s.heap id = some e ∧
      s' = (s.withBuckets buckets).setEntry id
        (some { e with iBodySize := n, iEvictionCandidate := candidate }) := by
  obtain ⟨e, he, -⟩ := getEntry_bind.1 h
  cases hcase : decide (e.iBodySize ≠ 0 ∧ n = 0 ∧ e.iEvictionCandidate = true) with
  | true =>
      rw [decide_eq_true_eq] at hcase
      obtain ⟨hsize, rfl, hcand⟩ := hcase
      exact ⟨e, _, _, he, setBodySize_unlink_run he hsize hcand h⟩
  | false =>
      rw [decide_eq_false_iff_not] at hcase
      exact ⟨e, s.iBuckets, e.iEvictionCandidate, he, setBodySize_other_run he hcase h⟩

/-! ## Methods that change no size -/

theorem sizeFrame_setEntry {s : CacheState} {id : EntryId} {e e' : CHttpCacheEntry}
    (he : s.heap id = some e) (hsizes : e'.sizes = e.sizes) :
    SizeFrame s (s.setEntry id (some e')) :=
  ⟨rfl, rfl, rfl, rfl, List.suffix_refl _, map_setEntry he hsizes⟩

theorem sizeFrame_modifyEntry {id : EntryId} {f : CHttpCacheEntry → CHttpCacheEntry}
    (hf : ∀ e, (f e).sizes = e.sizes) : Stays SizeFrame (modifyEntry id f) :=
  stays_modifyEntry fun _ e he => sizeFrame_setEntry he (hf e)

theorem sizeFrame_setBucket (i : Fin 5) (queue : List EntryId) :
    Stays SizeFrame (setBucket i queue) :=
  stays_modify fun _ => ⟨rfl, rfl, rfl, rfl, List.suffix_refl _, fun _ => rfl⟩

theorem sizeFrame_note (c : Call) : Stays SizeFrame (note c) :=
  stays_modify fun _ => ⟨rfl, rfl, rfl, rfl, List.suffix_cons _ _, fun _ => rfl⟩

theorem sizeFrame_setState (id : EntryId) (st : TCacheEntryState) :
    Stays SizeFrame (setState id st) := by
  refine Stays.bind (stays_getEntry id) fun e => ?_
  refine Stays.bind (Stays.whenM fun _ => ?_) fun _ => sizeFrame_modifyEntry fun _ => rfl
  refine Stays.bind ?_ fun _ => sizeFrame_modifyEntry fun _ => rfl
  refine Stays.bind (stays_getEntry id) fun e => Stays.bind Stays.guardM fun _ => ?_
  exact Stays.bind Stays.get fun s => sizeFrame_setBucket _ _

theorem sizeFrame_evictionAccessed (id : EntryId) : Stays SizeFrame (evictionAccessed id) := by
  refine Stays.bind (stays_getEntry id) fun e => Stays.bind Stays.get fun s => ?_
  refine Stays.ite (fun _ => Stays.ite (fun _ => Stays.ite (fun _ => ?_) fun _ => ?_) fun _ =>
    Stays.pure _) fun _ => Stays.pure _
  · exact Stays.whenM fun _ => sizeFrame_setBucket _ _
  · exact Stays.bind (sizeFrame_setBucket _ _) fun _ => sizeFrame_setBucket _ _

theorem sizeFrame_accessed (now : Clock) (id : EntryId) : Stays SizeFrame (accessed now id) := by
  refine Stays.bind (stays_getEntry id) fun e => Stays.bind (sizeFrame_note _) fun _ => ?_
  refine Stays.bind (sizeFrame_modifyEntry fun _ => rfl) fun _ => ?_
  exact Stays.bind (stays_getEntry id) fun e => Stays.whenM fun _ => sizeFrame_evictionAccessed id

theorem sizeFrame_accessedAt (id : EntryId) (lastAccessed : Int) (ref : UInt16) :
    Stays SizeFrame (accessedAt id lastAccessed ref) := by
  refine Stays.bind (stays_getEntry id) fun e => Stays.bind (sizeFrame_note _) fun _ => ?_
  refine Stays.bind (sizeFrame_modifyEntry fun _ => rfl) fun _ => ?_
  exact Stays.bind (stays_getEntry id) fun e => Stays.whenM fun _ => sizeFrame_evictionAccessed id

theorem sizeFrame_setProtected (id : EntryId) : Stays SizeFrame (setProtected id) :=
  sizeFrame_modifyEntry fun _ => rfl

theorem sizeFrame_setBodyFileDeleteNeeded (id : EntryId) (b : Bool) :
    Stays SizeFrame (setBodyFileDeleteNeeded id b) :=
  sizeFrame_modifyEntry fun _ => rfl

/-! ## The history only grows -/

/-- Every call of the first history is in the second one. -/
def HistoryGrows (s s' : CacheState) : Prop := s.history <:+ s'.history

theorem grows_of_run {α : Type} {m : CacheM α} (h : Stays HistoryGrows m) {s s' : CacheState}
    {a : α} (hm : m s = some (a, s')) : s.history <:+ s'.history :=
  related_of_chain (R := HistoryGrows) (fun _ => List.suffix_refl _)
    (fun _ _ _ h h' => h.trans h') (h s a s' hm)

theorem grows_of_sizeFrame {α : Type} {m : CacheM α} (h : Stays SizeFrame m) :
    Stays HistoryGrows m :=
  h.mono fun _ _ hf => hf.history

theorem grows_of_quiet {α : Type} {m : CacheM α} (h : Stays Quiet m) : Stays HistoryGrows m :=
  h.mono fun _ _ hq => hq.sizeFrame.history

theorem grows_modify {f : CacheState → CacheState} (h : ∀ s, (f s).history = s.history) :
    Stays HistoryGrows (modify f : CacheM PUnit) :=
  stays_modify fun s => by
    show s.history <:+ (f s).history
    rw [h]

theorem grows_deleteEntry (id : EntryId) : Stays HistoryGrows (deleteEntry id) := by
  refine Stays.bind (stays_getEntry id) fun e => Stays.bind (Stays.whenM fun _ => ?_) fun _ => ?_
  · refine Stays.bind (stays_getEntry id) fun e => Stays.bind Stays.guardM fun _ => ?_
    exact Stays.bind Stays.get fun s => Stays.whenM fun _ => grows_modify fun _ => rfl
  · refine Stays.bind (Stays.whenM fun _ => grows_of_quiet (quiet_removeEntry id)) fun _ => ?_
    refine Stays.bind (grows_of_quiet (quiet_closeBodyFile id)) fun _ => ?_
    exact Stays.bind Stays.guardM fun _ => grows_modify fun _ => rfl

theorem grows_insertL [Platform] (now : Clock) (u : Des8) :
    Stays HistoryGrows (insertL now u) := by
  refine Stays.bind Stays.get fun s => Stays.bind (grows_modify fun _ => rfl) fun _ => ?_
  refine Stays.bind Stays.get fun s₁ => Stays.bind (grows_modify fun _ => rfl) fun _ => ?_
  refine Stays.ite (fun _ => ?_) fun _ => ?_
  · refine Stays.bind (grows_of_sizeFrame (sizeFrame_accessed now _)) fun _ => ?_
    refine Stays.bind ?_ fun _ => Stays.pure _
    refine Stays.bind (stays_getEntry _) fun e => Stays.bind Stays.get fun s₂ => ?_
    refine Stays.bind (stays_modifyEntry fun _ _ _ => List.suffix_refl _) fun _ => ?_
    refine Stays.bind (grows_of_sizeFrame (sizeFrame_setState _ _)) fun _ => ?_
    exact Stays.bind (grows_of_quiet (quiet_deleteFile _)) fun _ =>
      grows_of_quiet (quiet_deleteFile _)
  · exact Stays.bind (grows_deleteEntry _) fun _ => Stays.pure _

end SymbianWeb.HttpCache
