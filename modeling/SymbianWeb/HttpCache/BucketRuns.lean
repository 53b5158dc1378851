import SymbianWeb.HttpCache.Buckets
import SymbianWeb.HttpCache.Reference

/-!
# The eviction buckets over whole runs

`Buckets` is kept by every operation, unless one of three calls has gone wrong: an access when the
reference count is at its maximum, an access from an index merge whose new count puts the entry in
a bucket it is not moved to, and a `DeleteCacheEntry` that erases another entry. The first two are
recorded with the values they depend on, so that the condition is about the state before the call.
-/

set_option autoImplicit false

namespace SymbianWeb.HttpCache

open FaultState BucketQueues CHttpCacheLookupTable

/-- A call after which the entries are still in their buckets. `Accessed()` must not overflow the
reference count, and `Accessed( TInt64, TUint16 )` must look for the entry where it is, or the
entry must belong to the same bucket as before. -/
def Call.keepsBuckets : Call → Prop
  | .accessed candidate ref => candidate = true → ref ≠ 65535
  | .accessedAt candidate bodySize ref aRef => candidate = true → aRef ≠ 0 ∧
      (bucketOf bodySize aRef.toNat = bucketOf bodySize ref.toNat ∨
        2 ≤ aRef.toNat ∧ bucketOf bodySize (aRef.toNat - 1) = bucketOf bodySize ref.toNat)
  | .deleteCacheEntry id state candidate deleteNeeded located =>
      state = .eCacheResponding → candidate = true → deleteNeeded = false → located = some id
  | _ => True

instance (c : Call) : Decidable c.keepsBuckets :=
  match c with
  | .accessed candidate ref => inferInstanceAs (Decidable (candidate = true → ref ≠ 65535))
  | .accessedAt candidate bodySize ref aRef =>
      inferInstanceAs (Decidable (candidate = true → aRef ≠ 0 ∧
        (bucketOf bodySize aRef.toNat = bucketOf bodySize ref.toNat ∨
          2 ≤ aRef.toNat ∧ bucketOf bodySize (aRef.toNat - 1) = bucketOf bodySize ref.toNat)))
  | .deleteCacheEntry id state candidate deleteNeeded located =>
      inferInstanceAs (Decidable (state = .eCacheResponding → candidate = true →
        deleteNeeded = false → located = some id))
  | .createNewBodyFile .. => isTrue trivial
  | .setSavedContentSize .. => isTrue trivial

/-- No exception from the invariant. -/
def noEntry : EntryId → Prop := fun _ => False

variable {P X : EntryId → Prop} {s s' : CacheState}

/-! ## Eviction -/

/-- The candidate found so far is in its bucket. -/
def PickOk (s : CacheState) (pick : EvictPick) : Prop :=
  ∀ i id, pick.candidate = some (i, id) → id ∈ s.iBuckets i

theorem considerBucket_ok {now : Int} {pick pick' : EvictPick} {i : Fin 5} (h : PickOk s pick)
    (hrun : considerBucket s now pick i = some pick') : PickOk s pick' := by
  unfold considerBucket at hrun
  cases hb : s.iBuckets i with
  | nil =>
      simp only [hb, Option.some.injEq] at hrun
      rw [← hrun]
      exact h
  | cons id rest =>
      cases he : s.heap id with
      | none =>
          simp only [hb, he] at hrun
          cases hrun
      | some e =>
          simp only [hb, he] at hrun
          split at hrun
          · split at hrun
            · cases hrun
            · split at hrun
              · rw [Option.some.injEq] at hrun
                rw [← hrun]
                intro j id' hcand
                simp only [Option.some.injEq, Prod.mk.injEq] at hcand
                obtain ⟨rfl, rfl⟩ := hcand
                rw [hb]
                exact List.mem_cons_self
              · rw [Option.some.injEq] at hrun
                rw [← hrun]
                exact h
          · rw [Option.some.injEq] at hrun
            rw [← hrun]
            exact h

theorem foldlM_considerBucket_ok {now : Int} {l : List (Fin 5)} {pick pick' : EvictPick}
    (h : PickOk s pick) (hrun : l.foldlM (considerBucket s now) pick = some pick') :
    PickOk s pick' := by
  induction l generalizing pick with
  | nil =>
      rw [List.foldlM_nil] at hrun
      cases hrun
      exact h
  | cons i l ih =>
      rw [List.foldlM_cons] at hrun
      obtain ⟨pick₁, hfirst, hrest⟩ := Option.bind_eq_some_iff.1 hrun
      exact ih (considerBucket_ok h hfirst) hrest

theorem pickCandidate_mem {now : Clock} {pick : EvictPick} {i : Fin 5} {id : EntryId}
    (hrun : pickCandidate s now = some pick) (hcand : pick.candidate = some (i, id)) :
    id ∈ s.iBuckets i := by
  refine foldlM_considerBucket_ok ?_ hrun i id hcand
  intro j id' h
  cases h

/-- An entry that is taken out of the bucket it was found in is in none. -/
theorem Buckets.evict (h : Buckets P X s) {i : Fin 5} {id : EntryId}
    (hmem : id ∈ s.iBuckets i) : Buckets (fun j => P j ∨ j = id) X
      (s.withBuckets (Function.update s.iBuckets i ((s.iBuckets i).erase id))) := by
  cases he : s.heap id with
  | none => exact absurd hmem (h.gone id he i)
  | some e =>
      have hl := h.entry id e he
      have hnot : ¬ (e.iEvictionCandidate = false ∨ P id) := fun hc => hl.unlinked hc i hmem
      rw [not_or] at hnot
      have hin := hl.linked (Bool.eq_true_of_not_eq_false hnot.1) hnot.2
      obtain rfl := hin.eq_of_mem hmem
      have hself := setEntry_eq_self (s := s.withBuckets
        (Function.update s.iBuckets e.bucket ((s.iBuckets e.bucket).erase id))) he
      rw [← hself]
      refine h.of_setEntry he rfl (fun j hj => sameFor_erase hj) ?_ (fun _ _ => Iff.rfl) ?_
      · intro j hj
        exact or_iff_left hj
      · refine ⟨fun _ hp => absurd (.inr rfl) hp, fun _ => hin.erase, hl.ref, hl.receiving, hl.new⟩

theorem Buckets.congr_pending {Q : EntryId → Prop} (h : Buckets P X s)
    (hP : ∀ i, P i ↔ Q i) : Buckets Q X s := by
  have heq : P = Q := funext fun i => propext (hP i)
  rw [← heq]
  exact h

theorem Buckets.evictLoop (h : Buckets P X s) {now : Clock} {fuel : Nat} {space : Int}
    {evicted : List EntryId} (hrun : evictLoop now fuel space s = some (evicted, s')) :
    Buckets (fun i => P i ∨ i ∈ evicted) X s' := by
  induction fuel generalizing s space evicted P with
  | zero =>
      rw [HttpCache.evictLoop, pure_eq_some, Prod.mk.injEq] at hrun
      obtain ⟨rfl, rfl⟩ := hrun
      exact h.congr_pending fun i => by simp
  | succ fuel ih =>
      rw [HttpCache.evictLoop] at hrun
      split at hrun
      · rw [get_bind] at hrun
        cases hpick : pickCandidate s now with
        | none =>
            rw [hpick] at hrun
            cases hrun
        | some pick =>
            simp only [hpick] at hrun
            cases hcand : pick.candidate with
            | none =>
                rw [hcand, pure_eq_some, Prod.mk.injEq] at hrun
                obtain ⟨rfl, rfl⟩ := hrun
                exact h.congr_pending fun i => by simp
            | some found =>
                obtain ⟨i, id⟩ := found
                simp only [hcand] at hrun
                obtain ⟨_, s₁, hset, hrun⟩ := bind_eq_some.1 hrun
                obtain rfl := setBucket_run.1 hset
                obtain ⟨e, -, hrun⟩ := getEntry_bind.1 hrun
                obtain ⟨rest, s₂, hrest, hrun⟩ := bind_eq_some.1 hrun
                rw [pure_eq_some, Prod.mk.injEq] at hrun
                obtain ⟨rfl, rfl⟩ := hrun
                have hloop := ih (h.evict (pickCandidate_mem hpick hcand)) hrest
                exact hloop.congr_pending fun j => by
                  rw [List.mem_cons, or_assoc]
      · rw [pure_eq_some, Prod.mk.injEq] at hrun
        obtain ⟨rfl, rfl⟩ := hrun
        exact h.congr_pending fun i => by simp

section Space

variable [Platform]

/-- Destroying an evicted entry clears its flag before it is erased. -/
theorem Buckets.destroyEvicted {id : EntryId} (h : Buckets (fun i => i = id ∨ P i) X s)
    {a : Unit} (hrun : destroyEvicted id s = some (a, s')) : Buckets P X s' := by
  obtain ⟨_, s₁, hqueue, hrun⟩ := bind_eq_some.1 hrun
  have h₁ := h.of_linkFrame (quiet_of (quiet_removeEntry id) hqueue).linkFrame
  obtain ⟨e, he, hrun⟩ := modifyEntry_bind.1 hrun
  obtain ⟨e', -, hrun⟩ := getEntry_bind.1 hrun
  obtain ⟨_, s₂, hremove, hrun⟩ := bind_eq_some.1 hrun
  rw [pure_eq_some, Prod.mk.injEq] at hrun
  obtain ⟨-, rfl⟩ := hrun
  have hcleared : Buckets P X
      (s₁.setEntry id (some { e with iEvictionCandidate := false })) := by
    refine h₁.of_setEntry_same he rfl ?_ ?_ ?_
    · intro i hi
      exact (or_iff_right hi).symm
    · intro i _
      exact Iff.rfl
    · exact .of_not_candidate rfl ((h₁.entry id e he).unlinked (.inr (.inl rfl)))
  have herase : ErasesComplete fun s s' => Buckets P X s → Buckets P X s' := by
    intro s pos i e₀ hslot _ _
    apply StaysFrom.of_step
    intro a s' hrun hs
    obtain ⟨e₁, herased⟩ := erase_spec hrun hslot
    exact hs.of_erased herased
  exact invariant_of_chain (fun _ _ hstep => hstep) (stays_remove herase _ _ _ _ hremove) hcleared

theorem Buckets.destroyAll {evicted : List EntryId} (h : Buckets (fun i => i ∈ evicted) X s)
    {a : Unit} (hrun : forEach evicted HttpCache.destroyEvicted s = some (a, s')) :
    Buckets noEntry X s' := by
  induction evicted generalizing s with
  | nil =>
      rw [forEach_nil_eq_some, Prod.mk.injEq] at hrun
      obtain ⟨-, rfl⟩ := hrun
      exact h.congr_pending fun i => by simp [noEntry]
  | cons id rest ih =>
      obtain ⟨s₁, hfirst, hrest⟩ := forEach_cons_eq_some.1 hrun
      have hpending := h.congr_pending (Q := fun i => i = id ∨ i ∈ rest) fun i => List.mem_cons
      exact ih (hpending.destroyEvicted hfirst) hrest

/-- `CacheNeedsSpaceL` leaves no entry between its bucket and its flag. -/
theorem Buckets.cacheNeedsSpaceL (h : Buckets noEntry X s) {now : Clock} {size : Nat} {a : Bool}
    (hrun : cacheNeedsSpaceL now size s = some (a, s')) : Buckets noEntry X s' := by
  rw [HttpCache.cacheNeedsSpaceL, get_bind] at hrun
  split at hrun
  · obtain ⟨evicted, s₁, hevict, hrun⟩ := bind_eq_some.1 hrun
    rw [evictL, get_bind] at hevict
    have h₁ := (h.evictLoop hevict).congr_pending (Q := fun i => i ∈ evicted)
      fun i => or_iff_right id
    split at hrun
    · next hnil =>
        rw [pure_eq_some, Prod.mk.injEq] at hrun
        obtain ⟨-, rfl⟩ := hrun
        exact h₁.congr_pending fun i => by simp [hnil, noEntry]
    · obtain ⟨_, s₂, hdestroy, hrun⟩ := bind_eq_some.1 hrun
      rw [get_bind, pure_eq_some, Prod.mk.injEq] at hrun
      obtain ⟨-, rfl⟩ := hrun
      exact h₁.destroyAll hdestroy
  · rw [pure_eq_some, Prod.mk.injEq] at hrun
    obtain ⟨-, rfl⟩ := hrun
    exact h

end Space

/-! ## The kinds of steps -/

/-- A step after which the buckets are right if they were before, unless a call has spoiled
them. -/
def BucketStep (X : EntryId → Prop) (s s' : CacheState) : Prop :=
  s.history <:+ s'.history ∧
    ((∀ c ∈ s'.history, c.keepsBuckets) → Buckets noEntry X s → Buckets noEntry X s')

theorem BucketStep.refl (X : EntryId → Prop) (s : CacheState) : BucketStep X s s :=
  ⟨List.suffix_refl _, fun _ h => h⟩

theorem BucketStep.trans {s₁ s₂ s₃ : CacheState} (h : BucketStep X s₁ s₂)
    (h' : BucketStep X s₂ s₃) : BucketStep X s₁ s₃ := by
  refine ⟨h.1.trans h'.1, ?_⟩
  intro hcalls hs
  apply h'.2 hcalls
  apply h.2 _ hs
  intro c hc
  exact hcalls c (h'.1.subset hc)

theorem bucketStep_of {α : Type} {m : CacheM α} {a : α} (h : StaysFrom (BucketStep X) s m)
    (hm : m s = some (a, s')) : BucketStep X s s' :=
  related_of_chain (BucketStep.refl X) (fun _ _ _ => BucketStep.trans) (h a s' hm)

theorem bucketStep_of_linkFrame (h : LinkFrame s s') : BucketStep X s s' :=
  ⟨h.history, fun _ hs => hs.of_linkFrame h⟩

theorem buckets_of_quiet {α : Type} {m : CacheM α} (h : Stays Quiet m) :
    Stays (BucketStep X) m :=
  h.mono fun _ _ hq => bucketStep_of_linkFrame hq.linkFrame

/-- A step that writes the note of a call has a history with that call. -/
theorem mem_history_of_grows {c : Call} {s₁ : CacheState}
    (h : (s.noted c).history <:+ s₁.history) : c ∈ s₁.history :=
  h.subset List.mem_cons_self

section Functions

variable [Platform]

theorem buckets_space (now : Clock) (size : Nat) :
    Stays (BucketStep X) (cacheNeedsSpaceL now size) := by
  apply Stays.of_step
  intro s a s' hrun
  constructor
  · exact grows_of_run ((evictStep_cacheNeedsSpaceL now size).mono fun _ _ => EvictStep.history)
      hrun
  · intro _ hs
    exact hs.cacheNeedsSpaceL hrun

omit [Platform] in
theorem linkFrame_setEntry {id : EntryId} {e e' : CHttpCacheEntry} (he : s.heap id = some e)
    (hnames : e'.names = e.names) (hcore : e'.linkCore = e.linkCore) :
    LinkFrame s (s.setEntry id (some e')) :=
  ⟨⟨rfl, rfl, rfl, List.suffix_refl _, map_setEntry he hnames⟩, rfl, map_setEntry he hcore⟩

omit [Platform] in
theorem buckets_modifyEntry {id : EntryId} {f : CHttpCacheEntry → CHttpCacheEntry}
    (hnames : ∀ e, (f e).names = e.names) (hcore : ∀ e, (f e).linkCore = e.linkCore) :
    Stays (BucketStep X) (modifyEntry id f) :=
  stays_modifyEntry fun _ e he => bucketStep_of_linkFrame (linkFrame_setEntry he (hnames e) (hcore e))

omit [Platform] in
theorem buckets_addContentSize (n : Int) : Stays (BucketStep X) (addContentSize n) :=
  stays_modify fun _ => bucketStep_of_linkFrame
    ⟨⟨rfl, rfl, rfl, List.suffix_refl _, fun _ => rfl⟩, rfl, fun _ => rfl⟩

omit [Platform] in
theorem buckets_note (c : Call) : Stays (BucketStep X) (note c) :=
  stays_modify fun _ => bucketStep_of_linkFrame
    ⟨⟨rfl, rfl, rfl, List.suffix_cons _ _, fun _ => rfl⟩, rfl, fun _ => rfl⟩

/-- Saving headers concerns no bucket, but for the space it needs. -/
theorem admitsHeaders_buckets (X : EntryId → Prop) : AdmitsHeaders (BucketStep X) where
  quiet _ _ h := bucketStep_of_linkFrame h.linkFrame
  space := buckets_space
  removeHeaders id := by
    refine Stays.bind (stays_getEntry id) fun e => Stays.bind (buckets_addContentSize _) fun _ => ?_
    exact buckets_modifyEntry (fun _ => rfl) fun _ => rfl
  saveHeaders io id header s _ := by
    apply staysFrom_get
    refine StaysFrom.ite (fun _ => ?_) fun _ => StaysFrom.pure _
    have hcreate : Stays (BucketStep X) (createHeaderBufferL id header) :=
      buckets_modifyEntry (fun _ => rfl) fun _ => rfl
    refine (hcreate s).bind fun _ s₁ _ => staysFrom_getEntry fun e _ => ?_
    exact (buckets_addContentSize _ s₁).bind fun _ _ _ => StaysFrom.pure _

omit [Platform] in
theorem buckets_erase (pos : Nat) : Stays (BucketStep X) (erase pos) := by
  intro s
  cases hslot : s.iLookupTable.entryAt pos with
  | none =>
      apply staysFrom_get
      rw [hslot]
      exact StaysFrom.pure _
  | some id =>
      apply StaysFrom.of_step
      intro a s' hrun
      obtain ⟨e, herased⟩ := erase_spec hrun hslot
      constructor
      · rw [herased.history]
      · intro _ hs
        exact hs.of_erased herased

theorem buckets_deleteCacheEntry (id : EntryId) :
    Stays (BucketStep X) (deleteCacheEntry id) := by
  refine Stays.bind (buckets_of_quiet (quiet_removeEntry id)) fun _ => ?_
  refine Stays.bind (stays_getEntry id) fun e => Stays.bind Stays.get fun s => ?_
  refine Stays.bind (buckets_note _) fun _ => Stays.bind Stays.get fun s => ?_
  cases s.locate e.iUrl with
  | none => exact Stays.pure _
  | some found => exact buckets_erase found.1

omit [Platform] in
theorem buckets_setState (id : EntryId) {st : TCacheEntryState}
    (hresponding : st ≠ .eCacheResponding) (hnew : st ≠ .eCacheInitialized) :
    Stays (BucketStep X) (setState id st) := by
  apply Stays.of_step
  intro s a s' hrun
  constructor
  · exact grows_of_run (grows_of_sizeFrame (sizeFrame_setState id st)) hrun
  · intro _ hs
    exact hs.setState (fun _ _ => Iff.rfl) (fun h => h) hresponding hnew hrun

omit [Platform] in
/-- The part of both functions `Accessed` behind the note. -/
theorem grows_changed (id : EntryId) {f : CHttpCacheEntry → CHttpCacheEntry}
    (hf : ∀ e, (f e).sizes = e.sizes) : Stays HistoryGrows (do
      modifyEntry id f
      let e ← getEntry id
      whenM (e.iEvictionCandidate = true) (evictionAccessed id)) := by
  apply Stays.bind
  · exact grows_of_sizeFrame (sizeFrame_modifyEntry hf)
  · intro _
    refine Stays.bind (stays_getEntry id) fun e => Stays.whenM fun _ => ?_
    exact grows_of_sizeFrame (sizeFrame_evictionAccessed id)

omit [Platform] in
/-- The history says what `Accessed()` has found. -/
theorem buckets_accessed (now : Clock) (id : EntryId) :
    Stays (BucketStep X) (accessed now id) := by
  apply Stays.of_step
  intro s a s' hrun
  constructor
  · exact grows_of_run (grows_of_sizeFrame (sizeFrame_accessed now id)) hrun
  · intro hcalls hs
    apply hs.accessed (fun _ h => h) _ hrun
    intro e he
    rw [HttpCache.accessed, bind_of (getEntry_of he), note, modify_bind] at hrun
    have hgrows := grows_of_run ?_ hrun
    · exact hcalls _ (mem_history_of_grows hgrows)
    · exact grows_changed id fun _ => rfl

omit [Platform] in
theorem buckets_accessedAt (id : EntryId) (lastAccessed : Int) (ref : UInt16) :
    Stays (BucketStep X) (accessedAt id lastAccessed ref) := by
  apply Stays.of_step
  intro s a s' hrun
  constructor
  · exact grows_of_run (grows_of_sizeFrame (sizeFrame_accessedAt id lastAccessed ref)) hrun
  · intro hcalls hs
    apply hs.accessedAt (fun _ h => h) _ hrun
    intro e he
    rw [HttpCache.accessedAt, bind_of (getEntry_of he), note, modify_bind] at hrun
    have hgrows := grows_of_run ?_ hrun
    · exact hcalls _ (mem_history_of_grows hgrows)
    · exact grows_changed id fun _ => rfl

omit [Platform] in
theorem buckets_setBodySize_zero (id : EntryId) : Stays (BucketStep X) (setBodySize id 0) := by
  apply Stays.of_step
  intro s a s' hrun
  constructor
  · obtain ⟨e, buckets, candidate, -, rfl⟩ := setBodySize_run hrun
    exact List.suffix_refl _
  · intro _ hs
    exact hs.setBodySize_zero (fun h => h) hrun

omit [Platform] in
theorem buckets_createNewBodyFile (io : Io) (id : EntryId) :
    Stays (BucketStep X) (createNewBodyFile io id) := by
  refine Stays.bind (stays_getEntry id) fun e => Stays.bind Stays.get fun s => ?_
  refine Stays.bind (buckets_note _) fun _ => Stays.ite (fun _ => ?_) fun _ => ?_
  · refine Stays.bind (buckets_of_quiet (quiet_modify_files _ _)) fun _ => ?_
    exact Stays.bind (buckets_of_quiet (quiet_modifyEntry fun _ => rfl)) fun _ => Stays.pure _
  · refine Stays.bind (buckets_setBodySize_zero id) fun _ => ?_
    exact Stays.bind (buckets_of_quiet (quiet_resetBodyData id)) fun _ => Stays.pure _

omit [Platform] in
theorem buckets_removeBodyData (id : EntryId) : Stays (BucketStep X) (removeBodyData id) := by
  refine Stays.bind (stays_getEntry id) fun e => Stays.bind (buckets_addContentSize _) fun _ => ?_
  refine Stays.bind (buckets_setBodySize_zero id) fun _ => ?_
  refine Stays.bind (buckets_of_quiet (quiet_resetBodyData id)) fun _ => ?_
  refine Stays.bind (buckets_of_quiet (quiet_openBodyFile id)) fun opened => ?_
  refine Stays.whenM fun _ => Stays.bind ?_ fun _ => buckets_of_quiet (quiet_closeBodyFile id)
  exact buckets_of_quiet (quiet_modify_files _ fun s => s.openFiles)

omit [Platform] in
/-- A part is counted for an entry that is in no bucket. -/
theorem buckets_updateSizeInformation (id : EntryId) (n : Nat) {s : CacheState}
    (hready : StoreReady id s) : StaysFrom (BucketStep noEntry) s (updateSizeInformation id n) := by
  apply staysFrom_getEntry
  intro e he
  have hsize : StaysFrom (BucketStep noEntry) s (setBodySize id (e.iBodySize + n)) := by
    apply StaysFrom.of_step
    intro a s' hrun
    constructor
    · obtain ⟨e', buckets, candidate, -, rfl⟩ := setBodySize_run hrun
      exact List.suffix_refl _
    · intro _ hs
      apply hs.setBodySize_idle _ hrun
      intro e' he'
      have hl := hs.entry id e' he'
      obtain ⟨hstate, hneeded⟩ := hready e' he'
      cases hcand : e'.iEvictionCandidate with
      | false => rfl
      | true =>
          rcases hstate with hstate | hstate
          · have hdelete := (hl.receiving (fun h => h) hstate hcand).1
            rw [hneeded] at hdelete
            cases hdelete
          · rw [hl.new hstate] at hcand
            cases hcand
  exact hsize.bind fun _ s₁ _ => buckets_addContentSize _ s₁

omit [Platform] in
theorem buckets_setBodyFileDeleteNeeded (id : EntryId) (b : Bool) {s : CacheState}
    (h : b = true ∨ BodyZero id s) :
    StaysFrom (BucketStep noEntry) s (setBodyFileDeleteNeeded id b) := by
  apply StaysFrom.of_step
  intro a s' hrun
  obtain ⟨e, he, rfl⟩ := modifyEntry_run.1 hrun
  refine ⟨List.suffix_refl _, fun _ hs => ?_⟩
  have hl := hs.entry id e he
  refine hs.of_setEntry_same he rfl (fun _ _ => Iff.rfl) (fun _ _ => Iff.rfl)
    ⟨hl.linked, hl.unlinked, hl.ref, ?_, hl.new⟩
  intro hx hstate hcand
  obtain ⟨-, hsize⟩ := hl.receiving hx hstate hcand
  rcases h with hb | hzero
  · exact ⟨hb, hsize⟩
  · exact absurd (hzero e he) hsize

theorem admits_buckets : Admits (BucketStep noEntry) fun _ => True where
  toAdmitsHeaders := admitsHeaders_buckets noEntry
  eraseComplete _ _ _ := buckets_erase _ _
  deleteCacheEntry id _ := buckets_deleteCacheEntry id
  setState id _ _ := buckets_setState id
  accessed := buckets_accessed
  createNewBodyFile := buckets_createNewBodyFile
  removeBodyData := buckets_removeBodyData
  updateSizeInformation id n _ := buckets_updateSizeInformation id n
  bodyFileDeleteNeeded id _ := buckets_setBodyFileDeleteNeeded id true (.inl rfl)
  bodyFileDeleted id _ hzero := buckets_setBodyFileDeleteNeeded id false (.inr hzero)

theorem buckets_insertL (now : Clock) (u : Des8) : Stays (BucketStep X) (insertL now u) := by
  apply Stays.of_step
  intro s a s' hrun
  constructor
  · exact grows_of_run (grows_insertL now u) hrun
  · intro _ hs
    obtain ⟨-, hinserted⟩ := inserted_of_run hs.table hrun
    obtain ⟨e, he, hcore, -⟩ := hinserted.entry
    apply hs.of_added hinserted.toAdded he
    · intro i _
      rw [hinserted.buckets]
      exact SameFor.refl _ _
    · intro hnowhere
      rw [hinserted.buckets]
      exact .of_not_candidate (congrArg EntryCore.iEvictionCandidate hcore) hnowhere

theorem admitsMerge_buckets (map : Option (Des16 → Option Des8)) :
    AdmitsMerge (BucketStep noEntry) map where
  insertL := buckets_insertL
  setState id := buckets_setState id (by decide) (by decide)
  accessedAt := buckets_accessedAt
  erase _ _ _ pos _ _ _ _ _ := buckets_erase pos _

end Functions

/-! ## The headers of an entry that is received again -/

/-- The exception for an entry ends when nothing is asked of it. -/
theorem Buckets.settle {id : EntryId} (h : Buckets P (fun i => i = id) s)
    (hid : ∀ e, s.heap id = some e → e.iState = .eCacheResponding →
      e.iEvictionCandidate = true → e.iBodyFileDeleteNeeded = true ∧ e.iBodySize ≠ 0) :
    Buckets P noEntry s := by
  refine ⟨h.table, fun i e he => ?_, h.gone⟩
  have hl := h.entry i e he
  refine ⟨hl.linked, hl.unlinked, hl.ref, fun _ hstate hcand => ?_, hl.new⟩
  cases hi : decide (i = id) with
  | true =>
      rw [decide_eq_true_eq] at hi
      subst hi
      exact hid e he hstate hcand
  | false =>
      rw [decide_eq_false_iff_not] at hi
      exact hl.receiving hi hstate hcand

theorem survives_bodySize_of_quiet {α : Type} {m : CacheM α} (h : Stays Quiet m) :
    Stays (Survives CHttpCacheEntry.iBodySize) m :=
  h.mono fun _ _ hq => (Survives.of_map hq.core).comp EntryCore.iBodySize

theorem survives_bodySize_setState (id : EntryId) (st : TCacheEntryState) :
    Stays (Survives CHttpCacheEntry.iBodySize) (setState id st) :=
  (sizeFrame_setState id st).mono fun _ _ hf => (Survives.of_map hf.sizes).comp fun c => c.2.1

theorem survives_bodySize_removeHeaders (id : EntryId) :
    Stays (Survives CHttpCacheEntry.iBodySize) (removeHeaders id) := by
  refine Stays.bind (stays_getEntry id) fun e => ?_
  exact Stays.bind (stays_heap_modify fun _ => rfl) fun _ => survives_modifyEntry fun _ => rfl

section Headers

variable [Platform] {id : EntryId}

theorem survives_bodySize_saveHeaderBuffer (now : Clock) (io : Io) (id : EntryId)
    (header : Des8) :
    Stays (Survives CHttpCacheEntry.iBodySize) (saveBuffer now io id header false) := by
  apply Stays.bind
  · exact (evictStep_cacheNeedsSpaceL now header.length).mono fun _ _ h =>
      h.survives.comp EntryCore.iBodySize
  · intro ok
    refine Stays.ite (fun _ => Stays.ite (fun h => absurd h (by decide)) fun _ => ?_) fun _ =>
      Stays.pure _
    refine Stays.bind Stays.get fun s => Stays.ite (fun _ => ?_) fun _ => Stays.pure _
    refine Stays.bind (survives_modifyEntry fun _ => rfl) fun _ => ?_
    refine Stays.bind (stays_getEntry id) fun e => ?_
    exact Stays.bind (stays_heap_modify fun _ => rfl) fun _ => Stays.pure _

theorem survives_bodySize_handleResponseOkL (env : Env) (id : EntryId) (resp : Response) :
    Stays (Survives CHttpCacheEntry.iBodySize) (handleResponseOkL env id resp) := by
  refine Stays.bind (survives_bodySize_of_quiet (quiet_headerData id)) fun cached => ?_
  refine Stays.ite (fun _ => ?_) fun _ => ?_
  · refine Stays.bind (stays_getEntry id) fun e => ?_
    refine Stays.bind (Stays.whenM fun _ => survives_bodySize_removeHeaders id) fun _ => ?_
    refine Stays.bind (survives_bodySize_saveHeaderBuffer _ _ id _) fun saveOk => ?_
    refine Stays.bind (stays_getEntry id) fun e => ?_
    refine Stays.bind (Stays.whenM fun _ => ?_) fun _ => Stays.pure _
    exact survives_modifyEntry fun _ => rfl
  · exact Stays.bind (survives_bodySize_setState id _) fun _ => Stays.pure _

theorem survives_bodySize_handleResponseNotModifiedL (env : Env) (id : EntryId)
    (resp : Response) :
    Stays (Survives CHttpCacheEntry.iBodySize) (handleResponseNotModifiedL env id resp) := by
  refine Stays.bind (survives_bodySize_of_quiet (quiet_headerData id)) fun cached => ?_
  refine Stays.bind (survives_bodySize_removeHeaders id) fun _ => ?_
  refine Stays.bind (survives_bodySize_saveHeaderBuffer _ _ id _) fun saved => ?_
  refine Stays.bind (Stays.ite (fun _ => Stays.pure _) fun _ =>
    survives_bodySize_saveHeaderBuffer _ _ id _) fun saveOk => ?_
  exact Stays.bind (Stays.whenM fun _ => survives_bodySize_setState id _) fun _ => Stays.pure _

/-- What the two functions that handle a response do for an entry with a body: if they succeed,
the entry is no exception any more. -/
def Settles (id : EntryId) (ok : Bool) (s s' : CacheState) : Prop :=
  s.history <:+ s'.history ∧ ((∀ c ∈ s'.history, c.keepsBuckets) →
    Buckets noEntry (fun i => i = id) s → Buckets noEntry (fun i => ok = false ∧ i = id) s')

omit [Platform] in
theorem Settles.of_step {ok : Bool} {s₁ : CacheState}
    (h : BucketStep (fun i => i = id) s s₁) (hlast : Settles id ok s₁ s') :
    Settles id ok s s' := by
  refine ⟨h.1.trans hlast.1, ?_⟩
  intro hcalls hs
  apply hlast.2 hcalls
  apply h.2 _ hs
  intro c hc
  exact hcalls c (hlast.1.subset hc)

omit [Platform] in
theorem settles_setState {a : Unit} (hrun : setState id .eCacheComplete s = some (a, s')) :
    Settles id true s s' := by
  constructor
  · exact grows_of_run (grows_of_sizeFrame (sizeFrame_setState id _)) hrun
  · intro _ hs
    apply hs.setState _ (fun h => h) (by decide) (by decide) hrun
    intro i hi
    exact iff_of_false (fun h => absurd h.1 (by decide)) hi

/-- Either the old body has to be removed first, or the entry is complete again. -/
theorem settles_handleResponseOkL {env : Env} {resp : Response} {ok : Bool}
    (hsize : ∀ e, s.heap id = some e → e.iBodySize ≠ 0)
    (hrun : handleResponseOkL env id resp s = some (ok, s')) : Settles id ok s s' := by
  have hA := admitsHeaders_buckets (fun i => i = id)
  obtain ⟨cached, s₁, hcached, hrun⟩ := bind_eq_some.1 hrun
  apply Settles.of_step (bucketStep_of (buckets_of_quiet (quiet_headerData id) s) hcached)
  have hsurvives₁ := survives_of (survives_bodySize_of_quiet (quiet_headerData id)) hcached
  split at hrun
  · obtain ⟨e₁, he₁, hrun⟩ := getEntry_bind.1 hrun
    obtain ⟨hremoveStep, hzero⟩ := hA.removeCounted he₁
    obtain ⟨_, s₂, hremove, hrun⟩ := bind_eq_some.1 hrun
    obtain ⟨saveOk, s₃, hsave, hrun⟩ := bind_eq_some.1 hrun
    apply Settles.of_step (bucketStep_of hremoveStep hremove)
    apply Settles.of_step (bucketStep_of (hA.saveHeaderBuffer (hzero _ s₂ hremove)) hsave)
    obtain ⟨e₃, he₃, hrun⟩ := getEntry_bind.1 hrun
    obtain ⟨_, s₄, hflag, hrun⟩ := bind_eq_some.1 hrun
    rw [pure_eq_some, Prod.mk.injEq] at hrun
    obtain ⟨-, rfl⟩ := hrun
    -- the body is still there, so the flag is set
    have hbody : e₃.iBodySize ≠ 0 := by
      have hsurvives := (hsurvives₁.trans (survives_of
        (Stays.whenM fun _ => survives_bodySize_removeHeaders id) hremove)).trans
          (survives_of (survives_bodySize_saveHeaderBuffer _ _ id _) hsave)
      exact hsurvives.forall_entry (p := fun n => n ≠ 0) hsize e₃ he₃
    rw [whenM_of hbody] at hflag
    obtain rfl := modifyEntry_at hflag he₃
    refine ⟨List.suffix_refl _, fun _ hs => ?_⟩
    have hl := hs.entry id e₃ he₃
    refine hs.of_setEntry_same he₃ rfl (fun _ _ => Iff.rfl) (fun i hi => ?_)
      ⟨hl.linked, hl.unlinked, hl.ref, fun _ _ _ => ⟨rfl, hbody⟩, hl.new⟩
    exact iff_of_false (fun h => hi h.2) hi
  · obtain ⟨_, s₂, hset, hrun⟩ := bind_eq_some.1 hrun
    rw [pure_eq_some, Prod.mk.injEq] at hrun
    obtain ⟨rfl, rfl⟩ := hrun
    exact settles_setState hset

theorem settles_handleResponseNotModifiedL {env : Env} {resp : Response} {ok : Bool}
    (hrun : handleResponseNotModifiedL env id resp s = some (ok, s')) : Settles id ok s s' := by
  have hA := admitsHeaders_buckets (fun i => i = id)
  obtain ⟨cached, s₁, hcached, hrun⟩ := bind_eq_some.1 hrun
  obtain ⟨_, s₂, hremove, hrun⟩ := bind_eq_some.1 hrun
  obtain ⟨saved, s₃, hsave, hrun⟩ := bind_eq_some.1 hrun
  obtain ⟨saveOk, s₄, hold, hrun⟩ := bind_eq_some.1 hrun
  have hzero := headerZero_removeHeaders hremove
  apply Settles.of_step (bucketStep_of (buckets_of_quiet (quiet_headerData id) s) hcached)
  apply Settles.of_step (bucketStep_of (hA.removeHeaders id s₁) hremove)
  apply Settles.of_step
    (bucketStep_of (hA.saveOneOf hzero) (bind_eq_some.2 ⟨saved, s₃, hsave, hold⟩))
  obtain ⟨_, s₅, hset, hrun⟩ := bind_eq_some.1 hrun
  rw [pure_eq_some, Prod.mk.injEq] at hrun
  obtain ⟨rfl, rfl⟩ := hrun
  rcases whenM_run.1 hset with ⟨rfl, hset⟩ | ⟨hfailed, rfl⟩
  · exact settles_setState hset
  · rw [Bool.not_eq_true] at hfailed
    subst hfailed
    refine ⟨List.suffix_refl _, fun _ hs => ?_⟩
    simpa using hs

/-- An entry whose headers could not be saved is erased. If another one is erased instead, the
history tells. -/
theorem Buckets.afterDelete {a : Unit} (h : Buckets noEntry (fun i => i = id) s)
    (hsize : ∀ e, s.heap id = some e → e.iBodySize ≠ 0)
    (hrun : deleteCacheEntry id s = some (a, s')) (hcalls : ∀ c ∈ s'.history, c.keepsBuckets) :
    Buckets noEntry noEntry s' := by
  have hafter := (bucketStep_of (buckets_deleteCacheEntry id s) hrun).2 hcalls h
  obtain ⟨e, s₁, hq, he, hcase⟩ := deleteCacheEntry_spec hrun
  obtain ⟨e₀, he₀, hcore₀⟩ := hq.symm.entry he
  have hbody : e.iBodySize ≠ 0 := by
    rw [← show e₀.iBodySize = e.iBodySize from congrArg EntryCore.iBodySize hcore₀]
    exact hsize e₀ he₀
  apply hafter.settle
  intro e' he' hstate hcand
  rcases hcase with ⟨-, rfl⟩ | ⟨pos, j, e₁, -, herased⟩
  · have hcall : (e.deleteCall id none).keepsBuckets := hcalls _ List.mem_cons_self
    obtain rfl : e' = e := Option.some.inj (he'.symm.trans he)
    refine ⟨?_, hbody⟩
    cases hneeded : e'.iBodyFileDeleteNeeded with
    | true => rfl
    | false => cases hcall hstate hcand hneeded
  · have hcall : (e.deleteCall id (some j)).keepsBuckets := by
      apply hcalls
      rw [herased.history]
      exact List.mem_cons_self
    have hne : id ≠ j := by
      rintro rfl
      rw [herased.gone] at he'
      cases he'
    obtain ⟨e₂, he₂, hcore⟩ := exists_of_map_eq (herased.others id hne).symm he'
    obtain rfl : e₂ = e := Option.some.inj (he₂.symm.trans he)
    have hstate₂ : e₂.iState = e'.iState := congrArg EntryCore.iState hcore
    have hcand₂ : e₂.iEvictionCandidate = e'.iEvictionCandidate :=
      congrArg EntryCore.iEvictionCandidate hcore
    have hneeded₂ : e₂.iBodyFileDeleteNeeded = e'.iBodyFileDeleteNeeded :=
      congrArg EntryCore.iBodyFileDeleteNeeded hcore
    have hsize₂ : e₂.iBodySize = e'.iBodySize := congrArg EntryCore.iBodySize hcore
    rw [← hneeded₂, ← hsize₂]
    refine ⟨?_, hbody⟩
    cases hneeded : e₂.iBodyFileDeleteNeeded with
    | true => rfl
    | false =>
        have heq := hcall (hstate₂.trans hstate) (hcand₂.trans hcand) hneeded
        exact absurd (Option.some.inj heq).symm hne

/-- The headers of a complete entry that is received again. -/
theorem buckets_saveFoundHeaders {env : Env} {t : TransId} {resp : Response} {e : CHttpCacheEntry}
    (he : s.heap id = some e) (hbody : e.iBodySize ≠ 0) :
    StaysFrom (BucketStep noEntry) s (saveResponseHeaders env t resp id) := by
  apply StaysFrom.of_step
  intro a s' hrun
  obtain ⟨_, s₁, hset, hrun⟩ := bind_eq_some.1 hrun
  obtain ⟨ok, s₂, hhandle, hrun⟩ := bind_eq_some.1 hrun
  have hgrows₁ := grows_of_run (grows_of_sizeFrame (sizeFrame_setState id _)) hset
  have hsize₁ : ∀ e₁, s₁.heap id = some e₁ → e₁.iBodySize ≠ 0 := by
    apply (survives_of (survives_bodySize_setState id _) hset).forall_entry (p := fun n => n ≠ 0)
    intro e' he'
    obtain rfl : e' = e := Option.some.inj (he'.symm.trans he)
    exact hbody
  -- the response is handled, and if that fails nothing has happened to the body
  have hsettles : Settles id ok s₁ s₂ ∧ Survives CHttpCacheEntry.iBodySize s₁ s₂ := by
    split at hhandle
    · exact ⟨settles_handleResponseOkL hsize₁ hhandle,
        survives_of (survives_bodySize_handleResponseOkL env id resp) hhandle⟩
    · split at hhandle
      · exact ⟨settles_handleResponseNotModifiedL hhandle,
          survives_of (survives_bodySize_handleResponseNotModifiedL env id resp) hhandle⟩
      · rw [pure_eq_some, Prod.mk.injEq] at hhandle
        obtain ⟨rfl, rfl⟩ := hhandle
        exact ⟨⟨List.suffix_refl _, fun _ hs => by simpa using hs⟩, Survives.of_map fun _ => rfl⟩
  obtain ⟨⟨hgrows₂, hsettles⟩, hsurvives⟩ := hsettles
  have hstart : Buckets noEntry noEntry s → Buckets noEntry (fun i => i = id) s₁ := by
    intro hs
    refine hs.responding (fun i hi => ?_) (.inl rfl) hset
    exact iff_of_false hi fun h => h
  cases ok with
  | true =>
      rw [if_pos rfl] at hrun
      have hq := quiet_of (quiet_setCacheEntry t (some id)) hrun
      constructor
      · exact (hgrows₁.trans hgrows₂).trans hq.sizeFrame.history
      · intro hcalls hs
        have hcalls₂ : ∀ c ∈ s₂.history, c.keepsBuckets := fun c hc =>
          hcalls c (hq.sizeFrame.history.subset hc)
        have h₂ : Buckets noEntry (fun _ => False) s' := by
          simpa using (hsettles hcalls₂ (hstart hs)).of_linkFrame hq.linkFrame
        exact h₂
  | false =>
      rw [if_neg (by decide)] at hrun
      have hdelete := (bucketStep_of (buckets_deleteCacheEntry (X := noEntry) id s₂) hrun).1
      constructor
      · exact (hgrows₁.trans hgrows₂).trans hdelete
      · intro hcalls hs
        have hcalls₂ : ∀ c ∈ s₂.history, c.keepsBuckets := fun c hc =>
          hcalls c (hdelete.subset hc)
        have h₂ : Buckets noEntry (fun i => i = id) s₂ := by
          simpa using hsettles hcalls₂ (hstart hs)
        exact h₂.afterDelete (hsurvives.forall_entry (p := fun n => n ≠ 0) hsize₁) hrun hcalls

/-- The headers of a new entry, which is in no bucket. -/
theorem buckets_saveInsertedHeaders {env : Env} {t : TransId} {resp : Response}
    {e : CHttpCacheEntry} (he : s.heap id = some e) (hcand : e.iEvictionCandidate = false) :
    StaysFrom (BucketStep noEntry) s (do
      whenM (resp.protectedEntry = true) (setProtected id)
      saveResponseHeaders env t resp id) := by
  have hprotect : StaysFrom (BucketStep noEntry) s
      (whenM (resp.protectedEntry = true) (setProtected id)) := by
    refine StaysFrom.whenM fun _ => StaysFrom.of_step fun a s' hrun => ?_
    obtain rfl := modifyEntry_at hrun he
    refine ⟨List.suffix_refl _, fun _ hs => ?_⟩
    refine hs.of_setEntry_same he rfl (fun _ _ => Iff.rfl) (fun _ _ => Iff.rfl) ?_
    exact .of_not_candidate hcand ((hs.entry id e he).unlinked (.inl hcand))
  refine hprotect.bind fun _ s₁ hrun => ?_
  have hcand₁ : ∀ e₁, s₁.heap id = some e₁ → e₁.iEvictionCandidate = false := by
    intro e₁ he₁
    rcases whenM_run.1 hrun with ⟨-, hrun⟩ | ⟨-, rfl⟩
    · obtain rfl := modifyEntry_at hrun he
      rw [heap_setEntry_self, Option.some.injEq] at he₁
      rw [← he₁]
      exact hcand
    · obtain rfl : e₁ = e := Option.some.inj (he₁.symm.trans he)
      exact hcand
  apply admits_buckets.saveResponseHeaders env t resp trivial
  apply StaysFrom.of_step
  intro a s' hset
  constructor
  · exact grows_of_run (grows_of_sizeFrame (sizeFrame_setState id _)) hset
  · intro _ hs
    exact hs.responding (fun _ _ => Iff.rfl) (.inr hcand₁) hset

end Headers

/-! ## The runs of a cache -/

section Runs

variable [Platform]

theorem buckets_op (op : Op) : Stays (BucketStep noEntry) op.run := by
  apply Admits.op admits_buckets admitsMerge_buckets
  · intro s total
    refine (buckets_note _ s).bind fun _ s₁ _ => StaysFrom.of_step fun a s' hrun => ?_
    obtain rfl := modify_run.1 hrun
    exact bucketStep_of_linkFrame
      ⟨⟨rfl, rfl, rfl, List.suffix_refl _, fun _ => rfl⟩, rfl, fun _ => rfl⟩
  · intro env t resp id e s hfind he hstate
    -- `Find` hides complete entries without a body
    obtain ⟨pos, e', -, he', hvisible⟩ := find_eq_some.1 hfind
    obtain rfl : e' = e := Option.some.inj (he'.symm.trans he)
    exact buckets_saveFoundHeaders he fun hzero => hvisible ⟨hzero, hstate⟩
  · intro env t resp id dir s he
    exact buckets_saveInsertedHeaders he rfl

omit [Platform] in
theorem buckets_initial (c : Construct) : Buckets noEntry noEntry c.initial := by
  refine ⟨tableInv_initial c, ?_, ?_⟩
  · intro i e he
    cases he
  · intro i _ k
    exact List.not_mem_nil

theorem buckets_starts {c : Construct} {s : CacheState} (h : c.Starts s) :
    Buckets noEntry noEntry s := by
  obtain ⟨s₁, a, hload, rfl⟩ := h.run
  have hloaded := loadEntries_invariant (I := fun s _ => Buckets noEntry noEntry s)
    (fun s s' e entries _ he hl hs => by
      apply hs.of_added hl.toAdded hl.entry
      · intro i hi
        rw [hl.buckets]
        exact sameFor_append hi
      · intro hnowhere
        rw [hl.buckets]
        refine ⟨fun _ _ => inOnly_append hnowhere, ?_, fun _ => he.ref, ?_, ?_⟩
        · rintro (hcand | hpending)
          · cases hcand
          · cases hpending
        · intro _ hstate
          cases hstate
        · intro hstate
          cases hstate)
    readEntry_of_construct (tableInv_initial c) (buckets_initial c) hload
  exact hloaded.2.of_linkFrame ⟨⟨rfl, rfl, rfl, List.suffix_refl _, fun _ => rfl⟩, rfl,
    fun _ => rfl⟩

/-- An entry is in some bucket. -/
def CacheState.linked (s : CacheState) (id : EntryId) : Prop := ∃ k, id ∈ s.iBuckets k

/-- In every run of a cache whose calls keep the buckets, the live entries with the eviction
candidate flag are each in the bucket of their size and count and in no other one, and no other
pointer is in any bucket. -/
theorem linked_iff_evictionCandidate {c : Construct} {s : CacheState}
    (h : Reaches Op.run c.Starts (fun _ _ => True) s)
    (hcalls : ∀ call ∈ s.history, call.keepsBuckets) :
    (∀ id e, s.heap id = some e → (s.linked id ↔ e.iEvictionCandidate = true) ∧
      (s.linked id → InOnly s.iBuckets id e.bucket)) ∧
    ∀ id, s.heap id = none → ¬ s.linked id := by
  have hinv : (∀ call ∈ s.history, call.keepsBuckets) → Buckets noEntry noEntry s := by
    apply h.invariant
    · intro s hs _
      exact buckets_starts hs
    · intro op s _ hs a s' hrun hcalls
      obtain ⟨hgrows, hstep⟩ := bucketStep_of (buckets_op op s) hrun
      exact hstep hcalls (hs fun c hc => hcalls c (hgrows.subset hc))
  have hb := hinv hcalls
  constructor
  · intro id e he
    have hl := hb.entry id e he
    have hiff : s.linked id ↔ e.iEvictionCandidate = true := by
      constructor
      · rintro ⟨k, hmem⟩
        cases hcand : e.iEvictionCandidate with
        | true => rfl
        | false => exact absurd hmem (hl.unlinked (.inl hcand) k)
      · intro hcand
        exact ⟨e.bucket, (hl.linked hcand fun h => h).mem⟩
    exact ⟨hiff, fun hlinked => hl.linked (hiff.1 hlinked) fun h => h⟩
  · rintro id hnone ⟨k, hmem⟩
    exact hb.gone id hnone k hmem

end Runs

/-! ## A merge that misses the bucket -/

section Missed

open Reference

/-- A response of one byte that is saved leaves its entry in the second bucket. -/
theorem linked_of_response : ∃ s, Reaches Op.run emptyCache.Starts (fun _ _ => True) s ∧
    InOnly s.iBuckets 0 1 := by
  have heval : (stateAfter emptyCache (responseOps [1] [2, 3] [7])).map (fun s =>
      (decide (∀ call ∈ s.history, call.keepsBuckets), (s.heap 0).map fun e =>
        (e.iEvictionCandidate, e.bucket))) = some (true, some (true, 1)) := by
    decide +kernel
  obtain ⟨s, hs, heq⟩ := exists_run_of_eval heval
  rw [Prod.mk.injEq, decide_eq_true_eq] at heq
  obtain ⟨e, he, hcore⟩ := Option.map_eq_some_iff.1 heq.2
  rw [Prod.mk.injEq] at hcore
  obtain ⟨hiff, hin⟩ := (linked_iff_evictionCandidate hs heq.1).1 0 e he
  rw [← hcore.2]
  exact ⟨s, hs, hin (hiff.2 hcore.1)⟩

/-- A body of 16 bytes that another process has accessed seven times more belongs to the first
bucket after the merge, but the entry stays in the third one. -/
theorem not_linked_iff_evictionCandidate : ¬ ∀ (c : Construct) (s : CacheState),
    Reaches Op.run c.Starts (fun _ _ => True) s →
      (∀ id e, s.heap id = some e → (s.linked id ↔ e.iEvictionCandidate = true) ∧
        (s.linked id → InOnly s.iBuckets id e.bucket)) ∧
      ∀ id, s.heap id = none → ¬ s.linked id := by
  intro h
  have heval : (stateAfter (construct (fun _ => none) (indexOf [stored [1] 5 1 16 [2]]))
      [.fileSystem (fun _ => none) (indexOf [stored [1] 6 8 16 [2]]),
        .updateLookupTable Reference.env]).map (fun s =>
      (s.iBuckets 2, (s.heap 0).map fun e => e.bucket)) = some ([0], some 0) := by
    decide +kernel
  obtain ⟨s, hs, heq⟩ := exists_run_of_eval heval
  rw [Prod.mk.injEq] at heq
  obtain ⟨e, he, hbucket⟩ := Option.map_eq_some_iff.1 heq.2
  have hmem : 0 ∈ s.iBuckets 2 := by
    rw [heq.1]
    exact List.mem_cons_self
  have hin := ((h _ s hs).1 0 e he).2 ⟨2, hmem⟩
  rw [hbucket] at hin
  exact hin.2 2 (by decide) hmem

end Missed

end SymbianWeb.HttpCache
