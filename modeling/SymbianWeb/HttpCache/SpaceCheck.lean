import SymbianWeb.HttpCache.BucketRuns
import SymbianWeb.HttpCache.EvictionRoom
import SymbianWeb.HttpCache.UniqueUrls

/-!
# The space check before a save

`CacheNeedsSpaceL` compares twice: without an eviction the cache may be filled to its size, behind
an eviction it may not. What it deletes are the entries that `EvictL` has taken, and these are
complete; the entry that is being saved is complete in one of the calls of `SaveBuffer` only, that
of `AddHeaderL` (`SaveCall.active`).
-/

set_option autoImplicit false

namespace SymbianWeb.HttpCache

open FaultState BucketQueues CHttpCacheLookupTable

/-! ## The size of the cache -/

/-- The cache keeps its size. -/
def SameLimit (s s' : CacheState) : Prop := s'.iSize = s.iSize

section Limit

theorem limit_of {α : Type} {m : CacheM α} (h : Stays SameLimit m) {s s' : CacheState} {a : α}
    (hm : m s = some (a, s')) : s'.iSize = s.iSize :=
  related_of_chain (R := SameLimit) (fun _ => rfl) (fun _ _ _ h h' => Eq.trans h' h) (h s a s' hm)

theorem limit_modifyEntry (id : EntryId) (f : CHttpCacheEntry → CHttpCacheEntry) :
    Stays SameLimit (modifyEntry id f) :=
  stays_modifyEntry fun _ _ _ => rfl

theorem limit_modify {f : CacheState → CacheState} (h : ∀ s, (f s).iSize = s.iSize) :
    Stays SameLimit (modify f : CacheM PUnit) :=
  stays_modify h

theorem limit_removeEntry (id : EntryId) : Stays SameLimit (removeEntry id) := by
  refine Stays.bind Stays.get fun s => ?_
  cases s.iPostponeHandler with
  | none => exact Stays.pure _
  | some h =>
      refine Stays.ite (fun _ => limit_modify fun _ => rfl) fun _ => ?_
      refine Stays.ite (fun _ => ?_) fun _ => Stays.pure _
      exact Stays.bind (limit_modify fun _ => rfl) fun _ => limit_modifyEntry _ _

theorem limit_closeBodyFile (id : EntryId) : Stays SameLimit (closeBodyFile id) := by
  refine Stays.bind (stays_getEntry id) fun e => Stays.whenM fun _ => ?_
  exact Stays.bind (limit_modify fun _ => rfl) fun _ => limit_modifyEntry _ _

theorem limit_cancelBodyWrite (id : EntryId) : Stays SameLimit (cancelBodyWrite id) := by
  refine Stays.bind (stays_getEntry id) fun e => ?_
  cases e.iWriteHelper with
  | none => exact Stays.pure _
  | some helper =>
      refine Stays.whenM fun _ => Stays.whenM fun _ => ?_
      refine Stays.bind (limit_modify fun _ => rfl) fun _ => ?_
      refine Stays.bind (limit_closeBodyFile id) fun _ => ?_
      exact Stays.bind (limit_modifyEntry _ _) fun _ => limit_modifyEntry _ _

theorem limit_deleteEntry (id : EntryId) : Stays SameLimit (deleteEntry id) := by
  refine Stays.bind (stays_getEntry id) fun e => Stays.bind (Stays.whenM fun _ => ?_) fun _ => ?_
  · refine Stays.bind (stays_getEntry id) fun e => Stays.bind Stays.guardM fun _ => ?_
    exact Stays.bind Stays.get fun s => Stays.whenM fun _ => limit_modify fun _ => rfl
  · refine Stays.bind (Stays.whenM fun _ => limit_removeEntry id) fun _ => ?_
    refine Stays.bind (limit_closeBodyFile id) fun _ => Stays.bind Stays.guardM fun _ => ?_
    exact limit_modify fun _ => rfl

theorem limit_erase (pos : Nat) : Stays SameLimit (erase pos) := by
  refine Stays.bind Stays.get fun s => ?_
  cases s.iLookupTable.entryAt pos with
  | none => exact Stays.pure _
  | some id =>
      refine Stays.bind ?_ fun _ => Stays.bind (limit_modify fun _ => rfl) fun _ =>
        limit_deleteEntry id
      refine Stays.bind (limit_cancelBodyWrite id) fun _ => Stays.bind (stays_getEntry id) fun e => ?_
      refine Stays.bind (limit_modify fun _ => rfl) fun _ => ?_
      exact Stays.bind (limit_modify fun _ => rfl) fun _ => limit_modify fun _ => rfl

theorem limit_destroyEvicted [Platform] (id : EntryId) : Stays SameLimit (destroyEvicted id) := by
  refine Stays.bind (limit_removeEntry id) fun _ => Stays.bind (limit_modifyEntry _ _) fun _ => ?_
  refine Stays.bind (stays_getEntry id) fun e => Stays.bind ?_ fun _ => Stays.pure _
  exact stays_remove (fun _ _ _ => limit_erase _ _) _

end Limit

/-! ## Destroying what was evicted -/

section Check

variable [Platform] {X : EntryId → Prop} {s s' : CacheState}

omit [Platform] in
/-- The buckets of a cache that is in order. -/
theorem Buckets.bucketsLive (h : Buckets noEntry X s) : BucketsLive s := by
  have hmem : ∀ i, ∀ id ∈ s.iBuckets i, ∃ e, s.heap id = some e ∧ e.iRef ≠ 0 ∧
      InOnly s.iBuckets id e.bucket := by
    intro i id hid
    cases he : s.heap id with
    | none => exact absurd hid (h.gone id he i)
    | some e =>
        have hl := h.entry id e he
        have hcand : e.iEvictionCandidate = true := by
          apply Bool.eq_true_of_not_eq_false
          intro hfalse
          exact hl.unlinked (.inl hfalse) i hid
        exact ⟨e, rfl, hl.ref hcand, hl.linked hcand fun hnone => hnone⟩
  refine ⟨?_, ?_, ?_⟩
  · intro i id hid
    obtain ⟨e, he, href, -⟩ := hmem i id hid
    exact ⟨e, he, href⟩
  · intro i
    rw [List.nodup_iff_count_le_one]
    intro id
    by_cases hid : id ∈ s.iBuckets i
    · obtain ⟨e, -, -, hin⟩ := hmem i id hid
      rw [hin.eq_of_mem hid, hin.1]
    · rw [List.count_eq_zero.2 hid]
      exact Nat.zero_le 1
  · intro i j id hi hj
    obtain ⟨e, -, -, hin⟩ := hmem i id hi
    rw [hin.eq_of_mem hi, hin.eq_of_mem hj]

/-- An entry is destroyed, and the other ones keep what counts. -/
structure Destroyed (id : EntryId) (e : CHttpCacheEntry) (s s' : CacheState) : Prop where
  table : TableInv s'
  unique : UniqueUrls s'
  content : s'.iContentSize = s.iContentSize - e.size
  gone : s'.heap id = none
  others : ∀ i, i ≠ id →
    (s'.heap i).map CHttpCacheEntry.idleCore = (s.heap i).map CHttpCacheEntry.idleCore

theorem destroyEvicted_spec {id : EntryId} {e : CHttpCacheEntry} {a : Unit} (ht : TableInv s)
    (hunique : UniqueUrls s) (he : s.heap id = some e) (hcomplete : e.iState = .eCacheComplete)
    (hrun : destroyEvicted id s = some (a, s')) : Destroyed id e s s' := by
  obtain ⟨_, s₁, hqueue, hrun⟩ := bind_eq_some.1 hrun
  have hq := quiet_of (quiet_removeEntry id) hqueue
  obtain ⟨e₁, he₁, hcore₁⟩ := exists_of_map_eq (hq.core id) he
  obtain ⟨e₁', he₁', hrun⟩ := modifyEntry_bind.1 hrun
  obtain rfl : e₁' = e₁ := Option.some.inj (he₁'.symm.trans he₁)
  obtain ⟨e₂, he₂, hrun⟩ := getEntry_bind.1 hrun
  rw [heap_setEntry_self, Option.some.injEq] at he₂
  subst he₂
  obtain ⟨r, s₃, hremove, hrun⟩ := bind_eq_some.1 hrun
  rw [pure_eq_some, Prod.mk.injEq] at hrun
  obtain ⟨-, rfl⟩ := hrun
  -- without its flag the entry is found under its URL and erased
  have hidle : Idle s (s₁.setEntry id (some { e₁' with iEvictionCandidate := false })) := by
    obtain ⟨htable, hnextId, hdirectory, hcontent, -, hhistory, hcore⟩ := hq
    refine ⟨htable, hnextId, hdirectory, hcontent, hhistory, fun i => ?_⟩
    have hmap := map_eq_of_map_eq
      (fun c : EntryCore => { c with iEvictionCandidate := false }) (hcore i)
    rw [heap_setEntry]
    split
    · next hi =>
        subst hi
        rw [he₁'] at hmap
        exact hmap
    · exact hmap
  have ht₂ := ht.of_frame hidle.sizeFrame.frame
  have hunique₂ := hunique.of_survives hidle.sizeFrame.frame.survives_url
  have hstate : e₁'.iState = .eCacheComplete := by
    rw [← hcomplete]
    exact congrArg EntryCore.iState hcore₁
  rcases remove_exact hunique₂ ht₂ (heap_setEntry_self ..) hremove with
    ⟨-, -, pos, herased⟩ | ⟨hactive, -⟩
  · refine ⟨ht₂.of_erased herased, hunique₂.of_survives herased.survives_url, ?_, herased.gone, ?_⟩
    · rw [herased.content, hidle.content]
      have hsize : e₁'.size = e.size := by
        rw [CHttpCacheEntry.size, CHttpCacheEntry.size]
        rw [show e₁'.iHeaderSize = e.iHeaderSize from congrArg EntryCore.iHeaderSize hcore₁,
          show e₁'.iBodySize = e.iBodySize from congrArg EntryCore.iBodySize hcore₁]
      rw [← hsize]
      rfl
    · intro i hi
      rw [← hidle.core i]
      exact map_eq_of_map_eq
        (fun c : EntryCore => { c with iEvictionCandidate := false }) (herased.others i hi)
  · exact absurd hstate hactive

/-- The entries of a list are destroyed. -/
theorem destroyAll_spec {evicted : List EntryId} :
    ∀ {s s' : CacheState} {a : Unit}, TableInv s → UniqueUrls s → evicted.Nodup →
      (∀ id ∈ evicted, ∃ e, s.heap id = some e ∧ e.iState = .eCacheComplete) →
      forEach evicted destroyEvicted s = some (a, s') →
      s'.iContentSize = s.iContentSize - s.sizeOf evicted ∧
        ∀ i, (s'.heap i).isSome = true ↔ (s.heap i).isSome = true ∧ i ∉ evicted := by
  induction evicted with
  | nil =>
      intro s s' a _ _ _ _ hrun
      rw [forEach_nil_eq_some, Prod.mk.injEq] at hrun
      obtain ⟨-, rfl⟩ := hrun
      exact ⟨by simp [CacheState.sizeOf], fun i => by simp⟩
  | cons id evicted ih =>
      intro s s' a ht hunique hnodup hcomplete hrun
      obtain ⟨s₁, hfirst, hrest⟩ := forEach_cons_eq_some.1 hrun
      rw [List.nodup_cons] at hnodup
      obtain ⟨e, he, hstate⟩ := hcomplete id List.mem_cons_self
      have hdestroyed := destroyEvicted_spec ht hunique he hstate hfirst
      have hother : ∀ i ∈ evicted, i ≠ id := by
        rintro i hmem rfl
        exact hnodup.1 hmem
      have hcomplete₁ : ∀ i ∈ evicted, ∃ e, s₁.heap i = some e ∧ e.iState = .eCacheComplete := by
        intro i hmem
        obtain ⟨e', he', hstate'⟩ := hcomplete i (List.mem_cons_of_mem _ hmem)
        obtain ⟨e₁, he₁, hcore⟩ := exists_of_map_eq (hdestroyed.others i (hother i hmem)) he'
        exact ⟨e₁, he₁, (congrArg EntryCore.iState hcore).trans hstate'⟩
      obtain ⟨hcontent, hheap⟩ := ih hdestroyed.table hdestroyed.unique hnodup.2 hcomplete₁ hrest
      have hsizes : s₁.sizeOf evicted = s.sizeOf evicted := by
        apply sizeOf_congr
        intro i hmem
        exact map_eq_of_map_eq (fun c : EntryCore => c.iHeaderSize.toNat + c.iBodySize)
          (hdestroyed.others i (hother i hmem))
      constructor
      · rw [hcontent, hdestroyed.content, hsizes, CacheState.sizeOf, he]
        push_cast
        omega
      · intro i
        rw [hheap, List.mem_cons, not_or]
        by_cases hi : i = id
        · subst hi
          simp [hdestroyed.gone]
        · have hsome : (s₁.heap i).isSome = (s.heap i).isSome := by
            rw [← Option.isSome_map, hdestroyed.others i hi, Option.isSome_map]
          rw [hsome, and_iff_right hi]

/-! ## The check -/

/-- The entries that `EvictL` takes for so many bytes. -/
def CacheState.evictedFor (s : CacheState) (now : Clock) (n : Nat) : List EntryId :=
  match evictL now n s with
  | some (evicted, _) => evicted
  | none => []

/-- The check says whether there is room, and has not deleted the entry that is saved. -/
structure SpaceChecked (n : Nat) (id : EntryId) (ok : Bool) (s' : CacheState) : Prop where
  exact : ok = true ↔ s'.iContentSize + n ≤ s'.iSize
  kept : (s'.heap id).isSome = true

/-- The check is right if there is room without an eviction. Otherwise the entry has to be none of
those that are evicted, and these must not leave the cache exactly full. -/
theorem spaceChecked_iff {now : Clock} {n : Nat} {id : EntryId} {ok : Bool}
    (hbuckets : Buckets noEntry X s) (hunique : UniqueUrls s) (hlive : (s.heap id).isSome = true)
    (hrun : cacheNeedsSpaceL now n s = some (ok, s')) :
    SpaceChecked n id ok s' ↔ s.iContentSize + n ≤ s.iSize ∨ (id ∉ s.evictedFor now n ∧
      (s.evictedFor now n = [] ∨
        s.iContentSize + n - s.sizeOf (s.evictedFor now n) ≠ s.iSize)) := by
  rw [cacheNeedsSpaceL, get_bind] at hrun
  split at hrun
  · next hfull =>
      obtain ⟨evicted, buckets, hevict, hroom⟩ := evictL_madeRoom now n s hbuckets.bucketsLive
      have hevicted : s.evictedFor now n = evicted := by
        rw [CacheState.evictedFor, hevict]
      rw [hevicted, or_iff_right (not_le.2 hfull)]
      rw [bind_of hevict] at hrun
      split at hrun
      · next hnil =>
          -- nothing is evicted, and the cache stays too full
          rw [pure_eq_some, Prod.mk.injEq] at hrun
          obtain ⟨rfl, rfl⟩ := hrun
          have hnot : ¬ (s.withBuckets buckets).iContentSize + n ≤ (s.withBuckets buckets).iSize :=
            not_le.2 hfull
          refine iff_of_true ⟨iff_of_false Bool.false_ne_true hnot, hlive⟩ ⟨?_, .inl hnil⟩
          rw [hnil]
          exact List.not_mem_nil
      · next hne =>
          obtain ⟨_, s₂, hdestroy, hrun⟩ := bind_eq_some.1 hrun
          rw [get_bind, pure_eq_some, Prod.mk.injEq] at hrun
          obtain ⟨rfl, rfl⟩ := hrun
          have hlimit : s'.iSize = (s.withBuckets buckets).iSize :=
            limit_of (Stays.forEach fun x _ => limit_destroyEvicted x) hdestroy
          have hsize : (s.withBuckets buckets).iSize = s.iSize := rfl
          have ht : TableInv (s.withBuckets buckets) :=
            hbuckets.table.of_frame ⟨rfl, rfl, rfl, List.suffix_refl _, fun _ => rfl⟩
          obtain ⟨hcontent, hheap⟩ := destroyAll_spec ht hunique hroom.nodup (fun x hmem => by
            obtain ⟨_, e, -, he, hevictable⟩ := hroom.picked x hmem
            exact ⟨e, he, hevictable.1⟩) hdestroy
          have hsizes : (s.withBuckets buckets).sizeOf evicted = s.sizeOf evicted :=
            sizeOf_congr fun _ _ => rfl
          have hcontent : s'.iContentSize = s.iContentSize - s.sizeOf evicted := by
            rw [hcontent, hsizes]
            rfl
          have hkept : (s'.heap id).isSome = true ↔ id ∉ evicted := by
            rw [hheap]
            exact and_iff_right hlive
          constructor
          · intro h
            refine ⟨hkept.1 h.kept, .inr ?_⟩
            have hexact := h.exact
            rw [decide_eq_true_eq, hcontent, hlimit, hsize] at hexact
            omega
          · rintro ⟨hnot, hnil | hdiff⟩
            · exact absurd hnil hne
            · refine ⟨?_, hkept.2 hnot⟩
              rw [decide_eq_true_eq, hcontent, hlimit, hsize]
              omega
  · next hroom =>
      rw [pure_eq_some, Prod.mk.injEq] at hrun
      obtain ⟨rfl, rfl⟩ := hrun
      exact iff_of_true ⟨iff_of_true rfl (not_lt.1 hroom), hlive⟩ (.inl (not_lt.1 hroom))

/-! ## The calls of `SaveBuffer` -/

/-- The functions that call `SaveBuffer`. -/
inductive SaveCaller where
  | handleResponseOkL
  | handleResponseNotModifiedL
  | receivedResponseBodyDataL
  | saveL
  | addHeaderL
  deriving DecidableEq

/-- `SaveBuffer` is called for an entry with a buffer, in this state. The functions that handle
responses are called for an entry that has just been set to be received. -/
inductive SaveCall : SaveCaller → EntryId → Des8 → CacheState → Prop where
  | handleResponseOkL {id : EntryId} {resp : Response} {s₀ s s₁ s₂ : CacheState} {a b : Unit}
      {cachedHeaderStr : Des8} {e : CHttpCacheEntry} :
      setState id .eCacheResponding s₀ = some (a, s) → headersL id s = some (cachedHeaderStr, s₁) →
      s₁.heap id = some e → whenM (e.iHeaderSize ≠ 0) (removeHeaders id) s₁ = some (b, s₂) →
      SaveCall .handleResponseOkL id resp.headers s₂
  | handleResponseNotModifiedL {id : EntryId} {resp : Response} {s₀ s s₁ s₂ : CacheState}
      {a b : Unit} {cachedHeaderStr : Des8} :
      setState id .eCacheResponding s₀ = some (a, s) → headersL id s = some (cachedHeaderStr, s₁) →
      removeHeaders id s₁ = some (b, s₂) →
      SaveCall .handleResponseNotModifiedL id (resp.mergeHeaders cachedHeaderStr) s₂
  | receivedResponseBodyDataL {id : EntryId} {t : TransId} {bodyStr : Des8} {s s₁ : CacheState}
      {b : Unit} {e : CHttpCacheEntry} :
      s.iCacheEntry t = some id → s.heap id = some e → e.iState = .eCacheResponding →
      whenM (e.iBodyFileDeleteNeeded = true) (do
        removeBodyData id
        setBodyFileDeleteNeeded id false) s = some (b, s₁) →
      SaveCall .receivedResponseBodyDataL id bodyStr s₁
  | saveL {now : Clock} {id : EntryId} {aUrl aHeader : Des8} {s s₁ : CacheState} :
      insertL now aUrl s = some (some id, s₁) → SaveCall .saveL id aHeader s₁
  | saveContent {now : Clock} {io : Io} {id : EntryId} {aHeader aContent : Des8}
      {s s₁ : CacheState} :
      SaveCall .saveL id aHeader s → saveBuffer now io id aHeader false s = some (true, s₁) →
      SaveCall .saveL id aContent s₁
  | addHeaderL {id : EntryId} {aUrl headersStr : Des8} {alter : Des8 → Des8}
      {s s₁ s₂ : CacheState} {b : Unit} :
      s.find aUrl = some id → headersL id s = some (headersStr, s₁) →
      removeHeaders id s₁ = some (b, s₂) → SaveCall .addHeaderL id (alter headersStr) s₂
  /-- The old headers are saved again when the new ones could not be. -/
  | again {c : SaveCaller} {now : Clock} {io : Io} {id : EntryId} {header header' : Des8}
      {s s₁ : CacheState} :
      c = .handleResponseNotModifiedL ∨ c = .addHeaderL → SaveCall c id header s →
      saveBuffer now io id header false s = some (false, s₁) → SaveCall c id header' s₁

/-- The entry, if it exists, is not complete. -/
def Active (id : EntryId) (s : CacheState) : Prop :=
  ∀ e, s.heap id = some e → e.iState ≠ .eCacheComplete

section Calls

variable {id : EntryId}

omit [Platform] in
theorem Active.survives (h : Active id s) (hs : Survives CHttpCacheEntry.phase s s') :
    Active id s' :=
  hs.forall_entry (p := fun c => c.1 ≠ .eCacheComplete) h

omit [Platform] in
theorem active_of_setState {st : TCacheEntryState} {a : Unit} (hst : st ≠ .eCacheComplete)
    (hrun : setState id st s = some (a, s')) : Active id s' := by
  obtain ⟨e, he, -⟩ := getEntry_bind.1 hrun
  obtain rfl := setState_other_run he (fun hc => hst hc.1) hrun
  intro e' he'
  rw [heap_setEntry_self, Option.some.injEq] at he'
  rw [← he']
  exact hst

omit [Platform] in
theorem phase_removeHeaders (id : EntryId) :
    Stays (Survives CHttpCacheEntry.phase) (removeHeaders id) := by
  refine Stays.bind (stays_getEntry id) fun e => ?_
  exact Stays.bind (stays_heap_modify fun _ => rfl) fun _ => survives_modifyEntry fun _ => rfl

theorem phase_saveHeaderBuffer {now : Clock} {io : Io} {header : Des8} {ok : Bool}
    (hrun : saveBuffer now io id header false s = some (ok, s')) :
    Survives CHttpCacheEntry.phase s s' := by
  obtain ⟨ok', s₁, hspace, hrun⟩ := bind_eq_some.1 hrun
  have hs₁ := (survives_cacheNeedsSpaceL hspace).comp
    fun c : EntryCore => (c.iState, c.iBodyFileDeleteNeeded)
  refine Survives.trans hs₁ (survives_of ?_ hrun)
  refine Stays.ite (fun _ => Stays.ite (fun hbody => absurd hbody (by decide)) fun _ => ?_)
    fun _ => Stays.pure _
  exact phase_saveHeaders io id header

theorem active_insertL {now : Clock} {aUrl : Des8} (hrun : insertL now aUrl s = some (some id, s')) :
    Active id s' := by
  rw [insertL, get_bind, modify_bind, get_bind, modify_bind] at hrun
  split at hrun
  · obtain ⟨_, s₁, -, hrun⟩ := bind_eq_some.1 hrun
    obtain ⟨_, s₂, hinit, hrun⟩ := bind_eq_some.1 hrun
    rw [pure_eq_some, Prod.mk.injEq, Option.some.injEq] at hrun
    obtain ⟨rfl, rfl⟩ := hrun
    obtain ⟨e, -, hinit⟩ := getEntry_bind.1 hinit
    rw [get_bind] at hinit
    obtain ⟨e', -, hinit⟩ := modifyEntry_bind.1 hinit
    obtain ⟨_, s₃, hstate, hinit⟩ := bind_eq_some.1 hinit
    have hactive := active_of_setState (by decide) hstate
    rw [deleteFile, modify_bind] at hinit
    obtain rfl := modify_run.1 hinit
    exact hactive
  · obtain ⟨_, s₁, -, hrun⟩ := bind_eq_some.1 hrun
    rw [pure_eq_some, Prod.mk.injEq] at hrun
    cases hrun.1

/-- All calls but those of `AddHeaderL` are made for an entry that is not complete. -/
theorem SaveCall.active {c : SaveCaller} {buffer : Des8} (hcall : SaveCall c id buffer s)
    (hc : c ≠ .addHeaderL) : Active id s := by
  induction hcall with
  | handleResponseOkL hstate hheaders _ hremove =>
      have hquiet := survives_of (quiet_phase (quiet_headerData _)) hheaders
      exact ((active_of_setState (by decide) hstate).survives hquiet).survives
        (survives_of (Stays.whenM fun _ => phase_removeHeaders _) hremove)
  | handleResponseNotModifiedL hstate hheaders hremove =>
      have hquiet := survives_of (quiet_phase (quiet_headerData _)) hheaders
      exact ((active_of_setState (by decide) hstate).survives hquiet).survives
        (survives_of (phase_removeHeaders _) hremove)
  | @receivedResponseBodyDataL id t bodyStr s s₁ b e _ he hstate hremove =>
      have hactive : Active id s := by
        intro e' he'
        rw [he, Option.some.injEq] at he'
        rw [← he', hstate]
        decide
      rcases whenM_run.1 hremove with ⟨-, hremove⟩ | ⟨-, rfl⟩
      · intro e' he'
        rcases (storeReady_of_removed he hstate hremove e' he').1 with hstate' | hstate'
        · rw [hstate']
          decide
        · rw [hstate']
          decide
      · exact hactive
  | saveL hinsert => exact active_insertL hinsert
  | saveContent _ hsave ih => exact (ih hc).survives (phase_saveHeaderBuffer hsave)
  | addHeaderL _ _ _ => exact absurd rfl hc
  | again _ _ hsave ih => exact (ih hc).survives (phase_saveHeaderBuffer hsave)

omit [Platform] in
/-- An active entry is not evicted. -/
theorem Active.not_mem_evictedFor (h : Active id s) (hbuckets : Buckets noEntry X s) (now : Clock)
    (n : Nat) : id ∉ s.evictedFor now n := by
  obtain ⟨evicted, buckets, hevict, hroom⟩ := evictL_madeRoom now n s hbuckets.bucketsLive
  rw [CacheState.evictedFor, hevict]
  intro hmem
  obtain ⟨_, e, -, he, hevictable⟩ := hroom.picked id hmem
  exact h e he hevictable.1

end Calls

end Check

/-! ## A cache of three bytes -/

section Small

open Reference

/-- An empty cache that may hold three bytes. -/
def smallCache : Construct := { emptyCache with aSize := 3 }

end Small

end SymbianWeb.HttpCache
