import SymbianWeb.HttpCache.NameSteps
import SymbianWeb.HttpCache.TableRuns
import SymbianWeb.HttpCache.Start

/-!
# One entry per URL over whole runs

An operation inserts an entry only where `Find` has found none. `Find` does not see everything: it
hides complete entries without a body, and it can miss an entry whose URL differs in case, because
the hash is case-sensitive. As long as neither kind of entry is stored for the URL of a response
that arrives (`Visible`), the table holds no two entries for one URL, and every call of
`DeleteCacheEntry` erases the entry it is for.
-/

set_option autoImplicit false

namespace SymbianWeb.HttpCache

open FaultState CHttpCacheLookupTable

/-- `DeleteCacheEntry` has found the entry it is for. -/
def Call.exact : Call → Prop
  | .deleteCacheEntry id _ _ _ located => located = some id
  | _ => True

theorem Call.exact_of_not_deletion {c : Call} (h : c.isDeletion = false) : c.exact := by
  cases c with
  | deleteCacheEntry id state candidate deleteNeeded located => cases h
  | createNewBodyFile replaceable bodySize => trivial
  | accessed candidate ref => trivial
  | accessedAt candidate bodySize ref aRef => trivial
  | setSavedContentSize saved total => trivial

section Runs

variable [Platform] {s s' : CacheState}

/-- Entries stored for a URL that `CompareF` takes to be equal to this one have exactly this URL,
and `Find` does not hide them. -/
def Visible (s : CacheState) (url : Des8) : Prop :=
  ∀ i e, s.heap i = some e → compareF e.iUrl url = true →
    e.iUrl = url ∧ ¬ (e.iBodySize = 0 ∧ e.iState = .eCacheComplete)

/-- The calls of the handler that send a response or a request through the cache, save a resource
or remove one. -/
def Op.isHandlerCall : Op → Prop
  | .receivedResponseHeadersL .. => True
  | .receivedResponseBodyDataL .. => True
  | .responseComplete .. => True
  | .requestL .. => True
  | .requestClosed .. => True
  | .saveL .. => True
  | .removeL .. => True
  | _ => False

/-- The operations that merge no index; where an entry may be inserted, the stored ones are
visible. -/
def Op.insertsVisible (op : Op) (s : CacheState) : Prop :=
  match op with
  | .receivedResponseHeadersL _ _ resp => resp.isCacheable = true → Visible s resp.uri
  | .saveL _ aUrl _ _ => Visible s aUrl
  | .updateLookupTable _ => False
  | .fileWriteRunL _ _ => False
  | _ => True

/-- The table has unique URLs, and no call has erased another entry than its own. -/
structure UrlsExact (s : CacheState) : Prop where
  unique : TableUnique s
  calls : ∀ c ∈ s.history, c.exact

/-- A step that keeps the invariant. -/
def UrlStep (s s' : CacheState) : Prop := UrlsExact s → UrlsExact s'

theorem urlStep_of_nameStep (h : NameStep s s') : UrlStep s s' := by
  intro hs
  refine ⟨⟨h.tableInv hs.unique.1, hs.unique.2.of_survives (h.survives.comp Prod.fst)⟩, ?_⟩
  cases h with
  | named h =>
      intro c hc
      rcases h.calls c hc with hold | hnew
      · exact hs.calls c hold
      · exact Call.exact_of_not_deletion hnew
  | erased pos id e h =>
      rw [h.history]
      exact hs.calls
  | deleted id a h =>
      obtain ⟨s₁, pos, e, hq, herased⟩ := deleteCacheEntry_exact hs.unique.2 hs.unique.1 h
      rw [herased.history]
      intro c hc
      rcases List.mem_cons.1 hc with rfl | hold
      · exact rfl
      · rw [hq.history] at hold
        exact hs.calls c hold

/-- A visible URL that `Find` does not find is not stored. -/
theorem notStored_of_find (h : TableUnique s) {url : Des8} (hvisible : Visible s url)
    (hfind : s.find url = none) : NotStored s url := by
  intro i e he
  cases hcmp : compareF e.iUrl url with
  | false => rfl
  | true =>
      obtain ⟨rfl, hshown⟩ := hvisible i e he hcmp
      obtain ⟨pos, hloc, -⟩ := h.2.locate_self h.1 he
      rw [find_eq_some.2 ⟨pos, e, hloc, he, hshown⟩] at hfind
      cases hfind

/-- `InsertL` where `Find` has found nothing. -/
theorem urlStep_insertL (now : Clock) {url : Des8} (hvisible : Visible s url)
    (hfind : s.find url = none) : StaysFrom UrlStep s (insertL now url) := by
  apply StaysFrom.of_step
  intro a s' hrun hs
  obtain ⟨-, hinserted⟩ := inserted_of_run hs.unique.1 hrun
  refine ⟨hs.unique.of_inserted hinserted (notStored_of_find hs.unique hvisible hfind), ?_⟩
  rw [hinserted.history]
  intro c hc
  rcases List.mem_cons.1 hc with rfl | hold
  · trivial
  · exact hs.calls c hold

/-- The URL an operation may insert an entry for, but for the index merge. -/
def Op.insertedUrl : Op → Option Des8
  | .receivedResponseHeadersL _ _ resp => if resp.isCacheable then some resp.uri else none
  | .saveL _ aUrl _ _ => some aUrl
  | _ => none

/-- A relation that allows the steps that insert nothing allows an operation, if it allows the
insertion where `Find` has found nothing, and the merges. -/
theorem staysFrom_op {R : CacheState → CacheState → Prop} (hname : ∀ s s', NameStep s s' → R s s')
    {op : Op} (hinsert : ∀ now url, op.insertedUrl = some url → s.find url = none →
      StaysFrom R s (insertL now url))
    (hupdate : ∀ env, op = .updateLookupTable env → StaysFrom R s (updateLookupTable env))
    (hwrite : ∀ env updated, op = .fileWriteRunL env updated →
      StaysFrom R s (fileWriteRunL env updated)) : StaysFrom R s op.run := by
  have hA := admits_nameStep
  have hstep : ∀ {α : Type} {m : CacheM α} {s : CacheState}, StaysFrom NameStep s m →
      StaysFrom R s m := fun h => h.mono hname
  have hpure : ∀ {α : Type} {m : CacheM α}, StaysFrom R s m →
      StaysFrom R s (m >>= fun _ => pure ()) := fun h => h.bind fun _ _ _ => StaysFrom.pure _
  cases op with
  | receivedResponseHeadersL env t resp =>
      refine StaysFrom.ite (fun hcacheable => ?_) fun _ => StaysFrom.pure _
      apply staysFrom_find
      cases hfind : s.find resp.uri with
      | some id =>
          refine staysFrom_getEntry fun e _ => StaysFrom.whenM fun _ => ?_
          exact hstep (nameStep_saveResponseHeaders env t resp id s)
      | none =>
          refine (hinsert _ _ (if_pos hcacheable) hfind).bind fun entry s₁ _ => ?_
          cases entry with
          | none => exact StaysFrom.pure _
          | some id => exact hstep (nameStep_saveInsertedHeaders env t resp id s₁)
  | receivedResponseBodyDataL env t body =>
      exact hstep (hA.receivedResponseBodyDataL env t body fun _ _ _ _ _ => trivial)
  | responseComplete env t => exact hstep (hA.responseComplete env t fun _ _ _ _ _ => trivial)
  | requestL env t req => exact hstep (hA.requestL env t req s)
  | requestNextChunkL t => exact hpure (hstep (hA.requestNextChunkL t s))
  | requestClosed t => exact hstep (hA.requestClosed t fun _ _ _ _ _ => trivial)
  | saveL env url header content =>
      apply hpure
      apply Admits.saveL
      · exact hinsert _ _ rfl
      · intro _ id s₁ hrun
        have hnew := (insertL_run hrun).2
        exact hstep (hA.saveInserted env trivial header content (headerZero_inserted hnew)
          (storeReady_inserted hnew))
  | removeL url => exact hpure (hstep (hA.removeL url s))
  | removeAllL env => exact hstep (hA.removeAllL env s)
  | addHeaderL env url alter => exact hstep (hA.addHeaderL env url alter fun _ _ => trivial)
  | validateCacheEntriesL => exact hstep (hA.validateCacheEntriesL s)
  | updateLookupTable env => exact hupdate env rfl
  | fileWriteRunL env updated => exact hwrite env updated rfl
  | writeTimeout => exact hstep (hA.of_quiet quiet_writeTimeout s)
  | writeHelperRunL id status => exact hstep (hA.of_quiet (quiet_writeHelperRunL id status) s)
  | collect io required => exact hstep (hA.collect io required s)
  | fileSystem files indexFile =>
      apply StaysFrom.of_step
      intro a s' hrun
      obtain rfl := modify_run.1 hrun
      exact hname _ _ (.named (Frame.named ⟨rfl, rfl, rfl, List.suffix_refl _, fun _ => rfl⟩ rfl))

theorem urlStep_op {op : Op} (hok : op.insertsVisible s) : StaysFrom UrlStep s op.run := by
  apply staysFrom_op fun _ _ => urlStep_of_nameStep
  · intro now url hurl hfind
    cases op with
    | receivedResponseHeadersL env t resp =>
        cases hcacheable : resp.isCacheable with
        | false =>
            rw [Op.insertedUrl, hcacheable] at hurl
            cases hurl
        | true =>
            rw [Op.insertedUrl, hcacheable] at hurl
            cases hurl
            exact urlStep_insertL now (hok hcacheable) hfind
    | saveL env aUrl header content =>
        cases hurl
        exact urlStep_insertL now hok hfind
    | _ => cases hurl
  · rintro env rfl
    exact hok.elim
  · rintro env updated rfl
    exact hok.elim

/-! ## The start -/

/-- The index has no two entries for one URL. -/
def Construct.distinct (c : Construct) : Prop :=
  c.entries.Pairwise fun e e' => compareF e.iUrl e'.iUrl = false

/-- The URLs that are still to be loaded differ from the stored ones and from each other. -/
def LoadsDistinct (s : CacheState) (entries : List CHttpCacheEntry) : Prop :=
  UniqueUrls s ∧ s.history = [] ∧ (∀ e ∈ entries, NotStored s e.iUrl) ∧
    entries.Pairwise fun e e' => compareF e.iUrl e'.iUrl = false

theorem LoadsDistinct.of_loaded {e : CHttpCacheEntry} {entries : List CHttpCacheEntry}
    (h : LoadsDistinct s (e :: entries)) (hl : Loaded e s.nextId s s') :
    LoadsDistinct s' entries := by
  obtain ⟨hunique, hhistory, hnew, hpairwise⟩ := h
  rw [List.pairwise_cons] at hpairwise
  refine ⟨?_, ?_, ?_, hpairwise.2⟩
  · exact hunique.of_added hl.toAdded hl.entry (hnew e List.mem_cons_self)
  · rw [hl.history]
    exact hhistory
  · intro e₁ hmem i e₂ he₂
    cases hi : decide (i = s.nextId) with
    | true =>
        rw [decide_eq_true_eq] at hi
        subst hi
        rw [hl.entry, Option.some.injEq] at he₂
        rw [← he₂]
        exact hpairwise.1 e₁ hmem
    | false =>
        rw [decide_eq_false_iff_not] at hi
        rw [hl.others i hi] at he₂
        exact hnew e₁ (List.mem_cons_of_mem _ hmem) i e₂ he₂

theorem urlsExact_starts {c : Construct} (hc : c.distinct) (h : c.Starts s) : UrlsExact s := by
  obtain ⟨s₁, a, hload, rfl⟩ := h.run
  have hempty : ∀ i, c.initial.heap i = none := fun _ => rfl
  obtain ⟨ht, hunique, hhistory, -, -⟩ := loadEntries_invariant (I := LoadsDistinct)
    (fun _ _ _ _ _ _ hl hs => hs.of_loaded hl) readEntry_of_construct (tableInv_initial c)
    ⟨fun i j e e' he => absurd he (by simp [hempty]), rfl,
      fun e _ i e' he' => absurd he' (by simp [hempty]), hc⟩ hload
  refine ⟨⟨ht.of_frame ⟨rfl, rfl, rfl, List.suffix_refl _, fun _ => rfl⟩, hunique⟩, ?_⟩
  intro c hmem
  change c ∈ s₁.history at hmem
  rw [hhistory] at hmem
  cases hmem

/-! ## The runs -/

/-- Entry `id` has been erased, and every other entry is still in the table. -/
def ErasedOnly (id : EntryId) (s s' : CacheState) : Prop :=
  id ∉ s'.iLookupTable.entries ∧ s'.heap id = none ∧
    ∀ j, j ≠ id → (j ∈ s'.iLookupTable.entries ↔ j ∈ s.iLookupTable.entries)

omit [Platform] in
theorem Erased.only {pos : Nat} {id : EntryId} {e : CHttpCacheEntry} (h : Erased pos id e s s')
    (ht : TableInv s) : ErasedOnly id s s' := by
  have hnodup := h.perm.nodup_iff.2 ht.nodup
  rw [List.nodup_cons] at hnodup
  refine ⟨hnodup.1, h.gone, fun j hj => ?_⟩
  rw [← h.perm.mem_iff, List.mem_cons, or_iff_right hj]

/-- What the claims about one entry per URL say of a state. -/
structure UrlsCorrect (s : CacheState) : Prop where
  /-- No two live entries, and so no two `Valid` slots, have equal URLs. -/
  unique : UniqueUrls s
  /-- Every `DeleteCacheEntry` so far has erased the entry it was called for. -/
  calls : ∀ c ∈ s.history, c.exact
  /-- `DeleteCacheEntry` erases the entry it is called for and no other one. -/
  delete : ∀ id a s', deleteCacheEntry id s = some (a, s') → ErasedOnly id s s'
  /-- `Remove` erases the entry whose URL it is given and no other one, unless it is active. -/
  remove : ∀ id e r s', s.heap id = some e → remove e.iUrl s = some (r, s') →
    (e.iState = .eCacheComplete ∧ ErasedOnly id s s') ∨ (e.iState ≠ .eCacheComplete ∧ s' = s)

theorem UrlsExact.correct (h : UrlsExact s) : UrlsCorrect s where
  unique := h.unique.2
  calls := h.calls
  delete id a s' hrun := by
    obtain ⟨s₁, pos, e, hq, herased⟩ := deleteCacheEntry_exact h.unique.2 h.unique.1 hrun
    have hquiet := hq.frame
    have ht : TableInv (s₁.noted (e.deleteCall id (some id))) :=
      (h.unique.1.of_frame hquiet).of_frame
        ⟨rfl, rfl, rfl, List.suffix_cons _ _, fun _ => rfl⟩
    obtain ⟨hnot, hgone, hothers⟩ := herased.only ht
    refine ⟨hnot, hgone, fun j hj => ?_⟩
    rw [hothers j hj]
    show j ∈ s₁.iLookupTable.entries ↔ _
    rw [hq.table]
  remove id e r s' he hrun := by
    rcases remove_exact h.unique.2 h.unique.1 he hrun with ⟨hstate, -, pos, herased⟩ |
      ⟨hstate, -, rfl⟩
    · exact .inl ⟨hstate, herased.only h.unique.1⟩
    · exact .inr ⟨hstate, rfl⟩

/-- In every run that starts with an index without duplicates and inserts only where the stored
entries are visible, there is one entry per URL and every deletion is exact. -/
theorem urls_correct {c : Construct} (hc : c.distinct)
    (h : Reaches Op.run c.Starts Op.insertsVisible s) : UrlsCorrect s := by
  have hinv : UrlsExact s := by
    apply h.invariant
    · intro s hs
      exact urlsExact_starts hc hs
    · intro op s hok hs a s' hrun
      exact invariant_of_chain (fun _ _ hstep => hstep) (urlStep_op hok a s' hrun) hs
  exact hinv.correct

end Runs

/-! ## A response without a body, twice -/

section Duplicate

open Reference

theorem emptyCache_distinct : emptyCache.distinct := by
  have hnil : emptyCache.entries = [] := rfl
  rw [Construct.distinct, hnil]
  exact List.Pairwise.nil

/-- The headers of one response arrive in a cache without entries. -/
theorem urls_of_response : ∃ s, UrlsCorrect s ∧ s.iLookupTable.entries = [0] := by
  have heval : ((Op.receivedResponseHeadersL Reference.env 0 (response [1] [2, 3])).run
      emptyCache.initial).map (fun p => p.2.iLookupTable.entries) = some [0] := by
    decide +kernel
  obtain ⟨⟨a, s⟩, hrun, hentries⟩ := Option.map_eq_some_iff.1 heval
  have hstart : Reaches Op.run emptyCache.Starts Op.insertsVisible emptyCache.initial :=
    .start rfl
  refine ⟨s, urls_correct emptyCache_distinct (.call _ hstart ?_ hrun), hentries⟩
  intro _ i e he
  cases he

/-- Headers without a body, twice for the same URL: `Find` hides the first entry. -/
def emptyResponseTwice : List Op :=
  [.receivedResponseHeadersL Reference.env 0 (response [1] [2, 3]),
    .responseComplete Reference.env 0,
    .receivedResponseHeadersL Reference.env 0 (response [1] [2, 3]),
    .responseComplete Reference.env 0]

/-- The table then holds two entries for that URL. -/
theorem two_entries_for_one_url : ¬ ∀ (c : Construct) (s : CacheState), c.distinct →
    Reaches Op.run c.Starts (fun op _ => op.isHandlerCall) s → UrlsCorrect s := by
  intro h
  have heval : (stateAfter emptyCache emptyResponseTwice).map (fun s =>
      ((s.heap 0).map CHttpCacheEntry.iUrl, (s.heap 1).map CHttpCacheEntry.iUrl)) =
      some (some [1], some [1]) := by
    decide +kernel
  have hcalls : ∀ op ∈ emptyResponseTwice, ∀ _ : CacheState, op.isHandlerCall := by
    intro op hmem _
    simp only [emptyResponseTwice, List.mem_cons, List.not_mem_nil, or_false] at hmem
    rcases hmem with rfl | rfl | rfl | rfl <;> trivial
  obtain ⟨s, hs, heq⟩ := exists_run_of_eval' (fun op _ => op.isHandlerCall) hcalls heval
  rw [Prod.mk.injEq] at heq
  obtain ⟨e, he, hurl⟩ := Option.map_eq_some_iff.1 heq.1
  obtain ⟨e', he', hurl'⟩ := Option.map_eq_some_iff.1 heq.2
  have hcmp : compareF e.iUrl e'.iUrl = true := by
    rw [hurl, hurl']
    exact compareF_refl _
  have hsame := (h _ s emptyCache_distinct hs).unique 0 1 e e' he he' hcmp
  cases hsame

end Duplicate

end SymbianWeb.HttpCache
