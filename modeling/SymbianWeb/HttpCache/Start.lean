import SymbianWeb.HttpCache.EntrySpec

/-!
# Loading the index at start

`ConstructL` reads the index file and inserts its entries one after the other. `loadEntry_spec`
says what one insertion does, and `constructL_induction` turns this into an induction over all
states a cache can start in.
-/

set_option autoImplicit false

namespace SymbianWeb.HttpCache

open FaultState ByteStream CHttpCacheLookupTable

/-! ## What the reader makes -/

/-- What is the same for all entries `InternalizeL` makes: they are new but for the fields that
were read, and the reference count is not zero. -/
structure ReadEntry (e : CHttpCacheEntry) : Prop where
  ref : e.iRef ≠ 0
  state : e.iState = .eCacheUninitialized
  candidate : e.iEvictionCandidate = false
  deleteNeeded : e.iBodyFileDeleteNeeded = false
  cached : e.bodyDataCached = false
  buffer : e.iCacheBuffer = .reset

section Read

variable [Platform]

theorem yields_internalizeEntryL (dir : Des16) : Yields ReadEntry (internalizeEntryL dir) := by
  unfold internalizeEntryL
  iterate 8 refine Yields.bind fun _ => ?_
  apply Yields.ite
  · intro _
    exact Yields.failWith _
  · intro href
    exact Yields.pure ⟨href, rfl, rfl, rfl, rfl, rfl⟩

theorem yields_internalizeEntries (dir : Des16) (n : Nat) :
    Yields (fun entries => ∀ e ∈ entries, ReadEntry e) (internalizeEntries dir n) := by
  induction n with
  | zero => exact Yields.pure fun _ h => absurd h List.not_mem_nil
  | succ n ih =>
      intro bytes entries rest hrun
      rw [internalizeEntries] at hrun
      cases hread : internalizeEntryL dir bytes with
      | error e =>
          simp only [hread] at hrun
          cases e with
          | eof => exact ih [] entries rest hrun
          | panic => cases hrun
      | ok p =>
          obtain ⟨e, left⟩ := p
          simp only [hread] at hrun
          cases htail : internalizeEntries dir n left with
          | error e =>
              rw [htail] at hrun
              cases hrun
          | ok q =>
              rw [htail] at hrun
              cases hrun
              intro e' he'
              rcases List.mem_cons.1 he' with rfl | hmem
              · exact yields_internalizeEntryL dir bytes _ left hread
              · exact ih left q.1 q.2 htail e' hmem

theorem yields_internalizeL (dir : Des16) :
    Yields (fun r => ∀ entries, r = some entries → ∀ e ∈ entries, ReadEntry e)
      (internalizeL dir) := by
  refine Yields.bind fun version => Yields.ite (fun _ => ?_) fun _ => ?_
  · refine Yields.bind fun len => Yields.ite (fun _ => ?_) fun _ => ?_
    · exact Yields.pure fun _ h => absurd h (by simp)
    · refine Yields.ite (fun _ => Yields.failWith _) fun _ => ?_
      refine Yields.bind fun _ => Yields.bind fun count => ?_
      refine Yields.map (yields_internalizeEntries dir count.toNat) fun entries h => ?_
      intro entries' heq
      cases heq
      exact h
  · exact Yields.pure fun _ h => absurd h (by simp)

theorem readEntry_of_loaded {dir : Des16} {indexFile : Option Des8}
    {entries : List CHttpCacheEntry}
    (h : openLookupTableL dir indexFile = some (.loaded entries)) : ∀ e ∈ entries, ReadEntry e := by
  unfold openLookupTableL at h
  split at h
  · cases h
  · cases h
  · next bytes _ =>
      split at h
      · cases h
      · next read rest hread =>
          cases h
          exact yields_internalizeL dir bytes _ rest hread entries rfl
      · cases h
      · cases h

end Read

/-! ## Inserting what was read -/

/-- What `SetState( ECacheComplete )` makes of an entry that was read. -/
def loadedEntry (e : CHttpCacheEntry) : CHttpCacheEntry :=
  { e with iState := .eCacheComplete, iEvictionCandidate := true }

/-- Entry `id` has been loaded from `e`. -/
structure Loaded (e : CHttpCacheEntry) (id : EntryId) (s s' : CacheState) : Prop
    extends Added id s s' where
  content : s'.iContentSize = s.iContentSize
  buckets : s'.iBuckets = Function.update s.iBuckets e.bucket (s.iBuckets e.bucket ++ [id])
  history : s'.history = s.history
  entry : s'.heap id = some (loadedEntry e)

theorem loadEntry_spec {s s' : CacheState} {e : CHttpCacheEntry} {a : Unit} (h : TableInv s)
    (he : ReadEntry e) (hrun : loadEntry e s = some (a, s')) : Loaded e s.nextId s s' := by
  rw [loadEntry, get_bind, modify_bind] at hrun
  obtain ⟨_, s₁, hstate, hrun⟩ := bind_eq_some.1 hrun
  have hs₁ := (setState_complete_run (heap_withNew_self s e) he.candidate hstate).2
  rw [get_bind] at hrun
  obtain rfl := modify_run.1 hrun
  -- completing the entry does not change what the table reads of it
  have hurl : s₁.urlOf = (s.withNew e).urlOf := by
    have hframe : Frame (s.withNew e) s₁ :=
      related_of_chain Frame.refl (fun _ _ _ => Frame.trans)
        (((sizeFrame_setState s.nextId .eCacheComplete).mono fun _ _ hf => hf.frame) _ _ _ hstate)
    exact hframe.urlOf
  obtain ⟨-, hplaced, hperm⟩ := insertEntry_withNew h e
  rw [← hurl] at hplaced hperm
  have hentry : s₁.heap s.nextId = some (loadedEntry e) := by
    rw [hs₁]
    exact heap_setEntry_self ..
  have htable : s₁.iLookupTable = s.iLookupTable := by
    rw [hs₁]
    rfl
  refine ⟨⟨rfl, ?_, ?_, ?_, ?_, ?_, ?_⟩, ?_, ?_, ?_, hentry⟩
  · show (s₁.iLookupTable.insertEntry s₁.urlOf s.nextId).1.WellPlaced s₁.urlOf
    rw [htable]
    exact hplaced
  · show (s₁.iLookupTable.insertEntry s₁.urlOf s.nextId).1.entries.Perm _
    rw [htable]
    exact hperm
  · show s₁.nextId = _
    rw [hs₁]
    rfl
  · show s₁.iDirectory = _
    rw [hs₁]
    rfl
  · show (s₁.heap s.nextId).isSome = true
    rw [hentry]
    rfl
  · intro i hi
    show s₁.heap i = _
    rw [hs₁, heap_setEntry, if_neg hi]
    show (s.setEntry _ _).heap i = _
    rw [heap_setEntry, if_neg hi]
  · show s₁.iContentSize = _
    rw [hs₁]
    rfl
  · show s₁.iBuckets = _
    rw [hs₁]
    rfl
  · show s₁.history = _
    rw [hs₁]
    rfl

/-! ## The states a cache starts in -/

section Start

variable [Platform]

/-- What `ConstructL` finds in the index file. -/
def Construct.index (c : Construct) : Option IndexRead :=
  openLookupTableL c.aDirectory (if c.env.indexOk then c.indexFile else none)

/-- The entries `ConstructL` reads. -/
def Construct.entries (c : Construct) : List CHttpCacheEntry :=
  match c.index with
  | some (.loaded entries) => entries
  | _ => []

omit [Platform] in
theorem tableInv_initial (c : Construct) : TableInv c.initial :=
  (tableInv_newL c.aSize c.aDirectory c.aCriticalLevel c.aPostpone c.files).of_frame
    ⟨rfl, rfl, rfl, List.suffix_refl _, fun _ => rfl⟩

theorem readEntry_of_construct {c : Construct} : ∀ e ∈ c.entries, ReadEntry e := by
  unfold Construct.entries
  split
  · next entries hindex => exact readEntry_of_loaded hindex
  · intro e he
    cases he

/-- The entries of the index are loaded one by one, and then the content size is set. -/
theorem Construct.Starts.run {c : Construct} {s : CacheState} (h : c.Starts s) :
    ∃ s₁ a, forEach c.entries loadEntry c.initial = some (a, s₁) ∧
      s = { s₁ with iContentSize := contentSizeOf c.entries } := by
  rw [Construct.Starts, constructL, get_bind] at h
  have hindex : openLookupTableL c.initial.iDirectory
      (if c.env.indexOk then c.initial.iIndexFile else none) = c.index := rfl
  rw [hindex] at h
  have hnone : c.entries = [] → s = c.initial → ∃ s₁ a,
      forEach c.entries loadEntry c.initial = some (a, s₁) ∧
        s = { s₁ with iContentSize := contentSizeOf c.entries } := by
    rintro hentries rfl
    rw [hentries]
    exact ⟨c.initial, (), rfl, rfl⟩
  cases hread : c.index with
  | none =>
      rw [hread] at h
      cases h
  | some read =>
      rw [hread] at h
      cases read with
      | left =>
          rw [pure_eq_some, Prod.mk.injEq] at h
          exact hnone (by rw [Construct.entries, hread]) h.2
      | nothing =>
          rw [pure_eq_some, Prod.mk.injEq] at h
          exact hnone (by rw [Construct.entries, hread]) h.2
      | loaded entries =>
          obtain ⟨_, s₁, hload, hset⟩ := bind_eq_some.1 h
          have hentries : c.entries = entries := by rw [Construct.entries, hread]
          rw [hentries]
          exact ⟨s₁, _, hload, modify_run.1 hset⟩

omit [Platform] in
/-- The table invariant, and an invariant of the states that insertions pass through, hold at the
end of the insertions. -/
theorem loadEntries_invariant {I : CacheState → List CHttpCacheEntry → Prop}
    (hload : ∀ s s' e entries, TableInv s → ReadEntry e → Loaded e s.nextId s s' →
      I s (e :: entries) → I s' entries)
    {entries : List CHttpCacheEntry} (hread : ∀ e ∈ entries, ReadEntry e) {s s' : CacheState}
    {a : Unit} (ht : TableInv s) (hs : I s entries)
    (hrun : forEach entries loadEntry s = some (a, s')) : TableInv s' ∧ I s' [] := by
  induction entries generalizing s with
  | nil =>
      rw [forEach_nil_eq_some, Prod.mk.injEq] at hrun
      obtain ⟨-, rfl⟩ := hrun
      exact ⟨ht, hs⟩
  | cons e entries ih =>
      obtain ⟨s₁, hfirst, hrest⟩ := forEach_cons_eq_some.1 hrun
      have hloaded := loadEntry_spec ht (hread e List.mem_cons_self) hfirst
      refine ih (fun e' he' => hread e' (List.mem_cons_of_mem _ he')) (ht.of_added hloaded.toAdded)
        (hload s s₁ e entries ht (hread e List.mem_cons_self) hloaded hs) hrest

end Start

end SymbianWeb.HttpCache
