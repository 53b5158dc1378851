import SymbianWeb.HttpCache.EntrySpec

/-!
# Tables without two entries for one URL

`UniqueUrls` says that no two live entries have URLs that `CompareF` takes to be equal. Together
with `TableInv` it makes `Probe` exact: the URL of a stored entry is found at its own slot and a
URL that is not stored is found nowhere, so `EraseCacheEntry`, `Remove` and `DeleteCacheEntry`
erase the entry they are called for (`deleteCacheEntry_exact`, `remove_exact`).

Only an insertion can break the property; what happens to an entry afterwards keeps its URL
(`UniqueUrls.of_survives`).
-/

set_option autoImplicit false

namespace SymbianWeb.HttpCache

open FaultState CHttpCacheLookupTable

variable [Platform]

/-- No two live entries have equal URLs. -/
def UniqueUrls (s : CacheState) : Prop :=
  ∀ i j e e', s.heap i = some e → s.heap j = some e' → compareF e.iUrl e'.iUrl = true → i = j

/-- No live entry has a URL equal to `url`. -/
def NotStored (s : CacheState) (url : Des8) : Prop :=
  ∀ i e, s.heap i = some e → compareF e.iUrl url = false

variable {s s' : CacheState}

/-! ## What keeps the URLs different -/

theorem UniqueUrls.of_survives (h : UniqueUrls s) (hs : Survives CHttpCacheEntry.iUrl s s') :
    UniqueUrls s' := by
  intro i j e e' he he' hcmp
  obtain ⟨e₀, he₀, hurl⟩ := hs i e he
  obtain ⟨e₁, he₁, hurl'⟩ := hs j e' he'
  rw [hurl, hurl'] at hcmp
  exact h i j e₀ e₁ he₀ he₁ hcmp

omit [Platform] in
theorem Frame.survives_url (h : Frame s s') : Survives CHttpCacheEntry.iUrl s s' :=
  (Survives.of_map h.names).comp Prod.fst

omit [Platform] in
theorem Erased.survives_url {pos : Nat} {id : EntryId} {e : CHttpCacheEntry}
    (h : Erased pos id e s s') : Survives CHttpCacheEntry.iUrl s s' :=
  h.survives.comp EntryCore.iUrl

/-- A new entry whose URL is not stored. -/
theorem UniqueUrls.of_added (h : UniqueUrls s) {id : EntryId} {e : CHttpCacheEntry}
    (ha : Added id s s') (he : s'.heap id = some e) (hnew : NotStored s e.iUrl) :
    UniqueUrls s' := by
  have hother : ∀ j e', j ≠ id → s'.heap j = some e' → compareF e'.iUrl e.iUrl = false := by
    intro j e' hj he'
    rw [ha.others j hj] at he'
    exact hnew j e' he'
  intro i j e₁ e₂ he₁ he₂ hcmp
  cases hi : decide (i = id) with
  | true =>
      rw [decide_eq_true_eq] at hi
      subst hi
      obtain rfl : e₁ = e := Option.some.inj (he₁.symm.trans he)
      apply Decidable.byContradiction
      intro hne
      have hdiff := hother j e₂ (fun heq => hne heq.symm) he₂
      rw [compareF_comm, hcmp] at hdiff
      cases hdiff
  | false =>
      rw [decide_eq_false_iff_not] at hi
      cases hj : decide (j = id) with
      | true =>
          rw [decide_eq_true_eq] at hj
          subst hj
          obtain rfl : e₂ = e := Option.some.inj (he₂.symm.trans he)
          rw [hother i e₁ hi he₁] at hcmp
          cases hcmp
      | false =>
          rw [decide_eq_false_iff_not] at hj
          rw [ha.others i hi] at he₁
          rw [ha.others j hj] at he₂
          exact h i j e₁ e₂ he₁ he₂ hcmp

/-! ## Slots -/

omit [Platform] in
theorem TableInv.entry_of_slot (h : TableInv s) {p : Nat} {id : EntryId}
    (hp : s.iLookupTable.entryAt p = some id) : ∃ e, s.heap id = some e := by
  have hsome := (h.live id).1 (mem_entries.2 ⟨p, hp⟩)
  exact Option.isSome_iff_exists.1 hsome

omit [Platform] in
theorem TableInv.slot_of_entry (h : TableInv s) {id : EntryId} {e : CHttpCacheEntry}
    (he : s.heap id = some e) : ∃ p, s.iLookupTable.entryAt p = some id := by
  apply mem_entries.1
  rw [h.live, he]
  rfl

omit [Platform] in
theorem urlOf_of_entry {id : EntryId} {e : CHttpCacheEntry} (he : s.heap id = some e) :
    s.urlOf id = e.iUrl := by
  rw [CacheState.urlOf, he]

omit [Platform] in
/-- In a table whose entries are pairwise different an entry has one slot. -/
theorem entryAt_inj {α : Type} {t : CHttpCacheLookupTable α} (h : t.entries.Nodup) {p q : Nat}
    {a : α} (hp : t.entryAt p = some a) (hq : t.entryAt q = some a) : p = q := by
  apply Decidable.byContradiction
  intro hne
  -- erasing one of the slots would leave the entry in the table
  have hmem : a ∈ (t.eraseSlot p).entries := by
    apply mem_entries.2
    refine ⟨q, ?_⟩
    rw [entryAt_eraseSlot t (lt_size_of_entryAt hp), if_neg fun heq => hne heq.symm]
    exact hq
  have hnodup := (entries_eraseSlot_perm t hp).nodup_iff.2 h
  rw [List.nodup_cons] at hnodup
  exact hnodup.1 hmem

theorem UniqueUrls.distinctUrls (h : UniqueUrls s) (ht : TableInv s) :
    s.iLookupTable.DistinctUrls s.urlOf := by
  intro p q a b hp hq hcmp
  obtain ⟨e, he⟩ := ht.entry_of_slot hp
  obtain ⟨e', he'⟩ := ht.entry_of_slot hq
  rw [urlOf_of_entry he, urlOf_of_entry he'] at hcmp
  obtain rfl := h a b e e' he he' hcmp
  exact entryAt_inj ht.nodup hp hq

/-! ## Lookups -/

/-- `Probe` of the URL of a live entry ends at an entry with an equal URL. -/
theorem TableInv.locate_isSome (ht : TableInv s) {id : EntryId} {e : CHttpCacheEntry}
    (he : s.heap id = some e) : ∃ pos j e', s.locate e.iUrl = some (pos, j) ∧
      s.heap j = some e' ∧ compareF e'.iUrl e.iUrl = true := by
  obtain ⟨p, hp⟩ := ht.slot_of_entry he
  have hreached := ht.placed.chained p id hp
  have hrefl : compareF (s.urlOf id) (s.urlOf id) = true := compareF_refl _
  obtain ⟨q, j, hfind, hj, hcmp⟩ := probeFind_of_reached s.urlOf hp hreached hrefl
  obtain ⟨e', he'⟩ := ht.entry_of_slot hj
  rw [urlOf_of_entry he] at hfind hcmp
  rw [urlOf_of_entry he'] at hcmp
  refine ⟨q, j, e', ?_, he', hcmp⟩
  rw [CacheState.locate, hfind]
  dsimp only
  rw [hj]

/-- What `Probe` finds has an equal URL. -/
theorem TableInv.locate_matches (ht : TableInv s) {url : Des8} {pos : Nat} {id : EntryId}
    (h : s.locate url = some (pos, id)) :
    ∃ e, s.heap id = some e ∧ compareF e.iUrl url = true := by
  obtain ⟨hfind, hslot⟩ := locate_slot h
  obtain ⟨e, he⟩ := ht.entry_of_slot hslot
  refine ⟨e, he, ?_⟩
  rw [← urlOf_of_entry he]
  exact probeFind_matches ht.placed.size_pos hfind hslot

/-- With unique URLs `Probe` finds an entry by its own URL. -/
theorem UniqueUrls.locate_self (h : UniqueUrls s) (ht : TableInv s) {id : EntryId}
    {e : CHttpCacheEntry} (he : s.heap id = some e) :
    ∃ pos, s.locate e.iUrl = some (pos, id) ∧ s.iLookupTable.entryAt pos = some id := by
  obtain ⟨pos, j, e', hloc, he', hcmp⟩ := ht.locate_isSome he
  obtain rfl := h j id e' e he' he hcmp
  exact ⟨pos, hloc, (locate_slot hloc).2⟩

/-! ## Erasing by URL -/

/-- `Remove` of the URL of a live entry erases this entry if it is not active, and otherwise
nothing. -/
theorem remove_exact (h : UniqueUrls s) (ht : TableInv s) {id : EntryId} {e : CHttpCacheEntry}
    (he : s.heap id = some e) {r : Int} (hrun : remove e.iUrl s = some (r, s')) :
    (e.iState = .eCacheComplete ∧ r = kErrNone ∧ ∃ pos, Erased pos id e s s') ∨
      (e.iState ≠ .eCacheComplete ∧ r = kErrNotFound ∧ s' = s) := by
  obtain ⟨pos, hloc, hslot⟩ := h.locate_self ht he
  rw [remove, get_bind, hloc] at hrun
  obtain ⟨e', he', hrun⟩ := getEntry_bind.1 hrun
  obtain rfl : e' = e := Option.some.inj (he'.symm.trans he)
  split at hrun
  · next hcomplete =>
      obtain ⟨_, s₁, herase, hrun⟩ := bind_eq_some.1 hrun
      rw [pure_eq_some, Prod.mk.injEq] at hrun
      obtain ⟨rfl, rfl⟩ := hrun
      obtain ⟨e₁, herased⟩ := erase_spec herase hslot
      obtain rfl : e₁ = e' := Option.some.inj (herased.entry.symm.trans he)
      exact .inl ⟨hcomplete, rfl, pos, herased⟩
  · next hactive =>
      rw [pure_eq_some, Prod.mk.injEq] at hrun
      exact .inr ⟨hactive, hrun⟩

omit [Platform] in
theorem Quiet.survives_url (h : Quiet s s') : Survives CHttpCacheEntry.iUrl s s' :=
  h.frame.survives_url

/-- `DeleteCacheEntry` of a live entry erases this entry. -/
theorem deleteCacheEntry_exact (h : UniqueUrls s) (ht : TableInv s) {id : EntryId} {a : Unit}
    (hrun : deleteCacheEntry id s = some (a, s')) : ∃ s₁ pos e, Quiet s s₁ ∧
      Erased pos id e (s₁.noted (e.deleteCall id (some id))) s' := by
  obtain ⟨e, s₁, hq, he, hcase⟩ := deleteCacheEntry_spec hrun
  have h₁ := h.of_survives hq.survives_url
  obtain ⟨pos, hloc, -⟩ := h₁.locate_self (ht.of_frame hq.frame) he
  rcases hcase with ⟨hnone, -⟩ | ⟨pos', j, e', hloc', herased⟩
  · rw [hloc] at hnone
    cases hnone
  · rw [hloc, Option.some.injEq, Prod.mk.injEq] at hloc'
    obtain ⟨rfl, rfl⟩ := hloc'
    obtain rfl : e' = e := Option.some.inj (herased.entry.symm.trans he)
    exact ⟨s₁, pos, e', hq, herased⟩

end SymbianWeb.HttpCache
