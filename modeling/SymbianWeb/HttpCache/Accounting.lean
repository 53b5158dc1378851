import SymbianWeb.HttpCache.Start
import SymbianWeb.HttpCache.Reference
import Mathlib.Algebra.BigOperators.Group.List.Basic
import Mathlib.Tactic.Linarith

/-!
# Space accounting

The stream handler counts the bytes of all headers and bodies in `iContentSize`. The operations
adjust the counter and the sizes of the entries in different places; here it is shown that the
counter is the sum over the lookup table in every run in which two things do not happen: a body
file is refused to an entry that has a body, and an index is merged whose total is not the
current one.

The first one is `CreateNewBodyFile`, which sets the body size to zero and leaves the counter. The
second one is `InternalizeL` of the second table, which sets the counter of the stream handler
that both tables share to the total of the index file.
-/

set_option autoImplicit false

namespace SymbianWeb.HttpCache

open FaultState CHttpCacheLookupTable

/-- Header and body size of a live entry. -/
def CacheState.sizeAt (s : CacheState) (i : EntryId) : Int :=
  match s.heap i with
  | some e => e.size
  | none => 0

/-- Sum of `HeaderSize() + BodySize()` over the `Valid` slots of the lookup table. -/
def CacheState.totalSize (s : CacheState) : Int := (s.iLookupTable.entries.map s.sizeAt).sum

/-- The saved content size is the total size of the entries. -/
structure Accounts (s : CacheState) : Prop where
  table : TableInv s
  balance : s.iContentSize = s.totalSize

/-- A call after which the counter is still right: a body file is refused only to an entry without
a body, and the content size is set only to its current value. -/
def Call.keepsAccounts : Call → Prop
  | .createNewBodyFile replaceable bodySize => replaceable = true ∨ bodySize = 0
  | .setSavedContentSize saved total => saved = total
  | _ => True

instance (c : Call) : Decidable c.keepsAccounts :=
  match c with
  | .createNewBodyFile replaceable bodySize =>
      inferInstanceAs (Decidable (replaceable = true ∨ bodySize = 0))
  | .setSavedContentSize saved total => inferInstanceAs (Decidable (saved = total))
  | .accessed .. => isTrue trivial
  | .accessedAt .. => isTrue trivial
  | .deleteCacheEntry .. => isTrue trivial

/-- The counter is right unless a call of the history has spoiled it. -/
def AccountsUnless (s : CacheState) : Prop :=
  (∀ c ∈ s.history, c.keepsAccounts) → Accounts s

/-- A step after which the counter is right if it was before. -/
def AccountsStep (s s' : CacheState) : Prop := AccountsUnless s → AccountsUnless s'

/-! ## The kinds of steps -/

/-- A step that keeps the history and the accounts. -/
theorem AccountsStep.of_accounts {s s' : CacheState} (hhistory : s.history <:+ s'.history)
    (h : (∀ c ∈ s'.history, c.keepsAccounts) → Accounts s → Accounts s') :
    AccountsStep s s' := by
  intro hs hcalls
  apply h hcalls
  apply hs
  intro c hc
  exact hcalls c (hhistory.subset hc)

theorem sizeAt_eq_of_map {s s' : CacheState} {i : EntryId}
    (h : (s'.heap i).map CHttpCacheEntry.sizes = (s.heap i).map CHttpCacheEntry.sizes) :
    s'.sizeAt i = s.sizeAt i := by
  unfold CacheState.sizeAt
  cases he : s.heap i with
  | none =>
      rw [he, Option.map_none, Option.map_eq_none_iff] at h
      rw [h]
  | some e =>
      obtain ⟨e', he', hsizes⟩ := exists_of_map_eq h he
      rw [he']
      exact congrArg (fun p => ((p.2.2.toNat + p.2.1 : Nat) : Int)) hsizes

theorem sizeAt_of_some {s : CacheState} {i : EntryId} {e : CHttpCacheEntry}
    (he : s.heap i = some e) : s.sizeAt i = e.size := by
  rw [CacheState.sizeAt, he]

theorem accountsStep_of_sizeFrame {s s' : CacheState} (h : SizeFrame s s') :
    AccountsStep s s' := by
  apply AccountsStep.of_accounts h.history
  intro _ hs
  refine ⟨hs.table.of_frame h.frame, ?_⟩
  have hsizes : s'.sizeAt = s.sizeAt := by
    funext i
    exact sizeAt_eq_of_map (h.sizes i)
  rw [h.content, hs.balance, CacheState.totalSize, CacheState.totalSize, h.table, hsizes]

theorem accountsStep_of_erased {pos : Nat} {id : EntryId} {e : CHttpCacheEntry}
    {s s' : CacheState} (h : Erased pos id e s s') : AccountsStep s s' := by
  apply AccountsStep.of_accounts (by rw [h.history])
  intro _ hs
  refine ⟨hs.table.of_erased h, ?_⟩
  have hperm := h.perm
  have hnodup := hperm.nodup_iff.2 hs.table.nodup
  rw [List.nodup_cons] at hnodup
  have hothers : ∀ i ∈ s'.iLookupTable.entries, s'.sizeAt i = s.sizeAt i := by
    intro i hi
    have hne : i ≠ id := by
      rintro rfl
      exact hnodup.1 hi
    exact sizeAt_eq_of_map (map_eq_of_map_eq
      (fun c : EntryCore => ((c.iUrl, c.iFileName), c.iBodySize, c.iHeaderSize)) (h.others i hne))
  have htotal : s.totalSize = e.size + s'.totalSize := by
    rw [CacheState.totalSize, CacheState.totalSize, ← (hperm.map s.sizeAt).sum_eq, List.map_cons,
      List.sum_cons, sizeAt_of_some h.entry, List.map_congr_left hothers]
  rw [h.content, hs.balance, htotal]
  exact add_sub_cancel_left _ _

/-- The size of entry `id` changes from that of `e` to that of `e'`, and it is counted. -/
structure Resized (id : EntryId) (e e' : CHttpCacheEntry) (s s' : CacheState) : Prop where
  entry : s.heap id = some e
  entry' : s'.heap id = some e'
  names : e'.names = e.names
  table : s'.iLookupTable = s.iLookupTable
  nextId : s'.nextId = s.nextId
  directory : s'.iDirectory = s.iDirectory
  content : s'.iContentSize = s.iContentSize + ((e'.size : Int) - e.size)
  history : s.history <:+ s'.history
  others : ∀ i, i ≠ id → s'.heap i = s.heap i

theorem Resized.frame {id : EntryId} {e e' : CHttpCacheEntry} {s s' : CacheState}
    (h : Resized id e e' s s') : Frame s s' := by
  refine ⟨h.table, h.nextId, h.directory, h.history, fun i => ?_⟩
  cases hi : decide (i = id) with
  | true =>
      rw [decide_eq_true_eq] at hi
      rw [hi, h.entry, h.entry', Option.map_some, Option.map_some, h.names]
  | false =>
      rw [decide_eq_false_iff_not] at hi
      rw [h.others i hi]

theorem accountsStep_of_resized {id : EntryId} {e e' : CHttpCacheEntry} {s s' : CacheState}
    (h : Resized id e e' s s') : AccountsStep s s' := by
  apply AccountsStep.of_accounts h.history
  intro _ hs
  refine ⟨hs.table.of_frame h.frame, ?_⟩
  have hmem : id ∈ s.iLookupTable.entries := by
    rw [hs.table.live, h.entry]
    rfl
  -- the other entries are those that are left when `id` is taken out of the list
  have hperm := List.perm_cons_erase hmem
  have hothers : ∀ i ∈ s.iLookupTable.entries.erase id, s'.sizeAt i = s.sizeAt i := by
    intro i hi
    have hne : i ≠ id := by
      rintro rfl
      exact hs.table.nodup.not_mem_erase hi
    rw [CacheState.sizeAt, CacheState.sizeAt, h.others i hne]
  have hbefore : s.totalSize = e.size + ((s.iLookupTable.entries.erase id).map s.sizeAt).sum := by
    rw [CacheState.totalSize, (hperm.map s.sizeAt).sum_eq, List.map_cons, List.sum_cons,
      sizeAt_of_some h.entry]
  have hafter : s'.totalSize = e'.size + ((s.iLookupTable.entries.erase id).map s.sizeAt).sum := by
    rw [CacheState.totalSize, h.table, (hperm.map s'.sizeAt).sum_eq, List.map_cons,
      List.sum_cons, sizeAt_of_some h.entry', List.map_congr_left hothers]
  rw [h.content, hs.balance, hbefore, hafter]
  linarith

section Insert

variable [Platform]

theorem accountsStep_of_inserted {u : Des8} {id : EntryId} {s s' : CacheState}
    (h : TableInv s → Inserted u id s s') (hhistory : s.history <:+ s'.history) :
    AccountsStep s s' := by
  apply AccountsStep.of_accounts hhistory
  intro _ hs
  have hi := h hs.table
  refine ⟨hs.table.of_added hi.toAdded, ?_⟩
  have hnew : s'.sizeAt id = 0 := by
    obtain ⟨e, he, hcore, -⟩ := hi.entry
    rw [sizeAt_of_some he]
    exact congrArg (fun c : EntryCore => ((c.iHeaderSize.toNat + c.iBodySize : Nat) : Int)) hcore
  have hothers : ∀ i ∈ s.iLookupTable.entries, s'.sizeAt i = s.sizeAt i := by
    intro i hmem
    have hne : i ≠ id := by
      rintro rfl
      rw [hi.isNew] at hmem
      exact hs.table.not_mem_nextId hmem
    rw [CacheState.sizeAt, CacheState.sizeAt, hi.others i hne]
  rw [hi.content, hs.balance, CacheState.totalSize, CacheState.totalSize,
    (hi.table.map s'.sizeAt).sum_eq, List.map_cons, List.sum_cons, hnew, zero_add,
    List.map_congr_left hothers]

end Insert

/-! ## The functions the operations are made of -/

theorem accounts_of_sizeFrame {α : Type} {m : CacheM α} (h : Stays SizeFrame m) :
    Stays AccountsStep m :=
  h.mono fun _ _ => accountsStep_of_sizeFrame

theorem accounts_of_quiet {α : Type} {m : CacheM α} (h : Stays Quiet m) : Stays AccountsStep m :=
  h.mono fun _ _ hq => accountsStep_of_sizeFrame hq.sizeFrame

theorem accounts_erase (pos : Nat) : Stays AccountsStep (erase pos) := by
  intro s
  cases hslot : s.iLookupTable.entryAt pos with
  | none =>
      refine staysFrom_get ?_
      rw [hslot]
      exact StaysFrom.pure _
  | some id =>
      apply StaysFrom.of_step
      intro a s' hrun
      obtain ⟨e, herased⟩ := erase_spec hrun hslot
      exact accountsStep_of_erased herased

theorem accounts_removeHeaders (id : EntryId) : Stays AccountsStep (removeHeaders id) := by
  apply Stays.of_step
  intro s a s' hrun
  obtain ⟨e, he, hrun⟩ := getEntry_bind.1 hrun
  rw [addContentSize, modify_bind] at hrun
  obtain rfl := modifyEntry_at (e := e) hrun he
  apply accountsStep_of_resized
  refine ⟨he, heap_setEntry_self .., rfl, rfl, rfl, rfl, ?_, List.suffix_refl _, ?_⟩
  · show s.iContentSize + -(e.iHeaderSize.toNat : Int) =
      s.iContentSize + (((0 + e.iBodySize : Nat) : Int) - ((e.iHeaderSize.toNat + e.iBodySize : Nat) : Int))
    push_cast
    ring
  · intro i hi
    rw [heap_setEntry, if_neg hi]

theorem accounts_saveHeaders (io : Io) (id : EntryId) (header : Des8) {s : CacheState}
    (hzero : HeaderZero id s) : StaysFrom AccountsStep s (saveHeaders io id header) := by
  apply StaysFrom.of_step
  intro a s' hrun
  rw [saveHeaders, get_bind] at hrun
  split at hrun
  · obtain ⟨_, s₁, hcreate, hrun⟩ := bind_eq_some.1 hrun
    obtain ⟨e, he, rfl⟩ := modifyEntry_run.1 hcreate
    obtain ⟨e₁, he₁, hrun⟩ := getEntry_bind.1 hrun
    rw [heap_setEntry_self, Option.some.injEq] at he₁
    subst he₁
    rw [addContentSize, modify_bind] at hrun
    rw [pure_eq_some, Prod.mk.injEq] at hrun
    obtain ⟨-, rfl⟩ := hrun
    apply accountsStep_of_resized
    refine ⟨he, heap_setEntry_self .., rfl, rfl, rfl, rfl, ?_, List.suffix_refl _, ?_⟩
    · show s.iContentSize + ((UInt16.ofNat header.length).toNat : Int) = s.iContentSize +
        ((((UInt16.ofNat header.length).toNat + e.iBodySize : Nat) : Int) -
          ((e.iHeaderSize.toNat + e.iBodySize : Nat) : Int))
      rw [hzero e he]
      push_cast
      simp
    · intro i hi
      show (s.setEntry _ _).heap i = _
      rw [heap_setEntry, if_neg hi]
  · rw [pure_eq_some, Prod.mk.injEq] at hrun
    rw [hrun.2]
    exact fun h => h

theorem accounts_removeBodyData (id : EntryId) : Stays AccountsStep (removeBodyData id) := by
  intro s
  apply staysFrom_getEntry
  intro e he a s' hrun
  rw [addContentSize, modify_bind] at hrun
  obtain ⟨_, s₁, hsize, hrun⟩ := bind_eq_some.1 hrun
  have hstep : AccountsStep s s₁ := by
    obtain ⟨e', buckets, candidate, he', rfl⟩ := setBodySize_run hsize
    obtain rfl : e' = e := Option.some.inj (he'.symm.trans he)
    apply accountsStep_of_resized
    refine ⟨he, heap_setEntry_self .., rfl, rfl, rfl, rfl, ?_, List.suffix_refl _, ?_⟩
    · show s.iContentSize + -(e'.iBodySize : Int) = s.iContentSize +
        (((e'.iHeaderSize.toNat + 0 : Nat) : Int) -
          ((e'.iHeaderSize.toNat + e'.iBodySize : Nat) : Int))
      push_cast
      ring
    · intro i hi
      rw [heap_setEntry, if_neg hi]
      rfl
  apply (Relation.ReflTransGen.single hstep).trans
  refine (Stays.bind (accounts_of_quiet (quiet_resetBodyData id)) fun _ => ?_) s₁ a s' hrun
  refine Stays.bind (accounts_of_quiet (quiet_openBodyFile id)) fun opened => ?_
  refine Stays.whenM fun _ => Stays.bind ?_ fun _ => accounts_of_quiet (quiet_closeBodyFile id)
  exact accounts_of_quiet (quiet_modify_files _ fun s => s.openFiles)

theorem accounts_updateSizeInformation (id : EntryId) (n : Nat) :
    Stays AccountsStep (updateSizeInformation id n) := by
  apply Stays.of_step
  intro s a s' hrun
  obtain ⟨e, he, hrun⟩ := getEntry_bind.1 hrun
  obtain ⟨_, s₁, hsize, hrun⟩ := bind_eq_some.1 hrun
  obtain rfl := modify_run.1 hrun
  -- counting first and changing the size then gives the same state
  obtain ⟨e', buckets, candidate, he', rfl⟩ := setBodySize_run hsize
  rw [he, Option.some.injEq] at he'
  subst he'
  apply accountsStep_of_resized
  refine ⟨he, heap_setEntry_self .., rfl, rfl, rfl, rfl, ?_, List.suffix_refl _, ?_⟩
  · show s.iContentSize + (n : Int) = s.iContentSize +
      (((e.iHeaderSize.toNat + (e.iBodySize + n) : Nat) : Int) -
        ((e.iHeaderSize.toNat + e.iBodySize : Nat) : Int))
    push_cast
    ring
  · intro i hi
    show (CacheState.setEntry _ _ _).heap i = _
    rw [heap_setEntry, if_neg hi]
    rfl

/-- The body size that a refused body file costs is not taken from the counter, but then the
history says that the entry had a body. -/
theorem accountsStep_of_refused {s : CacheState} {id : EntryId} {e : CHttpCacheEntry}
    (he : s.heap id = some e) (buckets : Fin 5 → List EntryId) (candidate : Bool) :
    AccountsStep s (((s.noted (.createNewBodyFile false e.iBodySize)).withBuckets buckets).setEntry
      id (some { e with iBodySize := 0, iEvictionCandidate := candidate })) := by
  apply AccountsStep.of_accounts (List.suffix_cons _ _)
  intro hcalls hs
  have hzero : e.iBodySize = 0 := by
    rcases hcalls _ List.mem_cons_self with hfalse | hzero
    · exact absurd hfalse (by decide)
    · exact hzero
  have hframe : SizeFrame (s.withBuckets buckets) ((s.withBuckets buckets).setEntry id
      (some { e with iBodySize := 0, iEvictionCandidate := candidate })) := by
    apply sizeFrame_setEntry (s := s.withBuckets buckets) he
    rw [CHttpCacheEntry.sizes, CHttpCacheEntry.sizes, hzero]
    rfl
  refine ⟨hs.table.of_frame ⟨rfl, rfl, rfl, List.suffix_cons _ _, hframe.frame.names⟩, ?_⟩
  show s.iContentSize = _
  rw [hs.balance, CacheState.totalSize, CacheState.totalSize]
  congr 1
  exact List.map_congr_left fun i _ => (sizeAt_eq_of_map (hframe.sizes i)).symm

theorem accounts_createNewBodyFile (io : Io) (id : EntryId) :
    Stays AccountsStep (createNewBodyFile io id) := by
  intro s
  apply staysFrom_getEntry
  intro e he
  apply staysFrom_get
  intro a s' hrun
  rw [note, modify_bind] at hrun
  split at hrun
  · apply (Relation.ReflTransGen.single (accountsStep_of_sizeFrame ?_)).trans
      ((Stays.bind (accounts_of_quiet (quiet_modify_files _ _)) fun _ => ?_) _ a s' hrun)
    · exact ⟨rfl, rfl, rfl, rfl, List.suffix_cons _ _, fun _ => rfl⟩
    · exact Stays.bind (accounts_of_quiet (quiet_modifyEntry fun _ => rfl)) fun _ => Stays.pure _
  · next hrefused =>
      rw [decide_eq_false hrefused] at hrun
      obtain ⟨_, s₁, hsize, hrun⟩ := bind_eq_some.1 hrun
      obtain ⟨e', buckets, candidate, he', rfl⟩ := setBodySize_run hsize
      obtain rfl : e' = e := Option.some.inj (he'.symm.trans he)
      apply (Relation.ReflTransGen.single (accountsStep_of_refused he buckets candidate)).trans
      exact (Stays.bind (accounts_of_quiet (quiet_resetBodyData id)) fun _ => Stays.pure _)
        _ a s' hrun

section Admits

variable [Platform]

theorem accounts_deleteCacheEntry (id : EntryId) : Stays AccountsStep (deleteCacheEntry id) := by
  refine Stays.bind (accounts_of_quiet (quiet_removeEntry id)) fun _ => ?_
  refine Stays.bind (stays_getEntry id) fun e => Stays.bind Stays.get fun s => ?_
  refine Stays.bind (accounts_of_sizeFrame (sizeFrame_note _)) fun _ => ?_
  refine Stays.bind Stays.get fun s => ?_
  cases s.locate e.iUrl with
  | none => exact Stays.pure _
  | some found => exact accounts_erase found.1

omit [Platform] in
theorem accounts_evictStep {s s' : CacheState} (h : EvictStep s s') : AccountsStep s s' := by
  cases h with
  | idle h => exact accountsStep_of_sizeFrame h.sizeFrame
  | erased pos id e h _ => exact accountsStep_of_erased h

theorem admits_accounts : Admits AccountsStep fun _ => True where
  quiet _ _ h := accountsStep_of_sizeFrame h.sizeFrame
  eraseComplete _ _ _ := accounts_erase _ _
  space now size := (evictStep_cacheNeedsSpaceL now size).mono fun _ _ => accounts_evictStep
  deleteCacheEntry id _ := accounts_deleteCacheEntry id
  setState id st _ _ _ := accounts_of_sizeFrame (sizeFrame_setState id st)
  accessed now id := accounts_of_sizeFrame (sizeFrame_accessed now id)
  removeHeaders := accounts_removeHeaders
  saveHeaders io id header _ hzero := accounts_saveHeaders io id header hzero
  createNewBodyFile := accounts_createNewBodyFile
  removeBodyData := accounts_removeBodyData
  updateSizeInformation id n s _ := accounts_updateSizeInformation id n s
  bodyFileDeleteNeeded id := accounts_of_sizeFrame (sizeFrame_setBodyFileDeleteNeeded id true)
  bodyFileDeleted id s _ := accounts_of_sizeFrame (sizeFrame_setBodyFileDeleteNeeded id false) s

theorem accounts_insertL (now : Clock) (u : Des8) : Stays AccountsStep (insertL now u) := by
  apply Stays.of_step
  intro s a s' hrun
  apply accountsStep_of_inserted
  · intro ht
    exact (inserted_of_run ht hrun).2
  · exact grows_of_run (grows_insertL now u) hrun

theorem admitsMerge_accounts (map : Option (Des16 → Option Des8)) :
    AdmitsMerge AccountsStep map where
  insertL := accounts_insertL
  setState id := accounts_of_sizeFrame (sizeFrame_setState id _)
  accessedAt id la ref := accounts_of_sizeFrame (sizeFrame_accessedAt id la ref)
  erase _ _ _ pos _ _ _ _ _ := accounts_erase pos _

omit [Platform] in
/-- Setting the content size is harmless when it is set to its current value, and the history
tells. -/
theorem accounts_setSavedContentSize (s : CacheState) (total : Int) :
    StaysFrom AccountsStep s (do
      note (.setSavedContentSize s.iContentSize total)
      setSavedContentSize total) := by
  apply StaysFrom.of_step
  intro a s' hrun
  rw [note, modify_bind] at hrun
  obtain rfl := modify_run.1 hrun
  apply AccountsStep.of_accounts (List.suffix_cons _ _)
  intro hcalls hs
  have heq : s.iContentSize = total := hcalls _ List.mem_cons_self
  refine ⟨hs.table.of_frame ⟨rfl, rfl, rfl, List.suffix_cons _ _, fun _ => rfl⟩, ?_⟩
  show total = s.totalSize
  rw [← heq, hs.balance]

theorem accounts_op (op : Op) : Stays AccountsStep op.run := by
  have hsave : ∀ env t resp id, Stays AccountsStep (saveResponseHeaders env t resp id) :=
    fun env t resp id s => admits_accounts.saveResponseHeaders env t resp trivial
      (accounts_of_sizeFrame (sizeFrame_setState id _) s)
  apply Admits.op admits_accounts admitsMerge_accounts accounts_setSavedContentSize
  · intro env t resp id _ s _ _ _
    exact hsave env t resp id s
  · intro env t resp id _ s _
    apply StaysFrom.bind
    · exact StaysFrom.whenM fun _ => accounts_of_sizeFrame (sizeFrame_setProtected id) s
    · intro _ s₁ _
      exact hsave env t resp id s₁

/-! ## The runs of a cache -/

omit [Platform] in
theorem totalSize_initial (c : Construct) : c.initial.totalSize = 0 := by
  have hnil : c.initial.iLookupTable.entries = [] := entries_replicate_null _
  rw [CacheState.totalSize, hnil]
  rfl

omit [Platform] in
theorem totalSize_of_loaded {e : CHttpCacheEntry} {s s' : CacheState} (ht : TableInv s)
    (h : Loaded e s.nextId s s') : s'.totalSize = e.size + s.totalSize := by
  have hothers : ∀ i ∈ s.iLookupTable.entries, s'.sizeAt i = s.sizeAt i := by
    intro i hmem
    have hne : i ≠ s.nextId := by
      rintro rfl
      exact ht.not_mem_nextId hmem
    rw [CacheState.sizeAt, CacheState.sizeAt, h.others i hne]
  rw [CacheState.totalSize, CacheState.totalSize, (h.table.map s'.sizeAt).sum_eq, List.map_cons,
    List.sum_cons, sizeAt_of_some h.entry, List.map_congr_left hothers]
  rfl

/-- After `ConstructL` the content size is the total that was read. -/
theorem accounts_starts {c : Construct} {s : CacheState} (h : c.Starts s) : AccountsUnless s := by
  intro _
  obtain ⟨s₁, a, hload, rfl⟩ := h.run
  have hsum := loadEntries_invariant
    (I := fun s entries => s.totalSize + contentSizeOf entries = contentSizeOf c.entries)
    (fun s s' e entries ht _ hl hs => by
      rw [totalSize_of_loaded ht hl, ← hs, contentSizeOf, contentSizeOf, List.map_cons,
        List.sum_cons]
      ring)
    readEntry_of_construct (tableInv_initial c)
    (by rw [totalSize_initial, zero_add]) hload
  obtain ⟨ht, hbalance⟩ := hsum
  refine ⟨ht.of_frame ⟨rfl, rfl, rfl, List.suffix_refl _, fun _ => rfl⟩, ?_⟩
  show contentSizeOf c.entries = s₁.totalSize
  rw [← hbalance, contentSizeOf, List.map_nil, List.sum_nil, add_zero]

/-- In every run of a cache whose calls keep the accounts, the saved content size is the sum of
header and body sizes over the lookup table. -/
theorem savedContentSize_eq_totalSize {c : Construct} {s : CacheState}
    (h : Reaches Op.run c.Starts (fun _ _ => True) s)
    (hcalls : ∀ call ∈ s.history, call.keepsAccounts) : s.iContentSize = s.totalSize := by
  have hinv : AccountsUnless s := by
    apply h.invariant
    · intro s hs
      exact accounts_starts hs
    · intro op s _ hs a s' hrun
      exact invariant_of_chain (fun _ _ hstep => hstep) (accounts_op op s a s' hrun) hs
  exact (hinv hcalls).balance

end Admits

/-! ## The refused body file -/

section Refused

open Reference

/-- A file server that refuses to replace files. -/
def refusing : Env := { Reference.env with io := fun _ => { Reference.io with replaceOk := false } }

/-- A response that is saved leaves two bytes of headers and one of a body. -/
theorem savedContentSize_of_response : ∃ s,
    Reaches Op.run emptyCache.Starts (fun _ _ => True) s ∧ s.iContentSize = s.totalSize ∧
      s.totalSize = 3 := by
  have heval : (stateAfter emptyCache (responseOps [1] [2, 3] [7])).map (fun s =>
      (decide (∀ call ∈ s.history, call.keepsAccounts), s.totalSize)) = some (true, 3) := by
    decide +kernel
  obtain ⟨s, hs, heq⟩ := exists_run_of_eval heval
  rw [Prod.mk.injEq, decide_eq_true_eq] at heq
  exact ⟨s, hs, savedContentSize_eq_totalSize hs heq.1, heq.2⟩

/-- When the body file is refused the entry is erased, and one byte stays counted. -/
theorem savedContentSize_ne_totalSize : ¬ ∀ (c : Construct) (s : CacheState),
    Reaches Op.run c.Starts (fun _ _ => True) s → s.iContentSize = s.totalSize := by
  intro h
  have heval : (stateAfter emptyCache
      [.receivedResponseHeadersL Reference.env 0 (response [1] [2, 3]),
        .receivedResponseBodyDataL Reference.env 0 [7], .responseComplete refusing 0]).map
      (fun s => (s.iContentSize, s.totalSize)) = some (1, 0) := by
    decide +kernel
  obtain ⟨s, hs, heq⟩ := exists_run_of_eval heval
  rw [Prod.mk.injEq, h _ s hs] at heq
  omega

end Refused

end SymbianWeb.HttpCache
