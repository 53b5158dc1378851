import SymbianWeb.HttpCache.BucketRuns
import SymbianWeb.HttpCache.EvictionRoom

/-!
# The counts the eviction divides by

`Insert`, `Accessed`, `Remove` and `EvictL` divide the body size of an entry by its reference
count. `RefCall` lists the calls that divide and the calls that set a count, and
`RefCall.divisors` the divisors of one of them. A run of calls in any order (`CountRun`) covers
every state inside an operation, also inside one that ends in a fault (`countRun_of_reaches`).

The count has 16 bits. `Accessed()` makes it zero when it was 65535, and the index file and a merge
set it to a number that is not checked. Calls that do neither keep all counts away from zero.
-/

set_option autoImplicit false

namespace SymbianWeb.HttpCache

open FaultState ByteStream

/-! ## The counts in an index file -/

/-- `CHttpCacheEntry::InternalizeL` as far as it reads: the reference count, as 32 bits. -/
def readRef : Reader Nat := do
  let _ ← readDes8
  let _ ← readUnits kFilenameLength
  let _ ← readBytes 8
  let ref ← readLe 4
  let _ ← readLe 4
  let _ ← readLe 4
  let _ ← readInt32
  let _ ← readDes8
  pure ref

/-- The counts of the entries that can be read, as the file has them. -/
def storedRefs : Nat → Des8 → List Nat
  | 0, _ => []
  | n + 1, bytes =>
      match readRef bytes with
      | .ok (ref, rest) => ref :: storedRefs n rest
      | .error .eof => storedRefs n []
      | .error .panic => []

/-- What `Insert` divides by while the entries are read; a division by zero ends it. -/
def insertDivisors : Nat → Des8 → List Nat
  | 0, _ => []
  | n + 1, bytes =>
      match readRef bytes with
      | .ok (ref, rest) =>
          ref % 65536 :: if ref % 65536 = 0 then [] else insertDivisors n rest
      | .error .eof => insertDivisors n []
      | .error .panic => []

/-- `CHttpCacheLookupTable::InternalizeL` before its loop: the number of entries. -/
def readHead : Reader (Option Nat) := do
  let version ← readInt32
  if version = kCacheVersionNumber then do
    let len ← readInt32
    if len = 0 then pure none
    else if len < 0 then failWith .panic
    else do
      let _ ← readUnits len.toNat
      let count ← readInt32
      pure (some count.toNat)
  else pure none

/-- `f` of the number of entries in an index file and of what follows that number. -/
def ofIndex (f : Nat → Des8 → List Nat) (indexFile : Option Des8) : List Nat :=
  match indexFile with
  | none => []
  | some [] => []
  | some bytes =>
      match readHead bytes with
      | .ok (some count, rest) => f count rest
      | _ => []

/-- Every count in the index file is different from zero in its lower 16 bits. -/
def RefsStored (indexFile : Option Des8) : Prop :=
  ∀ ref ∈ ofIndex storedRefs indexFile, ref % 65536 ≠ 0

theorem insertDivisors_ne_zero_iff (n : Nat) (bytes : Des8) :
    (∀ d ∈ insertDivisors n bytes, d ≠ 0) ↔ ∀ ref ∈ storedRefs n bytes, ref % 65536 ≠ 0 := by
  induction n generalizing bytes with
  | zero => simp [insertDivisors, storedRefs]
  | succ n ih =>
      rw [insertDivisors, storedRefs]
      cases hread : readRef bytes with
      | error x =>
          cases x with
          | eof => exact ih []
          | panic => simp
      | ok p =>
          obtain ⟨ref, rest⟩ := p
          simp only [List.forall_mem_cons]
          apply and_congr_right
          intro href
          rw [if_neg href]
          exact ih rest

/-- No division by zero occurs while an index file is read, if and only if all its counts are
different from zero in their lower 16 bits. -/
theorem index_divisors_ne_zero_iff (indexFile : Option Des8) :
    (∀ d ∈ ofIndex insertDivisors indexFile, d ≠ 0) ↔ RefsStored indexFile := by
  unfold RefsStored ofIndex
  split
  · simp
  · simp
  · split
    · exact insertDivisors_ne_zero_iff _ _
    · simp

section Index

variable [Platform]

omit [Platform] in
/-- Two readers that read the same first, and are related behind it, are related. -/
theorem related_bind {α β γ : Type} {P : Except StreamError (α × Des8) →
    Except StreamError (β × Des8) → Prop} (herror : ∀ x, P (.error x) (.error x)) {r : Reader γ}
    {k : γ → Reader α} {k' : γ → Reader β} (h : ∀ c bytes, P (k c bytes) (k' c bytes))
    (bytes : Des8) : P ((r >>= k) bytes) ((r >>= k') bytes) := by
  show P ((r bytes).bind fun p => k p.1 p.2) ((r bytes).bind fun p => k' p.1 p.2)
  cases r bytes with
  | error x => exact herror x
  | ok p => exact h p.1 p.2

/-- The reader of an entry is `readRef`, except that it stops at a division by zero. -/
theorem internalizeEntryL_eq (dir : Des16) (bytes : Des8) :
    (internalizeEntryL dir bytes).map (fun p => (p.1.iRef.toNat, p.2)) =
      (readRef bytes).bind fun p =>
        if p.1 % 65536 = 0 then .error .panic else .ok (p.1 % 65536, p.2) := by
  unfold internalizeEntryL readRef
  simp only [bind_map_left]
  let P : Except StreamError (CHttpCacheEntry × Des8) → Except StreamError (Nat × Des8) → Prop :=
    fun x y => x.map (fun p => (p.1.iRef.toNat, p.2)) =
      y.bind fun p => if p.1 % 65536 = 0 then .error .panic else .ok (p.1 % 65536, p.2)
  have herror : ∀ x, P (.error x) (.error x) := fun _ => rfl
  revert bytes
  show ∀ bytes, P _ _
  apply related_bind herror
  intro url
  apply related_bind herror
  intro uniqueFilename
  apply related_bind herror
  intro la
  apply related_bind herror
  intro ref
  apply related_bind herror
  intro bodySize
  apply related_bind herror
  intro headerSize
  apply related_bind herror
  intro isProtected
  apply related_bind herror
  intro header bytes
  have htoNat : (UInt16.ofNat ref).toNat = ref % 65536 := UInt16.toNat_ofNat'
  have hzero : UInt16.ofNat ref = 0 ↔ ref % 65536 = 0 := by
    rw [← htoNat, ← UInt16.toNat_inj]
    rfl
  by_cases href : ref % 65536 = 0
  · rw [if_pos (hzero.2 href)]
    show Except.error _ = if ref % 65536 = 0 then _ else _
    rw [if_pos href]
  · rw [if_neg (mt hzero.1 href)]
    show Except.ok (_, bytes) = if ref % 65536 = 0 then _ else _
    rw [if_neg href, ← htoNat]

/-- Entries that have been read without a panic have no count that is zero. -/
theorem storedRefs_of_internalizeEntries {dir : Des16} {n : Nat} {bytes : Des8}
    (h : internalizeEntries dir n bytes ≠ .error .panic) :
    ∀ ref ∈ storedRefs n bytes, ref % 65536 ≠ 0 := by
  induction n generalizing bytes with
  | zero => simp [storedRefs]
  | succ n ih =>
      have heq := internalizeEntryL_eq dir bytes
      simp only [internalizeEntries] at h
      rw [storedRefs]
      cases hread : readRef bytes with
      | error x =>
          rw [hread] at heq
          cases hentry : internalizeEntryL dir bytes with
          | ok q =>
              rw [hentry] at heq
              cases heq
          | error y =>
              rw [hentry] at heq h
              cases heq
              cases x with
              | eof => exact ih h
              | panic => exact absurd rfl h
      | ok q =>
          obtain ⟨ref, rest⟩ := q
          rw [hread] at heq
          change _ = if ref % 65536 = 0 then _ else _ at heq
          cases hentry : internalizeEntryL dir bytes with
          | error y =>
              -- a division by zero ends the loop
              rw [hentry] at heq h
              split at heq
              · cases heq
                exact absurd rfl h
              · cases heq
          | ok e =>
              obtain ⟨e, left⟩ := e
              rw [hentry] at heq h
              split at heq
              · cases heq
              · next href =>
                  obtain rfl : left = rest := (Prod.mk.inj (Except.ok.inj heq)).2
                  rw [List.forall_mem_cons]
                  refine ⟨href, ih fun htail => h ?_⟩
                  simp only [htail]
                  rfl

/-- `InternalizeL` reads the head, and then the entries. -/
theorem internalizeL_of_readHead {dir : Des16} {bytes rest : Des8} {count : Nat}
    (h : readHead bytes = .ok (some count, rest)) :
    internalizeL dir bytes = (some <$> internalizeEntries dir count) rest := by
  let P : Except StreamError (Option (List CHttpCacheEntry) × Des8) →
      Except StreamError (Option Nat × Des8) → Prop := fun x y =>
    ∀ count rest, y = .ok (some count, rest) → x = (some <$> internalizeEntries dir count) rest
  have herror : ∀ x, P (.error x) (.error x) := by
    intro x count rest h
    cases h
  have hnone : ∀ bytes, P ((pure none : Reader _) bytes) ((pure none : Reader _) bytes) := by
    intro bytes count rest h
    cases h
  suffices hall : ∀ bytes, P (internalizeL dir bytes) (readHead bytes) from
    hall bytes count rest h
  apply related_bind herror
  intro version bytes
  by_cases hversion : version = kCacheVersionNumber
  · simp only [if_pos hversion]
    revert bytes
    apply related_bind herror
    intro len bytes
    by_cases hlen : len = 0
    · simp only [if_pos hlen]
      exact hnone bytes
    · by_cases hneg : len < 0
      · simp only [if_neg hlen, if_pos hneg]
        exact herror _
      · simp only [if_neg hlen, if_neg hneg]
        revert bytes
        apply related_bind herror
        intro stub
        apply related_bind herror
        intro number bytes count rest h
        cases h
        rfl
  · simp only [if_neg hversion]
    exact hnone bytes

/-- An index file that `OpenLookupTableL` reads without a panic has no count that is zero. -/
theorem refsStored_of_openLookupTableL {dir : Des16} {indexFile : Option Des8} {read : IndexRead}
    (h : openLookupTableL dir indexFile = some read) : RefsStored indexFile := by
  unfold RefsStored ofIndex
  split
  · simp
  · simp
  · next bytes hbytes =>
      split
      · next count rest hhead =>
          have hread : internalizeL dir bytes = _ := internalizeL_of_readHead hhead
          simp only [openLookupTableL, hread] at h
          refine storedRefs_of_internalizeEntries (show internalizeEntries dir count rest ≠ _ from ?_)
          intro hpanic
          have hmap : (some <$> internalizeEntries dir count) rest = .error .panic := by
            show (internalizeEntries dir count rest).bind _ = _
            rw [hpanic]
            rfl
          rw [hmap] at h
          cases h
      · simp

end Index

/-! ## The calls and their divisors -/

/-- `f` of an entry, if there is one. -/
def CacheState.ofEntry (s : CacheState) (id : EntryId) (f : CHttpCacheEntry → List Nat) :
    List Nat :=
  match s.heap id with
  | some e => f e
  | none => []

/-- `CHttpCacheEvictionHandler::Accessed`: nothing is divided for the first access. -/
def accessedDivisors (ref : UInt16) : List Nat :=
  if 1 < ref.toNat then [ref.toNat - 1, ref.toNat] else []

/-- One `for` loop of `EvictL`: the first entry of each bucket, if it may be taken. -/
def bucketDivisors (s : CacheState) : List Nat :=
  ([0, 1, 2, 3, 4] : List (Fin 5)).flatMap fun i =>
    match s.iBuckets i with
    | [] => []
    | id :: _ => s.ofEntry id fun e => if e.Evictable then [e.iRef.toNat] else []

/-- `EvictL`, one round after the other. -/
def evictDivisors (now : Clock) : Nat → Int → CacheState → List Nat
  | 0, _, _ => []
  | fuel + 1, aSpaceNeeded, s =>
      if 0 < aSpaceNeeded then
        bucketDivisors s ++
          match (pickCandidate s now).bind EvictPick.candidate with
          | none => []
          | some (i, id) => s.ofEntry id fun e =>
              evictDivisors now fuel (aSpaceNeeded - e.iBodySize - e.iHeaderSize.toNat)
                (s.taken i id)
      else []

/-- The calls that divide by a reference count or set one. `openLookupTableL` reads the index
file into another table, as `UpdateLookupTable` does. -/
inductive RefCall where
  | constructL (env : Env)
  | openLookupTableL (env : Env)
  | insertL (now : Clock) (aUrl : Des8)
  | setState (id : EntryId) (aState : TCacheEntryState)
  | accessed (now : Clock) (id : EntryId)
  | accessedAt (id : EntryId) (aLastAccessed : Int) (aRef : UInt16)
  | setProtected (id : EntryId)
  | setBodySize (id : EntryId) (aBodySize : Nat)
  | deleteEntry (id : EntryId)
  | evictL (now : Clock) (aSpaceNeeded : Int)

/-- The index file as `OpenLookupTableL` finds it. -/
def CacheState.indexSeen (s : CacheState) (env : Env) : Option Des8 :=
  if env.indexOk then s.iIndexFile else none

/-- What a call divides by. A new entry is no eviction candidate, so `InsertL` does not divide. -/
def RefCall.divisors : RefCall → CacheState → List Nat
  | .constructL env, s => ofIndex insertDivisors (s.indexSeen env)
  | .openLookupTableL env, s => ofIndex insertDivisors (s.indexSeen env)
  | .insertL _ _, _ => []
  | .setState id aState, s => s.ofEntry id fun e =>
      if aState = .eCacheComplete ∧ e.iEvictionCandidate = false then [e.iRef.toNat] else []
  | .accessed _ id, s => s.ofEntry id fun e =>
      if e.iEvictionCandidate then accessedDivisors (e.iRef + 1) else []
  | .accessedAt id _ aRef, s => s.ofEntry id fun e =>
      if e.iEvictionCandidate then accessedDivisors aRef else []
  | .setProtected _, _ => []
  | .setBodySize id aBodySize, s => s.ofEntry id fun e =>
      if e.iBodySize ≠ 0 ∧ aBodySize = 0 ∧ e.iEvictionCandidate = true then [e.iRef.toNat] else []
  | .deleteEntry id, s => s.ofEntry id fun e =>
      if e.iEvictionCandidate then [e.iRef.toNat] else []
  | .evictL now aSpaceNeeded, s =>
      evictDivisors now (bucketCount s.iBuckets + 1) aSpaceNeeded s

/-- The call sets no count to zero. -/
def RefCall.KeepsCounts : RefCall → CacheState → Prop
  | .constructL env, s => RefsStored (s.indexSeen env)
  | .openLookupTableL env, s => RefsStored (s.indexSeen env)
  | .accessed _ id, s => ∀ e, s.heap id = some e → e.iRef ≠ 65535
  | .accessedAt _ _ aRef, _ => aRef ≠ 0
  | _, _ => True

/-- Run a call. -/
def RefCall.run [Platform] : RefCall → CacheM Unit
  | .constructL env => HttpCache.constructL env
  | .openLookupTableL env => fun s =>
      (HttpCache.openLookupTableL s.iDirectory (s.indexSeen env)).map fun _ => ((), s)
  | .insertL now aUrl => HttpCache.insertL now aUrl >>= fun _ => pure ()
  | .setState id aState => HttpCache.setState id aState
  | .accessed now id => HttpCache.accessed now id
  | .accessedAt id aLastAccessed aRef => HttpCache.accessedAt id aLastAccessed aRef
  | .setProtected id => HttpCache.setProtected id
  | .setBodySize id aBodySize => HttpCache.setBodySize id aBodySize
  | .deleteEntry id => HttpCache.deleteEntry id
  | .evictL now aSpaceNeeded => HttpCache.evictL now aSpaceNeeded >>= fun _ => pure ()

/-- What the rest of the code does: it makes no entry and sets no count. -/
def RefFrame (s s' : CacheState) : Prop :=
  s.history <:+ s'.history ∧ Survives CHttpCacheEntry.iRef s s'

/-- The states of the runs of calls that all meet `ok`, with anything in between that concerns no
count. -/
inductive CountRun [Platform] (ok : RefCall → CacheState → Prop) (c : Construct) :
    CacheState → Prop where
  | start : CountRun ok c c.initial
  | call {s s' : CacheState} {a : Unit} (call : RefCall) (h : CountRun ok c s) (hok : ok call s)
      (hrun : call.run s = some (a, s')) : CountRun ok c s'
  | other {s s' : CacheState} (h : CountRun ok c s) (hframe : RefFrame s s') : CountRun ok c s'

/-! ## The divisors and the faults of the model -/

section Faults

variable {s : CacheState} {id : EntryId} {e : CHttpCacheEntry}

theorem ofEntry_of (he : s.heap id = some e) (f : CHttpCacheEntry → List Nat) :
    s.ofEntry id f = f e := by
  rw [CacheState.ofEntry, he]

theorem forall_ite_nil {p : Prop} [Decidable p] {l : List Nat} {q : Nat → Prop} :
    (∀ d ∈ if p then l else [], q d) ↔ (p → ∀ d ∈ l, q d) := by
  by_cases hp : p
  · rw [if_pos hp]
    exact ⟨fun h _ => h, fun h => h hp⟩
  · rw [if_neg hp]
    exact ⟨fun _ h => absurd h hp, fun _ => List.forall_mem_nil _⟩

theorem toNat_ref_ne_zero_iff (ref : UInt16) : ref.toNat ≠ 0 ↔ ref ≠ 0 := by
  rw [not_iff_not, ← UInt16.toNat_inj]
  rfl

theorem evictionInsert_of (he : s.heap id = some e) (href : e.iRef ≠ 0) :
    evictionInsert id s = some ((), s.withBuckets
      (Function.update s.iBuckets e.bucket (s.iBuckets e.bucket ++ [id]))) := by
  rw [evictionInsert, bind_of (getEntry_of he), guardM_of href]
  rfl

theorem evictionRemove_of (he : s.heap id = some e) (href : e.iRef ≠ 0) :
    ∃ buckets, evictionRemove id s = some ((), s.withBuckets buckets) := by
  rw [evictionRemove, bind_of (getEntry_of he), guardM_of href]
  by_cases hmem : id ∈ s.iBuckets e.bucket
  · refine ⟨Function.update s.iBuckets e.bucket ((s.iBuckets e.bucket).erase id), ?_⟩
    show whenM (id ∈ s.iBuckets e.bucket) _ s = _
    rw [whenM_of hmem]
    rfl
  · refine ⟨s.iBuckets, ?_⟩
    show whenM (id ∈ s.iBuckets e.bucket) _ s = _
    rw [whenM_of_not hmem]
    rfl

/-- `SetState` of an entry fails only in the division of `Insert`. -/
theorem setState_isSome_iff (he : s.heap id = some e) (aState : TCacheEntryState) :
    (setState id aState s).isSome ↔ ∀ d ∈ (RefCall.setState id aState).divisors s, d ≠ 0 := by
  rw [RefCall.divisors, ofEntry_of he, forall_ite_nil]
  by_cases hcase : aState = .eCacheComplete ∧ e.iEvictionCandidate = false
  · rw [forall_prop_of_true hcase, List.forall_mem_singleton, toNat_ref_ne_zero_iff]
    constructor
    · intro hsome
      obtain ⟨⟨a, s'⟩, hrun⟩ := Option.isSome_iff_exists.1 hsome
      obtain ⟨rfl, hcand⟩ := hcase
      exact (setState_complete_run he hcand hrun).1
    · intro href
      have he' : (s.withBuckets (Function.update s.iBuckets e.bucket
        (s.iBuckets e.bucket ++ [id]))).heap id = some e := he
      rw [setState, bind_of (getEntry_of he), whenM_of hcase,
        bind_of ((bind_of (evictionInsert_of he href)).trans (modifyEntry_of he')),
        modifyEntry_of (heap_setEntry_self ..)]
      rfl
  · rw [setState, bind_of (getEntry_of he), whenM_of_not hcase]
    refine iff_of_true ?_ fun h => absurd h hcase
    show (modifyEntry id _ s).isSome
    rw [modifyEntry_of he]
    rfl

/-- `SetBodySize` of an entry fails only in the division of `Remove`. -/
theorem setBodySize_isSome_iff (he : s.heap id = some e) (aBodySize : Nat) :
    (setBodySize id aBodySize s).isSome ↔
      ∀ d ∈ (RefCall.setBodySize id aBodySize).divisors s, d ≠ 0 := by
  rw [RefCall.divisors, ofEntry_of he, forall_ite_nil]
  by_cases hcase : e.iBodySize ≠ 0 ∧ aBodySize = 0 ∧ e.iEvictionCandidate = true
  · rw [forall_prop_of_true hcase, List.forall_mem_singleton, toNat_ref_ne_zero_iff, setBodySize,
      bind_of (getEntry_of he), whenM_of hcase]
    constructor
    · intro hsome
      obtain ⟨⟨a, s'⟩, hrun⟩ := Option.isSome_iff_exists.1 hsome
      obtain ⟨_, s₁, hremove, -⟩ := bind_eq_some.1 hrun
      obtain ⟨_, s₂, hqueue, -⟩ := bind_eq_some.1 hremove
      obtain ⟨e', he', href, -⟩ := evictionRemove_run hqueue
      rw [he, Option.some.injEq] at he'
      rw [he']
      exact href
    · intro href
      obtain ⟨buckets, hremove⟩ := evictionRemove_of he href
      have he' : (s.withBuckets buckets).heap id = some e := he
      rw [bind_of ((bind_of hremove).trans (modifyEntry_of he')),
        modifyEntry_of (heap_setEntry_self ..)]
      rfl
  · rw [setBodySize, bind_of (getEntry_of he), whenM_of_not hcase]
    refine iff_of_true ?_ fun h => absurd h hcase
    show (modifyEntry id _ s).isSome
    rw [modifyEntry_of he]
    rfl

/-- The `for` loop of `EvictL` over buckets of existing entries fails only in its division. -/
theorem pickCandidate_isSome_iff (hlive : ∀ i, ∀ id ∈ s.iBuckets i, ∃ e, s.heap id = some e)
    (now : Clock) : (pickCandidate s now).isSome ↔ ∀ d ∈ bucketDivisors s, d ≠ 0 := by
  unfold pickCandidate bucketDivisors
  generalize (⟨-1, now.secInt, none⟩ : EvictPick) = pick
  generalize ([0, 1, 2, 3, 4] : List (Fin 5)) = buckets
  induction buckets generalizing pick with
  | nil => simp
  | cons i buckets ih =>
      rw [List.foldlM_cons, List.flatMap_cons]
      simp only [List.forall_mem_append]
      have hstep : ((considerBucket s now.homeTime pick i).isSome ↔ ∀ d ∈ (match s.iBuckets i with
          | [] => []
          | id :: _ => s.ofEntry id fun e => if e.Evictable then [e.iRef.toNat] else []),
          d ≠ 0) := by
        cases hbucket : s.iBuckets i with
        | nil => simp [considerBucket, hbucket]
        | cons id rest =>
            obtain ⟨e, he⟩ := hlive i id (by rw [hbucket]; exact List.mem_cons_self)
            simp only [considerBucket, hbucket, he, ofEntry_of he, forall_ite_nil]
            by_cases hevict : e.iState = .eCacheComplete ∧ e.bodyDataPartiallyWritten = false
            · have hmay : e.Evictable := hevict
              rw [if_pos hevict, forall_prop_of_true hmay, List.forall_mem_singleton,
                toNat_ref_ne_zero_iff]
              by_cases href : e.iRef = 0
              · simp [href]
              · rw [if_neg href]
                refine iff_of_true ?_ href
                split
                · rfl
                · rfl
            · rw [if_neg hevict]
              exact iff_of_true rfl fun h => absurd h hevict
      rw [← hstep]
      cases hpick : considerBucket s now.homeTime pick i with
      | none => simp
      | some pick' =>
          rw [Option.isSome_some, ← ih pick']
          simp

end Faults

/-! ## The invariant -/

/-- No count is zero. -/
def Counted (s : CacheState) : Prop := ∀ id e, s.heap id = some e → e.iRef ≠ 0

theorem Counted.ofEntry {s : CacheState} (h : Counted s) {id : EntryId}
    {f : CHttpCacheEntry → List Nat} (hf : ∀ e, e.iRef ≠ 0 → ∀ d ∈ f e, d ≠ 0) :
    ∀ d ∈ s.ofEntry id f, d ≠ 0 := by
  unfold CacheState.ofEntry
  cases he : s.heap id with
  | none => exact List.forall_mem_nil _
  | some e => exact hf e (h id e he)

/-- A division by the count of an entry itself. -/
theorem ref_divisor_ne_zero {p : Prop} [Decidable p] {e : CHttpCacheEntry} (href : e.iRef ≠ 0) :
    ∀ d ∈ if p then [e.iRef.toNat] else [], d ≠ 0 := by
  rw [forall_ite_nil]
  intro _
  rw [List.forall_mem_singleton, toNat_ref_ne_zero_iff]
  exact href

/-- `Accessed` divides only when the old count, one less, is positive too. -/
theorem accessedDivisors_ne_zero (ref : UInt16) : ∀ d ∈ accessedDivisors ref, d ≠ 0 := by
  unfold accessedDivisors
  rw [forall_ite_nil]
  intro hlt d hd
  simp only [List.mem_cons, List.not_mem_nil, or_false] at hd
  omega

theorem Counted.bucketDivisors {s : CacheState} (h : Counted s) :
    ∀ d ∈ bucketDivisors s, d ≠ 0 := by
  intro d hd
  obtain ⟨i, -, hd⟩ := List.mem_flatMap.1 hd
  cases hbucket : s.iBuckets i with
  | nil =>
      rw [hbucket] at hd
      cases hd
  | cons id rest =>
      rw [hbucket] at hd
      exact h.ofEntry (fun e href => ref_divisor_ne_zero href) d hd

/-- The rounds of `EvictL` take entries out of the buckets, and change no count. -/
theorem Counted.evictDivisors {s : CacheState} (h : Counted s) (now : Clock) (fuel : Nat)
    (aSpaceNeeded : Int) : ∀ d ∈ evictDivisors now fuel aSpaceNeeded s, d ≠ 0 := by
  induction fuel generalizing s aSpaceNeeded with
  | zero => exact List.forall_mem_nil _
  | succ fuel ih =>
      rw [HttpCache.evictDivisors, forall_ite_nil]
      intro _
      rw [List.forall_mem_append]
      refine ⟨h.bucketDivisors, ?_⟩
      cases (pickCandidate s now).bind EvictPick.candidate with
      | none => exact List.forall_mem_nil _
      | some found =>
          obtain ⟨i, id⟩ := found
          have htaken : Counted (s.taken i id) := h
          exact h.ofEntry fun e _ => ih htaken _

/-- As long as no count is zero, a call that keeps it so divides by no zero. -/
theorem Counted.divisors {s : CacheState} (h : Counted s) {call : RefCall}
    (hcall : call.KeepsCounts s) : ∀ d ∈ call.divisors s, d ≠ 0 := by
  cases call with
  | constructL env => exact (index_divisors_ne_zero_iff _).2 hcall
  | openLookupTableL env => exact (index_divisors_ne_zero_iff _).2 hcall
  | insertL now url => exact List.forall_mem_nil _
  | setState id st => exact h.ofEntry fun e href => ref_divisor_ne_zero href
  | accessed now id =>
      apply h.ofEntry
      intro e _
      rw [forall_ite_nil]
      exact fun _ => accessedDivisors_ne_zero _
  | accessedAt id lastAccessed ref =>
      apply h.ofEntry
      intro e _
      rw [forall_ite_nil]
      exact fun _ => accessedDivisors_ne_zero _
  | setProtected id => exact List.forall_mem_nil _
  | setBodySize id n => exact h.ofEntry fun e href => ref_divisor_ne_zero href
  | deleteEntry id => exact h.ofEntry fun e href => ref_divisor_ne_zero href
  | evictL now space => exact h.evictDivisors now _ space

/-! ## What the calls do to the counts -/

theorem RefFrame.refl (s : CacheState) : RefFrame s s :=
  ⟨List.suffix_refl _, Survives.of_map fun _ => rfl⟩

theorem RefFrame.trans {s₁ s₂ s₃ : CacheState} (h : RefFrame s₁ s₂) (h' : RefFrame s₂ s₃) :
    RefFrame s₁ s₃ :=
  ⟨h.1.trans h'.1, h.2.trans h'.2⟩

theorem Counted.of_frame {s s' : CacheState} (h : Counted s) (hframe : RefFrame s s') :
    Counted s' := by
  intro id e' he'
  obtain ⟨e, he, href⟩ := hframe.2 id e' he'
  rw [href]
  exact h id e he

theorem refFrame_of {α : Type} {m : CacheM α} (h : Stays RefFrame m) {s s' : CacheState} {a : α}
    (hm : m s = some (a, s')) : RefFrame s s' :=
  related_of_chain RefFrame.refl (fun _ _ _ => RefFrame.trans) (h s a s' hm)

theorem Quiet.refFrame {s s' : CacheState} (h : Quiet s s') : RefFrame s s' :=
  ⟨by rw [h.history], (Survives.of_map h.core).comp EntryCore.iRef⟩

theorem refFrame_of_quiet {α : Type} {m : CacheM α} (h : Stays Quiet m) : Stays RefFrame m :=
  h.mono fun _ _ => Quiet.refFrame

theorem EvictStep.refFrame {s s' : CacheState} (h : EvictStep s s') : RefFrame s s' :=
  ⟨h.history, h.survives.comp EntryCore.iRef⟩

theorem refFrame_modifyEntry {id : EntryId} {f : CHttpCacheEntry → CHttpCacheEntry}
    (hf : ∀ e, (f e).iRef = e.iRef) : Stays RefFrame (modifyEntry id f) :=
  stays_modifyEntry fun _ e he =>
    ⟨List.suffix_refl _, Survives.of_map (map_setEntry he (hf e))⟩

theorem refFrame_modify {f : CacheState → CacheState} (hheap : ∀ s, (f s).heap = s.heap)
    (hhistory : ∀ s, s.history <:+ (f s).history) : Stays RefFrame (modify f : CacheM PUnit) :=
  stays_modify fun s => ⟨hhistory s, Survives.of_map fun i => by rw [hheap]⟩

theorem refFrame_note (c : Call) : Stays RefFrame (note c) :=
  refFrame_modify (fun _ => rfl) fun _ => List.suffix_cons _ _

theorem refFrame_addContentSize (n : Int) : Stays RefFrame (addContentSize n) :=
  refFrame_modify (fun _ => rfl) fun _ => List.suffix_refl _

theorem refFrame_setBucket (i : Fin 5) (queue : List EntryId) :
    Stays RefFrame (setBucket i queue) :=
  refFrame_modify (fun _ => rfl) fun _ => List.suffix_refl _

theorem refFrame_evictionRemove (id : EntryId) : Stays RefFrame (evictionRemove id) := by
  refine Stays.bind (stays_getEntry id) fun e => Stays.bind Stays.guardM fun _ => ?_
  exact Stays.bind Stays.get fun s => Stays.whenM fun _ => refFrame_setBucket _ _

theorem refFrame_evictionAccessed (id : EntryId) : Stays RefFrame (evictionAccessed id) := by
  refine Stays.bind (stays_getEntry id) fun e => Stays.bind Stays.get fun s => ?_
  refine Stays.ite (fun _ => ?_) fun _ => Stays.pure _
  refine Stays.ite (fun _ => ?_) fun _ => Stays.pure _
  refine Stays.ite (fun _ => Stays.whenM fun _ => refFrame_setBucket _ _) fun _ => ?_
  exact Stays.bind (refFrame_setBucket _ _) fun _ => refFrame_setBucket _ _

theorem refFrame_setState (id : EntryId) (st : TCacheEntryState) :
    Stays RefFrame (setState id st) := by
  refine Stays.bind (stays_getEntry id) fun e => ?_
  refine Stays.bind (Stays.whenM fun _ => ?_) fun _ => refFrame_modifyEntry fun _ => rfl
  have hinsert : Stays RefFrame (evictionInsert id) := by
    refine Stays.bind (stays_getEntry id) fun e => Stays.bind Stays.guardM fun _ => ?_
    exact Stays.bind Stays.get fun s => refFrame_setBucket _ _
  exact Stays.bind hinsert fun _ => refFrame_modifyEntry fun _ => rfl

theorem refFrame_setBodySize (id : EntryId) (n : Nat) : Stays RefFrame (setBodySize id n) := by
  refine Stays.bind (stays_getEntry id) fun e => ?_
  refine Stays.bind (Stays.whenM fun _ => ?_) fun _ => refFrame_modifyEntry fun _ => rfl
  exact Stays.bind (refFrame_evictionRemove id) fun _ => refFrame_modifyEntry fun _ => rfl

theorem refFrame_deleteEntry (id : EntryId) : Stays RefFrame (deleteEntry id) := by
  refine Stays.bind (stays_getEntry id) fun e => ?_
  refine Stays.bind (Stays.whenM fun _ => refFrame_evictionRemove id) fun _ => ?_
  refine Stays.bind (Stays.whenM fun _ => refFrame_of_quiet (quiet_removeEntry id)) fun _ => ?_
  refine Stays.bind (refFrame_of_quiet (quiet_closeBodyFile id)) fun _ => ?_
  refine Stays.bind Stays.guardM fun _ => stays_modify fun s => ⟨List.suffix_refl _, ?_⟩
  intro i e' he'
  rw [heap_setEntry] at he'
  split at he'
  · cases he'
  · exact ⟨e', he', rfl⟩

/-- `erase`, at any position. -/
theorem refFrame_erase (pos : Nat) : Stays RefFrame (erase pos) := by
  refine Stays.bind Stays.get fun s => ?_
  cases s.iLookupTable.entryAt pos with
  | none => exact Stays.pure _
  | some id =>
      apply Stays.bind
      · refine Stays.bind (refFrame_of_quiet (quiet_cancelBodyWrite id)) fun _ => ?_
        refine Stays.bind (stays_getEntry id) fun e => ?_
        refine Stays.bind (refFrame_of_quiet (quiet_deleteFile _)) fun _ => ?_
        exact Stays.bind (refFrame_addContentSize _) fun _ => refFrame_addContentSize _
      · intro _
        refine Stays.bind (refFrame_modify (fun _ => rfl) fun _ => List.suffix_refl _) fun _ => ?_
        exact refFrame_deleteEntry id

theorem refFrame_removeHeaders (id : EntryId) : Stays RefFrame (removeHeaders id) := by
  refine Stays.bind (stays_getEntry id) fun e => Stays.bind (refFrame_addContentSize _) fun _ => ?_
  exact refFrame_modifyEntry fun _ => rfl

theorem refFrame_saveHeaders (io : Io) (id : EntryId) (header : Des8) :
    Stays RefFrame (saveHeaders io id header) := by
  refine Stays.bind Stays.get fun s => Stays.ite (fun _ => ?_) fun _ => Stays.pure _
  have hcreate : Stays RefFrame (createHeaderBufferL id header) :=
    refFrame_modifyEntry fun _ => rfl
  refine Stays.bind hcreate fun _ => Stays.bind (stays_getEntry id) fun e => ?_
  exact Stays.bind (refFrame_addContentSize _) fun _ => Stays.pure _

theorem refFrame_createNewBodyFile (io : Io) (id : EntryId) :
    Stays RefFrame (createNewBodyFile io id) := by
  refine Stays.bind (stays_getEntry id) fun e => Stays.bind Stays.get fun s => ?_
  refine Stays.bind (refFrame_note _) fun _ => Stays.ite (fun _ => ?_) fun _ => ?_
  · refine Stays.bind (refFrame_of_quiet (quiet_modify_files _ _)) fun _ => ?_
    exact Stays.bind (refFrame_modifyEntry fun _ => rfl) fun _ => Stays.pure _
  · refine Stays.bind (refFrame_setBodySize id 0) fun _ => ?_
    exact Stays.bind (refFrame_of_quiet (quiet_resetBodyData id)) fun _ => Stays.pure _

theorem refFrame_removeBodyData (id : EntryId) : Stays RefFrame (removeBodyData id) := by
  refine Stays.bind (stays_getEntry id) fun e => Stays.bind (refFrame_addContentSize _) fun _ => ?_
  refine Stays.bind (refFrame_setBodySize id 0) fun _ => ?_
  refine Stays.bind (refFrame_of_quiet (quiet_resetBodyData id)) fun _ => ?_
  refine Stays.bind (refFrame_of_quiet (quiet_openBodyFile id)) fun opened => ?_
  refine Stays.whenM fun _ => Stays.bind ?_ fun _ => refFrame_of_quiet (quiet_closeBodyFile id)
  exact refFrame_of_quiet (quiet_modify_files _ fun s => s.openFiles)

/-- Both functions `Accessed` behind the note: the count of the entry is set. -/
theorem Counted.setRef {s s' : CacheState} {id : EntryId} {a : Unit}
    {f : CHttpCacheEntry → CHttpCacheEntry} (h : Counted s)
    (hf : ∀ e, s.heap id = some e → (f e).iRef ≠ 0)
    (hrun : (do
      modifyEntry id f
      let e ← getEntry id
      whenM (e.iEvictionCandidate = true) (evictionAccessed id) : CacheM Unit) s =
        some (a, s')) : Counted s' := by
  obtain ⟨e, he, hrun⟩ := modifyEntry_bind.1 hrun
  have hset : Counted (s.setEntry id (some (f e))) := by
    intro i e' he'
    rw [heap_setEntry] at he'
    split at he'
    · rw [Option.some.injEq] at he'
      rw [← he']
      exact hf e he
    · exact h i e' he'
  apply hset.of_frame
  refine refFrame_of (Stays.bind (stays_getEntry id) fun _ => Stays.whenM fun _ => ?_) hrun
  exact refFrame_evictionAccessed id

/-- The count goes up by one, unless it was at its maximum. -/
theorem succ_ref_ne_zero {ref : UInt16} (h : ref ≠ 65535) : ref + 1 ≠ 0 := by
  intro hzero
  apply h
  rw [← UInt16.toNat_inj] at hzero ⊢
  have hlt := ref.toNat_lt
  change (ref.toNat + 1) % 65536 = 0 at hzero
  show ref.toNat = 65535
  omega

theorem Counted.accessed {s s' : CacheState} {now : Clock} {id : EntryId} {a : Unit}
    (h : Counted s) (hmax : ∀ e, s.heap id = some e → e.iRef ≠ 65535)
    (hrun : accessed now id s = some (a, s')) : Counted s' := by
  obtain ⟨e, he, hrun⟩ := getEntry_bind.1 hrun
  rw [note, modify_bind] at hrun
  have hnoted : Counted (s.noted (.accessed e.iEvictionCandidate e.iRef)) := h
  exact hnoted.setRef (fun e' he' => succ_ref_ne_zero (hmax e' he')) hrun

theorem Counted.accessedAt {s s' : CacheState} {id : EntryId} {lastAccessed : Int}
    {ref : UInt16} {a : Unit} (h : Counted s) (href : ref ≠ 0)
    (hrun : accessedAt id lastAccessed ref s = some (a, s')) : Counted s' := by
  obtain ⟨e, he, hrun⟩ := getEntry_bind.1 hrun
  rw [note, modify_bind] at hrun
  have hnoted : Counted (s.noted
      (.accessedAt e.iEvictionCandidate e.iBodySize e.iRef ref)) := h
  exact hnoted.setRef (fun _ _ => href) hrun

section Calls

variable [Platform] {s s' : CacheState}

/-- A new entry is accessed once before anything else happens to it. -/
theorem Counted.insertL (h : Counted s) {now : Clock} {u : Des8} {entry : Option EntryId}
    (hrun : insertL now u s = some (entry, s')) : Counted s' := by
  rw [HttpCache.insertL, get_bind, modify_bind, get_bind, modify_bind] at hrun
  set s₁ : CacheState := { s.withNew (.newLC u) with
    iLookupTable := ((s.withNew (.newLC u)).iLookupTable.insertEntry
      (s.withNew (.newLC u)).urlOf s.nextId).1 } with hs₁
  have hothers : ∀ i e, i ≠ s.nextId → s₁.heap i = some e → e.iRef ≠ 0 := by
    intro i e hi he
    apply h i e
    rw [← he]
    exact ((heap_setEntry s s.nextId _ i).trans (if_neg hi)).symm
  split at hrun
  · obtain ⟨_, s₂, haccessed, hrun⟩ := bind_eq_some.1 hrun
    obtain ⟨_, s₃, hinit, hrun⟩ := bind_eq_some.1 hrun
    rw [pure_eq_some, Prod.mk.injEq] at hrun
    obtain ⟨-, rfl⟩ := hrun
    have hnew : s₁.heap s.nextId = some (.newLC u) := heap_setEntry_self ..
    rw [accessed_of_not_candidate hnew rfl, Option.some.injEq, Prod.mk.injEq] at haccessed
    obtain ⟨-, rfl⟩ := haccessed
    have hcounted : Counted ((s₁.noted (.accessed false 0)).setEntry s.nextId
        (some { CHttpCacheEntry.newLC u with iLastAccessed := now.homeTime, iRef := 0 + 1 })) := by
      intro i e he
      rw [heap_setEntry] at he
      split at he
      · rw [Option.some.injEq] at he
        rw [← he]
        show (0 + 1 : UInt16) ≠ 0
        decide
      · next hi => exact hothers i e hi he
    apply hcounted.of_frame
    refine refFrame_of (Stays.bind (stays_getEntry _) fun e => ?_) hinit
    refine Stays.bind Stays.get fun _ => Stays.bind (refFrame_modifyEntry fun _ => rfl) fun _ => ?_
    refine Stays.bind (refFrame_setState _ _) fun _ => ?_
    exact Stays.bind (refFrame_of_quiet (quiet_deleteFile _)) fun _ =>
      refFrame_of_quiet (quiet_deleteFile _)
  · -- the table has no room, and the new entry is deleted at once
    obtain ⟨_, s₂, hdelete, hrun⟩ := bind_eq_some.1 hrun
    rw [pure_eq_some, Prod.mk.injEq] at hrun
    obtain ⟨-, rfl⟩ := hrun
    obtain ⟨e₁, hdeleted⟩ := deleteEntry_spec hdelete
    intro i e he
    obtain ⟨e₀, he₀, href⟩ := (refFrame_of (refFrame_deleteEntry s.nextId) hdelete).2 i e he
    rw [href]
    refine hothers i e₀ ?_ he₀
    rintro rfl
    rw [hdeleted.gone] at he
    cases he

omit [Platform] in
theorem Counted.loadEntry (h : Counted s) {e : CHttpCacheEntry} (href : e.iRef ≠ 0) {a : Unit}
    (hrun : loadEntry e s = some (a, s')) : Counted s' := by
  rw [HttpCache.loadEntry, get_bind, modify_bind] at hrun
  have hnew : Counted (s.withNew e) := by
    intro i e' he'
    change (s.setEntry s.nextId (some e)).heap i = _ at he'
    rw [heap_setEntry] at he'
    split at he'
    · rw [Option.some.injEq] at he'
      rw [← he']
      exact href
    · exact h i e' he'
  apply hnew.of_frame
  refine refFrame_of (Stays.bind (refFrame_setState _ _) fun _ => ?_) hrun
  exact Stays.bind Stays.get fun s₁ => refFrame_modify (fun _ => rfl) fun _ => List.suffix_refl _

omit [Platform] in
theorem Counted.loadEntries {entries : List CHttpCacheEntry} (h : Counted s)
    (hread : ∀ e ∈ entries, e.iRef ≠ 0) {a : Unit}
    (hrun : forEach entries HttpCache.loadEntry s = some (a, s')) : Counted s' := by
  induction entries generalizing s with
  | nil =>
      rw [forEach_nil_eq_some, Prod.mk.injEq] at hrun
      obtain ⟨-, rfl⟩ := hrun
      exact h
  | cons e entries ih =>
      obtain ⟨s₁, hfirst, hrest⟩ := forEach_cons_eq_some.1 hrun
      have h₁ : Counted s₁ := h.loadEntry (hread e List.mem_cons_self) hfirst
      exact ih h₁ (fun e' hmem => hread e' (List.mem_cons_of_mem _ hmem)) hrest

theorem Counted.constructL (h : Counted s) {env : Env} {a : Unit}
    (hrun : constructL env s = some (a, s')) : Counted s' := by
  rw [HttpCache.constructL, get_bind] at hrun
  cases hread : openLookupTableL s.iDirectory (if env.indexOk then s.iIndexFile else none) with
  | none =>
      rw [hread] at hrun
      cases hrun
  | some read =>
      rw [hread] at hrun
      cases read with
      | left =>
          rw [pure_eq_some, Prod.mk.injEq] at hrun
          rw [hrun.2]
          exact h
      | nothing =>
          rw [pure_eq_some, Prod.mk.injEq] at hrun
          rw [hrun.2]
          exact h
      | loaded entries =>
          obtain ⟨_, s₁, hload, hset⟩ := bind_eq_some.1 hrun
          obtain rfl := modify_run.1 hset
          have hloaded : Counted s₁ :=
            h.loadEntries (fun e hmem => (readEntry_of_loaded hread e hmem).ref) hload
          exact hloaded

/-- Every call that keeps the counts away from zero does so. -/
theorem Counted.call (h : Counted s) {call : RefCall} (hcall : call.KeepsCounts s) {a : Unit}
    (hrun : call.run s = some (a, s')) : Counted s' := by
  cases call with
  | constructL env => exact h.constructL hrun
  | openLookupTableL env =>
      obtain ⟨read, -, heq⟩ := Option.map_eq_some_iff.1 hrun
      rw [Prod.mk.injEq] at heq
      rw [← heq.2]
      exact h
  | insertL now u =>
      obtain ⟨entry, s₁, hinsert, hpure⟩ := bind_eq_some.1 hrun
      rw [pure_eq_some, Prod.mk.injEq] at hpure
      rw [hpure.2]
      exact h.insertL hinsert
  | setState id st => exact h.of_frame (refFrame_of (refFrame_setState id st) hrun)
  | accessed now id => exact h.accessed hcall hrun
  | accessedAt id lastAccessed ref => exact h.accessedAt hcall hrun
  | setProtected id =>
      obtain ⟨e, he, rfl⟩ := modifyEntry_run.1 hrun
      intro i e' he'
      rw [heap_setEntry] at he'
      split at he'
      · rw [Option.some.injEq] at he'
        rw [← he']
        show (50 : UInt16) ≠ 0
        decide
      · exact h i e' he'
  | setBodySize id n => exact h.of_frame (refFrame_of (refFrame_setBodySize id n) hrun)
  | deleteEntry id => exact h.of_frame (refFrame_of (refFrame_deleteEntry id) hrun)
  | evictL now space =>
      obtain ⟨evicted, s₁, hevict, hpure⟩ := bind_eq_some.1 hrun
      rw [pure_eq_some, Prod.mk.injEq] at hpure
      rw [hpure.2]
      exact h.of_frame (refFrame_of ((idle_evictL now space).mono fun _ _ hidle =>
        EvictStep.refFrame (.idle hidle)) hevict)

/-- No count is zero in a run of calls that keep it so. -/
theorem CountRun.counted {c : Construct} (h : CountRun RefCall.KeepsCounts c s) : Counted s := by
  induction h with
  | start =>
      intro id e he
      cases he
  | call call _ hok hrun ih => exact ih.call hok hrun
  | other _ hframe ih => exact ih.of_frame hframe

/-- In every run of calls that keep the counts away from zero, the next such call does not divide
by zero. -/
theorem divisors_ne_zero {c : Construct} {call : RefCall}
    (h : CountRun RefCall.KeepsCounts c s) (hcall : call.KeepsCounts s) :
    ∀ d ∈ call.divisors s, d ≠ 0 := by
  exact h.counted.divisors hcall

end Calls

/-! ## The operations are runs of calls -/

/-- A call in the history that sets no count to zero. -/
def Call.keepsCount : Call → Prop
  | .accessed _ ref => ref ≠ 65535
  | .accessedAt _ _ _ aRef => aRef ≠ 0
  | _ => True

section Operations

variable [Platform] {s s' : CacheState}

/-- A step that continues a run of calls that keep the counts away from zero, unless the history
says otherwise. -/
def CountStep (s s' : CacheState) : Prop :=
  s.history <:+ s'.history ∧ ((∀ call ∈ s'.history, call.keepsCount) →
    ∀ c, CountRun RefCall.KeepsCounts c s → CountRun RefCall.KeepsCounts c s')

theorem CountStep.refl (s : CacheState) : CountStep s s :=
  ⟨List.suffix_refl _, fun _ _ h => h⟩

theorem CountStep.trans {s₁ s₂ s₃ : CacheState} (h : CountStep s₁ s₂) (h' : CountStep s₂ s₃) :
    CountStep s₁ s₃ := by
  refine ⟨h.1.trans h'.1, ?_⟩
  intro hcalls c hs
  apply h'.2 hcalls
  apply h.2 _ c hs
  intro call hmem
  exact hcalls call (h'.1.subset hmem)

theorem countStep_of {α : Type} {m : CacheM α} (h : Stays CountStep m) {a : α}
    (hm : m s = some (a, s')) : CountStep s s' :=
  related_of_chain CountStep.refl (fun _ _ _ => CountStep.trans) (h s a s' hm)

theorem countStep_of_refFrame {α : Type} {m : CacheM α} (h : Stays RefFrame m) :
    Stays CountStep m :=
  h.mono fun _ _ hframe => ⟨hframe.1, fun _ _ hs => hs.other hframe⟩

theorem countStep_accessed (now : Clock) (id : EntryId) : Stays CountStep (accessed now id) := by
  apply Stays.of_step
  intro s a s' hrun
  refine ⟨grows_of_run (grows_of_sizeFrame (sizeFrame_accessed now id)) hrun, ?_⟩
  intro hcalls c hs
  refine hs.call (.accessed now id) ?_ hrun
  intro e he
  rw [HttpCache.accessed, bind_of (getEntry_of he), note, modify_bind] at hrun
  have hgrows := grows_of_run ?_ hrun
  · exact hcalls _ (mem_history_of_grows hgrows)
  · exact grows_changed id fun _ => rfl

/-- A merge may name an entry that does not exist any more; then the call fails. -/
theorem countStep_accessedAt (id : EntryId) (lastAccessed : Int) (ref : UInt16) :
    Stays CountStep (accessedAt id lastAccessed ref) := by
  apply Stays.of_step
  intro s a s' hrun
  refine ⟨grows_of_run (grows_of_sizeFrame (sizeFrame_accessedAt id lastAccessed ref)) hrun, ?_⟩
  intro hcalls c hs
  refine hs.call (.accessedAt id lastAccessed ref) ?_ hrun
  obtain ⟨e, he, -⟩ := getEntry_bind.1 hrun
  rw [HttpCache.accessedAt, bind_of (getEntry_of he), note, modify_bind] at hrun
  have hgrows := grows_of_run ?_ hrun
  · exact hcalls _ (mem_history_of_grows hgrows)
  · exact grows_changed id fun _ => rfl

theorem countStep_insertL (now : Clock) (u : Des8) : Stays CountStep (insertL now u) := by
  apply Stays.of_step
  intro s entry s' hrun
  refine ⟨grows_of_run (grows_insertL now u) hrun, ?_⟩
  intro _ c hs
  exact hs.call (.insertL now u) trivial (bind_eq_some.2 ⟨entry, s', hrun, rfl⟩)

theorem refFrame_deleteCacheEntry (id : EntryId) : Stays RefFrame (deleteCacheEntry id) := by
  refine Stays.bind (refFrame_of_quiet (quiet_removeEntry id)) fun _ => ?_
  refine Stays.bind (stays_getEntry id) fun e => Stays.bind Stays.get fun s => ?_
  refine Stays.bind (refFrame_note _) fun _ => Stays.bind Stays.get fun s => ?_
  cases s.locate e.iUrl with
  | none => exact Stays.pure _
  | some found => exact refFrame_erase found.1

theorem admits_counts : Admits CountStep fun _ => True where
  quiet _ _ h := ⟨h.refFrame.1, fun _ _ hs => hs.other h.refFrame⟩
  space now size := countStep_of_refFrame
    ((evictStep_cacheNeedsSpaceL now size).mono fun _ _ => EvictStep.refFrame)
  removeHeaders id := countStep_of_refFrame (refFrame_removeHeaders id)
  saveHeaders io id header s _ := countStep_of_refFrame (refFrame_saveHeaders io id header) s
  eraseComplete _ _ _ := countStep_of_refFrame (refFrame_erase _) _
  deleteCacheEntry id _ := countStep_of_refFrame (refFrame_deleteCacheEntry id)
  setState id st _ _ _ := countStep_of_refFrame (refFrame_setState id st)
  accessed := countStep_accessed
  createNewBodyFile io id := countStep_of_refFrame (refFrame_createNewBodyFile io id)
  removeBodyData id := countStep_of_refFrame (refFrame_removeBodyData id)
  updateSizeInformation id n s _ := by
    refine countStep_of_refFrame (Stays.bind (stays_getEntry id) fun e => ?_) s
    exact Stays.bind (refFrame_setBodySize id _) fun _ => refFrame_addContentSize _
  bodyFileDeleteNeeded id := countStep_of_refFrame (refFrame_modifyEntry fun _ => rfl)
  bodyFileDeleted id s _ := by
    have hflag : Stays RefFrame (setBodyFileDeleteNeeded id false) :=
      refFrame_modifyEntry fun _ => rfl
    exact countStep_of_refFrame hflag s

theorem admitsMerge_counts (map : Option (Des16 → Option Des8)) : AdmitsMerge CountStep map where
  insertL := countStep_insertL
  setState id := countStep_of_refFrame (refFrame_setState id _)
  accessedAt := countStep_accessedAt
  erase s _ _ pos _ _ _ _ _ := countStep_of_refFrame (refFrame_erase pos) s

theorem countStep_op (op : Op) : Stays CountStep op.run := by
  have hset : ∀ t, Stays RefFrame (setSavedContentSize t) := fun _ =>
    refFrame_modify (fun _ => rfl) fun _ => List.suffix_refl _
  have hheaders : ∀ env t resp id, Stays CountStep (saveResponseHeaders env t resp id) := by
    intro env t resp id s
    exact admits_counts.saveResponseHeaders env t resp trivial
      (countStep_of_refFrame (refFrame_setState id _) s)
  apply Admits.op admits_counts admitsMerge_counts
  · intro s total
    exact countStep_of_refFrame (Stays.bind (refFrame_note _) fun _ => hset total) s
  · intro env t resp id e s _ _ _
    exact hheaders env t resp id s
  · intro env t resp id dir s _
    refine StaysFrom.bind (StaysFrom.whenM fun _ => ?_) fun _ s₁ _ => hheaders env t resp id s₁
    apply StaysFrom.of_step
    intro a s' hrun
    obtain ⟨e, he, rfl⟩ := modifyEntry_run.1 hrun
    exact ⟨List.suffix_refl _, fun _ c hs => hs.call (.setProtected id) trivial hrun⟩

/-- The runs of the operations are runs of calls: as long as the history has no call that sets a
count to zero, no index file that is read has a zero, either. -/
theorem countRun_of_reaches {c : Construct} (h : Reaches Op.run c.Starts (fun _ _ => True) s)
    (hcalls : ∀ call ∈ s.history, call.keepsCount) : CountRun RefCall.KeepsCounts c s := by
  have hinv : (∀ call ∈ s.history, call.keepsCount) → CountRun RefCall.KeepsCounts c s := by
    apply h.invariant
    · intro s hs _
      refine CountRun.start.call (.constructL c.env) ?_ hs
      have hread : ∃ read, openLookupTableL c.aDirectory (c.initial.indexSeen c.env) = some read := by
        rw [Construct.Starts, constructL, get_bind] at hs
        cases hread : openLookupTableL c.initial.iDirectory
            (if c.env.indexOk then c.initial.iIndexFile else none) with
        | none =>
            rw [hread] at hs
            cases hs
        | some read => exact ⟨read, hread⟩
      obtain ⟨read, hread⟩ := hread
      exact refsStored_of_openLookupTableL hread
    · intro op s _ hs a s' hrun hcalls
      obtain ⟨hgrows, hstep⟩ := countStep_of (countStep_op op) hrun
      exact hstep hcalls c (hs fun call hmem => hcalls call (hgrows.subset hmem))
  exact hinv hcalls

end Operations

/-! ## A count that overflows -/

section Overflow

open Reference

instance (c : Call) : Decidable c.keepsCount :=
  match c with
  | .accessed _ ref => inferInstanceAs (Decidable (ref ≠ 65535))
  | .accessedAt _ _ _ aRef => inferInstanceAs (Decidable (aRef ≠ 0))
  | .createNewBodyFile .. => isTrue trivial
  | .deleteCacheEntry .. => isTrue trivial
  | .setSavedContentSize .. => isTrue trivial

/-- After a response is saved, `EvictL` divides by its count, which is 1. -/
theorem divisors_ne_zero_of_response : ∃ s, CountRun RefCall.KeepsCounts emptyCache s ∧
    (RefCall.evictL env.clock 1).divisors s = [1] ∧
    ∀ d ∈ (RefCall.evictL env.clock 1).divisors s, d ≠ 0 := by
  have heval : (stateAfter emptyCache (responseOps [1] [2, 3] [7])).map (fun s =>
      (decide (∀ call ∈ s.history, call.keepsCount),
        (RefCall.evictL env.clock 1).divisors s)) = some (true, [1]) := by
    decide +kernel
  obtain ⟨s, hs, heq⟩ := exists_run_of_eval heval
  rw [Prod.mk.injEq, decide_eq_true_eq] at heq
  have hrun : CountRun RefCall.KeepsCounts emptyCache s := countRun_of_reaches hs heq.1
  exact ⟨s, hrun, heq.2, divisors_ne_zero hrun trivial⟩

/-- A request from the cache. -/
def cachedRequest (uri : Des8) : Request where
  uri := uri
  useCache := true
  fixedUri := none
  needsValidation _ := false

/-- The index lists an entry that has been accessed 65535 times. It is loaded from the cache once
more, and the next `EvictL` divides by zero. -/
theorem not_divisors_ne_zero : ¬ ∀ (c : Construct) (s : CacheState),
    Reaches Op.run c.Starts (fun _ _ => True) s →
      ∀ call : RefCall, ∀ d ∈ call.divisors s, d ≠ 0 := by
  intro h
  have heval : (stateAfter (construct (fun _ => none) (indexOf [stored [1] 5 65535 16 [2]]))
      [.requestL Reference.env 0 (cachedRequest [1]), .requestClosed 0]).map
        (RefCall.evictL Reference.env.clock 1).divisors = some [0] := by
    decide +kernel
  obtain ⟨s, hs, heq⟩ := exists_run_of_eval heval
  refine h _ s hs (.evictL Reference.env.clock 1) 0 ?_ rfl
  rw [heq]
  exact List.mem_cons_self

end Overflow

end SymbianWeb.HttpCache
