import SymbianWeb.HttpCache.UniqueUrls
import SymbianWeb.HttpCache.Reference

/-!
# The lookup table over whole runs

The lookup table on its own: a run inserts URLs that are not stored, removes, erases and removes
all, and in between entries change their state, which decides what `Remove` and `RemoveAll` may
take. In every state of such a run the table is correct (`lookupTable_correct`): the counter is
right, an insertion cannot fail, a rehash loses nothing, and `Probe` is exact and terminates.
-/

set_option autoImplicit false

namespace SymbianWeb.HttpCache

open FaultState CHttpCacheLookupTable

namespace CHttpCacheLookupTable

variable [Platform] {α : Type} {urlOf : α → Des8}

/-- The last admissible round is the one in which `collision` is `Count + 1`: more rounds make no
difference. -/
theorem findLoop_more (t : CHttpCacheLookupTable α) (aKey : Des8) (more left k pos : Nat)
    (hleft : left + 1 + k = t.size + 2) :
    t.findLoop urlOf aKey (left + 1 + more) k pos = t.findLoop urlOf aKey (left + 1) k pos := by
  induction left generalizing k pos with
  | zero =>
      have hlast : t.size < k := by omega
      rw [show 0 + 1 + more = more + 1 by omega, findLoop, findLoop]
      simp [hlast]
  | succ left ih =>
      rw [show left + 1 + 1 + more = left + 1 + more + 1 by omega]
      unfold findLoop
      rw [ih (k + 1) _ (by omega)]

/-- The find loop of `Probe` terminates within `Count + 2` rounds. -/
theorem probeFind_terminates (t : CHttpCacheLookupTable α) (aKey : Des8) {rounds : Nat}
    (h : t.size + 2 ≤ rounds) :
    t.findLoop urlOf aKey rounds 0 (t.hashPos aKey) = t.probeFind urlOf aKey := by
  obtain ⟨more, rfl⟩ := Nat.exists_eq_add_of_le h
  exact findLoop_more t aKey more (t.size + 1) 0 _ rfl

end CHttpCacheLookupTable

/-- The operations of the lookup table, and changes of state in between. -/
inductive TableOp where
  | insertL (now : Clock) (aUrl : Des8)
  | remove (aUrl : Des8)
  | eraseCacheEntry (aUrl : Des8)
  | removeAll
  | setState (id : EntryId) (aState : TCacheEntryState)

section Runs

variable [Platform]

/-- Run one operation. -/
def TableOp.run : TableOp → CacheM Unit
  | .insertL now aUrl => HttpCache.insertL now aUrl >>= fun _ => pure ()
  | .remove aUrl => HttpCache.remove aUrl >>= fun _ => pure ()
  | .eraseCacheEntry aUrl => HttpCache.eraseCacheEntry aUrl
  | .removeAll => HttpCache.removeAll
  | .setState id aState => HttpCache.setState id aState

/-- An inserted URL differs under `CompareF` from all stored URLs. -/
def TableOp.distinct (op : TableOp) (s : CacheState) : Prop :=
  match op with
  | .insertL _ aUrl => ∀ id ∈ s.iLookupTable.entries, compareF (s.urlOf id) aUrl = false
  | _ => True

/-- `NewL`. -/
def TableStart (s : CacheState) : Prop :=
  ∃ aSize aDirectory aCriticalLevel aPostpone files,
    s = CacheState.newL aSize aDirectory aCriticalLevel aPostpone files

/-- What is true of the lookup table of a state. -/
structure TableCorrect (s : CacheState) : Prop where
  /-- `iCount` is the number of `Valid` slots. -/
  count : s.iLookupTable.iCount = ((Finset.range s.iLookupTable.size).filter fun p =>
    s.iLookupTable.valid p = true).card
  /-- `InsertL` stores the entry and keeps all others. -/
  insert : ∀ now url, ∃ id s', insertL now url s = some (some id, s') ∧
    s'.iLookupTable.entries.Perm (id :: s.iLookupTable.entries)
  /-- `ReHashL` moves all entries. -/
  reHash : (s.iLookupTable.reHashL s.urlOf).entries.Perm s.iLookupTable.entries
  /-- `Probe` of a stored URL returns the slot of its entry. -/
  probe_stored : ∀ p id, s.iLookupTable.entryAt p = some id →
    s.iLookupTable.probeFind s.urlOf (s.urlOf id) = some p
  /-- `Probe` of a URL that is not stored returns no `Valid` slot. -/
  probe_not_stored : ∀ url,
    (∀ id ∈ s.iLookupTable.entries, compareF (s.urlOf id) url = false) →
    ∀ p, s.iLookupTable.probeFind s.urlOf url = some p → s.iLookupTable.valid p = false
  /-- `Probe` terminates: more rounds than it is given make no difference. -/
  probe_terminates : ∀ url rounds, s.iLookupTable.size + 2 ≤ rounds →
    s.iLookupTable.findLoop s.urlOf url rounds 0 (s.iLookupTable.hashPos url) =
      s.iLookupTable.probeFind s.urlOf url

/-- The invariant of the runs. -/
def TableUnique (s : CacheState) : Prop := TableInv s ∧ UniqueUrls s

variable {s s' : CacheState}

theorem TableUnique.of_frame (h : TableUnique s) (hf : Frame s s') : TableUnique s' :=
  ⟨h.1.of_frame hf, h.2.of_survives hf.survives_url⟩

theorem TableUnique.of_erased (h : TableUnique s) {pos : Nat} {id : EntryId}
    {e : CHttpCacheEntry} (he : Erased pos id e s s') : TableUnique s' :=
  ⟨h.1.of_erased he, h.2.of_survives he.survives_url⟩

theorem TableUnique.of_inserted (h : TableUnique s) {u : Des8} {id : EntryId}
    (hi : Inserted u id s s') (hnew : NotStored s u) : TableUnique s' := by
  obtain ⟨e, he, hcore, -⟩ := hi.entry
  refine ⟨h.1.of_added hi.toAdded, h.2.of_added hi.toAdded he ?_⟩
  rw [show e.iUrl = u from congrArg EntryCore.iUrl hcore]
  exact hnew

/-- A step that keeps the invariant. -/
def TableUniqueStep (s s' : CacheState) : Prop := TableUnique s → TableUnique s'

omit [Platform] in
theorem TableInv.notStored_iff [Platform] (h : TableInv s) {url : Des8} :
    NotStored s url ↔ ∀ id ∈ s.iLookupTable.entries, compareF (s.urlOf id) url = false := by
  constructor
  · intro hno id hmem
    obtain ⟨e, he⟩ := Option.isSome_iff_exists.1 ((h.live id).1 hmem)
    rw [urlOf_of_entry he]
    exact hno id e he
  · intro hno id e he
    rw [← urlOf_of_entry he]
    apply hno
    rw [h.live, he]
    rfl

theorem tableUnique_erase {pos : Nat} {id : EntryId} (hslot : s.iLookupTable.entryAt pos = some id) :
    StaysFrom TableUniqueStep s (erase pos) := by
  apply StaysFrom.of_step
  intro a s' hrun h
  obtain ⟨e, herased⟩ := erase_spec hrun hslot
  exact h.of_erased herased

theorem tableUnique_setState (id : EntryId) (st : TCacheEntryState) :
    Stays TableUniqueStep (setState id st) :=
  (sizeFrame_setState id st).mono fun _ _ hf h => h.of_frame hf.frame

/-- One operation keeps the invariant. -/
theorem TableUnique.run (h : TableUnique s) {op : TableOp} (hok : op.distinct s) {a : Unit}
    (hrun : op.run s = some (a, s')) : TableUnique s' := by
  have herase : ErasesComplete TableUniqueStep := fun hslot _ _ => tableUnique_erase hslot
  have hchain : ∀ {α : Type} {m : CacheM α} {b : α} {s' : CacheState},
      StaysFrom TableUniqueStep s m → m s = some (b, s') → TableUnique s' :=
    fun hm hrun => invariant_of_chain (fun _ _ hstep => hstep) (hm _ _ hrun) h
  cases op with
  | insertL now url =>
      obtain ⟨r, s₁, hinsert, hpure⟩ := bind_eq_some.1 hrun
      rw [pure_eq_some, Prod.mk.injEq] at hpure
      obtain ⟨-, rfl⟩ := hpure
      obtain ⟨-, hinserted⟩ := inserted_of_run h.1 hinsert
      exact h.of_inserted hinserted (h.1.notStored_iff.2 hok)
  | remove url =>
      obtain ⟨r, s₁, hremove, hpure⟩ := bind_eq_some.1 hrun
      rw [pure_eq_some, Prod.mk.injEq] at hpure
      obtain ⟨-, rfl⟩ := hpure
      exact hchain (stays_remove herase url s) hremove
  | eraseCacheEntry url =>
      apply hchain _ hrun
      apply staysFrom_get
      cases hloc : s.locate url with
      | none => exact StaysFrom.pure _
      | some found =>
          obtain ⟨pos, id⟩ := found
          exact tableUnique_erase (locate_slot hloc).2
  | removeAll => exact hchain (stays_removeAll herase s) hrun
  | setState id st => exact hchain (tableUnique_setState id st s) hrun

theorem TableUnique.correct (h : TableUnique s) : TableCorrect s where
  count := by
    rw [h.1.placed.count_eq, card_valid]
  insert now url := by
    obtain ⟨s', hrun, hinserted⟩ := insertL_spec h.1 now url
    exact ⟨s.nextId, s', hrun, hinserted.table⟩
  reHash := (reHashL_spec s.urlOf h.1.placed.size_pos).2.2.2.1
  probe_stored _ _ hp := probeFind_of_stored h.1.placed.chained (h.2.distinctUrls h.1) hp
  probe_not_stored _ hno _ hfind := probeFind_of_not_stored h.1.placed.size_pos hno hfind
  probe_terminates _ _ hrounds := probeFind_terminates _ _ hrounds

/-- In every run from `NewL` whose inserted URLs are not stored the lookup table is correct. -/
theorem lookupTable_correct (h : Reaches TableOp.run TableStart TableOp.distinct s) :
    TableCorrect s := by
  have hinv : TableUnique s := by
    apply h.invariant
    · rintro s ⟨aSize, aDirectory, aCriticalLevel, aPostpone, files, rfl⟩
      refine ⟨tableInv_newL aSize aDirectory aCriticalLevel aPostpone files, ?_⟩
      intro i j e e' he
      cases he
    · intro op s hok hs a s' hrun
      exact hs.run hok hrun
  exact hinv.correct

end Runs

section Example

open Reference

/-- Inserting one URL is such a run. -/
theorem lookupTable_of_one_insertion : ∃ s, TableCorrect s ∧ s.iLookupTable.iCount = 1 := by
  have heval : ((TableOp.insertL ⟨0, 0⟩ [1]).run
      (CacheState.newL 1000 [] 0 none fun _ => none)).map (fun p => p.2.iLookupTable.iCount) =
      some 1 := by
    decide +kernel
  obtain ⟨⟨a, s⟩, hrun, hcount⟩ := Option.map_eq_some_iff.1 heval
  refine ⟨s, lookupTable_correct (.call _ (.start ⟨_, _, _, _, _, rfl⟩) ?_ hrun), hcount⟩
  intro id hmem
  have hnil : (CacheState.newL 1000 [] 0 none fun _ => none).iLookupTable.entries = [] :=
    entries_replicate_null _
  rw [hnil] at hmem
  cases hmem

end Example

end SymbianWeb.HttpCache
