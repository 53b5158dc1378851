import SymbianWeb.HttpCache.LookupTablePlacement
import SymbianWeb.HttpCache.Reference

/-!
# Growing the lookup table when memory runs out

`ReHashL` allocates the new array, an item of the cleanup stack and the buffer of the array, the
last by its calls of `AppendL`. It installs the new array before it fills it, and the cleanup
stack destroys the old array when a later allocation leaves. `reHashAllocL` and
`insertEntryAllocL` take the outcome of each allocation as an argument; where all succeed they
are `reHashL` and `insertEntry` (`reHashAllocL_of_all`, `insertEntryAllocL_of_all`).

A leave keeps the table when it is the new array itself that cannot be allocated, and when there
is nothing to lose (`growsAtomically_iff`). In an insertion it must be the array of the rehash
before the entry is stored: the rehash after it leaves with the entry in the table.
-/

set_option autoImplicit false

namespace SymbianWeb.HttpCache.CHttpCacheLookupTable

open QuadraticProbe

variable {α : Type}

/-- The outcomes of the allocations of one call of `ReHashL`: the new array, the item of the
cleanup stack, and the call of `AppendL` with `i` slots filled. -/
structure ReHashAlloc where
  newArray : Bool
  cleanupItem : Bool
  append : Nat → Bool

/-- All allocations succeed. -/
def ReHashAlloc.all : ReHashAlloc := ⟨true, true, fun _ => true⟩

/-- The fill loop of `ReHashL`, with the number of slots left to append; the Boolean is `false`
when `AppendL` leaves. -/
def fillL (append : Nat → Bool) : Nat → List (Slot α) → List (Slot α) × Bool
  | 0, filled => (filled, true)
  | left + 1, filled =>
      if append filled.length then fillL append left (filled ++ [.null]) else (filled, false)

section Growth

variable (urlOf : α → Des8)

/-- `ReHashL`; the Boolean is `false` when it leaves. -/
def reHashAllocL (t : CHttpCacheLookupTable α) (a : ReHashAlloc) :
    CHttpCacheLookupTable α × Bool :=
  let newSize := nextPrime (t.size * 2)
  if a.newArray then
    -- hash must operate on the new table
    if a.cleanupItem then
      match fillL a.append newSize [] with
      | (filled, true) => (t.iEntries.foldl (transfer urlOf) ⟨filled, t.iCount⟩, true)
      | (filled, false) => (⟨filled, t.iCount⟩, false)
    else (⟨[], t.iCount⟩, false)
  else (t, false)

/-- How `InsertL( CHttpCacheEntry* )` ends: `KErrNone`, `KErrCorrupt` or a leave. -/
inductive InsertEnd where
  | none
  | corrupt
  | leave
  deriving DecidableEq

/-- The insertion at a free position, with the check whether the table is full. -/
def storeAtAllocL (t : CHttpCacheLookupTable α) (pos : Nat) (aCacheEntry : α)
    (a : ReHashAlloc) : CHttpCacheLookupTable α × InsertEnd :=
  let t := { t.setSlot pos (.entry aCacheEntry) with iCount := t.iCount + 1 }
  if ((t.size / 2 : Nat) : Int) < t.iCount then
    match t.reHashAllocL urlOf a with
    | (t, true) => (t, .none)
    | (t, false) => (t, .leave)
  else (t, .none)

/-- `InsertL( CHttpCacheEntry* )`, with the allocations of the rehash that makes room and of the
one that follows the insertion. -/
def insertEntryAllocL (t : CHttpCacheLookupTable α) (aCacheEntry : α)
    (before after : ReHashAlloc) : CHttpCacheLookupTable α × InsertEnd :=
  let pos := t.probeInsert (urlOf aCacheEntry)
  if t.valid pos then
    -- try to rehash the table if probe failed
    match t.reHashAllocL urlOf before with
    | (t, false) => (t, .leave)
    | (t, true) =>
        let pos := t.probeInsert (urlOf aCacheEntry)
        if t.valid pos then (t, .corrupt) else t.storeAtAllocL urlOf pos aCacheEntry after
  else t.storeAtAllocL urlOf pos aCacheEntry after

/-- `InsertL( aUrl )` once it has made the entry: the table, the entry it returns, and whether
the entry is destroyed, by the cleanup stack when the insertion leaves. -/
def insertUrlAllocL (t : CHttpCacheLookupTable α) (entry : α) (before after : ReHashAlloc) :
    CHttpCacheLookupTable α × Option α × Bool :=
  match t.insertEntryAllocL urlOf entry before after with
  | (t, .none) => (t, some entry, false)
  | (t, .corrupt) => (t, Option.none, true)
  | (t, .leave) => (t, Option.none, true)

end Growth

/-- What a leave has to keep: every entry found before is found, the array has slots, and the
entries stored are those stored before. -/
structure KeptBy [Platform] (urlOf : α → Des8) (t t' : CHttpCacheLookupTable α) : Prop where
  findable : ∀ aKey e, t.lookup urlOf aKey = some e → t'.lookup urlOf aKey = some e
  slots : t'.iEntries ≠ []
  stored : t'.entries.Perm t.entries

/-! ## The fill loop -/

/-- The loop appends empty slots up to the first `AppendL` that leaves. -/
theorem fillL_spec (append : Nat → Bool) (left n : Nat) :
    (fillL append left (List.replicate n (.null : Slot α)) =
        (List.replicate (n + left) .null, true)) ∨
      ∃ m, m < left ∧ append (n + m) = false ∧ (∀ j, j < m → append (n + j) = true) ∧
        fillL append left (List.replicate n (.null : Slot α)) =
          (List.replicate (n + m) .null, false) := by
  induction left generalizing n with
  | zero => exact .inl rfl
  | succ left ih =>
      unfold fillL
      rw [List.length_replicate]
      cases hn : append n with
      | false =>
          refine .inr ⟨0, by omega, hn, by omega, ?_⟩
          rw [if_neg (by decide)]
          rfl
      | true =>
          rw [if_pos rfl, ← List.replicate_succ']
          rcases ih (n + 1) with hall | ⟨m, hm, hfail, hbefore, heq⟩
          · left
            rw [hall, show n + 1 + left = n + (left + 1) by omega]
          · refine .inr ⟨m + 1, by omega, ?_, ?_, ?_⟩
            · rwa [show n + (m + 1) = n + 1 + m by omega]
            · intro j hj
              cases j with
              | zero => exact hn
              | succ j =>
                  rw [show n + (j + 1) = n + 1 + j by omega]
                  exact hbefore j (by omega)
            · rw [heq, show n + (m + 1) = n + 1 + m by omega]

/-! ## What a failed rehash leaves behind -/

section Growth

variable (urlOf : α → Des8)

/-- The ways `ReHashL` ends: with the table rehashed, with the table as it was, or with an array
of empty slots that the failed allocation cut short. -/
theorem reHashAllocL_cases (t : CHttpCacheLookupTable α) (a : ReHashAlloc) :
    t.reHashAllocL urlOf a = (t.reHashL urlOf, true) ∨
      (a.newArray = false ∧ t.reHashAllocL urlOf a = (t, false)) ∨
      ∃ k, a.newArray = true ∧ (0 < k ↔ a.cleanupItem = true ∧ a.append 0 = true) ∧
        t.reHashAllocL urlOf a = (⟨List.replicate k .null, t.iCount⟩, false) := by
  unfold reHashAllocL
  cases hnew : a.newArray with
  | false => exact .inr (.inl ⟨rfl, rfl⟩)
  | true =>
      cases hitem : a.cleanupItem with
      | false => exact .inr (.inr ⟨0, rfl, by simp, rfl⟩)
      | true =>
          simp only [if_true]
          rcases fillL_spec (α := α) a.append (nextPrime (t.size * 2)) 0 with
            hall | ⟨m, -, hfail, hbefore, heq⟩
          · left
            rw [List.replicate_zero] at hall
            rw [hall, Nat.zero_add]
            rfl
          · rw [List.replicate_zero] at heq
            refine .inr (.inr ⟨m, trivial, ?_, by rw [heq, Nat.zero_add]⟩)
            cases m with
            | zero => simpa using hfail
            | succ m => simpa using hbefore 0 (by omega)

theorem reHashAllocL_of_all (t : CHttpCacheLookupTable α) :
    t.reHashAllocL urlOf .all = (t.reHashL urlOf, true) := by
  rcases fillL_spec (α := α) (fun _ => true) (nextPrime (t.size * 2)) 0 with hall | ⟨m, -, hm, -⟩
  · rw [List.replicate_zero, Nat.zero_add] at hall
    simp only [reHashAllocL, ReHashAlloc.all, hall, if_true]
    rfl
  · cases hm

theorem storeAtAllocL_of_all (t : CHttpCacheLookupTable α) (pos : Nat) (e : α) :
    t.storeAtAllocL urlOf pos e .all = (t.storeAt urlOf pos e, .none) := by
  unfold storeAtAllocL storeAt
  simp only [reHashAllocL_of_all]
  split
  · rfl
  · rfl

/-- With memory for every rehash the insertion is the one of the lookup table. -/
theorem insertEntryAllocL_of_all (t : CHttpCacheLookupTable α) (e : α) :
    t.insertEntryAllocL urlOf e .all .all =
      ((t.insertEntry urlOf e).1, if (t.insertEntry urlOf e).2 then .none else .corrupt) := by
  unfold insertEntryAllocL insertEntry
  simp only [reHashAllocL_of_all, storeAtAllocL_of_all]
  split
  · split
    · rfl
    · rfl
  · rfl

/-- An insertion that leaves takes the entry of `InsertL( aUrl )` with it, and only that. -/
theorem insertUrlAllocL_of_leave {t : CHttpCacheLookupTable α} {e : α} {before after : ReHashAlloc}
    (hleave : (t.insertEntryAllocL urlOf e before after).2 = .leave) :
    (t.insertUrlAllocL urlOf e before after).1 = (t.insertEntryAllocL urlOf e before after).1 ∧
      (t.insertUrlAllocL urlOf e before after).2 = (Option.none, true) := by
  unfold insertUrlAllocL
  revert hleave
  cases t.insertEntryAllocL urlOf e before after with
  | mk t' how =>
      intro hleave
      cases hleave
      exact ⟨rfl, rfl⟩

variable [Platform]

theorem KeptBy.refl {t : CHttpCacheLookupTable α} (hslots : t.iEntries ≠ []) :
    KeptBy urlOf t t := ⟨fun _ _ h => h, hslots, List.Perm.refl _⟩

/-- A table without entries finds nothing. -/
theorem lookup_of_entries_nil {t : CHttpCacheLookupTable α} (h : t.entries = []) (aKey : Des8) :
    t.lookup urlOf aKey = none := by
  cases hfind : t.lookup urlOf aKey with
  | none => rfl
  | some e =>
      obtain ⟨p, -, hp⟩ := Option.bind_eq_some_iff.1 hfind
      have hmem : e ∈ t.entries := mem_entries.2 ⟨p, hp⟩
      rw [h] at hmem
      exact absurd hmem List.not_mem_nil

/-- An array of empty slots keeps a table when the table had no entries and it has a slot. -/
theorem keptBy_replicate_iff (t : CHttpCacheLookupTable α) (k : Nat) (c : Int) :
    KeptBy urlOf t ⟨List.replicate k .null, c⟩ ↔ t.entries = [] ∧ 0 < k := by
  have hnil : (⟨List.replicate k .null, c⟩ : CHttpCacheLookupTable α).entries = [] :=
    entries_replicate_null k
  constructor
  · rintro ⟨-, hslots, hstored⟩
    rw [hnil] at hstored
    refine ⟨hstored.symm.eq_nil, Nat.pos_of_ne_zero ?_⟩
    rintro rfl
    exact hslots rfl
  · rintro ⟨hempty, hk⟩
    refine ⟨?_, ?_, by rw [hnil, hempty]⟩
    · intro aKey e hfind
      rw [lookup_of_entries_nil urlOf hempty] at hfind
      cases hfind
    · cases k with
      | zero => omega
      | succ k => simp [List.replicate_succ]

/-- A rehash that leaves keeps the table when it failed on the new array, or when the table had
no entries and the new array got a slot. -/
theorem keptBy_reHashAllocL_iff {t : CHttpCacheLookupTable α} (hslots : t.iEntries ≠ [])
    {a : ReHashAlloc} (hleave : (t.reHashAllocL urlOf a).2 = false) :
    KeptBy urlOf t (t.reHashAllocL urlOf a).1 ↔
      a.newArray = false ∨ (t.entries = [] ∧ a.cleanupItem = true ∧ a.append 0 = true) := by
  rcases reHashAllocL_cases urlOf t a with hdone | ⟨hnew, hsame⟩ | ⟨k, hnew, hk, hcut⟩
  · rw [hdone] at hleave
    cases hleave
  · rw [hsame]
    exact iff_of_true (KeptBy.refl urlOf hslots) (.inl hnew)
  · rw [hcut, keptBy_replicate_iff, hk]
    simp [hnew]

/-- A rehash after the insertion that leaves never keeps a table with entries: either the new
entry is in it, or nothing is. -/
theorem keptBy_storeAtAllocL_iff {t0 t : CHttpCacheLookupTable α} {pos : Nat} {e : α}
    (hpos : pos < t.size) (hfree : t.valid pos = false) (hperm : t.entries.Perm t0.entries)
    {a : ReHashAlloc} (hleave : (t.storeAtAllocL urlOf pos e a).2 = .leave) :
    KeptBy urlOf t0 (t.storeAtAllocL urlOf pos e a).1 ↔
      a.newArray = true ∧ t0.entries = [] ∧ a.cleanupItem = true ∧ a.append 0 = true := by
  have hstore := entries_setSlot_perm t hpos hfree e
  unfold storeAtAllocL at hleave ⊢
  simp only at hleave ⊢
  split at hleave
  · rename_i hfull
    rw [if_pos hfull]
    rcases reHashAllocL_cases urlOf
      { t.setSlot pos (.entry e) with iCount := t.iCount + 1 } a with
      hdone | ⟨hnew, hsame⟩ | ⟨k, hnew, hk, hcut⟩
    · rw [hdone] at hleave
      cases hleave
    · -- the new array failed: the entry stays in the table
      rw [hsame, hnew]
      refine iff_of_false ?_ (by simp)
      intro hkept
      have hlen := (hkept.stored.trans hperm.symm).length_eq
      have hlen' : (t.setSlot pos (.entry e)).entries.length = t.entries.length := hlen
      rw [hstore.length_eq, List.length_cons] at hlen'
      omega
    · rw [hcut, keptBy_replicate_iff, hk]
      simp [hnew]
  · cases hleave

/-- When a rehash leaves for want of memory, the table is kept if the new array could not be
allocated, or if it had no entries and the new array got its first slot; an insertion keeps it if
this is the rehash before the entry is stored, or if the table had no entries and the rehash
after it gave the new array its first slot. -/
theorem growsAtomically_iff (t : CHttpCacheLookupTable α) (hslots : t.iEntries ≠ []) :
    (∀ a : ReHashAlloc, (t.reHashAllocL urlOf a).2 = false →
      (KeptBy urlOf t (t.reHashAllocL urlOf a).1 ↔
        a.newArray = false ∨ (t.entries = [] ∧ a.cleanupItem = true ∧ a.append 0 = true))) ∧
    ∀ (e : α) (before after : ReHashAlloc),
      (t.insertEntryAllocL urlOf e before after).2 = .leave →
      (KeptBy urlOf t (t.insertEntryAllocL urlOf e before after).1 ↔
        (t.valid (t.probeInsert (urlOf e)) = true ∧ before.newArray = false) ∨
          (t.entries = [] ∧ after.newArray = true ∧ after.cleanupItem = true ∧
            after.append 0 = true)) := by
  have hsize : 0 < t.size := List.length_pos_iff.2 hslots
  refine ⟨fun a hleave => keptBy_reHashAllocL_iff urlOf hslots hleave, ?_⟩
  intro e before after hleave
  cases hvalid : t.valid (t.probeInsert (urlOf e)) with
  | false =>
      obtain ⟨m, -, hpos, -⟩ := probeInsert_spec hsize (urlOf e)
      have hlt : t.probeInsert (urlOf e) < t.size := by
        rw [hpos]
        exact probePos_lt hsize _ _
      have heq : t.insertEntryAllocL urlOf e before after =
          t.storeAtAllocL urlOf (t.probeInsert (urlOf e)) e after := by
        simp [insertEntryAllocL, hvalid]
      rw [heq] at hleave ⊢
      rw [keptBy_storeAtAllocL_iff urlOf hlt hvalid (List.Perm.refl _) hleave]
      constructor
      · rintro ⟨hnew, hnil, hitem, happend⟩
        exact .inr ⟨hnil, hnew, hitem, happend⟩
      · rintro (⟨habsurd, -⟩ | ⟨hnil, hnew, hitem, happend⟩)
        · cases habsurd
        · exact ⟨hnew, hnil, hitem, happend⟩
  | true =>
      -- the probed slot holds an entry, so the table is not empty
      obtain ⟨x, hx⟩ := (valid_iff t _).1 hvalid
      have hnonempty : t.entries ≠ [] := List.ne_nil_of_mem (mem_entries.2 ⟨_, hx⟩)
      unfold insertEntryAllocL at hleave ⊢
      simp only [hvalid, if_true] at hleave ⊢
      rcases reHashAllocL_cases urlOf t before with hdone | ⟨hnew, hsame⟩ | ⟨k, hnew, -, hcut⟩
      · -- the first rehash went through
        simp only [hdone] at hleave ⊢
        have hspec := reHashL_spec urlOf hsize
        have hpos' : 0 < (t.reHashL urlOf).size := hspec.1.1.pos
        split at hleave
        · cases hleave
        · rename_i hfree
          rw [Bool.not_eq_true] at hfree
          rw [if_neg (by rw [hfree]; decide)]
          obtain ⟨m, -, hprobe, -⟩ := probeInsert_spec hpos' (urlOf e)
          have hlt : (t.reHashL urlOf).probeInsert (urlOf e) < (t.reHashL urlOf).size := by
            rw [hprobe]
            exact probePos_lt hpos' _ _
          rw [keptBy_storeAtAllocL_iff urlOf hlt hfree hspec.2.2.2.1 hleave]
          have hbefore : before.newArray = true := by
            cases hnew : before.newArray with
            | true => rfl
            | false =>
                have : t.reHashAllocL urlOf before = (t, false) := by simp [reHashAllocL, hnew]
                rw [this] at hdone
                exact absurd (congrArg Prod.snd hdone) Bool.false_ne_true
          simp [hnonempty, hbefore]
      · simp only [hsame]
        exact iff_of_true (KeptBy.refl urlOf hslots) (.inl ⟨trivial, hnew⟩)
      · simp only [hcut]
        rw [keptBy_replicate_iff]
        simp [hnonempty, hnew]

end Growth

section Full

open Reference

/-- The table after 108 insertions: half of its 217 slots are in use. -/
def fullTable : CHttpCacheLookupTable Des8 :=
  (List.range 108).foldl (fun t i => (t.insertEntry id [0, UInt8.ofNat i]).1) newL

/-- There is no memory for the new array. -/
def noArray : ReHashAlloc := ⟨false, true, fun _ => true⟩

/-- The 109th insertion fills the table and leaves for want of the new array. -/
theorem insertEntryAllocL_full :
    fullTable.entries.length = 108 ∧
      (fullTable.insertEntryAllocL id [0, 108] .all noArray).2 = .leave ∧
      (fullTable.insertEntryAllocL id [0, 108] .all noArray).1.entries.length = 109 ∧
      [0, 108] ∈ (fullTable.insertEntryAllocL id [0, 108] .all noArray).1.entries := by
  decide +kernel

theorem growsAtomically_iff_full :
    KeptBy id fullTable (fullTable.reHashAllocL id noArray).1 ∧
      ¬ KeptBy id fullTable (fullTable.insertEntryAllocL id [0, 108] .all noArray).1 := by
  obtain ⟨hcount, hleave, -⟩ := insertEntryAllocL_full
  have hslots : fullTable.iEntries ≠ [] := by
    intro hnil
    rw [entries, hnil] at hcount
    cases hcount
  obtain ⟨hrehash, hinsert⟩ := growsAtomically_iff id fullTable hslots
  constructor
  · exact (hrehash noArray rfl).2 (.inl rfl)
  · rw [hinsert [0, 108] .all noArray hleave]
    rintro (⟨-, hnew⟩ | ⟨-, hnew, -⟩)
    · cases hnew
    · cases hnew

/-- The insertion leaves, `InsertL( aUrl )` destroys the entry, and the table still holds it. -/
theorem not_growsAtomically :
    (fullTable.insertEntryAllocL id [0, 108] .all noArray).2 = .leave ∧
      (fullTable.insertUrlAllocL id [0, 108] .all noArray).2 = (none, true) ∧
      [0, 108] ∈ (fullTable.insertUrlAllocL id [0, 108] .all noArray).1.entries ∧
      ¬ KeptBy id fullTable (fullTable.insertEntryAllocL id [0, 108] .all noArray).1 := by
  obtain ⟨hcount, hleave, hcount', hmem⟩ := insertEntryAllocL_full
  obtain ⟨htable, hentry⟩ := insertUrlAllocL_of_leave id hleave
  refine ⟨hleave, hentry, ?_, ?_⟩
  · rw [htable]
    exact hmem
  · intro hkept
    have hlen := hkept.stored.length_eq
    omega

end Full

end SymbianWeb.HttpCache.CHttpCacheLookupTable
