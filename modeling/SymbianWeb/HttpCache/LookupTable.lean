import SymbianWeb.HttpCache.Descriptors
import Mathlib.Data.List.Perm.Basic

/-!
# The open-addressed lookup table

`CHttpCacheLookupTable` keeps pointers in an array of slots. A slot is empty, holds an entry, or
carries the mark of a deleted one. The definitions are generic in the pointer type; `urlOf` reads
the URL of the entry a pointer points to.

The definitions follow `HttpCacheLookupTable.cpp` function by function; what they keep is the
subject of `LookupTablePlacement`.
-/

set_option autoImplicit false

namespace SymbianWeb.HttpCache

/-- One element of `iEntries`: `NULL`, the pointer `0xffffffff` of a deleted item, or an entry. -/
inductive Slot (α : Type) where
  | null
  | deleted
  | entry (aEntry : α)
  deriving DecidableEq

/-- The entry in a slot. -/
def Slot.storedEntry {α : Type} : Slot α → Option α
  | .entry e => some e
  | _ => none

/-- The lookup table: its slots and its counter. -/
structure CHttpCacheLookupTable (α : Type) where
  iEntries : List (Slot α)
  iCount : Int
  deriving DecidableEq

/-- `KHttpCacheLookupTableSize`. -/
def kHttpCacheLookupTableSize : Nat := 217

namespace CHttpCacheLookupTable

variable {α : Type}

/-- `NewL`: all slots empty. -/
def newL : CHttpCacheLookupTable α := ⟨List.replicate kHttpCacheLookupTableSize .null, 0⟩

/-- `iEntries->Count()`. -/
def size (t : CHttpCacheLookupTable α) : Nat := t.iEntries.length

/-- The entry at a position; `none` when there is none or the position is out of bounds. -/
def entryAt (t : CHttpCacheLookupTable α) (aPos : Nat) : Option α :=
  t.iEntries[aPos]?.bind Slot.storedEntry

/-- `Valid`. -/
def valid (t : CHttpCacheLookupTable α) (aPos : Nat) : Bool := (t.entryAt aPos).isSome

/-- `Empty`. -/
def empty (t : CHttpCacheLookupTable α) (aPos : Nat) : Bool :=
  match t.iEntries[aPos]? with
  | some .null => true
  | _ => false

/-- Store into a slot. -/
def setSlot (t : CHttpCacheLookupTable α) (aPos : Nat) (slot : Slot α) :
    CHttpCacheLookupTable α :=
  { t with iEntries := t.iEntries.set aPos slot }

/-- `SetDeleted`. -/
def setDeleted (t : CHttpCacheLookupTable α) (aPos : Nat) : CHttpCacheLookupTable α :=
  t.setSlot aPos .deleted

/-- The table part of `Erase`: mark the slot and count down. -/
def eraseSlot (t : CHttpCacheLookupTable α) (aPos : Nat) : CHttpCacheLookupTable α :=
  { t.setDeleted aPos with iCount := t.iCount - 1 }

/-- All entries, in slot order. -/
def entries (t : CHttpCacheLookupTable α) : List α := t.iEntries.filterMap Slot.storedEntry

/-! ## Probing -/

/-- `HashUrl`. -/
def hashPos (t : CHttpCacheLookupTable α) (aUrl : Des8) : Nat := (hashUrl aUrl).toNat % t.size

/-- The insert loop of `Probe`; the first argument is what `collision` may still grow. -/
def insertLoop (t : CHttpCacheLookupTable α) : Nat → Nat → Nat → Nat
  | 0, _, pos => pos
  | left + 1, collision, pos =>
      if t.valid pos then
        insertLoop t left (collision + 1) ((pos + ((collision + 1) * 2 - 1)) % t.size)
      else pos

/-- `Probe( aKey, ETrue )`. -/
def probeInsert (t : CHttpCacheLookupTable α) (aKey : Des8) : Nat :=
  t.insertLoop (t.size / 2) 0 (t.hashPos aKey)

section Find

variable [Platform] (urlOf : α → Des8)

/-- `Valid( pos ) && entry->Url().CompareF( aKey ) == 0`. -/
def matchesAt (t : CHttpCacheLookupTable α) (aKey : Des8) (pos : Nat) : Bool :=
  match t.entryAt pos with
  | some e => compareF (urlOf e) aKey
  | none => false

/-- The find loop of `Probe`; `none` is the result -1. The first argument bounds the number of
rounds, of which the check on `collision` admits `Count + 2`. -/
def findLoop (t : CHttpCacheLookupTable α) (aKey : Des8) : Nat → Nat → Nat → Option Nat
  | 0, _, _ => none
  | left + 1, collision, pos =>
      if t.empty pos then some pos
      else if t.matchesAt urlOf aKey pos then some pos
      else if t.size < collision then none
      else findLoop t aKey left (collision + 1) ((pos + ((collision + 1) * 2 - 1)) % t.size)

/-- `Probe( aKey, EFalse )`. -/
def probeFind (t : CHttpCacheLookupTable α) (aKey : Des8) : Option Nat :=
  t.findLoop urlOf aKey (t.size + 2) 0 (t.hashPos aKey)

/-- The entry at the position a lookup ends at, when that position is `Valid`. -/
def lookup (t : CHttpCacheLookupTable α) (aKey : Des8) : Option α :=
  (t.probeFind urlOf aKey).bind t.entryAt

end Find

/-! ## Insertion and rehashing -/

/-- The inner loop of `NextPrime`: does some odd `i` from the given one on, with `i * i <= aNum`,
divide `aNum`? -/
def hasOddDivisor : Nat → Nat → Nat → Bool
  | 0, _, _ => false
  | fuel + 1, i, aNum =>
      if i * i ≤ aNum then
        if aNum % i = 0 then true else hasOddDivisor fuel (i + 2) aNum
      else false

/-- The outer loop of `NextPrime`: go on to the next odd number as long as a divisor is found. -/
def nextPrimeLoop : Nat → Nat → Nat
  | 0, aNum => aNum
  | fuel + 1, aNum => if hasOddDivisor aNum 3 aNum then nextPrimeLoop fuel (aNum + 2) else aNum

/-- `NextPrime`. -/
def nextPrime (aNum : Nat) : Nat :=
  let aNum := if aNum % 2 = 0 then aNum + 1 else aNum
  nextPrimeLoop aNum aNum

section Insert

variable (urlOf : α → Des8)

/-- The body of the transfer loop of `ReHashL`, for one slot of the old array. -/
def transfer (t : CHttpCacheLookupTable α) (slot : Slot α) : CHttpCacheLookupTable α :=
  match slot with
  | .entry e =>
      let pos := t.probeInsert (urlOf e)
      if t.valid pos then t else t.setSlot pos (.entry e)
  | _ => t

/-- `ReHashL`. -/
def reHashL (t : CHttpCacheLookupTable α) : CHttpCacheLookupTable α :=
  let newSize := nextPrime (t.size * 2)
  t.iEntries.foldl (transfer urlOf) ⟨List.replicate newSize .null, t.iCount⟩

/-- The insertion at a free position, with the check whether the table is full. -/
def storeAt (t : CHttpCacheLookupTable α) (pos : Nat) (aCacheEntry : α) :
    CHttpCacheLookupTable α :=
  let t := { t.setSlot pos (.entry aCacheEntry) with iCount := t.iCount + 1 }
  if ((t.size / 2 : Nat) : Int) < t.iCount then t.reHashL urlOf else t

/-- `InsertL( CHttpCacheEntry* )`; the Boolean is `false` for `KErrCorrupt`. -/
def insertEntry (t : CHttpCacheLookupTable α) (aCacheEntry : α) :
    CHttpCacheLookupTable α × Bool :=
  let pos := t.probeInsert (urlOf aCacheEntry)
  if t.valid pos then
    -- try to rehash the table if probe failed
    let t := t.reHashL urlOf
    let pos := t.probeInsert (urlOf aCacheEntry)
    if t.valid pos then (t, false) else (t.storeAt urlOf pos aCacheEntry, true)
  else (t.storeAt urlOf pos aCacheEntry, true)

end Insert

/-! ## Slots -/

theorem valid_iff (t : CHttpCacheLookupTable α) (p : Nat) :
    t.valid p = true ↔ ∃ e, t.entryAt p = some e := Option.isSome_iff_exists

theorem entryAt_eq_some {t : CHttpCacheLookupTable α} {p : Nat} {e : α} :
    t.entryAt p = some e ↔ t.iEntries[p]? = some (.entry e) := by
  rw [entryAt, Option.bind_eq_some_iff]
  constructor
  · rintro ⟨slot, hslot, he⟩
    cases slot with
    | null => simp [Slot.storedEntry] at he
    | deleted => simp [Slot.storedEntry] at he
    | entry e' =>
        simp only [Slot.storedEntry, Option.some.injEq] at he
        rw [hslot, he]
  · intro h
    exact ⟨.entry e, h, rfl⟩

theorem empty_iff (t : CHttpCacheLookupTable α) (p : Nat) :
    t.empty p = true ↔ t.iEntries[p]? = some .null := by
  unfold empty
  split
  · simp_all
  · simp_all

theorem lt_size_of_entryAt {t : CHttpCacheLookupTable α} {p : Nat} {e : α}
    (h : t.entryAt p = some e) : p < t.size := by
  rw [entryAt_eq_some] at h
  exact (List.getElem?_eq_some_iff.1 h).1

theorem not_empty_of_entryAt {t : CHttpCacheLookupTable α} {p : Nat} {e : α}
    (h : t.entryAt p = some e) : t.empty p = false := by
  rw [entryAt_eq_some] at h
  simp [empty, h]

@[simp] theorem size_setSlot (t : CHttpCacheLookupTable α) (p : Nat) (slot : Slot α) :
    (t.setSlot p slot).size = t.size := by
  simp [setSlot, size]

@[simp] theorem size_eraseSlot (t : CHttpCacheLookupTable α) (p : Nat) :
    (t.eraseSlot p).size = t.size := by
  simp [eraseSlot, setDeleted, setSlot, size]

theorem getElem?_setSlot (t : CHttpCacheLookupTable α) {p : Nat} (hp : p < t.size)
    (slot : Slot α) (q : Nat) :
    (t.setSlot p slot).iEntries[q]? = if q = p then some slot else t.iEntries[q]? := by
  by_cases hq : q = p
  · subst hq
    rw [if_pos rfl]
    exact List.getElem?_set_self hp
  · rw [if_neg hq]
    exact List.getElem?_set_ne (fun h => hq h.symm)

theorem entryAt_setSlot_entry (t : CHttpCacheLookupTable α) {p : Nat} (hp : p < t.size)
    (e : α) (q : Nat) :
    (t.setSlot p (.entry e)).entryAt q = if q = p then some e else t.entryAt q := by
  rw [entryAt, getElem?_setSlot t hp]
  by_cases hq : q = p
  · simp [hq, Slot.storedEntry]
  · simp [hq, entryAt]

theorem entryAt_eraseSlot (t : CHttpCacheLookupTable α) {p : Nat} (hp : p < t.size) (q : Nat) :
    (t.eraseSlot p).entryAt q = if q = p then none else t.entryAt q := by
  show (t.setSlot p .deleted).entryAt q = _
  rw [entryAt, getElem?_setSlot t hp]
  by_cases hq : q = p
  · simp [hq, Slot.storedEntry]
  · simp [hq, entryAt]

theorem empty_setSlot (t : CHttpCacheLookupTable α) {p : Nat} (hp : p < t.size)
    {slot : Slot α} (hslot : slot ≠ .null) {q : Nat} (h : t.empty q = false) :
    (t.setSlot p slot).empty q = false := by
  rw [Bool.eq_false_iff, ne_eq, empty_iff, getElem?_setSlot t hp]
  by_cases hq : q = p
  · simpa [hq] using hslot
  · rw [if_neg hq, ← empty_iff, h]
    simp

theorem mem_entries {t : CHttpCacheLookupTable α} {e : α} :
    e ∈ t.entries ↔ ∃ p, t.entryAt p = some e := by
  rw [entries, List.mem_filterMap]
  constructor
  · rintro ⟨slot, hmem, he⟩
    obtain ⟨p, hp⟩ := List.mem_iff_getElem?.1 hmem
    refine ⟨p, ?_⟩
    rw [entryAt, hp]
    exact he
  · rintro ⟨p, hp⟩
    rw [entryAt_eq_some] at hp
    exact ⟨.entry e, List.mem_iff_getElem?.2 ⟨p, hp⟩, rfl⟩

theorem filterMap_storedEntry_cons (slot : Slot α) (l : List (Slot α)) :
    (slot :: l).filterMap Slot.storedEntry = slot.storedEntry.toList ++ l.filterMap Slot.storedEntry := by
  cases slot with
  | null => rfl
  | deleted => rfl
  | entry e => rfl

/-- Replacing one slot exchanges the entries of the old and the new slot. -/
theorem filterMap_set_perm {l : List (Slot α)} {p : Nat} {old : Slot α}
    (h : l[p]? = some old) (new : Slot α) :
    (old.storedEntry.toList ++ (l.set p new).filterMap Slot.storedEntry).Perm
      (new.storedEntry.toList ++ l.filterMap Slot.storedEntry) := by
  induction l generalizing p with
  | nil => simp at h
  | cons slot l ih =>
      cases p with
      | zero =>
          simp only [List.getElem?_cons_zero, Option.some.injEq] at h
          subst h
          rw [List.set_cons_zero, filterMap_storedEntry_cons, filterMap_storedEntry_cons]
          exact List.perm_append_comm_assoc _ _ _
      | succ p =>
          rw [List.getElem?_cons_succ] at h
          rw [List.set_cons_succ, filterMap_storedEntry_cons, filterMap_storedEntry_cons]
          refine (List.perm_append_comm_assoc _ _ _).trans ?_
          refine (List.Perm.append_left _ (ih h)).trans ?_
          exact List.perm_append_comm_assoc _ _ _

theorem entries_setSlot_perm (t : CHttpCacheLookupTable α) {p : Nat} (hp : p < t.size)
    (hfree : t.valid p = false) (e : α) :
    (t.setSlot p (.entry e)).entries.Perm (e :: t.entries) := by
  obtain ⟨old, hold⟩ : ∃ old, t.iEntries[p]? = some old := ⟨_, List.getElem?_eq_getElem hp⟩
  have hnone : old.storedEntry = none := by
    rw [valid, Option.isSome_eq_false_iff, Option.isNone_iff_eq_none, entryAt, hold] at hfree
    exact hfree
  have hperm := filterMap_set_perm hold (.entry e)
  rw [hnone] at hperm
  exact hperm

theorem entries_eraseSlot_perm (t : CHttpCacheLookupTable α) {p : Nat} {e : α}
    (h : t.entryAt p = some e) : (e :: (t.eraseSlot p).entries).Perm t.entries := by
  exact filterMap_set_perm (entryAt_eq_some.1 h) .deleted

end CHttpCacheLookupTable

end SymbianWeb.HttpCache
