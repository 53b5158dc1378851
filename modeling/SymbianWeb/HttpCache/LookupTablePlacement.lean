import SymbianWeb.Library.QuadraticProbe
import SymbianWeb.HttpCache.LookupTable
import Mathlib.NumberTheory.Bertrand
import Mathlib.Data.List.Nodup

/-!
# Where entries lie in the lookup table

The invariant `WellPlaced` says that the table has its initial size or an odd prime size, that
the counter counts the entries, that at most half of the slots hold entries, and that every entry
lies on the probe sequence of its URL with no empty slot before it. It holds initially
(`wellPlaced_newL`) and is kept by insertion, rehashing and erasing (`wellPlaced_insertEntry`,
`wellPlaced_reHashL`, `wellPlaced_eraseSlot`).

The initial size 217 is not prime, so an insertion there can fail to reach a free slot. Every
rehash goes to a prime size (`nextPrime_spec`), where the quadratic probe reaches more than half
of the slots; so the second attempt succeeds (`insertEntry_succeeds`). A lookup finds an entry at
its own slot (`probeFind_of_stored`), and a lookup of a URL that is not stored ends at an empty
slot or gives up (`probeFind_of_not_stored`).
-/

set_option autoImplicit false

namespace SymbianWeb.HttpCache.CHttpCacheLookupTable

open QuadraticProbe

variable {α : Type}

/-! ## The next prime -/

theorem hasOddDivisor_spec (fuel i n : Nat) (hfuel : n < i + 2 * fuel) :
    hasOddDivisor fuel i n = true ↔ ∃ j, (i + 2 * j) * (i + 2 * j) ≤ n ∧ n % (i + 2 * j) = 0 := by
  induction fuel generalizing i with
  | zero =>
      refine iff_of_false (by simp [hasOddDivisor]) ?_
      rintro ⟨j, hle, -⟩
      have hpos : n < i + 2 * j := by omega
      have : i + 2 * j ≤ (i + 2 * j) * (i + 2 * j) := Nat.le_mul_of_pos_left _ (by omega)
      omega
  | succ fuel ih =>
      unfold hasOddDivisor
      split
      · rename_i hle
        split
        · rename_i hdvd
          exact iff_of_true rfl ⟨0, hle, hdvd⟩
        · rename_i hndvd
          rw [ih (i + 2) (by omega)]
          constructor
          · rintro ⟨j, hj⟩
            exact ⟨j + 1, by rwa [show i + 2 * (j + 1) = i + 2 + 2 * j by omega]⟩
          · rintro ⟨j, hj⟩
            cases j with
            | zero => exact absurd hj.2 hndvd
            | succ j => exact ⟨j, by rwa [show i + 2 + 2 * j = i + 2 * (j + 1) by omega]⟩
      · rename_i hgt
        refine iff_of_false (by simp) ?_
        rintro ⟨j, hle, -⟩
        have : i * i ≤ (i + 2 * j) * (i + 2 * j) := Nat.mul_le_mul (by omega) (by omega)
        omega

/-- For an odd number the divisor search decides primality. -/
theorem hasOddDivisor_eq_false_iff {n : Nat} (hn : 3 ≤ n) (hodd : n % 2 = 1) :
    hasOddDivisor n 3 n = false ↔ n.Prime := by
  rw [Bool.eq_false_iff, ne_eq, hasOddDivisor_spec n 3 n (by omega)]
  constructor
  · intro hno
    by_contra hprime
    have hfac : n.minFac.Prime := Nat.minFac_prime (by omega)
    have hdvd : n.minFac ∣ n := Nat.minFac_dvd n
    have hsq : n.minFac ^ 2 ≤ n := Nat.minFac_sq_le_self (by omega) hprime
    have hodd' : n.minFac % 2 = 1 := by
      rcases hfac.eq_two_or_odd with htwo | hone
      · rw [htwo] at hdvd
        omega
      · exact hone
    have hge : 3 ≤ n.minFac := by
      have := hfac.two_le
      omega
    refine hno ⟨(n.minFac - 3) / 2, ?_⟩
    rw [show 3 + 2 * ((n.minFac - 3) / 2) = n.minFac by omega]
    exact ⟨by rwa [← pow_two], Nat.mod_eq_zero_of_dvd hdvd⟩
  · rintro hprime ⟨j, hle, hmod⟩
    rcases (Nat.dvd_prime hprime).1 (Nat.dvd_of_mod_eq_zero hmod) with hone | hself
    · omega
    · rw [hself] at hle
      have : n * 3 ≤ n * n := Nat.mul_le_mul_left n hn
      omega

/-- Between an odd number and a later odd prime the loop stops at a prime. -/
theorem nextPrimeLoop_spec (fuel n p : Nat) (hn : 3 ≤ n) (hodd : n % 2 = 1) (hp : p.Prime)
    (hpodd : p % 2 = 1) (hnp : n ≤ p) (hfuel : p ≤ n + 2 * fuel) :
    (nextPrimeLoop fuel n).Prime ∧ nextPrimeLoop fuel n % 2 = 1 ∧ n ≤ nextPrimeLoop fuel n := by
  induction fuel generalizing n with
  | zero =>
      have hpn : p = n := by omega
      subst hpn
      exact ⟨hp, hpodd, Nat.le_refl _⟩
  | succ fuel ih =>
      unfold nextPrimeLoop
      cases hdiv : hasOddDivisor n 3 n with
      | false =>
          have hprime := (hasOddDivisor_eq_false_iff hn hodd).1 hdiv
          exact ⟨hprime, hodd, Nat.le_refl _⟩
      | true =>
          have hne : n ≠ p := by
            rintro rfl
            rw [(hasOddDivisor_eq_false_iff hn hodd).2 hp] at hdiv
            exact absurd hdiv (by decide)
          obtain ⟨hprime, hodd', hle⟩ := ih (n + 2) (by omega) (by omega) (by omega) (by omega)
          exact ⟨hprime, hodd', by simpa using (by omega : n ≤ nextPrimeLoop fuel (n + 2))⟩

/-- `NextPrime` of an even number is an odd prime above it; Bertrand's postulate bounds the
search. -/
theorem nextPrime_spec {m : Nat} (hm : 2 ≤ m) (heven : m % 2 = 0) :
    (nextPrime m).Prime ∧ nextPrime m % 2 = 1 ∧ m < nextPrime m := by
  obtain ⟨p, hp, hlt, hle⟩ := Nat.exists_prime_lt_and_le_two_mul m (by omega)
  have hpodd : p % 2 = 1 := by
    rcases hp.eq_two_or_odd with htwo | hone
    · omega
    · exact hone
  have hstart : nextPrime m = nextPrimeLoop (m + 1) (m + 1) := by
    rw [nextPrime, if_pos heven]
  obtain ⟨hprime, hodd, hge⟩ := nextPrimeLoop_spec (m + 1) (m + 1) p (by omega) (by omega) hp hpodd
    (by omega) (by omega)
  rw [hstart]
  exact ⟨hprime, hodd, by omega⟩

/-! ## The probe loops -/

/-- The insert loop stops at the first probe that is not `Valid`, or when its budget is spent. -/
theorem insertLoop_spec (t : CHttpCacheLookupTable α) (h left k : Nat) :
    ∃ m, k ≤ m ∧ m ≤ k + left ∧
      t.insertLoop left k (probePos t.size h k) = probePos t.size h m ∧
      (∀ j, k ≤ j → j < m → t.valid (probePos t.size h j) = true) ∧
      (m < k + left → t.valid (probePos t.size h m) = false) := by
  induction left generalizing k with
  | zero => exact ⟨k, Nat.le_refl _, Nat.le_refl _, rfl, by omega, by omega⟩
  | succ left ih =>
      unfold insertLoop
      rw [probePos_succ]
      cases hvalid : t.valid (probePos t.size h k) with
      | false => exact ⟨k, Nat.le_refl _, by omega, rfl, by omega, fun _ => hvalid⟩
      | true =>
          obtain ⟨m, hkm, hmle, heq, hbefore, hstop⟩ := ih (k + 1)
          refine ⟨m, by omega, by omega, heq, ?_, fun hlt => hstop (by omega)⟩
          intro j hkj hjm
          rcases Nat.eq_or_lt_of_le hkj with rfl | hlt
          · exact hvalid
          · exact hbefore j hlt hjm

/-- `Probe( aKey, ETrue )` ends at a probe with only `Valid` slots before it. -/
theorem probeInsert_spec {t : CHttpCacheLookupTable α} (hsize : 0 < t.size) (aKey : Des8) :
    ∃ m, m ≤ t.size / 2 ∧ t.probeInsert aKey = probePos t.size (t.hashPos aKey) m ∧
      (∀ j, j < m → t.valid (probePos t.size (t.hashPos aKey) j) = true) ∧
      (m < t.size / 2 → t.valid (probePos t.size (t.hashPos aKey) m) = false) := by
  have hstart : probePos t.size (t.hashPos aKey) 0 = t.hashPos aKey :=
    probePos_zero (Nat.mod_lt _ hsize)
  obtain ⟨m, -, hle, heq, hbefore, hstop⟩ := insertLoop_spec t (t.hashPos aKey) (t.size / 2) 0
  rw [hstart] at heq
  exact ⟨m, by omega, heq, fun j hj => hbefore j (by omega) hj, fun hlt => hstop (by omega)⟩

section Find

variable [Platform] (urlOf : α → Des8)

/-- The find loop stops at the first probe that is `Empty` or holds an entry with an equal URL. -/
theorem findLoop_spec (t : CHttpCacheLookupTable α) (aKey : Des8) (h left k : Nat)
    (hleft : left + k = t.size + 2) :
    (∃ m, k ≤ m ∧ m < k + left ∧
      t.findLoop urlOf aKey left k (probePos t.size h k) = some (probePos t.size h m) ∧
      (t.empty (probePos t.size h m) = true ∨
        t.matchesAt urlOf aKey (probePos t.size h m) = true) ∧
      ∀ j, k ≤ j → j < m → t.empty (probePos t.size h j) = false ∧
        t.matchesAt urlOf aKey (probePos t.size h j) = false) ∨
    (t.findLoop urlOf aKey left k (probePos t.size h k) = none ∧
      ∀ j, k ≤ j → j < k + left → t.empty (probePos t.size h j) = false ∧
        t.matchesAt urlOf aKey (probePos t.size h j) = false) := by
  induction left generalizing k with
  | zero => exact .inr ⟨rfl, by omega⟩
  | succ left ih =>
      unfold findLoop
      rw [probePos_succ]
      cases hempty : t.empty (probePos t.size h k) with
      | true => exact .inl ⟨k, Nat.le_refl _, by omega, by simp, .inl hempty, by omega⟩
      | false =>
          cases hmatch : t.matchesAt urlOf aKey (probePos t.size h k) with
          | true => exact .inl ⟨k, Nat.le_refl _, by omega, by simp, .inr hmatch, by omega⟩
          | false =>
              have hhere : ∀ j, k ≤ j → ¬ k + 1 ≤ j → t.empty (probePos t.size h j) = false ∧
                  t.matchesAt urlOf aKey (probePos t.size h j) = false := by
                intro j hkj hjk
                rw [show j = k by omega]
                exact ⟨hempty, hmatch⟩
              by_cases hgive : t.size < k
              · -- the last round: `collision` has passed the size of the table
                have hlast : left = 0 := by omega
                subst hlast
                exact .inr ⟨by simp [hgive], fun j hkj hj => hhere j hkj (by omega)⟩
              · rcases ih (k + 1) (by omega) with ⟨m, hkm, hmlt, heq, hstop, hbefore⟩ | ⟨heq, hall⟩
                · refine .inl ⟨m, by omega, by omega, by simpa [hgive] using heq, hstop, ?_⟩
                  intro j hkj hjm
                  by_cases hj : k + 1 ≤ j
                  · exact hbefore j hj hjm
                  · exact hhere j hkj hj
                · refine .inr ⟨by simpa [hgive] using heq, ?_⟩
                  intro j hkj hjlt
                  by_cases hj : k + 1 ≤ j
                  · exact hall j hj (by omega)
                  · exact hhere j hkj hj

/-- `Probe( aKey, EFalse )`: the first stop within `Count + 2` probes, or -1. -/
theorem probeFind_spec {t : CHttpCacheLookupTable α} (hsize : 0 < t.size) (aKey : Des8) :
    (∃ m, m < t.size + 2 ∧
      t.probeFind urlOf aKey = some (probePos t.size (t.hashPos aKey) m) ∧
      (t.empty (probePos t.size (t.hashPos aKey) m) = true ∨
        t.matchesAt urlOf aKey (probePos t.size (t.hashPos aKey) m) = true) ∧
      ∀ j, j < m → t.empty (probePos t.size (t.hashPos aKey) j) = false ∧
        t.matchesAt urlOf aKey (probePos t.size (t.hashPos aKey) j) = false) ∨
    (t.probeFind urlOf aKey = none ∧
      ∀ j, j < t.size + 2 → t.empty (probePos t.size (t.hashPos aKey) j) = false ∧
        t.matchesAt urlOf aKey (probePos t.size (t.hashPos aKey) j) = false) := by
  have hstart : probePos t.size (t.hashPos aKey) 0 = t.hashPos aKey :=
    probePos_zero (Nat.mod_lt _ hsize)
  have hspec := findLoop_spec urlOf t aKey (t.hashPos aKey) (t.size + 2) 0 (by omega)
  rw [hstart] at hspec
  rcases hspec with ⟨m, -, hlt, heq, hstop, hbefore⟩ | ⟨heq, hall⟩
  · exact .inl ⟨m, by omega, heq, hstop, fun j hj => hbefore j (by omega) hj⟩
  · exact .inr ⟨heq, fun j hj => hall j (by omega) (by omega)⟩

theorem matchesAt_iff {t : CHttpCacheLookupTable α} {aKey : Des8} {p : Nat} :
    t.matchesAt urlOf aKey p = true ↔
      ∃ e, t.entryAt p = some e ∧ compareF (urlOf e) aKey = true := by
  unfold matchesAt
  cases t.entryAt p with
  | none => simp
  | some e => simp

end Find

/-! ## The placement invariant -/

/-- Position `p` is on the probe sequence of `aUrl`, with no empty slot before it. -/
def Reached (t : CHttpCacheLookupTable α) (aUrl : Des8) (p : Nat) : Prop :=
  ∃ m, m ≤ t.size / 2 ∧ p = probePos t.size (t.hashPos aUrl) m ∧
    ∀ j, j < m → t.empty (probePos t.size (t.hashPos aUrl) j) = false

/-- Every entry is where a lookup of its URL passes. -/
def Chained (urlOf : α → Des8) (t : CHttpCacheLookupTable α) : Prop :=
  ∀ p e, t.entryAt p = some e → t.Reached (urlOf e) p

/-- The invariant of the lookup table. -/
structure WellPlaced (urlOf : α → Des8) (t : CHttpCacheLookupTable α) : Prop where
  size_ok : t.size = kHttpCacheLookupTableSize ∨ (t.size.Prime ∧ t.size % 2 = 1)
  count_eq : t.iCount = t.entries.length
  load : t.entries.length ≤ t.size / 2
  chained : t.Chained urlOf

theorem WellPlaced.size_pos {urlOf : α → Des8} {t : CHttpCacheLookupTable α}
    (h : t.WellPlaced urlOf) : 0 < t.size := by
  rcases h.size_ok with hsize | ⟨hprime, -⟩
  · rw [hsize]
    decide
  · exact hprime.pos

theorem entries_replicate_null (n : Nat) :
    (List.replicate n (Slot.null : Slot α)).filterMap Slot.storedEntry = [] := by
  induction n with
  | zero => rfl
  | succ n ih => rw [List.replicate_succ, filterMap_storedEntry_cons, ih]; rfl

theorem chained_of_entries_nil {urlOf : α → Des8} {t : CHttpCacheLookupTable α}
    (h : t.entries = []) : t.Chained urlOf := by
  intro p e he
  have hmem : e ∈ t.entries := mem_entries.2 ⟨p, he⟩
  rw [h] at hmem
  exact absurd hmem List.not_mem_nil

theorem wellPlaced_newL (urlOf : α → Des8) :
    (newL : CHttpCacheLookupTable α).WellPlaced urlOf where
  size_ok := .inl (List.length_replicate ..)
  count_eq := by
    rw [newL, entries, entries_replicate_null]
    rfl
  load := by
    rw [newL, entries, entries_replicate_null]
    exact Nat.zero_le _
  chained := chained_of_entries_nil (entries_replicate_null _)

/-- Storing at a probed position keeps every entry reached, the new one included. -/
theorem chained_setSlot {urlOf : α → Des8} {t : CHttpCacheLookupTable α} (hsize : 0 < t.size)
    (h : t.Chained urlOf) (e : α) :
    (t.setSlot (t.probeInsert (urlOf e)) (.entry e)).Chained urlOf := by
  obtain ⟨m, hm, hpos, hbefore, -⟩ := probeInsert_spec hsize (urlOf e)
  have hlt : t.probeInsert (urlOf e) < t.size := by
    rw [hpos]
    exact probePos_lt hsize _ _
  intro p a ha
  rw [entryAt_setSlot_entry t hlt] at ha
  cases hp : decide (p = t.probeInsert (urlOf e)) with
  | true =>
      rw [decide_eq_true_eq] at hp
      rw [if_pos hp, Option.some.injEq] at ha
      subst ha
      refine ⟨m, by rwa [size_setSlot], by rwa [hp, hashPos, size_setSlot], ?_⟩
      intro j hj
      rw [hashPos, size_setSlot]
      obtain ⟨b, hb⟩ := (valid_iff t _).1 (hbefore j hj)
      exact empty_setSlot t hlt (by simp) (not_empty_of_entryAt hb)
  | false =>
      rw [decide_eq_false_iff_not] at hp
      rw [if_neg hp] at ha
      obtain ⟨k, hk, hpk, hnonempty⟩ := h p a ha
      refine ⟨k, by rwa [size_setSlot], by rwa [hashPos, size_setSlot], ?_⟩
      intro j hj
      rw [hashPos, size_setSlot]
      exact empty_setSlot t hlt (by simp) (hnonempty j hj)

/-- The `Valid` positions are as many as the entries. -/
theorem card_valid (t : CHttpCacheLookupTable α) :
    ((Finset.range t.size).filter fun p => t.valid p = true).card = t.entries.length := by
  obtain ⟨l, c⟩ := t
  show ((Finset.range l.length).filter fun p => (l[p]?.bind Slot.storedEntry).isSome = true).card =
    (l.filterMap Slot.storedEntry).length
  induction l using List.reverseRecOn with
  | nil => rfl
  | append_singleton l slot ih =>
      have hold : (Finset.range l.length).filter
          (fun p => ((l ++ [slot])[p]?.bind Slot.storedEntry).isSome = true) =
          (Finset.range l.length).filter (fun p => (l[p]?.bind Slot.storedEntry).isSome = true) := by
        refine Finset.filter_congr ?_
        intro p hp
        rw [List.getElem?_append_left (Finset.mem_range.1 hp)]
      rw [List.length_append, List.length_singleton, Finset.range_add_one, Finset.filter_insert,
        hold, List.filterMap_append, List.length_append, ← ih, List.getElem?_concat_length]
      cases slot with
      | null => rfl
      | deleted => rfl
      | entry e =>
          refine (congrArg Finset.card (if_pos rfl)).trans ?_
          rw [Finset.card_insert_of_notMem (by simp)]
          rfl

/-- In a half-empty table of odd prime size the insert probe ends at a free slot. -/
theorem probeInsert_free {t : CHttpCacheLookupTable α} (hprime : t.size.Prime)
    (hodd : t.size % 2 = 1) (hload : t.entries.length ≤ t.size / 2) (aKey : Des8) :
    t.valid (t.probeInsert aKey) = false := by
  obtain ⟨m, hm, hpos, hbefore, hstop⟩ := probeInsert_spec hprime.pos aKey
  rw [hpos]
  cases hvalid : t.valid (probePos t.size (t.hashPos aKey) m) with
  | false => rfl
  | true =>
      have hmax : m = t.size / 2 := by
        rcases Nat.lt_or_eq_of_le hm with hlt | heq
        · rw [hstop hlt] at hvalid
          exact absurd hvalid (by decide)
        · exact heq
      obtain ⟨k, hk, hfree⟩ := exists_free_probe hprime hodd (t.hashPos aKey)
        ((Finset.range t.size).filter fun p => t.valid p = true) (by rwa [card_valid])
      have hvalidK : t.valid (probePos t.size (t.hashPos aKey) k) = true := by
        rcases Nat.lt_or_eq_of_le hk with hlt | heq
        · exact hbefore k (by omega)
        · rw [heq, ← hmax]
          exact hvalid
      exact absurd (Finset.mem_filter.2
        ⟨Finset.mem_range.2 (probePos_lt hprime.pos _ _), hvalidK⟩) hfree

/-- The transfer loop: in a prime table with room for all of them, the entries of the remaining
slots are added to those already moved. -/
theorem foldl_transfer (urlOf : α → Des8) (l : List (Slot α)) (t : CHttpCacheLookupTable α)
    (hprime : t.size.Prime) (hodd : t.size % 2 = 1) (hchained : t.Chained urlOf)
    (hroom : t.entries.length + (l.filterMap Slot.storedEntry).length ≤ t.size / 2) :
    (l.foldl (transfer urlOf) t).size = t.size ∧
      (l.foldl (transfer urlOf) t).iCount = t.iCount ∧
      (l.foldl (transfer urlOf) t).Chained urlOf ∧
      (l.foldl (transfer urlOf) t).entries.Perm (t.entries ++ l.filterMap Slot.storedEntry) := by
  induction l generalizing t with
  | nil => exact ⟨rfl, rfl, hchained, by simp⟩
  | cons slot l ih =>
      rw [List.foldl_cons]
      cases slot with
      | null => exact ih t hprime hodd hchained hroom
      | deleted => exact ih t hprime hodd hchained hroom
      | entry e =>
          rw [filterMap_storedEntry_cons, List.length_append] at hroom
          simp only [Slot.storedEntry, Option.toList_some, List.length_singleton] at hroom
          have hfree := probeInsert_free hprime hodd (by omega) (urlOf e)
          obtain ⟨m, -, hpos, -⟩ := probeInsert_spec hprime.pos (urlOf e)
          have hlt : t.probeInsert (urlOf e) < t.size := by
            rw [hpos]
            exact probePos_lt hprime.pos _ _
          have hperm := entries_setSlot_perm t hlt hfree e
          have hstep : transfer urlOf t (.entry e) =
              t.setSlot (t.probeInsert (urlOf e)) (.entry e) := by
            simp only [transfer]
            rw [hfree]
            rfl
          rw [hstep]
          obtain ⟨hsize, hcount, hch, hentries⟩ :=
            ih (t.setSlot (t.probeInsert (urlOf e)) (.entry e)) (by rwa [size_setSlot])
              (by rwa [size_setSlot]) (chained_setSlot hprime.pos hchained e)
              (by rw [hperm.length_eq, size_setSlot, List.length_cons]; omega)
          refine ⟨by rw [hsize, size_setSlot], hcount, hch, hentries.trans ?_⟩
          rw [filterMap_storedEntry_cons]
          refine (List.Perm.append_right _ hperm).trans ?_
          exact List.perm_append_comm_assoc [e] t.entries _

/-- `ReHashL` moves every entry to a table of odd prime size that is at most half full. -/
theorem reHashL_spec (urlOf : α → Des8) {t : CHttpCacheLookupTable α} (hsize : 0 < t.size) :
    ((t.reHashL urlOf).size.Prime ∧ (t.reHashL urlOf).size % 2 = 1) ∧
      (t.reHashL urlOf).iCount = t.iCount ∧ (t.reHashL urlOf).Chained urlOf ∧
      (t.reHashL urlOf).entries.Perm t.entries ∧
      (t.reHashL urlOf).entries.length ≤ (t.reHashL urlOf).size / 2 := by
  obtain ⟨hprime, hodd, hlt⟩ := nextPrime_spec (m := t.size * 2) (by omega) (by omega)
  have hnew : (⟨List.replicate (nextPrime (t.size * 2)) .null, t.iCount⟩ :
      CHttpCacheLookupTable α).size = nextPrime (t.size * 2) := List.length_replicate ..
  have hnil : (⟨List.replicate (nextPrime (t.size * 2)) .null, t.iCount⟩ :
      CHttpCacheLookupTable α).entries = [] := entries_replicate_null _
  have hlen : t.entries.length ≤ t.size := List.length_filterMap_le ..
  obtain ⟨hsize', hcount, hch, hperm⟩ := foldl_transfer urlOf t.iEntries
    ⟨List.replicate (nextPrime (t.size * 2)) .null, t.iCount⟩ (by rwa [hnew]) (by rwa [hnew])
    (chained_of_entries_nil hnil) (by
      rw [hnil, hnew]
      show 0 + t.entries.length ≤ _
      omega)
  rw [hnil, List.nil_append] at hperm
  rw [hnew] at hsize'
  have hfinal : (t.reHashL urlOf).size = nextPrime (t.size * 2) := hsize'
  have hpermFinal : (t.reHashL urlOf).entries.Perm t.entries := hperm
  refine ⟨by rw [hfinal]; exact ⟨hprime, hodd⟩, hcount, hch, hpermFinal, ?_⟩
  rw [hpermFinal.length_eq, hfinal]
  omega

theorem wellPlaced_reHashL {urlOf : α → Des8} {t : CHttpCacheLookupTable α} (hsize : 0 < t.size)
    (hcount : t.iCount = t.entries.length) : (t.reHashL urlOf).WellPlaced urlOf := by
  obtain ⟨hprime, hcount', hch, hperm, hload⟩ := reHashL_spec urlOf hsize
  exact ⟨.inr hprime, by rw [hcount', hcount, hperm.length_eq], hload, hch⟩

/-- Storing at a free probed position, with the rehash of a full table behind it. -/
theorem storeAt_spec {urlOf : α → Des8} {t : CHttpCacheLookupTable α} (h : t.WellPlaced urlOf)
    (e : α) (hfree : t.valid (t.probeInsert (urlOf e)) = false) :
    (t.storeAt urlOf (t.probeInsert (urlOf e)) e).WellPlaced urlOf ∧
      (t.storeAt urlOf (t.probeInsert (urlOf e)) e).entries.Perm (e :: t.entries) := by
  obtain ⟨m, -, hpos, -⟩ := probeInsert_spec h.size_pos (urlOf e)
  have hlt : t.probeInsert (urlOf e) < t.size := by
    rw [hpos]
    exact probePos_lt h.size_pos _ _
  have hperm := entries_setSlot_perm t hlt hfree e
  have hchained := chained_setSlot h.size_pos h.chained e
  have hcount : t.iCount + 1 =
      (t.setSlot (t.probeInsert (urlOf e)) (.entry e)).entries.length := by
    rw [hperm.length_eq, h.count_eq, List.length_cons]
    rfl
  unfold storeAt
  simp only
  split
  · have hspec := reHashL_spec urlOf
      (t := { t.setSlot (t.probeInsert (urlOf e)) (.entry e) with iCount := t.iCount + 1 })
      (by show 0 < (t.setSlot _ _).size; rw [size_setSlot]; exact h.size_pos)
    refine ⟨wellPlaced_reHashL ?_ hcount, hspec.2.2.2.1.trans hperm⟩
    show 0 < (t.setSlot _ _).size
    rw [size_setSlot]
    exact h.size_pos
  · rename_i hsmall
    refine ⟨⟨?_, hcount, ?_, ?_⟩, hperm⟩
    · have hsize : ({ t.setSlot (t.probeInsert (urlOf e)) (.entry e) with
          iCount := t.iCount + 1 } : CHttpCacheLookupTable α).size = t.size := size_setSlot _ _ _
      rw [hsize]
      exact h.size_ok
    · show (t.setSlot _ _).entries.length ≤ (t.setSlot _ _).size / 2
      have hle : t.iCount + 1 ≤ ((t.setSlot (t.probeInsert (urlOf e)) (.entry e)).size / 2 : Nat) :=
        Int.not_lt.1 hsmall
      rw [hcount] at hle
      exact_mod_cast hle
    · exact hchained

/-- `InsertL` into a well placed table always stores the entry: it never returns `KErrCorrupt`. -/
theorem insertEntry_spec {urlOf : α → Des8} {t : CHttpCacheLookupTable α}
    (h : t.WellPlaced urlOf) (e : α) :
    (t.insertEntry urlOf e).2 = true ∧ (t.insertEntry urlOf e).1.WellPlaced urlOf ∧
      (t.insertEntry urlOf e).1.entries.Perm (e :: t.entries) := by
  cases hvalid : t.valid (t.probeInsert (urlOf e)) with
  | false =>
      obtain ⟨hplaced, hperm⟩ := storeAt_spec h e hvalid
      have heq : t.insertEntry urlOf e =
          (t.storeAt urlOf (t.probeInsert (urlOf e)) e, true) := by
        simp [insertEntry, hvalid]
      rw [heq]
      exact ⟨rfl, hplaced, hperm⟩
  | true =>
      -- the first probe failed; the rehashed table has a prime size, so the second one succeeds
      obtain ⟨⟨hprime, hodd⟩, -, -, hperm, hload⟩ := reHashL_spec urlOf h.size_pos
      have hplaced : (t.reHashL urlOf).WellPlaced urlOf := wellPlaced_reHashL h.size_pos h.count_eq
      have hfree := probeInsert_free hprime hodd hload (urlOf e)
      obtain ⟨hplaced', hperm'⟩ := storeAt_spec hplaced e hfree
      have heq : t.insertEntry urlOf e = ((t.reHashL urlOf).storeAt urlOf
          ((t.reHashL urlOf).probeInsert (urlOf e)) e, true) := by
        simp [insertEntry, hvalid, hfree]
      rw [heq]
      exact ⟨rfl, hplaced', hperm'.trans (List.Perm.cons e hperm)⟩

/-- Erasing marks a slot but leaves no hole in the probe sequences. -/
theorem wellPlaced_eraseSlot {urlOf : α → Des8} {t : CHttpCacheLookupTable α}
    (h : t.WellPlaced urlOf) {p : Nat} {e : α} (he : t.entryAt p = some e) :
    (t.eraseSlot p).WellPlaced urlOf := by
  have hlt := lt_size_of_entryAt he
  have hperm := entries_eraseSlot_perm t he
  have hlen := hperm.length_eq
  rw [List.length_cons] at hlen
  refine ⟨?_, ?_, ?_, ?_⟩
  · rw [size_eraseSlot]
    exact h.size_ok
  · show t.iCount - 1 = _
    rw [h.count_eq]
    omega
  · have := h.load
    rw [size_eraseSlot]
    omega
  · intro q a ha
    rw [entryAt_eraseSlot t hlt] at ha
    cases hq : decide (q = p) with
    | true =>
        rw [decide_eq_true_eq] at hq
        rw [if_pos hq] at ha
        exact absurd ha (by simp)
    | false =>
        rw [decide_eq_false_iff_not] at hq
        rw [if_neg hq] at ha
        obtain ⟨k, hk, hpk, hnonempty⟩ := h.chained q a ha
        refine ⟨k, by rwa [size_eraseSlot], by rwa [hashPos, size_eraseSlot], ?_⟩
        intro j hj
        rw [hashPos, size_eraseSlot]
        exact empty_setSlot t hlt (by simp) (hnonempty j hj)

/-- The invariant depends on the URLs of the stored entries only. -/
theorem WellPlaced.congr {urlOf urlOf' : α → Des8} {t : CHttpCacheLookupTable α}
    (h : t.WellPlaced urlOf) (hurl : ∀ e ∈ t.entries, urlOf' e = urlOf e) :
    t.WellPlaced urlOf' where
  size_ok := h.size_ok
  count_eq := h.count_eq
  load := h.load
  chained p e he := by
    rw [hurl e (mem_entries.2 ⟨p, he⟩)]
    exact h.chained p e he

/-! ## Lookups -/

section Lookup

variable [Platform] {urlOf : α → Des8} {t : CHttpCacheLookupTable α}

/-- No two slots hold entries with equal URLs. -/
def DistinctUrls (urlOf : α → Des8) (t : CHttpCacheLookupTable α) : Prop :=
  ∀ p q a b, t.entryAt p = some a → t.entryAt q = some b →
    compareF (urlOf a) (urlOf b) = true → p = q

/-- A lookup that ends at an entry ends at one with an equal URL. -/
theorem probeFind_matches (hsize : 0 < t.size) {aKey : Des8} {p : Nat} {e : α}
    (hfind : t.probeFind urlOf aKey = some p) (he : t.entryAt p = some e) :
    compareF (urlOf e) aKey = true := by
  rcases probeFind_spec urlOf hsize aKey with ⟨m, -, heq, hstop, -⟩ | ⟨hnone, -⟩
  · rw [heq, Option.some.injEq] at hfind
    rw [hfind] at hstop
    rcases hstop with hempty | hmatch
    · rw [not_empty_of_entryAt he] at hempty
      exact absurd hempty (by decide)
    · obtain ⟨a, ha, hcmp⟩ := (matchesAt_iff urlOf).1 hmatch
      rw [he, Option.some.injEq] at ha
      rwa [ha]
  · rw [hnone] at hfind
    exact absurd hfind (by simp)

variable (urlOf) in
/-- A lookup of the URL of a stored entry ends at an entry with an equal URL. -/
theorem probeFind_of_reached {aKey : Des8} {p : Nat} {e : α}
    (he : t.entryAt p = some e) (hreached : t.Reached aKey p)
    (hcmp : compareF (urlOf e) aKey = true) :
    ∃ q a, t.probeFind urlOf aKey = some q ∧ t.entryAt q = some a ∧
      compareF (urlOf a) aKey = true := by
  have hsize : 0 < t.size := Nat.lt_of_le_of_lt (Nat.zero_le _) (lt_size_of_entryAt he)
  obtain ⟨k, hk, rfl, hnonempty⟩ := hreached
  have hhere : t.matchesAt urlOf aKey (probePos t.size (t.hashPos aKey) k) = true :=
    (matchesAt_iff urlOf).2 ⟨e, he, hcmp⟩
  rcases probeFind_spec urlOf hsize aKey with ⟨m, -, heq, hstop, hbefore⟩ | ⟨-, hall⟩
  · have hmk : m ≤ k := by
      by_contra hgt
      have := (hbefore k (by omega)).2
      rw [hhere] at this
      exact absurd this (by decide)
    have hnot : t.empty (probePos t.size (t.hashPos aKey) m) = false := by
      rcases Nat.lt_or_eq_of_le hmk with hlt | rfl
      · exact hnonempty m hlt
      · exact not_empty_of_entryAt he
    rcases hstop with hempty | hmatch
    · rw [hnot] at hempty
      exact absurd hempty (by decide)
    · obtain ⟨a, ha, hcmp'⟩ := (matchesAt_iff urlOf).1 hmatch
      exact ⟨_, a, heq, ha, hcmp'⟩
  · have := (hall k (by omega)).2
    rw [hhere] at this
    exact absurd this (by decide)

/-- With distinct URLs a lookup of a stored entry's URL returns exactly its slot. -/
theorem probeFind_of_stored (h : t.Chained urlOf) (hdistinct : t.DistinctUrls urlOf) {p : Nat}
    {e : α} (he : t.entryAt p = some e) : t.probeFind urlOf (urlOf e) = some p := by
  obtain ⟨q, a, hfind, ha, hcmp⟩ :=
    probeFind_of_reached urlOf he (h p e he) (compareF_refl _)
  rw [hfind, hdistinct q p a e ha he hcmp]

/-- A lookup of a URL that is not stored never ends at a `Valid` slot. -/
theorem probeFind_of_not_stored (hsize : 0 < t.size) {aKey : Des8}
    (hno : ∀ e ∈ t.entries, compareF (urlOf e) aKey = false) {p : Nat}
    (hfind : t.probeFind urlOf aKey = some p) : t.valid p = false := by
  cases hvalid : t.valid p with
  | false => rfl
  | true =>
      obtain ⟨e, he⟩ := (valid_iff t p).1 hvalid
      have hcmp := probeFind_matches hsize hfind he
      rw [hno e (mem_entries.2 ⟨p, he⟩)] at hcmp
      exact absurd hcmp (by decide)

/-- A lookup of another URL does not notice that an entry is erased. -/
theorem probeFind_eraseSlot {p : Nat} {e : α} (he : t.entryAt p = some e) {aKey : Des8}
    (hne : compareF (urlOf e) aKey = false) :
    (t.eraseSlot p).probeFind urlOf aKey = t.probeFind urlOf aKey := by
  have hlt := lt_size_of_entryAt he
  have hempty : ∀ q, (t.eraseSlot p).empty q = t.empty q := by
    intro q
    cases hq : t.empty q with
    | false => exact empty_setSlot t hlt (by simp) hq
    | true =>
        have hqp : q ≠ p := by
          rintro rfl
          rw [not_empty_of_entryAt he] at hq
          cases hq
        rw [empty_iff] at hq ⊢
        show (t.setSlot p .deleted).iEntries[q]? = _
        rw [getElem?_setSlot t hlt, if_neg hqp, hq]
  have hmatch : ∀ q, (t.eraseSlot p).matchesAt urlOf aKey q = t.matchesAt urlOf aKey q := by
    intro q
    unfold matchesAt
    rw [entryAt_eraseSlot t hlt]
    cases hq : decide (q = p) with
    | true =>
        rw [decide_eq_true_eq] at hq
        subst hq
        rw [if_pos rfl, he]
        exact hne.symm
    | false =>
        rw [decide_eq_false_iff_not] at hq
        rw [if_neg hq]
  have hloop : ∀ left collision pos, (t.eraseSlot p).findLoop urlOf aKey left collision pos =
      t.findLoop urlOf aKey left collision pos := by
    intro left
    induction left with
    | zero => exact fun _ _ => rfl
    | succ left ih =>
        intro collision pos
        simp only [findLoop, hempty, hmatch, ih, size_eraseSlot]
  unfold probeFind
  rw [hloop, hashPos, hashPos, size_eraseSlot]

/-- Different slots have different URLs exactly when the entries pairwise have. -/
theorem distinctUrls_iff : t.DistinctUrls urlOf ↔
    t.entries.Pairwise fun a b => compareF (urlOf a) (urlOf b) = false := by
  rw [entries, List.pairwise_filterMap, List.pairwise_iff_getElem]
  constructor
  · intro h p q hp hq hlt a ha b hb
    have hpa : t.entryAt p = some a := by
      rw [entryAt, List.getElem?_eq_getElem hp]
      exact ha
    have hqb : t.entryAt q = some b := by
      rw [entryAt, List.getElem?_eq_getElem hq]
      exact hb
    cases hcmp : compareF (urlOf a) (urlOf b) with
    | false => rfl
    | true => exact absurd (h p q a b hpa hqb hcmp) (Nat.ne_of_lt hlt)
  · intro h p q a b hp hq hcmp
    have hslot : ∀ {r : Nat} {c : α}, t.entryAt r = some c → ∃ hr : r < t.iEntries.length,
        (t.iEntries[r]).storedEntry = some c := by
      intro r c hr
      refine ⟨lt_size_of_entryAt hr, ?_⟩
      rw [entryAt, List.getElem?_eq_getElem (lt_size_of_entryAt hr)] at hr
      exact hr
    obtain ⟨hpl, hpa⟩ := hslot hp
    obtain ⟨hql, hqb⟩ := hslot hq
    rcases Nat.lt_trichotomy p q with hlt | heq | hlt
    · rw [h p q hpl hql hlt a hpa b hqb] at hcmp
      cases hcmp
    · exact heq
    · rw [compareF_comm, h q p hql hpl hlt b hqb a hpa] at hcmp
      cases hcmp

theorem DistinctUrls.eraseSlot (h : t.DistinctUrls urlOf) {p : Nat} {e : α}
    (he : t.entryAt p = some e) : (t.eraseSlot p).DistinctUrls urlOf := by
  have hlt := lt_size_of_entryAt he
  have hold : ∀ q a, (t.eraseSlot p).entryAt q = some a → t.entryAt q = some a := by
    intro q a hq
    rw [entryAt_eraseSlot t hlt] at hq
    split at hq
    · cases hq
    · exact hq
  intro q r a b hq hr hcmp
  exact h q r a b (hold q a hq) (hold r b hr) hcmp

end Lookup

end SymbianWeb.HttpCache.CHttpCacheLookupTable
