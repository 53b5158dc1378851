import Mathlib
import SymbianWeb.HttpCache.EntrySpec

/-!
# What the eviction makes room for

A round of the eviction looks at the first entry of each bucket and takes the one with the highest
cost (`PickSpec`). The loop ends with enough room, or with a first entry in each bucket that it
cannot take: one that is being received, one that is being written, or one whose cost is negative
as a 32-bit number (`MadeRoom`). What stands behind such an entry is not looked at.
-/

set_option autoImplicit false

namespace SymbianWeb.HttpCache

open FaultState

/-- An entry that the eviction may take: "evacuate nonactive entries only". -/
def CHttpCacheEntry.Evictable (e : CHttpCacheEntry) : Prop :=
  e.iState = .eCacheComplete ∧ e.bodyDataPartiallyWritten = false

instance (e : CHttpCacheEntry) : Decidable e.Evictable := instDecidableAnd

/-- The buckets hold entries that exist and have been accessed, each in one place. -/
structure BucketsLive (s : CacheState) : Prop where
  live : ∀ i, ∀ id ∈ s.iBuckets i, ∃ e, s.heap id = some e ∧ e.iRef ≠ 0
  nodup : ∀ i, (s.iBuckets i).Nodup
  apart : ∀ i j id, id ∈ s.iBuckets i → id ∈ s.iBuckets j → i = j

/-- The bytes that the entries of a list count. -/
def CacheState.sizeOf (s : CacheState) : List EntryId → Nat
  | [] => 0
  | id :: ids => (match s.heap id with | some e => e.size | none => 0) + s.sizeOf ids

theorem sizeOf_congr {s s' : CacheState} {ids : List EntryId}
    (h : ∀ id ∈ ids, (s'.heap id).map CHttpCacheEntry.size = (s.heap id).map CHttpCacheEntry.size) :
    s'.sizeOf ids = s.sizeOf ids := by
  induction ids with
  | nil => rfl
  | cons id ids ih =>
      rw [CacheState.sizeOf, CacheState.sizeOf, ih fun x hmem => h x (List.mem_cons_of_mem _ hmem)]
      have hid := h id List.mem_cons_self
      cases he : s.heap id with
      | none =>
          rw [he, Option.map_none, Option.map_eq_none_iff] at hid
          rw [hid]
      | some e =>
          obtain ⟨e', he', hsize⟩ := exists_of_map_eq hid he
          simp only [he', hsize]

/-- The cost of an entry is at most `maxVal`, if the time since its last access fits in 32 bits. -/
def CostAtMost (currTime maxVal : Int) (e : CHttpCacheEntry) : Prop :=
  ∀ seconds, secondsFrom currTime e.iLastAccessed = some seconds →
    evictionValue seconds e.iBodySize e.iRef.toNat ≤ maxVal

/-! ## One round -/

/-- What the `for` loop has found in the buckets it has looked at. -/
structure PickSpec (s : CacheState) (currTime : Int) (seen : List (Fin 5)) (pick : EvictPick) :
    Prop where
  none : pick.candidate = none → pick.maxVal = -1
  seen : ∀ i ∈ seen, ∀ id, (s.iBuckets i).head? = some id → ∀ e, s.heap id = some e →
    e.Evictable → CostAtMost currTime pick.maxVal e
  some : ∀ i id, pick.candidate = some (i, id) → (s.iBuckets i).head? = some id ∧
    ∃ e, s.heap id = some e ∧ e.Evictable

section Round

variable {s : CacheState} {currTime : Int} {seen : List (Fin 5)}

theorem PickSpec.mono {pick : EvictPick} (h : PickSpec s currTime seen pick) (pick' : EvictPick)
    (hcandidate : pick'.candidate = pick.candidate) (hmax : pick'.maxVal = pick.maxVal)
    {i : Fin 5} (hi : ∀ id, (s.iBuckets i).head? = Option.some id → ∀ e,
      s.heap id = Option.some e → e.Evictable → CostAtMost currTime pick'.maxVal e) :
    PickSpec s currTime (i :: seen) pick' := by
  refine ⟨?_, ?_, ?_⟩
  · rw [hcandidate, hmax]
    exact h.none
  · intro j hmem
    rcases List.mem_cons.1 hmem with rfl | hmem
    · exact hi
    · rw [hmax]
      exact h.seen j hmem
  · rw [hcandidate]
    exact h.some

theorem considerBucket_spec (hlive : BucketsLive s) {pick : EvictPick} (hmax : -1 ≤ pick.maxVal)
    (h : PickSpec s currTime seen pick) (i : Fin 5) :
    ∃ pick', considerBucket s currTime pick i = some pick' ∧ -1 ≤ pick'.maxVal ∧
      PickSpec s currTime (i :: seen) pick' := by
  cases hbucket : s.iBuckets i with
  | nil =>
      refine ⟨pick, by simp only [considerBucket, hbucket], hmax, h.mono pick rfl rfl ?_⟩
      intro id hhead
      rw [hbucket] at hhead
      cases hhead
  | cons id rest =>
      obtain ⟨e, he, href⟩ := hlive.live i id (by rw [hbucket]; exact List.mem_cons_self)
      have hhead : ∀ id', (s.iBuckets i).head? = some id' → ∀ e', s.heap id' = some e' → e' = e := by
        intro id' hid' e' he'
        rw [hbucket, List.head?_cons, Option.some.injEq] at hid'
        subst hid'
        rw [he, Option.some.injEq] at he'
        exact he'.symm
      by_cases hevict : e.iState = .eCacheComplete ∧ e.bodyDataPartiallyWritten = false
      · let secInt := (secondsFrom currTime e.iLastAccessed).getD pick.secInt
        let val := evictionValue secInt e.iBodySize e.iRef.toNat
        have hcost : ∀ maxVal, val ≤ maxVal → CostAtMost currTime maxVal e := by
          intro maxVal hle seconds hseconds
          have hsec : secInt = seconds := by
            show (secondsFrom currTime e.iLastAccessed).getD pick.secInt = seconds
            rw [hseconds, Option.getD_some]
          rw [← hsec]
          exact hle
        by_cases hbetter : pick.maxVal < val
        · -- the entry costs more than those before it
          refine ⟨⟨val, secInt, some (i, id)⟩, ?_, hmax.trans hbetter.le, ?_, ?_, ?_⟩
          · simp only [considerBucket, hbucket, he]
            rw [if_pos hevict, if_neg href, if_pos hbetter]
          · intro hnone
            cases hnone
          · intro j hmem id' hid' e' he' hevict'
            rcases List.mem_cons.1 hmem with rfl | hmem
            · rw [hhead id' hid' e' he']
              exact hcost val le_rfl
            · exact fun seconds hseconds =>
                (h.seen j hmem id' hid' e' he' hevict' seconds hseconds).trans hbetter.le
          · intro j id' hpicked
            cases hpicked
            exact ⟨by rw [hbucket, List.head?_cons], e, he, hevict⟩
        · have hworse : ∀ id', (s.iBuckets i).head? = some id' → ∀ e', s.heap id' = some e' →
              e'.Evictable → CostAtMost currTime pick.maxVal e' := by
            intro id' hid' e' he' _
            rw [hhead id' hid' e' he']
            exact hcost _ (not_lt.1 hbetter)
          have hpick : PickSpec s currTime (i :: seen) { pick with secInt } :=
            h.mono { pick with secInt } rfl rfl hworse
          refine ⟨{ pick with secInt }, ?_, hmax, hpick⟩
          simp only [considerBucket, hbucket, he]
          rw [if_pos hevict, if_neg href, if_neg hbetter]
      · refine ⟨pick, ?_, hmax, h.mono pick rfl rfl ?_⟩
        · simp only [considerBucket, hbucket, he]
          rw [if_neg hevict]
        · intro id' hid' e' he' hevict'
          rw [hhead id' hid' e' he'] at hevict'
          exact absurd hevict' hevict

theorem foldlM_considerBucket_spec (hlive : BucketsLive s) (l : List (Fin 5)) :
    ∀ {seen : List (Fin 5)} {pick : EvictPick}, -1 ≤ pick.maxVal → PickSpec s currTime seen pick →
      ∃ pick', l.foldlM (considerBucket s currTime) pick = some pick' ∧
        PickSpec s currTime (l.reverse ++ seen) pick' := by
  induction l with
  | nil => exact fun _ h => ⟨_, rfl, h⟩
  | cons i l ih =>
      intro seen pick hmax h
      obtain ⟨pick₁, hfirst, hmax₁, h₁⟩ := considerBucket_spec hlive hmax h i
      obtain ⟨pick', hrest, h'⟩ := ih hmax₁ h₁
      refine ⟨pick', ?_, ?_⟩
      · rw [List.foldlM_cons, hfirst]
        exact hrest
      · rw [List.reverse_cons, List.append_assoc, List.singleton_append]
        exact h'

/-- A round finds the first entry with the highest cost that is not negative, if there is one. -/
theorem pickCandidate_spec (hlive : BucketsLive s) (now : Clock) :
    ∃ pick, pickCandidate s now = some pick ∧ PickSpec s now.homeTime [4, 3, 2, 1, 0] pick := by
  have hstart : PickSpec s now.homeTime [] ⟨-1, now.secInt, none⟩ := by
    refine ⟨fun _ => rfl, ?_, ?_⟩
    · intro i hmem
      cases hmem
    · intro i id hpicked
      cases hpicked
  exact foldlM_considerBucket_spec hlive [0, 1, 2, 3, 4] le_rfl hstart

end Round

/-! ## The loop -/

/-- The number of entries in the buckets. -/
def bucketCount (buckets : Fin 5 → List EntryId) : Nat :=
  (buckets 0).length + (buckets 1).length + (buckets 2).length + (buckets 3).length +
    (buckets 4).length

/-- What the eviction has done when it ends: it has taken entries out of their buckets until there
was enough room, or until no first entry was left that it could take. -/
structure MadeRoom (now : Clock) (aSpaceNeeded : Int) (s : CacheState) (evicted : List EntryId)
    (buckets : Fin 5 → List EntryId) : Prop where
  nodup : evicted.Nodup
  picked : ∀ id ∈ evicted, ∃ i e, id ∈ s.iBuckets i ∧ s.heap id = some e ∧ e.Evictable
  removed : ∀ i, buckets i = (s.iBuckets i).filter (· ∉ evicted)
  room : aSpaceNeeded ≤ s.sizeOf evicted ∨ ∀ i id, (buckets i).head? = some id →
    ∀ e, s.heap id = some e → e.Evictable → CostAtMost now.homeTime (-1) e

section Loop

variable {s : CacheState} {i : Fin 5} {id : EntryId} {rest : List EntryId}

/-- The first entry of a bucket is taken out. -/
def CacheState.taken (s : CacheState) (i : Fin 5) (id : EntryId) : CacheState :=
  s.withBuckets (Function.update s.iBuckets i ((s.iBuckets i).erase id))

theorem taken_of_head (hhead : s.iBuckets i = id :: rest) :
    s.taken i id = s.withBuckets (Function.update s.iBuckets i rest) := by
  rw [CacheState.taken, hhead, List.erase_cons_head]

theorem mem_taken (hlive : BucketsLive s) (hhead : s.iBuckets i = id :: rest) (j : Fin 5)
    (x : EntryId) : x ∈ (s.taken i id).iBuckets j ↔ x ∈ s.iBuckets j ∧ x ≠ id := by
  rw [taken_of_head hhead]
  show x ∈ Function.update s.iBuckets i rest j ↔ _
  have hnodup := hlive.nodup i
  rw [hhead, List.nodup_cons] at hnodup
  by_cases hj : j = i
  · subst hj
    rw [Function.update_self, hhead, List.mem_cons]
    constructor
    · intro hmem
      refine ⟨.inr hmem, ?_⟩
      rintro rfl
      exact hnodup.1 hmem
    · rintro ⟨rfl | hmem, hne⟩
      · exact absurd rfl hne
      · exact hmem
  · rw [Function.update_of_ne hj]
    refine ⟨fun hmem => ⟨hmem, ?_⟩, And.left⟩
    rintro rfl
    exact hj (hlive.apart j i x hmem (by rw [hhead]; exact List.mem_cons_self))

theorem BucketsLive.taken (hlive : BucketsLive s) (hhead : s.iBuckets i = id :: rest) :
    BucketsLive (s.taken i id) := by
  refine ⟨?_, ?_, ?_⟩
  · intro j x hmem
    exact hlive.live j x ((mem_taken hlive hhead j x).1 hmem).1
  · intro j
    rw [taken_of_head hhead]
    show (Function.update s.iBuckets i rest j).Nodup
    by_cases hj : j = i
    · subst hj
      rw [Function.update_self]
      have hnodup := hlive.nodup j
      rw [hhead, List.nodup_cons] at hnodup
      exact hnodup.2
    · rw [Function.update_of_ne hj]
      exact hlive.nodup j
  · intro j k x hj hk
    exact hlive.apart j k x ((mem_taken hlive hhead j x).1 hj).1
      ((mem_taken hlive hhead k x).1 hk).1

theorem bucketCount_taken (hhead : s.iBuckets i = id :: rest) :
    bucketCount (s.taken i id).iBuckets + 1 = bucketCount s.iBuckets := by
  rw [taken_of_head hhead]
  show bucketCount (Function.update s.iBuckets i rest) + 1 = _
  have hlength : (s.iBuckets i).length = rest.length + 1 := by rw [hhead, List.length_cons]
  revert hlength
  fin_cases i <;> simp [bucketCount, Function.update] <;> omega

/-- A round that takes an entry, and the rounds after it. -/
theorem MadeRoom.cons {now : Clock} {aSpaceNeeded : Int} {e : CHttpCacheEntry}
    {evicted : List EntryId} {buckets : Fin 5 → List EntryId} (hlive : BucketsLive s)
    (hhead : s.iBuckets i = id :: rest) (he : s.heap id = some e) (hevict : e.Evictable)
    (h : MadeRoom now (aSpaceNeeded - e.iBodySize - e.iHeaderSize.toNat) (s.taken i id) evicted
      buckets) : MadeRoom now aSpaceNeeded s (id :: evicted) buckets := by
  have hsize : (s.taken i id).sizeOf evicted = s.sizeOf evicted := sizeOf_congr fun _ _ => rfl
  refine ⟨?_, ?_, ?_, ?_⟩
  · rw [List.nodup_cons]
    refine ⟨fun hmem => ?_, h.nodup⟩
    obtain ⟨j, _, hj, -, -⟩ := h.picked id hmem
    exact ((mem_taken hlive hhead j id).1 hj).2 rfl
  · intro x hmem
    rcases List.mem_cons.1 hmem with rfl | hmem
    · exact ⟨i, e, by rw [hhead]; exact List.mem_cons_self, he, hevict⟩
    · obtain ⟨j, e', hj, he', hevict'⟩ := h.picked x hmem
      exact ⟨j, e', ((mem_taken hlive hhead j x).1 hj).1, he', hevict'⟩
  · intro j
    have herase : (s.taken i id).iBuckets j = (s.iBuckets j).filter (· ≠ id) := by
      rw [taken_of_head hhead]
      show Function.update s.iBuckets i rest j = _
      by_cases hj : j = i
      · subst hj
        have hnodup := hlive.nodup j
        rw [hhead, List.nodup_cons] at hnodup
        rw [Function.update_self, hhead, List.filter_cons_of_neg (by simp), eq_comm,
          List.filter_eq_self]
        rintro x hmem
        rw [decide_eq_true_eq]
        rintro rfl
        exact hnodup.1 hmem
      · rw [Function.update_of_ne hj, eq_comm, List.filter_eq_self]
        intro x hmem
        rw [decide_eq_true_eq]
        rintro rfl
        exact hj (hlive.apart j i x hmem (by rw [hhead]; exact List.mem_cons_self))
    rw [h.removed, herase, List.filter_filter]
    apply List.filter_congr
    intro x _
    simp [not_or, Bool.and_comm]
  · rcases h.room with hroom | hroom
    · left
      have hcons : s.sizeOf (id :: evicted) = e.size + s.sizeOf evicted := by
        rw [CacheState.sizeOf, he]
      rw [hsize] at hroom
      rw [hcons, CHttpCacheEntry.size]
      push_cast
      omega
    · exact .inr hroom

theorem evictLoop_madeRoom (now : Clock) (fuel : Nat) :
    ∀ (aSpaceNeeded : Int) {s : CacheState}, BucketsLive s → bucketCount s.iBuckets < fuel →
      ∃ evicted buckets,
        evictLoop now fuel aSpaceNeeded s = some (evicted, s.withBuckets buckets) ∧
          MadeRoom now aSpaceNeeded s evicted buckets := by
  induction fuel with
  | zero => exact fun _ _ _ hfuel => absurd hfuel (Nat.not_lt_zero _)
  | succ fuel ih =>
      intro aSpaceNeeded s hlive hfuel
      have hempty : ∀ i, s.iBuckets i = (s.iBuckets i).filter (· ∉ ([] : List EntryId)) := by
        intro i
        simp
      by_cases hneeded : 0 < aSpaceNeeded
      · obtain ⟨pick, hpick, hspec⟩ := pickCandidate_spec hlive now
        cases hcand : pick.candidate with
        | none =>
            refine ⟨[], s.iBuckets, ?_, List.nodup_nil, (fun _ hmem => nomatch hmem), hempty, .inr ?_⟩
            · rw [evictLoop, if_pos hneeded, get_bind, hpick]
              simp only [hcand]
              rfl
            · intro i id hhead e he hevict
              rw [← hspec.none hcand]
              exact hspec.seen i (by fin_cases i <;> simp) id hhead e he hevict
        | some p =>
            obtain ⟨i, id⟩ := p
            obtain ⟨hhead, e, he, hevict⟩ := hspec.some i id hcand
            obtain ⟨rest, hhead⟩ := List.head?_eq_some_iff.1 hhead
            have hcount := bucketCount_taken hhead
            obtain ⟨evicted, buckets, hloop, hroom⟩ := ih
              (aSpaceNeeded - e.iBodySize - e.iHeaderSize.toNat) (hlive.taken hhead) (by omega)
            refine ⟨id :: evicted, buckets, ?_, .cons hlive hhead he hevict hroom⟩
            rw [evictLoop, if_pos hneeded, get_bind, hpick]
            simp only [hcand]
            rw [bind_of (show setBucket i ((s.iBuckets i).erase id) s = some ((), s.taken i id) from
              rfl), bind_of (getEntry_of (s := s.taken i id) he), bind_of hloop]
            rfl
      · refine ⟨[], s.iBuckets, ?_, List.nodup_nil, (fun _ hmem => nomatch hmem), hempty, .inl ?_⟩
        · rw [evictLoop, if_neg hneeded]
          rfl
        · exact not_lt.1 hneeded

/-- `EvictL` ends, and makes room for what is needed as far as the first entries of the buckets
can be taken. -/
theorem evictL_madeRoom (now : Clock) (aSpaceNeeded : Int) (s : CacheState)
    (hlive : BucketsLive s) : ∃ evicted buckets,
      evictL now aSpaceNeeded s = some (evicted, s.withBuckets buckets) ∧
        MadeRoom now aSpaceNeeded s evicted buckets := by
  obtain ⟨evicted, buckets, hloop, hroom⟩ := evictLoop_madeRoom now (bucketCount s.iBuckets + 1)
    aSpaceNeeded hlive (Nat.lt_succ_self _)
  exact ⟨evicted, buckets, hloop, hroom⟩

end Loop

/-- A cache with two entries in the last bucket. -/
def twoInBucket (first second : CHttpCacheEntry) : CacheState :=
  { CacheState.newL 100 [] 0 none fun _ => none with
    iBuckets := fun i => if i = 4 then [0, 1] else []
    heap := fun id => if id = 0 then some first else if id = 1 then some second else none
    nextId := 2 }

/-- An entry with a body of 16 bytes. -/
def sixteenBytes (state : TCacheEntryState) : CHttpCacheEntry :=
  { CHttpCacheEntry.newLC [] with
    iState := state, iRef := 1, iBodySize := 16, iEvictionCandidate := true }

theorem bucketsLive_twoInBucket {first second : CHttpCacheEntry} (hfirst : first.iRef ≠ 0)
    (hsecond : second.iRef ≠ 0) : BucketsLive (twoInBucket first second) := by
  have hbucket : ∀ i, i ≠ 4 → (twoInBucket first second).iBuckets i = [] :=
    fun i hi => if_neg hi
  have hmem : ∀ i, ∀ id ∈ (twoInBucket first second).iBuckets i, i = 4 := by
    intro i id hid
    by_contra hne
    rw [hbucket i hne] at hid
    cases hid
  refine ⟨?_, ?_, ?_⟩
  · intro i id hid
    obtain rfl := hmem i id hid
    rcases List.mem_cons.1 hid with rfl | hid
    · exact ⟨first, rfl, hfirst⟩
    · rw [List.mem_singleton.1 hid]
      exact ⟨second, rfl, hsecond⟩
  · intro i
    by_cases hi : i = 4
    · subst hi
      show [0, 1].Nodup
      decide
    · rw [hbucket i hi]
      exact List.nodup_nil
  · intro i j id hi hj
    rw [hmem i id hi, hmem j id hj]

theorem evictL_madeRoom_twoInBucket : ∃ evicted buckets,
    evictL ⟨1000000, 0⟩ 20 (twoInBucket (sixteenBytes .eCacheComplete)
      (sixteenBytes .eCacheComplete)) = some (evicted, (twoInBucket (sixteenBytes .eCacheComplete)
        (sixteenBytes .eCacheComplete)).withBuckets buckets) ∧
      MadeRoom ⟨1000000, 0⟩ 20 (twoInBucket (sixteenBytes .eCacheComplete)
        (sixteenBytes .eCacheComplete)) evicted buckets :=
  evictL_madeRoom ⟨1000000, 0⟩ 20 _ (bucketsLive_twoInBucket (by decide) (by decide))

/-- An entry that is being received again stands before a complete one. -/
theorem not_evictL_makes_room :
    ¬ ∀ (now : Clock) (aSpaceNeeded : Int) (s : CacheState), BucketsLive s →
      ∃ evicted buckets, evictL now aSpaceNeeded s = some (evicted, s.withBuckets buckets) ∧
        (aSpaceNeeded ≤ s.sizeOf evicted ∨
          ∀ i, ∀ id ∈ buckets i, ∀ e, s.heap id = some e → ¬ e.Evictable) := by
  intro hclaim
  obtain ⟨evicted, buckets, hrun, hroom⟩ := hclaim ⟨1000000, 0⟩ 16
    (twoInBucket (sixteenBytes .eCacheResponding) (sixteenBytes .eCacheComplete))
    (bucketsLive_twoInBucket (by decide) (by decide))
  have hevicted : [] = evicted := by
    have h := congrArg (Option.map Prod.fst) hrun
    exact Option.some.inj h
  have hbuckets : [0, 1] = buckets 4 := by
    have h := congrArg (Option.map fun r : List EntryId × CacheState => r.2.iBuckets 4) hrun
    exact Option.some.inj h
  rcases hroom with hsize | hnone
  · rw [← hevicted] at hsize
    exact absurd hsize (by decide)
  · refine hnone 4 1 ?_ _ rfl ⟨rfl, rfl⟩
    rw [← hbuckets]
    decide

end SymbianWeb.HttpCache
