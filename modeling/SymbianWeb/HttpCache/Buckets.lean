import SymbianWeb.Library.BucketQueues
import SymbianWeb.HttpCache.Start

/-!
# The eviction buckets

Which bucket an entry is in is not stored: it is computed again from the body size and the
reference count whenever the entry is moved or removed. `Buckets P X` is the invariant behind
this: an eviction candidate is in the bucket of its current size and count and in no other one,
and all other entries, and all pointers to deleted entries, are in none.

Two exceptions are parameters. The entries `P` have been taken out of their bucket by an eviction
that has not cleared their flag yet. The entries `X` are having their headers saved: an entry that
was complete before and is being received again keeps its place in its bucket until the old body
is removed, and the flag `iBodyFileDeleteNeeded` that says so is set last.
-/

set_option autoImplicit false

namespace SymbianWeb.HttpCache

open FaultState BucketQueues CHttpCacheLookupTable

/-- What the invariant says about one entry. -/
structure EntryLinked (P X : EntryId → Prop) (buckets : Fin 5 → List EntryId) (i : EntryId)
    (e : CHttpCacheEntry) : Prop where
  linked : e.iEvictionCandidate = true → ¬ P i → InOnly buckets i e.bucket
  unlinked : e.iEvictionCandidate = false ∨ P i → Nowhere buckets i
  ref : e.iEvictionCandidate = true → e.iRef ≠ 0
  receiving : ¬ X i → e.iState = .eCacheResponding → e.iEvictionCandidate = true →
    e.iBodyFileDeleteNeeded = true ∧ e.iBodySize ≠ 0
  new : e.iState = .eCacheInitialized → e.iEvictionCandidate = false

/-- The eviction candidates are in their buckets, and nothing else is. -/
structure Buckets (P X : EntryId → Prop) (s : CacheState) : Prop where
  table : TableInv s
  entry : ∀ i e, s.heap i = some e → EntryLinked P X s.iBuckets i e
  gone : ∀ i, s.heap i = none → Nowhere s.iBuckets i

variable {P X : EntryId → Prop} {s s' : CacheState}

/-- What the invariant reads of an entry. -/
def CHttpCacheEntry.linkCore (e : CHttpCacheEntry) :
    TCacheEntryState × UInt16 × Nat × Bool × Bool :=
  (e.iState, e.iRef, e.iBodySize, e.iEvictionCandidate, e.iBodyFileDeleteNeeded)

/-- The invariant of an entry depends on its link core and its places in the buckets. -/
theorem EntryLinked.congr {buckets buckets' : Fin 5 → List EntryId} {i : EntryId}
    {e e' : CHttpCacheEntry} (h : EntryLinked P X buckets i e) (heq : e'.linkCore = e.linkCore)
    (hsame : SameFor buckets buckets' i) : EntryLinked P X buckets' i e' := by
  simp only [CHttpCacheEntry.linkCore, Prod.mk.injEq] at heq
  obtain ⟨hstate, href, hsize, hcand, hneeded⟩ := heq
  have hbucket : e'.bucket = e.bucket := by
    rw [CHttpCacheEntry.bucket, CHttpCacheEntry.bucket, href, hsize]
  refine ⟨?_, ?_, ?_, ?_, ?_⟩
  · intro hc hP
    rw [hbucket]
    exact (h.linked (hcand ▸ hc) hP).same hsame
  · intro hcase
    exact (h.unlinked (hcand ▸ hcase)).same hsame
  · intro hc
    rw [href]
    exact h.ref (hcand ▸ hc)
  · intro hX hs hc
    rw [hneeded, hsize]
    exact h.receiving hX (hstate ▸ hs) (hcand ▸ hc)
  · intro hs
    rw [hcand]
    exact h.new (hstate ▸ hs)

/-- An entry that is no candidate has to be in no bucket. -/
theorem EntryLinked.of_not_candidate {buckets : Fin 5 → List EntryId} {i : EntryId}
    {e : CHttpCacheEntry} (hcand : e.iEvictionCandidate = false) (h : Nowhere buckets i) :
    EntryLinked P X buckets i e := by
  refine ⟨?_, fun _ => h, ?_, ?_, fun _ => hcand⟩
  · intro hc
    rw [hcand] at hc
    cases hc
  · intro hc
    rw [hcand] at hc
    cases hc
  · intro _ _ hc
    rw [hcand] at hc
    cases hc

/-! ## Steps that leave the buckets alone -/

/-- The same buckets, and the same values of what the invariant reads. -/
structure LinkFrame (s s' : CacheState) : Prop extends Frame s s' where
  buckets : s'.iBuckets = s.iBuckets
  core : ∀ i, (s'.heap i).map CHttpCacheEntry.linkCore = (s.heap i).map CHttpCacheEntry.linkCore

theorem linkCore_of_core {o o' : Option CHttpCacheEntry}
    (h : o'.map CHttpCacheEntry.core = o.map CHttpCacheEntry.core) :
    o'.map CHttpCacheEntry.linkCore = o.map CHttpCacheEntry.linkCore :=
  map_eq_of_map_eq (fun c : EntryCore =>
    (c.iState, c.iRef, c.iBodySize, c.iEvictionCandidate, c.iBodyFileDeleteNeeded)) h

theorem Quiet.linkFrame (h : Quiet s s') : LinkFrame s s' :=
  ⟨h.frame, h.buckets, fun i => linkCore_of_core (h.core i)⟩

theorem eq_none_of_map_eq {α : Type} {f : CHttpCacheEntry → α} {o o' : Option CHttpCacheEntry}
    (h : o'.map f = o.map f) (ho' : o' = none) : o = none := by
  rw [ho', Option.map_none, eq_comm, Option.map_eq_none_iff] at h
  exact h

theorem Buckets.of_linkFrame (h : Buckets P X s) (hf : LinkFrame s s') : Buckets P X s' := by
  refine ⟨h.table.of_frame hf.toFrame, ?_, ?_⟩
  · intro i e' he'
    obtain ⟨e, he, heq⟩ := exists_of_map_eq (hf.core i).symm he'
    apply (h.entry i e he).congr heq.symm
    rw [hf.buckets]
    exact SameFor.refl _ _
  · intro i hi
    rw [hf.buckets]
    exact h.gone i (eq_none_of_map_eq (hf.core i) hi)

/-! ## Steps that change one entry -/

/-- An entry is replaced, and with it the buckets, in which no other entry moves. -/
theorem Buckets.of_setEntry {P' X' : EntryId → Prop} (h : Buckets P X s) {id : EntryId}
    {e e' : CHttpCacheEntry} {buckets : Fin 5 → List EntryId} (he : s.heap id = some e)
    (hnames : e'.names = e.names) (hothers : ∀ i, i ≠ id → SameFor s.iBuckets buckets i)
    (hP : ∀ i, i ≠ id → (P' i ↔ P i)) (hX : ∀ i, i ≠ id → (X' i ↔ X i))
    (hentry : EntryLinked P' X' buckets id e') :
    Buckets P' X' ((s.withBuckets buckets).setEntry id (some e')) := by
  have hold : ∀ i, i ≠ id → ((s.withBuckets buckets).setEntry id (some e')).heap i = s.heap i := by
    intro i hi
    rw [heap_setEntry, if_neg hi]
    rfl
  refine ⟨?_, ?_, ?_⟩
  · apply h.table.of_frame
    exact ⟨rfl, rfl, rfl, List.suffix_refl _, map_setEntry (s := s.withBuckets buckets) he hnames⟩
  · intro i e₁ he₁
    cases hi : decide (i = id) with
    | true =>
        rw [decide_eq_true_eq] at hi
        subst hi
        rw [heap_setEntry_self, Option.some.injEq] at he₁
        rw [← he₁]
        exact hentry
    | false =>
        rw [decide_eq_false_iff_not] at hi
        rw [hold i hi] at he₁
        have hl := (h.entry i e₁ he₁).congr rfl (hothers i hi)
        refine ⟨?_, ?_, hl.ref, ?_, hl.new⟩
        · intro hcand hp
          exact hl.linked hcand fun hp' => hp ((hP i hi).2 hp')
        · intro hcase
          exact hl.unlinked (hcase.imp_right (hP i hi).1)
        · intro hx
          exact hl.receiving fun hx' => hx ((hX i hi).2 hx')
  · intro i hi
    have hne : i ≠ id := by
      rintro rfl
      rw [heap_setEntry_self] at hi
      cases hi
    rw [hold i hne] at hi
    exact (h.gone i hi).same (hothers i hne)

/-- The same, when the buckets stay as they are. -/
theorem Buckets.of_setEntry_same {P' X' : EntryId → Prop} (h : Buckets P X s) {id : EntryId}
    {e e' : CHttpCacheEntry} (he : s.heap id = some e) (hnames : e'.names = e.names)
    (hP : ∀ i, i ≠ id → (P' i ↔ P i)) (hX : ∀ i, i ≠ id → (X' i ↔ X i))
    (hentry : EntryLinked P' X' s.iBuckets id e') :
    Buckets P' X' (s.setEntry id (some e')) :=
  h.of_setEntry he hnames (fun _ _ => SameFor.refl _ _) hP hX hentry

/-! ## Erasing and inserting -/

theorem Buckets.of_erased (h : Buckets P X s) {pos : Nat} {id : EntryId} {e : CHttpCacheEntry}
    (he : Erased pos id e s s') : Buckets P X s' := by
  have hl := h.entry id e he.entry
  -- afterwards the entry is nowhere, and the others are where they were
  have hsame : ∀ i, i ≠ id → SameFor s.iBuckets s'.iBuckets i := by
    intro i hi
    rw [he.buckets]
    split
    · exact sameFor_erase hi
    · exact SameFor.refl _ _
  have hgone : Nowhere s'.iBuckets id := by
    rw [he.buckets]
    cases hcand : e.iEvictionCandidate with
    | false => exact hl.unlinked (.inl hcand)
    | true =>
        rw [if_pos rfl]
        cases Classical.em (P id) with
        | inl hP =>
            have hnowhere := hl.unlinked (.inr hP)
            rw [hnowhere.erase]
            exact hnowhere
        | inr hP => exact (hl.linked hcand hP).erase
  refine ⟨h.table.of_erased he, ?_, ?_⟩
  · intro i e' he'
    have hne : i ≠ id := by
      rintro rfl
      rw [he.gone] at he'
      cases he'
    obtain ⟨e₀, he₀, heq⟩ := exists_of_map_eq (linkCore_of_core (he.others i hne)).symm he'
    exact (h.entry i e₀ he₀).congr heq.symm (hsame i hne)
  · intro i hi
    cases hid : decide (i = id) with
    | true =>
        rw [decide_eq_true_eq] at hid
        rw [hid]
        exact hgone
    | false =>
        rw [decide_eq_false_iff_not] at hid
        exact (h.gone i (eq_none_of_map_eq (he.others i hid) hi)).same (hsame i hid)

/-- A new entry, in the bucket where it belongs or in none. -/
theorem Buckets.of_added (h : Buckets P X s) {id : EntryId} {e : CHttpCacheEntry}
    (hi : Added id s s') (he : s'.heap id = some e)
    (hothers : ∀ i, i ≠ id → SameFor s.iBuckets s'.iBuckets i)
    (hentry : Nowhere s.iBuckets id → EntryLinked P X s'.iBuckets id e) : Buckets P X s' := by
  have hnowhere : Nowhere s.iBuckets id := by
    apply h.gone
    cases hold : s.heap id with
    | none => rfl
    | some e₀ =>
        have hlt := h.table.fresh id (by rw [hold]; rfl)
        rw [hi.isNew] at hlt
        exact absurd hlt (Nat.lt_irrefl _)
  refine ⟨h.table.of_added hi, ?_, ?_⟩
  · intro i e₁ he₁
    cases hid : decide (i = id) with
    | true =>
        rw [decide_eq_true_eq] at hid
        subst hid
        rw [he, Option.some.injEq] at he₁
        rw [← he₁]
        exact hentry hnowhere
    | false =>
        rw [decide_eq_false_iff_not] at hid
        rw [hi.others i hid] at he₁
        exact (h.entry i e₁ he₁).congr rfl (hothers i hid)
  · intro i hnone
    have hne : i ≠ id := by
      rintro rfl
      rw [he] at hnone
      cases hnone
    rw [hi.others i hne] at hnone
    exact (h.gone i hnone).same (hothers i hne)

/-! ## The methods of an entry -/

/-- `SetState` to a state in which the entry is neither new nor received. -/
theorem Buckets.setState (h : Buckets P X s) {id : EntryId} {st : TCacheEntryState} {a : Unit}
    {X' : EntryId → Prop} (hX : ∀ i, i ≠ id → (X' i ↔ X i)) (hP : ¬ P id)
    (hresponding : st ≠ .eCacheResponding) (hnew : st ≠ .eCacheInitialized)
    (hrun : setState id st s = some (a, s')) : Buckets P X' s' := by
  obtain ⟨e, he, -⟩ := getEntry_bind.1 hrun
  have hl := h.entry id e he
  cases hcase : decide (st = .eCacheComplete ∧ e.iEvictionCandidate = false) with
  | true =>
      rw [decide_eq_true_eq] at hcase
      obtain ⟨rfl, hcand⟩ := hcase
      obtain ⟨href, rfl⟩ := setState_complete_run he hcand hrun
      refine h.of_setEntry he rfl (fun i hi => sameFor_append hi) (fun _ _ => Iff.rfl) hX ?_
      refine ⟨?_, ?_, fun _ => href, ?_, ?_⟩
      · intro _ _
        exact inOnly_append (hl.unlinked (.inl hcand))
      · rintro (hfalse | hp)
        · cases hfalse
        · exact absurd hp hP
      · intro _ hstate
        cases hstate
      · intro hstate
        cases hstate
  | false =>
      rw [decide_eq_false_iff_not] at hcase
      obtain rfl := setState_other_run he hcase hrun
      refine h.of_setEntry_same he rfl (fun _ _ => Iff.rfl) hX ⟨hl.linked, hl.unlinked, hl.ref, ?_, ?_⟩
      · intro _ hstate
        exact absurd hstate hresponding
      · intro hstate
        exact absurd hstate hnew

/-- `SetState( ECacheResponding )`, after which the entry is an exception unless it is no
candidate. -/
theorem Buckets.responding (h : Buckets P X s) {id : EntryId} {a : Unit} {X' : EntryId → Prop}
    (hX : ∀ i, i ≠ id → (X' i ↔ X i))
    (hcand : X' id ∨ ∀ e, s.heap id = some e → e.iEvictionCandidate = false)
    (hrun : HttpCache.setState id .eCacheResponding s = some (a, s')) : Buckets P X' s' := by
  obtain ⟨e, he, -⟩ := getEntry_bind.1 hrun
  have hl := h.entry id e he
  obtain rfl := setState_other_run he (fun hc => absurd hc.1 (by decide)) hrun
  refine h.of_setEntry_same he rfl (fun _ _ => Iff.rfl) hX ⟨hl.linked, hl.unlinked, hl.ref, ?_, ?_⟩
  · intro hx _ hc
    rcases hcand with hx' | hfalse
    · exact absurd hx' hx
    · change e.iEvictionCandidate = true at hc
      rw [hfalse e he] at hc
      cases hc
  · intro hstate
    cases hstate

/-- `SetBodySize( 0 )` takes an entry that loses its body out of its bucket. -/
theorem Buckets.setBodySize_zero (h : Buckets P X s) {id : EntryId} {a : Unit} (hP : ¬ P id)
    (hrun : setBodySize id 0 s = some (a, s')) : Buckets P X s' := by
  obtain ⟨e, he, -⟩ := getEntry_bind.1 hrun
  have hl := h.entry id e he
  cases hcase : decide (e.iBodySize ≠ 0 ∧ e.iEvictionCandidate = true) with
  | true =>
      rw [decide_eq_true_eq] at hcase
      obtain ⟨hsize, hcand⟩ := hcase
      obtain rfl := setBodySize_unlink_run he hsize hcand hrun
      refine h.of_setEntry he rfl (fun i hi => sameFor_erase hi) (fun _ _ => Iff.rfl)
        (fun _ _ => Iff.rfl) ?_
      exact .of_not_candidate rfl (hl.linked hcand hP).erase
  | false =>
      rw [decide_eq_false_iff_not] at hcase
      obtain rfl := setBodySize_other_run he (fun hc => hcase ⟨hc.1, hc.2.2⟩) hrun
      refine h.of_setEntry_same he rfl (fun _ _ => Iff.rfl) (fun _ _ => Iff.rfl) ?_
      cases hcand : e.iEvictionCandidate with
      | false => exact .of_not_candidate rfl (hl.unlinked (.inl hcand))
      | true =>
          -- a candidate without a body keeps its size
          have hzero : e.iBodySize = 0 := by
            apply Decidable.byContradiction
            intro hne
            exact hcase ⟨hne, hcand⟩
          apply hl.congr _ (SameFor.refl _ _)
          rw [CHttpCacheEntry.linkCore, CHttpCacheEntry.linkCore, hzero, hcand]

/-- `SetBodySize` of an entry that is no candidate. -/
theorem Buckets.setBodySize_idle (h : Buckets P X s) {id : EntryId} {n : Nat} {a : Unit}
    (hcand : ∀ e, s.heap id = some e → e.iEvictionCandidate = false)
    (hrun : setBodySize id n s = some (a, s')) : Buckets P X s' := by
  obtain ⟨e, he, -⟩ := getEntry_bind.1 hrun
  have hl := h.entry id e he
  have hfalse := hcand e he
  obtain rfl := setBodySize_other_run he (fun hc => by rw [hfalse] at hc; cases hc.2.2) hrun
  refine h.of_setEntry_same he rfl (fun _ _ => Iff.rfl) (fun _ _ => Iff.rfl) ?_
  exact .of_not_candidate hfalse (hl.unlinked (.inl hfalse))

/-! ## Accessed -/

/-- `Accessed` of the eviction handler, for a candidate whose count has just changed: it looks for
the entry in the bucket of one access less. -/
theorem evictionAccessed_spec {id : EntryId} {e : CHttpCacheEntry} {k : Fin 5} {a : Unit}
    (he : s.heap id = some e) (hk : InOnly s.iBuckets id k)
    (hcase : e.bucket = k ∨
      2 ≤ e.iRef.toNat ∧ bucketOf e.iBodySize (e.iRef.toNat - 1) = k)
    (hrun : evictionAccessed id s = some (a, s')) : ∃ buckets, s' = s.withBuckets buckets ∧
      InOnly buckets id e.bucket ∧ ∀ i, i ≠ id → SameFor s.iBuckets buckets i := by
  rw [evictionAccessed, bind_of (getEntry_of he), get_bind] at hrun
  have hstay : e.bucket = k → a = () ∧ s' = s → ∃ buckets, s' = s.withBuckets buckets ∧
      InOnly buckets id e.bucket ∧ ∀ i, i ≠ id → SameFor s.iBuckets buckets i := by
    rintro rfl ⟨-, rfl⟩
    exact ⟨s'.iBuckets, rfl, hk, fun _ _ => SameFor.refl _ _⟩
  split at hrun
  · next href =>
      dsimp only at hrun
      split at hrun
      · next hmem =>
          have hcurrent : bucketOf e.iBodySize (e.iRef.toNat - 1) = k := hk.eq_of_mem hmem
          rw [hcurrent] at hrun
          split at hrun
          · next hsame =>
              rcases whenM_run.1 hrun with ⟨-, hrun⟩ | ⟨-, heq⟩
              · obtain rfl := setBucket_run.1 hrun
                rw [← hsame]
                refine ⟨_, rfl, ?_, fun i hi => ?_⟩
                · have hmove := hk.move (j := k)
                  rw [Function.update_self, Function.update_idem] at hmove
                  exact hmove
                · have hmove := sameFor_move (q := s.iBuckets) (k := k) (j := k) hi
                  rw [Function.update_self, Function.update_idem] at hmove
                  exact hmove
              · exact hstay hsame.symm ⟨rfl, heq⟩
          · next hother =>
              obtain ⟨_, s₁, hfirst, hrun⟩ := bind_eq_some.1 hrun
              obtain rfl := setBucket_run.1 hfirst
              obtain rfl := setBucket_run.1 hrun
              refine ⟨_, rfl, ?_, fun i hi => ?_⟩
              · have hmove := hk.move (j := e.bucket)
                rw [Function.update_of_ne (fun heq => hother heq.symm)] at hmove
                exact hmove
              · have hmove := sameFor_move (q := s.iBuckets) (k := k) (j := e.bucket) hi
                rw [Function.update_of_ne (fun heq => hother heq.symm)] at hmove
                exact hmove
      · next hnot =>
          -- it is not there, so it is in the bucket where it belongs
          rw [pure_eq_some, Prod.mk.injEq] at hrun
          rcases hcase with heq | ⟨-, heq⟩
          · exact hstay heq ⟨rfl, hrun.2⟩
          · rw [heq] at hnot
            exact absurd hk.mem hnot
  · next href =>
      rw [pure_eq_some, Prod.mk.injEq] at hrun
      rcases hcase with heq | ⟨htwo, -⟩
      · exact hstay heq ⟨rfl, hrun.2⟩
      · exact absurd htwo (by omega)

/-- An entry with another reference count is moved if it is a candidate. -/
theorem Buckets.moved (h : Buckets P X s) {id : EntryId} {e e' : CHttpCacheEntry}
    (he : s.heap id = some e) (hP : ¬ P id) (hnames : e'.names = e.names)
    (hkeep : (e'.iState, e'.iBodySize, e'.iEvictionCandidate, e'.iBodyFileDeleteNeeded) =
      (e.iState, e.iBodySize, e.iEvictionCandidate, e.iBodyFileDeleteNeeded))
    (hcase : e.iEvictionCandidate = true → e'.iRef ≠ 0 ∧ (e'.bucket = e.bucket ∨
      2 ≤ e'.iRef.toNat ∧ bucketOf e'.iBodySize (e'.iRef.toNat - 1) = e.bucket))
    {a : Unit} (hrun : whenM (e'.iEvictionCandidate = true) (evictionAccessed id)
      (s.setEntry id (some e')) = some (a, s')) : Buckets P X s' := by
  have hl := h.entry id e he
  simp only [Prod.mk.injEq] at hkeep
  obtain ⟨hstate, hsize, hcand, hneeded⟩ := hkeep
  rcases whenM_run.1 hrun with ⟨htrue, hrun⟩ | ⟨hfalse, rfl⟩
  · rw [hcand] at htrue
    obtain ⟨href, hplace⟩ := hcase htrue
    obtain ⟨buckets, rfl, hin, hothers⟩ := evictionAccessed_spec (heap_setEntry_self ..)
      (hl.linked htrue hP) hplace hrun
    refine h.of_setEntry he hnames hothers (fun _ _ => Iff.rfl) (fun _ _ => Iff.rfl) ?_
    refine ⟨fun _ _ => hin, ?_, fun _ => href, ?_, ?_⟩
    · rintro (hfalse | hp)
      · rw [hcand, htrue] at hfalse
        cases hfalse
      · exact absurd hp hP
    · rw [hstate, hcand, hneeded, hsize]
      exact hl.receiving
    · rw [hstate, hcand]
      exact hl.new
  · rw [hcand] at hfalse
    refine h.of_setEntry_same he hnames (fun _ _ => Iff.rfl) (fun _ _ => Iff.rfl) ?_
    have hidle : e.iEvictionCandidate = false := Bool.eq_false_iff.2 hfalse
    exact .of_not_candidate (hcand.trans hidle) (hl.unlinked (.inl hidle))

theorem Buckets.noted (h : Buckets P X s) (c : Call) : Buckets P X (s.noted c) :=
  h.of_linkFrame ⟨⟨rfl, rfl, rfl, List.suffix_cons _ _, fun _ => rfl⟩, rfl, fun _ => rfl⟩

/-- `Accessed()`: the entry is looked for where it is, unless the count overflows. -/
theorem Buckets.accessed (h : Buckets P X s) {now : Clock} {id : EntryId} (hP : ∀ i, ¬ P i)
    {a : Unit}
    (hcase : ∀ e, s.heap id = some e → e.iEvictionCandidate = true → e.iRef ≠ 65535)
    (hrun : HttpCache.accessed now id s = some (a, s')) : Buckets P X s' := by
  obtain ⟨e, he, hrun⟩ := getEntry_bind.1 hrun
  have hentry : (s.noted (.accessed e.iEvictionCandidate e.iRef)).heap id = some e := he
  rw [note, modify_bind, bind_of (modifyEntry_of hentry),
    bind_of (getEntry_of (heap_setEntry_self ..))] at hrun
  refine (h.noted _).moved hentry (hP id) ?_ ?_ (fun hcand => ?_) hrun
  · rfl
  · rfl
  have hlt : e.iRef.toNat < 65535 := by
    have hmax := e.iRef.toNat_lt
    have hne : e.iRef.toNat ≠ 65535 := fun heq => hcase e he hcand (UInt16.toNat_inj.1 heq)
    omega
  have hpos : e.iRef.toNat ≠ 0 := fun heq =>
    (h.entry id e he).ref hcand (UInt16.toNat_inj.1 heq)
  have hsucc : (e.iRef + 1).toNat = e.iRef.toNat + 1 := by
    rw [UInt16.toNat_add]
    show (e.iRef.toNat + 1) % 65536 = _
    omega
  constructor
  · intro hzero
    have := congrArg UInt16.toNat hzero
    rw [hsucc] at this
    cases this
  · right
    show 2 ≤ (e.iRef + 1).toNat ∧ bucketOf e.iBodySize ((e.iRef + 1).toNat - 1) = _
    rw [hsucc]
    exact ⟨by omega, rfl⟩

/-- `Accessed( TInt64, TUint16 )`: the entry is looked for in the bucket of one access less than
the new count. -/
theorem Buckets.accessedAt (h : Buckets P X s) {id : EntryId} {lastAccessed : Int}
    {ref : UInt16} (hP : ∀ i, ¬ P i) {a : Unit}
    (hcase : ∀ e, s.heap id = some e → e.iEvictionCandidate = true → ref ≠ 0 ∧
      (bucketOf e.iBodySize ref.toNat = bucketOf e.iBodySize e.iRef.toNat ∨
        2 ≤ ref.toNat ∧
          bucketOf e.iBodySize (ref.toNat - 1) = bucketOf e.iBodySize e.iRef.toNat))
    (hrun : HttpCache.accessedAt id lastAccessed ref s = some (a, s')) : Buckets P X s' := by
  obtain ⟨e, he, hrun⟩ := getEntry_bind.1 hrun
  have hentry : (s.noted (.accessedAt e.iEvictionCandidate e.iBodySize e.iRef ref)).heap id =
      some e := he
  rw [note, modify_bind, bind_of (modifyEntry_of hentry),
    bind_of (getEntry_of (heap_setEntry_self ..))] at hrun
  refine (h.noted _).moved hentry (hP id) ?_ ?_ ?_ hrun
  · rfl
  · rfl
  · exact hcase e he

end SymbianWeb.HttpCache
