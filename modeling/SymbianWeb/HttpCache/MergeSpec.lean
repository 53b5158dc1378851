import SymbianWeb.HttpCache.MergeSteps
import SymbianWeb.HttpCache.Reference
import SymbianWeb.HttpCache.Start

/-!
# What the index merge does

The first loop of `MergeL` erases from the second table what the own table has, and from the own
table what has no body anywhere; `MergedOld` says so for the slots from `k` on, and the loop rule
takes it down to `0`. The second loop inserts what is left of the second table and is on disk.

The merge is right when there is nothing to insert: `InsertL` deletes the body file of the URL it
inserts and the new entry has neither headers nor a body size. `mergeL_correct_iff` gives the
exact condition.
-/

set_option autoImplicit false

namespace SymbianWeb.HttpCache

open FaultState CHttpCacheLookupTable

section Merge

variable [Platform] {map : Option (Des16 → Option Des8)} {s₀ s s' : CacheState}
  {n₀ n n' : ScratchTable}

/-- The map of the files on disk, if there is one, was taken in this state. -/
def TakenIn (map : Option (Des16 → Option Des8)) (s : CacheState) : Prop :=
  map = none ∨ map = some s.files

omit [Platform] in
theorem onDisk_eq (hmap : TakenIn map s₀) (hfiles : s.files = s₀.files) (name : Des16) :
    onDisk map s name = (s₀.files name).isSome := by
  rcases hmap with rfl | rfl
  · rw [onDisk, hfiles]
  · rfl

/-- The body of the entry is in memory or on disk. -/
def HasBody (s : CacheState) (e : CHttpCacheEntry) : Prop :=
  e.bodyDataCached = true ∨ (s.files e.iFileName).isSome = true

/-! ## The first loop -/

/-- The first loop has been at the slots from `k` on. -/
structure MergedOld (s₀ : CacheState) (n₀ : ScratchTable) (k : Nat) (n : ScratchTable)
    (s : CacheState) : Prop where
  table : TableInv s
  unique : UniqueUrls s
  scratch : ScratchInv n
  files : s.files = s₀.files
  slots : ∀ p id, s.iLookupTable.entryAt p = some id → s₀.iLookupTable.entryAt p = some id
  view : ∀ id e, s.heap id = some e → ∃ e₀, s₀.heap id = some e₀ ∧ e.diskView = e₀.diskView
  /-- what is left of the second table was in it, -/
  left : ∀ e ∈ n.entries, e ∈ n₀.entries
  /-- the slots before `k` are as they were, -/
  pending : ∀ p id e₀, p < k → s₀.iLookupTable.entryAt p = some id → s₀.heap id = some e₀ →
    s.iLookupTable.entryAt p = some id ∧ scratchFind n e₀.iUrl = scratchFind n₀ e₀.iUrl
  /-- and those from `k` on hold what was found or has a body, and nothing like it is left. -/
  done : ∀ p id e₀, k ≤ p → s₀.iLookupTable.entryAt p = some id → s₀.heap id = some e₀ →
    (s.iLookupTable.entryAt p = some id ↔ scratchFind n₀ e₀.iUrl ≠ none ∨ HasBody s₀ e₀) ∧
    ∀ e ∈ n.entries, e.iUrl ≠ e₀.iUrl

theorem mergedOld_start (ht : TableInv s) (hu : UniqueUrls s) (hn : ScratchInv n) {k : Nat}
    (hk : s.iLookupTable.size ≤ k) : MergedOld s n k n s := by
  refine ⟨ht, hu, hn, rfl, fun _ _ h => h, fun _ e he => ⟨e, he, rfl⟩, fun _ h => h,
    fun _ _ _ _ hp _ => ⟨hp, rfl⟩, ?_⟩
  intro p id e₀ hkp hp _
  exact absurd (lt_size_of_entryAt hp) (Nat.not_lt.2 (hk.trans hkp))

/-- The entries of different slots have different URLs. -/
theorem compareF_of_slots (ht : TableInv s) (hu : UniqueUrls s) {p q : Nat} {i j : EntryId}
    {e e' : CHttpCacheEntry} (hp : s.iLookupTable.entryAt p = some i)
    (hq : s.iLookupTable.entryAt q = some j) (he : s.heap i = some e) (he' : s.heap j = some e')
    (hne : p ≠ q) : compareF e.iUrl e'.iUrl = false := by
  cases hcmp : compareF e.iUrl e'.iUrl with
  | false => rfl
  | true =>
      obtain rfl := hu i j e e' he he' hcmp
      exact absurd (entryAt_inj ht.nodup hp hq) hne

/-- A round at a slot without an entry. -/
theorem MergedOld.skip {i : Nat} (h : MergedOld s₀ n₀ (i + 1) n s)
    (hslot : s₀.iLookupTable.entryAt i = none) : MergedOld s₀ n₀ i n s := by
  refine ⟨h.table, h.unique, h.scratch, h.files, h.slots, h.view, h.left, ?_, ?_⟩
  · intro p id e₀ hp
    exact h.pending p id e₀ (Nat.lt_succ_of_lt hp)
  · intro p id e₀ hp hpslot
    rcases Nat.eq_or_lt_of_le hp with rfl | hlt
    · rw [hslot] at hpslot
      cases hpslot
    · exact h.done p id e₀ hlt hpslot

theorem MergedOld.step {i : Nat} (ht₀ : TableInv s₀) (hu₀ : UniqueUrls s₀)
    (hmap : TakenIn map s₀) (h : MergedOld s₀ n₀ (i + 1) n s)
    (hrun : mergeOldAt map i n s = some (n', s')) : MergedOld s₀ n₀ i n' s' := by
  cases hslot₀ : s₀.iLookupTable.entryAt i with
  | none =>
      have hslot : s.iLookupTable.entryAt i = none := by
        cases hslot : s.iLookupTable.entryAt i with
        | none => rfl
        | some id =>
            rw [h.slots i id hslot] at hslot₀
            cases hslot₀
      rw [mergeOldAt, get_bind] at hrun
      simp only [hslot] at hrun
      rw [pure_eq_some, Prod.mk.injEq] at hrun
      obtain ⟨rfl, rfl⟩ := hrun
      exact h.skip hslot₀
  | some id =>
      obtain ⟨e₀, he₀⟩ := ht₀.entry_of_slot hslot₀
      obtain ⟨hslot, hlookup⟩ := h.pending i id e₀ (Nat.lt_succ_self i) hslot₀ he₀
      obtain ⟨e, he, hround⟩ := mergeOldAt_run h.table h.unique h.scratch hslot hrun
      obtain ⟨e₁, he₁, hview⟩ := h.view id e he
      obtain rfl : e₁ = e₀ := Option.some.inj (he₁.symm.trans he₀)
      simp only [CHttpCacheEntry.diskView, CHttpCacheEntry.names, Prod.mk.injEq] at hview
      obtain ⟨⟨hurl, hname⟩, hcached⟩ := hview
      have hdisk := onDisk_eq hmap h.files e.iFileName
      -- the entries of the slots before `i` differ from this one
      have hdiffers : ∀ p id' e₂, p < i → s₀.iLookupTable.entryAt p = some id' →
          s₀.heap id' = some e₂ → compareF e₁.iUrl e₂.iUrl = false := fun p id' e₂ hp hp₀ he₂ =>
        compareF_of_slots ht₀ hu₀ hslot₀ hp₀ he₀ he₂ (Nat.ne_of_gt hp)
      rw [← hurl] at hlookup
      cases hround with
      | @found p e' s' hfind hframe =>
          obtain ⟨-, hp, hcmp⟩ := h.scratch.find_eq_some hfind
          refine ⟨h.table.of_frame hframe.toFrame,
            h.unique.of_survives hframe.toFrame.survives_url, h.scratch.eraseSlot hp,
            hframe.files.trans h.files, ?_, ?_, ?_, ?_, ?_⟩
          · intro q j hq
            rw [hframe.table] at hq
            exact h.slots q j hq
          · intro j e₂ he₂
            obtain ⟨e₃, he₃, hsame⟩ := exists_of_map_eq (hframe.view j).symm he₂
            obtain ⟨e₄, he₄, hold⟩ := h.view j e₃ he₃
            exact ⟨e₄, he₄, hsame.symm.trans hold⟩
          · intro e₂ hmem
            obtain ⟨q, -, hq⟩ := mem_of_mem_eraseSlot hp hmem
            exact h.left e₂ (mem_entries.2 ⟨q, hq⟩)
          · intro q j e₂ hq hq₀ he₂
            obtain ⟨hqs, hfindq⟩ := h.pending q j e₂ (Nat.lt_succ_of_lt hq) hq₀ he₂
            rw [hframe.table]
            refine ⟨hqs, (h.scratch.find_eraseSlot hp ?_).trans hfindq⟩
            cases hcmp₂ : compareF e'.iUrl e₂.iUrl with
            | false => rfl
            | true =>
                have hcross := compareF_trans (compareF_symm hcmp) hcmp₂
                rw [hurl, hdiffers q j e₂ hq hq₀ he₂] at hcross
                cases hcross
          · intro q j e₂ hq hq₀ he₂
            rw [hframe.table]
            rcases Nat.eq_or_lt_of_le hq with rfl | hlt
            · rw [hslot₀, Option.some.injEq] at hq₀
              subst hq₀
              obtain rfl : e₂ = e₁ := Option.some.inj (he₂.symm.trans he₀)
              constructor
              · refine iff_of_true hslot (.inl ?_)
                rw [← hurl, ← hlookup, hfind]
                simp
              · intro e₃ hmem heq
                have hne := h.scratch.ne_of_mem_eraseSlot hp hmem
                rw [heq, ← hurl, compareF_symm hcmp] at hne
                cases hne
            · obtain ⟨hiff, hgone⟩ := h.done q j e₂ hlt hq₀ he₂
              refine ⟨hiff, fun e₃ hmem => ?_⟩
              obtain ⟨r, -, hr⟩ := mem_of_mem_eraseSlot hp hmem
              exact hgone e₃ (mem_entries.2 ⟨r, hr⟩)
      | kept hfind hkeep =>
          refine ⟨h.table, h.unique, h.scratch, h.files, h.slots, h.view, h.left, ?_, ?_⟩
          · intro q j e₂ hq
            exact h.pending q j e₂ (Nat.lt_succ_of_lt hq)
          · intro q j e₂ hq hq₀ he₂
            rcases Nat.eq_or_lt_of_le hq with rfl | hlt
            · rw [hslot₀, Option.some.injEq] at hq₀
              subst hq₀
              obtain rfl : e₂ = e₁ := Option.some.inj (he₂.symm.trans he₀)
              constructor
              · refine iff_of_true hslot (.inr ?_)
                rw [HasBody, ← hcached, ← hname, ← hdisk]
                exact hkeep
              · intro e₃ hmem heq
                obtain ⟨r, hr⟩ := mem_entries.1 hmem
                have hself := h.scratch.find_self hr
                rw [heq, ← hurl, hfind] at hself
                cases hself
            · exact h.done q j e₂ hlt hq₀ he₂
      | @lost s' hfind hcachedFalse hdiskFalse herased halone =>
          have hnone : (s₀.files e.iFileName).isSome = false := by
            rw [← hdisk]
            exact hdiskFalse
          refine ⟨h.table.of_erased herased, h.unique.of_survives herased.survives_url, h.scratch,
            ?_, ?_, ?_, h.left, ?_, ?_⟩
          · -- the file that is deleted was not there
            funext name
            rcases halone.files name with heq | ⟨rfl, hgone⟩
            · rw [heq, h.files]
            · rw [hgone]
              exact (Option.isSome_eq_false_iff.1 hnone |> Option.isNone_iff_eq_none.1).symm
          · intro q j hq
            rw [herased.table, entryAt_eraseSlot _ (lt_size_of_entryAt hslot)] at hq
            split at hq
            · cases hq
            · exact h.slots q j hq
          · intro j e₂ he₂
            have hne : j ≠ id := by
              rintro rfl
              rw [herased.gone] at he₂
              cases he₂
            rw [halone.heap j hne] at he₂
            exact h.view j e₂ he₂
          · intro q j e₂ hq hq₀ he₂
            obtain ⟨hqs, hfindq⟩ := h.pending q j e₂ (Nat.lt_succ_of_lt hq) hq₀ he₂
            refine ⟨?_, hfindq⟩
            rw [herased.table, entryAt_eraseSlot _ (lt_size_of_entryAt hslot),
              if_neg (Nat.ne_of_lt hq)]
            exact hqs
          · intro q j e₂ hq hq₀ he₂
            rw [herased.table, entryAt_eraseSlot _ (lt_size_of_entryAt hslot)]
            rcases Nat.eq_or_lt_of_le hq with rfl | hlt
            · rw [hslot₀, Option.some.injEq] at hq₀
              subst hq₀
              obtain rfl : e₂ = e₁ := Option.some.inj (he₂.symm.trans he₀)
              rw [if_pos rfl]
              constructor
              · refine iff_of_false (by simp) ?_
                rintro (hfound | hbody)
                · rw [← hurl, ← hlookup] at hfound
                  exact hfound hfind
                · rw [HasBody, ← hcached, ← hname, hcachedFalse, hnone] at hbody
                  rcases hbody with hbody | hbody
                  · cases hbody
                  · cases hbody
              · intro e₃ hmem heq
                obtain ⟨r, hr⟩ := mem_entries.1 hmem
                have hself := h.scratch.find_self hr
                rw [heq, ← hurl, hfind] at hself
                cases hself
            · rw [if_neg (Nat.ne_of_gt hlt)]
              exact h.done q j e₂ hlt hq₀ he₂

/-- The whole first loop. -/
theorem mergeOld_spec (ht : TableInv s) (hu : UniqueUrls s) (hn : ScratchInv n)
    (hmap : TakenIn map s) {k : Nat} (hk : s.iLookupTable.size ≤ k)
    (hrun : mergeOld map k n s = some (n', s')) : MergedOld s n 0 n' s' := by
  apply countdown_rule (mergeOld map) (mergeOldAt map)
    (I := fun k n' s' => MergedOld s n k n' s') (fun _ => rfl) (fun _ _ => rfl) _ _ hrun
  · intro i n₁ s₁ n₂ s₂ h hround
    exact h.step ht hu hmap hround
  · exact mergedOld_start ht hu hn hk

/-! ## The second loop -/

/-- A round of the second loop leaves the table without the entry of its slot. -/
theorem mergeNewAt_table {now : Clock} {i : Nat}
    (hrun : mergeNewAt now map i n s = some (n', s')) :
    (n.entryAt i = none ∧ n' = n ∧ s' = s) ∨
      ∃ e, n.entryAt i = some e ∧ n' = n.eraseSlot i ∧
        (onDisk map s e.iFileName = false → s' = s) := by
  unfold HttpCache.mergeNewAt at hrun
  cases hslot : n.entryAt i with
  | none =>
      simp only [hslot] at hrun
      rw [pure_eq_some, Prod.mk.injEq] at hrun
      exact .inl ⟨rfl, hrun⟩
  | some e =>
      simp only [hslot, get_bind] at hrun
      obtain ⟨_, s₁, hinsert, hrun⟩ := bind_eq_some.1 hrun
      split at hrun
      · rw [pure_eq_some, Prod.mk.injEq] at hrun
        obtain ⟨rfl, rfl⟩ := hrun
        refine .inr ⟨e, rfl, rfl, fun hdisk => ?_⟩
        rcases whenM_run.1 hinsert with ⟨hon, -⟩ | ⟨-, heq⟩
        · rw [hdisk] at hon
          cases hon
        · exact heq
      · cases hrun

/-- Behind the second loop the second table is empty. -/
theorem mergeNew_empty {now : Clock} (hn : ScratchInv n) {k : Nat} (hk : n.size ≤ k)
    (hrun : mergeNew now map k n s = some (n', s')) :
    ScratchInv n' ∧ n'.entries = [] := by
  have hloop : ScratchInv n' ∧ ∀ p, 0 ≤ p → n'.entryAt p = none := by
    apply countdown_rule (mergeNew now map) (mergeNewAt now map)
      (I := fun k n _ => ScratchInv n ∧ ∀ p, k ≤ p → n.entryAt p = none)
      (fun _ => rfl) (fun _ _ => rfl) _ _ hrun
    · rintro i n₁ s₁ n₂ s₂ ⟨hinv, hgone⟩ hround
      rcases mergeNewAt_table hround with ⟨hslot, rfl, -⟩ | ⟨e, hslot, rfl, -⟩
      · refine ⟨hinv, fun p hp => ?_⟩
        rcases Nat.eq_or_lt_of_le hp with rfl | hlt
        · exact hslot
        · exact hgone p hlt
      · refine ⟨hinv.eraseSlot hslot, fun p hp => ?_⟩
        rw [entryAt_eraseSlot _ (lt_size_of_entryAt hslot)]
        split
        · rfl
        · next hne => exact hgone p (Nat.lt_of_le_of_ne hp fun heq => hne heq.symm)
    · refine ⟨hn, fun p hp => ?_⟩
      cases hslot : n.entryAt p with
      | none => rfl
      | some e => exact absurd (lt_size_of_entryAt hslot) (Nat.not_lt.2 (hk.trans hp))
  refine ⟨hloop.1, List.eq_nil_iff_forall_not_mem.2 fun e hmem => ?_⟩
  obtain ⟨p, hp⟩ := mem_entries.1 hmem
  rw [hloop.2 p (Nat.zero_le p)] at hp
  cases hp

/-- When nothing that is left is on disk, the second loop leaves the cache alone. -/
theorem mergeNew_idle {now : Clock} {k : Nat}
    (hdisk : ∀ e ∈ n.entries, onDisk map s e.iFileName = false)
    (hrun : mergeNew now map k n s = some (n', s')) : s' = s := by
  have hloop : s' = s ∧ ∀ e ∈ n'.entries, e ∈ n.entries := by
    apply countdown_rule (mergeNew now map) (mergeNewAt now map)
      (I := fun _ n₁ s₁ => s₁ = s ∧ ∀ e ∈ n₁.entries, e ∈ n.entries)
      (fun _ => rfl) (fun _ _ => rfl) _ _ hrun
    · rintro i n₁ s₁ n₂ s₂ ⟨rfl, hsub⟩ hround
      rcases mergeNewAt_table hround with ⟨-, rfl, rfl⟩ | ⟨e, hslot, rfl, hidle⟩
      · exact ⟨rfl, hsub⟩
      · refine ⟨hidle (hdisk e (hsub e (mem_entries.2 ⟨i, hslot⟩))), fun e' hmem => ?_⟩
        obtain ⟨q, -, hq⟩ := mem_of_mem_eraseSlot hslot hmem
        exact hsub e' (mem_entries.2 ⟨q, hq⟩)
    · exact ⟨rfl, fun _ h => h⟩
  exact hloop.1

/-! ## The entries behind the merge -/

/-- Every entry is an old one or has no body: what `InsertL` makes of an entry of the second table
has no body size. -/
structure OldOrEmpty (s₀ s : CacheState) : Prop where
  table : TableInv s
  entry : ∀ id e, s.heap id = some e →
    (∃ e₀, s₀.heap id = some e₀ ∧ e.iUrl = e₀.iUrl) ∨ e.iBodySize = 0

omit [Platform] in
theorem OldOrEmpty.of_survives {s₀ s s' : CacheState} (h : OldOrEmpty s₀ s) (ht : TableInv s')
    (hs : Survives CHttpCacheEntry.sizes s s') : OldOrEmpty s₀ s' := by
  refine ⟨ht, fun id e he => ?_⟩
  obtain ⟨e₁, he₁, hsizes⟩ := hs id e he
  simp only [CHttpCacheEntry.sizes, CHttpCacheEntry.names, Prod.mk.injEq] at hsizes
  rcases h.entry id e₁ he₁ with ⟨e₀, he₀, hurl⟩ | hzero
  · exact .inl ⟨e₀, he₀, hsizes.1.1.trans hurl⟩
  · exact .inr (hsizes.2.1.trans hzero)

omit [Platform] in
theorem oldOrEmpty_of_sizeFrame {α : Type} {m : CacheM α} (h : Stays SizeFrame m) :
    Stays (fun s s' => OldOrEmpty s₀ s → OldOrEmpty s₀ s') m :=
  h.mono fun _ _ hf hs => hs.of_survives (hs.table.of_frame hf.frame) (Survives.of_map hf.sizes)

theorem admitsMerge_oldOrEmpty (s₀ : CacheState) (map : Option (Des16 → Option Des8)) :
    AdmitsMerge (fun s s' => OldOrEmpty s₀ s → OldOrEmpty s₀ s') map where
  insertL now url := by
    apply Stays.of_step
    intro s a s' hrun hs
    obtain ⟨-, hinserted⟩ := inserted_of_run hs.table hrun
    obtain ⟨e, he, hcore, -⟩ := hinserted.entry
    refine ⟨hs.table.of_added hinserted.toAdded, fun id e' he' => ?_⟩
    cases hid : decide (id = s.nextId) with
    | true =>
        rw [decide_eq_true_eq] at hid
        subst hid
        obtain rfl : e' = e := Option.some.inj (he'.symm.trans he)
        exact .inr (congrArg EntryCore.iBodySize hcore)
    | false =>
        rw [decide_eq_false_iff_not] at hid
        rw [hinserted.others id hid] at he'
        exact hs.entry id e' he'
  setState id := oldOrEmpty_of_sizeFrame (sizeFrame_setState id _)
  accessedAt id la ref := oldOrEmpty_of_sizeFrame (sizeFrame_accessedAt id la ref)
  erase s id e pos j _ _ _ hloc := by
    apply StaysFrom.of_step
    intro a s' hrun hs
    obtain ⟨e', herased⟩ := erase_spec hrun (locate_slot hloc).2
    exact hs.of_survives (hs.table.of_erased herased) (herased.survives.comp
      fun c : EntryCore => ((c.iUrl, c.iFileName), c.iBodySize, c.iHeaderSize))

theorem mergeL_oldOrEmpty {env : Env} (ht : TableInv s)
    (hrun : mergeL env n s = some (n', s')) : OldOrEmpty s s' :=
  invariant_of_chain (fun _ _ hstep => hstep)
    ((admitsMerge_oldOrEmpty s _).mergeL n _ _ hrun) ⟨ht, fun _ e he => .inl ⟨e, he, rfl⟩⟩

/-! ## When the merge is right -/

/-- No entry of the own table has this URL. -/
def Absent (s : CacheState) (url : Des8) : Prop := ∀ id e, s.heap id = some e → e.iUrl ≠ url

/-- What is claimed of `T.MergeL( N )`, for the states before and after it. -/
structure MergeCorrect (s : CacheState) (n : ScratchTable) (s' : CacheState)
    (n' : ScratchTable) : Prop where
  /-- An entry that was only in the second table and on disk is found, with all it had. -/
  fromNew : ∀ e ∈ n.entries, Absent s e.iUrl → (s.files e.iFileName).isSome = true →
    ∃ id e', s'.find e.iUrl = some id ∧ s'.heap id = some e' ∧ e'.iUrl = e.iUrl ∧
      e'.iBodySize = e.iBodySize ∧ e'.iHeaderBuffer = e.iHeaderBuffer ∧
      e'.iLastAccessed = e.iLastAccessed ∧ e'.iRef = e.iRef ∧
      (s'.files e.iFileName).isSome = true
  /-- An entry of the own table with its body in memory or on disk is kept. -/
  kept : ∀ id e, s.heap id = some e → HasBody s e → id ∈ s'.iLookupTable.entries
  /-- There is nothing else. -/
  nothingElse : ∀ id ∈ s'.iLookupTable.entries, (∃ e, s.heap id = some e ∧ HasBody s e) ∨
    ∃ e ∈ n.entries, Absent s e.iUrl ∧ (s.files e.iFileName).isSome = true ∧
      s'.urlOf id = e.iUrl
  newEmpty : n'.entries = []
  newCount : n'.iCount = 0

/-- The merge has nothing to insert and keeps nothing that is lost: no entry that is only in the
second table is on disk, and every entry of the own table that the second one has, too, has a
body. -/
def MergeHarmless (s : CacheState) (n : ScratchTable) : Prop :=
  (∀ e ∈ n.entries, Absent s e.iUrl → s.files e.iFileName = none) ∧
    ∀ id e, s.heap id = some e → scratchFind n e.iUrl ≠ none → HasBody s e

omit [Platform] in
/-- Which entries of the own table the first loop keeps. -/
theorem MergedOld.mem_iff [Platform] (h : MergedOld s₀ n₀ 0 n s) (ht₀ : TableInv s₀)
    {id : EntryId} : id ∈ s.iLookupTable.entries ↔
      ∃ e, s₀.heap id = some e ∧ (scratchFind n₀ e.iUrl ≠ none ∨ HasBody s₀ e) := by
  constructor
  · intro hmem
    obtain ⟨p, hp⟩ := mem_entries.1 hmem
    have hp₀ := h.slots p id hp
    obtain ⟨e, he⟩ := ht₀.entry_of_slot hp₀
    exact ⟨e, he, (h.done p id e (Nat.zero_le p) hp₀ he).1.1 hp⟩
  · rintro ⟨e, he, hcase⟩
    obtain ⟨p, hp₀⟩ := ht₀.slot_of_entry he
    exact mem_entries.2 ⟨p, (h.done p id e (Nat.zero_le p) hp₀ he).1.2 hcase⟩

/-- The two loops of the merge, when no entry that is only in the second table is on disk. -/
theorem mergeL_run {env : Env} (ht : TableInv s) (hu : UniqueUrls s) (hn : ScratchInv n)
    (hrun : mergeL env n s = some (n', s')) :
    ∃ n₁ s₁, MergedOld s n 0 n₁ s₁ ∧ ScratchInv n' ∧ n'.entries = [] ∧
      ((∀ e ∈ n.entries, Absent s e.iUrl → s.files e.iFileName = none) → s' = s₁) := by
  rw [mergeL, get_bind] at hrun
  obtain ⟨n₁, s₁, hold, hnew⟩ := bind_eq_some.1 hrun
  have hmap : TakenIn (if env.hashMapOk then some s.files else none) s := by
    unfold TakenIn
    split
    · exact .inr rfl
    · exact .inl rfl
  have hmerged := mergeOld_spec ht hu hn hmap (Nat.le_refl _) hold
  obtain ⟨hinv, hempty⟩ := mergeNew_empty hmerged.scratch (Nat.le_refl _) hnew
  refine ⟨n₁, s₁, hmerged, hinv, hempty, fun hnone => mergeNew_idle ?_ hnew⟩
  intro e hmem
  rw [onDisk_eq hmap hmerged.files, hnone e (hmerged.left e hmem) ?_]
  · rfl
  · intro id e₀ he₀ hurl
    obtain ⟨p, hp⟩ := ht.slot_of_entry he₀
    exact (hmerged.done p id e₀ (Nat.zero_le p) hp he₀).2 e hmem hurl.symm

/-- The merge of a well formed second table is right exactly when it is harmless. -/
theorem mergeL_correct_iff {env : Env} (ht : TableInv s) (hu : UniqueUrls s)
    (hn : ScratchInv n) (hrun : mergeL env n s = some (n', s')) :
    MergeCorrect s n s' n' ↔ MergeHarmless s n := by
  obtain ⟨n₁, s₁, hmerged, hinv, hempty, hidle⟩ := mergeL_run ht hu hn hrun
  constructor
  · intro h
    have hnew : ∀ e ∈ n.entries, Absent s e.iUrl → s.files e.iFileName = none := by
      intro e hmem habsent
      apply Option.not_isSome_iff_eq_none.1
      intro hdisk
      -- the inserted entry has lost its body size
      obtain ⟨id, e', -, he', hurl, hsize, -⟩ := h.fromNew e hmem habsent hdisk
      rcases (mergeL_oldOrEmpty ht hrun).entry id e' he' with ⟨e₀, he₀, hold⟩ | hzero
      · exact habsent id e₀ he₀ (hold.symm.trans hurl)
      · exact hn.body e hmem (hsize.symm.trans hzero)
    refine ⟨hnew, fun id e he hfound => ?_⟩
    obtain rfl := hidle hnew
    have hmem := (hmerged.mem_iff ht).2 ⟨e, he, .inl hfound⟩
    rcases h.nothingElse id hmem with ⟨e₁, he₁, hbody⟩ | ⟨e₁, -, habsent, -, hurl⟩
    · obtain rfl : e₁ = e := Option.some.inj (he₁.symm.trans he)
      exact hbody
    · obtain ⟨e₂, he₂⟩ := Option.isSome_iff_exists.1 ((hmerged.table.live id).1 hmem)
      obtain ⟨e₃, he₃, hview⟩ := hmerged.view id e₂ he₂
      rw [urlOf_of_entry he₂] at hurl
      simp only [CHttpCacheEntry.diskView, CHttpCacheEntry.names, Prod.mk.injEq] at hview
      exact absurd (hview.1.1.symm.trans hurl) (habsent id e₃ he₃)
  · rintro ⟨hnew, hfound⟩
    obtain rfl := hidle hnew
    refine ⟨?_, ?_, ?_, hempty, ?_⟩
    · intro e hmem habsent hdisk
      rw [hnew e hmem habsent] at hdisk
      cases hdisk
    · intro id e he hbody
      exact (hmerged.mem_iff ht).2 ⟨e, he, .inr hbody⟩
    · intro id hmem
      obtain ⟨e, he, hcase⟩ := (hmerged.mem_iff ht).1 hmem
      refine .inl ⟨e, he, ?_⟩
      rcases hcase with hin | hbody
      · exact hfound id e he hin
      · exact hbody
    · rw [hinv.placed.count_eq, hempty]
      rfl

/-! ## The second table that is read -/

/-- The second table as it is read from an index of entries with bodies and different URLs. -/
theorem scratchInv_scratchOf {entries : List CHttpCacheEntry}
    (hbody : ∀ e ∈ entries, e.iBodySize ≠ 0)
    (hdistinct : entries.Pairwise fun e e' => compareF e.iUrl e'.iUrl = false) :
    ScratchInv (scratchOf entries) := by
  obtain ⟨hplaced, hperm⟩ := scratchOf_spec entries
  refine ⟨hplaced, distinctUrls_iff.2 ?_, fun e hmem => ?_⟩
  · apply (hperm.pairwise_iff fun h => (compareF_comm _ _).trans h).2
    exact List.pairwise_map.2 hdistinct
  · obtain ⟨e₀, hmem₀, rfl⟩ := List.mem_map.1 (hperm.mem_iff.1 hmem)
    exact hbody e₀ hmem₀

end Merge

/-! ## A merge with nothing and one with something to insert -/

section Examples

open Reference

/-- What another process has: one entry with a body of 16 bytes. -/
def otherEntry : CHttpCacheEntry := stored [1] 6 8 16 [2]

theorem scratchInv_otherEntry : ScratchInv (scratchOf [otherEntry]) := by
  apply scratchInv_scratchOf
  · intro e hmem
    rw [List.mem_singleton.1 hmem]
    decide
  · exact List.pairwise_singleton _ _

theorem tableUnique_initial (c : Construct) : TableInv c.initial ∧ UniqueUrls c.initial :=
  ⟨tableInv_initial c, fun _ _ _ _ he => by cases he⟩

/-- The other process' entry is not on disk, and the merge into an empty cache is right. -/
theorem mergeL_correct_without_file : ∃ n' s',
    mergeL Reference.env (scratchOf [otherEntry]) emptyCache.initial = some (n', s') ∧
      MergeCorrect emptyCache.initial (scratchOf [otherEntry]) s' n' := by
  have heval : (mergeL Reference.env (scratchOf [otherEntry]) emptyCache.initial).isSome = true := by
    decide +kernel
  obtain ⟨⟨n', s'⟩, hrun⟩ := Option.isSome_iff_exists.1 heval
  obtain ⟨ht, hu⟩ := tableUnique_initial emptyCache
  refine ⟨n', s', hrun, (mergeL_correct_iff ht hu scratchInv_otherEntry hrun).2 ⟨?_, ?_⟩⟩
  · intro e _ _
    rfl
  · intro id e he
    cases he

/-- With its body file on disk the other process' entry is inserted without a body size, so that
it is not found, and its file is deleted. -/
theorem mergeL_not_correct : ¬ ∀ (env : Env) (s : CacheState) (n : ScratchTable)
    (s' : CacheState) (n' : ScratchTable), TableInv s → UniqueUrls s → ScratchInv n →
      mergeL env n s = some (n', s') → MergeCorrect s n s' n' := by
  intro h
  have hentries : (scratchOf [otherEntry]).entries =
      [{ otherEntry with iState := .eCacheComplete, iEvictionCandidate := true }] := by
    decide +kernel
  have heval : (mergeL Reference.env (scratchOf [otherEntry])
      (construct (filesOf [(otherEntry.iFileName, [7])]) none).initial).map
      (fun p => p.2.find [1]) = some none := by
    decide +kernel
  obtain ⟨⟨n', s'⟩, hrun, hfind⟩ := Option.map_eq_some_iff.1 heval
  obtain ⟨ht, hu⟩ := tableUnique_initial (construct (filesOf [(otherEntry.iFileName, [7])]) none)
  have hcorrect := h _ _ _ s' n' ht hu scratchInv_otherEntry hrun
  obtain ⟨id, e', hfound, -⟩ := hcorrect.fromNew
    { otherEntry with iState := .eCacheComplete, iEvictionCandidate := true }
    (by rw [hentries]; exact List.mem_singleton.2 rfl) (fun _ _ he => by cases he)
    (by decide +kernel)
  have hnone : s'.find [1] = none := hfind
  rw [show otherEntry.iUrl = [1] from rfl, hnone] at hfound
  cases hfound

end Examples

end SymbianWeb.HttpCache
