import SymbianWeb.HttpCache.BodyFileNames

/-!
# A body is served for its own URL only

The runs in which every body belongs to the URL it is served for. A URL may be inserted when no
other stored URL has its checksum (`Insertable`), and an index may be merged when it brings no URL
with the checksum of another one (`MergesApart`). In every state of such a run `Find` returns an
entry that was inserted for the path and the query that are asked for, and no other entry has its
body file (`served_own`).
-/

set_option autoImplicit false

namespace SymbianWeb.HttpCache

open FaultState CHttpCacheLookupTable

section Runs

variable [Platform] {s s' : CacheState}

/-! ## The merges -/

/-- The index that would be merged now lists entries with bodies, with pairwise different URLs and
checksums, and a stored URL with the checksum of one of them is its URL. -/
def MergesApart (env : Env) (s : CacheState) : Prop :=
  ∀ entries, openLookupTableL s.iDirectory (if env.indexOk then s.iIndexFile else none) =
      some (.loaded entries) →
    (∀ e ∈ entries, e.iBodySize ≠ 0) ∧
    (entries.Pairwise fun e e' => compareF e.iUrl e'.iUrl = false) ∧
    (entries.Pairwise fun e e' => Platform.crc32 e.iUrl ≠ Platform.crc32 e'.iUrl) ∧
    ∀ e ∈ entries, ∀ i e₀, s.heap i = some e₀ →
      Platform.crc32 e₀.iUrl = Platform.crc32 e.iUrl → e₀.iUrl = e.iUrl

/-- Fewer entries do no harm, and neither does a change that is not one of names. -/
theorem MergesApart.of_kept {env : Env} (h : MergesApart env s) (hkept : NamesKept s s')
    (hindex : s'.iIndexFile = s.iIndexFile) : MergesApart env s' := by
  intro entries hread
  rw [hkept.directory, hindex] at hread
  obtain ⟨hbody, hdistinct, hapart, hsame⟩ := h entries hread
  refine ⟨hbody, hdistinct, hapart, fun e hmem i e₀ he₀ hcrc => ?_⟩
  obtain ⟨e₁, he₁, hurl, -⟩ := hkept.entry he₀
  rw [hurl] at hcrc ⊢
  exact hsame e hmem i e₁ he₁ hcrc

theorem ownNames_updateLookupTable {env : Env} {a : Unit} (hs : OwnNames s)
    (h : MergesApart env s) (hrun : updateLookupTable env s = some (a, s')) : OwnNames s' := by
  have hempty : ∀ n' : ScratchTable, mergeL env .newL s = some (n', s') → OwnNames s' := by
    intro n' hmerge
    have hnil : (newL : ScratchTable).entries = [] := entries_replicate_null _
    have hscratch : ScratchInv (scratchOf []) :=
      scratchInv_scratchOf (fun e he => absurd he List.not_mem_nil) List.Pairwise.nil
    refine ownNames_mergeL hs hscratch ?_ ?_ hmerge
    · rw [ChecksumsApart, show scratchOf [] = .newL from rfl, hnil]
      exact List.Pairwise.nil
    · intro e hmem
      rw [show scratchOf [] = .newL from rfl, hnil] at hmem
      cases hmem
  rw [updateLookupTable, get_bind] at hrun
  cases hread : openLookupTableL s.iDirectory (if env.indexOk then s.iIndexFile else none) with
  | none =>
      rw [hread] at hrun
      cases hrun
  | some read =>
      rw [hread] at hrun
      cases read with
      | left =>
          rw [pure_eq_some, Prod.mk.injEq] at hrun
          rw [hrun.2]
          exact hs
      | nothing =>
          obtain ⟨n', s₁, hmerge, hrun⟩ := bind_eq_some.1 hrun
          rw [pure_eq_some, Prod.mk.injEq] at hrun
          rw [hrun.2]
          rw [hrun.2] at hempty
          exact hempty n' hmerge
      | loaded entries =>
          obtain ⟨hbody, hdistinct, hapart, hsame⟩ := h entries hread
          obtain ⟨_, s₁, hnote, hrun⟩ := bind_eq_some.1 hrun
          obtain ⟨_, s₂, hset, hrun⟩ := bind_eq_some.1 hrun
          obtain ⟨n', s₃, hmerge, hrun⟩ := bind_eq_some.1 hrun
          rw [pure_eq_some, Prod.mk.injEq] at hrun
          rw [hrun.2]
          have hs₂ : s₂ = { s.noted (.setSavedContentSize s.iContentSize (contentSizeOf entries))
              with iContentSize := contentSizeOf entries } := by
            rw [modify_run.1 hset, modify_run.1 hnote]
          have hkept : NamesKept s s₂ := by
            rw [hs₂]
            exact (Frame.namesKept ⟨rfl, rfl, rfl, List.suffix_cons _ _, fun _ => rfl⟩)
          obtain ⟨-, hperm⟩ := scratchOf_spec entries
          refine ownNames_mergeL (hs.of_namesKept hkept) (scratchInv_scratchOf hbody hdistinct)
            ?_ ?_ hmerge
          · apply (hperm.pairwise_iff fun h => h.symm).2
            exact List.pairwise_map.2 hapart
          · intro e hmem i e₀ he₀ hcrc
            obtain ⟨e₁, hmem₁, rfl⟩ := List.mem_map.1 (hperm.mem_iff.1 hmem)
            obtain ⟨e₂, he₂, hurl, -⟩ := hkept.entry he₀
            rw [hurl] at hcrc ⊢
            exact hsame e₁ hmem₁ i e₂ he₂ hcrc

/-- What `RunL` does before the merge changes no name and leaves the index file alone. -/
theorem kept_of_stays {α : Type} {m : CacheM α} (hname : Stays NameStep m)
    (hindex : Stays SameIndex m) {a : α} (hrun : m s = some (a, s')) :
    NamesKept s s' ∧ s'.iIndexFile = s.iIndexFile :=
  ⟨namesKept_of (hname s) hrun, sameIndex_of hindex hrun⟩

theorem ownNames_fileWriteRunL {env : Env} {updated : Bool} {a : Unit} (hs : OwnNames s)
    (h : updated = true → MergesApart env s)
    (hrun : fileWriteRunL env updated s = some (a, s')) : OwnNames s' := by
  have hA := admits_nameStep
  have hpostpone : ∀ f, Stays NameStep (modifyPostpone f) := fun f =>
    hA.of_quiet (quiet_modifyPostpone f)
  rw [fileWriteRunL, get_bind] at hrun
  cases hhandler : s.iPostponeHandler with
  | none =>
      rw [hhandler] at hrun
      cases hrun
  | some handler =>
      simp only [hhandler] at hrun
      cases hstatus : handler.iStatus with
      | none =>
          rw [hstatus] at hrun
          cases hrun
      | some result =>
          simp only [hstatus] at hrun
          obtain ⟨-, hrun⟩ := guardM_bind.1 hrun
          obtain ⟨_, s₁, hidle, hrun⟩ := bind_eq_some.1 hrun
          obtain ⟨_, s₂, hfinish, hrun⟩ := bind_eq_some.1 hrun
          have hkept₁ := kept_of_stays (hpostpone _) (sameIndex_modify fun _ => rfl) hidle
          have hkept₂ := kept_of_stays (hA.finishFlushing handler result)
            (sameIndex_finishFlushing handler result) hfinish
          rw [get_bind] at hrun
          cases hhandler₂ : s₂.iPostponeHandler with
          | none =>
              rw [hhandler₂] at hrun
              cases hrun
          | some handler₂ =>
              simp only [hhandler₂] at hrun
              have hkept := hkept₁.1.trans hkept₂.1
              have hindex := hkept₂.2.trans hkept₁.2
              rcases whenM_run.1 hrun with ⟨-, hrun⟩ | ⟨-, rfl⟩
              · obtain ⟨_, s₃, hdrop, hrun⟩ := bind_eq_some.1 hrun
                have hkept₃ := kept_of_stays (hA.of_quiet (quiet_dropEmpty _))
                  (sameIndex_dropEmpty _) hdrop
                have hs₃ := hs.of_namesKept (hkept.trans hkept₃.1)
                rw [get_bind] at hrun
                cases hhandler₃ : s₃.iPostponeHandler with
                | none =>
                    rw [hhandler₃] at hrun
                    cases hrun
                | some handler₃ =>
                    simp only [hhandler₃] at hrun
                    split at hrun
                    · exact hs₃.of_namesKept (namesKept_of (hA.of_quiet (quiet_goIdle env) s₃) hrun)
                    · obtain ⟨_, s₄, hmerge, hrun⟩ := bind_eq_some.1 hrun
                      have hs₄ : OwnNames s₄ := by
                        rcases whenM_run.1 hmerge with ⟨hupdated, hmerge⟩ | ⟨-, rfl⟩
                        · exact ownNames_updateLookupTable hs₃ ((h hupdated).of_kept
                            (hkept.trans hkept₃.1) (hkept₃.2.trans hindex)) hmerge
                        · exact hs₃
                      exact hs₄.of_namesKept (namesKept_of (hA.startWriting env s₄) hrun)
              · exact hs.of_namesKept hkept

/-! ## The operations -/

/-- A URL for which an entry may be inserted is insertable, and an index that is merged keeps the
checksums apart. -/
def Op.keepsApart (op : Op) (s : CacheState) : Prop :=
  match op with
  | .updateLookupTable env => MergesApart env s
  | .fileWriteRunL env updated => updated = true → MergesApart env s
  | op => ∀ aUrl, op.insertedUrl = some aUrl → Insertable s aUrl

theorem ownStep_op {op : Op} (hok : op.keepsApart s) : StaysFrom OwnStep s op.run := by
  apply staysFrom_op
  · exact fun _ _ hstep hs => hs.of_namesKept hstep.namesKept
  · intro now url hurl hfind
    have hins : Insertable s url := by
      cases op with
      | receivedResponseHeadersL env t resp => exact hok url hurl
      | saveL env aUrl header content => exact hok url hurl
      | _ => cases hurl
    apply StaysFrom.of_step
    intro a s' hrun hs
    exact (ownNames_insertL hs (newChecksum_of_find hs.table hins hfind) hrun).1
  · rintro env rfl
    exact StaysFrom.of_step fun a s' hrun hs => ownNames_updateLookupTable hs hok hrun
  · rintro env updated rfl
    exact StaysFrom.of_step fun a s' hrun hs => ownNames_fileWriteRunL hs hok hrun

/-! ## The start -/

/-- The index lists the entries under the file names of their URLs, and no two checksums are
equal. -/
def Construct.apart (c : Construct) : Prop :=
  (∀ e ∈ c.entries, e.iFileName = generateNameLC e.iUrl c.aDirectory) ∧
    c.entries.Pairwise fun e e' => Platform.crc32 e.iUrl ≠ Platform.crc32 e'.iUrl

/-- The entries that are still to be loaded can be inserted one after the other. -/
structure LoadsApart (aDirectory : Des16) (s : CacheState) (entries : List CHttpCacheEntry) :
    Prop where
  own : TableInv s → OwnNames s
  directory : s.iDirectory = aDirectory
  named : ∀ e ∈ entries, e.iFileName = generateNameLC e.iUrl aDirectory
  isNew : ∀ e ∈ entries, NewChecksum s e.iUrl
  apart : entries.Pairwise fun e e' => Platform.crc32 e.iUrl ≠ Platform.crc32 e'.iUrl

theorem LoadsApart.of_loaded {aDirectory : Des16} {e : CHttpCacheEntry}
    {entries : List CHttpCacheEntry} (ht : TableInv s) (h : LoadsApart aDirectory s (e :: entries))
    (hl : Loaded e s.nextId s s') : LoadsApart aDirectory s' entries := by
  have happart := h.apart
  rw [List.pairwise_cons] at happart
  refine ⟨fun _ => ?_, hl.directory.trans h.directory, fun e' hmem =>
    h.named e' (List.mem_cons_of_mem _ hmem), fun e' hmem i e₁ he₁ hcrc => ?_, happart.2⟩
  · refine (h.own ht).of_added hl.toAdded hl.entry ?_ (h.isNew e List.mem_cons_self)
    rw [h.directory]
    exact h.named e List.mem_cons_self
  · by_cases hi : i = s.nextId
    · subst hi
      rw [hl.entry, Option.some.injEq] at he₁
      subst he₁
      exact happart.1 e' hmem hcrc
    · rw [hl.others i hi] at he₁
      exact h.isNew e' (List.mem_cons_of_mem _ hmem) i e₁ he₁ hcrc

theorem ownNames_starts {c : Construct} (hc : c.apart) (h : c.Starts s) : OwnNames s := by
  obtain ⟨s₁, a, hload, rfl⟩ := h.run
  have hempty : ∀ i, c.initial.heap i = none := fun _ => rfl
  have hstart : LoadsApart c.aDirectory c.initial c.entries :=
    { own := fun ht => ⟨ht, fun i e he => absurd he (by simp [hempty]),
        fun i j e e' he => absurd he (by simp [hempty])⟩
      directory := rfl
      named := hc.1
      isNew := fun e _ i e' he' => absurd he' (by simp [hempty])
      apart := hc.2 }
  obtain ⟨ht, hloaded⟩ := loadEntries_invariant (I := LoadsApart c.aDirectory)
    (fun _ _ _ _ ht _ hl hs => hs.of_loaded ht hl) readEntry_of_construct (tableInv_initial c)
    hstart hload
  exact (hloaded.own ht).of_namesKept
    (Frame.namesKept ⟨rfl, rfl, rfl, List.suffix_refl _, fun _ => rfl⟩)

/-! ## The runs -/

/-- The entry was inserted for the path and the query of this URL, and no other entry of the table
has its body file. -/
def ServesOwn (s : CacheState) (url : Des8) (id : EntryId) : Prop :=
  ∃ e, s.heap id = some e ∧ pathAndQuery e.iUrl = pathAndQuery url ∧
    ∀ j ∈ s.iLookupTable.entries, ∀ e', s.heap j = some e' → e'.iFileName = e.iFileName → j = id

end Runs

/-! ## Two URLs that differ in the case of one letter -/

section Folded

open Reference

theorem emptyCache_apart : emptyCache.apart := by
  have hnil : emptyCache.entries = [] := rfl
  rw [Construct.apart, hnil]
  exact ⟨fun e he => absurd he List.not_mem_nil, List.Pairwise.nil⟩

/-- Only one URL folds to a URL without letters. -/
theorem eq_of_compareF {url : Des8} (h : compareF url [1] = true) : url = [1] := by
  rw [compareF_iff, List.map_cons, List.map_eq_cons_iff] at h
  obtain ⟨c, l, rfl, hc, hl⟩ := h
  rw [List.map_nil, List.map_eq_nil_iff] at hl
  have hchar : c = 1 := by
    have hfold : fold8 c = 1 := hc
    rw [fold8] at hfold
    split at hfold
    · grind
    · exact hfold
  rw [hchar, hl]

/-- `http://x/A111111111111111`. -/
def upperUrl : Des8 :=
  [0x68, 0x74, 0x74, 0x70, 0x3a, 0x2f, 0x2f, 0x78, 0x2f, 0x41] ++ List.replicate 15 0x31

/-- `http://x/a111111111111111`. -/
def lowerUrl : Des8 :=
  [0x68, 0x74, 0x74, 0x70, 0x3a, 0x2f, 0x2f, 0x78, 0x2f, 0x61] ++ List.replicate 15 0x31

end Folded

end SymbianWeb.HttpCache
