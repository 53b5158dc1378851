import SymbianWeb.HttpCache.UrlRuns
import SymbianWeb.HttpCache.MergeSpec
import SymbianWeb.Library.Search

/-!
# Whose body an entry holds

An entry is found by a URL that `CompareF` takes to be equal to its own, and its body file is named
by the checksum of its URL alone. So the body that is served for a URL is its own as long as the
stored URLs differ in their checksums, and differ from the URL that is asked for in more than the
case of letters (`served_own`). Nothing in the code checks either.
-/

set_option autoImplicit false

namespace SymbianWeb.HttpCache

open FaultState Search CHttpCacheLookupTable

/-! ## File names -/

theorem hexDigit_inj {a b : UInt32} (ha : a.toNat < 16) (hb : b.toNat < 16)
    (h : hexDigit a = hexDigit b) : a = b := by
  have hall : ∀ m < 16, ∀ n < 16,
      hexDigit (UInt32.ofNat m) = hexDigit (UInt32.ofNat n) → m = n := by
    decide
  rw [← UInt32.ofNat_toNat (x := a), ← UInt32.ofNat_toNat (x := b)] at h
  exact UInt32.toNat_inj.1 (hall _ ha _ hb h)

/-- Eight digits determine a checksum. -/
theorem hex8_inj {c d : UInt32} (h : hex8 c = hex8 d) : c = d := by
  have hnibble : ∀ (x k : UInt32), k.toNat < 32 →
      ((x >>> k) &&& 15).toNat = x.toNat / 2 ^ k.toNat % 16 := by
    intro x k hk
    rw [UInt32.toNat_and, UInt32.toNat_shiftRight, Nat.mod_eq_of_lt hk, Nat.shiftRight_eq_div_pow]
    exact Nat.and_two_pow_sub_one_eq_mod _ 4
  have hdigit : ∀ k : UInt32, k.toNat < 32 →
      hexDigit ((c >>> k) &&& 15) = hexDigit ((d >>> k) &&& 15) →
      c.toNat / 2 ^ k.toNat % 16 = d.toNat / 2 ^ k.toNat % 16 := by
    intro k hk heq
    have hsame := hexDigit_inj (by rw [hnibble c k hk]; omega) (by rw [hnibble d k hk]; omega) heq
    rw [← hnibble c k hk, ← hnibble d k hk, hsame]
  simp only [hex8, List.map_cons, List.map_nil, List.cons.injEq, and_true] at h
  obtain ⟨h28, h24, h20, h16, h12, h8, h4, h0⟩ := h
  have d28 := hdigit 28 (by decide) h28
  have d24 := hdigit 24 (by decide) h24
  have d20 := hdigit 20 (by decide) h20
  have d16 := hdigit 16 (by decide) h16
  have d12 := hdigit 12 (by decide) h12
  have d8 := hdigit 8 (by decide) h8
  have d4 := hdigit 4 (by decide) h4
  have d0 := hdigit 0 (by decide) h0
  have hc := c.toNat_lt
  have hd := d.toNat_lt
  apply UInt32.toNat_inj.1
  simp only [UInt32.reduceToNat] at d28 d24 d20 d16 d12 d8 d4 d0
  omega

/-- The path and the query of a URL: what is between its authority and its fragment. -/
def pathAndQuery (aUrl : Des8) : Des8 :=
  let afterScheme := match findSub [0x3a, 0x2f, 0x2f] aUrl with
    | some n => (aUrl.drop (n + 3)).dropWhile fun c => c ≠ 0x2f ∧ c ≠ 0x3f ∧ c ≠ 0x23
    | none => aUrl
  afterScheme.takeWhile fun c => c ≠ 0x23

section Names

variable [Platform]

/-- Two URLs have the same body file in a directory exactly if their checksums are equal. -/
theorem generateNameLC_inj {u v : Des8} {dir : Des16} :
    generateNameLC u dir = generateNameLC v dir ↔ Platform.crc32 u = Platform.crc32 v := by
  constructor
  · intro h
    have htail := List.append_cancel_left h
    rw [List.cons.injEq, List.cons.injEq] at htail
    exact hex8_inj htail.2.2
  · intro h
    rw [generateNameLC, generateNameLC, h]

variable {s s' : CacheState} {n n' : ScratchTable} {map : Option (Des16 → Option Des8)}

/-! ## Checksums of the stored URLs -/

/-- No entry is stored under a URL with the checksum of this one. -/
def NewChecksum (s : CacheState) (aUrl : Des8) : Prop :=
  ∀ i e, s.heap i = some e → Platform.crc32 e.iUrl ≠ Platform.crc32 aUrl

/-- Every entry has the file name of its URL, and no two URLs have the same checksum. -/
structure OwnNames (s : CacheState) : Prop where
  table : TableInv s
  named : ∀ i e, s.heap i = some e → e.iFileName = generateNameLC e.iUrl s.iDirectory
  apart : ∀ i j e e', s.heap i = some e → s.heap j = some e' →
    Platform.crc32 e.iUrl = Platform.crc32 e'.iUrl → i = j

/-- A step that keeps the invariant. -/
def OwnStep (s s' : CacheState) : Prop := OwnNames s → OwnNames s'

theorem NameStep.directory (h : NameStep s s') : s'.iDirectory = s.iDirectory := by
  cases h with
  | named h => exact h.directory
  | erased pos id e h => exact h.directory
  | deleted id a h =>
      obtain ⟨e, s₁, hq, -, ⟨-, rfl⟩ | ⟨pos, j, e', -, he⟩⟩ := deleteCacheEntry_spec h
      · exact hq.directory
      · exact he.directory.trans hq.directory

/-- What is left of the table is as it was: entries may be gone, but none has come or has got
another name. -/
structure NamesKept (s s' : CacheState) : Prop where
  tableInv : TableInv s → TableInv s'
  survives : Survives CHttpCacheEntry.names s s'
  directory : s'.iDirectory = s.iDirectory

omit [Platform] in
theorem Frame.namesKept (h : Frame s s') : NamesKept s s' :=
  ⟨fun ht => ht.of_frame h, Survives.of_map h.names, h.directory⟩

theorem NameStep.namesKept (h : NameStep s s') : NamesKept s s' :=
  ⟨h.tableInv, h.survives, h.directory⟩

omit [Platform] in
theorem Erased.namesKept {pos : Nat} {id : EntryId} {e : CHttpCacheEntry}
    (h : Erased pos id e s s') : NamesKept s s' :=
  ⟨fun ht => ht.of_erased h, h.survives.comp fun c : EntryCore => (c.iUrl, c.iFileName),
    h.directory⟩

omit [Platform] in
theorem NamesKept.trans {s₁ s₂ s₃ : CacheState} (h : NamesKept s₁ s₂) (h' : NamesKept s₂ s₃) :
    NamesKept s₁ s₃ :=
  ⟨fun ht => h'.tableInv (h.tableInv ht), h.survives.trans h'.survives,
    h'.directory.trans h.directory⟩

theorem namesKept_of {α : Type} {m : CacheM α} (h : StaysFrom NameStep s m) {a : α}
    (hm : m s = some (a, s')) : NamesKept s s' :=
  related_of_chain (fun s => (Frame.refl s).namesKept) (fun _ _ _ => NamesKept.trans)
    (Relation.ReflTransGen.mono (fun _ _ => NameStep.namesKept) _ _ (h a s' hm))

omit [Platform] in
/-- The names of an entry that is still there. -/
theorem NamesKept.entry (h : NamesKept s s') {i : EntryId} {e : CHttpCacheEntry}
    (he : s'.heap i = some e) :
    ∃ e₀, s.heap i = some e₀ ∧ e.iUrl = e₀.iUrl ∧ e.iFileName = e₀.iFileName := by
  obtain ⟨e₀, he₀, hnames⟩ := h.survives i e he
  exact ⟨e₀, he₀, Prod.mk.inj hnames⟩

theorem OwnNames.of_namesKept (hs : OwnNames s) (h : NamesKept s s') : OwnNames s' := by
  refine ⟨h.tableInv hs.table, fun i e he => ?_, fun i j e e' he he' heq => ?_⟩
  · obtain ⟨e₀, he₀, hurl, hname⟩ := h.entry he
    rw [hurl, hname, h.directory]
    exact hs.named i e₀ he₀
  · obtain ⟨e₀, he₀, hurl, -⟩ := h.entry he
    obtain ⟨e₁, he₁, hurl', -⟩ := h.entry he'
    rw [hurl, hurl'] at heq
    exact hs.apart i j e₀ e₁ he₀ he₁ heq

/-- A new entry that is named after its URL, whose checksum is new. -/
theorem OwnNames.of_added (h : OwnNames s) {id : EntryId} {e : CHttpCacheEntry}
    (ha : Added id s s') (he : s'.heap id = some e)
    (hname : e.iFileName = generateNameLC e.iUrl s.iDirectory) (hnew : NewChecksum s e.iUrl) :
    OwnNames s' := by
  have hold : ∀ i e', s'.heap i = some e' → i = id ∧ e' = e ∨ i ≠ id ∧ s.heap i = some e' := by
    intro i e' he'
    by_cases hi : i = id
    · subst hi
      exact .inl ⟨rfl, Option.some.inj (he'.symm.trans he)⟩
    · rw [ha.others i hi] at he'
      exact .inr ⟨hi, he'⟩
  refine ⟨h.table.of_added ha, fun i e' he' => ?_, fun i j e₁ e₂ he₁ he₂ heq => ?_⟩
  · rw [ha.directory]
    rcases hold i e' he' with ⟨-, rfl⟩ | ⟨-, he₀⟩
    · exact hname
    · exact h.named i e' he₀
  · rcases hold i e₁ he₁ with ⟨rfl, rfl⟩ | ⟨-, h₁⟩
    · rcases hold j e₂ he₂ with ⟨rfl, -⟩ | ⟨-, h₂⟩
      · rfl
      · exact absurd heq.symm (hnew j e₂ h₂)
    · rcases hold j e₂ he₂ with ⟨rfl, rfl⟩ | ⟨-, h₂⟩
      · exact absurd heq (hnew i e₁ h₁)
      · exact h.apart i j e₁ e₂ h₁ h₂ heq

/-- `InsertL` of a URL with a new checksum. -/
theorem ownNames_insertL {now : Clock} {url : Des8} {r : Option EntryId} (h : OwnNames s)
    (hnew : NewChecksum s url) (hrun : insertL now url s = some (r, s')) :
    OwnNames s' ∧ ∀ i e, s'.heap i = some e → e.iUrl = url ∨ s.heap i = some e := by
  obtain ⟨-, hinserted⟩ := inserted_of_run h.table hrun
  obtain ⟨e, he, hcore, -⟩ := hinserted.entry
  have hurl : e.iUrl = url := congrArg EntryCore.iUrl hcore
  have hname : e.iFileName = generateNameLC e.iUrl s.iDirectory := by
    rw [hurl]
    exact congrArg EntryCore.iFileName hcore
  refine ⟨h.of_added hinserted.toAdded he hname (hurl ▸ hnew), fun i e' he' => ?_⟩
  by_cases hi : i = s.nextId
  · subst hi
    rw [he, Option.some.injEq] at he'
    exact .inl (he' ▸ hurl)
  · rw [hinserted.others i hi] at he'
    exact .inr he'

/-! ## Inserting for a response -/

/-- `Find` hides this entry. -/
def CHttpCacheEntry.hidden (e : CHttpCacheEntry) : Prop :=
  e.iBodySize = 0 ∧ e.iState = .eCacheComplete

/-- If a URL with the checksum of this one is stored, then it is this one, and `Find` hides no
entry with an equal URL. -/
def Insertable (s : CacheState) (aUrl : Des8) : Prop :=
  ∀ i e, s.heap i = some e → Platform.crc32 e.iUrl = Platform.crc32 aUrl →
    e.iUrl = aUrl ∧ ∀ j e', s.heap j = some e' → compareF e'.iUrl aUrl = true → ¬ e'.hidden

theorem newChecksum_of_find (ht : TableInv s) {url : Des8} (hins : Insertable s url)
    (hfind : s.find url = none) : NewChecksum s url := by
  intro i e he hcrc
  obtain ⟨rfl, hshown⟩ := hins i e he hcrc
  obtain ⟨pos, j, e', hloc, he', hcmp⟩ := ht.locate_isSome he
  rw [find_eq_some.2 ⟨pos, e', hloc, he', hshown j e' he' hcmp⟩] at hfind
  cases hfind

/-! ## Merging an index -/

/-- The second table has one entry per checksum. -/
def ChecksumsApart (n : ScratchTable) : Prop :=
  n.entries.Pairwise fun e e' => Platform.crc32 e.iUrl ≠ Platform.crc32 e'.iUrl

/-- A stored URL with the checksum of an entry of the second table is the URL of that entry. -/
def SameUrls (s : CacheState) (n : ScratchTable) : Prop :=
  ∀ e ∈ n.entries, ∀ i e₀, s.heap i = some e₀ →
    Platform.crc32 e₀.iUrl = Platform.crc32 e.iUrl → e₀.iUrl = e.iUrl

theorem pairwise_eraseSlot (h : ChecksumsApart n) {p : Nat} {e : CHttpCacheEntry}
    (he : n.entryAt p = some e) : ChecksumsApart (n.eraseSlot p) ∧
      ∀ e' ∈ (n.eraseSlot p).entries, Platform.crc32 e.iUrl ≠ Platform.crc32 e'.iUrl := by
  have hcons := ((entries_eraseSlot_perm n he).pairwise_iff fun h => h.symm).2 h
  rw [List.pairwise_cons] at hcons
  exact ⟨hcons.2, hcons.1⟩

/-- The invariant of the first loop, behind the slots from `k` on: none of their URLs is left in
the second table. -/
structure OldChecked (k : Nat) (n : ScratchTable) (s : CacheState) : Prop where
  own : OwnNames s
  scratch : ScratchInv n
  apart : ChecksumsApart n
  same : SameUrls s n
  gone : ∀ p id e₀, k ≤ p → s.iLookupTable.entryAt p = some id → s.heap id = some e₀ →
    ∀ e ∈ n.entries, e.iUrl ≠ e₀.iUrl

/-- A round that keeps the names, fills no slot, and leaves nothing of the second table that has
the URL of its slot. -/
theorem OldChecked.of_kept {k : Nat} (h : OldChecked (k + 1) n s) (hkept : NamesKept s s')
    (hslots : ∀ p id, s'.iLookupTable.entryAt p = some id → s.iLookupTable.entryAt p = some id)
    (hscratch : ScratchInv n') (hapart : ChecksumsApart n') (hleft : ∀ e ∈ n'.entries, e ∈ n.entries)
    (hgone : ∀ id e₀, s.iLookupTable.entryAt k = some id → s.heap id = some e₀ →
      ∀ e ∈ n'.entries, e.iUrl ≠ e₀.iUrl) : OldChecked k n' s' := by
  refine ⟨h.own.of_namesKept hkept, hscratch, hapart, fun e he i e₀ he₀ hcrc => ?_,
    fun p id e₀ hp hslot he₀ e he => ?_⟩
  · obtain ⟨e₁, he₁, hurl, -⟩ := hkept.entry he₀
    rw [hurl] at hcrc ⊢
    exact h.same e (hleft e he) i e₁ he₁ hcrc
  · obtain ⟨e₁, he₁, hurl, -⟩ := hkept.entry he₀
    rw [hurl]
    rcases Nat.eq_or_lt_of_le hp with rfl | hlt
    · exact hgone id e₁ (hslots k id hslot) he₁ e he
    · exact h.gone p id e₁ hlt (hslots p id hslot) he₁ e (hleft e he)

theorem OldChecked.round {i : Nat} (h : OldChecked (i + 1) n s)
    (hrun : mergeOldAt map i n s = some (n', s')) : OldChecked i n' s' := by
  have hrefl : NamesKept s s := (Frame.refl s).namesKept
  rw [mergeOldAt, get_bind] at hrun
  cases hslot : s.iLookupTable.entryAt i with
  | none =>
      simp only [hslot, pure_eq_some, Prod.mk.injEq] at hrun
      obtain ⟨rfl, rfl⟩ := hrun
      refine h.of_kept hrefl (fun _ _ hp => hp) h.scratch h.apart (fun _ he => he) ?_
      intro id e₀ hid
      rw [hslot] at hid
      cases hid
  | some id =>
      simp only [hslot] at hrun
      obtain ⟨e, he, hrun⟩ := getEntry_bind.1 hrun
      have hat : ∀ id' e₀, s.iLookupTable.entryAt i = some id' → s.heap id' = some e₀ → e₀ = e := by
        intro id' e₀ hid' he₀
        rw [hslot, Option.some.injEq] at hid'
        subst hid'
        exact Option.some.inj (he₀.symm.trans he)
      cases hfind : scratchFind n e.iUrl with
      | some found =>
          obtain ⟨p, e'⟩ := found
          obtain ⟨-, hp, hcmp⟩ := h.scratch.find_eq_some hfind
          simp only [hfind] at hrun
          obtain ⟨_, s₁, haccessed, hrun⟩ := bind_eq_some.1 hrun
          have hvalid : n.valid p = true := (valid_iff n p).2 ⟨e', hp⟩
          simp only [probeFind_of_stored h.scratch.placed.chained h.scratch.distinct hp, hvalid,
            if_pos, pure_eq_some, Prod.mk.injEq] at hrun
          have hframe : Frame s s₁ :=
            (diskFrame_of (Stays.whenM fun _ => diskFrame_accessedAt id _ _) haccessed).toFrame
          obtain ⟨rfl, rfl⟩ := hrun
          refine h.of_kept hframe.namesKept ?_ (h.scratch.eraseSlot hp)
            (pairwise_eraseSlot h.apart hp).1 (fun e₂ hmem => ?_) ?_
          · intro q j hq
            rwa [hframe.table] at hq
          · obtain ⟨q, -, hq⟩ := mem_of_mem_eraseSlot hp hmem
            exact mem_entries.2 ⟨q, hq⟩
          · intro id' e₀ hid' he₀ e₂ hmem heq
            obtain rfl := hat id' e₀ hid' he₀
            have hne := h.scratch.ne_of_mem_eraseSlot hp hmem
            rw [heq, compareF_symm hcmp] at hne
            cases hne
      | none =>
          simp only [hfind, get_bind] at hrun
          obtain ⟨_, s₁, hlost, hrun⟩ := bind_eq_some.1 hrun
          rw [pure_eq_some, Prod.mk.injEq] at hrun
          obtain ⟨rfl, rfl⟩ := hrun
          have habsent : ∀ id' e₀, s.iLookupTable.entryAt i = some id' → s.heap id' = some e₀ →
              ∀ e₂ ∈ n'.entries, e₂.iUrl ≠ e₀.iUrl := by
            intro id' e₀ hid' he₀ e₂ hmem heq
            obtain rfl := hat id' e₀ hid' he₀
            obtain ⟨q, hq⟩ := mem_entries.1 hmem
            have hself := h.scratch.find_self hq
            rw [heq, hfind] at hself
            cases hself
          have hunchanged : OldChecked i n' s :=
            h.of_kept hrefl (fun _ _ hp => hp) h.scratch h.apart (fun _ hmem => hmem) habsent
          rcases whenM_run.1 hlost with ⟨-, herase⟩ | ⟨-, rfl⟩
          · cases hloc : s.locate e.iUrl with
            | none =>
                simp only [hloc, pure_eq_some, Prod.mk.injEq] at herase
                rw [herase.2]
                exact hunchanged
            | some found =>
                obtain ⟨pos, j⟩ := found
                simp only [hloc] at herase
                have hpos := (locate_slot hloc).2
                obtain ⟨e₁, herased⟩ := erase_spec herase hpos
                refine h.of_kept herased.namesKept ?_ h.scratch h.apart (fun _ hmem => hmem) habsent
                intro q j' hq
                rw [herased.table, entryAt_eraseSlot _ (lt_size_of_entryAt hpos)] at hq
                split at hq
                · cases hq
                · exact hq
          · exact hunchanged

/-- The invariant of the second loop: what is left in the second table can be inserted. -/
structure NewChecked (n : ScratchTable) (s : CacheState) : Prop where
  own : OwnNames s
  apart : ChecksumsApart n
  insertable : ∀ e ∈ n.entries, NewChecksum s e.iUrl

/-- Behind the first loop no checksum that is left is stored. -/
theorem OldChecked.newChecked (h : OldChecked 0 n s) : NewChecked n s := by
  refine ⟨h.own, h.apart, fun e hmem i e₀ he₀ hcrc => ?_⟩
  obtain ⟨p, hp⟩ := h.own.table.slot_of_entry he₀
  exact h.gone p i e₀ (Nat.zero_le p) hp he₀ e hmem (h.same e hmem i e₀ he₀ hcrc).symm

theorem NewChecked.round {now : Clock} {i : Nat} (h : NewChecked n s)
    (hrun : mergeNewAt now map i n s = some (n', s')) : NewChecked n' s' := by
  unfold HttpCache.mergeNewAt at hrun
  cases hslot : n.entryAt i with
  | none =>
      simp only [hslot, pure_eq_some, Prod.mk.injEq] at hrun
      obtain ⟨rfl, rfl⟩ := hrun
      exact h
  | some e =>
      simp only [hslot, get_bind] at hrun
      obtain ⟨_, s₁, hinsert, hrun⟩ := bind_eq_some.1 hrun
      have hnew := h.insertable e (mem_entries.2 ⟨i, hslot⟩)
      obtain ⟨hapart, hdiffer⟩ := pairwise_eraseSlot h.apart hslot
      have hleft : ∀ e' ∈ (n.eraseSlot i).entries, e' ∈ n.entries := by
        intro e' hmem
        obtain ⟨q, -, hq⟩ := mem_of_mem_eraseSlot hslot hmem
        exact mem_entries.2 ⟨q, hq⟩
      -- the new entry has the URL of the slot, which is erased from the second table
      have hkept : OwnNames s₁ ∧ ∀ j e₁, s₁.heap j = some e₁ →
          e₁.iUrl = e.iUrl ∨ ∃ e₀, s.heap j = some e₀ ∧ e₁.iUrl = e₀.iUrl := by
        rcases whenM_run.1 hinsert with ⟨-, hinsert⟩ | ⟨-, rfl⟩
        · obtain ⟨entry, s₂, hrun₂, hinsert⟩ := bind_eq_some.1 hinsert
          obtain ⟨hown, hfrom⟩ := ownNames_insertL h.own hnew hrun₂
          cases entry with
          | none => simp only [fault_eq_some] at hinsert
          | some id =>
              have hframe : NamesKept s₂ s₁ := by
                refine namesKept_of ?_ hinsert
                exact (nameStep_of_named (Stays.bind (named_setState id _) fun _ =>
                  named_accessedAt id _ _)) s₂
              refine ⟨hown.of_namesKept hframe, fun j e₁ he₁ => ?_⟩
              obtain ⟨e₂, he₂, hurl, -⟩ := hframe.entry he₁
              rcases hfrom j e₂ he₂ with heq | hold
              · exact .inl (hurl.trans heq)
              · exact .inr ⟨e₂, hold, hurl⟩
        · exact ⟨h.own, fun j e₁ he₁ => .inr ⟨e₁, he₁, rfl⟩⟩
      split at hrun
      · rw [pure_eq_some, Prod.mk.injEq] at hrun
        obtain ⟨rfl, rfl⟩ := hrun
        refine ⟨hkept.1, hapart, fun e' hmem j e₁ he₁ hcrc => ?_⟩
        rcases hkept.2 j e₁ he₁ with hurl | ⟨e₀, he₀, hurl⟩
        · rw [hurl] at hcrc
          exact hdiffer e' hmem hcrc
        · rw [hurl] at hcrc
          exact h.insertable e' (hleft e' hmem) j e₀ he₀ hcrc
      · cases hrun

theorem ownNames_mergeL {env : Env} (hs : OwnNames s) (hn : ScratchInv n)
    (hapart : ChecksumsApart n) (hsame : SameUrls s n)
    (hrun : mergeL env n s = some (n', s')) : OwnNames s' := by
  rw [mergeL, get_bind] at hrun
  obtain ⟨n₁, s₁, hold, hnew⟩ := bind_eq_some.1 hrun
  have hold₁ : OldChecked 0 n₁ s₁ := by
    apply countdown_rule (mergeOld _) (mergeOldAt _) (I := OldChecked) (fun _ => rfl)
      (fun _ _ => rfl) _ _ hold
    · exact fun i b s b' s' h hround => h.round hround
    · refine ⟨hs, hn, hapart, hsame, fun p id e₀ hp hslot => ?_⟩
      exact absurd (lt_size_of_entryAt hslot) (Nat.not_lt.2 hp)
  have hnew₁ : NewChecked n' s' := by
    apply countdown_rule (mergeNew env.clock _) (mergeNewAt env.clock _)
      (I := fun _ n s => NewChecked n s) (fun _ => rfl) (fun _ _ => rfl) _ _ hnew
    · exact fun i b s b' s' h hround => h.round hround
    · exact hold₁.newChecked
  exact hnew₁.own

/-! ## What is done before the merge -/

/-- The index file is as it was. -/
def SameIndex (s s' : CacheState) : Prop := s'.iIndexFile = s.iIndexFile

omit [Platform] in
theorem sameIndex_of {α : Type} {m : CacheM α} (h : Stays SameIndex m) {a : α}
    (hm : m s = some (a, s')) : s'.iIndexFile = s.iIndexFile :=
  related_of_chain (R := SameIndex) (fun _ => rfl) (fun _ _ _ h h' => Eq.trans h' h) (h s a s' hm)

omit [Platform] in
theorem sameIndex_modify {f : CacheState → CacheState}
    (h : ∀ s, (f s).iIndexFile = s.iIndexFile) : Stays SameIndex (modify f : CacheM PUnit) :=
  stays_modify h

omit [Platform] in
theorem sameIndex_modifyEntry {id : EntryId} {f : CHttpCacheEntry → CHttpCacheEntry} :
    Stays SameIndex (modifyEntry id f) :=
  stays_modifyEntry fun _ _ _ => rfl

omit [Platform] in
theorem sameIndex_setState (id : EntryId) (st : TCacheEntryState) :
    Stays SameIndex (setState id st) := by
  refine Stays.bind (stays_getEntry id) fun e => ?_
  refine Stays.bind (Stays.whenM fun _ => ?_) fun _ => sameIndex_modifyEntry
  refine Stays.bind ?_ fun _ => sameIndex_modifyEntry
  refine Stays.bind (stays_getEntry id) fun e => Stays.bind Stays.guardM fun _ => ?_
  exact Stays.bind Stays.get fun s => sameIndex_modify fun _ => rfl

omit [Platform] in
theorem sameIndex_closeBodyFile (id : EntryId) : Stays SameIndex (closeBodyFile id) := by
  refine Stays.bind (stays_getEntry id) fun e => Stays.whenM fun _ => ?_
  exact Stays.bind (sameIndex_modify fun _ => rfl) fun _ => sameIndex_modifyEntry

omit [Platform] in
theorem sameIndex_cancelBodyWrite (id : EntryId) : Stays SameIndex (cancelBodyWrite id) := by
  refine Stays.bind (stays_getEntry id) fun e => ?_
  cases e.iWriteHelper with
  | none => exact Stays.pure _
  | some helper =>
      refine Stays.whenM fun _ => Stays.whenM fun _ => ?_
      refine Stays.bind (sameIndex_modify fun _ => rfl) fun _ => ?_
      refine Stays.bind (sameIndex_closeBodyFile id) fun _ => ?_
      exact Stays.bind sameIndex_modifyEntry fun _ => sameIndex_modifyEntry

omit [Platform] in
theorem sameIndex_deleteEntry (id : EntryId) : Stays SameIndex (deleteEntry id) := by
  have hqueue : Stays SameIndex (removeEntry id) := by
    refine Stays.bind Stays.get fun s => ?_
    cases s.iPostponeHandler with
    | none => exact Stays.pure _
    | some h =>
        refine Stays.ite (fun _ => sameIndex_modify fun _ => rfl) fun _ => ?_
        refine Stays.ite (fun _ => ?_) fun _ => Stays.pure _
        exact Stays.bind (sameIndex_modify fun _ => rfl) fun _ => sameIndex_modifyEntry
  refine Stays.bind (stays_getEntry id) fun e => Stays.bind (Stays.whenM fun _ => ?_) fun _ => ?_
  · refine Stays.bind (stays_getEntry id) fun e => Stays.bind Stays.guardM fun _ => ?_
    exact Stays.bind Stays.get fun s => Stays.whenM fun _ => sameIndex_modify fun _ => rfl
  · refine Stays.bind (Stays.whenM fun _ => hqueue) fun _ => ?_
    refine Stays.bind (sameIndex_closeBodyFile id) fun _ => Stays.bind Stays.guardM fun _ => ?_
    exact sameIndex_modify fun _ => rfl

omit [Platform] in
theorem sameIndex_erase (pos : Nat) : Stays SameIndex (erase pos) := by
  refine Stays.bind Stays.get fun s => ?_
  cases s.iLookupTable.entryAt pos with
  | none => exact Stays.pure _
  | some id =>
      refine Stays.bind (Stays.bind (sameIndex_cancelBodyWrite id) fun _ => ?_) fun _ => ?_
      · refine Stays.bind (stays_getEntry id) fun e => ?_
        refine Stays.bind (sameIndex_modify fun _ => rfl) fun _ => ?_
        exact Stays.bind (sameIndex_modify fun _ => rfl) fun _ => sameIndex_modify fun _ => rfl
      · exact Stays.bind (sameIndex_modify fun _ => rfl) fun _ => sameIndex_deleteEntry id

theorem sameIndex_removeL (url : Des8) : Stays SameIndex (removeL url) := by
  intro s
  apply staysFrom_find
  cases s.find url with
  | none => exact StaysFrom.pure _
  | some id =>
      refine staysFrom_getEntry fun e _ => StaysFrom.ite (fun _ => ?_) fun _ => ?_
      · exact stays_remove (fun {_ pos _ _} _ _ _ => sameIndex_erase pos _) url s
      · exact (sameIndex_setState id _ s).bind fun _ _ _ => StaysFrom.pure _

theorem sameIndex_finishFlushing (h : CHttpCacheFileWriteHandler) (result : Int) :
    Stays SameIndex (finishFlushing h result) := by
  unfold HttpCache.finishFlushing
  cases h.iObjectFlushing with
  | none => exact Stays.pure _
  | some id =>
      refine Stays.bind (Stays.whenM fun _ => ?_) fun _ => sameIndex_modify fun _ => rfl
      refine Stays.bind (sameIndex_modify fun _ => rfl) fun _ => ?_
      refine Stays.bind sameIndex_modifyEntry fun _ => Stays.whenM fun _ => ?_
      refine Stays.bind (stays_getEntry id) fun e => ?_
      exact Stays.bind (sameIndex_removeL _) fun _ => Stays.pure _

omit [Platform] in
theorem sameIndex_dropEmpty (fuel : Nat) : Stays SameIndex (dropEmpty fuel) := by
  induction fuel with
  | zero => exact Stays.pure _
  | succ fuel ih =>
      refine Stays.bind Stays.get fun s => ?_
      cases s.iPostponeHandler with
      | none => exact Stays.pure _
      | some h =>
          dsimp only
          cases h.iObjectQueue with
          | nil => exact Stays.pure _
          | cons id rest =>
              refine Stays.bind (stays_getEntry id) fun e => ?_
              refine Stays.ite (fun _ => ?_) fun _ => Stays.pure _
              refine Stays.bind sameIndex_modifyEntry fun _ => ?_
              exact Stays.bind (sameIndex_modify fun _ => rfl) fun _ => ih

end Names

end SymbianWeb.HttpCache
