import SymbianWeb.HttpCache.MergeSteps
import SymbianWeb.HttpCache.Reference

/-!
# Reading the index file back

`ExternalizeL` writes the entries that have a body, whatever their state is, and `InternalizeL`
gives every entry it reads the state `ECacheComplete`. What is read back is what was written
(`internalizeEntries_written`), so the index gives exactly the complete entries back when no other entry
has a body (`indexRoundTrips_iff`).
-/

set_option autoImplicit false

namespace SymbianWeb.HttpCache

open ByteStream CHttpCacheLookupTable

/-- The fields that the index keeps of an entry, but for the time of the last access. -/
def CHttpCacheEntry.indexView (e : CHttpCacheEntry) :
    Des8 × Des16 × UInt16 × Nat × UInt16 × UInt8 × Option Des8 :=
  (e.iUrl, e.iFileName, e.iRef, e.iBodySize, e.iHeaderSize, e.iProtected, e.iHeaderBuffer)

/-- The fields of an entry are in the range of their types, and its body file has a name of eight
characters in the subdirectory that is named by the last one. -/
structure FitsIndex (aDirectory : Des16) (e : CHttpCacheEntry) : Prop where
  url : e.iUrl.length < 2147483648
  bodySize : e.iBodySize < 4294967296
  header : ∀ header ∈ e.iHeaderBuffer, header.length < 2147483648
  fileName : ∃ uniqueFilename : Des16, uniqueFilename.length = kFilenameLength ∧
    e.iFileName = aDirectory ++ right 1 uniqueFilename ++ kPathDelimiter :: uniqueFilename

/-- `Right` of a text that ends so. -/
theorem right_append {α : Type} (l d : List α) : right d.length (l ++ d) = d := by
  rw [right, List.length_append, Nat.add_sub_cancel, List.drop_left]

section Index

variable [Platform] {aDirectory : Des16} {e : CHttpCacheEntry} {entries : List CHttpCacheEntry}

/-- The names that `GenerateNameLC` makes are of this form. -/
theorem generateNameLC_eq (aUrl : Des8) (aBaseDir : Des16) :
    generateNameLC aUrl aBaseDir = aBaseDir ++ right 1 (hex8 (Platform.crc32 aUrl)) ++
      kPathDelimiter :: hex8 (Platform.crc32 aUrl) := by
  have hlast : right 1 (hex8 (Platform.crc32 aUrl)) = [hexDigit (Platform.crc32 aUrl &&& 15)] := by
    simp [right, hex8]
  rw [hlast, generateNameLC, List.append_assoc]
  rfl

/-! ## One entry -/

/-- An entry as it is read from the index. -/
def CHttpCacheEntry.readBack (e : CHttpCacheEntry) : CHttpCacheEntry where
  iUrl := e.iUrl
  iFileName := e.iFileName
  iLastAccessed := Platform.readReal64 (Platform.writeReal64 e.iLastAccessed)
  iRef := e.iRef
  iBodySize := e.iBodySize
  iHeaderSize := e.iHeaderSize
  iProtected := e.iProtected
  iHeaderBuffer := e.iHeaderBuffer

omit [Platform] in
theorem reads_readDes8 {d : Des8} (h : d.length < 2147483648) :
    Reads readDes8 (writeInt32 d.length ++ d) d := by
  intro rest
  rw [readDes8, List.append_assoc, (reads_readInt32 (by omega) (by omega)).bind_run,
    if_neg (by omega)]
  exact reads_readBytes (by simp) rest

/-- What `InternalizeL` makes of the bytes of an entry. -/
theorem internalizeEntryL_written {bytes : Des8} (hfits : FitsIndex aDirectory e)
    (hbytes : e.externalizeL = some bytes) (rest : Des8) :
    internalizeEntryL aDirectory (bytes ++ rest) =
      if e.iRef = 0 then .error .panic else .ok (e.readBack, rest) := by
  obtain ⟨uniqueFilename, hlength, hname⟩ := hfits.fileName
  cases hheader : e.iHeaderBuffer with
  | none =>
      rw [CHttpCacheEntry.externalizeL, hheader] at hbytes
      cases hbytes
  | some header =>
      have huint16 : ∀ v : UInt16, v.toNat < 256 ^ 4 := by
        intro v
        have hlt := v.toNat_lt
        norm_num
        omega
      have hbody : e.iBodySize < 256 ^ 4 := by
        have hlt := hfits.bodySize
        norm_num
        exact hlt
      have hprotected := e.iProtected.toNat_lt
      have hright : right kFilenameLength e.iFileName = uniqueFilename := by
        rw [hname, ← hlength, List.append_cons]
        exact right_append _ uniqueFilename
      have hunits : Reads (readUnits kFilenameLength) (writeUnits uniqueFilename)
          uniqueFilename := hlength ▸ reads_readUnits uniqueFilename
      rw [CHttpCacheEntry.externalizeL, hheader, hright] at hbytes
      dsimp only at hbytes
      obtain rfl := Option.some.inj hbytes
      rw [internalizeEntryL]
      simp only [List.append_assoc]
      rw [← List.append_assoc (writeInt32 _) e.iUrl, (reads_readDes8 hfits.url).bind_run,
        hunits.bind_run,
        ((reads_readBytes (Platform.writeReal64_length _)).map Platform.readReal64).bind_run,
        (reads_readLe (huint16 e.iRef)).bind_run, (reads_readLe hbody).bind_run,
        (reads_readLe (huint16 e.iHeaderSize)).bind_run,
        (reads_readInt32 (by omega) (by omega)).bind_run,
        ← List.append_assoc (writeInt32 _) header,
        (reads_readDes8 (hfits.header header (by rw [hheader]; rfl))).bind_run, UInt16.ofNat_toNat]
      by_cases href : e.iRef = 0
      · rw [if_pos href, if_pos href]
        rfl
      · have hprot : UInt8.ofNat ((e.iProtected.toNat : Int) % 256).toNat = e.iProtected := by
          have hmod : ((e.iProtected.toNat : Int) % 256).toNat = e.iProtected.toNat := by omega
          rw [hmod, UInt8.ofNat_toNat]
        rw [if_neg href, if_neg href, CHttpCacheEntry.readBack, hheader, hname, UInt16.ofNat_toNat,
          hprot, List.append_assoc aDirectory]
        rfl

/-! ## The entries -/

/-- What the loop of `InternalizeL` makes of the bytes of some entries. -/
theorem internalizeEntries_written {bytes : Des8} (hfits : ∀ e ∈ entries, FitsIndex aDirectory e)
    (hbytes : externalizeEntries entries = some bytes) (rest : Des8) :
    internalizeEntries aDirectory entries.length (bytes ++ rest) =
      if ∃ e ∈ entries, e.iRef = 0 then .error .panic
      else .ok (entries.map CHttpCacheEntry.readBack, rest) := by
  induction entries generalizing bytes with
  | nil =>
      obtain rfl := Option.some.inj hbytes
      rw [if_neg (by simp)]
      rfl
  | cons e entries ih =>
      rw [externalizeEntries, Option.bind_eq_bind, Option.bind_eq_some_iff] at hbytes
      obtain ⟨first, hfirst, hbytes⟩ := hbytes
      obtain ⟨others, hothers, hbytes⟩ := Option.bind_eq_some_iff.1 hbytes
      obtain rfl := Option.some.inj hbytes
      have hrest := ih (fun e' he' => hfits e' (List.mem_cons_of_mem _ he')) hothers
      rw [List.length_cons, internalizeEntries, List.append_assoc]
      dsimp only
      rw [internalizeEntryL_written (hfits e List.mem_cons_self) hfirst]
      by_cases href : e.iRef = 0
      · rw [if_pos href, if_pos ⟨e, List.mem_cons_self, href⟩]
      · rw [if_neg href]
        dsimp only
        rw [hrest]
        simp only [List.exists_mem_cons_iff, href, false_or]
        by_cases hzero : ∃ e' ∈ entries, e'.iRef = 0
        · rw [if_pos hzero, if_pos hzero]
          rfl
        · rw [if_neg hzero, if_neg hzero]
          rfl

/-- Writing goes through exactly if no header buffer is null. -/
theorem externalizeEntries_isSome_iff :
    (∃ bytes, externalizeEntries entries = some bytes) ↔ ∀ e ∈ entries, e.iHeaderBuffer ≠ none := by
  induction entries with
  | nil => exact ⟨fun _ e he => absurd he List.not_mem_nil, fun _ => ⟨[], rfl⟩⟩
  | cons e entries ih =>
      rw [List.forall_mem_cons, ← ih, externalizeEntries]
      cases hheader : e.iHeaderBuffer with
      | none =>
          have hnone : e.externalizeL = none := by rw [CHttpCacheEntry.externalizeL, hheader]
          rw [hnone]
          exact ⟨fun ⟨bytes, h⟩ => (nomatch h), fun h => absurd rfl h.1⟩
      | some header =>
          obtain ⟨first, hfirst⟩ : ∃ first, e.externalizeL = some first := by
            rw [CHttpCacheEntry.externalizeL, hheader]
            exact ⟨_, rfl⟩
          rw [hfirst]
          constructor
          · rintro ⟨bytes, h⟩
            obtain ⟨first', -, h⟩ := Option.bind_eq_some_iff.1 h
            obtain ⟨others, hothers, -⟩ := Option.bind_eq_some_iff.1 h
            exact ⟨Option.some_ne_none _, others, hothers⟩
          · rintro ⟨-, others, hothers⟩
            exact ⟨first ++ others, by rw [hothers]; rfl⟩

/-! ## The index -/

omit [Platform] in
theorem mem_goingToWrite : e ∈ entries.filter CHttpCacheEntry.goingToWrite ↔
    e ∈ entries ∧ 0 < e.iBodySize := by
  rw [List.mem_filter, CHttpCacheEntry.goingToWrite, decide_eq_true_iff]

/-- `CHttpCacheLookupTable::InternalizeL` into a fresh table; `none` if it leaves or panics. -/
def internalizedTable (aDirectory : Des16) (bytes : Des8) : Option ScratchTable :=
  match internalizeL aDirectory bytes with
  | .ok (some entries, _) => some (scratchOf entries)
  | .ok (none, _) => some .newL
  | .error _ => none

/-- Reading a whole index. -/
theorem internalizeL_written {bytes : Des8} (hdir : aDirectory.length < 2147483648)
    (hcount : entries.length < 2147483648)
    (hfits : ∀ e ∈ entries, 0 < e.iBodySize → FitsIndex aDirectory e)
    (hbytes : externalizeL aDirectory entries = some bytes) :
    internalizedTable aDirectory bytes =
      if aDirectory = [] then some .newL
      else if ∃ e ∈ entries.filter CHttpCacheEntry.goingToWrite, e.iRef = 0 then none
      else some (scratchOf ((entries.filter CHttpCacheEntry.goingToWrite).map
        CHttpCacheEntry.readBack)) := by
  obtain ⟨written, hwritten, hbytes⟩ := Option.bind_eq_some_iff.1 hbytes
  obtain rfl := Option.some.inj hbytes
  have hlength := List.length_filter_le CHttpCacheEntry.goingToWrite entries
  have hread := internalizeEntries_written (fun e he =>
    hfits e (mem_goingToWrite.1 he).1 (mem_goingToWrite.1 he).2) hwritten []
  rw [List.append_nil] at hread
  have hversion : Reads readInt32 (writeInt32 kCacheVersionNumber) kCacheVersionNumber :=
    reads_readInt32 (by decide) (by decide)
  simp only [internalizedTable, internalizeL, List.append_assoc]
  rw [hversion.bind_run, if_pos rfl, (reads_readInt32 (by omega) (by omega)).bind_run]
  by_cases hnil : aDirectory = []
  · subst hnil
    rfl
  · have hpos : aDirectory.length ≠ 0 := fun h => hnil (List.length_eq_zero_iff.1 h)
    rw [if_neg (by omega), if_neg (by omega), Int.toNat_natCast, (reads_readUnits _).bind_run,
      (reads_readInt32 (by omega) (by omega)).bind_run, Int.toNat_natCast, if_neg hnil]
    by_cases hzero : ∃ e ∈ entries.filter CHttpCacheEntry.goingToWrite, e.iRef = 0
    · rw [if_pos hzero] at hread ⊢
      simp only [Functor.map, StateT.map, hread]
      rfl
    · rw [if_neg hzero] at hread ⊢
      simp only [Functor.map, StateT.map, hread]
      rfl

/-- A complete entry with a body. -/
def CHttpCacheEntry.completeWithBody (e : CHttpCacheEntry) : Bool :=
  decide (e.iState = .eCacheComplete ∧ 0 < e.iBodySize)

/-- The index of these entries is written, read into a fresh table, and gives back exactly the
complete entries with a body. -/
def IndexRoundTrips (aDirectory : Des16) (entries : List CHttpCacheEntry) : Prop :=
  ∃ bytes table, externalizeL aDirectory entries = some bytes ∧
    internalizedTable aDirectory bytes = some table ∧
    (table.entries.map CHttpCacheEntry.indexView).Perm
      ((entries.filter CHttpCacheEntry.completeWithBody).map CHttpCacheEntry.indexView)

theorem externalizeL_isSome_iff :
    (∃ bytes, externalizeL aDirectory entries = some bytes) ↔
      ∀ e ∈ entries, 0 < e.iBodySize → e.iHeaderBuffer ≠ none := by
  have hwritten : (∃ bytes, externalizeL aDirectory entries = some bytes) ↔
      ∃ bytes, externalizeEntries (entries.filter CHttpCacheEntry.goingToWrite) = some bytes := by
    constructor
    · rintro ⟨bytes, h⟩
      obtain ⟨written, hwritten, -⟩ := Option.bind_eq_some_iff.1 h
      exact ⟨written, hwritten⟩
    · rintro ⟨written, hwritten⟩
      exact ⟨_, by rw [externalizeL, hwritten]; rfl⟩
  rw [hwritten, externalizeEntries_isSome_iff]
  exact ⟨fun h e he hbody => h e (mem_goingToWrite.2 ⟨he, hbody⟩),
    fun h e he => h e (mem_goingToWrite.1 he).1 (mem_goingToWrite.1 he).2⟩

omit [Platform] in
/-- What is written, of which the complete entries are a part. -/
theorem filter_completeWithBody :
    entries.filter CHttpCacheEntry.completeWithBody =
      (entries.filter CHttpCacheEntry.goingToWrite).filter fun e => e.iState = .eCacheComplete := by
  rw [List.filter_filter]
  refine List.filter_congr fun e _ => ?_
  rw [CHttpCacheEntry.completeWithBody, CHttpCacheEntry.goingToWrite, Bool.decide_and]

omit [Platform] in
theorem mem_completeWithBody : e ∈ entries.filter CHttpCacheEntry.completeWithBody ↔
    e ∈ entries ∧ e.iState = .eCacheComplete ∧ 0 < e.iBodySize := by
  rw [List.mem_filter, CHttpCacheEntry.completeWithBody, decide_eq_true_iff]

/-- The table that was loaded shows the entries that were written. -/
theorem indexView_scratchOf (written : List CHttpCacheEntry) :
    ((scratchOf (written.map CHttpCacheEntry.readBack)).entries.map
      CHttpCacheEntry.indexView).Perm (written.map CHttpCacheEntry.indexView) := by
  have hperm := (scratchOf_spec (written.map CHttpCacheEntry.readBack)).2.map
    CHttpCacheEntry.indexView
  rwa [List.map_map, List.map_map] at hperm

/-- The index gives the complete entries back exactly if writing finds no null pointer and either
the directory has no name and nothing is complete, or all that has a body is complete and has a
reference count that is not zero. -/
theorem indexRoundTrips_iff (hdir : aDirectory.length < 2147483648)
    (hcount : entries.length < 2147483648)
    (hfits : ∀ e ∈ entries, 0 < e.iBodySize → FitsIndex aDirectory e) :
    IndexRoundTrips aDirectory entries ↔
      (∀ e ∈ entries, 0 < e.iBodySize → e.iHeaderBuffer ≠ none) ∧
        (aDirectory = [] ∧ (∀ e ∈ entries, 0 < e.iBodySize → e.iState ≠ .eCacheComplete) ∨
          aDirectory ≠ [] ∧
            ∀ e ∈ entries, 0 < e.iBodySize → e.iState = .eCacheComplete ∧ e.iRef ≠ 0) := by
  rw [← @externalizeL_isSome_iff _ aDirectory]
  constructor
  · rintro ⟨bytes, table, hbytes, htable, hperm⟩
    refine ⟨⟨bytes, hbytes⟩, ?_⟩
    rw [internalizeL_written hdir hcount hfits hbytes] at htable
    by_cases hnil : aDirectory = []
    · -- The reader stops at the empty name, so nothing was to be read.
      refine .inl ⟨hnil, fun e he hbody hstate => ?_⟩
      rw [if_pos hnil] at htable
      obtain rfl := Option.some.inj htable
      have hempty : (newL : ScratchTable).entries = [] := entries_replicate_null _
      rw [hempty, List.map_nil] at hperm
      have hmem := hperm.mem_iff.2
        (List.mem_map_of_mem (mem_completeWithBody.2 ⟨he, hstate, hbody⟩))
      exact absurd hmem List.not_mem_nil
    · refine .inr ⟨hnil, fun e he hbody => ?_⟩
      have hmem := mem_goingToWrite.2 ⟨he, hbody⟩
      rw [if_neg hnil] at htable
      by_cases hzero : ∃ e ∈ entries.filter CHttpCacheEntry.goingToWrite, e.iRef = 0
      · rw [if_pos hzero] at htable
        cases htable
      · rw [if_neg hzero] at htable
        obtain rfl := Option.some.inj htable
        -- As many entries are complete as were written, so they all are.
        have hlength := ((indexView_scratchOf _).symm.trans hperm).length_eq
        rw [List.length_map, List.length_map, filter_completeWithBody] at hlength
        have hall := List.length_filter_eq_length_iff.1 hlength.symm
        exact ⟨of_decide_eq_true (hall e hmem), fun href => hzero ⟨e, hmem, href⟩⟩
  · rintro ⟨⟨bytes, hbytes⟩, hcase⟩
    have htable := internalizeL_written hdir hcount hfits hbytes
    rcases hcase with ⟨hnil, hnone⟩ | ⟨hnil, hall⟩
    · rw [if_pos hnil] at htable
      refine ⟨bytes, _, hbytes, htable, ?_⟩
      have hempty : (newL : ScratchTable).entries = [] := entries_replicate_null _
      have hfilter : entries.filter CHttpCacheEntry.completeWithBody = [] := by
        refine List.eq_nil_iff_forall_not_mem.2 fun e he => ?_
        obtain ⟨hmem, hstate, hbody⟩ := mem_completeWithBody.1 he
        exact hnone e hmem hbody hstate
      rw [hempty, hfilter]
    · have hzero : ¬∃ e ∈ entries.filter CHttpCacheEntry.goingToWrite, e.iRef = 0 := by
        rintro ⟨e, he, href⟩
        obtain ⟨hmem, hbody⟩ := mem_goingToWrite.1 he
        exact (hall e hmem hbody).2 href
      rw [if_neg hnil, if_neg hzero] at htable
      refine ⟨bytes, _, hbytes, htable, ?_⟩
      have hfilter : entries.filter CHttpCacheEntry.completeWithBody =
          entries.filter CHttpCacheEntry.goingToWrite := by
        rw [filter_completeWithBody, List.filter_eq_self]
        intro e he
        obtain ⟨hmem, hbody⟩ := mem_goingToWrite.1 he
        exact decide_eq_true (hall e hmem hbody).1
      rw [hfilter]
      exact indexView_scratchOf _

end Index

section Partial

open Reference FaultState

/-- A complete entry is read back. -/
theorem indexRoundTrips_stored :
    IndexRoundTrips [kPathDelimiter] [stored [1] 0 1 1 [2, 3]] := by
  have hname : FitsIndex [kPathDelimiter] (stored [1] 0 1 1 [2, 3]) :=
    { url := by decide
      bodySize := by decide
      header := by
        intro header hheader
        obtain rfl := Option.some.inj hheader
        decide
      fileName := ⟨hex8 (Platform.crc32 [1]), rfl, generateNameLC_eq [1] [kPathDelimiter]⟩ }
  refine (indexRoundTrips_iff (by decide) (by decide) ?_).2 ⟨?_, .inr ⟨by decide, ?_⟩⟩
  · intro e he _
    obtain rfl := List.mem_singleton.1 he
    exact hname
  · intro e he _
    obtain rfl := List.mem_singleton.1 he
    exact Option.some_ne_none _
  · intro e he _
    obtain rfl := List.mem_singleton.1 he
    exact ⟨rfl, by decide⟩

/-- While the rest of a body is awaited, the index lists the part that has come as a complete
entry. -/
theorem not_indexRoundTrips : ¬ ∀ (c : Construct) (s : CacheState),
    Reaches Op.run c.Starts (fun _ _ => True) s →
      IndexRoundTrips s.iDirectory (s.iLookupTable.entries.filterMap s.heap) := by
  intro h
  have heval : (stateAfter emptyCache
      [.receivedResponseHeadersL Reference.env 0 (response [1] [2, 3]),
        .receivedResponseBodyDataL Reference.env 0 [7]]).map (fun s =>
      ((s.iLookupTable.entries.filterMap s.heap).map fun e => (e.iState, e.iBodySize),
        ((externalizeL s.iDirectory (s.iLookupTable.entries.filterMap s.heap)).bind
          (internalizedTable s.iDirectory)).map fun t =>
            t.entries.map fun e => (e.iUrl, e.iState, e.iBodySize))) =
      some ([(.eCacheResponding, 1)], some [([1], .eCacheComplete, 1)]) := by
    decide +kernel
  obtain ⟨s, hs, heq⟩ := exists_run_of_eval heval
  rw [Prod.mk.injEq] at heq
  obtain ⟨bytes, table, hbytes, htable, hperm⟩ := h _ s hs
  have hloaded := heq.2
  rw [hbytes, Option.bind_some, htable, Option.map_some, Option.some.injEq] at hloaded
  have hone := congrArg List.length hloaded
  have hnone : (s.iLookupTable.entries.filterMap s.heap).filter
      CHttpCacheEntry.completeWithBody = [] := by
    refine List.eq_nil_iff_forall_not_mem.2 fun e he => ?_
    obtain ⟨hmem, hstate, -⟩ := mem_completeWithBody.1 he
    have hstates : (e.iState, e.iBodySize) ∈
        (s.iLookupTable.entries.filterMap s.heap).map fun e => (e.iState, e.iBodySize) :=
      List.mem_map_of_mem hmem
    rw [heq.1, List.mem_singleton, hstate, Prod.mk.injEq] at hstates
    cases hstates.1
  have hlength := hperm.length_eq
  rw [hnone, List.length_map] at hlength
  rw [List.length_map, hlength] at hone
  cases hone

end Partial

end SymbianWeb.HttpCache
