import SymbianWeb.HttpCache.EntrySpec
import SymbianWeb.HttpCache.Reference

/-!
# Saving a body in parts and reading it back

`SaveBodyData` appends to the heap buffer, and when that finds no memory it writes what is buffered
and the rest to the body file and starts with an empty buffer. `Flush` replaces the body file by
what is in the buffer. So the parts come back exactly when no allocation fails: what a failed
`AppendL` has written to the file is lost with the next `Flush` (`storesBody_iff`).
-/

set_option autoImplicit false

namespace SymbianWeb.HttpCache

open FaultState CSegmentedHeapBuffer

/-! ## The buffer over a sequence of parts -/

/-- The parts of a body, with the answers of the system while each one is saved. -/
abbrev BodyParts := List (Io × Des8)

/-- The parts one after the other. -/
def bodyOf (parts : BodyParts) : Des8 := (parts.map Prod.snd).flatten

/-- Where the body of an entry is: the heap buffer, and whether it is the body. -/
structure Buffered where
  buffer : CSegmentedHeapBuffer kBufferSize32k
  cached : Bool

/-- What `SaveBodyData` does with one part. -/
def Buffered.save (b : Buffered) (io : Io) (aBodyStr : Des8) : Buffered :=
  if aBodyStr = [] then b
  else if (b.buffer.appendL io.alloc aBodyStr).left then ⟨.reset, false⟩
  else ⟨(b.buffer.appendL io.alloc aBodyStr).buffer, true⟩

/-- What it does with a sequence of parts. -/
def Buffered.saveAll (b : Buffered) : BodyParts → Buffered
  | [] => b
  | (io, part) :: parts => (b.save io part).saveAll parts

/-- What `Flush` writes to the body file. -/
def Buffered.flushed (b : Buffered) : Des8 := if b.cached then b.buffer.contents else []

/-- Every allocation that `AppendL` makes for these parts works, when the buffer holds `held`
bytes before. -/
def AllocsWork : Nat → BodyParts → Prop
  | _, [] => True
  | held, (io, part) :: parts =>
      (∀ i < appendAllocs kBufferSize32k held part.length, io.alloc i = true) ∧
        AllocsWork (held + part.length) parts

theorem bodyOf_cons (io : Io) (part : Des8) (parts : BodyParts) :
    bodyOf ((io, part) :: parts) = part ++ bodyOf parts := rfl

/-- One part: it is appended if all allocations work, and otherwise the buffer is emptied. -/
theorem Buffered.save_spec (b : Buffered) (hb : b.buffer.NoEmptySegment) (io : Io) {part : Des8}
    (hpart : part ≠ []) :
    (b.save io part).buffer.NoEmptySegment ∧
      ((∀ i < appendAllocs kBufferSize32k b.buffer.contents.length part.length,
          io.alloc i = true) →
        (b.save io part).cached = true ∧
          (b.save io part).buffer.contents = b.buffer.contents ++ part) ∧
      (¬ (∀ i < appendAllocs kBufferSize32k b.buffer.contents.length part.length,
          io.alloc i = true) → b.save io part = ⟨.reset, false⟩) := by
  obtain ⟨hleft, hremainder, hsegments⟩ := appendL_left_iff io.alloc
    (show 0 < kBufferSize32k by decide) b.buffer part hpart hb
  rw [Buffered.save, if_neg hpart]
  cases happended : (b.buffer.appendL io.alloc part).left with
  | true =>
      rw [if_pos rfl]
      refine ⟨noEmptySegment_reset, fun hall => ?_, fun _ => rfl⟩
      obtain ⟨i, hi, hfail⟩ := hleft.1 happended
      rw [hall i hi] at hfail
      cases hfail
  | false =>
      rw [if_neg Bool.false_ne_true]
      refine ⟨hsegments, fun _ => ⟨rfl, ?_⟩, fun hfail => ?_⟩
      · obtain ⟨-, hcontents⟩ := appendL_contents io.alloc b.buffer part
        rw [hcontents, hremainder happended, Nat.sub_zero, List.take_length]
      · obtain ⟨i, hi, hne⟩ := by
          simpa only [not_forall, Bool.not_eq_true] using hfail
        rw [hleft.2 ⟨i, hi, hne⟩] at happended
        cases happended

/-- When all allocations work everything is in the buffer. -/
theorem Buffered.flushed_of_allocsWork (parts : BodyParts) (b : Buffered)
    (hb : b.buffer.NoEmptySegment) (h : AllocsWork b.buffer.contents.length parts) :
    (b.saveAll parts).flushed =
      if b.cached = true ∨ bodyOf parts ≠ [] then b.buffer.contents ++ bodyOf parts else [] := by
  induction parts generalizing b with
  | nil =>
      rw [Buffered.saveAll, Buffered.flushed, bodyOf]
      simp
  | cons first parts ih =>
      obtain ⟨io, part⟩ := first
      by_cases hpart : part = []
      · subst hpart
        rw [Buffered.saveAll, Buffered.save, if_pos rfl, bodyOf_cons, List.nil_append]
        exact ih b hb h.2
      · obtain ⟨hsegments, hsaved, -⟩ := b.save_spec hb io hpart
        obtain ⟨hcached, hcontents⟩ := hsaved h.1
        have hrest := ih (b.save io part) hsegments (by
          rw [hcontents, List.length_append]
          exact h.2)
        have hne : part ++ bodyOf parts ≠ [] := fun hnil => hpart (List.append_eq_nil_iff.1 hnil).1
        rw [Buffered.saveAll, hrest, if_pos (.inl hcached), hcontents, bodyOf_cons,
          if_pos (.inr hne), List.append_assoc]

/-- Otherwise something is missing. -/
theorem Buffered.flushed_of_not_allocsWork (parts : BodyParts) (b : Buffered)
    (hb : b.buffer.NoEmptySegment) (h : ¬ AllocsWork b.buffer.contents.length parts) :
    (b.saveAll parts).flushed.length < (bodyOf parts).length := by
  induction parts generalizing b with
  | nil => exact absurd trivial h
  | cons first parts ih =>
      obtain ⟨io, part⟩ := first
      rw [bodyOf_cons, List.length_append, Buffered.saveAll]
      by_cases hpart : part = []
      · subst hpart
        rw [Buffered.save, if_pos rfl]
        refine Nat.lt_of_lt_of_le (ih b hb fun hrest => h ⟨?_, hrest⟩) (Nat.le_add_left _ _)
        rw [List.length_nil, appendAllocs_zero (by decide)]
        exact fun i hi => absurd hi (Nat.not_lt_zero i)
      · obtain ⟨hsegments, hsaved, hlost⟩ := b.save_spec hb io hpart
        by_cases hall : ∀ i < appendAllocs kBufferSize32k b.buffer.contents.length part.length,
            io.alloc i = true
        · -- a later part finds no memory
          obtain ⟨-, hcontents⟩ := hsaved hall
          refine Nat.lt_of_lt_of_le (ih _ hsegments fun hrest => h ⟨hall, ?_⟩) (Nat.le_add_left _ _)
          rwa [hcontents, List.length_append] at hrest
        · -- this part is lost, and no more than the later ones is left
          have hlen : 0 < part.length := List.length_pos_iff.2 hpart
          rw [hlost hall]
          by_cases hrest : AllocsWork (reset : CSegmentedHeapBuffer kBufferSize32k).contents.length
              parts
          · rw [Buffered.flushed_of_allocsWork parts ⟨.reset, false⟩ noEmptySegment_reset hrest]
            split
            · show ([] ++ bodyOf parts).length < _
              rw [List.nil_append]
              omega
            · rw [List.length_nil]
              omega
          · exact Nat.lt_of_lt_of_le (ih ⟨.reset, false⟩ noEmptySegment_reset hrest)
              (Nat.le_add_left _ _)

/-! ## The functions -/

section Functions

variable {s s' : CacheState} {id : EntryId} {e : CHttpCacheEntry} {io : Io}

/-- Where the body of this entry is. -/
def CHttpCacheEntry.buffered (e : CHttpCacheEntry) : Buffered := ⟨e.iCacheBuffer, e.bodyDataCached⟩

/-- Writes that all succeed append all buffers. -/
theorem writeAll_true {writeOk : Nat → Bool} {k : Nat} {file : Des8} {bufs : List Des8}
    (h : (writeAll writeOk k file bufs).2 = true) :
    (writeAll writeOk k file bufs).1 = file ++ bufs.flatten := by
  induction bufs generalizing k file with
  | nil => exact (List.append_nil file).symm
  | cons buf bufs ih =>
      rw [writeAll] at h ⊢
      split at h
      · next hok =>
          rw [if_pos hok, ih h, List.flatten_cons, List.append_assoc]
      · cases h

/-- `CreateNewBodyFile` that succeeds leaves an empty file open. -/
theorem createNewBodyFile_true (he : s.heap id = some e)
    (h : createNewBodyFile io id s = some (true, s')) :
    e.iFileName ∉ s.openFiles ∧ s'.heap id = some { e with iBodyFile := true } ∧
      s'.files e.iFileName = some [] ∧ s'.openFiles = e.iFileName :: s.openFiles := by
  rw [createNewBodyFile, bind_of (getEntry_of he), get_bind] at h
  obtain ⟨_, s₁, hnote, h⟩ := bind_eq_some.1 h
  obtain rfl := modify_run.1 hnote
  split at h
  · next hok =>
      rw [modify_bind] at h
      obtain ⟨_, s₂, hmodify, h⟩ := bind_eq_some.1 h
      rw [pure_eq_some, Prod.mk.injEq] at h
      rw [h.2, modifyEntry_at hmodify he]
      exact ⟨hok.2, heap_setEntry_self .., Function.update_self .., rfl⟩
  · obtain ⟨_, s₂, -, h⟩ := bind_eq_some.1 h
    obtain ⟨_, s₃, -, h⟩ := bind_eq_some.1 h
    rw [pure_eq_some, Prod.mk.injEq] at h
    cases h.1

/-- `BodyFile().Write` of some buffers. -/
theorem writeBodyFile_run {bufs : List Des8} {saved : Bool} (he : s.heap id = some e)
    (h : writeBodyFile io id bufs s = some (saved, s')) :
    s'.heap = s.heap ∧ s'.openFiles = s.openFiles ∧ (saved = true →
      s'.files e.iFileName = some ((s.files e.iFileName).getD [] ++ bufs.flatten)) := by
  rw [writeBodyFile, bind_of (getEntry_of he), get_bind, modify_bind, pure_eq_some,
    Prod.mk.injEq] at h
  obtain ⟨rfl, rfl⟩ := h
  refine ⟨rfl, rfl, fun hall => ?_⟩
  rw [← writeAll_true hall]
  exact Function.update_self ..

theorem closeBodyFile_at {a : Unit} (he : s.heap id = some e) (hopen : e.iBodyFile = true)
    (h : closeBodyFile id s = some (a, s')) :
    s' = ({ s with openFiles := s.openFiles.erase e.iFileName }).setEntry id
      (some { e with iBodyFile := false }) := by
  rw [closeBodyFile, bind_of (getEntry_of he), whenM_of hopen, modify_bind] at h
  exact modifyEntry_at h he

/-- `SetBodySize` to a size that is not zero changes nothing else. -/
theorem updateSizeInformation_at {n : Nat} {a : Unit} (hn : n ≠ 0) (he : s.heap id = some e)
    (h : updateSizeInformation id n s = some (a, s')) :
    s'.heap id = some { e with iBodySize := e.iBodySize + n } := by
  rw [updateSizeInformation, bind_of (getEntry_of he)] at h
  obtain ⟨_, s₁, hsize, h⟩ := bind_eq_some.1 h
  have hs₁ := setBodySize_other_run he (fun hcase => hn (by omega)) hsize
  rw [modify_run.1 h, hs₁]
  exact heap_setEntry_self ..

/-- The part of an entry that `SaveBodyData` reads again. -/
structure SavedTo (b : Buffered) (n : Nat) (e e' : CHttpCacheEntry) : Prop where
  name : e'.iFileName = e.iFileName
  size : e'.iBodySize = e.iBodySize + n
  buffered : e'.buffered = b

theorem saveToBodyFile_true {part : Des8} {remainder : Nat} (hpart : part ≠ [])
    (he : s.heap id = some e) (h : saveToBodyFile io id part remainder s = some (true, s')) :
    ∃ e', s'.heap id = some e' ∧ SavedTo ⟨.reset, false⟩ part.length e e' := by
  rw [saveToBodyFile] at h
  obtain ⟨created, s₁, hcreate, h⟩ := bind_eq_some.1 h
  cases created with
  | false =>
      rw [if_neg Bool.false_ne_true, pure_eq_some, Prod.mk.injEq] at h
      cases h.1
  | true =>
      obtain ⟨-, he₁, -⟩ := createNewBodyFile_true he hcreate
      rw [if_pos rfl, bind_of (getEntry_of he₁), get_bind] at h
      obtain ⟨saved, s₂, hwrite, h⟩ := bind_eq_some.1 h
      have he₂ : s₂.heap id = some { e with iBodyFile := true } := by
        split at hwrite
        · rw [(writeBodyFile_run he₁ hwrite).1]
          exact he₁
        · rw [pure_eq_some, Prod.mk.injEq] at hwrite
          rw [hwrite.2]
          exact he₁
      obtain ⟨_, s₃, hcached, h⟩ := bind_eq_some.1 h
      obtain ⟨_, s₄, hclose, h⟩ := bind_eq_some.1 h
      obtain ⟨_, s₅, hupdate, h⟩ := bind_eq_some.1 h
      rw [pure_eq_some, Prod.mk.injEq] at h
      have he₃ : s₃.heap id = some { e with
          iBodyFile := true, bodyDataCached := false, iCacheBuffer := .reset } := by
        rw [modifyEntry_at hcached he₂]
        exact heap_setEntry_self ..
      have hs₄ := closeBodyFile_at he₃ rfl hclose
      have he₄ : s₄.heap id = some { e with
          iBodyFile := false, bodyDataCached := false, iCacheBuffer := .reset } := by
        rw [hs₄]
        exact heap_setEntry_self ..
      have hlen : part.length ≠ 0 := fun hzero => hpart (List.length_eq_zero_iff.1 hzero)
      rw [h.2]
      exact ⟨_, updateSizeInformation_at hlen he₄ hupdate, rfl, rfl, rfl⟩

/-- `SaveBodyData` that succeeds. -/
theorem saveBodyData_true {part : Des8} (he : s.heap id = some e)
    (h : saveBodyData io id part s = some (true, s')) :
    ∃ e', s'.heap id = some e' ∧ SavedTo (e.buffered.save io part) part.length e e' := by
  rw [saveBodyData] at h
  split at h
  · next hpart =>
      rw [pure_eq_some, Prod.mk.injEq] at h
      rw [h.2, hpart]
      refine ⟨e, he, rfl, rfl, ?_⟩
      rw [Buffered.save, if_pos rfl]
  · next hpart =>
      rw [bind_of (getEntry_of he)] at h
      obtain ⟨_, s₁, happend, h⟩ := bind_eq_some.1 h
      have he₁ : s₁.heap id = some { e with
          iCacheBuffer := (e.iCacheBuffer.appendL io.alloc part).buffer } := by
        rw [modifyEntry_at happend he]
        exact heap_setEntry_self ..
      cases hleft : (e.iCacheBuffer.appendL io.alloc part).left with
      | true =>
          rw [hleft, if_pos rfl] at h
          obtain ⟨e', he', hname, hsize, hbuffered⟩ := saveToBodyFile_true hpart he₁ h
          refine ⟨e', he', hname, hsize, hbuffered.trans ?_⟩
          rw [Buffered.save, if_neg hpart]
          exact (if_pos hleft).symm
      | false =>
          rw [hleft, if_neg Bool.false_ne_true] at h
          obtain ⟨_, s₂, hcached, h⟩ := bind_eq_some.1 h
          obtain ⟨_, s₃, hupdate, h⟩ := bind_eq_some.1 h
          rw [pure_eq_some, Prod.mk.injEq] at h
          have hs₂ := modifyEntry_at hcached he₁
          have he₂ : s₂.heap id = some { e with
              iCacheBuffer := (e.iCacheBuffer.appendL io.alloc part).buffer
              bodyDataCached := true } := by
            rw [hs₂]
            exact heap_setEntry_self ..
          have hlen : part.length ≠ 0 := fun hzero => hpart (List.length_eq_zero_iff.1 hzero)
          rw [h.2]
          have hnot : ¬ (e.iCacheBuffer.appendL io.alloc part).left = true := by
            rw [hleft]
            exact Bool.false_ne_true
          refine ⟨_, updateSizeInformation_at hlen he₂ hupdate, rfl, rfl, ?_⟩
          rw [Buffered.save, if_neg hpart]
          exact (if_neg hnot).symm

theorem headerData_bind {α : Type} {k : Des8 → CacheM α} {r : α × CacheState}
    (h : (headerData id >>= k) s = some r) : ∃ header, k header s = some r := by
  obtain ⟨header, s₁, hheader, h⟩ := bind_eq_some.1 h
  obtain ⟨e, -, hheader⟩ := getEntry_bind.1 hheader
  cases hbuffer : e.iHeaderBuffer with
  | none =>
      rw [hbuffer] at hheader
      cases hheader
  | some data =>
      rw [hbuffer, pure_eq_some, Prod.mk.injEq] at hheader
      rw [hheader.2] at h
      exact ⟨header, h⟩

/-- `Flush` that succeeds leaves the file with what was buffered, and closed. -/
theorem flush_true (he : s.heap id = some e) (h : flush io id s = some (true, s')) :
    ∃ e', s'.heap id = some e' ∧ e'.iFileName = e.iFileName ∧ e'.iBodySize = e.iBodySize ∧
      e'.bodyDataCached = false ∧ s'.files e.iFileName = some e.buffered.flushed ∧
      e.iFileName ∉ s'.openFiles := by
  rw [flush, bind_of (getEntry_of he)] at h
  obtain ⟨header, h⟩ := headerData_bind h
  rw [get_bind] at h
  split at h
  · obtain ⟨created, s₁, hcreate, h⟩ := bind_eq_some.1 h
    cases created with
    | false =>
        rw [if_neg Bool.false_ne_true, pure_eq_some, Prod.mk.injEq] at h
        cases h.1
    | true =>
        obtain ⟨hclosed, he₁, hfile₁, hopen₁⟩ := createNewBodyFile_true he hcreate
        rw [if_pos rfl] at h
        have herase : e.iFileName ∉ (e.iFileName :: s.openFiles).erase e.iFileName := by
          rw [List.erase_cons_head]
          exact hclosed
        cases hcached : e.bodyDataCached with
        | false =>
            rw [hcached, if_neg Bool.false_ne_true] at h
            obtain ⟨_, s₂, hclose, h⟩ := bind_eq_some.1 h
            rw [pure_eq_some, Prod.mk.injEq] at h
            rw [h.2, closeBodyFile_at he₁ rfl hclose]
            refine ⟨_, heap_setEntry_self .., rfl, rfl, hcached, ?_, ?_⟩
            · have hnot : ¬ e.bodyDataCached = true := by
                rw [hcached]
                exact Bool.false_ne_true
              have hflushed : e.buffered.flushed = [] := if_neg hnot
              rw [hflushed]
              exact hfile₁
            · show e.iFileName ∉ s₁.openFiles.erase e.iFileName
              rw [hopen₁]
              exact herase
        | true =>
            rw [hcached, if_pos rfl] at h
            obtain ⟨saveOk, s₂, hwrite, h⟩ := bind_eq_some.1 h
            obtain ⟨_, s₃, hreset, h⟩ := bind_eq_some.1 h
            obtain ⟨_, s₄, hclear, h⟩ := bind_eq_some.1 h
            obtain ⟨_, s₅, hclose, h⟩ := bind_eq_some.1 h
            rw [pure_eq_some, Prod.mk.injEq] at h
            obtain ⟨hheap, hopen₂, hfile₂⟩ := writeBodyFile_run he₁ hwrite
            have he₂ : s₂.heap id = some { e with iBodyFile := true } := by
              rw [hheap]
              exact he₁
            have hs₃ := modifyEntry_at hreset he₂
            have he₃ : s₃.heap id = some { e with iBodyFile := true, iCacheBuffer := .reset } := by
              rw [hs₃]
              exact heap_setEntry_self ..
            have hs₄ := modifyEntry_at hclear he₃
            have he₄ : s₄.heap id = some { e with
                iBodyFile := true, bodyDataCached := false, iCacheBuffer := .reset } := by
              rw [hs₄]
              exact heap_setEntry_self ..
            rw [h.2, closeBodyFile_at he₄ rfl hclose]
            refine ⟨_, heap_setEntry_self .., rfl, rfl, rfl, ?_, ?_⟩
            · have hflushed : e.buffered.flushed = e.iCacheBuffer.contents := if_pos hcached
              have hwritten := hfile₂ h.1.symm
              rw [hfile₁, Option.getD_some, List.nil_append] at hwritten
              rw [hflushed]
              show s₄.files e.iFileName = _
              rw [hs₄, hs₃]
              exact hwritten
            · show e.iFileName ∉ s₄.openFiles.erase e.iFileName
              rw [hs₄, hs₃]
              show e.iFileName ∉ s₂.openFiles.erase e.iFileName
              rw [hopen₂, hopen₁]
              exact herase
  · rw [pure_eq_some, Prod.mk.injEq] at h
    cases h.1

/-- `NextChunkL` of a body that is in a file of its own. -/
theorem nextChunkL_of_file {chunk : Option Des8} {body : Des8} (he : s.heap id = some e)
    (hcached : e.bodyDataCached = false) (hfile : s.files e.iFileName = some body)
    (hclosed : e.iFileName ∉ s.openFiles) (h : nextChunkL id s = some (chunk, s')) :
    chunk.getD [] = body ∧ ∃ e', s'.heap id = some e' ∧ e'.iBodySize = e.iBodySize := by
  rw [nextChunkL, bind_of (getEntry_of he), hcached, if_neg Bool.false_ne_true] at h
  have hopen : openBodyFile id s = some (true, ({ s with
      openFiles := e.iFileName :: s.openFiles }).setEntry id
        (some { e with iBodyFile := true })) := by
    rw [openBodyFile, bind_of (getEntry_of he), get_bind,
      if_pos ⟨by rw [hfile]; rfl, hclosed⟩, modify_bind]
    exact bind_of (modifyEntry_of he)
  rw [bind_of hopen, if_pos rfl, get_bind] at h
  obtain ⟨_, s₁, hclose, h⟩ := bind_eq_some.1 h
  have hs₁ := closeBodyFile_at (heap_setEntry_self ..) rfl hclose
  have hentry : ∃ e', s₁.heap id = some e' ∧ e'.iBodySize = e.iBodySize := by
    rw [hs₁]
    exact ⟨_, heap_setEntry_self .., rfl⟩
  have hread : (({ s with openFiles := e.iFileName :: s.openFiles }).setEntry id
      (some { e with iBodyFile := true })).files e.iFileName = some body := hfile
  rw [hread] at h
  cases body with
  | nil =>
      rw [pure_eq_some, Prod.mk.injEq] at h
      rw [h.1, h.2]
      exact ⟨rfl, hentry⟩
  | cons c body =>
      rw [pure_eq_some, Prod.mk.injEq] at h
      rw [h.1, h.2]
      exact ⟨rfl, hentry⟩

/-! ## Saving, flushing and reading -/

/-- `SaveBodyData` of the parts, one after the other: whether all were saved. -/
def saveParts (id : EntryId) : BodyParts → CacheM Bool
  | [] => pure true
  | (io, part) :: parts => do
      let saved ← saveBodyData io id part
      let others ← saveParts id parts
      pure (saved && others)

/-- A body is saved in parts and flushed, and then it is read: whether all calls reported success,
what `NextChunkL` returns, and `BodySize`. -/
def storeAndRead (id : EntryId) (parts : BodyParts) (io : Io) :
    CacheM (Bool × Option Des8 × Nat) := do
  let saved ← saveParts id parts
  let flushed ← flush io id
  let chunk ← nextChunkL id
  let e ← getEntry id
  pure (saved && flushed, chunk, e.iBodySize)

theorem saveParts_true {parts : BodyParts} (he : s.heap id = some e)
    (h : saveParts id parts s = some (true, s')) :
    ∃ e', s'.heap id = some e' ∧ SavedTo (e.buffered.saveAll parts) (bodyOf parts).length e e' := by
  induction parts generalizing s e with
  | nil =>
      rw [saveParts, pure_eq_some, Prod.mk.injEq] at h
      rw [h.2]
      exact ⟨e, he, rfl, rfl, rfl⟩
  | cons first parts ih =>
      obtain ⟨io, part⟩ := first
      obtain ⟨saved, s₁, hsave, h⟩ := bind_eq_some.1 h
      obtain ⟨others, s₂, hothers, h⟩ := bind_eq_some.1 h
      rw [pure_eq_some, Prod.mk.injEq] at h
      obtain ⟨hall, rfl⟩ := h
      rw [eq_comm, Bool.and_eq_true] at hall
      obtain ⟨rfl, rfl⟩ := hall
      obtain ⟨e₁, he₁, hname₁, hsize₁, hbuffered₁⟩ := saveBodyData_true he hsave
      obtain ⟨e₂, he₂, hname₂, hsize₂, hbuffered₂⟩ := ih he₁ hothers
      refine ⟨e₂, he₂, hname₂.trans hname₁, ?_, ?_⟩
      · rw [hsize₂, hsize₁, bodyOf_cons, List.length_append, Nat.add_assoc]
      · rw [hbuffered₂, hbuffered₁]
        rfl

/-- If all calls report success, `NextChunkL` returns the parts and `BodySize` is their length
exactly if the entry had no body and every allocation works. (With nothing to save it is enough
that no body is cached.) -/
theorem storesBody_iff {parts : BodyParts} {chunk : Option Des8} {size : Nat}
    (he : s.heap id = some e) (hsegments : e.iCacheBuffer.NoEmptySegment)
    (h : storeAndRead id parts io s = some ((true, chunk, size), s')) :
    (chunk.getD [] = bodyOf parts ∧ size = (bodyOf parts).length) ↔
      e.iBodySize = 0 ∧
        (e.iCacheBuffer.contents = [] ∧ AllocsWork 0 parts ∨
          e.bodyDataCached = false ∧ bodyOf parts = []) := by
  obtain ⟨saved, s₁, hsave, h⟩ := bind_eq_some.1 h
  obtain ⟨flushed, s₂, hflush, h⟩ := bind_eq_some.1 h
  obtain ⟨chunk', s₃, hchunk, h⟩ := bind_eq_some.1 h
  obtain ⟨e₃, he₃, h⟩ := getEntry_bind.1 h
  rw [pure_eq_some, Prod.mk.injEq, Prod.mk.injEq, Prod.mk.injEq] at h
  obtain ⟨⟨hall, rfl, rfl⟩, rfl⟩ := h
  rw [eq_comm, Bool.and_eq_true] at hall
  obtain ⟨rfl, rfl⟩ := hall
  obtain ⟨e₁, he₁, hname₁, hsize₁, hbuffered₁⟩ := saveParts_true he hsave
  obtain ⟨e₂, he₂, hname₂, hsize₂, hcached₂, hfile₂, hclosed₂⟩ := flush_true he₁ hflush
  rw [← hname₂] at hfile₂ hclosed₂
  obtain ⟨hread, e₄, he₄, hsize₄⟩ := nextChunkL_of_file he₂ hcached₂ hfile₂ hclosed₂ hchunk
  obtain rfl : e₄ = e₃ := Option.some.inj (he₄.symm.trans he₃)
  rw [hread, hbuffered₁, hsize₄, hsize₂, hsize₁]
  have hlength : e.iBodySize + (bodyOf parts).length = (bodyOf parts).length ↔ e.iBodySize = 0 := by
    omega
  rw [hlength, and_comm]
  refine and_congr_right fun _ => ?_
  by_cases hwork : AllocsWork e.iCacheBuffer.contents.length parts
  · rw [Buffered.flushed_of_allocsWork parts e.buffered hsegments hwork]
    show (if e.bodyDataCached = true ∨ bodyOf parts ≠ [] then
      e.iCacheBuffer.contents ++ bodyOf parts else []) = bodyOf parts ↔ _
    by_cases hsome : e.bodyDataCached = true ∨ bodyOf parts ≠ []
    · rw [if_pos hsome, List.append_left_eq_self]
      constructor
      · intro hempty
        rw [hempty] at hwork
        exact .inl ⟨hempty, hwork⟩
      · rintro (⟨hempty, -⟩ | ⟨hcached, hnil⟩)
        · exact hempty
        · rw [hcached] at hsome
          exact absurd hnil (hsome.resolve_left Bool.false_ne_true)
    · rw [if_neg hsome]
      rw [not_or, Bool.not_eq_true, ne_eq, not_not] at hsome
      exact iff_of_true hsome.2.symm (.inr hsome)
  · have hlost := Buffered.flushed_of_not_allocsWork parts e.buffered hsegments hwork
    refine iff_of_false (fun heq => ?_) ?_
    · rw [heq] at hlost
      exact Nat.lt_irrefl _ hlost
    · rintro (⟨hempty, hall⟩ | ⟨-, hnil⟩)
      · rw [hempty] at hwork
        exact hwork hall
      · rw [hnil] at hlost
        exact Nat.not_lt_zero _ hlost

end Functions

/-! ## Two parts, of which the second finds no memory -/

section Lost

open Reference

/-- A new entry without a body. -/
def newEntry : CHttpCacheEntry := { CHttpCacheEntry.newLC [1] with iFileName := [1] }

/-- A cache with this entry. -/
def withNewEntry : CacheState := emptyCache.initial.withNew newEntry

/-- No heap allocation works. -/
def noMemory : Io := { Reference.io with alloc := fun _ => false }

/-- With memory both parts come back. -/
theorem storesBody_two_parts : ∃ s', storeAndRead 0 [(Reference.io, [7]), (Reference.io, [8])]
    Reference.io withNewEntry = some ((true, some [7, 8], 2), s') ∧
      bodyOf [(Reference.io, [7]), (Reference.io, [8])] = [7, 8] := by
  have heval : (storeAndRead 0 [(Reference.io, [7]), (Reference.io, [8])] Reference.io
      withNewEntry).map Prod.fst = some (true, some [7, 8], 2) := by
    decide +kernel
  obtain ⟨⟨r, s'⟩, hrun, rfl⟩ := Option.map_eq_some_iff.1 heval
  have hwork : AllocsWork 0 [(Reference.io, [7]), (Reference.io, [8])] :=
    ⟨fun _ _ => rfl, fun _ _ => rfl, trivial⟩
  have hstored := (storesBody_iff (heap_withNew_self emptyCache.initial newEntry)
    noEmptySegment_reset hrun).2 ⟨rfl, .inl ⟨rfl, hwork⟩⟩
  exact ⟨s', hrun, hstored.1.symm⟩

/-- Both parts are reported as saved, and nothing is left of them. -/
theorem not_storesBody : ¬ ∀ (s s' : CacheState) (id : EntryId) (e : CHttpCacheEntry)
    (parts : BodyParts) (io : Io) (chunk : Option Des8) (size : Nat), s.heap id = some e →
      e.iBodySize = 0 → e.iCacheBuffer = .reset →
      storeAndRead id parts io s = some ((true, chunk, size), s') →
      chunk.getD [] = bodyOf parts ∧ size = (bodyOf parts).length := by
  intro h
  have heval : (storeAndRead 0 [(Reference.io, [7]), (noMemory, [8])] Reference.io
      withNewEntry).map Prod.fst = some (true, none, 2) := by
    decide +kernel
  obtain ⟨⟨r, s'⟩, hrun, rfl⟩ := Option.map_eq_some_iff.1 heval
  obtain ⟨hbody, -⟩ := h _ s' 0 newEntry _ _ _ _
    (heap_withNew_self emptyCache.initial newEntry) rfl rfl hrun
  cases hbody

end Lost

end SymbianWeb.HttpCache
