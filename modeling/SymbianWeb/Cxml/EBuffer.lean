import SymbianWeb.Library.Extents

/-!
# The expandable source buffer (`tinytree/src/EBuffer.c`)

The buffer is a list of segments of different sizes. A block is cut off the first segment with
room for it, or from a new segment; its index counts the bytes of the segments before it. Numbers
and addresses have 32 bits, and the memory behind the used part of the segment list is not
initialised.

As long as no request meets one of the defects (`Meets`), the blocks that were returned lie apart,
each inside one segment, and their indexes lead to them and back (`requests_intact`). The defects
are a segment list that cannot grow, which is overrun; a failed segment, whose `freeOffset` is not
set; and a size that is rounded up beyond 32 bits.
-/

set_option autoImplicit false

namespace SymbianWeb.SourceBuffer

open Extents

/-! ## The source -/

/-- A value in a `CXML_Vector_Metric_t` or a pointer. -/
def word (n : Nat) : Nat := n % 0x100000000

/-- `CXML_Vector_AtEnd` -/
def atEnd : Nat := 0xFFFFFFFF

/-- `CXML_SEGMENT_LIST_INCREMENT` -/
def segmentListIncrement : Nat := 4

/-- `NW_TinyTree_Segment_t`; the null pointer is 0. -/
structure Segment where
  storage : Nat
  segmentSize : Nat
  freeOffset : Nat
  deriving DecidableEq

/-- `NW_TinyTree_EBuffer_t`, with the first `numSegments` entries of its list. -/
structure EBuffer where
  blockSize : Nat
  segmentListSize : Nat
  segments : List Segment
  deriving DecidableEq

/-- A request, and what the allocations in it give: whether a new segment list can be had, the
storage of a new segment (null if there is none), and the `freeOffset` that happens to be in the
next entry of the list. -/
structure Request where
  size : UInt32
  growList : Bool
  storage : UInt32
  garbage : UInt32

/-- `NW_TinyTree_EBuffer_Construct`, when its own allocations succeed. -/
def construct (initialBuffer : Option Extent) (blockSize : Nat) : EBuffer where
  blockSize := blockSize
  segmentListSize := segmentListIncrement
  segments := match initialBuffer with
    | some buffer => [⟨buffer.address, buffer.length, buffer.length⟩]
    | none => []

/-- `NW_TinyTree_EBuffer_GetFirstIndex` of the segment behind these. -/
def getFirstIndex (segments : List Segment) : Nat :=
  segments.foldl (fun firstIndex segment => word (firstIndex + segment.segmentSize)) 0

/-- The loop of `NW_TinyTree_EBuffer_FindFreeBlock`: the address and the index of the block. -/
def findFreeBlockFrom (size : Nat) : Nat → List Segment → Option (Nat × Nat × List Segment)
  | _, [] => none
  | firstIndex, segment :: segments =>
      if size ≤ word (segment.segmentSize + 0x100000000 - segment.freeOffset) then
        some (word (segment.storage + segment.freeOffset), word (firstIndex + segment.freeOffset),
          { segment with freeOffset := word (segment.freeOffset + size) } :: segments)
      else
        (findFreeBlockFrom size (word (firstIndex + segment.segmentSize)) segments).map
          fun found => (found.1, found.2.1, segment :: found.2.2)

/-- `NW_TinyTree_EBuffer_FindFreeBlock`. An address of 0 says that there is none. -/
def findFreeBlock (size : Nat) (ebuffer : EBuffer) : Nat × Nat × EBuffer :=
  match findFreeBlockFrom size 0 ebuffer.segments with
  | some (storage, index, segments) => (storage, index, { ebuffer with segments := segments })
  | none => (0, atEnd, ebuffer)

/-- `NW_TinyTree_EBuffer_GrowSegmentList`, or nothing when it is out of memory. The new size is
kept in a byte. -/
def growSegmentList (growList : Bool) (ebuffer : EBuffer) : Option EBuffer :=
  let newSegmentListSize := (ebuffer.segmentListSize + segmentListIncrement) % 0x100
  if newSegmentListSize = 0 then none
  else if growList then some { ebuffer with segmentListSize := newSegmentListSize }
  else none

/-- The size of a new segment. -/
def roundUp (blockSize size : Nat) : Nat :=
  word ((word (size + 0xFFFFFFFF) / blockSize + 1) * blockSize)

/-- `NW_TinyTree_EBuffer_AllocSegment`. It does not look at whether the segment list has grown; the
entry behind a full list, and a division by zero, are faults. -/
def allocSegment (ebuffer : EBuffer) (request : Request) : Option (Nat × Nat × EBuffer) :=
  let ebuffer :=
    if ebuffer.segments.length = ebuffer.segmentListSize then
      (growSegmentList request.growList ebuffer).getD ebuffer
    else ebuffer
  if ebuffer.segments.length < ebuffer.segmentListSize ∧ ebuffer.blockSize ≠ 0 then
    if request.storage = 0 then
      some (0, atEnd,
        { ebuffer with segments := ebuffer.segments ++ [⟨0, 0, request.garbage.toNat⟩] })
    else
      some (request.storage.toNat, getFirstIndex ebuffer.segments,
        { ebuffer with segments := ebuffer.segments ++
            [⟨request.storage.toNat, roundUp ebuffer.blockSize request.size.toNat,
              request.size.toNat⟩] })
  else
    none

/-- `NW_TinyTree_EBuffer_GetWritableBlock`: the address of the block, or 0, and its index. -/
def getWritableBlock (ebuffer : EBuffer) (request : Request) : Option (Nat × Nat × EBuffer) :=
  match findFreeBlock request.size.toNat ebuffer with
  | (storage, index, ebuffer) =>
      if storage ≠ 0 then some (storage, index, ebuffer)
      else allocSegment ebuffer request

/-- The loop of `NW_TinyTree_EBuffer_GetSegmentAndOffset`: the segment and the offset in it. -/
def segmentAndOffsetFrom (index : Nat) : Nat → List Segment → Option (Segment × Nat)
  | _, [] => none
  | firstIndex, segment :: segments =>
      if index < word (firstIndex + segment.segmentSize) then
        some (segment, word (index + 0x100000000 - firstIndex))
      else segmentAndOffsetFrom index (word (firstIndex + segment.segmentSize)) segments

/-- `NW_TinyTree_EBuffer_GetSegmentAndOffset` -/
def getSegmentAndOffset (ebuffer : EBuffer) (index : Nat) : Option (Segment × Nat) :=
  segmentAndOffsetFrom index 0 ebuffer.segments

/-- The loop of `NW_TinyTree_EBuffer_GetIndex`. -/
def indexFrom (segmentAddr offset : Nat) : Nat → List Segment → Option Nat
  | _, [] => none
  | firstIndex, segment :: segments =>
      if segmentAddr = segment.storage then some (word (firstIndex + offset))
      else indexFrom segmentAddr offset (word (firstIndex + segment.segmentSize)) segments

/-- `NW_TinyTree_EBuffer_GetIndex` -/
def getIndex (ebuffer : EBuffer) (segmentAddr offset : Nat) : Option Nat :=
  indexFrom segmentAddr offset 0 ebuffer.segments

/-- `NW_TinyTree_EBuffer_AddressAt` -/
def addressAt (ebuffer : EBuffer) (index : Nat) : Nat :=
  match getSegmentAndOffset ebuffer index with
  | some (segment, offset) => word (segment.storage + offset)
  | none => 0

/-! ## What a run is to keep -/

/-- A block that a request has returned, with the index that goes with it. -/
structure Block where
  index : Nat
  extent : Extent
  deriving DecidableEq

/-- The requests of a run, one after the other, and the blocks of the successful ones. -/
def runRequests : EBuffer → List Block → List Request → Option (EBuffer × List Block)
  | ebuffer, blocks, [] => some (ebuffer, blocks)
  | ebuffer, blocks, request :: requests =>
      match getWritableBlock ebuffer request with
      | none => none
      | some (storage, index, ebuffer) =>
          if storage = 0 then runRequests ebuffer blocks requests
          else runRequests ebuffer (⟨index, ⟨storage, request.size.toNat⟩⟩ :: blocks) requests

def Segment.extent (segment : Segment) : Extent := ⟨segment.storage, segment.segmentSize⟩

/-- The blocks lie apart, each inside one allocated segment; the indexes of their bytes lead to
their addresses, and back. -/
structure Intact (ebuffer : EBuffer) (blocks : List Block) : Prop where
  apart : blocks.Pairwise fun b b' => Apart b.extent b'.extent
  inside : ∀ b ∈ blocks, ∃ segment ∈ ebuffer.segments, segment.storage ≠ 0 ∧
    Inside b.extent segment.extent
  address : ∀ b ∈ blocks, ∀ i < b.extent.length,
    addressAt ebuffer (b.index + i) = b.extent.address + i
  inverse : ∀ b ∈ blocks, ∀ i < b.extent.length, ∃ segment offset,
    getSegmentAndOffset ebuffer (b.index + i) = some (segment, offset) ∧
      getIndex ebuffer segment.storage offset = some (b.index + i)

/-! ## The segments -/

/-- The room of a block of memory; one of no bytes has an address of its own, too. -/
def held (e : Extent) : Extent := ⟨e.address, max e.length 1⟩

/-- The extents are live blocks of memory, or null. -/
structure Live (extents : List Extent) : Prop where
  null : ∀ e ∈ extents, e.address = 0 → e.length = 0
  fits : ∀ e ∈ extents, e.address ≠ 0 → e.address + max e.length 1 < 0x100000000
  apart : extents.Pairwise fun e e' => e.address ≠ 0 → e'.address ≠ 0 → Apart (held e) (held e')

/-- The segments are live blocks of memory with a used part, and the list has room for them. -/
structure Sound (ebuffer : EBuffer) : Prop where
  blockSize : ebuffer.blockSize ≠ 0
  listSize : ebuffer.segmentListSize % 4 = 0 ∧ ebuffer.segmentListSize ≤ 252
  room : ebuffer.segments.length ≤ ebuffer.segmentListSize
  free : ∀ s ∈ ebuffer.segments, s.freeOffset ≤ s.segmentSize
  live : Live (ebuffer.segments.map Segment.extent)

/-- The number of bytes of the segments. -/
def sizes (segments : List Segment) : List Nat := segments.map (·.segmentSize)

@[simp] theorem sizes_cons (s : Segment) (segments : List Segment) :
    sizes (s :: segments) = s.segmentSize :: sizes segments := rfl

/-- The block lies in the used part of a segment, and its index says where. -/
def Holds (segments : List Segment) (b : Block) : Prop :=
  ∃ (i : Nat) (s : Segment) (offset : Nat), segments[i]? = some s ∧ s.storage ≠ 0 ∧
    offset + b.extent.length ≤ s.freeOffset ∧ b.extent.address = s.storage + offset ∧
    b.index = firstIndex (sizes segments) i + offset

theorem word_of_lt {n : Nat} (h : n < 0x100000000) : word n = n := Nat.mod_eq_of_lt h

theorem inside_held (e : Extent) : Inside e (held e) :=
  ⟨Nat.le_refl _, Nat.add_le_add_left (Nat.le_max_left ..) _⟩

/-- Blocks that are not null are apart from one another, so they fit the address space. -/
theorem Live.sum_lt {extents : List Extent} (h : Live extents) :
    (extents.map (·.length)).sum < 0x100000000 := by
  let live := extents.filter fun e => e.address ≠ 0
  have hlive : ∀ e ∈ live, e ∈ extents ∧ e.address ≠ 0 := by
    intro e he
    simpa [live] using he
  -- null blocks have no bytes
  have hsum : ∀ l : List Extent, (∀ e ∈ l, e.address = 0 → e.length = 0) →
      (l.map (·.length)).sum = ((l.filter fun e => e.address ≠ 0).map (·.length)).sum := by
    intro l hnull
    induction l with
    | nil => rfl
    | cons e l ih =>
        obtain ⟨he, hrest⟩ := List.forall_mem_cons.1 hnull
        have ih := ih hrest
        rw [List.map_cons, List.sum_cons, ih]
        by_cases haddress : e.address = 0
        · simp [haddress, he haddress]
        · simp [haddress]
  have hapart : live.Pairwise Apart := by
    have hfilter := h.apart.sublist (List.filter_sublist (p := fun e => e.address ≠ 0))
    refine hfilter.imp_of_mem ?_
    intro e e' he he' hapart
    exact (hapart (hlive e he).2 (hlive e' he').2).of_inside (inside_held e) (inside_held e')
  have hlow : ∀ e ∈ live, 1 ≤ e.address := fun e he => Nat.pos_of_ne_zero (hlive e he).2
  have hhigh : ∀ e ∈ live, e.address + e.length ≤ 0x100000000 := by
    intro e he
    have hfits := h.fits e (hlive e he).1 (hlive e he).2
    omega
  have hle := sum_length_le hapart hlow hhigh
  rw [hsum _ h.null]
  show (live.map (·.length)).sum < _
  omega

/-- Two of the blocks that are not null. -/
theorem Live.apart_of_ne {extents : List Extent} (h : Live extents) {i j : Nat} {e e' : Extent}
    (hij : i ≠ j) (hi : extents[i]? = some e) (hj : extents[j]? = some e') (he : e.address ≠ 0)
    (he' : e'.address ≠ 0) : Apart (held e) (held e') := by
  obtain ⟨hi', rfl⟩ := List.getElem?_eq_some_iff.1 hi
  obtain ⟨hj', rfl⟩ := List.getElem?_eq_some_iff.1 hj
  have hpairs := List.pairwise_iff_getElem.1 h.apart
  rcases Nat.lt_or_gt_of_ne hij with hlt | hlt
  · exact hpairs i j hi' hj' hlt he he'
  · exact (hpairs j i hj' hi' hlt he' he).symm

theorem getElem?_extent {segments : List Segment} {i : Nat} {s : Segment}
    (hi : segments[i]? = some s) : (segments.map Segment.extent)[i]? = some s.extent := by
  rw [List.getElem?_map, hi]
  rfl

theorem Sound.sum_lt {ebuffer : EBuffer} (h : Sound ebuffer) :
    (sizes ebuffer.segments).sum < 0x100000000 := by
  have hlengths : sizes ebuffer.segments =
      (ebuffer.segments.map Segment.extent).map (·.length) := by
    rw [List.map_map]
    rfl
  rw [hlengths]
  exact h.live.sum_lt

/-! ## Finding -/

theorem getFirstIndex_from (segments : List Segment) (first : Nat) :
    segments.foldl (fun firstIndex segment => word (firstIndex + segment.segmentSize))
      (word first) = word (first + (sizes segments).sum) := by
  induction segments generalizing first with
  | nil => rfl
  | cons s segments ih =>
      have hword : word (word first + s.segmentSize) = word (first + s.segmentSize) := by
        simp [word]
      rw [List.foldl_cons, hword, ih, sizes_cons, List.sum_cons, Nat.add_assoc]

theorem getFirstIndex_eq {segments : List Segment} (h : (sizes segments).sum < 0x100000000) :
    getFirstIndex segments = (sizes segments).sum := by
  have hfrom := getFirstIndex_from segments 0
  rw [Nat.zero_add, word_of_lt h] at hfrom
  exact hfrom

/-- A free block is at the free offset of a segment with room for it, and is taken off there. -/
theorem findFreeBlockFrom_eq_some {size first : Nat} {segments segments' : List Segment}
    {storage index : Nat} (hfree : ∀ s ∈ segments, s.freeOffset ≤ s.segmentSize)
    (hsum : first + (sizes segments).sum < 0x100000000)
    (h : findFreeBlockFrom size first segments = some (storage, index, segments')) :
    ∃ i s, segments[i]? = some s ∧ s.freeOffset + size ≤ s.segmentSize ∧
      storage = word (s.storage + s.freeOffset) ∧
      index = first + firstIndex (sizes segments) i + s.freeOffset ∧
      segments' = segments.set i { s with freeOffset := s.freeOffset + size } := by
  induction segments generalizing first segments' with
  | nil => cases h
  | cons s segments ih =>
      obtain ⟨hs, hfree⟩ := List.forall_mem_cons.1 hfree
      have hsum' : first + (s.segmentSize + (sizes segments).sum) < 0x100000000 := hsum
      have hroom : word (s.segmentSize + 0x100000000 - s.freeOffset) =
          s.segmentSize - s.freeOffset := by
        rw [word]
        omega
      rw [findFreeBlockFrom, hroom] at h
      split at h
      · rename_i hsize
        simp only [Option.some.injEq, Prod.mk.injEq] at h
        obtain ⟨rfl, rfl, rfl⟩ := h
        refine ⟨0, s, rfl, by omega, rfl, ?_, ?_⟩
        · rw [firstIndex_zero, word_of_lt (by omega)]
          omega
        · rw [word_of_lt (by omega)]
          rfl
      · rw [word_of_lt (by omega), Option.map_eq_some_iff] at h
        obtain ⟨⟨storage', index', rest⟩, hrest, heq⟩ := h
        simp only [Prod.mk.injEq] at heq
        obtain ⟨rfl, rfl, rfl⟩ := heq
        obtain ⟨i, s', hi, hle, hstorage, hindex, hset⟩ := ih hfree (by omega) hrest
        refine ⟨i + 1, s', by simpa using hi, hle, hstorage, ?_, by simp [hset]⟩
        rw [hindex, sizes_cons, firstIndex_succ]
        omega

/-- The segment and the offset of an index are where the index falls. -/
theorem segmentAndOffsetFrom_eq {index first : Nat} {segments : List Segment}
    (hfirst : first ≤ index) (hindex : index < 0x100000000)
    (hsum : first + (sizes segments).sum < 0x100000000) :
    segmentAndOffsetFrom index first segments =
      (locate (sizes segments) (index - first)).bind
        fun place => (segments[place.1]?).map fun s => (s, place.2) := by
  induction segments generalizing first with
  | nil => rfl
  | cons s segments ih =>
      have hsum' : first + (s.segmentSize + (sizes segments).sum) < 0x100000000 := hsum
      rw [segmentAndOffsetFrom, word_of_lt (by omega), sizes_cons, locate]
      by_cases hin : index < first + s.segmentSize
      · have hoffset : word (index + 0x100000000 - first) = index - first := by
          rw [word]
          omega
        rw [if_pos hin, if_pos (by omega), hoffset]
        rfl
      · rw [if_neg hin, if_neg (by omega), ih (by omega) (by omega), Option.bind_map]
        have hrest : index - first - s.segmentSize = index - (first + s.segmentSize) := by omega
        rw [hrest]
        rfl

theorem getSegmentAndOffset_eq {ebuffer : EBuffer} (h : Sound ebuffer) {i offset : Nat}
    {s : Segment} (hi : ebuffer.segments[i]? = some s) (hoffset : offset < s.segmentSize) :
    getSegmentAndOffset ebuffer (firstIndex (sizes ebuffer.segments) i + offset) =
      some (s, offset) := by
  have hsize : (sizes ebuffer.segments)[i]? = some s.segmentSize := by
    simp [sizes, hi]
  have hsum := h.sum_lt
  have hle := firstIndex_add_le hsize
  rw [getSegmentAndOffset, segmentAndOffsetFrom_eq (Nat.zero_le _) (by omega) (by omega),
    Nat.sub_zero, locate_firstIndex hsize hoffset]
  simp [hi]

/-- The index of an offset in a segment, when no segment before has the same address. -/
theorem indexFrom_eq {segments : List Segment} {first i offset : Nat} {s : Segment}
    (hi : segments[i]? = some s) (hother : ∀ j < i, ∀ s', segments[j]? = some s' →
      s'.storage ≠ s.storage) (hsum : first + (sizes segments).sum < 0x100000000)
    (hoffset : offset < s.segmentSize) :
    indexFrom s.storage offset first segments =
      some (first + firstIndex (sizes segments) i + offset) := by
  induction segments generalizing first i with
  | nil => simp at hi
  | cons s' segments ih =>
      have hsum' : first + (s'.segmentSize + (sizes segments).sum) < 0x100000000 := hsum
      cases i with
      | zero =>
          simp only [List.getElem?_cons_zero, Option.some.injEq] at hi
          subst hi
          rw [indexFrom, if_pos rfl, word_of_lt (by omega), firstIndex_zero]
          rfl
      | succ i =>
          have hne : ¬ s.storage = s'.storage :=
            fun heq => hother 0 (Nat.succ_pos i) s' rfl heq.symm
          have hrest : indexFrom s.storage offset (first + s'.segmentSize) segments =
              some (first + s'.segmentSize + firstIndex (sizes segments) i + offset) :=
            ih (by simpa using hi)
            (fun j hj s'' hs'' => hother (j + 1) (by omega) s'' (by simpa using hs'')) (by omega)
          rw [indexFrom, if_neg hne, word_of_lt (by omega), hrest, sizes_cons, firstIndex_succ,
            Nat.add_assoc first]

/-! ## One request -/

/-- A new segment is needed. -/
def NeedsSegment (ebuffer : EBuffer) (request : Request) : Prop :=
  (findFreeBlock request.size.toNat ebuffer).1 = 0

instance (ebuffer : EBuffer) (request : Request) : Decidable (NeedsSegment ebuffer request) :=
  inferInstanceAs (Decidable (_ = 0))

/-- The request does not meet one of the defects: if it needs a new segment, a full segment list
can grow, a segment without storage happens to have a free offset of 0, and the size of a segment
with storage is not rounded up beyond 32 bits. -/
structure Meets (ebuffer : EBuffer) (request : Request) : Prop where
  list : NeedsSegment ebuffer request → ebuffer.segments.length = ebuffer.segmentListSize →
    request.growList = true ∧ ebuffer.segmentListSize ≠ 252
  storage : NeedsSegment ebuffer request → request.storage = 0 → request.garbage = 0
  size : NeedsSegment ebuffer request → request.storage ≠ 0 → request.size ≠ 0 →
    ((request.size.toNat - 1) / ebuffer.blockSize + 1) * ebuffer.blockSize < 0x100000000

/-- What `malloc` promises of the storage of a new segment: it does not reach the end of the address
space, and lies apart from the live segments. -/
def Fresh (ebuffer : EBuffer) (request : Request) : Prop :=
  request.storage ≠ 0 → Live (ebuffer.segments.map Segment.extent ++
    [⟨request.storage.toNat, roundUp ebuffer.blockSize request.size.toNat⟩])

theorem roundUp_ge {blockSize size : Nat} (hblock : blockSize ≠ 0) (hsize : size < 0x100000000)
    (h : size ≠ 0 → ((size - 1) / blockSize + 1) * blockSize < 0x100000000) :
    size ≤ roundUp blockSize size := by
  rcases Nat.eq_zero_or_pos size with rfl | hpos
  · exact Nat.zero_le _
  · have hpred : word (size + 0xFFFFFFFF) = size - 1 := by
      rw [word]
      omega
    have hlt := h (by omega)
    have hmod := Nat.div_add_mod (size - 1) blockSize
    have hrest := Nat.mod_lt (size - 1) (Nat.pos_of_ne_zero hblock)
    rw [roundUp, hpred, word_of_lt hlt, Nat.add_mul, Nat.one_mul, Nat.mul_comm]
    omega

/-- Only the free offset of a segment changes when a block is cut off it. -/
theorem map_extent_set {segments : List Segment} {i : Nat} {s : Segment} (offset : Nat)
    (hi : segments[i]? = some s) :
    (segments.set i { s with freeOffset := offset }).map Segment.extent =
      segments.map Segment.extent := by
  obtain ⟨hlt, hget⟩ := List.getElem?_eq_some_iff.1 hi
  rw [List.map_set]
  apply List.ext_getElem?
  intro j
  rw [List.getElem?_set]
  split
  · rename_i hij
    subst hij
    rw [List.getElem?_map, hi]
    simp [hlt, Segment.extent]
  · rfl

theorem sizes_eq_of_extents {segments segments' : List Segment}
    (h : segments'.map Segment.extent = segments.map Segment.extent) :
    sizes segments' = sizes segments := by
  have hlengths := congrArg (List.map Extent.length) h
  rwa [List.map_map, List.map_map] at hlengths

section Cut

variable {ebuffer : EBuffer} {i size : Nat} {s : Segment}

/-- A buffer off whose segment `i` a block of `size` bytes has been cut. -/
def cut (ebuffer : EBuffer) (i size : Nat) (s : Segment) : EBuffer :=
  { ebuffer with
    segments := ebuffer.segments.set i { s with freeOffset := s.freeOffset + size } }

theorem Sound.cut (h : Sound ebuffer) (hi : ebuffer.segments[i]? = some s)
    (hroom : s.freeOffset + size ≤ s.segmentSize) : Sound (cut ebuffer i size s) where
  blockSize := h.blockSize
  listSize := h.listSize
  room := by
    rw [SourceBuffer.cut, List.length_set]
    exact h.room
  free := by
    intro s' hs'
    rcases List.mem_or_eq_of_mem_set hs' with hs' | rfl
    · exact h.free s' hs'
    · exact hroom
  live := by
    rw [SourceBuffer.cut, map_extent_set _ hi]
    exact h.live

theorem Holds.cut {b : Block} (hb : Holds ebuffer.segments b)
    (hi : ebuffer.segments[i]? = some s) : Holds (SourceBuffer.cut ebuffer i size s).segments b := by
  obtain ⟨hlt, -⟩ := List.getElem?_eq_some_iff.1 hi
  obtain ⟨j, s', offset, hj, hnull, hle, haddress, hindex⟩ := hb
  have hsizes := sizes_eq_of_extents (map_extent_set (s.freeOffset + size) hi)
  by_cases hij : i = j
  · subst hij
    rw [hi, Option.some.injEq] at hj
    subst hj
    refine ⟨i, { s with freeOffset := s.freeOffset + size }, offset, ?_, hnull, ?_, haddress, ?_⟩
    · simp [SourceBuffer.cut, hlt]
    · show offset + b.extent.length ≤ s.freeOffset + size
      omega
    · rw [hindex, SourceBuffer.cut, hsizes]
  · refine ⟨j, s', offset, ?_, hnull, hle, haddress, ?_⟩
    · simp [SourceBuffer.cut, hij, hj]
    · rw [hindex, SourceBuffer.cut, hsizes]

/-- The block that is cut off a segment. -/
theorem holds_cut (hi : ebuffer.segments[i]? = some s) (hnull : s.storage ≠ 0) :
    Holds (cut ebuffer i size s).segments
      ⟨firstIndex (sizes ebuffer.segments) i + s.freeOffset,
        ⟨s.storage + s.freeOffset, size⟩⟩ := by
  obtain ⟨hlt, -⟩ := List.getElem?_eq_some_iff.1 hi
  have hsizes := sizes_eq_of_extents (map_extent_set (s.freeOffset + size) hi)
  refine ⟨i, { s with freeOffset := s.freeOffset + size }, s.freeOffset, ?_, hnull, Nat.le_refl _,
    rfl, ?_⟩
  · simp [cut, hlt]
  · rw [cut, hsizes]

/-- It lies apart from the blocks that were held before. -/
theorem apart_cut (h : Sound ebuffer) (hi : ebuffer.segments[i]? = some s) (hnull : s.storage ≠ 0)
    (hroom : s.freeOffset + size ≤ s.segmentSize) {b : Block} (hb : Holds ebuffer.segments b) :
    Apart ⟨s.storage + s.freeOffset, size⟩ b.extent := by
  obtain ⟨j, s', offset, hj, hnull', hle, haddress, -⟩ := hb
  by_cases hij : i = j
  · subst hij
    rw [hi, Option.some.injEq] at hj
    subst hj
    right
    show b.extent.address + b.extent.length ≤ s.storage + s.freeOffset
    omega
  · have hfree' := h.free s' (List.mem_of_getElem? hj)
    have hapart : Apart (held s.extent) (held s'.extent) :=
      h.live.apart_of_ne hij (getElem?_extent hi) (getElem?_extent hj) hnull hnull'
    apply (hapart.of_inside (inside_held _) (inside_held _)).of_inside
    · constructor
      · exact Nat.le_add_right ..
      · show s.storage + s.freeOffset + size ≤ s.storage + s.segmentSize
        omega
    · constructor
      · show s'.storage ≤ b.extent.address
        omega
      · show b.extent.address + b.extent.length ≤ s'.storage + s'.segmentSize
        omega

end Cut

section Append

variable {ebuffer : EBuffer} {s : Segment}

/-- A buffer with a new segment, in a list of segments that may have grown. -/
def append (ebuffer : EBuffer) (listSize : Nat) (s : Segment) : EBuffer :=
  { ebuffer with segmentListSize := listSize, segments := ebuffer.segments ++ [s] }

theorem Holds.append {b : Block} (listSize : Nat) (hb : Holds ebuffer.segments b) :
    Holds (append ebuffer listSize s).segments b := by
  obtain ⟨i, s', offset, hi, hnull, hle, haddress, hindex⟩ := hb
  obtain ⟨hlt, -⟩ := List.getElem?_eq_some_iff.1 hi
  refine ⟨i, s', offset, ?_, hnull, hle, haddress, ?_⟩
  · rw [SourceBuffer.append, List.getElem?_append_left hlt, hi]
  · rw [hindex, SourceBuffer.append, sizes, sizes, List.map_append, firstIndex, firstIndex,
      List.take_append_of_le_length]
    rw [List.length_map]
    omega

/-- The block at the front of a new segment. -/
theorem holds_append {size : Nat} (listSize : Nat) (hnull : s.storage ≠ 0)
    (hfree : s.freeOffset = size) :
    Holds (append ebuffer listSize s).segments
      ⟨(sizes ebuffer.segments).sum, ⟨s.storage, size⟩⟩ := by
  refine ⟨ebuffer.segments.length, s, 0, ?_, hnull, by simp [hfree], rfl, ?_⟩
  · simp [append]
  · rw [append, sizes, sizes, List.map_append, firstIndex, List.take_left' (by simp)]
    rfl

theorem apart_append {size : Nat} {b : Block} (h : Sound ebuffer)
    (hlive : Live ((ebuffer.segments ++ [s]).map Segment.extent)) (hnull : s.storage ≠ 0)
    (hfree : size ≤ s.segmentSize) (hb : Holds ebuffer.segments b) :
    Apart ⟨s.storage, size⟩ b.extent := by
  obtain ⟨i, s', offset, hi, hnull', hle, haddress, -⟩ := hb
  obtain ⟨hlt, -⟩ := List.getElem?_eq_some_iff.1 hi
  have hfree' := h.free s' (List.mem_of_getElem? hi)
  have hlast : (ebuffer.segments ++ [s])[ebuffer.segments.length]? = some s := by simp
  have hold : (ebuffer.segments ++ [s])[i]? = some s' := by
    rw [List.getElem?_append_left hlt, hi]
  have hapart : Apart (held s.extent) (held s'.extent) :=
    hlive.apart_of_ne (by omega) (getElem?_extent hlast) (getElem?_extent hold) hnull hnull'
  apply (hapart.of_inside (inside_held _) (inside_held _)).of_inside
  · constructor
    · exact Nat.le_refl _
    · show s.storage + size ≤ s.storage + s.segmentSize
      omega
  · constructor
    · show s'.storage ≤ b.extent.address
      omega
    · show b.extent.address + b.extent.length ≤ s'.storage + s'.segmentSize
      omega

end Append

/-! ## The defects left out, a request keeps all this -/

theorem findFreeBlock_cases {ebuffer : EBuffer} (h : Sound ebuffer) (size : Nat) :
    (findFreeBlock size ebuffer).1 = 0 ∧ (findFreeBlock size ebuffer).2.2 = ebuffer ∨
      ∃ i s, ebuffer.segments[i]? = some s ∧ s.storage ≠ 0 ∧
        s.freeOffset + size ≤ s.segmentSize ∧
        findFreeBlock size ebuffer = (s.storage + s.freeOffset,
          firstIndex (sizes ebuffer.segments) i + s.freeOffset, cut ebuffer i size s) := by
  cases hfound : findFreeBlockFrom size 0 ebuffer.segments with
  | none =>
      left
      rw [findFreeBlock, hfound]
      exact ⟨rfl, rfl⟩
  | some found =>
      obtain ⟨storage, index, segments⟩ := found
      obtain ⟨i, s, hi, hroom, hstorage, hindex, hset⟩ := findFreeBlockFrom_eq_some h.free
        (by rw [Nat.zero_add]; exact h.sum_lt) hfound
      have hmem := List.mem_of_getElem? hi
      have hextent := List.mem_of_getElem? (getElem?_extent hi)
      rw [findFreeBlock, hfound, hset]
      by_cases hnull : s.storage = 0
      · -- a null segment has room for a block of no bytes
        have hsize : s.segmentSize = 0 := h.live.null _ hextent hnull
        have hsame : ebuffer.segments.set i { s with freeOffset := s.freeOffset + size } =
            ebuffer.segments := by
          have hzero : s.freeOffset + size = s.freeOffset := by omega
          rw [hzero]
          obtain ⟨hlt, hget⟩ := List.getElem?_eq_some_iff.1 hi
          rw [← hget]
          exact List.set_getElem_self hlt
        left
        simp only [hsame, and_true]
        have hoffset : s.freeOffset = 0 := by omega
        rw [hstorage, hnull, hoffset]
        rfl
      · right
        have hfits : s.storage + max s.segmentSize 1 < 0x100000000 :=
          h.live.fits _ hextent hnull
        refine ⟨i, s, hi, hnull, hroom, ?_⟩
        rw [hstorage, hindex, word_of_lt (by omega), Nat.zero_add]
        rfl

/-- A full segment list that grows, and one that need not. -/
theorem exists_listSize {ebuffer : EBuffer} {request : Request} (h : Sound ebuffer)
    (hmeets : Meets ebuffer request) (hneeds : NeedsSegment ebuffer request) :
    ∃ listSize, (if ebuffer.segments.length = ebuffer.segmentListSize then
        (growSegmentList request.growList ebuffer).getD ebuffer else ebuffer) =
          { ebuffer with segmentListSize := listSize } ∧
      listSize % 4 = 0 ∧ listSize ≤ 252 ∧ ebuffer.segments.length < listSize := by
  obtain ⟨hmod, hmax⟩ := h.listSize
  have hroom := h.room
  by_cases hfull : ebuffer.segments.length = ebuffer.segmentListSize
  · obtain ⟨hgrow, hlast⟩ := hmeets.list hneeds hfull
    have hsize : (ebuffer.segmentListSize + segmentListIncrement) % 0x100 =
        ebuffer.segmentListSize + 4 := by
      show (ebuffer.segmentListSize + 4) % 0x100 = _
      omega
    refine ⟨ebuffer.segmentListSize + 4, ?_, by omega, by omega, by omega⟩
    rw [if_pos hfull, growSegmentList, hsize, hgrow]
    simp
  · refine ⟨ebuffer.segmentListSize, ?_, hmod, hmax, by omega⟩
    rw [if_neg hfull]

/-- A request gives no block, or one that it holds apart from those before. -/
structure Served (ebuffer ebuffer' : EBuffer) (storage index size : Nat) : Prop where
  sound : Sound ebuffer'
  keeps : ∀ b, Holds ebuffer.segments b → Holds ebuffer'.segments b
  block : storage ≠ 0 → Holds ebuffer'.segments ⟨index, ⟨storage, size⟩⟩ ∧
    ∀ b, Holds ebuffer.segments b → Apart ⟨storage, size⟩ b.extent

theorem allocSegment_served {ebuffer : EBuffer} {request : Request} (h : Sound ebuffer)
    (hmeets : Meets ebuffer request) (hfresh : Fresh ebuffer request)
    (hneeds : NeedsSegment ebuffer request) :
    ∃ storage index ebuffer', allocSegment ebuffer request = some (storage, index, ebuffer') ∧
      Served ebuffer ebuffer' storage index request.size.toNat := by
  obtain ⟨listSize, hlist, hmod, hmax, hroom⟩ := exists_listSize h hmeets hneeds
  have hsum := h.sum_lt
  rw [allocSegment, hlist]
  simp only [hroom, h.blockSize, ne_eq, not_false_eq_true, and_self, if_true]
  -- what holds of a buffer with one more segment
  have hsound : ∀ s : Segment, s.freeOffset ≤ s.segmentSize →
      Live ((ebuffer.segments ++ [s]).map Segment.extent) →
      Sound (append ebuffer listSize s) := by
    intro s hfree hlive
    refine ⟨h.blockSize, ⟨hmod, hmax⟩, ?_, ?_, hlive⟩
    · rw [append, List.length_append]
      exact hroom
    · intro s' hs'
      rcases List.mem_append.1 hs' with hs' | hs'
      · exact h.free s' hs'
      · rw [List.mem_singleton.1 hs']
        exact hfree
  by_cases hstorage : request.storage = 0
  · have hgarbage := hmeets.storage hneeds hstorage
    rw [if_pos hstorage, hgarbage]
    refine ⟨_, _, _, rfl, ?_, fun b hb => hb.append listSize, fun hne => absurd rfl hne⟩
    refine hsound ⟨0, 0, 0⟩ (Nat.le_refl 0) ?_
    rw [List.map_append]
    refine ⟨?_, ?_, ?_⟩
    · intro e he
      rcases List.mem_append.1 he with he | he
      · exact h.live.null e he
      · rw [List.map_singleton, List.mem_singleton] at he
        subst he
        exact fun _ => rfl
    · intro e he
      rcases List.mem_append.1 he with he | he
      · exact h.live.fits e he
      · rw [List.map_singleton, List.mem_singleton] at he
        subst he
        exact fun hne => absurd rfl hne
    · refine List.pairwise_append.2 ⟨h.live.apart, List.pairwise_singleton _ _, ?_⟩
      intro e _ e' he' _ hne'
      rw [List.map_singleton, List.mem_singleton] at he'
      subst he'
      exact absurd rfl hne'
  · have hnull : request.storage.toNat ≠ 0 := by
      intro hzero
      exact hstorage (UInt32.toNat_inj.1 hzero)
    have hsize : request.size.toNat ≤ roundUp ebuffer.blockSize request.size.toNat := by
      refine roundUp_ge h.blockSize request.size.toNat_lt ?_
      intro hne
      exact hmeets.size hneeds hstorage fun hzero => hne (by rw [hzero]; rfl)
    have hlive := hfresh hstorage
    rw [if_neg hstorage, getFirstIndex_eq hsum]
    have hnew : Live ((ebuffer.segments ++ [(⟨request.storage.toNat,
        roundUp ebuffer.blockSize request.size.toNat, request.size.toNat⟩ : Segment)]).map
          Segment.extent) := by
      rw [List.map_append]
      exact hlive
    refine ⟨_, _, _, rfl, hsound _ hsize hnew, fun b hb => hb.append listSize, ?_⟩
    intro _
    exact ⟨holds_append listSize hnull rfl, fun b hb => apart_append h hnew hnull hsize hb⟩

/-- A request that does not meet one of the defects. -/
theorem getWritableBlock_served {ebuffer : EBuffer} {request : Request} (h : Sound ebuffer)
    (hmeets : Meets ebuffer request) (hfresh : Fresh ebuffer request) :
    ∃ storage index ebuffer', getWritableBlock ebuffer request = some (storage, index, ebuffer') ∧
      Served ebuffer ebuffer' storage index request.size.toNat := by
  rcases findFreeBlock_cases h request.size.toNat with ⟨hneeds, hsame⟩ |
    ⟨i, s, hi, hnull, hroom, hfound⟩
  · have hcall : getWritableBlock ebuffer request = allocSegment ebuffer request := by
      rw [getWritableBlock]
      simp only [hneeds, hsame, ne_eq, not_true_eq_false, if_false]
    rw [hcall]
    exact allocSegment_served h hmeets hfresh hneeds
  · have hstorage : s.storage + s.freeOffset ≠ 0 := by omega
    refine ⟨s.storage + s.freeOffset, firstIndex (sizes ebuffer.segments) i + s.freeOffset,
      cut ebuffer i request.size.toNat s, ?_, h.cut hi hroom, fun b hb => hb.cut hi, ?_⟩
    · rw [getWritableBlock, hfound]
      simp only [ne_eq, hstorage, not_false_eq_true, if_true]
    · intro _
      exact ⟨holds_cut hi hnull, fun b hb => apart_cut h hi hnull hroom hb⟩

/-! ## Runs -/

/-- A condition holds of every request of a run, in the state it finds. -/
def AlongRun (P : EBuffer → Request → Prop) : EBuffer → List Request → Prop
  | _, [] => True
  | ebuffer, request :: requests => P ebuffer request ∧
      ∀ storage index ebuffer', getWritableBlock ebuffer request = some (storage, index, ebuffer') →
        AlongRun P ebuffer' requests

theorem intact_of_holds {ebuffer : EBuffer} {blocks : List Block} (h : Sound ebuffer)
    (hholds : ∀ b ∈ blocks, Holds ebuffer.segments b)
    (hapart : blocks.Pairwise fun b b' => Apart b.extent b'.extent) : Intact ebuffer blocks where
  apart := hapart
  inside := by
    intro b hb
    obtain ⟨i, s, offset, hi, hnull, hle, haddress, -⟩ := hholds b hb
    have hmem := List.mem_of_getElem? hi
    have hfree := h.free s hmem
    refine ⟨s, hmem, hnull, ?_, ?_⟩
    · show s.storage ≤ b.extent.address
      omega
    · show b.extent.address + b.extent.length ≤ s.storage + s.segmentSize
      omega
  address := by
    intro b hb k hk
    obtain ⟨i, s, offset, hi, hnull, hle, haddress, hindex⟩ := hholds b hb
    have hmem := List.mem_of_getElem? hi
    have hfree := h.free s hmem
    have hfits : s.storage + max s.segmentSize 1 < 0x100000000 :=
      h.live.fits _ (List.mem_of_getElem? (getElem?_extent hi)) hnull
    rw [addressAt, hindex, Nat.add_assoc,
      getSegmentAndOffset_eq h hi (show offset + k < s.segmentSize by omega), haddress]
    show word (s.storage + (offset + k)) = _
    rw [word_of_lt (by omega), Nat.add_assoc]
  inverse := by
    intro b hb k hk
    obtain ⟨i, s, offset, hi, hnull, hle, haddress, hindex⟩ := hholds b hb
    have hfree := h.free s (List.mem_of_getElem? hi)
    have hoffset : offset + k < s.segmentSize := by omega
    -- no other segment has the address of this one
    have hother : ∀ j < i, ∀ s', ebuffer.segments[j]? = some s' → s'.storage ≠ s.storage := by
      intro j hj s' hs' heq
      have hapart := h.live.apart_of_ne (Nat.ne_of_lt hj) (getElem?_extent hs')
        (getElem?_extent hi) (show s'.storage ≠ 0 from heq ▸ hnull) hnull
      have haddresses : (held s'.extent).address = (held s.extent).address := heq
      have hlength : 0 < (held s.extent).length := Nat.lt_of_lt_of_le Nat.one_pos (Nat.le_max_right ..)
      have hlength' : 0 < (held s'.extent).length :=
        Nat.lt_of_lt_of_le Nat.one_pos (Nat.le_max_right ..)
      rcases hapart with hapart | hapart <;> omega
    refine ⟨s, offset + k, ?_, ?_⟩
    · rw [hindex, Nat.add_assoc]
      exact getSegmentAndOffset_eq h hi hoffset
    · have hback := indexFrom_eq hi hother (by rw [Nat.zero_add]; exact h.sum_lt) hoffset
      rw [getIndex, hback, hindex, Nat.zero_add, Nat.add_assoc]

theorem runRequests_intact {ebuffer : EBuffer} {blocks : List Block} {requests : List Request}
    (h : Sound ebuffer) (hholds : ∀ b ∈ blocks, Holds ebuffer.segments b)
    (hapart : blocks.Pairwise fun b b' => Apart b.extent b'.extent)
    (hmeets : AlongRun Meets ebuffer requests) (hfresh : AlongRun Fresh ebuffer requests) :
    ∃ ebuffer' blocks', runRequests ebuffer blocks requests = some (ebuffer', blocks') ∧
      Intact ebuffer' blocks' := by
  induction requests generalizing ebuffer blocks with
  | nil => exact ⟨ebuffer, blocks, rfl, intact_of_holds h hholds hapart⟩
  | cons request requests ih =>
      obtain ⟨storage, index, ebuffer', hcall, hserved⟩ :=
        getWritableBlock_served h hmeets.1 hfresh.1
      have hmeets' := hmeets.2 storage index ebuffer' hcall
      have hfresh' := hfresh.2 storage index ebuffer' hcall
      have hkept : ∀ b ∈ blocks, Holds ebuffer'.segments b :=
        fun b hb => hserved.keeps b (hholds b hb)
      rw [runRequests, hcall]
      simp only
      by_cases hnone : storage = 0
      · rw [if_pos hnone]
        exact ih hserved.sound hkept hapart hmeets' hfresh'
      · obtain ⟨hnew, hapartNew⟩ := hserved.block hnone
        rw [if_neg hnone]
        refine ih hserved.sound (List.forall_mem_cons.2 ⟨hnew, hkept⟩) ?_ hmeets' hfresh'
        exact List.pairwise_cons.2 ⟨fun b hb => hapartNew b (hholds b hb), hapart⟩

theorem sound_construct {initialBuffer : Option Extent} {blockSize : Nat} (hblock : blockSize ≠ 0)
    (hinitial : ∀ e, initialBuffer = some e → e.address ≠ 0 ∧ e.length ≠ 0 ∧
      e.address + e.length < 0x100000000) : Sound (construct initialBuffer blockSize) where
  blockSize := hblock
  listSize := by
    show 4 % 4 = 0 ∧ 4 ≤ 252
    omega
  room := by
    cases initialBuffer with
    | none => exact Nat.zero_le _
    | some e =>
        show 1 ≤ 4
        omega
  free := by
    intro s hs
    cases initialBuffer with
    | none => cases hs
    | some e =>
        rw [List.mem_singleton.1 hs]
  live := by
    cases initialBuffer with
    | none =>
        refine ⟨?_, ?_, List.Pairwise.nil⟩
        · intro e he
          cases he
        · intro e he
          cases he
    | some e =>
        obtain ⟨haddress, hlength, hfits⟩ := hinitial e rfl
        refine ⟨?_, ?_, List.pairwise_singleton _ _⟩
        · intro e' he' hnull
          rw [show e' = e from List.mem_singleton.1 he'] at hnull
          exact absurd hnull haddress
        · intro e' he' _
          rw [show e' = e from List.mem_singleton.1 he']
          omega

/-- A run of requests none of which meets one of the defects, whatever allocations fail: the blocks
it has returned lie apart, each inside one allocated segment, and the indexes of their bytes lead
to their addresses and back. -/
theorem requests_intact {initialBuffer : Option Extent} {blockSize : Nat}
    {requests : List Request} (hblock : blockSize ≠ 0)
    (hinitial : ∀ e, initialBuffer = some e → e.address ≠ 0 ∧ e.length ≠ 0 ∧
      e.address + e.length < 0x100000000)
    (hmeets : AlongRun Meets (construct initialBuffer blockSize) requests)
    (hfresh : AlongRun Fresh (construct initialBuffer blockSize) requests) :
    ∃ ebuffer blocks, runRequests (construct initialBuffer blockSize) [] requests =
      some (ebuffer, blocks) ∧ Intact ebuffer blocks :=
  runRequests_intact (sound_construct hblock hinitial) (fun b hb => by cases hb) .nil hmeets hfresh

theorem AlongRun.cons {P : EBuffer → Request → Prop} {ebuffer ebuffer' : EBuffer}
    {request : Request} {requests : List Request} {storage index : Nat} (h : P ebuffer request)
    (hcall : getWritableBlock ebuffer request = some (storage, index, ebuffer'))
    (hrest : AlongRun P ebuffer' requests) : AlongRun P ebuffer (request :: requests) := by
  refine ⟨h, ?_⟩
  intro storage₁ index₁ ebuffer₁ hcall₁
  rw [hcall] at hcall₁
  cases hcall₁
  exact hrest

/-- A request of 256 bytes whose new segment, if it needs one, is at `storage`. -/
def pageRequest (storage : UInt32) (growList : Bool) : Request where
  size := 256
  growList := growList
  storage := storage
  garbage := 0

/-- The first of two requests gets no memory, the second one is served. -/
theorem requests_intact_failed :
    ∃ ebuffer blocks, runRequests (construct (some ⟨0x8000, 16⟩) 256) []
      [pageRequest 0 false, pageRequest 0x20000 false] = some (ebuffer, blocks) ∧
        Intact ebuffer blocks := by
  apply requests_intact (by decide)
  · rintro e heq
    cases heq
    decide
  · refine .cons ⟨by decide, by decide, by decide⟩
      (show _ = some (0, atEnd, ⟨256, 4, [⟨0x8000, 16, 16⟩, ⟨0, 0, 0⟩]⟩) by decide) ?_
    exact .cons ⟨by decide, by decide, by decide⟩
      (show _ = some (0x20000, 16,
        ⟨256, 4, [⟨0x8000, 16, 16⟩, ⟨0, 0, 0⟩, ⟨0x20000, 256, 256⟩]⟩) by decide) trivial
  · refine .cons (fun hne => absurd rfl hne)
      (show _ = some (0, atEnd, ⟨256, 4, [⟨0x8000, 16, 16⟩, ⟨0, 0, 0⟩]⟩) by decide) ?_
    exact .cons (fun _ => ⟨by decide, by decide, by decide⟩)
      (show _ = some (0x20000, 16,
        ⟨256, 4, [⟨0x8000, 16, 16⟩, ⟨0, 0, 0⟩, ⟨0x20000, 256, 256⟩]⟩) by decide) trivial

/-- The fifth segment does not fit the segment list, and the list cannot grow: it is overrun. And
behind a segment without storage, whose free offset happens to be 7, a block at the address 7 is
returned. -/
theorem not_requests_intact :
    runRequests (construct none 256) []
        [pageRequest 0x10000 true, pageRequest 0x20000 true, pageRequest 0x30000 true,
          pageRequest 0x40000 true, pageRequest 0x50000 false] = none ∧
      ∃ ebuffer, runRequests (construct none 256) []
          [⟨1, true, 0, 7⟩, ⟨1, true, 0x10000, 0⟩] = some (ebuffer, [⟨7, ⟨7, 1⟩⟩]) ∧
        ¬ Intact ebuffer [⟨7, ⟨7, 1⟩⟩] := by
  refine ⟨by decide, ⟨256, 4, [⟨0, 0, 8⟩]⟩, by decide, ?_⟩
  intro h
  obtain ⟨s, hs, hnull, -⟩ := h.inside _ (List.mem_singleton_self _)
  rw [List.mem_singleton.1 hs] at hnull
  exact hnull rfl

end SymbianWeb.SourceBuffer
