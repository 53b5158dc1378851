import SymbianWeb.Library.Blocks
import Mathlib.Data.List.InsertIdx
import Mathlib.Data.Nat.Basic
import Mathlib.Order.Nat

/-!
# The vector (`utils/src/cxml_vector.c`)

The elements are kept in segments of one size, which a list of segments points to. An insertion
that finds no room allocates a longer list and the segment that is missing, and then moves the
elements behind by one; a removal moves them back.

As long as every insertion names a place inside the vector or its end and the numbers of the
operation fit their types (`Fits`), a run of the operations is one on a list (`run_list`).
`CXML_Vector_InsertAt` leaves the check of the place to an assertion, where
`CXML_Vector_RemoveAt` and `CXML_Vector_ElementAt` refuse.
-/

set_option autoImplicit false

namespace SymbianWeb.SegmentVector

variable {α : Type}

/-! ## The source -/

/-- A value in a `CXML_Vector_Metric_t`. -/
def metric (n : Nat) : Nat := n % 0x100000000

/-- `CXML_Vector_AtEnd` -/
def atEnd : Nat := 0xFFFFFFFF

/-- `CXML_SEGMENT_LIST_INCREMENT` -/
def segmentListIncrement : Nat := 4

/-- The results of these functions in an `NW_Status_t`. -/
inductive Status where
  | success
  | failure
  | outOfMemory
  deriving DecidableEq

/-- `CXML_Vector_t`. A segment is the list of the elements there is room for, `none` where nothing
was written yet; `numSegments` is the length of `segmentList`. -/
structure CxmlVector (α : Type) where
  elementSize : Nat
  capacity : Nat
  size : Nat
  segmentSize : Nat
  segmentListSize : Nat
  segmentList : List (List (Option α))
  deriving DecidableEq

/-- What the allocations in an operation give: whether a new list of segments can be had, and the
segment that would be the one with this index. -/
structure Memory where
  list : Bool
  segment : Nat → Bool

/-- `CXML_Vector_Construct`, when its own allocations succeed. -/
def construct (elementSize segmentSize : Nat) : CxmlVector α where
  elementSize := elementSize
  capacity := 0
  size := 0
  segmentSize := segmentSize
  segmentListSize := segmentListIncrement
  segmentList := []

/-- The element behind `CXML_Vector_AddressAt`, if that address is in a segment. -/
def read (v : CxmlVector α) (index : Nat) : Option (Option α) :=
  Blocks.get? v.segmentSize v.segmentList index

/-- An element written to `CXML_Vector_AddressAt`; `none` is a write outside the segments. -/
def write (v : CxmlVector α) (index : Nat) (element : Option α) : Option (CxmlVector α) :=
  if (read v index).isSome then
    some { v with segmentList := Blocks.set v.segmentSize v.segmentList index element }
  else none

/-- `CXML_Vector_AllocateSegment`, with memory: the elements there is room for. A sentinel takes
the place of the first element. -/
def allocateSegment (v : CxmlVector α) (sentinel : Bool) : List (Option α) :=
  if sentinel then
    List.replicate (metric ((v.segmentSize + 1) * v.elementSize) / v.elementSize - 1) none
  else
    List.replicate (metric (v.segmentSize * v.elementSize) / v.elementSize) none

/-- The last loop of `CXML_Vector_ResizeCapacity`, with so many segments missing and room for
`entries` in the list; `none` is a write behind the list. -/
def growSegments (memory : Memory) (sentinel : Bool) (entries : Nat) :
    Nat → CxmlVector α → Option (Status × CxmlVector α)
  | 0, v => some (.success, { v with capacity := metric (v.segmentList.length * v.segmentSize) })
  | missing + 1, v =>
      if entries ≤ v.segmentList.length then none
      else if memory.segment v.segmentList.length then
        growSegments memory sentinel entries missing
          { v with segmentList := v.segmentList ++ [allocateSegment v sentinel] }
      else some (.outOfMemory, v)

/-- `CXML_Vector_ResizeCapacity`. The size of a pointer is 4. -/
def resizeCapacity (v : CxmlVector α) (capacityNeeded : Nat) (memory : Memory) (sentinel : Bool) :
    Option (Status × CxmlVector α) :=
  if v.segmentSize = 0 then none
  else
    let newNumSegments := metric (metric (capacityNeeded + 0xFFFFFFFF) / v.segmentSize + 1)
    let newSegmentListSize :=
      metric ((metric (newNumSegments + 0xFFFFFFFF) / segmentListIncrement + 1)
        * segmentListIncrement)
    -- the segments behind are freed
    let kept := v.segmentList.take newNumSegments
    let v := { v with segmentList := kept, capacity := metric (kept.length * v.segmentSize) }
    if memory.list then
      let entries := metric (newSegmentListSize * 4) / 4
      if entries < kept.length then none
      else growSegments memory sentinel entries (newNumSegments - kept.length)
        { v with segmentListSize := newSegmentListSize }
    else some (.outOfMemory, v)

/-- `NW_Mem_memcpy` of one element. -/
def copyElement (v : CxmlVector α) (dst src : Nat) : Option (CxmlVector α) :=
  (read v src).bind (write v dst)

/-- The loop of `CXML_Vector_MoveElements` towards smaller indexes, from `index` on. -/
def moveDown (srcIndex dstIndex : Nat) : Nat → Nat → CxmlVector α → Option (CxmlVector α)
  | _, 0, v => some v
  | index, remaining + 1, v =>
      (copyElement v (metric (dstIndex + index)) (metric (srcIndex + index))).bind
        (moveDown srcIndex dstIndex (index + 1) remaining)

/-- The loop of `CXML_Vector_MoveElements` towards greater indexes, whose index falls to 0. -/
def moveUp (srcIndex dstIndex : Nat) : Nat → CxmlVector α → Option (CxmlVector α)
  | 0, v => some v
  | index + 1, v =>
      (copyElement v (metric (dstIndex + index)) (metric (srcIndex + index))).bind
        (moveUp srcIndex dstIndex index)

/-- How often the loop of `moveDown` runs: its index is an `NW_Int32`, and so is the bound. -/
def stepsDown (numElements : Nat) : Nat := if numElements < 0x80000000 then numElements else 0

/-- How often the loop of `moveUp` runs: it starts at `numElements - 1` in an `NW_Int32`. -/
def stepsUp (numElements : Nat) : Nat :=
  let start := metric (numElements + 0xFFFFFFFF)
  if start < 0x80000000 then start + 1 else 0

/-- `CXML_Vector_MoveElements` -/
def moveElements (v : CxmlVector α) (srcIndex dstIndex : Nat) (memory : Memory) (sentinel : Bool) :
    Option (Status × CxmlVector α) :=
  let needed := metric (v.size + dstIndex + 0x100000000 - srcIndex)
  let resized :=
    if v.capacity < needed then resizeCapacity v needed memory sentinel else some (.success, v)
  resized.bind fun (status, v) =>
    if status ≠ .success then some (status, v)
    else
      let numElements := metric (v.size + 0x100000000 - srcIndex)
      let moved :=
        if dstIndex < srcIndex then moveDown srcIndex dstIndex 0 (stepsDown numElements) v
        else moveUp srcIndex dstIndex (stepsUp numElements) v
      moved.map fun v => (.success, v)

/-- `CXML_Vector_InsertAt`: null, or the element behind the pointer that is returned. The
assertion is compiled into debug builds; `zero` is the element of zero bytes. -/
def insertAt (zero : α) (debug : Bool) (v : CxmlVector α) (element : Option α) (position : Nat)
    (sentinel : Bool) (memory : Memory) : Option (Option (Option α) × CxmlVector α) :=
  let position := if position = atEnd then v.size else position
  if debug && decide (v.size < position) then none
  else
    (moveElements v position (metric (position + 1)) memory sentinel).bind fun (status, v) =>
      if status ≠ .success then some (none, v)
      else
        (write v position (some (element.getD zero))).map fun v =>
          (read v position, { v with size := metric (v.size + 1) })

/-- `CXML_Vector_RemoveAt` -/
def removeAt (v : CxmlVector α) (index : Nat) (memory : Memory) :
    Option (Status × CxmlVector α) :=
  let index := if index = atEnd then metric (v.size + 0xFFFFFFFF) else index
  if v.size ≤ index then some (.failure, v)
  else
    let moved :=
      if 1 < v.size then moveElements v (metric (index + 1)) index memory false
      else some (.success, v)
    moved.map fun (status, v) =>
      if status ≠ .success then (status, v)
      else (.success, { v with size := metric (v.size + 0xFFFFFFFF) })

/-- `CXML_Vector_ElementAt`: null, or the element behind the pointer that is returned. -/
def elementAt (v : CxmlVector α) (index : Nat) : Option (Option (Option α)) :=
  if v.size ≤ index then some none else (read v index).map some

/-- The loop of `CXML_Vector_GetElementIndex`; `none` is a comparison with what was not written. -/
def getElementIndexFrom [DecidableEq α] (v : CxmlVector α) (target : α) : Nat → Nat → Option Nat
  | _, 0 => some atEnd
  | index, remaining + 1 =>
      match read v index with
      | some (some element) =>
          if target = element then some index
          else getElementIndexFrom v target (index + 1) remaining
      | _ => none

/-- `CXML_Vector_GetElementIndex` -/
def getElementIndex [DecidableEq α] (v : CxmlVector α) (target : α) : Option Nat :=
  getElementIndexFrom v target 0 v.size

/-- A call of one of the functions; `size` reads the field. -/
inductive Operation (α : Type) where
  | insertAt (element : Option α) (position : UInt32) (sentinel : Bool) (memory : Memory)
  | removeAt (index : UInt32) (memory : Memory)
  | elementAt (index : UInt32)
  | getElementIndex (target : α)
  | size

/-- What it returns: a null pointer or the element pointed to, a status, or a number. -/
inductive Outcome (α : Type) where
  | element (element : Option (Option α))
  | status (status : Status)
  | number (n : Nat)
  deriving DecidableEq

/-- One operation; `none` is an access outside the memory of the vector or a failed assertion. -/
def step [DecidableEq α] (zero : α) (debug : Bool) (v : CxmlVector α) :
    Operation α → Option (Outcome α × CxmlVector α)
  | .insertAt element position sentinel memory =>
      (insertAt zero debug v element position.toNat sentinel memory).map fun (e, v) =>
        (.element e, v)
  | .removeAt index memory =>
      (removeAt v index.toNat memory).map fun (status, v) => (.status status, v)
  | .elementAt index => (elementAt v index.toNat).map fun e => (.element e, v)
  | .getElementIndex target => (getElementIndex v target).map fun n => (.number n, v)
  | .size => some (.number v.size, v)

/-- The operations one after the other. -/
def run [DecidableEq α] (zero : α) (debug : Bool) :
    CxmlVector α → List (Operation α) → Option (List (Outcome α) × CxmlVector α)
  | v, [] => some ([], v)
  | v, operation :: operations =>
      (step zero debug v operation).bind fun (outcome, v) =>
        (run zero debug v operations).map fun (outcomes, v) => (outcome :: outcomes, v)

/-! ## The list -/

/-- The place an insertion names in a list of this length. -/
def place (length : Nat) (position : UInt32) : Nat :=
  if position.toNat = atEnd then length else position.toNat

/-- The index a removal names in a list of this length. -/
def lastOr (length : Nat) (index : UInt32) : Nat :=
  if index.toNat = atEnd then length - 1 else index.toNat

/-- The operations on a list. An insertion may report that there is no memory if an allocation
fails; it then leaves the list as it is, and so does every operation whose index is not one of the
list. -/
inductive ListStep [DecidableEq α] (zero : α) :
    List α → Operation α → Outcome α → List α → Prop
  | inserted {l : List α} {element : Option α} {position : UInt32} {sentinel : Bool}
      {memory : Memory} (h : place l.length position ≤ l.length) :
      ListStep zero l (.insertAt element position sentinel memory)
        (.element (some (some (element.getD zero))))
        (l.insertIdx (place l.length position) (element.getD zero))
  | outOfMemory {l : List α} {element : Option α} {position : UInt32} {sentinel : Bool}
      {memory : Memory} (h : memory.list = false ∨ ∃ i, memory.segment i = false) :
      ListStep zero l (.insertAt element position sentinel memory) (.element none) l
  | notInserted {l : List α} {element : Option α} {position : UInt32} {sentinel : Bool}
      {memory : Memory} (h : l.length < place l.length position) :
      ListStep zero l (.insertAt element position sentinel memory) (.element none) l
  | removed {l : List α} {index : UInt32} {memory : Memory} (h : lastOr l.length index < l.length) :
      ListStep zero l (.removeAt index memory) (.status .success)
        (l.eraseIdx (lastOr l.length index))
  | notRemoved {l : List α} {index : UInt32} {memory : Memory}
      (h : l.length ≤ lastOr l.length index) :
      ListStep zero l (.removeAt index memory) (.status .failure) l
  | elementAt {l : List α} {index : UInt32} :
      ListStep zero l (.elementAt index) (.element (l[index.toNat]?.map some)) l
  | getElementIndex {l : List α} {target : α} :
      ListStep zero l (.getElementIndex target)
        (.number (if target ∈ l then l.idxOf target else atEnd)) l
  | size {l : List α} : ListStep zero l .size (.number l.length) l

/-- The steps of a list one after the other. -/
inductive ListRun [DecidableEq α] (zero : α) :
    List α → List (Operation α) → List (Outcome α) → List α → Prop
  | nil {l : List α} : ListRun zero l [] [] l
  | cons {l l' l'' : List α} {operation : Operation α} {operations : List (Operation α)}
      {outcome : Outcome α} {outcomes : List (Outcome α)}
      (first : ListStep zero l operation outcome l')
      (rest : ListRun zero l' operations outcomes l'') :
      ListRun zero l (operation :: operations) (outcome :: outcomes) l''

/-- The vector has the contents of the list. -/
def Holds (v : CxmlVector α) (l : List α) : Prop :=
  v.size = l.length ∧ ∀ i, i < l.length → read v i = l[i]?.map some

/-- The run takes no access outside the memory of the vector, and what it returns and leaves in
the vector is what a list does. -/
def RunsAsList [DecidableEq α] (zero : α) (debug : Bool) (v : CxmlVector α)
    (operations : List (Operation α)) : Prop :=
  ∃ outcomes v' l, run zero debug v operations = some (outcomes, v') ∧
    ListRun zero [] operations outcomes l ∧ Holds v' l

/-- The operation does not meet a defect. An insertion names a place in the vector or its end, at
most 2^31 elements are moved by it (fewer by a removal), and the capacity and the size in bytes of
the list of segments that it may need fit in 32 bits. -/
def Fits (v : CxmlVector α) : Operation α → Prop
  | .insertAt _ position _ _ =>
      place v.size position ≤ v.size ∧ v.size ≤ place v.size position + 0x80000000 ∧
        (v.size / v.segmentSize + 1) * v.segmentSize < 0x100000000 ∧
        (v.size / v.segmentSize / segmentListIncrement + 1) * segmentListIncrement * 4
          < 0x100000000
  | .removeAt index _ => v.size ≤ index.toNat + 0x80000000
  | _ => True

instance (v : CxmlVector α) : (operation : Operation α) → Decidable (Fits v operation)
  | .insertAt .. => inferInstanceAs (Decidable (_ ∧ _ ∧ _ ∧ _))
  | .removeAt .. => inferInstanceAs (Decidable (_ ≤ _))
  | .elementAt _ | .getElementIndex _ | .size => inferInstanceAs (Decidable True)

/-- Every operation of the run fits the state it is done in. -/
def AllFit [DecidableEq α] (zero : α) (debug : Bool) :
    CxmlVector α → List (Operation α) → Prop
  | _, [] => True
  | v, operation :: operations =>
      Fits v operation ∧
        ∀ outcome v', step zero debug v operation = some (outcome, v') →
          AllFit zero debug v' operations

instance decidableAllFit [DecidableEq α] (zero : α) (debug : Bool) :
    (v : CxmlVector α) → (operations : List (Operation α)) →
      Decidable (AllFit zero debug v operations)
  | _, [] => inferInstanceAs (Decidable True)
  | v, operation :: operations =>
      match h : step zero debug v operation with
      | none => decidable_of_iff (Fits v operation)
          ⟨fun hfits => ⟨hfits, fun _ _ hstep => nomatch h.symm.trans hstep⟩, And.left⟩
      | some (outcome, v') =>
          have := decidableAllFit zero debug v' operations
          decidable_of_iff (Fits v operation ∧ AllFit zero debug v' operations)
            (and_congr_right fun _ => ⟨fun hfit _ _ hstep => by
              rw [h, Option.some_inj, Prod.mk.injEq] at hstep
              rw [← hstep.2]
              exact hfit, fun hall => hall _ _ h⟩)

/-! ## Reading and writing -/

theorem metric_of_lt {n : Nat} (h : n < 0x100000000) : metric n = n := Nat.mod_eq_of_lt h

/-- What holds between the operations. -/
structure Intact (v : CxmlVector α) : Prop where
  segmentSize : 0 < v.segmentSize
  elementSize : 0 < v.elementSize
  bytes : (v.segmentSize + 1) * v.elementSize < 0x100000000
  full : Blocks.Full v.segmentSize v.segmentList
  capacity : v.capacity = v.segmentList.length * v.segmentSize
  fits : v.capacity < 0x100000000
  size : v.size ≤ v.capacity

/-- Only elements changed. -/
structure Stays (v v' : CxmlVector α) : Prop where
  intact : Intact v'
  size : v'.size = v.size
  capacity : v'.capacity = v.capacity

theorem Stays.refl {v : CxmlVector α} (h : Intact v) : Stays v v := ⟨h, rfl, rfl⟩

theorem Stays.trans {v v' v'' : CxmlVector α} (h : Stays v v') (h' : Stays v' v'') : Stays v v'' :=
  ⟨h'.intact, h'.size.trans h.size, h'.capacity.trans h.capacity⟩

theorem read_isSome {v : CxmlVector α} (h : Intact v) {i : Nat} (hi : i < v.capacity) :
    (read v i).isSome := by
  apply Blocks.get?_isSome h.full
  rwa [← h.capacity]

theorem write_eq {v : CxmlVector α} (h : Intact v) {i : Nat} (hi : i < v.capacity)
    (element : Option α) :
    ∃ v', write v i element = some v' ∧ Stays v v' ∧
      ∀ k, read v' k = if k = i then some element else read v k := by
  refine ⟨_, if_pos (read_isSome h hi), ⟨?_, rfl, rfl⟩, ?_⟩
  · exact {
      segmentSize := h.segmentSize
      elementSize := h.elementSize
      bytes := h.bytes
      full := h.full.set i element
      capacity := by rw [Blocks.length_set]; exact h.capacity
      fits := h.fits
      size := h.size }
  · intro k
    exact Blocks.get?_set h.full (by rwa [← h.capacity]) element k

theorem copyElement_eq {v : CxmlVector α} (h : Intact v) (dst src : Nat) (hdst : dst < v.capacity)
    (hsrc : src < v.capacity) :
    ∃ v', copyElement v (metric dst) (metric src) = some v' ∧ Stays v v' ∧
      ∀ k, read v' k = if k = dst then read v src else read v k := by
  obtain ⟨element, helement⟩ := Option.isSome_iff_exists.mp (read_isSome h hsrc)
  obtain ⟨v', hwrite, hstays, hread⟩ := write_eq h hdst element
  refine ⟨v', ?_, hstays, ?_⟩
  · rw [metric_of_lt (hdst.trans h.fits), metric_of_lt (hsrc.trans h.fits), copyElement, helement]
    exact hwrite
  · intro k
    rw [hread k, helement]

/-! ## Moving the elements -/

/-- An insertion moves the `n` elements from `i` on up by one. -/
theorem moveUp_eq (i n : Nat) {v : CxmlVector α} (h : Intact v) (hn : i + n < v.capacity) :
    ∃ v', moveUp i (i + 1) n v = some v' ∧ Stays v v' ∧
      ∀ k, read v' k = if i < k ∧ k ≤ i + n then read v (k - 1) else read v k := by
  induction n generalizing v with
  | zero =>
      refine ⟨v, rfl, .refl h, ?_⟩
      intro k
      rw [if_neg (by omega)]
  | succ n ih =>
      -- the last element goes first, and the others do not reach its new place
      obtain ⟨w, hcopy, hstays, hread⟩ :=
        copyElement_eq h (i + 1 + n) (i + n) (by omega) (by omega)
      obtain ⟨v', hmove, hstays', hread'⟩ :=
        ih hstays.intact (by rw [hstays.capacity]; omega)
      refine ⟨v', ?_, hstays.trans hstays', ?_⟩
      · rw [moveUp, hcopy]
        exact hmove
      · intro k
        rw [hread' k, hread k, hread (k - 1)]
        by_cases hlast : k = i + 1 + n
        · subst hlast
          rw [if_neg (by omega), if_pos rfl, if_pos (by omega)]
          congr 1
          omega
        · rw [if_neg hlast]
          by_cases hmoved : i < k ∧ k ≤ i + n
          · rw [if_pos hmoved, if_neg (by omega), if_pos (by omega)]
          · rw [if_neg hmoved, if_neg (by omega)]

/-- A removal moves the elements behind `i` down by one. -/
theorem moveDown_eq (i n : Nat) {v : CxmlVector α} (h : Intact v) (index : Nat)
    (hn : i + 1 + index + n ≤ v.capacity) :
    ∃ v', moveDown (i + 1) i index n v = some v' ∧ Stays v v' ∧
      ∀ k, read v' k =
        if i + index ≤ k ∧ k < i + index + n then read v (k + 1) else read v k := by
  induction n generalizing v index with
  | zero =>
      refine ⟨v, rfl, .refl h, ?_⟩
      intro k
      rw [if_neg (by omega)]
  | succ n ih =>
      obtain ⟨w, hcopy, hstays, hread⟩ :=
        copyElement_eq h (i + index) (i + 1 + index) (by omega) (by omega)
      obtain ⟨v', hmove, hstays', hread'⟩ :=
        ih hstays.intact (index + 1) (by rw [hstays.capacity]; omega)
      refine ⟨v', ?_, hstays.trans hstays', ?_⟩
      · rw [moveDown, hcopy]
        exact hmove
      · intro k
        rw [hread' k, hread k, hread (k + 1)]
        by_cases hfirst : k = i + index
        · subst hfirst
          rw [if_neg (by omega), if_pos rfl, if_pos (by omega)]
          congr 1
          omega
        · rw [if_neg hfirst]
          by_cases hmoved : i + (index + 1) ≤ k ∧ k < i + (index + 1) + n
          · rw [if_pos hmoved, if_neg (by omega), if_pos (by omega)]
          · rw [if_neg hmoved, if_neg (by omega)]

/-! ## Growth -/

theorem length_allocateSegment {v : CxmlVector α} (h : Intact v) (sentinel : Bool) :
    (allocateSegment v sentinel).length = v.segmentSize := by
  have hless : v.segmentSize * v.elementSize ≤ (v.segmentSize + 1) * v.elementSize :=
    Nat.mul_le_mul_right _ (Nat.le_succ _)
  cases sentinel with
  | true =>
      simp only [allocateSegment, if_true, List.length_replicate, metric_of_lt h.bytes,
        Nat.mul_div_cancel _ h.elementSize, Nat.add_sub_cancel]
  | false =>
      simp only [allocateSegment, Bool.false_eq_true, if_false, List.length_replicate,
        metric_of_lt (hless.trans_lt h.bytes), Nat.mul_div_cancel _ h.elementSize]

/-- The elements stay where they are while the vector grows. -/
structure Grows (v v' : CxmlVector α) : Prop where
  intact : Intact v'
  size : v'.size = v.size
  read : ∀ i, i < v.size → read v' i = read v i

/-- A vector without room for one more element either gets a segment or stays as it is. -/
theorem resizeCapacity_eq {v : CxmlVector α} (h : Intact v) (hfull : v.size = v.capacity)
    (hcapacity : (v.size / v.segmentSize + 1) * v.segmentSize < 0x100000000)
    (hlist : (v.size / v.segmentSize / segmentListIncrement + 1) * segmentListIncrement * 4
      < 0x100000000) (memory : Memory) (sentinel : Bool) :
    ∃ status v', resizeCapacity v (v.size + 1) memory sentinel = some (status, v') ∧
      Grows v v' ∧ (status = .success ∧ v.size < v'.capacity ∨
        status = .outOfMemory ∧ (memory.list = false ∨ ∃ i, memory.segment i = false)) := by
  have hsegment := h.segmentSize
  have hsegments : v.size / v.segmentSize = v.segmentList.length := by
    rw [hfull, h.capacity, Nat.mul_div_cancel _ hsegment]
  rw [hsegments] at hcapacity hlist
  have hnew : v.segmentList.length + 1 < 0x100000000 := by
    rw [segmentListIncrement] at hlist
    omega
  -- one segment more is asked for, so none is freed
  have hneeded : metric (metric (v.size + 1 + 0xFFFFFFFF) / v.segmentSize + 1)
      = v.segmentList.length + 1 := by
    have hsize : metric (v.size + 1 + 0xFFFFFFFF) = v.size := by
      have := h.fits
      rw [metric]
      omega
    rw [hsize, hsegments, metric_of_lt hnew]
  have hentries : metric (metric ((metric (v.segmentList.length + 1 + 0xFFFFFFFF)
      / segmentListIncrement + 1) * segmentListIncrement) * 4) / 4
      = (v.segmentList.length / segmentListIncrement + 1) * segmentListIncrement := by
    have hback : metric (v.segmentList.length + 1 + 0xFFFFFFFF) = v.segmentList.length := by
      rw [metric]
      omega
    have hlist' : (v.segmentList.length / segmentListIncrement + 1) * segmentListIncrement
        < 0x100000000 := by omega
    rw [hback, metric_of_lt hlist', metric_of_lt hlist, Nat.mul_div_cancel _ (by decide)]
  have hroom : v.segmentList.length
      < (v.segmentList.length / segmentListIncrement + 1) * segmentListIncrement := by
    rw [segmentListIncrement]
    omega
  have htake : v.segmentList.take (v.segmentList.length + 1) = v.segmentList :=
    List.take_of_length_le (Nat.le_succ _)
  rw [resizeCapacity, if_neg hsegment.ne']
  simp only [hneeded, hentries, htake, ← h.capacity, metric_of_lt h.fits,
    if_neg (Nat.not_lt.mpr hroom.le), Nat.add_sub_cancel_left]
  generalize metric ((metric (v.segmentList.length + 1 + 0xFFFFFFFF) / segmentListIncrement + 1)
    * segmentListIncrement) = newSegmentListSize
  have hsame (size : Nat) : Intact { v with segmentListSize := size } :=
    { segmentSize := h.segmentSize
      elementSize := h.elementSize
      bytes := h.bytes
      full := h.full
      capacity := h.capacity
      fits := h.fits
      size := h.size }
  cases hmemory : memory.list with
  | false =>
      simp only [Bool.false_eq_true, if_false]
      exact ⟨.outOfMemory, v, rfl, ⟨h, rfl, fun _ _ => rfl⟩, .inr ⟨rfl, .inl trivial⟩⟩
  | true =>
      simp only [if_true, growSegments, if_neg (Nat.not_le.mpr hroom)]
      cases hallocated : memory.segment v.segmentList.length with
      | false =>
          simp only [Bool.false_eq_true, if_false]
          refine ⟨.outOfMemory, { v with segmentListSize := newSegmentListSize }, rfl,
            ⟨hsame _, rfl, ?_⟩, .inr ⟨rfl, .inr ⟨_, hallocated⟩⟩⟩
          intro i hi
          simp only [read]
      | true =>
          simp only [if_true, List.length_append, List.length_singleton, metric_of_lt hcapacity]
          have hmore : v.capacity < (v.segmentList.length + 1) * v.segmentSize := by
            rw [h.capacity, Nat.add_mul]
            omega
          refine ⟨_, _, rfl, ⟨?_, rfl, ?_⟩, .inl ⟨rfl, by rw [hfull]; exact hmore⟩⟩
          · exact {
              segmentSize := h.segmentSize
              elementSize := h.elementSize
              bytes := h.bytes
              full := h.full.append (length_allocateSegment (hsame _) sentinel)
              capacity := by simp only [List.length_append, List.length_singleton]
              fits := hcapacity
              size := h.size.trans hmore.le }
          · intro i hi
            apply Blocks.get?_append
            rw [← h.capacity, ← hfull]
            exact hi

/-! ## The operations -/

/-- The vector between two operations, and the list it is. -/
structure Represents (v : CxmlVector α) (l : List α) : Prop where
  intact : Intact v
  holds : Holds v l

theorem Grows.represents {v v' : CxmlVector α} {l : List α} (h : Grows v v')
    (hv : Represents v l) : Represents v' l := by
  obtain ⟨hsize, hread⟩ := hv.holds
  refine ⟨h.intact, h.size.trans hsize, ?_⟩
  intro i hi
  rw [h.read i (by rwa [hsize]), hread i hi]

theorem stepsUp_of_le {n : Nat} (h : n ≤ 0x80000000) : stepsUp n = n := by
  rcases Nat.eq_zero_or_pos n with hn | hn
  · have hstart : metric (n + 0xFFFFFFFF) = 0xFFFFFFFF := by
      simp only [metric]
      omega
    simp only [stepsUp, hstart]
    rw [if_neg (by omega), hn]
  · have hstart : metric (n + 0xFFFFFFFF) = n - 1 := by
      simp only [metric]
      omega
    simp only [stepsUp, hstart]
    rw [if_pos (by omega), Nat.sub_add_cancel hn]

/-- Before an insertion there is room behind the elements, or there is no memory. -/
theorem moveElements_grows {v : CxmlVector α} (h : Intact v)
    (hcapacity : (v.size / v.segmentSize + 1) * v.segmentSize < 0x100000000)
    (hlist : (v.size / v.segmentSize / segmentListIncrement + 1) * segmentListIncrement * 4
      < 0x100000000) (memory : Memory) (sentinel : Bool) :
    ∃ status v', (if v.capacity < v.size + 1 then resizeCapacity v (v.size + 1) memory sentinel
        else some (.success, v)) = some (status, v') ∧
      Grows v v' ∧ (status = .success ∧ v.size < v'.capacity ∨
        status = .outOfMemory ∧ (memory.list = false ∨ ∃ i, memory.segment i = false)) := by
  have hsize := h.size
  by_cases hroom : v.capacity < v.size + 1
  · rw [if_pos hroom]
    exact resizeCapacity_eq h (by omega) hcapacity hlist memory sentinel
  · rw [if_neg hroom]
    exact ⟨_, _, rfl, ⟨h, rfl, fun _ _ => rfl⟩, .inl ⟨rfl, by omega⟩⟩

/-- The move of an insertion leaves its place free, unless there is no memory. -/
theorem moveElements_up {v : CxmlVector α} (h : Intact v) {p : Nat} (hp : p ≤ v.size)
    (hmoved : v.size ≤ p + 0x80000000)
    (hcapacity : (v.size / v.segmentSize + 1) * v.segmentSize < 0x100000000)
    (hlist : (v.size / v.segmentSize / segmentListIncrement + 1) * segmentListIncrement * 4
      < 0x100000000) (memory : Memory) (sentinel : Bool) :
    ∃ status v', moveElements v p (metric (p + 1)) memory sentinel = some (status, v') ∧
      ((status = .success ∧ Intact v' ∧ v'.size = v.size ∧ v.size < v'.capacity ∧
          (∀ k, k < p → read v' k = read v k) ∧
          ∀ k, p < k → k ≤ v.size → read v' k = read v (k - 1)) ∨
        (status = .outOfMemory ∧ Grows v v' ∧
          (memory.list = false ∨ ∃ i, memory.segment i = false))) := by
  have hmax : v.size + 1 < 0x100000000 := by
    have hbelow := Nat.lt_div_mul_add (a := v.size) h.segmentSize
    rw [Nat.add_mul, Nat.one_mul] at hcapacity
    omega
  have hdst : metric (p + 1) = p + 1 := metric_of_lt (by omega)
  have hneeded : metric (v.size + (p + 1) + 0x100000000 - p) = v.size + 1 := by
    simp only [metric]
    omega
  obtain ⟨status, w, hresized, hgrows, hstatus⟩ :=
    moveElements_grows h hcapacity hlist memory sentinel
  have hcount : stepsUp (metric (w.size + 0x100000000 - p)) = v.size - p := by
    have hnum : metric (w.size + 0x100000000 - p) = v.size - p := by
      simp only [metric, hgrows.size]
      omega
    rw [hnum]
    exact stepsUp_of_le (by omega)
  simp only [moveElements, hdst, hneeded, hresized, Option.bind_some]
  rcases hstatus with ⟨rfl, hroom⟩ | ⟨rfl, hfailed⟩
  · have hnot : ¬ p + 1 < p := by omega
    simp only [ne_eq, not_true_eq_false, if_false, hnot, hcount]
    obtain ⟨v', hmove, hstays, hread⟩ := moveUp_eq p (v.size - p) hgrows.intact (by omega)
    rw [hmove]
    refine ⟨.success, v', Option.map_some .., .inl ⟨rfl, hstays.intact,
      hstays.size.trans hgrows.size, by rw [hstays.capacity]; exact hroom, ?_, ?_⟩⟩
    · intro k hk
      rw [hread k, if_neg (by omega), hgrows.read k (by omega)]
    · intro k hpk hk
      rw [hread k, if_pos (by omega), hgrows.read (k - 1) (by omega)]
  · refine ⟨.outOfMemory, w, ?_, .inr ⟨rfl, hgrows, hfailed⟩⟩
    simp only [ne_eq, reduceCtorEq, not_false_eq_true, if_true]

/-- An insertion in range inserts, or finds no memory and changes nothing. -/
theorem insertAt_eq (zero : α) (debug : Bool) {v : CxmlVector α} {l : List α}
    (hv : Represents v l) {element : Option α} {position : UInt32} {sentinel : Bool}
    {memory : Memory} (hfits : Fits v (.insertAt element position sentinel memory)) :
    ∃ e v' l', insertAt zero debug v element position.toNat sentinel memory = some (e, v') ∧
      Represents v' l' ∧
      ((e = some (some (element.getD zero)) ∧
          l' = l.insertIdx (place l.length position) (element.getD zero)) ∨
        (e = none ∧ l' = l ∧ (memory.list = false ∨ ∃ i, memory.segment i = false))) := by
  obtain ⟨hplace, hmoved, hcapacity, hlist⟩ := hfits
  obtain ⟨hsize, hread⟩ := hv.holds
  have hp : (if position.toNat = atEnd then v.size else position.toNat)
      = place v.size position := rfl
  rw [← hsize]
  generalize place v.size position = p at hplace hmoved hp ⊢
  obtain ⟨status, w, hmove, hcase⟩ :=
    moveElements_up hv.intact hplace hmoved hcapacity hlist memory sentinel
  have hin : (debug && decide (v.size < p)) = false := by
    rw [decide_eq_false (by omega), Bool.and_false]
  simp only [insertAt, hp, hin, Bool.false_eq_true, if_false, hmove, Option.bind_some]
  rcases hcase with ⟨rfl, hw, hwsize, hroom, hbefore, hbehind⟩ | ⟨rfl, hgrows, hfailed⟩
  · obtain ⟨v', hwrite, hstays, hread'⟩ := write_eq hw (by omega : p < w.capacity)
      (some (element.getD zero))
    have hwritten : read v' p = some (some (element.getD zero)) := by
      rw [hread' p, if_pos rfl]
    have hfits := hw.fits
    have hnext : metric (v'.size + 1) = v.size + 1 := by
      rw [hstays.size, hwsize]
      exact metric_of_lt (by omega)
    simp only [ne_eq, not_true_eq_false, if_false, hwrite, Option.map_some, hwritten, hnext]
    refine ⟨_, _, _, rfl, ⟨?_, ?_, ?_⟩, .inl ⟨rfl, rfl⟩⟩
    · have hi := hstays.intact
      exact ⟨hi.segmentSize, hi.elementSize, hi.bytes, hi.full, hi.capacity, hi.fits,
        by rw [hstays.capacity]; exact hroom⟩
    · rw [List.length_insertIdx_of_le_length (by omega), hsize]
    · -- the elements before the place, the new one, and those that were moved
      intro k hk
      rw [List.length_insertIdx_of_le_length (by omega)] at hk
      rw [List.getElem?_insertIdx]
      show read v' k = _
      rw [hread' k]
      rcases Nat.lt_trichotomy k p with hlt | rfl | hgt
      · rw [if_neg (by omega), hbefore k hlt, if_pos hlt, hread k (by omega)]
      · rw [if_pos rfl, if_neg (Nat.lt_irrefl k), if_pos rfl, if_pos (by omega)]
        rfl
      · rw [if_neg (by omega), hbehind k hgt (by omega), if_neg (by omega), if_neg (by omega),
          hread (k - 1) (by omega)]
  · simp only [ne_eq, reduceCtorEq, not_false_eq_true, if_true]
    exact ⟨none, w, l, rfl, hgrows.represents hv, .inr ⟨rfl, rfl, hfailed⟩⟩

/-- The move of a removal closes the gap; it never needs memory. -/
theorem moveElements_down {v : CxmlVector α} (h : Intact v) {p : Nat} (hp : p < v.size)
    (hmoved : v.size ≤ p + 0x80000000) (memory : Memory) :
    ∃ v', moveElements v (metric (p + 1)) p memory false = some (.success, v') ∧ Stays v v' ∧
      ∀ k, k + 1 < v.size → read v' k = if k < p then read v k else read v (k + 1) := by
  have hsize := h.size
  have hfits := h.fits
  have hsrc : metric (p + 1) = p + 1 := metric_of_lt (by omega)
  have hneeded : metric (v.size + p + 0x100000000 - (p + 1)) = v.size - 1 := by
    simp only [metric]
    omega
  have hnum : metric (v.size + 0x100000000 - (p + 1)) = v.size - (p + 1) := by
    simp only [metric]
    omega
  have hcount : stepsDown (v.size - (p + 1)) = v.size - (p + 1) := by
    rw [stepsDown, if_pos (by omega)]
  obtain ⟨v', hmove, hstays, hread⟩ := moveDown_eq p (v.size - (p + 1)) h 0 (by omega)
  refine ⟨v', ?_, hstays, ?_⟩
  · have hroom : ¬ v.capacity < v.size - 1 := by omega
    have hdown : p < p + 1 := by omega
    simp only [moveElements, hsrc]
    rw [hneeded, if_neg hroom, Option.bind_some]
    simp only [ne_eq, not_true_eq_false, if_false]
    rw [hnum, hcount, if_pos hdown, hmove, Option.map_some]
  · intro k hk
    rw [hread k]
    by_cases hlt : k < p
    · rw [if_pos hlt, if_neg (by omega)]
    · rw [if_neg hlt, if_pos (by omega)]

theorem eraseIdx_holds {v v' : CxmlVector α} {l : List α} (hv : Holds v l) {p : Nat}
    (hp : p < v.size) (hsize : v'.size = v.size - 1)
    (hread : ∀ k, k + 1 < v.size → read v' k = if k < p then read v k else read v (k + 1)) :
    Holds v' (l.eraseIdx p) := by
  obtain ⟨hlength, hold⟩ := hv
  have herased : (l.eraseIdx p).length = l.length - 1 :=
    List.length_eraseIdx_of_lt (by omega)
  refine ⟨by rw [herased, hsize, hlength], ?_⟩
  intro k hk
  rw [herased] at hk
  rw [hread k (by omega), List.getElem?_eraseIdx]
  by_cases hlt : k < p
  · rw [if_pos hlt, if_pos hlt, hold k (by omega)]
  · rw [if_neg hlt, if_neg hlt, hold (k + 1) (by omega)]

/-- A removal removes, or refuses an index out of range. -/
theorem removeAt_eq {v : CxmlVector α} {l : List α} (hv : Represents v l) {index : UInt32}
    {memory : Memory} (hfits : Fits v (.removeAt index memory)) :
    ∃ status v' l', removeAt v index.toNat memory = some (status, v') ∧ Represents v' l' ∧
      ((status = .success ∧ lastOr l.length index < l.length ∧
          l' = l.eraseIdx (lastOr l.length index)) ∨
        (status = .failure ∧ l.length ≤ lastOr l.length index ∧ l' = l)) := by
  have hfits : v.size ≤ index.toNat + 0x80000000 := hfits
  have hlength := hv.holds.1
  have hsize := hv.intact.size
  have hmax := hv.intact.fits
  rw [← hlength]
  -- where the list has no last element, the index is still none of the vector
  have hindex : ∃ p, (if index.toNat = atEnd then metric (v.size + 0xFFFFFFFF) else index.toNat) = p ∧
      v.size ≤ p + 0x80000000 ∧ (p < v.size → p = lastOr v.size index) ∧
      (v.size ≤ p → v.size ≤ lastOr v.size index) := by
    refine ⟨_, rfl, ?_⟩
    rw [lastOr]
    by_cases hend : index.toNat = atEnd
    · rw [if_pos hend, if_pos hend]
      simp only [metric]
      omega
    · rw [if_neg hend, if_neg hend]
      exact ⟨hfits, fun _ => rfl, id⟩
  obtain ⟨p, hp, hmoved, hinside, houtside⟩ := hindex
  simp only [removeAt, hp]
  by_cases hout : v.size ≤ p
  · rw [if_pos hout]
    exact ⟨.failure, v, l, rfl, hv, .inr ⟨rfl, houtside hout, rfl⟩⟩
  · have hin : p < v.size := Nat.not_le.mp hout
    obtain rfl := hinside hin
    have hless : metric (v.size + 0xFFFFFFFF) = v.size - 1 := by
      simp only [metric]
      omega
    -- the only element needs no move, and what is left has no indexes
    have hmove : ∃ v', (if 1 < v.size then
          moveElements v (metric (lastOr v.size index + 1)) (lastOr v.size index) memory false
        else some (Status.success, v)) = some (.success, v') ∧ Stays v v' ∧
        ∀ k, k + 1 < v.size → read v' k =
          if k < lastOr v.size index then read v k else read v (k + 1) := by
      by_cases hone : 1 < v.size
      · rw [if_pos hone]
        exact moveElements_down hv.intact hin hmoved memory
      · rw [if_neg hone]
        exact ⟨v, rfl, .refl hv.intact, fun k hk => absurd hk (by omega)⟩
    obtain ⟨v', hmove, hstays, hread⟩ := hmove
    have hi := hstays.intact
    simp only [hout, if_false, hmove, Option.map_some, ne_eq, not_true_eq_false, hstays.size, hless]
    refine ⟨_, _, _, rfl, ⟨?_, eraseIdx_holds hv.holds hin rfl hread⟩, .inl ⟨rfl, hin, rfl⟩⟩
    exact ⟨hi.segmentSize, hi.elementSize, hi.bytes, hi.full, hi.capacity, hi.fits,
      by rw [hstays.capacity]; exact (Nat.sub_le _ _).trans hsize⟩

theorem elementAt_eq {v : CxmlVector α} {l : List α} (hv : Holds v l) (index : Nat) :
    elementAt v index = some (l[index]?.map some) := by
  obtain ⟨hsize, hread⟩ := hv
  rw [elementAt]
  by_cases hout : v.size ≤ index
  · rw [if_pos hout, List.getElem?_eq_none (by omega)]
    rfl
  · have hin : index < l.length := by omega
    rw [if_neg hout, hread index hin, List.getElem?_eq_getElem hin]
    rfl

/-- The search from an index on, over the elements that are left. -/
theorem getElementIndexFrom_eq [DecidableEq α] {v : CxmlVector α} (target : α) (rest : List α)
    (index : Nat) (hread : ∀ i, i < rest.length → read v (index + i) = rest[i]?.map some) :
    getElementIndexFrom v target index rest.length
      = some (if target ∈ rest then index + rest.idxOf target else atEnd) := by
  induction rest generalizing index with
  | nil => simp only [List.length_nil, getElementIndexFrom, List.not_mem_nil, if_false]
  | cons element rest ih =>
      have hfirst : read v index = some (some element) := hread 0 (Nat.succ_pos _)
      rw [List.length_cons, getElementIndexFrom, hfirst]
      by_cases heq : target = element
      · simp [heq]
      · have hrest := ih (index + 1) fun i hi => by
          rw [Nat.add_assoc, Nat.add_comm 1 i, hread (i + 1) (Nat.succ_lt_succ hi)]
          rfl
        simp only [heq, if_false]
        rw [hrest, List.idxOf_cons_ne _ fun h => heq h.symm]
        simp only [List.mem_cons, heq, false_or, Nat.succ_eq_add_one, Nat.add_assoc,
          Nat.add_comm 1]

theorem getElementIndex_eq [DecidableEq α] {v : CxmlVector α} {l : List α} (hv : Holds v l)
    (target : α) :
    getElementIndex v target = some (if target ∈ l then l.idxOf target else atEnd) := by
  obtain ⟨hsize, hread⟩ := hv
  have hfrom := getElementIndexFrom_eq (v := v) target l 0 fun i hi => by
    rw [Nat.zero_add]
    exact hread i hi
  rw [getElementIndex, hsize, hfrom, Nat.zero_add]

/-! ## Runs -/

/-- A step that meets no defect is the step of the list. -/
theorem step_list [DecidableEq α] (zero : α) (debug : Bool) {v : CxmlVector α} {l : List α}
    (hv : Represents v l) {operation : Operation α} (hfits : Fits v operation) :
    ∃ outcome v' l', step zero debug v operation = some (outcome, v') ∧
      ListStep zero l operation outcome l' ∧ Represents v' l' := by
  cases operation with
  | insertAt element position sentinel memory =>
      have hplace := hfits.1
      rw [hv.holds.1] at hplace
      obtain ⟨e, v', l', hinsert, hv', hcase⟩ := insertAt_eq zero debug hv hfits
      refine ⟨.element e, v', l', by rw [step, hinsert]; rfl, ?_, hv'⟩
      rcases hcase with ⟨rfl, rfl⟩ | ⟨rfl, rfl, hfailed⟩
      · exact .inserted hplace
      · exact .outOfMemory hfailed
  | removeAt index memory =>
      obtain ⟨status, v', l', hremove, hv', hcase⟩ := removeAt_eq hv hfits
      refine ⟨.status status, v', l', by rw [step, hremove]; rfl, ?_, hv'⟩
      rcases hcase with ⟨rfl, hin, rfl⟩ | ⟨rfl, hout, rfl⟩
      · exact .removed hin
      · exact .notRemoved hout
  | elementAt index =>
      exact ⟨_, v, l, by rw [step, elementAt_eq hv.holds]; rfl, .elementAt, hv⟩
  | getElementIndex target =>
      exact ⟨_, v, l, by rw [step, getElementIndex_eq hv.holds]; rfl, .getElementIndex, hv⟩
  | size =>
      refine ⟨_, v, l, rfl, ?_, hv⟩
      rw [hv.holds.1]
      exact .size

theorem run_represents [DecidableEq α] (zero : α) (debug : Bool) (operations : List (Operation α))
    {v : CxmlVector α} {l : List α} (hv : Represents v l)
    (hfit : AllFit zero debug v operations) :
    ∃ outcomes v' l', run zero debug v operations = some (outcomes, v') ∧
      ListRun zero l operations outcomes l' ∧ Represents v' l' := by
  induction operations generalizing v l with
  | nil => exact ⟨[], v, l, rfl, .nil, hv⟩
  | cons operation operations ih =>
      obtain ⟨hfits, hrest⟩ := hfit
      obtain ⟨outcome, w, m, hstep, hlist, hw⟩ := step_list zero debug hv hfits
      obtain ⟨outcomes, v', l', hrun, hlists, hv'⟩ := ih hw (hrest outcome w hstep)
      refine ⟨outcome :: outcomes, v', l', ?_, .cons hlist hlists, hv'⟩
      rw [run, hstep, Option.bind_some]
      simp only [hrun, Option.map_some]

theorem construct_represents {elementSize segmentSize : Nat} (helement : 0 < elementSize)
    (hsegment : 0 < segmentSize) (hbytes : (segmentSize + 1) * elementSize < 0x100000000) :
    Represents (construct elementSize segmentSize : CxmlVector α) [] where
  intact := {
    segmentSize := hsegment
    elementSize := helement
    bytes := hbytes
    full := fun _ hsegment => nomatch hsegment
    capacity := (Nat.zero_mul _).symm
    fits := (by decide : 0 < 0x100000000)
    size := Nat.le_refl 0 }
  holds := ⟨rfl, fun _ hi => absurd hi (Nat.not_lt_zero _)⟩

/-- A run that meets no defect is the run of a list. -/
theorem run_list [DecidableEq α] (zero : α) (debug : Bool) {elementSize segmentSize : Nat}
    (helement : 0 < elementSize) (hsegment : 0 < segmentSize)
    (hbytes : (segmentSize + 1) * elementSize < 0x100000000) (operations : List (Operation α))
    (hfit : AllFit zero debug (construct elementSize segmentSize) operations) :
    RunsAsList zero debug (construct elementSize segmentSize) operations := by
  obtain ⟨outcomes, v', l, hrun, hlist, hv'⟩ :=
    run_represents zero debug operations (construct_represents helement hsegment hbytes) hfit
  exact ⟨outcomes, v', l, hrun, hlist, hv'.holds⟩

/-- Two insertions, the second in front, and the removal of the last element. -/
theorem run_list_inFront :
    RunsAsList (0 : UInt8) true (construct 1 2)
      [.insertAt (some 5) 0 false ⟨true, fun _ => true⟩,
        .insertAt none 0 false ⟨true, fun _ => true⟩, .removeAt 0xFFFFFFFF ⟨true, fun _ => true⟩] :=
  run_list 0 true (by decide) (by decide) (by decide) _ (by decide +kernel)

/-- Behind the end of an empty vector a debug build stops, and another one puts the element where
the vector does not have it and says that it is inserted. -/
theorem not_runsAsList_behindEnd :
    ¬ RunsAsList (0 : UInt8) true (construct 1 16)
        [.insertAt (some 7) 1 false ⟨true, fun _ => true⟩] ∧
      ¬ RunsAsList (0 : UInt8) false (construct 1 16)
        [.insertAt (some 7) 1 false ⟨true, fun _ => true⟩] := by
  constructor
  · rintro ⟨outcomes, v', l, hrun, -⟩
    cases hrun
  · rintro ⟨outcomes, v', l, hrun, hlist, -⟩
    have hinserted : (run (0 : UInt8) false (construct 1 16)
        [.insertAt (some 7) 1 false ⟨true, fun _ => true⟩]).map Prod.fst
        = some [.element (some (some 7))] := by decide +kernel
    rw [hrun, Option.map_some, Option.some_inj] at hinserted
    obtain rfl := hinserted
    cases hlist with
    | cons first rest =>
      cases first with
      | inserted h => exact absurd h (by decide)

end SymbianWeb.SegmentVector
