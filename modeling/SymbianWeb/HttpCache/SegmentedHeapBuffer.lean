import SymbianWeb.HttpCache.Descriptors
import Mathlib.Data.List.Basic

/-!
# The segmented heap buffer

`CSegmentedHeapBuffer` keeps the body of a response in heap segments of at most `iBufferSize`
bytes. That all segments but the last are full is a field of the structure, so `Length` can be
computed from the number of segments (`length_eq`).

`appendL` follows `CSegmentedHeapBuffer::AppendL`, with one Boolean for each heap allocation it
makes. A leave half-way keeps the bytes consumed so far and reports the number of bytes that are
left (`appendL_contents`). `appendL_left_iff` says exactly which allocations decide whether it
leaves: two for each new segment and one to extend a partly filled last one (`appendAllocs`).
-/

set_option autoImplicit false

namespace SymbianWeb.HttpCache

/-- `KBufferSize32k`. -/
def kBufferSize32k : Nat := 32768

/-- Heap segments of at most `iBufferSize` bytes; all but the last one are full. -/
structure CSegmentedHeapBuffer (iBufferSize : Nat) where
  iBufferList : List Des8
  full : ∀ seg ∈ iBufferList.dropLast, seg.length = iBufferSize
  fits : ∀ seg ∈ iBufferList, seg.length ≤ iBufferSize
  deriving DecidableEq

namespace CSegmentedHeapBuffer

variable {n : Nat}

/-- The buffer after `Reset`. -/
def reset : CSegmentedHeapBuffer n := ⟨[], by simp, by simp⟩

/-- Number of segments. -/
def count (b : CSegmentedHeapBuffer n) : Nat := b.iBufferList.length

/-- Bytes in the last segment. -/
def lastLength (b : CSegmentedHeapBuffer n) : Nat := (b.iBufferList.getLastD []).length

/-- `Length`: all segments are of the same size except the last one. -/
def length (b : CSegmentedHeapBuffer n) : Nat :=
  if b.count = 0 then 0 else n * (b.count - 1) + b.lastLength

/-- The segments in order, as a reader that appends `GetSegmentData` of each one sees them. -/
def contents (b : CSegmentedHeapBuffer n) : Des8 := b.iBufferList.flatten

/-- Append a new segment behind a full one. -/
def newSegment (b : CSegmentedHeapBuffer n) (data : Des8)
    (hfull : b.iBufferList = [] ∨ b.lastLength = n) (hdata : data.length ≤ n) :
    CSegmentedHeapBuffer n where
  iBufferList := b.iBufferList ++ [data]
  full := by
    intro seg hseg
    rw [List.dropLast_concat] at hseg
    rcases hfull with hnil | hlast
    · simp [hnil] at hseg
    · by_cases hne : b.iBufferList = []
      · simp [hne] at hseg
      · rw [← List.dropLast_append_getLast hne, List.mem_append, List.mem_singleton] at hseg
        rcases hseg with hseg | rfl
        · exact b.full seg hseg
        · rw [lastLength, List.getLastD_eq_getLast?, List.getLast?_eq_getLast_of_ne_nil hne]
            at hlast
          exact hlast
  fits := by
    intro seg hseg
    rcases List.mem_append.1 hseg with hseg | hseg
    · exact b.fits seg hseg
    · rw [List.mem_singleton.1 hseg]
      exact hdata

/-- Reallocate the last segment and append `data` to it. -/
def extendLast (b : CSegmentedHeapBuffer n) (data : Des8)
    (hroom : b.lastLength + data.length ≤ n) : CSegmentedHeapBuffer n where
  iBufferList := b.iBufferList.dropLast ++ [b.iBufferList.getLastD [] ++ data]
  full := by
    intro seg hseg
    rw [List.dropLast_concat] at hseg
    exact b.full seg hseg
  fits := by
    intro seg hseg
    rcases List.mem_append.1 hseg with hseg | hseg
    · exact b.fits seg (List.dropLast_subset _ hseg)
    · rw [List.mem_singleton.1 hseg, List.length_append]
      exact hroom

theorem lastLength_le (b : CSegmentedHeapBuffer n) : b.lastLength ≤ n := by
  rw [lastLength, List.getLastD_eq_getLast?]
  cases h : b.iBufferList.getLast? with
  | none => simp
  | some seg => exact b.fits seg (List.mem_of_getLast? h)

/-! What `AppendL` appends fits. -/

theorem nil_or_full_of_nil (b : CSegmentedHeapBuffer n) (hnil : b.iBufferList = []) :
    b.iBufferList = [] ∨ b.lastLength = n :=
  .inl hnil

theorem nil_or_full (b : CSegmentedHeapBuffer n) (hfull : n - b.lastLength = 0) :
    b.iBufferList = [] ∨ b.lastLength = n := by
  have hle := b.lastLength_le
  exact .inr (by omega)

theorem length_take_spaceToAlloc (n : Nat) (rest : Des8) :
    (rest.take (if rest.length < n then rest.length else n)).length ≤ n := by
  rw [List.length_take]
  split <;> omega

theorem fits_last (b : CSegmentedHeapBuffer n) (rest : Des8) (hfull : ¬ n - b.lastLength = 0)
    (hfits : rest.length ≤ n - b.lastLength) : b.lastLength + rest.length ≤ n := by
  omega

theorem fits_last_take (b : CSegmentedHeapBuffer n) (rest : Des8)
    (hfull : ¬ n - b.lastLength = 0) :
    b.lastLength + (rest.take (n - b.lastLength)).length ≤ n := by
  rw [List.length_take]
  omega

/-- What `AppendL` did: the buffer, `aRemainder`, and whether it left. -/
structure AppendResult (n : Nat) where
  buffer : CSegmentedHeapBuffer n
  aRemainder : Nat
  left : Bool

/-- The `while( aRemainder )` loop of `AppendL`. `rest` is the part of the source behind
`workingOffset`; allocation number `k` succeeds when `alloc k` does. Each round consumes at least
one byte, so the length of `rest` bounds the number of rounds. -/
def appendLoop (alloc : Nat → Bool) :
    Nat → Nat → CSegmentedHeapBuffer n → Des8 → AppendResult n
  | 0, _, b, rest => ⟨b, rest.length, false⟩
  | fuel + 1, k, b, rest =>
      if rest = [] then ⟨b, 0, false⟩
      else if hfull : n - b.lastLength = 0 then
        -- block cannot extend: a new one, of the right length or of `iBufferSize`
        let spaceToAlloc := if rest.length < n then rest.length else n
        if alloc k && alloc (k + 1) then
          appendLoop alloc fuel (k + 2)
            (b.newSegment (rest.take spaceToAlloc)
              (b.nil_or_full hfull) (length_take_spaceToAlloc n rest))
            (rest.drop spaceToAlloc)
        else ⟨b, rest.length, true⟩
      else if hfits : rest.length ≤ n - b.lastLength then
        -- realloc the last block big enough for all the remaining data
        if alloc k then ⟨b.extendLast rest (b.fits_last rest hfull hfits), 0, false⟩
        else ⟨b, rest.length, true⟩
      else
        -- take as much as the last block can hold
        if alloc k then
          appendLoop alloc fuel (k + 1)
            (b.extendLast (rest.take (n - b.lastLength)) (b.fits_last_take rest hfull))
            (rest.drop (n - b.lastLength))
        else ⟨b, rest.length, true⟩

/-- `AppendL`. The removal and re-append of a reallocated segment needs no new array space, so
extending counts as one allocation and a new segment as two. -/
def appendL (alloc : Nat → Bool) (b : CSegmentedHeapBuffer n) (aDes : Des8) : AppendResult n :=
  if hnil : b.iBufferList = [] then
    if hfits : aDes.length ≤ n then
      if alloc 0 && alloc 1 then ⟨b.newSegment aDes (b.nil_or_full_of_nil hnil) hfits, 0, false⟩
      else ⟨b, aDes.length, true⟩
    else
      if alloc 0 && alloc 1 then
        appendLoop alloc aDes.length 2
          (b.newSegment (aDes.take n) (b.nil_or_full_of_nil hnil) (List.length_take_le n aDes))
          (aDes.drop n)
      else ⟨b, aDes.length, true⟩
  else appendLoop alloc aDes.length 0 b aDes

/-! ## Contents -/

@[simp] theorem contents_newSegment (b : CSegmentedHeapBuffer n) (data : Des8) (h₁ h₂) :
    (b.newSegment data h₁ h₂).contents = b.contents ++ data := by
  simp [contents, newSegment]

@[simp] theorem contents_extendLast (b : CSegmentedHeapBuffer n) (data : Des8) (h) :
    (b.extendLast data h).contents = b.contents ++ data := by
  by_cases hne : b.iBufferList = []
  · simp [contents, extendLast, hne]
  · have hlast : b.iBufferList.getLastD [] = b.iBufferList.getLast hne := by
      rw [List.getLastD_eq_getLast?, List.getLast?_eq_getLast_of_ne_nil hne, Option.getD_some]
    have hcut := congrArg List.flatten (List.dropLast_append_getLast hne)
    rw [List.flatten_append, List.flatten_singleton] at hcut
    rw [contents, extendLast, List.flatten_append, List.flatten_singleton, hlast,
      ← List.append_assoc, hcut]
    rfl

@[simp] theorem lastLength_newSegment (b : CSegmentedHeapBuffer n) (data : Des8) (h₁ h₂) :
    (b.newSegment data h₁ h₂).lastLength = data.length := by
  simp [lastLength, newSegment]

@[simp] theorem lastLength_extendLast (b : CSegmentedHeapBuffer n) (data : Des8) (h) :
    (b.extendLast data h).lastLength = b.lastLength + data.length := by
  simp [lastLength, extendLast]

/-- `Length` is the number of bytes stored. -/
theorem length_eq (b : CSegmentedHeapBuffer n) : b.length = b.contents.length := by
  by_cases hne : b.iBufferList = []
  · simp [length, count, contents, hne]
  · have hsum : ∀ l : List Des8, (∀ seg ∈ l, seg.length = n) →
        (l.map List.length).sum = n * l.length := by
      intro l hl
      induction l with
      | nil => simp
      | cons seg l ih =>
          have hseg := hl seg List.mem_cons_self
          have htail := ih fun seg hmem => hl seg (List.mem_cons_of_mem _ hmem)
          simp only [List.map_cons, List.sum_cons, List.length_cons, Nat.mul_add, Nat.mul_one]
          omega
    have hlast : b.lastLength = (b.iBufferList.getLast hne).length := by
      rw [lastLength, List.getLastD_eq_getLast?, List.getLast?_eq_getLast_of_ne_nil hne,
        Option.getD_some]
    have hcount : b.count ≠ 0 := by simpa [count] using hne
    have hcut : b.contents = b.iBufferList.dropLast.flatten ++ b.iBufferList.getLast hne := by
      rw [contents]
      conv_lhs => rw [← List.dropLast_append_getLast hne]
      rw [List.flatten_append, List.flatten_singleton]
    rw [length, if_neg hcount, hcut, List.length_append, List.length_flatten,
      hsum _ b.full, List.length_dropLast, hlast, count]

/-- The loop keeps the bytes it consumed: a prefix of `rest` is behind the old contents and
`aRemainder` bytes are left. -/
theorem appendLoop_contents (alloc : Nat → Bool) (fuel k : Nat) (b : CSegmentedHeapBuffer n)
    (rest : Des8) :
    (appendLoop alloc fuel k b rest).aRemainder ≤ rest.length ∧
      (appendLoop alloc fuel k b rest).buffer.contents =
        b.contents ++ rest.take (rest.length - (appendLoop alloc fuel k b rest).aRemainder) := by
  induction fuel generalizing k b rest with
  | zero => simp [appendLoop]
  | succ fuel ih =>
      -- a round that consumes `m` bytes and goes on
      have hround : ∀ (m : Nat) (b' : CSegmentedHeapBuffer n) (k' : Nat),
          b'.contents = b.contents ++ rest.take m →
          (appendLoop alloc fuel k' b' (rest.drop m)).aRemainder ≤ rest.length ∧
            (appendLoop alloc fuel k' b' (rest.drop m)).buffer.contents = b.contents ++
              rest.take (rest.length -
                (appendLoop alloc fuel k' b' (rest.drop m)).aRemainder) := by
        intro m b' k' hb'
        obtain ⟨hle, hcont⟩ := ih k' b' (rest.drop m)
        rw [List.length_drop] at hle hcont
        refine ⟨by omega, ?_⟩
        rw [hcont, hb', List.append_assoc]
        congr 1
        by_cases hm : m ≤ rest.length
        · have hsplit : rest.length -
              (appendLoop alloc fuel k' b' (rest.drop m)).aRemainder =
              m + (rest.length - m - (appendLoop alloc fuel k' b' (rest.drop m)).aRemainder) := by
            omega
          rw [hsplit, List.take_add]
        · have hzero : (appendLoop alloc fuel k' b' (rest.drop m)).aRemainder = 0 := by omega
          rw [hzero, List.drop_eq_nil_of_le (by omega), List.take_of_length_le (by omega)]
          simp
      unfold appendLoop
      by_cases hrest : rest = []
      · simp [hrest]
      rw [if_neg hrest]
      by_cases hfull : n - b.lastLength = 0
      · rw [dif_pos hfull]
        by_cases halloc : (alloc k && alloc (k + 1)) = true
        · simp only [halloc, if_true]
          exact hround _ _ _ (contents_newSegment _ _ _ _)
        · simp [halloc]
      · rw [dif_neg hfull]
        by_cases hfits : rest.length ≤ n - b.lastLength
        · rw [dif_pos hfits]
          by_cases halloc : alloc k = true
          · simp [halloc]
          · simp [halloc]
        · rw [dif_neg hfits]
          by_cases halloc : alloc k = true
          · simp only [halloc, if_true]
            exact hround _ _ _ (contents_extendLast _ _ _)
          · simp [halloc]

/-- `AppendL` consumes a prefix of `aDes` and reports the number of bytes it did not store. -/
theorem appendL_contents (alloc : Nat → Bool) (b : CSegmentedHeapBuffer n) (aDes : Des8) :
    (b.appendL alloc aDes).aRemainder ≤ aDes.length ∧
      (b.appendL alloc aDes).buffer.contents =
        b.contents ++ aDes.take (aDes.length - (b.appendL alloc aDes).aRemainder) := by
  unfold appendL
  by_cases hnil : b.iBufferList = []
  · rw [dif_pos hnil]
    by_cases hfits : aDes.length ≤ n
    · rw [dif_pos hfits]
      by_cases halloc : (alloc 0 && alloc 1) = true
      · simp [halloc]
      · simp [halloc]
    · rw [dif_neg hfits]
      by_cases halloc : (alloc 0 && alloc 1) = true
      · simp only [halloc, if_true]
        obtain ⟨hle, hcont⟩ := appendLoop_contents alloc aDes.length 2
          (b.newSegment (aDes.take n) (b.nil_or_full_of_nil hnil) (List.length_take_le n aDes))
          (aDes.drop n)
        rw [List.length_drop] at hle hcont
        refine ⟨by omega, ?_⟩
        rw [hcont, contents_newSegment, List.append_assoc, ← List.take_add]
        congr 2
        omega
      · simp [halloc]
  · rw [dif_neg hnil]
    exact appendLoop_contents alloc aDes.length 0 b aDes

/-! ## The allocations -/

/-- The allocations of an `AppendL` of `len` bytes to `held` bytes: one to extend a partly filled
last segment and two for each new segment. -/
def appendAllocs (iBufferSize held len : Nat) : Nat :=
  let free := (iBufferSize - held % iBufferSize) % iBufferSize
  (if 0 < free ∧ 0 < len then 1 else 0) + 2 * ((len - free + (iBufferSize - 1)) / iBufferSize)

theorem appendAllocs_zero {n : Nat} (hn : 0 < n) (held : Nat) : appendAllocs n held 0 = 0 := by
  have hdiv : (n - 1) / n = 0 := Nat.div_eq_of_lt (by omega)
  simp [appendAllocs, hdiv]

/-- Behind a full segment the first two allocations are those of the next segment. -/
theorem appendAllocs_full {n len : Nat} (hn : 0 < n) (held : Nat) (hheld : held % n = 0)
    (hlen : 0 < len) :
    appendAllocs n held len = 2 + appendAllocs n (held + min len n) (len - min len n) := by
  have hfree : (n - held % n) % n = 0 := by rw [hheld, Nat.sub_zero, Nat.mod_self]
  by_cases hle : len ≤ n
  · rw [Nat.min_eq_left hle, Nat.sub_self, appendAllocs_zero hn]
    have hdiv : (len + (n - 1)) / n = 1 := by
      have : len + (n - 1) = (len - 1) + n := by omega
      rw [this, Nat.add_div_right _ hn, Nat.div_eq_of_lt (by omega)]
    simp [appendAllocs, hfree, hdiv]
  · rw [Nat.min_eq_right (by omega)]
    have hfree' : (n - (held + n) % n) % n = 0 := by
      rw [Nat.add_mod_right, hfree]
    have hdiv : (len + (n - 1)) / n = (len - n + (n - 1)) / n + 1 := by
      have : len + (n - 1) = (len - n + (n - 1)) + n := by omega
      rw [this, Nat.add_div_right _ hn]
    simp only [appendAllocs, hfree, hfree', Nat.sub_zero, hdiv]
    simp
    omega

/-- A partly filled segment costs one allocation, and the rest starts behind a full one. -/
theorem appendAllocs_partial {n len : Nat} (hn : 0 < n) (held : Nat) (hheld : held % n ≠ 0)
    (hlen : 0 < len) :
    appendAllocs n held len =
      1 + appendAllocs n (held + min len (n - held % n)) (len - min len (n - held % n)) := by
  have hlt := Nat.mod_lt held hn
  have hfree : (n - held % n) % n = n - held % n := Nat.mod_eq_of_lt (by omega)
  by_cases hle : len ≤ n - held % n
  · rw [Nat.min_eq_left hle, Nat.sub_self, appendAllocs_zero hn]
    have hzero : len - (n - held % n) = 0 := by omega
    have hdiv : (n - 1) / n = 0 := Nat.div_eq_of_lt (by omega)
    have hpos : 0 < n - held % n := by omega
    simp [appendAllocs, hfree, hzero, hdiv, hpos, hlen]
  · rw [Nat.min_eq_right (by omega)]
    have hmod : (held + (n - held % n)) % n = 0 := by
      rw [Nat.add_mod, hfree, Nat.add_sub_cancel' (Nat.le_of_lt hlt), Nat.mod_self]
    have hfree' : (n - (held + (n - held % n)) % n) % n = 0 := by
      rw [hmod, Nat.sub_zero, Nat.mod_self]
    have hpos : 0 < n - held % n := by omega
    simp [appendAllocs, hfree, hfree', hpos, hlen]

/-- No segment is empty. It holds as long as no empty descriptor is appended. -/
def NoEmptySegment (b : CSegmentedHeapBuffer n) : Prop := ∀ seg ∈ b.iBufferList, seg ≠ []

theorem noEmptySegment_reset : (reset : CSegmentedHeapBuffer n).NoEmptySegment := by
  simp [NoEmptySegment, reset]

theorem NoEmptySegment.newSegment {b : CSegmentedHeapBuffer n} (hb : b.NoEmptySegment)
    {data : Des8} (hdata : data ≠ []) (h₁ h₂) : (b.newSegment data h₁ h₂).NoEmptySegment := by
  intro seg hseg
  rcases List.mem_append.1 hseg with hseg | hseg
  · exact hb seg hseg
  · rw [List.mem_singleton.1 hseg]
    exact hdata

theorem NoEmptySegment.extendLast {b : CSegmentedHeapBuffer n} (hb : b.NoEmptySegment)
    {data : Des8} (hdata : data ≠ []) (h) : (b.extendLast data h).NoEmptySegment := by
  intro seg hseg
  rcases List.mem_append.1 hseg with hseg | hseg
  · exact hb seg (List.dropLast_subset _ hseg)
  · rw [List.mem_singleton.1 hseg]
    simp [hdata]

/-- The fill of the last segment, read off the number of bytes stored. -/
theorem lastLength_mod (b : CSegmentedHeapBuffer n) : b.contents.length % n = b.lastLength % n := by
  rw [← length_eq, length]
  by_cases hcount : b.count = 0
  · have hnil : b.iBufferList = [] := by simpa [count] using hcount
    simp [hcount, lastLength, hnil]
  · rw [if_neg hcount, Nat.mul_add_mod]

theorem lastLength_pos {b : CSegmentedHeapBuffer n} (hb : b.NoEmptySegment)
    (hne : b.iBufferList ≠ []) : 0 < b.lastLength := by
  rw [lastLength, List.getLastD_eq_getLast?, List.getLast?_eq_getLast_of_ne_nil hne,
    Option.getD_some]
  exact List.length_pos_iff.2 (hb _ (List.getLast_mem hne))

/-- Splitting a run of `a + m` allocations behind its first `a` ones. -/
theorem exists_failure_add (alloc : Nat → Bool) (k a m : Nat) :
    (∃ i < a + m, alloc (k + i) = false) ↔
      (∃ i < a, alloc (k + i) = false) ∨ ∃ i < m, alloc (k + a + i) = false := by
  constructor
  · rintro ⟨i, hi, hfail⟩
    by_cases hlt : i < a
    · exact .inl ⟨i, hlt, hfail⟩
    · refine .inr ⟨i - a, by omega, ?_⟩
      rw [show k + a + (i - a) = k + i by omega]
      exact hfail
  · rintro (⟨i, hi, hfail⟩ | ⟨i, hi, hfail⟩)
    · exact ⟨i, by omega, hfail⟩
    · refine ⟨a + i, by omega, ?_⟩
      rw [← Nat.add_assoc]
      exact hfail

theorem no_failure_of_and {alloc : Nat → Bool} {k : Nat} (h : (alloc k && alloc (k + 1)) = true) :
    ¬ ∃ i < 2, alloc (k + i) = false := by
  rw [Bool.and_eq_true] at h
  rintro ⟨i, hi, hfail⟩
  rcases show i = 0 ∨ i = 1 by omega with rfl | rfl
  · simp [h.1] at hfail
  · simp [h.2] at hfail

theorem failure_of_not_and {alloc : Nat → Bool} {k : Nat}
    (h : ¬ (alloc k && alloc (k + 1)) = true) : ∃ i < 2, alloc (k + i) = false := by
  by_cases h0 : alloc k = true
  · exact ⟨1, by omega, by simpa [h0] using h⟩
  · exact ⟨0, by omega, by simpa using h0⟩

/-- The loop leaves exactly when one of its allocations fails, and otherwise stores everything. -/
theorem appendLoop_left_iff (alloc : Nat → Bool) (hn : 0 < n) (fuel k : Nat)
    (b : CSegmentedHeapBuffer n) (rest : Des8) (hfuel : rest.length ≤ fuel)
    (hb : b.NoEmptySegment) (hne : b.iBufferList ≠ []) :
    ((appendLoop alloc fuel k b rest).left = true ↔
        ∃ i < appendAllocs n b.contents.length rest.length, alloc (k + i) = false) ∧
      ((appendLoop alloc fuel k b rest).left = false →
        (appendLoop alloc fuel k b rest).aRemainder = 0) ∧
      (appendLoop alloc fuel k b rest).buffer.NoEmptySegment := by
  induction fuel generalizing k b rest with
  | zero =>
      have hrest : rest = [] := List.eq_nil_of_length_eq_zero (by omega)
      subst hrest
      simp [appendLoop, appendAllocs_zero hn, hb]
  | succ fuel ih =>
      unfold appendLoop
      by_cases hrest : rest = []
      · subst hrest
        simp [appendAllocs_zero hn, hb]
      have hlen : 0 < rest.length := List.length_pos_iff.2 hrest
      have hlast := lastLength_pos hb hne
      have hlastLe := b.lastLength_le
      have hmod := lastLength_mod b
      -- a round that stores `m` bytes and goes on
      have hround : ∀ (m k' : Nat) (b' : CSegmentedHeapBuffer n), 0 < m →
          b'.contents.length = b.contents.length + m → b'.NoEmptySegment → b'.iBufferList ≠ [] →
          ((appendLoop alloc fuel k' b' (rest.drop m)).left = true ↔
              ∃ i < appendAllocs n (b.contents.length + m) (rest.length - m),
                alloc (k' + i) = false) ∧
            ((appendLoop alloc fuel k' b' (rest.drop m)).left = false →
              (appendLoop alloc fuel k' b' (rest.drop m)).aRemainder = 0) ∧
            (appendLoop alloc fuel k' b' (rest.drop m)).buffer.NoEmptySegment := by
        intro m k' b' hm hb' hempty hne'
        have hrec := ih k' b' (rest.drop m) (by rw [List.length_drop]; omega) hempty hne'
        rw [hb', List.length_drop] at hrec
        exact hrec
      rw [if_neg hrest]
      by_cases hfull : n - b.lastLength = 0
      · have hspace : (if rest.length < n then rest.length else n) = min rest.length n := by
          split <;> omega
        have hheld : b.contents.length % n = 0 := by
          rw [hmod, show b.lastLength = n by omega, Nat.mod_self]
        rw [dif_pos hfull, appendAllocs_full hn _ hheld hlen, exists_failure_add]
        simp only [hspace]
        by_cases halloc : (alloc k && alloc (k + 1)) = true
        · rw [if_pos halloc]
          have hfirst : ¬ ∃ i < 2, alloc (k + i) = false := no_failure_of_and halloc
          have htake : rest.take (min rest.length n) ≠ [] := by
            rw [← List.length_pos_iff, List.length_take]
            omega
          have hrec := hround (min rest.length n) (k + 2)
            (b.newSegment (rest.take (min rest.length n)) (.inr (by omega))
              (by simp only [List.length_take]; omega))
            (by omega) (by simp) (hb.newSegment htake _ _) (by simp [newSegment])
          simpa only [hfirst, false_or] using hrec
        · rw [if_neg halloc]
          exact ⟨iff_of_true rfl (.inl (failure_of_not_and halloc)), by simp, hb⟩
      · have hheld : b.contents.length % n = b.lastLength := by
          rw [hmod, Nat.mod_eq_of_lt (by omega)]
        have hsplit := appendAllocs_partial hn b.contents.length (by omega) hlen
        rw [hheld] at hsplit
        rw [dif_neg hfull, hsplit, exists_failure_add]
        have hone : (∃ i < 1, alloc (k + i) = false) ↔ alloc k = false := by
          constructor
          · rintro ⟨i, hi, hfail⟩
            rw [show i = 0 by omega] at hfail
            exact hfail
          · intro hfail
            exact ⟨0, by omega, hfail⟩
        rw [hone]
        by_cases hfits : rest.length ≤ n - b.lastLength
        · rw [dif_pos hfits, Nat.min_eq_left hfits, Nat.sub_self, appendAllocs_zero hn]
          by_cases halloc : alloc k = true
          · simp [halloc, hb.extendLast hrest]
          · simp [halloc, hb]
        · rw [dif_neg hfits, Nat.min_eq_right (by omega)]
          by_cases halloc : alloc k = true
          · rw [if_pos halloc]
            have htake : rest.take (n - b.lastLength) ≠ [] := by
              rw [← List.length_pos_iff, List.length_take]
              omega
            have hrec := hround (n - b.lastLength) (k + 1)
              (b.extendLast (rest.take (n - b.lastLength)) (b.fits_last_take rest hfull))
              (by omega) (by simp; omega) (hb.extendLast htake _) (by simp [extendLast])
            simpa [halloc] using hrec
          · simp [halloc, hb]

/-- `AppendL` leaves exactly when one of its allocations fails; otherwise nothing remains. -/
theorem appendL_left_iff (alloc : Nat → Bool) (hn : 0 < n) (b : CSegmentedHeapBuffer n)
    (aDes : Des8) (haDes : aDes ≠ []) (hb : b.NoEmptySegment) :
    ((b.appendL alloc aDes).left = true ↔
        ∃ i < appendAllocs n b.contents.length aDes.length, alloc i = false) ∧
      ((b.appendL alloc aDes).left = false → (b.appendL alloc aDes).aRemainder = 0) ∧
      (b.appendL alloc aDes).buffer.NoEmptySegment := by
  have hlen : 0 < aDes.length := List.length_pos_iff.2 haDes
  unfold appendL
  by_cases hnil : b.iBufferList = []
  · have hheld : b.contents.length = 0 := by simp [contents, hnil]
    have hsplit := appendAllocs_full hn b.contents.length (by simp [hheld]) hlen
    have hadd := exists_failure_add alloc 0 2
      (appendAllocs n (b.contents.length + min aDes.length n) (aDes.length - min aDes.length n))
    simp only [Nat.zero_add] at hadd
    rw [dif_pos hnil, hsplit, hadd]
    by_cases halloc : (alloc 0 && alloc 1) = true
    · have hfirst : ¬ ∃ i < 2, alloc i = false := by
        simpa using no_failure_of_and (k := 0) (by simpa using halloc)
      by_cases hfits : aDes.length ≤ n
      · rw [dif_pos hfits, if_pos halloc, Nat.min_eq_left hfits, Nat.sub_self,
          appendAllocs_zero hn]
        simp only [hfirst, false_or]
        simp [hb.newSegment haDes]
      · rw [dif_neg hfits, if_pos halloc, Nat.min_eq_right (by omega)]
        have htake : aDes.take n ≠ [] := by
          rw [← List.length_pos_iff, List.length_take]
          omega
        have hloop := appendLoop_left_iff alloc hn aDes.length 2
          (b.newSegment (aDes.take n) (b.nil_or_full_of_nil hnil) (List.length_take_le n aDes))
          (aDes.drop n) (by rw [List.length_drop]; omega) (hb.newSegment htake _ _)
          (by simp [newSegment])
        have hheld' : (b.newSegment (aDes.take n) (b.nil_or_full_of_nil hnil)
            (by simp only [List.length_take]; omega)).contents.length =
            b.contents.length + n := by
          simp; omega
        rw [hheld', List.length_drop] at hloop
        simp only [hfirst, false_or]
        exact hloop
    · have hfirst : ∃ i < 2, alloc i = false := by
        simpa using failure_of_not_and (k := 0) (by simpa using halloc)
      by_cases hfits : aDes.length ≤ n
      · rw [dif_pos hfits, if_neg halloc]
        exact ⟨iff_of_true rfl (.inl hfirst), by simp, hb⟩
      · rw [dif_neg hfits, if_neg halloc]
        exact ⟨iff_of_true rfl (.inl hfirst), by simp, hb⟩
  · rw [dif_neg hnil]
    simpa using appendLoop_left_iff alloc hn aDes.length 0 b aDes (Nat.le_refl _) hb hnil

end CSegmentedHeapBuffer

end SymbianWeb.HttpCache
