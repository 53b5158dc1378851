import Mathlib
import SymbianWeb.HttpCache.SegmentedHeapBuffer

/-!
# Runs of a segmented heap buffer

When `AppendL` extends the last segment, it pushes the reallocated segment on the cleanup stack
while the list of segments still points to it. A push that leaves destroys the segment, and the
list keeps the pointer. `appendPushL` models `AppendL` with the outcome of each of these pushes;
with room on the cleanup stack it is `appendL` (`appendPushL_of_room`).

`runOps` is a sequence of `AppendL` and `Compress` calls on a new buffer. Its segments have the
shape that `Length` relies on, a segment is empty only when an empty descriptor was appended to an
empty buffer, an `AppendL` stores the bytes it reports as consumed, and `Compress` keeps the
contents (`runOps_spec`).
-/

set_option autoImplicit false

namespace SymbianWeb.HttpCache.CSegmentedHeapBuffer

variable {n : Nat}

/-! ## Pushes on the cleanup stack -/

/-- The loop of `AppendL`, where the push of an extended segment succeeds when `push k` does. The
Boolean says that the last segment has been destroyed. -/
def appendLoopPush (alloc push : Nat → Bool) :
    Nat → Nat → CSegmentedHeapBuffer n → Des8 → AppendResult n × Bool
  | 0, _, b, rest => (⟨b, rest.length, false⟩, false)
  | fuel + 1, k, b, rest =>
      if rest = [] then (⟨b, 0, false⟩, false)
      else if hfull : n - b.lastLength = 0 then
        let spaceToAlloc := if rest.length < n then rest.length else n
        -- `NewLC` and the list leave with the buffer as it was
        if alloc k && alloc (k + 1) then
          appendLoopPush alloc push fuel (k + 2)
            (b.newSegment (rest.take spaceToAlloc)
              (b.nil_or_full hfull) (length_take_spaceToAlloc n rest))
            (rest.drop spaceToAlloc)
        else (⟨b, rest.length, true⟩, false)
      else if hfits : rest.length ≤ n - b.lastLength then
        if alloc k then
          if push k then (⟨b.extendLast rest (b.fits_last rest hfull hfits), 0, false⟩, false)
          else (⟨b, rest.length, true⟩, true)
        else (⟨b, rest.length, true⟩, false)
      else
        if alloc k then
          if push k then
            appendLoopPush alloc push fuel (k + 1)
              (b.extendLast (rest.take (n - b.lastLength)) (b.fits_last_take rest hfull))
              (rest.drop (n - b.lastLength))
          else (⟨b, rest.length, true⟩, true)
        else (⟨b, rest.length, true⟩, false)

/-- `AppendL` with the outcomes of its pushes. A push of a segment that is not in the list yet
leaves like its allocation and has none of its own. -/
def appendPushL (alloc push : Nat → Bool) (b : CSegmentedHeapBuffer n) (aDes : Des8) :
    AppendResult n × Bool :=
  if hnil : b.iBufferList = [] then
    if hfits : aDes.length ≤ n then
      if alloc 0 && alloc 1 then (⟨b.newSegment aDes (b.nil_or_full_of_nil hnil) hfits, 0, false⟩, false)
      else (⟨b, aDes.length, true⟩, false)
    else
      if alloc 0 && alloc 1 then
        appendLoopPush alloc push aDes.length 2
          (b.newSegment (aDes.take n) (b.nil_or_full_of_nil hnil) (List.length_take_le n aDes))
          (aDes.drop n)
      else (⟨b, aDes.length, true⟩, false)
  else appendLoopPush alloc push aDes.length 0 b aDes

theorem appendLoopPush_of_room (alloc push : Nat → Bool) (hroom : ∀ k, push k = true)
    (fuel k : Nat) (b : CSegmentedHeapBuffer n) (rest : Des8) :
    appendLoopPush alloc push fuel k b rest = (appendLoop alloc fuel k b rest, false) := by
  induction fuel generalizing k b rest with
  | zero => rfl
  | succ fuel ih =>
      unfold appendLoopPush appendLoop
      simp only [hroom, ih, if_true]
      split
      · rfl
      · split
        · split
          · rfl
          · rfl
        · split
          · split
            · rfl
            · rfl
          · split
            · rfl
            · rfl

/-- With room on the cleanup stack nothing is destroyed and `AppendL` does what `appendL` says. -/
theorem appendPushL_of_room (alloc push : Nat → Bool) (hroom : ∀ k, push k = true)
    (b : CSegmentedHeapBuffer n) (aDes : Des8) :
    b.appendPushL alloc push aDes = (b.appendL alloc aDes, false) := by
  unfold appendPushL appendL
  simp only [appendLoopPush_of_room alloc push hroom]
  split
  · split
    · split
      · rfl
      · rfl
    · split
      · rfl
      · rfl
  · rfl

/-- Behind a full segment, or with nothing left to store, no segment is extended. -/
theorem appendLoopPush_of_full (alloc push : Nat → Bool) (fuel k : Nat)
    (b : CSegmentedHeapBuffer n) (rest : Des8) (h : b.lastLength = n ∨ rest = []) :
    (appendLoopPush alloc push fuel k b rest).2 = false := by
  induction fuel generalizing k b rest with
  | zero => rfl
  | succ fuel ih =>
      unfold appendLoopPush
      by_cases hrest : rest = []
      · rw [if_pos hrest]
      · have hlast : b.lastLength = n := h.resolve_right hrest
        rw [if_neg hrest, dif_pos (by omega)]
        dsimp only
        split
        · -- the new segment is full, or it takes all that is left
          apply ih
          rw [lastLength_newSegment, List.length_take]
          by_cases hlt : rest.length < n
          · rw [if_pos hlt]
            exact .inr (List.drop_length)
          · rw [if_neg hlt]
            left
            omega
        · rfl

/-- A segment is destroyed exactly when the first allocation extends a partly filled segment and
the push behind it leaves. -/
theorem appendPushL_destroyed_iff (alloc push : Nat → Bool) (b : CSegmentedHeapBuffer n)
    (aDes : Des8) :
    (b.appendPushL alloc push aDes).2 = true ↔
      b.iBufferList ≠ [] ∧ aDes ≠ [] ∧ b.lastLength < n ∧ alloc 0 = true ∧ push 0 = false := by
  unfold appendPushL
  by_cases hnil : b.iBufferList = []
  · rw [dif_pos hnil]
    refine iff_of_false ?_ (by simp [hnil])
    rw [Bool.not_eq_true]
    split
    · split
      · rfl
      · rfl
    · split
      · apply appendLoopPush_of_full
        left
        rw [lastLength_newSegment, List.length_take]
        omega
      · rfl
  · rw [dif_neg hnil]
    by_cases hempty : aDes = []
    · subst hempty
      refine iff_of_false ?_ (by simp)
      rw [appendLoopPush_of_full alloc push _ _ _ _ (.inr rfl)]
      decide
    · obtain ⟨fuel, hfuel⟩ : ∃ fuel, aDes.length = fuel + 1 :=
        Nat.exists_eq_succ_of_ne_zero (by simpa using hempty)
      have hle := b.lastLength_le
      by_cases hlt : b.lastLength < n
      · have hfree : ¬ n - b.lastLength = 0 := by omega
        rw [hfuel]
        unfold appendLoopPush
        rw [if_neg hempty, dif_neg hfree]
        cases halloc : alloc 0 with
        | false => simp
        | true =>
            cases hpush : push 0 with
            | false => simp [hnil, hempty, hlt]
            | true =>
                have hrec := appendLoopPush_of_full alloc push fuel 1
                  (b.extendLast (aDes.take (n - b.lastLength))
                    (by simp only [List.length_take]; omega))
                  (aDes.drop (n - b.lastLength))
                by_cases hfits : aDes.length ≤ n - b.lastLength
                · simp [hfits]
                · have hfull : b.lastLength + (aDes.take (n - b.lastLength)).length = n := by
                    rw [List.length_take]
                    omega
                  rw [lastLength_extendLast] at hrec
                  simp [hfits, hrec (.inl hfull)]
      · refine iff_of_false ?_ (by simp [hlt])
        rw [appendLoopPush_of_full alloc push _ _ _ _ (.inl (by omega))]
        decide

/-! ## Empty segments -/

/-- No segment is empty but the one that an empty descriptor makes in an empty buffer. -/
def OnlyFirstEmpty (b : CSegmentedHeapBuffer n) : Prop :=
  b.iBufferList = [[]] ∨ b.NoEmptySegment

/-- A segment that is not empty makes the contents that are not empty. -/
theorem OnlyFirstEmpty.nonempty_of_contents {b : CSegmentedHeapBuffer n} (hb : b.OnlyFirstEmpty)
    (hcontents : b.contents ≠ []) : b.NoEmptySegment := by
  rcases hb with hone | hall
  · rw [contents, hone] at hcontents
    exact absurd rfl hcontents
  · exact hall

theorem OnlyFirstEmpty.newSegment {b : CSegmentedHeapBuffer n} (hb : b.OnlyFirstEmpty)
    (hn : 0 < n) {data : Des8} (hdata : data ≠ []) (hlast : b.lastLength = n) (h₁ h₂) :
    (b.newSegment data h₁ h₂).OnlyFirstEmpty := by
  rcases hb with hone | hall
  · -- the one empty segment is not full
    rw [lastLength, hone] at hlast
    simp at hlast
    omega
  · exact .inr (hall.newSegment hdata h₁ h₂)

theorem OnlyFirstEmpty.extendLast {b : CSegmentedHeapBuffer n} (hb : b.OnlyFirstEmpty)
    {data : Des8} (hdata : data ≠ []) (h) : (b.extendLast data h).OnlyFirstEmpty := by
  right
  rcases hb with hone | hall
  · intro seg hseg
    simp only [CSegmentedHeapBuffer.extendLast, hone] at hseg
    simp at hseg
    rw [hseg]
    exact hdata
  · exact hall.extendLast hdata h

theorem appendLoop_onlyFirstEmpty (alloc : Nat → Bool) (hn : 0 < n) (fuel k : Nat)
    (b : CSegmentedHeapBuffer n) (rest : Des8) (hb : b.OnlyFirstEmpty) :
    (appendLoop alloc fuel k b rest).buffer.OnlyFirstEmpty := by
  induction fuel generalizing k b rest with
  | zero => exact hb
  | succ fuel ih =>
      unfold appendLoop
      by_cases hrest : rest = []
      · rw [if_pos hrest]
        exact hb
      have hlen : 0 < rest.length := List.length_pos_iff.2 hrest
      have hle := b.lastLength_le
      have htake : ∀ m, 0 < m → rest.take m ≠ [] := by
        intro m hm
        rw [← List.length_pos_iff, List.length_take]
        omega
      rw [if_neg hrest]
      by_cases hfull : n - b.lastLength = 0
      · rw [dif_pos hfull]
        by_cases halloc : (alloc k && alloc (k + 1)) = true
        · simp only [halloc, if_true]
          refine ih _ _ _ (hb.newSegment hn (htake _ ?_) (by omega) _ _)
          split
          · exact hlen
          · exact hn
        · simpa [halloc] using hb
      · rw [dif_neg hfull]
        by_cases hfits : rest.length ≤ n - b.lastLength
        · rw [dif_pos hfits]
          by_cases halloc : alloc k = true
          · simpa [halloc] using hb.extendLast hrest _
          · simpa [halloc] using hb
        · rw [dif_neg hfits]
          by_cases halloc : alloc k = true
          · simp only [halloc, if_true]
            exact ih _ _ _ (hb.extendLast (htake _ (by omega)) _)
          · simpa [halloc] using hb

theorem appendL_onlyFirstEmpty (alloc : Nat → Bool) (hn : 0 < n) (b : CSegmentedHeapBuffer n)
    (aDes : Des8) (hb : b.OnlyFirstEmpty) : (b.appendL alloc aDes).buffer.OnlyFirstEmpty := by
  unfold appendL
  by_cases hnil : b.iBufferList = []
  · have hnone : b.NoEmptySegment := by simp [NoEmptySegment, hnil]
    rw [dif_pos hnil]
    by_cases hfits : aDes.length ≤ n
    · rw [dif_pos hfits]
      by_cases halloc : (alloc 0 && alloc 1) = true
      · rw [if_pos halloc]
        by_cases hempty : aDes = []
        · left
          simp [newSegment, hnil, hempty]
        · exact .inr (hnone.newSegment hempty (b.nil_or_full_of_nil hnil) hfits)
      · rw [if_neg halloc]
        exact hb
    · rw [dif_neg hfits]
      by_cases halloc : (alloc 0 && alloc 1) = true
      · rw [if_pos halloc]
        have htake : aDes.take n ≠ [] := by
          rw [← List.length_pos_iff, List.length_take]
          omega
        exact appendLoop_onlyFirstEmpty alloc hn _ _ _ _ (.inr (hnone.newSegment htake _ _))
      · rw [if_neg halloc]
        exact hb
  · rw [dif_neg hnil]
    exact appendLoop_onlyFirstEmpty alloc hn _ _ _ _ hb

/-! ## Compressing -/

/-- `Compress` with the granularity `iCompressGranularity`; `none` is the division by zero and the
panic of `ReAlloc` for a size below the length of the data. A cell that `ReAlloc` moves keeps its
data, and one that it cannot move stays. -/
def compress (iCompressGranularity : Int) (b : CSegmentedHeapBuffer n) :
    Option (CSegmentedHeapBuffer n) :=
  if b.count = 0 then some b
  else if iCompressGranularity ≤ (n : Int) - b.lastLength then
    if iCompressGranularity = 0 then none
    else
      let newsize := iCompressGranularity *
        (1 + (b.lastLength : Int).tdiv iCompressGranularity)
      if newsize < b.lastLength then none else some b
  else some b

/-- For a positive granularity the new size has room for the data, so the contents stay. -/
theorem compress_eq (b : CSegmentedHeapBuffer n) {g : Int} (hg : 0 < g) :
    b.compress g = some b := by
  unfold compress
  split
  · rfl
  · split
    · rw [if_neg (by omega)]
      have hdiv : (b.lastLength : Int).tdiv g = (b.lastLength : Int) / g :=
        Int.tdiv_eq_ediv_of_nonneg (Int.natCast_nonneg _)
      have hroom : (b.lastLength : Int) < g * (1 + (b.lastLength : Int) / g) := by
        rw [Int.mul_add, Int.mul_one, Int.add_comm]
        exact Int.lt_mul_ediv_self_add hg
      rw [if_neg (by rw [hdiv]; omega)]
    · rfl

/-! ## Runs -/

/-- A call on the buffer: `AppendL` with the outcomes of its allocations and pushes, or
`Compress`. -/
inductive BufferOp where
  | append (alloc push : Nat → Bool) (aDes : Des8)
  | compress

/-- The pushes of a call find room on the cleanup stack. -/
def BufferOp.HasRoom : BufferOp → Prop
  | .append _ push _ => ∀ k, push k = true
  | .compress => True

/-- One call; `none` is a panic or a destroyed segment in the list. -/
def runOp (g : Int) (b : CSegmentedHeapBuffer n) : BufferOp → Option (CSegmentedHeapBuffer n)
  | .append alloc push aDes =>
      match b.appendPushL alloc push aDes with
      | (r, false) => some r.buffer
      | (_, true) => none
  | .compress => b.compress g

/-- A sequence of calls on a buffer. -/
def runOps (g : Int) (b : CSegmentedHeapBuffer n) : List BufferOp → Option (CSegmentedHeapBuffer n)
  | [] => some b
  | op :: ops => (b.runOp g op).bind fun b' => b'.runOps g ops

theorem runOp_append_of_room (g : Int) (b : CSegmentedHeapBuffer n) (alloc push : Nat → Bool)
    (hroom : ∀ k, push k = true) (aDes : Des8) :
    b.runOp g (.append alloc push aDes) = some (b.appendL alloc aDes).buffer := by
  rw [runOp, appendPushL_of_room alloc push hroom]

/-- A call keeps the invariant on empty segments. -/
theorem runOp_onlyFirstEmpty (hn : 0 < n) {g : Int} (hg : 0 < g) (b : CSegmentedHeapBuffer n)
    (hb : b.OnlyFirstEmpty) (op : BufferOp) (hroom : op.HasRoom) :
    ∃ b', b.runOp g op = some b' ∧ b'.OnlyFirstEmpty := by
  cases op with
  | append alloc push aDes =>
      exact ⟨_, runOp_append_of_room g b alloc push hroom aDes,
        appendL_onlyFirstEmpty alloc hn b aDes hb⟩
  | compress => exact ⟨b, compress_eq b hg, hb⟩

theorem runOps_onlyFirstEmpty (hn : 0 < n) {g : Int} (hg : 0 < g) (ops : List BufferOp)
    (hroom : ∀ op ∈ ops, op.HasRoom) (b : CSegmentedHeapBuffer n) (hb : b.OnlyFirstEmpty) :
    ∃ b', b.runOps g ops = some b' ∧ b'.OnlyFirstEmpty := by
  induction ops generalizing b with
  | nil => exact ⟨b, rfl, hb⟩
  | cons op ops ih =>
      obtain ⟨b₁, hop, hb₁⟩ :=
        runOp_onlyFirstEmpty hn hg b hb op (hroom op List.mem_cons_self)
      obtain ⟨b₂, hops, hb₂⟩ :=
        ih (fun op' hmem => hroom op' (List.mem_cons_of_mem _ hmem)) b₁ hb₁
      refine ⟨b₂, ?_, hb₂⟩
      rw [runOps, hop]
      exact hops

/-- After any calls for which the cleanup stack has room, all segments but the last are full, the
last one fits and is empty only when nothing is stored, `Length` is the number of bytes in the
segments, a further `AppendL` stores all but the last `aRemainder` bytes, and `Compress` keeps
the contents. -/
theorem runOps_spec (hn : 0 < n) {g : Int} (hg : 0 < g) (ops : List BufferOp)
    (hroom : ∀ op ∈ ops, op.HasRoom) :
    ∃ b : CSegmentedHeapBuffer n, reset.runOps g ops = some b ∧
      ((∀ seg ∈ b.iBufferList.dropLast, seg.length = n) ∧
        (∀ seg ∈ b.iBufferList, seg.length ≤ n ∧ (seg = [] → b.contents = [])) ∧
        b.length = (b.iBufferList.map List.length).sum) ∧
      (∀ alloc push aDes, (∀ k, push k = true) →
        ∃ r, b.appendPushL alloc push aDes = (r, false) ∧ r.aRemainder ≤ aDes.length ∧
          r.buffer.contents = b.contents ++ aDes.take (aDes.length - r.aRemainder)) ∧
      (b.compress g).map contents = some b.contents := by
  obtain ⟨b, hrun, hb⟩ :=
    runOps_onlyFirstEmpty hn hg ops hroom reset (.inr noEmptySegment_reset)
  refine ⟨b, hrun, ⟨b.full, ?_, ?_⟩, ?_, ?_⟩
  · intro seg hseg
    refine ⟨b.fits seg hseg, fun hempty => ?_⟩
    by_contra hcontents
    exact hb.nonempty_of_contents hcontents seg hseg hempty
  · rw [length_eq, contents, List.length_flatten]
  · intro alloc push aDes hpush
    exact ⟨b.appendL alloc aDes, appendPushL_of_room alloc push hpush b aDes,
      appendL_contents alloc b aDes⟩
  · rw [compress_eq b hg]
    rfl

/-- With segments of 4 bytes: five bytes stored, and three more that find no memory. -/
theorem runOps_spec_failed :
    ∃ b : CSegmentedHeapBuffer 4,
      reset.runOps 2 [.append (fun _ => true) (fun _ => true) [1, 2, 3, 4, 5], .compress,
        .append (fun _ => false) (fun _ => true) [6, 7, 8]] = some b ∧
      b.length = (b.iBufferList.map List.length).sum := by
  obtain ⟨b, hrun, ⟨-, -, hlength⟩, -⟩ := runOps_spec (n := 4) (g := 2) (by decide) (by decide)
    [.append (fun _ => true) (fun _ => true) [1, 2, 3, 4, 5], .compress,
      .append (fun _ => false) (fun _ => true) [6, 7, 8]]
    (by
      intro op hop
      simp only [List.mem_cons, List.not_mem_nil, or_false] at hop
      rcases hop with rfl | rfl | rfl
      · exact fun _ => rfl
      · trivial
      · exact fun _ => rfl)
  exact ⟨b, hrun, hlength⟩

/-- An empty descriptor appended to an empty buffer makes an empty segment. -/
theorem runOps_empty_segment :
    ((reset : CSegmentedHeapBuffer 4).runOps 2
      [.append (fun _ => true) (fun _ => true) []]).map iBufferList = some [[]] := by
  decide

end SymbianWeb.HttpCache.CSegmentedHeapBuffer
