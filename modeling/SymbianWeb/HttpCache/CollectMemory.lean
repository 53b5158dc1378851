import SymbianWeb.HttpCache.Reference
import SymbianWeb.HttpCache.Eviction

/-!
# Flushing the postpone queue when memory runs low

`CollectMemory` flushes entries from the front of the postpone queue and steps over the one that is
being written. `collectPlan` says which entries a queue makes it flush, in which order, and whether
it ends by reading the queue past its end; `collectMemory_eq` that the loop does this and nothing
else. What the loop counts down is an unsigned number: it ends at zero, so a body larger than what
remains to be freed lets it go on.

The loop does what it is for exactly when some number of bodies has the size that is required, or
when it reaches the limit or the end of the queue before the required size (`collectsWell_iff`).
-/

set_option autoImplicit false

namespace SymbianWeb.HttpCache

open FaultState

/-! ## What a queue makes the loop do -/

/-- The entries that are flushed, each with the number of rounds left, and whether the loop ends by
reading past the end of the queue. -/
structure CollectPlan where
  flushes : List (Nat × EntryId)
  pastEnd : Bool

/-- The entries that are flushed. -/
def CollectPlan.flushed (p : CollectPlan) : List EntryId := p.flushes.map Prod.snd

/-- The remaining bytes behind one body, as an unsigned 32-bit number. -/
def remaining (aRequired size : Nat) : Nat :=
  (aRequired + 4294967296 - size % 4294967296) % 4294967296

/-- The loop of `CollectMemory` on the entries from position `skip` on. -/
def collectPlan (size : EntryId → Nat) (flushing : Option EntryId) :
    Nat → Nat → Nat → Nat → List EntryId → CollectPlan
  | _, aRequired, count, skip, [] => ⟨[], decide (aRequired ≠ 0 ∧ count ≠ 0 ∧ skip ≠ 0)⟩
  | fuel, aRequired, count, skip, id :: rest =>
      if aRequired ≠ 0 ∧ count ≠ 0 then
        if flushing = some id then
          collectPlan size flushing (fuel - 1) aRequired count (skip + 1) rest
        else
          let p := collectPlan size flushing (fuel - 1) (remaining aRequired (size id)) (count - 1)
            skip rest
          ⟨(fuel - 1, id) :: p.flushes, p.pastEnd⟩
      else ⟨[], false⟩

/-- The body size of an entry. -/
def CacheState.bodySize (s : CacheState) (id : EntryId) : Nat :=
  match s.heap id with
  | some e => e.iBodySize
  | none => 0

/-- Flush one entry of the queue. -/
def flushQueued (io : Nat → Io) (step : Nat × EntryId) : CacheM Unit := do
  modifyPostpone fun h => { h with iObjectQueue := h.iObjectQueue.erase step.2 }
  clearDeleteObserver step.2
  let _ ← flush (io step.1) step.2

/-- Carry a plan out. -/
def CollectPlan.run (io : Nat → Io) (p : CollectPlan) : CacheM Unit := do
  forEach p.flushes (flushQueued io)
  guardM (p.pastEnd = false)

/-! ## A flush changes one entry -/

/-- Only this entry changes, and not the file write handler. -/
def ChangesOnly (id : EntryId) (s s' : CacheState) : Prop :=
  s'.iPostponeHandler = s.iPostponeHandler ∧ ∀ i, i ≠ id → s'.heap i = s.heap i

theorem ChangesOnly.refl (id : EntryId) (s : CacheState) : ChangesOnly id s s :=
  ⟨rfl, fun _ _ => rfl⟩

theorem ChangesOnly.trans (id : EntryId) (s₁ s₂ s₃ : CacheState) (h : ChangesOnly id s₁ s₂)
    (h' : ChangesOnly id s₂ s₃) : ChangesOnly id s₁ s₃ :=
  ⟨h'.1.trans h.1, fun i hi => (h'.2 i hi).trans (h.2 i hi)⟩

theorem changesOnly_of {α : Type} {m : CacheM α} {id : EntryId} (h : Stays (ChangesOnly id) m)
    {s s' : CacheState} {a : α} (hm : m s = some (a, s')) : ChangesOnly id s s' :=
  related_of_chain (ChangesOnly.refl id) (ChangesOnly.trans id) (h s a s' hm)

theorem changesOnly_modify {id : EntryId} {f : CacheState → CacheState}
    (h : ∀ s, (f s).heap = s.heap ∧ (f s).iPostponeHandler = s.iPostponeHandler) :
    Stays (ChangesOnly id) (modify f : CacheM PUnit) :=
  stays_modify fun s => ⟨(h s).2, fun _ _ => by rw [(h s).1]⟩

theorem changesOnly_modifyEntry (id : EntryId) (f : CHttpCacheEntry → CHttpCacheEntry) :
    Stays (ChangesOnly id) (modifyEntry id f) :=
  stays_modifyEntry fun s e _ => ⟨rfl, fun i hi => by rw [heap_setEntry, if_neg hi]⟩

theorem changesOnly_setBodySize (id : EntryId) (n : Nat) :
    Stays (ChangesOnly id) (setBodySize id n) := by
  refine Stays.bind (stays_getEntry id) fun e => ?_
  refine Stays.bind (Stays.whenM fun _ => ?_) fun _ => changesOnly_modifyEntry id _
  refine Stays.bind ?_ fun _ => changesOnly_modifyEntry id _
  refine Stays.bind (stays_getEntry id) fun e => Stays.bind Stays.guardM fun _ => ?_
  exact Stays.bind Stays.get fun s => Stays.whenM fun _ => changesOnly_modify fun _ => ⟨rfl, rfl⟩

theorem changesOnly_closeBodyFile (id : EntryId) : Stays (ChangesOnly id) (closeBodyFile id) := by
  refine Stays.bind (stays_getEntry id) fun e => Stays.whenM fun _ => ?_
  exact Stays.bind (changesOnly_modify fun _ => ⟨rfl, rfl⟩) fun _ => changesOnly_modifyEntry id _

theorem changesOnly_createNewBodyFile (io : Io) (id : EntryId) :
    Stays (ChangesOnly id) (createNewBodyFile io id) := by
  refine Stays.bind (stays_getEntry id) fun e => Stays.bind Stays.get fun s => ?_
  refine Stays.bind (changesOnly_modify fun _ => ⟨rfl, rfl⟩) fun _ => ?_
  refine Stays.ite (fun _ => ?_) fun _ => ?_
  · refine Stays.bind (changesOnly_modify fun _ => ⟨rfl, rfl⟩) fun _ => ?_
    exact Stays.bind (changesOnly_modifyEntry id _) fun _ => Stays.pure _
  · refine Stays.bind (changesOnly_setBodySize id 0) fun _ => ?_
    exact Stays.bind (changesOnly_modifyEntry id _) fun _ => Stays.pure _

theorem changesOnly_flush (io : Io) (id : EntryId) : Stays (ChangesOnly id) (flush io id) := by
  have hheader : Stays (ChangesOnly id) (headerData id) := by
    refine Stays.bind (stays_getEntry id) fun e => ?_
    cases e.iHeaderBuffer with
    | none => exact Stays.fault
    | some header => exact Stays.pure header
  refine Stays.bind (stays_getEntry id) fun e => Stays.bind hheader fun header => ?_
  refine Stays.bind Stays.get fun s => Stays.ite (fun _ => ?_) fun _ => Stays.pure _
  refine Stays.bind (changesOnly_createNewBodyFile io id) fun created => ?_
  refine Stays.ite (fun _ => Stays.ite (fun _ => ?_) fun _ => ?_) fun _ => Stays.pure _
  · refine Stays.bind ?_ fun saveOk => ?_
    · refine Stays.bind (stays_getEntry id) fun e => Stays.bind Stays.get fun s => ?_
      exact Stays.bind (changesOnly_modify fun _ => ⟨rfl, rfl⟩) fun _ => Stays.pure _
    · refine Stays.bind (changesOnly_modifyEntry id _) fun _ => ?_
      refine Stays.bind (changesOnly_modifyEntry id _) fun _ => ?_
      exact Stays.bind (changesOnly_closeBodyFile id) fun _ => Stays.pure _
  · exact Stays.bind (changesOnly_closeBodyFile id) fun _ => Stays.pure _

/-! ## The queue holds each entry once -/

/-- No entry is twice in the queue. -/
def CacheState.Distinct (s : CacheState) : Prop :=
  ∀ h, s.iPostponeHandler = some h → h.iObjectQueue.Nodup

/-- The queue keeps holding each entry once. -/
def KeepsDistinct (s s' : CacheState) : Prop := s.Distinct → s'.Distinct

theorem distinct_modifyPostpone {s : CacheState}
    {f : CHttpCacheFileWriteHandler → CHttpCacheFileWriteHandler}
    (hf : s.Distinct → ∀ h, s.iPostponeHandler = some h → (f h).iObjectQueue.Nodup) :
    StaysFrom KeepsDistinct s (modifyPostpone f) := by
  refine StaysFrom.of_step fun a s' hrun hs => ?_
  obtain rfl := modify_run.1 hrun
  intro h' hh'
  obtain ⟨h, hpost, rfl⟩ := Option.map_eq_some_iff.1 hh'
  exact hf hs h hpost

theorem distinct_modifyEntry (id : EntryId) (f : CHttpCacheEntry → CHttpCacheEntry) :
    Stays KeepsDistinct (modifyEntry id f) :=
  stays_modifyEntry fun _ _ _ hs => hs

theorem distinct_beginWriting (s : CacheState) : StaysFrom KeepsDistinct s beginWriting := by
  refine distinct_modifyPostpone fun hs h hpost => ?_
  by_cases hactive : h.isActive = true
  · rw [if_pos hactive]
    exact hs h hpost
  · rw [if_neg hactive]
    exact hs h hpost

/-- The queue that `AddEntry` makes: an entry is taken out before it is added again. -/
theorem nodup_sortBySize {s : CacheState} {queue : List EntryId} (id : EntryId) (added : Bool)
    (h : queue.Nodup) :
    (sortBySize s (queue.erase id ++ if added then [id] else [])).Nodup := by
  rw [sortBySize, (List.perm_insertionSort _ _).nodup_iff]
  cases added with
  | true =>
      refine List.nodup_append.2 ⟨h.erase id, List.nodup_singleton id, fun i hi j hj => ?_⟩
      rw [List.mem_singleton.1 hj]
      exact (h.mem_erase_iff.1 hi).1
  | false => simpa using h.erase id

theorem distinct_addEntry (freeMem err : Int) (id : EntryId) (s : CacheState) :
    StaysFrom KeepsDistinct s (addEntry freeMem err id) := by
  refine staysFrom_getEntry fun e _ => staysFrom_get ?_
  cases hpost : s.iPostponeHandler with
  | none => exact StaysFrom.pure _
  | some h =>
      refine StaysFrom.ite (fun _ => StaysFrom.pure _) fun _ => ?_
      refine StaysFrom.ite (fun _ => ?_) fun _ => ?_
      · refine StaysFrom.bind (distinct_modifyPostpone fun hs h hh => hs h hh) fun _ s₁ _ => ?_
        refine StaysFrom.bind (StaysFrom.whenM fun _ => ?_) fun _ _ _ => StaysFrom.pure _
        refine StaysFrom.bind (distinct_modifyPostpone fun hs h hh => hs h hh) fun _ s₂ _ => ?_
        exact distinct_beginWriting s₂
      · refine StaysFrom.bind StaysFrom.guardM fun _ s₁ hguard => ?_
        obtain rfl : s₁ = s := (Prod.mk.inj (guardM_eq_some.1 hguard).2).2
        refine StaysFrom.bind (distinct_modifyPostpone fun hs x hx => ?_) fun _ s₂ _ => ?_
        · have hnodup := nodup_sortBySize (s := s₁) id (decide (err = kErrNone)) (hs h hpost)
          simpa using hnodup
        · refine StaysFrom.ite (fun _ => ?_) fun _ => ?_
          · exact StaysFrom.bind (distinct_modifyEntry id _ s₂) fun _ _ _ => StaysFrom.pure _
          · exact StaysFrom.ite (fun _ => StaysFrom.pure _) fun _ => StaysFrom.pure _

theorem distinct_removeEntry (id : EntryId) (s : CacheState) :
    StaysFrom KeepsDistinct s (removeEntry id) := by
  refine staysFrom_get ?_
  cases hpost : s.iPostponeHandler with
  | none => exact StaysFrom.pure _
  | some h =>
      refine StaysFrom.ite (fun _ => ?_) fun _ => StaysFrom.ite (fun _ => ?_) fun _ => ?_
      · exact distinct_modifyPostpone fun hs h hh => hs h hh
      · refine StaysFrom.bind (distinct_modifyPostpone fun hs x hx => ?_) fun _ s₁ _ =>
          distinct_modifyEntry id _ s₁
        exact (hs x hx).erase id
      · exact StaysFrom.pure _

theorem distinct_postponeRemoveAll (s : CacheState) :
    StaysFrom KeepsDistinct s postponeRemoveAll := by
  refine staysFrom_get ?_
  cases hpost : s.iPostponeHandler with
  | none => exact StaysFrom.pure _
  | some h =>
      refine StaysFrom.bind (Stays.forEach (fun i _ => distinct_modifyEntry i _) s) fun _ s₁ _ => ?_
      refine StaysFrom.bind (distinct_modifyPostpone fun _ _ _ => List.nodup_nil) fun _ s₂ _ => ?_
      refine StaysFrom.bind StaysFrom.guardM fun _ s₃ _ => ?_
      exact distinct_modifyPostpone fun hs h hh => hs h hh

/-! ## The loop carries out its plan -/

theorem run_nil (io : Nat → Io) (pastEnd : Bool) (s : CacheState) :
    CollectPlan.run io ⟨[], pastEnd⟩ s = if pastEnd = false then some ((), s) else none := by
  cases pastEnd with
  | true => rfl
  | false => rfl

theorem run_cons (io : Nat → Io) (step : Nat × EntryId) (p : CollectPlan) :
    CollectPlan.run io ⟨step :: p.flushes, p.pastEnd⟩ =
      flushQueued io step >>= fun _ => p.run io := by
  unfold CollectPlan.run
  rw [forEach, bind_assoc]

/-- One round that flushes an entry. -/
theorem flushQueued_run {io : Nat → Io} {k : Nat} {id : EntryId} {s s' : CacheState} {a : Unit}
    {h : CHttpCacheFileWriteHandler} (hpost : s.iPostponeHandler = some h)
    (hrun : flushQueued io (k, id) s = some (a, s')) :
    s'.iPostponeHandler = some { h with iObjectQueue := h.iObjectQueue.erase id } ∧
      ∀ i, i ≠ id → s'.bodySize i = s.bodySize i := by
  rw [flushQueued, modifyPostpone, modify_bind] at hrun
  obtain ⟨_, s₁, hclear, hrun⟩ := bind_eq_some.1 hrun
  obtain ⟨_, s₂, hflush, hrun⟩ := bind_eq_some.1 hrun
  rw [pure_eq_some, Prod.mk.injEq] at hrun
  obtain ⟨-, rfl⟩ := hrun
  have hchange := (changesOnly_of (changesOnly_modifyEntry id _) hclear).trans _ _ _ _
    (changesOnly_of (changesOnly_flush _ id) hflush)
  refine ⟨?_, fun i hi => ?_⟩
  · rw [hchange.1]
    show Option.map _ s.iPostponeHandler = _
    rw [hpost]
    rfl
  · unfold CacheState.bodySize
    rw [hchange.2 i hi]

/-- The state with one entry less in the queue. -/
theorem modifyPostpone_erase {s : CacheState} {h : CHttpCacheFileWriteHandler}
    (hpost : s.iPostponeHandler = some h) {skip : Nat} {id : EntryId} {α : Type}
    (herase : h.iObjectQueue.eraseIdx skip = h.iObjectQueue.erase id) (k : Unit → CacheM α) :
    (modifyPostpone (fun h => { h with iObjectQueue := h.iObjectQueue.eraseIdx skip }) >>= k) s =
      (modifyPostpone (fun h => { h with iObjectQueue := h.iObjectQueue.erase id }) >>= k) s := by
  rw [modifyPostpone, modify_bind, modifyPostpone, modify_bind, hpost, Option.map_some, herase]
  rfl

/-- A round of the loop that flushes an entry, with what follows it. -/
theorem flushRound_eq {io : Nat → Io} {k : Nat} {id : EntryId} {skip : Nat} {s : CacheState}
    {h : CHttpCacheFileWriteHandler} (hpost : s.iPostponeHandler = some h)
    (herase : h.iObjectQueue.eraseIdx skip = h.iObjectQueue.erase id) (next : Nat → CacheM Unit) :
    (do
      modifyPostpone fun h => { h with iObjectQueue := h.iObjectQueue.eraseIdx skip }
      clearDeleteObserver id
      let e ← getEntry id
      let _ ← flush (io k) id
      next e.iBodySize : CacheM Unit) s =
      (flushQueued io (k, id) >>= fun _ => next (s.bodySize id)) s := by
  rw [modifyPostpone_erase hpost herase, flushQueued, bind_assoc, modifyPostpone, modify_bind,
    modify_bind, bind_assoc]
  refine bind_congr_of_run fun _ s₁ hclear => ?_
  obtain ⟨e, he, rfl⟩ := modifyEntry_run.1 hclear
  have hsize : s.bodySize id = e.iBodySize := by
    have he : s.heap id = some e := he
    rw [CacheState.bodySize, he]
  rw [bind_of (getEntry_of (heap_setEntry_self _ _ _)), bind_assoc, hsize]
  rfl

/-- The rounds of the loop: `pre` are the entries that have been stepped over. -/
theorem collectLoop_eq {io : Nat → Io} {size : EntryId → Nat} {flushing : Option EntryId}
    {rest : List EntryId} {fuel aRequired count : Nat} {pre : List EntryId} {s : CacheState}
    {h : CHttpCacheFileWriteHandler} (hfuel : rest.length < fuel)
    (hpost : s.iPostponeHandler = some h) (hflushing : h.iObjectFlushing = flushing)
    (hqueue : h.iObjectQueue = pre ++ rest) (hnodup : (pre ++ rest).Nodup)
    (hsize : ∀ i ∈ rest, s.bodySize i = size i) :
    collectLoop io fuel aRequired count pre.length s =
      (collectPlan size flushing fuel aRequired count pre.length rest).run io s := by
  induction rest generalizing fuel aRequired count pre s h with
  | nil =>
      obtain ⟨fuel, rfl⟩ := Nat.exists_eq_succ_of_ne_zero (Nat.ne_of_gt hfuel)
      rw [List.append_nil] at hqueue
      rw [collectLoop, get_bind, collectPlan, run_nil]
      simp only [hpost, hqueue]
      by_cases hgo : aRequired ≠ 0 ∧ count ≠ 0 ∧ pre ≠ []
      · have hend : aRequired ≠ 0 ∧ count ≠ 0 ∧ pre.length ≠ 0 :=
          ⟨hgo.1, hgo.2.1, fun hlen => hgo.2.2 (List.eq_nil_of_length_eq_zero hlen)⟩
        rw [if_pos hgo, List.getElem?_eq_none (Nat.le_refl _), decide_eq_true hend]
        rfl
      · have hend : ¬ (aRequired ≠ 0 ∧ count ≠ 0 ∧ pre.length ≠ 0) := fun hend =>
          hgo ⟨hend.1, hend.2.1, fun hnil => hend.2.2 (by rw [hnil]; rfl)⟩
        rw [if_neg hgo, decide_eq_false hend]
        rfl
  | cons id rest ih =>
      obtain ⟨fuel, rfl⟩ := Nat.exists_eq_succ_of_ne_zero (Nat.ne_zero_of_lt hfuel)
      rw [List.length_cons] at hfuel
      have hne : h.iObjectQueue ≠ [] := by simp [hqueue]
      have hat : h.iObjectQueue[pre.length]? = some id := by simp [hqueue]
      rw [collectLoop, get_bind, collectPlan]
      simp only [hpost]
      by_cases hgo : aRequired ≠ 0 ∧ count ≠ 0
      · rw [if_pos hgo, if_pos ⟨hgo.1, hgo.2, hne⟩, hat]
        by_cases hskip : flushing = some id
        · -- step over the entry that is being written
          rw [if_pos hskip]
          dsimp only
          rw [if_pos (hflushing.trans hskip)]
          have hnext := @ih fuel aRequired count (pre ++ [id]) s h (by omega) hpost hflushing (by simp [hqueue]) (by simpa using hnodup)
            fun i hi => hsize i (List.mem_cons_of_mem _ hi)
          rw [List.length_append] at hnext
          exact hnext
        · rw [if_neg hskip]
          dsimp only
          rw [if_neg (fun heq => hskip (hflushing.symm.trans heq)), run_cons]
          obtain ⟨hpos, hget⟩ := List.getElem?_eq_some_iff.1 hat
          have herase : h.iObjectQueue.eraseIdx pre.length = h.iObjectQueue.erase id := by
            rw [← List.Nodup.erase_getElem (by rwa [hqueue]) pre.length hpos, hget]
          rw [flushRound_eq hpost herase fun bytes => collectLoop io fuel
            ((aRequired + 4294967296 - bytes % 4294967296) % 4294967296) (count - 1) pre.length,
            hsize id List.mem_cons_self]
          refine bind_congr_of_run fun _ s₁ hflush => ?_
          obtain ⟨hpost₁, hsize₁⟩ := flushQueued_run hpost hflush
          have hnot : id ∉ pre ∧ id ∉ rest := by
            rw [List.nodup_middle, List.nodup_cons, List.mem_append, not_or] at hnodup
            exact hnodup.1
          have hqueue₁ : h.iObjectQueue.erase id = pre ++ rest := by
            rw [hqueue, List.erase_append_right _ hnot.1, List.erase_cons_head]
          refine ih (by omega) hpost₁ hflushing hqueue₁ ?_ fun i hi => ?_
          · rw [List.nodup_middle, List.nodup_cons] at hnodup
            exact hnodup.2
          · rw [hsize₁ i fun heq => hnot.2 (by rwa [← heq])]
            exact hsize i (List.mem_cons_of_mem _ hi)
      · rw [if_neg hgo, if_neg (fun hall => hgo ⟨hall.1, hall.2.1⟩), run_nil]
        rfl

/-- What `CollectMemory` does to the queue of a cache. -/
def CacheState.collectPlan (s : CacheState) (h : CHttpCacheFileWriteHandler) (aRequired : Nat) :
    CollectPlan :=
  HttpCache.collectPlan s.bodySize h.iObjectFlushing
    (kMaxCollectCount + h.iObjectQueue.length + 1) aRequired kMaxCollectCount 0 h.iObjectQueue

/-- `CollectMemory` carries out its plan: the bound on the rounds is never reached. -/
theorem collectMemory_eq (io : Nat → Io) (aRequired : Nat) {s : CacheState}
    {h : CHttpCacheFileWriteHandler} (hpost : s.iPostponeHandler = some h)
    (hnodup : h.iObjectQueue.Nodup) :
    collectMemory io aRequired s = (s.collectPlan h aRequired).run io s := by
  rw [collectMemory, get_bind]
  simp only [hpost]
  exact @collectLoop_eq io s.bodySize h.iObjectFlushing h.iObjectQueue _ aRequired
    kMaxCollectCount [] s h (by omega) hpost rfl rfl hnodup fun _ _ => rfl

/-! ## What the loop is for -/

section Plan

variable {size : EntryId → Nat} {flushing : Option EntryId}

/-- What is asked of the loop for `aRequired` bytes and at most `count` entries: it stays within
the queue, leaves alone what is being written, flushes at most `count` entries, and goes on only
while the bodies flushed so far are not large enough. -/
structure CollectsWell (size : EntryId → Nat) (flushing : Option EntryId) (aRequired count : Nat)
    (p : CollectPlan) : Prop where
  inBounds : p.pastEnd = false
  leaves : ∀ id ∈ p.flushed, flushing ≠ some id
  atMost : p.flushed.length ≤ count
  stops : ∀ ids id, ids ++ [id] <+: p.flushed → (ids.map size).sum < aRequired

/-- The entries of a queue that are not being written. -/
def others (flushing : Option EntryId) (queue : List EntryId) : List EntryId :=
  queue.filter fun id => flushing ≠ some id

/-- The size of the first `j` bodies that are not being written. -/
def sizeOfFirst (size : EntryId → Nat) (flushing : Option EntryId) (queue : List EntryId)
    (j : Nat) : Nat :=
  (((others flushing queue).take j).map size).sum

theorem others_cons_self {id : EntryId} (h : flushing = some id) (rest : List EntryId) :
    others flushing (id :: rest) = others flushing rest :=
  List.filter_cons_of_neg (by simp [h])

theorem others_cons {id : EntryId} (h : flushing ≠ some id) (rest : List EntryId) :
    others flushing (id :: rest) = id :: others flushing rest :=
  List.filter_cons_of_pos (by simp [h])

@[simp] theorem sizeOfFirst_zero (queue : List EntryId) :
    sizeOfFirst size flushing queue 0 = 0 := by
  simp [sizeOfFirst]

theorem sizeOfFirst_cons {id : EntryId} (h : flushing ≠ some id) (rest : List EntryId) (j : Nat) :
    sizeOfFirst size flushing (id :: rest) (j + 1) =
      size id + sizeOfFirst size flushing rest j := by
  simp [sizeOfFirst, others_cons h]

theorem collectPlan_leaves {fuel aRequired count skip : Nat} {rest : List EntryId} :
    ∀ id ∈ (collectPlan size flushing fuel aRequired count skip rest).flushed,
      flushing ≠ some id := by
  induction rest generalizing fuel aRequired count skip with
  | nil => simp [collectPlan, CollectPlan.flushed]
  | cons id rest ih =>
      rw [collectPlan]
      by_cases hgo : aRequired ≠ 0 ∧ count ≠ 0
      · rw [if_pos hgo]
        by_cases hskip : flushing = some id
        · rw [if_pos hskip]
          exact ih
        · rw [if_neg hskip]
          intro i hi
          rcases List.mem_cons.1 hi with rfl | hi
          · exact hskip
          · exact ih i hi
      · rw [if_neg hgo]
        simp [CollectPlan.flushed]

theorem collectPlan_atMost {fuel aRequired count skip : Nat} {rest : List EntryId} :
    (collectPlan size flushing fuel aRequired count skip rest).flushed.length ≤ count := by
  induction rest generalizing fuel aRequired count skip with
  | nil => simp [collectPlan, CollectPlan.flushed]
  | cons id rest ih =>
      rw [collectPlan]
      by_cases hgo : aRequired ≠ 0 ∧ count ≠ 0
      · rw [if_pos hgo]
        by_cases hskip : flushing = some id
        · rw [if_pos hskip]
          exact ih
        · rw [if_neg hskip]
          have hrest := @ih (fuel - 1) (remaining aRequired (size id)) (count - 1) skip
          simp only [CollectPlan.flushed, List.map_cons, List.length_cons] at hrest ⊢
          omega
      · rw [if_neg hgo]
        simp [CollectPlan.flushed]

/-- The plan stays within the queue and goes on only while less than `aRequired` is flushed. -/
def EndsWell (size : EntryId → Nat) (aRequired : Nat) (p : CollectPlan) : Prop :=
  p.pastEnd = false ∧ ∀ ids id, ids ++ [id] <+: p.flushed → (ids.map size).sum < aRequired

theorem collectsWell_iff_endsWell {fuel aRequired count skip : Nat} {rest : List EntryId} :
    CollectsWell size flushing aRequired count
        (collectPlan size flushing fuel aRequired count skip rest) ↔
      EndsWell size aRequired (collectPlan size flushing fuel aRequired count skip rest) := by
  constructor
  · intro h
    exact ⟨h.inBounds, h.stops⟩
  · rintro ⟨hin, hstops⟩
    exact ⟨hin, collectPlan_leaves, collectPlan_atMost, hstops⟩

theorem endsWell_nil {aRequired : Nat} {pastEnd : Bool} :
    EndsWell size aRequired ⟨[], pastEnd⟩ ↔ pastEnd = false := by
  refine and_iff_left fun ids id hpre => ?_
  rw [CollectPlan.flushed, List.map_nil, List.prefix_nil] at hpre
  simp at hpre

/-- A plan that begins with a flush asks the same of its rest, for what then remains. -/
theorem endsWell_cons {aRequired k : Nat} {id : EntryId} {p : CollectPlan} (hpos : 0 < aRequired) :
    EndsWell size aRequired ⟨(k, id) :: p.flushes, p.pastEnd⟩ ↔
      p.pastEnd = false ∧ ∀ ids i, ids ++ [i] <+: p.flushed →
        size id + (ids.map size).sum < aRequired := by
  refine and_congr_right fun _ => ?_
  constructor
  · intro h ids i hpre
    have hcons : (id :: ids) ++ [i] <+: id :: p.flushed := by
      rw [List.cons_append]
      exact (List.prefix_cons_inj id).2 hpre
    simpa using h (id :: ids) i hcons
  · intro h ids i hpre
    cases ids with
    | nil => exact hpos
    | cons id' ids =>
        rw [List.cons_append] at hpre
        obtain ⟨rfl, hrest⟩ := List.cons_prefix_cons.1 hpre
        simpa using h ids i hrest

/-- With something to free, the loop ends at once only at the limit or in an empty queue. -/
theorem collectPlan_idle_iff {fuel aRequired count skip : Nat} {rest : List EntryId}
    (hpos : aRequired ≠ 0) :
    ((collectPlan size flushing fuel aRequired count skip rest).pastEnd = false ∧
        (collectPlan size flushing fuel aRequired count skip rest).flushed = []) ↔
      count = 0 ∨ rest = [] ∧ skip = 0 := by
  induction rest generalizing fuel skip with
  | nil =>
      simp only [collectPlan, CollectPlan.flushed, List.map_nil, and_true, true_and, hpos,
        decide_eq_false_iff_not, ne_eq, not_false_eq_true]
      omega
  | cons id rest ih =>
      rw [collectPlan]
      by_cases hcount : count = 0
      · simp [hcount, CollectPlan.flushed]
      · rw [if_pos ⟨hpos, hcount⟩]
        by_cases hskip : flushing = some id
        · rw [if_pos hskip, ih]
          simp [hcount]
        · rw [if_neg hskip]
          simp [hcount, CollectPlan.flushed]

theorem remaining_of_le {aRequired n : Nat} (h : n ≤ aRequired) (ha : aRequired < 4294967296) :
    remaining aRequired n = aRequired - n := by
  unfold remaining
  omega

theorem remaining_of_lt {aRequired n : Nat} (h : aRequired < n) (hn : n < 4294967296) :
    remaining aRequired n ≠ 0 := by
  unfold remaining
  omega

/-- Some number of bodies has the size that is required, or the loop comes to its limit, or to the
end of a queue without the entry that is being written, before that size is reached. -/
def MeetsRequired (size : EntryId → Nat) (flushing : Option EntryId) (aRequired count skip : Nat)
    (rest : List EntryId) : Prop :=
  (∃ j ≤ min count (others flushing rest).length, sizeOfFirst size flushing rest j = aRequired) ∨
    (∀ j < min count (others flushing rest).length,
        sizeOfFirst size flushing rest j < aRequired) ∧
      (skip = 0 ∧ (∀ id ∈ rest, flushing ≠ some id) ∨ count ≤ (others flushing rest).length)

theorem meetsRequired_nil {aRequired count skip : Nat} :
    MeetsRequired size flushing aRequired count skip [] ↔
      ¬ (aRequired ≠ 0 ∧ count ≠ 0 ∧ skip ≠ 0) := by
  simp [MeetsRequired, others]
  omega

/-- With nothing to free, or nothing to flush, there is nothing to meet. -/
theorem meetsRequired_of_done {aRequired count skip : Nat} {rest : List EntryId}
    (h : ¬ (aRequired ≠ 0 ∧ count ≠ 0)) :
    MeetsRequired size flushing aRequired count skip rest := by
  by_cases hzero : aRequired = 0
  · exact .inl ⟨0, Nat.zero_le _, by rw [sizeOfFirst_zero, hzero]⟩
  · have hcount : count = 0 := by
      by_contra hne
      exact h ⟨hzero, hne⟩
    refine .inr ⟨fun j hj => ?_, .inr ?_⟩
    · rw [hcount, Nat.zero_min] at hj
      exact absurd hj (Nat.not_lt_zero j)
    · rw [hcount]
      exact Nat.zero_le _

/-- The entry that is being written counts only for the end of the queue. -/
theorem meetsRequired_skip {aRequired count skip : Nat} {id : EntryId} {rest : List EntryId}
    (h : flushing = some id) :
    MeetsRequired size flushing aRequired count skip (id :: rest) ↔
      MeetsRequired size flushing aRequired count (skip + 1) rest := by
  unfold MeetsRequired sizeOfFirst
  rw [others_cons_self h]
  refine or_congr_right (and_congr_right fun _ => or_congr_left (iff_of_false ?_ ?_))
  · exact fun hall => hall.2 id List.mem_cons_self h
  · exact fun hall => Nat.succ_ne_zero skip hall.1

/-- A body that is not too large leaves less to free. -/
theorem meetsRequired_cons {aRequired count skip : Nat} {id : EntryId} {rest : List EntryId}
    (h : flushing ≠ some id) (hpos : 0 < aRequired) (hcount : count ≠ 0)
    (hle : size id ≤ aRequired) :
    MeetsRequired size flushing aRequired count skip (id :: rest) ↔
      MeetsRequired size flushing (aRequired - size id) (count - 1) skip rest := by
  obtain ⟨count, rfl⟩ := Nat.exists_eq_succ_of_ne_zero hcount
  unfold MeetsRequired
  rw [others_cons h, List.length_cons, Nat.succ_min_succ, Nat.succ_sub_one]
  refine or_congr ?_ (and_congr ?_ ?_)
  · constructor
    · rintro ⟨j, hj, hsum⟩
      cases j with
      | zero =>
          rw [sizeOfFirst_zero] at hsum
          omega
      | succ j =>
          rw [sizeOfFirst_cons h] at hsum
          exact ⟨j, by omega, by omega⟩
    · rintro ⟨j, hj, hsum⟩
      refine ⟨j + 1, by omega, ?_⟩
      rw [sizeOfFirst_cons h]
      omega
  · constructor
    · intro hall j hj
      have hnext := hall (j + 1) (by omega)
      rw [sizeOfFirst_cons h] at hnext
      omega
    · intro hall j hj
      cases j with
      | zero => rwa [sizeOfFirst_zero]
      | succ j =>
          rw [sizeOfFirst_cons h]
          have hnext := hall j (by omega)
          omega
  · refine or_congr (and_congr_right fun _ => ?_) Nat.succ_le_succ_iff
    simp [h]

/-- A body that is too large must be the last one. -/
theorem meetsRequired_cons_of_lt {aRequired count skip : Nat} {id : EntryId} {rest : List EntryId}
    (h : flushing ≠ some id) (hpos : 0 < aRequired) (hcount : count ≠ 0)
    (hlt : aRequired < size id) :
    MeetsRequired size flushing aRequired count skip (id :: rest) ↔
      count - 1 = 0 ∨ rest = [] ∧ skip = 0 := by
  obtain ⟨count, rfl⟩ := Nat.exists_eq_succ_of_ne_zero hcount
  unfold MeetsRequired
  rw [others_cons h, List.length_cons, Nat.succ_min_succ, Nat.succ_sub_one]
  constructor
  · rintro (⟨j, hj, hsum⟩ | ⟨hall, hend⟩)
    · cases j with
      | zero =>
          rw [sizeOfFirst_zero] at hsum
          omega
      | succ j =>
          rw [sizeOfFirst_cons h] at hsum
          omega
    · have hmin : min count (others flushing rest).length = 0 := by
        by_contra hne
        have hone := hall 1 (by omega)
        rw [sizeOfFirst_cons h] at hone
        omega
      rcases hend with ⟨hskip, hnone⟩ | hlimit
      · rcases Nat.min_eq_zero_iff.1 hmin with hzero | hzero
        · exact .inl hzero
        · refine .inr ⟨?_, hskip⟩
          rw [List.length_eq_zero_iff, others, List.filter_eq_nil_iff] at hzero
          refine List.eq_nil_iff_forall_not_mem.2 fun i hi => ?_
          exact hzero i hi (by simpa using hnone i (List.mem_cons_of_mem _ hi))
      · exact .inl (by omega)
  · intro hend
    refine .inr ⟨fun j hj => ?_, ?_⟩
    · cases j with
      | zero => rwa [sizeOfFirst_zero]
      | succ j =>
          rcases hend with hzero | ⟨rfl, -⟩
          · omega
          · simp [others] at hj
    · rcases hend with hzero | ⟨rfl, hskip⟩
      · exact .inr (by omega)
      · exact .inl ⟨hskip, by simp [h]⟩

/-- The loop ends well exactly when the required size is met. -/
theorem endsWell_iff {fuel aRequired count skip : Nat} {rest : List EntryId}
    (hsize : ∀ id ∈ rest, size id < 4294967296) (ha : aRequired < 4294967296) :
    EndsWell size aRequired (collectPlan size flushing fuel aRequired count skip rest) ↔
      MeetsRequired size flushing aRequired count skip rest := by
  induction rest generalizing fuel aRequired count skip with
  | nil => rw [collectPlan, endsWell_nil, decide_eq_false_iff_not, meetsRequired_nil]
  | cons id rest ih =>
      have hrest := fun i hi => hsize i (List.mem_cons_of_mem id hi)
      rw [collectPlan]
      by_cases hgo : aRequired ≠ 0 ∧ count ≠ 0
      · rw [if_pos hgo]
        have hpos : 0 < aRequired := Nat.pos_of_ne_zero hgo.1
        by_cases hskip : flushing = some id
        · rw [if_pos hskip, meetsRequired_skip hskip]
          exact ih hrest ha
        · rw [if_neg hskip, endsWell_cons hpos]
          rcases Nat.lt_or_ge aRequired (size id) with hlt | hle
          · -- the counter wraps: the rest must do nothing
            have hzero := remaining_of_lt hlt (hsize id List.mem_cons_self)
            rw [meetsRequired_cons_of_lt hskip hpos hgo.2 hlt, ← collectPlan_idle_iff hzero]
            refine and_congr_right fun _ => ?_
            constructor
            · intro hstops
              rcases List.eq_nil_or_concat' (collectPlan size flushing (fuel - 1)
                (remaining aRequired (size id)) (count - 1) skip rest).flushed with hnil | ⟨_, _, heq⟩
              · exact hnil
              · have hsum := hstops _ _ (by rw [heq])
                omega
            · intro hnil ids i hpre
              rw [hnil, List.prefix_nil] at hpre
              simp at hpre
          · have hnext := @ih (fuel - 1) (aRequired - size id) (count - 1) skip hrest (by omega)
            rw [remaining_of_le hle ha, meetsRequired_cons hskip hpos hgo.2 hle, ← hnext]
            refine and_congr_right fun _ => ?_
            refine forall_congr' fun ids => forall_congr' fun i => forall_congr' fun _ => ?_
            omega
      · rw [if_neg hgo, endsWell_nil]
        exact iff_of_true rfl (meetsRequired_of_done hgo)

end Plan

/-- The queue, with what is required of it, makes the loop end as it should. -/
def CacheState.MeetsRequired (s : CacheState) (h : CHttpCacheFileWriteHandler)
    (aRequired : Nat) : Prop :=
  (∃ j ≤ min kMaxCollectCount (others h.iObjectFlushing h.iObjectQueue).length,
      sizeOfFirst s.bodySize h.iObjectFlushing h.iObjectQueue j = aRequired) ∨
    (∀ j < min kMaxCollectCount (others h.iObjectFlushing h.iObjectQueue).length,
        sizeOfFirst s.bodySize h.iObjectFlushing h.iObjectQueue j < aRequired) ∧
      ((∀ id ∈ h.iObjectQueue, h.iObjectFlushing ≠ some id) ∨
        kMaxCollectCount ≤ (others h.iObjectFlushing h.iObjectQueue).length)

/-- `CollectMemory` carries out its plan, and the plan is what it should be exactly when the first
bodies that are not being written have the required size, or the limit or the end of a queue
without the entry that is being written comes before. -/
theorem collectsWell_iff (io : Nat → Io) {aRequired : Nat} (ha : aRequired < 4294967296)
    {s : CacheState} {h : CHttpCacheFileWriteHandler} (hpost : s.iPostponeHandler = some h)
    (hnodup : h.iObjectQueue.Nodup) (hsize : ∀ id ∈ h.iObjectQueue, s.bodySize id < 4294967296) :
    collectMemory io aRequired s = (s.collectPlan h aRequired).run io s ∧
      (CollectsWell s.bodySize h.iObjectFlushing aRequired kMaxCollectCount
          (s.collectPlan h aRequired) ↔
        s.MeetsRequired h aRequired) := by
  refine ⟨collectMemory_eq io aRequired hpost hnodup, ?_⟩
  rw [CacheState.collectPlan, collectsWell_iff_endsWell, endsWell_iff hsize ha]
  simp [HttpCache.MeetsRequired, CacheState.MeetsRequired]

/-! ## Two queues -/

section Queues

open Reference

/-- A complete entry of this size. -/
def sized (n : Nat) : CHttpCacheEntry :=
  { CHttpCacheEntry.newLC [] with iState := .eCacheComplete, iBodySize := n }

/-- A handler with two entries in its queue. -/
def twoQueued : CHttpCacheFileWriteHandler :=
  { CHttpCacheFileWriteHandler.newL 0 0 with iObjectQueue := [0, 1] }

/-- A cache with this handler and bodies of 20 and 10 bytes. -/
def twoBodies : CacheState :=
  ((CacheState.newL 1000 [kPathDelimiter] 0 (some twoQueued) fun _ => none).withNew
    (sized 20)).withNew (sized 10)

/-- The two bodies are flushed for 30 bytes. -/
theorem collectsWell_twoBodies :
    CollectsWell twoBodies.bodySize none 30 kMaxCollectCount (twoBodies.collectPlan twoQueued 30) ∧
      (twoBodies.collectPlan twoQueued 30).flushed = [0, 1] := by
  have hsize : ∀ id ∈ twoQueued.iObjectQueue, twoBodies.bodySize id < 4294967296 := by
    intro id hid
    rcases List.mem_pair.1 hid with rfl | rfl
    · decide
    · decide
  have hiff := (collectsWell_iff (fun _ => io) (by decide : 30 < 4294967296) (s := twoBodies)
    (h := twoQueued) rfl (by decide) hsize).2
  exact ⟨hiff.2 (.inl ⟨2, by decide, by decide⟩), by decide⟩

/-- While one response is written another is saved and removed again. The queue then holds the
entry that is being written and nothing else, and the next collection reads past its end. -/
theorem not_collectsWell : ∃ s h, Reaches Op.run postponingCache.Starts (fun _ _ => True) s ∧
    s.iPostponeHandler = some h ∧ h.iWaitTimer = true ∧
    (∀ io, collectMemory io 1 s = none) ∧
    ¬ CollectsWell s.bodySize h.iObjectFlushing 1 kMaxCollectCount (s.collectPlan h 1) := by
  have heval : (stateAfter postponingCache
      (postponedOps env ++ responseOps [2] [2, 3] [7, 8] ++ [.removeL [2]])).map (fun s =>
        s.iPostponeHandler.map fun h => (h.iWaitTimer, h.iObjectQueue, h.iObjectFlushing)) =
      some (some (true, [0], some 0)) := by
    decide +kernel
  obtain ⟨s, hs, heq⟩ := exists_run_of_eval heval
  obtain ⟨h, hpost, heq⟩ := Option.map_eq_some_iff.1 heq
  simp only [Prod.mk.injEq] at heq
  obtain ⟨htimer, hqueue, hflushing⟩ := heq
  have hplan : s.collectPlan h 1 = ⟨[], true⟩ := by
    simp [CacheState.collectPlan, collectPlan, hqueue, hflushing, kMaxCollectCount]
  refine ⟨s, h, hs, hpost, htimer, fun io => ?_, fun hwell => ?_⟩
  · rw [collectMemory_eq io 1 hpost (by simp [hqueue]), hplan]
    rfl
  · have hin := hwell.inBounds
    rw [hplan] at hin
    cases hin

end Queues

end SymbianWeb.HttpCache
