import SymbianWeb.Feeds.UpdateManager
import Mathlib.Tactic

/-!
# The schedule over runs

A run starts with a new manager and mixes `StartL`, idle call-backs and changes
of the feed table, each of which is reported by `UpdateFeedL`. Once loading has
finished, the queues are to hold exactly the feeds that are to be updated, each
in the queue of its frequency.

They do as long as no call-back loads a feed that the queues already hold, or
one that is gone and for which the uninitialised frequency is positive. A feed
that is changed while it waits to be loaded waits a second time, and one that is
deleted while it waits still waits.
-/

namespace SymbianWeb.Feeds

open UpdateManager

/-- A manager, the feed table it reads, and whether the feeds were loaded since
it was started. -/
structure Schedule where
  manager : UpdateManager
  table : FeedTable
  loaded : Bool

/-- What happens to a manager. -/
inductive ScheduleStep where
  | startL (allFeedIds : List Int × Option Int)
  | lazyCallBack (reads : Fin 10 → FreqRead)
  | change (id freq : Int) (read : FreqRead)
  | delete (id : Int) (read : FreqRead)

namespace ScheduleStep

/-- `AllFeedIdsL` appends each row's id once, unless it leaves; the idle caller
calls back while it is active. -/
def Enabled (s : Schedule) : ScheduleStep → Prop
  | startL allFeedIds => allFeedIds.2 = none →
      allFeedIds.1.Nodup ∧ ∀ id, id ∈ allFeedIds.1 ↔ (s.table id).isSome = true
  | lazyCallBack _ => s.manager.lazyCallerActive = true
  | change _ _ _ => True
  | delete _ _ => True

/-- The step. `none` is a panic. -/
def step (s : Schedule) : ScheduleStep → Option Schedule
  | startL allFeedIds => (s.manager.startL allFeedIds).map fun r => ⟨r.2, s.table, false⟩
  | lazyCallBack reads =>
    let m := s.manager.lazyCallBack s.table reads
    some ⟨m, s.table, ¬ m.lazyCallerActive⟩
  | change id freq read =>
    let table : FeedTable := Function.update s.table id (some freq)
    some ⟨(s.manager.updateFeedL table read id false).2, table, s.loaded⟩
  | delete id read =>
    let table : FeedTable := Function.update s.table id none
    some ⟨(s.manager.updateFeedL table read id true).2, table, s.loaded⟩

end ScheduleStep

/-- The schedules that steps satisfying `P` lead to. -/
inductive ScheduleReached (P : Schedule → ScheduleStep → Prop) : Schedule → Prop where
  | newL (aAutoUpdateFreq : Int) (table : FeedTable) :
      ScheduleReached P ⟨.newL aAutoUpdateFreq, table, false⟩
  | step {s s' : Schedule} {e : ScheduleStep} : ScheduleReached P s → e.Enabled s → P s e →
      e.step s = some s' → ScheduleReached P s'

/-- What the queues are to be once the feeds were loaded. -/
structure Scheduled (s : Schedule) : Prop where
  /-- A feed with a positive frequency is in one queue, once, and that queue has
  the frequency. -/
  queued : ∀ id freq, s.table id = some freq → 0 < s.manager.freqOf freq →
    s.manager.queuedFeeds.count id = 1 ∧
      ∃ q ∈ s.manager.iQueueArray, id ∈ q.iFeedIds ∧ q.iFreq = s.manager.freqOf freq
  deleted : ∀ id, s.table id = none → ∀ q ∈ s.manager.iQueueArray, id ∉ q.iFeedIds
  frequencies : (s.manager.iQueueArray.map (·.iFreq)).Nodup
  nonempty : ∀ q ∈ s.manager.iQueueArray, q.iFeedIds ≠ []

/-- The read does not leave. -/
def FreqRead.Succeeds (read : FreqRead) : Prop := read.freqFromFeedIdL = none ∧ read.newL = none

/-- The feed has a row, and the frequency that counts for it is positive. -/
def UpdateManager.IsDue (m : UpdateManager) (table : FeedTable) (id : Int) : Prop :=
  ∃ freq, table id = some freq ∧ 0 < m.freqOf freq

instance (m : UpdateManager) (table : FeedTable) (id : Int) : Decidable (m.IsDue table id) :=
  decidable_of_iff ((table id).any (fun freq => 0 < m.freqOf freq) = true) <| by
    cases h : table id <;> simp [UpdateManager.IsDue, h]

/-- What a call-back may load: nothing leaves; of a feed without a row, the
uninitialised frequency is not positive; the due feeds among those it loads are
distinct, and in no queue. -/
structure UpdateManager.LoadsWell (m : UpdateManager) (table : FeedTable)
    (reads : List FreqRead) : Prop where
  succeeds : ∀ read ∈ reads, read.Succeeds
  gone : ∀ p ∈ m.pending.zip reads, table p.1 = none → m.freqOf p.2.stack ≤ 0
  distinct : ((m.pending.take reads.length).filter (m.IsDue table)).Nodup
  unqueued : ∀ id ∈ m.pending.take reads.length, m.IsDue table id → id ∉ m.queuedFeeds

/-- The condition on a step: the manager is started before it has queues,
nothing leaves, and call-backs load feeds that are harmless. -/
def ScheduleStep.Meets (s : Schedule) : ScheduleStep → Prop
  | .startL allFeedIds => s.manager.lazyCallerActive = false ∧ s.manager.iQueueArray = [] ∧
      allFeedIds.2 = none
  | .lazyCallBack reads => s.manager.LoadsWell s.table (List.ofFn reads)
  | .change _ _ read => s.manager.lazyCallerActive = true ∨ read.Succeeds
  | .delete _ _ => True

/-! ## One queue, one feed -/

theorem queuedFeeds_eq (m : UpdateManager) :
    m.queuedFeeds = m.iQueueArray.flatMap (·.iFeedIds) := rfl

/-- The loop of `AddFeedL` adds the feed once to each queue of the frequency. -/
theorem count_addToQueues (freq aFeedId x : Int) (queues : List UpdateQueue) :
    ((addToQueues freq aFeedId queues).flatMap (·.iFeedIds)).count x =
      (queues.flatMap (·.iFeedIds)).count x +
        (queues.map (·.iFreq)).count freq * [aFeedId].count x := by
  induction queues with
  | nil => simp [addToQueues]
  | cons q rest ih =>
    simp only [addToQueues] at ih
    simp only [addToQueues, List.map_cons, List.flatMap_cons, List.count_append, ih]
    by_cases hfreq : freq = q.iFreq
    · subst hfreq
      simp only [if_true, UpdateQueue.addFeed, List.count_append, List.count_cons_self]
      ring
    · rw [if_neg hfreq, List.count_cons_of_ne (Ne.symm hfreq)]
      ring

theorem map_iFreq_addToQueues (freq aFeedId : Int) (queues : List UpdateQueue) :
    (addToQueues freq aFeedId queues).map (·.iFreq) = queues.map (·.iFreq) := by
  simp only [addToQueues, List.map_map]
  apply List.map_congr_left
  intro q _
  by_cases hfreq : freq = q.iFreq
  · simp [hfreq, UpdateQueue.addFeed]
  · simp [hfreq]

theorem mem_addToQueues {freq aFeedId : Int} {queues : List UpdateQueue} {q' : UpdateQueue} :
    q' ∈ addToQueues freq aFeedId queues ↔
      ∃ q ∈ queues, q' = if freq = q.iFreq then q.addFeed aFeedId else q := by
  simp only [addToQueues, List.mem_map]
  constructor <;> rintro ⟨q, hq, h⟩ <;> exact ⟨q, hq, h.symm⟩

/-! ## The scan of `UpdateFeedL` -/

theorem removeFeed_of_not_mem {q : UpdateQueue} {id : Int} (h : id ∉ q.iFeedIds) :
    q.removeFeed id = q := by
  simp only [UpdateQueue.removeFeed, List.erase_of_not_mem h]

theorem removeFromQueues_kept {id : Int} {q : UpdateQueue} (h : (q.removeFeed id).iFeedIds ≠ [])
    (rest : List UpdateQueue) :
    removeFromQueues id (q :: rest) = q.removeFeed id :: removeFromQueues id rest := by
  have hlength : ¬ (q.removeFeed id).iFeedIds.length ≤ 0 := by simpa using h
  cases rest <;> simp only [removeFromQueues, hlength, if_false]

theorem removeFromQueues_emptied {id : Int} {q : UpdateQueue}
    (h : (q.removeFeed id).iFeedIds = []) (skipped : UpdateQueue) (rest : List UpdateQueue) :
    removeFromQueues id (q :: skipped :: rest) = skipped :: removeFromQueues id rest := by
  simp only [removeFromQueues, h, List.length_nil, le_refl, if_true]

theorem removeFromQueues_last {id : Int} {q : UpdateQueue}
    (h : (q.removeFeed id).iFeedIds = []) : removeFromQueues id [q] = [] := by
  simp only [removeFromQueues, h, List.length_nil, le_refl, if_true]

/-- Queues that do not hold the feed and are not empty stay as they are. -/
theorem removeFromQueues_of_not_mem {id : Int} : ∀ {queues : List UpdateQueue},
    (∀ q ∈ queues, id ∉ q.iFeedIds ∧ q.iFeedIds ≠ []) → removeFromQueues id queues = queues
  | [], _ => rfl
  | q :: rest, h => by
    obtain ⟨hid, hne⟩ := h q List.mem_cons_self
    have hrest := removeFromQueues_of_not_mem fun q hq => h q (List.mem_cons_of_mem _ hq)
    have hsame := removeFeed_of_not_mem hid
    rw [removeFromQueues_kept (by rwa [hsame]), hsame, hrest]

/-- When the feed is in one queue only, the scan misses nothing by passing over
the queue behind one that it takes out: the queues are those without the feed,
less the one that held nothing else. -/
theorem removeFromQueues_eq (id : Int) {queues : List UpdateQueue}
    (hne : ∀ q ∈ queues, q.iFeedIds ≠ []) (hnodup : (queues.flatMap (·.iFeedIds)).Nodup) :
    removeFromQueues id queues =
      (queues.map (·.removeFeed id)).filter (fun q => q.iFeedIds ≠ []) := by
  induction queues with
  | nil => rfl
  | cons q rest ih =>
    rw [List.flatMap_cons, List.nodup_append'] at hnodup
    obtain ⟨hq, hrest, hdisjoint⟩ := hnodup
    have hne' : ∀ q ∈ rest, q.iFeedIds ≠ [] := fun q hq => hne q (List.mem_cons_of_mem _ hq)
    by_cases hempty : (q.removeFeed id).iFeedIds = []
    · -- The queue held the feed alone, so no other queue holds it.
      have hid : id ∈ q.iFeedIds := by
        by_contra hid
        rw [removeFeed_of_not_mem hid] at hempty
        exact hne q List.mem_cons_self hempty
      have hothers : ∀ q ∈ rest, id ∉ q.iFeedIds ∧ q.iFeedIds ≠ [] := fun q' hq' =>
        ⟨fun h => hdisjoint hid (List.mem_flatMap.2 ⟨q', hq', h⟩), hne' q' hq'⟩
      have hmap : rest.map (·.removeFeed id) = rest := by
        conv_rhs => rw [← List.map_id rest]
        exact List.map_congr_left fun q' hq' => removeFeed_of_not_mem (hothers q' hq').1
      have hfilter : rest.filter (fun q => q.iFeedIds ≠ []) = rest :=
        List.filter_eq_self.2 fun q' hq' => by simpa using hne' q' hq'
      rw [List.map_cons, List.filter_cons_of_neg (by simpa using hempty), hmap, hfilter]
      cases rest with
      | nil => exact removeFromQueues_last hempty
      | cons skipped rest =>
        have htail : removeFromQueues id rest = rest :=
          removeFromQueues_of_not_mem fun q' hq' => hothers q' (List.mem_cons_of_mem _ hq')
        rw [removeFromQueues_emptied hempty, htail]
    · rw [List.map_cons, List.filter_cons_of_pos (by simpa using hempty), ← ih hne' hrest,
        removeFromQueues_kept hempty]

/-! ## The invariant of the queues -/

/-- The queues are in order for a feed table. -/
structure InOrder (m : UpdateManager) (table : FeedTable) : Prop where
  frequencies : (m.iQueueArray.map (·.iFreq)).Nodup
  nonempty : ∀ q ∈ m.iQueueArray, q.iFeedIds ≠ []
  once : m.queuedFeeds.Nodup
  right : ∀ q ∈ m.iQueueArray, ∀ id ∈ q.iFeedIds, ∃ freq,
    table id = some freq ∧ q.iFreq = m.freqOf freq ∧ 0 < q.iFreq

/-- Adding a feed to the queue of its frequency. -/
theorem InOrder.addToQueues {m : UpdateManager} {table : FeedTable} (h : InOrder m table)
    {id freq : Int} (htable : table id = some freq) (hpos : 0 < m.freqOf freq)
    (hqueue : m.freqOf freq ∈ m.iQueueArray.map (·.iFreq)) (hnew : id ∉ m.queuedFeeds) :
    InOrder { m with iQueueArray := addToQueues (m.freqOf freq) id m.iQueueArray } table ∧
      ∀ x, x ∈ (UpdateManager.addToQueues (m.freqOf freq) id m.iQueueArray).flatMap (·.iFeedIds) ↔
        x ∈ m.queuedFeeds ∨ x = id := by
  have hcount : ∀ x, ((UpdateManager.addToQueues (m.freqOf freq) id m.iQueueArray).flatMap
      (·.iFeedIds)).count x = m.queuedFeeds.count x + [id].count x := by
    intro x
    rw [count_addToQueues, List.count_eq_one_of_mem h.frequencies hqueue, Nat.one_mul]
    rfl
  refine ⟨⟨?_, ?_, ?_, ?_⟩, ?_⟩
  · rw [map_iFreq_addToQueues]
    exact h.frequencies
  · intro q' hq'
    obtain ⟨q, hq, rfl⟩ := mem_addToQueues.1 hq'
    split
    · simp [UpdateQueue.addFeed]
    · exact h.nonempty q hq
  · rw [List.nodup_iff_count_le_one]
    intro x
    have hx := (List.nodup_iff_count_le_one.1 h.once) x
    rw [queuedFeeds_eq, hcount]
    by_cases hid : x = id
    · subst hid
      simp [List.count_eq_zero.2 hnew]
    · simpa [List.count_singleton, Ne.symm hid] using hx
  · intro q' hq' x hx
    obtain ⟨q, hq, rfl⟩ := mem_addToQueues.1 hq'
    split at hx
    · rename_i hfreq
      rw [if_pos hfreq]
      rcases List.mem_append.1 hx with hx | hx
      · exact h.right q hq x hx
      · obtain rfl := List.mem_singleton.1 hx
        exact ⟨freq, htable, hfreq.symm, hfreq ▸ hpos⟩
    · rename_i hfreq
      rw [if_neg hfreq]
      exact h.right q hq x hx
  · intro x
    rw [← List.count_pos_iff, hcount, Nat.add_pos_iff_pos_or_pos, List.count_pos_iff,
      List.count_pos_iff, List.mem_singleton]

/-- A feed of a frequency that no queue has gets a queue of its own. -/
theorem InOrder.newQueue {m : UpdateManager} {table : FeedTable} (h : InOrder m table)
    {id freq : Int} (htable : table id = some freq) (hpos : 0 < m.freqOf freq)
    (hqueue : m.freqOf freq ∉ m.iQueueArray.map (·.iFreq)) (hnew : id ∉ m.queuedFeeds)
    {q : UpdateQueue} (hfreq : q.iFreq = m.freqOf freq) (hfeeds : q.iFeedIds = [id]) :
    InOrder { m with iQueueArray := m.iQueueArray ++ [q] } table ∧
      ∀ x, x ∈ (m.iQueueArray ++ [q]).flatMap (·.iFeedIds) ↔ x ∈ m.queuedFeeds ∨ x = id := by
  have hflat : (m.iQueueArray ++ [q]).flatMap (·.iFeedIds) = m.queuedFeeds ++ [id] := by
    simp [queuedFeeds, hfeeds]
  refine ⟨⟨?_, ?_, ?_, ?_⟩, ?_⟩
  · rw [List.map_append, List.nodup_append']
    refine ⟨h.frequencies, List.nodup_singleton _, ?_⟩
    intro x hx hx'
    obtain rfl := List.mem_singleton.1 hx'
    exact hqueue (hfreq ▸ hx)
  · intro q' hq'
    rcases List.mem_append.1 hq' with hq' | hq'
    · exact h.nonempty q' hq'
    · obtain rfl := List.mem_singleton.1 hq'
      simp [hfeeds]
  · rw [queuedFeeds_eq, hflat, List.nodup_append']
    refine ⟨h.once, List.nodup_singleton _, ?_⟩
    intro x hx hx'
    obtain rfl := List.mem_singleton.1 hx'
    exact hnew hx
  · intro q' hq' x hx
    rcases List.mem_append.1 hq' with hq' | hq'
    · exact h.right q' hq' x hx
    · obtain rfl := List.mem_singleton.1 hq'
      rw [hfeeds] at hx
      obtain rfl := List.mem_singleton.1 hx
      exact ⟨freq, htable, hfreq, hfreq ▸ hpos⟩
  · intro x
    rw [hflat, List.mem_append, List.mem_singleton]

/-- `AddFeedL` puts a due feed into one queue, and changes nothing else. -/
theorem InOrder.addFeedL {m : UpdateManager} {table : FeedTable} (h : InOrder m table)
    {read : FreqRead} (id : Int) (hread : read.Succeeds)
    (hgone : table id = none → m.freqOf read.stack ≤ 0)
    (hnew : m.IsDue table id → id ∉ m.queuedFeeds) :
    ∃ queues, m.addFeedL table read id = (.ok (), { m with iQueueArray := queues }) ∧
      InOrder { m with iQueueArray := queues } table ∧
      ∀ x, x ∈ queues.flatMap (·.iFeedIds) ↔
        x ∈ m.queuedFeeds ∨ (x = id ∧ m.IsDue table id) := by
  obtain ⟨hfreq, hnewL⟩ := hread
  by_cases hdue : m.IsDue table id
  · obtain ⟨freq, htable, hpos⟩ := hdue
    have hnew := hnew ⟨freq, htable, hpos⟩
    have hiff : ∀ {l : List Int}, (∀ x, x ∈ l ↔ x ∈ m.queuedFeeds ∨ x = id) →
        ∀ x, x ∈ l ↔ x ∈ m.queuedFeeds ∨ (x = id ∧ m.IsDue table id) := by
      intro l hl x
      rw [hl x, and_iff_left ⟨freq, htable, hpos⟩]
    by_cases hqueue : m.freqOf freq ∈ m.iQueueArray.map (·.iFreq)
    · obtain ⟨horder, hmem⟩ := h.addToQueues htable hpos hqueue hnew
      refine ⟨_, ?_, horder, hiff hmem⟩
      have hany : m.iQueueArray.any (fun q => decide (m.freqOf freq = q.iFreq)) = true := by
        obtain ⟨q, hq, heq⟩ := List.mem_map.1 hqueue
        exact List.any_eq_true.2 ⟨q, hq, by simp [heq]⟩
      simp only [UpdateManager.addFeedL, hfreq, htable, Option.getD_some, hpos, if_true, hany]
    · obtain ⟨horder, hmem⟩ := h.newQueue htable hpos hqueue hnew
        (q := (UpdateQueue.newL (m.freqOf freq) read.now).addFeed id) rfl rfl
      refine ⟨_, ?_, horder, hiff hmem⟩
      have hany : m.iQueueArray.any (fun q => decide (m.freqOf freq = q.iFreq)) = false := by
        rw [List.any_eq_false]
        intro q hq
        simpa using fun heq : m.freqOf freq = q.iFreq => hqueue (List.mem_map.2 ⟨q, hq, heq.symm⟩)
      simp only [UpdateManager.addFeedL, hfreq, htable, Option.getD_some, hpos, if_true, hany,
        hnewL]
      rfl
  · -- What is read is not positive, with or without a row.
    have hnotpos : ¬ 0 < m.freqOf ((table id).getD read.stack) := by
      cases htable : table id with
      | none => simpa using hgone htable
      | some freq => exact fun hpos => hdue ⟨freq, htable, hpos⟩
    refine ⟨m.iQueueArray, ?_, h, ?_⟩
    · simp only [UpdateManager.addFeedL, hfreq, hnotpos, if_false]
    · intro x
      simp [hdue, queuedFeeds]

theorem flatMap_filter_nonempty (queues : List UpdateQueue) :
    (queues.filter (fun q => q.iFeedIds ≠ [])).flatMap (·.iFeedIds) =
      queues.flatMap (·.iFeedIds) := by
  induction queues with
  | nil => rfl
  | cons q rest ih =>
    by_cases hempty : q.iFeedIds = []
    · rw [List.filter_cons_of_neg (by simpa using hempty), ih, List.flatMap_cons, hempty]
      rfl
    · rw [List.filter_cons_of_pos (by simpa using hempty), List.flatMap_cons, List.flatMap_cons, ih]

theorem flatMap_removeFeed_sublist (id : Int) (queues : List UpdateQueue) :
    ((queues.map (·.removeFeed id)).flatMap (·.iFeedIds)).Sublist
      (queues.flatMap (·.iFeedIds)) := by
  induction queues with
  | nil => exact List.Sublist.slnil
  | cons q rest ih => exact List.Sublist.append List.erase_sublist ih

/-- After the scan the feed is in no queue, and the queues are in order for any
table that differs in its row only. -/
theorem InOrder.removeFromQueues {m : UpdateManager} {table : FeedTable} (h : InOrder m table)
    (id : Int) (row : Option Int) :
    InOrder { m with iQueueArray := removeFromQueues id m.iQueueArray }
        (Function.update table id row) ∧
      ∀ x, x ∈ (UpdateManager.removeFromQueues id m.iQueueArray).flatMap (·.iFeedIds) ↔
        x ∈ m.queuedFeeds ∧ x ≠ id := by
  have heq := removeFromQueues_eq id h.nonempty h.once
  have hnodup : ∀ q ∈ m.iQueueArray, q.iFeedIds.Nodup :=
    (List.nodup_flatMap.1 h.once).1
  have hflat : (UpdateManager.removeFromQueues id m.iQueueArray).flatMap (·.iFeedIds) =
      (m.iQueueArray.map (·.removeFeed id)).flatMap (·.iFeedIds) := by
    rw [heq, flatMap_filter_nonempty]
  refine ⟨⟨?_, ?_, ?_, ?_⟩, ?_⟩
  · simp only [heq]
    refine List.Nodup.sublist (List.filter_sublist.map _) ?_
    rw [List.map_map]
    exact h.frequencies
  · intro q' hq'
    simp only [heq, List.mem_filter] at hq'
    simpa using hq'.2
  · rw [queuedFeeds_eq]
    simp only [hflat]
    exact h.once.sublist (flatMap_removeFeed_sublist id _)
  · intro q' hq' x hx
    simp only [heq, List.mem_filter, List.mem_map] at hq'
    obtain ⟨⟨q, hq, rfl⟩, -⟩ := hq'
    obtain ⟨hne, hx⟩ := (hnodup q hq).mem_erase_iff.1 hx
    obtain ⟨freq, htable, hright⟩ := h.right q hq x hx
    exact ⟨freq, by rw [Function.update_of_ne hne, htable], hright⟩
  · intro x
    rw [hflat, queuedFeeds_eq]
    simp only [List.mem_flatMap, List.mem_map]
    constructor
    · rintro ⟨_, ⟨q, hq, rfl⟩, hx⟩
      obtain ⟨hne, hx⟩ := (hnodup q hq).mem_erase_iff.1 hx
      exact ⟨⟨q, hq, hx⟩, hne⟩
    · rintro ⟨⟨q, hq, hx⟩, hne⟩
      exact ⟨_, ⟨q, hq, rfl⟩, (hnodup q hq).mem_erase_iff.2 ⟨hne, hx⟩⟩

/-! ## The call-back -/

/-- The next feed to be loaded, and the ones behind it. -/
theorem pending_eq_cons {m : UpdateManager} {id : Int}
    (h : m.iFeedIds[m.iCurrentFeedCount]? = some id) :
    m.pending = id :: m.iFeedIds.drop (m.iCurrentFeedCount + 1) := by
  obtain ⟨hlt, rfl⟩ := List.getElem?_eq_some_iff.1 h
  exact List.drop_eq_getElem_cons hlt

theorem pending_eq_nil {m : UpdateManager} (h : m.iFeedIds[m.iCurrentFeedCount]? = none) :
    m.pending = [] :=
  List.drop_eq_nil_of_le (List.getElem?_eq_none_iff.1 h)

/-- What a call-back that may load its feeds does: a due feed that was queued or
pending is queued, or still pending when the call-back is to go on. -/
theorem loadFeeds_spec {table : FeedTable} (reads : List FreqRead) {m : UpdateManager}
    (h : InOrder m table) (hload : m.LoadsWell table reads)
    (hbound : m.iCurrentFeedCount ≤ m.iFeedIds.length) :
    InOrder (loadFeeds table reads m).2 table ∧
      (loadFeeds table reads m).2.iAutoUpdateFreq = m.iAutoUpdateFreq ∧
      (loadFeeds table reads m).2.iCurrentFeedCount ≤ (loadFeeds table reads m).2.iFeedIds.length ∧
      ∀ id, m.IsDue table id → id ∈ m.queuedFeeds ∨ id ∈ m.pending →
        id ∈ (loadFeeds table reads m).2.queuedFeeds ∨
          ((loadFeeds table reads m).1 = true ∧ id ∈ (loadFeeds table reads m).2.pending) := by
  induction reads generalizing m with
  | nil =>
    refine ⟨h, rfl, hbound, ?_⟩
    intro id _ hid
    simpa only [loadFeeds, true_and] using hid
  | cons read reads ih =>
    cases hnext : m.iFeedIds[m.iCurrentFeedCount]? with
    | none =>
      have hpending := pending_eq_nil hnext
      simp only [loadFeeds, hnext]
      refine ⟨⟨h.frequencies, h.nonempty, h.once, h.right⟩, trivial, Nat.le_refl 0, ?_⟩
      intro id _ hid
      rw [hpending] at hid
      exact .inl (hid.resolve_right List.not_mem_nil)
    | some first =>
      have hpending := pending_eq_cons hnext
      let m₁ : UpdateManager := { m with iCurrentFeedCount := m.iCurrentFeedCount + 1 }
      have horder₁ : InOrder m₁ table := ⟨h.frequencies, h.nonempty, h.once, h.right⟩
      have htake : m.pending.take (read :: reads).length =
          first :: m₁.pending.take reads.length := by
        rw [hpending]
        rfl
      obtain ⟨queues, hadd, horder₂, hmem⟩ := horder₁.addFeedL first
        (hload.succeeds read List.mem_cons_self)
        (hload.gone (first, read) (by rw [hpending]; exact List.mem_cons_self))
        (hload.unqueued first (by rw [htake]; exact List.mem_cons_self))
      let m₂ : UpdateManager := { m₁ with iQueueArray := queues }
      have hload₂ : m₂.LoadsWell table reads := by
        have hdistinct := hload.distinct
        rw [htake] at hdistinct
        refine ⟨fun r hr => hload.succeeds r (List.mem_cons_of_mem _ hr), ?_, ?_, ?_⟩
        · intro p hp
          exact hload.gone p (by rw [hpending]; exact List.mem_cons_of_mem _ hp)
        · exact hdistinct.sublist ((List.sublist_cons_self _ _).filter _)
        · -- A due feed further on is not the one that was just loaded.
          intro x hx hdue hqueued
          rcases (hmem x).1 hqueued with hqueued | ⟨rfl, -⟩
          · exact hload.unqueued x (by rw [htake]; exact List.mem_cons_of_mem _ hx) hdue hqueued
          · have hfirst : m.IsDue table x := hdue
            rw [List.filter_cons_of_pos (by simpa using hfirst), List.nodup_cons] at hdistinct
            exact hdistinct.1 (List.mem_filter.2 ⟨hx, by simpa using hfirst⟩)
      have hbound₂ : m₂.iCurrentFeedCount ≤ m₂.iFeedIds.length :=
        (List.getElem?_eq_some_iff.1 hnext).1
      have hstep : loadFeeds table (read :: reads) m = loadFeeds table reads m₂ := by
        simp only [loadFeeds, hnext]
        rw [show UpdateManager.addFeedL table read first
          { m with iCurrentFeedCount := m.iCurrentFeedCount + 1 } = (.ok (), m₂) from hadd]
      obtain ⟨horder, hfreq, hbound', hcovered⟩ := ih horder₂ hload₂ hbound₂
      rw [hstep]
      refine ⟨horder, hfreq, hbound', ?_⟩
      intro id hdue hid
      apply hcovered id hdue
      rcases hid with hid | hid
      · exact .inl ((hmem id).2 (.inl hid))
      · rw [hpending] at hid
        rcases List.mem_cons.1 hid with rfl | hid
        · exact .inl ((hmem id).2 (.inr ⟨rfl, hdue⟩))
        · exact .inr hid

/-! ## Runs -/

/-- What every step that meets the condition keeps. -/
structure ScheduleKept (s : Schedule) : Prop where
  inOrder : InOrder s.manager s.table
  bound : s.manager.iCurrentFeedCount ≤ s.manager.iFeedIds.length
  covered : s.loaded = true ∨ s.manager.lazyCallerActive = true →
    ∀ id, s.manager.IsDue s.table id →
      id ∈ s.manager.queuedFeeds ∨
        (s.manager.lazyCallerActive = true ∧ id ∈ s.manager.pending)
  finished : s.loaded = true → s.manager.lazyCallerActive = false

/-- While the feeds are loaded, a change puts the feed behind the pending ones. -/
theorem updateFeedL_of_active {m : UpdateManager} (h : m.lazyCallerActive = true)
    (table : FeedTable) (read : FreqRead) (id : Int) :
    m.updateFeedL table read id false =
      (.ok (), { m with
        iQueueArray := removeFromQueues id m.iQueueArray
        iFeedIds := m.iFeedIds ++ [id] }) := by
  simp [UpdateManager.updateFeedL, h]

/-- Otherwise it is put into its queue at once. -/
theorem updateFeedL_of_not_active {m : UpdateManager} (h : ¬ m.lazyCallerActive = true)
    (table : FeedTable) (read : FreqRead) (id : Int) :
    m.updateFeedL table read id false =
      UpdateManager.addFeedL table read id
        { m with iQueueArray := removeFromQueues id m.iQueueArray } := by
  simp [UpdateManager.updateFeedL, h]

/-- A feed that is due after a row was changed is that feed, or was due before. -/
theorem isDue_of_update {m : UpdateManager} {table : FeedTable} {id x : Int} {row : Option Int}
    (hne : x ≠ id) (h : m.IsDue (Function.update table id row) x) : m.IsDue table x := by
  obtain ⟨freq, htable, hpos⟩ := h
  rw [Function.update_of_ne hne] at htable
  exact ⟨freq, htable, hpos⟩

theorem ScheduleKept.startL {s s' : Schedule} {allFeedIds : List Int × Option Int}
    (henabled : (ScheduleStep.startL allFeedIds).Enabled s)
    (hmeets : (ScheduleStep.startL allFeedIds).Meets s)
    (hstep : (ScheduleStep.startL allFeedIds).step s = some s') : ScheduleKept s' := by
  obtain ⟨hactive, hqueues, hleave⟩ := hmeets
  obtain ⟨-, hall⟩ := henabled hleave
  have hs' : s' = ⟨{ s.manager with
      iCurrentFeedCount := 0
      iFeedIds := s.manager.iFeedIds ++ allFeedIds.1
      lazyCallerActive := true }, s.table, false⟩ := by
    simp [ScheduleStep.step, UpdateManager.startL, hleave, hactive] at hstep
    exact hstep.symm
  subst hs'
  refine ⟨⟨?_, ?_, ?_, ?_⟩, Nat.zero_le _, ?_, ?_⟩
  · simp [hqueues]
  · simp [hqueues]
  · simp [queuedFeeds, hqueues]
  · simp [hqueues]
  · intro _ id hdue
    obtain ⟨freq, htable, -⟩ := hdue
    have hid : id ∈ allFeedIds.1 := (hall id).2 (by rw [htable]; rfl)
    exact .inr ⟨rfl, by simp [pending, hid]⟩
  · intro h
    cases h

theorem ScheduleKept.lazyCallBack {s s' : Schedule} (hkept : ScheduleKept s)
    {reads : Fin 10 → FreqRead} (henabled : (ScheduleStep.lazyCallBack reads).Enabled s)
    (hmeets : (ScheduleStep.lazyCallBack reads).Meets s)
    (hstep : (ScheduleStep.lazyCallBack reads).step s = some s') : ScheduleKept s' := by
  obtain ⟨horder, hfreq, hbound, hcovered⟩ :=
    loadFeeds_spec (List.ofFn reads) hkept.inOrder hmeets hkept.bound
  obtain rfl := Option.some.inj hstep
  have hdue : ∀ id, UpdateManager.IsDue
      (s.manager.lazyCallBack s.table reads) s.table id → s.manager.IsDue s.table id := by
    rintro id ⟨freq, htable, hpos⟩
    refine ⟨freq, htable, ?_⟩
    change 0 < (loadFeeds s.table (List.ofFn reads) s.manager).2.freqOf freq at hpos
    simp only [UpdateManager.freqOf, hfreq] at hpos
    exact hpos
  refine ⟨⟨horder.frequencies, horder.nonempty, horder.once, horder.right⟩, hbound, ?_, ?_⟩
  · intro _ id hid
    exact hcovered id (hdue id hid)
      ((hkept.covered (.inr henabled) id (hdue id hid)).imp_right And.right)
  · intro hloaded
    simpa using hloaded

theorem ScheduleKept.change {s s' : Schedule} (hkept : ScheduleKept s) {id freq : Int}
    {read : FreqRead} (hmeets : (ScheduleStep.change id freq read).Meets s)
    (hstep : (ScheduleStep.change id freq read).step s = some s') : ScheduleKept s' := by
  obtain rfl := Option.some.inj hstep
  obtain ⟨horder, hmem⟩ := hkept.inOrder.removeFromQueues id (some freq)
  by_cases hactive : s.manager.lazyCallerActive = true
  · -- The feed is queued up behind the ones that are still to be loaded.
    simp only [updateFeedL_of_active hactive]
    have hpending : ∀ x, x ∈ s.manager.pending ∨ x = id →
        x ∈ (s.manager.iFeedIds ++ [id]).drop s.manager.iCurrentFeedCount := by
      intro x hx
      rw [List.drop_append_of_le_length hkept.bound, List.mem_append, List.mem_singleton]
      exact hx
    refine ⟨⟨horder.frequencies, horder.nonempty, horder.once, horder.right⟩, ?_, ?_, ?_⟩
    · have hbound := hkept.bound
      simp only [List.length_append]
      omega
    · intro _ x hdue
      by_cases hx : x = id
      · exact .inr ⟨hactive, hpending x (.inr hx)⟩
      · rcases hkept.covered (.inr hactive) x (isDue_of_update hx hdue) with h | ⟨-, h⟩
        · exact .inl ((hmem x).2 ⟨h, hx⟩)
        · exact .inr ⟨hactive, hpending x (.inl h)⟩
    · intro hloaded
      rw [hkept.finished hloaded] at hactive
      cases hactive
  · have hread := hmeets.resolve_left hactive
    obtain ⟨queues, hadd, horder', hmem'⟩ := horder.addFeedL id hread
      (fun h => by rw [Function.update_self] at h; cases h)
      (fun _ h => ((hmem id).1 h).2 rfl)
    simp only [updateFeedL_of_not_active hactive, hadd]
    refine ⟨⟨horder'.frequencies, horder'.nonempty, horder'.once, horder'.right⟩, hkept.bound,
      ?_, hkept.finished⟩
    intro hloaded x hdue
    left
    by_cases hx : x = id
    · exact (hmem' x).2 (.inr ⟨hx, hx ▸ hdue⟩)
    · rcases hkept.covered hloaded x (isDue_of_update hx hdue) with h | ⟨h, -⟩
      · exact (hmem' x).2 (.inl ((hmem x).2 ⟨h, hx⟩))
      · exact absurd h hactive

theorem ScheduleKept.delete {s s' : Schedule} (hkept : ScheduleKept s) {id : Int}
    {read : FreqRead} (hstep : (ScheduleStep.delete id read).step s = some s') :
    ScheduleKept s' := by
  obtain rfl := Option.some.inj hstep
  obtain ⟨horder, hmem⟩ := hkept.inOrder.removeFromQueues id none
  refine ⟨horder, hkept.bound, ?_, hkept.finished⟩
  intro hloaded x hdue
  have hx : x ≠ id := by
    rintro rfl
    obtain ⟨freq, htable, -⟩ := hdue
    simp at htable
  exact (hkept.covered hloaded x (isDue_of_update hx hdue)).imp_left
    fun h => (hmem x).2 ⟨h, hx⟩

/-- One step that meets the condition. -/
theorem ScheduleKept.step {s s' : Schedule} (hkept : ScheduleKept s) {e : ScheduleStep}
    (henabled : e.Enabled s) (hmeets : e.Meets s) (hstep : e.step s = some s') :
    ScheduleKept s' := by
  cases e with
  | startL allFeedIds => exact .startL henabled hmeets hstep
  | lazyCallBack reads => exact hkept.lazyCallBack henabled hmeets hstep
  | change id freq read => exact hkept.change hmeets hstep
  | delete id read => exact hkept.delete hstep

theorem ScheduleReached.kept {s : Schedule} (h : ScheduleReached (fun s e => e.Meets s) s) :
    ScheduleKept s := by
  induction h with
  | newL aAutoUpdateFreq table =>
    refine ⟨⟨List.nodup_nil, ?_, List.nodup_nil, ?_⟩, Nat.zero_le _, ?_, ?_⟩
    · intro q hq
      cases hq
    · intro q hq
      cases hq
    · rintro (h | h) <;> cases h
    · intro h
      cases h
  | step _ henabled hmeets hstep ih => exact ih.step henabled hmeets hstep

theorem ScheduleKept.scheduled {s : Schedule} (h : ScheduleKept s) (hloaded : s.loaded = true) :
    Scheduled s where
  queued := by
    intro id freq htable hpos
    have hactive := h.finished hloaded
    have hid : id ∈ s.manager.queuedFeeds := by
      rcases h.covered (.inl hloaded) id ⟨freq, htable, hpos⟩ with hid | ⟨hid, -⟩
      · exact hid
      · rw [hactive] at hid
        cases hid
    refine ⟨List.count_eq_one_of_mem h.inOrder.once hid, ?_⟩
    obtain ⟨q, hq, hidq⟩ := List.mem_flatMap.1 hid
    obtain ⟨freq', htable', heq, -⟩ := h.inOrder.right q hq id hidq
    rw [htable] at htable'
    obtain rfl := Option.some.inj htable'
    exact ⟨q, hq, hidq, heq⟩
  deleted := by
    intro id htable q hq hid
    obtain ⟨freq, htable', -⟩ := h.inOrder.right q hq id hid
    rw [htable] at htable'
    cases htable'
  frequencies := h.inOrder.frequencies
  nonempty := h.inOrder.nonempty

/-- Once loading has finished, the schedule is right in every state that steps
meeting the condition lead to. -/
theorem schedule_of_reached {s : Schedule} (h : ScheduleReached (fun s e => e.Meets s) s)
    (hloaded : s.loaded = true) : Scheduled s :=
  h.kept.scheduled hloaded

/-- A read that does not leave. -/
def FreqRead.ok : FreqRead := ⟨none, 0, none, ⟨0, 0, 0, 0⟩⟩

theorem succeeds_ok : FreqRead.ok.Succeeds := ⟨rfl, rfl⟩

/-- A table whose only row is the feed 5, updated every thirty minutes. -/
def oneFeed : FeedTable := Function.update (fun _ => none) 5 (some 30)

/-- The manager that has started to load that table. -/
def Schedule.loading (iFeedIds : List Int) : Schedule :=
  ⟨⟨KWmlSettingsAutomaticUpdatingNotSet, [], iFeedIds, 0, true⟩, oneFeed, false⟩

theorem mem_oneFeed (id : Int) : id ∈ [(5 : Int)] ↔ (oneFeed id).isSome = true := by
  by_cases h : id = 5
  · simp [h, oneFeed]
  · simp [h, oneFeed]

theorem reached_loading {P : Schedule → ScheduleStep → Prop}
    (hP : P ⟨.newL KWmlSettingsAutomaticUpdatingNotSet, oneFeed, false⟩ (.startL ([5], none))) :
    ScheduleReached P (.loading [5]) :=
  .step (.newL KWmlSettingsAutomaticUpdatingNotSet oneFeed) (e := .startL ([5], none))
    (fun _ => ⟨by decide, mem_oneFeed⟩) hP rfl

/-- The feed 5 is loaded into a queue of its own. -/
theorem schedule_of_reached_one :
    Scheduled ⟨⟨KWmlSettingsAutomaticUpdatingNotSet, [⟨30, [5], 0⟩], [], 0, false⟩,
      oneFeed, true⟩ := by
  have hloading : ScheduleReached (fun s e => e.Meets s) (.loading [5]) :=
    reached_loading ⟨rfl, rfl, rfl⟩
  have hloads : (ScheduleStep.lazyCallBack fun _ => .ok).Meets (.loading [5]) := by
    refine ⟨?_, ?_, by decide, ?_⟩
    · intro read hread
      obtain ⟨-, rfl⟩ := (List.mem_ofFn' _ _).1 hread
      exact succeeds_ok
    · decide
    · decide
  have hloaded := ScheduleReached.step hloading (e := .lazyCallBack fun _ => .ok) rfl hloads rfl
  exact schedule_of_reached hloaded rfl

/-- A feed that is changed before its call-back is in its queue twice. -/
theorem not_schedule_of_reached :
    ¬ ∀ s : Schedule, ScheduleReached (fun _ _ => True) s → s.loaded = true → Scheduled s := by
  intro h
  have hloading : ScheduleReached (fun _ _ => True) (.loading [5]) := reached_loading trivial
  have hchanged : ScheduleReached (fun _ _ => True) (.loading [5, 5]) :=
    .step hloading (e := .change 5 30 .ok) trivial trivial (by
      simp [ScheduleStep.step, Schedule.loading, oneFeed, updateFeedL_of_active,
        removeFromQueues])
  have hloaded := ScheduleReached.step hchanged (e := .lazyCallBack fun _ => .ok) rfl trivial rfl
  have hqueued := ((h _ hloaded rfl).queued 5 30 rfl (by decide)).1
  revert hqueued
  decide

end SymbianWeb.Feeds
