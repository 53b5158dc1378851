import SymbianWeb.Feeds.UpdateBatches
import Mathlib.Tactic

/-!
# Which runs finish their batches

A run whose calls all meet `BatchCall.Meets` keeps the list, the update that is
under way and the codes told in step: the list is empty exactly when no update
is under way. From that follow the order in which feeds are started, the one
code for each batch, and that the next `AddFeedL` begins a new one.
-/

namespace SymbianWeb.Feeds

open UpdateAllFeedsTask BatchCall

/-! ## What a run is to keep -/

/-- What is asked of the states of a run. -/
structure Sound (b : Batches) : Prop where
  /-- A feed is started at most once for each request that names it. -/
  started_once : ∀ id, b.task.started.count id ≤ b.requests.countP (id ∈ ·)
  /-- The feeds put into the list are started in the order of the list. -/
  in_order : b.queued = b.task.started ++ b.task.waiting
  /-- When nothing is under way, no feed is left, unless the batch was stopped. -/
  none_skipped : b.fresh = false → ¬ b.task.Running →
    b.task.waiting = [] ∨ ∃ code, b.task.told.getLast? = some code ∧ Fatal code
  /-- The observer was told one code for each batch that is over. -/
  told_once : b.opened = b.task.told.length + if b.task.Running then 1 else 0
  /-- When nothing is under way, `AddFeedL` starts its feeds. -/
  restarts : ¬ b.task.Running → ∀ id rest answers,
    (BatchCall.addFeedL (id :: rest) answers).Enabled b → 0 < id → StartsFrom answers 0 →
    ∃ b', (BatchCall.addFeedL (id :: rest) answers).Returns b b' ∧
      b'.task.iUpdateFeedTask = some ⟨id, true⟩

/-- Whatever fuel makes the call come back, it comes back normally with `t'`. -/
def Determined (call : Nat → Option (Except Stop Unit × UpdateAllFeedsTask))
    (t' : UpdateAllFeedsTask) : Prop :=
  (∃ fuel, call fuel = some (.ok (), t')) ∧ ∀ fuel r, call fuel = some r → r = (.ok (), t')

theorem determined_of_forall {call : Nat → Option (Except Stop Unit × UpdateAllFeedsTask)}
    {t' : UpdateAllFeedsTask} (h : ∀ fuel, call fuel = some (.ok (), t')) :
    Determined call t' := by
  refine ⟨⟨0, h 0⟩, ?_⟩
  intro fuel r hr
  rw [h fuel] at hr
  exact (Option.some.inj hr).symm

theorem determined_updateNextFeedL {answers : Nat → Attempt} {t : UpdateAllFeedsTask}
    (hserves : Serves answers t.iFeedIds) (hindex : t.iNextFeedIndex = 0) :
    Determined (fun fuel => updateNextFeedL answers fuel 0 t) t.next :=
  ⟨updateNextFeedL_returns hserves hindex, fun _ _ => updateNextFeedL_eq hserves hindex⟩

/-- The trap has nothing to do when the loop comes back normally. -/
theorem Determined.map_tellLeave {call : Nat → Option (Except Stop Unit × UpdateAllFeedsTask)}
    {t' : UpdateAllFeedsTask} (h : Determined call t') :
    Determined (fun fuel => (call fuel).map tellLeave) t' := by
  constructor
  · obtain ⟨fuel, hfuel⟩ := h.1
    exact ⟨fuel, congrArg (Option.map tellLeave) hfuel⟩
  · intro fuel r hr
    obtain ⟨result, hresult, rfl⟩ := Option.map_eq_some_iff.1 hr
    obtain rfl := h.2 fuel result hresult
    rfl

theorem Determined.returns {b : Batches} {e : BatchCall} {t' : UpdateAllFeedsTask}
    (h : Determined (fun fuel => e.call fuel b.task) t') : e.Returns b (after b e t') := by
  obtain ⟨fuel, hfuel⟩ := h.1
  exact ⟨fuel, .ok (), t', hfuel, .inl rfl, rfl⟩

theorem Determined.eq_after {b b' : Batches} {e : BatchCall} {t' : UpdateAllFeedsTask}
    (h : Determined (fun fuel => e.call fuel b.task) t') (hr : e.Returns b b') :
    b' = after b e t' := by
  obtain ⟨fuel, out, t'', hcall, -, rfl⟩ := hr
  have := h.2 fuel _ hcall
  simp only [Prod.mk.injEq] at this
  rw [this.2]

/-! ## The feeds that `AddFeedL` appends -/

/-- The loop of `AddFeedL` appends distinct ids, each of them from its argument
and not in the list before, and has its whole argument in the list in the end. -/
theorem foldl_appendNew (aFeedIds l : List Int) :
    ∃ new, aFeedIds.foldl appendNew l = l ++ new ∧ new.Nodup ∧
      (∀ id ∈ new, id ∈ aFeedIds ∧ id ∉ l) ∧ ∀ id ∈ aFeedIds, id ∈ l ++ new := by
  induction aFeedIds generalizing l with
  | nil => exact ⟨[], by simp⟩
  | cons id rest ih =>
    by_cases hid : id ∈ l
    · obtain ⟨new, hfold, hnodup, hsub, hall⟩ := ih l
      refine ⟨new, by simpa [appendNew, hid] using hfold, hnodup, ?_, ?_⟩
      · intro x hx
        exact ⟨List.mem_cons_of_mem _ (hsub x hx).1, (hsub x hx).2⟩
      · intro x hx
        rcases List.mem_cons.1 hx with rfl | hx
        · exact List.mem_append_left _ hid
        · exact hall x hx
    · obtain ⟨new, hfold, hnodup, hsub, hall⟩ := ih (l ++ [id])
      refine ⟨id :: new, by simpa [appendNew, hid] using hfold, ?_, ?_, ?_⟩
      · exact List.nodup_cons.2 ⟨fun h => (hsub id h).2 (by simp), hnodup⟩
      · intro x hx
        rcases List.mem_cons.1 hx with rfl | hx
        · exact ⟨List.mem_cons_self, hid⟩
        · exact ⟨List.mem_cons_of_mem _ (hsub x hx).1, fun h => (hsub x hx).2 (by simp [h])⟩
      · intro x hx
        rcases List.mem_cons.1 hx with rfl | hx
        · simp
        · simpa using hall x hx

/-- On an empty list the first id of the argument comes first. -/
theorem foldl_appendNew_cons (id : Int) (rest : List Int) :
    ∃ new, (id :: rest).foldl appendNew [] = id :: new := by
  obtain ⟨new, hfold, -⟩ := foldl_appendNew rest [id]
  exact ⟨new, by simpa [appendNew] using hfold⟩

theorem serves_foldl_appendNew {answers : Nat → Attempt} {aFeedIds : List Int}
    (h : Serves answers aFeedIds) : Serves answers (aFeedIds.foldl appendNew []) := by
  cases aFeedIds with
  | nil => exact h
  | cons id rest =>
    obtain ⟨new, hnew⟩ := foldl_appendNew_cons id rest
    rw [hnew]
    exact h

/-- The selection has no id twice. -/
theorem foldl_insertInOrder (aFeedIds l : List Int) (hl : l.Nodup) :
    (aFeedIds.foldl insertInOrder l).Nodup ∧
      ∀ id ∈ aFeedIds.foldl insertInOrder l, id ∈ l ∨ id ∈ aFeedIds := by
  induction aFeedIds generalizing l with
  | nil => exact ⟨hl, fun id h => .inl h⟩
  | cons id rest ih =>
    have hinsert : (insertInOrder l id).Nodup ∧ ∀ x ∈ insertInOrder l id, x = id ∨ x ∈ l := by
      by_cases hid : id ∈ l
      · simp only [insertInOrder, hid, if_true]
        exact ⟨hl, fun x h => .inr h⟩
      · simp only [insertInOrder, hid, if_false]
        refine ⟨(List.perm_orderedInsert _ id l).nodup_iff.2 (List.nodup_cons.2 ⟨hid, hl⟩), ?_⟩
        intro x hx
        simpa using hx
    obtain ⟨hnodup, hsub⟩ := ih (insertInOrder l id) hinsert.1
    refine ⟨hnodup, ?_⟩
    intro x hx
    rcases hsub x hx with h | h
    · rcases hinsert.2 x h with rfl | h
      · exact .inr List.mem_cons_self
      · exact .inl h
    · exact .inr (List.mem_cons_of_mem _ h)

/-- Distinct ids from a request count once against it. -/
theorem count_le_of_subset {new request : List Int} (hnodup : new.Nodup)
    (hsub : ∀ id ∈ new, id ∈ request) (id : Int) :
    new.count id ≤ [request].countP (id ∈ ·) := by
  by_cases h : id ∈ new
  · rw [List.count_eq_one_of_mem hnodup h]
    simp [hsub id h]
  · simp [List.count_eq_zero.2 h]

/-! ## The invariant -/

/-- Either nothing is under way and the list is empty, or its first feed is
being updated. A task that was given a selection starts with it in the list. -/
inductive Phase (b : Batches) : Prop where
  | idle : b.task.iUpdateFeedTask = none →
      b.task.iFeedIds = [] ∨ (b.fresh = true ∧ b.task.iSelected = true) → Phase b
  | updating {id : Int} {rest : List Int} : b.task.iUpdateFeedTask = some ⟨id, true⟩ →
      b.task.iFeedIds = id :: rest → b.fresh = false → Phase b

/-- What every call that meets the condition keeps. -/
structure Kept (b : Batches) : Prop where
  index : b.task.iNextFeedIndex = 0
  phase : Phase b
  in_order : b.queued = b.task.started ++ b.task.waiting
  requested : ∀ id, b.queued.count id ≤ b.requests.countP (id ∈ ·)
  told_once : b.opened = b.task.told.length + if b.task.Running then 1 else 0

theorem running_of_eq {t : UpdateAllFeedsTask} {id : Int}
    (h : t.iUpdateFeedTask = some ⟨id, true⟩) : t.Running := ⟨id, h⟩

theorem not_running_of_eq {t : UpdateAllFeedsTask} (h : t.iUpdateFeedTask = none) :
    ¬ t.Running := by
  rintro ⟨id, hid⟩
  rw [h] at hid
  cases hid

/-- Between two updates of a batch: nothing is under way, and the observer was
not told yet. -/
structure Between (b : Batches) : Prop where
  index : b.task.iNextFeedIndex = 0
  noTask : b.task.iUpdateFeedTask = none
  stale : b.fresh = false
  in_order : b.queued = b.task.started ++ b.task.iFeedIds
  requested : ∀ id, b.queued.count id ≤ b.requests.countP (id ∈ ·)
  opened : b.opened = b.task.told.length + 1

/-- Telling the observer ends a batch that has no feed left. -/
theorem Between.told {b : Batches} (h : Between b) (hempty : b.task.iFeedIds = [])
    (aStatusCode : Int) :
    Kept { b with task := b.task.updateAllFeedsCompleted aStatusCode } := by
  have hidle : ¬ (b.task.updateAllFeedsCompleted aStatusCode).Running := not_running_of_eq h.noTask
  refine ⟨h.index, .idle h.noTask (.inl hempty), ?_, h.requested, ?_⟩
  · simp only [waiting, hidle, if_false]
    exact h.in_order
  · simp only [hidle, if_false]
    simp [updateAllFeedsCompleted, h.opened]

/-- The loop starts the next feed or ends the batch. -/
theorem Between.next {b : Batches} (h : Between b) : Kept { b with task := b.task.next } := by
  cases hlist : b.task.iFeedIds with
  | nil =>
    have hnext : b.task.next = b.task.updateAllFeedsCompleted KErrNone := by
      simp only [UpdateAllFeedsTask.next, hlist]
    rw [hnext]
    exact h.told hlist KErrNone
  | cons id rest =>
    have hnext := next_cons hlist
    have hrunning : b.task.next.Running := ⟨id, by rw [hnext]⟩
    refine ⟨?_, @Phase.updating _ id rest ?_ ?_ h.stale, ?_, h.requested, ?_⟩
    · simpa only [hnext] using h.index
    · simp only [hnext]
    · simpa only [hnext] using hlist
    · have horder := h.in_order
      rw [hlist] at horder
      simp only [waiting, hrunning, if_true]
      simp [hnext, hlist, horder]
    · simp only [hrunning, if_true]
      simpa only [hnext] using h.opened

/-! ## One call -/

/-- What a call that meets the condition comes to. -/
def Keeps (b : Batches) (e : BatchCall) : Prop :=
  ∃ t', Determined (fun fuel => e.call fuel b.task) t' ∧ Kept (after b e t')

theorem Keeps.startTaskL {b : Batches} (hkept : Kept b) {space : Except Int Bool}
    {allFeedIds : List Int × Option Int} {answers : Nat → Attempt}
    (henabled : (BatchCall.startTaskL space allFeedIds answers).Enabled b)
    (hmeets : (BatchCall.startTaskL space allFeedIds answers).Meets b) :
    Keeps b (BatchCall.startTaskL space allFeedIds answers) := by
  obtain ⟨hfresh, hnodup⟩ := henabled
  have hnone : b.task.iUpdateFeedTask = none := by
    cases hkept.phase with
    | idle hnone _ => exact hnone
    | updating _ _ hstale => rw [hfresh] at hstale; cases hstale
  have hidle := not_running_of_eq hnone
  have horder : b.queued = b.task.started ++ b.task.iFeedIds := by
    simpa [waiting, hidle] using hkept.in_order
  have hopened : b.opened = b.task.told.length := by
    simpa [hidle] using hkept.told_once
  cases space with
  | error code => exact hmeets.elim
  | ok isSpace =>
    cases isSpace with
    | false =>
      -- No space: the observer is told at once, and there must be no feed to leave behind.
      refine ⟨b.task.updateAllFeedsCompleted KErrNoMemory, determined_of_forall fun _ => rfl, ?_⟩
      have hbetween : Between (after b (.startTaskL (.ok false) allFeedIds answers) b.task) := by
        refine ⟨hkept.index, hnone, rfl, ?_, ?_, ?_⟩
        · simpa [after, newlyQueued] using horder
        · simpa [after, newlyQueued, request] using hkept.requested
        · simp [after, opens, hopened]
      exact hbetween.told hmeets KErrNoMemory
    | true =>
      by_cases hselected : b.task.iSelected = true
      · simp only [Meets, hselected, if_true] at hmeets
        refine ⟨b.task.next, ?_, ?_⟩
        · simpa only [call, UpdateAllFeedsTask.startTaskL, hselected, if_true] using
            determined_updateNextFeedL hmeets hkept.index
        · have hbetween : Between (after b (.startTaskL (.ok true) allFeedIds answers) b.task) := by
            refine ⟨hkept.index, hnone, rfl, ?_, ?_, ?_⟩
            · simpa [after, newlyQueued, hselected] using horder
            · simpa [after, newlyQueued, request, hselected] using hkept.requested
            · simp [after, opens, hopened]
          exact hbetween.next
      · simp only [Meets, hselected] at hmeets
        obtain ⟨hall, hserves⟩ := hmeets
        let t : UpdateAllFeedsTask := { b.task with iFeedIds := b.task.iFeedIds ++ allFeedIds.1 }
        refine ⟨t.next, ?_, ?_⟩
        · have hcall : ∀ fuel, (BatchCall.startTaskL (.ok true) allFeedIds answers).call fuel b.task =
              updateNextFeedL answers fuel 0 t := by
            intro fuel
            simp only [call, UpdateAllFeedsTask.startTaskL, hselected, hall, t]
            rfl
          simpa only [hcall] using determined_updateNextFeedL (t := t) hserves hkept.index
        · have hbetween : Between (after b (.startTaskL (.ok true) allFeedIds answers) t) := by
            refine ⟨hkept.index, hnone, rfl, ?_, ?_, ?_⟩
            · simp [after, newlyQueued, hselected, horder, t]
            · intro id
              have hcount := count_le_of_subset hnodup (fun _ h => h) id
              have hbefore := hkept.requested id
              simp only [after, newlyQueued, request, hselected, List.count_append,
                List.countP_append]
              exact Nat.add_le_add hbefore hcount
            · simp [after, opens, hopened, t]
          exact hbetween.next

theorem Keeps.completed {b : Batches} (hkept : Kept b) {aStatusCode : Int}
    {answers : Nat → Attempt} (henabled : (BatchCall.completed aStatusCode answers).Enabled b)
    (hmeets : (BatchCall.completed aStatusCode answers).Meets b) :
    Keeps b (BatchCall.completed aStatusCode answers) := by
  cases hkept.phase with
  | idle hnone _ => exact absurd henabled (not_running_of_eq hnone)
  | @updating id rest htask hlist hstale =>
    have hrunning := running_of_eq htask
    -- The feed that was updated leaves the list.
    let t : UpdateAllFeedsTask := { b.task with iUpdateFeedTask := none, iFeedIds := rest }
    have hbetween : Between (after b (.completed aStatusCode answers) t) := by
      refine ⟨hkept.index, rfl, rfl, ?_, ?_, ?_⟩
      · simpa [after, newlyQueued, waiting, hrunning, hlist, t] using hkept.in_order
      · simpa [after, newlyQueued, request] using hkept.requested
      · simpa [after, opens, hrunning, t] using hkept.told_once
    simp only [Meets, hlist, List.drop_one, List.tail_cons] at hmeets
    by_cases hfatal : Fatal aStatusCode
    · simp only [hfatal, if_true] at hmeets
      refine ⟨t.updateAllFeedsCompleted aStatusCode, ?_, hbetween.told hmeets aStatusCode⟩
      refine determined_of_forall fun fuel => ?_
      simp [call, UpdateAllFeedsTask.completed, hkept.index, hlist, hfatal, t]
    · simp only [hfatal, if_false] at hmeets
      refine ⟨t.next, ?_, hbetween.next⟩
      have hloop := determined_updateNextFeedL (t := t) hmeets hkept.index
      have hcall : ∀ fuel, (BatchCall.completed aStatusCode answers).call fuel b.task =
          (updateNextFeedL answers fuel 0 t).map tellLeave := by
        intro fuel
        simp [call, UpdateAllFeedsTask.completed, hkept.index, hlist, hfatal, t]
      simp only [hcall]
      exact hloop.map_tellLeave

/-- With an empty list `AddFeedL` begins a batch of the distinct ids of its
argument. -/
theorem determined_addFeedL {t : UpdateAllFeedsTask} (hindex : t.iNextFeedIndex = 0)
    (hlist : t.iFeedIds = []) {aFeedIds : List Int} {answers : Nat → Attempt}
    (hserves : Serves answers aFeedIds) :
    Determined (t.addFeedL aFeedIds answers)
      { t with iFeedIds := aFeedIds.foldl appendNew [] }.next := by
  have hloop := determined_updateNextFeedL
    (t := { t with iFeedIds := aFeedIds.foldl appendNew [] }) (serves_foldl_appendNew hserves) hindex
  have hcall : t.addFeedL aFeedIds answers = fun fuel =>
      updateNextFeedL answers fuel 0 { t with iFeedIds := aFeedIds.foldl appendNew [] } := by
    funext fuel
    simp [UpdateAllFeedsTask.addFeedL, hlist, ← hindex]
  rw [hcall]
  exact hloop

/-- When nothing is under way, the list is empty for a call of `AddFeedL`. -/
theorem Kept.list_empty {b : Batches} (hkept : Kept b) (hidle : ¬ b.task.Running)
    {aFeedIds : List Int} {answers : Nat → Attempt}
    (henabled : (BatchCall.addFeedL aFeedIds answers).Enabled b) :
    b.task.iUpdateFeedTask = none ∧ b.task.iFeedIds = [] := by
  cases hkept.phase with
  | updating htask _ _ => exact absurd (running_of_eq htask) hidle
  | idle hnone hempty =>
    refine ⟨hnone, ?_⟩
    rcases hempty with h | ⟨hfresh, hselected⟩
    · exact h
    · rcases henabled with h | h
      · rw [hfresh] at h; cases h
      · rw [hselected] at h; cases h

theorem Keeps.addFeedL {b : Batches} (hkept : Kept b) {aFeedIds : List Int}
    {answers : Nat → Attempt} (henabled : (BatchCall.addFeedL aFeedIds answers).Enabled b)
    (hmeets : (BatchCall.addFeedL aFeedIds answers).Meets b) :
    Keeps b (BatchCall.addFeedL aFeedIds answers) := by
  obtain ⟨new, hfold, hnodup, hsub, -⟩ := foldl_appendNew aFeedIds b.task.iFeedIds
  let t : UpdateAllFeedsTask := { b.task with iFeedIds := b.task.iFeedIds ++ new }
  have hrequested : ∀ id, (b.queued ++ new).count id ≤
      (b.requests ++ [aFeedIds]).countP (id ∈ ·) := by
    intro id
    rw [List.count_append, List.countP_append]
    exact Nat.add_le_add (hkept.requested id)
      (count_le_of_subset hnodup (fun x hx => (hsub x hx).1) id)
  have hnew : (BatchCall.addFeedL aFeedIds answers).newlyQueued b.task = new := by
    simp [newlyQueued, hfold]
  by_cases hrunning : b.task.Running
  · -- A batch is under way, and the new feeds are put behind its feeds.
    cases hkept.phase with
    | idle hnone _ => exact absurd hrunning (not_running_of_eq hnone)
    | @updating id rest htask hlist hstale =>
      have hrunning' : t.Running := running_of_eq htask
      refine ⟨t, determined_of_forall fun fuel => ?_, ?_⟩
      · simp only [call, UpdateAllFeedsTask.addFeedL, hfold]
        simp [hlist, t]
      · refine ⟨hkept.index, @Phase.updating _ id (rest ++ new) htask ?_ rfl, ?_, ?_, ?_⟩
        · simp [after, hlist, t]
        · have horder := hkept.in_order
          simp only [waiting, hrunning, if_true] at horder
          simp only [after, hnew, waiting, hrunning', if_true, horder]
          simp [hlist, t]
        · simpa only [after, hnew, request, Option.toList_some] using hrequested
        · have htold := hkept.told_once
          simp only [hrunning, if_true] at htold
          simp only [after, opens, hrunning, hrunning', if_true, Nat.add_zero]
          exact htold
  · obtain ⟨hnone, hlist⟩ := hkept.list_empty hrunning henabled
    have ht : { b.task with iFeedIds := aFeedIds.foldl appendNew [] } = t := by
      rw [hlist] at hfold
      simp [t, hlist, hfold]
    refine ⟨t.next, ?_, ?_⟩
    · rw [← ht]
      exact determined_addFeedL hkept.index hlist (hmeets hlist)
    · have hbetween : Between (after b (.addFeedL aFeedIds answers) t) := by
        refine ⟨hkept.index, hnone, rfl, ?_, ?_, ?_⟩
        · have horder := hkept.in_order
          simp only [waiting, hrunning, if_false, hlist] at horder
          simp [after, hnew, horder, hlist, t]
        · simpa only [after, hnew, request, Option.toList_some] using hrequested
        · have htold := hkept.told_once
          simp only [hrunning, if_false] at htold
          simp [after, opens, hrunning, htold, t]
      exact hbetween.next

/-- One call that meets the condition. -/
theorem Kept.call {b : Batches} (hkept : Kept b) {e : BatchCall} (henabled : e.Enabled b)
    (hmeets : e.Meets b) : Keeps b e := by
  cases e with
  | startTaskL space allFeedIds answers => exact Keeps.startTaskL hkept henabled hmeets
  | completed aStatusCode answers => exact Keeps.completed hkept henabled hmeets
  | addFeedL aFeedIds answers => exact Keeps.addFeedL hkept henabled hmeets

/-! ## Whole runs -/

theorem kept_ofFolderList : Kept .ofFolderList := by
  refine ⟨rfl, .idle rfl (.inl rfl), rfl, ?_, rfl⟩
  intro id
  simp [Batches.ofFolderList]

theorem kept_ofSelection (aFeedIds : List Int) : Kept (.ofSelection aFeedIds) := by
  have hidle : ¬ (newSelectedL aFeedIds).Running := not_running_of_eq rfl
  refine ⟨rfl, .idle rfl (.inr ⟨rfl, rfl⟩), ?_, ?_, ?_⟩
  · simp only [Batches.ofSelection, waiting, hidle, if_false]
    rfl
  · obtain ⟨hnodup, hsub⟩ := foldl_insertInOrder aFeedIds [] List.nodup_nil
    intro id
    refine count_le_of_subset hnodup ?_ id
    intro x hx
    simpa using hsub x hx
  · simp only [Batches.ofSelection, hidle, if_false]
    rfl

/-- Every run whose calls meet the condition keeps the invariant. -/
theorem BatchReached.kept {b : Batches}
    (h : BatchReached (fun b e => e.Meets b) b) : Kept b := by
  induction h with
  | ofFolderList => exact kept_ofFolderList
  | ofSelection aFeedIds => exact kept_ofSelection aFeedIds
  | call _ henabled hmeets hreturns ih =>
    obtain ⟨t', hdetermined, hkept⟩ := ih.call henabled hmeets
    rw [hdetermined.eq_after hreturns]
    exact hkept

theorem Kept.restarts {b : Batches} (h : Kept b) (hidle : ¬ b.task.Running) {id : Int}
    {rest : List Int} {answers : Nat → Attempt}
    (henabled : (BatchCall.addFeedL (id :: rest) answers).Enabled b) (hpos : 0 < id)
    (hstarts : StartsFrom answers 0) :
    ∃ b', (BatchCall.addFeedL (id :: rest) answers).Returns b b' ∧
      b'.task.iUpdateFeedTask = some ⟨id, true⟩ := by
  have hlist := (h.list_empty hidle henabled).2
  have hserves : Serves answers (id :: rest) := ⟨hpos, hstarts⟩
  have hcall := determined_addFeedL h.index hlist hserves
  refine ⟨_, Determined.returns (e := .addFeedL (id :: rest) answers) hcall, ?_⟩
  obtain ⟨new, hnew⟩ := foldl_appendNew_cons id rest
  simp only [after, next, hnew]

theorem Kept.sound {b : Batches} (h : Kept b) : Sound b where
  started_once := by
    intro id
    have hrequested := h.requested id
    rw [h.in_order, List.count_append] at hrequested
    omega
  in_order := h.in_order
  none_skipped := by
    intro hstale hidle
    cases h.phase with
    | idle hnone hempty =>
      left
      rcases hempty with hempty | ⟨hfresh, -⟩
      · simp [waiting, hidle, hempty]
      · rw [hstale] at hfresh; cases hfresh
    | updating htask _ _ => exact absurd (running_of_eq htask) hidle
  told_once := h.told_once
  restarts := fun hidle _ _ _ henabled hpos hstarts => h.restarts hidle henabled hpos hstarts

/-- In every state that calls meeting the condition lead to, the batches are
sound, and every further such call comes back. -/
theorem batches_sound {b : Batches} (h : BatchReached (fun b e => e.Meets b) b) :
    Sound b ∧ ∀ e : BatchCall, e.Enabled b → e.Meets b → ∃ b', e.Returns b b' := by
  refine ⟨h.kept.sound, ?_⟩
  intro e henabled hmeets
  obtain ⟨t', hdetermined, -⟩ := h.kept.call henabled hmeets
  exact ⟨_, hdetermined.returns⟩

/-- An update that starts at once. -/
def Attempt.ok : Attempt := ⟨.ok true, none, KErrNone, none⟩

/-- A feed whose address has a scheme that no handler takes: `StartTaskL` leaves
with `KErrBadName`, whenever it is called. -/
def Attempt.badName : Attempt := ⟨.ok true, none, -28, none⟩

theorem started_ok : Attempt.ok.Started := ⟨rfl, rfl, rfl⟩

theorem refused_badName : Attempt.badName.Refused :=
  ⟨rfl, rfl, by decide, .inr rfl⟩

/-- A run of two calls: the feeds 5 and 7 are handed over, the first is refused
once and then started, and 5 completes with a network error. -/
theorem batches_sound_two :
    Sound ⟨⟨[7], 0, some ⟨7, true⟩, false, [5, 7], []⟩, false, [[5, 7, 5]], [5, 7], 1⟩ := by
  let answers : Nat → Attempt := fun turn => if turn = 0 then .badName else .ok
  have hanswers : StartsFrom answers 0 := .refused refused_badName (.started started_ok)
  have hfirst : BatchReached (fun b e => e.Meets b)
      ⟨⟨[5, 7], 0, some ⟨5, true⟩, false, [5], []⟩, false, [[5, 7, 5]], [5, 7], 1⟩ :=
    .call .ofFolderList (e := .addFeedL [5, 7, 5] answers) (.inr rfl)
      (fun _ => ⟨by decide, hanswers⟩) ⟨2, .ok (), _, rfl, .inl rfl, rfl⟩
  have hmeets : (BatchCall.completed (-33) fun _ => .ok).Meets
      ⟨⟨[5, 7], 0, some ⟨5, true⟩, false, [5], []⟩, false, [[5, 7, 5]], [5, 7], 1⟩ := by
    have hfatal : ¬ Fatal (-33) := by decide
    simp only [Meets, hfatal, if_false]
    exact ⟨by decide, .started started_ok⟩
  have hsecond : BatchReached (fun b e => e.Meets b)
      ⟨⟨[7], 0, some ⟨7, true⟩, false, [5, 7], []⟩, false, [[5, 7, 5]], [5, 7], 1⟩ :=
    .call hfirst (e := .completed (-33) fun _ => .ok) ⟨5, rfl⟩ hmeets ⟨1, .ok (), _, rfl, .inl rfl, rfl⟩
  exact (batches_sound hsecond).1

/-- A feed that can never be started keeps `AddFeedL` from coming back. -/
theorem not_batches_sound :
    ¬ ∀ b : Batches, BatchReached (fun _ _ => True) b →
      Sound b ∧ ∀ e : BatchCall, e.Enabled b → ∃ b', e.Returns b b' := by
  intro h
  obtain ⟨-, hreturns⟩ := h .ofFolderList .ofFolderList
  obtain ⟨b', fuel, out, t', hcall, -⟩ :=
    hreturns (.addFeedL [5] fun _ => .badName) (.inr rfl)
  have hnone : updateNextFeedL (fun _ => .badName) fuel 0 ⟨[5], 0, none, false, [], []⟩ = none :=
    updateNextFeedL_eq_none_of_refused (fun _ => refused_badName) rfl fuel 0
  have hloop : (BatchCall.addFeedL [5] fun _ => .badName).call fuel Batches.ofFolderList.task =
      updateNextFeedL (fun _ => .badName) fuel 0 ⟨[5], 0, none, false, [], []⟩ := rfl
  rw [hloop, hnone] at hcall
  cases hcall

/-! ## The queues that hand feeds over -/

/-- What `CUpdateQueue::UpdateL` does to the task is one `AddFeedL` call with the
queue's feeds when the queue is due, and nothing otherwise. -/
theorem updateL_task {q : UpdateQueue} {currentTime now : HomeTime} {answers : Nat → Attempt}
    {fuel : Nat} {t : UpdateAllFeedsTask} :
    (q.updateL currentTime now answers fuel t).map (fun r => r.2.2) =
      if q.Due currentTime then (t.addFeedL q.iFeedIds answers fuel).map Prod.snd else some t := by
  by_cases hdue : q.Due currentTime
  · simp only [UpdateQueue.updateL, hdue, if_true]
    rcases t.addFeedL q.iFeedIds answers fuel with _ | ⟨stop | _, t'⟩ <;> rfl
  · simp only [UpdateQueue.updateL, hdue, if_false]
    rfl

end SymbianWeb.Feeds
