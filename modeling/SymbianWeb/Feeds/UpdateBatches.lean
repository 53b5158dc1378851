import SymbianWeb.Feeds.UpdateAllFeeds

/-!
# Runs of the update task

A run starts with a new `CUpdateAllFeedsTask` and makes `StartTaskL`,
`Completed` and `AddFeedL` calls in any order in which the program can make
them. Beside the task, a run keeps what was asked of it: the requests, the feeds
they put into the list, and the batches they opened.

A batch is over for the list when the list is empty, and for the observer when
it was told a code. The two agree as long as every batch runs to the end of its
list. They part where the loop cannot start a feed and where a batch stops with
feeds left.
-/

namespace SymbianWeb.Feeds

open UpdateAllFeedsTask

/-- A task in a run, and what was asked of it. -/
structure Batches where
  task : UpdateAllFeedsTask
  /-- No call was made yet. -/
  fresh : Bool
  requests : List (List Int)
  queued : List Int
  opened : Nat
  deriving DecidableEq, Repr

/-- A task for a folder list. -/
def Batches.ofFolderList : Batches := ⟨.newL, true, [], [], 0⟩

/-- A task for selected feeds. The selection is its first request. -/
def Batches.ofSelection (aFeedIds : List Int) : Batches :=
  ⟨.newSelectedL aFeedIds, true, [aFeedIds], (newSelectedL aFeedIds).iFeedIds, 0⟩

/-- The calls that are made of the task, each with the answers it gets. -/
inductive BatchCall where
  | startTaskL (space : Except Int Bool) (allFeedIds : List Int × Option Int)
      (answers : Nat → Attempt)
  | completed (aStatusCode : Int) (answers : Nat → Attempt)
  | addFeedL (aFeedIds : List Int) (answers : Nat → Attempt)

namespace BatchCall

/-- When the program makes a call. `StartTaskL` is the first call of a task, and
the first call of a task for selected feeds is `StartTaskL`; the feed table has
one row for each feed id; `Completed` is called by an update that was started. -/
def Enabled (b : Batches) : BatchCall → Prop
  | startTaskL _ allFeedIds _ => b.fresh = true ∧ allFeedIds.1.Nodup
  | completed _ _ => b.task.Running
  | addFeedL _ _ => b.fresh = false ∨ b.task.iSelected = false

/-- The call itself. -/
def call (fuel : Nat) (t : UpdateAllFeedsTask) :
    BatchCall → Option (Except Stop Unit × UpdateAllFeedsTask)
  | startTaskL space allFeedIds answers => t.startTaskL space allFeedIds answers fuel
  | completed aStatusCode answers => t.completed aStatusCode answers fuel
  | addFeedL aFeedIds answers => t.addFeedL aFeedIds answers fuel

/-- The feeds that a call asks for. -/
def request (t : UpdateAllFeedsTask) : BatchCall → Option (List Int)
  | startTaskL (.ok true) allFeedIds _ => if t.iSelected then none else some allFeedIds.1
  | startTaskL _ _ _ => none
  | completed _ _ => none
  | addFeedL aFeedIds _ => some aFeedIds

/-- The feeds that a call puts into the list. -/
def newlyQueued (t : UpdateAllFeedsTask) : BatchCall → List Int
  | startTaskL (.ok true) allFeedIds _ => if t.iSelected then [] else allFeedIds.1
  | startTaskL _ _ _ => []
  | completed _ _ => []
  | addFeedL aFeedIds _ => (aFeedIds.foldl appendNew t.iFeedIds).drop t.iFeedIds.length

/-- A call opens a batch when it asks for updates and none is under way. -/
def opens (t : UpdateAllFeedsTask) : BatchCall → Nat
  | startTaskL _ _ _ => 1
  | completed _ _ => 0
  | addFeedL _ _ => if t.Running then 0 else 1

/-- The run after a call that left the task `t'`. -/
def after (b : Batches) (e : BatchCall) (t' : UpdateAllFeedsTask) : Batches :=
  ⟨t', false, b.requests ++ (e.request b.task).toList, b.queued ++ e.newlyQueued b.task,
    b.opened + e.opens b.task⟩

/-- The call comes back, normally or with a leave. -/
def Returns (b : Batches) (e : BatchCall) (b' : Batches) : Prop :=
  ∃ fuel out t', e.call fuel b.task = some (out, t') ∧
    (out = .ok () ∨ ∃ code, out = .error (.leave code)) ∧ b' = after b e t'

end BatchCall

open BatchCall

/-- The states that calls satisfying `P` lead to. -/
inductive BatchReached (P : Batches → BatchCall → Prop) : Batches → Prop where
  | ofFolderList : BatchReached P .ofFolderList
  | ofSelection (aFeedIds : List Int) : BatchReached P (.ofSelection aFeedIds)
  | call {b b' : Batches} {e : BatchCall} : BatchReached P b → e.Enabled b → P b e →
      e.Returns b b' → BatchReached P b'

/-! ## What the answers do -/

/-- The turn starts the update. -/
def Attempt.Started (a : Attempt) : Prop :=
  a.urlFromFeedIdL = .ok true ∧ a.newL = none ∧ a.startTaskL = KErrNone

/-- The turn is refused by the trapped `StartTaskL`, and the loop goes on. -/
def Attempt.Refused (a : Attempt) : Prop :=
  a.urlFromFeedIdL = .ok true ∧ a.newL = none ∧ a.startTaskL ≠ KErrNone ∧
    (Fatal a.startTaskL ∨ a.updateFeedStatusL = none)

/-- From the turn `turn` on, finitely many refusals and then a start. -/
inductive StartsFrom (answers : Nat → Attempt) : Nat → Prop where
  | started {turn : Nat} : (answers turn).Started → StartsFrom answers turn
  | refused {turn : Nat} : (answers turn).Refused → StartsFrom answers (turn + 1) →
      StartsFrom answers turn

/-- The loop gets the first feed of the list started, or there is none. -/
def Serves (answers : Nat → Attempt) : List Int → Prop
  | [] => True
  | id :: _ => 0 < id ∧ StartsFrom answers 0

/-- The condition on a call: it gets the first feed of the list it works on
started, no batch is stopped while feeds are left, and nothing else leaves. -/
def BatchCall.Meets (b : Batches) : BatchCall → Prop
  | .startTaskL (.error _) _ _ => False
  | .startTaskL (.ok false) _ _ => b.task.iFeedIds = []
  | .startTaskL (.ok true) allFeedIds answers =>
      if b.task.iSelected then Serves answers b.task.iFeedIds
      else allFeedIds.2 = none ∧ Serves answers (b.task.iFeedIds ++ allFeedIds.1)
  | .completed aStatusCode answers =>
      if Fatal aStatusCode then b.task.iFeedIds.drop 1 = []
      else Serves answers (b.task.iFeedIds.drop 1)
  | .addFeedL aFeedIds answers => b.task.iFeedIds = [] → Serves answers aFeedIds

/-! ## The loop -/

theorem startNextL_of_started {a : Attempt} (h : a.Started) (id : Int) (t : UpdateAllFeedsTask) :
    startNextL a id t =
      (.ok true, { t with iUpdateFeedTask := some ⟨id, true⟩, started := t.started ++ [id] }) := by
  obtain ⟨hurl, hnew, hstart⟩ := h
  simp [startNextL, hurl, hnew, hstart]

theorem startNextL_of_refused {a : Attempt} (h : a.Refused) (id : Int) (t : UpdateAllFeedsTask) :
    startNextL a id t = (.ok false, { t with iUpdateFeedTask := none }) := by
  obtain ⟨hurl, hnew, hstart, hfatal | hstatus⟩ := h
  · simp [startNextL, hurl, hnew, hstart, hfatal]
  · simp [startNextL, hurl, hnew, hstart, hstatus]

/-- The turns that let the loop go on are the refused ones. -/
theorem startNextL_eq_ok_false_iff {a : Attempt} {id : Int} {t t' : UpdateAllFeedsTask} :
    startNextL a id t = (.ok false, t') ↔
      a.Refused ∧ t' = { t with iUpdateFeedTask := none } := by
  constructor
  · intro h
    unfold startNextL at h
    cases hurl : a.urlFromFeedIdL with
    | error code => simp [hurl] at h
    | ok found =>
      cases found with
      | false => simp [hurl] at h
      | true =>
        cases hnew : a.newL with
        | some code => simp [hurl, hnew] at h
        | none =>
          by_cases hstart : a.startTaskL = KErrNone
          · simp [hurl, hnew, hstart] at h
          · by_cases hfatal : Fatal a.startTaskL
            · simp only [hurl, hnew, hstart, hfatal] at h
              exact ⟨⟨hurl, hnew, hstart, .inl hfatal⟩, by simpa using h.symm⟩
            · cases hstatus : a.updateFeedStatusL with
              | some code => simp [hurl, hnew, hstart, hfatal, hstatus] at h
              | none =>
                simp only [hurl, hnew, hstart, hfatal, hstatus] at h
                exact ⟨⟨hurl, hnew, hstart, .inr hstatus⟩, by simpa using h.symm⟩
  · rintro ⟨hrefused, rfl⟩
    exact startNextL_of_refused hrefused id t

/-- The task once the loop has got the first feed of the list started, or has
found the list empty. -/
def UpdateAllFeedsTask.next (t : UpdateAllFeedsTask) : UpdateAllFeedsTask :=
  match t.iFeedIds with
  | [] => t.updateAllFeedsCompleted KErrNone
  | id :: _ => { t with iUpdateFeedTask := some ⟨id, true⟩, started := t.started ++ [id] }

section Turns

variable {answers : Nat → Attempt} {fuel turn : Nat} {t : UpdateAllFeedsTask} {id : Int}

theorem updateNextFeedL_at_end (hid : t.iFeedIds[t.iNextFeedIndex]? = none) :
    updateNextFeedL answers (fuel + 1) turn t =
      some (.ok (), t.updateAllFeedsCompleted KErrNone) := by
  simp only [updateNextFeedL, hid]

theorem updateNextFeedL_turn (hid : t.iFeedIds[t.iNextFeedIndex]? = some id) (hpos : 0 < id) :
    updateNextFeedL answers (fuel + 1) turn t =
      match startNextL (answers turn) id t with
      | (.error stop, t') => some (.error stop, t')
      | (.ok true, t') => some (.ok (), t')
      | (.ok false, t') => updateNextFeedL answers fuel (turn + 1) t' := by
  rcases hstart : startNextL (answers turn) id t with ⟨stop | (_ | _), t'⟩ <;>
    simp only [updateNextFeedL, hid, hpos, if_true, hstart]

theorem updateNextFeedL_started (hid : t.iFeedIds[t.iNextFeedIndex]? = some id) (hpos : 0 < id)
    (h : (answers turn).Started) :
    updateNextFeedL answers (fuel + 1) turn t =
      some (.ok (), { t with iUpdateFeedTask := some ⟨id, true⟩, started := t.started ++ [id] }) := by
  rw [updateNextFeedL_turn hid hpos, startNextL_of_started h]

theorem updateNextFeedL_refused (hid : t.iFeedIds[t.iNextFeedIndex]? = some id) (hpos : 0 < id)
    (h : (answers turn).Refused) :
    updateNextFeedL answers (fuel + 1) turn t =
      updateNextFeedL answers fuel (turn + 1) { t with iUpdateFeedTask := none } := by
  rw [updateNextFeedL_turn hid hpos, startNextL_of_refused h]

/-- An id that is not positive is passed over and stays. -/
theorem updateNextFeedL_not_pos (hid : t.iFeedIds[t.iNextFeedIndex]? = some id)
    (hpos : ¬ 0 < id) :
    updateNextFeedL answers (fuel + 1) turn t = updateNextFeedL answers fuel (turn + 1) t := by
  simp only [updateNextFeedL, hid, hpos, if_false]

/-- A turn that is not refused is the last one. -/
theorem updateNextFeedL_last (hid : t.iFeedIds[t.iNextFeedIndex]? = some id) (hpos : 0 < id)
    (h : ¬ (answers turn).Refused) :
    ∃ r, updateNextFeedL answers (fuel + 1) turn t = some r := by
  rw [updateNextFeedL_turn hid hpos]
  rcases hstart : startNextL (answers turn) id t with ⟨stop | done, t'⟩
  · exact ⟨_, rfl⟩
  · cases done with
    | false => exact absurd (startNextL_eq_ok_false_iff.1 hstart).1 h
    | true => exact ⟨_, rfl⟩

end Turns

theorem head_of_cons {t : UpdateAllFeedsTask} {id : Int} {rest : List Int}
    (hlist : t.iFeedIds = id :: rest) (hindex : t.iNextFeedIndex = 0) :
    t.iFeedIds[t.iNextFeedIndex]? = some id := by
  rw [hlist, hindex]
  rfl

theorem UpdateAllFeedsTask.next_cons {t : UpdateAllFeedsTask} {id : Int} {rest : List Int}
    (hlist : t.iFeedIds = id :: rest) :
    t.next = { t with iUpdateFeedTask := some ⟨id, true⟩, started := t.started ++ [id] } := by
  simp only [next, hlist]

/-- A loop whose answers get the first feed started does so, whatever the turn
it is in. -/
theorem updateNextFeedL_returns_of_starts {answers : Nat → Attempt} {turn : Nat}
    (h : StartsFrom answers turn) {t : UpdateAllFeedsTask} {id : Int} {rest : List Int}
    (hlist : t.iFeedIds = id :: rest) (hindex : t.iNextFeedIndex = 0) (hpos : 0 < id) :
    ∃ fuel, updateNextFeedL answers fuel turn t = some (.ok (), t.next) := by
  induction h generalizing t with
  | started hstarted =>
    refine ⟨1, ?_⟩
    rw [updateNextFeedL_started (head_of_cons hlist hindex) hpos hstarted, next_cons hlist]
  | refused hrefused _ ih =>
    -- The refused task is deleted, and the next turn overwrites the pointer to it.
    obtain ⟨fuel, hfuel⟩ := ih (t := { t with iUpdateFeedTask := none }) hlist hindex
    refine ⟨fuel + 1, ?_⟩
    rw [updateNextFeedL_refused (head_of_cons hlist hindex) hpos hrefused, hfuel,
      next_cons hlist, next_cons (t := { t with iUpdateFeedTask := none }) hlist]

theorem updateNextFeedL_eq_of_starts {answers : Nat → Attempt} {turn : Nat}
    (h : StartsFrom answers turn) {t : UpdateAllFeedsTask} {id : Int} {rest : List Int}
    (hlist : t.iFeedIds = id :: rest) (hindex : t.iNextFeedIndex = 0) (hpos : 0 < id)
    {fuel : Nat} {r : Except Stop Unit × UpdateAllFeedsTask}
    (hr : updateNextFeedL answers fuel turn t = some r) : r = (.ok (), t.next) := by
  induction h generalizing t fuel with
  | started hstarted =>
    cases fuel with
    | zero => cases hr
    | succ fuel =>
      rw [updateNextFeedL_started (head_of_cons hlist hindex) hpos hstarted] at hr
      rw [next_cons hlist]
      exact (Option.some.inj hr).symm
  | refused hrefused _ ih =>
    cases fuel with
    | zero => cases hr
    | succ fuel =>
      rw [updateNextFeedL_refused (head_of_cons hlist hindex) hpos hrefused] at hr
      have hnext := ih (t := { t with iUpdateFeedTask := none }) hlist hindex hr
      rw [hnext, next_cons hlist, next_cons (t := { t with iUpdateFeedTask := none }) hlist]

/-- On a list that the answers serve, `UpdateNextFeedL` terminates. -/
theorem updateNextFeedL_returns {answers : Nat → Attempt} {t : UpdateAllFeedsTask}
    (hserves : Serves answers t.iFeedIds) (hindex : t.iNextFeedIndex = 0) :
    ∃ fuel, updateNextFeedL answers fuel 0 t = some (.ok (), t.next) := by
  cases hlist : t.iFeedIds with
  | nil =>
    refine ⟨1, ?_⟩
    rw [updateNextFeedL_at_end (by simp [hlist])]
    simp only [next, hlist]
  | cons id rest =>
    rw [hlist] at hserves
    exact updateNextFeedL_returns_of_starts hserves.2 hlist hindex hserves.1

/-- Whatever fuel it is given, a result of it is the one it should have. -/
theorem updateNextFeedL_eq {answers : Nat → Attempt} {t : UpdateAllFeedsTask}
    (hserves : Serves answers t.iFeedIds) (hindex : t.iNextFeedIndex = 0) {fuel : Nat}
    {r : Except Stop Unit × UpdateAllFeedsTask}
    (hr : updateNextFeedL answers fuel 0 t = some r) : r = (.ok (), t.next) := by
  cases hlist : t.iFeedIds with
  | nil =>
    cases fuel with
    | zero => cases hr
    | succ fuel =>
      rw [updateNextFeedL_at_end (by simp [hlist])] at hr
      simpa only [next, hlist] using (Option.some.inj hr).symm
  | cons id rest =>
    rw [hlist] at hserves
    exact updateNextFeedL_eq_of_starts hserves.2 hlist hindex hserves.1 hr

/-- A feed that is refused in every turn keeps the loop going without end. -/
theorem updateNextFeedL_eq_none_of_refused {answers : Nat → Attempt}
    (hrefused : ∀ turn, (answers turn).Refused) {t : UpdateAllFeedsTask} {id : Int}
    (hid : t.iFeedIds[t.iNextFeedIndex]? = some id) (fuel turn : Nat) :
    updateNextFeedL answers fuel turn t = none := by
  induction fuel generalizing t turn with
  | zero => rfl
  | succ fuel ih =>
    by_cases hpos : 0 < id
    · rw [updateNextFeedL_refused hid hpos (hrefused turn)]
      exact ih (t := { t with iUpdateFeedTask := none }) hid (turn + 1)
    · rw [updateNextFeedL_not_pos hid hpos]
      exact ih hid (turn + 1)

/-- So does an id that is not positive, whatever the answers. -/
theorem updateNextFeedL_eq_none_of_not_pos {answers : Nat → Attempt} {t : UpdateAllFeedsTask}
    {id : Int} (hid : t.iFeedIds[t.iNextFeedIndex]? = some id) (hpos : ¬ 0 < id)
    (fuel turn : Nat) : updateNextFeedL answers fuel turn t = none := by
  induction fuel generalizing turn with
  | zero => rfl
  | succ fuel ih =>
    rw [updateNextFeedL_not_pos hid hpos]
    exact ih (turn + 1)

/-- Exactly when the loop terminates: the list has no feed at the position, or
it has one with a positive id and some turn is not refused. -/
theorem updateNextFeedL_terminates_iff {answers : Nat → Attempt} {t : UpdateAllFeedsTask} :
    (∃ fuel r, updateNextFeedL answers fuel 0 t = some r) ↔
      ∀ id, t.iFeedIds[t.iNextFeedIndex]? = some id →
        0 < id ∧ ∃ turn, ¬ (answers turn).Refused := by
  constructor
  · rintro ⟨fuel, r, hr⟩ id hid
    by_contra hnot
    by_cases hpos : 0 < id
    · have hrefused : ∀ turn, (answers turn).Refused := by
        intro turn
        by_contra hturn
        exact hnot ⟨hpos, turn, hturn⟩
      rw [updateNextFeedL_eq_none_of_refused hrefused hid] at hr
      cases hr
    · rw [updateNextFeedL_eq_none_of_not_pos hid hpos] at hr
      cases hr
  · intro h
    cases hid : t.iFeedIds[t.iNextFeedIndex]? with
    | none => exact ⟨1, _, updateNextFeedL_at_end hid⟩
    | some id =>
      obtain ⟨hpos, last, hlast⟩ := h id hid
      -- By induction on the turns left before the one that is not refused.
      suffices hturns : ∀ n turn, turn + n = last → ∀ t : UpdateAllFeedsTask,
          t.iFeedIds[t.iNextFeedIndex]? = some id →
          ∃ fuel r, updateNextFeedL answers fuel turn t = some r from
        hturns last 0 (Nat.zero_add last) t hid
      intro n
      induction n with
      | zero =>
        intro turn hturn t hid
        rw [Nat.add_zero] at hturn
        exact ⟨1, updateNextFeedL_last hid hpos (hturn ▸ hlast)⟩
      | succ n ih =>
        intro turn hturn t hid
        by_cases hrefused : (answers turn).Refused
        · obtain ⟨fuel, r, hr⟩ :=
            ih (turn + 1) (by omega) { t with iUpdateFeedTask := none } hid
          refine ⟨fuel + 1, r, ?_⟩
          rw [updateNextFeedL_refused hid hpos hrefused, hr]
        · exact ⟨1, updateNextFeedL_last hid hpos hrefused⟩

end SymbianWeb.Feeds
