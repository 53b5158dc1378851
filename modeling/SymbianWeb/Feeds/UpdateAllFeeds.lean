import Mathlib.Data.List.Basic
import Mathlib.Data.List.Count
import Mathlib.Data.List.Sort

/-!
# Batches of feed updates

`CUpdateAllFeedsTask` updates a list of feeds one after the other. The position
in the list is `iNextFeedIndex`, which no function advances: a feed leaves the
list when its update has completed, and an empty list stands for "no batch is
running". `CUpdateQueue::UpdateL` hands the feeds of one update frequency to
`AddFeedL`.

What the task asks of the outside is a list of answers, one for each turn of
the loop in `UpdateNextFeedL`. That loop has no bound, so the functions that
run it take fuel and give `none` when it does not suffice.
-/

namespace SymbianWeb.Feeds

/-- `KErrNone`. -/
def KErrNone : Int := 0

/-- `KErrCancel`. -/
def KErrCancel : Int := -3

/-- `KErrNoMemory`. -/
def KErrNoMemory : Int := -4

/-- How a call ends early: a leave with its code, a use of the null pointer, or
the panic of an array given an index that it does not have. -/
inductive Stop where
  | leave (code : Int)
  | nullPointer
  | badIndex
  deriving DecidableEq, Repr

/-- The statuses after which a batch goes no further. -/
def Fatal (aStatusCode : Int) : Prop := aStatusCode = KErrCancel ∨ aStatusCode = KErrNoMemory

instance (aStatusCode : Int) : Decidable (Fatal aStatusCode) :=
  inferInstanceAs (Decidable (_ ∨ _))

/-- `CUpdateFeedTask`: the feed that it updates, and whether its `StartTaskL`
has returned. -/
structure UpdateFeedTask where
  iFeedId : Int
  started : Bool
  deriving DecidableEq, Repr

/-- What one turn of the loop in `UpdateNextFeedL` gets from the outside:
`UrlFromFeedIdL` (the leave, or whether a row was found),
`CUpdateFeedTask::NewL`, the trapped `StartTaskL` and `UpdateFeedStatusL` (the
leaves of the two others). -/
structure Attempt where
  urlFromFeedIdL : Except Int Bool
  newL : Option Int
  startTaskL : Int
  updateFeedStatusL : Option Int

/-- `CUpdateAllFeedsTask`, with the calls it has made: the feeds whose update
was started and the codes its observer was told. -/
structure UpdateAllFeedsTask where
  iFeedIds : List Int
  iNextFeedIndex : Nat
  iUpdateFeedTask : Option UpdateFeedTask
  iSelected : Bool
  started : List Int
  told : List Int
  deriving DecidableEq, Repr

namespace UpdateAllFeedsTask

/-- `iObserver.UpdateAllFeedsCompleted`. -/
def updateAllFeedsCompleted (t : UpdateAllFeedsTask) (aStatusCode : Int) : UpdateAllFeedsTask :=
  { t with told := t.told ++ [aStatusCode] }

/-- `RArray<TInt>::InsertInOrder`, which refuses an id that is there. -/
def insertInOrder (iFeedIds : List Int) (id : Int) : List Int :=
  if id ∈ iFeedIds then iFeedIds else iFeedIds.orderedInsert (· ≤ ·) id

/-- `CUpdateAllFeedsTask::NewL` for a folder list. -/
def newL : UpdateAllFeedsTask := ⟨[], 0, none, false, [], []⟩

/-- `CUpdateAllFeedsTask::NewL` for selected feeds. -/
def newSelectedL (aFeedIds : List Int) : UpdateAllFeedsTask :=
  ⟨aFeedIds.foldl insertInOrder [], 0, none, true, [], []⟩

/-- What one turn of the loop does for the feed `id`: whether the loop is done,
or how the turn stopped. -/
def startNextL (a : Attempt) (id : Int) (t : UpdateAllFeedsTask) :
    Except Stop Bool × UpdateAllFeedsTask :=
  match a.urlFromFeedIdL with
  | .error code => (.error (.leave code), t)
  -- A feed without a row leaves `feedUrl` null, and `*feedUrl` is the next argument.
  | .ok false => (.error .nullPointer, t)
  | .ok true =>
    match a.newL with
    | some code => (.error (.leave code), t)
    | none =>
      if a.startTaskL = KErrNone then
        (.ok true, { t with iUpdateFeedTask := some ⟨id, true⟩, started := t.started ++ [id] })
      else if ¬ Fatal a.startTaskL then
        match a.updateFeedStatusL with
        | some code => (.error (.leave code), { t with iUpdateFeedTask := some ⟨id, false⟩ })
        | none => (.ok false, { t with iUpdateFeedTask := none })
      else (.ok false, { t with iUpdateFeedTask := none })

/-- `UpdateNextFeedL`, from the turn `turn` of its loop on. -/
def updateNextFeedL (answers : Nat → Attempt) :
    Nat → Nat → UpdateAllFeedsTask → Option (Except Stop Unit × UpdateAllFeedsTask)
  | 0, _, _ => none
  | fuel + 1, turn, t =>
    match t.iFeedIds[t.iNextFeedIndex]? with
    | none => some (.ok (), t.updateAllFeedsCompleted KErrNone)
    | some id =>
      if 0 < id then
        match startNextL (answers turn) id t with
        | (.error stop, t') => some (.error stop, t')
        | (.ok true, t') => some (.ok (), t')
        | (.ok false, t') => updateNextFeedL answers fuel (turn + 1) t'
      -- An id that is not positive is neither tried nor taken out.
      else updateNextFeedL answers fuel (turn + 1) t

/-- `StartTaskL`. `space` is what connecting to the file server and measuring
the disk gave, `allFeedIds` what `AllFeedIdsL` appended and the leave it ended
with. -/
def startTaskL (space : Except Int Bool) (allFeedIds : List Int × Option Int)
    (answers : Nat → Attempt) (fuel : Nat) (t : UpdateAllFeedsTask) :
    Option (Except Stop Unit × UpdateAllFeedsTask) :=
  match space with
  | .error code => some (.error (.leave code), t)
  | .ok false => some (.ok (), t.updateAllFeedsCompleted KErrNoMemory)
  | .ok true =>
    if t.iSelected then
      updateNextFeedL answers fuel 0 t
    else
      let t := { t with iFeedIds := t.iFeedIds ++ allFeedIds.1 }
      match allFeedIds.2 with
      | some code => some (.error (.leave code), t)
      | none => updateNextFeedL answers fuel 0 t

/-- The trap around `UpdateNextFeedL` in `Completed`: the observer is told the
code of a leave. -/
def tellLeave : Except Stop Unit × UpdateAllFeedsTask → Except Stop Unit × UpdateAllFeedsTask
  | (.error (.leave code), t) => (.ok (), t.updateAllFeedsCompleted code)
  | result => result

/-- `Completed`. The database updates in it are trapped and touch no field of
the task. -/
def completed (aStatusCode : Int) (answers : Nat → Attempt) (fuel : Nat)
    (t : UpdateAllFeedsTask) : Option (Except Stop Unit × UpdateAllFeedsTask) :=
  let t := { t with iUpdateFeedTask := none }
  if t.iNextFeedIndex < t.iFeedIds.length then
    let t := { t with iFeedIds := t.iFeedIds.eraseIdx t.iNextFeedIndex }
    if Fatal aStatusCode then
      some (.ok (), t.updateAllFeedsCompleted aStatusCode)
    else
      (updateNextFeedL answers fuel 0 t).map tellLeave
  else some (.error .badIndex, t)

/-- One turn of the loop in `AddFeedL`: `Find` and `Append`. -/
def appendNew (iFeedIds : List Int) (id : Int) : List Int :=
  if id ∈ iFeedIds then iFeedIds else iFeedIds ++ [id]

/-- `AddFeedL`. -/
def addFeedL (aFeedIds : List Int) (answers : Nat → Attempt) (fuel : Nat)
    (t : UpdateAllFeedsTask) : Option (Except Stop Unit × UpdateAllFeedsTask) :=
  let taskRunning := t.iFeedIds.length ≠ 0
  let t := { t with iFeedIds := aFeedIds.foldl appendNew t.iFeedIds }
  if ¬ taskRunning then
    updateNextFeedL answers fuel 0 { t with iNextFeedIndex := 0 }
  else some (.ok (), t)

/-- A single update is under way, so that a call of `Completed` is due. -/
def Running (t : UpdateAllFeedsTask) : Prop := ∃ id, t.iUpdateFeedTask = some ⟨id, true⟩

instance (t : UpdateAllFeedsTask) : Decidable t.Running :=
  decidable_of_iff (t.iUpdateFeedTask.any (·.started) = true) <| by
    cases h : t.iUpdateFeedTask with
    | none => simp [Running, h]
    | some task =>
      obtain ⟨id, started⟩ := task
      cases started <;> simp [Running, h]

/-- The feeds of the list that were not started: all of them, or all but the
first while that one is being updated. -/
def waiting (t : UpdateAllFeedsTask) : List Int :=
  if t.Running then t.iFeedIds.drop 1 else t.iFeedIds

end UpdateAllFeedsTask

/-- A reading of the home time: microseconds, and the day of the week, hour and
minute of it. -/
structure HomeTime where
  micros : Int
  dayNoInWeek : Nat
  hour : Nat
  minute : Nat
  deriving DecidableEq, Repr

/-- `CUpdateQueue`: the feeds of one update frequency. -/
structure UpdateQueue where
  iFreq : Int
  iFeedIds : List Int
  iLastAutoUpdate : Int
  deriving DecidableEq, Repr

namespace UpdateQueue

/-- The last moment before `now` that the frequency divides, as `ConstructL`,
`UpdateL` and `ResetTimers` compute it. -/
def lastAutoUpdate (iFreq : Int) (now : HomeTime) : Int :=
  let mins : Int :=
    if iFreq = 10080 then now.dayNoInWeek * 60 * 24 + now.hour * 60 + now.minute
    else now.hour * 60 + now.minute
  now.micros - mins.tmod iFreq * 60000000

/-- `CUpdateQueue::NewL`. -/
def newL (aFreq : Int) (now : HomeTime) : UpdateQueue := ⟨aFreq, [], lastAutoUpdate aFreq now⟩

/-- `AddFeed`. -/
def addFeed (q : UpdateQueue) (aFeedId : Int) : UpdateQueue :=
  { q with iFeedIds := q.iFeedIds ++ [aFeedId] }

/-- `RemoveFeed`: the first occurrence only. -/
def removeFeed (q : UpdateQueue) (aFeedId : Int) : UpdateQueue :=
  { q with iFeedIds := q.iFeedIds.erase aFeedId }

/-- The test of `UpdateL`. -/
def Due (q : UpdateQueue) (currentTime : HomeTime) : Prop :=
  q.iFreq ≤ (currentTime.micros - q.iLastAutoUpdate).tdiv 60000000 + 1

instance (q : UpdateQueue) (currentTime : HomeTime) : Decidable (q.Due currentTime) :=
  inferInstanceAs (Decidable (_ ≤ _))

/-- `UpdateL`, read at `currentTime` and, when the feeds were handed over, at
`now`. -/
def updateL (currentTime now : HomeTime) (answers : Nat → Attempt) (fuel : Nat)
    (q : UpdateQueue) (t : UpdateAllFeedsTask) :
    Option (Except Stop Unit × UpdateQueue × UpdateAllFeedsTask) :=
  if q.Due currentTime then
    match t.addFeedL q.iFeedIds answers fuel with
    | none => none
    | some (.error stop, t') => some (.error stop, q, t')
    | some (.ok (), t') =>
      some (.ok (), { q with iLastAutoUpdate := lastAutoUpdate q.iFreq now }, t')
  else some (.ok (), q, t)

end UpdateQueue

end SymbianWeb.Feeds
