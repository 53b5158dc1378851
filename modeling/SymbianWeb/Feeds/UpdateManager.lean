import SymbianWeb.Feeds.UpdateAllFeeds

/-!
# The automatic update schedule

`CUpdateManager` keeps one `CUpdateQueue` for each update frequency. `StartL`
collects the feeds of the folder list into `iFeedIds`, and an idle call-back
moves ten of them at a time into the queues. A feed that is added, changed or
deleted in between is reported by `UpdateFeedL`.

The feed table is a function from feed ids to the stored update frequency.
-/

namespace SymbianWeb.Feeds

/-- `KWmlSettingsAutomaticUpdatingNotSet`: each feed has its own frequency. -/
def KWmlSettingsAutomaticUpdatingNotSet : Int := 32767

/-- The rows of the feed table: the `AutoUpdateFreq` column for each feed id. -/
abbrev FeedTable : Type := Int → Option Int

/-- What one `AddFeedL` gets from the outside: the leave of `FreqFromFeedIdL`,
what its local `freq` holds before that call, the leave of `CUpdateQueue::NewL`
and the time that reads. -/
structure FreqRead where
  freqFromFeedIdL : Option Int
  stack : Int
  newL : Option Int
  now : HomeTime

/-- `CUpdateManager`. `lazyCallerActive` is `iLazyCaller->IsActive()`. -/
structure UpdateManager where
  iAutoUpdateFreq : Int
  iQueueArray : List UpdateQueue
  iFeedIds : List Int
  iCurrentFeedCount : Nat
  lazyCallerActive : Bool
  deriving DecidableEq, Repr

namespace UpdateManager

/-- `CUpdateManager::NewL`. -/
def newL (aAutoUpdateFreq : Int) : UpdateManager := ⟨aAutoUpdateFreq, [], [], 0, false⟩

/-- The global frequency when it is set, and the given one otherwise. -/
def freqOf (m : UpdateManager) (freq : Int) : Int :=
  if m.iAutoUpdateFreq = KWmlSettingsAutomaticUpdatingNotSet then freq else m.iAutoUpdateFreq

/-- The queues after the loop of `AddFeedL` over those of the frequency. -/
def addToQueues (freq aFeedId : Int) (iQueueArray : List UpdateQueue) : List UpdateQueue :=
  iQueueArray.map fun q => if freq = q.iFreq then q.addFeed aFeedId else q

/-- `AddFeedL`. `FreqFromFeedIdL` leaves `freq` as it is when the feed has no
row, and its result is not looked at. -/
def addFeedL (table : FeedTable) (read : FreqRead) (aFeedId : Int) (m : UpdateManager) :
    Except Int Unit × UpdateManager :=
  match read.freqFromFeedIdL with
  | some code => (.error code, m)
  | none =>
    let freq := m.freqOf ((table aFeedId).getD read.stack)
    if 0 < freq then
      if m.iQueueArray.any (fun q => freq = q.iFreq) then
        (.ok (), { m with iQueueArray := addToQueues freq aFeedId m.iQueueArray })
      else
        match read.newL with
        | some code => (.error code, m)
        | none =>
          (.ok (), { m with
            iQueueArray := m.iQueueArray ++ [(UpdateQueue.newL freq read.now).addFeed aFeedId] })
    else (.ok (), m)

/-- The loop of `UpdateFeedL` over the queues. The index moves on after a queue
was taken out, past the queue that has come into its place. -/
def removeFromQueues (aFeedId : Int) : List UpdateQueue → List UpdateQueue
  | [] => []
  | q :: rest =>
    let q := q.removeFeed aFeedId
    if q.iFeedIds.length ≤ 0 then
      match rest with
      | [] => []
      | skipped :: rest => skipped :: removeFromQueues aFeedId rest
    else q :: removeFromQueues aFeedId rest

/-- `UpdateFeedL`. -/
def updateFeedL (table : FeedTable) (read : FreqRead) (aFeedId : Int) (aDeleteFeed : Bool)
    (m : UpdateManager) : Except Int Unit × UpdateManager :=
  let m := { m with iQueueArray := removeFromQueues aFeedId m.iQueueArray }
  if ¬ aDeleteFeed then
    if m.lazyCallerActive then
      (.ok (), { m with iFeedIds := m.iFeedIds ++ [aFeedId] })
    else m.addFeedL table read aFeedId
  else (.ok (), m)

/-- `StartL`. `allFeedIds` is what `AllFeedIdsL` appended and the leave it ended
with. `none` is the panic of `CIdle::Start` on a caller that is active. -/
def startL (allFeedIds : List Int × Option Int) (m : UpdateManager) :
    Option (Except Int Unit × UpdateManager) :=
  let m := { m with iCurrentFeedCount := 0, iFeedIds := m.iFeedIds ++ allFeedIds.1 }
  match allFeedIds.2 with
  | some code => some (.error code, m)
  | none =>
    if m.lazyCallerActive then none
    else some (.ok (), { m with lazyCallerActive := true })

/-- The loop of `LazyCallBack`, one turn for each read. -/
def loadFeeds (table : FeedTable) : List FreqRead → UpdateManager → Bool × UpdateManager
  | [], m => (true, m)
  | read :: reads, m =>
    match m.iFeedIds[m.iCurrentFeedCount]? with
    | some id =>
      -- The trap ignores a leave.
      let m := { m with iCurrentFeedCount := m.iCurrentFeedCount + 1 }
      loadFeeds table reads (m.addFeedL table read id).2
    | none => (false, { m with iCurrentFeedCount := 0, iFeedIds := [] })

/-- `LazyCallBack`, called by the idle caller, which goes on as long as the
result is true. -/
def lazyCallBack (table : FeedTable) (reads : Fin 10 → FreqRead) (m : UpdateManager) :
    UpdateManager :=
  let (more, m) := loadFeeds table (List.ofFn reads) m
  { m with lazyCallerActive := more }

/-- The feeds of all queues, each as often as it is in them. -/
def queuedFeeds (m : UpdateManager) : List Int := m.iQueueArray.flatMap (·.iFeedIds)

/-- The feeds that are still to be loaded. -/
def pending (m : UpdateManager) : List Int := m.iFeedIds.drop m.iCurrentFeedCount

end UpdateManager

end SymbianWeb.Feeds
