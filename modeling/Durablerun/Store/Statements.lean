import Durablerun.Store.Fragments

/-!
# The statements the batches share

A batch is a list of statements run in order on one database. A compare-and-set stamps the rows it
writes with the batch's seed and its own name, and every later statement finds its rows by such a
stamp. The generated follow-ons (`FencedBatch.derived`, one definition for each relation of
`FENCE_RELATIONS` the store uses), the checkpoint write, the successor of a failed run, the wake of
the runs parked on an event and the completion event are here; the batches are in the modules after
this one.

Reference: `packages/store-libsql/src/store.ts` and `packages/core/src/fenced-batch.ts`.
-/

namespace Durablerun

open Relational

/-- What a batch did: the database it leaves, and the compare-and-set of it that affected a row. -/
structure Outcome where
  db : Db
  won : Option Statement

/-- The winner of a batch with one compare-and-set. -/
def wonBy (name : Statement) (affected : Prop) [Decidable affected] : Option Statement :=
  if affected then some name else none

/-! ## Generated follow-ons -/

/-- The least of the source rows' instants, `MIN(f.fence_at_ms)`. -/
def sourceInstant (instants : List ℤ) : ℤ := instants.min?.getD 0

/-- `'runs-to-tasks'`: update the tasks of the runs a statement of this batch stamped. -/
def runsToTasks (db : Db) (seed : String) (name fence : Statement) (queue : String)
    (where' : Run → Prop) [DecidablePred where'] (narrow : Task → Prop) [DecidablePred narrow]
    (set : Table.Change Task.keys) : Db :=
  let source := fun f : Run => where' f ∧ f.queue = queue ∧ f.fenceStamp = some ⟨seed, fence⟩
  let instant := sourceInstant ((db.runs.rows.filter source).map Run.fenceAtMs)
  { db with
    tasks := db.tasks.update
      (fun t => (∃ f ∈ db.runs, source f ∧ f.taskId = t.taskId) ∧ t.queue = queue ∧ narrow t)
      ⟨fun t => (set t).stampedAt ⟨seed, name⟩ instant, set.keys_apply⟩ }

/-- `'runs-to-waits'`: delete the waits of the runs a statement of this batch stamped. -/
def runsToWaits (db : Db) (seed : String) (fence : Statement) (where' : Run → Prop)
    [DecidablePred where'] (narrow : Wait → Prop) [DecidablePred narrow] : Db :=
  { db with
    waits := db.waits.delete fun w =>
      (∃ f ∈ db.runs, (where' f ∧ f.fenceStamp = some ⟨seed, fence⟩) ∧ f.runId = w.runId) ∧
        narrow w }

/-- `'tasks-to-runs'`: update the runs of the tasks a statement of this batch stamped. -/
def tasksToRuns (db : Db) (seed : String) (name fence : Statement) (queue : String)
    (where' : Task → Prop) [DecidablePred where'] (narrow : Run → Prop) [DecidablePred narrow]
    (set : Table.Change Run.keys) : Db :=
  let source := fun f : Task => where' f ∧ f.queue = queue ∧ f.fenceStamp = some ⟨seed, fence⟩
  let instant := sourceInstant ((db.tasks.rows.filter source).map Task.fenceAtMs)
  { db with
    runs := db.runs.update
      (fun r => (∃ f ∈ db.tasks, source f ∧ f.taskId = r.taskId) ∧ r.queue = queue ∧ narrow r)
      ⟨fun r => (set r).stampedAt ⟨seed, name⟩ instant, set.keys_apply⟩ }

/-- `'waits-to-runs'`: update the runs of the waits a statement of this batch stamped. -/
def waitsToRuns (db : Db) (seed : String) (name fence : Statement) (queue : String)
    (where' : Wait → Prop) [DecidablePred where'] (narrow : Run → Prop) [DecidablePred narrow]
    (set : Table.Change Run.keys) : Db :=
  let source := fun f : Wait => where' f ∧ f.queue = queue ∧ f.fenceStamp = some ⟨seed, fence⟩
  let instant := sourceInstant ((db.waits.rows.filter source).map Wait.fenceAtMs)
  { db with
    runs := db.runs.update
      (fun r => (∃ f ∈ db.waits, source f ∧ f.runId = r.runId) ∧ r.queue = queue ∧ narrow r)
      ⟨fun r => (set r).stampedAt ⟨seed, name⟩ instant, set.keys_apply⟩ }

/-- `'runs-to-runs'`, which a batch uses only to seal a stamp: the stamp is overwritten, at the
instant of its own rows, and nothing else changes. -/
def sealRuns (db : Db) (seed : String) (name fence : Statement) (where' : Run → Prop)
    [DecidablePred where'] : Db :=
  let source := fun f : Run => where' f ∧ f.fenceStamp = some ⟨seed, fence⟩
  let instant := sourceInstant ((db.runs.rows.filter source).map Run.fenceAtMs)
  { db with
    runs := db.runs.update
      (fun r => ∃ f ∈ db.runs, source f ∧ f.runId = r.runId)
      ⟨fun r => r.stampedAt ⟨seed, name⟩ instant, fun _ => rfl⟩ }

/-! ## The fenced run -/

/-- The run of this id, when it carries the stamp of the named statement of this batch. -/
def stampedRun (db : Db) (seed runId : String) (fence : Statement) : Option Run :=
  db.runs.rows.find? fun f => f.runId = runId ∧ f.fenceStamp = some ⟨seed, fence⟩

/-- `stampedRunState`: the state of a run as the named statement left it, for a task that follows
its run. -/
def stampedRunState (db : Db) (seed runId : String) (fence : Statement) (t : Task) : TaskState :=
  ((stampedRun db seed runId fence).map Run.state).getD t.state

/-- `USER_ATTEMPTS_FROM`: the user ordinal of a stamped run. -/
def userAttemptsFrom (db : Db) (seed runId : String) (fence : Statement) (t : Task) : ℤ :=
  ((stampedRun db seed runId fence).map fun f => f.attempt - t.infraRetries).getD t.attempts

/-- `INFRA_RETRIES_FROM`: the infrastructure retries a stamped successor accounts for. -/
def infraRetriesFrom (db : Db) (seed successorId : String) (fence : Statement) (t : Task) : ℤ :=
  ((stampedRun db seed successorId fence).map fun f => f.attempt - 1 - t.attempts).getD
    t.infraRetries

/-- `taskMirrorsRun`: the task follows its run's suspension state. -/
def taskMirrorsRun (db : Db) (seed queue runId : String) (after : Statement) : Db :=
  runsToTasks db seed .taskMirror after queue (fun f => f.runId = runId) (fun t => t.state.Live)
    ⟨fun t => { t with state := stampedRunState db seed runId after t }, fun _ => rfl⟩

/-- `waitsGone`: a run's waits die with the run. -/
def waitsGone (db : Db) (seed runId : String) (after : Statement) : Db :=
  runsToWaits db seed after (fun f => f.runId = runId) fun _ => True

/-- `finishSuspension`: the task's mirror and the reaping of the run's waits. -/
def finishSuspension (db : Db) (seed queue runId : String) : Db :=
  waitsGone (taskMirrorsRun db seed queue runId .suspend) seed runId .suspend

/-! ## Claims -/

/-- `whereClaimedRun`: this run, in this queue, still running under this claim token. -/
def whereClaimedRun (queue runId claimToken : String) (r : Run) : Prop :=
  r.runId = runId ∧ r.queue = queue ∧ r.claimedBy = some claimToken ∧ r.state = .running
deriving Decidable

/-- `stillClaimed`: the run is still running under its claim, and `task` holds of its task. -/
def stillClaimed (db : Db) (queue runId taskId claimToken : String) (task : Task → Prop) : Prop :=
  ∃ r ∈ db.runs, whereClaimedRun queue runId claimToken r ∧ r.taskId = taskId ∧
    ∃ t ∈ db.tasks, runOwnedByTask r t ∧ task t

instance (db : Db) (queue runId taskId claimToken : String) (task : Task → Prop)
    [DecidablePred task] : Decidable (stillClaimed db queue runId taskId claimToken task) := by
  unfold stillClaimed
  infer_instance

/-- `parkAssignments`: what parking a claimed run assigns. -/
def parkAssignments (seed : String) (name : Statement) (wakeAt now : ℤ) (r : Run) : Run :=
  { r with
    state := if wakeAt ≤ now then .pending else .sleeping
    availableAtMs := some wakeAt
    claimedBy := none
    claimExpiresAtMs := none
    heartbeatAtMs := none
    fenceStamp := some ⟨seed, name⟩
    fenceAtMs := now }

/-! ## Checkpoints -/

/-- A checkpoint a caller writes. -/
structure CheckpointWrite where
  key : String
  stateJson : String
  deriving DecidableEq

/-- The row `checkpointWrite` inserts for a fenced run. -/
def checkpointRow (f : Run) (write : CheckpointWrite) : Checkpoint where
  taskId := f.taskId
  checkpointName := write.key
  queue := f.queue
  state := write.stateJson
  ownerRunId := f.runId
  ownerAttempt := f.attempt
  updatedAtMs := f.fenceAtMs

/-- `checkpointWrite`: the fenced run's own row, which a row of a higher attempt outlives. -/
def checkpointWrite (db : Db) (seed runId : String) (write : CheckpointWrite)
    (fence : Statement) : Db :=
  match stampedRun db seed runId fence with
  | none => db
  | some f =>
    if attemptBounds.Within f.attempt then
      { db with
        checkpoints := db.checkpoints.upsert (checkpointRow f write)
          (fun c => c.ownerAttempt ≤ f.attempt)
          ⟨fun c => { c with
            state := write.stateJson
            ownerRunId := f.runId
            ownerAttempt := f.attempt
            updatedAtMs := f.fenceAtMs }, fun _ => rfl⟩ }
    else db

/-! ## Successors -/

/-- `insertedRun` of a successor of `f`: the next attempt, with the parked wake and the run database
of the run it follows. -/
def successorRun (seed : String) (name : Statement) (successorId : String) (f : Run)
    (state : TaskState) (availableAtMs fenceAtMs : ℤ) : Run where
  runId := successorId
  queue := f.queue
  taskId := f.taskId
  attempt := f.attempt + 1
  state := state
  availableAtMs := some availableAtMs
  createdAtMs := fenceAtMs
  wakeEvent := f.wakeEvent
  eventPayload := f.eventPayload
  wakeStep := f.wakeStep
  runDb := f.runDb
  fenceStamp := some ⟨seed, name⟩
  fenceAtMs := fenceAtMs

/-- `failureSuccessor`: the run after a run this batch failed, when `admission` holds of its task and
no run holds the identity. A plain insert: a collision refuses the batch. -/
def failureSuccessor (db : Db) (seed : String) (name fence : Statement) (successorId runId : String)
    (delayMs : ℤ) (state : TaskState) (admission : Run → Task → Prop)
    [∀ f t, Decidable (admission f t)] : Option Db :=
  match stampedRun db seed runId fence with
  | none => some db
  | some f =>
    if (∃ t ∈ db.tasks, runOwnedByTask f t ∧ admission f t) ∧
        ¬ successorOwned db successorId f.taskId (f.attempt + 1) then
      (db.runs.insert? (successorRun seed name successorId f state (f.fenceAtMs + delayMs)
        f.fenceAtMs)).map fun runs => { db with runs }
    else some db

/-! ## Events -/

/-- Event names with this prefix belong to the engine. -/
def RESERVED_EVENT_PREFIX : String := "$"

/-- The completion event of one task. -/
def taskDoneEventName (taskId : String) : String := "$task-done:" ++ taskId

/-- The event this batch recorded, as a run reads it: the row of its queue, by name, under the stamp
of the statement named `event`. -/
def recordedEvent (db : Db) (seed queue eventName : String) : Option Event :=
  db.events.rows.find? fun f =>
    f.queue = queue ∧ f.eventName = eventName ∧ f.fenceStamp = some ⟨seed, .event⟩

/-- `wakeRunsUpdate`'s guard: a run parked on the event this batch recorded, of a live task, that
its own registration answers for. -/
def wakeRunsGuard (db : Db) (seed queue eventName : String) (r : Run) : Prop :=
  r.state = .sleeping ∧ r.wakeEvent = some eventName ∧
    (∃ w ∈ db.waits, w.queue = queue ∧ w.eventName = eventName ∧ w.runId = r.runId) ∧
    ((r.wakeStep ≠ none ∧ registeredWaitCurrent db r) ∨
      (r.wakeStep = none ∧ registeredWaitStep db r ≠ none)) ∧
    recordedEvent db seed r.queue eventName ≠ none ∧
    ∃ t ∈ db.tasks, runOwnedByTask r t ∧ t.state.Live
deriving Decidable

/-- What `wakeRunsUpdate` assigns. -/
def wakeAssignments (db : Db) (seed eventName : String) (r : Run) : Run :=
  let recorded := recordedEvent db seed r.queue eventName
  { r with
    state := .pending
    availableAtMs := recorded.map Event.fenceAtMs
    wakeStep := r.wakeStep.or (registeredWaitStep db r)
    wakeEvent := some eventName
    eventPayload := recorded.map Event.payload
    fenceStamp := some ⟨seed, .wakeRuns⟩
    fenceAtMs := (recorded.map Event.fenceAtMs).getD 0 }

/-- `wakeRunsUpdate`: the runs parked on the event become pending at its instant, with its stored
payload. -/
def wakeRuns (db : Db) (seed queue eventName : String) : Db :=
  { db with
    runs := db.runs.update (wakeRunsGuard db seed queue eventName)
      ⟨wakeAssignments db seed eventName, fun _ => rfl⟩ }

/-- `wakeWaiters`: wake every run parked on the event this batch recorded, let their tasks follow,
reap their waits, and seal the wake. -/
def wakeWaiters (db : Db) (seed queue eventName : String) : Db :=
  let woken := wakeRuns db seed queue eventName
  let mirrored := runsToTasks woken seed .wakeTasks .wakeRuns queue
    (fun f => f.wakeEvent = some eventName ∧ f.state = .pending) (fun t => t.state.Live)
    ⟨fun t => { t with state := .pending }, fun _ => rfl⟩
  let reaped := runsToWaits mirrored seed .wakeRuns
    (fun f => f.queue = queue ∧ f.wakeEvent = some eventName ∧ f.state = .pending)
    fun w => w.eventName = eventName
  sealRuns reaped seed .wakeFinished .wakeRuns
    fun f => f.queue = queue ∧ f.wakeEvent = some eventName ∧ f.state = .pending

/-- `taskDoneEventInsert`: the first outcome of the task this batch ended, under the stamp of the
statement that ended it. The guard asks for the whole primary key, so the insert meets no
conflict. -/
def taskDoneEvent (db : Db) (seed queue taskId : String) (terminal : Statement)
    (payloadJson : String) : Db :=
  match db.tasks.rows.find? fun f =>
    f.taskId = taskId ∧ f.queue = queue ∧ f.fenceStamp = some ⟨seed, terminal⟩ with
  | none => db
  | some f =>
    if ∃ e ∈ db.events, e.queue = f.queue ∧ e.eventName = taskDoneEventName taskId then db
    else
      { db with
        events := db.events.insertIgnore
          { queue := f.queue
            eventName := taskDoneEventName taskId
            payload := payloadJson
            emittedAtMs := f.fenceAtMs
            fenceStamp := some ⟨seed, .event⟩
            fenceAtMs := f.fenceAtMs } }

/-- `addTaskDone`: what every batch that ends a task owes the runs that await it. -/
def addTaskDone (db : Db) (seed queue taskId : String) (terminal : Statement)
    (payloadJson : String) : Db :=
  wakeWaiters (taskDoneEvent db seed queue taskId terminal payloadJson) seed queue
    (taskDoneEventName taskId)

end Durablerun
