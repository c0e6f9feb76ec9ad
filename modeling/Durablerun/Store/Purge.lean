import Durablerun.Core.ChildTasks
import Durablerun.Core.Retention
import Durablerun.Store.Statements

/-!
# The purge of a unit

`purgeUnit` removes an ended task whole, in one batch: its row, its runs, their waits, its checkpoints
and its completion event. A compare-and-set stamps the row of a task the barrier admits, the unit is
counted, and every delete follows the stamp, the task's own row last. What each delete removed is then
held to what was counted.

Reference: `packages/core/src/statements/purge.ts` and `packages/core/src/retention.ts`.
-/

namespace Durablerun

open Js Relational

/-! ## The barrier -/

def MAX_PURGE_UNIT_CHECKPOINTS : ℕ := 200000

/-- `PurgeUnitBinds`, and the task that spawned the unit, which its key names. -/
structure PurgeUnitBinds where
  queue : String
  taskId : String
  idempotencyKey : Option String
  windowsMs : RetentionWindows
  parentTaskId : Option Str

/-- `PURGE_BARRIER`, over the row of `tasks`, with the task and the queue the statement names. -/
structure PurgeBarrier (db : Db) (now : ℤ) (unit : PurgeUnitBinds) (t : Task) : Prop where
  taskId : t.taskId = unit.taskId
  queue : t.queue = unit.queue
  endedAWindowAgo : atLeastAWindowOld now t.fenceAtMs (unit.windowsMs.of t.state)
  stampInRange : epochBounds.Within t.fenceAtMs
  noLiveRun : ¬ ∃ live ∈ db.runs, live.taskId = unit.taskId ∧ live.state.Live
  noRunHoldsTheOutcome : ¬ ∃ holder ∈ db.runs, holder.queue = unit.queue ∧
    holder.wakeEvent ≠ none ∧ holder.eventPayload ≠ none ∧
    holder.wakeEvent = some (taskDoneEventName unit.taskId) ∧ holder.taskId ≠ unit.taskId
  noWaitOnTheOutcome : ¬ ∃ waiter ∈ db.waits, waiter.queue = unit.queue ∧
    waiter.eventName = taskDoneEventName unit.taskId
  parentCannotRunAgain : ¬ ∃ p ∈ db.tasks, some (utf16 p.taskId) = unit.parentTaskId ∧
    (p.state.Live ∨ p.state = .failed)
  spawnedUnderThisKey : t.idempotencyKey = unit.idempotencyKey
  ownsEveryRun : ¬ ∃ stray ∈ db.runs, stray.taskId = unit.taskId ∧ stray.queue ≠ unit.queue
  withinTheCheckpointCap :
    ((db.checkpoints.rows.filter fun c => c.taskId = unit.taskId).take
      (MAX_PURGE_UNIT_CHECKPOINTS + 1)).length ≤ MAX_PURGE_UNIT_CHECKPOINTS

instance (db : Db) (now : ℤ) (unit : PurgeUnitBinds) : DecidablePred (PurgeBarrier db now unit) :=
  fun t => decidable_of_iff
    (t.taskId = unit.taskId ∧ t.queue = unit.queue ∧
      atLeastAWindowOld now t.fenceAtMs (unit.windowsMs.of t.state) ∧
      epochBounds.Within t.fenceAtMs ∧
      (¬ ∃ live ∈ db.runs, live.taskId = unit.taskId ∧ live.state.Live) ∧
      (¬ ∃ holder ∈ db.runs, holder.queue = unit.queue ∧ holder.wakeEvent ≠ none ∧
        holder.eventPayload ≠ none ∧ holder.wakeEvent = some (taskDoneEventName unit.taskId) ∧
        holder.taskId ≠ unit.taskId) ∧
      (¬ ∃ waiter ∈ db.waits, waiter.queue = unit.queue ∧
        waiter.eventName = taskDoneEventName unit.taskId) ∧
      (¬ ∃ p ∈ db.tasks, some (utf16 p.taskId) = unit.parentTaskId ∧
        (p.state.Live ∨ p.state = .failed)) ∧
      t.idempotencyKey = unit.idempotencyKey ∧
      (¬ ∃ stray ∈ db.runs, stray.taskId = unit.taskId ∧ stray.queue ≠ unit.queue) ∧
      ((db.checkpoints.rows.filter fun c => c.taskId = unit.taskId).take
        (MAX_PURGE_UNIT_CHECKPOINTS + 1)).length ≤ MAX_PURGE_UNIT_CHECKPOINTS)
    ⟨fun ⟨h₁, h₂, h₃, h₄, h₅, h₆, h₇, h₈, h₉, h₁₀, h₁₁⟩ =>
      ⟨h₁, h₂, h₃, h₄, h₅, h₆, h₇, h₈, h₉, h₁₀, h₁₁⟩,
      fun ⟨h₁, h₂, h₃, h₄, h₅, h₆, h₇, h₈, h₉, h₁₀, h₁₁⟩ =>
        ⟨h₁, h₂, h₃, h₄, h₅, h₆, h₇, h₈, h₉, h₁₀, h₁₁⟩⟩

/-! ## The batch -/

/-- How many rows of each table: what a unit holds, and what a purge removed. -/
structure UnitRows where
  tasks : ℕ
  runs : ℕ
  waits : ℕ
  events : ℕ
  checkpoints : ℕ
  deriving DecidableEq

/-- `purgeUnitCas`: stamp the task row of a unit the barrier admits. -/
def purgeUnitCas (db : Db) (seed : String) (unit : PurgeUnitBinds) (now : ℤ) : Db :=
  { db with
    tasks := db.tasks.update (PurgeBarrier db now unit)
      ⟨fun t => t.stampedAt ⟨seed, .purge⟩ now, fun _ => rfl⟩ }

/-- `purgedUnitRowsRead`. The task row is the one the compare-and-set stamped. -/
def purgedUnitRowsRead (db : Db) (seed : String) (unit : PurgeUnitBinds) : Option UnitRows :=
  if ∃ f ∈ db.tasks, f.taskId = unit.taskId ∧ f.fenceStamp = some ⟨seed, .purge⟩ then
    some
      { tasks := 1
        runs := db.runs.count fun r => r.taskId = unit.taskId ∧ r.queue = unit.queue
        waits := db.waits.count fun w => ∃ wr ∈ db.runs, (wr.taskId = unit.taskId ∧
          wr.queue = unit.queue) ∧ wr.runId = w.runId
        events := db.events.count fun e =>
          e.queue = unit.queue ∧ e.eventName = taskDoneEventName unit.taskId
        checkpoints := db.checkpoints.count fun c => c.taskId = unit.taskId }
  else none

/-- `'tasks-to-checkpoints'`: the checkpoints of the task this batch stamped. -/
def purgedCheckpoint (db : Db) (seed : String) (unit : PurgeUnitBinds) (c : Checkpoint) : Prop :=
  ∃ f ∈ db.tasks, (f.taskId = unit.taskId ∧ f.fenceStamp = some ⟨seed, .purge⟩) ∧
    f.taskId = c.taskId
deriving Decidable

/-- `'tasks-to-runs'`, of the runs of the task this batch stamped. -/
def purgedRun (db : Db) (seed : String) (unit : PurgeUnitBinds) (r : Run) : Prop :=
  ∃ f ∈ db.tasks, (f.taskId = unit.taskId ∧ f.queue = unit.queue ∧
    f.fenceStamp = some ⟨seed, .purge⟩) ∧ f.taskId = r.taskId
deriving Decidable

/-- `'runs-to-waits'`, of the waits of the runs this batch stamped. -/
def purgedWait (db : Db) (seed : String) (unit : PurgeUnitBinds) (w : Wait) : Prop :=
  ∃ f ∈ db.runs, (f.taskId = unit.taskId ∧ f.fenceStamp = some ⟨seed, .runs⟩) ∧ f.runId = w.runId
deriving Decidable

/-- `'tasks-to-events'`: the one event the batch holds the lock of, in its task's queue. -/
def purgedEvent (db : Db) (seed : String) (unit : PurgeUnitBinds) (e : Event) : Prop :=
  (∃ f ∈ db.tasks, (f.taskId = unit.taskId ∧ f.fenceStamp = some ⟨seed, .purge⟩) ∧
    f.queue = e.queue) ∧ e.eventName = taskDoneEventName unit.taskId
deriving Decidable

/-- `purgedTaskDelete`. -/
def purgedTask (seed : String) (unit : PurgeUnitBinds) (t : Task) : Prop :=
  t.taskId = unit.taskId ∧ t.queue = unit.queue ∧ t.fenceStamp = some ⟨seed, .purge⟩
deriving Decidable

/-- What the batch of a purge answered. -/
structure PurgeRan where
  db : Db
  /-- The rows the compare-and-set affected. -/
  stamped : ℕ
  unit : Option UnitRows
  /-- The rows each delete removed. -/
  deleted : UnitRows

/-- `addUnitPurge`. -/
def addUnitPurge (seed : String) (unit : PurgeUnitBinds) (now : ℤ) (db : Db) : PurgeRan :=
  let stamped := purgeUnitCas db seed unit now
  let unchecked := { stamped with
    checkpoints := stamped.checkpoints.delete (purgedCheckpoint stamped seed unit) }
  -- The statement is here for the stamp, which the delete of the waits follows.
  let released := tasksToRuns unchecked seed .runs .purge unit.queue
    (fun f => f.taskId = unit.taskId) (fun r => r.taskId = unit.taskId)
    ⟨fun r => { r with claimedBy := none }, fun _ => rfl⟩
  let unwaited := { released with waits := released.waits.delete (purgedWait released seed unit) }
  let unrun := { unwaited with runs := unwaited.runs.delete (purgedRun unwaited seed unit) }
  let silent := { unrun with events := unrun.events.delete (purgedEvent unrun seed unit) }
  { db := { silent with tasks := silent.tasks.delete (purgedTask seed unit) }
    stamped := db.tasks.count (PurgeBarrier db now unit)
    unit := purgedUnitRowsRead stamped seed unit
    deleted :=
      { tasks := silent.tasks.count (purgedTask seed unit)
        runs := unwaited.runs.count (purgedRun unwaited seed unit)
        waits := released.waits.count (purgedWait released seed unit)
        events := unrun.events.count (purgedEvent unrun seed unit)
        checkpoints := stamped.checkpoints.count (purgedCheckpoint stamped seed unit) } }

/-! ## The answer -/

/-- What a purge throws. -/
inductive PurgeError where
  | policy (error : RetentionError)
  | typeError (message : String)
  | error (message : String)

/-- `FencedBatch.run`'s audit of the row counts, once the batch has committed. -/
def PurgeRan.audit (ran : PurgeRan) : Except PurgeError Unit := do
  if 1 < ran.stamped then
    throw (.error ("FencedBatch[purge-unit] cas 'purge' affected " ++ toString ran.stamped ++
      " rows, at most 1 allowed"))
  if 1 < ran.deleted.events then wide "event" ran.deleted.events
  if 1 < ran.deleted.tasks then wide "task" ran.deleted.tasks
where
  wide (name : String) (affected : ℕ) : Except PurgeError Unit :=
    throw (.error ("FencedBatch[purge-unit] followOn '" ++ name ++ "' wrote " ++ toString affected ++
      " rows but declared 'one' — its target set is wider than the transition it follows"))

/-- `QUEUE_TABLES`, each with the column of the counts that is its own. -/
def QUEUE_TABLES : List (String × (UnitRows → ℕ)) :=
  [("tasks", UnitRows.tasks), ("runs", UnitRows.runs), ("waits", UnitRows.waits),
    ("events", UnitRows.events), ("checkpoints", UnitRows.checkpoints)]

/-- `purgedRows`: what the purge deleted, held to what the unit held. -/
def purgedRows (ran : PurgeRan) (taskId : String) : Except PurgeError UnitRows := do
  let some unit := ran.unit
    | throw (.typeError ("purgeUnit " ++ taskId ++ ": the purge won and its batch read no unit"))
  for table in QUEUE_TABLES do
    if table.2 ran.deleted ≠ table.2 unit then
      throw (.error ("purgeUnit " ++ taskId ++ ": the batch deleted " ++
        toString (table.2 ran.deleted) ++ " rows of " ++ table.1 ++
        ", and the unit its compare-and-set read held " ++ toString (table.2 unit)))
  return unit

/-- `PurgeUnitTarget`. -/
structure PurgeUnitTarget where
  taskId : String
  idempotencyKey : Option String

/-- `purgeUnit`: what it answers, and the database it leaves. A unit whose key names no parent it can
be read from is kept, and a batch that won is held to its counts. -/
def purgeUnit (seed queue : String) (target : PurgeUnitTarget) (policy : RetentionPolicy) (now : ℤ)
    (db : Db) : Except PurgeError (Option UnitRows) × Db :=
  match retentionWindowsMs policy with
  | .error error => (.error (.policy error), db)
  | .ok windowsMs =>
    match spawningParent (target.idempotencyKey.map utf16) with
    | .unknown => (.ok none, db)
    | .known parentTaskId =>
      let ran := addUnitPurge seed
        ⟨queue, target.taskId, target.idempotencyKey, windowsMs, parentTaskId⟩ now db
      (do
        ran.audit
        if ran.stamped = 0 then return none
        some <$> purgedRows ran target.taskId, ran.db)

end Durablerun
