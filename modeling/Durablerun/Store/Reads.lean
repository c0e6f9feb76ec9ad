import Durablerun.Store.System
import Mathlib.Data.List.Sort

/-!
# The reads of the store

What the store answers from its tables. Each definition is the read of the port method of the same
name.

Reference: `packages/store-libsql/src/store.ts` and `packages/core/src/statements/reads.ts`.
-/

namespace Durablerun

open Relational

/-! ## getCheckpoints -/

/-- `checkpointOwnerMatches`: the run is the one the checkpoint names as its owner. -/
def checkpointOwnerMatches (c : Checkpoint) (owner : Run) : Prop :=
  ownerAttemptBounds.Within c.ownerAttempt ∧ owner.runId = c.ownerRunId ∧
    owner.taskId = c.taskId ∧ owner.queue = c.queue ∧ owner.attempt = c.ownerAttempt
deriving Decidable

/-- A checkpoint as a worker is handed it. -/
structure CommittedCheckpoint where
  checkpointName : String
  stateJson : String
  ownerRunId : String
  ownerAttempt : ℤ
  deriving DecidableEq

/-- The columns `get-checkpoints` selects. -/
def Checkpoint.committed (c : Checkpoint) : CommittedCheckpoint :=
  ⟨c.checkpointName, c.state, c.ownerRunId, c.ownerAttempt⟩

/-- `getCheckpoints`: a task's checkpoints joined to their owners, of the owners that ran no later
than an attempt, by name. -/
def getCheckpoints (db : Db) (queue taskId : String) (visibleThrough : ℤ) :
    List CommittedCheckpoint :=
  let joined := db.checkpoints.rows.flatMap fun c =>
    (db.runs.rows.filter (checkpointOwnerMatches c)).map fun _ => c
  let visible := joined.filter fun c =>
    c.taskId = taskId ∧ c.queue = queue ∧ c.ownerAttempt ≤ visibleThrough
  (visible.insertionSort fun c c' => c.checkpointName ≤ c'.checkpointName).map Checkpoint.committed

/-! ## getTaskResult -/

/-- One failed attempt of a rollback, as its record holds it. -/
structure RollbackTry where
  tries : ℕ
  errorJson : String
  deriving DecidableEq

/-- A saga's outcome, and the failure of the rollback that halted it. -/
structure RollbackOutcome where
  outcome : SagaOutcome
  errorJson : Option String
  deriving DecidableEq

/-- A task's observable outcome. -/
structure TaskResult where
  state : TaskState
  completedPayloadJson : Option String
  failureReasonJson : Option String
  rollback : Option RollbackOutcome
  deriving DecidableEq

/-- `readTaskResult`: the outcome columns as they stand. -/
def readTaskResult (t : Task) : TaskResult := ⟨t.state, t.completedPayload, t.failureReason, none⟩

/-- `decodeTaskResult`: the outcome, or the text that refuses a row that contradicts its state. -/
def decodeTaskResult (t : Task) : Except String TaskResult :=
  let result := readTaskResult t
  match contradictionsOf result.state result.completedPayloadJson result.failureReasonJson with
  | [] => .ok result
  | first :: _ =>
    .error ("task " ++ t.taskId ++ " is " ++ result.state.name ++ " but " ++ first.detail)

/-- `rollbackOutcome`: of a terminal task whose saga began, derived when it is read. -/
def rollbackOutcome (db : Db) (t : Task) : Option SagaOutcome :=
  if ¬ t.state.Live ∧ sagaBegan db t.taskId then
    some (if rollbackPending db t.taskId then .failed else .complete)
  else none

/-- The checkpoint is an attempt record that the task's last run wrote. -/
def lastRunRecord (t : Task) (c : Checkpoint) : Prop :=
  c.taskId = t.taskId ∧ rangeUnder c.checkpointName SAGA_TRIES_PREFIX ∧
    t.lastAttemptRun = some c.ownerRunId
deriving Decidable

/-- `rollbackError`: the attempt record of the rollback that halted the task's saga, the one its last
run wrote. -/
def rollbackError (db : Db) (t : Task) : Option String :=
  (db.checkpoints.rows.find? fun c => lastRunRecord t c).map Checkpoint.state

/-- `decodeRollbackOutcome`, over whatever reads an attempt record. -/
def decodeRollbackOutcome (decodeRollbackTry : String → Option RollbackTry)
    (outcome : Option SagaOutcome) (record : Option String) : Option RollbackOutcome :=
  outcome.map fun
    | .complete => ⟨.complete, none⟩
    | .failed => ⟨.failed, (record.bind decodeRollbackTry).map RollbackTry.errorJson⟩

/-- `getTaskResult`: a task's outcome, with its rollback's, or the text that refuses the row. -/
def getTaskResult (decodeRollbackTry : String → Option RollbackTry) (db : Db) (queue taskId : String) :
    Except String (Option TaskResult) :=
  match db.tasks.rows.find? fun t => t.taskId = taskId ∧ t.queue = queue with
  | none => .ok none
  | some t => (decodeTaskResult t).map fun result => some { result with
      rollback := decodeRollbackOutcome decodeRollbackTry (rollbackOutcome db t) (rollbackError db t) }

/-! ## Completion events -/

/-- The result an outcome reports. -/
def TaskOutcome.result : TaskOutcome → TaskResult
  | .completed payload => ⟨.completed, some payload, none, none⟩
  | .failed reason => ⟨.failed, none, some reason, none⟩
  | .cancelled reason => ⟨.cancelled, none, some reason, none⟩

/-- The outcome that was read, as a result of texts. -/
def ChildTasks.TaskOutcome.result (outcome : ChildTasks.TaskOutcome) : TaskResult :=
  ⟨outcome.state.taskState, outcome.completedPayloadJson.map Js.text,
    outcome.failureReasonJson.map Js.text, none⟩

/-- `decodeTaskOutcome`, of a payload that is kept: the result a completion event carries, or the text
that refuses it. -/
def decodeTaskOutcome (taskId payloadJson : String) : Except String TaskResult :=
  match ChildTasks.decodeTaskOutcome (Js.utf16 taskId) (Js.utf16 payloadJson) with
  | .ok outcome => .ok outcome.result
  | .error refused => .error (Js.text refused.message)

/-! ## What a batch reads under its own stamp -/

/-- `heartbeatRemainingRead`: the lease that is left, by the two instants the batch stored. -/
def heartbeatRemainingRead (db : Db) (seed runId : String) : List (Option ℤ) :=
  (db.runs.rows.filter fun r => r.runId = runId ∧ r.fenceStamp = some ⟨seed, .extend⟩).map fun r => do
    return (← r.claimExpiresAtMs) - (← r.heartbeatAtMs)

/-- `revivedRunRead`: the attempt of the run this batch inserted. -/
def revivedRunRead (db : Db) (seed runId : String) : List ℤ :=
  (db.runs.rows.filter fun r => r.runId = runId ∧ r.fenceStamp = some ⟨seed, .run⟩).map Run.attempt

/-! ## Awaits -/

/-- `storedEventRead`: the payload of the event of a name. -/
def storedEventRead (db : Db) (queue : String) (eventName : EventName) : List String :=
  (db.events.rows.filter fun e => e.queue = queue ∧ e.eventName = eventName.value).map Event.payload

/-- `emittedEventRead`: an event's payload, for a run that still holds its claim on a live task. -/
def emittedEventRead (db : Db) (queue runId taskId claimToken : String) (eventName : EventName) :
    Option String :=
  if stillClaimed db queue runId taskId claimToken (fun t => t.state.Live) then
    (db.events.rows.find? fun e => e.queue = queue ∧ e.eventName = eventName.value).map Event.payload
  else none

/-- The hit an await answers with, read in the batch that would register its wait, or in the one that
would record an ending: `db` is the database the batch leaves. -/
def Call.hit (db : Db) : Call → Option String
  | .awaitEvent call =>
    emittedEventRead db call.queue call.runId call.taskId call.claimToken call.eventName
  | .recordTaskDone call =>
    emittedEventRead db call.queue call.runId call.taskId call.claimToken (.taskDone call.childTaskId)
  | _ => none

/-! ## The receipt of a claim -/

/-- A duration of milliseconds as JavaScript writes its seconds. -/
def secondsText (ms : ℤ) : String :=
  let rest := ms.natAbs % 1000
  let digits := (((toString (1000 + rest)).toList.drop 1).reverse.dropWhile (· = '0')).reverse
  (if ms < 0 then "-" else "") ++ toString (ms.natAbs / 1000) ++
    if rest = 0 then "" else "." ++ String.ofList digits

/-- `durationToMs`, of a duration that is whole milliseconds. -/
def durationToMs (name : String) (ms : ℤ) : Except String ℤ :=
  if ms < 0 then
    .error (name ++ " must be a finite non-negative number of seconds, got " ++ secondsText ms)
  else if MAX_DURATION_MS < ms then
    .error (name ++ " exceeds the 100-year duration bound: " ++ secondsText ms ++ "s")
  else .ok ms

/-- `normalizeRetryStrategy`, of a stored strategy. -/
def normalizeRetryStrategy : RetryStrategy → Except String RetryStrategy
  | .none => .ok .none
  | .fixed baseMs => do
    let baseMs ← durationToMs "retry strategy baseSeconds" baseMs
    return .fixed baseMs
  | .exponential baseMs factor maxMs => do
    let baseMs ← durationToMs "retry strategy baseSeconds" baseMs
    if factor < 0 then .error "retry strategy factor must be a finite non-negative number"
    let maxMs ← durationToMs "retry strategy maxSeconds" maxMs
    return .exponential baseMs factor maxMs

/-- `decodePersistedRowInteger`: a column of a row read in a scope, in its bounds. -/
def persistedRowInteger (scope column : String) (bounds : IntegerBounds) (value : Option ℤ) :
    Except String ℤ :=
  let refusal := scope ++ "." ++ column ++ " must be an exact SQL integer in [" ++
    toString bounds.min ++ ", " ++ toString bounds.max ++ "], got "
  match value with
  | none => .error (refusal ++ "null (not-an-exact-integer)")
  | some n => if bounds.Within n then .ok n else .error (refusal ++ "number (out-of-range)")

/-- The event wake a claimed run carries. A payload is missing where the wait timed out. -/
structure ClaimedWake where
  event : String
  step : String
  payloadJson : Option String
  deriving DecidableEq

/-- A claimed run, as its worker is handed it. -/
structure ClaimedRun where
  runId : String
  taskId : String
  taskName : String
  attempt : ℤ
  infraRetries : ℤ
  claimGen : ℤ
  claimToken : String
  claimExpiresAtEpochMs : ℤ
  leaseMs : ℤ
  paramsJson : String
  retryStrategy : RetryStrategy
  maxAttempts : ℤ
  headers : List (String × String)
  wake : Option ClaimedWake
  deriving DecidableEq

/-- The wake of a run whose row names both its event and its step. -/
def Run.claimedWake (r : Run) : Option ClaimedWake :=
  match r.wakeEvent, r.wakeStep with
  | some event, some step => some ⟨event, step, r.eventPayload⟩
  | _, _ => none

/-- `decodeClaimedRun`: a run and its task, as `claimedRunRows` selects them. -/
def decodeClaimedRun (claimToken : String) (row : Run × Task) : Except String ClaimedRun := do
  let (r, t) := row
  let attempt ← persistedRowInteger "claim" "attempt" attemptBounds r.attempt
  let infraRetries ← persistedRowInteger "claim" "infra_retries" infraRetriesBounds t.infraRetries
  let claimGen ← persistedRowInteger "claim" "claim_gen" positiveClaimGenerationBounds r.claimGen
  let claimExpiresAtEpochMs ←
    persistedRowInteger "claim" "claim_expires_at_ms" epochBounds r.claimExpiresAtMs
  let leaseMs ← persistedRowInteger "claim" "lease_ms" leaseMsBounds r.leaseMs
  let retryStrategy ← normalizeRetryStrategy t.retryStrategy
  let maxAttempts ← persistedRowInteger "claim" "max_attempts" maxAttemptsBounds t.maxAttempts
  return {
    runId := r.runId, taskId := r.taskId, taskName := t.taskName, attempt, infraRetries, claimGen,
    claimToken, claimExpiresAtEpochMs, leaseMs, paramsJson := t.params, retryStrategy, maxAttempts,
    headers := t.headers.getD [], wake := r.claimedWake }

/-- The runs a token holds in a queue, as `claimReceiptRead` selects them before its admission. -/
def heldRuns (db : Db) (queue claimToken : String) : List Run :=
  db.runs.rows.filter fun r => r.queue = queue ∧ r.claimedBy = some claimToken ∧ r.state = .running

/-- What the receipt requires of a run it hands out and of the run's task. -/
def claimPickedAdmission (db : Db) (r : Run) (t : Task) : Prop :=
  t.state.Live ∧ durableTaskRetryAdmissible t ∧ durableTaskHeadersAdmissible t ∧ soleLiveRun db r ∧
    positiveClaimGenerationBounds.Within r.claimGen ∧ activatedGenBounds.Within r.activatedGen ∧
    r.activatedGen ≤ r.claimGen ∧ relaunchCountBounds.Within r.relaunchCount ∧
    leaseMsBounds.Stored r.leaseMs ∧ epochBounds.Stored r.claimExpiresAtMs ∧
    storedCurrentRunAccounting r t ∧ storedHighestOwnedOrdinal db r
deriving Decidable

/-- `claimReceiptRead`: every run the queue holds under the token, with its task, in run order. -/
def claimReceiptRead (db : Db) (queue claimToken : String) : List (Run × Task) :=
  ((heldRuns db queue claimToken).insertionSort (·.runId ≤ ·.runId)).flatMap fun r =>
    (db.tasks.rows.filter fun t => runOwnedByTask r t ∧ claimPickedAdmission db r t).map (r, ·)

/-- `activatedRunRead`: the run this batch activated, with its task. -/
def activatedRunRead (db : Db) (seed runId : String) : List (Run × Task) :=
  (db.runs.rows.filter fun r =>
    r.runId = runId ∧ r.fenceStamp = some ⟨seed, .activate⟩ ∧ r.state = .running).flatMap fun r =>
      (db.tasks.rows.filter (runOwnedByTask r)).map (r, ·)

/-- What `claim` answers: its receipt, read in the batch that may take runs. `db` is the database the
batch leaves. -/
def claimAnswer (db : Db) (call : ClaimCall) : Except String (List ClaimedRun) :=
  (claimReceiptRead db call.queue call.claimToken).mapM (decodeClaimedRun call.claimToken)

/-! ## The sweep's scan -/

/-- The order of rows by an instant of theirs and then by their id. -/
def instantOrder {α : Type} (instant : α → Option ℤ) (id : α → String) (a b : α) : Prop :=
  (instant a).getD 0 < (instant b).getD 0 ∨
    ((instant a).getD 0 = (instant b).getD 0 ∧ id a ≤ id b)

instance {α : Type} (instant : α → Option ℤ) (id : α → String) :
    DecidableRel (instantOrder instant id) := fun _ _ => inferInstanceAs (Decidable (_ ∨ _))

/-- `SWEEP_CANCELS_DUE`. -/
def sweepCancelsDue (db : Db) (now : ℤ) (queue : String) (t : Task) : Prop :=
  t.queue = queue ∧ cancelDue t now ∧ t.state.Live ∧ taskOwnsEveryRun db t
deriving Decidable

/-- The newest live run of a task. -/
def liveRunOfTask (db : Db) (t : Task) : Option String :=
  ((db.runs.rows.filter fun r => runOwnedByTask r t ∧ r.state.Live).insertionSort
    fun left right => right.attempt ≤ left.attempt).head?.map Run.runId

/-- `sweepDueCancelsRead`: the tasks whose cancellation deadline is due, oldest deadline first. -/
def sweepDueCancels (db : Db) (now : ℤ) (queue : String) (limit : ℕ) : List Task :=
  ((db.tasks.rows.filter (sweepCancelsDue db now queue)).insertionSort
    (instantOrder Task.cancelAtMs Task.taskId)).take limit

/-- `sweepScanAdmissible`: what the scan requires of an expired run and of its task. -/
def sweepScanAdmissible (db : Db) (r : Run) (t : Task) : Prop :=
  (t.state.Live ∧ sweepLiveOwnerAdmissible db r t) ∨
    (¬ t.state.Live ∧ sweepTerminalOwnerAdmissible r)
deriving Decidable

/-- `SWEEP_CLAIMS_EXPIRED`, of a run with the task that owns it. -/
def sweepClaimsExpired (db : Db) (now : ℤ) (queue : String) (r : Run) : Prop :=
  r.queue = queue ∧ r.state = .running ∧ runClaimExpired r now ∧
    ∃ t ∈ db.tasks, runOwnedByTask r t ∧ sweepScanAdmissible db r t
deriving Decidable

/-- `sweepExpiredClaimsRead`: the running runs whose claim expired, oldest expiry first. -/
def sweepExpiredClaims (db : Db) (now : ℤ) (queue : String) (limit : ℕ) : List Run :=
  ((db.runs.rows.filter (sweepClaimsExpired db now queue)).insertionSort
    (instantOrder Run.claimExpiresAtMs Run.runId)).take limit

/-- The batch a sweep runs for an expired claim: a launch that was lost, or a claim that timed out.
`mint` is the identity it mints for the run that may follow. -/
def sweepExpired (queue : String) (mint : Run → String) (r : Run) : Call :=
  let swept : Swept := ⟨queue, r.runId, r.taskId, r.claimGen, mint r⟩
  if r.activatedGen < r.claimGen then .sweepLostLaunch swept else .sweepClaimTimeout swept

/-- The batches a sweep runs for what its scan found: the due cancellations first, then the expired
claims, to the limit. -/
def sweepItems (db : Db) (now : ℤ) (queue : String) (limit : ℕ) (mint : Run → String) : List Call :=
  ((sweepDueCancels db now queue limit).map
      (fun t => Call.cancelTransition ⟨queue, t.taskId, true, false⟩) ++
    (sweepExpiredClaims db now queue limit).map (sweepExpired queue mint)).take limit

/-! ## nextWakeAtEpochMs -/

/-- A leg of `nextWakeRead` over the runs of one state: their stored instants. -/
def nextWakeRuns (db : Db) (queue : String) (state : TaskState) (instant : Run → Option ℤ) : List ℤ :=
  (db.runs.rows.filter fun r => r.queue = queue ∧ r.state = state).filterMap fun r =>
    (instant r).filter epochBounds.Within

/-- `NEXT_WAKE_CANCELLABLE`: the deadlines of the live tasks. -/
def nextWakeTasks (db : Db) (queue : String) : List ℤ :=
  (db.tasks.rows.filter fun t => t.queue = queue ∧ t.state.Live).filterMap fun t =>
    t.cancelAtMs.filter epochBounds.Within

/-- `nextWakeRead`: the least of the legs' least instants. -/
def nextWakeAtEpochMs (db : Db) (queue : String) : Option ℤ :=
  ([nextWakeRuns db queue .pending Run.availableAtMs, nextWakeRuns db queue .sleeping Run.availableAtMs,
    nextWakeRuns db queue .running Run.claimExpiresAtMs, nextWakeTasks db queue].filterMap
      List.min?).min?

end Durablerun
