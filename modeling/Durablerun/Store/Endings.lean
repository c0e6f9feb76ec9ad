import Durablerun.Core.TaskOutcomes
import Durablerun.Store.Claim

/-!
# The batches that end a run

`complete`, `fail`, `failRollback`, the sweep's three transitions and `cancelTask`. A batch that
fails a run decides between its successor, a rollback pass and the end of its task; a batch that ends
a task also records the task's completion event and wakes the runs that await it.

Reference: `packages/store-libsql/src/store.ts`, `packages/core/src/statements/fail.ts` and
`packages/core/src/statements/sweep.ts`.
-/

namespace Durablerun

open Relational

/-! ## Outcomes and reasons -/

def REASON_CLAIM_TIMEOUT : String := "\x7b\"name\":\"$ClaimTimeout\"\x7d"
def REASON_RELAUNCH_CAP : String := "\x7b\"name\":\"$RelaunchCapExhausted\"\x7d"
def REASON_INFRA_CAP : String := "\x7b\"name\":\"$InfraRetriesExhausted\"\x7d"
def REASON_CANCELLED : String := "\x7b\"name\":\"$Cancelled\"\x7d"

/-- The outcome a task ended with, as its completion event carries it. -/
inductive TaskOutcome where
  | completed (payloadJson : String)
  | failed (reasonJson : String)
  | cancelled (reasonJson : String)
  deriving DecidableEq

/-- The outcome as `encodeTaskOutcome` is handed it. -/
def TaskOutcome.handed : TaskOutcome → ChildTasks.TaskOutcome
  | .completed payload => ⟨.completed, some (Js.utf16 payload), none, none⟩
  | .failed reason => ⟨.failed, none, some (Js.utf16 reason), none⟩
  | .cancelled reason => ⟨.cancelled, none, some (Js.utf16 reason), none⟩

/-- The completion event's payload: what `encodeTaskOutcome` writes, as the row keeps it. -/
def encodeTaskOutcome (outcome : TaskOutcome) : String :=
  Js.text (ChildTasks.ordered outcome.handed).text

/-! ## complete -/

/-- `TASK_ADMITS_COMPLETION`. -/
def taskAdmitsCompletion (db : Db) (r : Run) : Prop :=
  ∃ t ∈ db.tasks, runOwnedByTask r t ∧ (¬ t.state.Live ∨ ¬ sagaBegan db t.taskId) ∧
    (¬ t.state.Live ∨ (t.state.Live ∧ soleLiveRun db r))
deriving Decidable

/-- `completeCas`'s guard. -/
def completeGuard (db : Db) (claim : WorkerClaim) (r : Run) : Prop :=
  claim.Holds r ∧ taskAdmitsCompletion db r
deriving Decidable

/-- What `completeCas` assigns. -/
def completeAssignments (seed resultJson : String) (now : ℤ) (r : Run) : Run :=
  { r with
    state := .completed
    completedAtMs := some now
    result := some resultJson
    wakeEvent := none
    eventPayload := none
    wakeStep := none
    claimedBy := none
    claimExpiresAtMs := none
    fenceStamp := some ⟨seed, .complete⟩
    fenceAtMs := now }

/-- `completeCas`. -/
def completeCas (db : Db) (seed : String) (claim : WorkerClaim) (resultJson : String) (now : ℤ) :
    Db :=
  { db with
    runs := db.runs.update (completeGuard db claim)
      ⟨completeAssignments seed resultJson now, fun _ => rfl⟩ }

/-- `completeTaskMirror`: the task completes with its run. -/
def completeTaskMirror (db : Db) (seed : String) (claim : WorkerClaim) (resultJson : String) : Db :=
  runsToTasks db seed .task .complete claim.queue (fun f => f.runId = claim.runId)
    (fun t => t.state.Live)
    ⟨fun t => { t with
      state := .completed, completedPayload := some resultJson, cancelAtMs := none },
      fun _ => rfl⟩

/-- `complete`. `taskId` is the run's task, read before the batch. -/
def complete (seed : String) (claim : WorkerClaim) (taskId resultJson : String) (now : ℤ) (db : Db) :
    Outcome :=
  let completed := completeTaskMirror (completeCas db seed claim resultJson now) seed claim resultJson
  ⟨addTaskDone (waitsGone completed seed claim.runId .complete) seed claim.queue taskId .task
      (encodeTaskOutcome (.completed resultJson)),
    wonBy .complete (∃ r ∈ db.runs, completeGuard db claim r)⟩

/-! ## The saga arm -/

/-- `task-rolling-back`: the task follows the pass this batch placed, its user budget the pass. -/
def taskRollingBack (db : Db) (seed queue failedRunId passId : String) (fence : Statement) : Db :=
  runsToTasks db seed .taskRollingBack .rollbackPass queue (fun f => f.runId = passId)
    (fun t => t.state.Live)
    ⟨fun t => { t with
      attempts := userAttemptsFrom db seed failedRunId fence t
      maxAttempts := userAttemptsFrom db seed failedRunId fence t + 1
      state := stampedRunState db seed passId .rollbackPass t
      lastAttemptRun := some passId }, fun _ => rfl⟩

/-- The phase marker, when the batch enters the phase. -/
def sagaPhaseMarker (db : Db) (seed passId : String) (enteringWith : Option String) : Db :=
  match enteringWith with
  | none => db
  | some reason => checkpointWrite db seed passId ⟨SAGA_PHASE_CHECKPOINT, reason⟩ .rollbackPass

/-- What a rollback pass requires of the run it follows and of its task. -/
def passAdmission (admission : Run → Task → Prop) (f : Run) (t : Task) : Prop :=
  t.state.Live ∧ admission f t ∧ f.attempt - t.infraRetries < maxAttemptsBounds.max

instance (admission : Run → Task → Prop) [∀ f t, Decidable (admission f t)] (f : Run) (t : Task) :
    Decidable (passAdmission admission f t) := by
  unfold passAdmission
  infer_instance

/-- `sagaPass`: the rollback pass, the phase marker when this batch enters the phase, and the task
following the pass. Every statement keys on the pass's own stamp. -/
def sagaPass (db : Db) (seed queue failedRunId passId : String) (fence : Statement)
    (enteringWith : Option String) (delayMs : ℤ) (admission : Run → Task → Prop)
    [∀ f t, Decidable (admission f t)] : Option Db := do
  let placed ← failureSuccessor db seed .rollbackPass fence passId failedRunId delayMs
    (if delayMs ≤ 0 then .pending else .sleeping) (passAdmission admission)
  return taskRollingBack (sagaPhaseMarker placed seed passId enteringWith) seed queue failedRunId
    passId fence

/-! ## fail and failRollback -/

/-- A failed rollback: its attempt record, and the delay of the pass that retries it. -/
structure RollbackFailure where
  tried : CheckpointWrite
  passDelayMs : Option ℤ
  deriving DecidableEq

/-- What the failure batch is handed: the claim, the run's task, the user retry's delay, and the
failed rollback when it is one. `passId` is the identity of the run that follows, the user retry's
or the pass's. -/
structure Failure where
  claim : WorkerClaim
  failureJson : String
  taskId : String
  retryDelayMs : Option ℤ
  passId : String
  rollback : Option RollbackFailure
  deriving DecidableEq

/-- What the callers of the failure batch promise: a failed rollback has no user retry, and its
record is under the engine's name. -/
def Failure.Admitted (failure : Failure) : Prop :=
  ∀ rollback ∈ failure.rollback,
    failure.retryDelayMs = none ∧ namedUnder rollback.tried.key SAGA_TRIES_PREFIX

/-- `failCas`'s guard. A failed rollback is one only while its task is rolling back. -/
def failGuard (db : Db) (now : ℤ) (failure : Failure) (r : Run) : Prop :=
  failure.claim.Holds r ∧
    (∃ t ∈ db.tasks, runOwnedByTask r t ∧
      (¬ t.state.Live ∨
        (t.state.Live ∧ soleLiveRun db r ∧ storedCurrentRunAccounting r t ∧
          storedHighestOwnedOrdinal db r ∧
          ∀ delay ∈ failure.retryDelayMs,
            t.maxAttempts ≤ r.attempt - t.infraRetries ∨ epochAdditionFits now delay))) ∧
    (failure.rollback ≠ none → sagaBegan db r.taskId)
deriving Decidable

/-- `failedRunColumns`: what every transition that fails a run assigns. -/
def failedRun (seed : String) (name : Statement) (reason : String) (now : ℤ) (r : Run) : Run :=
  { r with
    state := .failed
    failedAtMs := some now
    failureReason := some reason
    claimedBy := none
    fenceStamp := some ⟨seed, name⟩
    fenceAtMs := now }

/-- What a failure whose lease goes with it assigns. -/
def failAssignments (seed : String) (name : Statement) (reason : String) (now : ℤ) (r : Run) : Run :=
  { failedRun seed name reason now r with claimExpiresAtMs := none }

/-- The terminal arm of the failure batch yields to the run it placed: the run of this id, one past
the failed run. -/
def followedBy (db : Db) (successorId runId : String) (t : Task) : Prop :=
  ∃ p ∈ db.runs, p.runId = runId ∧ successorOwned db successorId t.taskId (p.attempt + 1)
deriving Decidable

/-- What entering the phase requires in a failure batch: a rollback owed, and no user retry left. -/
def enterAdmission (db : Db) (failure : Failure) (f : Run) (t : Task) : Prop :=
  ¬ sagaBegan db t.taskId ∧ rollbackPending db t.taskId ∧
    (failure.retryDelayMs ≠ none → t.maxAttempts ≤ f.attempt - t.infraRetries)
deriving Decidable

/-- What the pass that retries a rollback requires: a delay that fits. -/
def retryPassAdmission (delay : ℤ) (f : Run) (_ : Task) : Prop := epochAdditionFits f.fenceAtMs delay

instance (delay : ℤ) (f : Run) (t : Task) : Decidable (retryPassAdmission delay f t) :=
  inferInstanceAs (Decidable (epochAdditionFits f.fenceAtMs delay))

/-- The saga arm of the failure batch. Outside the phase it enters it; inside, it places the pass
that retries the rollback. -/
def failSagaPass (db : Db) (seed : String) (failure : Failure) : Option Db :=
  match failure.rollback with
  | none =>
    sagaPass db seed failure.claim.queue failure.claim.runId failure.passId .fail
      (some failure.failureJson) 0 (enterAdmission db failure)
  | some rollback =>
    match rollback.passDelayMs with
    | none => some db
    | some delay =>
      sagaPass db seed failure.claim.queue failure.claim.runId failure.passId .fail none delay
        (retryPassAdmission delay)

/-- `failCas`. -/
def failCas (db : Db) (seed : String) (failure : Failure) (now : ℤ) : Db :=
  { db with
    runs := db.runs.update (failGuard db now failure)
      ⟨failAssignments seed .fail failure.failureJson now, fun _ => rfl⟩ }

/-- The attempt record of a failed rollback. -/
def rollbackTries (db : Db) (seed : String) (failure : Failure) : Db :=
  match failure.rollback with
  | none => db
  | some rollback => checkpointWrite db seed failure.claim.runId rollback.tried .fail

/-- What a user retry requires of the run it follows and of its task. -/
def retryAdmission (f : Run) (t : Task) : Prop :=
  t.state.Live ∧ f.attempt - t.infraRetries < t.maxAttempts ∧
    storedIncrementableInteger attemptBounds f.attempt
deriving Decidable

/-- `task-retrying`: the task follows the user retry this batch placed. -/
def taskRetrying (db : Db) (seed : String) (failure : Failure) : Db :=
  runsToTasks db seed .taskRetrying .successor failure.claim.queue
    (fun f => f.runId = failure.passId) (fun t => t.state.Live)
    ⟨fun t => { t with
      attempts := userAttemptsFrom db seed failure.claim.runId .fail t
      state := stampedRunState db seed failure.passId .successor t
      lastAttemptRun := some failure.passId }, fun _ => rfl⟩

/-- The user retry, when the failure is handed a delay. -/
def userRetry (db : Db) (seed : String) (failure : Failure) : Option Db :=
  match failure.retryDelayMs with
  | none => some db
  | some delay =>
    (failureSuccessor db seed .successor .fail failure.passId failure.claim.runId delay
      (if delay ≤ 0 then .pending else .sleeping) retryAdmission).map fun placed =>
        taskRetrying placed seed failure

/-- The statement that ends the task of a failure batch. -/
def Failure.terminal (failure : Failure) : Statement :=
  if failure.retryDelayMs = none then .task else .taskTerminal

/-- The terminal arm of the failure batch, `task` or `task-terminal`. -/
def failTerminal (db : Db) (seed : String) (failure : Failure) : Db :=
  runsToTasks db seed failure.terminal .fail failure.claim.queue
    (fun f => f.runId = failure.claim.runId)
    (fun t => t.state.Live ∧ ¬ followedBy db failure.passId failure.claim.runId t)
    ⟨fun t => { t with
      attempts := userAttemptsFrom db seed failure.claim.runId .fail t
      state := .failed
      failureReason := some failure.failureJson }, fun _ => rfl⟩

/-- `failInto`: the failure batch, which `fail` and `failRollback` each run under their own label. -/
def failInto (seed : String) (failure : Failure) (now : ℤ) (db : Db) : Option Outcome := do
  let passed ← failSagaPass (rollbackTries (failCas db seed failure now) seed failure) seed failure
  let retried ← userRetry passed seed failure
  let ended := waitsGone (failTerminal retried seed failure) seed failure.claim.runId .fail
  return ⟨addTaskDone ended seed failure.claim.queue failure.taskId failure.terminal
      (encodeTaskOutcome (.failed failure.failureJson)),
    wonBy .fail (∃ r ∈ db.runs, failGuard db now failure r)⟩

/-! ## The sweep -/

/-- The expired claim a sweep found, and the identity of the run that may follow it. -/
structure Swept where
  queue : String
  runId : String
  taskId : String
  claimGen : ℤ
  passId : String
  deriving DecidableEq

/-- `whereSweptClaim`: the run still running under the generation the scan read. -/
def whereSweptClaim (swept : Swept) (r : Run) : Prop :=
  r.runId = swept.runId ∧ r.queue = swept.queue ∧ r.state = .running ∧ r.claimGen = swept.claimGen
deriving Decidable

/-- `storedSweepGenerations`. -/
def storedSweepGenerations (r : Run) : Prop :=
  positiveClaimGenerationBounds.Within r.claimGen ∧ activatedGenBounds.Within r.activatedGen
deriving Decidable

/-- `sweepLiveOwnerAdmissible`: a live owner may reopen a lost launch or fail a timeout. -/
def sweepLiveOwnerAdmissible (db : Db) (r : Run) (t : Task) : Prop :=
  (storedSweepGenerations r ∧ relaunchCountBounds.Within r.relaunchCount) ∧ soleLiveRun db r ∧
    storedCurrentRunAccounting r t ∧ storedHighestOwnedOrdinal db r ∧
    (r.activatedGen < r.claimGen ∨
      (r.activatedGen = r.claimGen ∧
        (t.infraRetries = INFRA_RETRY_CAP ∨
          (storedIncrementableInteger attemptBounds r.attempt ∧
            r.attempt = t.attempts + t.infraRetries + 1))))
deriving Decidable

/-- `sweepTerminalOwnerAdmissible`: a terminal owner's running row may still be quiesced. -/
def sweepTerminalOwnerAdmissible (r : Run) : Prop :=
  storedSweepGenerations r ∧
    (r.activatedGen = r.claimGen ∨
      (r.activatedGen < r.claimGen ∧ relaunchCountBounds.Within r.relaunchCount ∧
        r.relaunchCount = RELAUNCH_CAP))
deriving Decidable

/-- The claim expired before its launch activated. -/
def launchLost (now : ℤ) (r : Run) : Prop := r.activatedGen < r.claimGen ∧ runClaimExpired r now
deriving Decidable

/-- The lost launch's live owner. -/
def sweptLiveOwner (db : Db) (r : Run) : Prop :=
  ∃ t ∈ db.tasks, runOwnedByTask r t ∧ t.state.Live ∧ sweepLiveOwnerAdmissible db r t
deriving Decidable

/-- The lost launch's terminal owner. -/
def sweptTerminalOwner (db : Db) (r : Run) : Prop :=
  ∃ t ∈ db.tasks, runOwnedByTask r t ∧ ¬ t.state.Live ∧ sweepTerminalOwnerAdmissible r
deriving Decidable

/-- `relaunchDelayMs`: the linear backoff of a relaunch. -/
def relaunchDelayMs (r : Run) : ℤ :=
  min ((r.relaunchCount + 1) * RELAUNCH_BACKOFF_BASE_SECONDS) RELAUNCH_BACKOFF_MAX_SECONDS * 1000

/-- `reopenLostLaunchCas`'s guard. -/
def reopenGuard (db : Db) (now : ℤ) (swept : Swept) (r : Run) : Prop :=
  whereSweptClaim swept r ∧ launchLost now r ∧ r.relaunchCount < RELAUNCH_CAP ∧
    sweptLiveOwner db r ∧ epochAdditionFits now (relaunchDelayMs r)
deriving Decidable

/-- `capLostLaunchCas`'s guard. -/
def capGuard (db : Db) (now : ℤ) (swept : Swept) (r : Run) : Prop :=
  whereSweptClaim swept r ∧ launchLost now r ∧ r.relaunchCount = RELAUNCH_CAP ∧
    (sweptLiveOwner db r ∨ sweptTerminalOwner db r)
deriving Decidable

/-- The run this batch placed one past the run it stamped. -/
def sweepFollowedBy (db : Db) (seed : String) (fence : Statement) (swept : Swept) (t : Task) : Prop :=
  ∃ p ∈ stampedRun db seed swept.runId fence, successorOwned db swept.passId t.taskId (p.attempt + 1)
deriving Decidable

/-- What entering the phase requires in a sweep: a rollback owed. -/
def capAdmission (db : Db) (_ : Run) (t : Task) : Prop :=
  ¬ sagaBegan db t.taskId ∧ rollbackPending db t.taskId
deriving Decidable

/-- A sweep's cap enters the rolling-back phase when a registered step is owed its rollback. -/
def capSagaPass (db : Db) (seed : String) (swept : Swept) (fence : Statement) (reason : String) :
    Option Db :=
  sagaPass db seed swept.queue swept.runId swept.passId fence (some reason) 0 (capAdmission db)

/-- What `reopenLostLaunchCas` assigns. -/
def reopenAssignments (seed : String) (now : ℤ) (r : Run) : Run :=
  { r with
    state := .pending
    claimedBy := none
    claimExpiresAtMs := none
    heartbeatAtMs := none
    relaunchCount := r.relaunchCount + 1
    availableAtMs := some (now + relaunchDelayMs r)
    fenceStamp := some ⟨seed, .reopen⟩
    fenceAtMs := now }

/-- `reopenLostLaunchCas`. -/
def reopenLostLaunchCas (db : Db) (seed : String) (swept : Swept) (now : ℤ) : Db :=
  { db with
    runs := db.runs.update (reopenGuard db now swept)
      ⟨reopenAssignments seed now, fun _ => rfl⟩ }

/-- `capLostLaunchCas`. -/
def capLostLaunchCas (db : Db) (seed : String) (swept : Swept) (now : ℤ) : Db :=
  { db with
    runs := db.runs.update (capGuard db now swept)
      ⟨failAssignments seed .cap REASON_RELAUNCH_CAP now, fun _ => rfl⟩ }

/-- `task-pending`: the task follows the reopened run. -/
def taskPending (db : Db) (seed : String) (swept : Swept) : Db :=
  runsToTasks db seed .taskPending .reopen swept.queue (fun f => f.runId = swept.runId)
    (fun t => t.state.Live) ⟨fun t => { t with state := .pending }, Table.same_keys Task.keys⟩

/-- `task-fail`: the relaunch cap ends the task, unless this batch placed a rollback pass. -/
def taskFail (db : Db) (seed : String) (swept : Swept) : Db :=
  runsToTasks db seed .taskFail .cap swept.queue (fun f => f.runId = swept.runId)
    (fun t => t.state.Live ∧ ¬ sweepFollowedBy db seed .cap swept t)
    ⟨fun t => { t with state := .failed, failureReason := some REASON_RELAUNCH_CAP },
      fun _ => rfl⟩

/-- `sweepLostLaunch`: a launch that never activated is reopened, or fails at the relaunch cap. -/
def sweepLostLaunch (seed : String) (swept : Swept) (now : ℤ) (db : Db) : Option Outcome := do
  let reopened := reopenLostLaunchCas db seed swept now
  let passed ← capSagaPass (capLostLaunchCas reopened seed swept now) seed swept .cap
    REASON_RELAUNCH_CAP
  let ended := waitsGone (taskFail (taskPending passed seed swept) seed swept) seed swept.runId .cap
  return ⟨addTaskDone ended seed swept.queue swept.taskId .taskFail
      (encodeTaskOutcome (.failed REASON_RELAUNCH_CAP)),
    (wonBy .reopen (∃ r ∈ db.runs, reopenGuard db now swept r)).or
      (wonBy .cap (∃ r ∈ reopened.runs, capGuard reopened now swept r))⟩

/-- `failClaimTimeoutCas`'s guard. -/
def claimTimeoutGuard (db : Db) (now : ℤ) (swept : Swept) (r : Run) : Prop :=
  whereSweptClaim swept r ∧ (r.activatedGen = r.claimGen ∧ runClaimExpired r now) ∧
    ∃ t ∈ db.tasks, runOwnedByTask r t ∧
      ((¬ t.state.Live ∧ sweepTerminalOwnerAdmissible r) ∨
        (t.state.Live ∧ sweepLiveOwnerAdmissible db r t ∧
          (t.infraRetries = INFRA_RETRY_CAP ∨
            epochAdditionFits now (INFRA_BACKOFF_SECONDS * 1000))))
deriving Decidable

/-- `failClaimTimeoutCas`. The lease columns of the dead claim stay. -/
def failClaimTimeoutCas (db : Db) (seed : String) (swept : Swept) (now : ℤ) : Db :=
  { db with
    runs := db.runs.update (claimTimeoutGuard db now swept)
      ⟨failedRun seed .fail REASON_CLAIM_TIMEOUT now, fun _ => rfl⟩ }

/-- What an infrastructure successor requires of the run it follows and of its task. -/
def infraAdmission (f : Run) (t : Task) : Prop :=
  t.state.Live ∧ infraRetriesBounds.Within t.infraRetries ∧ t.infraRetries < INFRA_RETRY_CAP ∧
    storedIncrementableInteger attemptBounds f.attempt
deriving Decidable

/-- `claimTimeoutSuccessorInsert`. -/
def claimTimeoutSuccessor (db : Db) (seed : String) (swept : Swept) : Option Db :=
  failureSuccessor db seed .successor .fail swept.passId swept.runId (INFRA_BACKOFF_SECONDS * 1000)
    .pending infraAdmission

/-- `task-terminal` of a claim timeout: the infrastructure cap ends the task, unless this batch
placed a run after the one it failed. -/
def timeoutTerminal (db : Db) (seed : String) (swept : Swept) : Db :=
  runsToTasks db seed .taskTerminal .fail swept.queue (fun f => f.runId = swept.runId)
    (fun t => t.state.Live ∧ infraRetriesBounds.Within t.infraRetries ∧
      t.infraRetries = INFRA_RETRY_CAP ∧ ¬ sweepFollowedBy db seed .fail swept t)
    ⟨fun t => { t with state := .failed, failureReason := some REASON_INFRA_CAP }, fun _ => rfl⟩

/-- `bookkeeping`: the task follows the infrastructure successor, whose ordinal says the retries. -/
def bookkeeping (db : Db) (seed : String) (swept : Swept) : Db :=
  runsToTasks db seed .bookkeeping .successor swept.queue (fun f => f.runId = swept.passId)
    (fun t => t.state.Live)
    ⟨fun t => { t with
      infraRetries := infraRetriesFrom db seed swept.passId .successor t
      state := .pending
      lastAttemptRun := some swept.passId }, fun _ => rfl⟩

/-- `sweepClaimTimeout`: the activated worker died, so its run fails and an infrastructure successor
follows it, to the cap. -/
def sweepClaimTimeout (seed : String) (swept : Swept) (now : ℤ) (db : Db) : Option Outcome := do
  let placed ← claimTimeoutSuccessor (failClaimTimeoutCas db seed swept now) seed swept
  let passed ← capSagaPass placed seed swept .fail REASON_INFRA_CAP
  let booked := bookkeeping (timeoutTerminal passed seed swept) seed swept
  let ended := waitsGone booked seed swept.runId .fail
  return ⟨addTaskDone ended seed swept.queue swept.taskId .taskTerminal
      (encodeTaskOutcome (.failed REASON_INFRA_CAP)),
    wonBy .fail (∃ r ∈ db.runs, claimTimeoutGuard db now swept r)⟩

/-! ## cancelTask -/

/-- A cancellation: the explicit call, which may spare a saga, or the sweep's, of a passed
deadline. -/
structure Cancellation where
  queue : String
  taskId : String
  deadlineOnly : Bool
  unlessSagaBegan : Bool
  deriving DecidableEq

/-- `cancelCas`'s guard. -/
def cancelGuard (db : Db) (now : ℤ) (c : Cancellation) (t : Task) : Prop :=
  t.taskId = c.taskId ∧ t.queue = c.queue ∧ t.state.Live ∧ (c.deadlineOnly → cancelDue t now) ∧
    taskOwnsEveryRun db t ∧ (c.unlessSagaBegan → ¬ sagaBegan db t.taskId)
deriving Decidable

/-- `cancelCas`. -/
def cancelCas (db : Db) (seed : String) (c : Cancellation) (now : ℤ) : Db :=
  { db with
    tasks := db.tasks.update (cancelGuard db now c)
      ⟨fun t => { t with
        state := .cancelled
        cancelledAtMs := some now
        cancelAtMs := none
        failureReason := some REASON_CANCELLED
        fenceStamp := some ⟨seed, .cancel⟩
        fenceAtMs := now }, fun _ => rfl⟩ }

/-- What cancelling a run assigns. -/
def cancelAssignments (r : Run) : Run :=
  { r with state := .cancelled, claimedBy := none, claimExpiresAtMs := none }

/-- `runs` of a cancellation: the live runs of the task this batch cancelled. -/
def cancelRuns (db : Db) (seed : String) (c : Cancellation) : Db :=
  tasksToRuns db seed .runs .cancel c.queue (fun f => f.taskId = c.taskId)
    (fun r => r.taskId = c.taskId ∧ r.state.Live)
    ⟨cancelAssignments, fun _ => rfl⟩

/-- `waits` of a cancellation: the waits of the runs this batch cancelled. -/
def cancelWaits (db : Db) (seed : String) (c : Cancellation) : Db :=
  runsToWaits db seed .runs (fun f => f.taskId = c.taskId ∧ f.state = .cancelled) fun _ => True

/-- `cancelTransition`, which `cancelTask` and the sweep share. -/
def cancelTransition (seed : String) (c : Cancellation) (now : ℤ) (db : Db) : Outcome :=
  let ended := cancelWaits (cancelRuns (cancelCas db seed c now) seed c) seed c
  ⟨addTaskDone ended seed c.queue c.taskId .cancel
      (encodeTaskOutcome (.cancelled REASON_CANCELLED)),
    wonBy .cancel (∃ t ∈ db.tasks, cancelGuard db now c t)⟩

end Durablerun
