import Durablerun.Lib.Gated
import Durablerun.Store.SpawnCalls
import Durablerun.Store.Sweep

/-!
# The statements of a batch, one by one

An executor over the network sends a batch's statements one at a time and counts the rows each wrote
or answered with. A statement of the batch names the one whose stamp gates it. Here every batch is the
list of its statements, each a form of write with its own condition and its own values, and the read at
its end, if it has one. A read is gated by a stamp of the batch, or open: what an open one answers with
may be an earlier batch's.

Reference: `packages/store-libsql/src/store.ts` and `packages/core/src/fenced-batch.ts`.
-/

namespace Durablerun

open Relational Gated

/-- A statement on the store's tables. -/
abbrev SentStatement := Command Db Statement

/-! ## Forms -/

section Forms

variable (name gate : Option Statement)

/-- An `UPDATE` of `runs`. -/
def updateRuns (p : Db → Run → Prop) [∀ db, DecidablePred (p db)]
    (f : Db → Table.Change Run.keys) : SentStatement where
  name := name
  gate := gate
  send db := some ({ db with runs := db.runs.update (p db) (f db) }, db.runs.count (p db))

/-- An `UPDATE` of `tasks`. -/
def updateTasks (p : Db → Task → Prop) [∀ db, DecidablePred (p db)]
    (f : Db → Table.Change Task.keys) : SentStatement where
  name := name
  gate := gate
  send db := some ({ db with tasks := db.tasks.update (p db) (f db) }, db.tasks.count (p db))

/-- A `DELETE` from `waits`. -/
def deleteWaits (p : Db → Wait → Prop) [∀ db, DecidablePred (p db)] : SentStatement where
  name := name
  gate := gate
  send db := some ({ db with waits := db.waits.delete (p db) }, db.waits.count (p db))

/-- An `INSERT` of the row a statement makes, if it makes one. -/
def insertRow {α : Type} (row : Db → Option α) (write : Db → α → Option (Db × ℕ)) :
    SentStatement where
  name := name
  gate := gate
  send db :=
    match row db with
    | none => some (db, 0)
    | some a => write db a

/-- An `INSERT` into `runs`, which a collision refuses. -/
def insertRun (row : Db → Option Run) : SentStatement :=
  insertRow name gate row fun db r => (db.runs.insert? r).map fun runs => ({ db with runs }, 1)

/-- An `INSERT … ON CONFLICT DO NOTHING` into `tasks`. -/
def insertTask (row : Db → Option Task) : SentStatement :=
  insertRow name gate row fun db t =>
    some ({ db with tasks := db.tasks.insertIgnore t }, if db.tasks.Free t then 1 else 0)

/-- An `INSERT … ON CONFLICT DO NOTHING` into `waits`. -/
def insertWait (row : Db → Option Wait) : SentStatement :=
  insertRow name gate row fun db w =>
    some ({ db with waits := db.waits.insertIgnore w }, if db.waits.Free w then 1 else 0)

/-- An `INSERT` into `events` of a row none stands in the way of. -/
def insertEvent (row : Db → Option Event) : SentStatement :=
  insertRow name gate row fun db e =>
    some ({ db with events := db.events.insertIgnore e }, if db.events.Free e then 1 else 0)

/-- An `INSERT … ON CONFLICT DO UPDATE` of `events`. -/
def upsertEvent (row : Event) (p : Event → Prop) [DecidablePred p] (f : Table.Change Event.keys) :
    SentStatement where
  name := name
  gate := gate
  send db := some ({ db with events := db.events.upsert row p f },
    if db.events.Free row then 1
    else db.events.count fun e => Table.Conflicts row e Event.keys ∧ p e)

/-- A `SELECT`, which answers with rows. -/
def readRows {α : Type} (gate : Option Statement) (rows : Db → List α) : SentStatement where
  name := none
  gate := gate
  send db := some (db, (rows db).length)

end Forms

variable (seed queue : String) (now : ℤ)

/-! ## Follow-ons -/

/-- A `'runs-to-tasks'` follow-on. -/
def tasksOfRuns (name fence : Statement) (where' : Run → Prop) [DecidablePred where']
    (narrow : Db → Task → Prop) [∀ db, DecidablePred (narrow db)]
    (set : Db → Table.Change Task.keys) : SentStatement :=
  updateTasks name fence
    (fun db t => (∃ f ∈ db.runs,
      (where' f ∧ f.queue = queue ∧ f.fenceStamp = some ⟨seed, fence⟩) ∧ f.taskId = t.taskId) ∧
        t.queue = queue ∧ narrow db t)
    (fun db => ⟨fun t => (set db t).stampedAt ⟨seed, name⟩ (sourceInstant ((db.runs.rows.filter
      fun f => where' f ∧ f.queue = queue ∧ f.fenceStamp = some ⟨seed, fence⟩).map Run.fenceAtMs)),
      (set db).keys_apply⟩)

/-- A `'runs-to-waits'` follow-on. -/
def waitsOfRuns (fence : Statement) (where' : Run → Prop) [DecidablePred where']
    (narrow : Db → Wait → Prop) [∀ db, DecidablePred (narrow db)] : SentStatement :=
  deleteWaits none fence fun db w =>
    (∃ f ∈ db.runs, (where' f ∧ f.fenceStamp = some ⟨seed, fence⟩) ∧ f.runId = w.runId) ∧ narrow db w

/-- A `'tasks-to-runs'` follow-on. -/
def runsOfTasks (name fence : Statement) (where' : Task → Prop) [DecidablePred where']
    (narrow : Db → Run → Prop) [∀ db, DecidablePred (narrow db)]
    (set : Table.Change Run.keys) : SentStatement :=
  updateRuns name fence
    (fun db r => (∃ f ∈ db.tasks,
      (where' f ∧ f.queue = queue ∧ f.fenceStamp = some ⟨seed, fence⟩) ∧ f.taskId = r.taskId) ∧
        r.queue = queue ∧ narrow db r)
    (fun db => ⟨fun r => (set r).stampedAt ⟨seed, name⟩ (sourceInstant ((db.tasks.rows.filter
      fun f => where' f ∧ f.queue = queue ∧ f.fenceStamp = some ⟨seed, fence⟩).map Task.fenceAtMs)),
      set.keys_apply⟩)

/-- A `'waits-to-runs'` follow-on. -/
def runsOfWaits (name fence : Statement) (where' : Wait → Prop) [DecidablePred where']
    (narrow : Db → Run → Prop) [∀ db, DecidablePred (narrow db)]
    (set : Db → Table.Change Run.keys) : SentStatement :=
  updateRuns name fence
    (fun db r => (∃ f ∈ db.waits,
      (where' f ∧ f.queue = queue ∧ f.fenceStamp = some ⟨seed, fence⟩) ∧ f.runId = r.runId) ∧
        r.queue = queue ∧ narrow db r)
    (fun db => ⟨fun r => (set db r).stampedAt ⟨seed, name⟩ (sourceInstant ((db.waits.rows.filter
      fun f => where' f ∧ f.queue = queue ∧ f.fenceStamp = some ⟨seed, fence⟩).map Wait.fenceAtMs)),
      (set db).keys_apply⟩)

/-- A seal of the runs' stamp. -/
def sealOfRuns (name fence : Statement) (where' : Run → Prop) [DecidablePred where'] :
    SentStatement :=
  updateRuns name fence
    (fun db r => ∃ f ∈ db.runs, (where' f ∧ f.fenceStamp = some ⟨seed, fence⟩) ∧ f.runId = r.runId)
    (fun db => ⟨fun r => r.stampedAt ⟨seed, name⟩ (sourceInstant ((db.runs.rows.filter
      fun f => where' f ∧ f.fenceStamp = some ⟨seed, fence⟩).map Run.fenceAtMs)),
        Table.same_keys Run.keys⟩)

/-- `taskMirrorsRun` and `waitsGone`, as `finishSuspension` sends them. -/
def finishSuspensionStatements (runId : String) : List SentStatement :=
  [tasksOfRuns seed queue .taskMirror .suspend (fun f => f.runId = runId)
      (fun _ t => t.state.Live)
      (fun db => ⟨fun t => { t with state := stampedRunState db seed runId .suspend t },
        Table.same_keys Task.keys⟩),
    waitsOfRuns seed .suspend (fun f => f.runId = runId) fun _ _ => True]

/-- `checkpointWrite`. -/
def checkpointStatement (runId : String) (write : CheckpointWrite) (fence : Statement) :
    SentStatement where
  name := none
  gate := fence
  send db := some (checkpointWrite db seed runId write fence,
    match stampedRun db seed runId fence with
    | none => 0
    | some f =>
      if attemptBounds.Within f.attempt then
        if db.checkpoints.Free (checkpointRow f write) then 1
        else db.checkpoints.count fun c =>
          Table.Conflicts (checkpointRow f write) c Checkpoint.keys ∧ c.ownerAttempt ≤ f.attempt
      else 0)

/-- `failureSuccessor`. -/
def successorStatement (name fence : Statement) (successorId runId : String) (delayMs : ℤ)
    (state : TaskState) (admission : Db → Run → Task → Prop)
    [∀ db f t, Decidable (admission db f t)] : SentStatement :=
  insertRun name fence fun db => (stampedRun db seed runId fence).bind fun f =>
    if (∃ t ∈ db.tasks, runOwnedByTask f t ∧ admission db f t) ∧
        ¬ successorOwned db successorId f.taskId (f.attempt + 1) then
      some (successorRun seed name successorId f state (f.fenceAtMs + delayMs) f.fenceAtMs)
    else none

/-- `wakeWaiters`. -/
def wakeWaitersStatements (eventName : String) : List SentStatement :=
  [updateRuns (some .wakeRuns) (some .event) (fun db => wakeRunsGuard db seed queue eventName)
      (fun db => ⟨wakeAssignments db seed eventName, Table.same_keys Run.keys⟩),
    tasksOfRuns seed queue .wakeTasks .wakeRuns
      (fun f => f.wakeEvent = some eventName ∧ f.state = .pending) (fun _ t => t.state.Live)
      (fun _ => ⟨fun t => { t with state := .pending }, Table.same_keys Task.keys⟩),
    waitsOfRuns seed .wakeRuns
      (fun f => f.queue = queue ∧ f.wakeEvent = some eventName ∧ f.state = .pending)
      (fun _ w => w.eventName = eventName),
    sealOfRuns seed .wakeFinished .wakeRuns
      fun f => f.queue = queue ∧ f.wakeEvent = some eventName ∧ f.state = .pending]

/-- `taskDoneEventInsert`. -/
def taskDoneStatement (taskId : String) (terminal : Statement) (payloadJson : String) :
    SentStatement :=
  insertEvent (some .event) (some terminal) fun db =>
    (db.tasks.rows.find? fun f =>
      f.taskId = taskId ∧ f.queue = queue ∧ f.fenceStamp = some ⟨seed, terminal⟩).bind fun f =>
        if ∃ e ∈ db.events, e.queue = f.queue ∧ e.eventName = taskDoneEventName taskId then none
        else some {
          queue := f.queue
          eventName := taskDoneEventName taskId
          payload := payloadJson
          emittedAtMs := f.fenceAtMs
          fenceStamp := some ⟨seed, .event⟩
          fenceAtMs := f.fenceAtMs }

/-- `addTaskDone`. -/
def taskDoneStatements (taskId : String) (terminal : Statement) (payloadJson : String) :
    List SentStatement :=
  taskDoneStatement seed queue taskId terminal payloadJson ::
    wakeWaitersStatements seed queue (taskDoneEventName taskId)

/-- `sagaPass`. -/
def sagaPassStatements (failedRunId passId : String) (fence : Statement)
    (enteringWith : Option String) (delayMs : ℤ) (admission : Db → Run → Task → Prop)
    [∀ db f t, Decidable (admission db f t)] : List SentStatement :=
  successorStatement seed .rollbackPass fence passId failedRunId delayMs
      (if delayMs ≤ 0 then .pending else .sleeping) (fun db => passAdmission (admission db)) ::
    ((enteringWith.map fun reason =>
      checkpointStatement seed passId ⟨SAGA_PHASE_CHECKPOINT, reason⟩ .rollbackPass).toList ++
    [tasksOfRuns seed queue .taskRollingBack .rollbackPass (fun f => f.runId = passId)
      (fun _ t => t.state.Live)
      (fun db => ⟨fun t => { t with
        attempts := userAttemptsFrom db seed failedRunId fence t
        maxAttempts := userAttemptsFrom db seed failedRunId fence t + 1
        state := stampedRunState db seed passId .rollbackPass t
        lastAttemptRun := some passId }, Table.same_keys Task.keys⟩)])

/-! ## Batches -/

/-- A sweep's saga arm. -/
def capSagaPassStatements (swept : Swept) (fence : Statement) (reason : String) :
    List SentStatement :=
  sagaPassStatements seed swept.queue swept.runId swept.passId fence (some reason) 0 capAdmission

/-- The saga arm of the failure batch. -/
def failSagaPassStatements (failure : Failure) : List SentStatement :=
  match failure.rollback with
  | none =>
    sagaPassStatements seed failure.claim.queue failure.claim.runId failure.passId .fail
      (some failure.failureJson) 0 fun db => enterAdmission db failure
  | some rollback =>
    match rollback.passDelayMs with
    | none => []
    | some delay =>
      sagaPassStatements seed failure.claim.queue failure.claim.runId failure.passId .fail none delay
        fun _ => retryPassAdmission delay

/-- The user retry of the failure batch. -/
def userRetryStatements (failure : Failure) : List SentStatement :=
  match failure.retryDelayMs with
  | none => []
  | some delay =>
    [successorStatement seed .successor .fail failure.passId failure.claim.runId delay
        (if delay ≤ 0 then .pending else .sleeping) (fun _ => retryAdmission),
      tasksOfRuns seed failure.claim.queue .taskRetrying .successor
        (fun f => f.runId = failure.passId) (fun _ t => t.state.Live)
        (fun db => ⟨fun t => { t with
          attempts := userAttemptsFrom db seed failure.claim.runId .fail t
          state := stampedRunState db seed failure.passId .successor t
          lastAttemptRun := some failure.passId }, Table.same_keys Task.keys⟩)]

/-- The statements of a call's batch, in the order they are sent. Each names the statement whose stamp
gates it; a compare-and-set and an open read are gated by none. -/
def Call.statements : Call → List SentStatement
  | .spawn call =>
    [insertTask (some .task) none fun db =>
        if spawnGuard db now call then some (call.task seed now) else none,
      insertRun (some .run) (some .task) fun db =>
        (db.tasks.rows.find? fun f =>
          f.taskId = call.taskId ∧ f.fenceStamp = some ⟨seed, .task⟩).bind fun f =>
            if epochBounds.Within f.enqueueAtMs ∧ ¬ ∃ r ∈ db.runs, r.taskId = f.taskId then
              some (firstRun seed call.runId f)
            else none,
      readRows none fun db => (spawnReceiptRead db call).toList]
  | .claim call =>
    [updateRuns (some .claim) none (fun db => claimGuard db now call)
        (fun db => ⟨claimAssignments db seed now call, Table.same_keys Run.keys⟩),
      tasksOfRuns seed call.queue .taskBook .claim (claimTaken call) (fun _ t => t.state.Live)
        (fun db => ⟨fun t => { t with
          state := .running, lastAttemptRun := claimedRunOf db seed t },
            Table.same_keys Task.keys⟩),
      waitsOfRuns seed .claim (claimTaken call) fun db w =>
        ∃ timeout ∈ w.timeoutAtMs, epochBounds.Within timeout ∧
          ∃ f ∈ stampedRun db seed w.runId .claim, timeout ≤ f.fenceAtMs,
      readRows none fun db => claimReceiptRead db call.queue call.claimToken]
  | .activate receipt =>
    [updateRuns (some .activate) none (fun db => activateGuard db now receipt)
        (fun _ => ⟨activateAssignments seed receipt now, Table.same_keys Run.keys⟩),
      tasksOfRuns seed receipt.queue .taskStart .activate (fun f => f.runId = receipt.runId)
        (fun _ t => t.state.Live)
        (fun db => ⟨fun t => { t with
          firstStartedAtMs := t.firstStartedAtMs.or
            ((stampedRun db seed receipt.runId .activate).map Run.fenceAtMs)
          cancelAtMs := (taskMaxDurationMs t).bind fun d =>
            (t.firstStartedAtMs.or
              ((stampedRun db seed receipt.runId .activate).map Run.fenceAtMs)).map (· + d) },
          Table.same_keys Task.keys⟩),
      readRows (some .activate) fun db => activatedRunRead db seed receipt.runId]
  | .heartbeat held extensionMs =>
    [updateRuns (some .extend) none (fun db => heartbeatGuard db now held extensionMs)
        fun _ => ⟨leaseAssignments seed .extend extensionMs now, Table.same_keys Run.keys⟩,
      readRows (some .extend) fun db => heartbeatRemainingRead db seed held.runId]
  | .deferLaunch receipt delayMs =>
    updateRuns (some .suspend) none (fun db => deferLaunchGuard db now receipt delayMs)
        (fun _ => ⟨parkAssignments seed .suspend ((WakeSpec.inMs delayMs).wakeAt now) now,
          Table.same_keys Run.keys⟩) ::
      finishSuspensionStatements seed receipt.queue receipt.runId
  | .reschedule held wake =>
    updateRuns (some .suspend) none (fun db => rescheduleGuard db now held wake)
        (fun _ => ⟨suspendAssignments seed wake now, Table.same_keys Run.keys⟩) ::
      finishSuspensionStatements seed held.queue held.runId
  | .suspendRun held wake checkpoint =>
    updateRuns (some .suspend) none (fun db => suspendRunGuard db now held wake checkpoint)
        (fun _ => ⟨suspendAssignments seed wake now, Table.same_keys Run.keys⟩) ::
      checkpointStatement seed held.runId checkpoint .suspend ::
      finishSuspensionStatements seed held.queue held.runId
  | .awaitEvent call =>
    [insertWait (some .register) none fun db =>
        if registerGuard db now call then some (call.wait seed now) else none,
      runsOfWaits seed call.queue .park .register
        (fun f => f.runId = call.runId ∧ f.stepName = call.stepName)
        (fun db => awaitParkNarrow db call)
        (fun db => ⟨awaitAssignments call (registeredTimeout db seed call),
          Table.same_keys Run.keys⟩),
      tasksOfRuns seed call.queue .taskMirror .park
        (fun f => f.runId = call.runId ∧ f.state = .sleeping) (fun _ t => t.state.Live)
        (fun _ => ⟨fun t => { t with state := .sleeping }, Table.same_keys Task.keys⟩),
      readRows none fun db => ((Call.awaitEvent call).hit db).toList]
  | .recordTaskDone call =>
    [insertEvent (some .materialize) none fun db =>
        (db.tasks.rows.find? fun c => materializeGuard db call c).map fun c => {
          queue := c.queue
          eventName := taskDoneEventName call.childTaskId
          payload := call.payloadJson
          emittedAtMs := now
          fenceStamp := some ⟨seed, .materialize⟩
          fenceAtMs := now },
      readRows none fun db => ((Call.recordTaskDone call).hit db).toList]
  | .emitEvent call =>
    upsertEvent (some .event) none (call.event seed now)
        (fun e => e.fenceStamp ≠ some ⟨seed, .event⟩ ∧ epochBounds.Within e.emittedAtMs)
        ⟨fun e => { e with fenceStamp := some ⟨seed, .event⟩, fenceAtMs := e.emittedAtMs },
          Table.same_keys Event.keys⟩ ::
      (wakeWaitersStatements seed call.queue call.eventName.value ++
      [readRows none fun db => storedEventRead db call.queue call.eventName])
  | .setCheckpoint held taskId checkpoint extendMs =>
    [updateRuns (some .lease) none
        (fun db => checkpointLeaseGuard db now held taskId checkpoint.key extendMs)
        (fun _ => ⟨leaseAssignments seed .lease extendMs now, Table.same_keys Run.keys⟩),
      checkpointStatement seed held.runId checkpoint .lease]
  | .complete held taskId resultJson =>
    updateRuns (some .complete) none (fun db => completeGuard db held)
        (fun _ => ⟨completeAssignments seed resultJson now, Table.same_keys Run.keys⟩) ::
      tasksOfRuns seed held.queue .task .complete (fun f => f.runId = held.runId)
        (fun _ t => t.state.Live)
        (fun _ => ⟨fun t => { t with
          state := .completed, completedPayload := some resultJson, cancelAtMs := none },
          Table.same_keys Task.keys⟩) ::
      waitsOfRuns seed .complete (fun f => f.runId = held.runId) (fun _ _ => True) ::
      taskDoneStatements seed held.queue taskId .task (encodeTaskOutcome (.completed resultJson))
  | .failInto failure =>
    updateRuns (some .fail) none (fun db => failGuard db now failure)
        (fun _ => ⟨failAssignments seed .fail failure.failureJson now, Table.same_keys Run.keys⟩) ::
      ((failure.rollback.map fun rollback =>
        checkpointStatement seed failure.claim.runId rollback.tried .fail).toList ++
      (failSagaPassStatements seed failure ++ (userRetryStatements seed failure ++
      (tasksOfRuns seed failure.claim.queue failure.terminal .fail
        (fun f => f.runId = failure.claim.runId)
        (fun db t => t.state.Live ∧ ¬ followedBy db failure.passId failure.claim.runId t)
        (fun db => ⟨fun t => { t with
          attempts := userAttemptsFrom db seed failure.claim.runId .fail t
          state := .failed
          failureReason := some failure.failureJson }, Table.same_keys Task.keys⟩) ::
      waitsOfRuns seed .fail (fun f => f.runId = failure.claim.runId) (fun _ _ => True) ::
      taskDoneStatements seed failure.claim.queue failure.taskId failure.terminal
        (encodeTaskOutcome (.failed failure.failureJson))))))
  | .sweepLostLaunch swept =>
    updateRuns (some .reopen) none (fun db => reopenGuard db now swept)
        (fun _ => ⟨reopenAssignments seed now, Table.same_keys Run.keys⟩) ::
      updateRuns (some .cap) none (fun db => capGuard db now swept)
        (fun _ => ⟨failAssignments seed .cap REASON_RELAUNCH_CAP now, Table.same_keys Run.keys⟩) ::
      (capSagaPassStatements seed swept .cap REASON_RELAUNCH_CAP ++
      (tasksOfRuns seed swept.queue .taskPending .reopen (fun f => f.runId = swept.runId)
        (fun _ t => t.state.Live) (fun _ => ⟨fun t => { t with state := .pending },
          Table.same_keys Task.keys⟩) ::
      tasksOfRuns seed swept.queue .taskFail .cap (fun f => f.runId = swept.runId)
        (fun db t => t.state.Live ∧ ¬ sweepFollowedBy db seed .cap swept t)
        (fun _ => ⟨fun t => { t with state := .failed, failureReason := some REASON_RELAUNCH_CAP },
          Table.same_keys Task.keys⟩) ::
      waitsOfRuns seed .cap (fun f => f.runId = swept.runId) (fun _ _ => True) ::
      taskDoneStatements seed swept.queue swept.taskId .taskFail
        (encodeTaskOutcome (.failed REASON_RELAUNCH_CAP))))
  | .sweepClaimTimeout swept =>
    updateRuns (some .fail) none (fun db => claimTimeoutGuard db now swept)
        (fun _ => ⟨failedRun seed .fail REASON_CLAIM_TIMEOUT now, Table.same_keys Run.keys⟩) ::
      successorStatement seed .successor .fail swept.passId swept.runId (INFRA_BACKOFF_SECONDS * 1000)
        .pending (fun _ => infraAdmission) ::
      (capSagaPassStatements seed swept .fail REASON_INFRA_CAP ++
      (tasksOfRuns seed swept.queue .taskTerminal .fail (fun f => f.runId = swept.runId)
        (fun db t => t.state.Live ∧ infraRetriesBounds.Within t.infraRetries ∧
          t.infraRetries = INFRA_RETRY_CAP ∧ ¬ sweepFollowedBy db seed .fail swept t)
        (fun _ => ⟨fun t => { t with state := .failed, failureReason := some REASON_INFRA_CAP },
          Table.same_keys Task.keys⟩) ::
      tasksOfRuns seed swept.queue .bookkeeping .successor (fun f => f.runId = swept.passId)
        (fun _ t => t.state.Live)
        (fun db => ⟨fun t => { t with
          infraRetries := infraRetriesFrom db seed swept.passId .successor t
          state := .pending
          lastAttemptRun := some swept.passId }, Table.same_keys Task.keys⟩) ::
      waitsOfRuns seed .fail (fun f => f.runId = swept.runId) (fun _ _ => True) ::
      taskDoneStatements seed swept.queue swept.taskId .taskTerminal
        (encodeTaskOutcome (.failed REASON_INFRA_CAP))))
  | .cancelTransition c =>
    updateTasks (some .cancel) none (fun db => cancelGuard db now c)
        (fun _ => ⟨fun t => { t with
          state := .cancelled
          cancelledAtMs := some now
          cancelAtMs := none
          failureReason := some REASON_CANCELLED
          fenceStamp := some ⟨seed, .cancel⟩
          fenceAtMs := now }, Table.same_keys Task.keys⟩) ::
      runsOfTasks seed c.queue .runs .cancel (fun f => f.taskId = c.taskId)
        (fun _ r => r.taskId = c.taskId ∧ r.state.Live) ⟨cancelAssignments,
          Table.same_keys Run.keys⟩ ::
      waitsOfRuns seed .runs (fun f => f.taskId = c.taskId ∧ f.state = .cancelled) (fun _ _ => True) ::
      taskDoneStatements seed c.queue c.taskId .cancel (encodeTaskOutcome (.cancelled REASON_CANCELLED))
  | .retryTask call =>
    [updateTasks (some .revive) none (fun db => reviveGuard db call)
        (fun db => ⟨fun t => { t with
          state := .pending
          attempts := (retryCharged db t).getD t.attempts
          maxAttempts := t.maxAttempts + 1
          failureReason := none
          lastAttemptRun := some call.runId
          fenceStamp := some ⟨seed, .revive⟩
          fenceAtMs := now }, Table.same_keys Task.keys⟩),
      insertRun (some .run) (some .revive) fun db =>
        (db.tasks.rows.find? fun f =>
          f.taskId = call.taskId ∧ f.fenceStamp = some ⟨seed, .revive⟩).bind fun f =>
            (db.runs.rows.find? fun p => revivalParent db f p).map fun p =>
              revivalRun seed call.runId f p,
      readRows (some .run) fun db => revivedRunRead db seed call.runId]
  | .expireLeaseNow held =>
    [updateRuns none none (fun db => expireLeaseGuard db now held)
      fun _ => ⟨fun r => { r with claimExpiresAtMs := some now }, Table.same_keys Run.keys⟩]

end Durablerun
