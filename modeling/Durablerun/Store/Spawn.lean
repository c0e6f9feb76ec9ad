import Durablerun.Store.Claim

/-!
# The batches that start work

`spawn`, which creates a task with its first run, and `retryTask`, which revives a failed task with
one run more.

Reference: `packages/store-libsql/src/store.ts` and `packages/core/src/statements/spawn.ts`.
-/

namespace Durablerun

open Relational

/-! ## spawn -/

/-- The live claim a child spawn presents. -/
structure ParentClaim where
  queue : String
  runId : String
  taskId : String
  claimToken : String
  deriving DecidableEq

/-- What `spawn` is called with, its durations in milliseconds, and the ids it minted. -/
structure SpawnCall where
  queue : String
  taskId : String
  runId : String
  taskName : String
  params : String
  headers : Option (List (String × String))
  retryStrategy : RetryStrategy
  maxAttempts : ℤ
  cancellation : Option CancellationPolicy
  idempotencyKey : Option String
  delayMs : ℤ
  parent : Option ParentClaim
  deriving DecidableEq

/-- What the checks of `spawn`'s options let through: a budget a task can have, and no negative
delay. -/
structure SpawnCall.Admitted (call : SpawnCall) : Prop where
  maxAttempts : maxAttemptsBounds.Within call.maxAttempts
  delayMs : 0 ≤ call.delayMs

/-- The start deadline's delay, when the policy names one. -/
def SpawnCall.maxDelayMs (call : SpawnCall) : Option ℤ :=
  call.cancellation.bind CancellationPolicy.maxDelayMs

/-- `spawnTaskCas`'s guard: a free identity, instants that fit, and for a child its parent's live
claim while no saga began. -/
def spawnGuard (db : Db) (now : ℤ) (call : SpawnCall) : Prop :=
  ((¬ ∃ x ∈ db.tasks, x.taskId = call.taskId) ∧ ¬ ∃ r ∈ db.runs, r.taskId = call.taskId) ∧
    epochAdditionFits now call.delayMs ∧
    (∀ d ∈ call.maxDelayMs, epochAdditionFits now (call.delayMs + d)) ∧
    ∀ p ∈ call.parent,
      stillClaimed db p.queue p.runId p.taskId p.claimToken (fun t => t.state.Live) ∧
        ¬ sagaBegan db p.taskId
deriving Decidable

/-- The task a spawn inserts. -/
def SpawnCall.task (call : SpawnCall) (seed : String) (now : ℤ) : Task where
  taskId := call.taskId
  queue := call.queue
  taskName := call.taskName
  params := call.params
  headers := call.headers
  retryStrategy := call.retryStrategy
  maxAttempts := call.maxAttempts
  cancellation := call.cancellation
  idempotencyKey := call.idempotencyKey
  state := .pending
  enqueueAtMs := now + call.delayMs
  cancelAtMs := call.maxDelayMs.map (now + call.delayMs + ·)
  createdAtMs := now
  fenceStamp := some ⟨seed, .task⟩
  fenceAtMs := now

/-- The first run of the task `f`. -/
def firstRun (seed runId : String) (f : Task) : Run where
  runId := runId
  queue := f.queue
  taskId := f.taskId
  attempt := 1
  state := .pending
  availableAtMs := some f.enqueueAtMs
  createdAtMs := f.fenceAtMs
  fenceStamp := some ⟨seed, .run⟩
  fenceAtMs := f.fenceAtMs

/-- `spawnTaskCas`. A row in its way is left as it is. -/
def spawnTaskCas (db : Db) (seed : String) (call : SpawnCall) (now : ℤ) : Db :=
  if spawnGuard db now call then { db with tasks := db.tasks.insertIgnore (call.task seed now) }
  else db

/-- `spawnRunInsert`: the first run of the task this batch inserted, while the task has none. -/
def spawnRun (db : Db) (seed : String) (call : SpawnCall) : Option Db :=
  match db.tasks.rows.find? fun f => f.taskId = call.taskId ∧ f.fenceStamp = some ⟨seed, .task⟩ with
  | none => some db
  | some f =>
    if epochBounds.Within f.enqueueAtMs ∧ ¬ ∃ r ∈ db.runs, r.taskId = f.taskId then
      (db.runs.insert? (firstRun seed call.runId f)).map fun runs => { db with runs }
    else some db

/-- `spawn`. -/
def spawn (seed : String) (call : SpawnCall) (now : ℤ) (db : Db) : Option Outcome := do
  let withRun ← spawnRun (spawnTaskCas db seed call now) seed call
  return ⟨withRun, wonBy .task (spawnGuard db now call ∧ db.tasks.Free (call.task seed now))⟩

/-! ## retryTask -/

/-- The runs a task owns. -/
def ownedRuns (db : Db) (t : Task) : List Run := db.runs.rows.filter fun r => runOwnedByTask r t

/-- `topOrdinal`: the top ordinal among the runs a task owns. -/
def topOrdinal (db : Db) (t : Task) : Option ℤ := ((ownedRuns db t).map Run.attempt).max?

/-- `noLiveRunOf`. -/
def noLiveRunOf (db : Db) (t : Task) : Prop := ¬ ∃ r ∈ db.runs, runOwnedByTask r t ∧ r.state.Live
deriving Decidable

/-- `RETRY_CHARGED`: the task's top ordinal net of infrastructure retries. -/
def retryCharged (db : Db) (t : Task) : Option ℤ := (topOrdinal db t).map (· - t.infraRetries)

/-- `RETRY_ADMITS`, with the failed state the compare-and-set holds itself. -/
structure RetryAdmits (db : Db) (t : Task) : Prop where
  failed : t.state = .failed
  ownsEveryRun : taskOwnsEveryRun db t
  hasAFailureReason : t.failureReason ≠ none
  hasNoCompletedPayload : t.completedPayload = none
  hasARun : ∃ r ∈ db.runs, runOwnedByTask r t
  hasNoLiveRun : noLiveRunOf db t
  attemptsInRange : attemptsBounds.Within t.attempts
  infraRetriesInRange : infraRetriesBounds.Within t.infraRetries
  everyRunOrdinalInRange :
    ¬ ∃ r ∈ db.runs, runOwnedByTask r t ∧ ¬ attemptBounds.Within r.attempt
  budgetTakesOneMore : storedIncrementableInteger maxAttemptsBounds t.maxAttempts
  chargeIsTheAttemptsOrOneMore :
    ∃ charge ∈ retryCharged db t, charge - t.attempts = 0 ∨ charge - t.attempts = 1
  sagaNotBegun : ¬ sagaBegan db t.taskId
  chargeWithinBudget : ∃ charge ∈ retryCharged db t, charge ≤ t.maxAttempts

instance (db : Db) : DecidablePred (RetryAdmits db) := fun t =>
  decidable_of_iff
    (t.state = .failed ∧ taskOwnsEveryRun db t ∧ t.failureReason ≠ none ∧
      t.completedPayload = none ∧ (∃ r ∈ db.runs, runOwnedByTask r t) ∧ noLiveRunOf db t ∧
      attemptsBounds.Within t.attempts ∧ infraRetriesBounds.Within t.infraRetries ∧
      (¬ ∃ r ∈ db.runs, runOwnedByTask r t ∧ ¬ attemptBounds.Within r.attempt) ∧
      storedIncrementableInteger maxAttemptsBounds t.maxAttempts ∧
      (∃ charge ∈ retryCharged db t, charge - t.attempts = 0 ∨ charge - t.attempts = 1) ∧
      ¬ sagaBegan db t.taskId ∧ ∃ charge ∈ retryCharged db t, charge ≤ t.maxAttempts)
    ⟨fun ⟨h₁, h₂, h₃, h₄, h₅, h₆, h₇, h₈, h₉, h₁₀, h₁₁, h₁₂, h₁₃⟩ =>
        ⟨h₁, h₂, h₃, h₄, h₅, h₆, h₇, h₈, h₉, h₁₀, h₁₁, h₁₂, h₁₃⟩,
      fun h => ⟨h.failed, h.ownsEveryRun, h.hasAFailureReason, h.hasNoCompletedPayload, h.hasARun,
        h.hasNoLiveRun, h.attemptsInRange, h.infraRetriesInRange, h.everyRunOrdinalInRange,
        h.budgetTakesOneMore, h.chargeIsTheAttemptsOrOneMore, h.sagaNotBegun,
        h.chargeWithinBudget⟩⟩

/-- What `retryTask` is called with, and the id it minted for the revival's run. -/
structure RetryCall where
  queue : String
  taskId : String
  runId : String
  deriving DecidableEq

/-- `reviveCas`'s guard. -/
def reviveGuard (db : Db) (call : RetryCall) (t : Task) : Prop :=
  t.taskId = call.taskId ∧ t.queue = call.queue ∧ RetryAdmits db t
deriving Decidable

/-- The run of a revival: one past the task's top run `p`, carrying what that run carried. -/
def revivalRun (seed runId : String) (f : Task) (p : Run) : Run where
  runId := runId
  queue := f.queue
  taskId := f.taskId
  attempt := p.attempt + 1
  state := .pending
  availableAtMs := some f.fenceAtMs
  createdAtMs := f.fenceAtMs
  wakeEvent := p.wakeEvent
  eventPayload := p.eventPayload
  wakeStep := p.wakeStep
  runDb := p.runDb
  fenceStamp := some ⟨seed, .run⟩
  fenceAtMs := f.fenceAtMs

/-- The task's top run, when the task has no live run. -/
def revivalParent (db : Db) (f : Task) (p : Run) : Prop :=
  runOwnedByTask p f ∧ topOrdinal db f = some p.attempt ∧ noLiveRunOf db f
deriving Decidable

/-- `revivalRunInsert`: the run of the task this batch revived. -/
def revivalRunInsert (db : Db) (seed : String) (call : RetryCall) : Option Db :=
  match db.tasks.rows.find? fun f =>
    f.taskId = call.taskId ∧ f.fenceStamp = some ⟨seed, .revive⟩ with
  | none => some db
  | some f =>
    match db.runs.rows.find? fun p => revivalParent db f p with
    | none => some db
    | some p => (db.runs.insert? (revivalRun seed call.runId f p)).map fun runs => { db with runs }

/-- `reviveCas`. -/
def reviveCas (db : Db) (seed : String) (call : RetryCall) (now : ℤ) : Db :=
  { db with
    tasks := db.tasks.update (reviveGuard db call)
      ⟨fun t => { t with
        state := .pending
        attempts := (retryCharged db t).getD t.attempts
        maxAttempts := t.maxAttempts + 1
        failureReason := none
        lastAttemptRun := some call.runId
        fenceStamp := some ⟨seed, .revive⟩
        fenceAtMs := now }, fun _ => rfl⟩ }

/-- `retryTask`. -/
def retryTask (seed : String) (call : RetryCall) (now : ℤ) (db : Db) : Option Outcome := do
  let withRun ← revivalRunInsert (reviveCas db seed call now) seed call
  return ⟨withRun, wonBy .revive (∃ t ∈ db.tasks, reviveGuard db call t)⟩

end Durablerun
