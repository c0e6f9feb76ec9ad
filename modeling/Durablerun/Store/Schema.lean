import Durablerun.Lib.Table
import Mathlib.Data.Rat.Floor

/-!
# The tables of the scheduler store

The rows of `tasks`, `runs`, `waits`, `events` and `checkpoints` as the libSQL schema declares them,
with their unique keys, the bounds the engine holds its integers to, and the stamp a fenced batch
leaves on what it writes.

A column the schema types is typed here, so the storage-class tests of the fragments
(`typeof(c) = 'integer'`, `json_valid(c)`) hold by construction, and a nullable column is an
`Option`. The two columns that hold JSON which SQL reads back, `retry_strategy` and `cancellation`,
are kept as the values `spawn` serializes, with their durations in milliseconds.

Reference: `packages/store-libsql/src/schema.ts` and `packages/core/src/contract.ts`.
-/

namespace Durablerun

open Relational

/-! ## States -/

/-- The states of a task, and of a run. -/
inductive TaskState where
  | pending | running | sleeping | completed | failed | cancelled
  deriving DecidableEq, Repr

/-- A state as the column holds it. -/
def TaskState.name : TaskState → String
  | pending => "pending"
  | running => "running"
  | sleeping => "sleeping"
  | completed => "completed"
  | failed => "failed"
  | cancelled => "cancelled"

/-- `LIVE`: a task or a run still in play. -/
def TaskState.Live : TaskState → Prop
  | pending | running | sleeping => True
  | completed | failed | cancelled => False

/-- `QUEUED`: a run that waits for its turn. -/
def TaskState.Queued : TaskState → Prop
  | pending | sleeping => True
  | running | completed | failed | cancelled => False

instance : DecidablePred TaskState.Live := fun s => by
  cases s <;> unfold TaskState.Live <;> infer_instance

instance : DecidablePred TaskState.Queued := fun s => by
  cases s <;> unfold TaskState.Queued <;> infer_instance

/-! A task is live until it completes, fails or is cancelled. -/

@[simp] theorem TaskState.live_pending : TaskState.pending.Live := trivial
@[simp] theorem TaskState.live_running : TaskState.running.Live := trivial
@[simp] theorem TaskState.live_sleeping : TaskState.sleeping.Live := trivial
@[simp] theorem TaskState.not_live_completed : ¬ TaskState.completed.Live := id
@[simp] theorem TaskState.not_live_failed : ¬ TaskState.failed.Live := id
@[simp] theorem TaskState.not_live_cancelled : ¬ TaskState.cancelled.Live := id

/-! A run is queued until it runs. -/

@[simp] theorem TaskState.queued_pending : TaskState.pending.Queued := trivial
@[simp] theorem TaskState.queued_sleeping : TaskState.sleeping.Queued := trivial
@[simp] theorem TaskState.not_queued_running : ¬ TaskState.running.Queued := id

/-- A queued run is live. -/
theorem TaskState.Queued.live {s : TaskState} (h : s.Queued) : s.Live := by
  cases s with
  | pending | running | sleeping => trivial
  | completed | failed | cancelled => exact h

/-- A queued run is not running. -/
theorem TaskState.Queued.ne_running {s : TaskState} (h : s.Queued) : s ≠ .running := by
  rintro rfl
  exact h

/-! ## Bounds -/

def MAX_EPOCH_MS : ℤ := 253402300799000
def MAX_DURATION_MS : ℤ := 3155760000000
def MAX_COUNT : ℤ := 1000000
def RELAUNCH_CAP : ℤ := 5
def INFRA_RETRY_CAP : ℤ := 20
def INFRA_BACKOFF_SECONDS : ℤ := 5
def RELAUNCH_BACKOFF_BASE_SECONDS : ℤ := 5
def RELAUNCH_BACKOFF_MAX_SECONDS : ℤ := 60
def MAX_RUN_ORDINAL : ℤ := MAX_COUNT + INFRA_RETRY_CAP

/-- The interval a persisted integer is held to. -/
structure IntegerBounds where
  min : ℤ
  max : ℤ

/-! `PERSISTED_INTEGER_BOUNDS`, one for each column the engine computes with. -/

def attemptsBounds : IntegerBounds := ⟨0, MAX_COUNT⟩
def maxAttemptsBounds : IntegerBounds := ⟨1, MAX_COUNT⟩
def infraRetriesBounds : IntegerBounds := ⟨0, INFRA_RETRY_CAP⟩
def attemptBounds : IntegerBounds := ⟨1, MAX_RUN_ORDINAL⟩
def claimGenBounds : IntegerBounds := ⟨0, MAX_COUNT⟩
def activatedGenBounds : IntegerBounds := ⟨0, MAX_COUNT⟩
def relaunchCountBounds : IntegerBounds := ⟨0, RELAUNCH_CAP⟩
def leaseMsBounds : IntegerBounds := ⟨1, MAX_DURATION_MS⟩
def ownerAttemptBounds : IntegerBounds := ⟨1, MAX_RUN_ORDINAL⟩
/-- Every instant the engine stores. -/
def epochBounds : IntegerBounds := ⟨0, MAX_EPOCH_MS⟩
def positiveClaimGenerationBounds : IntegerBounds := ⟨1, MAX_COUNT⟩

/-! ## Stamps -/

/-- The statements of the store's batches, by the names their stamps carry. -/
inductive Statement where
  | task | run
  | claim | taskBook
  | activate | taskStart
  | extend
  | suspend | taskMirror
  | register | park
  | event | wakeRuns | wakeTasks | wakeFinished | materialize
  | lease
  | complete
  | fail | successor | taskRetrying | taskTerminal
  | rollbackPass | taskRollingBack
  | reopen | cap | taskPending | taskFail | bookkeeping
  | cancel | runs
  | revive
  | purge
  deriving DecidableEq, Repr

/-- The provenance a statement leaves on a row, `<batch seed>:<statement name>`. The name holds no
colon, so the text determines both. -/
structure Stamp where
  seed : String
  statement : Statement
  deriving DecidableEq, Repr

/-! ## Rows -/

/-- A stored retry strategy. Its durations are whole milliseconds, as `normalizeRetryStrategy`
leaves them. -/
inductive RetryStrategy where
  | none
  | fixed (baseMs : ℤ)
  | exponential (baseMs : ℤ) (factor : ℚ) (maxMs : ℤ)
  deriving DecidableEq

/-- A stored cancellation policy. -/
structure CancellationPolicy where
  maxDelayMs : Option ℤ
  maxDurationMs : Option ℤ
  deriving DecidableEq

/-- A row of `tasks`. -/
structure Task where
  taskId : String
  queue : String
  taskName : String
  params : String
  headers : Option (List (String × String))
  retryStrategy : RetryStrategy
  maxAttempts : ℤ
  cancellation : Option CancellationPolicy
  idempotencyKey : Option String
  state : TaskState
  attempts : ℤ := 0
  infraRetries : ℤ := 0
  lastAttemptRun : Option String := none
  completedPayload : Option String := none
  failureReason : Option String := none
  enqueueAtMs : ℤ
  firstStartedAtMs : Option ℤ := none
  cancelAtMs : Option ℤ
  cancelledAtMs : Option ℤ := none
  createdAtMs : ℤ
  fenceStamp : Option Stamp
  fenceAtMs : ℤ
  deriving DecidableEq

/-- A row of `runs`. -/
structure Run where
  runId : String
  queue : String
  taskId : String
  attempt : ℤ
  state : TaskState
  claimedBy : Option String := none
  claimGen : ℤ := 0
  activatedGen : ℤ := 0
  relaunchCount : ℤ := 0
  leaseMs : Option ℤ := none
  claimExpiresAtMs : Option ℤ := none
  heartbeatAtMs : Option ℤ := none
  availableAtMs : Option ℤ
  wakeEvent : Option String := none
  eventPayload : Option String := none
  wakeStep : Option String := none
  runDb : Option String := none
  startedAtMs : Option ℤ := none
  completedAtMs : Option ℤ := none
  failedAtMs : Option ℤ := none
  result : Option String := none
  failureReason : Option String := none
  createdAtMs : ℤ
  fenceStamp : Option Stamp
  fenceAtMs : ℤ
  deriving DecidableEq

/-- A row of `waits`. Every stored wait is waiting: the engine deletes a wait it delivers. -/
structure Wait where
  runId : String
  stepName : String
  queue : String
  taskId : String
  eventName : String
  timeoutAtMs : Option ℤ
  createdAtMs : ℤ
  fenceStamp : Option Stamp
  fenceAtMs : ℤ
  deriving DecidableEq

/-- A row of `events`. -/
structure Event where
  queue : String
  eventName : String
  payload : String
  emittedAtMs : ℤ
  fenceStamp : Option Stamp
  fenceAtMs : ℤ
  deriving DecidableEq

/-- A row of `checkpoints`, the one table that carries no stamp. -/
structure Checkpoint where
  taskId : String
  checkpointName : String
  queue : String
  state : String
  ownerRunId : String
  ownerAttempt : ℤ
  updatedAtMs : ℤ
  deriving DecidableEq

/-- The row under another stamp. -/
def Task.stampedAt (t : Task) (stamp : Stamp) (at' : ℤ) : Task :=
  { t with fenceStamp := some stamp, fenceAtMs := at' }

/-- The row under another stamp. -/
def Run.stampedAt (r : Run) (stamp : Stamp) (at' : ℤ) : Run :=
  { r with fenceStamp := some stamp, fenceAtMs := at' }

/-! ## Unique keys -/

/-- The keys of `tasks`: its primary key, and `tasks_idem`, which leaves out a task with no
idempotency key. -/
inductive TaskKey where
  | id (taskId : String)
  | idem (queue key : String)
  deriving DecidableEq

def Task.keys (t : Task) : List TaskKey :=
  match t.idempotencyKey with
  | none => [.id t.taskId]
  | some k => [.id t.taskId, .idem t.queue k]

/-- The keys of `runs`: its primary key and `runs_task_attempt`. -/
inductive RunKey where
  | id (runId : String)
  | ordinal (taskId : String) (attempt : ℤ)
  deriving DecidableEq

def Run.keys (r : Run) : List RunKey := [.id r.runId, .ordinal r.taskId r.attempt]

def Wait.keys (w : Wait) : List (String × String) := [(w.runId, w.stepName)]
def Event.keys (e : Event) : List (String × String) := [(e.queue, e.eventName)]
def Checkpoint.keys (c : Checkpoint) : List (String × String) := [(c.taskId, c.checkpointName)]

/-- A task's id is one of its keys. -/
theorem Task.id_mem_keys (t : Task) : TaskKey.id t.taskId ∈ t.keys := by
  unfold Task.keys
  split <;> exact List.mem_cons_self

/-- A run has a key. -/
theorem Run.keys_ne_nil (r : Run) : r.keys ≠ [] := List.cons_ne_nil _ _
/-- A task has a key. -/
theorem Task.keys_ne_nil (t : Task) : t.keys ≠ [] := List.ne_nil_of_mem t.id_mem_keys

/-- The database of the store. -/
structure Db where
  tasks : Table Task Task.keys
  runs : Table Run Run.keys
  waits : Table Wait Wait.keys
  events : Table Event Event.keys
  checkpoints : Table Checkpoint Checkpoint.keys

/-- The database a migration leaves: every table is empty. -/
def Db.empty : Db := ⟨.empty, .empty, .empty, .empty, .empty⟩

variable {db : Db}

/-- Two tasks of one id are one. -/
theorem Db.task_unique {t t' : Task} (ht : t ∈ db.tasks) (ht' : t' ∈ db.tasks)
    (h : t.taskId = t'.taskId) : t = t' :=
  Table.eq_of_key ht ht' t.id_mem_keys (h ▸ t'.id_mem_keys)

/-- Two runs of one id are one. -/
theorem Db.run_unique {r r' : Run} (hr : r ∈ db.runs) (hr' : r' ∈ db.runs)
    (h : r.runId = r'.runId) : r = r' :=
  Table.eq_of_key hr hr' (k := .id r.runId) (by simp [Run.keys]) (by simp [Run.keys, h])

/-- Two runs of one task and ordinal are one. -/
theorem Db.run_unique_ordinal {r r' : Run} (hr : r ∈ db.runs) (hr' : r' ∈ db.runs)
    (ht : r.taskId = r'.taskId) (ha : r.attempt = r'.attempt) : r = r' :=
  Table.eq_of_key hr hr' (k := .ordinal r.taskId r.attempt) (by simp [Run.keys])
    (by simp [Run.keys, ht, ha])

/-- A run's keys are free where no run has its id, and none of its task has its ordinal. -/
theorem Db.run_free {p : Run} (hid : ∀ r ∈ db.runs, r.runId ≠ p.runId)
    (hat : ∀ r ∈ db.runs, r.taskId = p.taskId → r.attempt ≠ p.attempt) : db.runs.Free p := by
  refine ⟨by simp [Run.keys], fun k hk hheld => ?_⟩
  obtain ⟨r, hr, hkr⟩ := Table.mem_heldKeys.mp hheld
  simp only [Run.keys, List.mem_cons, List.not_mem_nil, or_false] at hk hkr
  rcases hk with rfl | rfl
  · rcases hkr with hkr | hkr
    · exact hid r hr (RunKey.id.inj hkr).symm
    · cases hkr
  · rcases hkr with hkr | hkr
    · cases hkr
    · exact hat r hr (RunKey.ordinal.inj hkr).1.symm (RunKey.ordinal.inj hkr).2.symm

/-- Two events of one queue and name are one. -/
theorem Db.event_unique {e e' : Event} (he : e ∈ db.events) (he' : e' ∈ db.events)
    (hq : e.queue = e'.queue) (hn : e.eventName = e'.eventName) : e = e' :=
  Table.eq_of_key he he' (k := (e.queue, e.eventName)) (by simp [Event.keys])
    (by simp [Event.keys, hq, hn])

/-- Two checkpoints of one task and name are one. -/
theorem Db.checkpoint_unique {c c' : Checkpoint} (hc : c ∈ db.checkpoints)
    (hc' : c' ∈ db.checkpoints) (ht : c.taskId = c'.taskId)
    (hn : c.checkpointName = c'.checkpointName) : c = c' :=
  Table.eq_of_key hc hc' (k := (c.taskId, c.checkpointName)) (by simp [Checkpoint.keys])
    (by simp [Checkpoint.keys, ht, hn])

end Durablerun
