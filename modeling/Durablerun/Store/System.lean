import Durablerun.Store.Endings
import Durablerun.Store.Events
import Durablerun.Store.Spawn
import Durablerun.Store.Suspend

/-!
# The store and its callers

Every call of the store is one batch, compiled with a seed of its own and run atomically at one
instant of the database. A system is the database, the instant of its last batch, and the deliveries
so far. It steps by a batch that was never delivered, or by one that was, delivered again: a caller
that lost an answer sends the very same batch. What a caller read before it compiled a batch is what
some database since the first held.

Reference: `packages/store-libsql/src/store.ts` and `packages/core/src/fenced-batch.ts`.
-/

namespace Durablerun

open Relational

/-- A call of the store, with the arguments its batch is compiled from and the ids it minted. -/
inductive Call where
  | spawn (call : SpawnCall)
  | claim (call : ClaimCall)
  | activate (receipt : ClaimReceipt)
  | heartbeat (claim : WorkerClaim) (extensionMs : ℤ)
  | deferLaunch (receipt : ClaimReceipt) (delayMs : ℤ)
  | reschedule (claim : WorkerClaim) (wake : WakeSpec)
  | suspendRun (claim : WorkerClaim) (wake : WakeSpec) (checkpoint : CheckpointWrite)
  | awaitEvent (call : AwaitCall)
  | recordTaskDone (call : RecordTaskDoneCall)
  | emitEvent (call : EmitCall)
  | setCheckpoint (claim : WorkerClaim) (taskId : String) (checkpoint : CheckpointWrite)
      (extendMs : ℤ)
  | complete (claim : WorkerClaim) (taskId resultJson : String)
  | failInto (failure : Failure)
  | sweepLostLaunch (swept : Swept)
  | sweepClaimTimeout (swept : Swept)
  | cancelTransition (cancellation : Cancellation)
  | retryTask (call : RetryCall)
  | expireLeaseNow (claim : WorkerClaim)
  deriving DecidableEq

/-- A compiled batch: its seed and its call. -/
structure Batch where
  seed : String
  call : Call
  deriving DecidableEq

/-- One delivery of a batch at an instant, or `none` when a constraint aborted it. -/
def Batch.run (b : Batch) (now : ℤ) (db : Db) : Option Outcome :=
  match b.call with
  | .spawn call => spawn b.seed call now db
  | .claim call => some (claim b.seed call now db)
  | .activate receipt => some (activate b.seed receipt now db)
  | .heartbeat held extensionMs => some (heartbeat b.seed held extensionMs now db)
  | .deferLaunch receipt delayMs => some (deferLaunch b.seed receipt delayMs now db)
  | .reschedule held wake => some (reschedule b.seed held wake now db)
  | .suspendRun held wake checkpoint => some (suspendRun b.seed held wake checkpoint now db)
  | .awaitEvent call => some (awaitEvent b.seed call now db)
  | .recordTaskDone call => some (recordTaskDone b.seed call now db)
  | .emitEvent call => some (emitEvent b.seed call now db)
  | .setCheckpoint held taskId checkpoint extendMs =>
    some (setCheckpoint b.seed held taskId checkpoint extendMs now db)
  | .complete held taskId resultJson => some (complete b.seed held taskId resultJson now db)
  | .failInto failure => failInto b.seed failure now db
  | .sweepLostLaunch swept => sweepLostLaunch b.seed swept now db
  | .sweepClaimTimeout swept => sweepClaimTimeout b.seed swept now db
  | .cancelTransition c => some (cancelTransition b.seed c now db)
  | .retryTask call => retryTask b.seed call now db
  | .expireLeaseNow held => some (expireLeaseNow held now db)

/-- The database a delivery leaves: a batch that aborted leaves the one it found. -/
def Batch.after (b : Batch) (now : ℤ) (db : Db) : Db := ((b.run now db).map Outcome.db).getD db

/-! ## What a caller may send -/

/-- A caller read the run's task. -/
def RunRead (seen : Db → Prop) (runId taskId : String) : Prop :=
  ∃ d, seen d ∧ ∃ r ∈ d.runs, r.runId = runId ∧ r.taskId = taskId

/-- What the store's own checks let through, and what it read before it compiled the batch: the task
of the run a batch ends (`endingTask`, or the sweep's scan), and an ended child whose outcome is
recorded. -/
def Call.Admitted (seen : Db → Prop) : Call → Prop
  | .spawn call => call.Admitted
  | .awaitEvent call => call.Admitted
  | .emitEvent call => call.eventName.FromPort
  | .recordTaskDone call =>
    ∃ d, seen d ∧ ∃ c ∈ d.tasks, c.taskId = call.childTaskId ∧ c.queue = call.queue ∧
      c.fenceStamp = call.childStamp ∧ ¬ c.state.Live
  | .complete held taskId _ => RunRead seen held.runId taskId
  | .failInto failure => failure.Admitted ∧ RunRead seen failure.claim.runId failure.taskId
  | .sweepLostLaunch swept | .sweepClaimTimeout swept => RunRead seen swept.runId swept.taskId
  | _ => True

/-! ## Steps and runs -/

/-- One delivery of a batch: its instant, the database it met, and the one it left. -/
structure Delivery where
  batch : Batch
  now : ℤ
  before : Db
  after : Db

/-- The store, the instant of its last batch, and its deliveries so far, the last one first. -/
structure Sys where
  db : Db
  clock : ℤ
  history : List Delivery

/-- The store after a migration. -/
def Sys.init : Sys := ⟨.empty, 0, []⟩

/-- The database was the store's at some moment up to now. -/
def Sys.Seen (s : Sys) (d : Db) : Prop := d = s.db ∨ ∃ e ∈ s.history, e.before = d

/-- The batch was delivered. -/
def Sys.Delivered (s : Sys) (b : Batch) : Prop := ∃ e ∈ s.history, e.batch = b

/-- No batch of this seed was delivered. -/
def Sys.Fresh (s : Sys) (seed : String) : Prop := ∀ e ∈ s.history, e.batch.seed ≠ seed

instance (s : Sys) (seed : String) : Decidable (s.Fresh seed) :=
  inferInstanceAs (Decidable (∀ e ∈ s.history, e.batch.seed ≠ seed))

instance (s : Sys) (b : Batch) : Decidable (s.Delivered b) :=
  inferInstanceAs (Decidable (∃ e ∈ s.history, e.batch = b))

/-- The delivery of a batch at an instant. -/
def Sys.deliver (s : Sys) (b : Batch) (now : ℤ) : Sys :=
  ⟨b.after now s.db, now, ⟨b, now, s.db, b.after now s.db⟩ :: s.history⟩

/-- One step of the store: a batch with a seed of its own is delivered, or one that was delivered
before is delivered again, where `again` allows it. No instant is before an earlier one. -/
inductive Step (again : Batch → Db → Prop) (s : Sys) : Sys → Prop
  | first (b : Batch) (now : ℤ) (hclock : s.clock ≤ now) (hfresh : s.Fresh b.seed)
      (hadm : b.call.Admitted s.Seen) : Step again s (s.deliver b now)
  | again (b : Batch) (now : ℤ) (hclock : s.clock ≤ now) (hdelivered : s.Delivered b)
      (hagain : again b s.db) : Step again s (s.deliver b now)

/-- The states any finite sequence of steps reaches. -/
inductive Reachable (again : Batch → Db → Prop) : Sys → Prop
  | init : Reachable again .init
  | step {s s' : Sys} (h : Reachable again s) (hstep : Step again s s') : Reachable again s'

/-- No batch is delivered twice. -/
abbrev Once : Batch → Db → Prop := fun _ _ => False

/-! A run of one task: it is spawned, claimed and activated. -/

def spawnOne : Batch := ⟨"b1", .spawn
  { queue := "q", taskId := "t", runId := "r1", taskName := "job", params := "null",
    headers := none, retryStrategy := .none, maxAttempts := 2, cancellation := none,
    idempotencyKey := none, delayMs := 0, parent := none }⟩

def claimOne : Batch := ⟨"b2", .claim ⟨"q", "w1", 1000, 1⟩⟩

def activateOne : Batch := ⟨"b3", .activate ⟨"q", "r1", "w1", 1⟩⟩

/-- Its worker fails it, and asks for no retry. -/
def failOne : Batch :=
  ⟨"b4", .failInto ⟨⟨"q", "r1", "w1"⟩, "\x7b\x7d", "t", none, "p1", none⟩⟩

/-- The task's first run runs. -/
def runningOne : Sys :=
  ((Sys.init.deliver spawnOne 0).deliver claimOne 1).deliver activateOne 2

/-- The store with one running task is reachable. -/
theorem runningOne_reachable (again : Batch → Db → Prop) : Reachable again runningOne := by
  have hspawned : Reachable again (Sys.init.deliver spawnOne 0) :=
    .step .init (.first _ _ (by decide) (by decide) ⟨by decide, by decide⟩)
  have hclaimed : Reachable again ((Sys.init.deliver spawnOne 0).deliver claimOne 1) :=
    .step hspawned (.first _ _ (by decide) (by decide) trivial)
  exact .step hclaimed (.first _ _ (by decide) (by decide) trivial)

end Durablerun
