import Durablerun.Store.Claim

/-!
# The batches of a running pass

`reschedule`, `suspendRun` and `setCheckpoint`: how a worker parks its run and commits what it did.

Reference: `packages/store-libsql/src/store.ts` and `packages/core/src/statements/suspend.ts`.
-/

namespace Durablerun

open Relational

/-- `CLEARED_WAKE_COLUMNS`: the event wake a run carried, cleared once its worker processed it. -/
def clearedWake (r : Run) : Run := { r with wakeEvent := none, eventPayload := none, wakeStep := none }

/-- The run's task is live and its deadline has not passed. -/
def ownerEligible (db : Db) (now : ℤ) (r : Run) : Prop :=
  ∃ t ∈ db.tasks, runOwnedByTask r t ∧ eligibleTask t now
deriving Decidable

/-- What `suspendCas` assigns: the park, and no event wake. -/
def suspendAssignments (seed : String) (wake : WakeSpec) (now : ℤ) (r : Run) : Run :=
  clearedWake (parkAssignments seed .suspend (wake.wakeAt now) now r)

/-- `suspendCas`: the compare-and-set `reschedule` and `suspendRun` share. -/
def suspendCas (db : Db) (seed : String) (wake : WakeSpec) (now : ℤ) (guard : Run → Prop)
    [DecidablePred guard] : Db :=
  { db with
    runs := db.runs.update guard
      ⟨suspendAssignments seed wake now, fun _ => rfl⟩ }

/-- `reschedule`'s guard. The saga phase asks nothing of it. -/
def rescheduleGuard (db : Db) (now : ℤ) (claim : WorkerClaim) (wake : WakeSpec) (r : Run) : Prop :=
  claim.Holds r ∧ ownerEligible db now r ∧ wake.Fits now
deriving Decidable

/-- `reschedule`. -/
def reschedule (seed : String) (claim : WorkerClaim) (wake : WakeSpec) (now : ℤ) (db : Db) :
    Outcome :=
  ⟨finishSuspension (suspendCas db seed wake now (rescheduleGuard db now claim wake)) seed
      claim.queue claim.runId,
    wonBy .suspend (∃ r ∈ db.runs, rescheduleGuard db now claim wake r)⟩

/-- `validCheckpointConflict`: the row in the write's way names an owner there is. -/
def validCheckpointConflict (db : Db) (r : Run) (checkpointName : String) : Prop :=
  ¬ ∃ c ∈ db.checkpoints, c.taskId = r.taskId ∧ c.checkpointName = checkpointName ∧
    ¬ (c.queue = r.queue ∧ ∃ owner ∈ db.runs, ownerAttemptBounds.Within c.ownerAttempt ∧
      owner.runId = c.ownerRunId ∧ owner.taskId = c.taskId ∧ owner.queue = c.queue ∧
      owner.attempt = c.ownerAttempt)
deriving Decidable

/-- `suspendRun`'s guard. The marker's name is held to the phase a plain checkpoint's is. -/
def suspendRunGuard (db : Db) (now : ℤ) (claim : WorkerClaim) (wake : WakeSpec)
    (checkpoint : CheckpointWrite) (r : Run) : Prop :=
  claim.Holds r ∧ ownerEligible db now r ∧ attemptBounds.Within r.attempt ∧
    validCheckpointConflict db r checkpoint.key ∧ wake.Fits now ∧
    (¬ sagaBegan db r.taskId ∧ checkpointInItsPhase db r.taskId checkpoint.key ∧
      ¬ checkpointIsTheEngines checkpoint.key)
deriving Decidable

/-- `suspendRun`: the park and the marker, in one batch. -/
def suspendRun (seed : String) (claim : WorkerClaim) (wake : WakeSpec)
    (checkpoint : CheckpointWrite) (now : ℤ) (db : Db) : Outcome :=
  let suspended := suspendCas db seed wake now (suspendRunGuard db now claim wake checkpoint)
  let marked := checkpointWrite suspended seed claim.runId checkpoint .suspend
  ⟨finishSuspension marked seed claim.queue claim.runId,
    wonBy .suspend (∃ r ∈ db.runs, suspendRunGuard db now claim wake checkpoint r)⟩

/-- `checkpointLeaseCas`'s guard. -/
def checkpointLeaseGuard (db : Db) (now : ℤ) (claim : WorkerClaim) (taskId : String)
    (checkpointName : String) (extendMs : ℤ) (r : Run) : Prop :=
  claim.Holds r ∧ r.taskId = taskId ∧ attemptBounds.Within r.attempt ∧
    (∃ t ∈ db.tasks, runOwnedByTask r t ∧ t.state.Live) ∧
    validCheckpointConflict db r checkpointName ∧ epochAdditionFits now extendMs ∧
    (checkpointInItsPhase db r.taskId checkpointName ∧ ¬ checkpointIsTheEngines checkpointName)
deriving Decidable

/-- `checkpointLeaseCas`: the write extends the lease it is made under. -/
def checkpointLeaseCas (db : Db) (seed : String) (claim : WorkerClaim) (taskId : String)
    (checkpointName : String) (extendMs now : ℤ) : Db :=
  { db with
    runs := db.runs.update (checkpointLeaseGuard db now claim taskId checkpointName extendMs)
      ⟨leaseAssignments seed .lease extendMs now, fun _ => rfl⟩ }

/-- `setCheckpoint`. -/
def setCheckpoint (seed : String) (claim : WorkerClaim) (taskId : String)
    (checkpoint : CheckpointWrite) (extendMs now : ℤ) (db : Db) : Outcome :=
  ⟨checkpointWrite (checkpointLeaseCas db seed claim taskId checkpoint.key extendMs now) seed
      claim.runId checkpoint .lease,
    wonBy .lease (∃ r ∈ db.runs,
      checkpointLeaseGuard db now claim taskId checkpoint.key extendMs r)⟩

end Durablerun
