import Durablerun.Store.Reads

/-!
# The sweep

A sweep reads what is due in one scan and runs one batch for each row it found: the cancellation of
a task past its deadline, the relaunch of a launch that was lost, the end of a claim whose worker
died. Each batch reports what it did, by the statement of it that took a row.

Reference: `packages/store-libsql/src/store.ts` and `packages/core/src/statements/sweep.ts`.
-/

namespace Durablerun

open Relational

/-- `SweptRun`: what a sweep reports of a row it moved. -/
inductive SweptRun where
  | lostLaunch (runId taskId : String) (relaunchCount : ℤ)
  | claimTimeout (runId taskId successorRunId : String)
  | relaunchCapExhausted (runId taskId : String)
  | infraCapExhausted (runId taskId : String)
  | rollbackStarted (runId taskId successorRunId : String)
  | cancelled (runId : Option String) (taskId : String)
  deriving DecidableEq

/-! ## The scan -/

/-- `Item`: what the scan found of a row. -/
inductive SweepItem where
  | cancel (taskId : String) (runId : Option String)
  | lostLaunch (runId taskId : String) (claimGen relaunchCount : ℤ)
  | claimTimeout (runId taskId : String) (claimGen : ℤ)
  deriving DecidableEq

/-- The item of an expired claim: its launch was lost, or its worker died. -/
def expiredItem (r : Run) : Except String SweepItem := do
  let claimGen ← persistedRowInteger "sweep" "claim_gen" positiveClaimGenerationBounds r.claimGen
  let activatedGen ← persistedRowInteger "sweep" "activated_gen" activatedGenBounds r.activatedGen
  if activatedGen < claimGen then
    let relaunchCount ←
      persistedRowInteger "sweep" "relaunch_count" relaunchCountBounds r.relaunchCount
    return .lostLaunch r.runId r.taskId claimGen relaunchCount
  else
    return .claimTimeout r.runId r.taskId claimGen

/-- `sweep:scan`: the due cancellations first, and then the expired claims, to the limit. -/
def sweepScan (db : Db) (now : ℤ) (queue : String) (limit : ℕ) : Except String (List SweepItem) := do
  let cancels := (sweepDueCancels db now queue limit).map fun t =>
    SweepItem.cancel t.taskId (liveRunOfTask db t)
  let expired ← ((sweepExpiredClaims db now queue limit).take (limit - cancels.length)).mapM
    expiredItem
  return cancels ++ expired

/-! ## The batches -/

/-- The rows a `'runs-to-tasks'` statement changes. -/
def runsToTasksRows (db : Db) (seed : String) (fence : Statement) (queue : String)
    (where' : Run → Prop) [DecidablePred where'] (narrow : Task → Prop) [DecidablePred narrow] : ℕ :=
  (db.tasks.rows.filter fun t =>
    (∃ f ∈ db.runs, (where' f ∧ f.queue = queue ∧ f.fenceStamp = some ⟨seed, fence⟩) ∧
      f.taskId = t.taskId) ∧ t.queue = queue ∧ narrow t).length

/-- The rows of `task-rolling-back` in the saga arm of a sweep. -/
def capRollingBackRows (db : Db) (seed : String) (swept : Swept) (fence : Statement)
    (reason : String) : ℕ :=
  match failureSuccessor db seed .rollbackPass fence swept.passId swept.runId 0 .pending
      (passAdmission (capAdmission db)) with
  | none => 0
  | some placed =>
    runsToTasksRows (sagaPhaseMarker placed seed swept.passId (some reason)) seed .rollbackPass
      swept.queue (fun f => f.runId = swept.passId) fun t => t.state.Live

/-- What the sweep of a lost launch reports of its batch. -/
def sweepLostLaunchReport (db : Db) (seed : String) (swept : Swept) (relaunchCount now : ℤ) :
    Option Statement → Option SweptRun
  | some .reopen => some (.lostLaunch swept.runId swept.taskId (relaunchCount + 1))
  | some .cap =>
    let capped := capLostLaunchCas (reopenLostLaunchCas db seed swept now) seed swept now
    if capRollingBackRows capped seed swept .cap REASON_RELAUNCH_CAP = 1 then
      some (.rollbackStarted swept.runId swept.taskId swept.passId)
    else some (.relaunchCapExhausted swept.runId swept.taskId)
  | _ => none

/-- What the sweep of a dead claim reports of its batch: the statement that fired, and nothing when
none did. -/
def sweepClaimTimeoutReport (db : Db) (seed : String) (swept : Swept) (now : ℤ) :
    Option Statement → Option SweptRun
  | some .fail => do
    let placed ← claimTimeoutSuccessor (failClaimTimeoutCas db seed swept now) seed swept
    let passed ← capSagaPass placed seed swept .fail REASON_INFRA_CAP
    if runsToTasksRows (timeoutTerminal passed seed swept) seed .successor swept.queue
        (fun f => f.runId = swept.passId) (fun t => t.state.Live) = 1 then
      some (.claimTimeout swept.runId swept.taskId swept.passId)
    else if capRollingBackRows placed seed swept .fail REASON_INFRA_CAP = 1 then
      some (.rollbackStarted swept.runId swept.taskId swept.passId)
    else if runsToTasksRows passed seed .fail swept.queue (fun f => f.runId = swept.runId)
        (fun t => t.state.Live ∧ infraRetriesBounds.Within t.infraRetries ∧
          t.infraRetries = INFRA_RETRY_CAP ∧ ¬ sweepFollowedBy passed seed .fail swept t) = 1 then
      some (.infraCapExhausted swept.runId swept.taskId)
    else none
  | _ => none

/-- The call of an item's batch. `passId` is the identity minted for the run that may follow. -/
def SweepItem.call (queue passId : String) : SweepItem → Call
  | .cancel taskId _ => .cancelTransition ⟨queue, taskId, true, false⟩
  | .lostLaunch runId taskId claimGen _ => .sweepLostLaunch ⟨queue, runId, taskId, claimGen, passId⟩
  | .claimTimeout runId taskId claimGen =>
    .sweepClaimTimeout ⟨queue, runId, taskId, claimGen, passId⟩

/-- What the sweep reports of an item whose batch met `db` and was won by a statement, or by none. -/
def SweepItem.report (queue seed passId : String) (now : ℤ) (db : Db) (won : Option Statement) :
    SweepItem → Option SweptRun
  | .cancel taskId runId => if won = none then none else some (.cancelled runId taskId)
  | .lostLaunch runId taskId claimGen relaunchCount =>
    sweepLostLaunchReport db seed ⟨queue, runId, taskId, claimGen, passId⟩ relaunchCount now won
  | .claimTimeout runId taskId claimGen =>
    sweepClaimTimeoutReport db seed ⟨queue, runId, taskId, claimGen, passId⟩ now won

end Durablerun
