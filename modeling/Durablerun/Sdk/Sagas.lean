import Durablerun.Core.Sagas
import Durablerun.Store.NextWake

/-!
# Sagas

A pass replays its task over the checkpoints it read when it began. A step that registers a rollback
has its start marker stored before its body runs, under the index after the highest one the pass has
seen. Once the task rolls back, a pass runs the rollback of the step that started last among those
not rolled back, stores that it ran, and goes on to the next.

A fleet is the store and the passes that were started over it. The store's batches come from anyone,
in any order; the start markers, the rollbacks' checkpoints and the failed rollbacks come from
passes. A pass may be cut at any call, before or after the call took effect, and be followed by
another.

Reference: `packages/sdk/src/context.ts` and `packages/sdk/src/run-worker.ts`.
-/

namespace Durablerun

open Relational

/-! ## The context of a pass -/

/-- The saga as a pass knows it, and what else its saga calls ask of it: the names with a memo,
whether a step's body runs, and whether a store call met an infrastructure error. -/
structure ReplayContext where
  seen : List String
  /-- `startedKeys`, each with its index in `startIndexes`. -/
  startIndexes : List (String × ℕ)
  topStartIndex : ℕ
  rolledBack : List String
  rollbackTries : List (String × RollbackTry)
  registered : List String
  sagaCauseJson : Option String
  /-- The step of the first saga checkpoint that cannot be read. -/
  sagaCorruption : Option String
  inStep : Bool
  ended : Bool
  deriving DecidableEq

def ReplayContext.empty : ReplayContext := ⟨[], [], 0, [], [], [], none, none, false, false⟩

/-- `readSagaCheckpoint`. -/
def ReplayContext.readSagaCheckpoint (ctx : ReplayContext) (name stateJson : String) :
    ReplayContext :=
  if name = SAGA_PHASE_CHECKPOINT then { ctx with sagaCauseJson := some stateJson }
  else if namedUnder name SAGA_STARTED_PREFIX then
    let stepKey := keyUnder name SAGA_STARTED_PREFIX
    match decodeStartIndex stateJson with
    | none => { ctx with sagaCorruption := ctx.sagaCorruption.or (some stepKey) }
    | some index =>
      { ctx with
        startIndexes := ctx.startIndexes ++ [(stepKey, index)]
        topStartIndex := max ctx.topStartIndex index }
  else if namedUnder name SAGA_ROLLBACK_PREFIX then
    { ctx with rolledBack := ctx.rolledBack ++ [keyUnder name SAGA_ROLLBACK_PREFIX] }
  else if namedUnder name SAGA_TRIES_PREFIX then
    let stepKey := keyUnder name SAGA_TRIES_PREFIX
    match decodeRollbackTry stateJson with
    | none => { ctx with sagaCorruption := ctx.sagaCorruption.or (some stepKey) }
    | some record => { ctx with rollbackTries := ctx.rollbackTries ++ [(stepKey, record)] }
  else ctx

/-- The context of a pass that read these checkpoints. -/
def ReplayContext.new (checkpoints : List CommittedCheckpoint) : ReplayContext :=
  checkpoints.foldl (fun ctx cp =>
      { ctx with seen := ctx.seen ++ [cp.checkpointName] }.readSagaCheckpoint cp.checkpointName
        cp.stateJson)
    .empty

/-- The index after the highest one, as doubles are added: a sum past `2 ^ 53` is that number again. -/
def nextStartIndex (top : ℕ) : ℕ := min (top + 1) (2 ^ 53)

/-- The next index is what the double sum is. -/
theorem nextStartIndex_add {top : ℕ} (h : top ≤ 2 ^ 53) :
    (Js.Number.finite top).add (.finite (1 : ℕ)) = .finite (nextStartIndex top : ℕ) := by
  obtain hlt | rfl := Nat.lt_or_eq_of_le h
  · rw [Js.Number.add_nat hlt, nextStartIndex, min_eq_left hlt]
  · decide +kernel

/-- The step has a start index. -/
def ReplayContext.Started (ctx : ReplayContext) (stepKey : String) : Prop :=
  stepKey ∈ ctx.startIndexes.map Prod.fst
deriving Decidable

def ReplayContext.register (ctx : ReplayContext) (stepKey : String) : ReplayContext :=
  { ctx with registered := stepKey :: ctx.registered }

/-- `markStarted`, once the marker is stored. -/
def ReplayContext.markStarted (ctx : ReplayContext) (stepKey : String) (index : ℕ) :
    ReplayContext :=
  { ctx with
    startIndexes := ctx.startIndexes ++ [(stepKey, index)]
    topStartIndex := index }

/-- What a rollback pass does next: run a step's rollback, end the saga there, or end it done. -/
inductive NextRollback where
  | none
  | run (stepKey : String)
  | halt (stepKey : String)
  deriving DecidableEq

/-- The loop of `nextRollback`: the step that started last among those not rolled back, and its
index. -/
def lastStarted (rolledBack : List String) (startIndexes : List (String × ℕ)) :
    Option String × ℕ :=
  startIndexes.foldl (fun last candidate =>
      if candidate.1 ∈ rolledBack then last
      else if last.2 < candidate.2 then (some candidate.1, candidate.2)
      else last)
    (none, 0)

/-- `nextRollback`. -/
def ReplayContext.nextRollback (ctx : ReplayContext) : NextRollback :=
  match ctx.sagaCorruption with
  | some stepKey => .halt stepKey
  | none =>
    match (lastStarted ctx.rolledBack ctx.startIndexes).1 with
    | none => .none
    | some stepKey => if stepKey ∈ ctx.registered then .run stepKey else .halt stepKey

/-! ## Passes -/

/-- What a pass of a saga asks of the store: a step's start marker, the checkpoint that says its
rollback ran, the failure of its rollback, and the end of a saga with none left to run. -/
inductive SagaCall where
  | start (stepKey : String) (index : ℕ)
  | rollback (stepKey : String)
  | failRollback (stepKey : String)
  | fail
  deriving DecidableEq

/-- The `WorkerOutcome`s a pass of a saga ends with when it ends its run. -/
inductive WorkerOutcome where
  | rolledBack
  | rollingBack
  | rollbackFailed
  deriving DecidableEq

/-- Where a pass is: activated and yet to read its checkpoints, in its task's code, in a rollback
handler, awaiting the store, or over. -/
inductive Stage where
  | activated
  | code
  | handler (stepKey : String)
  | answer (call : SagaCall)
  | over (outcome : Option WorkerOutcome)
  deriving DecidableEq

/-- A saga call that was sent: its batch, and once the batch was delivered whether it took effect.
-/
structure Sent where
  call : SagaCall
  batch : Batch
  landed : Option Bool
  deriving DecidableEq

/-- A pass of a task: its claim, its run's task and attempt, its context, and the last saga call it
sent that it has no answer to. -/
structure Pass where
  claim : WorkerClaim
  taskId : String
  attempt : ℤ
  ctx : ReplayContext
  stage : Stage
  sent : Option Sent
  deriving DecidableEq

/-- The call of the store behind a saga call. The store names and counts the record of a failed
rollback, and a retried rollback's delay is the pass's to choose. -/
inductive Pass.Sends (p : Pass) (db : Db) : SagaCall → Call → Prop
  | start (stepKey : String) (index : ℕ) (extendMs : ℤ) :
    Pass.Sends p db (.start stepKey index) (.setCheckpoint p.claim p.taskId
      ⟨SAGA_STARTED_PREFIX ++ stepKey, encodeStartIndex index⟩ extendMs)
  | rollback (stepKey : String) (extendMs : ℤ) :
    Pass.Sends p db (.rollback stepKey) (.setCheckpoint p.claim p.taskId
      ⟨SAGA_ROLLBACK_PREFIX ++ stepKey, "null"⟩ extendMs)
  | failRollback (stepKey errorJson causeJson passId : String) (passDelayMs : Option ℤ)
    (cause : p.ctx.sagaCauseJson = some causeJson) :
    Pass.Sends p db (.failRollback stepKey) (.failInto {
      claim := p.claim, failureJson := causeJson, taskId := p.taskId, retryDelayMs := none, passId,
      rollback := some ⟨failedRollbackRecord db p.taskId stepKey errorJson, passDelayMs⟩ })
  | fail (causeJson passId : String) (cause : p.ctx.sagaCauseJson = some causeJson) :
    Pass.Sends p db .fail (.failInto {
      claim := p.claim, failureJson := causeJson, taskId := p.taskId, retryDelayMs := none, passId,
      rollback := none })

/-- The pass sends a call, and awaits its answer. -/
def Pass.send (p : Pass) (call : SagaCall) (b : Batch) : Pass :=
  { p with stage := .answer call, sent := some ⟨call, b, none⟩ }

/-- A turn of a pass that changes no row: task code and the worker go on, up to their next store
call or with the answer to their last. -/
inductive Pass.Turn (db : Db) (p : Pass) : Pass → Prop
  /-- `getCheckpoints`, and the context over them. -/
  | read (stage : p.stage = .activated) :
    Pass.Turn db p { p with
      ctx := .new (getCheckpoints db p.claim.queue p.taskId p.attempt)
      stage := .code }
  /-- A step that registers a rollback starts: it has no memo and no marker. -/
  | start (stepKey : String) (b : Batch) (stage : p.stage = .code) (forward : p.ctx.sagaCauseJson = none)
    (corruption : p.ctx.sagaCorruption = none) (inStep : p.ctx.inStep = false)
    (unseen : stepKey ∉ p.ctx.seen) (unstarted : ¬ p.ctx.Started stepKey)
    (ended : p.ctx.ended = false)
    (sends : p.Sends db (.start stepKey (nextStartIndex p.ctx.topStartIndex)) b.call) :
    Pass.Turn db p
      ({ p with ctx := { p.ctx with inStep := true } }.send
        (.start stepKey (nextStartIndex p.ctx.topStartIndex)) b)
  /-- Its marker is stored, and its body runs. -/
  | started (stepKey : String) (index : ℕ) (b : Batch) (stage : p.stage = .answer (.start stepKey index))
    (sent : p.sent = some ⟨.start stepKey index, b, some true⟩) :
    Pass.Turn db p { p with
      ctx := (p.ctx.markStarted stepKey index).register stepKey
      stage := .code
      sent := none }
  /-- The write met an infrastructure error, and may still take effect. -/
  | startCut (stepKey : String) (index : ℕ) (stage : p.stage = .answer (.start stepKey index)) :
    Pass.Turn db p { p with
      ctx := { p.ctx with inStep := false, ended := true }
      stage := .code }
  /-- The write met another error, and takes no effect. -/
  | startRefused (stepKey : String) (index : ℕ) (stage : p.stage = .answer (.start stepKey index))
    (refused : ∀ x ∈ p.sent, x.landed ≠ some true) :
    Pass.Turn db p { p with
      ctx := { p.ctx with inStep := false }
      stage := .code
      sent := none }
  /-- A step that started before runs again under the marker it has. -/
  | restart (stepKey : String) (stage : p.stage = .code) (forward : p.ctx.sagaCauseJson = none)
    (corruption : p.ctx.sagaCorruption = none) (inStep : p.ctx.inStep = false)
    (unseen : stepKey ∉ p.ctx.seen) (started : p.ctx.Started stepKey) :
    Pass.Turn db p { p with ctx := { p.ctx.register stepKey with inStep := true } }
  /-- A step's body settled. -/
  | stepped (stage : p.stage = .code) :
    Pass.Turn db p { p with ctx := { p.ctx with inStep := false } }
  /-- Another checkpoint the pass wrote is stored. -/
  | memo (name : String) (read : p.stage ≠ .activated) (stored : HasCheckpoint db p.taskId name) :
    Pass.Turn db p { p with ctx := { p.ctx with seen := p.ctx.seen ++ [name] } }
  /-- Another store call of the pass met an infrastructure error. -/
  | cut (read : p.stage ≠ .activated) : Pass.Turn db p { p with ctx := { p.ctx with ended := true } }
  /-- A step with a memo, or on a rollback pass one that started, registers its rollback. -/
  | register (stepKey : String) (read : p.stage ≠ .activated)
    (owed : stepKey ∈ p.ctx.seen ∨ (p.ctx.sagaCauseJson ≠ none ∧ p.ctx.Started stepKey)) :
    Pass.Turn db p { p with ctx := p.ctx.register stepKey }
  /-- The replay is done, or a rollback: the next rollback's handler runs. -/
  | run (stepKey : String) (stage : p.stage = .code) (saga : p.ctx.sagaCauseJson ≠ none)
    (next : p.ctx.nextRollback = .run stepKey) :
    Pass.Turn db p { p with
      ctx := { p.ctx with inStep := true }
      stage := .handler stepKey }
  /-- The handler is done, and what says so is stored. -/
  | ran (stepKey : String) (b : Batch) (stage : p.stage = .handler stepKey)
    (ended : p.ctx.ended = false) (sends : p.Sends db (.rollback stepKey) b.call) :
    Pass.Turn db p
      ({ p with ctx := { p.ctx with inStep := false } }.send (.rollback stepKey) b)
  /-- The rollback's checkpoint is stored. -/
  | rolledBack (stepKey : String) (b : Batch) (stage : p.stage = .answer (.rollback stepKey))
    (sent : p.sent = some ⟨.rollback stepKey, b, some true⟩) :
    Pass.Turn db p { p with
      ctx := { p.ctx with rolledBack := p.ctx.rolledBack ++ [stepKey] }
      stage := .code
      sent := none }
  /-- The handler threw. -/
  | threw (stepKey : String) (b : Batch) (stage : p.stage = .handler stepKey)
    (sends : p.Sends db (.failRollback stepKey) b.call) :
    Pass.Turn db p
      ({ p with ctx := { p.ctx with inStep := false } }.send (.failRollback stepKey) b)
  /-- The write of the rollback's checkpoint met an error that is no infrastructure error, and takes
  no effect. -/
  | rollbackRefused (stepKey : String) (b : Batch) (stage : p.stage = .answer (.rollback stepKey))
    (refused : ∀ x ∈ p.sent, x.landed ≠ some true)
    (sends : p.Sends db (.failRollback stepKey) b.call) :
    Pass.Turn db p (p.send (.failRollback stepKey) b)
  /-- The saga cannot go on. -/
  | halt (stepKey : String) (b : Batch) (stage : p.stage = .code) (saga : p.ctx.sagaCauseJson ≠ none)
    (next : p.ctx.nextRollback = .halt stepKey)
    (sends : p.Sends db (.failRollback stepKey) b.call) :
    Pass.Turn db p (p.send (.failRollback stepKey) b)
  /-- No rollback is left. -/
  | finish (b : Batch) (stage : p.stage = .code) (saga : p.ctx.sagaCauseJson ≠ none)
    (next : p.ctx.nextRollback = .none) (sends : p.Sends db .fail b.call) :
    Pass.Turn db p (p.send .fail b)
  /-- The failure of a rollback is stored, with a pass after it or with the task's end. -/
  | rollbackFailed (stepKey : String) (b : Batch) (outcome : WorkerOutcome)
    (stage : p.stage = .answer (.failRollback stepKey))
    (sent : p.sent = some ⟨.failRollback stepKey, b, some true⟩)
    (outcomes : outcome = .rollingBack ∨ outcome = .rollbackFailed) :
    Pass.Turn db p { p with stage := .over (some outcome) }
  /-- The end of the saga is stored. -/
  | finished (b : Batch) (stage : p.stage = .answer .fail) (sent : p.sent = some ⟨.fail, b, some true⟩) :
    Pass.Turn db p { p with stage := .over (some .rolledBack) }
  /-- The pass is cut: it crashed, or a call of its saga met an infrastructure error. -/
  | crash (read : p.stage ≠ .activated) : Pass.Turn db p { p with stage := .over none }

/-! ## The fleet -/

/-- The name is no start marker's, no rollback's and no attempt record's. -/
def SagaFree (name : String) : Prop :=
  ¬ namedUnder name SAGA_STARTED_PREFIX ∧ ¬ namedUnder name SAGA_ROLLBACK_PREFIX
deriving Decidable

/-- A call that is no pass's saga call: it writes no start marker and no rollback's checkpoint, and
fails no rollback. No other call of a pass does: the name of a step, a sleep or an await is none of
the engine's own. -/
def Call.Plain : Call → Prop
  | .suspendRun _ _ checkpoint => SagaFree checkpoint.key
  | .setCheckpoint _ _ checkpoint _ => SagaFree checkpoint.key
  | .failInto failure => failure.rollback = none
  | _ => True

/-- The batch's compare-and-set writes a row. -/
def Batch.wins (b : Batch) (now : ℤ) (db : Db) : Bool :=
  match b.run now db with
  | some out => out.won.isSome
  | none => false

/-- The store, and the passes over it. -/
structure Fleet where
  sys : Sys
  passes : List Pass

def Fleet.init : Fleet := ⟨.init, []⟩

/-- The pass an activation starts. -/
def Pass.activated (receipt : ClaimReceipt) (r : Run) : Pass where
  claim := ⟨receipt.queue, receipt.runId, receipt.claimToken⟩
  taskId := r.taskId
  attempt := r.attempt
  ctx := .empty
  stage := .activated
  sent := none

/-- One step of a fleet: a batch that is no saga call is delivered, for the first time or again; an
activation that wins starts a pass; a pass goes on; or a saga call that was sent is delivered. -/
inductive Fleet.Step (f : Fleet) : Fleet → Prop
  | other (b : Batch) (now : ℤ) (hclock : f.sys.clock ≤ now) (hfresh : f.sys.Fresh b.seed)
    (hadm : b.call.Admitted f.sys.Seen) (hplain : b.call.Plain) :
    Fleet.Step f ⟨f.sys.deliver b now, f.passes⟩
  | again (b : Batch) (now : ℤ) (hclock : f.sys.clock ≤ now) (hdelivered : f.sys.Delivered b)
    (hrepeats : b.call.Repeatable) :
    Fleet.Step f ⟨f.sys.deliver b now, f.passes⟩
  | activate (seed : String) (receipt : ClaimReceipt) (r : Run) (now : ℤ)
    (hclock : f.sys.clock ≤ now) (hfresh : f.sys.Fresh seed) (hr : r ∈ f.sys.db.runs)
    (hguard : activateGuard f.sys.db now receipt r) :
    Fleet.Step f ⟨f.sys.deliver ⟨seed, .activate receipt⟩ now, f.passes ++ [.activated receipt r]⟩
  | turn (before after : List Pass) (p p' : Pass) (hpasses : f.passes = before ++ p :: after)
    (hturn : p.Turn f.sys.db p') : Fleet.Step f ⟨f.sys, before ++ p' :: after⟩
  | land (before after : List Pass) (p : Pass) (call : SagaCall) (b : Batch) (now : ℤ)
    (hpasses : f.passes = before ++ p :: after) (hsent : p.sent = some ⟨call, b, none⟩)
    (hclock : f.sys.clock ≤ now) (hfresh : f.sys.Fresh b.seed) (hadm : b.call.Admitted f.sys.Seen) :
    Fleet.Step f ⟨f.sys.deliver b now,
      before ++ { p with sent := some ⟨call, b, some (b.wins now f.sys.db)⟩ } :: after⟩

/-- The fleets any finite sequence of steps leads to. -/
abbrev Fleet.Steps : Fleet → Fleet → Prop := Relation.ReflTransGen Fleet.Step

/-- The fleets a store without rows and without passes leads to. -/
abbrev Fleet.Reachable (f : Fleet) : Prop := Fleet.init.Steps f

end Durablerun
