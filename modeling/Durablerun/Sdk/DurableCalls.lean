import Durablerun.Lib.Program
import Durablerun.Sdk.Sagas

/-!
# The durable calls of a pass

What a durable call of a task does, between the steps at which it awaits: a program over the
context of the pass, which reaches the store by `#storeCall` alone. What it throws carries a control
when the pass's own scope enrolled it, and nothing a task makes does.

Reference: `packages/sdk/src/context.ts` and `packages/sdk/src/task-control.ts`.
-/

namespace Durablerun.Sdk.ClaimedRun

open Durablerun

/-! ## What is thrown -/

/-- The store's typed infrastructure errors, as `trustedStoreControl` tells them apart. -/
inductive Infrastructure where
  | leaseLost
  | runCancelled
  | storeUnavailable
  | storePermanent
  deriving DecidableEq

/-- `TaskControlSnapshot`. -/
inductive Control where
  | sleep (wake : WakeSpec) (checkpoint : CheckpointWrite)
  | awaitEvent
  | rollbackPhase
  | infrastructure (kind : Infrastructure)
  deriving DecidableEq

/-- What is thrown in a pass: an error its scope enrolled under a control, a `FatalTaskError`, an
error that says a call's arguments were refused, or any other value. -/
inductive Thrown where
  | control (control : Control)
  | fatal
  | refused
  | other
  deriving DecidableEq

/-- What a store call rejects with: an infrastructure error, a refusal of its arguments, or another
error. -/
inductive StoreError where
  | infrastructure (kind : Infrastructure)
  | refused
  | other
  deriving DecidableEq

/-- `trustedStoreControl`. -/
def trustedStoreControl : StoreError → Option Infrastructure
  | .infrastructure kind => some kind
  | .refused | .other => none

/-- What the issuer's `storeCall` rethrows: an infrastructure error is enrolled on its way. -/
def StoreError.thrown : StoreError → Thrown
  | .infrastructure kind => .control (.infrastructure kind)
  | .refused => .refused
  | .other => .other

/-- The control by which a store call's error ends its pass: one a retry can fix. -/
def StoreError.ends (error : StoreError) : Option Infrastructure :=
  (trustedStoreControl error).filter (· ≠ .storePermanent)

/-- The scope's `snapshot`. -/
def snapshot : Thrown → Option Control
  | .control control => some control
  | .fatal | .refused | .other => none

/-- The `WorkerOutcome`s a pass that called its handler ends with. -/
inductive Outcome where
  | aborted
  | leaseLost
  | cancelled
  | suspended
  | completed
  | failed
  | retryScheduled
  | rollingBack
  | rolledBack
  | rollbackFailed
  deriving DecidableEq

/-- `infrastructureOutcome`. -/
def infrastructureOutcome : Option Control → Option Outcome
  | some (.infrastructure .leaseLost) => some .leaseLost
  | some (.infrastructure .runCancelled) => some .cancelled
  | some (.infrastructure .storeUnavailable) => some .aborted
  | some (.infrastructure .storePermanent) => some .aborted
  | some (.sleep _ _) | some .awaitEvent | some .rollbackPhase | none => none

/-- `trustedStoreOutcome`, or nothing for an error it rethrows. -/
def trustedStoreOutcome (error : StoreError) : Option Outcome :=
  infrastructureOutcome ((trustedStoreControl error).map .infrastructure)

/-! ## Values and writes -/

/-- A stored value as the pass holds it: a step's result, the payload or the timeout an await met, a
child, or what a sleep leaves. -/
inductive Value where
  | json (text : String)
  | payload (payloadJson : String)
  | timedOut
  | child (taskId queue : String)
  | slept
  deriving DecidableEq

/-- A value of the task's own: its canonical form, or what its serialization throws. -/
abbrev Raw := Except Thrown Value

/-- The writes a pass sends the store. -/
inductive Write where
  | setCheckpoint (key : String) (value : Value)
  | spawn (queue taskName paramsJson replayKey : String)
  | awaitEvent (stepKey eventName : String) (timeoutSeconds : Option ℕ)
  | awaitTaskDone (stepKey childTaskId : String) (timeoutSeconds : Option ℕ)
  | emitEvent (name payloadJson : String)
  | suspendRun (wake : WakeSpec) (checkpoint : CheckpointWrite)
  | complete (result : Value)
  | fail (failureJson : String) (retryMs : Option ℕ)
  | failRollback (causeJson : String) (retryMs : Option ℕ) (stepKey errorJson : String)
  deriving DecidableEq

/-- What the store answers a write: nothing more, an event that was there, a wait it registered, the
task it spawned, or whether the task rolls back. -/
inductive Reply where
  | ok
  | emitted (payloadJson : String)
  | registered
  | spawned (taskId : String)
  | failed (rollingBack : Bool)
  deriving DecidableEq

/-! ## The context -/

/-- The context of a pass, as its durable calls read and write it. -/
structure Context where
  /-- Why the heartbeat was refused. -/
  leaseEnd : Option Infrastructure
  /-- `seen`. -/
  memo : String → Option Value
  orderNumbers : String → Option ℕ
  nextOrder : ℕ
  callsMade : ℕ
  callsPending : ℕ
  inStep : Bool
  startIndexes : List (String × ℕ)
  topStartIndex : ℕ
  registered : List String
  rolledBack : List String
  sagaCauseJson : Option String
  /-- The step of the first saga checkpoint that cannot be read, and what is wrong with it. -/
  sagaCorruption : Option (String × String)
  /-- The last step at which the replay threw the phase signal. -/
  replayLastCutAt : Option String
  /-- The step and the outcome of the wake the claim carries. -/
  pendingWake : Option (String × Value)

namespace Context

variable (ctx : Context)

def setMemo (key : String) (value : Value) : Context :=
  { ctx with memo := fun k => if k = key then some value else ctx.memo k }

def register (key : String) : Context := { ctx with registered := key :: ctx.registered }

def Started (key : String) : Prop := key ∈ ctx.startIndexes.map Prod.fst
deriving Decidable

/-- What a rollback pass does next: run a step's rollback, end the saga with the failure of one, or
end it done. -/
inductive NextRollback where
  | none
  | run (stepKey : String)
  | halt (stepKey errorJson : String)
  deriving DecidableEq

/-- `haltFailure`. -/
def haltFailure (stepKey name message : String) : NextRollback :=
  .halt stepKey (Js.text (Js.Value.object [(Js.units "name", .string (Js.utf16 name)),
    (Js.units "message", .string (Js.utf16 message))]).text)

/-- What a halt says of a step that no flow of the replay registered, and where the replay was cut
when that was earlier. -/
def notRegistered (stepKey : String) (top : ℕ) : String :=
  let said := s!"step '{stepKey}' started, and this pass's replay registered no rollback for it"
  match ctx.replayLastCutAt with
  | none => said
  | some cutAt =>
    if (ctx.startIndexes.lookup cutAt).getD 0 < top then
      said ++ s!". The replay last stopped at step '{cutAt}', which started and never " ++
        "persisted: on a rollback pass that step throws the engine's signal where its body " ++
        "threw before, and the handler must catch it to reach a later step"
    else said

/-- `nextRollback`. -/
def nextRollback : NextRollback :=
  match ctx.sagaCorruption with
  | some (stepKey, message) => haltFailure stepKey "$SagaStateCorrupt" message
  | none =>
    match lastStarted ctx.rolledBack ctx.startIndexes with
    | (none, _) => .none
    | (some stepKey, top) =>
      if stepKey ∈ ctx.registered then .run stepKey
      else haltFailure stepKey "$RollbackNotRegistered" (ctx.notRegistered stepKey top)

end Context

/-! ## Durable calls -/

/-- What a durable call does at a step: read and change the context, call the store by `#storeCall`,
wait for the turn of its result, or wait for the task's code. -/
inductive Op where
  | sync (change : Context → Context)
  | storeCall (write : Write)
  | turn
  | body

/-- What it goes on with. -/
inductive Answer where
  | context (ctx : Context)
  | replied (reply : Except Thrown Reply)
  | went
  | settled (result : Except Thrown Raw)

abbrev Flow := Program Op Answer Thrown

namespace Flow

/-- An operation is answered in its own kind, so the last case of each of these never arises. -/
def context : Flow Context :=
  .call (.sync id) fun
    | .context ctx => .pure ctx
    | _ => .throw .other

def update (change : Context → Context) : Flow Unit := .call (.sync change) fun _ => .pure ()

def storeCall (write : Write) : Flow Reply :=
  .call (.storeCall write) fun
    | .replied reply => .ofExcept reply
    | _ => .throw .other

def turn : Flow Unit := .call .turn fun _ => .pure ()

def body : Flow Raw :=
  .call .body fun
    | .settled result => .ofExcept result
    | _ => .throw .other

/-- `try { flow } finally { last }`. -/
def ensuring {α : Type} (flow : Flow α) (last : Flow Unit) : Flow α := do
  let result ← Program.tryCatch (flow >>= fun value => pure (Except.ok value)) fun error =>
    pure (Except.error error)
  last
  .ofExcept result

/-- `assertLeaseHeld`. -/
def assertLeaseHeld : Flow Unit := do
  match (← context).leaseEnd with
  | some reason => .throw (.control (.infrastructure reason))
  | none => pure ()

/-- `enterDurableOp`. -/
def enterDurableOp : Flow Unit := do
  assertLeaseHeld
  if (← context).inStep then .throw .fatal

/-- `refuseForwardProgress`. -/
def refuseForwardProgress : Flow Unit := do
  if (← context).sagaCauseJson ≠ none then .throw (.control .rollbackPhase)

/-- A `CallSpan`: how many calls had been made, and whether another was pending. -/
structure CallSpan where
  startNo : ℕ
  beganBesideAnother : Bool

/-- `#beginCall`. -/
def beginCall : Flow CallSpan := do
  let ctx ← context
  update fun ctx =>
    { ctx with callsMade := ctx.callsMade + 1, callsPending := ctx.callsPending + 1 }
  return ⟨ctx.callsMade + 1, 0 < ctx.callsPending⟩

/-- `#endCall`. -/
def endCall : Flow Unit := update fun ctx => { ctx with callsPending := ctx.callsPending - 1 }

/-- `#overlapped`. -/
def overlapped (span : CallSpan) : Flow Bool := do
  return span.beganBesideAnother ∨ span.startNo < (← context).callsMade

/-- `commitCheckpoint`. -/
def commitCheckpoint (key : String) (raw : Raw) : Flow Value := do
  let value ← .ofExcept raw
  let _ ← storeCall (.setCheckpoint key value)
  update (·.setMemo key value)
  return value

/-- `#recordOrder`. -/
def recordOrder (seq : ℕ) (key : String) : Flow Unit := do
  let _ ← commitCheckpoint s!"$order:{seq}" (.ok (.json key))

/-- `#turnOf`: a recorded result reaches the task in its turn. -/
def turnOf (key : String) : Flow Unit := do
  if (← context).orderNumbers key ≠ none then turn

/-- The next number of the order: `assign`, or `reserve` for a sleep. -/
def nextOrder : Flow ℕ := do
  let ctx ← context
  update fun ctx => { ctx with nextOrder := ctx.nextOrder + 1 }
  return ctx.nextOrder

/-- `#commitOrdered`. -/
def commitOrdered (span : CallSpan) (key : String) (raw : Raw) : Flow Value := do
  let seq ← nextOrder
  let before ← overlapped span
  if before then recordOrder seq key
  let value ← commitCheckpoint key raw
  turn
  let after ← overlapped span
  if after ∧ ¬ before then recordOrder seq key
  return value

/-- `markStarted`. -/
def markStarted (key : String) : Flow Unit := do
  let ctx ← context
  if ¬ ctx.Started key then
    let index := nextStartIndex ctx.topStartIndex
    let _ ← commitCheckpoint (SAGA_STARTED_PREFIX ++ key) (.ok (.json (encodeStartIndex index)))
    update fun ctx =>
      { ctx with startIndexes := ctx.startIndexes ++ [(key, index)], topStartIndex := index }

/-- `#runStep`. -/
def runStep (span : CallSpan) (key : String) (rollback : Bool) : Flow Value := do
  if rollback ∧ (← context).memo key ≠ none then update (·.register key)
  turnOf key
  let ctx ← context
  match ctx.memo key with
  | some value => return value
  | none =>
    if ctx.sagaCauseJson ≠ none then
      if rollback ∧ ctx.Started key then update (·.register key)
      update ({ · with replayLastCutAt := some key })
      .throw (.control .rollbackPhase)
    update ({ · with inStep := true })
    let raw ← ensuring
      (do
        if rollback then
          markStarted key
          update (·.register key)
        body)
      (update ({ · with inStep := false }))
    let value ← commitOrdered span key raw
    if rollback then update (·.register key)
    return value

/-- `takeWake`. -/
def takeWake (stepKey : String) : Flow (Option Value) := do
  match (← context).pendingWake with
  | some (step, outcome) =>
    if step = stepKey then
      update ({ · with pendingWake := none })
      return some outcome
    else return none
  | none => return none

/-- `eventMemoPayload`: a memo that recorded a timeout throws it again. -/
def eventMemoPayload (memo : Value) : Flow Value :=
  if memo = .timedOut then .throw .other else pure memo

/-- `commitEventMemo`. -/
def commitEventMemo (span : CallSpan) (key : String) (memo : Value) : Flow Value := do
  let _ ← commitOrdered span key (.ok memo)
  eventMemoPayload memo

/-- `settledAwait`. -/
def settledAwait (span : CallSpan) (key : String) : Flow (Option Value) := do
  match (← context).memo key with
  | some memo =>
    let _ ← takeWake key
    turnOf key
    return some (← eventMemoPayload memo)
  | none =>
    refuseForwardProgress
    match ← takeWake key with
    | some wake => return some (← commitEventMemo span key wake)
    | none => return none

/-- `registeredAwait`. -/
def registeredAwait (span : CallSpan) (key : String) : Reply → Flow Value
  | .emitted payloadJson => commitEventMemo span key (.payload payloadJson)
  | _ => .throw (.control .awaitEvent)

/-- An await of an event, or of a task: its memo, the wake the claim carries, or what the store
answers. -/
def settleAwait (span : CallSpan) (key : String) (write : Write) : Flow Value := do
  match ← settledAwait span key with
  | some value => return value
  | none => registeredAwait span key (← storeCall write)

/-- `#runSpawn`. -/
def runSpawn (span : CallSpan) (key : String) (taskName : String) (params : Except Thrown String)
    (queue : Except Thrown String) : Flow Value := do
  turnOf key
  match (← context).memo key with
  | some (.child taskId queue) => return .child taskId queue
  | some _ => .throw .fatal
  | none =>
    refuseForwardProgress
    let paramsJson ← .ofExcept params
    let queue ← .ofExcept queue
    let reply ← Program.tryCatch (storeCall (.spawn queue taskName paramsJson key)) fun error =>
      .throw (if error = .refused then .fatal else error)
    match reply with
    | .spawned taskId => commitOrdered span key (.ok (.child taskId queue))
    | _ => .throw .other

/-- `#suspendAt`. -/
def suspendAt (span : CallSpan) (key : String) (wake : WakeSpec) (stateJson : String) :
    Flow Value := do
  turnOf key
  match (← context).memo key with
  | some _ => return .slept
  | none =>
    refuseForwardProgress
    if ← overlapped span then recordOrder (← nextOrder) key
    .throw (.control (.sleep wake ⟨key, stateJson⟩))

end Flow

/-- A durable call and its arguments. `name` is what the check of its name throws, if it does,
`checked` what the checks of its other arguments throw, and `key` what `storageName` answers. -/
inductive DurableCall where
  | step (name checked : Except Thrown Unit) (key : Except Thrown String) (rollback : Bool)
  | sleep (checked : Except Thrown Unit) (key : Except Thrown String) (wake : WakeSpec)
      (stateJson : String)
  | emitEvent (checked : Except Thrown Unit) (eventName payloadJson : String)
  | awaitEvent (name checked : Except Thrown Unit) (key : Except Thrown String) (eventName : String)
      (timeoutSeconds : Option ℕ)
  | spawn (name : Except Thrown Unit) (key : Except Thrown String) (taskName : String)
      (params queue : Except Thrown String)
  | awaitTask (name checked : Except Thrown Unit) (key : Except Thrown String) (taskId : String)
      (timeoutSeconds : Option ℕ)
  deriving DecidableEq

open Durablerun.Sdk.ClaimedRun.Flow in
/-- A call that has its key is counted while it is pending. -/
def pending (key : Except Thrown String) (run : CallSpan → String → Flow Value) : Flow Value := do
  let key ← .ofExcept key
  let span ← beginCall
  ensuring (run span key) endCall

open Durablerun.Sdk.ClaimedRun.Flow in
/-- `awaitTask`, from its key on. -/
def settleTask (taskId : String) (timeoutSeconds : Option ℕ) (span : CallSpan) (key : String) :
    Flow Value :=
  let settled := do
    let value ← settleAwait span key (.awaitTaskDone key taskId timeoutSeconds)
    match value with
    | .payload payloadJson =>
      match decodeTaskOutcome taskId payloadJson with
      | .ok _ => return value
      | .error _ => .throw .refused
    | _ => return value
  settled.tryCatch fun error => .throw (if error = .refused then .fatal else error)

open Durablerun.Sdk.ClaimedRun.Flow in
/-- A durable call as `ReplayContext` makes it. -/
def DurableCall.flow : DurableCall → Flow Value
  | .step name checked key rollback => do
    .ofExcept name
    enterDurableOp
    .ofExcept checked
    let ctx ← context
    -- A saga checkpoint that cannot be read would order or budget a rollback wrongly.
    if rollback ∧ ctx.sagaCorruption ≠ none ∧ ctx.sagaCauseJson = none then .throw .fatal
    pending key fun span key => runStep span key rollback
  | .sleep checked key wake stateJson => do
    enterDurableOp
    .ofExcept checked
    pending key fun span key => suspendAt span key wake stateJson
  | .emitEvent checked eventName payloadJson => do
    .ofExcept checked
    assertLeaseHeld
    let ctx ← context
    -- A rollback pass's replay emits nothing, and goes on.
    if ctx.sagaCauseJson ≠ none ∧ ¬ ctx.inStep then return .slept
    let _ ← storeCall (.emitEvent eventName payloadJson)
    return .slept
  | .awaitEvent name checked key eventName timeoutSeconds => do
    .ofExcept name
    enterDurableOp
    .ofExcept checked
    pending key fun span key => settleAwait span key (.awaitEvent key eventName timeoutSeconds)
  | .spawn name key taskName params queue => do
    .ofExcept name
    enterDurableOp
    pending key fun span key => runSpawn span key taskName params queue
  | .awaitTask name checked key taskId timeoutSeconds => do
    .ofExcept name
    enterDurableOp
    .ofExcept checked
    pending key (settleTask taskId timeoutSeconds)

end Durablerun.Sdk.ClaimedRun
