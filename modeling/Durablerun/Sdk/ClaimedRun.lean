import Durablerun.Sdk.DurableCalls

/-!
# A claimed run

The pass of a claimed run, from the moment its handler is called. The handler is anyone's code: it
makes durable calls when it likes, one at a time or side by side, catches what they throw, and
returns or throws when it likes. The worker goes on with how the handler ended, to the one write
that ends the pass.

Reference: `packages/sdk/src/run-worker.ts` and `packages/sdk/src/context.ts`.
-/

namespace Durablerun.Sdk.ClaimedRun

open Durablerun

/-! ## The worker -/

/-- What the worker holds beside the context: the retry `decideRetry` grants a user failure and a
failed rollback, and the text of what is thrown. -/
structure Settings where
  userRetry : Option ℕ
  rollbackRetry : String → Option ℕ
  failureJson : Thrown → String

/-- Where the worker awaits: its handler, on a forward pass or in a rollback pass's replay, the
flows the replay held, a rollback's handler, the store's answer to the rollback's checkpoint, or its
answer to the write that ends the pass, which goes on with an outcome. At last it is over: it
returned, or it threw an error of the store's. -/
inductive Stage where
  | handling
  | replaying
  | settling
  | rollback (stepKey : String)
  | committing (stepKey : String)
  | writing (outcome : Reply → Outcome)
  | over (outcome : Option Outcome)

/-- What a pass does that others see. -/
inductive Event where
  /-- A write goes to the store. -/
  | sent (write : Write)
  /-- A store call of the handler's durable calls is answered with an infrastructure error that ends
  the pass. -/
  | told (kind : Infrastructure)
  /-- The worker returns, or throws. -/
  | ended (outcome : Option Outcome)
  deriving DecidableEq

/-- The worker's next await, and what it does before it. -/
abbrev Turn := Stage × List Event

/-- The worker returns. -/
def returns (outcome : Outcome) : Turn := (.over (some outcome), [.ended (some outcome)])

/-- The worker sends the write that ends the pass. -/
def writes (write : Write) (outcome : Reply → Outcome) : Turn := (.writing outcome, [.sent write])

variable (settings : Settings)

/-- `recordUserFailure`. -/
def recordUserFailure (error : Thrown) : Turn :=
  let retry := if error = .fatal then none else settings.userRetry
  writes (.fail (settings.failureJson error) retry) fun reply =>
    if reply = .failed true then .rollingBack
    else if retry ≠ none then .retryScheduled
    else .failed

/-- The `catch` of the forward pass. -/
def threw (error : Thrown) : Turn :=
  match snapshot error with
  -- The store's batch parked the run, and a second park would overwrite its wait.
  | some .awaitEvent => returns .suspended
  | some (.sleep wake checkpoint) => writes (.suspendRun wake checkpoint) fun _ => .suspended
  | control =>
    match infrastructureOutcome control with
    | some outcome => returns outcome
    | none => recordUserFailure settings error

/-- The handler of a forward pass settled. -/
def handled (endedBy : Option Infrastructure) : Except Thrown Raw → Turn
  | .error error => threw settings error
  | .ok result =>
    match infrastructureOutcome (endedBy.map .infrastructure) with
    | some outcome => returns outcome
    | none =>
      match result with
      | .ok value => writes (.complete value) fun _ => .completed
      | .error error => threw settings error

/-- The handler of a rollback pass settled: its ending means nothing, an infrastructure error
apart. -/
def replayed : Except Thrown Raw → Turn
  | .ok _ => (.settling, [])
  | .error error =>
    match infrastructureOutcome (snapshot error) with
    | some outcome => returns outcome
    | none => (.settling, [])

/-- A rollback threw. -/
def rollbackThrew (causeJson stepKey : String) (error : Thrown) : Turn :=
  match infrastructureOutcome (snapshot error) with
  | some outcome => returns outcome
  | none =>
    let retry := if error = .fatal then none else settings.rollbackRetry stepKey
    writes (.failRollback causeJson retry stepKey (settings.failureJson error)) fun reply =>
      if reply = .failed true then .rollingBack else .rollbackFailed

/-- One turn of `rollBack`'s loop, up to the rollback's handler. -/
def rollNext (ctx : Context) (causeJson : String) : Context × Turn :=
  match ctx.nextRollback with
  | .run stepKey =>
    match ctx.leaseEnd with
    | some reason =>
      (ctx, rollbackThrew settings causeJson stepKey (.control (.infrastructure reason)))
    | none => ({ ctx with inStep := true }, .rollback stepKey, [])
  | .halt stepKey errorJson =>
    (ctx, writes (.failRollback causeJson none stepKey errorJson) fun _ => .rollbackFailed)
  | .none => (ctx, writes (.fail causeJson none) fun _ => .rolledBack)

/-- The store answered the write that ends the pass. -/
def answered (outcome : Reply → Outcome) : Except StoreError Reply → Turn
  | .ok reply => returns (outcome reply)
  | .error error => (.over (trustedStoreOutcome error), [.ended (trustedStoreOutcome error)])

/-! ## The pass -/

/-- A pass: its context, the error that ended it for the flows of its task (`DeliveryOrder`'s
`endedBy`), the durable calls its handler made, the worker, and what it did so far, the first
first. -/
structure Pass where
  ctx : Context
  endedBy : Option Infrastructure
  calls : List (Flow Value)
  stage : Stage
  log : List Event

/-- A flow goes on until it awaits. `#storeCall` sends nothing once the pass has ended: it throws
what ended it. -/
def advance (endedBy : Option Infrastructure) : Flow Value → Context → Context × Flow Value
  | .call (.sync change) next, ctx => advance endedBy (next (.context (change ctx))) (change ctx)
  | .call (.storeCall write) next, ctx =>
    match endedBy with
    | some kind => advance endedBy (next (.replied (.error (.control (.infrastructure kind))))) ctx
    | none => (ctx, .call (.storeCall write) next)
  | .call .turn next, ctx => (ctx, .call .turn next)
  | .call .body next, ctx => (ctx, .call .body next)
  | .pure value, ctx => (ctx, .pure value)
  | .throw error, ctx => (ctx, .throw error)

/-- What a flow sends as it comes to await. -/
def Flow.sends : Flow Value → List Event
  | .call (.storeCall write) _ => [.sent write]
  | _ => []

namespace Pass

variable (p : Pass)

/-- The `i`-th call goes on as `flow`. -/
def resume (i : ℕ) (flow : Flow Value) : Pass :=
  let (ctx, flow) := advance p.endedBy flow p.ctx
  { p with ctx, calls := p.calls.set i flow, log := p.log ++ flow.sends }

/-- A store call answers: `#storeCall`'s `catch` ends the pass by an error that a retry can fix. -/
def tell : Except StoreError Reply → Pass
  | .ok _ => p
  | .error error =>
    match error.ends with
    | none => p
    | some kind => { p with endedBy := p.endedBy.or (some kind), log := p.log ++ [.told kind] }

/-- The worker goes on. -/
def turn (ctx : Context) (next : Turn) : Pass :=
  { p with ctx, stage := next.1, log := p.log ++ next.2 }

/-- What happens to a pass: its handler makes a durable call, a call goes on or its body settles,
the heartbeat is refused, or what the worker awaits comes. -/
inductive Action where
  | call (call : DurableCall)
  | replied (i : ℕ) (reply : Except StoreError Reply)
  | turned (i : ℕ)
  | settledBody (i : ℕ) (result : Except Thrown Raw)
  | heartbeat (reason : Infrastructure)
  | handled (result : Except Thrown Raw)
  | settled
  | rolled (result : Except Thrown Unit)
  | committed (reply : Except StoreError Reply)
  | answered (reply : Except StoreError Reply)
  deriving DecidableEq

/-- The text of the failure that began the saga. -/
def causeJson : String := p.ctx.sagaCauseJson.getD ""

/-- One step of a pass, where it awaits what happens. -/
def step : Action → Option Pass
  | .call call =>
    some ({ p with calls := p.calls ++ [call.flow] }.resume p.calls.length call.flow)
  | .replied i reply =>
    match p.calls[i]? with
    | some (.call (.storeCall _) next) =>
      some ((p.tell reply).resume i (next (.replied (reply.mapError StoreError.thrown))))
    | _ => none
  | .turned i =>
    match p.calls[i]? with
    | some (.call .turn next) => some (p.resume i (next .went))
    | _ => none
  | .settledBody i result =>
    match p.calls[i]? with
    | some (.call .body next) => some (p.resume i (next (.settled result)))
    | _ => none
  | .heartbeat reason => some { p with ctx := { p.ctx with leaseEnd := some reason } }
  | .handled result =>
    match p.stage with
    | .handling => some (p.turn p.ctx (ClaimedRun.handled settings p.endedBy result))
    | .replaying => some (p.turn p.ctx (replayed result))
    | _ => none
  | .settled =>
    match p.stage with
    | .settling =>
      let (ctx, next) := rollNext settings p.ctx p.causeJson
      some (p.turn ctx next)
    | _ => none
  | .rolled result =>
    match p.stage with
    | .rollback stepKey =>
      let ctx := { p.ctx with inStep := false }
      match result, p.endedBy with
      | .error error, _ => some (p.turn ctx (rollbackThrew settings p.causeJson stepKey error))
      | .ok (), some kind =>
        let ended := .control (.infrastructure kind)
        some (p.turn ctx (rollbackThrew settings p.causeJson stepKey ended))
      | .ok (), none =>
        some (p.turn ctx (.committing stepKey,
          [.sent (.setCheckpoint (SAGA_ROLLBACK_PREFIX ++ stepKey) (.json "null"))]))
    | _ => none
  | .committed reply =>
    match p.stage, reply with
    | .committing stepKey, .ok _ =>
      let ctx := p.ctx.setMemo (SAGA_ROLLBACK_PREFIX ++ stepKey) (.json "null")
      let (ctx, next) := rollNext settings { ctx with rolledBack := ctx.rolledBack ++ [stepKey] }
        p.causeJson
      some (p.turn ctx next)
    | .committing stepKey, .error error =>
      some ((p.tell reply).turn p.ctx (rollbackThrew settings p.causeJson stepKey error.thrown))
    | _, _ => none
  | .answered reply =>
    match p.stage with
    | .writing outcome => some (p.turn p.ctx (ClaimedRun.answered outcome reply))
    | _ => none

/-- A run of a pass. -/
def run (p : Pass) : List Action → Option Pass
  | [] => some p
  | action :: actions => (p.step settings action).bind (·.run actions)

/-- The pass as it calls its handler: over what it read, and rolling back when it read a failure. -/
def start (ctx : Context) : Pass where
  ctx := ctx
  endedBy := none
  calls := []
  stage := if ctx.sagaCauseJson = none then .handling else .replaying
  log := []

end Pass

end Durablerun.Sdk.ClaimedRun
