import Durablerun.Sdk.ClaimedRun
import Mathlib.Logic.Relation

/-!
# One replay context

A claimed run's worker and a pass of a saga hold one context of the replay, the worker's with the
values and the counts that its durable calls need beside it. Whatever the handler does, the worker's
context goes on as a pass's: by what a pass reads, registers, starts and rolls back. So the step
whose rollback comes next is the same for both.

Reference: `packages/sdk/src/context.ts`.
-/

namespace Durablerun

/-- What a pass makes of the context it replays over. -/
inductive ReplayContext.Move (ctx : ReplayContext) : ReplayContext → Prop
  /-- A checkpoint of the pass is stored. -/
  | saw (name : String) : Move ctx { ctx with seen := ctx.seen ++ [name] }
  | register (stepKey : String) : Move ctx (ctx.register stepKey)
  | markStarted (stepKey : String) (index : ℕ) : Move ctx (ctx.markStarted stepKey index)
  /-- A body begins, or settles. -/
  | enter (inStep : Bool) : Move ctx { ctx with inStep }
  | rolledBack (stepKey : String) : Move ctx { ctx with rolledBack := ctx.rolledBack ++ [stepKey] }
  /-- A store call of the pass met an infrastructure error. -/
  | ended : Move ctx { ctx with ended := true }

/-- The contexts that moves lead to. -/
abbrev ReplayContext.Moves : ReplayContext → ReplayContext → Prop :=
  Relation.ReflTransGen ReplayContext.Move

/-- Once it has read its checkpoints, a pass of a saga only moves its context. -/
theorem Pass.Turn.moves {db : Db} {p p' : Pass} (h : p.Turn db p') (hread : p.stage ≠ .activated) :
    p.ctx.Moves p'.ctx := by
  cases h with
  | read stage => exact absurd stage hread
  | start | startRefused | stepped | run | ran | threw => exact .single (.enter _)
  | started => exact .tail (.single (.markStarted _ _)) (.register _)
  | startCut => exact .tail (.single (.enter false)) .ended
  | restart => exact .tail (.single (.register _)) (.enter _)
  | memo => exact .single (.saw _)
  | cut => exact .single .ended
  | register => exact .single (.register _)
  | rolledBack => exact .single (.rolledBack _)
  | rollbackRefused | halt | finish | rollbackFailed | finished | crash => exact .refl

namespace Sdk.ClaimedRun

/-! ## What a worker's context holds -/

/-- A worker's context and the error that ended its pass, as the context of a saga's pass. -/
structure Context.Holds (ctx : Context) (endedBy : Option Infrastructure) (saga : ReplayContext) :
    Prop where
  seen : ∀ key, key ∈ saga.seen ↔ ctx.memo key ≠ none
  startIndexes : saga.startIndexes = ctx.startIndexes
  topStartIndex : saga.topStartIndex = ctx.topStartIndex
  rolledBack : saga.rolledBack = ctx.rolledBack
  registered : saga.registered = ctx.registered
  sagaCauseJson : saga.sagaCauseJson = ctx.sagaCauseJson
  sagaCorruption : saga.sagaCorruption = ctx.sagaCorruption.map Prod.fst
  inStep : saga.inStep = ctx.inStep
  ended : saga.ended = true ↔ endedBy ≠ none

/-- What comes next, less the text of a halt's failure. -/
def Context.NextRollback.saga : Context.NextRollback → Durablerun.NextRollback
  | .none => .none
  | .run stepKey => .run stepKey
  | .halt stepKey _ => .halt stepKey

variable {ctx : Context} {endedBy : Option Infrastructure} {saga : ReplayContext}

/-- The worker and the pass roll back the same step next, or halt at the same step. -/
theorem Context.Holds.nextRollback (h : ctx.Holds endedBy saga) :
    ctx.nextRollback.saga = saga.nextRollback := by
  unfold Context.nextRollback ReplayContext.nextRollback
  rw [h.sagaCorruption, h.rolledBack, h.startIndexes, h.registered]
  cases ctx.sagaCorruption with
  | some corruption => rfl
  | none =>
    cases hlast : lastStarted ctx.rolledBack ctx.startIndexes with
    | mk started top =>
      cases started with
      | none => simp [Context.NextRollback.saga]
      | some stepKey =>
        by_cases hregistered : stepKey ∈ ctx.registered
        · simp [Context.NextRollback.saga, hregistered]
        · simp [Context.NextRollback.saga, Context.haltFailure, hregistered]

/-! ## What a durable call makes of it -/

/-- Whatever the worker's context holds, it holds what moves lead to after the change. -/
def Moves (change : Context → Context) : Prop :=
  ∀ ctx endedBy saga, ctx.Holds endedBy saga → ∃ saga', saga.Moves saga' ∧
    (change ctx).Holds endedBy saga'

/-- The change is none of the saga's. -/
theorem Moves.refl {change : Context → Context}
    (h : ∀ ctx endedBy saga, ctx.Holds endedBy saga → (change ctx).Holds endedBy saga) :
    Moves change := fun ctx endedBy saga hholds => ⟨saga, .refl, h ctx endedBy saga hholds⟩

/-- One change after another. -/
theorem Moves.comp {change next : Context → Context} (hnext : Moves next) (h : Moves change) :
    Moves (next ∘ change) := fun ctx endedBy saga hholds => by
  obtain ⟨saga₁, hmoves, h₁⟩ := h ctx endedBy saga hholds
  obtain ⟨saga₂, hmoves', h₂⟩ := hnext _ endedBy saga₁ h₁
  exact ⟨saga₂, hmoves.trans hmoves', h₂⟩

/-- To change nothing is no move. -/
theorem moves_id : Moves id := .refl fun _ _ _ h => h

/-- A checkpoint that is stored is one the pass saw. -/
theorem moves_setMemo (key : String) (value : Value) : Moves (·.setMemo key value) :=
  fun ctx endedBy saga h => by
    refine ⟨_, .single (.saw key), { h with seen := fun k => ?_ }⟩
    by_cases hk : k = key
    · simp [Context.setMemo, hk]
    · simp [Context.setMemo, hk, h.seen]

/-- A rollback registered with the worker is registered with the pass. -/
theorem moves_register (key : String) : Moves (·.register key) := fun _ _ _ h =>
  ⟨_, .single (.register key), { h with registered := congrArg (key :: ·) h.registered }⟩

/-- A step started for the worker is started for the pass. -/
theorem moves_markStarted (key : String) (index : ℕ) : Moves fun ctx =>
    { ctx with startIndexes := ctx.startIndexes ++ [(key, index)], topStartIndex := index } :=
  fun _ _ _ h => ⟨_, .single (.markStarted key index),
    { h with
      startIndexes := congrArg (· ++ [(key, index)]) h.startIndexes
      topStartIndex := rfl }⟩

/-- A body that begins or settles for the worker does so for the pass. -/
theorem moves_enter (inStep : Bool) : Moves ({ · with inStep }) := fun _ _ _ h =>
  ⟨_, .single (.enter inStep), { h with inStep := rfl }⟩

/-- A step rolled back for the worker is rolled back for the pass. -/
theorem moves_rolledBack (key : String) : Moves fun ctx =>
    { ctx with rolledBack := ctx.rolledBack ++ [key] } := fun _ _ _ h =>
  ⟨_, .single (.rolledBack key), { h with rolledBack := congrArg (· ++ [key]) h.rolledBack }⟩

/-- A flow may change what the pass knows of its saga by moves alone. -/
def sagaRules : Program.Rules Unit Op Answer where
  may _ op := ∀ change, op = .sync change → Moves change
  learn _ _ _ _ := True

/-- Whatever the flow is answered, it changes the context by moves of the saga's. -/
def Replays {α : Type} (flow : Flow α) : Prop :=
  flow.Safe sagaRules (fun _ _ => True) (fun _ _ => True) ()

section Flows

variable {α β : Type} {flow : Flow α}

/-- A flow that returns changes nothing. -/
theorem replays_pure (value : α) : Replays (pure value : Flow α) := trivial

/-- A flow that throws changes nothing. -/
theorem replays_throw (error : Thrown) : Replays (.throw error : Flow α) := trivial

/-- One flow after another. -/
theorem Replays.bind {next : α → Flow β} (h : Replays flow) (hnext : ∀ a, Replays (next a)) :
    Replays (flow >>= next) :=
  Program.Safe.bind (h.imp (fun _ _ _ => trivial) fun _ value _ => hnext value)

/-- A flow with a handler for what it throws. -/
theorem Replays.tryCatch {handler : Thrown → Flow α} (h : Replays flow)
    (hhandler : ∀ error, Replays (handler error)) : Replays (flow.tryCatch handler) :=
  Program.Safe.tryCatch (h.imp (fun _ error _ => hhandler error) fun _ _ _ => trivial)

/-- Either of two flows. -/
theorem Replays.ite {condition : Prop} [Decidable condition] {other : Flow α} (h : Replays flow)
    (hother : Replays other) : Replays (if condition then flow else other) := by
  split
  · exact h
  · exact hother

/-- A flow that runs something first on a condition. -/
theorem Replays.ite_bind {condition : Prop} [Decidable condition] {first : Flow Unit}
    {rest : Unit → Flow α} (h : Replays first) (hrest : ∀ a, Replays (rest a)) :
    Replays (if condition then first >>= rest else rest ()) :=
  (h.bind hrest).ite (hrest ())

/-- A result that is already there changes nothing. -/
theorem replays_ofExcept (result : Except Thrown α) : Replays (.ofExcept result : Flow α) := by
  cases result <;> trivial

/-- A flow that makes an allowed call and goes on with its answer. -/
theorem replays_call {op : Op} {next : Answer → Flow α} (hop : sagaRules.may () op)
    (hnext : ∀ answer, Replays (next answer)) : Replays (.call op next) :=
  ⟨hop, fun answer _ _ => hnext answer⟩

/-- Reading the context changes nothing. -/
theorem replays_context : Replays Flow.context := by
  refine replays_call (fun change hchange => ?_) fun answer => ?_
  · cases hchange
    exact moves_id
  · cases answer <;> trivial

/-- A change that moves lead to. -/
theorem replays_update {change : Context → Context} (h : Moves change) :
    Replays (Flow.update change) := by
  refine replays_call (fun other hother => ?_) fun _ => trivial
  cases hother
  exact h

/-- Calling the store changes nothing by itself. -/
theorem replays_storeCall (write : Write) : Replays (Flow.storeCall write) := by
  refine replays_call (fun _ hop => by cases hop) fun answer => ?_
  cases answer with
  | replied reply => exact replays_ofExcept reply
  | _ => trivial

/-- Waiting for a turn changes nothing by itself. -/
theorem replays_turn : Replays Flow.turn := replays_call (fun _ hop => by cases hop) fun _ => trivial

/-- Running the task's code changes nothing by itself. -/
theorem replays_body : Replays Flow.body := by
  refine replays_call (fun _ hop => by cases hop) fun answer => ?_
  cases answer with
  | settled result => exact replays_ofExcept result
  | _ => trivial

/-- A flow with what is done whatever its end. -/
theorem Replays.ensuring {last : Flow Unit} (h : Replays flow) (hlast : Replays last) :
    Replays (Flow.ensuring flow last) :=
  (Replays.tryCatch (h.bind fun _ => replays_pure _) fun _ => replays_pure _).bind fun _ =>
    hlast.bind fun _ => replays_ofExcept _

end Flows

/-! ## The durable calls -/

section Calls

open Durablerun.Sdk.ClaimedRun.Flow

/-- The check of the lease changes nothing. -/
theorem replays_assertLeaseHeld : Replays assertLeaseHeld := by
  refine replays_context.bind fun ctx => ?_
  cases ctx.leaseEnd <;> trivial

/-- The check of a durable call changes nothing. -/
theorem replays_enterDurableOp : Replays enterDurableOp := by
  refine replays_assertLeaseHeld.bind fun _ => replays_context.bind fun ctx => ?_
  split <;> trivial

/-- The check of the phase changes nothing. -/
theorem replays_refuseForwardProgress : Replays refuseForwardProgress := by
  refine replays_context.bind fun ctx => ?_
  split <;> trivial

/-- A call that begins is counted, which is none of the saga's. -/
theorem replays_beginCall : Replays beginCall := by
  refine replays_context.bind fun ctx => Replays.bind (replays_update ?_) fun _ => replays_pure _
  exact .refl fun _ _ _ h => { h with }

/-- A call that ends is counted, which is none of the saga's. -/
theorem replays_endCall : Replays endCall := replays_update (.refl fun _ _ _ h => { h with })

/-- The question of an overlap changes nothing. -/
theorem replays_overlapped (span : CallSpan) : Replays (overlapped span) :=
  replays_context.bind fun _ => replays_pure _

/-- A checkpoint that is committed is one the pass saw. -/
theorem replays_commitCheckpoint (key : String) (raw : Raw) : Replays (commitCheckpoint key raw) :=
  (replays_ofExcept raw).bind fun value => (replays_storeCall _).bind fun _ =>
    (replays_update (moves_setMemo key value)).bind fun _ => replays_pure _

/-- An order number is a checkpoint. -/
theorem replays_recordOrder (seq : ℕ) (key : String) : Replays (recordOrder seq key) :=
  (replays_commitCheckpoint _ _).bind fun _ => replays_pure _

/-- A result's turn changes nothing by itself. -/
theorem replays_turnOf (key : String) : Replays (turnOf key) := by
  exact replays_context.bind fun ctx => replays_turn.ite (replays_pure _)

/-- The next number of the order is none of the saga's. -/
theorem replays_nextOrder : Replays nextOrder := by
  refine replays_context.bind fun ctx => Replays.bind (replays_update ?_) fun _ => replays_pure _
  exact .refl fun _ _ _ h => { h with }

/-- A result is committed with its order number, where another call overlapped. -/
theorem replays_commitOrdered (span : CallSpan) (key : String) (raw : Raw) :
    Replays (commitOrdered span key raw) := by
  refine replays_nextOrder.bind fun seq => (replays_overlapped span).bind fun before => ?_
  refine Replays.ite_bind (replays_recordOrder seq key) fun _ => ?_
  refine (replays_commitCheckpoint key raw).bind fun value => replays_turn.bind fun _ => ?_
  exact (replays_overlapped span).bind fun after =>
    Replays.ite_bind (replays_recordOrder seq key) fun _ => replays_pure value

/-- A start marker is a checkpoint, and then the step has started. -/
theorem replays_markStarted (key : String) : Replays (markStarted key) := by
  refine replays_context.bind fun ctx => Replays.ite ?_ (replays_pure _)
  exact (replays_commitCheckpoint _ _).bind fun _ => replays_update (moves_markStarted key _)

/-- A step starts, runs and is committed by moves. -/
theorem replays_runStep (span : CallSpan) (key : String) (rollback : Bool) :
    Replays (runStep span key rollback) := by
  have hregister : Replays (update (·.register key)) := replays_update (moves_register key)
  have hcut : Replays (update ({ · with replayLastCutAt := some key })) :=
    replays_update (.refl fun _ _ _ h => { h with })
  refine replays_context.bind fun ctx => Replays.ite_bind hregister fun _ =>
    (replays_turnOf key).bind fun _ => replays_context.bind fun ctx => ?_
  split
  · exact replays_pure _
  · refine Replays.ite ?_ ?_
    · exact Replays.ite_bind hregister fun _ => hcut.bind fun _ => replays_throw _
    · refine (replays_update (moves_enter true)).bind fun _ => Replays.bind ?_ fun raw => ?_
      · refine Replays.ensuring ?_ (replays_update (moves_enter false))
        exact Replays.ite ((replays_markStarted key).bind fun _ => hregister.bind fun _ => replays_body)
          replays_body
      · exact (replays_commitOrdered span key raw).bind fun value =>
          Replays.ite_bind hregister fun _ => replays_pure value

/-- The wake that the claim carries is none of the saga's. -/
theorem replays_takeWake (stepKey : String) : Replays (takeWake stepKey) := by
  refine replays_context.bind fun ctx => ?_
  split
  · split
    · refine Replays.bind (replays_update ?_) fun _ => replays_pure _
      exact .refl fun _ _ _ h => { h with }
    · exact replays_pure _
  · exact replays_pure _

/-- A memo's payload changes nothing. -/
theorem replays_eventMemoPayload (memo : Value) : Replays (eventMemoPayload memo) := by
  unfold eventMemoPayload
  split <;> trivial

/-- An await's outcome is a checkpoint. -/
theorem replays_commitEventMemo (span : CallSpan) (key : String) (memo : Value) :
    Replays (commitEventMemo span key memo) :=
  (replays_commitOrdered span key _).bind fun _ => replays_eventMemoPayload memo

/-- An await that is settled replays its memo or commits its wake. -/
theorem replays_settledAwait (span : CallSpan) (key : String) : Replays (settledAwait span key) := by
  refine replays_context.bind fun ctx => ?_
  split
  · exact (replays_takeWake key).bind fun _ => (replays_turnOf key).bind fun _ =>
      (replays_eventMemoPayload _).bind fun _ => replays_pure _
  · refine replays_refuseForwardProgress.bind fun _ => (replays_takeWake key).bind fun wake => ?_
    split
    · exact (replays_commitEventMemo span key _).bind fun _ => replays_pure _
    · exact replays_pure _

/-- An await that was registered ends the pass, and one that met its event commits it. -/
theorem replays_registeredAwait (span : CallSpan) (key : String) (reply : Reply) :
    Replays (registeredAwait span key reply) := by
  cases reply with
  | emitted payloadJson => exact replays_commitEventMemo span key _
  | _ => trivial

/-- An await moves the saga by what it commits. -/
theorem replays_settleAwait (span : CallSpan) (key : String) (write : Write) :
    Replays (settleAwait span key write) := by
  refine (replays_settledAwait span key).bind fun settled => ?_
  split
  · exact replays_pure _
  · exact (replays_storeCall write).bind fun reply => replays_registeredAwait span key reply

/-- A spawn moves the saga by what it commits. -/
theorem replays_runSpawn (span : CallSpan) (key taskName : String)
    (params queue : Except Thrown String) : Replays (runSpawn span key taskName params queue) := by
  refine (replays_turnOf key).bind fun _ => replays_context.bind fun ctx => ?_
  split
  · exact replays_pure _
  · exact replays_throw _
  · refine replays_refuseForwardProgress.bind fun _ => (replays_ofExcept params).bind fun _ =>
      (replays_ofExcept queue).bind fun _ => Replays.bind ?_ fun reply => ?_
    · exact (replays_storeCall _).tryCatch fun error => replays_throw _
    · split
      · exact replays_commitOrdered span key _
      · exact replays_throw _

/-- A sleep moves the saga by the order number it records. -/
theorem replays_suspendAt (span : CallSpan) (key : String) (wake : WakeSpec) (stateJson : String) :
    Replays (suspendAt span key wake stateJson) := by
  refine (replays_turnOf key).bind fun _ => replays_context.bind fun ctx => ?_
  split
  · exact replays_pure _
  · refine replays_refuseForwardProgress.bind fun _ => (replays_overlapped span).bind fun _ => ?_
    exact Replays.ite (replays_nextOrder.bind fun seq => (replays_recordOrder seq key).bind fun _ =>
      replays_throw _) (replays_throw _)

/-- A call moves the saga as what runs while it is pending does. -/
theorem replays_pending (key : Except Thrown String) {run : CallSpan → String → Flow Value}
    (h : ∀ span key, Replays (run span key)) : Replays (pending key run) :=
  (replays_ofExcept key).bind fun key => replays_beginCall.bind fun span =>
    (h span key).ensuring replays_endCall

/-- An await of a task moves the saga by what it commits. -/
theorem replays_settleTask (taskId : String) (timeoutSeconds : Option ℕ) (span : CallSpan)
    (key : String) : Replays (settleTask taskId timeoutSeconds span key) := by
  refine Replays.tryCatch ((replays_settleAwait span key _).bind fun value => ?_) fun error =>
    replays_throw _
  split
  · split
    · exact replays_pure _
    · exact replays_throw _
  · exact replays_pure _

/-- A durable call changes what the pass knows of its saga by moves alone. -/
theorem DurableCall.replays (call : DurableCall) : Replays call.flow := by
  cases call with
  | step name checked key rollback =>
    refine (replays_ofExcept name).bind fun _ => replays_enterDurableOp.bind fun _ =>
      (replays_ofExcept checked).bind fun _ => replays_context.bind fun ctx => ?_
    exact Replays.ite (replays_throw _) (replays_pending key fun span key =>
      replays_runStep span key rollback)
  | sleep checked key wake stateJson =>
    exact replays_enterDurableOp.bind fun _ => (replays_ofExcept checked).bind fun _ =>
      replays_pending key fun span key => replays_suspendAt span key wake stateJson
  | emitEvent checked eventName payloadJson =>
    refine (replays_ofExcept checked).bind fun _ => replays_assertLeaseHeld.bind fun _ =>
      replays_context.bind fun ctx => ?_
    exact Replays.ite (replays_pure _) ((replays_storeCall _).bind fun _ => replays_pure _)
  | awaitEvent name checked key eventName timeoutSeconds =>
    exact (replays_ofExcept name).bind fun _ => replays_enterDurableOp.bind fun _ =>
      (replays_ofExcept checked).bind fun _ => replays_pending key fun span key =>
        replays_settleAwait span key _
  | spawn name key taskName params queue =>
    exact (replays_ofExcept name).bind fun _ => replays_enterDurableOp.bind fun _ =>
      replays_pending key fun span key => replays_runSpawn span key taskName params queue
  | awaitTask name checked key taskId timeoutSeconds =>
    exact (replays_ofExcept name).bind fun _ => replays_enterDurableOp.bind fun _ =>
      (replays_ofExcept checked).bind fun _ => replays_pending key
        (replays_settleTask taskId timeoutSeconds)

end Calls

/-! ## A run of a pass -/

/-- What a pass holds of its saga, with what its flows have still to do. -/
structure Pass.Holds (p : Pass) (saga : ReplayContext) : Prop where
  ctx : p.ctx.Holds p.endedBy saga
  calls : ∀ flow ∈ p.calls, Replays flow

/-- A pass goes on to hold what moves lead to. -/
def Pass.Goes (saga : ReplayContext) (p : Pass) : Prop := ∃ saga', saga.Moves saga' ∧ p.Holds saga'

/-- A flow that goes on until it awaits moves what the pass holds. -/
theorem advance_holds {flow : Flow Value} (hflow : Replays flow) (h : ctx.Holds endedBy saga) :
    ∃ saga', saga.Moves saga' ∧ (advance endedBy flow ctx).1.Holds endedBy saga' ∧
      Replays (advance endedBy flow ctx).2 := by
  induction flow generalizing ctx saga with
  | pure value => exact ⟨saga, .refl, h, hflow⟩
  | throw error => exact ⟨saga, .refl, h, hflow⟩
  | call op next ih =>
    cases op with
    | sync change =>
      obtain ⟨saga₁, hmoves, h₁⟩ := hflow.1 change rfl ctx endedBy saga h
      obtain ⟨saga₂, hmoves', h₂⟩ := ih _ (hflow.2 _ () trivial) h₁
      exact ⟨saga₂, hmoves.trans hmoves', h₂⟩
    | storeCall write =>
      cases endedBy with
      | none => exact ⟨saga, .refl, h, hflow⟩
      | some kind => exact ih _ (hflow.2 _ () trivial) h
    | turn => exact ⟨saga, .refl, h, hflow⟩
    | body => exact ⟨saga, .refl, h, hflow⟩

variable {settings : Settings} {p p' : Pass}

/-- A call of the pass goes on. -/
theorem Pass.Holds.resume (h : p.Holds saga) (i : ℕ) {flow : Flow Value} (hflow : Replays flow) :
    (p.resume i flow).Goes saga := by
  obtain ⟨saga', hmoves, hctx, hrest⟩ := advance_holds hflow h.ctx
  refine ⟨saga', hmoves, hctx, fun other hother => ?_⟩
  obtain hother | rfl := List.mem_or_eq_of_mem_set hother
  · exact h.calls other hother
  · exact hrest

/-- A store call is answered: an infrastructure error ends what the pass sends. -/
theorem Pass.Holds.tell (h : p.Holds saga) (reply : Except StoreError Reply) :
    (p.tell reply).Goes saga := by
  cases reply with
  | ok reply => exact ⟨saga, .refl, h⟩
  | error error =>
    cases hends : error.ends with
    | none =>
      simp only [Pass.tell, hends]
      exact ⟨saga, .refl, h⟩
    | some kind =>
      simp only [Pass.tell, hends]
      exact ⟨_, .single .ended, { h.ctx with ended := by simp }, h.calls⟩

/-- The worker goes on over a context that moves led to. -/
theorem Pass.Holds.turn {change : Context → Context} (h : p.Holds saga) (hchange : Moves change)
    (next : Turn) : (p.turn (change p.ctx) next).Goes saga := by
  obtain ⟨saga', hmoves, hctx⟩ := hchange _ _ _ h.ctx
  exact ⟨saga', hmoves, hctx, h.calls⟩

/-- A turn of the rollback loop is a body that begins, or nothing. -/
theorem moves_rollNext (settings : Settings) (causeJson : String) :
    Moves fun ctx => (rollNext settings ctx causeJson).1 := fun ctx endedBy saga h => by
  simp only [rollNext]
  split
  · split
    · exact ⟨saga, .refl, h⟩
    · exact moves_enter true ctx endedBy saga h
  · exact ⟨saga, .refl, h⟩
  · exact ⟨saga, .refl, h⟩

/-- One step of a pass moves what it knows of its saga. -/
theorem Pass.Holds.step {action : Pass.Action} (h : p.Holds saga)
    (hstep : p.step settings action = some p') : p'.Goes saga := by
  cases action with
  | call call =>
    obtain rfl := Option.some.inj hstep
    -- The call the handler makes starts as its own flow, which moves the saga as every flow does.
    have hcalls : ({ p with calls := p.calls ++ [call.flow] } : Pass).Holds saga :=
      ⟨h.ctx, List.forall_mem_append.mpr
        ⟨h.calls, List.forall_mem_singleton.mpr call.replays⟩⟩
    exact hcalls.resume p.calls.length call.replays
  | replied i reply =>
    simp only [Pass.step] at hstep
    split at hstep
    · rename_i write next hcall
      obtain rfl := Option.some.inj hstep
      obtain ⟨saga₁, hmoves, htold⟩ := h.tell reply
      have hnext := (h.calls _ (List.mem_of_getElem? hcall)).2
      obtain ⟨saga₂, hmoves', hholds⟩ := htold.resume i
        (hnext (.replied (reply.mapError StoreError.thrown)) () trivial)
      exact ⟨saga₂, hmoves.trans hmoves', hholds⟩
    · cases hstep
  | turned i =>
    simp only [Pass.step] at hstep
    split at hstep
    · rename_i next hcall
      obtain rfl := Option.some.inj hstep
      exact h.resume i ((h.calls _ (List.mem_of_getElem? hcall)).2 .went () trivial)
    · cases hstep
  | settledBody i result =>
    simp only [Pass.step] at hstep
    split at hstep
    · rename_i next hcall
      obtain rfl := Option.some.inj hstep
      exact h.resume i ((h.calls _ (List.mem_of_getElem? hcall)).2 (.settled result) () trivial)
    · cases hstep
  | heartbeat reason =>
    obtain rfl := Option.some.inj hstep
    exact ⟨saga, .refl, { h.ctx with }, h.calls⟩
  | handled result =>
    simp only [Pass.step] at hstep
    split at hstep
    · obtain rfl := Option.some.inj hstep
      exact h.turn moves_id _
    · obtain rfl := Option.some.inj hstep
      exact h.turn moves_id _
    · cases hstep
  | settled =>
    simp only [Pass.step] at hstep
    split at hstep
    · obtain rfl := Option.some.inj hstep
      exact h.turn (moves_rollNext settings p.causeJson) _
    · cases hstep
  | rolled result =>
    simp only [Pass.step] at hstep
    split at hstep
    -- However the rollback came out, the worker leaves the step and its saga as they were.
    · split at hstep <;> obtain rfl := Option.some.inj hstep <;> exact h.turn (moves_enter false) _
    · cases hstep
  | committed reply =>
    simp only [Pass.step] at hstep
    split at hstep
    · rename_i stepKey _ _
      obtain rfl := Option.some.inj hstep
      exact h.turn ((moves_rollNext settings p.causeJson).comp
        ((moves_rolledBack stepKey).comp
          (moves_setMemo (SAGA_ROLLBACK_PREFIX ++ stepKey) (.json "null")))) _
    · rename_i stepKey error _
      obtain rfl := Option.some.inj hstep
      obtain ⟨saga₁, hmoves, htold⟩ := h.tell (.error error)
      have hctx : (p.tell (.error error)).ctx = p.ctx := by
        simp only [Pass.tell]
        split <;> rfl
      obtain ⟨saga₂, hmoves', hholds⟩ := htold.turn moves_id
        (rollbackThrew settings p.causeJson stepKey error.thrown)
      rw [id, hctx] at hholds
      exact ⟨saga₂, hmoves.trans hmoves', hholds⟩
    · cases hstep
  | answered reply =>
    simp only [Pass.step] at hstep
    split at hstep
    · obtain rfl := Option.some.inj hstep
      exact h.turn moves_id _
    · cases hstep

/-- Whatever a handler does and however its calls interleave, the pass holds what a pass of its saga
holds: what it read, moved by what it stored, registered, started and rolled back. The step whose
rollback comes next is that pass's. -/
theorem Pass.run_holds (actions : List Pass.Action) (h : p.Holds saga)
    (hrun : p.run settings actions = some p') :
    ∃ saga', saga.Moves saga' ∧ p'.Holds saga' ∧ p'.ctx.nextRollback.saga = saga'.nextRollback := by
  induction actions generalizing p saga with
  | nil =>
    obtain rfl := Option.some.inj hrun
    exact ⟨saga, .refl, h, h.ctx.nextRollback⟩
  | cons action actions ih =>
    obtain ⟨p₁, hstep, hrest⟩ := Option.bind_eq_some_iff.mp hrun
    obtain ⟨saga₁, hmoves, hholds⟩ := h.step hstep
    obtain ⟨saga₂, hmoves', hend⟩ := ih hholds hrest
    exact ⟨saga₂, hmoves.trans hmoves', hend⟩

/-- So it is of every pass, from the moment its handler is called. -/
theorem Pass.start_holds (h : ctx.Holds none saga) : (Pass.start ctx).Holds saga :=
  ⟨h, fun _ hflow => absurd hflow List.not_mem_nil⟩

end Sdk.ClaimedRun

end Durablerun
