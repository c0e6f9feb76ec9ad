import Durablerun.Store.Claim

/-!
# The batches of an event

`awaitEvent`, the two batches of `awaitTaskDone` and `emitEvent`: the registration of a wait, the
record of an event, and the wake of every run that waits on it.

Reference: `packages/store-libsql/src/store.ts` and `packages/core/src/statements/events.ts`.
-/

namespace Durablerun

open Relational

/-- An event name a statement may carry: one a caller of the port named, or the completion event of
a task. -/
inductive EventName where
  | port (raw : String)
  | taskDone (taskId : String)
  deriving DecidableEq

/-- The name as it is stored. -/
def EventName.value : EventName → String
  | port raw => raw
  | taskDone taskId => taskDoneEventName taskId

/-- The task whose completion event this is. -/
def EventName.taskId : EventName → Option String
  | port _ => none
  | taskDone taskId => some taskId

/-- `EventName.fromPort`: a name a caller gave, which is refused when it is one of the engine's. -/
def EventName.FromPort : EventName → Prop
  | port raw => ¬ namedUnder raw RESERVED_EVENT_PREFIX
  | taskDone _ => False

/-- The names an await is made of: a caller's, or the completion event of a task. -/
def EventName.Admitted : EventName → Prop
  | port raw => ¬ namedUnder raw RESERVED_EVENT_PREFIX
  | taskDone _ => True

/-! ## awaitEvent -/

/-- The claim an awaiting worker presents, and the await it makes. -/
structure AwaitCall where
  queue : String
  runId : String
  taskId : String
  claimToken : String
  stepName : String
  eventName : EventName
  timeoutMs : Option ℤ
  deriving DecidableEq

/-- What the checks of an await let through: an event of the caller's own or a task's completion, and
no negative timeout. -/
structure AwaitCall.Admitted (call : AwaitCall) : Prop where
  eventName : call.eventName.Admitted
  timeoutMs : ∀ timeout ∈ call.timeoutMs, 0 ≤ timeout

/-- `registerWaitCas`'s guard: no such event, a live claim on an eligible task, a timeout that fits,
no saga begun, and a child, when one is awaited, that is live in this queue. -/
def registerGuard (db : Db) (now : ℤ) (call : AwaitCall) : Prop :=
  (¬ ∃ e ∈ db.events, e.queue = call.queue ∧ e.eventName = call.eventName.value) ∧
    stillClaimed db call.queue call.runId call.taskId call.claimToken (eligibleTask · now) ∧
    (∀ timeout ∈ call.timeoutMs, epochAdditionFits now timeout) ∧
    ¬ sagaBegan db call.taskId ∧
    ∀ child ∈ call.eventName.taskId,
      ∃ c ∈ db.tasks, c.taskId = child ∧ c.queue = call.queue ∧ c.state.Live
deriving Decidable

/-- The wait an await registers. -/
def AwaitCall.wait (call : AwaitCall) (seed : String) (now : ℤ) : Wait where
  runId := call.runId
  stepName := call.stepName
  queue := call.queue
  taskId := call.taskId
  eventName := call.eventName.value
  timeoutAtMs := call.timeoutMs.map (now + ·)
  createdAtMs := now
  fenceStamp := some ⟨seed, .register⟩
  fenceAtMs := now

/-- What the park of an await requires of the run it parks. -/
def awaitParkNarrow (db : Db) (call : AwaitCall) (r : Run) : Prop :=
  whereClaimedRun call.queue call.runId call.claimToken r ∧ r.taskId = call.taskId ∧
    ∃ t ∈ db.tasks, runOwnedByTask r t ∧ t.state.Live
deriving Decidable

/-- `registerWaitCas`. A row in its way is left as it is. -/
def registerWaitCas (db : Db) (seed : String) (call : AwaitCall) (now : ℤ) : Db :=
  if registerGuard db now call then
    { db with waits := db.waits.insertIgnore (call.wait seed now) }
  else db

/-- The timeout of the wait this batch registered. -/
def registeredTimeout (db : Db) (seed : String) (call : AwaitCall) : Option ℤ :=
  (db.waits.rows.find? fun f =>
    f.runId = call.runId ∧ f.stepName = call.stepName ∧
      f.fenceStamp = some ⟨seed, .register⟩).bind Wait.timeoutAtMs

/-- What the park of an await assigns. -/
def awaitAssignments (call : AwaitCall) (timeout : Option ℤ) (r : Run) : Run :=
  { r with
    state := .sleeping
    availableAtMs := timeout
    wakeEvent := some call.eventName.value
    eventPayload := none
    wakeStep := some call.stepName
    claimedBy := none
    claimExpiresAtMs := none
    heartbeatAtMs := none }

/-- `park`: the run of the wait this batch registered sleeps on it. -/
def awaitPark (db : Db) (seed : String) (call : AwaitCall) : Db :=
  waitsToRuns db seed .park .register call.queue
    (fun f => f.runId = call.runId ∧ f.stepName = call.stepName) (awaitParkNarrow db call)
    ⟨awaitAssignments call (registeredTimeout db seed call), fun _ => rfl⟩

/-- `task-mirror` of an await: the task of the parked run sleeps with it. -/
def awaitMirror (db : Db) (seed : String) (call : AwaitCall) : Db :=
  runsToTasks db seed .taskMirror .park call.queue
    (fun f => f.runId = call.runId ∧ f.state = .sleeping) (fun t => t.state.Live)
    ⟨fun t => { t with state := .sleeping }, fun _ => rfl⟩

/-- `awaitNamedEvent`'s batch: register a wait unless the event is there, and park the run on it. -/
def awaitEvent (seed : String) (call : AwaitCall) (now : ℤ) (db : Db) : Outcome :=
  ⟨awaitMirror (awaitPark (registerWaitCas db seed call now) seed call) seed call,
    wonBy .register (registerGuard db now call ∧ db.waits.Free (call.wait seed now))⟩

/-! ## recordTaskDone -/

/-- The record of a child that ended with no completion event, as `recordTaskDone` makes it from the
child's row it read. -/
structure RecordTaskDoneCall where
  queue : String
  runId : String
  taskId : String
  claimToken : String
  childTaskId : String
  childStamp : Option Stamp
  payloadJson : String
  deriving DecidableEq

/-- `materializeTaskDoneCas`'s guard, of the child's row. -/
def materializeGuard (db : Db) (call : RecordTaskDoneCall) (c : Task) : Prop :=
  c.taskId = call.childTaskId ∧ c.fenceStamp = call.childStamp ∧
    (¬ ∃ e ∈ db.events, e.queue = c.queue ∧ e.eventName = taskDoneEventName call.childTaskId) ∧
    stillClaimed db call.queue call.runId call.taskId call.claimToken (fun t => t.state.Live)
deriving Decidable

/-- `recordTaskDone`: record the outcome that was read, while the child's row is the one read. -/
def recordTaskDone (seed : String) (call : RecordTaskDoneCall) (now : ℤ) (db : Db) : Outcome :=
  match db.tasks.rows.find? fun c => materializeGuard db call c with
  | none => ⟨db, none⟩
  | some c =>
    ⟨{ db with
        events := db.events.insertIgnore
          { queue := c.queue
            eventName := taskDoneEventName call.childTaskId
            payload := call.payloadJson
            emittedAtMs := now
            fenceStamp := some ⟨seed, .materialize⟩
            fenceAtMs := now } },
      some .materialize⟩

/-! ## emitEvent -/

/-- What `emitEvent` is called with. -/
structure EmitCall where
  queue : String
  eventName : EventName
  payloadJson : String
  deriving DecidableEq

/-- The event an emit records. -/
def EmitCall.event (call : EmitCall) (seed : String) (now : ℤ) : Event where
  queue := call.queue
  eventName := call.eventName.value
  payload := call.payloadJson
  emittedAtMs := now
  fenceStamp := some ⟨seed, .event⟩
  fenceAtMs := now

/-- `emitEventCas`: first write wins on the payload and the instant, and a re-emit takes only this
statement's stamp. -/
def emitEventCas (db : Db) (seed : String) (call : EmitCall) (now : ℤ) : Db :=
  { db with
    events := db.events.upsert (call.event seed now)
      (fun e => e.fenceStamp ≠ some ⟨seed, .event⟩ ∧ epochBounds.Within e.emittedAtMs)
      ⟨fun e => { e with fenceStamp := some ⟨seed, .event⟩, fenceAtMs := e.emittedAtMs },
        fun _ => rfl⟩ }

/-- `emitEvent`. -/
def emitEvent (seed : String) (call : EmitCall) (now : ℤ) (db : Db) : Outcome :=
  ⟨wakeWaiters (emitEventCas db seed call now) seed call.queue call.eventName.value,
    wonBy .event (db.events.Free (call.event seed now) ∨
      ∃ e ∈ db.events, Table.Conflicts (call.event seed now) e Event.keys ∧
        e.fenceStamp ≠ some ⟨seed, .event⟩ ∧ epochBounds.Within e.emittedAtMs)⟩

end Durablerun
