import Durablerun.Sdk.DurableKeys

/-!
# The strings of a port call

One table names every string a caller passes the store's port, and one check holds each to its rule
before the entry runs. A string a store indexes is held to the durable domain and to the width of an
identifier. The entries hold the names the engine derives from one to the same width.

Reference: `packages/core/src/port-strings.ts`.
-/

namespace Durablerun

open Js

/-! ## Values -/

/-- An argument of a port call, as one reading of it sees it: what its type is, and what each member
of an object answers. -/
inductive PortValue where
  | undefined
  | null
  | boolean (value : Bool)
  | string (raw : Str)
  | array
  | object (member : String → PortValue)
  /-- A number, a bigint, a symbol or a function. -/
  | other

/-- The members of an options object, all left out where it is, or `none` when the value is none. -/
def PortValue.members : PortValue → Option (String → PortValue)
  | undefined => some fun _ => undefined
  | object member => some member
  | null | boolean _ | string _ | array | other => none

/-- The value is left out. -/
def PortValue.LeftOut : PortValue → Prop
  | undefined => True
  | null | boolean _ | string _ | array | object _ | other => False

instance : DecidablePred PortValue.LeftOut := fun value => by
  cases value <;> unfold PortValue.LeftOut <;> infer_instance

/-! ## Rules -/

/-- `PortStringRule`. -/
inductive PortStringRule where
  | identifier | durable | payload | map
  deriving DecidableEq

/-- `PortStringName`: the strings a caller passes, by the name the caller knows each by. -/
inductive PortStringName where
  | queue | taskId | runId | driverId | childTaskId | idempotencyKey | eventName | stepName
  | checkpointName | checkpointKey | rollbackStepKey | parentQueue | parentTaskId | parentRunId
  | replayKey | claimToken | parentClaimToken | taskName | paramsJson | resultJson | failureJson
  | stateJson | checkpointStateJson | rollbackErrorJson | payloadJson | headers
  deriving DecidableEq

/-- The name as a refusal shows it. -/
def PortStringName.text : PortStringName → String
  | queue => "queue"
  | taskId => "taskId"
  | runId => "runId"
  | driverId => "driverId"
  | childTaskId => "childTaskId"
  | idempotencyKey => "idempotencyKey"
  | eventName => "eventName"
  | stepName => "stepName"
  | checkpointName => "checkpointName"
  | checkpointKey => "checkpoint.key"
  | rollbackStepKey => "rollback.stepKey"
  | parentQueue => "childOf.parentQueue"
  | parentTaskId => "childOf.parentTaskId"
  | parentRunId => "childOf.runId"
  | replayKey => "childOf.replayKey"
  | claimToken => "claimToken"
  | parentClaimToken => "childOf.claimToken"
  | taskName => "taskName"
  | paramsJson => "paramsJson"
  | resultJson => "resultJson"
  | failureJson => "failureJson"
  | stateJson => "stateJson"
  | checkpointStateJson => "checkpoint.stateJson"
  | rollbackErrorJson => "rollback.errorJson"
  | payloadJson => "payloadJson"
  | headers => "headers"

/-- `PORT_STRING_RULES`. -/
def PORT_STRING_RULES : PortStringName → PortStringRule
  | .queue | .taskId | .runId | .driverId | .childTaskId | .idempotencyKey | .eventName | .stepName
  | .checkpointName | .checkpointKey | .rollbackStepKey | .parentQueue | .parentTaskId
  | .parentRunId | .replayKey | .claimToken | .parentClaimToken => .identifier
  | .taskName => .durable
  | .paramsJson | .resultJson | .failureJson | .stateJson | .checkpointStateJson
  | .rollbackErrorJson | .payloadJson => .payload
  | .headers => .map

/-! ## The table -/

/-- `NamedStrings`: what the table says about one value of a call. `leftOut` marks a value the caller
may leave out. -/
inductive NamedStrings where
  | nothing
  | string (name : PortStringName)
  | leftOut (named : NamedStrings)
  | object (members : List (String × NamedStrings))

/-- `PortMethod`. -/
inductive PortMethod where
  | spawn | claim | activate | claimedTaskName | deferLaunch | heartbeat | reschedule | complete
  | suspendRun | fail | failRollback | sweep | expireLeaseNow | getCheckpoints | setCheckpoint
  | emitEvent | awaitEvent | awaitTaskDone | getTaskResult | nextWakeAtEpochMs | driverHeartbeat
  | cancelTask | retryTask
  deriving DecidableEq, Repr

def PortMethod.text : PortMethod → String
  | spawn => "spawn"
  | claim => "claim"
  | activate => "activate"
  | claimedTaskName => "claimedTaskName"
  | deferLaunch => "deferLaunch"
  | heartbeat => "heartbeat"
  | reschedule => "reschedule"
  | complete => "complete"
  | suspendRun => "suspendRun"
  | fail => "fail"
  | failRollback => "failRollback"
  | sweep => "sweep"
  | expireLeaseNow => "expireLeaseNow"
  | getCheckpoints => "getCheckpoints"
  | setCheckpoint => "setCheckpoint"
  | emitEvent => "emitEvent"
  | awaitEvent => "awaitEvent"
  | awaitTaskDone => "awaitTaskDone"
  | getTaskResult => "getTaskResult"
  | nextWakeAtEpochMs => "nextWakeAtEpochMs"
  | driverHeartbeat => "driverHeartbeat"
  | cancelTask => "cancelTask"
  | retryTask => "retryTask"

/-- The members of a spawn's `childOf`. -/
def CHILD_MEMBERS : List (String × NamedStrings) := [
  ("parentQueue", .string .parentQueue),
  ("parentTaskId", .string .parentTaskId),
  ("runId", .string .parentRunId),
  ("claimToken", .string .parentClaimToken),
  ("replayKey", .string .replayKey)]

/-- The members of a spawn's options. -/
def SPAWN_MEMBERS : List (String × NamedStrings) := [
  ("idempotencyKey", .leftOut (.string .idempotencyKey)),
  ("childOf", .leftOut (.object CHILD_MEMBERS)),
  ("headers", .leftOut (.string .headers))]

/-- `PORT_STRINGS`: for every method, its arguments in order. -/
def PORT_STRINGS : PortMethod → List NamedStrings
  | .spawn => [.string .queue, .string .taskName, .string .paramsJson,
      .leftOut (.object SPAWN_MEMBERS)]
  | .claim => [.string .queue, .string .claimToken, .nothing]
  | .activate => [.string .queue, .string .runId, .string .claimToken, .nothing]
  | .claimedTaskName => [.string .queue, .string .runId, .string .claimToken, .nothing]
  | .deferLaunch => [.string .queue, .string .runId, .string .claimToken, .nothing, .nothing]
  | .heartbeat => [.string .queue, .string .runId, .string .claimToken, .nothing]
  | .reschedule => [.string .queue, .string .runId, .string .claimToken, .nothing]
  | .complete => [.string .queue, .string .runId, .string .claimToken, .string .resultJson]
  | .suspendRun => [.string .queue, .string .runId, .string .claimToken, .nothing,
      .object [("key", .string .checkpointKey), ("stateJson", .string .checkpointStateJson)]]
  | .fail => [.string .queue, .string .runId, .string .claimToken, .string .failureJson, .nothing]
  | .failRollback => [.string .queue, .string .runId, .string .claimToken, .string .failureJson,
      .nothing,
      .object [("stepKey", .string .rollbackStepKey), ("errorJson", .string .rollbackErrorJson)]]
  | .sweep => [.string .queue, .nothing]
  | .expireLeaseNow => [.string .queue, .string .runId, .string .claimToken]
  | .getCheckpoints => [.string .queue, .string .taskId, .nothing]
  | .setCheckpoint => [.string .queue, .string .taskId, .string .runId, .string .claimToken,
      .string .checkpointName, .string .stateJson, .nothing]
  | .emitEvent => [.string .queue, .string .eventName, .string .payloadJson]
  | .awaitEvent => [.string .queue, .string .taskId, .string .runId, .string .claimToken,
      .string .stepName, .string .eventName, .nothing]
  | .awaitTaskDone => [.string .queue, .string .taskId, .string .runId, .string .claimToken,
      .string .stepName, .string .childTaskId, .nothing]
  | .getTaskResult => [.string .queue, .string .taskId]
  | .nextWakeAtEpochMs => [.string .queue]
  | .driverHeartbeat => [.string .queue, .string .driverId, .nothing]
  | .cancelTask => [.string .queue, .string .taskId, .nothing]
  | .retryTask => [.string .queue, .string .taskId]

/-! ## The check -/

/-- `requireDurableString`, or the text of the refusal. -/
def requireDurableString (what : String) (raw : Str) : Except Str Unit :=
  if storageStringRoundTrips raw then .ok ()
  else .error (units what ++ units " must be a string without NUL or lone UTF-16 surrogates")

/-- `requirePortString`, or the text of the refusal. -/
def requirePortString (name : PortStringName) (value : PortValue) : Except Str Unit :=
  if PORT_STRING_RULES name = .map then .ok ()
  else match value with
    | .string raw =>
      match PORT_STRING_RULES name with
      | .identifier => do
        requireDurableString name.text raw
        requireIdentifiersFit (units name.text) raw
      | .durable => requireDurableString name.text raw
      | .payload | .map => .ok ()
    | .undefined => .error (units (name.text ++ " was left out, and the port requires it"))
    | .null | .boolean _ | .array | .object _ | .other =>
      .error (units (name.text ++ " must be a string"))

mutual

/-- `requireNamed`. `place` is the place in the call, as a refusal shows it. -/
def requireNamed : NamedStrings → PortValue → String → Except Str Unit
  | .nothing, _, _ => .ok ()
  | .leftOut named, value, place =>
    if value.LeftOut then .ok () else requireNamed named value place
  | .string name, value, _ => requirePortString name value
  | .object members, value, place =>
    match value.members with
    | none => .error (units (place ++ " must be an object"))
    | some member => requireMembers members member place

def requireMembers : List (String × NamedStrings) → (String → PortValue) → String →
    Except Str Unit
  | [], _, _ => .ok ()
  | (property, named) :: rest, member, place => do
    requireNamed named (member property) (place ++ "." ++ property)
    requireMembers rest member place

end

/-- `requireArguments`, from an index on. -/
def requireArguments (method : PortMethod) : ℕ → List NamedStrings → List PortValue →
    Except Str Unit
  | _, [], _ => .ok ()
  | index, named :: rest, args => do
    requireNamed named (args.headD .undefined) (s!"{method.text}[{index}]")
    requireArguments method (index + 1) rest args.tail

/-- `requireSwitches`, of the one switch of `cancelTask`. -/
def requireSwitches (value : PortValue) : Except Str Unit :=
  match value.members with
  | none => .error (units "cancelTask[2] must be an object")
  | some member =>
    match member "unlessSagaBegan" with
    | .undefined | .boolean _ => .ok ()
    | .null | .string _ | .array | .object _ | .other =>
      .error (units "cancelTask[2].unlessSagaBegan must be a boolean")

/-- `requirePortStrings`: the one check of the strings a port call carries. -/
def requirePortStrings (method : PortMethod) (args : List PortValue) : Except Str Unit := do
  requireArguments method 0 (PORT_STRINGS method) args
  if method = .cancelTask then requireSwitches (args.getD 2 .undefined)

/-! ## Derived names -/

def SAGA_STARTED : Str := units "$started:"
def SAGA_ROLLBACK : Str := units "$rollback:"
def SAGA_TRIES : Str := units "$rollback-tries:"

/-- `requireSagaStepFits`: a start marker is held to the key the longest saga name allows. -/
def requireSagaStepFits (what : String) (name : Str) : Except Str Unit :=
  if ¬ startsWith name SAGA_STARTED then .ok ()
  else if fitsCharacters name (SAGA_STARTED.length + SAGA_STEP_KEY_CHARACTERS) then .ok ()
  else .error (units (what ++ " starts a saga step whose key is longer than 239 characters: a " ++
    "durable identifier holds 255, and '$rollback-tries:' and the key must fit"))

/-- `rollbackTriesName`, over UTF-16 units. -/
def rollbackTriesUnits (stepKey : Str) : Str := SAGA_TRIES ++ stepKey

/-- `requireFailedRollback`, or the text of the refusal: the step whose rollback failed, and the
failure of that attempt. -/
def requireFailedRollback (value : PortValue) : Except Str (Str × Str) :=
  match value with
  | .object member =>
    match member "stepKey", member "errorJson" with
    | .string stepKey, .string errorJson => do
      requireIdentifiersFit (units ("rollback.stepKey, as the attempt record's name, which also holds " ++
        "its reserved prefix,")) (rollbackTriesUnits stepKey)
      return (stepKey, errorJson)
    | _, _ => .error refused
  | _ => .error refused
where
  refused : Str := units ("failRollback takes the failed rollback as \x7b stepKey, errorJson \x7d: " ++
    "the step whose rollback failed, and the failure of that attempt. The store names the attempt " ++
    "record and counts the attempt itself, so a record handed over as \x7b key, stateJson \x7d is " ++
    "refused")

/-- `taskDoneEventName`, over UTF-16 units. -/
def taskDoneUnits (childTaskId : Str) : Str := units "$task-done:" ++ childTaskId

/-- `EventName.awaitedTaskDone`: the name of the child's completion event. -/
def awaitedTaskDone (childTaskId : Str) : Except Str Str := do
  requireIdentifiersFit (units "childTaskId") childTaskId
  requireIdentifiersFit (units "childTaskId, as the name of its completion event,")
    (taskDoneUnits childTaskId)
  return taskDoneUnits childTaskId

end Durablerun
