import Durablerun.Core.ChildTasks
import Durablerun.Lib.JsText
import Durablerun.Store.Schema

/-!
# Task outcomes as texts

A completion event carries its task's outcome as JSON. The encoder writes the state and the fields that
are there; the decoder reads these of whatever object the text holds, and holds them to the rule a task
row is held to. A build that predates a field so reads what a newer one wrote.

Reference: `packages/core/src/child-tasks.ts` and `packages/core/src/task-result.ts`.
-/

namespace Durablerun

/-! ## What contradicts a state -/

/-- A way a task's outcome can contradict its state. -/
inductive TaskResultContradiction where
  | completedWithoutPayload | payloadOnOtherState | failureWithoutReason | reasonOnOtherState
  deriving DecidableEq

/-- `CONTRADICTION_DETAIL`. -/
def TaskResultContradiction.detail : TaskResultContradiction → String
  | .completedWithoutPayload => "has no completed payload"
  | .payloadOnOtherState => "carries a completed payload"
  | .failureWithoutReason => "has no failure reason"
  | .reasonOnOtherState => "carries a failure reason"

/-- The states whose tasks carry a failure reason. -/
def TaskState.Reasoned (state : TaskState) : Prop := state = .failed ∨ state = .cancelled
deriving Decidable

/-- `contradictionsOf`: every rule a state's payload and reason break, in a fixed order. -/
def contradictionsOf {α : Type} (state : TaskState) (completedPayloadJson failureReasonJson : Option α) :
    List TaskResultContradiction :=
  (if state = .completed ∧ completedPayloadJson.isNone then [.completedWithoutPayload] else []) ++
  (if state ≠ .completed ∧ completedPayloadJson.isSome then [.payloadOnOtherState] else []) ++
  (if state.Reasoned ∧ failureReasonJson.isNone then [.failureWithoutReason] else []) ++
  (if ¬ state.Reasoned ∧ failureReasonJson.isSome then [.reasonOnOtherState] else [])

/-- How a saga ended: with every step that started compensated, or with one left. -/
inductive SagaOutcome where
  | complete | failed
  deriving DecidableEq

end Durablerun

namespace Durablerun.ChildTasks

open Js

/-! ## Encoding and decoding -/

inductive TerminalState where
  | completed | failed | cancelled
  deriving DecidableEq

def TerminalState.taskState : TerminalState → TaskState
  | .completed => .completed
  | .failed => .failed
  | .cancelled => .cancelled

def TerminalState.name (state : TerminalState) : Str := units state.taskState.name

/-- `isTerminalState`: the state a value names. -/
def terminalState : Option Value → Option TerminalState
  | some (.string name) =>
    [TerminalState.completed, .failed, .cancelled].find? fun state => state.name = name
  | _ => none

structure RollbackOutcome where
  outcome : SagaOutcome
  errorJson : Option Str
  deriving DecidableEq

/-- `TaskOutcome`: a task's result, narrowed to a terminal state. -/
structure TaskOutcome where
  state : TerminalState
  completedPayloadJson : Option Str
  failureReasonJson : Option Str
  rollback : Option RollbackOutcome
  deriving DecidableEq

/-- A thrown `RangeError`. -/
structure RangeError where
  message : Str
  deriving DecidableEq

/-- `stringifyJson`. -/
def stringifyJson (value : Value) : Except RangeError Str :=
  if IsString value.text then .ok value.text else .error ⟨units "Invalid string length"⟩

/-- The fields `OUTCOME_FIELDS` names that are there, in order. -/
def outcomeFields (outcome : TaskOutcome) : List (Str × Value) :=
  (outcome.completedPayloadJson.map fun value => (units "completedPayloadJson", .string value)).toList ++
    (outcome.failureReasonJson.map fun value => (units "failureReasonJson", .string value)).toList

/-- The object that is written for an outcome. -/
def ordered (outcome : TaskOutcome) : Value :=
  .object ((units "state", .string outcome.state.name) :: outcomeFields outcome)

/-- `encodeTaskOutcome`. -/
def encodeTaskOutcome (outcome : TaskOutcome) : Except RangeError Str :=
  stringifyJson (ordered outcome)

/-- The rules an outcome breaks. -/
def TaskOutcome.contradictions (result : TaskOutcome) : List TaskResultContradiction :=
  contradictionsOf result.state.taskState result.completedPayloadJson result.failureReasonJson

/-- A refusal of a task's completion event. -/
def refusal (taskId what : Str) : RangeError :=
  ⟨units "task " ++ taskId ++ units " has a completion event " ++ what⟩

/-- The value is an object to JavaScript: an object, or an array. -/
def isObject : Value → Prop
  | .object _ | .array _ => True
  | _ => False

instance : DecidablePred isObject := fun v => by
  cases v <;> unfold isObject <;> infer_instance

/-- A field of `OUTCOME_FIELDS`: text, or not there. -/
def outcomeField (taskId : Str) (fields : Value) (name : Str) : Except RangeError (Option Str) :=
  match fields.member name with
  | none => .ok none
  | some (.string value) => .ok (some value)
  | some _ => .error (refusal taskId (units "whose " ++ name ++ units " is not text"))

/-- `decodeTaskOutcome`. -/
def decodeTaskOutcome (taskId payloadJson : Str) : Except RangeError TaskOutcome := do
  let some fields := parse payloadJson
    | .error (refusal taskId (units "that is not JSON"))
  if ¬ isObject fields then
    .error (refusal taskId (units "that is not an object"))
  let some state := terminalState (fields.member (units "state"))
    | .error (refusal taskId (units "with no terminal state"))
  let completedPayloadJson ← outcomeField taskId fields (units "completedPayloadJson")
  let failureReasonJson ← outcomeField taskId fields (units "failureReasonJson")
  let result : TaskOutcome := ⟨state, completedPayloadJson, failureReasonJson, none⟩
  match result.contradictions with
  | [] => return result
  | first :: _ =>
    .error (refusal taskId
      (units "that says it is " ++ state.name ++ units " but " ++ units first.detail))

/-! ## What the decoder accepts -/

/-- A completed outcome carries its payload, a failed or cancelled one its reason, and neither the
other's. -/
structure TaskOutcome.Agrees (outcome : TaskOutcome) : Prop where
  payload : outcome.completedPayloadJson.isSome ↔ outcome.state = .completed
  reason : outcome.failureReasonJson.isSome ↔ outcome.state ≠ .completed

/-- An outcome contradicts nothing where its fields agree with its state. -/
theorem contradictions_eq_nil (outcome : TaskOutcome) :
    outcome.contradictions = [] ↔ outcome.Agrees := by
  obtain ⟨state, payload, reason, rollback⟩ := outcome
  have hsplit : ∀ o : TaskOutcome, o.Agrees ↔ (o.completedPayloadJson.isSome ↔ o.state = .completed) ∧
      (o.failureReasonJson.isSome ↔ o.state ≠ .completed) := fun o => ⟨fun h => ⟨h.1, h.2⟩,
    fun h => ⟨h.1, h.2⟩⟩
  rw [hsplit]
  cases state <;> cases payload <;> cases reason <;>
    simp [TaskOutcome.contradictions, contradictionsOf, TerminalState.taskState, TaskState.Reasoned]

/-- A terminal state is read from the text of its name, and from nothing else. -/
theorem terminalState_eq_some {value : Option Value} {state : TerminalState} :
    terminalState value = some state ↔ value = some (.string state.name) := by
  constructor
  · intro h
    unfold terminalState at h
    split at h
    · next name =>
      have hname := List.find?_some h
      rw [of_decide_eq_true hname]
    · cases h
  · rintro rfl
    cases state <;> decide

/-- The text of a field that is there. -/
def textOf (value : Option Str) : Option Value := value.map Value.string

/-- A field of an outcome is read where it is a text or absent. -/
theorem outcomeField_eq_ok {taskId : Str} {fields : Value} {name : Str} {value : Option Str} :
    outcomeField taskId fields name = .ok value ↔ fields.member name = textOf value := by
  unfold outcomeField textOf
  constructor
  · intro h
    split at h
    · next hnone =>
      cases h
      exact hnone
    · next hsome =>
      cases h
      exact hsome
    · cases h
  · intro h
    rw [h]
    cases value <;> rfl

/-- The value holds an outcome: the terminal state, and the fields that are there, as texts. -/
structure Holds (fields : Value) (outcome : TaskOutcome) : Prop where
  state : fields.member (units "state") = some (.string outcome.state.name)
  payload : fields.member (units "completedPayloadJson") = textOf outcome.completedPayloadJson
  reason : fields.member (units "failureReasonJson") = textOf outcome.failureReasonJson

/-- Only an object has members. -/
theorem Holds.isObject {fields : Value} {outcome : TaskOutcome} (h : Holds fields outcome) :
    isObject fields := by
  have hstate := h.state
  cases fields with
  | object => trivial
  | array => trivial
  | _ => cases hstate

/-- The text is JSON of an outcome that agrees with its state. -/
structure Carries (text : Str) (outcome : TaskOutcome) : Prop where
  held : ∃ fields, parse text = some fields ∧ Holds fields outcome
  agrees : outcome.Agrees
  bare : outcome.rollback = none

/-- What the decoder answers of a value's state and fields. -/
theorem decodeTaskOutcome_of_fields {taskId text : Str} {fields : Value} {outcome : TaskOutcome}
    (hparse : parse text = some fields) (hheld : Holds fields outcome) :
    decodeTaskOutcome taskId text =
      match ({ outcome with rollback := none } : TaskOutcome).contradictions with
      | [] => .ok { outcome with rollback := none }
      | first :: _ => .error (refusal taskId (units "that says it is " ++ outcome.state.name ++
          units " but " ++ units first.detail)) := by
  have hobject : ¬ ¬ isObject fields := not_not_intro hheld.isObject
  simp only [decodeTaskOutcome, hparse, if_neg hobject, terminalState_eq_some.mpr hheld.state]
  show (outcomeField taskId fields _ >>= fun _ => _) = _
  rw [outcomeField_eq_ok.mpr hheld.payload]
  show (outcomeField taskId fields _ >>= fun _ => _) = _
  rw [outcomeField_eq_ok.mpr hheld.reason]
  rfl

/-- A text it accepts is JSON of a value that holds an outcome. -/
theorem held_of_decodeTaskOutcome {taskId text : Str} {result : TaskOutcome}
    (h : decodeTaskOutcome taskId text = .ok result) :
    ∃ fields outcome, parse text = some fields ∧ Holds fields outcome := by
  unfold decodeTaskOutcome at h
  cases hparse : parse text with
  | none =>
    rw [hparse] at h
    cases h
  | some fields =>
    simp only [hparse] at h
    by_cases hobject : isObject fields
    swap
    · rw [if_pos hobject] at h
      cases h
    rw [if_neg (not_not_intro hobject)] at h
    cases hstate : terminalState (fields.member (units "state")) with
    | none =>
      simp only [hstate] at h
      cases h
    | some state =>
      simp only [hstate] at h
      cases hpayload : outcomeField taskId fields (units "completedPayloadJson") with
      | error e =>
        rw [hpayload] at h
        cases h
      | ok payload =>
        cases hreason : outcomeField taskId fields (units "failureReasonJson") with
        | error e =>
          rw [hpayload, hreason] at h
          cases h
        | ok reason =>
          exact ⟨fields, ⟨state, payload, reason, none⟩, rfl, terminalState_eq_some.mp hstate,
            outcomeField_eq_ok.mp hpayload, outcomeField_eq_ok.mp hreason⟩

/-- The decoder accepts the texts that carry an outcome, and answers it. -/
theorem decodeTaskOutcome_eq_ok {taskId text : Str} {outcome : TaskOutcome} :
    decodeTaskOutcome taskId text = .ok outcome ↔ Carries text outcome := by
  constructor
  · intro h
    obtain ⟨fields, held, hparse, hheld⟩ := held_of_decodeTaskOutcome h
    rw [decodeTaskOutcome_of_fields hparse hheld] at h
    cases hnil : ({ held with rollback := none } : TaskOutcome).contradictions with
    | nil =>
      rw [hnil] at h
      obtain rfl : { held with rollback := none } = outcome := Except.ok.inj h
      exact ⟨⟨fields, hparse, hheld.state, hheld.payload, hheld.reason⟩,
        (contradictions_eq_nil _).mp hnil, rfl⟩
    | cons first rest =>
      rw [hnil] at h
      cases h
  · rintro ⟨⟨fields, hparse, hheld⟩, hagrees, hbare⟩
    obtain ⟨state, payload, reason, rollback⟩ := outcome
    obtain rfl : rollback = none := hbare
    rw [decodeTaskOutcome_of_fields hparse hheld, (contradictions_eq_nil _).mpr hagrees]

/-! ## What the encoder writes -/

/-- The object that is written for an outcome holds it. -/
theorem holds_ordered (outcome : TaskOutcome) : Holds (ordered outcome) outcome := by
  obtain ⟨state, payload, reason, rollback⟩ := outcome
  have hpayload : units "state" ≠ units "completedPayloadJson" := by decide
  have hreason : units "state" ≠ units "failureReasonJson" := by decide
  have hfields : units "completedPayloadJson" ≠ units "failureReasonJson" := by decide
  refine ⟨?_, ?_, ?_⟩
  all_goals
    cases payload <;> cases reason <;>
      simp [ordered, outcomeFields, Value.member, textOf, hpayload, hreason, hfields, hpayload.symm,
        hreason.symm, hfields.symm]

/-- It holds texts only. -/
theorem ordered_written (outcome : TaskOutcome) : (ordered outcome).Written := by
  obtain ⟨state, payload, reason, rollback⟩ := outcome
  refine .object fun m hm => ?_
  cases payload <;> cases reason <;> simp [outcomeFields] at hm
  all_goals rcases hm with rfl | rfl | rfl <;> exact .string _

/-- The text of an outcome holds it. -/
theorem holds_of_encodeTaskOutcome {outcome : TaskOutcome} {text : Str}
    (h : encodeTaskOutcome outcome = .ok text) :
    ∃ fields, parse text = some fields ∧ Holds fields outcome := by
  simp only [encodeTaskOutcome, stringifyJson] at h
  split at h
  · obtain rfl := Except.ok.inj h
    exact ⟨_, (ordered_written outcome).parse_text, holds_ordered outcome⟩
  · cases h

/-! ## Round trips -/

/-- An outcome that agrees with its state is answered from its text, without its rollback. -/
theorem decodeTaskOutcome_encode {taskId text : Str} {outcome : TaskOutcome}
    (h : encodeTaskOutcome outcome = .ok text) (hagrees : outcome.Agrees) :
    decodeTaskOutcome taskId text = .ok { outcome with rollback := none } := by
  obtain ⟨fields, hparse, hheld⟩ := holds_of_encodeTaskOutcome h
  exact decodeTaskOutcome_eq_ok.mpr ⟨⟨fields, hparse, hheld.state, hheld.payload, hheld.reason⟩,
    ⟨hagrees.payload, hagrees.reason⟩, rfl⟩

/-- One that contradicts it is refused. -/
theorem decodeTaskOutcome_contradiction {taskId text : Str} {outcome : TaskOutcome}
    (h : encodeTaskOutcome outcome = .ok text) (hagrees : ¬ outcome.Agrees) :
    ∃ error, decodeTaskOutcome taskId text = .error error := by
  obtain ⟨fields, hparse, hheld⟩ := holds_of_encodeTaskOutcome h
  rw [decodeTaskOutcome_of_fields hparse hheld]
  cases hfound : ({ outcome with rollback := none } : TaskOutcome).contradictions with
  | nil =>
    have hbare := (contradictions_eq_nil _).mp hfound
    exact absurd ⟨hbare.payload, hbare.reason⟩ hagrees
  | cons first rest => exact ⟨_, rfl⟩

/-- The decoder answers what the encoder was given, without its rollback, where the fields agree with
the state, and refuses it elsewhere. The texts it accepts are those that carry an outcome, and what it
answers of one it answers of that outcome's own text. -/
theorem decodeTaskOutcome_round_trip (taskId : Str) :
    (∀ (outcome : TaskOutcome) (text : Str), encodeTaskOutcome outcome = .ok text →
      (outcome.Agrees →
        decodeTaskOutcome taskId text = .ok { outcome with rollback := none }) ∧
      (¬ outcome.Agrees → ∃ error, decodeTaskOutcome taskId text = .error error)) ∧
    (∀ (text : Str) (outcome : TaskOutcome),
      decodeTaskOutcome taskId text = .ok outcome ↔ Carries text outcome) ∧
    (∀ (text : Str) (outcome : TaskOutcome) (written : Str),
      decodeTaskOutcome taskId text = .ok outcome → encodeTaskOutcome outcome = .ok written →
        decodeTaskOutcome taskId written = .ok outcome) := by
  refine ⟨fun outcome text h => ⟨decodeTaskOutcome_encode h, decodeTaskOutcome_contradiction h⟩,
    fun text outcome => decodeTaskOutcome_eq_ok, fun text outcome written h hwritten => ?_⟩
  obtain ⟨-, hagrees, hbare⟩ := decodeTaskOutcome_eq_ok.mp h
  obtain ⟨state, payload, reason, rollback⟩ := outcome
  obtain rfl : rollback = none := hbare
  exact decodeTaskOutcome_encode hwritten hagrees

/-- A completed outcome, and its text with a field that a later build might add. -/
def completedOne : TaskOutcome := ⟨.completed, some (units "1"), none, none⟩

def widenedOne : Str :=
  units "\x7b\"state\":\"completed\",\"completedPayloadJson\":\"1\",\"later\":1\x7d"

def writtenOne : Str := units "\x7b\"state\":\"completed\",\"completedPayloadJson\":\"1\"\x7d"

/-- A completed outcome, as it is written. -/
theorem encodeTaskOutcome_one : encodeTaskOutcome completedOne = .ok writtenOne := by
  decide +kernel

/-- The completed outcome reads back. -/
theorem decodeTaskOutcome_round_trip_one :
    decodeTaskOutcome (units "t1") writtenOne = .ok completedOne :=
  ((decodeTaskOutcome_round_trip (units "t1")).1 completedOne writtenOne encodeTaskOutcome_one).1
    ⟨by decide, by decide⟩

/-- A wider text is accepted, and is not the text of what it is read as. -/
theorem decodeTaskOutcome_widened :
    ¬ ((∀ (taskId : Str) (outcome : TaskOutcome) (text : Str),
        encodeTaskOutcome outcome = .ok text → decodeTaskOutcome taskId text = .ok outcome) ∧
      ∀ (taskId text : Str) (outcome : TaskOutcome),
        decodeTaskOutcome taskId text = .ok outcome → encodeTaskOutcome outcome = .ok text) := by
  rintro ⟨-, hwritten⟩
  have hread : decodeTaskOutcome (units "t1") widenedOne = .ok completedOne := by
    decide +kernel
  have hsame := hwritten _ _ _ hread
  rw [encodeTaskOutcome_one] at hsame
  exact absurd (Except.ok.inj hsame) (by decide)

end Durablerun.ChildTasks
