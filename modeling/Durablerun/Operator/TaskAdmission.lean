import Durablerun.Sql.StoredFragments
import Durablerun.Store.Endings

/-!
# What an operator is told of a task

`task-admission` answers what the engine's guards say of a task now: each conjunct of the retry guard
as a value of its own, whether the sweep would cancel the task, and for each run that names it whether
a claim would take it. Beside the reads stand the statements they speak of, each over the same tables.

A conjunct that computes with counters is asked only where the counters are in range, in the guard and
in the read of it.

Reference: `packages/core/src/statements/operator.ts` and
`packages/core/src/statements/retry-task.ts`.
-/

namespace Durablerun.Stored.TaskAdmission

open ThreeValued

variable (f : Functions) (db : Db) (now : ℤ)

/-! ## The retry guard -/

/-- The conjuncts of the retry guard a store writes. -/
inductive RetryConjunct where
  | ownsEveryRun
  | hasAFailureReason
  | hasNoCompletedPayload
  | hasARun
  | hasNoLiveRun
  | attemptsInRange
  | infraRetriesInRange
  | everyRunOrdinalInRange
  | budgetTakesOneMore
  | chargeIsTheAttemptsOrOneMore
  | sagaNotBegun
  | chargeWithinBudget
  deriving DecidableEq, Repr

/-- `RETRY_CONJUNCTS`, in the guard's order. -/
def RETRY_CONJUNCTS : List RetryConjunct :=
  [.ownsEveryRun, .hasAFailureReason, .hasNoCompletedPayload, .hasARun, .hasNoLiveRun,
    .attemptsInRange, .infraRetriesInRange, .everyRunOrdinalInRange, .budgetTakesOneMore,
    .chargeIsTheAttemptsOrOneMore, .sagaNotBegun, .chargeWithinBudget]

/-- A conjunct of the whole guard: the one the statement holds itself, and the store's. -/
inductive RetryGuardConjunct where
  | failed
  | held (conjunct : RetryConjunct)
  deriving DecidableEq, Repr

/-- `RETRY_CONJUNCT_COMPUTES_WITH`. -/
def RETRY_CONJUNCT_COMPUTES_WITH : RetryConjunct → List RetryConjunct
  | .chargeIsTheAttemptsOrOneMore =>
    [.attemptsInRange, .infraRetriesInRange, .everyRunOrdinalInRange]
  | .chargeWithinBudget => [.infraRetriesInRange, .everyRunOrdinalInRange]
  | _ => []

/-- `RETRY_ADMITS`, over a row of `tasks`. -/
def RETRY_ADMITS (t : Task) : RetryConjunct → Truth
  | .ownsEveryRun => taskOwnsEveryRun db t
  | .hasAFailureReason => t.failureReason.isNull.not
  | .hasNoCompletedPayload => t.completedPayload.isNull
  | .hasARun => exists' db.runs fun r => runOwnedByTask r t
  | .hasNoLiveRun => noLiveRunOf db t
  | .attemptsInRange => storedIntegerWithin attemptsBounds t.attempts
  | .infraRetriesInRange => storedIntegerWithin infraRetriesBounds t.infraRetries
  | .everyRunOrdinalInRange =>
    (exists' db.runs fun r =>
      (runOwnedByTask r t).and (storedIntegerWithin attemptBounds r.attempt).not).not
  | .budgetTakesOneMore => storedIncrementableInteger maxAttemptsBounds t.maxAttempts
  | .chargeIsTheAttemptsOrOneMore => (f.minus (retryCharged f db t) t.attempts).isIn [0, 1]
  | .sagaNotBegun => (sagaBegan db t).not
  | .chargeWithinBudget => (retryCharged f db t).le t.maxAttempts

open Expr in
/-- A conjunct as `retryAdmission` holds it. -/
def heldConjunct (name : RetryConjunct) : Expr RetryConjunct .condition :=
  match RETRY_CONJUNCT_COMPUTES_WITH name with
  | [] => atom name
  | under => equals (caseWhen (conjunction (under.map atom)) (flag (atom name)) (literal 0)) 1

/-- `retryAdmission`. -/
def retryAdmission : Expr RetryConjunct .condition :=
  Expr.conjunction (RETRY_CONJUNCTS.map heldConjunct)

open Expr in
/-- `askedFlagOf`. -/
def askedFlagOf (name : RetryConjunct) : Expr RetryConjunct .number :=
  match RETRY_CONJUNCT_COMPUTES_WITH name with
  | [] => flag (atom name)
  | under => caseWhen (conjunction (under.map atom)) (flag (atom name)) (literal 2)

/-- `flagOf`. -/
def flagOf (predicate : Truth) : ℤ := if predicate = .yes then 1 else 0

/-! ## Statements -/

/-- An `UPDATE` of one table. -/
structure Update (ρ : Type) where
  condition : ρ → Truth
  set : ρ → ρ

namespace Update

variable {ρ : Type} (u : Update ρ) (rows : List ρ)

/-- The table the statement leaves. -/
def run : List ρ := rows.map fun row => if u.condition row = .yes then u.set row else row

/-- The statement affects this row. -/
def Takes (row : ρ) : Prop := u.condition row = .yes

/-- The statement affects a row, which is how a compare-and-set wins. -/
def Wins : Prop := ∃ row ∈ rows, u.Takes row

end Update

/-- `reviveCas`, as `retryTask` sends it. -/
def reviveCas (queue taskId runId : String) (stamp : Value) : Update Task where
  condition t := .all [t.taskId.eq (.text taskId), t.queue.eq (.text queue),
    t.state.eq (.text "failed"), retryAdmission.value (RETRY_ADMITS f db t)]
  set t :=
    { t with
      state := .text "pending"
      attempts := retryCharged f db t
      maxAttempts := f.plus t.maxAttempts 1
      failureReason := .null
      lastAttemptRun := .text runId
      fenceStamp := stamp
      fenceAtMs := .integer now }

/-- `cancelCas`. -/
def cancelCas (queue taskId : String) (stamp : Value) (admission : Task → Truth)
    (sagaNotBegun : Option (Task → Truth)) : Update Task where
  condition t := .all ([t.taskId.eq (.text taskId), t.queue.eq (.text queue), t.state.isIn LIVE,
    admission t] ++ sagaNotBegun.toList.map (· t))
  set t :=
    { t with
      state := .text "cancelled"
      cancelledAtMs := .integer now
      cancelAtMs := .null
      failureReason := .text REASON_CANCELLED
      fenceStamp := stamp
      fenceAtMs := .integer now }

/-- The compare-and-set of `cancelTransition`. -/
def cancelTransition (queue taskId : String) (stamp : Value) (deadlineOnly unlessSagaBegan : Bool) :
    Update Task :=
  cancelCas now queue taskId stamp
    (fun t => if deadlineOnly then (cancelDue now t).and (taskOwnsEveryRun db t)
      else taskOwnsEveryRun db t)
    (if unlessSagaBegan then some fun t => RETRY_ADMITS f db t .sagaNotBegun else none)

/-- The order a claim takes its candidates in. -/
def claimOrder (a b : Run) : Prop :=
  toLex (a.availableAtMs.place, a.runId.place) ≤ toLex (b.availableAtMs.place, b.runId.place)

instance : DecidableRel claimOrder := fun _ _ => inferInstanceAs (Decidable (_ ≤ _))

/-- The runs of one state a claim may take, each joined to its task. -/
def claimCandidates (queue state : String) : List Run :=
  (select (db.runs.flatMap fun r => (select db.tasks (runOwnedByTask r)).map fun t => (r, t))
    fun p => .all [p.1.queue.eq (.text queue), p.1.state.eq (.text state), runAvailableDue now p.1,
      claimEligibility f db now p.1 p.2]).map Prod.fst

/-- A leg of the candidates: the first of them, up to the limit. -/
def claimLeg (queue state : String) (limit : ℕ) : List Run :=
  ((claimCandidates f db now queue state).insertionSort claimOrder).take limit

/-- `candidateRunIds`. -/
def candidateRunIds (queue : String) (limit : ℕ) : List Value :=
  (((claimLeg f db now queue "pending" limit ++
    claimLeg f db now queue "sleeping" limit).insertionSort claimOrder).take limit).map Run.runId

/-- A run of the queue is held under the token. -/
def held (queue claimToken : String) : Truth :=
  exists' db.runs fun held => .all [held.queue.eq (.text queue), held.state.eq (.text "running"),
    held.claimedBy.eq (.text claimToken)]

/-- `claimCas`, as `claim` sends it. -/
def claimCas (queue claimToken : String) (leaseMs : ℤ) (limit : ℕ) (stamp : Value) : Update Run where
  condition r := .all [r.runId.isIn (candidateRunIds f db now queue limit),
    (held db queue claimToken).not, epochAdditionFits f (.integer now) (.integer leaseMs)]
  set r :=
    { r with
      state := .text "running"
      claimedBy := .text claimToken
      claimGen := f.plus r.claimGen 1
      leaseMs := .integer leaseMs
      claimExpiresAtMs := f.plus (.integer now) (.integer leaseMs)
      heartbeatAtMs := .integer now
      wakeStep := if r.wakeStep = .null then registeredStep db r else r.wakeStep
      fenceStamp := stamp
      fenceAtMs := .integer now }

/-! ## Reads -/

/-- The values of the retry read, over a row of `tasks`. -/
def retryValues (t : Task) : RetryGuardConjunct → ℤ
  | .failed => flagOf (t.state.eq (.text "failed"))
  | .held name => (askedFlagOf name).value (RETRY_ADMITS f db t)

/-- `taskAdmissionRetryRead`: the one task of the queue, each conjunct a value. -/
def taskAdmissionRetryRead (queue taskId : String) : List (RetryGuardConjunct → ℤ) :=
  (select db.tasks fun t => (t.taskId.eq (.text taskId)).and (t.queue.eq (.text queue))).map
    (retryValues f db)

/-- A row of `taskAdmissionSweepRead`. -/
structure SweepFlags where
  state : Value
  cancelAtMs : Value
  sweepCancels : ℤ

/-- `taskAdmissionSweepRead`. -/
def taskAdmissionSweepRead (queue taskId : String) : List SweepFlags :=
  (select db.tasks fun t => (t.taskId.eq (.text taskId)).and (t.queue.eq (.text queue))).map fun t =>
    ⟨t.state, t.cancelAtMs, flagOf (sweepCancelsDue db now queue t)⟩

/-- A row of `taskAdmissionRunsRead`. -/
structure RunFlags where
  runId : Value
  state : Value
  claimGen : Value
  availableAtMs : Value
  claimExpiresAtMs : Value
  claimTakesPending : ℤ
  claimTakesSleeping : ℤ
  sweepReclaims : ℤ

/-- The tasks an outer join finds for a run. -/
def leftJoined (r : Run) : List Task :=
  match select db.tasks (runOwnedByTask r) with
  | [] => [Task.absent]
  | ts => ts

/-- The flags of a run beside the task it is joined to. -/
def runFlags (queue : String) (r : Run) (t : Task) : RunFlags where
  runId := r.runId
  state := r.state
  claimGen := r.claimGen
  availableAtMs := r.availableAtMs
  claimExpiresAtMs := r.claimExpiresAtMs
  claimTakesPending := flagOf (claimOwed f db now queue "pending" r t)
  claimTakesSleeping := flagOf (claimOwed f db now queue "sleeping" r t)
  sweepReclaims := flagOf (sweepClaimsExpired f db now queue r t)

/-- `taskAdmissionRunsRead`: every run that names the task. -/
def taskAdmissionRunsRead (queue taskId : String) : List RunFlags :=
  (select db.runs fun r => r.taskId.eq (.text taskId)).flatMap fun r =>
    (leftJoined db r).map (runFlags f db now queue r)

/-- `taskAdmission`'s `claimTakes`: a claim takes a run of either state, by that state's predicate. -/
def RunFlags.claimTakes (row : RunFlags) : Bool :=
  decide (row.claimTakesPending = 1) || decide (row.claimTakesSleeping = 1)

end Durablerun.Stored.TaskAdmission
