import Durablerun.Core.Sagas
import Durablerun.Sql.Stored

/-!
# The store's fragments over any stored values

The predicates the libSQL store writes, each over the rows it names, whatever their columns hold. A
fragment is what its text evaluates to in three values, so a row another store could not hold, or a
task an outer join did not find, has an answer here as it has in SQL.

Reference: `packages/store-libsql/src/fragments.ts` and `packages/store-libsql/src/store.ts`.
-/

namespace Durablerun.Stored

open ThreeValued

variable (f : Functions) (db : Db) (now : ℤ)

/-- `LIVE`. -/
def LIVE : List Value := [.text "pending", .text "running", .text "sleeping"]

/-! ## Stored integers -/

def storedInteger (v : Value) : Truth := .ofBool (decide (v.typeof = "integer"))

def storedBoundedInteger (v : Value) (min max : ℤ) : Truth :=
  (storedInteger v).and (v.between (.integer min) (.integer max))

def storedIntegerWithin (bounds : IntegerBounds) (v : Value) : Truth :=
  storedBoundedInteger v bounds.min bounds.max

def storedIncrementableInteger (bounds : IntegerBounds) (v : Value) : Truth :=
  storedBoundedInteger v bounds.min (bounds.max - 1)

def storedPositiveClaimGeneration (r : Run) : Truth :=
  storedIntegerWithin positiveClaimGenerationBounds r.claimGen

def storedIncrementableClaimGeneration (r : Run) : Truth :=
  storedIncrementableInteger claimGenBounds r.claimGen

/-- `epochAdditionFits`. -/
def epochAdditionFits (base delta : Value) : Truth :=
  .all [storedInteger base, base.between 0 (.integer MAX_EPOCH_MS),
    base.le (f.minus (.integer MAX_EPOCH_MS) delta)]

/-! ## Ownership and states -/

def runOwnedByTask (r : Run) (t : Task) : Truth :=
  (t.taskId.eq r.taskId).and (t.queue.eq r.queue)

def taskOwnsEveryRun (t : Task) : Truth :=
  (exists' db.runs fun ownership =>
    (ownership.taskId.eq t.taskId).and (ownership.queue.ne t.queue)).not

def noLiveRunOf (t : Task) : Truth :=
  (exists' db.runs fun r => (runOwnedByTask r t).and (r.state.isIn LIVE)).not

def soleLiveRun (r : Run) : Truth :=
  (exists' db.runs fun sibling => .all [sibling.taskId.eq r.taskId, sibling.state.isIn LIVE,
    sibling.runId.ne r.runId]).not

def sagaBegan (t : Task) : Truth :=
  exists' db.checkpoints fun sp =>
    (sp.taskId.eq t.taskId).and (sp.checkpointName.eq (.text SAGA_PHASE_CHECKPOINT))

/-! ## Instants -/

def cancelDue (t : Task) : Truth :=
  (storedIntegerWithin epochBounds t.cancelAtMs).and (t.cancelAtMs.le (.integer now))

def cancelNotDue (t : Task) : Truth :=
  t.cancelAtMs.isNull.or
    ((storedIntegerWithin epochBounds t.cancelAtMs).and ((Value.integer now).lt t.cancelAtMs))

def eligibleTask (t : Task) : Truth := (t.state.isIn LIVE).and (cancelNotDue now t)

def runAvailableDue (r : Run) : Truth :=
  (storedIntegerWithin epochBounds r.availableAtMs).and (r.availableAtMs.le (.integer now))

def runClaimExpired (r : Run) : Truth :=
  (storedIntegerWithin epochBounds r.claimExpiresAtMs).and (r.claimExpiresAtMs.le (.integer now))

/-! ## The accounting of a run -/

def storedCurrentRunAccounting (r : Run) (t : Task) : Truth :=
  .all [storedIntegerWithin attemptBounds r.attempt, storedIntegerWithin attemptsBounds t.attempts,
    storedIntegerWithin maxAttemptsBounds t.maxAttempts,
    storedIntegerWithin infraRetriesBounds t.infraRetries, t.attempts.lt t.maxAttempts,
    r.attempt.eq (f.plus (f.plus t.attempts t.infraRetries) 1)]

def storedHighestOwnedOrdinal (r : Run) : Truth :=
  (exists' db.runs fun higher => (higher.taskId.eq r.taskId).and
    ((storedIntegerWithin attemptBounds higher.attempt).not.or (r.attempt.lt higher.attempt))).not

/-- `topOrdinal`. -/
def topOrdinal (t : Task) : Value :=
  maximum ((select db.runs fun r => runOwnedByTask r t).map Run.attempt)

/-- `RETRY_CHARGED`. -/
def retryCharged (t : Task) : Value := f.minus (topOrdinal db t) t.infraRetries

/-! ## Registered waits -/

/-- The witness of `registeredWait`: the wait is the one the run is parked on. -/
def waitWitness (r : Run) (w : Wait) : Truth :=
  .all [w.runId.eq r.runId, w.queue.eq r.queue, w.taskId.eq r.taskId, w.eventName.eq r.wakeEvent,
    w.status.eq (.text "waiting"), w.timeoutAtMs.is r.availableAtMs,
    r.availableAtMs.isNull.or (storedIntegerWithin epochBounds r.availableAtMs),
    w.timeoutAtMs.isNull.or (storedIntegerWithin epochBounds w.timeoutAtMs)]

/-- `registeredWait.step`. The witness fixes the key the rows are grouped by to one value. -/
def registeredStep (r : Run) : Value :=
  match select db.waits (waitWitness r) with
  | [w] => w.stepName
  | _ => .null

/-- `registeredWait.unambiguous`. -/
def waitUnambiguous (r : Run) : Truth :=
  (Truth.ofBool (decide (1 < (select db.waits (waitWitness r)).length))).not

/-- `registeredWait.temporallySafe`. -/
def waitTemporallySafe (r : Run) : Truth :=
  (exists' db.waits fun w => .all [w.runId.eq r.runId, w.status.eq (.text "waiting"),
    w.timeoutAtMs.isNull.not, (storedIntegerWithin epochBounds w.timeoutAtMs).not]).not

/-! ## Stored JSON -/

/-- The `CASE` branches of the two predicates of stored JSON: the first condition that holds decides,
and 1 is what passes. -/
def caseIsOne (branches : List (Truth × Bool)) (otherwise : Bool) : Truth :=
  .ofBool (((branches.find? fun b => decide (b.1 = .yes)).map Prod.snd).getD otherwise)

/-- A key of the object is written twice. -/
def keyTwice (v : Value) : Truth := groupOfSeveral (f.jsonEach v) Member.key

/-- `typeof(v) <> 'text' OR NOT json_valid(v)`. -/
def notJson (v : Value) : Truth :=
  (Truth.ofBool (decide (v.typeof ≠ "text"))).or (f.jsonValid v).not

/-- The largest finite double. -/
def maxDouble : Value := .real (((2 ^ 1024 - 2 ^ 971 : ℚ) : WithTop ℚ) : Real64)

/-- `durableTaskRetryAdmissible`. -/
def durableTaskRetryAdmissible (t : Task) : Truth :=
  let retry := t.retryStrategy
  let kind := f.jsonExtract retry "$.kind"
  let duration (path : String) : Truth :=
    .all [(f.jsonType retry path).isIn [.text "integer", .text "real"],
      (0 : Value).le (f.jsonExtract retry path),
      (f.round (f.multiply (f.jsonExtract retry path) 1000)).between 0 (.integer MAX_DURATION_MS)]
  caseIsOne
    [(notJson f retry, false),
      ((f.jsonType retry "$").ne (.text "object"), false),
      (keyTwice f retry, false),
      ((f.jsonType retry "$.kind").ne (.text "text"), false),
      (kind.eq (.text "none"), true),
      (kind.eq (.text "fixed"), decide (duration "$.baseSeconds" = .yes)),
      (kind.eq (.text "exponential"), decide (Truth.all
        [duration "$.baseSeconds",
          (f.jsonType retry "$.factor").isIn [.text "integer", .text "real"],
          (f.jsonExtract retry "$.factor").between 0 maxDouble,
          duration "$.maxSeconds"] = .yes))]
    false

/-- `durableTaskHeadersAdmissible`. -/
def durableTaskHeadersAdmissible (t : Task) : Truth :=
  caseIsOne
    [(t.headers.isNull, true),
      (notJson f t.headers, false),
      ((f.jsonType t.headers "$").ne (.text "object"), false),
      (keyTwice f t.headers, false),
      (exists' (f.jsonEach t.headers) fun h => .ofBool (decide (h.type ≠ "text")), false)]
    true

/-! ## What a claim and a sweep require -/

/-- `claimEligibility`. -/
def claimEligibility (r : Run) (t : Task) : Truth :=
  .all [eligibleTask now t, durableTaskRetryAdmissible f t, durableTaskHeadersAdmissible f t,
    soleLiveRun db r, r.wakeStep.isNull.not.or (waitUnambiguous db r), waitTemporallySafe db r,
    storedIncrementableClaimGeneration r, storedIntegerWithin activatedGenBounds r.activatedGen,
    r.activatedGen.le r.claimGen, storedIntegerWithin relaunchCountBounds r.relaunchCount,
    storedCurrentRunAccounting f r t, storedHighestOwnedOrdinal db r]

def storedSweepGenerations (r : Run) : Truth :=
  (storedPositiveClaimGeneration r).and (storedIntegerWithin activatedGenBounds r.activatedGen)

def storedSweepCounters (r : Run) : Truth :=
  (storedSweepGenerations r).and (storedIntegerWithin relaunchCountBounds r.relaunchCount)

def sweepLiveOwnerAdmissible (r : Run) (t : Task) : Truth :=
  .all [storedSweepCounters r, soleLiveRun db r, storedCurrentRunAccounting f r t,
    storedHighestOwnedOrdinal db r,
    (r.activatedGen.lt r.claimGen).or
      ((r.activatedGen.eq r.claimGen).and
        ((t.infraRetries.eq (.integer infraRetriesBounds.max)).or
          ((storedIncrementableInteger attemptBounds r.attempt).and
            (r.attempt.eq (f.plus (f.plus t.attempts t.infraRetries) 1)))))]

def sweepTerminalOwnerAdmissible (r : Run) : Truth :=
  (storedSweepGenerations r).and
    ((r.activatedGen.eq r.claimGen).or
      (.all [r.activatedGen.lt r.claimGen, storedIntegerWithin relaunchCountBounds r.relaunchCount,
        r.relaunchCount.eq (.integer relaunchCountBounds.max)]))

def sweepScanAdmissible (r : Run) (t : Task) : Truth :=
  ((t.state.isIn LIVE).and (sweepLiveOwnerAdmissible f db r t)).or
    ((t.state.isIn LIVE).not.and (sweepTerminalOwnerAdmissible r))

/-- `dueRuns`. -/
def dueRuns (queue : String) (state : String) (r : Run) : Truth :=
  .all [r.queue.eq (.text queue), r.state.eq (.text state), runAvailableDue now r]

/-- `CLAIM_OWED_PENDING` and `CLAIM_OWED_SLEEPING`. -/
def claimOwed (queue : String) (state : String) (r : Run) (t : Task) : Truth :=
  (dueRuns now queue state r).and (claimEligibility f db now r t)

/-- `SWEEP_CLAIMS_EXPIRED`. -/
def sweepClaimsExpired (queue : String) (r : Run) (t : Task) : Truth :=
  .all [r.queue.eq (.text queue), r.state.eq (.text "running"), runClaimExpired now r,
    sweepScanAdmissible f db r t]

/-- `SWEEP_CANCELS_DUE`. -/
def sweepCancelsDue (queue : String) (t : Task) : Truth :=
  .all [t.queue.eq (.text queue), cancelDue now t, t.state.isIn LIVE, taskOwnsEveryRun db t]

end Durablerun.Stored
