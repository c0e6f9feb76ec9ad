import Durablerun.Lib.Utf
import Durablerun.Store.Schema

/-!
# The shared fragments

What the engine's statements mean by live, due, eligible, owned, current and begun. Each predicate
is the fragment of the same name, over the rows it is asked of and, where the fragment holds a
subquery, over the database. `at` is the instant a comparison is made at: the batch's clock in a
compare-and-set, the fenced row's instant in a statement that follows one.

Reference: `packages/store-libsql/src/fragments.ts`.
-/

namespace Durablerun

open Relational

/-! ## Stored integers -/

/-- The integer is one the bounds admit. -/
def IntegerBounds.Within (b : IntegerBounds) (n : ℤ) : Prop := b.min ≤ n ∧ n ≤ b.max
deriving Decidable

/-- `storedIntegerWithin` of a nullable column, which NULL does not satisfy. -/
def IntegerBounds.Stored (b : IntegerBounds) (v : Option ℤ) : Prop := ∃ n ∈ v, b.Within n
deriving Decidable

/-- The integer can be raised by one and stay within its bounds. -/
def storedIncrementableInteger (b : IntegerBounds) (n : ℤ) : Prop := b.min ≤ n ∧ n ≤ b.max - 1
deriving Decidable

/-- A stored instant with room for a duration after it. -/
def epochAdditionFits (base delta : ℤ) : Prop :=
  (0 ≤ base ∧ base ≤ MAX_EPOCH_MS) ∧ base ≤ MAX_EPOCH_MS - delta
deriving Decidable

/-! ## Instants -/

/-- The run is available, and has been since `at` or before. -/
def runAvailableDue (r : Run) (at' : ℤ) : Prop :=
  ∃ v ∈ r.availableAtMs, epochBounds.Within v ∧ v ≤ at'
deriving Decidable

/-- The claim's lease has run out. -/
def runClaimExpired (r : Run) (at' : ℤ) : Prop :=
  ∃ v ∈ r.claimExpiresAtMs, epochBounds.Within v ∧ v ≤ at'
deriving Decidable

/-- The claim's lease runs past `at`. -/
def runClaimUnexpired (r : Run) (at' : ℤ) : Prop :=
  ∃ v ∈ r.claimExpiresAtMs, epochBounds.Within v ∧ at' < v
deriving Decidable

/-- The task's cancellation deadline has passed. -/
def cancelDue (t : Task) (at' : ℤ) : Prop :=
  ∃ v ∈ t.cancelAtMs, epochBounds.Within v ∧ v ≤ at'
deriving Decidable

/-- The task has no cancellation deadline, or one still ahead. -/
def cancelNotDue (t : Task) (at' : ℤ) : Prop :=
  t.cancelAtMs = none ∨ ∃ v ∈ t.cancelAtMs, epochBounds.Within v ∧ at' < v
deriving Decidable

/-! ## Ownership and accounting -/

/-- The run belongs to the task: both ownership fields agree. -/
def runOwnedByTask (r : Run) (t : Task) : Prop := t.taskId = r.taskId ∧ t.queue = r.queue
deriving Decidable

/-- The task is live and its deadline has not passed. -/
def eligibleTask (t : Task) (at' : ℤ) : Prop := t.state.Live ∧ cancelNotDue t at'
deriving Decidable

/-- No run of the task is in another queue. -/
def taskOwnsEveryRun (db : Db) (t : Task) : Prop :=
  ¬ ∃ r ∈ db.runs, r.taskId = t.taskId ∧ r.queue ≠ t.queue
deriving Decidable

/-- The run is its task's only live run. -/
def soleLiveRun (db : Db) (r : Run) : Prop :=
  ¬ ∃ s ∈ db.runs, s.taskId = r.taskId ∧ s.state.Live ∧ s.runId ≠ r.runId
deriving Decidable

/-- The accounting relation of the current live run. -/
def storedCurrentRunAccounting (r : Run) (t : Task) : Prop :=
  attemptBounds.Within r.attempt ∧ attemptsBounds.Within t.attempts ∧
    maxAttemptsBounds.Within t.maxAttempts ∧ infraRetriesBounds.Within t.infraRetries ∧
    t.attempts < t.maxAttempts ∧ r.attempt = t.attempts + t.infraRetries + 1
deriving Decidable

/-- The run is the highest valid ordinal of its task. -/
def storedHighestOwnedOrdinal (db : Db) (r : Run) : Prop :=
  ¬ ∃ h ∈ db.runs, h.taskId = r.taskId ∧ (¬ attemptBounds.Within h.attempt ∨ r.attempt < h.attempt)
deriving Decidable

/-- A run holds the identity of a successor: its id, its task and its ordinal. -/
def successorOwned (db : Db) (runId taskId : String) (attempt : ℤ) : Prop :=
  ∃ s ∈ db.runs, s.runId = runId ∧ s.taskId = taskId ∧ s.attempt = attempt
deriving Decidable

/-- The stored retry strategy can be handed to a worker. -/
def durableTaskRetryAdmissible (t : Task) : Prop :=
  match t.retryStrategy with
  | .none => True
  | .fixed baseMs => 0 ≤ baseMs ∧ baseMs ≤ MAX_DURATION_MS
  | .exponential baseMs factor maxMs =>
    (0 ≤ baseMs ∧ baseMs ≤ MAX_DURATION_MS) ∧ 0 ≤ factor ∧ 0 ≤ maxMs ∧ maxMs ≤ MAX_DURATION_MS

instance : DecidablePred durableTaskRetryAdmissible := fun t =>
  match h : t.retryStrategy with
  | .none => decidable_of_iff True (by simp [durableTaskRetryAdmissible, h])
  | .fixed b => decidable_of_iff (0 ≤ b ∧ b ≤ MAX_DURATION_MS)
      (by simp [durableTaskRetryAdmissible, h])
  | .exponential b f m =>
    decidable_of_iff
      ((0 ≤ b ∧ b ≤ MAX_DURATION_MS) ∧ 0 ≤ f ∧ 0 ≤ m ∧ m ≤ MAX_DURATION_MS)
      (by simp [durableTaskRetryAdmissible, h])

/-- The stored headers can be handed to a worker: no name occurs twice. -/
def durableTaskHeadersAdmissible (t : Task) : Prop := ∀ hs ∈ t.headers, (hs.map Prod.fst).Nodup
deriving Decidable

/-! ## Waits -/

/-- The wait is the registration of the run's park, its step apart. -/
def registeredWaitWitness (r : Run) (w : Wait) : Prop :=
  w.runId = r.runId ∧ w.queue = r.queue ∧ w.taskId = r.taskId ∧ r.wakeEvent = some w.eventName ∧
    w.timeoutAtMs = r.availableAtMs ∧ (∀ v ∈ r.availableAtMs, epochBounds.Within v)
deriving Decidable

/-- The registrations of a run's park. -/
def registeredWaits (db : Db) (r : Run) : List Wait := db.waits.rows.filter (registeredWaitWitness r)

/-- The step of the one registration, when there is exactly one. -/
def registeredWaitStep (db : Db) (r : Run) : Option String :=
  match registeredWaits db r with
  | [w] => some w.stepName
  | _ => none

/-- The run's own step is among its registrations. -/
def registeredWaitCurrent (db : Db) (r : Run) : Prop :=
  ∃ w ∈ db.waits, registeredWaitWitness r w ∧ r.wakeStep = some w.stepName
deriving Decidable

/-- At most one registration: no consumer has to guess a step. -/
def registeredWaitUnambiguous (db : Db) (r : Run) : Prop := (registeredWaits db r).length ≤ 1
deriving Decidable

/-- No wait of the run has a timeout outside the epoch. -/
def registeredWaitTemporallySafe (db : Db) (r : Run) : Prop :=
  ¬ ∃ w ∈ db.waits, w.runId = r.runId ∧ ∃ v ∈ w.timeoutAtMs, ¬ epochBounds.Within v
deriving Decidable

/-! ## The saga phase -/

def SAGA_PHASE_CHECKPOINT : String := "$rolling-back"
def SAGA_STARTED_PREFIX : String := "$started:"
def SAGA_ROLLBACK_PREFIX : String := "$rollback:"
def SAGA_TRIES_PREFIX : String := "$rollback-tries:"

/-- The first name past every name under a reserved prefix. -/
def firstNamePast (pre : Js.Str) : Except Js.Str Js.Str :=
  if pre.getLast? ≠ some 58 then
    .error (Js.units "'" ++ pre ++ Js.units "' is no reserved prefix: it does not end in a colon")
  else .ok (pre.dropLast ++ Js.units ";")

/-- `name` starts with `pre`: `substr(name, 1, length) = pre`. The prefix is as long as the language
counts it, and the name is cut by its characters. -/
def namedUnder (name pre : String) : Prop := name.toList.take (Js.utf16 pre).length = pre.toList
deriving Decidable

/-- The names from the prefix up to the first name past it, by their bytes. Under a prefix that has
none, nothing is read. -/
def rangeUnder (name pre : String) : Prop :=
  ∃ past ∈ (firstNamePast (Js.utf16 pre)).toOption,
    Js.utf8 pre ≤ Js.utf8 name ∧ Js.utf8 name < Js.utf8 (Js.text past)
deriving Decidable

/-- The task has its phase marker. -/
def sagaBegan (db : Db) (taskId : String) : Prop :=
  ∃ c ∈ db.checkpoints, c.taskId = taskId ∧ c.checkpointName = SAGA_PHASE_CHECKPOINT
deriving Decidable

/-- A rollback's checkpoint is written only once the saga began, and any other only before. -/
def checkpointInItsPhase (db : Db) (taskId name : String) : Prop :=
  namedUnder name SAGA_ROLLBACK_PREFIX ↔ sagaBegan db taskId
deriving Decidable

/-- The name is one only the engine's own batches write. -/
def checkpointIsTheEngines (name : String) : Prop :=
  name = SAGA_PHASE_CHECKPOINT ∨ namedUnder name SAGA_TRIES_PREFIX
deriving Decidable

/-- The step key a name under `pre` carries: `substr(name, length + 1)`. -/
def keyUnder (name pre : String) : String := String.ofList (name.toList.drop (Js.utf16 pre).length)

/-- The rollback of the step a start marker names has run. -/
def rollbackRan (db : Db) (marker : Checkpoint) : Prop :=
  ∃ c ∈ db.checkpoints, c.taskId = marker.taskId ∧
    c.checkpointName = SAGA_ROLLBACK_PREFIX ++ keyUnder marker.checkpointName SAGA_STARTED_PREFIX
deriving Decidable

/-- A registered step of the task started, and its rollback has not run. -/
def rollbackPending (db : Db) (taskId : String) : Prop :=
  ∃ c ∈ db.checkpoints, c.taskId = taskId ∧ rangeUnder c.checkpointName SAGA_STARTED_PREFIX ∧
    ¬ rollbackRan db c
deriving Decidable

end Durablerun
