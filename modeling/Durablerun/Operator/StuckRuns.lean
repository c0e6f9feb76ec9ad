import Durablerun.Core.Strings
import Durablerun.Store.Reads

/-!
# The report of stuck runs

An operator asks which moves of a queue the driver owes, and which due rows no move will take. The
second are found by absence: a window of the oldest due rows is read by their instant alone, the
engine's own statement is read beside it, and a row of the window the statement does not answer is
refused when the statement answered every row it admits, or one that sorts after it. All is read
from one snapshot, each statement at its own instant.

Reference: `packages/core/src/operator-reads.ts` and `packages/core/src/statements/operator.ts`.
-/

namespace Durablerun.Operator

open Js Relational

/-! ## Integers -/

/-- A stored integer its bounds refuse, with the row it came from. -/
structure CorruptInteger where
  field : String
  taskId : Option String
  runId : Option String
  value : ℤ
  deriving DecidableEq

/-- `corruptOrder`: by field and then by row. -/
def corruptOrder (left right : CorruptInteger) : ℤ :=
  let byField := byCodePoints (utf16 left.field) (utf16 right.field)
  let byTask := byCodePoints (utf16 (left.taskId.getD "")) (utf16 (right.taskId.getD ""))
  if byField ≠ 0 then byField
  else if byTask ≠ 0 then byTask
  else byCodePoints (utf16 (left.runId.getD "")) (utf16 (right.runId.getD ""))

/-- `integersOf`'s reader: a value of the row held to its bounds, and listed when they refuse it. A
stored NULL is a value of every field that may hold one here. -/
def readInteger (field : String) (bounds : IntegerBounds) (taskId runId : Option String) :
    Option ℤ → Option ℤ × List CorruptInteger
  | none => (none, [])
  | some v => if bounds.Within v then (some v, []) else (none, [⟨field, taskId, runId, v⟩])

/-! ## Places -/

/-- A row's place in the order every leg is read in: its instant, and then its id. -/
structure Placed where
  id : String
  at' : Option ℤ
  deriving DecidableEq

/-- `absentLast`. -/
def absentLast (left right : Option ℤ) : ℤ :=
  if left = right then 0
  else
    match left, right with
    | none, _ => 1
    | _, none => -1
    | some left, some right => left - right

/-- How two places compare. -/
def comparePlaced (row other : Placed) : ℤ :=
  if absentLast row.at' other.at' ≠ 0 then absentLast row.at' other.at'
  else byCodePoints (utf16 row.id) (utf16 other.id)

/-- `sortsBefore`. -/
def sortsBefore (row other : Placed) : Prop := comparePlaced row other < 0
deriving Decidable

/-! ## Grace and limit -/

/-- A list that stops at a limit, and whether there is more of it. -/
structure Capped (Row : Type) where
  rows : List Row
  atLeast : Bool
  deriving DecidableEq

/-- A capped list found through a window, and whether the window left out a row it could list. -/
structure Windowed (Row : Type) extends Capped Row where
  unexamined : Bool
  deriving DecidableEq

/-- A row whose move is owed, and for how long. -/
structure Owed (Row : Type) where
  row : Row
  lateByMs : Option ℤ
  deriving DecidableEq

/-- `agedAt`: whether an instant is at least `agedMs` behind database time, as far as both are
readable. -/
def agedAt (nowMs : Option ℤ) (agedMs : ℤ) (at' : Option ℤ) : Prop :=
  ∀ v ∈ at', ∀ now ∈ nowMs, v ≤ now - agedMs
deriving Decidable

/-- `agedBy` of `owedFor`: the rows old enough, oldest first, up to the limit. -/
def owedFor {Row : Type} (dueAtMs : Row → Option ℤ) (idOf : Row → String) (nowMs : Option ℤ)
    (graceMs : ℤ) (limit : ℕ) (read : List Row) : Capped (Owed Row) :=
  let aged := ((read.filter fun row => agedAt nowMs graceMs (dueAtMs row)).insertionSort
    fun left right => comparePlaced ⟨idOf left, dueAtMs left⟩ ⟨idOf right, dueAtMs right⟩ ≤ 0).map
    fun row => (⟨row, (dueAtMs row).bind fun v => nowMs.map (· - v)⟩ : Owed Row)
  ⟨aged.take limit, limit < aged.length⟩

/-! ## What the engine does not take -/

/-- One kind of row a leg lists. -/
structure OwedKind (α Row : Type) where
  idColumn : α → String
  idOf : Row → String
  dueAtMs : Row → Option ℤ
  decode : α → Row × List CorruptInteger

/-- What the loop of `notTaken` holds. -/
structure Unsettled (Row : Type) where
  rows : List Row := []
  corrupt : List CorruptInteger := []
  unsettled : Bool := false
  endsAt : Option ℤ := none

/-- What `notTaken` answers. -/
structure NotTaken (Row : Type) where
  rows : List Row
  corrupt : List CorruptInteger
  unexamined : Bool

section NotTaken

variable {α Row : Type} (kind : OwedKind α Row) (taken : List Placed) (limit : ℕ)
  (aged : Option ℤ → Prop) [DecidablePred aged]

/-- `held`: the instant of the row of this id that the engine's statement answered. -/
def heldAt (id : String) : Option (Option ℤ) :=
  (taken.reverse.find? fun place => place.id = id).map Placed.at'

/-- The last row of a full answer. -/
def lastTaken : Option Placed := if limit < taken.length then taken.getLast? else none

/-- One turn of the loop. -/
def settle (s : Unsettled Row) (raw : α) : Unsettled Row :=
  match heldAt taken (kind.idColumn raw) with
  | some at' => { s with endsAt := at' }
  | none =>
    let (row, its) := kind.decode raw
    let place : Placed := ⟨kind.idOf row, kind.dueAtMs row⟩
    if ∀ last ∈ lastTaken taken limit, sortsBefore place last then
      { s with rows := s.rows ++ [row], corrupt := s.corrupt ++ its, endsAt := kind.dueAtMs row }
    else { s with unsettled := s.unsettled || aged (kind.dueAtMs row), endsAt := kind.dueAtMs row }

/-- `notTaken`: the rows of a window that the engine does not take. -/
def notTaken (read : List α) : NotTaken Row :=
  let s := read.foldl (settle kind taken limit aged) {}
  let past : Bool := limit + 1 < read.length ∧ aged s.endsAt
  ⟨s.rows, s.corrupt, s.unsettled || past⟩

end NotTaken

/-! ## Statements -/

/-- `DUE_PENDING` and `DUE_SLEEPING`. -/
def dueRuns (queue : String) (state : TaskState) (now : ℤ) (r : Run) : Prop :=
  r.queue = queue ∧ r.state = state ∧ runAvailableDue r now
deriving Decidable

/-- `LEASES_LAPSED`. -/
def leasesLapsed (queue : String) (now : ℤ) (r : Run) : Prop :=
  r.queue = queue ∧ r.state = .running ∧ runClaimExpired r now
deriving Decidable

/-- A leg of `DEADLINES_PASSED`: the live tasks of some states past their cancellation deadline. -/
def deadlinesPassed (queue : String) (states : List TaskState) (now : ℤ) (t : Task) : Prop :=
  t.queue = queue ∧ t.state ∈ states ∧ cancelDue t now
deriving Decidable

/-- `CLAIM_OWED_PENDING` and `CLAIM_OWED_SLEEPING`: what a claim would take now. -/
def claimOwed (db : Db) (queue : String) (state : TaskState) (now : ℤ) (r : Run) (t : Task) :
    Prop :=
  dueRuns queue state now r ∧ claimEligibility db now r t
deriving Decidable

/-- `SWEEP_CLAIMS_EXPIRED`, of a run and its task. -/
def claimsExpired (db : Db) (queue : String) (now : ℤ) (r : Run) (t : Task) : Prop :=
  leasesLapsed queue now r ∧ sweepScanAdmissible db r t
deriving Decidable

/-- `overdueRunsWindowRead`. -/
def overdueRunsWindowRead (db : Db) (rows : Run → Prop) [DecidablePred rows]
    (dueAt : Run → Option ℤ) (limit : ℕ) : List Run :=
  ((db.runs.rows.filter rows).insertionSort (instantOrder dueAt Run.runId)).take limit

/-- `overdueTasksWindowRead`. -/
def overdueTasksWindowRead (db : Db) (rows : Task → Prop) [DecidablePred rows] (limit : ℕ) :
    List Task :=
  ((db.tasks.rows.filter rows).insertionSort
    (instantOrder Task.cancelAtMs Task.taskId)).take limit

/-- The runs a predicate admits with the task that owns each. -/
def admittedRuns (db : Db) (admitted : Run → Task → Prop) [∀ r, DecidablePred (admitted r)] :
    List (Run × Task) :=
  db.runs.rows.flatMap fun r =>
    (db.tasks.rows.filter fun t => runOwnedByTask r t ∧ admitted r t).map (r, ·)

/-- `overdueRunsRead`. -/
def overdueRunsRead (db : Db) (admitted : Run → Task → Prop) [∀ r, DecidablePred (admitted r)]
    (dueAt : Run → Option ℤ) (limit : ℕ) : List (Run × Task) :=
  ((admittedRuns db admitted).insertionSort
    (instantOrder (fun p => dueAt p.1) fun p => p.1.runId)).take limit

/-! ## Rows -/

/-- A run a move is owed to. -/
structure OverdueRun where
  runId : String
  taskId : String
  taskName : String
  attempt : Option ℤ
  dueAtMs : Option ℤ
  deriving DecidableEq

/-- A run whose lease expired, which the sweep takes back. -/
structure LapsedRun extends OverdueRun where
  activated : Option Bool
  deriving DecidableEq

/-- A task past its deadline, which the sweep cancels. -/
structure OverdueTask where
  taskId : String
  taskName : String
  state : TaskState
  runId : Option String
  dueAtMs : Option ℤ
  deriving DecidableEq

/-- A run of a window, from the run's own row. -/
structure UnreclaimedRun where
  runId : String
  taskId : String
  attempt : Option ℤ
  dueAtMs : Option ℤ
  deriving DecidableEq

/-- A due run no claim admits, with the state it is in. -/
structure UnadmittedRun extends UnreclaimedRun where
  state : TaskState
  deriving DecidableEq

/-- A live task past its deadline that no sweep cancels. -/
structure UncancelledTask where
  taskId : String
  taskName : String
  state : TaskState
  dueAtMs : Option ℤ
  deriving DecidableEq

/-- A run's ordinal, as a report reads it. -/
def readAttempt (r : Run) : Option ℤ × List CorruptInteger :=
  readInteger "runs.attempt" attemptBounds none (some r.runId) (some r.attempt)

/-- `runsOf`: a run of one of the engine's legs. -/
def overdueRun (field : String) (dueAt : Run → Option ℤ) (p : Run × Task) :
    OverdueRun × List CorruptInteger :=
  let (attempt, its) := readAttempt p.1
  let (dueAtMs, its') := readInteger field epochBounds none (some p.1.runId) (dueAt p.1)
  (⟨p.1.runId, p.1.taskId, p.2.taskName, attempt, dueAtMs⟩, its ++ its')

/-- Whether the run's newest claim was activated. -/
def readActivated (r : Run) : Option Bool × List CorruptInteger :=
  let (claims, its) :=
    readInteger "runs.claim_gen" claimGenBounds none (some r.runId) (some r.claimGen)
  let (activations, its') :=
    readInteger "runs.activated_gen" activatedGenBounds none (some r.runId) (some r.activatedGen)
  (claims.bind fun claims => activations.map fun activations => decide (activations = claims),
    its ++ its')

/-- `cancels`: a task of the engine's leg of deadlines. -/
def overdueTask (db : Db) (t : Task) : OverdueTask × List CorruptInteger :=
  let (dueAtMs, its) :=
    readInteger "tasks.cancel_at_ms" epochBounds (some t.taskId) none t.cancelAtMs
  (⟨t.taskId, t.taskName, t.state, liveRunOfTask db t, dueAtMs⟩, its)

/-- `runsOwed`. -/
def runsOwed (field : String) (dueAt : Run → Option ℤ) : OwedKind Run UnreclaimedRun where
  idColumn := Run.runId
  idOf := UnreclaimedRun.runId
  dueAtMs := UnreclaimedRun.dueAtMs
  decode r :=
    let (attempt, its) := readAttempt r
    let (dueAtMs, its') := readInteger field epochBounds none (some r.runId) (dueAt r)
    (⟨r.runId, r.taskId, attempt, dueAtMs⟩, its ++ its')

/-- `tasksOwed`. -/
def tasksOwed : OwedKind Task UncancelledTask where
  idColumn := Task.taskId
  idOf := UncancelledTask.taskId
  dueAtMs := UncancelledTask.dueAtMs
  decode t :=
    let (dueAtMs, its) :=
      readInteger "tasks.cancel_at_ms" epochBounds (some t.taskId) none t.cancelAtMs
    (⟨t.taskId, t.taskName, t.state, dueAtMs⟩, its)

/-! ## stuckRuns -/

/-- The legs a dialect reads the passed deadlines in: its live states, each in one leg. -/
structure DeadlineLegs where
  legs : List (List TaskState)
  nodup : legs.flatten.Nodup
  live : ∀ state, state ∈ legs.flatten ↔ state.Live

/-- `DEADLINES_PASSED`, in one leg. -/
def DeadlineLegs.one : DeadlineLegs where
  legs := [[.pending, .running, .sleeping]]
  nodup := by decide
  live state := by cases state <;> decide

/-- `DEADLINES_PASSED`, one leg to a state. -/
def DeadlineLegs.byState : DeadlineLegs where
  legs := [[.pending], [.running], [.sleeping]]
  nodup := by decide
  live state := by cases state <;> decide

/-- What `stuckRuns` answers. -/
structure StuckRuns where
  nowMs : Option ℤ
  fakeClock : Bool
  dueUnclaimed : Capped (Owed OverdueRun)
  sleepingPastWake : Capped (Owed OverdueRun)
  dueNotAdmitted : Windowed (Owed UnadmittedRun)
  leaseLapsed : Capped (Owed LapsedRun)
  lapsedNotReclaimed : Windowed (Owed UnreclaimedRun)
  cancelOverdue : Capped (Owed OverdueTask)
  deadlineNotCancelled : Windowed (Owed UncancelledTask)
  corrupt : List CorruptInteger

/-- `stuckRuns`: the legs and windows of one queue, each statement at the clock of its place in the
batch: three windows of runs, the windows of deadlines, the four legs of the engine's own, and the
report's time last. -/
def stuckRuns (db : Db) (queue : String) (deadlines : DeadlineLegs) (clock : ℕ → ℤ)
    (fakeClock : Bool) (graceMs : ℤ) (limit : ℕ) : StuckRuns :=
  let n := deadlines.legs.length
  let windowPending :=
    overdueRunsWindowRead db (dueRuns queue .pending (clock 0)) Run.availableAtMs (limit + 2)
  let windowSleeping :=
    overdueRunsWindowRead db (dueRuns queue .sleeping (clock 1)) Run.availableAtMs (limit + 2)
  let windowLapsed :=
    overdueRunsWindowRead db (leasesLapsed queue (clock 2)) Run.claimExpiresAtMs (limit + 2)
  let windowDeadlines := deadlines.legs.mapIdx fun leg states =>
    overdueTasksWindowRead db (deadlinesPassed queue states (clock (3 + leg))) (limit + 2)
  let pendingRead := (overdueRunsRead db (claimOwed db queue .pending (clock (3 + n)))
    Run.availableAtMs (limit + 1)).map (overdueRun "runs.available_at_ms" Run.availableAtMs)
  let sleepingRead := (overdueRunsRead db (claimOwed db queue .sleeping (clock (4 + n)))
    Run.availableAtMs (limit + 1)).map (overdueRun "runs.available_at_ms" Run.availableAtMs)
  let lapsedRows := overdueRunsRead db (claimsExpired db queue (clock (5 + n)))
    Run.claimExpiresAtMs (limit + 1)
  let lapsedRead := lapsedRows.map (overdueRun "runs.claim_expires_at_ms" Run.claimExpiresAtMs)
  let activatedRead := lapsedRows.map fun p => readActivated p.1
  let cancelsRead := (sweepDueCancels db (clock (6 + n)) queue (limit + 1)).map (overdueTask db)
  let (nowMs, nowCorrupt) := readInteger "derived.epoch_ms" epochBounds none none (clock (7 + n))
  let pending := pendingRead.map Prod.fst
  let sleeping := sleepingRead.map Prod.fst
  let lapsed := lapsedRead.zipWith (fun run activated => (⟨run.1, activated.1⟩ : LapsedRun))
    activatedRead
  let cancels := cancelsRead.map Prod.fst
  let places (runs : List OverdueRun) : List Placed := runs.map fun run => ⟨run.runId, run.dueAtMs⟩
  let aged := agedAt nowMs graceMs
  let pendingNotAdmitted := notTaken (runsOwed "runs.available_at_ms" Run.availableAtMs)
    (places pending) limit aged windowPending
  let sleepingNotAdmitted := notTaken (runsOwed "runs.available_at_ms" Run.availableAtMs)
    (places sleeping) limit aged windowSleeping
  let notReclaimed := notTaken (runsOwed "runs.claim_expires_at_ms" Run.claimExpiresAtMs)
    (places (lapsed.map LapsedRun.toOverdueRun)) limit aged windowLapsed
  let notCancelled := windowDeadlines.map (notTaken tasksOwed
    (cancels.map fun task => ⟨task.taskId, task.dueAtMs⟩) limit aged)
  let unadmitted := pendingNotAdmitted.rows.map (⟨·, .pending⟩ : _ → UnadmittedRun) ++
    sleepingNotAdmitted.rows.map (⟨·, .sleeping⟩ : _ → UnadmittedRun)
  { nowMs
    fakeClock
    dueUnclaimed := owedFor OverdueRun.dueAtMs OverdueRun.runId nowMs graceMs limit pending
    sleepingPastWake := owedFor OverdueRun.dueAtMs OverdueRun.runId nowMs graceMs limit sleeping
    dueNotAdmitted := {
      owedFor (fun run => run.dueAtMs) (fun run => run.runId) nowMs graceMs limit unadmitted with
      unexamined := pendingNotAdmitted.unexamined || sleepingNotAdmitted.unexamined }
    leaseLapsed :=
      owedFor (fun run => run.dueAtMs) (fun run => run.runId) nowMs graceMs limit lapsed
    lapsedNotReclaimed := {
      owedFor UnreclaimedRun.dueAtMs UnreclaimedRun.runId nowMs graceMs limit notReclaimed.rows with
      unexamined := notReclaimed.unexamined }
    cancelOverdue := owedFor OverdueTask.dueAtMs OverdueTask.taskId nowMs graceMs limit cancels
    deadlineNotCancelled := {
      owedFor UncancelledTask.dueAtMs UncancelledTask.taskId nowMs graceMs limit
        (notCancelled.flatMap NotTaken.rows) with
      unexamined := notCancelled.any NotTaken.unexamined }
    corrupt := (nowCorrupt ++ pendingRead.flatMap Prod.snd ++ sleepingRead.flatMap Prod.snd ++
      lapsedRead.flatMap Prod.snd ++ activatedRead.flatMap Prod.snd ++
      cancelsRead.flatMap Prod.snd ++ pendingNotAdmitted.corrupt ++ sleepingNotAdmitted.corrupt ++
      notReclaimed.corrupt ++ notCancelled.flatMap NotTaken.corrupt).insertionSort
        fun left right => corruptOrder left right ≤ 0 }

end Durablerun.Operator
