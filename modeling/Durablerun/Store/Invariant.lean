import Durablerun.Store.Units

/-!
# The invariant of the store

What holds of the database between batches, one predicate for each concern: the units are settled
and each task is in the state of its runs (`Units`, `Mirror`), every wait is one a run is parked on
(`Held`), a stamp says what its row became (`Stamped`), and the checkpoints of a saga and the ends of
its task are those its phase admits (`Phased`). These make `Core`, which every group of statements of
a batch keeps. `Inv` adds what only a whole batch keeps: no wait outlives its event, and an ended
task has its completion event.

Reference: `packages/store-libsql/src/store.ts` and `packages/store-libsql/src/schema.ts`.
-/

namespace Durablerun

open Relational

/-- A run that has not failed is in its task's state. -/
def Mirror (db : Db) : Prop :=
  ∀ r ∈ db.runs, ∀ t ∈ db.tasks, r.taskId = t.taskId → r.state ≠ .failed → t.state = r.state

/-! ## Waits -/

/-- The run is parked on the wait. -/
structure ParkedOn (r : Run) (w : Wait) : Prop where
  runId : r.runId = w.runId
  queue : r.queue = w.queue
  taskId : r.taskId = w.taskId
  state : r.state = .sleeping
  wakeEvent : r.wakeEvent = some w.eventName
  wakeStep : r.wakeStep = some w.stepName
  eventPayload : r.eventPayload = none
  availableAtMs : r.availableAtMs = w.timeoutAtMs

/-- A run is parked on the wait, and the wait's timeout is an instant. -/
structure WaitHeld (db : Db) (w : Wait) : Prop where
  parked : ∃ r ∈ db.runs, ParkedOn r w
  timeout : ∀ v ∈ w.timeoutAtMs, epochBounds.Within v

/-- Every wait is held by a parked run. -/
def Held (db : Db) : Prop := ∀ w ∈ db.waits, WaitHeld db w

/-- The event of this queue and name is there. -/
def EventThere (db : Db) (queue eventName : String) : Prop :=
  ∃ e ∈ db.events, e.queue = queue ∧ e.eventName = eventName

/-! ## Stamps -/

/-- What a run that carries a statement's stamp has become. -/
def Statement.Left (name : Statement) (state : TaskState) : Prop :=
  match name with
  | .fail | .cap => state = .failed
  | .complete => state = .completed
  | .runs => state = .cancelled
  | .suspend | .successor | .rollbackPass => state.Queued
  | .reopen | .run | .wakeRuns | .wakeFinished => state = .pending
  | .park => state = .sleeping
  | .claim | .activate | .extend | .lease => state = .running
  | _ => True

/-- What a task that carries a statement's stamp has become. -/
def Statement.LeftTask (name : Statement) (state : TaskState) : Prop :=
  match name with
  | .cancel => state = .cancelled
  | .revive => state.Live
  | _ => True

/-- Every stamp says what its row became. -/
structure Stamped (db : Db) : Prop where
  runs : ∀ r ∈ db.runs, ∀ stamp ∈ r.fenceStamp, stamp.statement.Left r.state
  tasks : ∀ t ∈ db.tasks, ∀ stamp ∈ t.fenceStamp, stamp.statement.LeftTask t.state

/-! ## Sagas -/

/-- The task has a checkpoint of this name. -/
def HasCheckpoint (db : Db) (taskId name : String) : Prop :=
  ∃ c ∈ db.checkpoints, c.taskId = taskId ∧ c.checkpointName = name

/-- A step of the task started. -/
def StepStarted (db : Db) (taskId : String) : Prop :=
  ∃ c ∈ db.checkpoints, c.taskId = taskId ∧ namedUnder c.checkpointName SAGA_STARTED_PREFIX

/-- The name is one only a begun saga writes: a rollback's, or a rollback's tries. -/
def RollingBackName (name : String) : Prop :=
  namedUnder name SAGA_ROLLBACK_PREFIX ∨ namedUnder name SAGA_TRIES_PREFIX

/-- What the saga's phase says of a task: a task that completed never began one, a task that failed
outside it had its budget spent, or had no room left for the pass it was owed, and a live task inside
it has one attempt left, the pass it runs. -/
structure InPhase (db : Db) (t : Task) : Prop where
  completed : t.state = .completed → ¬ sagaBegan db t.taskId
  failed : t.state = .failed → ¬ sagaBegan db t.taskId →
    ∀ r ∈ db.runs, r.taskId = t.taskId → r.attempt - t.infraRetries ≤ t.maxAttempts
  owed : t.state = .failed → ¬ sagaBegan db t.taskId → StepStarted db t.taskId →
    ∃ r ∈ db.runs, r.taskId = t.taskId ∧ MAX_COUNT ≤ r.attempt - t.infraRetries
  spent : t.state.Live → sagaBegan db t.taskId → t.maxAttempts = t.attempts + 1

/-- A checkpoint belongs to a task, a rollback's follows the phase marker, and every task is in its
phase. -/
structure Phased (db : Db) : Prop where
  owner : ∀ c ∈ db.checkpoints, ∃ t ∈ db.tasks, t.taskId = c.taskId
  marker : ∀ c ∈ db.checkpoints, RollingBackName c.checkpointName → sagaBegan db c.taskId
  tasks : ∀ t ∈ db.tasks, InPhase db t

/-! ## The whole -/

/-- What a batch keeps while a task has yet to follow its run. -/
structure Unmirrored (db : Db) : Prop extends Units db where
  held : Held db
  stamped : Stamped db
  phased : Phased db

/-- What every group of statements of a batch keeps. -/
structure Core (db : Db) : Prop extends Unmirrored db where
  mirror : Mirror db

/-- What holds of the database between batches. -/
structure Inv (db : Db) : Prop extends Core db where
  /-- No wait is for an event that is there. -/
  quiet : ∀ w ∈ db.waits, ¬ EventThere db w.queue w.eventName
  /-- An ended task has its completion event. -/
  recorded : ∀ t ∈ db.tasks, ¬ t.state.Live →
    EventThere db t.queue (taskDoneEventName t.taskId)

/-- An empty store has the invariant. -/
theorem Inv.empty : Inv Db.empty where
  toUnits := .empty
  mirror := fun r hr => absurd hr (Table.not_mem_empty r)
  held := fun w hw => absurd hw (Table.not_mem_empty w)
  stamped := ⟨fun r hr => absurd hr (Table.not_mem_empty r),
    fun t ht => absurd ht (Table.not_mem_empty t)⟩
  phased := ⟨fun c hc => absurd hc (Table.not_mem_empty c),
    fun c hc => absurd hc (Table.not_mem_empty c), fun t ht => absurd ht (Table.not_mem_empty t)⟩
  quiet := fun w hw => absurd hw (Table.not_mem_empty w)
  recorded := fun t ht => absurd ht (Table.not_mem_empty t)

/-! ## What the invariant gives -/

variable {db : Db}

/-- A live run's task is in its state. -/
theorem Core.state_eq (h : Core db) {r : Run} {t : Task} (hr : r ∈ db.runs) (ht : t ∈ db.tasks)
    (hid : r.taskId = t.taskId) (hl : r.state.Live) : t.state = r.state :=
  h.mirror r hr t ht hid fun hf => by simp [hf] at hl

/-- A run of an ended task has ended. -/
theorem Core.not_live (h : Core db) {r : Run} {t : Task} (hr : r ∈ db.runs) (ht : t ∈ db.tasks)
    (hid : r.taskId = t.taskId) (hl : ¬ t.state.Live) : ¬ r.state.Live :=
  fun hrl => hl (h.state_eq hr ht hid hrl ▸ hrl)

/-- The run a wait names is parked on it. -/
theorem Held.parkedOn (h : Held db) {w : Wait} {r : Run} (hw : w ∈ db.waits) (hr : r ∈ db.runs)
    (hid : r.runId = w.runId) : ParkedOn r w := by
  obtain ⟨r', hr', hp⟩ := (h w hw).parked
  rwa [db.run_unique hr hr' (hid.trans hp.runId.symm)]

/-- A run that does not sleep has no wait. -/
theorem Held.no_wait (h : Held db) {w : Wait} {r : Run} (hw : w ∈ db.waits) (hr : r ∈ db.runs)
    (hs : r.state ≠ .sleeping) : r.runId ≠ w.runId :=
  fun hid => hs (h.parkedOn hw hr hid).state

/-- A run has at most one wait. -/
theorem Held.unique (h : Held db) {w w' : Wait} (hw : w ∈ db.waits) (hw' : w' ∈ db.waits)
    (hid : w.runId = w'.runId) : w = w' := by
  obtain ⟨r, hr, hp⟩ := (h w hw).parked
  have hp' := h.parkedOn hw' hr (hp.runId.trans hid)
  have hstep : w.stepName = w'.stepName :=
    Option.some.inj (hp.wakeStep.symm.trans hp'.wakeStep)
  exact Table.eq_of_key hw hw' (k := (w.runId, w.stepName)) (by simp [Wait.keys])
    (by simp [Wait.keys, hid, hstep])

end Durablerun
