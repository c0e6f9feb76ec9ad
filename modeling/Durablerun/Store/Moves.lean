import Durablerun.Store.Accounting
import Mathlib.Logic.Relation

/-!
# What one batch makes of each row

A batch of its own seed does at most one thing to a run, and a task follows its runs statement by
statement. `Run.Move` and `Task.Move` name each of these, with the guard the compare-and-set found
it under, `Born` names the rows a batch adds, and `Effect` puts the tables together. What holds of
every move holds of every batch.

Reference: `packages/store-libsql/src/store.ts`.
-/

namespace Durablerun

open Relational

/-! ## Runs -/

section Moves

variable (seed : String) (now : ℤ) (db db' : Db)

/-- What a batch makes of a run it does not leave as it is. `db` is the database the batch met, `db'`
the one it leaves. -/
inductive Run.Move : Call → Run → Run → Prop
  | claimed {call : ClaimCall} {r : Run} (guard : claimGuard db now call r) :
    Run.Move (.claim call) r (claimAssignments db seed now call r)
  | activated {receipt : ClaimReceipt} {r : Run} (guard : activateGuard db now receipt r) :
    Run.Move (.activate receipt) r (activateAssignments seed receipt now r)
  | extended {held : WorkerClaim} {extensionMs : ℤ} {r : Run}
    (guard : heartbeatGuard db now held extensionMs r) :
    Run.Move (.heartbeat held extensionMs) r (leaseAssignments seed .extend extensionMs now r)
  | deferred {receipt : ClaimReceipt} {delayMs : ℤ} {r : Run}
    (guard : deferLaunchGuard db now receipt delayMs r) :
    Run.Move (.deferLaunch receipt delayMs) r
      (parkAssignments seed .suspend ((WakeSpec.inMs delayMs).wakeAt now) now r)
  | rescheduled {held : WorkerClaim} {wake : WakeSpec} {r : Run}
    (guard : rescheduleGuard db now held wake r) :
    Run.Move (.reschedule held wake) r (suspendAssignments seed wake now r)
  | suspended {held : WorkerClaim} {wake : WakeSpec} {checkpoint : CheckpointWrite} {r : Run}
    (guard : suspendRunGuard db now held wake checkpoint r) :
    Run.Move (.suspendRun held wake checkpoint) r (suspendAssignments seed wake now r)
  | leased {held : WorkerClaim} {taskId : String} {checkpoint : CheckpointWrite} {extendMs : ℤ}
    {r : Run} (guard : checkpointLeaseGuard db now held taskId checkpoint.key extendMs r) :
    Run.Move (.setCheckpoint held taskId checkpoint extendMs) r
      (leaseAssignments seed .lease extendMs now r)
  | awaited {call : AwaitCall} {r : Run} {at' : ℤ} (guard : registerGuard db now call)
    (narrow : awaitParkNarrow db call r) (wait : call.wait seed now ∈ db'.waits) :
    Run.Move (.awaitEvent call) r
      ((awaitAssignments call (call.timeoutMs.map (now + ·)) r).stampedAt ⟨seed, .park⟩ at')
  | completed {held : WorkerClaim} {taskId resultJson : String} {r : Run}
    (guard : completeGuard db held r) :
    Run.Move (.complete held taskId resultJson) r (completeAssignments seed resultJson now r)
  | failed {failure : Failure} {r : Run} (guard : failGuard db now failure r) :
    Run.Move (.failInto failure) r (failAssignments seed .fail failure.failureJson now r)
  | reopened {swept : Swept} {r : Run} (guard : reopenGuard db now swept r) :
    Run.Move (.sweepLostLaunch swept) r (reopenAssignments seed now r)
  | capped {swept : Swept} {r : Run} (guard : capGuard db now swept r) :
    Run.Move (.sweepLostLaunch swept) r (failAssignments seed .cap REASON_RELAUNCH_CAP now r)
  | timedOut {swept : Swept} {r : Run} (guard : claimTimeoutGuard db now swept r) :
    Run.Move (.sweepClaimTimeout swept) r (failedRun seed .fail REASON_CLAIM_TIMEOUT now r)
  | cancelled {c : Cancellation} {r : Run} {t : Task} {at' : ℤ} (task : t ∈ db.tasks)
    (guard : cancelGuard db now c t) (owned : runOwnedByTask r t) (live : r.state.Live) :
    Run.Move (.cancelTransition c) r ((cancelAssignments r).stampedAt ⟨seed, .runs⟩ at')
  | expired {held : WorkerClaim} {r : Run} (guard : expireLeaseGuard db now held r) :
    Run.Move (.expireLeaseNow held) r { r with claimExpiresAtMs := some now }
  | woken {call : Call} {r : Run} {w : Wait} {e : Event} (wait : w ∈ db.waits)
    (parked : ParkedOn r w) (event : e ∈ db'.events) (queue : e.queue = w.queue)
    (name : e.eventName = w.eventName) (stamp : e.fenceStamp = some ⟨seed, .event⟩) :
    Run.Move call r
      ({ r with
          state := .pending
          availableAtMs := some e.fenceAtMs
          eventPayload := some e.payload }.stampedAt ⟨seed, .wakeFinished⟩ e.fenceAtMs)

/-- The run as the batch leaves it. -/
def Run.Moved (call : Call) (r r' : Run) : Prop := r' = r ∨ Run.Move seed now db db' call r r'

/-- The run a batch that fails a run places after it. -/
def Call.Places : Call → Statement → Prop
  | .failInto _, .successor | .failInto _, .rollbackPass => True
  | .sweepLostLaunch _, .rollbackPass => True
  | .sweepClaimTimeout _, .successor | .sweepClaimTimeout _, .rollbackPass => True
  | _, _ => False

/-- The id a batch minted for the run it may place after the task's last. -/
def Call.nextRunId : Call → Option String
  | .failInto failure => some failure.passId
  | .sweepLostLaunch swept | .sweepClaimTimeout swept => some swept.passId
  | .retryTask call => some call.runId
  | _ => none

/-- A run a batch adds. -/
inductive Run.Born : Call → Run → Prop
  | first {call : SpawnCall} (guard : spawnGuard db now call) :
    Run.Born (.spawn call) (firstRun seed call.runId (call.task seed now))
  | followed {call : Call} {r : Run} {name : Statement} {id : String} {state : TaskState}
    {delayMs : ℤ} (run : r ∈ db.runs) (running : r.state = .running) (places : call.Places name)
    (queued : state.Queued) (fits : delayMs = 0 ∨ epochAdditionFits now delayMs)
    (next : call.nextRunId = some id) : Run.Born call (successorRun seed name id r state (now + delayMs) now)
  | revived {call : RetryCall} {t : Task} {p : Run} (task : t ∈ db.tasks)
    (guard : reviveGuard db call t) (run : p ∈ db.runs) (owned : runOwnedByTask p t)
    (top : topOrdinal db t = some p.attempt) :
    Run.Born (.retryTask call)
      (revivalRun seed call.runId (revivedTask db seed call now t) p)

/-! ## Tasks -/

/-- The reason a batch that fails a run ends its task with. -/
def Call.failureReason : Call → Option String
  | .failInto failure => some failure.failureJson
  | .sweepLostLaunch _ => some REASON_RELAUNCH_CAP
  | .sweepClaimTimeout _ => some REASON_INFRA_CAP
  | _ => none

/-- What one statement of a batch makes of a task, its stamp apart. -/
inductive Task.Move : Call → Task → Task → Prop
  | booked {call : ClaimCall} {t : Task} {r : Run} (live : t.state.Live) (run : r ∈ db.runs)
    (owned : runOwnedByTask r t)
    (taken : claimGuard db now call r ∨
      (claimTaken call r ∧ r.fenceStamp = some ⟨seed, .claim⟩)) :
    Task.Move (.claim call) t { t with state := .running, lastAttemptRun := some r.runId }
  | started {receipt : ClaimReceipt} {t : Task} {r : Run} {instant : ℤ} (live : t.state.Live)
    (run : r ∈ db.runs) (owned : runOwnedByTask r t)
    (taken : (activateGuard db now receipt r ∧ instant = now) ∨
      (r.runId = receipt.runId ∧ r.fenceStamp = some ⟨seed, .activate⟩ ∧ instant = r.fenceAtMs)) :
    Task.Move (.activate receipt) t { t with
      firstStartedAtMs := some (t.firstStartedAtMs.getD instant)
      cancelAtMs := (taskMaxDurationMs t).map (t.firstStartedAtMs.getD instant + ·) }
  | followed {call : Call} {t : Task} {state : TaskState} (live : t.state.Live)
    (queued : state.Queued) : Task.Move call t { t with state }
  | completed {held : WorkerClaim} {taskId resultJson : String} {t : Task} {r : Run}
    (live : t.state.Live) (run : r ∈ db.runs) (owned : runOwnedByTask r t)
    (guard : completeGuard db held r) :
    Task.Move (.complete held taskId resultJson) t { t with
      state := .completed, completedPayload := some resultJson, cancelAtMs := none }
  | rollingBack {call : Call} {t : Task} {r : Run} {passId : String} {state : TaskState}
    (live : t.state.Live) (run : r ∈ db.runs) (owned : runOwnedByTask r t)
    (running : r.state = .running) (places : call.Places .rollbackPass) (queued : state.Queued)
    (next : call.nextRunId = some passId) : Task.Move call t { t with
      attempts := r.attempt - t.infraRetries
      maxAttempts := r.attempt - t.infraRetries + 1
      state
      lastAttemptRun := some passId }
  | retrying {failure : Failure} {t : Task} {r : Run} {state : TaskState} (live : t.state.Live)
    (run : r ∈ db.runs) (owned : runOwnedByTask r t) (guard : failGuard db now failure r)
    (queued : state.Queued) :
    Task.Move (.failInto failure) t { t with
      attempts := r.attempt - t.infraRetries
      state
      lastAttemptRun := some failure.passId }
  | failed {call : Call} {t t₀ : Task} {r : Run} {attempts : ℤ} {reason : String}
    (live : t.state.Live) (run : r ∈ db.runs) (owned : runOwnedByTask r t)
    (running : r.state = .running) (ends : call.failureReason = some reason) (task : t₀ ∈ db.tasks)
    (same : t₀.taskId = t.taskId) (last : t.lastAttemptRun = t₀.lastAttemptRun) :
    Task.Move call t { t with attempts, state := .failed, failureReason := some reason }
  | infraRetried {swept : Swept} {t : Task} {r : Run} (live : t.state.Live) (run : r ∈ db.runs)
    (owned : runOwnedByTask r t) (running : r.state = .running) :
    Task.Move (.sweepClaimTimeout swept) t { t with
      infraRetries := r.attempt - t.attempts
      state := .pending
      lastAttemptRun := some swept.passId }
  | cancelled {c : Cancellation} {t : Task} (guard : cancelGuard db now c t) :
    Task.Move (.cancelTransition c) t { t with
      state := .cancelled
      cancelledAtMs := some now
      cancelAtMs := none
      failureReason := some REASON_CANCELLED }
  | revived {call : RetryCall} {t : Task} (guard : reviveGuard db call t) :
    Task.Move (.retryTask call) t (revivedTask db seed call now t)

/-- One statement of a batch, on a task: what it makes of the row, under its stamp. -/
def Task.Turn (call : Call) (t t' : Task) : Prop :=
  ∃ u name at', Task.Move seed now db call t u ∧ t' = u.stampedAt ⟨seed, name⟩ at'

/-- The task as the batch leaves it. -/
def Task.Moved (call : Call) : Task → Task → Prop :=
  Relation.ReflTransGen (Task.Turn seed now db call)

/-- The task a spawn adds. -/
inductive Task.Born : Call → Task → Prop
  | spawned {call : SpawnCall} (guard : spawnGuard db now call) :
    Task.Born (.spawn call) (call.task seed now)

/-! ## Waits, events and checkpoints -/

/-- A wait a batch adds. -/
inductive Wait.Born : Call → Wait → Prop
  | registered {call : AwaitCall} (guard : registerGuard db now call) :
    Wait.Born (.awaitEvent call) (call.wait seed now)

/-- The batch moved the run that was parked on the wait, and the wait went with the park. -/
def Wait.Reaped (call : Call) (w : Wait) : Prop :=
  ∃ r ∈ db.runs, ∃ r' ∈ db'.runs, ParkedOn r w ∧ Run.Move seed now db db' call r r'

/-- The same event, by everything but its stamp. -/
structure Event.Kept (e e' : Event) : Prop where
  queue : e'.queue = e.queue
  eventName : e'.eventName = e.eventName
  payload : e'.payload = e.payload
  emittedAtMs : e'.emittedAtMs = e.emittedAtMs

/-- The outcome a task ended with. -/
def Task.outcome (t : Task) : Option TaskOutcome :=
  match t.state with
  | .completed => t.completedPayload.map .completed
  | .failed => t.failureReason.map .failed
  | .cancelled => t.failureReason.map .cancelled
  | .pending | .running | .sleeping => none

/-- An event a batch records. -/
inductive Event.Born : Call → Event → Prop
  | emitted {call : EmitCall} : Event.Born (.emitEvent call) (call.event seed now)
  | ended {call : Call} {t : Task} {outcome : TaskOutcome} {e : Event} (task : t ∈ db'.tasks)
    (ends : t.outcome = some outcome) (queue : e.queue = t.queue)
    (name : e.eventName = taskDoneEventName t.taskId) (payload : e.payload = encodeTaskOutcome outcome) :
    Event.Born call e

/-- A batch writes a checkpoint for a run of its own. -/
inductive Checkpoint.Write : Call → Run → CheckpointWrite → Prop
  | suspended {held : WorkerClaim} {wake : WakeSpec} {checkpoint : CheckpointWrite} {r : Run}
    (run : r ∈ db.runs) (guard : suspendRunGuard db now held wake checkpoint r) :
    Checkpoint.Write (.suspendRun held wake checkpoint) r checkpoint
  | leased {held : WorkerClaim} {taskId : String} {checkpoint : CheckpointWrite} {extendMs : ℤ}
    {r : Run} (run : r ∈ db.runs)
    (guard : checkpointLeaseGuard db now held taskId checkpoint.key extendMs r) :
    Checkpoint.Write (.setCheckpoint held taskId checkpoint extendMs) r checkpoint
  | tried {failure : Failure} {rollback : RollbackFailure} {r : Run} (run : r ∈ db.runs)
    (guard : failGuard db now failure r) (failed : failure.rollback = some rollback) :
    Checkpoint.Write (.failInto failure) r rollback.tried
  | entered {call : Call} {p : Run} {reason : String} (run : p ∈ db'.runs)
    (born : Run.Born seed now db call p) (places : call.Places .rollbackPass)
    (began : ¬ sagaBegan db p.taskId) :
    Checkpoint.Write call p ⟨SAGA_PHASE_CHECKPOINT, reason⟩

/-- The checkpoint as the batch leaves it. -/
def Checkpoint.Moved (call : Call) (c c' : Checkpoint) : Prop :=
  c' = c ∨ ∃ f write, Checkpoint.Write seed now db db' call f write ∧ WrittenBy f write c' ∧
    c.taskId = f.taskId ∧ c.checkpointName = write.key ∧ c.ownerAttempt ≤ f.attempt ∧
    c'.queue = c.queue

/-- A checkpoint a batch adds. -/
def Checkpoint.Born (call : Call) (c : Checkpoint) : Prop :=
  ∃ f write, Checkpoint.Write seed now db db' call f write ∧ WrittenBy f write c ∧ c.queue = f.queue

/-! ## The whole -/

/-- What a batch makes of the tables. -/
structure Effect (call : Call) : Prop where
  runs : Table.Moves (Run.Moved seed now db db' call) (Run.Born seed now db call) db.runs db'.runs
  tasks : Table.Moves (Task.Moved seed now db call) (Task.Born seed now db call) db.tasks db'.tasks
  waits : ∀ w ∈ db'.waits, w ∈ db.waits ∨ Wait.Born seed now db call w
  reaped : ∀ w ∈ db.waits, w ∈ db'.waits ∨ Wait.Reaped seed now db db' call w
  events : Table.Moves Event.Kept (Event.Born seed now db' call) db.events db'.events
  checkpoints : Table.Moves (Checkpoint.Moved seed now db db' call)
    (Checkpoint.Born seed now db db' call) db.checkpoints db'.checkpoints

end Moves

/-! ## Batches of a seed of their own -/

/-- No run and no task carries a stamp of the seed. -/
structure Unused (db : Db) (seed : String) : Prop where
  runs : Unstamped db seed
  tasks : ∀ t ∈ db.tasks, ∀ stamp ∈ t.fenceStamp, stamp.seed ≠ seed

variable {seed σ : String} {now : ℤ} {db db' : Db} {call : Call}

/-- A move keeps what identifies the run. -/
theorem Run.Move.same {r r' : Run} (h : Run.Move seed now db db' call r r') : r.Same r' := by
  cases h with
  | claimed | activated | extended | deferred | rescheduled | suspended | leased | awaited
  | completed | failed | reopened | capped | timedOut | cancelled | expired | woken =>
    exact ⟨rfl, rfl, rfl, rfl⟩

/-- A run a batch changed carries its stamp, or the stamp it had. -/
theorem Run.Move.stamp {r r' : Run} (h : Run.Move seed now db db' call r r') :
    r'.fenceStamp = r.fenceStamp ∨ ∃ name, r'.fenceStamp = some ⟨seed, name⟩ := by
  cases h with
  | expired => exact Or.inl rfl
  | claimed | activated | extended | deferred | rescheduled | suspended | leased | awaited
  | completed | failed | reopened | capped | timedOut | cancelled | woken => exact Or.inr ⟨_, rfl⟩

/-- A run that a batch placed bears a stamp of its seed. -/
theorem Run.Born.stamp {r : Run} (h : Run.Born seed now db call r) :
    ∃ name, r.fenceStamp = some ⟨seed, name⟩ := by
  cases h with
  | first | followed | revived => exact ⟨_, rfl⟩

/-- A task a batch changed carries its stamp. -/
theorem Task.Moved.stamp {t t' : Task} (h : Task.Moved seed now db call t t') :
    t'.fenceStamp = t.fenceStamp ∨ ∃ name, t'.fenceStamp = some ⟨seed, name⟩ := by
  induction h with
  | refl => exact Or.inl rfl
  | tail _ hturn _ =>
    obtain ⟨u, name, at', _, rfl⟩ := hturn
    exact Or.inr ⟨name, rfl⟩

/-- A batch leaves no stamp but its own. -/
theorem Effect.unused (h : Effect seed now db db' call) (hne : σ ≠ seed) (hu : Unused db σ) :
    Unused db' σ := by
  refine ⟨fun r' hr' stamp hs => ?_, fun t' ht' stamp hs => ?_⟩
  · have hown : ∀ name, r'.fenceStamp = some ⟨seed, name⟩ → stamp.seed ≠ σ := by
      intro name hn
      obtain rfl := Option.some.inj (hn.symm.trans hs)
      exact hne.symm
    obtain ⟨r, hr, rfl | hm⟩ | hborn := h.runs.before r' hr'
    · exact hu.runs _ hr stamp hs
    · obtain hsame | ⟨name, hn⟩ := hm.stamp
      · exact hu.runs r hr stamp (hsame ▸ hs)
      · exact hown name hn
    · obtain ⟨name, hn⟩ := hborn.stamp
      exact hown name hn
  · have hown : ∀ name, t'.fenceStamp = some ⟨seed, name⟩ → stamp.seed ≠ σ := by
      intro name hn
      obtain rfl := Option.some.inj (hn.symm.trans hs)
      exact hne.symm
    obtain ⟨t, ht, hm⟩ | hborn := h.tasks.before t' ht'
    · obtain hsame | ⟨name, hn⟩ := hm.stamp
      · exact hu.tasks t ht stamp (hsame ▸ hs)
      · exact hown name hn
    · cases hborn with
      | spawned => exact hown _ rfl

end Durablerun
