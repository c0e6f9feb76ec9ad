import Durablerun.Store.EventsTheorems
import Durablerun.Store.SpawnTheorems
import Durablerun.Store.SweepTheorems
import Durablerun.Store.System

/-!
# Runs of the store

Every state a run of the store reaches keeps the invariant. A batch delivered once meets no stamp of
its own. A batch delivered again meets what it left and what came after: `Frame` says that what came
after undid none of it, `Left` says what that is, and `Spares` says when the second delivery ends no
task that lives.

Reference: `packages/store-libsql/src/store.ts`.
-/

namespace Durablerun

open Relational

variable {db db' : Db} {seed queue : String} {now : ℤ} {out : Outcome}

/-! ## What each batch leaves standing -/

/-- What a whole batch leaves standing. -/
abbrev Framed (seed : String) (db db' : Db) : Prop := Frame seed (fun _ => True) db db'

/-- An update of live runs that takes the batch's stamp. -/
theorem Framed.updateRuns {p : Run → Prop} [DecidablePred p] {f : Table.Change Run.keys}
    {name : Statement} (hp : ∀ r ∈ db.runs, p r → r.state.Live)
    (hf : ∀ r, r.Same (f r) ∧ (f r).fenceStamp = some ⟨seed, name⟩) :
    Framed seed db { db with runs := db.runs.update p f } :=
  Frame.updateRuns hp fun r => ⟨(hf r).1, name, trivial, (hf r).2⟩

/-- A claim changes only what it stamps. -/
theorem claim_framed (call : ClaimCall) : Framed seed db (claim seed call now db).db :=
  ((Framed.updateRuns (fun _ hr hg => (claimGuard.candidate hg hr).2.live)
    fun _ => ⟨⟨rfl, rfl, rfl, rfl⟩, rfl⟩).trans (.runsToTasks fun _ => ⟨rfl, rfl⟩)).trans .runsToWaits

/-- An activation changes only what it stamps. -/
theorem activate_framed (receipt : ClaimReceipt) :
    Framed seed db (activate seed receipt now db).db :=
  (Framed.updateRuns (fun _ _ hg => by simp [hg.1.1.running])
    fun _ => ⟨⟨rfl, rfl, rfl, rfl⟩, rfl⟩).trans (.runsToTasks fun _ => ⟨rfl, rfl⟩)

/-- A heartbeat changes only what it stamps. -/
theorem heartbeat_framed (claim : WorkerClaim) (extensionMs : ℤ) :
    Framed seed db (heartbeat seed claim extensionMs now db).db :=
  .updateRuns (fun _ _ hg => by simp [hg.1.running]) fun _ => ⟨⟨rfl, rfl, rfl, rfl⟩, rfl⟩

/-- The end of a suspension changes only what it stamps. -/
theorem finishSuspension_framed {runId : String} :
    Framed seed db (finishSuspension db seed queue runId) :=
  (Frame.runsToTasks fun _ => ⟨rfl, rfl⟩).trans .runsToWaits

/-- A deferred launch changes only what it stamps. -/
theorem deferLaunch_framed (receipt : ClaimReceipt) (delayMs : ℤ) :
    Framed seed db (deferLaunch seed receipt delayMs now db).db :=
  (Framed.updateRuns (fun _ _ hg => by simp [hg.1.1.running])
    fun _ => ⟨⟨rfl, rfl, rfl, rfl⟩, rfl⟩).trans finishSuspension_framed

/-- A reschedule changes only what it stamps. -/
theorem reschedule_framed (claim : WorkerClaim) (wake : WakeSpec) :
    Framed seed db (reschedule seed claim wake now db).db :=
  (Framed.updateRuns (fun _ _ hg => by simp [hg.1.running])
    fun _ => ⟨⟨rfl, rfl, rfl, rfl⟩, rfl⟩).trans finishSuspension_framed

/-- A suspension changes only what it stamps. -/
theorem suspendRun_framed (claim : WorkerClaim) (wake : WakeSpec) (checkpoint : CheckpointWrite) :
    Framed seed db (suspendRun seed claim wake checkpoint now db).db :=
  ((Framed.updateRuns (fun _ _ hg => by simp [hg.1.running])
    fun _ => ⟨⟨rfl, rfl, rfl, rfl⟩, rfl⟩).trans .checkpointWrite).trans finishSuspension_framed

/-- A checkpoint changes only what it stamps. -/
theorem setCheckpoint_framed (claim : WorkerClaim) (taskId : String) (checkpoint : CheckpointWrite)
    (extendMs : ℤ) : Framed seed db (setCheckpoint seed claim taskId checkpoint extendMs now db).db :=
  (Framed.updateRuns (fun _ _ hg => by simp [hg.1.running])
    fun _ => ⟨⟨rfl, rfl, rfl, rfl⟩, rfl⟩).trans .checkpointWrite

/-- An await changes only what it stamps. -/
theorem awaitEvent_framed (call : AwaitCall) : Framed seed db (awaitEvent seed call now db).db := by
  have hregister : Framed seed db (registerWaitCas db seed call now) :=
    .of_tasks (fun t ht => ⟨t, by rwa [registerWaitCas_tasks], .refl t⟩) (registerWaitCas_runs call)
      (registerWaitCas_checkpoints call) (registerWaitCas_events call)
  have hpark : Framed seed (registerWaitCas db seed call now)
      (awaitPark (registerWaitCas db seed call now) seed call) :=
    .updateRuns (fun _ _ hg => by simp [hg.2.2.1.running]) fun _ => ⟨⟨rfl, rfl, rfl, rfl⟩, rfl⟩
  exact (hregister.trans hpark).trans (.runsToTasks fun _ => ⟨rfl, rfl⟩)

/-- A recorded completion changes only what it stamps. -/
theorem recordTaskDone_framed (call : RecordTaskDoneCall) :
    Framed seed db (recordTaskDone seed call now db).db := by
  unfold recordTaskDone
  split
  · exact .refl _
  · exact ⟨fun t ht => ⟨t, ht, .refl t⟩, .refl Run.Framed.refl _, fun _ _ h => h,
      fun _ _ ⟨e, he, h⟩ => ⟨e, Table.mem_insertIgnore.mpr (Or.inl he), h⟩⟩

/-- An emission changes only what it stamps. -/
theorem emitEvent_framed (call : EmitCall) : Framed seed db (emitEvent seed call now db).db := by
  have hcas : Framed seed db (emitEventCas db seed call now) :=
    ⟨fun t ht => ⟨t, ht, .refl t⟩, .refl Run.Framed.refl _, fun _ _ h => h,
      fun _ _ h => EventThere.emitEventCas h⟩
  exact hcas.trans (.wakeWaiters trivial trivial)

/-- The end of a task, with its completion event, changes only what it stamps. -/
theorem finish_framed {taskId payloadJson runId : String} {terminal fence : Statement} :
    Framed seed db
      (addTaskDone (waitsGone db seed runId fence) seed queue taskId terminal payloadJson) :=
  Frame.finish.mono fun _ _ => trivial

/-- A completion changes only what it stamps. -/
theorem complete_framed (claim : WorkerClaim) (taskId resultJson : String) :
    Framed seed db (complete seed claim taskId resultJson now db).db :=
  ((Framed.updateRuns (fun _ _ hg => by simp [hg.1.running])
    fun _ => ⟨⟨rfl, rfl, rfl, rfl⟩, rfl⟩).trans (.runsToTasks fun _ => ⟨rfl, rfl⟩)).trans finish_framed

/-- A failure changes only what it stamps. -/
theorem failInto_framed {failure : Failure} (hrun : failInto seed failure now db = some out) :
    Framed seed db out.db := by
  obtain ⟨passed, hpass, hrun⟩ := Option.bind_eq_some_iff.mp hrun
  obtain ⟨retried, hretry, hout⟩ := Option.bind_eq_some_iff.mp hrun
  obtain rfl := Option.some.inj hout
  have hcas : Framed seed db (failCas db seed failure now) :=
    .updateRuns (fun _ _ hg => by simp [hg.1.running]) fun _ => ⟨⟨rfl, rfl, rfl, rfl⟩, rfl⟩
  have htried : Framed seed (failCas db seed failure now)
      (rollbackTries (failCas db seed failure now) seed failure) := by
    unfold rollbackTries
    split
    · exact .refl _
    · exact .checkpointWrite
  exact (hcas.trans htried).trans ((failRest_frame hpass hretry).mono fun _ _ => trivial)

/-- The sweep of a lost launch changes only what it stamps. -/
theorem sweepLostLaunch_framed {swept : Swept}
    (hrun : sweepLostLaunch seed swept now db = some out) : Framed seed db out.db := by
  obtain ⟨passed, hpass, hout⟩ := Option.bind_eq_some_iff.mp hrun
  obtain rfl := Option.some.inj hout
  have hreopen : Framed seed db (reopenLostLaunchCas db seed swept now) :=
    .updateRuns (fun _ _ hg => by simp [hg.1.2.2.1]) fun _ => ⟨⟨rfl, rfl, rfl, rfl⟩, rfl⟩
  have hcap : Framed seed (reopenLostLaunchCas db seed swept now)
      (capLostLaunchCas (reopenLostLaunchCas db seed swept now) seed swept now) :=
    .updateRuns (fun _ _ hg => by simp [hg.1.2.2.1]) fun _ => ⟨⟨rfl, rfl, rfl, rfl⟩, rfl⟩
  exact ((hreopen.trans hcap).trans (.sagaPass trivial hpass)).trans
    (((Frame.runsToTasks fun _ => ⟨rfl, rfl⟩).trans (.runsToTasks fun _ => ⟨rfl, rfl⟩)).trans
      finish_framed)

/-- The sweep of a timeout changes only what it stamps. -/
theorem sweepClaimTimeout_framed {swept : Swept}
    (hrun : sweepClaimTimeout seed swept now db = some out) : Framed seed db out.db := by
  obtain ⟨placed, hsucc, hrun⟩ := Option.bind_eq_some_iff.mp hrun
  obtain ⟨passed, hpass, hout⟩ := Option.bind_eq_some_iff.mp hrun
  obtain rfl := Option.some.inj hout
  have hcas : Framed seed db (failClaimTimeoutCas db seed swept now) :=
    .updateRuns (fun _ _ hg => by simp [hg.1.2.2.1]) fun _ => ⟨⟨rfl, rfl, rfl, rfl⟩, rfl⟩
  exact ((hcas.trans (.failureSuccessor trivial hsucc)).trans (.sagaPass trivial hpass)).trans
    (((Frame.runsToTasks fun _ => ⟨rfl, rfl⟩).trans (.runsToTasks fun _ => ⟨rfl, rfl⟩)).trans
      finish_framed)

/-- A cancellation changes only what it stamps. -/
theorem cancelTransition_framed (c : Cancellation) :
    Framed seed db (cancelTransition seed c now db).db := by
  have hcas : Framed seed db (cancelCas db seed c now) := .updateTasks fun _ => ⟨rfl, rfl⟩
  have hruns : Framed seed (cancelCas db seed c now) (cancelRuns (cancelCas db seed c now) seed c) :=
    .updateRuns (fun _ _ hg => hg.2.2.2) fun _ => ⟨⟨rfl, rfl, rfl, rfl⟩, rfl⟩
  exact ((hcas.trans hruns).trans .runsToWaits).trans
    (.addTaskDone trivial trivial)

/-- A spawn changes only what it stamps. -/
theorem spawn_framed {call : SpawnCall} (hrun : spawn seed call now db = some out) :
    Framed seed db out.db := by
  obtain ⟨db', hdb', hout⟩ := Option.bind_eq_some_iff.mp hrun
  obtain rfl := Option.some.inj hout
  have hcas : Framed seed db (spawnTaskCas db seed call now) := by
    unfold spawnTaskCas
    split
    · exact .of_tasks (fun t ht => ⟨t, Table.mem_insertIgnore.mpr (Or.inl ht), .refl t⟩) rfl rfl rfl
    · exact .refl _
  refine hcas.trans ?_
  unfold spawnRun at hdb'
  split at hdb'
  · obtain rfl := Option.some.inj hdb'
    exact .refl _
  · split at hdb'
    · obtain ⟨runs, hins, rfl⟩ := Option.map_eq_some_iff.mp hdb'
      exact .insertRun (Table.insert?_eq_some hins).2 ⟨.run, trivial, rfl⟩
    · obtain rfl := Option.some.inj hdb'
      exact .refl _

/-- A retry changes only what it stamps. -/
theorem retryTask_framed {call : RetryCall} (hrun : retryTask seed call now db = some out) :
    Framed seed db out.db := by
  obtain ⟨db', hdb', hout⟩ := Option.bind_eq_some_iff.mp hrun
  obtain rfl := Option.some.inj hout
  have hcas : Framed seed db (reviveCas db seed call now) := .updateTasks fun _ => ⟨rfl, rfl⟩
  refine hcas.trans ?_
  unfold revivalRunInsert at hdb'
  split at hdb'
  · obtain rfl := Option.some.inj hdb'
    exact .refl _
  · split at hdb'
    · obtain rfl := Option.some.inj hdb'
      exact .refl _
    · obtain ⟨runs, hins, rfl⟩ := Option.map_eq_some_iff.mp hdb'
      exact .insertRun (Table.insert?_eq_some hins).2 ⟨.run, trivial, rfl⟩

/-- Ending a lease at once changes only what it stamps. -/
theorem expireLeaseNow_framed (claim : WorkerClaim) :
    Framed seed db (expireLeaseNow claim now db).db := by
  refine ⟨fun t ht => ⟨t, ht, .refl t⟩, (Table.Rel.update (fun r hr hg => ?_)
    fun r _ _ => Run.Framed.refl r).moves _, fun _ _ h => h, fun _ _ h => h⟩
  exact ⟨⟨rfl, rfl, rfl, rfl⟩, fun hl => absurd (by simp [hg.1.running]) hl, Or.inl ⟨rfl, rfl⟩⟩

/-- Every batch leaves standing what no batch undoes. -/
theorem Batch.framed {b : Batch} (hrun : b.run now db = some out) : Framed b.seed db out.db := by
  obtain ⟨seed, call⟩ := b
  cases call with
  | spawn call => exact spawn_framed hrun
  | claim call => exact Option.some.inj hrun ▸ claim_framed call
  | activate receipt => exact Option.some.inj hrun ▸ activate_framed receipt
  | heartbeat claim ms => exact Option.some.inj hrun ▸ heartbeat_framed claim ms
  | deferLaunch receipt ms => exact Option.some.inj hrun ▸ deferLaunch_framed receipt ms
  | reschedule claim wake => exact Option.some.inj hrun ▸ reschedule_framed claim wake
  | suspendRun claim wake c => exact Option.some.inj hrun ▸ suspendRun_framed claim wake c
  | awaitEvent call => exact Option.some.inj hrun ▸ awaitEvent_framed call
  | recordTaskDone call => exact Option.some.inj hrun ▸ recordTaskDone_framed call
  | emitEvent call => exact Option.some.inj hrun ▸ emitEvent_framed call
  | setCheckpoint claim id c ms => exact Option.some.inj hrun ▸ setCheckpoint_framed claim id c ms
  | complete claim id result => exact Option.some.inj hrun ▸ complete_framed claim id result
  | failInto failure => exact failInto_framed hrun
  | sweepLostLaunch swept => exact sweepLostLaunch_framed hrun
  | sweepClaimTimeout swept => exact sweepClaimTimeout_framed hrun
  | cancelTransition c => exact Option.some.inj hrun ▸ cancelTransition_framed c
  | retryTask call => exact retryTask_framed hrun
  | expireLeaseNow claim => exact Option.some.inj hrun ▸ expireLeaseNow_framed claim

/-! ## What a batch leaves to its own second delivery -/

/-- What a delivered batch left, as far as a second delivery of it goes by it. -/
def Batch.Left (b : Batch) (db : Db) : Prop :=
  match b.call with
  | .suspendRun held _ checkpoint => Rewrites db b.seed held.runId .suspend checkpoint.key
  | .setCheckpoint held _ checkpoint _ => Rewrites db b.seed held.runId .lease checkpoint.key
  | .failInto failure => failure.Left db b.seed
  | .sweepLostLaunch swept => Placed db b.seed swept.runId swept.passId .cap
  | .sweepClaimTimeout swept => swept.LeftClaimTimeout db b.seed
  | _ => True

/-- Delivered again, the batch ends no task that lives. -/
def Batch.Spares (b : Batch) (db : Db) : Prop :=
  match b.call with
  | .failInto failure => failure.Spares db b.seed
  | .sweepLostLaunch swept => swept.SparesLostLaunch db b.seed
  | .sweepClaimTimeout swept => swept.SparesClaimTimeout db b.seed
  | _ => True

instance (b : Batch) (db : Db) : Decidable (b.Spares db) := by
  unfold Batch.Spares
  split <;> infer_instance

/-- No run carries a stamp of the seed. -/
def Unstamped (db : Db) (seed : String) : Prop :=
  ∀ r ∈ db.runs, ∀ stamp ∈ r.fenceStamp, stamp.seed ≠ seed

/-- A batch whose stamps are nowhere has left nothing. -/
theorem Batch.left_of_unstamped {b : Batch} (h : Unstamped db b.seed) : b.Left db := by
  have hrewrites : ∀ runId fence key, Rewrites db b.seed runId fence key := fun _ _ _ => .of_fresh h
  have hplaced : ∀ runId passId fence, Placed db b.seed runId passId fence :=
    fun _ _ _ p hp _ _ _ hs => absurd rfl (h p hp _ hs)
  unfold Batch.Left
  split
  · exact hrewrites _ _ _
  · exact hrewrites _ _ _
  · exact ⟨hplaced _ _ _, fun _ _ => hrewrites _ _ _⟩
  · exact hplaced _ _ _
  · exact ⟨hplaced _ _ _, fun p hp _ hs => absurd rfl (h p hp _ hs)⟩
  · trivial

/-- A batch whose stamps are nowhere spares every task. -/
theorem Batch.spares_of_unstamped {b : Batch} (h : Unstamped db b.seed) : b.Spares db := by
  unfold Batch.Spares
  split
  · exact fun r hr _ hs => absurd rfl (h r hr _ hs)
  · exact fun r hr _ hs => absurd rfl (h r hr _ hs)
  · exact fun r hr _ hs => absurd rfl (h r hr _ hs)
  · trivial

/-- Another batch undoes nothing of what a batch left. -/
theorem Batch.Left.framed {b : Batch} (h : b.Left db) (hstamped : Stamped db) {other : String}
    (hne : b.seed ≠ other) (hframe : Framed other db db') : b.Left db' := by
  have hother : ∀ n, True → ∀ name : Statement, (⟨b.seed, name⟩ : Stamp) ≠ ⟨other, n⟩ :=
    fun n _ name he => hne (congrArg Stamp.seed he)
  obtain ⟨seed, call⟩ := b
  cases call with
  | suspendRun => exact Rewrites.frame h hframe fun n hn => hother n hn _
  | setCheckpoint => exact Rewrites.frame h hframe fun n hn => hother n hn _
  | failInto failure =>
    obtain ⟨hplaced, hrewrites⟩ := h
    exact ⟨hplaced.frame hstamped fails_fail hframe fun n hn name _ => hother n hn name,
      fun rollback hrb => (hrewrites rollback hrb).frame hframe fun n hn => hother n hn _⟩
  | sweepLostLaunch =>
    exact Placed.frame h hstamped fails_cap hframe fun n hn name _ => hother n hn name
  | sweepClaimTimeout =>
    obtain ⟨hplaced, hpending⟩ := h
    exact ⟨hplaced.frame hstamped fails_fail hframe fun n hn name _ => hother n hn name,
      hpending.frame hframe fun n hn => hother n hn _⟩
  | spawn | claim | activate | heartbeat | deferLaunch | reschedule | awaitEvent | recordTaskDone
  | emitEvent | complete | cancelTransition | retryTask | expireLeaseNow => trivial

/-- A suspension that took its run stored its checkpoint. -/
theorem suspendRun_left (h : Inv db) (held : WorkerClaim) (wake : WakeSpec)
    (checkpoint : CheckpointWrite) : Rewrites (suspendRun seed held wake checkpoint now db).db seed
      held.runId .suspend checkpoint.key := by
  have hbound : ∀ r ∈ (suspendCas db seed wake now (suspendRunGuard db now held wake
      checkpoint)).runs, attemptBounds.Within r.attempt := by
    intro r hr
    obtain ⟨r₀, hr₀, _, rfl⟩ | ⟨hr, _⟩ := Table.update_cases hr
    · exact show attemptBounds.Within r₀.attempt from h.toUnits.attempt_within hr₀
    · exact h.toUnits.attempt_within hr
  exact Rewrites.checkpointWrite hbound

/-- A checkpoint that took its run's lease was stored. -/
theorem setCheckpoint_left (h : Inv db) (held : WorkerClaim) (taskId : String)
    (checkpoint : CheckpointWrite) (extendMs : ℤ) :
    Rewrites (setCheckpoint seed held taskId checkpoint extendMs now db).db seed held.runId .lease
      checkpoint.key := by
  have hbound : ∀ r ∈ (checkpointLeaseCas db seed held taskId checkpoint.key extendMs now).runs,
      attemptBounds.Within r.attempt := by
    intro r hr
    obtain ⟨r₀, hr₀, _, rfl⟩ | ⟨hr, _⟩ := Table.update_cases hr
    · exact show attemptBounds.Within r₀.attempt from h.toUnits.attempt_within hr₀
    · exact h.toUnits.attempt_within hr
  exact Rewrites.checkpointWrite hbound

/-! ## One delivery -/

/-- The run, wherever it is, is the task's. -/
def Answered (db : Db) (runId taskId : String) : Prop :=
  ∀ r ∈ db.runs, r.runId = runId → r.taskId = taskId

/-- What a batch relies on when it is delivered: the answers its caller was given still hold. -/
def Call.Sound (db : Db) : Call → Prop
  | .spawn call => call.Admitted
  | .awaitEvent call => call.Admitted
  | .recordTaskDone call => ∀ c ∈ db.tasks, c.taskId = call.childTaskId →
      EventThere db c.queue (taskDoneEventName call.childTaskId)
  | .complete held taskId _ => Answered db held.runId taskId
  | .failInto failure => failure.Admitted ∧ Answered db failure.claim.runId failure.taskId
  | .sweepLostLaunch swept | .sweepClaimTimeout swept => Answered db swept.runId swept.taskId
  | _ => True

/-- A batch keeps the invariant where it spares every live task. -/
theorem Batch.run_inv {b : Batch} (hsound : b.call.Sound db) (h : Inv db) (hleft : b.Left db)
    (hspares : b.Spares db) (hrun : b.run now db = some out) : Inv out.db ∧ b.Left out.db := by
  obtain ⟨seed, call⟩ := b
  cases call with
  | spawn call => exact ⟨spawn_inv hsound h hrun, trivial⟩
  | claim call => exact Option.some.inj hrun ▸ ⟨claim_inv call h, trivial⟩
  | activate receipt => exact Option.some.inj hrun ▸ ⟨activate_inv receipt h, trivial⟩
  | heartbeat held ms => exact Option.some.inj hrun ▸ ⟨heartbeat_inv held ms h, trivial⟩
  | deferLaunch receipt ms => exact Option.some.inj hrun ▸ ⟨deferLaunch_inv receipt ms h, trivial⟩
  | reschedule held wake => exact Option.some.inj hrun ▸ ⟨reschedule_inv held wake h, trivial⟩
  | suspendRun held wake c =>
    exact Option.some.inj hrun ▸ ⟨suspendRun_inv held wake c h hleft, suspendRun_left h held wake c⟩
  | awaitEvent call => exact Option.some.inj hrun ▸ ⟨awaitEvent_inv hsound h, trivial⟩
  | recordTaskDone call =>
    obtain rfl := Option.some.inj hrun
    refine ⟨?_, trivial⟩
    rw [recordTaskDone_eq call hsound]
    exact h
  | emitEvent call => exact Option.some.inj hrun ▸ ⟨emitEvent_inv call h, trivial⟩
  | setCheckpoint held id c ms =>
    exact Option.some.inj hrun ▸
      ⟨setCheckpoint_inv held id c ms h hleft, setCheckpoint_left h held id c ms⟩
  | complete held id result =>
    exact Option.some.inj hrun ▸ ⟨complete_inv h fun r hr hid _ => hsound r hr hid, trivial⟩
  | failInto failure =>
    exact failInto_inv hsound.1 h (fun r hr hid _ => hsound.2 r hr hid) hleft hspares hrun
  | sweepLostLaunch swept =>
    exact sweepLostLaunch_inv h (fun r hr hid _ => hsound r hr hid) hleft hspares hrun
  | sweepClaimTimeout swept =>
    exact sweepClaimTimeout_inv h (fun r hr hid _ => hsound r hr hid) hleft hspares hrun
  | cancelTransition c => exact Option.some.inj hrun ▸ ⟨cancelTransition_inv c h, trivial⟩
  | retryTask call => exact ⟨retryTask_inv h hrun, trivial⟩
  | expireLeaseNow held => exact Option.some.inj hrun ▸ ⟨expireLeaseNow_inv held h, trivial⟩

/-! ## Runs -/

/-- What of an earlier database is still there: its tasks, its runs, those that ended as they were,
and its events. -/
structure Db.Past (d db : Db) : Prop where
  tasks : ∀ t ∈ d.tasks, ∃ t' ∈ db.tasks, t.Same t'
  runs : ∀ r ∈ d.runs, ∃ r' ∈ db.runs, r.Same r'
  ended : ∀ r ∈ d.runs, ¬ r.state.Live → r ∈ db.runs
  events : ∀ q n, EventThere d q n → EventThere db q n

/-- A database is its own past. -/
theorem Db.Past.refl (db : Db) : db.Past db :=
  ⟨fun t ht => ⟨t, ht, .refl t⟩, fun r hr => ⟨r, hr, .refl r⟩, fun _ hr _ => hr, fun _ _ h => h⟩

/-- A past stays one through a batch. -/
theorem Db.Past.framed {d : Db} (h : d.Past db) (hframe : Framed seed db db') : d.Past db' := by
  refine ⟨fun t ht => ?_, fun r hr => ?_, fun r hr hl => hframe.mem_ended (h.ended r hr hl) hl,
    fun q n he => hframe.events q n (h.events q n he)⟩
  · obtain ⟨t', ht', hsame⟩ := h.tasks t ht
    obtain ⟨t'', ht'', hsame'⟩ := hframe.tasks t' ht'
    exact ⟨t'', ht'', hsame.trans hsame'⟩
  · obtain ⟨r', hr', hsame⟩ := h.runs r hr
    obtain ⟨r'', hr'', hf⟩ := hframe.runs.after r' hr'
    exact ⟨r'', hr'', hsame.trans hf.toSame⟩

/-- What was read of a run's task is so. -/
theorem RunRead.answered {seen : Db → Prop} {runId taskId : String} (h : RunRead seen runId taskId)
    (hpast : ∀ d, seen d → d.Past db) : Answered db runId taskId := by
  obtain ⟨d, hd, r, hr, hid, htask⟩ := h
  intro r' hr' hid'
  obtain ⟨r'', hr'', hsame⟩ := (hpast d hd).runs r hr
  rw [db.run_unique hr' hr'' (hid'.trans (hid.symm.trans hsame.runId.symm)), hsame.taskId, htask]

/-- What a caller was let to send is sound whenever it is delivered. -/
theorem Call.Admitted.sound {seen : Db → Prop} {call : Call} (h : call.Admitted seen)
    (hinv : ∀ d, seen d → Inv d) (hpast : ∀ d, seen d → d.Past db) : call.Sound db := by
  cases call with
  | spawn call => exact h
  | awaitEvent call => exact h
  | recordTaskDone call =>
    obtain ⟨d, hd, c, hc, hid, _, _, hl⟩ := h
    intro c' hc' hid'
    obtain ⟨c'', hc'', hsame⟩ := (hpast d hd).tasks c hc
    rw [db.task_unique hc' hc'' (hid'.trans (hid.symm.trans hsame.taskId.symm)), hsame.queue, ← hid]
    exact (hpast d hd).events _ _ ((hinv d hd).recorded c hc hl)
  | complete held taskId _ => exact RunRead.answered h hpast
  | failInto failure => exact ⟨h.1, h.2.answered hpast⟩
  | sweepLostLaunch swept => exact RunRead.answered h hpast
  | sweepClaimTimeout swept => exact RunRead.answered h hpast
  | claim | activate | heartbeat | deferLaunch | reschedule | suspendRun | emitEvent | setCheckpoint
  | cancelTransition | retryTask | expireLeaseNow => trivial

/-- A run that was read stays so as more is seen. -/
theorem RunRead.mono {seen seen' : Db → Prop} {runId taskId : String}
    (h : RunRead seen runId taskId) (hseen : ∀ d, seen d → seen' d) : RunRead seen' runId taskId := by
  obtain ⟨d, hd, hr⟩ := h
  exact ⟨d, hseen d hd, hr⟩

/-- A call that was admitted stays so as more is seen. -/
theorem Call.Admitted.mono {seen seen' : Db → Prop} {call : Call} (h : call.Admitted seen)
    (hseen : ∀ d, seen d → seen' d) : call.Admitted seen' := by
  cases call with
  | recordTaskDone call =>
    obtain ⟨d, hd, hc⟩ := h
    exact ⟨d, hseen d hd, hc⟩
  | complete held taskId _ => exact RunRead.mono h hseen
  | failInto failure => exact ⟨h.1, h.2.mono hseen⟩
  | sweepLostLaunch swept => exact RunRead.mono h hseen
  | sweepClaimTimeout swept => exact RunRead.mono h hseen
  | spawn | awaitEvent | claim | activate | heartbeat | deferLaunch | reschedule | suspendRun
  | emitEvent | setCheckpoint | cancelTransition | retryTask | expireLeaseNow => exact h

/-- What holds of a system in every state a run reaches. -/
structure Trace (s : Sys) : Prop where
  inv : Inv s.db
  /-- Every database the store had kept the invariant, and is still there. -/
  seen : ∀ d, s.Seen d → Inv d ∧ d.Past s.db
  /-- Every stamp is of a batch that was delivered. -/
  stamps : ∀ seed, s.Fresh seed → Unstamped s.db seed
  /-- No two batches share a seed. -/
  unique : ∀ e ∈ s.history, ∀ e' ∈ s.history, e.batch.seed = e'.batch.seed → e.batch = e'.batch
  /-- Every delivered batch was admitted, and what it left is there. -/
  delivered : ∀ e ∈ s.history, e.batch.call.Admitted s.Seen ∧ e.batch.Left s.db
  /-- Every delivery left the database its batch makes. -/
  after : ∀ e ∈ s.history, e.after = e.batch.after e.now e.before ∧ s.Seen e.after

/-- What a system that starts has seen and delivered. -/
theorem Trace.init : Trace .init where
  inv := .empty
  seen := by
    rintro d (rfl | ⟨e, he, _⟩)
    · exact ⟨.empty, .refl _⟩
    · cases he
  stamps := fun _ _ r hr => absurd hr (Table.not_mem_empty r)
  unique := fun e he => by cases he
  delivered := fun e he => by cases he
  after := fun e he => by cases he

/-- A batch aborts and leaves the database it met, or leaves the one its statements make. -/
theorem Batch.after_cases (b : Batch) (now : ℤ) (db : Db) :
    b.after now db = db ∨ ∃ out, b.run now db = some out ∧ b.after now db = out.db := by
  unfold Batch.after
  cases h : b.run now db with
  | none => exact Or.inl rfl
  | some out => exact Or.inr ⟨out, rfl, rfl⟩

/-- A batch changes only what it stamps. -/
theorem Batch.after_framed (b : Batch) (now : ℤ) (db : Db) : Framed b.seed db (b.after now db) := by
  obtain h | ⟨out, hrun, h⟩ := b.after_cases now db
  · rw [h]
    exact .refl db
  · rw [h]
    exact Batch.framed hrun

variable {s : Sys} {b : Batch}

/-- An admitted call is sound in the state it finds. -/
theorem Trace.sound (h : Trace s) (hadm : b.call.Admitted s.Seen) : b.call.Sound s.db :=
  hadm.sound (fun d hd => (h.seen d hd).1) fun d hd => (h.seen d hd).2

/-- A delivery of a batch that spares every live task keeps the invariant. -/
theorem Trace.after_inv (h : Trace s) (hadm : b.call.Admitted s.Seen) (hleft : b.Left s.db)
    (hspares : b.Spares s.db) : Inv (b.after now s.db) ∧ b.Left (b.after now s.db) := by
  obtain he | ⟨out, hrun, he⟩ := b.after_cases now s.db
  · rw [he]
    exact ⟨h.inv, hleft⟩
  · rw [he]
    exact Batch.run_inv (h.sound hadm) h.inv hleft hspares hrun

/-- A state that was seen stays so. -/
theorem Sys.Seen.deliver {d : Db} (h : s.Seen d) : (s.deliver b now).Seen d := by
  rcases h with rfl | ⟨e, he, hd⟩
  · exact Or.inr ⟨_, List.mem_cons_self, rfl⟩
  · exact Or.inr ⟨e, List.mem_cons_of_mem _ he, hd⟩

/-- A delivery keeps what holds of every state a run reaches. -/
theorem Trace.deliver (h : Trace s) (hadm : b.call.Admitted s.Seen) (hleft : b.Left s.db)
    (hspares : b.Spares s.db)
    (hone : ∀ e ∈ s.history, e.batch.seed = b.seed → e.batch = b) : Trace (s.deliver b now) := by
  obtain ⟨hinv, hleft'⟩ : Inv (b.after now s.db) ∧ b.Left (b.after now s.db) :=
    h.after_inv hadm hleft hspares
  have hframe := b.after_framed now s.db
  refine ⟨hinv, ?_, fun seed hfresh r hr stamp hstamp => ?_, fun e he e' he' hs => ?_,
    fun e he => ?_, fun e he => ?_⟩
  · rintro d (rfl | ⟨e, he, rfl⟩)
    · exact ⟨hinv, .refl _⟩
    · rcases List.mem_cons.mp he with rfl | he
      · exact ⟨h.inv, (Db.Past.refl s.db).framed hframe⟩
      · obtain ⟨hd, hpast⟩ := h.seen _ (Or.inr ⟨e, he, rfl⟩)
        exact ⟨hd, hpast.framed hframe⟩
  · rintro rfl
    by_cases hb : stamp.seed = b.seed
    · exact hfresh _ List.mem_cons_self hb.symm
    · obtain ⟨r₀, hr₀, _, hs₀, _⟩ := hframe.stamped_before hr hstamp
        fun name _ he => hb (congrArg Stamp.seed he)
      exact h.stamps _ (fun e he => hfresh e (List.mem_cons_of_mem _ he)) r₀ hr₀ _ hs₀ rfl
  · rcases List.mem_cons.mp he with rfl | he <;> rcases List.mem_cons.mp he' with rfl | he'
    · rfl
    · exact (hone e' he' hs.symm).symm
    · exact hone e he hs
    · exact h.unique e he e' he' hs
  · rcases List.mem_cons.mp he with rfl | he
    · exact ⟨hadm.mono fun _ => .deliver, hleft'⟩
    · obtain ⟨hadm', hl⟩ := h.delivered e he
      refine ⟨hadm'.mono fun _ => .deliver, ?_⟩
      by_cases hs : e.batch.seed = b.seed
      · rw [hone e he hs]
        exact hleft'
      · exact hl.framed h.inv.stamped hs hframe
  · rcases List.mem_cons.mp he with rfl | he
    · exact ⟨rfl, Or.inl rfl⟩
    · exact ⟨(h.after e he).1, (h.after e he).2.deliver⟩

/-- One step of a run whose second deliveries all spare the live tasks. -/
theorem Trace.step {again : Batch → Db → Prop} {s' : Sys} (h : Trace s)
    (hagain : ∀ b db, again b db → b.Spares db) (hstep : Step again s s') : Trace s' := by
  cases hstep with
  | first b now _ hfresh hadm =>
    exact h.deliver hadm (b.left_of_unstamped (h.stamps _ hfresh))
      (b.spares_of_unstamped (h.stamps _ hfresh)) fun e he hs => absurd hs (hfresh e he)
  | again b now _ hdelivered hok =>
    obtain ⟨e, he, rfl⟩ := hdelivered
    obtain ⟨hadm, hleft⟩ := h.delivered e he
    exact h.deliver hadm hleft (hagain _ _ hok) fun e' he' hs => h.unique e' he' e he hs

/-- Every state of a run whose second deliveries all spare the live tasks. -/
theorem Reachable.trace {again : Batch → Db → Prop} (h : Reachable again s)
    (hagain : ∀ b db, again b db → b.Spares db) : Trace s := by
  induction h with
  | init => exact .init
  | step _ hstep ih => exact ih.step hagain hstep

/-- Every state of a run in which no batch is delivered twice. -/
theorem Reachable.inv (h : Reachable Once s) : Inv s.db := (h.trace fun _ _ hf => hf.elim).inv

end Durablerun
