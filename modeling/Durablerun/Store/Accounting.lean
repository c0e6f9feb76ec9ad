import Durablerun.Store.Runs

/-!
# Units and their accounts

Between batches a live task owns one live run, in its own state, and an ended task owns none; and the
counters of a task say the ordinals of its runs. The counters move in few batches: `Kept` says of a
batch which of a task's counters it may move, and whether it may start the task again.

Reference: `packages/store-libsql/src/store.ts`.
-/

namespace Durablerun

open Relational

variable {db db' db'' : Db} {seed queue : String} {name fence : Statement} {now : ℤ} {out : Outcome}

/-! ## What a batch may do to a task -/

/-- The same task, its counters moved only if it was charged or retried, and live after it ended only
if it was revived. -/
structure Task.Kept (charged retried revived : String → Prop) (t t' : Task) : Prop
    extends Task.Same t t' where
  attempts : t'.attempts = t.attempts ∨ charged t.taskId
  infraRetries : t'.infraRetries = t.infraRetries ∨ retried t.taskId
  ended : ¬ t.state.Live → t'.state = t.state ∨ revived t.taskId

variable {charged retried revived : String → Prop}

/-- A task that nothing happened to keeps its counts. -/
theorem Task.Kept.refl (t : Task) : t.Kept charged retried revived t :=
  ⟨.refl t, Or.inl rfl, Or.inl rfl, fun _ => Or.inl rfl⟩

/-- A task that keeps its counts twice keeps them. -/
theorem Task.Kept.trans {t s u : Task} (h : t.Kept charged retried revived s)
    (h' : s.Kept charged retried revived u) : t.Kept charged retried revived u := by
  refine ⟨h.toSame.trans h'.toSame, ?_, ?_, fun hl => ?_⟩
  · rcases h'.attempts with he | hc
    · exact h.attempts.imp_left he.trans
    · exact Or.inr (h.taskId ▸ hc)
  · rcases h'.infraRetries with he | hc
    · exact h.infraRetries.imp_left he.trans
    · exact Or.inr (h.taskId ▸ hc)
  · rcases h.ended hl with he | hr
    · rcases h'.ended (he ▸ hl) with he' | hr
      · exact Or.inl (he'.trans he)
      · exact Or.inr (h.taskId ▸ hr)
    · exact Or.inr hr

/-- Every task is there, kept. -/
def Keeps (charged retried revived : String → Prop) (db db' : Db) : Prop :=
  ∀ t ∈ db.tasks, ∃ t' ∈ db'.tasks, t.Kept charged retried revived t'

namespace Keeps

/-- Two changes that keep the counts, one after the other. -/
theorem trans (h : Keeps charged retried revived db db')
    (h' : Keeps charged retried revived db' db'') : Keeps charged retried revived db db'' := by
  intro t ht
  obtain ⟨t', ht', hk⟩ := h t ht
  obtain ⟨t'', ht'', hk'⟩ := h' t' ht'
  exact ⟨t'', ht'', hk.trans hk'⟩

/-- A change of no task keeps every count. -/
theorem of_tasks (h : db'.tasks = db.tasks) : Keeps charged retried revived db db' :=
  fun t ht => ⟨t, h ▸ ht, .refl t⟩

/-- A follow-on that carries runs to tasks keeps the counts where each change it makes does. -/
theorem runsToTasks {where' : Run → Prop} [DecidablePred where'] {narrow : Task → Prop}
    [DecidablePred narrow] {set : Table.Change Task.keys} {σ : String}
    (h : ∀ t ∈ db.tasks, ∀ f ∈ db.runs, Follows σ fence queue where' narrow f t →
      t.Kept charged retried revived (set t)) :
    Keeps charged retried revived db (runsToTasks db σ name fence queue where' narrow set) := by
  refine (runsToTasks_rel (R := fun t t' => t.Kept charged retried revived t') .refl ?_).after
  intro t ht f hf hfol _ at'
  have hk := h t ht f hf hfol
  exact ⟨⟨hk.taskId, hk.queue⟩, hk.attempts, hk.infraRetries, hk.ended⟩

/-- A follow-on of live tasks that moves no counter. -/
theorem follow {where' : Run → Prop} [DecidablePred where'] {narrow : Task → Prop}
    [DecidablePred narrow] {set : Table.Change Task.keys} {σ : String}
    (hlive : ∀ t, narrow t → t.state.Live)
    (hset : ∀ t : Task, t.Same (set t) ∧ (set t).attempts = t.attempts ∧
      (set t).infraRetries = t.infraRetries) :
    Keeps charged retried revived db
      (Durablerun.runsToTasks db σ name fence queue where' narrow set) :=
  .runsToTasks fun t _ _ _ hfol => ⟨(hset t).1, Or.inl (hset t).2.1, Or.inl (hset t).2.2,
    fun hl => absurd (hlive t hfol.narrow) hl⟩

/-- The end of a suspension keeps every count. -/
theorem finishSuspension {runId : String} :
    Keeps charged retried revived db (finishSuspension db seed queue runId) :=
  (Keeps.follow (fun _ h => h) fun _ => ⟨⟨rfl, rfl⟩, rfl, rfl⟩).trans (.of_tasks rfl)

/-- Waking the waiters keeps every count. -/
theorem wakeWaiters {eventName : String} :
    Keeps charged retried revived db (wakeWaiters db seed queue eventName) := by
  have hfollow : Keeps charged retried revived (wakeRuns db seed queue eventName)
      (Durablerun.runsToTasks (wakeRuns db seed queue eventName) seed .wakeTasks .wakeRuns queue
        (fun f => f.wakeEvent = some eventName ∧ f.state = .pending) (fun t => t.state.Live)
        ⟨fun t => { t with state := .pending }, fun _ => rfl⟩) :=
    .follow (fun _ h => h) fun _ => ⟨⟨rfl, rfl⟩, rfl, rfl⟩
  exact hfollow

/-- A completion event keeps every count. -/
theorem addTaskDone {taskId payloadJson : String} {terminal : Statement} :
    Keeps charged retried revived db (addTaskDone db seed queue taskId terminal payloadJson) := by
  obtain ⟨events, heq⟩ := taskDoneEvent_withEvents db seed queue taskId payloadJson terminal
  have hevents : Keeps charged retried revived db { db with events } := .of_tasks rfl
  unfold Durablerun.addTaskDone
  rw [heq]
  exact hevents.trans .wakeWaiters

/-- The end of a run, with its completion event, keeps every count. -/
theorem finish {taskId payloadJson runId : String} {terminal : Statement} :
    Keeps charged retried revived db
      (Durablerun.addTaskDone (waitsGone db seed runId fence) seed queue taskId terminal
        payloadJson) := by
  have hwaits : Keeps charged retried revived db (waitsGone db seed runId fence) := .of_tasks rfl
  exact hwaits.trans .addTaskDone

end Keeps

/-! ## The batches that move no counter -/

section Unmoved

/-- A claim keeps every count. -/
theorem claim_keeps (call : ClaimCall) :
    Keeps charged retried revived db (claim seed call now db).db := by
  have hcas : Keeps charged retried revived db (claimCas db seed call now) := .of_tasks rfl
  have hbook : Keeps charged retried revived (claimCas db seed call now)
      (taskBook (claimCas db seed call now) seed call) :=
    .follow (fun _ h => h) fun _ => ⟨⟨rfl, rfl⟩, rfl, rfl⟩
  exact hcas.trans hbook

/-- An activation keeps every count. -/
theorem activate_keeps (receipt : ClaimReceipt) :
    Keeps charged retried revived db (activate seed receipt now db).db := by
  have hcas : Keeps charged retried revived db (activateCas db seed receipt now) := .of_tasks rfl
  have hstart : Keeps charged retried revived (activateCas db seed receipt now)
      (taskStart (activateCas db seed receipt now) seed receipt) :=
    .follow (fun _ h => h) fun _ => ⟨⟨rfl, rfl⟩, rfl, rfl⟩
  exact hcas.trans hstart

/-- A deferred launch keeps every count. -/
theorem deferLaunch_keeps (receipt : ClaimReceipt) (delayMs : ℤ) :
    Keeps charged retried revived db (deferLaunch seed receipt delayMs now db).db := by
  have hcas : Keeps charged retried revived db (deferLaunchCas db seed receipt delayMs now) :=
    .of_tasks rfl
  exact hcas.trans .finishSuspension

/-- A reschedule keeps every count. -/
theorem reschedule_keeps (held : WorkerClaim) (wake : WakeSpec) :
    Keeps charged retried revived db (reschedule seed held wake now db).db := by
  have hcas : Keeps charged retried revived db
      (suspendCas db seed wake now (rescheduleGuard db now held wake)) := .of_tasks rfl
  exact hcas.trans .finishSuspension

/-- A suspension keeps every count. -/
theorem suspendRun_keeps (held : WorkerClaim) (wake : WakeSpec) (checkpoint : CheckpointWrite) :
    Keeps charged retried revived db (suspendRun seed held wake checkpoint now db).db := by
  have hcas : Keeps charged retried revived db (checkpointWrite (suspendCas db seed wake now
      (suspendRunGuard db now held wake checkpoint)) seed held.runId checkpoint .suspend) :=
    .of_tasks checkpointWrite_tasks
  exact hcas.trans .finishSuspension

/-- An await keeps every count. -/
theorem awaitEvent_keeps (call : AwaitCall) :
    Keeps charged retried revived db (awaitEvent seed call now db).db := by
  have hpark : Keeps charged retried revived db
      (awaitPark (registerWaitCas db seed call now) seed call) :=
    .of_tasks (registerWaitCas_tasks call)
  have hmirror : Keeps charged retried revived
      (awaitPark (registerWaitCas db seed call now) seed call)
      (awaitMirror (awaitPark (registerWaitCas db seed call now) seed call) seed call) :=
    .follow (fun _ h => h) fun _ => ⟨⟨rfl, rfl⟩, rfl, rfl⟩
  exact hpark.trans hmirror

/-- A recorded completion keeps every count. -/
theorem recordTaskDone_keeps (call : RecordTaskDoneCall) :
    Keeps charged retried revived db (recordTaskDone seed call now db).db := by
  unfold recordTaskDone
  split
  · exact .of_tasks rfl
  · exact .of_tasks rfl

/-- An emission keeps every count. -/
theorem emitEvent_keeps (call : EmitCall) :
    Keeps charged retried revived db (emitEvent seed call now db).db := by
  have hcas : Keeps charged retried revived db (emitEventCas db seed call now) := .of_tasks rfl
  exact hcas.trans .wakeWaiters

/-- A completion keeps every count. -/
theorem complete_keeps (held : WorkerClaim) (taskId resultJson : String) :
    Keeps charged retried revived db (complete seed held taskId resultJson now db).db := by
  have hcas : Keeps charged retried revived db (completeCas db seed held resultJson now) :=
    .of_tasks rfl
  have hmirror : Keeps charged retried revived (completeCas db seed held resultJson now)
      (completeTaskMirror (completeCas db seed held resultJson now) seed held resultJson) :=
    .follow (fun _ h => h) fun _ => ⟨⟨rfl, rfl⟩, rfl, rfl⟩
  exact (hcas.trans hmirror).trans .finish

/-- A cancellation keeps every count. -/
theorem cancelTransition_keeps (c : Cancellation) :
    Keeps charged retried revived db (cancelTransition seed c now db).db := by
  have hcas : Keeps charged retried revived db (cancelCas db seed c now) :=
    (Table.Rel.update (fun t _ hg => ⟨⟨rfl, rfl⟩, Or.inl rfl, Or.inl rfl,
      fun hl => absurd hg.2.2.1 hl⟩) fun t _ _ => Task.Kept.refl t).after
  have hended : Keeps charged retried revived (cancelCas db seed c now)
      (cancelWaits (cancelRuns (cancelCas db seed c now) seed c) seed c) := .of_tasks rfl
  exact (hcas.trans hended).trans .addTaskDone

/-- A spawn keeps the counts of the tasks that were there. -/
theorem spawn_keeps {call : SpawnCall} (hrun : spawn seed call now db = some out) :
    Keeps charged retried revived db out.db := by
  obtain ⟨db', hdb', hout⟩ := Option.bind_eq_some_iff.mp hrun
  obtain rfl := Option.some.inj hout
  have hcas : Keeps charged retried revived db (spawnTaskCas db seed call now) := by
    unfold spawnTaskCas
    split
    · exact fun t ht => ⟨t, Table.mem_insertIgnore.mpr (Or.inl ht), .refl t⟩
    · exact .of_tasks rfl
  refine hcas.trans (.of_tasks ?_)
  unfold spawnRun at hdb'
  split at hdb'
  · rw [Option.some.inj hdb']
  · split at hdb'
    · obtain ⟨runs, _, rfl⟩ := Option.map_eq_some_iff.mp hdb'
      rfl
    · rw [Option.some.inj hdb']

end Unmoved

/-! ## The batches that move one -/

/-- The batch placed a run under this id, for the task, with the stamp of the statement. -/
def PlacedNew (db db' : Db) (seed passId taskId : String) (name : Statement) : Prop :=
  (∀ r ∈ db.runs, r.runId ≠ passId) ∧
    ∃ p ∈ db'.runs, p.runId = passId ∧ p.taskId = taskId ∧ p.fenceStamp = some ⟨seed, name⟩

/-- A batch charges a task its attempt: a failure, a revival, or a sweep that places a pass. -/
def Batch.Charges (b : Batch) (db db' : Db) (taskId : String) : Prop :=
  match b.call with
  | .failInto _ | .retryTask _ => True
  | .sweepLostLaunch swept | .sweepClaimTimeout swept =>
    PlacedNew db db' b.seed swept.passId taskId .rollbackPass
  | _ => False

/-- A batch charges a task a retry of the infrastructure: a claim timeout that places a successor. -/
def Batch.Retries (b : Batch) (db db' : Db) (taskId : String) : Prop :=
  match b.call with
  | .sweepClaimTimeout swept => PlacedNew db db' b.seed swept.passId taskId .successor
  | _ => False

/-- A batch revives a task: `retryTask`, of a task whose saga never began. -/
def Batch.Revives (b : Batch) (db : Db) (taskId : String) : Prop :=
  match b.call with
  | .retryTask call => call.taskId = taskId ∧ ¬ sagaBegan db taskId
  | _ => False

/-- A run that neither sleeps nor was woken by this batch is left alone by its wake. -/
theorem mem_wakeWaiters {eventName : String} {r : Run} (hr : r ∈ db.runs) (hst : r.state ≠ .sleeping)
    (hs : r.fenceStamp ≠ some ⟨seed, .wakeRuns⟩) :
    r ∈ (wakeWaiters db seed queue eventName).runs := by
  have hwoken : r ∈ (wakeRuns db seed queue eventName).runs :=
    Table.mem_update_of_neg hr fun hg => hst hg.1
  refine Table.mem_update_of_neg (T := (wakeRuns db seed queue eventName).runs) hwoken ?_
  rintro ⟨f, hf, ⟨_, hfs⟩, hid⟩
  rw [(wakeRuns db seed queue eventName).run_unique hf hwoken hid] at hfs
  exact hs hfs

/-- A run that is not asleep stays through a completion event as it is. -/
theorem mem_addTaskDone {taskId payloadJson : String} {terminal : Statement} {r : Run}
    (hr : r ∈ db.runs) (hst : r.state ≠ .sleeping) (hs : r.fenceStamp ≠ some ⟨seed, .wakeRuns⟩) :
    r ∈ (addTaskDone db seed queue taskId terminal payloadJson).runs := by
  obtain ⟨events, heq⟩ := taskDoneEvent_withEvents db seed queue taskId payloadJson terminal
  unfold addTaskDone
  rw [heq]
  have hr' : r ∈ { db with events }.runs := hr
  exact mem_wakeWaiters hr' hst hs

/-- A run that carries the stamp of a fresh batch's insert is the run the insert placed. -/
theorem failureSuccessor_new {db₂ : Db} {passId runId : String} {delayMs : ℤ} {state : TaskState}
    {admission : Run → Task → Prop} [∀ f t, Decidable (admission f t)] (hfresh : Unstamped db seed)
    (hframe : Frame seed (· ≠ name) db db₂)
    (hsucc : failureSuccessor db₂ seed name fence passId runId delayMs state admission = some db')
    {p : Run} (hp : p ∈ db'.runs) (hs : p.fenceStamp = some ⟨seed, name⟩) :
    p.runId = passId ∧ p.state = state ∧ ∀ r ∈ db.runs, r.runId ≠ passId := by
  have hno : p ∉ db₂.runs := by
    intro hmem
    obtain ⟨p₀, hp₀, _, hs₀, _⟩ := hframe.stamped_before hmem hs
      fun n hn he => hn (congrArg Stamp.statement he).symm
    exact hfresh p₀ hp₀ _ hs₀ rfl
  obtain ⟨rfl, _⟩ | ⟨f, _, _, runs, hfree, hruns, rfl⟩ := failureSuccessor_cases hsucc
  · exact absurd hp hno
  · obtain hp | rfl := (hruns p).mp hp
    · exact absurd hp hno
    · refine ⟨rfl, rfl, fun r hr hid => ?_⟩
      obtain ⟨r', hr', hf⟩ := hframe.runs.after r hr
      refine hfree.2 (.id passId) (by simp [Run.keys, successorRun])
        (Table.mem_heldKeys.mpr ⟨r', hr', ?_⟩)
      simp [Run.keys, hf.runId, hid]

/-- Placing a successor changes no task. -/
theorem failureSuccessor_tasks {passId runId : String} {delayMs : ℤ} {state : TaskState}
    {admission : Run → Task → Prop} [∀ f t, Decidable (admission f t)]
    (h : failureSuccessor db seed name fence passId runId delayMs state admission = some db') :
    db'.tasks = db.tasks := by
  obtain ⟨rfl, _⟩ | ⟨f, _, _, runs, _, _, rfl⟩ := failureSuccessor_cases h <;> rfl

/-- The saga arm charges the tasks of the passes it placed. -/
theorem Keeps.sagaPass {runId passId : String} {enteringWith : Option String} {delayMs : ℤ}
    {admission : Run → Task → Prop} [∀ f t, Decidable (admission f t)]
    (hrun : sagaPass db seed queue runId passId fence enteringWith delayMs admission = some db')
    (hcharged : ∀ p ∈ db'.runs, p.fenceStamp = some ⟨seed, .rollbackPass⟩ → charged p.taskId) :
    Keeps charged retried revived db db' := by
  obtain ⟨placed, hplaced, hdb'⟩ := Option.bind_eq_some_iff.mp hrun
  obtain rfl := Option.some.inj hdb'
  have hmarked : Keeps charged retried revived db
      (sagaPhaseMarker placed seed passId enteringWith) :=
    .of_tasks (sagaPhaseMarker_tasks.trans (failureSuccessor_tasks hplaced))
  refine hmarked.trans (.runsToTasks fun t _ p hp hfol => ⟨⟨rfl, rfl⟩, Or.inr ?_, Or.inl rfl,
    fun hl => absurd hfol.narrow hl⟩)
  rw [← hfol.taskId]
  exact hcharged p hp hfol.stamp

/-- A failure charges the tasks it may. -/
theorem failInto_keeps {failure : Failure} (hcharged : ∀ id, charged id)
    (hrun : failInto seed failure now db = some out) :
    Keeps charged retried revived db out.db := by
  obtain ⟨passed, hpass, hrun⟩ := Option.bind_eq_some_iff.mp hrun
  obtain ⟨retried', hretry, hout⟩ := Option.bind_eq_some_iff.mp hrun
  obtain rfl := Option.some.inj hout
  have htried : Keeps charged retried revived db
      (rollbackTries (failCas db seed failure now) seed failure) := .of_tasks rollbackTries_tasks
  have hpassed : Keeps charged retried revived
      (rollbackTries (failCas db seed failure now) seed failure) passed := by
    unfold failSagaPass at hpass
    split at hpass
    · exact .sagaPass hpass fun p _ _ => hcharged _
    · split at hpass
      · exact .of_tasks (by rw [Option.some.inj hpass])
      · exact .sagaPass hpass fun p _ _ => hcharged _
  have hretried : Keeps charged retried revived passed retried' := by
    unfold userRetry at hretry
    split at hretry
    · exact .of_tasks (by rw [Option.some.inj hretry])
    · obtain ⟨placed, hplaced, rfl⟩ := Option.map_eq_some_iff.mp hretry
      have hplaced : Keeps charged retried revived passed placed :=
        .of_tasks (failureSuccessor_tasks hplaced)
      exact hplaced.trans (.runsToTasks fun t _ _ _ hfol =>
        ⟨⟨rfl, rfl⟩, Or.inr (hcharged _), Or.inl rfl, fun hl => absurd hfol.narrow hl⟩)
  have hended : Keeps charged retried revived retried' (failTerminal retried' seed failure) :=
    .runsToTasks fun t _ _ _ hfol =>
      ⟨⟨rfl, rfl⟩, Or.inr (hcharged _), Or.inl rfl, fun hl => absurd hfol.narrow.1 hl⟩
  exact ((htried.trans hpassed).trans (hretried.trans hended)).trans .finish

/-- A retry charges the task it may, and revives one that no saga began. -/
theorem retryTask_keeps {call : RetryCall} (hcharged : ∀ id, charged id)
    (hrevived : ¬ sagaBegan db call.taskId → revived call.taskId)
    (hrun : retryTask seed call now db = some out) :
    Keeps charged retried revived db out.db := by
  obtain ⟨db', hdb', hout⟩ := Option.bind_eq_some_iff.mp hrun
  obtain rfl := Option.some.inj hout
  have hcas : Keeps charged retried revived db (reviveCas db seed call now) := by
    refine (Table.Rel.update (fun t _ hg => ⟨⟨rfl, rfl⟩, Or.inr (hcharged _), Or.inl rfl,
      fun _ => Or.inr ?_⟩) fun t _ _ => Task.Kept.refl t).after
    rw [hg.1]
    exact hrevived (hg.1 ▸ hg.2.2.sagaNotBegun)
  refine hcas.trans (.of_tasks ?_)
  unfold revivalRunInsert at hdb'
  split at hdb'
  · rw [Option.some.inj hdb']
  · split at hdb'
    · rw [Option.some.inj hdb']
    · obtain ⟨runs, _, rfl⟩ := Option.map_eq_some_iff.mp hdb'
      rfl

/-- A run with a stamp of the batch, pending, is there when the batch is done. -/
theorem placedNew_of_pending {passId taskId payloadJson runId t : String} {terminal : Statement}
    (hnew : ∀ r ∈ db.runs, r.runId ≠ passId) {p : Run} (hp : p ∈ db'.runs)
    (hid : p.runId = passId) (hst : p.state = .pending) (hs : p.fenceStamp = some ⟨seed, name⟩)
    (hname : name ≠ .wakeRuns) (ht : p.taskId = t) :
    PlacedNew db (addTaskDone (waitsGone db' seed runId fence) seed queue taskId terminal
      payloadJson) seed passId t name := by
  refine ⟨hnew, p, mem_addTaskDone hp (by simp [hst]) ?_, hid, ht, hs⟩
  rw [hs]
  simpa using hname

/-- Sweeping a lost launch charges the tasks a rollback pass was placed for. -/
theorem sweepLostLaunch_keeps {swept : Swept} (hfresh : Unstamped db seed)
    (hrun : sweepLostLaunch seed swept now db = some out)
    (hcharged : ∀ id, PlacedNew db out.db seed swept.passId id .rollbackPass → charged id) :
    Keeps charged retried revived db out.db := by
  obtain ⟨passed, hpass, hout⟩ := Option.bind_eq_some_iff.mp hrun
  obtain rfl := Option.some.inj hout
  set capped := capLostLaunchCas (reopenLostLaunchCas db seed swept now) seed swept now with hcapped
  have hframe : Frame seed (· ≠ .rollbackPass) db capped := by
    have hreopen : Frame seed (· ≠ .rollbackPass) db (reopenLostLaunchCas db seed swept now) :=
      .updateRuns (fun _ _ hg => by simp [hg.1.2.2.1])
        fun _ => ⟨⟨rfl, rfl, rfl, rfl⟩, .reopen, by simp, rfl⟩
    exact hreopen.trans (.updateRuns (fun _ _ hg => by simp [hg.1.2.2.1])
      fun _ => ⟨⟨rfl, rfl, rfl, rfl⟩, .cap, by simp, rfl⟩)
  have hcas : Keeps charged retried revived db capped := .of_tasks rfl
  have hpassed : Keeps charged retried revived capped passed := by
    refine .sagaPass hpass fun p hp hs => hcharged _ ?_
    obtain ⟨placed, hplaced, hdb'⟩ := Option.bind_eq_some_iff.mp hpass
    have hruns : passed.runs = placed.runs := by
      rw [← Option.some.inj hdb']
      exact sagaPhaseMarker_runs
    obtain ⟨hid, hst, hnew⟩ := failureSuccessor_new hfresh hframe hplaced (hruns ▸ hp) hs
    have hp' : p ∈ (taskFail (taskPending passed seed swept) seed swept).runs := hp
    exact placedNew_of_pending hnew hp' hid hst hs (by simp) rfl
  have hfollow : Keeps charged retried revived passed
      (taskFail (taskPending passed seed swept) seed swept) := by
    have hpending : Keeps charged retried revived passed (taskPending passed seed swept) :=
      .follow (fun _ h => h) fun _ => ⟨⟨rfl, rfl⟩, rfl, rfl⟩
    exact hpending.trans (.follow (fun _ h => h.1) fun _ => ⟨⟨rfl, rfl⟩, rfl, rfl⟩)
  exact ((hcas.trans hpassed).trans hfollow).trans .finish

/-- Sweeping a timeout charges or retries the tasks a run was placed for. -/
theorem sweepClaimTimeout_keeps {swept : Swept} (hfresh : Unstamped db seed)
    (hrun : sweepClaimTimeout seed swept now db = some out)
    (hcharged : ∀ id, PlacedNew db out.db seed swept.passId id .rollbackPass → charged id)
    (hretried : ∀ id, PlacedNew db out.db seed swept.passId id .successor → retried id) :
    Keeps charged retried revived db out.db := by
  obtain ⟨placed, hsucc, hrun⟩ := Option.bind_eq_some_iff.mp hrun
  obtain ⟨passed, hpass, hout⟩ := Option.bind_eq_some_iff.mp hrun
  obtain rfl := Option.some.inj hout
  have hcas : ∀ n, n ≠ .fail →
      Frame seed (· ≠ n) db (failClaimTimeoutCas db seed swept now) := fun n hn =>
    .updateRuns (fun _ _ hg => by simp [hg.1.2.2.1])
      fun _ => ⟨⟨rfl, rfl, rfl, rfl⟩, .fail, hn.symm, rfl⟩
  have hfailed : Keeps charged retried revived db (failClaimTimeoutCas db seed swept now) :=
    .of_tasks rfl
  have hplaced : Keeps charged retried revived (failClaimTimeoutCas db seed swept now) placed :=
    .of_tasks (failureSuccessor_tasks hsucc)
  have hpassed : Keeps charged retried revived placed passed := by
    refine .sagaPass hpass fun p hp hs => hcharged _ ?_
    obtain ⟨placed', hplaced', hdb'⟩ := Option.bind_eq_some_iff.mp hpass
    have hruns : passed.runs = placed'.runs := by
      rw [← Option.some.inj hdb']
      exact sagaPhaseMarker_runs
    obtain ⟨hid, hst, hnew⟩ := failureSuccessor_new hfresh
      ((hcas _ (by simp)).trans (.failureSuccessor (by simp) hsucc)) hplaced' (hruns ▸ hp) hs
    have hp' : p ∈ (bookkeeping (timeoutTerminal passed seed swept) seed swept).runs := hp
    exact placedNew_of_pending hnew hp' hid hst hs (by simp) rfl
  have hended : Keeps charged retried revived passed (timeoutTerminal passed seed swept) :=
    .follow (fun _ h => h.1) fun _ => ⟨⟨rfl, rfl⟩, rfl, rfl⟩
  have hbooked : Keeps charged retried revived (timeoutTerminal passed seed swept)
      (bookkeeping (timeoutTerminal passed seed swept) seed swept) := by
    refine .runsToTasks fun t _ p hp hfol =>
      ⟨⟨rfl, rfl⟩, Or.inl rfl, Or.inr ?_, fun hl => absurd hfol.narrow hl⟩
    have hother : Frame seed (· ≠ .successor) placed passed := .sagaPass (by simp) hpass
    obtain ⟨p₀, hp₀, hsame, hs₀, hst⟩ :=
      hother.stamped_before (r := p) hp hfol.stamp fun n hn he => hn (congrArg Stamp.statement he).symm
    obtain ⟨_, hst₀, hnew⟩ := failureSuccessor_new hfresh (hcas _ (by simp)) hsucc hp₀ hs₀
    have hp' : p ∈ (bookkeeping (timeoutTerminal passed seed swept) seed swept).runs := hp
    exact hretried _ (placedNew_of_pending hnew hp' hfol.selected (hst.trans hst₀) hfol.stamp
      (by simp) hfol.taskId)
  exact (((hfailed.trans hplaced).trans hpassed).trans (hended.trans hbooked)).trans .finish

/-- What a batch that was never delivered does to the tasks. -/
theorem Batch.keeps {b : Batch} (hfresh : Unstamped db b.seed) (hrun : b.run now db = some out) :
    Keeps (b.Charges db out.db) (b.Retries db out.db) (b.Revives db) db out.db := by
  obtain ⟨seed, call⟩ := b
  cases call with
  | spawn call => exact spawn_keeps hrun
  | claim call => exact Option.some.inj hrun ▸ claim_keeps call
  | activate receipt => exact Option.some.inj hrun ▸ activate_keeps receipt
  | heartbeat => exact Option.some.inj hrun ▸ .of_tasks rfl
  | deferLaunch receipt ms => exact Option.some.inj hrun ▸ deferLaunch_keeps receipt ms
  | reschedule held wake => exact Option.some.inj hrun ▸ reschedule_keeps held wake
  | suspendRun held wake c => exact Option.some.inj hrun ▸ suspendRun_keeps held wake c
  | awaitEvent call => exact Option.some.inj hrun ▸ awaitEvent_keeps call
  | recordTaskDone call => exact Option.some.inj hrun ▸ recordTaskDone_keeps call
  | emitEvent call => exact Option.some.inj hrun ▸ emitEvent_keeps call
  | setCheckpoint => exact Option.some.inj hrun ▸ .of_tasks checkpointWrite_tasks
  | complete held id result => exact Option.some.inj hrun ▸ complete_keeps held id result
  | failInto failure => exact failInto_keeps (fun _ => trivial) hrun
  | sweepLostLaunch swept => exact sweepLostLaunch_keeps hfresh hrun fun _ h => h
  | sweepClaimTimeout swept =>
    exact sweepClaimTimeout_keeps hfresh hrun (fun _ h => h) fun _ h => h
  | cancelTransition c => exact Option.some.inj hrun ▸ cancelTransition_keeps c
  | retryTask call => exact retryTask_keeps (fun _ => trivial) (fun h => ⟨rfl, h⟩) hrun
  | expireLeaseNow => exact Option.some.inj hrun ▸ .of_tasks rfl

/-! ## Units -/

/-- A live task owns one live run, in its own state, an ended task owns none, and a run that failed
under a live task has a live run after it. -/
structure Whole (db : Db) (t : Task) : Prop where
  live : t.state.Live → ∃ r ∈ db.runs, runOwnedByTask r t ∧ r.state = t.state ∧
    ∀ s ∈ db.runs, runOwnedByTask s t → s.state.Live → s = r
  ended : ¬ t.state.Live → ∀ r ∈ db.runs, runOwnedByTask r t → ¬ r.state.Live
  followed : t.state.Live → ∀ r ∈ db.runs, runOwnedByTask r t → r.state = .failed →
    ∃ s ∈ db.runs, runOwnedByTask s t ∧ s.state.Live ∧ r.attempt < s.attempt

/-- A live run of a task is its top run. -/
theorem Settled.le_live {t : Task} (h : Settled db t) {r s : Run} (hr : r ∈ db.runs)
    (hid : r.taskId = t.taskId) (hs : s ∈ db.runs) (hsid : s.taskId = t.taskId)
    (hl : s.state.Live) : r.attempt ≤ s.attempt :=
  (((h.top hs hsid hl).2 r.attempt).mp ⟨r, hr, hid, rfl⟩).2

/-- In a sound store every task is whole. -/
theorem Core.whole (h : Core db) {t : Task} (ht : t ∈ db.tasks) : Whole db t := by
  have howned : ∀ r ∈ db.runs, r.taskId = t.taskId → runOwnedByTask r t := by
    intro r hr hid
    obtain ⟨u, hu, hown⟩ := h.owner r hr
    rwa [db.task_unique ht hu (hid.symm.trans hown.1.symm)]
  have hsettled := h.settled t ht
  refine ⟨fun hl => ?_, fun hl r hr hown => h.not_live hr ht hown.1.symm hl, fun hl r hr hown hf => ?_⟩
  · obtain ⟨r, hr, hid, hrl⟩ := hsettled.hasLive hl
    refine ⟨r, hr, howned r hr hid, (h.state_eq hr ht hid hrl).symm, fun s hs hown hsl => ?_⟩
    refine db.run_unique_ordinal hs hr (hown.1.symm.trans hid.symm) (le_antisymm ?_ ?_)
    · exact hsettled.le_live hs hown.1.symm hr hid hrl
    · exact hsettled.le_live hr hid hs hown.1.symm hsl
  · obtain ⟨s, hs, hid, hsl⟩ := hsettled.hasLive hl
    refine ⟨s, hs, howned s hs hid, hsl, ?_⟩
    refine lt_of_le_of_ne (hsettled.le_live hr hown.1.symm hs hid hsl) fun he => ?_
    rw [← db.run_unique_ordinal hr hs (hown.1.symm.trans hid.symm) he, hf] at hsl
    exact hsl

/-- In every reachable state every task and its runs are whole. -/
theorem reachable_whole {s : Sys} (h : Reachable Once s) : ∀ t ∈ s.db.tasks, Whole s.db t :=
  fun _ ht => h.inv.toCore.whole ht

/-- The one running task is whole. -/
theorem reachable_whole_runningOne : runningOne.db.tasks.rows.map Task.state = [.running] ∧
    ∀ t ∈ runningOne.db.tasks, Whole runningOne.db t :=
  ⟨by decide, reachable_whole (runningOne_reachable _)⟩

/-! ## Accounts -/

/-- A task's runs are its ordinals `1, …, top`, once each, and its counters say them. -/
structure Accounted (db : Db) (t : Task) : Prop where
  ordinals : ∃ top, Ordinals db t.taskId top ∧
    (top = t.attempts + t.infraRetries ∨ top = t.attempts + t.infraRetries + 1) ∧
    (t.state = .failed → ¬ sagaBegan db t.taskId → top - t.infraRetries ≤ t.maxAttempts)
  once : ∀ r ∈ db.runs, ∀ s ∈ db.runs, r.taskId = t.taskId → s.taskId = t.taskId →
    r.attempt = s.attempt → r = s
  current : ∀ r ∈ db.runs, r.taskId = t.taskId → r.state.Live →
    r.attempt = t.attempts + t.infraRetries + 1 ∧ t.attempts < t.maxAttempts ∧
      ∀ s ∈ db.runs, s.taskId = t.taskId → s.attempt ≤ r.attempt
  attempts : attemptsBounds.Within t.attempts
  infraRetries : infraRetriesBounds.Within t.infraRetries
  maxAttempts : maxAttemptsBounds.Within t.maxAttempts
  ordinal : ∀ r ∈ db.runs, r.taskId = t.taskId → attemptBounds.Within r.attempt

/-- In a sound store every task is accounted. -/
theorem Core.accounted (h : Core db) {t : Task} (ht : t ∈ db.tasks) : Accounted db t := by
  have hsettled := h.settled t ht
  obtain ⟨top, hord, hband⟩ := hsettled.band
  refine ⟨⟨top, hord, hband, fun hf hno => ?_⟩, fun r hr s hs hrid hsid he => ?_,
    fun r hr hid hl => ?_, hsettled.counted.attempts, hsettled.counted.infraRetries,
    hsettled.counted.maxAttempts, fun r hr _ => h.toUnits.attempt_within hr⟩
  · obtain ⟨r, hr, hid, rfl⟩ := (hord.2 top).mpr ⟨hord.1, le_refl top⟩
    exact (h.phased.tasks t ht).failed hf hno r hr hid
  · exact db.run_unique_ordinal hr hs (hrid.trans hsid.symm) he
  · obtain ⟨htl, hat⟩ := hsettled.current r hr hid hl
    exact ⟨hat, hsettled.counted.budget htl, fun s hs hsid => hsettled.le_live hs hsid hr hid hl⟩

/-- The batch moves a task's counters only where it charges the task, or retries it. -/
structure Batch.Accounts (b : Batch) (db db' : Db) (t t' : Task) : Prop where
  attempts : t'.attempts ≠ t.attempts → b.Charges db db' t.taskId
  infraRetries : t'.infraRetries ≠ t.infraRetries → b.Retries db db' t.taskId

/-- A batch that keeps the tasks accounts for what it moves of them. -/
theorem Keeps.accounts {b : Batch} {revived : String → Prop} {t t' : Task}
    (h : Keeps (b.Charges db db') (b.Retries db db') revived db db') (ht : t ∈ db.tasks)
    (ht' : t' ∈ db'.tasks) (hid : t'.taskId = t.taskId) : b.Accounts db db' t t' := by
  obtain ⟨t'', ht'', hkept⟩ := h t ht
  rw [db'.task_unique ht' ht'' (hid.trans hkept.taskId.symm)]
  exact ⟨hkept.attempts.resolve_left, hkept.infraRetries.resolve_left⟩

/-- In every reachable state every task is accounted for, and a batch delivered there moves a counter
only where it charges the task, or retries it. -/
theorem reachable_accounted {s : Sys} (h : Reachable Once s) :
    (∀ t ∈ s.db.tasks, Accounted s.db t) ∧
      ∀ (b : Batch) (now : ℤ), s.Fresh b.seed → ∀ t ∈ s.db.tasks, ∀ t' ∈ (b.after now s.db).tasks,
        t'.taskId = t.taskId →
          (t'.attempts ≠ t.attempts → b.Charges s.db (b.after now s.db) t.taskId) ∧
          (t'.infraRetries ≠ t.infraRetries → b.Retries s.db (b.after now s.db) t.taskId) := by
  have htrace := h.trace fun _ _ hf => hf.elim
  refine ⟨fun t ht => htrace.inv.toCore.accounted ht, fun b now hfresh t ht t' ht' hid => ?_⟩
  obtain he | ⟨out, hrun, he⟩ := b.after_cases now s.db
  · rw [he] at ht' ⊢
    rw [s.db.task_unique ht' ht hid]
    exact ⟨fun hne => absurd rfl hne, fun hne => absurd rfl hne⟩
  · rw [he] at ht' ⊢
    obtain ⟨hattempts, hinfra⟩ := (Batch.keeps (htrace.stamps _ hfresh) hrun).accounts ht ht' hid
    exact ⟨hattempts, hinfra⟩

/-- The one running task is accounted, and a failure of its run changes no count of infrastructure
retries. -/
theorem reachable_accounted_runningOne :
    runningOne.db.runs.rows.map Run.attempt = [1] ∧
      (∀ t ∈ runningOne.db.tasks, Accounted runningOne.db t) ∧
      ∀ t ∈ runningOne.db.tasks, ∀ t' ∈ (failOne.after 3 runningOne.db).tasks,
        t'.taskId = t.taskId → t'.infraRetries = t.infraRetries :=
  ⟨by decide, (reachable_accounted (runningOne_reachable _)).1, fun t ht t' ht' hid =>
    not_not.mp (((reachable_accounted (runningOne_reachable _)).2 failOne 3 (by decide)
      t ht t' ht' hid).2)⟩

end Durablerun
