import Durablerun.Store.MovesTheorems

/-!
# The effect of each batch

One theorem for each batch, and `Batch.effect` for them all: where no row carries a stamp of its seed,
a batch makes of the tables what `Effect` says. `claim` and `activate` do so wherever they are
delivered.

Reference: `packages/store-libsql/src/store.ts`.
-/

namespace Durablerun

open Relational

variable {seed : String} {now : ℤ} {db db' : Db} {out : Outcome}

/-! ## claim and activate -/

/-- A run the claim took, or took before, is its task's one run with the claim's stamp. -/
theorem claimedRunOf_eq (h : Inv db) {call : ClaimCall} {t : Task} {f : Run}
    (hf : f ∈ (claimCas db seed call now).runs) (hid : f.taskId = t.taskId)
    (hs : f.fenceStamp = some ⟨seed, .claim⟩) :
    claimedRunOf (claimCas db seed call now) seed t = some f.runId := by
  have hlive : ∀ g ∈ (claimCas db seed call now).runs, g.fenceStamp = some ⟨seed, .claim⟩ →
      ∃ g₀ ∈ db.runs, g₀.Same g ∧ g₀.state.Live := by
    intro g hg hgs
    obtain ⟨g₀, hg₀, hguard, rfl⟩ | ⟨hg, _⟩ := Table.update_cases hg
    · exact ⟨g₀, hg₀, ⟨rfl, rfl, rfl, rfl⟩, (hguard.candidate hg₀).2.live⟩
    · have hrunning : g.state = .running := h.stamped.runs g hg _ hgs
      exact ⟨g, hg, .refl g, by simp [hrunning]⟩
  have hone : (claimCas db seed call now).runs.rows.filter
      (fun g => g.taskId = t.taskId ∧ g.fenceStamp = some ⟨seed, .claim⟩) = [f] := by
    refine Table.filter_eq_singleton Run.keys_ne_nil hf ⟨hid, hs⟩ ?_
    rintro g hg ⟨hgid, hgs⟩
    obtain ⟨f₀, hf₀, hfsame, hfl⟩ := hlive f hf hs
    obtain ⟨g₀, hg₀, hgsame, hgl⟩ := hlive g hg hgs
    have heq : g₀ = f₀ := h.toUnits.sole hf₀ hg₀
      (hgsame.taskId.symm.trans (hgid.trans (hid.symm.trans hfsame.taskId))) hfl hgl
    exact (claimCas db seed call now).run_unique hg hf
      (hgsame.runId.trans ((congrArg Run.runId heq).trans hfsame.runId.symm))
  unfold claimedRunOf
  rw [hone]

/-- The effect of a claim. -/
theorem claim_effect (h : Inv db) (call : ClaimCall) :
    Effect seed now db (claim seed call now db).db (.claim call) := by
  have hcas : EarlyRuns seed now db (claim seed call now db).db (.claim call)
      (claimCas db seed call now) := by
    refine .update fun r hr hg => ⟨.claimed hg, Or.inr ?_, ?_⟩
    · simp [claimAssignments]
    · simp [claimAssignments]
  have hbook : TasksMoved seed now db (.claim call) (claimCas db seed call now)
      (taskBook (claimCas db seed call now) seed call) := by
    refine runsToTasks_moved fun t ht f hf hfol _ => ?_
    have hset := claimedRunOf_eq h hf hfol.taskId hfol.stamp
    show Task.Move seed now db (.claim call) t { t with
      state := .running, lastAttemptRun := claimedRunOf (claimCas db seed call now) seed t }
    rw [hset]
    obtain ⟨r, hr, hg, rfl⟩ | ⟨hf, _⟩ := Table.update_cases hf
    · have hbooked : Task.Move seed now db (.claim call) t
          { t with state := .running, lastAttemptRun := some r.runId } :=
        .booked hfol.narrow hr (h.toOwned.runOwnedByTask hr ht hfol.taskId) (Or.inl hg)
      exact hbooked
    · exact .booked hfol.narrow hf (h.toOwned.runOwnedByTask hf ht hfol.taskId)
        (Or.inr ⟨hfol.selected, hfol.stamp⟩)
  have hwaits : ∀ w ∈ (claim seed call now db).db.waits, w ∈ db.waits :=
    fun w hw => (mem_runsToWaits.mp hw).1
  refine .of_early hcas rfl (TasksMoved.trans (.of_eq rfl) hbook)
    (fun w hw => Or.inl (hwaits w hw)) (fun w hw => ?_) rfl (.of_eq rfl)
  by_cases hw' : w ∈ (claim seed call now db).db.waits
  · exact Or.inl hw'
  obtain ⟨f, hf, ⟨_, hs⟩, hid⟩ : ∃ f ∈ (claimCas db seed call now).runs,
      (claimTaken call f ∧ f.fenceStamp = some ⟨seed, .claim⟩) ∧ f.runId = w.runId :=
    (not_not.mp fun hno => hw' (mem_runsToWaits.mpr ⟨hw, hno⟩)).1
  obtain ⟨r, hr, hg, rfl⟩ | ⟨hf, _⟩ := Table.update_cases hf
  · exact Or.inr ⟨r, hr, _, Table.mem_update_of_pos hr hg, h.held.parkedOn hw hr hid, .claimed hg⟩
  · have hrunning : f.state = .running := h.stamped.runs f hf _ hs
    exact absurd hid (h.held.no_wait hw hf (by simp [hrunning]))

/-- The effect of an activation. -/
theorem activate_effect (h : Inv db) (receipt : ClaimReceipt) :
    Effect seed now db (activate seed receipt now db).db (.activate receipt) := by
  have hcas : EarlyRuns seed now db (activate seed receipt now db).db (.activate receipt)
      (activateCas db seed receipt now) := by
    refine .update fun r hr hg => ⟨.activated hg, Or.inl hg.1.1.running, ?_⟩
    simp [activateAssignments]
  have hstart : TasksMoved seed now db (.activate receipt) (activateCas db seed receipt now)
      (taskStart (activateCas db seed receipt now) seed receipt) := by
    refine runsToTasks_moved fun t ht f hf hfol _ => ?_
    have hstamped := stampedRun_eq_some.mpr ⟨hf, hfol.selected, hfol.stamp⟩
    have hset : { t with
        firstStartedAtMs := t.firstStartedAtMs.or
          ((stampedRun (activateCas db seed receipt now) seed receipt.runId .activate).map
            Run.fenceAtMs)
        cancelAtMs := (taskMaxDurationMs t).bind fun d => (t.firstStartedAtMs.or
          ((stampedRun (activateCas db seed receipt now) seed receipt.runId .activate).map
            Run.fenceAtMs)).map (· + d) } = { t with
        firstStartedAtMs := some (t.firstStartedAtMs.getD f.fenceAtMs)
        cancelAtMs := (taskMaxDurationMs t).map (t.firstStartedAtMs.getD f.fenceAtMs + ·) } := by
      rw [hstamped]
      cases t.firstStartedAtMs <;> cases taskMaxDurationMs t <;> rfl
    have hstarted : Task.Move seed now db (.activate receipt) t { t with
        firstStartedAtMs := some (t.firstStartedAtMs.getD f.fenceAtMs)
        cancelAtMs := (taskMaxDurationMs t).map (t.firstStartedAtMs.getD f.fenceAtMs + ·) } := by
      obtain ⟨r, hr, hg, rfl⟩ | ⟨hf, _⟩ := Table.update_cases hf
      · exact .started hfol.narrow hr (h.toOwned.runOwnedByTask hr ht hfol.taskId)
          (Or.inl ⟨hg, rfl⟩)
      · exact .started hfol.narrow hf (h.toOwned.runOwnedByTask hf ht hfol.taskId)
          (Or.inr ⟨hfol.selected, hfol.stamp, rfl⟩)
    rw [← hset] at hstarted
    exact hstarted
  exact .of_early hcas rfl (TasksMoved.trans (.of_eq rfl) hstart) (fun w hw => Or.inl hw)
    (fun w hw => Or.inl hw) rfl (.of_eq rfl)

/-! ## The other batches of a claim -/

/-- The effect of a heartbeat. -/
theorem heartbeat_effect (held : WorkerClaim) (extensionMs : ℤ) :
    Effect seed now db (heartbeat seed held extensionMs now db).db (.heartbeat held extensionMs) := by
  have hcas : EarlyRuns seed now db (heartbeat seed held extensionMs now db).db
      (.heartbeat held extensionMs) (heartbeatCas db seed held extensionMs now) := by
    refine .update fun r hr hg => ⟨.extended hg, Or.inl hg.1.running, ?_⟩
    simp [leaseAssignments]
  exact .of_early hcas rfl (.of_eq rfl) (fun w hw => Or.inl hw) (fun w hw => Or.inl hw) rfl
    (.of_eq rfl)

/-- The effect of a lease that is ended at once. -/
theorem expireLeaseNow_effect (hfresh : Unstamped db seed) (held : WorkerClaim) :
    Effect seed now db (expireLeaseNow held now db).db (.expireLeaseNow held) := by
  have hcas : EarlyRuns seed now db (expireLeaseNow held now db).db (.expireLeaseNow held)
      (expireLeaseNow held now db).db :=
    .update fun r hr hg => ⟨.expired hg, Or.inl hg.1.running, fun hs => hfresh r hr _ hs rfl⟩
  exact .of_early hcas rfl (.of_eq rfl) (fun w hw => Or.inl hw) (fun w hw => Or.inl hw) rfl
    (.of_eq rfl)

/-- A task follows its parked run. -/
theorem finishSuspension_moved {db₁ : Db} {call : Call} {queue runId : String}
    (h : ∀ f ∈ db₁.runs, f.fenceStamp = some ⟨seed, .suspend⟩ → f.state.Queued) :
    TasksMoved seed now db call db₁ (finishSuspension db₁ seed queue runId) := by
  have hmirror : TasksMoved seed now db call db₁ (taskMirrorsRun db₁ seed queue runId .suspend) := by
    refine runsToTasks_moved fun t _ f hf hfol _ => ?_
    have hstamped := stampedRun_eq_some.mpr ⟨hf, hfol.selected, hfol.stamp⟩
    show Task.Move seed now db call t { t with state := stampedRunState db₁ seed runId .suspend t }
    unfold stampedRunState
    rw [hstamped]
    exact .followed hfol.narrow (h f hf hfol.stamp)
  exact hmirror

/-- The effect of a deferred launch. -/
theorem deferLaunch_effect (h : Inv db) (hfresh : Unstamped db seed) (receipt : ClaimReceipt) (delayMs : ℤ) :
    Effect seed now db (deferLaunch seed receipt delayMs now db).db (.deferLaunch receipt delayMs) := by
  have hcas : EarlyRuns seed now db (deferLaunch seed receipt delayMs now db).db
      (.deferLaunch receipt delayMs) (deferLaunchCas db seed receipt delayMs now) := by
    refine .update fun r hr hg => ⟨.deferred hg, Or.inl hg.1.1.running, ?_⟩
    simp [parkAssignments]
  have hfinish : TasksMoved seed now db (.deferLaunch receipt delayMs)
      (deferLaunchCas db seed receipt delayMs now) (deferLaunch seed receipt delayMs now db).db := by
    refine finishSuspension_moved fun f hf hs => ?_
    obtain ⟨r, _, _, rfl⟩ := stamped_update hfresh hf hs
    exact parkAssignments_queued seed .suspend ((WakeSpec.inMs delayMs).wakeAt now) now r
  have hwaits : ∀ w ∈ (deferLaunch seed receipt delayMs now db).db.waits, w ∈ db.waits :=
    fun w hw => (mem_runsToWaits.mp hw).1
  refine .of_early hcas rfl (TasksMoved.trans (.of_eq rfl) hfinish)
    (fun w hw => Or.inl (hwaits w hw)) (fun w hw => Or.inl (mem_waitsGone h.held ?_ hw hw)) rfl
    (.of_eq rfl)
  intro f hf hs
  obtain ⟨r, hr, hg, rfl⟩ := stamped_update hfresh hf hs
  exact ⟨r, hr, ⟨rfl, rfl, rfl, rfl⟩, hg.1.1.running⟩

/-- The effect of a reschedule. -/
theorem reschedule_effect (h : Inv db) (hfresh : Unstamped db seed) (held : WorkerClaim) (wake : WakeSpec) :
    Effect seed now db (reschedule seed held wake now db).db (.reschedule held wake) := by
  have hcas : EarlyRuns seed now db (reschedule seed held wake now db).db (.reschedule held wake)
      (suspendCas db seed wake now (rescheduleGuard db now held wake)) := by
    refine .update fun r hr hg => ⟨.rescheduled hg, Or.inl hg.1.running, ?_⟩
    simp [suspendAssignments, clearedWake, parkAssignments]
  have hfinish : TasksMoved seed now db (.reschedule held wake)
      (suspendCas db seed wake now (rescheduleGuard db now held wake))
      (reschedule seed held wake now db).db := by
    refine finishSuspension_moved fun f hf hs => ?_
    obtain ⟨r, _, _, rfl⟩ := stamped_update hfresh hf hs
    exact parkAssignments_queued seed .suspend (wake.wakeAt now) now r
  have hwaits : ∀ w ∈ (reschedule seed held wake now db).db.waits, w ∈ db.waits :=
    fun w hw => (mem_runsToWaits.mp hw).1
  refine .of_early hcas rfl (TasksMoved.trans (.of_eq rfl) hfinish)
    (fun w hw => Or.inl (hwaits w hw)) (fun w hw => Or.inl (mem_waitsGone h.held ?_ hw hw)) rfl
    (.of_eq rfl)
  intro f hf hs
  obtain ⟨r, hr, hg, rfl⟩ := stamped_update hfresh hf hs
  exact ⟨r, hr, ⟨rfl, rfl, rfl, rfl⟩, hg.1.running⟩

/-- The effect of a suspension. -/
theorem suspendRun_effect (h : Inv db) (hfresh : Unstamped db seed) (held : WorkerClaim) (wake : WakeSpec)
    (checkpoint : CheckpointWrite) :
    Effect seed now db (suspendRun seed held wake checkpoint now db).db
      (.suspendRun held wake checkpoint) := by
  set suspended := suspendCas db seed wake now (suspendRunGuard db now held wake checkpoint)
  set db' := (suspendRun seed held wake checkpoint now db).db
  have hcas : EarlyRuns seed now db db' (.suspendRun held wake checkpoint) suspended := by
    refine .update fun r hr hg => ⟨.suspended hg, Or.inl hg.1.running, ?_⟩
    simp [suspendAssignments, clearedWake, parkAssignments]
  have hruns : (checkpointWrite suspended seed held.runId checkpoint .suspend).runs = suspended.runs :=
    checkpointWrite_runs
  have hfinish : TasksMoved seed now db (.suspendRun held wake checkpoint)
      (checkpointWrite suspended seed held.runId checkpoint .suspend) db' := by
    refine finishSuspension_moved fun f hf hs => ?_
    obtain ⟨r, _, _, rfl⟩ := stamped_update hfresh (hruns ▸ hf) hs
    exact parkAssignments_queued seed .suspend (wake.wakeAt now) now r
  have hchecks : Checks seed now db db' (.suspendRun held wake checkpoint)
      (checkpointWrite suspended seed held.runId checkpoint .suspend) := by
    refine .write rfl fun f hf => ?_
    obtain ⟨hf, _, hs⟩ := stampedRun_eq_some.mp hf
    obtain ⟨r, hr, hg, rfl⟩ := stamped_update hfresh hf hs
    exact ⟨r, .suspended hr hg, rfl, rfl, rfl, rfl⟩
  have hwaits : ∀ w ∈ db'.waits,
      w ∈ (checkpointWrite suspended seed held.runId checkpoint .suspend).waits :=
    fun w hw => (mem_runsToWaits.mp hw).1
  rw [checkpointWrite_waits] at hwaits
  have htasks : TasksMoved seed now db (.suspendRun held wake checkpoint) db
      (checkpointWrite suspended seed held.runId checkpoint .suspend) :=
    .of_eq (checkpointWrite_tasks.trans rfl)
  refine .of_early hcas hruns (htasks.trans hfinish) (fun w hw => Or.inl (hwaits w hw))
    (fun w hw => Or.inl (mem_waitsGone h.held (fun f hf hs => ?_) hw ?_)) checkpointWrite_events
    hchecks
  · have hf' : f ∈ suspended.runs := hruns ▸ hf
    obtain ⟨r, hr, hg, rfl⟩ := stamped_update hfresh hf' hs
    exact ⟨r, hr, ⟨rfl, rfl, rfl, rfl⟩, hg.1.running⟩
  · have hsame : (checkpointWrite suspended seed held.runId checkpoint .suspend).waits = db.waits :=
      checkpointWrite_waits
    exact hsame ▸ hw

/-- The effect of a checkpoint. -/
theorem setCheckpoint_effect (hfresh : Unstamped db seed) (held : WorkerClaim) (taskId : String)
    (checkpoint : CheckpointWrite) (extendMs : ℤ) :
    Effect seed now db (setCheckpoint seed held taskId checkpoint extendMs now db).db
      (.setCheckpoint held taskId checkpoint extendMs) := by
  set leased := checkpointLeaseCas db seed held taskId checkpoint.key extendMs now
  set db' := (setCheckpoint seed held taskId checkpoint extendMs now db).db
  have hcas : EarlyRuns seed now db db' (.setCheckpoint held taskId checkpoint extendMs) leased := by
    refine .update fun r hr hg => ⟨.leased hg, Or.inl hg.1.running, ?_⟩
    simp [leaseAssignments]
  have hchecks : Checks seed now db db' (.setCheckpoint held taskId checkpoint extendMs) db' := by
    refine .write rfl fun f hf => ?_
    obtain ⟨hf, _, hs⟩ := stampedRun_eq_some.mp hf
    obtain ⟨r, hr, hg, rfl⟩ := stamped_update hfresh hf hs
    exact ⟨r, .leased hr hg, rfl, rfl, rfl, rfl⟩
  have hwaits : db'.waits = db.waits := checkpointWrite_waits
  exact .of_early hcas checkpointWrite_runs (.of_eq checkpointWrite_tasks)
    (fun w hw => Or.inl (hwaits ▸ hw)) (fun w hw => Or.inl (hwaits.symm ▸ hw))
    checkpointWrite_events hchecks

/-! ## Events -/

/-- The effect of an await, whether it meets its event or registers a wait. -/
theorem awaitEvent_effect (h : Inv db) (call : AwaitCall) :
    Effect seed now db (awaitEvent seed call now db).db (.awaitEvent call) := by
  set db' := (awaitEvent seed call now db).db
  set registered := registerWaitCas db seed call now with hregistered
  have hparked : EarlyRuns seed now db db' (.awaitEvent call) (awaitPark registered seed call) := by
    have hrel : Table.Rel (Run.Early seed now db db' (.awaitEvent call)) registered.runs
        (awaitPark registered seed call).runs := by
      refine waitsToRuns_rel (fun _ => Or.inl rfl) fun r hr f hf _ _ hid hn at' => ?_
      rw [registerWaitCas_runs] at hr
      obtain ⟨hg, _, rfl⟩ := awaitPark_source h hr hf hid hn.1.running
      have htimeout := registeredTimeout_eq hf
      obtain ⟨hclaimed, htask, t, ht, hown, hl⟩ := hn
      rw [registerWaitCas_tasks] at ht
      refine Or.inr ⟨?_, Or.inl hclaimed.running, by simp [Run.stampedAt]⟩
      have hawaited : Run.Move seed now db db' (.awaitEvent call) r
          ((awaitAssignments call (call.timeoutMs.map (now + ·)) r).stampedAt ⟨seed, .park⟩ at') :=
        .awaited hg ⟨hclaimed, htask, t, ht, hown, hl⟩ hf
      rw [← htimeout] at hawaited
      exact hawaited
    rw [hregistered, registerWaitCas_runs] at hrel
    exact hrel.moves _
  have hmirror : TasksMoved seed now db (.awaitEvent call) (awaitPark registered seed call) db' :=
    runsToTasks_moved fun _ _ _ _ hfol _ => .followed hfol.narrow trivial
  have htasks : TasksMoved seed now db (.awaitEvent call) db (awaitPark registered seed call) :=
    .of_eq (registerWaitCas_tasks call)
  refine .of_early hparked rfl (htasks.trans hmirror) (fun w hw => ?_)
    (fun w hw => Or.inl (mem_registerWaitCas.mpr (Or.inl hw))) (registerWaitCas_events call)
    (.of_eq (registerWaitCas_checkpoints call))
  rcases mem_registerWaitCas.mp hw with hw | ⟨hg, _, rfl⟩
  · exact Or.inl hw
  · exact Or.inr (.registered hg)

/-- The effect of a recorded completion, sound where the task it names has ended so. -/
theorem recordTaskDone_effect (call : RecordTaskDoneCall)
    (hsound : (Call.recordTaskDone call).Sound db) :
    Effect seed now db (recordTaskDone seed call now db).db (.recordTaskDone call) := by
  rw [recordTaskDone_eq call hsound]
  exact .of_early (.of_eq rfl) rfl (.of_eq rfl) (fun w hw => Or.inl hw) (fun w hw => Or.inl hw) rfl
    (.of_eq rfl)

/-- The effect of an emission. -/
theorem emitEvent_effect (h : Inv db) (hfresh : Unstamped db seed) (call : EmitCall) :
    Effect seed now db (emitEvent seed call now db).db (.emitEvent call) := by
  have hdb' : (emitEvent seed call now db).db =
      wakeWaiters (emitEventCas db seed call now) seed call.queue call.eventName.value := rfl
  generalize (emitEvent seed call now db).db = db' at hdb' ⊢
  have hruns : EarlyRuns seed now db db' (.emitEvent call) (emitEventCas db seed call now) :=
    .of_eq rfl
  have htasks : TasksMoved seed now db (.emitEvent call) db db' := by
    have hcas : TasksMoved seed now db (.emitEvent call) db (emitEventCas db seed call now) :=
      .of_eq rfl
    rw [hdb']
    exact hcas.trans wakeWaiters_moved
  have hsame : db'.events = (emitEventCas db seed call now).events := by rw [hdb']; rfl
  have hchecks : db'.checkpoints = db.checkpoints := by rw [hdb']; rfl
  have hkept : ∀ e ∈ (emitEventCas db seed call now).events, e ∈ db'.events := by
    intro e he
    rwa [hsame]
  refine ⟨hruns.wake h.held hfresh (fun _ hw => hw) hkept (congrArg Db.runs hdb'),
    htasks.moves _, fun w hw => Or.inl ?_, fun w hw => ?_, ?_, Checks.of_eq hchecks⟩
  · rw [hdb'] at hw
    have hw' : w ∈ (emitEventCas db seed call now).waits := mem_of_wakeWaiters_waits hw
    exact hw'
  · have hreap := hruns.reaped h.held hfresh (fun _ hw => hw) hkept (congrArg Db.runs hdb') hw
    rwa [← hdb'] at hreap
  · rw [hsame]
    simp only [emitEventCas, Table.upsert]
    split
    · rename_i hfree
      exact .push Event.Kept.refl (fun _ => Table.mem_push hfree) .emitted
    · have hrel : Table.Rel Event.Kept db.events (db.events.update
          (fun e => Table.Conflicts (call.event seed now) e Event.keys ∧
            e.fenceStamp ≠ some ⟨seed, .event⟩ ∧ epochBounds.Within e.emittedAtMs)
          ⟨fun e => { e with fenceStamp := some ⟨seed, .event⟩, fenceAtMs := e.emittedAtMs },
            fun _ => rfl⟩) :=
        .update (fun _ _ _ => ⟨rfl, rfl, rfl, rfl⟩) fun e _ _ => .refl e
      exact hrel.moves _

/-! ## spawn and retryTask -/

/-- The effect of an admitted spawn, whether it inserts a task or finds one. -/
theorem spawn_effect (h : Inv db) {call : SpawnCall} (hadm : call.Admitted)
    (hrun : spawn seed call now db = some out) : Effect seed now db out.db (.spawn call) := by
  have hkept : ∀ r : Run, Run.Moved seed now db out.db (.spawn call) r r := fun _ => Or.inl rfl
  obtain ⟨hdb, _⟩ | ⟨hguard, hfree, runs, hruns, hdb, _⟩ := spawn_cases hadm h hrun
  · rw [hdb]
    exact .of_early (.of_eq rfl) rfl (.of_eq rfl) (fun w hw => Or.inl hw) (fun w hw => Or.inl hw) rfl
      (.of_eq rfl)
  · rw [hdb] at hkept ⊢
    exact ⟨.push hkept hruns (.first hguard),
      .push (fun _ => .refl) (fun _ => Table.mem_push hfree) (.spawned hguard),
      fun w hw => Or.inl hw, fun w hw => Or.inl hw, .refl Event.Kept.refl _, Checks.of_eq rfl⟩

/-- The effect of a retry. -/
theorem retryTask_effect (h : Inv db) {call : RetryCall}
    (hrun : retryTask seed call now db = some out) : Effect seed now db out.db (.retryTask call) := by
  have hkept : ∀ r : Run, Run.Moved seed now db out.db (.retryTask call) r r := fun _ => Or.inl rfl
  obtain ⟨hdb, _⟩ | ⟨t, ht, hg, runs, p, hp, hown, htop, hruns, hdb, _⟩ := retryTask_cases h hrun
  · rw [hdb]
    exact .of_early (.of_eq rfl) rfl (.of_eq rfl) (fun w hw => Or.inl hw) (fun w hw => Or.inl hw) rfl
      (.of_eq rfl)
  · rw [hdb] at hkept ⊢
    have hrevived : TasksMoved seed now db (.retryTask call) db (reviveCas db seed call now) := by
      refine Table.Rel.update (fun t _ hg => ?_) fun t _ _ => .refl
      exact .single ⟨_, .revive, now, .revived hg, rfl⟩
    exact ⟨.push hkept hruns (.revived ht hg hp hown htop), hrevived.moves _,
      fun w hw => Or.inl hw, fun w hw => Or.inl hw, .refl Event.Kept.refl _, Checks.of_eq rfl⟩

/-! ## complete and cancelTransition -/

/-- The effect of a completion. -/
theorem complete_effect (h : Inv db) (hfresh : Unused db seed) (held : WorkerClaim)
    (taskId resultJson : String) :
    Effect seed now db (complete seed held taskId resultJson now db).db
      (.complete held taskId resultJson) := by
  set db' := (complete seed held taskId resultJson now db).db with hdb'
  set completed := completeCas db seed held resultJson now
  set mirrored := completeTaskMirror completed seed held resultJson
  have hcas : EarlyRuns seed now db db' (.complete held taskId resultJson) completed := by
    refine .update fun r hr hg => ⟨.completed hg, Or.inl hg.1.running, ?_⟩
    simp [completeAssignments]
  have hmirror : TasksMoved seed now db (.complete held taskId resultJson) completed mirrored := by
    refine runsToTasks_moved fun t ht f hf hfol _ => ?_
    obtain ⟨r, hr, hg, rfl⟩ := stamped_update hfresh.runs hf hfol.stamp
    exact .completed hfol.narrow hr (h.toOwned.runOwnedByTask hr ht hfol.taskId) hg
  have htasks : TasksMoved seed now db (.complete held taskId resultJson) db
      (waitsGone mirrored seed held.runId .complete) := TasksMoved.trans (.of_eq rfl) hmirror
  refine Effect.of_finish h.held hfresh.runs hdb' hcas htasks
    (fun w hw => (mem_runsToWaits.mp hw).1)
    (fun w hw => Or.inl (mem_waitsGone h.held (fun f hf hs => ?_) hw hw)) rfl (.of_eq rfl)
    fun t ht _ hs => ?_
  · have hf' : f ∈ completed.runs := hf
    obtain ⟨r, hr, hg, rfl⟩ := stamped_update hfresh.runs hf' hs
    exact ⟨r, hr, ⟨rfl, rfl, rfl, rfl⟩, hg.1.running⟩
  · obtain ⟨_, _, _, _, _, _, _, rfl⟩ | ⟨ht, _⟩ := runsToTasks_cases ht
    · rfl
    · exact absurd rfl (hfresh.tasks t ht _ hs)

/-- The effect of a cancellation. -/
theorem cancelTransition_effect (h : Inv db) (hfresh : Unused db seed) (c : Cancellation) :
    Effect seed now db (cancelTransition seed c now db).db (.cancelTransition c) := by
  set db' := (cancelTransition seed c now db).db with hdb'
  set cancelled := cancelCas db seed c now
  set ended := cancelRuns cancelled seed c
  have hcas : ∀ t ∈ cancelled.tasks, t.fenceStamp = some ⟨seed, .cancel⟩ →
      ∃ t₀ ∈ db.tasks, cancelGuard db now c t₀ ∧ t.Same t₀ := by
    intro t ht hs
    obtain ⟨t₀, ht₀, hg, rfl⟩ | ⟨ht, _⟩ := Table.update_cases ht
    · exact ⟨t₀, ht₀, hg, rfl, rfl⟩
    · exact absurd rfl (hfresh.tasks t ht _ hs)
  have hrel : Table.Rel (fun r r₁ => r₁ = r ∨
      (Run.Move seed now db db' (.cancelTransition c) r r₁ ∧ r₁.state ≠ .sleeping ∧
        r₁.fenceStamp = some ⟨seed, .runs⟩)) cancelled.runs ended.runs := by
    refine tasksToRuns_rel (fun _ => Or.inl rfl) fun r hr f hf _ hs hid hn at' => Or.inr ?_
    obtain ⟨t, ht, hg, hsame⟩ := hcas f hf hs
    refine ⟨.cancelled ht hg (h.toOwned.runOwnedByTask hr ht ?_) hn.2, ?_, rfl⟩
    · exact hid.symm.trans hsame.taskId.symm
    · simp [cancelAssignments, Run.stampedAt]
  have hruns : EarlyRuns seed now db db' (.cancelTransition c) ended := by
    have hearly : Table.Rel (Run.Early seed now db db' (.cancelTransition c)) cancelled.runs
        ended.runs := by
      refine hrel.imp fun r r₁ hm => hm.imp id fun hm => ⟨hm.1, Or.inr hm.2.1, ?_⟩
      simp [hm.2.2]
    exact hearly.moves _
  have htasks : TasksMoved seed now db (.cancelTransition c) db cancelled := by
    refine Table.Rel.update (fun t _ hg => ?_) fun t _ _ => .refl
    exact .single ⟨_, .cancel, now, .cancelled hg, rfl⟩
  have htasks' : TasksMoved seed now db (.cancelTransition c) db (cancelWaits ended seed c) := htasks
  refine Effect.of_finish h.held hfresh.runs hdb' hruns htasks'
    (fun w hw => (mem_runsToWaits.mp hw).1) (fun w hw => ?_) rfl (.of_eq rfl) fun t ht _ hs => ?_
  · by_cases hw' : w ∈ (cancelWaits ended seed c).waits
    · exact Or.inl hw'
    obtain ⟨f, hf, ⟨_, hs⟩, hid⟩ : ∃ f ∈ ended.runs, ((f.taskId = c.taskId ∧ f.state = .cancelled) ∧
        f.fenceStamp = some ⟨seed, .runs⟩) ∧ f.runId = w.runId :=
      (not_not.mp fun hno => hw' (mem_runsToWaits.mpr ⟨hw, hno⟩)).1
    obtain ⟨r, hr, rfl | ⟨hm, hst, _⟩⟩ := hrel.before f hf
    · exact absurd rfl (hfresh.runs f hr _ hs)
    · have hr' : r ∈ db.runs := hr
      exact Or.inr ⟨r, hr', f, hf, h.held.parkedOn hw hr' (hm.same.runId.symm.trans hid), hm, hst⟩
  · obtain ⟨t₀, _, _, rfl⟩ | ⟨ht, _⟩ := Table.update_cases ht
    · rfl
    · exact absurd rfl (hfresh.tasks t ht _ hs)

end Durablerun
