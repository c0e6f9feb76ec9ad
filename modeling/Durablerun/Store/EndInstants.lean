import Durablerun.Store.EventFacts

/-!
# When a task ended

A batch that ends a task stamps it at the instant the batch ran at: its compare-and-set stamps the run
at that instant, and every statement after takes the instant of the rows it follows. So the stamp of
an ended task says when it ended.

Reference: `packages/store-libsql/src/store.ts`.
-/

namespace Durablerun

open Relational

variable {b : Batch} {seed queue : String} {now : ℤ} {db db' : Db} {name fence : Statement}
  {out : Outcome}

/-- Every run and every task the batch stamped, it stamped at its own instant. -/
structure Db.StampedNow (db : Db) (seed : String) (now : ℤ) : Prop where
  runs : ∀ r ∈ db.runs, ∀ name, r.fenceStamp = some ⟨seed, name⟩ → r.fenceAtMs = now
  tasks : ∀ t ∈ db.tasks, ∀ name, t.fenceStamp = some ⟨seed, name⟩ → t.fenceAtMs = now

/-- A stamp that is on no row is on none at another instant. -/
theorem Unused.stampedNow (h : Unused db seed) (now : ℤ) : db.StampedNow seed now :=
  ⟨fun r hr _ hs => absurd rfl (h.runs r hr _ hs), fun t ht _ hs => absurd rfl (h.tasks t ht _ hs)⟩

namespace Db.StampedNow

/-! ## Statements -/

/-- An update of runs stamps at this instant what it stamps. -/
theorem updateRuns (h : db.StampedNow seed now) {p : Run → Prop} [DecidablePred p]
    {f : Table.Change Run.keys} (hf : ∀ r ∈ db.runs, p r → (f r).fenceAtMs = now) :
    ({ db with runs := db.runs.update p f } : Db).StampedNow seed now :=
  ⟨Table.forall_update h.runs fun r hr hp _ _ _ => hf r hr hp, h.tasks⟩

/-- An update of tasks stamps at this instant what it stamps. -/
theorem updateTasks (h : db.StampedNow seed now) {p : Task → Prop} [DecidablePred p]
    {f : Table.Change Task.keys} (hf : ∀ t ∈ db.tasks, p t → (f t).fenceAtMs = now) :
    ({ db with tasks := db.tasks.update p f } : Db).StampedNow seed now :=
  ⟨h.runs, Table.forall_update h.tasks fun t ht hp _ _ _ => hf t ht hp⟩

/-- A follow-on that carries runs to tasks stamps at the instant of the runs it follows. -/
theorem runsToTasks (h : db.StampedNow seed now) {where' : Run → Prop} [DecidablePred where']
    {narrow : Task → Prop} [DecidablePred narrow] {set : Table.Change Task.keys} :
    (runsToTasks db seed name fence queue where' narrow set).StampedNow seed now := by
  refine h.updateTasks fun t _ hsource => ?_
  obtain ⟨⟨f, hf, hs, _⟩, _⟩ := hsource
  refine sourceInstant_eq (List.mem_map.mpr ⟨f, List.mem_filter.mpr ⟨hf, decide_eq_true hs⟩,
    h.runs f hf fence hs.2.2⟩) fun x hx => ?_
  obtain ⟨r, hr, rfl⟩ := List.mem_map.mp hx
  obtain ⟨hr, hs⟩ := List.mem_filter.mp hr
  exact h.runs r hr fence (of_decide_eq_true hs).2.2

/-- A follow-on that carries tasks to runs stamps at the instant of the tasks it follows. -/
theorem tasksToRuns (h : db.StampedNow seed now) {where' : Task → Prop} [DecidablePred where']
    {narrow : Run → Prop} [DecidablePred narrow] {set : Table.Change Run.keys} :
    (tasksToRuns db seed name fence queue where' narrow set).StampedNow seed now := by
  refine h.updateRuns fun r _ hsource => ?_
  obtain ⟨⟨f, hf, hs, _⟩, _⟩ := hsource
  refine sourceInstant_eq (List.mem_map.mpr ⟨f, List.mem_filter.mpr ⟨hf, decide_eq_true hs⟩,
    h.tasks f hf fence hs.2.2⟩) fun x hx => ?_
  obtain ⟨t, ht, rfl⟩ := List.mem_map.mp hx
  obtain ⟨ht, hs⟩ := List.mem_filter.mp ht
  exact h.tasks t ht fence (of_decide_eq_true hs).2.2

/-- A deletion of waits stamps nothing. -/
theorem runsToWaits (h : db.StampedNow seed now) {where' : Run → Prop} [DecidablePred where']
    {narrow : Wait → Prop} [DecidablePred narrow] :
    (runsToWaits db seed fence where' narrow).StampedNow seed now := ⟨h.runs, h.tasks⟩

/-- A checkpoint write stamps nothing. -/
theorem checkpointWrite (h : db.StampedNow seed now) {runId : String} {write : CheckpointWrite} :
    (checkpointWrite db seed runId write fence).StampedNow seed now := by
  unfold Durablerun.checkpointWrite
  split
  · exact h
  · split
    · exact ⟨h.runs, h.tasks⟩
    · exact h

/-- A successor is stamped at the instant of the run it succeeds. -/
theorem failureSuccessor (h : db.StampedNow seed now) {successorId runId : String} {delayMs : ℤ}
    {state : TaskState} {admission : Run → Task → Prop} [∀ f t, Decidable (admission f t)]
    (hrun : failureSuccessor db seed name fence successorId runId delayMs state admission =
      some db') : db'.StampedNow seed now := by
  obtain ⟨rfl, _⟩ | ⟨f, hf, _, runs, _, hruns, rfl⟩ := failureSuccessor_cases hrun
  · exact h
  · obtain ⟨hmem, _, hs⟩ := stampedRun_eq_some.mp hf
    refine ⟨fun r hr σ hσ => ?_, h.tasks⟩
    obtain hr | rfl := (hruns r).mp hr
    · exact h.runs r hr σ hσ
    · exact h.runs f hmem fence hs

/-- A rollback pass is stamped at the instant of the run it follows. -/
theorem sagaPass (h : db.StampedNow seed now) {runId passId : String} {enteringWith : Option String}
    {delayMs : ℤ} {admission : Run → Task → Prop} [∀ f t, Decidable (admission f t)]
    (hrun : sagaPass db seed queue runId passId fence enteringWith delayMs admission = some db') :
    db'.StampedNow seed now := by
  obtain ⟨placed, hplaced, hdb'⟩ := Option.bind_eq_some_iff.mp hrun
  obtain rfl := Option.some.inj hdb'
  have hplace : placed.StampedNow seed now := h.failureSuccessor hplaced
  have hmarked : (sagaPhaseMarker placed seed passId enteringWith).StampedNow seed now := by
    unfold sagaPhaseMarker
    split
    · exact hplace
    · exact hplace.checkpointWrite
  exact hmarked.runsToTasks

/-- A batch that ended a task owes its waiters a wake, which leaves the ended tasks alone. -/
theorem addTaskDone_ended (h : db.StampedNow seed now) {taskId payloadJson : String}
    {terminal : Statement} {t : Task}
    (ht : t ∈ (addTaskDone db seed queue taskId terminal payloadJson).tasks) (hl : ¬ t.state.Live) :
    ∀ name, t.fenceStamp = some ⟨seed, name⟩ → t.fenceAtMs = now := by
  have ht : t ∈ (wakeRuns (taskDoneEvent db seed queue taskId terminal payloadJson) seed queue
      (taskDoneEventName taskId)).tasks :=
    mem_of_runsToTasks_ended _ ht (fun _ _ _ _ _ => trivial) hl
  have ht : t ∈ (taskDoneEvent db seed queue taskId terminal payloadJson).tasks := ht
  refine h.tasks t ?_
  unfold taskDoneEvent at ht
  split at ht
  · exact ht
  · split at ht
    · exact ht
    · exact ht

/-! ## Batches -/

variable {t : Task}

/-- A task that a completion ended is stamped at the completion's instant. -/
theorem complete (h : db.StampedNow seed now) {held : WorkerClaim} {taskId resultJson : String}
    (ht : t ∈ (complete seed held taskId resultJson now db).db.tasks) (hl : ¬ t.state.Live) :
    ∀ name, t.fenceStamp = some ⟨seed, name⟩ → t.fenceAtMs = now := by
  have hcas : (completeCas db seed held resultJson now).StampedNow seed now :=
    h.updateRuns fun _ _ _ => rfl
  have hmirrored : (completeTaskMirror (completeCas db seed held resultJson now) seed held
    resultJson).StampedNow seed now := hcas.runsToTasks
  exact hmirrored.runsToWaits.addTaskDone_ended ht hl

/-- A task that a failure ended is stamped at the failure's instant. -/
theorem failInto (h : db.StampedNow seed now) {failure : Failure}
    (hrun : failInto seed failure now db = some out) (ht : t ∈ out.db.tasks) (hl : ¬ t.state.Live) :
    ∀ name, t.fenceStamp = some ⟨seed, name⟩ → t.fenceAtMs = now := by
  have hcas : (failCas db seed failure now).StampedNow seed now := h.updateRuns fun _ _ _ => rfl
  have htried : (rollbackTries (failCas db seed failure now) seed failure).StampedNow seed now := by
    unfold rollbackTries
    split
    · exact hcas
    · exact hcas.checkpointWrite
  obtain ⟨passed, hpassed, hrun⟩ := Option.bind_eq_some_iff.mp hrun
  obtain ⟨retried, hretried, hout⟩ := Option.bind_eq_some_iff.mp hrun
  obtain rfl := Option.some.inj hout
  have hpass : passed.StampedNow seed now := by
    unfold failSagaPass at hpassed
    split at hpassed
    · exact htried.sagaPass hpassed
    · split at hpassed
      · exact Option.some.inj hpassed ▸ htried
      · exact htried.sagaPass hpassed
  have hretry : retried.StampedNow seed now := by
    unfold userRetry at hretried
    split at hretried
    · exact Option.some.inj hretried ▸ hpass
    · obtain ⟨placed, hplaced, rfl⟩ := Option.map_eq_some_iff.mp hretried
      exact (hpass.failureSuccessor hplaced).runsToTasks
  have hterminal : (failTerminal retried seed failure).StampedNow seed now := hretry.runsToTasks
  exact hterminal.runsToWaits.addTaskDone_ended ht hl

/-- A task that the sweep of a lost launch ended is stamped at the sweep's instant. -/
theorem sweepLostLaunch (h : db.StampedNow seed now) {swept : Swept}
    (hrun : sweepLostLaunch seed swept now db = some out) (ht : t ∈ out.db.tasks)
    (hl : ¬ t.state.Live) : ∀ name, t.fenceStamp = some ⟨seed, name⟩ → t.fenceAtMs = now := by
  have hreopened : (reopenLostLaunchCas db seed swept now).StampedNow seed now :=
    h.updateRuns fun _ _ _ => rfl
  have hcapped : (capLostLaunchCas (reopenLostLaunchCas db seed swept now) seed swept
    now).StampedNow seed now := hreopened.updateRuns fun _ _ _ => rfl
  obtain ⟨passed, hpassed, hout⟩ := Option.bind_eq_some_iff.mp hrun
  obtain rfl := Option.some.inj hout
  have hpass : passed.StampedNow seed now := hcapped.sagaPass hpassed
  have hpending : (taskPending passed seed swept).StampedNow seed now := hpass.runsToTasks
  have hfail : (taskFail (taskPending passed seed swept) seed swept).StampedNow seed now :=
    hpending.runsToTasks
  exact hfail.runsToWaits.addTaskDone_ended ht hl

/-- A task that the sweep of a timeout ended is stamped at the sweep's instant. -/
theorem sweepClaimTimeout (h : db.StampedNow seed now) {swept : Swept}
    (hrun : sweepClaimTimeout seed swept now db = some out) (ht : t ∈ out.db.tasks)
    (hl : ¬ t.state.Live) : ∀ name, t.fenceStamp = some ⟨seed, name⟩ → t.fenceAtMs = now := by
  have hcas : (failClaimTimeoutCas db seed swept now).StampedNow seed now :=
    h.updateRuns fun _ _ _ => rfl
  obtain ⟨placed, hplaced, hrun⟩ := Option.bind_eq_some_iff.mp hrun
  obtain ⟨passed, hpassed, hout⟩ := Option.bind_eq_some_iff.mp hrun
  obtain rfl := Option.some.inj hout
  have hplace : placed.StampedNow seed now := hcas.failureSuccessor hplaced
  have hpass : passed.StampedNow seed now := hplace.sagaPass hpassed
  have hterminal : (timeoutTerminal passed seed swept).StampedNow seed now := hpass.runsToTasks
  have hbooked : (bookkeeping (timeoutTerminal passed seed swept) seed swept).StampedNow seed now :=
    hterminal.runsToTasks
  exact hbooked.runsToWaits.addTaskDone_ended ht hl

/-- A task that a cancellation ended is stamped at the cancellation's instant. -/
theorem cancelTransition (h : db.StampedNow seed now) {c : Cancellation}
    (ht : t ∈ (cancelTransition seed c now db).db.tasks) (hl : ¬ t.state.Live) :
    ∀ name, t.fenceStamp = some ⟨seed, name⟩ → t.fenceAtMs = now := by
  have hcas : (cancelCas db seed c now).StampedNow seed now := h.updateTasks fun _ _ _ => rfl
  have hruns : (cancelRuns (cancelCas db seed c now) seed c).StampedNow seed now := hcas.tasksToRuns
  exact hruns.runsToWaits.addTaskDone_ended ht hl

end Db.StampedNow

/-- A batch of a seed of its own that ended a task stamped it at the instant it ran at. -/
theorem Batch.ended_now (hunused : Unused db b.seed) (hends : b.call.Ends)
    (hrun : b.run now db = some out) {t : Task} (ht : t ∈ out.db.tasks) (hl : ¬ t.state.Live)
    (hs : t.fenceStamp = some ⟨b.seed, name⟩) : t.fenceAtMs = now := by
  have hnow := hunused.stampedNow now
  obtain ⟨seed, call⟩ := b
  cases call with
  | complete held id result =>
    obtain rfl := Option.some.inj hrun
    exact hnow.complete ht hl name hs
  | failInto failure => exact hnow.failInto hrun ht hl name hs
  | sweepLostLaunch swept => exact hnow.sweepLostLaunch hrun ht hl name hs
  | sweepClaimTimeout swept => exact hnow.sweepClaimTimeout hrun ht hl name hs
  | cancelTransition c =>
    obtain rfl := Option.some.inj hrun
    exact hnow.cancelTransition ht hl name hs
  | spawn | claim | activate | heartbeat | deferLaunch | reschedule | suspendRun | awaitEvent
  | recordTaskDone | emitEvent | setCheckpoint | retryTask | expireLeaseNow => exact hends.elim

end Durablerun
