import Durablerun.Store.Accounting

/-!
# A batch delivered twice

A caller that lost an answer sends the very same batch again, at any later moment. Where the second
delivery spares the live tasks (`Batch.Spares`) every state keeps its units whole and accounted for,
and a batch that ended a task does not end it again after a revival. It does not always spare them: a
terminal arm yields to the run its own batch placed, and a revival's run is no such run.

Reference: `packages/core/src/fenced-batch.ts` and `packages/store-libsql/src/store.ts`.
-/

namespace Durablerun

open Relational

variable {db db' db'' : Db} {seed queue : String} {now : ℤ} {out : Outcome}

/-! ## Live runs -/

/-- Every live run is there, and live. -/
def KeepsLive (db db' : Db) : Prop :=
  ∀ r ∈ db.runs, r.state.Live → ∃ r' ∈ db'.runs, r.Same r' ∧ r'.state.Live

/-- Runs that stay are live or not as they were. -/
theorem KeepsLive.of_runs (h : db'.runs = db.runs) : KeepsLive db db' :=
  fun r hr hl => ⟨r, h ▸ hr, .refl r, hl⟩

/-- Two changes that keep live runs, one after the other. -/
theorem KeepsLive.trans (h : KeepsLive db db') (h' : KeepsLive db' db'') : KeepsLive db db'' := by
  intro r hr hl
  obtain ⟨r', hr', hsame, hl'⟩ := h r hr hl
  obtain ⟨r'', hr'', hsame', hl''⟩ := h' r' hr' hl'
  exact ⟨r'', hr'', hsame.trans hsame', hl''⟩

/-- An update that ends no run keeps the live ones. -/
theorem KeepsLive.updateRuns {p : Run → Prop} [DecidablePred p] {f : Table.Change Run.keys}
    (hf : ∀ r, p r → r.Same (f r) ∧ (r.state.Live → (f r).state.Live)) :
    KeepsLive db { db with runs := db.runs.update p f } := by
  intro r hr hl
  by_cases hp : p r
  · exact ⟨f r, Table.mem_update_of_pos hr hp, (hf r hp).1, (hf r hp).2 hl⟩
  · exact ⟨r, Table.mem_update_of_neg hr hp, .refl r, hl⟩

/-- The wake ends no run. -/
theorem KeepsLive.wakeWaiters {eventName : String} :
    KeepsLive db (wakeWaiters db seed queue eventName) := by
  have hwoken : KeepsLive db (wakeRuns db seed queue eventName) :=
    .updateRuns fun _ _ => ⟨⟨rfl, rfl, rfl, rfl⟩, fun _ => trivial⟩
  exact hwoken.trans (.updateRuns fun _ _ => ⟨⟨rfl, rfl, rfl, rfl⟩, id⟩)

/-- The end of a task, with its completion event, keeps the live runs. -/
theorem KeepsLive.finish {taskId payloadJson runId : String} {terminal fence : Statement} :
    KeepsLive db
      (addTaskDone (waitsGone db seed runId fence) seed queue taskId terminal payloadJson) := by
  obtain ⟨events, heq⟩ := taskDoneEvent_withEvents (waitsGone db seed runId fence) seed queue taskId
    payloadJson terminal
  have hevents : KeepsLive db { waitsGone db seed runId fence with events } := .of_runs rfl
  unfold addTaskDone
  rw [heq]
  exact hevents.trans .wakeWaiters

/-- Placing a successor keeps the live runs. -/
theorem KeepsLive.failureSuccessor {name fence : Statement} {passId runId : String} {delayMs : ℤ}
    {state : TaskState} {admission : Run → Task → Prop} [∀ f t, Decidable (admission f t)]
    (h : failureSuccessor db seed name fence passId runId delayMs state admission = some db') :
    KeepsLive db db' := by
  obtain ⟨rfl, _⟩ | ⟨f, _, _, runs, _, hruns, rfl⟩ := failureSuccessor_cases h
  · exact .of_runs rfl
  · exact fun r hr hl => ⟨r, (hruns r).mpr (Or.inl hr), .refl r, hl⟩

/-- A rollback pass keeps the live runs. -/
theorem KeepsLive.sagaPass {fence : Statement} {runId passId : String}
    {enteringWith : Option String} {delayMs : ℤ} {admission : Run → Task → Prop}
    [∀ f t, Decidable (admission f t)]
    (h : sagaPass db seed queue runId passId fence enteringWith delayMs admission = some db') :
    KeepsLive db db' := by
  obtain ⟨placed, hplaced, hdb'⟩ := Option.bind_eq_some_iff.mp h
  obtain rfl := Option.some.inj hdb'
  exact (KeepsLive.failureSuccessor hplaced).trans (.of_runs sagaPhaseMarker_runs)

/-- A live task stays live where its live run does. -/
theorem KeepsLive.live (hkeeps : KeepsLive db db') (h : Inv db) (h' : Inv db') {t t' : Task}
    (ht : t ∈ db.tasks) (ht' : t' ∈ db'.tasks) (hid : t'.taskId = t.taskId) (hl : t.state.Live) :
    t'.state.Live := by
  obtain ⟨r, hr, hrid, hrl⟩ := (h.settled t ht).hasLive hl
  obtain ⟨r', hr', hsame, hrl'⟩ := hkeeps r hr hrl
  exact h'.toUnits.live hr' ht' (hsame.taskId.trans (hrid.trans hid.symm)) hrl'

/-! ## The batches that fail a run -/

/-- The run a batch would fail. -/
def Batch.failsRun (b : Batch) : Option String :=
  match b.call with
  | .failInto failure => some failure.claim.runId
  | .sweepLostLaunch swept | .sweepClaimTimeout swept => some swept.runId
  | _ => none

/-- A batch that fails a run either ends no run, or it took the run, which was running, and ended
it. -/
def EndsOnly (db db' : Db) (runId : String) : Prop :=
  KeepsLive db db' ∨
    ((∃ r ∈ db.runs, r.runId = runId ∧ r.state = .running) ∧
      ∃ r ∈ db'.runs, r.runId = runId ∧ ¬ r.state.Live)

/-- A failure batch that takes a run wins, and leaves the run failed. -/
theorem failInto_failed {failure : Failure} (hrun : failInto seed failure now db = some out) {r : Run}
    (hr : r ∈ db.runs) (hg : failGuard db now failure r) :
    failAssignments seed .fail failure.failureJson now r ∈ out.db.runs ∧ out.won = some .fail := by
  obtain ⟨passed, hpass, hrun⟩ := Option.bind_eq_some_iff.mp hrun
  obtain ⟨retried, hretry, hout⟩ := Option.bind_eq_some_iff.mp hrun
  obtain rfl := Option.some.inj hout
  have htried : failAssignments seed .fail failure.failureJson now r ∈
      (rollbackTries (failCas db seed failure now) seed failure).runs := by
    rw [rollbackTries_runs]
    exact Table.mem_update_of_pos hr hg
  exact ⟨(failRest_frame hpass hretry).mem_ended htried id, wonBy_eq_some.mpr ⟨⟨r, hr, hg⟩, rfl⟩⟩

/-- A failure ends its run or none. -/
theorem failInto_endsOnly {failure : Failure} (hrun : failInto seed failure now db = some out) :
    EndsOnly db out.db failure.claim.runId := by
  by_cases hg : ∃ r ∈ db.runs, failGuard db now failure r
  · obtain ⟨r, hr, hg⟩ := hg
    exact Or.inr ⟨⟨r, hr, hg.1.1, hg.1.running⟩, _, (failInto_failed hrun hr hg).1, hg.1.1, id⟩
  · obtain ⟨passed, hpass, hrun⟩ := Option.bind_eq_some_iff.mp hrun
    obtain ⟨retried, hretry, hout⟩ := Option.bind_eq_some_iff.mp hrun
    obtain rfl := Option.some.inj hout
    have hcas : failCas db seed failure now = db :=
      updateRuns_of_forall_not fun r hr hgr => hg ⟨r, hr, hgr⟩
    rw [hcas] at hpass
    have htried : KeepsLive db (rollbackTries db seed failure) := .of_runs rollbackTries_runs
    have hpassed : KeepsLive (rollbackTries db seed failure) passed := by
      unfold failSagaPass at hpass
      split at hpass
      · exact .sagaPass hpass
      · split at hpass
        · exact .of_runs (by rw [Option.some.inj hpass])
        · exact .sagaPass hpass
    have hretried : KeepsLive passed (failTerminal retried seed failure) := by
      unfold userRetry at hretry
      split at hretry
      · obtain rfl := Option.some.inj hretry
        exact .of_runs rfl
      · obtain ⟨placed, hplaced, rfl⟩ := Option.map_eq_some_iff.mp hretry
        exact (KeepsLive.failureSuccessor hplaced).trans (.of_runs rfl)
    exact Or.inl (((htried.trans hpassed).trans hretried).trans .finish)

/-- The sweep of a lost launch ends its run or none. -/
theorem sweepLostLaunch_endsOnly {swept : Swept}
    (hrun : sweepLostLaunch seed swept now db = some out) : EndsOnly db out.db swept.runId := by
  obtain ⟨passed, hpass, hout⟩ := Option.bind_eq_some_iff.mp hrun
  obtain rfl := Option.some.inj hout
  by_cases hg : ∃ r ∈ (reopenLostLaunchCas db seed swept now).runs,
      capGuard (reopenLostLaunchCas db seed swept now) now swept r
  · obtain ⟨r, hr, hg⟩ := hg
    obtain ⟨r', hr', hid, hst⟩ : ∃ r' ∈ (capLostLaunchCas (reopenLostLaunchCas db seed swept now)
        seed swept now).runs, r'.runId = r.runId ∧ r'.state = .failed :=
      ⟨_, Table.mem_update_of_pos hr hg, rfl, rfl⟩
    have hr₀ : r ∈ db.runs := by
      obtain ⟨r₀, _, _, rfl⟩ | ⟨hr, _⟩ := Table.update_cases hr
      · cases hg.1.2.2.1
      · exact hr
    have hl : ¬ r'.state.Live := by simp [hst]
    have hframe : Framed seed (capLostLaunchCas (reopenLostLaunchCas db seed swept now) seed swept
        now) passed := .sagaPass trivial hpass
    have hended : r' ∈ (taskFail (taskPending passed seed swept) seed swept).runs :=
      hframe.mem_ended hr' hl
    exact Or.inr ⟨⟨r, hr₀, hg.1.1, hg.1.2.2.1⟩, r', Frame.finish.mem_ended hended hl,
      hid.trans hg.1.1, hl⟩
  · have hcap : capLostLaunchCas (reopenLostLaunchCas db seed swept now) seed swept now =
        reopenLostLaunchCas db seed swept now :=
      updateRuns_of_forall_not fun r hr hgr => hg ⟨r, hr, hgr⟩
    rw [hcap] at hpass
    have hreopen : KeepsLive db (reopenLostLaunchCas db seed swept now) :=
      .updateRuns fun _ _ => ⟨⟨rfl, rfl, rfl, rfl⟩, fun _ => trivial⟩
    have hended : KeepsLive passed (taskFail (taskPending passed seed swept) seed swept) :=
      .of_runs rfl
    exact Or.inl (((hreopen.trans (.sagaPass hpass)).trans hended).trans .finish)

/-- The sweep of a timeout ends its run or none. -/
theorem sweepClaimTimeout_endsOnly {swept : Swept}
    (hrun : sweepClaimTimeout seed swept now db = some out) : EndsOnly db out.db swept.runId := by
  obtain ⟨placed, hsucc, hrun⟩ := Option.bind_eq_some_iff.mp hrun
  obtain ⟨passed, hpass, hout⟩ := Option.bind_eq_some_iff.mp hrun
  obtain rfl := Option.some.inj hout
  by_cases hg : ∃ r ∈ db.runs, claimTimeoutGuard db now swept r
  · obtain ⟨r, hr, hg⟩ := hg
    obtain ⟨r', hr', hid, hst⟩ : ∃ r' ∈ (failClaimTimeoutCas db seed swept now).runs,
        r'.runId = r.runId ∧ r'.state = .failed := ⟨_, Table.mem_update_of_pos hr hg, rfl, rfl⟩
    have hl : ¬ r'.state.Live := by simp [hst]
    have hframe : Framed seed (failClaimTimeoutCas db seed swept now) passed :=
      (Frame.failureSuccessor trivial hsucc).trans (.sagaPass trivial hpass)
    have hended : r' ∈ (bookkeeping (timeoutTerminal passed seed swept) seed swept).runs :=
      hframe.mem_ended hr' hl
    exact Or.inr ⟨⟨r, hr, hg.1.1, hg.1.2.2.1⟩, r', Frame.finish.mem_ended hended hl,
      hid.trans hg.1.1, hl⟩
  · have hcas : failClaimTimeoutCas db seed swept now = db :=
      updateRuns_of_forall_not fun r hr hgr => hg ⟨r, hr, hgr⟩
    rw [hcas] at hsucc
    have hended : KeepsLive passed (bookkeeping (timeoutTerminal passed seed swept) seed swept) :=
      .of_runs rfl
    exact Or.inl ((((KeepsLive.failureSuccessor hsucc).trans (.sagaPass hpass)).trans hended).trans
      .finish)

/-- A batch that fails a run ends that run or none. -/
theorem Batch.endsOnly {b : Batch} {runId : String} (hb : b.failsRun = some runId)
    (hrun : b.run now db = some out) : EndsOnly db out.db runId := by
  obtain ⟨seed, call⟩ := b
  cases call with
  | failInto failure => exact Option.some.inj hb ▸ failInto_endsOnly hrun
  | sweepLostLaunch swept => exact Option.some.inj hb ▸ sweepLostLaunch_endsOnly hrun
  | sweepClaimTimeout swept => exact Option.some.inj hb ▸ sweepClaimTimeout_endsOnly hrun
  | spawn | claim | activate | heartbeat | deferLaunch | reschedule | suspendRun | awaitEvent
  | recordTaskDone | emitEvent | setCheckpoint | complete | cancelTransition | retryTask
  | expireLeaseNow => cases hb

/-! ## Second deliveries that spare the live tasks -/

/-- A batch that ended a task ended the run it took, and takes it no more. -/
theorem Trace.spared {s : Sys} (h : Trace s) {e : Delivery} (he : e ∈ s.history) {runId : String}
    (hb : e.batch.failsRun = some runId) (hspares : e.batch.Spares s.db) {t : Task}
    (ht : t ∈ e.before.tasks) (hlive : t.state.Live)
    (hended : ∀ t' ∈ e.after.tasks, t'.taskId = t.taskId → ¬ t'.state.Live) (now : ℤ) {u u' : Task}
    (hu : u ∈ s.db.tasks) (hid : u.taskId = t.taskId) (hl : u.state.Live)
    (hu' : u' ∈ (e.batch.after now s.db).tasks) (hid' : u'.taskId = t.taskId) : u'.state.Live := by
  obtain ⟨hafter, hseen⟩ := h.after e he
  obtain ⟨hadm, hleft⟩ := h.delivered e he
  obtain ⟨hbefore, _⟩ := h.seen _ (Or.inr ⟨e, he, rfl⟩)
  obtain ⟨hinv, hpast⟩ := h.seen _ hseen
  have hnot : ¬ KeepsLive e.before e.after := by
    intro hkeeps
    obtain ⟨t', ht', hsame⟩ := (e.batch.after_framed e.now e.before).tasks t ht
    rw [← hafter] at ht'
    exact hended t' ht' hsame.taskId (hkeeps.live hbefore hinv ht ht' hsame.taskId hlive)
  obtain ⟨r, hr, hrid, hrl⟩ : ∃ r ∈ e.after.runs, r.runId = runId ∧ ¬ r.state.Live := by
    obtain heq | ⟨out, hrun, heq⟩ := e.batch.after_cases e.now e.before
    · exact absurd (.of_runs (by rw [hafter, heq])) hnot
    · rw [hafter, heq] at hnot ⊢
      exact ((Batch.endsOnly hb hrun).resolve_left hnot).2
  have hkeeps : KeepsLive s.db (e.batch.after now s.db) := by
    obtain heq | ⟨out, hrun, heq⟩ := e.batch.after_cases now s.db
    · exact .of_runs (by rw [heq])
    · rw [heq]
      refine (Batch.endsOnly hb hrun).resolve_right ?_
      rintro ⟨⟨q, hq, hqid, hqs⟩, _⟩
      rw [s.db.run_unique (hpast.ended r hr hrl) hq (hrid.trans hqid.symm), hqs] at hrl
      exact hrl trivial
  exact hkeeps.live h.inv (h.after_inv hadm hleft hspares).1 hu hu' (hid'.trans hid.symm) hl

/-- Where every second delivery spares the live tasks, every state keeps its units whole and accounted
for, and no batch that ended a task ends it again. -/
theorem replay_safe {s : Sys} (h : Reachable Batch.Spares s) :
    (∀ t ∈ s.db.tasks, Whole s.db t ∧ Accounted s.db t) ∧
      ∀ e ∈ s.history, e.batch.failsRun ≠ none → e.batch.Spares s.db →
        ∀ t ∈ e.before.tasks, t.state.Live →
          (∀ t' ∈ e.after.tasks, t'.taskId = t.taskId → ¬ t'.state.Live) →
          ∀ (now : ℤ), ∀ u ∈ s.db.tasks, u.taskId = t.taskId → u.state.Live →
            ∀ u' ∈ (e.batch.after now s.db).tasks, u'.taskId = t.taskId → u'.state.Live := by
  have htrace := h.trace fun _ _ hs => hs
  refine ⟨fun t ht => ⟨htrace.inv.toCore.whole ht, htrace.inv.toCore.accounted ht⟩, ?_⟩
  intro e he hb hspares t ht hlive hended now u hu hid hl u' hu' hid'
  obtain ⟨runId, hb⟩ := Option.ne_none_iff_exists'.mp hb
  exact htrace.spared he hb hspares ht hlive hended now hu hid hl hu' hid'

/-! The sample pass fails for good, and its failure is delivered once more: at once, which spares
everything there is, and after an operator revived the task. -/

/-- An operator retries the task the failure ended. -/
def reviveOne : Batch := ⟨"b5", .retryTask ⟨"q", "t", "r2"⟩⟩

def failedOne : Sys := runningOne.deliver failOne 3

def revivedOne : Sys := failedOne.deliver reviveOne 4

/-- The store whose one run failed is reachable. -/
theorem failedOne_reachable (again : Batch → Db → Prop) : Reachable again failedOne := by
  have hread : RunRead runningOne.Seen "r1" "t" := ⟨runningOne.db, Or.inl rfl, by decide⟩
  exact .step (runningOne_reachable again) (.first _ _ (by decide) (by decide)
    ⟨fun rollback hr => absurd hr (Option.not_mem_none rollback), hread⟩)

/-- The store whose failed task was revived is reachable. -/
theorem revivedOne_reachable (again : Batch → Db → Prop) : Reachable again revivedOne :=
  .step (failedOne_reachable again) (.first _ _ (by decide) (by decide) trivial)

/-- A failure delivered again leaves the failed task whole and accounted. -/
theorem replay_safe_failedOne :
    (failedOne.deliver failOne 4).db.tasks.rows.map Task.state = [.failed] ∧
      ∀ t ∈ (failedOne.deliver failOne 4).db.tasks,
        Whole (failedOne.deliver failOne 4).db t ∧ Accounted (failedOne.deliver failOne 4).db t :=
  ⟨by decide, (replay_safe (.step (failedOne_reachable _)
    (.again failOne 4 (by decide) (by decide) (by decide)))).1⟩

/-- Where any batch may be delivered again, a task is not always whole: the failure that is delivered
after the revival ends the task over the revival's run. -/
theorem replay_ends_revivedOne :
    ¬ ∀ s, Reachable (fun _ _ => True) s → ∀ t ∈ s.db.tasks, Whole s.db t := by
  intro hwhole
  have hreach : Reachable (fun _ _ => True) (revivedOne.deliver failOne 5) :=
    .step (revivedOne_reachable _) (.again failOne 5 (by decide) (by decide) trivial)
  have hover : ∃ t ∈ (revivedOne.deliver failOne 5).db.tasks, ¬ t.state.Live ∧
      ∃ r ∈ (revivedOne.deliver failOne 5).db.runs, runOwnedByTask r t ∧ r.state.Live := by decide
  obtain ⟨t, ht, hended, r, hr, howned, hlive⟩ := hover
  exact (hwhole _ hreach t ht).ended hended r hr howned hlive

end Durablerun
