import Durablerun.Store.Course
import Durablerun.Store.Replay

/-!
# Revival

A failed task can be revived while its saga never began and its budget takes one more. The other
conjuncts of the retry guard hold of every failed task the engine leaves: the outcome columns say how
the task ended (`Task.Told`), and the accounts of its runs say the rest.

Reference: `packages/core/src/statements/retry-task.ts` and `packages/store-libsql/src/store.ts`.
-/

namespace Durablerun

open Relational

variable {again : Batch → Db → Prop} {s : Sys} {seed : String} {now : ℤ} {db db' : Db} {call : Call}

/-! ## Outcome columns -/

/-- A task carries a completed payload when it completed, and a reason when it failed or was
cancelled. -/
structure Task.Told (t : Task) : Prop where
  payload : t.completedPayload ≠ none ↔ t.state = .completed
  reason : t.failureReason ≠ none ↔ t.state = .failed ∨ t.state = .cancelled

/-- A live task carries neither. -/
theorem Task.Told.live {t : Task} (h : t.Told) (hl : t.state.Live) :
    t.completedPayload = none ∧ t.failureReason = none := by
  refine ⟨not_not.mp fun hp => ?_, not_not.mp fun hr => ?_⟩
  · simp [h.payload.mp hp] at hl
  · rcases h.reason.mp hr with hs | hs <;> simp [hs] at hl

/-- A live task with no outcome tells none. -/
theorem Task.Told.of_live {t : Task} (hl : t.state.Live) (hpayload : t.completedPayload = none)
    (hreason : t.failureReason = none) : t.Told := by
  refine ⟨⟨fun h => absurd hpayload h, fun hs => ?_⟩, ⟨fun h => absurd hreason h, fun hs => ?_⟩⟩
  · simp [hs] at hl
  · rcases hs with hs | hs <;> simp [hs] at hl

/-- What a batch makes of a task tells its outcome. -/
theorem Task.Told.move {t u : Task} (hm : Task.Move seed now db call t u) (h : t.Told) : u.Told := by
  cases hm with
  | booked hl | infraRetried hl => exact .of_live trivial (h.live hl).1 (h.live hl).2
  | started hl => exact .of_live hl (h.live hl).1 (h.live hl).2
  | followed hl hq | rollingBack hl _ _ _ _ hq | retrying hl _ _ _ hq =>
    exact .of_live hq.live (h.live hl).1 (h.live hl).2
  | completed hl => exact ⟨by simp, by simp [(h.live hl).2]⟩
  | failed hl => exact ⟨by simp [(h.live hl).1], by simp⟩
  | cancelled hg => exact ⟨by simp [(h.live hg.2.2.1).1], by simp⟩
  | revived hg => exact .of_live trivial hg.2.2.hasNoCompletedPayload rfl

/-- Every batch leaves the outcome columns saying how each task ended. -/
theorem Effect.told (h : Effect seed now db db' call) (htold : ∀ t ∈ db.tasks, t.Told) :
    ∀ t ∈ db'.tasks, t.Told := by
  refine h.forall_tasks (fun t hborn => ?_) (fun _ _ hm => .move hm)
    (fun _ _ _ ht => ⟨ht.payload, ht.reason⟩) htold
  cases hborn with
  | spawned => exact .of_live trivial rfl rfl

/-- In every reachable state the outcome columns say how each task ended. -/
theorem Reachable.told (h : Reachable again s)
    (hagain : ∀ b db, again b db → b.call.Repeatable) : ∀ t ∈ s.db.tasks, t.Told :=
  h.induct (P := fun s => ∀ t ∈ s.db.tasks, t.Told) hagain
    (fun t ht => absurd ht (Table.not_mem_empty t)) fun _ _ _ hd htold => hd.effect.told htold

/-! ## The retry guard -/

/-- Every failed task whose saga never began, and whose budget takes one more, can be retried. -/
theorem Inv.retryAdmits (h : Inv db) {t : Task} (ht : t ∈ db.tasks) (htold : t.Told)
    (hfailed : t.state = .failed) (hsaga : ¬ sagaBegan db t.taskId)
    (hbudget : t.maxAttempts < MAX_COUNT) : RetryAdmits db t := by
  have hsettled := h.settled t ht
  obtain ⟨top, hord, hband⟩ := hsettled.band
  have hcharged : retryCharged db t = some (top - t.infraRetries) := by
    unfold retryCharged
    rw [topOrdinal_eq h.toOwned ht hord]
    rfl
  obtain ⟨p, hp, hpid, hpat⟩ := (hord.2 top).mpr ⟨hord.1, le_refl top⟩
  have hpaid : top - t.infraRetries ≤ t.maxAttempts :=
    hpat ▸ (h.phased.tasks t ht).failed hfailed hsaga p hp hpid
  have hended : ¬ t.state.Live := by simp [hfailed]
  have hcounted := hsettled.counted
  exact {
    failed := hfailed
    ownsEveryRun := by
      rintro ⟨r, hr, hid, hq⟩
      exact hq (h.toOwned.runOwnedByTask hr ht hid).2.symm
    hasAFailureReason := htold.reason.mpr (Or.inl hfailed)
    hasNoCompletedPayload := not_not.mp fun hpayload => by
      have := htold.payload.mp hpayload
      simp [hfailed] at this
    hasARun := ⟨p, hp, h.toOwned.runOwnedByTask hp ht hpid⟩
    hasNoLiveRun := fun ⟨r, hr, hown, hl⟩ => h.toCore.not_live hr ht hown.1.symm hended hl
    attemptsInRange := hcounted.attempts
    infraRetriesInRange := hcounted.infraRetries
    everyRunOrdinalInRange := fun ⟨r, hr, _, hno⟩ => hno (h.toUnits.attempt_within hr)
    budgetTakesOneMore := by
      have := hcounted.maxAttempts.1
      unfold storedIncrementableInteger
      simp only [maxAttemptsBounds] at this ⊢
      omega
    chargeIsTheAttemptsOrOneMore := ⟨_, hcharged, by omega⟩
    sagaNotBegun := hsaga
    chargeWithinBudget := ⟨_, hcharged, hpaid⟩ }

/-! ## What a revival does -/

/-- The revival won: its batch went through, and its compare-and-set affected the task. -/
def Revives (seed : String) (call : RetryCall) (now : ℤ) (db db' : Db) : Prop :=
  ∃ out, Batch.run ⟨seed, .retryTask call⟩ now db = some out ∧ out.won = some .revive ∧ out.db = db'

/-- The failed task `t` with top run `top` became `t'`, with the run `p` on top. -/
structure Revived (db db' : Db) (runId : String) (t t' : Task) (top p : Run) : Prop where
  highest : top ∈ db.runs ∧ runOwnedByTask top t ∧
    ∀ r ∈ db.runs, r.taskId = t.taskId → r.attempt ≤ top.attempt
  runs : ∀ r, r ∈ db'.runs ↔ r ∈ db.runs ∨ r = p
  fresh : p ∉ db.runs
  owned : p.runId = runId ∧ runOwnedByTask p t
  live : p.state = .pending ∧ ∀ r ∈ db'.runs, r.taskId = t.taskId → r.state.Live → r = p
  attempt : p.attempt = top.attempt + 1
  carried : p.wakeEvent = top.wakeEvent ∧ p.eventPayload = top.eventPayload ∧
    p.wakeStep = top.wakeStep
  task : t' ∈ db'.tasks ∧ t.Same t' ∧ t'.state = .pending
  charged : t'.attempts + t'.infraRetries = top.attempt
  budget : t'.maxAttempts = t.maxAttempts + 1 ∧ t'.attempts < t'.maxAttempts
  cleared : t'.failureReason = none ∧ t'.completedPayload = none
  checkpoints : db'.checkpoints = db.checkpoints

/-- What a revival leaves of a task and its runs. -/
theorem Inv.revived (h : Inv db) {call : RetryCall} {t : Task} (ht : t ∈ db.tasks)
    (hg : reviveGuard db call t) {runs : Table Run Run.keys} {p : Run} (hp : p ∈ db.runs)
    (hown : runOwnedByTask p t) (htop : topOrdinal db t = some p.attempt)
    (hruns : ∀ r, r ∈ runs ↔ r ∈ db.runs ∨
      r = revivalRun seed call.runId (revivedTask db seed call now t) p)
    (hnew : ∀ r ∈ db.runs, r.runId ≠ call.runId) :
    Revived db { reviveCas db seed call now with runs } call.runId t (revivedTask db seed call now t) p
      (revivalRun seed call.runId (revivedTask db seed call now t) p) := by
  obtain ⟨top, hord, _⟩ := (h.settled t ht).band
  obtain rfl : p.attempt = top := Option.some.inj (htop.symm.trans (topOrdinal_eq h.toOwned ht hord))
  obtain ⟨hcounted, hcount, _⟩ := hg.2.2.counted seed now call htop (h.settled t ht).counted
  have hended : ¬ t.state.Live := by simp [hg.2.2.failed]
  exact {
    highest := ⟨hp, hown, fun r hr hid => ((hord.2 r.attempt).mp ⟨r, hr, hid, rfl⟩).2⟩
    runs := hruns
    fresh := fun hmem => hnew _ hmem rfl
    owned := ⟨rfl, rfl, rfl⟩
    live := by
      refine ⟨rfl, fun r hr hid hl => ?_⟩
      obtain hr | rfl := (hruns r).mp hr
      · exact absurd hl (h.toCore.not_live hr ht hid hended)
      · rfl
    attempt := rfl
    carried := ⟨rfl, rfl, rfl⟩
    task := ⟨Table.mem_update_of_pos (f := ⟨revivedTask db seed call now, fun _ => rfl⟩) ht hg,
      ⟨rfl, rfl⟩, rfl⟩
    charged := by
      have hinfra : (revivedTask db seed call now t).infraRetries = t.infraRetries := rfl
      omega
    budget := ⟨rfl, hcounted.budget trivial⟩
    cleared := ⟨rfl, hg.2.2.hasNoCompletedPayload⟩
    checkpoints := rfl }

/-- A guard that holds lets the revival through: its run's identity and ordinal are free. -/
theorem Inv.retryTask_goes (h : Inv db) {call : RetryCall} {t : Task} (ht : t ∈ db.tasks)
    (hg : reviveGuard db call t) (hnew : ∀ r ∈ db.runs, r.runId ≠ call.runId) :
    retryTask seed call now db ≠ none := by
  have hmem : revivedTask db seed call now t ∈ (reviveCas db seed call now).tasks :=
    Table.mem_update_of_pos (f := ⟨revivedTask db seed call now, fun _ => rfl⟩) ht hg
  intro hnone
  have hinsert : revivalRunInsert (reviveCas db seed call now) seed call = none :=
    Option.eq_none_iff_forall_ne_some.mpr fun placed hplaced => by
      have hwent := Option.bind_eq_none_iff.mp hnone placed hplaced
      cases hwent
  unfold revivalRunInsert at hinsert
  split at hinsert
  · cases hinsert
  rename_i f hf
  have hpf := List.find?_some hf
  simp only [decide_eq_true_eq] at hpf
  have hfm : f ∈ (reviveCas db seed call now).tasks := List.mem_of_find?_eq_some hf
  obtain rfl : f = revivedTask db seed call now t :=
    Db.task_unique hfm hmem (hpf.1.trans hg.1.symm)
  split at hinsert
  · cases hinsert
  rename_i p hp
  have hparent := List.find?_some hp
  simp only [decide_eq_true_eq] at hparent
  obtain ⟨top, hord, _⟩ := (h.settled t ht).band
  have htop : topOrdinal db t = some p.attempt := hparent.2.1
  obtain rfl := Option.some.inj (htop.symm.trans (topOrdinal_eq h.toOwned ht hord))
  have hfree : (reviveCas db seed call now).runs.Free
      (revivalRun seed call.runId (revivedTask db seed call now t) p) := by
    refine Db.run_free hnew fun r hr hid hat => ?_
    have hle := ((hord.2 r.attempt).mp ⟨r, hr, hid, rfl⟩).2
    simp only [revivalRun] at hat
    omega
  rw [Table.insert?_of_free hfree] at hinsert
  cases hinsert

/-- A task whose outcome columns say how it ended can be revived exactly when it failed, its saga
never began, and its budget is below the bound; and a revival that wins does no more and no less than
`Revived` says. -/
theorem Inv.revives (h : Inv db) {t : Task} (ht : t ∈ db.tasks) (htold : t.Told)
    (seed runId : String) (now : ℤ) (hnew : ∀ r ∈ db.runs, r.runId ≠ runId) :
    ((∃ db', Revives seed ⟨t.queue, t.taskId, runId⟩ now db db') ↔
      t.state = .failed ∧ ¬ sagaBegan db t.taskId ∧ t.maxAttempts < MAX_COUNT) ∧
    ∀ db', Revives seed ⟨t.queue, t.taskId, runId⟩ now db db' →
      ∃ t' top p, Revived db db' runId t t' top p := by
  have hwon : ∀ db', Revives seed ⟨t.queue, t.taskId, runId⟩ now db db' →
      reviveGuard db ⟨t.queue, t.taskId, runId⟩ t ∧ ∃ t' top p, Revived db db' runId t t' top p := by
    rintro db' ⟨out, hrun, hwon, rfl⟩
    obtain ⟨_, hlost⟩ | ⟨u, hu, hg, runs, p, hp, hown, htop, hruns, hdb, _⟩ :=
      retryTask_cases h hrun
    · cases hlost.1.symm.trans hwon
    · obtain rfl : u = t := db.task_unique hu ht hg.1
      rw [hdb]
      exact ⟨hg, _, p, _, h.revived ht hg hp hown htop hruns hnew⟩
  refine ⟨⟨fun ⟨db', hrevives⟩ => ?_, fun ⟨hfailed, hsaga, hbudget⟩ => ?_⟩,
    fun db' hrevives => (hwon db' hrevives).2⟩
  · have hadmits := (hwon db' hrevives).1.2.2
    have hbudget := hadmits.budgetTakesOneMore.2
    simp only [maxAttemptsBounds] at hbudget
    exact ⟨hadmits.failed, hadmits.sagaNotBegun, by omega⟩
  · have hg : reviveGuard db ⟨t.queue, t.taskId, runId⟩ t :=
      ⟨rfl, rfl, h.retryAdmits ht htold hfailed hsaga hbudget⟩
    have hgoes : retryTask seed ⟨t.queue, t.taskId, runId⟩ now db ≠ none :=
      h.retryTask_goes ht hg hnew
    obtain ⟨out, hrun⟩ := Option.ne_none_iff_exists'.mp hgoes
    obtain ⟨_, _, hno⟩ | ⟨_, _, _, _, _, _, _, _, _, _, hwon⟩ := retryTask_cases h hrun
    · exact absurd hg (hno t ht)
    · exact ⟨out.db, out, hrun, hwon, rfl⟩

/-- In every reachable state a task can be revived exactly when it failed, its saga never began, and
its budget is below the bound; and a revival that wins does no more and no less than `Revived`
says. The run's id is one it minted. -/
theorem reachable_revives (h : Reachable Repeats s) {t : Task} (ht : t ∈ s.db.tasks)
    (seed runId : String) (now : ℤ) (hnew : ∀ r ∈ s.db.runs, r.runId ≠ runId) :
    ((∃ db', Revives seed ⟨t.queue, t.taskId, runId⟩ now s.db db') ↔
      t.state = .failed ∧ ¬ sagaBegan s.db t.taskId ∧ t.maxAttempts < MAX_COUNT) ∧
    ∀ db', Revives seed ⟨t.queue, t.taskId, runId⟩ now s.db db' →
      ∃ t' top p, Revived s.db db' runId t t' top p :=
  (h.course fun _ _ hrepeats => hrepeats).inv.revives ht
    (h.told (fun _ _ hrepeats => hrepeats) t ht) seed runId now hnew

/-- The task the sample pass failed for good can be revived. -/
theorem reachable_revives_failedOne : ∃ t ∈ failedOne.db.tasks, ∃ db' t' top p,
    Revives "b5" ⟨t.queue, t.taskId, "r2"⟩ 4 failedOne.db db' ∧
      Revived failedOne.db db' "r2" t t' top p := by
  have hretries : ∀ t ∈ failedOne.db.tasks, t.state = .failed ∧ ¬ sagaBegan failedOne.db t.taskId ∧
      t.maxAttempts < MAX_COUNT := by decide
  obtain ⟨t, ht⟩ : ∃ t, t ∈ failedOne.db.tasks := List.exists_mem_of_ne_nil _ (by decide)
  obtain ⟨hwins, hleaves⟩ := reachable_revives (failedOne_reachable _) ht "b5" "r2" 4 (by decide)
  obtain ⟨db', hrevives⟩ := hwins.mpr (hretries t ht)
  obtain ⟨t', top, p, hrevived⟩ := hleaves db' hrevives
  exact ⟨t, ht, db', t', top, p, hrevives, hrevived⟩

end Durablerun
