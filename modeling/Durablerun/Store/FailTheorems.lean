import Durablerun.Store.Frame

/-!
# What a failed run leaves

`failInto`, the batch of `fail` and of `failRollback`. Delivered once it keeps the invariant. Delivered
again it keeps it when it spares the task: when the task it ended before has not been revived, or the
batch meets the run a revival put on top.

Reference: `packages/store-libsql/src/store.ts` and `packages/core/src/statements/fail.ts`.
-/

namespace Durablerun

open Relational

variable {db db' : Db} {seed runId passId : String} {fence : Statement} {now : ℤ} {out : Outcome}
  {failure : Failure}

/-! ## The call -/

/-- The batch would place a pass after the run `r` of the task `t`. -/
def Failure.PassTried (failure : Failure) (db : Db) (r : Run) (t : Task) : Prop :=
  match failure.rollback with
  | none => passAdmission (enterAdmission db failure) r t
  | some rollback => ∃ delay ∈ rollback.passDelayMs, passAdmission (retryPassAdmission delay) r t

instance (failure : Failure) (db : Db) (r : Run) (t : Task) :
    Decidable (failure.PassTried db r t) := by
  unfold Failure.PassTried
  split <;> infer_instance

/-- Delivered again, the batch spares a live task: its placed run is there, or it tries to place one
and meets the run a revival put on top. -/
def Failure.Spares (failure : Failure) (db : Db) (seed : String) : Prop :=
  ∀ r ∈ db.runs, r.runId = failure.claim.runId → r.fenceStamp = some ⟨seed, .fail⟩ →
    ∀ t ∈ db.tasks, t.taskId = r.taskId → t.state.Live →
      successorOwned db failure.passId t.taskId (r.attempt + 1) ∨ failure.retryDelayMs ≠ none ∨
        failure.PassTried db r t
deriving Decidable

/-! ## Late -/

/-- A run that failed under a task that lives on is below the live run, so a user retry of it would be
admitted. -/
theorem retryAdmission_late (hc : Core db) {r : Run} {t : Task} (hr : r ∈ db.runs)
    (ht : t ∈ db.tasks) (hid : r.taskId = t.taskId) (hfailed : r.state = .failed)
    (hlive : t.state.Live) : retryAdmission r t := by
  obtain ⟨s, hs, hsid, hsl⟩ := (hc.settled t ht).hasLive hlive
  have htop := (hc.settled t ht).top hs hsid hsl
  obtain ⟨hlo, hle⟩ := (htop.2 r.attempt).mp ⟨r, hr, hid, rfl⟩
  have hne : r.attempt ≠ s.attempt := by
    intro he
    have heq := db.run_unique_ordinal hr hs (hid.trans hsid.symm) he
    rw [← heq, hfailed] at hsl
    exact hsl
  have hcur := ((hc.settled t ht).current s hs hsid hsl).2
  have hbudget := (hc.settled t ht).counted.budget hlive
  have hmax := hc.ordinal s hs
  refine ⟨hlive, by omega, ?_⟩
  simp only [storedIncrementableInteger, attemptBounds]
  omega

section Late

variable {queue taskId : String} {terminal : Statement}

/-- A retry that was placed before is followed as it already is. -/
theorem Late.userRetry (h : Late seed queue taskId terminal failure.claim.runId failure.passId .fail db)
    (hrun : userRetry db seed failure = some db') :
    Late seed queue taskId terminal failure.claim.runId failure.passId .fail db' ∧
      db'.runs = db.runs ∧ (failure.retryDelayMs ≠ none →
        ∀ f, stampedRun db seed failure.claim.runId .fail = some f →
          (∃ t ∈ db.tasks, runOwnedByTask f t ∧ retryAdmission f t) →
            successorOwned db failure.passId f.taskId (f.attempt + 1)) := by
  unfold Durablerun.userRetry at hrun
  split at hrun
  · rename_i hnone
    obtain rfl := Option.some.inj hrun
    exact ⟨h, rfl, fun hne => absurd hnone hne⟩
  · obtain ⟨placed, hplaced, rfl⟩ := Option.map_eq_some_iff.mp hrun
    obtain ⟨rfl, howned⟩ := failureSuccessor_late h.toCore (fun _ _ hadm => hadm.1)
      (fun f hf => h.stamped.failed fails_fail hf) hplaced
    refine ⟨⟨h.toOwing.runsToTasks (fun _ => trivial) fun t ht p hp hfol => ?_, h.placed⟩, rfl,
      fun _ => howned⟩
    obtain ⟨hl, hst, hattempts, hstate, _⟩ := h.placed.attempts h.toCore (Or.inl rfl) hp ht
      hfol.selected hfol.stamp hfol.taskId
    exact ⟨hfol.narrow, ⟨⟨rfl, rfl⟩, hattempts, rfl, rfl, Or.inl hstate⟩, hstate⟩

end Late

/-- The terminal arm yields to a run that follows the failed one. -/
theorem failTerminal_of_followed
    (h : ∀ f ∈ db.runs, f.runId = failure.claim.runId → f.fenceStamp = some ⟨seed, .fail⟩ →
      ∀ t ∈ db.tasks, t.taskId = f.taskId → t.state.Live →
        successorOwned db failure.passId t.taskId (f.attempt + 1)) :
    failTerminal db seed failure = db :=
  runsToTasks_of_forall_not fun t ht f hf hfol => hfol.narrow.2 ⟨f, hf, hfol.selected,
    h f hf hfol.selected hfol.stamp t ht hfol.taskId.symm hfol.narrow.1⟩

/-! ## The compare-and-set -/

/-- The run a failure may end is its task's current one, and a rollback fails only in a saga. -/
theorem failGuard.current {r : Run} (h : failGuard db now failure r)
    (hr : r ∈ db.runs) : ∃ t, Current db r t ∧ (failure.rollback ≠ none → sagaBegan db t.taskId) := by
  obtain ⟨hholds, ⟨t, ht, hown, _⟩, hsaga⟩ := h
  have hl : r.state.Live := by simp [hholds.2.2.2]
  exact ⟨t, ⟨hr, ht, hown, hl⟩, fun hne => hown.1 ▸ hsaga hne⟩

/-- The record of a failed rollback changes no run. -/
@[simp] theorem rollbackTries_runs : (rollbackTries db seed failure).runs = db.runs := by
  unfold rollbackTries
  split
  · rfl
  · exact checkpointWrite_runs

/-- The record of a failed rollback changes no task. -/
@[simp] theorem rollbackTries_tasks : (rollbackTries db seed failure).tasks = db.tasks := by
  unfold rollbackTries
  split
  · rfl
  · exact checkpointWrite_tasks

/-- The record of a failed rollback changes no wait. -/
@[simp] theorem rollbackTries_waits : (rollbackTries db seed failure).waits = db.waits := by
  unfold rollbackTries
  split
  · rfl
  · exact checkpointWrite_waits

/-- The record of a failed rollback changes no event. -/
@[simp] theorem rollbackTries_events : (rollbackTries db seed failure).events = db.events := by
  unfold rollbackTries
  split
  · rfl
  · exact checkpointWrite_events

/-- A tries record is not the phase marker. -/
theorem namedUnder.ne_phase {n : String} (h : namedUnder n SAGA_TRIES_PREFIX) :
    n ≠ SAGA_PHASE_CHECKPOINT := by
  rintro rfl
  exact absurd h (by decide)

variable (seed) in
/-- The compare-and-set that takes the run, with the failed rollback's record. -/
theorem failCas_failing (hadm : failure.Admitted) (hinv : Inv db) {r : Run} (hr : r ∈ db.runs)
    (hg : failGuard db now failure r) :
    ∃ r' t, Failing db (rollbackTries (failCas db seed failure now) seed failure) seed
      failure.claim.runId .fail r r' t ∧ t.queue = failure.claim.queue ∧
      (failure.rollback ≠ none →
        sagaBegan (rollbackTries (failCas db seed failure now) seed failure) t.taskId) := by
  obtain ⟨t, hcur, hsaga⟩ := hg.current hr
  obtain ⟨r', hruns, hsame, hst, hs⟩ : ∃ r',
      Table.Replaced db.runs (failCas db seed failure now).runs r r' ∧ r.Same r' ∧
        r'.state = .failed ∧ r'.fenceStamp = some ⟨seed, .fail⟩ :=
    ⟨_, Table.Replaced.update hr hg fun s hs hgs =>
      db.run_unique hs hr (hgs.1.1.trans hg.1.1.symm), ⟨rfl, rfl, rfl, rfl⟩, rfl, rfl⟩
  have hrel : Table.Rel Run.Same db.runs (failCas db seed failure now).runs :=
    hruns.rel hr hsame fun s _ _ => .refl s
  have hphased : Phased (failCas db seed failure now) :=
    hinv.phased.steps hrel (.refl Task.Steps.refl _) rfl
  have howned : Owned (failCas db seed failure now) :=
    hinv.toOwned.of_rel hrel (.refl Task.Same.refl _)
  have hphased₂ : Phased (rollbackTries (failCas db seed failure now) seed failure) := by
    unfold rollbackTries
    split
    · exact hphased
    · rename_i rollback hrollback
      refine hphased.checkpointWrite howned fun f hf => Or.inr ?_
      obtain ⟨hmem, hid, _⟩ := stampedRun_eq_some.mp hf
      obtain rfl : f = r' := Db.run_unique hmem ((hruns r').mpr (Or.inl rfl))
        (hid.trans (hsame.runId.trans hg.1.1).symm)
      have hft : f.taskId = t.taskId := hsame.taskId.trans hcur.taskId
      refine ⟨fun _ => ?_, (hadm rollback hrollback).2.ne_phase, fun u hu hid => ?_⟩
      · rw [hft]
        exact hsaga (by simp [hrollback])
      · rw [db.task_unique hu hcur.task (hid.trans hft)]
        exact (hcur.attempt hinv.toUnits).1
  refine ⟨r', t, ⟨hcur, hg.1.2.2.2, hg.1.1, hsame, hst, hs,
    by rw [rollbackTries_runs]; exact hruns, rollbackTries_tasks, rollbackTries_waits,
    rollbackTries_events, hphased₂⟩,
    hcur.owned.2.trans hg.1.2.1, fun hne => ?_⟩
  unfold rollbackTries
  split
  · exact hsaga hne
  · exact HasCheckpoint.after_write (hsaga hne)

/-! ## The arms -/

section Arms

variable {db₂ : Db} {r r' : Run} {t : Task} {terminal : Statement}

variable (terminal) in
/-- The saga arm of a failure batch that took its run. -/
theorem Failing.failSagaPass
    (h : Failing db db₂ seed failure.claim.runId .fail r r' t) (hinv : Inv db)
    (hq : t.queue = failure.claim.queue)
    (hplaced : Placed db seed failure.claim.runId failure.passId .fail)
    (hsaga : failure.rollback ≠ none → sagaBegan db₂ t.taskId)
    (hrun : failSagaPass db₂ seed failure = some db') :
    (db' = db₂ ∧ ¬ failure.PassTried db₂ r' t) ∨
      (Late seed t.queue t.taskId terminal failure.claim.runId failure.passId .fail db' ∧
        r' ∈ db'.runs ∧ ∃ p ∈ db'.runs, p.runId = failure.passId ∧ p.taskId = t.taskId ∧
          p.attempt = r'.attempt + 1 ∧ p.fenceStamp = some ⟨seed, .rollbackPass⟩) := by
  unfold Durablerun.failSagaPass at hrun
  unfold Failure.PassTried
  rw [← hq] at hrun
  cases hrb : failure.rollback with
  | none =>
    rw [hrb] at hrun
    exact h.sagaPass terminal hinv fails_fail rfl hplaced (by simp) hrun
  | some rollback =>
    rw [hrb] at hrun
    simp only at hrun ⊢
    cases hdelay : rollback.passDelayMs with
    | none =>
      rw [hdelay] at hrun
      exact Or.inl ⟨(Option.some.inj hrun).symm, by simp⟩
    | some delay =>
      rw [hdelay] at hrun
      have := h.sagaPass terminal hinv fails_fail rfl hplaced
        (fun _ => hsaga (by simp [hrb])) hrun
      simpa using this

/-- The user retry a failure batch places turns the unit: the task is charged the attempt. -/
theorem Failing.retry
    (h : Failing db db₂ seed failure.claim.runId .fail r r' t) (hinv : Inv db)
    (hq : t.queue = failure.claim.queue) {p : Run} {runs : Table Run Run.keys} {state : TaskState}
    {availableAtMs : ℤ} (hruns : ∀ s, s ∈ runs ↔ s ∈ db₂.runs ∨ s = p) (hqueued : state.Queued)
    (hp : p = successorRun seed .successor failure.passId r' state availableAtMs r'.fenceAtMs)
    (hadm : retryAdmission r' t) (hdb' : db' = taskRetrying { db₂ with runs } seed failure) :
    Late seed t.queue t.taskId terminal failure.claim.runId failure.passId .fail db' ∧
      r' ∈ db'.runs ∧ ∃ p ∈ db'.runs, p.runId = failure.passId ∧ p.taskId = t.taskId ∧
        p.attempt = r'.attempt + 1 ∧ p.fenceStamp = some ⟨seed, .successor⟩ := by
  subst hdb'
  obtain ⟨hlive, hat⟩ := h.attempt hinv
  obtain ⟨_, hroom, _⟩ := hadm
  have hpmem : p ∈ ({ db₂ with runs } : Db).runs := (hruns p).mpr (Or.inr rfl)
  have hpid : p.runId = failure.passId := by rw [hp]; rfl
  have hps : p.fenceStamp = some ⟨seed, .successor⟩ := by rw [hp]; rfl
  have hpq : p.queue = failure.claim.queue := by
    rw [hp]
    exact h.owned.2.symm.trans hq
  have hpt : p.taskId = t.taskId := by
    rw [hp]
    exact h.taskId
  obtain ⟨t', htasks, hsame, hst, hattempts, hinfra, hmax, hts⟩ : ∃ t',
      Table.Replaced db₂.tasks (taskRetrying { db₂ with runs } seed failure).tasks t t' ∧
        t.Same t' ∧ t'.state = state ∧ t'.attempts = t.attempts + 1 ∧
        t'.infraRetries = t.infraRetries ∧ t'.maxAttempts = t.maxAttempts ∧
        t'.fenceStamp = some ⟨seed, .taskRetrying⟩ := by
    refine runsToTasks_replaced h.mem_task hpmem ⟨⟨hpid, hpq, hps⟩, hpt, hlive⟩ hq
      (fun g hg hsrc => ?_) fun _ => ⟨⟨rfl, rfl⟩, ?_, ?_, rfl, rfl, rfl⟩
    · rw [Db.run_unique hg hpmem (hsrc.selected.trans hpid.symm)]
      exact hpt
    · show stampedRunState { db₂ with runs } seed failure.passId .successor t = state
      unfold stampedRunState
      rw [stampedRun_eq_some.mpr ⟨hpmem, hpid, hps⟩, hp]
      rfl
    · exact h.userAttempts hinv ((hruns r').mpr (Or.inl h.mem))
  obtain ⟨⟨hlo, hhi⟩, hm, hi, hbudget⟩ := (hinv.settled t h.current.task).counted
  have := hbudget hlive
  refine h.successor hinv rfl hruns hqueued hp rfl htasks hsame hst (fun s hs => ?_)
    ⟨?_, hmax ▸ hm, hinfra ▸ hi, fun _ => by omega⟩ ?_ fun hsaga => ?_
  · obtain rfl := Option.some.inj (hts.symm.trans hs)
    trivial
  · obtain ⟨_, hmhi⟩ := hm
    simp only [attemptsBounds, maxAttemptsBounds] at *
    constructor <;> simp only <;> omega
  · rw [← h.run.attempt]
    omega
  · have hspent := (h.phased.tasks t h.mem_task).spent hlive hsaga
    omega

variable (terminal) in
/-- The user retry of a failure batch that took its run and placed no pass. -/
theorem Failing.userRetry
    (h : Failing db db₂ seed failure.claim.runId .fail r r' t) (hinv : Inv db)
    (hq : t.queue = failure.claim.queue)
    (hplaced : Placed db seed failure.claim.runId failure.passId .fail)
    (hrun : userRetry db₂ seed failure = some db') :
    (db' = db₂ ∧ (failure.retryDelayMs ≠ none → ¬ retryAdmission r' t)) ∨
      (Late seed t.queue t.taskId terminal failure.claim.runId failure.passId .fail db' ∧
        r' ∈ db'.runs ∧ ∃ p ∈ db'.runs, p.runId = failure.passId ∧ p.taskId = t.taskId ∧
          p.attempt = r'.attempt + 1 ∧ p.fenceStamp = some ⟨seed, .successor⟩) := by
  unfold Durablerun.userRetry at hrun
  split at hrun
  · rename_i hnone
    exact Or.inl ⟨(Option.some.inj hrun).symm, fun hne => absurd hnone hne⟩
  · rename_i delay hdelay
    obtain ⟨db₃, hdb₃, rfl⟩ := Option.map_eq_some_iff.mp hrun
    obtain ⟨rfl, howned⟩ | ⟨f, hf, ⟨u, hu, hown, hadm⟩, runs, hfree, hruns, rfl⟩ :=
      failureSuccessor_cases hdb₃
    · refine Or.inl ⟨?_, fun _ hadm => h.not_owned failure.passId hinv ?_⟩
      · exact runsToTasks_of_forall_not fun _ _ f hf hfol =>
          h.not_placed hinv fails_fail hplaced (Or.inl rfl) hf hfol.selected hfol.stamp
      · rw [← h.taskId]
        exact howned r' h.stampedRun ⟨t, h.mem_task, h.owned, hadm⟩
    · obtain rfl := Option.some.inj (h.stampedRun.symm.trans hf)
      obtain rfl := h.eq_task hu hown
      exact Or.inr (h.retry hinv hq hruns (by split <;> trivial) rfl hadm rfl)

/-- The terminal arm of a failure batch that took its run and placed none. -/
theorem Failing.failTerminal
    (h : Failing db db₂ seed failure.claim.runId .fail r r' t) (hinv : Inv db)
    (hq : t.queue = failure.claim.queue) (hsaga : failure.rollback ≠ none → sagaBegan db₂ t.taskId)
    (hpass : ¬ failure.PassTried db₂ r' t)
    (hretry : failure.retryDelayMs ≠ none → ¬ retryAdmission r' t) :
    Owing seed t.queue t.taskId failure.terminal (failTerminal db₂ seed failure) := by
  obtain ⟨hlive, hat⟩ := h.attempt hinv
  obtain ⟨⟨hlo, hhi⟩, ⟨hmlo, hmhi⟩, ⟨hilo, hihi⟩, hbudget⟩ :=
    (hinv.settled t h.current.task).counted
  have hroom := hbudget hlive
  obtain ⟨t', htasks, hsame, hst, hattempts, hinfra, hmax, hts⟩ : ∃ t',
      Table.Replaced db₂.tasks (Durablerun.failTerminal db₂ seed failure).tasks t t' ∧
        t.Same t' ∧ t'.state = .failed ∧ t'.attempts = t.attempts + 1 ∧
        t'.infraRetries = t.infraRetries ∧ t'.maxAttempts = t.maxAttempts ∧
        t'.fenceStamp = some ⟨seed, failure.terminal⟩ := by
    have hrun : r'.runId = failure.claim.runId := h.run.runId.trans h.runId
    refine runsToTasks_replaced h.mem_task h.mem
      ⟨⟨hrun, h.owned.2.symm.trans hq, h.stamp⟩, h.taskId, hlive, ?_⟩ hq
      (fun g hg hsrc => ?_) fun _ => ⟨⟨rfl, rfl⟩, rfl, ?_, rfl, rfl, rfl⟩
    · rintro ⟨p, hp, hpid, howned⟩
      rw [Db.run_unique hp h.mem (hpid.trans hrun.symm)] at howned
      exact h.not_owned failure.passId hinv howned
    · rw [Db.run_unique hg h.mem (hsrc.selected.trans hrun.symm)]
      exact h.taskId
    · exact h.userAttempts hinv h.mem
  have hterminal : ∀ s, failure.terminal.LeftTask s := by
    intro s
    unfold Failure.terminal
    split <;> trivial
  simp only [attemptsBounds, maxAttemptsBounds, infraRetriesBounds] at *
  refine h.finish hinv rfl hterminal rfl htasks hsame hst hts ⟨?_, ?_, ?_, by simp [hst]⟩
    (Or.inl (by rw [← h.run.attempt]; omega)) (by omega) fun hno hpending => ?_
  · constructor <;> simp only [attemptsBounds] <;> omega
  · constructor <;> simp only [maxAttemptsBounds] <;> omega
  · constructor <;> simp only [infraRetriesBounds] <;> omega
  -- Outside the phase a rollback was owed, so only the bound on the budget refused the pass.
  by_contra hlt
  have hrb : failure.rollback = none := by
    by_contra hne
    exact hno (hsaga hne)
  refine hpass ?_
  unfold Failure.PassTried
  rw [hrb]
  refine ⟨hlive, ⟨hno, hpending, fun hne => ?_⟩, ?_⟩
  · by_contra hmax'
    refine hretry hne ⟨hlive, by omega, ?_⟩
    simp only [storedIncrementableInteger, attemptBounds, MAX_RUN_ORDINAL]
    omega
  · simp only [maxAttemptsBounds]
    omega

end Arms

/-! ## The batch -/

/-- A failure batch that took its run: a pass, a retry or the end. -/
theorem failInto_won (hadm : failure.Admitted) (h : Inv db) {r : Run} (hr : r ∈ db.runs)
    (hg : failGuard db now failure r) (htask : r.taskId = failure.taskId)
    (hplaced : Placed db seed failure.claim.runId failure.passId .fail) {passed retried : Db}
    (hpass : failSagaPass (rollbackTries (failCas db seed failure now) seed failure) seed failure =
      some passed) (hretry : userRetry passed seed failure = some retried) :
    Late seed failure.claim.queue failure.taskId failure.terminal failure.claim.runId failure.passId
      .fail (failTerminal retried seed failure) := by
  obtain ⟨r', t, hf, hq, hsaga⟩ := failCas_failing seed hadm h hr hg
  rw [← hq, ← htask, hf.current.taskId]
  -- A run that was placed makes the terminal arm yield.
  have hyields : ∀ db', Late seed t.queue t.taskId failure.terminal failure.claim.runId
      failure.passId .fail db' → r' ∈ db'.runs →
      successorOwned db' failure.passId t.taskId (r'.attempt + 1) →
      Late seed t.queue t.taskId failure.terminal failure.claim.runId failure.passId .fail
        (failTerminal db' seed failure) := by
    intro db' hlate hmem howned
    rw [failTerminal_of_followed fun f hfm hid _ u _ hut _ => ?_]
    · exact hlate
    · obtain rfl := Db.run_unique hfm hmem (hid.trans (hf.run.runId.trans hf.runId).symm)
      rwa [hut.trans hf.taskId]
  obtain ⟨rfl, hnopass⟩ | ⟨hlate, hmem, p, hp, hpid, hpt, hpat, _⟩ :=
    hf.failSagaPass failure.terminal h hq hplaced hsaga hpass
  · obtain ⟨rfl, hnoretry⟩ | ⟨hlate, hmem, p, hp, hpid, hpt, hpat, _⟩ :=
      hf.userRetry failure.terminal h hq hplaced hretry
    · exact ⟨hf.failTerminal h hq hsaga hnopass hnoretry, hf.placed h fails_fail hplaced⟩
    · exact hyields _ hlate hmem ⟨p, hp, hpid, hpt, hpat⟩
  · obtain ⟨hlate', hruns, _⟩ := hlate.userRetry hretry
    rw [← hruns] at hmem hp
    exact hyields _ hlate' hmem ⟨p, hp, hpid, hpt, hpat⟩

/-- A failed rollback's record that was written before is written again as it is named. -/
theorem Late.rollbackTries {queue taskId : String} {terminal : Statement}
    (h : Late seed queue taskId terminal failure.claim.runId failure.passId .fail db)
    (hrewrites : ∀ rollback ∈ failure.rollback,
      Rewrites db seed failure.claim.runId .fail rollback.tried.key) :
    Late seed queue taskId terminal failure.claim.runId failure.passId .fail
      (rollbackTries db seed failure) := by
  unfold Durablerun.rollbackTries
  split
  · exact h
  rename_i rollback hrb
  refine ⟨h.toOwing.checkpointWrite fun f hf => Or.inl ?_, fun p hp hid name hname hs => ?_⟩
  · obtain ⟨hmem, hid, hs⟩ := stampedRun_eq_some.mp hf
    exact hrewrites rollback hrb f hmem hid hs
  · rw [checkpointWrite_runs] at hp ⊢
    obtain ⟨hf, hsaga⟩ := h.placed p hp hid name hname hs
    exact ⟨hf, fun hn => HasCheckpoint.after_write (hsaga hn)⟩

/-- A pass a late batch tries is there, or meets the run after the failed one. -/
theorem Late.failSagaPass {queue taskId : String} {terminal : Statement}
    (h : Late seed queue taskId terminal failure.claim.runId failure.passId .fail db)
    (hrun : failSagaPass db seed failure = some db') :
    Late seed queue taskId terminal failure.claim.runId failure.passId .fail db' ∧
      db'.runs = db.runs ∧ ∀ f, stampedRun db seed failure.claim.runId .fail = some f →
        ∀ t ∈ db.tasks, runOwnedByTask f t → failure.PassTried db f t →
          successorOwned db failure.passId f.taskId (f.attempt + 1) := by
  unfold Durablerun.failSagaPass at hrun
  unfold Failure.PassTried
  cases hrb : failure.rollback with
  | none =>
    rw [hrb] at hrun
    obtain ⟨hlate, hruns, howned⟩ := h.sagaPass fails_fail hrun
    exact ⟨hlate, hruns, fun f hf t ht hown htried => howned f hf ⟨t, ht, hown, htried⟩⟩
  | some rollback =>
    rw [hrb] at hrun
    simp only at hrun ⊢
    cases hdelay : rollback.passDelayMs with
    | none =>
      rw [hdelay] at hrun
      obtain rfl := Option.some.inj hrun
      exact ⟨h, rfl, by simp⟩
    | some delay =>
      rw [hdelay] at hrun
      obtain ⟨hlate, hruns, howned⟩ := h.sagaPass fails_fail hrun
      exact ⟨hlate, hruns, fun f hf t ht hown htried =>
        howned f hf ⟨t, ht, hown, by simpa using htried⟩⟩

/-- The record of a failed rollback does not change whether its pass was tried. -/
theorem passTried_rollbackTries {r : Run} {t : Task} :
    failure.PassTried (rollbackTries db seed failure) r t ↔ failure.PassTried db r t := by
  unfold Failure.PassTried rollbackTries
  cases failure.rollback <;> rfl

/-- A task is live by its runs alone. -/
theorem Core.live_of_runs (h : Core db) (h' : Core db') (hruns : db'.runs = db.runs) {t t' : Task}
    (ht : t ∈ db.tasks) (ht' : t' ∈ db'.tasks) (hid : t.taskId = t'.taskId) (hl : t'.state.Live) :
    t.state.Live := by
  obtain ⟨s, hs, hsid, hsl⟩ := (h'.settled t' ht').hasLive hl
  exact h.toUnits.live (hruns ▸ hs) ht (hsid.trans hid.symm) hsl

/-- A failure batch that took no run, and spares the task it failed a run of before. -/
theorem failInto_late (h : Inv db)
    (hplaced : Placed db seed failure.claim.runId failure.passId .fail)
    (hrewrites : ∀ rollback ∈ failure.rollback,
      Rewrites db seed failure.claim.runId .fail rollback.tried.key)
    (hspares : failure.Spares db seed) {passed retried : Db}
    (hpass : failSagaPass (rollbackTries db seed failure) seed failure = some passed)
    (hretry : userRetry passed seed failure = some retried) :
    Late seed failure.claim.queue failure.taskId failure.terminal failure.claim.runId failure.passId
      .fail (failTerminal retried seed failure) := by
  have hlate : Late seed failure.claim.queue failure.taskId failure.terminal failure.claim.runId
      failure.passId .fail db := h.late hplaced
  obtain ⟨hpassed, hruns, htried⟩ := (hlate.rollbackTries hrewrites).failSagaPass hpass
  obtain ⟨hretried, hruns', hretryOwned⟩ := hpassed.userRetry hretry
  rw [rollbackTries_runs] at hruns
  have howned : ∀ f : Run, successorOwned db failure.passId f.taskId (f.attempt + 1) →
      successorOwned retried failure.passId f.taskId (f.attempt + 1) := by
    rintro f ⟨s, hs, hrest⟩
    exact ⟨s, by rwa [hruns', hruns], hrest⟩
  rw [failTerminal_of_followed fun f hf hid hs t ht hft hl => ?_]
  · exact hretried
  rw [hft]
  have hf₀ : f ∈ db.runs := hruns ▸ hruns' ▸ hf
  obtain ⟨t₀, ht₀, hown₀⟩ := h.owner f hf₀
  have hl₀ : t₀.state.Live := h.toCore.live_of_runs hretried.toCore (hruns'.trans hruns) ht₀ ht
    (hown₀.1.trans hft.symm) hl
  rcases hspares f hf₀ hid hs t₀ ht₀ hown₀.1 hl₀ with hdone | hne | hpassTried
  · rw [hown₀.1] at hdone
    exact howned f hdone
  · -- The user retry is admitted, so what refused it is the run that holds its identity.
    have hf₁ : f ∈ passed.runs := hruns' ▸ hf
    obtain ⟨t₁, ht₁, hown₁⟩ := hpassed.owner f hf₁
    have hl₁ : t₁.state.Live := hpassed.toCore.live_of_runs hretried.toCore hruns' ht₁ ht
      (hown₁.1.trans hft.symm) hl
    have hfailed : f.state = .failed := hpassed.stamped.runs f hf₁ _ hs
    obtain ⟨s, hsm, hrest⟩ := hretryOwned hne f (stampedRun_eq_some.mpr ⟨hf₁, hid, hs⟩)
      ⟨t₁, ht₁, hown₁, retryAdmission_late hpassed.toCore hf₁ ht₁ hown₁.1.symm hfailed hl₁⟩
    exact ⟨s, hruns' ▸ hsm, hrest⟩
  · obtain ⟨s, hsm, hrest⟩ := htried f (stampedRun_eq_some.mpr ⟨by rwa [rollbackTries_runs], hid, hs⟩)
      t₀ (by rwa [rollbackTries_tasks]) hown₀ (passTried_rollbackTries.mpr hpassTried)
    rw [rollbackTries_runs] at hsm
    exact howned f ⟨s, hsm, hrest⟩

/-- What a failure batch leaves to a later delivery of itself. -/
structure Failure.Left (failure : Failure) (db : Db) (seed : String) : Prop where
  placed : Placed db seed failure.claim.runId failure.passId .fail
  rewrites : ∀ rollback ∈ failure.rollback,
    Rewrites db seed failure.claim.runId .fail rollback.tried.key

/-- A user retry changes only what its successor's stamp marks. -/
theorem userRetry_frame {names : Statement → Prop} {passed retried : Db} (hname : names .successor)
    (hretry : userRetry passed seed failure = some retried) : Frame seed names passed retried := by
  unfold userRetry at hretry
  split at hretry
  · obtain rfl := Option.some.inj hretry
    exact .refl _
  · obtain ⟨placed, hplaced, rfl⟩ := Option.map_eq_some_iff.mp hretry
    exact (Frame.failureSuccessor hname hplaced).trans (.runsToTasks fun t => ⟨rfl, rfl⟩)

/-- What follows the attempt record in a failure batch leaves the failed run's stamp alone. -/
theorem failRest_frame {passed retried : Db} {payloadJson : String}
    (hpass : failSagaPass db seed failure = some passed)
    (hretry : userRetry passed seed failure = some retried) :
    Frame seed (· ≠ .fail) db (addTaskDone (waitsGone (failTerminal retried seed failure) seed
      failure.claim.runId .fail) seed failure.claim.queue failure.taskId failure.terminal
      payloadJson) := by
  have hpassed : Frame seed (· ≠ .fail) db passed := by
    unfold failSagaPass at hpass
    split at hpass
    · exact .sagaPass (by simp) hpass
    · split at hpass
      · obtain rfl := Option.some.inj hpass
        exact .refl _
      · exact .sagaPass (by simp) hpass
  exact ((hpassed.trans (userRetry_frame (by simp) hretry)).trans (.runsToTasks fun t => ⟨rfl, rfl⟩)).trans
    (Frame.runsToWaits.trans (.addTaskDone (by simp) (by simp)))

/-- The failure batch keeps the invariant, delivered once, or again where it spares the task.
`failure.taskId` is the answer of a read of the run's task. -/
theorem failInto_inv (hadm : failure.Admitted) (h : Inv db)
    (hanswer : ∀ r ∈ db.runs, r.runId = failure.claim.runId → r.queue = failure.claim.queue →
      r.taskId = failure.taskId)
    (hleft : failure.Left db seed) (hspares : failure.Spares db seed)
    (hrun : failInto seed failure now db = some out) :
    Inv out.db ∧ failure.Left out.db seed := by
  obtain ⟨passed, hpass, hrun⟩ := Option.bind_eq_some_iff.mp hrun
  obtain ⟨retried, hretry, hout⟩ := Option.bind_eq_some_iff.mp hrun
  obtain rfl := Option.some.inj hout
  have hlate : Late seed failure.claim.queue failure.taskId failure.terminal failure.claim.runId
      failure.passId .fail (failTerminal retried seed failure) := by
    by_cases hg : ∃ r ∈ db.runs, failGuard db now failure r
    · obtain ⟨r, hr, hg⟩ := hg
      exact failInto_won hadm h hr hg (hanswer r hr hg.1.1 hg.1.2.1) hleft.placed hpass hretry
    · have hcas : failCas db seed failure now = db :=
        updateRuns_of_forall_not fun r hr hgr => hg ⟨r, hr, hgr⟩
      rw [hcas] at hpass
      exact failInto_late h hleft.placed hleft.rewrites hspares hpass hretry
  obtain ⟨hinv, hplaced⟩ := hlate.inv fails_fail
  refine ⟨hinv, hplaced, fun rollback hrb => ?_⟩
  have hbound : ∀ r ∈ (failCas db seed failure now).runs, attemptBounds.Within r.attempt := by
    intro r hr
    obtain ⟨r₀, hr₀, _, rfl⟩ | ⟨hr, _⟩ := Table.update_cases hr
    · exact show attemptBounds.Within r₀.attempt from h.toUnits.attempt_within hr₀
    · exact h.toUnits.attempt_within hr
  have hwritten : Rewrites (rollbackTries (failCas db seed failure now) seed failure) seed
      failure.claim.runId .fail rollback.tried.key := by
    unfold rollbackTries
    rw [hrb]
    exact .checkpointWrite hbound
  exact hwritten.frame (failRest_frame hpass hretry) fun n hn he => hn (congrArg Stamp.statement he).symm

end Durablerun
