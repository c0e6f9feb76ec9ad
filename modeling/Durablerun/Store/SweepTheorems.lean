import Durablerun.Store.FailTheorems

/-!
# What the sweep leaves

`sweepLostLaunch` and `sweepClaimTimeout`, the two sweeps that act on a run. Like a failure batch,
each keeps the invariant delivered once, and delivered again where it spares the task.

Reference: `packages/store-libsql/src/store.ts` and `packages/core/src/statements/sweep.ts`.
-/

namespace Durablerun

open Relational

variable {db db' : Db} {seed : String} {fence : Statement} {now : ℤ} {out : Outcome} {swept : Swept}
  {reason : String}

/-! ## What a late sweep spares -/

/-- Delivered again, the sweep of a lost launch spares a live task: its pass is there, or it tries to
place one and meets the run a revival put on top. -/
def Swept.SparesLostLaunch (swept : Swept) (db : Db) (seed : String) : Prop :=
  ∀ r ∈ db.runs, r.runId = swept.runId → r.fenceStamp = some ⟨seed, .cap⟩ →
    ∀ t ∈ db.tasks, t.taskId = r.taskId → t.state.Live →
      successorOwned db swept.passId t.taskId (r.attempt + 1) ∨
        passAdmission (capAdmission db) r t
deriving Decidable

/-- Delivered again, the sweep of a dead claim spares a live task below the infrastructure cap too:
the successor it tries to place meets the run a revival put on top. -/
def Swept.SparesClaimTimeout (swept : Swept) (db : Db) (seed : String) : Prop :=
  ∀ r ∈ db.runs, r.runId = swept.runId → r.fenceStamp = some ⟨seed, .fail⟩ →
    ∀ t ∈ db.tasks, t.taskId = r.taskId → t.state.Live →
      successorOwned db swept.passId t.taskId (r.attempt + 1) ∨ t.infraRetries ≠ INFRA_RETRY_CAP ∨
        passAdmission (capAdmission db) r t
deriving Decidable

/-! ## The arms of a sweep -/

variable (seed fence) in
/-- A sweep's compare-and-set that takes the run. -/
theorem Inv.sweptFailing (h : Inv db) {p : Run → Prop} [DecidablePred p] {f : Table.Change Run.keys}
    {r : Run} (hr : r ∈ db.runs) (hpr : p r) (hp : ∀ s, p s → whereSweptClaim swept s)
    (hf : ∀ s, s.Same (f s) ∧ (f s).state = .failed ∧ (f s).fenceStamp = some ⟨seed, fence⟩) :
    ∃ r' t, Failing db { db with runs := db.runs.update p f } seed swept.runId fence r r' t ∧
      t.queue = swept.queue := by
  obtain ⟨hid, hq, hrun, _⟩ := hp r hpr
  obtain ⟨t, ht, hown⟩ := h.owner r hr
  have hruns : Table.Replaced db.runs (db.runs.update p f) r (f r) :=
    .update hr hpr fun s hs hps => db.run_unique hs hr ((hp s hps).1.trans hid.symm)
  refine ⟨f r, t, ⟨⟨hr, ht, hown, by simp [hrun]⟩, hrun, hid, (hf r).1, (hf r).2.1, (hf r).2.2,
    hruns, rfl, rfl, rfl, ?_⟩, hown.2.trans hq⟩
  exact h.phased.steps (hruns.rel hr (hf r).1 fun s _ _ => .refl s) (.refl Task.Steps.refl _) rfl

/-- A terminal arm of a sweep yields to a run that follows the failed one. -/
theorem runsToTasks_of_sweepFollowed {name : Statement} {narrow : Task → Prop}
    [DecidablePred narrow] {set : Table.Change Task.keys}
    (hnarrow : ∀ t, narrow t → t.state.Live ∧ ¬ sweepFollowedBy db seed fence swept t)
    (h : ∀ f ∈ db.runs, f.runId = swept.runId → f.fenceStamp = some ⟨seed, fence⟩ →
      ∀ t ∈ db.tasks, t.taskId = f.taskId → t.state.Live →
        successorOwned db swept.passId t.taskId (f.attempt + 1)) :
    runsToTasks db seed name fence swept.queue (fun f => f.runId = swept.runId) narrow set = db :=
  runsToTasks_of_forall_not fun t ht f hf hfol => by
    obtain ⟨hl, hno⟩ := hnarrow t hfol.narrow
    exact hno ⟨f, stampedRun_eq_some.mpr ⟨hf, hfol.selected, hfol.stamp⟩,
      h f hf hfol.selected hfol.stamp t ht hfol.taskId.symm hl⟩

section Arms

variable {db₂ : Db} {r r' : Run} {t : Task} {terminal name : Statement}

/-- A terminal arm of a sweep that took its run and placed none after it. -/
theorem Failing.sweepTerminal (h : Failing db db₂ seed swept.runId fence r r' t) (hinv : Inv db)
    (hleft : fence.Left .failed) (hname : ∀ s, name.LeftTask s) (hq : t.queue = swept.queue)
    (hpass : ¬ passAdmission (capAdmission db₂) r' t) {narrow : Task → Prop}
    [DecidablePred narrow] (hnarrow : narrow t) :
    Owing seed t.queue t.taskId name
      (runsToTasks db₂ seed name fence swept.queue (fun f => f.runId = swept.runId) narrow
        ⟨fun t => { t with state := .failed, failureReason := some reason }, fun _ => rfl⟩) := by
  obtain ⟨hlive, hat⟩ := h.attempt hinv
  have hcounted := (hinv.settled t h.current.task).counted
  have hroom := hcounted.budget hlive
  have hrun : r'.runId = swept.runId := h.run.runId.trans h.runId
  obtain ⟨t', htasks, hsame, hst, hattempts, hinfra, hmax, hts⟩ : ∃ t',
      Table.Replaced db₂.tasks (runsToTasks db₂ seed name fence swept.queue
        (fun f => f.runId = swept.runId) narrow
        ⟨fun t => { t with state := .failed, failureReason := some reason }, fun _ => rfl⟩).tasks
        t t' ∧ t.Same t' ∧ t'.state = .failed ∧ t'.attempts = t.attempts ∧
        t'.infraRetries = t.infraRetries ∧ t'.maxAttempts = t.maxAttempts ∧
        t'.fenceStamp = some ⟨seed, name⟩ := by
    refine runsToTasks_replaced h.mem_task h.mem
      ⟨⟨hrun, h.owned.2.symm.trans hq, h.stamp⟩, h.taskId, hnarrow⟩ hq
      (fun g hg hsrc => ?_) fun _ => ⟨⟨rfl, rfl⟩, rfl, rfl, rfl, rfl, rfl⟩
    rw [Db.run_unique hg h.mem (hsrc.selected.trans hrun.symm)]
    exact h.taskId
  refine h.finish hinv hleft hname rfl htasks hsame hst hts
    ⟨hattempts ▸ hcounted.attempts, hmax ▸ hcounted.maxAttempts, hinfra ▸ hcounted.infraRetries,
      by simp [hst]⟩
    (Or.inr (by rw [← h.run.attempt]; omega)) (by omega) fun hno hpending => ?_
  by_contra hlt
  refine hpass ⟨hlive, ⟨hno, hpending⟩, ?_⟩
  simp only [maxAttemptsBounds]
  omega

end Arms

/-! ## sweepLostLaunch -/

/-- The task follows the run a sweep reopened. -/
theorem taskPending_owing (h : Inv db) (h' : Unmirrored db')
    (hpark : ParkFollowed db' seed swept.queue swept.runId .reopen) (ht : db'.tasks = db.tasks)
    (hw : db'.waits = db.waits) (he : db'.events = db.events) :
    Owing seed swept.queue swept.taskId .taskFail (taskPending db' seed swept) := by
  have hcore : Core (taskPending db' seed swept) := by
    refine ⟨h'.runsToTasks (fun _ => trivial) fun t _ f _ hfol =>
      ⟨⟨rfl, rfl⟩, rfl, rfl, rfl, Or.inr ⟨hfol.narrow, trivial⟩⟩, ?_⟩
    refine Mirror.runsToTasks h'.toUnits (fun r hr t ht hid hl => ?_) (fun t ht f hf hfol => ?_)
      fun _ => rfl
    · obtain heq | ⟨hrun, hq, hs, htl⟩ := hpark r hr t ht hid hl
      · exact Or.inl heq
      · exact Or.inr ⟨⟨hrun, hq, hs⟩, hid, htl⟩
    · have hst : f.state = .pending := h'.stamped.runs f hf _ hfol.stamp
      rw [hst]
      exact ⟨hfol.narrow, trivial, rfl⟩
  refine h.owing hcore (fun w hmem => hw ▸ hmem) he fun t hmem hl =>
    Or.inl ⟨t, ht ▸ ?_, .refl t, hl⟩
  exact mem_of_runsToTasks_ended db' hmem (fun _ _ _ _ _ => trivial) hl

variable (swept) in
/-- A run reopened before, and its task, stay as they are. -/
theorem Late.taskPending {queue taskId runId passId : String} {terminal : Statement}
    (h : Late seed queue taskId terminal runId passId fence db) :
    Late seed queue taskId terminal runId passId fence (taskPending db seed swept) := by
  refine ⟨h.toOwing.runsToTasks (fun _ => trivial) fun t ht f hf hfol => ?_, h.placed⟩
  have hst : f.state = .pending := h.stamped.runs f hf _ hfol.stamp
  have heq : t.state = .pending :=
    (h.toCore.state_eq hf ht hfol.taskId (by simp [hst])).trans hst
  exact ⟨hfol.narrow, ⟨⟨rfl, rfl⟩, rfl, rfl, rfl, Or.inl heq.symm⟩, heq.symm⟩

/-- The relaunch of a lost launch: the task follows the reopened run. -/
theorem reopen_won (h : Inv db) (hplaced : Placed db seed swept.runId swept.passId .cap)
    {r : Run} (hr : r ∈ db.runs) (hg : reopenGuard db now swept r) {passed : Db}
    (hpass : capSagaPass (capLostLaunchCas (reopenLostLaunchCas db seed swept now) seed swept now)
      seed swept .cap reason = some passed) :
    Late seed swept.queue swept.taskId .taskFail swept.runId swept.passId .cap
      (taskFail (taskPending passed seed swept) seed swept) := by
  obtain ⟨hcas, hpark⟩ := h.park seed swept.queue swept.runId .reopen
    (p := reopenGuard db now swept)
    (f := ⟨fun r => { r with
      state := .pending
      claimedBy := none
      claimExpiresAtMs := none
      heartbeatAtMs := none
      relaunchCount := r.relaunchCount + 1
      availableAtMs := some (now + relaunchDelayMs r)
      fenceStamp := some ⟨seed, .reopen⟩
      fenceAtMs := now }, fun _ => rfl⟩)
    (fun r hg => ⟨hg.1.1, hg.1.2.1, hg.1.2.2.1⟩)
    fun r => ⟨⟨rfl, rfl, rfl, rfl⟩, trivial, rfl, rfl⟩
  change Unmirrored (reopenLostLaunchCas db seed swept now) at hcas
  change ParkFollowed (reopenLostLaunchCas db seed swept now) _ _ _ _ at hpark
  have hthe : ∀ s ∈ (reopenLostLaunchCas db seed swept now).runs, s.runId = swept.runId →
      s.state = .pending ∧ s.fenceStamp = some ⟨seed, .reopen⟩ := by
    intro s hs hid
    obtain ⟨s₀, _, _, rfl⟩ | ⟨hs, hno⟩ := Table.update_cases hs
    · exact ⟨rfl, rfl⟩
    · rw [db.run_unique hs hr (hid.trans hg.1.1.symm)] at hno
      exact absurd hg hno
  have hnopass : ∀ s ∈ (reopenLostLaunchCas db seed swept now).runs, s.runId = swept.passId →
      ∀ name, name = .successor ∨ name = .rollbackPass → s.fenceStamp ≠ some ⟨seed, name⟩ := by
    intro s hs hid name hname hstamp
    obtain ⟨s₀, _, _, rfl⟩ | ⟨hs, _⟩ := Table.update_cases hs
    · rcases hname with rfl | rfl <;> simp [reopenAssignments] at hstamp
    · obtain ⟨⟨f, hf, hfid, hfs, _⟩, _⟩ := hplaced s hs hid name hname hstamp
      obtain rfl := db.run_unique hf hr (hfid.trans hg.1.1.symm)
      have hst : f.state = .failed := h.stamped.runs f hf _ hfs
      rw [hg.1.2.2.1] at hst
      cases hst
  -- The cap's compare-and-set comes second and finds the run pending, so it takes nothing.
  have hcap : capLostLaunchCas (reopenLostLaunchCas db seed swept now) seed swept now =
      reopenLostLaunchCas db seed swept now :=
    updateRuns_of_forall_not fun s hs hcapg => by
      have hst := (hthe s hs hcapg.1.1).1
      rw [hcapg.1.2.2.1] at hst
      cases hst
  have hnocap : stampedRun (reopenLostLaunchCas db seed swept now) seed swept.runId .cap = none :=
    stampedRun_eq_none.mpr fun s hs hid hstamp => by
      rw [(hthe s hs hid).2] at hstamp
      simp at hstamp
  rw [hcap, capSagaPass, sagaPass_of_owned (by simp [hnocap])
    fun s hs hid => hnopass s hs hid _ (Or.inr rfl)] at hpass
  obtain rfl := Option.some.inj hpass
  have howing : Owing seed swept.queue swept.taskId .taskFail
      (taskPending (reopenLostLaunchCas db seed swept now) seed swept) :=
    taskPending_owing h hcas hpark rfl rfl rfl
  -- No run carries the cap's stamp, so the statement that ends the task selects none.
  have hend : taskFail (taskPending (reopenLostLaunchCas db seed swept now) seed swept) seed swept =
      taskPending (reopenLostLaunchCas db seed swept now) seed swept :=
    runsToTasks_of_forall_not fun _ _ f hf hfol =>
      stampedRun_eq_none.mp hnocap f hf hfol.selected hfol.stamp
  rw [hend]
  exact ⟨howing, fun s hs hid name hname hstamp => absurd hstamp (hnopass s hs hid name hname)⟩

/-- The relaunch cap yields to a run that follows the one it failed. -/
theorem taskFail_of_followed
    (h : ∀ f ∈ db.runs, f.runId = swept.runId → f.fenceStamp = some ⟨seed, .cap⟩ →
      ∀ t ∈ db.tasks, t.taskId = f.taskId → t.state.Live →
        successorOwned db swept.passId t.taskId (f.attempt + 1)) :
    taskFail db seed swept = db :=
  runsToTasks_of_sweepFollowed (fun _ ht => ht) h

/-- The relaunch cap that took its run: a pass or the end. -/
theorem cap_won (h : Inv db) (hplaced : Placed db seed swept.runId swept.passId .cap)
    {r : Run} (hr : r ∈ db.runs) (hg : capGuard db now swept r) (htask : r.taskId = swept.taskId)
    {passed : Db} (hpass : capSagaPass (capLostLaunchCas db seed swept now) seed swept .cap reason =
      some passed) :
    Late seed swept.queue swept.taskId .taskFail swept.runId swept.passId .cap
      (taskFail (taskPending passed seed swept) seed swept) := by
  obtain ⟨r', t, hf, hq⟩ := h.sweptFailing seed .cap
    (f := ⟨fun r => { failedRun seed .cap REASON_RELAUNCH_CAP now r with claimExpiresAtMs := none },
        fun _ => rfl⟩) hr hg (fun s hs => hs.1) fun s => ⟨⟨rfl, rfl, rfl, rfl⟩, rfl, rfl⟩
  change Failing db (capLostLaunchCas db seed swept now) seed swept.runId .cap r r' t at hf
  rw [← hq, ← htask, hf.current.taskId]
  have hrun : r'.runId = swept.runId := hf.run.runId.trans hf.runId
  rw [capSagaPass, ← hq] at hpass
  obtain ⟨rfl, hnopass⟩ | ⟨hlate, hmem, p, hp, hpid, hpt, hpat, _⟩ :=
    hf.sagaPass .taskFail h fails_cap rfl hplaced (by simp) hpass
  · have hpending : taskPending (capLostLaunchCas db seed swept now) seed swept =
        capLostLaunchCas db seed swept now :=
      runsToTasks_of_forall_not fun _ _ f hfm hfol => by
        rw [Db.run_unique hfm hf.mem (hfol.selected.trans hrun.symm)] at hfol
        simpa using hf.stamp.symm.trans hfol.stamp
    rw [hpending]
    have hname : ∀ s, Statement.taskFail.LeftTask s := fun _ => trivial
    refine ⟨hf.sweepTerminal h rfl hname hq hnopass ⟨(hf.attempt h).1, ?_⟩,
      hf.placed h fails_cap hplaced⟩
    rintro ⟨g, hg, howned⟩
    obtain rfl := Option.some.inj (hf.stampedRun.symm.trans hg)
    exact hf.not_owned swept.passId h howned
  · have hlate' := hlate.taskPending swept
    rw [taskFail_of_followed fun f hfm hid _ u _ hut _ => ?_]
    · exact hlate'
    · obtain rfl := Db.run_unique hfm hmem (hid.trans hrun.symm)
      exact ⟨p, hp, hpid, (hpt.trans hf.taskId.symm).trans hut.symm, hpat⟩

/-- The sweep of a lost launch that took no run, and spares the task it failed a run of before. -/
theorem lostLaunch_late (h : Inv db) (hplaced : Placed db seed swept.runId swept.passId .cap)
    (hspares : swept.SparesLostLaunch db seed) {passed : Db}
    (hpass : capSagaPass db seed swept .cap reason = some passed) :
    Late seed swept.queue swept.taskId .taskFail swept.runId swept.passId .cap
      (taskFail (taskPending passed seed swept) seed swept) := by
  have hlate : Late seed swept.queue swept.taskId .taskFail swept.runId swept.passId .cap db :=
    h.late hplaced
  obtain ⟨hpassed, hruns, howned⟩ := hlate.sagaPass fails_cap hpass
  have hpending := hpassed.taskPending swept
  rw [taskFail_of_followed fun f hf hid hs t ht hft hl => ?_]
  · exact hpending
  have hf₀ : f ∈ db.runs := hruns ▸ hf
  obtain ⟨t₀, ht₀, hown₀⟩ := h.owner f hf₀
  have hl₀ : t₀.state.Live := h.toCore.live_of_runs hpending.toCore hruns ht₀ ht
    (hown₀.1.trans hft.symm) hl
  have hdone : successorOwned db swept.passId f.taskId (f.attempt + 1) := by
    rcases hspares f hf₀ hid hs t₀ ht₀ hown₀.1 hl₀ with hdone | hadm
    · rwa [hown₀.1] at hdone
    · exact howned f (stampedRun_eq_some.mpr ⟨hf₀, hid, hs⟩) ⟨t₀, ht₀, hown₀, hadm⟩
  obtain ⟨s, hsm, hrest⟩ := hdone
  rw [hft]
  exact ⟨s, hruns ▸ hsm, hrest⟩

/-- The sweep of a lost launch keeps the invariant, delivered once, or again where it spares the
task. `swept.taskId` is the answer of a read of the run's task. -/
theorem sweepLostLaunch_inv (h : Inv db)
    (hanswer : ∀ r ∈ db.runs, r.runId = swept.runId → r.queue = swept.queue →
      r.taskId = swept.taskId)
    (hplaced : Placed db seed swept.runId swept.passId .cap)
    (hspares : swept.SparesLostLaunch db seed) (hrun : sweepLostLaunch seed swept now db = some out) :
    Inv out.db ∧ Placed out.db seed swept.runId swept.passId .cap := by
  obtain ⟨passed, hpass, hout⟩ := Option.bind_eq_some_iff.mp hrun
  obtain rfl := Option.some.inj hout
  refine Late.inv ?_ fails_cap
  by_cases hreopen : ∃ r ∈ db.runs, reopenGuard db now swept r
  · obtain ⟨r, hr, hg⟩ := hreopen
    exact reopen_won h hplaced hr hg hpass
  have hcas : reopenLostLaunchCas db seed swept now = db :=
    updateRuns_of_forall_not fun r hr hg => hreopen ⟨r, hr, hg⟩
  rw [hcas] at hpass
  by_cases hcap : ∃ r ∈ db.runs, capGuard db now swept r
  · obtain ⟨r, hr, hg⟩ := hcap
    exact cap_won h hplaced hr hg (hanswer r hr hg.1.1 hg.1.2.1) hpass
  · have hcas : capLostLaunchCas db seed swept now = db :=
      updateRuns_of_forall_not fun r hr hg => hcap ⟨r, hr, hg⟩
    rw [hcas] at hpass
    exact lostLaunch_late h hplaced hspares hpass

/-! ## sweepClaimTimeout -/

/-- The successor of a dead claim, while it carries the batch's stamp, is pending. -/
def PlacedPending (db : Db) (seed passId : String) : Prop :=
  ∀ p ∈ db.runs, p.runId = passId → p.fenceStamp = some ⟨seed, .successor⟩ → p.state = .pending

/-- A successor that was placed before is followed as it already is. -/
theorem Late.bookkeeping {queue taskId : String} {terminal : Statement}
    (h : Late seed queue taskId terminal swept.runId swept.passId fence db)
    (hpending : PlacedPending db seed swept.passId) :
    Late seed queue taskId terminal swept.runId swept.passId fence (bookkeeping db seed swept) := by
  refine ⟨h.toOwing.runsToTasks (fun _ => trivial) fun t ht p hp hfol => ?_, h.placed⟩
  obtain ⟨hl, hst, _, _, hat⟩ := h.placed.attempts h.toCore (Or.inl rfl) hp ht
    hfol.selected hfol.stamp hfol.taskId
  have hstate : t.state = .pending := hst.trans (hpending p hp hfol.selected hfol.stamp)
  have hinfra : infraRetriesFrom db seed swept.passId .successor t = t.infraRetries := by
    unfold infraRetriesFrom
    rw [stampedRun_eq_some.mpr ⟨hp, hfol.selected, hfol.stamp⟩]
    simp only [Option.map_some, Option.getD_some]
    omega
  exact ⟨hfol.narrow, ⟨⟨rfl, rfl⟩, rfl, hinfra, rfl, Or.inl hstate.symm⟩, hstate.symm⟩

/-- A saga arm changes no task's infrastructure retries. -/
theorem sagaPass_infraRetries {queue runId passId : String} {enteringWith : Option String}
    {delayMs : ℤ} {admission : Run → Task → Prop} [∀ f t, Decidable (admission f t)]
    (hrun : sagaPass db seed queue runId passId fence enteringWith delayMs admission = some db')
    {t' : Task} (ht' : t' ∈ db'.tasks) :
    ∃ t ∈ db.tasks, t.Same t' ∧ t'.infraRetries = t.infraRetries := by
  obtain ⟨placed, hplaced, hdb'⟩ := Option.bind_eq_some_iff.mp hrun
  obtain rfl := Option.some.inj hdb'
  have htasks : placed.tasks = db.tasks := by
    obtain ⟨rfl, _⟩ | ⟨f, _, _, runs, _, _, rfl⟩ := failureSuccessor_cases hplaced <;> rfl
  obtain ⟨t, ht, _, _, _, _, _, rfl⟩ | ⟨ht', _⟩ := runsToTasks_cases ht'
  · rw [sagaPhaseMarker_tasks, htasks] at ht
    exact ⟨t, ht, ⟨rfl, rfl⟩, rfl⟩
  · rw [sagaPhaseMarker_tasks, htasks] at ht'
    exact ⟨t', ht', .refl t', rfl⟩

/-- The infrastructure cap yields to a run that follows the one the batch failed. -/
theorem timeoutTerminal_of_followed
    (h : ∀ f ∈ db.runs, f.runId = swept.runId → f.fenceStamp = some ⟨seed, .fail⟩ →
      ∀ t ∈ db.tasks, t.taskId = f.taskId → t.state.Live → t.infraRetries = INFRA_RETRY_CAP →
        successorOwned db swept.passId t.taskId (f.attempt + 1)) :
    timeoutTerminal db seed swept = db :=
  runsToTasks_of_forall_not fun t ht f hf hfol => by
    obtain ⟨hl, _, hcap, hno⟩ := hfol.narrow
    exact hno ⟨f, stampedRun_eq_some.mpr ⟨hf, hfol.selected, hfol.stamp⟩,
      h f hf hfol.selected hfol.stamp t ht hfol.taskId.symm hl hcap⟩

section ClaimTimeout

variable {db₂ : Db} {r r' : Run} {t : Task} {terminal : Statement}

/-- A failed run is refused its infrastructure successor only at the cap. -/
theorem Failing.at_cap (h : Failing db db₂ seed swept.runId .fail r r' t) (hinv : Inv db)
    (hno : ¬ infraAdmission r' t) : t.infraRetries = INFRA_RETRY_CAP := by
  obtain ⟨hlive, hat⟩ := h.attempt hinv
  obtain ⟨⟨hlo, hhi⟩, ⟨hmlo, hmhi⟩, hinfra, hbudget⟩ := (hinv.settled t h.current.task).counted
  have hroom := hbudget hlive
  have ⟨hilo, hihi⟩ := hinfra
  by_contra hne
  refine hno ⟨hlive, hinfra, ?_, ?_⟩ <;>
    simp only [attemptsBounds, maxAttemptsBounds, infraRetriesBounds, INFRA_RETRY_CAP,
      storedIncrementableInteger, attemptBounds, MAX_RUN_ORDINAL] at *
  · omega
  · constructor <;> omega

/-- The infrastructure successor a batch places turns the unit: the task is charged the retry. -/
theorem Failing.infraSuccessor (h : Failing db db₂ seed swept.runId .fail r r' t) (hinv : Inv db)
    (hq : t.queue = swept.queue) {p : Run} {runs : Table Run Run.keys} {availableAtMs : ℤ}
    (hruns : ∀ s, s ∈ runs ↔ s ∈ db₂.runs ∨ s = p)
    (hp : p = successorRun seed .successor swept.passId r' .pending availableAtMs r'.fenceAtMs)
    (hadm : infraAdmission r' t) (hdb' : db' = bookkeeping { db₂ with runs } seed swept) :
    Late seed t.queue t.taskId terminal swept.runId swept.passId .fail db' := by
  subst hdb'
  obtain ⟨hlive, hat⟩ := h.attempt hinv
  have hpmem : p ∈ ({ db₂ with runs } : Db).runs := (hruns p).mpr (Or.inr rfl)
  have hpid : p.runId = swept.passId := by rw [hp]; rfl
  have hps : p.fenceStamp = some ⟨seed, .successor⟩ := by rw [hp]; rfl
  have hpat : p.attempt = r'.attempt + 1 := by rw [hp]; rfl
  have hpq : p.queue = swept.queue := by
    rw [hp]
    exact h.owned.2.symm.trans hq
  have hpt : p.taskId = t.taskId := by
    rw [hp]
    exact h.taskId
  obtain ⟨t', htasks, hsame, hst, hattempts, hinfra, hmax, hts⟩ : ∃ t',
      Table.Replaced db₂.tasks (bookkeeping { db₂ with runs } seed swept).tasks t t' ∧
        t.Same t' ∧ t'.state = .pending ∧ t'.attempts = t.attempts ∧
        t'.infraRetries = t.infraRetries + 1 ∧ t'.maxAttempts = t.maxAttempts ∧
        t'.fenceStamp = some ⟨seed, .bookkeeping⟩ := by
    refine runsToTasks_replaced h.mem_task hpmem ⟨⟨hpid, hpq, hps⟩, hpt, hlive⟩ hq
      (fun g hg hsrc => ?_) fun _ => ⟨⟨rfl, rfl⟩, rfl, rfl, ?_, rfl, rfl⟩
    · rw [Db.run_unique hg hpmem (hsrc.selected.trans hpid.symm)]
      exact hpt
    · show infraRetriesFrom { db₂ with runs } seed swept.passId .successor t = t.infraRetries + 1
      unfold infraRetriesFrom
      rw [stampedRun_eq_some.mpr ⟨hpmem, hpid, hps⟩]
      simp only [Option.map_some, Option.getD_some]
      omega
  obtain ⟨hlo, hm, ⟨hilo, hihi⟩, hbudget⟩ := (hinv.settled t h.current.task).counted
  have := hbudget hlive
  have hcap := hadm.2.2.1
  refine (h.successor hinv rfl hruns (show TaskState.pending.Queued from trivial) hp rfl htasks
    hsame hst (fun s hs => ?_) ⟨hattempts ▸ hlo, hmax ▸ hm, ?_, fun _ => by omega⟩ ?_ fun hsaga => ?_).1
  · obtain rfl := Option.some.inj (hts.symm.trans hs)
    trivial
  · simp only [infraRetriesBounds, INFRA_RETRY_CAP] at *
    constructor <;> simp only <;> omega
  · rw [← h.run.attempt]
    omega
  · have hspent := (h.phased.tasks t h.mem_task).spent hlive hsaga
    omega

/-- The sweep of a dead claim that took its run: an infrastructure successor, a pass or the end. -/
theorem claimTimeout_won (h : Inv db) (hplaced : Placed db seed swept.runId swept.passId .fail)
    (hr : r ∈ db.runs) (hg : claimTimeoutGuard db now swept r) (htask : r.taskId = swept.taskId)
    {placed passed : Db}
    (hsucc : claimTimeoutSuccessor (failClaimTimeoutCas db seed swept now) seed swept = some placed)
    (hpass : capSagaPass placed seed swept .fail reason = some passed) :
    Late seed swept.queue swept.taskId .taskTerminal swept.runId swept.passId .fail
        (bookkeeping (timeoutTerminal passed seed swept) seed swept) ∧
      PlacedPending (bookkeeping (timeoutTerminal passed seed swept) seed swept) seed
        swept.passId := by
  obtain ⟨r', t, hf, hq⟩ := h.sweptFailing seed .fail
    (f := ⟨failedRun seed .fail REASON_CLAIM_TIMEOUT now, fun _ => rfl⟩) hr hg (fun s hs => hs.1)
    fun s => ⟨⟨rfl, rfl, rfl, rfl⟩, rfl, rfl⟩
  change Failing db (failClaimTimeoutCas db seed swept now) seed swept.runId .fail r r' t at hf
  rw [← hq, ← htask, hf.current.taskId]
  have hrun : r'.runId = swept.runId := hf.run.runId.trans hf.runId
  have hnosucc : ∀ s ∈ (failClaimTimeoutCas db seed swept now).runs, s.runId = swept.passId →
      s.fenceStamp ≠ some ⟨seed, .successor⟩ :=
    fun s hs hid => hf.not_placed h fails_fail hplaced (Or.inl rfl) hs hid
  obtain ⟨rfl, howned⟩ | ⟨f, hfs, ⟨u, hu, hown, hadm⟩, runs, hfree, hruns, rfl⟩ :=
    failureSuccessor_cases hsucc
  -- No retry was placed, so the budget is spent: a rollback pass takes the run over, or the task
  -- ends.
  · have hcap : t.infraRetries = INFRA_RETRY_CAP := hf.at_cap h fun hadm =>
      hf.not_owned swept.passId h
        (hf.taskId ▸ howned r' hf.stampedRun ⟨t, hf.mem_task, hf.owned, hadm⟩)
    rw [capSagaPass, ← hq] at hpass
    obtain ⟨rfl, hnopass⟩ | ⟨hlate, hmem, p, hp, hpid, hpt, hpat, hps⟩ :=
      hf.sagaPass .taskTerminal h fails_fail rfl hplaced (by simp) hpass
    · have hname : ∀ s, Statement.taskTerminal.LeftTask s := fun _ => trivial
      have hbook : bookkeeping (timeoutTerminal (failClaimTimeoutCas db seed swept now) seed swept)
          seed swept = timeoutTerminal (failClaimTimeoutCas db seed swept now) seed swept :=
        runsToTasks_of_forall_not fun _ _ f hfm hfol => hnosucc f hfm hfol.selected hfol.stamp
      rw [hbook]
      refine ⟨⟨hf.sweepTerminal h rfl hname hq hnopass ⟨(hf.attempt h).1,
        (h.settled t hf.current.task).counted.infraRetries, hcap, ?_⟩,
        hf.placed h fails_fail hplaced⟩, fun s hs hid hstamp => absurd hstamp (hnosucc s hs hid)⟩
      rintro ⟨g, hg, howned⟩
      obtain rfl := Option.some.inj (hf.stampedRun.symm.trans hg)
      exact hf.not_owned swept.passId h howned
    · rw [timeoutTerminal_of_followed fun f hfm hid _ u _ hut _ _ => ?_]
      · have hpending : PlacedPending passed seed swept.passId := by
          intro s hs hid hstamp
          rw [Db.run_unique hs hp (hid.trans hpid.symm), hps] at hstamp
          simp at hstamp
        exact ⟨hlate.bookkeeping hpending, hpending⟩
      · obtain rfl := Db.run_unique hfm hmem (hid.trans hrun.symm)
        exact ⟨p, hp, hpid, (hpt.trans hf.taskId.symm).trans hut.symm, hpat⟩
  -- A retry was placed: the pass's guard finds the run owned, and the terminal arm finds it
  -- followed.
  · obtain rfl := Option.some.inj (hf.stampedRun.symm.trans hfs)
    obtain rfl := hf.eq_task hu hown
    have hpmem := (hruns _).mpr (Or.inr rfl)
    set p := successorRun seed .successor swept.passId r' .pending
      (r'.fenceAtMs + INFRA_BACKOFF_SECONDS * 1000) r'.fenceAtMs with hp
    have hthe : ∀ s ∈ runs, s.runId = swept.passId → s = p := fun s hs hid =>
      ({ failClaimTimeoutCas db seed swept now with runs } : Db).run_unique hs hpmem hid
    rw [capSagaPass, sagaPass_of_owned (fun g hg => ?_) fun s hs hid hstamp => ?_] at hpass
    · obtain rfl := Option.some.inj hpass
      have hterminal : timeoutTerminal { failClaimTimeoutCas db seed swept now with runs } seed
          swept = { failClaimTimeoutCas db seed swept now with runs } := by
        refine timeoutTerminal_of_followed fun g hg hid _ v _ hvt _ _ => ?_
        obtain rfl := ({ failClaimTimeoutCas db seed swept now with runs } : Db).run_unique hg
          ((hruns r').mpr (Or.inl hf.mem)) (hid.trans hrun.symm)
        exact ⟨p, hpmem, rfl, hvt.symm, rfl⟩
      rw [hterminal]
      exact ⟨hf.infraSuccessor h hq hruns hp hadm rfl, fun s hs hid _ => by rw [hthe s hs hid]; rfl⟩
    · obtain ⟨hgmem, hgid, _⟩ := stampedRun_eq_some.mp hg
      obtain rfl := ({ failClaimTimeoutCas db seed swept now with runs } : Db).run_unique hgmem
        ((hruns r').mpr (Or.inl hf.mem)) (hgid.trans hrun.symm)
      exact ⟨p, hpmem, rfl, rfl, rfl⟩
    · rw [hthe s hs hid] at hstamp
      simp [hp, successorRun] at hstamp

/-- The sweep of a dead claim that took no run, and spares the task it failed a run of before. -/
theorem claimTimeout_late (h : Inv db) (hplaced : Placed db seed swept.runId swept.passId .fail)
    (hpending : PlacedPending db seed swept.passId)
    (hspares : swept.SparesClaimTimeout db seed) {placed passed : Db}
    (hsucc : claimTimeoutSuccessor db seed swept = some placed)
    (hpass : capSagaPass placed seed swept .fail reason = some passed) :
    Late seed swept.queue swept.taskId .taskTerminal swept.runId swept.passId .fail
        (bookkeeping (timeoutTerminal passed seed swept) seed swept) ∧
      PlacedPending (bookkeeping (timeoutTerminal passed seed swept) seed swept) seed
        swept.passId := by
  have hlate : Late seed swept.queue swept.taskId .taskTerminal swept.runId swept.passId .fail db :=
    h.late hplaced
  obtain ⟨rfl, _⟩ := failureSuccessor_late h.toCore (fun _ _ hadm => hadm.1)
    (fun f hf => h.stamped.failed fails_fail hf) hsucc
  obtain ⟨hpassed, hruns, howned⟩ := hlate.sagaPass fails_fail hpass
  rw [timeoutTerminal_of_followed fun f hf hid hs t ht hft hl hcap => ?_]
  · have hpending' : PlacedPending passed seed swept.passId := fun p hp => hpending p (hruns ▸ hp)
    exact ⟨hpassed.bookkeeping hpending', hpending'⟩
  have hf₀ : f ∈ placed.runs := hruns ▸ hf
  obtain ⟨t₀, ht₀, hsame, hinfra⟩ := sagaPass_infraRetries hpass ht
  have hid₀ : t₀.taskId = f.taskId := hsame.taskId.symm.trans hft
  have hl₀ : t₀.state.Live :=
    h.toCore.live_of_runs hpassed.toCore hruns ht₀ ht hsame.taskId.symm hl
  have hdone : successorOwned placed swept.passId t₀.taskId (f.attempt + 1) := by
    rcases hspares f hf₀ hid hs t₀ ht₀ hid₀ hl₀ with hdone | hbelow | hadm
    · exact hdone
    · exact absurd (hinfra ▸ hcap) hbelow
    · obtain ⟨u, hu, hown⟩ := h.owner f hf₀
      obtain rfl := Db.task_unique hu ht₀ (hown.1.trans hid₀.symm)
      rw [hid₀]
      exact howned f (stampedRun_eq_some.mpr ⟨hf₀, hid, hs⟩) ⟨u, hu, hown, hadm⟩
  obtain ⟨s, hsm, hrest⟩ := hdone
  rw [hsame.taskId]
  exact ⟨s, hruns ▸ hsm, hrest⟩

/-- A successor placed pending is pending while it carries the stamp, whatever came after. -/
theorem PlacedPending.frame {passId σ : String} {names : Statement → Prop}
    (h : PlacedPending db seed passId) (hframe : Frame σ names db db')
    (hother : ∀ n, names n → (⟨seed, .successor⟩ : Stamp) ≠ ⟨σ, n⟩) :
    PlacedPending db' seed passId := by
  intro p hp hid hs
  obtain ⟨p₀, hp₀, hsame, hs₀, hst⟩ := hframe.stamped_before hp hs hother
  rw [hst]
  exact h p₀ hp₀ (hsame.runId.symm.trans hid) hs₀

/-- What the sweep of a dead claim leaves to a later delivery of itself. -/
structure Swept.LeftClaimTimeout (swept : Swept) (db : Db) (seed : String) : Prop where
  placed : Placed db seed swept.runId swept.passId .fail
  pending : PlacedPending db seed swept.passId

/-- The sweep of a dead claim keeps the invariant, delivered once, or again where it spares the task.
`swept.taskId` is the answer of a read of the run's task. -/
theorem sweepClaimTimeout_inv (h : Inv db)
    (hanswer : ∀ r ∈ db.runs, r.runId = swept.runId → r.queue = swept.queue →
      r.taskId = swept.taskId)
    (hleft : swept.LeftClaimTimeout db seed) (hspares : swept.SparesClaimTimeout db seed)
    (hrun : sweepClaimTimeout seed swept now db = some out) :
    Inv out.db ∧ swept.LeftClaimTimeout out.db seed := by
  obtain ⟨placed, hsucc, hrun⟩ := Option.bind_eq_some_iff.mp hrun
  obtain ⟨passed, hpass, hout⟩ := Option.bind_eq_some_iff.mp hrun
  obtain rfl := Option.some.inj hout
  have hlate : Late seed swept.queue swept.taskId .taskTerminal swept.runId swept.passId .fail
      (bookkeeping (timeoutTerminal passed seed swept) seed swept) ∧
      PlacedPending (bookkeeping (timeoutTerminal passed seed swept) seed swept) seed
        swept.passId := by
    by_cases hg : ∃ r ∈ db.runs, claimTimeoutGuard db now swept r
    · obtain ⟨r, hr, hg⟩ := hg
      exact claimTimeout_won h hleft.placed hr hg (hanswer r hr hg.1.1 hg.1.2.1) hsucc hpass
    · have hcas : failClaimTimeoutCas db seed swept now = db :=
        updateRuns_of_forall_not fun r hr hgr => hg ⟨r, hr, hgr⟩
      rw [hcas] at hsucc
      exact claimTimeout_late h hleft.placed hleft.pending hspares hsucc hpass
  obtain ⟨hinv, hplaced⟩ := hlate.1.inv fails_fail
  refine ⟨hinv, hplaced, hlate.2.frame .finish ?_⟩
  rintro n (rfl | rfl) <;> simp

end ClaimTimeout

end Durablerun
