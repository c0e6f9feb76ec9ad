import Durablerun.Store.PlacedPass

/-!
# The counters a delivery moves

Whatever batch is delivered, a live task's counters move only in these ways: a failure charges it an
attempt, a claim timeout that placed a run charges it a retry of the infrastructure, and a pass that
was placed starts its saga and gives it the pass as its budget.

Reference: `packages/store-libsql/src/store.ts`.
-/

namespace Durablerun

open Relational

variable {s : Sys} {b : Batch} {seed queue runId passId taskId : String} {now delayMs : ℤ}
  {db db' db₁ db₂ : Db} {name fence : Statement} {call : Call} {out : Outcome} {t t' : Task}

/-! ## The task a batch ended -/

/-- What every batch that ends a task ends with leaves the ended tasks alone. -/
theorem mem_of_finish_ended {payloadJson : String} {terminal : Statement}
    (ht : t ∈ (addTaskDone (waitsGone db seed runId fence) seed queue taskId terminal
      payloadJson).tasks) (hl : ¬ t.state.Live) : t ∈ db.tasks := by
  obtain ⟨events, heq⟩ := taskDoneEvent_withEvents (waitsGone db seed runId fence) seed queue taskId
    payloadJson terminal
  unfold addTaskDone at ht
  rw [heq] at ht
  have hwoken : t ∈ (wakeRuns { waitsGone db seed runId fence with events } seed queue
      (taskDoneEventName taskId)).tasks :=
    mem_of_runsToTasks_ended _ ht (fun _ _ _ _ _ => trivial) hl
  exact hwoken

/-- A task that follows a placed run lives. -/
theorem mem_of_followed_ended {placed marked : Db} {n : Statement} {state : TaskState}
    {admission : Run → Task → Prop} [∀ f t, Decidable (admission f t)]
    {narrow : Task → Prop} [DecidablePred narrow] {set : Table.Change Task.keys}
    (hnone : ∀ r ∈ db₁.runs, r.fenceStamp ≠ some ⟨seed, name⟩)
    (hplaced : failureSuccessor db₁ seed name fence passId runId delayMs state admission =
      some placed) (hqueued : state.Queued) (hruns : marked.runs = placed.runs)
    (hset : ∀ t, (set t).state = stampedRunState marked seed passId name t)
    (ht : t ∈ (runsToTasks marked seed n name queue (fun f => f.runId = passId) narrow set).tasks)
    (hl : ¬ t.state.Live) : t ∈ marked.tasks := by
  refine mem_of_runsToTasks_ended marked ht (fun u _ p hp hfol => ?_) hl
  obtain ⟨_, _, _, _, _, _, hpeq⟩ :=
    failureSuccessor_placed hnone hplaced (hruns ▸ hp) hfol.stamp
  have hstate : p.state = state := by
    rw [hpeq]
    rfl
  rw [hset, stampedRunState, stampedRun_eq_some.mpr ⟨hp, hfol.selected, hfol.stamp⟩]
  simp only [Option.map_some, Option.getD_some, hstate]
  exact hqueued.live

/-- The saga arm ends no task. -/
theorem mem_of_sagaPass_ended {enteringWith : Option String} {admission : Run → Task → Prop}
    [∀ f t, Decidable (admission f t)]
    (hnone : ∀ r ∈ db₁.runs, r.fenceStamp ≠ some ⟨seed, .rollbackPass⟩)
    (hpass : sagaPass db₁ seed queue runId passId fence enteringWith delayMs admission = some db₂)
    (ht : t ∈ db₂.tasks) (hl : ¬ t.state.Live) : t ∈ db₁.tasks := by
  obtain ⟨placed, hplaced, hdb₂⟩ := Option.bind_eq_some_iff.mp hpass
  obtain rfl := Option.some.inj hdb₂
  have hmarked := mem_of_followed_ended hnone hplaced (by split <;> trivial) sagaPhaseMarker_runs
    (fun _ => rfl) ht hl
  rwa [sagaPhaseMarker_tasks, failureSuccessor_tasks hplaced] at hmarked

/-- The task a failure ended was charged the attempt that failed. -/
theorem failInto_ended {failure : Failure} (hfresh : Unstamped db seed)
    (hrun : failInto seed failure now db = some out) (ht : t ∈ out.db.tasks) (hl : ¬ t.state.Live) :
    t ∈ db.tasks ∨ ∃ r ∈ db.runs, failGuard db now failure r ∧ r.taskId = t.taskId ∧
      t.attempts = r.attempt - t.infraRetries := by
  obtain ⟨passed, hpass, hrun⟩ := Option.bind_eq_some_iff.mp hrun
  obtain ⟨retried, hretry, hout⟩ := Option.bind_eq_some_iff.mp hrun
  obtain rfl := Option.some.inj hout
  set tried := rollbackTries (failCas db seed failure now) seed failure with htried
  -- Neither the saga arm nor the retry leaves the stamp of the failure.
  have hpassed : Frame seed (· ≠ .fail) tried passed := by
    unfold failSagaPass at hpass
    split at hpass
    · exact .sagaPass (by simp) hpass
    · split at hpass
      · rw [Option.some.inj hpass]
        exact .refl _
      · exact .sagaPass (by simp) hpass
  have hretried : Frame seed (· ≠ .fail) passed retried := by
    unfold userRetry at hretry
    split at hretry
    · rw [Option.some.inj hretry]
      exact .refl _
    · obtain ⟨placed, hplaced, rfl⟩ := Option.map_eq_some_iff.mp hretry
      exact (Frame.failureSuccessor (by simp) hplaced).trans (.runsToTasks fun _ => ⟨rfl, rfl⟩)
  obtain ⟨u, _, f, hf, hfol, _, _, rfl⟩ | ⟨ht, _⟩ := runsToTasks_cases (mem_of_finish_ended ht hl)
  · -- The run that carries the failure's stamp is the one the compare-and-set took.
    obtain ⟨f₀, hf₀, hsame, hs₀, _⟩ := (hpassed.trans hretried).stamped_before hf hfol.stamp
      fun n hn he => hn (congrArg Stamp.statement he).symm
    have hearly : Early seed now db db (.failInto failure)
        (rollbackTries (failCas db seed failure now) seed failure) := (rollbackTries_early hfresh).1
    obtain ⟨r, hr, hg, rfl⟩ : ∃ r ∈ db.runs, failGuard db now failure r ∧
        f₀ = failAssignments seed .fail failure.failureJson now r :=
      hearly.runs.failed hfresh hf₀ hs₀
    refine Or.inr ⟨r, hr, hg, hsame.taskId.symm.trans hfol.taskId, ?_⟩
    show userAttemptsFrom retried seed failure.claim.runId .fail u = r.attempt - u.infraRetries
    unfold userAttemptsFrom
    rw [stampedRun_eq_some.mpr ⟨hf, hfol.selected, hfol.stamp⟩]
    exact congrArg (· - u.infraRetries) hsame.attempt
  · -- A task that the end left alone was as it is before the retry, and before the saga arm.
    have hbefore : t ∈ passed.tasks := by
      unfold userRetry at hretry
      split at hretry
      · rwa [Option.some.inj hretry]
      · obtain ⟨placed, hplaced, rfl⟩ := Option.map_eq_some_iff.mp hretry
        rw [← failureSuccessor_tasks hplaced]
        exact mem_of_followed_ended (failSagaPass_unstamped hfresh hpass) hplaced
          (by split <;> trivial) rfl (fun _ => rfl) ht hl
    have hnone : ∀ r ∈ tried.runs, r.fenceStamp ≠ some ⟨seed, .rollbackPass⟩ :=
      rollbackTries_unstamped hfresh
    have htask : t ∈ tried.tasks := by
      unfold failSagaPass at hpass
      split at hpass
      · exact mem_of_sagaPass_ended hnone hpass hbefore hl
      · split at hpass
        · rwa [Option.some.inj hpass]
        · exact mem_of_sagaPass_ended hnone hpass hbefore hl
    rw [htried, rollbackTries_tasks] at htask
    exact Or.inl htask

/-- The task a claim timeout ended had spent its retries of the infrastructure. -/
theorem sweepClaimTimeout_ended {swept : Swept} (hfresh : Unstamped db seed)
    (hrun : sweepClaimTimeout seed swept now db = some out) (ht : t ∈ out.db.tasks)
    (hl : ¬ t.state.Live) : t ∈ db.tasks ∨ t.infraRetries = INFRA_RETRY_CAP := by
  obtain ⟨placed, hsucc, hrun⟩ := Option.bind_eq_some_iff.mp hrun
  obtain ⟨passed, hpass, hout⟩ := Option.bind_eq_some_iff.mp hrun
  obtain rfl := Option.some.inj hout
  have hframe : Frame seed (· ≠ .rollbackPass) db placed :=
    (Frame.updateRuns (fun _ _ hg => by simp [hg.1.2.2.1])
      fun _ => ⟨⟨rfl, rfl, rfl, rfl⟩, .fail, by simp, rfl⟩).trans
      (.failureSuccessor (by simp) hsucc)
  have hnone : ∀ r ∈ placed.runs, r.fenceStamp ≠ some ⟨seed, .rollbackPass⟩ := fun r hr =>
    hframe.unstamped hfresh (by simp) hr
  have hbooked : t ∈ (timeoutTerminal passed seed swept).tasks :=
    mem_of_runsToTasks_ended _ (mem_of_finish_ended ht hl) (fun _ _ _ _ _ => trivial) hl
  obtain ⟨u, _, _, _, hfol, _, _, rfl⟩ | ⟨ht, _⟩ := runsToTasks_cases hbooked
  · exact Or.inr hfol.narrow.2.2.1
  · have hplaced := mem_of_sagaPass_ended hnone hpass ht hl
    rw [failureSuccessor_tasks hsucc] at hplaced
    exact Or.inl hplaced

/-! ## A batch that places no pass -/

/-- A call that may be repeated places no run. -/
theorem Call.Places.fresh (h : call.Places name) : ¬ call.Repeatable := by
  cases call with
  | failInto | sweepLostLaunch | sweepClaimTimeout => exact id
  | _ => cases h

/-- A failure that gives its task a reason places the rollback's pass. -/
theorem Call.Places.of_reason {reason : String} (h : call.failureReason = some reason) :
    call.Places .rollbackPass := by
  cases call with
  | failInto | sweepLostLaunch | sweepClaimTimeout => trivial
  | _ => cases h

/-- A batch that places no pass leaves a live task's counters as they are. -/
theorem Task.Moved.counters_kept (hm : Task.Moved seed now db call t t') (hl : t.state.Live)
    (hplaces : ¬ call.Places .rollbackPass) : t'.attempts = t.attempts ∧
      t'.infraRetries = t.infraRetries ∧ t'.maxAttempts = t.maxAttempts := by
  induction hm with
  | refl => exact ⟨rfl, rfl, rfl⟩
  | @tail u _ hmoved hturn ih =>
    have hmoved : Task.Moved seed now db call t u := hmoved
    obtain ⟨v, _, _, hmove, rfl⟩ := hturn
    cases hmove with
    | booked | started | followed | completed | cancelled => exact ih
    | rollingBack _ _ _ _ hplaced => exact absurd hplaced hplaces
    | retrying | infraRetried => exact absurd trivial hplaces
    | failed _ _ _ _ hends => exact absurd (Call.Places.of_reason hends) hplaces
    | revived hg =>
      -- Only an ended task is revived, and nothing else of a revival ends one.
      have hended : ¬ u.state.Live := by simp [hg.2.2.failed]
      obtain ⟨_, _, _, hmove, hv⟩ := hmoved.last hl hended
      exact absurd (hmove.ends hv) id

/-- A saga that is there after a batch that places no pass was there before. -/
theorem Delivers.began_unplaced (h : Delivers s b now) (hplaces : ¬ b.call.Places .rollbackPass)
    (hsaga : sagaBegan (b.after now s.db) taskId) : sagaBegan s.db taskId := by
  obtain ⟨c, hc, hid, hname⟩ := hsaga
  have hunwritten : ∀ f write, Checkpoint.Write b.seed now s.db (b.after now s.db) b.call f write →
      ¬ WrittenBy f write c := by
    intro f write hw hwritten
    have hkey : write.key = SAGA_PHASE_CHECKPOINT := hwritten.checkpointName.symm.trans hname
    have hadm := h.admitted
    generalize b.call = call at hw hadm hplaces
    cases hw with
    | suspended _ hg | leased _ hg => exact hg.2.2.2.2.2.2.2 (Or.inl hkey)
    | tried => exact hplaces trivial
    | entered _ _ hplaced => exact hplaces hplaced
  obtain ⟨c₀, hc₀, rfl | ⟨f, write, hw, hwritten, _⟩⟩ | ⟨f, write, hw, hwritten, _⟩ :=
    h.effect.checkpoints.before c hc
  · exact ⟨c, hc₀, hid, hname⟩
  · exact absurd hwritten (hunwritten f write hw)
  · exact absurd hwritten (hunwritten f write hw)

/-! ## A live task -/

section Live

variable (h : Delivers s b now) (ht : t ∈ s.db.tasks) (ht' : t' ∈ (b.after now s.db).tasks)
  (hid : t'.taskId = t.taskId)

include h ht ht' hid

/-- The moves a delivery made of the task. -/
theorem Delivers.moved : Task.Moved b.seed now s.db b.call t t' := by
  obtain ⟨u, hu, hm⟩ := h.effect.tasks.after t ht
  rwa [(b.after now s.db).task_unique ht' hu (hid.trans hm.same.taskId.symm)]

variable (hl : t.state.Live)

include hl

/-- A budget moves, and a saga begins, only with the pass the batch leaves. -/
theorem Delivers.kept_unless_passed (hno : ¬ PassLeft s.db (b.after now s.db) b t.taskId) :
    t'.maxAttempts = t.maxAttempts ∧
      (sagaBegan (b.after now s.db) t.taskId ↔ sagaBegan s.db t.taskId) := by
  by_cases hplaces : b.call.Places .rollbackPass
  · obtain hafter | ⟨out, hrun, hafter⟩ := b.after_cases now s.db
    · rw [hafter] at ht' ⊢
      exact ⟨congrArg Task.maxAttempts (s.db.task_unique ht' ht hid), Iff.rfl⟩
    · have hfresh := (h.course.unused _ (h.own.resolve_right hplaces.fresh)).runs
      have hb := Batch.budgets hfresh h.admitted hplaces hrun
      rw [← hafter] at hb
      obtain ⟨u, hu, hsame, hmax⟩ := hb.budgets t ht
      obtain rfl := (b.after now s.db).task_unique ht' hu (hid.trans hsame.taskId.symm)
      exact ⟨hmax.resolve_right hno, fun hsaga => (hb.sagas _ hsaga).resolve_right hno,
        h.effect.sagaBegan⟩
  · exact ⟨((h.moved ht ht' hid).counters_kept hl hplaces).2.2, h.began_unplaced hplaces,
      h.effect.sagaBegan⟩

/-- A counter moves only where the batch charges the task, or retries it. -/
theorem Delivers.kept_unless_charged :
    (t'.attempts = t.attempts ∨
      (b.call.Places .rollbackPass ∧ b.Charges s.db (b.after now s.db) t.taskId)) ∧
      (t'.infraRetries = t.infraRetries ∨ b.Retries s.db (b.after now s.db) t.taskId) := by
  by_cases hplaces : b.call.Places .rollbackPass
  · obtain hafter | ⟨out, hrun, hafter⟩ := b.after_cases now s.db
    · rw [hafter] at ht' ⊢
      have hsame := s.db.task_unique ht' ht hid
      exact ⟨Or.inl (congrArg Task.attempts hsame), Or.inl (congrArg Task.infraRetries hsame)⟩
    · have hfresh := (h.course.unused _ (h.own.resolve_right hplaces.fresh)).runs
      obtain ⟨u, hu, hkept⟩ := Batch.keeps hfresh hrun t ht
      rw [hafter] at ht' ⊢
      obtain rfl := out.db.task_unique ht' hu (hid.trans hkept.taskId.symm)
      exact ⟨hkept.attempts.imp_right fun hcharges => ⟨hplaces, hcharges⟩, hkept.infraRetries⟩
  · obtain ⟨hattempts, hinfra, _⟩ := (h.moved ht ht' hid).counters_kept hl hplaces
    exact ⟨Or.inl hattempts, Or.inl hinfra⟩

/-- A batch that places no run of the task moves none of its counters, but for a failure's charge. -/
theorem Delivers.kept_unless_placed
    (hno : ∀ p ∈ (b.after now s.db).runs, p.taskId = t.taskId →
      ∃ r ∈ s.db.runs, r.runId = p.runId) :
    t'.infraRetries = t.infraRetries ∧ t'.maxAttempts = t.maxAttempts ∧
      (sagaBegan (b.after now s.db) t.taskId ↔ sagaBegan s.db t.taskId) ∧
      (t'.attempts = t.attempts ∨ ∃ failure, b.call = .failInto failure) := by
  -- A retry, a pass and a charge of a sweep each come with a run that is new.
  have hunplaced : ∀ passId name, ¬ PlacedNew s.db (b.after now s.db) b.seed passId t.taskId name := by
    rintro _ name ⟨hnew, p, hp, rfl, hpid, _⟩
    obtain ⟨r, hr, hrid⟩ := hno p hp hpid
    exact hnew r hr hrid
  have hunpassed : ¬ PassLeft s.db (b.after now s.db) b t.taskId := by
    rintro ⟨p, hp, hpid, _, hnew, _⟩
    obtain ⟨r, hr, hrid⟩ := hno p hp hpid
    exact hnew r hr hrid
  obtain ⟨hmax, hsaga⟩ := h.kept_unless_passed ht ht' hid hl hunpassed
  obtain ⟨hattempts, hinfra⟩ := h.kept_unless_charged ht ht' hid hl
  have hunretried : ¬ b.Retries s.db (b.after now s.db) t.taskId := by
    unfold Batch.Retries
    split
    · exact hunplaced _ _
    · exact id
  refine ⟨hinfra.resolve_right hunretried, hmax, hsaga, hattempts.imp_right ?_⟩
  rintro ⟨hplaces, hcharges⟩
  unfold Batch.Charges at hcharges
  split at hcharges
  · exact ⟨_, ‹_›⟩
  · rename_i hcall
    rw [hcall] at hplaces
    cases hplaces
  · exact absurd hcharges (hunplaced _ _)
  · exact absurd hcharges (hunplaced _ _)
  · exact absurd hcharges id

end Live

end Durablerun
