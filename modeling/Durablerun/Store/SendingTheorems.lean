import Durablerun.Store.LosingBatch
import Durablerun.Store.Sending

/-!
# Skipping what cannot match

The statements of a batch, sent one after another, leave what the batch leaves. An executor that does
not send a statement whose gate wrote no row leaves the same, and counts the same rows, in every
reachable store the batch is new to. Where no compare-and-set of a batch writes a row it leaves any
store as it was, and so an exact replay that loses changes nothing, and its open read answers from the
store as it stands.

Reference: `packages/store-libsql/src/store.ts` and `packages/core/src/fenced-batch.ts`.
-/

namespace Durablerun

open Relational Gated

variable {seed queue : String} {now : ℤ} {db db' : Db} {call : Call} {name fence : Statement}

/-! ## The batch -/

/-- The state an insert leaves. -/
def insertedRun (db : Db) : Option Run → Option Db
  | none => some db
  | some r => (db.runs.insert? r).map fun runs => { db with runs }

/-- An insertion of a run leaves the run inserted, or stops at its conflict. -/
theorem leaves_insertRun {name' gate : Option Statement} {row : Db → Option Run}
    (l : List SentStatement) :
    leaves (insertRun name' gate row :: l) db = (insertedRun db (row db)).bind (leaves l) := by
  rw [leaves_cons]
  congr 1
  simp only [insertRun, insertRow]
  cases row db with
  | none => rfl
  | some r =>
    simp only [insertedRun, Option.map_map]
    rfl

/-- A successor's statement leaves the successor placed. -/
theorem leaves_successor {successorId runId : String} {delayMs : ℤ} {state : TaskState}
    (admission : Db → Run → Task → Prop) [∀ db f t, Decidable (admission db f t)]
    (l : List SentStatement) :
    leaves (successorStatement seed name fence successorId runId delayMs state admission :: l) db =
      (failureSuccessor db seed name fence successorId runId delayMs state (admission db)).bind
        (leaves l) := by
  unfold successorStatement failureSuccessor
  rw [leaves_insertRun]
  cases stampedRun db seed runId fence with
  | none => rfl
  | some f =>
    simp only [Option.bind_some]
    by_cases hadmits : (∃ t ∈ db.tasks, runOwnedByTask f t ∧ admission db f t) ∧
        ¬ successorOwned db successorId f.taskId (f.attempt + 1)
    · rw [if_pos hadmits, if_pos hadmits]
      rfl
    · rw [if_neg hadmits, if_neg hadmits]
      rfl

/-- The statements of a completion event leave it added. -/
theorem leaves_taskDone {taskId payloadJson : String} {terminal : Statement} :
    leaves (taskDoneStatements seed queue taskId terminal payloadJson) db =
      some (addTaskDone db seed queue taskId terminal payloadJson) := by
  have hevent : ((taskDoneStatement seed queue taskId terminal payloadJson).send db).map Prod.fst =
      some (taskDoneEvent db seed queue taskId terminal payloadJson) := by
    simp only [taskDoneStatement, insertEvent, insertRow, taskDoneEvent]
    cases db.tasks.rows.find? fun f =>
      f.taskId = taskId ∧ f.queue = queue ∧ f.fenceStamp = some ⟨seed, terminal⟩ with
    | none => rfl
    | some f =>
      simp only [Option.bind_some]
      by_cases hthere : ∃ e ∈ db.events, e.queue = f.queue ∧ e.eventName = taskDoneEventName taskId
      · rw [if_pos hthere, if_pos hthere]
        rfl
      · rw [if_neg hthere, if_neg hthere]
        rfl
  unfold taskDoneStatements
  rw [leaves_cons, hevent]
  rfl

/-- The statements of a rollback pass leave it placed. -/
theorem leaves_sagaPass {failedRunId passId : String} {enteringWith : Option String} {delayMs : ℤ}
    (admission : Db → Run → Task → Prop) [∀ db f t, Decidable (admission db f t)] :
    leaves (sagaPassStatements seed queue failedRunId passId fence enteringWith delayMs admission) db =
      sagaPass db seed queue failedRunId passId fence enteringWith delayMs (admission db) := by
  unfold sagaPassStatements sagaPass
  rw [leaves_successor]
  cases enteringWith <;> rfl

/-- The statements of a capped launch's pass leave it placed. -/
theorem leaves_capSagaPass {swept : Swept} {reason : String} :
    leaves (capSagaPassStatements seed swept fence reason) db =
      capSagaPass db seed swept fence reason :=
  leaves_sagaPass capAdmission

/-- The statements of a failure's pass leave it placed. -/
theorem leaves_failSagaPass {failure : Failure} :
    leaves (failSagaPassStatements seed failure) db = failSagaPass db seed failure := by
  unfold failSagaPassStatements failSagaPass
  cases failure.rollback with
  | none => exact leaves_sagaPass (fun db => enterAdmission db failure)
  | some rollback =>
    cases hdelay : rollback.passDelayMs with
    | none => simp only [hdelay, leaves_nil]
    | some delay =>
      simp only [hdelay]
      exact leaves_sagaPass (fun _ => retryPassAdmission delay)

/-- The statements of a user retry leave its successor placed. -/
theorem leaves_userRetry {failure : Failure} :
    leaves (userRetryStatements seed failure) db = userRetry db seed failure := by
  unfold userRetryStatements userRetry
  cases failure.retryDelayMs with
  | none => rfl
  | some delay =>
    simp only
    rw [leaves_successor (fun _ => retryAdmission), Option.map_eq_bind]
    rfl

/-- The statement of a failed rollback's record, where there is one, leaves it written. -/
theorem leaves_rollbackTries {failure : Failure} (l : List SentStatement) :
    leaves ((failure.rollback.map fun rollback =>
      checkpointStatement seed failure.claim.runId rollback.tried .fail).toList ++ l) db =
        leaves l (rollbackTries db seed failure) := by
  unfold rollbackTries
  cases failure.rollback with
  | none => rfl
  | some rollback => exact leaves_of_send _ rfl

/-- The statements of a spawn leave what a spawn leaves. -/
theorem leaves_spawn {call : SpawnCall} :
    leaves (Call.statements seed now (.spawn call)) db =
      (spawn seed call now db).map Outcome.db := by
  have htask : ((insertTask (some Statement.task) none fun db =>
      if spawnGuard db now call then some (call.task seed now) else none).send db).map Prod.fst =
        some (spawnTaskCas db seed call now) := by
    unfold spawnTaskCas
    simp only [insertTask, insertRow]
    by_cases hguard : spawnGuard db now call
    · rw [if_pos hguard, if_pos hguard]
      rfl
    · rw [if_neg hguard, if_neg hguard]
      rfl
  unfold Call.statements spawn spawnRun
  rw [leaves_cons, htask, Option.bind_some, leaves_insertRun]
  cases (spawnTaskCas db seed call now).tasks.rows.find? fun f =>
      f.taskId = call.taskId ∧ f.fenceStamp = some ⟨seed, .task⟩ with
  | none => rfl
  | some f =>
    by_cases hfree : epochBounds.Within f.enqueueAtMs ∧
        ¬ ∃ r ∈ (spawnTaskCas db seed call now).runs, r.taskId = f.taskId
    · simp only [Option.bind_some, if_pos hfree, insertedRun]
      cases (spawnTaskCas db seed call now).runs.insert? (firstRun seed call.runId f) <;> rfl
    · simp only [Option.bind_some, if_neg hfree, insertedRun]
      rfl

/-- The statements of a retry leave what a retry leaves. -/
theorem leaves_retryTask {call : RetryCall} :
    leaves (Call.statements seed now (.retryTask call)) db =
      (retryTask seed call now db).map Outcome.db := by
  unfold Call.statements retryTask revivalRunInsert
  rw [leaves_of_send (reviveCas db seed call now) rfl, leaves_insertRun]
  cases (reviveCas db seed call now).tasks.rows.find? fun f =>
      f.taskId = call.taskId ∧ f.fenceStamp = some ⟨seed, .revive⟩ with
  | none => rfl
  | some f =>
    cases hparent : (reviveCas db seed call now).runs.rows.find? fun p =>
        revivalParent (reviveCas db seed call now) f p with
    | none =>
      simp only [Option.bind_some, hparent, Option.map_none, insertedRun]
      rfl
    | some p =>
      simp only [Option.bind_some, hparent, Option.map_some, insertedRun]
      cases (reviveCas db seed call now).runs.insert? (revivalRun seed call.runId f p) <;> rfl

/-- The statements of an await leave what an await leaves. -/
theorem leaves_awaitEvent {call : AwaitCall} :
    leaves (Call.statements seed now (.awaitEvent call)) db =
      some (awaitEvent seed call now db).db := by
  have hwait : ((insertWait (some Statement.register) none fun db =>
      if registerGuard db now call then some (call.wait seed now) else none).send db).map Prod.fst =
        some (registerWaitCas db seed call now) := by
    unfold registerWaitCas
    simp only [insertWait, insertRow]
    by_cases hguard : registerGuard db now call
    · rw [if_pos hguard, if_pos hguard]
      rfl
    · rw [if_neg hguard, if_neg hguard]
      rfl
  unfold Call.statements awaitEvent
  rw [leaves_cons, hwait]
  rfl

/-- The statements of a recorded completion leave what it leaves. -/
theorem leaves_recordTaskDone {call : RecordTaskDoneCall} :
    leaves (Call.statements seed now (.recordTaskDone call)) db =
      some (recordTaskDone seed call now db).db := by
  unfold Call.statements recordTaskDone
  rw [leaves_cons]
  simp only [insertEvent, insertRow]
  cases db.tasks.rows.find? fun c => materializeGuard db call c <;> rfl

/-- The statements of a failure leave what a failure leaves. -/
theorem leaves_failInto {failure : Failure} :
    leaves (Call.statements seed now (.failInto failure)) db =
      (failInto seed failure now db).map Outcome.db := by
  unfold Call.statements failInto
  rw [leaves_of_send (failCas db seed failure now) rfl, leaves_rollbackTries, leaves_append,
    leaves_failSagaPass]
  cases failSagaPass (rollbackTries (failCas db seed failure now) seed failure) seed failure with
  | none => rfl
  | some passed =>
    simp only [Option.bind_some, leaves_append, leaves_userRetry, Option.bind_eq_bind]
    cases userRetry passed seed failure with
    | none => rfl
    | some retried =>
      exact (leaves_of_send _ rfl).trans ((leaves_of_send _ rfl).trans leaves_taskDone)

/-- The statements of a lost launch's sweep leave what the sweep leaves. -/
theorem leaves_sweepLostLaunch {swept : Swept} :
    leaves (Call.statements seed now (.sweepLostLaunch swept)) db =
      (sweepLostLaunch seed swept now db).map Outcome.db := by
  unfold Call.statements sweepLostLaunch
  rw [leaves_of_send (reopenLostLaunchCas db seed swept now) rfl,
    leaves_of_send (capLostLaunchCas (reopenLostLaunchCas db seed swept now) seed swept now) rfl,
    leaves_append, leaves_capSagaPass]
  simp only [Option.bind_eq_bind]
  cases capSagaPass (capLostLaunchCas (reopenLostLaunchCas db seed swept now) seed swept now) seed
      swept .cap REASON_RELAUNCH_CAP with
  | none => rfl
  | some passed =>
    exact (leaves_of_send _ rfl).trans ((leaves_of_send _ rfl).trans
      ((leaves_of_send _ rfl).trans leaves_taskDone))

/-- The statements of a timeout's sweep leave what the sweep leaves. -/
theorem leaves_sweepClaimTimeout {swept : Swept} :
    leaves (Call.statements seed now (.sweepClaimTimeout swept)) db =
      (sweepClaimTimeout seed swept now db).map Outcome.db := by
  unfold Call.statements sweepClaimTimeout claimTimeoutSuccessor
  rw [leaves_of_send (failClaimTimeoutCas db seed swept now) rfl,
    leaves_successor (fun _ => infraAdmission)]
  simp only [Option.bind_eq_bind]
  cases failureSuccessor (failClaimTimeoutCas db seed swept now) seed .successor .fail swept.passId
      swept.runId (INFRA_BACKOFF_SECONDS * 1000) .pending infraAdmission with
  | none => rfl
  | some placed =>
    simp only [Option.bind_some, leaves_append, leaves_capSagaPass]
    cases capSagaPass placed seed swept .fail REASON_INFRA_CAP with
    | none => rfl
    | some passed =>
      exact (leaves_of_send _ rfl).trans ((leaves_of_send _ rfl).trans
        ((leaves_of_send _ rfl).trans leaves_taskDone))

/-- The statements of a batch leave what the batch leaves. -/
theorem leaves_statements (call : Call) (db : Db) :
    leaves (call.statements seed now) db =
      ((⟨seed, call⟩ : Batch).run now db).map Outcome.db := by
  cases call with
  | claim | activate | heartbeat | deferLaunch | reschedule | suspendRun | setCheckpoint
  | expireLeaseNow | emitEvent => rfl
  | complete | cancelTransition =>
    -- Three updates, and the recording of the end.
    exact (leaves_of_send _ rfl).trans ((leaves_of_send _ rfl).trans
      ((leaves_of_send _ rfl).trans leaves_taskDone))
  | spawn call => exact leaves_spawn
  | awaitEvent call => exact leaves_awaitEvent
  | recordTaskDone call => exact leaves_recordTaskDone
  | failInto failure => exact leaves_failInto
  | sweepLostLaunch swept => exact leaves_sweepLostLaunch
  | sweepClaimTimeout swept => exact leaves_sweepClaimTimeout
  | retryTask call => exact leaves_retryTask

/-! ## What a statement of a batch does -/

/-- Some row carries the stamp. -/
def Db.Bears (db : Db) (stamp : Stamp) : Prop :=
  (∃ r ∈ db.runs, r.fenceStamp = some stamp) ∨ (∃ t ∈ db.tasks, t.fenceStamp = some stamp) ∨
    (∃ w ∈ db.waits, w.fenceStamp = some stamp) ∨ ∃ e ∈ db.events, e.fenceStamp = some stamp

/-- A statement of the seed finds nothing where no row carries its gate's stamp, leaves no stamp but
its own, and changes nothing where it counts no row. -/
structure Fair (seed : String) (sent : SentStatement) : Prop where
  idle : ∀ fence ∈ sent.gate, ∀ db, ¬ Db.Bears db ⟨seed, fence⟩ → sent.send db = some (db, 0)
  signs : ∀ db db' wrote, sent.send db = some (db', wrote) → ∀ stamp, Db.Bears db' stamp →
    Db.Bears db stamp ∨ ∃ name ∈ sent.name, stamp = ⟨seed, name⟩
  unwritten : ∀ db db', sent.send db = some (db', 0) → db' = db

/-- A fair statement is sound for the stamps of its seed. -/
theorem Fair.sound {sent : SentStatement} (h : Fair seed sent) :
    sent.Sound fun name db => ¬ Db.Bears db ⟨seed, name⟩ where
  idle := h.idle
  keeps db db' wrote hsend name hother hnot hbears := by
    obtain hbears | ⟨name', hname, heq⟩ := h.signs db db' wrote hsend _ hbears
    · exact hnot hbears
    · obtain rfl := (Stamp.mk.inj heq).2
      exact hother hname
  unwritten := h.unwritten

section Forms

variable {name gate : Option Statement}

/-- An update of runs is fair where its gate guards it and it stamps what it writes. -/
theorem fair_updateRuns {p : Db → Run → Prop} [∀ db, DecidablePred (p db)]
    {f : Db → Table.Change Run.keys}
    (hidle : ∀ fence ∈ gate, ∀ db, ¬ Db.Bears db ⟨seed, fence⟩ → ∀ r ∈ db.runs, ¬ p db r)
    (hsigns : ∀ db r, (f db r).fenceStamp = r.fenceStamp ∨
      ∃ own ∈ name, (f db r).fenceStamp = some ⟨seed, own⟩) :
    Fair seed (updateRuns name gate p f) where
  idle fence hfence db hnot := by
    have hno := hidle fence hfence db hnot
    simp only [updateRuns, Table.update_of_forall_not hno, Table.count_eq_zero hno]
  signs db db' wrote hsend stamp hbears := by
    obtain ⟨rfl, -⟩ := Prod.mk.inj (Option.some.inj hsend)
    -- Only a row of `runs` that the update took can carry a stamp it did not.
    obtain ⟨r', hr', hstamp⟩ | hrest := hbears
    · obtain ⟨r, hr, -, rfl⟩ | ⟨hr, -⟩ := Table.update_cases hr'
      · obtain hkept | ⟨own, hown, hnew⟩ := hsigns db r
        · exact Or.inl (Or.inl ⟨r, hr, hkept ▸ hstamp⟩)
        · exact Or.inr ⟨own, hown, Option.some.inj (hstamp.symm.trans hnew)⟩
      · exact Or.inl (Or.inl ⟨r', hr, hstamp⟩)
    · exact Or.inl (Or.inr hrest)
  unwritten db db' hsend := by
    obtain ⟨rfl, hcount⟩ := Prod.mk.inj (Option.some.inj hsend)
    rw [Table.update_of_forall_not fun r hr => Table.not_of_count_eq_zero hcount hr]

/-- An update of tasks is fair where its gate guards it and it stamps what it writes. -/
theorem fair_updateTasks {p : Db → Task → Prop} [∀ db, DecidablePred (p db)]
    {f : Db → Table.Change Task.keys}
    (hidle : ∀ fence ∈ gate, ∀ db, ¬ Db.Bears db ⟨seed, fence⟩ → ∀ t ∈ db.tasks, ¬ p db t)
    (hsigns : ∀ db t, ∃ own ∈ name, (f db t).fenceStamp = some ⟨seed, own⟩) :
    Fair seed (updateTasks name gate p f) where
  idle fence hfence db hnot := by
    have hno := hidle fence hfence db hnot
    simp only [updateTasks, Table.update_of_forall_not hno, Table.count_eq_zero hno]
  signs db db' wrote hsend stamp hbears := by
    obtain ⟨rfl, -⟩ := Prod.mk.inj (Option.some.inj hsend)
    obtain hruns | ⟨t', ht', hstamp⟩ | hrest := hbears
    · exact Or.inl (Or.inl hruns)
    · obtain ⟨t, ht, -, rfl⟩ | ⟨ht, -⟩ := Table.update_cases ht'
      · obtain ⟨own, hown, hnew⟩ := hsigns db t
        exact Or.inr ⟨own, hown, Option.some.inj (hstamp.symm.trans hnew)⟩
      · exact Or.inl (Or.inr (Or.inl ⟨t', ht, hstamp⟩))
    · exact Or.inl (Or.inr (Or.inr hrest))
  unwritten db db' hsend := by
    obtain ⟨rfl, hcount⟩ := Prod.mk.inj (Option.some.inj hsend)
    rw [Table.update_of_forall_not fun t ht => Table.not_of_count_eq_zero hcount ht]

/-- A deletion of waits is fair where its gate guards it. -/
theorem fair_deleteWaits {p : Db → Wait → Prop} [∀ db, DecidablePred (p db)]
    (hidle : ∀ fence ∈ gate, ∀ db, ¬ Db.Bears db ⟨seed, fence⟩ → ∀ w ∈ db.waits, ¬ p db w) :
    Fair seed (deleteWaits name gate p) where
  idle fence hfence db hnot := by
    have hno := hidle fence hfence db hnot
    simp only [deleteWaits, Table.delete_of_forall_not hno, Table.count_eq_zero hno]
  signs db db' wrote hsend stamp hbears := by
    obtain ⟨rfl, -⟩ := Prod.mk.inj (Option.some.inj hsend)
    obtain hruns | htasks | ⟨w, hw, hstamp⟩ | hevents := hbears
    · exact Or.inl (Or.inl hruns)
    · exact Or.inl (Or.inr (Or.inl htasks))
    · exact Or.inl (Or.inr (Or.inr (Or.inl ⟨w, (Table.mem_delete.mp hw).1, hstamp⟩)))
    · exact Or.inl (Or.inr (Or.inr (Or.inr hevents)))
  unwritten db db' hsend := by
    obtain ⟨rfl, hcount⟩ := Prod.mk.inj (Option.some.inj hsend)
    rw [Table.delete_of_forall_not fun w hw => Table.not_of_count_eq_zero hcount hw]

/-- An insert of the row a statement makes, if it makes one. -/
theorem fair_row {α : Type} {row : Db → Option α} {write : Db → α → Option (Db × ℕ)}
    (hidle : ∀ fence ∈ gate, ∀ db, ¬ Db.Bears db ⟨seed, fence⟩ → row db = none)
    (hsigns : ∀ db, ∀ a ∈ row db, ∀ db' wrote, write db a = some (db', wrote) → ∀ stamp,
      Db.Bears db' stamp → Db.Bears db stamp ∨ ∃ own ∈ name, stamp = ⟨seed, own⟩)
    (hunwritten : ∀ db, ∀ a ∈ row db, ∀ db', write db a = some (db', 0) → db' = db) :
    Fair seed (insertRow name gate row write) where
  idle fence hfence db hnot := by
    simp only [insertRow, hidle fence hfence db hnot]
  signs db db' wrote hsend stamp hbears := by
    cases hrow : row db with
    | none =>
      simp only [insertRow, hrow] at hsend
      obtain ⟨rfl, -⟩ := Prod.mk.inj (Option.some.inj hsend)
      exact Or.inl hbears
    | some a =>
      simp only [insertRow, hrow] at hsend
      exact hsigns db a hrow db' wrote hsend stamp hbears
  unwritten db db' hsend := by
    cases hrow : row db with
    | none =>
      simp only [insertRow, hrow] at hsend
      exact (Prod.mk.inj (Option.some.inj hsend)).1.symm
    | some a =>
      simp only [insertRow, hrow] at hsend
      exact hunwritten db a hrow db' hsend

/-- An insertion of a run is fair where its gate guards it and the run bears its stamp. -/
theorem fair_insertRun {row : Db → Option Run}
    (hidle : ∀ fence ∈ gate, ∀ db, ¬ Db.Bears db ⟨seed, fence⟩ → row db = none)
    (hsigns : ∀ db, ∀ r ∈ row db, ∃ own ∈ name, r.fenceStamp = some ⟨seed, own⟩) :
    Fair seed (insertRun name gate row) := by
  refine fair_row hidle (fun db r hrow db' wrote hsend stamp hbears => ?_)
    fun db r _ db' hsend => ?_
  · obtain ⟨runs, hruns, hout⟩ := Option.map_eq_some_iff.mp hsend
    obtain ⟨rfl, -⟩ := Prod.mk.inj hout
    obtain ⟨r', hr', hstamp⟩ | hrest := hbears
    · obtain hold | rfl := ((Table.insert?_eq_some hruns).2 r').mp hr'
      · exact Or.inl (Or.inl ⟨r', hold, hstamp⟩)
      · obtain ⟨own, hown, hnew⟩ := hsigns db r' hrow
        exact Or.inr ⟨own, hown, Option.some.inj (hstamp.symm.trans hnew)⟩
    · exact Or.inl (Or.inr hrest)
  · obtain ⟨runs, -, hout⟩ := Option.map_eq_some_iff.mp hsend
    exact absurd (Prod.mk.inj hout).2 Nat.one_ne_zero

/-- What counts no row found its key taken. -/
theorem not_of_ite_eq_zero {p : Prop} [Decidable p] (h : (if p then 1 else 0) = 0) : ¬ p := by
  intro hp
  rw [if_pos hp] at h
  exact Nat.one_ne_zero h

/-- An insertion of a task is fair where its gate guards it and the task bears its stamp. -/
theorem fair_insertTask {row : Db → Option Task}
    (hidle : ∀ fence ∈ gate, ∀ db, ¬ Db.Bears db ⟨seed, fence⟩ → row db = none)
    (hsigns : ∀ db, ∀ t ∈ row db, ∃ own ∈ name, t.fenceStamp = some ⟨seed, own⟩) :
    Fair seed (insertTask name gate row) := by
  refine fair_row hidle (fun db t hrow db' wrote hsend stamp hbears => ?_)
    fun db t _ db' hsend => ?_
  · obtain ⟨rfl, -⟩ := Prod.mk.inj (Option.some.inj hsend)
    obtain hruns | ⟨t', ht', hstamp⟩ | hrest := hbears
    · exact Or.inl (Or.inl hruns)
    · obtain hold | ⟨-, rfl⟩ := Table.mem_insertIgnore.mp ht'
      · exact Or.inl (Or.inr (Or.inl ⟨t', hold, hstamp⟩))
      · obtain ⟨own, hown, hnew⟩ := hsigns db t' hrow
        exact Or.inr ⟨own, hown, Option.some.inj (hstamp.symm.trans hnew)⟩
    · exact Or.inl (Or.inr (Or.inr hrest))
  · obtain ⟨rfl, hcount⟩ := Prod.mk.inj (Option.some.inj hsend)
    rw [Table.insertIgnore_of_not_free (not_of_ite_eq_zero hcount)]

/-- An insertion of a wait is fair where its gate guards it and the wait bears its stamp. -/
theorem fair_insertWait {row : Db → Option Wait}
    (hidle : ∀ fence ∈ gate, ∀ db, ¬ Db.Bears db ⟨seed, fence⟩ → row db = none)
    (hsigns : ∀ db, ∀ w ∈ row db, ∃ own ∈ name, w.fenceStamp = some ⟨seed, own⟩) :
    Fair seed (insertWait name gate row) := by
  refine fair_row hidle (fun db w hrow db' wrote hsend stamp hbears => ?_)
    fun db w _ db' hsend => ?_
  · obtain ⟨rfl, -⟩ := Prod.mk.inj (Option.some.inj hsend)
    obtain hruns | htasks | ⟨w', hw', hstamp⟩ | hevents := hbears
    · exact Or.inl (Or.inl hruns)
    · exact Or.inl (Or.inr (Or.inl htasks))
    · obtain hold | ⟨-, rfl⟩ := Table.mem_insertIgnore.mp hw'
      · exact Or.inl (Or.inr (Or.inr (Or.inl ⟨w', hold, hstamp⟩)))
      · obtain ⟨own, hown, hnew⟩ := hsigns db w' hrow
        exact Or.inr ⟨own, hown, Option.some.inj (hstamp.symm.trans hnew)⟩
    · exact Or.inl (Or.inr (Or.inr (Or.inr hevents)))
  · obtain ⟨rfl, hcount⟩ := Prod.mk.inj (Option.some.inj hsend)
    rw [Table.insertIgnore_of_not_free (not_of_ite_eq_zero hcount)]

/-- An insertion of an event is fair where its gate guards it and the event bears its stamp. -/
theorem fair_insertEvent {row : Db → Option Event}
    (hidle : ∀ fence ∈ gate, ∀ db, ¬ Db.Bears db ⟨seed, fence⟩ → row db = none)
    (hsigns : ∀ db, ∀ e ∈ row db, ∃ own ∈ name, e.fenceStamp = some ⟨seed, own⟩) :
    Fair seed (insertEvent name gate row) := by
  refine fair_row hidle (fun db e hrow db' wrote hsend stamp hbears => ?_)
    fun db e _ db' hsend => ?_
  · obtain ⟨rfl, -⟩ := Prod.mk.inj (Option.some.inj hsend)
    obtain hruns | htasks | hwaits | ⟨e', he', hstamp⟩ := hbears
    · exact Or.inl (Or.inl hruns)
    · exact Or.inl (Or.inr (Or.inl htasks))
    · exact Or.inl (Or.inr (Or.inr (Or.inl hwaits)))
    · obtain hold | ⟨-, rfl⟩ := Table.mem_insertIgnore.mp he'
      · exact Or.inl (Or.inr (Or.inr (Or.inr ⟨e', hold, hstamp⟩)))
      · obtain ⟨own, hown, hnew⟩ := hsigns db e' hrow
        exact Or.inr ⟨own, hown, Option.some.inj (hstamp.symm.trans hnew)⟩
  · obtain ⟨rfl, hcount⟩ := Prod.mk.inj (Option.some.inj hsend)
    rw [Table.insertIgnore_of_not_free (not_of_ite_eq_zero hcount)]

/-- An event written over is fair where it bears the statement's stamp either way. -/
theorem fair_upsertEvent {row : Event} {own : Statement} {p : Event → Prop} [DecidablePred p]
    {f : Table.Change Event.keys} (hrow : row.fenceStamp = some ⟨seed, own⟩)
    (hset : ∀ e, (f e).fenceStamp = some ⟨seed, own⟩) :
    Fair seed (upsertEvent (some own) none row p f) where
  idle fence hfence := absurd hfence (Option.not_mem_none fence)
  signs db db' wrote hsend stamp hbears := by
    obtain ⟨rfl, -⟩ := Prod.mk.inj (Option.some.inj hsend)
    have hown : ∀ {e' : Event}, e'.fenceStamp = some stamp → e'.fenceStamp = some ⟨seed, own⟩ →
        ∃ name ∈ some own, stamp = ⟨seed, name⟩ := by
      intro e' hstamp hnew
      exact ⟨own, rfl, Option.some.inj (hstamp.symm.trans hnew)⟩
    obtain hruns | htasks | hwaits | ⟨e', he', hstamp⟩ := hbears
    · exact Or.inl (Or.inl hruns)
    · exact Or.inl (Or.inr (Or.inl htasks))
    · exact Or.inl (Or.inr (Or.inr (Or.inl hwaits)))
    · obtain ⟨-, hold | rfl⟩ | ⟨-, hchanged⟩ := Table.mem_upsert.mp he'
      · exact Or.inl (Or.inr (Or.inr (Or.inr ⟨e', hold, hstamp⟩)))
      · exact Or.inr (hown hstamp hrow)
      · obtain ⟨e, -, -, rfl⟩ | ⟨hold, -⟩ := Table.update_cases hchanged
        · exact Or.inr (hown hstamp (hset e))
        · exact Or.inl (Or.inr (Or.inr (Or.inr ⟨e', hold, hstamp⟩)))
  unwritten db db' hsend := by
    obtain ⟨rfl, hcount⟩ := Prod.mk.inj (Option.some.inj hsend)
    by_cases hfree : db.events.Free row
    · rw [if_pos hfree] at hcount
      exact absurd hcount Nat.one_ne_zero
    · rw [if_neg hfree] at hcount
      rw [Table.upsert, dif_neg hfree,
        Table.update_of_forall_not fun e he => Table.not_of_count_eq_zero hcount he]

end Forms

/-! ## Follow-ons -/

section FollowOns

variable {name fence : Statement}

/-- A follow-on that carries runs to tasks is fair. -/
theorem fair_tasksOfRuns {where' : Run → Prop} [DecidablePred where'] {narrow : Db → Task → Prop}
    [∀ db, DecidablePred (narrow db)] {set : Db → Table.Change Task.keys} :
    Fair seed (tasksOfRuns seed queue name fence where' narrow set) := by
  refine fair_updateTasks ?_ fun db t => ⟨name, rfl, rfl⟩
  rintro _ ⟨⟩ db hnot t - ⟨⟨f, hf, ⟨-, -, hstamp⟩, -⟩, -⟩
  exact hnot (Or.inl ⟨f, hf, hstamp⟩)

/-- A follow-on that deletes the waits of runs is fair. -/
theorem fair_waitsOfRuns {where' : Run → Prop} [DecidablePred where'] {narrow : Db → Wait → Prop}
    [∀ db, DecidablePred (narrow db)] : Fair seed (waitsOfRuns seed fence where' narrow) := by
  refine fair_deleteWaits ?_
  rintro _ ⟨⟩ db hnot w - ⟨⟨f, hf, ⟨-, hstamp⟩, -⟩, -⟩
  exact hnot (Or.inl ⟨f, hf, hstamp⟩)

/-- A follow-on that carries tasks to runs is fair. -/
theorem fair_runsOfTasks {where' : Task → Prop} [DecidablePred where'] {narrow : Db → Run → Prop}
    [∀ db, DecidablePred (narrow db)] {set : Table.Change Run.keys} :
    Fair seed (runsOfTasks seed queue name fence where' narrow set) := by
  refine fair_updateRuns ?_ fun db r => Or.inr ⟨name, rfl, rfl⟩
  rintro _ ⟨⟩ db hnot r - ⟨⟨f, hf, ⟨-, -, hstamp⟩, -⟩, -⟩
  exact hnot (Or.inr (Or.inl ⟨f, hf, hstamp⟩))

/-- A follow-on that carries waits to runs is fair. -/
theorem fair_runsOfWaits {where' : Wait → Prop} [DecidablePred where'] {narrow : Db → Run → Prop}
    [∀ db, DecidablePred (narrow db)] {set : Db → Table.Change Run.keys} :
    Fair seed (runsOfWaits seed queue name fence where' narrow set) := by
  refine fair_updateRuns ?_ fun db r => Or.inr ⟨name, rfl, rfl⟩
  rintro _ ⟨⟩ db hnot r - ⟨⟨f, hf, ⟨-, -, hstamp⟩, -⟩, -⟩
  exact hnot (Or.inr (Or.inr (Or.inl ⟨f, hf, hstamp⟩)))

/-- A statement that seals runs is fair. -/
theorem fair_sealOfRuns {where' : Run → Prop} [DecidablePred where'] :
    Fair seed (sealOfRuns seed name fence where') := by
  refine fair_updateRuns ?_ fun db r => Or.inr ⟨name, rfl, rfl⟩
  rintro _ ⟨⟩ db hnot r - ⟨f, hf, ⟨-, hstamp⟩, -⟩
  exact hnot (Or.inl ⟨f, hf, hstamp⟩)

/-- No run bears a stamp that no row does. -/
theorem stampedRun_of_not_bears {runId : String} (h : ¬ Db.Bears db ⟨seed, fence⟩) :
    stampedRun db seed runId fence = none :=
  stampedRun_eq_none.mpr fun f hf _ hstamp => h (Or.inl ⟨f, hf, hstamp⟩)

/-- A checkpoint's statement is fair. -/
theorem fair_checkpoint {runId : String} {write : CheckpointWrite} :
    Fair seed (checkpointStatement seed runId write fence) where
  idle := by
    rintro _ ⟨⟩ db hnot
    simp only [checkpointStatement, checkpointWrite, stampedRun_of_not_bears hnot]
  signs db db' wrote hsend stamp hbears := by
    obtain ⟨rfl, -⟩ := Prod.mk.inj (Option.some.inj hsend)
    refine Or.inl ?_
    unfold checkpointWrite at hbears
    split at hbears
    · exact hbears
    · split at hbears <;> exact hbears
  unwritten db db' hsend := by
    obtain ⟨rfl, hcount⟩ := Prod.mk.inj (Option.some.inj hsend)
    unfold checkpointWrite
    cases hf : stampedRun db seed runId fence with
    | none => rfl
    | some f =>
      simp only [hf] at hcount ⊢
      by_cases hwithin : attemptBounds.Within f.attempt
      · rw [if_pos hwithin] at hcount
        rw [if_pos hwithin]
        by_cases hfree : db.checkpoints.Free (checkpointRow f write)
        · rw [if_pos hfree] at hcount
          exact absurd hcount Nat.one_ne_zero
        · rw [if_neg hfree] at hcount
          rw [Table.upsert, dif_neg hfree,
            Table.update_of_forall_not fun c hc => Table.not_of_count_eq_zero hcount hc]
      · rw [if_neg hwithin]

/-- A successor's statement is fair. -/
theorem fair_successor {successorId runId : String} {delayMs : ℤ} {state : TaskState}
    {admission : Db → Run → Task → Prop} [∀ db f t, Decidable (admission db f t)] :
    Fair seed (successorStatement seed name fence successorId runId delayMs state admission) := by
  refine fair_insertRun ?_ fun db r hrow => ?_
  · rintro _ ⟨⟩ db hnot
    rw [stampedRun_of_not_bears hnot, Option.bind_none]
  · obtain ⟨f, -, hr⟩ := Option.bind_eq_some_iff.mp hrow
    obtain rfl := Option.some.inj (Option.ite_none_right_eq_some.mp hr).2
    exact ⟨name, rfl, rfl⟩

/-- No stamped task is found where no row carries the stamp. -/
theorem stampedTask_of_not_bears {stamp : Stamp} {p : Task → Bool} (hnot : ¬ Db.Bears db stamp)
    (hp : ∀ t, p t = true → t.fenceStamp = some stamp) : db.tasks.rows.find? p = none := by
  rw [List.find?_eq_none]
  exact fun t ht hfound => hnot (Or.inr (Or.inl ⟨t, ht, hp t hfound⟩))

/-- A completion event's statement is fair. -/
theorem fair_taskDone {taskId payloadJson : String} {terminal : Statement} :
    Fair seed (taskDoneStatement seed queue taskId terminal payloadJson) := by
  refine fair_insertEvent ?_ fun db e hrow => ?_
  · rintro _ ⟨⟩ db hnot
    have hnone : (db.tasks.rows.find? fun f => f.taskId = taskId ∧ f.queue = queue ∧
        f.fenceStamp = some ⟨seed, terminal⟩) = none :=
      stampedTask_of_not_bears hnot fun t hp => (of_decide_eq_true hp).2.2
    rw [hnone, Option.bind_none]
  · obtain ⟨f, -, he⟩ := Option.bind_eq_some_iff.mp hrow
    obtain rfl := Option.some.inj (Option.ite_none_left_eq_some.mp he).2
    exact ⟨.event, rfl, rfl⟩

/-- The statements that wake the waiters are fair. -/
theorem fair_wakeWaiters {eventName : String} :
    ∀ sent ∈ wakeWaitersStatements seed queue eventName, Fair seed sent := by
  refine List.forall_mem_cons.mpr ⟨fair_updateRuns ?_ fun db r => Or.inr ⟨.wakeRuns, rfl, rfl⟩, ?_⟩
  · rintro _ ⟨⟩ db hnot r - hguard
    refine hguard.2.2.2.2.1 ?_
    rw [recordedEvent, List.find?_eq_none]
    exact fun e he hp => hnot (Or.inr (Or.inr (Or.inr ⟨e, he, (of_decide_eq_true hp).2.2⟩)))
  · exact List.forall_mem_cons.mpr ⟨fair_tasksOfRuns, List.forall_mem_cons.mpr ⟨fair_waitsOfRuns,
      List.forall_mem_singleton.mpr fair_sealOfRuns⟩⟩

/-- The statements of a completion event are fair. -/
theorem fair_taskDoneStatements {taskId payloadJson : String} {terminal : Statement} :
    ∀ sent ∈ taskDoneStatements seed queue taskId terminal payloadJson, Fair seed sent :=
  List.forall_mem_cons.mpr ⟨fair_taskDone, fair_wakeWaiters⟩

/-- The statements that end a suspension are fair. -/
theorem fair_finishSuspension {runId : String} :
    ∀ sent ∈ finishSuspensionStatements seed queue runId, Fair seed sent :=
  List.forall_mem_cons.mpr ⟨fair_tasksOfRuns, List.forall_mem_singleton.mpr fair_waitsOfRuns⟩

/-- The statements of a rollback pass are fair. -/
theorem fair_sagaPass {failedRunId passId : String} {enteringWith : Option String} {delayMs : ℤ}
    {admission : Db → Run → Task → Prop} [∀ db f t, Decidable (admission db f t)] :
    ∀ sent ∈ sagaPassStatements seed queue failedRunId passId fence enteringWith delayMs admission,
      Fair seed sent := by
  refine List.forall_mem_cons.mpr ⟨fair_successor, List.forall_mem_append.mpr ⟨?_, ?_⟩⟩
  · cases enteringWith with
    | none => exact fun _ hmem => absurd hmem List.not_mem_nil
    | some reason => exact List.forall_mem_singleton.mpr fair_checkpoint
  · exact List.forall_mem_singleton.mpr fair_tasksOfRuns

/-- The statements of a failure's pass are fair. -/
theorem fair_failSagaPass {failure : Failure} :
    ∀ sent ∈ failSagaPassStatements seed failure, Fair seed sent := by
  unfold failSagaPassStatements
  split
  · exact fair_sagaPass
  · split
    · exact fun _ hmem => absurd hmem List.not_mem_nil
    · exact fair_sagaPass

/-- The statements of a user retry are fair. -/
theorem fair_userRetry {failure : Failure} :
    ∀ sent ∈ userRetryStatements seed failure, Fair seed sent := by
  unfold userRetryStatements
  split
  · exact fun _ hmem => absurd hmem List.not_mem_nil
  · exact List.forall_mem_cons.mpr ⟨fair_successor, List.forall_mem_singleton.mpr fair_tasksOfRuns⟩

/-- A read under a stamp finds nothing where no row carries it. -/
theorem fair_readRows {α : Type} {gate : Option Statement} {rows : Db → List α}
    (hrows : ∀ fence ∈ gate, ∀ db, ¬ Db.Bears db ⟨seed, fence⟩ → rows db = []) :
    Fair seed (readRows gate rows) where
  idle fence hfence db hnot := by
    show some (db, (rows db).length) = some (db, 0)
    rw [hrows fence hfence db hnot, List.length_nil]
  signs db db' wrote hsend stamp hbears := by
    obtain ⟨rfl, _⟩ := Prod.mk.inj (Option.some.inj hsend)
    exact Or.inl hbears
  unwritten db db' hsend := (Prod.mk.inj (Option.some.inj hsend)).1.symm

/-- An open read. -/
theorem fair_openRead {α : Type} {rows : Db → List α} : Fair seed (readRows none rows) :=
  fair_readRows fun fence hfence => absurd hfence (Option.not_mem_none fence)

/-- No run is read under a stamp that none carries. -/
theorem stampedRuns_of_not_bears {stamp : Stamp} {p : Run → Prop} [DecidablePred p]
    (hp : ∀ r, p r → r.fenceStamp = some stamp) (hnot : ¬ Db.Bears db stamp) :
    (db.runs.rows.filter fun r => p r) = [] := by
  rw [List.filter_eq_nil_iff]
  intro r hr hread
  exact hnot (Or.inl ⟨r, hr, hp r (of_decide_eq_true hread)⟩)

end FollowOns

/-! ## The statements of a batch -/

/-- A compare-and-set on `runs` stamps the rows it takes. -/
theorem fair_runsCas {p : Db → Run → Prop} [∀ db, DecidablePred (p db)]
    {f : Db → Table.Change Run.keys} (hf : ∀ db r, (f db r).fenceStamp = some ⟨seed, name⟩) :
    Fair seed (updateRuns (some name) none p f) :=
  fair_updateRuns (fun fence hfence => absurd hfence (Option.not_mem_none fence))
    fun db r => Or.inr ⟨name, rfl, hf db r⟩

/-- A compare-and-set on `tasks` stamps the rows it takes. -/
theorem fair_tasksCas {p : Db → Task → Prop} [∀ db, DecidablePred (p db)]
    {f : Db → Table.Change Task.keys} (hf : ∀ db t, (f db t).fenceStamp = some ⟨seed, name⟩) :
    Fair seed (updateTasks (some name) none p f) :=
  fair_updateTasks (fun fence hfence => absurd hfence (Option.not_mem_none fence))
    fun db t => ⟨name, rfl, hf db t⟩

/-- A read that answers rows changes nothing. -/
theorem readRows_reads {α : Type} {rows : Db → List α} : (readRows none rows).Reads where
  name := rfl
  same _ _ _ hsend := (Prod.mk.inj (Option.some.inj hsend)).1.symm

/-- Every statement of a batch is fair. -/
theorem fair_statements (call : Call) : ∀ sent ∈ call.statements seed now, Fair seed sent := by
  cases call with
  | spawn call =>
    refine List.forall_mem_cons.mpr ⟨fair_insertTask ?_ fun db t ht => ?_, List.forall_mem_cons.mpr
      ⟨fair_insertRun ?_ fun db r hrow => ?_, List.forall_mem_singleton.mpr fair_openRead⟩⟩
    · exact fun fence hfence => absurd hfence (Option.not_mem_none fence)
    · obtain rfl := Option.some.inj (Option.ite_none_right_eq_some.mp ht).2
      exact ⟨.task, rfl, rfl⟩
    -- The run's insert selects the task its own batch stamped: unstamped, there is no row to
    -- insert.
    · rintro _ ⟨⟩ db hnot
      have hnone : (db.tasks.rows.find? fun f => f.taskId = call.taskId ∧
          f.fenceStamp = some ⟨seed, .task⟩) = none :=
        stampedTask_of_not_bears hnot fun t hp => (of_decide_eq_true hp).2
      rw [hnone, Option.bind_none]
    · obtain ⟨f, -, hr⟩ := Option.bind_eq_some_iff.mp hrow
      obtain rfl := Option.some.inj (Option.ite_none_right_eq_some.mp hr).2
      exact ⟨.run, rfl, rfl⟩
  | claim =>
    exact List.forall_mem_cons.mpr ⟨fair_runsCas fun _ _ => rfl, List.forall_mem_cons.mpr
      ⟨fair_tasksOfRuns, List.forall_mem_cons.mpr
        ⟨fair_waitsOfRuns, List.forall_mem_singleton.mpr fair_openRead⟩⟩⟩
  | activate =>
    refine List.forall_mem_cons.mpr ⟨fair_runsCas fun _ _ => rfl, List.forall_mem_cons.mpr
      ⟨fair_tasksOfRuns, List.forall_mem_singleton.mpr (fair_readRows ?_)⟩⟩
    rintro _ ⟨⟩ db hnot
    unfold activatedRunRead
    rw [stampedRuns_of_not_bears (fun r hr => hr.2.1) hnot, List.flatMap_nil]
  | heartbeat =>
    refine List.forall_mem_cons.mpr ⟨fair_runsCas fun _ _ => rfl,
      List.forall_mem_singleton.mpr (fair_readRows ?_)⟩
    rintro _ ⟨⟩ db hnot
    unfold heartbeatRemainingRead
    rw [stampedRuns_of_not_bears (fun r hr => hr.2) hnot, List.map_nil]
  | deferLaunch | reschedule =>
    exact List.forall_mem_cons.mpr ⟨fair_runsCas fun _ _ => rfl, fair_finishSuspension⟩
  | suspendRun =>
    exact List.forall_mem_cons.mpr ⟨fair_runsCas fun _ _ => rfl, List.forall_mem_cons.mpr
      ⟨fair_checkpoint, fair_finishSuspension⟩⟩
  | awaitEvent call =>
    refine List.forall_mem_cons.mpr ⟨fair_insertWait ?_ fun db w hw => ?_, List.forall_mem_cons.mpr
      ⟨fair_runsOfWaits, List.forall_mem_cons.mpr
        ⟨fair_tasksOfRuns, List.forall_mem_singleton.mpr fair_openRead⟩⟩⟩
    · exact fun fence hfence => absurd hfence (Option.not_mem_none fence)
    · obtain rfl := Option.some.inj (Option.ite_none_right_eq_some.mp hw).2
      exact ⟨.register, rfl, rfl⟩
  -- The done event is the batch's only write, and what it takes from the run it checks in its
  -- guard.
  | recordTaskDone call =>
    refine List.forall_mem_cons.mpr ⟨fair_insertEvent ?_ fun db e he => ?_,
      List.forall_mem_singleton.mpr fair_openRead⟩
    · exact fun fence hfence => absurd hfence (Option.not_mem_none fence)
    · obtain ⟨c, -, rfl⟩ := Option.map_eq_some_iff.mp he
      exact ⟨.materialize, rfl, rfl⟩
  | emitEvent =>
    exact List.forall_mem_cons.mpr ⟨fair_upsertEvent rfl fun _ => rfl, List.forall_mem_append.mpr
      ⟨fair_wakeWaiters, List.forall_mem_singleton.mpr fair_openRead⟩⟩
  | setCheckpoint =>
    exact List.forall_mem_cons.mpr ⟨fair_runsCas fun _ _ => rfl,
      List.forall_mem_singleton.mpr fair_checkpoint⟩
  | complete =>
    exact List.forall_mem_cons.mpr ⟨fair_runsCas fun _ _ => rfl, List.forall_mem_cons.mpr
      ⟨fair_tasksOfRuns, List.forall_mem_cons.mpr ⟨fair_waitsOfRuns, fair_taskDoneStatements⟩⟩⟩
  | failInto failure =>
    -- The attempts of a rollback, then a pass of a saga or a retry, then the end of the task.
    refine List.forall_mem_cons.mpr ⟨fair_runsCas fun _ _ => rfl, List.forall_mem_append.mpr
      ⟨?_, List.forall_mem_append.mpr ⟨fair_failSagaPass, List.forall_mem_append.mpr
        ⟨fair_userRetry, List.forall_mem_cons.mpr ⟨fair_tasksOfRuns, List.forall_mem_cons.mpr
          ⟨fair_waitsOfRuns, fair_taskDoneStatements⟩⟩⟩⟩⟩⟩
    cases failure.rollback with
    | none => exact fun _ hmem => absurd hmem List.not_mem_nil
    | some rollback => exact List.forall_mem_singleton.mpr fair_checkpoint
  | sweepLostLaunch =>
    exact List.forall_mem_cons.mpr ⟨fair_runsCas fun _ _ => rfl, List.forall_mem_cons.mpr
      ⟨fair_runsCas fun _ _ => rfl, List.forall_mem_append.mpr ⟨fair_sagaPass,
        List.forall_mem_cons.mpr ⟨fair_tasksOfRuns, List.forall_mem_cons.mpr ⟨fair_tasksOfRuns,
          List.forall_mem_cons.mpr ⟨fair_waitsOfRuns, fair_taskDoneStatements⟩⟩⟩⟩⟩⟩
  | sweepClaimTimeout =>
    exact List.forall_mem_cons.mpr ⟨fair_runsCas fun _ _ => rfl, List.forall_mem_cons.mpr
      ⟨fair_successor, List.forall_mem_append.mpr ⟨fair_sagaPass,
        List.forall_mem_cons.mpr ⟨fair_tasksOfRuns, List.forall_mem_cons.mpr ⟨fair_tasksOfRuns,
          List.forall_mem_cons.mpr ⟨fair_waitsOfRuns, fair_taskDoneStatements⟩⟩⟩⟩⟩⟩
  | cancelTransition =>
    exact List.forall_mem_cons.mpr ⟨fair_tasksCas fun _ _ => rfl, List.forall_mem_cons.mpr
      ⟨fair_runsOfTasks, List.forall_mem_cons.mpr ⟨fair_waitsOfRuns, fair_taskDoneStatements⟩⟩⟩
  | retryTask call =>
    refine List.forall_mem_cons.mpr ⟨fair_tasksCas fun _ _ => rfl, List.forall_mem_cons.mpr
      ⟨fair_insertRun ?_ fun db r hrow => ?_, List.forall_mem_singleton.mpr (fair_readRows ?_)⟩⟩
    · rintro _ ⟨⟩ db hnot
      have hnone : (db.tasks.rows.find? fun f => f.taskId = call.taskId ∧
          f.fenceStamp = some ⟨seed, .revive⟩) = none :=
        stampedTask_of_not_bears hnot fun t hp => (of_decide_eq_true hp).2
      rw [hnone, Option.bind_none]
    · obtain ⟨f, -, hr⟩ := Option.bind_eq_some_iff.mp hrow
      obtain ⟨parent, -, rfl⟩ := Option.map_eq_some_iff.mp hr
      exact ⟨.run, rfl, rfl⟩
    · rintro _ ⟨⟩ db hnot
      unfold revivedRunRead
      rw [stampedRuns_of_not_bears (fun r hr => hr.2) hnot, List.map_nil]
  | expireLeaseNow =>
    -- The one compare-and-set that stamps nothing: it leaves the stamp the row had.
    exact List.forall_mem_singleton.mpr (fair_updateRuns
      (fun fence hfence => absurd hfence (Option.not_mem_none fence)) fun _ _ => Or.inl rfl)

/-- A batch names each of its statements once. -/
theorem nodup_statements (call : Call) : ((call.statements seed now).filterMap Command.name).Nodup := by
  cases call with
  | failInto failure =>
    -- What a failure sends depends on its rollback and on its retry, and on nothing else.
    obtain ⟨claim, failureJson, taskId, retryDelayMs, passId, rollback⟩ := failure
    rcases rollback with - | ⟨tried, - | passDelayMs⟩ <;> cases retryDelayMs <;>
      exact of_decide_eq_true rfl
  | _ => exact of_decide_eq_true rfl

/-- Every statement of a batch is gated by one before it. -/
theorem ordered_statements (call : Call) : Ordered [] (call.statements seed now) := by
  cases call with
  | failInto failure =>
    obtain ⟨claim, failureJson, taskId, retryDelayMs, passId, rollback⟩ := failure
    rcases rollback with - | ⟨tried, - | passDelayMs⟩ <;> cases retryDelayMs <;>
      exact of_decide_eq_true rfl
  | _ => exact of_decide_eq_true rfl

/-! ## Skipping -/

/-- A batch leaves the stamps there were, and its own. -/
theorem bears_of_leaves {l : List SentStatement} (hfair : ∀ sent ∈ l, Fair seed sent)
    (hleaves : leaves l db = some db') {stamp : Stamp} (hbears : Db.Bears db' stamp) :
    Db.Bears db stamp ∨ stamp.seed = seed := by
  induction l generalizing db with
  | nil =>
    obtain rfl := Option.some.inj hleaves
    exact Or.inl hbears
  | cons sent rest ih =>
    have hhead := hfair sent List.mem_cons_self
    rw [leaves_cons] at hleaves
    obtain ⟨_, hsent, hrest⟩ := Option.bind_eq_some_iff.mp hleaves
    obtain ⟨⟨mid, wrote⟩, hsend, rfl⟩ := Option.map_eq_some_iff.mp hsent
    -- The induction is on the statements: what the rest added is its own, and so is what this one did.
    obtain hmid | hown := ih (fun q hq => hfair q (List.mem_cons_of_mem _ hq)) hrest
    · obtain hbefore | ⟨own, -, rfl⟩ := hhead.signs db mid wrote hsend stamp hmid
      · exact Or.inl hbefore
      · exact Or.inr rfl
    · exact Or.inr hown

/-- A stamp that a batch leaves was there, or is of its seed. -/
theorem Batch.bears_after {b : Batch} {stamp : Stamp} (h : Db.Bears (b.after now db) stamp) :
    Db.Bears db stamp ∨ stamp.seed = b.seed := by
  obtain heq | ⟨out, hrun, heq⟩ := b.after_cases now db
  · exact Or.inl (heq ▸ h)
  · have hleaves : leaves (b.call.statements b.seed now) db = some out.db := by
      rw [leaves_statements, hrun]
      rfl
    exact bears_of_leaves (fair_statements b.call) hleaves (heq ▸ h)

/-- No row of a reachable store carries a stamp of a seed that is still to come. -/
theorem Reachable.not_bears {again : Batch → Db → Prop} {s : Sys} (h : Reachable again s)
    (hfresh : s.Fresh seed) : ¬ Db.Bears s.db ⟨seed, name⟩ := by
  induction h with
  | init =>
    rintro (⟨r, hr, -⟩ | ⟨t, ht, -⟩ | ⟨w, hw, -⟩ | ⟨e, he, -⟩)
    · exact Table.not_mem_empty r hr
    · exact Table.not_mem_empty t ht
    · exact Table.not_mem_empty w hw
    · exact Table.not_mem_empty e he
  | step _ hstep ih =>
    cases hstep with
    | first b now | again b now =>
      -- A delivery, the first or not, adds stamps of a seed that the history then holds.
      intro hbears
      obtain hbefore | hown := Batch.bears_after hbears
      · exact ih (fun e he => hfresh e (List.mem_cons_of_mem _ he)) hbefore
      · exact hfresh _ List.mem_cons_self hown.symm

/-- In every reachable store, and whatever was delivered twice to it: a batch of its own seed, sent by
an executor that skips what cannot match, counts the rows it would count sent whole, and leaves what
the batch leaves. -/
theorem skipping_agrees {again : Batch → Db → Prop} {s : Sys} {b : Batch} (h : Reachable again s)
    (hfresh : s.Fresh b.seed) (now : ℤ) :
    sendUnlessSkipped [] (b.call.statements b.seed now) s.db =
        sendAll (b.call.statements b.seed now) s.db ∧
      (sendUnlessSkipped [] (b.call.statements b.seed now) s.db).map Prod.fst =
        (b.run now s.db).map Outcome.db := by
  have hnames : ((b.call.statements b.seed now).filterMap Command.name).Nodup := nodup_statements b.call
  have hagrees := sendUnlessSkipped_eq (fun sent hsent => (fair_statements b.call sent hsent).sound)
    hnames fun _ => h.not_bears hfresh
  refine ⟨hagrees, ?_⟩
  rw [hagrees]
  exact leaves_statements b.call s.db

/-- The completion of the running task, one under a claim nobody holds, and a heartbeat under each
claim, with the read of what is left of the lease. -/
theorem skipping_agrees_runningOne :
    (sendUnlessSkipped [] ((Call.complete ⟨"q", "r1", "w1"⟩ "t" "1").statements "b5" 3)
        runningOne.db).map Prod.snd = some [1, 1, 0, 1, 0, 0, 0, 0] ∧
      (sendUnlessSkipped [] ((Call.complete ⟨"q", "r1", "w2"⟩ "t" "1").statements "b5" 3)
        runningOne.db).map Prod.snd = some [0, 0, 0, 0, 0, 0, 0, 0] ∧
      (sendUnlessSkipped [] ((Call.heartbeat ⟨"q", "r1", "w1"⟩ 1000).statements "b5" 3)
        runningOne.db).map Prod.snd = some [1, 1] ∧
      (sendUnlessSkipped [] ((Call.heartbeat ⟨"q", "r1", "w2"⟩ 1000).statements "b5" 3)
        runningOne.db).map Prod.snd = some [0, 0] := by
  have hsame := fun call => (skipping_agrees (b := ⟨"b5", call⟩) (runningOne_reachable Once)
    (show runningOne.Fresh "b5" by decide) 3).1
  rw [hsame, hsame, hsame, hsame]
  exact ⟨by decide +kernel, by decide +kernel, by decide +kernel, by decide +kernel⟩

/-- Whatever the store holds: a batch whose compare-and-sets wrote no row, sent by an executor that skips
what cannot match, leaves the store as it was. No gated statement of it writes a row or answers with
one, and its open read answers from the store as it was. An exact replay that loses is one. -/
theorem skipping_loses {b : Batch} {counts : List ℕ}
    (hsent : sendUnlessSkipped [] (b.call.statements b.seed now) db = some (db', counts))
    (hlost : List.Forall₂ (fun sent wrote => sent.gate = none → wrote = 0 ∨ sent.Reads)
      (b.call.statements b.seed now) counts) :
    db' = db ∧ List.Forall₂ (Command.Lost db) (b.call.statements b.seed now) counts :=
  sendUnlessSkipped_lost (fun sent hfair => (fair_statements b.call sent hfair).sound)
    (ordered_statements b.call) hsent hlost

/-- The claim of the running task, delivered again: it takes nothing, and its receipt is what the first
delivery took. -/
theorem skipping_loses_runningOne :
    sendUnlessSkipped [] (claimOne.call.statements claimOne.seed 4) runningOne.db =
      some (runningOne.db, [0, 0, 0, 1]) := by
  have hcounts : (sendUnlessSkipped [] (claimOne.call.statements claimOne.seed 4)
      runningOne.db).map Prod.snd = some [0, 0, 0, 1] := by decide +kernel
  obtain ⟨⟨db', counts⟩, hsent, rfl⟩ := Option.map_eq_some_iff.mp hcounts
  have hlost : List.Forall₂ (fun (sent : SentStatement) wrote =>
      sent.gate = none → wrote = 0 ∨ sent.Reads) (claimOne.call.statements claimOne.seed 4)
        [0, 0, 0, 1] :=
    .cons (fun _ => Or.inl rfl) (.cons (fun _ => Or.inl rfl) (.cons (fun _ => Or.inl rfl)
      (.cons (fun _ => Or.inr readRows_reads) .nil)))
  obtain ⟨rfl, -⟩ := skipping_loses hsent hlost
  exact hsent

end Durablerun
