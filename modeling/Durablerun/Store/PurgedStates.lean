import Durablerun.Store.Accounting
import Durablerun.Store.Deadlines
import Durablerun.Store.LeaseTerms
import Durablerun.Store.PurgedUnits
import Durablerun.Store.SagaPhase

/-!
# What holds of a store that is purged

A purge takes a unit whose task has no live run, and leaves every other row. So what a run of batches
keeps, a run of batches and purges keeps as well: of every row that is there, and across two states for
as long as the task is. A task that was purged can be spawned again by its own spawn, and starts over.

Reference: `src/packages/store-libsql/src/store.ts`.
-/

namespace Durablerun

open Relational

variable {sends : Batch → Purging → Prop} {s s' : Purging} {b : Batch} {seen : Db → Prop}
  {seed queue taskId : String} {now : ℤ} {db db' : Db} {r r' : Run} {t t' : Task}

/-! ## One step -/

/-- What a purge leaves of the tables: all of them, or all but a unit whose task has no live run. -/
inductive Db.Trimmed (db : Db) : Db → Prop
  | kept : db.Trimmed db
  | unit (queue taskId : String) (hended : ∀ r ∈ db.runs, r.taskId = taskId → ¬ r.state.Live) :
      db.Trimmed (db.without queue taskId)

/-- The store a purge leaves. -/
def Purging.purged (s : Purging) (p : PurgeDelivery) : Purging :=
  { db := p.after, clock := p.now, history := s.history, purges := p :: s.purges }

/-- A purge leaves the tables, or all but the unit the barrier admits. -/
theorem Purging.Trace.trimmed (h : s.Trace) (hfresh : s.Fresh seed) (target : PurgeUnitTarget)
    (policy : RetentionPolicy) (now : ℤ) :
    s.db.Trimmed (purgeUnit seed queue target policy now s.db).2 := by
  have hunused := h.unused seed hfresh s.db (Or.inl (Or.inl rfl))
  obtain ⟨unit, hbinds, ⟨t, _, hbarrier⟩, hpurge⟩ | hpurge | ⟨_, _, hpurge⟩ :=
    purgeUnit_cases hunused queue target policy now
  · rw [hpurge]
    refine .unit queue target.taskId fun r hr hid hl => hbarrier.noLiveRun ⟨r, hr, ?_, hl⟩
    exact hid.trans (PurgeUnitTarget.binds_unit hbinds).2.1.symm
  · rw [hpurge]
    exact .kept
  · rw [hpurge]
    exact .kept

/-- A batch meets what it needs of a state that purges led to. -/
theorem Purging.Trace.meets (h : s.Trace) (hadm : b.call.Admitted s.Seen)
    (hown : s.Fresh b.seed ∨ b.call.Repeatable) (now : ℤ) : b.Meets s.Seen now s.db := by
  have hnow : s.Seen s.db := Or.inl (Or.inl rfl)
  obtain ⟨heffect, hinv⟩ := h.effect hadm hown now
  exact ⟨h.inv s.db hnow, hown.imp_left fun hfresh => h.unused b.seed hfresh s.db hnow, hadm, heffect,
    hinv⟩

/-- A step delivers a batch that has its effect, or a purge. -/
theorem PurgingReachable.cases (h : PurgingReachable sends s) (hstep : PurgingStep sends s s') :
    (∃ b now, s' = s.deliver b now ∧ s.clock ≤ now ∧ b.Meets s.Seen now s.db) ∨
      ∃ p, s' = s.purged p ∧ s.clock ≤ p.now ∧ p.before = s.db ∧ s.db.Trimmed p.after := by
  cases hstep with
  | first b now hclock hfresh _ _ hadm =>
    exact Or.inl ⟨b, now, rfl, hclock, h.trace.meets hadm (Or.inl hfresh) now⟩
  | again b now hclock hdelivered hrepeats =>
    obtain ⟨e, he, rfl⟩ := hdelivered
    exact Or.inl ⟨_, now, rfl, hclock, h.trace.meets (h.trace.admitted e he) (Or.inr hrepeats) now⟩
  | purge seed queue target policy now hclock hfresh =>
    exact Or.inr ⟨⟨seed, queue, target, policy, now, s.db, _⟩, rfl, hclock, rfl,
      h.trace.trimmed hfresh target policy now⟩

/-- A step that delivers the batch has its effect. -/
theorem PurgingReachable.meets_of_step (h : PurgingReachable sends s)
    (hstep : PurgingStep sends s (s.deliver b now)) : b.Meets s.Seen now s.db := by
  obtain ⟨b', now', heq, _, hmeets⟩ | ⟨p, heq, _⟩ := h.cases hstep
  · have hhistory := congrArg (fun u : Purging => u.history) heq
    simp only [Purging.deliver, Sys.deliver, List.cons.injEq, Delivery.mk.injEq, and_true] at hhistory
    obtain ⟨rfl, rfl⟩ : b' = b ∧ now' = now := ⟨hhistory.1.symm, hhistory.2.1.symm⟩
    exact hmeets
  · have hhistory := congrArg (fun u : Purging => u.history.length) heq
    simp [Purging.deliver, Sys.deliver, Purging.purged] at hhistory

/-! ## Every state -/

/-- What holds at first, and is kept by every delivery and every purge, holds of every state. -/
theorem PurgingReachable.induct {P : Purging → Prop} (h : PurgingReachable sends s)
    (hinit : P .init)
    (hdeliver : ∀ s b now, PurgingReachable sends s → s.clock ≤ now → b.Meets s.Seen now s.db → P s →
      P (s.deliver b now))
    (hpurge : ∀ s p, PurgingReachable sends s → s.clock ≤ p.now → p.before = s.db →
      s.db.Trimmed p.after → P s → P (s.purged p)) : P s := by
  induction h with
  | init => exact hinit
  | step hreach hstep ih =>
    obtain ⟨b, now, rfl, hclock, hmeets⟩ | ⟨p, rfl, hclock, hbefore, htrimmed⟩ := hreach.cases hstep
    · exact hdeliver _ b now hreach hclock hmeets ih
    · exact hpurge _ p hreach hclock hbefore htrimmed ih

/-- The same of the tables alone. -/
theorem PurgingReachable.induct_db {P : Db → Prop} (h : PurgingReachable sends s) (hempty : P .empty)
    (hdeliver : ∀ seen b now db, Batch.Meets b seen now db → P db → P (b.after now db))
    (htrim : ∀ db db', db.Trimmed db' → P db → P db') : P s.db :=
  h.induct (P := fun s => P s.db) hempty
    (fun s b now _ _ hmeets hp => hdeliver s.Seen b now s.db hmeets hp)
    fun s _ _ _ _ htrimmed hp => htrim s.db _ htrimmed hp

/-- A row of a task that a purge leaves was there. -/
theorem Db.Trimmed.tasks (h : db.Trimmed db') (ht : t ∈ db'.tasks) : t ∈ db.tasks := by
  cases h with
  | kept => exact ht
  | unit => exact (mem_without_tasks.mp ht).1

/-- A run of a trimmed store is one of the store. -/
theorem Db.Trimmed.runs (h : db.Trimmed db') (hr : r ∈ db'.runs) : r ∈ db.runs := by
  cases h with
  | kept => exact hr
  | unit => exact (mem_without_runs.mp hr).1

/-- A purge leaves every live run. -/
theorem Db.Trimmed.live (h : db.Trimmed db') (hr : r ∈ db.runs) (hl : r.state.Live) :
    r ∈ db'.runs := by
  cases h with
  | kept => exact hr
  | unit queue taskId hended =>
    exact mem_without_runs.mpr ⟨hr, fun hid => hended r hr hid hl⟩

/-- A purge that leaves a task leaves its checkpoints. -/
theorem Db.Trimmed.sameCheckpoints (h : db.Trimmed db') (hstays : ∃ t ∈ db'.tasks, t.taskId = taskId) :
    SameCheckpoints db db' taskId := by
  cases h with
  | kept => exact .refl db taskId
  | unit queue gone =>
    obtain ⟨t, ht, rfl⟩ := hstays
    intro c hid
    rw [mem_without_checkpoints]
    exact and_iff_left (hid ▸ (mem_without_tasks.mp ht).2)

/-- The invariant holds in every state that batches and purges lead to. -/
theorem PurgingReachable.inv (h : PurgingReachable sends s) : Inv s.db :=
  h.trace.inv s.db (Or.inl (Or.inl rfl))

/-- In every state the outcome columns say how each task ended. -/
theorem PurgingReachable.told (h : PurgingReachable sends s) : ∀ t ∈ s.db.tasks, t.Told :=
  h.induct_db (P := fun db => ∀ t ∈ db.tasks, t.Told) (fun t ht => absurd ht (Table.not_mem_empty t))
    (fun _ _ _ _ hmeets htold => hmeets.effect.told htold)
    fun _ _ htrimmed htold t ht => htold t (htrimmed.tasks ht)

/-- In every state a checkpoint's owner is there. -/
theorem PurgingReachable.ownerThere (h : PurgingReachable sends s) :
    ∀ c ∈ s.db.checkpoints, OwnerThere s.db c := by
  refine h.induct_db (P := fun db => ∀ c ∈ db.checkpoints, OwnerThere db c)
    (fun c hc => absurd hc (Table.not_mem_empty c))
    (fun _ _ _ _ hmeets howner => hmeets.effect.ownerThere hmeets.inv howner)
    fun _ _ htrimmed howner c hc => ?_
  cases htrimmed with
  | kept => exact howner c hc
  | unit =>
    obtain ⟨hc, hne⟩ := mem_without_checkpoints.mp hc
    obtain ⟨r, hr, hid, htask, hrest⟩ := howner c hc
    exact ⟨r, mem_without_runs.mpr ⟨hr, htask ▸ hne⟩, hid, htask, hrest⟩

/-! ## Later states in which a task stays -/

/-- The state is one that later steps reach by the deliveries `new`, and no step takes the task. -/
def Purging.Later (sends : Batch → Purging → Prop) (taskId : String) (s s' : Purging)
    (new : List Delivery) : Prop :=
  Relation.ReflTransGen (fun u u' => PurgingStep sends u u' ∧ ∃ t ∈ u'.db.tasks, t.taskId = taskId)
    s s' ∧ s'.history = new ++ s.history

/-- What holds at a state, and is kept by every delivery and by every purge that leaves the task,
holds at every later one. -/
theorem Purging.Later.induct {P : Purging → List Delivery → Prop} {new : List Delivery}
    (h : Purging.Later sends taskId s s' new) (hs : PurgingReachable sends s) (hstart : P s [])
    (hdeliver : ∀ u b now new, Batch.Meets b u.Seen now u.db → P u new →
      P (u.deliver b now) (b.delivery now u.db :: new))
    (hpurge : ∀ u p new, u.db.Trimmed p.after → (∃ t ∈ p.after.tasks, t.taskId = taskId) → P u new →
      P (u.purged p) new) : P s' new := by
  obtain ⟨hsteps, hnew⟩ := h
  suffices hall : PurgingReachable sends s' ∧ ∃ new, s'.history = new ++ s.history ∧ P s' new by
    obtain ⟨-, new', hnew', hp⟩ := hall
    rwa [List.append_cancel_right (hnew.symm.trans hnew')]
  clear hnew
  induction hsteps with
  | refl => exact ⟨hs, [], rfl, hstart⟩
  | @tail u _ _ hone ih =>
    obtain ⟨hreach, new', hnew', hp⟩ := ih
    refine ⟨hreach.step hone.1, ?_⟩
    obtain ⟨b, now, rfl, _, hmeets⟩ | ⟨p, rfl, _, _, htrimmed⟩ := hreach.cases hone.1
    · exact ⟨b.delivery now u.db :: new', congrArg (List.cons _) hnew', hdeliver u b now new' hmeets hp⟩
    · exact ⟨new', hnew', hpurge u p new' htrimmed hone.2 hp⟩

/-! ## Counters -/

/-- A batch that may be delivered again keeps the tasks whatever stamps it meets. -/
theorem Batch.keeps_of_repeatable {out : Outcome} (hrepeats : b.call.Repeatable)
    (hrun : b.run now db = some out) :
    Keeps (b.Charges db out.db) (b.Retries db out.db) (b.Revives db) db out.db := by
  obtain ⟨seed, call⟩ := b
  cases call with
  | spawn call => exact spawn_keeps hrun
  | claim call => exact Option.some.inj hrun ▸ claim_keeps call
  | activate receipt => exact Option.some.inj hrun ▸ activate_keeps receipt
  | heartbeat => exact Option.some.inj hrun ▸ .of_tasks rfl
  | awaitEvent call => exact Option.some.inj hrun ▸ awaitEvent_keeps call
  | recordTaskDone call => exact Option.some.inj hrun ▸ recordTaskDone_keeps call
  | retryTask call => exact retryTask_keeps (fun _ => trivial) (fun h => ⟨rfl, h⟩) hrun
  | deferLaunch | reschedule | suspendRun | emitEvent | setCheckpoint | complete | failInto
  | sweepLostLaunch | sweepClaimTimeout | cancelTransition | expireLeaseNow => exact hrepeats.elim

/-- A delivery accounts for what it moves of a task's counters. -/
theorem Batch.Meets.accounts (h : b.Meets seen now db) (ht : t ∈ db.tasks)
    (ht' : t' ∈ (b.after now db).tasks) (hid : t'.taskId = t.taskId) :
    b.Accounts db (b.after now db) t t' := by
  obtain he | ⟨out, hrun, he⟩ := b.after_cases now db
  · rw [he] at ht' ⊢
    rw [db.task_unique ht' ht hid]
    exact ⟨fun hne => absurd rfl hne, fun hne => absurd rfl hne⟩
  · rw [he] at ht' ⊢
    rcases h.own with hunused | hrepeats
    · exact (Batch.keeps hunused.runs hrun).accounts ht ht' hid
    · exact (Batch.keeps_of_repeatable hrepeats hrun).accounts ht ht' hid

/-- In every state of a purged store every task is accounted for, a batch delivered there moves a
counter only where it charges the task or retries it, and a purge moves none. -/
theorem purged_accounted (h : PurgingReachable sends s) :
    (∀ t ∈ s.db.tasks, Accounted s.db t) ∧
      (∀ b now, PurgingStep sends s (s.deliver b now) → ∀ t ∈ s.db.tasks,
        ∀ t' ∈ (b.after now s.db).tasks, t'.taskId = t.taskId →
          b.Accounts s.db (b.after now s.db) t t') ∧
      ∀ seed queue target policy now, s.Fresh seed →
        ∀ t' ∈ (s.purge seed queue target policy now).db.tasks, t' ∈ s.db.tasks :=
  ⟨fun _ ht => h.inv.toCore.accounted ht,
    fun _ _ hstep _ ht _ ht' hid => (h.meets_of_step hstep).accounts ht ht' hid,
    fun _ _ target policy now hfresh _ ht' => (h.trace.trimmed hfresh target policy now).tasks ht'⟩

/-! ## The saga -/

/-- A purge that leaves a task leaves its saga as it was. -/
theorem SagaStands.trimmed (h : SagaStands db db' taskId) {db'' : Db} (htrimmed : db'.Trimmed db'')
    (hstays : ∃ t ∈ db''.tasks, t.taskId = taskId) : SagaStands db db'' taskId := by
  have hsame := htrimmed.sameCheckpoints hstays
  exact ⟨hsame.sagaBegan.mpr h.began, h.checkpoints.trans fun c hid _ => hsame c hid⟩

/-- From a state where a saga began on, until its task is purged, every delivery only rolls it back. -/
theorem Purging.Later.sagaStands {new : List Delivery} (h : Purging.Later sends taskId s s' new)
    (hs : PurgingReachable sends s) (hbegan : sagaBegan s.db taskId) :
    SagaStands s.db s'.db taskId ∧ ∀ e ∈ new, e.OnlyRollsBack taskId := by
  refine h.induct
    (P := fun u new => SagaStands s.db u.db taskId ∧ ∀ e ∈ new, e.OnlyRollsBack taskId) hs
    ⟨⟨hbegan, .refl _ _⟩, fun e he => absurd he List.not_mem_nil⟩ (fun u b now new hmeets ih => ?_)
    fun u p new htrimmed hstays ih => ⟨ih.1.trimmed htrimmed hstays, ih.2⟩
  obtain ⟨hstands, honly⟩ := ih
  have honly' := hmeets.onlyRollsBack hstands.began
  refine ⟨⟨hmeets.effect.sagaBegan hstands.began, hstands.checkpoints.trans honly'.checkpoints⟩, ?_⟩
  intro e he
  obtain rfl | he := List.mem_cons.mp he
  · exact honly'
  · exact honly e he

/-- In a purged store too: once a task's saga began, and until the task is purged, every delivery only
rolls it back; a rollback's checkpoint is there only in a saga that began; and no task that started a
step fails, or is a failed one, outside its saga, unless its run has spent all the attempts a task can
have. -/
theorem purged_sagaPhase (h : PurgingReachable sends s) :
    (∀ taskId, sagaBegan s.db taskId → ∀ s' new, Purging.Later sends taskId s s' new →
      SagaStands s.db s'.db taskId ∧ ∀ e ∈ new, e.OnlyRollsBack taskId) ∧
      (∀ c ∈ s.db.checkpoints, namedUnder c.checkpointName SAGA_ROLLBACK_PREFIX →
        sagaBegan s.db c.taskId) ∧
      (∀ e ∈ s.history, ∀ t t', e.FailsOwing t t' → FailedAtBound e.before e.after t') ∧
      ∀ t ∈ s.db.tasks, t.state = .failed → StepStarted s.db t.taskId → ¬ sagaBegan s.db t.taskId →
        ∃ r ∈ s.db.runs, r.taskId = t.taskId ∧
          maxAttemptsBounds.max ≤ r.attempt - t.infraRetries := by
  have hphased := h.inv.phased
  refine ⟨fun taskId hbegan s' new hlater => hlater.sagaStands h hbegan,
    fun c hc hname => hphased.marker c hc (Or.inl hname), ?_,
    fun t ht hfailed hstep hno => (hphased.tasks t ht).owed hfailed hno hstep⟩
  refine h.induct (P := fun s => ∀ e ∈ s.history, ∀ t t', e.FailsOwing t t' →
    FailedAtBound e.before e.after t') (fun e he => absurd he List.not_mem_nil)
    (fun s b now _ _ hmeets ih e he t t' hfails => ?_) fun _ _ _ _ _ _ ih => ih
  obtain rfl | he := List.mem_cons.mp he
  · exact hmeets.failedAtBound hfails
  · exact ih e he t t' hfails

/-! ## Revivals -/

/-- In every state of a purged store a task can be revived exactly when it failed, its saga never
began, and its budget is below the bound; and a revival that wins does no more and no less than
`Revived` says. -/
theorem purged_revives (h : PurgingReachable sends s) (ht : t ∈ s.db.tasks) (seed runId : String)
    (now : ℤ) (hnew : ∀ r ∈ s.db.runs, r.runId ≠ runId) :
    ((∃ db', Revives seed ⟨t.queue, t.taskId, runId⟩ now s.db db') ↔
      t.state = .failed ∧ ¬ sagaBegan s.db t.taskId ∧ t.maxAttempts < MAX_COUNT) ∧
    ∀ db', Revives seed ⟨t.queue, t.taskId, runId⟩ now s.db db' →
      ∃ t' top p, Revived s.db db' runId t t' top p :=
  h.inv.revives ht (h.told t ht) seed runId now hnew

/-! ## Checkpoints -/

/-- No owner of the task's checkpoints is of a lower attempt than one the row had before. -/
def TaskOwnersRise (db db' : Db) (taskId : String) : Prop :=
  ∀ c ∈ db.checkpoints, c.taskId = taskId → ∃ c' ∈ db'.checkpoints, c'.taskId = taskId ∧
    c'.checkpointName = c.checkpointName ∧ c.ownerAttempt ≤ c'.ownerAttempt

/-- Until a task is purged its checkpoints stay, and their owners rise. -/
theorem Purging.Later.ownersRise {new : List Delivery} (h : Purging.Later sends taskId s s' new)
    (hs : PurgingReachable sends s) : TaskOwnersRise s.db s'.db taskId := by
  refine h.induct (P := fun u _ => TaskOwnersRise s.db u.db taskId) hs
    (fun c hc hid => ⟨c, hc, hid, rfl, le_rfl⟩) (fun u b now new hmeets ih c hc hid => ?_)
    fun u p new htrimmed hstays ih c hc hid => ?_
  · obtain ⟨c', hc', hid', hname', hle'⟩ := ih c hc hid
    obtain ⟨c'', hc'', hid'', hname'', hle''⟩ := hmeets.effect.ownersRise c' hc'
    exact ⟨c'', hc'', hid''.trans hid', hname''.trans hname', hle'.trans hle''⟩
  · obtain ⟨c', hc', hid', hrest⟩ := ih c hc hid
    exact ⟨c', (htrimmed.sameCheckpoints hstays c' hid').mpr hc', hid', hrest⟩

/-- In every state of a purged store every checkpoint is owned, until its task is purged no owner is
of a lower attempt than one the row had before, no row refuses a write, and the top run of a task is
handed every checkpoint of the task, once. A batch of a seed of its own that is delivered there leaves
whole what it writes. -/
theorem purged_checkpoints (h : PurgingReachable sends s) :
    (∀ c ∈ s.db.checkpoints, CheckpointOwned s.db c) ∧
      (∀ taskId s' new, Purging.Later sends taskId s s' new → TaskOwnersRise s.db s'.db taskId) ∧
      (∀ r ∈ s.db.runs, ∀ name, validCheckpointConflict s.db r name) ∧
      (∀ r ∈ s.db.runs, (∀ r' ∈ s.db.runs, r'.taskId = r.taskId → r'.attempt ≤ r.attempt) →
        (getCheckpoints s.db r.queue r.taskId r.attempt).Perm
          ((s.db.checkpoints.rows.filter fun c => c.taskId = r.taskId).map
            Checkpoint.committed)) ∧
      ∀ b now out, s.Fresh b.seed → PurgingStep sends s (s.deliver b now) →
        b.run now s.db = some out → b.LeavesWhole s.db out := by
  have howner := h.ownerThere
  refine ⟨fun c hc => h.inv.checkpointOwned (howner c hc),
    fun taskId s' new hlater => hlater.ownersRise h,
    fun r hr => h.inv.validCheckpointConflict howner hr,
    fun r hr htop => getCheckpoints_perm h.inv howner hr htop, fun b now out hfresh hstep hrun => ?_⟩
  exact (h.meets_of_step hstep).leavesWhole howner
    (h.trace.unused b.seed hfresh s.db (Or.inl (Or.inl rfl))).runs hrun

/-! ## Leases -/

/-- A purge leaves a held run. -/
theorem HeldUntil.trimmed {term : ℤ} (h : HeldUntil db r term r') (htrimmed : db.Trimmed db') :
    HeldUntil db' r term r' :=
  { h with mem := htrimmed.live h.mem (by simp [h.running]) }

/-- What steps of a purged store keep of a claim through its term. -/
theorem PurgingReachable.heldUntil {deadline : ℤ} (h : PurgingReachable sends s)
    (hheld : HeldUntil s.db r deadline r) (hrun : Relation.ReflTransGen (PurgingStep sends) s s') :
    PurgingReachable sends s' ∧ ∃ newer, s'.history = newer ++ s.history ∧
      ∀ term, InTerm r deadline newer term → ∃ q, HeldUntil s'.db r term q := by
  induction hrun with
  | refl => exact ⟨h, [], rfl, fun _ hterm => by cases hterm; exact ⟨r, hheld⟩⟩
  | tail _ hstep ih =>
    obtain ⟨hreach, newer, hhistory, hkept⟩ := ih
    refine ⟨.step hreach hstep, ?_⟩
    obtain ⟨b, now, rfl, _, hmeets⟩ | ⟨p, rfl, _, _, htrimmed⟩ := hreach.cases hstep
    · refine ⟨b.delivery now _ :: newer, congrArg (List.cons _) hhistory, fun term hterm => ?_⟩
      cases hterm with
      | renewed hbefore _ hrenews =>
        obtain ⟨q, hq⟩ := hkept _ hbefore
        exact hq.renewed hrenews.1 hrenews.2
      | passed hbefore hahead hrenews hends =>
        obtain ⟨q, hq⟩ := hkept _ hbefore
        exact hq.passed hmeets.effect hahead hrenews hends
    · refine ⟨newer, hhistory, fun term hterm => ?_⟩
      obtain ⟨q, hq⟩ := hkept term hterm
      exact ⟨q, hq.trimmed htrimmed⟩

/-- In every run of a purged store a claim is its holder's until the deadline it was last given, and
no purge takes the run. -/
theorem purged_lease_term {deadline term : ℤ} {newer : List Delivery} (h : PurgingReachable sends s)
    (hrun : Relation.ReflTransGen (PurgingStep sends) s s') (hr : r ∈ s.db.runs)
    (hrunning : r.state = .running) (hexpires : r.claimExpiresAtMs = some deadline)
    (hnewer : s'.history = newer ++ s.history) (hterm : InTerm r deadline newer term) :
    ∃ r', HeldUntil s'.db r term r' := by
  have hheld : HeldUntil s.db r deadline r := ⟨.refl r, hr, hrunning, rfl, rfl, rfl, hexpires⟩
  obtain ⟨_, newer', hnewer', hkept⟩ := h.heldUntil hheld hrun
  obtain rfl := List.append_cancel_right (hnewer'.symm.trans hnewer)
  exact hkept term hterm

/-! ## Deadlines -/

/-- In every state every task is dated, and the stamps of the starts are there. -/
theorem PurgingReachable.started (h : PurgingReachable sends s) :
    (∀ t ∈ s.db.tasks, t.Dated) ∧ Started s.db := by
  refine h.induct_db (P := fun db => (∀ t ∈ db.tasks, t.Dated) ∧ Started db)
    ⟨fun t ht => absurd ht (Table.not_mem_empty t), fun r hr => absurd hr (Table.not_mem_empty r)⟩
    (fun _ _ _ _ hmeets ih => ⟨hmeets.effect.dated ih.1, hmeets.started ih.1 ih.2⟩)
    fun _ _ htrimmed ih => ⟨fun t ht => ih.1 t (htrimmed.tasks ht), fun r hr σ hs t ht hid => ?_⟩
  exact ih.2 r (htrimmed.runs hr) σ hs t (htrimmed.tasks ht) hid

/-- The purge took the run. -/
def PurgeDelivery.Removes (p : PurgeDelivery) (runId : String) : Prop :=
  (∃ r ∈ p.before.runs, r.runId = runId) ∧ ∀ r ∈ p.after.runs, r.runId ≠ runId

/-- Every delivery and every purge came by now. -/
theorem PurgingReachable.clocked (h : PurgingReachable sends s) :
    (∀ e ∈ s.history, e.now ≤ s.clock) ∧ ∀ p ∈ s.purges, p.now ≤ s.clock := by
  refine h.induct (P := fun s => (∀ e ∈ s.history, e.now ≤ s.clock) ∧ ∀ p ∈ s.purges, p.now ≤ s.clock)
    ⟨fun e he => absurd he List.not_mem_nil, fun p hp => absurd hp List.not_mem_nil⟩
    (fun s b now _ hclock _ ih => ⟨fun e he => ?_, fun p hp => (ih.2 p hp).trans hclock⟩)
    fun s p _ hclock _ _ ih => ⟨fun e he => (ih.1 e he).trans hclock, fun q hq => ?_⟩
  · obtain rfl | he := List.mem_cons.mp he
    · exact le_rfl
    · exact (ih.1 e he).trans hclock
  · obtain rfl | hq := List.mem_cons.mp hq
    · exact le_rfl
    · exact (ih.2 q hq).trans hclock

/-- A run whose claim was activated is latched, or a purge took it since. -/
theorem PurgingReachable.latched (h : PurgingReachable sends s) : ∀ e ∈ s.history, ∀ runId claimGen,
    e.Activates runId claimGen → (∃ r ∈ s.db.runs, r.runId = runId ∧ claimGen ≤ r.activatedGen) ∨
      ∃ p ∈ s.purges, p.Removes runId ∧ e.now ≤ p.now := by
  refine h.induct (P := fun s => ∀ e ∈ s.history, ∀ runId claimGen, e.Activates runId claimGen →
    (∃ r ∈ s.db.runs, r.runId = runId ∧ claimGen ≤ r.activatedGen) ∨
      ∃ p ∈ s.purges, p.Removes runId ∧ e.now ≤ p.now) (fun e he => absurd he List.not_mem_nil)
    (fun s b now _ _ hmeets ih e he runId claimGen hact => ?_)
    fun s p hreach hclock hbefore htrimmed ih e he runId claimGen hact => ?_
  · obtain rfl | he := List.mem_cons.mp he
    · exact Or.inl (Batch.latches hact).1
    · refine (ih e he runId claimGen hact).imp_left fun hlatched => ?_
      obtain ⟨r, hr, hid, hle⟩ := hlatched
      obtain ⟨r', hr', hsame, hle'⟩ := hmeets.effect.latchRises r hr
      exact ⟨r', hr', hsame.runId.trans hid, hle.trans hle'⟩
  · obtain ⟨r, hr, hid, hle⟩ | ⟨q, hq, hremoved⟩ := ih e he runId claimGen hact
    · by_cases hstays : ∃ r' ∈ p.after.runs, r'.runId = runId
      · obtain ⟨r', hr', hid'⟩ := hstays
        obtain rfl := s.db.run_unique (htrimmed.runs hr') hr (hid'.trans hid.symm)
        exact Or.inl ⟨_, hr', hid, hle⟩
      · refine Or.inr ⟨p, List.mem_cons_self, ⟨⟨r, hbefore ▸ hr, hid⟩, ?_⟩, ?_⟩
        · exact fun r' hr' hid' => hstays ⟨r', hr', hid'⟩
        · exact (hreach.clocked.1 e he).trans hclock
    · exact Or.inr ⟨q, List.mem_cons_of_mem _ hq, hremoved⟩

/-- Two deliveries activate one generation of a run's claim only where a purge took the run between
them, and its task was spawned again. -/
theorem PurgingReachable.activates_once (h : PurgingReachable sends s) : s.history.Pairwise
    fun e e' => ∀ runId claimGen, e.Activates runId claimGen → e'.Activates runId claimGen →
      ∃ p ∈ s.purges, p.Removes runId ∧ e'.now ≤ p.now ∧ p.now ≤ e.now := by
  refine h.induct (P := fun s => s.history.Pairwise fun e e' => ∀ runId claimGen,
    e.Activates runId claimGen → e'.Activates runId claimGen →
      ∃ p ∈ s.purges, p.Removes runId ∧ e'.now ≤ p.now ∧ p.now ≤ e.now) .nil
    (fun s b now hreach hclock _ ih => ?_) fun s p _ _ _ _ ih => ?_
  · refine List.pairwise_cons.mpr ⟨fun e' he' runId claimGen hact hact' => ?_, ih⟩
    obtain ⟨r', hr', hid', hle⟩ | ⟨p, hp, hremoves, hsince⟩ :=
      hreach.latched e' he' runId claimGen hact'
    · obtain ⟨r, hr, hid, hlatch⟩ := (Batch.latches hact).2
      rw [Db.run_unique hr' hr (hid'.trans hid.symm)] at hle
      exact absurd hlatch (not_lt.mpr hle)
    · exact ⟨p, hp, hremoves, hsince, (hreach.clocked.2 p hp).trans hclock⟩
  · refine ih.imp fun hpair runId claimGen hact hact' => ?_
    obtain ⟨q, hq, hbetween⟩ := hpair runId claimGen hact hact'
    exact ⟨q, List.mem_cons_of_mem _ hq, hbetween⟩

/-- The task is as the last spawn of it and its first start since made it. -/
structure SinceSpawn (history new : List Delivery) (e : Delivery) (call : SpawnCall) (t : Task) :
    Prop where
  since : ∃ old, history = new ++ e :: old
  spawned : SpawnedAs e call t
  last : ∀ e' ∈ new, ∀ call', e'.Spawns call' → call'.taskId ≠ t.taskId
  started : FirstStart new t
  deadline : t.state.Live → DeadlineOf [e] t

/-- A spawn that wins makes a task that was not there. -/
theorem Batch.Meets.spawns_new {call : SpawnCall} (h : b.Meets seen now db)
    (hspawns : (b.delivery now db).Spawns call) : ∀ t ∈ db.tasks, t.taskId ≠ call.taskId := by
  have hadm := h.admitted
  obtain ⟨⟨out, hrun, hwon⟩, hcall⟩ := hspawns
  obtain ⟨seed, sent⟩ := b
  obtain rfl : sent = .spawn call := hcall
  obtain ⟨_, hlost⟩ | ⟨hguard, _⟩ := spawn_cases hadm h.sound hrun
  · exact absurd hlost hwon
  · exact fun t ht hid => hguard.1.1 ⟨t, ht, hid⟩

/-- Every task's history since its spawn is one of the run's. -/
theorem PurgingReachable.sinceSpawn (h : PurgingReachable sends s) :
    ∀ t ∈ s.db.tasks, ∃ new e call, SinceSpawn s.history new e call t := by
  refine h.induct (P := fun s => ∀ t ∈ s.db.tasks, ∃ new e call, SinceSpawn s.history new e call t)
    (fun t ht => absurd ht (Table.not_mem_empty t)) (fun s b now hreach _ hmeets ih t' ht' => ?_)
    fun s p _ _ _ htrimmed ih t ht => ih t (htrimmed.tasks ht)
  obtain ⟨hdated, hstarted⟩ := hreach.started
  have hdated' : t'.Dated := hmeets.effect.dated hdated t' ht'
  obtain ⟨t, ht, hmoved⟩ | hborn := hmeets.effect.tasks.before t' ht'
  · obtain ⟨new, e, call, hsince⟩ := ih t ht
    have hspawned := hsince.spawned.moved hmoved
    refine ⟨b.delivery now s.db :: new, e, call, ?_, hspawned, fun e' he' call' hspawns => ?_,
      hmeets.firstStart hdated hstarted ht ht' hmoved.same.taskId hsince.started,
      hspawned.deadlineOf List.mem_cons_self hdated'⟩
    · obtain ⟨old, hold⟩ := hsince.since
      exact ⟨old, congrArg (List.cons _) hold⟩
    · rw [hmoved.same.taskId]
      obtain rfl | he' := List.mem_cons.mp he'
      · exact (hmeets.spawns_new hspawns t ht).symm
      · exact hsince.last e' he' call' hspawns
  · obtain ⟨⟨call, hspawned⟩, hfirst⟩ := hmeets.spawned ht' hborn
    refine ⟨[], _, call, ⟨s.history, rfl⟩, hspawned, fun e' he' => absurd he' List.not_mem_nil, ?_,
      hspawned.deadlineOf List.mem_cons_self hdated'⟩
    unfold FirstStart
    rw [hfirst]
    exact fun e' he' => absurd he' List.not_mem_nil

/-- In every run of a purged store no generation of a run's claim is activated twice, unless a purge
took the run in between, and an activation that loses changes no row; the deadline of a live task is
the one its last spawn and its first start since give it; and of the batches, only those that may move
a start or a deadline do, and none that a passed deadline refuses takes a run of a task at or past
it. -/
theorem purged_deadlines (h : PurgingReachable sends s) :
    (s.history.Pairwise fun e e' => ∀ runId claimGen, e.Activates runId claimGen →
      e'.Activates runId claimGen →
        ∃ p ∈ s.purges, p.Removes runId ∧ e'.now ≤ p.now ∧ p.now ≤ e.now) ∧
    (∀ seed receipt now, (activate seed receipt now s.db).won = none →
      (activate seed receipt now s.db).db = s.db) ∧
    (∀ t ∈ s.db.tasks, ∃ new e call, SinceSpawn s.history new e call t) ∧
    ∀ b now, PurgingStep sends s (s.deliver b now) →
      (∀ t ∈ s.db.tasks, ∀ t' ∈ (b.after now s.db).tasks, t'.taskId = t.taskId →
        KeepsDeadline b.call t t') ∧
      (∀ out, b.run now s.db = some out → b.call.Deadlined → out.won ≠ none →
        ∃ r ∈ s.db.runs, b.call.Takes s.db now r) ∧
      ∀ r ∈ s.db.runs, b.call.Takes s.db now r → ∀ t ∈ s.db.tasks, runOwnedByTask r t →
        ∀ deadline ∈ t.cancelAtMs, now < deadline := by
  obtain ⟨hdated, hstarted⟩ := h.started
  refine ⟨h.activates_once, fun seed receipt now hlost => ?_, h.sinceSpawn, fun b now hstep =>
    ⟨fun t ht t' ht' hid => (h.meets_of_step hstep).effect.keepsDeadline ht ht' hid,
      fun out hrun hcall hwon => Batch.takes hcall hrun hwon,
      fun r hr htakes t ht hown => htakes.ahead hr ht hown⟩⟩
  obtain ⟨r, t, hact⟩ | ⟨_, heq⟩ := activate_cases seed now hdated hstarted receipt
  · cases hlost.symm.trans (wonBy_eq_some.mpr ⟨⟨r, hact.run, hact.guard⟩, rfl⟩)
  · exact heq

end Durablerun
