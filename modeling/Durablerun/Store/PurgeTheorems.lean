import Durablerun.Store.EventFacts
import Durablerun.Store.Purge

/-!
# What a purge removes

A purge that wins leaves the tables without its task's unit, and what it counted is what it removed. A
purge that is refused leaves them as they were. The invariant of the store holds of the tables without
the unit, because the barrier let nothing outside the unit name it.

Reference: `packages/core/src/statements/purge.ts`.
-/

namespace Durablerun

open Relational

variable {db : Db} {seed : String} {unit : PurgeUnitBinds} {now : ℤ}

/-! ## The unit -/

/-- The tables without the unit of a task: its row, its runs, their waits, its checkpoints and its
completion event. -/
def Db.without (db : Db) (queue taskId : String) : Db where
  tasks := db.tasks.delete fun t => t.taskId = taskId
  runs := db.runs.delete fun r => r.taskId = taskId
  waits := db.waits.delete fun w => ∃ r ∈ db.runs, r.taskId = taskId ∧ r.runId = w.runId
  events := db.events.delete fun e => e.queue = queue ∧ e.eventName = taskDoneEventName taskId
  checkpoints := db.checkpoints.delete fun c => c.taskId = taskId

/-- The barrier admits the unit. -/
def Purgeable (db : Db) (now : ℤ) (unit : PurgeUnitBinds) : Prop :=
  ∃ t ∈ db.tasks, PurgeBarrier db now unit t

instance : Decidable (Purgeable db now unit) := by
  unfold Purgeable
  infer_instance

/-! ## What the stamp selects -/

/-- The rows that carry the stamp of the compare-and-set are those it stamped. -/
theorem purgeUnitCas_stamped (hunused : Unused db seed) {f : Task} :
    (f ∈ (purgeUnitCas db seed unit now).tasks ∧ f.fenceStamp = some ⟨seed, .purge⟩) ↔
      ∃ t ∈ db.tasks, PurgeBarrier db now unit t ∧ f = t.stampedAt ⟨seed, .purge⟩ now := by
  constructor
  · rintro ⟨hf, hstamp⟩
    obtain ⟨t, ht, hbarrier, rfl⟩ | ⟨hf, -⟩ := Table.update_cases hf
    · exact ⟨t, ht, hbarrier, rfl⟩
    · exact absurd rfl (hunused.tasks f hf _ hstamp)
  · rintro ⟨t, ht, hbarrier, rfl⟩
    exact ⟨Table.mem_update_of_pos ht hbarrier, rfl⟩

/-- What follows the stamp by a key of the task follows the task of the unit, where it is admitted. -/
theorem exists_stamped (unit : PurgeUnitBinds) (now : ℤ) (hunused : Unused db seed) {P : Task → Prop}
    (hP : ∀ t ∈ db.tasks, PurgeBarrier db now unit t → ∀ a, P (t.stampedAt ⟨seed, .purge⟩ a) ↔ P t) :
    (∃ f ∈ (purgeUnitCas db seed unit now).tasks, f.fenceStamp = some ⟨seed, .purge⟩ ∧ P f) ↔
      ∃ t ∈ db.tasks, PurgeBarrier db now unit t ∧ P t := by
  constructor
  · rintro ⟨f, hf, hstamp, hPf⟩
    obtain ⟨t, ht, hbarrier, rfl⟩ := (purgeUnitCas_stamped hunused).mp ⟨hf, hstamp⟩
    exact ⟨t, ht, hbarrier, (hP t ht hbarrier now).mp hPf⟩
  · rintro ⟨t, ht, hbarrier, hPt⟩
    obtain ⟨hf, hstamp⟩ := (purgeUnitCas_stamped hunused).mpr ⟨t, ht, hbarrier, rfl⟩
    exact ⟨_, hf, hstamp, (hP t ht hbarrier now).mpr hPt⟩

/-- The checkpoints a purge deletes are its task's. -/
theorem purgedCheckpoint_iff (hunused : Unused db seed) {c : Checkpoint} :
    purgedCheckpoint (purgeUnitCas db seed unit now) seed unit c ↔
      Purgeable db now unit ∧ c.taskId = unit.taskId := by
  have h := exists_stamped unit now hunused
    (P := fun f => f.taskId = unit.taskId ∧ f.taskId = c.taskId) fun _ _ _ _ => Iff.rfl
  constructor
  · rintro ⟨f, hf, ⟨hid, hstamp⟩, hc⟩
    obtain ⟨t, ht, hbarrier, -, hc⟩ := h.mp ⟨f, hf, hstamp, hid, hc⟩
    exact ⟨⟨t, ht, hbarrier⟩, hc.symm.trans hbarrier.taskId⟩
  · rintro ⟨⟨t, ht, hbarrier⟩, hc⟩
    obtain ⟨f, hf, hstamp, hid, hc⟩ := h.mpr
      ⟨t, ht, hbarrier, hbarrier.taskId, hbarrier.taskId.trans hc.symm⟩
    exact ⟨f, hf, ⟨hid, hstamp⟩, hc⟩

/-- The runs a purge deletes are its task's. -/
theorem purgedRun_iff (hunused : Unused db seed) {r : Run} :
    purgedRun (purgeUnitCas db seed unit now) seed unit r ↔
      Purgeable db now unit ∧ r.taskId = unit.taskId := by
  have h := exists_stamped unit now hunused
    (P := fun f => f.taskId = unit.taskId ∧ f.queue = unit.queue ∧ f.taskId = r.taskId)
    fun _ _ _ _ => Iff.rfl
  constructor
  · rintro ⟨f, hf, ⟨hid, hq, hstamp⟩, hr⟩
    obtain ⟨t, ht, hbarrier, -, -, hr⟩ := h.mp ⟨f, hf, hstamp, hid, hq, hr⟩
    exact ⟨⟨t, ht, hbarrier⟩, hr.symm.trans hbarrier.taskId⟩
  · rintro ⟨⟨t, ht, hbarrier⟩, hr⟩
    obtain ⟨f, hf, hstamp, hid, hq, hr⟩ := h.mpr
      ⟨t, ht, hbarrier, hbarrier.taskId, hbarrier.queue, hbarrier.taskId.trans hr.symm⟩
    exact ⟨f, hf, ⟨hid, hq, hstamp⟩, hr⟩

/-- The event a purge deletes is its task's completion. -/
theorem purgedEvent_iff (hunused : Unused db seed) {e : Event} :
    purgedEvent (purgeUnitCas db seed unit now) seed unit e ↔
      Purgeable db now unit ∧ e.queue = unit.queue ∧ e.eventName = taskDoneEventName unit.taskId := by
  have h := exists_stamped unit now hunused
    (P := fun f => f.taskId = unit.taskId ∧ f.queue = e.queue) fun _ _ _ _ => Iff.rfl
  constructor
  · rintro ⟨⟨f, hf, ⟨hid, hstamp⟩, he⟩, hname⟩
    obtain ⟨t, ht, hbarrier, -, he⟩ := h.mp ⟨f, hf, hstamp, hid, he⟩
    exact ⟨⟨t, ht, hbarrier⟩, he.symm.trans hbarrier.queue, hname⟩
  · rintro ⟨⟨t, ht, hbarrier⟩, he, hname⟩
    obtain ⟨f, hf, hstamp, hid, he⟩ := h.mpr
      ⟨t, ht, hbarrier, hbarrier.taskId, hbarrier.queue.trans he.symm⟩
    exact ⟨⟨f, hf, ⟨hid, hstamp⟩, he⟩, hname⟩

/-- The runs the batch stamps are the unit's. -/
theorem released_iff (hunused : Unused db seed) {r : Run} (hr : r ∈ db.runs) :
    ((∃ f ∈ (purgeUnitCas db seed unit now).tasks, (f.taskId = unit.taskId ∧ f.queue = unit.queue ∧
        f.fenceStamp = some ⟨seed, .purge⟩) ∧ f.taskId = r.taskId) ∧ r.queue = unit.queue ∧
        r.taskId = unit.taskId) ↔
      Purgeable db now unit ∧ r.taskId = unit.taskId := by
  rw [show (∃ f ∈ (purgeUnitCas db seed unit now).tasks, (f.taskId = unit.taskId ∧
    f.queue = unit.queue ∧ f.fenceStamp = some ⟨seed, .purge⟩) ∧ f.taskId = r.taskId) ↔ _ from
      purgedRun_iff hunused]
  constructor
  · exact fun h => h.1
  · rintro ⟨⟨t, ht, hbarrier⟩, hid⟩
    exact ⟨⟨⟨t, ht, hbarrier⟩, hid⟩,
      of_not_not fun hq => hbarrier.ownsEveryRun ⟨r, hr, hid, hq⟩, hid⟩

/-- The runs as the batch releases them. -/
def releasedRuns (db : Db) (seed : String) (unit : PurgeUnitBinds) (now : ℤ) : Db :=
  tasksToRuns (purgeUnitCas db seed unit now) seed .runs .purge unit.queue
    (fun f => f.taskId = unit.taskId) (fun r => r.taskId = unit.taskId)
    ⟨fun r => { r with claimedBy := none }, Table.same_keys Run.keys⟩

/-- The waits a purge deletes are those of its task's runs. -/
theorem purgedWait_iff (hunused : Unused db seed) {w : Wait} :
    purgedWait (releasedRuns db seed unit now) seed unit w ↔
      Purgeable db now unit ∧ ∃ r ∈ db.runs, r.taskId = unit.taskId ∧ r.runId = w.runId := by
  constructor
  · rintro ⟨f, hf, ⟨hid, hstamp⟩, hw⟩
    obtain ⟨r, hr, hcond, rfl⟩ | ⟨hf, -⟩ := Table.update_cases hf
    · exact ⟨((released_iff hunused hr).mp hcond).1, r, hr, hid, hw⟩
    · exact absurd rfl (hunused.runs f hf _ hstamp)
  · rintro ⟨hpurgeable, r, hr, hid, hw⟩
    exact ⟨_, Table.mem_update_of_pos hr ((released_iff hunused hr).mpr ⟨hpurgeable, hid⟩),
      ⟨hid, rfl⟩, hw⟩

/-! ## What the batch leaves -/

/-- The task of an admitted unit is the one with its id. -/
theorem barrier_iff {t : Task} (ht : t ∈ db.tasks) :
    PurgeBarrier db now unit t ↔ Purgeable db now unit ∧ t.taskId = unit.taskId := by
  constructor
  · exact fun hbarrier => ⟨⟨t, ht, hbarrier⟩, hbarrier.taskId⟩
  · rintro ⟨⟨t', ht', hbarrier⟩, hid⟩
    rwa [db.task_unique ht ht' (hid.trans hbarrier.taskId.symm)]

/-- The task a purge deletes is its own. -/
theorem purge_tasks (hunused : Unused db seed) :
    (purgeUnitCas db seed unit now).tasks.delete (purgedTask seed unit) =
      db.tasks.delete fun t => Purgeable db now unit ∧ t.taskId = unit.taskId := by
  refine Table.delete_update (fun t ht hbarrier => ?_) fun t ht hbarrier => ?_
  · exact ⟨(barrier_iff ht).mp hbarrier, hbarrier.taskId, hbarrier.queue, rfl⟩
  · rw [← barrier_iff ht, iff_false_right hbarrier]
    rintro ⟨-, -, hstamp⟩
    exact hunused.tasks t ht _ hstamp rfl

/-- A purge's deletion of runs is that of its task's runs. -/
theorem purge_runs (hunused : Unused db seed) :
    (releasedRuns db seed unit now).runs.delete
        (purgedRun (purgeUnitCas db seed unit now) seed unit) =
      db.runs.delete fun r => Purgeable db now unit ∧ r.taskId = unit.taskId := by
  refine Table.delete_update (fun r hr hcond => ?_) fun r _ _ => purgedRun_iff hunused
  have hpurged := (released_iff hunused hr).mp hcond
  exact ⟨hpurged, (purgedRun_iff hunused).mpr hpurged⟩

/-- What is left of a unit the barrier admits, and what is left of one it does not. -/
theorem addUnitPurge_db (hunused : Unused db seed) (unit : PurgeUnitBinds) (now : ℤ) :
    (addUnitPurge seed unit now db).db =
      if Purgeable db now unit then db.without unit.queue unit.taskId else db := by
  have hwaits : (releasedRuns db seed unit now).waits.delete
      (purgedWait (releasedRuns db seed unit now) seed unit) = db.waits.delete fun w =>
        Purgeable db now unit ∧ ∃ r ∈ db.runs, r.taskId = unit.taskId ∧ r.runId = w.runId :=
    Table.delete_congr fun _ _ => purgedWait_iff hunused
  have hevents : db.events.delete (purgedEvent (purgeUnitCas db seed unit now) seed unit) =
      db.events.delete fun e => Purgeable db now unit ∧ e.queue = unit.queue ∧
        e.eventName = taskDoneEventName unit.taskId :=
    Table.delete_congr fun _ _ => purgedEvent_iff hunused
  have hcheckpoints :
      db.checkpoints.delete (purgedCheckpoint (purgeUnitCas db seed unit now) seed unit) =
        db.checkpoints.delete fun c => Purgeable db now unit ∧ c.taskId = unit.taskId :=
    Table.delete_congr fun _ _ => purgedCheckpoint_iff hunused
  have hdb : (addUnitPurge seed unit now db).db =
      { tasks := (purgeUnitCas db seed unit now).tasks.delete (purgedTask seed unit)
        runs := (releasedRuns db seed unit now).runs.delete
          (purgedRun (purgeUnitCas db seed unit now) seed unit)
        waits := (releasedRuns db seed unit now).waits.delete
          (purgedWait (releasedRuns db seed unit now) seed unit)
        events := db.events.delete (purgedEvent (purgeUnitCas db seed unit now) seed unit)
        checkpoints :=
          db.checkpoints.delete (purgedCheckpoint (purgeUnitCas db seed unit now) seed unit) } := rfl
  rw [hdb, purge_tasks hunused, purge_runs hunused, hwaits, hevents, hcheckpoints]
  by_cases hpurgeable : Purgeable db now unit
  · simp only [hpurgeable, true_and, if_true]
    rfl
  · simp only [hpurgeable, false_and, if_false]
    rw [Table.delete_of_forall_not (T := db.tasks) fun _ _ => not_false,
      Table.delete_of_forall_not (T := db.runs) fun _ _ => not_false,
      Table.delete_of_forall_not (T := db.waits) fun _ _ => not_false,
      Table.delete_of_forall_not (T := db.events) fun _ _ => not_false,
      Table.delete_of_forall_not (T := db.checkpoints) fun _ _ => not_false]

/-! ## What the batch counts -/

/-- The rows of the unit of a task. -/
def Db.unitRows (db : Db) (queue taskId : String) : UnitRows where
  tasks := 1
  runs := db.runs.count fun r => r.taskId = taskId
  waits := db.waits.count fun w => ∃ r ∈ db.runs, r.taskId = taskId ∧ r.runId = w.runId
  events := db.events.count fun e => e.queue = queue ∧ e.eventName = taskDoneEventName taskId
  checkpoints := db.checkpoints.count fun c => c.taskId = taskId

/-- One row holds the id of an admitted unit's task. -/
theorem count_task (hpurgeable : Purgeable db now unit) :
    db.tasks.count (fun t => t.taskId = unit.taskId) = 1 := by
  obtain ⟨t, ht, hbarrier⟩ := hpurgeable
  have hone : db.tasks.rows.filter (fun t => decide (t.taskId = unit.taskId)) = [t] :=
    Table.filter_eq_singleton Task.keys_ne_nil ht hbarrier.taskId fun t' ht' hid =>
      db.task_unique ht' ht (hid.trans hbarrier.taskId.symm)
  rw [Table.count, hone, List.length_singleton]

/-- A purge stamps its task where it may purge it. -/
theorem addUnitPurge_stamped (db : Db) (seed : String) (unit : PurgeUnitBinds) (now : ℤ) :
    (addUnitPurge seed unit now db).stamped = if Purgeable db now unit then 1 else 0 := by
  split
  · rename_i hpurgeable
    rw [← count_task hpurgeable]
    exact Table.count_congr fun t ht => (barrier_iff ht).trans (and_iff_right hpurgeable)
  · rename_i hpurgeable
    exact Table.count_eq_zero fun t ht hbarrier => hpurgeable ⟨t, ht, hbarrier⟩

/-- A purge reads the rows it is to delete. -/
theorem addUnitPurge_unit (hunused : Unused db seed) (unit : PurgeUnitBinds) (now : ℤ) :
    (addUnitPurge seed unit now db).unit =
      if Purgeable db now unit then some (db.unitRows unit.queue unit.taskId) else none := by
  have hread : (∃ f ∈ (purgeUnitCas db seed unit now).tasks, f.taskId = unit.taskId ∧
      f.fenceStamp = some ⟨seed, .purge⟩) ↔ Purgeable db now unit := by
    constructor
    · rintro ⟨f, hf, -, hstamp⟩
      obtain ⟨t, ht, hbarrier, -⟩ := (purgeUnitCas_stamped hunused).mp ⟨hf, hstamp⟩
      exact ⟨t, ht, hbarrier⟩
    · rintro ⟨t, ht, hbarrier⟩
      obtain ⟨hf, hstamp⟩ := (purgeUnitCas_stamped hunused).mpr ⟨t, ht, hbarrier, rfl⟩
      exact ⟨_, hf, hbarrier.taskId, hstamp⟩
  change purgedUnitRowsRead (purgeUnitCas db seed unit now) seed unit = _
  simp only [purgedUnitRowsRead, hread]
  split
  · rename_i hpurgeable
    obtain ⟨t, ht, hbarrier⟩ := hpurgeable
    have howns : ∀ r ∈ db.runs, (r.taskId = unit.taskId ∧ r.queue = unit.queue ↔
        r.taskId = unit.taskId) := fun r hr =>
      ⟨And.left, fun hid => ⟨hid, of_not_not fun hq => hbarrier.ownsEveryRun ⟨r, hr, hid, hq⟩⟩⟩
    refine congrArg some ?_
    rw [Db.unitRows, UnitRows.mk.injEq]
    refine ⟨rfl, Table.count_congr howns, Table.count_congr fun w _ => ?_, rfl, rfl⟩
    refine exists_congr fun r => and_congr_right fun hr => ?_
    rw [howns r hr]
  · rfl

/-- A purge deletes the rows it read. -/
theorem addUnitPurge_deleted (hunused : Unused db seed) (unit : PurgeUnitBinds) (now : ℤ) :
    (addUnitPurge seed unit now db).deleted =
      if Purgeable db now unit then db.unitRows unit.queue unit.taskId else ⟨0, 0, 0, 0, 0⟩ := by
  have htasks : (purgeUnitCas db seed unit now).tasks.count (purgedTask seed unit) =
      db.tasks.count fun t => Purgeable db now unit ∧ t.taskId = unit.taskId := by
    refine Table.count_update (fun t ht hbarrier => ?_) fun t ht hbarrier => ?_
    · exact iff_of_true ⟨hbarrier.taskId, hbarrier.queue, rfl⟩ ((barrier_iff ht).mp hbarrier)
    · rw [← barrier_iff ht, iff_false_right hbarrier]
      exact fun h => hunused.tasks t ht _ h.2.2 rfl
  have hruns : (releasedRuns db seed unit now).runs.count
      (purgedRun (purgeUnitCas db seed unit now) seed unit) =
        db.runs.count fun r => Purgeable db now unit ∧ r.taskId = unit.taskId :=
    Table.count_update (fun _ _ _ => purgedRun_iff hunused) fun _ _ _ => purgedRun_iff hunused
  have hwaits : (releasedRuns db seed unit now).waits.count
      (purgedWait (releasedRuns db seed unit now) seed unit) = db.waits.count fun w =>
        Purgeable db now unit ∧ ∃ r ∈ db.runs, r.taskId = unit.taskId ∧ r.runId = w.runId :=
    Table.count_congr fun _ _ => purgedWait_iff hunused
  have hevents : db.events.count (purgedEvent (purgeUnitCas db seed unit now) seed unit) =
      db.events.count fun e => Purgeable db now unit ∧ e.queue = unit.queue ∧
        e.eventName = taskDoneEventName unit.taskId :=
    Table.count_congr fun _ _ => purgedEvent_iff hunused
  have hcheckpoints :
      db.checkpoints.count (purgedCheckpoint (purgeUnitCas db seed unit now) seed unit) =
        db.checkpoints.count fun c => Purgeable db now unit ∧ c.taskId = unit.taskId :=
    Table.count_congr fun _ _ => purgedCheckpoint_iff hunused
  have hdeleted : (addUnitPurge seed unit now db).deleted =
      { tasks := (purgeUnitCas db seed unit now).tasks.count (purgedTask seed unit)
        runs := (releasedRuns db seed unit now).runs.count
          (purgedRun (purgeUnitCas db seed unit now) seed unit)
        waits := (releasedRuns db seed unit now).waits.count
          (purgedWait (releasedRuns db seed unit now) seed unit)
        events := db.events.count (purgedEvent (purgeUnitCas db seed unit now) seed unit)
        checkpoints :=
          db.checkpoints.count (purgedCheckpoint (purgeUnitCas db seed unit now) seed unit) } := rfl
  rw [hdeleted, htasks, hruns, hwaits, hevents, hcheckpoints]
  by_cases hpurgeable : Purgeable db now unit
  · simp only [hpurgeable, true_and, if_true, count_task hpurgeable, Db.unitRows]
  · simp only [hpurgeable, false_and, if_false, UnitRows.mk.injEq]
    exact ⟨Table.count_eq_zero fun _ _ => not_false, Table.count_eq_zero fun _ _ => not_false,
      Table.count_eq_zero fun _ _ => not_false, Table.count_eq_zero fun _ _ => not_false,
      Table.count_eq_zero fun _ _ => not_false⟩

/-! ## What the purge answers -/

/-- What the batch of a purge is bound to, where one is sent. -/
def PurgeUnitTarget.binds (queue : String) (target : PurgeUnitTarget) (policy : RetentionPolicy) :
    Option PurgeUnitBinds :=
  match retentionWindowsMs policy, spawningParent (target.idempotencyKey.map Js.utf16) with
  | .ok windowsMs, .known parentTaskId =>
    some ⟨queue, target.taskId, target.idempotencyKey, windowsMs, parentTaskId⟩
  | _, _ => none

/-- What a target binds is its queue, its task and the policy's windows. -/
theorem PurgeUnitTarget.binds_unit {queue : String} {target : PurgeUnitTarget}
    {policy : RetentionPolicy} (h : target.binds queue policy = some unit) :
    unit.queue = queue ∧ unit.taskId = target.taskId ∧
      retentionWindowsMs policy = .ok unit.windowsMs := by
  unfold PurgeUnitTarget.binds at h
  split at h
  · rename_i hpolicy _
    obtain rfl := Option.some.inj h
    exact ⟨rfl, rfl, hpolicy⟩
  · cases h

/-- The parent the barrier asks after is the one the unit's key names. -/
theorem PurgeUnitTarget.binds_parent {queue : String} {target : PurgeUnitTarget}
    {policy : RetentionPolicy} (h : target.binds queue policy = some unit) :
    spawningParent (unit.idempotencyKey.map Js.utf16) = .known unit.parentTaskId := by
  unfold PurgeUnitTarget.binds at h
  split at h
  · rename_i hparent
    obtain rfl := Option.some.inj h
    exact hparent
  · cases h

/-- A queue has one event of a name at most. -/
theorem count_events (db : Db) (queue eventName : String) :
    db.events.count (fun e => e.queue = queue ∧ e.eventName = eventName) ≤ 1 := by
  by_cases hthere : ∃ e ∈ db.events, e.queue = queue ∧ e.eventName = eventName
  · obtain ⟨e, he, hqueue, hname⟩ := hthere
    have hone : db.events.rows.filter
        (fun e => decide (e.queue = queue ∧ e.eventName = eventName)) = [e] := by
      refine Table.filter_eq_singleton (fun e => List.cons_ne_nil _ _) he ⟨hqueue, hname⟩ ?_
      rintro e' he' ⟨hqueue', hname'⟩
      refine Table.eq_of_key (k := (queue, eventName)) he' he ?_ ?_
      · rw [Event.keys, hqueue', hname']
        exact List.mem_singleton_self _
      · rw [Event.keys, hqueue, hname]
        exact List.mem_singleton_self _
    rw [Table.count, hone, List.length_singleton]
  · rw [Table.count_eq_zero fun e he h => hthere ⟨e, he, h⟩]
    exact Nat.zero_le 1

/-- A purge that deleted one task and one event at most passes its audit. -/
theorem PurgeRan.audit_ok {ran : PurgeRan} (hstamped : ran.stamped ≤ 1)
    (hevents : ran.deleted.events ≤ 1) (htasks : ran.deleted.tasks ≤ 1) : ran.audit = .ok () := by
  rw [PurgeRan.audit, if_neg (by omega), if_neg (by omega), if_neg (by omega)]
  rfl

/-- A purge that deleted what it read answers it. -/
theorem purgedRows_ok {ran : PurgeRan} {rows : UnitRows} {taskId : String}
    (hunit : ran.unit = some rows) (hdeleted : ran.deleted = rows) :
    purgedRows ran taskId = .ok rows := by
  unfold purgedRows
  rw [hunit, hdeleted]
  simp [QUEUE_TABLES]
  rfl

/-- A batch that won passes its audit, and its deletes removed what it counted. -/
theorem addUnitPurge_answers (hunused : Unused db seed) (unit : PurgeUnitBinds) (now : ℤ) :
    (addUnitPurge seed unit now db).audit = .ok () ∧
      (Purgeable db now unit → purgedRows (addUnitPurge seed unit now db) unit.taskId =
        .ok (db.unitRows unit.queue unit.taskId)) := by
  have hstamped := addUnitPurge_stamped db seed unit now
  have hunit := addUnitPurge_unit hunused unit now
  have hdeleted := addUnitPurge_deleted hunused unit now
  by_cases hpurgeable : Purgeable db now unit
  · rw [if_pos hpurgeable] at hstamped hunit hdeleted
    refine ⟨PurgeRan.audit_ok hstamped.le ?_ ?_, fun _ => purgedRows_ok hunit hdeleted⟩
    · rw [hdeleted]
      exact count_events db unit.queue _
    · rw [hdeleted, Db.unitRows]
  · rw [if_neg hpurgeable] at hstamped hdeleted
    refine ⟨PurgeRan.audit_ok (by omega) ?_ ?_, fun h => absurd h hpurgeable⟩
    · rw [hdeleted]
      exact Nat.zero_le 1
    · rw [hdeleted]
      exact Nat.zero_le 1

/-- What a purge answers, and what it leaves. -/
theorem purgeUnit_eq (hunused : Unused db seed) (queue : String) (target : PurgeUnitTarget)
    (policy : RetentionPolicy) :
    purgeUnit seed queue target policy now db =
      match retentionWindowsMs policy with
      | .error error => (.error (.policy error), db)
      | .ok _ =>
        match target.binds queue policy with
        | none => (.ok none, db)
        | some unit =>
          if Purgeable db now unit then
            (.ok (some (db.unitRows queue target.taskId)), db.without queue target.taskId)
          else (.ok none, db) := by
  unfold purgeUnit PurgeUnitTarget.binds
  cases hpolicy : retentionWindowsMs policy with
  | error error => rfl
  | ok windowsMs =>
    cases hparent : spawningParent (target.idempotencyKey.map Js.utf16) with
    | unknown => rfl
    | known parentTaskId =>
      dsimp only
      have hdb := addUnitPurge_db hunused
        ⟨queue, target.taskId, target.idempotencyKey, windowsMs, parentTaskId⟩ now
      have hstamped := addUnitPurge_stamped db seed
        ⟨queue, target.taskId, target.idempotencyKey, windowsMs, parentTaskId⟩ now
      obtain ⟨haudit, hrows⟩ := addUnitPurge_answers hunused
        ⟨queue, target.taskId, target.idempotencyKey, windowsMs, parentTaskId⟩ now
      rw [haudit, hdb, hstamped]
      split
      · rename_i hpurgeable
        rw [hrows hpurgeable]
        rfl
      · rfl

/-- A purge wins, and answers the rows of the unit it removed, or it leaves the tables as they were. -/
theorem purgeUnit_cases (hunused : Unused db seed) (queue : String) (target : PurgeUnitTarget)
    (policy : RetentionPolicy) (now : ℤ) :
    (∃ unit, target.binds queue policy = some unit ∧ Purgeable db now unit ∧
      purgeUnit seed queue target policy now db =
        (.ok (some (db.unitRows queue target.taskId)), db.without queue target.taskId)) ∨
      purgeUnit seed queue target policy now db = (.ok none, db) ∨
      ∃ error, retentionWindowsMs policy = .error error ∧
        purgeUnit seed queue target policy now db = (.error (.policy error), db) := by
  rw [purgeUnit_eq hunused]
  cases hpolicy : retentionWindowsMs policy with
  | error error => exact Or.inr (Or.inr ⟨error, rfl, rfl⟩)
  | ok windowsMs =>
    cases hbinds : target.binds queue policy with
    | none => exact Or.inr (Or.inl rfl)
    | some unit =>
      by_cases hpurgeable : Purgeable db now unit
      · exact Or.inl ⟨unit, rfl, hpurgeable, if_pos hpurgeable⟩
      · exact Or.inr (Or.inl (if_neg hpurgeable))

/-! ## The tables without a unit -/

section Without

variable {queue taskId : String}

/-- A purged store has every other task. -/
theorem mem_without_tasks {t : Task} :
    t ∈ (db.without queue taskId).tasks ↔ t ∈ db.tasks ∧ t.taskId ≠ taskId := Table.mem_delete

/-- A purged store has the runs of every other task. -/
theorem mem_without_runs {r : Run} :
    r ∈ (db.without queue taskId).runs ↔ r ∈ db.runs ∧ r.taskId ≠ taskId := Table.mem_delete

/-- A purged store has the waits of every other task's runs. -/
theorem mem_without_waits {w : Wait} :
    w ∈ (db.without queue taskId).waits ↔
      w ∈ db.waits ∧ ¬ ∃ r ∈ db.runs, r.taskId = taskId ∧ r.runId = w.runId := Table.mem_delete

/-- A purged store has every event but the task's completion. -/
theorem mem_without_events {e : Event} :
    e ∈ (db.without queue taskId).events ↔
      e ∈ db.events ∧ ¬ (e.queue = queue ∧ e.eventName = taskDoneEventName taskId) :=
  Table.mem_delete

/-- A purged store has the checkpoints of every other task. -/
theorem mem_without_checkpoints {c : Checkpoint} :
    c ∈ (db.without queue taskId).checkpoints ↔ c ∈ db.checkpoints ∧ c.taskId ≠ taskId :=
  Table.mem_delete

/-- The unit's wait is the wait of a run of its task. -/
theorem Held.unit_iff (h : Held db) {w : Wait} (hw : w ∈ db.waits) :
    (∃ r ∈ db.runs, r.taskId = taskId ∧ r.runId = w.runId) ↔ w.taskId = taskId := by
  constructor
  · rintro ⟨r, hr, hid, hw'⟩
    rw [← (h.parkedOn hw hr hw').taskId, hid]
  · intro hid
    obtain ⟨r, hr, hparked⟩ := (h w hw).parked
    exact ⟨r, hr, hparked.taskId.trans hid, hparked.runId⟩

/-- Another task's ordinals stay through a purge. -/
theorem Ordinals.without {top : ℤ} {id : String} (hne : id ≠ taskId) (h : Ordinals db id top) :
    Ordinals (db.without queue taskId) id top := by
  refine ⟨h.1, fun k => ?_⟩
  rw [← h.2 k]
  constructor
  · rintro ⟨r, hr, hid, hk⟩
    exact ⟨r, (mem_without_runs.mp hr).1, hid, hk⟩
  · rintro ⟨r, hr, hid, hk⟩
    exact ⟨r, mem_without_runs.mpr ⟨hr, hid ▸ hne⟩, hid, hk⟩

/-- Another task stays settled through a purge. -/
theorem Settled.without {t : Task} (hne : t.taskId ≠ taskId) (h : Settled db t) :
    Settled (db.without queue taskId) t where
  counted := h.counted
  band := by
    obtain ⟨top, hord, htop⟩ := h.band
    exact ⟨top, hord.without hne, htop⟩
  hasLive := by
    intro hl
    obtain ⟨r, hr, hid, hrl⟩ := h.hasLive hl
    exact ⟨r, mem_without_runs.mpr ⟨hr, hid ▸ hne⟩, hid, hrl⟩
  current := fun r hr => h.current r (mem_without_runs.mp hr).1

/-- What tells tasks apart stays through a purge. -/
theorem Units.without (h : Units db) : Units (db.without queue taskId) where
  owner := by
    intro r hr
    obtain ⟨hr, hne⟩ := mem_without_runs.mp hr
    obtain ⟨t, ht, hown⟩ := h.owner r hr
    exact ⟨t, mem_without_tasks.mpr ⟨ht, hown.1 ▸ hne⟩, hown⟩
  ordinal := fun r hr => h.ordinal r (mem_without_runs.mp hr).1
  settled := by
    intro t ht
    obtain ⟨ht, hne⟩ := mem_without_tasks.mp ht
    exact (h.settled t ht).without hne

/-- The checkpoints of the other tasks are there. -/
theorem hasCheckpoint_without {id : String} (hne : id ≠ taskId) (P : Checkpoint → Prop) :
    (∃ c ∈ (db.without queue taskId).checkpoints, c.taskId = id ∧ P c) ↔
      ∃ c ∈ db.checkpoints, c.taskId = id ∧ P c := by
  constructor
  · rintro ⟨c, hc, hid, hP⟩
    exact ⟨c, (mem_without_checkpoints.mp hc).1, hid, hP⟩
  · rintro ⟨c, hc, hid, hP⟩
    exact ⟨c, mem_without_checkpoints.mpr ⟨hc, hid ▸ hne⟩, hid, hP⟩

/-- Another task's saga began or did not, through a purge. -/
theorem sagaBegan_without {id : String} (hne : id ≠ taskId) :
    sagaBegan (db.without queue taskId) id ↔ sagaBegan db id := hasCheckpoint_without hne _

/-- Another task stays in its phase through a purge. -/
theorem InPhase.without {t : Task} (hne : t.taskId ≠ taskId) (h : InPhase db t) :
    InPhase (db.without queue taskId) t where
  completed := fun hs => mt (sagaBegan_without hne).mp (h.completed hs)
  failed := fun hs hsaga r hr =>
    h.failed hs (mt (sagaBegan_without hne).mpr hsaga) r (mem_without_runs.mp hr).1
  owed := by
    intro hs hsaga hstarted
    obtain ⟨r, hr, hid, hmax⟩ := h.owed hs (mt (sagaBegan_without hne).mpr hsaga)
      ((hasCheckpoint_without hne _).mp hstarted)
    exact ⟨r, mem_without_runs.mpr ⟨hr, hid ▸ hne⟩, hid, hmax⟩
  spent := fun hl hsaga => h.spent hl ((sagaBegan_without hne).mp hsaga)

/-- Every task stays in its phase through a purge. -/
theorem Phased.without (h : Phased db) : Phased (db.without queue taskId) where
  owner := by
    intro c hc
    obtain ⟨hc, hne⟩ := mem_without_checkpoints.mp hc
    obtain ⟨t, ht, hid⟩ := h.owner c hc
    exact ⟨t, mem_without_tasks.mpr ⟨ht, hid ▸ hne⟩, hid⟩
  marker := by
    intro c hc hname
    obtain ⟨hc, hne⟩ := mem_without_checkpoints.mp hc
    exact (sagaBegan_without hne).mpr (h.marker c hc hname)
  tasks := by
    intro t ht
    obtain ⟨ht, hne⟩ := mem_without_tasks.mp ht
    exact (h.tasks t ht).without hne

/-- The invariant of the store holds of the tables without a unit. -/
theorem Inv.without (h : Inv db) : Inv (db.without queue taskId) where
  toUnits := h.toUnits.without
  mirror := fun r hr t ht => h.mirror r (mem_without_runs.mp hr).1 t (mem_without_tasks.mp ht).1
  held := by
    intro w hw
    obtain ⟨hw, hother⟩ := mem_without_waits.mp hw
    obtain ⟨⟨r, hr, hparked⟩, htimeout⟩ := h.held w hw
    refine ⟨⟨r, mem_without_runs.mpr ⟨hr, fun hid => ?_⟩, hparked⟩, htimeout⟩
    exact hother ⟨r, hr, hid, hparked.runId⟩
  stamped := ⟨fun r hr => h.stamped.runs r (mem_without_runs.mp hr).1,
    fun t ht => h.stamped.tasks t (mem_without_tasks.mp ht).1⟩
  phased := h.phased.without
  quiet := by
    rintro w hw ⟨e, he, hkey⟩
    exact h.quiet w (mem_without_waits.mp hw).1 ⟨e, (mem_without_events.mp he).1, hkey⟩
  recorded := by
    intro t ht hl
    obtain ⟨ht, hne⟩ := mem_without_tasks.mp ht
    obtain ⟨e, he, hqueue, hname⟩ := h.recorded t ht hl
    refine ⟨e, mem_without_events.mpr ⟨he, fun hgone => hne ?_⟩, hqueue, hname⟩
    exact taskDoneEventName_inj (hname.symm.trans hgone.2)

/-- A seed that is on no row is on none after a purge. -/
theorem Unused.without (h : Unused db seed) : Unused (db.without queue taskId) seed :=
  ⟨fun r hr => h.runs r (mem_without_runs.mp hr).1,
    fun t ht => h.tasks t (mem_without_tasks.mp ht).1⟩

end Without

end Durablerun
