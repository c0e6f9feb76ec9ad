import Durablerun.Store.Ended
import Durablerun.Store.Checkpoints

/-!
# Results are final

`getTaskResult` reads a task's outcome columns and derives its rollback outcome from the checkpoints.
The columns say how the task ended, no batch touches a unit that ended, and the record the rollback
error is read from is the one the batch that ended the task wrote; so what is answered once is
answered ever after, until a revival.

Reference: `packages/store-libsql/src/store.ts`.
-/

namespace Durablerun

open Relational

variable {again : Batch → Db → Prop} {s s' : Sys} {b : Batch} {seed : String} {now : ℤ} {db db' : Db}
  {seen : Db → Prop} {call : Call} {t t' : Task} {decodeTry : String → Option RollbackTry}

/-! ## The saga of a task that ended -/

/-- With the same checkpoints, a rollback is pending or is not. -/
theorem SameCheckpoints.rollbackPending {taskId : String} (h : SameCheckpoints db db' taskId) :
    rollbackPending db' taskId ↔ rollbackPending db taskId := by
  simp only [rollbackPending_iff, h.hasCheckpoint]

/-! ## The read -/

/-- A row whose columns say how it ended is read. -/
theorem Task.Told.decodes (h : t.Told) : decodeTaskResult t = .ok (readTaskResult t) := by
  have hnone : contradictionsOf t.state t.completedPayload t.failureReason = [] := by
    have hwithout : ¬ (t.state = .completed ∧ t.completedPayload.isNone) :=
      fun ⟨hs, hpayload⟩ => h.payload.mpr hs (Option.isNone_iff_eq_none.mp hpayload)
    have hother : ¬ (t.state ≠ .completed ∧ t.completedPayload.isSome) :=
      fun ⟨hs, hpayload⟩ => hs (h.payload.mp (Option.isSome_iff_ne_none.mp hpayload))
    have hsilent : ¬ (t.state.Reasoned ∧ t.failureReason.isNone) :=
      fun ⟨hs, hreason⟩ => h.reason.mpr hs (Option.isNone_iff_eq_none.mp hreason)
    have hreasoned : ¬ (¬ t.state.Reasoned ∧ t.failureReason.isSome) :=
      fun ⟨hs, hreason⟩ => hs (h.reason.mp (Option.isSome_iff_ne_none.mp hreason))
    unfold contradictionsOf
    rw [if_neg hwithout, if_neg hother, if_neg hsilent, if_neg hreasoned]
    rfl
  unfold decodeTaskResult readTaskResult
  simp only [hnone]

/-- The answer of `getTaskResult` about a task. -/
def answerOf (decodeTry : String → Option RollbackTry) (db : Db) (t : Task) : TaskResult :=
  { readTaskResult t with
    rollback := decodeRollbackOutcome decodeTry (rollbackOutcome db t) (rollbackError db t) }

/-- `getTaskResult` answers about the task of the id, when it is of the queue. -/
theorem getTaskResult_of_mem (ht : t ∈ db.tasks) (htold : t.Told) :
    getTaskResult decodeTry db t.queue t.taskId = .ok (some (answerOf decodeTry db t)) := by
  have hfind : db.tasks.rows.find? (fun u => u.taskId = t.taskId ∧ u.queue = t.queue) = some t := by
    refine Table.find?_eq_some_of_unique ht (by simp) fun u hu hp => ?_
    simp only [decide_eq_true_eq] at hp
    exact db.task_unique hu ht hp.1
  simp only [getTaskResult, hfind, htold.decodes]
  rfl

/-- An answer is about a task. -/
theorem getTaskResult_eq_ok (htold : ∀ t ∈ db.tasks, t.Told) {queue taskId : String}
    {result : TaskResult} (h : getTaskResult decodeTry db queue taskId = .ok (some result)) :
    ∃ t ∈ db.tasks, t.taskId = taskId ∧ t.queue = queue ∧ result = answerOf decodeTry db t := by
  unfold getTaskResult at h
  split at h
  · cases h
  · rename_i t hfind
    have hp := List.find?_some hfind
    simp only [decide_eq_true_eq] at hp
    have ht : t ∈ db.tasks := List.mem_of_find?_eq_some hfind
    refine ⟨t, ht, hp.1, hp.2, ?_⟩
    rw [(htold t ht).decodes] at h
    exact (Option.some.inj (Except.ok.inj h)).symm

/-! ## Attempt records -/

/-- Only a failed rollback's batch writes an attempt record. -/
theorem Checkpoint.Write.record {f : Run} {write : CheckpointWrite}
    (hw : Checkpoint.Write seed now db db' call f write)
    (hname : namedUnder write.key SAGA_TRIES_PREFIX) : f ∈ db.runs ∧ ∃ failure rollback,
      call = .failInto failure ∧ failGuard db now failure f ∧ failure.rollback = some rollback ∧
        write = rollback.tried := by
  cases hw with
  | suspended _ hg => exact absurd (Or.inr hname) hg.2.2.2.2.2.2.2
  | leased _ hg => exact absurd (Or.inr hname) hg.2.2.2.2.2.2.2
  | tried hr hg hrollback => exact ⟨hr, _, _, rfl, hg, hrollback, rfl⟩
  | entered => exact absurd rfl hname.ne_phase

/-- The delivery took the run `f` for a failed rollback, and wrote the attempt's record `c`. -/
structure Delivery.Records (e : Delivery) (failure : Failure) (rollback : RollbackFailure) (f : Run)
    (c : Checkpoint) : Prop where
  call : e.batch.call = .failInto failure
  carried : failure.rollback = some rollback
  went : ∃ out, e.batch.run e.now e.before = some out ∧ out.db = e.after
  run : f ∈ e.before.runs
  guard : failGuard e.before e.now failure f
  written : WrittenBy f rollback.tried c

/-- The batch won, and the run is there failed. -/
theorem Delivery.Records.failed {e : Delivery} {failure : Failure} {rollback : RollbackFailure}
    {f : Run} {c : Checkpoint} (h : e.Records failure rollback f c) :
    e.Wins ∧ ∃ r ∈ e.after.runs, r.runId = c.ownerRunId ∧ ¬ r.state.Live := by
  obtain ⟨out, hrun, hafter⟩ := h.went
  obtain ⟨⟨seed, call⟩, now, db, after⟩ := e
  obtain rfl : call = .failInto failure := h.call
  obtain ⟨hfailed, hwon⟩ := failInto_failed hrun h.run h.guard
  rw [hafter] at hfailed
  exact ⟨⟨out, hrun, by simp [hwon]⟩, _, hfailed, h.written.ownerRunId.symm, id⟩

/-- An attempt record a delivery leaves was there, or the delivery wrote it. -/
theorem Delivers.record_before (h : Delivers s b now) {c : Checkpoint}
    (hc : c ∈ (b.after now s.db).checkpoints) (hname : namedUnder c.checkpointName SAGA_TRIES_PREFIX) :
    c ∈ s.db.checkpoints ∨ ∃ failure rollback f, (s.delivery b now).Records failure rollback f c := by
  obtain hafter | ⟨out, hrun, hafter⟩ := b.after_cases now s.db
  · exact Or.inl (hafter ▸ hc)
  · have hnew : ∀ f write, Checkpoint.Write b.seed now s.db (b.after now s.db) b.call f write →
        WrittenBy f write c →
          ∃ failure rollback f, (s.delivery b now).Records failure rollback f c := by
      intro f write hw hwritten
      obtain ⟨hf, failure, rollback, hcall, hg, hrollback, rfl⟩ :=
        hw.record (hwritten.checkpointName ▸ hname)
      exact ⟨failure, rollback, f, hcall, hrollback, ⟨out, hrun, hafter.symm⟩, hf, hg, hwritten⟩
    obtain ⟨c₀, hc₀, rfl | ⟨f, write, hw, hwritten, _⟩⟩ | ⟨f, write, hw, hwritten, _⟩ :=
      h.effect.checkpoints.before c hc
    · exact Or.inl hc₀
    · exact Or.inr (hnew f write hw hwritten)
    · exact Or.inr (hnew f write hw hwritten)

/-- The run that wrote an attempt record ended with it, and wrote no other. -/
structure Recorded (db : Db) (c : Checkpoint) : Prop where
  owner : ∃ r ∈ db.runs, r.runId = c.ownerRunId ∧ ¬ r.state.Live
  alone : ∀ c' ∈ db.checkpoints, namedUnder c'.checkpointName SAGA_TRIES_PREFIX →
    c'.ownerRunId = c.ownerRunId → c' = c

/-- Every attempt record is its run's one record. -/
def Records (db : Db) : Prop :=
  ∀ c ∈ db.checkpoints, namedUnder c.checkpointName SAGA_TRIES_PREFIX → Recorded db c

/-- A record that is written is of a run that no record was of. -/
theorem Records.fresh (h : Records db) {c : Checkpoint} (hc : c ∈ db.checkpoints)
    (hname : namedUnder c.checkpointName SAGA_TRIES_PREFIX) {f : Run} (hf : f ∈ db.runs)
    (hl : f.state.Live) : c.ownerRunId ≠ f.runId := by
  obtain ⟨r, hr, hid, hended⟩ := (h c hc hname).owner
  intro heq
  rw [db.run_unique hr hf (hid.trans heq)] at hended
  exact hended hl

/-- A delivery keeps every attempt record its run's one record. -/
theorem Records.delivers (h : Delivers s b now) (hrecords : Records s.db) :
    Records (b.after now s.db) := by
  have hlive : ∀ {failure rollback f c}, (s.delivery b now).Records failure rollback f c →
      f.state.Live := fun hnew => by simp [hnew.guard.1.running]
  intro c hc hname
  constructor
  · obtain hold | ⟨failure, rollback, f, hnew⟩ := h.record_before hc hname
    · obtain ⟨r, hr, hid, hended⟩ := (hrecords c hold hname).owner
      exact ⟨r, h.effect.mem_ended hr hended, hid, hended⟩
    · exact hnew.failed.2
  · intro c' hc' hname' howner
    obtain hold | ⟨failure, rollback, f, hnew⟩ := h.record_before hc hname <;>
      obtain hold' | ⟨failure', rollback', f', hnew'⟩ := h.record_before hc' hname'
    · exact (hrecords c hold hname).alone c' hold' hname' howner
    · exact absurd (howner.symm.trans hnew'.written.ownerRunId)
        (hrecords.fresh hold hname hnew'.run (hlive hnew'))
    · exact absurd (howner.trans hnew.written.ownerRunId)
        (hrecords.fresh hold' hname' hnew.run (hlive hnew))
    · obtain rfl := Call.failInto.inj (hnew.call.symm.trans hnew'.call)
      obtain rfl := Option.some.inj (hnew.carried.symm.trans hnew'.carried)
      obtain rfl := s.db.run_unique hnew.run hnew'.run
        (hnew.guard.1.1.trans hnew'.guard.1.1.symm)
      exact Table.eq_of_key hc' hc (k := (f.taskId, rollback.tried.key))
        (by simp [Checkpoint.keys, hnew'.written.taskId, hnew'.written.checkpointName])
        (by simp [Checkpoint.keys, hnew.written.taskId, hnew.written.checkpointName])

/-- Every attempt record that a run of the store reaches is its run's one record. -/
theorem Reachable.records (h : Reachable again s)
    (hagain : ∀ b db, again b db → b.call.Repeatable) : Records s.db :=
  h.induct (P := fun s => Records s.db) hagain (fun c hc => absurd hc (Table.not_mem_empty c))
    fun _ _ _ hd hrecords => hrecords.delivers hd

/-- The rollback error of a task is the text of the record its last run wrote. -/
theorem Records.rollbackError_eq_some (h : Records db) {text : String} :
    rollbackError db t = some text ↔
      ∃ c ∈ db.checkpoints, lastRunRecord t c ∧ c.state = text := by
  unfold rollbackError
  rw [Option.map_eq_some_iff]
  constructor
  · rintro ⟨c, hfind, htext⟩
    have hlast := List.find?_some hfind
    exact ⟨c, List.mem_of_find?_eq_some hfind, of_decide_eq_true hlast, htext⟩
  · rintro ⟨c, hc, hlast, htext⟩
    refine ⟨c, Table.find?_eq_some_of_unique hc (decide_eq_true hlast) fun c' hc' hlast' => ?_, htext⟩
    have hlast' := of_decide_eq_true hlast'
    refine (h c hc (rangeUnder_tries.mp hlast.2.1)).alone c' hc' (rangeUnder_tries.mp hlast'.2.1) ?_
    exact Option.some.inj (hlast'.2.2.symm.trans hlast.2.2)

/-- The answer about a task whose unit was kept is the one that was given. -/
theorem UnitKept.answerOf (hkept : UnitKept db db' t) (h : Records db) (h' : Records db') :
    answerOf decodeTry db' t = answerOf decodeTry db t := by
  have hsame := hkept.checkpoints
  have herror : rollbackError db' t = rollbackError db t := by
    refine Option.ext fun text => ?_
    rw [h'.rollbackError_eq_some, h.rollbackError_eq_some]
    constructor
    · rintro ⟨c, hc, hlast, htext⟩
      exact ⟨c, (hsame c hlast.1).mp hc, hlast, htext⟩
    · rintro ⟨c, hc, hlast, htext⟩
      exact ⟨c, (hsame c hlast.1).mpr hc, hlast, htext⟩
  have houtcome : rollbackOutcome db' t = rollbackOutcome db t := by
    unfold rollbackOutcome
    simp only [hsame.sagaBegan, hsame.rollbackPending]
  unfold Durablerun.answerOf
  rw [herror, houtcome]

/-! ## The batch that ended a task -/

/-- The delivery failed a rollback for good: it wrote the attempt's record, `record`, and ended the
task. -/
def Delivery.Halts (e : Delivery) (taskId record : String) : Prop :=
  e.Wins ∧ e.Ends taskId ∧ ∃ failure rollback, e.batch.call = .failInto failure ∧
    failure.rollback = some rollback ∧ rollback.tried.stateJson = record

/-- The task is there, it ended in its saga, and its last run wrote this record; and a rollback is
still owed, where one was. -/
def HaltedBy (db : Db) (taskId record : String) (owed : Prop) : Prop :=
  ∃ t ∈ db.tasks, t.taskId = taskId ∧ (¬ t.state.Live ∧ sagaBegan db taskId) ∧
    (∃ c ∈ db.checkpoints, lastRunRecord t c ∧ c.state = record) ∧
    (owed → rollbackPending db taskId)

/-- A record of a task's last run is of the batch that ended the task. -/
theorem Delivers.halts (h : Delivers s b now) (hlast : LastRun s.db)
    (hlast' : LastRun (b.after now s.db)) (hrecords : Records s.db) {c : Checkpoint}
    (ht' : t' ∈ (b.after now s.db).tasks) (hc : c ∈ (b.after now s.db).checkpoints)
    (hlastRun : lastRunRecord t' c) :
    (t' ∈ s.db.tasks ∧ c ∈ s.db.checkpoints) ∨ (s.delivery b now).Halts t'.taskId c.state := by
  have hrecords' := hrecords.delivers h
  have hname := rangeUnder_tries.mp hlastRun.2.1
  -- The run that wrote the record ended with it, so the task it is the last run of has ended.
  have hended : ¬ t'.state.Live := by
    intro hl
    obtain ⟨r, hr, hid, hended⟩ := (hrecords' c hc hname).owner
    exact hlast'.ne_ended h.inv ht' hl hr hended (hid ▸ hlastRun.2.2)
  obtain ⟨t, ht, hmoved⟩ | hborn := h.effect.tasks.before t' ht'
  · obtain hold | ⟨failure, rollback, f, hnew⟩ := h.record_before hc hname
    · obtain hl | rfl := hmoved.ended hended
      · obtain ⟨r, hr, hid, hended'⟩ := (hrecords c hold hname).owner
        have hsame : t'.lastAttemptRun = t.lastAttemptRun := hmoved.ended_last ht hl hended
        exact absurd (hsame.symm.trans (hid ▸ hlastRun.2.2))
          (hlast.ne_ended h.course.inv ht hl hr hended')
      · exact Or.inl ⟨ht, hold⟩
    · have hid : f.taskId = t.taskId :=
        hnew.written.taskId.symm.trans (hlastRun.1.trans hmoved.same.taskId)
      have hl : t.state.Live :=
        h.course.inv.toUnits.live hnew.run ht hid (by simp [hnew.guard.1.running])
      exact Or.inr ⟨hnew.failed.1, ⟨⟨t, ht, hmoved.same.taskId.symm, hl⟩, t', ht', rfl, hended⟩,
        failure, rollback, hnew.call, hnew.carried, hnew.written.state.symm⟩
  · cases hborn.last.symm.trans hlastRun.2.2

/-- The record of a task's last run is one that ended the task, in every reachable state. -/
theorem Reachable.halted (h : Reachable again s)
    (hagain : ∀ b db, again b db → b.call.Repeatable) : ∀ t ∈ s.db.tasks, ∀ c ∈ s.db.checkpoints,
    lastRunRecord t c → ∃ e ∈ s.history, e.Halts t.taskId c.state := by
  have hstep := h.induct (P := fun s => (LastRun s.db ∧ Records s.db) ∧ ∀ t ∈ s.db.tasks,
    ∀ c ∈ s.db.checkpoints, lastRunRecord t c → ∃ e ∈ s.history, e.Halts t.taskId c.state) hagain
    ⟨⟨fun t ht => absurd ht (Table.not_mem_empty t), fun c hc => absurd hc (Table.not_mem_empty c)⟩,
      fun t ht => absurd ht (Table.not_mem_empty t)⟩ ?_
  · exact hstep.2
  rintro s b now hd ⟨⟨hlast, hrecords⟩, ih⟩
  have hlast' : LastRun (b.after now s.db) := hlast.effect hd.course.inv hd.inv hd.effect
  refine ⟨⟨hlast', hrecords.delivers hd⟩, fun t ht c hc hlastRun => ?_⟩
  obtain ⟨ht₀, hc₀⟩ | hhalts := hd.halts hlast hlast' hrecords ht hc hlastRun
  · obtain ⟨e, he, hhalts⟩ := ih t ht₀ c hc₀ hlastRun
    exact ⟨e, List.mem_cons_of_mem _ he, hhalts⟩
  · exact ⟨_, List.mem_cons_self, hhalts⟩

/-- A failure batch ends only the task of the run it takes. -/
theorem Delivers.ends_taken {failure : Failure} (h : Delivers s b now)
    (hcall : b.call = .failInto failure) (ht : t ∈ s.db.tasks) (hl : t.state.Live)
    (ht' : t' ∈ (b.after now s.db).tasks) (hid : t'.taskId = t.taskId) (hended : ¬ t'.state.Live) :
    ∃ r ∈ s.db.runs, r.taskId = t.taskId ∧ failGuard s.db now failure r := by
  obtain ⟨r, hr, hrid, hlr⟩ := (h.course.inv.settled t ht).hasLive hl
  obtain ⟨seed, call⟩ := b
  obtain rfl : call = .failInto failure := hcall
  obtain ⟨r', hr', rfl | hm⟩ := h.effect.runs.after r hr
  · exact absurd hlr (h.inv.toCore.not_live hr' ht' (hrid.trans hid.symm) hended)
  · have hnot : ¬ r'.state.Live :=
      h.inv.toCore.not_live hr' ht' (hm.same.taskId.trans (hrid.trans hid.symm)) hended
    cases hm with
    | failed hg => exact ⟨r, hr, hrid, hg⟩
    | woken => exact absurd trivial hnot

/-- A checkpoint's name stays. -/
theorem Effect.sagaBegan (h : Effect seed now db db' call) {taskId : String}
    (hsaga : sagaBegan db taskId) : Durablerun.sagaBegan db' taskId := by
  obtain ⟨c, hc, hid, hname⟩ := hsaga
  obtain ⟨c', hc', hid', hname', _⟩ := h.ownersRise c hc
  exact ⟨c', hc', hid'.trans hid, hname'.trans hname⟩

/-- A failure batch writes no rollback's checkpoint: what was owed is owed still. -/
theorem Delivers.still_owed {failure : Failure} {taskId : String} (h : Delivers s b now)
    (hcall : b.call = .failInto failure) (howed : rollbackPending s.db taskId) :
    rollbackPending (b.after now s.db) taskId := by
  obtain ⟨key, ⟨c, hc, hid, hname⟩, hno⟩ := rollbackPending_iff.mp howed
  obtain ⟨c', hc', hid', hname', _⟩ := h.effect.ownersRise c hc
  refine rollbackPending_iff.mpr ⟨key, ⟨c', hc', hid'.trans hid, hname'.trans hname⟩, ?_⟩
  rintro ⟨d, hd, hdid, hdname⟩
  have hunwritten : ∀ f write, Checkpoint.Write b.seed now s.db (b.after now s.db) b.call f write →
      ¬ WrittenBy f write d := by
    intro f write hw hwritten
    have hkey : write.key = SAGA_ROLLBACK_PREFIX ++ key :=
      hwritten.checkpointName.symm.trans hdname
    have hnamed : namedUnder write.key SAGA_ROLLBACK_PREFIX := (namedUnder_iff).mpr ⟨key, hkey⟩
    have hadm := h.admitted
    rw [hcall] at hw hadm
    cases hw with
    | tried _ _ hrollback => exact hnamed.not_tries (hadm.1 _ hrollback).2
    | entered =>
      have hphase : namedUnder SAGA_PHASE_CHECKPOINT SAGA_ROLLBACK_PREFIX := hnamed
      exact absurd hphase (by decide)
  obtain ⟨d₀, hd₀, rfl | ⟨f, write, hw, hwritten, _⟩⟩ | ⟨f, write, hw, hwritten, _⟩ :=
    h.effect.checkpoints.before d hd
  · exact hno ⟨d, hd₀, hdid, hdname⟩
  · exact hunwritten f write hw hwritten
  · exact hunwritten f write hw hwritten

/-- The batch that failed a rollback for good leaves its record as that of the task's last run. -/
theorem Delivers.haltedBy (h : Delivers s b now) (hlast : LastRun s.db)
    (howner : ∀ c ∈ s.db.checkpoints, OwnerThere s.db c) {taskId record : String}
    (hhalts : (s.delivery b now).Halts taskId record) :
    HaltedBy (b.after now s.db) taskId record (rollbackPending s.db taskId) := by
  obtain ⟨⟨out, hrun, hwon⟩, ⟨⟨t, ht, htid, hl⟩, t', ht', hid', hended⟩, failure, rollback, hcall,
    hrollback, rfl⟩ := hhalts
  have hrun : b.run now s.db = some out := hrun
  have hcall : b.call = .failInto failure := hcall
  have hid : t'.taskId = t.taskId := hid'.trans htid.symm
  obtain ⟨q, hq, hqid, hg⟩ := h.ends_taken hcall ht hl ht' hid hended
  have hwrites : b.call.writes = some (failure.claim, rollback.tried) := by
    rw [hcall]
    simp [Call.writes, hrollback]
  obtain ⟨r, hr, hheld, c, hc, hwritten⟩ := Batch.written h.course.inv howner hwrites hrun hwon
  obtain rfl : q = r := s.db.run_unique hq hr (hg.1.1.trans hheld.1.symm)
  have hafter : b.after now s.db = out.db := by
    unfold Batch.after
    rw [hrun]
    rfl
  have hmarked : namedUnder rollback.tried.key SAGA_TRIES_PREFIX := by
    have hadm := h.admitted
    rw [hcall] at hadm
    exact (hadm.1 rollback hrollback).2
  have hnames : t'.lastAttemptRun = some q.runId := by
    obtain ⟨u, hu, hmoved⟩ := h.effect.tasks.after t ht
    obtain rfl : u = t' := Db.task_unique hu ht' (hmoved.same.taskId.trans hid.symm)
    rw [hmoved.ended_last ht hl hended]
    exact (hlast t ht q hq hqid (by simp [hg.1.running])).resolve_right fun hnone =>
      hnone.2 hg.1.running
  refine ⟨t', ht', hid', ⟨hended, ?_⟩, ⟨c, hafter ▸ hc, ⟨?_, ?_, ?_⟩, hwritten.state⟩,
    h.still_owed hcall⟩
  · rw [← htid, ← hqid]
    exact h.effect.sagaBegan (hg.2.2 (by simp [hrollback]))
  · exact hwritten.taskId.trans (hqid.trans hid.symm)
  · rw [hwritten.checkpointName]
    exact rangeUnder_tries.mpr hmarked
  · rw [hnames, hwritten.ownerRunId]

/-- A task that was halted stays halted by the same record. -/
theorem HaltedBy.delivers {taskId record : String} {owed : Prop} (h : Delivers s b now)
    (hhalted : HaltedBy s.db taskId record owed) :
    HaltedBy (b.after now s.db) taskId record owed := by
  obtain ⟨t, ht, rfl, ⟨hended, hsaga⟩, ⟨c, hc, hlast, htext⟩, howed⟩ := hhalted
  have hkept : t ∈ (b.after now s.db).tasks :=
    (h.meets.kept_or_revives ht hended).resolve_right fun hrevives =>
      (hrevives.admits h.course.inv ht).2 hsaga
  have hsame := h.effect.sameCheckpoints h.course.inv ht hended
  exact ⟨t, hkept, rfl, ⟨hended, hsame.sagaBegan.mpr hsaga⟩,
    ⟨c, (hsame c hlast.1).mpr hc, hlast, htext⟩, fun h => hsame.rollbackPending.mpr (howed h)⟩

/-- A task that a failed rollback ended is halted by that rollback's record ever after. -/
theorem Reachable.haltedBy (h : Reachable again s)
    (hagain : ∀ b db, again b db → b.call.Repeatable) : ∀ e ∈ s.history, ∀ taskId record,
    e.Halts taskId record → HaltedBy s.db taskId record (rollbackPending e.before taskId) := by
  have hstep := h.induct (P := fun s => (LastRun s.db ∧ ∀ c ∈ s.db.checkpoints, OwnerThere s.db c) ∧
    ∀ e ∈ s.history, ∀ taskId record, e.Halts taskId record →
      HaltedBy s.db taskId record (rollbackPending e.before taskId)) hagain
    ⟨⟨fun t ht => absurd ht (Table.not_mem_empty t), fun c hc => absurd hc (Table.not_mem_empty c)⟩,
      fun e he => absurd he List.not_mem_nil⟩ ?_
  · exact hstep.2
  rintro s b now hd ⟨⟨hlast, howner⟩, ih⟩
  refine ⟨⟨hlast.effect hd.course.inv hd.inv hd.effect, hd.effect.ownerThere hd.inv howner⟩, ?_⟩
  intro e he taskId record hhalts
  obtain rfl | he := List.mem_cons.mp he
  · exact hd.haltedBy hlast howner hhalts
  · exact .delivers hd (ih e he taskId record hhalts)

/-! ## The saga had begun when the task ended -/

/-- A batch that ends a task does not begin its saga. -/
theorem Batch.Meets.began_before (h : b.Meets seen now db) (ht' : t' ∈ (b.after now db).tasks)
    (hended : ¬ t'.state.Live) (hsaga : sagaBegan (b.after now db) t'.taskId) :
    sagaBegan db t'.taskId := by
  obtain ⟨c, hc, hid, hname⟩ := hsaga
  have hmarker : ∀ f write, Checkpoint.Write b.seed now db (b.after now db) b.call f write →
      WrittenBy f write c → sagaBegan db t'.taskId := by
    intro f write hw hwritten
    have hkey : write.key = SAGA_PHASE_CHECKPOINT := hwritten.checkpointName.symm.trans hname
    have hadm := h.admitted
    generalize b.call = call at hw hadm
    cases hw with
    | suspended _ hg => exact absurd (Or.inl hkey) hg.2.2.2.2.2.2.2
    | leased _ hg => exact absurd (Or.inl hkey) hg.2.2.2.2.2.2.2
    | tried _ _ hrollback => exact absurd hkey (hadm.1 _ hrollback).2.ne_phase
    | entered hp hborn hplaces =>
      -- The pass that enters the saga is live, so its task has not ended.
      have hlive : f.state.Live := by
        cases hborn with
        | first | revived => exact hplaces.elim
        | followed _ _ _ hq => exact hq.live
      exact absurd hlive
        (h.inv.toCore.not_live hp ht' (hwritten.taskId.symm.trans hid) hended)
  obtain ⟨c₀, hc₀, rfl | ⟨f, write, hw, hwritten, _⟩⟩ | ⟨f, write, hw, hwritten, _⟩ :=
    h.effect.checkpoints.before c hc
  · exact ⟨c, hc₀, hid, hname⟩
  · exact hmarker f write hw hwritten
  · exact hmarker f write hw hwritten

/-- The delivery ended the task, whose saga had begun. -/
def Delivery.EndsSaga (e : Delivery) (taskId : String) : Prop :=
  e.Ends taskId ∧ sagaBegan e.before taskId

/-- The task is there, it ended, and its saga began. -/
def EndedInSaga (db : Db) (taskId : String) : Prop :=
  ∃ t ∈ db.tasks, t.taskId = taskId ∧ ¬ t.state.Live ∧ sagaBegan db taskId

/-- A task that has ended, and whose saga began, ended in its saga; and it has ended ever after. -/
theorem Reachable.endedInSaga (h : Reachable again s)
    (hagain : ∀ b db, again b db → b.call.Repeatable) (taskId : String) :
    EndedInSaga s.db taskId ↔ ∃ e ∈ s.history, e.EndsSaga taskId := by
  refine h.induct (P := fun s => EndedInSaga s.db taskId ↔ ∃ e ∈ s.history, e.EndsSaga taskId) hagain
    ⟨fun ⟨t, ht, _⟩ => absurd ht (Table.not_mem_empty t), fun ⟨e, he, _⟩ => absurd he List.not_mem_nil⟩
    fun s b now hd ih => ?_
  constructor
  · rintro ⟨t', ht', rfl, hended, hsaga⟩
    have hbegan := hd.meets.began_before ht' hended hsaga
    obtain ⟨t, ht, hmoved⟩ | hborn := hd.effect.tasks.before t' ht'
    · obtain hl | rfl := hmoved.ended hended
      · rw [hmoved.same.taskId] at hbegan ⊢
        exact ⟨_, List.mem_cons_self, ⟨⟨t, ht, rfl, hl⟩, t', ht', hmoved.same.taskId, hended⟩, hbegan⟩
      · obtain ⟨e, he, hends⟩ := ih.mp ⟨t', ht, rfl, hended, hbegan⟩
        exact ⟨e, List.mem_cons_of_mem _ he, hends⟩
    · exact absurd hborn.live hended
  · rintro ⟨e, he, hends, hbegan⟩
    obtain rfl | he := List.mem_cons.mp he
    · obtain ⟨_, t', ht', rfl, hended⟩ := hends
      exact ⟨t', ht', rfl, hended, hd.effect.sagaBegan hbegan⟩
    · obtain ⟨t, ht, rfl, hended, hsaga⟩ := ih.mpr ⟨e, he, hends, hbegan⟩
      have hkept := (hd.meets.kept_or_revives ht hended).resolve_right fun hrevives =>
        (hrevives.admits hd.course.inv ht).2 hsaga
      exact ⟨t, hkept, rfl, hended, hd.effect.sagaBegan hsaga⟩

/-! ## Every answer -/

/-- The answers about ended tasks stand. -/
structure ResultsStand (again : Batch → Db → Prop) (decodeTry : String → Option RollbackTry)
    (s : Sys) : Prop where
  /-- The outcome columns say how each task ended. -/
  told : ∀ t ∈ s.db.tasks, t.Told
  /-- The read refuses no row. -/
  answers : ∀ queue taskId, ∃ answer, getTaskResult decodeTry s.db queue taskId = .ok answer
  /-- An ended task's answer is the answer of every later state, until a revival wins. -/
  stands : ∀ queue taskId result, getTaskResult decodeTry s.db queue taskId = .ok (some result) →
    ¬ result.state.Live → ∀ s' new, Later again s s' new → (∀ e ∈ new, ¬ e.Revives taskId) →
      getTaskResult decodeTry s'.db queue taskId = .ok (some result)
  /-- No revival wins of a task that completed, was cancelled, or was answered with a rollback. -/
  final : ∀ queue taskId result, getTaskResult decodeTry s.db queue taskId = .ok (some result) →
    ¬ result.state.Live → result.state ≠ .failed ∨ result.rollback ≠ none →
      ∀ s' new, Later again s s' new → ∀ e ∈ new, ¬ e.Revives taskId

/-- What the answer about a task says of its saga. -/
structure SagaTold (decodeTry : String → Option RollbackTry) (s : Sys) (taskId : String)
    (result : TaskResult) : Prop where
  /-- A rollback outcome is there when the task ended after its saga began. -/
  present : result.rollback ≠ none ↔ ∃ e ∈ s.history, e.EndsSaga taskId
  /-- It is complete when every step that started was rolled back. -/
  complete : ∀ rollback ∈ result.rollback, (rollback.outcome = .complete ↔
    ∀ key, HasCheckpoint s.db taskId (SAGA_STARTED_PREFIX ++ key) →
      HasCheckpoint s.db taskId (SAGA_ROLLBACK_PREFIX ++ key))
  /-- The rollback that halted the saga is the error of a failed outcome. -/
  halted : ∀ e ∈ s.history, ∀ record, e.Halts taskId record → ∃ rollback ∈ result.rollback,
    (rollbackPending e.before taskId → rollback.outcome = .failed) ∧
      (rollback.outcome = .failed →
        rollback.errorJson = (decodeTry record).map RollbackTry.errorJson)
  /-- An error is the record of a rollback that halted the saga. -/
  error : ∀ rollback ∈ result.rollback, rollback.errorJson ≠ none →
    ∃ e ∈ s.history, ∃ record, e.Halts taskId record ∧
      rollback.errorJson = (decodeTry record).map RollbackTry.errorJson

/-- A task has a rollback outcome where it ended and a saga began. -/
theorem rollbackOutcome_ne_none : rollbackOutcome db t ≠ none ↔
    ¬ t.state.Live ∧ sagaBegan db t.taskId := by
  unfold rollbackOutcome
  split
  · simp_all
  · simp_all

/-- What the answer tells of a rollback. -/
theorem answerOf_rollback {rollback : RollbackOutcome}
    (h : rollback ∈ (answerOf decodeTry db t).rollback) :
    (¬ t.state.Live ∧ sagaBegan db t.taskId) ∧
      (rollback.outcome = .complete ↔ ¬ rollbackPending db t.taskId) ∧
      (rollback.outcome = .complete → rollback.errorJson = none) ∧
      (rollback.outcome = .failed →
        rollback.errorJson = ((rollbackError db t).bind decodeTry).map RollbackTry.errorJson) := by
  obtain ⟨outcome, houtcome, rfl⟩ := Option.map_eq_some_iff.mp h
  unfold rollbackOutcome at houtcome
  split at houtcome
  · rename_i hended
    obtain rfl := Option.some.inj houtcome
    refine ⟨hended, ?_⟩
    split <;> simp_all
  · cases houtcome

/-- What the answer tells of every task's saga. -/
theorem Reachable.sagaTold (h : Reachable again s)
    (hagain : ∀ b db, again b db → b.call.Repeatable) (ht : t ∈ s.db.tasks) :
    SagaTold decodeTry s t.taskId (answerOf decodeTry s.db t) := by
  have hrecords := h.records hagain
  have hpresent : (answerOf decodeTry s.db t).rollback ≠ none ↔
      ¬ t.state.Live ∧ sagaBegan s.db t.taskId := by
    rw [← rollbackOutcome_ne_none]
    exact not_congr Option.map_eq_none_iff
  constructor
  · rw [hpresent, ← h.endedInSaga hagain]
    constructor
    · rintro ⟨hended, hsaga⟩
      exact ⟨t, ht, rfl, hended, hsaga⟩
    · rintro ⟨u, hu, hid, hended, hsaga⟩
      rw [s.db.task_unique hu ht hid] at hended
      exact ⟨hended, hsaga⟩
  · intro rollback hrollback
    rw [(answerOf_rollback hrollback).2.1, rollbackPending_iff]
    simp only [not_exists, not_and, not_not]
  · intro e he record hhalts
    obtain ⟨u, hu, hid, hended, ⟨c, hc, hlast, htext⟩, howed⟩ :=
      h.haltedBy hagain e he t.taskId record hhalts
    obtain rfl := s.db.task_unique hu ht hid
    obtain ⟨rollback, hrollback⟩ := Option.ne_none_iff_exists'.mp (hpresent.mpr hended)
    obtain ⟨_, hcomplete, _, herror⟩ := answerOf_rollback hrollback
    refine ⟨rollback, hrollback, fun hpending => ?_, fun hfailed => ?_⟩
    · cases hout : rollback.outcome with
      -- What the halt left owing stays owing, so a pending step tells of a failed rollback.
      | complete => exact absurd (howed hpending) (hcomplete.mp hout)
      | failed => rfl
    · rw [herror hfailed, hrecords.rollbackError_eq_some.mpr ⟨c, hc, hlast, htext⟩]
      rfl
  · intro rollback hrollback herror
    obtain ⟨_, _, hcomplete, hfailed⟩ := answerOf_rollback hrollback
    have hout : rollback.outcome = .failed := by
      cases hout : rollback.outcome with
      | complete => exact absurd (hcomplete hout) herror
      | failed => rfl
    -- An error is told only by a failed rollback, and it is the text of the last record.
    have htold := hfailed hout
    cases hrecord : rollbackError s.db t with
    | none =>
      rw [hrecord] at htold
      exact absurd htold herror
    | some record =>
      obtain ⟨c, hc, hlast, rfl⟩ := hrecords.rollbackError_eq_some.mp hrecord
      obtain ⟨e, he, hhalts⟩ := h.halted hagain t ht c hc hlast
      refine ⟨e, he, c.state, hhalts, ?_⟩
      rw [htold, hrecord]
      rfl

/-- In every reachable state the results read of ended tasks stand, and say how their sagas ended,
whatever reads the attempt records. -/
theorem reachable_results (decodeTry : String → Option RollbackTry) (h : Reachable Repeats s) :
    ResultsStand Repeats decodeTry s ∧ ∀ queue taskId result,
      getTaskResult decodeTry s.db queue taskId = .ok (some result) →
        SagaTold decodeTry s taskId result := by
  have hrepeats : ∀ b db, Repeats b db → b.call.Repeatable := fun _ _ hrepeats => hrepeats
  have htold := h.told hrepeats
  refine ⟨⟨htold, fun queue taskId => ?_, ?_, ?_⟩, ?_⟩
  · unfold getTaskResult
    split
    · exact ⟨none, rfl⟩
    · rename_i t hfind
      rw [(htold t (List.mem_of_find?_eq_some hfind)).decodes]
      exact ⟨_, rfl⟩
  · intro queue taskId result hresult hended s' new hlater hno
    obtain ⟨t, ht, rfl, rfl, rfl⟩ := getTaskResult_eq_ok htold hresult
    have hkept := hlater.unitKept h hrepeats ht hended hno
    have hreach := hlater.reachable h
    rw [getTaskResult_of_mem hkept.task (hreach.told hrepeats t hkept.task),
      hkept.answerOf (h.records hrepeats) (hreach.records hrepeats)]
  · intro queue taskId result hresult hended hfinal s' new hlater
    obtain ⟨t, ht, rfl, rfl, rfl⟩ := getTaskResult_eq_ok htold hresult
    refine hlater.never_revived h hrepeats ht hended (hfinal.imp id fun hrollback => ?_)
    exact (rollbackOutcome_ne_none.mp (mt Option.map_eq_none_iff.mpr hrollback)).2
  · intro queue taskId result hresult
    obtain ⟨t, ht, rfl, rfl, rfl⟩ := getTaskResult_eq_ok htold hresult
    exact h.sagaTold hrepeats ht

/-! A step of the sample run starts, its task fails for good, and the rollback of the step fails for
good as well. -/

def startOne : Batch :=
  ⟨"b4", .setCheckpoint ⟨"q", "r1", "w1"⟩ "t" ⟨"$started:s1", "null"⟩ 1000⟩

def enterOne : Batch :=
  ⟨"b5", .failInto ⟨⟨"q", "r1", "w1"⟩, "\x7b\x7d", "t", none, "p1", none⟩⟩

def haltOne : Batch :=
  ⟨"b8", .failInto ⟨⟨"q", "p1", "w2"⟩, "\x7b\x7d", "t", none, "p2",
    some ⟨⟨"$rollback-tries:s1", "no room"⟩, none⟩⟩⟩

/-- The task has entered its saga, and the pass runs. -/
def rollingOne : Sys :=
  (((runningOne.deliver startOne 3).deliver enterOne 4).deliver ⟨"b6", .claim ⟨"q", "w2", 1000, 1⟩⟩
    5).deliver ⟨"b7", .activate ⟨"q", "p1", "w2", 1⟩⟩ 6

def haltedOne : Sys := rollingOne.deliver haltOne 7

/-- The store with a saga rolling back is reachable. -/
theorem rollingOne_reachable (again : Batch → Db → Prop) : Reachable again rollingOne := by
  have hstarted : Reachable again (runningOne.deliver startOne 3) :=
    .step (runningOne_reachable again) (.first _ _ (by decide) (by decide) trivial)
  have hread : RunRead (runningOne.deliver startOne 3).Seen "r1" "t" := ⟨_, Or.inl rfl, by decide⟩
  have hentered : Reachable again ((runningOne.deliver startOne 3).deliver enterOne 4) :=
    .step hstarted (.first _ _ (by decide) (by decide)
      ⟨fun rollback hr => absurd hr (Option.not_mem_none rollback), hread⟩)
  have hclaimed : Reachable again (((runningOne.deliver startOne 3).deliver enterOne 4).deliver
      ⟨"b6", .claim ⟨"q", "w2", 1000, 1⟩⟩ 5) :=
    .step hentered (.first _ _ (by decide) (by decide) trivial)
  exact .step hclaimed (.first _ _ (by decide) (by decide) trivial)

/-- The store with a saga whose rollback failed is reachable. -/
theorem haltedOne_reachable (again : Batch → Db → Prop) : Reachable again haltedOne := by
  have hread : RunRead rollingOne.Seen "p1" "t" := ⟨rollingOne.db, Or.inl rfl, by decide⟩
  refine .step (rollingOne_reachable again) (.first _ _ (by decide) (by decide) ⟨?_, hread⟩)
  rintro rollback hr
  obtain rfl := Option.some.inj hr
  exact ⟨rfl, by decide⟩

/-- What reads an attempt record, where a record is its error's text. -/
def tryOf (text : String) : Option RollbackTry := some ⟨1, text⟩

/-- The sample task was halted, and no later delivery changes what is read of it. -/
theorem reachable_results_haltedOne :
    getTaskResult tryOf haltedOne.db "q" "t" =
        .ok (some ⟨.failed, none, some "\x7b\x7d", some ⟨.failed, some "no room"⟩⟩) ∧
      (∃ e ∈ haltedOne.history, ∃ record, e.Halts "t" record) ∧
      ∀ s' new, Later Repeats haltedOne s' new → ∀ e ∈ new, ¬ e.Revives "t" := by
  have hanswer : getTaskResult tryOf haltedOne.db "q" "t" =
      .ok (some ⟨.failed, none, some "\x7b\x7d", some ⟨.failed, some "no room"⟩⟩) := by decide
  obtain ⟨hstand, htold⟩ := reachable_results tryOf (haltedOne_reachable Repeats)
  obtain ⟨e, he, record, hhalts, _⟩ :=
    (htold "q" "t" _ hanswer).error ⟨.failed, some "no room"⟩ rfl (by simp)
  exact ⟨hanswer, ⟨e, he, record, hhalts⟩, hstand.final "q" "t" _ hanswer id (Or.inr (by simp))⟩

end Durablerun
