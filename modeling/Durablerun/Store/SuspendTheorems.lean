import Durablerun.Store.ClaimTheorems
import Durablerun.Store.Suspend

/-!
# What the batches of a running pass keep

`reschedule`, `suspendRun` and `setCheckpoint` keep the invariant. A batch delivered again may find
its stamp on the run it parked or leased before. It then writes its checkpoint again, under the name
the first delivery wrote it: `Rewrites` says that the name is there.

Reference: `packages/store-libsql/src/store.ts` and `packages/core/src/statements/suspend.ts`.
-/

namespace Durablerun

open Relational

variable {db : Db} {seed : String} {now : ℤ}

/-- A run that already carries the stamp a checkpoint write selects by has that checkpoint. -/
def Rewrites (db : Db) (seed runId : String) (fence : Statement) (key : String) : Prop :=
  ∀ r ∈ db.runs, r.runId = runId → r.fenceStamp = some ⟨seed, fence⟩ →
    HasCheckpoint db r.taskId key

/-- A seed no row carries rewrites nothing. -/
theorem Rewrites.of_fresh {runId key : String} {fence : Statement}
    (h : ∀ r ∈ db.runs, ∀ s ∈ r.fenceStamp, s.seed ≠ seed) : Rewrites db seed runId fence key :=
  fun r hr _ hs => absurd rfl (h r hr _ hs)

/-! ## Park and marker -/

/-- A reschedule keeps the invariant. -/
theorem reschedule_inv (claim : WorkerClaim) (wake : WakeSpec) (h : Inv db) :
    Inv (reschedule seed claim wake now db).db := by
  obtain ⟨hcas, hpark⟩ := h.park seed claim.queue claim.runId .suspend
    (p := rescheduleGuard db now claim wake)
    (f := ⟨fun r => clearedWake (parkAssignments seed .suspend (wake.wakeAt now) now r),
      fun _ => rfl⟩)
    (fun r hg => ⟨hg.1.1, hg.1.2.1, hg.1.running⟩)
    fun r => ⟨⟨rfl, rfl, rfl, rfl⟩, parkAssignments_queued seed .suspend _ now r,
      parkAssignments_queued seed .suspend _ now r, rfl⟩
  exact finishSuspension_inv h hcas hpark rfl rfl rfl

/-- A name outside the engine's own is not a rollback's record, and not the phase marker. -/
theorem checkpointInItsPhase.admitted {taskId key : String}
    (h : checkpointInItsPhase db taskId key) (hengine : ¬ checkpointIsTheEngines key) :
    (RollingBackName key → sagaBegan db taskId) ∧ key ≠ SAGA_PHASE_CHECKPOINT :=
  ⟨fun hn => hn.elim h.mp fun ht => absurd (Or.inr ht) hengine, fun hk => hengine (Or.inl hk)⟩

/-- A checkpoint written under a compare-and-set's stamp is admitted: the compare-and-set asked for
it, or it is there already. -/
theorem writeAdmitted_of_cas (h : Inv db) {p : Run → Prop} [DecidablePred p]
    {f : Table.Change Run.keys} {fence : Statement} {runId key : String}
    (hp : ∀ r, p r → r.state = .running)
    (hphase : ∀ r, p r → checkpointInItsPhase db r.taskId key ∧ ¬ checkpointIsTheEngines key)
    (hf : ∀ r : Run, r.Same (f r)) (hrewrites : Rewrites db seed runId fence key) :
    ∀ g, stampedRun { db with runs := db.runs.update p f } seed runId fence = some g →
      WriteAdmitted { db with runs := db.runs.update p f } g.taskId key := by
  intro g hg
  obtain ⟨hmem, hid, hs⟩ := stampedRun_eq_some.mp hg
  obtain ⟨r, hr, hpr, rfl⟩ | ⟨hr, _⟩ := Table.update_cases hmem
  · rw [(hf r).taskId]
    obtain ⟨hroll, hne⟩ := (hphase r hpr).1.admitted (hphase r hpr).2
    exact Or.inr ⟨hroll, hne, fun t ht hid =>
      h.toUnits.live hr ht hid.symm (by simp [hp r hpr])⟩
  · exact Or.inl (hrewrites g hr hid hs)

/-- A suspension keeps the invariant. -/
theorem suspendRun_inv (claim : WorkerClaim) (wake : WakeSpec) (checkpoint : CheckpointWrite)
    (h : Inv db) (hrewrites : Rewrites db seed claim.runId .suspend checkpoint.key) :
    Inv (suspendRun seed claim wake checkpoint now db).db := by
  obtain ⟨hcas, hpark⟩ := h.park seed claim.queue claim.runId .suspend
    (p := suspendRunGuard db now claim wake checkpoint)
    (f := ⟨fun r => clearedWake (parkAssignments seed .suspend (wake.wakeAt now) now r),
      fun _ => rfl⟩)
    (fun r hg => ⟨hg.1.1, hg.1.2.1, hg.1.running⟩)
    fun r => ⟨⟨rfl, rfl, rfl, rfl⟩, parkAssignments_queued seed .suspend _ now r,
      parkAssignments_queued seed .suspend _ now r, rfl⟩
  have hmarked := hcas.checkpointWrite (writeAdmitted_of_cas h (fun r hg => hg.1.running)
    (fun r hg => hg.2.2.2.2.2.2) (fun r => ⟨rfl, rfl, rfl, rfl⟩) hrewrites)
  refine finishSuspension_inv h hmarked (fun r hr t ht => ?_) checkpointWrite_tasks
    checkpointWrite_waits checkpointWrite_events
  rw [checkpointWrite_runs] at hr
  rw [checkpointWrite_tasks] at ht
  exact hpark r hr t ht

/-- A checkpoint keeps the invariant. -/
theorem setCheckpoint_inv (claim : WorkerClaim) (taskId : String) (checkpoint : CheckpointWrite)
    (extendMs : ℤ) (h : Inv db) (hrewrites : Rewrites db seed claim.runId .lease checkpoint.key) :
    Inv (setCheckpoint seed claim taskId checkpoint extendMs now db).db := by
  have hcas : Core (checkpointLeaseCas db seed claim taskId checkpoint.key extendMs now) := by
    refine h.toCore.updateRunning (fun r hg => hg.1.running) (fun r => ⟨⟨rfl, rfl, rfl, rfl⟩, rfl⟩)
      fun r _ _ s hs => ?_
    obtain rfl := Option.some.inj hs
    exact rfl
  have hcore := hcas.checkpointWrite (writeAdmitted_of_cas h (fun r hg => hg.1.running)
    (fun r hg => hg.2.2.2.2.2.2) (fun r => ⟨rfl, rfl, rfl, rfl⟩) hrewrites)
  refine h.carry hcore (fun w hw => ?_) checkpointWrite_events fun t ht hl =>
    ⟨t, ?_, .refl t, hl⟩
  · rwa [setCheckpoint, checkpointWrite_waits] at hw
  · rwa [setCheckpoint, checkpointWrite_tasks] at ht

end Durablerun
