import Durablerun.Store.Finality
import Durablerun.Store.Receipts

/-!
# The phase of a saga

A task enters its saga by one checkpoint, which the batch that decided its failure writes with the
first rollback pass. From then on the task only goes back: every writer asks for the marker, each in
a conjunct of its own, and what they leave alone stands in every later state. Before then nothing of
a rollback is there, and a task that owes one does not fail, unless its budget has no room for the
pass.

Reference: `packages/store-libsql/src/store.ts` and `packages/core/src/sagas.ts`.
-/

namespace Durablerun

open Relational

variable {again : Batch → Db → Prop} {s s' : Sys} {b : Batch} {now : ℤ} {db db' : Db}
  {seen : Db → Prop} {taskId : String}

/-! ## Checkpoints -/

/-- Two databases have the same checkpoints of a task, those of its rollbacks apart. -/
def SameForward (db db' : Db) (taskId : String) : Prop :=
  ∀ c : Checkpoint, c.taskId = taskId → ¬ RollingBackName c.checkpointName →
    (c ∈ db'.checkpoints ↔ c ∈ db.checkpoints)

/-- A task has the forward checkpoints it has. -/
theorem SameForward.refl (db : Db) (taskId : String) : SameForward db db taskId :=
  fun _ _ _ => Iff.rfl

/-- A task that keeps its forward checkpoints twice keeps them. -/
theorem SameForward.trans {db'' : Db} (h : SameForward db db' taskId)
    (h' : SameForward db' db'' taskId) : SameForward db db'' taskId :=
  fun c hid hname => (h' c hid hname).trans (h c hid hname)

/-- Every batch that writes a checkpoint of a saga that began writes one of its rollbacks. -/
theorem Batch.Meets.write_rollingBack (h : b.Meets seen now db) (hbegan : sagaBegan db taskId) {f : Run}
    {write : CheckpointWrite}
    (hw : Checkpoint.Write b.seed now db (b.after now db) b.call f write)
    (hid : f.taskId = taskId) : RollingBackName write.key := by
  subst hid
  have hadm := h.admitted
  generalize b.call = call at hw hadm
  cases hw with
  | suspended _ hg => exact absurd hbegan hg.2.2.2.2.2.1
  | leased _ hg => exact Or.inl (hg.2.2.2.2.2.2.1.mpr hbegan)
  | tried _ _ hrollback => exact Or.inr (hadm.1 _ hrollback).2
  | entered _ _ _ hno => exact absurd hbegan hno

/-- No batch changes the forward checkpoints of a task that rolls back. -/
theorem Batch.Meets.sameForward (h : b.Meets seen now db) (hbegan : sagaBegan db taskId) :
    SameForward db (b.after now db) taskId := by
  intro c hid hname
  have hunwritten : ∀ f write, Checkpoint.Write b.seed now db (b.after now db) b.call f write →
      f.taskId = taskId → write.key ≠ c.checkpointName := fun f write hw hf hkey =>
    hname (hkey ▸ h.write_rollingBack hbegan hw hf)
  constructor
  · intro hc
    obtain ⟨c₀, hc₀, rfl | ⟨f, write, hw, hwritten, _⟩⟩ | ⟨f, write, hw, hwritten, _⟩ :=
      h.effect.checkpoints.before c hc
    · exact hc₀
    · exact absurd hwritten.checkpointName.symm
        (hunwritten f write hw (hwritten.taskId.symm.trans hid))
    · exact absurd hwritten.checkpointName.symm
        (hunwritten f write hw (hwritten.taskId.symm.trans hid))
  · intro hc
    obtain ⟨c', hc', rfl | ⟨f, write, hw, _, hid', hkey, _⟩⟩ := h.effect.checkpoints.after c hc
    · exact hc'
    · exact absurd hkey.symm (hunwritten f write hw (hid'.symm.trans hid))

/-! ## Waits, children and ends -/

/-- No run of a saga that began registers a wait. -/
theorem Batch.Meets.no_wait_in_saga (h : b.Meets seen now db) (hbegan : sagaBegan db taskId) {w : Wait}
    (hw : w ∈ (b.after now db).waits) {r : Run} (hr : r ∈ (b.after now db).runs)
    (hrun : r.runId = w.runId) (hid : r.taskId = taskId) : w ∈ db.waits := by
  have hwait : w.taskId = taskId := (h.inv.held.parkedOn hw hr hrun).taskId.symm.trans hid
  refine (h.effect.waits w hw).resolve_right fun hborn => ?_
  generalize b.call = call at hborn
  cases hborn with
  | @registered call hg =>
    obtain rfl : call.taskId = taskId := hwait
    exact hg.2.2.2.1 hbegan

/-- The parent a spawn names is the task, or the run it claims is one of the task's. -/
def ParentClaim.Of (p : ParentClaim) (db : Db) (taskId : String) : Prop :=
  p.taskId = taskId ∨ ∃ r ∈ db.runs, r.runId = p.runId ∧ r.taskId = taskId

/-- No run of a saga that began spawns a child. -/
theorem Batch.Meets.no_child_in_saga (h : b.Meets seen now db) (hbegan : sagaBegan db taskId)
    {call : SpawnCall} (hcall : b.call = .spawn call) {p : ParentClaim} (hp : p ∈ call.parent)
    (hof : p.Of db taskId) {t' : Task} (ht' : t' ∈ (b.after now db).tasks) :
    ∃ t ∈ db.tasks, t.taskId = t'.taskId := by
  obtain ⟨t, ht, hmoved⟩ | hborn := h.effect.tasks.before t' ht'
  · exact ⟨t, ht, hmoved.same.taskId.symm⟩
  · rw [hcall] at hborn
    cases hborn with
    | spawned hg =>
      obtain ⟨⟨r, hr, ⟨hid, _⟩, hparent, _⟩, hno⟩ := hg.2.2.2 p hp
      have htask : p.taskId = taskId := by
        rcases hof with htask | ⟨q, hq, hqid, htask⟩
        · exact htask
        · rw [← hparent, db.run_unique hr hq (hid.trans hqid.symm), htask]
      exact absurd (htask ▸ hbegan) hno

/-- A task whose saga began has no completed run. -/
theorem Inv.not_completed (h : Inv db) (hbegan : sagaBegan db taskId) :
    (∀ r ∈ db.runs, r.taskId = taskId → r.state ≠ .completed) ∧
      ∀ t ∈ db.tasks, t.taskId = taskId →
        t.state.Live ∨ t.state = .failed ∨ t.state = .cancelled := by
  have htask : ∀ t ∈ db.tasks, t.taskId = taskId → t.state ≠ .completed := by
    rintro t ht rfl hst
    exact (h.phased.tasks t ht).completed hst hbegan
  refine ⟨fun r hr hid hst => ?_, fun t ht hid => ?_⟩
  · obtain ⟨t, ht, hown⟩ := h.owner r hr
    have hmirror : t.state = r.state :=
      h.mirror r hr t ht hown.1.symm fun hf => by simp [hst] at hf
    exact htask t ht (hown.1.trans hid) (hmirror.trans hst)
  · have hne := htask t ht hid
    cases hst : t.state with
    | pending | running | sleeping => exact Or.inl trivial
    | completed => exact absurd hst hne
    | failed => exact Or.inr (Or.inl rfl)
    | cancelled => exact Or.inr (Or.inr rfl)

/-- A task whose saga began is never revived, and stands as it ended. -/
theorem Batch.Meets.not_revived (h : b.Meets seen now db) (hbegan : sagaBegan db taskId) :
    ¬ (b.delivery now db).Revives taskId ∧
      ∀ t ∈ db.tasks, t.taskId = taskId → ¬ t.state.Live → t ∈ (b.after now db).tasks := by
  have hno : ¬ (b.delivery now db).Revives taskId := by
    intro hrevives
    obtain ⟨c, hc, hcid, hname⟩ := hbegan
    obtain ⟨t, ht, hid⟩ := h.sound.phased.owner c hc
    rw [← hcid, ← hid] at hrevives
    exact (hrevives.admits h.sound ht).2 ⟨c, hc, hid.symm, hname⟩
  refine ⟨hno, ?_⟩
  rintro t ht rfl hended
  exact (h.kept_or_revives ht hended).resolve_right hno

/-! ## A delivery, and later states -/

/-- What a delivery leaves of a task whose saga began: everything but its rollbacks. -/
structure Delivery.OnlyRollsBack (e : Delivery) (taskId : String) : Prop where
  checkpoints : SameForward e.before e.after taskId
  waits : ∀ w ∈ e.after.waits, ∀ r ∈ e.after.runs, r.runId = w.runId → r.taskId = taskId →
    w ∈ e.before.waits
  children : ∀ call p, e.batch.call = .spawn call → p ∈ call.parent → p.Of e.before taskId →
    ∀ t' ∈ e.after.tasks, ∃ t ∈ e.before.tasks, t.taskId = t'.taskId
  runs : ∀ r ∈ e.after.runs, r.taskId = taskId → r.state ≠ .completed
  ends : ∀ t ∈ e.after.tasks, t.taskId = taskId →
    t.state.Live ∨ t.state = .failed ∨ t.state = .cancelled
  revived : ¬ e.Revives taskId
  ended : ∀ t ∈ e.before.tasks, t.taskId = taskId → ¬ t.state.Live → t ∈ e.after.tasks

/-- Once a saga began, a batch of its task only rolls back. -/
theorem Batch.Meets.onlyRollsBack (h : b.Meets seen now db) (hbegan : sagaBegan db taskId) :
    (b.delivery now db).OnlyRollsBack taskId where
  checkpoints := h.sameForward hbegan
  waits := fun _ hw _ hr hrun hid => h.no_wait_in_saga hbegan hw hr hrun hid
  children := fun _ _ hcall hp hof _ ht' => h.no_child_in_saga hbegan hcall hp hof ht'
  runs := (h.inv.not_completed (h.effect.sagaBegan hbegan)).1
  ends := (h.inv.not_completed (h.effect.sagaBegan hbegan)).2
  revived := (h.not_revived hbegan).1
  ended := (h.not_revived hbegan).2

/-- A later state has the saga as it was, its rollbacks apart. -/
structure SagaStands (db db' : Db) (taskId : String) : Prop where
  began : sagaBegan db' taskId
  checkpoints : SameForward db db' taskId

/-- From a state where a saga began on, every delivery only rolls it back. -/
theorem Later.sagaStands {new : List Delivery} (h : Later again s s' new) (hs : Reachable again s)
    (hagain : ∀ b db, again b db → b.call.Repeatable) (hbegan : sagaBegan s.db taskId) :
    SagaStands s.db s'.db taskId ∧ ∀ e ∈ new, e.OnlyRollsBack taskId := by
  refine h.induct
    (P := fun u new => SagaStands s.db u.db taskId ∧ ∀ e ∈ new, e.OnlyRollsBack taskId) hs hagain
    ⟨⟨hbegan, .refl _ _⟩, fun e he => absurd he List.not_mem_nil⟩ fun u b now new hd ih => ?_
  obtain ⟨hstands, honly⟩ := ih
  have honly' := hd.meets.onlyRollsBack hstands.began
  refine ⟨⟨hd.effect.sagaBegan hstands.began, hstands.checkpoints.trans honly'.checkpoints⟩, ?_⟩
  intro e he
  obtain rfl | he := List.mem_cons.mp he
  · exact honly'
  · exact honly e he

/-! ## A failure outside the saga -/

/-- The run a task failed with has spent all the attempts a task can have. -/
def FailedAtBound (db db' : Db) (t' : Task) : Prop :=
  ∃ r ∈ db.runs, r.taskId = t'.taskId ∧ r.state.Live ∧
    (∃ r' ∈ db'.runs, r'.runId = r.runId ∧ r'.state = .failed) ∧
      maxAttemptsBounds.max ≤ r.attempt - t'.infraRetries

/-- The delivery failed a task that started a step, outside its saga. -/
structure Delivery.FailsOwing (e : Delivery) (t t' : Task) : Prop where
  task : t ∈ e.before.tasks
  live : t.state.Live
  after : t' ∈ e.after.tasks
  same : t'.taskId = t.taskId
  failed : t'.state = .failed
  started : StepStarted e.before t.taskId
  outside : ¬ sagaBegan e.before t.taskId

/-- A step that started stays so. -/
theorem Effect.stepStarted {seed : String} {call : Call} (h : Effect seed now db db' call)
    (hstep : StepStarted db taskId) : StepStarted db' taskId := by
  obtain ⟨c, hc, hid, hname⟩ := hstep
  obtain ⟨c', hc', hid', hname', _⟩ := h.ownersRise c hc
  exact ⟨c', hc', hid'.trans hid, hname'.symm ▸ hname⟩

/-- A batch that fails a task outside its saga, with a rollback owed, found no room for the pass. -/
theorem Batch.Meets.failedAtBound (h : b.Meets seen now db) {t t' : Task}
    (hfails : (b.delivery now db).FailsOwing t t') : FailedAtBound db (b.after now db) t' := by
  obtain ⟨ht, hl, ht', hsame, hfailed, hstep, hout⟩ := hfails
  have hended : ¬ t'.state.Live := by simp [hfailed]
  have hno : ¬ sagaBegan (b.after now db) t'.taskId := by
    intro hsaga
    have hbefore := h.began_before ht' hended hsaga
    exact hout (hsame ▸ hbefore)
  have hstarted : StepStarted (b.after now db) t'.taskId :=
    h.effect.stepStarted (hsame.symm ▸ hstep)
  obtain ⟨p, hp, hpid, hbound⟩ := (h.inv.phased.tasks t' ht').owed hfailed hno hstarted
  obtain ⟨r, hr, hrid, hlr⟩ := (h.sound.settled t ht).hasLive hl
  obtain ⟨r', hr', hsameRun⟩ := h.effect.same_run hr
  have hid' : r'.taskId = t'.taskId := hsameRun.taskId.trans (hrid.trans hsame.symm)
  have hle : p.attempt ≤ r.attempt := by
    obtain ⟨p₀, hp₀, hmoved⟩ | hborn := h.effect.runs.before p hp
    · have hsamep : p₀.Same p := by
        obtain rfl | hm := hmoved
        · exact .refl p
        · exact hm.same
      rw [hsamep.attempt]
      have htop := (h.sound.settled t ht).top hr hrid hlr
      exact ((htop.2 p₀.attempt).mp
        ⟨p₀, hp₀, hsamep.taskId.symm.trans (hpid.trans hsame), rfl⟩).2
    · exact absurd hborn.queued.live (h.inv.toCore.not_live hp ht' hpid hended)
  refine ⟨r, hr, hrid.trans hsame.symm, hlr, ⟨r', hr', hsameRun.runId, ?_⟩, ?_⟩
  · by_contra hne
    have hst := h.inv.mirror r' hr' t' ht' hid' hne
    exact hne (hst.symm.trans hfailed)
  · show MAX_COUNT ≤ r.attempt - t'.infraRetries
    omega

/-- A rollback that was given up on had failed as often as it may. -/
theorem Reachable.failedAtBound (h : Reachable again s)
    (hagain : ∀ b db, again b db → b.call.Repeatable) :
    ∀ e ∈ s.history, ∀ t t', e.FailsOwing t t' → FailedAtBound e.before e.after t' := by
  refine h.induct (P := fun s => ∀ e ∈ s.history, ∀ t t', e.FailsOwing t t' →
    FailedAtBound e.before e.after t') hagain (fun e he => absurd he List.not_mem_nil)
    fun s b now hd ih e he t t' hfails => ?_
  obtain rfl | he := List.mem_cons.mp he
  · exact hd.meets.failedAtBound hfails
  · exact ih e he t t' hfails

/-! ## The whole -/

/-- Once a task's saga began, every later delivery only rolls it back, and what it leaves alone
stands; a rollback's checkpoint is there only in a saga that began; and no task that started a step
fails, or is a failed one, outside its saga, unless its run has spent all the attempts a task can
have. -/
theorem reachable_sagaPhase (h : Reachable Repeats s) :
    (∀ taskId, sagaBegan s.db taskId → ∀ s' new, Later Repeats s s' new →
      SagaStands s.db s'.db taskId ∧ ∀ e ∈ new, e.OnlyRollsBack taskId) ∧
      (∀ c ∈ s.db.checkpoints, namedUnder c.checkpointName SAGA_ROLLBACK_PREFIX →
        sagaBegan s.db c.taskId) ∧
      (∀ e ∈ s.history, ∀ t t', e.FailsOwing t t' → FailedAtBound e.before e.after t') ∧
      ∀ t ∈ s.db.tasks, t.state = .failed → StepStarted s.db t.taskId → ¬ sagaBegan s.db t.taskId →
        ∃ r ∈ s.db.runs, r.taskId = t.taskId ∧
          maxAttemptsBounds.max ≤ r.attempt - t.infraRetries := by
  have hrepeats : ∀ b db, Repeats b db → b.call.Repeatable := fun _ _ hrepeats => hrepeats
  have hphased := (h.course hrepeats).inv.phased
  refine ⟨fun taskId hbegan s' new hlater => hlater.sagaStands h hrepeats hbegan,
    fun c hc hname => hphased.marker c hc (Or.inl hname), h.failedAtBound hrepeats, ?_⟩
  intro t ht hfailed hstep hno
  exact (hphased.tasks t ht).owed hfailed hno hstep

/-- The sample saga, and the delivery that halts it. -/
theorem reachable_sagaPhase_rollingOne :
    sagaBegan rollingOne.db "t" ∧
      (rollingOne.delivery haltOne 7).OnlyRollsBack "t" ∧
      SameForward rollingOne.db haltedOne.db "t" := by
  have hread : RunRead rollingOne.Seen "p1" "t" := ⟨rollingOne.db, Or.inl rfl, by decide⟩
  have hstep : Step Repeats rollingOne haltedOne := by
    refine .first _ _ (by decide) (by decide) ⟨?_, hread⟩
    rintro rollback hr
    obtain rfl := Option.some.inj hr
    exact ⟨rfl, by decide⟩
  have hbegan : sagaBegan rollingOne.db "t" := by decide
  obtain ⟨hstands, honly⟩ := (reachable_sagaPhase (rollingOne_reachable Repeats)).1 "t" hbegan
    haltedOne [rollingOne.delivery haltOne 7] ⟨.single hstep, rfl⟩
  exact ⟨hbegan, honly _ List.mem_cons_self, hstands.checkpoints⟩

end Durablerun
