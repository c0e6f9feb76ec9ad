import Durablerun.Store.EndingsTheorems
import Durablerun.Store.SuspendTheorems
import Durablerun.Store.Turnover

/-!
# What the batches that fail a run share

A batch that fails a run places the run that follows it, a successor or a rollback pass, or ends the
task. This module has the two halves each such batch is proved from. When its compare-and-set takes
the run, the arm that fires turns the unit (`Failing`). When it takes none, the batch was delivered
before, and `Placed` says what its stamps then select: the run it placed, as its task still has it.

Reference: `packages/store-libsql/src/store.ts` and `packages/core/src/statements/fail.ts`.
-/

namespace Durablerun

open Relational

variable {db db' : Db} {seed queue runId passId : String} {fence name : Statement} {now : ℤ}

/-! ## The successor's insert -/

section FailureSuccessor

variable {delayMs : ℤ} {state : TaskState} {admission : Run → Task → Prop}
  [∀ f t, Decidable (admission f t)]

/-- The insert of a successor: nothing, for a fenced run that is not admitted or already followed, or
the one run. -/
theorem failureSuccessor_cases
    (h : failureSuccessor db seed name fence passId runId delayMs state admission = some db') :
    (db' = db ∧ ∀ f, stampedRun db seed runId fence = some f →
        (∃ t ∈ db.tasks, runOwnedByTask f t ∧ admission f t) →
          successorOwned db passId f.taskId (f.attempt + 1)) ∨
      ∃ f, stampedRun db seed runId fence = some f ∧
        (∃ t ∈ db.tasks, runOwnedByTask f t ∧ admission f t) ∧
        ∃ runs, db.runs.Free (successorRun seed name passId f state (f.fenceAtMs + delayMs)
            f.fenceAtMs) ∧
          (∀ s, s ∈ runs ↔ s ∈ db.runs ∨ s = successorRun seed name passId f state
            (f.fenceAtMs + delayMs) f.fenceAtMs) ∧
          db' = { db with runs } := by
  unfold failureSuccessor at h
  split at h
  · rename_i hnone
    refine Or.inl ⟨(Option.some.inj h).symm, fun f hf => ?_⟩
    rw [hnone] at hf
    cases hf
  · rename_i f hf
    split at h
    · rename_i hadm
      obtain ⟨runs, hins, rfl⟩ := Option.map_eq_some_iff.mp h
      obtain ⟨hfree, hruns⟩ := Table.insert?_eq_some hins
      exact Or.inr ⟨f, hf, hadm.1, runs, hfree, hruns, rfl⟩
    · rename_i hno
      refine Or.inl ⟨(Option.some.inj h).symm, fun g hg hadm => ?_⟩
      obtain rfl := Option.some.inj (hf.symm.trans hg)
      by_contra howned
      exact hno ⟨hadm, howned⟩

/-- A fenced run that is followed already, or none, has no successor placed. -/
theorem failureSuccessor_of_owned
    (h : ∀ f, stampedRun db seed runId fence = some f →
      successorOwned db passId f.taskId (f.attempt + 1)) :
    failureSuccessor db seed name fence passId runId delayMs state admission = some db := by
  unfold failureSuccessor
  split
  · rfl
  · rename_i f hf
    rw [if_neg fun hadm => hadm.2 (h f hf)]

/-- A run that failed under a task that lives on has a run after it, so a late insert meets it. -/
theorem failureSuccessor_late (hc : Core db)
    (hadm : ∀ f t, admission f t → t.state.Live)
    (hfailed : ∀ f, stampedRun db seed runId fence = some f → f.state = .failed)
    (h : failureSuccessor db seed name fence passId runId delayMs state admission = some db') :
    db' = db ∧ ∀ f, stampedRun db seed runId fence = some f →
      (∃ t ∈ db.tasks, runOwnedByTask f t ∧ admission f t) →
        successorOwned db passId f.taskId (f.attempt + 1) := by
  obtain heq | ⟨f, hf, ⟨t, ht, hown, hadmits⟩, runs, hfree, _⟩ := failureSuccessor_cases h
  · exact heq
  exfalso
  obtain ⟨hmem, _, _⟩ := stampedRun_eq_some.mp hf
  have hlive := hadm f t hadmits
  obtain ⟨s, hs, hsid, hsl⟩ := (hc.settled t ht).hasLive hlive
  have htop := (hc.settled t ht).top hs hsid hsl
  have hle := (htop.2 f.attempt).mp ⟨f, hmem, hown.1.symm, rfl⟩
  have hne : f.attempt ≠ s.attempt := by
    intro he
    have heq := db.run_unique_ordinal hmem hs (hown.1.symm.trans hsid.symm) he
    rw [← heq, hfailed f hf] at hsl
    exact hsl
  obtain ⟨u, hu, huid, huat⟩ := (htop.2 (f.attempt + 1)).mpr ⟨by omega, by omega⟩
  refine hfree.2 (.ordinal f.taskId (f.attempt + 1)) (by simp [Run.keys, successorRun])
    (Table.mem_heldKeys.mpr ⟨u, hu, ?_⟩)
  simp [Run.keys, huid, huat, hown.1]

end FailureSuccessor

/-! ## A batch delivered late -/

/-- The run this batch placed, while it carries the batch's stamp, is one past the run the batch
failed, and a pass has its saga begun. -/
def Placed (db : Db) (seed runId passId : String) (fence : Statement) : Prop :=
  ∀ p ∈ db.runs, p.runId = passId → ∀ name, name = .successor ∨ name = .rollbackPass →
    p.fenceStamp = some ⟨seed, name⟩ →
      (∃ f ∈ db.runs, f.runId = runId ∧ f.fenceStamp = some ⟨seed, fence⟩ ∧
        f.taskId = p.taskId ∧ p.attempt = f.attempt + 1) ∧
      (name = .rollbackPass → sagaBegan db p.taskId)

/-- The stamp is one of a failed run. -/
def Statement.Fails (fence : Statement) : Prop := ∀ state, fence.Left state → state = .failed

/-- A failure fails a run. -/
theorem fails_fail : Statement.fail.Fails := fun _ h => h
/-- A capped launch fails a run. -/
theorem fails_cap : Statement.cap.Fails := fun _ h => h

/-- The stamped run has failed. -/
theorem Stamped.failed (h : Stamped db) (hfence : fence.Fails) {f : Run}
    (hf : stampedRun db seed runId fence = some f) : f.state = .failed :=
  hfence _ (h.runs f (stampedRun_eq_some.mp hf).1 _ (stampedRun_eq_some.mp hf).2.2)

/-- What holds between the statements of a failure batch that has nothing left to turn: it was
delivered before, or its arm has fired. -/
structure Late (seed queue taskId : String) (terminal : Statement) (runId passId : String)
    (fence : Statement) (db : Db) : Prop extends Owing seed queue taskId terminal db where
  placed : Placed db seed runId passId fence

section Late

variable {taskId : String} {terminal : Statement}

/-- Between batches nothing is left to turn. -/
theorem Inv.late (h : Inv db) (hplaced : Placed db seed runId passId fence) :
    Late seed queue taskId terminal runId passId fence db :=
  ⟨h.owing h.toCore (fun _ hw => hw) rfl fun t ht hl => Or.inl ⟨t, ht, .refl t, hl⟩, hplaced⟩

/-- What is owed stays so through a follow-on that carries runs to tasks. -/
theorem Owing.runsToTasks (h : Owing seed queue taskId terminal db) {σ q : String}
    {where' : Run → Prop} [DecidablePred where'] {narrow : Task → Prop} [DecidablePred narrow]
    {set : Table.Change Task.keys} (hname : ∀ s, name.LeftTask s)
    (hset : ∀ t ∈ db.tasks, ∀ f ∈ db.runs, Follows σ fence q where' narrow f t →
      t.state.Live ∧ t.Steps (set t) ∧ (set t).state = t.state) :
    Owing seed queue taskId terminal (runsToTasks db σ name fence q where' narrow set) := by
  refine ⟨h.toCore.runsToTasks hname fun t ht f hf hfol => (hset t ht f hf hfol).2, h.quiet,
    fun t ht hl => ?_⟩
  refine h.recorded t (mem_of_runsToTasks_ended db ht (fun t ht f hf hfol => ?_) hl) hl
  obtain ⟨htl, _, hst⟩ := hset t ht f hf hfol
  exact hst ▸ htl

/-- What is owed stays so through an admitted checkpoint write. -/
theorem Owing.checkpointWrite (h : Owing seed queue taskId terminal db) {σ run : String}
    {write : CheckpointWrite}
    (hadmits : ∀ f, stampedRun db σ run fence = some f → WriteAdmitted db f.taskId write.key) :
    Owing seed queue taskId terminal (checkpointWrite db σ run write fence) := by
  refine ⟨h.toCore.checkpointWrite hadmits, fun w hw hthere => ?_, fun t ht hl => ?_⟩
  · rw [checkpointWrite_waits] at hw
    exact h.quiet w hw ((EventThere.of_eq checkpointWrite_events).mp hthere)
  · rw [checkpointWrite_tasks] at ht
    rw [EventThere.of_eq checkpointWrite_events]
    exact h.recorded t ht hl

/-- What is owed stays so through a deletion of waits. -/
theorem Owing.runsToWaits (h : Owing seed queue taskId terminal db) {σ : String}
    {where' : Run → Prop} [DecidablePred where'] {narrow : Wait → Prop} [DecidablePred narrow] :
    Owing seed queue taskId terminal (runsToWaits db σ fence where' narrow) :=
  ⟨h.toCore.runsToWaits, fun w hw => h.quiet w (mem_runsToWaits.mp hw).1, h.recorded⟩

/-- The placed run is its task's live run, so the failed run's ordinal says the task's attempts. -/
theorem Placed.attempts (h : Placed db seed runId passId fence) (hc : Core db)
    (hname : name = .successor ∨ name = .rollbackPass) {p : Run} {t : Task} (hp : p ∈ db.runs)
    (ht : t ∈ db.tasks) (hid : p.runId = passId) (hs : p.fenceStamp = some ⟨seed, name⟩)
    (hpt : p.taskId = t.taskId) :
    p.state.Live ∧ t.state = p.state ∧ userAttemptsFrom db seed runId fence t = t.attempts ∧
      stampedRunState db seed passId name t = t.state ∧
      p.attempt = t.attempts + t.infraRetries + 1 := by
  obtain ⟨⟨f, hf, hfid, hfs, hft, hat⟩, _⟩ := h p hp hid name hname hs
  have hq : p.state.Queued := by
    have := hc.stamped.runs p hp _ hs
    rcases hname with rfl | rfl <;> exact this
  have hcur := ((hc.settled t ht).current p hp hpt hq.live).2
  have hst := hc.state_eq hp ht hpt hq.live
  refine ⟨hq.live, hst, ?_, ?_, hcur⟩
  · unfold userAttemptsFrom
    rw [stampedRun_eq_some.mpr ⟨hf, hfid, hfs⟩]
    simp only [Option.map_some, Option.getD_some]
    omega
  · unfold stampedRunState
    rw [stampedRun_eq_some.mpr ⟨hp, hid, hs⟩]
    exact hst.symm

/-- A pass that was placed before is followed as it already is. -/
theorem Late.taskRollingBack {q : String}
    (h : Late seed queue taskId terminal runId passId fence db) :
    Late seed queue taskId terminal runId passId fence
      (taskRollingBack db seed q runId passId fence) := by
  refine ⟨h.toOwing.runsToTasks (fun _ => trivial) fun t ht p hp hfol => ?_, h.placed⟩
  obtain ⟨hl, hst, hattempts, hstate, _⟩ := h.placed.attempts h.toCore (Or.inr rfl) hp ht
    hfol.selected hfol.stamp hfol.taskId
  have hsaga := (h.placed p hp hfol.selected .rollbackPass (Or.inr rfl) hfol.stamp).2 rfl
  have hspent := (h.phased.tasks t ht).spent hfol.narrow (hfol.taskId ▸ hsaga)
  exact ⟨hfol.narrow, ⟨⟨rfl, rfl⟩, hattempts, rfl, by rw [hspent, ← hattempts], Or.inl hstate⟩,
    hstate⟩

/-- A phase marker that was written before is written again as it is named. -/
theorem Late.sagaPhaseMarker {enteringWith : Option String}
    (h : Late seed queue taskId terminal runId passId fence db) :
    Late seed queue taskId terminal runId passId fence
      (sagaPhaseMarker db seed passId enteringWith) := by
  unfold Durablerun.sagaPhaseMarker
  split
  · exact h
  refine ⟨h.toOwing.checkpointWrite fun p hp => Or.inl ?_, fun p hp hid name hname hs => ?_⟩
  · obtain ⟨hmem, hid, hs⟩ := stampedRun_eq_some.mp hp
    exact (h.placed p hmem hid _ (Or.inr rfl) hs).2 rfl
  · rw [checkpointWrite_runs] at hp ⊢
    obtain ⟨hf, hsaga⟩ := h.placed p hp hid name hname hs
    exact ⟨hf, fun hn => HasCheckpoint.after_write (hsaga hn)⟩

/-- A failed run that is followed by a run that is no pass, or none, leaves nothing for the saga arm
to do. -/
theorem sagaPass_of_owned {q : String} {enteringWith : Option String} {delayMs : ℤ}
    {admission : Run → Task → Prop} [∀ f t, Decidable (admission f t)]
    (h : ∀ f, stampedRun db seed runId fence = some f →
      successorOwned db passId f.taskId (f.attempt + 1))
    (hno : ∀ s ∈ db.runs, s.runId = passId → s.fenceStamp ≠ some ⟨seed, .rollbackPass⟩) :
    sagaPass db seed q runId passId fence enteringWith delayMs admission = some db := by
  have hmarker : Durablerun.sagaPhaseMarker db seed passId enteringWith = db := by
    unfold Durablerun.sagaPhaseMarker
    split
    · rfl
    · exact checkpointWrite_of_none (stampedRun_eq_none.mpr hno)
  have hfollow : Durablerun.taskRollingBack db seed q runId passId fence = db :=
    runsToTasks_of_forall_not fun _ _ f hf hfol => hno f hf hfol.selected hfol.stamp
  unfold sagaPass
  rw [failureSuccessor_of_owned h]
  simp only [Option.bind_eq_bind, Option.bind_some, hmarker, hfollow]
  rfl

/-- The saga arm of a batch delivered late: the pass is there, or none is placed. -/
theorem Late.sagaPass {q : String} {enteringWith : Option String} {delayMs : ℤ}
    {admission : Run → Task → Prop} [∀ f t, Decidable (admission f t)]
    (h : Late seed queue taskId terminal runId passId fence db) (hfence : fence.Fails)
    (hrun : sagaPass db seed q runId passId fence enteringWith delayMs admission = some db') :
    Late seed queue taskId terminal runId passId fence db' ∧ db'.runs = db.runs ∧
      ∀ f, stampedRun db seed runId fence = some f →
        (∃ t ∈ db.tasks, runOwnedByTask f t ∧ passAdmission admission f t) →
          successorOwned db passId f.taskId (f.attempt + 1) := by
  obtain ⟨placed, hplaced, hdb'⟩ := Option.bind_eq_some_iff.mp hrun
  obtain rfl := Option.some.inj hdb'
  obtain ⟨rfl, howned⟩ := failureSuccessor_late h.toCore (fun _ _ hadm => hadm.1)
    (fun f hf => h.stamped.failed hfence hf) hplaced
  refine ⟨h.sagaPhaseMarker.taskRollingBack, ?_, howned⟩
  unfold Durablerun.sagaPhaseMarker
  split
  · rfl
  · exact checkpointWrite_runs

end Late

/-! ## A batch that took its run -/

/-- The compare-and-set of a failure batch took the current run of a live task, and nothing has
followed it yet. -/
structure Failing (db db₂ : Db) (seed runId : String) (fence : Statement) (r r' : Run) (t : Task) :
    Prop where
  current : Current db r t
  running : r.state = .running
  runId : r.runId = runId
  run : r.Same r'
  failed : r'.state = .failed
  stamp : r'.fenceStamp = some ⟨seed, fence⟩
  runs : Table.Replaced db.runs db₂.runs r r'
  tasks : db₂.tasks = db.tasks
  waits : db₂.waits = db.waits
  events : db₂.events = db.events
  phased : Phased db₂

namespace Failing

variable {db₂ : Db} {r r' p : Run} {t t' : Task}

/-- The failing run is there after its failure. -/
theorem mem (h : Failing db db₂ seed runId fence r r' t) : r' ∈ db₂.runs := (h.runs r').mpr (Or.inl rfl)

/-- The failing run's task is there after the failure. -/
theorem mem_task (h : Failing db db₂ seed runId fence r r' t) : t ∈ db₂.tasks :=
  h.tasks ▸ h.current.task

/-- The run that bears the failure's stamp is the failing one. -/
theorem stampedRun (h : Failing db db₂ seed runId fence r r' t) :
    stampedRun db₂ seed runId fence = some r' :=
  stampedRun_eq_some.mpr ⟨h.mem, h.run.runId.trans h.runId, h.stamp⟩

/-- The failing run keeps its task. -/
theorem taskId (h : Failing db db₂ seed runId fence r r' t) : r'.taskId = t.taskId :=
  h.run.taskId.trans h.current.taskId

/-- The failing run is owned by its task. -/
theorem owned (h : Failing db db₂ seed runId fence r r' t) : runOwnedByTask r' t :=
  ⟨h.current.owned.1.trans h.run.taskId.symm, h.current.owned.2.trans h.run.queue.symm⟩

/-- The failed run's ordinal, by the counters. -/
theorem attempt (h : Failing db db₂ seed runId fence r r' t) (hinv : Inv db) :
    t.state.Live ∧ r'.attempt = t.attempts + t.infraRetries + 1 := by
  rw [h.run.attempt]
  exact h.current.attempt hinv.toUnits

/-- The user ordinal the follow-ons derive. -/
theorem userAttempts (h : Failing db db₂ seed runId fence r r' t) (hinv : Inv db) {db₃ : Db}
    (hmem : r' ∈ db₃.runs) : userAttemptsFrom db₃ seed runId fence t = t.attempts + 1 := by
  unfold userAttemptsFrom
  rw [stampedRun_eq_some.mpr ⟨hmem, h.run.runId.trans h.runId, h.stamp⟩]
  have := (h.attempt hinv).2
  simp only [Option.map_some, Option.getD_some]
  omega

/-- Nothing carries the stamp of a run this batch would place: the failed run would precede it. -/
theorem not_placed (h : Failing db db₂ seed runId fence r r' t) (hinv : Inv db)
    (hfence : fence.Fails) (hplaced : Placed db seed runId passId fence)
    (hname : name = .successor ∨ name = .rollbackPass) {s : Run} (hs : s ∈ db₂.runs)
    (hid : s.runId = passId) : s.fenceStamp ≠ some ⟨seed, name⟩ := by
  intro hstamp
  rcases (h.runs s).mp hs with rfl | ⟨hmem, _⟩
  · have heq : fence = name := by
      simpa using h.stamp.symm.trans hstamp
    have : TaskState.pending = .failed := by
      apply hfence
      rcases hname with rfl | rfl <;> rw [heq] <;> trivial
    cases this
  · obtain ⟨⟨f, hf, hfid, hfs, _⟩, _⟩ := hplaced s hmem hid name hname hstamp
    obtain rfl := db.run_unique hf h.current.run (hfid.trans h.runId.symm)
    have := hfence _ (hinv.stamped.runs f hf _ hfs)
    rw [h.running] at this
    cases this

/-- A batch that takes its run has placed none before. -/
theorem placed (h : Failing db db₂ seed runId fence r r' t) (hinv : Inv db) (hfence : fence.Fails)
    (hplaced : Placed db seed runId passId fence) : Placed db₂ seed runId passId fence :=
  fun _ hp hid _ hname hs => absurd hs (h.not_placed hinv hfence hplaced hname hp hid)

variable (passId) in
/-- No run is past the failed one. -/
theorem not_owned (h : Failing db db₂ seed runId fence r r' t) (hinv : Inv db) :
    ¬ successorOwned db₂ passId t.taskId (r'.attempt + 1) := by
  rintro ⟨s, hs, _, hid, hat⟩
  rcases (h.runs s).mp hs with rfl | ⟨hs, _⟩
  · omega
  · have htop := (hinv.settled t h.current.task).top h.current.run h.current.taskId h.current.live
    have := ((htop.2 s.attempt).mp ⟨s, hs, hid, rfl⟩).2
    rw [hat, h.run.attempt] at this
    omega

/-- A failing run and what its task becomes are a turn of the two. -/
theorem turned (h : Failing db db₂ seed runId fence r r' t) (hfence : fence.Left .failed)
    (htasks : Table.Replaced db₂.tasks db'.tasks t t') (hsame : t.Same t')
    (hstamp : ∀ s ∈ t'.fenceStamp, s.statement.LeftTask t'.state) (hcounted : t'.Counted) :
    Turned db db' r r' t t' := by
  refine ⟨h.current, h.run, hsame, h.tasks ▸ htasks, fun s hs => ?_, hstamp, hcounted⟩
  obtain rfl := Option.some.inj (h.stamp.symm.trans hs)
  rw [h.failed]
  exact hfence

/-- A run placed after the failed one, with the task following it, turns the unit. -/
theorem succeed (h : Failing db db₂ seed runId fence r r' t) (hinv : Inv db)
    (hfence : fence.Left .failed) {terminal : Statement}
    (hruns : ∀ s, s ∈ db'.runs ↔ s ∈ db₂.runs ∨ s = p)
    (htasks : Table.Replaced db₂.tasks db'.tasks t t') (hwaits : db'.waits = db₂.waits)
    (hevents : db'.events = db₂.events) (hpid : p.taskId = r'.taskId) (hpq : p.queue = r'.queue)
    (hpat : p.attempt = r'.attempt + 1) (hpl : p.state.Live)
    (hps : ∀ s ∈ p.fenceStamp, s.statement.Left p.state) (hsame : t.Same t')
    (hmirror : t'.state = p.state) (hstamp : ∀ s ∈ t'.fenceStamp, s.statement.LeftTask t'.state)
    (hcounted : t'.Counted) (hcount : r.attempt = t'.attempts + t'.infraRetries)
    (hphased : Phased db') : Owing seed t.queue t.taskId terminal db' := by
  have hturned := h.turned hfence htasks hsame hstamp hcounted
  have hp : Current db' p t' := by
    refine ⟨(hruns p).mpr (Or.inr rfl), hturned.mem_task, ⟨?_, ?_⟩, hpl⟩
    · exact hsame.taskId.trans (h.owned.1.trans hpid.symm)
    · exact hsame.queue.trans (h.owned.2.trans hpq.symm)
  have hw : ∀ w ∈ db'.waits, w ∈ db.waits ∧ w.runId ≠ r.runId := by
    intro w hw
    rw [hwaits, h.waits] at hw
    exact ⟨hw, (hinv.held.no_wait hw h.current.run (by simp [h.running])).symm⟩
  have hcore := hinv.toCore.succeedUnit hturned h.runs hruns hw h.failed hp
    (hpat.trans (by rw [h.run.attempt])) hps hmirror hcount hphased
  exact hturned.owing hinv hcore (fun w hmem => (hw w hmem).1) (hevents.trans h.events)
    (Or.inl (hmirror ▸ hpl))

/-- A task that owns the failed run is the unit's. -/
theorem eq_task (h : Failing db db₂ seed runId fence r r' t) {u : Task} (hu : u ∈ db₂.tasks)
    (hown : runOwnedByTask r' u) : u = t :=
  Db.task_unique hu h.mem_task (hown.1.trans h.taskId)

variable (seed passId) in
/-- A phase marker for the unit's pass, or none, keeps the phase of every other task. -/
theorem phased_marker {σ : String} (h : Failing db db₂ σ runId fence r r' t)
    (enteringWith : Option String) (hruns : ∀ s, s ∈ db'.runs ↔ s ∈ db₂.runs ∨ s = p)
    (hpid : p.taskId = t.taskId)
    (htasks : Table.Replaced db₂.tasks db'.tasks t t') (hsame : t.Same t')
    (hnew : InPhase db' t') {db₃ : Db} (hp : ∀ f ∈ db₃.runs, f.runId = passId → f = p)
    (hold : db₃.checkpoints = db₂.checkpoints)
    (hchecks : db'.checkpoints = (sagaPhaseMarker db₃ seed passId enteringWith).checkpoints) :
    Phased db' := by
  have hcases : ∀ c ∈ db'.checkpoints, c ∈ db₂.checkpoints ∨
      (c.taskId = t.taskId ∧ c.checkpointName = SAGA_PHASE_CHECKPOINT) := by
    intro c hc
    rw [hchecks] at hc
    unfold sagaPhaseMarker at hc
    split at hc
    · exact Or.inl (hold ▸ hc)
    · obtain hc | ⟨f, hf, hw⟩ := checkpointWrite_cases hc
      · exact Or.inl (hold ▸ hc)
      · obtain ⟨hmem, hid, _⟩ := stampedRun_eq_some.mp hf
        rw [hp f hmem hid] at hw
        exact Or.inr ⟨hw.taskId.trans hpid, hw.checkpointName⟩
  have hkeeps : ∀ id n, HasCheckpoint db₂ id n → HasCheckpoint db' id n := by
    rintro id n ⟨c, hc, hcn⟩
    have : HasCheckpoint (sagaPhaseMarker db₃ seed passId enteringWith) id n := by
      unfold sagaPhaseMarker
      split
      · exact ⟨c, hold ▸ hc, hcn⟩
      · exact HasCheckpoint.after_write ⟨c, hold ▸ hc, hcn⟩
    obtain ⟨c', hc', hcn'⟩ := this
    exact ⟨c', hchecks ▸ hc', hcn'⟩
  refine ⟨fun c hc => ?_, fun c hc hn => ?_, fun s hs => ?_⟩
  · obtain hc | ⟨hid, _⟩ := hcases c hc
    · obtain ⟨u, hu, huid⟩ := h.phased.owner c hc
      obtain ⟨u', hu', hsame'⟩ := (htasks.rel h.mem_task hsame fun s _ _ => .refl s).after u hu
      exact ⟨u', hu', hsame'.taskId.trans huid⟩
    · exact ⟨t', (htasks t').mpr (Or.inl rfl), hsame.taskId.trans hid.symm⟩
  · obtain hc' | ⟨_, hname⟩ := hcases c hc
    · exact hkeeps _ _ (h.phased.marker c hc' hn)
    · exact ⟨c, hc, rfl, hname⟩
  · rcases (htasks s).mp hs with rfl | ⟨hs, hne⟩
    · exact hnew
    · have hid : s.taskId ≠ t.taskId := fun he => hne (Db.task_unique hs h.mem_task he)
      refine (h.phased.tasks s hs).push hruns (hpid ▸ hid.symm) ⟨fun hsaga => ?_, hkeeps _ _⟩
        fun hstep => ?_
      · obtain ⟨c, hc, hcid, hcn⟩ := hsaga
        obtain hc | ⟨hct, _⟩ := hcases c hc
        · exact ⟨c, hc, hcid, hcn⟩
        · exact absurd (hcid.symm.trans hct) hid
      · obtain ⟨c, hc, hcid, hcn⟩ := hstep
        obtain hc | ⟨hct, _⟩ := hcases c hc
        · exact ⟨c, hc, hcid, hcn⟩
        · exact absurd (hcid.symm.trans hct) hid

end Failing

/-- The phase's checkpoint changes no run. -/
@[simp] theorem sagaPhaseMarker_runs {enteringWith : Option String} :
    (sagaPhaseMarker db seed passId enteringWith).runs = db.runs := by
  unfold sagaPhaseMarker
  split
  · rfl
  · exact checkpointWrite_runs

/-- The phase's checkpoint changes no task. -/
@[simp] theorem sagaPhaseMarker_tasks {enteringWith : Option String} :
    (sagaPhaseMarker db seed passId enteringWith).tasks = db.tasks := by
  unfold sagaPhaseMarker
  split
  · rfl
  · exact checkpointWrite_tasks

/-- The phase's checkpoint changes no wait. -/
@[simp] theorem sagaPhaseMarker_waits {enteringWith : Option String} :
    (sagaPhaseMarker db seed passId enteringWith).waits = db.waits := by
  unfold sagaPhaseMarker
  split
  · rfl
  · exact checkpointWrite_waits

/-- The phase's checkpoint changes no event. -/
@[simp] theorem sagaPhaseMarker_events {enteringWith : Option String} :
    (sagaPhaseMarker db seed passId enteringWith).events = db.events := by
  unfold sagaPhaseMarker
  split
  · rfl
  · exact checkpointWrite_events

section Pass

variable {db₂ : Db} {r r' : Run} {t : Task} {terminal : Statement} {enteringWith : Option String}
  {delayMs : ℤ} {admission : Run → Task → Prop} [∀ f t, Decidable (admission f t)]

/-- The pass a batch places turns the unit. -/
theorem Failing.pass (h : Failing db db₂ seed runId fence r r' t) (hinv : Inv db)
    (hleft : fence.Left .failed) {p : Run} {runs : Table Run Run.keys} {state : TaskState}
    {availableAtMs : ℤ} (hruns : ∀ s, s ∈ runs ↔ s ∈ db₂.runs ∨ s = p) (hqueued : state.Queued)
    (hp : p = successorRun seed .rollbackPass passId r' state availableAtMs r'.fenceAtMs)
    (hroom : r'.attempt - t.infraRetries < maxAttemptsBounds.max)
    (hsaga : enteringWith = none → sagaBegan db₂ t.taskId)
    (hdb' : db' = taskRollingBack (sagaPhaseMarker { db₂ with runs } seed passId enteringWith) seed
      t.queue runId passId fence) :
    Late seed t.queue t.taskId terminal runId passId fence db' ∧ r' ∈ db'.runs ∧
      ∃ p ∈ db'.runs, p.runId = passId ∧ p.taskId = t.taskId ∧ p.attempt = r'.attempt + 1 ∧
        p.fenceStamp = some ⟨seed, .rollbackPass⟩ := by
  obtain ⟨hlive, hat⟩ := h.attempt hinv
  have hpmem : p ∈ runs := (hruns p).mpr (Or.inr rfl)
  have hrmem : r' ∈ runs := (hruns r').mpr (Or.inl h.mem)
  have hpid : p.runId = passId := by rw [hp]; rfl
  have hpt : p.taskId = t.taskId := by rw [hp]; exact h.taskId
  have hpq : p.queue = r'.queue := by rw [hp]; rfl
  have hpat : p.attempt = r'.attempt + 1 := by rw [hp]; rfl
  have hps : p.fenceStamp = some ⟨seed, .rollbackPass⟩ := by rw [hp]; rfl
  have hpst : p.state = state := by rw [hp]; rfl
  have hthe : ∀ s ∈ runs, s.runId = passId → s = p := fun s hs hid =>
    ({ db₂ with runs } : Db).run_unique hs hpmem (hid.trans hpid.symm)
  -- The marker writes checkpoints alone; the task's row is written after it, once.
  set db₄ := sagaPhaseMarker { db₂ with runs } seed passId enteringWith with hdb₄
  have hruns₄ : db₄.runs = runs := sagaPhaseMarker_runs
  have htasks₄ : db₄.tasks = db₂.tasks := sagaPhaseMarker_tasks
  obtain ⟨t', htasks, hsame, hst, hattempts, hinfra, hmax, hts⟩ : ∃ t',
      Table.Replaced db₄.tasks (taskRollingBack db₄ seed t.queue runId passId fence).tasks t t' ∧
        t.Same t' ∧ t'.state = state ∧ t'.attempts = t.attempts + 1 ∧
        t'.infraRetries = t.infraRetries ∧ t'.maxAttempts = t.attempts + 2 ∧
        t'.fenceStamp = some ⟨seed, .taskRollingBack⟩ := by
    have huser : userAttemptsFrom db₄ seed runId fence t = t.attempts + 1 :=
      h.userAttempts hinv (hruns₄ ▸ hrmem)
    refine runsToTasks_replaced (htasks₄ ▸ h.mem_task) (hruns₄ ▸ hpmem)
      ⟨⟨hpid, hpq.trans h.owned.2.symm, hps⟩, hpt, hlive⟩ rfl (fun g hg hsrc => ?_)
      fun _ => ⟨⟨rfl, rfl⟩, ?_, huser, rfl, ?_, rfl⟩
    · rw [hthe g (hruns₄ ▸ hg) hsrc.selected]
      exact hpt
    · show stampedRunState db₄ seed passId .rollbackPass t = state
      unfold stampedRunState
      rw [stampedRun_eq_some.mpr ⟨hruns₄ ▸ hpmem, hpid, hps⟩]
      exact hpst
    · show userAttemptsFrom db₄ seed runId fence t + 1 = t.attempts + 2
      omega
  rw [htasks₄] at htasks
  subst hdb'
  have hbegan : sagaBegan db₄ t.taskId := by
    -- A pass that enters the phase writes the marker itself, and a later one finds it.
    cases enteringWith with
    | none => exact hsaga rfl
    | some reason =>
      have hf : Durablerun.stampedRun { db₂ with runs } seed passId .rollbackPass = some p :=
        stampedRun_eq_some.mpr ⟨hpmem, hpid, hps⟩
      have hbound : attemptBounds.Within p.attempt := by
        obtain ⟨⟨hlo, _⟩, _, ⟨hilo, hihi⟩, _⟩ := (hinv.settled t h.current.task).counted
        simp only [attemptsBounds, infraRetriesBounds, maxAttemptsBounds] at *
        constructor <;> simp only [attemptBounds, MAX_RUN_ORDINAL] <;> omega
      exact hpt ▸ hasCheckpoint_checkpointWrite hf hbound
  have hcounted : t'.Counted := by
    obtain ⟨⟨hlo, hhi⟩, ⟨hmlo, hmhi⟩, hi, hbudget⟩ := (hinv.settled t h.current.task).counted
    have := hbudget hlive
    simp only [attemptsBounds, maxAttemptsBounds] at *
    refine ⟨?_, ?_, hinfra ▸ hi, fun _ => by omega⟩
    · rw [hattempts]
      constructor <;> simp only [attemptsBounds] <;> omega
    · rw [hmax]
      constructor <;> simp only [maxAttemptsBounds] <;> omega
  have hphased : Phased (taskRollingBack db₄ seed t.queue runId passId fence) := by
    refine h.phased_marker seed passId enteringWith (fun s => by rw [← hruns s, ← hruns₄]; rfl) hpt
      htasks hsame
      (.of_live (by rw [hst]; exact hqueued.live) fun _ => by omega) hthe
      (show ({ db₂ with runs } : Db).checkpoints = db₂.checkpoints from rfl) rfl
  have howing : Owing seed t.queue t.taskId terminal
      (taskRollingBack db₄ seed t.queue runId passId fence) := by
    refine h.succeed hinv hleft (fun s => by rw [← hruns s, ← hruns₄]; rfl) htasks
      sagaPhaseMarker_waits sagaPhaseMarker_events (hpt.trans h.taskId.symm) hpq hpat
      (hpst ▸ hqueued.live) (fun s hs => ?_) hsame (hst.trans hpst.symm) (fun s hs => ?_) hcounted ?_
      hphased
    · obtain rfl := Option.some.inj (hps.symm.trans hs)
      exact hpst ▸ hqueued
    · obtain rfl := Option.some.inj (hts.symm.trans hs)
      trivial
    · rw [← h.run.attempt]
      omega
  refine ⟨⟨howing, fun s hs hid name hname hstamp => ?_⟩, hruns₄ ▸ hrmem, p, hruns₄ ▸ hpmem, hpid,
    hpt, hpat, hps⟩
  rw [hthe s (hruns₄ ▸ hs) hid]
  exact ⟨⟨r', hruns₄ ▸ hrmem, h.run.runId.trans h.runId, h.stamp, h.taskId.trans hpt.symm, hpat⟩,
    fun _ => hpt ▸ hbegan⟩

variable (terminal) in
/-- The saga arm of a batch that took its run: it places the pass and turns the unit, or does
nothing, because the pass is not admitted. -/
theorem Failing.sagaPass (h : Failing db db₂ seed runId fence r r' t) (hinv : Inv db)
    (hfence : fence.Fails) (hleft : fence.Left .failed)
    (hplaced : Placed db seed runId passId fence)
    (hsaga : enteringWith = none → sagaBegan db₂ t.taskId)
    (hrun : Durablerun.sagaPass db₂ seed t.queue runId passId fence enteringWith delayMs admission =
      some db') :
    (db' = db₂ ∧ ¬ passAdmission admission r' t) ∨
      (Late seed t.queue t.taskId terminal runId passId fence db' ∧ r' ∈ db'.runs ∧
        ∃ p ∈ db'.runs, p.runId = passId ∧ p.taskId = t.taskId ∧ p.attempt = r'.attempt + 1 ∧
          p.fenceStamp = some ⟨seed, .rollbackPass⟩) := by
  obtain ⟨db₃, hdb₃, hdb'⟩ := Option.bind_eq_some_iff.mp hrun
  obtain rfl := Option.some.inj hdb'
  obtain ⟨rfl, howned⟩ | ⟨f, hf, ⟨u, hu, hown, hadm⟩, runs, hfree, hruns, rfl⟩ :=
    failureSuccessor_cases hdb₃
  · refine Or.inl ⟨?_, fun hadm => h.not_owned passId hinv ?_⟩
    · have hnone : ∀ s ∈ db₃.runs, s.runId = passId → s.fenceStamp ≠ some ⟨seed, .rollbackPass⟩ :=
        fun s hs hid => h.not_placed hinv hfence hplaced (Or.inr rfl) hs hid
      have hmarker : sagaPhaseMarker db₃ seed passId enteringWith = db₃ := by
        unfold sagaPhaseMarker
        split
        · rfl
        · exact checkpointWrite_of_none (stampedRun_eq_none.mpr hnone)
      rw [hmarker]
      exact runsToTasks_of_forall_not fun _ _ f hf hfol => hnone f hf hfol.selected hfol.stamp
    · rw [← h.taskId]
      exact howned r' h.stampedRun ⟨t, h.mem_task, h.owned, hadm⟩
  · obtain rfl := Option.some.inj (h.stampedRun.symm.trans hf)
    obtain rfl := h.eq_task hu hown
    exact Or.inr (h.pass hinv hleft hruns (by split <;> trivial) rfl hadm.2.2 hsaga rfl)

end Pass

/-! ## The retry and the end -/

section Retry

variable {db₂ : Db} {r r' : Run} {t t' : Task} {terminal : Statement}

/-- A successor a batch places, with its task following it, turns the unit. -/
theorem Failing.successor (h : Failing db db₂ seed runId fence r r' t) (hinv : Inv db)
    (hleft : fence.Left .failed) {p : Run} {runs : Table Run Run.keys} {state : TaskState}
    {availableAtMs : ℤ} (hruns : ∀ s, s ∈ runs ↔ s ∈ db₂.runs ∨ s = p) (hqueued : state.Queued)
    (hp : p = successorRun seed .successor passId r' state availableAtMs r'.fenceAtMs)
    (hdb' : db' = { db₂ with runs := runs, tasks := db'.tasks })
    (htasks : Table.Replaced db₂.tasks db'.tasks t t') (hsame : t.Same t') (hst : t'.state = state)
    (hstamp : ∀ s ∈ t'.fenceStamp, s.statement.LeftTask t'.state) (hcounted : t'.Counted)
    (hcount : r.attempt = t'.attempts + t'.infraRetries)
    (hspent : sagaBegan db₂ t.taskId → t'.maxAttempts = t'.attempts + 1) :
    Late seed t.queue t.taskId terminal runId passId fence db' ∧ r' ∈ db'.runs ∧
      ∃ p ∈ db'.runs, p.runId = passId ∧ p.taskId = t.taskId ∧ p.attempt = r'.attempt + 1 ∧
        p.fenceStamp = some ⟨seed, .successor⟩ := by
  have hpmem : p ∈ runs := (hruns p).mpr (Or.inr rfl)
  have hrmem : r' ∈ runs := (hruns r').mpr (Or.inl h.mem)
  have hpid : p.runId = passId := by rw [hp]; rfl
  have hpt : p.taskId = t.taskId := by rw [hp]; exact h.taskId
  have hpq : p.queue = r'.queue := by rw [hp]; rfl
  have hpat : p.attempt = r'.attempt + 1 := by rw [hp]; rfl
  have hps : p.fenceStamp = some ⟨seed, .successor⟩ := by rw [hp]; rfl
  have hpst : p.state = state := by rw [hp]; rfl
  have hruns' : db'.runs = runs := by rw [hdb']
  have hchecks : db'.checkpoints = db₂.checkpoints := by rw [hdb']
  have hphased : Phased db' := by
    refine h.phased_marker seed passId none (fun s => by rw [hruns', hruns]) hpt htasks hsame
      (.of_live (by rw [hst]; exact hqueued.live) fun hs => hspent ?_) (fun s hs hid => ?_)
      (show ({ db₂ with runs } : Db).checkpoints = db₂.checkpoints from rfl) hchecks
    · rwa [hsame.taskId, sagaBegan_of_eq hchecks] at hs
    · exact ({ db₂ with runs } : Db).run_unique hs hpmem (hid.trans hpid.symm)
  have howing : Owing seed t.queue t.taskId terminal db' := by
    refine h.succeed hinv hleft (fun s => by rw [hruns', hruns]) htasks (by rw [hdb']) (by rw [hdb'])
      (hpt.trans h.taskId.symm) hpq hpat (hpst ▸ hqueued.live) (fun s hs => ?_) hsame
      (hst.trans hpst.symm) hstamp hcounted hcount hphased
    obtain rfl := Option.some.inj (hps.symm.trans hs)
    exact hpst ▸ hqueued
  refine ⟨⟨howing, fun s hs hid name hname hstamp => ?_⟩, hruns' ▸ hrmem, p, hruns' ▸ hpmem, hpid,
    hpt, hpat, hps⟩
  rw [hruns'] at hs
  obtain rfl := ({ db₂ with runs } : Db).run_unique hs hpmem (hid.trans hpid.symm)
  refine ⟨⟨r', hruns' ▸ hrmem, h.run.runId.trans h.runId, h.stamp, h.taskId.trans hpt.symm, hpat⟩,
    fun hn => ?_⟩
  rw [hn, hps] at hstamp
  simp at hstamp

/-- The terminal arm ends the task with its failed run. -/
theorem Failing.finish (h : Failing db db₂ seed runId fence r r' t) (hinv : Inv db)
    (hleft : fence.Left .failed) (hterminal : ∀ s, terminal.LeftTask s)
    (hdb' : db' = { db₂ with tasks := db'.tasks })
    (htasks : Table.Replaced db₂.tasks db'.tasks t t') (hsame : t.Same t')
    (hst : t'.state = .failed) (hts : t'.fenceStamp = some ⟨seed, terminal⟩)
    (hcounted : t'.Counted) (hband : r.attempt = t'.attempts + t'.infraRetries ∨
      r.attempt = t'.attempts + t'.infraRetries + 1)
    (hbudget : r'.attempt - t'.infraRetries ≤ t'.maxAttempts)
    (howed : ¬ sagaBegan db₂ t.taskId → rollbackPending db₂ t.taskId →
      MAX_COUNT ≤ r'.attempt - t'.infraRetries) :
    Owing seed t.queue t.taskId terminal db' := by
  have hruns' : db'.runs = db₂.runs := by rw [hdb']
  have hwaits' : db'.waits = db.waits := by rw [hdb', ← h.waits]
  have hchecks : db'.checkpoints = db₂.checkpoints := by rw [hdb']
  have hturned : Turned db db' r r' t t' := by
    refine h.turned hleft htasks hsame (fun s hs => ?_) hcounted
    obtain rfl := Option.some.inj (hts.symm.trans hs)
    exact hterminal _
  have htop := (hinv.settled t h.current.task).top h.current.run h.current.taskId h.current.live
  have hphase : InPhase db' t' := by
    refine ⟨by simp [hst], fun _ _ s hs hid => ?_, fun _ hsaga hstep => ?_, by simp [hst]⟩
    · have hle : s.attempt ≤ r'.attempt := by
        rw [h.run.attempt]
        rcases (h.runs s).mp (hruns' ▸ hs) with rfl | ⟨hs, _⟩
        · exact h.run.attempt.le
        · exact ((htop.2 s.attempt).mp ⟨s, hs, hid.trans hsame.taskId, rfl⟩).2
      omega
    · rw [hsame.taskId, sagaBegan_of_eq hchecks] at hsaga
      rw [hsame.taskId, stepStarted_of_eq hchecks] at hstep
      exact ⟨r', hruns' ▸ h.mem, h.taskId.trans hsame.taskId.symm,
        howed hsaga (h.phased.pending hsaga hstep)⟩
  have hphased : Phased db' := by
    refine h.phased.replace ?_ htasks h.mem_task hsame hchecks hphase
    rw [hruns']
    exact .refl Run.Same.refl _
  have hcore := hinv.toCore.endUnit hturned (hruns' ▸ h.runs)
    (fun w hw => ⟨hwaits' ▸ hw, (hinv.held.no_wait (hwaits' ▸ hw) h.current.run
      (by simp [h.running])).symm⟩)
    (by simp [h.failed]) (by simp [hst]) (fun hne => absurd h.failed hne) hband hphased
  exact hturned.owing hinv hcore (fun w hw => hwaits' ▸ hw) (by rw [hdb', ← h.events])
    (Or.inr hts)

end Retry

end Durablerun
