import Durablerun.Store.LifecycleTheorems
import Durablerun.Store.LosingBatch
import Durablerun.Store.Sweep

/-!
# What a sweep reports is what it did

A sweep's batch reports by the rows of its statements. `task-rolling-back` changes a row exactly when
the batch placed a rollback pass, and `bookkeeping` exactly when it placed a successor; so the report
names the action the batch took on the task's life, the run it names next is the task's live run, and
a batch that reports nothing changed nothing.

Reference: `packages/store-libsql/src/store.ts` and `packages/core/src/statements/sweep.ts`.
-/

namespace Durablerun

open Relational

variable {s : Sys} {seed queue : String} {now : ℤ} {db db' passed : Db} {swept : Swept}
  {fence : Statement} {reason : String} {r p : Run} {t : Task} {out : Outcome}

/-! ## The rows of a statement -/

/-- A `'runs-to-tasks'` statement that names one run changes one row when that run is stamped and its
task is one the statement narrows to. -/
theorem runsToTasksRows_eq_one {id : String} {narrow : Task → Prop} [DecidablePred narrow] :
    runsToTasksRows db seed fence queue (fun f => f.runId = id) narrow = 1 ↔
      ∃ f ∈ db.runs, f.runId = id ∧ f.queue = queue ∧ f.fenceStamp = some ⟨seed, fence⟩ ∧
        ∃ t ∈ db.tasks, f.taskId = t.taskId ∧ t.queue = queue ∧ narrow t := by
  unfold runsToTasksRows
  constructor
  · intro hone
    obtain ⟨t, ht⟩ := List.length_eq_one_iff.mp hone
    have hmem : t ∈ db.tasks.rows.filter _ := ht ▸ List.mem_singleton_self t
    obtain ⟨htasks, hp⟩ := List.mem_filter.mp hmem
    obtain ⟨⟨f, hf, ⟨hid, hq, hs⟩, hown⟩, htq, hn⟩ := of_decide_eq_true hp
    exact ⟨f, hf, hid, hq, hs, t, htasks, hown, htq, hn⟩
  · rintro ⟨f, hf, hid, hq, hs, t, ht, hown, htq, hn⟩
    have hnodup := db.tasks.nodup_rows Task.keys_ne_nil
    refine ((List.perm_ext_iff_of_nodup (hnodup.filter _) (List.nodup_singleton t)).mpr
      fun u => ?_).length_eq
    rw [List.mem_filter, List.mem_singleton, decide_eq_true_eq]
    constructor
    · rintro ⟨hu, ⟨g, hg, ⟨hgid, _⟩, hgown⟩, _⟩
      obtain rfl := db.run_unique hg hf (hgid.trans hid.symm)
      exact db.task_unique hu ht (hgown.symm.trans hown)
    · rintro rfl
      exact ⟨ht, ⟨f, hf, ⟨hid, hq, hs⟩, hown⟩, htq, hn⟩

/-- No run carries the stamp of the batch's pass. -/
def Unpassed (db : Db) (seed : String) : Prop :=
  ∀ r ∈ db.runs, r.fenceStamp ≠ some ⟨seed, .rollbackPass⟩

/-- The saga arm of a sweep changes a task exactly when it places a pass. -/
theorem capRollingBackRows_eq_one (hno : Unpassed db seed)
    (hqueue : ∀ f ∈ db.runs, f.fenceStamp = some ⟨seed, fence⟩ → f.queue = swept.queue)
    (hpass : capSagaPass db seed swept fence reason = some passed) :
    capRollingBackRows db seed swept fence reason = 1 ↔
      ∃ p ∈ passed.runs, p.fenceStamp = some ⟨seed, .rollbackPass⟩ := by
  obtain ⟨placed, hplaced, hpassed⟩ := Option.bind_eq_some_iff.mp hpass
  obtain rfl := Option.some.inj hpassed
  have hsucc : failureSuccessor db seed .rollbackPass fence swept.passId swept.runId 0 .pending
      (passAdmission (capAdmission db)) = some placed := hplaced
  have hruns : (taskRollingBack (sagaPhaseMarker placed seed swept.passId (some reason)) seed
      swept.queue swept.runId swept.passId fence).runs = placed.runs := sagaPhaseMarker_runs
  have hmarked : (sagaPhaseMarker placed seed swept.passId (some reason)).runs = placed.runs :=
    sagaPhaseMarker_runs
  unfold capRollingBackRows
  rw [hsucc, hruns]
  simp only [runsToTasksRows_eq_one, hmarked]
  constructor
  · rintro ⟨p, hp, _, _, hs, _⟩
    exact ⟨p, hp, hs⟩
  · rintro ⟨p, hp, hs⟩
    obtain ⟨rfl, _⟩ | ⟨f, hf, ⟨t, ht, hown, hadm⟩, runs, _, hmem, rfl⟩ :=
      failureSuccessor_cases hsucc
    · exact absurd hs (hno p hp)
    · obtain hp' | rfl := (hmem p).mp hp
      · exact absurd hs (hno p hp')
      · obtain ⟨hf, _, hfs⟩ := stampedRun_eq_some.mp hf
        have ht' : t ∈ (sagaPhaseMarker { db with runs } seed swept.passId (some reason)).tasks := by
          rw [sagaPhaseMarker_tasks]
          exact ht
        exact ⟨_, hp, rfl, hqueue f hf hfs, hs, t, ht', hown.1.symm,
          hown.2.trans (hqueue f hf hfs), hadm.1⟩

/-- An update that stamps no run with a pass's stamp places no pass. -/
theorem Unpassed.updateRuns {p : Run → Prop} [DecidablePred p] {f : Table.Change Run.keys}
    (h : Unpassed db seed) (hf : ∀ r, (f r).fenceStamp ≠ some ⟨seed, .rollbackPass⟩) :
    Unpassed { db with runs := db.runs.update p f } seed := by
  intro r hr
  obtain ⟨r₀, _, _, rfl⟩ | ⟨hr, _⟩ := Table.update_cases hr
  · exact hf r₀
  · exact h r hr

/-- A seed that is on no run has placed no pass. -/
theorem Unpassed.of_unstamped (h : Unstamped db seed) : Unpassed db seed :=
  fun r hr hs => h r hr _ hs rfl

/-- The pass a sweep places is pending. -/
theorem capSagaPass_placed (hno : Unpassed db seed)
    (hpass : capSagaPass db seed swept fence reason = some passed) (hp : p ∈ passed.runs)
    (hs : p.fenceStamp = some ⟨seed, .rollbackPass⟩) : ∃ f ∈ db.runs, f.runId = swept.runId ∧
      f.fenceStamp = some ⟨seed, fence⟩ ∧ p.runId = swept.passId ∧ p.taskId = f.taskId ∧
        p.state = .pending := by
  obtain ⟨placed, hplaced, hpassed⟩ := Option.bind_eq_some_iff.mp hpass
  obtain rfl := Option.some.inj hpassed
  have hp : p ∈ (sagaPhaseMarker placed seed swept.passId (some reason)).runs := hp
  rw [sagaPhaseMarker_runs] at hp
  obtain ⟨rfl, _⟩ | ⟨f, hf, _, runs, _, hmem, rfl⟩ := failureSuccessor_cases hplaced
  · exact absurd hs (hno p hp)
  · obtain hp | rfl := (hmem p).mp hp
    · exact absurd hs (hno p hp)
    · obtain ⟨hf, hid, hfs⟩ := stampedRun_eq_some.mp hf
      exact ⟨f, hf, hid, hfs, rfl, rfl, rfl⟩

/-- What ends a batch keeps the runs that neither sleep nor carry a stamp of its wake. -/
theorem mem_finish {taskId payloadJson runId : String} {terminal name : Statement}
    (hp : p ∈ db.runs) (hst : p.state ≠ .sleeping) (hs : p.fenceStamp = some ⟨seed, name⟩)
    (hname : name ≠ .wakeRuns) :
    p ∈ (addTaskDone (waitsGone db seed runId fence) seed queue taskId terminal payloadJson).runs := by
  have hp' : p ∈ (waitsGone db seed runId fence).runs := hp
  refine mem_addTaskDone hp' hst ?_
  rw [hs]
  simpa using hname

/-- And adds no run under another statement's stamp. -/
theorem mem_of_finish {taskId payloadJson runId : String} {terminal name : Statement}
    (hp : p ∈ (addTaskDone (waitsGone db seed runId fence) seed queue taskId terminal
      payloadJson).runs) (hs : p.fenceStamp = some ⟨seed, name⟩) (hname : ¬ name.Wakes) :
    ∃ p₀ ∈ db.runs, p₀.Same p ∧ p₀.fenceStamp = some ⟨seed, name⟩ := by
  obtain ⟨p₀, hp₀, hsame, hs₀, _⟩ := Frame.finish.stamped_before hp hs fun n hn he => hname <| by
    rwa [(Stamp.mk.inj he).2]
  exact ⟨p₀, hp₀, hsame, hs₀⟩

/-! ## A lost launch -/

/-- The sweep's relaunch cap changes a task to rolling back exactly when it leaves a pass. -/
theorem sweepLostLaunch_passed (hfresh : Unstamped db seed)
    (hrun : sweepLostLaunch seed swept now db = some out) :
    capRollingBackRows (capLostLaunchCas (reopenLostLaunchCas db seed swept now) seed swept now) seed
        swept .cap REASON_RELAUNCH_CAP = 1 ↔
      ∃ p ∈ out.db.runs, p.fenceStamp = some ⟨seed, .rollbackPass⟩ := by
  obtain ⟨passed, hpass, hout⟩ := Option.bind_eq_some_iff.mp hrun
  obtain rfl := Option.some.inj hout
  have hno : Unpassed (capLostLaunchCas (reopenLostLaunchCas db seed swept now) seed swept now)
      seed := ((Unpassed.of_unstamped hfresh).updateRuns fun r => by simp [reopenAssignments]).updateRuns
        fun r => by simp [failAssignments, failedRun]
  have hqueue : ∀ f ∈ (capLostLaunchCas (reopenLostLaunchCas db seed swept now) seed swept now).runs,
      f.fenceStamp = some ⟨seed, .cap⟩ → f.queue = swept.queue := by
    intro f hf hs
    obtain ⟨f₀, _, hg, rfl⟩ | ⟨hf, _⟩ := Table.update_cases hf
    · exact hg.1.2.1
    · obtain ⟨f₀, _, _, rfl⟩ | ⟨hf, _⟩ := Table.update_cases hf
      · simp [reopenAssignments] at hs
      · exact absurd rfl (hfresh f hf _ hs)
  rw [capRollingBackRows_eq_one hno hqueue hpass]
  constructor
  · rintro ⟨p, hp, hs⟩
    obtain ⟨_, _, _, _, _, _, hst⟩ := capSagaPass_placed hno hpass hp hs
    have hp' : p ∈ (taskFail (taskPending passed seed swept) seed swept).runs := hp
    exact ⟨p, mem_finish hp' (by simp [hst]) hs (by decide), hs⟩
  · rintro ⟨p, hp, hs⟩
    obtain ⟨p₀, hp₀, _, hs₀⟩ := mem_of_finish hp hs (by simp [Statement.Wakes])
    exact ⟨p₀, hp₀, hs₀⟩

/-! ## A dead claim -/

/-- The statements of a claim timeout that follow its compare-and-set, by the run they leave: a
successor, or a pass. -/
structure TimeoutRows (db : Db) (seed : String) (swept : Swept) (now : ℤ) (placed passed after : Db) :
    Prop where
  successor : claimTimeoutSuccessor (failClaimTimeoutCas db seed swept now) seed swept = some placed
  pass : capSagaPass placed seed swept .fail REASON_INFRA_CAP = some passed
  booked : runsToTasksRows (timeoutTerminal passed seed swept) seed .successor swept.queue
      (fun f => f.runId = swept.passId) (fun t => t.state.Live) = 1 ↔
    ∃ p ∈ after.runs, p.fenceStamp = some ⟨seed, .successor⟩
  rolled : capRollingBackRows placed seed swept .fail REASON_INFRA_CAP = 1 ↔
    ∃ p ∈ after.runs, p.fenceStamp = some ⟨seed, .rollbackPass⟩
  /-- Where it left neither, the run it failed and every task are as they were met. -/
  bare : (¬ ∃ p ∈ after.runs, p.fenceStamp = some ⟨seed, .successor⟩) →
    (¬ ∃ p ∈ after.runs, p.fenceStamp = some ⟨seed, .rollbackPass⟩) →
      passed.runs = (failClaimTimeoutCas db seed swept now).runs ∧ passed.tasks = db.tasks

/-- A saga arm that places no pass touches no task. -/
theorem capSagaPass_bare (hno : Unpassed passed seed)
    (hpass : capSagaPass db seed swept fence reason = some passed) :
    passed.runs = db.runs ∧ passed.tasks = db.tasks := by
  obtain ⟨placed, hplaced, hpassed⟩ := Option.bind_eq_some_iff.mp hpass
  obtain rfl := Option.some.inj hpassed
  have hruns : (taskRollingBack (sagaPhaseMarker placed seed swept.passId (some reason)) seed
      swept.queue swept.runId swept.passId fence).runs = placed.runs := sagaPhaseMarker_runs
  have hthere : ∀ q, q ∈ placed.runs → q ∈ (taskRollingBack (sagaPhaseMarker placed seed
      swept.passId (some reason)) seed swept.queue swept.runId swept.passId fence).runs :=
    fun q hq => hruns ▸ hq
  have hsame : taskRollingBack (sagaPhaseMarker placed seed swept.passId (some reason)) seed
      swept.queue swept.runId swept.passId fence =
        sagaPhaseMarker placed seed swept.passId (some reason) := by
    refine runsToTasks_of_forall_not fun t _ f hf hfol => ?_
    rw [sagaPhaseMarker_runs, ← hruns] at hf
    exact hno f hf hfol.stamp
  obtain ⟨rfl, _⟩ | ⟨f, _, _, runs, _, hmem, rfl⟩ := failureSuccessor_cases hplaced
  · rw [hsame]
    exact ⟨sagaPhaseMarker_runs, sagaPhaseMarker_tasks⟩
  · exact absurd rfl (hno _ (hthere _ ((hmem _).mpr (Or.inr rfl))))

/-- A saga arm adds its pass to the runs, and no other. -/
theorem mem_of_capSagaPass {p : Run}
    (hpass : capSagaPass db seed swept fence reason = some passed) (hp : p ∈ passed.runs)
    (hs : p.fenceStamp ≠ some ⟨seed, .rollbackPass⟩) : p ∈ db.runs := by
  obtain ⟨rolled, hroll, hpassed⟩ := Option.bind_eq_some_iff.mp hpass
  obtain rfl := Option.some.inj hpassed
  have hrolled : p ∈ (sagaPhaseMarker rolled seed swept.passId (some reason)).runs := hp
  rw [sagaPhaseMarker_runs] at hrolled
  obtain ⟨rfl, _⟩ | ⟨f, _, _, runs, _, hmem, rfl⟩ := failureSuccessor_cases hroll
  · exact hrolled
  · obtain hbefore | rfl := (hmem p).mp hrolled
    · exact hbefore
    · exact absurd rfl hs

/-- A run that a claim timeout has stamped, up to its successor, failed, or is the successor. -/
theorem claimTimeoutSuccessor_stamped {placed : Db} (hfresh : Unstamped db seed)
    (hsucc : claimTimeoutSuccessor (failClaimTimeoutCas db seed swept now) seed swept = some placed) :
    ∀ f ∈ placed.runs, ∀ stamp ∈ f.fenceStamp, stamp.seed = seed →
      f.queue = swept.queue ∧ (stamp.statement = .fail ∨ stamp.statement = .successor ∧
        f.runId = swept.passId ∧ f.state = .pending ∧
          ∃ t ∈ db.tasks, f.taskId = t.taskId ∧ t.queue = swept.queue ∧ t.state.Live ∧
            t.infraRetries < INFRA_RETRY_CAP) := by
  have hfailed : ∀ f ∈ (failClaimTimeoutCas db seed swept now).runs, ∀ stamp ∈ f.fenceStamp,
      stamp.seed = seed → stamp.statement = .fail ∧ f.queue = swept.queue := by
    intro f hf stamp hs hseed
    obtain ⟨f₀, _, hg, rfl⟩ | ⟨hf, _⟩ := Table.update_cases hf
    · obtain rfl := Option.some.inj hs
      exact ⟨rfl, hg.1.2.1⟩
    · exact absurd hseed (hfresh f hf stamp hs)
  intro f hf stamp hs hseed
  obtain ⟨rfl, _⟩ | ⟨g, hg, ⟨t, ht, hown, hadm⟩, runs, _, hmem, rfl⟩ :=
    failureSuccessor_cases hsucc
  · exact ⟨(hfailed f hf stamp hs hseed).2, Or.inl (hfailed f hf stamp hs hseed).1⟩
  · obtain hf | rfl := (hmem f).mp hf
    · exact ⟨(hfailed f hf stamp hs hseed).2, Or.inl (hfailed f hf stamp hs hseed).1⟩
    · obtain ⟨hg, _, hgs⟩ := stampedRun_eq_some.mp hg
      have hqueue : g.queue = swept.queue := (hfailed g hg _ hgs rfl).2
      obtain rfl := Option.some.inj hs
      exact ⟨hqueue, Or.inr ⟨rfl, rfl, rfl, t, ht, hown.1.symm, hown.2.trans hqueue, hadm.1,
        hadm.2.2.1⟩⟩

/-- What the sweep of a timeout left of its rows. -/
theorem sweepClaimTimeout_rows (hfresh : Unstamped db seed)
    (hrun : sweepClaimTimeout seed swept now db = some out) :
    ∃ placed passed, TimeoutRows db seed swept now placed passed out.db := by
  obtain ⟨placed, hsucc, hrun⟩ := Option.bind_eq_some_iff.mp hrun
  obtain ⟨passed, hpass, hout⟩ := Option.bind_eq_some_iff.mp hrun
  obtain rfl := Option.some.inj hout
  have hplaced := claimTimeoutSuccessor_stamped hfresh hsucc
  have hno : Unpassed placed seed := fun f hf hs => by
    obtain ⟨_, hstatement | ⟨hstatement, _⟩⟩ := hplaced f hf _ hs rfl <;> cases hstatement
  have hqueue : ∀ f ∈ placed.runs, f.fenceStamp = some ⟨seed, .fail⟩ → f.queue = swept.queue :=
    fun f hf hs => (hplaced f hf _ hs rfl).1
  have hrolled := capRollingBackRows_eq_one hno hqueue hpass
  -- The end of the batch keeps the successor and the pass.
  have hkept : ∀ name, name ≠ .wakeRuns → ¬ name.Wakes → (∀ p ∈ passed.runs,
      p.fenceStamp = some ⟨seed, name⟩ → p.state = .pending) →
        ((∃ p ∈ passed.runs, p.fenceStamp = some ⟨seed, name⟩) ↔
          ∃ p ∈ (addTaskDone (waitsGone (bookkeeping (timeoutTerminal passed seed swept) seed swept)
            seed swept.runId .fail) seed swept.queue swept.taskId .taskTerminal
              (encodeTaskOutcome (.failed REASON_INFRA_CAP))).runs,
            p.fenceStamp = some ⟨seed, name⟩) := by
    intro name hname hwakes hpending
    constructor
    · rintro ⟨p, hp, hs⟩
      have hp' : p ∈ (bookkeeping (timeoutTerminal passed seed swept) seed swept).runs := hp
      exact ⟨p, mem_finish hp' (by simp [hpending p hp hs]) hs hname, hs⟩
    · rintro ⟨p, hp, hs⟩
      obtain ⟨p₀, hp₀, _, hs₀⟩ := mem_of_finish hp hs hwakes
      exact ⟨p₀, hp₀, hs₀⟩
  have hkeptPass := hkept .rollbackPass (by decide) (by simp [Statement.Wakes]) fun p hp hs =>
    (capSagaPass_placed hno hpass hp hs).choose_spec.2.2.2.2.2
  have hnext : ∀ p ∈ passed.runs, p.fenceStamp = some ⟨seed, .successor⟩ →
      p.queue = swept.queue ∧ p.runId = swept.passId ∧ p.state = .pending ∧
        ∃ t ∈ db.tasks, p.taskId = t.taskId ∧ t.queue = swept.queue ∧ t.state.Live ∧
          t.infraRetries < INFRA_RETRY_CAP := by
    intro p hp hs
    have hbefore : p ∈ placed.runs := mem_of_capSagaPass hpass hp (by simp [hs])
    obtain ⟨hq, hstatement | ⟨_, hplaced⟩⟩ := hplaced p hbefore _ hs rfl
    · cases hstatement
    · exact ⟨hq, hplaced⟩
  have hkeptNext := hkept .successor (by decide) (by simp [Statement.Wakes]) fun p hp hs =>
    (hnext p hp hs).2.2.1
  have htasks : placed.tasks = (failClaimTimeoutCas db seed swept now).tasks :=
    failureSuccessor_tasks hsucc
  refine ⟨placed, passed, hsucc, hpass, ?_, hrolled.trans hkeptPass, fun hnosucc hnopass => ?_⟩
  · rw [← hkeptNext, runsToTasksRows_eq_one]
    constructor
    · rintro ⟨f, hf, _, _, hs, _⟩
      exact ⟨f, hf, hs⟩
    · rintro ⟨p, hp, hs⟩
      obtain ⟨hq, hid, _, t, ht, hown, htq, hl, hbelow⟩ := hnext p hp hs
      -- The successor has the id that a pass would have, so there is no pass.
      have hunpassed : Unpassed passed seed := by
        intro q hq hqs
        obtain ⟨_, _, _, _, hqid, _⟩ := capSagaPass_placed hno hpass hq hqs
        rw [passed.run_unique hq hp (hqid.trans hid.symm), hs] at hqs
        cases hqs
      have ht' : t ∈ passed.tasks := by
        rw [(capSagaPass_bare hunpassed hpass).2, htasks]
        exact ht
      refine ⟨p, hp, hid, hq, hs, t, Table.mem_update_of_neg ht' ?_, hown, htq, hl⟩
      rintro ⟨_, _, _, _, hcap, _⟩
      exact hbelow.ne hcap
  · have hunpassed : Unpassed passed seed := fun q hq hqs =>
      hnopass (hkeptPass.mp ⟨q, hq, hqs⟩)
    obtain ⟨hruns, hpassedTasks⟩ := capSagaPass_bare hunpassed hpass
    have hthere : ∀ q, q ∈ placed.runs → q ∈ passed.runs := fun q hq => hruns ▸ hq
    refine ⟨?_, hpassedTasks.trans htasks⟩
    obtain ⟨rfl, _⟩ | ⟨f, _, _, runs, _, hmem, rfl⟩ := failureSuccessor_cases hsucc
    · exact hruns
    · exact absurd (hkeptNext.mp ⟨_, hthere _ ((hmem _).mpr (Or.inr rfl)), rfl⟩) hnosucc

/-! ## What a sweep did -/

section Delivery

variable {b : Batch} {r' : Run} {name : Statement}

/-- Only an insert leaves the stamp of a placed run. -/
theorem Run.Move.unplaced {call : Call} (hm : Run.Move seed now db db' call r r')
    (hr : r.fenceStamp ≠ some ⟨seed, name⟩) (hname : name = .successor ∨ name = .rollbackPass) :
    r'.fenceStamp ≠ some ⟨seed, name⟩ := by
  cases hm with
  | expired => exact hr
  | claimed | activated | extended | deferred | rescheduled | suspended | leased | awaited
  | completed | failed | reopened | capped | timedOut | cancelled | woken =>
    obtain rfl | rfl := hname <;>
      simp [claimAssignments, activateAssignments, leaseAssignments, parkAssignments,
        suspendAssignments, completeAssignments, failAssignments, failedRun, reopenAssignments,
        clearedWake, Run.stampedAt]

/-- A run that carries the stamp of this batch's successor or pass is the one it placed, after the
run it failed. -/
theorem Delivers.placed (h : Delivers s b now) (hfresh : Unstamped s.db b.seed)
    (hname : name = .successor ∨ name = .rollbackPass) (hp : p ∈ (b.after now s.db).runs)
    (hs : p.fenceStamp = some ⟨b.seed, name⟩) :
    p.state.Queued ∧ (∀ q ∈ s.db.runs, q.runId ≠ p.runId) ∧ b.call.Places name ∧
      b.call.nextRunId = some p.runId ∧ ∃ r ∈ s.db.runs, r.state = .running ∧ p.taskId = r.taskId ∧
        ∃ r' ∈ (b.after now s.db).runs, ¬ r'.state.Live ∧
          Run.Move b.seed now s.db (b.after now s.db) b.call r r' := by
  -- No run there was moved into it, so its id is a new one and it was inserted.
  have hnew : ∀ q ∈ s.db.runs, ¬ Run.Moved b.seed now s.db (b.after now s.db) b.call q p := by
    rintro q hq (rfl | hm)
    · exact hfresh _ hq _ hs rfl
    · exact hm.unplaced (fun hqs => hfresh q hq _ hqs rfl) hname hs
  have hfree : ∀ q ∈ s.db.runs, q.runId ≠ p.runId := by
    intro q hq hid
    obtain ⟨q', hq', hm⟩ := h.effect.runs.after q hq
    have hsame : q'.runId = q.runId := by
      obtain rfl | hm := hm
      · rfl
      · exact hm.same.runId
    exact hnew q hq ((b.after now s.db).run_unique hq' hp (hsame.trans hid) ▸ hm)
  obtain ⟨q, hq, hm⟩ | hborn := h.effect.runs.before p hp
  · exact absurd hm (hnew q hq)
  obtain ⟨hqueued, hplaces, hnext, r, hr, hrunning, hid⟩ : p.state.Queued ∧ b.call.Places name ∧
      b.call.nextRunId = some p.runId ∧ ∃ r ∈ s.db.runs, r.state = .running ∧ p.taskId = r.taskId := by
    generalize b.call = call at hborn
    cases hborn with
    | first | revived => obtain rfl | rfl := hname <;> simp [firstRun, revivalRun] at hs
    | @followed call r name' id state delayMs hr hrunning hplaces hqueued _ hnext =>
      obtain rfl : name' = name := (Stamp.mk.inj (Option.some.inj hs)).2
      exact ⟨hqueued, hplaces, hnext, r, hr, hrunning, rfl⟩
  obtain ⟨_, r', hr', hdead, hm, _⟩ := h.follows hp hfree hr (by simp [hrunning]) hid
  exact ⟨hqueued, hfree, hplaces, hnext, r, hr, hrunning, hid, r', hr', hdead, hm⟩

/-- The one run a sweep takes out of play is the one its scan found. -/
theorem Run.Move.of_sweep {call : Call} (hm : Run.Move seed now db db' call r r')
    (hdead : ¬ r'.state.Live) (hcall : call = .sweepLostLaunch swept ∨ call = .sweepClaimTimeout swept) :
    r.runId = swept.runId := by
  cases hm with
  | capped hg | timedOut hg =>
    obtain hcall | hcall := hcall <;> cases hcall
    exact hg.1.1
  | reopened | woken => exact absurd trivial hdead
  | claimed | activated | extended | deferred | rescheduled | suspended | leased | awaited
  | completed | failed | cancelled | expired => obtain hcall | hcall := hcall <;> cases hcall

/-- It is the next run of the task, and took the action that places it. -/
theorem Delivers.placed_step (h : Delivers s b now) (hfresh : Unstamped s.db b.seed)
    (hname : name = .successor ∨ name = .rollbackPass) (hp : p ∈ (b.after now s.db).runs)
    (hs : p.fenceStamp = some ⟨b.seed, name⟩) :
    ∃ a, p.PlacedBy b.seed a ∧ b.call.Acts a ∧
      Lifecycle.Step a (lifeOf s.db p.taskId) (lifeOf (b.after now s.db) p.taskId) := by
  obtain ⟨hqueued, hnew, _, _, r, hr, hrunning, hid, _⟩ := h.placed hfresh hname hp hs
  have hinv := h.course.inv
  have hl : r.state.Live := by simp [hrunning]
  obtain ⟨t, ht, hown⟩ := hinv.owner r hr
  obtain ⟨t', ht', hmoved⟩ := h.effect.tasks.after t ht
  have hpid : p.taskId = t'.taskId := hid.trans (hown.1.symm.trans hmoved.same.taskId.symm)
  obtain ⟨a, hplaced, hacts, hstep⟩ := h.life_followed ht ht' hmoved.same.taskId hr hown.1.symm hl hp
    (hid.trans hown.1.symm) hnew hqueued.live
  refine ⟨a, hplaced, hacts, ?_⟩
  rw [hpid, lifeOf_live h.inv.toUnits ht' hp hpid hqueued.live, hmoved.same.taskId,
    lifeOf_live hinv.toUnits ht hr hown.1.symm hl]
  exact hstep

/-- A batch that took its run out of play and placed none after it ended the task. -/
theorem Delivers.ended_step (h : Delivers s b now)
    (hr : r ∈ s.db.runs) (hl : r.state.Live) (hr' : r' ∈ (b.after now s.db).runs)
    (hid : r'.runId = r.runId) (hdead : ¬ r'.state.Live)
    (hnone : ∀ name, name = .successor ∨ name = .rollbackPass →
      ¬ ∃ p ∈ (b.after now s.db).runs, p.fenceStamp = some ⟨b.seed, name⟩) :
    ∃ t ∈ s.db.tasks, runOwnedByTask r t ∧ ∃ t' ∈ (b.after now s.db).tasks, t'.taskId = t.taskId ∧
      ¬ t'.state.Live := by
  have hinv := h.course.inv
  obtain ⟨t, ht, hown⟩ := hinv.owner r hr
  obtain ⟨t', ht', hmoved⟩ := h.effect.tasks.after t ht
  refine ⟨t, ht, hown, t', ht', hmoved.same.taskId, fun htl' => ?_⟩
  obtain ⟨p, hp, hpid, hpl⟩ := (h.inv.settled t' ht').hasLive htl'
  have hptask : p.taskId = r.taskId := hpid.trans (hmoved.same.taskId.trans hown.1)
  obtain ⟨q, hq, hm⟩ | hborn := h.effect.runs.before p hp
  · obtain ⟨hsame, hql⟩ : q.Same p ∧ q.state.Live := by
      obtain rfl | hm := hm
      · exact ⟨.refl _, hpl⟩
      · exact ⟨hm.same, hm.live hq⟩
    obtain rfl := hinv.toUnits.sole hr hq (hsame.taskId.symm.trans hptask) hl hql
    exact hdead ((b.after now s.db).run_unique hp hr' (hsame.runId.trans hid.symm) ▸ hpl)
  · generalize hcall : b.call = call at hborn
    have htl : t.state.Live := hinv.toUnits.live hr ht hown.1.symm hl
    cases hborn with
    | first hg => exact hg.1.1 ⟨t, ht, hown.1.trans hptask.symm⟩
    | @revived call u q hu hg =>
      obtain rfl : u = t := s.db.task_unique hu ht (hptask.trans hown.1.symm)
      simp [hg.2.2.failed] at htl
    | @followed call q name id state delayMs hq hrunning hplaces =>
      refine hnone name ?_ ⟨_, hp, rfl⟩
      obtain ⟨rfl, _⟩ | ⟨rfl, _⟩ := hplaces.cases
      · exact Or.inl rfl
      · exact Or.inr rfl

end Delivery

/-! ## The reports are true -/

/-- The run failed, and the run of id `next` follows it in its task. -/
def FollowedRun (db : Db) (runId taskId next : String) : Prop :=
  (∃ r ∈ db.runs, r.runId = runId ∧ r.taskId = taskId ∧ r.state = .failed) ∧
    ∃ p ∈ db.runs, p.runId = next ∧ p.taskId = taskId ∧ p.state.Queued

/-- The run failed, and its task failed with it. -/
def FailedUnit (db : Db) (runId taskId reason : String) : Prop :=
  (∃ r ∈ db.runs, r.runId = runId ∧ r.taskId = taskId ∧ r.state = .failed) ∧
    ∃ t ∈ db.tasks, t.taskId = taskId ∧ t.state = .failed ∧ t.failureReason = some reason

/-- What a report says of the batch that made `db'` of `db`: the action it took on the task's life,
and the rows it left. -/
def SweptRun.Tells (db db' : Db) : SweptRun → Prop
  | .lostLaunch runId taskId relaunchCount =>
    Lifecycle.Step .sweepLostLaunch (lifeOf db taskId) (lifeOf db' taskId) ∧
      ∃ r ∈ db'.runs, r.runId = runId ∧ r.taskId = taskId ∧ r.state = .pending ∧
        r.relaunchCount = relaunchCount
  | .claimTimeout runId taskId next =>
    Lifecycle.Step .sweepClaimTimeout (lifeOf db taskId) (lifeOf db' taskId) ∧
      FollowedRun db' runId taskId next
  | .rollbackStarted runId taskId next =>
    Lifecycle.Step .rollbackPass (lifeOf db taskId) (lifeOf db' taskId) ∧
      FollowedRun db' runId taskId next
  | .relaunchCapExhausted runId taskId =>
    Lifecycle.Step .sweepExhausted (lifeOf db taskId) (lifeOf db' taskId) ∧
      FailedUnit db' runId taskId REASON_RELAUNCH_CAP
  | .infraCapExhausted runId taskId =>
    Lifecycle.Step .sweepExhausted (lifeOf db taskId) (lifeOf db' taskId) ∧
      FailedUnit db' runId taskId REASON_INFRA_CAP
  | .cancelled _ taskId =>
    Lifecycle.Step .cancel (lifeOf db taskId) (lifeOf db' taskId)

/-- A task that a batch failed ended with the batch's reason. -/
theorem Task.Moved.failedFor {call : Call} {t' : Task} (hm : Task.Moved seed now db call t t')
    (hl : t.state.Live) (hl' : ¬ t'.state.Live) (hreason : call.failureReason = some reason) :
    t'.failureReason = some reason := by
  cases hm with
  | refl => exact absurd hl hl'
  | tail hmoved hturn =>
    obtain ⟨v, _, _, hmove, rfl⟩ := hturn
    cases hmove with
    | failed _ _ _ _ hends =>
      obtain rfl := Option.some.inj (hends.symm.trans hreason)
      rfl
    | booked | infraRetried | revived => exact absurd trivial hl'
    | started hl => exact absurd hl hl'
    | followed _ hq | rollingBack _ _ _ _ _ hq | retrying _ _ _ _ hq => exact absurd hq.live hl'
    | completed | cancelled => cases hreason

/-- A task that failed by an action did so by a failure, or by a cap. -/
theorem Lifecycle.Step.failed {a : Lifecycle.Action} {life life' : Lifecycle.State}
    {c : Lifecycle.Counters} {top : ℤ} (h : Lifecycle.Step a life life')
    (hlife : life' = .ended c .failed top) : a = .failRunTerminal ∨ a = .sweepExhausted := by
  cases h with
  | failRunTerminal => exact Or.inl rfl
  | sweepExhausted => exact Or.inr rfl
  | spawn | claim | activate | park | wake | sweepLostLaunch | failRunWithRetry | sweepClaimTimeout
  | rollbackPass | complete | cancel | retryTask => cases hlife

/-- A claim that activated is exhausted at the infrastructure's cap. -/
theorem Lifecycle.Step.cap_of_latched {c : Lifecycle.Counters} {run : Lifecycle.Current}
    {life : Lifecycle.State} (h : Lifecycle.Step .sweepExhausted (.live c run) life)
    (hlatched : run.activatedGen = run.claimGen) : c.infraRetries = INFRA_RETRY_CAP := by
  cases h with
  | sweepExhausted _ hexhausted =>
    obtain ⟨hlt, _⟩ | ⟨_, hcap⟩ := hexhausted
    · exact absurd hlatched hlt.ne
    · exact hcap

section Tells

variable {b : Batch} {r' : Run} {name : Statement} {report : SweptRun}

/-- A batch that took its run out of play and placed none after it failed the task. -/
theorem Delivers.failedUnit (h : Delivers s b now) (hr : r ∈ s.db.runs) (hl : r.state.Live)
    (hr' : r' ∈ (b.after now s.db).runs) (hsame : r.Same r') (hfailed : r'.state = .failed)
    (hreason : b.call.failureReason = some reason)
    (hnone : ∀ name, name = .successor ∨ name = .rollbackPass →
      ¬ ∃ p ∈ (b.after now s.db).runs, p.fenceStamp = some ⟨b.seed, name⟩) :
    FailedUnit (b.after now s.db) r.runId r.taskId reason ∧ ∃ a, b.call.Acts a ∧
      Lifecycle.Step a (lifeOf s.db r.taskId) (lifeOf (b.after now s.db) r.taskId) ∧
        ∃ c top, lifeOf (b.after now s.db) r.taskId = .ended c .failed top := by
  obtain ⟨t, ht, hown, t', ht', hid, htl'⟩ := h.ended_step hr hl hr' hsame.runId (by simp [hfailed])
    hnone
  have htl : t.state.Live := h.course.inv.toUnits.live hr ht hown.1.symm hl
  have hmoved := h.moved ht ht' hid
  have hord : Ordinals s.db t'.taskId r.attempt :=
    hid.symm ▸ (h.course.inv.settled t ht).top hr hown.1.symm hl
  have hlife := lifeOf_ended h.inv.toCore ht' htl' (h.ordinals_kept ht' htl' hord)
  rw [hid, hown.1, hmoved.failed htl htl' hreason] at hlife
  refine ⟨⟨⟨r', hr', hsame.runId, hsame.taskId, hfailed⟩, t', ht', hid.trans hown.1,
    hmoved.failed htl htl' hreason, hmoved.failedFor htl htl' hreason⟩, ?_⟩
  obtain hidle | ⟨a, hacts, hstep⟩ := h.life r.taskId
  · rw [hlife, ← hown.1, lifeOf_live h.course.inv.toUnits ht hr hown.1.symm hl] at hidle
    cases hidle
  · exact ⟨a, hacts, hstep, _, _, hlife⟩

/-- The run failed, and the one the batch minted an id for follows it. -/
theorem Delivers.followedRun (h : Delivers s b now) (hfresh : Unstamped s.db b.seed)
    (hr' : r' ∈ (b.after now s.db).runs) (hsame : r.Same r')
    (hfailed : r'.state = .failed) {next : String} (hnext : b.call.nextRunId = some next)
    (hname : name = .successor ∨ name = .rollbackPass) (hp : p ∈ (b.after now s.db).runs)
    (hs : p.fenceStamp = some ⟨b.seed, name⟩) (hid : p.taskId = r.taskId) :
    FollowedRun (b.after now s.db) r.runId r.taskId next := by
  obtain ⟨hqueued, _, _, hminted, _⟩ := h.placed hfresh hname hp hs
  exact ⟨⟨r', hr', hsame.runId, hsame.taskId, hfailed⟩, p, hp,
    Option.some.inj (hminted.symm.trans hnext), hid, hqueued⟩

/-- A run that carries a stamp of the batch was moved by it. -/
theorem Delivers.signed_moved (h : Delivers s b now) (hfresh : Unstamped s.db b.seed)
    (hr : r ∈ s.db.runs) (hsigned : SignedRun (b.after now s.db) b.seed r) :
    ∃ r' ∈ (b.after now s.db).runs, Run.Move b.seed now s.db (b.after now s.db) b.call r r' := by
  obtain ⟨q, hq, hid, n, hs⟩ := hsigned
  obtain ⟨r', hr', rfl | hm⟩ := h.effect.runs.after r hr
  · rw [(b.after now s.db).run_unique hq hr' hid] at hs
    exact absurd rfl (hfresh _ hr _ hs)
  · exact ⟨r', hr', hm⟩

/-- The report of a lost launch's sweep is true of what its batch did. -/
theorem Delivers.lostLaunch_tells {relaunchCount : ℤ}
    (h : Delivers s ⟨seed, .sweepLostLaunch swept⟩ now) (hfresh : Unstamped s.db seed)
    (hrun : sweepLostLaunch seed swept now s.db = some out)
    (htask : ∀ r ∈ s.db.runs, r.runId = swept.runId → r.taskId = swept.taskId)
    (hcount : ∀ r ∈ s.db.runs, whereSweptClaim swept r → r.relaunchCount = relaunchCount) :
    (out.won = none → sweepLostLaunchReport s.db seed swept relaunchCount now out.won = none) ∧
      (out.won ≠ none → ∃ report,
        sweepLostLaunchReport s.db seed swept relaunchCount now out.won = some report ∧
          report.Tells s.db out.db) := by
  refine ⟨fun hlost => by rw [hlost]; rfl, fun hwon => ?_⟩
  have hafter : Batch.after ⟨seed, .sweepLostLaunch swept⟩ now s.db = out.db := by
    simp [Batch.after, Batch.run, hrun]
  obtain ⟨r, hr, hguard, hsigned⟩ := sweepLostLaunch_signed hrun hwon
  obtain ⟨r', hr', hm⟩ := h.signed_moved hfresh hr (hafter.symm ▸ hsigned)
  have hswept : whereSweptClaim swept r := hguard.elim (·.1) (·.1)
  have hrunning : r.state = .running := hswept.2.2.1
  have hl : r.state.Live := by simp [hrunning]
  have hid : r.taskId = swept.taskId := htask r hr hswept.1
  -- The batch has two compare-and-sets, and the first of them that wrote a row names the winner.
  have hwonBy : out.won = (wonBy .reopen (∃ r ∈ s.db.runs, reopenGuard s.db now swept r)).or
      (wonBy .cap (∃ r ∈ (reopenLostLaunchCas s.db seed swept now).runs,
        capGuard (reopenLostLaunchCas s.db seed swept now) now swept r)) := by
    obtain ⟨_, _, hout⟩ := Option.bind_eq_some_iff.mp hrun
    obtain rfl := Option.some.inj hout
    rfl
  obtain ⟨t, ht, hown⟩ := h.course.inv.owner r hr
  obtain ⟨t', ht', hmoved⟩ := h.effect.tasks.after t ht
  have htid : t'.taskId = r.taskId := hmoved.same.taskId.trans hown.1
  have hpasses := sweepLostLaunch_passed hfresh hrun
  cases hm with
  | woken _ hparked => simp [hparked.state] at hrunning
  | reopened hg =>
    have hreopen : wonBy .reopen (∃ r ∈ s.db.runs, reopenGuard s.db now swept r) =
        some Statement.reopen := wonBy_eq_some.mpr ⟨⟨r, hr, hg⟩, rfl⟩
    rw [hwonBy, hreopen]
    refine ⟨_, rfl, ?_, reopenAssignments seed now r, hafter ▸ hr', hswept.1, hid, rfl, ?_⟩
    · rw [← hid, ← hafter, ← hown.1,
        lifeOf_live h.course.inv.toUnits ht hr hown.1.symm hl, ← hmoved.same.taskId,
        lifeOf_live h.inv.toUnits ht' hr' htid.symm trivial,
        h.counters_same ht ht' hmoved.same.taskId hr hown.1.symm hl hr' ⟨rfl, rfl, rfl, rfl⟩ trivial]
      exact .sweepLostLaunch hrunning hg.2.1.1 hg.2.2.1
    · exact congrArg (· + 1) (hcount r hr hswept)
  | capped hg =>
    -- A run at the cap is not reopened, and the guards ask for the run by its id.
    have hnoreopen : ∀ q ∈ s.db.runs, ¬ reopenGuard s.db now swept q := by
      intro q hq hgq
      obtain rfl := s.db.run_unique hq hr (hgq.1.1.trans hswept.1.symm)
      exact hgq.2.2.1.ne hg.2.2.1
    have hsame : reopenLostLaunchCas s.db seed swept now = s.db :=
      updateRuns_of_forall_not hnoreopen
    have hcapped : out.won = some .cap := by
      rw [hwonBy, wonBy_eq_none.mpr fun ⟨q, hq, hgq⟩ => hnoreopen q hq hgq, hsame, Option.none_or]
      exact wonBy_eq_some.mpr ⟨⟨r, hr, hg⟩, rfl⟩
    rw [hcapped]
    simp only [sweepLostLaunchReport]
    by_cases hpass : ∃ p ∈ out.db.runs, p.fenceStamp = some ⟨seed, .rollbackPass⟩
    · rw [if_pos (hpasses.mpr hpass)]
      obtain ⟨p, hp, hs⟩ := hpass
      rw [← hafter] at hp
      have hpid : p.taskId = r.taskId := by
        obtain ⟨_, _, _, _, q, hq, _, hpid, q', _, hdead, hmq⟩ := h.placed hfresh (Or.inr rfl) hp hs
        rw [hpid, s.db.run_unique hq hr ((hmq.of_sweep hdead (Or.inl rfl)).trans hswept.1.symm)]
      obtain ⟨a, hplaced, hacts, hstep⟩ := h.placed_step hfresh (Or.inr rfl) hp hs
      have hfollowed := h.followedRun (r := r) hfresh hr' ⟨rfl, rfl, rfl, rfl⟩ rfl rfl
        (Or.inr rfl) hp hs hpid
      refine ⟨_, rfl, ?_, ?_⟩
      · rw [hpid, hid, hafter] at hstep
        cases a with
        | rollbackPass => exact hstep
        | failRunWithRetry | sweepClaimTimeout => exact hacts.elim
        | _ => exact hplaced.elim
      · rwa [hid, hswept.1, hafter] at hfollowed
    · rw [if_neg fun hrows => hpass (hpasses.mp hrows)]
      obtain ⟨hunit, a, hacts, hstep, c, top, hlife⟩ := h.failedUnit hr hl hr' ⟨rfl, rfl, rfl, rfl⟩
        rfl rfl fun name hname ⟨p, hp, hs⟩ => by
          obtain rfl | rfl := hname
          · exact (h.placed hfresh (Or.inl rfl) hp hs).2.2.1
          · exact hpass ⟨p, hafter ▸ hp, hs⟩
      refine ⟨_, rfl, ?_, ?_⟩
      · obtain rfl | rfl := hstep.failed hlife
        · exact hacts.elim
        · rwa [hid, hafter] at hstep
      · rwa [hid, hswept.1, hafter] at hunit

/-- The report of a dead claim's sweep is true of what its batch did. -/
theorem Delivers.claimTimeout_tells (h : Delivers s ⟨seed, .sweepClaimTimeout swept⟩ now)
    (hfresh : Unstamped s.db seed) (hrun : sweepClaimTimeout seed swept now s.db = some out)
    (htask : ∀ r ∈ s.db.runs, r.runId = swept.runId → r.taskId = swept.taskId) :
    (out.won = none → sweepClaimTimeoutReport s.db seed swept now out.won = none) ∧
      (out.won ≠ none → ∃ report,
        sweepClaimTimeoutReport s.db seed swept now out.won = some report ∧
          report.Tells s.db out.db) := by
  refine ⟨fun hlost => by rw [hlost]; rfl, fun hwon => ?_⟩
  have hafter : Batch.after ⟨seed, .sweepClaimTimeout swept⟩ now s.db = out.db := by
    simp [Batch.after, Batch.run, hrun]
  obtain ⟨r, hr, hguard, hsigned⟩ := sweepClaimTimeout_signed hrun hwon
  obtain ⟨r', hr', hm⟩ := h.signed_moved hfresh hr (hafter.symm ▸ hsigned)
  have hrunning : r.state = .running := hguard.1.2.2.1
  have hl : r.state.Live := by simp [hrunning]
  have hid : r.taskId = swept.taskId := htask r hr hguard.1.1
  obtain ⟨placed, passed, hrows⟩ := sweepClaimTimeout_rows hfresh hrun
  -- The batch's only compare-and-set is the one that fails the run.
  have hfail : out.won = some .fail := by
    obtain ⟨_, _, hrest⟩ := Option.bind_eq_some_iff.mp hrun
    obtain ⟨_, _, hout⟩ := Option.bind_eq_some_iff.mp hrest
    obtain rfl := Option.some.inj hout
    exact wonBy_eq_some.mpr ⟨⟨r, hr, hguard⟩, rfl⟩
  have hfailed : r' = failedRun seed .fail REASON_CLAIM_TIMEOUT now r := by
    cases hm with
    | timedOut => rfl
    | woken _ hparked => simp [hparked.state] at hrunning
  have hsame : r.Same r' := hfailed ▸ ⟨rfl, rfl, rfl, rfl⟩
  have hstate : r'.state = .failed := hfailed ▸ rfl
  -- A run the batch placed follows the one it failed, by the action of its stamp.
  have hfollowed : ∀ name, name = .successor ∨ name = .rollbackPass → ∀ p ∈ out.db.runs,
      p.fenceStamp = some ⟨seed, name⟩ → FollowedRun out.db swept.runId swept.taskId swept.passId ∧
        ∃ a, p.PlacedBy seed a ∧ (Call.sweepClaimTimeout swept).Acts a ∧
          Lifecycle.Step a (lifeOf s.db swept.taskId) (lifeOf out.db swept.taskId) := by
    intro name hname p hp hs
    rw [← hafter] at hp ⊢
    have hpid : p.taskId = r.taskId := by
      obtain ⟨_, _, _, _, q, hq, _, hpid, q', _, hdead, hmq⟩ := h.placed hfresh hname hp hs
      rw [hpid, s.db.run_unique hq hr ((hmq.of_sweep hdead (Or.inr rfl)).trans hguard.1.1.symm)]
    obtain ⟨a, hplaced, hacts, hstep⟩ := h.placed_step hfresh hname hp hs
    have hfollowed := h.followedRun hfresh hr' hsame hstate rfl hname hp hs hpid
    rw [hid, hguard.1.1] at hfollowed
    rw [hpid, hid] at hstep
    exact ⟨hfollowed, a, hplaced, hacts, hstep⟩
  -- The report looks for a retry first, then for a rollback pass, and takes the cap for what is
  -- left.
  rw [hfail]
  simp only [sweepClaimTimeoutReport, hrows.successor, hrows.pass, Option.bind_eq_bind,
    Option.bind_some]
  by_cases hbooked : ∃ p ∈ out.db.runs, p.fenceStamp = some ⟨seed, .successor⟩
  · rw [if_pos (hrows.booked.mpr hbooked)]
    obtain ⟨p, hp, hs⟩ := hbooked
    obtain ⟨hfollows, a, hplaced, hacts, hstep⟩ := hfollowed .successor (Or.inl rfl) p hp hs
    refine ⟨_, rfl, ?_, hfollows⟩
    cases a with
    | sweepClaimTimeout => exact hstep
    | failRunWithRetry => exact hacts.elim
    | rollbackPass => simp [Run.PlacedBy, hs] at hplaced
    | _ => exact hplaced.elim
  rw [if_neg fun hone => hbooked (hrows.booked.mp hone)]
  by_cases hpass : ∃ p ∈ out.db.runs, p.fenceStamp = some ⟨seed, .rollbackPass⟩
  · rw [if_pos (hrows.rolled.mpr hpass)]
    obtain ⟨p, hp, hs⟩ := hpass
    obtain ⟨hfollows, a, hplaced, hacts, hstep⟩ := hfollowed .rollbackPass (Or.inr rfl) p hp hs
    refine ⟨_, rfl, ?_, hfollows⟩
    cases a with
    | rollbackPass => exact hstep
    | failRunWithRetry => exact hacts.elim
    | sweepClaimTimeout => simp [Run.PlacedBy, hs] at hplaced
    | _ => exact hplaced.elim
  rw [if_neg fun hone => hpass (hrows.rolled.mp hone)]
  obtain ⟨hunit, a, hacts, hstep, c, top, hlife⟩ := h.failedUnit hr hl hr' hsame hstate rfl
    fun name hname ⟨p, hp, hs⟩ => by
      obtain rfl | rfl := hname
      · exact hbooked ⟨p, hafter ▸ hp, hs⟩
      · exact hpass ⟨p, hafter ▸ hp, hs⟩
  rw [if_pos ?_]
  · refine ⟨_, rfl, ?_, ?_⟩
    · obtain rfl | rfl := hstep.failed hlife
      · exact hacts.elim
      · rwa [hid, hafter] at hstep
    · rwa [hid, hguard.1.1, hafter] at hunit
  -- Nothing follows the run, so its task is at the cap, and the terminal arm finds it.
  · obtain ⟨hruns, htasks⟩ := hrows.bare hbooked hpass
    have hinv := h.course.inv
    obtain ⟨t, ht, hown⟩ := hinv.owner r hr
    have hmem : failedRun seed .fail REASON_CLAIM_TIMEOUT now r ∈ passed.runs :=
      hruns ▸ Table.mem_update_of_pos (T := s.db.runs) hr hguard
    have hcap : t.infraRetries = INFRA_RETRY_CAP := by
      obtain rfl | rfl := hstep.failed hlife
      · exact hacts.elim
      · rw [← hown.1, lifeOf_live hinv.toUnits ht hr hown.1.symm hl] at hstep
        exact hstep.cap_of_latched hguard.2.1.1
    refine runsToTasksRows_eq_one.mpr ⟨_, hmem, hguard.1.1, hguard.1.2.1, rfl, t, htasks ▸ ht,
      hown.1.symm, hown.2.trans hguard.1.2.1, hinv.toUnits.live hr ht hown.1.symm hl,
      (hinv.settled t ht).counted.infraRetries, hcap, ?_⟩
    -- No run of the task has a higher attempt than the live one, so the retry guard finds none.
    rintro ⟨f, hf, q, hq, _, hqid, hqat⟩
    obtain ⟨hf, hfid, _⟩ := stampedRun_eq_some.mp hf
    rw [passed.run_unique hf hmem (hfid.trans hguard.1.1.symm)] at hqat
    rw [hruns] at hq
    obtain ⟨q₀, hq₀, hqsame⟩ : ∃ q₀ ∈ s.db.runs, q₀.Same q := by
      obtain ⟨q₀, hq₀, _, rfl⟩ | ⟨hq, _⟩ := Table.update_cases hq
      · exact ⟨q₀, hq₀, rfl, rfl, rfl, rfl⟩
      · exact ⟨q, hq, .refl q⟩
    have hle := (hinv.settled t ht).le_live hq₀ (hqsame.taskId.symm.trans hqid) hr hown.1.symm hl
    have hat : (failedRun seed .fail REASON_CLAIM_TIMEOUT now r).attempt = r.attempt := rfl
    have := hqsame.attempt
    omega

end Tells

/-! ## What the scan read -/

variable {item : SweepItem} {items : List SweepItem} {limit : ℕ} {passId : String} {d : Db}

/-- A computation that answers had its first part answer. -/
theorem of_bind_eq_ok {α β ε : Type} {x : Except ε α} {f : α → Except ε β} {b : β}
    (h : x >>= f = .ok b) : ∃ a, x = .ok a ∧ f a = .ok b := by
  cases x with
  | error e => cases h
  | ok a => exact ⟨a, rfl, h⟩

/-- What `mapM` answers, it answers of an element. -/
theorem exists_of_mem_mapM {α β ε : Type} {f : α → Except ε β} {l : List α} {ys : List β}
    (h : l.mapM f = .ok ys) {y : β} (hy : y ∈ ys) : ∃ x ∈ l, f x = .ok y := by
  induction l generalizing ys with
  | nil =>
    rw [List.mapM_nil] at h
    obtain rfl := Except.ok.inj h
    exact absurd hy List.not_mem_nil
  | cons x l ih =>
    rw [List.mapM_cons] at h
    obtain ⟨b, hb, h⟩ := of_bind_eq_ok h
    obtain ⟨bs, hbs, h⟩ := of_bind_eq_ok h
    obtain rfl := Except.ok.inj h
    obtain rfl | hy := List.mem_cons.mp hy
    · exact ⟨x, List.mem_cons_self, hb⟩
    · obtain ⟨x', hx', hfx⟩ := ih hbs hy
      exact ⟨x', List.mem_cons_of_mem _ hx', hfx⟩

/-- An integer that was read is the stored one. -/
theorem persistedRowInteger_eq_ok {scope column : String} {bounds : IntegerBounds} {v n : ℤ}
    (h : persistedRowInteger scope column bounds v = .ok n) : n = v := by
  unfold persistedRowInteger at h
  simp only at h
  split at h
  · exact (Except.ok.inj h).symm
  · cases h

/-- An item of the scan: a task that is due, or a running run whose claim expired, with the columns
the scan read of it. -/
theorem sweepScan_item (hscan : sweepScan db now queue limit = .ok items) (hitem : item ∈ items) :
    (∃ t ∈ db.tasks, sweepCancelsDue db now queue t ∧
      item = .cancel t.taskId (liveRunOfTask db t)) ∨
      ∃ r ∈ db.runs, sweepClaimsExpired db now queue r ∧
        (item = .lostLaunch r.runId r.taskId r.claimGen r.relaunchCount ∨
          item = .claimTimeout r.runId r.taskId r.claimGen) := by
  obtain ⟨expired, hexpired, hitems⟩ := of_bind_eq_ok hscan
  obtain rfl := Except.ok.inj hitems
  obtain hcancel | hitem := List.mem_append.mp hitem
  · obtain ⟨t, ht, rfl⟩ := List.mem_map.mp hcancel
    have hfound := List.mem_filter.mp ((List.mem_insertionSort _).mp (List.mem_of_mem_take ht))
    exact Or.inl ⟨t, hfound.1, of_decide_eq_true hfound.2, rfl⟩
  · obtain ⟨r, hr, hread⟩ := exists_of_mem_mapM hexpired hitem
    have hfound := List.mem_filter.mp ((List.mem_insertionSort _).mp
      (List.mem_of_mem_take (List.mem_of_mem_take hr)))
    refine Or.inr ⟨r, hfound.1, of_decide_eq_true hfound.2, ?_⟩
    obtain ⟨claimGen, hgen, hread⟩ := of_bind_eq_ok hread
    obtain ⟨activatedGen, _, hread⟩ := of_bind_eq_ok hread
    obtain rfl := persistedRowInteger_eq_ok hgen
    split at hread
    · obtain ⟨relaunchCount, hcount, hread⟩ := of_bind_eq_ok hread
      obtain rfl := persistedRowInteger_eq_ok hcount
      exact Or.inl (Except.ok.inj hread).symm
    · exact Or.inr (Except.ok.inj hread).symm

/-- A run that runs under the generation it had lost no launch since. -/
theorem Reachable.relaunchCount_kept (h : Reachable Repeats s) (hseen : s.Seen d) {q : Run}
    (hq : q ∈ d.runs) (hst : q.state = .running) (hr : r ∈ s.db.runs) (hid : r.runId = q.runId)
    (hrunning : r.state = .running) (hgen : r.claimGen = q.claimGen) :
    r.relaunchCount = q.relaunchCount := by
  have hsince := h.since (R := fun d db => ∀ q ∈ d.runs, ∃ r ∈ db.runs, r.runId = q.runId ∧
      q.claimGen ≤ r.claimGen ∧ (q.state = .running → r.state = .running →
        r.claimGen = q.claimGen → r.relaunchCount = q.relaunchCount)) (fun _ _ hrepeats => hrepeats)
    (fun d q hq => ⟨q, hq, rfl, le_rfl, fun _ _ _ => rfl⟩) ?_ d hseen q hq
  · obtain ⟨r₀, hr₀, hid₀, _, hkept⟩ := hsince
    obtain rfl := s.db.run_unique hr₀ hr (hid₀.trans hid.symm)
    exact hkept hst hrunning hgen
  · intro s b now d hd hbefore q hq
    obtain ⟨r, hr, hid, hle, hkept⟩ := hbefore q hq
    obtain ⟨r', hr', rfl | hm⟩ := hd.effect.runs.after r hr
    · exact ⟨_, hr', hid, hle, hkept⟩
    refine ⟨r', hr', hm.same.runId.trans hid, ?_⟩
    generalize b.call = call at hm
    cases hm with
    | claimed => exact ⟨hle.trans (by simp [claimAssignments]), fun _ _ hgen => by
        simp only [claimAssignments] at hgen
        omega⟩
    | activated hg => exact ⟨hle, fun hst _ => hkept hst hg.1.1.running⟩
    | extended hg | leased hg | expired hg => exact ⟨hle, fun hst _ => hkept hst hg.1.running⟩
    | deferred | rescheduled | suspended =>
      exact ⟨hle, fun _ hrunning => absurd hrunning
        (parkAssignments_queued b.seed .suspend _ now r).ne_running⟩
    | awaited | completed | failed | reopened | capped | timedOut | cancelled | woken =>
      exact ⟨hle, fun _ hrunning => by cases hrunning⟩

/-- A cancellation's report is true of what its batch did. -/
theorem Delivers.cancelled_tells {c : Cancellation} {runId : Option String}
    (h : Delivers s ⟨seed, .cancelTransition c⟩ now)
    (hwon : (cancelTransition seed c now s.db).won ≠ none) :
    (SweptRun.cancelled runId c.taskId).Tells s.db (cancelTransition seed c now s.db).db := by
  obtain ⟨t, ht, hg, t', ht', hid, hst, _⟩ := cancelTransition_cancelled hwon
  have hinv := h.course.inv
  have hafter : Batch.after ⟨seed, .cancelTransition c⟩ now s.db =
      (cancelTransition seed c now s.db).db := rfl
  obtain ⟨r, hr, hrid, hl⟩ := (hinv.settled t ht).hasLive hg.2.2.1
  rw [← hafter] at ht' ⊢
  have hdead : ¬ t'.state.Live := by simp [hst]
  have hord : Ordinals s.db t'.taskId r.attempt := hid.symm ▸ (hinv.settled t ht).top hr hrid hl
  have hbefore := lifeOf_live hinv.toUnits ht hr hrid hl
  have hlater := lifeOf_ended h.inv.toCore ht' hdead (h.ordinals_kept ht' hdead hord)
  rw [hid, hst] at hlater
  have hstep : Lifecycle.Step .cancel (lifeOf s.db t.taskId)
      (lifeOf (Batch.after ⟨seed, .cancelTransition c⟩ now s.db) t.taskId) := by
    obtain hidle | ⟨a, hacts, hstep⟩ := h.life t.taskId
    · rw [hlater, hbefore] at hidle
      cases hidle
    · cases a with
      | cancel => exact hstep
      | wake =>
        rw [hbefore, hlater] at hstep
        cases hstep
      | _ => exact hacts.elim
  rwa [hg.1] at hstep

/-! ## The whole -/

/-- The sweep of a row the scan found reports exactly when its batch won, and then truly. -/
theorem Reachable.report_tells (h : Reachable Repeats s) (hseen : s.Seen d) {readAt : ℤ}
    (hscan : sweepScan d readAt queue limit = .ok items) (hitem : item ∈ items)
    (hfresh : s.Fresh seed) (hclock : s.clock ≤ now)
    (hrun : (⟨seed, item.call queue passId⟩ : Batch).run now s.db = some out) :
    (out.won = none → item.report queue seed passId now s.db out.won = none) ∧
      (out.won ≠ none → ∃ report, item.report queue seed passId now s.db out.won = some report ∧
        report.Tells s.db out.db) := by
  have hcourse := h.course fun _ _ hrepeats => hrepeats
  obtain ⟨t, ht, _, rfl⟩ | ⟨q, hq, ⟨_, hst, _⟩, hitem⟩ := sweepScan_item hscan hitem
  · have hd := hcourse.delivers (b := ⟨seed, (SweepItem.cancel t.taskId (liveRunOfTask d t)).call
      queue passId⟩) hfresh hclock trivial
    obtain rfl := Option.some.inj hrun
    refine ⟨fun hlost => if_pos hlost, fun hwon => ⟨_, if_neg hwon, ?_⟩⟩
    exact hd.cancelled_tells hwon
  have hread : RunRead s.Seen q.runId q.taskId := ⟨d, hseen, q, hq, rfl, rfl⟩
  obtain rfl | rfl := hitem
  · have hd := hcourse.delivers (b := ⟨seed, (SweepItem.lostLaunch q.runId q.taskId q.claimGen
      q.relaunchCount).call queue passId⟩) hfresh hclock hread
    refine hd.lostLaunch_tells (hcourse.unused _ hfresh).runs hrun (hcourse.sound hd.admitted)
      fun r hr hswept => ?_
    exact h.relaunchCount_kept hseen hq hst hr hswept.1 hswept.2.2.1 hswept.2.2.2
  · have hd := hcourse.delivers (b := ⟨seed, (SweepItem.claimTimeout q.runId q.taskId q.claimGen).call
      queue passId⟩) hfresh hclock hread
    exact hd.claimTimeout_tells (hcourse.unused _ hfresh).runs hrun (hcourse.sound hd.admitted)

/-- In every reachable state, whatever happened since the scan: the sweep of a row the scan found
reports nothing exactly when its batch changed nothing, and what it reports is what its batch did. -/
theorem reachable_sweep_reports (h : Reachable Repeats s) (hseen : s.Seen d) {readAt : ℤ}
    (hscan : sweepScan d readAt queue limit = .ok items) (hitem : item ∈ items)
    (hfresh : s.Fresh seed) (hclock : s.clock ≤ now)
    (hrun : (⟨seed, item.call queue passId⟩ : Batch).run now s.db = some out) :
    (item.report queue seed passId now s.db out.won = none ↔ out.db = s.db) ∧
      ∀ report, item.report queue seed passId now s.db out.won = some report →
        report.Tells s.db out.db := by
  have hcourse := h.course fun _ _ hrepeats => hrepeats
  have hunsigned := h.unsigned (fun _ _ hrepeats => hrepeats) hfresh
  have hfenced : (item.call queue passId).Fenced := by cases item <;> trivial
  obtain ⟨hlost, htold⟩ := h.report_tells hseen hscan hitem hfresh hclock hrun
  have hchanged : out.db = s.db ↔ out.won = none :=
    ⟨fun hsame => by_contra fun hwon =>
      hunsigned.won (b := ⟨seed, item.call queue passId⟩) hfenced hrun hwon hsame,
      hunsigned.lost (b := ⟨seed, item.call queue passId⟩) hcourse.inv hfenced hrun⟩
  rw [hchanged]
  refine ⟨⟨fun hnone => by_contra fun hwon => ?_, hlost⟩, fun report hreport => ?_⟩
  · obtain ⟨report, hreport, _⟩ := htold hwon
    simp [hnone] at hreport
  · by_cases hwon : out.won = none
    · simp [hlost hwon] at hreport
    · obtain ⟨report', hreport', htells⟩ := htold hwon
      rwa [Option.some.inj (hreport.symm.trans hreport')]

/-- The worker of the sample task dies, and the sweep reports the run that follows. -/
theorem reachable_sweep_reports_runningOne :
    sweepScan runningOne.db 1002 "q" 5 = .ok [.claimTimeout "r1" "t" 1] ∧
      ∃ out, (⟨"b4", (SweepItem.claimTimeout "r1" "t" 1).call "q" "p1"⟩ : Batch).run 1002
        runningOne.db = some out ∧
          (SweptRun.claimTimeout "r1" "t" "p1").Tells runningOne.db out.db := by
  have hscan : sweepScan runningOne.db 1002 "q" 5 = .ok [.claimTimeout "r1" "t" 1] := by
    decide +kernel
  have hreport : ((⟨"b4", (SweepItem.claimTimeout "r1" "t" 1).call "q" "p1"⟩ : Batch).run 1002
      runningOne.db).bind (fun out => (SweepItem.claimTimeout "r1" "t" 1).report "q" "b4" "p1" 1002
        runningOne.db out.won) = some (.claimTimeout "r1" "t" "p1") := by decide +kernel
  obtain ⟨out, hrun, hreport⟩ := Option.bind_eq_some_iff.mp hreport
  exact ⟨hscan, out, hrun, (reachable_sweep_reports (runningOne_reachable _) (Or.inl rfl) hscan
    List.mem_cons_self (by decide) (by decide) hrun).2 _ hreport⟩

end Durablerun
