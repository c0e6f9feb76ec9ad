import Durablerun.Store.BatchEffect

/-!
# The effect of the batches that fail a run

`fail`, `failRollback`, and the sweep's two transitions share their arms: the run that follows, the
rollback pass and the end of the task. Each arm finds the failed run by its stamp, which in a batch of
its own seed is on that run alone.

Reference: `packages/store-libsql/src/store.ts`, `packages/core/src/statements/fail.ts` and
`packages/core/src/statements/successor.ts`.
-/

namespace Durablerun

open Relational

variable {seed queue runId passId : String} {now : ℤ} {db db₁ db₂ db' : Db} {call : Call}
  {name fence n : Statement} {out : Outcome}

/-! ## The arms -/

/-- What a group of statements before the wake makes of the tables but the checkpoints. -/
structure Early (seed : String) (now : ℤ) (db db' : Db) (call : Call) (db₁ : Db) : Prop where
  runs : EarlyRuns seed now db db' call db₁
  tasks : TasksMoved seed now db call db db₁
  waits : db₁.waits = db.waits
  events : db₁.events = db.events

/-- The run `f` is the running run `r` of the database the batch met, failed by this batch. -/
structure FailedFrom (seed : String) (now : ℤ) (db : Db) (f r : Run) : Prop where
  mem : r ∈ db.runs
  running : r.state = .running
  same : f.Same r
  instant : f.fenceAtMs = now
  wakes : ∀ name id state available at',
    successorRun seed name id f state available at' = successorRun seed name id r state available at'

/-- No task carries the stamp. -/
def Unmarked (db : Db) (seed : String) (n : Statement) : Prop :=
  ∀ t ∈ db.tasks, t.fenceStamp ≠ some ⟨seed, n⟩

/-- A seed that is on no row marks none. -/
theorem Unused.unmarked (h : Unused db seed) (n : Statement) : Unmarked db seed n :=
  fun t ht hs => h.tasks t ht _ hs rfl

/-- A follow-on of another name marks no row with this one. -/
theorem Unmarked.runsToTasks (h : Unmarked db seed n) (hne : n ≠ name) {where' : Run → Prop}
    [DecidablePred where'] {narrow : Task → Prop} [DecidablePred narrow]
    {set : Table.Change Task.keys} :
    Unmarked (runsToTasks db seed name fence queue where' narrow set) seed n := by
  intro t ht hs
  obtain ⟨_, _, _, _, _, _, _, rfl⟩ | ⟨ht, _⟩ := runsToTasks_cases ht
  · obtain rfl := (Stamp.mk.inj (Option.some.inj hs)).2
    exact hne rfl
  · exact h t ht hs

/-- The successor's insert, after the compare-and-set. -/
theorem Early.failureSuccessor {delayMs : ℤ} {state : TaskState} {admission : Run → Task → Prop}
    [∀ f t, Decidable (admission f t)] (h : Early seed now db db' call db₁)
    (hsource : ∀ f, stampedRun db₁ seed runId fence = some f → ∃ r, FailedFrom seed now db f r)
    (hplaces : call.Places name) (hnext : call.nextRunId = some passId) (hname : name ≠ .wakeRuns)
    (hqueued : state.Queued)
    (hfits : (∀ s ∈ db₁.runs, s.runId ≠ passId) → ∀ f t, stampedRun db₁ seed runId fence = some f →
      t ∈ db₁.tasks → runOwnedByTask f t → admission f t →
        delayMs = 0 ∨ epochAdditionFits now delayMs)
    (hsucc : failureSuccessor db₁ seed name fence passId runId delayMs state admission = some db₂) :
    Early seed now db db' call db₂ ∧ db₂.checkpoints = db₁.checkpoints := by
  obtain ⟨rfl, _⟩ | ⟨f, hf, ⟨t, ht, hown, hadm⟩, runs, hfree, hruns, rfl⟩ :=
    failureSuccessor_cases hsucc
  · exact ⟨h, rfl⟩
  · obtain ⟨r, hfailed⟩ := hsource f hf
    have hnew : ∀ s ∈ db₁.runs, s.runId ≠ passId := by
      intro s hs hid
      refine hfree.2 (.id passId) (by simp [Run.keys, successorRun]) (Table.mem_heldKeys.mpr ?_)
      exact ⟨s, hs, by simp [Run.keys, hid]⟩
    have hborn : Run.BornEarly seed now db call
        (successorRun seed name passId f state (f.fenceAtMs + delayMs) f.fenceAtMs) := by
      refine ⟨?_, fun s hs hid => ?_, by simp [successorRun, hname]⟩
      · rw [hfailed.wakes, hfailed.instant]
        exact .followed hfailed.mem hfailed.running hplaces hqueued
          (hfits hnew f t hf ht hown hadm) hnext
      · obtain ⟨s₁, hs₁, rfl | ⟨hm, _⟩⟩ := h.runs.after s hs
        · exact hnew s₁ hs₁ hid
        · exact hnew s₁ hs₁ (hm.same.runId.trans hid)
    exact ⟨⟨h.runs.push hruns hborn, h.tasks, h.waits, h.events⟩, rfl⟩

/-- The run a successor's insert placed, by its stamp. -/
theorem failureSuccessor_placed {delayMs : ℤ} {state : TaskState} {admission : Run → Task → Prop}
    [∀ f t, Decidable (admission f t)]
    (hnone : ∀ r ∈ db₁.runs, r.fenceStamp ≠ some ⟨seed, name⟩)
    (hsucc : failureSuccessor db₁ seed name fence passId runId delayMs state admission = some db₂)
    {p : Run} (hp : p ∈ db₂.runs) (hs : p.fenceStamp = some ⟨seed, name⟩) :
    ∃ f t, stampedRun db₁ seed runId fence = some f ∧ t ∈ db₁.tasks ∧ runOwnedByTask f t ∧
      admission f t ∧
      p = successorRun seed name passId f state (f.fenceAtMs + delayMs) f.fenceAtMs := by
  obtain ⟨rfl, _⟩ | ⟨f, hf, ⟨t, ht, hown, hadm⟩, runs, _, hruns, rfl⟩ := failureSuccessor_cases hsucc
  · exact absurd hs (hnone p hp)
  · obtain hp | rfl := (hruns p).mp hp
    · exact absurd hs (hnone p hp)
    · exact ⟨f, t, hf, ht, hown, hadm, rfl⟩

/-- A successor's insert takes no run away. -/
theorem failureSuccessor_mem {delayMs : ℤ} {state : TaskState} {admission : Run → Task → Prop}
    [∀ f t, Decidable (admission f t)]
    (hsucc : failureSuccessor db₁ seed name fence passId runId delayMs state admission = some db₂)
    {r : Run} (hr : r ∈ db₁.runs) : r ∈ db₂.runs := by
  obtain ⟨rfl, _⟩ | ⟨_, _, _, _, _, hmem, rfl⟩ := failureSuccessor_cases hsucc
  · exact hr
  · exact (hmem r).mpr (Or.inl hr)

section SagaPass

variable {enteringWith : Option String} {delayMs : ℤ} {admission : Run → Task → Prop}
  [∀ f t, Decidable (admission f t)]

/-- The saga arm, after the compare-and-set: the pass, and its task rolling back. -/
theorem Early.sagaPass (h : Early seed now db db' call db₁)
    (hsource : ∀ f, stampedRun db₁ seed runId fence = some f → ∃ r, FailedFrom seed now db f r)
    (hnone : ∀ r ∈ db₁.runs, r.fenceStamp ≠ some ⟨seed, .rollbackPass⟩)
    (hplaces : call.Places .rollbackPass) (hnext : call.nextRunId = some passId)
    (hfits : ∀ f t, stampedRun db₁ seed runId fence = some f → admission f t →
      delayMs = 0 ∨ epochAdditionFits now delayMs)
    (hpass : sagaPass db₁ seed queue runId passId fence enteringWith delayMs admission = some db₂) :
    Early seed now db db' call db₂ := by
  obtain ⟨placed, hplaced, hdb₂⟩ := Option.bind_eq_some_iff.mp hpass
  obtain rfl := Option.some.inj hdb₂
  have hqueued : (if delayMs ≤ 0 then TaskState.pending else .sleeping).Queued := by
    split <;> trivial
  obtain ⟨hearly, _⟩ := h.failureSuccessor hsource hplaces hnext (by simp) hqueued
    (fun _ f t hf _ _ hadm => hfits f t hf hadm.2.1) hplaced
  set marked := sagaPhaseMarker placed seed passId enteringWith
  have hruns : marked.runs = placed.runs := sagaPhaseMarker_runs
  have hkept : ∀ f, stampedRun db₁ seed runId fence = some f →
      stampedRun marked seed runId fence = some f := by
    intro f hf
    obtain ⟨hf, hid, hs⟩ := stampedRun_eq_some.mp hf
    refine stampedRun_eq_some.mpr ⟨?_, hid, hs⟩
    rw [hruns]
    exact failureSuccessor_mem hplaced hf
  have hrolling : TasksMoved seed now db call marked
      (taskRollingBack marked seed queue runId passId fence) := by
    refine runsToTasks_moved fun t _ p hp hfol hq => ?_
    obtain ⟨f, _, hf, _, _, _, rfl⟩ := failureSuccessor_placed hnone hplaced (hruns ▸ hp) hfol.stamp
    obtain ⟨r, hfailed⟩ := hsource f hf
    have hpassed := stampedRun_eq_some.mpr ⟨hp, hfol.selected, hfol.stamp⟩
    have hrolled : Task.Move seed now db call t { t with
        attempts := r.attempt - t.infraRetries
        maxAttempts := r.attempt - t.infraRetries + 1
        state := if delayMs ≤ 0 then .pending else .sleeping
        lastAttemptRun := some passId } := by
      refine .rollingBack hfol.narrow hfailed.mem ⟨?_, ?_⟩ hfailed.running hplaces hqueued hnext
      · exact hfol.taskId.symm.trans hfailed.same.taskId.symm
      · exact hq.trans (hfol.queue.symm.trans hfailed.same.queue.symm)
    -- The attempts the statement computes are those of the run that failed, which it finds by its
    -- stamp.
    have hset : { t with
        attempts := userAttemptsFrom marked seed runId fence t
        maxAttempts := userAttemptsFrom marked seed runId fence t + 1
        state := stampedRunState marked seed passId .rollbackPass t
        lastAttemptRun := some passId } = { t with
        attempts := r.attempt - t.infraRetries
        maxAttempts := r.attempt - t.infraRetries + 1
        state := if delayMs ≤ 0 then .pending else .sleeping
        lastAttemptRun := some passId } := by
      unfold userAttemptsFrom stampedRunState
      rw [hkept f hf, hpassed]
      simp only [Option.map_some, Option.getD_some, hfailed.same.attempt, successorRun]
    rw [← hset] at hrolled
    exact hrolled
  have hmarked : TasksMoved seed now db call placed marked := .of_eq sagaPhaseMarker_tasks
  refine ⟨hearly.runs.of_runs hruns, (hearly.tasks.trans hmarked).trans hrolling, ?_, ?_⟩
  · have hwaits : marked.waits = placed.waits := sagaPhaseMarker_waits
    exact hwaits.trans hearly.waits
  · have hevents : marked.events = placed.events := sagaPhaseMarker_events
    exact hevents.trans hearly.events

/-- A saga arm that enters the phase writes the marker for its pass, and one inside it writes no
checkpoint. -/
theorem sagaPass_checks (hchecks : db₁.checkpoints = db.checkpoints)
    (hsource : ∀ f, stampedRun db₁ seed runId fence = some f → ∃ r, FailedFrom seed now db f r)
    (hnone : ∀ r ∈ db₁.runs, r.fenceStamp ≠ some ⟨seed, .rollbackPass⟩)
    (hplaces : call.Places .rollbackPass) (hnext : call.nextRunId = some passId)
    (hdelay : delayMs = 0)
    (hbegan : ∀ f t, admission f t → ¬ sagaBegan db t.taskId)
    (hpass : sagaPass db₁ seed queue runId passId fence enteringWith delayMs admission = some db₂)
    (hkept : ∀ p ∈ db₂.runs, p.state = .pending → p.fenceStamp = some ⟨seed, .rollbackPass⟩ →
      p ∈ db'.runs) : Checks seed now db db' call db₂ := by
  obtain ⟨placed, hplaced, hdb₂⟩ := Option.bind_eq_some_iff.mp hpass
  obtain rfl := Option.some.inj hdb₂
  have hplacedChecks : placed.checkpoints = db.checkpoints := by
    obtain ⟨rfl, _⟩ | ⟨_, _, _, _, _, _, rfl⟩ := failureSuccessor_cases hplaced
    · exact hchecks
    · exact hchecks
  have hmarked : Checks seed now db db' call (sagaPhaseMarker placed seed passId enteringWith) := by
    have hruns : (sagaPhaseMarker placed seed passId enteringWith).runs = placed.runs :=
      sagaPhaseMarker_runs
    unfold sagaPhaseMarker
    split
    · exact .of_eq hplacedChecks
    · refine .write hplacedChecks fun p hp => ?_
      obtain ⟨hp, _, hs⟩ := stampedRun_eq_some.mp hp
      obtain ⟨f, t, hf, _, hown, hadm, rfl⟩ := failureSuccessor_placed hnone hplaced hp hs
      obtain ⟨r, hfailed⟩ := hsource f hf
      refine ⟨_, .entered (hkept _ (hruns ▸ hp) ?_ hs) ?_ hplaces ?_, .refl _⟩
      · simp [successorRun, hdelay]
      · rw [hfailed.wakes, hfailed.instant]
        exact .followed hfailed.mem hfailed.running hplaces (by simp [hdelay]) (Or.inl hdelay) hnext
      · have htask : t.taskId = f.taskId := hown.1
        show ¬ sagaBegan db f.taskId
        rw [← htask]
        exact hbegan f t hadm.2.1
  exact hmarked

/-- A pass that enters no phase changes no checkpoint. -/
theorem sagaPass_checkpoints
    (hpass : sagaPass db₁ seed queue runId passId fence none delayMs admission = some db₂) :
    db₂.checkpoints = db₁.checkpoints := by
  obtain ⟨placed, hplaced, hdb₂⟩ := Option.bind_eq_some_iff.mp hpass
  obtain rfl := Option.some.inj hdb₂
  obtain ⟨rfl, _⟩ | ⟨_, _, _, _, _, _, rfl⟩ := failureSuccessor_cases hplaced
  · rfl
  · rfl

/-- Where no run has the pass's id afterwards, no pass was placed and no task rolls back. -/
theorem sagaPass_tasks (hnew : ∀ s ∈ db₂.runs, s.runId ≠ passId)
    (hpass : sagaPass db₁ seed queue runId passId fence enteringWith delayMs admission = some db₂) :
    db₂.tasks = db₁.tasks := by
  obtain ⟨placed, hplaced, hdb₂⟩ := Option.bind_eq_some_iff.mp hpass
  obtain rfl := Option.some.inj hdb₂
  have hnone : taskRollingBack (sagaPhaseMarker placed seed passId enteringWith) seed queue runId
      passId fence = sagaPhaseMarker placed seed passId enteringWith :=
    runsToTasks_of_forall_not fun _ _ p hp hfol => hnew p hp hfol.selected
  rw [hnone, sagaPhaseMarker_tasks, failureSuccessor_tasks hplaced]

/-- A rollback pass marks no row with another name. -/
theorem Unmarked.sagaPass (h : Unmarked db₁ seed n) (hne : n ≠ .taskRollingBack)
    (hpass : sagaPass db₁ seed queue runId passId fence enteringWith delayMs admission = some db₂) :
    Unmarked db₂ seed n := by
  obtain ⟨placed, hplaced, hdb₂⟩ := Option.bind_eq_some_iff.mp hpass
  obtain rfl := Option.some.inj hdb₂
  have hmarked : Unmarked (sagaPhaseMarker placed seed passId enteringWith) seed n := by
    intro t ht
    rw [sagaPhaseMarker_tasks, failureSuccessor_tasks hplaced] at ht
    exact h t ht
  exact hmarked.runsToTasks hne

end SagaPass

/-! ## The run a batch fails -/

/-- A run with the stamp of a failing compare-and-set, before the wake, is one the batch failed. -/
theorem EarlyRuns.failedFrom (h : EarlyRuns seed now db db' call db₁) (hfresh : Unstamped db seed)
    (hfails : fence = .fail ∨ fence = .cap) {f : Run}
    (hf : stampedRun db₁ seed runId fence = some f) : ∃ r, FailedFrom seed now db f r := by
  obtain ⟨hf, _, hs⟩ := stampedRun_eq_some.mp hf
  obtain ⟨r, hr, rfl | ⟨hm, _, _⟩⟩ | ⟨hborn, _, _⟩ := h.before f hf
  · exact absurd rfl (hfresh f hr _ hs)
  · cases hm with
    | failed hg => exact ⟨r, hr, hg.1.running, ⟨rfl, rfl, rfl, rfl⟩, rfl, fun _ _ _ _ _ => rfl⟩
    | capped hg => exact ⟨r, hr, hg.1.2.2.1, ⟨rfl, rfl, rfl, rfl⟩, rfl, fun _ _ _ _ _ => rfl⟩
    | timedOut hg => exact ⟨r, hr, hg.1.2.2.1, ⟨rfl, rfl, rfl, rfl⟩, rfl, fun _ _ _ _ _ => rfl⟩
    | expired => exact absurd rfl (hfresh r hr _ hs)
    | claimed | activated | extended | deferred | rescheduled | suspended | leased | awaited
    | completed | reopened | cancelled | woken =>
      obtain rfl := (Stamp.mk.inj (Option.some.inj hs)).2
      simp at hfails
  · cases hborn with
    | first | revived =>
      obtain rfl := (Stamp.mk.inj (Option.some.inj hs)).2
      simp at hfails
    | followed _ _ hplaces =>
      obtain rfl := (Stamp.mk.inj (Option.some.inj hs)).2
      cases call <;> rcases hfails with rfl | rfl <;> exact hplaces.elim

/-- A wait outlives the end of the run the batch failed: that run had none. -/
theorem Early.mem_waitsGone (h : Early seed now db db' call db₁) (hheld : Held db)
    (hfresh : Unstamped db seed) (hfails : fence = .fail ∨ fence = .cap) {w : Wait}
    (hw : w ∈ db.waits) : w ∈ (waitsGone db₁ seed runId fence).waits := by
  refine Durablerun.mem_waitsGone hheld (fun f hf hs => ?_) hw (h.waits.symm ▸ hw)
  obtain ⟨r, hfailed⟩ := h.runs.failedFrom hfresh hfails (stampedRun_eq_some.mpr ⟨hf, rfl, hs⟩)
  exact ⟨r, hfailed.mem, hfailed.same, hfailed.running⟩

/-- The task still names the run it named before the batch. -/
def KeptLast (db : Db) (t : Task) : Prop :=
  ∃ t₀ ∈ db.tasks, t₀.taskId = t.taskId ∧ t.lastAttemptRun = t₀.lastAttemptRun

/-- A task of the store names the run it named. -/
theorem KeptLast.of_mem {t : Task} (ht : t ∈ db.tasks) : KeptLast db t := ⟨t, ht, rfl, rfl⟩

/-- A task the placed run does not follow is left as it was by the statement that follows it. -/
theorem unfollowed_task {placed marked : Db} {delayMs : ℤ} {state : TaskState}
    {admission : Run → Task → Prop} [∀ f t, Decidable (admission f t)]
    {narrow : Task → Prop} [DecidablePred narrow] {set : Table.Change Task.keys}
    (hnone : ∀ r ∈ db₁.runs, r.fenceStamp ≠ some ⟨seed, name⟩)
    (hplaced : failureSuccessor db₁ seed name fence passId runId delayMs state admission =
      some placed) (hruns : marked.runs = placed.runs) (hset : ∀ t, (set t).taskId = t.taskId)
    {t : Task}
    (ht : t ∈ (runsToTasks marked seed n name queue (fun f => f.runId = passId) narrow set).tasks)
    {f : Run} (hf : f ∈ placed.runs) (hid : f.runId = runId)
    (hno : ¬ successorOwned placed passId t.taskId (f.attempt + 1)) : t ∈ marked.tasks := by
  obtain ⟨u, _, p, hp, hfol, _, _, rfl⟩ | ⟨ht, _⟩ := runsToTasks_cases ht
  · rw [hruns] at hp
    obtain ⟨f₀, _, hf₀, _, _, _, hpeq⟩ := failureSuccessor_placed hnone hplaced hp hfol.stamp
    obtain ⟨hf₀, hid₀, _⟩ := stampedRun_eq_some.mp hf₀
    have hf₀' : f₀ ∈ placed.runs := failureSuccessor_mem hplaced hf₀
    obtain rfl := placed.run_unique hf hf₀' (hid.trans hid₀.symm)
    refine absurd ⟨p, hp, hfol.selected, hfol.taskId.trans (hset u).symm, ?_⟩ hno
    rw [hpeq]
    rfl
  · exact ht

/-- A run of the failed run's id was there before the run that follows it. -/
theorem failed_before {placed : Db} {delayMs : ℤ} {state : TaskState}
    {admission : Run → Task → Prop} [∀ f t, Decidable (admission f t)]
    (hplaced : failureSuccessor db₁ seed name fence passId runId delayMs state admission =
      some placed) {f : Run} (hf : f ∈ placed.runs) (hid : f.runId = runId) : f ∈ db₁.runs := by
  obtain ⟨rfl, _⟩ | ⟨f₀, hf₀, _⟩ := failureSuccessor_cases hplaced
  · exact hf
  · obtain ⟨hf₀, hid₀, _⟩ := stampedRun_eq_some.mp hf₀
    rwa [placed.run_unique hf (failureSuccessor_mem hplaced hf₀) (hid.trans hid₀.symm)]

/-- A task the saga arm left without a pass still names the run it named. -/
theorem KeptLast.sagaPass {enteringWith : Option String} {delayMs : ℤ}
    {admission : Run → Task → Prop} [∀ f t, Decidable (admission f t)]
    (hkept : ∀ t ∈ db₁.tasks, KeptLast db t)
    (hnone : ∀ r ∈ db₁.runs, r.fenceStamp ≠ some ⟨seed, .rollbackPass⟩)
    (hpass : sagaPass db₁ seed queue runId passId fence enteringWith delayMs admission = some db₂)
    {t : Task} (ht : t ∈ db₂.tasks) {f : Run} (hf : f ∈ db₂.runs) (hid : f.runId = runId)
    (hno : ¬ successorOwned db₂ passId t.taskId (f.attempt + 1)) : KeptLast db t := by
  obtain ⟨placed, hplaced, hdb₂⟩ := Option.bind_eq_some_iff.mp hpass
  obtain rfl := Option.some.inj hdb₂
  have hruns : (sagaPhaseMarker placed seed passId enteringWith).runs = placed.runs :=
    sagaPhaseMarker_runs
  have hf' : f ∈ (sagaPhaseMarker placed seed passId enteringWith).runs := hf
  rw [hruns] at hf'
  have hno' : ¬ successorOwned placed passId t.taskId (f.attempt + 1) := by
    rintro ⟨s, hs, howned⟩
    rw [← hruns] at hs
    exact hno ⟨s, hs, howned⟩
  have ht' := unfollowed_task hnone hplaced hruns (fun _ => rfl) ht hf' hid hno'
  rw [sagaPhaseMarker_tasks, failureSuccessor_tasks hplaced] at ht'
  exact hkept t ht'

/-- The statement that ends the task of the run the batch failed. -/
theorem terminal_moved {reason : String} {narrow : Task → Prop} [DecidablePred narrow]
    {set : Table.Change Task.keys} (h : EarlyRuns seed now db db' call db₁)
    (hfresh : Unstamped db seed) (hfails : fence = .fail ∨ fence = .cap)
    (hnarrow : ∀ t, narrow t → t.state.Live)
    (hset : ∀ t : Task, ∃ attempts, set t = { t with
      attempts, state := .failed, failureReason := some reason })
    (hends : call.failureReason = some reason)
    (hkept : ∀ t ∈ db₁.tasks, ∀ f ∈ db₁.runs, f.runId = runId → f.taskId = t.taskId →
      f.fenceStamp = some ⟨seed, fence⟩ → narrow t → KeptLast db t) :
    TasksMoved seed now db call db₁
      (runsToTasks db₁ seed name fence queue (fun f => f.runId = runId) narrow set) := by
  refine runsToTasks_moved fun t ht f hf hfol hq => ?_
  obtain ⟨r, hfailed⟩ :=
    h.failedFrom hfresh hfails (stampedRun_eq_some.mpr ⟨hf, hfol.selected, hfol.stamp⟩)
  obtain ⟨attempts, hset⟩ := hset t
  obtain ⟨t₀, ht₀, hid₀, hlast⟩ := hkept t ht f hf hfol.selected hfol.taskId hfol.stamp hfol.narrow
  rw [hset]
  refine .failed (hnarrow t hfol.narrow) hfailed.mem ⟨?_, ?_⟩ hfailed.running hends ht₀ hid₀ hlast
  · exact hfol.taskId.symm.trans hfailed.same.taskId.symm
  · exact hq.trans (hfol.queue.symm.trans hfailed.same.queue.symm)

/-! ## fail and failRollback -/

section Fail

variable {failure : Failure}

/-- A run with the failure's stamp, before the wake, is one the failure took. -/
theorem EarlyRuns.failed (h : EarlyRuns seed now db db' (.failInto failure) db₁)
    (hfresh : Unstamped db seed) {f : Run} (hf : f ∈ db₁.runs)
    (hs : f.fenceStamp = some ⟨seed, .fail⟩) :
    ∃ r ∈ db.runs, failGuard db now failure r ∧
      f = failAssignments seed .fail failure.failureJson now r := by
  obtain ⟨r, hr, rfl | ⟨hm, _, _⟩⟩ | ⟨hborn, _, _⟩ := h.before f hf
  · exact absurd rfl (hfresh f hr _ hs)
  · cases hm with
    | failed hg => exact ⟨r, hr, hg, rfl⟩
    | woken => cases hs
  · cases hborn with
    | @followed _ _ name _ _ _ _ _ hplaces _ _ _ =>
      simp only [successorRun, Option.some.injEq, Stamp.mk.injEq, true_and] at hs
      subst hs
      exact hplaces.elim

/-- The user retry's delay fits: the failure was let in with room for it. -/
theorem failGuard.fits {r : Run} (h : failGuard db now failure r) {delay : ℤ}
    (hdelay : failure.retryDelayMs = some delay) {t : Task} (ht : t ∈ db.tasks)
    (hid : r.taskId = t.taskId) (hl : t.state.Live)
    (hbudget : r.attempt - t.infraRetries < t.maxAttempts) : epochAdditionFits now delay := by
  obtain ⟨_, ⟨u, hu, hown, hu'⟩, _⟩ := h
  obtain rfl := db.task_unique hu ht (hown.1.trans hid)
  obtain hl' | ⟨_, _, _, _, hfits⟩ := hu'
  · exact absurd hl hl'
  · exact (hfits delay hdelay).resolve_left (by omega)

/-- The statements of a failure up to the saga arm. -/
theorem rollbackTries_early (hfresh : Unstamped db seed) :
    Early seed now db db' (.failInto failure)
        (rollbackTries (failCas db seed failure now) seed failure) ∧
      Checks seed now db db' (.failInto failure)
        (rollbackTries (failCas db seed failure now) seed failure) := by
  have hcas : EarlyRuns seed now db db' (.failInto failure) (failCas db seed failure now) := by
    refine .update fun r _ hg => ⟨.failed hg, Or.inl hg.1.running, ?_⟩
    simp [failAssignments, failedRun]
  refine ⟨⟨hcas.of_runs rollbackTries_runs, .of_eq rollbackTries_tasks, rollbackTries_waits,
    rollbackTries_events⟩, ?_⟩
  unfold rollbackTries
  split
  · exact .of_eq rfl
  · rename_i rollback hrollback
    refine .write rfl fun f hf => ?_
    obtain ⟨hf, _, hs⟩ := stampedRun_eq_some.mp hf
    obtain ⟨r, hr, hg, rfl⟩ := stamped_update hfresh hf hs
    exact ⟨r, .tried hr hg hrollback, rfl, rfl, rfl, rfl⟩

/-- Before the saga arm no run carries the pass's stamp. -/
theorem rollbackTries_unstamped (hfresh : Unstamped db seed) :
    ∀ r ∈ (rollbackTries (failCas db seed failure now) seed failure).runs,
      r.fenceStamp ≠ some ⟨seed, .rollbackPass⟩ := by
  intro r hr hs
  rw [rollbackTries_runs] at hr
  obtain ⟨_, _, _, rfl⟩ := stamped_update hfresh hr hs
  simp [failAssignments, failedRun] at hs

/-- Up to its rollback pass, a failure has had only the effects it may. -/
theorem failSagaPass_early (hfresh : Unstamped db seed) {passed : Db}
    (hpass : failSagaPass (rollbackTries (failCas db seed failure now) seed failure) seed failure =
      some passed)
    (hkept : ∀ p ∈ passed.runs, p.state = .pending → p.fenceStamp = some ⟨seed, .rollbackPass⟩ →
      p ∈ db'.runs) :
    Early seed now db db' (.failInto failure) passed ∧
      Checks seed now db db' (.failInto failure) passed := by
  obtain ⟨htried, hchecks⟩ : Early seed now db db' (.failInto failure)
      (rollbackTries (failCas db seed failure now) seed failure) ∧
      Checks seed now db db' (.failInto failure)
        (rollbackTries (failCas db seed failure now) seed failure) := rollbackTries_early hfresh
  have hsource : ∀ f, stampedRun (rollbackTries (failCas db seed failure now) seed failure) seed
      failure.claim.runId .fail = some f → ∃ r, FailedFrom seed now db f r :=
    fun f hf => htried.runs.failedFrom hfresh (Or.inl rfl) hf
  have hnone : ∀ r ∈ (rollbackTries (failCas db seed failure now) seed failure).runs,
      r.fenceStamp ≠ some ⟨seed, .rollbackPass⟩ := rollbackTries_unstamped hfresh
  unfold failSagaPass at hpass
  split at hpass
  · rename_i hrollback
    have hsame : (rollbackTries (failCas db seed failure now) seed failure).checkpoints =
        db.checkpoints := by
      unfold rollbackTries
      rw [hrollback]
      rfl
    refine ⟨htried.sagaPass hsource hnone trivial rfl (fun _ _ _ _ => Or.inl rfl) hpass,
      sagaPass_checks hsame hsource hnone trivial rfl rfl (fun f t hadm => ?_) hpass hkept⟩
    rw [← sagaBegan_of_eq hsame]
    exact hadm.1
  · rename_i rollback hrollback
    split at hpass
    · obtain rfl := Option.some.inj hpass
      exact ⟨htried, hchecks⟩
    · refine ⟨htried.sagaPass hsource hnone trivial rfl (fun f t hf hadm => Or.inr ?_) hpass,
        hchecks.of_checkpoints (sagaPass_checkpoints hpass)⟩
      obtain ⟨r, hfailed⟩ := hsource f hf
      rw [← hfailed.instant]
      exact hadm

/-- The run of a user retry, by its stamp, follows the run the failure took. -/
theorem EarlyRuns.retried {passed placed : Db} {delay : ℤ} {state : TaskState}
    (h : EarlyRuns seed now db db' (.failInto failure) passed) (hfresh : Unstamped db seed)
    (hnone : ∀ r ∈ passed.runs, r.fenceStamp ≠ some ⟨seed, .successor⟩)
    (hplaced : failureSuccessor passed seed .successor .fail failure.passId failure.claim.runId delay
      state retryAdmission = some placed) {p : Run} (hp : p ∈ placed.runs)
    (hs : p.fenceStamp = some ⟨seed, .successor⟩) : ∃ r ∈ db.runs, failGuard db now failure r ∧
      p.taskId = r.taskId ∧ p.queue = r.queue ∧ p.state = state ∧
      stampedRun placed seed failure.claim.runId .fail =
        some (failAssignments seed .fail failure.failureJson now r) := by
  obtain ⟨f, _, hf, _, _, _, rfl⟩ := failureSuccessor_placed hnone hplaced hp hs
  obtain ⟨hfm, hid, hfs⟩ := stampedRun_eq_some.mp hf
  obtain ⟨r, hr, hg, rfl⟩ := h.failed hfresh hfm hfs
  exact ⟨r, hr, hg, rfl, rfl, rfl,
    stampedRun_eq_some.mpr ⟨failureSuccessor_mem hplaced hfm, hid, hfs⟩⟩

/-- A user retry takes no run away. -/
theorem mem_userRetry {passed retried : Db} (hretry : userRetry passed seed failure = some retried)
    {r : Run} (hr : r ∈ passed.runs) : r ∈ retried.runs := by
  unfold userRetry at hretry
  split at hretry
  · obtain rfl := Option.some.inj hretry
    exact hr
  · obtain ⟨placed, hplaced, rfl⟩ := Option.map_eq_some_iff.mp hretry
    exact failureSuccessor_mem hplaced hr

/-- Up to its user retry, a failure has had only the effects it may. -/
theorem userRetry_early {passed retried : Db} (hfresh : Unstamped db seed)
    (h : Early seed now db db' (.failInto failure) passed)
    (hnone : ∀ r ∈ passed.runs, r.fenceStamp ≠ some ⟨seed, .successor⟩)
    (hunplaced : (∀ s ∈ passed.runs, s.runId ≠ failure.passId) → passed.tasks = db.tasks)
    (hretry : userRetry passed seed failure = some retried) :
    Early seed now db db' (.failInto failure) retried ∧
      retried.checkpoints = passed.checkpoints := by
  unfold userRetry at hretry
  split at hretry
  · obtain rfl := Option.some.inj hretry
    exact ⟨h, rfl⟩
  · rename_i delay hdelay
    obtain ⟨placed, hplaced, rfl⟩ := Option.map_eq_some_iff.mp hretry
    have hqueued : (if delay ≤ 0 then TaskState.pending else .sleeping).Queued := by
      split <;> trivial
    have hfits : (∀ s ∈ passed.runs, s.runId ≠ failure.passId) → ∀ f t,
        stampedRun passed seed failure.claim.runId .fail = some f → t ∈ passed.tasks →
          runOwnedByTask f t → retryAdmission f t → delay = 0 ∨ epochAdditionFits now delay := by
      intro hnew f t hf ht hown hadm
      obtain ⟨hf, _, hs⟩ := stampedRun_eq_some.mp hf
      obtain ⟨r, _, hg, rfl⟩ := h.runs.failed hfresh hf hs
      rw [hunplaced hnew] at ht
      exact Or.inr (hg.fits hdelay ht hown.1.symm hadm.1 hadm.2.1)
    obtain ⟨hearly, hchecks⟩ := h.failureSuccessor
      (fun f hf => h.runs.failedFrom hfresh (Or.inl rfl) hf)
      (show Call.Places (.failInto failure) .successor from trivial) rfl (by simp) hqueued hfits hplaced
    have hretrying : TasksMoved seed now db (.failInto failure) placed
        (taskRetrying placed seed failure) := by
      refine runsToTasks_moved fun t _ p hp hfol hq => ?_
      obtain ⟨r, hr, hg, hid, hqueue, hst, hf⟩ := h.runs.retried hfresh hnone hplaced hp hfol.stamp
      have hpassed := stampedRun_eq_some.mpr ⟨hp, hfol.selected, hfol.stamp⟩
      have hset : { t with
          attempts := userAttemptsFrom placed seed failure.claim.runId .fail t
          state := stampedRunState placed seed failure.passId .successor t
          lastAttemptRun := some failure.passId } = { t with
          attempts := r.attempt - t.infraRetries
          state := if delay ≤ 0 then .pending else .sleeping
          lastAttemptRun := some failure.passId } := by
        unfold userAttemptsFrom stampedRunState
        rw [hf, hpassed, ← hst]
        rfl
      have hretried : Task.Move seed now db (.failInto failure) t { t with
          attempts := r.attempt - t.infraRetries
          state := if delay ≤ 0 then .pending else .sleeping
          lastAttemptRun := some failure.passId } :=
        .retrying hfol.narrow hr
          ⟨hfol.taskId.symm.trans hid, hq.trans (hfol.queue.symm.trans hqueue)⟩ hg hqueued
      rw [← hset] at hretried
      exact hretried
    exact ⟨⟨hearly.runs.of_runs rfl, hearly.tasks.trans hretrying, hearly.waits, hearly.events⟩,
      hchecks⟩

/-- Where no run has the identity of the run that follows, the saga arm left the tasks alone. -/
theorem failSagaPass_tasks {passed : Db} (hnew : ∀ s ∈ passed.runs, s.runId ≠ failure.passId)
    (hpass : failSagaPass (rollbackTries (failCas db seed failure now) seed failure) seed failure =
      some passed) : passed.tasks = db.tasks := by
  have htried : (rollbackTries (failCas db seed failure now) seed failure).tasks = db.tasks :=
    rollbackTries_tasks
  rw [← htried]
  unfold failSagaPass at hpass
  split at hpass
  · exact sagaPass_tasks hnew hpass
  · split at hpass
    · rw [Option.some.inj hpass]
    · exact sagaPass_tasks hnew hpass

/-- No statement before the user retry leaves its stamp. -/
theorem failSagaPass_unstamped {passed : Db} (hfresh : Unstamped db seed)
    (hpass : failSagaPass (rollbackTries (failCas db seed failure now) seed failure) seed failure =
      some passed) : ∀ r ∈ passed.runs, r.fenceStamp ≠ some ⟨seed, .successor⟩ := by
  have hcas : Frame seed (· ≠ .successor) db (failCas db seed failure now) :=
    .updateRuns (fun _ _ hg => by simp [hg.1.running])
      fun _ => ⟨⟨rfl, rfl, rfl, rfl⟩, .fail, by simp, rfl⟩
  have htried : Frame seed (· ≠ .successor) (failCas db seed failure now)
      (rollbackTries (failCas db seed failure now) seed failure) := by
    unfold rollbackTries
    split
    · exact .refl _
    · exact .checkpointWrite
  have hpassed : Frame seed (· ≠ .successor)
      (rollbackTries (failCas db seed failure now) seed failure) passed := by
    unfold failSagaPass at hpass
    split at hpass
    · exact .sagaPass (by simp) hpass
    · split at hpass
      · rw [Option.some.inj hpass]
        exact .refl _
      · exact .sagaPass (by simp) hpass
  intro r hr hs
  obtain ⟨r₀, hr₀, _, hs₀, _⟩ := ((hcas.trans htried).trans hpassed).stamped_before hr hs
    fun n hn he => hn (congrArg Stamp.statement he).symm
  exact hfresh r₀ hr₀ _ hs₀ rfl

/-- A task the saga arm left without a pass still names the run it named. -/
theorem KeptLast.failSagaPass {passed : Db} (hfresh : Unstamped db seed)
    (hpass : failSagaPass (rollbackTries (failCas db seed failure now) seed failure) seed failure =
      some passed) {t : Task} (ht : t ∈ passed.tasks) {f : Run} (hf : f ∈ passed.runs)
    (hid : f.runId = failure.claim.runId)
    (hno : ¬ successorOwned passed failure.passId t.taskId (f.attempt + 1)) : KeptLast db t := by
  have htried : ∀ t ∈ (rollbackTries (failCas db seed failure now) seed failure).tasks,
      KeptLast db t := by
    intro t ht
    rw [rollbackTries_tasks] at ht
    exact .of_mem ht
  have hnone : ∀ r ∈ (rollbackTries (failCas db seed failure now) seed failure).runs,
      r.fenceStamp ≠ some ⟨seed, .rollbackPass⟩ := rollbackTries_unstamped hfresh
  unfold Durablerun.failSagaPass at hpass
  split at hpass
  · exact .sagaPass htried hnone hpass ht hf hid hno
  · split at hpass
    · obtain rfl := Option.some.inj hpass
      exact htried t ht
    · exact .sagaPass htried hnone hpass ht hf hid hno

/-- A task no run follows still names the run it named. -/
theorem KeptLast.userRetry {passed retried : Db} (hfresh : Unstamped db seed)
    (hpass : Durablerun.failSagaPass (rollbackTries (failCas db seed failure now) seed failure) seed
      failure = some passed) (hretry : Durablerun.userRetry passed seed failure = some retried)
    {t : Task} (ht : t ∈ retried.tasks) {f : Run} (hf : f ∈ retried.runs)
    (hid : f.runId = failure.claim.runId)
    (hno : ¬ successorOwned retried failure.passId t.taskId (f.attempt + 1)) : KeptLast db t := by
  have hnone := failSagaPass_unstamped hfresh hpass
  unfold Durablerun.userRetry at hretry
  split at hretry
  · obtain rfl := Option.some.inj hretry
    exact .failSagaPass hfresh hpass ht hf hid hno
  · obtain ⟨placed, hplaced, rfl⟩ := Option.map_eq_some_iff.mp hretry
    have hf' : f ∈ placed.runs := hf
    have hno' : ¬ successorOwned placed failure.passId t.taskId (f.attempt + 1) := hno
    have ht' : t ∈ placed.tasks := unfollowed_task hnone hplaced rfl (fun _ => rfl) ht hf' hid hno'
    rw [failureSuccessor_tasks hplaced] at ht'
    refine .failSagaPass hfresh hpass ht' (failed_before hplaced hf' hid) hid ?_
    rintro ⟨s, hs, howned⟩
    exact hno' ⟨s, failureSuccessor_mem hplaced hs, howned⟩

/-- The terminal arm moves the task of the run the failure took. -/
theorem failTerminal_early {passed retried : Db} (hfresh : Unstamped db seed)
    (h : Early seed now db db' (.failInto failure) retried)
    (hpass : failSagaPass (rollbackTries (failCas db seed failure now) seed failure) seed failure =
      some passed) (hretry : userRetry passed seed failure = some retried) :
    Early seed now db db' (.failInto failure) (failTerminal retried seed failure) := by
  refine ⟨h.runs.of_runs rfl, h.tasks.trans ?_, h.waits, h.events⟩
  exact terminal_moved h.runs hfresh (Or.inl rfl) (fun _ ht => ht.1) (fun _ => ⟨_, rfl⟩) rfl
    fun t ht f hf hid _ _ hlone => .userRetry hfresh hpass hretry ht hf hid fun hown =>
      hlone.2 ⟨f, hf, hid, hown⟩

/-- Before the terminal arm no task carries the arm's stamp. -/
theorem userRetry_unmarked {passed retried : Db} (hfresh : Unused db seed)
    (hpass : failSagaPass (rollbackTries (failCas db seed failure now) seed failure) seed failure =
      some passed) (hretry : userRetry passed seed failure = some retried) :
    Unmarked retried seed failure.terminal := by
  have hterminal : failure.terminal ≠ .taskRollingBack ∧ failure.terminal ≠ .taskRetrying := by
    unfold Failure.terminal
    split <;> simp
  have htried : Unmarked (rollbackTries (failCas db seed failure now) seed failure) seed
      failure.terminal := by
    intro t ht
    rw [rollbackTries_tasks] at ht
    exact hfresh.unmarked failure.terminal t ht
  have hpassed : Unmarked passed seed failure.terminal := by
    unfold failSagaPass at hpass
    split at hpass
    · exact htried.sagaPass hterminal.1 hpass
    · split at hpass
      · rwa [← Option.some.inj hpass]
      · exact htried.sagaPass hterminal.1 hpass
  unfold userRetry at hretry
  split at hretry
  · rwa [← Option.some.inj hretry]
  · obtain ⟨placed, hplaced, rfl⟩ := Option.map_eq_some_iff.mp hretry
    have hplaced' : Unmarked placed seed failure.terminal := by
      intro t ht
      rw [failureSuccessor_tasks hplaced] at ht
      exact hpassed t ht
    exact hplaced'.runsToTasks hterminal.2

/-- The effect of a failure. -/
theorem failInto_effect (h : Inv db) (hfresh : Unused db seed)
    (hrun : failInto seed failure now db = some out) :
    Effect seed now db out.db (.failInto failure) := by
  obtain ⟨passed, hpass, hrun⟩ := Option.bind_eq_some_iff.mp hrun
  obtain ⟨retried, hretry, hout⟩ := Option.bind_eq_some_iff.mp hrun
  obtain rfl := Option.some.inj hout
  have hkept : ∀ p ∈ passed.runs, p.state = .pending →
      p.fenceStamp = some ⟨seed, .rollbackPass⟩ →
        p ∈ (addTaskDone (waitsGone (failTerminal retried seed failure) seed failure.claim.runId
          .fail) seed failure.claim.queue failure.taskId failure.terminal
          (encodeTaskOutcome (.failed failure.failureJson))).runs := by
    intro p hp hst hs
    have hp' : p ∈ (waitsGone (failTerminal retried seed failure) seed failure.claim.runId
        .fail).runs := mem_userRetry hretry hp
    exact mem_addTaskDone hp' (by simp [hst]) (by simp [hs])
  obtain ⟨hpassed, hchecks⟩ := failSagaPass_early hfresh.runs hpass hkept
  obtain ⟨hretried, hsame⟩ := userRetry_early hfresh.runs hpassed
    (failSagaPass_unstamped hfresh.runs hpass) (fun hnew => failSagaPass_tasks hnew hpass) hretry
  have hended := failTerminal_early hfresh.runs hretried hpass hretry
  have hchecks' : (waitsGone (failTerminal retried seed failure) seed failure.claim.runId
      .fail).checkpoints = passed.checkpoints := hsame
  refine .of_finish h.held hfresh.runs rfl (hended.runs.of_runs rfl)
    (hended.tasks.trans (.of_eq rfl)) (fun w hw => hended.waits ▸ (mem_runsToWaits.mp hw).1)
    (fun w hw => Or.inl (hended.mem_waitsGone h.held hfresh.runs (Or.inl rfl) hw)) hended.events
    (hchecks.of_checkpoints hchecks') fun t ht _ hs => ?_
  obtain ⟨_, _, _, _, _, _, _, rfl⟩ | ⟨ht, _⟩ := runsToTasks_cases ht
  · rfl
  · exact absurd hs (userRetry_unmarked hfresh hpass hretry t ht)

end Fail

/-! ## The sweep -/

section Sweep

variable {swept : Swept}

/-- The two compare-and-sets of a lost launch: the second takes no run the first took. -/
theorem capLostLaunch_early : EarlyRuns seed now db db' (.sweepLostLaunch swept)
    (capLostLaunchCas (reopenLostLaunchCas db seed swept now) seed swept now) := by
  by_cases hreopen : ∃ r ∈ db.runs, reopenGuard db now swept r
  · obtain ⟨r, hr, hg⟩ := hreopen
    have hcap : capLostLaunchCas (reopenLostLaunchCas db seed swept now) seed swept now =
        reopenLostLaunchCas db seed swept now := by
      refine updateRuns_of_forall_not fun s hs hcapg => ?_
      obtain ⟨_, _, _, rfl⟩ | ⟨hs, hno⟩ := Table.update_cases hs
      · cases hcapg.1.2.2.1
      · rw [db.run_unique hs hr (hcapg.1.1.trans hg.1.1.symm)] at hno
        exact hno hg
    rw [hcap]
    exact .update fun s _ hs => ⟨.reopened hs, Or.inl hs.1.2.2.1, by simp [reopenAssignments]⟩
  · have hcas : reopenLostLaunchCas db seed swept now = db :=
      updateRuns_of_forall_not fun r hr hg => hreopen ⟨r, hr, hg⟩
    rw [hcas]
    exact .update fun s _ hs => ⟨.capped hs, Or.inl hs.1.2.2.1, by simp [failAssignments, failedRun]⟩

/-- The effect of the sweep of a lost launch. -/
theorem sweepLostLaunch_effect (h : Inv db) (hfresh : Unused db seed)
    (hrun : sweepLostLaunch seed swept now db = some out) :
    Effect seed now db out.db (.sweepLostLaunch swept) := by
  obtain ⟨passed, hpass, hout⟩ := Option.bind_eq_some_iff.mp hrun
  obtain rfl := Option.some.inj hout
  set capped := capLostLaunchCas (reopenLostLaunchCas db seed swept now) seed swept now with hcapped
  set ended := waitsGone (taskFail (taskPending passed seed swept) seed swept) seed swept.runId .cap
    with hended
  set done := addTaskDone ended seed swept.queue swept.taskId .taskFail
    (encodeTaskOutcome (.failed REASON_RELAUNCH_CAP)) with hdone
  have hcas : Early seed now db done (.sweepLostLaunch swept) capped :=
    ⟨capLostLaunch_early, .of_eq rfl, rfl, rfl⟩
  have hsource : ∀ f, stampedRun capped seed swept.runId .cap = some f →
      ∃ r, FailedFrom seed now db f r :=
    fun f hf => hcas.runs.failedFrom hfresh.runs (Or.inr rfl) hf
  have hnone : ∀ r ∈ capped.runs, r.fenceStamp ≠ some ⟨seed, .rollbackPass⟩ := by
    intro r hr hs
    obtain ⟨_, _, _, rfl⟩ | ⟨hr, _⟩ := Table.update_cases hr
    · cases hs
    · obtain ⟨_, _, _, rfl⟩ | ⟨hr, _⟩ := Table.update_cases hr
      · cases hs
      · exact hfresh.runs r hr _ hs rfl
  -- What follows the pass in the batch finishes runs of other stamps, so the pass stays.
  have hkept : ∀ p ∈ passed.runs, p.state = .pending →
      p.fenceStamp = some ⟨seed, .rollbackPass⟩ → p ∈ done.runs := by
    intro p hp hst hs
    have hp' : p ∈ ended.runs := hp
    exact mem_addTaskDone hp' (by simp [hst]) (by simp [hs])
  have hpassed : Early seed now db done (.sweepLostLaunch swept) passed :=
    hcas.sagaPass hsource hnone trivial rfl (fun _ _ _ _ => Or.inl rfl) hpass
  have hsame : capped.checkpoints = db.checkpoints := rfl
  have hchecks : Checks seed now db done (.sweepLostLaunch swept) passed :=
    sagaPass_checks hsame hsource hnone trivial rfl rfl (fun _ _ hadm => hadm.1) hpass hkept
  have hpending : TasksMoved seed now db (.sweepLostLaunch swept) passed
      (taskPending passed seed swept) :=
    runsToTasks_moved fun _ _ _ _ hfol _ => .followed hfol.narrow trivial
  have hruns : EarlyRuns seed now db done (.sweepLostLaunch swept) (taskPending passed seed swept) :=
    hpassed.runs
  have hfail : TasksMoved seed now db (.sweepLostLaunch swept) (taskPending passed seed swept)
      (taskFail (taskPending passed seed swept) seed swept) := by
    refine terminal_moved hruns hfresh.runs (Or.inr rfl) (fun _ ht => ht.1)
      (fun t => ⟨t.attempts, rfl⟩) rfl fun t ht f hf hid _ hs hlone => ?_
    -- The terminal arm asks that nothing follows the run, so the pass did not place the task's row.
    have hno : ¬ successorOwned passed swept.passId t.taskId (f.attempt + 1) := fun hown =>
      hlone.2 ⟨f, stampedRun_eq_some.mpr ⟨hf, hid, hs⟩, hown⟩
    obtain ⟨u, hu, _, _, _, _, _, rfl⟩ | ⟨ht, _⟩ := runsToTasks_cases ht
    · exact KeptLast.sagaPass (t := u) (fun _ => .of_mem) hnone hpass hu hf hid hno
    · exact .sagaPass (fun _ => .of_mem) hnone hpass ht hf hid hno
  have hfailed : Early seed now db done (.sweepLostLaunch swept)
      (taskFail (taskPending passed seed swept) seed swept) :=
    ⟨hruns, (hpassed.tasks.trans hpending).trans hfail, hpassed.waits, hpassed.events⟩
  have hunmarked : Unmarked (taskPending passed seed swept) seed .taskFail := by
    have hcapped : Unmarked capped seed .taskFail := hfresh.unmarked _
    exact (hcapped.sagaPass (by simp) hpass).runsToTasks (by simp)
  refine .of_finish h.held hfresh.runs rfl (hpassed.runs.of_runs rfl)
    (hfailed.tasks.trans (.of_eq rfl))
    (fun w hw => hpassed.waits ▸ (mem_runsToWaits.mp hw).1)
    (fun w hw => Or.inl (hfailed.mem_waitsGone h.held hfresh.runs (Or.inr rfl) hw)) hpassed.events
    (hchecks.of_checkpoints rfl) fun t ht _ hs => ?_
  obtain ⟨_, _, _, _, _, _, _, rfl⟩ | ⟨ht, _⟩ := runsToTasks_cases ht
  · rfl
  · exact absurd hs (hunmarked t ht)

/-- The run a claim timeout failed, by its stamp. -/
theorem EarlyRuns.timedOut (h : EarlyRuns seed now db db' (.sweepClaimTimeout swept) db₁)
    (hfresh : Unstamped db seed) {f : Run} (hf : f ∈ db₁.runs)
    (hs : f.fenceStamp = some ⟨seed, .fail⟩) :
    ∃ r ∈ db.runs, claimTimeoutGuard db now swept r ∧
      f = failedRun seed .fail REASON_CLAIM_TIMEOUT now r := by
  obtain ⟨r, hr, rfl | ⟨hm, _, _⟩⟩ | ⟨hborn, _, _⟩ := h.before f hf
  · exact absurd rfl (hfresh f hr _ hs)
  · cases hm with
    | timedOut hg => exact ⟨r, hr, hg, rfl⟩
    | woken => cases hs
  · cases hborn with
    | followed _ _ hplaces =>
      obtain rfl := (Stamp.mk.inj (Option.some.inj hs)).2
      exact hplaces.elim

/-- The infrastructure successor's backoff fits: the timeout was let in with room for it. -/
theorem claimTimeoutGuard.fits {r : Run} (h : claimTimeoutGuard db now swept r) {t : Task}
    (ht : t ∈ db.tasks) (hid : r.taskId = t.taskId) (hadm : infraAdmission r t) :
    epochAdditionFits now (INFRA_BACKOFF_SECONDS * 1000) := by
  obtain ⟨_, _, u, hu, hown, ⟨hl, _⟩ | ⟨_, _, hcap | hfits⟩⟩ := h
  · rw [db.task_unique hu ht (hown.1.trans hid)] at hl
    exact absurd hadm.1 hl
  · rw [db.task_unique hu ht (hown.1.trans hid)] at hcap
    have := hadm.2.2.1
    omega
  · exact hfits

/-- The bookkeeping follows the infrastructure successor of the run the timeout failed. -/
theorem bookkeeping_moved {placed passed : Db} (hfresh : Unstamped db seed)
    (hsucc : claimTimeoutSuccessor (failClaimTimeoutCas db seed swept now) seed swept = some placed)
    (hpass : capSagaPass placed seed swept .fail REASON_INFRA_CAP = some passed) :
    TasksMoved seed now db (.sweepClaimTimeout swept) (timeoutTerminal passed seed swept)
      (bookkeeping (timeoutTerminal passed seed swept) seed swept) := by
  have hnone : ∀ r ∈ (failClaimTimeoutCas db seed swept now).runs,
      r.fenceStamp ≠ some ⟨seed, .successor⟩ := by
    intro r hr hs
    obtain ⟨_, _, _, rfl⟩ := stamped_update hfresh hr hs
    cases hs
  have hframe : Frame seed (· ≠ .successor) placed passed := .sagaPass (by simp) hpass
  refine runsToTasks_moved fun t _ p hp hfol hq => ?_
  obtain ⟨p₀, hp₀, hsame, hs₀, _⟩ := hframe.stamped_before hp hfol.stamp
    fun n hn he => hn (congrArg Stamp.statement he).symm
  obtain ⟨f, _, hf, _, _, _, rfl⟩ := failureSuccessor_placed hnone hsucc hp₀ hs₀
  obtain ⟨hf, _, hfs⟩ := stampedRun_eq_some.mp hf
  obtain ⟨r, hr, hg, rfl⟩ := stamped_update hfresh hf hfs
  have hid : r.taskId = p.taskId := hsame.taskId.symm
  have hqueue : r.queue = p.queue := hsame.queue.symm
  have hattempt : p.attempt = r.attempt + 1 := hsame.attempt
  have hset : { t with
      infraRetries := infraRetriesFrom (timeoutTerminal passed seed swept) seed swept.passId
        .successor t
      state := .pending
      lastAttemptRun := some swept.passId } = { t with
      infraRetries := r.attempt - t.attempts
      state := .pending
      lastAttemptRun := some swept.passId } := by
    unfold infraRetriesFrom
    rw [stampedRun_eq_some.mpr ⟨hp, hfol.selected, hfol.stamp⟩]
    simp only [Option.map_some, Option.getD_some, hattempt, add_sub_cancel_right]
  have hretried : Task.Move seed now db (.sweepClaimTimeout swept) t { t with
      infraRetries := r.attempt - t.attempts
      state := .pending
      lastAttemptRun := some swept.passId } :=
    .infraRetried hfol.narrow hr ⟨hfol.taskId.symm.trans hid.symm,
      hq.trans (hfol.queue.symm.trans hqueue.symm)⟩ hg.1.2.2.1
  rw [← hset] at hretried
  exact hretried

/-- The effect of the sweep of a timeout. -/
theorem sweepClaimTimeout_effect (h : Inv db) (hfresh : Unused db seed)
    (hrun : sweepClaimTimeout seed swept now db = some out) :
    Effect seed now db out.db (.sweepClaimTimeout swept) := by
  obtain ⟨placed, hsucc, hrun⟩ := Option.bind_eq_some_iff.mp hrun
  obtain ⟨passed, hpass, hout⟩ := Option.bind_eq_some_iff.mp hrun
  obtain rfl := Option.some.inj hout
  set failed := failClaimTimeoutCas db seed swept now with hfailed
  set ended := waitsGone (bookkeeping (timeoutTerminal passed seed swept) seed swept) seed
    swept.runId .fail with hended
  set done := addTaskDone ended seed swept.queue swept.taskId .taskTerminal
    (encodeTaskOutcome (.failed REASON_INFRA_CAP)) with hdone
  have hcas : Early seed now db done (.sweepClaimTimeout swept) failed :=
    ⟨.update fun r _ hg => ⟨.timedOut hg, Or.inl hg.1.2.2.1, by simp [failedRun]⟩, .of_eq rfl,
      rfl, rfl⟩
  -- The retry's instant fits: the guard asked it of every task the run's admission lets through.
  have hfits : ∀ f t, stampedRun failed seed swept.runId .fail = some f → t ∈ failed.tasks →
      runOwnedByTask f t → infraAdmission f t →
        INFRA_BACKOFF_SECONDS * 1000 = 0 ∨ epochAdditionFits now (INFRA_BACKOFF_SECONDS * 1000) := by
    intro f t hf ht hown hadm
    obtain ⟨hf, _, hs⟩ := stampedRun_eq_some.mp hf
    obtain ⟨r, _, hg, rfl⟩ := hcas.runs.timedOut hfresh.runs hf hs
    exact Or.inr (hg.fits ht hown.1.symm hadm)
  obtain ⟨hplaced, hplacedChecks⟩ := hcas.failureSuccessor
    (fun f hf => hcas.runs.failedFrom hfresh.runs (Or.inl rfl) hf)
    (show Call.Places (.sweepClaimTimeout swept) .successor from trivial) rfl (by simp)
    TaskState.queued_pending (fun _ => hfits) hsucc
  have hsource : ∀ f, stampedRun placed seed swept.runId .fail = some f →
      ∃ r, FailedFrom seed now db f r :=
    fun f hf => hplaced.runs.failedFrom hfresh.runs (Or.inl rfl) hf
  have hnone : ∀ r ∈ placed.runs, r.fenceStamp ≠ some ⟨seed, .rollbackPass⟩ := by
    have hframe : Frame seed (· ≠ .rollbackPass) db placed :=
      (Frame.updateRuns (fun _ _ hg => by simp [hg.1.2.2.1])
        fun _ => ⟨⟨rfl, rfl, rfl, rfl⟩, .fail, by simp, rfl⟩).trans
        (.failureSuccessor (by simp) hsucc)
    intro r hr hs
    obtain ⟨r₀, hr₀, _, hs₀, _⟩ := hframe.stamped_before hr hs
      fun n hn he => hn (congrArg Stamp.statement he).symm
    exact hfresh.runs r₀ hr₀ _ hs₀ rfl
  -- What follows the pass in the batch finishes runs of other stamps, so the pass stays.
  have hkept : ∀ p ∈ passed.runs, p.state = .pending →
      p.fenceStamp = some ⟨seed, .rollbackPass⟩ → p ∈ done.runs := by
    intro p hp hst hs
    have hp' : p ∈ ended.runs := hp
    exact mem_addTaskDone hp' (by simp [hst]) (by simp [hs])
  have hpassed : Early seed now db done (.sweepClaimTimeout swept) passed :=
    hplaced.sagaPass hsource hnone trivial rfl (fun _ _ _ _ => Or.inl rfl) hpass
  have hchecks : Checks seed now db done (.sweepClaimTimeout swept) passed := by
    have hsame : placed.checkpoints = db.checkpoints := hplacedChecks
    refine sagaPass_checks hsame hsource hnone trivial rfl rfl (fun f t hadm => ?_) hpass hkept
    rw [← sagaBegan_of_eq hsame]
    exact hadm.1
  have hterminal : TasksMoved seed now db (.sweepClaimTimeout swept) passed
      (timeoutTerminal passed seed swept) := by
    refine terminal_moved hpassed.runs hfresh.runs (Or.inl rfl) (fun _ ht => ht.1)
      (fun t => ⟨t.attempts, rfl⟩) rfl fun t ht f hf hid _ hs hlone => ?_
    have hplacedKept : ∀ t ∈ placed.tasks, KeptLast db t := by
      intro t ht
      rw [failureSuccessor_tasks hsucc] at ht
      exact .of_mem ht
    exact .sagaPass hplacedKept hnone hpass ht hf hid fun hown =>
      hlone.2.2.2 ⟨f, stampedRun_eq_some.mpr ⟨hf, hid, hs⟩, hown⟩
  have hbooked : TasksMoved seed now db (.sweepClaimTimeout swept) (timeoutTerminal passed seed swept)
      (bookkeeping (timeoutTerminal passed seed swept) seed swept) :=
    bookkeeping_moved hfresh.runs hsucc hpass
  have hbookedEarly : Early seed now db done (.sweepClaimTimeout swept)
      (bookkeeping (timeoutTerminal passed seed swept) seed swept) :=
    ⟨hpassed.runs, (hpassed.tasks.trans hterminal).trans hbooked, hpassed.waits, hpassed.events⟩
  have hunmarked : Unmarked passed seed .taskTerminal := by
    have hplaced' : Unmarked placed seed .taskTerminal := by
      intro t ht
      rw [failureSuccessor_tasks hsucc] at ht
      exact hfresh.unmarked _ t ht
    exact hplaced'.sagaPass (by simp) hpass
  -- The task's last row is the terminal arm's, which nothing after it in the batch writes.
  refine .of_finish h.held hfresh.runs rfl (hpassed.runs.of_runs rfl)
    (hbookedEarly.tasks.trans (.of_eq rfl))
    (fun w hw => hpassed.waits ▸ (mem_runsToWaits.mp hw).1)
    (fun w hw => Or.inl (hbookedEarly.mem_waitsGone h.held hfresh.runs (Or.inl rfl) hw))
    hpassed.events (hchecks.of_checkpoints rfl) fun t ht _ hs => ?_
  obtain ⟨_, _, _, _, _, _, _, rfl⟩ | ⟨ht, _⟩ := runsToTasks_cases ht
  · cases hs
  · obtain ⟨_, _, _, _, _, _, _, rfl⟩ | ⟨ht, _⟩ := runsToTasks_cases ht
    · rfl
    · exact absurd hs (hunmarked t ht)

end Sweep

/-! ## Every batch -/

/-- What every batch of a seed of its own makes of the tables. -/
theorem Batch.effect {b : Batch} (h : Inv db) (hfresh : Unused db b.seed) (hsound : b.call.Sound db)
    (hrun : b.run now db = some out) : Effect b.seed now db out.db b.call := by
  obtain ⟨seed, call⟩ := b
  cases call with
  | spawn call => exact spawn_effect h hsound hrun
  | claim call => exact Option.some.inj hrun ▸ claim_effect h call
  | activate receipt => exact Option.some.inj hrun ▸ activate_effect h receipt
  | heartbeat held ms => exact Option.some.inj hrun ▸ heartbeat_effect held ms
  | deferLaunch receipt ms => exact Option.some.inj hrun ▸ deferLaunch_effect h hfresh.runs receipt ms
  | reschedule held wake => exact Option.some.inj hrun ▸ reschedule_effect h hfresh.runs held wake
  | suspendRun held wake c => exact Option.some.inj hrun ▸ suspendRun_effect h hfresh.runs held wake c
  | awaitEvent call => exact Option.some.inj hrun ▸ awaitEvent_effect h call
  | recordTaskDone call => exact Option.some.inj hrun ▸ recordTaskDone_effect call hsound
  | emitEvent call => exact Option.some.inj hrun ▸ emitEvent_effect h hfresh.runs call
  | setCheckpoint held id c ms =>
    exact Option.some.inj hrun ▸ setCheckpoint_effect hfresh.runs held id c ms
  | complete held id result => exact Option.some.inj hrun ▸ complete_effect h hfresh held id result
  | failInto failure => exact failInto_effect h hfresh hrun
  | sweepLostLaunch swept => exact sweepLostLaunch_effect h hfresh hrun
  | sweepClaimTimeout swept => exact sweepClaimTimeout_effect h hfresh hrun
  | cancelTransition c => exact Option.some.inj hrun ▸ cancelTransition_effect h hfresh c
  | retryTask call => exact retryTask_effect h hrun
  | expireLeaseNow held => exact Option.some.inj hrun ▸ expireLeaseNow_effect hfresh.runs held

end Durablerun
