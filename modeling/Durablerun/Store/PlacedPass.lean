import Durablerun.Store.Finality

/-!
# What a batch that fails a run places

A batch that fails a run places at most one run after it: a retry, or a pass that rolls the task back.
A budget moves, and a saga begins, only with a pass that is there when the batch is done
(`Batch.pass_or_kept`), and the run that was placed follows the run the batch failed
(`Delivers.follows`).

Reference: `packages/store-libsql/src/store.ts`.
-/

namespace Durablerun

open Relational

variable {s : Sys} {b : Batch} {seed queue runId passId taskId : String} {now delayMs : ℤ}
  {db db' db'' : Db} {name fence : Statement} {enteringWith : Option String} {out : Outcome}

/-! ## Budgets and sagas -/

/-- Every task is there, and its budget moved, or its saga began, only if it was given a pass. -/
structure Budgets (given : String → Prop) (db db' : Db) : Prop where
  budgets : ∀ t ∈ db.tasks, ∃ t' ∈ db'.tasks, t.Same t' ∧
    (t'.maxAttempts = t.maxAttempts ∨ given t.taskId)
  sagas : ∀ taskId, sagaBegan db' taskId → sagaBegan db taskId ∨ given taskId

namespace Budgets

variable {given : String → Prop}

/-- Two changes of the budgets, one after the other. -/
theorem trans (h : Budgets given db db') (h' : Budgets given db' db'') : Budgets given db db'' := by
  refine ⟨fun t ht => ?_, fun taskId hs => ?_⟩
  · obtain ⟨t', ht', hsame, hmax⟩ := h.budgets t ht
    obtain ⟨t'', ht'', hsame', hmax'⟩ := h'.budgets t' ht'
    refine ⟨t'', ht'', hsame.trans hsame', ?_⟩
    rw [hsame.taskId] at hmax'
    obtain hmax' | hgiven := hmax'
    · exact hmax.imp_left hmax'.trans
    · exact Or.inr hgiven
  · obtain hs | hgiven := h'.sagas taskId hs
    · exact h.sagas taskId hs
    · exact Or.inr hgiven

/-- Where tasks and checkpoints stay, no budget moved. -/
theorem of_eq (htasks : db'.tasks = db.tasks) (hchecks : db'.checkpoints = db.checkpoints) :
    Budgets given db db' :=
  ⟨fun t ht => ⟨t, htasks ▸ ht, .refl t, Or.inl rfl⟩,
    fun taskId hs => Or.inl ((sagaBegan_of_eq hchecks taskId).mp hs)⟩

/-- A follow-on moves the budgets of the tasks it changes, if it may. -/
theorem runsToTasks {where' : Run → Prop} [DecidablePred where'] {narrow : Task → Prop}
    [DecidablePred narrow] {set : Table.Change Task.keys} {σ : String}
    (h : ∀ t ∈ db.tasks, ∀ f ∈ db.runs, Follows σ fence queue where' narrow f t →
      t.Same (set t) ∧ ((set t).maxAttempts = t.maxAttempts ∨ given t.taskId)) :
    Budgets given db (runsToTasks db σ name fence queue where' narrow set) := by
  refine ⟨(runsToTasks_rel (R := fun t t' => t.Same t' ∧
    (t'.maxAttempts = t.maxAttempts ∨ given t.taskId)) (fun t => ⟨.refl t, Or.inl rfl⟩)
    fun t ht f hf hfol _ _ => ?_).after, fun taskId hs => Or.inl ((sagaBegan_of_eq rfl taskId).mp hs)⟩
  obtain ⟨hsame, hmax⟩ := h t ht f hf hfol
  exact ⟨⟨hsame.taskId, hsame.queue⟩, hmax⟩

/-- Waking the waiters moves no budget. -/
theorem wakeWaiters {eventName : String} :
    Budgets given db (wakeWaiters db seed queue eventName) := by
  have hfollow : Budgets given (wakeRuns db seed queue eventName)
      (Durablerun.runsToTasks (wakeRuns db seed queue eventName) seed .wakeTasks .wakeRuns queue
        (fun f => f.wakeEvent = some eventName ∧ f.state = .pending) (fun t => t.state.Live)
        ⟨fun t => { t with state := .pending }, fun _ => rfl⟩) :=
    .runsToTasks fun _ _ _ _ _ => ⟨⟨rfl, rfl⟩, Or.inl rfl⟩
  exact ⟨hfollow.budgets, hfollow.sagas⟩

/-- The end of a run, with its completion event, moves no budget. -/
theorem finish {payloadJson : String} {terminal : Statement} :
    Budgets given db
      (addTaskDone (waitsGone db seed runId fence) seed queue taskId terminal payloadJson) := by
  have hwaits : Budgets given db (waitsGone db seed runId fence) := .of_eq rfl rfl
  obtain ⟨events, heq⟩ := taskDoneEvent_withEvents (waitsGone db seed runId fence) seed queue taskId
    payloadJson terminal
  have hevents : Budgets given (waitsGone db seed runId fence)
      { waitsGone db seed runId fence with events } := .of_eq rfl rfl
  unfold addTaskDone
  rw [heq]
  exact (hwaits.trans hevents).trans .wakeWaiters

/-- A checkpoint under a name that is not the phase marker's begins no saga. -/
theorem checkpointWrite {write : CheckpointWrite}
    (hsaga : ∀ f ∈ db.runs, f.runId = runId → f.fenceStamp = some ⟨seed, fence⟩ →
      write.key = SAGA_PHASE_CHECKPOINT → given f.taskId) :
    Budgets given db (checkpointWrite db seed runId write fence) := by
  refine ⟨fun t ht => ⟨t, checkpointWrite_tasks.symm ▸ ht, .refl t, Or.inl rfl⟩, ?_⟩
  rintro id ⟨c, hc, rfl, hname⟩
  obtain hc | ⟨f, hf, hwritten⟩ := checkpointWrite_cases hc
  · exact Or.inl ⟨c, hc, rfl, hname⟩
  · obtain ⟨hf, hid, hs⟩ := stampedRun_eq_some.mp hf
    rw [hwritten.taskId]
    exact Or.inr (hsaga f hf hid hs (hwritten.checkpointName.symm.trans hname))

/-- The saga arm gives a pass to the tasks of the passes it placed. -/
theorem sagaPass {enteringWith : Option String} {admission : Run → Task → Prop}
    [∀ f t, Decidable (admission f t)]
    (hpass : sagaPass db seed queue runId passId fence enteringWith delayMs admission = some db')
    (hgiven : ∀ p ∈ db'.runs, p.fenceStamp = some ⟨seed, .rollbackPass⟩ → given p.taskId) :
    Budgets given db db' := by
  obtain ⟨placed, hplaced, hdb'⟩ := Option.bind_eq_some_iff.mp hpass
  obtain rfl := Option.some.inj hdb'
  have hruns : (sagaPhaseMarker placed seed passId enteringWith).runs = placed.runs :=
    sagaPhaseMarker_runs
  have hchecks : placed.checkpoints = db.checkpoints := by
    obtain ⟨rfl, _⟩ | ⟨_, _, _, _, _, _, rfl⟩ := failureSuccessor_cases hplaced <;> rfl
  have hplaced : Budgets given db placed := .of_eq (failureSuccessor_tasks hplaced) hchecks
  have hmarked : Budgets given placed (sagaPhaseMarker placed seed passId enteringWith) := by
    unfold sagaPhaseMarker
    split
    · exact .of_eq rfl rfl
    · exact .checkpointWrite fun f hf _ hs _ => hgiven f (hruns.symm ▸ hf) hs
  refine (hplaced.trans hmarked).trans (.runsToTasks fun t _ f hf hfol => ⟨⟨rfl, rfl⟩, Or.inr ?_⟩)
  rw [← hfol.taskId]
  exact hgiven f hf hfol.stamp

/-- A retry of the user's code charges the task, and leaves its budget. -/
theorem userRetry {failure : Failure} (hretry : userRetry db seed failure = some db') :
    Budgets given db db' := by
  unfold Durablerun.userRetry at hretry
  split at hretry
  · exact .of_eq (by rw [Option.some.inj hretry]) (by rw [Option.some.inj hretry])
  · obtain ⟨placed, hplaced, rfl⟩ := Option.map_eq_some_iff.mp hretry
    have hchecks : placed.checkpoints = db.checkpoints := by
      obtain ⟨rfl, _⟩ | ⟨_, _, _, _, _, _, rfl⟩ := failureSuccessor_cases hplaced <;> rfl
    have hplaced : Budgets given db placed := .of_eq (failureSuccessor_tasks hplaced) hchecks
    exact hplaced.trans (.runsToTasks fun _ _ _ _ _ => ⟨⟨rfl, rfl⟩, Or.inl rfl⟩)

end Budgets

/-! ## The pass -/

/-- The batch left the task the run it placed, and it is no retry. -/
def PassLeft (db db' : Db) (b : Batch) (taskId : String) : Prop :=
  ∃ p ∈ db'.runs, p.taskId = taskId ∧ b.call.nextRunId = some p.runId ∧
    (∀ r ∈ db.runs, r.runId ≠ p.runId) ∧ p.fenceStamp ≠ some ⟨b.seed, .successor⟩

/-- A pass the saga arm placed is there when the batch is done. -/
theorem PassLeft.of_sagaPass {call : Call} {db₂ passed ended : Db} {enteringWith : Option String}
    {admission : Run → Task → Prop} [∀ f t, Decidable (admission f t)] (hfresh : Unstamped db seed)
    (hframe : Frame seed (· ≠ .rollbackPass) db db₂)
    (hpass : sagaPass db₂ seed queue runId passId fence enteringWith delayMs admission =
      some passed) (hkept : ∀ p ∈ passed.runs, p ∈ ended.runs)
    (hdone : Frame seed Statement.Wakes ended db') (hnext : call.nextRunId = some passId) :
    ∀ p ∈ passed.runs, p.fenceStamp = some ⟨seed, .rollbackPass⟩ →
      PassLeft db db' ⟨seed, call⟩ p.taskId := by
  intro p hp hs
  obtain ⟨placed, hplaced, hpassed⟩ := Option.bind_eq_some_iff.mp hpass
  have hruns : passed.runs = placed.runs := by
    rw [← Option.some.inj hpassed]
    exact sagaPhaseMarker_runs
  obtain ⟨hid, _, hnew⟩ := failureSuccessor_new hfresh hframe hplaced (hruns ▸ hp) hs
  obtain ⟨p', hp', hf⟩ := hdone.runs.after p (hkept p hp)
  have hid' : p'.runId = passId := hf.runId.trans hid
  refine ⟨p', hp', hf.taskId, hnext.trans (congrArg some hid'.symm), ?_, ?_⟩
  · rw [hid']
    exact hnew
  · obtain ⟨hsame, _⟩ | ⟨name, hname, hs'⟩ := hf.stamped
    · simp [hsame, hs]
    · obtain rfl | rfl := hname <;> simp [hs']

/-- A batch that fails a run moves a budget, and begins a saga, only with the pass it leaves. -/
theorem Batch.budgets {seen : Db → Prop} (hfresh : Unstamped db b.seed)
    (hadm : b.call.Admitted seen) (hplaces : b.call.Places .rollbackPass)
    (hrun : b.run now db = some out) : Budgets (PassLeft db out.db b) db out.db := by
  obtain ⟨seed, call⟩ := b
  cases call with
  | failInto failure =>
    obtain ⟨passed, hpass, hrun⟩ := Option.bind_eq_some_iff.mp hrun
    obtain ⟨retried, hretry, hout⟩ := Option.bind_eq_some_iff.mp hrun
    obtain rfl := Option.some.inj hout
    set done := addTaskDone (waitsGone (failTerminal retried seed failure) seed failure.claim.runId
      .fail) seed failure.claim.queue failure.taskId failure.terminal
      (encodeTaskOutcome (.failed failure.failureJson)) with hdone
    set given := PassLeft db done ⟨seed, .failInto failure⟩ with hgiven
    -- The attempts of a rollback are counted under the step's own key, never under the phase's.
    have htried : Budgets given db (rollbackTries (failCas db seed failure now) seed failure) := by
      have hcas : Budgets given db (failCas db seed failure now) := .of_eq rfl rfl
      unfold rollbackTries
      split
      · exact hcas
      · rename_i rollback hrollback
        exact hcas.trans (.checkpointWrite fun _ _ _ _ hkey =>
          absurd hkey (hadm.1 rollback hrollback).2.ne_phase)
    have hended : Budgets given passed (failTerminal retried seed failure) :=
      (Budgets.userRetry hretry).trans (.runsToTasks fun _ _ _ _ _ => ⟨⟨rfl, rfl⟩, Or.inl rfl⟩)
    have hkept : ∀ p ∈ passed.runs, p ∈ (failTerminal retried seed failure).runs :=
      fun p hp => mem_userRetry hretry hp
    have hpassed : Budgets given (rollbackTries (failCas db seed failure now) seed failure)
        passed := by
      unfold failSagaPass at hpass
      split at hpass
      · exact .sagaPass hpass (.of_sagaPass hfresh rollbackTries_frame hpass hkept .finish rfl)
      · split at hpass
        · exact .of_eq (by rw [Option.some.inj hpass]) (by rw [Option.some.inj hpass])
        · exact .sagaPass hpass (.of_sagaPass hfresh rollbackTries_frame hpass hkept .finish rfl)
    exact ((htried.trans hpassed).trans hended).trans .finish
  -- Neither sweep stamps a row with the pass before the pass is placed.
  | sweepLostLaunch swept =>
    obtain ⟨passed, hpass, hout⟩ := Option.bind_eq_some_iff.mp hrun
    obtain rfl := Option.some.inj hout
    have hcas : Frame seed (· ≠ .rollbackPass) db
        (capLostLaunchCas (reopenLostLaunchCas db seed swept now) seed swept now) :=
      .trans (.updateRuns (fun r _ hg => by simp [hg.1.2.2.1])
          fun r => ⟨⟨rfl, rfl, rfl, rfl⟩, .reopen, by simp, rfl⟩)
        (.updateRuns (fun r _ hg => by simp [hg.1.2.2.1])
          fun r => ⟨⟨rfl, rfl, rfl, rfl⟩, .cap, by simp, rfl⟩)
    set ended := taskFail (taskPending passed seed swept) seed swept with hended
    set done := addTaskDone (waitsGone ended seed swept.runId .cap) seed swept.queue swept.taskId
      .taskFail (encodeTaskOutcome (.failed REASON_RELAUNCH_CAP)) with hdone
    set given := PassLeft db done ⟨seed, .sweepLostLaunch swept⟩ with hgiven
    have hcapped : Budgets given db
        (capLostLaunchCas (reopenLostLaunchCas db seed swept now) seed swept now) := .of_eq rfl rfl
    have hpassed : Budgets given
        (capLostLaunchCas (reopenLostLaunchCas db seed swept now) seed swept now) passed :=
      .sagaPass hpass (.of_sagaPass hfresh hcas hpass (fun p (hp : p ∈ ended.runs) => hp) .finish rfl)
    have hfollowed : Budgets given passed ended :=
      .trans (.runsToTasks fun _ _ _ _ _ => ⟨⟨rfl, rfl⟩, Or.inl rfl⟩)
        (.runsToTasks fun _ _ _ _ _ => ⟨⟨rfl, rfl⟩, Or.inl rfl⟩)
    exact ((hcapped.trans hpassed).trans hfollowed).trans .finish
  | sweepClaimTimeout swept =>
    obtain ⟨placed, hplaced, hrun⟩ := Option.bind_eq_some_iff.mp hrun
    obtain ⟨passed, hpass, hout⟩ := Option.bind_eq_some_iff.mp hrun
    obtain rfl := Option.some.inj hout
    have hcas : Frame seed (· ≠ .rollbackPass) db placed :=
      .trans (.updateRuns (fun r _ hg => by simp [hg.1.2.2.1])
          fun r => ⟨⟨rfl, rfl, rfl, rfl⟩, .fail, by simp, rfl⟩)
        (.failureSuccessor (by simp) hplaced)
    have hchecks : placed.checkpoints = db.checkpoints := by
      obtain ⟨rfl, _⟩ | ⟨_, _, _, _, _, _, rfl⟩ := failureSuccessor_cases hplaced <;> rfl
    set ended := bookkeeping (timeoutTerminal passed seed swept) seed swept with hended
    set done := addTaskDone (waitsGone ended seed swept.runId .fail) seed swept.queue swept.taskId
      .taskTerminal (encodeTaskOutcome (.failed REASON_INFRA_CAP)) with hdone
    set given := PassLeft db done ⟨seed, .sweepClaimTimeout swept⟩ with hgiven
    have htasks := failureSuccessor_tasks hplaced
    have hplaced : Budgets given db placed := .of_eq (htasks.trans rfl) hchecks
    have hpassed : Budgets given placed passed :=
      .sagaPass hpass (.of_sagaPass hfresh hcas hpass (fun p (hp : p ∈ ended.runs) => hp) .finish rfl)
    have hfollowed : Budgets given passed ended :=
      .trans (.runsToTasks fun _ _ _ _ _ => ⟨⟨rfl, rfl⟩, Or.inl rfl⟩)
        (.runsToTasks fun _ _ _ _ _ => ⟨⟨rfl, rfl⟩, Or.inl rfl⟩)
    exact ((hplaced.trans hpassed).trans hfollowed).trans .finish
  | spawn | claim | activate | heartbeat | deferLaunch | reschedule | suspendRun | awaitEvent
  | recordTaskDone | emitEvent | setCheckpoint | complete | cancelTransition | retryTask
  | expireLeaseNow => cases hplaces

/-! ## The run it follows -/

/-- A run that a batch adds to a task that had a live run follows that run, which the batch
failed. -/
theorem Delivers.follows (h : Delivers s b now) {p r : Run} (hp : p ∈ (b.after now s.db).runs)
    (hnew : ∀ q ∈ s.db.runs, q.runId ≠ p.runId) (hr : r ∈ s.db.runs) (hlive : r.state.Live)
    (hid : p.taskId = r.taskId) :
    r.state = .running ∧ ∃ r' ∈ (b.after now s.db).runs, ¬ r'.state.Live ∧
      Run.Move b.seed now s.db (b.after now s.db) b.call r r' ∧
      ∃ name state delayMs, b.call.Places name ∧ state.Queued ∧ b.call.nextRunId = some p.runId ∧
        p = successorRun b.seed name p.runId r state (now + delayMs) now := by
  have hinv := h.course.inv
  obtain ⟨q, hq, hm⟩ | hborn := h.effect.runs.before p hp
  · have hsame : p.runId = q.runId := by
      obtain rfl | hm := hm
      · rfl
      · exact hm.same.runId
    exact absurd hsame.symm (hnew q hq)
  have howner : ∃ t ∈ s.db.tasks, runOwnedByTask r t := hinv.toUnits.owner r hr
  obtain ⟨t, ht, hown⟩ := howner
  have htl : t.state.Live := hinv.toUnits.live hr ht hown.1.symm hlive
  generalize hcall : b.call = call at hborn
  cases hborn with
  | first hg => exact absurd ⟨t, ht, hown.1.trans hid.symm⟩ hg.1.1
  | @revived call u q hu hg =>
    obtain rfl : u = t := s.db.task_unique hu ht (hid.trans hown.1.symm)
    simp [hg.2.2.failed] at htl
  | @followed call q name id state delayMs hq hrunning hplaces hqueued hfits hnext =>
    obtain rfl : q = r := hinv.toUnits.sole hr hq hid hlive (by simp [hrunning])
    obtain ⟨q', hq', hm⟩ := h.effect.runs.after q hq
    have hplaced : (successorRun b.seed name id q state (now + delayMs) now).state.Live :=
      hqueued.live
    have hnot : ¬ q'.state.Live := by
      intro hl
      have hsame : q'.taskId = q.taskId ∧ q'.runId = q.runId := by
        obtain rfl | hm := hm
        · exact ⟨rfl, rfl⟩
        · exact ⟨hm.same.taskId, hm.same.runId⟩
      have heq := h.inv.toUnits.sole hp hq' hsame.1 hplaced hl
      exact hnew q hq (hsame.2.symm.trans (congrArg Run.runId heq))
    refine ⟨hrunning, q', hq', hnot, ?_, name, state, delayMs, hplaces, hqueued, hnext, rfl⟩
    obtain rfl | hm := hm
    · exact absurd hlive hnot
    · exact hcall ▸ hm

end Durablerun
