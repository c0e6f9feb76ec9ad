import Durablerun.Store.Course
import Durablerun.Store.Reads

/-!
# Who owns a checkpoint

A checkpoint names the run that wrote it last. The run is there, its attempt is the one the row
records, and no later attempt of the task has written since; so a write of a running run always goes
through, and a worker that reads up to its own attempt reads every checkpoint of its task.

Reference: `packages/store-libsql/src/store.ts` and `packages/core/src/statements/checkpoint.ts`.
-/

namespace Durablerun

open Relational

variable {again : Batch → Db → Prop} {s : Sys} {b : Batch} {seen : Db → Prop} {seed runId : String}
  {now : ℤ} {db db' : Db} {call : Call} {fence : Statement} {write : CheckpointWrite} {out : Outcome}

/-! ## Owners -/

/-- The checkpoint's owner is there: a run of its task and queue, of the attempt it records. -/
def OwnerThere (db : Db) (c : Checkpoint) : Prop :=
  ∃ r ∈ db.runs, r.runId = c.ownerRunId ∧ r.taskId = c.taskId ∧ r.queue = c.queue ∧
    r.attempt = c.ownerAttempt

/-- Runs of one task are in one queue. -/
theorem Owned.queue_eq (h : Owned db) {r r' : Run} (hr : r ∈ db.runs) (hr' : r' ∈ db.runs)
    (hid : r.taskId = r'.taskId) : r.queue = r'.queue := by
  obtain ⟨t, ht, hown⟩ := h.owner r hr
  have hown' := h.runOwnedByTask hr' ht (hid.symm.trans hown.1.symm)
  exact hown.2.symm.trans hown'.2

/-- A run is there after a batch as it was, by what identifies it. -/
theorem Effect.same_run (h : Effect seed now db db' call) {r : Run} (hr : r ∈ db.runs) :
    ∃ r' ∈ db'.runs, r.Same r' := by
  obtain ⟨r', hr', rfl | hm⟩ := h.runs.after r hr
  · exact ⟨r', hr', .refl r'⟩
  · exact ⟨r', hr', hm.same⟩

/-- A checkpoint's owner stays there through a batch. -/
theorem OwnerThere.effect (h : Effect seed now db db' call) {c : Checkpoint}
    (hc : OwnerThere db c) : OwnerThere db' c := by
  obtain ⟨r, hr, hid, htask, hq, hat⟩ := hc
  obtain ⟨r', hr', hsame⟩ := h.same_run hr
  exact ⟨r', hr', hsame.runId.trans hid, hsame.taskId.trans htask, hsame.queue.trans hq,
    hsame.attempt.trans hat⟩

/-- The run a batch writes a checkpoint for is there when the batch is done. -/
theorem Checkpoint.Write.run_there (h : Effect seed now db db' call) {f : Run}
    (hw : Checkpoint.Write seed now db db' call f write) : ∃ r ∈ db'.runs, f.Same r := by
  cases hw with
  | suspended hr | leased hr | tried hr => exact h.same_run hr
  | entered hp => exact ⟨f, hp, .refl f⟩

/-- A batch leaves every checkpoint with its owner. -/
theorem Effect.ownerThere (h : Effect seed now db db' call) (hinv : Inv db')
    (hc : ∀ c ∈ db.checkpoints, OwnerThere db c) : ∀ c ∈ db'.checkpoints, OwnerThere db' c := by
  intro c' hc'
  obtain ⟨c, hmem, rfl | ⟨f, write, hw, hwritten, hid, _, _, hq⟩⟩ | ⟨f, write, hw, hwritten, hq⟩ :=
    h.checkpoints.before c' hc'
  · exact (hc c' hmem).effect h
  · obtain ⟨r, hr, hsame⟩ := hw.run_there h
    obtain ⟨o, ho, _, hotask, hoq, _⟩ := (hc c hmem).effect h
    have hqueue : r.queue = o.queue :=
      hinv.toOwned.queue_eq hr ho (hsame.taskId.trans (hid.symm.trans hotask.symm))
    exact ⟨r, hr, hsame.runId.trans hwritten.ownerRunId.symm,
      hsame.taskId.trans hwritten.taskId.symm, hqueue.trans (hoq.trans hq.symm),
      hsame.attempt.trans hwritten.ownerAttempt.symm⟩
  · obtain ⟨r, hr, hsame⟩ := hw.run_there h
    exact ⟨r, hr, hsame.runId.trans hwritten.ownerRunId.symm,
      hsame.taskId.trans hwritten.taskId.symm, hsame.queue.trans hq.symm,
      hsame.attempt.trans hwritten.ownerAttempt.symm⟩

/-- Every checkpoint a run of the store reaches has its owner there. -/
theorem Reachable.ownerThere (h : Reachable again s)
    (hagain : ∀ b db, again b db → b.call.Repeatable) :
    ∀ c ∈ s.db.checkpoints, OwnerThere s.db c :=
  h.induct (P := fun s => ∀ c ∈ s.db.checkpoints, OwnerThere s.db c) hagain
    (fun c hc => absurd hc (Table.not_mem_empty c))
    fun _ _ _ hd hc => hd.effect.ownerThere hd.inv hc

/-! ## No owner is of a lower attempt than the last -/

/-- Every checkpoint is still there, and its owner's attempt has not gone down. -/
def OwnersRise (db db' : Db) : Prop :=
  ∀ c ∈ db.checkpoints, ∃ c' ∈ db'.checkpoints, c'.taskId = c.taskId ∧
    c'.checkpointName = c.checkpointName ∧ c.ownerAttempt ≤ c'.ownerAttempt

/-- Where nothing is written, no owner falls. -/
theorem OwnersRise.refl (db : Db) : OwnersRise db db := fun c hc => ⟨c, hc, rfl, rfl, le_rfl⟩

/-- Owners that do not fall twice do not fall. -/
theorem OwnersRise.trans {db'' : Db} (h : OwnersRise db db') (h' : OwnersRise db' db'') :
    OwnersRise db db'' := by
  intro c hc
  obtain ⟨c', hc', hid, hname, hle⟩ := h c hc
  obtain ⟨c'', hc'', hid', hname', hle'⟩ := h' c' hc'
  exact ⟨c'', hc'', hid'.trans hid, hname'.trans hname, hle.trans hle'⟩

/-- No batch lets a checkpoint's owner fall. -/
theorem Effect.ownersRise (h : Effect seed now db db' call) : OwnersRise db db' := by
  intro c hc
  obtain ⟨c', hc', rfl | ⟨f, write, _, hwritten, hid, hname, hle, _⟩⟩ := h.checkpoints.after c hc
  · exact ⟨c', hc', rfl, rfl, le_rfl⟩
  · refine ⟨c', hc', hwritten.taskId.trans hid.symm, hwritten.checkpointName.trans hname.symm, ?_⟩
    rw [hwritten.ownerAttempt]
    exact hle

/-! ## Writes -/

/-- A write of a fenced run that no row of a later attempt stands in the way of. -/
theorem checkpointWrite_written {f : Run} (hf : stampedRun db seed runId fence = some f)
    (hbound : attemptBounds.Within f.attempt)
    (hrow : ∀ c ∈ db.checkpoints, c.taskId = f.taskId → c.checkpointName = write.key →
      c.ownerAttempt ≤ f.attempt) :
    ∃ c ∈ (checkpointWrite db seed runId write fence).checkpoints, WrittenBy f write c := by
  unfold checkpointWrite
  rw [hf]
  simp only [hbound, if_true]
  by_cases hfree : db.checkpoints.Free (checkpointRow f write)
  · exact ⟨checkpointRow f write, Table.mem_upsert.mpr (Or.inl ⟨hfree, Or.inr rfl⟩),
      rfl, rfl, rfl, rfl, rfl⟩
  · obtain ⟨c, hc, hid, hname⟩ := checkpoint_of_not_free hfree
    have hkey : (f.taskId, write.key) = (c.taskId, c.checkpointName) := by rw [hid, hname]
    have hconflict : Table.Conflicts (checkpointRow f write) c Checkpoint.keys :=
      ⟨(f.taskId, write.key), List.mem_singleton_self _, List.mem_singleton.mpr hkey⟩
    exact ⟨_, Table.mem_upsert.mpr (Or.inr ⟨hfree,
      Table.mem_update_of_pos hc ⟨hconflict, hrow c hc hid hname⟩⟩), hid, hname, rfl, rfl, rfl⟩

/-- No checkpoint of a live run's task has a later owner. -/
theorem Inv.owner_le_live (h : Inv db) (howner : ∀ c ∈ db.checkpoints, OwnerThere db c) {r : Run}
    (hr : r ∈ db.runs) (hl : r.state.Live) {c : Checkpoint} (hc : c ∈ db.checkpoints)
    (hid : c.taskId = r.taskId) : c.ownerAttempt ≤ r.attempt := by
  obtain ⟨o, ho, _, hotask, _, hat⟩ := howner c hc
  obtain ⟨t, ht, hown⟩ := h.owner r hr
  rw [← hat]
  exact (h.settled t ht).le_live ho (hotask.trans (hid.trans hown.1.symm)) hr hown.1.symm hl

/-- The claim a call writes a checkpoint under, and what it writes. -/
def Call.writes : Call → Option (WorkerClaim × CheckpointWrite)
  | .suspendRun held _ checkpoint => some (held, checkpoint)
  | .setCheckpoint held _ checkpoint _ => some (held, checkpoint)
  | .failInto failure => failure.rollback.map fun rollback => (failure.claim, rollback.tried)
  | _ => none

/-- A compare-and-set that wrote a running run lets the checkpoint write after it through. -/
theorem checkpointWrite_won (h : Inv db) (howner : ∀ c ∈ db.checkpoints, OwnerThere db c)
    {p : Run → Prop} [DecidablePred p] {f : Table.Change Run.keys} {r : Run} (hr : r ∈ db.runs)
    (hid : r.runId = runId) (hp : p r) (hrunning : r.state = .running) (hsame : r.Same (f r))
    (hstamp : (f r).fenceStamp = some ⟨seed, fence⟩) :
    ∃ c ∈ (checkpointWrite { db with runs := db.runs.update p f } seed runId write
      fence).checkpoints, WrittenBy r write c := by
  have hfenced : stampedRun { db with runs := db.runs.update p f } seed runId fence =
      some (f r) :=
    stampedRun_eq_some.mpr ⟨Table.mem_update_of_pos hr hp, hsame.runId.trans hid, hstamp⟩
  have hbound : attemptBounds.Within (f r).attempt := by
    rw [hsame.attempt]
    exact h.toUnits.attempt_within hr
  have hrow : ∀ c ∈ db.checkpoints, c.taskId = (f r).taskId → c.checkpointName = write.key →
      c.ownerAttempt ≤ (f r).attempt := by
    intro c hc hid _
    rw [hsame.attempt]
    exact h.owner_le_live howner hr (by simp [hrunning]) hc (hid.trans hsame.taskId)
  obtain ⟨c, hc, hw⟩ := checkpointWrite_written hfenced hbound hrow
  exact ⟨c, hc, hw.taskId.trans hsame.taskId, hw.checkpointName, hw.state,
    hw.ownerRunId.trans hsame.runId, hw.ownerAttempt.trans hsame.attempt⟩

/-- A completion event changes no checkpoint. -/
@[simp] theorem addTaskDone_checkpoints {queue taskId payloadJson : String} {terminal : Statement} :
    (addTaskDone db seed queue taskId terminal payloadJson).checkpoints = db.checkpoints := by
  obtain ⟨events, heq⟩ := taskDoneEvent_withEvents db seed queue taskId payloadJson terminal
  unfold addTaskDone
  rw [heq]
  rfl

/-- A user retry changes no checkpoint. -/
theorem userRetry_checkpoints {failure : Failure} (h : userRetry db seed failure = some db') :
    db'.checkpoints = db.checkpoints := by
  unfold userRetry at h
  split at h
  · rw [Option.some.inj h]
  · obtain ⟨placed, hplaced, rfl⟩ := Option.map_eq_some_iff.mp h
    obtain ⟨rfl, _⟩ | ⟨_, _, _, _, _, _, rfl⟩ := failureSuccessor_cases hplaced
    · rfl
    · rfl

/-- A failed rollback's batch writes no checkpoint but its record. -/
theorem failSagaPass_checkpoints {failure : Failure} {rollback : RollbackFailure}
    (hrollback : failure.rollback = some rollback) (h : failSagaPass db seed failure = some db') :
    db'.checkpoints = db.checkpoints := by
  unfold failSagaPass at h
  rw [hrollback] at h
  simp only at h
  split at h
  · rw [Option.some.inj h]
  · exact sagaPass_checkpoints h

/-- A write that won leaves the row with the run it was made under, as it was written. -/
theorem Batch.written (h : Inv db) (howner : ∀ c ∈ db.checkpoints, OwnerThere db c)
    {held : WorkerClaim} (hwrites : b.call.writes = some (held, write))
    (hrun : b.run now db = some out) (hwon : out.won ≠ none) :
    ∃ r ∈ db.runs, held.Holds r ∧ ∃ c ∈ out.db.checkpoints, WrittenBy r write c := by
  obtain ⟨seed, call⟩ := b
  obtain ⟨won, hwon⟩ := Option.ne_none_iff_exists'.mp hwon
  cases call with
  | suspendRun claim wake checkpoint =>
    obtain ⟨rfl, rfl⟩ := Prod.mk.inj (Option.some.inj hwrites)
    obtain rfl := Option.some.inj hrun
    obtain ⟨⟨r, hr, hg⟩, _⟩ := wonBy_eq_some.mp hwon
    refine ⟨r, hr, hg.1, ?_⟩
    exact checkpointWrite_won h howner hr hg.1.1 hg hg.1.running ⟨rfl, rfl, rfl, rfl⟩ rfl
  | setCheckpoint claim taskId checkpoint extendMs =>
    obtain ⟨rfl, rfl⟩ := Prod.mk.inj (Option.some.inj hwrites)
    obtain rfl := Option.some.inj hrun
    obtain ⟨⟨r, hr, hg⟩, _⟩ := wonBy_eq_some.mp hwon
    refine ⟨r, hr, hg.1, ?_⟩
    exact checkpointWrite_won h howner hr hg.1.1 hg hg.1.running ⟨rfl, rfl, rfl, rfl⟩ rfl
  | failInto failure =>
    obtain ⟨rollback, hrollback, heq⟩ := Option.map_eq_some_iff.mp hwrites
    obtain ⟨rfl, rfl⟩ := Prod.mk.inj heq
    obtain ⟨passed, hpass, hrun⟩ := Option.bind_eq_some_iff.mp hrun
    obtain ⟨retried, hretry, hout⟩ := Option.bind_eq_some_iff.mp hrun
    obtain rfl := Option.some.inj hout
    obtain ⟨⟨r, hr, hg⟩, _⟩ := wonBy_eq_some.mp hwon
    refine ⟨r, hr, hg.1, ?_⟩
    have hchecks : (rollbackTries (failCas db seed failure now) seed failure).checkpoints =
        retried.checkpoints :=
      ((userRetry_checkpoints hretry).trans (failSagaPass_checkpoints hrollback hpass)).symm
    unfold rollbackTries at hchecks
    rw [hrollback] at hchecks
    simp only [addTaskDone_checkpoints]
    show ∃ c ∈ retried.checkpoints, WrittenBy r rollback.tried c
    rw [← hchecks]
    exact checkpointWrite_won h howner hr hg.1.1 hg hg.1.running ⟨rfl, rfl, rfl, rfl⟩ rfl
  | spawn | claim | activate | heartbeat | deferLaunch | reschedule | awaitEvent | recordTaskDone
  | emitEvent | complete | sweepLostLaunch | sweepClaimTimeout | cancelTransition | retryTask
  | expireLeaseNow => cases hwrites

/-! ## The phase marker -/

/-- The saga arm that enters the phase leaves the marker with the pass it placed. -/
theorem sagaPass_marks {queue passId reason : String} {delayMs : ℤ} {admission : Run → Task → Prop}
    [∀ f t, Decidable (admission f t)]
    (hpass : sagaPass db seed queue runId passId fence (some reason) delayMs admission = some db')
    (hnone : ∀ r ∈ db.runs, r.fenceStamp ≠ some ⟨seed, .rollbackPass⟩) {p : Run}
    (hp : p ∈ db'.runs) (hs : p.fenceStamp = some ⟨seed, .rollbackPass⟩)
    (hbound : attemptBounds.Within p.attempt) (hno : ¬ sagaBegan db p.taskId) :
    ∃ c ∈ db'.checkpoints, WrittenBy p ⟨SAGA_PHASE_CHECKPOINT, reason⟩ c := by
  obtain ⟨placed, hplaced, hdb'⟩ := Option.bind_eq_some_iff.mp hpass
  obtain rfl := Option.some.inj hdb'
  have hp : p ∈ (sagaPhaseMarker placed seed passId (some reason)).runs := hp
  rw [sagaPhaseMarker_runs] at hp
  have hid : p.runId = passId := by
    obtain ⟨f, _, _, _, _, _, rfl⟩ := failureSuccessor_placed hnone hplaced hp hs
    rfl
  have hchecks : placed.checkpoints = db.checkpoints := by
    obtain ⟨rfl, _⟩ | ⟨_, _, _, _, _, _, rfl⟩ := failureSuccessor_cases hplaced
    · rfl
    · rfl
  refine checkpointWrite_written (stampedRun_eq_some.mpr ⟨hp, hid, hs⟩) hbound ?_
  intro c hc htask hname
  rw [hchecks] at hc
  exact absurd ⟨c, hc, htask, hname⟩ hno

/-- Statements after the saga arm leave a pass and its marker alone. -/
theorem WrittenBy.frame {passed : Db} {p : Run} (hframe : Frame seed (· ≠ .rollbackPass) passed db')
    (hchecks : db'.checkpoints = passed.checkpoints) (hp : p ∈ db'.runs)
    (hs : p.fenceStamp = some ⟨seed, .rollbackPass⟩)
    (hmarked : ∀ p₀ ∈ passed.runs, p₀.Same p → p₀.fenceStamp = some ⟨seed, .rollbackPass⟩ →
      ∃ c ∈ passed.checkpoints, WrittenBy p₀ write c) :
    ∃ c ∈ db'.checkpoints, WrittenBy p write c := by
  have hother : ∀ n, n ≠ .rollbackPass → (⟨seed, .rollbackPass⟩ : Stamp) ≠ ⟨seed, n⟩ :=
    fun n hn he => hn (Stamp.mk.inj he).2.symm
  obtain ⟨p₀, hp₀, hsame, hs₀, _⟩ := hframe.stamped_before hp hs hother
  obtain ⟨c, hc, hw⟩ := hmarked p₀ hp₀ hsame hs₀
  exact ⟨c, hchecks ▸ hc, hw.taskId.trans hsame.taskId.symm, hw.checkpointName, hw.state,
    hw.ownerRunId.trans hsame.runId.symm, hw.ownerAttempt.trans hsame.attempt.symm⟩

/-- Statements that leave no such stamp find none in a database of a fresh seed. -/
theorem Frame.unstamped {names : Statement → Prop} {n : Statement}
    (h : Frame seed names db db') (hfresh : Unstamped db seed) (hn : ¬ names n) {r : Run}
    (hr : r ∈ db'.runs) : r.fenceStamp ≠ some ⟨seed, n⟩ := by
  intro hs
  have hother : ∀ m, names m → (⟨seed, n⟩ : Stamp) ≠ ⟨seed, m⟩ :=
    fun m hm he => hn ((Stamp.mk.inj he).2 ▸ hm)
  obtain ⟨r₀, hr₀, _, hs₀, _⟩ := h.stamped_before hr hs hother
  exact hfresh r₀ hr₀ _ hs₀ rfl

/-- A failure batch's compare-and-set and attempt record. -/
theorem rollbackTries_frame {failure : Failure} :
    Frame seed (· ≠ .rollbackPass) db (rollbackTries (failCas db seed failure now) seed failure) := by
  have hcas : Frame seed (· ≠ .rollbackPass) db (failCas db seed failure now) :=
    .updateRuns (fun r _ hg => by simp [hg.1.running])
      fun r => ⟨⟨rfl, rfl, rfl, rfl⟩, .fail, by simp, rfl⟩
  refine hcas.trans ?_
  unfold rollbackTries
  split
  · exact .refl _
  · exact .checkpointWrite

/-- A failed rollback places its pass inside the saga. -/
theorem failSagaPass_inside {failure : Failure} {rollback : RollbackFailure} {passed : Db}
    (hfresh : Unstamped db seed) (hrollback : failure.rollback = some rollback)
    (hpass : failSagaPass (rollbackTries (failCas db seed failure now) seed failure) seed failure =
      some passed) {p : Run} (hp : p ∈ passed.runs)
    (hs : p.fenceStamp = some ⟨seed, .rollbackPass⟩) : sagaBegan db p.taskId := by
  have hnone : ∀ r ∈ (rollbackTries (failCas db seed failure now) seed failure).runs,
      r.fenceStamp ≠ some ⟨seed, .rollbackPass⟩ := fun r hr =>
    rollbackTries_frame.unstamped hfresh (by simp) hr
  unfold failSagaPass at hpass
  rw [hrollback] at hpass
  simp only at hpass
  split at hpass
  · obtain rfl := Option.some.inj hpass
    exact absurd hs (hnone p hp)
  · obtain ⟨placed, hplaced, hpassed⟩ := Option.bind_eq_some_iff.mp hpass
    obtain rfl := Option.some.inj hpassed
    obtain ⟨f, _, hf, _, _, _, rfl⟩ := failureSuccessor_placed hnone hplaced hp hs
    obtain ⟨hf, _, hfs⟩ := stampedRun_eq_some.mp hf
    rw [rollbackTries_runs] at hf
    obtain ⟨r, hr, hg, rfl⟩ := stamped_update hfresh hf hfs
    exact hg.2.2 (by simp [hrollback])

/-- A batch that enters a saga leaves its marker with the pass it placed. -/
theorem Batch.marked (hfresh : Unstamped db b.seed) (hrun : b.run now db = some out)
    (hinv : Inv out.db) {reason : String} (hreason : b.call.failureReason = some reason) {p : Run}
    (hp : p ∈ out.db.runs) (hs : p.fenceStamp = some ⟨b.seed, .rollbackPass⟩)
    (hno : ¬ sagaBegan db p.taskId) :
    ∃ c ∈ out.db.checkpoints, WrittenBy p ⟨SAGA_PHASE_CHECKPOINT, reason⟩ c := by
  obtain ⟨seed, call⟩ := b
  have hbound := hinv.toUnits.attempt_within hp
  cases call with
  | failInto failure =>
    obtain rfl := Option.some.inj hreason
    obtain ⟨passed, hpass, hrun⟩ := Option.bind_eq_some_iff.mp hrun
    obtain ⟨retried, hretry, hout⟩ := Option.bind_eq_some_iff.mp hrun
    obtain rfl := Option.some.inj hout
    have hrest : Frame seed (· ≠ .rollbackPass) passed (addTaskDone (waitsGone
        (failTerminal retried seed failure) seed failure.claim.runId .fail) seed
        failure.claim.queue failure.taskId failure.terminal
        (encodeTaskOutcome (.failed failure.failureJson))) :=
      ((userRetry_frame (by simp) hretry).trans (.runsToTasks fun t => ⟨rfl, rfl⟩)).trans
        (Frame.runsToWaits.trans (.addTaskDone (by simp) (by simp)))
    refine WrittenBy.frame hrest ?_ hp hs fun p₀ hp₀ hsame hs₀ => ?_
    · have hkept : retried.checkpoints = passed.checkpoints := userRetry_checkpoints hretry
      exact addTaskDone_checkpoints.trans hkept
    cases hrollback : failure.rollback with
    | none =>
      unfold rollbackTries failSagaPass at hpass
      rw [hrollback] at hpass
      refine sagaPass_marks hpass (fun r hr => ?_) hp₀ hs₀ ?_ ?_
      · have hcas : Frame seed (· ≠ .rollbackPass) db (failCas db seed failure now) :=
          .updateRuns (fun r _ hg => by simp [hg.1.running])
            fun r => ⟨⟨rfl, rfl, rfl, rfl⟩, .fail, by simp, rfl⟩
        exact hcas.unstamped hfresh (by simp) hr
      · rwa [hsame.attempt] at hbound
      · rwa [hsame.taskId] at hno
    -- A failure inside a saga places a pass only of a saga that began, whose marker is there.
    | some rollback =>
      exact absurd (hsame.taskId ▸ failSagaPass_inside hfresh hrollback hpass hp₀ hs₀) hno
  | sweepLostLaunch swept =>
    obtain rfl := Option.some.inj hreason
    obtain ⟨passed, hpass, hout⟩ := Option.bind_eq_some_iff.mp hrun
    obtain rfl := Option.some.inj hout
    refine WrittenBy.frame (.trans (.runsToTasks fun t => ⟨rfl, rfl⟩) (.trans (.runsToTasks
      fun t => ⟨rfl, rfl⟩) (.trans .runsToWaits (.addTaskDone (by simp) (by simp)))))
      addTaskDone_checkpoints hp hs fun p₀ hp₀ hsame hs₀ => ?_
    have hcas : Frame seed (· ≠ .rollbackPass) db
        (capLostLaunchCas (reopenLostLaunchCas db seed swept now) seed swept now) :=
      .trans (.updateRuns (fun r _ hg => by simp [hg.1.2.2.1])
          fun r => ⟨⟨rfl, rfl, rfl, rfl⟩, .reopen, by simp, rfl⟩)
        (.updateRuns (fun r _ hg => by simp [hg.1.2.2.1])
          fun r => ⟨⟨rfl, rfl, rfl, rfl⟩, .cap, by simp, rfl⟩)
    refine sagaPass_marks hpass (fun r hr => hcas.unstamped hfresh (by simp) hr) hp₀ hs₀ ?_ ?_
    · rwa [hsame.attempt] at hbound
    · rwa [hsame.taskId] at hno
  | sweepClaimTimeout swept =>
    obtain rfl := Option.some.inj hreason
    obtain ⟨placed, hplaced, hrun⟩ := Option.bind_eq_some_iff.mp hrun
    obtain ⟨passed, hpass, hout⟩ := Option.bind_eq_some_iff.mp hrun
    obtain rfl := Option.some.inj hout
    -- A retry writes no checkpoint, so the saga has not begun when the pass is placed.
    have hplacedChecks : placed.checkpoints = db.checkpoints := by
      obtain ⟨rfl, _⟩ | ⟨_, _, _, _, _, _, rfl⟩ := failureSuccessor_cases hplaced
      · rfl
      · rfl
    refine WrittenBy.frame (.trans (.runsToTasks fun t => ⟨rfl, rfl⟩) (.trans (.runsToTasks
      fun t => ⟨rfl, rfl⟩) (.trans .runsToWaits (.addTaskDone (by simp) (by simp)))))
      addTaskDone_checkpoints hp hs fun p₀ hp₀ hsame hs₀ => ?_
    have hcas : Frame seed (· ≠ .rollbackPass) db placed :=
      .trans (.updateRuns (fun r _ hg => by simp [hg.1.2.2.1])
          fun r => ⟨⟨rfl, rfl, rfl, rfl⟩, .fail, by simp, rfl⟩)
        (.failureSuccessor (by simp) hplaced)
    refine sagaPass_marks hpass (fun r hr => hcas.unstamped hfresh (by simp) hr) hp₀ hs₀ ?_ ?_
    · rwa [hsame.attempt] at hbound
    · rintro ⟨c, hc, hid, hname⟩
      exact hno ⟨c, hplacedChecks ▸ hc, hid.trans hsame.taskId.symm, hname⟩
  | spawn | claim | activate | heartbeat | deferLaunch | reschedule | suspendRun | awaitEvent
  | recordTaskDone | emitEvent | setCheckpoint | complete | cancelTransition | retryTask
  | expireLeaseNow => cases hreason

/-! ## The guard and the read -/

/-- No row refuses a write. -/
theorem Inv.validCheckpointConflict (h : Inv db) (howner : ∀ c ∈ db.checkpoints, OwnerThere db c)
    {r : Run} (hr : r ∈ db.runs) (name : String) : validCheckpointConflict db r name := by
  rintro ⟨c, hc, hid, -, hno⟩
  obtain ⟨o, ho, hoid, hotask, hoq, hat⟩ := howner c hc
  refine hno ⟨?_, o, ho, ?_, hoid, hotask, hoq, hat⟩
  · rw [← hoq]
    exact h.toOwned.queue_eq ho hr (hotask.trans hid)
  · rw [← hat]
    exact h.toUnits.attempt_within ho

/-- A checkpoint joins its one owner. -/
theorem owners_eq (h : Inv db) {c : Checkpoint} (hc : OwnerThere db c) :
    ∃ o ∈ db.runs, db.runs.rows.filter (checkpointOwnerMatches c) = [o] := by
  obtain ⟨o, ho, hid, htask, hq, hat⟩ := hc
  have hmatches : checkpointOwnerMatches c o :=
    ⟨hat ▸ h.toUnits.attempt_within ho, hid, htask, hq, hat⟩
  refine ⟨o, ho, Table.filter_eq_singleton Run.keys_ne_nil ho hmatches fun r hr hm => ?_⟩
  exact db.run_unique hr ho (hm.2.1.trans hid.symm)

/-- A worker of the task's top run is handed every checkpoint of its task, once. -/
theorem getCheckpoints_perm (h : Inv db) (howner : ∀ c ∈ db.checkpoints, OwnerThere db c) {r : Run}
    (hr : r ∈ db.runs) (htop : ∀ r' ∈ db.runs, r'.taskId = r.taskId → r'.attempt ≤ r.attempt) :
    (getCheckpoints db r.queue r.taskId r.attempt).Perm
      ((db.checkpoints.rows.filter fun c => c.taskId = r.taskId).map Checkpoint.committed) := by
  have hjoined : (db.checkpoints.rows.flatMap fun c =>
      (db.runs.rows.filter (checkpointOwnerMatches c)).map fun _ => c) = db.checkpoints.rows := by
    have hone : ∀ c ∈ db.checkpoints.rows,
        ((db.runs.rows.filter (checkpointOwnerMatches c)).map fun _ => c) = [c] := by
      intro c hc
      obtain ⟨o, _, heq⟩ := owners_eq h (howner c hc)
      rw [heq, List.map_singleton]
    rw [List.flatMap_congr hone, List.flatMap_singleton']
  have hvisible : (db.checkpoints.rows.filter fun c =>
      c.taskId = r.taskId ∧ c.queue = r.queue ∧ c.ownerAttempt ≤ r.attempt) =
      db.checkpoints.rows.filter fun c => c.taskId = r.taskId := by
    refine List.filter_congr fun c hc => ?_
    obtain ⟨o, ho, _, htask, hq, hat⟩ := howner c hc
    refine decide_eq_decide.mpr ⟨And.left, fun hid => ⟨hid, ?_, ?_⟩⟩
    · rw [← hq]
      exact h.toOwned.queue_eq ho hr (htask.trans hid)
    · rw [← hat]
      exact htop o ho (htask.trans hid)
  unfold getCheckpoints
  simp only [hjoined, hvisible]
  exact (List.perm_insertionSort _ _).map _

/-! ## Sleep markers -/

/-- A batch whose stamp is on no row deletes no wait by it. -/
theorem waitsGone_of_unstamped (hfresh : Unstamped db seed) : waitsGone db seed runId fence = db := by
  have hnone : ∀ w ∈ db.waits, ¬ ((∃ f ∈ db.runs, (f.runId = runId ∧
      f.fenceStamp = some ⟨seed, fence⟩) ∧ f.runId = w.runId) ∧ True) :=
    fun _ _ ⟨⟨f, hf, hsrc, _⟩, _⟩ => hfresh f hf _ hsrc.2 rfl
  unfold waitsGone runsToWaits
  rw [Table.delete_of_forall_not hnone]

/-- With no run suspended, the statements after the suspension do nothing. -/
theorem finishSuspension_of_unstamped {queue : String} (hfresh : Unstamped db seed) :
    finishSuspension db seed queue runId = db := by
  have hmirror : taskMirrorsRun db seed queue runId .suspend = db :=
    runsToTasks_of_forall_not fun _ _ f hf hfol => hfresh f hf _ hfol.stamp rfl
  unfold finishSuspension
  rw [hmirror, waitsGone_of_unstamped hfresh]

/-- A suspension parks its run and leaves the run its marker, or changes no row. -/
def SuspendsWhole (db db' : Db) (held : WorkerClaim) (checkpoint : CheckpointWrite) : Prop :=
  (∃ r ∈ db.runs, held.Holds r ∧
    (∃ r' ∈ db'.runs, r.Same r' ∧ r'.state.Queued ∧ r'.claimedBy = none) ∧
    ∃ c ∈ db'.checkpoints, WrittenBy r checkpoint c) ∨ db' = db

/-- A suspension stores its checkpoint as it parks its run, or does neither. -/
theorem suspendRun_whole (h : Inv db) (howner : ∀ c ∈ db.checkpoints, OwnerThere db c)
    (hfresh : Unstamped db seed) (held : WorkerClaim) (wake : WakeSpec)
    (checkpoint : CheckpointWrite) :
    SuspendsWhole db (suspendRun seed held wake checkpoint now db).db held checkpoint := by
  by_cases hg : ∃ r ∈ db.runs, suspendRunGuard db now held wake checkpoint r
  · obtain ⟨r, hr, hg⟩ := hg
    have hparked : suspendAssignments seed wake now r ∈
        (suspendRun seed held wake checkpoint now db).db.runs := by
      show _ ∈ (checkpointWrite (suspendCas db seed wake now
        (suspendRunGuard db now held wake checkpoint)) seed held.runId checkpoint .suspend).runs
      rw [checkpointWrite_runs]
      exact Table.mem_update_of_pos hr hg
    refine Or.inl ⟨r, hr, hg.1, ⟨_, hparked, ⟨rfl, rfl, rfl, rfl⟩, ?_, rfl⟩, ?_⟩
    · exact parkAssignments_queued seed .suspend (wake.wakeAt now) now r
    · exact checkpointWrite_won h howner hr hg.1.1 hg hg.1.running ⟨rfl, rfl, rfl, rfl⟩ rfl
  · have hcas : suspendCas db seed wake now (suspendRunGuard db now held wake checkpoint) = db :=
      updateRuns_of_forall_not fun r hr hgr => hg ⟨r, hr, hgr⟩
    have hnone : stampedRun db seed held.runId .suspend = none :=
      stampedRun_eq_none.mpr fun f hf _ hs => hfresh f hf _ hs rfl
    have hlost : (suspendRun seed held wake checkpoint now db).db = db := by
      unfold suspendRun
      simp only [hcas]
      rw [checkpointWrite_of_none hnone, finishSuspension_of_unstamped hfresh]
    exact Or.inr hlost

/-! ## The whole -/

/-- The checkpoint names a run of its task and queue as its owner, of the attempt it records, and no
attempt past the task's top. -/
structure CheckpointOwned (db : Db) (c : Checkpoint) : Prop where
  owner : OwnerThere db c
  top : ∃ top, Ordinals db c.taskId top ∧ c.ownerAttempt ≤ top

/-- A checkpoint whose owner is there is owned by a run of its task. -/
theorem Inv.checkpointOwned (h : Inv db) {c : Checkpoint} (hc : OwnerThere db c) :
    CheckpointOwned db c := by
  refine ⟨hc, ?_⟩
  obtain ⟨o, ho, _, hotask, _, hat⟩ := hc
  obtain ⟨t, ht, hown⟩ := h.owner o ho
  obtain ⟨top, hord, _⟩ := (h.settled t ht).band
  have hid : t.taskId = c.taskId := hown.1.trans hotask
  rw [hid] at hord
  exact ⟨top, hord, hat ▸ ((hord.2 o.attempt).mp ⟨o, ho, hotask, rfl⟩).2⟩

/-- What a delivery that goes through leaves of checkpoints: a batch that wins leaves the row it
writes, and the phase marker with the pass that enters the saga, and a suspension parks its run and
leaves its marker or does neither. -/
structure Batch.LeavesWhole (b : Batch) (db : Db) (out : Outcome) : Prop where
  written : ∀ held write, b.call.writes = some (held, write) → out.won ≠ none →
    ∃ r ∈ db.runs, held.Holds r ∧ ∃ c ∈ out.db.checkpoints, WrittenBy r write c
  marked : ∀ reason, b.call.failureReason = some reason → ∀ p ∈ out.db.runs,
    p.fenceStamp = some ⟨b.seed, .rollbackPass⟩ → ¬ sagaBegan db p.taskId →
      ∃ c ∈ out.db.checkpoints, WrittenBy p ⟨SAGA_PHASE_CHECKPOINT, reason⟩ c
  suspended : ∀ held wake checkpoint, b.call = .suspendRun held wake checkpoint →
    SuspendsWhole db out.db held checkpoint

/-- A batch of the store leaves what it writes whole. -/
theorem Batch.Meets.leavesWhole (h : b.Meets seen now db)
    (howner : ∀ c ∈ db.checkpoints, OwnerThere db c) (hfresh : Unstamped db b.seed)
    (hrun : b.run now db = some out) : b.LeavesWhole db out := by
  have hafter : b.after now db = out.db := by
    unfold Batch.after
    rw [hrun]
    rfl
  refine ⟨fun held write hwrites hwon => Batch.written h.sound howner hwrites hrun hwon,
    fun reason hreason p hp hs hno =>
      Batch.marked hfresh hrun (hafter ▸ h.inv) hreason hp hs hno, ?_⟩
  rintro held wake checkpoint hcall
  obtain ⟨seed, call⟩ := b
  obtain rfl : call = .suspendRun held wake checkpoint := hcall
  obtain rfl := Option.some.inj hrun
  exact suspendRun_whole h.sound howner hfresh held wake checkpoint

/-- In every reachable state every checkpoint is owned, no owner is of a lower attempt than one the
row had before, no row refuses a write, and the top run of a task is handed every checkpoint of the
task, once. A batch delivered there that wins leaves the row it writes, the phase marker included,
with the run it wrote it for, and a suspension parks its run and leaves its marker or does
neither. -/
theorem reachable_checkpoints (h : Reachable Repeats s) :
    (∀ c ∈ s.db.checkpoints, CheckpointOwned s.db c) ∧
      (∀ d, s.Seen d → OwnersRise d s.db) ∧
      (∀ r ∈ s.db.runs, ∀ name, validCheckpointConflict s.db r name) ∧
      (∀ r ∈ s.db.runs, (∀ r' ∈ s.db.runs, r'.taskId = r.taskId → r'.attempt ≤ r.attempt) →
        (getCheckpoints s.db r.queue r.taskId r.attempt).Perm
          ((s.db.checkpoints.rows.filter fun c => c.taskId = r.taskId).map
            Checkpoint.committed)) ∧
      ∀ (b : Batch) (now : ℤ) (out : Outcome), s.Fresh b.seed → s.clock ≤ now →
        b.call.Admitted s.Seen → b.run now s.db = some out →
          (∀ held write, b.call.writes = some (held, write) → out.won ≠ none →
            ∃ r ∈ s.db.runs, held.Holds r ∧ ∃ c ∈ out.db.checkpoints, WrittenBy r write c) ∧
          (∀ reason, b.call.failureReason = some reason → ∀ p ∈ out.db.runs,
            p.fenceStamp = some ⟨b.seed, .rollbackPass⟩ → ¬ sagaBegan s.db p.taskId →
              ∃ c ∈ out.db.checkpoints, WrittenBy p ⟨SAGA_PHASE_CHECKPOINT, reason⟩ c) ∧
          ∀ held wake checkpoint, b.call = .suspendRun held wake checkpoint →
            SuspendsWhole s.db out.db held checkpoint := by
  have hcourse := h.course fun _ _ hrepeats => hrepeats
  have howner := h.ownerThere fun _ _ hrepeats => hrepeats
  refine ⟨fun c hc => hcourse.inv.checkpointOwned (howner c hc), ?_,
    fun r hr => hcourse.inv.validCheckpointConflict howner hr,
    fun r hr htop => getCheckpoints_perm hcourse.inv howner hr htop, ?_⟩
  · exact h.since (R := OwnersRise) (fun _ _ hrepeats => hrepeats) OwnersRise.refl
      fun _ _ _ _ hd hsince => hsince.trans hd.effect.ownersRise
  · intro b now out hfresh hclock hadm hrun
    obtain ⟨hwritten, hmarked, hsuspended⟩ := (hcourse.delivers hfresh hclock hadm).meets.leavesWhole
      howner (hcourse.unused _ hfresh).runs hrun
    exact ⟨hwritten, hmarked, hsuspended⟩

/-! The sample run commits a step. -/

def stepOne : Batch := ⟨"b4", .setCheckpoint ⟨"q", "r1", "w1"⟩ "t" ⟨"s1", "1"⟩ 1000⟩

def steppedOne : Sys := runningOne.deliver stepOne 3

/-- The store with one checkpoint is reachable. -/
theorem steppedOne_reachable (again : Batch → Db → Prop) : Reachable again steppedOne :=
  .step (runningOne_reachable again) (.first _ _ (by decide) (by decide) trivial)

/-- The one checkpoint is owned, and admits a write of its name by the run that owns it. -/
theorem reachable_checkpoints_steppedOne :
    steppedOne.db.checkpoints.rows.map Checkpoint.committed = [⟨"s1", "1", "r1", 1⟩] ∧
      (∀ c ∈ steppedOne.db.checkpoints, CheckpointOwned steppedOne.db c) ∧
      ∀ r ∈ steppedOne.db.runs, validCheckpointConflict steppedOne.db r "s1" :=
  ⟨by decide, (reachable_checkpoints (steppedOne_reachable _)).1,
    fun r hr => (reachable_checkpoints (steppedOne_reachable _)).2.2.1 r hr "s1"⟩

end Durablerun
