import Durablerun.Store.LeaseAuthority
import Durablerun.Store.Replay

/-!
# A losing batch writes nothing

Each statement of a batch after its compare-and-set finds its rows by a stamp that the
compare-and-set left. A batch of its own seed whose compare-and-set takes no row finds no such stamp,
so it leaves every table as it was; and one whose compare-and-set takes a row leaves its stamp. What
a batch answered says so whether it changed the store.

Reference: `packages/core/src/fenced-batch.ts` and `packages/store-libsql/src/store.ts`.
-/

namespace Durablerun

open Relational

variable {again : Batch → Db → Prop} {s : Sys} {b : Batch} {seed queue runId : String} {now : ℤ}
  {db db' : Db} {out : Outcome} {name : Statement}

/-- Every call but `expireLeaseNow`, the one write that is no fenced batch. -/
def Call.Fenced : Call → Prop
  | .expireLeaseNow _ => False
  | _ => True

/-- A compare-and-set that affected nothing won nothing. -/
theorem wonBy_eq_none {affected : Prop} [Decidable affected] :
    wonBy name affected = none ↔ ¬ affected := by
  unfold wonBy
  split
  · rename_i h
    simp [h]
  · rename_i h
    simp [h]

/-! ## A batch that loses -/

namespace Unsigned

/-- A claim that loses changes nothing. -/
theorem claim_lost (h : Unsigned db seed) {call : ClaimCall}
    (hlost : (claim seed call now db).won = none) : (claim seed call now db).db = db := by
  have hcas : claimCas db seed call now = db :=
    updateRuns_of_forall_not fun r hr hg => wonBy_eq_none.mp hlost ⟨r, hr, hg⟩
  have hbook : taskBook db seed call = db := h.runsToTasks
  change waitsTimeout (taskBook (claimCas db seed call now) seed call) seed call = db
  rw [hcas, hbook]
  exact h.runsToWaits

/-- An activation that loses changes nothing. -/
theorem activate_lost (h : Unsigned db seed) {receipt : ClaimReceipt}
    (hlost : (activate seed receipt now db).won = none) :
    (activate seed receipt now db).db = db := by
  have hcas : activateCas db seed receipt now = db :=
    updateRuns_of_forall_not fun r hr hg => wonBy_eq_none.mp hlost ⟨r, hr, hg⟩
  change taskStart (activateCas db seed receipt now) seed receipt = db
  rw [hcas]
  exact h.runsToTasks

/-- A deferred launch that loses changes nothing. -/
theorem deferLaunch_lost (h : Unsigned db seed) {receipt : ClaimReceipt} {delayMs : ℤ}
    (hlost : (deferLaunch seed receipt delayMs now db).won = none) :
    (deferLaunch seed receipt delayMs now db).db = db := by
  have hcas : deferLaunchCas db seed receipt delayMs now = db :=
    updateRuns_of_forall_not fun r hr hg => wonBy_eq_none.mp hlost ⟨r, hr, hg⟩
  change Durablerun.finishSuspension (deferLaunchCas db seed receipt delayMs now) seed _ _ = db
  rw [hcas, h.finishSuspension]

/-- A reschedule that loses changes nothing. -/
theorem reschedule_lost (h : Unsigned db seed) {held : WorkerClaim} {wake : WakeSpec}
    (hlost : (reschedule seed held wake now db).won = none) :
    (reschedule seed held wake now db).db = db := by
  have hcas : suspendCas db seed wake now (rescheduleGuard db now held wake) = db :=
    updateRuns_of_forall_not fun r hr hg => wonBy_eq_none.mp hlost ⟨r, hr, hg⟩
  change Durablerun.finishSuspension (suspendCas db seed wake now _) seed _ _ = db
  rw [hcas, h.finishSuspension]

/-- A suspension that loses changes nothing. -/
theorem suspendRun_lost (h : Unsigned db seed) {held : WorkerClaim} {wake : WakeSpec}
    {checkpoint : CheckpointWrite}
    (hlost : (suspendRun seed held wake checkpoint now db).won = none) :
    (suspendRun seed held wake checkpoint now db).db = db := by
  have hcas : suspendCas db seed wake now (suspendRunGuard db now held wake checkpoint) = db :=
    updateRuns_of_forall_not fun r hr hg => wonBy_eq_none.mp hlost ⟨r, hr, hg⟩
  change Durablerun.finishSuspension (Durablerun.checkpointWrite (suspendCas db seed wake now _)
    seed _ _ _) seed _ _ = db
  rw [hcas, h.checkpointWrite, h.finishSuspension]

/-- A checkpoint that loses changes nothing. -/
theorem setCheckpoint_lost (h : Unsigned db seed) {held : WorkerClaim} {taskId : String}
    {checkpoint : CheckpointWrite} {extendMs : ℤ}
    (hlost : (setCheckpoint seed held taskId checkpoint extendMs now db).won = none) :
    (setCheckpoint seed held taskId checkpoint extendMs now db).db = db := by
  have hcas : checkpointLeaseCas db seed held taskId checkpoint.key extendMs now = db :=
    updateRuns_of_forall_not fun r hr hg => wonBy_eq_none.mp hlost ⟨r, hr, hg⟩
  change Durablerun.checkpointWrite (checkpointLeaseCas db seed held taskId _ extendMs now) seed
    _ _ _ = db
  rw [hcas, h.checkpointWrite]

/-- A completion that loses changes nothing. -/
theorem complete_lost (h : Unsigned db seed) {held : WorkerClaim} {taskId resultJson : String}
    (hlost : (complete seed held taskId resultJson now db).won = none) :
    (complete seed held taskId resultJson now db).db = db := by
  have hcas : completeCas db seed held resultJson now = db :=
    updateRuns_of_forall_not fun r hr hg => wonBy_eq_none.mp hlost ⟨r, hr, hg⟩
  have hmirror : completeTaskMirror db seed held resultJson = db := h.runsToTasks
  change Durablerun.addTaskDone (waitsGone (completeTaskMirror
    (completeCas db seed held resultJson now) seed held resultJson) seed _ _) seed _ _ _ _ = db
  rw [hcas, hmirror, waitsGone_of_unstamped h.runs, h.addTaskDone]

/-- What follows the compare-and-set of a failure batch does nothing without a stamp. -/
theorem failRest (h : Unsigned db seed) {failure : Failure} :
    rollbackTries db seed failure = db ∧ failSagaPass db seed failure = some db ∧
      userRetry db seed failure = some db ∧ failTerminal db seed failure = db := by
  refine ⟨?_, ?_, ?_, h.runsToTasks⟩
  · unfold rollbackTries
    split
    · rfl
    · exact h.checkpointWrite
  · unfold failSagaPass
    split
    · exact h.sagaPass
    · split
      · rfl
      · exact h.sagaPass
  · unfold userRetry
    split
    · rfl
    · rw [h.failureSuccessor]
      exact congrArg some h.runsToTasks

/-- A failure that finds no run to fail changes nothing. -/
theorem failInto_lost (h : Unsigned db seed) {failure : Failure}
    (hnot : ∀ r ∈ db.runs, ¬ failGuard db now failure r) :
    ∃ won, Durablerun.failInto seed failure now db = some ⟨db, won⟩ := by
  have hcas : failCas db seed failure now = db := updateRuns_of_forall_not hnot
  obtain ⟨htries, hpass, hretry, hterminal⟩ : rollbackTries db seed failure = db ∧
      failSagaPass db seed failure = some db ∧ userRetry db seed failure = some db ∧
      failTerminal db seed failure = db := h.failRest
  refine ⟨wonBy .fail (∃ r ∈ db.runs, failGuard db now failure r), ?_⟩
  unfold Durablerun.failInto
  rw [hcas, htries, hpass]
  simp only [Option.bind_eq_bind, Option.bind_some]
  rw [hretry]
  simp only [Option.bind_some]
  rw [hterminal, waitsGone_of_unstamped h.runs, h.addTaskDone]
  rfl

/-- The sweep of a lost launch changes nothing when it loses. -/
theorem sweepLostLaunch_lost (h : Unsigned db seed) {swept : Swept}
    (hrun : sweepLostLaunch seed swept now db = some out) (hlost : out.won = none) :
    out.db = db := by
  obtain ⟨passed, hpass, hout⟩ := Option.bind_eq_some_iff.mp hrun
  obtain rfl := Option.some.inj hout
  obtain ⟨hreopen, hcap⟩ := Option.or_eq_none_iff.mp hlost
  have hreopened : reopenLostLaunchCas db seed swept now = db :=
    updateRuns_of_forall_not fun r hr hg => wonBy_eq_none.mp hreopen ⟨r, hr, hg⟩
  rw [hreopened] at hpass hcap
  have hcapped : capLostLaunchCas db seed swept now = db :=
    updateRuns_of_forall_not fun r hr hg => wonBy_eq_none.mp hcap ⟨r, hr, hg⟩
  rw [hcapped] at hpass
  obtain rfl : db = passed := Option.some.inj (h.sagaPass.symm.trans hpass)
  have hpending : taskPending db seed swept = db := h.runsToTasks
  have hfail : taskFail db seed swept = db := h.runsToTasks
  simp only [hpending, hfail]
  rw [waitsGone_of_unstamped h.runs, h.addTaskDone]

/-- The sweep of a timeout changes nothing when it loses. -/
theorem sweepClaimTimeout_lost (h : Unsigned db seed) {swept : Swept}
    (hrun : sweepClaimTimeout seed swept now db = some out) (hlost : out.won = none) :
    out.db = db := by
  obtain ⟨placed, hsucc, hrun⟩ := Option.bind_eq_some_iff.mp hrun
  obtain ⟨passed, hpass, hout⟩ := Option.bind_eq_some_iff.mp hrun
  obtain rfl := Option.some.inj hout
  have hfailed : failClaimTimeoutCas db seed swept now = db :=
    updateRuns_of_forall_not fun r hr hg => wonBy_eq_none.mp hlost ⟨r, hr, hg⟩
  rw [hfailed] at hsucc
  obtain rfl : db = placed := Option.some.inj (h.failureSuccessor.symm.trans hsucc)
  obtain rfl : db = passed := Option.some.inj (h.sagaPass.symm.trans hpass)
  have hterminal : timeoutTerminal db seed swept = db := h.runsToTasks
  have hbooked : bookkeeping db seed swept = db := h.runsToTasks
  simp only [hterminal, hbooked]
  rw [waitsGone_of_unstamped h.runs, h.addTaskDone]

/-- A cancellation that loses changes nothing. -/
theorem cancelTransition_lost (h : Unsigned db seed) {c : Cancellation}
    (hlost : (cancelTransition seed c now db).won = none) :
    (cancelTransition seed c now db).db = db := by
  have hcas : cancelCas db seed c now = db :=
    updateTasks_of_forall_not fun t ht hg => wonBy_eq_none.mp hlost ⟨t, ht, hg⟩
  have hruns : cancelRuns db seed c = db := by
    refine updateRuns_of_forall_not ?_
    rintro r - ⟨⟨t, ht, ⟨-, -, hs⟩, -⟩, -⟩
    exact h.tasks t ht _ hs rfl
  have hwaits : cancelWaits db seed c = db := h.runsToWaits
  change Durablerun.addTaskDone (cancelWaits (cancelRuns (cancelCas db seed c now) seed c) seed c)
    seed _ _ _ _ = db
  rw [hcas, hruns, hwaits, h.addTaskDone]

/-- A run that is claimed is parked on no wait, so a wait of its own never stands in the way of one
more. -/
theorem awaitEvent_lost (h : Unsigned db seed) (hinv : Inv db) {call : AwaitCall}
    (hlost : (Durablerun.awaitEvent seed call now db).won = none) :
    (Durablerun.awaitEvent seed call now db).db = db := by
  have hnowait : ∀ w ∈ db.waits, w.runId = call.runId → ∀ r ∈ db.runs,
      ¬ whereClaimedRun call.queue call.runId call.claimToken r := by
    rintro w hw hid r hr ⟨hrid, -, -, hrunning⟩
    exact hinv.held.no_wait hw hr (by simp [hrunning]) (hrid.trans hid.symm)
  have hguard : ¬ registerGuard db now call := by
    intro hg
    refine wonBy_eq_none.mp hlost ⟨hg, ?_⟩
    obtain ⟨-, ⟨r, hr, hheld, -⟩, -⟩ := hg
    by_contra hfree
    obtain ⟨w, hw, k, hk, hk'⟩ := Table.exists_conflict (by simp [Wait.keys]) hfree
    have hid : w.runId = call.runId := by
      simp only [Wait.keys, AwaitCall.wait, List.mem_singleton] at hk hk'
      exact congrArg Prod.fst (hk'.symm.trans hk)
    exact hnowait w hw hid r hr hheld
  have hcas : registerWaitCas db seed call now = db := if_neg hguard
  have hpark : awaitPark db seed call = db := by
    refine updateRuns_of_forall_not ?_
    rintro r hr ⟨⟨w, hw, ⟨⟨hwid, -⟩, -, -⟩, -⟩, -, hheld, -⟩
    exact hnowait w hw hwid r hr hheld
  have hmirror : awaitMirror db seed call = db := h.runsToTasks
  change awaitMirror (awaitPark (registerWaitCas db seed call now) seed call) seed call = db
  rw [hcas, hpark, hmirror]

/-- An emission that loses changes nothing. -/
theorem emitEvent_lost (h : Unsigned db seed) {call : EmitCall}
    (hlost : (emitEvent seed call now db).won = none) : (emitEvent seed call now db).db = db := by
  have hno := wonBy_eq_none.mp hlost
  have hcas : emitEventCas db seed call now = db := by
    unfold emitEventCas
    rw [Table.upsert_of_fixed fun hfree => hno (Or.inl hfree)]
    intro e he hconflict hp
    exact absurd (Or.inr ⟨e, he, hconflict, hp⟩) hno
  change Durablerun.wakeWaiters (emitEventCas db seed call now) seed _ _ = db
  rw [hcas, h.wakeWaiters]

/-- A spawn that loses changes nothing. -/
theorem spawn_lost (h : Unsigned db seed) {call : SpawnCall}
    (hrun : spawn seed call now db = some out) (hlost : out.won = none) : out.db = db := by
  obtain ⟨withRun, hwith, hout⟩ := Option.bind_eq_some_iff.mp hrun
  obtain rfl := Option.some.inj hout
  have hcas : spawnTaskCas db seed call now = db := by
    unfold spawnTaskCas
    split
    · rename_i hg
      rw [Table.insertIgnore_of_not_free fun hfree => wonBy_eq_none.mp hlost ⟨hg, hfree⟩]
    · rfl
  rw [hcas] at hwith
  have hnone : (db.tasks.rows.find? fun f => decide (f.taskId = call.taskId ∧
      f.fenceStamp = some ⟨seed, .task⟩)) = none := by
    rw [List.find?_eq_none]
    intro t ht hp
    exact h.tasks t ht _ (of_decide_eq_true hp).2 rfl
  unfold spawnRun at hwith
  rw [hnone] at hwith
  exact (Option.some.inj hwith).symm

/-- A retry that loses changes nothing. -/
theorem retryTask_lost (h : Unsigned db seed) {call : RetryCall}
    (hrun : retryTask seed call now db = some out) (hlost : out.won = none) : out.db = db := by
  obtain ⟨withRun, hwith, hout⟩ := Option.bind_eq_some_iff.mp hrun
  obtain rfl := Option.some.inj hout
  have hcas : reviveCas db seed call now = db :=
    updateTasks_of_forall_not fun t ht hg => wonBy_eq_none.mp hlost ⟨t, ht, hg⟩
  rw [hcas] at hwith
  have hnone : (db.tasks.rows.find? fun f => decide (f.taskId = call.taskId ∧
      f.fenceStamp = some ⟨seed, .revive⟩)) = none := by
    rw [List.find?_eq_none]
    intro t ht hp
    exact h.tasks t ht _ (of_decide_eq_true hp).2 rfl
  unfold revivalRunInsert at hwith
  rw [hnone] at hwith
  exact (Option.some.inj hwith).symm

/-- A fenced batch that loses leaves every table as it was. -/
theorem lost (h : Unsigned db b.seed) (hinv : Inv db) (hfenced : b.call.Fenced)
    (hrun : b.run now db = some out) (hlost : out.won = none) : out.db = db := by
  obtain ⟨seed, call⟩ := b
  cases call with
  | spawn call => exact h.spawn_lost hrun hlost
  | claim call => exact Option.some.inj hrun ▸ h.claim_lost (Option.some.inj hrun ▸ hlost)
  | activate receipt =>
    exact Option.some.inj hrun ▸ h.activate_lost (Option.some.inj hrun ▸ hlost)
  | heartbeat held extensionMs =>
    obtain rfl := Option.some.inj hrun
    exact updateRuns_of_forall_not fun r hr hg => wonBy_eq_none.mp hlost ⟨r, hr, hg⟩
  | deferLaunch receipt delayMs =>
    exact Option.some.inj hrun ▸ h.deferLaunch_lost (Option.some.inj hrun ▸ hlost)
  | reschedule held wake =>
    exact Option.some.inj hrun ▸ h.reschedule_lost (Option.some.inj hrun ▸ hlost)
  | suspendRun held wake checkpoint =>
    exact Option.some.inj hrun ▸ h.suspendRun_lost (Option.some.inj hrun ▸ hlost)
  | awaitEvent call =>
    exact Option.some.inj hrun ▸ h.awaitEvent_lost hinv (Option.some.inj hrun ▸ hlost)
  | recordTaskDone call =>
    obtain rfl := Option.some.inj hrun
    unfold recordTaskDone at hlost ⊢
    split
    · rfl
    · rename_i hsome
      rw [hsome] at hlost
      cases hlost
  | emitEvent call => exact Option.some.inj hrun ▸ h.emitEvent_lost (Option.some.inj hrun ▸ hlost)
  | setCheckpoint held taskId checkpoint extendMs =>
    exact Option.some.inj hrun ▸ h.setCheckpoint_lost (Option.some.inj hrun ▸ hlost)
  | complete held taskId resultJson =>
    exact Option.some.inj hrun ▸ h.complete_lost (Option.some.inj hrun ▸ hlost)
  | failInto failure =>
    have hnot : ∀ r ∈ db.runs, ¬ failGuard db now failure r := by
      intro r hr hg
      have hwon := (failInto_failed hrun hr hg).2
      rw [hlost] at hwon
      cases hwon
    obtain ⟨won, hlostRun⟩ := h.failInto_lost hnot
    obtain rfl := Option.some.inj (hlostRun.symm.trans hrun)
    rfl
  | sweepLostLaunch swept => exact h.sweepLostLaunch_lost hrun hlost
  | sweepClaimTimeout swept => exact h.sweepClaimTimeout_lost hrun hlost
  | cancelTransition c =>
    exact Option.some.inj hrun ▸ h.cancelTransition_lost (Option.some.inj hrun ▸ hlost)
  | retryTask call => exact h.retryTask_lost hrun hlost
  | expireLeaseNow held => exact hfenced.elim

end Unsigned

/-! ## A batch that wins -/

/-- The batch left its stamp on the run. -/
def SignedRun (db' : Db) (seed : String) (r : Run) : Prop :=
  ∃ r' ∈ db'.runs, r'.runId = r.runId ∧ ∃ n, r'.fenceStamp = some ⟨seed, n⟩

/-- A run that carries a stamp of the batch carries one after every later statement. -/
theorem Frame.signed {names : Statement → Prop} (h : Frame seed names db db') {r : Run}
    (hr : r ∈ db.runs) (hs : r.fenceStamp = some ⟨seed, name⟩) : SignedRun db' seed r := by
  obtain ⟨r', hr', hf⟩ := h.runs.after r hr
  obtain ⟨hsame, -⟩ | ⟨n, -, hn⟩ := hf.stamped
  · exact ⟨r', hr', hf.runId, name, hsame.trans hs⟩
  · exact ⟨r', hr', hf.runId, n, hn⟩

/-- A compare-and-set that took a run, and statements that leave the runs' stamps standing. -/
theorem signed_of_updateRuns {names : Statement → Prop} {p : Run → Prop} [DecidablePred p]
    {f : Table.Change Run.keys} (hwon : wonBy name (∃ r ∈ db.runs, p r) ≠ none)
    (hstamp : ∀ r, (f r).runId = r.runId ∧ (f r).fenceStamp = some ⟨seed, name⟩)
    (hframe : Frame seed names { db with runs := db.runs.update p f } db') :
    ∃ r ∈ db.runs, p r ∧ SignedRun db' seed r := by
  obtain ⟨r, hr, hp⟩ := not_not.mp fun hno => hwon (wonBy_eq_none.mpr hno)
  have hr' : f r ∈ { db with runs := db.runs.update p f }.runs := Table.mem_update_of_pos hr hp
  obtain ⟨r', hr'', hid, hs⟩ := hframe.signed hr' (hstamp r).2
  exact ⟨r, hr, hp, r', hr'', hid.trans (hstamp r).1, hs⟩

/-- The claim that won took a run. -/
theorem claim_signed {call : ClaimCall} (hwon : (claim seed call now db).won ≠ none) :
    ∃ r ∈ db.runs, claimGuard db now call r ∧ SignedRun (claim seed call now db).db seed r := by
  have hbook : Framed seed (claimCas db seed call now)
      (taskBook (claimCas db seed call now) seed call) := .runsToTasks fun _ => ⟨rfl, rfl⟩
  exact signed_of_updateRuns hwon (fun _ => ⟨rfl, rfl⟩) (hbook.trans .runsToWaits)

/-- The sweep of a lost launch that won took its run. -/
theorem sweepLostLaunch_signed {swept : Swept}
    (hrun : sweepLostLaunch seed swept now db = some out) (hwon : out.won ≠ none) :
    ∃ r ∈ db.runs, (reopenGuard db now swept r ∨ capGuard db now swept r) ∧
      SignedRun out.db seed r := by
  obtain ⟨passed, hpass, hout⟩ := Option.bind_eq_some_iff.mp hrun
  obtain rfl := Option.some.inj hout
  have hcap : Framed seed (reopenLostLaunchCas db seed swept now)
      (capLostLaunchCas (reopenLostLaunchCas db seed swept now) seed swept now) :=
    .updateRuns (fun _ _ hg => by simp [hg.1.2.2.1]) fun _ => ⟨⟨rfl, rfl, rfl, rfl⟩, rfl⟩
  have hfollow : Framed seed passed (taskFail (taskPending passed seed swept) seed swept) :=
    (Frame.runsToTasks fun _ => ⟨rfl, rfl⟩).trans (.runsToTasks fun _ => ⟨rfl, rfl⟩)
  have hrest : Framed seed
      (capLostLaunchCas (reopenLostLaunchCas db seed swept now) seed swept now)
      (Durablerun.addTaskDone (waitsGone (taskFail (taskPending passed seed swept) seed swept) seed
        swept.runId .cap) seed swept.queue swept.taskId .taskFail
        (encodeTaskOutcome (.failed REASON_RELAUNCH_CAP))) :=
    (Frame.sagaPass trivial hpass).trans (hfollow.trans finish_framed)
  by_cases hreopen : wonBy .reopen (∃ r ∈ db.runs, reopenGuard db now swept r) = none
  · have hcapped : wonBy .cap (∃ r ∈ (reopenLostLaunchCas db seed swept now).runs,
        capGuard (reopenLostLaunchCas db seed swept now) now swept r) ≠ none := fun hno =>
      hwon (Option.or_eq_none_iff.mpr ⟨hreopen, hno⟩)
    have hsame : reopenLostLaunchCas db seed swept now = db :=
      updateRuns_of_forall_not fun r hr hg => wonBy_eq_none.mp hreopen ⟨r, hr, hg⟩
    rw [hsame] at hcapped hrest
    obtain ⟨r, hr, hg, hsigned⟩ := signed_of_updateRuns hcapped (fun _ => ⟨rfl, rfl⟩) hrest
    exact ⟨r, hr, Or.inr hg, hsigned⟩
  · obtain ⟨r, hr, hg, hsigned⟩ :=
      signed_of_updateRuns hreopen (fun _ => ⟨rfl, rfl⟩) (hcap.trans hrest)
    exact ⟨r, hr, Or.inl hg, hsigned⟩

/-- The sweep of a dead claim that won took its run. -/
theorem sweepClaimTimeout_signed {swept : Swept}
    (hrun : sweepClaimTimeout seed swept now db = some out) (hwon : out.won ≠ none) :
    ∃ r ∈ db.runs, claimTimeoutGuard db now swept r ∧ SignedRun out.db seed r := by
  obtain ⟨placed, hsucc, hrun⟩ := Option.bind_eq_some_iff.mp hrun
  obtain ⟨passed, hpass, hout⟩ := Option.bind_eq_some_iff.mp hrun
  obtain rfl := Option.some.inj hout
  have hplaced : Framed seed (failClaimTimeoutCas db seed swept now) passed :=
    (Frame.failureSuccessor trivial hsucc).trans (.sagaPass trivial hpass)
  have hfollow : Framed seed passed (bookkeeping (timeoutTerminal passed seed swept) seed swept) :=
    (Frame.runsToTasks fun _ => ⟨rfl, rfl⟩).trans (.runsToTasks fun _ => ⟨rfl, rfl⟩)
  exact signed_of_updateRuns hwon (fun _ => ⟨rfl, rfl⟩)
    (hplaced.trans (hfollow.trans finish_framed))

/-- The cancellation that won ended its task. -/
theorem cancelTransition_cancelled {c : Cancellation}
    (hwon : (cancelTransition seed c now db).won ≠ none) :
    ∃ t ∈ db.tasks, cancelGuard db now c t ∧ ∃ t' ∈ (cancelTransition seed c now db).db.tasks,
      t'.taskId = t.taskId ∧ t'.state = .cancelled ∧ t'.fenceStamp = some ⟨seed, .cancel⟩ := by
  obtain ⟨t, ht, hg⟩ := not_not.mp fun hno => hwon (wonBy_eq_none.mpr hno)
  set ended := cancelWaits (cancelRuns (cancelCas db seed c now) seed c) seed c with hended
  have ht' : { t with
      state := .cancelled
      cancelledAtMs := some now
      cancelAtMs := none
      failureReason := some REASON_CANCELLED
      fenceStamp := some ⟨seed, .cancel⟩
      fenceAtMs := now } ∈ ended.tasks := Table.mem_update_of_pos (T := db.tasks) ht hg
  obtain ⟨events, heq⟩ := taskDoneEvent_withEvents ended seed c.queue c.taskId
    (encodeTaskOutcome (.cancelled REASON_CANCELLED)) .cancel
  have hdone : (cancelTransition seed c now db).db =
      Durablerun.wakeWaiters { ended with events } seed c.queue (taskDoneEventName c.taskId) := by
    rw [← heq]
    rfl
  rw [hdone]
  exact ⟨t, ht, hg, _, mem_wakeWaiters_tasks ht' (by simp), rfl, rfl, rfl⟩

/-- The run of a spawn touches no task. -/
theorem spawnRun_tasks {call : SpawnCall} (h : spawnRun db seed call = some db') :
    db'.tasks = db.tasks := by
  unfold spawnRun at h
  split at h
  · rw [Option.some.inj h]
  · split at h
    · obtain ⟨runs, _, rfl⟩ := Option.map_eq_some_iff.mp h
      rfl
    · rw [Option.some.inj h]

/-- The run of a revival touches no task. -/
theorem revivalRunInsert_tasks {call : RetryCall} (h : revivalRunInsert db seed call = some db') :
    db'.tasks = db.tasks := by
  unfold revivalRunInsert at h
  split at h
  · rw [Option.some.inj h]
  · split at h
    · rw [Option.some.inj h]
    · obtain ⟨runs, _, rfl⟩ := Option.map_eq_some_iff.mp h
      rfl

namespace Unsigned

/-- A database in which the batch left its stamp on a run is another one. -/
theorem ne_of_run (h : Unsigned db seed) {r : Run} (hsigned : SignedRun db' seed r) : db' ≠ db := by
  rintro rfl
  obtain ⟨r, hr, -, n, hs⟩ := hsigned
  exact h.runs r hr _ hs rfl

/-- A database with a task of the seed's stamp is another one. -/
theorem ne_of_task (h : Unsigned db seed) {t : Task} (ht : t ∈ db'.tasks)
    (hs : t.fenceStamp = some ⟨seed, name⟩) : db' ≠ db := by
  rintro rfl
  exact h.tasks t ht _ hs rfl

/-- A database with an event of the seed's stamp is another one. -/
theorem ne_of_event (h : Unsigned db seed) {e : Event} (he : e ∈ db'.events)
    (hs : e.fenceStamp = some ⟨seed, name⟩) : db' ≠ db := by
  rintro rfl
  exact h.events e he _ hs rfl

/-- A compare-and-set of runs that won leaves another database. -/
theorem ne_of_updateRuns (h : Unsigned db seed) {names : Statement → Prop} {p : Run → Prop}
    [DecidablePred p] {f : Table.Change Run.keys}
    (hwon : wonBy name (∃ r ∈ db.runs, p r) ≠ none)
    (hstamp : ∀ r, (f r).runId = r.runId ∧ (f r).fenceStamp = some ⟨seed, name⟩)
    (hframe : Frame seed names { db with runs := db.runs.update p f } db') : db' ≠ db := by
  obtain ⟨r, _, _, hsigned⟩ := signed_of_updateRuns hwon hstamp hframe
  exact h.ne_of_run hsigned

/-- An emission that wins changes the database. -/
theorem emitEvent_won (h : Unsigned db seed) {call : EmitCall}
    (hwon : (emitEvent seed call now db).won ≠ none) : (emitEvent seed call now db).db ≠ db := by
  have hwon := not_not.mp fun hno => hwon (wonBy_eq_none.mpr hno)
  obtain ⟨e, he, hs⟩ : ∃ e ∈ (emitEventCas db seed call now).events,
      e.fenceStamp = some ⟨seed, .event⟩ := by
    by_cases hfree : db.events.Free (call.event seed now)
    · exact ⟨_, Table.mem_upsert.mpr (Or.inl ⟨hfree, Or.inr rfl⟩), rfl⟩
    · obtain ⟨e, he, hp⟩ := hwon.resolve_left hfree
      exact ⟨_, Table.mem_upsert.mpr (Or.inr ⟨hfree, Table.mem_update_of_pos he hp⟩), rfl⟩
  have he' : e ∈ (emitEvent seed call now db).db.events := he
  exact h.ne_of_event he' hs

/-- A fenced batch that wins changes a table. -/
theorem won (h : Unsigned db b.seed) (hfenced : b.call.Fenced) (hrun : b.run now db = some out)
    (hwon : out.won ≠ none) : out.db ≠ db := by
  obtain ⟨seed, call⟩ := b
  cases call with
  -- A win is a row that holds the batch's stamp, and no row held it before.
  | spawn call =>
    obtain ⟨withRun, hwith, hout⟩ := Option.bind_eq_some_iff.mp hrun
    obtain rfl := Option.some.inj hout
    obtain ⟨hg, hfree⟩ := not_not.mp fun hno => hwon (wonBy_eq_none.mpr hno)
    have ht : call.task seed now ∈ (spawnTaskCas db seed call now).tasks := by
      unfold spawnTaskCas
      rw [if_pos hg]
      exact Table.mem_insertIgnore.mpr (Or.inr ⟨hfree, rfl⟩)
    exact h.ne_of_task (spawnRun_tasks hwith ▸ ht) rfl
  | claim call =>
    obtain rfl := Option.some.inj hrun
    obtain ⟨r, _, _, hsigned⟩ := claim_signed hwon
    exact h.ne_of_run hsigned
  | activate receipt =>
    obtain rfl := Option.some.inj hrun
    have hstart : Framed seed (activateCas db seed receipt now)
        (taskStart (activateCas db seed receipt now) seed receipt) :=
      .runsToTasks fun _ => ⟨rfl, rfl⟩
    exact h.ne_of_updateRuns hwon (fun _ => ⟨rfl, rfl⟩) hstart
  | heartbeat held extensionMs =>
    obtain rfl := Option.some.inj hrun
    have hframe : Framed seed (heartbeatCas db seed held extensionMs now)
        (heartbeatCas db seed held extensionMs now) := .refl _
    exact h.ne_of_updateRuns hwon (fun _ => ⟨rfl, rfl⟩) hframe
  | deferLaunch receipt delayMs =>
    obtain rfl := Option.some.inj hrun
    exact h.ne_of_updateRuns hwon (fun _ => ⟨rfl, rfl⟩) finishSuspension_framed
  | reschedule held wake =>
    obtain rfl := Option.some.inj hrun
    exact h.ne_of_updateRuns hwon (fun _ => ⟨rfl, rfl⟩) finishSuspension_framed
  | suspendRun held wake checkpoint =>
    obtain rfl := Option.some.inj hrun
    exact h.ne_of_updateRuns hwon (fun _ => ⟨rfl, rfl⟩)
      (Frame.checkpointWrite.trans finishSuspension_framed)
  | awaitEvent call =>
    obtain rfl := Option.some.inj hrun
    obtain ⟨hg, hfree⟩ := not_not.mp fun hno => hwon (wonBy_eq_none.mpr hno)
    have hw : call.wait seed now ∈ (Durablerun.awaitEvent seed call now db).db.waits := by
      show _ ∈ (registerWaitCas db seed call now).waits
      unfold registerWaitCas
      rw [if_pos hg]
      exact Table.mem_insertIgnore.mpr (Or.inr ⟨hfree, rfl⟩)
    -- A wait has no stamp: it was not registered before, as its key was free.
    intro heq
    rw [heq] at hw
    exact hfree.2 (call.runId, call.stepName) (by simp [Wait.keys, AwaitCall.wait])
      (Table.mem_heldKeys.mpr ⟨_, hw, by simp [Wait.keys, AwaitCall.wait]⟩)
  | recordTaskDone call =>
    obtain rfl := Option.some.inj hrun
    unfold recordTaskDone at hwon ⊢
    split
    · rename_i hnone
      rw [hnone] at hwon
      exact absurd rfl hwon
    · rename_i c hc
      have hp := List.find?_some hc
      have hg : materializeGuard db call c := of_decide_eq_true hp
      refine h.ne_of_event (Table.mem_insertIgnore.mpr (Or.inr ⟨?_, rfl⟩)) rfl
      -- The event was not recorded before, which the guard asked of its queue and name.
      by_contra hfree
      obtain ⟨e, he, k, hk, hk'⟩ := Table.exists_conflict (by simp [Event.keys]) hfree
      simp only [Event.keys, List.mem_singleton] at hk hk'
      obtain ⟨hqueue, hname⟩ := Prod.mk.inj (hk'.symm.trans hk)
      exact hg.2.2.1 ⟨e, he, hqueue, hname⟩
  | emitEvent call => exact Option.some.inj hrun ▸ h.emitEvent_won (Option.some.inj hrun ▸ hwon)
  | setCheckpoint held taskId checkpoint extendMs =>
    obtain rfl := Option.some.inj hrun
    set leased := checkpointLeaseCas db seed held taskId checkpoint.key extendMs now
    have hwrite : Framed seed leased (Durablerun.checkpointWrite leased seed held.runId checkpoint
        .lease) := .checkpointWrite
    exact h.ne_of_updateRuns hwon (fun _ => ⟨rfl, rfl⟩) hwrite
  | complete held taskId resultJson =>
    obtain rfl := Option.some.inj hrun
    exact h.ne_of_updateRuns hwon (fun _ => ⟨rfl, rfl⟩)
      ((Frame.runsToTasks fun _ => ⟨rfl, rfl⟩).trans finish_framed)
  | failInto failure =>
    obtain ⟨r, hr, hg⟩ : ∃ r ∈ db.runs, failGuard db now failure r := by
      obtain ⟨passed, hpass, hrun⟩ := Option.bind_eq_some_iff.mp hrun
      obtain ⟨retried, hretry, hout⟩ := Option.bind_eq_some_iff.mp hrun
      obtain rfl := Option.some.inj hout
      exact not_not.mp fun hno => hwon (wonBy_eq_none.mpr hno)
    exact h.ne_of_run (r := r) ⟨_, (failInto_failed hrun hr hg).1, rfl, _, rfl⟩
  | sweepLostLaunch swept =>
    obtain ⟨r, _, _, hsigned⟩ := sweepLostLaunch_signed hrun hwon
    exact h.ne_of_run hsigned
  | sweepClaimTimeout swept =>
    obtain ⟨r, _, _, hsigned⟩ := sweepClaimTimeout_signed hrun hwon
    exact h.ne_of_run hsigned
  | cancelTransition c =>
    obtain rfl := Option.some.inj hrun
    obtain ⟨t, _, _, t', ht', _, _, hs⟩ := cancelTransition_cancelled hwon
    exact h.ne_of_task ht' hs
  | retryTask call =>
    obtain ⟨withRun, hwith, hout⟩ := Option.bind_eq_some_iff.mp hrun
    obtain rfl := Option.some.inj hout
    obtain ⟨t, ht, hg⟩ := not_not.mp fun hno => hwon (wonBy_eq_none.mpr hno)
    have ht' : revivedTask db seed call now t ∈ (reviveCas db seed call now).tasks :=
      Table.mem_update_of_pos (T := db.tasks) ht hg
    exact h.ne_of_task (revivalRunInsert_tasks hwith ▸ ht') rfl
  | expireLeaseNow held => exact hfenced.elim

end Unsigned

/-! ## The whole -/

/-- A seed that is still to come has signed nothing. -/
theorem Reachable.unsigned (h : Reachable again s)
    (hagain : ∀ b db, again b db → b.call.Repeatable) (hfresh : s.Fresh seed) :
    Unsigned s.db seed :=
  { (h.course hagain).unused _ hfresh with
    events := fun e he stamp hs heq => (h.eventStamps hagain) e he stamp hs (heq ▸ hfresh) }

/-- In every reachable state a batch of its own seed changes the store exactly when it wins. -/
theorem changes_iff_wins (h : Reachable Repeats s) (hfresh : s.Fresh b.seed)
    (hfenced : b.call.Fenced) (now : ℤ) : b.after now s.db ≠ s.db ↔ b.Wins now s.db := by
  have hunsigned := h.unsigned (fun _ _ hrepeats => hrepeats) hfresh
  have hinv := (h.course fun _ _ hrepeats => hrepeats).inv
  have hafter : ∀ out, b.run now s.db = some out → b.after now s.db = out.db := by
    intro out hrun
    unfold Batch.after
    rw [hrun]
    rfl
  constructor
  · intro hchanged
    obtain heq | ⟨out, hrun, heq⟩ := b.after_cases now s.db
    · exact absurd heq hchanged
    · exact ⟨out, hrun, fun hlost => hchanged
        (heq.trans (hunsigned.lost hinv hfenced hrun hlost))⟩
  · rintro ⟨out, hrun, hwon⟩
    rw [hafter out hrun]
    exact hunsigned.won hfenced hrun hwon

/-- A heartbeat under the claim of the running task, and one under a claim nobody holds. -/
theorem changes_iff_wins_runningOne :
    beatOne.after 3 runningOne.db ≠ runningOne.db ∧
      (⟨"b6", .heartbeat ⟨"q", "r1", "w2"⟩ 1000⟩ : Batch).after 3 runningOne.db =
        runningOne.db := by
  have hwins := changes_iff_wins (b := beatOne) (runningOne_reachable _) (by decide) trivial 3
  have hloses := changes_iff_wins (b := ⟨"b6", .heartbeat ⟨"q", "r1", "w2"⟩ 1000⟩)
    (runningOne_reachable _) (by decide) trivial 3
  refine ⟨hwins.mpr ⟨_, rfl, by decide⟩, not_not.mp fun hchanged => ?_⟩
  obtain ⟨out, hrun, hwon⟩ := hloses.mp hchanged
  obtain rfl := Option.some.inj hrun
  exact absurd hwon (by decide)

end Durablerun
