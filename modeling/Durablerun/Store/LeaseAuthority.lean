import Durablerun.Store.Checkpoints
import Durablerun.Store.Receipts
import Durablerun.Store.TakesEffect

/-!
# The authority of a lease

An activation that wins opens an execution context: the run, the claim token and the generation.
What the context writes presents the run and the token, and the authority it stands for is the
generation. The two agree while no claim takes a run again under a token it was activated under.

Reference: `packages/store-libsql/src/store.ts` and `packages/core/src/statements/claimed-run.ts`.
-/

namespace Durablerun

open Relational

variable {s : Sys} {b : Batch} {now : ℤ} {db db' : Db} {seed queue runId passId : String}
  {name fence : Statement} {out : Outcome}

/-! ## The stamps of events -/

/-- A batch leaves no event of a stamp that is neither there nor its own. -/
def EventsOf (seed : String) (db db' : Db) : Prop :=
  ∀ e ∈ db'.events, ∀ stamp ∈ e.fenceStamp,
    (∃ e₀ ∈ db.events, e₀.fenceStamp = some stamp) ∨ stamp.seed = seed

namespace EventsOf

/-- Where the events stay, no stamp is new. -/
theorem of_eq (h : db'.events = db.events) : EventsOf seed db db' :=
  fun e he _ hs => .inl ⟨e, h ▸ he, hs⟩

/-- A completion event bears the seed's stamp. -/
theorem addTaskDone {taskId payloadJson : String} {terminal : Statement}
    (h : db'.events = db.events) :
    EventsOf seed db (addTaskDone db' seed queue taskId terminal payloadJson) := by
  have hdone : EventsOf seed db (taskDoneEvent db' seed queue taskId terminal payloadJson) := by
    unfold taskDoneEvent
    split
    · exact of_eq h
    · split
      · exact of_eq h
      · intro e he stamp hs
        obtain he | ⟨_, rfl⟩ := Table.mem_insertIgnore.mp he
        · exact of_eq h e he stamp hs
        · exact .inr (Option.some.inj hs ▸ rfl)
  exact hdone

/-- Placing a successor changes no event. -/
theorem failureSuccessor {successorId : String} {delayMs : ℤ} {state : TaskState}
    {admission : Run → Task → Prop} [∀ f t, Decidable (admission f t)]
    (hrun : failureSuccessor db seed name fence successorId runId delayMs state admission =
      some db') : db'.events = db.events := by
  obtain ⟨rfl, _⟩ | ⟨f, _, _, runs, _, _, rfl⟩ := failureSuccessor_cases hrun
  · rfl
  · rfl

/-- A rollback pass changes no event. -/
theorem sagaPass {enteringWith : Option String} {delayMs : ℤ} {admission : Run → Task → Prop}
    [∀ f t, Decidable (admission f t)]
    (hrun : sagaPass db seed queue runId passId fence enteringWith delayMs admission = some db') :
    db'.events = db.events := by
  obtain ⟨placed, hplaced, hdb'⟩ := Option.bind_eq_some_iff.mp hrun
  obtain rfl := Option.some.inj hdb'
  exact sagaPhaseMarker_events.trans (failureSuccessor hplaced)

/-- A failure's event bears the seed's stamp. -/
theorem failInto {failure : Failure} (hrun : failInto seed failure now db = some out) :
    EventsOf seed db out.db := by
  obtain ⟨passed, hpassed, hrest⟩ := Option.bind_eq_some_iff.mp hrun
  obtain ⟨retried, hretried, hout⟩ := Option.bind_eq_some_iff.mp hrest
  obtain rfl := Option.some.inj hout
  have hsaga : passed.events = db.events := by
    unfold failSagaPass at hpassed
    split at hpassed
    · exact (sagaPass hpassed).trans rollbackTries_events
    · split at hpassed
      · obtain rfl := Option.some.inj hpassed
        exact rollbackTries_events
      · exact (sagaPass hpassed).trans rollbackTries_events
  have hretry : retried.events = passed.events := by
    unfold userRetry at hretried
    split at hretried
    · obtain rfl := Option.some.inj hretried
      rfl
    · obtain ⟨placed, hplaced, rfl⟩ := Option.map_eq_some_iff.mp hretried
      have hevents : placed.events = passed.events := failureSuccessor hplaced
      exact hevents
  have hevents : retried.events = db.events := hretry.trans hsaga
  exact addTaskDone hevents

/-- The event of a swept launch bears the seed's stamp. -/
theorem sweepLostLaunch {swept : Swept} (hrun : sweepLostLaunch seed swept now db = some out) :
    EventsOf seed db out.db := by
  obtain ⟨passed, hpassed, hout⟩ := Option.bind_eq_some_iff.mp hrun
  obtain rfl := Option.some.inj hout
  have hevents := sagaPass hpassed
  exact addTaskDone hevents

/-- The event of a swept timeout bears the seed's stamp. -/
theorem sweepClaimTimeout {swept : Swept} (hrun : sweepClaimTimeout seed swept now db = some out) :
    EventsOf seed db out.db := by
  obtain ⟨placed, hplaced, hrest⟩ := Option.bind_eq_some_iff.mp hrun
  obtain ⟨passed, hpassed, hout⟩ := Option.bind_eq_some_iff.mp hrest
  obtain rfl := Option.some.inj hout
  have hplaced := failureSuccessor hplaced
  have hpassed : passed.events = placed.events := sagaPass hpassed
  exact addTaskDone (hpassed.trans hplaced)

/-- An emitted event bears the seed's stamp. -/
theorem emitEvent (call : EmitCall) : EventsOf seed db (emitEvent seed call now db).db := by
  intro e he stamp hs
  have he : e ∈ (emitEventCas db seed call now).events := he
  obtain ⟨_, he | rfl⟩ | ⟨_, he⟩ := Table.mem_upsert.mp he
  · exact .inl ⟨e, he, hs⟩
  · exact .inr (Option.some.inj hs ▸ rfl)
  · obtain ⟨_, _, _, rfl⟩ | ⟨he, _⟩ := Table.update_cases he
    · exact .inr (Option.some.inj hs ▸ rfl)
    · exact .inl ⟨e, he, hs⟩

/-- A recorded completion's event bears the seed's stamp. -/
theorem recordTaskDone (call : RecordTaskDoneCall) :
    EventsOf seed db (recordTaskDone seed call now db).db := by
  unfold Durablerun.recordTaskDone
  split
  · exact of_eq rfl
  · intro e he stamp hs
    obtain he | ⟨_, rfl⟩ := Table.mem_insertIgnore.mp he
    · exact .inl ⟨e, he, hs⟩
    · exact .inr (Option.some.inj hs ▸ rfl)

/-- Inserting a task changes no event. -/
theorem spawnTaskCas (call : SpawnCall) :
    (spawnTaskCas db seed call now).events = db.events := by
  unfold Durablerun.spawnTaskCas
  split <;> rfl

/-- Inserting a task's first run changes no event. -/
theorem spawnRun {call : SpawnCall} (hrun : spawnRun db seed call = some db') :
    db'.events = db.events := by
  unfold Durablerun.spawnRun at hrun
  split at hrun
  · exact Option.some.inj hrun ▸ rfl
  · split at hrun
    · obtain ⟨runs, _, rfl⟩ := Option.map_eq_some_iff.mp hrun
      rfl
    · exact Option.some.inj hrun ▸ rfl

/-- Inserting a revival's run changes no event. -/
theorem revivalRunInsert {call : RetryCall} (hrun : revivalRunInsert db seed call = some db') :
    db'.events = db.events := by
  unfold Durablerun.revivalRunInsert at hrun
  split at hrun
  · exact Option.some.inj hrun ▸ rfl
  · split at hrun
    · exact Option.some.inj hrun ▸ rfl
    · obtain ⟨runs, _, rfl⟩ := Option.map_eq_some_iff.mp hrun
      rfl

/-- Every batch. -/
theorem batch (hrun : b.run now db = some out) : EventsOf b.seed db out.db := by
  obtain ⟨seed, call⟩ := b
  cases call with
  | failInto failure => exact failInto hrun
  | sweepLostLaunch swept => exact sweepLostLaunch hrun
  | sweepClaimTimeout swept => exact sweepClaimTimeout hrun
  | emitEvent call => exact Option.some.inj hrun ▸ emitEvent call
  | recordTaskDone call => exact Option.some.inj hrun ▸ recordTaskDone call
  | complete held taskId resultJson => exact Option.some.inj hrun ▸ addTaskDone rfl
  | cancelTransition c => exact Option.some.inj hrun ▸ addTaskDone rfl
  | spawn call =>
    obtain ⟨placed, hplaced, hout⟩ := Option.bind_eq_some_iff.mp hrun
    obtain rfl := Option.some.inj hout
    exact of_eq ((spawnRun hplaced).trans (spawnTaskCas call))
  | retryTask call =>
    obtain ⟨placed, hplaced, hout⟩ := Option.bind_eq_some_iff.mp hrun
    obtain rfl := Option.some.inj hout
    have hevents := revivalRunInsert hplaced
    exact of_eq hevents
  | awaitEvent call => exact Option.some.inj hrun ▸ of_eq (registerWaitCas_events call)
  | suspendRun | setCheckpoint => exact Option.some.inj hrun ▸ of_eq checkpointWrite_events
  | claim | activate | heartbeat | deferLaunch | reschedule | expireLeaseNow =>
    exact Option.some.inj hrun ▸ of_eq rfl

end EventsOf

/-- Every event carries the stamp of a batch that was delivered. -/
theorem Reachable.eventStamps {again : Batch → Db → Prop} (h : Reachable again s)
    (hagain : ∀ b db, again b db → b.call.Repeatable) :
    ∀ e ∈ s.db.events, ∀ stamp ∈ e.fenceStamp, ¬ s.Fresh stamp.seed := by
  refine h.induct (P := fun s => ∀ e ∈ s.db.events, ∀ stamp ∈ e.fenceStamp, ¬ s.Fresh stamp.seed)
    hagain (fun e he => absurd he (Table.not_mem_empty e)) ?_
  intro s b now hd ih e he stamp hs hfresh
  have hof : EventsOf b.seed s.db (b.after now s.db) := by
    obtain heq | ⟨out, hrun, heq⟩ := b.after_cases now s.db
    · rw [heq]
      exact .of_eq rfl
    · rw [heq]
      exact .batch hrun
  obtain ⟨e₀, he₀, hs₀⟩ | hown := hof e he stamp hs
  · exact ih e₀ he₀ stamp hs₀ fun d hd => hfresh d (List.mem_cons_of_mem _ hd)
  · exact hfresh _ List.mem_cons_self hown.symm

/-! ## What a worker writes under a claim -/

/-- The claim a worker's write presents. -/
def Call.presents : Call → Option WorkerClaim
  | .heartbeat held _ | .reschedule held _ | .suspendRun held _ _ | .setCheckpoint held _ _ _
  | .complete held _ _ => some held
  | .awaitEvent call => some ⟨call.queue, call.runId, call.claimToken⟩
  | .failInto failure => some failure.claim
  | _ => none

/-- No run, no task and no event carries a stamp of the seed. -/
structure Unsigned (db : Db) (seed : String) : Prop extends Unused db seed where
  events : ∀ e ∈ db.events, ∀ stamp ∈ e.fenceStamp, stamp.seed ≠ seed

namespace Unsigned

/-- No run bears a stamp of a seed that is on no row. -/
theorem stampedRun (h : Unsigned db seed) : stampedRun db seed runId name = none :=
  stampedRun_eq_none.mpr fun f hf _ hs => h.runs f hf _ hs rfl

/-- A follow-on finds no run by a seed that is on no row. -/
theorem runsToTasks (h : Unsigned db seed) {where' : Run → Prop} [DecidablePred where']
    {narrow : Task → Prop} [DecidablePred narrow] {set : Table.Change Task.keys} :
    runsToTasks db seed name fence queue where' narrow set = db :=
  runsToTasks_of_forall_not fun _ _ f hf hfol => h.runs f hf _ hfol.stamp rfl

/-- A deletion of waits finds no run by a seed that is on no row. -/
theorem runsToWaits (h : Unsigned db seed) {where' : Run → Prop} [DecidablePred where']
    {narrow : Wait → Prop} [DecidablePred narrow] :
    runsToWaits db seed fence where' narrow = db := by
  unfold Durablerun.runsToWaits
  rw [Table.delete_of_forall_not]
  rintro w - ⟨⟨f, hf, hsrc, -⟩, -⟩
  exact h.runs f hf _ hsrc.2 rfl

/-- A wake finds no event by a seed that is on no row. -/
theorem wakeWaiters (h : Unsigned db seed) {eventName : String} :
    wakeWaiters db seed queue eventName = db := by
  have hrecorded : ∀ q, recordedEvent db seed q eventName = none := by
    intro q
    rw [recordedEvent, List.find?_eq_none]
    intro e he hp
    exact h.events e he _ (of_decide_eq_true hp).2.2 rfl
  have hwoken : wakeRuns db seed queue eventName = db :=
    updateRuns_of_forall_not fun r _ hg => hg.2.2.2.2.1 (hrecorded r.queue)
  unfold Durablerun.wakeWaiters
  dsimp only
  rw [hwoken, h.runsToTasks, h.runsToWaits]
  refine updateRuns_of_forall_not ?_
  rintro r - ⟨f, hf, hsrc, -⟩
  exact h.runs f hf _ hsrc.2 rfl

/-- A completion event finds no task by a seed that is on no row. -/
theorem addTaskDone (h : Unsigned db seed) {taskId payloadJson : String} :
    addTaskDone db seed queue taskId name payloadJson = db := by
  have hdone : taskDoneEvent db seed queue taskId name payloadJson = db := by
    have hnone : (db.tasks.rows.find? fun f => decide (f.taskId = taskId ∧ f.queue = queue ∧
        f.fenceStamp = some ⟨seed, name⟩)) = none := by
      rw [List.find?_eq_none]
      intro t ht hp
      exact h.tasks t ht _ (of_decide_eq_true hp).2.2 rfl
    unfold taskDoneEvent
    rw [hnone]
  unfold Durablerun.addTaskDone
  rw [hdone, h.wakeWaiters]

/-- The end of a suspension finds no run by a seed that is on no row. -/
theorem finishSuspension (h : Unsigned db seed) : finishSuspension db seed queue runId = db :=
  finishSuspension_of_unstamped h.runs

/-- A checkpoint write finds no run by a seed that is on no row. -/
theorem checkpointWrite (h : Unsigned db seed) {write : CheckpointWrite} :
    checkpointWrite db seed runId write fence = db :=
  checkpointWrite_of_none h.stampedRun

/-- A successor's insertion finds no run by a seed that is on no row. -/
theorem failureSuccessor (h : Unsigned db seed) {successorId : String} {delayMs : ℤ}
    {state : TaskState} {admission : Run → Task → Prop} [∀ f t, Decidable (admission f t)] :
    failureSuccessor db seed name fence successorId runId delayMs state admission = some db := by
  unfold Durablerun.failureSuccessor
  rw [h.stampedRun]

/-- A rollback pass finds no run by a seed that is on no row. -/
theorem sagaPass (h : Unsigned db seed) {enteringWith : Option String} {delayMs : ℤ}
    {admission : Run → Task → Prop} [∀ f t, Decidable (admission f t)] :
    sagaPass db seed queue runId passId fence enteringWith delayMs admission = some db := by
  have hmarker : sagaPhaseMarker db seed passId enteringWith = db := by
    unfold sagaPhaseMarker
    split
    · rfl
    · exact h.checkpointWrite
  unfold Durablerun.sagaPass
  rw [h.failureSuccessor]
  change some (taskRollingBack (sagaPhaseMarker db seed passId enteringWith) seed queue runId passId
    fence) = some db
  rw [hmarker]
  exact congrArg some h.runsToTasks

/-- A failure whose claim holds no run changes nothing. -/
theorem failInto (h : Unsigned db seed) (now : ℤ) {failure : Failure}
    (hnot : ∀ r ∈ db.runs, ¬ failure.claim.Holds r) :
    ∃ won, failInto seed failure now db = some ⟨db, won⟩ := by
  have hcas : failCas db seed failure now = db :=
    updateRuns_of_forall_not fun r hr hg => hnot r hr hg.1
  have htries : rollbackTries db seed failure = db := by
    unfold rollbackTries
    split
    · rfl
    · exact h.checkpointWrite
  have hpass : failSagaPass db seed failure = some db := by
    unfold failSagaPass
    split
    · exact h.sagaPass
    · split
      · rfl
      · exact h.sagaPass
  have hretry : userRetry db seed failure = some db := by
    unfold userRetry
    split
    · rfl
    · rw [h.failureSuccessor]
      exact congrArg some h.runsToTasks
  have hterminal : failTerminal db seed failure = db := h.runsToTasks
  refine ⟨wonBy .fail (∃ r ∈ db.runs, failGuard db now failure r), ?_⟩
  unfold Durablerun.failInto
  rw [hcas, htries, hpass]
  simp only [Option.bind_eq_bind, Option.bind_some]
  rw [hretry]
  simp only [Option.bind_some]
  rw [hterminal, waitsGone_of_unstamped h.runs, h.addTaskDone]
  rfl

/-- An await whose claim holds no run changes nothing. -/
theorem awaitEvent (h : Unsigned db seed) {call : AwaitCall}
    (hnot : ∀ r ∈ db.runs, ¬ whereClaimedRun call.queue call.runId call.claimToken r) :
    (awaitEvent seed call now db).db = db := by
  have hcas : registerWaitCas db seed call now = db := by
    unfold registerWaitCas
    rw [if_neg]
    rintro ⟨-, ⟨r, hr, hheld, -⟩, -⟩
    exact hnot r hr hheld
  have hpark : awaitPark db seed call = db :=
    updateRuns_of_forall_not fun r hr hg => hnot r hr hg.2.2.1
  unfold Durablerun.awaitEvent
  rw [hcas, hpark]
  exact h.runsToTasks

/-- What is written under a claim that no run is held by changes no row. -/
theorem unheld (h : Unsigned db b.seed) {held : WorkerClaim}
    (hpresents : b.call.presents = some held) (hnot : ∀ r ∈ db.runs, ¬ held.Holds r) :
    b.after now db = db := by
  obtain ⟨seed, call⟩ := b
  cases call with
  -- Each batch's compare-and-set asks for the claim, and what follows it asks for its stamp.
  | heartbeat held' ms =>
    obtain rfl := Option.some.inj hpresents
    exact updateRuns_of_forall_not fun r hr hg => hnot r hr hg.1
  | reschedule held' wake =>
    obtain rfl := Option.some.inj hpresents
    have hcas : suspendCas db seed wake now (rescheduleGuard db now held' wake) = db :=
      updateRuns_of_forall_not fun r hr hg => hnot r hr hg.1
    change Durablerun.finishSuspension (suspendCas db seed wake now _) seed _ _ = db
    rw [hcas, h.finishSuspension]
  | suspendRun held' wake checkpoint =>
    obtain rfl := Option.some.inj hpresents
    have hcas : suspendCas db seed wake now (suspendRunGuard db now held' wake checkpoint) = db :=
      updateRuns_of_forall_not fun r hr hg => hnot r hr hg.1
    change Durablerun.finishSuspension (Durablerun.checkpointWrite (suspendCas db seed wake now _)
      seed _ _ _) seed _ _ = db
    rw [hcas, h.checkpointWrite, h.finishSuspension]
  | setCheckpoint held' taskId checkpoint ms =>
    obtain rfl := Option.some.inj hpresents
    have hcas : checkpointLeaseCas db seed held' taskId checkpoint.key ms now = db :=
      updateRuns_of_forall_not fun r hr hg => hnot r hr hg.1
    change Durablerun.checkpointWrite (checkpointLeaseCas db seed held' taskId _ ms now) seed
      _ _ _ = db
    rw [hcas, h.checkpointWrite]
  | complete held' taskId resultJson =>
    obtain rfl := Option.some.inj hpresents
    have hcas : completeCas db seed held' resultJson now = db :=
      updateRuns_of_forall_not fun r hr hg => hnot r hr hg.1
    have hmirror : completeTaskMirror db seed held' resultJson = db := h.runsToTasks
    change Durablerun.addTaskDone (waitsGone (completeTaskMirror
      (completeCas db seed held' resultJson now) seed held' resultJson) seed _ _) seed _ _ _ _ = db
    rw [hcas, hmirror, waitsGone_of_unstamped h.runs, h.addTaskDone]
  | awaitEvent call =>
    obtain rfl := Option.some.inj hpresents
    exact h.awaitEvent hnot
  | failInto failure =>
    obtain rfl := Option.some.inj hpresents
    obtain ⟨won, hrun⟩ := h.failInto now hnot
    have hrun : Batch.run ⟨seed, .failInto failure⟩ now db = some ⟨db, won⟩ := hrun
    unfold Batch.after
    rw [hrun]
    rfl
  | spawn | claim | activate | deferLaunch | recordTaskDone | emitEvent | sweepLostLaunch
  | sweepClaimTimeout | cancelTransition | retryTask | expireLeaseNow => cases hpresents

end Unsigned

/-! ## Contexts -/

/-- An execution context: the run, the token it was claimed under, and the generation that was
activated. -/
structure Context where
  runId : String
  claimToken : String
  generation : ℤ
  deriving DecidableEq

/-- The delivery is of an activation that won and opened the context. -/
def Delivery.Opens (e : Delivery) (c : Context) : Prop :=
  ∃ receipt, e.batch.call = .activate receipt ∧ receipt.runId = c.runId ∧
    receipt.claimToken = c.claimToken ∧ receipt.claimGen = c.generation ∧
    e.batch.Wins e.now e.before

/-- The context was opened. -/
def Opened (history : List Delivery) (c : Context) : Prop := ∃ e ∈ history, e.Opens c

/-- The run runs under the context's claim, in the generation that was activated. -/
def Context.Authority (c : Context) (db : Db) : Prop :=
  ∃ r ∈ db.runs, r.runId = c.runId ∧ r.state = .running ∧ r.claimedBy = some c.claimToken ∧
    r.claimGen = c.generation ∧ r.activatedGen = c.generation

/-- The delivery is of a claim that takes a run again under a token it was activated under. -/
def Delivery.Retakes (e : Delivery) (older : List Delivery) : Prop :=
  ∃ call, e.batch.call = .claim call ∧ ∃ r ∈ e.before.runs, claimGuard e.before e.now call r ∧
    ∃ generation, Opened older ⟨r.runId, call.claimToken, generation⟩

/-- No claim took a run again under a token it was activated under. -/
def NoneRetaken : List Delivery → Prop
  | [] => True
  | e :: older => ¬ e.Retakes older ∧ NoneRetaken older

/-- A later delivery than the one that opened the context left the run without its authority: it was
parked, swept, cancelled, ended or claimed again. -/
def Lost (history : List Delivery) (c : Context) : Prop :=
  ∃ newer e older, history = newer ++ e :: older ∧ Opened (e :: older) c ∧ ¬ c.Authority e.after

/-- Launches and claim requests are delivered any number of times. -/
def Redelivered (b : Batch) (_ : Db) : Prop :=
  match b.call with
  | .claim _ | .activate _ => True
  | _ => False

/-- A batch that is delivered again may be repeated. -/
theorem Redelivered.repeatable (b : Batch) (db : Db) (h : Redelivered b db) :
    b.call.Repeatable := by
  unfold Redelivered at h
  split at h
  case h_1 heq => rw [heq]; trivial
  case h_2 heq => rw [heq]; trivial
  case h_3 => exact h.elim

/-- The generation a run was activated in changes only under a later claim. -/
theorem Run.Move.activatedGen {call : Call} {r r' : Run} (h : Run.Move seed now db db' call r r') :
    r'.activatedGen = r.activatedGen ∨ r.activatedGen < r.claimGen := by
  cases h with
  | activated guard => exact .inr (guard.1.2.1 ▸ guard.1.2.2.1)
  | claimed | extended | deferred | rescheduled | suspended | leased | awaited | completed | failed
  | reopened | capped | timedOut | cancelled | expired | woken => exact .inl rfl

/-- The run that a delivery leaves under the token of an open context was held under it before, in
the same generation. -/
theorem Delivers.keptAuthority {c : Context} (hd : Delivers s b now)
    (hnone : ¬ Delivery.Retakes ⟨b, now, s.db, b.after now s.db⟩ s.history)
    (hopen : Opened s.history c)
    (hgens : ∀ r ∈ s.db.runs, r.runId = c.runId → r.state = .running →
      r.claimedBy = some c.claimToken → r.claimGen = c.generation ∧ r.activatedGen = c.generation)
    {r : Run} (hr : r ∈ (b.after now s.db).runs) (hid : r.runId = c.runId)
    (hrunning : r.state = .running) (htoken : r.claimedBy = some c.claimToken) :
    c.Authority s.db ∧ r.claimGen = c.generation ∧ r.activatedGen = c.generation := by
  obtain ⟨r₀, hr₀, rfl | hm⟩ | hborn := hd.effect.runs.before r hr
  · obtain ⟨hclaim, hactivated⟩ := hgens r hr₀ hid hrunning htoken
    exact ⟨⟨r, hr₀, hid, hrunning, htoken, hclaim, hactivated⟩, hclaim, hactivated⟩
  · have hid₀ : r₀.runId = c.runId := hm.same.runId.symm.trans hid
    obtain ⟨call, hcall, hcalled, hguard, -⟩ | ⟨hrunning₀, htoken₀, hholding⟩ :=
      hm.held hrunning htoken
    · refine absurd ⟨call, hcall, r₀, hr₀, hguard, c.generation, ?_⟩ hnone
      rw [hid₀, hcalled]
      exact hopen
    · obtain ⟨hclaim, hactivated⟩ := hgens r₀ hr₀ hid₀ hrunning₀ htoken₀
      refine ⟨⟨r₀, hr₀, hid₀, hrunning₀, htoken₀, hclaim, hactivated⟩,
        hholding.claimGen.trans hclaim, ?_⟩
      -- A run whose generation was activated is not activated again under the same claim.
      refine (hm.activatedGen.resolve_right ?_).trans hactivated
      rw [hclaim, hactivated]
      exact lt_irrefl _
  · exact absurd hrunning hborn.queued.ne_running

/-- An activation that wins leaves its run in the generation it activated. -/
theorem Delivery.Opens.gens {e : Delivery} {c : Context} (h : e.Opens c) {r : Run}
    (hr : r ∈ (e.batch.after e.now e.before).runs) (hid : r.runId = c.runId) :
    r.claimGen = c.generation ∧ r.activatedGen = c.generation := by
  obtain ⟨receipt, hcall, hrun, -, hgen, out, hout, hwon⟩ := h
  obtain ⟨⟨seed, call⟩, now, db, after⟩ := e
  obtain rfl : call = .activate receipt := hcall
  obtain rfl := Option.some.inj hout
  have hguard : ∃ r ∈ db.runs, activateGuard db now receipt r := by
    by_contra hno
    exact hwon (if_neg hno)
  obtain ⟨r₀, hr₀, hg⟩ := hguard
  have hactivated : activateAssignments seed receipt now r₀ ∈
      (activate seed receipt now db).db.runs := Table.mem_update_of_pos hr₀ hg
  have hid' : r.runId = r₀.runId := hid.trans (hrun.symm.trans hg.1.1.1.symm)
  have hr : r ∈ (activate seed receipt now db).db.runs := hr
  have hsame : r = activateAssignments seed receipt now r₀ := Db.run_unique hr hactivated hid'
  rw [hsame]
  exact ⟨hg.1.2.1.trans hgen, hgen⟩

/-- Under the token of an open context its run runs in the context's generation. -/
theorem Reachable.gens (h : Reachable Redelivered s) (hnone : NoneRetaken s.history) {c : Context}
    (hopen : Opened s.history c) : ∀ r ∈ s.db.runs, r.runId = c.runId → r.state = .running →
      r.claimedBy = some c.claimToken →
        r.claimGen = c.generation ∧ r.activatedGen = c.generation := by
  refine h.induct (P := fun s => NoneRetaken s.history → Opened s.history c → ∀ r ∈ s.db.runs,
    r.runId = c.runId → r.state = .running → r.claimedBy = some c.claimToken →
      r.claimGen = c.generation ∧ r.activatedGen = c.generation) Redelivered.repeatable ?_ ?_
    hnone hopen
  · rintro - ⟨e, he, -⟩
    exact absurd he List.not_mem_nil
  · rintro s b now hd ih ⟨hretakes, hnone⟩ ⟨e, he, hopens⟩ r hr hid hrunning htoken
    rcases List.mem_cons.mp he with rfl | he
    · exact hopens.gens hr hid
    · have hopen : Opened s.history c := ⟨e, he, hopens⟩
      exact (hd.keptAuthority hretakes hopen (ih hnone hopen) hr hid hrunning htoken).2

/-- A context that lost its authority never has it again. -/
theorem Reachable.lost (h : Reachable Redelivered s) (hnone : NoneRetaken s.history) {c : Context}
    (hlost : Lost s.history c) : ¬ c.Authority s.db := by
  induction h with
  | init =>
    obtain ⟨newer, e, older, heq, -⟩ := hlost
    exact absurd heq (by simp [Sys.init])
  | @step s _ hreach hstep ih =>
    obtain ⟨b, now, rfl, hd⟩ := (hreach.course Redelivered.repeatable).step Redelivered.repeatable
      hstep
    obtain ⟨newer, e, older, heq, hopen, hgone⟩ := hlost
    rcases newer with _ | ⟨e', newer⟩
    · obtain ⟨rfl, rfl⟩ := List.cons.inj heq
      exact hgone
    · obtain ⟨rfl, hhistory⟩ := List.cons.inj heq
      have hopen' : Opened s.history c := by
        obtain ⟨d, hd, hopens⟩ := hopen
        exact ⟨d, hhistory ▸ List.mem_append_right newer hd, hopens⟩
      have hlost' := ih hnone.2 ⟨newer, e, older, hhistory, hopen, hgone⟩
      rintro ⟨r, hr, hid, hrunning, htoken, -⟩
      exact hlost' (hd.keptAuthority hnone.1 hopen' (hreach.gens hnone.2 hopen') hr hid hrunning
        htoken).1

/-- While no claim takes a run again under a token it was activated under, what a context writes
changes a row only where its run runs in the context's generation, and changes none once the context
lost that. -/
theorem lease_authority (h : Reachable Redelivered s) (hnone : NoneRetaken s.history) {c : Context}
    (hopen : Opened s.history c) {held : WorkerClaim} (hpresents : b.call.presents = some held)
    (hrunId : held.runId = c.runId) (htoken : held.claimToken = c.claimToken)
    (hfresh : s.Fresh b.seed) (now : ℤ) :
    (b.after now s.db ≠ s.db → c.Authority s.db) ∧
      (Lost s.history c → b.after now s.db = s.db) := by
  have hcourse := h.course Redelivered.repeatable
  have hunsigned : Unsigned s.db b.seed :=
    { hcourse.unused _ hfresh with
      events := fun e he stamp hs heq =>
        (h.eventStamps Redelivered.repeatable) e he stamp hs (heq ▸ hfresh) }
  have hauthority : b.after now s.db ≠ s.db → c.Authority s.db := by
    refine fun hchanged => by_contra fun hno => hchanged (hunsigned.unheld hpresents ?_)
    rintro r hr ⟨hid, -, hclaimed, hrunning⟩
    rw [hrunId] at hid
    rw [htoken] at hclaimed
    obtain ⟨hclaim, hactivated⟩ := h.gens hnone hopen r hr hid hrunning hclaimed
    exact hno ⟨r, hr, hid, hrunning, hclaimed, hclaim, hactivated⟩
  exact ⟨hauthority, fun hlost => by_contra fun hchanged =>
    h.lost hnone hlost (hauthority hchanged)⟩

/-! ## A claim that is delivered again after its run was parked -/

instance (c : Context) (db : Db) : Decidable (c.Authority db) :=
  inferInstanceAs (Decidable (∃ r ∈ db.runs, _))

def parkOne : Batch := ⟨"b4", .reschedule ⟨"q", "r1", "w1"⟩ (.inMs 0)⟩

/-- The worker parks its run, which is due at once, and the claim request comes again. -/
def retakenOne : Sys := (runningOne.deliver parkOne 3).deliver claimOne 4

/-- The store whose run was retaken under its token is reachable. -/
theorem retakenOne_reachable : Reachable Redelivered retakenOne := by
  have hparked : Reachable Redelivered (runningOne.deliver parkOne 3) :=
    .step (runningOne_reachable _) (.first _ _ (by decide) (by decide) trivial)
  exact .step hparked (.again _ _ (by decide) (by decide) trivial)

def contextOne : Context := ⟨"r1", "w1", 1⟩

/-- The worker's context was opened in the history. -/
theorem contextOne_opened : Opened runningOne.history contextOne :=
  ⟨_, List.mem_cons_self, _, rfl, rfl, rfl, rfl, _, rfl, by decide⟩

def beatOne : Batch := ⟨"b5", .heartbeat ⟨"q", "r1", "w1"⟩ 1000⟩

/-- The worker that parked the run extends the lease of its second claim. -/
theorem retaken_lease :
    ¬ ∀ (s : Sys) (c : Context) (b : Batch) (held : WorkerClaim) (now : ℤ),
      Reachable Redelivered s → Opened s.history c → b.call.presents = some held →
        held.runId = c.runId → held.claimToken = c.claimToken → s.Fresh b.seed → s.clock ≤ now →
          b.after now s.db ≠ s.db → c.Authority s.db := by
  intro h
  have hopen : Opened retakenOne.history contextOne := by
    obtain ⟨e, he, hopens⟩ := contextOne_opened
    exact ⟨e, List.mem_cons_of_mem _ (List.mem_cons_of_mem _ he), hopens⟩
  refine absurd (h retakenOne contextOne beatOne _ 5 retakenOne_reachable hopen rfl rfl rfl
    (by decide) (by decide) fun heq => ?_) (by decide)
  exact absurd (congrArg (fun db => db.runs.rows.map Run.claimExpiresAtMs) heq) (by decide)

/-- No run of that history was retaken under its token. -/
theorem runningOne_noneRetaken : NoneRetaken runningOne.history := by
  refine ⟨?_, ?_, ?_, trivial⟩
  · rintro ⟨call, hcall, -⟩
    cases hcall
  · rintro ⟨call, -, r, -, -, generation, e, he, receipt, hcall, -⟩
    obtain rfl := List.mem_singleton.mp he
    cases hcall
  · rintro ⟨call, hcall, -⟩
    cases hcall

/-- A heartbeat that takes effect has authority, and one that lost it takes none. -/
theorem lease_authority_runningOne :
    (beatOne.after 3 runningOne.db ≠ runningOne.db → contextOne.Authority runningOne.db) ∧
      (Lost runningOne.history contextOne → beatOne.after 3 runningOne.db = runningOne.db) :=
  lease_authority (runningOne_reachable _) runningOne_noneRetaken contextOne_opened rfl rfl rfl
    (by decide) 3

end Durablerun
