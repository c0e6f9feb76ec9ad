import Durablerun.Store.EventFacts

/-!
# The instants of the rows

What the port's checks of durations and instants let through, and what follows of what is stored: no
row carries an instant before the epoch. A batch takes its instants from the clock, from the rows it
fences, and from the durations it was handed, none of them negative.

Reference: `packages/core/src/contract.ts`.
-/

namespace Durablerun

open Relational

variable {s : Sys} {b : Batch} {seed queue : String} {now : ℤ} {db db' : Db} {name fence : Statement}
  {call : Call} {out : Outcome}

/-! ## What the port's checks let through -/

/-- `durationToMs`: a duration of the caller's, in milliseconds. -/
def durationBounds : IntegerBounds := ⟨0, MAX_DURATION_MS⟩

/-- `durationToMs` with `positive`. -/
def positiveDurationBounds : IntegerBounds := ⟨1, MAX_DURATION_MS⟩

/-- `prepareWake`'s checks. -/
def WakeSpec.Valid : WakeSpec → Prop
  | inMs delay => durationBounds.Within delay
  | atEpochMs instant => epochBounds.Within instant

/-- `normalizeRetryStrategy`'s checks. -/
def RetryStrategy.Valid : RetryStrategy → Prop
  | none => True
  | fixed baseMs => durationBounds.Within baseMs
  | exponential baseMs factor maxMs =>
    durationBounds.Within baseMs ∧ 0 ≤ factor ∧ durationBounds.Within maxMs

/-- What the checks of `spawn`'s options make of them: durations in their bounds, and headers
serialized from one object. -/
structure SpawnCall.Valid (call : SpawnCall) : Prop where
  delayMs : durationBounds.Within call.delayMs
  retryStrategy : call.retryStrategy.Valid
  headers : ∀ headers ∈ call.headers, (headers.map Prod.fst).Nodup
  cancellation : ∀ policy ∈ call.cancellation,
    (∀ d ∈ policy.maxDelayMs, durationBounds.Within d) ∧
      ∀ d ∈ policy.maxDurationMs, durationBounds.Within d

/-- What the checks of a failure's delays let through. -/
structure Failure.Valid (failure : Failure) : Prop where
  retryDelayMs : ∀ delay ∈ failure.retryDelayMs, durationBounds.Within delay
  passDelayMs : ∀ rollback ∈ failure.rollback, ∀ delay ∈ rollback.passDelayMs,
    durationBounds.Within delay

/-- The checks of a call's durations and instants. -/
def Call.Valid : Call → Prop
  | .spawn call => call.Valid
  | .claim call => positiveDurationBounds.Within call.leaseMs ∧ 0 < call.limit
  | .heartbeat _ extensionMs => positiveDurationBounds.Within extensionMs
  | .deferLaunch _ delayMs => durationBounds.Within delayMs
  | .reschedule _ wake | .suspendRun _ wake _ => wake.Valid
  | .awaitEvent call => ∀ timeout ∈ call.timeoutMs, positiveDurationBounds.Within timeout
  | .setCheckpoint _ _ _ extendMs => positiveDurationBounds.Within extendMs
  | .failInto failure => failure.Valid
  | .activate _ | .recordTaskDone _ | .emitEvent _ | .complete _ _ _ | .sweepLostLaunch _
  | .sweepClaimTimeout _ | .cancelTransition _ | .retryTask _ | .expireLeaseNow _ => True

/-- What holds at first and is kept by every delivery of a valid call holds of every state whose
calls were valid. -/
theorem Reachable.induct_valid {P : Sys → Prop} (h : Reachable Repeats s)
    (hvalid : ∀ e ∈ s.history, e.batch.call.Valid) (hinit : P .init)
    (hstep : ∀ s b now, Reachable Repeats s → Delivers s b now → b.call.Valid → P s →
      P (s.deliver b now)) : P s := by
  have hagain : ∀ b db, Repeats b db → b.call.Repeatable := fun _ _ hrepeats => hrepeats
  induction h with
  | init => exact hinit
  | step hreach hone ih =>
    obtain ⟨b, now, rfl, hd⟩ := (hreach.course hagain).step hagain hone
    have hbefore := ih fun e he => hvalid e (List.mem_cons_of_mem _ he)
    exact hstep _ b now hreach hd (hvalid _ List.mem_cons_self) hbefore

/-- The history of the store with one running task is a spawn, a claim and an activation. -/
theorem runningOne_calls (e : Delivery) (he : e ∈ runningOne.history) :
    e.batch = activateOne ∨ e.batch = claimOne ∨ e.batch = spawnOne := by
  have hcalls : e.batch ∈ [activateOne, claimOne, spawnOne] := List.mem_map_of_mem he
  simpa only [List.mem_cons, List.not_mem_nil, or_false] using hcalls

/-- Each of its calls is valid. -/
theorem runningOne_valid (e : Delivery) (he : e ∈ runningOne.history) : e.batch.call.Valid := by
  obtain h | h | h := runningOne_calls e he
  · rw [h]
    exact trivial
  · rw [h]
    exact ⟨by decide, by decide⟩
  · rw [h]
    exact ⟨by decide, trivial, by decide, by decide⟩

/-! ## Rows -/

structure Task.FromEpoch (t : Task) : Prop where
  fenced : 0 ≤ t.fenceAtMs
  enqueued : 0 ≤ t.enqueueAtMs

structure Run.FromEpoch (r : Run) : Prop where
  fenced : 0 ≤ r.fenceAtMs
  available : ∀ v ∈ r.availableAtMs, 0 ≤ v

structure Wait.FromEpoch (w : Wait) : Prop where
  fenced : 0 ≤ w.fenceAtMs
  timeout : ∀ v ∈ w.timeoutAtMs, 0 ≤ v

structure Event.FromEpoch (e : Event) : Prop where
  fenced : 0 ≤ e.fenceAtMs
  emitted : 0 ≤ e.emittedAtMs

/-- No row carries an instant before the epoch. -/
structure Db.FromEpoch (db : Db) : Prop where
  tasks : ∀ t ∈ db.tasks, t.FromEpoch
  runs : ∀ r ∈ db.runs, r.FromEpoch
  waits : ∀ w ∈ db.waits, w.FromEpoch
  events : ∀ e ∈ db.events, e.FromEpoch

/-- An empty store holds no instant before the epoch. -/
theorem Db.FromEpoch.empty : Db.empty.FromEpoch where
  tasks := fun t ht => absurd ht (Table.not_mem_empty t)
  runs := fun r hr => absurd hr (Table.not_mem_empty r)
  waits := fun w hw => absurd hw (Table.not_mem_empty w)
  events := fun e he => absurd he (Table.not_mem_empty e)

/-! ## Statements -/

/-- The instant of rows that are not before the epoch is not before it. -/
theorem sourceInstant_nonneg {instants : List ℤ} (h : ∀ x ∈ instants, 0 ≤ x) :
    0 ≤ sourceInstant instants := by
  unfold sourceInstant
  cases hmin : instants.min? with
  | none => exact le_rfl
  | some x => exact h x (List.min?_mem hmin)

namespace Db.FromEpoch

/-- An update of runs that sets no instant before the epoch leaves none. -/
theorem updateRuns (h : db.FromEpoch) {p : Run → Prop} [DecidablePred p] {f : Table.Change Run.keys}
    (hf : ∀ r ∈ db.runs, p r → r.FromEpoch → (f r).FromEpoch) :
    ({ db with runs := db.runs.update p f } : Db).FromEpoch :=
  ⟨h.tasks, Table.forall_update h.runs hf, h.waits, h.events⟩

/-- An update of tasks that sets no instant before the epoch leaves none. -/
theorem updateTasks (h : db.FromEpoch) {p : Task → Prop} [DecidablePred p]
    {f : Table.Change Task.keys} (hf : ∀ t ∈ db.tasks, p t → t.FromEpoch → (f t).FromEpoch) :
    ({ db with tasks := db.tasks.update p f } : Db).FromEpoch :=
  ⟨Table.forall_update h.tasks hf, h.runs, h.waits, h.events⟩

/-- A run is added. -/
theorem insertRun (h : db.FromEpoch) {runs : Table Run Run.keys} {p : Run}
    (hruns : ∀ r, r ∈ runs ↔ r ∈ db.runs ∨ r = p) (hp : p.FromEpoch) :
    ({ db with runs } : Db).FromEpoch := by
  refine ⟨h.tasks, fun r hr => ?_, h.waits, h.events⟩
  obtain hr | rfl := (hruns r).mp hr
  · exact h.runs r hr
  · exact hp

/-- The instant of the runs that a statement follows is not before the epoch. -/
theorem source_runs (h : db.FromEpoch) {p : Run → Prop} [DecidablePred p] :
    0 ≤ sourceInstant ((db.runs.rows.filter p).map Run.fenceAtMs) := by
  refine sourceInstant_nonneg fun x hx => ?_
  obtain ⟨r, hr, rfl⟩ := List.mem_map.mp hx
  exact (h.runs r (List.mem_of_mem_filter hr)).fenced

/-- A follow-on that carries runs to tasks leaves no instant before the epoch. -/
theorem runsToTasks (h : db.FromEpoch) {where' : Run → Prop} [DecidablePred where']
    {narrow : Task → Prop} [DecidablePred narrow] {set : Table.Change Task.keys}
    (hset : ∀ t : Task, (set t).enqueueAtMs = t.enqueueAtMs) :
    (runsToTasks db seed name fence queue where' narrow set).FromEpoch := by
  refine h.updateTasks fun t _ _ ht => ⟨h.source_runs, ?_⟩
  show 0 ≤ (set t).enqueueAtMs
  rw [hset]
  exact ht.enqueued

/-- A deletion of waits leaves no instant before the epoch. -/
theorem runsToWaits (h : db.FromEpoch) {where' : Run → Prop} [DecidablePred where']
    {narrow : Wait → Prop} [DecidablePred narrow] :
    (runsToWaits db seed fence where' narrow).FromEpoch :=
  ⟨h.tasks, h.runs, fun w hw => h.waits w (Table.mem_delete.mp hw).1, h.events⟩

/-- A follow-on that carries tasks to runs leaves no instant before the epoch. -/
theorem tasksToRuns (h : db.FromEpoch) {where' : Task → Prop} [DecidablePred where']
    {narrow : Run → Prop} [DecidablePred narrow] {set : Table.Change Run.keys}
    (hset : ∀ r : Run, r.FromEpoch → ∀ v ∈ (set r).availableAtMs, 0 ≤ v) :
    (tasksToRuns db seed name fence queue where' narrow set).FromEpoch := by
  refine h.updateRuns fun r _ _ hr => ⟨?_, hset r hr⟩
  refine sourceInstant_nonneg fun x hx => ?_
  obtain ⟨t, ht, rfl⟩ := List.mem_map.mp hx
  exact (h.tasks t (List.mem_of_mem_filter ht)).fenced

/-- A follow-on that carries waits to runs leaves no instant before the epoch. -/
theorem waitsToRuns (h : db.FromEpoch) {where' : Wait → Prop} [DecidablePred where']
    {narrow : Run → Prop} [DecidablePred narrow] {set : Table.Change Run.keys}
    (hset : ∀ r : Run, r.FromEpoch → ∀ v ∈ (set r).availableAtMs, 0 ≤ v) :
    (waitsToRuns db seed name fence queue where' narrow set).FromEpoch := by
  refine h.updateRuns fun r _ _ hr => ⟨?_, hset r hr⟩
  refine sourceInstant_nonneg fun x hx => ?_
  obtain ⟨w, hw, rfl⟩ := List.mem_map.mp hx
  exact (h.waits w (List.mem_of_mem_filter hw)).fenced

/-- Sealing runs leaves no instant before the epoch. -/
theorem sealRuns (h : db.FromEpoch) {where' : Run → Prop} [DecidablePred where'] :
    (sealRuns db seed name fence where').FromEpoch :=
  h.updateRuns fun _ _ _ hr => ⟨h.source_runs, hr.available⟩

/-- A checkpoint write leaves no instant before the epoch. -/
theorem checkpointWrite (h : db.FromEpoch) {runId : String} {write : CheckpointWrite} :
    (checkpointWrite db seed runId write fence).FromEpoch := by
  unfold Durablerun.checkpointWrite
  split
  · exact h
  · split
    · exact ⟨h.tasks, h.runs, h.waits, h.events⟩
    · exact h

/-- A successor placed after a delay is not before the epoch. -/
theorem failureSuccessor (h : db.FromEpoch) {successorId runId : String} {delayMs : ℤ}
    {state : TaskState} {admission : Run → Task → Prop} [∀ f t, Decidable (admission f t)]
    (hdelay : 0 ≤ delayMs)
    (hrun : failureSuccessor db seed name fence successorId runId delayMs state admission =
      some db') : db'.FromEpoch := by
  obtain ⟨rfl, _⟩ | ⟨f, hf, _, runs, _, hruns, rfl⟩ := failureSuccessor_cases hrun
  · exact h
  · have hfenced := (h.runs f (stampedRun_eq_some.mp hf).1).fenced
    refine h.insertRun hruns ⟨hfenced, fun v hv => ?_⟩
    obtain rfl := Option.some.inj hv
    exact Int.add_nonneg hfenced hdelay

/-- A rollback pass placed after a delay is not before the epoch. -/
theorem sagaPass (h : db.FromEpoch) {runId passId : String} {enteringWith : Option String}
    {delayMs : ℤ} {admission : Run → Task → Prop} [∀ f t, Decidable (admission f t)]
    (hdelay : 0 ≤ delayMs)
    (hrun : sagaPass db seed queue runId passId fence enteringWith delayMs admission = some db') :
    db'.FromEpoch := by
  obtain ⟨placed, hplaced, hdb'⟩ := Option.bind_eq_some_iff.mp hrun
  obtain rfl := Option.some.inj hdb'
  have hfrom := h.failureSuccessor hdelay hplaced
  have hmarked : (sagaPhaseMarker placed seed passId enteringWith).FromEpoch := by
    unfold sagaPhaseMarker
    split
    · exact hfrom
    · exact hfrom.checkpointWrite
  exact hmarked.runsToTasks fun _ => rfl

/-- Waking runs leaves no instant before the epoch. -/
theorem wakeRuns (h : db.FromEpoch) {eventName : String} :
    (wakeRuns db seed queue eventName).FromEpoch := by
  refine h.updateRuns fun r _ hg _ => ?_
  obtain ⟨e, hrecorded⟩ := Option.ne_none_iff_exists'.mp hg.2.2.2.2.1
  have he : e ∈ db.events := List.mem_of_find?_eq_some hrecorded
  refine ⟨?_, fun v hv => ?_⟩
  · show 0 ≤ ((recordedEvent db seed r.queue eventName).map Event.fenceAtMs).getD 0
    rw [hrecorded]
    exact (h.events e he).fenced
  · have hv : v ∈ (recordedEvent db seed r.queue eventName).map Event.fenceAtMs := hv
    rw [hrecorded] at hv
    obtain rfl := Option.some.inj hv
    exact (h.events e he).fenced

/-- Waking the waiters leaves no instant before the epoch. -/
theorem wakeWaiters (h : db.FromEpoch) {eventName : String} :
    (wakeWaiters db seed queue eventName).FromEpoch := by
  have hwoken : (Durablerun.wakeRuns db seed queue eventName).FromEpoch := h.wakeRuns
  exact (hwoken.runsToTasks fun _ => rfl).runsToWaits.sealRuns

/-- A completion event's insertion leaves no instant before the epoch. -/
theorem taskDoneEvent (h : db.FromEpoch) {taskId payloadJson : String} {terminal : Statement} :
    (taskDoneEvent db seed queue taskId terminal payloadJson).FromEpoch := by
  unfold Durablerun.taskDoneEvent
  split
  · exact h
  · rename_i f hf
    split
    · exact h
    · have hfenced := (h.tasks f (List.mem_of_find?_eq_some hf)).fenced
      refine ⟨h.tasks, h.runs, h.waits, fun e he => ?_⟩
      obtain he | ⟨_, rfl⟩ := Table.mem_insertIgnore.mp he
      · exact h.events e he
      · exact ⟨hfenced, hfenced⟩

/-- A completion event leaves no instant before the epoch. -/
theorem addTaskDone (h : db.FromEpoch) {taskId payloadJson : String} {terminal : Statement} :
    (addTaskDone db seed queue taskId terminal payloadJson).FromEpoch :=
  h.taskDoneEvent.wakeWaiters

/-- The end of a suspension leaves no instant before the epoch. -/
theorem finishSuspension (h : db.FromEpoch) {runId : String} :
    (finishSuspension db seed queue runId).FromEpoch :=
  (h.runsToTasks fun _ => rfl).runsToWaits

/-! ## Batches -/

/-- A claim leaves no instant before the epoch. -/
theorem claim (h : db.FromEpoch) (hnow : 0 ≤ now) (call : ClaimCall) :
    (claim seed call now db).db.FromEpoch := by
  have hcas : (claimCas db seed call now).FromEpoch :=
    h.updateRuns fun _ _ _ hr => ⟨hnow, hr.available⟩
  exact (hcas.runsToTasks fun _ => rfl).runsToWaits

/-- An activation leaves no instant before the epoch. -/
theorem activate (h : db.FromEpoch) (hnow : 0 ≤ now) (receipt : ClaimReceipt) :
    (activate seed receipt now db).db.FromEpoch := by
  have hcas : (activateCas db seed receipt now).FromEpoch :=
    h.updateRuns fun _ _ _ hr => ⟨hnow, hr.available⟩
  exact hcas.runsToTasks fun _ => rfl

/-- A launch deferred by a delay leaves no instant before the epoch. -/
theorem deferLaunch (h : db.FromEpoch) (hnow : 0 ≤ now) (receipt : ClaimReceipt) {delayMs : ℤ}
    (hdelay : 0 ≤ delayMs) : (deferLaunch seed receipt delayMs now db).db.FromEpoch := by
  have hcas : (deferLaunchCas db seed receipt delayMs now).FromEpoch := by
    refine h.updateRuns fun _ _ _ _ => ⟨hnow, fun v hv => ?_⟩
    obtain rfl := Option.some.inj hv
    exact Int.add_nonneg hnow hdelay
  exact hcas.finishSuspension

/-- A suspension's compare-and-set, of a wake the checks let through. -/
theorem suspendCas (h : db.FromEpoch) (hnow : 0 ≤ now) {wake : WakeSpec} (hwake : wake.Valid)
    {guard : Run → Prop} [DecidablePred guard] : (suspendCas db seed wake now guard).FromEpoch := by
  refine h.updateRuns fun _ _ _ _ => ⟨hnow, fun v hv => ?_⟩
  obtain rfl := Option.some.inj hv
  cases wake with
  | inMs delay => exact Int.add_nonneg hnow hwake.1
  | atEpochMs instant => exact hwake.1

/-- A suspension with a valid wake leaves no instant before the epoch. -/
theorem suspendRun (h : db.FromEpoch) (hnow : 0 ≤ now) (held : WorkerClaim) {wake : WakeSpec}
    (hwake : wake.Valid) (checkpoint : CheckpointWrite) :
    (suspendRun seed held wake checkpoint now db).db.FromEpoch :=
  (h.suspendCas hnow hwake).checkpointWrite.finishSuspension

/-- A checkpoint leaves no instant before the epoch. -/
theorem setCheckpoint (h : db.FromEpoch) (hnow : 0 ≤ now) (held : WorkerClaim) (taskId : String)
    (checkpoint : CheckpointWrite) (extendMs : ℤ) :
    (setCheckpoint seed held taskId checkpoint extendMs now db).db.FromEpoch := by
  have hcas : (checkpointLeaseCas db seed held taskId checkpoint.key extendMs now).FromEpoch :=
    h.updateRuns fun _ _ _ hr => ⟨hnow, hr.available⟩
  exact hcas.checkpointWrite

/-- An await leaves no instant before the epoch, whatever its timeout. -/
theorem awaitEvent (h : db.FromEpoch) (hnow : 0 ≤ now) {call : AwaitCall}
    (htimeout : ∀ timeout ∈ call.timeoutMs, 0 ≤ timeout) :
    (awaitEvent seed call now db).db.FromEpoch := by
  have hregister : (registerWaitCas db seed call now).FromEpoch := by
    unfold registerWaitCas
    split
    · refine ⟨h.tasks, h.runs, fun w hw => ?_, h.events⟩
      obtain hw | ⟨_, rfl⟩ := Table.mem_insertIgnore.mp hw
      · exact h.waits w hw
      · refine ⟨hnow, fun v hv => ?_⟩
        obtain ⟨timeout, ht, rfl⟩ := Option.mem_map.mp hv
        exact Int.add_nonneg hnow (htimeout timeout ht)
    · exact h
  have hpark : (awaitPark (registerWaitCas db seed call now) seed call).FromEpoch := by
    refine hregister.waitsToRuns fun r _ v hv => ?_
    obtain ⟨w, hw, hv⟩ := Option.bind_eq_some_iff.mp hv
    exact (hregister.waits w (List.mem_of_find?_eq_some hw)).timeout v hv
  exact hpark.runsToTasks fun _ => rfl

/-- A recorded completion leaves no instant before the epoch. -/
theorem recordTaskDone (h : db.FromEpoch) (hnow : 0 ≤ now) (call : RecordTaskDoneCall) :
    (recordTaskDone seed call now db).db.FromEpoch := by
  unfold Durablerun.recordTaskDone
  split
  · exact h
  · refine ⟨h.tasks, h.runs, h.waits, fun e he => ?_⟩
    obtain he | ⟨_, rfl⟩ := Table.mem_insertIgnore.mp he
    · exact h.events e he
    · exact ⟨hnow, hnow⟩

/-- An emission leaves no instant before the epoch. -/
theorem emitEvent (h : db.FromEpoch) (hnow : 0 ≤ now) (call : EmitCall) :
    (emitEvent seed call now db).db.FromEpoch := by
  have hcas : (emitEventCas db seed call now).FromEpoch := by
    refine ⟨h.tasks, h.runs, h.waits, fun e he => ?_⟩
    obtain ⟨_, he | rfl⟩ | ⟨_, he⟩ := Table.mem_upsert.mp he
    · exact h.events e he
    · exact ⟨hnow, hnow⟩
    · exact Table.forall_update h.events (fun e _ _ he => ⟨he.emitted, he.emitted⟩) e he
  exact hcas.wakeWaiters

/-- A completion leaves no instant before the epoch. -/
theorem complete (h : db.FromEpoch) (hnow : 0 ≤ now) (held : WorkerClaim)
    (taskId resultJson : String) : (complete seed held taskId resultJson now db).db.FromEpoch := by
  have hcas : (completeCas db seed held resultJson now).FromEpoch :=
    h.updateRuns fun _ _ _ hr => ⟨hnow, hr.available⟩
  exact (hcas.runsToTasks fun _ => rfl).runsToWaits.addTaskDone

/-- A failure with valid delays leaves no instant before the epoch. -/
theorem failInto (h : db.FromEpoch) (hnow : 0 ≤ now) {failure : Failure} (hvalid : failure.Valid)
    (hrun : failInto seed failure now db = some out) : out.db.FromEpoch := by
  have hcas : (failCas db seed failure now).FromEpoch :=
    h.updateRuns fun _ _ _ hr => ⟨hnow, hr.available⟩
  have htried : (rollbackTries (failCas db seed failure now) seed failure).FromEpoch := by
    unfold rollbackTries
    split
    · exact hcas
    · exact hcas.checkpointWrite
  obtain ⟨passed, hpassed, hrun⟩ := Option.bind_eq_some_iff.mp hrun
  obtain ⟨retried, hretried, hout⟩ := Option.bind_eq_some_iff.mp hrun
  obtain rfl := Option.some.inj hout
  have hpass : passed.FromEpoch := by
    unfold failSagaPass at hpassed
    split at hpassed
    · exact htried.sagaPass le_rfl hpassed
    · rename_i rollback hrollback
      split at hpassed
      · exact Option.some.inj hpassed ▸ htried
      · rename_i delay hdelay
        exact htried.sagaPass (hvalid.passDelayMs rollback hrollback delay hdelay).1 hpassed
  have hretry : retried.FromEpoch := by
    unfold userRetry at hretried
    split at hretried
    · exact Option.some.inj hretried ▸ hpass
    · rename_i delay hdelay
      obtain ⟨placed, hplaced, rfl⟩ := Option.map_eq_some_iff.mp hretried
      exact (hpass.failureSuccessor (hvalid.retryDelayMs delay hdelay).1 hplaced).runsToTasks
        fun _ => rfl
  exact (hretry.runsToTasks fun _ => rfl).runsToWaits.addTaskDone

/-- The sweep of a lost launch leaves no instant before the epoch. -/
theorem sweepLostLaunch (h : db.FromEpoch) (hnow : 0 ≤ now) {swept : Swept}
    (hcounted : ∀ r ∈ db.runs, 0 ≤ r.relaunchCount)
    (hrun : sweepLostLaunch seed swept now db = some out) : out.db.FromEpoch := by
  have hreopened : (reopenLostLaunchCas db seed swept now).FromEpoch := by
    refine h.updateRuns fun r hr _ _ => ⟨hnow, fun v hv => ?_⟩
    obtain rfl := Option.some.inj hv
    have hdelay : 0 ≤ relaunchDelayMs r := by
      have hcount := hcounted r hr
      simp only [relaunchDelayMs, RELAUNCH_BACKOFF_BASE_SECONDS, RELAUNCH_BACKOFF_MAX_SECONDS]
      omega
    exact Int.add_nonneg hnow hdelay
  have hcapped : (capLostLaunchCas (reopenLostLaunchCas db seed swept now) seed swept now).FromEpoch :=
    hreopened.updateRuns fun _ _ _ hr => ⟨hnow, hr.available⟩
  obtain ⟨passed, hpassed, hout⟩ := Option.bind_eq_some_iff.mp hrun
  obtain rfl := Option.some.inj hout
  have hpass : passed.FromEpoch := hcapped.sagaPass le_rfl hpassed
  have hpending : (taskPending passed seed swept).FromEpoch := hpass.runsToTasks fun _ => rfl
  exact (hpending.runsToTasks fun _ => rfl).runsToWaits.addTaskDone

/-- The sweep of a timeout leaves no instant before the epoch. -/
theorem sweepClaimTimeout (h : db.FromEpoch) (hnow : 0 ≤ now) {swept : Swept}
    (hrun : sweepClaimTimeout seed swept now db = some out) : out.db.FromEpoch := by
  have hcas : (failClaimTimeoutCas db seed swept now).FromEpoch :=
    h.updateRuns fun _ _ _ hr => ⟨hnow, hr.available⟩
  obtain ⟨placed, hplaced, hrun⟩ := Option.bind_eq_some_iff.mp hrun
  obtain ⟨passed, hpassed, hout⟩ := Option.bind_eq_some_iff.mp hrun
  obtain rfl := Option.some.inj hout
  have hplace : placed.FromEpoch := hcas.failureSuccessor (by decide) hplaced
  have hpass : passed.FromEpoch := hplace.sagaPass le_rfl hpassed
  have hterminal : (timeoutTerminal passed seed swept).FromEpoch := hpass.runsToTasks fun _ => rfl
  exact (hterminal.runsToTasks fun _ => rfl).runsToWaits.addTaskDone

/-- A cancellation leaves no instant before the epoch. -/
theorem cancelTransition (h : db.FromEpoch) (hnow : 0 ≤ now) (c : Cancellation) :
    (cancelTransition seed c now db).db.FromEpoch := by
  have hcas : (cancelCas db seed c now).FromEpoch :=
    h.updateTasks fun _ _ _ ht => ⟨hnow, ht.enqueued⟩
  have hruns : (cancelRuns (cancelCas db seed c now) seed c).FromEpoch :=
    hcas.tasksToRuns fun _ hr => hr.available
  exact hruns.runsToWaits.addTaskDone

end Db.FromEpoch

/-- A delivery of a valid call, at an instant of the epoch, stores no instant before it. -/
theorem Delivers.fromEpoch (hd : Delivers s b now) (hnow : 0 ≤ now) (hvalid : b.call.Valid)
    (hcounted : ∀ r ∈ s.db.runs, 0 ≤ r.relaunchCount) (h : s.db.FromEpoch) :
    (b.after now s.db).FromEpoch := by
  obtain heq | ⟨out, hrun, heq⟩ := b.after_cases now s.db
  · rwa [heq]
  rw [heq]
  have hinv := hd.course.inv
  have hadm := hd.admitted
  obtain ⟨seed, call⟩ := b
  cases call with
  | spawn call =>
    obtain ⟨hsame, _⟩ | ⟨_, hfree, runs, hruns, hdb, _⟩ := spawn_cases hadm hinv hrun
    · rwa [hsame]
    -- Every instant a batch stores is its clock, or its clock and a duration the port checked.
    · have henqueue : 0 ≤ now + call.delayMs := Int.add_nonneg hnow hvalid.delayMs.1
      rw [hdb]
      refine ⟨fun t ht => ?_, fun r hr => ?_, h.waits, h.events⟩
      · obtain ht | rfl := (Table.mem_push hfree).mp ht
        · exact h.tasks t ht
        · exact ⟨hnow, henqueue⟩
      · obtain hr | rfl := (hruns r).mp hr
        · exact h.runs r hr
        · exact ⟨hnow, fun v hv => Option.some.inj hv ▸ henqueue⟩
  | claim call => exact Option.some.inj hrun ▸ h.claim hnow call
  | activate receipt => exact Option.some.inj hrun ▸ h.activate hnow receipt
  | heartbeat held ms =>
    exact Option.some.inj hrun ▸ h.updateRuns fun _ _ _ hr => ⟨hnow, hr.available⟩
  | deferLaunch receipt ms => exact Option.some.inj hrun ▸ h.deferLaunch hnow receipt hvalid.1
  | reschedule held wake =>
    exact Option.some.inj hrun ▸ (h.suspendCas hnow hvalid).finishSuspension
  | suspendRun held wake checkpoint =>
    exact Option.some.inj hrun ▸ h.suspendRun hnow held hvalid checkpoint
  | awaitEvent call => exact Option.some.inj hrun ▸ h.awaitEvent hnow hadm.timeoutMs
  | recordTaskDone call => exact Option.some.inj hrun ▸ h.recordTaskDone hnow call
  | emitEvent call => exact Option.some.inj hrun ▸ h.emitEvent hnow call
  | setCheckpoint held taskId checkpoint ms =>
    exact Option.some.inj hrun ▸ h.setCheckpoint hnow held taskId checkpoint ms
  | complete held taskId resultJson =>
    exact Option.some.inj hrun ▸ h.complete hnow held taskId resultJson
  | failInto failure => exact h.failInto hnow hvalid hrun
  | sweepLostLaunch swept => exact h.sweepLostLaunch hnow hcounted hrun
  | sweepClaimTimeout swept => exact h.sweepClaimTimeout hnow hrun
  | cancelTransition c => exact Option.some.inj hrun ▸ h.cancelTransition hnow c
  | retryTask call =>
    obtain ⟨hsame, _⟩ | ⟨t, ht, hg, runs, p, _, _, _, hruns, hdb, _⟩ := retryTask_cases hinv hrun
    · rwa [hsame]
    · have hcas : (reviveCas s.db seed call now).FromEpoch :=
        h.updateTasks fun _ _ _ ht => ⟨hnow, ht.enqueued⟩
      rw [hdb]
      exact hcas.insertRun hruns ⟨hnow, fun v hv => Option.some.inj hv ▸ hnow⟩
  | expireLeaseNow held =>
    exact Option.some.inj hrun ▸ h.updateRuns fun _ _ _ hr => ⟨hr.fenced, hr.available⟩

end Durablerun
