import Durablerun.Store.Statements
import Mathlib.Data.List.Sort

/-!
# The batches of a claim

`claim`, `activate`, `heartbeat`, `deferLaunch` and `expireLeaseNow`: what hands a run to a worker
and keeps its lease. Each definition is the batch of the port method of the same name, its
statements in the order the batch holds them, at the batch's one instant `now`.

Reference: `packages/store-libsql/src/store.ts` and `packages/core/src/statements/claimed-run.ts`.
-/

namespace Durablerun

open Relational

/-! ## claim -/

/-- What `claim` is called with, its lease in milliseconds. -/
structure ClaimCall where
  queue : String
  claimToken : String
  leaseMs : ℤ
  limit : ℕ
  deriving DecidableEq

/-- `claimEligibility`: what a claim requires of a run and its task before it takes the run. -/
def claimEligibility (db : Db) (now : ℤ) (r : Run) (t : Task) : Prop :=
  eligibleTask t now ∧ durableTaskRetryAdmissible t ∧ durableTaskHeadersAdmissible t ∧
    soleLiveRun db r ∧ (r.wakeStep ≠ none ∨ registeredWaitUnambiguous db r) ∧
    registeredWaitTemporallySafe db r ∧ storedIncrementableInteger claimGenBounds r.claimGen ∧
    activatedGenBounds.Within r.activatedGen ∧ r.activatedGen ≤ r.claimGen ∧
    relaunchCountBounds.Within r.relaunchCount ∧ storedCurrentRunAccounting r t ∧
    storedHighestOwnedOrdinal db r
deriving Decidable

/-- A due run of one state that a claim of its queue would take. -/
def claimCandidate (db : Db) (now : ℤ) (queue : String) (state : TaskState) (r : Run) : Prop :=
  r.queue = queue ∧ r.state = state ∧ runAvailableDue r now ∧
    ∃ t ∈ db.tasks, runOwnedByTask r t ∧ claimEligibility db now r t
deriving Decidable

/-- The order candidates are taken in: by their instant, then by their id. -/
def claimOrder (r s : Run) : Prop :=
  r.availableAtMs.getD 0 < s.availableAtMs.getD 0 ∨
    (r.availableAtMs.getD 0 = s.availableAtMs.getD 0 ∧ r.runId ≤ s.runId)
deriving Decidable

/-- One leg of the candidates: the first `limit` of one state, in order. -/
def candidateLeg (db : Db) (now : ℤ) (queue : String) (state : TaskState) (limit : ℕ) : List Run :=
  ((db.runs.rows.filter (claimCandidate db now queue state)).insertionSort claimOrder).take limit

/-- `candidateRunIds`: the two legs merged in order, to the limit. -/
def candidateRuns (db : Db) (now : ℤ) (queue : String) (limit : ℕ) : List Run :=
  ((candidateLeg db now queue .pending limit ++
    candidateLeg db now queue .sleeping limit).insertionSort claimOrder).take limit

/-- `claimCas`'s guard. A run held under the token refuses the whole claim. -/
def claimGuard (db : Db) (now : ℤ) (call : ClaimCall) (r : Run) : Prop :=
  r.runId ∈ (candidateRuns db now call.queue call.limit).map Run.runId ∧
    (¬ ∃ held ∈ db.runs, held.queue = call.queue ∧ held.state = .running ∧
      held.claimedBy = some call.claimToken) ∧
    epochAdditionFits now call.leaseMs
deriving Decidable

/-- What `claimCas` assigns. -/
def claimAssignments (db : Db) (seed : String) (now : ℤ) (call : ClaimCall) (r : Run) : Run :=
  { r with
    state := .running
    claimedBy := some call.claimToken
    claimGen := r.claimGen + 1
    leaseMs := some call.leaseMs
    claimExpiresAtMs := some (now + call.leaseMs)
    heartbeatAtMs := some now
    wakeStep := r.wakeStep.or (registeredWaitStep db r)
    fenceStamp := some ⟨seed, .claim⟩
    fenceAtMs := now }

/-- `claimCas`. -/
def claimCas (db : Db) (seed : String) (call : ClaimCall) (now : ℤ) : Db :=
  { db with
    runs := db.runs.update (claimGuard db now call)
      ⟨claimAssignments db seed now call, fun _ => rfl⟩ }

/-- The runs this batch took, as both follow-ons of the claim select them. -/
def claimTaken (call : ClaimCall) (f : Run) : Prop :=
  f.queue = call.queue ∧ f.state = .running ∧ f.claimedBy = some call.claimToken
deriving Decidable

/-- The task's one run this batch claimed, `NULL` unless there is exactly one. -/
def claimedRunOf (db : Db) (seed : String) (t : Task) : Option String :=
  match db.runs.rows.filter fun f => f.taskId = t.taskId ∧ f.fenceStamp = some ⟨seed, .claim⟩ with
  | [f] => some f.runId
  | _ => none

/-- `task-book`: the tasks of the runs this batch took are running. -/
def taskBook (db : Db) (seed : String) (call : ClaimCall) : Db :=
  runsToTasks db seed .taskBook .claim call.queue (claimTaken call) (fun t => t.state.Live)
    ⟨fun t => { t with state := .running, lastAttemptRun := claimedRunOf db seed t },
      fun _ => rfl⟩

/-- `waits-timeout`: delete the waits of the runs this batch took whose timeout has passed. -/
def waitsTimeout (db : Db) (seed : String) (call : ClaimCall) : Db :=
  runsToWaits db seed .claim (claimTaken call) fun w =>
    ∃ timeout ∈ w.timeoutAtMs, epochBounds.Within timeout ∧
      ∃ f ∈ stampedRun db seed w.runId .claim, timeout ≤ f.fenceAtMs

/-- `claim`. -/
def claim (seed : String) (call : ClaimCall) (now : ℤ) (db : Db) : Outcome :=
  ⟨waitsTimeout (taskBook (claimCas db seed call now) seed call) seed call,
    wonBy .claim (∃ r ∈ db.runs, claimGuard db now call r)⟩

/-! ## activate and deferLaunch -/

/-- The claim a launch names. -/
structure ClaimReceipt where
  queue : String
  runId : String
  claimToken : String
  claimGen : ℤ
  deriving DecidableEq

/-- `claimReceiptAdmission`, with the task conjuncts of the transition that acts on the receipt. -/
def claimReceiptAdmission (db : Db) (now : ℤ) (taskConjuncts : Task → Prop) (r : Run) : Prop :=
  positiveClaimGenerationBounds.Within r.claimGen ∧ activatedGenBounds.Within r.activatedGen ∧
    leaseMsBounds.Stored r.leaseMs ∧ relaunchCountBounds.Within r.relaunchCount ∧
    soleLiveRun db r ∧
    ∃ t ∈ db.tasks, runOwnedByTask r t ∧ eligibleTask t now ∧ durableTaskRetryAdmissible t ∧
      durableTaskHeadersAdmissible t ∧ storedCurrentRunAccounting r t ∧
      storedHighestOwnedOrdinal db r ∧ taskConjuncts t

/-- `whereClaimReceipt`: the receipt's identity, the generation latch and the admission. -/
def whereClaimReceipt (db : Db) (now : ℤ) (receipt : ClaimReceipt) (taskConjuncts : Task → Prop)
    (r : Run) : Prop :=
  whereClaimedRun receipt.queue receipt.runId receipt.claimToken r ∧
    r.claimGen = receipt.claimGen ∧ r.activatedGen < receipt.claimGen ∧
    claimReceiptAdmission db now taskConjuncts r

instance (db : Db) (now : ℤ) (receipt : ClaimReceipt) (taskConjuncts : Task → Prop)
    [DecidablePred taskConjuncts] :
    DecidablePred (whereClaimReceipt db now receipt taskConjuncts) := fun r => by
  unfold whereClaimReceipt claimReceiptAdmission
  infer_instance

/-- The task's maximal duration, when its policy names one. -/
def taskMaxDurationMs (t : Task) : Option ℤ := t.cancellation.bind CancellationPolicy.maxDurationMs

/-- `activationDurationAdmissible`: a maximal duration is in range and its deadline fits. -/
def activationDurationAdmissible (at' : ℤ) (t : Task) : Prop :=
  ∀ d ∈ taskMaxDurationMs t,
    (0 ≤ d ∧ d ≤ MAX_DURATION_MS) ∧ epochAdditionFits (t.firstStartedAtMs.getD at') d
deriving Decidable

/-- `activateCas`'s guard. -/
def activateGuard (db : Db) (now : ℤ) (receipt : ClaimReceipt) (r : Run) : Prop :=
  whereClaimReceipt db now receipt (activationDurationAdmissible now) r ∧
    ∃ lease ∈ r.leaseMs, epochAdditionFits now lease
deriving Decidable

/-- What `activateCas` assigns. -/
def activateAssignments (seed : String) (receipt : ClaimReceipt) (now : ℤ) (r : Run) : Run :=
  { r with
    activatedGen := receipt.claimGen
    startedAtMs := r.startedAtMs.or (some now)
    claimExpiresAtMs := r.leaseMs.map (now + ·)
    heartbeatAtMs := some now
    fenceStamp := some ⟨seed, .activate⟩
    fenceAtMs := now }

/-- `activateCas`. -/
def activateCas (db : Db) (seed : String) (receipt : ClaimReceipt) (now : ℤ) : Db :=
  { db with
    runs := db.runs.update (activateGuard db now receipt)
      ⟨activateAssignments seed receipt now, fun _ => rfl⟩ }

/-- `task-start`: the first start stamps the task and replaces its deadline. -/
def taskStart (db : Db) (seed : String) (receipt : ClaimReceipt) : Db :=
  let instant := (stampedRun db seed receipt.runId .activate).map Run.fenceAtMs
  runsToTasks db seed .taskStart .activate receipt.queue (fun f => f.runId = receipt.runId)
    (fun t => t.state.Live)
    ⟨fun t => { t with
      firstStartedAtMs := t.firstStartedAtMs.or instant
      cancelAtMs := (taskMaxDurationMs t).bind fun d =>
        (t.firstStartedAtMs.or instant).map (· + d) }, fun _ => rfl⟩

/-- `activate`. -/
def activate (seed : String) (receipt : ClaimReceipt) (now : ℤ) (db : Db) : Outcome :=
  ⟨taskStart (activateCas db seed receipt now) seed receipt,
    wonBy .activate (∃ r ∈ db.runs, activateGuard db now receipt r)⟩

/-- A wake, as `prepareWake` reads it: so long from now, or at an instant. -/
inductive WakeSpec where
  | inMs (delay : ℤ)
  | atEpochMs (instant : ℤ)
  deriving DecidableEq

/-- The instant of a wake. -/
def WakeSpec.wakeAt (wake : WakeSpec) (now : ℤ) : ℤ :=
  match wake with
  | inMs delay => now + delay
  | atEpochMs instant => instant

/-- The wake's headroom guard. -/
def WakeSpec.Fits (wake : WakeSpec) (now : ℤ) : Prop :=
  match wake with
  | inMs delay => epochAdditionFits now delay
  | atEpochMs _ => True

instance (wake : WakeSpec) (now : ℤ) : Decidable (wake.Fits now) :=
  match wake with
  | .inMs delay => inferInstanceAs (Decidable (epochAdditionFits now delay))
  | .atEpochMs _ => inferInstanceAs (Decidable True)

/-- `deferLaunchCas`'s guard. -/
def deferLaunchGuard (db : Db) (now : ℤ) (receipt : ClaimReceipt) (delayMs : ℤ) (r : Run) : Prop :=
  whereClaimReceipt db now receipt (fun _ => True) r ∧ (WakeSpec.inMs delayMs).Fits now
deriving Decidable

/-- `deferLaunchCas`. The wake fields stay. -/
def deferLaunchCas (db : Db) (seed : String) (receipt : ClaimReceipt) (delayMs now : ℤ) : Db :=
  { db with
    runs := db.runs.update (deferLaunchGuard db now receipt delayMs)
      ⟨parkAssignments seed .suspend ((WakeSpec.inMs delayMs).wakeAt now) now, fun _ => rfl⟩ }

/-- `deferLaunch`: park a claimed run that was never activated. -/
def deferLaunch (seed : String) (receipt : ClaimReceipt) (delayMs : ℤ) (now : ℤ) (db : Db) :
    Outcome :=
  ⟨finishSuspension (deferLaunchCas db seed receipt delayMs now) seed receipt.queue receipt.runId,
    wonBy .suspend (∃ r ∈ db.runs, deferLaunchGuard db now receipt delayMs r)⟩

/-! ## heartbeat and expireLeaseNow -/

/-- A worker's claim: what every write of a worker presents. -/
structure WorkerClaim where
  queue : String
  runId : String
  claimToken : String
  deriving DecidableEq

/-- The run is still running under the claim. -/
abbrev WorkerClaim.Holds (claim : WorkerClaim) (r : Run) : Prop :=
  whereClaimedRun claim.queue claim.runId claim.claimToken r

/-- `heartbeatCas`'s guard. -/
def heartbeatGuard (db : Db) (now : ℤ) (claim : WorkerClaim) (extensionMs : ℤ) (r : Run) : Prop :=
  claim.Holds r ∧ (∃ t ∈ db.tasks, runOwnedByTask r t ∧ t.state.Live) ∧
    epochAdditionFits now extensionMs
deriving Decidable

/-- What extending a claim's lease assigns. -/
def leaseAssignments (seed : String) (name : Statement) (extendMs now : ℤ) (r : Run) : Run :=
  { r with
    claimExpiresAtMs := some (now + extendMs)
    heartbeatAtMs := some now
    fenceStamp := some ⟨seed, name⟩
    fenceAtMs := now }

/-- `heartbeatCas`. -/
def heartbeatCas (db : Db) (seed : String) (claim : WorkerClaim) (extensionMs now : ℤ) : Db :=
  { db with
    runs := db.runs.update (heartbeatGuard db now claim extensionMs)
      ⟨leaseAssignments seed .extend extensionMs now, fun _ => rfl⟩ }

/-- `heartbeat`. -/
def heartbeat (seed : String) (claim : WorkerClaim) (extensionMs now : ℤ) (db : Db) : Outcome :=
  ⟨heartbeatCas db seed claim extensionMs now,
    wonBy .extend (∃ r ∈ db.runs, heartbeatGuard db now claim extensionMs r)⟩

/-- `expireLeaseNow`'s guard. -/
def expireLeaseGuard (db : Db) (now : ℤ) (claim : WorkerClaim) (r : Run) : Prop :=
  claim.Holds r ∧ runClaimUnexpired r now ∧ ∃ t ∈ db.tasks, runOwnedByTask r t
deriving Decidable

/-- `expireLeaseNow`: the one write that is no fenced batch. It leaves no stamp. -/
def expireLeaseNow (claim : WorkerClaim) (now : ℤ) (db : Db) : Outcome :=
  ⟨{ db with
      runs := db.runs.update (expireLeaseGuard db now claim)
        ⟨fun r => { r with claimExpiresAtMs := some now }, fun _ => rfl⟩ },
    none⟩

end Durablerun
