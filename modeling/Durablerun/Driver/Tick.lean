import Durablerun.Driver.Loop
import Durablerun.Store.Instants
import Durablerun.Store.Sweep
import Mathlib.Data.Int.ConditionallyCompleteOrder

/-!
# One tick

A tick sweeps the queue, claims what is due, launches what it claimed and reads when to look again.
Each of its trips to the store is one batch or one read. A host supplies what the tick does not
decide: the ids it mints, the instants its trips run at, what the launcher makes of a launch, and the
choices the code leaves open. A tick is a function of these and of the store it finds.

Reference: `packages/driver/src/tick.ts`.
-/

namespace Durablerun.Driver

/-! ## Launches -/

/-- `Ending['kind']`. -/
inductive EndingKind where
  | completed | failed | crashed | timeout | unknown
  deriving DecidableEq

/-- `Ending`: the end of a worker, as a bounded-slot launcher observed it. -/
structure Ending where
  runId : String
  claimToken : String
  kind : EndingKind
  deriving DecidableEq

/-- `LaunchPayload`. -/
inductive LaunchPayload where
  | accepted
  | ended (ending : Ending)
  | unidentifiedEnding
  | launchFailed
  deriving DecidableEq

/-- What `LaunchOutcome.reconcile` answers. -/
inductive LaunchKind where
  | accepted | ended | launchFailed
  deriving DecidableEq

/-- `LaunchOutcome.reconcile`: the classification of a launch, and whether it asks for the claim's
lease to expire now. -/
def reconcile (run : ClaimedRun) : LaunchPayload → LaunchKind × Bool
  | .accepted => (.accepted, false)
  | .unidentifiedEnding => (.ended, false)
  | .ended ending =>
    (.ended, decide (ending.runId = run.runId ∧ ending.claimToken = run.claimToken))
  | .launchFailed => (.launchFailed, true)

/-! ## The tick -/

/-- `TickOptions`, as the tick and the store's claim accept them. -/
structure TickOptions where
  queue : String
  claimLimit : ℕ
  sweepLimit : ℕ
  leaseMs : ℤ
  claim_pos : 0 < claimLimit
  sweep_pos : 0 < sweepLimit
  lease : positiveDurationBounds.Within leaseMs

/-- What a host supplies, by the number of the trip: ids that are never minted twice, and instants
that never go back. -/
structure Host where
  seed : ℕ → String
  passId : ℕ → String
  token : ℕ → String
  clock : ℕ → ℤ
  seed_injective : Function.Injective seed
  passId_injective : Function.Injective passId
  token_injective : Function.Injective token
  never_back : Monotone clock
  /-- `buggify('sweep:short-batch')` and `buggify('claim:short-batch')`. -/
  short : ℕ → Bool
  /-- The order the pipeline commits the sweep's batches in. -/
  order : ℕ → List SweepItem → List SweepItem
  order_perm : ∀ k items, (order k items).Perm items
  launch : ℕ → ClaimedRun → LaunchPayload
  /-- The advisory expiry reached the store. -/
  reaches : ℕ → ClaimedRun → Bool

/-- A limit, cut to one where the trip is a short batch. -/
def Host.limit (host : Host) (k limit : ℕ) : ℕ := if 1 < limit ∧ host.short k then 1 else limit

/-- The batches of a sweep's items, one after another, with what each reported. -/
def sweepEach (host : Host) (queue : String) :
    ℕ → List SweepItem → Sys → Option (List SweptRun × ℕ × Sys)
  | k, [], s => some ([], k, s)
  | k, item :: items, s => do
    let b : Batch := ⟨host.seed k, item.call queue (host.passId k)⟩
    let out ← b.run (host.clock k) s.db
    let report := item.report queue (host.seed k) (host.passId k) (host.clock k) s.db out.won
    let (reports, k', s') ← sweepEach host queue (k + 1) items (s.deliver b (host.clock k))
    return (report.toList ++ reports, k', s')

/-- `sweep`. -/
def sweep (host : Host) (queue : String) (limit k : ℕ) (s : Sys) :
    Option (List SweptRun × ℕ × Sys) := do
  let items ← (sweepScan s.db (host.clock k) queue (host.limit k limit)).toOption
  sweepEach host queue (k + 1) (host.order k items) s

/-- `claim`, under a token minted for it. -/
def claimRuns (host : Host) (opts : TickOptions) (k : ℕ) (s : Sys) :
    Option (List ClaimedRun × ℕ × Sys) := do
  let call : ClaimCall :=
    ⟨opts.queue, host.token k, opts.leaseMs, host.limit k opts.claimLimit⟩
  let s' := s.deliver ⟨host.seed k, .claim call⟩ (host.clock k)
  let rows ← (claimAnswer s'.db call).toOption
  return (rows, k + 1, s')

/-- The launches of the claimed runs, each reconciled: what they came to, and the store. -/
def launchEach (host : Host) (queue : String) :
    ℕ → List ClaimedRun → Sys → List LaunchKind × ℕ × Sys
  | k, [], s => ([], k, s)
  | k, run :: runs, s =>
    let (kind, expires) := reconcile run (host.launch k run)
    let s' := if expires ∧ host.reaches k run then
        s.deliver ⟨host.seed k, .expireLeaseNow ⟨queue, run.runId, run.claimToken⟩⟩ (host.clock k)
      else s
    let (kinds, k', s'') := launchEach host queue (k + 1) runs s'
    (kind :: kinds, k', s'')

/-- `TickResult`: what a tick swept, claimed and launched, and the wake it read at its end. -/
def tickResult (opts : TickOptions) (swept : List SweptRun) (claimed : List ClaimedRun)
    (kinds : List LaunchKind) (db : Db) : TickResult SweptRun where
  swept := swept
  claimed := claimed.length
  launched := kinds.count .accepted
  launchFailed := kinds.count .launchFailed
  ended := kinds.count .ended
  nextWakeAtEpochMs := (nextWakeAtEpochMs db opts.queue).map fun wake : ℤ => (wake : ℚ)
  backlog := decide (opts.sweepLimit ≤ swept.length ∨ opts.claimLimit ≤ claimed.length)

/-- `tick`, from the trip of this number. It answers its result, the number of the next trip, and the
store; `none` where a trip to the store threw. -/
def tick (host : Host) (opts : TickOptions) (k : ℕ) (s : Sys) :
    Option (TickResult SweptRun × ℕ × Sys) := do
  let (swept, k₁, s₁) ← sweep host opts.queue opts.sweepLimit k s
  let (claimed, k₂, s₂) ← claimRuns host opts k₁ s₁
  let (kinds, k₃, s₃) := launchEach host opts.queue k₂ claimed s₂
  return (tickResult opts swept claimed kinds s₃.db, k₃ + 1, s₃)

/-- A chain of ticks, each looking again at once: their results, the number of the next trip, and the
store. -/
def ticks (host : Host) (opts : TickOptions) :
    ℕ → ℕ → Sys → Option (List (TickResult SweptRun) × ℕ × Sys)
  | 0, k, s => some ([], k, s)
  | n + 1, k, s => do
    let (result, k', s') ← tick host opts k s
    let (results, k'', s'') ← ticks host opts n k' s'
    return (result :: results, k'', s'')

end Durablerun.Driver
