import Durablerun.Store.Schema
import Mathlib.Data.List.Count
import Mathlib.Tactic.Linarith

/-!
# The life of one task

What the design says of one task, without the store: its counters, its one live run, and the actions
that move them. It is the scheduler's state machine with every other task, every lease and every
instant left out. `Lives` are the lives a list of actions gives, and what an action keeps holds of all
of them: the accounts add up (`Lives.accounted`), and each counter is a count of actions
(`Lives.counted`).

Reference: `packages/store-libsql/src/store.ts`.
-/

namespace Durablerun.Lifecycle

/-- The counters of a task. -/
structure Counters where
  attempts : ℤ
  infraRetries : ℤ
  maxAttempts : ℤ
  rollingBack : Bool
  deriving DecidableEq

/-- The one live run of a task. -/
structure Current where
  ordinal : ℤ
  state : TaskState
  claimGen : ℤ
  activatedGen : ℤ
  relaunchCount : ℤ
  deriving DecidableEq

/-- A run as it is placed: it waits for its first claim. -/
def Current.placed (ordinal : ℤ) (state : TaskState) : Current := ⟨ordinal, state, 0, 0, 0⟩

/-- A task: not spawned yet, live with its run, or ended in a state with its runs up to an ordinal. -/
inductive State where
  | unspawned
  | live (c : Counters) (run : Current)
  | ended (c : Counters) (state : TaskState) (top : ℤ)
  deriving DecidableEq

/-- What may happen to a task. -/
inductive Action where
  | spawn (maxAttempts : ℤ)
  | claim
  | activate
  | park
  | wake
  | sweepLostLaunch
  | failRunWithRetry
  | sweepClaimTimeout
  | rollbackPass
  | complete
  | failRunTerminal
  | sweepExhausted
  | cancel
  | retryTask
  deriving DecidableEq

/-- One action, with the guard the design gives it. -/
inductive Step : Action → State → State → Prop
  | spawn {maxAttempts : ℤ} (budget : 1 ≤ maxAttempts) :
    Step (.spawn maxAttempts) .unspawned (.live ⟨0, 0, maxAttempts, false⟩ (.placed 1 .pending))
  | claim {c : Counters} {run : Current} (queued : run.state.Queued) :
    Step .claim (.live c run) (.live c { run with state := .running, claimGen := run.claimGen + 1 })
  | activate {c : Counters} {run : Current} (running : run.state = .running)
    (unlatched : run.activatedGen < run.claimGen) :
    Step .activate (.live c run) (.live c { run with activatedGen := run.claimGen })
  | park {c : Counters} {run : Current} {state : TaskState} (running : run.state = .running)
    (queued : state.Queued) : Step .park (.live c run) (.live c { run with state })
  | wake {c : Counters} {run : Current} (sleeping : run.state = .sleeping) :
    Step .wake (.live c run) (.live c { run with state := .pending })
  | sweepLostLaunch {c : Counters} {run : Current} (running : run.state = .running)
    (unlatched : run.activatedGen < run.claimGen) (below : run.relaunchCount < RELAUNCH_CAP) :
    Step .sweepLostLaunch (.live c run)
      (.live c { run with state := .pending, relaunchCount := run.relaunchCount + 1 })
  | failRunWithRetry {c : Counters} {run : Current} {state : TaskState}
    (running : run.state = .running) (budget : c.attempts + 1 < c.maxAttempts)
    (queued : state.Queued) :
    Step .failRunWithRetry (.live c run)
      (.live { c with attempts := c.attempts + 1 } (.placed (run.ordinal + 1) state))
  | sweepClaimTimeout {c : Counters} {run : Current} (running : run.state = .running)
    (latched : run.activatedGen = run.claimGen) (below : c.infraRetries < INFRA_RETRY_CAP) :
    Step .sweepClaimTimeout (.live c run)
      (.live { c with infraRetries := c.infraRetries + 1 } (.placed (run.ordinal + 1) .pending))
  | rollbackPass {c : Counters} {run : Current} {state : TaskState}
    (running : run.state = .running) (room : c.attempts + 2 ≤ MAX_COUNT) (queued : state.Queued) :
    Step .rollbackPass (.live c run)
      (.live ⟨c.attempts + 1, c.infraRetries, c.attempts + 2, true⟩
        (.placed (run.ordinal + 1) state))
  | complete {c : Counters} {run : Current} (running : run.state = .running)
    (forward : c.rollingBack = false) :
    Step .complete (.live c run) (.ended c .completed run.ordinal)
  | failRunTerminal {c : Counters} {run : Current} (running : run.state = .running) :
    Step .failRunTerminal (.live c run)
      (.ended { c with attempts := c.attempts + 1 } .failed run.ordinal)
  | sweepExhausted {c : Counters} {run : Current} (running : run.state = .running)
    (exhausted : (run.activatedGen < run.claimGen ∧ RELAUNCH_CAP ≤ run.relaunchCount) ∨
      (run.activatedGen = run.claimGen ∧ c.infraRetries = INFRA_RETRY_CAP)) :
    Step .sweepExhausted (.live c run) (.ended c .failed run.ordinal)
  | cancel {c : Counters} {run : Current} :
    Step .cancel (.live c run) (.ended c .cancelled run.ordinal)
  | retryTask {c : Counters} {top : ℤ} (forward : c.rollingBack = false)
    (room : c.maxAttempts < MAX_COUNT) :
    Step .retryTask (.ended c .failed top)
      (.live { c with attempts := top - c.infraRetries, maxAttempts := c.maxAttempts + 1 }
        (.placed (top + 1) .pending))

/-- The lives that moments give, the last moment first: at each the task does nothing, or one
action. -/
inductive Lives : List (Option Action) → State → Prop
  | unspawned : Lives [] .unspawned
  | idle {moments : List (Option Action)} {s : State} (h : Lives moments s) :
    Lives (none :: moments) s
  | act {moments : List (Option Action)} {a : Action} {s s' : State} (h : Lives moments s)
    (step : Step a s s') : Lives (some a :: moments) s'

variable {moments : List (Option Action)} {a : Action} {s s' : State} {c : Counters} {run : Current}
  {state : TaskState} {top : ℤ}

/-! ## The accounts -/

/-- What holds of the counters and of the ordinal of the task's last run. -/
structure Counters.Sound (c : Counters) : Prop where
  attempts : 0 ≤ c.attempts
  infraRetries : 0 ≤ c.infraRetries
  infraCap : c.infraRetries ≤ INFRA_RETRY_CAP

/-- What holds of a live run. -/
structure Current.Sound (run : Current) : Prop where
  live : run.state.Live
  activated : 0 ≤ run.activatedGen
  claimed : run.activatedGen ≤ run.claimGen
  relaunches : 0 ≤ run.relaunchCount
  relaunchCap : run.relaunchCount ≤ RELAUNCH_CAP

/-- The live run is the next one the counters account for, within the budget, and the last attempt of
it while the task rolls back; an ended task's last run is that one, or was charged, and was within the
budget. -/
def State.Accounted : State → Prop
  | .unspawned => True
  | .live c run => c.Sound ∧ run.Sound ∧ run.ordinal = c.attempts + c.infraRetries + 1 ∧
    c.attempts < c.maxAttempts ∧ (c.rollingBack = true → c.maxAttempts = c.attempts + 1)
  | .ended c state top => c.Sound ∧ ¬ state.Live ∧ top - c.infraRetries ≤ c.maxAttempts ∧
    (top = c.attempts + c.infraRetries ∨ top = c.attempts + c.infraRetries + 1)

/-- A run that is placed is sound. -/
theorem Current.Sound.placed {ordinal : ℤ} (queued : state.Queued) :
    (Current.placed ordinal state).Sound :=
  ⟨queued.live, le_rfl, le_rfl, le_rfl, by simp [Current.placed, RELAUNCH_CAP]⟩

/-- Every action keeps the accounts. -/
theorem Step.accounted (h : Step a s s') (hs : s.Accounted) : s'.Accounted := by
  cases h with
  | spawn hbudget =>
    exact ⟨⟨le_rfl, le_rfl, by simp [INFRA_RETRY_CAP]⟩, .placed trivial, rfl, hbudget, by simp⟩
  | claim hq =>
    obtain ⟨hc, hr, haccount⟩ := hs
    exact ⟨hc, { hr with live := trivial, claimed := by linarith [hr.claimed] }, haccount⟩
  | activate =>
    obtain ⟨hc, hr, haccount⟩ := hs
    exact ⟨hc, { hr with activated := hr.activated.trans hr.claimed, claimed := le_rfl }, haccount⟩
  | park _ hq =>
    obtain ⟨hc, hr, haccount⟩ := hs
    exact ⟨hc, { hr with live := hq.live }, haccount⟩
  | wake =>
    obtain ⟨hc, hr, haccount⟩ := hs
    exact ⟨hc, { hr with live := trivial }, haccount⟩
  | sweepLostLaunch _ _ hbelow =>
    obtain ⟨hc, hr, haccount⟩ := hs
    exact ⟨hc, { hr with
      live := trivial
      relaunches := by linarith [hr.relaunches]
      relaunchCap := hbelow }, haccount⟩
  -- A placed run is one past the last in order, and pays for it from one of the two budgets.
  | failRunWithRetry _ hbudget hq =>
    obtain ⟨hc, _, hord, _, hspent⟩ := hs
    refine ⟨{ hc with attempts := by linarith [hc.attempts] }, .placed hq, ?_, hbudget, ?_⟩
    · simp only [Current.placed, hord]
      ring
    · exact fun hroll => absurd (hspent hroll) hbudget.ne'
  | sweepClaimTimeout _ _ hbelow =>
    obtain ⟨hc, _, hord, hbudget⟩ := hs
    refine ⟨⟨hc.attempts, by linarith [hc.infraRetries], hbelow⟩, .placed trivial, ?_, hbudget⟩
    simp only [Current.placed, hord]
    ring
  | rollbackPass _ _ hq =>
    obtain ⟨hc, _, hord, _⟩ := hs
    refine ⟨⟨by linarith [hc.attempts], hc.infraRetries, hc.infraCap⟩, .placed hq, ?_, by simp,
      fun _ => ?_⟩
    · simp only [Current.placed, hord]
      ring
    · simp only
      ring
  | complete | sweepExhausted | cancel =>
    obtain ⟨hc, _, hord, hlt, _⟩ := hs
    exact ⟨hc, id, by linarith, Or.inr hord⟩
  | failRunTerminal =>
    obtain ⟨hc, _, hord, hlt, _⟩ := hs
    refine ⟨{ hc with attempts := by linarith [hc.attempts] }, id, ?_, Or.inl ?_⟩
    · simp only
      linarith
    · simp only [hord]
      ring
  | @retryTask c top hforward =>
    obtain ⟨hc, _, hle, hband⟩ := hs
    -- An ended task was charged its last run or not: either way its order is past both counts.
    have hcharged : c.attempts + c.infraRetries ≤ top := by
      obtain h | h := hband <;> linarith
    refine ⟨{ hc with attempts := by linarith [hc.attempts] }, .placed trivial, ?_, ?_, ?_⟩
    · simp only [Current.placed]
      ring
    · simp only
      linarith
    · simp [hforward]

/-- Every life keeps its accounts. -/
theorem Lives.accounted (h : Lives moments s) : s.Accounted := by
  induction h with
  | unspawned => trivial
  | idle _ ih => exact ih
  | act _ hstep ih => exact hstep.accounted ih

/-! ## The counters are counts -/

/-- How often the action was taken. -/
def taken (a : Action) (moments : List (Option Action)) : ℤ := moments.count (some a)

/-- The budgets the task was spawned with. -/
def spawnBudgets (moments : List (Option Action)) : List ℤ :=
  moments.filterMap fun
    | some (.spawn maxAttempts) => some maxAttempts
    | _ => none

/-- How many runs were placed after the first. -/
def placements (moments : List (Option Action)) : ℤ :=
  taken .failRunWithRetry moments + taken .sweepClaimTimeout moments +
    taken .rollbackPass moments + taken .retryTask moments

/-- No moment takes an action. -/
@[simp] theorem taken_nil : taken a [] = 0 := rfl

/-- An idle moment takes no action. -/
@[simp] theorem taken_idle : taken a (none :: moments) = taken a moments := by
  simp [taken]

/-- A moment takes the action it is. -/
@[simp] theorem taken_act {b : Action} :
    taken a (some b :: moments) = taken a moments + if b = a then 1 else 0 := by
  unfold taken
  rw [List.count_cons]
  by_cases h : b = a <;> simp [h]

/-- Actions are taken a number of times that is not negative. -/
theorem taken_nonneg : 0 ≤ taken a moments := Int.natCast_nonneg _

/-- The counters of a task and the ordinal of its last run, by the moments of its life. -/
structure Counted (moments : List (Option Action)) (c : Counters) (top : ℤ) : Prop where
  /-- A task is spawned once, and before its saga only a revival raises its budget, by one. -/
  budget : ∃ budget, spawnBudgets moments = [budget] ∧
    (c.rollingBack = false → c.maxAttempts = budget + taken .retryTask moments)
  infraRetries : c.infraRetries = taken .sweepClaimTimeout moments
  ordinal : top = 1 + placements moments
  rollingBack : c.rollingBack = true ↔ 0 < taken .rollbackPass moments

/-- The counts a state shows. -/
def State.Counted (moments : List (Option Action)) : State → Prop
  | .unspawned => ∀ moment ∈ moments, moment = none
  | .live c run => Lifecycle.Counted moments c run.ordinal
  | .ended c _ top => Lifecycle.Counted moments c top

/-- An action that places no run and moves no counter counts nothing. -/
theorem Counted.same (h : Lifecycle.Counted moments c top)
    (hspawn : ∀ budget, a ≠ .spawn budget) (hretry : a ≠ .failRunWithRetry)
    (htimeout : a ≠ .sweepClaimTimeout) (hpass : a ≠ .rollbackPass) (hrevive : a ≠ .retryTask) :
    Lifecycle.Counted (some a :: moments) c top where
  budget := by
    obtain ⟨budget, hspawned, hmax⟩ := h.budget
    refine ⟨budget, ?_, by simpa [hrevive] using hmax⟩
    rw [← hspawned]
    cases a <;> first | rfl | exact absurd rfl (hspawn _)
  infraRetries := by simpa [htimeout] using h.infraRetries
  ordinal := by simpa [placements, hretry, htimeout, hpass, hrevive] using h.ordinal
  rollingBack := by simpa [hpass] using h.rollingBack

/-- Every life counts its moments. -/
theorem Lives.counted (h : Lives moments s) : s.Counted moments := by
  induction h with
  | unspawned => exact fun _ h => absurd h List.not_mem_nil
  | @idle moments s _ ih =>
    cases s with
    | unspawned => exact List.forall_mem_cons.mpr ⟨rfl, ih⟩
    | live | ended =>
      obtain ⟨hbudget, hinfra, hord, hroll⟩ := ih
      exact ⟨by simpa [spawnBudgets] using hbudget, by simpa using hinfra,
        by simpa [placements] using hord, by simpa using hroll⟩
  | @act moments _ _ _ _ hstep ih =>
    cases hstep with
    | @spawn maxAttempts hbudget =>
      have hnone : ∀ a, taken a moments = 0 := by
        intro a
        simp only [taken, Nat.cast_eq_zero, List.count_eq_zero]
        exact fun hmem => Option.some_ne_none a (ih _ hmem)
      have hspawns : spawnBudgets moments = [] := by
        refine List.filterMap_eq_nil_iff.mpr fun moment hm => ?_
        rw [ih moment hm]
      refine ⟨⟨maxAttempts, congrArg (maxAttempts :: ·) hspawns, by simp [hnone]⟩, by simp [hnone],
        by simp [placements, hnone, Current.placed], by simp [hnone]⟩
    | claim | activate | park | wake | sweepLostLaunch | complete | sweepExhausted | cancel =>
      exact Counted.same ih (by simp) (by simp) (by simp) (by simp) (by simp)
    | failRunTerminal =>
      have hcounted := Counted.same (a := .failRunTerminal) ih (by simp) (by simp) (by simp)
        (by simp) (by simp)
      exact ⟨hcounted.budget, hcounted.infraRetries, hcounted.ordinal, hcounted.rollingBack⟩
    | failRunWithRetry =>
      obtain ⟨hbudget, hinfra, hord, hroll⟩ := ih
      refine ⟨by simpa [spawnBudgets] using hbudget, by simpa using hinfra, ?_, by simpa using hroll⟩
      simp only [Current.placed, hord, placements, taken_act, reduceCtorEq, if_true, if_false]
      ring
    | sweepClaimTimeout =>
      obtain ⟨hbudget, hinfra, hord, hroll⟩ := ih
      refine ⟨by simpa [spawnBudgets] using hbudget, by simpa using hinfra, ?_, by simpa using hroll⟩
      simp only [Current.placed, hord, placements, taken_act, reduceCtorEq, if_true, if_false]
      ring
    | rollbackPass =>
      obtain ⟨⟨budget, hspawned, _⟩, hinfra, hord, _⟩ := ih
      refine ⟨⟨budget, by simpa [spawnBudgets] using hspawned, by simp⟩, by simpa using hinfra, ?_, ?_⟩
      · simp only [Current.placed, hord, placements, taken_act, reduceCtorEq, if_true, if_false]
        ring
      · have hpasses : 0 ≤ taken .rollbackPass moments := taken_nonneg
        simp only [taken_act, if_true, true_iff]
        linarith
    | retryTask hforward =>
      obtain ⟨⟨budget, hspawned, hmax⟩, hinfra, hord, hroll⟩ := ih
      refine ⟨⟨budget, by simpa [spawnBudgets] using hspawned, fun _ => ?_⟩, by simpa using hinfra, ?_,
        by simpa using hroll⟩
      · simp only [hmax hforward, taken_act, if_true]
        ring
      · simp only [Current.placed, hord, placements, taken_act, reduceCtorEq, if_true, if_false]
        ring

/-- The runs of a task that never rolled back are within its budget, its revivals and the
infrastructure's cap. -/
theorem Counted.bounded (h : Lifecycle.Counted moments c top) (hforward : c.rollingBack = false)
    (hcap : c.infraRetries ≤ INFRA_RETRY_CAP) (hbudget : top - c.infraRetries ≤ c.maxAttempts) :
    ∃ budget, spawnBudgets moments = [budget] ∧
      1 + placements moments ≤ budget + taken .retryTask moments + INFRA_RETRY_CAP := by
  obtain ⟨budget, hspawned, hmax⟩ := h.budget
  exact ⟨budget, hspawned, by linarith [h.ordinal, hmax hforward]⟩

end Durablerun.Lifecycle
