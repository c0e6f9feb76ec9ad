import Durablerun.Store.LifecycleTheorems

/-!
# How often a task is launched

A run waits in the queue when it is placed, when it parks and when its launch is lost, and each wait
ends with one claim at the most. A run's launch is lost `RELAUNCH_CAP` times at the most, and a claim
is activated once. So the claims of a task, and the sweeps that take it, are bounded by its runs, its
parks and its revivals: a driver cannot launch one task for ever.

Reference: `packages/store-libsql/src/store.ts` and `packages/core/src/statements/sweep.ts`.
-/

namespace Durablerun

namespace Lifecycle

variable {moments : List (Option Action)} {a : Action} {s s' : State} {c : Counters} {run : Current}

/-- How often a run of the task was put in the queue. -/
def queuings (moments : List (Option Action)) : ℤ :=
  1 + placements moments + taken .park moments + taken .sweepLostLaunch moments

/-- How often the task ended. -/
def endings (moments : List (Option Action)) : ℤ :=
  taken .complete moments + taken .failRunTerminal moments + taken .sweepExhausted moments +
    taken .cancel moments

/-- What the counts of a life owe its live run: the claim it waits for, the activation its claim
waits for, and the launches it lost. -/
structure Launched (moments : List (Option Action)) (waiting unlatched relaunches : ℤ) : Prop where
  claims : taken .claim moments + waiting ≤ queuings moments
  activations : taken .activate moments + unlatched ≤ taken .claim moments
  lost : taken .sweepLostLaunch moments ≤ RELAUNCH_CAP * placements moments + relaunches

/-- The run waits in the queue for a claim. -/
def Current.waiting (run : Current) : ℤ := if run.state.Queued then 1 else 0

/-- The run's claim waits for its activation. -/
def Current.unlatched (run : Current) : ℤ := if run.activatedGen < run.claimGen then 1 else 0

/-- The launches a state shows. -/
def State.Launched (moments : List (Option Action)) : State → Prop
  | .unspawned => ∀ moment ∈ moments, moment = none
  | .live _ run => Lifecycle.Launched moments run.waiting run.unlatched run.relaunchCount ∧
    endings moments = taken .retryTask moments
  | .ended _ _ _ => Lifecycle.Launched moments 0 0 RELAUNCH_CAP ∧
    endings moments = taken .retryTask moments + 1

/-- A run that is placed waits for its claim. -/
@[simp] theorem Current.waiting_placed {ordinal : ℤ} {state : TaskState} (h : state.Queued) :
    (Current.placed ordinal state).waiting = 1 := if_pos h

/-- A run that is placed has no launch under way. -/
@[simp] theorem Current.unlatched_placed {ordinal : ℤ} {state : TaskState} :
    (Current.placed ordinal state).unlatched = 0 := if_neg (lt_irrefl _)

/-- What waits is not negative. -/
theorem Current.waiting_nonneg : 0 ≤ run.waiting := by
  unfold Current.waiting
  split <;> decide

/-- What is not latched is not negative. -/
theorem Current.unlatched_nonneg : 0 ≤ run.unlatched := by
  unfold Current.unlatched
  split <;> decide

/-- A running run does not wait. -/
theorem Current.waiting_running (h : run.state = .running) : run.waiting = 0 :=
  if_neg (by simp [h, TaskState.Queued])

/-- The live run is done with: nothing is owed, and its launches count as spent. -/
theorem Launched.done (h : Lifecycle.Launched moments run.waiting run.unlatched run.relaunchCount)
    (hsound : run.Sound) : Lifecycle.Launched moments 0 0 RELAUNCH_CAP where
  claims := by linarith [h.claims, run.waiting_nonneg]
  activations := by linarith [h.activations, run.unlatched_nonneg]
  lost := by linarith [h.lost, hsound.relaunchCap]

/-- A new run is placed: it waits for its first claim. -/
theorem Launched.placed {waiting unlatched relaunches ordinal : ℤ} {state : TaskState}
    (h : Lifecycle.Launched moments waiting unlatched relaunches) (hwaiting : 0 ≤ waiting)
    (hunlatched : 0 ≤ unlatched) (hcap : relaunches ≤ RELAUNCH_CAP) (hqueued : state.Queued)
    (ha : a = .failRunWithRetry ∨ a = .sweepClaimTimeout ∨ a = .rollbackPass ∨ a = .retryTask) :
    Lifecycle.Launched (some a :: moments) (Current.placed ordinal state).waiting
      (Current.placed ordinal state).unlatched (Current.placed ordinal state).relaunchCount := by
  obtain ⟨hclaims, hactivations, hlost⟩ := h
  rw [Current.waiting_placed hqueued, Current.unlatched_placed]
  simp only [queuings, placements] at hclaims hlost
  rcases ha with rfl | rfl | rfl | rfl <;>
    refine ⟨?_, ?_, ?_⟩ <;>
    simp only [queuings, placements, Current.placed, taken_act, reduceCtorEq, if_true, if_false] <;>
    linarith

/-- Every action keeps the count of the launches. -/
theorem Step.launched (h : Step a s s') (hs : s.Accounted) (hl : s.Launched moments) :
    s'.Launched (some a :: moments) := by
  cases h with
  | spawn =>
    -- A task that was not there has taken no action yet.
    have hnone : ∀ b, taken b moments = 0 := by
      intro b
      simp only [taken, Nat.cast_eq_zero, List.count_eq_zero]
      exact fun hmem => Option.some_ne_none b (hl _ hmem)
    refine ⟨⟨?_, ?_, ?_⟩, ?_⟩ <;> simp [queuings, placements, endings, hnone, Current.placed,
      Current.waiting, Current.unlatched]
  | @claim c run hq =>
    obtain ⟨⟨hclaims, hactivations, hlost⟩, hends⟩ := hl
    have hsound := hs.2.1
    have hbefore : run.waiting = 1 := if_pos hq
    have hwaiting : Current.waiting
        { run with state := .running, claimGen := run.claimGen + 1 } = 0 := if_neg id
    -- A claim opens a generation that no worker has activated.
    have hunlatched : Current.unlatched
        { run with state := .running, claimGen := run.claimGen + 1 } = 1 :=
      if_pos (by linarith [hsound.claimed])
    refine ⟨⟨?_, ?_, ?_⟩, ?_⟩ <;>
      simp only [queuings, placements, endings, taken_act, reduceCtorEq, if_true, if_false] at * <;>
      linarith [run.unlatched_nonneg]
  | @activate c run hrun hlt =>
    obtain ⟨⟨hclaims, hactivations, hlost⟩, hends⟩ := hl
    have hunlatched : run.unlatched = 1 := if_pos hlt
    have hlatched : Current.unlatched { run with activatedGen := run.claimGen } = 0 :=
      if_neg (lt_irrefl _)
    refine ⟨⟨?_, ?_, ?_⟩, ?_⟩ <;>
      simp only [queuings, placements, endings, taken_act, reduceCtorEq, if_true, if_false,
        Current.waiting] at * <;> linarith
  | @park c run state hrun hq =>
    obtain ⟨⟨hclaims, hactivations, hlost⟩, hends⟩ := hl
    rw [Current.waiting_running hrun] at hclaims
    have hwaiting : Current.waiting { run with state } = 1 := if_pos hq
    refine ⟨⟨?_, ?_, ?_⟩, ?_⟩ <;>
      simp only [queuings, placements, endings, taken_act, reduceCtorEq, if_true, if_false,
        Current.unlatched] at * <;> linarith
  | @wake c run hsleeping =>
    obtain ⟨⟨hclaims, hactivations, hlost⟩, hends⟩ := hl
    have hbefore : run.waiting = 1 := if_pos (by rw [hsleeping]; trivial)
    have hwaiting : Current.waiting { run with state := .pending } = 1 := if_pos trivial
    refine ⟨⟨?_, ?_, ?_⟩, ?_⟩ <;>
      simp only [queuings, placements, endings, taken_act, reduceCtorEq, if_false,
        Current.unlatched] at * <;> linarith
  | @sweepLostLaunch c run hrun hlt hbelow =>
    obtain ⟨⟨hclaims, hactivations, hlost⟩, hends⟩ := hl
    rw [Current.waiting_running hrun] at hclaims
    have hwaiting : Current.waiting
        { run with state := .pending, relaunchCount := run.relaunchCount + 1 } = 1 := if_pos trivial
    refine ⟨⟨?_, ?_, ?_⟩, ?_⟩ <;>
      simp only [queuings, placements, endings, taken_act, reduceCtorEq, if_true, if_false,
        Current.unlatched] at * <;> linarith
  -- A run that is placed starts a count of its own, and the one before is settled as it was.
  | failRunWithRetry _ _ hq | rollbackPass _ _ hq =>
    obtain ⟨hlaunched, hends⟩ := hl
    refine ⟨hlaunched.placed Current.waiting_nonneg Current.unlatched_nonneg hs.2.1.relaunchCap hq
      (by simp), ?_⟩
    simpa [endings] using hends
  | sweepClaimTimeout =>
    obtain ⟨hlaunched, hends⟩ := hl
    refine ⟨hlaunched.placed Current.waiting_nonneg Current.unlatched_nonneg hs.2.1.relaunchCap
      trivial (by simp), ?_⟩
    simpa [endings] using hends
  | complete | failRunTerminal | sweepExhausted | cancel =>
    obtain ⟨hlaunched, hends⟩ := hl
    obtain ⟨hclaims, hactivations, hlost⟩ := hlaunched.done hs.2.1
    refine ⟨⟨?_, ?_, ?_⟩, ?_⟩ <;>
      simp only [queuings, placements, endings, taken_act, reduceCtorEq, if_true, if_false] at * <;>
      linarith
  | retryTask =>
    obtain ⟨hlaunched, hends⟩ := hl
    refine ⟨hlaunched.placed le_rfl le_rfl le_rfl trivial (by simp), ?_⟩
    simp only [endings, taken_act, reduceCtorEq, if_true, if_false] at *
    linarith

/-- Every life counts its launches. -/
theorem Lives.launched (h : Lives moments s) : s.Launched moments := by
  induction h with
  | unspawned => exact fun _ h => absurd h List.not_mem_nil
  | @idle moments s _ ih =>
    cases s with
    | unspawned => exact List.forall_mem_cons.mpr ⟨rfl, ih⟩
    | live | ended =>
      obtain ⟨⟨hclaims, hactivations, hlost⟩, hends⟩ := ih
      exact ⟨⟨by simpa [queuings, placements] using hclaims, by simpa using hactivations,
        by simpa [placements] using hlost⟩, by simpa [endings] using hends⟩
  | act hlives hstep ih => exact hstep.launched hlives.accounted ih

/-- What a life owes at its end, or may still spend: a run is claimed once for its placement, each
park and each lost launch, and a claim is activated once. -/
structure Spent (moments : List (Option Action)) : Prop where
  claims : taken .claim moments ≤
    (RELAUNCH_CAP + 1) * (1 + placements moments) + taken .park moments
  activations : taken .activate moments ≤ taken .claim moments
  lost : taken .sweepLostLaunch moments ≤ RELAUNCH_CAP * (1 + placements moments)
  exhausted : taken .sweepExhausted moments ≤ 1 + taken .retryTask moments

/-- What was launched is accounted for by the moments lived. -/
theorem Launched.spent {waiting unlatched relaunches : ℤ}
    (h : Lifecycle.Launched moments waiting unlatched relaunches) (hwaiting : 0 ≤ waiting)
    (hunlatched : 0 ≤ unlatched) (hcap : relaunches ≤ RELAUNCH_CAP)
    (hends : endings moments ≤ taken .retryTask moments + 1) : Spent moments := by
  obtain ⟨hclaims, hactivations, hlost⟩ := h
  have hothers : 0 ≤ taken .complete moments + taken .failRunTerminal moments +
      taken .cancel moments := add_nonneg (add_nonneg taken_nonneg taken_nonneg) taken_nonneg
  simp only [queuings, endings] at hclaims hends
  refine ⟨?_, ?_, ?_, ?_⟩ <;> linarith

/-- A task that was spawned has spent what its moments say. -/
theorem Lives.spent (h : Lives moments s) (hspawned : s ≠ .unspawned) : Spent moments := by
  have hlaunched := h.launched
  have haccounted := h.accounted
  cases s with
  | unspawned => exact absurd rfl hspawned
  | live c run =>
    exact hlaunched.1.spent Current.waiting_nonneg Current.unlatched_nonneg
      haccounted.2.1.relaunchCap (by linarith [hlaunched.2])
  | ended => exact hlaunched.1.spent le_rfl le_rfl le_rfl hlaunched.2.le

end Lifecycle

/-! ## The launches of a task -/

variable {s : Sys} {t : Task} {moments : List (Option Lifecycle.Action)}

/-- The claims, activations and sweeps the moments of a task hold, against its runs, its parks and
its revivals. -/
structure Task.LaunchedWithin (db : Db) (t : Task) (moments : List (Option Lifecycle.Action)) :
    Prop where
  claims : Lifecycle.taken .claim moments ≤
    (RELAUNCH_CAP + 1) * (db.runs.rows.filter fun r => r.taskId = t.taskId).length +
      Lifecycle.taken .park moments
  activations : Lifecycle.taken .activate moments ≤ Lifecycle.taken .claim moments
  sweeps : Lifecycle.taken .sweepLostLaunch moments + Lifecycle.taken .sweepClaimTimeout moments +
      Lifecycle.taken .sweepExhausted moments ≤
    RELAUNCH_CAP * (db.runs.rows.filter fun r => r.taskId = t.taskId).length + INFRA_RETRY_CAP +
      1 + Lifecycle.taken .retryTask moments
  budget : ∃ budget, Lifecycle.spawnBudgets moments = [budget] ∧ (¬ sagaBegan db t.taskId →
    Lifecycle.taken .claim moments ≤
      (RELAUNCH_CAP + 1) * (budget + Lifecycle.taken .retryTask moments + INFRA_RETRY_CAP) +
        Lifecycle.taken .park moments)

/-- A task's claims are bounded by what it counted. -/
theorem Task.CountedBy.launched (h : t.CountedBy s.db moments) (hspent : Lifecycle.Spent moments)
    (hcap : t.infraRetries ≤ INFRA_RETRY_CAP) : t.LaunchedWithin s.db moments where
  claims := by
    rw [h.runs]
    exact hspent.claims
  activations := hspent.activations
  sweeps := by
    rw [h.runs]
    linarith [hspent.lost, hspent.exhausted, h.infraRetries]
  budget := by
    obtain ⟨budget, hspawned, hbound⟩ := h.budget
    refine ⟨budget, hspawned, fun hno => ?_⟩
    have hplaced := (hbound hno).2
    have hcost : (0 : ℤ) ≤ RELAUNCH_CAP + 1 := by decide
    calc Lifecycle.taken .claim moments
        ≤ (RELAUNCH_CAP + 1) * (1 + Lifecycle.placements moments) +
            Lifecycle.taken .park moments := hspent.claims
      _ ≤ (RELAUNCH_CAP + 1) * (budget + Lifecycle.taken .retryTask moments + INFRA_RETRY_CAP) +
            Lifecycle.taken .park moments := by gcongr

/-- In every reachable state, whatever was delivered and in whatever order: a task was claimed no
more often than its runs, the launches each may lose and its parks allow, was activated no more often
than it was claimed, and was swept no more often than the caps allow. -/
theorem reachable_launches (h : Reachable Repeats s) :
    ∀ t ∈ s.db.tasks, ∃ moments, s.Lived t.taskId moments ∧ t.LaunchedWithin s.db moments := by
  intro t ht
  have hinv : Inv s.db := (h.course fun _ _ hrepeats => hrepeats).inv
  obtain ⟨moments, hlived⟩ := h.lived t.taskId
  have hspawned : lifeOf s.db t.taskId ≠ .unspawned := by
    simp only [lifeOf, find_task ht]
    split <;> simp
  refine ⟨moments, hlived, (hlived.counted hinv ht).launched (hlived.lives.spent hspawned) ?_⟩
  exact (hinv.settled t ht).counted.infraRetries.2

/-- The sample task was claimed twice, once for each of its runs. -/
theorem reachable_launches_haltedOne :
    (haltedOne.db.runs.rows.filter fun r => r.taskId = "t").length = 2 ∧
      ∀ t ∈ haltedOne.db.tasks, ∃ moments, haltedOne.Lived t.taskId moments ∧
        t.LaunchedWithin haltedOne.db moments :=
  ⟨by decide +kernel, reachable_launches (haltedOne_reachable Repeats)⟩

end Durablerun
