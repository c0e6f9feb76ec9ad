import Durablerun.Store.InBounds
import Mathlib.Data.Fintype.EquivFin

/-!
# The next wake

A driver sleeps until `nextWakeAtEpochMs`, which looks at one instant of each row, while a claim and a
sweep ask a dozen things of a row before they take it. Of what the store wrote they ask nothing that
does not hold: a row whose instant has come is taken, so nothing is stranded, and no wake comes for
nothing.

Reference: `packages/store-libsql/src/store.ts`.
-/

namespace Durablerun

open Relational

variable {s : Sys} {seed queue : String} {now : ℤ} {db db' : Db} {r : Run} {t : Task}

/-! ## The wake that is read -/

/-- The least of some lists' least elements is at or below a bound when an element of one is. -/
theorem min?_min?_le_iff {legs : List (List ℤ)} {bound : ℤ} :
    (∃ v ∈ (legs.filterMap List.min?).min?, v ≤ bound) ↔ ∃ leg ∈ legs, ∃ v ∈ leg, v ≤ bound := by
  have hleast : ∀ l : List ℤ, (∃ v ∈ l.min?, v ≤ bound) ↔ ∃ v ∈ l, v ≤ bound := by
    intro l
    constructor
    · rintro ⟨v, hv, hle⟩
      exact ⟨v, List.min?_mem hv, hle⟩
    · rintro ⟨v, hv, hle⟩
      cases hmin : l.min? with
      | none =>
        rw [List.min?_eq_none_iff.mp hmin] at hv
        exact absurd hv List.not_mem_nil
      | some w => exact ⟨w, rfl, ((List.min?_eq_some_iff.mp hmin).2 v hv).trans hle⟩
  rw [hleast]
  constructor
  · rintro ⟨v, hv, hle⟩
    obtain ⟨leg, hleg, hmin⟩ := List.mem_filterMap.mp hv
    exact ⟨leg, hleg, v, List.min?_mem hmin, hle⟩
  · rintro ⟨leg, hleg, v, hv, hle⟩
    obtain ⟨w, hw, hle'⟩ := (hleast leg).mpr ⟨v, hv, hle⟩
    exact ⟨w, List.mem_filterMap.mpr ⟨leg, hleg, hw⟩, hle'⟩

/-- Something in the queue has come due: a queued run, the expiry of a claim, or the deadline of a
live task. -/
inductive Due (db : Db) (queue : String) (now : ℤ) : Prop
  | run {r : Run} (mem : r ∈ db.runs) (queue : r.queue = queue) (queued : r.state.Queued)
    (due : runAvailableDue r now)
  | claim {r : Run} (mem : r ∈ db.runs) (queue : r.queue = queue) (running : r.state = .running)
    (expired : runClaimExpired r now)
  | cancel {t : Task} (mem : t ∈ db.tasks) (queue : t.queue = queue) (live : t.state.Live)
    (due : cancelDue t now)

/-- The next wake counts the instants of the queue's runs in a state. -/
theorem mem_nextWakeRuns {state : TaskState} {instant : Run → Option ℤ} {v : ℤ} :
    v ∈ nextWakeRuns db queue state instant ↔
      ∃ r ∈ db.runs, r.queue = queue ∧ r.state = state ∧ v ∈ instant r ∧ epochBounds.Within v := by
  simp [nextWakeRuns, Option.filter_eq_some_iff, Table.mem_def, and_assoc]

/-- The next wake counts the deadlines of the queue's live tasks. -/
theorem mem_nextWakeTasks {v : ℤ} : v ∈ nextWakeTasks db queue ↔
    ∃ t ∈ db.tasks, t.queue = queue ∧ t.state.Live ∧ v ∈ t.cancelAtMs ∧ epochBounds.Within v := by
  simp [nextWakeTasks, Option.filter_eq_some_iff, Table.mem_def, and_assoc]

/-- The next wake has come when something in the queue has come due. -/
theorem nextWake_le_iff : (∃ wake ∈ nextWakeAtEpochMs db queue, wake ≤ now) ↔ Due db queue now := by
  unfold nextWakeAtEpochMs
  rw [min?_min?_le_iff]
  constructor
  · rintro ⟨leg, hleg, v, hv, hle⟩
    simp only [List.mem_cons, List.not_mem_nil, or_false] at hleg
    obtain rfl | rfl | rfl | rfl := hleg
    · obtain ⟨r, hr, hq, hst, hv, hbounds⟩ := mem_nextWakeRuns.mp hv
      exact .run hr hq (by simp [hst]) ⟨v, hv, hbounds, hle⟩
    · obtain ⟨r, hr, hq, hst, hv, hbounds⟩ := mem_nextWakeRuns.mp hv
      exact .run hr hq (by simp [hst]) ⟨v, hv, hbounds, hle⟩
    · obtain ⟨r, hr, hq, hst, hv, hbounds⟩ := mem_nextWakeRuns.mp hv
      exact .claim hr hq hst ⟨v, hv, hbounds, hle⟩
    · obtain ⟨t, ht, hq, hl, hv, hbounds⟩ := mem_nextWakeTasks.mp hv
      exact .cancel ht hq hl ⟨v, hv, hbounds, hle⟩
  · intro hdue
    cases hdue with
    | @run r hr hq hst hdue =>
      obtain ⟨v, hv, hbounds, hle⟩ := hdue
      refine ⟨nextWakeRuns db queue r.state Run.availableAtMs, ?_, v,
        mem_nextWakeRuns.mpr ⟨r, hr, hq, rfl, hv, hbounds⟩, hle⟩
      cases hstate : r.state with
      | pending | sleeping => simp
      | running | completed | failed | cancelled =>
        rw [hstate] at hst
        exact hst.elim
    | @claim r hr hq hst hexpired =>
      obtain ⟨v, hv, hbounds, hle⟩ := hexpired
      exact ⟨_, by simp, v, mem_nextWakeRuns.mpr ⟨r, hr, hq, hst, hv, hbounds⟩, hle⟩
    | @cancel t ht hq hl hdue =>
      obtain ⟨v, hv, hbounds, hle⟩ := hdue
      exact ⟨_, by simp, v, mem_nextWakeTasks.mpr ⟨t, ht, hq, hl, hv, hbounds⟩, hle⟩

/-! ## What a claim takes -/

/-- A run has at most one registration. -/
theorem Held.unambiguous (h : Held db) (r : Run) : registeredWaitUnambiguous db r := by
  have hnodup : (registeredWaits db r).Nodup :=
    (db.waits.nodup_rows fun _ => List.cons_ne_nil _ _).filter _
  have hone : ∀ w ∈ registeredWaits db r, ∀ w' ∈ registeredWaits db r, w = w' := by
    intro w hw w' hw'
    have hwit := of_decide_eq_true (List.mem_filter.mp hw).2
    have hwit' := of_decide_eq_true (List.mem_filter.mp hw').2
    exact h.unique (List.mem_of_mem_filter hw) (List.mem_of_mem_filter hw')
      (hwit.1.trans hwit'.1.symm)
  unfold registeredWaitUnambiguous
  cases hwaits : registeredWaits db r with
  | nil => exact Nat.zero_le 1
  | cons w rest =>
    cases rest with
    | nil => exact le_rfl
    | cons w' rest =>
      rw [hwaits] at hnodup hone
      exact absurd (hone w (by simp) w' (by simp)) fun heq => by simp [heq] at hnodup

/-- A current run of the store is its task's only live run, on top, and accounted for. -/
structure Sound (db : Db) (r : Run) (t : Task) : Prop where
  sole : soleLiveRun db r
  accounted : storedCurrentRunAccounting r t
  highest : storedHighestOwnedOrdinal db r

/-- A live run of a task is a sound one. -/
theorem Inv.sound (h : Inv db) (hr : r ∈ db.runs) (ht : t ∈ db.tasks) (hid : r.taskId = t.taskId)
    (hl : r.state.Live) : Sound db r t := by
  have hsettled := h.settled t ht
  obtain ⟨htl, hat⟩ := hsettled.current r hr hid hl
  refine ⟨?_, ⟨h.toUnits.attempt_within hr, hsettled.counted.attempts,
    hsettled.counted.maxAttempts, hsettled.counted.infraRetries, hsettled.counted.budget htl, hat⟩, ?_⟩
  · rintro ⟨q, hq, hqid, hql, hne⟩
    exact hne (congrArg Run.runId (h.toUnits.sole hr hq hqid hl hql))
  · rintro ⟨q, hq, hqid, hout | hlt⟩
    · exact hout (h.toUnits.attempt_within hq)
    · exact absurd (hsettled.le_live hq (hqid.trans hid) hr hid hl) (not_le.mpr hlt)

/-- A deadline that is ahead is not due. -/
theorem Task.InBounds.cancelNotDue (h : t.InBounds)
    (hahead : ∀ deadline ∈ t.cancelAtMs, now < deadline) : Durablerun.cancelNotDue t now := by
  cases hcancel : t.cancelAtMs with
  | none => exact Or.inl hcancel
  | some deadline =>
    exact Or.inr ⟨deadline, hcancel, h.cancelAt deadline hcancel, hahead deadline hcancel⟩

/-- A queued run of a task whose deadline is ahead satisfies all a claim requires of it. -/
theorem Inv.claimEligibility (h : Inv db) (hwell : Wellformed db) (hr : r ∈ db.runs)
    (ht : t ∈ db.tasks) (hid : r.taskId = t.taskId) (hq : r.state.Queued)
    (hgen : r.claimGen < claimGenBounds.max) (hahead : ∀ deadline ∈ t.cancelAtMs, now < deadline) :
    claimEligibility db now r t := by
  have hrun := hwell.runs r hr
  have htask := hwell.tasks t ht
  obtain ⟨hsole, haccounted, hhighest⟩ := h.sound hr ht hid hq.live
  have hsafe : registeredWaitTemporallySafe db r := by
    rintro ⟨w, hw, _, v, hv, hout⟩
    exact hout ((h.held w hw).timeout v hv)
  exact ⟨⟨h.toUnits.live hr ht hid hq.live, htask.cancelNotDue hahead⟩, htask.retryAdmissible,
    htask.headers, hsole, Or.inr (h.held.unambiguous r), hsafe, ⟨hrun.claimGen.1, Int.le_sub_one_of_lt hgen⟩,
    ⟨hrun.activatedGen, hrun.latched.trans hrun.claimGen.2⟩, hrun.latched, hrun.relaunchCount,
    haccounted, hhighest⟩

/-- A claim of the queue would take a run. -/
def Claims (db : Db) (queue : String) (now : ℤ) : Prop :=
  ∃ call : ClaimCall, call.queue = queue ∧ (Call.claim call).Valid ∧
    ∃ r ∈ db.runs, claimGuard db now call r

/-- A claim whose limit leaves no run out takes every candidate. -/
theorem mem_candidateRuns {limit : ℕ} (hr : r ∈ db.runs) (hq : r.state.Queued)
    (hcandidate : claimCandidate db now queue r.state r)
    (hlimit : db.runs.rows.length + db.runs.rows.length ≤ limit) :
    r ∈ candidateRuns db now queue limit := by
  have hlength : ∀ state, (candidateLeg db now queue state limit).length ≤ db.runs.rows.length := by
    intro state
    refine (List.length_take_le' _ _).trans ?_
    rw [List.length_insertionSort]
    exact List.length_filter_le _ _
  have hleg : r ∈ candidateLeg db now queue r.state limit := by
    unfold candidateLeg
    rw [List.take_of_length_le, List.mem_insertionSort]
    · exact List.mem_filter.mpr ⟨hr, decide_eq_true hcandidate⟩
    · rw [List.length_insertionSort]
      have := List.length_filter_le (claimCandidate db now queue r.state) db.runs.rows
      omega
  unfold candidateRuns
  rw [List.take_of_length_le, List.mem_insertionSort, List.mem_append]
  · cases hstate : r.state with
    | pending => exact Or.inl (hstate ▸ hleg)
    | sleeping => exact Or.inr (hstate ▸ hleg)
    | running | completed | failed | cancelled =>
      rw [hstate] at hq
      exact hq.elim
  · rw [List.length_insertionSort, List.length_append]
    exact (Nat.add_le_add (hlength _) (hlength _)).trans hlimit

/-- A candidate is taken by a claim under a token that holds nothing. -/
theorem exists_claimGuard (hr : r ∈ db.runs) (hq : r.state.Queued)
    (hcandidate : claimCandidate db now queue r.state r) (hfits : epochAdditionFits now 1) :
    ∃ call : ClaimCall, call.queue = queue ∧ (Call.claim call).Valid ∧ claimGuard db now call r := by
  obtain ⟨token, htoken⟩ := Infinite.exists_notMem_finset
    (db.runs.rows.filterMap Run.claimedBy).toFinset
  have hfree : ¬ ∃ held ∈ db.runs, held.queue = queue ∧ held.state = .running ∧
      held.claimedBy = some token := by
    rintro ⟨held, hheld, _, _, hclaimed⟩
    exact htoken (List.mem_toFinset.mpr (List.mem_filterMap.mpr ⟨held, hheld, hclaimed⟩))
  have hpositive : 0 < db.runs.rows.length + db.runs.rows.length := by
    have := List.length_pos_of_mem hr
    omega
  have hlease : positiveDurationBounds.Within 1 := by decide
  refine ⟨⟨queue, token, 1, _⟩, rfl, ⟨hlease, hpositive⟩, ?_, hfree, hfits⟩
  exact List.mem_map_of_mem (mem_candidateRuns hr hq hcandidate le_rfl)

/-- A queue with a candidate has something to claim. -/
theorem claims_of_candidate (hr : r ∈ db.runs) (hq : r.state.Queued)
    (hcandidate : claimCandidate db now queue r.state r) (hfits : epochAdditionFits now 1) :
    Claims db queue now := by
  obtain ⟨call, hqueue, hvalid, hg⟩ := exists_claimGuard hr hq hcandidate hfits
  exact ⟨call, hqueue, hvalid, r, hr, hg⟩

/-! ## What a sweep takes -/

/-- One of three, and neither of the other two. -/
def ExactlyOne (p q r : Prop) : Prop := (p ∧ ¬ q ∧ ¬ r) ∨ (¬ p ∧ q ∧ ¬ r) ∨ (¬ p ∧ ¬ q ∧ r)

/-- A running run is one a sweep's guards admit. -/
theorem Inv.sweepLiveOwner (h : Inv db) (hwell : Wellformed db) (hr : r ∈ db.runs)
    (ht : t ∈ db.tasks) (hid : r.taskId = t.taskId) (hst : r.state = .running) :
    sweepLiveOwnerAdmissible db r t := by
  have hrun := hwell.runs r hr
  obtain ⟨hsole, haccounted, hhighest⟩ := h.sound hr ht hid (by simp [hst])
  refine ⟨⟨⟨⟨hrun.claimed hst, hrun.claimGen.2⟩, hrun.activatedGen, hrun.latched.trans
    hrun.claimGen.2⟩, hrun.relaunchCount⟩, hsole, haccounted, hhighest, ?_⟩
  obtain hlt | heq := hrun.latched.lt_or_eq
  · exact Or.inl hlt
  · refine Or.inr ⟨heq, ?_⟩
    obtain ⟨hattempt, hattempts, hmax, hinfra, hbudget, hat⟩ := haccounted
    by_cases hcap : t.infraRetries = INFRA_RETRY_CAP
    · exact Or.inl hcap
    · have hbelow : t.infraRetries ≤ INFRA_RETRY_CAP := hinfra.2
      have hspent : t.maxAttempts ≤ MAX_COUNT := hmax.2
      refine Or.inr ⟨⟨hattempt.1, ?_⟩, hat⟩
      show r.attempt ≤ MAX_COUNT + INFRA_RETRY_CAP - 1
      omega

/-- The arm of a sweep that takes an expired claim, by its generations and its relaunches. -/
theorem Inv.sweepArms (h : Inv db) (hwell : Wellformed db) (hr : r ∈ db.runs)
    {swept : Swept} (hswept : whereSweptClaim swept r) (hexpired : runClaimExpired r now)
    (hfits : epochAdditionFits now (RELAUNCH_BACKOFF_MAX_SECONDS * 1000)) :
    ExactlyOne (reopenGuard db now swept r) (capGuard db now swept r)
      (claimTimeoutGuard db now swept r) := by
  have hst : r.state = .running := hswept.2.2.1
  obtain ⟨t, ht, hown⟩ := h.owner r hr
  have hl : t.state.Live := h.toUnits.live hr ht hown.1.symm (by simp [hst])
  have hadmits := h.sweepLiveOwner hwell hr ht hown.1.symm hst
  have howner : sweptLiveOwner db r := ⟨t, ht, hown, hl, hadmits⟩
  have hrun := hwell.runs r hr
  have hcount := hrun.relaunchCount
  obtain ⟨hbase, hroom⟩ := hfits
  have hbackoff : epochAdditionFits now (relaunchDelayMs r) := by
    refine ⟨hbase, ?_⟩
    simp only [relaunchDelayMs]
    omega
  obtain hlt | heq := hrun.latched.lt_or_eq
  · have hno : ¬ claimTimeoutGuard db now swept r := fun hg => hlt.ne hg.2.1.1
    obtain hbelow | hat := hcount.2.lt_or_eq
    · exact Or.inl ⟨⟨hswept, ⟨hlt, hexpired⟩, hbelow, howner, hbackoff⟩, fun hg =>
        hbelow.ne hg.2.2.1, hno⟩
    · exact Or.inr (Or.inl ⟨fun hg => hg.2.2.1.ne hat, ⟨hswept, ⟨hlt, hexpired⟩, hat,
        Or.inl howner⟩, hno⟩)
  · have hno : ¬ launchLost now r := fun hlost => hlost.1.ne heq
    have hinfra : epochAdditionFits now (INFRA_BACKOFF_SECONDS * 1000) := by
      refine ⟨hbase, ?_⟩
      simp only [INFRA_BACKOFF_SECONDS, RELAUNCH_BACKOFF_MAX_SECONDS] at hroom ⊢
      omega
    exact Or.inr (Or.inr ⟨fun hg => hno hg.2.1, fun hg => hno hg.2.1, hswept, ⟨heq, hexpired⟩, t, ht,
      hown, Or.inr ⟨hl, hadmits, Or.inr hinfra⟩⟩)

/-! ## A sweep that wins -/

/-- A delivery of the batch at this instant wins. -/
def Batch.Wins (b : Batch) (now : ℤ) (db : Db) : Prop :=
  ∃ out, b.run now db = some out ∧ out.won ≠ none

variable {db₁ db₂ : Db} {name fence : Statement} {runId successorId : String} {swept : Swept}

/-- A run can be placed after the one this batch fenced, or it is there. -/
def Room (db : Db) (seed runId successorId : String) (fence : Statement) : Prop :=
  ∀ f ∈ db.runs, f.runId = runId → f.fenceStamp = some ⟨seed, fence⟩ →
    ¬ successorOwned db successorId f.taskId (f.attempt + 1) →
      (∀ r ∈ db.runs, r.runId ≠ successorId) ∧
        ∀ r ∈ db.runs, r.taskId = f.taskId → r.attempt ≤ f.attempt

/-- A compare-and-set of live runs leaves room for a run of a new identity. -/
theorem Inv.room (h : Inv db) (hrel : Table.Rel Run.Same db.runs db₁.runs)
    (hnew : ∀ r ∈ db.runs, r.runId ≠ successorId)
    (hlive : ∀ f ∈ db₁.runs, f.fenceStamp = some ⟨seed, fence⟩ →
      ∃ r ∈ db.runs, r.Same f ∧ r.state.Live) : Room db₁ seed runId successorId fence := by
  intro f hf _ hs _
  obtain ⟨r, hr, hsame, hl⟩ := hlive f hf hs
  obtain ⟨t, ht, hown⟩ := h.owner r hr
  refine ⟨fun q hq hid => ?_, fun q hq hid => ?_⟩
  · obtain ⟨q₀, hq₀, hsame'⟩ := hrel.before q hq
    exact hnew q₀ hq₀ (hsame'.runId.symm.trans hid)
  · obtain ⟨q₀, hq₀, hsame'⟩ := hrel.before q hq
    have hqid : q₀.taskId = t.taskId :=
      hsame'.taskId.symm.trans (hid.trans (hsame.taskId.trans hown.1.symm))
    rw [hsame'.attempt, hsame.attempt]
    exact (h.settled t ht).le_live hq₀ hqid hr hown.1.symm hl

section Successor

variable {delayMs : ℤ} {state : TaskState} {admission : Run → Task → Prop}
  [∀ f t, Decidable (admission f t)]

/-- Where there is room, a successor's insert is refused by no constraint. -/
theorem Room.failureSuccessor (h : Room db₁ seed runId successorId fence) :
    ∃ db', failureSuccessor db₁ seed name fence successorId runId delayMs state admission =
      some db' := by
  unfold Durablerun.failureSuccessor
  cases hstamped : stampedRun db₁ seed runId fence with
  | none => exact ⟨db₁, rfl⟩
  | some f =>
    obtain ⟨hf, hid, hs⟩ := stampedRun_eq_some.mp hstamped
    by_cases hplaces : (∃ t ∈ db₁.tasks, runOwnedByTask f t ∧ admission f t) ∧
        ¬ successorOwned db₁ successorId f.taskId (f.attempt + 1)
    · obtain ⟨hnew, htop⟩ := h f hf hid hs hplaces.2
      have hfree : db₁.runs.Free (successorRun seed name successorId f state
          (f.fenceAtMs + delayMs) f.fenceAtMs) := by
        refine Db.run_free hnew fun r hr hrid hat => ?_
        have hle := htop r hr hrid
        simp only [successorRun] at hat
        omega
      refine ⟨{ db₁ with runs := db₁.runs.push _ hfree }, (if_pos hplaces).trans ?_⟩
      rw [Table.insert?_of_free hfree]
      rfl
    · exact ⟨db₁, if_neg hplaces⟩

/-- And there is room still when the successor is placed. -/
theorem Room.placed (h : Room db₁ seed runId successorId fence) (hname : name ≠ fence)
    (hrun : Durablerun.failureSuccessor db₁ seed name fence successorId runId delayMs state
      admission = some db₂) : Room db₂ seed runId successorId fence := by
  obtain ⟨rfl, _⟩ | ⟨f, hf, _, runs, _, hruns, rfl⟩ := failureSuccessor_cases hrun
  · exact h
  · obtain ⟨hf, hid, _⟩ := stampedRun_eq_some.mp hf
    intro g hg hgid hgs hno
    obtain hg | rfl := (hruns g).mp hg
    · obtain rfl := db₁.run_unique hg hf (hgid.trans hid.symm)
      exact absurd ⟨_, (hruns _).mpr (Or.inr rfl), rfl, rfl, rfl⟩ hno
    · exact absurd (Stamp.mk.inj (Option.some.inj hgs)).2 hname

/-- With room after a run, its rollback pass is placed. -/
theorem Room.sagaPass {enteringWith : Option String}
    (h : Room db₁ seed runId successorId fence) :
    ∃ db', sagaPass db₁ seed queue runId successorId fence enteringWith delayMs admission =
      some db' := by
  obtain ⟨placed, hplaced⟩ : ∃ placed, Durablerun.failureSuccessor db₁ seed .rollbackPass fence
      successorId runId delayMs (if delayMs ≤ 0 then .pending else .sleeping)
      (passAdmission admission) = some placed := h.failureSuccessor
  exact ⟨_, Option.bind_eq_some_iff.mpr ⟨placed, hplaced, rfl⟩⟩

end Successor

/-- The batch of a lost launch is refused by no constraint. -/
theorem Inv.lostLaunch_runs (h : Inv db) (hfresh : Unstamped db seed)
    (hnew : ∀ r ∈ db.runs, r.runId ≠ swept.passId) :
    ∃ passed, capSagaPass (capLostLaunchCas (reopenLostLaunchCas db seed swept now) seed swept now)
      seed swept .cap REASON_RELAUNCH_CAP = some passed := by
  set reopened := reopenLostLaunchCas db seed swept now
  have hfirst : Table.Rel Run.Same db.runs reopened.runs :=
    .update (fun _ _ _ => ⟨rfl, rfl, rfl, rfl⟩) fun r _ _ => .refl r
  have hsecond : Table.Rel Run.Same reopened.runs (capLostLaunchCas reopened seed swept now).runs :=
    .update (fun _ _ _ => ⟨rfl, rfl, rfl, rfl⟩) fun r _ _ => .refl r
  have hroom : Room (capLostLaunchCas reopened seed swept now) seed swept.runId swept.passId .cap := by
    refine h.room (hfirst.trans (fun _ _ _ hab hbc => hab.trans hbc) hsecond) hnew fun f hf hs => ?_
    obtain ⟨q, hq, hcap, rfl⟩ | ⟨hf, _⟩ := Table.update_cases hf
    · obtain ⟨q₀, _, _, rfl⟩ | ⟨hq, _⟩ := Table.update_cases hq
      · cases hcap.1.2.2.1
      · have hrunning : q.state = .running := hcap.1.2.2.1
        exact ⟨q, hq, ⟨rfl, rfl, rfl, rfl⟩, by simp [hrunning]⟩
    · obtain ⟨q₀, _, _, rfl⟩ | ⟨hf, _⟩ := Table.update_cases hf
      · cases hs
      · exact absurd rfl (hfresh f hf _ hs)
  exact hroom.sagaPass

/-- The sweep of a lost launch wins where one of its arms takes a run. -/
theorem Inv.sweepLostLaunch_wins (h : Inv db) (hfresh : Unstamped db seed)
    (hnew : ∀ r ∈ db.runs, r.runId ≠ swept.passId) (hr : r ∈ db.runs)
    (hg : reopenGuard db now swept r ∨ capGuard db now swept r) :
    (⟨seed, .sweepLostLaunch swept⟩ : Batch).Wins now db := by
  obtain ⟨passed, hpassed⟩ := h.lostLaunch_runs hfresh hnew
  set reopened := reopenLostLaunchCas db seed swept now with hreopened
  refine ⟨_, Option.bind_eq_some_iff.mpr ⟨passed, hpassed, rfl⟩, ?_⟩
  show (wonBy .reopen (∃ r ∈ db.runs, reopenGuard db now swept r)).or
    (wonBy .cap (∃ r ∈ reopened.runs, capGuard reopened now swept r)) ≠ none
  intro hnone
  obtain ⟨hno, hnocap⟩ := Option.or_eq_none_iff.mp hnone
  by_cases hreopen : ∃ r ∈ db.runs, reopenGuard db now swept r
  · rw [wonBy_eq_some.mpr ⟨hreopen, rfl⟩] at hno
    cases hno
  · have hsame : reopened = db := updateRuns_of_forall_not fun q hq hgq => hreopen ⟨q, hq, hgq⟩
    have hcap : ∃ r ∈ reopened.runs, capGuard reopened now swept r := by
      rw [hsame]
      exact ⟨r, hr, hg.resolve_left fun hgr => hreopen ⟨r, hr, hgr⟩⟩
    rw [wonBy_eq_some.mpr ⟨hcap, rfl⟩] at hnocap
    cases hnocap

/-- The batch of a dead claim is refused by no constraint. -/
theorem Inv.claimTimeout_runs (h : Inv db) (hfresh : Unstamped db seed)
    (hnew : ∀ r ∈ db.runs, r.runId ≠ swept.passId) :
    ∃ placed passed, claimTimeoutSuccessor (failClaimTimeoutCas db seed swept now) seed swept =
      some placed ∧ capSagaPass placed seed swept .fail REASON_INFRA_CAP = some passed := by
  set failed := failClaimTimeoutCas db seed swept now
  have hsame : Table.Rel Run.Same db.runs failed.runs :=
    .update (fun _ _ _ => ⟨rfl, rfl, rfl, rfl⟩) fun r _ _ => .refl r
  have hroom : Room failed seed swept.runId swept.passId .fail := by
    refine h.room hsame hnew fun f hf hs => ?_
    obtain ⟨q, hq, hgq, rfl⟩ | ⟨hf, _⟩ := Table.update_cases hf
    · have hrunning : q.state = .running := hgq.1.2.2.1
      exact ⟨q, hq, ⟨rfl, rfl, rfl, rfl⟩, by simp [hrunning]⟩
    · exact absurd rfl (hfresh f hf _ hs)
  obtain ⟨placed, hplaced⟩ : ∃ placed, claimTimeoutSuccessor failed seed swept = some placed :=
    hroom.failureSuccessor
  have hroom' : Room placed seed swept.runId swept.passId .fail :=
    hroom.placed (by decide) hplaced
  obtain ⟨passed, hpassed⟩ : ∃ passed, capSagaPass placed seed swept .fail REASON_INFRA_CAP =
      some passed := hroom'.sagaPass
  exact ⟨placed, passed, hplaced, hpassed⟩

/-- The sweep of a dead claim wins where it takes a run. -/
theorem Inv.sweepClaimTimeout_wins (h : Inv db) (hfresh : Unstamped db seed)
    (hnew : ∀ r ∈ db.runs, r.runId ≠ swept.passId) (hr : r ∈ db.runs)
    (hg : claimTimeoutGuard db now swept r) :
    (⟨seed, .sweepClaimTimeout swept⟩ : Batch).Wins now db := by
  obtain ⟨placed, passed, hplaced, hpassed⟩ := h.claimTimeout_runs hfresh hnew
  refine ⟨_, Option.bind_eq_some_iff.mpr ⟨placed, hplaced,
    Option.bind_eq_some_iff.mpr ⟨passed, hpassed, rfl⟩⟩, ?_⟩
  have hwon : wonBy .fail (∃ r ∈ db.runs, claimTimeoutGuard db now swept r) = some .fail :=
    wonBy_eq_some.mpr ⟨⟨r, hr, hg⟩, rfl⟩
  exact Option.ne_none_iff_exists'.mpr ⟨_, hwon⟩

/-- A cancellation wins where it takes a task. -/
theorem cancelTransition_wins {c : Cancellation} (ht : t ∈ db.tasks) (hg : cancelGuard db now c t) :
    (⟨seed, .cancelTransition c⟩ : Batch).Wins now db := by
  have hwon : wonBy .cancel (∃ t ∈ db.tasks, cancelGuard db now c t) = some .cancel :=
    wonBy_eq_some.mpr ⟨⟨t, ht, hg⟩, rfl⟩
  exact ⟨_, rfl, Option.ne_none_iff_exists'.mpr ⟨_, hwon⟩⟩

/-! ## What the scan finds -/

variable {limit : ℕ} {mint : Run → String}

/-- What a sweep's scan finds is due. -/
theorem sweepItems_due {call : Call} (hcall : call ∈ sweepItems db now queue limit mint) :
    (∃ t ∈ db.tasks, sweepCancelsDue db now queue t ∧
      call = .cancelTransition ⟨queue, t.taskId, true, false⟩) ∨
      ∃ r ∈ db.runs, sweepClaimsExpired db now queue r ∧ call = sweepExpired queue mint r := by
  rcases List.mem_append.mp (List.mem_of_mem_take hcall) with hcancel | hexpired
  · obtain ⟨t, ht, rfl⟩ := List.mem_map.mp hcancel
    have hfound := List.mem_filter.mp ((List.mem_insertionSort _).mp (List.mem_of_mem_take ht))
    exact Or.inl ⟨t, hfound.1, of_decide_eq_true hfound.2, rfl⟩
  · obtain ⟨r, hr, rfl⟩ := List.mem_map.mp hexpired
    have hfound := List.mem_filter.mp ((List.mem_insertionSort _).mp (List.mem_of_mem_take hr))
    exact Or.inr ⟨r, hfound.1, of_decide_eq_true hfound.2, rfl⟩

/-- The first rows of a sorted list, when there is one. -/
theorem take_insertionSort_ne_nil {α : Type} {order : α → α → Prop} [DecidableRel order] {l : List α}
    {x : α} (hx : x ∈ l) (hlimit : 0 < limit) : (l.insertionSort order).take limit ≠ [] := by
  rw [Ne, List.take_eq_nil_iff]
  rintro (hzero | hnil)
  · omega
  · have hmem := (List.mem_insertionSort order).mpr hx
    rw [hnil] at hmem
    exact absurd hmem List.not_mem_nil

/-- A scan finds something when something is due. -/
theorem sweepItems_ne_nil (hlimit : 0 < limit)
    (hdue : (∃ t ∈ db.tasks, sweepCancelsDue db now queue t) ∨
      ∃ r ∈ db.runs, sweepClaimsExpired db now queue r) :
    sweepItems db now queue limit mint ≠ [] := by
  unfold sweepItems
  rw [Ne, List.take_eq_nil_iff, List.append_eq_nil_iff, List.map_eq_nil_iff, List.map_eq_nil_iff]
  rintro (hzero | ⟨hcancels, hclaims⟩)
  · omega
  · rcases hdue with ⟨t, ht, hdue⟩ | ⟨r, hr, hexpired⟩
    · exact take_insertionSort_ne_nil (List.mem_filter.mpr ⟨ht, decide_eq_true hdue⟩) hlimit hcancels
    · exact take_insertionSort_ne_nil (List.mem_filter.mpr ⟨hr, decide_eq_true hexpired⟩) hlimit
        hclaims

/-- The task owns every run that names it. -/
theorem Owned.taskOwnsEveryRun (h : Owned db) (ht : t ∈ db.tasks) : taskOwnsEveryRun db t := by
  rintro ⟨r, hr, hid, hne⟩
  exact hne (h.runOwnedByTask hr ht hid).2.symm

/-- The batch of an expired claim wins. -/
theorem Inv.sweepExpired_wins (h : Inv db) (hwell : Wellformed db) (hfresh : Unstamped db seed)
    (hnew : ∀ q ∈ db.runs, q.runId ≠ mint r)
    (hfits : epochAdditionFits now (RELAUNCH_BACKOFF_MAX_SECONDS * 1000)) (hr : r ∈ db.runs)
    (hexpired : sweepClaimsExpired db now queue r) :
    (⟨seed, sweepExpired queue mint r⟩ : Batch).Wins now db := by
  obtain ⟨hq, hst, hexpired, _⟩ := hexpired
  have hswept : whereSweptClaim ⟨queue, r.runId, r.taskId, r.claimGen, mint r⟩ r :=
    ⟨rfl, hq, hst, rfl⟩
  have harms := h.sweepArms hwell hr hswept hexpired hfits
  unfold sweepExpired
  by_cases hlt : r.activatedGen < r.claimGen
  · rw [if_pos hlt]
    refine h.sweepLostLaunch_wins hfresh hnew hr ?_
    obtain ⟨hreopen, _⟩ | ⟨_, hcap, _⟩ | ⟨_, _, htimeout⟩ := harms
    · exact Or.inl hreopen
    · exact Or.inr hcap
    · exact absurd htimeout.2.1.1 hlt.ne
  · rw [if_neg hlt]
    refine h.sweepClaimTimeout_wins hfresh hnew hr ?_
    obtain ⟨hreopen, _⟩ | ⟨_, hcap, _⟩ | ⟨_, _, htimeout⟩ := harms
    · exact absurd hreopen.2.1.1 hlt
    · exact absurd hcap.2.1.1 hlt
    · exact htimeout

/-- The batch of every row a scan finds wins. -/
theorem Inv.sweepItems_win (h : Inv db) (hwell : Wellformed db) (hfresh : Unstamped db seed)
    (hnew : ∀ r, ∀ q ∈ db.runs, q.runId ≠ mint r)
    (hfits : epochAdditionFits now (RELAUNCH_BACKOFF_MAX_SECONDS * 1000)) {call : Call}
    (hcall : call ∈ sweepItems db now queue limit mint) :
    (⟨seed, call⟩ : Batch).Wins now db := by
  obtain ⟨t, ht, ⟨hq, hdue, hl, howns⟩, rfl⟩ | ⟨r, hr, hexpired, rfl⟩ := sweepItems_due hcall
  · exact cancelTransition_wins ht ⟨rfl, hq, hl, fun _ => hdue, howns, nofun⟩
  · exact h.sweepExpired_wins hwell hfresh (hnew r) hfits hr hexpired

/-! ## Runs of the store -/

/-- Nothing in the queue is stranded at the instant, and the next wake is exact. -/
structure Timely (s : Sys) (queue : String) (now : ℤ) : Prop where
  /-- A claim would take a run, or the batch of a row that a sweep's scan finds wins, exactly when
  the next wake has come. -/
  wakes : ∀ (seed : String) (mint : Run → String) (limit : ℕ), s.Fresh seed →
    (∀ r, ∀ q ∈ s.db.runs, q.runId ≠ mint r) → 0 < limit →
      ((Claims s.db queue now ∨
        ∃ call ∈ sweepItems s.db now queue limit mint, (⟨seed, call⟩ : Batch).Wins now s.db) ↔
        ∃ wake ∈ nextWakeAtEpochMs s.db queue, wake ≤ now)
  /-- The batch of every row the scan finds wins. -/
  found : ∀ (seed : String) (mint : Run → String) (limit : ℕ), s.Fresh seed →
    (∀ r, ∀ q ∈ s.db.runs, q.runId ≠ mint r) →
      ∀ call ∈ sweepItems s.db now queue limit mint, (⟨seed, call⟩ : Batch).Wins now s.db
  /-- A due run of a task whose deadline is ahead is a candidate of every claim. -/
  claimed : ∀ r ∈ s.db.runs, r.queue = queue → r.state.Queued → (∃ v ∈ r.availableAtMs, v ≤ now) →
    ∀ t ∈ s.db.tasks, runOwnedByTask r t → (∀ deadline ∈ t.cancelAtMs, now < deadline) →
      claimCandidate s.db now queue r.state r
  /-- An expired claim is found, and one arm of the sweep takes it. -/
  swept : ∀ r ∈ s.db.runs, r.queue = queue → r.state = .running →
    (∃ v ∈ r.claimExpiresAtMs, v ≤ now) → sweepClaimsExpired s.db now queue r ∧
      ∀ swept, whereSweptClaim swept r → ExactlyOne (reopenGuard s.db now swept r)
        (capGuard s.db now swept r) (claimTimeoutGuard s.db now swept r)
  /-- A live task at or past its deadline is found. -/
  cancelled : ∀ t ∈ s.db.tasks, t.queue = queue → t.state.Live →
    (∃ deadline ∈ t.cancelAtMs, deadline ≤ now) → sweepCancelsDue s.db now queue t
  /-- The launch of a claim is admitted until it activates, while the deadline is ahead. -/
  launched : ∀ r ∈ s.db.runs, r.state = .running → ∀ t ∈ s.db.tasks, runOwnedByTask r t →
    (∀ deadline ∈ t.cancelAtMs, now < deadline) → claimReceiptAdmission s.db now (fun _ => True) r
  /-- A pending run has an instant, and a running one an expiry. -/
  dated : ∀ r ∈ s.db.runs, (r.state = .pending → ∃ v ∈ r.availableAtMs, 0 ≤ v) ∧
    (r.state = .running → epochBounds.Stored r.claimExpiresAtMs)

/-- A deadline that is not ahead is due. -/
theorem Task.InBounds.cancelDue (h : t.InBounds)
    (hdue : ∃ deadline ∈ t.cancelAtMs, deadline ≤ now) : Durablerun.cancelDue t now := by
  obtain ⟨deadline, hdeadline, hle⟩ := hdue
  exact ⟨deadline, hdeadline, h.cancelAt deadline hdeadline, hle⟩

/-- A claim that is not ahead of its expiry has expired. -/
theorem Run.InBounds.claimExpired (h : r.InBounds) (hst : r.state = .running)
    (hdue : ∃ v ∈ r.claimExpiresAtMs, v ≤ now) : runClaimExpired r now := by
  obtain ⟨v, hv, hle⟩ := hdue
  obtain ⟨w, hw, hbounds⟩ := h.expires hst
  obtain rfl := Option.mem_unique hv hw
  exact ⟨v, hv, hbounds, hle⟩

/-- A claim that has yet to activate is admitted. -/
theorem Inv.claimReceiptAdmission (h : Inv db) (hwell : Wellformed db) (hr : r ∈ db.runs)
    (hst : r.state = .running) (ht : t ∈ db.tasks) (hown : runOwnedByTask r t)
    (hahead : ∀ deadline ∈ t.cancelAtMs, now < deadline) :
    claimReceiptAdmission db now (fun _ => True) r := by
  have hrun := hwell.runs r hr
  have htask := hwell.tasks t ht
  obtain ⟨hsole, haccounted, hhighest⟩ := h.sound hr ht hown.1.symm (by simp [hst])
  refine ⟨⟨hrun.claimed hst, hrun.claimGen.2⟩, ⟨hrun.activatedGen, hrun.latched.trans
    hrun.claimGen.2⟩, hrun.leased hst, hrun.relaunchCount, hsole, t, ht, hown, ?_,
    htask.retryAdmissible, htask.headers, haccounted, hhighest, trivial⟩
  exact ⟨h.toUnits.live hr ht hown.1.symm (by simp [hst]), htask.cancelNotDue hahead⟩

/-- In every reachable state whose calls passed the port's checks, for a queue whose generations are
below their bound, and at every instant with room for the engine's backoffs: some claim or sweep
takes a row exactly when the next wake has come, and no guard refuses a row that is due. -/
theorem reachable_timely (h : Reachable Repeats s) (hvalid : ∀ e ∈ s.history, e.batch.call.Valid)
    (queue : String) (hgens : ∀ r ∈ s.db.runs, r.queue = queue → r.claimGen < claimGenBounds.max)
    (now : ℤ) (hfits : epochAdditionFits now (RELAUNCH_BACKOFF_MAX_SECONDS * 1000)) :
    Timely s queue now := by
  have hcourse := h.course fun _ _ hrepeats => hrepeats
  have hinv : Inv s.db := hcourse.inv
  obtain ⟨_, hwell⟩ := h.wellformed hvalid
  obtain ⟨⟨hnow, hepoch⟩, hroom⟩ := hfits
  have hlease : epochAdditionFits now 1 := by
    refine ⟨⟨hnow, hepoch⟩, ?_⟩
    simp only [RELAUNCH_BACKOFF_MAX_SECONDS] at hroom
    omega
  -- What is due and admitted in the state is selected: a guard refuses no row that is due.
  have hclaimed : ∀ r ∈ s.db.runs, r.queue = queue → r.state.Queued →
      (∃ v ∈ r.availableAtMs, v ≤ now) → ∀ t ∈ s.db.tasks, runOwnedByTask r t →
        (∀ deadline ∈ t.cancelAtMs, now < deadline) → claimCandidate s.db now queue r.state r := by
    rintro r hr hq hst ⟨v, hv, hle⟩ t ht hown hahead
    have hpositive := (hwell.fromEpoch.runs r hr).available v hv
    exact ⟨hq, rfl, ⟨v, hv, ⟨hpositive, hle.trans hepoch⟩, hle⟩, t, ht, hown,
      hinv.claimEligibility hwell hr ht hown.1.symm hst (hgens r hr hq) hahead⟩
  have hswept : ∀ r ∈ s.db.runs, r.queue = queue → r.state = .running →
      (∃ v ∈ r.claimExpiresAtMs, v ≤ now) → sweepClaimsExpired s.db now queue r := by
    intro r hr hq hst hdue
    obtain ⟨t, ht, hown⟩ := hinv.owner r hr
    exact ⟨hq, hst, (hwell.runs r hr).claimExpired hst hdue, t, ht, hown, Or.inl
      ⟨hinv.toUnits.live hr ht hown.1.symm (by simp [hst]),
        hinv.sweepLiveOwner hwell hr ht hown.1.symm hst⟩⟩
  have hcancelled : ∀ t ∈ s.db.tasks, t.queue = queue → t.state.Live →
      (∃ deadline ∈ t.cancelAtMs, deadline ≤ now) → sweepCancelsDue s.db now queue t :=
    fun t ht hq hl hdue => ⟨hq, (hwell.tasks t ht).cancelDue hdue, hl,
      hinv.toOwned.taskOwnsEveryRun ht⟩
  have hfound : ∀ (seed : String) (mint : Run → String) (limit : ℕ), s.Fresh seed →
      (∀ r, ∀ q ∈ s.db.runs, q.runId ≠ mint r) →
        ∀ call ∈ sweepItems s.db now queue limit mint, (⟨seed, call⟩ : Batch).Wins now s.db :=
    fun seed mint limit hfresh hnew call hcall => hinv.sweepItems_win hwell
      (hcourse.stamps seed hfresh) hnew ⟨⟨hnow, hepoch⟩, hroom⟩ hcall
  refine ⟨fun seed mint limit hfresh hnew hlimit => ?_, hfound, hclaimed,
    fun r hr hq hst hdue => ⟨hswept r hr hq hst hdue, fun taken htaken => ?_⟩, hcancelled,
    fun r hr hst t ht hown hahead => hinv.claimReceiptAdmission hwell hr hst ht hown hahead,
    fun r hr => ⟨fun hst => ?_, (hwell.runs r hr).expires⟩⟩
  · rw [nextWake_le_iff]
    have hsweeps : ((∃ t ∈ s.db.tasks, sweepCancelsDue s.db now queue t) ∨
        ∃ r ∈ s.db.runs, sweepClaimsExpired s.db now queue r) →
          ∃ call ∈ sweepItems s.db now queue limit mint,
            (⟨seed, call⟩ : Batch).Wins now s.db := by
      intro hdue
      obtain ⟨call, hcall⟩ := List.exists_mem_of_ne_nil _ (sweepItems_ne_nil hlimit hdue)
      exact ⟨call, hcall, hfound seed mint limit hfresh hnew call hcall⟩
    constructor
    · rintro (⟨call, rfl, _, r, hr, hg⟩ | ⟨call, hcall, _⟩)
      · obtain ⟨⟨hq, _, hdue, _⟩, hst⟩ := hg.candidate hr
        exact .run hr hq hst hdue
      · obtain ⟨t, ht, ⟨hq, hdue, hl, _⟩, _⟩ | ⟨r, hr, ⟨hq, hst, hexpired, _⟩, _⟩ :=
          sweepItems_due hcall
        · exact .cancel ht hq hl hdue
        · exact .claim hr hq hst hexpired
    · intro hdue
      cases hdue with
      | @run r hr hq hst hdue =>
        obtain ⟨t, ht, hown⟩ := hinv.owner r hr
        obtain ⟨v, hv, _, hle⟩ := hdue
        -- A due run whose task's deadline is ahead is claimed; one whose deadline has passed is the
        -- sweep's.
        by_cases hahead : ∀ deadline ∈ t.cancelAtMs, now < deadline
        · exact Or.inl (claims_of_candidate hr hst (hclaimed r hr hq hst ⟨v, hv, hle⟩ t ht hown
            hahead) hlease)
        · push Not at hahead
          exact Or.inr (hsweeps (Or.inl ⟨t, ht, hcancelled t ht (hown.2.trans hq)
            (hinv.toUnits.live hr ht hown.1.symm hst.live) hahead⟩))
      | @claim r hr hq hst hexpired =>
        obtain ⟨v, hv, _, hle⟩ := hexpired
        exact Or.inr (hsweeps (Or.inr ⟨r, hr, hswept r hr hq hst ⟨v, hv, hle⟩⟩))
      | @cancel t ht hq hl hdue =>
        obtain ⟨v, hv, _, hle⟩ := hdue
        exact Or.inr (hsweeps (Or.inl ⟨t, ht, hcancelled t ht hq hl ⟨v, hv, hle⟩⟩))
  · exact hinv.sweepArms hwell hr htaken ((hwell.runs r hr).claimExpired hst hdue)
      ⟨⟨hnow, hepoch⟩, hroom⟩
  · obtain ⟨v, hv⟩ := Option.ne_none_iff_exists'.mp ((hwell.runs r hr).available hst)
    exact ⟨v, hv, (hwell.fromEpoch.runs r hr).available v hv⟩

/-- A run claimed for a second is timely when that second is over. -/
theorem reachable_timely_runningOne :
    nextWakeAtEpochMs runningOne.db "q" = some 1002 ∧ Timely runningOne "q" 1002 :=
  ⟨by decide, reachable_timely (runningOne_reachable _) runningOne_valid "q" (by decide) 1002
    (by decide)⟩

end Durablerun
