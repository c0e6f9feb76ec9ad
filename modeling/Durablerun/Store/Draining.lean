import Durablerun.Store.Launches
import Durablerun.Store.SweepReports
import Mathlib.Algebra.BigOperators.Group.Finset.Basic
import Mathlib.Algebra.Order.BigOperators.Group.Finset

/-!
# What the driver's batches use up

A claim, a sweep or a cancellation takes a task nearer its end: it has fewer runs left, or its run
fewer relaunches, or the run left the queue. The rank of a life is what is left of it, and the rank of
the database the sum of its tasks'; a driver alone can only spend it.

Reference: `packages/store-libsql/src/store.ts` and `packages/driver/src/tick.ts`.
-/

namespace Durablerun

open Relational

namespace Lifecycle

variable {a : Action} {s s' : State}

/-- How far a run is from being claimed. -/
def Current.phase (run : Current) : ℕ :=
  match run.state with
  | .sleeping => 3
  | .pending => 2
  | .running | .completed | .failed | .cancelled => 0

/-- What is left of a life for the driver to take: a run yet to be placed counts for more than a
placed one, whose own part is `4 * RELAUNCH_CAP + 4` at the most. -/
def State.rank : State → ℕ
  | .unspawned | .ended _ _ _ => 0
  | .live c run =>
    24 * ((MAX_COUNT - c.attempts).toNat + (INFRA_RETRY_CAP - c.infraRetries).toNat) +
      4 * (RELAUNCH_CAP - run.relaunchCount).toNat + run.phase + 1

/-- The actions of a driver: of its claims, its sweeps and its cancellations. -/
def Action.Driven : Action → Prop
  | .claim | .wake | .sweepLostLaunch | .sweepClaimTimeout | .rollbackPass | .sweepExhausted
  | .cancel => True
  | _ => False

/-- A run has at most three phases left. -/
theorem Current.phase_le (run : Current) : run.phase ≤ 3 := by
  unfold Current.phase
  split <;> decide

/-- A driver's action leaves less. -/
theorem Step.rank_lt (h : Step a s s') (ha : a.Driven) : s'.rank < s.rank := by
  cases h with
  | @claim c run hq =>
    have hbefore : 2 ≤ run.phase := by
      unfold Current.phase
      cases hst : run.state <;> simp_all [TaskState.Queued]
    simp only [State.rank, Current.phase] at hbefore ⊢
    omega
  | @wake c run hsleeping =>
    have hbefore : run.phase = 3 := by simp [Current.phase, hsleeping]
    simp only [State.rank, hbefore]
    simp only [Current.phase]
    omega
  | @sweepLostLaunch c run hrunning _ hbelow =>
    have hbefore : run.phase = 0 := by simp [Current.phase, hrunning]
    simp only [State.rank, hbefore]
    simp only [Current.phase]
    omega
  | @sweepClaimTimeout c run hrunning _ hbelow =>
    simp only [State.rank, Current.placed, Current.phase, RELAUNCH_CAP]
    omega
  | @rollbackPass c run state hrunning hroom hq =>
    have hplaced := (Current.placed (run.ordinal + 1) state).phase_le
    simp only [State.rank]
    simp only [Current.placed, RELAUNCH_CAP] at hplaced ⊢
    omega
  | sweepExhausted | cancel =>
    simp only [State.rank]
    omega
  | spawn | activate | park | failRunWithRetry | complete | failRunTerminal | retryTask =>
    exact ha.elim

end Lifecycle

variable {s : Sys} {b : Batch} {now : ℤ} {db : Db} {r : Run}

/-- The calls of a driver. -/
def Call.Drives : Call → Prop
  | .claim _ | .sweepLostLaunch _ | .sweepClaimTimeout _ | .cancelTransition _
  | .expireLeaseNow _ => True
  | _ => False

/-- What a driver's call does to a task, the driver does. -/
theorem Call.Drives.driven {call : Call} {a : Lifecycle.Action} (h : call.Drives)
    (ha : call.Acts a) : a.Driven := by
  cases call with
  | claim | sweepLostLaunch | sweepClaimTimeout | cancelTransition | expireLeaseNow =>
    cases a <;> trivial
  | spawn | activate | heartbeat | deferLaunch | reschedule | suspendRun | awaitEvent
  | recordTaskDone | emitEvent | setCheckpoint | complete | failInto | retryTask => exact h.elim

/-- The ids of the tasks. -/
def Db.taskIds (db : Db) : Finset String := (db.tasks.rows.map Task.taskId).toFinset

/-- What is left of all lives. -/
def Db.rank (db : Db) : ℕ := ∑ id ∈ db.taskIds, (lifeOf db id).rank

/-- A task id of a store is that of a task. -/
theorem Db.mem_taskIds {db : Db} {id : String} :
    id ∈ db.taskIds ↔ ∃ t ∈ db.tasks, t.taskId = id := by
  simp [Db.taskIds, Table.mem_def]

/-- A driver's batch neither adds a task nor loses one. -/
theorem Delivers.taskIds (h : Delivers s b now) (hcall : b.call.Drives) :
    (b.after now s.db).taskIds = s.db.taskIds := by
  ext id
  rw [Db.mem_taskIds, Db.mem_taskIds]
  constructor
  · rintro ⟨t', ht', rfl⟩
    obtain ⟨t, ht, hm⟩ | hborn := h.effect.tasks.before t' ht'
    · exact ⟨t, ht, hm.same.taskId.symm⟩
    · generalize b.call = call at hborn hcall
      cases hborn
      exact hcall.elim
  · rintro ⟨t, ht, rfl⟩
    obtain ⟨t', ht', hm⟩ := h.effect.tasks.after t ht
    exact ⟨t', ht', hm.same.taskId⟩

/-- A driver's call leaves a task's life as it is, or nearer its end. -/
theorem Delivers.life_rank (h : Delivers s b now) (hcall : b.call.Drives) (id : String) :
    lifeOf (b.after now s.db) id = lifeOf s.db id ∨
      (lifeOf (b.after now s.db) id).rank < (lifeOf s.db id).rank := by
  obtain hidle | ⟨a, hacts, hstep⟩ := h.life id
  · exact Or.inl hidle
  · exact Or.inr (hstep.rank_lt (hcall.driven hacts))

/-- A driver's batch adds to no life. -/
theorem Delivers.rank_le (h : Delivers s b now) (hcall : b.call.Drives) :
    (b.after now s.db).rank ≤ s.db.rank := by
  unfold Db.rank
  rw [h.taskIds hcall]
  refine Finset.sum_le_sum fun id _ => ?_
  obtain hidle | hlt := h.life_rank hcall id
  · rw [hidle]
  · exact hlt.le

/-- And one that takes a life further spends some of it. -/
theorem Delivers.rank_lt (h : Delivers s b now) (hcall : b.call.Drives) {id : String}
    (hlt : (lifeOf (b.after now s.db) id).rank < (lifeOf s.db id).rank) :
    (b.after now s.db).rank < s.db.rank := by
  -- A task that is not there has no life to spend.
  have hid : id ∈ s.db.taskIds := by
    by_contra hno
    have hunspawned : lifeOf s.db id = .unspawned :=
      lifeOf_unspawned fun t ht hid => hno (Db.mem_taskIds.mpr ⟨t, ht, hid⟩)
    rw [hunspawned] at hlt
    exact absurd hlt (Nat.not_lt_zero _)
  unfold Db.rank
  rw [h.taskIds hcall]
  refine Finset.sum_lt_sum (fun id _ => ?_) ⟨id, hid, hlt⟩
  obtain hidle | hlt := h.life_rank hcall id
  · rw [hidle]
  · exact hlt.le

/-- A report tells of an action of a driver. -/
theorem SweptRun.Tells.rank_lt {db db' : Db} {report : SweptRun} (h : report.Tells db db') :
    ∃ id, (lifeOf db' id).rank < (lifeOf db id).rank := by
  cases report with
  | lostLaunch | claimTimeout | rollbackStarted | relaunchCapExhausted | infraCapExhausted =>
    exact ⟨_, h.1.rank_lt trivial⟩
  | cancelled => exact ⟨_, Lifecycle.Step.rank_lt h trivial⟩

/-- A claim that takes a run spends some of it. -/
theorem Delivers.rank_lt_of_claim {seed : String} {call : ClaimCall}
    (h : Delivers s ⟨seed, .claim call⟩ now) (hr : r ∈ s.db.runs)
    (hg : claimGuard s.db now call r) :
    (Batch.after ⟨seed, .claim call⟩ now s.db).rank < s.db.rank := by
  obtain ⟨hcandidate, hqueued⟩ := hg.candidate hr
  have hinv := h.course.inv
  obtain ⟨t, ht, hown⟩ := hinv.owner r hr
  obtain ⟨t', ht', hm⟩ := h.effect.tasks.after t ht
  have hr' : claimAssignments s.db seed now call r ∈ (Batch.after ⟨seed, .claim call⟩ now s.db).runs :=
    Table.mem_update_of_pos (T := s.db.runs)
      (f := ⟨claimAssignments s.db seed now call, fun _ => rfl⟩) hr hg
  have hid : (claimAssignments s.db seed now call r).taskId = t'.taskId :=
    hown.1.symm.trans hm.same.taskId.symm
  refine h.rank_lt trivial ((h.life_rank trivial t.taskId).resolve_left fun hidle => ?_)
  -- The run it took runs after it, and waited before it.
  have hlater := lifeOf_live h.inv.toUnits ht' hr' hid trivial
  rw [hm.same.taskId, hidle, lifeOf_live hinv.toUnits ht hr hown.1.symm hqueued.live] at hlater
  have hstate := congrArg Lifecycle.Current.state (Lifecycle.State.live.inj hlater).2
  exact hqueued.ne_running hstate

/-! ## Room in the generations -/

/-- The claims a run has spent that no lost launch gave back, with the one it waits for. -/
def Run.spent (r : Run) : ℤ := r.claimGen + r.current.waiting - r.relaunchCount

/-- Each run of the queue has room for the claims a driver may still make of it. -/
def HasRoom (queue : String) (db : Db) : Prop :=
  ∀ r ∈ db.runs, r.queue = queue → r.spent ≤ MAX_COUNT - 1 - RELAUNCH_CAP

/-- A run that has room can be claimed. -/
theorem HasRoom.claimGen {queue : String} (h : HasRoom queue db) (hr : r ∈ db.runs)
    (hq : r.queue = queue) (hcap : r.relaunchCount ≤ RELAUNCH_CAP) : r.claimGen < claimGenBounds.max := by
  have hspent := h r hr hq
  have hwaits := r.current.waiting_nonneg
  simp only [Run.spent] at hspent
  show r.claimGen < MAX_COUNT
  omega

/-- A run that waits for no claim has spent no more than one that may. -/
theorem Run.spent_le_of_not_queued {r' : Run} (hgen : r'.claimGen = r.claimGen)
    (hlost : r'.relaunchCount = r.relaunchCount) (hstate : ¬ r'.state.Queued) :
    r'.spent ≤ r.spent := by
  have hwaits := r.current.waiting_nonneg
  have hwaits' : r'.current.waiting = 0 := if_neg hstate
  simp only [Run.spent, hwaits', hgen, hlost]
  omega

/-- A driver's batch makes a run spend nothing: a claim was waited for, and a lost launch is given
back. -/
theorem Run.Move.spent_le {db' : Db} {seed : String} {call : Call} {r' : Run} (hr : r ∈ db.runs)
    (hm : Run.Move seed now db db' call r r') (hcall : call.Drives) : r'.spent ≤ r.spent := by
  cases hm with
  | claimed hg =>
    have hbefore : r.current.waiting = 1 := if_pos (hg.candidate hr).2
    have hafter : ∀ q : Run, q.state = .running → q.current.waiting = 0 :=
      fun q hq => Lifecycle.Current.waiting_running hq
    simp only [Run.spent, hbefore, hafter (claimAssignments db seed now _ r) rfl]
    simp only [claimAssignments]
    omega
  | reopened hg =>
    have hafter : ∀ q : Run, q.state = .pending → q.current.waiting = 1 :=
      fun q hq => if_pos (by simp [Run.current, hq])
    have hwaits := r.current.waiting_nonneg
    simp only [Run.spent, hafter (reopenAssignments seed now r) rfl]
    simp only [reopenAssignments]
    omega
  | capped | timedOut | cancelled => exact Run.spent_le_of_not_queued rfl rfl id
  | expired => exact le_rfl
  | woken _ hparked =>
    have hbefore : r.current.waiting = 1 := if_pos (by simp [Run.current, hparked.state])
    have hafter : ∀ q : Run, q.state = .pending → q.current.waiting = 1 :=
      fun q hq => if_pos (by simp [Run.current, hq])
    simp only [Run.spent, hbefore]
    rw [hafter _ rfl]
    exact le_rfl
  | activated | extended | deferred | rescheduled | suspended | leased | awaited | completed
  | failed => exact hcall.elim

/-- A driver's batch keeps the room: a run it places has spent nothing but the claim it waits for. -/
theorem Delivers.hasRoom {queue : String} (h : Delivers s b now) (hcall : b.call.Drives)
    (hroom : HasRoom queue s.db) : HasRoom queue (b.after now s.db) := by
  intro r' hr' hq
  obtain ⟨r, hr, rfl | hm⟩ | hborn := h.effect.runs.before r' hr'
  · exact hroom _ hr hq
  · exact (hm.spent_le hr hcall).trans (hroom r hr (hm.same.queue.symm.trans hq))
  · generalize b.call = call at hborn hcall
    cases hborn with
    | followed _ _ _ hqueued =>
      have hwaiting : ∀ q : Run, q.state.Queued → q.current.waiting = 1 := fun q hq => if_pos hq
      simp only [Run.spent]
      rw [hwaiting _ hqueued]
      show (0 : ℤ) + 1 - 0 ≤ MAX_COUNT - 1 - RELAUNCH_CAP
      decide
    | first | revived => exact hcall.elim

/-! ## What is due -/

variable {queue : String} {limit : ℕ}

/-- A sweep's scan would find a row. -/
def SweepDue (db : Db) (queue : String) (now : ℤ) : Prop :=
  (∃ t ∈ db.tasks, sweepCancelsDue db now queue t) ∨ ∃ r ∈ db.runs, sweepClaimsExpired db now queue r

instance : Decidable (SweepDue db queue now) :=
  inferInstanceAs (Decidable ((∃ t ∈ db.tasks, _) ∨ ∃ r ∈ db.runs, _))

/-- What is due is a sweep's, or a claim's. -/
theorem Inv.due_cases (h : Inv db) (hwell : Wellformed db) (hroom : HasRoom queue db)
    (hdue : Due db queue now) : SweepDue db queue now ∨
      ∃ r ∈ db.runs, r.state.Queued ∧ claimCandidate db now queue r.state r := by
  cases hdue with
  | @run r hr hq hst hdue =>
    obtain ⟨t, ht, hown⟩ := h.owner r hr
    have hgen := hroom.claimGen hr hq (hwell.runs r hr).relaunchCount.2
    -- A run that is due is a claim's, unless the deadline of its task has passed.
    by_cases hahead : ∀ deadline ∈ t.cancelAtMs, now < deadline
    · exact Or.inr ⟨r, hr, hst, hq, rfl, hdue, t, ht, hown,
        h.claimEligibility hwell hr ht hown.1.symm hst hgen hahead⟩
    · push Not at hahead
      exact Or.inl (Or.inl ⟨t, ht, hown.2.trans hq, (hwell.tasks t ht).cancelDue hahead,
        h.toUnits.live hr ht hown.1.symm hst.live, h.toOwned.taskOwnsEveryRun ht⟩)
  | @claim r hr hq hst hexpired =>
    obtain ⟨t, ht, hown⟩ := h.owner r hr
    exact Or.inl (Or.inr ⟨r, hr, hq, hst, hexpired, t, ht, hown, Or.inl
      ⟨h.toUnits.live hr ht hown.1.symm (by simp [hst]),
        h.sweepLiveOwner hwell hr ht hown.1.symm hst⟩⟩)
  | @cancel t ht hq hl hdue =>
    exact Or.inl (Or.inl ⟨t, ht, hq, hdue, hl, h.toOwned.taskOwnsEveryRun ht⟩)

/-- What was due is due later. -/
theorem Due.later {at' : ℤ} (h : Due db queue now) (hle : now ≤ at') : Due db queue at' := by
  cases h with
  | run hr hq hst hdue =>
    obtain ⟨v, hv, hbounds, hv'⟩ := hdue
    exact .run hr hq hst ⟨v, hv, hbounds, hv'.trans hle⟩
  | claim hr hq hst hdue =>
    obtain ⟨v, hv, hbounds, hv'⟩ := hdue
    exact .claim hr hq hst ⟨v, hv, hbounds, hv'.trans hle⟩
  | cancel ht hq hl hdue =>
    obtain ⟨v, hv, hbounds, hv'⟩ := hdue
    exact .cancel ht hq hl ⟨v, hv, hbounds, hv'.trans hle⟩

/-- What is due for a sweep stays due. -/
theorem SweepDue.later {at' : ℤ} (h : SweepDue db queue now) (hle : now ≤ at') :
    SweepDue db queue at' := by
  obtain ⟨t, ht, hq, ⟨v, hv, hbounds, hdue⟩, hrest⟩ |
    ⟨r, hr, hq, hst, ⟨v, hv, hbounds, hdue⟩, hrest⟩ := h
  · exact Or.inl ⟨t, ht, hq, ⟨v, hv, hbounds, hdue.trans hle⟩, hrest⟩
  · exact Or.inr ⟨r, hr, hq, hst, ⟨v, hv, hbounds, hdue.trans hle⟩, hrest⟩

/-- The item of an expired claim whose columns are in bounds. -/
def SweepItem.ofExpired (r : Run) : SweepItem :=
  if r.activatedGen < r.claimGen then .lostLaunch r.runId r.taskId r.claimGen r.relaunchCount
  else .claimTimeout r.runId r.taskId r.claimGen

/-- A running run within its bounds has its item of the scan. -/
theorem expiredItem_eq_ok (hbounds : r.InBounds) (hst : r.state = .running) :
    expiredItem r = .ok (.ofExpired r) := by
  have hgen : positiveClaimGenerationBounds.Within r.claimGen :=
    ⟨hbounds.claimed hst, hbounds.claimGen.2⟩
  have hlatch : activatedGenBounds.Within r.activatedGen :=
    ⟨hbounds.activatedGen, hbounds.latched.trans hbounds.claimGen.2⟩
  unfold expiredItem SweepItem.ofExpired
  rw [persistedRowInteger_of_stored _ _ ⟨_, rfl, hgen⟩,
    persistedRowInteger_of_stored _ _ ⟨_, rfl, hlatch⟩,
    persistedRowInteger_of_stored _ _ ⟨_, rfl, hbounds.relaunchCount⟩]
  by_cases hlt : r.activatedGen < r.claimGen
  · rw [if_pos hlt]
    exact if_pos hlt
  · rw [if_neg hlt]
    exact if_neg hlt

/-- A scan of a wellformed store reads every row it finds. -/
theorem Wellformed.sweepScan_eq_ok (h : Wellformed db) (queue : String) (limit : ℕ) :
    sweepScan db now queue limit = .ok
      (((sweepDueCancels db now queue limit).map fun t => .cancel t.taskId (liveRunOfTask db t)) ++
        ((sweepExpiredClaims db now queue limit).take
          (limit - (sweepDueCancels db now queue limit).length)).map .ofExpired) := by
  have hread : ∀ n, ((sweepExpiredClaims db now queue limit).take n).mapM expiredItem =
      .ok (((sweepExpiredClaims db now queue limit).take n).map .ofExpired) := by
    intro n
    refine mapM_eq_ok fun r hr => ?_
    have hfound := List.mem_filter.mp ((List.mem_insertionSort _).mp
      (List.mem_of_mem_take (List.mem_of_mem_take hr)))
    have hexpired : sweepClaimsExpired db now queue r := of_decide_eq_true hfound.2
    exact expiredItem_eq_ok (h.runs r hfound.1) hexpired.2.1
  unfold sweepScan
  simp only [List.length_map, hread]
  rfl

/-- A scan finds something where something is due for it. -/
theorem SweepDue.sweepScan_ne_nil {items : List SweepItem} (hdue : SweepDue db queue now)
    (hwell : Wellformed db) (hlimit : 0 < limit)
    (hscan : sweepScan db now queue limit = .ok items) : items ≠ [] := by
  rw [hwell.sweepScan_eq_ok] at hscan
  obtain rfl := Except.ok.inj hscan
  rw [Ne, List.append_eq_nil_iff, List.map_eq_nil_iff, List.map_eq_nil_iff]
  rintro ⟨hcancels, hclaims⟩
  obtain ⟨t, ht, hdue⟩ | ⟨r, hr, hexpired⟩ := hdue
  · exact take_insertionSort_ne_nil (List.mem_filter.mpr ⟨ht, decide_eq_true hdue⟩) hlimit hcancels
  · rw [hcancels, List.length_nil, Nat.sub_zero, sweepExpiredClaims, List.take_take,
      Nat.min_self] at hclaims
    exact take_insertionSort_ne_nil (List.mem_filter.mpr ⟨hr, decide_eq_true hexpired⟩) hlimit
      hclaims

/-- The batch of an item found by the scan wins on the store the scan read, then or later. -/
theorem Inv.sweepItem_wins (h : Inv db) (hwell : Wellformed db) {seed passId : String}
    {items : List SweepItem} {item : SweepItem} {at' : ℤ} (hfresh : Unstamped db seed)
    (hnew : ∀ q ∈ db.runs, q.runId ≠ passId)
    (hfits : epochAdditionFits at' (RELAUNCH_BACKOFF_MAX_SECONDS * 1000)) (hle : now ≤ at')
    (hscan : sweepScan db now queue limit = .ok items) (hitem : item ∈ items) :
    (⟨seed, item.call queue passId⟩ : Batch).Wins at' db := by
  rw [hwell.sweepScan_eq_ok] at hscan
  obtain rfl := Except.ok.inj hscan
  obtain hcancel | hexpired := List.mem_append.mp hitem
  · obtain ⟨t, ht, rfl⟩ := List.mem_map.mp hcancel
    have hfound := List.mem_filter.mp ((List.mem_insertionSort _).mp (List.mem_of_mem_take ht))
    obtain ⟨hq, ⟨v, hv, hbounds, hdue⟩, hl, howns⟩ : sweepCancelsDue db now queue t :=
      of_decide_eq_true hfound.2
    exact cancelTransition_wins hfound.1
      ⟨rfl, hq, hl, fun _ => ⟨v, hv, hbounds, hdue.trans hle⟩, howns, nofun⟩
  · obtain ⟨r, hr, rfl⟩ := List.mem_map.mp hexpired
    have hfound := List.mem_filter.mp ((List.mem_insertionSort _).mp
      (List.mem_of_mem_take (List.mem_of_mem_take hr)))
    obtain ⟨hq, hst, ⟨v, hv, hbounds, hdue⟩, howner⟩ : sweepClaimsExpired db now queue r :=
      of_decide_eq_true hfound.2
    have hlater : sweepClaimsExpired db at' queue r :=
      ⟨hq, hst, ⟨v, hv, hbounds, hdue.trans hle⟩, howner⟩
    have hcall : (SweepItem.ofExpired r).call queue passId = sweepExpired queue (fun _ => passId) r := by
      unfold SweepItem.ofExpired sweepExpired
      split <;> rfl
    rw [hcall]
    exact h.sweepExpired_wins hwell hfresh hnew hfits hfound.1 hlater

end Durablerun
