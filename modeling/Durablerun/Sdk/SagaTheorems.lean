import Mathlib.Data.Set.Finite.Lemmas
import Durablerun.Sdk.SagaLandings

/-!
# Rollbacks run in reverse start order

In every reachable fleet the start indexes of a task are apart and never change, the rollbacks'
checkpoints were committed from the step that started last down, with none skipped, and a saga that
stops early stops at the step that started last among those not rolled back.

Reference: `packages/sdk/src/context.ts` and `packages/sdk/src/run-worker.ts`.
-/

namespace Durablerun

open Relational

variable {taskId key : String} {index : ℕ} {db : Db} {p : Pass} {f f' : Fleet}

/-! ## Runs of a fleet -/

/-- No claim of the run took a run again under a token it was activated under, and no start marker has
an index past the largest one that is read. -/
structure Fleet.Orderly (f : Fleet) : Prop where
  noneRetaken : NoneRetaken f.sys.history
  counts : ∀ e ∈ f.sys.history, e.Counts

/-- A run whose last delivery is in order was in order before it. -/
theorem Fleet.Step.orderly (hstep : f.Step f') (h : f'.Orderly) : f.Orderly := by
  cases hstep with
  | other | again | activate | land =>
    exact ⟨h.noneRetaken.2, fun e he => h.counts e (List.mem_cons_of_mem _ he)⟩
  | turn => exact ⟨h.noneRetaken, h.counts⟩

/-- A step of a fleet keeps all of it. -/
theorem FleetInv.step (h : FleetInv f) (hstep : f.Step f') (horderly : f'.Orderly) :
    FleetInv f' := by
  have hrepeats : ∀ b db, Repeats b db → b.call.Repeatable := fun _ _ hrepeats => hrepeats
  cases hstep with
  | other b now hclock hfresh hadm hplain =>
    have hstep : Step Repeats f.sys (f.sys.deliver b now) := .first b now hclock hfresh hadm
    exact h.plain (h.course.delivers_of_step hrepeats hstep) (.step h.reach hstep) hplain
      horderly.noneRetaken.1
  | again b now hclock hdelivered hagain =>
    have hstep : Step Repeats f.sys (f.sys.deliver b now) := .again b now hclock hdelivered hagain
    exact h.plain (h.course.delivers_of_step hrepeats hstep) (.step h.reach hstep) hagain.plain
      horderly.noneRetaken.1
  | activate seed receipt r now hclock hfresh hr hguard =>
    have hstep : Step Repeats f.sys (f.sys.deliver ⟨seed, .activate receipt⟩ now) :=
      .first _ now hclock hfresh trivial
    exact h.activate (h.course.delivers_of_step hrepeats hstep) (.step h.reach hstep) hr hguard
  | turn before after p p' hpasses hturn => exact h.turn hpasses hturn
  | land before after p call b now hpasses hsent hclock hfresh hadm =>
    have hstep : Step Repeats f.sys (f.sys.deliver b now) := .first b now hclock hfresh hadm
    exact h.land hpasses (h.course.delivers_of_step hrepeats hstep) (.step h.reach hstep) hsent
      (horderly.counts _ List.mem_cons_self)

/-- Every fleet an orderly run leads to from one that has it has all of it. -/
theorem FleetInv.steps (h : FleetInv f) (hsteps : f.Steps f') (horderly : f'.Orderly) :
    FleetInv f' := by
  induction hsteps with
  | refl => exact h
  | tail _ hstep ih => exact (ih (hstep.orderly horderly)).step hstep horderly

/-- The invariant holds in every orderly run of a fleet. -/
theorem Fleet.Reachable.inv (h : f.Reachable) (horderly : f.Orderly) : FleetInv f :=
  FleetInv.init.steps h horderly

/-! ## The order -/

/-- A step that started and is not rolled back leaves one that started last. -/
theorem exists_lastStarted (hstarted : StartedAt db taskId key index)
    (hno : ¬ RolledBack db taskId key) : ∃ key, LastStarted db taskId key := by
  let owed : Set Checkpoint := {c | c ∈ db.checkpoints ∧ c.taskId = taskId ∧
    ∃ key, c.checkpointName = SAGA_STARTED_PREFIX ++ key ∧ ¬ RolledBack db taskId key ∧
      ∃ index, decodeStartIndex c.state = some index}
  have hfinite : owed.Finite := (List.finite_toSet db.checkpoints.rows).subset fun c hc => hc.1
  obtain ⟨c, hc, hid, hname, hread⟩ := hstarted
  obtain ⟨c', ⟨hc', hid', key', hname', hno', index', hread'⟩, hmax⟩ :=
    Set.exists_max_image owed (fun c => (decodeStartIndex c.state).getD 0) hfinite
      ⟨c, hc, hid, key, hname, hno, index, hread⟩
  refine ⟨key', index', ⟨c', hc', hid', hname', hread'⟩, hno', ?_⟩
  rintro key₀ index₀ ⟨c₀, hc₀, hid₀, hname₀, hread₀⟩ hno₀
  have hle := hmax c₀ ⟨hc₀, hid₀, key₀, hname₀, hno₀, index₀, hread₀⟩
  simpa only [hread₀, hread', Option.getD_some] using hle

/-- The rollbacks of a task's saga ran in reverse start order. -/
structure ReverseOrder (f : Fleet) (taskId : String) : Prop where
  /-- No two steps have one index. -/
  distinct : ∀ key key' index, StartedAt f.sys.db taskId key index →
    StartedAt f.sys.db taskId key' index → key = key'
  /-- An index that was stored before a delivery of the run is the one that is stored. -/
  stays : ∀ e ∈ f.sys.history, ∀ key index, StartedAt e.before taskId key index →
    ∀ index', StartedAt f.sys.db taskId key index' ↔ index' = index
  /-- The checkpoints that were committed are those of steps that started, and each is stored. -/
  rows : ∀ key, key ∈ committedRollbacks f.sys.history taskId ↔ RolledBack f.sys.db taskId key
  started : ∀ key ∈ committedRollbacks f.sys.history taskId,
    ∃ index, StartedAt f.sys.db taskId key index
  descending : (committedRollbacks f.sys.history taskId).Pairwise fun key key' => ∀ index index',
    StartedAt f.sys.db taskId key index → StartedAt f.sys.db taskId key' index' → index' < index
  /-- No step is passed over. -/
  unskipped : ∀ first key rest, committedRollbacks f.sys.history taskId = first ++ key :: rest →
    ∀ index key' index', StartedAt f.sys.db taskId key index →
      StartedAt f.sys.db taskId key' index' → index < index' → key' ∈ first
  /-- A pass that reports the saga done, or a task read as done, has every step rolled back. -/
  reported : ∀ p ∈ f.passes, p.taskId = taskId → p.stage = .over (some .rolledBack) →
    Complete f.sys.db taskId
  complete : ∀ t ∈ f.sys.db.tasks, t.taskId = taskId → rollbackOutcome f.sys.db t = some .complete →
    Complete f.sys.db taskId
  /-- A rollback that failed, or a task read as stopped early, stopped at the step that started last
  among those not rolled back. -/
  stopped : ∀ e ∈ f.sys.history, ∀ key, e.StopsAt taskId key → Stopped e.before taskId key
  halted : ∀ t ∈ f.sys.db.tasks, t.taskId = taskId → rollbackOutcome f.sys.db t = some .failed →
    ∃ key, Stopped f.sys.db taskId key

/-- Rollbacks run in reverse start order, over every schedule of passes and crashes that takes no run
again under the token of one of its passes. -/
theorem rollbacks_in_reverse (h : f.Reachable) (horderly : f.Orderly) (taskId : String) :
    ReverseOrder f taskId := by
  have hinv := h.inv horderly
  have horder := hinv.order taskId
  obtain ⟨hrows, hdescending⟩ := hinv.committed taskId
  refine ⟨horder.distinct, fun e he key index hstarted => ?_, hrows,
    fun key hmem => horder.started key ((hrows key).mp hmem), hdescending, ?_, ?_, ?_,
    fun e he key => hinv.stops e he taskId key, ?_⟩
  · have hstays := hinv.stays e he taskId key index hstarted
    exact fun index' => ⟨fun hstarted' => hstarted'.unique hstays, fun heq => heq ▸ hstays⟩
  · intro first key rest heq index key' index' hstarted hstarted' hlt
    -- A step that started later was rolled back by now, and no later than this one: the sequence
    -- descends.
    have hmem : key ∈ committedRollbacks f.sys.history taskId := heq ▸ List.mem_append_cons_self
    have hmem' := (hrows key').mpr
      (horder.upward key key' index index' ((hrows key).mp hmem) hstarted hstarted' hlt)
    rw [heq, List.mem_append, List.mem_cons] at hmem'
    obtain hfirst | rfl | hrest := hmem'
    · exact hfirst
    · exact absurd (hstarted.unique hstarted') hlt.ne
    · rw [heq, List.pairwise_append, List.pairwise_cons] at hdescending
      exact absurd (hdescending.2.1.1 key' hrest index index' hstarted hstarted') hlt.not_gt
  · rintro p hp rfl hstage
    exact ((hinv.passes p hp).finished (Or.inl hstage)).1
  · rintro t _ rfl houtcome key index ⟨c, hc, hid, hname, _⟩
    unfold rollbackOutcome at houtcome
    split at houtcome
    · split at houtcome
      · cases houtcome
      · rename_i hdone
        by_contra hno
        exact hdone (rollbackPending_iff.mpr ⟨key, ⟨c, hc, hid, hname⟩, hno⟩)
    · cases houtcome
  · rintro t _ rfl houtcome
    unfold rollbackOutcome at houtcome
    split at houtcome
    · split at houtcome
      -- A saga with a step pending stopped at the step that started last among those not rolled
      -- back.
      · rename_i hpending
        obtain ⟨key, ⟨c, hc, hid, hname⟩, hno⟩ := rollbackPending_iff.mp hpending
        obtain ⟨index, hread⟩ := hinv.readable.started c hc (hname ▸ namedUnder_append _ _)
        obtain ⟨key', hlast⟩ := exists_lastStarted ⟨c, hc, hid, hname, hread⟩ hno
        exact ⟨key', horder.stopped hlast⟩
      · cases houtcome
    · cases houtcome

/-! A saga of one step: its marker lands, its task fails for good, and a pass rolls it back. -/

def markOne : Batch := ⟨"b4", .setCheckpoint ⟨"q", "r1", "w1"⟩ "t"
  ⟨SAGA_STARTED_PREFIX ++ "a", encodeStartIndex 1⟩ 1000⟩

def undoOne : Batch := ⟨"b8", .setCheckpoint ⟨"q", "p1", "w2"⟩ "t"
  ⟨SAGA_ROLLBACK_PREFIX ++ "a", "null"⟩ 1000⟩

/-- The saga's pass runs. -/
def sagaOne : Sys :=
  (((runningOne.deliver markOne 3).deliver enterOne 4).deliver ⟨"b6", .claim ⟨"q", "w2", 1000, 1⟩⟩
    5).deliver ⟨"b7", .activate ⟨"q", "p1", "w2", 1⟩⟩ 6

/-- The task's first pass, with the marker it sent. -/
def startedOne : Pass where
  claim := ⟨"q", "r1", "w1"⟩
  taskId := "t"
  attempt := 1
  ctx := { ReplayContext.empty with inStep := true }
  stage := .answer (.start "a" 1)
  sent := some ⟨.start "a" 1, markOne, none⟩

/-- The saga's pass, with the rollback it sent. -/
def rollingBackOne : Pass where
  claim := ⟨"q", "p1", "w2"⟩
  taskId := "t"
  attempt := 2
  ctx := { (ReplayContext.new (getCheckpoints sagaOne.db "q" "t" 2)).register "a" with
    inStep := false }
  stage := .answer (.rollback "a")
  sent := some ⟨.rollback "a", undoOne, none⟩

def undoneOne : Fleet := ⟨sagaOne.deliver undoOne 7,
  [startedOne.landed (.start "a" 1) markOne true, rollingBackOne.landed (.rollback "a") undoOne true]⟩

/-- A pass before it reads. -/
def Pass.fresh (runId claimToken : String) (attempt : ℤ) : Pass :=
  ⟨⟨"q", runId, claimToken⟩, "t", attempt, .empty, .activated, none⟩

/-- An activation that wins starts a pass of its run. -/
theorem Fleet.Step.activated {seed runId claimToken : String} {claimGen now attempt : ℤ}
    (hclock : f.sys.clock ≤ now) (hfresh : f.sys.Fresh seed)
    (hrun : ∃ r ∈ f.sys.db.runs, activateGuard f.sys.db now ⟨"q", runId, claimToken, claimGen⟩ r ∧
      r.taskId = "t" ∧ r.attempt = attempt) :
    f.Step ⟨f.sys.deliver ⟨seed, .activate ⟨"q", runId, claimToken, claimGen⟩⟩ now,
      f.passes ++ [.fresh runId claimToken attempt]⟩ := by
  obtain ⟨r, hr, hguard, htask, rfl⟩ := hrun
  have hstep := Fleet.Step.activate (f := f) seed _ r now hclock hfresh hr hguard
  unfold Pass.activated at hstep
  rw [htask] at hstep
  exact hstep

/-- The fleet with one pass, about to start a step, is reachable. -/
theorem startingOne_reachable : Fleet.Reachable ⟨runningOne, [startedOne]⟩ := by
  have hspawned : Fleet.Reachable ⟨Sys.init.deliver spawnOne 0, []⟩ :=
    .single (.other _ _ (by decide) (by decide) ⟨by decide, by decide⟩ trivial)
  have hclaimed : Fleet.Reachable ⟨(Sys.init.deliver spawnOne 0).deliver claimOne 1, []⟩ :=
    hspawned.tail (.other _ _ (by decide) (by decide) trivial trivial)
  have hactive : Fleet.Reachable ⟨runningOne, [.fresh "r1" "w1" 1]⟩ :=
    hclaimed.tail (.activated (by decide) (by decide) (by decide))
  have hread : Fleet.Reachable ⟨runningOne, [{ Pass.fresh "r1" "w1" 1 with stage := .code }]⟩ :=
    hactive.tail (.turn [] [] _ _ rfl (.read rfl))
  exact hread.tail (.turn [] [] _ _ rfl (.start "a" markOne rfl rfl rfl rfl (by decide) (by decide) rfl
    (.start "a" 1 1000)))

/-- So is the fleet whose pass stored its start marker. -/
theorem startedOne_reachable : Fleet.Reachable ⟨runningOne.deliver markOne 3,
    [startedOne.landed (.start "a" 1) markOne true]⟩ := by
  have hwins : markOne.wins 3 runningOne.db = true := by decide +kernel
  have hlanded := startingOne_reachable.tail (.land [] [] startedOne (.start "a" 1) markOne 3
    rfl rfl (by decide) (by decide) trivial)
  rw [hwins] at hlanded
  exact hlanded

/-- The fleet that undid its step is reachable. -/
theorem undoneOne_reachable : undoneOne.Reachable := by
  have hread : RunRead (runningOne.deliver markOne 3).Seen "r1" "t" :=
    ⟨_, Or.inl rfl, by decide +kernel⟩
  have hentered : Fleet.Reachable ⟨(runningOne.deliver markOne 3).deliver enterOne 4,
      [startedOne.landed (.start "a" 1) markOne true]⟩ :=
    startedOne_reachable.tail (.other enterOne 4 (by decide) (by decide)
      ⟨fun rollback hr => absurd hr (Option.not_mem_none rollback), hread⟩ rfl)
  have hclaimed : Fleet.Reachable ⟨((runningOne.deliver markOne 3).deliver enterOne 4).deliver
      ⟨"b6", .claim ⟨"q", "w2", 1000, 1⟩⟩ 5, [startedOne.landed (.start "a" 1) markOne true]⟩ :=
    hentered.tail (.other _ 5 (by decide) (by decide) trivial trivial)
  have hactive : Fleet.Reachable ⟨sagaOne,
      [startedOne.landed (.start "a" 1) markOne true, .fresh "p1" "w2" 2]⟩ :=
    hclaimed.tail (.activated (by decide) (by decide) (by decide +kernel))
  let before := [startedOne.landed (.start "a" 1) markOne true]
  let ctx := ReplayContext.new (getCheckpoints sagaOne.db "q" "t" 2)
  have hended : ctx.ended = false := by decide +kernel
  have hread : Fleet.Reachable ⟨sagaOne, before ++ [{ Pass.fresh "p1" "w2" 2 with
      ctx
      stage := .code }]⟩ :=
    hactive.tail (.turn before [] _ _ rfl (.read rfl))
  have hregistered : Fleet.Reachable ⟨sagaOne, before ++ [{ Pass.fresh "p1" "w2" 2 with
      ctx := ctx.register "a"
      stage := .code }]⟩ :=
    hread.tail (.turn before [] _ _ rfl (.register "a" (by simp) (Or.inr (by decide +kernel))))
  have hran : Fleet.Reachable ⟨sagaOne, before ++ [{ Pass.fresh "p1" "w2" 2 with
      ctx := { ctx.register "a" with inStep := true }
      stage := .handler "a" }]⟩ :=
    hregistered.tail (.turn before [] _ _ rfl
      (.run "a" rfl (by decide +kernel) (by decide +kernel)))
  have hsent : Fleet.Reachable ⟨sagaOne, before ++ [rollingBackOne]⟩ :=
    hran.tail (.turn before [] _ _ rfl (.ran "a" undoOne rfl hended (.rollback "a" 1000)))
  have hwins : undoOne.wins 7 sagaOne.db = true := by decide +kernel
  have hlanded := hsent.tail (.land before [] rollingBackOne (.rollback "a") undoOne 7 rfl rfl
    (by decide) (by decide) trivial)
  rw [hwins] at hlanded
  exact hlanded

/-- A claim under a token that nothing was activated under takes no run again. -/
theorem Delivery.not_retakes_fresh {e : Delivery} {older : List Delivery} {call : ClaimCall}
    (hcall : e.batch.call = .claim call)
    (hfresh : ∀ d ∈ older, ∀ receipt, d.batch.call = .activate receipt →
      receipt.claimToken ≠ call.claimToken) : ¬ e.Retakes older := by
  rintro ⟨call', hcall', _, _, _, _, d, hd, receipt, hactivate, _, htoken, _⟩
  obtain rfl := Call.claim.inj (hcall.symm.trans hcall')
  exact hfresh d hd receipt hactivate htoken

/-- No run of it was taken twice under one token. -/
theorem undoneOne_orderly : undoneOne.Orderly where
  noneRetaken := by
    refine ⟨Delivery.not_retakes ?_, Delivery.not_retakes ?_, Delivery.not_retakes_fresh rfl ?_,
      Delivery.not_retakes ?_, Delivery.not_retakes ?_, Delivery.not_retakes ?_,
      Delivery.not_retakes_fresh rfl ?_, Delivery.not_retakes ?_, trivial⟩
    case refine_3 | refine_7 =>
      intro d hd receipt hcall
      simp only [runningOne, Sys.deliver, Sys.init, List.mem_cons, List.not_mem_nil, or_false] at hd
      rcases hd with rfl | rfl | rfl | rfl | rfl <;> cases hcall <;> decide
    all_goals exact fun c hc => by cases hc
  counts := by
    intro e he held taskId key index extendMs hcall
    simp only [undoneOne, sagaOne, runningOne, Sys.deliver, Sys.init, List.mem_cons,
      List.not_mem_nil, or_false] at he
    rcases he with rfl | rfl | rfl | rfl | rfl | rfl | rfl | rfl
    case _ =>
      exact absurd (congrArg CheckpointWrite.key (Call.setCheckpoint.inj hcall).2.2.1).symm
        not_started_rollback
    case _ => cases hcall
    case _ => cases hcall
    case _ => cases hcall
    case _ =>
      have hindex := congrArg CheckpointWrite.stateJson (Call.setCheckpoint.inj hcall).2.2.1
      rw [← encodeStartIndex_injective hindex]
      decide
    all_goals cases hcall

/-- The sample saga's one step is rolled back, in its order. -/
theorem rollbacks_in_reverse_undoneOne :
    committedRollbacks undoneOne.sys.history "t" = ["a"] ∧ StartedAt undoneOne.sys.db "t" "a" 1 ∧
      ReverseOrder undoneOne "t" := by
  refine ⟨by decide +kernel, ?_, rollbacks_in_reverse undoneOne_reachable undoneOne_orderly "t"⟩
  have hrows : ∃ c ∈ undoneOne.sys.db.checkpoints.rows, c.taskId = "t" ∧
      c.checkpointName = SAGA_STARTED_PREFIX ++ "a" ∧ decodeStartIndex c.state = some 1 := by
    decide +kernel
  exact hrows

/-! The task's run is parked while its marker's write is on its way, and the claim request comes again.
The pass that follows starts another step, and then the marker lands. -/

def napOne : Batch := ⟨"c1", .suspendRun ⟨"q", "r1", "w1"⟩ (.inMs 0) ⟨"nap", "null"⟩⟩

/-- The run is claimed again, under the token it was activated under, and activated. -/
def retakenSaga : Sys :=
  ((runningOne.deliver napOne 3).deliver claimOne 4).deliver
    ⟨"c2", .activate ⟨"q", "r1", "w1", 2⟩⟩ 5

def markTwo : Batch := ⟨"c3", .setCheckpoint ⟨"q", "r1", "w1"⟩ "t"
  ⟨SAGA_STARTED_PREFIX ++ "b", encodeStartIndex 1⟩ 1000⟩

/-- The first pass, whose marker's write met an infrastructure error. -/
def cutOne : Pass := { startedOne with
  ctx := { ReplayContext.empty with ended := true }
  stage := .code }

/-- The second pass, with the marker it sent. -/
def startedTwo : Pass where
  claim := ⟨"q", "r1", "w1"⟩
  taskId := "t"
  attempt := 1
  ctx := { ReplayContext.new (getCheckpoints retakenSaga.db "q" "t" 1) with inStep := true }
  stage := .answer (.start "b" 1)
  sent := some ⟨.start "b" 1, markTwo, none⟩

/-- Both markers landed. -/
def startedBoth : Fleet := ⟨(retakenSaga.deliver markTwo 6).deliver markOne 7,
  [cutOne.landed (.start "a" 1) markOne true, startedTwo.landed (.start "b" 1) markTwo true]⟩

/-- The fleet with two start markers of one index is reachable. -/
theorem startedBoth_reachable : startedBoth.Reachable := by
  have hcut : Fleet.Reachable ⟨runningOne, [cutOne]⟩ :=
    startingOne_reachable.tail (.turn [] [] _ _ rfl (.startCut "a" 1 rfl))
  have hparked : Fleet.Reachable ⟨runningOne.deliver napOne 3, [cutOne]⟩ :=
    hcut.tail (.other napOne 3 (by decide) (by decide) trivial (show SagaFree "nap" by decide))
  have hretaken : Fleet.Reachable ⟨(runningOne.deliver napOne 3).deliver claimOne 4, [cutOne]⟩ :=
    hparked.tail (.again claimOne 4 (by decide) (by decide) trivial)
  have hactive : Fleet.Reachable ⟨retakenSaga, [cutOne, .fresh "r1" "w1" 1]⟩ :=
    hretaken.tail (.activated (by decide) (by decide) (by decide +kernel))
  have hread : Fleet.Reachable ⟨retakenSaga, [cutOne] ++ [{ Pass.fresh "r1" "w1" 1 with
      ctx := .new (getCheckpoints retakenSaga.db "q" "t" 1)
      stage := .code }]⟩ :=
    hactive.tail (.turn [cutOne] [] _ _ rfl (.read rfl))
  have hsent : Fleet.Reachable ⟨retakenSaga, [cutOne] ++ [startedTwo]⟩ :=
    hread.tail (.turn [cutOne] [] _ _ rfl (.start "b" markTwo rfl (by decide +kernel)
      (by decide +kernel) (by decide +kernel) (by decide +kernel) (by decide +kernel)
      (by decide +kernel) (.start "b" 1 1000)))
  have hwins : markTwo.wins 6 retakenSaga.db = true := by decide +kernel
  have hlanded := hsent.tail (.land [cutOne] [] startedTwo (.start "b" 1) markTwo 6 rfl rfl
    (by decide) (by decide) trivial)
  rw [hwins] at hlanded
  have hwins' : markOne.wins 7 (retakenSaga.deliver markTwo 6).db = true := by decide +kernel
  have hboth := hlanded.tail (.land [] [startedTwo.landed (.start "b" 1) markTwo true] cutOne
    (.start "a" 1) markOne 7 rfl rfl (by decide) (by decide) trivial)
  rw [hwins'] at hboth
  exact hboth

/-- Two steps of the task start under one index. -/
theorem retaken_saga : ¬ ∀ (f : Fleet) (taskId : String), f.Reachable → ReverseOrder f taskId := by
  intro h
  have hone : ∃ c ∈ startedBoth.sys.db.checkpoints.rows, c.taskId = "t" ∧
      c.checkpointName = SAGA_STARTED_PREFIX ++ "a" ∧ decodeStartIndex c.state = some 1 := by
    decide +kernel
  have htwo : ∃ c ∈ startedBoth.sys.db.checkpoints.rows, c.taskId = "t" ∧
      c.checkpointName = SAGA_STARTED_PREFIX ++ "b" ∧ decodeStartIndex c.state = some 1 := by
    decide +kernel
  have hsame := (h startedBoth "t" startedBoth_reachable).distinct "a" "b" 1 hone htwo
  exact absurd hsame (by decide)

end Durablerun
