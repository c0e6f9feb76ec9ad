import Durablerun.Store.NextWake
import Durablerun.Store.Revival

/-!
# What a revival starts

A revival leaves the cancellation deadline as it was. Where the deadline is ahead, the run it starts
is one that a claim takes and an activation lets run, and no sweep takes its task; where the
deadline has passed, no claim takes the run and the next sweep cancels the task.

Reference: `packages/store-libsql/src/store.ts`.
-/

namespace Durablerun

open Relational

variable {s : Sys} {seed queue : String} {now : ℤ} {db : Db} {r : Run} {t : Task} {out : Outcome}

/-! ## The instants of a run of the store -/

/-- A delivery of a batch whose seed is its own. -/
theorem Course.first {b : Batch} (h : Course s) (hclock : s.clock ≤ now) (hfresh : s.Fresh b.seed)
    (hadm : b.call.Admitted s.Seen) : Delivers s b now := by
  obtain ⟨b', now', heq, hd⟩ :=
    h.step (fun b db (hrepeats : Repeats b db) => hrepeats) (.first b now hclock hfresh hadm)
  obtain ⟨hdelivery, _⟩ := List.cons.inj (congrArg Sys.history heq)
  obtain rfl := congrArg Delivery.batch hdelivery
  obtain rfl := congrArg Delivery.now hdelivery
  exact hd

/-- No delivery is before the epoch. -/
theorem Reachable.instants (h : Reachable Repeats s)
    (hvalid : ∀ e ∈ s.history, e.batch.call.Valid) : 0 ≤ s.clock ∧ ∀ e ∈ s.history, 0 ≤ e.now := by
  refine h.induct_valid (P := fun s => 0 ≤ s.clock ∧ ∀ e ∈ s.history, 0 ≤ e.now) hvalid
    ⟨le_rfl, fun e he => absurd he List.not_mem_nil⟩ fun s b now _ hd _ ih => ?_
  have hnow : 0 ≤ now := ih.1.trans hd.clock
  refine ⟨hnow, fun e he => ?_⟩
  obtain rfl | he := List.mem_cons.mp he
  · exact hnow
  · exact ih.2 e he

/-- The maximal duration of a task is one the port's checks let through. -/
theorem Reachable.maxDuration_within (h : Reachable Repeats s)
    (hvalid : ∀ e ∈ s.history, e.batch.call.Valid) (ht : t ∈ s.db.tasks) :
    ∀ d ∈ taskMaxDurationMs t, durationBounds.Within d := by
  intro d hd
  obtain ⟨e, he, call, ⟨_, hcall⟩, _, hpolicy, _⟩ :=
    h.spawnedAs (fun _ _ hrepeats => hrepeats) t ht
  have hspawn : call.Valid := by
    have hcalled := hvalid e he
    rwa [hcall] at hcalled
  obtain ⟨policy, hof, hduration⟩ := Option.bind_eq_some_iff.mp hd
  exact (hspawn.cancellation policy (hpolicy ▸ hof)).2 d hduration

/-- It fits from the first start of a live task, and from now when it never started and has room. -/
theorem Reachable.activationDuration (h : Reachable Repeats s)
    (hvalid : ∀ e ∈ s.history, e.batch.call.Valid) (ht : t ∈ s.db.tasks) (hl : t.state.Live)
    (hroom : t.firstStartedAtMs = none → ∀ d ∈ taskMaxDurationMs t, epochAdditionFits now d) :
    activationDurationAdmissible now t := by
  have hagain : ∀ b db, Repeats b db → b.call.Repeatable := fun _ _ hrepeats => hrepeats
  intro d hd
  have hwithin := h.maxDuration_within hvalid ht d hd
  refine ⟨hwithin, ?_⟩
  cases hfirst : t.firstStartedAtMs with
  | none => exact hroom hfirst d hd
  | some started =>
    have hstarted : 0 ≤ started := by
      have hhistory := h.firstStart hagain t ht
      unfold FirstStart at hhistory
      rw [hfirst] at hhistory
      obtain ⟨later, e, earlier, heq, _, rfl, _⟩ := hhistory
      exact (h.instants hvalid).2 e (heq ▸ List.mem_append_right _ List.mem_cons_self)
    -- the deadline was stored, so it is in range
    have hdeadline : t.cancelAtMs = some (started + d) := by
      rw [(h.dated hagain t ht).live hl, Task.deadline, hfirst, Option.mem_def.mp hd]
      rfl
    have hmax : started + d ≤ MAX_EPOCH_MS :=
      (((h.wellformed hvalid).2.tasks t ht).cancelAt _ hdeadline).2
    have hmin : 0 ≤ d := hwithin.1
    show epochAdditionFits started d
    exact ⟨⟨hstarted, by omega⟩, by omega⟩

/-! ## Where the deadline is ahead -/

/-- A claim may take the run at the instant, an activation under that claim then wins, and no sweep
cancels its task. -/
structure TakesEffect (s : Sys) (queue : String) (now : ℤ) (t : Task) (r : Run) : Prop where
  candidate : claimCandidate s.db now queue r.state r
  claimed : ∃ call : ClaimCall, call.queue = queue ∧ (Call.claim call).Valid ∧
    claimGuard s.db now call r
  launched : ∀ (seed seed' : String) (call : ClaimCall), s.Fresh seed → (Call.claim call).Valid →
    claimGuard s.db now call r →
      (activate seed' ⟨queue, r.runId, call.claimToken, r.claimGen + 1⟩ now
        (s.deliver ⟨seed, .claim call⟩ now).db).won = some .activate
  unswept : ∀ (limit : ℕ) (mint : Run → String) (c : Cancellation), c.taskId = t.taskId →
    Call.cancelTransition c ∉ sweepItems s.db now queue limit mint
  spared : ∀ (seed : String) (c : Cancellation), c.deadlineOnly → c.taskId = t.taskId →
    (cancelTransition seed c now s.db).won = none

/-- No claim takes the run at the instant, and the sweep of its task cancels it. -/
structure Void (s : Sys) (queue : String) (now : ℤ) (t : Task) (r : Run) : Prop where
  refused : ∀ call : ClaimCall, ¬ claimGuard s.db now call r
  due : sweepCancelsDue s.db now queue t
  cancelled : ∀ seed : String,
    (cancelTransition seed ⟨queue, t.taskId, true, false⟩ now s.db).won = some .cancel

/-- A claim's run is under its token, one generation on. -/
theorem mem_claimed {call : ClaimCall} (hr : r ∈ db.runs) (hg : claimGuard db now call r) :
    claimAssignments db seed now call r ∈ (claim seed call now db).db.runs :=
  Table.mem_update_of_pos (f := ⟨claimAssignments db seed now call, fun _ => rfl⟩) hr hg

/-- An activation of a run that a claim just took wins, while the deadline is ahead. -/
theorem Reachable.launches (h : Reachable Repeats s)
    (hvalid : ∀ e ∈ s.history, e.batch.call.Valid) (hclock : s.clock ≤ now) (hr : r ∈ s.db.runs)
    (ht : t ∈ s.db.tasks) (hown : runOwnedByTask r t)
    (hahead : ∀ deadline ∈ t.cancelAtMs, now < deadline)
    (hroom : t.firstStartedAtMs = none → ∀ d ∈ taskMaxDurationMs t, epochAdditionFits now d)
    {call : ClaimCall} (hfresh : s.Fresh seed) (hcall : (Call.claim call).Valid)
    (hg : claimGuard s.db now call r) (seed' : String) :
    (activate seed' ⟨r.queue, r.runId, call.claimToken, r.claimGen + 1⟩ now
      (s.deliver ⟨seed, .claim call⟩ now).db).won = some .activate := by
  have hagain : ∀ b db, Repeats b db → b.call.Repeatable := fun _ _ hrepeats => hrepeats
  have hreach : Reachable Repeats (s.deliver ⟨seed, .claim call⟩ now) :=
    .step h (.first ⟨seed, .claim call⟩ now hclock hfresh trivial)
  have hd := (h.course hagain).first (b := ⟨seed, .claim call⟩) hclock hfresh trivial
  have hvalid' : ∀ e ∈ (s.deliver ⟨seed, .claim call⟩ now).history, e.batch.call.Valid := by
    intro e he
    obtain rfl | he := List.mem_cons.mp he
    · exact hcall
    · exact hvalid e he
  have hwell := (hreach.wellformed hvalid').2
  have hinv : Inv (s.deliver ⟨seed, .claim call⟩ now).db := (hreach.course hagain).inv
  have hr' : claimAssignments s.db seed now call r ∈ (s.deliver ⟨seed, .claim call⟩ now).db.runs :=
    mem_claimed hr hg
  obtain ⟨t', ht', hown'⟩ := hinv.owner _ hr'
  -- the claim leaves the task's policy, its first start and its deadline
  obtain ⟨u, hu, hmoved⟩ | hborn := hd.effect.tasks.before t' ht'
  swap
  · cases hborn
  have hid : u.taskId = t.taskId :=
    hmoved.same.taskId.symm.trans (hown'.1.trans hown.1.symm)
  obtain rfl := s.db.task_unique hu ht hid
  have hahead' : ∀ deadline ∈ t'.cancelAtMs, now < deadline := by
    rw [hmoved.cancelAt_kept (fun hdates => hdates)]
    exact hahead
  have hlive' : t'.state.Live := hinv.toUnits.live hr' ht' hown'.1.symm (by simp [claimAssignments])
  have hduration : activationDurationAdmissible now t' := by
    refine hreach.activationDuration hvalid' ht' hlive' fun hnone d hd => ?_
    rw [hmoved.first_kept fun _ hne => by cases hne] at hnone
    refine hroom hnone d ?_
    unfold taskMaxDurationMs at hd ⊢
    rwa [hmoved.policy.1] at hd
  obtain ⟨hgen, hact, hlease, hrelaunch, hsole, t'', ht'', hown'', helig, hretry, hheaders, haccounted,
    hhighest, _⟩ := hinv.claimReceiptAdmission hwell hr' rfl ht' hown' hahead'
  obtain rfl := (s.deliver ⟨seed, .claim call⟩ now).db.task_unique ht'' ht'
    (hown''.1.trans hown'.1.symm)
  have hlatched := ((h.wellformed hvalid).2.runs r hr).latched
  refine wonBy_eq_some.mpr ⟨⟨claimAssignments s.db seed now call r, hr', ⟨⟨?_, rfl, ?_, hgen, hact,
    hlease, hrelaunch, hsole, t'', ht'', hown'', helig, hretry, hheaders, haccounted, hhighest,
    hduration⟩, call.leaseMs, rfl, hg.2.2⟩⟩, rfl⟩
  · exact ⟨rfl, rfl, rfl, rfl⟩
  · show r.activatedGen < r.claimGen + 1
    omega

/-- A queued run that is due takes effect while its task's deadline is ahead. -/
theorem Reachable.takesEffect (h : Reachable Repeats s)
    (hvalid : ∀ e ∈ s.history, e.batch.call.Valid) (hclock : s.clock ≤ now) (hr : r ∈ s.db.runs)
    (ht : t ∈ s.db.tasks) (hown : runOwnedByTask r t) (hq : r.state.Queued)
    (hgen : r.claimGen < claimGenBounds.max) (hdue : runAvailableDue r now)
    (hfits : epochAdditionFits now 1) (hahead : ∀ deadline ∈ t.cancelAtMs, now < deadline)
    (hroom : t.firstStartedAtMs = none → ∀ d ∈ taskMaxDurationMs t, epochAdditionFits now d) :
    TakesEffect s r.queue now t r := by
  have hinv : Inv s.db := (h.course fun _ _ hrepeats => hrepeats).inv
  have hwell := (h.wellformed hvalid).2
  have hcandidate : claimCandidate s.db now r.queue r.state r :=
    ⟨rfl, rfl, hdue, t, ht, hown, hinv.claimEligibility hwell hr ht hown.1.symm hq hgen hahead⟩
  have hnotDue : ¬ cancelDue t now := by
    rintro ⟨deadline, hdeadline, _, hle⟩
    exact absurd (hahead deadline hdeadline) (not_lt.mpr hle)
  refine ⟨hcandidate, exists_claimGuard hr hq hcandidate hfits, fun seed seed' call hfresh hcall hg =>
    h.launches hvalid hclock hr ht hown hahead hroom hfresh hcall hg seed', ?_, ?_⟩
  · intro limit mint c hid hfound
    obtain ⟨u, hu, ⟨_, hcancel, _⟩, heq⟩ | ⟨_, _, _, heq⟩ := sweepItems_due hfound
    · obtain rfl := Call.cancelTransition.inj heq
      exact hnotDue (s.db.task_unique hu ht hid ▸ hcancel)
    · unfold sweepExpired at heq
      dsimp only at heq
      split at heq <;> cases heq
  · intro seed c hdeadline hid
    refine if_neg ?_
    rintro ⟨u, hu, hcid, _, _, hcancel, _⟩
    obtain rfl := s.db.task_unique hu ht (hcid.trans hid)
    exact hnotDue (hcancel hdeadline)

/-- It is void once the deadline has passed. -/
theorem Reachable.void (h : Reachable Repeats s) (hvalid : ∀ e ∈ s.history, e.batch.call.Valid)
    (hr : r ∈ s.db.runs) (ht : t ∈ s.db.tasks) (hown : runOwnedByTask r t) (hlive : t.state.Live)
    (hpassed : ∃ deadline ∈ t.cancelAtMs, deadline ≤ now) : Void s t.queue now t r := by
  have hinv : Inv s.db := (h.course fun _ _ hrepeats => hrepeats).inv
  have hdue : cancelDue t now := ((h.wellformed hvalid).2.tasks t ht).cancelDue hpassed
  have howns := hinv.toOwned.taskOwnsEveryRun ht
  refine ⟨fun call hg => ?_, ⟨rfl, hdue, hlive, howns⟩, fun seed => wonBy_eq_some.mpr
    ⟨⟨t, ht, rfl, rfl, hlive, fun _ => hdue, howns, fun hspared => by cases hspared⟩, rfl⟩⟩
  obtain ⟨⟨_, _, _, u, hu, howned, ⟨_, hnotDue⟩, _⟩, _⟩ := hg.candidate hr
  obtain rfl := s.db.task_unique hu ht (howned.1.trans hown.1.symm)
  obtain ⟨deadline, hdeadline, hle⟩ := hpassed
  rcases hnotDue with hnone | ⟨v, hv, _, hlt⟩
  · rw [hnone] at hdeadline
    cases hdeadline
  · obtain rfl := Option.mem_unique hv hdeadline
    exact absurd hlt (not_lt.mpr hle)

/-! ## Revivals -/

/-- In every reachable state in which a revival wins, at an instant with room for a lease: the run
it answers takes effect if the cancellation deadline of the failed task is ahead, and is void if it
has passed. -/
theorem retryTask_takesEffect (h : Reachable Repeats s)
    (hvalid : ∀ e ∈ s.history, e.batch.call.Valid) (seed : String) (call : RetryCall) (now : ℤ)
    (hclock : s.clock ≤ now) (hfresh : s.Fresh seed) (hfits : epochAdditionFits now 1)
    (hwins : (⟨seed, .retryTask call⟩ : Batch).Wins now s.db) :
    ∃ failed ∈ s.db.tasks, failed.taskId = call.taskId ∧
      ∃ t ∈ (s.deliver ⟨seed, .retryTask call⟩ now).db.tasks,
        ∃ r ∈ (s.deliver ⟨seed, .retryTask call⟩ now).db.runs,
          t.taskId = call.taskId ∧ r.runId = call.runId ∧ runOwnedByTask r t ∧
          ((∀ deadline ∈ failed.cancelAtMs, now < deadline) →
            (failed.firstStartedAtMs = none → ∀ d ∈ taskMaxDurationMs failed, epochAdditionFits now d) →
              TakesEffect (s.deliver ⟨seed, .retryTask call⟩ now) call.queue now t r) ∧
          ((∃ deadline ∈ failed.cancelAtMs, deadline ≤ now) →
            Void (s.deliver ⟨seed, .retryTask call⟩ now) call.queue now t r) := by
  have hinv : Inv s.db := (h.course fun _ _ hrepeats => hrepeats).inv
  obtain ⟨out, hrun, hwon⟩ := hwins
  obtain ⟨_, hlost, _⟩ | ⟨failed, hfailed, hg, runs, p, hp, hown, htop, hruns, hdb, _⟩ :=
    retryTask_cases hinv hrun
  · exact absurd hlost hwon
  have hreach : Reachable Repeats (s.deliver ⟨seed, .retryTask call⟩ now) :=
    .step h (.first ⟨seed, .retryTask call⟩ now hclock hfresh trivial)
  have hvalid' : ∀ e ∈ (s.deliver ⟨seed, .retryTask call⟩ now).history, e.batch.call.Valid := by
    intro e he
    obtain rfl | he := List.mem_cons.mp he
    · exact trivial
    · exact hvalid e he
  -- The task revived and the run put on top of it are all that changed.
  have hafter : (s.deliver ⟨seed, .retryTask call⟩ now).db =
      { reviveCas s.db seed call now with runs } := by
    rw [← hdb]
    show ((retryTask seed call now s.db).map Outcome.db).getD s.db = out.db
    rw [show retryTask seed call now s.db = some out from hrun]
    rfl
  set s' := s.deliver ⟨seed, .retryTask call⟩ now with hs'
  have ht : revivedTask s.db seed call now failed ∈ s'.db.tasks := by
    rw [hafter]
    exact Table.mem_update_of_pos (f := ⟨revivedTask s.db seed call now, fun _ => rfl⟩) hfailed hg
  have hr : revivalRun seed call.runId (revivedTask s.db seed call now failed) p ∈ s'.db.runs := by
    rw [hafter]
    exact (hruns _).mpr (Or.inr rfl)
  have hepoch : epochBounds.Within now := hfits.1
  have hqueue : call.queue = failed.queue := hg.2.1.symm
  -- The new run is pending, due at once and of generation 0, whatever its task's deadline is.
  refine ⟨failed, hfailed, hg.1, _, ht, _, hr, hg.1, rfl, ⟨rfl, rfl⟩, fun hahead hroom => ?_,
    fun hpassed => ?_⟩
  · rw [hqueue]
    exact hreach.takesEffect hvalid' le_rfl hr ht ⟨rfl, rfl⟩ (show TaskState.pending.Queued by decide)
      (show 0 < claimGenBounds.max by decide) ⟨now, rfl, hepoch, le_rfl⟩ hfits hahead hroom
  · rw [hqueue]
    exact hreach.void hvalid' hr ht ⟨rfl, rfl⟩ (show TaskState.pending.Live by decide) hpassed

/-! A task that may run for two seconds fails at once, and is revived before its deadline and after
it. -/

def spawnTimed : Batch := ⟨"b1", .spawn
  { queue := "q", taskId := "t", runId := "r1", taskName := "job", params := "null",
    headers := none, retryStrategy := .none, maxAttempts := 2,
    cancellation := some ⟨none, some 2000⟩, idempotencyKey := none, delayMs := 0, parent := none }⟩

def failedTimed : Sys :=
  (((Sys.init.deliver spawnTimed 0).deliver claimOne 1).deliver activateOne 2).deliver failOne 3

/-- The store whose timed task failed is reachable. -/
theorem failedTimed_reachable (again : Batch → Db → Prop) : Reachable again failedTimed := by
  have hspawned : Reachable again (Sys.init.deliver spawnTimed 0) :=
    .step .init (.first _ _ (by decide) (by decide) ⟨by decide, by decide⟩)
  have hclaimed : Reachable again ((Sys.init.deliver spawnTimed 0).deliver claimOne 1) :=
    .step hspawned (.first _ _ (by decide) (by decide) trivial)
  have hactive : Reachable again
      (((Sys.init.deliver spawnTimed 0).deliver claimOne 1).deliver activateOne 2) :=
    .step hclaimed (.first _ _ (by decide) (by decide) trivial)
  have hread : RunRead
      (((Sys.init.deliver spawnTimed 0).deliver claimOne 1).deliver activateOne 2).Seen "r1" "t" :=
    ⟨_, Or.inl rfl, by decide⟩
  exact .step hactive (.first _ _ (by decide) (by decide)
    ⟨fun rollback hr => absurd hr (Option.not_mem_none rollback), hread⟩)

/-- Each of its calls is valid. -/
theorem failedTimed_valid (e : Delivery) (he : e ∈ failedTimed.history) : e.batch.call.Valid := by
  have hcalls : e.batch ∈ [failOne, activateOne, claimOne, spawnTimed] := List.mem_map_of_mem he
  simp only [List.mem_cons, List.not_mem_nil, or_false] at hcalls
  obtain h | h | h | h := hcalls
  · rw [h]
    exact ⟨by decide, fun rollback hr => absurd hr (Option.not_mem_none rollback)⟩
  · rw [h]
    exact trivial
  · rw [h]
    exact ⟨by decide, by decide⟩
  · rw [h]
    exact ⟨by decide, trivial, by decide, by decide⟩

/-- A retry of the timed task ahead of its deadline takes effect. -/
theorem retryTask_takesEffect_timed :
    ∃ failed ∈ failedTimed.db.tasks, failed.taskId = "t" ∧
      ∃ t ∈ (failedTimed.deliver ⟨"b5", .retryTask ⟨"q", "t", "r2"⟩⟩ 1000).db.tasks,
        ∃ r ∈ (failedTimed.deliver ⟨"b5", .retryTask ⟨"q", "t", "r2"⟩⟩ 1000).db.runs,
          t.taskId = "t" ∧ r.runId = "r2" ∧ runOwnedByTask r t ∧
          ((∀ deadline ∈ failed.cancelAtMs, 1000 < deadline) →
            (failed.firstStartedAtMs = none →
              ∀ d ∈ taskMaxDurationMs failed, epochAdditionFits 1000 d) →
            TakesEffect (failedTimed.deliver ⟨"b5", .retryTask ⟨"q", "t", "r2"⟩⟩ 1000) "q" 1000 t r) ∧
          ((∃ deadline ∈ failed.cancelAtMs, deadline ≤ 1000) →
            Void (failedTimed.deliver ⟨"b5", .retryTask ⟨"q", "t", "r2"⟩⟩ 1000) "q" 1000 t r) :=
  retryTask_takesEffect (failedTimed_reachable Repeats) failedTimed_valid "b5" ⟨"q", "t", "r2"⟩ 1000
    (by decide) (by decide) (by decide) ⟨_, rfl, by decide⟩

/-- A retry past its deadline is won, and leaves no run that a claim would take. -/
theorem retryTask_void_timed :
    ¬ ∀ (s : Sys) (seed : String) (call : RetryCall) (now : ℤ), Reachable Repeats s →
      (∀ e ∈ s.history, e.batch.call.Valid) → s.clock ≤ now → s.Fresh seed →
      (⟨seed, .retryTask call⟩ : Batch).Wins now s.db →
      ∃ r ∈ (s.deliver ⟨seed, .retryTask call⟩ now).db.runs, r.runId = call.runId ∧
        claimCandidate (s.deliver ⟨seed, .retryTask call⟩ now).db now call.queue r.state r := by
  intro hclaim
  obtain ⟨r, hr, hid, hcandidate⟩ := hclaim failedTimed "b5" ⟨"q", "t", "r2"⟩ 3000
    (failedTimed_reachable Repeats) failedTimed_valid (by decide) (by decide) ⟨_, rfl, by decide⟩
  revert r
  decide

end Durablerun
