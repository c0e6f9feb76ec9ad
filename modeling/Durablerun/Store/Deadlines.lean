import Durablerun.Store.Wakeups

/-!
# The activation latch and the deadline

A claim's launch may be delivered any number of times. One delivery activates the claim, and the
others change no row. The first activation of a task's first run starts the task: the start deadline
gives way to the maximal duration, and no other transition moves either.

Reference: `packages/store-libsql/src/store.ts`.
-/

namespace Durablerun

open Relational

variable {again : Batch → Db → Prop} {s : Sys} {b : Batch} {seed : String} {now : ℤ} {db db' : Db}
  {seen : Db → Prop} {call : Call} {receipt : ClaimReceipt} {t t' : Task} {out : Outcome}

/-! ## The latch -/

/-- The delivery's compare-and-set wrote a row. -/
def Delivery.Wins (e : Delivery) : Prop :=
  ∃ out, e.batch.run e.now e.before = some out ∧ out.won ≠ none

/-- The delivery activated this generation of a run's claim. -/
def Delivery.Activates (e : Delivery) (runId : String) (claimGen : ℤ) : Prop :=
  e.Wins ∧ ∃ receipt, e.batch.call = .activate receipt ∧ receipt.runId = runId ∧
    receipt.claimGen = claimGen

/-- Every run is still there, and its latch has not gone down. -/
def LatchRises (db db' : Db) : Prop :=
  ∀ r ∈ db.runs, ∃ r' ∈ db'.runs, r.Same r' ∧ r.activatedGen ≤ r'.activatedGen

/-- No batch lets a latch fall. -/
theorem Effect.latchRises (h : Effect seed now db db' call) : LatchRises db db' := by
  intro r hr
  obtain ⟨r', hr', rfl | hm⟩ := h.runs.after r hr
  · exact ⟨r', hr', .refl r', le_rfl⟩
  · refine ⟨r', hr', hm.same, ?_⟩
    cases hm with
    | activated hg =>
      have hlatch : r.activatedGen < _ := hg.1.2.2.1
      exact hlatch.le
    | claimed | extended | deferred | rescheduled | suspended | leased | awaited | completed
    | failed | reopened | capped | timedOut | cancelled | expired | woken => exact le_rfl

/-- An activation that won found the run its guard asks for. -/
theorem activate_won (hwon : (activate seed receipt now db).won ≠ none) :
    ∃ r ∈ db.runs, activateGuard db now receipt r := by
  obtain ⟨won, hwon⟩ := Option.ne_none_iff_exists'.mp hwon
  exact (wonBy_eq_some.mp hwon).1

/-- An activation takes a run whose latch is below the generation it activates, and latches it. -/
theorem Batch.latches {runId : String} {claimGen : ℤ}
    (h : (b.delivery now db).Activates runId claimGen) :
    (∃ r ∈ (b.after now db).runs, r.runId = runId ∧ claimGen ≤ r.activatedGen) ∧
      ∃ r ∈ db.runs, r.runId = runId ∧ r.activatedGen < claimGen := by
  obtain ⟨⟨out, hrun, hwon⟩, receipt, hcall, rfl, rfl⟩ := h
  obtain ⟨seed, call⟩ := b
  obtain rfl : call = .activate receipt := hcall
  obtain rfl := Option.some.inj hrun
  obtain ⟨r, hr, hg⟩ := activate_won hwon
  have hlatch : r.activatedGen < receipt.claimGen := hg.1.2.2.1
  exact ⟨⟨activateAssignments seed receipt now r, Table.mem_update_of_pos hr hg, hg.1.1.1, le_rfl⟩,
    r, hr, hg.1.1.1, hlatch⟩

/-- A run whose claim was activated is latched. -/
theorem Reachable.latched (h : Reachable again s)
    (hagain : ∀ b db, again b db → b.call.Repeatable) : ∀ e ∈ s.history, ∀ runId claimGen,
    e.Activates runId claimGen → ∃ r ∈ s.db.runs, r.runId = runId ∧ claimGen ≤ r.activatedGen := by
  refine h.induct (P := fun s => ∀ e ∈ s.history, ∀ runId claimGen, e.Activates runId claimGen →
    ∃ r ∈ s.db.runs, r.runId = runId ∧ claimGen ≤ r.activatedGen) hagain
    (fun e he => absurd he List.not_mem_nil) fun s b now hd ih e he runId claimGen hact => ?_
  obtain rfl | he := List.mem_cons.mp he
  · exact (Batch.latches hact).1
  · obtain ⟨r, hr, hid, hle⟩ := ih e he runId claimGen hact
    obtain ⟨r', hr', hsame, hle'⟩ := hd.effect.latchRises r hr
    exact ⟨r', hr', hsame.runId.trans hid, hle.trans hle'⟩

/-- No two deliveries activate one generation of a run's claim. -/
theorem Reachable.activates_once (h : Reachable again s)
    (hagain : ∀ b db, again b db → b.call.Repeatable) : s.history.Pairwise fun e e' =>
      ∀ runId claimGen, e.Activates runId claimGen → ¬ e'.Activates runId claimGen := by
  induction h with
  | init => exact .nil
  | step hreach hstep ih =>
    obtain ⟨b, now, rfl, hd⟩ := (hreach.course hagain).step hagain hstep
    refine List.pairwise_cons.mpr ⟨fun e' he' runId claimGen hact hact' => ?_, ih⟩
    obtain ⟨r', hr', hid', hle⟩ := hreach.latched hagain e' he' runId claimGen hact'
    obtain ⟨r, hr, hid, hlatch⟩ := (Batch.latches hact).2
    rw [Db.run_unique hr' hr (hid'.trans hid.symm)] at hle
    exact absurd hlatch (not_lt.mpr hle)

/-! ## Deadlines -/

/-- The start deadline's delay, when the policy names one. -/
def Task.maxDelayMs (t : Task) : Option ℤ := t.cancellation.bind CancellationPolicy.maxDelayMs

/-- The deadline a task has: to start by until it started, and to end by afterwards. -/
def Task.deadline (t : Task) : Option ℤ :=
  match t.firstStartedAtMs with
  | none => t.maxDelayMs.map (t.enqueueAtMs + ·)
  | some started => (taskMaxDurationMs t).map (started + ·)

/-- A task that did not complete, and was not cancelled, has its deadline. -/
def Task.Dated (t : Task) : Prop :=
  t.state ≠ .completed → t.state ≠ .cancelled → t.cancelAtMs = t.deadline

/-- A live task's deadline is its own. -/
theorem Task.Dated.live (h : t.Dated) (hl : t.state.Live) : t.cancelAtMs = t.deadline := by
  refine h (fun hs => ?_) fun hs => ?_
  · simp [hs] at hl
  · simp [hs] at hl

/-- What changes neither the deadline's columns nor the policy keeps a live task dated. -/
theorem Task.Dated.of_live {u : Task} (h : t.Dated) (hl : t.state.Live)
    (hcancel : u.cancelAtMs = t.cancelAtMs) (hdeadline : u.deadline = t.deadline) : u.Dated :=
  fun _ _ => hcancel.trans ((h.live hl).trans hdeadline.symm)

/-- What a batch makes of a dated task is dated. -/
theorem Task.Dated.move {u : Task} (hm : Task.Move seed now db call t u) (h : t.Dated) :
    u.Dated := by
  cases hm with
  | booked hl | followed hl | rollingBack hl | retrying hl | failed hl | infraRetried hl =>
    exact h.of_live hl rfl rfl
  | started => exact fun _ _ => rfl
  | completed => exact fun hne => absurd rfl hne
  | cancelled => exact fun _ hne => absurd rfl hne
  | revived hg =>
    have hfailed : t.state = .failed := hg.2.2.failed
    have hdate : t.cancelAtMs = t.deadline := h (by simp [hfailed]) (by simp [hfailed])
    exact fun _ _ => hdate

/-- Every batch leaves every task dated. -/
theorem Effect.dated (h : Effect seed now db db' call) (hdated : ∀ t ∈ db.tasks, t.Dated) :
    ∀ t ∈ db'.tasks, t.Dated := by
  refine h.forall_tasks (P := Task.Dated) (fun t hborn => ?_) (fun _ _ hm ht => ht.move hm)
    (fun _ _ _ ht => ht) hdated
  cases hborn with
  | spawned => exact fun _ _ => rfl

/-- Every task a run of the store reaches is dated. -/
theorem Reachable.dated (h : Reachable again s)
    (hagain : ∀ b db, again b db → b.call.Repeatable) : ∀ t ∈ s.db.tasks, t.Dated :=
  h.induct (P := fun s => ∀ t ∈ s.db.tasks, t.Dated) hagain
    (fun t ht => absurd ht (Table.not_mem_empty t)) fun _ _ _ hd hdated => hd.effect.dated hdated

/-- The calls that write a deadline: the first start, and what ends a task for good. -/
def Call.Dates : Call → Prop
  | .activate _ | .complete _ _ _ | .cancelTransition _ => True
  | _ => False

/-- No batch but an activation sets a first start. -/
theorem Task.Move.first_kept {u : Task} (hm : Task.Move seed now db call t u)
    (hcall : ∀ receipt, call ≠ .activate receipt) : u.firstStartedAtMs = t.firstStartedAtMs := by
  cases hm with
  | started => exact absurd rfl (hcall _)
  | booked | followed | completed | rollingBack | retrying | failed | infraRetried | cancelled
  | revived => rfl

/-- A batch that dates no task keeps its deadline. -/
theorem Task.Move.cancelAt_kept {u : Task} (hm : Task.Move seed now db call t u)
    (hcall : ¬ call.Dates) : u.cancelAtMs = t.cancelAtMs := by
  cases hm with
  | started | completed | cancelled => exact absurd trivial hcall
  | booked | followed | rollingBack | retrying | failed | infraRetried | revived => rfl

/-- No batch but an activation sets the first start of a task it moves or leaves. -/
theorem Task.Moved.first_kept (hm : Task.Moved seed now db call t t')
    (hcall : ∀ receipt, call ≠ .activate receipt) : t'.firstStartedAtMs = t.firstStartedAtMs := by
  induction hm with
  | refl => rfl
  | tail _ hturn ih =>
    obtain ⟨v, _, _, hmove, rfl⟩ := hturn
    exact (hmove.first_kept hcall).trans ih

/-- A batch that dates no task keeps the deadline of a task it moves or leaves. -/
theorem Task.Moved.cancelAt_kept (hm : Task.Moved seed now db call t t') (hcall : ¬ call.Dates) :
    t'.cancelAtMs = t.cancelAtMs := by
  induction hm with
  | refl => rfl
  | tail _ hturn ih =>
    obtain ⟨v, _, _, hmove, rfl⟩ := hturn
    exact (hmove.cancelAt_kept hcall).trans ih

/-- A task that started keeps its first start. -/
theorem Task.Moved.first_set (hm : Task.Moved seed now db call t t') {started : ℤ}
    (hfirst : t.firstStartedAtMs = some started) : t'.firstStartedAtMs = some started := by
  induction hm with
  | refl => exact hfirst
  | tail _ hturn ih =>
    obtain ⟨v, _, _, hmove, rfl⟩ := hturn
    cases hmove with
    | started =>
      show some (Option.getD _ _) = some started
      rw [ih]
      rfl
    | booked | followed | completed | rollingBack | retrying | failed | infraRetried | cancelled
    | revived => exact ih

/-- A move keeps what the spawn said of the deadline. -/
theorem Task.Moved.policy (hm : Task.Moved seed now db call t t') :
    t'.cancellation = t.cancellation ∧ t'.enqueueAtMs = t.enqueueAtMs := by
  induction hm with
  | refl => exact ⟨rfl, rfl⟩
  | tail _ hturn ih =>
    obtain ⟨v, _, _, hmove, rfl⟩ := hturn
    cases hmove with
    | booked | started | followed | completed | rollingBack | retrying | failed | infraRetried
    | cancelled | revived => exact ih

/-! ## The start -/

/-- A run that carries an activation's stamp has a task that carries the stamp of the start after it,
of the same instant. -/
def Started (db : Db) : Prop :=
  ∀ r ∈ db.runs, ∀ σ, r.fenceStamp = some ⟨σ, .activate⟩ → ∀ t ∈ db.tasks, t.taskId = r.taskId →
    t.fenceStamp = some ⟨σ, .taskStart⟩ ∧ t.fenceAtMs = r.fenceAtMs ∧ t.firstStartedAtMs ≠ none

/-- The row the first start leaves, and every later one finds. -/
def startedTask (seed : String) (now : ℤ) (t : Task) : Task :=
  { t with
    firstStartedAtMs := some (t.firstStartedAtMs.getD now)
    cancelAtMs := (taskMaxDurationMs t).map (t.firstStartedAtMs.getD now + ·) }.stampedAt
      ⟨seed, .taskStart⟩ now

/-- A task that started, at the stamp of its start, is as the start would leave it. -/
theorem startedTask_eq (hdated : t.Dated) (hl : t.state.Live)
    (hstamp : t.fenceStamp = some ⟨seed, .taskStart⟩) (hat : t.fenceAtMs = now)
    (hfirst : t.firstStartedAtMs ≠ none) : startedTask seed now t = t := by
  obtain ⟨started, hstarted⟩ := Option.ne_none_iff_exists'.mp hfirst
  have hcancel : t.cancelAtMs = (taskMaxDurationMs t).map (started + ·) := by
    have hdeadline := hdated.live hl
    unfold Task.deadline at hdeadline
    rwa [hstarted] at hdeadline
  unfold startedTask Task.stampedAt
  cases t with
  | mk =>
    simp only at hstarted hcancel hstamp hat
    simp only [hstarted, Option.getD_some, Task.mk.injEq, true_and]
    exact ⟨hcancel.symm, hstamp.symm, hat.symm⟩

/-- The start's assignments, of the run it follows. -/
theorem taskStart_set {f : Run} (hf : stampedRun db seed receipt.runId .activate = some f) :
    Task.stampedAt { t with
      firstStartedAtMs := t.firstStartedAtMs.or
        ((stampedRun db seed receipt.runId .activate).map Run.fenceAtMs)
      cancelAtMs := (taskMaxDurationMs t).bind fun d =>
        (t.firstStartedAtMs.or ((stampedRun db seed receipt.runId .activate).map
          Run.fenceAtMs)).map (· + d) } ⟨seed, .taskStart⟩ f.fenceAtMs =
      startedTask seed f.fenceAtMs t := by
  rw [hf]
  unfold startedTask Task.stampedAt
  cases t.firstStartedAtMs <;> cases taskMaxDurationMs t <;> rfl

/-- What an activation makes of the tables when it takes a run. -/
structure Activation (db db' : Db) (seed : String) (now : ℤ) (receipt : ClaimReceipt) (r : Run)
    (t : Task) : Prop where
  run : r ∈ db.runs
  task : t ∈ db.tasks
  guard : activateGuard db now receipt r
  owned : runOwnedByTask r t
  live : t.state.Live
  runs : Table.Replaced db.runs db'.runs r (activateAssignments seed receipt now r)
  tasks : Table.Replaced db.tasks db'.tasks t (startedTask seed now t)

variable (seed now) in
/-- An activation takes its run and starts the task, or changes no row. -/
theorem activate_cases (hdated : ∀ t ∈ db.tasks, t.Dated) (hstarted : Started db)
    (receipt : ClaimReceipt) :
    (∃ r t, Activation db (activate seed receipt now db).db seed now receipt r t) ∨
      ((activate seed receipt now db).won = none ∧ (activate seed receipt now db).db = db) := by
  by_cases hg : ∃ r ∈ db.runs, activateGuard db now receipt r
  · obtain ⟨r, hr, hg⟩ := hg
    obtain ⟨t, ht, hown, heligible, _⟩ := hg.1.2.2.2.2.2.2.2.2
    have hruns : Table.Replaced db.runs (activate seed receipt now db).db.runs r
        (activateAssignments seed receipt now r) :=
      Table.Replaced.update hr hg fun r' hr' hg' =>
        db.run_unique hr' hr (hg'.1.1.1.trans hg.1.1.1.symm)
    set activated := activateCas db seed receipt now
    have hmem : activateAssignments seed receipt now r ∈ activated.runs :=
      (hruns _).mpr (Or.inl rfl)
    have hstamped : stampedRun activated seed receipt.runId .activate =
        some (activateAssignments seed receipt now r) :=
      stampedRun_eq_some.mpr ⟨hmem, hg.1.1.1, rfl⟩
    have hqueue : r.queue = receipt.queue := hg.1.1.2.1
    refine Or.inl ⟨r, t, hr, ht, hg, hown, heligible.1, hruns, ?_⟩
    have hreplaced : Table.Replaced activated.tasks (taskStart activated seed receipt).tasks t _ :=
      runsToTasks_replaced_at ht hmem
        ⟨⟨hg.1.1.1, hqueue, rfl⟩, hown.1.symm, heligible.1⟩ (hown.2.trans hqueue) fun g hgm hsrc =>
          activated.run_unique hgm hmem (hsrc.selected.trans hg.1.1.1.symm)
    have hset := taskStart_set (t := t) hstamped
    rw [← show startedTask seed (activateAssignments seed receipt now r).fenceAtMs t =
      startedTask seed now t from rfl, ← hset]
    exact hreplaced
  · have hcas : activateCas db seed receipt now = db :=
      updateRuns_of_forall_not fun r hr hgr => hg ⟨r, hr, hgr⟩
    refine Or.inr ⟨if_neg hg, ?_⟩
    show taskStart (activateCas db seed receipt now) seed receipt = db
    rw [hcas]
    refine runsToTasks_fixed fun t ht f hf hfol => ⟨fun g hgm hsrc => ?_, ?_⟩
    · exact db.run_unique hgm hf (hsrc.selected.trans hfol.selected.symm)
    · obtain ⟨hstamp, hat, hfirst⟩ := hstarted f hf seed hfol.stamp t ht hfol.taskId.symm
      have hstamped := stampedRun_eq_some.mpr ⟨hf, hfol.selected, hfol.stamp⟩
      exact (taskStart_set hstamped).trans
        (startedTask_eq (hdated t ht) hfol.narrow hstamp hat hfirst)

/-- A task whose running run carries an activation's stamp, and that runs after a batch which is no
activation, is as it was. -/
theorem Task.Moved.still (h : Inv db) (hm : Task.Moved seed now db call t t')
    (hcall : ∀ receipt, call ≠ .activate receipt) {r : Run} {σ : String} (hr : r ∈ db.runs)
    (hid : r.taskId = t.taskId) (hrunning : r.state = .running)
    (hstamp : r.fenceStamp = some ⟨σ, .activate⟩) (hst : t'.state = .running) : t' = t := by
  cases hm with
  | refl => rfl
  | @tail u _ hmoved hturn =>
    obtain ⟨v, _, _, hmove, rfl⟩ := hturn
    have hmoved : Task.Moved seed now db call t u := hmoved
    have hst : v.state = .running := hst
    have hsole : ∀ r₀ ∈ db.runs, runOwnedByTask r₀ u → r₀.state.Live → r₀ = r := by
      intro r₀ hr₀ hown hl
      have hid₀ : r₀.taskId = r.taskId := hown.1.symm.trans (hmoved.same.taskId.trans hid.symm)
      exact h.toUnits.sole hr hr₀ hid₀ (by simp [hrunning]) hl
    cases hmove with
    | booked _ hr₀ hown htaken =>
      obtain hg | ⟨htaken, hs⟩ := htaken
      · have hqueued := (hg.candidate hr₀).2
        obtain rfl := hsole _ hr₀ hown hqueued.live
        simp [hrunning] at hqueued
      · obtain rfl := hsole _ hr₀ hown (by simp [htaken.2.1])
        cases hs.symm.trans hstamp
    | started => exact absurd rfl (hcall _)
    | followed _ hq | rollingBack _ _ _ _ _ hq | retrying _ _ _ _ hq =>
      simp only at hst
      simp [hst] at hq
    | completed | failed | infraRetried | cancelled => cases hst
    | revived => cases hst

/-- A move leaves no activation's stamp but an activation's, or the stamp the run had. -/
theorem Run.Move.activateStamp {r r' : Run} {σ : String} (hm : Run.Move seed now db db' call r r')
    (hs : r'.fenceStamp = some ⟨σ, .activate⟩) (hcall : ∀ receipt, call ≠ .activate receipt) :
    r.fenceStamp = some ⟨σ, .activate⟩ ∧ r'.fenceAtMs = r.fenceAtMs := by
  cases hm with
  | activated => exact absurd rfl (hcall _)
  | expired => exact ⟨hs, rfl⟩
  | claimed | extended | deferred | rescheduled | suspended | leased | awaited | completed | failed
  | reopened | capped | timedOut | cancelled | woken => cases hs

/-- A batch that is no activation keeps the stamps of the starts. -/
theorem Started.effect (hinv : Inv db) (hinv' : Inv db') (h : Started db)
    (he : Effect seed now db db' call) (hcall : ∀ receipt, call ≠ .activate receipt) :
    Started db' := by
  intro r' hr' σ hs t' ht' hid
  have hrunning' : r'.state = .running := hinv'.stamped.runs r' hr' _ hs
  have hst' : t'.state = .running :=
    (hinv'.state_eq hr' ht' hid.symm (by simp [hrunning'])).trans hrunning'
  obtain ⟨r, hr, hsame, hs₀, hat⟩ : ∃ r ∈ db.runs, r.Same r' ∧
      r.fenceStamp = some ⟨σ, .activate⟩ ∧ r'.fenceAtMs = r.fenceAtMs := by
    obtain ⟨r, hr, rfl | hm⟩ | hborn := he.runs.before r' hr'
    · exact ⟨r', hr, .refl r', hs, rfl⟩
    · exact ⟨r, hr, hm.same, hm.activateStamp hs hcall⟩
    · cases hborn with
      | first | revived => cases hs
      | followed _ _ hplaces =>
        obtain rfl := (Stamp.mk.inj (Option.some.inj hs)).2
        cases call <;> cases hplaces
  have hrunning : r.state = .running := hinv.stamped.runs r hr _ hs₀
  obtain ⟨t, ht, hmoved⟩ | hborn := he.tasks.before t' ht'
  · have hid₀ : t.taskId = r.taskId := hmoved.same.taskId.symm.trans (hid.trans hsame.taskId)
    rw [hmoved.still hinv hcall hr hid₀.symm hrunning hs₀ hst', hat]
    exact h r hr σ hs₀ t ht hid₀
  · cases hborn with
    | spawned hg => exact absurd ⟨r, hr, hsame.taskId.symm.trans hid.symm⟩ hg.1.2

/-- An activation leaves its start's stamp. -/
theorem Started.activate (hinv' : Inv (activate seed receipt now db).db)
    (hdated : ∀ t ∈ db.tasks, t.Dated) (h : Started db) :
    Started (activate seed receipt now db).db := by
  obtain ⟨r, t, hact⟩ | ⟨_, heq⟩ := activate_cases seed now hdated h receipt
  swap
  · rwa [heq]
  intro r' hr' σ hs t' ht' hid
  obtain rfl | ⟨hr₀, hne⟩ := (hact.runs r').mp hr'
  · obtain rfl := (Stamp.mk.inj (Option.some.inj hs)).1
    obtain rfl | ⟨ht₀, hnet⟩ := (hact.tasks t').mp ht'
    · exact ⟨rfl, rfl, Option.some_ne_none _⟩
    · exact absurd (db.task_unique ht₀ hact.task (hid.trans hact.owned.1.symm)) hnet
  · obtain rfl | ⟨ht₀, _⟩ := (hact.tasks t').mp ht'
    · have hrunning' : r'.state = .running := hinv'.stamped.runs r' hr' _ hs
      have hmem : activateAssignments seed receipt now r ∈
          (Durablerun.activate seed receipt now db).db.runs := (hact.runs _).mpr (Or.inl rfl)
      have hrunning : (activateAssignments seed receipt now r).state = .running :=
        hact.guard.1.1.running
      have hsole := hinv'.toUnits.sole hr' hmem (hact.owned.1.symm.trans hid)
        (by simp [hrunning']) (by simp [hrunning])
      exact absurd (db.run_unique hr₀ hact.run (congrArg Run.runId hsole).symm) hne
    · exact h r' hr₀ σ hs t' ht₀ hid

/-- Every delivery leaves the stamps of the starts. -/
theorem Batch.Meets.started (h : b.Meets seen now db) (hdated : ∀ t ∈ db.tasks, t.Dated)
    (hstarted : Started db) : Started (b.after now db) := by
  by_cases hcall : ∃ receipt, b.call = .activate receipt
  · obtain ⟨seed, call⟩ := b
    obtain ⟨receipt, rfl⟩ := hcall
    exact Started.activate h.inv hdated hstarted
  · exact hstarted.effect h.sound h.inv h.effect fun receipt hr => hcall ⟨receipt, hr⟩

/-- Every latch a run of the store reaches has its task's first start. -/
theorem Reachable.started (h : Reachable again s)
    (hagain : ∀ b db, again b db → b.call.Repeatable) : Started s.db := by
  induction h with
  | init => exact fun r hr => absurd hr (Table.not_mem_empty r)
  | step hreach hstep ih =>
    obtain ⟨b, now, rfl, hd⟩ := (hreach.course hagain).step hagain hstep
    exact hd.meets.started (hreach.dated hagain) ih

/-! ## The first start and the spawn -/

/-- The delivery activated a run of the task. -/
def Delivery.Starts (e : Delivery) (taskId : String) : Prop :=
  e.Wins ∧ ∃ receipt, e.batch.call = .activate receipt ∧
    ∃ r ∈ e.before.runs, r.runId = receipt.runId ∧ r.taskId = taskId

/-- A task has started when a delivery activated a run of it, at the instant of the first that did. -/
def FirstStart (history : List Delivery) (t : Task) : Prop :=
  match t.firstStartedAtMs with
  | none => ∀ e ∈ history, ¬ e.Starts t.taskId
  | some started => ∃ later e earlier, history = later ++ e :: earlier ∧ e.Starts t.taskId ∧
      e.now = started ∧ ∀ e' ∈ earlier, ¬ e'.Starts t.taskId

/-- One delivery more that did not start the task for the first time. -/
theorem FirstStart.later {history : List Delivery} (h : FirstStart history t) {e : Delivery}
    (hid : t'.taskId = t.taskId) (hfirst : t'.firstStartedAtMs = t.firstStartedAtMs)
    (hno : t.firstStartedAtMs = none → ¬ e.Starts t.taskId) : FirstStart (e :: history) t' := by
  unfold FirstStart at h ⊢
  rw [hfirst, hid]
  split at h
  · rename_i hnone
    intro e' he'
    obtain rfl | he' := List.mem_cons.mp he'
    · exact hno hnone
    · exact h e' he'
  · obtain ⟨later, e', earlier, rfl, hstarts, hnow, hfirst⟩ := h
    exact ⟨e :: later, e', earlier, rfl, hstarts, hnow, hfirst⟩

/-- The first delivery that starts a task. -/
theorem FirstStart.starts {history : List Delivery} (h : FirstStart history t) {e : Delivery}
    (hstarts : e.Starts t.taskId) (hid : t'.taskId = t.taskId)
    (hfirst : t'.firstStartedAtMs = some (t.firstStartedAtMs.getD e.now)) :
    FirstStart (e :: history) t' := by
  cases hnone : t.firstStartedAtMs with
  | some started =>
    rw [hnone] at hfirst
    exact h.later hid (hfirst.trans hnone.symm) fun hn => by simp [hnone] at hn
  | none =>
    unfold FirstStart at h ⊢
    rw [hnone] at h hfirst
    rw [hfirst, hid]
    exact ⟨[], e, history, rfl, hstarts, rfl, h⟩

/-- Only an activation starts a task. -/
theorem Delivery.Starts.activates {e : Delivery} {taskId : String} (h : e.Starts taskId) :
    ∃ receipt, e.batch.call = .activate receipt :=
  let ⟨_, receipt, hcall, _⟩ := h
  ⟨receipt, hcall⟩

/-- A task no run of which was ever there never started. -/
theorem Course.not_starts (h : Course s) {taskId : String}
    (hno : ¬ ∃ r ∈ s.db.runs, r.taskId = taskId) : ∀ e ∈ s.history, ¬ e.Starts taskId := by
  rintro e he ⟨_, receipt, _, r, hr, _, hid⟩
  obtain ⟨r', hr', hsame⟩ := (h.seen e.before (Or.inr ⟨e, he, rfl⟩)).2.runs r hr
  exact hno ⟨r', hr', hsame.taskId.trans hid⟩

/-- An activation starts its run's task, and no other. -/
theorem firstStart_activate {history : List Delivery}
    (hdated : ∀ t ∈ db.tasks, t.Dated) (hstarted : Started db) (ht : t ∈ db.tasks)
    (ht' : t' ∈ (activate seed receipt now db).db.tasks) (hid : t'.taskId = t.taskId)
    (hfirst : FirstStart history t) :
    FirstStart (Batch.delivery ⟨seed, .activate receipt⟩ now db :: history) t' := by
  obtain ⟨r, u, hact⟩ | ⟨hlost, heq⟩ := activate_cases seed now hdated hstarted receipt
  · have hrunId : r.runId = receipt.runId := hact.guard.1.1.1
    obtain rfl | ⟨ht₀, hne⟩ := (hact.tasks t').mp ht'
    · obtain rfl : u = t := db.task_unique hact.task ht hid
      have hwon : (activate seed receipt now db).won = some .activate :=
        wonBy_eq_some.mpr ⟨⟨r, hact.run, hact.guard⟩, rfl⟩
      exact hfirst.starts ⟨⟨_, rfl, by simp [hwon]⟩, receipt, rfl, r, hact.run, hrunId,
        hact.owned.1.symm⟩ rfl rfl
    · obtain rfl := db.task_unique ht₀ ht hid
      refine hfirst.later rfl rfl fun _ hstarts => hne ?_
      obtain ⟨_, receipt', hcall', r', hr', hid', htask⟩ := hstarts
      obtain rfl := Call.activate.inj hcall'
      rw [db.run_unique hr' hact.run (hid'.trans hrunId.symm)] at htask
      exact db.task_unique ht₀ hact.task (htask.symm.trans hact.owned.1.symm)
  · rw [heq] at ht'
    obtain rfl := db.task_unique ht' ht hid
    refine hfirst.later rfl rfl fun _ hstarts => ?_
    obtain ⟨⟨out, hrun, hwon⟩, _⟩ := hstarts
    obtain rfl := Option.some.inj hrun
    exact hwon hlost

/-- A delivery leaves a task's start, or is its first. -/
theorem Batch.Meets.firstStart {history : List Delivery} (h : b.Meets seen now db)
    (hdated : ∀ t ∈ db.tasks, t.Dated) (hstarted : Started db) (ht : t ∈ db.tasks)
    (ht' : t' ∈ (b.after now db).tasks) (hid : t'.taskId = t.taskId)
    (hfirst : FirstStart history t) : FirstStart (b.delivery now db :: history) t' := by
  by_cases hcall : ∃ receipt, b.call = .activate receipt
  · obtain ⟨seed, call⟩ := b
    obtain ⟨receipt, rfl⟩ := hcall
    exact firstStart_activate hdated hstarted ht ht' hid hfirst
  · obtain ⟨t'', ht'', hmoved⟩ := h.effect.tasks.after t ht
    obtain rfl := (b.after now db).task_unique ht' ht'' (hid.trans hmoved.same.taskId.symm)
    exact hfirst.later hid (hmoved.first_kept fun receipt hr => hcall ⟨receipt, hr⟩)
      fun _ hstarts => hcall hstarts.activates

/-- A task's first start is the instant of the activation that was its first. -/
theorem Reachable.firstStart (h : Reachable again s)
    (hagain : ∀ b db, again b db → b.call.Repeatable) : ∀ t ∈ s.db.tasks, FirstStart s.history t := by
  induction h with
  | init => exact fun t ht => absurd ht (Table.not_mem_empty t)
  | step hreach hstep ih =>
    obtain ⟨b, now, rfl, hd⟩ := (hreach.course hagain).step hagain hstep
    intro t' ht'
    obtain ⟨t, ht, hmoved⟩ | hborn := hd.effect.tasks.before t' ht'
    · exact hd.meets.firstStart (hreach.dated hagain) (hreach.started hagain) ht ht'
        hmoved.same.taskId (ih t ht)
    · obtain ⟨seed, call⟩ := b
      cases hborn with
      | @spawned call hg =>
        intro e he hstarts
        obtain rfl | he := List.mem_cons.mp he
        · obtain ⟨receipt, hcall⟩ := hstarts.activates
          cases hcall
        · exact (hreach.course hagain).not_starts hg.1.2 e he hstarts

/-- The delivery spawned a task. -/
def Delivery.Spawns (e : Delivery) (call : SpawnCall) : Prop := e.Wins ∧ e.batch.call = .spawn call

/-- The task is one a delivery spawned, with the policy it was spawned with. -/
def SpawnedAs (e : Delivery) (call : SpawnCall) (t : Task) : Prop :=
  e.Spawns call ∧ call.taskId = t.taskId ∧ t.cancellation = call.cancellation ∧
    t.enqueueAtMs = e.now + call.delayMs

/-- A task moves as the one it was spawned as. -/
theorem SpawnedAs.moved {e : Delivery} {sent : SpawnCall} (h : SpawnedAs e sent t)
    (hmoved : Task.Moved seed now db call t t') : SpawnedAs e sent t' :=
  ⟨h.1, h.2.1.trans hmoved.same.taskId.symm, hmoved.policy.1.trans h.2.2.1,
    hmoved.policy.2.trans h.2.2.2⟩

/-- A task that was not there is one the delivery spawned, and has not started. -/
theorem Batch.Meets.spawned (h : b.Meets seen now db) (ht' : t' ∈ (b.after now db).tasks)
    (hborn : Task.Born b.seed now db b.call t') :
    (∃ call, SpawnedAs (b.delivery now db) call t') ∧ t'.firstStartedAtMs = none := by
  have hadm := h.admitted
  obtain ⟨seed, call⟩ := b
  cases hborn with
  | @spawned call hg =>
    have hnew : ∀ t ∈ db.tasks, t.taskId ≠ call.taskId := fun t ht hid => hg.1.1 ⟨t, ht, hid⟩
    have ht' : call.task seed now ∈ (Batch.after ⟨seed, .spawn call⟩ now db).tasks := ht'
    obtain he | ⟨out, hrun, he⟩ := Batch.after_cases ⟨seed, .spawn call⟩ now db
    · rw [he] at ht'
      exact absurd rfl (hnew _ ht')
    · obtain ⟨hsame, _⟩ | ⟨_, _, _, _, _, hwon⟩ := spawn_cases hadm h.sound hrun
      · rw [he, hsame] at ht'
        exact absurd rfl (hnew _ ht')
      · exact ⟨⟨call, ⟨⟨out, hrun, by simp [hwon]⟩, rfl⟩, rfl, rfl, rfl⟩, rfl⟩

/-- Every task was spawned by a call in the history. -/
theorem Reachable.spawnedAs (h : Reachable again s)
    (hagain : ∀ b db, again b db → b.call.Repeatable) :
    ∀ t ∈ s.db.tasks, ∃ e ∈ s.history, ∃ call, SpawnedAs e call t := by
  refine h.induct (P := fun s => ∀ t ∈ s.db.tasks, ∃ e ∈ s.history, ∃ call, SpawnedAs e call t)
    hagain (fun t ht => absurd ht (Table.not_mem_empty t)) fun s b now hd ih t' ht' => ?_
  obtain ⟨t, ht, hmoved⟩ | hborn := hd.effect.tasks.before t' ht'
  · obtain ⟨e, he, call, hspawned⟩ := ih t ht
    exact ⟨e, List.mem_cons_of_mem _ he, call, hspawned.moved hmoved⟩
  · obtain ⟨call, hspawned⟩ := (hd.meets.spawned ht' hborn).1
    exact ⟨_, List.mem_cons_self, call, hspawned⟩

/-! ## What a passed deadline refuses -/

/-- The calls a passed deadline refuses. -/
def Call.Deadlined : Call → Prop
  | .claim _ | .activate _ | .deferLaunch _ _ | .reschedule _ _ | .suspendRun _ _ _
  | .awaitEvent _ => True
  | _ => False

/-- The compare-and-set of such a call takes the run. -/
def Call.Takes (db : Db) (now : ℤ) : Call → Run → Prop
  | .claim call, r => claimGuard db now call r
  | .activate receipt, r => activateGuard db now receipt r
  | .deferLaunch receipt delayMs, r => deferLaunchGuard db now receipt delayMs r
  | .reschedule held wake, r => rescheduleGuard db now held wake r
  | .suspendRun held wake checkpoint, r => suspendRunGuard db now held wake checkpoint r
  | .awaitEvent call, r => registerGuard db now call ∧
      whereClaimedRun call.queue call.runId call.claimToken r ∧ r.taskId = call.taskId
  | _, _ => False

/-- A batch that wins takes a run. -/
theorem Batch.takes (hcall : b.call.Deadlined) (hrun : b.run now db = some out)
    (hwon : out.won ≠ none) : ∃ r ∈ db.runs, b.call.Takes db now r := by
  obtain ⟨seed, call⟩ := b
  obtain ⟨won, hwon⟩ := Option.ne_none_iff_exists'.mp hwon
  cases call with
  | claim | activate | deferLaunch | reschedule | suspendRun =>
    obtain rfl := Option.some.inj hrun
    exact (wonBy_eq_some.mp hwon).1
  | awaitEvent call =>
    obtain rfl := Option.some.inj hrun
    have hg : registerGuard db now call := (wonBy_eq_some.mp hwon).1.1
    obtain ⟨r, hr, hholds, htask, _⟩ := hg.2.1
    exact ⟨r, hr, hg, hholds, htask⟩
  | spawn | heartbeat | recordTaskDone | emitEvent | setCheckpoint | complete | failInto
  | sweepLostLaunch | sweepClaimTimeout | cancelTransition | retryTask | expireLeaseNow =>
    exact hcall.elim

/-- The deadline of an eligible task is ahead. -/
theorem eligibleTask.ahead (h : eligibleTask t now) : ∀ deadline ∈ t.cancelAtMs, now < deadline := by
  intro deadline hdeadline
  obtain hnone | ⟨v, hv, _, hlt⟩ := h.2
  · rw [hnone] at hdeadline
    cases hdeadline
  · rwa [Option.mem_unique hdeadline hv]

/-- The task of a run a call takes is eligible. -/
theorem Call.Takes.eligible {r : Run} (h : call.Takes db now r) (hr : r ∈ db.runs) :
    ∃ t ∈ db.tasks, runOwnedByTask r t ∧ eligibleTask t now := by
  cases call with
  | claim call =>
    obtain ⟨⟨_, _, _, t, ht, hown, heligible⟩, _⟩ := claimGuard.candidate h hr
    exact ⟨t, ht, hown, heligible.1⟩
  | activate receipt =>
    obtain ⟨t, ht, hown, heligible, _⟩ := h.1.2.2.2.2.2.2.2.2
    exact ⟨t, ht, hown, heligible⟩
  | deferLaunch receipt delayMs =>
    obtain ⟨t, ht, hown, heligible, _⟩ := h.1.2.2.2.2.2.2.2.2
    exact ⟨t, ht, hown, heligible⟩
  | reschedule => exact h.2.1
  | suspendRun => exact h.2.1
  | awaitEvent call =>
    obtain ⟨hg, hholds, _⟩ := h
    obtain ⟨r₀, hr₀, hholds₀, _, t, ht, hown, heligible⟩ := hg.2.1
    rw [db.run_unique hr₀ hr (hholds₀.1.trans hholds.1.symm)] at hown
    exact ⟨t, ht, hown, heligible⟩
  | spawn | heartbeat | recordTaskDone | emitEvent | setCheckpoint | complete | failInto
  | sweepLostLaunch | sweepClaimTimeout | cancelTransition | retryTask | expireLeaseNow =>
    exact h.elim

/-! ## The whole -/

/-- The deadline of a live task, by the call that spawned it and the delivery that first started
it. -/
def DeadlineOf (history : List Delivery) (t : Task) : Prop :=
  ∃ e ∈ history, ∃ call, e.Spawns call ∧ call.taskId = t.taskId ∧
    t.cancelAtMs = match t.firstStartedAtMs with
      | none => call.maxDelayMs.map (e.now + call.delayMs + ·)
      | some started => (call.cancellation.bind CancellationPolicy.maxDurationMs).map (started + ·)

/-- A live task's deadline is the one its spawn's policy gives it. -/
theorem SpawnedAs.deadlineOf {history : List Delivery} {e : Delivery} {call : SpawnCall}
    (h : SpawnedAs e call t) (he : e ∈ history) (hdated : t.Dated) (hl : t.state.Live) :
    DeadlineOf history t := by
  obtain ⟨hspawns, hid, hpolicy, henqueue⟩ := h
  refine ⟨e, he, call, hspawns, hid, (hdated.live hl).trans ?_⟩
  unfold Task.deadline Task.maxDelayMs taskMaxDurationMs SpawnCall.maxDelayMs
  rw [hpolicy, henqueue]

/-- What a batch keeps of a task's start and deadline. -/
structure KeepsDeadline (call : Call) (t t' : Task) : Prop where
  first : ∀ started, t.firstStartedAtMs = some started → t'.firstStartedAtMs = some started
  starts : (∀ receipt, call ≠ .activate receipt) → t'.firstStartedAtMs = t.firstStartedAtMs
  cancelAt : ¬ call.Dates → t'.cancelAtMs = t.cancelAtMs

/-- A delivery keeps of a task's start and deadline what it may not move. -/
theorem Effect.keepsDeadline (h : Effect seed now db db' call) (ht : t ∈ db.tasks)
    (ht' : t' ∈ db'.tasks) (hid : t'.taskId = t.taskId) : KeepsDeadline call t t' := by
  obtain ⟨t'', ht'', hmoved⟩ := h.tasks.after t ht
  rw [Db.task_unique ht' ht'' (hid.trans hmoved.same.taskId.symm)]
  exact ⟨fun _ => hmoved.first_set, hmoved.first_kept, hmoved.cancelAt_kept⟩

/-- A call takes no run of a task at or past its deadline. -/
theorem Call.Takes.ahead {r : Run} (h : call.Takes db now r) (hr : r ∈ db.runs) (ht : t ∈ db.tasks)
    (hown : runOwnedByTask r t) : ∀ deadline ∈ t.cancelAtMs, now < deadline := by
  obtain ⟨u, hu, hownu, heligible⟩ := h.eligible hr
  rw [db.task_unique ht hu (hown.1.trans hownu.1.symm)]
  exact heligible.ahead

/-- In every run no generation of a run's claim is activated twice, and an activation that loses
changes no row; the deadline of a live task is the one its spawn and its first start give it, which
no batch moves but an activation and what ends the task for good; and no batch that a passed deadline
refuses takes a run of a task at or past it. -/
theorem reachable_deadlines (h : Reachable Repeats s) :
    (s.history.Pairwise fun e e' => ∀ runId claimGen, e.Activates runId claimGen →
      ¬ e'.Activates runId claimGen) ∧
    (∀ (seed : String) (receipt : ClaimReceipt) (now : ℤ),
      (activate seed receipt now s.db).won = none → (activate seed receipt now s.db).db = s.db) ∧
    (∀ t ∈ s.db.tasks, FirstStart s.history t ∧ (t.state.Live → DeadlineOf s.history t)) ∧
    ∀ (b : Batch) (now : ℤ), Step Repeats s (s.deliver b now) →
      (∀ t ∈ s.db.tasks, ∀ t' ∈ (b.after now s.db).tasks, t'.taskId = t.taskId →
        KeepsDeadline b.call t t') ∧
      (∀ out, b.run now s.db = some out → b.call.Deadlined → out.won ≠ none →
        ∃ r ∈ s.db.runs, b.call.Takes s.db now r) ∧
      ∀ r ∈ s.db.runs, b.call.Takes s.db now r → ∀ t ∈ s.db.tasks, runOwnedByTask r t →
        ∀ deadline ∈ t.cancelAtMs, now < deadline := by
  have hagain : ∀ b db, Repeats b db → b.call.Repeatable := fun _ _ hrepeats => hrepeats
  refine ⟨h.activates_once hagain, fun seed receipt now hlost => ?_, fun t ht => ?_,
    fun b now hstep => ?_⟩
  · obtain ⟨r, t, hact⟩ | ⟨_, heq⟩ := activate_cases seed now (h.dated hagain)
      (h.started hagain) receipt
    · cases hlost.symm.trans (wonBy_eq_some.mpr ⟨⟨r, hact.run, hact.guard⟩, rfl⟩)
    · exact heq
  · obtain ⟨e, he, call, hspawned⟩ := h.spawnedAs hagain t ht
    exact ⟨h.firstStart hagain t ht, hspawned.deadlineOf he (h.dated hagain t ht)⟩
  · have hd := (h.course hagain).delivers_of_step hagain hstep
    exact ⟨fun t ht t' ht' hid => hd.effect.keepsDeadline ht ht' hid,
      fun out hrun hcall hwon => Batch.takes hcall hrun hwon,
      fun r hr htakes t ht hown => htakes.ahead hr ht hown⟩

/-- The running task has the instant of its activation for its first start, and a second activation
of its generation changes nothing. -/
theorem reachable_deadlines_runningOne :
    runningOne.db.tasks.rows.map Task.firstStartedAtMs = [some 2] ∧
      (∀ t ∈ runningOne.db.tasks, FirstStart runningOne.history t) ∧
      (activate "b4" ⟨"q", "r1", "w1", 1⟩ 3 runningOne.db).db = runningOne.db :=
  ⟨by decide, fun t ht => ((reachable_deadlines (runningOne_reachable _)).2.2.1 t ht).1,
    (reachable_deadlines (runningOne_reachable _)).2.1 _ _ _ (by decide)⟩

end Durablerun
