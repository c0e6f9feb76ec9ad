import Durablerun.Store.Deadlines

/-!
# The last run of a task

The run a live task names as its last is its live run, or the task names none: it was spawned and
never claimed. So a run that failed under a task that lives on is not the task's last, and a task
that ended keeps the name of the run it ended with.

Reference: `packages/store-libsql/src/store.ts`.
-/

namespace Durablerun

open Relational

variable {again : Batch → Db → Prop} {s : Sys} {b : Batch} {seed : String} {now : ℤ} {db db' : Db}
  {call : Call} {t t' : Task}

/-- The live run of the task is the one it names as its last, or waits for its first claim. -/
def LastRun (db : Db) : Prop :=
  ∀ t ∈ db.tasks, ∀ r ∈ db.runs, r.taskId = t.taskId → r.state.Live →
    t.lastAttemptRun = some r.runId ∨ (t.lastAttemptRun = none ∧ r.state ≠ .running)

/-- What a live task that a batch moved names as its last run: what it did, the run a claim took, or
the run that a batch placed after a running one, or after the last run of a failed task. -/
inductive Renamed (db : Db) (call : Call) (t : Task) : Task → Prop
  | same {u : Task} (live : t.state.Live) (last : u.lastAttemptRun = t.lastAttemptRun)
    (counted : u.attempts + u.infraRetries = t.attempts + t.infraRetries)
    (running : u.state = .running → t.state = .running) : Renamed db call t u
  | claimed {u : Task} {r : Run} (next : call.nextRunId = none) (run : r ∈ db.runs)
    (owned : runOwnedByTask r u) (live : r.state.Live) (last : u.lastAttemptRun = some r.runId) :
    Renamed db call t u
  | followed {u : Task} {r : Run} (run : r ∈ db.runs) (owned : runOwnedByTask r u)
    (running : r.state = .running) (last : u.lastAttemptRun = call.nextRunId)
    (next : call.nextRunId ≠ none) (counted : u.attempts + u.infraRetries = r.attempt)
    (queued : u.state.Queued) : Renamed db call t u
  | revived {u : Task} (ended : ¬ t.state.Live) (last : u.lastAttemptRun = call.nextRunId)
    (next : call.nextRunId ≠ none) (queued : u.state.Queued) : Renamed db call t u

/-- The task a chain of moves leaves is as they renamed it, when it is live. -/
theorem Task.Moved.renamed (hm : Task.Moved seed now db call t t')
    (hl : t'.state.Live) : Renamed db call t t' := by
  induction hm with
  | refl => exact .same hl rfl rfl id
  | @tail u _ hmoved hturn ih =>
    obtain ⟨v, _, _, hmove, rfl⟩ := hturn
    have hmoved : Task.Moved seed now db call t u := hmoved
    cases hmove with
    | booked hlive hr hown htaken =>
      refine .claimed rfl hr hown ?_ rfl
      obtain hg | ⟨htaken, _⟩ := htaken
      · exact (hg.candidate hr).2.live
      · simp [htaken.2.1]
    | started hlive =>
      cases ih hlive with
      | same hl₀ hlast hcount hrun => exact .same hl₀ hlast hcount hrun
      | claimed hnext hr hown hlr hlast => exact .claimed hnext hr hown hlr hlast
      | followed hr hown hrun hlast hnext hcount hq => exact absurd rfl hnext
      | revived hfailed hlast hnext hst => exact absurd rfl hnext
    | followed hlive hq =>
      cases ih hlive with
      | same hl₀ hlast hcount hrun => exact .same hl₀ hlast hcount fun hs => absurd hs hq.ne_running
      | claimed hnext hr hown hlr hlast => exact .claimed hnext hr hown hlr hlast
      | followed hr hown hrun hlast hnext hcount _ =>
        exact .followed hr hown hrun hlast hnext hcount hq
      | revived hended hlast hnext _ => exact .revived hended hlast hnext hq
    | completed => exact absurd hl id
    | rollingBack hlive hr hown hrun _ hq hnext =>
      refine .followed hr hown hrun hnext.symm (by simp [hnext]) ?_ hq
      exact sub_add_cancel _ _
    | retrying hlive hr hown hg hq =>
      refine .followed hr hown hg.1.running rfl (Option.some_ne_none _) ?_ hq
      exact sub_add_cancel _ _
    | failed => exact absurd hl id
    | infraRetried hlive hr hown hrun =>
      refine .followed hr hown hrun rfl (Option.some_ne_none _) ?_ trivial
      exact add_sub_cancel _ _
    | cancelled => exact absurd hl id
    | @revived call _ hg =>
      refine .revived (fun hl₀ => ?_) rfl (Option.some_ne_none _) trivial
      have hended : ¬ u.state.Live := by simp [hg.2.2.failed]
      obtain ⟨_, _, _, hmove, hv⟩ := hmoved.last hl₀ hended
      exact hmove.ends hv

/-- A batch moves only live runs. -/
theorem Run.Move.live {r r' : Run} (hr : r ∈ db.runs) (h : Run.Move seed now db db' call r r') :
    r.state.Live := by
  cases h with
  | claimed hg => exact (hg.candidate hr).2.live
  | activated hg | deferred hg => simp [hg.1.1.running]
  | extended hg | rescheduled hg | suspended hg | leased hg | completed hg | failed hg
  | expired hg => simp [hg.1.running]
  | reopened hg | capped hg | timedOut hg => simp [hg.1.2.2.1]
  | awaited _ hnarrow => simp [hnarrow.1.running]
  | cancelled _ _ _ hl => exact hl
  | woken _ hp => simp [hp.state]

/-- The run that was a task's live run before is the one it names. -/
theorem Renamed.last_kept {r r' : Run} (h : Inv db) (h' : Inv db') (hlast : LastRun db)
    (ht : t ∈ db.tasks) (ht' : t' ∈ db'.tasks) (hsame : t.Same t') (hrenamed : Renamed db call t t')
    (hr : r ∈ db.runs) (hl : r.state.Live) (hr' : r' ∈ db'.runs) (hsameRun : r.Same r')
    (hl' : r'.state.Live) (hid : r'.taskId = t'.taskId) :
    t'.lastAttemptRun = some r'.runId ∨ (t'.lastAttemptRun = none ∧ r'.state ≠ .running) := by
  have hid₀ : r.taskId = t.taskId := hsameRun.taskId.symm.trans (hid.trans hsame.taskId)
  have hsole : ∀ r₀ ∈ db.runs, runOwnedByTask r₀ t' → r₀.state.Live → r₀ = r := fun r₀ hr₀ hown hl₀ =>
    h.toUnits.sole hr hr₀ (hown.1.symm.trans (hsame.taskId.trans hid₀.symm)) hl hl₀
  cases hrenamed with
  | same _ hlast' _ hrunning =>
    rw [hlast', hsameRun.runId]
    refine (hlast t ht r hr hid₀ hl).imp id fun ⟨hnone, hst⟩ => ⟨hnone, fun hst' => hst ?_⟩
    rw [← h.state_eq hr ht hid₀ hl]
    exact hrunning ((h'.state_eq hr' ht' hid hl').trans hst')
  | claimed _ hr₀ hown hl₀ hlast' =>
    rw [hlast', hsole _ hr₀ hown hl₀, hsameRun.runId]
    exact Or.inl rfl
  | followed hr₀ hown hrunning _ _ hcounted =>
    have hr₀ := hsole _ hr₀ hown (by simp [hrunning])
    have hat := ((h'.settled t' ht').current r' hr' hid hl').2
    rw [hsameRun.attempt, ← hr₀, hcounted] at hat
    omega
  | revived hended => exact absurd (h.toUnits.live hr ht hid₀ hl) hended

/-- The run a batch placed is the one its task names. -/
theorem Renamed.last_new {r' : Run} (h : Inv db) (h' : Inv db') (ht : t ∈ db.tasks)
    (ht' : t' ∈ db'.tasks) (hsame : t.Same t') (hrenamed : Renamed db call t t')
    (hr' : r' ∈ db'.runs) (hl' : r'.state.Live) (hid : r'.taskId = t'.taskId)
    (hborn : Run.Born seed now db call r') : t'.lastAttemptRun = some r'.runId := by
  cases hborn with
  | first hg => exact absurd ⟨t, ht, hsame.taskId.symm.trans hid.symm⟩ hg.1.1
  | @followed call r₀ _ _ _ _ hr₀ hrunning _ _ _ hnext =>
    have hid₀ : r₀.taskId = t.taskId := hid.trans hsame.taskId
    have hl₀ : r₀.state.Live := by simp [hrunning]
    have hat := ((h'.settled t' ht').current _ hr' hid hl').2
    have hat₀ := ((h.settled t ht).current r₀ hr₀ hid₀ hl₀).2
    simp only [successorRun] at hat ⊢
    cases hrenamed with
    | same _ _ hcounted => omega
    | claimed hnone => cases hnone.symm.trans hnext
    | followed _ _ _ hlast => exact hlast.trans hnext
    | revived hended => exact absurd (h.toUnits.live hr₀ ht hid₀ hl₀) hended
  | @revived call u _ hu hg =>
    have hut : u = t := db.task_unique hu ht (hid.trans hsame.taskId)
    have hfailed : t.state = .failed := hut ▸ hg.2.2.failed
    cases hrenamed with
    | same hl => simp [hfailed] at hl
    | claimed hnone => cases hnone
    | followed hr₀ hown hrunning =>
      have hlive := h.toUnits.live hr₀ ht (hown.1.symm.trans hsame.taskId) (by simp [hrunning])
      simp [hfailed] at hlive
    | revived _ hlast => exact hlast

/-- A batch keeps every task's last run the last one. -/
theorem LastRun.effect (h : Inv db) (h' : Inv db') (hlast : LastRun db)
    (he : Effect seed now db db' call) : LastRun db' := by
  intro t' ht' r' hr' hid hl'
  have hlt' : t'.state.Live := h'.toUnits.live hr' ht' hid hl'
  obtain ⟨t, ht, hmoved⟩ | hborn := he.tasks.before t' ht'
  · have hrenamed := hmoved.renamed hlt'
    obtain ⟨r, hr, hmv⟩ | hbornRun := he.runs.before r' hr'
    · have hl : r.state.Live ∧ r.Same r' := by
        obtain rfl | hm := hmv
        · exact ⟨hl', .refl r'⟩
        · exact ⟨hm.live hr, hm.same⟩
      exact hrenamed.last_kept h h' hlast ht ht' hmoved.same hr hl.1 hr' hl.2 hl' hid
    · exact Or.inl (hrenamed.last_new h h' ht ht' hmoved.same hr' hl' hid hbornRun)
  · cases hborn with
    | spawned hg =>
      refine Or.inr ⟨rfl, fun hrunning => ?_⟩
      have hst := h'.state_eq hr' ht' hid hl'
      rw [hrunning] at hst
      cases hst

/-- Every task a run of the store reaches has the last of its runs for its last run. -/
theorem Reachable.lastRun (h : Reachable again s)
    (hagain : ∀ b db, again b db → b.call.Repeatable) : LastRun s.db :=
  h.induct (P := fun s => LastRun s.db) hagain (fun t ht => absurd ht (Table.not_mem_empty t))
    fun _ _ _ hd hlast => hlast.effect hd.course.inv hd.inv hd.effect

/-! ## The last run of a task that ended -/

/-- A task that is spawned names no run. -/
theorem Task.Born.last (h : Task.Born seed now db call t) : t.lastAttemptRun = none := by
  cases h with
  | spawned => rfl

/-- A task is spawned live. -/
theorem Task.Born.live (h : Task.Born seed now db call t) : t.state.Live := by
  cases h with
  | spawned => trivial

/-- A batch that places no run and claims none leaves a task's last run as it is. -/
theorem Task.Moved.last_kept (hm : Task.Moved seed now db call t t') (hnext : call.nextRunId = none)
    (hclaim : ∀ c, call ≠ .claim c) : t'.lastAttemptRun = t.lastAttemptRun := by
  induction hm with
  | refl => rfl
  | tail _ hturn ih =>
    obtain ⟨v, _, _, hmove, rfl⟩ := hturn
    refine Eq.trans ?_ ih
    cases hmove with
    | booked => exact absurd rfl (hclaim _)
    | rollingBack _ _ _ _ _ _ hplaced => cases hnext.symm.trans hplaced
    | retrying | infraRetried | revived => cases hnext
    | started | followed | completed | failed | cancelled => rfl

/-- A task ends with the run it names as its last. -/
theorem Task.Moved.ended_last (ht : t ∈ db.tasks) (hm : Task.Moved seed now db call t t')
    (hl : t.state.Live) (hended : ¬ t'.state.Live) : t'.lastAttemptRun = t.lastAttemptRun := by
  cases hm with
  | refl => rfl
  | @tail u _ hmoved hturn =>
    obtain ⟨v, _, _, hmove, rfl⟩ := hturn
    have hmoved : Task.Moved seed now db call t u := hmoved
    cases hmove with
    | booked | infraRetried | revived => exact absurd trivial hended
    | started hl => exact absurd hl hended
    | followed _ hq | rollingBack _ _ _ _ _ hq | retrying _ _ _ _ hq => exact absurd hq.live hended
    | completed | cancelled => exact hmoved.last_kept rfl (by simp)
    | @failed _ _ t₀ _ _ _ _ _ _ _ _ ht₀ hid hlast =>
      obtain rfl : t₀ = t := db.task_unique ht₀ ht (hid.trans hmoved.same.taskId)
      exact hlast

/-- A run that ended is not the last of a task that lives. -/
theorem LastRun.ne_ended (h : Inv db) (hlast : LastRun db) (ht : t ∈ db.tasks) (hl : t.state.Live)
    {r : Run} (hr : r ∈ db.runs) (hended : ¬ r.state.Live) : t.lastAttemptRun ≠ some r.runId := by
  obtain ⟨p, hp, hid, hlp⟩ := (h.settled t ht).hasLive hl
  intro hnames
  obtain hsome | ⟨hnone, _⟩ := hlast t ht p hp hid hlp
  · obtain rfl := db.run_unique hp hr (Option.some.inj (hsome.symm.trans hnames))
    exact hended hlp
  · cases hnone.symm.trans hnames

end Durablerun
