import Durablerun.Store.Counters
import Durablerun.Store.Lifecycle
import Durablerun.Store.Receipts
import Mathlib.Data.Int.Interval

/-!
# The store follows the lifecycle

`lifeOf` reads a task's life off the tables. Whatever batch is delivered, the life of every task
stays as it is or takes one action of the batch's call, under the guard the lifecycle gives it
(`Delivers.life`). So every history gives each task a life (`reachable_lives`), and what holds of
all lives holds of the store.

Reference: `packages/store-libsql/src/store.ts`.
-/

namespace Durablerun

open Relational

variable {s : Sys} {b : Batch} {taskId : String} {now : ℤ} {db : Db} {t t' : Task} {r r' p : Run}

/-! ## The life of a task -/

/-- The counters of a task, and whether its saga began. -/
def Task.counters (db : Db) (t : Task) : Lifecycle.Counters :=
  ⟨t.attempts, t.infraRetries, t.maxAttempts, decide (sagaBegan db t.taskId)⟩

/-- A run, as the lifecycle has it. -/
def Run.current (r : Run) : Lifecycle.Current :=
  ⟨r.attempt, r.state, r.claimGen, r.activatedGen, r.relaunchCount⟩

/-- The life of the task of this id. -/
def lifeOf (db : Db) (taskId : String) : Lifecycle.State :=
  match db.tasks.rows.find? fun t => t.taskId = taskId with
  | none => .unspawned
  | some t =>
    match db.runs.rows.find? fun r => r.taskId = taskId ∧ r.state.Live with
    | some r => .live (t.counters db) r.current
    | none => .ended (t.counters db) t.state ((topOrdinal db t).getD 0)

/-- What a call may do to a task. A wake comes with any batch that records an event. -/
def Call.Acts : Call → Lifecycle.Action → Prop
  | .spawn call, .spawn maxAttempts => maxAttempts = call.maxAttempts
  | .claim _, .claim | .activate _, .activate => True
  | .deferLaunch _ _, .park | .reschedule _ _, .park | .suspendRun _ _ _, .park => True
  | .awaitEvent _, .park => True
  | .failInto _, .failRunWithRetry | .failInto _, .rollbackPass => True
  | .failInto _, .failRunTerminal => True
  | .sweepLostLaunch _, .sweepLostLaunch | .sweepLostLaunch _, .rollbackPass => True
  | .sweepLostLaunch _, .sweepExhausted => True
  | .sweepClaimTimeout _, .sweepClaimTimeout | .sweepClaimTimeout _, .rollbackPass => True
  | .sweepClaimTimeout _, .sweepExhausted => True
  | .complete _ _ _, .complete | .cancelTransition _, .cancel | .retryTask _, .retryTask => True
  | _, .wake => True
  | _, _ => False

/-- A task that is not there is unspawned. -/
theorem lifeOf_unspawned (hno : ∀ t ∈ db.tasks, t.taskId ≠ taskId) :
    lifeOf db taskId = .unspawned := by
  have hfind : db.tasks.rows.find? (fun t => t.taskId = taskId) = none :=
    List.find?_eq_none.mpr fun t ht => by simpa using hno t ht
  simp only [lifeOf, hfind]

/-- A task is the one found under its id. -/
theorem find_task (ht : t ∈ db.tasks) :
    db.tasks.rows.find? (fun u => u.taskId = t.taskId) = some t := by
  refine Table.find?_eq_some_of_unique ht (by simp) fun u hu hp => ?_
  exact db.task_unique hu ht (by simpa using hp)

/-- A task with a live run lives by that run. -/
theorem lifeOf_live (h : Units db) (ht : t ∈ db.tasks) (hr : r ∈ db.runs) (hid : r.taskId = t.taskId)
    (hl : r.state.Live) : lifeOf db t.taskId = .live (t.counters db) r.current := by
  have hfind : db.runs.rows.find? (fun q => q.taskId = t.taskId ∧ q.state.Live) = some r := by
    refine Table.find?_eq_some_of_unique hr (by simp [hid, hl]) fun q hq hp => ?_
    simp only [decide_eq_true_eq] at hp
    exact h.sole hr hq (hp.1.trans hid.symm) hl hp.2
  simp only [lifeOf, find_task ht, hfind]

/-- A task that ended lives no more. -/
theorem lifeOf_ended (h : Core db) (ht : t ∈ db.tasks) (hl : ¬ t.state.Live) {top : ℤ}
    (hord : Ordinals db t.taskId top) : lifeOf db t.taskId = .ended (t.counters db) t.state top := by
  have hfind : db.runs.rows.find? (fun q => q.taskId = t.taskId ∧ q.state.Live) = none := by
    refine List.find?_eq_none.mpr fun q hq hp => ?_
    simp only [decide_eq_true_eq] at hp
    exact h.not_live hq ht hp.1 hl hp.2
  simp only [lifeOf, find_task ht, hfind, topOrdinal_eq h.toOwned ht hord, Option.getD_some]

/-! ## Before and after -/

/-- A task's runs are new ones, or there before. -/
theorem Delivers.run_before (h : Delivers s b now) (hp : p ∈ (b.after now s.db).runs) :
    (∃ q ∈ s.db.runs, q.Same p ∧ (p = q ∨ Run.Move b.seed now s.db (b.after now s.db) b.call q p)) ∨
      Run.Born b.seed now s.db b.call p := by
  obtain ⟨q, hq, rfl | hm⟩ | hborn := h.effect.runs.before p hp
  · exact Or.inl ⟨p, hq, .refl p, Or.inl rfl⟩
  · exact Or.inl ⟨q, hq, hm.same, Or.inr hm⟩
  · exact Or.inr hborn

/-- The task that a delivery leaves ended has the runs it had. -/
theorem Delivers.ordinals_kept (h : Delivers s b now) (ht' : t' ∈ (b.after now s.db).tasks)
    (hended : ¬ t'.state.Live) {top : ℤ} (hord : Ordinals s.db t'.taskId top) :
    Ordinals (b.after now s.db) t'.taskId top := by
  refine ⟨hord.1, fun k => Iff.trans ⟨?_, ?_⟩ (hord.2 k)⟩
  · rintro ⟨q, hq, hid, rfl⟩
    obtain ⟨q₀, hq₀, hsame, _⟩ | hborn := h.run_before hq
    · exact ⟨q₀, hq₀, hsame.taskId.symm.trans hid, hsame.attempt.symm⟩
    · exact absurd hborn.queued.live (h.inv.toCore.not_live hq ht' hid hended)
  · rintro ⟨q, hq, hid, rfl⟩
    obtain ⟨q', hq', hsame⟩ := h.effect.same_run hq
    exact ⟨q', hq', hsame.taskId.trans hid, hsame.attempt⟩

/-- A task that was not there is not there, or the batch spawned it. -/
theorem Delivers.life_unspawned (h : Delivers s b now) (hno : ∀ t ∈ s.db.tasks, t.taskId ≠ taskId) :
    lifeOf (b.after now s.db) taskId = .unspawned ∨ ∃ a, b.call.Acts a ∧
      Lifecycle.Step a .unspawned (lifeOf (b.after now s.db) taskId) := by
  by_cases hex : ∃ t' ∈ (b.after now s.db).tasks, t'.taskId = taskId
  · obtain ⟨t', ht', rfl⟩ := hex
    have hnoRun : ∀ q ∈ s.db.runs, q.taskId ≠ t'.taskId := by
      intro q hq hid
      obtain ⟨t, ht, hown⟩ := h.course.inv.owner q hq
      exact hno t ht (hown.1.trans hid)
    obtain ⟨t, ht, hm⟩ | hborn := h.effect.tasks.before t' ht'
    · exact absurd hm.same.taskId.symm (hno t ht)
    obtain ⟨r', hr', hid', hl'⟩ := (h.inv.settled t' ht').hasLive hborn.live
    have hlife := lifeOf_live h.inv.toUnits ht' hr' hid' hl'
    have hbirth : Run.Born b.seed now s.db b.call r' := by
      obtain ⟨q, hq, hsame, _⟩ | hbirth := h.run_before hr'
      · exact absurd (hsame.taskId.symm.trans hid') (hnoRun q hq)
      · exact hbirth
    have hadm := h.admitted
    have hsaga : b.call.Places .rollbackPass ∨ ¬ sagaBegan (b.after now s.db) t'.taskId := by
      by_cases hplaces : b.call.Places .rollbackPass
      · exact Or.inl hplaces
      · refine Or.inr fun hbegan => ?_
        obtain ⟨c, hc, hcid, _⟩ := h.began_unplaced hplaces hbegan
        obtain ⟨t, ht, hid⟩ := h.course.inv.phased.owner c hc
        exact hno t ht (hid.trans hcid)
    generalize b.call = call at hborn hbirth hadm hsaga ⊢
    cases hborn with
    | @spawned call hg =>
      have hrun : r'.current = .placed 1 .pending := by
        cases hbirth with
        | first => rfl
        | followed _ _ hplaces => cases hplaces
      have hforward : ¬ sagaBegan (b.after now s.db) call.taskId := hsaga.resolve_left id
      refine Or.inr ⟨.spawn call.maxAttempts, rfl, ?_⟩
      rw [hlife, hrun]
      have hcounters : (call.task b.seed now).counters (b.after now s.db) =
          ⟨0, 0, call.maxAttempts, false⟩ := by
        simp [Task.counters, SpawnCall.task, hforward]
      rw [hcounters]
      exact .spawn hadm.maxAttempts.1
  · exact Or.inl (lifeOf_unspawned fun t' ht' hid => hex ⟨t', ht', hid⟩)

/-- A task that ended stays as it ended, or is revived. -/
theorem Delivers.life_ended (h : Delivers s b now) (ht : t ∈ s.db.tasks) (hended : ¬ t.state.Live) :
    lifeOf (b.after now s.db) t.taskId = lifeOf s.db t.taskId ∨ ∃ a, b.call.Acts a ∧
      Lifecycle.Step a (lifeOf s.db t.taskId) (lifeOf (b.after now s.db) t.taskId) := by
  obtain ⟨top, hord, _⟩ := (h.course.inv.settled t ht).band
  have hlife := lifeOf_ended h.course.inv.toCore ht hended hord
  obtain ⟨t', ht', hmoved⟩ := h.effect.tasks.after t ht
  obtain rfl | ⟨retry, hcall, hg⟩ := hmoved.of_ended hended
  · left
    rw [hlife, lifeOf_ended h.inv.toCore ht' hended (h.ordinals_kept ht' hended hord)]
    have hsaga : decide (sagaBegan (b.after now s.db) t'.taskId) =
        decide (sagaBegan s.db t'.taskId) :=
      decide_eq_decide.mpr (h.effect.sameCheckpoints h.course.inv ht hended).sagaBegan
    unfold Task.counters
    rw [hsaga]
  · obtain ⟨seed, call⟩ := b
    obtain rfl : call = .retryTask retry := hcall
    obtain hafter | ⟨out, hrun, hafter⟩ := Batch.after_cases ⟨seed, .retryTask retry⟩ now s.db
    · exact Or.inl (by rw [hafter])
    obtain ⟨_, _, hno⟩ | ⟨u, hu, hgu, runs, q, hq, hown, htop, hruns, hout, _⟩ :=
      retryTask_cases h.course.inv hrun
    · exact absurd hg (hno t ht)
    obtain rfl : u = t := s.db.task_unique hu ht (hgu.1.trans hg.1.symm)
    obtain rfl : q.attempt = top :=
      Option.some.inj (htop.symm.trans (topOrdinal_eq h.course.inv.toOwned ht hord))
    have hinv := h.inv
    rw [hafter, hout] at hinv ⊢
    have hmem : revivedTask s.db seed retry now u ∈ (reviveCas s.db seed retry now).tasks :=
      Table.mem_update_of_pos (f := ⟨revivedTask s.db seed retry now, fun _ => rfl⟩) ht hg
    have hrevived : lifeOf { reviveCas s.db seed retry now with runs } u.taskId = _ :=
      lifeOf_live (t := revivedTask s.db seed retry now u) hinv.toUnits hmem
        ((hruns _).mpr (Or.inr rfl)) rfl trivial
    have hforward : ¬ sagaBegan s.db u.taskId := hg.2.2.sagaNotBegun
    have hforward' : ¬ sagaBegan { reviveCas s.db seed retry now with runs } u.taskId := hforward
    have hcounters : (revivedTask s.db seed retry now u).counters
        { reviveCas s.db seed retry now with runs } =
        { u.counters s.db with
          attempts := q.attempt - (u.counters s.db).infraRetries
          maxAttempts := (u.counters s.db).maxAttempts + 1 } := by
      simp [Task.counters, revivedTask, retryCharged, htop, hforward, hforward']
    refine Or.inr ⟨.retryTask, trivial, ?_⟩
    rw [hlife, hrevived, hcounters, hg.2.2.failed]
    refine .retryTask (by simp [Task.counters, hforward]) ?_
    have hroom := hg.2.2.budgetTakesOneMore.2
    simp only [Task.counters, maxAttemptsBounds] at hroom ⊢
    omega

/-! ## A live task -/

/-- Any call may wake a task's run. -/
theorem Call.acts_wake (call : Call) : call.Acts .wake := by
  cases call <;> trivial

/-- What a batch makes of a run that stays live is an action of its call, or a renewed lease. -/
theorem Run.Move.action {seed : String} {db' : Db} {call : Call} (c : Lifecycle.Counters)
    (hr : r ∈ db.runs) (h : Run.Move seed now db db' call r r') (hl : r'.state.Live) :
    r'.current = r.current ∨ ∃ a, call.Acts a ∧
      Lifecycle.Step a (.live c r.current) (.live c r'.current) := by
  have hqueued : ∀ wakeAt : ℤ, (if wakeAt ≤ now then TaskState.pending else .sleeping).Queued := by
    intro wakeAt
    split <;> trivial
  cases h with
  | claimed hg => exact Or.inr ⟨.claim, trivial, .claim (hg.candidate hr).2⟩
  | @activated receipt _ hg =>
    obtain ⟨⟨hheld, hgen, hlt, _⟩, _⟩ := hg
    have hcurrent : (activateAssignments seed receipt now r).current =
        { r.current with activatedGen := r.current.claimGen } := by
      simp [Run.current, activateAssignments, hgen]
    refine Or.inr ⟨.activate, trivial, ?_⟩
    rw [hcurrent]
    exact .activate hheld.running (hlt.trans_eq hgen.symm)
  | extended | leased | expired => exact Or.inl rfl
  | deferred hg => exact Or.inr ⟨.park, trivial, .park hg.1.1.running (hqueued _)⟩
  | rescheduled hg | suspended hg => exact Or.inr ⟨.park, trivial, .park hg.1.running (hqueued _)⟩
  | awaited _ hnarrow => exact Or.inr ⟨.park, trivial, .park hnarrow.1.running trivial⟩
  | completed | failed | capped | timedOut | cancelled => exact absurd hl id
  | reopened hg =>
    obtain ⟨hswept, ⟨hlost, _⟩, hbelow, _⟩ := hg
    exact Or.inr ⟨.sweepLostLaunch, trivial, .sweepLostLaunch hswept.2.2.1 hlost hbelow⟩
  | woken _ hparked => exact Or.inr ⟨.wake, call.acts_wake, .wake hparked.state⟩

/-- The run a batch places after the one it failed is a retry or a pass. -/
theorem Call.Places.cases {call : Call} {name : Statement} (h : call.Places name) :
    (name = .successor ∧
      ((∃ failure, call = .failInto failure) ∨ ∃ swept, call = .sweepClaimTimeout swept)) ∨
    (name = .rollbackPass ∧ call.Acts .rollbackPass) := by
  cases call with
  | failInto failure =>
    cases name with
    | successor => exact Or.inl ⟨rfl, Or.inl ⟨failure, rfl⟩⟩
    | rollbackPass => exact Or.inr ⟨rfl, trivial⟩
    | _ => exact h.elim
  | sweepLostLaunch swept =>
    cases name with
    | rollbackPass => exact Or.inr ⟨rfl, trivial⟩
    | _ => exact h.elim
  | sweepClaimTimeout swept =>
    cases name with
    | successor => exact Or.inl ⟨rfl, Or.inr ⟨swept, rfl⟩⟩
    | rollbackPass => exact Or.inr ⟨rfl, trivial⟩
    | _ => exact h.elim
  | _ => exact h.elim

/-- A pass that stands as it was placed rolls its task back. -/
theorem Batch.Left.sagaBegan (h : b.Left db) (hplaces : b.call.Places .rollbackPass)
    (hnext : b.call.nextRunId = some p.runId) (hp : p ∈ db.runs)
    (hs : p.fenceStamp = some ⟨b.seed, .rollbackPass⟩) : sagaBegan db p.taskId := by
  obtain ⟨seed, call⟩ := b
  cases call with
  | failInto =>
    have hplaced : Placed db _ _ _ .fail := h.placed
    exact (hplaced p hp (Option.some.inj hnext).symm _ (Or.inr rfl) hs).2 rfl
  | sweepLostLaunch =>
    have hplaced : Placed db _ _ _ .cap := h
    exact (hplaced p hp (Option.some.inj hnext).symm _ (Or.inr rfl) hs).2 rfl
  | sweepClaimTimeout =>
    have hplaced : Placed db _ _ _ .fail := h.placed
    exact (hplaced p hp (Option.some.inj hnext).symm _ (Or.inr rfl) hs).2 rfl
  | _ => exact hplaces.elim

/-- The last move of a batch that fails a run leaves an ended task failed. -/
theorem Task.Moved.failed {seed reason : String} {call : Call} (hm : Task.Moved seed now db call t t')
    (hl : t.state.Live) (hl' : ¬ t'.state.Live) (hreason : call.failureReason = some reason) :
    t'.state = .failed := by
  cases hm with
  | refl => exact absurd hl hl'
  | tail hmoved hturn =>
    obtain ⟨v, _, _, hmove, rfl⟩ := hturn
    cases hmove with
    | failed => rfl
    | booked | infraRetried | revived => exact absurd trivial hl'
    | started hl => exact absurd hl hl'
    | followed _ hq | rollingBack _ _ _ _ _ hq | retrying _ _ _ _ hq => exact absurd hq.live hl'
    | completed | cancelled => cases hreason

/-- The run is the one the action places, by the statement that stamped it. -/
def Run.PlacedBy (seed : String) (p : Run) : Lifecycle.Action → Prop
  | .failRunWithRetry | .sweepClaimTimeout => p.fenceStamp = some ⟨seed, .successor⟩
  | .rollbackPass => p.fenceStamp = some ⟨seed, .rollbackPass⟩
  | _ => False

section Live

variable (h : Delivers s b now) (ht : t ∈ s.db.tasks) (ht' : t' ∈ (b.after now s.db).tasks)
  (hid : t'.taskId = t.taskId) (hr : r ∈ s.db.runs) (hrid : r.taskId = t.taskId)
  (hl : r.state.Live)

include h ht ht' hid hr hrid hl

/-- The task's live run is still its live run: no counter moved. -/
theorem Delivers.counters_same (hr' : r' ∈ (b.after now s.db).runs) (hsame : r.Same r')
    (hl' : r'.state.Live) : t'.counters (b.after now s.db) = t.counters s.db := by
  have hid' : r'.taskId = t'.taskId := hsame.taskId.trans (hrid.trans hid.symm)
  have hno : ∀ p ∈ (b.after now s.db).runs, p.taskId = t.taskId →
      ∃ q ∈ s.db.runs, q.runId = p.runId := by
    intro p hp hpid
    obtain ⟨q, hq, hsameq, _⟩ | hborn := h.run_before hp
    · exact ⟨q, hq, hsameq.runId.symm⟩
    · have hpr : p = r' := h.inv.toUnits.sole hr' hp (hpid.trans (hid.symm.trans hid'.symm)) hl'
        hborn.queued.live
      exact ⟨r, hr, by rw [hpr, hsame.runId]⟩
  have htl : t.state.Live := h.course.inv.toUnits.live hr ht hrid hl
  obtain ⟨hinfra, hmax, hsaga, _⟩ := h.kept_unless_placed ht ht' hid htl hno
  have hat := ((h.course.inv.settled t ht).current r hr hrid hl).2
  have hat' := ((h.inv.settled t' ht').current r' hr' hid' hl').2
  have hattempts : t'.attempts = t.attempts := by
    have := hsame.attempt
    omega
  simp only [Task.counters, hattempts, hinfra, hmax, hid, hsaga]

/-- A new run of the task follows its live one, and a counter moved for it. -/
theorem Delivers.life_followed (hp : p ∈ (b.after now s.db).runs) (hpid : p.taskId = t.taskId)
    (hnew : ∀ q ∈ s.db.runs, q.runId ≠ p.runId) (hpl : p.state.Live) :
    ∃ a, p.PlacedBy b.seed a ∧ b.call.Acts a ∧
      Lifecycle.Step a (.live (t.counters s.db) r.current)
        (.live (t'.counters (b.after now s.db)) p.current) := by
  have hid' : p.taskId = t'.taskId := hpid.trans hid.symm
  have htl : t.state.Live := h.course.inv.toUnits.live hr ht hrid hl
  have htl' : t'.state.Live := h.inv.toUnits.live hp ht' hid' hpl
  have hcounted := (h.inv.settled t' ht').counted
  have hat := ((h.course.inv.settled t ht).current r hr hrid hl).2
  have hat' := ((h.inv.settled t' ht').current p hp hid' hpl).2
  obtain ⟨hrunning, r₁, _, hdead, hmove, name, state, delayMs, hplaces, hqueued, hnext, hpeq⟩ :=
    h.follows hp hnew hr hl (hpid.trans hrid.symm)
  have hstamp : p.fenceStamp = some ⟨b.seed, name⟩ := by rw [hpeq]; rfl
  have hpat : p.attempt = r.attempt + 1 := by rw [hpeq]; rfl
  have hcurrent : p.current = .placed (r.current.ordinal + 1) state := by rw [hpeq]; rfl
  -- The run under the minted id is `p`, so no other statement's run is there under it.
  have hother : ∀ passId n, b.call.nextRunId = some passId → n ≠ name →
      ¬ PlacedNew s.db (b.after now s.db) b.seed passId t.taskId n := by
    rintro passId n hpass hne ⟨_, q, hq, hqid, _, hqs⟩
    have hqp : q.runId = p.runId := hqid.trans (Option.some.inj (hpass.symm.trans hnext))
    rw [(b.after now s.db).run_unique hq hp hqp, hstamp] at hqs
    simp only [Option.some.injEq, Stamp.mk.injEq, true_and] at hqs
    exact hne hqs.symm
  obtain ⟨hcharged, hretried⟩ := h.kept_unless_charged ht ht' hid htl
  have hleft := (h.next.delivered (s.delivery b now) List.mem_cons_self).2
  rw [hcurrent]
  -- A successor moves one of the two budgets; a rollback pass moves the attempts and the limit.
  obtain ⟨rfl, hcall⟩ | ⟨rfl, hacts⟩ := hplaces.cases
  · have hunpassed : ¬ PassLeft s.db (b.after now s.db) b t.taskId := by
      rintro ⟨q, hq, _, hqnext, _, hqs⟩
      have hqp : q.runId = p.runId := Option.some.inj (hqnext.symm.trans hnext)
      exact hqs ((b.after now s.db).run_unique hq hp hqp ▸ hstamp)
    obtain ⟨hmax, hsaga⟩ := h.kept_unless_passed ht ht' hid htl hunpassed
    obtain ⟨seed, call⟩ := b
    obtain ⟨failure, rfl⟩ | ⟨swept, rfl⟩ := hcall
    · have hinfra : t'.infraRetries = t.infraRetries := hretried.resolve_right id
      have hattempts : t'.attempts = t.attempts + 1 := by omega
      have hbudget := hcounted.budget htl'
      rw [hattempts, hmax] at hbudget
      refine ⟨.failRunWithRetry, hstamp, trivial, ?_⟩
      have hcounters : t'.counters (Batch.after ⟨seed, .failInto failure⟩ now s.db) =
          { t.counters s.db with attempts := (t.counters s.db).attempts + 1 } := by
        simp only [Task.counters, hattempts, hinfra, hmax, hid, hsaga]
      rw [hcounters]
      exact .failRunWithRetry hrunning hbudget hqueued
    · have hattempts : t'.attempts = t.attempts :=
        hcharged.resolve_right fun hc => hother _ _ rfl (by simp) hc.2
      have hinfra : t'.infraRetries = t.infraRetries + 1 := by omega
      have hcap := hcounted.infraRetries.2
      have hpending : state = .pending := by
        have hplaced : p.state = .pending :=
          hleft.pending p hp (Option.some.inj hnext).symm hstamp
        rwa [hpeq] at hplaced
      -- Only a launch that was activated times out: an unlatched one is lost, and relaunched.
      have hlatched : r.activatedGen = r.claimGen := by
        cases hmove with
        | timedOut hg => exact hg.2.1.1
        | woken => exact absurd trivial hdead
      refine ⟨.sweepClaimTimeout, hstamp, trivial, ?_⟩
      have hcounters : t'.counters (Batch.after ⟨seed, .sweepClaimTimeout swept⟩ now s.db) =
          { t.counters s.db with infraRetries := (t.counters s.db).infraRetries + 1 } := by
        simp only [Task.counters, hattempts, hinfra, hmax, hid, hsaga]
      rw [hcounters, hpending]
      refine .sweepClaimTimeout hrunning hlatched ?_
      simp only [infraRetriesBounds, Task.counters] at hcap ⊢
      omega
  · have hinfra : t'.infraRetries = t.infraRetries := by
      refine hretried.resolve_right fun hretries => ?_
      unfold Batch.Retries at hretries
      split at hretries
      · rename_i swept hcall
        exact hother _ _ (by rw [hcall]; rfl) (by simp) hretries
      · exact hretries
    have hattempts : t'.attempts = t.attempts + 1 := by omega
    have hsaga : sagaBegan (b.after now s.db) t.taskId :=
      hpid ▸ hleft.sagaBegan hplaces hnext hp hstamp
    have hmax : t'.maxAttempts = t.attempts + 2 := by
      have := (h.inv.phased.tasks t' ht').spent htl' (hid ▸ hsaga)
      omega
    have hroom := hcounted.maxAttempts.2
    rw [hmax] at hroom
    refine ⟨.rollbackPass, hstamp, hacts, ?_⟩
    have hcounters : t'.counters (b.after now s.db) = ⟨(t.counters s.db).attempts + 1,
        (t.counters s.db).infraRetries, (t.counters s.db).attempts + 2, true⟩ := by
      simp only [Task.counters, hattempts, hinfra, hmax, hid, hsaga, decide_true]
    rw [hcounters]
    exact .rollbackPass hrunning hroom hqueued

/-- The task ended. -/
theorem Delivers.life_ending (hended : ¬ t'.state.Live) : ∃ a, b.call.Acts a ∧
    Lifecycle.Step a (.live (t.counters s.db) r.current)
      (.ended (t'.counters (b.after now s.db)) t'.state r.attempt) := by
  have htl : t.state.Live := h.course.inv.toUnits.live hr ht hrid hl
  -- No run was placed: a placed run is live, and the task has none.
  have hno : ∀ p ∈ (b.after now s.db).runs, p.taskId = t.taskId →
      ∃ q ∈ s.db.runs, q.runId = p.runId := by
    intro p hp hpid
    obtain ⟨q, hq, hsameq, _⟩ | hborn := h.run_before hp
    · exact ⟨q, hq, hsameq.runId.symm⟩
    · exact absurd hborn.queued.live (h.inv.toCore.not_live hp ht' (hpid.trans hid.symm) hended)
  obtain ⟨hinfra, hmax, hsaga, hcharged⟩ := h.kept_unless_placed ht ht' hid htl hno
  have hsame : (∀ failure, b.call ≠ .failInto failure) →
      t'.counters (b.after now s.db) = t.counters s.db := by
    intro hcall
    have hattempts := hcharged.resolve_right fun ⟨failure, hc⟩ => hcall failure hc
    simp only [Task.counters, hattempts, hinfra, hmax, hid, hsaga]
  have hmoved := h.moved ht ht' hid
  obtain ⟨r', hr', rfl | hmove⟩ := h.effect.runs.after r hr
  · exact absurd hl (h.inv.toCore.not_live hr' ht' (hrid.trans hid.symm) hended)
  have hrid' : r'.taskId = t'.taskId := hmove.same.taskId.trans (hrid.trans hid.symm)
  have hdead : ¬ r'.state.Live := h.inv.toCore.not_live hr' ht' hrid' hended
  have hmirror := h.inv.mirror r' hr' t' ht' hrid'
  have hforward := (h.inv.phased.tasks t' ht').completed
  have hnew : t' ∉ s.db.tasks := fun hmem => hended (s.db.task_unique hmem ht hid ▸ htl)
  obtain ⟨seed, call⟩ := b
  -- What the live run did names the action; a step that leaves it live ends no task.
  cases hmove with
  | claimed | awaited | reopened | woken => exact absurd trivial hdead
  | activated | extended | leased | expired => exact absurd hl hdead
  | deferred | rescheduled | suspended =>
    refine absurd ?_ hdead
    show (if _ ≤ now then TaskState.pending else .sleeping).Live
    split <;> trivial
  | completed hg =>
    have hst : t'.state = .completed := hmirror (by simp [completeAssignments])
    refine ⟨.complete, trivial, ?_⟩
    rw [hsame (by simp), hst]
    refine .complete hg.1.running ?_
    have hno := hforward hst
    rw [hid] at hno
    simpa [Task.counters] using fun hbegan => hno (hsaga.mpr hbegan)
  | cancelled =>
    have hst : t'.state = .cancelled := hmirror (by simp [cancelAssignments, Run.stampedAt])
    refine ⟨.cancel, trivial, ?_⟩
    rw [hsame (by simp), hst]
    exact .cancel
  | capped hg =>
    refine ⟨.sweepExhausted, trivial, ?_⟩
    rw [hsame (by simp), hmoved.failed htl hended rfl]
    exact .sweepExhausted hg.1.2.2.1 (Or.inl ⟨hg.2.1.1, hg.2.2.1.ge⟩)
  | @timedOut swept _ hg =>
    -- The terminal arm of this sweep takes a task at its cap alone.
    have hcap : t'.infraRetries = INFRA_RETRY_CAP := by
      obtain hafter | ⟨out, hrun, hafter⟩ := Batch.after_cases ⟨seed, .sweepClaimTimeout swept⟩ now s.db
      · exact absurd (hafter ▸ ht') hnew
      · have hfresh := (h.course.unused _ (h.own.resolve_right id)).runs
        exact (sweepClaimTimeout_ended hfresh hrun (hafter ▸ ht') hended).resolve_left hnew
    refine ⟨.sweepExhausted, trivial, ?_⟩
    rw [hsame (by simp), hmoved.failed htl hended rfl]
    exact .sweepExhausted hg.1.2.2.1 (Or.inr ⟨hg.2.1.1, hinfra.symm.trans hcap⟩)
  | @failed failure _ hg =>
    have hattempts : t'.attempts = t.attempts + 1 := by
      obtain hafter | ⟨out, hrun, hafter⟩ := Batch.after_cases ⟨seed, .failInto failure⟩ now s.db
      · exact absurd (hafter ▸ ht') hnew
      · have hfresh := (h.course.unused _ (h.own.resolve_right id)).runs
        obtain ⟨q, hq, hgq, hqid, hcharge⟩ :=
          (failInto_ended hfresh hrun (hafter ▸ ht') hended).resolve_left hnew
        have hqr : q = r := h.course.inv.toUnits.sole hr hq (hqid.trans (hid.trans hrid.symm)) hl
          (by simp [hgq.1.running])
        have hat := ((h.course.inv.settled t ht).current r hr hrid hl).2
        rw [hqr] at hcharge
        omega
    refine ⟨.failRunTerminal, trivial, ?_⟩
    have hcounters : t'.counters (Batch.after ⟨seed, .failInto failure⟩ now s.db) =
        { t.counters s.db with attempts := (t.counters s.db).attempts + 1 } := by
      simp only [Task.counters, hattempts, hinfra, hmax, hid, hsaga]
    rw [hcounters, hmoved.failed htl hended rfl]
    exact .failRunTerminal hg.1.running

end Live

/-! ## Every delivery -/

/-- A delivery leaves the life of a task as it is, or takes it one action of its call further. -/
theorem Delivers.life (h : Delivers s b now) (taskId : String) :
    lifeOf (b.after now s.db) taskId = lifeOf s.db taskId ∨ ∃ a, b.call.Acts a ∧
      Lifecycle.Step a (lifeOf s.db taskId) (lifeOf (b.after now s.db) taskId) := by
  by_cases hex : ∃ t ∈ s.db.tasks, t.taskId = taskId
  swap
  · have hno : ∀ t ∈ s.db.tasks, t.taskId ≠ taskId := fun t ht hid => hex ⟨t, ht, hid⟩
    rw [lifeOf_unspawned hno]
    exact h.life_unspawned hno
  obtain ⟨t, ht, rfl⟩ := hex
  by_cases htl : t.state.Live
  swap
  · exact h.life_ended ht htl
  obtain ⟨r, hr, hrid, hl⟩ := (h.course.inv.settled t ht).hasLive htl
  obtain ⟨t', ht', hmoved⟩ := h.effect.tasks.after t ht
  have hid : t'.taskId = t.taskId := hmoved.same.taskId
  rw [lifeOf_live h.course.inv.toUnits ht hr hrid hl]
  by_cases htl' : t'.state.Live
  swap
  · have hord : Ordinals s.db t'.taskId r.attempt :=
      hid.symm ▸ (h.course.inv.settled t ht).top hr hrid hl
    have hords := h.ordinals_kept ht' htl' hord
    right
    rw [← hid, lifeOf_ended h.inv.toCore ht' htl' hords]
    exact h.life_ending ht ht' hid hr hrid hl htl'
  obtain ⟨p, hp, hpid, hpl⟩ := (h.inv.settled t' ht').hasLive htl'
  rw [← hid, lifeOf_live h.inv.toUnits ht' hp hpid hpl]
  by_cases hnew : ∀ q ∈ s.db.runs, q.runId ≠ p.runId
  · obtain ⟨a, _, hacts, hstep⟩ :=
      h.life_followed ht ht' hid hr hrid hl hp (hpid.trans hid) hnew hpl
    exact Or.inr ⟨a, hacts, hstep⟩
  · push Not at hnew
    obtain ⟨q, hq, hqp⟩ := hnew
    obtain ⟨q', hq', hmovedq⟩ := h.effect.runs.after q hq
    obtain ⟨hsame, hql⟩ : q.Same q' ∧ (q'.state.Live → q.state.Live) := by
      obtain rfl | hm := hmovedq
      · exact ⟨.refl q', id⟩
      · exact ⟨hm.same, fun _ => hm.live hq⟩
    obtain rfl := (b.after now s.db).run_unique hq' hp (hsame.runId.trans hqp)
    obtain rfl : q = r := h.course.inv.toUnits.sole hr hq
      (hsame.taskId.symm.trans (hpid.trans (hid.trans hrid.symm))) hl (hql hpl)
    rw [h.counters_same ht ht' hid hr hrid hl hp hsame hpl]
    obtain rfl | hm := hmovedq
    · exact Or.inl rfl
    · exact (hm.action _ hr hpl).imp_left fun hcurrent => congrArg _ hcurrent

/-! ## Every run -/

/-- What a delivery did to the task: nothing, or an action of its call. -/
def Delivery.Moment (e : Delivery) (taskId : String) : Option Lifecycle.Action → Prop
  | none => lifeOf e.after taskId = lifeOf e.before taskId
  | some a => e.batch.call.Acts a ∧ Lifecycle.Step a (lifeOf e.before taskId) (lifeOf e.after taskId)

/-- The moments of a task, one for each delivery of the history, give it the life it has. -/
structure Sys.Lived (s : Sys) (taskId : String) (moments : List (Option Lifecycle.Action)) :
    Prop where
  each : List.Forall₂ (fun e m => e.Moment taskId m) s.history moments
  lives : Lifecycle.Lives moments (lifeOf s.db taskId)

/-- Every task of a reachable store lived some moments. -/
theorem Reachable.lived (h : Reachable Repeats s) (taskId : String) :
    ∃ moments, s.Lived taskId moments := by
  refine h.induct (P := fun s => ∃ moments, s.Lived taskId moments) (fun _ _ hrepeats => hrepeats)
    ⟨[], .nil, .unspawned⟩ fun s b now hd ⟨moments, heach, hlives⟩ => ?_
  obtain hidle | ⟨a, hacts, hstep⟩ := hd.life taskId
  · refine ⟨none :: moments, .cons hidle heach, .idle ?_⟩
    rwa [← hidle] at hlives
  · exact ⟨some a :: moments, .cons ⟨hacts, hstep⟩ heach, .act hlives hstep⟩

/-- In every reachable state every task lived the life it has: each delivery since the first did
nothing to it, or took it one action of its call further, under the lifecycle's guard; and so its
accounts add up. -/
theorem reachable_lives (h : Reachable Repeats s) (taskId : String) :
    ∃ moments, s.Lived taskId moments ∧ (lifeOf s.db taskId).Accounted := by
  obtain ⟨moments, hlived⟩ := h.lived taskId
  exact ⟨moments, hlived, hlived.lives.accounted⟩

/-- The sample task was failed in its saga: its first attempt, and the pass it was given. -/
theorem reachable_lives_haltedOne :
    lifeOf haltedOne.db "t" = .ended ⟨2, 0, 2, true⟩ .failed 2 ∧
      ∃ moments, haltedOne.Lived "t" moments ∧ (lifeOf haltedOne.db "t").Accounted :=
  ⟨by decide +kernel, reachable_lives (haltedOne_reachable Repeats) "t"⟩

/-! ## Counting -/

/-- A task has as many runs as its top ordinal. -/
theorem Ordinals.count {top : ℤ} (h : Ordinals db taskId top) :
    ((db.runs.rows.filter fun r => r.taskId = taskId).length : ℤ) = top := by
  set runs := db.runs.rows.filter fun r => r.taskId = taskId with hruns
  have hmem : ∀ r, r ∈ runs ↔ r ∈ db.runs ∧ r.taskId = taskId := by
    intro r
    rw [hruns, List.mem_filter, decide_eq_true_eq]
    rfl
  have hnodup : (runs.map Run.attempt).Nodup := by
    refine List.Nodup.map_on (fun r hr q hq he => ?_)
      ((db.runs.nodup_rows Run.keys_ne_nil).filter _)
    obtain ⟨hr, hid⟩ := (hmem r).mp hr
    obtain ⟨hq, hid'⟩ := (hmem q).mp hq
    exact db.run_unique_ordinal hr hq (hid.trans hid'.symm) he
  have hset : (runs.map Run.attempt).toFinset = Finset.Icc 1 top := by
    ext k
    rw [List.mem_toFinset, Finset.mem_Icc, ← h.2 k, List.mem_map]
    exact exists_congr fun r => by rw [hmem, and_assoc]
  have hcard := List.toFinset_card_of_nodup hnodup
  rw [hset, Int.card_Icc, List.length_map] at hcard
  have hpos := h.1
  omega

/-- What the moments of a task say of its row and of its runs. -/
structure Task.CountedBy (db : Db) (t : Task) (moments : List (Option Lifecycle.Action)) : Prop where
  runs : ((db.runs.rows.filter fun r => r.taskId = t.taskId).length : ℤ) =
    1 + Lifecycle.placements moments
  infraRetries : t.infraRetries = Lifecycle.taken .sweepClaimTimeout moments
  saga : sagaBegan db t.taskId ↔ 0 < Lifecycle.taken .rollbackPass moments
  budget : ∃ budget, Lifecycle.spawnBudgets moments = [budget] ∧ (¬ sagaBegan db t.taskId →
    t.maxAttempts = budget + Lifecycle.taken .retryTask moments ∧
      1 + Lifecycle.placements moments ≤
        budget + Lifecycle.taken .retryTask moments + INFRA_RETRY_CAP)

variable {moments : List (Option Lifecycle.Action)} {top : ℤ}

/-- The counts of a life are those of its task's row and runs. -/
theorem Task.CountedBy.of_counted (h : Lifecycle.Counted moments (t.counters db) top)
    (hord : Ordinals db t.taskId top) (hcap : t.infraRetries ≤ INFRA_RETRY_CAP)
    (hbudget : top - t.infraRetries ≤ t.maxAttempts) : t.CountedBy db moments where
  runs := hord.count.trans h.ordinal
  infraRetries := h.infraRetries
  saga := by simpa [Task.counters] using h.rollingBack
  budget := by
    obtain ⟨budget, hspawned, hmax⟩ := h.budget
    refine ⟨budget, hspawned, fun hno => ?_⟩
    have hforward : (t.counters db).rollingBack = false := by simp [Task.counters, hno]
    obtain ⟨budget', hspawned', hbound⟩ := h.bounded hforward hcap hbudget
    obtain rfl : budget' = budget := by simpa using hspawned'.symm.trans hspawned
    exact ⟨hmax hforward, hbound⟩

/-- The counters of a task count the moments it lived. -/
theorem Sys.Lived.counted (hlived : s.Lived t.taskId moments) (hinv : Inv s.db)
    (ht : t ∈ s.db.tasks) : t.CountedBy s.db moments := by
  have hcounted := hlived.lives.counted
  have haccounted := hlived.lives.accounted
  by_cases htl : t.state.Live
  · obtain ⟨r, hr, hid, hl⟩ := (hinv.settled t ht).hasLive htl
    rw [lifeOf_live hinv.toUnits ht hr hid hl] at hcounted haccounted
    obtain ⟨hsound, _, hord, hbudget, _⟩ := haccounted
    refine .of_counted hcounted ((hinv.settled t ht).top hr hid hl) hsound.infraCap ?_
    simp only [Task.counters, Run.current] at hord hbudget ⊢
    omega
  · obtain ⟨top, hord, _⟩ := (hinv.settled t ht).band
    rw [lifeOf_ended hinv.toCore ht htl hord] at hcounted haccounted
    obtain ⟨hsound, _, hbudget, _⟩ := haccounted
    exact .of_counted hcounted hord hsound.infraCap hbudget

/-- A task's counters and its runs count the actions deliveries took on it; and one that never
rolled back has no more runs than its budget, its revivals and the cap of the infrastructure's
retries. -/
theorem reachable_counted (h : Reachable Repeats s) :
    ∀ t ∈ s.db.tasks, ∃ moments, s.Lived t.taskId moments ∧ t.CountedBy s.db moments := by
  intro t ht
  have hinv : Inv s.db := (h.course fun _ _ hrepeats => hrepeats).inv
  obtain ⟨moments, hlived⟩ := h.lived t.taskId
  exact ⟨moments, hlived, hlived.counted hinv ht⟩

/-- The sample task has two runs, the second of them placed by the pass. -/
theorem reachable_counted_haltedOne :
    (haltedOne.db.runs.rows.filter fun r => r.taskId = "t").length = 2 ∧
      ∀ t ∈ haltedOne.db.tasks, ∃ moments, haltedOne.Lived t.taskId moments ∧
        t.CountedBy haltedOne.db moments :=
  ⟨by decide +kernel, reachable_counted (haltedOne_reachable Repeats)⟩

end Durablerun
