import Durablerun.Store.Purging

/-!
# A purge removes one unit

Every purge of a reachable store, under whatever policy, leaves the tables as they were or takes
exactly one unit, of a task that had ended before the cutoff. Nothing it leaves names a row that is
gone, the counts it is held to agree, and the task stays gone until its own spawn is sent again.

Reference: `packages/core/src/statements/purge.ts`.
-/

namespace Durablerun

open Relational

variable {sends : Batch → Purging → Prop} {s s' : Purging} {seed queue taskId : String} {now : ℤ}
  {db : Db} {target : PurgeUnitTarget} {policy : RetentionPolicy}

/-! ## What a purge is held to -/

/-- Exactly the rows of the unit are gone, and every other row is as it was. -/
structure UnitRemoved (db db' : Db) (queue taskId : String) : Prop where
  tasks : ∀ t, t ∈ db'.tasks ↔ t ∈ db.tasks ∧ t.taskId ≠ taskId
  runs : ∀ r, r ∈ db'.runs ↔ r ∈ db.runs ∧ r.taskId ≠ taskId
  waits : ∀ w, w ∈ db'.waits ↔ w ∈ db.waits ∧ w.taskId ≠ taskId
  events : ∀ e, e ∈ db'.events ↔
    e ∈ db.events ∧ ¬ (e.queue = queue ∧ e.eventName = taskDoneEventName taskId)
  checkpoints : ∀ c, c ∈ db'.checkpoints ↔ c ∈ db.checkpoints ∧ c.taskId ≠ taskId

/-- No row that is left names the task, one of its runs, or its completion event. -/
structure UnitUnnamed (db db' : Db) (queue taskId : String) : Prop where
  runs : ∀ r ∈ db'.runs, r.taskId ≠ taskId
  waits : ∀ w ∈ db'.waits, w.taskId ≠ taskId ∧
    ∀ r ∈ db.runs, r.taskId = taskId → w.runId ≠ r.runId
  checkpoints : ∀ c ∈ db'.checkpoints, c.taskId ≠ taskId ∧
    ∀ r ∈ db.runs, r.taskId = taskId → c.ownerRunId ≠ r.runId
  awaits : ∀ w ∈ db'.waits, w.queue = queue → w.eventName ≠ taskDoneEventName taskId
  wakes : ∀ r ∈ db'.runs, r.queue = queue → r.eventPayload ≠ none →
    r.wakeEvent ≠ some (taskDoneEventName taskId)

/-- The task ended, at an instant at least a window of its state ago. -/
def EndedBefore (s : Purging) (queue taskId : String) (windowsMs : RetentionWindows) (now : ℤ) :
    Prop :=
  ∃ t ∈ s.db.tasks, t.taskId = taskId ∧ t.queue = queue ∧ ¬ t.state.Live ∧
    ∃ windowMs, windowsMs.of t.state = some windowMs ∧
      ∃ e ∈ s.history, e.Ends taskId ∧ t ∈ e.after.tasks ∧ e.now ≤ now - windowMs

/-- A purge removes its unit from a sound store. -/
theorem UnitRemoved.without (h : Inv db) :
    UnitRemoved db (db.without queue taskId) queue taskId where
  tasks := fun _ => mem_without_tasks
  runs := fun _ => mem_without_runs
  waits := by
    intro w
    rw [mem_without_waits]
    exact and_congr_right fun hw => not_congr (h.held.unit_iff hw)
  events := fun _ => mem_without_events
  checkpoints := fun _ => mem_without_checkpoints

/-- What the barrier let nothing name, nothing that is left names. -/
theorem UnitUnnamed.without (h : Inv db) (howned : CheckpointsOwned db) {unit : PurgeUnitBinds}
    (hpurgeable : Purgeable db now unit) :
    UnitUnnamed db (db.without unit.queue unit.taskId) unit.queue unit.taskId := by
  obtain ⟨t, ht, hbarrier⟩ := hpurgeable
  constructor
  case runs => exact fun r hr => (mem_without_runs.mp hr).2
  case waits =>
    intro w hw
    obtain ⟨hw, hother⟩ := mem_without_waits.mp hw
    exact ⟨fun hid => hother ((h.held.unit_iff hw).mpr hid),
      fun r hr hid hrun => hother ⟨r, hr, hid, hrun.symm⟩⟩
  case checkpoints =>
    intro c hc
    obtain ⟨hc, hne⟩ := mem_without_checkpoints.mp hc
    refine ⟨hne, fun r hr hid hrun => hne ?_⟩
    obtain ⟨owner, howner, hownerId, htask⟩ := howned c hc
    rw [← htask, db.run_unique howner hr (hownerId.trans hrun), hid]
  case awaits =>
    exact fun w hw hqueue hname =>
      hbarrier.noWaitOnTheOutcome ⟨w, (mem_without_waits.mp hw).1, hqueue, hname⟩
  case wakes =>
    intro r hr hqueue hpayload hwake
    obtain ⟨hr, hne⟩ := mem_without_runs.mp hr
    refine hbarrier.noRunHoldsTheOutcome ⟨r, hr, hqueue, ?_, hpayload, hwake, hne⟩
    rw [hwake]
    exact Option.some_ne_none _

/-- A unit the barrier admits is of a task that ended before the cutoff. -/
theorem Purging.Trace.endedBefore (h : s.Trace) {unit : PurgeUnitBinds}
    (hpurgeable : Purgeable s.db now unit) :
    EndedBefore s unit.queue unit.taskId unit.windowsMs now := by
  obtain ⟨t, ht, hbarrier⟩ := hpurgeable
  have hold := hbarrier.endedAWindowAgo
  cases hwindow : unit.windowsMs.of t.state with
  | none =>
    rw [hwindow] at hold
    exact hold.elim
  | some windowMs =>
    rw [hwindow] at hold
    have hended : ¬ t.state.Live := by
      intro hl
      cases hstate : t.state <;> rw [hstate] at hl hwindow
      · cases hwindow
      · cases hwindow
      · cases hwindow
      · exact hl
      · exact hl
      · exact hl
    obtain ⟨e, he, hends, hafter, hnow⟩ := h.endedAt t ht hended
    exact ⟨t, ht, hbarrier.taskId, hbarrier.queue, hended, windowMs, hwindow, e, he,
      hbarrier.taskId ▸ hends, hafter, hnow ▸ hold⟩

/-! ## After it -/

/-- A purge goes out under a seed no batch ever has. -/
theorem PurgingReachable.purge_seed (h : PurgingReachable sends s) :
    ∀ p ∈ s.purges, s.Fresh p.seed := by
  induction h with
  | init => exact fun p hp => absurd hp List.not_mem_nil
  | step _ hstep ih =>
    cases hstep with
    | first b now _ _ hpurges =>
      intro p hp e he
      obtain rfl | he := List.mem_cons.mp he
      · exact (hpurges p hp).symm
      · exact ih p hp e he
    | again b now _ hdelivered =>
      obtain ⟨e', he', rfl⟩ := hdelivered
      intro p hp e he
      obtain rfl | he := List.mem_cons.mp he
      · exact ih p hp e' he'
      · exact ih p hp e he
    | purge seed queue target policy now _ hfresh =>
      intro p hp
      obtain rfl | hp := List.mem_cons.mp hp
      · exact hfresh
      · exact ih p hp

/-- No delivered purge is forgotten. -/
theorem PurgingStep.purges (h : PurgingStep sends s s') : ∀ p ∈ s.purges, p ∈ s'.purges := by
  cases h with
  | first | again => exact fun _ hp => hp
  | purge => exact fun _ hp => List.mem_cons_of_mem _ hp

/-- A purge that was delivered stays so. -/
theorem purges_kept (h : Relation.ReflTransGen (PurgingStep sends) s s') :
    ∀ p ∈ s.purges, p ∈ s'.purges := by
  induction h with
  | refl => exact fun _ hp => hp
  | tail _ hstep ih => exact fun p hp => hstep.purges p (ih p hp)

/-- A purge of a task that is not there changes nothing. -/
theorem purgeUnit_of_gone (hunused : Unused db seed) (hgone : ∀ t ∈ db.tasks, t.taskId ≠ target.taskId) :
    (purgeUnit seed queue target policy now db).2 = db ∧
      ∀ rows, (purgeUnit seed queue target policy now db).1 ≠ .ok (some rows) := by
  obtain ⟨unit, hbinds, ⟨t, ht, hbarrier⟩, -⟩ | h | ⟨error, -, h⟩ :=
    purgeUnit_cases hunused queue target policy now
  · obtain ⟨-, hid, -⟩ := PurgeUnitTarget.binds_unit hbinds
    exact absurd (hbarrier.taskId.trans hid) (hgone t ht)
  · rw [h]
    exact ⟨rfl, fun rows hrows => by simp at hrows⟩
  · rw [h]
    exact ⟨rfl, fun rows hrows => by simp at hrows⟩

/-- A batch that is no spawn of the task leaves it gone. -/
theorem Purging.Trace.stays_gone {b : Batch} (h : s.Trace) (hadm : b.call.Admitted s.Seen)
    (hown : s.Fresh b.seed ∨ b.call.Repeatable)
    (hspawn : ∀ call, b.call = .spawn call → call.taskId ≠ taskId)
    (hgone : ∀ t ∈ s.db.tasks, t.taskId ≠ taskId) :
    ∀ t ∈ (b.after now s.db).tasks, t.taskId ≠ taskId := by
  intro t' ht'
  obtain ⟨t, ht, hm⟩ | hborn := (h.effect hadm hown now).1.tasks.before t' ht'
  · rw [hm.same.taskId]
    exact hgone t ht
  · obtain ⟨seed, call⟩ := b
    cases hborn with
    | spawned => exact hspawn _ rfl

/-- A task that is gone stays gone until its spawn is delivered. -/
theorem PurgingReachable.stays_gone (h : PurgingReachable sends s)
    (hgone : ∀ t ∈ s.db.tasks, t.taskId ≠ taskId)
    (hlater : Relation.ReflTransGen (PurgingStep sends) s s') :
    PurgingReachable sends s' ∧ ∃ new, s'.history = new ++ s.history ∧
      ((∀ e ∈ new, ∀ call, e.batch.call = .spawn call → call.taskId ≠ taskId) →
        ∀ t ∈ s'.db.tasks, t.taskId ≠ taskId) := by
  induction hlater with
  | refl => exact ⟨h, [], rfl, fun _ => hgone⟩
  | @tail u _ _ hstep ih =>
    obtain ⟨hreach, new, hhistory, ih⟩ := ih
    have htrace := hreach.trace
    refine ⟨hreach.step hstep, ?_⟩
    cases hstep with
    | first b now _ hfresh _ _ hadm =>
      refine ⟨u.toSys.delivery b now :: new, congrArg _ hhistory, fun hspawn => ?_⟩
      exact htrace.stays_gone hadm (Or.inl hfresh) (hspawn _ List.mem_cons_self)
        (ih fun e he => hspawn e (List.mem_cons_of_mem _ he))
    | again b now _ hdelivered hrepeats =>
      obtain ⟨e', he', rfl⟩ := hdelivered
      refine ⟨u.toSys.delivery e'.batch now :: new, congrArg _ hhistory, fun hspawn => ?_⟩
      exact htrace.stays_gone (htrace.admitted e' he') (Or.inr hrepeats)
        (hspawn (u.toSys.delivery e'.batch now) List.mem_cons_self)
        (ih fun e he => hspawn e (List.mem_cons_of_mem _ he))
    | purge seed queue target policy now _ hfresh =>
      refine ⟨new, hhistory, fun hspawn t ht => ih hspawn t ?_⟩
      have ht : t ∈ (purgeUnit seed queue target policy now u.db).2.tasks := ht
      have hunused := htrace.unused seed hfresh u.db (Or.inl (Or.inl rfl))
      obtain hsame | hwithout := Purging.purge_db hunused target policy
      · rwa [hsame] at ht
      · rw [hwithout] at ht
        exact (mem_without_tasks.mp ht).1

/-! ## The purge of a unit -/

/-- Every purge of a reachable store removes one unit, of a task that ended before the cutoff, or
nothing. -/
theorem purge_removes_unit (h : PurgingReachable sends s) (hclock : s.clock ≤ now)
    (hfresh : s.Fresh seed) (queue : String) (target : PurgeUnitTarget) (policy : RetentionPolicy) :
    ((purgeUnit seed queue target policy now s.db = (.ok none, s.db) ∨
        ∃ error, retentionWindowsMs policy = .error error ∧
          purgeUnit seed queue target policy now s.db = (.error (.policy error), s.db)) ∨
      ∃ windowsMs, retentionWindowsMs policy = .ok windowsMs ∧
        EndedBefore s queue target.taskId windowsMs now ∧
        (purgeUnit seed queue target policy now s.db).1 =
          .ok (some (s.db.unitRows queue target.taskId)) ∧
        UnitRemoved s.db (purgeUnit seed queue target policy now s.db).2 queue target.taskId ∧
        UnitUnnamed s.db (purgeUnit seed queue target policy now s.db).2 queue target.taskId) ∧
    ((purgeUnit seed queue target policy now s.db).2 ≠ s.db → ∀ s' new,
      Relation.ReflTransGen (PurgingStep sends) (s.purge seed queue target policy now) s' →
      s'.history = new ++ s.history →
      (∀ e ∈ new, ∀ call, e.batch.call = .spawn call → call.taskId ≠ target.taskId) →
      ∀ seed', seed' = seed ∨ s'.Fresh seed' → ∀ queue' key policy' now',
        (purgeUnit seed' queue' ⟨target.taskId, key⟩ policy' now' s'.db).2 = s'.db ∧
        ∀ rows, (purgeUnit seed' queue' ⟨target.taskId, key⟩ policy' now' s'.db).1 ≠
          .ok (some rows)) := by
  have htrace := h.trace
  have hnow : s.Seen s.db := Or.inl (Or.inl rfl)
  have hinv := htrace.inv s.db hnow
  have hunused := htrace.unused seed hfresh s.db hnow
  have hcases := purgeUnit_cases hunused queue target policy now
  constructor
  · obtain ⟨unit, hbinds, hpurgeable, h⟩ | h | h := hcases
    · obtain ⟨rfl, hid, hpolicy⟩ := PurgeUnitTarget.binds_unit hbinds
      rw [h, ← hid]
      exact Or.inr ⟨unit.windowsMs, hpolicy, htrace.endedBefore hpurgeable, rfl,
        .without hinv, .without hinv htrace.owned hpurgeable⟩
    · exact Or.inl (Or.inl h)
    · exact Or.inl (Or.inr h)
  · intro hremoved s' new hlater hhistory hspawn seed' hseed queue' key policy' now'
    have hwithout := (Purging.purge_db hunused target policy).resolve_left hremoved
    -- The task's row went with the unit, and no spawn since brought the id back.
    have hgone : ∀ t ∈ (s.purge seed queue target policy now).db.tasks,
        t.taskId ≠ target.taskId := by
      intro t ht
      have ht : t ∈ (purgeUnit seed queue target policy now s.db).2.tasks := ht
      rw [hwithout] at ht
      exact (mem_without_tasks.mp ht).2
    have hpurged : PurgingReachable sends (s.purge seed queue target policy now) :=
      h.step (.purge seed queue target policy now hclock hfresh)
    obtain ⟨hreach, new', hhistory', hstays⟩ := hpurged.stays_gone hgone hlater
    obtain rfl : new' = new := List.append_cancel_right (hhistory'.symm.trans hhistory)
    have hfresh' : s'.Fresh seed' := by
      -- A purge leaves no stamp, so its seed is as unused after it as a fresh one.
      rcases hseed with rfl | hfresh'
      · exact hreach.purge_seed _ (purges_kept hlater _ List.mem_cons_self)
      · exact hfresh'
    exact purgeUnit_of_gone (hreach.trace.unused seed' hfresh' s'.db (Or.inl (Or.inl rfl)))
      (hstays hspawn)

/-! The task of the sample run has failed, and is purged an hour later. -/

/-- What ended is kept for an hour. -/
def oneHour : RetentionPolicy := ⟨.finite 3600, some (.finite 3600), .finite 3600⟩

def purgingOne : Purging := ⟨failedOne, []⟩

/-- Every batch is sent whenever its caller likes. -/
abbrev Freely : Batch → Purging → Prop := fun _ _ => True

/-- The store with one purged task is reachable. -/
theorem purgingOne_reachable : PurgingReachable Freely purgingOne := by
  have hspawned : PurgingReachable Freely (Purging.init.deliver spawnOne 0) :=
    .step .init (.first _ _ (by decide) (by decide) (by decide)
      (Purging.mints_of_disjoint (by decide)) ⟨by decide, by decide⟩ trivial)
  have hclaimed : PurgingReachable Freely ((Purging.init.deliver spawnOne 0).deliver claimOne 1) :=
    .step hspawned (.first _ _ (by decide) (by decide) (by decide)
      (Purging.mints_of_disjoint (by decide)) trivial trivial)
  have hrunning : PurgingReachable Freely ⟨runningOne, []⟩ :=
    .step hclaimed (.first activateOne 2 (by decide) (by decide) (by decide)
      (Purging.mints_of_disjoint (by decide)) trivial trivial)
  have hread : RunRead (Purging.Seen ⟨runningOne, []⟩) "r1" "t" :=
    ⟨runningOne.db, Or.inl (Or.inl rfl), by decide⟩
  exact .step hrunning (.first failOne 3 (by decide) (by decide) (by decide)
    (Purging.mints_of_disjoint (by decide))
    ⟨fun rollback hr => absurd hr (Option.not_mem_none rollback), hread⟩ trivial)

/-- The purge of an ended task, with the rows it answers. -/
theorem purge_removes_unit_purgingOne :
    (purgeUnit "b5" "q" ⟨"t", none⟩ oneHour 3600003 failedOne.db).1 = .ok (some ⟨1, 1, 0, 1, 0⟩) ∧
      UnitRemoved failedOne.db (purgeUnit "b5" "q" ⟨"t", none⟩ oneHour 3600003 failedOne.db).2
        "q" "t" := by
  have hwon : (purgeUnit "b5" "q" ⟨"t", none⟩ oneHour 3600003 failedOne.db).1 =
      .ok (some ⟨1, 1, 0, 1, 0⟩) := by rfl
  refine ⟨hwon, ?_⟩
  obtain (h | ⟨_, _, h⟩) | ⟨_, _, _, _, hremoved, _⟩ := (purge_removes_unit purgingOne_reachable
    (by decide : (3 : ℤ) ≤ 3600003) (by decide : failedOne.Fresh "b5") "q" ⟨"t", none⟩ oneHour).1
  · cases hwon.symm.trans (congrArg Prod.fst h)
  · cases hwon.symm.trans (congrArg Prod.fst h)
  · exact hremoved

end Durablerun
