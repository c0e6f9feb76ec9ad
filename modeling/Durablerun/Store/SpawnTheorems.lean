import Durablerun.Store.Spawn
import Durablerun.Store.Wake

/-!
# What the batches that start work keep

`spawn` settles a new unit with its first run, and `retryTask` settles a failed unit again with one
run more. Both are refused when the run they minted meets a run there is.

Reference: `packages/store-libsql/src/store.ts` and `packages/core/src/statements/spawn.ts`.
-/

namespace Durablerun

open Relational

variable {db : Db} {seed : String} {now : ℤ} {out : Outcome}

/-- A task of a settled database has a run. -/
theorem Units.has_run (h : Units db) {t : Task} (ht : t ∈ db.tasks) :
    ∃ r ∈ db.runs, r.taskId = t.taskId := by
  obtain ⟨top, hord, _⟩ := (h.settled t ht).band
  obtain ⟨r, hr, hid, _⟩ := (hord.2 1).mpr ⟨le_refl 1, hord.1⟩
  exact ⟨r, hr, hid⟩

/-! ## spawn -/

/-- With no task of the batch's stamp that lacks a run, the first run's insert does nothing. -/
theorem spawnRun_of_has_run {call : SpawnCall}
    (h : ∀ t ∈ db.tasks, t.taskId = call.taskId → t.fenceStamp = some ⟨seed, .task⟩ →
      ∃ r ∈ db.runs, r.taskId = t.taskId) : spawnRun db seed call = some db := by
  unfold spawnRun
  split
  · rfl
  · rename_i f hf
    have hp := List.find?_some hf
    simp only [decide_eq_true_eq] at hp
    rw [if_neg]
    exact fun hno => hno.2 (h f (List.mem_of_find?_eq_some hf) hp.1 hp.2)

/-- The task this batch inserted gets its first run. -/
theorem spawnRun_new {db' : Db} {call : SpawnCall} (hadm : call.Admitted)
    (hguard : spawnGuard db now call) (hfree : db.tasks.Free (call.task seed now))
    (hrun : spawnRun { db with tasks := db.tasks.push (call.task seed now) hfree } seed call =
      some db') :
    ∃ runs, (∀ r, r ∈ runs ↔ r ∈ db.runs ∨ r = firstRun seed call.runId (call.task seed now)) ∧
      db' = ⟨db.tasks.push (call.task seed now) hfree, runs, db.waits, db.events,
        db.checkpoints⟩ := by
  obtain ⟨⟨hnotask, hnorun⟩, hfits, _⟩ := hguard
  unfold spawnRun at hrun
  split at hrun
  · rename_i hnone
    have hmem : call.task seed now ∈ db.tasks.push (call.task seed now) hfree :=
      (Table.mem_push hfree).mpr (Or.inr rfl)
    have := List.find?_eq_none.mp hnone _ hmem
    simp [SpawnCall.task] at this
  · rename_i f hf
    have hp := List.find?_some hf
    simp only [decide_eq_true_eq] at hp
    have hmem : f ∈ db.tasks.push (call.task seed now) hfree := List.mem_of_find?_eq_some hf
    obtain hmem | rfl := (Table.mem_push hfree).mp hmem
    · exact absurd ⟨f, hmem, hp.1⟩ hnotask
    · have hwithin : epochBounds.Within (call.task seed now).enqueueAtMs := by
        have hdelay := hadm.delayMs
        obtain ⟨⟨hnow, _⟩, hle⟩ := hfits
        constructor
        · show 0 ≤ now + call.delayMs
          omega
        · show now + call.delayMs ≤ MAX_EPOCH_MS
          omega
      rw [if_pos ⟨hwithin, hnorun⟩] at hrun
      obtain ⟨runs, hins, rfl⟩ := Option.map_eq_some_iff.mp hrun
      exact ⟨runs, (Table.insert?_eq_some hins).2, rfl⟩

/-- A task and its first run, where neither was, keep everything. -/
theorem Inv.spawn {db' : Db} {call : SpawnCall} (h : Inv db) (hadm : call.Admitted)
    (hguard : spawnGuard db now call)
    (htasks : ∀ t, t ∈ db'.tasks ↔ t ∈ db.tasks ∨ t = call.task seed now)
    (hruns : ∀ r, r ∈ db'.runs ↔ r ∈ db.runs ∨ r = firstRun seed call.runId (call.task seed now))
    (hwaits : db'.waits = db.waits) (hevents : db'.events = db.events)
    (hchecks : db'.checkpoints = db.checkpoints) : Inv db' := by
  obtain ⟨⟨hnotask, hnorun⟩, _⟩ := hguard
  set t₀ := call.task seed now with ht₀
  set r₀ := firstRun seed call.runId t₀ with hr₀
  have hid : r₀.taskId = t₀.taskId := rfl
  have hold : ∀ t ∈ db.tasks, t₀.taskId ≠ t.taskId := fun t ht he => hnotask ⟨t, ht, he.symm⟩
  have holdrun : ∀ r ∈ db.runs, r.taskId ≠ t₀.taskId := fun r hr he => hnorun ⟨r, hr, he⟩
  have hnew : Settled db' t₀ := by
    -- The guard found no run under the new id, so the first run is the task's only one.
    have hall : ∀ r ∈ db'.runs, r.taskId = t₀.taskId → r = r₀ := fun r hr he =>
      ((hruns r).mp hr).resolve_left fun hr => holdrun r hr he
    have hmem : r₀ ∈ db'.runs := (hruns r₀).mpr (Or.inr rfl)
    refine ⟨⟨(by decide : attemptsBounds.Within 0), hadm.maxAttempts,
      (by decide : infraRetriesBounds.Within 0), fun _ => ?_⟩, ⟨1, ⟨le_refl 1, fun k => ?_⟩,
      Or.inr rfl⟩, fun _ => ⟨r₀, hmem, hid, trivial⟩, fun r hr he _ => ⟨trivial, ?_⟩⟩
    · have := hadm.maxAttempts.1
      show (0 : ℤ) < call.maxAttempts
      simp only [maxAttemptsBounds] at this
      omega
    · constructor
      · rintro ⟨r, hr, he, rfl⟩
        rw [hall r hr he]
        exact ⟨le_refl 1, le_refl 1⟩
      · rintro ⟨h₁, h₂⟩
        exact ⟨r₀, hmem, hid, le_antisymm h₁ h₂⟩
    · rw [hall r hr he]
      rfl
  refine ⟨⟨⟨⟨⟨fun r hr => ?_, fun r hr => ?_⟩, fun t ht => ?_⟩, fun w hw => ?_,
    ⟨fun r hr s hs => ?_, fun t ht s hs => ?_⟩, ⟨fun c hc => ?_, fun c hc hn => ?_,
    fun t ht => ?_⟩⟩, fun r hr t ht hrt hf => ?_⟩, fun w hw hthere => ?_, fun t ht hl => ?_⟩
  · rcases (hruns r).mp hr with hr | rfl
    · obtain ⟨t, ht, hown⟩ := h.owner r hr
      exact ⟨t, (htasks t).mpr (Or.inl ht), hown⟩
    · exact ⟨t₀, (htasks t₀).mpr (Or.inr rfl), rfl, rfl⟩
  · rcases (hruns r).mp hr with hr | rfl
    · exact h.ordinal r hr
    · exact (by decide : (1 : ℤ) ≤ MAX_RUN_ORDINAL)
  · rcases (htasks t).mp ht with ht | rfl
    · exact (h.settled t ht).push hruns (hold t ht)
    · exact hnew
  · obtain ⟨⟨r, hr, hp⟩, htimeout⟩ := h.held w (hwaits ▸ hw)
    exact ⟨⟨r, (hruns r).mpr (Or.inl hr), hp⟩, htimeout⟩
  · rcases (hruns r).mp hr with hr | rfl
    · exact h.stamped.runs r hr s hs
    · obtain rfl := Option.some.inj hs
      exact rfl
  · rcases (htasks t).mp ht with ht | rfl
    · exact h.stamped.tasks t ht s hs
    · obtain rfl := Option.some.inj hs
      exact trivial
  · obtain ⟨t, ht, hid⟩ := h.phased.owner c (hchecks ▸ hc)
    exact ⟨t, (htasks t).mpr (Or.inl ht), hid⟩
  · rw [sagaBegan_of_eq hchecks]
    exact h.phased.marker c (hchecks ▸ hc) hn
  · rcases (htasks t).mp ht with ht | rfl
    · exact (h.phased.tasks t ht).push hruns (hold t ht) (sagaBegan_of_eq hchecks _)
        (stepStarted_of_eq hchecks _).mp
    -- A checkpoint is owned by a task that was there, so the new one has no saga.
    · refine .of_live trivial fun hs => ?_
      obtain ⟨c, hc, hcid, _⟩ := (sagaBegan_of_eq hchecks _).mp hs
      obtain ⟨t, ht, htid⟩ := h.phased.owner c hc
      exact absurd (htid.trans hcid).symm (hold t ht)
  · rcases (hruns r).mp hr with hr | rfl <;> rcases (htasks t).mp ht with ht | rfl
    · exact h.mirror r hr t ht hrt hf
    · exact absurd hrt (holdrun r hr)
    · exact absurd hrt (hold t ht)
    · rfl
  · exact h.quiet w (hwaits ▸ hw) ((EventThere.of_eq hevents).mp hthere)
  · rw [EventThere.of_eq hevents]
    rcases (htasks t).mp ht with ht | rfl
    · exact h.recorded t ht hl
    · exact absurd trivial hl

/-- A spawn that goes through adds the task with its first run, or nothing. -/
theorem spawn_cases {call : SpawnCall} (hadm : call.Admitted) (h : Inv db)
    (hrun : spawn seed call now db = some out) :
    (out.db = db ∧ out.won = none) ∨
      (spawnGuard db now call ∧ ∃ (hfree : db.tasks.Free (call.task seed now)) (runs : Table Run Run.keys),
        (∀ r, r ∈ runs ↔ r ∈ db.runs ∨ r = firstRun seed call.runId (call.task seed now)) ∧
        out.db = { db with tasks := db.tasks.push (call.task seed now) hfree, runs } ∧
        out.won = some .task) := by
  obtain ⟨db', hdb', hout⟩ := Option.bind_eq_some_iff.mp hrun
  obtain rfl := Option.some.inj hout
  by_cases hg : spawnGuard db now call ∧ db.tasks.Free (call.task seed now)
  · obtain ⟨hguard, hfree⟩ := hg
    have hcas : spawnTaskCas db seed call now =
        { db with tasks := db.tasks.push (call.task seed now) hfree } := by
      unfold spawnTaskCas Table.insertIgnore
      rw [if_pos hguard, dif_pos hfree]
    rw [hcas] at hdb'
    obtain ⟨runs, hruns, rfl⟩ := spawnRun_new hadm hguard hfree hdb'
    exact Or.inr ⟨hguard, hfree, runs, hruns, rfl, if_pos ⟨hguard, hfree⟩⟩
  · have hcas : spawnTaskCas db seed call now = db := by
      unfold spawnTaskCas Table.insertIgnore
      by_cases hguard : spawnGuard db now call
      · rw [if_pos hguard, dif_neg fun hfree => hg ⟨hguard, hfree⟩]
      · rw [if_neg hguard]
    rw [hcas, spawnRun_of_has_run fun t ht _ _ => h.has_run ht] at hdb'
    obtain rfl := Option.some.inj hdb'
    exact Or.inl ⟨rfl, if_neg hg⟩

/-- A spawn that goes through keeps the invariant. -/
theorem spawn_inv {call : SpawnCall} (hadm : call.Admitted) (h : Inv db)
    (hrun : spawn seed call now db = some out) : Inv out.db := by
  obtain ⟨hdb, _⟩ | ⟨hguard, hfree, runs, hruns, hdb, _⟩ := spawn_cases hadm h hrun
  · exact hdb ▸ h
  · rw [hdb]
    exact h.spawn hadm hguard (fun _ => Table.mem_push hfree) hruns rfl rfl rfl

/-! ## retryTask -/

/-- The top ordinal the batch derives is the top of the ordinals. -/
theorem topOrdinal_eq (h : Owned db) {t : Task} (ht : t ∈ db.tasks) {top : ℤ}
    (hord : Ordinals db t.taskId top) : topOrdinal db t = some top := by
  unfold topOrdinal
  rw [List.max?_eq_some_iff]
  have hmem : ∀ r, r ∈ ownedRuns db t ↔ r ∈ db.runs ∧ r.taskId = t.taskId := by
    intro r
    unfold ownedRuns
    rw [List.mem_filter, decide_eq_true_eq]
    exact and_congr_right fun hr => ⟨fun h => h.1.symm, fun hid => h.runOwnedByTask hr ht hid⟩
  constructor
  · obtain ⟨r, hr, hid, hat⟩ := (hord.2 top).mpr ⟨hord.1, le_refl top⟩
    exact List.mem_map.mpr ⟨r, (hmem r).mpr ⟨hr, hid⟩, hat⟩
  · intro k hk
    obtain ⟨r, hr, rfl⟩ := List.mem_map.mp hk
    obtain ⟨hr, hid⟩ := (hmem r).mp hr
    exact ((hord.2 r.attempt).mp ⟨r, hr, hid, rfl⟩).2

/-- The row a revival leaves. -/
def revivedTask (db : Db) (seed : String) (call : RetryCall) (now : ℤ) (t : Task) : Task :=
  { t with
    state := .pending
    attempts := (retryCharged db t).getD t.attempts
    maxAttempts := t.maxAttempts + 1
    failureReason := none
    lastAttemptRun := some call.runId
    fenceStamp := some ⟨seed, .revive⟩
    fenceAtMs := now }

/-- A task after the revival is the revived one, or is as it was. -/
theorem reviveCas_cases {call : RetryCall} {t' : Task}
    (h : t' ∈ (reviveCas db seed call now).tasks) :
    (∃ t ∈ db.tasks, reviveGuard db call t ∧ t' = revivedTask db seed call now t) ∨
      (t' ∈ db.tasks ∧ ¬ reviveGuard db call t') :=
  Table.update_cases h

/-- With no failed task to revive, a revival delivered again inserts no run: the task it revived
before is live. -/
theorem revivalRunInsert_of_live {call : RetryCall} (h : Inv db) :
    revivalRunInsert db seed call = some db := by
  unfold revivalRunInsert
  split
  · rfl
  · rename_i f hf
    have hp := List.find?_some hf
    simp only [decide_eq_true_eq] at hp
    have hmem := List.mem_of_find?_eq_some hf
    have hlive : f.state.Live := h.stamped.tasks f hmem _ hp.2
    obtain ⟨r, hr, hid, hrl⟩ := (h.settled f hmem).hasLive hlive
    split
    · rfl
    · rename_i p hp
      have hp := List.find?_some hp
      simp only [decide_eq_true_eq] at hp
      exact absurd ⟨r, hr, h.toOwned.runOwnedByTask hr hmem hid, hrl⟩ hp.2.2

section Revive

variable {call : RetryCall} {t : Task} {top : ℤ}

variable (seed call now) in
/-- The counters a revival leaves account for one run more. -/
theorem RetryAdmits.counted (h : RetryAdmits db t) (htop : topOrdinal db t = some top)
    (hc : t.Counted) :
    (revivedTask db seed call now t).Counted ∧
      top + 1 = (revivedTask db seed call now t).attempts + t.infraRetries + 1 ∧
      top + 1 ≤ MAX_RUN_ORDINAL := by
  have hcharged : retryCharged db t = some (top - t.infraRetries) := by
    unfold retryCharged
    rw [htop]
    rfl
  have hattempts : (revivedTask db seed call now t).attempts = top - t.infraRetries := by
    unfold revivedTask
    simp only [hcharged, Option.getD_some]
  obtain ⟨charge, hcharge, hone⟩ := h.chargeIsTheAttemptsOrOneMore
  obtain ⟨charge', hcharge', hle⟩ := h.chargeWithinBudget
  rw [hcharged] at hcharge hcharge'
  obtain rfl := Option.some.inj hcharge
  obtain rfl := Option.some.inj hcharge'
  have hinc := h.budgetTakesOneMore
  obtain ⟨⟨hlo, hhi⟩, ⟨hmlo, hmhi⟩, ⟨hilo, hihi⟩, _⟩ := hc
  simp only [storedIncrementableInteger, attemptsBounds, maxAttemptsBounds, infraRetriesBounds,
    MAX_COUNT, INFRA_RETRY_CAP] at *
  refine ⟨⟨?_, ?_, ⟨hilo, hihi⟩, fun _ => ?_⟩, ?_, ?_⟩
  · rw [hattempts]
    simp only [IntegerBounds.Within, attemptsBounds, MAX_COUNT]
    omega
  · simp only [IntegerBounds.Within, maxAttemptsBounds, MAX_COUNT, revivedTask]
    omega
  · rw [hattempts]
    simp only [revivedTask]
    omega
  · rw [hattempts]
    omega
  · simp only [MAX_RUN_ORDINAL, MAX_COUNT, INFRA_RETRY_CAP]
    omega

/-- The run of a revival follows the top run of the failed task. -/
theorem revivalRunInsert_revived {db' : Db} (h : Inv db) (ht : t ∈ db.tasks)
    (hg : reviveGuard db call t) (hord : Ordinals db t.taskId top)
    (hrun : revivalRunInsert (reviveCas db seed call now) seed call = some db') :
    ∃ (runs : Table Run Run.keys), ∃ p ∈ db.runs, runOwnedByTask p t ∧ p.attempt = top ∧
      (∀ r, r ∈ runs ↔ r ∈ db.runs ∨
        r = revivalRun seed call.runId (revivedTask db seed call now t) p) ∧
      db' = { reviveCas db seed call now with runs } := by
  have hmem : revivedTask db seed call now t ∈ (reviveCas db seed call now).tasks :=
    Table.mem_update_of_pos (f := ⟨revivedTask db seed call now, fun _ => rfl⟩) ht hg
  have hruns : (reviveCas db seed call now).runs = db.runs := rfl
  have htop : topOrdinal db t = some top := topOrdinal_eq h.toOwned ht hord
  unfold revivalRunInsert at hrun
  split at hrun
  · rename_i hnone
    have := List.find?_eq_none.mp hnone _ hmem
    simp [revivedTask, hg.1] at this
  · rename_i f hf
    have hp := List.find?_some hf
    simp only [decide_eq_true_eq] at hp
    have hfmem : f ∈ (reviveCas db seed call now).tasks := List.mem_of_find?_eq_some hf
    obtain rfl : f = revivedTask db seed call now t :=
      Db.task_unique hfmem hmem (hp.1.trans hg.1.symm)
    split at hrun
    · rename_i hnone
      obtain ⟨r, hr, hid, hat⟩ := (hord.2 top).mpr ⟨hord.1, le_refl top⟩
      have := List.find?_eq_none.mp hnone r hr
      simp only [decide_eq_true_eq] at this
      have hown : runOwnedByTask r t := h.toOwned.runOwnedByTask hr ht hid
      exact absurd ⟨hown, htop.trans (congrArg some hat.symm),
        hg.2.2.hasNoLiveRun⟩ this
    · rename_i p hp
      have hparent := List.find?_some hp
      simp only [decide_eq_true_eq] at hparent
      obtain ⟨runs, hins, rfl⟩ := Option.map_eq_some_iff.mp hrun
      have hat : p.attempt = top := Option.some.inj (hparent.2.1.symm.trans htop)
      exact ⟨runs, p, List.mem_of_find?_eq_some hp, hparent.1, hat, (Table.insert?_eq_some hins).2,
        rfl⟩

/-- A failed task with its budget raised and one run more keeps everything. -/
theorem Inv.revive {p : Run} {runs : Table Run Run.keys} (h : Inv db) (ht : t ∈ db.tasks)
    (hg : reviveGuard db call t) (hord : Ordinals db t.taskId top)
    (hruns : ∀ r, r ∈ runs ↔ r ∈ db.runs ∨ r = p) (hpid : p.taskId = t.taskId)
    (hpq : p.queue = t.queue) (hpat : p.attempt = top + 1) (hpst : p.state = .pending)
    (hps : p.fenceStamp = some ⟨seed, .run⟩) :
    Inv { reviveCas db seed call now with runs } := by
  obtain ⟨hid, hq, hadmits⟩ := hg
  obtain ⟨hcounted, htopcount, hbound⟩ := hadmits.counted seed now call
    (topOrdinal_eq h.toOwned ht hord) (h.settled t ht).counted
  have hthe : ∀ s ∈ db.tasks, reviveGuard db call s → s = t := fun s hs hgs =>
    db.task_unique hs ht (hgs.1.trans hid.symm)
  -- The failed task's runs have all failed.
  have hdead : ∀ r ∈ db.runs, r.taskId = t.taskId → r.state = .failed := by
    intro r hr hrid
    by_contra hne
    exact hne ((h.mirror r hr t ht hrid hne).symm.trans hadmits.failed)
  have hcases : ∀ s ∈ (reviveCas db seed call now).tasks,
      s = revivedTask db seed call now t ∨ (s ∈ db.tasks ∧ s.taskId ≠ t.taskId) := by
    intro s hs
    obtain ⟨s₀, hs₀, hgs, rfl⟩ | ⟨hs, hno⟩ := reviveCas_cases hs
    · exact Or.inl (by rw [hthe s₀ hs₀ hgs])
    · refine Or.inr ⟨hs, fun he => hno ?_⟩
      rw [db.task_unique hs ht he]
      exact ⟨hid, hq, hadmits⟩
  have hmem : revivedTask db seed call now t ∈ (reviveCas db seed call now).tasks :=
    Table.mem_update_of_pos (f := ⟨revivedTask db seed call now, fun _ => rfl⟩) ht
      ⟨hid, hq, hadmits⟩
  -- The task is opened, one run is put on top of it, and it is closed again over that run.
  have hopen : UnitsBut t.taskId top (reviveCas db seed call now) := by
    refine (h.toUnits.but hord).of_rel (.refl (fun r => ⟨.refl r, fun _ => .refl r⟩) _)
      (.update (fun s hs hgs => ⟨⟨rfl, rfl⟩, fun hne => ?_⟩) fun s _ _ => ⟨.refl s, fun _ => .refl s⟩)
    exact absurd (congrArg Task.taskId (hthe s hs hgs)) hne
  have hpushed : UnitsBut t.taskId (top + 1) { reviveCas db seed call now with runs } :=
    hopen.push hruns rfl ⟨_, hmem, hpid.symm, hpq.symm⟩ hpid hpat hbound
  have hunits : Units { reviveCas db seed call now with runs } := by
    refine hpushed.succeed ((hruns p).mpr (Or.inr rfl)) hpid (by simp [hpst]) hpat
      (fun s hs hsid => ?_) fun r hr hrid hl => ?_
    · obtain rfl | ⟨_, hne⟩ := hcases s hs
      · exact ⟨trivial, hcounted, htopcount⟩
      · exact absurd hsid hne
    · rcases (hruns r).mp hr with hr | rfl
      · simp [hdead r hr hrid] at hl
      · rfl
  refine ⟨⟨⟨hunits, fun w hw => ?_, ⟨fun r hr s hs => ?_, fun s hs stamp hstamp => ?_⟩,
    ⟨fun c hc => ?_, h.phased.marker, fun s hs => ?_⟩⟩, fun r hr s hs hrid hne => ?_⟩, h.quiet,
    fun s hs hl => ?_⟩
  · obtain ⟨⟨r, hr, hp⟩, htimeout⟩ := h.held w hw
    exact ⟨⟨r, (hruns r).mpr (Or.inl hr), hp⟩, htimeout⟩
  · rcases (hruns r).mp hr with hr | rfl
    · exact h.stamped.runs r hr s hs
    · obtain rfl := Option.some.inj (hps.symm.trans hs)
      exact hpst
  · obtain rfl | ⟨hs, _⟩ := hcases s hs
    · obtain rfl := Option.some.inj hstamp
      exact trivial
    · exact h.stamped.tasks s hs stamp hstamp
  · obtain ⟨s, hs, hsid⟩ := h.phased.owner c hc
    by_cases he : s.taskId = t.taskId
    · exact ⟨_, hmem, he.symm.trans hsid⟩
    · refine ⟨s, Table.mem_update_of_neg hs fun hgs => he (congrArg Task.taskId (hthe s hs hgs)),
        hsid⟩
  · obtain rfl | ⟨hs, hne⟩ := hcases s hs
    -- The guard revives no task whose saga began.
    · exact .of_live trivial fun hsaga => absurd hsaga hadmits.sagaNotBegun
    · exact (h.phased.tasks s hs).push hruns (hpid ▸ hne.symm) Iff.rfl id
  · obtain rfl | ⟨hs, hsne⟩ := hcases s hs
    · rcases (hruns r).mp hr with hr | rfl
      · exact absurd (hdead r hr hrid) hne
      · exact hpst.symm
    · rcases (hruns r).mp hr with hr | rfl
      · exact h.mirror r hr s hs hrid hne
      · exact absurd (hrid.symm.trans hpid) hsne
  · obtain rfl | ⟨hs, _⟩ := hcases s hs
    · exact absurd trivial hl
    · exact h.recorded s hs hl

end Revive

/-- A revival that goes through starts the failed task again with one run more, or does nothing. -/
theorem retryTask_cases {call : RetryCall} (h : Inv db)
    (hrun : retryTask seed call now db = some out) :
    (out.db = db ∧ out.won = none ∧ ∀ t ∈ db.tasks, ¬ reviveGuard db call t) ∨
      ∃ t ∈ db.tasks, reviveGuard db call t ∧ ∃ (runs : Table Run Run.keys), ∃ p ∈ db.runs,
        runOwnedByTask p t ∧ topOrdinal db t = some p.attempt ∧
        (∀ r, r ∈ runs ↔ r ∈ db.runs ∨
          r = revivalRun seed call.runId (revivedTask db seed call now t) p) ∧
        out.db = { reviveCas db seed call now with runs } ∧ out.won = some .revive := by
  obtain ⟨db', hdb', hout⟩ := Option.bind_eq_some_iff.mp hrun
  obtain rfl := Option.some.inj hout
  by_cases hg : ∃ t ∈ db.tasks, reviveGuard db call t
  · obtain ⟨t, ht, hgt⟩ := hg
    obtain ⟨top, hord, _⟩ := (h.settled t ht).band
    obtain ⟨runs, p, hp, hown, rfl, hruns, rfl⟩ := revivalRunInsert_revived h ht hgt hord hdb'
    exact Or.inr ⟨t, ht, hgt, runs, p, hp, hown, topOrdinal_eq h.toOwned ht hord, hruns, rfl,
      if_pos ⟨t, ht, hgt⟩⟩
  · have hcas : reviveCas db seed call now = db :=
      updateTasks_of_forall_not fun t ht hgt => hg ⟨t, ht, hgt⟩
    rw [hcas, revivalRunInsert_of_live h] at hdb'
    obtain rfl := Option.some.inj hdb'
    exact Or.inl ⟨rfl, if_neg hg, fun t ht hgt => hg ⟨t, ht, hgt⟩⟩

/-- A revival keeps the invariant, delivered once or again. -/
theorem retryTask_inv {call : RetryCall} (h : Inv db)
    (hrun : retryTask seed call now db = some out) : Inv out.db := by
  obtain ⟨hdb, _⟩ | ⟨t, ht, hg, runs, p, _, _, htop, hruns, hdb, _⟩ := retryTask_cases h hrun
  · exact hdb ▸ h
  · obtain ⟨top, hord, _⟩ := (h.settled t ht).band
    obtain rfl := Option.some.inj (htop.symm.trans (topOrdinal_eq h.toOwned ht hord))
    rw [hdb]
    exact h.revive ht hg hord hruns rfl rfl rfl rfl rfl

end Durablerun
