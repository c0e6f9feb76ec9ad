import Durablerun.Store.PurgedUnits
import Durablerun.Store.SpawnCalls

/-!
# A spawn is idempotent

However spawns, purges and every other batch interleave, a key of a queue is held by one task at most,
a call under a key is answered with a task that held it, and a child is created once for its parent and
its call site: the row that holds the key stands until a purge, and the barrier lets that purge through
only when the parent can never spawn again.

Reference: `packages/core/src/statements/spawn.ts`.
-/

namespace Durablerun

open Js Relational

variable {s s' : Purging} {b : Batch} {seed queue taskId : String} {now : ℤ} {db db' : Db}
  {call : Call}

/-! ## Rows and their keys -/

/-- No batch changes a task's key. -/
theorem Task.Moved.key {t t' : Task} (h : Task.Moved seed now db call t t') :
    t'.idempotencyKey = t.idempotencyKey := by
  induction h with
  | refl => rfl
  | tail _ hturn ih =>
    obtain ⟨v, _, _, hmove, rfl⟩ := hturn
    refine Eq.trans ?_ ih
    cases hmove with
    | booked | started | followed | completed | rollingBack | retrying | failed | infraRetried
    | cancelled | revived => rfl

/-- Two tasks of a queue that hold one key are one task. -/
theorem Db.task_unique_key {t t' : Task} {key : String} (ht : t ∈ db.tasks) (ht' : t' ∈ db.tasks)
    (hqueue : t.queue = t'.queue) (hkey : t.idempotencyKey = some key)
    (hkey' : t'.idempotencyKey = some key) : t = t' := by
  refine Table.eq_of_key (k := .idem t.queue key) ht ht' ?_ ?_
  · rw [Task.keys, hkey]
    exact List.mem_cons_of_mem _ List.mem_cons_self
  · rw [Task.keys, hkey', hqueue]
    exact List.mem_cons_of_mem _ List.mem_cons_self

/-- A task that holds the key is in the way of another. -/
theorem Db.key_taken {t u : Task} {key : String} (ht : t ∈ db.tasks) (hqueue : t.queue = u.queue)
    (hkey : t.idempotencyKey = some key) (hkey' : u.idempotencyKey = some key) :
    ¬ db.tasks.Free u := by
  intro hfree
  refine hfree.2 (.idem t.queue key) ?_ (Table.mem_heldKeys.mpr ⟨t, ht, ?_⟩)
  · rw [Task.keys, hkey', hqueue]
    exact List.mem_cons_of_mem _ List.mem_cons_self
  · rw [Task.keys, hkey]
    exact List.mem_cons_of_mem _ List.mem_cons_self

/-- A child's key names its parent. -/
theorem SpawnCall.Keyed.parent {call : SpawnCall} {p : ParentClaim} {key : String}
    (h : call.Keyed) (hparent : call.parent = some p) (hkey : call.idempotencyKey = some key) :
    spawningParent (some (utf16 key)) = .known (some (utf16 p.taskId)) := by
  obtain ⟨opts, hstored, hnames⟩ := h
  rw [hparent, hkey] at *
  obtain ⟨childOf, stored, hchild, hstored, hstring, rfl⟩ | ⟨hchild, -⟩ :=
    spawnIdempotencyKey_cases hstored
  · rw [hchild] at hnames
    rw [Option.map_some] at hstored
    rw [hstored, spawningParent_childSpawnKey hstring]
    exact congrArg (fun id => SpawningParent.known id) hnames
  · rw [hchild] at hnames
    cases hnames

/-! ## Deliveries that created a task -/

/-- What a spawn's delivery that won found, and what it left. -/
theorem Delivery.Spawns.guard {e : Delivery} {call : SpawnCall} (h : e.Spawns call) :
    spawnGuard e.before e.now call ∧
      e.before.tasks.Free (call.task e.batch.seed e.now) := by
  obtain ⟨⟨out, hrun, hwon⟩, hcall⟩ := h
  obtain ⟨⟨seed, call'⟩, now, before, after⟩ := e
  obtain rfl : call' = .spawn call := hcall
  obtain ⟨db', hdb', hout⟩ := Option.bind_eq_some_iff.mp hrun
  obtain rfl := Option.some.inj hout
  obtain ⟨won, hwon⟩ := Option.ne_none_iff_exists'.mp hwon
  exact (wonBy_eq_some.mp hwon).1

/-- The delivery created the task of this id. -/
def Delivery.Creates (e : Delivery) (taskId : String) : Prop :=
  ∃ call, e.Spawns call ∧ call.taskId = taskId

/-- The delivery created a child in this queue, for this parent and this call site. -/
def Delivery.CreatesChild (e : Delivery) (queue parentTaskId : String) (replayKey : Str) : Prop :=
  ∃ call p, e.Spawns call ∧ call.queue = queue ∧ call.parent = some p ∧ p.taskId = parentTaskId ∧
    call.idempotencyKey.map utf16 = some (childSpawnKey (utf16 parentTaskId) replayKey)

/-- The task can never run again while its row stands. -/
def Db.Dead (db : Db) (taskId : String) : Prop :=
  ∀ t ∈ db.tasks, t.taskId = taskId → t.state = .completed ∨ t.state = .cancelled

/-! ## What holds of every run -/

/-- The row stands, or a purge took it. -/
def Purging.StandsOrPurged (s : Purging) (taskId : String) : Prop :=
  (∃ t ∈ s.db.tasks, t.taskId = taskId) ∨ s.Purged taskId

/-- What the spawns of a run leave in every state it reaches. -/
structure Purging.Spawned (s : Purging) : Prop extends s.Trace where
  after : ∀ e ∈ s.history, s.Seen e.after ∧ e.after = e.batch.after e.now e.before
  keyed : ∀ e ∈ s.history, ∀ call, e.batch.call = .spawn call → call.Keyed
  /-- A row that was there is there, or was purged. -/
  stands : ∀ d, s.Seen d → ∀ t ∈ d.tasks, s.StandsOrPurged t.taskId
  /-- What was purged is gone. -/
  gone : ∀ id, s.Purged id → ∀ t ∈ s.db.tasks, t.taskId ≠ id
  /-- A task is as the spawn that minted its id named it. -/
  origin : ∀ t ∈ s.db.tasks, ∃ e ∈ s.history, ∃ call, e.batch.call = .spawn call ∧
    call.taskId = t.taskId ∧ call.queue = t.queue ∧ call.idempotencyKey = t.idempotencyKey
  /-- A child's key is held, or its parent never spawns again. -/
  child : ∀ e ∈ s.history, ∀ call p key, e.Spawns call → call.parent = some p →
    call.idempotencyKey = some key →
    (∃ t ∈ s.db.tasks, t.queue = call.queue ∧ t.idempotencyKey = some key) ∨ s.db.Dead p.taskId
  once : ∀ id, s.history.Pairwise fun e e' => ¬ (e.Creates id ∧ e'.Creates id)
  onceChild : ∀ queue id replayKey, s.history.Pairwise fun e e' =>
    ¬ (e.CreatesChild queue id replayKey ∧ e'.CreatesChild queue id replayKey)

/-- A system that starts has spawned nothing. -/
theorem Purging.Spawned.init : Purging.Spawned .init where
  toTrace := .init
  after := fun _ he => absurd he List.not_mem_nil
  keyed := fun _ he => absurd he List.not_mem_nil
  stands := fun _ hd t ht => absurd (seen_init hd ▸ ht) (Table.not_mem_empty t)
  gone := fun _ _ t ht => absurd ht (Table.not_mem_empty t)
  origin := fun t ht => absurd ht (Table.not_mem_empty t)
  child := fun _ he => absurd he List.not_mem_nil
  once := fun _ => List.Pairwise.nil
  onceChild := fun _ _ _ => List.Pairwise.nil

/-- A delivery that created a task left it. -/
theorem Delivery.Spawns.mem_after {e : Delivery} {call : SpawnCall} (h : e.Spawns call)
    (hinv : Inv e.before) (hadm : call.Admitted) (hafter : e.after = e.batch.after e.now e.before) :
    call.task e.batch.seed e.now ∈ e.after.tasks := by
  obtain ⟨⟨out, hrun, hwon⟩, hcall⟩ := h
  obtain ⟨⟨seed, call'⟩, now, before, after⟩ := e
  obtain rfl : call' = .spawn call := hcall
  have hout : after = out.db := by
    have hafter : after = ((Batch.run ⟨seed, .spawn call⟩ now before).map Outcome.db).getD before :=
      hafter
    rw [hafter, hrun, Option.map_some, Option.getD_some]
  obtain ⟨-, hnone⟩ | ⟨-, hfree, runs, -, hdb, -⟩ := spawn_cases hadm hinv hrun
  · exact absurd hnone hwon
  · rw [hout, hdb]
    exact (Table.mem_push hfree).mpr (Or.inr rfl)

/-- A delivery that spawned a task created it. -/
theorem Purging.Trace.created (h : s.Trace) {e : Delivery} {call : SpawnCall} (he : e ∈ s.history)
    (hspawns : e.Spawns call) (hafter : e.after = e.batch.after e.now e.before) :
    call.task e.batch.seed e.now ∈ e.after.tasks := by
  have hadm := h.admitted e he
  rw [hspawns.2] at hadm
  exact hspawns.mem_after (h.inv e.before (Or.inl (Or.inr ⟨e, he, rfl⟩))) hadm hafter

/-- A task a batch left is one it found, with its queue and its key, or the task of a spawn. -/
theorem Effect.task_cases (h : Effect seed now db db' call) {t' : Task} (ht' : t' ∈ db'.tasks) :
    (∃ t ∈ db.tasks, Task.Moved seed now db call t t' ∧ t'.taskId = t.taskId ∧
      t'.queue = t.queue ∧ t'.idempotencyKey = t.idempotencyKey) ∨
      ∃ spawned, call = .spawn spawned ∧ spawnGuard db now spawned ∧ t' = spawned.task seed now := by
  obtain ⟨t, ht, hm⟩ | hborn := h.tasks.before t' ht'
  · exact Or.inl ⟨t, ht, hm, hm.same.taskId, hm.same.queue, hm.key⟩
  · cases hborn with
    | spawned hguard => exact Or.inr ⟨_, rfl, hguard, rfl⟩

/-- A task a batch found is there after it, with its queue and its key. -/
theorem Effect.task_kept (h : Effect seed now db db' call) {t : Task} (ht : t ∈ db.tasks) :
    ∃ t' ∈ db'.tasks, t'.taskId = t.taskId ∧ t'.queue = t.queue ∧
      t'.idempotencyKey = t.idempotencyKey := by
  obtain ⟨t', ht', hm⟩ := h.tasks.after t ht
  exact ⟨t', ht', hm.same.taskId, hm.same.queue, hm.key⟩

/-- A task that completed or was cancelled is not revived, and one that is there is not spawned. -/
theorem Db.Dead.effect (hdead : s.db.Dead taskId) (heffect : Effect b.seed now s.db db' b.call)
    (hsends : Spawning b s) (hstands : s.StandsOrPurged taskId) : db'.Dead taskId := by
  intro t' ht' hid
  obtain ⟨t, ht, hm, hsame, -⟩ | ⟨spawned, hcall, hguard, rfl⟩ := heffect.task_cases ht'
  · have hstate := hdead t ht (hsame.symm.trans hid)
    have hended : ¬ t.state.Live := by
      rcases hstate with hs | hs <;> simp [hs]
    obtain rfl | ⟨retry, -, hrevives⟩ := hm.of_ended hended
    · exact hstate
    · have hfailed := hrevives.2.2.failed
      rcases hstate with hs | hs <;> cases hs.symm.trans hfailed
  · obtain ⟨t, ht, htid⟩ | hpurged := hstands
    · exact absurd ⟨t, ht, htid.trans hid.symm⟩ hguard.1.1
    · have hid : spawned.taskId = taskId := hid
      rw [← hid] at hpurged
      exact absurd hpurged (hsends spawned hcall).2

/-! ## A batch -/

/-- A new task is of no id a delivery up to now created. -/
theorem Purging.Spawned.not_created (h : s.Spawned) (hsends : Spawning b s)
    (hnew : (s.toSys.delivery b now).Creates taskId) : ∀ e ∈ s.history, ¬ e.Creates taskId := by
  obtain ⟨call, hspawns, rfl⟩ := hnew
  rintro e he ⟨sent, hsent, hid⟩
  have hrow := h.created he hsent (h.after e he).2
  obtain ⟨t, ht, htid⟩ | hpurged := h.stands e.after (h.after e he).1 _ hrow
  · exact hspawns.guard.1.1.1 ⟨t, ht, htid.trans hid⟩
  · have hid : (sent.task e.batch.seed e.now).taskId = call.taskId := hid
    rw [hid] at hpurged
    exact (hsends call hspawns.2).2 hpurged

/-- A new child is of no parent and call site that had one. -/
theorem Purging.Spawned.not_createdChild (h : s.Spawned) {parentTaskId : String} {replayKey : Str}
    (hnew : (s.toSys.delivery b now).CreatesChild queue parentTaskId replayKey) :
    ∀ e ∈ s.history, ¬ e.CreatesChild queue parentTaskId replayKey := by
  obtain ⟨call, p, hspawns, rfl, hparent, rfl, hkey⟩ := hnew
  rintro e he ⟨sent, p', hsent, hqueue, hparent', hid, hkey'⟩
  obtain ⟨key, hkeyed, hstored⟩ := Option.map_eq_some_iff.mp hkey
  obtain ⟨key', hkeyed', hstored'⟩ := Option.map_eq_some_iff.mp hkey'
  obtain rfl : key = key' := by
    rw [← text_utf16 key, hstored, ← hstored', text_utf16]
  obtain ⟨t, ht, htqueue, htkey⟩ | hdead := h.child e he sent p' key hsent hparent' hkeyed'
  · exact Db.key_taken ht (htqueue.trans hqueue) htkey hkeyed hspawns.guard.2
  · obtain ⟨⟨r, hr, -, hrid, t, ht, hown, hl⟩, -⟩ := hspawns.guard.1.2.2.2 p hparent
    have hstate := hdead t ht (hown.1.trans (hrid.trans hid.symm))
    rcases hstate with hs | hs <;> simp [hs] at hl

/-- A delivery keeps what holds of the spawns. -/
theorem Purging.Spawned.deliver (h : s.Spawned) (hadm : b.call.Admitted s.Seen)
    (hown : s.Fresh b.seed ∨ (s.Delivered b ∧ b.call.Repeatable))
    (hmints : ∀ e ∈ s.history, ∀ id ∈ b.call.minted, id ∈ e.batch.call.minted →
      e.batch.call = b.call ∧ b.call.Repeatable) (hsends : Spawning b s) :
    (s.deliver b now).Spawned := by
  have heffect := (h.effect hadm (hown.imp_right And.right) now).1
  have hseen := seen_deliver s b now
  -- A task that stands is kept by every batch, and what was purged stays so.
  have hstands : ∀ id, s.StandsOrPurged id → (s.deliver b now).StandsOrPurged id := by
    rintro id (⟨t, ht, rfl⟩ | hpurged)
    · obtain ⟨t', ht', hid, -⟩ := heffect.task_kept ht
      exact Or.inl ⟨t', ht', hid⟩
    · exact Or.inr hpurged
  constructor
  case toTrace => exact h.toTrace.deliver hadm hown hmints
  case after =>
    intro e he
    obtain rfl | he := List.mem_cons.mp he
    · exact ⟨(hseen _).mpr (Or.inl rfl), rfl⟩
    · exact ⟨(hseen _).mpr (Or.inr (h.after e he).1), (h.after e he).2⟩
  case keyed =>
    intro e he call hcall
    obtain rfl | he := List.mem_cons.mp he
    · exact (hsends call hcall).1
    · exact h.keyed e he call hcall
  case stands =>
    intro d hd t ht
    obtain rfl | hd := (hseen d).mp hd
    · exact Or.inl ⟨t, ht, rfl⟩
    · exact hstands t.taskId (h.stands d hd t ht)
  -- No batch brings a purged task back: a spawn mints an id that was not purged.
  case gone =>
    intro id hpurged t' ht'
    obtain ⟨t, ht, -, hid, -⟩ | ⟨spawned, hcall, -, rfl⟩ := heffect.task_cases ht'
    · rw [hid]
      exact h.gone id hpurged t ht
    · rintro rfl
      exact (hsends spawned hcall).2 hpurged
  case origin =>
    intro t' ht'
    obtain ⟨t, ht, -, hid, hqueue, hkey⟩ | ⟨spawned, hcall, -, rfl⟩ := heffect.task_cases ht'
    · obtain ⟨e, he, call, hcall, hnames⟩ := h.origin t ht
      refine ⟨e, List.mem_cons_of_mem _ he, call, hcall, ?_⟩
      rwa [hid, hqueue, hkey]
    · exact ⟨_, List.mem_cons_self, spawned, hcall, rfl, rfl, rfl⟩
  case child =>
    intro e he call p key hspawns hparent hkey
    obtain rfl | he := List.mem_cons.mp he
    · obtain ⟨seed, call'⟩ := b
      obtain rfl : call' = .spawn call := hspawns.2
      have hinv := h.inv s.db (Or.inl (Or.inl rfl))
      exact Or.inl ⟨_, hspawns.mem_after hinv hadm rfl, rfl, hkey⟩
    · obtain ⟨t, ht, hqueue, hheld⟩ | hdead := h.child e he call p key hspawns hparent hkey
      · obtain ⟨t', ht', -, hqueue', hkey'⟩ := heffect.task_kept ht
        exact Or.inl ⟨t', ht', hqueue'.trans hqueue, hkey'.trans hheld⟩
      -- The parent stood when the spawn won, so by now it stands or was purged.
      · refine Or.inr (hdead.effect heffect hsends ?_)
        obtain ⟨⟨r, hr, -, hrid, t, ht, hown, -⟩, -⟩ := hspawns.guard.1.2.2.2 p hparent
        rw [← hrid, ← hown.1]
        exact h.stands e.before (Or.inl (Or.inr ⟨e, he, rfl⟩)) t ht
  case once =>
    exact fun id => List.pairwise_cons.mpr
      ⟨fun e he hboth => h.not_created hsends hboth.1 e he hboth.2, h.once id⟩
  case onceChild =>
    exact fun queue id replayKey => List.pairwise_cons.mpr
      ⟨fun e he hboth => h.not_createdChild hboth.1 e he hboth.2, h.onceChild queue id replayKey⟩

/-! ## A purge -/

/-- The barrier lets a child go only when its parent can never spawn again. -/
theorem PurgeBarrier.dead {unit : PurgeUnitBinds} {t : Task} (h : PurgeBarrier db now unit t)
    (hparent : unit.parentTaskId = some (utf16 taskId)) : db.Dead taskId := by
  intro p hp hid
  have hcannot : ¬ (p.state.Live ∨ p.state = .failed) := by
    intro hcan
    refine h.parentCannotRunAgain ⟨p, hp, ?_, hcan⟩
    rw [hparent, hid]
  rw [not_or] at hcannot
  cases hstate : p.state <;> simp [hstate] at hcannot ⊢

/-- A purge keeps what holds of the spawns. -/
theorem Purging.Spawned.purge (h : s.Spawned) (hfresh : s.Fresh seed) (target : PurgeUnitTarget)
    (policy : RetentionPolicy) : (s.purge seed queue target policy now).Spawned := by
  have hunused := h.unused seed hfresh s.db (Or.inl (Or.inl rfl))
  have hseen := seen_purge s seed queue target policy now
  have hsub : ∀ t ∈ (purgeUnit seed queue target policy now s.db).2.tasks, t ∈ s.db.tasks := by
    intro t ht
    obtain hsame | hwithout := purge_db hunused target policy
    · rwa [hsame] at ht
    · rw [hwithout] at ht
      exact (mem_without_tasks.mp ht).1
  have hstands : ∀ id, s.StandsOrPurged id →
      (s.purge seed queue target policy now).StandsOrPurged id := by
    rintro id (hrow | ⟨p, hp, htook⟩)
    · by_cases hleft : ∃ t ∈ (purgeUnit seed queue target policy now s.db).2.tasks, t.taskId = id
      · exact Or.inl hleft
      · exact Or.inr ⟨_, List.mem_cons_self, hrow, fun t ht hid => hleft ⟨t, ht, hid⟩⟩
    · exact Or.inr ⟨p, List.mem_cons_of_mem _ hp, htook⟩
  constructor
  case toTrace => exact h.toTrace.purge hfresh target policy
  case after => exact fun e he => ⟨(hseen _).mpr (Or.inr (h.after e he).1), (h.after e he).2⟩
  case keyed => exact h.keyed
  case stands =>
    intro d hd t ht
    obtain rfl | hd := (hseen d).mp hd
    · exact Or.inl ⟨t, ht, rfl⟩
    · exact hstands t.taskId (h.stands d hd t ht)
  case gone =>
    rintro id ⟨p, hp, hrow, hleft⟩ t ht
    obtain rfl | hp := List.mem_cons.mp hp
    · exact hleft t ht
    · exact h.gone id ⟨p, hp, hrow, hleft⟩ t (hsub t ht)
  case origin => exact fun t ht => h.origin t (hsub t ht)
  case child =>
    intro e he call p key hspawns hparent hkey
    obtain ⟨t, ht, hqueue, hheld⟩ | hdead := h.child e he call p key hspawns hparent hkey
    · obtain ⟨unit, hbinds, ⟨t₁, ht₁, hbarrier⟩, hpurge⟩ | hsame | ⟨_, _, hsame⟩ :=
        purgeUnit_cases hunused queue target policy now
      -- A child of a known parent is purged after its parent alone: the barrier found no row of it.
      · by_cases hid : t.taskId = target.taskId
        · obtain rfl : t₁ = t := s.db.task_unique ht₁ ht
            ((hbarrier.taskId.trans (PurgeUnitTarget.binds_unit hbinds).2.1).trans hid.symm)
          have hnames := PurgeUnitTarget.binds_parent hbinds
          rw [← hbarrier.spawnedUnderThisKey, hheld, Option.map_some,
            (h.keyed e he call hspawns.2).parent hparent hkey] at hnames
          have hdead := hbarrier.dead (SpawningParent.known.inj hnames).symm
          exact Or.inr fun t' ht' => hdead t' (hsub t' ht')
        · refine Or.inl ⟨t, ?_, hqueue, hheld⟩
          show t ∈ (purgeUnit seed queue target policy now s.db).2.tasks
          rw [hpurge]
          exact mem_without_tasks.mpr ⟨ht, hid⟩
      · refine Or.inl ⟨t, ?_, hqueue, hheld⟩
        show t ∈ (purgeUnit seed queue target policy now s.db).2.tasks
        rwa [hsame]
      · refine Or.inl ⟨t, ?_, hqueue, hheld⟩
        show t ∈ (purgeUnit seed queue target policy now s.db).2.tasks
        rwa [hsame]
    · exact Or.inr fun t ht => hdead t (hsub t ht)
  case once => exact h.once
  case onceChild => exact h.onceChild

/-- What every state of a run with purges knows of its spawns. -/
theorem PurgingReachable.spawned (h : PurgingReachable Spawning s) : s.Spawned := by
  induction h with
  | init => exact .init
  | step _ hstep ih =>
    cases hstep with
    | first b now _ hfresh _ hmints hadm hsends =>
      refine ih.deliver hadm (Or.inl hfresh) (fun e he id hid hid' => ?_) hsends
      obtain ⟨sent, hcall, hcall'⟩ := hmints e he id hid hid'
      exact ⟨hcall'.trans hcall.symm, hcall ▸ trivial⟩
    | again b now _ hdelivered hrepeats hsends =>
      obtain ⟨e, he, rfl⟩ := hdelivered
      exact ih.deliver (ih.admitted e he) (Or.inr ⟨⟨e, he, rfl⟩, hrepeats⟩)
        (fun e' he' id hid hid' => ⟨ih.mints e' he' e he id hid' hid, hrepeats⟩) hsends
    | purge seed queue target policy now _ hfresh => exact ih.purge hfresh target policy

/-! ## The answers -/

/-- One task came to be, with its first run and no other. -/
structure TaskInserted (db db' : Db) (t : Task) (r : Run) : Prop where
  new : ∀ u ∈ db.tasks, u.taskId ≠ t.taskId
  tasks : ∀ u, u ∈ db'.tasks ↔ u ∈ db.tasks ∨ u = t
  runs : ∀ p, p ∈ db'.runs ↔ p ∈ db.runs ∨ p = r
  owned : runOwnedByTask r t
  ordinal : r.attempt = 1
  only : ∀ p ∈ db'.runs, p.taskId = t.taskId → p = r

/-- No task came to be. -/
def NoneInserted (db db' : Db) : Prop := ∀ t' ∈ db'.tasks, ∃ t ∈ db.tasks, t.taskId = t'.taskId

/-- A batch inserts one task with its first run, or none. -/
theorem Purging.Trace.inserts (h : s.Trace) (hadm : b.call.Admitted s.Seen)
    (hown : s.Fresh b.seed ∨ b.call.Repeatable) :
    NoneInserted s.db (b.after now s.db) ∨ ∃ t r, TaskInserted s.db (b.after now s.db) t r := by
  by_cases hspawn : ∃ call, b.call = .spawn call
  · obtain ⟨call, hcall⟩ := hspawn
    obtain ⟨seed, call'⟩ := b
    obtain rfl : call' = .spawn call := hcall
    obtain he | ⟨out, hrun, he⟩ := Batch.after_cases ⟨seed, .spawn call⟩ now s.db
    · rw [he]
      exact Or.inl fun t ht => ⟨t, ht, rfl⟩
    · rw [he]
      obtain ⟨hdb, -⟩ | ⟨hguard, hfree, runs, hruns, hdb, -⟩ :=
        spawn_cases hadm (h.inv s.db (Or.inl (Or.inl rfl))) hrun
      · rw [hdb]
        exact Or.inl fun t ht => ⟨t, ht, rfl⟩
      · rw [hdb]
        refine Or.inr ⟨_, _, fun u hu hid => hguard.1.1 ⟨u, hu, hid⟩, fun u => Table.mem_push hfree,
          hruns, ⟨rfl, rfl⟩, rfl, fun p hp hid => ?_⟩
        obtain hp | rfl := (hruns p).mp hp
        · exact absurd ⟨p, hp, hid⟩ hguard.1.2
        · rfl
  · refine Or.inl fun t' ht' => ?_
    obtain ⟨t, ht, -, hid, -⟩ | ⟨call, hcall, -⟩ := (h.effect hadm hown now).1.task_cases ht'
    · exact ⟨t, ht, hid.symm⟩
    · exact absurd ⟨call, hcall⟩ hspawn

/-- A step inserts no task, or one task with its first run. -/
theorem PurgingReachable.inserts (h : PurgingReachable Spawning s) (hstep : PurgingStep Spawning s s') :
    NoneInserted s.db s'.db ∨ ∃ t r, TaskInserted s.db s'.db t r := by
  have htrace := h.trace
  cases hstep with
  | first b now _ hfresh _ _ hadm => exact htrace.inserts hadm (Or.inl hfresh)
  | again b now _ hdelivered hrepeats =>
    obtain ⟨e, he, rfl⟩ := hdelivered
    exact htrace.inserts (htrace.admitted e he) (Or.inr hrepeats)
  | purge seed queue target policy now _ hfresh =>
    refine Or.inl fun t ht => ⟨t, ?_, rfl⟩
    have ht : t ∈ (purgeUnit seed queue target policy now s.db).2.tasks := ht
    obtain hsame | hwithout :=
      Purging.purge_db (htrace.unused seed hfresh s.db (Or.inl (Or.inl rfl))) target policy
    · rwa [hsame] at ht
    · rw [hwithout] at ht
      exact (mem_without_tasks.mp ht).1

/-- What comes later in a run with purges is reachable. -/
theorem PurgingReachable.later (h : PurgingReachable Spawning s) (hlater : Spawning.Later s s') :
    PurgingReachable Spawning s' := by
  induction hlater with
  | refl => exact h
  | tail _ hstep ih => exact ih.step hstep

/-- A later history has every delivery of an earlier one. -/
theorem history_kept (hlater : Spawning.Later s s') : ∀ e ∈ s.history, e ∈ s'.history := by
  induction hlater with
  | refl => exact fun _ he => he
  | tail _ hstep ih =>
    cases hstep with
    | first | again => exact fun e he => List.mem_cons_of_mem _ (ih e he)
    | purge => exact ih

/-- The receipt names a task of the database it was read from, one of its winners. -/
theorem mem_of_spawnReceiptRead {call : SpawnCall} {id : String} {runId : Option String}
    (h : spawnReceiptRead db call = some (id, runId)) :
    ∃ t ∈ db.tasks, spawnWinner call t ∧ t.taskId = id := by
  obtain ⟨t, hhead, hrow⟩ := Option.map_eq_some_iff.mp h
  have hmem := (List.mem_insertionSort _).mp (List.mem_of_head? hhead)
  obtain ⟨ht, hwinner⟩ := List.mem_filter.mp hmem
  exact ⟨t, ht, of_decide_eq_true hwinner, (Prod.mk.inj hrow).1⟩

/-- A send that is answered names a task that holds the call's key, as it landed or as its receipt was
read. -/
theorem PurgingReachable.send (h : PurgingReachable Spawning s) {call : SpawnCall}
    {result : SpawnResult} (hsend : SpawnSend s s' call (.result result)) :
    (∃ u, Spawning.Later s u ∧ Spawning.Later u s' ∧ ∃ t ∈ u.db.tasks, t.taskId = result.taskId ∧
      t.queue = call.queue ∧ t.idempotencyKey = call.idempotencyKey) ∧
    (result.created = true → result.taskId = call.taskId ∧ ∃ e ∈ s'.history, e.Spawns call) := by
  obtain ⟨seed, now, out, hstep, hrun, hlater, hanswer⟩ := hsend
  have hreach := (h.step hstep).later hlater
  have hnew : s.toSys.delivery ⟨seed, .spawn call⟩ now ∈
      (s.deliver ⟨seed, .spawn call⟩ now).history := List.mem_cons_self
  have hlanded := history_kept hlater _ hnew
  unfold spawnOnce at hanswer
  split at hanswer
  · rename_i hwon
    obtain rfl := SpawnAnswer.result.inj hanswer
    have hspawns : (s.toSys.delivery ⟨seed, .spawn call⟩ now).Spawns call := by
      refine ⟨⟨out, hrun, ?_⟩, rfl⟩
      rw [hwon]
      exact Option.some_ne_none _
    refine ⟨⟨_, .single hstep, hlater, call.task seed now, ?_, rfl, rfl, rfl⟩,
      fun _ => ⟨rfl, _, hlanded, hspawns⟩⟩
    exact (h.step hstep).trace.created hnew hspawns rfl
  · split at hanswer
    · rename_i id runId hread
      obtain rfl := SpawnAnswer.result.inj hanswer
      refine ⟨⟨s', (Relation.ReflTransGen.single hstep).trans hlater, .refl, ?_⟩,
        fun hcreated => absurd hcreated Bool.false_ne_true⟩
      obtain ⟨t, ht, ⟨hid, hqueue⟩ | ⟨-, hqueue, hkey, -⟩, htask⟩ := mem_of_spawnReceiptRead hread
      · obtain ⟨e, he, sent, hsent, hsentId, -, hsentKey⟩ := hreach.spawned.origin t ht
        have hcalls := hreach.trace.mints e he _ hlanded call.taskId
          (by rw [hsent, ← hid, ← hsentId]; exact List.mem_cons_self) List.mem_cons_self
        obtain rfl := Call.spawn.inj (hsent.symm.trans hcalls)
        exact ⟨t, ht, htask, hqueue, hsentKey.symm⟩
      · exact ⟨t, ht, htask, hqueue, hkey⟩
    · split at hanswer <;> cases hanswer

/-- Spawns are idempotent in every run of spawns, purges and every other batch. -/
theorem spawn_idempotent (h : PurgingReachable Spawning s) :
    (∀ t ∈ s.db.tasks, ∀ t' ∈ s.db.tasks, t.queue = t'.queue → t.idempotencyKey ≠ none →
      t'.idempotencyKey = t.idempotencyKey → t = t') ∧
    (∀ s' call result, SpawnReturns s s' call result →
      (∀ key, call.idempotencyKey = some key → ∃ u, Spawning.Later s u ∧ Spawning.Later u s' ∧
        ∃ t ∈ u.db.tasks, t.taskId = result.taskId ∧ t.queue = call.queue ∧
          t.idempotencyKey = some key) ∧
      (result.created = true → result.taskId = call.taskId ∧ ∃ e ∈ s'.history, e.Spawns call)) ∧
    (∀ id, s.history.Pairwise fun e e' => ¬ (e.Creates id ∧ e'.Creates id)) ∧
    (∀ s', PurgingStep Spawning s s' →
      NoneInserted s.db s'.db ∨ ∃ t r, TaskInserted s.db s'.db t r) ∧
    (∀ e ∈ s.history, ∀ call p, e.Spawns call → call.parent = some p →
      stillClaimed e.before p.queue p.runId p.taskId p.claimToken (fun t => t.state.Live) ∧
        ¬ sagaBegan e.before p.taskId) ∧
    ∀ queue parentTaskId replayKey, s.history.Pairwise fun e e' =>
      ¬ (e.CreatesChild queue parentTaskId replayKey ∧
        e'.CreatesChild queue parentTaskId replayKey) := by
  refine ⟨fun t ht t' ht' hqueue hkeyed hkey => ?_, fun s' call result hreturns => ?_,
    h.spawned.once, fun s' => h.inserts,
    fun e _ call p hspawns hparent => hspawns.guard.1.2.2.2 p hparent, h.spawned.onceChild⟩
  · obtain ⟨key, hheld⟩ := Option.ne_none_iff_exists'.mp hkeyed
    exact s.db.task_unique_key ht ht' hqueue hheld (hkey.trans hheld)
  · obtain hsend | ⟨u, v, hfirst, hlater, hsend⟩ := hreturns
    · obtain ⟨hnames, hcreated⟩ := h.send hsend
      refine ⟨fun key hkey => ?_, hcreated⟩
      rwa [hkey] at hnames
    · obtain ⟨seed, now, out, hstep, -, hlater', -⟩ := hfirst
      have hmeanwhile : Spawning.Later s v :=
        ((Relation.ReflTransGen.single hstep).trans hlater').trans hlater
      obtain ⟨⟨w, hvw, hws, hnames⟩, hcreated⟩ := (h.later hmeanwhile).send hsend
      refine ⟨fun key hkey => ⟨w, hmeanwhile.trans hvw, hws, ?_⟩, hcreated⟩
      rwa [hkey] at hnames

/-! Two callers spawn under one key. The second is answered with the task of the first. -/

/-- A spawn under the key `k`. -/
def keyedSpawn (taskId runId : String) : SpawnCall where
  queue := "q"
  taskId := taskId
  runId := runId
  taskName := "job"
  params := "null"
  headers := none
  retryStrategy := .none
  maxAttempts := 2
  cancellation := none
  idempotencyKey := some "k"
  delayMs := 0
  parent := none

def keyedOne : Purging := Purging.init.deliver ⟨"b1", .spawn (keyedSpawn "t1" "r1")⟩ 0

def keyedTwo : Purging := keyedOne.deliver ⟨"b2", .spawn (keyedSpawn "t2" "r2")⟩ 1

/-- A spawn under a key is one that may be sent. -/
theorem keyedSpawn_spawning {s : Purging} {seed taskId runId : String} (h : s.purges = []) :
    Spawning ⟨seed, .spawn (keyedSpawn taskId runId)⟩ s := by
  rintro call hcall
  obtain rfl := Call.spawn.inj hcall
  have hkey : spawnIdempotencyKey ⟨some (utf16 "k"), none⟩ = .ok (some (utf16 "k")) := by decide
  refine ⟨⟨⟨some (utf16 "k"), none⟩, hkey, rfl⟩, ?_⟩
  rintro ⟨p, hp, -⟩
  rw [h] at hp
  cases hp

/-- The store with one keyed task is reachable. -/
theorem keyedOne_reachable : PurgingReachable Spawning keyedOne :=
  .step .init (.first _ _ (by decide) (by decide) (by decide)
    (Purging.mints_of_disjoint (by decide)) ⟨by decide, by decide⟩ (keyedSpawn_spawning rfl))

/-- A second spawn under the key of a task that is there inserts none. -/
theorem spawn_idempotent_keyedTwo :
    ∃ u, Spawning.Later keyedOne u ∧ Spawning.Later u keyedTwo ∧
      ∃ t ∈ u.db.tasks, t.taskId = "t1" ∧ t.queue = "q" ∧ t.idempotencyKey = some "k" := by
  have hstep : PurgingStep Spawning keyedOne keyedTwo :=
    .first ⟨"b2", .spawn (keyedSpawn "t2" "r2")⟩ 1 (by decide) (by decide) (by decide)
      (Purging.mints_of_disjoint (by decide)) ⟨by decide, by decide⟩ (keyedSpawn_spawning rfl)
  have hsend : SpawnSend keyedOne keyedTwo (keyedSpawn "t2" "r2")
      (.result ⟨"t1", some "r1", false⟩) :=
    ⟨"b2", 1, ⟨keyedOne.db, none⟩, hstep, rfl, .refl, by decide⟩
  exact ((spawn_idempotent keyedOne_reachable).2.1 _ _ _ (Or.inl hsend)).1 "k" rfl

end Durablerun
