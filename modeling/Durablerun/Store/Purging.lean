import Durablerun.Store.EndInstants
import Durablerun.Store.PurgeTheorems

/-!
# A store that is purged

Batches and purges share one store. A caller mints the ids its batch adds rows under, and no two calls
mint one id: a spawn that is sent again goes out under the ids of its first send. What a caller read
may be of a unit that was purged since, so an answer is sound here by what the stamps and the ids of
the rows say of each other, and no longer because the row that was read is still there.

Reference: `packages/core/src/statements/purge.ts`.
-/

namespace Durablerun

open Relational

/-! ## Steps and runs -/

/-- One delivery of a purge: what it was sent with, its instant, the database it met, and the one it
left. -/
structure PurgeDelivery where
  seed : String
  queue : String
  target : PurgeUnitTarget
  policy : RetentionPolicy
  now : ℤ
  before : Db
  after : Db

/-- The store, the deliveries of its batches, and those of its purges, the last ones first. -/
structure Purging extends Sys where
  purges : List PurgeDelivery

/-- The store after a migration. -/
def Purging.init : Purging := ⟨.init, []⟩

/-- The database was the store's at some moment up to now. -/
def Purging.Seen (s : Purging) (d : Db) : Prop :=
  s.toSys.Seen d ∨ ∃ p ∈ s.purges, p.before = d

/-- The delivery of a batch at an instant. -/
def Purging.deliver (s : Purging) (b : Batch) (now : ℤ) : Purging :=
  { s.toSys.deliver b now with purges := s.purges }

/-- The delivery of a purge at an instant. -/
def Purging.purge (s : Purging) (seed queue : String) (target : PurgeUnitTarget)
    (policy : RetentionPolicy) (now : ℤ) : Purging :=
  let after := (purgeUnit seed queue target policy now s.db).2
  { db := after
    clock := now
    history := s.history
    purges := ⟨seed, queue, target, policy, now, s.db, after⟩ :: s.purges }

/-- The ids a call minted. -/
def Call.minted : Call → List String
  | .spawn call => [call.taskId, call.runId]
  | call => call.nextRunId.toList

/-- No other call minted an id of this one's. -/
def Purging.Mints (s : Purging) (call : Call) : Prop :=
  ∀ e ∈ s.history, ∀ id ∈ call.minted, id ∈ e.batch.call.minted →
    ∃ sent, call = .spawn sent ∧ e.batch.call = .spawn sent

/-- A call whose ids none of the deliveries minted mints its own. -/
theorem Purging.mints_of_disjoint {s : Purging} {call : Call}
    (h : ∀ e ∈ s.history, ∀ id ∈ call.minted, id ∉ e.batch.call.minted) : s.Mints call :=
  fun e he id hid hid' => absurd hid' (h e he id hid)

/-- One step: a batch of a seed of its own, a repeatable batch delivered again, or a purge, under a
seed of no batch. A purge is sent whenever and as often as its caller likes, and a batch where its
caller sends it. -/
inductive PurgingStep (sends : Batch → Purging → Prop) (s : Purging) : Purging → Prop
  | first (b : Batch) (now : ℤ) (hclock : s.clock ≤ now) (hfresh : s.Fresh b.seed)
      (hpurges : ∀ p ∈ s.purges, p.seed ≠ b.seed) (hmints : s.Mints b.call)
      (hadm : b.call.Admitted s.Seen) (hsends : sends b s) : PurgingStep sends s (s.deliver b now)
  | again (b : Batch) (now : ℤ) (hclock : s.clock ≤ now) (hdelivered : s.Delivered b)
      (hrepeats : b.call.Repeatable) (hsends : sends b s) : PurgingStep sends s (s.deliver b now)
  | purge (seed queue : String) (target : PurgeUnitTarget) (policy : RetentionPolicy) (now : ℤ)
      (hclock : s.clock ≤ now) (hfresh : s.Fresh seed) :
      PurgingStep sends s (s.purge seed queue target policy now)

/-- The states any finite sequence of steps reaches. -/
inductive PurgingReachable (sends : Batch → Purging → Prop) : Purging → Prop
  | init : PurgingReachable sends .init
  | step {s s' : Purging} (h : PurgingReachable sends s) (hstep : PurgingStep sends s s') :
      PurgingReachable sends s'

/-! ## What rows of two moments say of each other -/

/-- The call minted the run, and where it may be delivered again, it says of which task. -/
def Call.MintedRun (call : Call) (runId taskId : String) : Prop :=
  runId ∈ call.minted ∧
    match call with
    | .spawn call => call.taskId = taskId
    | .retryTask call => call.taskId = taskId
    | _ => True

/-- A checkpoint is owned by a run of its task. -/
def CheckpointsOwned (db : Db) : Prop :=
  ∀ c ∈ db.checkpoints, ∃ r ∈ db.runs, r.runId = c.ownerRunId ∧ r.taskId = c.taskId

/-- What holds of a purged store in every state a run reaches. -/
structure Purging.Trace (s : Purging) : Prop where
  inv : ∀ d, s.Seen d → Inv d
  owned : CheckpointsOwned s.db
  /-- Every stamp is of a batch that was delivered. -/
  unused : ∀ seed, s.Fresh seed → ∀ d, s.Seen d → Unused d seed
  /-- No two batches share a seed. -/
  unique : ∀ e ∈ s.history, ∀ e' ∈ s.history, e.batch.seed = e'.batch.seed → e.batch = e'.batch
  /-- No two calls mint one id. -/
  mints : ∀ e ∈ s.history, ∀ e' ∈ s.history, ∀ id ∈ e.batch.call.minted,
    id ∈ e'.batch.call.minted → e.batch.call = e'.batch.call
  /-- Every run is of a batch that was delivered. -/
  minted : ∀ d, s.Seen d → ∀ r ∈ d.runs, ∃ e ∈ s.history, e.batch.call.MintedRun r.runId r.taskId
  /-- A run's task never changes. -/
  runs : ∀ d, s.Seen d → ∀ r ∈ d.runs, ∀ r' ∈ s.db.runs, r'.runId = r.runId → r'.taskId = r.taskId
  /-- Every delivered batch was admitted. -/
  admitted : ∀ e ∈ s.history, e.batch.call.Admitted s.Seen
  /-- No repeatable batch ended a task. -/
  ended : ∀ d, s.Seen d → ∀ t ∈ d.tasks, ¬ t.state.Live → ∀ stamp ∈ t.fenceStamp,
    ∀ e ∈ s.history, e.batch.seed = stamp.seed → ¬ e.batch.call.Repeatable
  /-- A task that carries the stamp it ended under has ended. -/
  stale : ∀ d, s.Seen d → ∀ c ∈ d.tasks, ¬ c.state.Live → ∀ t ∈ s.db.tasks, t.taskId = c.taskId →
    t.fenceStamp = c.fenceStamp → ¬ t.state.Live
  /-- An ended task carries the instant of the delivery that ended it. -/
  endedAt : ∀ t ∈ s.db.tasks, ¬ t.state.Live →
    ∃ e ∈ s.history, e.Ends t.taskId ∧ t ∈ e.after.tasks ∧ e.now = t.fenceAtMs

variable {sends : Batch → Purging → Prop} {s s' : Purging} {b : Batch} {seed queue taskId : String}
  {now : ℤ} {db db' : Db} {call : Call}

/-- A system that starts has seen the empty store. -/
theorem Purging.seen_init {d : Db} (h : Purging.init.Seen d) : d = .empty := by
  obtain (rfl | ⟨e, he, _⟩) | ⟨p, hp, _⟩ := h
  · rfl
  · cases he
  · cases hp

/-- What a system that starts has seen. -/
theorem Purging.Trace.init : Purging.Trace .init where
  inv := by
    intro d hd
    rw [seen_init hd]
    exact .empty
  owned := fun c hc => absurd hc (Table.not_mem_empty c)
  unused := by
    intro seed _ d hd
    rw [seen_init hd]
    exact ⟨fun r hr => absurd hr (Table.not_mem_empty r),
      fun t ht => absurd ht (Table.not_mem_empty t)⟩
  unique := fun _ he => absurd he List.not_mem_nil
  mints := fun _ he => absurd he List.not_mem_nil
  minted := fun d hd r hr => absurd (seen_init hd ▸ hr) (Table.not_mem_empty r)
  runs := fun d hd r hr => absurd (seen_init hd ▸ hr) (Table.not_mem_empty r)
  admitted := fun _ he => absurd he List.not_mem_nil
  ended := fun d hd t ht => absurd (seen_init hd ▸ ht) (Table.not_mem_empty t)
  stale := fun d hd t ht => absurd (seen_init hd ▸ ht) (Table.not_mem_empty t)
  endedAt := fun t ht => absurd ht (Table.not_mem_empty t)

/-! ## What a caller may rely on -/

/-- What was read of a run's task is so, wherever that run still is. -/
theorem Purging.Trace.answered (h : s.Trace) {runId : String} (hread : RunRead s.Seen runId taskId) :
    Answered s.db runId taskId := by
  obtain ⟨d, hd, r, hr, hid, htask⟩ := hread
  intro r' hr' hid'
  rw [h.runs d hd r hr r' hr' (hid'.trans hid.symm), htask]

/-- What a caller was let to send is sound whenever it is delivered, except that the row of a child
whose outcome was read may be of a task that lives. -/
theorem Purging.Trace.sound (h : s.Trace) (hadm : call.Admitted s.Seen)
    (hcall : ∀ record, call ≠ .recordTaskDone record) : call.Sound s.db := by
  cases call with
  | recordTaskDone record => exact absurd rfl (hcall record)
  | spawn call => exact hadm
  | awaitEvent call => exact hadm
  | complete held id result => exact h.answered hadm
  | failInto failure => exact ⟨hadm.1, h.answered hadm.2⟩
  | sweepLostLaunch swept => exact h.answered hadm
  | sweepClaimTimeout swept => exact h.answered hadm
  | claim | activate | heartbeat | deferLaunch | reschedule | suspendRun | emitEvent | setCheckpoint
  | cancelTransition | retryTask | expireLeaseNow => trivial

/-- The outcome of a child that was read as ended is there, wherever its row still is the one read. -/
theorem Purging.Trace.record (h : s.Trace) {record : RecordTaskDoneCall}
    (hadm : (Call.recordTaskDone record).Admitted s.Seen) (seed : String) (now : ℤ) :
    recordTaskDone seed record now s.db = ⟨s.db, none⟩ := by
  obtain ⟨d, hd, c, hc, hid, _, hstamp, hl⟩ := hadm
  refine recordTaskDone_eq_of_stamped record fun t ht htid htstamp => ?_
  have hended := h.stale d hd c hc hl t ht (htid.trans hid.symm) (htstamp.trans hstamp.symm)
  rw [← htid]
  exact (h.inv s.db (Or.inl (Or.inl rfl))).recorded t ht hended

/-! ## One batch -/

/-- A task a batch ended carries its stamp, and only a batch that ends tasks leaves one. -/
theorem Task.Moved.ended_stamp {t t' : Task} (hm : Task.Moved seed now db call t t')
    (hended : ¬ t'.state.Live) :
    t' = t ∨ (call.Ends ∧ ∃ name, t'.fenceStamp = some ⟨seed, name⟩) := by
  cases hm with
  | refl => exact Or.inl rfl
  | tail _ hturn =>
    obtain ⟨v, name, _, hmove, rfl⟩ := hturn
    exact Or.inr ⟨hmove.ends hended, name, rfl⟩

/-- A task a batch left is as it was, or carries its stamp. -/
theorem Effect.task_stamp (h : Effect seed now db db' call) {t' : Task} (ht' : t' ∈ db'.tasks) :
    t' ∈ db.tasks ∨ ∃ name, t'.fenceStamp = some ⟨seed, name⟩ := by
  obtain ⟨t, ht, hm⟩ | hborn := h.tasks.before t' ht'
  · cases hm with
    | refl => exact Or.inl ht
    | tail _ hturn =>
      obtain ⟨v, name, _, _, rfl⟩ := hturn
      exact Or.inr ⟨name, rfl⟩
  · cases hborn with
    | spawned => exact Or.inr ⟨_, rfl⟩

/-- A run a batch left was there, or is of a call that minted its id. -/
theorem Effect.run_minted (h : Effect seed now db db' call) {r' : Run} (hr' : r' ∈ db'.runs) :
    (∃ r ∈ db.runs, r'.runId = r.runId ∧ r'.taskId = r.taskId) ∨
      call.MintedRun r'.runId r'.taskId := by
  obtain ⟨r, hr, rfl | hm⟩ | hborn := h.runs.before r' hr'
  · exact Or.inl ⟨_, hr, rfl, rfl⟩
  · exact Or.inl ⟨r, hr, hm.same.runId, hm.same.taskId⟩
  · refine Or.inr ?_
    cases hborn with
    | first hguard => exact ⟨List.mem_cons_of_mem _ List.mem_cons_self, rfl⟩
    | followed _ _ hplaces _ _ hnext =>
      cases call with
      | failInto | sweepLostLaunch | sweepClaimTimeout =>
        exact ⟨Option.mem_toList.mpr hnext, trivial⟩
      | spawn | claim | activate | heartbeat | deferLaunch | reschedule | suspendRun | awaitEvent
      | recordTaskDone | emitEvent | setCheckpoint | complete | cancelTransition | retryTask
      | expireLeaseNow => exact hplaces.elim
    | revived _ hguard => exact ⟨List.mem_cons_self, hguard.1.symm⟩

/-- A batch that may be delivered again says of which task the run is whose id it minted. -/
theorem Call.MintedRun.task_eq {runId id id' : String} (hrepeats : call.Repeatable)
    (h : call.MintedRun runId id) (h' : call.MintedRun runId id') : id' = id := by
  obtain ⟨hrun, htask⟩ := h
  obtain ⟨-, htask'⟩ := h'
  cases call with
  | spawn call => exact htask'.symm.trans htask
  | retryTask call => exact htask'.symm.trans htask
  | claim | activate | heartbeat | awaitEvent | recordTaskDone => exact absurd hrun List.not_mem_nil
  | deferLaunch | reschedule | suspendRun | emitEvent | setCheckpoint | complete | failInto
  | sweepLostLaunch | sweepClaimTimeout | cancelTransition | expireLeaseNow => exact hrepeats.elim

/-- A checkpoint's owner is a run of its task after every batch. -/
theorem CheckpointsOwned.effect (h : CheckpointsOwned db) (heffect : Effect seed now db db' call) :
    CheckpointsOwned db' := by
  have hkept : ∀ r ∈ db.runs, ∃ r' ∈ db'.runs, r'.runId = r.runId ∧ r'.taskId = r.taskId := by
    intro r hr
    obtain ⟨r', hr', rfl | hm⟩ := heffect.runs.after r hr
    · exact ⟨_, hr', rfl, rfl⟩
    · exact ⟨r', hr', hm.same.runId, hm.same.taskId⟩
  have hwritten : ∀ f write c, Checkpoint.Write seed now db db' call f write → WrittenBy f write c →
      ∃ r ∈ db'.runs, r.runId = c.ownerRunId ∧ r.taskId = c.taskId := by
    intro f write c hwrite hby
    rw [hby.ownerRunId, hby.taskId]
    cases hwrite with
    | suspended hr | leased hr | tried hr => exact hkept f hr
    | entered hr => exact ⟨f, hr, rfl, rfl⟩
  intro c' hc'
  obtain ⟨c, hc, rfl | ⟨f, write, hwrite, hby, -⟩⟩ | ⟨f, write, hwrite, hby, -⟩ :=
    heffect.checkpoints.before c' hc'
  · obtain ⟨r, hr, hid, htask⟩ := h _ hc
    obtain ⟨r', hr', hid', htask'⟩ := hkept r hr
    exact ⟨r', hr', hid'.trans hid, htask'.trans htask⟩
  · exact hwritten f write c' hwrite hby
  · exact hwritten f write c' hwrite hby

/-- A call that may be repeated ends no run. -/
theorem Call.Repeatable.not_ends (h : call.Repeatable) : ¬ call.Ends := by
  cases call with
  | spawn | claim | activate | heartbeat | awaitEvent | recordTaskDone | retryTask => exact id
  | deferLaunch | reschedule | suspendRun | emitEvent | setCheckpoint | complete | failInto
  | sweepLostLaunch | sweepClaimTimeout | cancelTransition | expireLeaseNow => exact h.elim

/-- A call that may be repeated leaves what a second delivery needs. -/
theorem Call.Repeatable.left (h : b.call.Repeatable) : b.Left db := by
  obtain ⟨seed, call⟩ := b
  cases call with
  | spawn | claim | activate | heartbeat | awaitEvent | recordTaskDone | retryTask => trivial
  | deferLaunch | reschedule | suspendRun | emitEvent | setCheckpoint | complete | failInto
  | sweepLostLaunch | sweepClaimTimeout | cancelTransition | expireLeaseNow => exact h.elim

/-- A batch of a seed of its own, or a repeatable one, has its effect in a purged store. -/
theorem Purging.Trace.effect (h : s.Trace) (hadm : b.call.Admitted s.Seen)
    (hown : s.Fresh b.seed ∨ b.call.Repeatable) (now : ℤ) :
    Effect b.seed now s.db (b.after now s.db) b.call ∧ Inv (b.after now s.db) := by
  have hinv := h.inv s.db (Or.inl (Or.inl rfl))
  obtain he | ⟨out, hrun, he⟩ := b.after_cases now s.db
  · rw [he]
    exact ⟨.refl b.seed now s.db b.call, hinv⟩
  · rw [he]
    by_cases hrecord : ∃ record, b.call = .recordTaskDone record
    · obtain ⟨record, hrecord⟩ := hrecord
      have hsame : out.db = s.db := by
        obtain ⟨seed, call⟩ := b
        obtain rfl : call = .recordTaskDone record := hrecord
        rw [← Option.some.inj hrun, h.record hadm]
      rw [hsame]
      exact ⟨.refl b.seed now s.db b.call, hinv⟩
    · have hsound := h.sound hadm fun record hcall => hrecord ⟨record, hcall⟩
      rcases hown with hfresh | hrepeats
      · have hunused := h.unused b.seed hfresh s.db (Or.inl (Or.inl rfl))
        exact ⟨Batch.effect hinv hunused hsound hrun,
          (Batch.run_inv hsound hinv (b.left_of_unstamped hunused.runs)
            (b.spares_of_unstamped hunused.runs) hrun).1⟩
      · exact ⟨Batch.effect_of_repeatable hinv hrepeats hsound hrun,
          (Batch.run_inv hsound hinv hrepeats.left hrepeats.spares hrun).1⟩

/-! ## Every step keeps what holds -/

/-- A delivery adds the state it leaves to what was seen. -/
theorem Purging.seen_deliver (s : Purging) (b : Batch) (now : ℤ) (d : Db) :
    (s.deliver b now).Seen d ↔ d = b.after now s.db ∨ s.Seen d := by
  constructor
  · rintro ((rfl | ⟨e, he, rfl⟩) | hpurged)
    · exact Or.inl rfl
    · obtain rfl | he := List.mem_cons.mp he
      · exact Or.inr (Or.inl (Or.inl rfl))
      · exact Or.inr (Or.inl (Or.inr ⟨e, he, rfl⟩))
    · exact Or.inr (Or.inr hpurged)
  · rintro (rfl | (rfl | ⟨e, he, rfl⟩) | hpurged)
    · exact Or.inl (Or.inl rfl)
    · exact Or.inl (Or.inr ⟨_, List.mem_cons_self, rfl⟩)
    · exact Or.inl (Or.inr ⟨e, List.mem_cons_of_mem _ he, rfl⟩)
    · exact Or.inr hpurged

/-- A purge adds the state it leaves to what was seen. -/
theorem Purging.seen_purge (s : Purging) (seed queue : String) (target : PurgeUnitTarget)
    (policy : RetentionPolicy) (now : ℤ) (d : Db) :
    (s.purge seed queue target policy now).Seen d ↔
      d = (purgeUnit seed queue target policy now s.db).2 ∨ s.Seen d := by
  constructor
  · rintro ((rfl | hbatch) | ⟨p, hp, rfl⟩)
    · exact Or.inl rfl
    · exact Or.inr (Or.inl (Or.inr hbatch))
    · obtain rfl | hp := List.mem_cons.mp hp
      · exact Or.inr (Or.inl (Or.inl rfl))
      · exact Or.inr (Or.inr ⟨p, hp, rfl⟩)
  · rintro (rfl | (rfl | hbatch) | ⟨p, hp, rfl⟩)
    · exact Or.inl (Or.inl rfl)
    · exact Or.inr ⟨_, List.mem_cons_self, rfl⟩
    · exact Or.inl (Or.inr hbatch)
    · exact Or.inr ⟨p, List.mem_cons_of_mem _ hp, rfl⟩

/-- A delivery that keeps what holds: an admitted batch, of a seed of its own or repeatable, of a
call that minted its ids, and no other of its seed. -/
theorem Purging.Trace.deliver (h : s.Trace) (hadm : b.call.Admitted s.Seen)
    (hown : s.Fresh b.seed ∨ (s.Delivered b ∧ b.call.Repeatable))
    (hmints : ∀ e ∈ s.history, ∀ id ∈ b.call.minted, id ∈ e.batch.call.minted →
      e.batch.call = b.call ∧ b.call.Repeatable) :
    (s.deliver b now).Trace := by
  obtain ⟨heffect, hinv⟩ := h.effect hadm (hown.imp_right And.right) now
  -- A second delivery of the batch is the batch itself: no other batch has its seed.
  have hone : ∀ e ∈ s.history, e.batch.seed = b.seed → e.batch = b := by
    intro e he hseed
    rcases hown with hfresh | ⟨⟨e', he', rfl⟩, -⟩
    · exact absurd hseed (hfresh e he)
    · exact h.unique e he e' he' hseed
  -- No row that a database up to now held as ended carries the seed.
  have hnever : ∀ d, s.Seen d → ∀ t ∈ d.tasks, ¬ t.state.Live →
      ∀ name, t.fenceStamp ≠ some ⟨b.seed, name⟩ := by
    intro d hd t ht hl name hstamp
    rcases hown with hfresh | ⟨⟨e, he, rfl⟩, hrepeats⟩
    · exact (h.unused b.seed hfresh d hd).tasks t ht _ hstamp rfl
    · exact h.ended d hd t ht hl _ hstamp e he rfl hrepeats
  have hseen := seen_deliver s b now
  constructor
  case inv =>
    intro d hd
    obtain rfl | hd := (hseen d).mp hd
    · exact hinv
    · exact h.inv d hd
  case owned => exact h.owned.effect heffect
  case unused =>
    intro σ hσ d hd
    have hfresh : s.Fresh σ := fun e he => hσ e (List.mem_cons_of_mem _ he)
    obtain rfl | hd := (hseen d).mp hd
    · exact heffect.unused (fun hs => hσ _ List.mem_cons_self hs.symm)
        (h.unused σ hfresh s.db (Or.inl (Or.inl rfl)))
    · exact h.unused σ hfresh d hd
  case unique =>
    intro e he e' he' hs
    rcases List.mem_cons.mp he with rfl | he <;> rcases List.mem_cons.mp he' with rfl | he'
    · rfl
    · exact (hone e' he' hs.symm).symm
    · exact hone e he hs
    · exact h.unique e he e' he' hs
  case mints =>
    intro e he e' he' id hid hid'
    rcases List.mem_cons.mp he with rfl | he <;> rcases List.mem_cons.mp he' with rfl | he'
    · rfl
    · exact (hmints e' he' id hid hid').1.symm
    · exact (hmints e he id hid' hid).1
    · exact h.mints e he e' he' id hid hid'
  case minted =>
    intro d hd r hr
    obtain rfl | hd := (hseen d).mp hd
    · obtain ⟨r₀, hr₀, hid, htask⟩ | hnew := heffect.run_minted hr
      · obtain ⟨e, he, hminted⟩ := h.minted s.db (Or.inl (Or.inl rfl)) r₀ hr₀
        exact ⟨e, List.mem_cons_of_mem _ he, hid ▸ htask ▸ hminted⟩
      · exact ⟨_, List.mem_cons_self, hnew⟩
    · obtain ⟨e, he, hminted⟩ := h.minted d hd r hr
      exact ⟨e, List.mem_cons_of_mem _ he, hminted⟩
  case runs =>
    intro d hd r hr r' hr' hid
    obtain rfl | hd := (hseen d).mp hd
    · rw [(b.after now s.db).run_unique hr' hr hid]
    -- A run the batch inserted has an id it minted, and only a repeatable batch mints it again.
    · obtain ⟨r₀, hr₀, hid₀, htask₀⟩ | hnew := heffect.run_minted hr'
      · rw [htask₀]
        exact h.runs d hd r hr r₀ hr₀ (hid₀.symm.trans hid)
      · obtain ⟨e, he, hminted⟩ := h.minted d hd r hr
        obtain ⟨hcall, hrepeats⟩ := hmints e he r'.runId hnew.1 (hid ▸ hminted.1)
        rw [hcall] at hminted
        exact hminted.task_eq hrepeats (hid ▸ hnew)
  case admitted =>
    intro e he
    rcases List.mem_cons.mp he with rfl | he
    · exact hadm.mono fun d hd => (hseen d).mpr (Or.inr hd)
    · exact (h.admitted e he).mono fun d hd => (hseen d).mpr (Or.inr hd)
  case ended =>
    intro d hd t ht hl stamp hstamp e he hseed
    have hold : ∀ d, s.Seen d → t ∈ d.tasks → ¬ e.batch.call.Repeatable := by
      intro d hd ht
      rcases List.mem_cons.mp he with rfl | he
      · exact absurd (hseed ▸ hstamp) (hnever d hd t ht hl stamp.statement)
      · exact h.ended d hd t ht hl stamp hstamp e he hseed
    obtain rfl | hd := (hseen d).mp hd
    · obtain ⟨t₀, ht₀, hm⟩ | hborn := heffect.tasks.before t ht
      · obtain rfl | ⟨hends, name, hname⟩ := hm.ended_stamp hl
        · exact hold s.db (Or.inl (Or.inl rfl)) ht₀
        · obtain rfl := Option.some.inj (hname.symm.trans hstamp)
          have hbatch : e.batch = b := by
            rcases List.mem_cons.mp he with rfl | he
            · rfl
            · exact hone e he hseed
          rw [hbatch]
          exact fun hrepeats => hrepeats.not_ends hends
      · exact absurd hborn.live hl
    · exact hold d hd ht
  case stale =>
    intro d hd c hc hl t ht hid hstamp
    obtain rfl | hd := (hseen d).mp hd
    · rwa [(b.after now s.db).task_unique ht hc hid]
    · obtain ht | ⟨name, hname⟩ := heffect.task_stamp ht
      · exact h.stale d hd c hc hl t ht hid hstamp
      · exact absurd (hstamp.symm.trans hname) (hnever d hd c hc hl name)
  case endedAt =>
    intro t ht hl
    have hold : t ∈ s.db.tasks → ∃ e ∈ s.toSys.delivery b now :: s.history, e.Ends t.taskId ∧
        t ∈ e.after.tasks ∧ e.now = t.fenceAtMs := by
      intro ht
      obtain ⟨e, he, hends⟩ := h.endedAt t ht hl
      exact ⟨e, List.mem_cons_of_mem _ he, hends⟩
    obtain ⟨t₀, ht₀, hm⟩ | hborn := heffect.tasks.before t ht
    · obtain rfl | ⟨hends, name, hname⟩ := hm.ended_stamp hl
      · exact hold ht₀
      -- A batch that ends a task is not repeatable, so its seed is its own and its stamp is new.
      · have hfresh : s.Fresh b.seed :=
          hown.resolve_right fun hagain => hagain.2.not_ends hends
        obtain hafter | ⟨out, hrun, hafter⟩ := b.after_cases now s.db
        · exact hold (hafter ▸ ht)
        · obtain hlive | rfl := hm.ended hl
          · have hunused := h.unused b.seed hfresh s.db (Or.inl (Or.inl rfl))
            have hnow := Batch.ended_now hunused hends hrun (hafter ▸ ht) hl hname
            exact ⟨_, List.mem_cons_self, ⟨⟨t₀, ht₀, hm.same.taskId.symm, hlive⟩, t, ht, rfl, hl⟩,
              ht, hnow.symm⟩
          · exact hold ht₀
    · exact absurd hborn.live hl

/-- What is left of a purge is the store, or the store without a unit. -/
theorem Purging.purge_db (hunused : Unused s.db seed) (target : PurgeUnitTarget)
    (policy : RetentionPolicy) :
    (purgeUnit seed queue target policy now s.db).2 = s.db ∨
      (purgeUnit seed queue target policy now s.db).2 = s.db.without queue target.taskId := by
  obtain ⟨_, _, _, h⟩ | h | ⟨_, _, h⟩ := purgeUnit_cases hunused queue target policy now
  · exact Or.inr (congrArg Prod.snd h)
  · exact Or.inl (congrArg Prod.snd h)
  · exact Or.inl (congrArg Prod.snd h)

/-- Every checkpoint stays owned through a purge. -/
theorem CheckpointsOwned.without (h : CheckpointsOwned db) :
    CheckpointsOwned (db.without queue taskId) := by
  intro c hc
  obtain ⟨hc, hne⟩ := mem_without_checkpoints.mp hc
  obtain ⟨r, hr, hid, htask⟩ := h c hc
  exact ⟨r, mem_without_runs.mpr ⟨hr, htask ▸ hne⟩, hid, htask⟩

/-- A purge keeps what holds. -/
theorem Purging.Trace.purge (h : s.Trace) (hfresh : s.Fresh seed) (target : PurgeUnitTarget)
    (policy : RetentionPolicy) : (s.purge seed queue target policy now).Trace := by
  have hnow : s.Seen s.db := Or.inl (Or.inl rfl)
  have hseen := seen_purge s seed queue target policy now
  obtain ⟨hinv, howned, hunused, htasks, hruns⟩ :
      Inv (purgeUnit seed queue target policy now s.db).2 ∧
      CheckpointsOwned (purgeUnit seed queue target policy now s.db).2 ∧
      (∀ σ, Unused s.db σ → Unused (purgeUnit seed queue target policy now s.db).2 σ) ∧
      (∀ t ∈ (purgeUnit seed queue target policy now s.db).2.tasks, t ∈ s.db.tasks) ∧
      ∀ r ∈ (purgeUnit seed queue target policy now s.db).2.runs, r ∈ s.db.runs := by
    obtain hsame | hwithout := purge_db (h.unused seed hfresh s.db hnow) target policy
    · rw [hsame]
      exact ⟨h.inv s.db hnow, h.owned, fun _ => id, fun _ => id, fun _ => id⟩
    · rw [hwithout]
      exact ⟨(h.inv s.db hnow).without, h.owned.without, fun _ => .without,
        fun t ht => (mem_without_tasks.mp ht).1, fun r hr => (mem_without_runs.mp hr).1⟩
  constructor
  case inv =>
    intro d hd
    obtain rfl | hd := (hseen d).mp hd
    · exact hinv
    · exact h.inv d hd
  case owned => exact howned
  case unused =>
    intro σ hσ d hd
    obtain rfl | hd := (hseen d).mp hd
    · exact hunused σ (h.unused σ hσ s.db hnow)
    · exact h.unused σ hσ d hd
  case unique => exact h.unique
  case mints => exact h.mints
  case minted =>
    intro d hd r hr
    obtain rfl | hd := (hseen d).mp hd
    · exact h.minted s.db hnow r (hruns r hr)
    · exact h.minted d hd r hr
  case runs =>
    intro d hd r hr r' hr' hid
    obtain rfl | hd := (hseen d).mp hd
    · exact h.runs s.db hnow r (hruns r hr) r' (hruns r' hr') hid
    · exact h.runs d hd r hr r' (hruns r' hr') hid
  case admitted =>
    exact fun e he => (h.admitted e he).mono fun d hd => (hseen d).mpr (Or.inr hd)
  case ended =>
    intro d hd t ht
    obtain rfl | hd := (hseen d).mp hd
    · exact h.ended s.db hnow t (htasks t ht)
    · exact h.ended d hd t ht
  case stale =>
    intro d hd c hc hl t ht
    obtain rfl | hd := (hseen d).mp hd
    · exact h.stale s.db hnow c (htasks c hc) hl t (htasks t ht)
    · exact h.stale d hd c hc hl t (htasks t ht)
  case endedAt => exact fun t ht => h.endedAt t (htasks t ht)

/-- Every state of a run keeps what holds. -/
theorem PurgingReachable.trace (h : PurgingReachable sends s) : s.Trace := by
  induction h with
  | init => exact .init
  | step _ hstep ih =>
    cases hstep with
    | first b now _ hfresh _ hmints hadm =>
      refine ih.deliver hadm (Or.inl hfresh) fun e he id hid hid' => ?_
      obtain ⟨sent, hcall, hcall'⟩ := hmints e he id hid hid'
      exact ⟨hcall'.trans hcall.symm, hcall ▸ trivial⟩
    | again b now _ hdelivered hrepeats =>
      obtain ⟨e, he, rfl⟩ := hdelivered
      exact ih.deliver (ih.admitted e he) (Or.inr ⟨⟨e, he, rfl⟩, hrepeats⟩)
        fun e' he' id hid hid' => ⟨ih.mints e' he' e he id hid' hid, hrepeats⟩
    | purge seed queue target policy now _ hfresh => exact ih.purge hfresh target policy

end Durablerun
