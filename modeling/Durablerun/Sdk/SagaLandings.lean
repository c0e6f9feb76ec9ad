import Durablerun.Sdk.SagaFleet

/-!
# Landings

A saga call that was sent takes effect while its pass holds its run, or not at all. While the pass
holds its run it knows the store's saga, so what it owed is what the store lacks: the marker's index
is past every other, and the rollback is the one of the step that started last.

Reference: `packages/sdk/src/context.ts` and `packages/sdk/src/run-worker.ts`.
-/

namespace Durablerun

open Relational

variable {s : Sys} {b : Batch} {taskId key : String} {index : ℕ} {now : ℤ} {db db' : Db}
  {p q : Pass} {call : SagaCall} {f : Fleet} {won : Bool}

/-! ## A call that landed -/

/-- The pass with the answer to come. -/
def Pass.landed (p : Pass) (call : SagaCall) (b : Batch) (won : Bool) : Pass :=
  { p with sent := some ⟨call, b, some won⟩ }

/-- A call has landed where it was the one delivered, and won. -/
theorem Pass.landed_landed {call' : SagaCall} :
    (p.landed call b won).Landed call' ↔ won = true ∧ call = call' := by
  constructor
  · rintro ⟨b', hsent⟩
    obtain ⟨rfl, _, hwon⟩ := Sent.mk.inj (Option.some.inj hsent)
    exact ⟨Option.some.inj hwon, rfl⟩
  · rintro ⟨rfl, rfl⟩
    exact ⟨b, rfl⟩

/-- A pass stays sound as its call is delivered. -/
theorem Pass.Sound.landed (h : p.Sound) (hsent : p.sent = some ⟨call, b, none⟩) (won : Bool) :
    (p.landed call b won).Sound where
  top := h.top
  positive := h.positive
  bounded := h.bounded
  corruption := h.corruption
  activated := fun hstage => by cases hsent.symm.trans (h.activated hstage)
  asked := fun call' hstage => by
    obtain ⟨x, hx, rfl⟩ := h.asked call' hstage
    obtain rfl := Option.some.inj (hsent.symm.trans hx)
    exact ⟨_, rfl, rfl⟩
  owes := fun x hx => by
    obtain rfl := Option.some.inj hx
    exact h.owes ⟨call, b, none⟩ hsent
  handles := h.handles
  idle := fun _ => h.idle (by simp [hsent])
  carries := fun x hx => by
    obtain rfl := Option.some.inj hx
    obtain ⟨db, hsends⟩ := h.carries ⟨call, b, none⟩ hsent
    exact ⟨db, hsends.congr rfl rfl rfl⟩
  forward := fun x hx => by
    obtain rfl := Option.some.inj hx
    exact h.forward ⟨call, b, none⟩ hsent

/-- A pass reports its saga done when it did before, or when the store took the end of it. -/
theorem Pass.landed_finished (hfinished : (p.landed call b won).Finished) :
    p.stage = .over (some .rolledBack) ∨ won = true ∧ call = .fail :=
  hfinished.imp_right Pass.landed_landed.mp

/-- A pass that awaits an answer is past its read. -/
theorem Pass.Sound.past (h : p.Sound) (hsent : p.sent = some ⟨call, b, none⟩) :
    p.stage ≠ .activated := fun hstage => by
  cases hsent.symm.trans (h.activated hstage)

/-- A call that was not delivered has not landed. -/
theorem not_landed (hsent : p.sent = some ⟨call, b, none⟩) (call' : SagaCall) :
    ¬ p.Landed call' := by
  rintro ⟨b', hsent'⟩
  cases hsent.symm.trans hsent'

/-- What a pass that awaits an answer and holds its run knows is what the store holds. -/
structure Aware (db : Db) (p : Pass) : Prop where
  started : ∀ key index, StartedAt db p.taskId key index ↔ (key, index) ∈ p.ctx.startIndexes
  rolledBack : ∀ key, RolledBack db p.taskId key ↔ key ∈ p.ctx.rolledBack

/-- A pass that holds its claim knows what is stored. -/
theorem PassInv.aware (h : PassInv s p) (hsent : p.sent = some ⟨call, b, none⟩)
    (hheld : p.claim.HeldIn s.db) : Aware s.db p := by
  have hsynced := h.synced (h.past hsent) hheld
  exact ⟨fun key index => (hsynced.started key index).trans (or_iff_left (not_landed hsent _)),
    fun key => (hsynced.rolledBack key).trans (or_iff_left (not_landed hsent _))⟩

/-- The step a pass holds to have started last did. -/
theorem Aware.last (h : Aware db p) (hlast : p.ctx.Last key) : LastStarted db p.taskId key := by
  obtain ⟨index, hmem, hno, hmax⟩ := hlast
  refine ⟨index, (h.started key index).mpr hmem, fun hrolled => hno ((h.rolledBack key).mp hrolled),
    fun key' index' hstarted hno' => ?_⟩
  exact hmax key' index' ((h.started key' index').mp hstarted)
    fun hmem' => hno' ((h.rolledBack key').mpr hmem')

/-- A step the pass holds not to have started has no marker. -/
theorem Aware.free (h : Aware db p) (hread : Readable db) (hno : ¬ p.ctx.Started key) :
    ¬ HasCheckpoint db p.taskId (SAGA_STARTED_PREFIX ++ key) := by
  rintro ⟨c, hc, hid, hname⟩
  obtain ⟨i, hi⟩ := hread.started c hc (hname ▸ namedUnder_append _ _)
  exact hno (List.mem_map.mpr ⟨(key, i), (h.started key i).mp ⟨c, hc, hid, hname, hi⟩, rfl⟩)

/-- Every index stored is below the next one of the pass, when that one can be read. -/
theorem Aware.below (h : Aware db p) (hread : p.ctx.Read)
    (hmax : nextStartIndex p.ctx.topStartIndex ≤ MAX_SAFE_INTEGER)
    (hstarted : StartedAt db p.taskId key index) : index < nextStartIndex p.ctx.topStartIndex := by
  have htop := hread.top key index ((h.started key index).mp hstarted)
  unfold nextStartIndex MAX_SAFE_INTEGER at *
  omega

/-- No step is rolled back before the saga began. -/
theorem Phased.unrolled (h : Phased db) (hno : ¬ sagaBegan db taskId) : ¬ RolledBack db taskId key := by
  rintro ⟨c, hc, hid, hname⟩
  rw [← hid] at hno
  exact hno (h.marker c hc (Or.inl (hname ▸ namedUnder_append _ _)))

/-! ## The passes of a landing -/

section Land

variable {before after : List Pass}

/-- A fleet whose pass `p` had its call delivered, from what the delivery did to the store, to `p` and
to the others. -/
theorem FleetInv.landed (h : FleetInv f) (hpasses : f.passes = before ++ p :: after)
    (hreach : Reachable Repeats (f.sys.deliver b now)) (hread : Readable (b.after now f.sys.db))
    (horder : ∀ taskId, TopDown (b.after now f.sys.db) taskId)
    (hcommitted : ∀ taskId, Committed (f.sys.deliver b now) taskId)
    (hstop : ∀ taskId key, (⟨b, now, f.sys.db, b.after now f.sys.db⟩ : Delivery).StopsAt taskId key →
      Stopped f.sys.db taskId key)
    (hstay : ∀ taskId key index, StartedAt f.sys.db taskId key index →
      StartedAt (b.after now f.sys.db) taskId key index)
    (hp : PassInv (f.sys.deliver b now) (p.landed call b won))
    (hothers : ∀ q ∈ before ++ after, PassInv (f.sys.deliver b now) q) :
    FleetInv ⟨f.sys.deliver b now, before ++ p.landed call b won :: after⟩ where
  reach := hreach
  readable := hread
  order := horder
  committed := hcommitted
  stops := fun e he taskId key hstops => by
    obtain rfl | he := List.mem_cons.mp he
    · exact hstop taskId key hstops
    · exact h.stops e he taskId key hstops
  stays := fun e he taskId key index hstart => by
    obtain rfl | he := List.mem_cons.mp he
    · exact hstay taskId key index hstart
    · exact hstay taskId key index (h.stays e he taskId key index hstart)
  apart := apart_replace (p := p) (hpasses ▸ h.apart) rfl
  passes := forall_replace hothers hp

/-- While a pass holds its run no other pass of its task holds one. -/
theorem FleetInv.others (h : FleetInv f) (hpasses : f.passes = before ++ p :: after)
    (hheld : p.claim.HeldIn f.sys.db) (hq : q ∈ before ++ after) (hheld' : q.claim.HeldIn f.sys.db) :
    q.taskId ≠ p.taskId := by
  intro htask
  have hqs : PassInv f.sys q := h.passes q (hpasses ▸ mem_of_replaced hq)
  have hp : PassInv f.sys p := h.passes p (hpasses ▸ List.mem_append_cons_self)
  exact apart_others (hpasses ▸ h.apart) hq (hqs.alone hp h.course.inv hheld' hheld htask)

/-- A landing that starts no step and rolls none back. -/
theorem FleetInv.quiet (h : FleetInv f) (hpasses : f.passes = before ++ p :: after)
    (hsent : p.sent = some ⟨call, b, none⟩) (hd : Delivers f.sys b now)
    (hreach : Reachable Repeats (f.sys.deliver b now))
    (hstarted : SameUnder SAGA_STARTED_PREFIX f.sys.db (b.after now f.sys.db))
    (hrolled : SameUnder SAGA_ROLLBACK_PREFIX f.sys.db (b.after now f.sys.db))
    (hread : Readable (b.after now f.sys.db))
    (hof : ∀ taskId, (⟨b, now, f.sys.db, b.after now f.sys.db⟩ : Delivery).rollbackOf taskId = none)
    (hstop : ∀ taskId key, (⟨b, now, f.sys.db, b.after now f.sys.db⟩ : Delivery).StopsAt taskId key →
      Stopped f.sys.db taskId key)
    (hclaim : ∀ c, b.call ≠ .claim c)
    (hquiet : won = true → (call = .fail ∨ ∃ key, call = .failRollback key) ∧
      (call = .fail → Complete f.sys.db p.taskId ∧ sagaBegan f.sys.db p.taskId)) :
    FleetInv ⟨f.sys.deliver b now, before ++ p.landed call b won :: after⟩ := by
  have hnone : ¬ (⟨b, now, f.sys.db, b.after now f.sys.db⟩ : Delivery).Retakes f.sys.history :=
    Delivery.not_retakes hclaim
  have hinv := h.delivers hd hreach hstarted hrolled hread hof hstop hnone
  have hp : PassInv f.sys p := h.passes p (hpasses ▸ List.mem_append_cons_self)
  refine h.landed hpasses hreach hread hinv.order hinv.committed hstop
    (fun _ _ _ => hstarted.startedAt.mpr) ?_
    fun q hq => hinv.passes q (hpasses ▸ mem_of_replaced hq)
  refine hp.carry hd hnone _ (hp.toSound.landed hsent won) ?_ ?_
  · intro _ hheld _
    have haware := hp.aware hsent hheld
    refine ⟨fun key index => ?_, fun key => ?_⟩
    · refine (hstarted.startedAt.trans (haware.started key index)).trans (or_iff_left ?_).symm
      rintro hlanded
      obtain ⟨hwon, rfl⟩ := Pass.landed_landed.mp hlanded
      obtain heq | ⟨_, heq⟩ := (hquiet hwon).1 <;> cases heq
    · refine (hrolled.rolledBack.trans (haware.rolledBack key)).trans (or_iff_left ?_).symm
      rintro hlanded
      obtain ⟨hwon, rfl⟩ := Pass.landed_landed.mp hlanded
      obtain heq | ⟨_, heq⟩ := (hquiet hwon).1 <;> cases heq
  · intro hfinished
    obtain hstage | ⟨hwon, hcall⟩ := Pass.landed_finished hfinished
    · exact hp.stays hd (fun _ _ _ => hstarted.startedAt.mp) (Or.inl hstage)
    · obtain ⟨hcomplete, hsaga⟩ := (hquiet hwon).2 hcall
      refine ⟨fun key index hstart => ?_, hd.effect.sagaBegan hsaga⟩
      exact hrolled.rolledBack.mpr (hcomplete key index (hstarted.startedAt.mp hstart))

/-! ## What each call does -/

variable (h : FleetInv f) (hpasses : f.passes = before ++ p :: after) (hd : Delivers f.sys b now)
  (hreach : Reachable Repeats (f.sys.deliver b now))
include h hpasses hd hreach

/-- A checkpoint's write that lost leaves every checkpoint. -/
theorem FleetInv.landLost {held : WorkerClaim} {write : CheckpointWrite} {extendMs : ℤ}
    (hsent : p.sent = some ⟨call, b, none⟩)
    (hcall : b.call = .setCheckpoint held taskId write extendMs)
    (hlost : b.wins now f.sys.db = false)
    (hrows : ∀ c, c ∈ (b.after now f.sys.db).checkpoints ↔ c ∈ f.sys.db.checkpoints) :
    FleetInv ⟨f.sys.deliver b now, before ++ p.landed call b (b.wins now f.sys.db) :: after⟩ := by
  refine h.quiet hpasses hsent hd hreach (fun c _ => hrows c) (fun c _ => hrows c)
    (h.readable.same (fun c _ => hrows c) fun c _ => hrows c) (fun owner => ?_) ?_ ?_ ?_
  · unfold Delivery.rollbackOf
    simp only [hcall, hlost, Bool.false_eq_true, and_false, if_false]
  · rintro owner key ⟨hwon, _⟩
    cases hlost.symm.trans hwon
  · intro c hc
    cases hcall.symm.trans hc
  · intro hwon
    cases hlost.symm.trans hwon

/-- A start marker lands with an index past every other, of a saga that did not begin. -/
theorem FleetInv.landStart {extendMs : ℤ} (hsent : p.sent = some ⟨.start key index, b, none⟩)
    (hmax : index ≤ MAX_SAFE_INTEGER)
    (hcall : b.call = .setCheckpoint p.claim p.taskId
      ⟨SAGA_STARTED_PREFIX ++ key, encodeStartIndex index⟩ extendMs) :
    FleetInv ⟨f.sys.deliver b now,
      before ++ p.landed (.start key index) b (b.wins now f.sys.db) :: after⟩ := by
  have hp : PassInv f.sys p := h.passes p (hpasses ▸ List.mem_append_cons_self)
  obtain ⟨hlost, hrows⟩ | ⟨hwon, ⟨r, hr, hguard⟩, hinserted⟩ := hd.sets h.owner hcall
  · exact h.landLost hpasses hd hreach hsent hcall hlost hrows
  have hheld : p.claim.HeldIn f.sys.db := ⟨r, hr, hguard.1⟩
  -- The pass holds its run, so what it has read and landed is all the task has.
  have haware := hp.aware hsent hheld
  obtain ⟨rfl, hunstarted⟩ : index = nextStartIndex p.ctx.topStartIndex ∧ ¬ p.ctx.Started key :=
    hp.owes ⟨_, b, none⟩ hsent
  have hinserted := hinserted (haware.free h.readable hunstarted)
  have hstarted : ∀ taskId key' index', StartedAt (b.after now f.sys.db) taskId key' index' ↔ _ :=
    fun _ _ _ => hinserted.startedAt (nextStartIndex_pos _) hmax
  have hown : ∀ key' index', StartedAt (b.after now f.sys.db) p.taskId key' index' ↔
      StartedAt f.sys.db p.taskId key' index' ∨
        key' = key ∧ index' = nextStartIndex p.ctx.topStartIndex :=
    fun key' index' => (hstarted p.taskId key' index').trans (or_congr_right (and_iff_right rfl))
  have hother : ∀ taskId, taskId ≠ p.taskId → ∀ key' index',
      StartedAt (b.after now f.sys.db) taskId key' index' ↔ StartedAt f.sys.db taskId key' index' :=
    fun taskId hne key' index' => (hstarted taskId key' index').trans (or_iff_left fun heq => hne heq.1)
  have hrollback : ¬ namedUnder (SAGA_STARTED_PREFIX ++ key) SAGA_ROLLBACK_PREFIX :=
    SagaPrefix.other (Or.inl rfl) (Or.inr (Or.inl rfl)) (by decide)
  have hrolled : ∀ taskId key', RolledBack (b.after now f.sys.db) taskId key' ↔
      RolledBack f.sys.db taskId key' := fun _ _ => (hinserted.sameUnder hrollback).rolledBack
  -- In a saga, the guard admits rollback checkpoints alone.
  have hforward : ¬ sagaBegan f.sys.db p.taskId := fun hsaga => by
    rw [← hguard.2.1] at hsaga
    exact hrollback (hguard.2.2.2.2.2.2.1.mpr hsaga)
  have hno : ∀ key', ¬ RolledBack f.sys.db p.taskId key' := fun _ =>
    h.course.inv.phased.unrolled hforward
  refine h.landed hpasses hreach ?_ (fun taskId => ?_) (fun taskId => ?_) ?_
    (fun taskId key' index' => (hstarted taskId key' index').mpr ∘ Or.inl) ?_ fun q hq => ?_
  · exact h.readable.inserted hinserted
      (fun _ => ⟨_, decodeStartIndex_encode (nextStartIndex_pos _) hmax⟩)
      (SagaPrefix.other (Or.inl rfl) (Or.inr (Or.inr rfl)) (by decide))
  · by_cases htask : taskId = p.taskId
    · subst htask
      exact (h.order p.taskId).start hno (fun _ _ => haware.below hp.toRead hmax) hown (hrolled p.taskId)
    · exact (h.order taskId).of_same (hother taskId htask) (hrolled taskId)
  · refine (h.committed taskId).of_same ?_ (fun key' index' hyes => ?_) (hrolled taskId)
    · unfold Delivery.rollbackOf
      simp only [hcall, hrollback, false_and, and_false, if_false]
    · by_cases htask : taskId = p.taskId
      · exact absurd (htask ▸ hyes) (hno key')
      · exact (hother taskId htask key' index').mp
  · rintro taskId key' ⟨_, failure, _, hcall', _⟩
    cases hcall.symm.trans hcall'
  · refine hp.carry hd (Delivery.not_retakes fun c hc => by cases hcall.symm.trans hc) _
      (hp.toSound.landed hsent _)
      (fun _ _ _ => ⟨fun key' index' => ?_, fun key' => ?_⟩) fun hfinished => ?_
    · refine (hown key' index').trans (or_congr (haware.started key' index') ?_)
      refine Iff.trans ?_ Pass.landed_landed.symm
      rw [hwon, SagaCall.start.injEq]
      exact (and_congr eq_comm eq_comm).trans (and_iff_right rfl).symm
    · refine ((hrolled p.taskId key').trans (haware.rolledBack key')).trans (or_iff_left ?_).symm
      exact fun hlanded => by cases (Pass.landed_landed.mp hlanded).2
    · obtain hstage | ⟨_, hfail⟩ := Pass.landed_finished hfinished
      · exact absurd (hp.finished (Or.inl hstage)).2 hforward
      · cases hfail
  -- Another pass that holds its run is of another task, which the marker is not of.
  · have hqs : PassInv f.sys q := h.passes q (hpasses ▸ mem_of_replaced hq)
    refine hqs.deliver hd (Delivery.not_retakes fun c hc => by cases hcall.symm.trans hc)
      (fun _ hheld' => ?_)
      fun hsaga key' index' => ?_
    · exact ⟨hother q.taskId (h.others hpasses hheld hq hheld'), hrolled q.taskId⟩
    · exact (hother q.taskId (fun htask => hforward (htask ▸ hsaga)) key' index').mp

/-- A rollback's checkpoint lands for the step that started last among those not rolled back. -/
theorem FleetInv.landRollback {extendMs : ℤ} (hsent : p.sent = some ⟨.rollback key, b, none⟩)
    (hcall : b.call = .setCheckpoint p.claim p.taskId ⟨SAGA_ROLLBACK_PREFIX ++ key, "null"⟩ extendMs) :
    FleetInv ⟨f.sys.deliver b now,
      before ++ p.landed (.rollback key) b (b.wins now f.sys.db) :: after⟩ := by
  have hp : PassInv f.sys p := h.passes p (hpasses ▸ List.mem_append_cons_self)
  obtain ⟨hlost, hrows⟩ | ⟨hwon, ⟨r, hr, hguard⟩, hinserted⟩ := hd.sets h.owner hcall
  · exact h.landLost hpasses hd hreach hsent hcall hlost hrows
  have hheld : p.claim.HeldIn f.sys.db := ⟨r, hr, hguard.1⟩
  have haware := hp.aware hsent hheld
  -- The step is still the last one of the store's: the pass holds its run.
  have hlast : LastStarted f.sys.db p.taskId key :=
    haware.last (hp.owes ⟨.rollback key, b, none⟩ hsent)
  have hinserted := hinserted hlast.choose_spec.2.1
  have hrolled : ∀ taskId key', RolledBack (b.after now f.sys.db) taskId key' ↔ _ :=
    fun _ _ => hinserted.rolledBack
  have hown : ∀ key', RolledBack (b.after now f.sys.db) p.taskId key' ↔
      RolledBack f.sys.db p.taskId key' ∨ key' = key :=
    fun key' => (hrolled p.taskId key').trans (or_congr_right (and_iff_right rfl))
  have hother : ∀ taskId, taskId ≠ p.taskId → ∀ key',
      RolledBack (b.after now f.sys.db) taskId key' ↔ RolledBack f.sys.db taskId key' :=
    fun taskId hne key' => (hrolled taskId key').trans (or_iff_left fun heq => hne heq.1)
  have hnotStarted : ¬ namedUnder (SAGA_ROLLBACK_PREFIX ++ key) SAGA_STARTED_PREFIX :=
    SagaPrefix.other (Or.inr (Or.inl rfl)) (Or.inl rfl) (by decide)
  have hstarted : ∀ taskId key' index', StartedAt (b.after now f.sys.db) taskId key' index' ↔
      StartedAt f.sys.db taskId key' index' :=
    fun _ _ _ => (hinserted.sameUnder hnotStarted).startedAt
  have hnamed := namedUnder_append SAGA_ROLLBACK_PREFIX key
  refine h.landed hpasses hreach ?_ (fun taskId => ?_) (fun taskId => ?_) ?_
    (fun taskId key' index' => (hstarted taskId key' index').mpr) ?_ fun q hq => ?_
  · exact h.readable.inserted hinserted (fun hyes => absurd hyes hnotStarted)
      (SagaPrefix.other (Or.inr (Or.inl rfl)) (Or.inr (Or.inr rfl)) (by decide))
  · by_cases htask : taskId = p.taskId
    · subst htask
      exact (h.order p.taskId).roll hlast (hstarted p.taskId) hown
    · exact (h.order taskId).of_same (hstarted taskId) (hother taskId htask)
  · by_cases htask : taskId = p.taskId
    · subst htask
      refine (h.committed p.taskId).roll (h.order p.taskId) hlast ?_ (hstarted p.taskId) hown
      unfold Delivery.rollbackOf
      simp only [hcall, hnamed, hwon, and_self, if_true, keyUnder_append SAGA_ROLLBACK_PREFIX key]
    · refine (h.committed taskId).of_same ?_ (fun key' index' _ => (hstarted taskId key' index').mp)
        (hother taskId htask)
      unfold Delivery.rollbackOf
      simp only [hcall, Ne.symm htask, false_and, if_false]
  · rintro taskId key' ⟨_, failure, _, hcall', _⟩
    cases hcall.symm.trans hcall'
  · refine hp.carry hd (Delivery.not_retakes fun c hc => by cases hcall.symm.trans hc) _
      (hp.toSound.landed hsent _)
      (fun _ _ _ => ⟨fun key' index' => ?_, fun key' => ?_⟩) fun hfinished => ?_
    · refine ((hstarted p.taskId key' index').trans (haware.started key' index')).trans
        (or_iff_left ?_).symm
      exact fun hlanded => by cases (Pass.landed_landed.mp hlanded).2
    · refine (hown key').trans (or_congr (haware.rolledBack key') ?_)
      refine Iff.trans ?_ Pass.landed_landed.symm
      rw [hwon, SagaCall.rollback.injEq]
      exact eq_comm.trans (and_iff_right rfl).symm
    · obtain hstage | ⟨_, hfail⟩ := Pass.landed_finished hfinished
      · exact hp.stays hd (fun _ key' index' => (hstarted p.taskId key' index').mp) (Or.inl hstage)
      · cases hfail
  -- Another pass that holds its run is of another task, which the checkpoint is not of.
  · have hqs : PassInv f.sys q := h.passes q (hpasses ▸ mem_of_replaced hq)
    refine hqs.deliver hd (Delivery.not_retakes fun c hc => by cases hcall.symm.trans hc)
      (fun _ hheld' => ?_)
      fun _ key' index' => (hstarted q.taskId key' index').mp
    exact ⟨hstarted q.taskId, hother q.taskId (h.others hpasses hheld hq hheld')⟩

/-- The failure of a rollback lands for the step that started last among those not rolled back. -/
theorem FleetInv.landFailRollback {failure : Failure} {errorJson : String} {passDelayMs : Option ℤ}
    (hsent : p.sent = some ⟨.failRollback key, b, none⟩) (hcall : b.call = .failInto failure)
    (hfailed : failure.claim = p.claim ∧ failure.taskId = p.taskId ∧ failure.rollback =
      some ⟨failedRollbackRecord db p.taskId key errorJson, passDelayMs⟩) :
    FleetInv ⟨f.sys.deliver b now,
      before ++ p.landed (.failRollback key) b (b.wins now f.sys.db) :: after⟩ := by
  have hp : PassInv f.sys p := h.passes p (hpasses ▸ List.mem_append_cons_self)
  obtain ⟨hclaim, htask, hrollback⟩ := hfailed
  have heffect : Effect b.seed now f.sys.db (b.after now f.sys.db) (.failInto failure) :=
    hcall ▸ hd.effect
  have hadm : failure.Admitted := by
    have hadm := hd.admitted
    rw [hcall] at hadm
    exact hadm.1
  have hstarted := heffect.sameUnder_failed hadm (Or.inl rfl) (by decide)
  have hrolled := heffect.sameUnder_failed hadm (Or.inr (Or.inl rfl)) (by decide)
  refine h.quiet hpasses hsent hd hreach hstarted hrolled ⟨fun c hc hnamed => ?_, fun c hc hnamed => ?_⟩
    (fun taskId => ?_) ?_ (fun c hc => by cases hcall.symm.trans hc) fun _ => ?_
  · exact h.readable.started c ((hstarted c hnamed).mp hc) hnamed
  · obtain hc | hstate := heffect.tried hrollback hc hnamed
    · exact h.readable.tries c hc hnamed
    · rw [hstate]
      exact decodeRollbackTry_next _ _ _
  · unfold Delivery.rollbackOf
    simp only [hcall]
  · rintro taskId key' ⟨hwon, failure', rollback, hcall', htask', hrollback', hname⟩
    obtain rfl := Call.failInto.inj (hcall.symm.trans hcall')
    obtain rfl := Option.some.inj (hrollback.symm.trans hrollback')
    obtain rfl : key = key' := append_injective hname
    obtain ⟨r, hr, hguard⟩ := Batch.wins_failInto hcall hwon
    have haware := hp.aware hsent ⟨r, hr, hclaim ▸ hguard.1⟩
    rw [← htask', htask]
    exact (h.order p.taskId).stopped (haware.last (hp.owes ⟨.failRollback key, b, none⟩ hsent))
  · exact ⟨Or.inr ⟨key, rfl⟩, fun hfail => by cases hfail⟩

/-- The end of a saga lands once every step that started is rolled back. -/
theorem FleetInv.landFail {failure : Failure} (hsent : p.sent = some ⟨.fail, b, none⟩)
    (hcall : b.call = .failInto failure) (hclaim : failure.claim = p.claim)
    (hnone : failure.rollback = none) :
    FleetInv ⟨f.sys.deliver b now, before ++ p.landed .fail b (b.wins now f.sys.db) :: after⟩ := by
  have hp : PassInv f.sys p := h.passes p (hpasses ▸ List.mem_append_cons_self)
  have hplain : b.call.Plain := by
    rw [hcall]
    exact hnone
  have hstarted := hd.effect.sameUnder_plain hplain (Or.inl rfl)
  have htries := hd.effect.sameUnder_plain hplain (Or.inr (Or.inr rfl))
  refine h.quiet hpasses hsent hd hreach hstarted
    (hd.effect.sameUnder_plain hplain (Or.inr (Or.inl rfl))) (h.readable.same hstarted htries)
    (fun _ => hplain.rollbackOf) (fun _ _ hstops => absurd hstops hplain.not_stopsAt)
    (fun c hc => by cases hcall.symm.trans hc) fun hwon => ⟨Or.inl rfl, fun _ => ⟨?_, ?_⟩⟩
  · obtain ⟨r, hr, hguard⟩ := Batch.wins_failInto hcall hwon
    have haware := hp.aware hsent ⟨r, hr, hclaim ▸ hguard.1⟩
    have howes : p.ctx.Owes .fail := hp.owes ⟨.fail, b, none⟩ hsent
    exact fun key index hstart => (haware.rolledBack key).mpr
      (howes key index ((haware.started key index).mp hstart))
  · refine hp.saga fun hcause => ?_
    obtain ⟨_, _, hstart⟩ := (hp.forward ⟨.fail, b, none⟩ hsent).mp hcause
    cases hstart

/-- A saga call that was sent is delivered. -/
theorem FleetInv.land (hsent : p.sent = some ⟨call, b, none⟩)
    (hcounts : Delivery.Counts ⟨b, now, f.sys.db, b.after now f.sys.db⟩) :
    FleetInv ⟨f.sys.deliver b now, before ++ p.landed call b (b.wins now f.sys.db) :: after⟩ := by
  have hp : PassInv f.sys p := h.passes p (hpasses ▸ List.mem_append_cons_self)
  obtain ⟨db, hsends⟩ := hp.carries ⟨call, b, none⟩ hsent
  simp only at hsends
  generalize hcall : b.call = c at hsends
  cases hsends with
  | start key index extendMs => exact h.landStart hpasses hd hreach hsent (hcounts hcall) hcall
  | rollback key extendMs => exact h.landRollback hpasses hd hreach hsent hcall
  | failRollback key errorJson causeJson passId passDelayMs =>
    exact h.landFailRollback hpasses hd hreach hsent hcall ⟨rfl, rfl, rfl⟩
  | fail causeJson passId => exact h.landFail hpasses hd hreach hsent hcall rfl rfl

end Land

end Durablerun
