import Durablerun.Sdk.Sagas
import Durablerun.Store.Finality
import Durablerun.Store.LeaseAuthority

/-!
# The saga's checkpoints in the store

A start marker and a rollback's checkpoint change only by a pass's write of that very name, which
goes through only while its run is running under its claim. A claim that is lost is never held
again while none takes a run again under its token, and of one task one claim is held at a time; so no
write of an earlier pass lands under a later one.

Reference: `packages/store-libsql/src/store.ts` and `packages/core/src/sagas.ts`.
-/

namespace Durablerun

open Relational

variable {s : Sys} {b : Batch} {seed taskId key : String} {now : ℤ} {db db' : Db} {call : Call}
  {held : WorkerClaim}

/-! ## Names -/

/-- No name is under two prefixes neither of which starts the other. -/
theorem namedUnder.disjoint {name pre pre' : String} (h : namedUnder name pre)
    (h' : namedUnder name pre') (hpre : (Js.utf16 pre).length = pre.toList.length)
    (hpre' : (Js.utf16 pre').length = pre'.toList.length) (hno : ¬ pre.toList <+: pre'.toList)
    (hno' : ¬ pre'.toList <+: pre.toList) : False :=
  (List.prefix_or_prefix_of_prefix ((namedUnder_iff_isPrefix hpre).mp h)
    ((namedUnder_iff_isPrefix hpre').mp h')).elim hno hno'

/-- The prefixes a saga's names are under. -/
def SagaPrefix (pre : String) : Prop :=
  pre = SAGA_STARTED_PREFIX ∨ pre = SAGA_ROLLBACK_PREFIX ∨ pre = SAGA_TRIES_PREFIX

/-- Each character of such a prefix is one unit. -/
theorem SagaPrefix.length {pre : String} (hpre : SagaPrefix pre) :
    (Js.utf16 pre).length = pre.toList.length := by
  obtain rfl | rfl | rfl := hpre <;> decide

/-- A name is under one of them at most. -/
theorem SagaPrefix.unique {pre pre' name : String} (hpre : SagaPrefix pre) (hpre' : SagaPrefix pre')
    (h : namedUnder name pre) (h' : namedUnder name pre') : pre = pre' := by
  by_contra hne
  obtain rfl | rfl | rfl := hpre <;> obtain rfl | rfl | rfl := hpre'
  all_goals first
    | exact hne rfl
    | exact h.disjoint h' (by decide) (by decide) (by decide) (by decide)

/-- A name under one is not under another. -/
theorem SagaPrefix.other {pre pre' : String} (hpre : SagaPrefix pre) (hpre' : SagaPrefix pre')
    (hne : pre ≠ pre') : ¬ namedUnder (pre ++ key) pre' := fun hyes =>
  hne (hpre.unique hpre' (namedUnder_append pre key hpre.length) hyes)

/-- The phase marker is under none. -/
theorem SagaPrefix.not_phase {pre : String} (hpre : SagaPrefix pre) :
    ¬ namedUnder SAGA_PHASE_CHECKPOINT pre := by
  obtain rfl | rfl | rfl := hpre <;> decide

/-! ## What a batch leaves of a checkpoint -/

/-- A checkpoint no write of the batch is to is there after it as before. -/
theorem Effect.checkpoint_iff (h : Effect seed now db db' call) {c : Checkpoint}
    (hno : ∀ f write, Checkpoint.Write seed now db db' call f write → f.taskId = c.taskId →
      write.key ≠ c.checkpointName) : c ∈ db'.checkpoints ↔ c ∈ db.checkpoints := by
  constructor
  · intro hc
    obtain ⟨c₀, hc₀, rfl | ⟨f, write, hw, hwritten, _⟩⟩ | ⟨f, write, hw, hwritten, _⟩ :=
      h.checkpoints.before c hc
    · exact hc₀
    · exact absurd hwritten.checkpointName.symm (hno f write hw hwritten.taskId.symm)
    · exact absurd hwritten.checkpointName.symm (hno f write hw hwritten.taskId.symm)
  · intro hc
    obtain ⟨c', hc', rfl | ⟨f, write, hw, _, hid, hname, _⟩⟩ := h.checkpoints.after c hc
    · exact hc'
    · exact absurd hname.symm (hno f write hw hid.symm)

/-- The rows under a prefix are the same. -/
def SameUnder (pre : String) (db db' : Db) : Prop :=
  ∀ c : Checkpoint, namedUnder c.checkpointName pre → (c ∈ db'.checkpoints ↔ c ∈ db.checkpoints)

/-- A call that is no saga call leaves a saga's rows alone. -/
theorem Effect.sameUnder_plain (h : Effect seed now db db' call) (hplain : call.Plain) {pre : String}
    (hpre : SagaPrefix pre) : SameUnder pre db db' := by
  refine fun c hnamed => h.checkpoint_iff fun f write hw _ hkey => ?_
  rw [← hkey] at hnamed
  have hengine : namedUnder write.key SAGA_TRIES_PREFIX → ¬ checkpointIsTheEngines write.key → False :=
    fun htries hno => hno (Or.inr htries)
  cases hw with
  | suspended _ hguard =>
    obtain ⟨hstarted, hrollback⟩ : SagaFree write.key := hplain
    obtain rfl | rfl | rfl := hpre
    · exact hstarted hnamed
    · exact hrollback hnamed
    · exact hengine hnamed hguard.2.2.2.2.2.2.2
  | leased _ hguard =>
    obtain ⟨hstarted, hrollback⟩ : SagaFree write.key := hplain
    obtain rfl | rfl | rfl := hpre
    · exact hstarted hnamed
    · exact hrollback hnamed
    · exact hengine hnamed hguard.2.2.2.2.2.2.2
  | @tried failure rollback _ _ _ hfailed =>
    have hnone : failure.rollback = none := hplain
    rw [hnone] at hfailed
    cases hfailed
  | entered => exact hpre.not_phase hnamed

/-- A batch that fails a rollback leaves the start markers and the rollbacks' checkpoints alone. -/
theorem Effect.sameUnder_failed {failure : Failure}
    (h : Effect seed now db db' (.failInto failure)) (hadm : failure.Admitted) {pre : String}
    (hpre : SagaPrefix pre) (hno : pre ≠ SAGA_TRIES_PREFIX) : SameUnder pre db db' := by
  refine fun c hnamed => h.checkpoint_iff fun f write hw _ hkey => ?_
  rw [← hkey] at hnamed
  cases hw with
  | tried _ _ hfailed =>
    exact hno (hpre.unique (Or.inr (Or.inr rfl)) hnamed (hadm _ hfailed).2)
  | entered => exact hpre.not_phase hnamed

/-- One checkpoint more is there. -/
def Inserted (db db' : Db) (taskId : String) (write : CheckpointWrite) : Prop :=
  ∃ c₀ : Checkpoint, c₀.taskId = taskId ∧ c₀.checkpointName = write.key ∧
    c₀.state = write.stateJson ∧ ∀ c, c ∈ db'.checkpoints ↔ c ∈ db.checkpoints ∨ c = c₀

/-- What a write of a checkpoint by a worker leaves: nothing when its run is not held any more, or the
row it writes. -/
theorem Delivers.sets {write : CheckpointWrite} {extendMs : ℤ} (h : Delivers s b now)
    (howner : ∀ c ∈ s.db.checkpoints, OwnerThere s.db c)
    (hcall : b.call = .setCheckpoint held taskId write extendMs) :
    (b.wins now s.db = false ∧ ∀ c, c ∈ (b.after now s.db).checkpoints ↔ c ∈ s.db.checkpoints) ∨
      b.wins now s.db = true ∧
        (∃ r ∈ s.db.runs, checkpointLeaseGuard s.db now held taskId write.key extendMs r) ∧
        (¬ HasCheckpoint s.db taskId write.key →
          Inserted s.db (b.after now s.db) taskId write) := by
  obtain ⟨seed, call⟩ := b
  obtain rfl : call = .setCheckpoint held taskId write extendMs := hcall
  have heffect : Effect seed now s.db (Batch.after ⟨seed, _⟩ now s.db) _ := h.effect
  by_cases hg : ∃ r ∈ s.db.runs, checkpointLeaseGuard s.db now held taskId write.key extendMs r
  · have hwon : wonBy .lease (∃ r ∈ s.db.runs,
        checkpointLeaseGuard s.db now held taskId write.key extendMs r) = some .lease :=
      wonBy_eq_some.mpr ⟨hg, rfl⟩
    refine Or.inr ⟨?_, hg, fun hfree => ?_⟩
    · show (wonBy _ _).isSome = true
      rw [hwon]
      rfl
    · have hwrote : (setCheckpoint seed held taskId write extendMs now s.db).won ≠ none := by
        show wonBy _ _ ≠ none
        rw [hwon]
        exact Option.some_ne_none _
      obtain ⟨r, hr, hholds, c₀, hc₀, hw⟩ : ∃ r ∈ s.db.runs, held.Holds r ∧
          ∃ c ∈ (setCheckpoint seed held taskId write extendMs now s.db).db.checkpoints,
            WrittenBy r write c :=
        Batch.written (b := ⟨seed, .setCheckpoint held taskId write extendMs⟩) h.course.inv howner
          rfl rfl hwrote
      obtain ⟨r', hr', hguard⟩ := hg
      have hsame : r = r' := s.db.run_unique hr hr' (hholds.1.trans hguard.1.1.symm)
      have htask : c₀.taskId = taskId := hw.taskId.trans (hsame ▸ hguard.2.1)
      refine ⟨c₀, htask, hw.checkpointName, hw.state, fun c => ?_⟩
      -- The key of the write tells its row from every other: those are as they were.
      by_cases hc : c.taskId = taskId ∧ c.checkpointName = write.key
      · constructor
        · intro hmem
          exact Or.inr (Db.checkpoint_unique hmem hc₀ (hc.1.trans htask.symm)
            (hc.2.trans hw.checkpointName.symm))
        · rintro (hmem | rfl)
          · exact absurd ⟨c, hmem, hc⟩ hfree
          · exact hc₀
      · refine (heffect.checkpoint_iff fun f w hwrite hid hkey => ?_).trans
          (or_iff_left fun heq => hc ?_).symm
        · cases hwrite with
          | leased _ hguard' => exact hc ⟨hid.symm.trans hguard'.2.1, hkey.symm⟩
          | entered _ _ hplaces => exact hplaces.elim
        · rw [heq]
          exact ⟨htask, hw.checkpointName⟩
  · refine Or.inl ⟨?_, fun c => heffect.checkpoint_iff fun f w hwrite _ _ => ?_⟩
    · have hlost : wonBy Statement.lease (∃ r ∈ s.db.runs,
          checkpointLeaseGuard s.db now held taskId write.key extendMs r) = none := by
        unfold wonBy
        rw [if_neg hg]
      show (wonBy _ _).isSome = false
      rw [hlost]
      rfl
    · cases hwrite with
      | leased hr hguard' => exact hg ⟨_, hr, hguard'⟩
      | entered _ _ hplaces => exact hplaces.elim

/-- A checkpoint more leaves the rows under another prefix alone. -/
theorem Inserted.sameUnder {write : CheckpointWrite} (h : Inserted db db' taskId write)
    {pre : String} (hno : ¬ namedUnder write.key pre) : SameUnder pre db db' := by
  obtain ⟨c₀, _, hname, _, hrows⟩ := h
  refine fun c hnamed => (hrows c).trans (or_iff_left fun heq => hno ?_)
  rwa [heq, hname] at hnamed

/-- A failure batch that wins found its run running under its claim. -/
theorem Batch.wins_failInto {failure : Failure} (hcall : b.call = .failInto failure)
    (hwins : b.wins now db = true) : ∃ r ∈ db.runs, failGuard db now failure r := by
  obtain ⟨seed, call⟩ := b
  obtain rfl : call = .failInto failure := hcall
  unfold Batch.wins at hwins
  split at hwins
  · rename_i out hrun
    obtain ⟨passed, _, hrun⟩ := Option.bind_eq_some_iff.mp hrun
    obtain ⟨retried, _, hout⟩ := Option.bind_eq_some_iff.mp hrun
    obtain rfl := Option.some.inj hout
    obtain ⟨won, hwon⟩ := Option.isSome_iff_exists.mp hwins
    exact (wonBy_eq_some.mp hwon).1
  · cases hwins

/-- An attempt record after a failure batch was there before, or is the one it committed. -/
theorem Effect.tried {seed : String} {failure : Failure} {rollback : RollbackFailure}
    (h : Effect seed now db db' (.failInto failure)) (hsome : failure.rollback = some rollback)
    {c : Checkpoint} (hc : c ∈ db'.checkpoints) (hnamed : namedUnder c.checkpointName
      SAGA_TRIES_PREFIX) : c ∈ db.checkpoints ∨ c.state = rollback.tried.stateJson := by
  have hwritten : ∀ f write, Checkpoint.Write seed now db db' (.failInto failure) f write →
      WrittenBy f write c → c.state = rollback.tried.stateJson := by
    intro f write hw hwritten
    cases hw with
    | tried _ _ hsome' =>
      obtain rfl := Option.some.inj (hsome.symm.trans hsome')
      exact hwritten.state
    | entered =>
      rw [hwritten.checkpointName] at hnamed
      exact absurd hnamed (SagaPrefix.not_phase (Or.inr (Or.inr rfl)))
  obtain ⟨c₀, hc₀, rfl | ⟨f, write, hw, hwrote, _⟩⟩ | ⟨f, write, hw, hwrote, _⟩ :=
    h.checkpoints.before c hc
  · exact Or.inl hc₀
  · exact Or.inr (hwritten f write hw hwrote)
  · exact Or.inr (hwritten f write hw hwrote)

/-! ## Claims -/

/-- A run is running under the claim. -/
def WorkerClaim.HeldIn (held : WorkerClaim) (db : Db) : Prop := ∃ r ∈ db.runs, held.Holds r

/-- A pass was started under the claim. -/
def WorkerClaim.Opened (held : WorkerClaim) (history : List Delivery) : Prop :=
  ∃ generation, Durablerun.Opened history ⟨held.runId, held.claimToken, generation⟩

/-- A claim that was opened stays opened. -/
theorem WorkerClaim.Opened.deliver (h : held.Opened s.history) :
    held.Opened (s.deliver b now).history := by
  obtain ⟨generation, e, he, hopens⟩ := h
  exact ⟨generation, e, List.mem_cons_of_mem _ he, hopens⟩

/-- Only a claim takes a run. -/
theorem Delivery.not_retakes {e : Delivery} {older : List Delivery} (h : ∀ c, e.batch.call ≠ .claim c) :
    ¬ e.Retakes older := fun ⟨c, hcall, _⟩ => h c hcall

/-- A run that is held after a delivery, under a claim a pass was started under, was held before, when
the delivery takes no run again. -/
theorem Delivers.held_before (h : Delivers s b now)
    (hnone : ¬ Delivery.Retakes ⟨b, now, s.db, b.after now s.db⟩ s.history)
    (hopen : held.Opened s.history) {r' : Run}
    (hr' : r' ∈ (b.after now s.db).runs) (hholds : held.Holds r') :
    ∃ r ∈ s.db.runs, held.Holds r ∧ r.Holding r' ∧ r.activatedGen ≤ r'.activatedGen := by
  obtain ⟨hid, hq, htoken, hst⟩ := hholds
  obtain ⟨r, hr, rfl | hm⟩ | hborn := h.effect.runs.before r' hr'
  · exact ⟨r', hr, ⟨hid, hq, htoken, hst⟩, .refl r', le_rfl⟩
  · obtain ⟨c, hcall, hc, hguard, _⟩ | ⟨hst', htoken', hholding⟩ := hm.held hst htoken
    · obtain ⟨generation, hopen⟩ := hopen
      refine absurd ⟨c, hcall, r, hr, hguard, generation, ?_⟩ hnone
      rw [hm.same.runId.symm.trans hid, hc]
      exact hopen
    · obtain ⟨r'', hr'', hsame, hle⟩ := h.effect.latchRises r hr
      have heq : r'' = r' :=
        Db.run_unique hr'' hr' (hsame.runId.trans hholding.runId.symm)
      exact ⟨r, hr, ⟨hholding.runId.symm.trans hid, hholding.queue.symm.trans hq, htoken', hst'⟩,
        hholding, heq ▸ hle⟩
  · exact absurd hst hborn.queued.ne_running

/-- Of one task one claim is held. -/
theorem Inv.held_unique (h : Inv db) {held' : WorkerClaim} {r r' : Run} (hr : r ∈ db.runs)
    (hr' : r' ∈ db.runs) (hid : r.taskId = r'.taskId) (hholds : held.Holds r)
    (hholds' : held'.Holds r') : held = held' := by
  obtain ⟨t, ht, hown⟩ := h.owner r hr
  obtain rfl : r = r' := (h.settled t ht).sole hr hr' hown.1.symm (hid.symm.trans hown.1.symm)
    (by simp [hholds.running]) (by simp [hholds'.running])
  obtain ⟨hid, hq, htoken, _⟩ := hholds
  obtain ⟨hid', hq', htoken', _⟩ := hholds'
  obtain ⟨queue, runId, claimToken⟩ := held
  obtain ⟨queue', runId', claimToken'⟩ := held'
  obtain rfl : queue = queue' := hq.symm.trans hq'
  obtain rfl : runId = runId' := hid.symm.trans hid'
  obtain rfl : claimToken = claimToken' := Option.some.inj (htoken.symm.trans htoken')
  rfl

end Durablerun
