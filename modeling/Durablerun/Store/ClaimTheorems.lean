import Durablerun.Store.Claim
import Durablerun.Store.Wake

/-!
# What the batches of a claim keep

`claim`, `activate`, `heartbeat`, `deferLaunch` and `expireLeaseNow` keep the invariant, delivered
once or again: whatever their stamps select, the task follows a live run of its own.

Reference: `packages/store-libsql/src/store.ts` and `packages/core/src/statements/claimed-run.ts`.
-/

namespace Durablerun

open Relational

variable {db : Db} {seed queue runId : String} {now : ℤ}

/-! ## Claimed runs -/

/-- A claimed run is running. -/
theorem whereClaimedRun.running {claimToken : String} {r : Run}
    (h : whereClaimedRun queue runId claimToken r) : r.state = .running := h.2.2.2

/-- A compare-and-set that leaves its runs running keeps everything. -/
theorem Core.updateRunning (h : Core db) {p : Run → Prop} [DecidablePred p]
    {f : Table.Change Run.keys} (hp : ∀ r, p r → r.state = .running)
    (hf : ∀ r, r.Same (f r) ∧ (f r).state = r.state)
    (hstamp : ∀ r ∈ db.runs, p r → ∀ s ∈ (f r).fenceStamp, s.statement.Left .running) :
    Core { db with runs := db.runs.update p f } := by
  refine ⟨h.toUnmirrored.updateRuns (fun r _ _ => ⟨(hf r).1, Or.inl (hf r).2⟩)
    (fun r hr hpr w hw => ?_) fun r hr hpr s hs => ?_, fun r hr t ht hid hl => ?_⟩
  · exact h.held.no_wait hw hr (by simp [hp r hpr])
  · rw [(hf r).2, hp r hpr]
    exact hstamp r hr hpr s hs
  · obtain ⟨r₀, hr₀, _, rfl⟩ | ⟨hr, _⟩ := Table.update_cases hr
    · rw [(hf r₀).2] at hl ⊢
      exact h.mirror r₀ hr₀ t ht ((hf r₀).1.taskId.symm.trans hid) hl
    · exact h.mirror r hr t ht hid hl

/-! ## claim -/

/-- A run a claim would take is due, waits for its turn, and passed the claim's eligibility. -/
theorem claimGuard.candidate {call : ClaimCall} {r : Run} (h : claimGuard db now call r)
    (hr : r ∈ db.runs) : claimCandidate db now call.queue r.state r ∧ r.state.Queued := by
  have hleg : ∀ (state : TaskState) (s : Run), s ∈ candidateLeg db now call.queue state call.limit →
      s ∈ db.runs ∧ claimCandidate db now call.queue state s := by
    intro state s hs
    have hs := (List.mem_insertionSort claimOrder).mp (List.mem_of_mem_take hs)
    rwa [List.mem_filter, decide_eq_true_eq] at hs
  obtain ⟨s, hs, hid⟩ := List.mem_map.mp h.1
  have hs := (List.mem_insertionSort claimOrder).mp (List.mem_of_mem_take hs)
  rcases List.mem_append.mp hs with hs | hs
  · obtain ⟨hmem, hcand⟩ := hleg .pending s hs
    obtain rfl := db.run_unique hmem hr hid
    exact ⟨hcand.2.1 ▸ hcand, by simp [hcand.2.1]⟩
  · obtain ⟨hmem, hcand⟩ := hleg .sleeping s hs
    obtain rfl := db.run_unique hmem hr hid
    exact ⟨hcand.2.1 ▸ hcand, by simp [hcand.2.1]⟩

/-- The claim reaps the waits of the runs it takes: their timeout has passed. -/
theorem mem_claim_waits {call : ClaimCall} {w : Wait} (h : Inv db)
    (hw : w ∈ (claim seed call now db).db.waits) :
    w ∈ db.waits ∧ ∀ r ∈ db.runs, claimGuard db now call r → r.runId ≠ w.runId := by
  obtain ⟨hw, hno⟩ := mem_runsToWaits.mp hw
  refine ⟨hw, fun r hr hg hid => hno ?_⟩
  have hp := h.held.parkedOn hw hr hid
  obtain ⟨⟨hq, _, ⟨v, hv, hwithin, hdue⟩, _⟩, _⟩ := hg.candidate hr
  have hmem := Table.mem_update_of_pos (f := ⟨claimAssignments db seed now call, fun _ => rfl⟩) hr hg
  refine ⟨⟨_, hmem, ⟨⟨hq, rfl, rfl⟩, rfl⟩, hid⟩, v, ?_, hwithin, _,
    stampedRun_eq_some.mpr ⟨hmem, hid, rfl⟩, hdue⟩
  rwa [← hp.availableAtMs]

/-- A claim keeps the invariant. -/
theorem claim_inv (call : ClaimCall) (h : Inv db) : Inv (claim seed call now db).db := by
  have hmem : ∀ w ∈ (claim seed call now db).db.waits, w ∈ db.waits ∧
      ∀ r ∈ db.runs, claimGuard db now call r → r.runId ≠ w.runId :=
    fun w hw => mem_claim_waits h hw
  -- The waits that timed out are taken away first, so no wait is left on a claimed run.
  have hclaimed : Unmirrored
      ((claimCas db seed call now).withWaits (claim seed call now db).db.waits) := by
    refine (h.toCore.withWaits fun w hw => (hmem w hw).1).toUnmirrored.updateRuns
      (fun r hr hg => ?_) (fun r hr hg w hw => (hmem w hw).2 r hr hg) fun r hr hg s hs => ?_
    · exact ⟨⟨rfl, rfl, rfl, rfl⟩, Or.inr ⟨(hg.candidate hr).2.live, trivial⟩⟩
    · obtain rfl := Option.some.inj hs
      exact rfl
  have hcore : Core ((taskBook (claimCas db seed call now) seed call).withWaits
      (claim seed call now db).db.waits) := by
    refine ⟨hclaimed.runsToTasks (fun _ => trivial) fun t ht f hf hfol => ?_, ?_⟩
    · exact ⟨⟨rfl, rfl⟩, rfl, rfl, rfl, Or.inr ⟨hfol.narrow, trivial⟩⟩
    refine Mirror.runsToTasks hclaimed.toUnits (fun r hr t ht hid hl => ?_)
      (fun t ht f hf hfol => ?_) fun _ => rfl
    · obtain ⟨r₀, hr₀, hg, rfl⟩ | ⟨hr, _⟩ := Table.update_cases hr
      · obtain ⟨hcand, hqueued⟩ := hg.candidate hr₀
        exact Or.inr ⟨⟨⟨hcand.1, rfl, rfl⟩, hcand.1, rfl⟩, hid,
          h.toUnits.live hr₀ ht hid hqueued.live⟩
      · exact Or.inl (h.mirror r hr t ht hid hl)
    · rw [hfol.selected.2.1]
      exact ⟨hfol.narrow, trivial, rfl⟩
  refine h.carry hcore (fun w hw => (hmem w hw).1) rfl fun t ht hl => ⟨t, ?_, .refl t, hl⟩
  exact mem_of_runsToTasks_ended (claimCas db seed call now) ht
    (fun _ _ _ _ _ => trivial) hl

/-! ## activate -/

/-- An activation keeps the invariant. -/
theorem activate_inv (receipt : ClaimReceipt) (h : Inv db) :
    Inv (activate seed receipt now db).db := by
  have hcas : Core (activateCas db seed receipt now) := by
    refine h.toCore.updateRunning (fun r hg => hg.1.1.running) (fun r => ⟨⟨rfl, rfl, rfl, rfl⟩, rfl⟩)
      fun r _ _ s hs => ?_
    obtain rfl := Option.some.inj hs
    exact rfl
  have hcore : Core (taskStart (activateCas db seed receipt now) seed receipt) :=
    hcas.runsToTasks (fun _ => trivial) fun t ht f hf hfol =>
      ⟨⟨⟨rfl, rfl⟩, rfl, rfl, rfl, Or.inl rfl⟩, rfl⟩
  refine h.carry hcore (fun _ hw => hw) rfl fun t ht hl => ⟨t, ?_, .refl t, hl⟩
  exact mem_of_runsToTasks_ended (activateCas db seed receipt now) ht
    (fun t _ _ _ hfol => hfol.narrow) hl

/-! ## heartbeat and expireLeaseNow -/

/-- A heartbeat keeps the invariant. -/
theorem heartbeat_inv (claim : WorkerClaim) (extensionMs : ℤ) (h : Inv db) :
    Inv (heartbeat seed claim extensionMs now db).db := by
  have hcore : Core (heartbeatCas db seed claim extensionMs now) := by
    refine h.toCore.updateRunning (fun r hg => hg.1.running) (fun r => ⟨⟨rfl, rfl, rfl, rfl⟩, rfl⟩)
      fun r _ _ s hs => ?_
    obtain rfl := Option.some.inj hs
    exact rfl
  exact h.carry hcore (fun _ hw => hw) rfl fun t ht hl => ⟨t, ht, .refl t, hl⟩

/-- Ending a lease at once keeps the invariant. -/
theorem expireLeaseNow_inv (claim : WorkerClaim) (h : Inv db) :
    Inv (expireLeaseNow claim now db).db := by
  have hcore : Core (expireLeaseNow claim now db).db := by
    refine h.toCore.updateRunning (fun r hg => hg.1.running) (fun r => ⟨⟨rfl, rfl, rfl, rfl⟩, rfl⟩)
      fun r hr hg s hs => ?_
    rw [← hg.1.running]
    exact h.stamped.runs r hr s hs
  exact h.carry hcore (fun _ hw => hw) rfl fun t ht hl => ⟨t, ht, .refl t, hl⟩

/-! ## Suspensions -/

/-- The state a park leaves. -/
theorem parkAssignments_queued (seed : String) (name : Statement) (wakeAt now : ℤ) (r : Run) :
    (parkAssignments seed name wakeAt now r).state.Queued := by
  unfold parkAssignments
  simp only
  split <;> trivial

/-- The task of a run that it does not follow yet is to follow it for this batch's stamp. -/
def ParkFollowed (db : Db) (seed queue runId : String) (name : Statement) : Prop :=
  ∀ r ∈ db.runs, ∀ t ∈ db.tasks, r.taskId = t.taskId → r.state ≠ .failed →
    t.state = r.state ∨
      (r.runId = runId ∧ r.queue = queue ∧ r.fenceStamp = some ⟨seed, name⟩ ∧ t.state.Live)

variable (seed queue runId) (name : Statement) in
/-- A park keeps everything but the mirror, which its follow-on restores. -/
theorem Inv.park (h : Inv db) {p : Run → Prop} [DecidablePred p] {f : Table.Change Run.keys}
    (hp : ∀ r, p r → r.runId = runId ∧ r.queue = queue ∧ r.state = .running)
    (hf : ∀ r, r.Same (f r) ∧ (f r).state.Queued ∧ name.Left (f r).state ∧
      (f r).fenceStamp = some ⟨seed, name⟩) :
    Unmirrored { db with runs := db.runs.update p f } ∧
      ParkFollowed { db with runs := db.runs.update p f } seed queue runId name := by
  refine ⟨h.toUnmirrored.updateRuns (fun r hr hpr => ?_) (fun r hr hpr w hw => ?_)
    fun r hr hpr s hs => ?_, fun r hr t ht hid hl => ?_⟩
  · exact ⟨(hf r).1, Or.inr ⟨by simp [(hp r hpr).2.2], (hf r).2.1.live⟩⟩
  · exact h.held.no_wait hw hr (by simp [(hp r hpr).2.2])
  · rw [(hf r).2.2.2] at hs
    obtain rfl := Option.some.inj hs
    exact (hf r).2.2.1
  · obtain ⟨r₀, hr₀, hpr, rfl⟩ | ⟨hr, _⟩ := Table.update_cases hr
    · obtain ⟨hsame, _, _, hstamp⟩ := hf r₀
      obtain ⟨hrun, hq, hst⟩ := hp r₀ hpr
      refine Or.inr ⟨hsame.runId.trans hrun, hsame.queue.trans hq, hstamp, ?_⟩
      exact h.toUnits.live hr₀ ht (hsame.taskId.symm.trans hid) (by simp [hst])
    · exact Or.inl (h.mirror r hr t ht hid hl)

/-- What every suspension ends with: the task follows the run this batch parked, and the run's waits,
of which it has none, are gone. -/
theorem finishSuspension_inv {db' : Db} (h : Inv db) (h' : Unmirrored db')
    (hpark : ParkFollowed db' seed queue runId .suspend) (ht : db'.tasks = db.tasks)
    (hw : db'.waits = db.waits) (he : db'.events = db.events) :
    Inv (finishSuspension db' seed queue runId) := by
  have hsource : ∀ t ∈ db'.tasks, ∀ f ∈ db'.runs, Follows seed .suspend queue
      (fun f => f.runId = runId) (fun t => t.state.Live) f t →
      (stampedRunState db' seed runId .suspend t).Live ∧ f.state.Live ∧
        stampedRunState db' seed runId .suspend t = f.state := by
    intro t ht f hf hfol
    have hq : f.state.Queued := h'.stamped.runs f hf _ hfol.stamp
    have heq : stampedRunState db' seed runId .suspend t = f.state := by
      unfold stampedRunState
      rw [stampedRun_eq_some.mpr ⟨hf, hfol.selected, hfol.stamp⟩]
      rfl
    exact ⟨heq ▸ hq.live, hq.live, heq⟩
  have hmirrored : Core (taskMirrorsRun db' seed queue runId .suspend) := by
    refine ⟨h'.runsToTasks (fun _ => trivial) fun t ht f hf hfol => ?_, ?_⟩
    · exact ⟨⟨rfl, rfl⟩, rfl, rfl, rfl, Or.inr ⟨hfol.narrow, (hsource t ht f hf hfol).1⟩⟩
    · refine Mirror.runsToTasks h'.toUnits (fun r hr t ht hid hl => ?_) (fun t ht f hf hfol => ?_)
        fun _ => rfl
      · obtain heq | ⟨hrun, hq, hs, htl⟩ := hpark r hr t ht hid hl
        · exact Or.inl heq
        · exact Or.inr ⟨⟨hrun, hq, hs⟩, hid, htl⟩
      · exact ⟨hfol.narrow, (hsource t ht f hf hfol).2⟩
  refine h.carry (Core.runsToWaits hmirrored) (fun w hmem => hw ▸ (mem_runsToWaits.mp hmem).1) he
    fun t hmem hl => ⟨t, ht ▸ ?_, .refl t, hl⟩
  exact mem_of_runsToTasks_ended db' hmem
    (fun t ht f hf hfol => (hsource t ht f hf hfol).1) hl

/-- A deferred launch keeps the invariant. -/
theorem deferLaunch_inv (receipt : ClaimReceipt) (delayMs : ℤ) (h : Inv db) :
    Inv (deferLaunch seed receipt delayMs now db).db := by
  obtain ⟨hcas, hpark⟩ := h.park seed receipt.queue receipt.runId .suspend
    (p := deferLaunchGuard db now receipt delayMs)
    (f := ⟨parkAssignments seed .suspend ((WakeSpec.inMs delayMs).wakeAt now) now, fun _ => rfl⟩)
    (fun r hg => ⟨hg.1.1.1, hg.1.1.2.1, hg.1.1.running⟩)
    fun r => ⟨⟨rfl, rfl, rfl, rfl⟩, parkAssignments_queued seed .suspend _ now r,
      parkAssignments_queued seed .suspend _ now r, rfl⟩
  exact finishSuspension_inv h hcas hpark rfl rfl rfl

end Durablerun
