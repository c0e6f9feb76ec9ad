import Durablerun.Store.ClaimTheorems
import Durablerun.Store.Events

/-!
# What the batches of an event keep

`awaitEvent`, `recordTaskDone` and `emitEvent` keep the invariant. An await parks its run on the very
wait it registers, since a run that still runs has no other.

Reference: `packages/store-libsql/src/store.ts` and `packages/core/src/statements/events.ts`.
-/

namespace Durablerun

open Relational

variable {db : Db} {seed : String} {now : ℤ}

/-! ## awaitEvent -/

/-- Registering a wait changes no run. -/
@[simp] theorem registerWaitCas_runs (call : AwaitCall) :
    (registerWaitCas db seed call now).runs = db.runs := by
  unfold registerWaitCas
  split <;> rfl

/-- Registering a wait changes no task. -/
@[simp] theorem registerWaitCas_tasks (call : AwaitCall) :
    (registerWaitCas db seed call now).tasks = db.tasks := by
  unfold registerWaitCas
  split <;> rfl

/-- Registering a wait changes no event. -/
@[simp] theorem registerWaitCas_events (call : AwaitCall) :
    (registerWaitCas db seed call now).events = db.events := by
  unfold registerWaitCas
  split <;> rfl

/-- Registering a wait changes no checkpoint. -/
@[simp] theorem registerWaitCas_checkpoints (call : AwaitCall) :
    (registerWaitCas db seed call now).checkpoints = db.checkpoints := by
  unfold registerWaitCas
  split <;> rfl

/-- A wait after the registration was there before, or is the one the guard let in. -/
theorem mem_registerWaitCas {call : AwaitCall} {w : Wait} :
    w ∈ (registerWaitCas db seed call now).waits ↔ w ∈ db.waits ∨
      (registerGuard db now call ∧ db.waits.Free (call.wait seed now) ∧ w = call.wait seed now) := by
  unfold registerWaitCas
  split
  · rename_i hg
    rw [Table.mem_insertIgnore]
    exact or_congr_right ⟨fun h => ⟨hg, h⟩, And.right⟩
  · rename_i hg
    exact ⟨Or.inl, fun h => h.resolve_right fun h => hg h.1⟩

section Await

variable {call : AwaitCall}

/-- The wait that parks a run is the one this batch registered: a running run has no other. -/
theorem awaitPark_source (h : Inv db) {r : Run} {f : Wait} (hr : r ∈ db.runs)
    (hf : f ∈ (registerWaitCas db seed call now).waits) (hid : f.runId = r.runId)
    (hrun : r.state = .running) :
    registerGuard db now call ∧ db.waits.Free (call.wait seed now) ∧ f = call.wait seed now :=
  (mem_registerWaitCas.mp hf).resolve_left fun hf =>
    h.held.no_wait hf hr (by simp [hrun]) hid.symm

/-- The timeout the park reads is the one the wait was registered with. -/
theorem registeredTimeout_eq (hmem : call.wait seed now ∈ (registerWaitCas db seed call now).waits) :
    registeredTimeout (registerWaitCas db seed call now) seed call =
      call.timeoutMs.map (now + ·) := by
  unfold registeredTimeout
  cases hf : (registerWaitCas db seed call now).waits.rows.find? fun f =>
    f.runId = call.runId ∧ f.stepName = call.stepName ∧
      f.fenceStamp = some ⟨seed, .register⟩ with
  | none =>
    have := List.find?_eq_none.mp hf _ hmem
    simp [AwaitCall.wait] at this
  | some f =>
    have hp := List.find?_some hf
    simp only [decide_eq_true_eq] at hp
    have heq : f = call.wait seed now :=
      Table.eq_of_key (List.mem_of_find?_eq_some hf) hmem (k := (call.runId, call.stepName))
        (by simp [Wait.keys, hp.1, hp.2.1]) (by simp [Wait.keys, AwaitCall.wait])
    rw [heq]
    rfl

/-- The run a registered wait parks. -/
theorem registerGuard.claimed (h : registerGuard db now call) :
    ∃ r ∈ db.runs, whereClaimedRun call.queue call.runId call.claimToken r ∧
      r.taskId = call.taskId ∧ ∃ t ∈ db.tasks, runOwnedByTask r t ∧ t.state.Live := by
  obtain ⟨_, ⟨r, hr, hclaim, hid, t, ht, hown, hl⟩, _⟩ := h
  exact ⟨r, hr, hclaim, hid, t, ht, hown, hl.1⟩

/-- The parked run is parked on the registered wait. -/
theorem awaitPark_held (hadm : call.Admitted)
    (hmem : call.wait seed now ∈ (registerWaitCas db seed call now).waits)
    (hg : registerGuard db now call) :
    WaitHeld (awaitPark (registerWaitCas db seed call now) seed call) (call.wait seed now) where
  parked := by
    obtain ⟨r, hr, hclaim, hid, t, ht, hown, hl⟩ := hg.claimed
    have hr' : r ∈ (registerWaitCas db seed call now).runs := by
      rwa [registerWaitCas_runs]
    have hnarrow : awaitParkNarrow (registerWaitCas db seed call now) call r :=
      ⟨hclaim, hid, t, by rwa [registerWaitCas_tasks], hown, hl⟩
    obtain ⟨at', hat⟩ : ∃ at', (awaitAssignments call (registeredTimeout
        (registerWaitCas db seed call now) seed call) r).stampedAt ⟨seed, .park⟩ at' ∈
        (awaitPark (registerWaitCas db seed call now) seed call).runs :=
      waitsToRuns_updated hr' hmem ⟨rfl, rfl⟩ rfl rfl hclaim.1.symm hclaim.2.1 hnarrow
    exact ⟨_, hat, hclaim.1, hclaim.2.1, hid, rfl, rfl, rfl, rfl, registeredTimeout_eq hmem⟩
  timeout := by
    intro v hv
    obtain ⟨timeout, htimeout, rfl⟩ := Option.mem_map.mp hv
    obtain ⟨⟨hnow, _⟩, hfits⟩ := hg.2.2.1 timeout htimeout
    have := hadm.timeoutMs timeout htimeout
    constructor
    · show 0 ≤ now + timeout
      omega
    · show now + timeout ≤ MAX_EPOCH_MS
      omega

/-- A run after the park was parked on the registered wait, or is as it was. -/
theorem awaitPark_cases (h : Inv db) {r' : Run}
    (hr' : r' ∈ (awaitPark (registerWaitCas db seed call now) seed call).runs) :
    (∃ r ∈ db.runs, whereClaimedRun call.queue call.runId call.claimToken r ∧
        registerGuard db now call ∧ db.waits.Free (call.wait seed now) ∧
        ∃ at', r' = (awaitAssignments call (call.timeoutMs.map (now + ·)) r).stampedAt
          ⟨seed, .park⟩ at') ∨
      r' ∈ db.runs := by
  obtain ⟨r, hr, ⟨f, hf, _, _, _, hid⟩, _, hn, at', rfl⟩ | ⟨hr, _⟩ := waitsToRuns_cases hr'
  · rw [registerWaitCas_runs] at hr
    obtain ⟨hg, hfree, rfl⟩ := awaitPark_source h hr hf hid hn.1.running
    refine Or.inl ⟨r, hr, hn.1, hg, hfree, at', ?_⟩
    rw [← registeredTimeout_eq hf]
  · rw [registerWaitCas_runs] at hr
    exact Or.inr hr

/-- A run that sleeps stays as it is. -/
theorem mem_awaitPark {r : Run} (hr : r ∈ db.runs) (hs : r.state ≠ .running) :
    r ∈ (awaitPark (registerWaitCas db seed call now) seed call).runs :=
  mem_waitsToRuns_of_not (by rwa [registerWaitCas_runs]) fun hn => hs hn.1.running

/-- The park keeps everything but the mirror. -/
theorem awaitPark_unmirrored (hadm : call.Admitted) (h : Inv db) :
    Unmirrored (awaitPark (registerWaitCas db seed call now) seed call) := by
  have htasks : (awaitPark (registerWaitCas db seed call now) seed call).tasks = db.tasks :=
    registerWaitCas_tasks call
  have hruns : Table.Rel Run.Steps (registerWaitCas db seed call now).runs
      (awaitPark (registerWaitCas db seed call now) seed call).runs :=
    waitsToRuns_rel Run.Steps.refl fun r _ f _ _ _ _ hn at' =>
      ⟨⟨rfl, rfl, rfl, rfl⟩, Or.inr ⟨by simp [hn.1.running], trivial⟩⟩
  rw [registerWaitCas_runs] at hruns
  refine ⟨h.toUnits.steps hruns (htasks ▸ .refl Task.Steps.refl _), fun w hw => ?_,
    ⟨fun r' hr' s hs => ?_, htasks ▸ h.stamped.tasks⟩,
    h.phased.steps (hruns.imp fun _ _ h => h.toSame) (htasks ▸ .refl Task.Steps.refl _)
      (registerWaitCas_checkpoints call)⟩
  · rcases mem_registerWaitCas.mp hw with hw' | ⟨hg, _, rfl⟩
    · obtain ⟨⟨r, hr, hp⟩, htimeout⟩ := h.held w hw'
      exact ⟨⟨r, mem_awaitPark hr (by simp [hp.state]), hp⟩, htimeout⟩
    · exact awaitPark_held hadm hw hg
  · obtain ⟨r, _, _, _, _, at', rfl⟩ | hr := awaitPark_cases h hr'
    · obtain rfl := Option.some.inj hs
      exact rfl
    · exact h.stamped.runs r' hr s hs

/-- An await keeps the invariant: the wait it registers is for an event that is not there. -/
theorem awaitEvent_inv (hadm : call.Admitted) (h : Inv db) :
    Inv (awaitEvent seed call now db).db := by
  have hpark : Unmirrored (awaitPark (registerWaitCas db seed call now) seed call) :=
    awaitPark_unmirrored hadm h
  have htasks : (awaitPark (registerWaitCas db seed call now) seed call).tasks = db.tasks :=
    registerWaitCas_tasks call
  have hcore : Core (awaitEvent seed call now db).db := by
    refine ⟨hpark.runsToTasks (fun _ => trivial) fun t ht f hf hfol => ?_, ?_⟩
    · exact ⟨⟨rfl, rfl⟩, rfl, rfl, rfl, Or.inr ⟨hfol.narrow, trivial⟩⟩
    refine Mirror.runsToTasks hpark.toUnits (fun r hr t ht hid hl => ?_)
      (fun t ht f hf hfol => ?_) fun _ => rfl
    · have ht' : t ∈ db.tasks := htasks ▸ ht
      obtain ⟨r₀, hr₀, hclaim, _, _, at', rfl⟩ | hr := awaitPark_cases h hr
      · exact Or.inr ⟨⟨⟨hclaim.1, rfl⟩, hclaim.2.1, rfl⟩, hid,
          h.toUnits.live hr₀ ht' hid (by simp [hclaim.running])⟩
      · exact Or.inl (h.mirror r hr t ht' hid hl)
    · rw [hfol.selected.2]
      exact ⟨hfol.narrow, trivial, rfl⟩
  refine ⟨hcore, fun w hw hthere => ?_, fun t ht hl => ?_⟩
  · have hthere : EventThere db w.queue w.eventName :=
      (EventThere.of_eq (registerWaitCas_events call)).mp hthere
    rcases mem_registerWaitCas.mp hw with hw | ⟨hg, _, rfl⟩
    · exact h.quiet w hw hthere
    · exact hg.1 hthere
  · have ht := mem_of_runsToTasks_ended (awaitPark (registerWaitCas db seed call now) seed call) ht
      (fun _ _ _ _ _ => trivial) hl
    exact (EventThere.of_eq (registerWaitCas_events call)).mpr (h.recorded t (htasks ▸ ht) hl)

end Await

/-! ## recordTaskDone -/

/-- The record of an outcome writes nothing once the child whose row it read has its completion
event. -/
theorem recordTaskDone_eq_of_stamped (call : RecordTaskDoneCall)
    (h : ∀ c ∈ db.tasks, c.taskId = call.childTaskId → c.fenceStamp = call.childStamp →
      EventThere db c.queue (taskDoneEventName call.childTaskId)) :
    recordTaskDone seed call now db = ⟨db, none⟩ := by
  unfold recordTaskDone
  have : (db.tasks.rows.find? fun c => materializeGuard db call c) = none := by
    refine List.find?_eq_none.mpr fun c hc hg => ?_
    simp only [decide_eq_true_eq] at hg
    exact hg.2.2.1 (h c hc hg.1 hg.2.1)
  rw [this]

/-- The record of an outcome writes nothing once the child has its completion event. -/
theorem recordTaskDone_eq (call : RecordTaskDoneCall)
    (h : ∀ c ∈ db.tasks, c.taskId = call.childTaskId →
      EventThere db c.queue (taskDoneEventName call.childTaskId)) :
    recordTaskDone seed call now db = ⟨db, none⟩ :=
  recordTaskDone_eq_of_stamped call fun c hc hid _ => h c hc hid

/-! ## emitEvent -/

/-- An event after the emit was there before, by queue and name, or is the emitted one. -/
theorem emitEventCas_cases {call : EmitCall} {e : Event}
    (h : e ∈ (emitEventCas db seed call now).events) :
    EventThere db e.queue e.eventName ∨ e = call.event seed now := by
  obtain ⟨_, h | rfl⟩ | ⟨_, h⟩ := Table.mem_upsert.mp h
  · exact Or.inl ⟨e, h, rfl, rfl⟩
  · exact Or.inr rfl
  · obtain ⟨e₀, he₀, _, rfl⟩ | ⟨h, _⟩ := Table.update_cases h
    · exact Or.inl ⟨e₀, he₀, rfl, rfl⟩
    · exact Or.inl ⟨e, h, rfl, rfl⟩

/-- No event is lost. -/
theorem EventThere.emitEventCas {call : EmitCall} {q n : String} (h : EventThere db q n) :
    EventThere (emitEventCas db seed call now) q n := by
  obtain ⟨e, he, rfl, rfl⟩ := h
  by_cases hfree : db.events.Free (call.event seed now)
  · exact ⟨e, Table.mem_upsert.mpr (Or.inl ⟨hfree, Or.inl he⟩), rfl, rfl⟩
  · by_cases hp : Table.Conflicts (call.event seed now) e Event.keys ∧
      (e.fenceStamp ≠ some ⟨seed, .event⟩ ∧ epochBounds.Within e.emittedAtMs)
    · exact ⟨_, Table.mem_upsert.mpr (Or.inr ⟨hfree, Table.mem_update_of_pos he hp⟩), rfl, rfl⟩
    · exact ⟨e, Table.mem_upsert.mpr (Or.inr ⟨hfree, Table.mem_update_of_neg he hp⟩), rfl, rfl⟩

/-- An emission keeps the invariant. -/
theorem emitEvent_inv (call : EmitCall) (h : Inv db) : Inv (emitEvent seed call now db).db := by
  refine wakeWaiters_inv (h.toCore.withEvents _) ?_ fun t ht hl => (h.recorded t ht hl).emitEventCas
  rintro w hw ⟨e, he, hq, hn⟩
  obtain hold | rfl := emitEventCas_cases he
  · exact absurd (hn ▸ hq ▸ hold) (h.quiet w hw)
  · have hrec := recordedEvent_eq_some.mpr ⟨he, rfl, rfl, rfl⟩
    exact ⟨hq.symm, hn.symm, fun hnone => by cases hrec.symm.trans hnone⟩

end Durablerun
