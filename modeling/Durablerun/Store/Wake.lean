import Durablerun.Store.Effects

/-!
# The wake

`wakeWaiters` and `addTaskDone`, which every batch that records an event ends with: they wake every
run parked on the event, leave no wait on it, and keep the rest of the invariant. A wake follows the
record in one batch, so between the two a wait may be for an event that is there. `WakeDue` says that
this batch's event is then the one.

Reference: `packages/store-libsql/src/store.ts`.
-/

namespace Durablerun

open Relational

variable {db : Db} {seed queue eventName taskId payloadJson : String} {terminal : Statement}

/-! ## The recorded event -/

/-- The recorded event is the one of its queue and name that bears the batch's stamp. -/
theorem recordedEvent_eq_some {e : Event} : recordedEvent db seed queue eventName = some e ↔
    e ∈ db.events ∧ e.queue = queue ∧ e.eventName = eventName ∧
      e.fenceStamp = some ⟨seed, .event⟩ := by
  unfold recordedEvent
  constructor
  · intro h
    have hp := List.find?_some h
    simp only [decide_eq_true_eq] at hp
    exact ⟨List.mem_of_find?_eq_some h, hp⟩
  · rintro ⟨he, hq, hn, hs⟩
    cases h : db.events.rows.find? fun f =>
      f.queue = queue ∧ f.eventName = eventName ∧ f.fenceStamp = some ⟨seed, .event⟩ with
    | none =>
      have := List.find?_eq_none.mp h e he
      simp only [decide_eq_true_eq] at this
      exact absurd ⟨hq, hn, hs⟩ this
    | some g =>
      have hp := List.find?_some h
      simp only [decide_eq_true_eq] at hp
      rw [db.event_unique he (List.mem_of_find?_eq_some h) (hq.trans hp.1.symm)
        (hn.trans hp.2.1.symm)]

/-- A wait for an event that is there is for the event this batch recorded. -/
def WakeDue (db : Db) (seed queue eventName : String) : Prop :=
  ∀ w ∈ db.waits, EventThere db w.queue w.eventName →
    w.queue = queue ∧ w.eventName = eventName ∧ recordedEvent db seed queue eventName ≠ none

/-! ## The woken runs -/

/-- A run the wake finds is parked on a wait for the event. -/
theorem wakeRunsGuard.parked {r : Run} (h : wakeRunsGuard db seed queue eventName r)
    (hheld : Held db) (hr : r ∈ db.runs) :
    ∃ w ∈ db.waits, ParkedOn r w ∧ w.queue = queue ∧ w.eventName = eventName := by
  obtain ⟨_, _, ⟨w, hw, hq, hn, hid⟩, _⟩ := h
  exact ⟨w, hw, hheld.parkedOn hw hr hid.symm, hq, hn⟩

/-- A run parked on a wait for the recorded event is one the wake finds. -/
theorem wakeRunsGuard_of_parked {r : Run} {w : Wait} (h : Core db) (hr : r ∈ db.runs)
    (hw : w ∈ db.waits) (hp : ParkedOn r w)
    (he : recordedEvent db seed w.queue w.eventName ≠ none) :
    wakeRunsGuard db seed w.queue w.eventName r := by
  obtain ⟨t, ht, hown⟩ := h.owner r hr
  refine ⟨hp.state, hp.wakeEvent, ⟨w, hw, rfl, rfl, hp.runId.symm⟩, Or.inl ⟨?_, w, hw, ?_, ?_⟩,
    ?_, t, ht, hown, ?_⟩
  · simp [hp.wakeStep]
  · refine ⟨hp.runId.symm, hp.queue.symm, hp.taskId.symm, hp.wakeEvent, hp.availableAtMs.symm, ?_⟩
    rw [hp.availableAtMs]
    exact (h.held w hw).timeout
  · exact hp.wakeStep
  · rwa [hp.queue]
  · exact h.toUnits.live hr ht hown.1.symm (by simp [hp.state])

/-! ## The wake as a whole -/

/-- The waits the wake leaves. -/
theorem mem_wakeWaiters_waits {w : Wait} (h : Core db)
    (hw : w ∈ (wakeWaiters db seed queue eventName).waits) :
    w ∈ db.waits ∧ ∀ r ∈ db.runs, wakeRunsGuard db seed queue eventName r → r.runId ≠ w.runId := by
  obtain ⟨hw, hno⟩ := mem_runsToWaits.mp hw
  refine ⟨hw, fun r hr hg hid => hno ⟨?_, ?_⟩⟩
  · obtain ⟨w', hw', hp, hq, hn⟩ := hg.parked h.held hr
    exact ⟨_, Table.mem_update_of_pos hr hg, ⟨⟨hp.queue.trans hq, rfl, rfl⟩, rfl⟩, hid⟩
  · have hp := h.held.parkedOn hw hr hid
    exact Option.some.inj (hp.wakeEvent.symm.trans hg.2.1)

/-- The wake keeps everything. -/
theorem wakeWaiters_core (h : Core db) : Core (wakeWaiters db seed queue eventName) := by
  -- The reaped waits are taken away first: no wait is then left on a run that wakes.
  set waits := (wakeWaiters db seed queue eventName).waits with hwaits
  have hmem : ∀ w ∈ waits, w ∈ db.waits ∧
      ∀ r ∈ db.runs, wakeRunsGuard db seed queue eventName r → r.runId ≠ w.runId :=
    fun w hw => mem_wakeWaiters_waits h hw
  have h₀ : Core (db.withWaits waits) := h.withWaits fun w hw => (hmem w hw).1
  have h₁ : Unmirrored ((wakeRuns db seed queue eventName).withWaits waits) := by
    refine h₀.toUnmirrored.updateRuns (fun r hr hg => ?_) (fun r hr hg w hw => ?_)
      fun r hr hg s hs => ?_
    · exact ⟨⟨rfl, rfl, rfl, rfl⟩, Or.inr ⟨by simp [hg.1], trivial⟩⟩
    · exact (hmem w hw).2 r hr hg
    · obtain rfl := Option.some.inj hs
      exact rfl
  have h₂ : Core ((runsToTasks (wakeRuns db seed queue eventName) seed .wakeTasks .wakeRuns queue
      (fun f => f.wakeEvent = some eventName ∧ f.state = .pending) (fun t => t.state.Live)
      ⟨fun t => { t with state := .pending }, fun _ => rfl⟩).withWaits waits) := by
    refine ⟨h₁.runsToTasks (fun _ => trivial) fun t ht f hf hfol => ?_, ?_⟩
    · exact ⟨⟨rfl, rfl⟩, rfl, rfl, rfl, Or.inr ⟨hfol.narrow, trivial⟩⟩
    · refine Mirror.runsToTasks h₁.toUnits (fun r hr t ht hid hl => ?_) (fun t ht f hf hfol => ?_)
        fun _ => rfl
      · obtain ⟨r₀, hr₀, hg, rfl⟩ | ⟨hr, _⟩ := Table.update_cases hr
        · obtain ⟨w, _, hp, hq, _⟩ := hg.parked h.held hr₀
          refine Or.inr ⟨⟨⟨rfl, rfl⟩, hp.queue.trans hq, rfl⟩, hid, ?_⟩
          exact h.toUnits.live hr₀ ht hid (by simp [hg.1])
        · exact Or.inl (h.mirror r hr t ht hid hl)
      · rw [hfol.selected.2]
        exact ⟨hfol.narrow, trivial, rfl⟩
  refine ⟨h₂.toUnmirrored.updateRuns (fun r hr _ => ?_) (fun r hr hs w hw => ?_)
    fun r hr hs s hstamp => ?_, fun r hr t ht hid hl => ?_⟩
  · exact ⟨⟨rfl, rfl, rfl, rfl⟩, Or.inl rfl⟩
  · obtain ⟨f, hf, ⟨⟨_, _, hst⟩, _⟩, hid⟩ := hs
    obtain rfl := (wakeRuns db seed queue eventName).run_unique hf hr hid
    exact h₂.held.no_wait hw hr (by simp [hst])
  · obtain ⟨f, hf, ⟨⟨_, _, hst⟩, _⟩, hid⟩ := hs
    obtain rfl := (wakeRuns db seed queue eventName).run_unique hf hr hid
    obtain rfl := Option.some.inj hstamp
    exact hst
  · obtain ⟨r₀, hr₀, _, rfl⟩ | ⟨hr, _⟩ := Table.update_cases hr
    · exact h₂.mirror r₀ hr₀ t ht hid hl
    · exact h₂.mirror r hr t ht hid hl

/-- The wake leaves no wait for an event that is there, and ends no task. -/
theorem wakeWaiters_inv (h : Core db) (hdue : WakeDue db seed queue eventName)
    (hrecorded : ∀ t ∈ db.tasks, ¬ t.state.Live →
      EventThere db t.queue (taskDoneEventName t.taskId)) :
    Inv (wakeWaiters db seed queue eventName) where
  toCore := wakeWaiters_core h
  quiet := by
    intro w hw hthere
    obtain ⟨hmem, hno⟩ := mem_wakeWaiters_waits h hw
    obtain ⟨rfl, rfl, he⟩ := hdue w hmem hthere
    obtain ⟨r, hr, hp⟩ := (h.held w hmem).parked
    exact hno r hr (wakeRunsGuard_of_parked h hr hmem hp he) hp.runId
  recorded := by
    intro t ht hl
    obtain ⟨_, _, _, _, _, _, _, rfl⟩ | ⟨ht, _⟩ := runsToTasks_cases ht
    · exact absurd trivial hl
    · exact hrecorded t ht hl

/-! ## The completion event -/

/-- An event after the completion event's statement was there before, or is the task's, under this
batch's stamp. -/
theorem taskDoneEvent_cases {e : Event}
    (h : e ∈ (taskDoneEvent db seed queue taskId terminal payloadJson).events) :
    e ∈ db.events ∨ (e.queue = queue ∧ e.eventName = taskDoneEventName taskId ∧
      e.fenceStamp = some ⟨seed, .event⟩) := by
  unfold taskDoneEvent at h
  split at h
  · exact Or.inl h
  · rename_i f hf
    split at h
    · exact Or.inl h
    · have hp := List.find?_some hf
      simp only [decide_eq_true_eq] at hp
      obtain h | ⟨_, rfl⟩ := Table.mem_insertIgnore.mp h
      · exact Or.inl h
      · exact Or.inr ⟨hp.2.1, rfl, rfl⟩

/-- No event is lost. -/
theorem mem_taskDoneEvent {e : Event} (h : e ∈ db.events) :
    e ∈ (taskDoneEvent db seed queue taskId terminal payloadJson).events := by
  unfold taskDoneEvent
  split
  · exact h
  · split
    · exact h
    · exact Table.mem_insertIgnore.mpr (Or.inl h)

variable (payloadJson) in
/-- A task this batch ended has its completion event. -/
theorem taskDoneEvent_there {t : Task} (ht : t ∈ db.tasks) (hq : t.queue = queue)
    (hid : t.taskId = taskId) (hs : t.fenceStamp = some ⟨seed, terminal⟩) :
    EventThere (taskDoneEvent db seed queue taskId terminal payloadJson) queue
      (taskDoneEventName taskId) := by
  unfold taskDoneEvent
  cases hf : db.tasks.rows.find? fun f =>
    f.taskId = taskId ∧ f.queue = queue ∧ f.fenceStamp = some ⟨seed, terminal⟩ with
  | none =>
    have := List.find?_eq_none.mp hf t ht
    simp only [decide_eq_true_eq] at this
    exact absurd ⟨hid, hq, hs⟩ this
  | some f =>
    have hp := List.find?_some hf
    simp only [decide_eq_true_eq] at hp
    simp only
    split
    · rename_i he
      obtain ⟨e, he, heq, hen⟩ := he
      exact ⟨e, he, heq.trans hp.2.1, hen⟩
    · rename_i hno
      refine ⟨_, Table.mem_insertIgnore.mpr (Or.inr ⟨⟨by simp [Event.keys], fun k hk hheld => ?_⟩,
        rfl⟩), hp.2.1, rfl⟩
      obtain ⟨e, he, hek⟩ := Table.mem_heldKeys.mp hheld
      simp only [Event.keys, List.mem_singleton] at hk hek
      obtain ⟨h₁, h₂⟩ := Prod.mk.inj (hek.symm.trans hk)
      exact hno ⟨e, he, h₁, h₂⟩

variable (db seed queue taskId terminal payloadJson) in
/-- The completion event's statement writes no table but `events`. -/
theorem taskDoneEvent_withEvents : ∃ events,
    taskDoneEvent db seed queue taskId terminal payloadJson = { db with events } := by
  unfold taskDoneEvent
  split
  · exact ⟨db.events, rfl⟩
  · split
    · exact ⟨db.events, rfl⟩
    · exact ⟨_, rfl⟩

/-- What a batch that may have ended a task leaves to its completion event: everything holds, but the
event of the task it ended may not be there yet. -/
structure Owing (seed queue taskId : String) (terminal : Statement) (db : Db) : Prop
    extends Core db where
  quiet : ∀ w ∈ db.waits, ¬ EventThere db w.queue w.eventName
  recorded : ∀ t ∈ db.tasks, ¬ t.state.Live →
    EventThere db t.queue (taskDoneEventName t.taskId) ∨
      (t.taskId = taskId ∧ t.queue = queue ∧ t.fenceStamp = some ⟨seed, terminal⟩)

/-- The completion event and its wake settle what the batch owes. -/
theorem addTaskDone_inv (h : Owing seed queue taskId terminal db) :
    Inv (addTaskDone db seed queue taskId terminal payloadJson) := by
  have hthere : ∀ q n, EventThere db q n →
      EventThere (taskDoneEvent db seed queue taskId terminal payloadJson) q n :=
    fun _ _ ⟨e, he, hqn⟩ => ⟨e, mem_taskDoneEvent he, hqn⟩
  have hcases : ∀ e ∈ (taskDoneEvent db seed queue taskId terminal payloadJson).events, _ :=
    fun e he => taskDoneEvent_cases he
  have hended : ∀ t ∈ db.tasks, t.queue = queue → t.taskId = taskId →
      t.fenceStamp = some ⟨seed, terminal⟩ → _ :=
    fun t ht hq hid hs => taskDoneEvent_there payloadJson ht hq hid hs
  unfold addTaskDone
  obtain ⟨events, heq⟩ := taskDoneEvent_withEvents db seed queue taskId payloadJson terminal
  rw [heq] at hthere hcases hended ⊢
  refine wakeWaiters_inv (h.toCore.withEvents events) ?_ ?_
  · rintro w hw ⟨e, he, hq, hn⟩
    obtain hold | ⟨hq', hn', hs⟩ := hcases e he
    · exact absurd ⟨e, hold, hq, hn⟩ (h.quiet w hw)
    · refine ⟨hq.symm.trans hq', hn.symm.trans hn', ?_⟩
      rw [recordedEvent_eq_some.mpr ⟨he, hq', hn', hs⟩]
      simp
  · intro t ht hl
    obtain hold | ⟨hid, hq, hs⟩ := h.recorded t ht hl
    · exact hthere _ _ hold
    · rw [hid, hq]
      exact hended t ht hq hid hs

/-! ## Carrying the invariant over -/

section Carry

variable {db' : Db}

/-- A group of statements that keeps the core, adds no wait, records no event and ends no task but
one this batch stamped. -/
theorem Inv.owing (h : Inv db) (hcore : Core db') (hw : ∀ w ∈ db'.waits, w ∈ db.waits)
    (he : db'.events = db.events)
    (ht : ∀ t' ∈ db'.tasks, ¬ t'.state.Live → (∃ t ∈ db.tasks, t.Same t' ∧ ¬ t.state.Live) ∨
      (t'.taskId = taskId ∧ t'.queue = queue ∧ t'.fenceStamp = some ⟨seed, terminal⟩)) :
    Owing seed queue taskId terminal db' := by
  refine ⟨hcore, fun w hmem hthere => ?_, fun t' hmem hl => ?_⟩
  · exact h.quiet w (hw w hmem) ((EventThere.of_eq he).mp hthere)
  · obtain ⟨t, htm, hsame, htl⟩ | hended := ht t' hmem hl
    · refine Or.inl ((EventThere.of_eq he).mpr ?_)
      rw [hsame.queue, hsame.taskId]
      exact h.recorded t htm htl
    · exact Or.inr hended

/-- A batch that keeps the core, adds no wait, records no event and ends no task. -/
theorem Inv.carry (h : Inv db) (hcore : Core db') (hw : ∀ w ∈ db'.waits, w ∈ db.waits)
    (he : db'.events = db.events)
    (ht : ∀ t' ∈ db'.tasks, ¬ t'.state.Live → ∃ t ∈ db.tasks, t.Same t' ∧ ¬ t.state.Live) :
    Inv db' := by
  refine ⟨hcore, fun w hmem hthere => ?_, fun t' hmem hl => ?_⟩
  · exact h.quiet w (hw w hmem) ((EventThere.of_eq he).mp hthere)
  · obtain ⟨t, htm, hsame, htl⟩ := ht t' hmem hl
    rw [EventThere.of_eq he, hsame.queue, hsame.taskId]
    exact h.recorded t htm htl

end Carry

end Durablerun
