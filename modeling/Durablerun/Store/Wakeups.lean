import Durablerun.Store.Course

/-!
# No wakeup is lost

A wait says what its run is parked on, and stands only while its event is not there. So when an
emit, or the end of a task, records the event, every run that waits on it is woken and no wait on it
is left; and a run with no wait on an event is left alone by every emit of it.

Reference: `packages/store-libsql/src/store.ts` and `packages/core/src/statements/events.ts`.
-/

namespace Durablerun

open Relational

variable {again : Batch → Db → Prop} {s : Sys} {b : Batch} {seed : String} {now : ℤ} {db db' : Db}
  {call : Call}

/-! ## What ends a task -/

/-- The calls whose batches end a task. -/
def Call.Ends : Call → Prop
  | .complete _ _ _ | .failInto _ | .sweepLostLaunch _ | .sweepClaimTimeout _ => True
  | .cancelTransition _ => True
  | _ => False

/-- Only an ending batch leaves a task ended. -/
theorem Task.Move.ends {t u : Task} (h : Task.Move seed now db call t u) (hu : ¬ u.state.Live) :
    call.Ends := by
  cases h with
  | booked | infraRetried | revived => exact absurd trivial hu
  | started hl => exact absurd hl hu
  | followed _ hq | rollingBack _ _ _ _ _ hq | retrying _ _ _ _ hq => exact absurd hq.live hu
  | completed | cancelled => trivial
  | failed _ _ _ _ hends =>
    cases call with
    | failInto | sweepLostLaunch | sweepClaimTimeout => trivial
    | _ => cases hends

/-- The move that left a task ended. -/
theorem Task.Moved.last {t t' : Task} (h : Task.Moved seed now db call t t') (hl : t.state.Live)
    (hl' : ¬ t'.state.Live) : ∃ u v, Task.Moved seed now db call t u ∧
      Task.Move seed now db call u v ∧ ¬ v.state.Live := by
  cases h with
  | refl => exact absurd hl hl'
  | tail hmoved hturn =>
    obtain ⟨v, _, _, hmove, rfl⟩ := hturn
    exact ⟨_, v, hmoved, hmove, hl'⟩

/-- A move keeps what identifies the task. -/
theorem Task.Move.same {t u : Task} (h : Task.Move seed now db call t u) : t.Same u := by
  cases h with
  | booked | started | followed | completed | rollingBack | retrying | failed | infraRetried
  | cancelled | revived => exact ⟨rfl, rfl⟩

/-- A moved task is the same task. -/
theorem Task.Moved.same {t t' : Task} (h : Task.Moved seed now db call t t') : t.Same t' := by
  induction h with
  | refl => exact .refl t
  | tail _ hturn ih =>
    obtain ⟨v, _, _, hmove, rfl⟩ := hturn
    exact ih.trans ⟨hmove.same.taskId, hmove.same.queue⟩

/-- A cancellation ends only the task it names. -/
theorem Task.Moved.cancelled {c : Cancellation} {t t' : Task}
    (h : Task.Moved seed now db (.cancelTransition c) t t') (hl : t.state.Live)
    (hl' : ¬ t'.state.Live) : t.taskId = c.taskId := by
  obtain ⟨u, v, hmoved, hmove, hv⟩ := h.last hl hl'
  cases hmove with
  | followed _ hq | rollingBack _ _ _ _ _ hq => exact absurd hq.live hv
  | cancelled hg => exact hmoved.same.taskId.symm.trans hg.1
  | failed _ _ _ _ hends => cases hends

/-! ## Waits and their runs -/

/-- What a registered wait says: a run sleeps on it, in its own queue and task, and the task is live;
the run has no other wait, and the event is not there. -/
structure Registered (db : Db) (w : Wait) : Prop where
  run : ∃ r ∈ db.runs, ParkedOn r w
  task : ∃ t ∈ db.tasks, t.taskId = w.taskId ∧ t.queue = w.queue ∧ t.state.Live
  alone : ∀ w' ∈ db.waits, w'.runId = w.runId → w' = w
  quiet : ¬ EventThere db w.queue w.eventName

/-- Every stored wait is registered. -/
theorem Inv.registered (h : Inv db) {w : Wait} (hw : w ∈ db.waits) : Registered db w := by
  obtain ⟨r, hr, hp⟩ := (h.held w hw).parked
  obtain ⟨t, ht, hid, hq⟩ := h.owner r hr
  have hl : t.state.Live := h.toUnits.live hr ht hid.symm (by simp [hp.state])
  exact ⟨⟨r, hr, hp⟩, ⟨t, ht, hid.trans hp.taskId, hq.trans hp.queue, hl⟩,
    fun w' hw' hid' => h.held.unique hw' hw hid', h.quiet w hw⟩

/-- The run of a wait, woken: pending, and so is its task, with the payload of the event and what it
was parked on. -/
structure Woken (db : Db) (w : Wait) (r : Run) (e : Event) (r' : Run) : Prop where
  same : r.Same r'
  state : r'.state = .pending
  wakeEvent : r'.wakeEvent = some w.eventName
  wakeStep : r'.wakeStep = some w.stepName
  eventPayload : r'.eventPayload = some e.payload
  availableAtMs : r'.availableAtMs = some e.fenceAtMs
  task : ∃ t ∈ db.tasks, runOwnedByTask r' t ∧ t.state = .pending

/-- Every wait of the event's was answered: its run is woken. -/
def Answers (db db' : Db) (w : Wait) : Prop :=
  ∃ r ∈ db.runs, ParkedOn r w ∧ ∃ e ∈ db'.events, e.queue = w.queue ∧ e.eventName = w.eventName ∧
    ∃ r' ∈ db'.runs, Woken db' w r e r'

/-- What a batch makes of the run of a wait that is gone. -/
theorem Wait.Reaped.cases (h : Inv db) (h' : Inv db') {w : Wait} (hw : w ∈ db.waits)
    (hreaped : w.Reaped seed now db db' call) :
    Answers db db' w ∨ (∃ c, call = .claim c) ∨
      ∃ c, call = .cancelTransition c ∧ w.taskId = c.taskId ∧
        ∃ r' ∈ db'.runs, r'.runId = w.runId ∧ r'.state = .cancelled := by
  obtain ⟨r, hr, r', hr', hp, hm⟩ := hreaped
  have hsleeps := hp.state
  cases hm with
  | claimed => exact Or.inr (Or.inl ⟨_, rfl⟩)
  | activated hg | deferred hg => exact absurd (hsleeps.symm.trans hg.1.1.running) (by simp)
  | extended hg | rescheduled hg | suspended hg | leased hg | completed hg | failed hg
  | expired hg => exact absurd (hsleeps.symm.trans hg.1.running) (by simp)
  | awaited _ hn => exact absurd (hsleeps.symm.trans hn.1.running) (by simp)
  | reopened hg | capped hg | timedOut hg => exact absurd (hsleeps.symm.trans hg.1.2.2.1) (by simp)
  | cancelled ht hg hown =>
    exact Or.inr (Or.inr ⟨_, rfl, hp.taskId.symm.trans (hown.1.symm.trans hg.1), _, hr', hp.runId, rfl⟩)
  | @woken _ _ w₂ e hw₂ hp₂ he hq hn =>
    obtain rfl : w₂ = w := h.held.unique hw₂ hw (hp₂.runId.symm.trans hp.runId)
    refine Or.inl ⟨r, hr, hp, e, he, hq, hn, _, hr', ⟨rfl, rfl, rfl, rfl⟩, rfl, hp.wakeEvent,
      hp.wakeStep, rfl, rfl, ?_⟩
    obtain ⟨t, ht, hown⟩ := h'.owner _ hr'
    exact ⟨t, ht, hown, h'.mirror _ hr' t ht hown.1.symm (by simp [Run.stampedAt])⟩

/-! ## emitEvent -/

/-- The emitted event is there. -/
theorem emitEvent_there (call : EmitCall) :
    EventThere (emitEvent seed call now db).db call.queue call.eventName.value := by
  have hcas : EventThere (emitEventCas db seed call now) call.queue call.eventName.value := by
    by_cases hfree : db.events.Free (call.event seed now)
    · exact ⟨_, Table.mem_upsert.mpr (Or.inl ⟨hfree, Or.inr rfl⟩), rfl, rfl⟩
    · -- A row in its way is of the same queue and name, and stays.
      refine EventThere.emitEventCas ?_
      by_contra hno
      refine hfree ⟨List.nodup_singleton _, fun k hk hheld => ?_⟩
      obtain ⟨e, he, hke⟩ := Table.mem_heldKeys.mp hheld
      rw [List.mem_singleton.mp hk] at hke
      obtain ⟨hq, hn⟩ := Prod.mk.inj (List.mem_singleton.mp hke)
      exact hno ⟨e, he, hq.symm, hn.symm⟩
  exact hcas

/-- An emit leaves alone every run with no wait on the event. -/
theorem emitEvent_runs (h : Inv db) (hfresh : Unstamped db seed) (call : EmitCall) {r : Run}
    (hr : r ∈ db.runs) (hno : ∀ w ∈ db.waits, w.runId = r.runId → w.queue = call.queue →
      w.eventName ≠ call.eventName.value) : r ∈ (emitEvent seed call now db).db.runs := by
  have hparked : ∀ q ∈ (emitEventCas db seed call now).runs,
      wakeRunsGuard (emitEventCas db seed call now) seed call.queue call.eventName.value q →
        ∃ w ∈ (emitEventCas db seed call now).waits, ParkedOn q w ∧ w.queue = call.queue ∧
          w.eventName = call.eventName.value := by
    intro q hq hg
    obtain ⟨_, _, ⟨w, hw, hwq, hwn, hid⟩, _⟩ := hg
    have hw' : w ∈ db.waits := hw
    exact ⟨w, hw, h.held.parkedOn hw' hq hid.symm, hwq, hwn⟩
  have hunwoken : ∀ q ∈ (emitEventCas db seed call now).runs,
      q.fenceStamp ≠ some ⟨seed, .wakeRuns⟩ := fun q hq hs => hfresh q hq _ hs rfl
  obtain ⟨r', hr', ⟨_, rfl⟩ | ⟨w, hw, _, _, hp, hq, hn, _⟩⟩ :=
    (wakeWaiters_rel hunwoken hparked).after r hr
  · exact hr'
  · exact absurd hn (hno w hw hp.runId.symm hq)

/-! ## Runs -/

/-- What an emit does: it wakes every run that waits on the event, leaves no wait on it, and leaves
alone every run that does not wait on it. -/
structure EmitWakes (db db' : Db) (queue eventName : String) : Prop where
  wakes : ∀ w ∈ db.waits, w.queue = queue → w.eventName = eventName → Answers db db' w
  reaps : ∀ w ∈ db'.waits, w.queue = queue → w.eventName ≠ eventName
  frame : ∀ r ∈ db.runs, (∀ w ∈ db.waits, w.runId = r.runId → w.queue = queue →
    w.eventName ≠ eventName) → r ∈ db'.runs

/-- An emission wakes what waits for its event. -/
theorem Delivers.emitWakes {call : EmitCall} (h : Delivers s ⟨seed, .emitEvent call⟩ now)
    (hfresh : s.Fresh seed) :
    EmitWakes s.db (Batch.after ⟨seed, .emitEvent call⟩ now s.db) call.queue call.eventName.value := by
  have hthere : EventThere (Batch.after ⟨seed, .emitEvent call⟩ now s.db) call.queue
      call.eventName.value := emitEvent_there call
  have hreaps : ∀ w ∈ (Batch.after ⟨seed, .emitEvent call⟩ now s.db).waits,
      w.queue = call.queue → w.eventName ≠ call.eventName.value := by
    intro w hw hq hn
    exact h.inv.quiet w hw (hq ▸ hn ▸ hthere)
  refine ⟨fun w hw hq hn => ?_, hreaps, fun r hr hno => ?_⟩
  · have hreaped := (h.effect.reaped w hw).resolve_left fun hw' => hreaps w hw' hq hn
    obtain hwoken | ⟨c, hc⟩ | ⟨c, hc, _⟩ := hreaped.cases h.course.inv h.inv hw
    · exact hwoken
    · cases hc
    · cases hc
  · exact emitEvent_runs h.course.inv (h.course.stamps seed hfresh) call hr hno

/-- What the end of a task does: it wakes every run that waits on the task's completion event, but
the task's own, and leaves no wait on it. -/
structure EndWakes (db db' : Db) (t : Task) : Prop where
  wakes : ∀ w ∈ db.waits, w.queue = t.queue → w.eventName = taskDoneEventName t.taskId →
    Answers db db' w ∨ (w.taskId = t.taskId ∧
      ∃ r' ∈ db'.runs, r'.runId = w.runId ∧ r'.state = .cancelled)
  reaps : ∀ w ∈ db'.waits, w.queue = t.queue → w.eventName ≠ taskDoneEventName t.taskId

/-- The end of a task wakes what waits for it. -/
theorem Delivers.endWakes (h : Delivers s b now) {t t' : Task} (ht : t ∈ s.db.tasks)
    (hl : t.state.Live) (ht' : t' ∈ (b.after now s.db).tasks) (hid : t'.taskId = t.taskId)
    (hl' : ¬ t'.state.Live) : EndWakes s.db (b.after now s.db) t := by
  obtain ⟨t₁, ht₁, hmoved⟩ := h.effect.tasks.after t ht
  obtain rfl : t₁ = t' := (b.after now s.db).task_unique ht₁ ht' (hmoved.same.taskId.trans hid.symm)
  have hthere := h.inv.recorded t₁ ht' hl'
  rw [hmoved.same.queue, hid] at hthere
  have hreaps : ∀ w ∈ (b.after now s.db).waits, w.queue = t.queue →
      w.eventName ≠ taskDoneEventName t.taskId := by
    intro w hw hq hn
    exact h.inv.quiet w hw (hq ▸ hn ▸ hthere)
  refine ⟨fun w hw hq hn => ?_, hreaps⟩
  have hreaped := (h.effect.reaped w hw).resolve_left fun hw' => hreaps w hw' hq hn
  obtain hwoken | ⟨c, hc⟩ | ⟨c, hc, hown, hr'⟩ := hreaped.cases h.course.inv h.inv hw
  · exact Or.inl hwoken
  · obtain ⟨u, v, _, hmove, hv⟩ := hmoved.last hl hl'
    have hends := hmove.ends hv
    rw [hc] at hends
    exact hends.elim
  · rw [hc] at hmoved
    exact Or.inr ⟨hown.trans (hmoved.cancelled hl hl').symm, hr'⟩

/-- In every reachable state every wait is registered; an emit wakes every run that then waits on the
event and no other, and the end of a task every run that then waits on its completion event. -/
theorem reachable_wakes (h : Reachable Repeats s) :
    (∀ w ∈ s.db.waits, Registered s.db w) ∧
      (∀ (seed : String) (call : EmitCall) (now : ℤ), s.Fresh seed → s.clock ≤ now →
        call.eventName.FromPort → EmitWakes s.db (Batch.after ⟨seed, .emitEvent call⟩ now s.db)
          call.queue call.eventName.value) ∧
      ∀ (b : Batch) (now : ℤ), s.Fresh b.seed → s.clock ≤ now → b.call.Admitted s.Seen →
        ∀ t ∈ s.db.tasks, t.state.Live → ∀ t' ∈ (b.after now s.db).tasks, t'.taskId = t.taskId →
          ¬ t'.state.Live → EndWakes s.db (b.after now s.db) t := by
  have hcourse := h.course fun _ _ hrepeats => hrepeats
  refine ⟨fun w hw => hcourse.inv.registered hw, fun seed call now hfresh hclock hadm => ?_,
    fun b now hfresh hclock hadm t ht hl t' ht' hid hl' => ?_⟩
  · have hdelivers : Delivers s ⟨seed, .emitEvent call⟩ now := hcourse.delivers hfresh hclock hadm
    exact hdelivers.emitWakes hfresh
  · exact (hcourse.delivers hfresh hclock hadm).endWakes ht hl ht' hid hl'

/-! The sample pass awaits an event, and the event is emitted. -/

def awaitOne : Batch := ⟨"b4", .awaitEvent
  { queue := "q", runId := "r1", taskId := "t", claimToken := "w1", stepName := "s1",
    eventName := .port "go", timeoutMs := none }⟩

def emitOne : Batch := ⟨"b5", .emitEvent ⟨"q", .port "go", "1"⟩⟩

def waitingOne : Sys := runningOne.deliver awaitOne 3

/-- A caller's event name is admitted. -/
theorem go_admitted : (EventName.port "go").Admitted :=
  show ¬ namedUnder "go" RESERVED_EVENT_PREFIX by decide

/-- The store with one waiting run is reachable. -/
theorem waitingOne_reachable (again : Batch → Db → Prop) : Reachable again waitingOne :=
  .step (runningOne_reachable again) (.first _ _ (by decide) (by decide)
    ⟨go_admitted, fun _ ht => absurd ht (Option.not_mem_none _)⟩)

/-- The one wait is registered, and an emission of its event wakes it. -/
theorem reachable_wakes_waitingOne :
    waitingOne.db.waits.rows.map Wait.eventName = ["go"] ∧
      (∀ w ∈ waitingOne.db.waits, Registered waitingOne.db w) ∧
      EmitWakes waitingOne.db (emitOne.after 4 waitingOne.db) "q" "go" :=
  ⟨by decide, (reachable_wakes (waitingOne_reachable _)).1,
    (reachable_wakes (waitingOne_reachable _)).2.1 "b5" ⟨"q", .port "go", "1"⟩ 4 (by decide)
      (by decide) go_admitted⟩

end Durablerun
