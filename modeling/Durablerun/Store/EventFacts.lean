import Durablerun.Store.Ended
import Durablerun.Store.Reads

/-!
# What an event records

The first write of an event stands: a later one takes only its stamp, and a wake copies what is
stored. So the payload of a run is that of the event it was parked on, a task has a completion event
from its first ending on, and whoever asks for the task's outcome, and whenever, is told the first.

Reference: `packages/store-libsql/src/store.ts` and `packages/core/src/statements/events.ts`.
-/

namespace Durablerun

open Relational

variable {again : Batch → Db → Prop} {s : Sys} {b : Batch} {seed : String} {now : ℤ} {db db' : Db}
  {call : Call} {t t' : Task} {taskId payload : String} {outcome : TaskOutcome}

/-! ## The encoding -/

/-- The payload is the text the encoder writes, when that is one the language admits. -/
theorem encodeTaskOutcome_handed {written : Js.Str}
    (h : ChildTasks.encodeTaskOutcome outcome.handed = .ok written) :
    encodeTaskOutcome outcome = Js.text written := by
  simp only [ChildTasks.encodeTaskOutcome, ChildTasks.stringifyJson] at h
  split at h
  · exact congrArg Js.text (Except.ok.inj h)
  · cases h

/-- A completion event is read as the outcome it was written for. -/
theorem decodeTaskOutcome_encode (taskId : String) (outcome : TaskOutcome) :
    decodeTaskOutcome taskId (encodeTaskOutcome outcome) = .ok outcome.result := by
  have hagrees : outcome.handed.Agrees := by
    cases outcome <;> exact ⟨by simp [TaskOutcome.handed], by simp [TaskOutcome.handed]⟩
  have hbare : outcome.handed.rollback = none := by cases outcome <;> rfl
  have hread : ChildTasks.decodeTaskOutcome (Js.utf16 taskId) (Js.utf16 (encodeTaskOutcome outcome)) =
      .ok outcome.handed :=
    ChildTasks.decodeTaskOutcome_eq_ok.mpr
      ⟨⟨_, (ChildTasks.ordered_written outcome.handed).parse_kept, ChildTasks.holds_ordered _⟩,
        hagrees, hbare⟩
  unfold decodeTaskOutcome
  rw [hread]
  cases outcome <;>
    simp [TaskOutcome.handed, TaskOutcome.result, ChildTasks.TaskOutcome.result, Js.text_utf16,
      ChildTasks.TerminalState.taskState]

/-! ## Events stand -/

/-- An event that is kept twice is kept. -/
theorem Event.Kept.trans {e e' e'' : Event} (h : e.Kept e') (h' : e'.Kept e'') : e.Kept e'' :=
  ⟨h'.queue.trans h.queue, h'.eventName.trans h.eventName, h'.payload.trans h.payload,
    h'.emittedAtMs.trans h.emittedAtMs⟩

/-- Every event of the first database stands in the second. -/
def EventsStand (db db' : Db) : Prop := ∀ e ∈ db.events, ∃ e' ∈ db'.events, e.Kept e'

/-- A store's events stand in it. -/
theorem EventsStand.refl (db : Db) : EventsStand db db := fun e he => ⟨e, he, .refl e⟩

/-- Events that stand twice stand. -/
theorem EventsStand.trans {db'' : Db} (h : EventsStand db db') (h' : EventsStand db' db'') :
    EventsStand db db'' := by
  intro e he
  obtain ⟨e', he', hkept⟩ := h e he
  obtain ⟨e'', he'', hkept'⟩ := h' e' he'
  exact ⟨e'', he'', hkept.trans hkept'⟩

/-- An event that was there is there as long as events stand. -/
theorem EventsStand.eventThere {queue name : String} (h : EventsStand db db')
    (hthere : EventThere db queue name) : EventThere db' queue name := by
  obtain ⟨e, he, hq, hn⟩ := hthere
  obtain ⟨e', he', hkept⟩ := h e he
  exact ⟨e', he', hkept.queue.trans hq, hkept.eventName.trans hn⟩

/-- An event after a batch stands from before it, or is the first of its queue and name. -/
theorem Effect.event_cases (h : Effect seed now db db' call) {e : Event} (he : e ∈ db'.events) :
    (∃ e₀ ∈ db.events, e₀.Kept e) ∨
      (¬ EventThere db e.queue e.eventName ∧ Event.Born seed now db' call e) := by
  by_cases hthere : EventThere db e.queue e.eventName
  · obtain ⟨e₀, he₀, hq, hn⟩ := hthere
    obtain ⟨e₁, he₁, hkept⟩ := h.events.after e₀ he₀
    obtain rfl : e₁ = e :=
      db'.event_unique he₁ he (hkept.queue.trans hq) (hkept.eventName.trans hn)
    exact Or.inl ⟨e₀, he₀, hkept⟩
  · refine Or.inr ⟨hthere, (h.events.before e he).resolve_left ?_⟩
    rintro ⟨e₀, he₀, hkept⟩
    exact hthere ⟨e₀, he₀, hkept.queue.symm, hkept.eventName.symm⟩

/-! ## The payloads of runs -/

/-- A run's payload is that of an event it waits on, in its queue. -/
def Payloads (db : Db) (r : Run) : Prop :=
  ∀ payload ∈ r.eventPayload, ∃ e ∈ db.events, e.queue = r.queue ∧ r.wakeEvent = some e.eventName ∧
    e.payload = payload

/-- The runs have one queue and one wake. -/
structure Run.SameWake (r r' : Run) : Prop where
  queue : r'.queue = r.queue
  wakeEvent : r'.wakeEvent = r.wakeEvent
  eventPayload : r'.eventPayload = r.eventPayload

/-- A run's payload stays that of its event as long as events stand and its wake does. -/
theorem Payloads.mono {r r' : Run} (h : Payloads db r) (hstand : EventsStand db db')
    (hsame : r.SameWake r') : Payloads db' r' := by
  intro payload hp
  rw [hsame.eventPayload] at hp
  obtain ⟨e, he, hq, hn, hpayload⟩ := h payload hp
  obtain ⟨e', he', hkept⟩ := hstand e he
  refine ⟨e', he', ?_, ?_, hkept.payload.trans hpayload⟩
  · rw [hkept.queue, hsame.queue, hq]
  · rw [hsame.wakeEvent, hkept.eventName, hn]

/-- A batch keeps a run's wake, clears its payload, or hands it the payload of its event. -/
theorem Run.Move.payloads {r r' : Run} (h : Payloads db r) (hstand : EventsStand db db')
    (hm : Run.Move seed now db db' call r r') : Payloads db' r' := by
  cases hm with
  | claimed | activated | extended | deferred | leased | failed | reopened | capped | timedOut
  | cancelled | expired => exact h.mono hstand ⟨rfl, rfl, rfl⟩
  | rescheduled | suspended | awaited | completed =>
    intro payload hp
    cases hp
  | @woken _ _ w e hw hparked he hq hn =>
    intro payload hp
    refine ⟨e, he, hq.trans hparked.queue.symm, ?_, Option.some.inj hp⟩
    rw [hn]
    exact hparked.wakeEvent

/-- The run follows another of its task, and carries its wake. -/
structure Run.Follows (r p : Run) : Prop extends Run.SameWake r p where
  taskId : p.taskId = r.taskId
  attempt : p.attempt = r.attempt + 1
  wakeStep : p.wakeStep = r.wakeStep

/-- The run is a first one, with no wake, or it follows a run of the database. -/
def Run.Carried (db : Db) (p : Run) : Prop :=
  (p.attempt = 1 ∧ p.wakeEvent = none ∧ p.eventPayload = none ∧ p.wakeStep = none) ∨
    ∃ r ∈ db.runs, r.Follows p

/-- A run a batch adds carries the wake of the run it follows. -/
theorem Run.Born.carried {p : Run} (h : Run.Born seed now db call p) : p.Carried db := by
  cases h with
  | first => exact Or.inl ⟨rfl, rfl, rfl, rfl⟩
  | followed hr => exact Or.inr ⟨_, hr, ⟨rfl, rfl, rfl⟩, rfl, rfl, rfl⟩
  | revived _ _ hp hown =>
    exact Or.inr ⟨_, hp, ⟨hown.2, rfl, rfl⟩, hown.1, rfl, rfl⟩

/-- Every payload a run of the store reaches is that of its event. -/
theorem Reachable.payloads (h : Reachable Repeats s) : ∀ r ∈ s.db.runs, Payloads s.db r := by
  refine h.induct (P := fun s => ∀ r ∈ s.db.runs, Payloads s.db r) (fun _ _ hrepeats => hrepeats)
    (fun r hr => absurd hr (Table.not_mem_empty r)) fun s b now hd ih r' hr' => ?_
  have hstand : EventsStand s.db (b.after now s.db) := hd.effect.events.after
  obtain ⟨r, hr, rfl | hm⟩ | hborn := hd.effect.runs.before r' hr'
  · exact (ih r' hr).mono hstand ⟨rfl, rfl, rfl⟩
  · exact hm.payloads (ih r hr) hstand
  · obtain ⟨_, _, hnone, _⟩ | ⟨r, hr, hfollows⟩ := hborn.carried
    · intro payload hp
      exact absurd (hnone ▸ hp) (Option.not_mem_none payload)
    · exact (ih r hr).mono hstand hfollows.toSameWake

/-! ## The first outcome -/

/-- The outcome that the task's first ending left it with. -/
def FirstOutcome (history : List Delivery) (taskId : String) (outcome : TaskOutcome) : Prop :=
  ∃ newer e older, history = newer ++ e :: older ∧ e.Ends taskId ∧
    (∀ e' ∈ older, ¬ e'.Ends taskId) ∧
    ∃ t ∈ e.after.tasks, t.taskId = taskId ∧ t.outcome = some outcome

/-- The payload is the first outcome's, and is read as it. -/
def TellsFirst (history : List Delivery) (taskId payload : String) : Prop :=
  ∃ outcome, FirstOutcome history taskId outcome ∧ payload = encodeTaskOutcome outcome ∧
    decodeTaskOutcome taskId payload = .ok outcome.result

/-- A task's first outcome is that of a delivery that ended it. -/
theorem FirstOutcome.ends {history : List Delivery} (h : FirstOutcome history taskId outcome) :
    ∃ e ∈ history, e.Ends taskId := by
  obtain ⟨newer, e, older, rfl, hends, _⟩ := h
  exact ⟨e, List.mem_append_right newer List.mem_cons_self, hends⟩

/-- What is told of the first outcome is told by a longer history. -/
theorem TellsFirst.cons {history : List Delivery} (e : Delivery) (h : TellsFirst history taskId payload) :
    TellsFirst (e :: history) taskId payload := by
  obtain ⟨outcome, ⟨newer, e', older, rfl, hfirst⟩, hpayload⟩ := h
  exact ⟨outcome, ⟨e :: newer, e', older, rfl, hfirst⟩, hpayload⟩

/-- A list splits in one way at the last element of a kind. -/
theorem last_split_unique {α : Type} {p : α → Prop} {xs ys xs' ys' : List α} {x x' : α}
    (heq : xs ++ x :: ys = xs' ++ x' :: ys') (hx : p x) (hx' : p x') (hys : ∀ y ∈ ys, ¬ p y)
    (hys' : ∀ y ∈ ys', ¬ p y) : x = x' := by
  obtain ⟨zs, rfl, hzs⟩ | ⟨zs, rfl, hzs⟩ := List.append_eq_append_iff.mp heq
  · cases zs with
    | nil => exact (List.cons.inj hzs).1
    | cons z zs =>
      obtain ⟨-, rfl⟩ := List.cons.inj hzs
      exact absurd hx' (hys x' (List.mem_append_right zs List.mem_cons_self))
  · cases zs with
    | nil => exact (List.cons.inj hzs).1.symm
    | cons z zs =>
      obtain ⟨-, rfl⟩ := List.cons.inj hzs
      exact absurd hx (hys' x (List.mem_append_right zs List.mem_cons_self))

/-- A task has one first outcome. -/
theorem FirstOutcome.unique {history : List Delivery} {outcome' : TaskOutcome}
    (h : FirstOutcome history taskId outcome) (h' : FirstOutcome history taskId outcome') :
    outcome = outcome' := by
  obtain ⟨newer, e, older, rfl, hends, hno, t, ht, hid, hout⟩ := h
  obtain ⟨newer', e', older', heq, hends', hno', t', ht', hid', hout'⟩ := h'
  obtain rfl := last_split_unique heq hends hends' hno hno'
  obtain rfl := Db.task_unique ht ht' (hid.trans hid'.symm)
  exact Option.some.inj (hout.symm.trans hout')

/-- What is told of a task is told once and for all. -/
theorem TellsFirst.unique {history : List Delivery} {payload' : String}
    (h : TellsFirst history taskId payload) (h' : TellsFirst history taskId payload') :
    payload = payload' := by
  obtain ⟨outcome, hfirst, rfl, _⟩ := h
  obtain ⟨outcome', hfirst', rfl, _⟩ := h'
  rw [hfirst.unique hfirst']

/-! ## Completion events -/

/-- Two tasks' completion events have two names. -/
theorem taskDoneEventName_inj {taskId taskId' : String}
    (h : taskDoneEventName taskId = taskDoneEventName taskId') : taskId = taskId' :=
  append_injective h

/-- A completion event's name is one of the engine's. -/
theorem taskDoneEventName_reserved (taskId : String) :
    namedUnder (taskDoneEventName taskId) RESERVED_EVENT_PREFIX := by
  refine (namedUnder_iff_isPrefix).mpr ?_
  unfold taskDoneEventName
  rw [String.toList_append]
  exact List.prefix_append_of_prefix (by decide)

/-- A completion event a batch records is of a task that the batch leaves ended. -/
theorem Event.Born.completion {e : Event} (h : Event.Born seed now db' call e)
    (hport : ∀ emitted, call = .emitEvent emitted → emitted.eventName.FromPort)
    (hname : e.eventName = taskDoneEventName taskId) :
    ∃ t ∈ db'.tasks, t.taskId = taskId ∧ e.queue = t.queue ∧
      ∃ outcome, t.outcome = some outcome ∧ e.payload = encodeTaskOutcome outcome := by
  cases h with
  | @emitted emitted =>
    have hfrom := hport emitted rfl
    cases hraw : emitted.eventName with
    | port raw =>
      rw [hraw] at hfrom
      have hvalue : raw = taskDoneEventName taskId := by
        rw [← hname]
        show raw = emitted.eventName.value
        rw [hraw]
        rfl
      exact absurd (hvalue ▸ taskDoneEventName_reserved taskId) hfrom
    | taskDone =>
      rw [hraw] at hfrom
      exact hfrom.elim
  | ended ht hends hq hn hpayload =>
    exact ⟨_, ht, taskDoneEventName_inj (hn.symm.trans hname), hq, _, hends, hpayload⟩

/-- A task with an outcome has ended. -/
theorem Task.outcome_ended (h : t.outcome = some outcome) : ¬ t.state.Live := by
  intro hl
  unfold Task.outcome at h
  cases hst : t.state with
  | pending | running | sleeping =>
    rw [hst] at h
    cases h
  | completed | failed | cancelled =>
    rw [hst] at hl
    exact hl

/-- A task that an ended one was before a batch. -/
theorem Effect.ended_before (h : Effect seed now db db' call) (ht' : t' ∈ db'.tasks)
    (hended : ¬ t'.state.Live) : ∃ t ∈ db.tasks, t.Same t' := by
  obtain ⟨t, ht, hmoved⟩ | hborn := h.tasks.before t' ht'
  · have hmoved : Task.Moved seed now db call t t' := hmoved
    exact ⟨t, ht, hmoved.same⟩
  · exact absurd hborn.live hended

/-- What every completion event says, and when there is one. -/
structure Completions (s : Sys) : Prop where
  there : ∀ t ∈ s.db.tasks, EventThere s.db t.queue (taskDoneEventName t.taskId) ↔
    ∃ e ∈ s.history, e.Ends t.taskId
  first : ∀ e ∈ s.db.events, ∀ taskId, e.eventName = taskDoneEventName taskId →
    TellsFirst s.history taskId e.payload

/-- A task that ended is there. -/
theorem Trace.task_of_ends (h : Trace s) {e : Delivery} (he : e ∈ s.history) (hends : e.Ends taskId) :
    ∃ t ∈ s.db.tasks, t.taskId = taskId := by
  obtain ⟨⟨t, ht, hid, _⟩, _⟩ := hends
  obtain ⟨t', ht', hsame⟩ := (h.seen e.before (Or.inr ⟨e, he, rfl⟩)).2.tasks t ht
  exact ⟨t', ht', hsame.taskId.trans hid⟩

/-- The first completion event of a task is recorded by the batch that ends the task first, with the
outcome it leaves. -/
theorem Delivers.first_completion (hd : Delivers s b now) (ih : Completions s) {e : Event}
    (hno : ¬ EventThere s.db e.queue e.eventName)
    (hborn : Event.Born b.seed now (b.after now s.db) b.call e)
    (hname : e.eventName = taskDoneEventName taskId) :
    TellsFirst (s.delivery b now :: s.history) taskId e.payload := by
  have hport : ∀ emitted, b.call = .emitEvent emitted → emitted.eventName.FromPort := by
    intro emitted hcall
    have hadm := hd.admitted
    rw [hcall] at hadm
    exact hadm
  obtain ⟨t', ht', rfl, hq, outcome, hout, hpayload⟩ := hborn.completion hport hname
  obtain ⟨t, ht, hsame⟩ := hd.effect.ended_before ht' (Task.outcome_ended hout)
  have hquiet : ¬ EventThere s.db t.queue (taskDoneEventName t.taskId) := by
    rw [← hsame.queue, ← hsame.taskId, ← hq, ← hname]
    exact hno
  have hlive : t.state.Live := by
    by_contra hended
    exact hquiet (hd.course.inv.recorded t ht hended)
  have hearlier : ∀ e' ∈ s.history, ¬ e'.Ends t'.taskId := by
    intro e' he' hends
    rw [hsame.taskId] at hends
    exact hquiet ((ih.there t ht).mpr ⟨e', he', hends⟩)
  have hends : (s.delivery b now).Ends t'.taskId :=
    ⟨⟨t, ht, hsame.taskId.symm, hlive⟩, t', ht', rfl, Task.outcome_ended hout⟩
  refine ⟨outcome, ⟨[], _, s.history, rfl, hends, hearlier, t', ht', rfl, hout⟩, hpayload, ?_⟩
  rw [hpayload]
  exact decodeTaskOutcome_encode t'.taskId outcome

/-- A delivery keeps every completion event that of its task's first outcome. -/
theorem Completions.deliver (ih : Completions s) (hd : Delivers s b now) :
    Completions (s.deliver b now) := by
  have hstand : EventsStand s.db (b.after now s.db) := hd.effect.events.after
  have hfirst : ∀ e ∈ (b.after now s.db).events, ∀ taskId, e.eventName = taskDoneEventName taskId →
      TellsFirst (s.delivery b now :: s.history) taskId e.payload := by
    intro e he taskId hname
    obtain ⟨e₀, he₀, hkept⟩ | ⟨hno, hborn⟩ := hd.effect.event_cases he
    · have htells := ih.first e₀ he₀ taskId (hkept.eventName.symm.trans hname)
      rw [hkept.payload]
      exact htells.cons _
    · exact hd.first_completion ih hno hborn hname
  refine ⟨fun t' ht' => ⟨?_, ?_⟩, hfirst⟩
  · rintro ⟨e, he, _, hname⟩
    obtain ⟨_, hout, _⟩ := hfirst e he t'.taskId hname
    exact hout.ends
  · rintro ⟨e, he, hends⟩
    obtain rfl | he := List.mem_cons.mp he
    · obtain ⟨_, t₁, ht₁, hid, hended⟩ := hends
      obtain rfl := Db.task_unique ht₁ ht' hid
      exact hd.inv.recorded t₁ ht' hended
    · obtain ⟨t, ht, hid⟩ := hd.course.task_of_ends he hends
      obtain ⟨t₁, ht₁, hmoved⟩ := hd.effect.tasks.after t ht
      have hsame : t.Same t₁ := Task.Moved.same hmoved
      obtain rfl := Db.task_unique ht₁ ht' (hsame.taskId.trans hid)
      rw [hsame.queue, hsame.taskId]
      exact hstand.eventThere ((ih.there t ht).mpr ⟨e, he, hid ▸ hends⟩)

/-- Every completion event a run of the store reaches is that of its task's first outcome. -/
theorem Reachable.completions (h : Reachable Repeats s) : Completions s := by
  refine h.induct (P := Completions) (fun _ _ hrepeats => hrepeats) ⟨?_, ?_⟩
    fun s b now hd ih => ih.deliver hd
  · exact fun t ht => absurd ht (Table.not_mem_empty t)
  · exact fun e he => absurd he (Table.not_mem_empty e)

/-! ## Answers -/

/-- The child whose outcome a call awaits. -/
def Call.awaitedChild : Call → Option String
  | .awaitEvent call => call.eventName.taskId
  | .recordTaskDone call => some call.childTaskId
  | _ => none

/-- A read answers with an event that is there. -/
theorem emittedEventRead_eq_some {queue runId claimToken : String} {eventName : EventName}
    (h : emittedEventRead db queue runId taskId claimToken eventName = some payload) :
    ∃ e ∈ db.events, e.eventName = eventName.value ∧ e.payload = payload := by
  unfold emittedEventRead at h
  split at h
  · obtain ⟨e, hfind, rfl⟩ := Option.map_eq_some_iff.mp h
    have hfound := List.find?_some hfind
    rw [decide_eq_true_eq] at hfound
    exact ⟨e, List.mem_of_find?_eq_some hfind, hfound.2, rfl⟩
  · cases h

/-- An await on a child answers with a completion event of the child's. -/
theorem Call.hit_completion {child : String} (hchild : call.awaitedChild = some child)
    (hhit : call.hit db = some payload) :
    ∃ e ∈ db.events, e.eventName = taskDoneEventName child ∧ e.payload = payload := by
  cases call with
  | awaitEvent call =>
    have hname : call.eventName.taskId = some child := hchild
    obtain ⟨e, he, hn, hpayload⟩ := emittedEventRead_eq_some hhit
    refine ⟨e, he, hn.trans ?_, hpayload⟩
    cases hevent : call.eventName with
    | port raw =>
      rw [hevent] at hname
      cases hname
    | taskDone taskId =>
      rw [hevent] at hname
      rw [← Option.some.inj hname]
      rfl
  | recordTaskDone call =>
    obtain ⟨e, he, hn, hpayload⟩ := emittedEventRead_eq_some hhit
    exact ⟨e, he, hn.trans (congrArg taskDoneEventName (Option.some.inj hchild)), hpayload⟩
  | _ => cases hchild

/-! ## Runs of the store -/

/-- What holds of the events, and of what they are copied to. -/
structure EventFacts (s : Sys) : Prop where
  /-- An event stands from its first write on. -/
  stand : ∀ d, s.Seen d → EventsStand d s.db
  /-- A run's payload is that of the event it waited on. -/
  payloads : ∀ r ∈ s.db.runs, Payloads s.db r
  /-- A run a delivery adds has the wake of the run it follows. -/
  carried : ∀ e ∈ s.history, ∀ p ∈ e.after.runs, (∀ r ∈ e.before.runs, r.runId ≠ p.runId) →
    p.Carried e.before
  /-- A task has a completion event when it ended, and it tells the first outcome. -/
  completions : Completions s
  /-- Every await on a task that was answered was told its first outcome. -/
  answers : ∀ e ∈ s.history, ∀ child, e.batch.call.awaitedChild = some child →
    ∀ payload, e.batch.call.hit e.after = some payload → TellsFirst s.history child payload
  /-- So is every run that was woken by a task's end. -/
  woken : ∀ r ∈ s.db.runs, ∀ child, r.wakeEvent = some (taskDoneEventName child) →
    ∀ payload ∈ r.eventPayload, TellsFirst s.history child payload
  /-- And there is one such outcome to tell. -/
  one : ∀ child payload payload', TellsFirst s.history child payload →
    TellsFirst s.history child payload' → payload = payload'

/-- The events of every state seen still stand. -/
theorem Reachable.eventsStand (h : Reachable Repeats s) : ∀ d, s.Seen d → EventsStand d s.db :=
  h.since (R := EventsStand) (fun _ _ hrepeats => hrepeats) .refl
    fun _ _ _ _ hd hstand => hstand.trans hd.effect.events.after

/-- Every run that a batch placed carries the wake of the run it follows. -/
theorem Reachable.carried (h : Reachable Repeats s) :
    ∀ e ∈ s.history, ∀ p ∈ e.after.runs, (∀ r ∈ e.before.runs, r.runId ≠ p.runId) →
      p.Carried e.before := by
  refine h.induct (P := fun s => ∀ e ∈ s.history, ∀ p ∈ e.after.runs,
    (∀ r ∈ e.before.runs, r.runId ≠ p.runId) → p.Carried e.before)
    (fun _ _ hrepeats => hrepeats) (fun e he => absurd he List.not_mem_nil) fun s b now hd ih e he p hp hnew => ?_
  obtain rfl | he := List.mem_cons.mp he
  · obtain ⟨r, hr, hm⟩ | hborn := hd.effect.runs.before p hp
    · refine absurd ?_ (hnew r hr)
      obtain rfl | hm := hm
      · rfl
      · exact hm.same.runId.symm
    · exact hborn.carried
  · exact ih e he p hp hnew

/-- In every reachable state every event stands as it was first recorded, and every payload and every
answer is what it records; of a task, that is the outcome of its first ending. -/
theorem reachable_events (h : Reachable Repeats s) : EventFacts s := by
  have hcourse := h.course fun _ _ hrepeats => hrepeats
  have hstand := h.eventsStand
  have hpayloads := h.payloads
  have hcompletions := h.completions
  refine ⟨hstand, hpayloads, h.carried, hcompletions, ?_, ?_, fun _ _ _ ht ht' => ht.unique ht'⟩
  · intro e he child hchild payload hhit
    obtain ⟨e₀, he₀, hname, rfl⟩ := Call.hit_completion hchild hhit
    obtain ⟨e', he', hkept⟩ := hstand e.after (hcourse.after e he).2 e₀ he₀
    rw [← hkept.payload]
    exact hcompletions.first e' he' child (hkept.eventName.trans hname)
  · intro r hr child hwake payload hp
    obtain ⟨e, he, _, hname, rfl⟩ := hpayloads r hr payload hp
    exact hcompletions.first e he child (Option.some.inj (hname.symm.trans hwake))

/-- The failed task's completion event is there, with its outcome. -/
theorem reachable_events_failedOne :
    failedOne.db.events.rows.map Event.eventName = ["$task-done:t"] ∧ EventFacts failedOne :=
  ⟨by decide, reachable_events (failedOne_reachable _)⟩

end Durablerun
