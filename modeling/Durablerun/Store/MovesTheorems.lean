import Durablerun.Store.Moves

/-!
# The effect of every batch

`Batch.effect`: a batch of its own seed makes of the tables what `Effect` says. Each batch is read
off its statements in order. The compare-and-set moves its runs, a follow-on finds them by their
stamp, which no other run carries, and the wake at the end finds only runs that were parked when the
batch began.

Reference: `packages/store-libsql/src/store.ts`.
-/

namespace Durablerun

open Relational

variable {seed σ queue runId eventName : String} {now : ℤ} {db db₁ db₂ db' : Db} {call : Call}
  {name fence : Statement} {out : Outcome}

/-! ## Stamped rows -/

/-- A run with a stamp of the batch, after its compare-and-set, is one the compare-and-set took. -/
theorem stamped_update (hfresh : Unstamped db seed) {p : Run → Prop} [DecidablePred p]
    {f : Table.Change Run.keys} {r' : Run} (hr' : r' ∈ db.runs.update p f)
    (hs : r'.fenceStamp = some ⟨seed, name⟩) : ∃ r ∈ db.runs, p r ∧ r' = f r := by
  obtain hupdated | ⟨hr', _⟩ := Table.update_cases hr'
  · exact hupdated
  · exact absurd rfl (hfresh r' hr' _ hs)

/-- A move of a task, under its statement's stamp. -/
theorem Task.Move.turn {t u : Task} (h : Task.Move seed now db call t u) (at' : ℤ) :
    Task.Moved seed now db call t (u.stampedAt ⟨seed, name⟩ at') :=
  .single ⟨u, name, at', h, rfl⟩

/-- A task that is moved twice is moved. -/
theorem Task.Moved.trans {t u v : Task} (h : Task.Moved seed now db call t u)
    (h' : Task.Moved seed now db call u v) : Task.Moved seed now db call t v :=
  Relation.ReflTransGen.trans h h'

/-- Every task is there, moved by statements of the batch. -/
abbrev TasksMoved (seed : String) (now : ℤ) (db : Db) (call : Call) (db₁ db₂ : Db) : Prop :=
  Table.Rel (Task.Moved seed now db call) db₁.tasks db₂.tasks

/-- Tasks that are moved twice are moved. -/
theorem TasksMoved.trans {db₃ : Db} (h : TasksMoved seed now db call db₁ db₂)
    (h' : TasksMoved seed now db call db₂ db₃) : TasksMoved seed now db call db₁ db₃ := by
  have htrans : ∀ t u v, Task.Moved seed now db call t u → Task.Moved seed now db call u v →
      Task.Moved seed now db call t v := fun _ _ _ => .trans
  exact Table.Rel.trans htrans h h'

/-- Tasks that stay are not moved. -/
theorem TasksMoved.of_eq (h : db₂.tasks = db₁.tasks) : TasksMoved seed now db call db₁ db₂ := by
  unfold TasksMoved
  rw [h]
  exact .refl (fun _ => .refl) _

/-- A follow-on moves the tasks of its sources. -/
theorem runsToTasks_moved {where' : Run → Prop} [DecidablePred where'] {narrow : Task → Prop}
    [DecidablePred narrow] {set : Table.Change Task.keys}
    (h : ∀ t ∈ db₁.tasks, ∀ f ∈ db₁.runs, Follows seed fence queue where' narrow f t →
      t.queue = queue → Task.Move seed now db call t (set t)) :
    TasksMoved seed now db call db₁ (runsToTasks db₁ seed name fence queue where' narrow set) :=
  runsToTasks_rel (fun _ => .refl) fun t ht f hf hfol hq at' => (h t ht f hf hfol hq).turn at'

/-! ## The wake -/

/-- The least of instants that are all one instant is that instant. -/
theorem sourceInstant_eq {instants : List ℤ} {x : ℤ} (hmem : x ∈ instants)
    (hall : ∀ y ∈ instants, y = x) : sourceInstant instants = x := by
  have hmin : instants.min? = some x :=
    List.min?_eq_some_iff.mpr ⟨hmem, fun y hy => (hall y hy).ge⟩
  rw [sourceInstant, hmin, Option.getD_some]

/-- The run as the wake of an event leaves it. -/
def Run.woken (seed : String) (r : Run) (e : Event) : Run :=
  { r with
      state := .pending
      availableAtMs := some e.fenceAtMs
      eventPayload := some e.payload }.stampedAt ⟨seed, .wakeFinished⟩ e.fenceAtMs

/-- What the wake assigns a parked run, before its stamp is sealed. -/
theorem wakeAssignments_parked {r : Run} {w : Wait} {e : Event} (hp : ParkedOn r w)
    (hn : w.eventName = eventName) (he : recordedEvent db₁ seed r.queue eventName = some e) :
    (wakeAssignments db₁ seed eventName r).stampedAt ⟨seed, .wakeFinished⟩ e.fenceAtMs =
      r.woken seed e := by
  have hevent := hp.wakeEvent
  have hstep := hp.wakeStep
  rw [hn] at hevent
  simp only [wakeAssignments, Run.woken, Run.stampedAt, he, Option.map_some, hstep]
  cases r
  simp_all

/-- The wake's first statement takes the runs its guard finds. -/
theorem wakeRuns_rel : Table.Rel (fun r r₁ => r ∈ db₁.runs ∧
    ((¬ wakeRunsGuard db₁ seed queue eventName r ∧ r₁ = r) ∨
      (wakeRunsGuard db₁ seed queue eventName r ∧ r₁ = wakeAssignments db₁ seed eventName r)))
    db₁.runs (wakeRuns db₁ seed queue eventName).runs :=
  .update (fun _ hr hg => ⟨hr, Or.inr ⟨hg, rfl⟩⟩) fun _ hr hg => ⟨hr, Or.inl ⟨hg, rfl⟩⟩

/-- The wake took the run, and the seal that ends the wake selects it. -/
def SealSelects (seed queue eventName : String) (r : Run) : Prop :=
  (r.queue = queue ∧ r.wakeEvent = some eventName ∧ r.state = .pending) ∧
    r.fenceStamp = some ⟨seed, .wakeRuns⟩

/-- The seal overwrites the stamp of the runs it selects, at the event's instant. -/
theorem sealed_rel (hno : ∀ r ∈ db₁.runs, r.fenceStamp ≠ some ⟨seed, .wakeRuns⟩) :
    Table.Rel (fun r₁ r' => (¬ SealSelects seed queue eventName r₁ ∧ r' = r₁) ∨
        (SealSelects seed queue eventName r₁ ∧
          ∃ at', r' = r₁.stampedAt ⟨seed, .wakeFinished⟩ at' ∧
            ∀ e, recordedEvent db₁ seed queue eventName = some e → at' = e.fenceAtMs))
      (wakeRuns db₁ seed queue eventName).runs (wakeWaiters db₁ seed queue eventName).runs := by
  refine Table.Rel.update (T := (wakeRuns db₁ seed queue eventName).runs) ?_ fun r₁ hr₁ hnot => ?_
  · rintro r₁ hr₁ ⟨f, hf, hsel, hid⟩
    rw [(wakeRuns db₁ seed queue eventName).run_unique hf hr₁ hid] at hsel
    have hinstant : ∀ g ∈ (wakeRuns db₁ seed queue eventName).runs,
        SealSelects seed queue eventName g → ∀ e, recordedEvent db₁ seed queue eventName = some e →
          g.fenceAtMs = e.fenceAtMs := by
      intro g hg hgs e he
      obtain ⟨r, _, hr, ⟨_, rfl⟩ | ⟨_, rfl⟩⟩ := wakeRuns_rel.before g hg
      · exact absurd hgs.2 (hno g hr)
      · have hq : r.queue = queue := hgs.1.1
        simp only [wakeAssignments, hq, he, Option.map_some, Option.getD_some]
    refine Or.inr ⟨hsel, _, rfl, fun e he => sourceInstant_eq ?_ fun y hy => ?_⟩
    · refine List.mem_map.mpr ⟨r₁, List.mem_filter.mpr ⟨hr₁, ?_⟩, hinstant r₁ hr₁ hsel e he⟩
      exact decide_eq_true hsel
    · obtain ⟨g, hg, rfl⟩ := List.mem_map.mp hy
      obtain ⟨hgm, hgs⟩ := List.mem_filter.mp hg
      simp only [decide_eq_true_eq] at hgs
      exact hinstant g hgm hgs e he
  · exact Or.inl ⟨fun hsel => hnot ⟨r₁, hr₁, hsel, rfl⟩, rfl⟩

/-- Where every run the wake finds is parked, the wake relates each run to its image: woken with the
recorded event, or as it was. -/
theorem wakeWaiters_rel (hno : ∀ r ∈ db₁.runs, r.fenceStamp ≠ some ⟨seed, .wakeRuns⟩)
    (hparked : ∀ r ∈ db₁.runs, wakeRunsGuard db₁ seed queue eventName r →
      ∃ w ∈ db₁.waits, ParkedOn r w ∧ w.queue = queue ∧ w.eventName = eventName) :
    Table.Rel (fun r r' => (¬ wakeRunsGuard db₁ seed queue eventName r ∧ r' = r) ∨
        ∃ w ∈ db₁.waits, ∃ e, recordedEvent db₁ seed queue eventName = some e ∧ ParkedOn r w ∧
          w.queue = queue ∧ w.eventName = eventName ∧ r' = r.woken seed e)
      db₁.runs (wakeWaiters db₁ seed queue eventName).runs := by
  refine Table.Rel.trans (fun r r₁ r' hwoken hsealed => ?_) wakeRuns_rel (sealed_rel hno)
  obtain ⟨hr, ⟨hnot, rfl⟩ | ⟨hg, rfl⟩⟩ := hwoken
  · rcases hsealed with ⟨_, rfl⟩ | ⟨hsel, _⟩
    · exact Or.inl ⟨hnot, rfl⟩
    · exact absurd hsel.2 (hno _ hr)
  · obtain ⟨w, hw, hp, hq, hn⟩ := hparked r hr hg
    obtain ⟨e, he⟩ := Option.ne_none_iff_exists'.mp hg.2.2.2.2.1
    have he' : recordedEvent db₁ seed queue eventName = some e := by
      rwa [hp.queue, hq] at he
    have hsel : SealSelects seed queue eventName (wakeAssignments db₁ seed eventName r) :=
      ⟨⟨hp.queue.trans hq, rfl, rfl⟩, rfl⟩
    rcases hsealed with ⟨hno', _⟩ | ⟨_, at', rfl, hat⟩
    · exact absurd hsel hno'
    · refine Or.inr ⟨w, hw, e, he', hp, hq, hn, ?_⟩
      rw [hat e he', wakeAssignments_parked hp hn he]

/-! ## Before the wake -/

/-- The run as the statements before the wake leave it: as it was, or moved, and then no run the wake
could find. -/
def Run.Early (seed : String) (now : ℤ) (db db' : Db) (call : Call) (r r₁ : Run) : Prop :=
  r₁ = r ∨ (Run.Move seed now db db' call r r₁ ∧ (r.state = .running ∨ r₁.state ≠ .sleeping) ∧
    r₁.fenceStamp ≠ some ⟨seed, .wakeRuns⟩)

/-- A run the statements before the wake added, under an id of its own. -/
structure Run.BornEarly (seed : String) (now : ℤ) (db : Db) (call : Call) (p : Run) : Prop where
  born : Run.Born seed now db call p
  fresh : ∀ r ∈ db.runs, r.runId ≠ p.runId
  stamp : p.fenceStamp ≠ some ⟨seed, .wakeRuns⟩

/-- What the statements before the wake make of the runs. -/
abbrev EarlyRuns (seed : String) (now : ℤ) (db db' : Db) (call : Call) (db₁ : Db) : Prop :=
  Table.Moves (Run.Early seed now db db' call) (Run.BornEarly seed now db call) db.runs db₁.runs

/-- Runs that stay are as the batch found them. -/
theorem EarlyRuns.of_eq (h : db₁.runs = db.runs) : EarlyRuns seed now db db' call db₁ := by
  have hrefl : ∀ r : Run, Run.Early seed now db db' call r r := fun _ => Or.inl rfl
  unfold EarlyRuns
  rw [h]
  exact .refl hrefl _

/-- What holds of the runs so far holds while they stay. -/
theorem EarlyRuns.of_runs (h : EarlyRuns seed now db db' call db₁) (hruns : db₂.runs = db₁.runs) :
    EarlyRuns seed now db db' call db₂ := by
  unfold EarlyRuns
  rwa [hruns]

/-- A compare-and-set on running runs, or one that puts no run to sleep. -/
theorem EarlyRuns.update {p : Run → Prop} [DecidablePred p] {f : Table.Change Run.keys}
    (h : ∀ r ∈ db.runs, p r → Run.Move seed now db db' call r (f r) ∧
      (r.state = .running ∨ (f r).state ≠ .sleeping) ∧
      (f r).fenceStamp ≠ some ⟨seed, .wakeRuns⟩) :
    EarlyRuns seed now db db' call { db with runs := db.runs.update p f } := by
  have hrel : Table.Rel (Run.Early seed now db db' call) db.runs (db.runs.update p f) := by
    refine Table.Rel.update (fun r hr hp => ?_) fun r _ _ => Or.inl rfl
    exact Or.inr (h r hr hp)
  exact hrel.moves _

/-- One run more, placed after the compare-and-set. -/
theorem EarlyRuns.push {p : Run} (h : EarlyRuns seed now db db' call db₁)
    (hruns : ∀ r, r ∈ db₂.runs ↔ r ∈ db₁.runs ∨ r = p) (hp : Run.BornEarly seed now db call p) :
    EarlyRuns seed now db db' call db₂ := by
  refine ⟨fun r hr => ?_, fun r hr => ?_⟩
  · obtain hr | rfl := (hruns r).mp hr
    · exact h.before r hr
    · exact Or.inr hp
  · obtain ⟨r₁, hr₁, he⟩ := h.after r hr
    exact ⟨r₁, (hruns r₁).mpr (Or.inl hr₁), he⟩

/-- A run with a wait of the database the batch met is parked on it, and the statements before the
wake left it as it was. -/
theorem EarlyRuns.parked (h : EarlyRuns seed now db db' call db₁) (hheld : Held db) {r : Run}
    {w : Wait} (hr : r ∈ db₁.runs) (hw : w ∈ db.waits) (hid : w.runId = r.runId)
    (hs : r.state = .sleeping) : r ∈ db.runs ∧ ParkedOn r w := by
  obtain ⟨r₀, hr₀, hp⟩ := (hheld w hw).parked
  have hid₀ : r₀.runId = r.runId := hp.runId.trans hid
  obtain ⟨r₂, hr₂, rfl | ⟨hm, hstate, _⟩⟩ | hborn := h.before r hr
  · rw [db.run_unique hr₂ hr₀ hid₀.symm]
    exact ⟨hr₀, hp⟩
  · have hsame : r₂.runId = r.runId := hm.same.runId.symm
    rw [db.run_unique hr₂ hr₀ (hsame.trans hid₀.symm), hp.state] at hstate
    exact absurd hs (hstate.resolve_left (by simp))
  · exact absurd hid₀ (hborn.fresh r₀ hr₀)

/-- No statement before the wake leaves the wake's stamp. -/
theorem EarlyRuns.unwoken (h : EarlyRuns seed now db db' call db₁) (hfresh : Unstamped db seed) :
    ∀ r ∈ db₁.runs, r.fenceStamp ≠ some ⟨seed, .wakeRuns⟩ := by
  intro r hr hs
  obtain ⟨r₀, hr₀, rfl | ⟨_, _, hne⟩⟩ | hborn := h.before r hr
  · exact hfresh r hr₀ _ hs rfl
  · exact hne hs
  · exact hborn.stamp hs

/-- The wake relates each run to its image: the runs it finds move. -/
theorem EarlyRuns.woken (h : EarlyRuns seed now db db' call db₁) (hheld : Held db)
    (hfresh : Unstamped db seed) (hwaits : ∀ w ∈ db₁.waits, w ∈ db.waits)
    (hevents : ∀ e ∈ db₁.events, e ∈ db'.events)
    (hruns : db'.runs = (wakeWaiters db₁ seed queue eventName).runs) :
    Table.Rel (fun r r' => (¬ wakeRunsGuard db₁ seed queue eventName r ∧ r' = r) ∨
      (r.state = .sleeping ∧ r ∈ db.runs ∧ Run.Move seed now db db' call r r'))
      db₁.runs db'.runs := by
  have hparked : ∀ r ∈ db₁.runs, wakeRunsGuard db₁ seed queue eventName r →
      ∃ w ∈ db₁.waits, ParkedOn r w ∧ w.queue = queue ∧ w.eventName = eventName := by
    intro r hr hg
    obtain ⟨hs, _, ⟨w, hw, hq, hn, hid⟩, _⟩ := hg
    exact ⟨w, hw, (h.parked hheld hr (hwaits w hw) hid hs).2, hq, hn⟩
  have hmoved : ∀ r ∈ db₁.runs, ∀ r' : Run,
      (∃ w ∈ db₁.waits, ∃ e, recordedEvent db₁ seed queue eventName = some e ∧ ParkedOn r w ∧
        w.queue = queue ∧ w.eventName = eventName ∧ r' = r.woken seed e) →
      r.state = .sleeping ∧ r ∈ db.runs ∧ Run.Move seed now db db' call r r' := by
    rintro r hr r' ⟨w, hw, e, he, hp, hq, hn, rfl⟩
    obtain ⟨hem, heq, hen, hes⟩ := recordedEvent_eq_some.mp he
    refine ⟨hp.state, (h.parked hheld hr (hwaits w hw) hp.runId.symm hp.state).1, ?_⟩
    exact .woken (hwaits w hw) hp (hevents e hem) (heq.trans hq.symm) (hen.trans hn.symm) hes
  have hwake := wakeWaiters_rel (h.unwoken hfresh) hparked
  rw [hruns]
  refine ⟨fun r' hr' => ?_, fun r hr => ?_⟩
  · obtain ⟨r, hr, hw⟩ := hwake.before r' hr'
    exact ⟨r, hr, hw.imp id (hmoved r hr r')⟩
  · obtain ⟨r', hr', hw⟩ := hwake.after r hr
    exact ⟨r', hr', hw.imp id (hmoved r hr r')⟩

/-- The wake after them. -/
theorem EarlyRuns.wake (h : EarlyRuns seed now db db' call db₁) (hheld : Held db)
    (hfresh : Unstamped db seed) (hwaits : ∀ w ∈ db₁.waits, w ∈ db.waits)
    (hevents : ∀ e ∈ db₁.events, e ∈ db'.events)
    (hruns : db'.runs = (wakeWaiters db₁ seed queue eventName).runs) :
    Table.Moves (Run.Moved seed now db db' call) (Run.Born seed now db call) db.runs db'.runs := by
  have hwake := h.woken hheld hfresh hwaits hevents hruns
  refine ⟨fun r' hr' => ?_, fun r hr => ?_⟩
  · obtain ⟨r₁, hr₁, ⟨_, rfl⟩ | ⟨_, hr, hm⟩⟩ := hwake.before r' hr'
    · obtain ⟨r, hr, rfl | ⟨hm, _⟩⟩ | hborn := h.before r' hr₁
      · exact Or.inl ⟨r', hr, Or.inl rfl⟩
      · exact Or.inl ⟨r, hr, Or.inr hm⟩
      · exact Or.inr hborn.born
    · exact Or.inl ⟨r₁, hr, Or.inr hm⟩
  · obtain ⟨r₁, hr₁, he⟩ := h.after r hr
    obtain ⟨r', hr', hw⟩ := hwake.after r₁ hr₁
    refine ⟨r', hr', ?_⟩
    rcases he with rfl | ⟨hm, hstate, _⟩
    · exact hw.imp And.right fun hw => hw.2.2
    · rcases hw with ⟨_, rfl⟩ | ⟨hs, hr₁', _⟩
      · exact Or.inr hm
      · -- A moved run is parked on no wait, so the wake does not find it.
        have heq : r₁ = r := db.run_unique hr₁' hr hm.same.runId
        rw [← heq, hs] at hstate
        exact absurd rfl (hstate.resolve_left (by simp))

/-- A wait the wake reaps goes with the park of a run the wake moved. -/
theorem EarlyRuns.reaped (h : EarlyRuns seed now db db' call db₁) (hheld : Held db)
    (hfresh : Unstamped db seed) (hwaits : ∀ w ∈ db₁.waits, w ∈ db.waits)
    (hevents : ∀ e ∈ db₁.events, e ∈ db'.events)
    (hruns : db'.runs = (wakeWaiters db₁ seed queue eventName).runs) {w : Wait}
    (hw : w ∈ db₁.waits) : w ∈ (wakeWaiters db₁ seed queue eventName).waits ∨
      Wait.Reaped seed now db db' call w := by
  by_cases hw' : w ∈ (wakeWaiters db₁ seed queue eventName).waits
  · exact Or.inl hw'
  obtain ⟨f, hf, ⟨_, hs⟩, hid⟩ : ∃ f ∈ (wakeRuns db₁ seed queue eventName).runs,
      (_ ∧ f.fenceStamp = some ⟨seed, .wakeRuns⟩) ∧ f.runId = w.runId :=
    (not_not.mp fun hno => hw' (mem_runsToWaits.mpr ⟨hw, hno⟩)).1
  obtain ⟨r, _, hr, ⟨_, rfl⟩ | ⟨hg, rfl⟩⟩ := wakeRuns_rel.before f hf
  · exact absurd hs (h.unwoken hfresh f hr)
  · obtain ⟨r', hr', ⟨hno, _⟩ | ⟨_, hr₀, hm⟩⟩ :=
      (h.woken hheld hfresh hwaits hevents hruns).after r hr
    · exact absurd hg hno
    · exact Or.inr ⟨r, hr₀, r', hr', hheld.parkedOn (hwaits w hw) hr₀ hid, hm⟩

/-- The end of a run that did not sleep reaps no wait. -/
theorem mem_waitsGone (hheld : Held db)
    (h : ∀ f ∈ db₁.runs, f.fenceStamp = some ⟨seed, fence⟩ →
      ∃ r ∈ db.runs, f.Same r ∧ r.state = .running) {w : Wait} (hw : w ∈ db.waits)
    (hw₁ : w ∈ db₁.waits) : w ∈ (waitsGone db₁ seed runId fence).waits := by
  refine mem_runsToWaits.mpr ⟨hw₁, ?_⟩
  rintro ⟨⟨f, hf, ⟨_, hs⟩, hid⟩, _⟩
  obtain ⟨r, hr, hsame, hst⟩ := h f hf hs
  exact hheld.no_wait hw hr (by simp [hst]) (hsame.runId.trans hid)

/-! ## The tables after the wake -/

/-- Runs that are the last of the batch were moved by it. -/
theorem EarlyRuns.moved (h : EarlyRuns seed now db db' call db₁) (hruns : db'.runs = db₁.runs) :
    Table.Moves (Run.Moved seed now db db' call) (Run.Born seed now db call) db.runs db'.runs := by
  rw [hruns]
  refine ⟨fun r hr => ?_, fun r hr => ?_⟩
  · obtain ⟨r₀, hr₀, he⟩ | hborn := h.before r hr
    · exact Or.inl ⟨r₀, hr₀, he.imp id And.left⟩
    · exact Or.inr hborn.born
  · obtain ⟨r₁, hr₁, he⟩ := h.after r hr
    exact ⟨r₁, hr₁, he.imp id And.left⟩

/-- The wake moves the tasks of the runs it woke. -/
theorem wakeWaiters_moved :
    TasksMoved seed now db call db₁ (wakeWaiters db₁ seed queue eventName) := by
  have hfollow : TasksMoved seed now db call (wakeRuns db₁ seed queue eventName)
      (runsToTasks (wakeRuns db₁ seed queue eventName) seed .wakeTasks .wakeRuns queue
        (fun f => f.wakeEvent = some eventName ∧ f.state = .pending) (fun t => t.state.Live)
        ⟨fun t => { t with state := .pending }, fun _ => rfl⟩) :=
    runsToTasks_moved fun _ _ _ _ hfol _ => .followed hfol.narrow trivial
  exact hfollow

/-- A wake keeps the waits it does not reap, and adds none. -/
theorem mem_of_wakeWaiters_waits {w : Wait}
    (hw : w ∈ (wakeWaiters db₁ seed queue eventName).waits) : w ∈ db₁.waits :=
  (mem_runsToWaits.mp hw).1

/-- A task that ended is left alone by a wake. -/
theorem mem_wakeWaiters_tasks {t : Task} (ht : t ∈ db₁.tasks) (hl : ¬ t.state.Live) :
    t ∈ (wakeWaiters db₁ seed queue eventName).tasks :=
  Table.mem_update_of_neg (T := db₁.tasks) ht fun h => hl h.2.2

/-- An event after the completion event's statement was there, or is the one of the task this batch
ended. -/
theorem taskDoneEvent_new {taskId payloadJson : String} {terminal : Statement} {e : Event}
    (h : e ∈ (taskDoneEvent db₁ seed queue taskId terminal payloadJson).events) :
    e ∈ db₁.events ∨ ∃ f ∈ db₁.tasks, f.taskId = taskId ∧ f.queue = queue ∧
      f.fenceStamp = some ⟨seed, terminal⟩ ∧ e.queue = queue ∧
      e.eventName = taskDoneEventName taskId ∧ e.payload = payloadJson := by
  unfold taskDoneEvent at h
  split at h
  · exact Or.inl h
  · rename_i f hf
    split at h
    · exact Or.inl h
    · have hp := List.find?_some hf
      simp only [decide_eq_true_eq] at hp
      obtain h | ⟨_, rfl⟩ := Table.mem_insertIgnore.mp h
      · exact Or.inl h
      · exact Or.inr ⟨f, List.mem_of_find?_eq_some hf, hp.1, hp.2.1, hp.2.2, hp.2.1, rfl, rfl⟩

/-- An event keeps itself. -/
theorem Event.Kept.refl (e : Event) : e.Kept e := ⟨rfl, rfl, rfl, rfl⟩

/-- The checkpoints, as the statements of a batch leave them. -/
abbrev Checks (seed : String) (now : ℤ) (db db' : Db) (call : Call) (db₁ : Db) : Prop :=
  Table.Moves (Checkpoint.Moved seed now db db' call) (Checkpoint.Born seed now db db' call)
    db.checkpoints db₁.checkpoints

/-- Checkpoints that stay are as the batch found them. -/
theorem Checks.of_eq (h : db₁.checkpoints = db.checkpoints) : Checks seed now db db' call db₁ := by
  have hrefl : ∀ c : Checkpoint, Checkpoint.Moved seed now db db' call c c := fun _ => Or.inl rfl
  unfold Checks
  rw [h]
  exact .refl hrefl _

/-- What holds of the checkpoints so far holds while they stay. -/
theorem Checks.of_checkpoints (h : Checks seed now db db' call db₁)
    (heq : db₂.checkpoints = db₁.checkpoints) : Checks seed now db db' call db₂ := by
  unfold Checks
  rwa [heq]

/-- A checkpoint write, of a run the batch may write it for. -/
theorem Checks.write {write : CheckpointWrite} (hchecks : db₁.checkpoints = db.checkpoints)
    (h : ∀ f, stampedRun db₁ seed runId fence = some f →
      ∃ r, Checkpoint.Write seed now db db' call r write ∧ f.Same r) :
    Checks seed now db db' call (checkpointWrite db₁ seed runId write fence) := by
  have hrefl : ∀ c : Checkpoint, Checkpoint.Moved seed now db db' call c c := fun _ => Or.inl rfl
  unfold Checks
  rw [← hchecks]
  unfold checkpointWrite
  split
  · exact .refl hrefl _
  · rename_i f hf
    split
    swap
    · exact .refl hrefl _
    obtain ⟨r, hwrite, hsame⟩ := h f hf
    simp only [Table.upsert]
    split
    · rename_i hfree
      refine .push hrefl (fun _ => Table.mem_push hfree) ⟨r, write, hwrite, ?_, hsame.queue.symm⟩
      exact ⟨hsame.taskId.symm, rfl, rfl, hsame.runId.symm, hsame.attempt.symm⟩
    · have hrel : Table.Rel (Checkpoint.Moved seed now db db' call) db₁.checkpoints
          (db₁.checkpoints.update (fun c =>
            Table.Conflicts (checkpointRow f write) c Checkpoint.keys ∧
              c.ownerAttempt ≤ f.attempt)
            ⟨fun c => { c with
              state := write.stateJson
              ownerRunId := f.runId
              ownerAttempt := f.attempt
              updatedAtMs := f.fenceAtMs }, fun _ => rfl⟩) := by
        refine Table.Rel.update (fun c _ hp => ?_) fun c _ _ => hrefl c
        obtain ⟨⟨k, hk, hk'⟩, hle⟩ := hp
        simp only [Checkpoint.keys, checkpointRow, List.mem_singleton] at hk hk'
        obtain ⟨h₁, h₂⟩ := Prod.mk.inj (hk'.symm.trans hk)
        refine Or.inr ⟨r, write, hwrite, ?_, h₁.trans hsame.taskId.symm, h₂, ?_, rfl⟩
        · exact ⟨h₁.trans hsame.taskId.symm, h₂, rfl, hsame.runId.symm, hsame.attempt.symm⟩
        · rwa [hsame.attempt]
      exact hrel.moves _

/-- The effect of a batch that wakes no run. -/
theorem Effect.of_early (hruns : EarlyRuns seed now db db' call db₁) (hdb' : db'.runs = db₁.runs)
    (htasks : TasksMoved seed now db call db db')
    (hwaits : ∀ w ∈ db'.waits, w ∈ db.waits ∨ Wait.Born seed now db call w)
    (hreaped : ∀ w ∈ db.waits, w ∈ db'.waits ∨ Wait.Reaped seed now db db' call w)
    (hevents : db'.events = db.events) (hchecks : Checks seed now db db' call db') :
    Effect seed now db db' call :=
  ⟨hruns.moved hdb', htasks.moves _, hwaits, hreaped, by rw [hevents]; exact .refl Event.Kept.refl _,
    hchecks⟩

/-- The effect of a batch that ends with the completion event of the task it may have ended. -/
theorem Effect.of_finish {taskId : String} {terminal : Statement} {outcome : TaskOutcome}
    (hheld : Held db) (hfresh : Unstamped db seed)
    (hdb' : db' = addTaskDone db₁ seed queue taskId terminal (encodeTaskOutcome outcome))
    (hruns : EarlyRuns seed now db db' call db₁) (htasks : TasksMoved seed now db call db db₁)
    (hwaits : ∀ w ∈ db₁.waits, w ∈ db.waits)
    (hreaped : ∀ w ∈ db.waits, w ∈ db₁.waits ∨
      ∃ r ∈ db.runs, ∃ r₁ ∈ db₁.runs, ParkedOn r w ∧ Run.Move seed now db db' call r r₁ ∧
        r₁.state ≠ .sleeping)
    (hevents : db₁.events = db.events) (hchecks : Checks seed now db db' call db₁)
    (houtcome : ∀ t ∈ db₁.tasks, t.taskId = taskId → t.fenceStamp = some ⟨seed, terminal⟩ →
      t.outcome = some outcome) : Effect seed now db db' call := by
  have hkeep : ∀ e ∈ db₁.events, e ∈ (taskDoneEvent db₁ seed queue taskId terminal
      (encodeTaskOutcome outcome)).events := fun _ he => mem_taskDoneEvent he
  have hnew : ∀ e ∈ (taskDoneEvent db₁ seed queue taskId terminal
      (encodeTaskOutcome outcome)).events, e ∈ db₁.events ∨ ∃ f ∈ db₁.tasks, f.taskId = taskId ∧
        f.queue = queue ∧ f.fenceStamp = some ⟨seed, terminal⟩ ∧ e.queue = queue ∧
        e.eventName = taskDoneEventName taskId ∧ e.payload = encodeTaskOutcome outcome :=
    fun _ he => taskDoneEvent_new he
  obtain ⟨events, heq⟩ :=
    taskDoneEvent_withEvents db₁ seed queue taskId (encodeTaskOutcome outcome) terminal
  unfold addTaskDone at hdb'
  rw [heq] at hdb' hkeep hnew
  -- Only an ended task has an outcome, so the event is one of the task the batch ended.
  have hends : ∀ t : Task, t.outcome = some outcome → ¬ t.state.Live := by
    intro t ho hl
    unfold Task.outcome at ho
    split at ho <;> simp_all
  have hruns' : EarlyRuns seed now db db' call { db₁ with events } := hruns
  have hwaits' : ∀ w ∈ { db₁ with events }.waits, w ∈ db.waits := hwaits
  have hmoved : TasksMoved seed now db call db₁ db' := by
    have hwake : TasksMoved seed now db call { db₁ with events }
        (wakeWaiters { db₁ with events } seed queue (taskDoneEventName taskId)) := wakeWaiters_moved
    rw [hdb']
    exact hwake
  have hevents' : db'.events = events := by rw [hdb']; rfl
  have hchecks' : db'.checkpoints = db₁.checkpoints := by rw [hdb']; rfl
  have hkept : ∀ e ∈ { db₁ with events }.events, e ∈ db'.events := by
    intro e he
    rwa [hevents']
  refine ⟨hruns'.wake hheld hfresh hwaits' hkept (congrArg Db.runs hdb'),
    (htasks.trans hmoved).moves _, fun w hw => ?_, fun w hw => ?_, ?_, ?_⟩
  · rw [hdb'] at hw
    exact Or.inl (hwaits' w (mem_of_wakeWaiters_waits hw))
  · obtain hw₁ | ⟨r, hr, r₁, hr₁, hp, hm, hst⟩ := hreaped w hw
    · have hw₁' : w ∈ { db₁ with events }.waits := hw₁
      have hreap := hruns'.reaped hheld hfresh hwaits' hkept (congrArg Db.runs hdb') hw₁'
      rwa [← hdb'] at hreap
    -- A run the batch ended keeps its row when the waiters of the event wake.
    · have hr₁' : r₁ ∈ { db₁ with events }.runs := hr₁
      have hmem : r₁ ∈ (wakeWaiters { db₁ with events } seed queue (taskDoneEventName taskId)).runs :=
        mem_wakeWaiters hr₁' hst (hruns'.unwoken hfresh r₁ hr₁')
      rw [← hdb'] at hmem
      exact Or.inr ⟨r, hr, r₁, hmem, hp, hm⟩
  · rw [hevents']
    refine ⟨fun e he => ?_, fun e he => ⟨e, hkeep e (hevents.symm ▸ he), .refl e⟩⟩
    obtain he | ⟨f, hf, hid, hq, hs, heq, hen, hep⟩ := hnew e he
    · exact Or.inl ⟨e, hevents ▸ he, .refl e⟩
    · have ho := houtcome f hf hid hs
      have hf' : f ∈ { db₁ with events }.tasks := hf
      refine Or.inr (.ended ?_ ho (heq.trans hq.symm) (hen.trans (congrArg _ hid.symm)) hep)
      rw [hdb']
      exact mem_wakeWaiters_tasks hf' (hends f ho)
  · rw [hchecks']
    exact hchecks

end Durablerun
