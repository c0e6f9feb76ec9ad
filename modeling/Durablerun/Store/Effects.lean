import Durablerun.Store.PrefixRange

/-!
# What the shared statements do

For each statement the batches share: the tables it leaves alone, the rows it leaves, and which parts
of the invariant it keeps. The proofs about batches cite these and do not unfold a statement.

Reference: `packages/store-libsql/src/store.ts`.
-/

namespace Durablerun

open Relational

variable {db db' : Db} {seed queue runId : String} {name fence : Statement}

/-! ## Clauses between two databases -/

/-- A live task is in its phase where a saga that began has used its attempts. -/
theorem InPhase.of_live {t : Task} (hl : t.state.Live)
    (hs : sagaBegan db t.taskId → t.maxAttempts = t.attempts + 1) : InPhase db t where
  completed := fun h => by simp [h] at hl
  failed := fun h => by simp [h] at hl
  owed := fun h => by simp [h] at hl
  spent := fun _ => hs

/-- Before the saga begins, a step that started is owed its rollback. -/
theorem Phased.pending (h : Phased db) {taskId : String} (hsaga : ¬ sagaBegan db taskId)
    (hstarted : StepStarted db taskId) : rollbackPending db taskId := by
  obtain ⟨c, hc, hid, hn⟩ := hstarted
  refine ⟨c, hc, hid, hn.started, fun ⟨c', hc', hid', hn'⟩ => hsaga ?_⟩
  rw [← hid, ← hid']
  refine h.marker c' hc' (Or.inl ?_)
  rw [hn']
  exact namedUnder_append _ _

/-- A task stays in its phase while it steps and the saga's phase stands still. -/
theorem InPhase.steps {t t' : Task} (h : InPhase db t) (ht : t.Steps t')
    (hr : Table.Rel Run.Same db.runs db'.runs)
    (hsaga : sagaBegan db' t.taskId ↔ sagaBegan db t.taskId)
    (hstarted : StepStarted db' t.taskId → t.state = .failed → StepStarted db t.taskId) :
    InPhase db' t' := by
  have hlive : t'.state.Live → sagaBegan db' t'.taskId → t'.maxAttempts = t'.attempts + 1 := by
    intro hl hs
    rw [ht.taskId, hsaga] at hs
    rw [ht.maxAttempts, ht.attempts]
    exact h.spent (ht.live_iff.mp hl) hs
  by_cases hl : t'.state.Live
  · exact .of_live hl (hlive hl)
  have hst := ht.state_eq fun hl' => hl (ht.live_iff.mpr hl')
  refine ⟨?_, ?_, ?_, hlive⟩
  · rw [hst, ht.taskId, hsaga]
    exact h.completed
  · rw [hst, ht.taskId, hsaga, ht.infraRetries, ht.maxAttempts]
    intro hf hs r' hr' hid
    obtain ⟨r, hmem, hsame⟩ := hr.before r' hr'
    rw [hsame.attempt]
    exact h.failed hf hs r hmem (hsame.taskId.symm.trans hid)
  · rw [hst, ht.taskId, hsaga, ht.infraRetries]
    intro hf hs hstep
    obtain ⟨r, hmem, hid, hle⟩ := h.owed hf hs (hstarted hstep hf)
    obtain ⟨r', hr', hsame⟩ := hr.after r hmem
    exact ⟨r', hr', hsame.taskId.trans hid, by rw [hsame.attempt]; exact hle⟩

/-- Whether a saga began is read from the checkpoints. -/
theorem sagaBegan_of_eq (hc : db'.checkpoints = db.checkpoints) (taskId : String) :
    sagaBegan db' taskId ↔ sagaBegan db taskId := by
  unfold sagaBegan
  rw [hc]

/-- A run of another task changes nothing of a task's phase, while its own phase stands still. -/
theorem InPhase.push {t : Task} (h : InPhase db t) {p : Run}
    (hruns : ∀ r, r ∈ db'.runs ↔ r ∈ db.runs ∨ r = p) (hid : p.taskId ≠ t.taskId)
    (hsaga : sagaBegan db' t.taskId ↔ sagaBegan db t.taskId)
    (hstarted : StepStarted db' t.taskId → StepStarted db t.taskId) : InPhase db' t where
  completed := by
    rw [hsaga]
    exact h.completed
  failed := by
    rw [hsaga]
    intro hf hs r hr hrid
    rcases (hruns r).mp hr with hr | rfl
    · exact h.failed hf hs r hr hrid
    · exact absurd hrid hid
  owed := by
    rw [hsaga]
    intro hf hs hstep
    obtain ⟨r, hr, hrest⟩ := h.owed hf hs (hstarted hstep)
    exact ⟨r, (hruns r).mpr (Or.inl hr), hrest⟩
  spent := by
    rw [hsaga]
    exact h.spent

/-- Whether a step started is read from the checkpoints. -/
theorem stepStarted_of_eq (hc : db'.checkpoints = db.checkpoints) (taskId : String) :
    StepStarted db' taskId ↔ StepStarted db taskId := by
  unfold StepStarted
  rw [hc]

/-- Tasks that only take a step stay in their phases. -/
theorem Phased.steps (h : Phased db) (hr : Table.Rel Run.Same db.runs db'.runs)
    (ht : Table.Rel Task.Steps db.tasks db'.tasks) (hc : db'.checkpoints = db.checkpoints) :
    Phased db' := by
  have hsaga := sagaBegan_of_eq hc
  refine ⟨fun c hmem => ?_, fun c hmem hn => (hsaga _).mpr (h.marker c (hc ▸ hmem) hn),
    fun t' ht' => ?_⟩
  · obtain ⟨t, htm, hid⟩ := h.owner c (hc ▸ hmem)
    obtain ⟨t', ht', hstep⟩ := ht.after t htm
    exact ⟨t', ht', hstep.taskId.trans hid⟩
  obtain ⟨t, hmem, hstep⟩ := ht.before t' ht'
  exact (h.tasks t hmem).steps hstep hr (hsaga _) fun hs _ => (stepStarted_of_eq hc _).mp hs

/-- Waits stay held while none is added and the parked runs stay parked. -/
theorem Held.of_parked (h : Held db) (hw : ∀ w ∈ db'.waits, w ∈ db.waits)
    (hr : ∀ r ∈ db.runs, ∀ w ∈ db'.waits, ParkedOn r w → ∃ r' ∈ db'.runs, ParkedOn r' w) :
    Held db' := by
  intro w hmem
  obtain ⟨⟨r, hrmem, hp⟩, htimeout⟩ := h w (hw w hmem)
  exact ⟨hr r hrmem w hmem hp, htimeout⟩

/-- Whether an event is there is read from the events. -/
theorem EventThere.of_eq {q n : String} (h : db'.events = db.events) :
    EventThere db' q n ↔ EventThere db q n := by
  unfold EventThere
  rw [h]

/-- The events of a database do not enter its core. -/
theorem Core.withEvents (h : Core db) (events : Table Event Event.keys) :
    Core { db with events } where
  toUnits := h.toUnits.steps (.refl Run.Steps.refl _) (.refl Task.Steps.refl _)
  mirror := h.mirror
  held := h.held.of_parked (fun _ hw => hw) fun r hr _ _ hp => ⟨r, hr, hp⟩
  stamped := ⟨h.stamped.runs, h.stamped.tasks⟩
  phased := h.phased.steps (.refl Run.Same.refl _) (.refl Task.Steps.refl _) rfl

/-! ## A compare-and-set on runs -/

section UpdateRuns

variable {p : Run → Prop} [DecidablePred p] {f : Table.Change Run.keys}

/-- A compare-and-set that moves runs no wait names keeps everything but the mirror. -/
theorem Unmirrored.updateRuns (h : Unmirrored db) (hstep : ∀ r ∈ db.runs, p r → r.Steps (f r))
    (hwait : ∀ r ∈ db.runs, p r → ∀ w ∈ db.waits, r.runId ≠ w.runId)
    (hstamp : ∀ r ∈ db.runs, p r → ∀ s ∈ (f r).fenceStamp, s.statement.Left (f r).state) :
    Unmirrored { db with runs := db.runs.update p f } := by
  have hrel : Table.Rel Run.Steps db.runs (db.runs.update p f) :=
    .update hstep fun r _ _ => .refl r
  refine ⟨h.toUnits.steps hrel (.refl Task.Steps.refl _), ?_, ⟨fun r hr s hs => ?_, ?_⟩, ?_⟩
  · refine h.held.of_parked (fun w hw => hw) fun r hr w hw hp => ⟨r, ?_, hp⟩
    exact Table.mem_update_of_neg hr fun hpr => hwait r hr hpr w hw hp.runId
  · obtain ⟨r₀, hr₀, hp, rfl⟩ | ⟨hr, _⟩ := Table.update_cases hr
    · exact hstamp r₀ hr₀ hp s hs
    · exact h.stamped.runs r hr s hs
  · exact h.stamped.tasks
  · exact h.phased.steps (hrel.imp fun _ _ h => h.toSame) (.refl Task.Steps.refl _) rfl

end UpdateRuns

/-- A compare-and-set that takes no run does nothing. -/
theorem updateRuns_of_forall_not {p : Run → Prop} [DecidablePred p] {f : Table.Change Run.keys}
    (h : ∀ r ∈ db.runs, ¬ p r) : { db with runs := db.runs.update p f } = db := by
  rw [Table.update_of_forall_not h]

/-- A compare-and-set that takes no task does nothing. -/
theorem updateTasks_of_forall_not {p : Task → Prop} [DecidablePred p] {f : Table.Change Task.keys}
    (h : ∀ t ∈ db.tasks, ¬ p t) : { db with tasks := db.tasks.update p f } = db := by
  rw [Table.update_of_forall_not h]

/-- A batch with one compare-and-set won by it, when it affected a row. -/
theorem wonBy_eq_some {name won : Statement} {affected : Prop} [Decidable affected] :
    wonBy name affected = some won ↔ affected ∧ name = won := by
  unfold wonBy
  split
  · rename_i h
    simp [h]
  · rename_i h
    simp [h]

/-! ## The fenced run -/

/-- A run is the stamped run of its id when it carries the stamp. -/
theorem stampedRun_eq_some {f : Run} : stampedRun db seed runId fence = some f ↔
    f ∈ db.runs ∧ f.runId = runId ∧ f.fenceStamp = some ⟨seed, fence⟩ := by
  unfold stampedRun
  constructor
  · intro h
    have hp := List.find?_some h
    simp only [decide_eq_true_eq] at hp
    exact ⟨List.mem_of_find?_eq_some h, hp⟩
  · rintro ⟨hf, hid, hs⟩
    cases h : db.runs.rows.find? fun f => f.runId = runId ∧ f.fenceStamp = some ⟨seed, fence⟩ with
    | none =>
      have := List.find?_eq_none.mp h f hf
      simp only [decide_eq_true_eq] at this
      exact absurd ⟨hid, hs⟩ this
    | some g =>
      have hp := List.find?_some h
      simp only [decide_eq_true_eq] at hp
      rw [db.run_unique hf (List.mem_of_find?_eq_some h) (hid.trans hp.1.symm)]

/-- No run is stamped where none of that id bears the stamp. -/
theorem stampedRun_eq_none : stampedRun db seed runId fence = none ↔
    ∀ f ∈ db.runs, f.runId = runId → f.fenceStamp ≠ some ⟨seed, fence⟩ := by
  constructor
  · intro h f hf hid hs
    rw [stampedRun_eq_some.mpr ⟨hf, hid, hs⟩] at h
    cases h
  · intro h
    cases hs : stampedRun db seed runId fence with
    | none => rfl
    | some f =>
      obtain ⟨hf, hid, hst⟩ := stampedRun_eq_some.mp hs
      exact absurd hst (h f hf hid)

/-! ## runsToTasks -/

section RunsToTasks

variable {where' : Run → Prop} [DecidablePred where'] {narrow : Task → Prop}
  [DecidablePred narrow] {set : Table.Change Task.keys}

/-- A follow-on that carries runs to tasks changes no run. -/
@[simp] theorem runsToTasks_runs :
    (runsToTasks db seed name fence queue where' narrow set).runs = db.runs := rfl
/-- A follow-on that carries runs to tasks changes no wait. -/
@[simp] theorem runsToTasks_waits :
    (runsToTasks db seed name fence queue where' narrow set).waits = db.waits := rfl
/-- A follow-on that carries runs to tasks changes no event. -/
@[simp] theorem runsToTasks_events :
    (runsToTasks db seed name fence queue where' narrow set).events = db.events := rfl
/-- A follow-on that carries runs to tasks changes no checkpoint. -/
@[simp] theorem runsToTasks_checkpoints :
    (runsToTasks db seed name fence queue where' narrow set).checkpoints = db.checkpoints := rfl

/-- The run is a source of the follow-on. -/
structure FenceSource (seed : String) (fence : Statement) (queue : String) (where' : Run → Prop)
    (f : Run) : Prop where
  selected : where' f
  queue : f.queue = queue
  stamp : f.fenceStamp = some ⟨seed, fence⟩

/-- The follow-on updates the task for the run. -/
structure Follows (seed : String) (fence : Statement) (queue : String) (where' : Run → Prop)
    (narrow : Task → Prop) (f : Run) (t : Task) : Prop
    extends FenceSource seed fence queue where' f where
  taskId : f.taskId = t.taskId
  narrow : narrow t

/-- A task after the follow-on was updated for a source of its own, or is unchanged because no source
selects it. -/
theorem runsToTasks_cases {t' : Task}
    (h : t' ∈ (runsToTasks db seed name fence queue where' narrow set).tasks) :
    (∃ t ∈ db.tasks, ∃ f ∈ db.runs, Follows seed fence queue where' narrow f t ∧ t.queue = queue ∧
        ∃ at', t' = (set t).stampedAt ⟨seed, name⟩ at') ∨
      (t' ∈ db.tasks ∧ ∀ f ∈ db.runs, Follows seed fence queue where' narrow f t' →
        t'.queue ≠ queue) := by
  obtain ⟨t, ht, ⟨⟨f, hf, hsrc, hid⟩, hq, hn⟩, rfl⟩ | ⟨ht, hno⟩ := Table.update_cases h
  · exact Or.inl ⟨t, ht, f, hf, ⟨⟨hsrc.1, hsrc.2.1, hsrc.2.2⟩, hid, hn⟩, hq, _, rfl⟩
  · exact Or.inr ⟨ht, fun f hf h hq =>
      hno ⟨⟨f, hf, ⟨h.selected, h.queue, h.stamp⟩, h.taskId⟩, hq, h.narrow⟩⟩

/-- With nothing to follow the follow-on does nothing. -/
theorem runsToTasks_of_forall_not
    (h : ∀ t ∈ db.tasks, ∀ f ∈ db.runs, ¬ Follows seed fence queue where' narrow f t) :
    runsToTasks db seed name fence queue where' narrow set = db := by
  have htasks : (runsToTasks db seed name fence queue where' narrow set).tasks = db.tasks :=
    Table.update_of_forall_not fun t ht ⟨⟨f, hf, hsrc, hid⟩, _, hn⟩ =>
      h t ht f hf ⟨⟨hsrc.1, hsrc.2.1, hsrc.2.2⟩, hid, hn⟩
  cases db with
  | mk tasks runs waits events checkpoints =>
    unfold runsToTasks at htasks ⊢
    simp only [Db.mk.injEq, and_true]
    exact htasks

/-- A follow-on whose sources belong to one task replaces that task. -/
theorem runsToTasks_replaced {t : Task} {f : Run} {P : Task → Prop} (ht : t ∈ db.tasks)
    (hf : f ∈ db.runs) (h : Follows seed fence queue where' narrow f t) (hq : t.queue = queue)
    (hone : ∀ g ∈ db.runs, FenceSource seed fence queue where' g → g.taskId = t.taskId)
    (hP : ∀ at', P ((set t).stampedAt ⟨seed, name⟩ at')) :
    ∃ t', Table.Replaced db.tasks
      (runsToTasks db seed name fence queue where' narrow set).tasks t t' ∧ P t' :=
  ⟨_, Table.Replaced.update (T := db.tasks) ht
    ⟨⟨f, hf, ⟨h.selected, h.queue, h.stamp⟩, h.taskId⟩, hq, h.narrow⟩
    fun _ hu ⟨⟨g, hg, hsrc, hid⟩, _⟩ => db.task_unique hu ht
      (hid.symm.trans (hone g hg ⟨hsrc.1, hsrc.2.1, hsrc.2.2⟩)), hP _⟩

/-- The instant of a follow-on with one source is the source's. -/
theorem FenceSource.instant {f : Run} (hf : f ∈ db.runs) (h : FenceSource seed fence queue where' f)
    (hone : ∀ g ∈ db.runs, FenceSource seed fence queue where' g → g = f) :
    sourceInstant ((db.runs.rows.filter fun f => where' f ∧ f.queue = queue ∧
      f.fenceStamp = some ⟨seed, fence⟩).map Run.fenceAtMs) = f.fenceAtMs := by
  have hfilter : (db.runs.rows.filter fun f => where' f ∧ f.queue = queue ∧
      f.fenceStamp = some ⟨seed, fence⟩) = [f] :=
    Table.filter_eq_singleton Run.keys_ne_nil hf ⟨h.selected, h.queue, h.stamp⟩
      fun g hg hsrc => hone g hg ⟨hsrc.1, hsrc.2.1, hsrc.2.2⟩
  rw [hfilter]
  rfl

/-- A follow-on with one source replaces the source's task, at the source's instant. -/
theorem runsToTasks_replaced_at {t : Task} {f : Run} (ht : t ∈ db.tasks) (hf : f ∈ db.runs)
    (h : Follows seed fence queue where' narrow f t) (hq : t.queue = queue)
    (hone : ∀ g ∈ db.runs, FenceSource seed fence queue where' g → g = f) :
    Table.Replaced db.tasks (runsToTasks db seed name fence queue where' narrow set).tasks t
      ((set t).stampedAt ⟨seed, name⟩ f.fenceAtMs) := by
  rw [← h.toFenceSource.instant hf hone]
  refine Table.Replaced.update (T := db.tasks) ht
    ⟨⟨f, hf, ⟨h.selected, h.queue, h.stamp⟩, h.taskId⟩, hq, h.narrow⟩ ?_
  rintro u hu ⟨⟨g, hg, hsrc, hid⟩, _⟩
  obtain rfl := hone g hg ⟨hsrc.1, hsrc.2.1, hsrc.2.2⟩
  exact db.task_unique hu ht (hid.symm.trans h.taskId)

/-- A follow-on that finds the task of its one source as it would leave it changes nothing. -/
theorem runsToTasks_fixed
    (h : ∀ t ∈ db.tasks, ∀ f ∈ db.runs, Follows seed fence queue where' narrow f t →
      (∀ g ∈ db.runs, FenceSource seed fence queue where' g → g = f) ∧
        (set t).stampedAt ⟨seed, name⟩ f.fenceAtMs = t) :
    runsToTasks db seed name fence queue where' narrow set = db := by
  have htasks : (runsToTasks db seed name fence queue where' narrow set).tasks = db.tasks := by
    refine Table.update_of_fixed fun t ht ⟨⟨f, hf, hsrc, hid⟩, _, hn⟩ => ?_
    have hfol : Follows seed fence queue where' narrow f t :=
      ⟨⟨hsrc.1, hsrc.2.1, hsrc.2.2⟩, hid, hn⟩
    obtain ⟨hone, hfixed⟩ := h t ht f hf hfol
    rw [← hfol.toFenceSource.instant hf hone] at hfixed
    exact hfixed
  cases db with
  | mk tasks runs waits events checkpoints =>
    unfold runsToTasks at htasks ⊢
    simp only [Db.mk.injEq, and_true]
    exact htasks

/-- A follow-on relates each task to its image. -/
theorem runsToTasks_rel {R : Task → Task → Prop} (hrefl : ∀ t, R t t)
    (h : ∀ t ∈ db.tasks, ∀ f ∈ db.runs, Follows seed fence queue where' narrow f t →
      t.queue = queue → ∀ at', R t ((set t).stampedAt ⟨seed, name⟩ at')) :
    Table.Rel R db.tasks (runsToTasks db seed name fence queue where' narrow set).tasks :=
  Table.Rel.update
    (fun t ht ⟨⟨f, hf, hsrc, hid⟩, hq, hn⟩ =>
      h t ht f hf ⟨⟨hsrc.1, hsrc.2.1, hsrc.2.2⟩, hid, hn⟩ hq _)
    (fun t _ _ => hrefl t)

/-- The follow-on's own stamp is on what it wrote, and the rest keep theirs. -/
theorem Stamped.runsToTasks (h : Stamped db) (hname : ∀ s, name.LeftTask s) :
    Stamped (runsToTasks db seed name fence queue where' narrow set) := by
  refine ⟨h.runs, fun t' ht' stamp hstamp => ?_⟩
  obtain ⟨t, _, _, _, _, _, at', rfl⟩ | ⟨ht, _⟩ := runsToTasks_cases ht'
  · obtain rfl := Option.some.inj hstamp
    exact hname _
  · exact h.tasks t' ht stamp hstamp

/-- A follow-on under which tasks step keeps everything but the mirror. -/
theorem Unmirrored.runsToTasks (h : Unmirrored db) (hname : ∀ s, name.LeftTask s)
    (hset : ∀ t ∈ db.tasks, ∀ f ∈ db.runs, Follows seed fence queue where' narrow f t →
      t.Steps (set t)) :
    Unmirrored (runsToTasks db seed name fence queue where' narrow set) := by
  have hrel : Table.Rel Task.Steps db.tasks
      (Durablerun.runsToTasks db seed name fence queue where' narrow set).tasks :=
    runsToTasks_rel Task.Steps.refl fun t ht f hf h _ at' =>
      let hs := hset t ht f hf h
      ⟨⟨hs.taskId, hs.queue⟩, hs.attempts, hs.infraRetries, hs.maxAttempts, hs.state⟩
  exact ⟨h.toUnits.steps (.refl Run.Steps.refl _) hrel,
    h.held.of_parked (fun w hw => hw) fun r hr _ _ hp => ⟨r, hr, hp⟩,
    h.stamped.runsToTasks hname, h.phased.steps (.refl Run.Same.refl _) hrel rfl⟩

/-- A task that is given the state of its fenced run follows it. -/
theorem Mirror.runsToTasks (hu : Units db)
    (hold : ∀ r ∈ db.runs, ∀ t ∈ db.tasks, r.taskId = t.taskId → r.state ≠ .failed →
      t.state = r.state ∨ Follows seed fence queue where' narrow r t)
    (hstate : ∀ t ∈ db.tasks, ∀ f ∈ db.runs, Follows seed fence queue where' narrow f t →
      t.state.Live ∧ f.state.Live ∧ (set t).state = f.state)
    (hkeep : ∀ t, (set t).taskId = t.taskId) :
    Mirror (runsToTasks db seed name fence queue where' narrow set) := by
  intro r hr t' ht' hid hl
  obtain ⟨t, ht, f, hf, hfol, _, at', rfl⟩ | ⟨ht, hno⟩ := runsToTasks_cases ht'
  · have hid' : r.taskId = t.taskId := hid.trans (hkeep t)
    obtain ⟨htl, hfl, hst⟩ := hstate t ht f hf hfol
    have hrl : r.state.Live := by
      obtain heq | hfol' := hold r hr t ht hid' hl
      · rwa [← heq]
      · exact (hstate t ht r hr hfol').2.1
    have hrf : r = f := (hu.settled t ht).sole hr hf hid' hfol.taskId hrl hfl
    exact hst.trans (hrf ▸ rfl)
  · obtain heq | hfol := hold r hr t' ht hid hl
    · exact heq
    · have hown := hu.toOwned.runOwnedByTask hr ht hid
      exact absurd (hown.2.trans hfol.queue) (hno r hr hfol)

variable (db) in
/-- An ended task after a follow-on that ends none was there before. -/
theorem mem_of_runsToTasks_ended {t' : Task}
    (h : t' ∈ (runsToTasks db seed name fence queue where' narrow set).tasks)
    (hset : ∀ t ∈ db.tasks, ∀ f ∈ db.runs, Follows seed fence queue where' narrow f t →
      (set t).state.Live) (hl : ¬ t'.state.Live) : t' ∈ db.tasks := by
  obtain ⟨t, ht, f, hf, hfol, _, _, rfl⟩ | ⟨ht, _⟩ := runsToTasks_cases h
  · exact absurd (hset t ht f hf hfol) hl
  · exact ht

/-- A follow-on that leaves a task as its live run already has it keeps everything. -/
theorem Core.runsToTasks (h : Core db) (hname : ∀ s, name.LeftTask s)
    (hset : ∀ t ∈ db.tasks, ∀ f ∈ db.runs, Follows seed fence queue where' narrow f t →
      t.Steps (set t) ∧ (set t).state = t.state) :
    Core (runsToTasks db seed name fence queue where' narrow set) := by
  refine ⟨h.toUnmirrored.runsToTasks hname fun t ht f hf hfol => (hset t ht f hf hfol).1, ?_⟩
  intro r hr t' ht' hid hl
  obtain ⟨t, ht, f, hf, hfol, _, at', rfl⟩ | ⟨ht, _⟩ := runsToTasks_cases ht'
  · obtain ⟨hs, hst⟩ := hset t ht f hf hfol
    exact hst.trans (h.mirror r hr t ht (hid.trans hs.taskId) hl)
  · exact h.mirror r hr t' ht hid hl

end RunsToTasks

/-! ## runsToWaits -/

section RunsToWaits

variable {where' : Run → Prop} [DecidablePred where'] {narrow : Wait → Prop} [DecidablePred narrow]

/-- A follow-on that carries runs to waits changes no run. -/
@[simp] theorem runsToWaits_runs :
    (runsToWaits db seed fence where' narrow).runs = db.runs := rfl
/-- A follow-on that carries runs to waits changes no task. -/
@[simp] theorem runsToWaits_tasks :
    (runsToWaits db seed fence where' narrow).tasks = db.tasks := rfl
/-- A follow-on that carries runs to waits changes no event. -/
@[simp] theorem runsToWaits_events :
    (runsToWaits db seed fence where' narrow).events = db.events := rfl
/-- A follow-on that carries runs to waits changes no checkpoint. -/
@[simp] theorem runsToWaits_checkpoints :
    (runsToWaits db seed fence where' narrow).checkpoints = db.checkpoints := rfl

/-- A follow-on that carries runs to waits deletes those of the runs it names. -/
theorem mem_runsToWaits {w : Wait} : w ∈ (runsToWaits db seed fence where' narrow).waits ↔
    w ∈ db.waits ∧ ¬ ((∃ f ∈ db.runs, (where' f ∧ f.fenceStamp = some ⟨seed, fence⟩) ∧
      f.runId = w.runId) ∧ narrow w) :=
  Table.mem_delete

/-- A database with fewer waits: the deletion of a batch's last statements, taken first. -/
def Db.withWaits (db : Db) (waits : Table Wait Wait.keys) : Db := { db with waits }

/-- A sound store stays so with fewer waits. -/
theorem Core.withWaits (h : Core db) {waits : Table Wait Wait.keys}
    (hw : ∀ w ∈ waits, w ∈ db.waits) : Core (db.withWaits waits) where
  toUnits := h.toUnits.steps (.refl Run.Steps.refl _) (.refl Task.Steps.refl _)
  mirror := h.mirror
  held := h.held.of_parked hw fun r hr _ _ hp => ⟨r, hr, hp⟩
  stamped := ⟨h.stamped.runs, h.stamped.tasks⟩
  phased := h.phased.steps (.refl Run.Same.refl _) (.refl Task.Steps.refl _) rfl

/-- Deleting waits keeps everything. -/
theorem Core.runsToWaits (h : Core db) : Core (runsToWaits db seed fence where' narrow) :=
  h.withWaits fun _ hw => (mem_runsToWaits.mp hw).1

end RunsToWaits

/-! ## tasksToRuns and waitsToRuns -/

section ToRuns

variable {whereTask : Task → Prop} [DecidablePred whereTask] {whereWait : Wait → Prop}
  [DecidablePred whereWait] {narrow : Run → Prop} [DecidablePred narrow]
  {set : Table.Change Run.keys}

/-- A follow-on that narrows to one run replaces that run. -/
theorem tasksToRuns_replaced {r : Run} {f : Task} {P : Run → Prop} (hr : r ∈ db.runs)
    (hf : f ∈ db.tasks) (hw : whereTask f) (hfq : f.queue = queue)
    (hs : f.fenceStamp = some ⟨seed, fence⟩) (hid : f.taskId = r.taskId) (hq : r.queue = queue)
    (hn : narrow r) (hone : ∀ s ∈ db.runs, narrow s → s = r)
    (hP : ∀ at', P ((set r).stampedAt ⟨seed, name⟩ at')) :
    ∃ r', Table.Replaced db.runs
      (tasksToRuns db seed name fence queue whereTask narrow set).runs r r' ∧ P r' :=
  ⟨_, Table.Replaced.update (T := db.runs) hr ⟨⟨f, hf, ⟨hw, hfq, hs⟩, hid⟩, hq, hn⟩
    fun s hsm h => hone s hsm h.2.2, hP _⟩

/-- With no run to narrow to the follow-on does nothing. -/
theorem tasksToRuns_of_forall_not
    (h : ∀ r ∈ db.runs, ∀ f ∈ db.tasks, whereTask f → f.fenceStamp = some ⟨seed, fence⟩ →
      f.taskId = r.taskId → ¬ narrow r) :
    tasksToRuns db seed name fence queue whereTask narrow set = db := by
  have : ∀ r ∈ db.runs, ¬ ((∃ f ∈ db.tasks, (whereTask f ∧ f.queue = queue ∧
      f.fenceStamp = some ⟨seed, fence⟩) ∧ f.taskId = r.taskId) ∧ r.queue = queue ∧ narrow r) :=
    fun r hr ⟨⟨f, hf, hsrc, hid⟩, _, hn⟩ => h r hr f hf hsrc.1 hsrc.2.2 hid hn
  exact updateRuns_of_forall_not this

/-- The follow-on relates each run to its image. -/
theorem tasksToRuns_rel {R : Run → Run → Prop} (hrefl : ∀ r, R r r)
    (h : ∀ r ∈ db.runs, ∀ f ∈ db.tasks, whereTask f → f.fenceStamp = some ⟨seed, fence⟩ →
      f.taskId = r.taskId → narrow r → ∀ at', R r ((set r).stampedAt ⟨seed, name⟩ at')) :
    Table.Rel R db.runs (tasksToRuns db seed name fence queue whereTask narrow set).runs :=
  Table.Rel.update
    (fun r hr ⟨⟨f, hf, hsrc, hid⟩, _, hn⟩ => h r hr f hf hsrc.1 hsrc.2.2 hid hn _)
    (fun r _ _ => hrefl r)

/-- A run after the follow-on was updated for a wait of its own, or is unchanged. -/
theorem waitsToRuns_cases {r' : Run}
    (h : r' ∈ (waitsToRuns db seed name fence queue whereWait narrow set).runs) :
    (∃ r ∈ db.runs, (∃ f ∈ db.waits, whereWait f ∧ f.queue = queue ∧
        f.fenceStamp = some ⟨seed, fence⟩ ∧ f.runId = r.runId) ∧ r.queue = queue ∧ narrow r ∧
        ∃ at', r' = (set r).stampedAt ⟨seed, name⟩ at') ∨
      (r' ∈ db.runs ∧ ∀ f ∈ db.waits, whereWait f → f.queue = queue →
        f.fenceStamp = some ⟨seed, fence⟩ → f.runId = r'.runId → r'.queue = queue →
        ¬ narrow r') := by
  obtain ⟨r, hr, ⟨⟨f, hf, hsrc, hid⟩, hq, hn⟩, rfl⟩ | ⟨hr, hno⟩ := Table.update_cases h
  · exact Or.inl ⟨r, hr, ⟨f, hf, hsrc.1, hsrc.2.1, hsrc.2.2, hid⟩, hq, hn, _, rfl⟩
  · exact Or.inr ⟨hr, fun f hf hw hfq hs hid hq hn => hno ⟨⟨f, hf, ⟨hw, hfq, hs⟩, hid⟩, hq, hn⟩⟩

/-- A run with a wait is there as the follow-on makes it. -/
theorem waitsToRuns_updated {r : Run} {f : Wait} (hr : r ∈ db.runs) (hf : f ∈ db.waits)
    (hw : whereWait f) (hfq : f.queue = queue) (hs : f.fenceStamp = some ⟨seed, fence⟩)
    (hid : f.runId = r.runId) (hq : r.queue = queue) (hn : narrow r) :
    ∃ at', (set r).stampedAt ⟨seed, name⟩ at' ∈
      (waitsToRuns db seed name fence queue whereWait narrow set).runs :=
  ⟨_, Table.mem_update_of_pos (T := db.runs) hr ⟨⟨f, hf, ⟨hw, hfq, hs⟩, hid⟩, hq, hn⟩⟩

/-- A run the follow-on does not narrow to is there unchanged. -/
theorem mem_waitsToRuns_of_not {r : Run} (hr : r ∈ db.runs) (hn : ¬ narrow r) :
    r ∈ (waitsToRuns db seed name fence queue whereWait narrow set).runs :=
  Table.mem_update_of_neg (T := db.runs) hr fun h => hn h.2.2

/-- The follow-on relates each run to its image. -/
theorem waitsToRuns_rel {R : Run → Run → Prop} (hrefl : ∀ r, R r r)
    (h : ∀ r ∈ db.runs, ∀ f ∈ db.waits, whereWait f → f.fenceStamp = some ⟨seed, fence⟩ →
      f.runId = r.runId → narrow r → ∀ at', R r ((set r).stampedAt ⟨seed, name⟩ at')) :
    Table.Rel R db.runs (waitsToRuns db seed name fence queue whereWait narrow set).runs :=
  Table.Rel.update
    (fun r hr ⟨⟨f, hf, hsrc, hid⟩, _, hn⟩ => h r hr f hf hsrc.1 hsrc.2.2 hid hn _)
    (fun r _ _ => hrefl r)

end ToRuns

/-! ## checkpointWrite -/

section CheckpointWrites

variable {write : CheckpointWrite}

/-- A checkpoint write changes no task. -/
@[simp] theorem checkpointWrite_tasks :
    (checkpointWrite db seed runId write fence).tasks = db.tasks := by
  unfold checkpointWrite
  split
  · rfl
  · split <;> rfl

/-- A checkpoint write changes no run. -/
@[simp] theorem checkpointWrite_runs :
    (checkpointWrite db seed runId write fence).runs = db.runs := by
  unfold checkpointWrite
  split
  · rfl
  · split <;> rfl

/-- A checkpoint write changes no wait. -/
@[simp] theorem checkpointWrite_waits :
    (checkpointWrite db seed runId write fence).waits = db.waits := by
  unfold checkpointWrite
  split
  · rfl
  · split <;> rfl

/-- A checkpoint write changes no event. -/
@[simp] theorem checkpointWrite_events :
    (checkpointWrite db seed runId write fence).events = db.events := by
  unfold checkpointWrite
  split
  · rfl
  · split <;> rfl

/-- The checkpoint is as a write of the run leaves it. -/
structure WrittenBy (f : Run) (write : CheckpointWrite) (c : Checkpoint) : Prop where
  taskId : c.taskId = f.taskId
  checkpointName : c.checkpointName = write.key
  state : c.state = write.stateJson
  ownerRunId : c.ownerRunId = f.runId
  ownerAttempt : c.ownerAttempt = f.attempt

/-- With no fenced run nothing is written. -/
theorem checkpointWrite_of_none (h : stampedRun db seed runId fence = none) :
    checkpointWrite db seed runId write fence = db := by
  unfold checkpointWrite
  rw [h]

/-- A checkpoint after the write was there before, or is as the fenced run wrote it. -/
theorem checkpointWrite_cases {c : Checkpoint}
    (h : c ∈ (checkpointWrite db seed runId write fence).checkpoints) :
    c ∈ db.checkpoints ∨ ∃ f, stampedRun db seed runId fence = some f ∧ WrittenBy f write c := by
  unfold checkpointWrite at h
  split at h
  · exact Or.inl h
  · rename_i f hf
    split at h
    · obtain ⟨_, hc | rfl⟩ | ⟨_, hc⟩ := Table.mem_upsert.mp h
      · exact Or.inl hc
      · exact Or.inr ⟨f, hf, rfl, rfl, rfl, rfl, rfl⟩
      · obtain ⟨c₀, _, ⟨⟨k, hk, hk'⟩, _⟩, rfl⟩ | ⟨hc, _⟩ := Table.update_cases hc
        · simp only [Checkpoint.keys, checkpointRow, List.mem_singleton] at hk hk'
          obtain ⟨h₁, h₂⟩ := Prod.mk.inj (hk'.symm.trans hk)
          exact Or.inr ⟨f, hf, h₁, h₂, rfl, rfl, rfl⟩
        · exact Or.inl hc
    · exact Or.inl h

variable (seed runId write fence) in
/-- A checkpoint is there after a write as it was, or under its name as the fenced run, whose attempt
is no lower, wrote it. -/
theorem checkpointWrite_keeps {c : Checkpoint} (h : c ∈ db.checkpoints) :
    c ∈ (checkpointWrite db seed runId write fence).checkpoints ∨
      ∃ f, stampedRun db seed runId fence = some f ∧ c.taskId = f.taskId ∧
        c.checkpointName = write.key ∧ c.ownerAttempt ≤ f.attempt ∧
        ∃ c' ∈ (checkpointWrite db seed runId write fence).checkpoints, WrittenBy f write c' := by
  unfold checkpointWrite
  split
  · exact Or.inl h
  · rename_i f hf
    split
    · by_cases hfree : db.checkpoints.Free (checkpointRow f write)
      · exact Or.inl (Table.mem_upsert.mpr (Or.inl ⟨hfree, Or.inl h⟩))
      · by_cases hp : Table.Conflicts (checkpointRow f write) c Checkpoint.keys ∧
          c.ownerAttempt ≤ f.attempt
        · obtain ⟨⟨k, hk, hk'⟩, hle⟩ := hp
          simp only [Checkpoint.keys, checkpointRow, List.mem_singleton] at hk hk'
          obtain ⟨h₁, h₂⟩ := Prod.mk.inj (hk'.symm.trans hk)
          refine Or.inr ⟨f, hf, h₁, h₂, hle, _, Table.mem_upsert.mpr (Or.inr ⟨hfree,
            Table.mem_update_of_pos h ⟨⟨k, ?_, ?_⟩, hle⟩⟩), h₁, h₂, rfl, rfl, rfl⟩
          · simp only [Checkpoint.keys, checkpointRow, List.mem_singleton]
            exact hk
          · simp only [Checkpoint.keys, List.mem_singleton]
            exact hk'
        · exact Or.inl (Table.mem_upsert.mpr (Or.inr ⟨hfree, Table.mem_update_of_neg h hp⟩))
    · exact Or.inl h

/-- No checkpoint name is lost. -/
theorem HasCheckpoint.after_write {taskId checkpointName : String}
    (h : HasCheckpoint db taskId checkpointName) :
    HasCheckpoint (checkpointWrite db seed runId write fence) taskId checkpointName := by
  obtain ⟨c, hc, rfl, rfl⟩ := h
  obtain hc' | ⟨f, _, hid, hn, _, c', hc', hw⟩ :=
    checkpointWrite_keeps seed runId fence write hc
  · exact ⟨c, hc', rfl, rfl⟩
  · exact ⟨c', hc', hw.taskId.trans hid.symm, hw.checkpointName.trans hn.symm⟩

/-- A checkpoint that finds its keys taken meets the row of its own task and name. -/
theorem checkpoint_of_not_free {f : Run} (h : ¬ db.checkpoints.Free (checkpointRow f write)) :
    ∃ c ∈ db.checkpoints, c.taskId = f.taskId ∧ c.checkpointName = write.key := by
  by_contra hno
  refine h ⟨by simp [Checkpoint.keys], fun k hk hheld => ?_⟩
  obtain ⟨c, hc, hck⟩ := Table.mem_heldKeys.mp hheld
  simp only [Checkpoint.keys, checkpointRow, List.mem_singleton] at hk hck
  obtain ⟨hid, hname⟩ := Prod.mk.inj (hck.symm.trans hk)
  exact hno ⟨c, hc, hid, hname⟩

/-- The fenced run's checkpoint is there. -/
theorem hasCheckpoint_checkpointWrite {f : Run} (hf : stampedRun db seed runId fence = some f)
    (hb : attemptBounds.Within f.attempt) :
    HasCheckpoint (checkpointWrite db seed runId write fence) f.taskId write.key := by
  by_cases hfree : db.checkpoints.Free (checkpointRow f write)
  · refine ⟨checkpointRow f write, ?_, rfl, rfl⟩
    unfold checkpointWrite
    rw [hf]
    simp only [hb, if_true]
    exact Table.mem_upsert.mpr (Or.inl ⟨hfree, Or.inr rfl⟩)
  · exact HasCheckpoint.after_write (checkpoint_of_not_free hfree)

/-- A name is there after a write only if it was before, or the write is of it. -/
theorem HasCheckpoint.before_write {taskId checkpointName : String}
    (h : HasCheckpoint (checkpointWrite db seed runId write fence) taskId checkpointName) :
    HasCheckpoint db taskId checkpointName ∨
      ∃ f, stampedRun db seed runId fence = some f ∧ f.taskId = taskId ∧
        write.key = checkpointName := by
  obtain ⟨c, hc, rfl, rfl⟩ := h
  obtain hc | ⟨f, hf, hw⟩ := checkpointWrite_cases hc
  · exact Or.inl ⟨c, hc, rfl, rfl⟩
  · exact Or.inr ⟨f, hf, hw.taskId.symm, hw.checkpointName.symm⟩

/-- The write adds no name, or one that the phase of its live task admits. -/
def WriteAdmitted (db : Db) (taskId key : String) : Prop :=
  HasCheckpoint db taskId key ∨
    ((RollingBackName key → sagaBegan db taskId) ∧ key ≠ SAGA_PHASE_CHECKPOINT ∧
      ∀ t ∈ db.tasks, t.taskId = taskId → t.state.Live)

/-- An admitted checkpoint write leaves the tasks in their phases. -/
theorem Phased.checkpointWrite (h : Phased db) (howned : Owned db)
    (hadmits : ∀ f, stampedRun db seed runId fence = some f → WriteAdmitted db f.taskId write.key) :
    Phased (checkpointWrite db seed runId write fence) := by
  have hsaga : ∀ id, sagaBegan (Durablerun.checkpointWrite db seed runId write fence) id ↔
      sagaBegan db id := by
    refine fun id => ⟨fun hs => ?_, HasCheckpoint.after_write⟩
    obtain hs | ⟨f, hf, rfl, hk⟩ := HasCheckpoint.before_write hs
    · exact hs
    · obtain hhas | ⟨_, hne, _⟩ := hadmits f hf
      · rwa [hk] at hhas
      · exact absurd hk hne
  refine ⟨fun c hc => ?_, fun c hc hn => (hsaga _).mpr ?_, fun t ht => ?_⟩
  · rw [checkpointWrite_tasks]
    obtain hc | ⟨f, hf, hw⟩ := checkpointWrite_cases hc
    · exact h.owner c hc
    · obtain ⟨t, ht, hown⟩ := howned.owner f (stampedRun_eq_some.mp hf).1
      exact ⟨t, ht, hown.1.trans hw.taskId.symm⟩
  · obtain hc | ⟨f, hf, hw⟩ := checkpointWrite_cases hc
    · exact h.marker c hc hn
    · rw [hw.checkpointName] at hn
      rw [hw.taskId]
      obtain ⟨c₀, hc₀, hid, hk⟩ | ⟨hroll, _⟩ := hadmits f hf
      · exact hid ▸ h.marker c₀ hc₀ (hk.symm ▸ hn)
      · exact hroll hn
  · rw [checkpointWrite_tasks] at ht
    refine (h.tasks t ht).steps (.refl t) ?_ (hsaga _) ?_
    · rw [checkpointWrite_runs]
      exact .refl Run.Same.refl _
    · rintro ⟨c, hc, hid, hn⟩ hfailed
      obtain hc | ⟨f, hf, hw⟩ := checkpointWrite_cases hc
      · exact ⟨c, hc, hid, hn⟩
      · obtain ⟨c₀, hc₀, hid₀, hk⟩ | ⟨_, _, hl⟩ := hadmits f hf
        · exact ⟨c₀, hc₀, hid₀.trans (hw.taskId.symm.trans hid),
            by rw [hk, ← hw.checkpointName]; exact hn⟩
        · have := hl t ht (hid.symm.trans hw.taskId)
          simp [hfailed] at this

/-- An admitted write keeps everything but the mirror, which it does not touch. -/
theorem Unmirrored.checkpointWrite (h : Unmirrored db)
    (hadmits : ∀ f, stampedRun db seed runId fence = some f → WriteAdmitted db f.taskId write.key) :
    Unmirrored (checkpointWrite db seed runId write fence) := by
  refine ⟨h.toUnits.steps ?_ ?_, h.held.of_parked (fun w hw => ?_) (fun r hr w _ hp => ⟨r, ?_, hp⟩),
    ⟨fun r hr => ?_, fun t ht => ?_⟩, h.phased.checkpointWrite h.toOwned hadmits⟩
  · rw [checkpointWrite_runs]
    exact .refl Run.Steps.refl _
  · rw [checkpointWrite_tasks]
    exact .refl Task.Steps.refl _
  · rwa [checkpointWrite_waits] at hw
  · rwa [checkpointWrite_runs]
  · rw [checkpointWrite_runs] at hr
    exact h.stamped.runs r hr
  · rw [checkpointWrite_tasks] at ht
    exact h.stamped.tasks t ht

/-- An admitted checkpoint write leaves a sound store. -/
theorem Core.checkpointWrite (h : Core db)
    (hadmits : ∀ f, stampedRun db seed runId fence = some f → WriteAdmitted db f.taskId write.key) :
    Core (checkpointWrite db seed runId write fence) := by
  refine ⟨h.toUnmirrored.checkpointWrite hadmits, fun r hr t ht => ?_⟩
  rw [checkpointWrite_runs] at hr
  rw [checkpointWrite_tasks] at ht
  exact h.mirror r hr t ht

end CheckpointWrites

end Durablerun
