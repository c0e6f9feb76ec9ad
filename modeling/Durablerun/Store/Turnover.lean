import Durablerun.Store.Effects

/-!
# The turn of a unit

A batch that ends the current run of a live task either ends the task with it (`Core.endUnit`) or
puts a new run on top (`Core.succeedUnit`). Both are stated over what the batch left of the two rows,
whatever statements it took to get there.

Reference: `packages/store-libsql/src/store.ts`.
-/

namespace Durablerun

open Relational

variable {db db' : Db} {r r' p : Run} {t t' : Task}

/-- A live task and its current run. -/
structure Current (db : Db) (r : Run) (t : Task) : Prop where
  run : r ∈ db.runs
  task : t ∈ db.tasks
  owned : runOwnedByTask r t
  live : r.state.Live

namespace Current

/-- A current run is of its task. -/
theorem taskId (h : Current db r t) : r.taskId = t.taskId := h.owned.1.symm

/-- The current run's ordinal, by the counters. -/
theorem attempt (h : Current db r t) (hu : Units db) :
    t.state.Live ∧ r.attempt = t.attempts + t.infraRetries + 1 :=
  (hu.settled t h.task).current r h.run h.taskId h.live

/-- Another run of the task has failed. -/
theorem failed (h : Current db r t) (hc : Core db) {s : Run} (hs : s ∈ db.runs)
    (hid : s.taskId = t.taskId) (hne : s ≠ r) : s.state = .failed := by
  by_contra hf
  have hst : t.state = s.state := hc.mirror s hs t h.task hid hf
  have hl : s.state.Live := hst ▸ (h.attempt hc.toUnits).1
  exact hne ((hc.settled t h.task).sole hs h.run hid h.taskId hl h.live)

end Current

/-- What a batch made of a live task and of its current run. -/
structure Turned (db db' : Db) (r r' : Run) (t t' : Task) : Prop where
  current : Current db r t
  run : r.Same r'
  task : t.Same t'
  tasks : Table.Replaced db.tasks db'.tasks t t'
  stampedRun : ∀ s ∈ r'.fenceStamp, s.statement.Left r'.state
  stampedTask : ∀ s ∈ t'.fenceStamp, s.statement.LeftTask t'.state
  counted : t'.Counted

namespace Turned

/-- The other units do not notice. -/
theorem unitsBut (h : Turned db db' r r' t t') (hu : Units db) {runs : Table Run Run.keys}
    (hruns : Table.Replaced db.runs runs r r') :
    UnitsBut t.taskId r.attempt { db' with runs } := by
  have hopen : UnitsBut t.taskId r.attempt db := h.current.taskId ▸ hu.open h.current.run h.current.live
  refine hopen.of_rel (hruns.rel h.current.run ⟨h.run, fun hne => absurd h.current.taskId hne⟩
    fun s _ _ => ⟨.refl s, fun _ => .refl s⟩) (h.tasks.rel h.current.task ⟨h.task, fun hne => ?_⟩
    fun s _ _ => ⟨.refl s, fun _ => .refl s⟩)
  exact absurd rfl hne

/-- The task of a turn is there after it. -/
theorem mem_task (h : Turned db db' r r' t t') : t' ∈ db'.tasks := (h.tasks t').mpr (Or.inl rfl)

/-- The task of the unit after the batch. -/
theorem eq_task (h : Turned db db' r r' t t') {s : Task} (hs : s ∈ db'.tasks)
    (hid : s.taskId = t.taskId) : s = t' :=
  db'.task_unique hs h.mem_task (hid.trans h.task.taskId.symm)

/-- A task of another unit was there before. -/
theorem mem_of_ne (h : Turned db db' r r' t t') {s : Task} (hs : s ∈ db'.tasks)
    (hid : s.taskId ≠ t.taskId) : s ∈ db.tasks := by
  rcases (h.tasks s).mp hs with rfl | ⟨hs, _⟩
  · exact absurd h.task.taskId hid
  · exact hs

/-- The stamps stay sound through a turn. -/
theorem stamped (h : Turned db db' r r' t t') (hc : Core db)
    (hruns : ∀ s ∈ db'.runs, s = r' ∨ s ∈ db.runs ∨ ∀ stamp ∈ s.fenceStamp,
      stamp.statement.Left s.state) : Stamped db' := by
  refine ⟨fun s hs stamp hstamp => ?_, fun s hs stamp hstamp => ?_⟩
  · rcases hruns s hs with rfl | hs | hleft
    · exact h.stampedRun stamp hstamp
    · exact hc.stamped.runs s hs stamp hstamp
    · exact hleft stamp hstamp
  · rcases (h.tasks s).mp hs with rfl | ⟨hs, _⟩
    · exact h.stampedTask stamp hstamp
    · exact hc.stamped.tasks s hs stamp hstamp

/-- Every wait stays held through a turn. -/
theorem held (hc : Core db)
    (hruns : ∀ s ∈ db.runs, s ≠ r → s ∈ db'.runs)
    (hwaits : ∀ w ∈ db'.waits, w ∈ db.waits ∧ w.runId ≠ r.runId) : Held db' :=
  hc.held.of_parked (fun w hw => (hwaits w hw).1) fun s hs w hw hp =>
    ⟨s, hruns s hs fun he => (hwaits w hw).2 (he ▸ hp.runId.symm), hp⟩

end Turned

/-- The task ends with its run. -/
theorem Core.endUnit (hc : Core db) (h : Turned db db' r r' t t')
    (hruns : Table.Replaced db.runs db'.runs r r')
    (hwaits : ∀ w ∈ db'.waits, w ∈ db.waits ∧ w.runId ≠ r.runId)
    (hdead : ¬ r'.state.Live) (hend : ¬ t'.state.Live)
    (hmirror : r'.state ≠ .failed → t'.state = r'.state)
    (hband : r.attempt = t'.attempts + t'.infraRetries ∨
      r.attempt = t'.attempts + t'.infraRetries + 1)
    (hphased : Phased db') : Core db' := by
  have hother : ∀ s ∈ db'.runs, s.taskId = t.taskId → s ≠ r' → s.state = .failed := by
    intro s hs hid hne
    obtain ⟨hs, hsr⟩ := ((hruns s).mp hs).resolve_left hne
    exact h.current.failed hc hs hid hsr
  have hunits : Units db' := by
    refine (h.unitsBut hc.toUnits hruns).end (fun s hs hid => ?_) fun s hs hid hl => ?_
    · rw [h.eq_task hs hid]
      exact ⟨hend, h.counted, hband⟩
    · by_cases he : s = r'
      · exact hdead (he ▸ hl)
      · simp [hother s hs hid he] at hl
  refine ⟨⟨hunits, Turned.held hc (fun s hs hne => (hruns s).mpr (Or.inr ⟨hs, hne⟩)) hwaits,
    h.stamped hc fun s hs => ((hruns s).mp hs).imp_right fun hs => Or.inl hs.1, hphased⟩, ?_⟩
  intro s hs u hu hid hf
  by_cases hut : u.taskId = t.taskId
  · rw [h.eq_task hu hut]
    by_cases he : s = r'
    · rw [he] at hf ⊢
      exact hmirror hf
    · exact absurd (hother s hs (hid.trans hut) he) hf
  · rcases (hruns s).mp hs with rfl | ⟨hs, _⟩
    · exact absurd (hid.symm.trans (h.run.taskId.trans h.current.taskId)) hut
    · exact hc.mirror s hs u (h.mem_of_ne hu hut) hid hf

/-- A new run takes the place of the one that failed. -/
theorem Core.succeedUnit (hc : Core db) (h : Turned db db' r r' t t') {runs : Table Run Run.keys}
    (hreplaced : Table.Replaced db.runs runs r r') (hruns : ∀ s, s ∈ db'.runs ↔ s ∈ runs ∨ s = p)
    (hwaits : ∀ w ∈ db'.waits, w ∈ db.waits ∧ w.runId ≠ r.runId) (hfailed : r'.state = .failed)
    (hp : Current db' p t') (hpat : p.attempt = r.attempt + 1)
    (hps : ∀ s ∈ p.fenceStamp, s.statement.Left p.state) (hmirror : t'.state = p.state)
    (hcount : r.attempt = t'.attempts + t'.infraRetries) (hphased : Phased db') : Core db' := by
  have hpid : p.taskId = t.taskId := hp.taskId.trans h.task.taskId
  have hother : ∀ s ∈ db'.runs, s.taskId = t.taskId → s ≠ p → s.state = .failed := by
    intro s hs hid hne
    rcases (hreplaced s).mp (((hruns s).mp hs).resolve_right hne) with rfl | ⟨hs, hsr⟩
    · exact hfailed
    · exact h.current.failed hc hs hid hsr
  have hbound : r.attempt + 1 ≤ MAX_RUN_ORDINAL := by
    have hbudget := h.counted.budget (hmirror ▸ hp.live)
    obtain ⟨_, hmax⟩ := h.counted.maxAttempts
    obtain ⟨_, hinfra⟩ := h.counted.infraRetries
    simp only [maxAttemptsBounds, infraRetriesBounds, MAX_RUN_ORDINAL] at *
    omega
  have hunits : Units db' := by
    have hpushed : UnitsBut t.taskId (r.attempt + 1) db' :=
      (h.unitsBut hc.toUnits hreplaced).push hruns rfl ⟨t', h.mem_task, hp.owned⟩ hpid hpat hbound
    refine hpushed.succeed hp.run hpid hp.live hpat (fun s hs hid => ?_) fun s hs hid hl => ?_
    · rw [h.eq_task hs hid]
      exact ⟨hmirror ▸ hp.live, h.counted, by rw [hcount]⟩
    · by_contra hne
      simp [hother s hs hid hne] at hl
  refine ⟨⟨hunits, Turned.held hc (fun s hs hne => ?_) hwaits, h.stamped hc fun s hs => ?_,
    hphased⟩, fun s hs u hu hid hf => ?_⟩
  · exact (hruns s).mpr (Or.inl ((hreplaced s).mpr (Or.inr ⟨hs, hne⟩)))
  · rcases (hruns s).mp hs with hs | rfl
    · exact ((hreplaced s).mp hs).imp_right fun hs => Or.inl hs.1
    · exact Or.inr (Or.inr hps)
  · by_cases hut : u.taskId = t.taskId
    · rw [h.eq_task hu hut]
      by_cases he : s = p
      · rw [he]
        exact hmirror
      · exact absurd (hother s hs (hid.trans hut) he) hf
    · rcases (hruns s).mp hs with hs | rfl
      · rcases (hreplaced s).mp hs with rfl | ⟨hs, _⟩
        · exact absurd (hid.symm.trans (h.run.taskId.trans h.current.taskId)) hut
        · exact hc.mirror s hs u (h.mem_of_ne hu hut) hid hf
      · exact absurd (hid.symm.trans hpid) hut

/-! ## The phase of a turned unit -/

/-- The tasks a turn does not touch stay in their phase. -/
theorem Phased.replace (h : Phased db) (hr : Table.Rel Run.Same db.runs db'.runs)
    (htasks : Table.Replaced db.tasks db'.tasks t t') (ht : t ∈ db.tasks) (hsame : t.Same t')
    (hc : db'.checkpoints = db.checkpoints) (hnew : InPhase db' t') : Phased db' := by
  refine ⟨fun c hmem => ?_, fun c hmem hn => ?_, fun s hs => ?_⟩
  · obtain ⟨u, hu, hid⟩ := h.owner c (hc ▸ hmem)
    obtain ⟨u', hu', hsame'⟩ := (htasks.rel ht hsame fun s _ _ => .refl s).after u hu
    exact ⟨u', hu', hsame'.taskId.trans hid⟩
  · rw [sagaBegan_of_eq hc]
    exact h.marker c (hc ▸ hmem) hn
  · rcases (htasks s).mp hs with rfl | ⟨hs, _⟩
    · exact hnew
    · exact (h.tasks s hs).steps (.refl s) hr (sagaBegan_of_eq hc _) fun hstep _ =>
        (stepStarted_of_eq hc _).mp hstep

end Durablerun
