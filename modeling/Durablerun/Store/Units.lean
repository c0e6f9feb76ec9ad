import Durablerun.Store.Statements

/-!
# Units: a task and its runs

A task and the runs it owns make one unit. `Settled` says what holds of a unit between batches: its
ordinals run from 1 to the top with no gap, the counters account for them, and a live run is the top
one, of a live task. `Units` says it of every unit of a database.

A batch that ends a run breaks this for one unit and restores it before it is done. `UnitsBut` is
what holds in between: every unit but one is settled. The unit is settled again when its task has
ended (`UnitsBut.end`) or has a new run on top (`UnitsBut.succeed`).

Reference: `packages/core/src/statements/purge.ts`.
-/

namespace Durablerun

open Relational

/-! ## Rows at two moments -/

/-- The same run, by everything that never changes of it. -/
structure Run.Same (r r' : Run) : Prop where
  runId : r'.runId = r.runId
  queue : r'.queue = r.queue
  taskId : r'.taskId = r.taskId
  attempt : r'.attempt = r.attempt

/-- The same run, which has not ended in between. -/
structure Run.Steps (r r' : Run) : Prop extends Run.Same r r' where
  state : r'.state = r.state ∨ (r.state.Live ∧ r'.state.Live)

/-- The same task, by what identifies it. -/
structure Task.Same (t t' : Task) : Prop where
  taskId : t'.taskId = t.taskId
  queue : t'.queue = t.queue

/-- The same task, which has neither ended nor been charged in between. -/
structure Task.Steps (t t' : Task) : Prop extends Task.Same t t' where
  attempts : t'.attempts = t.attempts
  infraRetries : t'.infraRetries = t.infraRetries
  maxAttempts : t'.maxAttempts = t.maxAttempts
  state : t'.state = t.state ∨ (t.state.Live ∧ t'.state.Live)

/-- A run is itself. -/
theorem Run.Same.refl (r : Run) : r.Same r := ⟨rfl, rfl, rfl, rfl⟩

/-- A run that takes no step is one step's. -/
theorem Run.Steps.refl (r : Run) : r.Steps r := ⟨.refl r, Or.inl rfl⟩

/-- A task is itself. -/
theorem Task.Same.refl (t : Task) : t.Same t := ⟨rfl, rfl⟩

/-- A task that takes no step is one step's. -/
theorem Task.Steps.refl (t : Task) : t.Steps t := ⟨.refl t, rfl, rfl, rfl, Or.inl rfl⟩

/-- A run that is the same twice is. -/
theorem Run.Same.trans {r s u : Run} (h : r.Same s) (h' : s.Same u) : r.Same u :=
  ⟨h'.runId.trans h.runId, h'.queue.trans h.queue, h'.taskId.trans h.taskId,
    h'.attempt.trans h.attempt⟩

/-- A task that is the same twice is. -/
theorem Task.Same.trans {t s u : Task} (h : t.Same s) (h' : s.Same u) : t.Same u :=
  ⟨h'.taskId.trans h.taskId, h'.queue.trans h.queue⟩

/-- A step leaves a run live where it was. -/
theorem Run.Steps.live_iff {r r' : Run} (h : r.Steps r') : r'.state.Live ↔ r.state.Live := by
  rcases h.state with hs | ⟨hs, hs'⟩
  · rw [hs]
  · exact ⟨fun _ => hs, fun _ => hs'⟩

/-- A step leaves a task live where it was. -/
theorem Task.Steps.live_iff {t t' : Task} (h : t.Steps t') : t'.state.Live ↔ t.state.Live := by
  rcases h.state with hs | ⟨hs, hs'⟩
  · rw [hs]
  · exact ⟨fun _ => hs, fun _ => hs'⟩

/-- What ended stays as it ended. -/
theorem Task.Steps.state_eq {t t' : Task} (h : t.Steps t') (ht : ¬ t.state.Live) :
    t'.state = t.state :=
  h.state.resolve_right fun hs => ht hs.1

/-! ## Settled units -/

/-- The ordinals of a task's runs are exactly `1, …, top`. -/
def Ordinals (db : Db) (taskId : String) (top : ℤ) : Prop :=
  1 ≤ top ∧ ∀ k, (∃ r ∈ db.runs, r.taskId = taskId ∧ r.attempt = k) ↔ 1 ≤ k ∧ k ≤ top

/-- The counters of a task are in their bounds, and a live task has budget left. -/
structure Task.Counted (t : Task) : Prop where
  attempts : attemptsBounds.Within t.attempts
  maxAttempts : maxAttemptsBounds.Within t.maxAttempts
  infraRetries : infraRetriesBounds.Within t.infraRetries
  budget : t.state.Live → t.attempts < t.maxAttempts

/-- A task and its runs between batches. -/
structure Settled (db : Db) (t : Task) : Prop where
  counted : t.Counted
  band : ∃ top, Ordinals db t.taskId top ∧
    (top = t.attempts + t.infraRetries ∨ top = t.attempts + t.infraRetries + 1)
  hasLive : t.state.Live → ∃ r ∈ db.runs, r.taskId = t.taskId ∧ r.state.Live
  current : ∀ r ∈ db.runs, r.taskId = t.taskId → r.state.Live →
    t.state.Live ∧ r.attempt = t.attempts + t.infraRetries + 1

/-- Every run is owned by a task of its queue, and no ordinal leaves its bound. -/
structure Owned (db : Db) : Prop where
  owner : ∀ r ∈ db.runs, ∃ t ∈ db.tasks, runOwnedByTask r t
  ordinal : ∀ r ∈ db.runs, r.attempt ≤ MAX_RUN_ORDINAL

/-- Every unit is settled. -/
structure Units (db : Db) : Prop extends Owned db where
  settled : ∀ t ∈ db.tasks, Settled db t

/-- Every unit but one is settled, and the ordinals of that one have no gap. -/
structure UnitsBut (taskId : String) (top : ℤ) (db : Db) : Prop extends Owned db where
  settled : ∀ t ∈ db.tasks, t.taskId ≠ taskId → Settled db t
  ordinals : Ordinals db taskId top

/-- An empty store tells its tasks apart. -/
theorem Units.empty : Units Db.empty :=
  ⟨⟨fun r hr => absurd hr (Table.not_mem_empty r), fun r hr => absurd hr (Table.not_mem_empty r)⟩,
    fun t ht => absurd ht (Table.not_mem_empty t)⟩

/-! ## What a settled unit gives -/

variable {db db' : Db}

/-- A run belongs to its task when the ids agree. -/
theorem Owned.runOwnedByTask (h : Owned db) {r : Run} {t : Task} (hr : r ∈ db.runs)
    (ht : t ∈ db.tasks) (hid : r.taskId = t.taskId) : runOwnedByTask r t := by
  obtain ⟨t', ht', hown⟩ := h.owner r hr
  rwa [db.task_unique ht ht' (hid.symm.trans hown.1.symm)]

/-- The live runs of one task are one run. -/
theorem Settled.sole {t : Task} (h : Settled db t) {r s : Run} (hr : r ∈ db.runs)
    (hs : s ∈ db.runs) (hrt : r.taskId = t.taskId) (hst : s.taskId = t.taskId)
    (hrl : r.state.Live) (hsl : s.state.Live) : r = s :=
  db.run_unique_ordinal hr hs (hrt.trans hst.symm)
    ((h.current r hr hrt hrl).2.trans (h.current s hs hst hsl).2.symm)

/-- A live run has the top ordinal. -/
theorem Settled.top {t : Task} (h : Settled db t) {r : Run} (hr : r ∈ db.runs)
    (hrt : r.taskId = t.taskId) (hrl : r.state.Live) : Ordinals db t.taskId r.attempt := by
  obtain ⟨top, hord, htop⟩ := h.band
  have hat := (h.current r hr hrt hrl).2
  have hle := ((hord.2 r.attempt).mp ⟨r, hr, hrt, rfl⟩).2
  have heq : top = r.attempt := by omega
  rwa [← heq]

/-- Two live runs of one task are one. -/
theorem Units.sole (h : Units db) {r s : Run} (hr : r ∈ db.runs) (hs : s ∈ db.runs)
    (hid : s.taskId = r.taskId) (hrl : r.state.Live) (hsl : s.state.Live) : s = r := by
  obtain ⟨t, ht, hown⟩ := h.owner r hr
  exact (h.settled t ht).sole hs hr (hid.trans hown.1.symm) hown.1.symm hsl hrl

/-- The task of a live run is live. -/
theorem Units.live (h : Units db) {r : Run} {t : Task} (hr : r ∈ db.runs) (ht : t ∈ db.tasks)
    (hid : r.taskId = t.taskId) (hrl : r.state.Live) : t.state.Live :=
  ((h.settled t ht).current r hr hid hrl).1

/-- Setting a unit apart: nothing is lost of the others. -/
theorem Units.but (h : Units db) {taskId : String} {top : ℤ} (hord : Ordinals db taskId top) :
    UnitsBut taskId top db :=
  ⟨h.toOwned, fun t ht _ => h.settled t ht, hord⟩

/-- Opening the unit of a live run. -/
theorem Units.open (h : Units db) {r : Run} (hr : r ∈ db.runs) (hrl : r.state.Live) :
    UnitsBut r.taskId r.attempt db := by
  obtain ⟨t, ht, hown⟩ := h.owner r hr
  refine h.but ?_
  rw [← hown.1]
  exact (h.settled t ht).top hr hown.1.symm hrl

/-! ## Rows that step -/

/-- A task's ordinals stay where its runs do. -/
theorem Ordinals.of_rel {taskId : String} {top : ℤ} (h : Ordinals db taskId top)
    (hr : Table.Rel Run.Same db.runs db'.runs) : Ordinals db' taskId top := by
  refine ⟨h.1, fun k => ?_⟩
  rw [← h.2 k]
  constructor
  · rintro ⟨r', hr', hid, hk⟩
    obtain ⟨r, hmem, hsame⟩ := hr.before r' hr'
    exact ⟨r, hmem, hsame.taskId.symm.trans hid, hsame.attempt.symm.trans hk⟩
  · rintro ⟨r, hmem, hid, hk⟩
    obtain ⟨r', hr', hsame⟩ := hr.after r hmem
    exact ⟨r', hr', hsame.taskId.trans hid, hsame.attempt.trans hk⟩

/-- Every run stays owned where runs and tasks stay. -/
theorem Owned.of_rel (h : Owned db) (hr : Table.Rel Run.Same db.runs db'.runs)
    (ht : Table.Rel Task.Same db.tasks db'.tasks) : Owned db' := by
  refine ⟨fun r' hr' => ?_, fun r' hr' => ?_⟩
  · obtain ⟨r, hmem, hsame⟩ := hr.before r' hr'
    obtain ⟨t, htmem, hown⟩ := h.owner r hmem
    obtain ⟨t', ht', htsame⟩ := ht.after t htmem
    exact ⟨t', ht', htsame.taskId.trans (hown.1.trans hsame.taskId.symm),
      htsame.queue.trans (hown.2.trans hsame.queue.symm)⟩
  · obtain ⟨r, hmem, hsame⟩ := hr.before r' hr'
    rw [hsame.attempt]
    exact h.ordinal r hmem

/-- A unit whose own rows step stays settled, whatever happens to the runs of other tasks. -/
theorem Settled.steps {t t' : Task} (h : Settled db t) (ht : t.Steps t')
    (hr : Table.Rel (fun r r' => r.Same r' ∧ (r.taskId = t.taskId → r.Steps r')) db.runs db'.runs) :
    Settled db' t' where
  counted := by
    refine ⟨?_, ?_, ?_, fun hl => ?_⟩
    · rw [ht.attempts]; exact h.counted.attempts
    · rw [ht.maxAttempts]; exact h.counted.maxAttempts
    · rw [ht.infraRetries]; exact h.counted.infraRetries
    · rw [ht.attempts, ht.maxAttempts]; exact h.counted.budget (ht.live_iff.mp hl)
  band := by
    obtain ⟨top, hord, htop⟩ := h.band
    refine ⟨top, ?_, ?_⟩
    · rw [ht.taskId]
      exact hord.of_rel (hr.imp fun _ _ h => h.1)
    · rw [ht.attempts, ht.infraRetries]; exact htop
  hasLive := by
    intro hl
    obtain ⟨r, hm, hid, hrl⟩ := h.hasLive (ht.live_iff.mp hl)
    obtain ⟨r', hm', hsame, hstep⟩ := hr.after r hm
    exact ⟨r', hm', hsame.taskId.trans (hid.trans ht.taskId.symm), (hstep hid).live_iff.mpr hrl⟩
  current := by
    intro r' hm' hid hrl
    obtain ⟨r, hm, hsame, hstep⟩ := hr.before r' hm'
    have hid' : r.taskId = t.taskId := hsame.taskId.symm.trans (hid.trans ht.taskId)
    obtain ⟨hl, hat⟩ := h.current r hm hid' ((hstep hid').live_iff.mp hrl)
    exact ⟨ht.live_iff.mpr hl, by rw [hsame.attempt, ht.attempts, ht.infraRetries]; exact hat⟩

/-- What tells tasks apart stays where runs and tasks only take steps. -/
theorem Units.steps (h : Units db) (hr : Table.Rel Run.Steps db.runs db'.runs)
    (ht : Table.Rel Task.Steps db.tasks db'.tasks) : Units db' := by
  have howned := h.toOwned.of_rel (hr.imp fun _ _ h => h.toSame) (ht.imp fun _ _ h => h.toSame)
  refine ⟨howned, fun t' hmem => ?_⟩
  obtain ⟨t, htm, hstep⟩ := ht.before t' hmem
  exact (h.settled t htm).steps hstep (hr.imp fun _ _ h => ⟨h.toSame, fun _ => h⟩)

/-- Every unit but one stays settled while the rows of that one change as they like. -/
theorem UnitsBut.of_rel {taskId : String} {top : ℤ} (h : UnitsBut taskId top db)
    (hr : Table.Rel (fun r r' => r.Same r' ∧ (r.taskId ≠ taskId → r.Steps r')) db.runs db'.runs)
    (ht : Table.Rel (fun t t' => t.Same t' ∧ (t.taskId ≠ taskId → t.Steps t')) db.tasks
      db'.tasks) : UnitsBut taskId top db' := by
  have hr' : Table.Rel Run.Same db.runs db'.runs := hr.imp fun _ _ h => h.1
  have ht' : Table.Rel Task.Same db.tasks db'.tasks := ht.imp fun _ _ h => h.1
  refine ⟨h.toOwned.of_rel hr' ht', fun t' hmem hne => ?_, h.ordinals.of_rel hr'⟩
  obtain ⟨t, htm, hsame, hstep⟩ := ht.before t' hmem
  have hne' : t.taskId ≠ taskId := hsame.taskId ▸ hne
  exact (h.settled t htm hne').steps (hstep hne')
    (hr.imp fun _ _ h => ⟨h.1, fun hid => h.2 (hid ▸ hne')⟩)

/-! ## A new run -/

/-- One run more, on top of its task's. -/
theorem Ordinals.push {taskId : String} {top : ℤ} (h : Ordinals db taskId top) {p : Run}
    (hruns : ∀ r, r ∈ db'.runs ↔ r ∈ db.runs ∨ r = p) (hid : p.taskId = taskId)
    (hat : p.attempt = top + 1) : Ordinals db' taskId (top + 1) := by
  refine ⟨by have := h.1; omega, fun k => ?_⟩
  constructor
  · rintro ⟨r, hr, hrid, rfl⟩
    rcases (hruns r).mp hr with hr | rfl
    · have := (h.2 r.attempt).mp ⟨r, hr, hrid, rfl⟩
      omega
    · have := h.1
      omega
  · intro hk
    by_cases hkt : k ≤ top
    · obtain ⟨r, hr, hrid, hrk⟩ := (h.2 k).mpr ⟨hk.1, hkt⟩
      exact ⟨r, (hruns r).mpr (Or.inl hr), hrid, hrk⟩
    · exact ⟨p, (hruns p).mpr (Or.inr rfl), hid, by omega⟩

/-- A run of another task changes nothing of a settled unit. -/
theorem Settled.push {t : Task} (h : Settled db t) {p : Run}
    (hruns : ∀ r, r ∈ db'.runs ↔ r ∈ db.runs ∨ r = p) (hid : p.taskId ≠ t.taskId) :
    Settled db' t where
  counted := h.counted
  band := by
    obtain ⟨top, hord, htop⟩ := h.band
    refine ⟨top, ⟨hord.1, fun k => ?_⟩, htop⟩
    rw [← hord.2 k]
    constructor
    · rintro ⟨r, hr, hrid, hk⟩
      rcases (hruns r).mp hr with hr | rfl
      · exact ⟨r, hr, hrid, hk⟩
      · exact absurd hrid hid
    · rintro ⟨r, hr, hrid, hk⟩
      exact ⟨r, (hruns r).mpr (Or.inl hr), hrid, hk⟩
  hasLive := by
    intro hl
    obtain ⟨r, hr, hrest⟩ := h.hasLive hl
    exact ⟨r, (hruns r).mpr (Or.inl hr), hrest⟩
  current := by
    intro r hr hrid hrl
    rcases (hruns r).mp hr with hr | rfl
    · exact h.current r hr hrid hrl
    · exact absurd hrid hid

/-- A run placed one past the highest ordinal of its task has the highest. -/
theorem UnitsBut.push {taskId : String} {top : ℤ} (h : UnitsBut taskId top db) {p : Run}
    (hruns : ∀ r, r ∈ db'.runs ↔ r ∈ db.runs ∨ r = p) (htasks : db'.tasks = db.tasks)
    (hown : ∃ t ∈ db.tasks, Durablerun.runOwnedByTask p t) (hid : p.taskId = taskId)
    (hat : p.attempt = top + 1) (hbound : top + 1 ≤ MAX_RUN_ORDINAL) :
    UnitsBut taskId (top + 1) db' := by
  refine ⟨⟨fun r hr => ?_, fun r hr => ?_⟩, fun t ht hne => ?_, h.ordinals.push hruns hid hat⟩
  · rw [htasks]
    rcases (hruns r).mp hr with hr | rfl
    · exact h.owner r hr
    · exact hown
  · rcases (hruns r).mp hr with hr | rfl
    · exact h.ordinal r hr
    · omega
  · exact (h.settled t (htasks ▸ ht) hne).push hruns (hid ▸ hne.symm)

/-! ## Closing a unit -/

/-- The unit is settled again when its task has ended with no live run. -/
theorem UnitsBut.end {taskId : String} {top : ℤ} (h : UnitsBut taskId top db)
    (hend : ∀ t ∈ db.tasks, t.taskId = taskId → ¬ t.state.Live ∧ t.Counted ∧
      (top = t.attempts + t.infraRetries ∨ top = t.attempts + t.infraRetries + 1))
    (hdead : ∀ r ∈ db.runs, r.taskId = taskId → ¬ r.state.Live) : Units db := by
  refine ⟨h.toOwned, fun t ht => ?_⟩
  by_cases hid : t.taskId = taskId
  · obtain ⟨hl, hcount, htop⟩ := hend t ht hid
    exact ⟨hcount, ⟨top, hid ▸ h.ordinals, htop⟩, fun h => absurd h hl,
      fun r hr hrid hrl => absurd hrl (hdead r hr (hrid.trans hid))⟩
  · exact h.settled t ht hid

/-- The unit is settled again when its task is live and its top run is the one live run. -/
theorem UnitsBut.succeed {taskId : String} {top : ℤ} (h : UnitsBut taskId top db) {p : Run}
    (hp : p ∈ db.runs) (hpid : p.taskId = taskId) (hpl : p.state.Live) (hpt : p.attempt = top)
    (hlive : ∀ t ∈ db.tasks, t.taskId = taskId → t.state.Live ∧ t.Counted ∧
      top = t.attempts + t.infraRetries + 1)
    (hsole : ∀ r ∈ db.runs, r.taskId = taskId → r.state.Live → r = p) : Units db := by
  refine ⟨h.toOwned, fun t ht => ?_⟩
  by_cases hid : t.taskId = taskId
  · obtain ⟨hl, hcount, htop⟩ := hlive t ht hid
    refine ⟨hcount, ⟨top, hid ▸ h.ordinals, Or.inr htop⟩,
      fun _ => ⟨p, hp, hpid.trans hid.symm, hpl⟩, fun r hr hrid hrl => ⟨hl, ?_⟩⟩
    rw [hsole r hr (hrid.trans hid) hrl, hpt, htop]
  · exact h.settled t ht hid

end Durablerun
