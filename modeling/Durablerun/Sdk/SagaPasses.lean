import Durablerun.Sdk.SagaStore

/-!
# What a pass knows of its saga

A pass whose claim is held knows every start marker and every rollback of its task, but for the one
write it awaits. What it asks of the store next follows from what it knows: a marker of an index
past every other, or the rollback of the step that started last.

Reference: `packages/sdk/src/context.ts`.
-/

namespace Durablerun

open Relational

variable {s : Sys} {b : Batch} {taskId key : String} {index : ℕ} {now : ℤ} {db db' : Db}
  {ctx : ReplayContext} {p p' : Pass}

/-! ## The saga in the store -/

/-- The start index that is stored for a step of the task. -/
def StartedAt (db : Db) (taskId key : String) (index : ℕ) : Prop :=
  ∃ c ∈ db.checkpoints, c.taskId = taskId ∧ c.checkpointName = SAGA_STARTED_PREFIX ++ key ∧
    decodeStartIndex c.state = some index

/-- The rollback of a step of the task has its checkpoint. -/
def RolledBack (db : Db) (taskId key : String) : Prop :=
  HasCheckpoint db taskId (SAGA_ROLLBACK_PREFIX ++ key)

/-- Every start marker and every attempt record can be read. -/
structure Readable (db : Db) : Prop where
  started : ∀ c ∈ db.checkpoints, namedUnder c.checkpointName SAGA_STARTED_PREFIX →
    ∃ index, decodeStartIndex c.state = some index
  tries : ∀ c ∈ db.checkpoints, namedUnder c.checkpointName SAGA_TRIES_PREFIX →
    ∃ record, decodeRollbackTry c.state = some record

/-- A step has one index. -/
theorem StartedAt.unique {index' : ℕ} (h : StartedAt db taskId key index)
    (h' : StartedAt db taskId key index') : index = index' := by
  obtain ⟨c, hc, hid, hname, hread⟩ := h
  obtain ⟨c', hc', hid', hname', hread'⟩ := h'
  obtain rfl := db.checkpoint_unique hc hc' (hid.trans hid'.symm) (hname.trans hname'.symm)
  exact Option.some.inj (hread.symm.trans hread')

/-- Where the start markers stay, what started stays. -/
theorem SameUnder.startedAt (h : SameUnder SAGA_STARTED_PREFIX db db') :
    StartedAt db' taskId key index ↔ StartedAt db taskId key index := by
  have hnamed : ∀ c : Checkpoint, c.checkpointName = SAGA_STARTED_PREFIX ++ key →
      (c ∈ db'.checkpoints ↔ c ∈ db.checkpoints) :=
    fun c hname => h c (hname ▸ namedUnder_append _ _)
  exact exists_congr fun c => ⟨fun ⟨hc, hrest⟩ => ⟨(hnamed c hrest.2.1).mp hc, hrest⟩,
    fun ⟨hc, hrest⟩ => ⟨(hnamed c hrest.2.1).mpr hc, hrest⟩⟩

/-- Where the rollbacks' checkpoints stay, what is rolled back stays. -/
theorem SameUnder.rolledBack (h : SameUnder SAGA_ROLLBACK_PREFIX db db') :
    RolledBack db' taskId key ↔ RolledBack db taskId key := by
  have hnamed : ∀ c : Checkpoint, c.checkpointName = SAGA_ROLLBACK_PREFIX ++ key →
      (c ∈ db'.checkpoints ↔ c ∈ db.checkpoints) :=
    fun c hname => h c (hname ▸ namedUnder_append _ _)
  exact exists_congr fun c => ⟨fun ⟨hc, hrest⟩ => ⟨(hnamed c hrest.2).mp hc, hrest⟩,
    fun ⟨hc, hrest⟩ => ⟨(hnamed c hrest.2).mpr hc, hrest⟩⟩

/-- A start marker that is stored is read with the index it was written with. -/
theorem Inserted.startedAt (h : Inserted db db' taskId
      ⟨SAGA_STARTED_PREFIX ++ key, encodeStartIndex index⟩) (hpos : 1 ≤ index)
    (hmax : index ≤ MAX_SAFE_INTEGER) {taskId' key' : String} {index' : ℕ} :
    StartedAt db' taskId' key' index' ↔
      StartedAt db taskId' key' index' ∨ taskId' = taskId ∧ key' = key ∧ index' = index := by
  obtain ⟨c₀, hid, hname, hstate, hrows⟩ := h
  have hread : decodeStartIndex c₀.state = some index := by
    rw [hstate]
    exact decodeStartIndex_encode hpos hmax
  constructor
  · rintro ⟨c, hc, hid', hname', hread'⟩
    obtain hc | rfl := (hrows c).mp hc
    · exact Or.inl ⟨c, hc, hid', hname', hread'⟩
    · exact Or.inr ⟨hid'.symm.trans hid, append_injective (hname'.symm.trans hname),
        Option.some.inj (hread'.symm.trans hread)⟩
  · rintro (⟨c, hc, hrest⟩ | ⟨rfl, rfl, rfl⟩)
    · exact ⟨c, (hrows c).mpr (Or.inl hc), hrest⟩
    · exact ⟨c₀, (hrows c₀).mpr (Or.inr rfl), hid, hname, hread⟩

/-- A rollback's checkpoint that is stored is the one of its step. -/
theorem Inserted.rolledBack {state : String} (h : Inserted db db' taskId
      ⟨SAGA_ROLLBACK_PREFIX ++ key, state⟩) {taskId' key' : String} :
    RolledBack db' taskId' key' ↔ RolledBack db taskId' key' ∨ taskId' = taskId ∧ key' = key := by
  obtain ⟨c₀, hid, hname, _, hrows⟩ := h
  constructor
  · rintro ⟨c, hc, hid', hname'⟩
    obtain hc | rfl := (hrows c).mp hc
    · exact Or.inl ⟨c, hc, hid', hname'⟩
    · exact Or.inr ⟨hid'.symm.trans hid, append_injective (hname'.symm.trans hname)⟩
  · rintro (⟨c, hc, hrest⟩ | ⟨rfl, rfl⟩)
    · exact ⟨c, (hrows c).mpr (Or.inl hc), hrest⟩
    · exact ⟨c₀, (hrows c₀).mpr (Or.inr rfl), hid, hname⟩

/-- Every text can be read after a checkpoint more, when its own can. -/
theorem Readable.inserted {write : CheckpointWrite} (h : Readable db)
    (hinserted : Inserted db db' taskId write)
    (hstarted : namedUnder write.key SAGA_STARTED_PREFIX →
      ∃ index, decodeStartIndex write.stateJson = some index)
    (htries : ¬ namedUnder write.key SAGA_TRIES_PREFIX) : Readable db' := by
  obtain ⟨c₀, _, hname, hstate, hrows⟩ := hinserted
  refine ⟨fun c hc hnamed => ?_, fun c hc hnamed => ?_⟩
  · obtain hc | rfl := (hrows c).mp hc
    · exact h.started c hc hnamed
    · rw [hstate]
      exact hstarted (hname ▸ hnamed)
  · obtain hc | rfl := (hrows c).mp hc
    · exact h.tries c hc hnamed
    · exact absurd (hname ▸ hnamed) htries

/-! ## Reading the checkpoints -/

/-- A checkpoint's text can be read, if it is one of a saga's. -/
def CommittedCheckpoint.Readable (cp : CommittedCheckpoint) : Prop :=
  (namedUnder cp.checkpointName SAGA_STARTED_PREFIX →
      ∃ index, decodeStartIndex cp.stateJson = some index) ∧
    (namedUnder cp.checkpointName SAGA_TRIES_PREFIX →
      ∃ record, decodeRollbackTry cp.stateJson = some record)

section Read

variable {name stateJson : String} {cp : CommittedCheckpoint}

/-- The phase's checkpoint is no start marker. -/
theorem not_started_phase : SAGA_PHASE_CHECKPOINT ≠ SAGA_STARTED_PREFIX ++ key := fun heq =>
  SagaPrefix.not_phase (Or.inl rfl) (heq ▸ namedUnder_append _ _)

/-- The phase's checkpoint is no rollback's. -/
theorem not_rollback_phase : SAGA_PHASE_CHECKPOINT ≠ SAGA_ROLLBACK_PREFIX ++ key := fun heq =>
  SagaPrefix.not_phase (Or.inr (Or.inl rfl)) (heq ▸ namedUnder_append _ _)

/-- A start marker is no rollback's checkpoint. -/
theorem not_started_rollback {key' : String} :
    SAGA_STARTED_PREFIX ++ key ≠ SAGA_ROLLBACK_PREFIX ++ key' := fun heq =>
  SagaPrefix.other (Or.inl rfl) (Or.inr (Or.inl rfl)) (by decide)
    (heq ▸ namedUnder_append _ key')

/-- Reading a checkpoint adds the start index it holds. -/
theorem mem_startIndexes_read : (key, index) ∈ (ctx.readSagaCheckpoint name stateJson).startIndexes ↔
    (key, index) ∈ ctx.startIndexes ∨
      name = SAGA_STARTED_PREFIX ++ key ∧ decodeStartIndex stateJson = some index := by
  unfold ReplayContext.readSagaCheckpoint
  by_cases hphase : name = SAGA_PHASE_CHECKPOINT
  · rw [if_pos hphase, hphase]
    exact ⟨Or.inl, fun h => h.elim id fun h => absurd h.1 not_started_phase⟩
  rw [if_neg hphase]
  by_cases hstarted : namedUnder name SAGA_STARTED_PREFIX
  · obtain ⟨key', rfl⟩ := (namedUnder_iff).mp hstarted
    rw [if_pos hstarted]
    simp only [keyUnder_append SAGA_STARTED_PREFIX key']
    cases hread : decodeStartIndex stateJson with
    | none => exact ⟨Or.inl, fun h => h.elim id fun h => by cases h.2⟩
    | some index' =>
      simp only [List.mem_append, List.mem_singleton, Prod.mk.injEq, Option.some.injEq]
      refine or_congr_right ⟨?_, ?_⟩
      · rintro ⟨rfl, rfl⟩
        exact ⟨rfl, rfl⟩
      · rintro ⟨heq, rfl⟩
        exact ⟨(append_injective heq).symm, rfl⟩
  · have hno : ¬ (name = SAGA_STARTED_PREFIX ++ key ∧ decodeStartIndex stateJson = some index) :=
      fun h => hstarted (h.1 ▸ namedUnder_append _ _)
    rw [if_neg hstarted]
    simp only [hno, or_false]
    split
    · exact Iff.rfl
    split
    · cases decodeRollbackTry stateJson <;> exact Iff.rfl
    · exact Iff.rfl

/-- Reading a checkpoint adds the rollback it is of. -/
theorem mem_rolledBack_read : key ∈ (ctx.readSagaCheckpoint name stateJson).rolledBack ↔
    key ∈ ctx.rolledBack ∨ name = SAGA_ROLLBACK_PREFIX ++ key := by
  unfold ReplayContext.readSagaCheckpoint
  by_cases hphase : name = SAGA_PHASE_CHECKPOINT
  · rw [if_pos hphase, hphase]
    exact ⟨Or.inl, fun h => h.elim id fun h => absurd h not_rollback_phase⟩
  rw [if_neg hphase]
  by_cases hstarted : namedUnder name SAGA_STARTED_PREFIX
  · have hno : name ≠ SAGA_ROLLBACK_PREFIX ++ key := by
      obtain ⟨key', rfl⟩ := (namedUnder_iff).mp hstarted
      exact not_started_rollback
    rw [if_pos hstarted]
    simp only [hno, or_false]
    cases decodeStartIndex stateJson <;> exact Iff.rfl
  rw [if_neg hstarted]
  by_cases hrollback : namedUnder name SAGA_ROLLBACK_PREFIX
  · obtain ⟨key', rfl⟩ := (namedUnder_iff).mp hrollback
    rw [if_pos hrollback]
    simp only [keyUnder_append SAGA_ROLLBACK_PREFIX key', List.mem_append, List.mem_singleton]
    refine or_congr_right ⟨?_, fun heq => (append_injective heq).symm⟩
    rintro rfl
    rfl
  · have hno : name ≠ SAGA_ROLLBACK_PREFIX ++ key := fun heq =>
      hrollback (heq ▸ namedUnder_append _ _)
    rw [if_neg hrollback]
    simp only [hno, or_false]
    split
    · cases decodeRollbackTry stateJson <;> exact Iff.rfl
    · exact Iff.rfl

/-- The facts about a context that hold of every one that was read. -/
structure ReplayContext.Read (ctx : ReplayContext) : Prop where
  top : ∀ key index, (key, index) ∈ ctx.startIndexes → index ≤ ctx.topStartIndex
  positive : ∀ key index, (key, index) ∈ ctx.startIndexes → 1 ≤ index
  bounded : ctx.topStartIndex ≤ 2 ^ 53
  corruption : ctx.sagaCorruption = none

/-- An index that is read is one a marker can hold. -/
theorem decodeStartIndex_bounds (h : decodeStartIndex stateJson = some index) :
    1 ≤ index ∧ index ≤ MAX_SAFE_INTEGER := by
  obtain ⟨value, _, hcount⟩ := Option.bind_eq_some_iff.mp h
  exact countOf_bounds hcount

/-- Reading a readable checkpoint leaves a context that was read. -/
theorem ReplayContext.Read.read (h : ctx.Read) (hread : cp.Readable) :
    (ctx.readSagaCheckpoint cp.checkpointName cp.stateJson).Read := by
  unfold ReplayContext.readSagaCheckpoint
  split
  · exact ⟨h.top, h.positive, h.bounded, h.corruption⟩
  split
  · rename_i hnamed
    obtain ⟨index, hindex⟩ := hread.1 hnamed
    simp only [hindex]
    obtain ⟨hpos, hmax⟩ := decodeStartIndex_bounds hindex
    refine ⟨fun key i hmem => ?_, fun key i hmem => ?_,
      max_le h.bounded (hmax.trans (by decide)), h.corruption⟩
    · obtain hmem | hmem := List.mem_append.mp hmem
      · exact (h.top key i hmem).trans (le_max_left _ _)
      · obtain ⟨_, rfl⟩ := Prod.mk.inj (List.mem_singleton.mp hmem)
        exact le_max_right _ _
    · obtain hmem | hmem := List.mem_append.mp hmem
      · exact h.positive key i hmem
      · obtain ⟨_, rfl⟩ := Prod.mk.inj (List.mem_singleton.mp hmem)
        exact hpos
  split
  · exact ⟨h.top, h.positive, h.bounded, h.corruption⟩
  split
  · rename_i hnamed
    obtain ⟨record, hrecord⟩ := hread.2 hnamed
    simp only [hrecord]
    exact ⟨h.top, h.positive, h.bounded, h.corruption⟩
  · exact ⟨h.top, h.positive, h.bounded, h.corruption⟩

/-- A saga's cause is read from the phase's checkpoint. -/
theorem sagaCauseJson_read
    (h : (ctx.readSagaCheckpoint name stateJson).sagaCauseJson ≠ none) :
    ctx.sagaCauseJson ≠ none ∨ name = SAGA_PHASE_CHECKPOINT := by
  unfold ReplayContext.readSagaCheckpoint at h
  split at h
  · exact Or.inr ‹_›
  refine Or.inl ?_
  split at h
  · cases hread : decodeStartIndex stateJson <;> simpa only [hread] using h
  split at h
  · exact h
  split at h
  · cases hread : decodeRollbackTry stateJson <;> simpa only [hread] using h
  · exact h

/-- One checkpoint, as the constructor takes it in. -/
def ReplayContext.take (ctx : ReplayContext) (cp : CommittedCheckpoint) : ReplayContext :=
  { ctx with seen := ctx.seen ++ [cp.checkpointName] }.readSagaCheckpoint cp.checkpointName
    cp.stateJson

/-- The start indexes a context read are those its checkpoints hold. -/
theorem mem_startIndexes_foldl {cps : List CommittedCheckpoint} :
    (key, index) ∈ (cps.foldl ReplayContext.take ctx).startIndexes ↔
      (key, index) ∈ ctx.startIndexes ∨ ∃ cp ∈ cps,
        cp.checkpointName = SAGA_STARTED_PREFIX ++ key ∧
          decodeStartIndex cp.stateJson = some index := by
  induction cps generalizing ctx with
  | nil => simp
  | cons cp cps ih =>
    rw [List.foldl_cons, ih, ReplayContext.take, mem_startIndexes_read]
    simp only [List.mem_cons, exists_eq_or_imp, or_assoc]

/-- The rollbacks a context read are those its checkpoints are of. -/
theorem mem_rolledBack_foldl {cps : List CommittedCheckpoint} :
    key ∈ (cps.foldl ReplayContext.take ctx).rolledBack ↔
      key ∈ ctx.rolledBack ∨ ∃ cp ∈ cps, cp.checkpointName = SAGA_ROLLBACK_PREFIX ++ key := by
  induction cps generalizing ctx with
  | nil => simp
  | cons cp cps ih =>
    rw [List.foldl_cons, ih, ReplayContext.take, mem_rolledBack_read]
    simp only [List.mem_cons, exists_eq_or_imp, or_assoc]

/-- Reading readable checkpoints leaves a context that was read. -/
theorem ReplayContext.Read.foldl {cps : List CommittedCheckpoint} (h : ctx.Read)
    (hread : ∀ cp ∈ cps, cp.Readable) : (cps.foldl ReplayContext.take ctx).Read := by
  induction cps generalizing ctx with
  | nil => exact h
  | cons cp cps ih =>
    have hseen : ({ ctx with seen := ctx.seen ++ [cp.checkpointName] } : ReplayContext).Read :=
      ⟨h.top, h.positive, h.bounded, h.corruption⟩
    exact ih (hseen.read (hread cp List.mem_cons_self))
      fun cp' hcp' => hread cp' (List.mem_cons_of_mem _ hcp')

/-- A saga's cause is read from a checkpoint of the phase. -/
theorem sagaCauseJson_foldl {cps : List CommittedCheckpoint}
    (h : (cps.foldl ReplayContext.take ctx).sagaCauseJson ≠ none) :
    ctx.sagaCauseJson ≠ none ∨ ∃ cp ∈ cps, cp.checkpointName = SAGA_PHASE_CHECKPOINT := by
  induction cps generalizing ctx with
  | nil => exact Or.inl h
  | cons cp cps ih =>
    obtain hcause | ⟨cp', hcp', hname⟩ := ih h
    · obtain hcause | hname := sagaCauseJson_read hcause
      · exact Or.inl hcause
      · exact Or.inr ⟨cp, List.mem_cons_self, hname⟩
    · exact Or.inr ⟨cp', List.mem_cons_of_mem _ hcp', hname⟩

end Read

/-- A worker is handed checkpoints of its task only. -/
theorem mem_getCheckpoints {queue : String} {visibleThrough : ℤ} {cp : CommittedCheckpoint}
    (h : cp ∈ getCheckpoints db queue taskId visibleThrough) :
    ∃ c ∈ db.checkpoints, c.taskId = taskId ∧ c.committed = cp := by
  unfold getCheckpoints at h
  obtain ⟨c, hc, rfl⟩ := List.mem_map.mp h
  rw [List.mem_insertionSort, List.mem_filter, decide_eq_true_eq] at hc
  obtain ⟨c', hc', hmem⟩ := List.mem_flatMap.mp hc.1
  obtain ⟨_, _, rfl⟩ := List.mem_map.mp hmem
  exact ⟨c', hc', hc.2.1, rfl⟩

/-- A stored checkpoint of a readable store is readable. -/
theorem Readable.committed (h : Readable db) {c : Checkpoint} (hc : c ∈ db.checkpoints) :
    c.committed.Readable := ⟨h.started c hc, h.tries c hc⟩

/-! ## What is owed next -/

/-- The step started last among those not rolled back. -/
def ReplayContext.Last (ctx : ReplayContext) (key : String) : Prop :=
  ∃ index, (key, index) ∈ ctx.startIndexes ∧ key ∉ ctx.rolledBack ∧
    ∀ key' index', (key', index') ∈ ctx.startIndexes → key' ∉ ctx.rolledBack → index' ≤ index

/-- What the pass knows when it sends a saga call. -/
def ReplayContext.Owes (ctx : ReplayContext) : SagaCall → Prop
  | .start key index => index = nextStartIndex ctx.topStartIndex ∧ ¬ ctx.Started key
  | .rollback key | .failRollback key => ctx.Last key
  | .fail => ∀ key index, (key, index) ∈ ctx.startIndexes → key ∈ ctx.rolledBack

/-- What the loop of `nextRollback` finds: no step left, or the one that started last. -/
theorem lastStarted_cases (rolledBack : List String) {startIndexes : List (String × ℕ)}
    (hpos : ∀ key index, (key, index) ∈ startIndexes → 1 ≤ index) :
    (lastStarted rolledBack startIndexes = (none, 0) ∧
        ∀ key index, (key, index) ∈ startIndexes → key ∈ rolledBack) ∨
      ∃ key index, lastStarted rolledBack startIndexes = (some key, index) ∧
        (key, index) ∈ startIndexes ∧ key ∉ rolledBack ∧
          ∀ key' index', (key', index') ∈ startIndexes → key' ∉ rolledBack → index' ≤ index := by
  -- The loop goes over the steps in the order they started, so the induction is from the end.
  induction startIndexes using List.reverseRecOn with
  | nil => exact Or.inl ⟨rfl, fun _ _ hmem => absurd hmem List.not_mem_nil⟩
  | append_singleton l a ih =>
    obtain ⟨key, index⟩ := a
    have hstep : lastStarted rolledBack (l ++ [(key, index)]) =
        if key ∈ rolledBack then lastStarted rolledBack l
        else if (lastStarted rolledBack l).2 < index then (some key, index)
        else lastStarted rolledBack l := by
      unfold lastStarted
      rw [List.foldl_append]
      rfl
    have hmem : ∀ {key' index'}, (key', index') ∈ l ++ [(key, index)] ↔
        (key', index') ∈ l ∨ (key' = key ∧ index' = index) := by
      intro key' index'
      rw [List.mem_append, List.mem_singleton, Prod.mk.injEq]
    rw [hstep]
    specialize ih fun key' index' h => hpos key' index' (hmem.mpr (Or.inl h))
    by_cases hrolled : key ∈ rolledBack
    · rw [if_pos hrolled]
      obtain ⟨heq, hall⟩ | ⟨k, i, heq, hk, hno, hmax⟩ := ih
      · refine Or.inl ⟨heq, fun key' index' h => ?_⟩
        obtain h | ⟨rfl, rfl⟩ := hmem.mp h
        · exact hall key' index' h
        · exact hrolled
      · refine Or.inr ⟨k, i, heq, hmem.mpr (Or.inl hk), hno, fun key' index' h hno' => ?_⟩
        obtain h | ⟨rfl, rfl⟩ := hmem.mp h
        · exact hmax key' index' h hno'
        · exact absurd hrolled hno'
    · rw [if_neg hrolled]
      obtain ⟨heq, hall⟩ | ⟨k, i, heq, hk, hno, hmax⟩ := ih
      -- The loop starts from 0, which every start index is past.
      · have hlt : 0 < index := hpos key index (hmem.mpr (Or.inr ⟨rfl, rfl⟩))
        rw [heq, if_pos hlt]
        refine Or.inr ⟨key, index, rfl, hmem.mpr (Or.inr ⟨rfl, rfl⟩), hrolled, ?_⟩
        intro key' index' h hno'
        obtain h | ⟨rfl, rfl⟩ := hmem.mp h
        · exact absurd (hall key' index' h) hno'
        · exact le_rfl
      · rw [heq]
        by_cases hlt : i < index
        · rw [if_pos hlt]
          refine Or.inr ⟨key, index, rfl, hmem.mpr (Or.inr ⟨rfl, rfl⟩), hrolled, ?_⟩
          intro key' index' h hno'
          obtain h | ⟨rfl, rfl⟩ := hmem.mp h
          · exact (hmax key' index' h hno').trans hlt.le
          · exact le_rfl
        · rw [if_neg hlt]
          refine Or.inr ⟨k, i, rfl, hmem.mpr (Or.inl hk), hno, fun key' index' h hno' => ?_⟩
          obtain h | ⟨rfl, rfl⟩ := hmem.mp h
          · exact hmax key' index' h hno'
          · exact not_lt.mp hlt

/-- What `nextRollback` answers is owed. -/
theorem ReplayContext.Read.next (h : ctx.Read) :
    match ctx.nextRollback with
    | .none => ctx.Owes .fail
    | .run key | .halt key => ctx.Last key := by
  unfold ReplayContext.nextRollback
  rw [h.corruption]
  obtain ⟨heq, hall⟩ | ⟨key, index, heq, hrest⟩ := lastStarted_cases ctx.rolledBack
    h.positive
  · rw [heq]
    exact hall
  · rw [heq]
    simp only
    split
    · rename_i hnext
      split at hnext <;> cases hnext
    · rename_i hnext
      split at hnext
      · obtain rfl := NextRollback.run.inj hnext
        exact ⟨index, hrest⟩
      · cases hnext
    · rename_i hnext
      split at hnext
      · cases hnext
      · obtain rfl := NextRollback.halt.inj hnext
        exact ⟨index, hrest⟩

/-! ## A pass on its own -/

/-- The pass's last saga call took effect, and it has no answer yet. -/
def Pass.Landed (p : Pass) (call : SagaCall) : Prop := ∃ b, p.sent = some ⟨call, b, some true⟩

/-- What holds of a pass whatever becomes of the store: before it reads there is nothing it sent;
what it sent is owed as far as it knows; and it sends nothing while an earlier call has no answer.
-/
structure Pass.Sound (p : Pass) : Prop extends p.ctx.Read where
  activated : p.stage = .activated → p.sent = none
  asked : ∀ call, p.stage = .answer call → ∃ x ∈ p.sent, x.call = call
  owes : ∀ x ∈ p.sent, p.ctx.Owes x.call
  handles : ∀ key, p.stage = .handler key → p.ctx.Last key ∧ p.ctx.sagaCauseJson ≠ none
  idle : p.sent ≠ none → (∃ call, p.stage = .answer call) ∨ (∃ outcome, p.stage = .over outcome) ∨
    (p.ctx.ended = true ∧ p.ctx.sagaCauseJson = none)
  carries : ∀ x ∈ p.sent, ∃ db, p.Sends db x.call x.batch.call
  forward : ∀ x ∈ p.sent, p.ctx.sagaCauseJson = none ↔ ∃ key index, x.call = .start key index

/-- A call is sent by whoever has the claim, the task and the cause. -/
theorem Pass.Sends.congr {call : SagaCall} {c : Call} (h : p.Sends db call c)
    (hclaim : p'.claim = p.claim) (htask : p'.taskId = p.taskId)
    (hcause : p'.ctx.sagaCauseJson = p.ctx.sagaCauseJson) : p'.Sends db call c := by
  cases h with
  | start key index extendMs =>
    rw [← hclaim, ← htask]
    exact .start key index extendMs
  | rollback key extendMs =>
    rw [← hclaim, ← htask]
    exact .rollback key extendMs
  | failRollback key errorJson causeJson passId delay hsome =>
    rw [← hclaim, ← htask]
    exact .failRollback key errorJson causeJson passId delay (hcause.trans hsome)
  | fail causeJson passId hsome =>
    rw [← hclaim, ← htask]
    exact .fail causeJson passId (hcause.trans hsome)

/-- In code or a handler a pass of a saga, or one that no call of its cut off, awaits nothing. -/
theorem Pass.Sound.unsent (h : p.Sound)
    (hstage : p.stage = .code ∨ ∃ key, p.stage = .handler key)
    (hgoes : p.ctx.ended = false ∨ p.ctx.sagaCauseJson ≠ none) : p.sent = none := by
  by_contra hsent
  obtain ⟨call, hs⟩ | ⟨outcome, hs⟩ | ⟨hended, hcause⟩ := h.idle hsent
  · obtain hs' | ⟨key, hs'⟩ := hstage <;> cases hs.symm.trans hs'
  · obtain hs' | ⟨key, hs'⟩ := hstage <;> cases hs.symm.trans hs'
  · obtain hgoes | hgoes := hgoes
    · cases hended.symm.trans hgoes
    · exact hgoes hcause

/-- A pass that sends a call it owes is sound. -/
theorem Pass.Sound.send (h : p.Sound) (inStep : Bool) (call : SagaCall) (howes : p.ctx.Owes call)
    (hsends : p.Sends db call b.call)
    (hforward : p.ctx.sagaCauseJson = none ↔ ∃ key index, call = .start key index) :
    ({ p with ctx := { p.ctx with inStep } }.send call b).Sound where
  top := h.top
  positive := h.positive
  bounded := h.bounded
  corruption := h.corruption
  activated := fun hstage => by cases hstage
  asked := fun call' hstage => by
    obtain rfl : call = call' := Stage.answer.inj hstage
    exact ⟨_, rfl, rfl⟩
  owes := fun x hx => by
    obtain rfl := Option.some.inj hx
    cases call <;> exact howes
  handles := fun key hstage => by cases hstage
  idle := fun _ => Or.inl ⟨call, rfl⟩
  carries := fun x hx => by
    obtain rfl := Option.some.inj hx
    exact ⟨db, hsends.congr rfl rfl rfl⟩
  forward := fun x hx => by
    obtain rfl := Option.some.inj hx
    exact hforward

/-- What is owed depends on what the pass knows of the saga. -/
theorem ReplayContext.Owes.congr {ctx' : ReplayContext} (call : SagaCall) (h : ctx.Owes call)
    (hstarted : ctx'.startIndexes = ctx.startIndexes)
    (htop : ctx'.topStartIndex = ctx.topStartIndex) (hrolled : ctx'.rolledBack = ctx.rolledBack) :
    ctx'.Owes call := by
  cases call with
  | start key index =>
    obtain ⟨hindex, hno⟩ := h
    refine ⟨htop ▸ hindex, ?_⟩
    unfold ReplayContext.Started
    rw [hstarted]
    exact hno
  | rollback key | failRollback key =>
    obtain ⟨index, hmem, hno, hmax⟩ := h
    exact ⟨index, hstarted ▸ hmem, hrolled ▸ hno, fun key' index' hmem' hno' =>
      hmax key' index' (hstarted ▸ hmem') (hrolled ▸ hno')⟩
  | fail => exact fun key index hmem => hrolled ▸ h key index (hstarted ▸ hmem)

/-- A turn of the context that leaves what it knows of the saga, and awaits no less, is sound. -/
theorem Pass.Sound.quiet (h : p.Sound) (ctx' : ReplayContext)
    (hstarted : ctx'.startIndexes = p.ctx.startIndexes)
    (htop : ctx'.topStartIndex = p.ctx.topStartIndex)
    (hrolled : ctx'.rolledBack = p.ctx.rolledBack)
    (hcause : ctx'.sagaCauseJson = p.ctx.sagaCauseJson)
    (hcorruption : ctx'.sagaCorruption = p.ctx.sagaCorruption)
    (hended : p.ctx.ended = true → ctx'.ended = true) : ({ p with ctx := ctx' } : Pass).Sound where
  top := fun key index hmem => htop ▸ h.top key index (hstarted ▸ hmem)
  positive := fun key index hmem => h.positive key index (hstarted ▸ hmem)
  bounded := htop ▸ h.bounded
  corruption := hcorruption.trans h.corruption
  activated := h.activated
  asked := h.asked
  owes := fun x hx => ReplayContext.Owes.congr x.call (h.owes x hx) hstarted htop hrolled
  handles := fun key hstage =>
    ⟨ReplayContext.Owes.congr (.rollback key) (h.handles key hstage).1 hstarted htop hrolled,
      hcause ▸ (h.handles key hstage).2⟩
  idle := fun hsent => (h.idle hsent).imp_right fun hs => hs.imp_right fun ⟨he, hc⟩ =>
    ⟨hended he, hcause.trans hc⟩
  carries := fun x hx => by
    obtain ⟨db, hsends⟩ := h.carries x hx
    exact ⟨db, hsends.congr rfl rfl hcause⟩
  forward := fun x hx => hcause ▸ h.forward x hx

/-- A pass that awaits nothing is sound wherever it goes with what it knows. -/
theorem Pass.Sound.settled (hread : p.ctx.Read) (hsent : p.sent = none)
    (hstage : p.stage = .code ∨
      ∃ key, p.stage = .handler key ∧ p.ctx.Last key ∧ p.ctx.sagaCauseJson ≠ none) : p.Sound := by
  refine ⟨hread, fun _ => hsent, fun call hs => ?_, fun x hx => ?_, fun key hs => ?_,
    fun hno => absurd hsent hno, fun x hx => ?_, fun x hx => ?_⟩
  · obtain hs' | ⟨_, hs', _⟩ := hstage <;> cases hs.symm.trans hs'
  · rw [hsent] at hx
    cases hx
  · obtain hs' | ⟨key', hs', hlast⟩ := hstage
    · cases hs.symm.trans hs'
    · obtain rfl := Stage.handler.inj (hs.symm.trans hs')
      exact hlast
  · rw [hsent] at hx
    cases hx
  · rw [hsent] at hx
    cases hx

/-- A pass that is over stays as it is. -/
theorem Pass.Sound.over (h : p.Sound) (outcome : Option WorkerOutcome) :
    ({ p with stage := .over outcome } : Pass).Sound where
  top := h.top
  positive := h.positive
  bounded := h.bounded
  corruption := h.corruption
  activated := fun hstage => by cases hstage
  asked := fun call hstage => by cases hstage
  owes := h.owes
  handles := fun key hstage => by cases hstage
  idle := fun _ => Or.inr (Or.inl ⟨outcome, rfl⟩)
  carries := fun x hx => by
    obtain ⟨db, hsends⟩ := h.carries x hx
    exact ⟨db, hsends.congr rfl rfl rfl⟩
  forward := h.forward

/-- The call a pass awaits, it owes. -/
theorem Pass.Sound.answers (h : p.Sound) {call : SagaCall} (hstage : p.stage = .answer call) :
    p.ctx.Owes call ∧ (p.ctx.sagaCauseJson = none ↔ ∃ key index, call = .start key index) := by
  obtain ⟨x, hx, rfl⟩ := h.asked call hstage
  exact ⟨h.owes x hx, h.forward x hx⟩

/-- What the pass knows to have started, and what its last call started. -/
def Pass.Knows (p : Pass) (key : String) (index : ℕ) : Prop :=
  (key, index) ∈ p.ctx.startIndexes ∨ p.Landed (.start key index)

/-- What the pass knows to be rolled back, and what its last call rolled back. -/
def Pass.Ran (p : Pass) (key : String) : Prop :=
  key ∈ p.ctx.rolledBack ∨ p.Landed (.rollback key)

/-- The context over the checkpoints of a store that can be read. -/
theorem Readable.read (h : Readable db) (queue taskId : String) (visibleThrough : ℤ) :
    (ReplayContext.new (getCheckpoints db queue taskId visibleThrough)).Read := by
  have hempty : ReplayContext.empty.Read :=
    ⟨fun _ _ hmem => absurd hmem List.not_mem_nil, fun _ _ hmem => absurd hmem List.not_mem_nil,
      Nat.zero_le _, rfl⟩
  refine hempty.foldl fun cp hcp => ?_
  obtain ⟨c, hc, _, rfl⟩ := mem_getCheckpoints hcp
  exact h.committed hc

/-- No index is past the next one. -/
theorem le_nextStartIndex {top : ℕ} (h : top ≤ 2 ^ 53) : top ≤ nextStartIndex top :=
  le_min (Nat.le_succ top) h

/-- A next index is at least one. -/
theorem nextStartIndex_pos (top : ℕ) : 1 ≤ nextStartIndex top :=
  le_min (Nat.succ_pos top) (by decide)

/-- A turn keeps a pass sound. -/
theorem Pass.Turn.sound (hturn : p.Turn db p') (h : p.Sound) (hread : Readable db) : p'.Sound := by
  cases hturn with
  | read hstage => exact .settled (hread.read _ _ _) (h.activated hstage) (Or.inl rfl)
  | start key b hstage hforward _ _ _ hunstarted hended hsends =>
    exact h.send true _ ⟨rfl, hunstarted⟩ hsends ⟨fun _ => ⟨_, _, rfl⟩, fun _ => hforward⟩
  -- The step's index is now the highest, as it was taken after the highest one known.
  | started key index b hstage hsent =>
    obtain ⟨rfl, _⟩ := (h.answers hstage).1
    refine .settled ⟨fun k i hmem => ?_, fun k i hmem => ?_, min_le_right _ _, h.corruption⟩ rfl
      (Or.inl rfl)
    · obtain hmem | hmem := List.mem_append.mp hmem
      · exact (h.top k i hmem).trans (le_nextStartIndex h.bounded)
      · obtain ⟨_, rfl⟩ := Prod.mk.inj (List.mem_singleton.mp hmem)
        exact le_rfl
    · obtain hmem | hmem := List.mem_append.mp hmem
      · exact h.positive k i hmem
      · obtain ⟨_, rfl⟩ := Prod.mk.inj (List.mem_singleton.mp hmem)
        exact nextStartIndex_pos _
  -- The marker's fate is not known: the pass goes on to no other step.
  | startCut key index hstage =>
    have hcause := (h.answers hstage).2.mpr ⟨key, index, rfl⟩
    have hquiet := h.quiet { p.ctx with inStep := false, ended := true } rfl rfl rfl rfl rfl
      fun _ => rfl
    refine ⟨hquiet.toRead, fun hs => ?_, fun _ hs => ?_, hquiet.owes, fun _ hs => ?_,
      fun _ => Or.inr (Or.inr ⟨rfl, hcause⟩), fun x hx => ?_, hquiet.forward⟩
    · cases hs
    · cases hs
    · cases hs
    · obtain ⟨db, hsends⟩ := h.carries x hx
      exact ⟨db, hsends.congr rfl rfl rfl⟩
  | startRefused => exact .settled ⟨h.top, h.positive, h.bounded, h.corruption⟩ rfl (Or.inl rfl)
  | restart | stepped | memo | register => exact h.quiet _ rfl rfl rfl rfl rfl id
  | cut => exact h.quiet _ rfl rfl rfl rfl rfl fun _ => rfl
  | run key hstage hsaga hnext =>
    have hlast := h.toRead.next
    rw [hnext] at hlast
    exact .settled ⟨h.top, h.positive, h.bounded, h.corruption⟩ (h.unsent (Or.inl hstage) (Or.inr hsaga))
      (Or.inr ⟨key, rfl, hlast, hsaga⟩)
  | ran key b hstage _ hsends =>
    obtain ⟨hlast, hsaga⟩ := h.handles key hstage
    exact h.send false (.rollback key) hlast hsends
      ⟨fun hnone => absurd hnone hsaga, fun ⟨_, _, heq⟩ => by cases heq⟩
  | rolledBack => exact .settled ⟨h.top, h.positive, h.bounded, h.corruption⟩ rfl (Or.inl rfl)
  | threw key b hstage hsends =>
    obtain ⟨hlast, hsaga⟩ := h.handles key hstage
    exact h.send false (.failRollback key) hlast hsends
      ⟨fun hnone => absurd hnone hsaga, fun ⟨_, _, heq⟩ => by cases heq⟩
  | rollbackRefused key b hstage _ hsends =>
    obtain ⟨hlast, hforward⟩ := h.answers hstage
    have hsaga : p.ctx.sagaCauseJson ≠ none := fun hnone => by
      obtain ⟨_, _, heq⟩ := hforward.mp hnone
      cases heq
    exact h.send p.ctx.inStep (.failRollback key) hlast hsends
      ⟨fun hnone => absurd hnone hsaga, fun ⟨_, _, heq⟩ => by cases heq⟩
  -- The saga stops at the step that started last, which it cannot roll back.
  | halt key b hstage hsaga hnext hsends =>
    have hlast := h.toRead.next
    rw [hnext] at hlast
    exact h.send p.ctx.inStep (.failRollback key) hlast hsends
      ⟨fun hnone => absurd hnone hsaga, fun ⟨_, _, heq⟩ => by cases heq⟩
  | finish b hstage hsaga hnext hsends =>
    have hall := h.toRead.next
    rw [hnext] at hall
    exact h.send p.ctx.inStep .fail hall hsends
      ⟨fun hnone => absurd hnone hsaga, fun ⟨_, _, heq⟩ => by cases heq⟩
  | rollbackFailed | finished | crash => exact h.over _

/-- No turn moves a pass to another claim. -/
theorem Pass.Turn.same (hturn : p.Turn db p') :
    p'.claim = p.claim ∧ p'.taskId = p.taskId ∧ p'.attempt = p.attempt := by
  cases hturn <;> exact ⟨rfl, rfl, rfl⟩

/-- A turn past the read changes nothing of what a pass knows and what its last call did, taken
together. -/
theorem Pass.Turn.knows (hturn : p.Turn db p') (h : p.Sound) (hstage : p.stage ≠ .activated) :
    (∀ key index, p'.Knows key index ↔ p.Knows key index) ∧ ∀ key, p'.Ran key ↔ p.Ran key := by
  -- A call that has not taken effect adds nothing.
  have hpending : ∀ {q : Pass}, (∀ x ∈ q.sent, x.landed ≠ some true) → ∀ call, ¬ q.Landed call :=
    fun hno call ⟨b, hsent⟩ => hno _ hsent rfl
  have hnone : ∀ {q : Pass}, q.sent = none → ∀ x ∈ q.sent, x.landed ≠ some true := by
    intro q hsent x hx
    rw [hsent] at hx
    cases hx
  have hsame : ∀ {q q' : Pass}, (∀ x ∈ q.sent, x.landed ≠ some true) →
      (∀ x ∈ q'.sent, x.landed ≠ some true) → q'.ctx.startIndexes = q.ctx.startIndexes →
      q'.ctx.rolledBack = q.ctx.rolledBack →
      (∀ key index, q'.Knows key index ↔ q.Knows key index) ∧ ∀ key, q'.Ran key ↔ q.Ran key := by
    intro q q' hq hq' hstarted hrolled
    unfold Pass.Knows Pass.Ran
    simp only [hstarted, hrolled, hpending hq, hpending hq', or_false, implies_true, and_self]
  have hfresh : ∀ {call : SagaCall} {b : Batch}, ∀ x ∈ some (Sent.mk call b none),
      x.landed ≠ some true := by
    intro call b x hx
    obtain rfl := Option.some.inj hx
    exact fun heq => by cases heq
  cases hturn with
  | read hs => exact absurd hs hstage
  | start key b hs hforward _ _ _ _ hended =>
    exact hsame (hnone (h.unsent (Or.inl hs) (Or.inl hended))) hfresh rfl rfl
  | started key index b hs hsent =>
    refine ⟨fun k i => ?_, fun k => ?_⟩
    · unfold Pass.Knows
      simp only [ReplayContext.register, ReplayContext.markStarted, List.mem_append,
        List.mem_singleton, Pass.Landed, hsent, Option.some.injEq, Sent.mk.injEq, SagaCall.start.injEq,
        Prod.mk.injEq, reduceCtorEq, exists_false, or_false]
      refine or_congr_right ⟨fun ⟨hk, hi⟩ => ⟨b, ⟨hk.symm, hi.symm⟩, rfl, trivial⟩, ?_⟩
      rintro ⟨_, ⟨rfl, rfl⟩, _⟩
      exact ⟨rfl, rfl⟩
    · unfold Pass.Ran
      simp only [ReplayContext.register, ReplayContext.markStarted, Pass.Landed, hsent,
        Option.some.injEq, Sent.mk.injEq, reduceCtorEq, false_and, exists_false]
  | startRefused key index hs hrefused => exact hsame hrefused (hnone rfl) rfl rfl
  | rolledBack key b hs hsent =>
    refine ⟨fun k i => ?_, fun k => ?_⟩
    · unfold Pass.Knows
      simp only [Pass.Landed, hsent, Option.some.injEq, Sent.mk.injEq, reduceCtorEq, false_and,
        exists_false]
    · unfold Pass.Ran
      simp only [List.mem_append, List.mem_singleton, Pass.Landed, hsent, Option.some.injEq,
        Sent.mk.injEq, SagaCall.rollback.injEq, reduceCtorEq, exists_false, or_false]
      exact or_congr_right ⟨fun hk => ⟨b, hk.symm, rfl, trivial⟩, fun ⟨_, hk, _⟩ => hk.symm⟩
  | ran key b hs hended =>
    exact hsame (hnone (h.unsent (Or.inr ⟨key, hs⟩) (Or.inl hended))) hfresh rfl rfl
  | threw key b hs =>
    exact hsame (hnone (h.unsent (Or.inr ⟨key, hs⟩) (Or.inr (h.handles key hs).2))) hfresh rfl rfl
  | rollbackRefused key b hs hrefused => exact hsame hrefused hfresh rfl rfl
  | halt key b hs hsaga | finish b hs hsaga =>
    exact hsame (hnone (h.unsent (Or.inl hs) (Or.inr hsaga))) hfresh rfl rfl
  | startCut | restart | stepped | memo | cut | register | run | rollbackFailed | finished | crash =>
    exact ⟨fun _ _ => Iff.rfl, fun _ => Iff.rfl⟩

end Durablerun
