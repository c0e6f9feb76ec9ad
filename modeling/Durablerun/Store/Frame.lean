import Durablerun.Store.Failing

/-!
# What no batch undoes

A batch never loses a row of `tasks`, `runs` or `events`, nor the name of a checkpoint, never touches
a run that ended, and leaves a stamp of its own on every run it changes. This is all that a batch
delivered long ago needs to know of what came after it.

Reference: `packages/store-libsql/src/store.ts`.
-/

namespace Durablerun

open Relational

variable {db db' db'' : Db} {seed queue : String} {name fence : Statement} {now : ℤ} {out : Outcome}

/-- The same run, which stays as it is once it ended, and which keeps its stamp and its state or has
taken a stamp of this batch, of one of the statements `names`. -/
structure Run.Framed (seed : String) (names : Statement → Prop) (r r' : Run) : Prop
    extends Run.Same r r' where
  ended : ¬ r.state.Live → r' = r
  stamped : (r'.fenceStamp = r.fenceStamp ∧ r'.state = r.state) ∨
    ∃ name, names name ∧ r'.fenceStamp = some ⟨seed, name⟩

/-- The run carries a stamp of this batch. -/
def Run.StampedBy (seed : String) (names : Statement → Prop) (r : Run) : Prop :=
  ∃ name, names name ∧ r.fenceStamp = some ⟨seed, name⟩

variable {names : Statement → Prop}

/-- A run is framed by itself. -/
theorem Run.Framed.refl (r : Run) : r.Framed seed names r :=
  ⟨.refl r, fun _ => rfl, Or.inl ⟨rfl, rfl⟩⟩

/-- A run that is framed twice is framed. -/
theorem Run.Framed.trans {r s u : Run} (h : r.Framed seed names s) (h' : s.Framed seed names u) :
    r.Framed seed names u := by
  refine ⟨h.toSame.trans h'.toSame, fun hr => ?_, ?_⟩
  · have hs := h.ended hr
    rw [h'.ended (by rwa [hs]), hs]
  · obtain ⟨hf, hst⟩ | hnew := h'.stamped
    · rw [hf, hst]
      exact h.stamped
    · exact Or.inr hnew

/-- A run that bears a stamp of these names bears one after a frame of them. -/
theorem Run.StampedBy.framed {r s : Run} (h : r.StampedBy seed names)
    (h' : r.Framed seed names s) : s.StampedBy seed names := by
  obtain ⟨hf, _⟩ | hnew := h'.stamped
  · obtain ⟨name, hn, hs⟩ := h
    exact ⟨name, hn, hf.trans hs⟩
  · exact hnew

/-- What a group of statements leaves standing, and whose stamps it leaves. -/
structure Frame (seed : String) (names : Statement → Prop) (db db' : Db) : Prop where
  tasks : ∀ t ∈ db.tasks, ∃ t' ∈ db'.tasks, t.Same t'
  runs : Table.Moves (Run.Framed seed names) (Run.StampedBy seed names) db.runs db'.runs
  checkpoints : ∀ id n, HasCheckpoint db id n → HasCheckpoint db' id n
  events : ∀ q n, EventThere db q n → EventThere db' q n

namespace Frame

/-- Where nothing changes, everything else does not. -/
theorem refl (db : Db) : Frame seed names db db :=
  ⟨fun t ht => ⟨t, ht, .refl t⟩, .refl Run.Framed.refl _, fun _ _ h => h, fun _ _ h => h⟩

/-- Two frames, one after the other. -/
theorem trans (h : Frame seed names db db') (h' : Frame seed names db' db'') :
    Frame seed names db db'' := by
  refine ⟨fun t ht => ?_, h.runs.trans (fun _ _ _ => .trans) (fun _ _ => .framed) h'.runs,
    fun id n hc => h'.checkpoints id n (h.checkpoints id n hc),
    fun q n he => h'.events q n (h.events q n he)⟩
  obtain ⟨t', ht', hsame⟩ := h.tasks t ht
  obtain ⟨t'', ht'', hsame'⟩ := h'.tasks t' ht'
  exact ⟨t'', ht'', hsame.trans hsame'⟩

/-- A frame of some names is one of more. -/
theorem mono {names' : Statement → Prop} (h : Frame seed names db db')
    (hn : ∀ name, names name → names' name) : Frame seed names' db db' := by
  have hR : ∀ r s : Run, r.Framed seed names s → r.Framed seed names' s := fun r s hf =>
    ⟨hf.toSame, hf.ended, hf.stamped.imp_right fun ⟨name, hnm, hs⟩ => ⟨name, hn name hnm, hs⟩⟩
  refine ⟨h.tasks, ⟨fun r hr => ?_, fun r hr => ?_⟩, h.checkpoints, h.events⟩
  · obtain ⟨s, hs, hf⟩ | ⟨name, hnm, hs⟩ := h.runs.before r hr
    · exact Or.inl ⟨s, hs, hR _ _ hf⟩
    · exact Or.inr ⟨name, hn name hnm, hs⟩
  · obtain ⟨s, hs, hf⟩ := h.runs.after r hr
    exact ⟨s, hs, hR _ _ hf⟩

/-- An ended run is there unchanged. -/
theorem mem_ended (h : Frame seed names db db') {r : Run} (hr : r ∈ db.runs)
    (hl : ¬ r.state.Live) : r ∈ db'.runs := by
  obtain ⟨r', hr', hf⟩ := h.runs.after r hr
  rwa [hf.ended hl] at hr'

/-- A run that carries the stamp of another batch carried it before, in the state it is in. -/
theorem stamped_before (h : Frame seed names db db') {r : Run} (hr : r ∈ db'.runs) {stamp : Stamp}
    (hs : r.fenceStamp = some stamp) (hother : ∀ name, names name → stamp ≠ ⟨seed, name⟩) :
    ∃ r₀ ∈ db.runs, r₀.Same r ∧ r₀.fenceStamp = some stamp ∧ r.state = r₀.state := by
  obtain ⟨r₀, hr₀, hf⟩ | ⟨name, hn, hs'⟩ := h.runs.before r hr
  · obtain ⟨hstamp, hst⟩ | ⟨name, hn, hs'⟩ := hf.stamped
    · exact ⟨r₀, hr₀, hf.toSame, hstamp.symm.trans hs, hst⟩
    · exact absurd (Option.some.inj (hs.symm.trans hs')) (hother name hn)
  · exact absurd (Option.some.inj (hs.symm.trans hs')) (hother name hn)

end Frame

/-! ## Statements -/

/-- A statement that touches no run, task, event or checkpoint but the tasks' columns. -/
theorem Frame.of_tasks (htasks : ∀ t ∈ db.tasks, ∃ t' ∈ db'.tasks, t.Same t')
    (hruns : db'.runs = db.runs) (hchecks : db'.checkpoints = db.checkpoints)
    (hevents : db'.events = db.events) : Frame seed names db db' :=
  ⟨htasks, hruns ▸ .refl Run.Framed.refl _, fun _ _ ⟨c, hc, h⟩ => ⟨c, hchecks ▸ hc, h⟩,
    fun _ _ ⟨e, he, h⟩ => ⟨e, hevents ▸ he, h⟩⟩

/-- An update of live runs, under a stamp of the batch. -/
theorem Frame.updateRuns {p : Run → Prop} [DecidablePred p] {f : Table.Change Run.keys}
    (hp : ∀ r ∈ db.runs, p r → r.state.Live)
    (hf : ∀ r, r.Same (f r) ∧ (f r).StampedBy seed names) :
    Frame seed names db { db with runs := db.runs.update p f } := by
  refine ⟨fun t ht => ⟨t, ht, .refl t⟩, (Table.Rel.update (fun r hr hpr => ?_)
    fun r _ _ => Run.Framed.refl r).moves _, fun _ _ h => h, fun _ _ h => h⟩
  exact ⟨(hf r).1, fun hl => absurd (hp r hr hpr) hl, Or.inr (hf r).2⟩

/-- An insert of a run, under a stamp of the batch. -/
theorem Frame.insertRun {runs : Table Run Run.keys} {p : Run}
    (hruns : ∀ r, r ∈ runs ↔ r ∈ db.runs ∨ r = p) (hp : p.StampedBy seed names) :
    Frame seed names db { db with runs } :=
  ⟨fun t ht => ⟨t, ht, .refl t⟩, .push Run.Framed.refl hruns hp, fun _ _ h => h, fun _ _ h => h⟩

/-- An update that keeps what tasks are frames every run. -/
theorem Frame.updateTasks {p : Task → Prop} [DecidablePred p] {f : Table.Change Task.keys}
    (hf : ∀ t : Task, t.Same (f t)) : Frame seed names db { db with tasks := db.tasks.update p f } :=
  .of_tasks (Table.Rel.update (fun t _ _ => hf t) fun t _ _ => .refl t).after rfl rfl rfl

/-- A follow-on that carries runs to tasks frames every run. -/
theorem Frame.runsToTasks {where' : Run → Prop} [DecidablePred where'] {narrow : Task → Prop}
    [DecidablePred narrow] {set : Table.Change Task.keys} (hset : ∀ t : Task, t.Same (set t))
    {σ : String} :
    Frame seed names db (runsToTasks db σ name fence queue where' narrow set) :=
  .of_tasks (runsToTasks_rel Task.Same.refl fun t _ _ _ _ _ _ =>
    ⟨(hset t).taskId, (hset t).queue⟩).after rfl rfl rfl

/-- A deletion of waits frames every run. -/
theorem Frame.runsToWaits {where' : Run → Prop} [DecidablePred where'] {narrow : Wait → Prop}
    [DecidablePred narrow] {σ : String} :
    Frame seed names db (runsToWaits db σ fence where' narrow) :=
  .of_tasks (fun t ht => ⟨t, ht, .refl t⟩) rfl rfl rfl

/-- A checkpoint write frames every run. -/
theorem Frame.checkpointWrite {write : CheckpointWrite} {σ runId : String} :
    Frame seed names db (checkpointWrite db σ runId write fence) := by
  refine ⟨fun t ht => ⟨t, ?_, .refl t⟩, ?_, fun _ _ => .after_write, fun q n he => ?_⟩
  · rwa [checkpointWrite_tasks]
  · rw [checkpointWrite_runs]
    exact .refl Run.Framed.refl _
  · exact (EventThere.of_eq checkpointWrite_events).mpr he

/-- Placing a successor frames every run but the one it places. -/
theorem Frame.failureSuccessor {successorId runId : String} {delayMs : ℤ} {state : TaskState}
    {admission : Run → Task → Prop} [∀ f t, Decidable (admission f t)] (hname : names name)
    (h : failureSuccessor db seed name fence successorId runId delayMs state admission = some db') :
    Frame seed names db db' := by
  obtain ⟨rfl, _⟩ | ⟨f, _, _, runs, _, hruns, rfl⟩ := failureSuccessor_cases h
  · exact .refl _
  · exact .insertRun hruns ⟨name, hname, rfl⟩

/-- The wake of a batch's event. -/
theorem Frame.wakeWaiters {eventName : String} (hwake : names .wakeRuns)
    (hseal : names .wakeFinished) : Frame seed names db (wakeWaiters db seed queue eventName) := by
  have hwoken : Frame seed names db (wakeRuns db seed queue eventName) :=
    .updateRuns (fun r _ hg => by simp [hg.1])
      fun r => ⟨⟨rfl, rfl, rfl, rfl⟩, .wakeRuns, hwake, rfl⟩
  refine (hwoken.trans (.runsToTasks fun t => ⟨rfl, rfl⟩)).trans
    (.trans .runsToWaits (.updateRuns (fun r hr hs => ?_)
      fun r => ⟨⟨rfl, rfl, rfl, rfl⟩, .wakeFinished, hseal, rfl⟩))
  obtain ⟨f, hf, ⟨⟨_, _, hst⟩, _⟩, hid⟩ := hs
  rw [← (wakeRuns db seed queue eventName).run_unique hf hr hid]
  simp [hst]

/-- A completion event's insertion frames every run. -/
theorem Frame.taskDoneEvent {taskId payloadJson : String} {terminal : Statement} {σ : String} :
    Frame seed names db (taskDoneEvent db σ queue taskId terminal payloadJson) := by
  obtain ⟨events, heq⟩ := taskDoneEvent_withEvents db σ queue taskId payloadJson terminal
  have hevents : ∀ q n, EventThere db q n →
      EventThere (Durablerun.taskDoneEvent db σ queue taskId terminal payloadJson) q n :=
    fun _ _ ⟨e, he, hqn⟩ => ⟨e, mem_taskDoneEvent he, hqn⟩
  rw [heq] at hevents ⊢
  exact ⟨fun t ht => ⟨t, ht, .refl t⟩, .refl Run.Framed.refl _, fun _ _ h => h, hevents⟩

/-- A completion event frames every run but those it wakes. -/
theorem Frame.addTaskDone {taskId payloadJson : String} {terminal : Statement}
    (hwake : names .wakeRuns) (hseal : names .wakeFinished) :
    Frame seed names db (addTaskDone db seed queue taskId terminal payloadJson) :=
  Frame.taskDoneEvent.trans (.wakeWaiters hwake hseal)

/-- The statements of a wake that stamp runs. -/
def Statement.Wakes (name : Statement) : Prop := name = .wakeRuns ∨ name = .wakeFinished

/-- What every batch that ends a run ends with. -/
theorem Frame.finish {taskId payloadJson runId : String} {terminal : Statement} :
    Frame seed Statement.Wakes db
      (Durablerun.addTaskDone (waitsGone db seed runId fence) seed queue taskId terminal payloadJson) :=
  Frame.runsToWaits.trans (.addTaskDone (Or.inl rfl) (Or.inr rfl))

/-- The saga arm of a batch that fails a run. -/
theorem Frame.sagaPass {runId passId : String} {enteringWith : Option String} {delayMs : ℤ}
    {admission : Run → Task → Prop} [∀ f t, Decidable (admission f t)]
    (hpass : names .rollbackPass)
    (h : sagaPass db seed queue runId passId fence enteringWith delayMs admission = some db') :
    Frame seed names db db' := by
  obtain ⟨placed, hplaced, hdb'⟩ := Option.bind_eq_some_iff.mp h
  obtain rfl := Option.some.inj hdb'
  have hmarked : Frame seed names placed (sagaPhaseMarker placed seed passId enteringWith) := by
    unfold sagaPhaseMarker
    split
    · exact .refl _
    · exact .checkpointWrite
  exact ((Frame.failureSuccessor hpass hplaced).trans hmarked).trans
    (.runsToTasks fun t => ⟨rfl, rfl⟩)

/-! ## What a batch that failed a run knows -/

/-- A run the batch stamped still has the checkpoint the batch wrote, whatever came after. -/
theorem Rewrites.frame {runId key σ : String} (h : Rewrites db seed runId fence key)
    (hframe : Frame σ names db db') (hother : ∀ n, names n → (⟨seed, fence⟩ : Stamp) ≠ ⟨σ, n⟩) :
    Rewrites db' seed runId fence key := by
  intro r hr hid hs
  obtain ⟨r₀, hr₀, hsame, hs₀, _⟩ := hframe.stamped_before hr hs hother
  rw [hsame.taskId]
  exact hframe.checkpoints _ _ (h r₀ hr₀ (hsame.runId.symm.trans hid) hs₀)

/-- A checkpoint write leaves the stamped run its checkpoint. -/
theorem Rewrites.checkpointWrite {runId : String} {write : CheckpointWrite}
    (hbound : ∀ r ∈ db.runs, attemptBounds.Within r.attempt) :
    Rewrites (checkpointWrite db seed runId write fence) seed runId fence write.key := by
  intro r hr hid hs
  rw [checkpointWrite_runs] at hr
  exact hasCheckpoint_checkpointWrite (stampedRun_eq_some.mpr ⟨hr, hid, hs⟩) (hbound r hr)

/-- Every run's ordinal is in its bounds. -/
theorem Units.attempt_within (h : Units db) {r : Run} (hr : r ∈ db.runs) :
    attemptBounds.Within r.attempt := by
  obtain ⟨t, ht, hown⟩ := h.owner r hr
  obtain ⟨top, hord, _⟩ := (h.settled t ht).band
  exact ⟨((hord.2 r.attempt).mp ⟨r, hr, hown.1.symm, rfl⟩).1, h.ordinal r hr⟩

/-- The run a batch placed is still one past the run it failed, whatever came after. -/
theorem Placed.frame {runId passId σ : String} (h : Placed db seed runId passId fence)
    (hstamped : Stamped db) (hfence : fence.Fails) (hframe : Frame σ names db db')
    (hother : ∀ n, names n → ∀ name, name = .successor ∨ name = .rollbackPass →
      (⟨seed, name⟩ : Stamp) ≠ ⟨σ, n⟩) : Placed db' seed runId passId fence := by
  intro p hp hid name hname hs
  obtain ⟨p₀, hp₀, hsame, hs₀, _⟩ := hframe.stamped_before hp hs fun n hn => hother n hn name hname
  obtain ⟨⟨f, hf, hfid, hfs, hft, hat⟩, hsaga⟩ := h p₀ hp₀ (hsame.runId.symm.trans hid) name hname hs₀
  have hfailed : f.state = .failed := hfence _ (hstamped.runs f hf _ hfs)
  refine ⟨⟨f, hframe.mem_ended hf (by simp [hfailed]), hfid, hfs, hft.trans hsame.taskId.symm,
    hsame.attempt.trans hat⟩, fun hn => ?_⟩
  rw [hsame.taskId]
  exact hframe.checkpoints _ _ (hsaga hn)

/-- A batch that leaves nothing to turn leaves the invariant, and what it placed. -/
theorem Late.inv {taskId payloadJson runId passId : String} {terminal : Statement}
    (h : Late seed queue taskId terminal runId passId fence db) (hfence : fence.Fails) :
    Inv (addTaskDone (waitsGone db seed runId fence) seed queue taskId terminal payloadJson) ∧
      Placed (addTaskDone (waitsGone db seed runId fence) seed queue taskId terminal payloadJson)
        seed runId passId fence := by
  refine ⟨addTaskDone_inv h.toOwing.runsToWaits, ?_⟩
  refine h.placed.frame h.stamped hfence .finish ?_
  rintro n (rfl | rfl) name (rfl | rfl) <;> simp

end Durablerun
