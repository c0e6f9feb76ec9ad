import Durablerun.Store.LastRun
import Durablerun.Store.Revival

/-!
# A task that ended

Only a revival moves a task that ended, and no batch writes a checkpoint of it. So its unit stands
as it ended through every later batch, until a revival of it wins; and a task that completed, was
cancelled, or had begun its saga is never revived.

Reference: `packages/store-libsql/src/store.ts`.
-/

namespace Durablerun

open Relational

variable {again : Batch → Db → Prop} {s s' : Sys} {b : Batch} {seed : String} {now : ℤ} {db db' : Db}
  {seen : Db → Prop} {call : Call} {t t' : Task}

/-! ## One batch -/

/-- Only a revival moves a task that ended. -/
theorem Task.Moved.of_ended (hm : Task.Moved seed now db call t t') (hended : ¬ t.state.Live) :
    t' = t ∨ ∃ retry, call = .retryTask retry ∧ reviveGuard db retry t := by
  obtain rfl | ⟨_, hturn, _⟩ := hm.cases_head
  · exact Or.inl rfl
  · obtain ⟨u, _, _, hmove, _⟩ := hturn
    cases hmove with
    | booked hl | started hl | followed hl | completed hl | rollingBack hl | retrying hl | failed hl
    | infraRetried hl => exact absurd hl hended
    | cancelled hg => exact absurd hg.2.2.1 hended
    | revived hg => exact Or.inr ⟨_, rfl, hg⟩

/-- A batch that ends no task leaves an ended one as it was. -/
theorem Task.Moved.of_not_ends (hm : Task.Moved seed now db call t t') (hcall : ¬ call.Ends)
    (hended : ¬ t'.state.Live) : t' = t := by
  cases hm with
  | refl => rfl
  | tail _ hturn =>
    obtain ⟨v, _, _, hmove, rfl⟩ := hturn
    exact absurd (hmove.ends hended) hcall

/-- A task that is ended when the batch is done was live before, or is as it was. -/
theorem Task.Moved.ended (hm : Task.Moved seed now db call t t') (hended : ¬ t'.state.Live) :
    t.state.Live ∨ t' = t := by
  by_cases hl : t.state.Live
  · exact Or.inl hl
  · obtain rfl | ⟨retry, rfl, _⟩ := hm.of_ended hl
    · exact Or.inr rfl
    · exact Or.inr (hm.of_not_ends id hended)

/-- A batch writes checkpoints only of live tasks. -/
theorem Checkpoint.Write.live (h : Inv db) {f : Run} {write : CheckpointWrite}
    (hw : Checkpoint.Write seed now db db' call f write) (ht : t ∈ db.tasks)
    (hid : f.taskId = t.taskId) : t.state.Live := by
  have hrunning : ∀ r ∈ db.runs, r.taskId = f.taskId → r.state = .running → t.state.Live :=
    fun r hr hid' hst => h.toUnits.live hr ht (hid'.trans hid) (by simp [hst])
  cases hw with
  | suspended hr hg | leased hr hg | tried hr hg => exact hrunning f hr rfl hg.1.running
  | entered _ hborn hplaces =>
    cases hborn with
    | first | revived => exact hplaces.elim
    | followed hr hst => exact hrunning _ hr rfl hst

/-- Two databases have the same checkpoints of a task. -/
def SameCheckpoints (db db' : Db) (taskId : String) : Prop :=
  ∀ c : Checkpoint, c.taskId = taskId → (c ∈ db'.checkpoints ↔ c ∈ db.checkpoints)

/-- A task has the checkpoints it has. -/
theorem SameCheckpoints.refl (db : Db) (taskId : String) : SameCheckpoints db db taskId :=
  fun _ _ => Iff.rfl

/-- A task that keeps its checkpoints twice keeps them. -/
theorem SameCheckpoints.trans {db'' : Db} {taskId : String} (h : SameCheckpoints db db' taskId)
    (h' : SameCheckpoints db' db'' taskId) : SameCheckpoints db db'' taskId :=
  fun c hid => (h' c hid).trans (h c hid)

/-- With the same checkpoints, a task has the same names. -/
theorem SameCheckpoints.hasCheckpoint {taskId name : String} (h : SameCheckpoints db db' taskId) :
    HasCheckpoint db' taskId name ↔ HasCheckpoint db taskId name := by
  constructor
  · rintro ⟨c, hc, hid, hname⟩
    exact ⟨c, (h c hid).mp hc, hid, hname⟩
  · rintro ⟨c, hc, hid, hname⟩
    exact ⟨c, (h c hid).mpr hc, hid, hname⟩

/-- With the same checkpoints, a saga began or did not. -/
theorem SameCheckpoints.sagaBegan {taskId : String} (h : SameCheckpoints db db' taskId) :
    sagaBegan db' taskId ↔ sagaBegan db taskId :=
  h.hasCheckpoint

/-- No batch writes a checkpoint of a task that ended. -/
theorem Effect.sameCheckpoints (h : Effect seed now db db' call) (hinv : Inv db) (ht : t ∈ db.tasks)
    (hended : ¬ t.state.Live) : SameCheckpoints db db' t.taskId := by
  have hunwritten : ∀ f write, Checkpoint.Write seed now db db' call f write →
      f.taskId ≠ t.taskId := fun f write hw hid => hended (hw.live hinv ht hid)
  intro c hid
  constructor
  · intro hc
    obtain ⟨c₀, hc₀, rfl | ⟨f, write, hw, hwritten, _⟩⟩ | ⟨f, write, hw, hwritten, _⟩ :=
      h.checkpoints.before c hc
    · exact hc₀
    · exact absurd (hwritten.taskId.symm.trans hid) (hunwritten f write hw)
    · exact absurd (hwritten.taskId.symm.trans hid) (hunwritten f write hw)
  · intro hc
    obtain ⟨c', hc', rfl | ⟨f, write, hw, _, hid', _⟩⟩ := h.checkpoints.after c hc
    · exact hc'
    · exact absurd (hid'.symm.trans hid) (hunwritten f write hw)

/-- A run that ended is there as it ended. -/
theorem Effect.mem_ended (h : Effect seed now db db' call) {r : Run} (hr : r ∈ db.runs)
    (hended : ¬ r.state.Live) : r ∈ db'.runs := by
  obtain ⟨r', hr', rfl | hm⟩ := h.runs.after r hr
  · exact hr'
  · exact absurd (hm.live hr) hended

/-- The delivery revived the task. -/
def Delivery.Revives (e : Delivery) (taskId : String) : Prop :=
  e.Wins ∧ ∃ retry, e.batch.call = .retryTask retry ∧ retry.taskId = taskId

/-- The delivery ended the task. -/
def Delivery.Ends (e : Delivery) (taskId : String) : Prop :=
  (∃ t ∈ e.before.tasks, t.taskId = taskId ∧ t.state.Live) ∧
    ∃ t ∈ e.after.tasks, t.taskId = taskId ∧ ¬ t.state.Live

/-- The delivery a step adds to the history. -/
abbrev Sys.delivery (s : Sys) (b : Batch) (now : ℤ) : Delivery := ⟨b, now, s.db, b.after now s.db⟩

/-- A revival takes only a failed task whose saga never began. -/
theorem Delivery.Revives.admits {e : Delivery} (h : e.Revives t.taskId) (hinv : Inv e.before)
    (ht : t ∈ e.before.tasks) : t.state = .failed ∧ ¬ sagaBegan e.before t.taskId := by
  obtain ⟨⟨out, hrun, hwon⟩, retry, hcall, hid⟩ := h
  obtain ⟨⟨seed, call⟩, now, db, after⟩ := e
  obtain rfl : call = .retryTask retry := hcall
  obtain ⟨_, hlost, _⟩ | ⟨u, hu, hg, _⟩ := retryTask_cases hinv hrun
  · exact absurd hlost hwon
  · obtain rfl := Db.task_unique hu ht (hg.1.trans hid)
    exact ⟨hg.2.2.failed, hg.2.2.sagaNotBegun⟩

/-- A task that ended stands through a delivery, or the delivery revived it. -/
theorem Batch.Meets.kept_or_revives (h : b.Meets seen now db) (ht : t ∈ db.tasks)
    (hended : ¬ t.state.Live) :
    t ∈ (b.after now db).tasks ∨ (b.delivery now db).Revives t.taskId := by
  obtain ⟨t', ht', hmoved⟩ := h.effect.tasks.after t ht
  obtain rfl | ⟨retry, hcall, hg⟩ := hmoved.of_ended hended
  · exact Or.inl ht'
  · obtain ⟨seed, call⟩ := b
    obtain rfl : call = .retryTask retry := hcall
    obtain hafter | ⟨out, hrun, _⟩ := Batch.after_cases ⟨seed, .retryTask retry⟩ now db
    · rw [hafter]
      exact Or.inl ht
    · obtain ⟨_, _, hno⟩ | ⟨_, _, _, _, _, _, _, _, _, _, hwon⟩ := retryTask_cases h.sound hrun
      · exact absurd hg (hno t ht)
      · exact Or.inr ⟨⟨out, hrun, by simp [hwon]⟩, retry, rfl, hg.1.symm⟩

/-! ## Later states -/

/-- The state is one that later steps reach, by the deliveries `new`. -/
def Later (again : Batch → Db → Prop) (s s' : Sys) (new : List Delivery) : Prop :=
  Relation.ReflTransGen (Step again) s s' ∧ s'.history = new ++ s.history

/-- Every later state has its deliveries. -/
theorem Step.later (h : Relation.ReflTransGen (Step again) s s') : ∃ new, Later again s s' new := by
  induction h with
  | refl => exact ⟨[], .refl, rfl⟩
  | tail hsteps hstep ih =>
    obtain ⟨new, _, hnew⟩ := ih
    cases hstep with
    | first b now hclock hfresh hadm =>
      exact ⟨_ :: new, hsteps.tail (.first b now hclock hfresh hadm), congrArg (_ :: ·) hnew⟩
    | again b now hclock hdelivered hok =>
      exact ⟨_ :: new, hsteps.tail (.again b now hclock hdelivered hok), congrArg (_ :: ·) hnew⟩

/-- What comes later in a run of the store is reachable. -/
theorem Later.reachable {new : List Delivery} (h : Later again s s' new) (hs : Reachable again s) :
    Reachable again s' := by
  obtain ⟨hsteps, -⟩ := h
  induction hsteps with
  | refl => exact hs
  | tail _ hstep ih => exact .step ih hstep

/-- What holds at a state, and is kept by every delivery, holds at every later one. -/
theorem Later.induct {P : Sys → List Delivery → Prop} {new : List Delivery}
    (h : Later again s s' new) (hs : Reachable again s)
    (hagain : ∀ b db, again b db → b.call.Repeatable) (hstart : P s [])
    (hstep : ∀ u b now new, Delivers u b now → P u new →
      P (u.deliver b now) (u.delivery b now :: new)) : P s' new := by
  obtain ⟨hsteps, hnew⟩ := h
  suffices hall : Reachable again s' ∧ ∀ new, s'.history = new ++ s.history → P s' new from
    hall.2 new hnew
  clear hnew
  induction hsteps with
  | refl =>
    refine ⟨hs, fun new hnew => ?_⟩
    obtain rfl : new = [] := by simpa using hnew
    exact hstart
  | @tail u _ hsteps hone ih =>
    obtain ⟨hreach, ih⟩ := ih
    refine ⟨.step hreach hone, fun new hnew => ?_⟩
    obtain ⟨new₀, _, hnew₀⟩ := Step.later hsteps
    obtain ⟨b, now, rfl, hd⟩ := (hreach.course hagain).step hagain hone
    have hhistory : new = u.delivery b now :: new₀ := by
      refine List.append_cancel_right (hnew.symm.trans ?_)
      rw [List.cons_append, ← hnew₀]
      rfl
    rw [hhistory]
    exact hstep _ b now new₀ hd (ih new₀ hnew₀)

/-- The task and its checkpoints stand as they stood. -/
structure UnitKept (db db' : Db) (t : Task) : Prop where
  task : t ∈ db'.tasks
  checkpoints : SameCheckpoints db db' t.taskId

/-- An ended task's unit stands until a revival of it wins. -/
theorem Later.unitKept {new : List Delivery} (h : Later again s s' new) (hs : Reachable again s)
    (hagain : ∀ b db, again b db → b.call.Repeatable) (ht : t ∈ s.db.tasks)
    (hended : ¬ t.state.Live) (hno : ∀ e ∈ new, ¬ e.Revives t.taskId) :
    UnitKept s.db s'.db t := by
  refine h.induct (P := fun u new => (∀ e ∈ new, ¬ e.Revives t.taskId) → UnitKept s.db u.db t) hs
    hagain (fun _ => ⟨ht, .refl _ _⟩) (fun u b now new hd ih hno => ?_) hno
  have hkept := ih fun e he => hno e (List.mem_cons_of_mem _ he)
  refine ⟨?_, hkept.checkpoints.trans (hd.effect.sameCheckpoints hd.course.inv hkept.task hended)⟩
  exact (hd.meets.kept_or_revives hkept.task hended).resolve_right (hno _ List.mem_cons_self)

/-- A task that did not fail, or that ended after its saga began, is never revived. -/
theorem Later.never_revived {new : List Delivery} (h : Later again s s' new)
    (hs : Reachable again s) (hagain : ∀ b db, again b db → b.call.Repeatable)
    (ht : t ∈ s.db.tasks) (hended : ¬ t.state.Live)
    (hfinal : t.state ≠ .failed ∨ sagaBegan s.db t.taskId) : ∀ e ∈ new, ¬ e.Revives t.taskId := by
  suffices hall : UnitKept s.db s'.db t ∧ ∀ e ∈ new, ¬ e.Revives t.taskId from hall.2
  refine h.induct (P := fun u new => UnitKept s.db u.db t ∧ ∀ e ∈ new, ¬ e.Revives t.taskId) hs
    hagain ⟨⟨ht, .refl _ _⟩, fun e he => absurd he List.not_mem_nil⟩ fun u b now new hd ih => ?_
  obtain ⟨hkept, hno⟩ := ih
  have hnot : ¬ (u.delivery b now).Revives t.taskId := by
    intro hrevives
    obtain ⟨hfailed, hsaga⟩ := hrevives.admits hd.course.inv hkept.task
    rcases hfinal with hne | hbegan
    · exact hne hfailed
    · exact hsaga (hkept.checkpoints.sagaBegan.mpr hbegan)
  refine ⟨⟨(hd.meets.kept_or_revives hkept.task hended).resolve_right hnot, ?_⟩, fun e he => ?_⟩
  · exact hkept.checkpoints.trans (hd.effect.sameCheckpoints hd.course.inv hkept.task hended)
  · obtain rfl | he := List.mem_cons.mp he
    · exact hnot
    · exact hno e he

end Durablerun
