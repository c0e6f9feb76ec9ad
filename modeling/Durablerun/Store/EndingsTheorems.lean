import Durablerun.Store.Endings
import Durablerun.Store.Turnover
import Durablerun.Store.Wake

/-!
# What completion and cancellation keep

`complete` and `cancelTransition` end a task with its current run. Delivered again, the stamps they
left are on rows that ended for good, and nothing follows them.

Reference: `packages/store-libsql/src/store.ts`.
-/

namespace Durablerun

open Relational

variable {db : Db} {seed : String} {now : ℤ}

/-- A turn owes at most the completion event of its own task. -/
theorem Turned.owing {db' : Db} {r r' : Run} {t t' : Task} {terminal : Statement}
    (h : Turned db db' r r' t t') (hinv : Inv db) (hcore : Core db')
    (hw : ∀ w ∈ db'.waits, w ∈ db.waits) (he : db'.events = db.events)
    (hend : t'.state.Live ∨ t'.fenceStamp = some ⟨seed, terminal⟩) :
    Owing seed t.queue t.taskId terminal db' := by
  refine hinv.owing hcore hw he fun s hs hl => ?_
  rcases (h.tasks s).mp hs with rfl | ⟨hs, _⟩
  · exact Or.inr ⟨h.task.taskId, h.task.queue, hend.resolve_left hl⟩
  · exact Or.inl ⟨s, hs, .refl s, hl⟩

/-! ## complete -/

/-- The run a completion may end is its task's current one, and no saga began. -/
theorem completeGuard.current {claim : WorkerClaim} {r : Run} (h : completeGuard db claim r)
    (hu : Units db) (hr : r ∈ db.runs) :
    ∃ t, Current db r t ∧ ¬ sagaBegan db t.taskId := by
  obtain ⟨hholds, t, ht, hown, hsaga, _⟩ := h
  have hl : r.state.Live := by simp [hholds.2.2.2]
  have hc : Current db r t := ⟨hr, ht, hown, hl⟩
  exact ⟨t, hc, hsaga.resolve_left fun hno => hno (hc.attempt hu).1⟩

/-- A completion that takes its run ends the task with it. -/
theorem complete_won {claim : WorkerClaim} {resultJson : String} {r : Run} (h : Inv db)
    (hr : r ∈ db.runs) (hg : completeGuard db claim r) :
    Owing seed claim.queue r.taskId .task
      (completeTaskMirror (completeCas db seed claim resultJson now) seed claim resultJson) := by
  obtain ⟨t, hcur, hsaga⟩ := hg.current h.toUnits hr
  obtain ⟨hlive, hat⟩ := hcur.attempt h.toUnits
  obtain ⟨r', hruns, hsame, hst, hs⟩ : ∃ r',
      Table.Replaced db.runs (completeCas db seed claim resultJson now).runs r r' ∧ r.Same r' ∧
        r'.state = .completed ∧ r'.fenceStamp = some ⟨seed, .complete⟩ :=
    ⟨_, Table.Replaced.update hr hg fun s hs hgs =>
      db.run_unique hs hr (hgs.1.1.trans hg.1.1.symm), ⟨rfl, rfl, rfl, rfl⟩, rfl, rfl⟩
  have hmem : r' ∈ (completeCas db seed claim resultJson now).runs := (hruns r').mpr (Or.inl rfl)
  have hq : t.queue = claim.queue := hcur.owned.2.trans hg.1.2.1
  obtain ⟨t', htasks, htsame, htst, hcount, hts⟩ : ∃ t', Table.Replaced db.tasks
      (completeTaskMirror (completeCas db seed claim resultJson now) seed claim resultJson).tasks
        t t' ∧ t.Same t' ∧ t'.state = .completed ∧ (t'.attempts = t.attempts ∧
        t'.infraRetries = t.infraRetries ∧ t'.maxAttempts = t.maxAttempts) ∧
        t'.fenceStamp = some ⟨seed, .task⟩ := by
    refine runsToTasks_replaced hcur.task hmem ⟨⟨hsame.runId.trans hg.1.1,
      hsame.queue.trans hg.1.2.1, hs⟩, hsame.taskId.trans hcur.taskId, hlive⟩ hq
      (fun g hgm hsrc => ?_) fun _ => ⟨⟨rfl, rfl⟩, rfl, ⟨rfl, rfl, rfl⟩, rfl⟩
    rw [Db.run_unique hgm hmem (hsrc.selected.trans (hsame.runId.trans hg.1.1).symm)]
    exact hsame.taskId.trans hcur.taskId
  have hturned : Turned db
      (completeTaskMirror (completeCas db seed claim resultJson now) seed claim resultJson)
      r r' t t' := by
    refine ⟨hcur, hsame, htsame, htasks, fun s hmem => ?_, fun s hmem => ?_, ?_⟩
    · obtain rfl := Option.some.inj (hs.symm.trans hmem)
      exact hst
    · obtain rfl := Option.some.inj (hts.symm.trans hmem)
      trivial
    · obtain ⟨hattempts, hmax, hinfra, _⟩ := (h.settled t hcur.task).counted
      exact ⟨hcount.1 ▸ hattempts, hcount.2.2 ▸ hmax, hcount.2.1 ▸ hinfra, by simp [htst]⟩
  have hphased : Phased
      (completeTaskMirror (completeCas db seed claim resultJson now) seed claim resultJson) :=
    h.phased.replace (hruns.rel hr hsame fun s _ _ => .refl s) htasks hcur.task htsame
      rfl ⟨fun _ => htsame.taskId ▸ hsaga, by simp [htst], by simp [htst], by simp [htst]⟩
  have hcore := h.toCore.endUnit hturned hruns
    (fun w hw => ⟨hw, (h.held.no_wait hw hr (by simp [hg.1.2.2.2])).symm⟩) (by simp [hst])
    (by simp [htst]) (fun _ => htst.trans hst.symm) (Or.inr (by rw [hcount.1, hcount.2.1, hat]))
    hphased
  rw [hcur.taskId, ← hq]
  exact hturned.owing h hcore (fun _ hw => hw) rfl (Or.inr hts)

/-- With no run to complete, the stamps of an earlier delivery are on a run whose task completed with
it, and nothing follows. -/
theorem completeTaskMirror_lost {claim : WorkerClaim} {resultJson : String} (h : Core db) :
    completeTaskMirror db seed claim resultJson = db := by
  refine runsToTasks_of_forall_not fun t ht f hf hfol => ?_
  have hst : f.state = .completed := h.stamped.runs f hf _ hfol.stamp
  have hlive := hfol.narrow
  rw [h.mirror f hf t ht hfol.taskId (by simp [hst]), hst] at hlive
  exact hlive

/-- A completion keeps the invariant. `taskId` is the answer of a read of the run's task. -/
theorem complete_inv {claim : WorkerClaim} {taskId resultJson : String} (h : Inv db)
    (hanswer : ∀ r ∈ db.runs, r.runId = claim.runId → r.queue = claim.queue → r.taskId = taskId) :
    Inv (complete seed claim taskId resultJson now db).db := by
  refine addTaskDone_inv ?_
  by_cases hg : ∃ r ∈ db.runs, completeGuard db claim r
  · obtain ⟨r, hr, hg⟩ := hg
    have howing : Owing seed claim.queue r.taskId .task
        (completeTaskMirror (completeCas db seed claim resultJson now) seed claim resultJson) :=
      complete_won h hr hg
    rw [hanswer r hr hg.1.1 hg.1.2.1] at howing
    exact ⟨howing.toCore.runsToWaits, fun w hw => howing.quiet w (mem_runsToWaits.mp hw).1,
      howing.recorded⟩
  · have hcas : completeCas db seed claim resultJson now = db :=
      updateRuns_of_forall_not fun r hr hgr => hg ⟨r, hr, hgr⟩
    rw [hcas, completeTaskMirror_lost h.toCore]
    exact h.owing h.toCore.runsToWaits (fun w hw => (mem_runsToWaits.mp hw).1) rfl
      fun t ht hl => Or.inl ⟨t, ht, .refl t, hl⟩

/-! ## cancelTask -/

/-- A cancellation that takes its task ends the task's current run with it. -/
theorem cancel_won {c : Cancellation} {t : Task} (h : Inv db) (ht : t ∈ db.tasks)
    (hg : cancelGuard db now c t) :
    Owing seed c.queue c.taskId .cancel
      (cancelWaits (cancelRuns (cancelCas db seed c now) seed c) seed c) := by
  obtain ⟨hid, hq, hlive, hrest⟩ := hg
  obtain ⟨r, hr, hrt, hrl⟩ := (h.settled t ht).hasLive hlive
  have hcur : Current db r t := ⟨hr, ht, h.toOwned.runOwnedByTask hr ht hrt, hrl⟩
  obtain ⟨_, hat⟩ := hcur.attempt h.toUnits
  obtain ⟨t', htasks, htsame, htst, hcount, hts⟩ : ∃ t',
      Table.Replaced db.tasks (cancelCas db seed c now).tasks t t' ∧ t.Same t' ∧
        t'.state = .cancelled ∧ (t'.attempts = t.attempts ∧ t'.infraRetries = t.infraRetries ∧
        t'.maxAttempts = t.maxAttempts) ∧ t'.fenceStamp = some ⟨seed, .cancel⟩ :=
    ⟨_, Table.Replaced.update ht ⟨hid, hq, hlive, hrest⟩ fun s hs hgs =>
      db.task_unique hs ht (hgs.1.trans hid.symm), ⟨rfl, rfl⟩, rfl, ⟨rfl, rfl, rfl⟩, rfl⟩
  have htmem : t' ∈ (cancelCas db seed c now).tasks := (htasks t').mpr (Or.inl rfl)
  obtain ⟨r', hruns, hsame, hst, hs⟩ : ∃ r', Table.Replaced db.runs
      (cancelRuns (cancelCas db seed c now) seed c).runs r r' ∧ r.Same r' ∧
        r'.state = .cancelled ∧ r'.fenceStamp = some ⟨seed, .runs⟩ := by
    refine tasksToRuns_replaced hr htmem (htsame.taskId.trans hid) (htsame.queue.trans hq) hts
      (htsame.taskId.trans hrt.symm) (hcur.owned.2.symm.trans hq) ⟨hrt.trans hid, hrl⟩
      (fun s hs hn => ?_) fun _ => ⟨⟨rfl, rfl, rfl, rfl⟩, rfl, rfl⟩
    exact (h.settled t ht).sole hs hr (hn.1.trans hid.symm) hrt hn.2 hrl
  have hmem : r' ∈ (cancelRuns (cancelCas db seed c now) seed c).runs := (hruns r').mpr (Or.inl rfl)
  have hturned : Turned db (cancelWaits (cancelRuns (cancelCas db seed c now) seed c) seed c)
      r r' t t' := by
    refine ⟨hcur, hsame, htsame, htasks, fun s hmem => ?_, fun s hmem => ?_, ?_⟩
    · obtain rfl := Option.some.inj (hs.symm.trans hmem)
      exact hst
    · obtain rfl := Option.some.inj (hts.symm.trans hmem)
      exact htst
    · obtain ⟨hattempts, hmax, hinfra, _⟩ := (h.settled t ht).counted
      exact ⟨hcount.1 ▸ hattempts, hcount.2.2 ▸ hmax, hcount.2.1 ▸ hinfra, by simp [htst]⟩
  have hphased : Phased (cancelWaits (cancelRuns (cancelCas db seed c now) seed c) seed c) :=
    h.phased.replace (hruns.rel hr hsame fun s _ _ => .refl s) htasks ht htsame
      rfl ⟨by simp [htst], by simp [htst], by simp [htst], by simp [htst]⟩
  have hwaits : ∀ w ∈ (cancelWaits (cancelRuns (cancelCas db seed c now) seed c) seed c).waits,
      w ∈ db.waits ∧ w.runId ≠ r.runId := by
    intro w hw
    obtain ⟨hw, hno⟩ := mem_runsToWaits.mp hw
    exact ⟨hw, fun he => hno ⟨⟨r', hmem, ⟨⟨hsame.taskId.trans (hrt.trans hid), hst⟩, hs⟩,
      hsame.runId.trans he.symm⟩, trivial⟩⟩
  have hcore := h.toCore.endUnit hturned hruns hwaits (by simp [hst]) (by simp [htst])
    (fun _ => htst.trans hst.symm) (Or.inr (by rw [hcount.1, hcount.2.1, hat])) hphased
  rw [← hid, ← hq]
  exact hturned.owing h hcore (fun w hw => (hwaits w hw).1) rfl (Or.inr hts)

/-- With no task to cancel, the stamp of an earlier delivery is on a task whose runs all ended. -/
theorem cancelRuns_lost {c : Cancellation} (h : Core db) : cancelRuns db seed c = db := by
  refine tasksToRuns_of_forall_not fun r hr f hf _ hs hid hn => ?_
  have hst : f.state = .cancelled := h.stamped.tasks f hf _ hs
  exact h.not_live hr hf hid.symm (by simp [hst]) hn.2

/-- A cancellation keeps the invariant. -/
theorem cancelTransition_inv (c : Cancellation) (h : Inv db) :
    Inv (cancelTransition seed c now db).db := by
  refine addTaskDone_inv ?_
  by_cases hg : ∃ t ∈ db.tasks, cancelGuard db now c t
  · obtain ⟨t, ht, hg⟩ := hg
    exact cancel_won h ht hg
  · have hcas : cancelCas db seed c now = db :=
      updateTasks_of_forall_not fun t ht hgt => hg ⟨t, ht, hgt⟩
    rw [hcas, cancelRuns_lost h.toCore]
    exact h.owing h.toCore.runsToWaits (fun w hw => (mem_runsToWaits.mp hw).1) rfl
      fun t ht hl => Or.inl ⟨t, ht, .refl t, hl⟩

end Durablerun
