import Durablerun.Store.FailingEffect

/-!
# The course of a run

Some batches a caller may send again whenever it likes: what their statements find tells them that
they ran. In a run where no other batch is delivered twice, every step makes of the tables what
`Effect` says (`Course.effect`), so what holds at first and is kept by every effect holds of every
state (`Reachable.induct`).

Reference: `packages/store-libsql/src/store.ts`.
-/

namespace Durablerun

open Relational

variable {again : Batch → Db → Prop} {s : Sys} {b : Batch} {seed : String} {now : ℤ} {db db' : Db}
  {call : Call}

/-- A call whose batch has its effect wherever it is delivered, the first time or again. -/
def Call.Repeatable : Call → Prop
  | .spawn _ | .claim _ | .activate _ | .heartbeat _ _ | .awaitEvent _ | .recordTaskDone _
  | .retryTask _ => True
  | _ => False

/-- Only the batches of repeatable calls are delivered again. -/
abbrev Repeats : Batch → Db → Prop := fun b _ => b.call.Repeatable

/-- A batch that does nothing. -/
theorem Effect.refl (seed : String) (now : ℤ) (db : Db) (call : Call) : Effect seed now db db call :=
  .of_early (.of_eq rfl) rfl (.of_eq rfl) (fun _ hw => Or.inl hw) (fun _ hw => Or.inl hw) rfl
    (.of_eq rfl)

/-- A repeatable batch has its effect whatever stamps it meets. -/
theorem Batch.effect_of_repeatable {out : Outcome} (h : Inv db) (hrepeats : b.call.Repeatable)
    (hsound : b.call.Sound db) (hrun : b.run now db = some out) :
    Effect b.seed now db out.db b.call := by
  obtain ⟨seed, call⟩ := b
  cases call with
  | spawn call => exact spawn_effect h hsound hrun
  | claim call => exact Option.some.inj hrun ▸ claim_effect h call
  | activate receipt => exact Option.some.inj hrun ▸ activate_effect h receipt
  | heartbeat held ms => exact Option.some.inj hrun ▸ heartbeat_effect held ms
  | awaitEvent call => exact Option.some.inj hrun ▸ awaitEvent_effect h call
  | recordTaskDone call => exact Option.some.inj hrun ▸ recordTaskDone_effect call hsound
  | retryTask call => exact retryTask_effect h hrun
  | deferLaunch | reschedule | suspendRun | emitEvent | setCheckpoint | complete | failInto
  | sweepLostLaunch | sweepClaimTimeout | cancelTransition | expireLeaseNow => exact hrepeats.elim

/-- A call that may be repeated spares what a second delivery could harm. -/
theorem Call.Repeatable.spares (h : b.call.Repeatable) : b.Spares db := by
  obtain ⟨seed, call⟩ := b
  cases call with
  | spawn | claim | activate | heartbeat | awaitEvent | recordTaskDone | retryTask => trivial
  | deferLaunch | reschedule | suspendRun | emitEvent | setCheckpoint | complete | failInto
  | sweepLostLaunch | sweepClaimTimeout | cancelTransition | expireLeaseNow => exact h.elim

/-! ## Every step has its effect -/

/-- A state of such a run: no row carries a stamp of a seed that is still to come. -/
structure Course (s : Sys) : Prop extends Trace s where
  unused : ∀ seed, s.Fresh seed → Unused s.db seed

/-- A delivery, of a batch of a seed of its own or of a repeatable one. -/
theorem Course.effect (h : Course s) (hadm : b.call.Admitted s.Seen)
    (hown : s.Fresh b.seed ∨ b.call.Repeatable) :
    Effect b.seed now s.db (b.after now s.db) b.call := by
  obtain he | ⟨out, hrun, he⟩ := b.after_cases now s.db
  · rw [he]
    exact .refl b.seed now s.db b.call
  · rw [he]
    rcases hown with hfresh | hrepeats
    · exact Batch.effect h.inv (h.unused _ hfresh) (h.sound hadm) hrun
    · exact Batch.effect_of_repeatable h.inv hrepeats (h.sound hadm) hrun

/-- A run in which no batch is delivered twice is one in which only repeatable ones are. -/
theorem Once.repeatable (b : Batch) (db : Db) (h : Once b db) : b.call.Repeatable := h.elim

/-- The step of a run from `s`: an admitted batch, at an instant not before the last, has its
effect. -/
structure Delivers (s : Sys) (b : Batch) (now : ℤ) : Prop where
  course : Course s
  clock : s.clock ≤ now
  own : s.Fresh b.seed ∨ b.call.Repeatable
  admitted : b.call.Admitted s.Seen
  effect : Effect b.seed now s.db (b.after now s.db) b.call
  next : Course (s.deliver b now)

/-- A delivery keeps the invariant. -/
theorem Delivers.inv (h : Delivers s b now) : Inv (b.after now s.db) := h.next.inv

/-- The delivery of a batch to a database. -/
abbrev Batch.delivery (b : Batch) (now : ℤ) (db : Db) : Delivery := ⟨b, now, db, b.after now db⟩

/-- What one delivery does wherever the batch comes, by what was seen until then: an admitted batch,
of a seed of its own or repeatable, has its effect on a sound database and leaves a sound one. -/
structure Batch.Meets (b : Batch) (seen : Db → Prop) (now : ℤ) (db : Db) : Prop where
  sound : Inv db
  own : Unused db b.seed ∨ b.call.Repeatable
  admitted : b.call.Admitted seen
  effect : Effect b.seed now db (b.after now db) b.call
  inv : Inv (b.after now db)

/-- A delivery meets what a batch needs of the state it finds. -/
theorem Delivers.meets (h : Delivers s b now) : b.Meets s.Seen now s.db :=
  ⟨h.course.inv, h.own.imp_left (h.course.unused b.seed), h.admitted, h.effect, h.inv⟩

/-- A step of such a run is a delivery. -/
theorem Course.step {s' : Sys} (h : Course s)
    (hagain : ∀ b db, again b db → b.call.Repeatable) (hstep : Step again s s') :
    ∃ b now, s' = s.deliver b now ∧ Delivers s b now := by
  have hnext := h.toTrace.step (fun b db hb => (hagain b db hb).spares) hstep
  cases hstep with
  | first b now hclock hfresh hadm =>
    have heffect : Effect b.seed now s.db (b.after now s.db) b.call := h.effect hadm (Or.inl hfresh)
    refine ⟨b, now, rfl, h, hclock, Or.inl hfresh, hadm, heffect, hnext, fun σ hσ => ?_⟩
    refine heffect.unused (fun hs => hσ _ List.mem_cons_self hs.symm) (h.unused σ fun e he => ?_)
    exact hσ e (List.mem_cons_of_mem _ he)
  | again b now hclock hdelivered hok =>
    obtain ⟨e, he, rfl⟩ := hdelivered
    have hrepeats := hagain _ _ hok
    have hadm := (h.delivered e he).1
    have heffect : Effect e.batch.seed now s.db (e.batch.after now s.db) e.batch.call :=
      h.effect hadm (Or.inr hrepeats)
    refine ⟨e.batch, now, rfl, h, hclock, Or.inr hrepeats, hadm, heffect, hnext, fun σ hσ => ?_⟩
    refine heffect.unused (fun hs => hσ _ List.mem_cons_self hs.symm) (h.unused σ fun e he => ?_)
    exact hσ e (List.mem_cons_of_mem _ he)

/-- On a course, every step delivers a batch that meets what it needs. -/
theorem Course.delivers_of_step (h : Course s) (hagain : ∀ b db, again b db → b.call.Repeatable)
    (hstep : Step again s (s.deliver b now)) : Delivers s b now := by
  obtain ⟨b', now', heq, hd⟩ := h.step hagain hstep
  obtain ⟨rfl, rfl⟩ : b' = b ∧ now' = now := by
    have hhistory := congrArg Sys.history heq
    simp only [Sys.deliver, List.cons.injEq, Delivery.mk.injEq, and_true] at hhistory
    exact ⟨hhistory.1.symm, hhistory.2.1.symm⟩
  exact hd

/-- A batch of a seed of its own, delivered. -/
theorem Course.delivers (h : Course s) (hfresh : s.Fresh b.seed) (hclock : s.clock ≤ now)
    (hadm : b.call.Admitted s.Seen) : Delivers s b now :=
  h.delivers_of_step Once.repeatable (.first b now hclock hfresh hadm)

/-- A run whose second deliveries are of repeatable calls is on its course. -/
theorem Reachable.course (h : Reachable again s)
    (hagain : ∀ b db, again b db → b.call.Repeatable) : Course s := by
  induction h with
  | init => exact ⟨.init, fun _ _ => ⟨fun r hr => absurd hr (Table.not_mem_empty r),
      fun t ht => absurd ht (Table.not_mem_empty t)⟩⟩
  | step _ hstep ih =>
    obtain ⟨b, now, rfl, hd⟩ := ih.step hagain hstep
    exact hd.next

/-- What holds at first and is kept by every delivery holds of every state. -/
theorem Reachable.induct {P : Sys → Prop} (h : Reachable again s)
    (hagain : ∀ b db, again b db → b.call.Repeatable) (hinit : P .init)
    (hstep : ∀ s b now, Delivers s b now → P s → P (s.deliver b now)) : P s := by
  induction h with
  | init => exact hinit
  | step hreach hstep' ih =>
    obtain ⟨b, now, rfl, hd⟩ := (hreach.course hagain).step hagain hstep'
    exact hstep _ b now hd ih

/-- A relation of databases that every delivery carries on relates each database since the first to
the last. -/
theorem Reachable.since {R : Db → Db → Prop} (h : Reachable again s)
    (hagain : ∀ b db, again b db → b.call.Repeatable) (hrefl : ∀ d, R d d)
    (hstep : ∀ s b now d, Delivers s b now → R d s.db → R d (b.after now s.db)) :
    ∀ d, s.Seen d → R d s.db := by
  refine h.induct (P := fun s => ∀ d, s.Seen d → R d s.db) hagain ?_ ?_
  · rintro d (rfl | ⟨e, he, _⟩)
    · exact hrefl _
    · cases he
  · rintro s b now hd hsince d (rfl | ⟨e, he, rfl⟩)
    · exact hrefl _
    · obtain rfl | he := List.mem_cons.mp he
      · exact hstep s b now _ hd (hrefl _)
      · exact hstep s b now _ hd (hsince _ (Or.inr ⟨e, he, rfl⟩))

/-- What holds of every task that is spawned, and is kept by every move, a batch keeps of all tasks. -/
theorem Effect.forall_tasks {P : Task → Prop} (h : Effect seed now db db' call)
    (hborn : ∀ t, Task.Born seed now db call t → P t)
    (hmove : ∀ t u, Task.Move seed now db call t u → P t → P u)
    (hstamp : ∀ (t : Task) stamp at', P t → P (t.stampedAt stamp at')) (hp : ∀ t ∈ db.tasks, P t) :
    ∀ t ∈ db'.tasks, P t := by
  intro t' ht'
  obtain ⟨t, ht, hmoved⟩ | hnew := h.tasks.before t' ht'
  · clear ht'
    induction hmoved with
    | refl => exact hp t ht
    | tail _ hturn ih =>
      obtain ⟨v, name, at', hm, rfl⟩ := hturn
      exact hstamp v ⟨seed, name⟩ at' (hmove _ v hm ih)
  · exact hborn t' hnew

end Durablerun
