import Durablerun.Sdk.ClaimedRun

/-!
# How a pass ends that met an infrastructure error

A store call of a durable call that is answered with an outage, a lost lease or a cancellation ends
its pass for the flows of its task: no durable call sends anything after it, whatever the task does.
The worker asks for that error only when the handler of a forward pass returns. What the handler
throws of its own, and what is left of a rollback pass, it goes on with; so the pass ends by the
error exactly when whatever the worker awaits after it is such an error too, or that return.

Reference: `packages/sdk/src/run-worker.ts` and `packages/sdk/src/context.ts`.
-/

namespace Durablerun.Sdk.ClaimedRun

variable {settings : Settings} {p p' : Pass} {action : Pass.Action} {actions : List Pass.Action}

/-! ## After the error -/

/-- The outcomes of a pass that an infrastructure error ended. -/
def Outcome.Infrastructural (outcome : Outcome) : Prop :=
  outcome = .aborted ∨ outcome = .leaseLost ∨ outcome = .cancelled
deriving Decidable

/-- What a pass may still do: be told again, and end by an infrastructure error. -/
def Event.Quiet : Event → Prop
  | .sent _ => False
  | .told _ => True
  | .ended outcome => ∃ o ∈ outcome, o.Infrastructural

/-- The log tells of an infrastructure error. -/
def Tells (log : List Event) : Prop := ∃ kind, .told kind ∈ log

/-- Once the pass is told, it sends nothing more and ends by an infrastructure error. -/
def EndsQuietly (log : List Event) : Prop :=
  ∀ before kind after, log = before ++ .told kind :: after → ∀ e ∈ after, e.Quiet

/-- A log tells of an outage where a part of it does. -/
theorem tells_append {log log' : List Event} : Tells (log ++ log') ↔ Tells log ∨ Tells log' := by
  simp only [Tells, List.mem_append, exists_or]

/-- A log ends quietly when its parts do, and nothing after the first telling is loud. -/
theorem endsQuietly_append {log log' : List Event} :
    EndsQuietly (log ++ log') ↔
      EndsQuietly log ∧ EndsQuietly log' ∧ (Tells log → ∀ e ∈ log', e.Quiet) := by
  constructor
  · intro h
    refine ⟨fun before kind after heq e he => ?_, fun before kind after heq => ?_, ?_⟩
    · refine h before kind (after ++ log') ?_ e (List.mem_append_left _ he)
      rw [heq, List.append_assoc, List.cons_append]
    · refine h (log ++ before) kind after ?_
      rw [heq, List.append_assoc]
    · rintro ⟨kind, hkind⟩ e he
      obtain ⟨before, after, rfl⟩ := List.append_of_mem hkind
      refine h before kind (after ++ log') ?_ e (List.mem_append_right _ he)
      rw [List.append_assoc, List.cons_append]
  · rintro ⟨hlog, hlog', hrest⟩ before kind after heq e he
    obtain ⟨rest, rfl, hafter⟩ | ⟨rest, rfl, hafter⟩ := List.append_eq_append_iff.mp heq
    · exact hlog' rest kind after hafter e he
    · cases rest with
      | nil =>
        exact hlog' [] kind after (by simpa using hafter.symm) e he
      | cons first rest =>
        obtain ⟨rfl, rfl⟩ : Event.told kind = first ∧ after = rest ++ log' := by
          simpa using hafter
        obtain he | he := List.mem_append.mp he
        · exact hlog before kind rest rfl e he
        · exact hrest ⟨kind, by simp⟩ e he

/-- An empty log ends quietly. -/
theorem endsQuietly_nil : EndsQuietly [] := by
  intro before kind after heq
  simp at heq

/-- A log that tells nothing ends quietly. -/
theorem EndsQuietly.of_not_tells {log : List Event} (h : ¬ Tells log) : EndsQuietly log := by
  rintro before kind after rfl
  exact absurd ⟨kind, by simp⟩ h

/-! ## Flows -/

/-- Once the pass has ended, a flow comes to await no answer of the store. -/
theorem advance_told (kind : Infrastructure) (flow : Flow Value) (ctx : Context) :
    (advance (some kind) flow ctx).2.sends = [] := by
  induction flow generalizing ctx with
  | pure value => rfl
  | throw error => rfl
  | call op next ih =>
    cases op with
    | sync change => exact ih _ _
    | storeCall write => exact ih _ _
    | turn => rfl
    | body => rfl

/-- What a call sends as it goes on tells nothing. -/
theorem Flow.sends_not_tells (flow : Flow Value) : ¬ Tells flow.sends := by
  rintro ⟨kind, hkind⟩
  unfold Flow.sends at hkind
  split at hkind <;> simp at hkind

/-- A pass whose call goes on: it logs what the call sends, which is nothing once it has ended. -/
theorem Pass.resume_events (p : Pass) (i : ℕ) (flow : Flow Value) :
    ∃ events, (p.resume i flow).log = p.log ++ events ∧ (p.resume i flow).endedBy = p.endedBy ∧
      ¬ Tells events ∧ (p.endedBy ≠ none → events = []) := by
  refine ⟨_, rfl, rfl, Flow.sends_not_tells _, fun hended => ?_⟩
  obtain ⟨kind, hkind⟩ := Option.ne_none_iff_exists'.mp hended
  rw [hkind]
  exact advance_told kind flow p.ctx

/-! ## The worker -/

/-- A thrown value carries an infrastructure control. -/
def Thrown.Infrastructural (error : Thrown) : Prop := infrastructureOutcome (snapshot error) ≠ none

/-- An outcome of an infrastructure error is an infrastructural one. -/
theorem infrastructureOutcome_infrastructural {control : Option Control} {outcome : Outcome}
    (h : infrastructureOutcome control = some outcome) : outcome.Infrastructural := by
  unfold infrastructureOutcome at h
  split at h
  · exact Or.inr (Or.inl (Option.some.inj h).symm)
  · exact Or.inr (Or.inr (Option.some.inj h).symm)
  · exact Or.inl (Option.some.inj h).symm
  · exact Or.inl (Option.some.inj h).symm
  · cases h
  · cases h
  · cases h
  · cases h

/-- Every kind of infrastructure error has its outcome. -/
theorem infrastructureOutcome_kind (kind : Infrastructure) :
    infrastructureOutcome (some (.infrastructure kind)) ≠ none := by
  cases kind <;> simp [infrastructureOutcome]

/-- The turn is one that a told pass takes. -/
def Turn.Quiet (turn : Turn) : Prop := ∀ e ∈ turn.2, e.Quiet

/-- The write that ends a pass goes on with an outcome that no infrastructure error has. -/
def Stage.Plain (stage : Stage) : Prop :=
  ∀ outcome, stage = .writing outcome → ∀ reply, ¬ (outcome reply).Infrastructural

/-- The worker itself is told nothing, and the write it may send is one that ends the pass. -/
structure Turn.Plain (turn : Turn) : Prop where
  untold : ¬ Tells turn.2
  stage : turn.1.Plain

/-- A worker that returns is quiet where its outcome is infrastructural. -/
theorem returns_quiet {outcome : Outcome} :
    Turn.Quiet (returns outcome) ↔ outcome.Infrastructural := by
  simp [Turn.Quiet, returns, Event.Quiet]

/-- A worker that returns tells of nothing. -/
theorem returns_plain (outcome : Outcome) : Turn.Plain (returns outcome) :=
  ⟨by simp [Tells, returns], fun _ h => by simp [returns] at h⟩

/-- A worker that sends a write is not quiet. -/
theorem writes_not_quiet (write : Write) (outcome : Reply → Outcome) :
    ¬ Turn.Quiet (writes write outcome) := by
  simp [Turn.Quiet, writes, Event.Quiet]

/-- A worker that sends a write tells of nothing. -/
theorem writes_plain (write : Write) {outcome : Reply → Outcome}
    (h : ∀ reply, ¬ (outcome reply).Infrastructural) : Turn.Plain (writes write outcome) := by
  refine ⟨by simp [Tells, writes], fun outcome' heq => ?_⟩
  obtain rfl := Stage.writing.inj heq
  exact h

/-- A handler's error is passed on quietly when it carries an infrastructure control. -/
theorem threw_quiet {error : Thrown} :
    Turn.Quiet (threw settings error) ↔ error.Infrastructural := by
  unfold threw Thrown.Infrastructural
  split
  · rename_i hcontrol
    rw [returns_quiet, hcontrol]
    simp [Outcome.Infrastructural, infrastructureOutcome]
  · rename_i wake checkpoint hcontrol
    rw [hcontrol]
    simp [writes_not_quiet, infrastructureOutcome]
  · split
    · rename_i outcome houtcome
      rw [returns_quiet, houtcome]
      simp [infrastructureOutcome_infrastructural houtcome]
    · rename_i hnone
      rw [hnone]
      simp [recordUserFailure, writes_not_quiet]

/-- What a thrown error leads to tells of nothing. -/
theorem threw_plain (error : Thrown) : Turn.Plain (threw settings error) := by
  unfold threw
  split
  · exact returns_plain _
  · exact writes_plain _ fun _ => by decide
  · split
    · exact returns_plain _
    · refine writes_plain _ fun reply => ?_
      split_ifs <;> decide

/-- The handler of a told forward pass ends it quietly by a return, or by an infrastructure
error. -/
theorem handled_quiet {kind : Infrastructure} {result : Except Thrown Raw} :
    Turn.Quiet (handled settings (some kind) result) ↔
      ∀ error, result = .error error → error.Infrastructural := by
  cases result with
  | error error =>
    show Turn.Quiet (threw settings error) ↔ _
    rw [threw_quiet]
    simp
  | ok value =>
    obtain ⟨outcome, houtcome⟩ :=
      Option.ne_none_iff_exists'.mp (infrastructureOutcome_kind kind)
    have hturn : handled settings (some kind) (.ok value) = returns outcome := by
      unfold handled
      simp only [Option.map_some, houtcome]
    rw [hturn, returns_quiet]
    simp [infrastructureOutcome_infrastructural houtcome]

/-- What a settled handler leads to tells of nothing. -/
theorem handled_plain (endedBy : Option Infrastructure) (result : Except Thrown Raw) :
    Turn.Plain (handled settings endedBy result) := by
  cases result with
  | error error => exact threw_plain error
  | ok value =>
    unfold handled
    simp only
    split
    · exact returns_plain _
    · split
      · exact writes_plain _ fun _ => by decide
      · exact threw_plain _

/-- A rollback pass's replay ends quietly, however it ends. -/
theorem replayed_quiet (result : Except Thrown Raw) :
    Turn.Quiet (replayed result) ∧ Turn.Plain (replayed result) := by
  have hsettling : Turn.Quiet (.settling, []) ∧ Turn.Plain (.settling, []) :=
    ⟨by simp [Turn.Quiet], by simp [Tells], fun _ h => by simp at h⟩
  cases result with
  | ok value => exact hsettling
  | error error =>
    unfold replayed
    simp only
    split
    · rename_i outcome houtcome
      exact ⟨returns_quiet.mpr (infrastructureOutcome_infrastructural houtcome), returns_plain _⟩
    · exact hsettling

/-- What a rollback's error leads to is quiet where the error is infrastructural. -/
theorem rollbackThrew_quiet {causeJson stepKey : String} {error : Thrown} :
    Turn.Quiet (rollbackThrew settings causeJson stepKey error) ↔ error.Infrastructural := by
  unfold rollbackThrew Thrown.Infrastructural
  split
  · rename_i outcome houtcome
    rw [returns_quiet, houtcome]
    simp [infrastructureOutcome_infrastructural houtcome]
  · rename_i hnone
    rw [hnone]
    simp [writes_not_quiet]

/-- What a rollback's error leads to tells of nothing. -/
theorem rollbackThrew_plain (causeJson stepKey : String) (error : Thrown) :
    Turn.Plain (rollbackThrew settings causeJson stepKey error) := by
  unfold rollbackThrew
  split
  · exact returns_plain _
  · refine writes_plain _ fun reply => ?_
    split_ifs <;> decide

/-- An enrolled infrastructure error is infrastructural. -/
theorem Thrown.infrastructural_kind (kind : Infrastructure) :
    (Thrown.control (.infrastructure kind)).Infrastructural :=
  infrastructureOutcome_kind kind

/-- There is a rollback left to run. -/
def Context.RunsNext (ctx : Context) : Prop := ∃ stepKey, ctx.nextRollback = .run stepKey

/-- A turn of the rollback loop is quiet where it runs a rollback's handler. -/
theorem rollNext_quiet {ctx : Context} {causeJson : String} :
    Turn.Quiet (rollNext settings ctx causeJson).2 ↔ ctx.RunsNext := by
  unfold rollNext Context.RunsNext
  split
  · rename_i stepKey hnext
    have hruns : ∃ stepKey, ctx.nextRollback = .run stepKey := ⟨stepKey, hnext⟩
    simp only [hnext, Context.NextRollback.run.injEq, exists_eq', iff_true]
    split
    · exact rollbackThrew_quiet.mpr (Thrown.infrastructural_kind _)
    · simp [Turn.Quiet]
  · rename_i hnext
    simp [hnext, writes_not_quiet]
  · rename_i hnext
    simp [hnext, writes_not_quiet]

/-- A turn of the rollback loop tells of nothing. -/
theorem rollNext_plain (ctx : Context) (causeJson : String) :
    Turn.Plain (rollNext settings ctx causeJson).2 := by
  unfold rollNext
  split
  · split
    · exact rollbackThrew_plain _ _ _
    · exact ⟨by simp [Tells], fun _ h => by simp at h⟩
  · exact writes_plain _ fun _ => by decide
  · exact writes_plain _ fun _ => by decide

/-- The answer to a write that ends the pass is passed on quietly when it is an infrastructure
error. -/
theorem answered_quiet {outcome : Reply → Outcome} {reply : Except StoreError Reply}
    (hplain : (Stage.writing outcome).Plain) :
    Turn.Quiet (answered outcome reply) ↔
      ∃ error, reply = .error error ∧ trustedStoreControl error ≠ none := by
  cases reply with
  | ok r =>
    show Turn.Quiet (returns (outcome r)) ↔ _
    rw [returns_quiet]
    simp [hplain outcome rfl r]
  | error error =>
    have hquiet : Turn.Quiet (answered outcome (.error error)) ↔
        ∃ o ∈ trustedStoreOutcome error, o.Infrastructural := by
      simp [Turn.Quiet, answered, Event.Quiet]
    rw [hquiet]
    cases error with
    | infrastructure kind =>
      obtain ⟨o, ho⟩ := Option.ne_none_iff_exists'.mp (infrastructureOutcome_kind kind)
      refine iff_of_true ⟨o, ho, infrastructureOutcome_infrastructural ho⟩ ⟨_, rfl, ?_⟩
      simp [trustedStoreControl]
    | refused | other => simp [trustedStoreOutcome, trustedStoreControl, infrastructureOutcome]

/-- What the answer of the last write leads to tells of nothing. -/
theorem answered_plain (outcome : Reply → Outcome) (reply : Except StoreError Reply) :
    Turn.Plain (answered outcome reply) := by
  cases reply with
  | ok r => exact returns_plain _
  | error error => exact ⟨by simp [Tells, answered], fun _ h => by simp [answered] at h⟩

/-! ## Steps -/

/-- What the step hands a pass that was told: whatever the worker awaits is an infrastructure error
too, or the return of a forward pass's handler, or leaves a rollback to run. -/
def Heeds (p : Pass) (action : Pass.Action) : Prop :=
  p.endedBy ≠ none → match action, p.stage with
  | .handled result, .handling => ∀ error, result = .error error → error.Infrastructural
  | .settled, .settling => p.ctx.RunsNext
  | .rolled (.error error), .rollback _ => error.Infrastructural
  | .committed (.ok _), .committing stepKey =>
    ({ p.ctx with rolledBack := p.ctx.rolledBack ++ [stepKey] } : Context).RunsNext
  | .committed (.error error), .committing _ => trustedStoreControl error ≠ none
  | .answered reply, .writing _ =>
    ∃ error, reply = .error error ∧ trustedStoreControl error ≠ none
  | _, _ => True

/-- Every step of the run hands the pass what it heeds. -/
def Heeded (settings : Settings) : Pass → List Pass.Action → Prop
  | _, [] => True
  | p, action :: actions =>
    Heeds p action ∧ ∀ p', p.step settings action = some p' → Heeded settings p' actions

/-- What a step adds to the log: nothing loud, once the pass was told, exactly when it heeds what it
is handed; and nothing after a telling of its own. -/
structure Logs (p : Pass) (action : Pass.Action) (p' : Pass) (events : List Event) : Prop where
  log : p'.log = p.log ++ events
  told : p.endedBy ≠ none → p'.endedBy ≠ none ∧ ((∀ e ∈ events, e.Quiet) ↔ Heeds p action)
  untold : p.endedBy = none → EndsQuietly events ∧ (p'.endedBy ≠ none ↔ Tells events)
  plain : p'.stage.Plain

/-- The worker's turn is a step that logs the turn. -/
theorem Logs.turn {ctx : Context} {next : Turn} (hplain : next.Plain)
    (hquiet : p.endedBy ≠ none → (next.Quiet ↔ Heeds p action)) :
    Logs p action (p.turn ctx next) next.2 where
  log := rfl
  told := fun hended => ⟨hended, hquiet hended⟩
  untold := fun hnone => ⟨.of_not_tells hplain.untold, by simp [Pass.turn, hnone, hplain.untold]⟩
  plain := hplain.stage

/-- A call that goes on is a step that logs what it sends. -/
theorem Logs.resume {flow : Flow Value} {i : ℕ} (hplain : p.stage.Plain)
    (hheeds : Heeds p action) : ∃ events, Logs p action (p.resume i flow) events := by
  obtain ⟨events, hlog, hended, huntold, hnone⟩ := p.resume_events i flow
  refine ⟨events, hlog, fun hne => ⟨hended ▸ hne, ?_⟩, fun he => ⟨.of_not_tells huntold, ?_⟩,
    hplain⟩
  · rw [hnone hne]
    simp [hheeds]
  · rw [hended, he]
    simp [huntold]

/-- An answer ends the pass where it is an error that a retry can fix, and ends it once. -/
theorem Pass.tell_cases (p : Pass) (reply : Except StoreError Reply) :
    p.tell reply = p ∨ ∃ kind, (∃ error, reply = .error error ∧ error.ends = some kind) ∧
      (p.tell reply).log = p.log ++ [.told kind] ∧ (p.tell reply).endedBy ≠ none ∧
        (p.tell reply).stage = p.stage := by
  cases reply with
  | ok r => exact Or.inl rfl
  | error error =>
    cases hends : error.ends with
    | none =>
      refine Or.inl ?_
      unfold Pass.tell
      simp only [hends]
    | some kind =>
      refine Or.inr ⟨kind, ⟨error, rfl, hends⟩, ?_⟩
      unfold Pass.tell
      simp only [hends, true_and, and_true]
      cases p.endedBy <;> simp

/-- After an answer that told it, a pass takes a turn that is quiet. -/
theorem Logs.tell {kind : Infrastructure} {p₁ : Pass} {events : List Event}
    (hlog : p₁.log = p.log ++ [.told kind]) (hended : p₁.endedBy ≠ none)
    (hlog' : p'.log = p₁.log ++ events) (hended' : p'.endedBy = p₁.endedBy)
    (hquiet : ∀ e ∈ events, e.Quiet) (huntold : ¬ Tells events) (hheeds : Heeds p action)
    (hplain : p'.stage.Plain) : Logs p action p' (.told kind :: events) where
  log := by rw [hlog', hlog, List.append_assoc, List.singleton_append]
  told := fun _ => by
    refine ⟨hended' ▸ hended, iff_of_true (fun e he => ?_) hheeds⟩
    obtain rfl | he := List.mem_cons.mp he
    · trivial
    · exact hquiet e he
  untold := fun _ => by
    refine ⟨?_, iff_of_true (hended' ▸ hended) ⟨kind, List.mem_cons_self⟩⟩
    have hsplit : EndsQuietly ([Event.told kind] ++ events) := by
      refine endsQuietly_append.mpr ⟨?_, .of_not_tells huntold, fun _ => hquiet⟩
      intro before kind' after heq e he
      cases before with
      | nil =>
        obtain ⟨_, rfl⟩ := List.cons.inj heq
        cases he
      | cons first before => simp at heq
    exact hsplit
  plain := hplain

/-- An error by which the pass ends carries an infrastructure control. -/
theorem StoreError.ends_infrastructural {error : StoreError} {kind : Infrastructure}
    (h : error.ends = some kind) : error.thrown.Infrastructural := by
  cases error with
  | infrastructure kind => exact Thrown.infrastructural_kind kind
  | refused | other => cases h

/-- What a store call throws is infrastructural where the store's error is. -/
theorem StoreError.thrown_infrastructural {error : StoreError} :
    error.thrown.Infrastructural ↔ trustedStoreControl error ≠ none := by
  cases error with
  | infrastructure kind =>
    exact iff_of_true (Thrown.infrastructural_kind kind) (Option.some_ne_none kind)
  | refused | other => exact iff_of_false (· rfl) (· rfl)

/-- Every step logs as it does. -/
theorem Pass.step_logs (hplain : p.stage.Plain) (hstep : p.step settings action = some p') :
    ∃ events, Logs p action p' events := by
  cases action with
  | call call =>
    obtain rfl := Option.some.inj hstep
    obtain ⟨events, hlogs⟩ : ∃ events, Logs { p with calls := p.calls ++ [call.flow] }
        (.call call) (({ p with calls := p.calls ++ [call.flow] } : Pass).resume p.calls.length
          call.flow) events :=
      Logs.resume hplain fun _ => trivial
    exact ⟨events, hlogs.log, hlogs.told, hlogs.untold, hlogs.plain⟩
  | replied i reply =>
    simp only [Pass.step] at hstep
    split at hstep
    · rename_i write next hcall
      obtain rfl := Option.some.inj hstep
      -- Either the answer tells the pass nothing, or it ends it and the calls go on with the error.
      obtain htell | ⟨kind, _, hlog, hended, hstage⟩ := p.tell_cases reply
      · rw [htell]
        exact Logs.resume hplain fun _ => trivial
      · obtain ⟨events, hlog', hended', huntold, hnone⟩ := (p.tell reply).resume_events i
          (next (.replied (reply.mapError StoreError.thrown)))
        exact ⟨_, .tell hlog hended hlog' hended' (by simp [hnone hended]) huntold
          (fun _ => trivial) (hstage ▸ hplain)⟩
    · cases hstep
  | turned i =>
    simp only [Pass.step] at hstep
    split at hstep
    · obtain rfl := Option.some.inj hstep
      exact Logs.resume hplain fun _ => trivial
    · cases hstep
  | settledBody i result =>
    simp only [Pass.step] at hstep
    split at hstep
    · obtain rfl := Option.some.inj hstep
      exact Logs.resume hplain fun _ => trivial
    · cases hstep
  | heartbeat reason =>
    obtain rfl := Option.some.inj hstep
    refine ⟨[], by simp, fun hne => ⟨hne, ?_⟩, fun hnone => ⟨endsQuietly_nil, ?_⟩, hplain⟩
    · simp [Heeds]
    · simp [hnone, Tells]
  | handled result =>
    simp only [Pass.step] at hstep
    split at hstep
    · rename_i hstage
      obtain rfl := Option.some.inj hstep
      refine ⟨_, .turn (handled_plain _ _) fun hne => ?_⟩
      obtain ⟨kind, hkind⟩ := Option.ne_none_iff_exists'.mp hne
      rw [hkind, handled_quiet]
      simp [Heeds, hstage, hkind]
    · rename_i hstage
      obtain rfl := Option.some.inj hstep
      obtain ⟨hquiet, hturn⟩ := replayed_quiet result
      exact ⟨_, .turn hturn fun _ => iff_of_true hquiet (by simp [Heeds, hstage])⟩
    · cases hstep
  | settled =>
    simp only [Pass.step] at hstep
    split at hstep
    · rename_i hstage
      obtain rfl := Option.some.inj hstep
      refine ⟨_, .turn (rollNext_plain _ _) fun hne => ?_⟩
      rw [rollNext_quiet]
      simp [Heeds, hstage, hne]
    · cases hstep
  | rolled result =>
    simp only [Pass.step] at hstep
    split at hstep
    -- A rollback's body returned, threw what ends the pass, or threw an error of its own.
    · rename_i stepKey hstage
      split at hstep
      · obtain rfl := Option.some.inj hstep
        refine ⟨_, .turn (rollbackThrew_plain _ _ _) fun hne => ?_⟩
        rw [rollbackThrew_quiet]
        simp [Heeds, hstage, hne]
      · rename_i kind hkind
        obtain rfl := Option.some.inj hstep
        refine ⟨_, .turn (rollbackThrew_plain _ _ _) fun hne => ?_⟩
        exact iff_of_true (rollbackThrew_quiet.mpr (Thrown.infrastructural_kind kind))
          (by simp [Heeds])
      · rename_i hnone
        obtain rfl := Option.some.inj hstep
        refine ⟨_, .turn ⟨by simp [Tells], fun _ h => by simp at h⟩ fun hne => ?_⟩
        exact absurd hnone hne
    · cases hstep
  | committed reply =>
    simp only [Pass.step] at hstep
    split at hstep
    · rename_i stepKey _ hstage
      obtain rfl := Option.some.inj hstep
      refine ⟨_, .turn (rollNext_plain _ _) fun hne => ?_⟩
      rw [rollNext_quiet]
      simp only [Heeds, hstage, hne, ne_eq, not_false_eq_true, forall_const]
      exact Iff.rfl
    · rename_i stepKey error hstage
      obtain rfl := Option.some.inj hstep
      -- The commit was refused: the pass may be told of it here and by the rollback's own path.
      obtain htell | ⟨kind, ⟨_, heq, hends⟩, hlog, hended, _⟩ := p.tell_cases (.error error)
      · rw [htell]
        refine ⟨_, .turn (rollbackThrew_plain _ _ _) fun hne => ?_⟩
        rw [rollbackThrew_quiet, StoreError.thrown_infrastructural]
        simp [Heeds, hstage, hne]
      · obtain rfl := Except.error.inj heq
        have hinfra := StoreError.ends_infrastructural hends
        have hplain' : Turn.Plain (rollbackThrew settings p.causeJson stepKey error.thrown) :=
          rollbackThrew_plain _ _ _
        refine ⟨_, .tell hlog hended rfl rfl (rollbackThrew_quiet.mpr hinfra) hplain'.untold
          (fun _ => ?_) hplain'.stage⟩
        simpa [hstage] using StoreError.thrown_infrastructural.mp hinfra
    · cases hstep
  | answered reply =>
    simp only [Pass.step] at hstep
    split at hstep
    · rename_i outcome hstage
      obtain rfl := Option.some.inj hstep
      refine ⟨_, .turn (answered_plain _ _) fun hne => ?_⟩
      rw [answered_quiet (hstage ▸ hplain)]
      simp [Heeds, hstage, hne]
    · cases hstep

/-! ## Runs -/

/-- What is known of a pass at any time: its log tells exactly once it has ended. -/
structure Pass.Sound (p : Pass) : Prop where
  told : p.endedBy ≠ none ↔ Tells p.log
  plain : p.stage.Plain

/-- A pass that starts has told nothing, and nothing ended it. -/
theorem Pass.Sound.start (ctx : Context) : (Pass.start ctx).Sound where
  told := by simp [Pass.start, Tells]
  plain := fun outcome h => by
    unfold Pass.start at h
    split at h <;> simp at h

/-- A step keeps what is known of a pass. -/
theorem Logs.sound {events : List Event} (h : Logs p action p' events) (hsound : p.Sound) :
    p'.Sound where
  told := by
    rw [h.log, tells_append, ← hsound.told]
    by_cases hended : p.endedBy = none
    · simp [hended, (h.untold hended).2]
    · exact iff_of_true (h.told hended).1 (Or.inl hended)
  plain := h.plain

/-- A log that ended quietly so far ends quietly after a step exactly when the step heeds it. -/
theorem Logs.endsQuietly {events : List Event} (h : Logs p action p' events) (hsound : p.Sound)
    (hquiet : EndsQuietly p.log) : EndsQuietly p'.log ↔ Heeds p action := by
  rw [h.log, endsQuietly_append]
  by_cases hended : p.endedBy = none
  · have huntold : ¬ Tells p.log := fun htells => hsound.told.mpr htells hended
    exact iff_of_true ⟨hquiet, (h.untold hended).1, fun htells => absurd htells huntold⟩
      fun hne => absurd hended hne
  · rw [← (h.told hended).2]
    refine ⟨fun hends => hends.2.2 (hsound.told.mp hended), fun hevents => ⟨hquiet, ?_, ?_⟩⟩
    · rintro before kind after rfl e he
      exact hevents e (by simp [he])
    · exact fun _ => hevents

/-- A run only adds to the log. -/
theorem Pass.run_log (hsound : p.Sound) (hrun : p.run settings actions = some p') :
    ∃ events, p'.log = p.log ++ events := by
  induction actions generalizing p with
  | nil =>
    obtain rfl := Option.some.inj hrun
    exact ⟨[], (List.append_nil _).symm⟩
  | cons action actions ih =>
    obtain ⟨p₁, hstep, hrest⟩ := Option.bind_eq_some_iff.mp hrun
    obtain ⟨events, hlogs⟩ := p.step_logs hsound.plain hstep
    obtain ⟨rest, hlog⟩ := ih (hlogs.sound hsound) hrest
    exact ⟨events ++ rest, by rw [hlog, hlogs.log, List.append_assoc]⟩

/-- A run that began quietly ends quietly exactly when each of its steps heeds the error. -/
theorem Pass.run_endsQuietly (hsound : p.Sound) (hquiet : EndsQuietly p.log)
    (hrun : p.run settings actions = some p') :
    EndsQuietly p'.log ↔ Heeded settings p actions := by
  induction actions generalizing p with
  | nil =>
    obtain rfl := Option.some.inj hrun
    exact iff_of_true hquiet trivial
  | cons action actions ih =>
    obtain ⟨p₁, hstep, hrest⟩ := Option.bind_eq_some_iff.mp hrun
    obtain ⟨events, hlogs⟩ := p.step_logs hsound.plain hstep
    have hsound₁ := hlogs.sound hsound
    have hfirst := hlogs.endsQuietly hsound hquiet
    have hnext : Heeded settings p (action :: actions) ↔
        Heeds p action ∧ Heeded settings p₁ actions := by
      refine and_congr_right fun _ => ⟨fun h => h p₁ hstep, fun h p₂ hstep₂ => ?_⟩
      rwa [← Option.some.inj (hstep.symm.trans hstep₂)]
    rw [hnext]
    by_cases hheeds : Heeds p action
    · rw [ih hsound₁ (hfirst.mpr hheeds) hrest]
      simp [hheeds]
    · refine iff_of_false (fun hends => ?_) fun h => hheeds h.1
      obtain ⟨rest, hlog⟩ := p₁.run_log hsound₁ hrest
      rw [hlog] at hends
      exact hheeds (hfirst.mp (endsQuietly_append.mp hends).1)

/-- A pass that was told by a store call of its durable calls sends nothing more, and ends by an
infrastructure error, exactly when all that its worker then awaits is such an error too, or the
return of a forward pass's handler, or leaves a rollback to run. -/
theorem pass_endsQuietly (settings : Settings) (ctx : Context) (actions : List Pass.Action)
    (p : Pass) (h : (Pass.start ctx).run settings actions = some p) :
    EndsQuietly p.log ↔ Heeded settings (Pass.start ctx) actions := by
  refine Pass.run_endsQuietly (.start ctx) ?_ h
  exact .of_not_tells (by simp [Pass.start, Tells])

/-! A first pass makes one step, whose checkpoint meets an outage. -/

def firstPass : Context where
  leaseEnd := none
  memo := fun _ => none
  orderNumbers := fun _ => none
  nextOrder := 1
  callsMade := 0
  callsPending := 0
  inStep := false
  startIndexes := []
  topStartIndex := 0
  registered := []
  rolledBack := []
  sagaCauseJson := none
  sagaCorruption := none
  replayLastCutAt := none
  pendingWake := none

/-- No retry is granted. -/
def noRetry : Settings := ⟨none, fun _ => none, fun _ => "null"⟩

/-- The step runs, the write of its result is answered with an outage, and the handler settles. -/
def outage (result : Except Thrown Raw) : List Pass.Action :=
  [.call (.step (.ok ()) (.ok ()) (.ok "a") false), .settledBody 0 (.ok (.ok (.json "1"))),
    .replied 0 (.error (.infrastructure .storeUnavailable)), .handled result]

/-- The handler lets the outage through. -/
def passedOn : List Pass.Action := outage (.error (.control (.infrastructure .storeUnavailable)))

/-- The handler catches the outage, and throws an error of its own. -/
def caught : List Pass.Action := outage (.error .other)

/-- The log of a run of the sample pass. -/
def logOf (actions : List Pass.Action) : Option (List Event) :=
  ((Pass.start firstPass).run noRetry actions).map Pass.log

/-- A handler that lets the outage through ends its pass by it. -/
theorem pass_endsQuietly_passedOn :
    ∃ p, (Pass.start firstPass).run noRetry passedOn = some p ∧
      p.log = [.sent (.setCheckpoint "a" (.json "1")), .told .storeUnavailable,
        .ended (some .aborted)] ∧ Heeded noRetry (Pass.start firstPass) passedOn := by
  obtain ⟨p, hrun, hlog⟩ := Option.map_eq_some_iff.mp (show logOf passedOn = some
    ([.sent (.setCheckpoint "a" (.json "1"))] ++ ([.told .storeUnavailable] ++
      [.ended (some .aborted)])) from rfl)
  refine ⟨p, hrun, hlog, (pass_endsQuietly _ _ _ p hrun).mp ?_⟩
  rw [hlog]
  refine endsQuietly_append.mpr ⟨.of_not_tells (by simp [Tells]), ?_, by simp [Tells]⟩
  rintro before kind after heq e he
  cases before with
  | nil =>
    obtain ⟨_, rfl⟩ := List.cons.inj heq
    obtain rfl := List.mem_singleton.mp he
    exact ⟨_, rfl, Or.inl rfl⟩
  | cons first before => simp [List.cons_eq_append_iff] at heq

/-- A handler that catches the outage and throws an error of its own fails its run after all. -/
theorem outage_caught : ¬ ∀ (settings : Settings) (ctx : Context) (actions : List Pass.Action)
    (p : Pass), (Pass.start ctx).run settings actions = some p → EndsQuietly p.log := by
  intro h
  obtain ⟨p, hrun, hlog⟩ := Option.map_eq_some_iff.mp (show logOf caught = some
    [.sent (.setCheckpoint "a" (.json "1")), .told .storeUnavailable,
      .sent (.fail "null" none)] from rfl)
  exact h noRetry firstPass _ p hrun [.sent (.setCheckpoint "a" (.json "1"))] .storeUnavailable
    [.sent (.fail "null" none)] hlog _ (List.mem_singleton_self _)

end Durablerun.Sdk.ClaimedRun
