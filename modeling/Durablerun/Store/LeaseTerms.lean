import Durablerun.Store.LosingBatch
import Durablerun.Store.Receipts

/-!
# The term of a lease

A claim is its holder's until the deadline it was last given. The claim's own calls give it later
deadlines, and until the last of them passes nobody takes the run: no sweep, no claim, no event and no
other task's cancellation, whatever they send and in whatever order.

Reference: `packages/store-libsql/src/store.ts` and `packages/core/src/statements/claimed-run.ts`.
-/

namespace Durablerun

open Relational

variable {s s' : Sys} {b : Batch} {r r' : Run} {e : Delivery} {older newer : List Delivery}
  {now deadline term : ℤ}

/-- The claim is the one the run is held under. -/
def WorkerClaim.Of (held : WorkerClaim) (r : Run) : Prop :=
  held.runId = r.runId ∧ some held.claimToken = r.claimedBy

/-- The receipt is of the claim the run is held under. -/
def ClaimReceipt.Of (receipt : ClaimReceipt) (r : Run) : Prop :=
  receipt.runId = r.runId ∧ some receipt.claimToken = r.claimedBy

/-- The call gives a claim a new deadline: an activation, a heartbeat or a checkpoint. -/
def Call.Renews (r : Run) (now deadline : ℤ) : Call → Prop
  | .activate receipt => receipt.Of r ∧ ∃ lease ∈ r.leaseMs, now + lease = deadline
  | .heartbeat held extensionMs => held.Of r ∧ now + extensionMs = deadline
  | .setCheckpoint held _ _ extendMs => held.Of r ∧ now + extendMs = deadline
  | _ => False

/-- The call is one that may end a claim before its deadline: the claim's own park, end or cut, or the
cancellation of its task. -/
def Call.MayEnd (r : Run) : Call → Prop
  | .deferLaunch receipt _ => receipt.Of r
  | .reschedule held _ | .suspendRun held _ _ | .complete held _ _ | .expireLeaseNow held => held.Of r
  | .awaitEvent call => WorkerClaim.Of ⟨call.queue, call.runId, call.claimToken⟩ r
  | .failInto failure => failure.claim.Of r
  | .cancelTransition c => c.taskId = r.taskId
  | _ => False

/-- The delivery gave the claim of the run a deadline. -/
def Delivery.Renews (e : Delivery) (r : Run) (deadline : ℤ) : Prop :=
  e.batch.call.Renews r e.now deadline ∧ e.batch.Wins e.now e.before

/-- Through these deliveries, the last one first, the claim of the run was never past its deadline,
and nothing that may end it came. The term is the deadline it was last given. -/
inductive InTerm (r : Run) (deadline : ℤ) : List Delivery → ℤ → Prop
  | granted : InTerm r deadline [] deadline
  | renewed {e : Delivery} {older : List Delivery} {term term' : ℤ}
    (before : InTerm r deadline older term) (ahead : e.now < term) (renews : e.Renews r term') :
    InTerm r deadline (e :: older) term'
  | passed {e : Delivery} {older : List Delivery} {term : ℤ}
    (before : InTerm r deadline older term) (ahead : e.now < term)
    (renews : ∀ term', ¬ e.Renews r term') (ends : ¬ e.batch.call.MayEnd r) :
    InTerm r deadline (e :: older) term

/-- The run runs on under its claim, to the deadline. -/
structure HeldUntil (db : Db) (r : Run) (term : ℤ) (r' : Run) : Prop extends r.Same r' where
  mem : r' ∈ db.runs
  running : r'.state = .running
  claimedBy : r'.claimedBy = r.claimedBy
  claimGen : r'.claimGen = r.claimGen
  leaseMs : r'.leaseMs = r.leaseMs
  expires : r'.claimExpiresAtMs = some term

/-! ## One delivery -/

/-- The run with another deadline. -/
theorem HeldUntil.extended {db db' : Db} {q : Run} {term' : ℤ} (h : HeldUntil db r term r')
    (hq : q ∈ db'.runs) (hsame : r'.Same q) (hstate : q.state = r'.state)
    (hclaimed : q.claimedBy = r'.claimedBy) (hgen : q.claimGen = r'.claimGen)
    (hlease : q.leaseMs = r'.leaseMs) (hexpires : q.claimExpiresAtMs = some term') :
    HeldUntil db' r term' q where
  toSame := h.toSame.trans hsame
  mem := hq
  running := hstate.trans h.running
  claimedBy := hclaimed.trans h.claimedBy
  claimGen := hgen.trans h.claimGen
  leaseMs := hlease.trans h.leaseMs
  expires := hexpires

/-- A delivery that gives the claim a deadline leaves the run held until then. -/
theorem HeldUntil.renewed {db : Db} {seed : String} {call : Call} {term' : ℤ}
    (h : HeldUntil db r term r') (hrenews : call.Renews r now term')
    (hwins : Batch.Wins ⟨seed, call⟩ now db) :
    ∃ q, HeldUntil (Batch.after ⟨seed, call⟩ now db) r term' q := by
  -- The run that won is the run of this id.
  have hwinner : ∀ {name : Statement} {p : Run → Prop} [DecidablePred p],
      wonBy name (∃ q ∈ db.runs, p q) ≠ none → (∀ q, p q → q.runId = r.runId) → p r' := by
    intro name p _ hwon hid
    obtain ⟨q, hq, hp⟩ := by_contra fun hno => hwon (wonBy_eq_none.mpr hno)
    rwa [db.run_unique hq h.mem ((hid q hp).trans h.runId.symm)] at hp
  obtain ⟨out, hrun, hwon⟩ := hwins
  cases call with
  | activate receipt =>
    obtain ⟨⟨hid, _⟩, lease, hmem, rfl⟩ := hrenews
    obtain rfl := Option.some.inj hrun
    have hg : activateGuard db now receipt r' := hwinner hwon fun q hq => hq.1.1.1.trans hid
    have hafter : activateAssignments seed receipt now r' ∈ (activateCas db seed receipt now).runs :=
      Table.mem_update_of_pos (f := ⟨activateAssignments seed receipt now, fun _ => rfl⟩) h.mem hg
    have hexpires : (activateAssignments seed receipt now r').claimExpiresAtMs = some (now + lease) := by
      show r'.leaseMs.map (now + ·) = _
      rw [h.leaseMs, hmem]
      rfl
    exact ⟨_, h.extended hafter ⟨rfl, rfl, rfl, rfl⟩ rfl rfl rfl rfl hexpires⟩
  | heartbeat held extensionMs =>
    obtain ⟨⟨hid, _⟩, rfl⟩ := hrenews
    obtain rfl := Option.some.inj hrun
    have hg : heartbeatGuard db now held extensionMs r' :=
      hwinner hwon fun q hq => hq.1.1.trans hid
    have hafter : leaseAssignments seed .extend extensionMs now r' ∈
        (heartbeatCas db seed held extensionMs now).runs :=
      Table.mem_update_of_pos (f := ⟨leaseAssignments seed .extend extensionMs now, fun _ => rfl⟩)
        h.mem hg
    exact ⟨_, h.extended hafter ⟨rfl, rfl, rfl, rfl⟩ rfl rfl rfl rfl rfl⟩
  | setCheckpoint held taskId checkpoint extendMs =>
    obtain ⟨⟨hid, _⟩, rfl⟩ := hrenews
    obtain rfl := Option.some.inj hrun
    have hg : checkpointLeaseGuard db now held taskId checkpoint.key extendMs r' :=
      hwinner hwon fun q hq => hq.1.1.trans hid
    have hafter : leaseAssignments seed .lease extendMs now r' ∈
        (setCheckpoint seed held taskId checkpoint extendMs now db).db.runs := by
      unfold setCheckpoint
      rw [checkpointWrite_runs]
      exact Table.mem_update_of_pos (f := ⟨leaseAssignments seed .lease extendMs now, fun _ => rfl⟩)
        h.mem hg
    exact ⟨_, h.extended hafter ⟨rfl, rfl, rfl, rfl⟩ rfl rfl rfl rfl rfl⟩
  | _ => exact hrenews.elim

/-- Any other delivery before the deadline leaves the run held as it was, if nothing of it may end
the claim. -/
theorem HeldUntil.passed {db : Db} (h : HeldUntil db r term r')
    (heffect : Effect b.seed now db (b.after now db) b.call) (hahead : now < term)
    (hrenews : ∀ term', ¬ (b.delivery now db).Renews r term') (hends : ¬ b.call.MayEnd r) :
    ∃ q, HeldUntil (b.after now db) r term q := by
  obtain ⟨q, hq, rfl | hm⟩ := heffect.runs.after r' h.mem
  · exact ⟨q, h.toSame, hq, h.running, h.claimedBy, h.claimGen, h.leaseMs, h.expires⟩
  exfalso
  have hexpired : ¬ runClaimExpired r' now := by
    rintro ⟨v, hv, _, hle⟩
    obtain rfl := Option.some.inj (h.expires.symm.trans hv)
    omega
  have hof : ∀ held : WorkerClaim, held.Holds r' → held.Of r := fun held hholds =>
    ⟨hholds.1.symm.trans h.runId, hholds.2.2.1.symm.trans h.claimedBy⟩
  have hwon : ∀ {name : Statement} {p : Run → Prop} [DecidablePred p], p r' →
      wonBy name (∃ q ∈ db.runs, p q) ≠ none := fun hp hnone =>
    wonBy_eq_none.mp hnone ⟨r', h.mem, hp⟩
  -- What moves a running run: it renews the claim, it may end it, or it finds the deadline past.
  obtain ⟨seed, call⟩ := b
  cases hm with
  | claimed hg => exact (hg.candidate h.mem).2.ne_running h.running
  | @activated receipt _ hg =>
    obtain ⟨lease, hlease, _⟩ := hg.2
    refine hrenews (now + lease) ⟨⟨⟨?_, ?_⟩, lease, h.leaseMs ▸ hlease, rfl⟩, _, rfl, hwon hg⟩
    · exact hg.1.1.1.symm.trans h.runId
    · exact hg.1.1.2.2.1.symm.trans h.claimedBy
  | @extended held extensionMs _ hg =>
    exact hrenews (now + extensionMs) ⟨⟨hof held hg.1, rfl⟩, _, rfl, hwon hg⟩
  | @leased held taskId checkpoint extendMs _ hg =>
    exact hrenews (now + extendMs) ⟨⟨hof held hg.1, rfl⟩, _, rfl, hwon hg⟩
  | deferred hg =>
    exact hends ⟨hg.1.1.1.symm.trans h.runId, hg.1.1.2.2.1.symm.trans h.claimedBy⟩
  | rescheduled hg | suspended hg | completed hg | failed hg | expired hg =>
    exact hends (hof _ hg.1)
  | awaited _ hnarrow =>
    exact hends ⟨hnarrow.1.1.symm.trans h.runId, hnarrow.1.2.2.1.symm.trans h.claimedBy⟩
  | reopened hg | capped hg | timedOut hg => exact hexpired hg.2.1.2
  | cancelled _ hg hown _ => exact hends (hg.1.symm.trans (hown.1.trans h.taskId))
  | woken _ hparked =>
    have hsleeping := hparked.state
    simp [h.running] at hsleeping

/-! ## Runs of the store -/

/-- What a run of the store keeps of a claim through its term. -/
theorem Reachable.heldUntil (h : Reachable Repeats s) (hheld : HeldUntil s.db r deadline r)
    (hrun : Relation.ReflTransGen (Step Repeats) s s') : Reachable Repeats s' ∧
      ∃ newer, s'.history = newer ++ s.history ∧
        ∀ term, InTerm r deadline newer term → ∃ q, HeldUntil s'.db r term q := by
  have hagain : ∀ b db, Repeats b db → b.call.Repeatable := fun _ _ hrepeats => hrepeats
  -- The induction is on the deliveries since, and on what is known of each in the term.
  induction hrun with
  | refl => exact ⟨h, [], rfl, fun _ hterm => by cases hterm; exact ⟨r, hheld⟩⟩
  | tail _ hstep ih =>
    obtain ⟨hreach, newer, hhistory, hkept⟩ := ih
    refine ⟨.step hreach hstep, ?_⟩
    obtain ⟨b, now, rfl, hd⟩ := (hreach.course hagain).step hagain hstep
    refine ⟨⟨b, now, _, _⟩ :: newer, congrArg (List.cons _) hhistory, fun term hterm => ?_⟩
    cases hterm with
    | renewed hbefore _ hrenews =>
      obtain ⟨q, hq⟩ := hkept _ hbefore
      exact hq.renewed hrenews.1 hrenews.2
    | passed hbefore hahead hrenews hends =>
      obtain ⟨q, hq⟩ := hkept _ hbefore
      exact hq.passed hd.effect hahead hrenews hends

/-- In every run of the store: a claim is its holder's until the deadline it was last given. Whatever
is delivered meanwhile, in whatever order, the run runs on under the same token and generation, to
that deadline, unless the claim itself parked, ended or cut it or its task was cancelled. -/
theorem reachable_lease_term (h : Reachable Repeats s)
    (hrun : Relation.ReflTransGen (Step Repeats) s s') (hr : r ∈ s.db.runs)
    (hrunning : r.state = .running) (hexpires : r.claimExpiresAtMs = some deadline)
    (hnewer : s'.history = newer ++ s.history) (hterm : InTerm r deadline newer term) :
    ∃ r', HeldUntil s'.db r term r' := by
  have hheld : HeldUntil s.db r deadline r := ⟨.refl r, hr, hrunning, rfl, rfl, rfl, hexpires⟩
  obtain ⟨_, newer', hnewer', hkept⟩ := h.heldUntil hheld hrun
  obtain rfl := List.append_cancel_right (hnewer'.symm.trans hnewer)
  exact hkept term hterm

/-! The worker of the sample task beats, and a sweep comes after its first deadline. -/

def sweepOne : Batch := ⟨"b6", .sweepClaimTimeout ⟨"q", "r1", "t", 1, "p1"⟩⟩

def beatingOne : Sys := (runningOne.deliver beatOne 500).deliver sweepOne 1200

/-- A heartbeat leads from the running store to one whose lease it renewed. -/
theorem beatingOne_steps : Relation.ReflTransGen (Step Repeats) runningOne beatingOne := by
  have hread : RunRead (runningOne.deliver beatOne 500).Seen "r1" "t" :=
    ⟨_, Or.inl rfl, by decide +kernel⟩
  have hbeat : Step Repeats runningOne (runningOne.deliver beatOne 500) :=
    .first _ _ (by decide) (by decide) trivial
  exact .tail (.tail .refl hbeat) (.first _ _ (by decide) (by decide) hread)

/-- The sweep comes before the deadline of the beat, and the worker holds its run. -/
theorem reachable_lease_term_beatingOne :
    ∃ r ∈ runningOne.db.runs, ∃ r', HeldUntil beatingOne.db r 1500 r' := by
  have hclaim : ∃ r ∈ runningOne.db.runs, r.state = .running ∧ r.claimExpiresAtMs = some 1002 ∧
      "r1" = r.runId ∧ some "w1" = r.claimedBy := by decide +kernel
  obtain ⟨r, hr, hrunning, hexpires, hid, htoken⟩ := hclaim
  have hwins : beatOne.Wins 500 runningOne.db := ⟨_, rfl, by decide +kernel⟩
  have hnewer : beatingOne.history = [⟨sweepOne, 1200, _, _⟩, ⟨beatOne, 500, _, _⟩] ++
    runningOne.history := rfl
  refine ⟨r, hr, reachable_lease_term (runningOne_reachable _) beatingOne_steps hr hrunning hexpires
    hnewer ?_⟩
  exact .passed (.renewed .granted (by decide) ⟨⟨⟨hid, htoken⟩, by decide⟩, hwins⟩) (by decide)
    (fun _ hrenews => hrenews.1) id

end Durablerun
