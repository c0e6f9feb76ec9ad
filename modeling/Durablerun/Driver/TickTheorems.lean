import Durablerun.Driver.Tick
import Durablerun.Store.Draining

/-!
# Ticks drain the queue

A tick takes what is due: it sweeps it or claims it, and spends some of what is left of the tasks'
lives. What it passes over came due while it ran, and the next tick finds it. So a driver that looks
again at once, as long as a tick says so, comes to a tick that left nothing due.

Reference: `packages/driver/src/tick.ts`.
-/

namespace Durablerun.Driver

open Relational

variable {host : Host} {opts : TickOptions} {queue : String} {k : ℕ} {s : Sys} {call : Call}

/-! ## A store a driver works on -/

/-- What the host has yet to mint names nothing of the store, and its clock is not behind. -/
structure Host.Ready (host : Host) (k : ℕ) (s : Sys) : Prop where
  seeds : ∀ i, k ≤ i → s.Fresh (host.seed i)
  runs : ∀ i, k ≤ i → ∀ r ∈ s.db.runs, r.runId ≠ host.passId i
  tokens : ∀ i, k ≤ i → ∀ r ∈ s.db.runs, r.state = .running → r.claimedBy ≠ some (host.token i)
  clock : s.clock ≤ host.clock k

/-- A reachable store, of calls the port let through, before a trip of the host. -/
structure Underway (host : Host) (queue : String) (k : ℕ) (s : Sys) : Prop where
  reachable : Durablerun.Reachable Repeats s
  valid : ∀ e ∈ s.history, e.batch.call.Valid
  ready : host.Ready k s
  room : HasRoom queue s.db

/-- The calls of a driver's trip: what they mint is the trip's. -/
def Host.Sends (host : Host) (k : ℕ) : Call → Prop
  | .claim call => call.claimToken = host.token k
  | .sweepLostLaunch swept | .sweepClaimTimeout swept => swept.passId = host.passId k
  | .cancelTransition _ | .expireLeaseNow _ => True
  | _ => False

/-- Every call a tick sends is a driver's. -/
theorem Host.Sends.drives (h : host.Sends k call) : call.Drives := by
  cases call with
  | claim | sweepLostLaunch | sweepClaimTimeout | cancelTransition | expireLeaseNow => trivial
  | spawn | activate | heartbeat | deferLaunch | reschedule | suspendRun | awaitEvent
  | recordTaskDone | emitEvent | setCheckpoint | complete | failInto | retryTask => exact h.elim

/-- A run the trip places has the id the trip minted. -/
theorem Host.Sends.nextRunId (h : host.Sends k call) {id : String} (hid : call.nextRunId = some id) :
    id = host.passId k := by
  cases call with
  | sweepLostLaunch | sweepClaimTimeout => exact (Option.some.inj hid).symm.trans h
  | claim | cancelTransition | expireLeaseNow => cases hid
  | spawn | activate | heartbeat | deferLaunch | reschedule | suspendRun | awaitEvent
  | recordTaskDone | emitEvent | setCheckpoint | complete | failInto | retryTask => exact h.elim

/-- While a tick is under way, the store's invariant holds. -/
theorem Underway.inv (h : Underway host queue k s) : Durablerun.Inv s.db :=
  (h.reachable.course fun _ _ hrepeats => hrepeats).inv

/-- While a tick is under way, the stored rows are within their bounds. -/
theorem Underway.wellformed (h : Underway host queue k s) : Wellformed s.db :=
  (h.reachable.wellformed h.valid).2

/-- A batch of the tick is delivered as the next of its run. -/
theorem Underway.delivers (h : Underway host queue k s) (hadm : call.Admitted s.Seen) :
    Delivers s ⟨host.seed k, call⟩ (host.clock k) :=
  (h.reachable.course fun _ _ hrepeats => hrepeats).delivers (h.ready.seeds k le_rfl)
    h.ready.clock hadm

/-- The trip that only reads. -/
theorem Underway.next (h : Underway host queue k s) : Underway host queue (k + 1) s where
  reachable := h.reachable
  valid := h.valid
  ready :=
    { seeds := fun i hi => h.ready.seeds i (Nat.le_of_succ_le hi)
      runs := fun i hi => h.ready.runs i (Nat.le_of_succ_le hi)
      tokens := fun i hi => h.ready.tokens i (Nat.le_of_succ_le hi)
      clock := h.ready.clock.trans (host.never_back (Nat.le_succ k)) }
  room := h.room

/-- The trip that delivers a batch. -/
theorem Underway.deliver (h : Underway host queue k s) (hsends : host.Sends k call)
    (hadm : call.Admitted s.Seen) (hvalid : call.Valid) :
    Underway host queue (k + 1) (s.deliver ⟨host.seed k, call⟩ (host.clock k)) := by
  have hd := h.delivers hadm
  refine ⟨.step h.reachable (.first _ _ h.ready.clock (h.ready.seeds k le_rfl) hadm),
    List.forall_mem_cons.mpr ⟨hvalid, h.valid⟩, ⟨fun i hi => ?_, fun i hi r' hr' => ?_,
      fun i hi r' hr' hst htoken => ?_, host.never_back (Nat.le_succ k)⟩,
    hd.hasRoom hsends.drives h.room⟩
  · refine List.forall_mem_cons.mpr ⟨fun hseed => ?_, h.ready.seeds i (Nat.le_of_succ_le hi)⟩
    exact absurd (host.seed_injective hseed) (by omega)
  · obtain ⟨r, hr, hm⟩ | hborn := hd.effect.runs.before r' hr'
    · have hid : r'.runId = r.runId := by
        obtain rfl | hm := hm
        · rfl
        · exact hm.same.runId
      rw [hid]
      exact h.ready.runs i (Nat.le_of_succ_le hi) r hr
    · intro hid
      cases hborn with
      | followed _ _ _ _ _ hnext =>
        have hminted := hsends.nextRunId hnext
        exact absurd (host.passId_injective (hminted.symm.trans hid)) (by omega)
      | first | revived => exact hsends.elim
  · have hbefore := h.ready.tokens i (Nat.le_of_succ_le hi)
    obtain ⟨r, hr, rfl | hm⟩ | hborn := hd.effect.runs.before r' hr'
    · exact hbefore _ hr hst htoken
    · obtain ⟨c, hcall, hc, _⟩ | ⟨hrunning, hheld, _⟩ := hm.held hst htoken
      · obtain rfl : call = .claim c := hcall
        exact absurd (host.token_injective (hsends.symm.trans hc)) (by omega)
      · exact hbefore r hr hrunning hheld
    · cases hborn with
      | followed _ _ _ hqueued => exact hqueued.ne_running hst
      | first | revived => exact hsends.elim

/-! ## The sweep of a tick -/

variable {d : Db} {readAt : ℤ} {limit : ℕ} {items found : List SweepItem} {item : SweepItem}

/-- The batch of an item, on this trip. -/
abbrev Host.sweeps (host : Host) (queue : String) (k : ℕ) (item : SweepItem) : Batch :=
  ⟨host.seed k, item.call queue (host.passId k)⟩

/-- What the trip reports of it. -/
abbrev Host.reports (host : Host) (queue : String) (k : ℕ) (item : SweepItem) (db : Db) :
    Option Statement → Option SweptRun :=
  item.report queue (host.seed k) (host.passId k) (host.clock k) db

/-- No constraint refuses a sweep. -/
theorem Underway.item_runs (h : Underway host queue k s) (item : SweepItem) :
    ∃ out, (host.sweeps queue k item).run (host.clock k) s.db = some out := by
  have hstamps := (h.reachable.course fun _ _ hrepeats => hrepeats).stamps _
    (h.ready.seeds k le_rfl)
  have hnew : ∀ swept : Swept, swept.passId = host.passId k →
      ∀ r ∈ s.db.runs, r.runId ≠ swept.passId := fun swept hid => hid ▸ h.ready.runs k le_rfl
  cases item with
  | cancel => exact ⟨_, rfl⟩
  | lostLaunch runId taskId claimGen relaunchCount =>
    obtain ⟨passed, hpassed⟩ := h.inv.lostLaunch_runs hstamps
      (hnew ⟨queue, runId, taskId, claimGen, host.passId k⟩ rfl)
    exact ⟨_, Option.bind_eq_some_iff.mpr ⟨passed, hpassed, rfl⟩⟩
  | claimTimeout runId taskId claimGen =>
    obtain ⟨placed, passed, hplaced, hpassed⟩ := h.inv.claimTimeout_runs hstamps
      (hnew ⟨queue, runId, taskId, claimGen, host.passId k⟩ rfl)
    exact ⟨_, Option.bind_eq_some_iff.mpr ⟨placed, hplaced,
      Option.bind_eq_some_iff.mpr ⟨passed, hpassed, rfl⟩⟩⟩

/-- The batch of an item the scan found: a report spends some of what is left, and a batch that wins
is reported. -/
structure ItemSwept (host : Host) (queue : String) (k : ℕ) (item : SweepItem) (s : Sys)
    (out : Outcome) : Prop where
  underway : Underway host queue (k + 1) (s.deliver (host.sweeps queue k item) (host.clock k))
  rank_le : (s.deliver (host.sweeps queue k item) (host.clock k)).db.rank ≤ s.db.rank
  spent : host.reports queue k item s.db out.won ≠ none →
    (s.deliver (host.sweeps queue k item) (host.clock k)).db.rank < s.db.rank
  told : out.won ≠ none → host.reports queue k item s.db out.won ≠ none

/-- Sweeping one item the scan found leaves the tick under way, and is what the item's report says.
-/
theorem Underway.sweepItem (h : Underway host queue k s) (hseen : s.Seen d)
    (hscan : sweepScan d readAt queue limit = .ok items) (hitem : item ∈ items) {out : Outcome}
    (hrun : (host.sweeps queue k item).run (host.clock k) s.db = some out) :
    ItemSwept host queue k item s out := by
  have hsends : host.Sends k (item.call queue (host.passId k)) := by
    cases item with
    | cancel => trivial
    | lostLaunch | claimTimeout => rfl
  have hvalid : (item.call queue (host.passId k)).Valid := by cases item <;> trivial
  have hadm : (item.call queue (host.passId k)).Admitted s.Seen := by
    obtain ⟨t, _, _, rfl⟩ | ⟨q, hq, _, rfl | rfl⟩ := sweepScan_item hscan hitem
    · trivial
    · exact ⟨d, hseen, q, hq, rfl, rfl⟩
    · exact ⟨d, hseen, q, hq, rfl, rfl⟩
  have hd := h.delivers hadm
  have hafter : (s.deliver (host.sweeps queue k item) (host.clock k)).db = out.db := by
    show Batch.after _ _ _ = _
    rw [Batch.after, hrun]
    rfl
  obtain ⟨hlost, htold⟩ := h.reachable.report_tells hseen hscan hitem (h.ready.seeds k le_rfl)
    h.ready.clock hrun
  refine ⟨h.deliver hsends hadm hvalid, hd.rank_le hsends.drives, fun hreport => ?_, fun hwon => ?_⟩
  · obtain ⟨report, _, htells⟩ := htold fun hwon => hreport (hlost hwon)
    obtain ⟨id, hlt⟩ := htells.rank_lt
    rw [← hafter] at hlt
    exact hd.rank_lt hsends.drives hlt
  · obtain ⟨report, hreport, _⟩ := htold hwon
    exact fun hnone => Option.some_ne_none report (hreport.symm.trans hnone)

/-- The sweeps of the items a scan found, in any order. -/
structure ItemsSwept (host : Host) (queue : String) (k : ℕ) (s : Sys) (reports : List SweptRun)
    (k' : ℕ) (s' : Sys) : Prop where
  later : k ≤ k'
  underway : Underway host queue k' s'
  rank_le : s'.db.rank ≤ s.db.rank
  spent : reports ≠ [] → s'.db.rank < s.db.rank

/-- Sweeping the items one by one leaves the tick under way, and each is what its report says. -/
theorem Underway.sweepEach (h : Underway host queue k s) (hseen : s.Seen d)
    (hscan : sweepScan d readAt queue limit = .ok items) (hfound : ∀ item ∈ found, item ∈ items) :
    ∃ reports k' s', sweepEach host queue k found s = some (reports, k', s') ∧
      ItemsSwept host queue k s reports k' s' ∧
        ∀ item ∈ found.head?, (host.sweeps queue k item).Wins (host.clock k) s.db → reports ≠ [] := by
  -- The induction is on the items still to sweep: the store the scan read stays seen.
  induction found generalizing k s with
  | nil => exact ⟨[], k, s, rfl, ⟨le_rfl, h, le_rfl, fun hne => absurd rfl hne⟩, nofun⟩
  | cons item rest ih =>
    obtain ⟨out, hrun⟩ := h.item_runs item
    have hswept := h.sweepItem hseen hscan (hfound item List.mem_cons_self) hrun
    have hseen' : (s.deliver (host.sweeps queue k item) (host.clock k)).Seen d := by
      obtain rfl | ⟨e, he, hbefore⟩ := hseen
      · exact Or.inr ⟨_, List.mem_cons_self, rfl⟩
      · exact Or.inr ⟨e, List.mem_cons_of_mem _ he, hbefore⟩
    obtain ⟨reports, k', s', hrest, hitems, _⟩ := ih hswept.underway hseen'
      fun item hitem => hfound item (List.mem_cons_of_mem _ hitem)
    refine ⟨(host.reports queue k item s.db out.won).toList ++ reports, k', s', ?_,
      ⟨(Nat.le_succ k).trans hitems.later, hitems.underway, hitems.rank_le.trans hswept.rank_le,
        fun hne => ?_⟩, fun first hfirst hwins hnil => ?_⟩
    · rw [Driver.sweepEach, hrun]
      simp only [Option.bind_eq_bind, Option.bind_some, hrest]
      rfl
    · by_cases hreport : host.reports queue k item s.db out.won = none
      · rw [hreport, Option.toList_none, List.nil_append] at hne
        exact (hitems.spent hne).trans_le hswept.rank_le
      · exact hitems.rank_le.trans_lt (hswept.spent hreport)
    · -- The first item meets the store as it was, so it is its own batch that wins.
      obtain rfl := Option.some.inj hfirst
      obtain ⟨out', hrun', hwon⟩ := hwins
      obtain rfl := Option.some.inj (hrun.symm.trans hrun')
      obtain ⟨report, hreport⟩ := Option.ne_none_iff_exists'.mp (hswept.told hwon)
      simp [hreport] at hnil

/-- A positive limit stays one under the host's cap. -/
theorem Host.limit_pos (host : Host) (k : ℕ) (h : 0 < limit) : 0 < host.limit k limit := by
  unfold Host.limit
  split
  · exact Nat.one_pos
  · exact h

/-- A sweep reports something where something is due for it, and leaves the store alone where nothing
is. -/
theorem Underway.sweep (h : Underway host queue k s) (hlimit : 0 < limit)
    (hfits : epochAdditionFits (host.clock (k + 1)) (RELAUNCH_BACKOFF_MAX_SECONDS * 1000)) :
    ∃ reports k' s', sweep host queue limit k s = some (reports, k', s') ∧
      ItemsSwept host queue k s reports k' s' ∧
      (SweepDue s.db queue (host.clock k) → reports ≠ []) ∧
      (¬ SweepDue s.db queue (host.clock k) → s' = s) := by
  obtain ⟨items, hscan⟩ : ∃ items, sweepScan s.db (host.clock k) queue (host.limit k limit) =
      .ok items := ⟨_, h.wellformed.sweepScan_eq_ok queue _⟩
  have hperm := host.order_perm k items
  obtain ⟨reports, k', s', hrun, hitems, hfirst⟩ := h.next.sweepEach (Or.inl rfl) hscan
    fun item hitem => hperm.mem_iff.mp hitem
  refine ⟨reports, k', s', ?_, ⟨(Nat.le_succ k).trans hitems.later, hitems.underway,
    hitems.rank_le, hitems.spent⟩, fun hdue => ?_, fun hno => ?_⟩
  · simp only [Driver.sweep, hscan]
    exact hrun
  · -- The first batch meets the store the scan read.
    have hne : host.order k items ≠ [] := fun hnil =>
      hdue.sweepScan_ne_nil h.wellformed (host.limit_pos k hlimit) hscan
        (List.nil_perm.mp (hnil ▸ hperm))
    obtain ⟨item, rest, hcons⟩ := List.exists_cons_of_ne_nil hne
    have hitem : item ∈ items := hperm.mem_iff.mp (hcons ▸ List.mem_cons_self)
    refine hfirst item (by simp [hcons]) ?_
    exact h.inv.sweepItem_wins h.wellformed
      ((h.reachable.course fun _ _ hrepeats => hrepeats).stamps _ (h.ready.seeds _ (Nat.le_succ k)))
      (h.ready.runs _ (Nat.le_succ k)) hfits (host.never_back (Nat.le_succ k)) hscan hitem
  · -- A scan finds only what is due, so there is no batch to send.
    have hnil : items = [] := by
      refine List.eq_nil_iff_forall_not_mem.mpr fun item hitem => hno ?_
      obtain ⟨t, ht, hdue, _⟩ | ⟨r, hr, hdue, _⟩ := sweepScan_item hscan hitem
      · exact Or.inl ⟨t, ht, hdue⟩
      · exact Or.inr ⟨r, hr, hdue⟩
    have horder : host.order k items = [] := by
      rw [hnil] at hperm ⊢
      exact hperm.eq_nil
    rw [horder] at hrun
    exact (Prod.mk.inj (Prod.mk.inj (Option.some.inj hrun)).2).2.symm

/-! ## The claim of a tick -/

/-- A claim takes a run where there is a candidate. -/
theorem exists_claimGuard_of_candidate {db : Db} {now : ℤ} {claim : ClaimCall} {r : Run}
    (hr : r ∈ db.runs) (hq : r.state.Queued)
    (hcandidate : claimCandidate db now claim.queue r.state r) (hlimit : 0 < claim.limit)
    (hfree : heldRuns db claim.queue claim.claimToken = [])
    (hfits : epochAdditionFits now claim.leaseMs) : ∃ p ∈ db.runs, claimGuard db now claim p := by
  have hleg : ∃ q, q ∈ candidateLeg db now claim.queue r.state claim.limit :=
    List.exists_mem_of_ne_nil _ (take_insertionSort_ne_nil
      (List.mem_filter.mpr ⟨hr, decide_eq_true hcandidate⟩) hlimit)
  obtain ⟨q, hq'⟩ := hleg
  have hlegs : q ∈ candidateLeg db now claim.queue .pending claim.limit ++
      candidateLeg db now claim.queue .sleeping claim.limit := by
    rw [List.mem_append]
    cases hstate : r.state with
    | pending => exact Or.inl (hstate ▸ hq')
    | sleeping => exact Or.inr (hstate ▸ hq')
    | running | completed | failed | cancelled =>
      rw [hstate] at hq
      exact hq.elim
  obtain ⟨p, hp⟩ : ∃ p, p ∈ candidateRuns db now claim.queue claim.limit :=
    List.exists_mem_of_ne_nil _ (take_insertionSort_ne_nil hlegs hlimit)
  have hmem : p ∈ db.runs := by
    have hp := (List.mem_insertionSort claimOrder).mp (List.mem_of_mem_take hp)
    obtain hp | hp := List.mem_append.mp hp <;>
      exact (List.mem_filter.mp ((List.mem_insertionSort claimOrder).mp
        (List.mem_of_mem_take hp))).1
  refine ⟨p, hmem, List.mem_map_of_mem hp, ?_, hfits⟩
  rintro ⟨held, hheld, hqueue, hst, htoken⟩
  exact absurd (mem_heldRuns.mpr ⟨hheld, hqueue, htoken, hst⟩) (hfree ▸ List.not_mem_nil)

/-- The claim of a tick: what it takes spends some of what is left, it takes something where there is
a candidate, and where it takes nothing it leaves the store alone. -/
structure Claimed (host : Host) (queue : String) (k : ℕ) (s : Sys) (rows : List ClaimedRun)
    (s' : Sys) : Prop where
  underway : Underway host queue (k + 1) s'
  rank_le : s'.db.rank ≤ s.db.rank
  spent : rows ≠ [] → s'.db.rank < s.db.rank
  taken : (∃ r ∈ s.db.runs, r.state.Queued ∧
    claimCandidate s.db (host.clock k) queue r.state r) → rows ≠ []
  idle : rows = [] → s'.db = s.db

/-- The claim of a tick leaves it under way, with the rows it claimed. -/
theorem Underway.claimRuns (h : Underway host opts.queue k s)
    (hfits : epochAdditionFits (host.clock k) opts.leaseMs) :
    ∃ rows s', claimRuns host opts k s = some (rows, k + 1, s') ∧
      Claimed host opts.queue k s rows s' := by
  set claim : ClaimCall :=
    ⟨opts.queue, host.token k, opts.leaseMs, host.limit k opts.claimLimit⟩ with hclaim
  have hlimit : 0 < claim.limit := host.limit_pos k opts.claim_pos
  have hfree : heldRuns s.db claim.queue claim.claimToken = [] := by
    refine List.eq_nil_iff_forall_not_mem.mpr fun r hr => ?_
    obtain ⟨hr, _, htoken, hst⟩ := mem_heldRuns.mp hr
    exact h.ready.tokens k le_rfl r hr hst htoken
  have hd : Delivers s ⟨host.seed k, .claim claim⟩ (host.clock k) := h.delivers trivial
  have hsends : host.Sends k (.claim claim) := rfl
  have hunder := h.deliver hsends trivial ⟨opts.lease, hlimit⟩
  obtain ⟨rows, hanswer⟩ := hunder.inv.answers hunder.wellformed claim
  -- A row of the answer is a run this claim took, and the other way round.
  have htook : rows ≠ [] ↔ ∃ r ∈ s.db.runs, claimGuard s.db (host.clock k) claim r := by
    have hlength := congrArg List.length hanswer.runs
    rw [List.length_map, List.length_map, List.length_insertionSort] at hlength
    rw [← List.length_pos_iff, hlength, List.length_pos_iff_exists_mem]
    have hmem : ∀ r', r' ∈ heldRuns (s.deliver ⟨host.seed k, .claim claim⟩ (host.clock k)).db
        claim.queue claim.claimToken ↔ _ := fun r' => mem_heldRuns_claim hfree
    simp only [hmem]
    constructor
    · rintro ⟨_, r, hr, hg, _⟩
      exact ⟨r, hr, hg⟩
    · rintro ⟨r, hr, hg⟩
      exact ⟨_, r, hr, hg, rfl⟩
  refine ⟨rows, _, ?_, hunder, hd.rank_le trivial, fun hne => ?_, fun hcandidate => ?_,
    fun hnil => ?_⟩
  · simp only [Driver.claimRuns, ← hclaim, hanswer.answered]
    rfl
  · obtain ⟨r, hr, hg⟩ := htook.mp hne
    exact hd.rank_lt_of_claim hr hg
  · obtain ⟨r, hr, hq, hcandidate⟩ := hcandidate
    exact htook.mpr (exists_claimGuard_of_candidate hr hq hcandidate hlimit hfree hfits)
  · have hunsigned := h.reachable.unsigned (fun _ _ hrepeats => hrepeats) (h.ready.seeds k le_rfl)
    refine hunsigned.lost (b := ⟨host.seed k, .claim claim⟩) h.inv trivial rfl ?_
    exact wonBy_eq_none.mpr fun hguard => absurd hnil (htook.mpr hguard)

/-! ## The launches of a tick -/

/-- Launching the claimed runs leaves the tick under way, and adds nothing to what the store has
left to do. -/
theorem Underway.launchEach (h : Underway host queue k s) (runs : List ClaimedRun) :
    ∃ kinds k' s', launchEach host queue k runs s = (kinds, k', s') ∧ k ≤ k' ∧
      Underway host queue k' s' ∧ s'.db.rank ≤ s.db.rank ∧ (runs = [] → s' = s) := by
  induction runs generalizing k s with
  | nil => exact ⟨[], k, s, rfl, le_rfl, h, le_rfl, fun _ => rfl⟩
  | cons run runs ih =>
    rw [Driver.launchEach]
    generalize reconcile run (host.launch k run) = reconciled
    obtain ⟨kind, expires⟩ := reconciled
    by_cases hexpires : expires ∧ host.reaches k run
    · have hsends : host.Sends k (.expireLeaseNow ⟨queue, run.runId, run.claimToken⟩) := trivial
      have hd : Delivers s ⟨host.seed k, .expireLeaseNow ⟨queue, run.runId, run.claimToken⟩⟩
        (host.clock k) := h.delivers trivial
      obtain ⟨kinds, k', s', hrun, hlater, hunder, hle, _⟩ := ih (h.deliver hsends trivial trivial)
      refine ⟨kind :: kinds, k', s', ?_, (Nat.le_succ k).trans hlater, hunder,
        hle.trans (hd.rank_le hsends.drives), nofun⟩
      simp only [hexpires, and_self, if_true, hrun]
    · obtain ⟨kinds, k', s', hrun, hlater, hunder, hle, _⟩ := ih h.next
      refine ⟨kind :: kinds, k', s', ?_, (Nat.le_succ k).trans hlater, hunder, hle, nofun⟩
      simp only [if_neg hexpires, hrun]

/-! ## The tick -/

/-- The instants of the host leave room for what the store adds to them. -/
structure Host.Fits (host : Host) (leaseMs : ℤ) : Prop where
  lease : ∀ k, epochAdditionFits (host.clock k) leaseMs
  backoff : ∀ k, epochAdditionFits (host.clock k) (RELAUNCH_BACKOFF_MAX_SECONDS * 1000)

/-- A tick spends some of what is left where its budget filled and where a sweep was due; where only a
claim was, it spends some, or a sweep is due by its end. -/
structure Ticked (host : Host) (queue : String) (k : ℕ) (s : Sys) (result : TickResult SweptRun)
    (k' : ℕ) (s' : Sys) : Prop where
  later : k < k'
  underway : Underway host queue k' s'
  rank_le : s'.db.rank ≤ s.db.rank
  backlog : result.backlog = true → s'.db.rank < s.db.rank
  wakes : result.nextWakeAtEpochMs =
    (nextWakeAtEpochMs s'.db queue).map fun wake : ℤ => (wake : ℚ)
  swept : SweepDue s.db queue (host.clock k) → s'.db.rank < s.db.rank
  due : Due s.db queue (host.clock k) →
    s'.db.rank < s.db.rank ∨ SweepDue s'.db queue (host.clock (k' - 1))

/-- A tick runs to its end, and spends what it reports. -/
theorem Underway.tick (h : Underway host opts.queue k s) (hfits : host.Fits opts.leaseMs) :
    ∃ result k' s', tick host opts k s = some (result, k', s') ∧
      Ticked host opts.queue k s result k' s' := by
  obtain ⟨reports, k₁, s₁, hsweep, hswept, hfound, hquiet⟩ :=
    h.sweep opts.sweep_pos (hfits.backoff (k + 1))
  obtain ⟨rows, s₂, hclaim, hclaimed⟩ := hswept.underway.claimRuns (hfits.lease k₁)
  obtain ⟨kinds, k₃, s₃, hlaunch, hlater, hunder, hle, hnone⟩ :=
    hclaimed.underway.launchEach rows
  have hk : k ≤ k₁ ∧ k₁ + 1 ≤ k₃ := ⟨hswept.later, hlater⟩
  have hrank : s₃.db.rank ≤ s.db.rank := (hle.trans hclaimed.rank_le).trans hswept.rank_le
  have hspent : reports ≠ [] ∨ rows ≠ [] → s₃.db.rank < s.db.rank := by
    rintro (hreports | hrows)
    · exact (hle.trans hclaimed.rank_le).trans_lt (hswept.spent hreports)
    · exact (hle.trans_lt (hclaimed.spent hrows)).trans_le hswept.rank_le
  refine ⟨tickResult opts reports rows kinds s₃.db, k₃ + 1, s₃, ?_, ⟨by omega, hunder.next, hrank,
    fun hbacklog => ?_, rfl, fun hdue => hspent (Or.inl (hfound hdue)), fun hdue => ?_⟩⟩
  · rw [Driver.tick, hsweep]
    simp only [Option.bind_eq_bind, Option.bind_some, hclaim, hlaunch]
    rfl
  · -- A backlog is a budget filled, and no budget is empty.
    have hfull : opts.sweepLimit ≤ reports.length ∨ opts.claimLimit ≤ rows.length :=
      of_decide_eq_true hbacklog
    refine hspent (hfull.imp (fun hfull hnil => ?_) fun hfull hnil => ?_) <;>
      rw [hnil, List.length_nil] at hfull
    · exact absurd opts.sweep_pos (Nat.not_lt.mpr hfull)
    · exact absurd opts.claim_pos (Nat.not_lt.mpr hfull)
  · by_cases hnow : SweepDue s.db opts.queue (host.clock k)
    · exact Or.inl (hspent (Or.inl (hfound hnow)))
    obtain rfl := hquiet hnow
    by_cases hrows : rows = []
    · -- Nothing was taken: a deadline passed before the claim.
      right
      have hsame : s₃.db = s₁.db := by rw [hnone hrows, hclaimed.idle hrows]
      have hdue' := hdue.later (host.never_back hk.1)
      obtain hsweep | hcandidate := h.inv.due_cases h.wellformed h.room hdue'
      · rw [hsame]
        exact hsweep.later (host.never_back (by omega))
      · exact absurd hrows (hclaimed.taken hcandidate)
    · exact Or.inl (hspent (Or.inr hrows))

/-! ## The chain -/

/-- The caller has no reason to look again at once: no budget filled, and the next wake is ahead. -/
def Quiet (result : TickResult SweptRun) (now : ℤ) : Prop :=
  result.backlog = false ∧ ∀ wake ∈ result.nextWakeAtEpochMs, (now : ℚ) < wake

instance (db : Db) (queue : String) (now : ℤ) : Decidable (Due db queue now) :=
  decidable_of_iff _ nextWake_le_iff

/-- How far a tick is from spending something: a sweep is due, or a claim is, or nothing yet. -/
def idleness (db : Db) (queue : String) (now : ℤ) : ℕ :=
  if SweepDue db queue now then 0 else if Due db queue now then 1 else 2

/-- A queue's idleness is two at most. -/
theorem idleness_le (db : Db) (queue : String) (now : ℤ) : idleness db queue now ≤ 2 := by
  unfold idleness
  split
  · decide
  · split <;> decide

/-- A tick that leaves something due leaves less to do, or spent none and is nearer to it. -/
theorem Ticked.measure_lt {result : TickResult SweptRun} {k' : ℕ} {s' : Sys}
    (h : Ticked host queue k s result k' s') (hloud : ¬ Quiet result (host.clock (k' - 1))) :
    3 * s'.db.rank + idleness s'.db queue (host.clock k') <
      3 * s.db.rank + idleness s.db queue (host.clock k) := by
  have hle := h.rank_le
  have hidle := idleness_le s'.db queue (host.clock k')
  have hread : host.clock (k' - 1) ≤ host.clock k' := host.never_back (by omega)
  -- One unit of what is left outweighs any idleness.
  by_cases hspent : s'.db.rank < s.db.rank
  · omega
  -- Nothing was spent, so no budget filled: it is the wake that has come.
  have hdue : Due s'.db queue (host.clock k') := by
    refine Due.later (nextWake_le_iff.mp ?_) hread
    by_contra hno
    refine hloud ⟨by_contra fun hbacklog => hspent (h.backlog ?_), fun wake hwake => ?_⟩
    · simpa using hbacklog
    · rw [h.wakes] at hwake
      obtain ⟨at', hat, rfl⟩ := Option.mem_map.mp hwake
      exact_mod_cast not_le.mp fun hle => hno ⟨at', hat, hle⟩
  have hnow : ¬ SweepDue s.db queue (host.clock k) := fun hsweep => hspent (h.swept hsweep)
  unfold idleness
  rw [if_neg hnow]
  by_cases hbefore : Due s.db queue (host.clock k)
  · rw [if_pos hbefore, if_pos (((h.due hbefore).resolve_left hspent).later hread)]
    omega
  · rw [if_neg hbefore, if_pos hdue]
    split <;> omega

/-- A chain of ticks runs on until one is quiet, within three for each unit of what is left. -/
theorem Underway.drains (h : Underway host opts.queue k s) (hfits : host.Fits opts.leaseMs) :
    ∃ n results last k' s', ticks host opts (n + 1) k s = some (results ++ [last], k', s') ∧
      n ≤ 3 * s.db.rank + idleness s.db opts.queue (host.clock k) ∧
      Underway host opts.queue k' s' ∧ Quiet last (host.clock (k' - 1)) ∧
      last.nextWakeAtEpochMs = (nextWakeAtEpochMs s'.db opts.queue).map fun wake : ℤ => (wake : ℚ) := by
  induction hm : 3 * s.db.rank + idleness s.db opts.queue (host.clock k) using Nat.strong_induction_on
    generalizing k s with
  | _ m ih =>
    obtain ⟨result, k₁, s₁, htick, hticked⟩ := h.tick hfits
    by_cases hquiet : Quiet result (host.clock (k₁ - 1))
    · refine ⟨0, [], result, k₁, s₁, ?_, Nat.zero_le m, hticked.underway, hquiet, hticked.wakes⟩
      simp only [ticks, htick]
      rfl
    · have hlt := hticked.measure_lt hquiet
      obtain ⟨n, results, last, k', s', hticks, hn, hunder, hlast, hwakes⟩ :=
        ih _ (hm ▸ hlt) hticked.underway rfl
      refine ⟨n + 1, result :: results, last, k', s', ?_, by omega, hunder, hlast, hwakes⟩
      rw [ticks, htick]
      simp only [Option.bind_eq_bind, Option.bind_some, hticks]
      rfl

/-- In every reachable store whose calls passed the port's checks, with room in the queue's
generations and in the epoch: a driver that ticks again at once, as long as a tick fills a budget or
names a wake that has come, comes to one that does neither, within three ticks for each unit of what
is left of the tasks' lives and three more. Nothing in the queue is due then. -/
theorem reachable_drains (h : Durablerun.Reachable Repeats s)
    (hvalid : ∀ e ∈ s.history, e.batch.call.Valid) (hready : host.Ready k s)
    (hgens : ∀ r ∈ s.db.runs, r.queue = opts.queue →
      r.claimGen < claimGenBounds.max - 1 - RELAUNCH_CAP) (hfits : host.Fits opts.leaseMs) :
    ∃ n ≤ 3 * s.db.rank + 3, ∃ results last k' s',
      ticks host opts n k s = some (results ++ [last], k', s') ∧ Durablerun.Reachable Repeats s' ∧
        Quiet last (host.clock (k' - 1)) ∧ ¬ Due s'.db opts.queue (host.clock (k' - 1)) := by
  have hwell := (h.wellformed hvalid).2
  have hroom : HasRoom opts.queue s.db := by
    intro r hr hq
    have hgen := hgens r hr hq
    have hcount := (hwell.runs r hr).relaunchCount.1
    have hwaiting : r.current.waiting ≤ 1 := by
      unfold Lifecycle.Current.waiting
      split <;> decide
    simp only [Run.spent]
    simp only [claimGenBounds, relaunchCountBounds] at hgen hcount
    omega
  obtain ⟨n, results, last, k', s', hticks, hn, hunder, hquiet, hwakes⟩ :=
    Underway.drains ⟨h, hvalid, hready, hroom⟩ hfits
  have hidle := idleness_le s.db opts.queue (host.clock k)
  refine ⟨n + 1, by omega, results, last, k', s', hticks, hunder.reachable, hquiet, fun hdue => ?_⟩
  obtain ⟨wake, hwake, hle⟩ := nextWake_le_iff.mpr hdue
  have hahead := hquiet.2 wake (hwakes ▸ Option.mem_map_of_mem _ hwake)
  exact absurd hle (not_le.mpr (by exact_mod_cast hahead))

/-! The worker of the sample task is gone, and a driver comes to its queue. -/

/-- A text of its own for each number. -/
def tally (c : Char) (i : ℕ) : String := String.ofList (List.replicate i c)

/-- Two numbers are tallied in two ways. -/
theorem tally_injective (c : Char) : Function.Injective (tally c) := by
  intro i j h
  simpa using congrArg List.length (String.ofList_injective h)

def tallyHost : Host where
  seed := tally 's'
  passId := tally 'p'
  token := tally 't'
  clock := fun _ => 1002
  seed_injective := tally_injective 's'
  passId_injective := tally_injective 'p'
  token_injective := tally_injective 't'
  never_back := monotone_const
  short := fun _ => false
  order := fun _ items => items
  order_perm := fun _ items => .refl items
  launch := fun _ _ => .accepted
  reaches := fun _ _ => true

def sampleTicks : TickOptions where
  queue := "q"
  claimLimit := 5
  sweepLimit := 5
  leaseMs := 1000
  claim_pos := by decide
  sweep_pos := by decide
  lease := by decide

/-- A text without the tally's character is no tally. -/
theorem tally_ne {c : Char} {text : String} (i : ℕ) (hne : text ≠ "") (hc : c ∉ text.toList) :
    text ≠ tally c i := by
  rintro rfl
  cases i with
  | zero => exact hne rfl
  | succ i =>
    refine hc ?_
    rw [tally, String.toList_ofList, List.mem_replicate]
    exact ⟨Nat.succ_ne_zero i, rfl⟩

/-- The tallying host is ready for a store with one running task. -/
theorem tallyHost_ready : tallyHost.Ready 0 runningOne where
  seeds := fun i _ e he => by
    have hseed : ∀ e ∈ runningOne.history, e.batch.seed ≠ "" ∧ 's' ∉ e.batch.seed.toList := by
      decide +kernel
    exact tally_ne i (hseed e he).1 (hseed e he).2
  runs := fun i _ r hr => by
    have hid : ∀ r ∈ runningOne.db.runs, r.runId ≠ "" ∧ 'p' ∉ r.runId.toList := by decide +kernel
    exact tally_ne i (hid r hr).1 (hid r hr).2
  tokens := fun i _ r hr _ htoken => by
    have hheld : ∀ r ∈ runningOne.db.runs, r.claimedBy = some "w1" := by decide +kernel
    exact tally_ne i (by decide) (by decide) (Option.some.inj ((hheld r hr).symm.trans htoken))
  clock := by decide

/-- The tallying host's leases fit. -/
theorem tallyHost_fits : tallyHost.Fits sampleTicks.leaseMs where
  lease := fun _ => show epochAdditionFits 1002 1000 by decide
  backoff := fun _ => show epochAdditionFits 1002 (RELAUNCH_BACKOFF_MAX_SECONDS * 1000) by decide

/-- The driver sweeps the dead claim, and nothing is due until the run that follows is. -/
theorem reachable_drains_runningOne :
    ∃ n ≤ 3 * runningOne.db.rank + 3, ∃ results last k' s',
      ticks tallyHost sampleTicks n 0 runningOne = some (results ++ [last], k', s') ∧
        Durablerun.Reachable Repeats s' ∧ Quiet last 1002 ∧ ¬ Due s'.db "q" 1002 :=
  reachable_drains (runningOne_reachable _) runningOne_valid tallyHost_ready (by decide +kernel)
    tallyHost_fits

end Durablerun.Driver
