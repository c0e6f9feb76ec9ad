import Durablerun.Store.NextWake

/-!
# The receipts of a claim

A claim whose answer was lost is sent again under its token. While the token holds a run, a delivery
takes nothing and answers what it holds, as the delivery that took it answered it; so no answer is
lost, and a token never holds more than one claim's limit.

Reference: `packages/core/src/statements/claim-receipt.ts` and `packages/store-libsql/src/store.ts`.
-/

namespace Durablerun

open Relational

variable {s : Sys} {b : Batch} {seed queue token : String} {now : ℤ} {db db' : Db} {call : Call}
  {r r' : Run} {t t' : Task}

/-! ## What a receipt reads -/

/-- A token holds the running runs of its queue that it claimed. -/
theorem mem_heldRuns : r ∈ heldRuns db queue token ↔
    r ∈ db.runs ∧ r.queue = queue ∧ r.claimedBy = some token ∧ r.state = .running := by
  unfold heldRuns
  rw [List.mem_filter, decide_eq_true_eq]
  exact Iff.rfl

/-- A receipt is of a run the token holds and of a task that admits it. -/
theorem mem_claimReceiptRead : (r, t) ∈ claimReceiptRead db queue token ↔
    r ∈ heldRuns db queue token ∧ t ∈ db.tasks ∧ runOwnedByTask r t ∧
      claimPickedAdmission db r t := by
  simp only [claimReceiptRead, List.mem_flatMap, List.mem_insertionSort, List.mem_map,
    List.mem_filter, decide_eq_true_eq, Prod.mk.injEq, Table.mem_def]
  constructor
  · rintro ⟨q, hq, u, ⟨hu, hown, hadm⟩, rfl, rfl⟩
    exact ⟨hq, hu, hown, hadm⟩
  · rintro ⟨hr, ht, hown, hadm⟩
    exact ⟨r, hr, t, ⟨ht, hown, hadm⟩, rfl, rfl⟩

/-- A running run passes all the receipt requires of it. -/
theorem Inv.claimPicked (h : Inv db) (hwell : Wellformed db) (hr : r ∈ db.runs) (ht : t ∈ db.tasks)
    (hown : runOwnedByTask r t) (hst : r.state = .running) : claimPickedAdmission db r t := by
  have hrun := hwell.runs r hr
  have htask := hwell.tasks t ht
  obtain ⟨hsole, haccounted, hhighest⟩ := h.sound hr ht hown.1.symm (by simp [hst])
  exact ⟨h.toUnits.live hr ht hown.1.symm (by simp [hst]), htask.retryAdmissible, htask.headers,
    hsole, ⟨hrun.claimed hst, hrun.claimGen.2⟩, ⟨hrun.activatedGen, hrun.latched.trans
    hrun.claimGen.2⟩, hrun.latched, hrun.relaunchCount, hrun.leased hst, hrun.expires hst, haccounted,
    hhighest⟩

/-- The receipt reads every run the token holds, in run order and each with its task. -/
theorem Inv.claimReceiptRead_runs (h : Inv db) (hwell : Wellformed db) :
    (claimReceiptRead db queue token).map Prod.fst =
      (heldRuns db queue token).insertionSort (·.runId ≤ ·.runId) := by
  unfold claimReceiptRead
  rw [List.map_flatMap]
  have hone : ∀ r ∈ (heldRuns db queue token).insertionSort (·.runId ≤ ·.runId),
      (((db.tasks.rows.filter fun t => runOwnedByTask r t ∧ claimPickedAdmission db r t).map
        (r, ·)).map Prod.fst) = [r] := by
    intro r hr
    obtain ⟨hr, _, _, hst⟩ := mem_heldRuns.mp ((List.mem_insertionSort _).mp hr)
    obtain ⟨t, ht, hown⟩ := h.owner r hr
    have howner : (db.tasks.rows.filter fun t => runOwnedByTask r t ∧ claimPickedAdmission db r t) =
        [t] :=
      Table.filter_eq_singleton (T := db.tasks) Task.keys_ne_nil ht
        ⟨hown, h.claimPicked hwell hr ht hown hst⟩
        fun u hu hpicked => db.task_unique hu ht (hpicked.1.1.trans hown.1.symm)
    rw [howner]
    rfl
  rw [List.flatMap_congr hone]
  exact List.flatMap_singleton' _

/-! ## What it answers -/

/-- A row of the receipt, where every column is in its bounds. -/
def claimedRun (token : String) (r : Run) (t : Task) : ClaimedRun where
  runId := r.runId
  taskId := r.taskId
  taskName := t.taskName
  attempt := r.attempt
  infraRetries := t.infraRetries
  claimGen := r.claimGen
  claimToken := token
  claimExpiresAtEpochMs := r.claimExpiresAtMs.getD 0
  leaseMs := r.leaseMs.getD 0
  paramsJson := t.params
  retryStrategy := t.retryStrategy
  maxAttempts := t.maxAttempts
  headers := t.headers.getD []
  wake := r.claimedWake

/-- A stored integer within its bounds is read. -/
theorem persistedRowInteger_of_stored {bounds : IntegerBounds} {value : Option ℤ}
    (scope column : String) (h : bounds.Stored value) :
    persistedRowInteger scope column bounds value = .ok (value.getD 0) := by
  obtain ⟨n, hn, hwithin⟩ := h
  obtain rfl : value = some n := hn
  exact if_pos hwithin

/-- A duration within its bounds is read. -/
theorem durationToMs_of_within {ms : ℤ} (name : String) (hmin : 0 ≤ ms) (hmax : ms ≤ MAX_DURATION_MS) :
    durationToMs name ms = .ok ms :=
  (if_neg (not_lt.mpr hmin)).trans (if_neg (not_lt.mpr hmax))

/-- An admissible retry strategy is read as it is. -/
theorem normalizeRetryStrategy_of_admissible (h : durableTaskRetryAdmissible t) :
    normalizeRetryStrategy t.retryStrategy = .ok t.retryStrategy := by
  unfold durableTaskRetryAdmissible at h
  cases hretry : t.retryStrategy with
  | none => rfl
  | fixed baseMs =>
    rw [hretry] at h
    simp only [normalizeRetryStrategy, durationToMs_of_within _ h.1 h.2]
    rfl
  | exponential baseMs factor maxMs =>
    rw [hretry] at h
    obtain ⟨⟨hbase, hbase'⟩, hfactor, hmax, hmax'⟩ := h
    simp only [normalizeRetryStrategy, durationToMs_of_within _ hbase hbase',
      durationToMs_of_within _ hmax hmax', if_neg (not_lt.mpr hfactor)]
    rfl

/-- What the receipt requires of a row is what its decoder does. -/
theorem decodeClaimedRun_of_picked (h : claimPickedAdmission db r t) :
    decodeClaimedRun token (r, t) = .ok (claimedRun token r t) := by
  obtain ⟨_, hretry, _, _, hgen, _, _, _, hlease, hexpires, haccounted, _⟩ := h
  obtain ⟨hattempt, _, hmax, hinfra, _⟩ := haccounted
  unfold decodeClaimedRun
  simp only [persistedRowInteger_of_stored _ _ ⟨_, rfl, hattempt⟩,
    persistedRowInteger_of_stored _ _ ⟨_, rfl, hinfra⟩, persistedRowInteger_of_stored _ _ ⟨_, rfl, hgen⟩,
    persistedRowInteger_of_stored _ _ ⟨_, rfl, hmax⟩, persistedRowInteger_of_stored _ _ hexpires,
    persistedRowInteger_of_stored _ _ hlease, normalizeRetryStrategy_of_admissible hretry]
  rfl

/-- The answer is one row for each run the token holds, in run order. -/
structure ClaimAnswers (db : Db) (call : ClaimCall) (rows : List ClaimedRun) : Prop where
  answered : claimAnswer db call = .ok rows
  runs : rows.map ClaimedRun.runId = ((heldRuns db call.queue call.claimToken).insertionSort
    (·.runId ≤ ·.runId)).map Run.runId
  each : ∀ row ∈ rows, ∃ r ∈ heldRuns db call.queue call.claimToken, ∃ t ∈ db.tasks,
    runOwnedByTask r t ∧ row = claimedRun call.claimToken r t

/-- A map that answers on every element answers. -/
theorem mapM_eq_ok {α β ε : Type} {f : α → Except ε β} {g : α → β} {l : List α}
    (h : ∀ a ∈ l, f a = .ok (g a)) : l.mapM f = .ok (l.map g) := by
  induction l with
  | nil => rfl
  | cons a l ih =>
    rw [List.mapM_cons, h a List.mem_cons_self, ih fun a ha => h a (List.mem_cons_of_mem _ ha)]
    rfl

/-- A claim of a sound store is answered. -/
theorem Inv.answers (h : Inv db) (hwell : Wellformed db) (call : ClaimCall) :
    ∃ rows, ClaimAnswers db call rows := by
  refine ⟨(claimReceiptRead db call.queue call.claimToken).map fun row =>
    claimedRun call.claimToken row.1 row.2, mapM_eq_ok fun row hrow => ?_, ?_, fun row hrow => ?_⟩
  · exact decodeClaimedRun_of_picked (mem_claimReceiptRead.mp hrow).2.2.2
  · rw [← h.claimReceiptRead_runs hwell, List.map_map, List.map_map]
    rfl
  · obtain ⟨⟨r, t⟩, hread, rfl⟩ := List.mem_map.mp hrow
    obtain ⟨hr, ht, hown, _⟩ := mem_claimReceiptRead.mp hread
    exact ⟨r, hr, t, ht, hown, rfl⟩

/-- Every run the token holds has its row. -/
theorem ClaimAnswers.row {call : ClaimCall} {rows : List ClaimedRun} (h : ClaimAnswers db call rows)
    (hr : r ∈ heldRuns db call.queue call.claimToken) (ht : t ∈ db.tasks)
    (hown : runOwnedByTask r t) : claimedRun call.claimToken r t ∈ rows := by
  have hid : r.runId ∈ rows.map ClaimedRun.runId := by
    rw [h.runs]
    exact List.mem_map_of_mem ((List.mem_insertionSort _).mpr hr)
  obtain ⟨row, hrow, hid⟩ := List.mem_map.mp hid
  obtain ⟨q, hq, u, hu, hown', rfl⟩ := h.each row hrow
  obtain rfl := db.run_unique (mem_heldRuns.mp hq).1 (mem_heldRuns.mp hr).1 hid
  obtain rfl := db.task_unique hu ht (hown'.1.trans hown.1.symm)
  exact hrow

/-! ## A token that holds a run -/

/-- The two rows differ by their stamps. -/
def Task.Restamped (t t' : Task) : Prop := ∃ stamp at', t' = { t with fenceStamp := stamp, fenceAtMs := at' }

/-- A task is itself restamped. -/
theorem Task.Restamped.refl (t : Task) : t.Restamped t := ⟨t.fenceStamp, t.fenceAtMs, rfl⟩

/-- A batch that left every row as it was, the stamps of tasks apart. -/
structure Undisturbed (db db' : Db) : Prop where
  runs : db'.runs = db.runs
  tasks : Table.Rel Task.Restamped db.tasks db'.tasks
  waits : db'.waits = db.waits
  events : db'.events = db.events
  checkpoints : db'.checkpoints = db.checkpoints

/-- A run that a claim stamped is its task's one run that carries the stamp. -/
theorem Inv.claimedRunOf_eq (h : Inv db) (hr : r ∈ db.runs) (hs : r.fenceStamp = some ⟨seed, .claim⟩)
    (hid : r.taskId = t.taskId) : claimedRunOf db seed t = some r.runId := by
  have hrunning : ∀ f ∈ db.runs, f.fenceStamp = some ⟨seed, .claim⟩ → f.state = .running :=
    fun f hf hs => h.stamped.runs f hf _ hs
  have hone : (db.runs.rows.filter fun f =>
      f.taskId = t.taskId ∧ f.fenceStamp = some ⟨seed, .claim⟩) = [r] :=
    Table.filter_eq_singleton Run.keys_ne_nil hr ⟨hid, hs⟩ fun f hf ⟨hfid, hfs⟩ =>
      h.toUnits.sole hr hf (hfid.trans hid.symm) (by simp [hrunning r hr hs])
        (by simp [hrunning f hf hfs])
  unfold claimedRunOf
  rw [hone]

/-- A delivery of a claim whose token holds a run takes nothing and disturbs nothing. -/
theorem claim_undisturbed (seed : String) (now : ℤ) (h : Inv db) (hlast : LastRun db) {call : ClaimCall}
    (hheld : heldRuns db call.queue call.claimToken ≠ []) :
    (claim seed call now db).won = none ∧ Undisturbed db (claim seed call now db).db := by
  obtain ⟨held, hheld⟩ := List.exists_mem_of_ne_nil _ hheld
  obtain ⟨hmem, hq, htoken, hst⟩ := mem_heldRuns.mp hheld
  have hno : ¬ ∃ r ∈ db.runs, claimGuard db now call r :=
    fun ⟨r, _, hg⟩ => hg.2.1 ⟨held, hmem, hq, hst, htoken⟩
  have hcas : claimCas db seed call now = db :=
    updateRuns_of_forall_not fun r hr hg => hno ⟨r, hr, hg⟩
  refine ⟨if_neg hno, ?_⟩
  unfold claim
  simp only [hcas]
  refine ⟨rfl, runsToTasks_rel Task.Restamped.refl fun t ht f hf hfol _ at' => ?_, ?_, rfl, rfl⟩
  · obtain ⟨_, hrunning, _⟩ := hfol.selected
    have hstate : t.state = .running :=
      (h.state_eq hf ht hfol.taskId (by simp [hrunning])).trans hrunning
    have hlastRun : t.lastAttemptRun = claimedRunOf db seed t := by
      rw [h.claimedRunOf_eq hf hfol.stamp hfol.taskId]
      exact (hlast t ht f hf hfol.taskId (by simp [hrunning])).resolve_right fun hnot =>
        hnot.2 hrunning
    refine ⟨some ⟨seed, .taskBook⟩, at', ?_⟩
    show ({ t with state := .running, lastAttemptRun := claimedRunOf db seed t } : Task).stampedAt _ at' = _
    rw [← hlastRun, ← hstate]
    rfl
  · refine Table.delete_of_forall_not fun w hw hdue => ?_
    obtain ⟨⟨f, hf, ⟨⟨_, hrunning, _⟩, _⟩, hid⟩, _⟩ := hdue
    exact h.held.no_wait hw hf (by simp [hrunning]) hid

/-! ## A claim that takes -/

/-- A claim takes a run only under a token that holds none. -/
theorem claimGuard.free {call : ClaimCall} (h : claimGuard db now call r) :
    heldRuns db call.queue call.claimToken = [] := by
  refine List.eq_nil_iff_forall_not_mem.mpr fun held hheld => ?_
  obtain ⟨hmem, hq, htoken, hst⟩ := mem_heldRuns.mp hheld
  exact h.2.1 ⟨held, hmem, hq, hst, htoken⟩

/-- The runs a claim leaves under a token that held none are the ones it took. -/
theorem mem_heldRuns_claim {call : ClaimCall}
    (hfree : heldRuns db call.queue call.claimToken = []) :
    r' ∈ heldRuns (claim seed call now db).db call.queue call.claimToken ↔
      ∃ r ∈ db.runs, claimGuard db now call r ∧ r' = claimAssignments db seed now call r := by
  rw [mem_heldRuns]
  constructor
  · rintro ⟨hr', hq, htoken, hst⟩
    have hr' : r' ∈ (claimCas db seed call now).runs := hr'
    obtain ⟨r, hr, hg, rfl⟩ | ⟨hr, _⟩ := Table.update_cases hr'
    · exact ⟨r, hr, hg, rfl⟩
    · exact absurd (mem_heldRuns.mpr ⟨hr, hq, htoken, hst⟩) (hfree ▸ List.not_mem_nil)
  · rintro ⟨r, hr, hg, rfl⟩
    have hmem : claimAssignments db seed now call r ∈ (claimCas db seed call now).runs :=
      Table.mem_update_of_pos (f := ⟨claimAssignments db seed now call, fun _ => rfl⟩) hr hg
    exact ⟨hmem, (hg.candidate hr).1.1, rfl, rfl⟩

/-- A list of runs of one table whose identities are among some others is no longer than they. -/
theorem length_le_of_runIds {held : List Run} {ids : List String} (hnodup : held.Nodup)
    (hmem : ∀ r ∈ held, r ∈ db.runs) (hids : ∀ r ∈ held, r.runId ∈ ids) :
    held.length ≤ ids.length := by
  have hinj : ∀ r ∈ held, ∀ q ∈ held, r.runId = q.runId → r = q :=
    fun r hr q hq => db.run_unique (hmem r hr) (hmem q hq)
  have hsub : held.map Run.runId ⊆ ids := by
    intro id hid
    obtain ⟨r, hr, rfl⟩ := List.mem_map.mp hid
    exact hids r hr
  have hle := ((hnodup.map_on hinj).subperm hsub).length_le
  rwa [List.length_map] at hle

/-- A token holds a run once. -/
theorem heldRuns_nodup (db : Db) (queue token : String) : (heldRuns db queue token).Nodup :=
  (db.runs.nodup_rows Run.keys_ne_nil).filter _

/-- A claim leaves a token that held none no more runs than its limit. -/
theorem length_heldRuns_claim {call : ClaimCall}
    (hfree : heldRuns db call.queue call.claimToken = []) :
    (heldRuns (claim seed call now db).db call.queue call.claimToken).length ≤ call.limit := by
  have hids : ∀ r' ∈ heldRuns (claim seed call now db).db call.queue call.claimToken,
      r'.runId ∈ (candidateRuns db now call.queue call.limit).map Run.runId := by
    intro r' hr'
    obtain ⟨r, _, hg, rfl⟩ := (mem_heldRuns_claim hfree).mp hr'
    exact hg.1
  refine (length_le_of_runIds (heldRuns_nodup _ _ _) (fun r hr => (mem_heldRuns.mp hr).1)
    hids).trans ?_
  rw [List.length_map]
  exact List.length_take_le _ _

/-! ## What a token holds from step to step -/

/-- The run is as its claim left it, its lease and its start apart. -/
structure Run.Holding (r r' : Run) : Prop extends r.Same r' where
  claimGen : r'.claimGen = r.claimGen
  leaseMs : r'.leaseMs = r.leaseMs
  wake : r'.claimedWake = r.claimedWake

/-- A run is as it is. -/
theorem Run.Holding.refl (r : Run) : r.Holding r := ⟨.refl r, rfl, rfl, rfl⟩

/-- A run that a batch leaves under a token was held under it as it is, or a claim took it. -/
theorem Run.Move.held (hm : Run.Move seed now db db' call r r') (hst : r'.state = .running)
    (htoken : r'.claimedBy = some token) :
    (∃ c, call = .claim c ∧ c.claimToken = token ∧ claimGuard db now c r ∧
      r' = claimAssignments db seed now c r) ∨
      (r.state = .running ∧ r.claimedBy = some token ∧ r.Holding r') := by
  cases hm with
  | claimed hg => exact Or.inl ⟨_, rfl, Option.some.inj htoken, hg, rfl⟩
  | activated hg => exact Or.inr ⟨hg.1.1.running, htoken, ⟨rfl, rfl, rfl, rfl⟩, rfl, rfl, rfl⟩
  | extended hg | leased hg | expired hg =>
    exact Or.inr ⟨hg.1.running, htoken, ⟨rfl, rfl, rfl, rfl⟩, rfl, rfl, rfl⟩
  | deferred | rescheduled | suspended =>
    exact absurd hst (parkAssignments_queued seed .suspend _ now r).ne_running
  | awaited | completed | failed | reopened | capped | timedOut | cancelled | woken => cases hst

/-- The columns of a task that a claim hands out with its run. -/
structure Task.Handed (t t' : Task) : Prop where
  taskName : t'.taskName = t.taskName
  params : t'.params = t.params
  headers : t'.headers = t.headers
  retryStrategy : t'.retryStrategy = t.retryStrategy
  maxAttempts : t'.maxAttempts = t.maxAttempts
  infraRetries : t'.infraRetries = t.infraRetries

/-- A task hands out what it hands out. -/
theorem Task.Handed.refl (t : Task) : t.Handed t := ⟨rfl, rfl, rfl, rfl, rfl, rfl⟩

/-- A task that hands out the same twice does. -/
theorem Task.Handed.trans {t'' : Task} (h : t.Handed t') (h' : t'.Handed t'') : t.Handed t'' :=
  ⟨h'.taskName.trans h.taskName, h'.params.trans h.params, h'.headers.trans h.headers,
    h'.retryStrategy.trans h.retryStrategy, h'.maxAttempts.trans h.maxAttempts,
    h'.infraRetries.trans h.infraRetries⟩

/-- The calls whose batches may leave a task running that they did not find so. -/
def Call.Starts : Call → Prop
  | .claim _ | .activate _ => True
  | _ => False

/-- What a claim or an activation makes of a task keeps what is handed out. -/
theorem Task.Moved.handed (hm : Task.Moved seed now db call t t') (hcall : call.Starts) :
    t.Handed t' := by
  induction hm with
  | refl => exact .refl t
  | tail _ hturn ih =>
    obtain ⟨v, _, _, hmove, rfl⟩ := hturn
    refine ih.trans ?_
    cases hmove with
    | booked | started | followed => exact ⟨rfl, rfl, rfl, rfl, rfl, rfl⟩
    | @rollingBack _ _ _ _ _ _ _ _ _ hplaces =>
      cases call with
      | claim | activate => exact hplaces.elim
      | _ => exact hcall.elim
    | @failed _ _ _ _ _ _ _ _ _ _ hends =>
      cases call with
      | claim | activate => cases hends
      | _ => exact hcall.elim
    | completed | retrying | infraRetried | cancelled | revived => exact hcall.elim

/-- A task that a batch leaves running keeps what was handed out with its run. -/
theorem Task.Moved.handed_of_running (hm : Task.Moved seed now db call t t')
    (hst : t'.state = .running) : t.Handed t' := by
  cases hm with
  | refl => exact .refl t
  | @tail u _ hmoved hturn =>
    have hwhole : Task.Moved seed now db call t t' := hmoved.tail hturn
    obtain ⟨v, _, _, hmove, rfl⟩ := hturn
    cases hmove with
    | booked | started => exact hwhole.handed trivial
    | followed _ hq => exact absurd hst hq.ne_running
    | rollingBack _ _ _ _ _ hq => exact absurd hst hq.ne_running
    | retrying _ _ _ _ hq => exact absurd hst hq.ne_running
    | completed | failed | infraRetried | cancelled | revived => cases hst

/-- A later row of a receipt: the same claim, with the lease it has now. -/
def ClaimedRun.Renewed (row row' : ClaimedRun) : Prop :=
  row' = { row with claimExpiresAtEpochMs := row'.claimExpiresAtEpochMs }

/-- A row is its own later row. -/
theorem ClaimedRun.Renewed.refl (row : ClaimedRun) : row.Renewed row := rfl

/-- A later row of a later row is one. -/
theorem ClaimedRun.Renewed.trans {a b c : ClaimedRun} (h : a.Renewed b) (h' : b.Renewed c) :
    a.Renewed c := by
  unfold ClaimedRun.Renewed at *
  rw [h', h]

/-- The receipt of a run that is still held is a later row of its receipt. -/
theorem Run.Holding.renewed (hr : r.Holding r') (ht : t.Handed t') :
    (claimedRun token r t).Renewed (claimedRun token r' t') := by
  unfold ClaimedRun.Renewed claimedRun
  rw [hr.runId, hr.taskId, hr.attempt, hr.claimGen, hr.leaseMs, hr.wake, ht.taskName, ht.params,
    ht.headers, ht.retryStrategy, ht.maxAttempts, ht.infraRetries]

/-- A run a batch adds waits for its turn. -/
theorem Run.Born.queued (h : Run.Born seed now db call r) : r.state.Queued := by
  cases h with
  | first | revived => trivial
  | followed _ _ _ hq => exact hq

/-- A run that a delivery leaves under a token was held under it, or this delivery took it. -/
theorem Delivers.held (hd : Delivers s b now)
    (hr' : r' ∈ heldRuns (b.after now s.db) queue token) :
    (∃ c, b.call = .claim c ∧ c.queue = queue ∧ c.claimToken = token ∧
      ∃ r ∈ s.db.runs, claimGuard s.db now c r) ∨
      ∃ r ∈ heldRuns s.db queue token, r.Holding r' := by
  obtain ⟨hr', hq, htoken, hst⟩ := mem_heldRuns.mp hr'
  obtain ⟨r, hr, rfl | hm⟩ | hborn := hd.effect.runs.before r' hr'
  · exact Or.inr ⟨r', mem_heldRuns.mpr ⟨hr, hq, htoken, hst⟩, .refl r'⟩
  · obtain ⟨c, hcall, hc, hg, rfl⟩ | ⟨hst', htoken', hholding⟩ := hm.held hst htoken
    · exact Or.inl ⟨c, hcall, (hg.candidate hr).1.1.symm.trans hq, hc, r, hr, hg⟩
    · exact Or.inr ⟨r, mem_heldRuns.mpr ⟨hr, hholding.queue.symm.trans hq, htoken', hst'⟩, hholding⟩
  · exact absurd hst hborn.queued.ne_running

/-! ## Runs of the store -/

/-- The delivery that took every run the token holds. -/
structure Selected (s : Sys) (queue token : String) (e : Delivery) (c : ClaimCall) : Prop where
  delivered : e ∈ s.history
  claims : e.batch.call = .claim c
  sameQueue : c.queue = queue
  sameToken : c.claimToken = token
  took : ∃ r ∈ e.before.runs, claimGuard e.before e.now c r
  held : ∀ r ∈ heldRuns s.db queue token, ∀ t ∈ s.db.tasks, runOwnedByTask r t →
    ∃ r₀ ∈ heldRuns e.after queue token, ∃ t₀ ∈ e.after.tasks, runOwnedByTask r₀ t₀ ∧
      (claimedRun token r₀ t₀).Renewed (claimedRun token r t)

/-- A step that takes nothing under the token keeps the delivery that took what it holds. -/
theorem Selected.deliver {e : Delivery} {c : ClaimCall} (h : Selected s queue token e c)
    (hd : Delivers s b now) (hkept : ∀ r' ∈ heldRuns (b.after now s.db) queue token,
      ∃ r ∈ heldRuns s.db queue token, r.Holding r') :
    Selected (s.deliver b now) queue token e c := by
  refine ⟨List.mem_cons_of_mem _ h.delivered, h.claims, h.sameQueue, h.sameToken, h.took,
    fun r' hr' t' ht' hown' => ?_⟩
  obtain ⟨r, hr, hholding⟩ := hkept r' hr'
  obtain ⟨t, ht, hown⟩ := hd.course.inv.owner r (mem_heldRuns.mp hr).1
  obtain ⟨u, hu, hmoved⟩ := hd.effect.tasks.after t ht
  have hmoved : Task.Moved b.seed now s.db b.call t u := hmoved
  obtain rfl : u = t' := (b.after now s.db).task_unique hu ht'
    (hmoved.same.taskId.trans (hown.1.trans (hholding.taskId.symm.trans hown'.1.symm)))
  obtain ⟨hmem', _, _, hst'⟩ := mem_heldRuns.mp hr'
  have hst : u.state = .running :=
    (hd.inv.state_eq hmem' ht' hown'.1.symm (by simp [hst'])).trans hst'
  obtain ⟨r₀, hr₀, t₀, ht₀, hown₀, hrenewed⟩ := h.held r hr t ht hown
  exact ⟨r₀, hr₀, t₀, ht₀, hown₀,
    hrenewed.trans (hholding.renewed (hmoved.handed_of_running hst))⟩

/-- All a token holds was taken by one delivery. -/
theorem Reachable.selected (h : Reachable Repeats s) (queue token : String)
    (hheld : heldRuns s.db queue token ≠ []) : ∃ e c, Selected s queue token e c := by
  refine h.induct (P := fun s => heldRuns s.db queue token ≠ [] →
    ∃ e c, Selected s queue token e c) (fun _ _ hrepeats => hrepeats) (fun hne => absurd rfl hne)
    (fun s b now hd ih hheld => ?_) hheld
  by_cases htakes : ∃ c, b.call = .claim c ∧ c.queue = queue ∧ c.claimToken = token ∧
      ∃ r ∈ s.db.runs, claimGuard s.db now c r
  · obtain ⟨c, hcall, hq, htoken, htook⟩ := htakes
    exact ⟨_, c, List.mem_cons_self, hcall, hq, htoken, htook, fun r hr t ht hown =>
      ⟨r, hr, t, ht, hown, .refl _⟩⟩
  · have hkept : ∀ r' ∈ heldRuns (b.after now s.db) queue token,
        ∃ r ∈ heldRuns s.db queue token, r.Holding r' :=
      fun r' hr' => (hd.held hr').resolve_left htakes
    obtain ⟨r', hr'⟩ := List.exists_mem_of_ne_nil _ hheld
    obtain ⟨r, hr, _⟩ := hkept r' hr'
    obtain ⟨e, c, hselected⟩ := ih (List.ne_nil_of_mem hr)
    exact ⟨e, c, hselected.deliver hd hkept⟩

/-- The limit of the claims under a token, when none of them has a greater one. -/
def TokenLimit (s : Sys) (queue token : String) (k : ℕ) : Prop :=
  ∀ e ∈ s.history, ∀ c, e.batch.call = .claim c → c.queue = queue → c.claimToken = token →
    c.limit ≤ k

/-- A token holds no more runs than its claims' limit. -/
theorem Reachable.length_heldRuns (h : Reachable Repeats s) {k : ℕ}
    (hlimit : TokenLimit s queue token k) : (heldRuns s.db queue token).length ≤ k := by
  refine h.induct (P := fun s => TokenLimit s queue token k →
    (heldRuns s.db queue token).length ≤ k) (fun _ _ hrepeats => hrepeats) (fun _ => Nat.zero_le k)
    (fun s b now hd ih hlimit => ?_) hlimit
  by_cases htakes : ∃ c, b.call = .claim c ∧ c.queue = queue ∧ c.claimToken = token ∧
      ∃ r ∈ s.db.runs, claimGuard s.db now c r
  · obtain ⟨c, hcall, rfl, rfl, r, _, hg⟩ := htakes
    have hle := hlimit _ List.mem_cons_self c hcall rfl rfl
    obtain ⟨seed, call⟩ := b
    obtain rfl : call = .claim c := hcall
    exact (length_heldRuns_claim hg.free).trans hle
  · have hids : ∀ r' ∈ heldRuns (b.after now s.db) queue token,
        r'.runId ∈ (heldRuns s.db queue token).map Run.runId := by
      intro r' hr'
      obtain ⟨r, hr, hholding⟩ := (hd.held hr').resolve_left htakes
      rw [hholding.runId]
      exact List.mem_map_of_mem hr
    refine (length_le_of_runIds (heldRuns_nodup _ _ _) (fun r hr => (mem_heldRuns.mp hr).1)
      hids).trans ?_
    rw [List.length_map]
    exact ih fun e he => hlimit e (List.mem_cons_of_mem _ he)

/-- Every delivery left a database that is whole, and its rows in their bounds. -/
theorem Reachable.history_wellformed (h : Reachable Repeats s)
    (hvalid : ∀ e ∈ s.history, e.batch.call.Valid) :
    ∀ e ∈ s.history, Inv e.after ∧ Wellformed e.after := by
  have hagain : ∀ b db, Repeats b db → b.call.Repeatable := fun _ _ hrepeats => hrepeats
  induction h with
  | init => exact fun e he => absurd he List.not_mem_nil
  | step hreach hstep ih =>
    have hnext := Reachable.step hreach hstep
    obtain ⟨b, now, rfl, hd⟩ := (hreach.course hagain).step hagain hstep
    intro e he
    obtain rfl | he := List.mem_cons.mp he
    · exact ⟨hd.inv, (hnext.wellformed hvalid).2⟩
    · exact ih (fun e he => hvalid e (List.mem_cons_of_mem _ he)) e he

/-- What a delivery of a claim does, and the rows it answers. -/
structure Receipted (s : Sys) (seed : String) (c : ClaimCall) (now : ℤ) (rows : List ClaimedRun) :
    Prop where
  /-- The answer is every run the token holds. -/
  answers : ClaimAnswers (claim seed c now s.db).db c rows
  /-- Under a token that held some it took nothing and disturbed nothing, and answers no row that the
  delivery which took them did not, as that one answered it. -/
  again : heldRuns s.db c.queue c.claimToken ≠ [] → (claim seed c now s.db).won = none ∧
    Undisturbed s.db (claim seed c now s.db).db ∧
    ∃ e ∈ s.history, ∃ c₀, e.batch.call = .claim c₀ ∧ c₀.queue = c.queue ∧
      c₀.claimToken = c.claimToken ∧ (∃ r ∈ e.before.runs, claimGuard e.before e.now c₀ r) ∧
      ∃ rows₀, ClaimAnswers e.after c₀ rows₀ ∧ ∀ row ∈ rows, ∃ row₀ ∈ rows₀, row₀.Renewed row
  /-- Under a token that held none it answers the runs it took. -/
  takes : heldRuns s.db c.queue c.claimToken = [] →
    ∀ r', r' ∈ heldRuns (claim seed c now s.db).db c.queue c.claimToken ↔
      ∃ r ∈ s.db.runs, claimGuard s.db now c r ∧ r' = claimAssignments s.db seed now c r
  /-- The task of a run it answers is running, and no wait of the run is left. -/
  running : ∀ r ∈ heldRuns (claim seed c now s.db).db c.queue c.claimToken,
    (∀ t ∈ (claim seed c now s.db).db.tasks, runOwnedByTask r t → t.state = .running) ∧
      ∀ w ∈ (claim seed c now s.db).db.waits, w.runId ≠ r.runId

/-- In every reachable state whose calls passed the port's checks: a token holds no more runs than
the limit its claims carry, and a delivery of a claim, the first or again, takes nothing while its
token holds a run and answers what the delivery that took it answered. -/
theorem reachable_receipts (h : Reachable Repeats s)
    (hvalid : ∀ e ∈ s.history, e.batch.call.Valid) :
    (∀ queue token k, TokenLimit s queue token k → (heldRuns s.db queue token).length ≤ k) ∧
      ∀ seed (c : ClaimCall) now, Step Repeats s (s.deliver ⟨seed, .claim c⟩ now) →
        (Call.claim c).Valid → ∃ rows, Receipted s seed c now rows := by
  refine ⟨fun queue token k hlimit => h.length_heldRuns hlimit, fun seed c now hstep hcall => ?_⟩
  have hagain : ∀ b db, Repeats b db → b.call.Repeatable := fun _ _ hrepeats => hrepeats
  have hinv : Inv s.db := (h.course hagain).inv
  have hnext := Reachable.step h hstep
  have hvalid' : ∀ e ∈ (s.deliver ⟨seed, .claim c⟩ now).history, e.batch.call.Valid := by
    intro e he
    obtain rfl | he := List.mem_cons.mp he
    · exact hcall
    · exact hvalid e he
  have hinv' : Inv (claim seed c now s.db).db := (hnext.course hagain).inv
  obtain ⟨rows, hanswers⟩ := hinv'.answers (hnext.wellformed hvalid').2 c
  refine ⟨rows, hanswers, fun hheld => ?_, fun hfree r' => mem_heldRuns_claim hfree,
    fun r hr => ?_⟩
  -- The token holds a run, so the delivery takes nothing: it reads what an earlier one took.
  · obtain ⟨hlost, hundisturbed⟩ := claim_undisturbed seed now hinv
      (h.lastRun hagain) hheld
    obtain ⟨e, c₀, hselected⟩ := h.selected c.queue c.claimToken hheld
    obtain ⟨hinv₀, hwell₀⟩ := h.history_wellformed hvalid e hselected.delivered
    obtain ⟨rows₀, hanswers₀⟩ := hinv₀.answers hwell₀ c₀
    refine ⟨hlost, hundisturbed, e, hselected.delivered, c₀, hselected.claims, hselected.sameQueue,
      hselected.sameToken, hselected.took, rows₀, hanswers₀, fun row hrow => ?_⟩
    obtain ⟨r, hr, t', ht', hown', rfl⟩ := hanswers.each row hrow
    have hr : r ∈ heldRuns s.db c.queue c.claimToken := by
      unfold heldRuns at hr ⊢
      rwa [hundisturbed.runs] at hr
    obtain ⟨t, ht, stamp, at', rfl⟩ := hundisturbed.tasks.before t' ht'
    obtain ⟨r₀, hr₀, t₀, ht₀, hown₀, hrenewed⟩ := hselected.held r hr t ht hown'
    rw [← hselected.sameQueue, ← hselected.sameToken] at hr₀
    refine ⟨claimedRun c₀.claimToken r₀ t₀, hanswers₀.row hr₀ ht₀ hown₀, ?_⟩
    rw [hselected.sameToken]
    exact hrenewed
  · obtain ⟨hmem, _, _, hst⟩ := mem_heldRuns.mp hr
    refine ⟨fun t ht hown => ?_, fun w hw hid => hinv'.held.no_wait hw hmem (by simp [hst]) hid.symm⟩
    exact (hinv'.state_eq hmem ht hown.1.symm (by simp [hst])).trans hst

/-- The claim of a run that was activated since is delivered again. -/
theorem reachable_receipts_runningOne :
    (heldRuns runningOne.db "q" "w1").map Run.runId = ["r1"] ∧
      (heldRuns runningOne.db "q" "w1").length ≤ 1 ∧
      ∃ rows, Receipted runningOne "b2" ⟨"q", "w1", 1000, 1⟩ 3 rows := by
  obtain ⟨hlimits, hdeliveries⟩ := reachable_receipts (runningOne_reachable _) runningOne_valid
  refine ⟨by decide, hlimits "q" "w1" 1 (fun e he c hcall _ _ => ?_),
    hdeliveries "b2" ⟨"q", "w1", 1000, 1⟩ 3
      (.again claimOne 3 (by decide) (by decide) trivial) ⟨by decide, by decide⟩⟩
  obtain h | h | h := runningOne_calls e he
  · rw [h] at hcall
    cases hcall
  · rw [h] at hcall
    obtain rfl := Call.claim.inj hcall
    exact le_rfl
  · rw [h] at hcall
    cases hcall

end Durablerun
