import Durablerun.Operator.TaskAdmission

/-!
# What an operator is told is what the engine does

Each read of `task-admission` is held to the statement it speaks of, over tables that hold any values:
the retry read to `retry-task`'s compare-and-set, a run's `claimTakes` to a claim that has room for
every run, and `sweepCancels` to the sweep's cancellation.

Reference: `packages/core/src/statements/operator.ts` and
`packages/core/src/statements/retry-task.ts`.
-/

namespace Durablerun.Stored.TaskAdmission

open ThreeValued

variable {f : Functions} {db : Db} {now : ℤ} {queue taskId : String} {row : RetryConjunct → Truth}

/-! ## The retry guard -/

/-- The list of conjuncts leaves none out. -/
theorem mem_RETRY_CONJUNCTS (c : RetryConjunct) : c ∈ RETRY_CONJUNCTS := by
  cases c <;> decide

/-- A conjunct that guards a computation computes nothing itself. -/
theorem computesWith_of_mem {c d : RetryConjunct} (h : c ∈ RETRY_CONJUNCT_COMPUTES_WITH d) :
    RETRY_CONJUNCT_COMPUTES_WITH c = [] := by
  cases d <;> simp only [RETRY_CONJUNCT_COMPUTES_WITH, List.mem_cons, List.not_mem_nil, or_false] at h
  all_goals rcases h with rfl | h <;> first | rfl | (rcases h with rfl | rfl <;> rfl)

/-- The condition a computation is made under. -/
def counters (c : RetryConjunct) : Expr RetryConjunct .condition :=
  Expr.conjunction ((RETRY_CONJUNCT_COMPUTES_WITH c).map Expr.atom)

/-- The counters hold where each that the computation uses does. -/
theorem counters_yes {c : RetryConjunct} :
    (counters c).value row = .yes ↔ ∀ n ∈ RETRY_CONJUNCT_COMPUTES_WITH c, row n = .yes := by
  rw [counters, Expr.value_conjunction, List.forall_mem_map]
  rfl

/-- A conjunct that computes with no counter is asked of every row. -/
theorem counters_of_none {c : RetryConjunct} (h : RETRY_CONJUNCT_COMPUTES_WITH c = []) :
    (counters c).value row = .yes := by
  rw [counters_yes, h]
  exact fun _ hn => absurd hn List.not_mem_nil

/-- A conjunct that computes with no counter is itself in the guard. -/
theorem heldConjunct_of_none {c : RetryConjunct} (h : RETRY_CONJUNCT_COMPUTES_WITH c = []) :
    heldConjunct c = .atom c := by
  rw [heldConjunct, h]

/-- A conjunct that computes with counters is computed under them. -/
theorem heldConjunct_of_counters {c : RetryConjunct} (h : RETRY_CONJUNCT_COMPUTES_WITH c ≠ []) :
    heldConjunct c =
      .equals (.caseWhen (counters c) (Expr.flag (.atom c)) (.literal 0)) 1 := by
  unfold heldConjunct
  split
  · exact absurd ‹_› h
  · rfl

/-- A conjunct that computes with no counter is asked outright. -/
theorem askedFlagOf_of_none {c : RetryConjunct} (h : RETRY_CONJUNCT_COMPUTES_WITH c = []) :
    askedFlagOf c = Expr.flag (.atom c) := by
  rw [askedFlagOf, h]

/-- A conjunct that computes with counters is asked under them, and answers 2 where they fail. -/
theorem askedFlagOf_of_counters {c : RetryConjunct} (h : RETRY_CONJUNCT_COMPUTES_WITH c ≠ []) :
    askedFlagOf c = .caseWhen (counters c) (Expr.flag (.atom c)) (.literal 2) := by
  unfold askedFlagOf
  split
  · exact absurd ‹_› h
  · rfl

/-- A flag asked under a condition, with another value where it is not asked, is 1 where both hold. -/
theorem caseWhen_one {p : Expr RetryConjunct .condition} {c : RetryConjunct} {n : ℤ} (hn : n ≠ 1) :
    (Expr.caseWhen p (Expr.flag (.atom c)) (.literal n)).value row = 1 ↔
      p.value row = .yes ∧ row c = .yes := by
  rw [Expr.value]
  split_ifs with hp
  · rw [Expr.value_flag]
    exact (and_iff_right hp).symm
  · exact iff_of_false hn fun h => hp h.1

/-- The guard holds a conjunct where it holds of the row, and so does every counter it computes
with. -/
theorem heldConjunct_yes {c : RetryConjunct} :
    (heldConjunct c).value row = .yes ↔ (counters c).value row = .yes ∧ row c = .yes := by
  by_cases hnone : RETRY_CONJUNCT_COMPUTES_WITH c = []
  · rw [heldConjunct_of_none hnone]
    exact (and_iff_right (counters_of_none hnone)).symm
  · rw [heldConjunct_of_counters hnone, Expr.value, Truth.ofBool_eq_yes, decide_eq_true_iff]
    exact caseWhen_one (by decide)

/-- The read answers 1 of a conjunct exactly where the guard holds it. -/
theorem askedFlagOf_one {c : RetryConjunct} :
    (askedFlagOf c).value row = 1 ↔ (heldConjunct c).value row = .yes := by
  rw [heldConjunct_yes]
  by_cases hnone : RETRY_CONJUNCT_COMPUTES_WITH c = []
  · rw [askedFlagOf_of_none hnone, Expr.value_flag]
    exact (and_iff_right (counters_of_none hnone)).symm
  · rw [askedFlagOf_of_counters hnone]
    exact caseWhen_one (by decide)

/-- The guard admits a row exactly where the read answers 1 of every conjunct. -/
theorem retryAdmission_yes :
    retryAdmission.value row = .yes ↔ ∀ c, (askedFlagOf c).value row = 1 := by
  rw [retryAdmission, Expr.value_conjunction, List.forall_mem_map]
  refine ⟨fun h c => ?_, fun h c _ => ?_⟩
  · exact askedFlagOf_one.mpr (h c (mem_RETRY_CONJUNCTS c))
  · exact askedFlagOf_one.mp (h c)

/-! ## What is computed -/

/-- A conjunct asked under its counters is asked where they all hold. -/
theorem asked_under {c d : RetryConjunct} {n : ℤ}
    (h : (Expr.caseWhen (counters d) (Expr.flag (.atom d)) (.literal n)).Asks row c) :
    ∀ n ∈ RETRY_CONJUNCT_COMPUTES_WITH c, row n = .yes := by
  rw [Expr.asks_caseWhen, counters, Expr.asks_conjunction, Expr.asks_flag] at h
  rcases h with ⟨_, hp, hc⟩ | ⟨hd, rfl⟩
  · obtain ⟨c', hc', rfl⟩ := List.mem_map.mp hp
    obtain rfl : c = c' := hc
    rw [computesWith_of_mem hc']
    exact fun _ hn => absurd hn List.not_mem_nil
  · exact counters_yes.mp hd

/-- A conjunct asked of every row computes with no counter. -/
theorem asked_of_none {c d : RetryConjunct} (hnone : RETRY_CONJUNCT_COMPUTES_WITH d = [])
    (h : c = d) : ∀ n ∈ RETRY_CONJUNCT_COMPUTES_WITH c, row n = .yes := by
  rw [h, hnone]
  exact fun _ hn => absurd hn List.not_mem_nil

/-- The read of a conjunct computes with no counter out of its range. -/
theorem askedFlagOf_asks {c d : RetryConjunct} (h : (askedFlagOf d).Asks row c) :
    ∀ n ∈ RETRY_CONJUNCT_COMPUTES_WITH c, row n = .yes := by
  by_cases hnone : RETRY_CONJUNCT_COMPUTES_WITH d = []
  · rw [askedFlagOf_of_none hnone, Expr.asks_flag] at h
    exact asked_of_none hnone h
  · rw [askedFlagOf_of_counters hnone] at h
    exact asked_under h

/-- The guard computes with no counter out of its range. -/
theorem retryAdmission_asks {c : RetryConjunct} (h : retryAdmission.Asks row c) :
    ∀ n ∈ RETRY_CONJUNCT_COMPUTES_WITH c, row n = .yes := by
  rw [retryAdmission, Expr.asks_conjunction] at h
  obtain ⟨_, hp, hc⟩ := h
  obtain ⟨d, -, rfl⟩ := List.mem_map.mp hp
  by_cases hnone : RETRY_CONJUNCT_COMPUTES_WITH d = []
  · rw [heldConjunct_of_none hnone] at hc
    exact asked_of_none hnone hc
  · rw [heldConjunct_of_counters hnone] at hc
    exact asked_under hc

/-! ## The retry read and the sweep read -/

/-- A flag is 1 where its condition holds. -/
theorem flagOf_one {p : Truth} : flagOf p = 1 ↔ p = .yes := by
  unfold flagOf
  split_ifs with hp <;> simp [hp]

/-- A row is answered with 1 throughout where it is failed and the guard admits it. -/
theorem retryValues_one {t : Task} :
    (∀ g, retryValues f db t g = 1) ↔
      t.state.eq (.text "failed") = .yes ∧ retryAdmission.value (RETRY_ADMITS f db t) = .yes := by
  rw [retryAdmission_yes, ← flagOf_one]
  refine ⟨fun h => ⟨h .failed, fun c => h (.held c)⟩, fun h g => ?_⟩
  cases g with
  | failed => exact h.1
  | held name => exact h.2 name

/-- The retry read answers the task with 1 throughout exactly where `retry-task` revives it. -/
theorem retryRead_iff_wins {runId : String} {stamp : Value} :
    (∃ answer ∈ taskAdmissionRetryRead f db queue taskId, ∀ g, answer g = 1) ↔
      (reviveCas f db now queue taskId runId stamp).Wins db.tasks := by
  have hpasses : ∀ t, (reviveCas f db now queue taskId runId stamp).Takes t ↔
      (t.taskId.eq (.text taskId) = .yes ∧ t.queue.eq (.text queue) = .yes) ∧
        t.state.eq (.text "failed") = .yes ∧ retryAdmission.value (RETRY_ADMITS f db t) = .yes := by
    intro t
    simp [Update.Takes, reviveCas, Truth.all_eq_yes, and_assoc]
  constructor
  · rintro ⟨_, hmem, h⟩
    obtain ⟨t, ht, rfl⟩ := List.mem_map.mp hmem
    obtain ⟨ht, hnamed⟩ := mem_select.mp ht
    exact ⟨t, ht, (hpasses t).mpr ⟨Truth.and_eq_yes.mp hnamed, retryValues_one.mp h⟩⟩
  · rintro ⟨t, ht, htakes⟩
    obtain ⟨hnamed, hadmits⟩ := (hpasses t).mp htakes
    exact ⟨_, List.mem_map_of_mem (mem_select.mpr ⟨ht, Truth.and_eq_yes.mpr hnamed⟩),
      retryValues_one.mpr hadmits⟩

/-- The sweep read answers that the task is cancelled exactly where the sweep's cancellation wins. -/
theorem sweepRead_iff_wins {stamp : Value} :
    (∃ answer ∈ taskAdmissionSweepRead db now queue taskId, answer.sweepCancels = 1) ↔
      (cancelTransition f db now queue taskId stamp true false).Wins db.tasks := by
  have hpasses : ∀ t, (cancelTransition f db now queue taskId stamp true false).Takes t ↔
      (t.taskId.eq (.text taskId) = .yes ∧ t.queue.eq (.text queue) = .yes) ∧
        sweepCancelsDue db now queue t = .yes := by
    intro t
    simp only [Update.Takes, cancelTransition, cancelCas, sweepCancelsDue, Truth.all_eq_yes]
    simp
    tauto
  constructor
  · rintro ⟨_, hmem, h⟩
    obtain ⟨t, ht, rfl⟩ := List.mem_map.mp hmem
    obtain ⟨ht, hnamed⟩ := mem_select.mp ht
    exact ⟨t, ht, (hpasses t).mpr ⟨Truth.and_eq_yes.mp hnamed, flagOf_one.mp h⟩⟩
  · rintro ⟨t, ht, htakes⟩
    obtain ⟨hnamed, hdue⟩ := (hpasses t).mp htakes
    exact ⟨_, List.mem_map_of_mem (mem_select.mpr ⟨ht, Truth.and_eq_yes.mpr hnamed⟩),
      flagOf_one.mpr hdue⟩

/-! ## Claims -/

/-- Two rows of `tasks` that own one run are one row. -/
theorem owner_unique {r : Run} {t t' : Task} (ht : t ∈ db.tasks) (ht' : t' ∈ db.tasks)
    (howned : runOwnedByTask r t = .yes) (howned' : runOwnedByTask r t' = .yes) : t = t' := by
  refine eq_of_key db.tasks_key ht ht' ?_
  calc t.taskId.place = r.taskId.place := (Value.eq_yes.mp (Truth.and_eq_yes.mp howned).1).2.2
    _ = t'.taskId.place := (Value.eq_yes.mp (Truth.and_eq_yes.mp howned').1).2.2.symm

/-- A run joins one task at most. -/
theorem length_owners (r : Run) : (select db.tasks (runOwnedByTask r)).length ≤ 1 := by
  have hkey : (select db.tasks (runOwnedByTask r)).Pairwise
      fun a b => a.taskId.place ≠ b.taskId.place := db.tasks_key.filter _
  match howners : select db.tasks (runOwnedByTask r) with
  | [] | [_] => simp
  | a :: b :: _ =>
    have ha := mem_select.mp (howners ▸ List.mem_cons_self : a ∈ select db.tasks (runOwnedByTask r))
    have hb := mem_select.mp
      (howners ▸ List.mem_cons_of_mem _ List.mem_cons_self : b ∈ select db.tasks (runOwnedByTask r))
    rw [howners, List.pairwise_cons] at hkey
    exact absurd (congrArg (fun t : Task => t.taskId.place) (owner_unique ha.1 hb.1 ha.2 hb.2))
      (hkey.1 b List.mem_cons_self)

/-- A task an outer join did not find passes no claim. -/
theorem claimOwed_absent {state : String} {r : Run} :
    claimOwed f db now queue state r .absent ≠ .yes := by
  intro h
  have heligible := Truth.all_eq_yes.mp (Truth.and_eq_yes.mp h).2 _ List.mem_cons_self
  exact Value.isIn_null (Truth.and_eq_yes.mp heligible).1

/-- A claim's candidates of a state are the runs the operator's flag of that state is 1 of. -/
theorem mem_claimCandidates {state : String} {r : Run} :
    r ∈ claimCandidates f db now queue state ↔
      r ∈ db.runs ∧ ∃ t ∈ db.tasks, runOwnedByTask r t = .yes ∧
        claimOwed f db now queue state r t = .yes := by
  have howed : ∀ r t, Truth.all [r.queue.eq (.text queue), r.state.eq (.text state),
      runAvailableDue now r, claimEligibility f db now r t] = .yes ↔
        claimOwed f db now queue state r t = .yes := by
    intro r t
    simp [claimOwed, dueRuns, Truth.all_eq_yes, and_assoc]
  unfold claimCandidates
  simp only [List.mem_map, mem_select, List.mem_flatMap, howed]
  constructor
  · rintro ⟨_, ⟨⟨r, hr, t, ⟨ht, howned⟩, rfl⟩, hpasses⟩, rfl⟩
    exact ⟨hr, t, ht, howned, hpasses⟩
  · rintro ⟨hr, t, ht, howned, hpasses⟩
    exact ⟨(r, t), ⟨⟨r, hr, t, ⟨ht, howned⟩, rfl⟩, hpasses⟩, rfl⟩

/-- One run has one candidate at most, of one state. -/
theorem length_candidates_of_run (r : Run) :
    (((select db.tasks (runOwnedByTask r)).map fun t => (r, t)).filter fun p => decide
        (claimOwed f db now queue "pending" p.1 p.2 = .yes)).length +
      (((select db.tasks (runOwnedByTask r)).map fun t => (r, t)).filter fun p => decide
        (claimOwed f db now queue "sleeping" p.1 p.2 = .yes)).length ≤ 1 := by
  have hexclusive : ∀ t, ¬ (claimOwed f db now queue "pending" r t = .yes ∧
      claimOwed f db now queue "sleeping" r t = .yes) := by
    rintro t ⟨hp, hs⟩
    simp only [claimOwed, dueRuns, Truth.and_eq_yes, Truth.all_eq_yes, List.forall_mem_cons] at hp hs
    have hstates := (Value.eq_yes.mp hp.1.2.1).2.2.symm.trans (Value.eq_yes.mp hs.1.2.1).2.2
    exact absurd hstates (by decide +kernel)
  have hone : (select db.tasks (runOwnedByTask r)).length ≤ 1 := length_owners r
  rcases howners : select db.tasks (runOwnedByTask r) with _ | ⟨t, _ | ⟨t', rest⟩⟩
  · simp
  · have ht := hexclusive t
    by_cases hp : claimOwed f db now queue "pending" r t = .yes
    · have hs : claimOwed f db now queue "sleeping" r t ≠ .yes := fun hs => ht ⟨hp, hs⟩
      simp [hp, hs]
    · by_cases hs : claimOwed f db now queue "sleeping" r t = .yes <;> simp [hp, hs]
  · simp [howners] at hone

/-- Where each row yields one element at most of two lists, the two are no longer than the rows. -/
theorem length_flatMap_add_le {α β : Type} {g h : α → List β} {l : List α}
    (hone : ∀ a, (g a).length + (h a).length ≤ 1) :
    (l.flatMap g).length + (l.flatMap h).length ≤ l.length := by
  induction l with
  | nil => simp
  | cons a l ih =>
    have ha := hone a
    simp only [List.flatMap_cons, List.length_append, List.length_cons]
    omega

/-- A claim has no more candidates than there are runs. -/
theorem length_claimCandidates :
    (claimCandidates f db now queue "pending").length +
      (claimCandidates f db now queue "sleeping").length ≤ db.runs.length := by
  have hfilter : ∀ state, (claimCandidates f db now queue state).length =
      (db.runs.flatMap fun r => ((select db.tasks (runOwnedByTask r)).map fun t => (r, t)).filter
        fun p => decide (claimOwed f db now queue state p.1 p.2 = .yes)).length := by
    intro state
    rw [claimCandidates, List.length_map, select, List.filter_flatMap]
    congr! 5
    simp [claimOwed, dueRuns, Truth.all_eq_yes, and_assoc]
  rw [hfilter, hfilter]
  exact length_flatMap_add_le length_candidates_of_run

/-- A leg with room for every run holds every candidate. -/
theorem claimLeg_perm {state : String} {limit : ℕ}
    (h : (claimCandidates f db now queue state).length ≤ limit) :
    (claimLeg f db now queue state limit).Perm (claimCandidates f db now queue state) := by
  rw [claimLeg, List.take_of_length_le (by rwa [List.length_insertionSort])]
  exact List.perm_insertionSort _ _

/-- With room for every run, a claim's candidates are all there are. -/
theorem mem_candidateRunIds {limit : ℕ} (h : db.runs.length ≤ limit) {id : Value} :
    id ∈ candidateRunIds f db now queue limit ↔
      ∃ r, (r ∈ claimCandidates f db now queue "pending" ∨
        r ∈ claimCandidates f db now queue "sleeping") ∧ r.runId = id := by
  have hcount : (claimCandidates f db now queue "pending").length +
      (claimCandidates f db now queue "sleeping").length ≤ db.runs.length := length_claimCandidates
  have hpending : (claimLeg f db now queue "pending" limit).Perm
      (claimCandidates f db now queue "pending") := claimLeg_perm (by omega)
  have hsleeping : (claimLeg f db now queue "sleeping" limit).Perm
      (claimCandidates f db now queue "sleeping") := claimLeg_perm (by omega)
  have hlegs : (claimLeg f db now queue "pending" limit ++
      claimLeg f db now queue "sleeping" limit).length ≤ limit := by
    rw [List.length_append, hpending.length_eq, hsleeping.length_eq]
    omega
  rw [candidateRunIds, List.take_of_length_le (by rwa [List.length_insertionSort])]
  simp only [List.mem_map, List.mem_insertionSort, List.mem_append, hpending.mem_iff,
    hsleeping.mem_iff]

/-- A claim with room for every run, under a token that holds nothing, takes its candidates. -/
theorem claimCas_takes {claimToken : String} {leaseMs : ℤ} {limit : ℕ} {stamp : Value}
    (hheld : held db queue claimToken ≠ .yes) (hroom : db.runs.length ≤ limit)
    (hfits : epochAdditionFits f (.integer now) (.integer leaseMs) = .yes) {r : Run}
    (hr : r ∈ db.runs) :
    (claimCas f db now queue claimToken leaseMs limit stamp).Takes r ↔
      r ∈ claimCandidates f db now queue "pending" ∨
        r ∈ claimCandidates f db now queue "sleeping" := by
  have hno : (held db queue claimToken).not = .yes := by
    rw [Truth.not_eq_yes]
    exact exists'_no hheld
  have htakes : (claimCas f db now queue claimToken leaseMs limit stamp).Takes r ↔
      r.runId.isIn (candidateRunIds f db now queue limit) = .yes := by
    simp [Update.Takes, claimCas, Truth.all_eq_yes, hno, hfits]
  rw [htakes, Value.isIn_yes]
  constructor
  · rintro ⟨id, hid, heq⟩
    obtain ⟨r', hr', rfl⟩ := (mem_candidateRunIds hroom).mp hid
    have hmem : r' ∈ db.runs := hr'.elim (fun h => (mem_claimCandidates.mp h).1)
      fun h => (mem_claimCandidates.mp h).1
    rwa [eq_of_key db.runs_key hr hmem (Value.eq_yes.mp heq).2.2]
  · intro hcandidate
    have hnamed := db.runs_named r hr
    exact ⟨r.runId, (mem_candidateRunIds hroom).mpr ⟨r, hcandidate, rfl⟩,
      Value.eq_yes.mpr ⟨hnamed, hnamed, rfl⟩⟩

/-- A run is flagged as one a claim takes where it is a candidate of the claim. -/
theorem claimTakes_iff {r : Run} {t : Task} (hr : r ∈ db.runs) (ht : t ∈ leftJoined db r) :
    (runFlags f db now queue r t).claimTakes = true ↔
      r ∈ claimCandidates f db now queue "pending" ∨
        r ∈ claimCandidates f db now queue "sleeping" := by
  have hcandidate : ∀ state, claimOwed f db now queue state r t = .yes ↔
      r ∈ claimCandidates f db now queue state := by
    intro state
    rw [mem_claimCandidates]
    constructor
    · intro howed
      unfold leftJoined at ht
      split at ht
      · rw [List.mem_singleton.mp ht] at howed
        exact absurd howed claimOwed_absent
      · exact ⟨hr, t, (mem_select.mp ht).1, (mem_select.mp ht).2, howed⟩
    · rintro ⟨-, t', ht', howned', howed⟩
      have howner : t' ∈ select db.tasks (runOwnedByTask r) := mem_select.mpr ⟨ht', howned'⟩
      unfold leftJoined at ht
      split at ht
      · rename_i hnone
        exact absurd (hnone ▸ howner) List.not_mem_nil
      · rwa [owner_unique (mem_select.mp ht).1 ht' (mem_select.mp ht).2 howned']
  rw [← hcandidate, ← hcandidate, RunFlags.claimTakes, Bool.or_eq_true, decide_eq_true_iff,
    decide_eq_true_iff, runFlags, flagOf_one, flagOf_one]

/-- An outer join gives every run a row. -/
theorem leftJoined_ne_nil (r : Run) : leftJoined db r ≠ [] := by
  unfold leftJoined
  split
  · exact List.cons_ne_nil _ _
  · assumption

/-- The runs read answers each run that names the task, and no other. -/
theorem mem_runsRead {answer : RunFlags} :
    answer ∈ taskAdmissionRunsRead f db now queue taskId ↔
      ∃ r ∈ db.runs, r.taskId.eq (.text taskId) = .yes ∧
        ∃ t ∈ leftJoined db r, runFlags f db now queue r t = answer := by
  simp only [taskAdmissionRunsRead, List.mem_flatMap, mem_select, List.mem_map, and_assoc]

/-- What an operator is told of a task is what the engine does with it. -/
theorem taskAdmission_told (f : Functions) (db : Db) (now : ℤ) (queue taskId : String) :
    (∀ runId stamp, (∃ answer ∈ taskAdmissionRetryRead f db queue taskId, ∀ g, answer g = 1) ↔
      (reviveCas f db now queue taskId runId stamp).Wins db.tasks) ∧
    (∀ t c, (retryAdmission.Asks (RETRY_ADMITS f db t) c ∨
        ∃ d, (askedFlagOf d).Asks (RETRY_ADMITS f db t) c) →
      ∀ n ∈ RETRY_CONJUNCT_COMPUTES_WITH c, RETRY_ADMITS f db t n = .yes) ∧
    (∀ r ∈ db.runs, r.taskId.eq (.text taskId) = .yes →
      ∃ answer ∈ taskAdmissionRunsRead f db now queue taskId, answer.runId = r.runId) ∧
    (∀ answer ∈ taskAdmissionRunsRead f db now queue taskId,
      ∃ r ∈ db.runs, answer.runId = r.runId ∧ ∀ claimToken leaseMs limit stamp,
        held db queue claimToken ≠ .yes → db.runs.length ≤ limit →
        epochAdditionFits f (.integer now) (.integer leaseMs) = .yes →
          (answer.claimTakes = true ↔
            (claimCas f db now queue claimToken leaseMs limit stamp).Takes r)) ∧
    (∀ stamp, (∃ answer ∈ taskAdmissionSweepRead db now queue taskId, answer.sweepCancels = 1) ↔
      (cancelTransition f db now queue taskId stamp true false).Wins db.tasks) := by
  refine ⟨fun _ _ => retryRead_iff_wins, fun t c h => ?_, fun r hr hnames => ?_,
    fun answer hanswer => ?_, fun _ => sweepRead_iff_wins⟩
  · rcases h with h | ⟨d, h⟩
    · exact retryAdmission_asks h
    · exact askedFlagOf_asks h
  · have hjoined : leftJoined db r ≠ [] := leftJoined_ne_nil r
    obtain ⟨t, ht⟩ := List.exists_mem_of_ne_nil _ hjoined
    exact ⟨_, mem_runsRead.mpr ⟨r, hr, hnames, t, ht, rfl⟩, rfl⟩
  · obtain ⟨r, hr, -, t, ht, rfl⟩ := mem_runsRead.mp hanswer
    refine ⟨r, hr, rfl, fun claimToken leaseMs limit stamp hheld hroom hfits => ?_⟩
    rw [claimTakes_iff hr ht, claimCas_takes hheld hroom hfits hr]

/-- What SQLite answers of the JSON the task below stores. -/
def jsonOfNone : Functions where
  add _ _ := .null
  subtract _ _ := .null
  multiply _ _ := .null
  round _ := .null
  jsonValid v := .ofBool (decide (v = .text "\x7b\"kind\":\"none\"\x7d"))
  jsonType _ path := if path = "$" then .text "object" else if path = "$.kind" then .text "text"
    else .null
  jsonExtract _ path := if path = "$.kind" then .text "none" else .null
  jsonEach _ := [⟨.text "kind", "text"⟩]

/-- A run due at 5, of a task in queue `q`. -/
def dueRun : Run where
  runId := .text "r"
  queue := .text "q"
  taskId := .text "t"
  attempt := 1
  state := .text "pending"
  availableAtMs := 5

/-- The task that owns it. -/
def dueTask : Task where
  taskId := .text "t"
  queue := .text "q"
  retryStrategy := .text "\x7b\"kind\":\"none\"\x7d"
  maxAttempts := 1
  state := .text "pending"
  attempts := 0
  infraRetries := 0

/-- The two, and a run of another queue whose ordinal is a text and whose instant is a blob. -/
def dueDb : Db where
  tasks := [dueTask]
  runs := [dueRun,
    { dueRun with runId := .text "s", queue := .text "p", taskId := .text "u", attempt := .text "x"
                  availableAtMs := .blob [1] }]
  waits := []
  checkpoints := []
  tasks_named := by decide +kernel
  tasks_key := by decide +kernel
  runs_named := by decide +kernel
  runs_key := by decide +kernel

/-- A due run of an admissible task, told as the engine takes it. -/
theorem taskAdmission_told_due :
    (claimCas jsonOfNone dueDb 10 "q" "c" 1000 2 .null).Takes dueRun ∧
      RETRY_ADMITS jsonOfNone dueDb dueTask .infraRetriesInRange = .yes := by
  obtain ⟨-, hasked, hnamed, htakes, -⟩ := taskAdmission_told jsonOfNone dueDb 10 "q" "t"
  constructor
  · obtain ⟨answer, hanswer, hid⟩ := hnamed dueRun (by decide +kernel) (by decide +kernel)
    obtain ⟨r, hr, hid', hiff⟩ := htakes answer hanswer
    have hrun : r = dueRun := eq_of_key dueDb.runs_key hr (by decide +kernel)
      (congrArg Value.place (hid'.symm.trans hid))
    rw [← hrun]
    refine (hiff "c" 1000 2 .null (by decide +kernel) (by decide +kernel) (by decide +kernel)).mp ?_
    have hall : ∀ row ∈ taskAdmissionRunsRead jsonOfNone dueDb 10 "q" "t",
        row.claimTakes = true := by decide +kernel
    exact hall answer hanswer
  · exact hasked dueTask .chargeWithinBudget
      (.inr ⟨.chargeWithinBudget, .inr (.inl ⟨by decide +kernel, .inl rfl⟩)⟩) .infraRetriesInRange
      (by decide)

end Durablerun.Stored.TaskAdmission
