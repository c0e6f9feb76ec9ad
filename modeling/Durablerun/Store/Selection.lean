import Durablerun.Lib.Limited
import Durablerun.Store.ClaimTheorems
import Durablerun.Store.System
import Mathlib.Data.String.Basic

/-!
# The runs a claim takes

The candidates are read as two legs, each limited before they are merged and limited again. They are
the first runs, in the order of their instants, of all that are due and eligible, so a run that a claim
would refuse takes no place of one that it would not.

Reference: `packages/store-libsql/src/store.ts`.
-/

namespace Durablerun

open Relational

variable {db : Db} {seed queue : String} {now : ℤ} {r r' : Run} {k : ℕ}

/-! ## The order -/

instance : Std.Total claimOrder := by
  refine ⟨fun a b => ?_⟩
  unfold claimOrder
  rcases lt_trichotomy (a.availableAtMs.getD 0) (b.availableAtMs.getD 0) with hlt | heq | hlt
  · exact Or.inl (Or.inl hlt)
  · exact (le_total a.runId b.runId).imp (fun hle => Or.inr ⟨heq, hle⟩)
      fun hle => Or.inr ⟨heq.symm, hle⟩
  · exact Or.inr (Or.inl hlt)

instance : IsTrans Run claimOrder := by
  refine ⟨fun a b c hab hbc => ?_⟩
  rcases hab with hab | ⟨hab, hle⟩
  · rcases hbc with hbc | ⟨hbc, _⟩
    · exact Or.inl (hab.trans hbc)
    · exact Or.inl (hbc ▸ hab)
  · rcases hbc with hbc | ⟨hbc, hle'⟩
    · exact Or.inl (hab ▸ hbc)
    · exact Or.inr ⟨hab.trans hbc, hle.trans hle'⟩

/-- The order tells the runs of a table apart. -/
theorem claimOrder_antisymmetric {d : Db} {l : List Run} (hl : ∀ r ∈ l, r ∈ d.runs) :
    List.Antisymmetric claimOrder l := by
  intro a ha b hb hab hba
  refine d.run_unique (hl a ha) (hl b hb) (le_antisymm ?_ ?_)
  · obtain hlt | ⟨_, hle⟩ := hab
    · obtain hlt' | ⟨heq, _⟩ := hba
      · exact absurd hlt hlt'.not_gt
      · exact absurd heq hlt.ne'
    · exact hle
  · obtain hlt | ⟨_, hle⟩ := hba
    · obtain hlt' | ⟨heq, _⟩ := hab
      · exact absurd hlt hlt'.not_gt
      · exact absurd heq hlt.ne'
    · exact hle

/-! ## The first of the runs -/

/-- A run that waits for its turn, is due, and satisfies the claim's eligibility. -/
def claimable (db : Db) (now : ℤ) (queue : String) (r : Run) : Prop :=
  r.state.Queued ∧ claimCandidate db now queue r.state r
deriving Decidable

/-- The first `k` of the claimable runs, in order. -/
def firstClaimable (db : Db) (now : ℤ) (queue : String) (k : ℕ) : List Run :=
  ((db.runs.rows.filter (claimable db now queue)).insertionSort claimOrder).take k

/-- The claimable runs are those of the two legs. -/
theorem claimable_perm : List.Perm (db.runs.rows.filter (claimable db now queue))
    (db.runs.rows.filter (claimCandidate db now queue .pending) ++
      db.runs.rows.filter (claimCandidate db now queue .sleeping)) := by
  have hsplit := List.filter_append_perm (fun r : Run => decide (r.state = .pending))
    (db.runs.rows.filter (claimable db now queue))
  have hpending : (db.runs.rows.filter (claimable db now queue)).filter
      (fun r : Run => decide (r.state = .pending)) =
        db.runs.rows.filter (claimCandidate db now queue .pending) := by
    rw [List.filter_filter]
    refine List.filter_congr fun r _ => ?_
    rw [← Bool.decide_and, decide_eq_decide]
    constructor
    · rintro ⟨hst, _, hcandidate⟩
      exact hst ▸ hcandidate
    · intro hcandidate
      have hst : r.state = .pending := hcandidate.2.1
      exact ⟨hst, by simp [hst], hst ▸ hcandidate⟩
  have hsleeping : (db.runs.rows.filter (claimable db now queue)).filter
      (fun r : Run => !decide (r.state = .pending)) =
        db.runs.rows.filter (claimCandidate db now queue .sleeping) := by
    rw [List.filter_filter]
    refine List.filter_congr fun r _ => ?_
    rw [← decide_not, ← Bool.decide_and, decide_eq_decide]
    constructor
    · rintro ⟨hst, hq, hcandidate⟩
      cases hstate : r.state with
      | sleeping => exact hstate ▸ hcandidate
      | pending => exact absurd hstate hst
      | running | completed | failed | cancelled =>
        rw [hstate] at hq
        exact hq.elim
    · intro hcandidate
      have hst : r.state = .sleeping := hcandidate.2.1
      exact ⟨by simp [hst], by simp [hst], hst ▸ hcandidate⟩
  rw [hpending, hsleeping] at hsplit
  exact hsplit.symm

/-- The candidates of a claim are the first of the claimable runs. -/
theorem candidateRuns_eq : candidateRuns db now queue k = firstClaimable db now queue k := by
  have hlegs : ∀ r ∈ db.runs.rows.filter (claimCandidate db now queue .pending) ++
      db.runs.rows.filter (claimCandidate db now queue .sleeping), r ∈ db.runs := by
    intro r hr
    rcases List.mem_append.mp hr with hr | hr <;> exact List.mem_of_mem_filter hr
  have hsorted : (db.runs.rows.filter (claimable db now queue)).insertionSort claimOrder =
      (db.runs.rows.filter (claimCandidate db now queue .pending) ++
        db.runs.rows.filter (claimCandidate db now queue .sleeping)).insertionSort claimOrder := by
    refine (((List.perm_insertionSort _ _).trans claimable_perm).trans
      (List.perm_insertionSort _ _).symm).eq_of_pairwise (fun a b ha hb => ?_)
      (List.pairwise_insertionSort _ _) (List.pairwise_insertionSort _ _)
    refine claimOrder_antisymmetric (d := db) (l := db.runs.rows) (fun _ hr => hr) a ?_ b ?_
    · exact List.mem_of_mem_filter ((List.mem_insertionSort _).mp ha)
    · exact hlegs b ((List.mem_insertionSort _).mp hb)
  unfold candidateRuns candidateLeg firstClaimable
  rw [hsorted, List.take_insertionSort_append k (claimOrder_antisymmetric hlegs)]

/-- No two claimable runs are of one task. -/
theorem claimable.sole (hr : r ∈ db.runs) (hr' : r' ∈ db.runs) (h : claimable db now queue r)
    (h' : claimable db now queue r') (hid : r.taskId = r'.taskId) : r = r' := by
  by_contra hne
  obtain ⟨_, _, _, _, t, _, _, heligible⟩ := h
  have hsole : soleLiveRun db r := heligible.2.2.2.1
  exact hsole ⟨r', hr', hid.symm, h'.1.live, fun heq => hne (db.run_unique hr hr' heq.symm)⟩

/-! ## What a claim takes -/

/-- In any database, a claim under a token that holds no run takes the first `k` of the runs that
wait, are due and satisfy its eligibility, and leaves every other run as it was; where its lease does
not fit the epoch it takes none. No two of the runs it takes are of one task. -/
theorem claim_selects (db : Db) (seed : String) (call : ClaimCall) (now : ℤ)
    (hfree : ¬ ∃ held ∈ db.runs, held.queue = call.queue ∧ held.state = .running ∧
      held.claimedBy = some call.claimToken) :
    (epochAdditionFits now call.leaseMs →
      ∀ r', r' ∈ (claim seed call now db).db.runs ↔
        (∃ r ∈ firstClaimable db now call.queue call.limit,
          r' = claimAssignments db seed now call r) ∨
          (r' ∈ db.runs ∧ r' ∉ firstClaimable db now call.queue call.limit)) ∧
      (¬ epochAdditionFits now call.leaseMs → (claim seed call now db).db.runs = db.runs) ∧
      ∀ r ∈ firstClaimable db now call.queue call.limit,
        ∀ r' ∈ firstClaimable db now call.queue call.limit, r.taskId = r'.taskId → r = r' := by
  have hfirst : ∀ r ∈ firstClaimable db now call.queue call.limit,
      r ∈ db.runs ∧ claimable db now call.queue r := by
    intro r hr
    have hr := (List.mem_insertionSort claimOrder).mp (List.mem_of_mem_take hr)
    exact ⟨List.mem_of_mem_filter hr, of_decide_eq_true (List.mem_filter.mp hr).2⟩
  -- The candidates the batch selects by id are the first of the global order.
  have hguard : ∀ r ∈ db.runs, claimGuard db now call r ↔
      r ∈ firstClaimable db now call.queue call.limit ∧ epochAdditionFits now call.leaseMs := by
    intro r hr
    unfold claimGuard
    rw [candidateRuns_eq]
    constructor
    · rintro ⟨hid, _, hfits⟩
      obtain ⟨q, hq, hid⟩ := List.mem_map.mp hid
      exact ⟨db.run_unique (hfirst q hq).1 hr hid ▸ hq, hfits⟩
    · rintro ⟨hmem, hfits⟩
      exact ⟨List.mem_map_of_mem hmem, hfree, hfits⟩
  refine ⟨fun hfits r' => ?_, fun hfits => ?_, fun r hr r' hr' => ?_⟩
  · constructor
    · intro hr'
      have hr' : r' ∈ (claimCas db seed call now).runs := hr'
      obtain ⟨r, hr, hg, rfl⟩ | ⟨hr, hno⟩ := Table.update_cases hr'
      · exact Or.inl ⟨r, ((hguard r hr).mp hg).1, rfl⟩
      · exact Or.inr ⟨hr, fun hmem => hno ((hguard r' hr).mpr ⟨hmem, hfits⟩)⟩
    · rintro (⟨r, hmem, rfl⟩ | ⟨hr', hno⟩)
      · have hr := (hfirst r hmem).1
        exact Table.mem_update_of_pos (f := ⟨claimAssignments db seed now call, fun _ => rfl⟩) hr
          ((hguard r hr).mpr ⟨hmem, hfits⟩)
      · exact Table.mem_update_of_neg hr' fun hg => hno ((hguard r' hr').mp hg).1
  · have hcas : claimCas db seed call now = db :=
      updateRuns_of_forall_not fun r hr hg => hfits ((hguard r hr).mp hg).2
    show (claimCas db seed call now).runs = db.runs
    rw [hcas]
  · exact (hfirst r hr).2.sole (hfirst r hr).1 (hfirst r' hr').1 (hfirst r' hr').2

/-! Six runs of a queue: three that a claim may take, two of them due at one instant and in different
states; two with no task; and one that is not due. -/

def queuedTask (taskId : String) (state : TaskState) : Task :=
  { taskId, queue := "q", taskName := "job", params := "null", headers := none
    retryStrategy := .none, maxAttempts := 2, cancellation := none, idempotencyKey := none, state
    enqueueAtMs := 0, cancelAtMs := none, createdAtMs := 0, fenceStamp := none, fenceAtMs := 0 }

def queuedRun (runId taskId : String) (state : TaskState) (availableAtMs : ℤ) : Run :=
  { firstRun "b1" runId (queuedTask taskId state) with state, availableAtMs := some availableAtMs }

def queuedSix : Db :=
  { Db.empty with
    tasks := ⟨[queuedTask "a" .pending, queuedTask "b" .sleeping, queuedTask "c" .pending], by decide⟩
    runs := ⟨[queuedRun "r1" "a" .pending 10, queuedRun "r2" "b" .sleeping 10,
      queuedRun "r3" "c" .pending 5, queuedRun "r4" "d" .pending 5,
      queuedRun "r5" "e" .sleeping 2000, queuedRun "r6" "f" .pending 10], by decide⟩ }

/-- A claim of two takes the earliest, and of the two due next the one with the lower id. -/
theorem claim_selects_queuedSix :
    (firstClaimable queuedSix 1000 "q" 5).map Run.runId = ["r3", "r1", "r2"] ∧
      (firstClaimable queuedSix 1000 "q" 2).map Run.runId = ["r3", "r1"] ∧
      ∀ r', r' ∈ (claim "b2" ⟨"q", "w1", 1000, 2⟩ 1000 queuedSix).db.runs ↔
        (∃ r ∈ firstClaimable queuedSix 1000 "q" 2,
          r' = claimAssignments queuedSix "b2" 1000 ⟨"q", "w1", 1000, 2⟩ r) ∨
          (r' ∈ queuedSix.runs ∧ r' ∉ firstClaimable queuedSix 1000 "q" 2) :=
  ⟨by decide, by decide, (claim_selects queuedSix "b2" ⟨"q", "w1", 1000, 2⟩ 1000
    (by decide)).1 (by decide)⟩

/-- At the end of the epoch no lease fits, and the claim of a due run takes none. -/
theorem claim_selects_none_spawnedOne :
    (¬ ∃ held ∈ (spawnOne.after 0 .empty).runs, held.queue = "q" ∧ held.state = .running ∧
      held.claimedBy = some "w1") ∧
      (firstClaimable (spawnOne.after 0 .empty) MAX_EPOCH_MS "q" 1).map Run.runId = ["r1"] ∧
      ¬ ∃ r ∈ (claim "b2" ⟨"q", "w1", 1000, 1⟩ MAX_EPOCH_MS (spawnOne.after 0 .empty)).db.runs,
        r.state = .running := by
  decide

end Durablerun
