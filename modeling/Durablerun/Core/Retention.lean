import Durablerun.Core.Strings
import Durablerun.Lib.Keyset
import Durablerun.Lib.Limited
import Durablerun.Store.Fragments
import Mathlib.Data.Prod.Lex

/-!
# Listing what a purge may take

`purgeCandidates` lists the ended tasks of a queue that are old enough, in pages, by the instant they
ended and then by their id. Every page is the first of what follows the page before it, so a listing
takes each task once, whatever is purged or ends between its pages.

Reference: `packages/core/src/retention.ts` and `packages/core/src/statements/purge.ts`.
-/

namespace Durablerun

open Js Relational

/-! ## The policy -/

/-- What the retention port refuses with: the message, and the number it ends on. -/
inductive RetentionError where
  | portRefusal (message : String) (got : Number)
  | rangeError (message : String) (got : Number)
  | typeError (message : String)

/-- `RetentionPolicy`: how long a task is kept after it ended. -/
structure RetentionPolicy where
  completedSeconds : Number
  failedSeconds : Option Number
  cancelledSeconds : Number

/-- `RetentionWindows`: a state's window, or none for a state that is kept. -/
structure RetentionWindows where
  completed : Option ℤ
  failed : Option ℤ
  cancelled : Option ℤ

def RetentionWindows.of (windows : RetentionWindows) : TaskState → Option ℤ
  | .completed => windows.completed
  | .failed => windows.failed
  | .cancelled => windows.cancelled
  | _ => none

def MIN_RETENTION_SECONDS : ℤ := 3600
def MAX_RETENTION_SECONDS : ℤ := MAX_DURATION_MS / 1000

/-- One window, of a member of the policy that is there. -/
def windowOf (member : String) (seconds : Number) : Except RetentionError ℤ :=
  match seconds.safeInteger with
  | none => refused
  | some seconds =>
    if seconds < MIN_RETENTION_SECONDS ∨ MAX_RETENTION_SECONDS < seconds then refused
    else .ok (seconds * 1000)
where
  refused : Except RetentionError ℤ :=
    .error (.portRefusal ("retention policy " ++ member ++ " must be a whole number of seconds from " ++
      toString MIN_RETENTION_SECONDS ++ " to " ++ toString MAX_RETENTION_SECONDS ++ ", got ") seconds)

/-- `retentionWindowsMs`. Only the failed window may be left out. -/
def retentionWindowsMs (policy : RetentionPolicy) : Except RetentionError RetentionWindows := do
  let completed ← windowOf "completedSeconds" policy.completedSeconds
  let failed ← match policy.failedSeconds with
    | none => pure none
    | some seconds => some <$> windowOf "failedSeconds" seconds
  let cancelled ← windowOf "cancelledSeconds" policy.cancelledSeconds
  return ⟨some completed, failed, some cancelled⟩

/-! ## A page -/

/-- `PurgeCursor`: where a page ended. -/
structure PurgeCursor where
  endedAtMs : Number
  taskId : String

/-- `FROM_THE_OLDEST`: before every stamp and every task id. -/
def FROM_THE_OLDEST : ℤ × String := (-1, "")

/-- `startAfter`: the place a page starts after. -/
def startAfter : Option PurgeCursor → Except RetentionError (ℤ × String)
  | none => .ok FROM_THE_OLDEST
  | some after =>
    match after.endedAtMs.safeInteger with
    | none => refused after
    | some endedAtMs =>
      if endedAtMs < 0 ∨ MAX_EPOCH_MS < endedAtMs then refused after
      else .ok (endedAtMs, after.taskId)
where
  refused (after : PurgeCursor) : Except RetentionError (ℤ × String) :=
    .error (.portRefusal ("purgeCandidates after.endedAtMs must be an integer epoch-ms in [0, " ++
      toString MAX_EPOCH_MS ++ "], got ") after.endedAtMs)

def OPERATOR_LIST_CAP : ℤ := 1000

/-- `requireListLimit`. -/
def requireListLimit (limit : Number) : Except RetentionError ℕ :=
  match limit.safeInteger with
  | none => notPositive
  | some value =>
    if value < 1 ∨ MAX_COUNT < value then notPositive
    else if OPERATOR_LIST_CAP < value then
      .error (.rangeError ("limit must be at most " ++ toString OPERATOR_LIST_CAP ++ ", got ") limit)
    else .ok value.toNat
where
  notPositive : Except RetentionError ℕ :=
    .error (.rangeError ("limit must be an integer in [1, " ++ toString MAX_COUNT ++ "], got ") limit)

/-- `endedTasks`: the tasks of a queue that ended in a state, with a stamp in range. -/
def endedTasks (state : TaskState) (queue : String) (t : Task) : Prop :=
  t.queue = queue ∧ t.state = state ∧ epochBounds.Within t.fenceAtMs
deriving Decidable

/-- `atLeastAWindowOld`: no instant is, of a state that is kept. -/
def atLeastAWindowOld (now stampedAt : ℤ) : Option ℤ → Prop
  | none => False
  | some windowMs => stampedAt ≤ now - windowMs

instance (now stampedAt : ℤ) (window : Option ℤ) : Decidable (atLeastAWindowOld now stampedAt window) := by
  cases window <;> unfold atLeastAWindowOld <;> infer_instance

/-- The order a leg is read in: by the stamp, and then by the task's id. -/
def endedOrder (t t' : Task) : Prop :=
  t.fenceAtMs < t'.fenceAtMs ∨ t.fenceAtMs = t'.fenceAtMs ∧ t.taskId ≤ t'.taskId
deriving Decidable

/-- The rows one leg of `purgeCandidatesRead` takes from. -/
def purgeLeg (now : ℤ) (queue : String) (state : TaskState) (window : Option ℤ)
    (after : ℤ × String) (t : Task) : Prop :=
  endedTasks state queue t ∧ atLeastAWindowOld now t.fenceAtMs window ∧ after.1 ≤ t.fenceAtMs ∧
    (after.1 < t.fenceAtMs ∨ after.2 < t.taskId)
deriving Decidable

/-- `purgeCandidatesRead`: one leg, up to a limit. -/
def purgeCandidatesRead (db : Db) (now : ℤ) (queue : String) (state : TaskState) (window : Option ℤ)
    (after : ℤ × String) (limit : ℕ) : List Task :=
  ((db.tasks.rows.filter (purgeLeg now queue state window after)).insertionSort endedOrder).take limit

structure PurgeCandidate where
  taskId : String
  taskName : String
  state : TaskState
  endedAtMs : ℤ
  idempotencyKey : Option String
  deriving DecidableEq

/-- A task as a candidate. -/
def Task.candidate (t : Task) : PurgeCandidate :=
  ⟨t.taskId, t.taskName, t.state, t.fenceAtMs, t.idempotencyKey⟩

/-- `candidateOf`: a row of a leg as a candidate, and no row that a leg does not answer. -/
def candidateOf (state : TaskState) (t : Task) : Except RetentionError PurgeCandidate :=
  if ¬ epochBounds.Within t.fenceAtMs ∨ t.state ≠ state then
    .error (.typeError ("purge-candidates answered a row that is no " ++ state.name ++
      " task with a stamp in range"))
  else .ok t.candidate

/-- One page of candidates, and the cursor that lists what follows it. -/
structure PurgeCandidates where
  candidates : List PurgeCandidate
  next : Option PurgeCursor

/-- The order of a page. -/
def candidateOrder (left right : PurgeCandidate) : Prop :=
  (if left.endedAtMs - right.endedAtMs ≠ 0 then left.endedAtMs - right.endedAtMs
    else byCodePoints (utf16 left.taskId) (utf16 right.taskId)) ≤ 0
deriving Decidable

def TERMINAL_STATES : List TaskState := [.completed, .failed, .cancelled]

/-- `purgeCandidates`, past the port's check of its strings. Each leg reads a clock of its own. -/
def purgeCandidates (db : Db) (now : TaskState → ℤ) (queue : String) (policy : RetentionPolicy)
    (limit : Number) (after : Option PurgeCursor) : Except RetentionError PurgeCandidates := do
  let windows ← retentionWindowsMs policy
  let limit ← requireListLimit limit
  let after ← startAfter after
  let legs ← TERMINAL_STATES.mapM fun state =>
    (purgeCandidatesRead db (now state) queue state (windows.of state) after
      (if windows.of state = none then 0 else limit + 1)).mapM (candidateOf state)
  let listed := legs.flatten.insertionSort candidateOrder
  let candidates := listed.take limit
  return {
    candidates
    next := if limit < listed.length then
      candidates.getLast?.map fun last => ⟨.finite last.endedAtMs, last.taskId⟩ else none }

/-! ## One page -/

variable {db : Db} {now : TaskState → ℤ} {queue : String} {policy : RetentionPolicy}
  {windows : RetentionWindows} {limit : Number} {n : ℕ} {t : Task}

/-- A task of the queue that ended at least its state's window ago, with a stamp in range. -/
def AdmitsPurge (now : TaskState → ℤ) (queue : String) (windows : RetentionWindows) (t : Task) : Prop :=
  t.state ∈ TERMINAL_STATES ∧ endedTasks t.state queue t ∧
    atLeastAWindowOld (now t.state) t.fenceAtMs (windows.of t.state)
deriving Decidable

/-- The candidates of a database. -/
def purgeable (now : TaskState → ℤ) (queue : String) (windows : RetentionWindows) (db : Db) :
    Set PurgeCandidate :=
  {c | ∃ t ∈ db.tasks, AdmitsPurge now queue windows t ∧ t.candidate = c}

/-- What a listing orders candidates by. -/
def PurgeCandidate.key (c : PurgeCandidate) : ℤ ×ₗ String := toLex (c.endedAtMs, c.taskId)

/-- A place in the order as a cursor. -/
def cursorOf (place : ℤ ×ₗ String) : PurgeCursor := ⟨.finite (ofLex place).1, (ofLex place).2⟩

/-- Two places of the listing have two cursors. -/
theorem cursorOf_injective : Function.Injective cursorOf := by
  intro a b h
  have hended : ((ofLex a).1 : ℚ) = (ofLex b).1 :=
    Number.finite.inj (congrArg PurgeCursor.endedAtMs h)
  have hid : (ofLex a).2 = (ofLex b).2 := congrArg PurgeCursor.taskId h
  exact ofLex.injective (Prod.ext (Int.cast_injective hended) hid)

/-- The candidates' order is the order of their keys. -/
theorem candidateOrder_iff {c c' : PurgeCandidate} : candidateOrder c c' ↔ c.key ≤ c'.key := by
  unfold candidateOrder
  rw [PurgeCandidate.key, PurgeCandidate.key, Prod.Lex.toLex_le_toLex]
  split
  · next hne => constructor <;> intro h <;> omega
  · next heq =>
    have heq : c.endedAtMs = c'.endedAtMs := by omega
    rw [byCodePoints_nonpos]
    exact ⟨fun h => Or.inr ⟨heq, h⟩, fun h => (h.resolve_left (by omega)).2⟩

/-- The order of ended tasks is the order of the candidates they are. -/
theorem endedOrder_iff {t t' : Task} : endedOrder t t' ↔ candidateOrder t.candidate t'.candidate := by
  rw [candidateOrder_iff, PurgeCandidate.key, PurgeCandidate.key, Prod.Lex.toLex_le_toLex]
  exact Iff.rfl

instance : Std.Total candidateOrder :=
  ⟨fun a b => by rw [candidateOrder_iff, candidateOrder_iff]; exact le_total _ _⟩

instance : IsTrans PurgeCandidate candidateOrder :=
  ⟨fun a b c => by
    rw [candidateOrder_iff, candidateOrder_iff, candidateOrder_iff]
    exact le_trans⟩

/-- The order tells the tasks of a table apart. -/
theorem candidate_key_injective {t t' : Task} (ht : t ∈ db.tasks) (ht' : t' ∈ db.tasks)
    (h : t.candidate.key = t'.candidate.key) : t = t' :=
  db.task_unique ht ht' (congrArg (fun k => (ofLex k).2) h)

/-- The candidates of one state past a place, in the order of the table. -/
def legOf (db : Db) (now : TaskState → ℤ) (queue : String) (windows : RetentionWindows)
    (after : ℤ × String) (state : TaskState) : List PurgeCandidate :=
  (db.tasks.rows.filter (purgeLeg (now state) queue state (windows.of state) after)).map Task.candidate

/-- All that follow a place, in order. -/
def following (db : Db) (now : TaskState → ℤ) (queue : String) (windows : RetentionWindows)
    (after : ℤ × String) : List PurgeCandidate :=
  (TERMINAL_STATES.flatMap (legOf db now queue windows after)).insertionSort candidateOrder

/-- A map that succeeds on every item succeeds on the list. -/
theorem mapM_ok {α β ε : Type} {f : α → Except ε β} {g : α → β} {l : List α}
    (h : ∀ a ∈ l, f a = .ok (g a)) : l.mapM f = .ok (l.map g) := by
  induction l with
  | nil => rfl
  | cons a l ih =>
    rw [List.mapM_cons, h a List.mem_cons_self, ih fun b hb => h b (List.mem_cons_of_mem a hb)]
    rfl

/-- No leg answers a row that is refused, and each answers the first of its candidates. -/
theorem leg_candidates {after : ℤ × String} {state : TaskState} :
    (purgeCandidatesRead db (now state) queue state (windows.of state) after
      (if windows.of state = none then 0 else n + 1)).mapM (candidateOf state) =
      .ok (((legOf db now queue windows after state).insertionSort candidateOrder).take (n + 1)) := by
  have hrow : ∀ t ∈ purgeCandidatesRead db (now state) queue state (windows.of state) after
      (if windows.of state = none then 0 else n + 1), candidateOf state t = .ok t.candidate := by
    intro t ht
    have hleg := (List.mem_filter.mp ((List.mem_insertionSort _).mp (List.mem_of_mem_take ht))).2
    obtain ⟨⟨_, hst, hwithin⟩, _⟩ := of_decide_eq_true hleg
    exact if_neg (not_or.mpr ⟨not_not_intro hwithin, not_not_intro hst⟩)
  rw [mapM_ok hrow]
  unfold purgeCandidatesRead legOf
  rw [List.map_take, List.map_insertionSort endedOrder candidateOrder _ _ fun t _ t' _ => endedOrder_iff]
  cases hwindow : windows.of state with
  | none =>
    have hempty : db.tasks.rows.filter (purgeLeg (now state) queue state none after) = [] :=
      List.filter_eq_nil_iff.mpr fun t _ h => (of_decide_eq_true h).2.1
    rw [hempty]
    rfl
  | some w => rfl

/-- The place a cursor names, or the start. -/
def placeOf (after : Option (ℤ ×ₗ String)) : ℤ × String := after.elim FROM_THE_OLDEST ofLex

/-- Every candidate of a state's leg is a task of the table. -/
theorem mem_legOf {after : ℤ × String} {state : TaskState} {c : PurgeCandidate} :
    c ∈ legOf db now queue windows after state ↔
      ∃ t ∈ db.tasks, purgeLeg (now state) queue state (windows.of state) after t ∧
        t.candidate = c := by
  simp only [legOf, List.mem_map, List.mem_filter, decide_eq_true_eq, and_assoc]
  exact Iff.rfl

/-- What follows a place are the candidates past it. -/
theorem mem_following {after : Option (ℤ ×ₗ String)} {c : PurgeCandidate} :
    c ∈ following db now queue windows (placeOf after) ↔
      c ∈ purgeable now queue windows db ∧ Keyset.Past PurgeCandidate.key after c := by
  have hpast : ∀ t : Task, epochBounds.Within t.fenceAtMs →
      ((placeOf after).1 ≤ t.fenceAtMs ∧
        ((placeOf after).1 < t.fenceAtMs ∨ (placeOf after).2 < t.taskId) ↔
          Keyset.Past PurgeCandidate.key after t.candidate) := by
    intro t hwithin
    cases after with
    | none =>
      have hmin : 0 ≤ t.fenceAtMs := hwithin.1
      have hstart : (placeOf none).1 = -1 := rfl
      rw [hstart]
      exact ⟨fun _ => trivial, fun _ => ⟨by omega, Or.inl (by omega)⟩⟩
    | some place =>
      show _ ↔ place < toLex (t.fenceAtMs, t.taskId)
      rw [Prod.Lex.lt_iff]
      show (ofLex place).1 ≤ t.fenceAtMs ∧ _ ↔ (ofLex place).1 < t.fenceAtMs ∨ _
      constructor
      · rintro ⟨hle, hlt | hid⟩
        · exact Or.inl hlt
        · exact hle.lt_or_eq.imp id fun heq => ⟨heq, hid⟩
      · rintro (hlt | ⟨heq, hid⟩)
        · exact ⟨hlt.le, Or.inl hlt⟩
        · exact ⟨heq.le, Or.inr hid⟩
  unfold following
  rw [List.mem_insertionSort, List.mem_flatMap]
  constructor
  · rintro ⟨state, hstate, hc⟩
    obtain ⟨t, ht, ⟨hended, hold, hplace⟩, rfl⟩ := mem_legOf.mp hc
    obtain ⟨hqueue, rfl, hwithin⟩ := hended
    exact ⟨⟨t, ht, ⟨hstate, ⟨hqueue, rfl, hwithin⟩, hold⟩, rfl⟩, (hpast t hwithin).mp hplace⟩
  · rintro ⟨⟨t, ht, ⟨hstate, hended, hold⟩, rfl⟩, hc⟩
    exact ⟨t.state, hstate, mem_legOf.mpr ⟨t, ht, ⟨hended, hold,
      (hpast t hended.2.2).mpr hc⟩, rfl⟩⟩

/-- The tasks that follow a place are distinct, and so in ascending order. -/
theorem following_ascending (after : Option (ℤ ×ₗ String)) :
    (following db now queue windows (placeOf after)).Pairwise fun c c' => c.key < c'.key := by
  have hinjective : ∀ t ∈ db.tasks, ∀ t' ∈ db.tasks, t.candidate = t'.candidate → t = t' :=
    fun t ht t' ht' h => candidate_key_injective ht ht' (congrArg PurgeCandidate.key h)
  have hnodup : (TERMINAL_STATES.flatMap (legOf db now queue windows (placeOf after))).Nodup := by
    refine List.nodup_flatMap.mpr ⟨fun state _ => ?_, ?_⟩
    · refine List.Nodup.map_on ?_ ((db.tasks.nodup_rows Task.keys_ne_nil).filter _)
      exact fun t ht t' ht' => hinjective t (List.mem_filter.mp ht).1 t' (List.mem_filter.mp ht').1
    · have hstates : TERMINAL_STATES.Nodup := by decide
      refine hstates.imp fun {state state'} hne c hc hc' => hne ?_
      obtain ⟨t, _, ⟨⟨_, hst, _⟩, _⟩, rfl⟩ := mem_legOf.mp hc
      obtain ⟨t', _, ⟨⟨_, hst', _⟩, _⟩, heq⟩ := mem_legOf.mp hc'
      exact hst.symm.trans ((congrArg PurgeCandidate.state heq).symm.trans hst')
  have hsorted := List.pairwise_insertionSort candidateOrder
    (TERMINAL_STATES.flatMap (legOf db now queue windows (placeOf after)))
  have hdistinct := (List.perm_insertionSort candidateOrder _).nodup_iff.mpr hnodup
  refine (hsorted.and hdistinct).imp_of_mem fun {c c'} hc hc' h => ?_
  obtain ⟨⟨t, ht, _, rfl⟩, _⟩ := mem_following.mp hc
  obtain ⟨⟨t', ht', _, rfl⟩, _⟩ := mem_following.mp hc'
  refine lt_of_le_of_ne (candidateOrder_iff.mp h.1) fun hkey => h.2 ?_
  rw [candidate_key_injective ht ht' hkey]

/-- A page lists the first of what follows its place. -/
theorem purgeCandidates_eq (db : Db) (now : TaskState → ℤ) (queue : String)
    {after : Option PurgeCursor} {place : Option (ℤ ×ₗ String)}
    (hpolicy : retentionWindowsMs policy = .ok windows) (hlimit : requireListLimit limit = .ok n)
    (hafter : startAfter after = .ok (placeOf place)) :
    purgeCandidates db now queue policy limit after =
      .ok ⟨(following db now queue windows (placeOf place)).take n,
        (if n < (following db now queue windows (placeOf place)).length then
          ((following db now queue windows (placeOf place)).take n).getLast?.map PurgeCandidate.key
        else none).map cursorOf⟩ := by
  have hanti : List.Antisymmetric candidateOrder
      (TERMINAL_STATES.flatMap (legOf db now queue windows (placeOf place))) := by
    intro c hc c' hc' hle hle'
    obtain ⟨⟨t, ht, _, rfl⟩, _⟩ := mem_following.mp ((List.mem_insertionSort candidateOrder).mpr hc)
    obtain ⟨⟨t', ht', _, rfl⟩, _⟩ :=
      mem_following.mp ((List.mem_insertionSort candidateOrder).mpr hc')
    have hkey := le_antisymm (candidateOrder_iff.mp hle) (candidateOrder_iff.mp hle')
    rw [candidate_key_injective ht ht' hkey]
  -- one row past the limit of each leg decides the page and whether more follow
  have htake := List.take_insertionSort_flatMap (n + 1)
    (legOf db now queue windows (placeOf place)) TERMINAL_STATES hanti
  set listed := (TERMINAL_STATES.flatMap fun state =>
    ((legOf db now queue windows (placeOf place) state).insertionSort candidateOrder).take
      (n + 1)).insertionSort candidateOrder with hlisted
  have hpage : listed.take n = (following db now queue windows (placeOf place)).take n := by
    have h := congrArg (List.take n) htake
    rwa [List.take_take, List.take_take, Nat.min_eq_left (Nat.le_succ n)] at h
  have hmore : n < listed.length ↔
      n < (following db now queue windows (placeOf place)).length := by
    have h := congrArg List.length htake
    rw [List.length_take, List.length_take] at h
    unfold following
    omega
  have hresult : purgeCandidates db now queue policy limit after = .ok ⟨listed.take n,
      if n < listed.length then
        (listed.take n).getLast?.map fun last => ⟨.finite last.endedAtMs, last.taskId⟩ else none⟩ := by
    simp only [purgeCandidates, hpolicy, hlimit, hafter]
    show (List.mapM (m := Except RetentionError) _ TERMINAL_STATES >>= _) = _
    rw [mapM_ok fun state _ => leg_candidates]
    rfl
  rw [hresult, hpage]
  congr 2
  simp only [hmore]
  split
  · rw [Option.map_map]
    rfl
  · rfl

/-! ## The listing -/

/-- What a call serves of a database, at the clocks its legs read. -/
def served (queue : String) (policy : RetentionPolicy) (limit : Number) (s : Db × (TaskState → ℤ))
    (after : Option (ℤ ×ₗ String)) (rows : List PurgeCandidate) (next : Option (ℤ ×ₗ String)) : Prop :=
  purgeCandidates s.1 s.2 queue policy limit (after.map cursorOf) = .ok ⟨rows, next.map cursorOf⟩

/-- A place in range is the one its cursor names. -/
theorem startAfter_cursorOf {place : ℤ ×ₗ String} (h : epochBounds.Within (ofLex place).1) :
    startAfter (some (cursorOf place)) = .ok (ofLex place) := by
  have hmin : 0 ≤ (ofLex place).1 := h.1
  have hmax : (ofLex place).1 ≤ MAX_EPOCH_MS := h.2
  have hsafe : (ofLex place).1.natAbs ≤ 2 ^ 53 - 1 := by
    unfold MAX_EPOCH_MS at hmax
    omega
  simp only [startAfter, cursorOf, Number.safeInteger_intCast hsafe]
  exact if_neg (by omega)

/-- No cursor is read as another place. -/
theorem startAfter_of_ok {after : Option (ℤ ×ₗ String)} {place : ℤ × String}
    (h : startAfter (after.map cursorOf) = .ok place) : place = placeOf after := by
  cases after with
  | none => exact (Except.ok.inj h).symm
  | some c =>
    by_cases hsafe : (ofLex c).1.natAbs ≤ 2 ^ 53 - 1
    · simp only [Option.map_some, startAfter, cursorOf, Number.safeInteger_intCast hsafe] at h
      split at h
      · cases h
      · exact (Except.ok.inj h).symm
    · have hnone : (Number.finite (ofLex c).1).safeInteger = none :=
        if_neg fun hle => hsafe (by rw [Rat.num_intCast] at hle; exact hle.2)
      simp only [Option.map_some, startAfter, cursorOf, hnone] at h
      cases h

/-- A limit that passes is positive. -/
theorem requireListLimit_pos (h : requireListLimit limit = .ok n) : 0 < n := by
  unfold requireListLimit at h
  split at h
  · cases h
  · next value _ =>
    split at h
    · cases h
    · split at h
      · cases h
      · obtain rfl := Except.ok.inj h
        omega

/-- What a call answers is a page of the candidates. -/
theorem served_paged (queue : String) (hpolicy : retentionWindowsMs policy = .ok windows)
    (hlimit : requireListLimit limit = .ok n) :
    Keyset.Paged PurgeCandidate.key (fun s : Db × (TaskState → ℤ) => purgeable s.2 queue windows s.1)
      (served queue policy limit) := by
  intro s after rows next h
  unfold served at h
  cases hafter : startAfter (after.map cursorOf) with
  | error e =>
    simp only [purgeCandidates, hpolicy, hlimit, hafter] at h
    cases h
  | ok place =>
    obtain rfl := startAfter_of_ok hafter
    rw [purgeCandidates_eq s.1 s.2 queue hpolicy hlimit hafter] at h
    obtain ⟨rfl, hnext⟩ := PurgeCandidates.mk.inj (Except.ok.inj h)
    obtain rfl := (Option.map_injective cursorOf_injective) hnext
    exact Keyset.page_take (requireListLimit_pos hlimit) (following_ascending after)
      fun c => mem_following

/-- A call is answered at the start, and at any cursor that was answered. -/
theorem exists_served (hpolicy : retentionWindowsMs policy = .ok windows)
    (hlimit : requireListLimit limit = .ok n) (s : Db × (TaskState → ℤ))
    (after : Option (ℤ ×ₗ String)) (hafter : ∀ c ∈ after, epochBounds.Within (ofLex c).1) :
    ∃ rows next, served queue policy limit s after rows next ∧
      ∀ c ∈ next, epochBounds.Within (ofLex c).1 := by
  have hplace : startAfter (after.map cursorOf) = .ok (placeOf after) := by
    cases after with
    | none => rfl
    | some c => exact startAfter_cursorOf (hafter c rfl)
  have hserved := purgeCandidates_eq s.1 s.2 queue hpolicy hlimit hplace
  refine ⟨_, _, hserved, fun c hc => ?_⟩
  obtain ⟨⟨b, hb, rfl⟩, _⟩ := (served_paged queue hpolicy hlimit s after _ _ hserved).last c hc
  obtain ⟨⟨t, _, ⟨_, hended, _⟩, rfl⟩, _⟩ := mem_following.mp (List.mem_of_mem_take hb)
  exact hended.2.2

/-- A listing takes a task that qualified at every page once. -/
theorem Listing.once (hpolicy : retentionWindowsMs policy = .ok windows)
    (hlimit : requireListLimit limit = .ok n) {tables : List (Db × (TaskState → ℤ))}
    {rows : List PurgeCandidate} (h : Keyset.Listing (served queue policy limit) none tables rows)
    (ht : ∀ s ∈ tables, t ∈ s.1.tasks ∧ AdmitsPurge s.2 queue windows t) :
    rows.filter (fun c => c.taskId = t.taskId) = [t.candidate] := by
  have hpaged := served_paged queue hpolicy hlimit
  have hlisted : t.candidate ∈ rows :=
    h.listed hpaged (fun s hs => ⟨t, (ht s hs).1, (ht s hs).2, rfl⟩) trivial
  have hnodup : rows.Nodup := (h.ascending hpaged).imp fun hlt heq => by
    rw [heq] at hlt
    exact lt_irrefl _ hlt
  refine List.Perm.eq_singleton ((List.perm_ext_iff_of_nodup (hnodup.filter _)
    (List.nodup_singleton _)).mpr fun c => ?_)
  rw [List.mem_filter, List.mem_singleton]
  constructor
  · rintro ⟨hc, hid⟩
    obtain ⟨s, hs, t', ht', _, rfl⟩ := h.stored hpaged c hc
    rw [s.1.task_unique ht' (ht s hs).1 (of_decide_eq_true hid)]
  · rintro rfl
    exact ⟨hlisted, decide_eq_true rfl⟩

/-- Under a policy and a limit that are not refused: over a database that does not change the listing
ends, and lists what the policy admits in order, each task once. Whatever changes between its pages,
a listing is in order, and lists each task once that qualified throughout. -/
theorem purgeCandidates_listing (queue : String) (policy : RetentionPolicy) (limit : Number)
    (windows : RetentionWindows) (n : ℕ) (hpolicy : retentionWindowsMs policy = .ok windows)
    (hlimit : requireListLimit limit = .ok n) :
    (∀ (db : Db) (now : TaskState → ℤ),
      (∃ k rows, Keyset.Listing (served queue policy limit) none (List.replicate k (db, now)) rows) ∧
      ∀ k rows, Keyset.Listing (served queue policy limit) none (List.replicate k (db, now)) rows →
        (rows.Pairwise fun c c' => c.key < c'.key) ∧
        (∀ c ∈ rows, ∃ t ∈ db.tasks, AdmitsPurge now queue windows t ∧ t.candidate = c) ∧
        ∀ t ∈ db.tasks, AdmitsPurge now queue windows t →
          rows.filter (fun c => c.taskId = t.taskId) = [t.candidate]) ∧
    ∀ tables rows, Keyset.Listing (served queue policy limit) none tables rows →
      (rows.Pairwise fun c c' => c.key < c'.key) ∧
      ∀ t, (∀ s ∈ tables, t ∈ s.1.tasks ∧ AdmitsPurge s.2 queue windows t) →
        rows.filter (fun c => c.taskId = t.taskId) = [t.candidate] := by
  have hpaged := served_paged queue hpolicy hlimit
  refine ⟨fun db now => ⟨?_, fun k rows h => ⟨h.ascending hpaged, fun c hc => ?_, ?_⟩⟩,
    fun tables rows h => ⟨h.ascending hpaged, fun t ht => Listing.once hpolicy hlimit h ht⟩⟩
  · have hfinite : (purgeable now queue windows db).Finite := by
      refine (db.tasks.rows.map Task.candidate).finite_toSet.subset ?_
      rintro c ⟨t, ht, _, rfl⟩
      exact List.mem_map_of_mem ht
    refine Keyset.exists_listing hpaged (s := (db, now)) hfinite
      (fun after => ∀ c ∈ after, epochBounds.Within (ofLex c).1) (fun after hafter => ?_)
      fun c hc => by cases hc
    obtain ⟨rows, next, hserved, hnext⟩ := exists_served hpolicy hlimit (db, now) after hafter
    refine ⟨rows, next, hserved, fun c hc c' hc' => ?_⟩
    obtain rfl := Option.mem_some_iff.mp hc'
    exact hnext c hc
  · obtain ⟨s, hs, hstored⟩ := h.stored hpaged c hc
    rw [List.eq_of_mem_replicate hs] at hstored
    exact hstored
  · intro t ht hadmits
    refine Listing.once hpolicy hlimit h fun s hs => ?_
    rw [List.eq_of_mem_replicate hs]
    exact ⟨ht, hadmits⟩

/-! A queue two tasks of which ended at one instant, either side of the end of a page. -/

/-- A policy of an hour. -/
def hourPolicy : RetentionPolicy := ⟨.finite 3600, none, .finite 3600⟩

/-- A task of the queue that ended at an instant. -/
def endedAt (taskId : String) (state : TaskState) (instant : ℤ) : Task :=
  { taskId, queue := "q", taskName := "job", params := "{}", headers := none
    retryStrategy := .none, maxAttempts := 1, cancellation := none, idempotencyKey := none, state
    enqueueAtMs := 0, cancelAtMs := none, createdAtMs := 0, fenceStamp := none
    fenceAtMs := instant }

def endedFive : Db :=
  { Db.empty with tasks := ⟨[endedAt "d" .completed 20, endedAt "b" .cancelled 10,
      endedAt "e" .failed 5, endedAt "c" .completed 10, endedAt "a" .completed 10], by decide⟩ }

/-- The same tasks after the first of them was purged. -/
def purgedFirst : Db :=
  { endedFive with tasks := endedFive.tasks.delete fun t => t.taskId = "a" }

def pastAnHour : TaskState → ℤ := fun _ => 3600020

/-- The first page of the ended five, whose instant is shared by a task of the next page. -/
theorem endedFive_first : served "q" hourPolicy (.finite 2) (endedFive, pastAnHour) none
    [(endedAt "a" .completed 10).candidate, (endedAt "b" .cancelled 10).candidate]
    (some (toLex (10, "b"))) := rfl

/-- The page after the first, which begins at the instant the first ended with. -/
theorem endedFive_rest : served "q" hourPolicy (.finite 2) (endedFive, pastAnHour)
    (some (toLex (10, "b")))
    [(endedAt "c" .completed 10).candidate, (endedAt "d" .completed 20).candidate] none := rfl

/-- The page after the first, where the first page's tasks were purged between the two. -/
theorem purgedFirst_rest : served "q" hourPolicy (.finite 2) (purgedFirst, pastAnHour)
    (some (toLex (10, "b")))
    [(endedAt "c" .completed 10).candidate, (endedAt "d" .completed 20).candidate] none := rfl

/-- The four that the policy does not keep are listed in two pages, cut between two that ended at one
instant; and the third is listed once by a listing between whose pages the first was purged. -/
theorem purgeCandidates_listing_tied :
    (∃ rows, rows.map PurgeCandidate.taskId = ["a", "b", "c", "d"] ∧
      Keyset.Listing (served "q" hourPolicy (.finite 2)) none
        [(endedFive, pastAnHour), (endedFive, pastAnHour)] rows ∧
      ∀ t ∈ endedFive.tasks, t.state ≠ .failed →
        rows.filter (fun c => c.taskId = t.taskId) = [t.candidate]) ∧
    ∃ rows, Keyset.Listing (served "q" hourPolicy (.finite 2)) none
        [(endedFive, pastAnHour), (purgedFirst, pastAnHour)] rows ∧
      rows.filter (fun c => c.taskId = "c") = [(endedAt "c" .completed 10).candidate] := by
  have hlisting := purgeCandidates_listing "q" hourPolicy (.finite 2)
    ⟨some 3600000, none, some 3600000⟩ 2 rfl rfl
  have hfixed : Keyset.Listing (served "q" hourPolicy (.finite 2)) none
      (List.replicate 2 (endedFive, pastAnHour)) _ :=
    .more endedFive_first (.last endedFive_rest)
  have hpurged : Keyset.Listing (served "q" hourPolicy (.finite 2)) none
      [(endedFive, pastAnHour), (purgedFirst, pastAnHour)] _ :=
    .more endedFive_first (.last purgedFirst_rest)
  refine ⟨⟨_, rfl, hfixed, fun t ht hkept => ?_⟩, _, hpurged, ?_⟩
  · have hadmits : ∀ t ∈ endedFive.tasks.rows, t.state ≠ .failed →
        AdmitsPurge pastAnHour "q" ⟨some 3600000, none, some 3600000⟩ t := by decide
    exact ((hlisting.1 endedFive pastAnHour).2 2 _ hfixed).2.2 t ht (hadmits t ht hkept)
  · refine (hlisting.2 _ _ hpurged).2 (endedAt "c" .completed 10) fun s hs => ?_
    obtain rfl | hs := List.mem_cons.mp hs
    · exact ⟨Table.mem_def.mpr (by decide), by decide⟩
    · obtain rfl := List.mem_singleton.mp hs
      exact ⟨Table.mem_def.mpr (by decide), by decide⟩

end Durablerun
