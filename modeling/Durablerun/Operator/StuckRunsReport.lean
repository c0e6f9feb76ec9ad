import Durablerun.Operator.StuckRunsTheorems
import Durablerun.Store.Selection
import Mathlib.Data.Int.ConditionallyCompleteOrder

/-!
# What the report of stuck runs says

Each of the engine's legs is the first of the rows its predicate admits, and each window is read
beside a leg whose rows it shares an instant and an id with. What the report lists of both follows
from the two kinds of list.

Reference: `packages/core/src/operator-reads.ts`.
-/

namespace Durablerun.Operator

open Js Relational

/-! ## Rows of the database -/

/-- An instant the engine stores is read as it is stored. -/
theorem readInteger_stored {field : String} {bounds : IntegerBounds} {taskId runId : Option String}
    {v : Option ℤ} (h : bounds.Stored v) : (readInteger field bounds taskId runId v).1 = v := by
  obtain ⟨n, rfl, hn⟩ := h
  exact congrArg Prod.fst (if_pos hn)

/-- A stored instant is there. -/
theorem stored_dated {v : Option ℤ} (h : epochBounds.Stored v) : ∃ n, v = some n :=
  h.imp fun _ hn => hn.1

section Rows

variable {db : Db} {field : String} {dueAt : Run → Option ℤ} {rows : Run → Prop}
  [DecidablePred rows] {admitted : Run → Task → Prop} [∀ r, DecidablePred (admitted r)]

/-- An admitted run is a run with the task that owns it and admits it. -/
theorem mem_admittedRuns {p : Run × Task} : p ∈ admittedRuns db admitted ↔
    p.1 ∈ db.runs ∧ p.2 ∈ db.tasks ∧ runOwnedByTask p.1 p.2 ∧ admitted p.1 p.2 := by
  unfold admittedRuns
  rw [List.mem_flatMap]
  constructor
  · rintro ⟨r, hr, hp⟩
    obtain ⟨t, ht, rfl⟩ := List.mem_map.mp hp
    obtain ⟨ht, hown⟩ := List.mem_filter.mp ht
    exact ⟨hr, ht, of_decide_eq_true hown⟩
  · rintro ⟨hr, ht, hown⟩
    exact ⟨p.1, hr, List.mem_map.mpr ⟨p.2, List.mem_filter.mpr ⟨ht, decide_eq_true hown⟩, rfl⟩⟩

/-- A run is admitted with one task. -/
theorem admittedRuns_unique : ∀ p ∈ admittedRuns db admitted, ∀ q ∈ admittedRuns db admitted,
    p.1.runId = q.1.runId → p = q := by
  rintro ⟨r, t⟩ hp ⟨r', t'⟩ hq hid
  obtain ⟨hr, ht, hown, _⟩ := mem_admittedRuns.mp hp
  obtain ⟨hr', ht', hown', _⟩ := mem_admittedRuns.mp hq
  obtain rfl : r = r' := db.run_unique hr hr' hid
  obtain rfl : t = t' := db.task_unique ht ht' (hown.1.trans hown'.1.symm)
  rfl

/-- Every admitted run has its instant. -/
theorem admittedRuns_dated (hadmitted : ∀ r t, admitted r t → epochBounds.Stored (dueAt r)) :
    ∀ p ∈ admittedRuns db admitted, ∃ v, dueAt p.1 = some v :=
  fun p hp => stored_dated (hadmitted p.1 p.2 (mem_admittedRuns.mp hp).2.2.2)

/-- A window of runs beside the leg of the engine's own. -/
theorem runs_beside (hrows : ∀ r, rows r → epochBounds.Stored (dueAt r))
    (hadmitted : ∀ r t, admitted r t → epochBounds.Stored (dueAt r)) :
    Beside (runsOwed field dueAt) dueAt Run.runId (fun p : Run × Task => dueAt p.1)
      (fun p => p.1.runId) (db.runs.rows.filter rows) (admittedRuns db admitted) := by
  have hmem : ∀ {r}, r ∈ db.runs.rows.filter rows → r ∈ db.runs ∧ rows r := fun hr =>
    ⟨(List.mem_filter.mp hr).1, of_decide_eq_true (List.mem_filter.mp hr).2⟩
  refine ⟨⟨fun r _ => rfl, fun r hr => ?_, fun r hr => ?_⟩, fun r => rfl,
    (db.runs.nodup_rows Run.keys_ne_nil).filter _, fun r hr s hs hid => ?_,
    admittedRuns_dated hadmitted, fun r hr p hp hid => ?_⟩
  · exact readInteger_stored (hrows r (hmem hr).2)
  · exact stored_dated (hrows r (hmem hr).2)
  · exact db.run_unique (hmem hr).1 (hmem hs).1 hid
  · rw [db.run_unique (mem_admittedRuns.mp hp).1 (hmem hr).1 hid]

end Rows

/-- The engine's leg of deadlines, as its list reads it. -/
theorem cancels_places {db : Db} {now : ℤ} {queue : String} {l : List Task}
    (hl : ∀ t ∈ l, sweepCancelsDue db now queue t) :
    Places (fun t => (overdueTask db t).1) Task.cancelAtMs Task.taskId OverdueTask.dueAtMs
      OverdueTask.taskId l := by
  have hstored : ∀ t ∈ l, epochBounds.Stored t.cancelAtMs := fun t ht =>
    (hl t ht).2.1.imp fun _ hv => ⟨hv.1, hv.2.1⟩
  exact ⟨fun t _ => rfl, fun t ht => readInteger_stored (hstored t ht),
    fun t ht => stored_dated (hstored t ht)⟩

/-- A window of deadlines beside the leg of the engine's own. -/
theorem tasks_beside {db : Db} {rows : Task → Prop} [DecidablePred rows] {now : ℤ} {queue : String}
    (hrows : ∀ t, rows t → epochBounds.Stored t.cancelAtMs) :
    Beside tasksOwed Task.cancelAtMs Task.taskId Task.cancelAtMs Task.taskId
      (db.tasks.rows.filter rows) (db.tasks.rows.filter (sweepCancelsDue db now queue)) := by
  have hmem : ∀ {t}, t ∈ db.tasks.rows.filter rows → t ∈ db.tasks ∧ rows t := fun ht =>
    ⟨(List.mem_filter.mp ht).1, of_decide_eq_true (List.mem_filter.mp ht).2⟩
  refine ⟨⟨fun t _ => rfl, fun t ht => ?_, fun t ht => ?_⟩, fun t => rfl,
    (db.tasks.nodup_rows Task.keys_ne_nil).filter _, fun t ht u hu hid => ?_, fun t ht => ?_,
    fun t ht u hu hid => ?_⟩
  · exact readInteger_stored (hrows t (hmem ht).2)
  · exact stored_dated (hrows t (hmem ht).2)
  · exact db.task_unique (hmem ht).1 (hmem hu).1 hid
  · have hdue := of_decide_eq_true (List.mem_filter.mp ht).2
    exact hdue.2.1.imp fun _ hv => hv.1
  · rw [db.task_unique (List.mem_filter.mp hu).1 (hmem ht).1 hid]

/-! ## Windows -/

section Shows

variable {α β Row : Type} {decode : α → Row} {instant : α → Option ℤ} {aged : Option ℤ → Prop}
  {table : List α}

/-- What windows list of a table: rows they refuse, and all of those where none is left
unexamined. -/
structure Shows (rows : List Row) (unexamined : Bool) (decode : α → Row) (instant : α → Option ℤ)
    (aged : Option ℤ → Prop) (refused : α → Prop) (table listed : List α) : Prop where
  rows : rows = listed.map decode
  nodup : listed.Nodup
  sound : ∀ a ∈ listed, a ∈ table ∧ refused a
  complete : unexamined = false → ∀ a ∈ table, refused a → aged (instant a) → a ∈ listed

/-- A list of no rows shows what a refusal of none leaves. -/
theorem Shows.nil : Shows [] false decode instant aged (fun _ => False) table [] :=
  ⟨rfl, List.nodup_nil, fun _ ha => absurd ha List.not_mem_nil, fun _ _ _ hno => hno.elim⟩

/-- What a list shows depends on what is refused, however that is said. -/
theorem Shows.congr {rows : List Row} {unexamined : Bool} {refused refused' : α → Prop}
    {listed : List α} (h : Shows rows unexamined decode instant aged refused table listed)
    (hiff : ∀ a ∈ table, refused a ↔ refused' a) :
    Shows rows unexamined decode instant aged refused' table listed :=
  ⟨h.rows, h.nodup, fun a ha => ⟨(h.sound a ha).1, (hiff a (h.sound a ha).1).mp (h.sound a ha).2⟩,
    fun hexamined a ha hrefused => h.complete hexamined a ha ((hiff a ha).mpr hrefused)⟩

/-- A row keeps its place whatever else a list says of it. -/
theorem Shows.map {Row' : Type} {decode' : α → Row'} {f : Row → Row'} {rows : List Row}
    {unexamined : Bool} {refused : α → Prop} {listed : List α}
    (h : Shows rows unexamined decode instant aged refused table listed)
    (hf : ∀ a, refused a → f (decode a) = decode' a) :
    Shows (rows.map f) unexamined decode' instant aged refused table listed := by
  refine ⟨?_, h.nodup, h.sound, h.complete⟩
  rw [h.rows, List.map_map]
  exact List.map_congr_left fun a ha => hf a (h.sound a ha).2

/-- Two windows that share no row show what either does. -/
theorem Shows.append {rows₁ rows₂ : List Row} {unexamined₁ unexamined₂ : Bool}
    {refused₁ refused₂ : α → Prop} {listed₁ listed₂ : List α}
    (h₁ : Shows rows₁ unexamined₁ decode instant aged refused₁ table listed₁)
    (h₂ : Shows rows₂ unexamined₂ decode instant aged refused₂ table listed₂)
    (hdisjoint : ∀ a, refused₁ a → ¬ refused₂ a) :
    Shows (rows₁ ++ rows₂) (unexamined₁ || unexamined₂) decode instant aged
      (fun a => refused₁ a ∨ refused₂ a) table (listed₁ ++ listed₂) := by
  refine ⟨?_, ?_, fun a ha => ?_, fun hexamined a ha hrefused haged => ?_⟩
  · rw [h₁.rows, h₂.rows, List.map_append]
  · exact h₁.nodup.append h₂.nodup fun a ha ha' =>
      hdisjoint a (h₁.sound a ha).2 (h₂.sound a ha').2
  · rcases List.mem_append.mp ha with ha | ha
    · exact ⟨(h₁.sound a ha).1, Or.inl (h₁.sound a ha).2⟩
    · exact ⟨(h₂.sound a ha).1, Or.inr (h₂.sound a ha).2⟩
  · rw [Bool.or_eq_false_iff] at hexamined
    rw [List.mem_append]
    rcases hrefused with hrefused | hrefused
    · exact Or.inl (h₁.complete hexamined.1 a ha hrefused haged)
    · exact Or.inr (h₂.complete hexamined.2 a ha hrefused haged)

/-- The windows of legs that share no row show what any of them does. -/
theorem Shows.legs {σ ω : Type} (legs : List σ) {window : ℕ → σ → ω} {found : ω → NotTaken Row}
    {listed : ℕ → σ → List α} {refused : ℕ → σ → α → Prop}
    (h : ∀ i s, legs[i]? = some s → Shows (found (window i s)).rows (found (window i s)).unexamined
      decode instant aged (refused i s) table (listed i s))
    (hdisjoint : ∀ i j s s', i ≠ j → legs[i]? = some s → legs[j]? = some s' →
      ∀ a, refused i s a → ¬ refused j s' a) :
    Shows (((legs.mapIdx window).map found).flatMap NotTaken.rows)
      (((legs.mapIdx window).map found).any NotTaken.unexamined) decode instant aged
      (fun a => ∃ i, ∃ s ∈ legs[i]?, refused i s a) table (legs.mapIdx listed).flatten := by
  induction legs generalizing window listed refused with
  | nil => exact Shows.nil.congr fun a _ => by simp
  | cons s legs ih =>
    have hrest := @ih (fun i => window (i + 1)) (fun i => listed (i + 1)) (fun i => refused (i + 1))
      (fun i s' hs' => h (i + 1) s' hs')
      (fun i j s' s'' hij hs' hs'' => hdisjoint (i + 1) (j + 1) s' s''
        (fun heq => hij (Nat.succ.inj heq)) hs' hs'')
    have hboth := (h 0 s rfl).append hrest fun a hrefused => by
      rintro ⟨j, s', hs', hrefused'⟩
      exact hdisjoint 0 (j + 1) s s' (Nat.succ_ne_zero j).symm rfl hs' a hrefused hrefused'
    rw [List.mapIdx_cons, List.mapIdx_cons, List.map_cons, List.flatMap_cons, List.any_cons,
      List.flatten_cons]
    refine hboth.congr fun a _ => ⟨?_, ?_⟩
    · rintro (hrefused | ⟨j, s', hs', hrefused⟩)
      · exact ⟨0, s, rfl, hrefused⟩
      · exact ⟨j + 1, s', hs', hrefused⟩
    · rintro ⟨i, s', hs', hrefused⟩
      cases i with
      | zero =>
        obtain rfl : s = s' := Option.some.inj hs'
        exact Or.inl hrefused
      | succ j => exact Or.inr ⟨j, s', hs', hrefused⟩

variable {kind : OwedKind α Row} {limit : ℕ} {id : α → String} {instant' : β → Option ℤ}
  {id' : β → String} {due : List α} {admitted : List β}

/-- The rows a window lists are the settled ones. -/
theorem notTaken_rows [DecidablePred aged] {taken : List Placed} (read : List α) :
    (notTaken kind taken limit aged read).rows =
      (read.filter (Settled kind taken limit)).map fun raw => (kind.decode raw).1 :=
  (@foldl_settle α Row kind taken limit aged _ read {}).1

/-- A window shows the due rows that the leg beside it does not admit. -/
theorem Beside.shows [DecidablePred aged]
    (h : Beside kind instant id instant' id' due admitted) (hdue : ∀ a ∈ due, a ∈ table)
    (hclosed : ∀ v w : ℤ, v ≤ w → aged (some w) → aged (some v)) :
    Shows (notTaken kind (takenOf instant' id' limit admitted) limit aged
        ((due.insertionSort (instantOrder instant id)).take (limit + 2))).rows
      (notTaken kind (takenOf instant' id' limit admitted) limit aged
        ((due.insertionSort (instantOrder instant id)).take (limit + 2))).unexamined
      (fun raw => (kind.decode raw).1) instant aged
      (fun a => a ∈ due ∧ ∀ b ∈ admitted, id' b ≠ id a) table
      (((due.insertionSort (instantOrder instant id)).take (limit + 2)).filter
        (Settled kind (takenOf instant' id' limit admitted) limit)) := by
  have hmem : ∀ {a}, a ∈ (due.insertionSort (instantOrder instant id)).take (limit + 2) →
      a ∈ due := fun ha => (List.mem_insertionSort _).mp (List.mem_of_mem_take ha)
  refine ⟨notTaken_rows _, ?_, fun a ha => ?_, fun hexamined a _ hrefused haged => ?_⟩
  · refine List.Nodup.filter _ (List.Nodup.sublist (List.take_sublist _ _) ?_)
    exact (List.perm_insertionSort _ due).nodup_iff.mpr h.nodup
  · obtain ⟨ha, hsettled⟩ := List.mem_filter.mp ha
    exact ⟨hdue a (hmem ha), hmem ha, h.settled (hmem ha) (of_decide_eq_true hsettled)⟩
  · exact h.listed hclosed hexamined hrefused.1 haged hrefused.2

/-- A list made of windows is exact. -/
theorem Shows.exact {rows : List Row} {unexamined : Bool} {nowMs : Option ℤ} {graceMs : ℤ}
    {refused : α → Prop} [DecidablePred refused] {listed : List α} {dueAtMs : Row → Option ℤ}
    {idOf : Row → String}
    (h : Shows rows unexamined decode instant (agedAt nowMs graceMs) refused table listed)
    (hid : ∀ a, idOf (decode a) = id a) (hdue : ∀ a, refused a → dueAtMs (decode a) = instant a)
    (hdated : ∀ a, refused a → ∃ v, instant a = some v) (htable : table.Nodup)
    (hunique : ∀ a ∈ table, ∀ b ∈ table, id a = id b → a = b) :
    Windowed.Exact { owedFor dueAtMs idOf nowMs graceMs limit rows with unexamined } decode instant
      id nowMs graceMs limit refused table := by
  refine Windowed.exact ?_ h.nodup htable hunique h.sound h.complete
  rw [h.rows]
  exact owedFor_lists nowMs graceMs limit ⟨fun a _ => hid a,
    fun a ha => hdue a (h.sound a ha).2, fun a ha => hdated a (h.sound a ha).2⟩

end Shows

/-! ## The report -/

/-- A run that is due, at its window's instant and at its leg's, and that the leg does not admit
with a task that owns it. -/
def runRefused (db : Db) (rows : ℤ → Run → Prop) (admitted : ℤ → Run → Task → Prop)
    (window leg : ℤ) (r : Run) : Prop :=
  rows window r ∧ rows leg r ∧ ¬ ∃ t ∈ db.tasks, runOwnedByTask r t ∧ admitted leg r t

instance {db : Db} {rows : ℤ → Run → Prop} {admitted : ℤ → Run → Task → Prop} {window leg : ℤ}
    [∀ now, DecidablePred (rows now)] [∀ now r, DecidablePred (admitted now r)] :
    DecidablePred (runRefused db rows admitted window leg) :=
  fun _ => inferInstanceAs (Decidable (_ ∧ _ ∧ _))

/-- A run no claim takes, due in either state a claim takes runs from. -/
def claimRefused (db : Db) (queue : String) (n : ℕ) (clock : ℕ → ℤ) (r : Run) : Prop :=
  runRefused db (dueRuns queue .pending) (claimOwed db queue .pending) (clock 0) (clock (3 + n)) r ∨
    runRefused db (dueRuns queue .sleeping) (claimOwed db queue .sleeping) (clock 1)
      (clock (4 + n)) r
deriving Decidable

/-- A run with a lapsed lease that no sweep takes back. -/
def reclaimRefused (db : Db) (queue : String) (n : ℕ) (clock : ℕ → ℤ) (r : Run) : Prop :=
  runRefused db (leasesLapsed queue) (claimsExpired db queue) (clock 2) (clock (5 + n)) r
deriving Decidable

/-- A task past its deadline, at its window's instant and at the leg's, that no sweep cancels. -/
def cancelRefused (db : Db) (queue : String) (legs : List (List TaskState)) (clock : ℕ → ℤ)
    (t : Task) : Prop :=
  (∃ leg : Fin legs.length, deadlinesPassed queue legs[leg] (clock (3 + leg)) t ∧
      deadlinesPassed queue legs[leg] (clock (6 + legs.length)) t) ∧
    ¬ sweepCancelsDue db (clock (6 + legs.length)) queue t
deriving Decidable

/-- A window of runs leaves one unexamined, beside a leg of the engine's own. -/
def runsUnexamined (db : Db) (rows : Run → Prop) [DecidablePred rows] (admitted : Run → Task → Prop)
    [∀ r, DecidablePred (admitted r)] (dueAt : Run → Option ℤ) (nowMs : Option ℤ) (graceMs : ℤ)
    (limit : ℕ) : Prop :=
  LeavesUnexamined dueAt Run.runId (fun p : Run × Task => dueAt p.1) (fun p => p.1.runId)
    (agedAt nowMs graceMs) limit (db.runs.rows.filter rows) (admittedRuns db admitted)
deriving Decidable

/-- A window of deadlines leaves a task unexamined, beside the sweep's own leg. -/
def tasksUnexamined (db : Db) (queue : String) (states : List TaskState) (window leg : ℤ)
    (nowMs : Option ℤ) (graceMs : ℤ) (limit : ℕ) : Prop :=
  LeavesUnexamined Task.cancelAtMs Task.taskId Task.cancelAtMs Task.taskId (agedAt nowMs graceMs)
    limit (db.tasks.rows.filter (deadlinesPassed queue states window))
    (db.tasks.rows.filter (sweepCancelsDue db leg queue))
deriving Decidable

/-- What the lists of a report hold, and when one of them says that a row was left unexamined. -/
structure StuckRuns.Exact (report : StuckRuns) (db : Db) (queue : String)
    (deadlines : DeadlineLegs) (clock : ℕ → ℤ) (graceMs : ℤ) (limit : ℕ) : Prop where
  nowMs : report.nowMs = (readInteger "derived.epoch_ms" epochBounds none none
    (some (clock (7 + deadlines.legs.length)))).1
  dueUnclaimed : report.dueUnclaimed.Lists
    (fun p => (overdueRun "runs.available_at_ms" Run.availableAtMs p).1)
    (fun p => p.1.availableAtMs) (fun p => p.1.runId) report.nowMs limit
    ((admittedRuns db (claimOwed db queue .pending (clock (3 + deadlines.legs.length)))).filter
      fun p => agedAt report.nowMs graceMs p.1.availableAtMs)
  sleepingPastWake : report.sleepingPastWake.Lists
    (fun p => (overdueRun "runs.available_at_ms" Run.availableAtMs p).1)
    (fun p => p.1.availableAtMs) (fun p => p.1.runId) report.nowMs limit
    ((admittedRuns db (claimOwed db queue .sleeping (clock (4 + deadlines.legs.length)))).filter
      fun p => agedAt report.nowMs graceMs p.1.availableAtMs)
  leaseLapsed : report.leaseLapsed.Lists
    (fun p => ⟨(overdueRun "runs.claim_expires_at_ms" Run.claimExpiresAtMs p).1,
      (readActivated p.1).1⟩)
    (fun p => p.1.claimExpiresAtMs) (fun p => p.1.runId) report.nowMs limit
    ((admittedRuns db (claimsExpired db queue (clock (5 + deadlines.legs.length)))).filter
      fun p => agedAt report.nowMs graceMs p.1.claimExpiresAtMs)
  cancelOverdue : report.cancelOverdue.Lists (fun t => (overdueTask db t).1) Task.cancelAtMs
    Task.taskId report.nowMs limit
    ((db.tasks.rows.filter
      (sweepCancelsDue db (clock (6 + deadlines.legs.length)) queue)).filter
        fun t => agedAt report.nowMs graceMs t.cancelAtMs)
  dueNotAdmitted : report.dueNotAdmitted.Exact
    (fun r => ⟨((runsOwed "runs.available_at_ms" Run.availableAtMs).decode r).1, r.state⟩)
    Run.availableAtMs Run.runId report.nowMs graceMs limit
    (claimRefused db queue deadlines.legs.length clock) db.runs.rows
  lapsedNotReclaimed : report.lapsedNotReclaimed.Exact
    (fun r => ((runsOwed "runs.claim_expires_at_ms" Run.claimExpiresAtMs).decode r).1)
    Run.claimExpiresAtMs Run.runId report.nowMs graceMs limit
    (reclaimRefused db queue deadlines.legs.length clock) db.runs.rows
  deadlineNotCancelled : report.deadlineNotCancelled.Exact (fun t => (tasksOwed.decode t).1)
    Task.cancelAtMs Task.taskId report.nowMs graceMs limit
    (cancelRefused db queue deadlines.legs clock) db.tasks.rows
  dueUnexamined : report.dueNotAdmitted.unexamined = true ↔
    runsUnexamined db (dueRuns queue .pending (clock 0))
        (claimOwed db queue .pending (clock (3 + deadlines.legs.length))) Run.availableAtMs
        report.nowMs graceMs limit ∨
      runsUnexamined db (dueRuns queue .sleeping (clock 1))
        (claimOwed db queue .sleeping (clock (4 + deadlines.legs.length))) Run.availableAtMs
        report.nowMs graceMs limit
  lapsedUnexamined : report.lapsedNotReclaimed.unexamined = true ↔
    runsUnexamined db (leasesLapsed queue (clock 2))
      (claimsExpired db queue (clock (5 + deadlines.legs.length))) Run.claimExpiresAtMs
      report.nowMs graceMs limit
  deadlinesUnexamined : report.deadlineNotCancelled.unexamined = true ↔
    ∃ leg : Fin deadlines.legs.length, tasksUnexamined db queue deadlines.legs[leg]
      (clock (3 + leg)) (clock (6 + deadlines.legs.length)) report.nowMs graceMs limit

section Report

variable {db : Db} {queue : String} {nowMs : Option ℤ} {graceMs : ℤ} {limit : ℕ}

/-- A leg of runs: what it admits is due by an instant the engine stores, and stays due. -/
structure Leg (dueAt : Run → Option ℤ) (rows : ℤ → Run → Prop) (admitted : ℤ → Run → Task → Prop) :
    Prop where
  stored : ∀ {now r}, rows now r → epochBounds.Stored (dueAt r)
  due : ∀ {now r t}, admitted now r t → rows now r
  mono : ∀ {now now' r}, now ≤ now' → rows now r → rows now' r

/-- The due runs of a state are a leg: those the engine takes are among them, and each has its
instant. -/
theorem dueRuns_leg (state : TaskState) :
    Leg Run.availableAtMs (dueRuns queue state) (claimOwed db queue state) :=
  ⟨fun h => h.2.2.imp fun _ hv => ⟨hv.1, hv.2.1⟩, fun h => h.1, fun hle h =>
    ⟨h.1, h.2.1, h.2.2.imp fun _ hv => ⟨hv.1, hv.2.1, hv.2.2.trans hle⟩⟩⟩

/-- The lapsed leases are a leg: those the engine reclaims are among them, and each has its instant.
-/
theorem leasesLapsed_leg : Leg Run.claimExpiresAtMs (leasesLapsed queue) (claimsExpired db queue) :=
  ⟨fun h => h.2.2.imp fun _ hv => ⟨hv.1, hv.2.1⟩, fun h => h.1, fun hle h =>
    ⟨h.1, h.2.1, h.2.2.imp fun _ hv => ⟨hv.1, hv.2.1, hv.2.2.trans hle⟩⟩⟩

variable {field : String} {dueAt : Run → Option ℤ} {rows : ℤ → Run → Prop}
  {admitted : ℤ → Run → Task → Prop} [∀ now r, DecidablePred (admitted now r)]

/-- What a window looks its rows up in is the rows its leg read. -/
theorem Leg.taken (hleg : Leg dueAt rows admitted) (leg : ℤ) :
    (overdueRunsRead db (admitted leg) dueAt (limit + 1)).map (fun p =>
        ⟨(overdueRun field dueAt p).1.runId, (overdueRun field dueAt p).1.dueAtMs⟩) =
      takenOf (fun p : Run × Task => dueAt p.1) (fun p => p.1.runId) limit
        (admittedRuns db (admitted leg)) := by
  refine List.map_congr_left fun p hp => ?_
  have hmem := mem_admittedRuns.mp ((List.mem_insertionSort _).mp (List.mem_of_mem_take hp))
  exact congrArg (Placed.mk p.1.runId) (readInteger_stored (hleg.stored (hleg.due hmem.2.2.2)))

/-- A window of runs shows those due that its leg does not admit. -/
theorem Leg.shows [∀ now, DecidablePred (rows now)] (hleg : Leg dueAt rows admitted)
    {window leg : ℤ} (hclock : window ≤ leg) {taken : List Placed}
    (htaken : taken = takenOf (fun p : Run × Task => dueAt p.1) (fun p => p.1.runId) limit
      (admittedRuns db (admitted leg))) :
    Shows
      (notTaken (runsOwed field dueAt) taken limit (agedAt nowMs graceMs)
        (overdueRunsWindowRead db (rows window) dueAt (limit + 2))).rows
      (notTaken (runsOwed field dueAt) taken limit (agedAt nowMs graceMs)
        (overdueRunsWindowRead db (rows window) dueAt (limit + 2))).unexamined
      (fun r => ((runsOwed field dueAt).decode r).1) dueAt (agedAt nowMs graceMs)
      (runRefused db rows admitted window leg) db.runs.rows
      ((overdueRunsWindowRead db (rows window) dueAt (limit + 2)).filter
        (Settled (runsOwed field dueAt) taken limit)) := by
  subst htaken
  refine ((runs_beside (fun r => hleg.stored) fun r t h => hleg.stored (hleg.due h)).shows
    (fun r hr => (List.mem_filter.mp hr).1) fun v w => agedAt_closed).congr fun r hr => ?_
  rw [List.mem_filter, decide_eq_true_eq]
  unfold runRefused
  constructor
  · rintro ⟨⟨_, hdue⟩, hnone⟩
    refine ⟨hdue, hleg.mono hclock hdue, ?_⟩
    rintro ⟨t, ht, hown, hadm⟩
    exact hnone (r, t) (mem_admittedRuns.mpr ⟨hr, ht, hown, hadm⟩) rfl
  · rintro ⟨hdue, _, hnone⟩
    refine ⟨⟨hr, hdue⟩, ?_⟩
    rintro ⟨s, t⟩ hp hid
    obtain ⟨hs, ht, hown, hadm⟩ := mem_admittedRuns.mp hp
    obtain rfl : s = r := db.run_unique hs hr hid
    exact hnone ⟨t, ht, hown, hadm⟩

/-- A window of runs says whether it left one unexamined. -/
theorem Leg.unexamined_iff [∀ now, DecidablePred (rows now)] (hleg : Leg dueAt rows admitted)
    {window leg : ℤ} {taken : List Placed}
    (htaken : taken = takenOf (fun p : Run × Task => dueAt p.1) (fun p => p.1.runId) limit
      (admittedRuns db (admitted leg))) :
    (notTaken (runsOwed field dueAt) taken limit (agedAt nowMs graceMs)
      (overdueRunsWindowRead db (rows window) dueAt (limit + 2))).unexamined = true ↔
      runsUnexamined db (rows window) (admitted leg) dueAt nowMs graceMs limit := by
  subst htaken
  exact (runs_beside (fun r => hleg.stored) fun r t h => hleg.stored (hleg.due h)).unexamined_iff
    admittedRuns_unique fun v w => agedAt_closed

/-- What a leg of the engine's own lists. -/
theorem Leg.lists (hleg : Leg dueAt rows admitted) {Row : Type} {decode : Run × Task → Row}
    {dueAtMs : Row → Option ℤ} {idOf : Row → String} (leg : ℤ)
    (hid : ∀ p, idOf (decode p) = p.1.runId)
    (hdue : ∀ p, dueAtMs (decode p) = (overdueRun field dueAt p).1.dueAtMs) :
    (owedFor dueAtMs idOf nowMs graceMs limit
      ((overdueRunsRead db (admitted leg) dueAt (limit + 1)).map decode)).Lists decode
        (fun p => dueAt p.1) (fun p => p.1.runId) nowMs limit
        ((admittedRuns db (admitted leg)).filter fun p => agedAt nowMs graceMs (dueAt p.1)) := by
  have hdated := @admittedRuns_dated db dueAt (admitted leg) _
    fun r t h => hleg.stored (hleg.due h)
  refine Capped.Lists.of_take admittedRuns_unique hdated ?_
  refine owedFor_lists nowMs graceMs limit ⟨fun p _ => hid p, fun p hp => ?_, fun p hp => ?_⟩
  · have hmem := mem_admittedRuns.mp ((List.mem_insertionSort _).mp (List.mem_of_mem_take hp))
    exact (hdue p).trans (readInteger_stored (hleg.stored (hleg.due hmem.2.2.2)))
  · exact hdated p ((List.mem_insertionSort _).mp (List.mem_of_mem_take hp))

/-- The window of one leg of deadlines shows the tasks past theirs that no sweep cancels. -/
theorem tasks_shows {states : List TaskState} {window leg : ℤ} (hclock : window ≤ leg)
    {taken : List Placed} (htaken : taken = takenOf Task.cancelAtMs Task.taskId limit
      (db.tasks.rows.filter (sweepCancelsDue db leg queue))) :
    Shows
      (notTaken tasksOwed taken limit (agedAt nowMs graceMs)
        (overdueTasksWindowRead db (deadlinesPassed queue states window) (limit + 2))).rows
      (notTaken tasksOwed taken limit (agedAt nowMs graceMs)
        (overdueTasksWindowRead db (deadlinesPassed queue states window) (limit + 2))).unexamined
      (fun t => (tasksOwed.decode t).1) Task.cancelAtMs (agedAt nowMs graceMs)
      (fun t => (deadlinesPassed queue states window t ∧ deadlinesPassed queue states leg t) ∧
        ¬ sweepCancelsDue db leg queue t) db.tasks.rows
      ((overdueTasksWindowRead db (deadlinesPassed queue states window) (limit + 2)).filter
        (Settled tasksOwed taken limit)) := by
  subst htaken
  refine ((tasks_beside fun t h => h.2.2.imp fun _ hv => ⟨hv.1, hv.2.1⟩).shows
    (fun t ht => (List.mem_filter.mp ht).1) fun v w => agedAt_closed).congr fun t ht => ?_
  rw [List.mem_filter, decide_eq_true_eq]
  constructor
  · rintro ⟨⟨_, hdue⟩, hnone⟩
    refine ⟨⟨hdue, hdue.1, hdue.2.1, hdue.2.2.imp fun v hv => ⟨hv.1, hv.2.1, hv.2.2.trans hclock⟩⟩,
      fun hcancel => ?_⟩
    exact hnone t (List.mem_filter.mpr ⟨ht, decide_eq_true hcancel⟩) rfl
  · rintro ⟨⟨hdue, _⟩, hnone⟩
    refine ⟨⟨ht, hdue⟩, fun u hu hid => hnone ?_⟩
    obtain ⟨hu, hcancel⟩ := List.mem_filter.mp hu
    rw [← db.task_unique hu ht hid]
    exact of_decide_eq_true hcancel

/-- A window of deadlines says whether it left a task unexamined. -/
theorem tasks_unexamined_iff {states : List TaskState} {window leg : ℤ} {taken : List Placed}
    (htaken : taken = takenOf Task.cancelAtMs Task.taskId limit
      (db.tasks.rows.filter (sweepCancelsDue db leg queue))) :
    (notTaken tasksOwed taken limit (agedAt nowMs graceMs)
      (overdueTasksWindowRead db (deadlinesPassed queue states window) (limit + 2))).unexamined =
        true ↔ tasksUnexamined db queue states window leg nowMs graceMs limit := by
  subst htaken
  refine (tasks_beside fun t h => h.2.2.imp fun _ hv => ⟨hv.1, hv.2.1⟩).unexamined_iff
    (fun t ht u hu hid => ?_) fun v w => agedAt_closed
  exact db.task_unique (List.mem_filter.mp ht).1 (List.mem_filter.mp hu).1 hid

/-- What a window looks its tasks up in is the tasks the leg of deadlines read. -/
theorem sweepDueCancels_taken (now : ℤ) :
    (sweepDueCancels db now queue (limit + 1)).map (fun t =>
        ⟨(overdueTask db t).1.taskId, (overdueTask db t).1.dueAtMs⟩) =
      takenOf Task.cancelAtMs Task.taskId limit
        (db.tasks.rows.filter (sweepCancelsDue db now queue)) := by
  refine List.map_congr_left fun t ht => ?_
  have hmem := (List.mem_insertionSort _).mp (List.mem_of_mem_take ht)
  have hdue := (of_decide_eq_true (List.mem_filter.mp hmem).2).2.1
  exact congrArg (Placed.mk t.taskId) (readInteger_stored (hdue.imp fun _ hv => ⟨hv.1, hv.2.1⟩))

/-- What the engine's leg of deadlines lists. -/
theorem sweepDueCancels_lists (now : ℤ) :
    (owedFor OverdueTask.dueAtMs OverdueTask.taskId nowMs graceMs limit
      ((sweepDueCancels db now queue (limit + 1)).map fun t => (overdueTask db t).1)).Lists
        (fun t => (overdueTask db t).1) Task.cancelAtMs Task.taskId nowMs limit
        ((db.tasks.rows.filter (sweepCancelsDue db now queue)).filter
          fun t => agedAt nowMs graceMs t.cancelAtMs) := by
  have hmem : ∀ {t}, t ∈ db.tasks.rows.filter (sweepCancelsDue db now queue) →
      t ∈ db.tasks ∧ sweepCancelsDue db now queue t := fun ht =>
    ⟨(List.mem_filter.mp ht).1, of_decide_eq_true (List.mem_filter.mp ht).2⟩
  have hread : ∀ {t}, t ∈ sweepDueCancels db now queue (limit + 1) →
      sweepCancelsDue db now queue t := fun ht =>
    (hmem ((List.mem_insertionSort _).mp (List.mem_of_mem_take ht))).2
  refine Capped.Lists.of_take (fun t ht u hu hid => db.task_unique (hmem ht).1 (hmem hu).1 hid)
    (fun t ht => (hmem ht).2.2.1.imp fun _ hv => hv.1) ?_
  exact owedFor_lists nowMs graceMs limit (cancels_places fun t ht => hread ht)

end Report

/-! ## The lists of windows -/

/-- A leg's states are its own. -/
theorem DeadlineLegs.disjoint (deadlines : DeadlineLegs) {i j : ℕ} {s s' : List TaskState}
    (hij : i ≠ j) (hs : deadlines.legs[i]? = some s) (hs' : deadlines.legs[j]? = some s')
    {state : TaskState} (hstate : state ∈ s) : state ∉ s' := by
  have hpair := List.pairwise_iff_getElem.mp (List.nodup_flatten.mp deadlines.nodup).2
  obtain ⟨hi, rfl⟩ := List.getElem?_eq_some_iff.mp hs
  obtain ⟨hj, rfl⟩ := List.getElem?_eq_some_iff.mp hs'
  rcases Nat.lt_or_gt_of_ne hij with hlt | hlt
  · exact fun hstate' => hpair i j hi hj hlt hstate hstate'
  · exact fun hstate' => hpair j i hj hi hlt hstate' hstate

section Windows

variable (db : Db) (queue : String) (deadlines : DeadlineLegs) {clock : ℕ → ℤ}
  (hclock : Monotone clock) (fakeClock : Bool) (graceMs : ℤ) (limit : ℕ)
include hclock

/-- The report's due runs are those no claim admits. -/
theorem stuckRuns_dueNotAdmitted :
    (stuckRuns db queue deadlines clock fakeClock graceMs limit).dueNotAdmitted.Exact
      (fun r => ⟨((runsOwed "runs.available_at_ms" Run.availableAtMs).decode r).1, r.state⟩)
      Run.availableAtMs Run.runId
      (stuckRuns db queue deadlines clock fakeClock graceMs limit).nowMs graceMs limit
      (claimRefused db queue deadlines.legs.length clock) db.runs.rows := by
  unfold stuckRuns
  simp only [List.map_map]
  have hstored : ∀ r, claimRefused db queue deadlines.legs.length clock r →
      epochBounds.Stored r.availableAtMs := by
    rintro r (hrefused | hrefused)
    · exact (dueRuns_leg .pending : Leg _ _ (claimOwed db _ _)).stored hrefused.1
    · exact (dueRuns_leg .sleeping : Leg _ _ (claimOwed db _ _)).stored hrefused.1
  refine Shows.exact (((Leg.shows (dueRuns_leg .pending) (hclock (Nat.zero_le _))
    ((dueRuns_leg .pending).taken _)).map ?_).append ((Leg.shows (dueRuns_leg .sleeping)
      (hclock (by omega)) ((dueRuns_leg .sleeping).taken _)).map ?_) ?_) (fun _ => rfl)
        (fun r hr => readInteger_stored (hstored r hr)) (fun r hr => stored_dated (hstored r hr))
        (db.runs.nodup_rows Run.keys_ne_nil) fun r hr s hs hid => db.run_unique hr hs hid
  · rintro r ⟨⟨_, hstate, _⟩, _⟩
    rw [hstate]
  · rintro r ⟨⟨_, hstate, _⟩, _⟩
    rw [hstate]
  · rintro r ⟨⟨_, hstate, _⟩, _⟩ ⟨⟨_, hstate', _⟩, _⟩
    exact absurd (hstate.symm.trans hstate') (by decide)

/-- The report's lapsed leases are those no sweep reclaims. -/
theorem stuckRuns_lapsedNotReclaimed :
    (stuckRuns db queue deadlines clock fakeClock graceMs limit).lapsedNotReclaimed.Exact
      (fun r => ((runsOwed "runs.claim_expires_at_ms" Run.claimExpiresAtMs).decode r).1)
      Run.claimExpiresAtMs Run.runId
      (stuckRuns db queue deadlines clock fakeClock graceMs limit).nowMs graceMs limit
      (reclaimRefused db queue deadlines.legs.length clock) db.runs.rows := by
  unfold stuckRuns
  simp only [List.zipWith_map, List.zipWith_self, List.map_map]
  have hstored : ∀ r, reclaimRefused db queue deadlines.legs.length clock r →
      epochBounds.Stored r.claimExpiresAtMs :=
    fun r hrefused => (leasesLapsed_leg : Leg _ _ (claimsExpired db _)).stored hrefused.1
  exact Shows.exact (leasesLapsed_leg.shows (hclock (by omega)) (leasesLapsed_leg.taken _))
    (fun _ => rfl) (fun r hr => readInteger_stored (hstored r hr))
    (fun r hr => stored_dated (hstored r hr)) (db.runs.nodup_rows Run.keys_ne_nil)
    fun r hr s hs hid => db.run_unique hr hs hid

/-- The report's deadlines are those no sweep cancels. -/
theorem stuckRuns_deadlineNotCancelled :
    (stuckRuns db queue deadlines clock fakeClock graceMs limit).deadlineNotCancelled.Exact
      (fun t => (tasksOwed.decode t).1) Task.cancelAtMs Task.taskId
      (stuckRuns db queue deadlines clock fakeClock graceMs limit).nowMs graceMs limit
      (cancelRefused db queue deadlines.legs clock) db.tasks.rows := by
  have hstored : ∀ t, cancelRefused db queue deadlines.legs clock t →
      epochBounds.Stored t.cancelAtMs := by
    rintro t ⟨⟨leg, hdue, _⟩, _⟩
    exact hdue.2.2.imp fun _ hv => ⟨hv.1, hv.2.1⟩
  unfold stuckRuns
  simp only [List.map_map]
  refine Shows.exact ((Shows.legs deadlines.legs (fun i states hstates => tasks_shows
    (hclock (?_ : 3 + i ≤ 6 + deadlines.legs.length)) ?_) ?_).congr ?_) (fun _ => rfl)
    (fun t ht => readInteger_stored (hstored t ht))
    (fun t ht => stored_dated (hstored t ht)) (db.tasks.nodup_rows Task.keys_ne_nil)
    fun t ht u hu hid => db.task_unique ht hu hid
  · have hlt := (List.getElem?_eq_some_iff.mp hstates).1
    omega
  · exact sweepDueCancels_taken _
  · rintro i j s s' hij hs hs' t ⟨⟨hdue, _⟩, _⟩ ⟨⟨hdue', _⟩, _⟩
    exact deadlines.disjoint hij hs hs' hdue.2.1 hdue'.2.1
  · refine fun t _ => ⟨?_, ?_⟩
    · rintro ⟨i, s, hs, hdue, hnot⟩
      obtain ⟨hi, rfl⟩ := List.getElem?_eq_some_iff.mp hs
      exact ⟨⟨⟨i, hi⟩, hdue⟩, hnot⟩
    · rintro ⟨⟨leg, hdue⟩, hnot⟩
      exact ⟨leg, _, List.getElem?_eq_getElem leg.isLt, hdue, hnot⟩

end Windows

/-- Every list of the report is exact, at any clocks that do not run backwards. -/
theorem stuckRuns_exact (db : Db) (queue : String) (deadlines : DeadlineLegs) {clock : ℕ → ℤ}
    (hclock : Monotone clock) (fakeClock : Bool) (graceMs : ℤ) (limit : ℕ) :
    (stuckRuns db queue deadlines clock fakeClock graceMs limit).Exact db queue deadlines clock
      graceMs limit := by
  refine ⟨rfl, ?_, ?_, ?_, ?_, stuckRuns_dueNotAdmitted db queue deadlines hclock fakeClock graceMs
    limit, stuckRuns_lapsedNotReclaimed db queue deadlines hclock fakeClock graceMs limit,
    stuckRuns_deadlineNotCancelled db queue deadlines hclock fakeClock graceMs limit, ?_, ?_, ?_⟩
  · unfold stuckRuns
    simp only [List.map_map]
    exact (dueRuns_leg .pending).lists _ (fun _ => rfl) fun _ => rfl
  · unfold stuckRuns
    simp only [List.map_map]
    exact (dueRuns_leg .sleeping).lists _ (fun _ => rfl) fun _ => rfl
  · unfold stuckRuns
    simp only [List.zipWith_map, List.zipWith_self]
    exact leasesLapsed_leg.lists _ (fun _ => rfl) fun _ => rfl
  · unfold stuckRuns
    simp only [List.map_map]
    exact sweepDueCancels_lists _
  · unfold stuckRuns
    simp only [List.map_map, Bool.or_eq_true]
    exact or_congr ((dueRuns_leg .pending).unexamined_iff ((dueRuns_leg .pending).taken _))
      ((dueRuns_leg .sleeping).unexamined_iff ((dueRuns_leg .sleeping).taken _))
  · unfold stuckRuns
    simp only [List.zipWith_map, List.zipWith_self, List.map_map]
    exact leasesLapsed_leg.unexamined_iff (leasesLapsed_leg.taken _)
  · unfold stuckRuns
    simp only [List.map_map, List.any_map, List.any_eq_true, List.mem_mapIdx]
    constructor
    · rintro ⟨_, ⟨leg, hleg, rfl⟩, hunexamined⟩
      exact ⟨⟨leg, hleg⟩, (tasks_unexamined_iff (sweepDueCancels_taken _)).mp hunexamined⟩
    · rintro ⟨leg, hunexamined⟩
      exact ⟨_, ⟨leg, leg.isLt, rfl⟩,
        (tasks_unexamined_iff (sweepDueCancels_taken _)).mpr hunexamined⟩

/-- Four runs are due: one claim takes two of them, and none the two whose task is not there. A report
of one row lists the first of those two, and says that there may be more; a report of four lists
both. -/
theorem stuckRuns_exact_queuedSix :
    (stuckRuns queuedSix "q" .byState (fun n => 1000 + n) false 30 1).Exact queuedSix "q" .byState
        (fun n => 1000 + n) 30 1 ∧
      (stuckRuns queuedSix "q" .byState (fun n => 1000 + n) false 30 1).dueNotAdmitted.rows.map
        (fun owed => owed.row.runId) = ["r4"] ∧
      (stuckRuns queuedSix "q" .byState (fun n => 1000 + n) false 30 1).dueNotAdmitted.unexamined =
        true ∧
      (stuckRuns queuedSix "q" .byState (fun n => 1000 + n) false 30 4).Exact queuedSix "q" .byState
        (fun n => 1000 + n) 30 4 ∧
      (stuckRuns queuedSix "q" .byState (fun n => 1000 + n) false 30 4).dueNotAdmitted.rows.map
        (fun owed => owed.row.runId) = ["r4", "r6"] ∧
      (stuckRuns queuedSix "q" .byState (fun n => 1000 + n) false 30 4).dueNotAdmitted.unexamined =
        false := by
  have hclock : Monotone fun n : ℕ => (1000 : ℤ) + n :=
    fun _ _ hle => Int.add_le_add_left (Int.ofNat_le.mpr hle) 1000
  exact ⟨stuckRuns_exact queuedSix "q" .byState hclock false 30 1, by decide +kernel,
    by decide +kernel, stuckRuns_exact queuedSix "q" .byState hclock false 30 4, by decide +kernel,
    by decide +kernel⟩

end Durablerun.Operator
