import Durablerun.Sql.StoredFragments
import Durablerun.Store.Claim
import Durablerun.Store.Reads

/-!
# The rows of the store, as stored values

A row of the scheduler's tables is a row whose columns hold the values the schema declares: texts,
integers, and NULL where a column holds nothing. On such rows the fragments over any stored values
pass exactly the rows the fragments over typed rows pass, so what a claim takes and what a sweep
cancels is one thing in both.

Reference: `packages/store-libsql/src/fragments.ts`.
-/

namespace Durablerun.Stored

open ThreeValued Relational

/-! ## Comparisons -/

/-- A condition of two values fails where its truth value does. -/
theorem ofBool_eq_no {b : Bool} : Truth.ofBool b = .no ↔ b = false := by
  cases b <;> simp [Truth.ofBool]

namespace Value

variable {a b : String} {m n : ℤ}

/-- Texts are equal as they are. -/
@[simp] theorem text_eq_text : (text a).eq (text b) = .ofBool (decide (a = b)) := by
  simp [eq, compared, place]

/-- Integers are equal as they are. -/
@[simp] theorem integer_eq_integer : (integer m).eq (integer n) = .ofBool (decide (m = n)) := by
  simp [eq, compared, place]

/-- Numbers are placed by their values. -/
theorem number_place_le {x y : Real64} : (real x).place ≤ (real y).place ↔ x ≤ y := by
  simp [place, le_iff_lt_or_eq, Prod.Lex.toLex_lt_toLex]

/-- An integer is placed where the real of its value is. -/
theorem integer_place : (integer n).place = (real (((n : ℚ) : WithTop ℚ) : Real64)).place := rfl

/-- Integers compare as they are. -/
@[simp] theorem integer_le_integer : (integer m).le (integer n) = .ofBool (decide (m ≤ n)) := by
  simp [le, compared, integer_place, number_place_le]

/-- An integer and a real compare by their values. -/
theorem integer_le_real {x : ℚ} :
    (integer n).le (real ((x : WithTop ℚ) : Real64)) = .ofBool (decide (n ≤ x)) := by
  simp [le, compared, integer_place, number_place_le]

/-- A real and an integer compare by their values. -/
theorem real_le_integer {x : ℚ} :
    (real ((x : WithTop ℚ) : Real64)).le (integer n) = .ofBool (decide (x ≤ n)) := by
  simp [le, compared, integer_place, number_place_le]

/-- Reals compare by their values. -/
theorem real_le_real {x y : ℚ} :
    (real ((x : WithTop ℚ) : Real64)).le (real ((y : WithTop ℚ) : Real64)) =
      .ofBool (decide (x ≤ y)) := by
  simp [le, compared, number_place_le]

/-- Integers compare strictly as they are. -/
@[simp] theorem integer_lt_integer : (integer m).lt (integer n) = .ofBool (decide (m < n)) := by
  simp [lt, compared, place, Prod.Lex.toLex_lt_toLex]

/-- A text equals what a column of texts holds where the column holds that text. -/
theorem text_eq_nullable {v : Option String} :
    (text a).eq (v.elim null text) = .yes ↔ v = some a := by
  cases v with
  | none => simp [eq, compared]
  | some b => rw [Option.elim_some, text_eq_text, Truth.ofBool_eq_yes, decide_eq_true_eq,
      Option.some_inj, eq_comm]

/-- A nullable column is NULL where it holds nothing. -/
theorem nullable_isNull {α : Type} {stored : α → Value} (h : ∀ v, stored v ≠ null)
    {v : Option α} : (v.elim null stored).isNull = .ofBool (decide (v = none)) := by
  cases v <;> simp [isNull, h]

/-- Two columns of integers agree where both hold nothing or both hold one integer. -/
theorem nullable_is_nullable {v w : Option ℤ} :
    (v.elim null integer).is (w.elim null integer) = .yes ↔ v = w := by
  cases v <;> cases w <;> simp [is, place]

end Value

/-- An integer column is within bounds, or it is not. -/
@[simp] theorem storedIntegerWithin_integer {bounds : IntegerBounds} {n : ℤ} :
    storedIntegerWithin bounds (.integer n) = .ofBool (decide (bounds.Within n)) := by
  by_cases hmin : bounds.min ≤ n <;> by_cases hmax : n ≤ bounds.max <;>
    simp [storedIntegerWithin, storedBoundedInteger, storedInteger, Value.typeof, Value.between,
      IntegerBounds.Within, hmin, hmax, Truth.ofBool, Truth.and]

/-- NULL is within no bounds. -/
theorem storedIntegerWithin_null {bounds : IntegerBounds} :
    storedIntegerWithin bounds .null ≠ .yes := by
  simp [storedIntegerWithin, storedBoundedInteger, storedInteger, Value.typeof]

/-- An integer column is within bounds and below the highest, or it is not. -/
@[simp] theorem storedIncrementableInteger_integer {bounds : IntegerBounds} {n : ℤ} :
    storedIncrementableInteger bounds (.integer n) = .yes ↔
      Durablerun.storedIncrementableInteger bounds n := by
  simp [storedIncrementableInteger, storedBoundedInteger, storedInteger, Value.typeof,
    Value.between, Durablerun.storedIncrementableInteger]

/-- A nullable instant that a comparison is made of: the column holds one, within the epoch. -/
theorem storedInstant_yes (compares : Value → Truth) {v : Option ℤ} {P : ℤ → Prop}
    (h : ∀ n, compares (.integer n) = .yes ↔ P n) :
    ((storedIntegerWithin epochBounds (v.elim .null .integer)).and
      (compares (v.elim .null .integer))) = .yes ↔ ∃ n ∈ v, epochBounds.Within n ∧ P n := by
  cases v with
  | none => simp [storedIntegerWithin_null]
  | some n => simp [h]

/-- An instant that is due: the column holds one, within the epoch, and it has come. -/
theorem storedInstant_due {v : Option ℤ} {now : ℤ} :
    ((storedIntegerWithin epochBounds (v.elim .null .integer)).and
      ((v.elim .null .integer : Value).le (.integer now))) = .yes ↔
        ∃ n ∈ v, epochBounds.Within n ∧ n ≤ now :=
  storedInstant_yes (Value.le · (.integer now)) fun n => by simp

/-! ## Rows that exist -/

section Rows

variable {ρ σ : Type} {stored : ρ → σ} {rows : List ρ} {condition : σ → Truth} {P : ρ → Prop}

/-- A row exists that a condition passes. -/
theorem exists'_map (h : ∀ row ∈ rows, condition (stored row) = .yes ↔ P row) :
    exists' (rows.map stored) condition = .yes ↔ ∃ row ∈ rows, P row := by
  simp only [exists', Truth.ofBool_eq_yes, List.any_map, List.any_eq_true, Function.comp_apply,
    decide_eq_true_eq]
  exact exists_congr fun row => and_congr_right (h row)

/-- No row exists that a condition passes, which is never unknown. -/
theorem exists'_not (h : ∀ row ∈ rows, condition (stored row) = .yes ↔ P row) :
    (exists' (rows.map stored) condition).not = .yes ↔ ¬ ∃ row ∈ rows, P row := by
  rw [← exists'_map h, Truth.not_eq_yes]
  refine ⟨fun hno hyes => ?_, exists'_no⟩
  rw [hno] at hyes
  cases hyes

/-- The stored rows a condition passes are those of the rows it holds of. -/
theorem select_map [DecidablePred P]
    (h : ∀ row ∈ rows, condition (stored row) = .yes ↔ P row) :
    select (rows.map stored) condition = (rows.filter P).map stored := by
  rw [select, List.filter_map]
  congr 1
  exact List.filter_congr fun row hrow => decide_eq_decide.mpr (h row hrow)

end Rows

/-! ## The columns of a row -/

/-- How the columns of JSON and the stamps are written. -/
structure Written where
  retryStrategy : RetryStrategy → String
  headers : List (String × String) → String
  stamp : Stamp → String

variable (w : Written)

/-- What a row of `tasks` holds. -/
def Written.task (t : Durablerun.Task) : Task where
  taskId := .text t.taskId
  queue := .text t.queue
  headers := t.headers.elim .null fun headers => .text (w.headers headers)
  retryStrategy := .text (w.retryStrategy t.retryStrategy)
  maxAttempts := .integer t.maxAttempts
  state := .text t.state.name
  attempts := .integer t.attempts
  infraRetries := .integer t.infraRetries
  lastAttemptRun := t.lastAttemptRun.elim .null .text
  completedPayload := t.completedPayload.elim .null .text
  failureReason := t.failureReason.elim .null .text
  cancelAtMs := t.cancelAtMs.elim .null .integer
  cancelledAtMs := t.cancelledAtMs.elim .null .integer
  fenceStamp := t.fenceStamp.elim .null fun stamp => .text (w.stamp stamp)
  fenceAtMs := .integer t.fenceAtMs

/-- What a row of `runs` holds. -/
def Written.run (r : Durablerun.Run) : Run where
  runId := .text r.runId
  queue := .text r.queue
  taskId := .text r.taskId
  attempt := .integer r.attempt
  state := .text r.state.name
  claimedBy := r.claimedBy.elim .null .text
  claimGen := .integer r.claimGen
  activatedGen := .integer r.activatedGen
  relaunchCount := .integer r.relaunchCount
  leaseMs := r.leaseMs.elim .null .integer
  claimExpiresAtMs := r.claimExpiresAtMs.elim .null .integer
  heartbeatAtMs := r.heartbeatAtMs.elim .null .integer
  availableAtMs := r.availableAtMs.elim .null .integer
  wakeEvent := r.wakeEvent.elim .null .text
  wakeStep := r.wakeStep.elim .null .text
  fenceStamp := r.fenceStamp.elim .null fun stamp => .text (w.stamp stamp)
  fenceAtMs := .integer r.fenceAtMs

/-- What a row of `waits` holds. A stored wait is waiting. -/
def waitRow (wait : Durablerun.Wait) : Wait where
  runId := .text wait.runId
  stepName := .text wait.stepName
  queue := .text wait.queue
  taskId := .text wait.taskId
  eventName := .text wait.eventName
  status := .text "waiting"
  timeoutAtMs := wait.timeoutAtMs.elim .null .integer

/-- What a row of `checkpoints` holds under its key. -/
def checkpointRow (c : Durablerun.Checkpoint) : Checkpoint :=
  ⟨.text c.taskId, .text c.checkpointName⟩

/-- A primary key of texts stays one: it is not NULL, and it names one row. -/
theorem key_apart {α κ : Type} {keys : α → List κ} (T : Table α keys) {stored : α → Value}
    {id : α → String} (hstored : ∀ a, stored a = .text (id a)) {key : String → κ}
    (hkey : ∀ a, key (id a) ∈ keys a) :
    T.rows.Pairwise fun a b => (stored a).place ≠ (stored b).place := by
  refine (List.nodup_flatMap.mp T.unique).2.imp fun {a b} hdisjoint hplace => ?_
  have hid : id a = id b := by simpa [hstored, Value.place] using hplace
  exact hdisjoint (hkey a) (hid ▸ hkey b)

/-- What the tables hold. -/
def Written.db (db : Durablerun.Db) : Db where
  tasks := db.tasks.rows.map w.task
  runs := db.runs.rows.map w.run
  waits := db.waits.rows.map waitRow
  checkpoints := db.checkpoints.rows.map checkpointRow
  tasks_named := by simp [Written.task]
  tasks_key := List.pairwise_map.mpr
    (key_apart db.tasks (fun _ => rfl) Durablerun.Task.id_mem_keys)
  runs_named := by simp [Written.run]
  runs_key := List.pairwise_map.mpr
    (key_apart db.runs (fun _ => rfl) fun r => List.mem_cons_self)

/-! ## The fragments over such rows -/

variable {w : Written} {f : Functions} {db : Durablerun.Db} {now : ℤ} {r : Durablerun.Run}
  {t : Durablerun.Task} {queue : String} {state : TaskState}

/-- A state's name is listed as live where the state is live. -/
@[simp] theorem isIn_LIVE : (Value.text state.name).isIn LIVE = .ofBool (decide state.Live) := by
  cases state <;> rfl

/-- Two states of one name are one state. -/
theorem name_eq_name {state' : TaskState} : state.name = state'.name ↔ state = state' := by
  cases state <;> cases state' <;> decide

/-- A stored run is owned by the stored task of its task. -/
theorem runOwnedByTask_written :
    runOwnedByTask (w.run r) (w.task t) = .yes ↔ Durablerun.runOwnedByTask r t := by
  simp [runOwnedByTask, Written.run, Written.task, Durablerun.runOwnedByTask]

/-- A stored task owns every stored run of its own where the task does. -/
theorem taskOwnsEveryRun_written :
    taskOwnsEveryRun (w.db db) (w.task t) = .yes ↔ Durablerun.taskOwnsEveryRun db t :=
  exists'_not fun r _ => by simp [Written.run, Written.task, Value.ne, ofBool_eq_no]

/-- A stored run is the only live one where the run is. -/
theorem soleLiveRun_written :
    soleLiveRun (w.db db) (w.run r) = .yes ↔ Durablerun.soleLiveRun db r :=
  exists'_not fun s _ => by simp [Written.run, Truth.all_eq_yes, Value.ne, ofBool_eq_no]

/-- A stored task's deadline is due where the task's is. -/
theorem cancelDue_written : cancelDue now (w.task t) = .yes ↔ Durablerun.cancelDue t now :=
  storedInstant_due

/-- A stored task's deadline is ahead where the task's is. -/
theorem cancelNotDue_written :
    cancelNotDue now (w.task t) = .yes ↔ Durablerun.cancelNotDue t now := by
  unfold cancelNotDue Durablerun.cancelNotDue
  rw [Truth.or_eq_yes]
  refine or_congr ?_ (storedInstant_yes (Value.lt (.integer now)) fun n => by simp)
  simp [Written.task, Value.nullable_isNull]

/-- A stored task is eligible where the task is. -/
theorem eligibleTask_written : eligibleTask now (w.task t) = .yes ↔ Durablerun.eligibleTask t now := by
  rw [eligibleTask, Truth.and_eq_yes, cancelNotDue_written]
  simp [Written.task, Durablerun.eligibleTask]

/-- A stored run is due where the run is. -/
theorem runAvailableDue_written :
    runAvailableDue now (w.run r) = .yes ↔ Durablerun.runAvailableDue r now :=
  storedInstant_due

/-- A stored run's lease has run out where the run's has. -/
theorem runClaimExpired_written :
    runClaimExpired now (w.run r) = .yes ↔ Durablerun.runClaimExpired r now :=
  storedInstant_due

/-! ## The accounting of a run -/

/-- Integers whose sum fits are added. -/
theorem plus_integer {m n : ℤ} (h : Fits64 (m + n)) :
    f.plus (.integer m) (.integer n) = .integer (m + n) := if_pos h

/-- What the counters add up to is computed where they are within their bounds. -/
theorem plus_counters (hattempts : attemptsBounds.Within t.attempts)
    (hretries : infraRetriesBounds.Within t.infraRetries) :
    f.plus (f.plus (.integer t.attempts) (.integer t.infraRetries)) 1 =
      .integer (t.attempts + t.infraRetries + 1) := by
  simp only [IntegerBounds.Within, attemptsBounds, infraRetriesBounds, MAX_COUNT,
    INFRA_RETRY_CAP] at hattempts hretries
  have hsum : Fits64 (t.attempts + t.infraRetries) := ⟨by omega, by omega⟩
  have hnext : Fits64 (t.attempts + t.infraRetries + 1) := ⟨by omega, by omega⟩
  rw [plus_integer hsum]
  exact plus_integer hnext

/-- A stored run's accounting is its task's where the run's is. -/
theorem storedCurrentRunAccounting_written :
    storedCurrentRunAccounting f (w.run r) (w.task t) = .yes ↔
      Durablerun.storedCurrentRunAccounting r t := by
  simp only [storedCurrentRunAccounting, Truth.all_eq_yes, List.forall_mem_cons, Written.run,
    Written.task, storedIntegerWithin_integer, Value.integer_lt_integer, Truth.ofBool_eq_yes,
    decide_eq_true_eq, Durablerun.storedCurrentRunAccounting]
  refine and_congr_right fun _ => and_congr_right fun hattempts => and_congr_right fun _ =>
    and_congr_right fun hretries => and_congr_right fun _ => ?_
  rw [plus_counters hattempts hretries]
  simp

/-- A stored run has the highest ordinal of its task where the run has. -/
theorem storedHighestOwnedOrdinal_written :
    storedHighestOwnedOrdinal (w.db db) (w.run r) = .yes ↔
      Durablerun.storedHighestOwnedOrdinal db r :=
  exists'_not fun h _ => by simp [Written.run, ofBool_eq_no]

/-! ## Registered waits -/

/-- A stored wait registers a stored run's park where the wait does the run's. -/
theorem waitWitness_written {wait : Durablerun.Wait} :
    waitWitness (w.run r) (waitRow wait) = .yes ↔ registeredWaitWitness r wait := by
  simp only [waitWitness, Truth.all_eq_yes, List.forall_mem_cons, waitRow, Written.run,
    Value.text_eq_text, Value.text_eq_nullable, Value.nullable_is_nullable, Truth.ofBool_eq_yes,
    decide_eq_true_eq, registeredWaitWitness, true_and]
  refine and_congr_right fun _ => and_congr_right fun _ => and_congr_right fun _ =>
    and_congr_right fun _ => and_congr_right fun htimeout => ?_
  rw [htimeout]
  cases r.availableAtMs <;> simp [Value.isNull]

/-- A stored run's park is registered at most once where the run's is. -/
theorem waitUnambiguous_written :
    waitUnambiguous (w.db db) (w.run r) = .yes ↔ registeredWaitUnambiguous db r := by
  have hselect : select (w.db db).waits (waitWitness (w.run r)) =
      (registeredWaits db r).map waitRow := select_map fun wait _ => waitWitness_written
  rw [waitUnambiguous, hselect]
  simp [ofBool_eq_no, registeredWaitUnambiguous]

/-- A stored run's waits keep to the epoch where the run's do. -/
theorem waitTemporallySafe_written :
    waitTemporallySafe (w.db db) (w.run r) = .yes ↔ registeredWaitTemporallySafe db r :=
  exists'_not fun wait _ => by
    cases htimeout : wait.timeoutAtMs <;>
      simp [waitRow, Written.run, htimeout, Value.isNull, Truth.all_eq_yes, ofBool_eq_no]

/-! ## Stored JSON -/

/-- The headers' text reads back as the object of texts it was written from. -/
structure Functions.ReadsHeaders (f : Functions) (headers : Value)
    (written : List (String × String)) : Prop where
  text : headers.typeof = "text"
  valid : f.jsonValid headers = .yes
  object : f.jsonType headers "$" = .text "object"
  members : f.jsonEach headers = written.map fun h => ⟨.text h.1, "text"⟩

/-- The number under a path reads back as a duration of so many milliseconds, in seconds. -/
structure Functions.ReadsDuration (f : Functions) (retry : Value) (path : String) (ms : ℤ) :
    Prop where
  number : (f.jsonType retry path).isIn [.text "integer", .text "real"] = .yes
  sign : (0 : Value).le (f.jsonExtract retry path) = .yes ↔ 0 ≤ ms
  rounded : f.round (f.multiply (f.jsonExtract retry path) 1000) = .real ((ms : ℚ) : WithTop ℚ)

/-- The factor reads back as the finite double it was. -/
structure Functions.ReadsFactor (f : Functions) (retry : Value) (factor : ℚ) : Prop where
  number : (f.jsonType retry "$.factor").isIn [.text "integer", .text "real"] = .yes
  real : f.jsonExtract retry "$.factor" = .real ((factor : ℚ) : WithTop ℚ)
  finite : factor ≤ 2 ^ 1024 - 2 ^ 971

/-- The members of a retry strategy of each kind. -/
def Functions.ReadsKind (f : Functions) (retry : Value) : RetryStrategy → Prop
  | .none => f.jsonExtract retry "$.kind" = .text "none"
  | .fixed baseMs =>
    f.jsonExtract retry "$.kind" = .text "fixed" ∧ f.ReadsDuration retry "$.baseSeconds" baseMs
  | .exponential baseMs factor maxMs =>
    f.jsonExtract retry "$.kind" = .text "exponential" ∧
      f.ReadsDuration retry "$.baseSeconds" baseMs ∧ f.ReadsFactor retry factor ∧
      f.ReadsDuration retry "$.maxSeconds" maxMs

/-- The retry strategy's text reads back as the strategy it was written from. -/
structure Functions.ReadsRetry (f : Functions) (retry : Value) (strategy : RetryStrategy) :
    Prop where
  text : retry.typeof = "text"
  valid : f.jsonValid retry = .yes
  object : f.jsonType retry "$" = .text "object"
  once : keyTwice f retry = .no
  kindText : f.jsonType retry "$.kind" = .text "text"
  kind : f.ReadsKind retry strategy

/-- What SQLite's JSON functions answer of the columns of a task. -/
structure Functions.Reads (f : Functions) (w : Written) (t : Durablerun.Task) : Prop where
  retryStrategy : f.ReadsRetry (.text (w.retryStrategy t.retryStrategy)) t.retryStrategy
  headers : ∀ headers ∈ t.headers, f.ReadsHeaders (.text (w.headers headers)) headers

/-- A branch whose condition does not hold is skipped. -/
theorem caseIsOne_skip {p : Truth} {b otherwise : Bool} {branches : List (Truth × Bool)}
    (h : p ≠ .yes) : caseIsOne ((p, b) :: branches) otherwise = caseIsOne branches otherwise := by
  simp [caseIsOne, h]

/-- The first branch whose condition holds decides. -/
theorem caseIsOne_take {p : Truth} {b otherwise : Bool} {branches : List (Truth × Bool)}
    (h : p = .yes) : caseIsOne ((p, b) :: branches) otherwise = .ofBool b := by
  simp [caseIsOne, h]

/-- A text of valid JSON is JSON. -/
theorem notJson_of_text {v : Value} (htext : v.typeof = "text") (hvalid : f.jsonValid v = .yes) :
    notJson f v ≠ .yes := by
  simp [notJson, htext, hvalid, Truth.ofBool, Truth.or, Truth.not]

/-- Texts differ as they are. -/
theorem ne_of_text {s s' : String} : (Value.text s).ne (.text s') = .ofBool (decide (s ≠ s')) := by
  by_cases h : s = s' <;> simp [Value.ne, h, Truth.ofBool, Truth.not]

/-- A group of several rows is one name that several rows have. -/
theorem groupOfSeveral_map {ρ σ : Type} {rows : List ρ} {stored : ρ → σ} {key : σ → Value}
    {name : ρ → String} (hkey : ∀ row, key (stored row) = .text (name row)) :
    groupOfSeveral (rows.map stored) key = .yes ↔ ¬ (rows.map name).Nodup := by
  have hcount (row : ρ) : (select (rows.map stored) fun s => (key s).is (key (stored row))).length =
      (rows.map name).count (name row) := by
    rw [select_map (P := fun other => name other = name row) fun other _ => by
      simp [hkey, Value.is, Value.place]]
    rw [List.length_map, ← List.countP_eq_length_filter, List.count, List.countP_map]
    rfl
  have hseveral : groupOfSeveral (rows.map stored) key = .yes ↔
      ∃ row ∈ rows, 1 < (rows.map name).count (name row) :=
    exists'_map fun row _ => by rw [hcount, Truth.ofBool_eq_yes, decide_eq_true_eq]
  rw [hseveral, List.nodup_iff_count_le_one]
  refine ⟨fun ⟨row, _, hrow⟩ hnodup => absurd (hnodup (name row)) (not_le.mpr hrow), fun hdup => ?_⟩
  obtain ⟨a, ha⟩ := not_forall.mp hdup
  have hmem : a ∈ rows.map name := List.count_pos_iff.mp (by omega)
  obtain ⟨row, hrow, rfl⟩ := List.mem_map.mp hmem
  exact ⟨row, hrow, not_le.mp ha⟩

/-- A stored task's headers are admissible where the task's are. -/
theorem durableTaskHeadersAdmissible_written (h : f.Reads w t) :
    durableTaskHeadersAdmissible f (w.task t) = .yes ↔ Durablerun.durableTaskHeadersAdmissible t := by
  cases hheaders : t.headers with
  | none =>
    simp [durableTaskHeadersAdmissible, Durablerun.durableTaskHeadersAdmissible, Written.task,
      hheaders, caseIsOne, Value.isNull]
  | some headers =>
    have hreads := h.headers headers hheaders
    have hkey : keyTwice f (.text (w.headers headers)) = .yes ↔ ¬ (headers.map Prod.fst).Nodup := by
      rw [keyTwice, hreads.members]
      exact groupOfSeveral_map fun _ => rfl
    have htexts : exists' (f.jsonEach (.text (w.headers headers)))
        (fun h => .ofBool (decide (h.type ≠ "text"))) ≠ .yes := by
      rw [hreads.members, ne_eq, exists'_map (P := fun _ => False) fun _ _ => by simp]
      simp
    have hnull : (Value.text (w.headers headers)).isNull ≠ .yes := by simp [Value.isNull]
    have hobject : (f.jsonType (.text (w.headers headers)) "$").ne (.text "object") ≠ .yes := by
      simp [hreads.object, ne_of_text]
    simp only [durableTaskHeadersAdmissible, Written.task, hheaders, Option.elim_some]
    rw [caseIsOne_skip hnull, caseIsOne_skip (notJson_of_text hreads.text hreads.valid),
      caseIsOne_skip hobject]
    by_cases hnodup : (headers.map Prod.fst).Nodup
    · rw [caseIsOne_skip fun hyes => hkey.mp hyes hnodup, caseIsOne_skip htexts]
      simp [caseIsOne, Durablerun.durableTaskHeadersAdmissible, hheaders, hnodup]
    · rw [caseIsOne_take (hkey.mpr hnodup)]
      simp [Durablerun.durableTaskHeadersAdmissible, hheaders, hnodup]

/-- A duration passes where it is between nothing and the longest. -/
theorem Functions.ReadsDuration.passes {retry : Value} {path : String} {ms : ℤ}
    (h : f.ReadsDuration retry path ms) :
    Truth.all [(f.jsonType retry path).isIn [.text "integer", .text "real"],
      (0 : Value).le (f.jsonExtract retry path),
      (f.round (f.multiply (f.jsonExtract retry path) 1000)).between 0 (.integer MAX_DURATION_MS)] =
      .yes ↔ 0 ≤ ms ∧ ms ≤ MAX_DURATION_MS := by
  have hbetween : (Value.real ((ms : ℚ) : WithTop ℚ)).between (.integer 0)
      (.integer MAX_DURATION_MS) = .yes ↔ 0 ≤ ms ∧ ms ≤ MAX_DURATION_MS := by
    rw [Value.between, Truth.and_eq_yes, Value.integer_le_real, Value.real_le_integer]
    simp
  simp only [Truth.all_eq_yes, List.forall_mem_cons, h.number, h.sign, h.rounded]
  rw [show (0 : Value) = .integer 0 from rfl, hbetween]
  simp

/-- A factor that a double holds passes where it is not negative. -/
theorem Functions.ReadsFactor.passes {retry : Value} {factor : ℚ} (h : f.ReadsFactor retry factor) :
    (f.jsonExtract retry "$.factor").between 0 maxDouble = .yes ↔ 0 ≤ factor := by
  rw [h.real, Value.between, Truth.and_eq_yes, show (0 : Value) = .integer 0 from rfl,
    Value.integer_le_real, maxDouble, Value.real_le_real, Truth.ofBool_eq_yes, Truth.ofBool_eq_yes,
    decide_eq_true_eq, decide_eq_true_eq, Int.cast_zero]
  exact and_iff_left h.finite

/-- A stored task's retry strategy is admissible where the task's is. -/
theorem durableTaskRetryAdmissible_written (h : f.Reads w t) :
    durableTaskRetryAdmissible f (w.task t) = .yes ↔ Durablerun.durableTaskRetryAdmissible t := by
  have hreads : f.ReadsRetry (w.task t).retryStrategy t.retryStrategy := h.retryStrategy
  have hobject : (f.jsonType (w.task t).retryStrategy "$").ne (.text "object") ≠ .yes := by
    simp [hreads.object, ne_of_text]
  have hkindText : (f.jsonType (w.task t).retryStrategy "$.kind").ne (.text "text") ≠ .yes := by
    simp [hreads.kindText, ne_of_text]
  have honce : keyTwice f (w.task t).retryStrategy ≠ .yes := by
    simp [hreads.once]
  rw [durableTaskRetryAdmissible, caseIsOne_skip (notJson_of_text hreads.text hreads.valid),
    caseIsOne_skip hobject, caseIsOne_skip honce, caseIsOne_skip hkindText]
  have hkind := hreads.kind
  unfold Durablerun.durableTaskRetryAdmissible
  cases hstrategy : t.retryStrategy with
  | none =>
    rw [hstrategy] at hkind
    rw [caseIsOne_take (by simp [show _ = _ from hkind])]
    simp
  | fixed baseMs =>
    rw [hstrategy] at hkind
    obtain ⟨hfixed, hbase⟩ := hkind
    rw [caseIsOne_skip (by simp [hfixed]), caseIsOne_take (by simp [hfixed]), Truth.ofBool_eq_yes,
      decide_eq_true_eq]
    exact hbase.passes
  | exponential baseMs factor maxMs =>
    rw [hstrategy] at hkind
    obtain ⟨hexponential, hbase, hfactor, hmax⟩ := hkind
    rw [caseIsOne_skip (by simp [hexponential]), caseIsOne_skip (by simp [hexponential]),
      caseIsOne_take (by simp [hexponential]), Truth.ofBool_eq_yes, decide_eq_true_eq]
    rw [Truth.all_eq_yes, List.forall_mem_cons, List.forall_mem_cons, List.forall_mem_cons,
      List.forall_mem_singleton, hbase.passes, hmax.passes, hfactor.passes]
    simp only [hfactor.number, true_and]

/-! ## What a claim takes and what a sweep cancels -/

/-- The sweep's cancellation of stored rows is the sweep's cancellation of typed rows. -/
theorem sweepCancelsDue_written :
    sweepCancelsDue (w.db db) now queue (w.task t) = .yes ↔
      Durablerun.sweepCancelsDue db now queue t := by
  simp only [sweepCancelsDue, Truth.all_eq_yes, List.forall_mem_cons, cancelDue_written,
    taskOwnsEveryRun_written, Durablerun.sweepCancelsDue]
  simp [Written.task]

/-- A claim takes a stored run of a stored task where it takes the run of the task. -/
theorem claimEligibility_written (h : f.Reads w t) :
    claimEligibility f (w.db db) now (w.run r) (w.task t) = .yes ↔
      Durablerun.claimEligibility db now r t := by
  have hwakeStep : ((w.run r).wakeStep.isNull.not.or (waitUnambiguous (w.db db) (w.run r))) = .yes ↔
      r.wakeStep ≠ none ∨ registeredWaitUnambiguous db r := by
    rw [Truth.or_eq_yes, waitUnambiguous_written]
    simp [Written.run, Value.nullable_isNull, ofBool_eq_no]
  simp only [claimEligibility, Truth.all_eq_yes, List.forall_mem_cons, eligibleTask_written,
    durableTaskRetryAdmissible_written h, durableTaskHeadersAdmissible_written h,
    soleLiveRun_written, hwakeStep, waitTemporallySafe_written, storedCurrentRunAccounting_written,
    storedHighestOwnedOrdinal_written, Durablerun.claimEligibility]
  simp [Written.run, storedIncrementableClaimGeneration]

/-- The candidates of a claim are the stored runs that are due and that its eligibility passes with
the task that owns them. -/
theorem claimCandidate_written (h : ∀ t ∈ db.tasks, f.Reads w t) :
    (dueRuns now queue state.name (w.run r)).and (exists' (w.db db).tasks fun t =>
        (runOwnedByTask (w.run r) t).and (claimEligibility f (w.db db) now (w.run r) t)) = .yes ↔
      claimCandidate db now queue state r := by
  have htask : (exists' (w.db db).tasks fun t => (runOwnedByTask (w.run r) t).and
        (claimEligibility f (w.db db) now (w.run r) t)) = .yes ↔
      ∃ t ∈ db.tasks, Durablerun.runOwnedByTask r t ∧ Durablerun.claimEligibility db now r t :=
    exists'_map fun t ht => by
      rw [Truth.and_eq_yes, runOwnedByTask_written, claimEligibility_written (h t ht)]
  simp only [Truth.and_eq_yes, dueRuns, Truth.all_eq_yes, List.forall_mem_cons,
    runAvailableDue_written, htask, claimCandidate]
  simp [Written.run, name_eq_name, and_assoc]

/-! ## What a sweep expires -/

/-- A stored run's generations are a swept one's where the run's are. -/
theorem storedSweepGenerations_written :
    storedSweepGenerations (w.run r) = .yes ↔ Durablerun.storedSweepGenerations r := by
  simp [storedSweepGenerations, storedPositiveClaimGeneration, Written.run,
    Durablerun.storedSweepGenerations]

/-- A stored task that is live admits a sweep of its run where the task does. -/
theorem sweepLiveOwnerAdmissible_written :
    sweepLiveOwnerAdmissible f (w.db db) (w.run r) (w.task t) = .yes ↔
      Durablerun.sweepLiveOwnerAdmissible db r t := by
  simp only [sweepLiveOwnerAdmissible, Truth.all_eq_yes, List.forall_mem_cons, storedSweepCounters,
    Truth.and_eq_yes, Truth.or_eq_yes, storedSweepGenerations_written, soleLiveRun_written,
    storedCurrentRunAccounting_written, storedHighestOwnedOrdinal_written,
    Durablerun.sweepLiveOwnerAdmissible]
  refine and_congr (by simp [Written.run]) (and_congr_right fun _ => and_congr_right
    fun haccounting => and_congr_right fun _ => ?_)
  have hsum := plus_counters (f := f) haccounting.2.1 haccounting.2.2.2.1
  simp [Written.run, Written.task, hsum, infraRetriesBounds]

/-- A stored run admits a sweep after its task's end where the run does. -/
theorem sweepTerminalOwnerAdmissible_written :
    sweepTerminalOwnerAdmissible (w.run r) = .yes ↔ Durablerun.sweepTerminalOwnerAdmissible r := by
  simp only [sweepTerminalOwnerAdmissible, Truth.and_eq_yes, Truth.or_eq_yes, Truth.all_eq_yes,
    List.forall_mem_cons, storedSweepGenerations_written, Durablerun.sweepTerminalOwnerAdmissible]
  simp [Written.run, relaunchCountBounds]

/-- A stored run admits a sweep where the run does. -/
theorem sweepScanAdmissible_written :
    sweepScanAdmissible f (w.db db) (w.run r) (w.task t) = .yes ↔
      Durablerun.sweepScanAdmissible db r t := by
  simp only [sweepScanAdmissible, Truth.and_eq_yes, Truth.or_eq_yes, Truth.not_eq_yes,
    sweepLiveOwnerAdmissible_written, sweepTerminalOwnerAdmissible_written,
    Durablerun.sweepScanAdmissible]
  simp [Written.task, ofBool_eq_no]

/-- The sweep's scan finds the stored runs whose lease has run out and which the task that owns
them admits. -/
theorem sweepClaimsExpired_written :
    (exists' (w.db db).tasks fun t => (runOwnedByTask (w.run r) t).and
        (sweepClaimsExpired f (w.db db) now queue (w.run r) t)) = .yes ↔
      Durablerun.sweepClaimsExpired db now queue r := by
  have hjoin : (exists' (w.db db).tasks fun t => (runOwnedByTask (w.run r) t).and
        (sweepClaimsExpired f (w.db db) now queue (w.run r) t)) = .yes ↔
      ∃ t ∈ db.tasks, Durablerun.runOwnedByTask r t ∧ r.queue = queue ∧ r.state = .running ∧
        Durablerun.runClaimExpired r now ∧ Durablerun.sweepScanAdmissible db r t :=
    exists'_map fun t _ => by
      simp only [Truth.and_eq_yes, runOwnedByTask_written, sweepClaimsExpired, Truth.all_eq_yes,
        List.forall_mem_cons, runClaimExpired_written, sweepScanAdmissible_written]
      simp [Written.run, show "running" = TaskState.running.name from rfl, name_eq_name]
  rw [hjoin]
  unfold Durablerun.sweepClaimsExpired
  constructor
  · rintro ⟨t, ht, hown, hqueue, hstate, hexpired, hadmissible⟩
    exact ⟨hqueue, hstate, hexpired, t, ht, hown, hadmissible⟩
  · rintro ⟨hqueue, hstate, hexpired, t, ht, hown, hadmissible⟩
    exact ⟨t, ht, hown, hqueue, hstate, hexpired, hadmissible⟩

end Durablerun.Stored
