import Durablerun.Lib.ThreeValued
import Durablerun.Store.Schema
import Mathlib.Data.Prod.Lex
import Mathlib.Data.List.Lex
import Mathlib.Data.String.Basic
import Mathlib.Order.Fin.Basic
import Mathlib.Order.WithBot
import Mathlib.Data.List.Sort
import Mathlib.Algebra.Order.Ring.Rat

/-!
# What a column may hold

A table of the libSQL store is permissive: a column of any declared type holds a value of any storage
class, and a repair or a corruption may have left one. Here a column is such a value, and a fragment
is what SQL makes of it.

Two columns that are compared are declared with one affinity, and a literal or a bind compared with a
column is of its class, so no comparison here converts an operand.

Reference: `packages/store-libsql/src/schema.ts`.
-/

namespace Durablerun.Stored

open ThreeValued

/-! ## Values -/

/-- What a REAL holds. SQLite stores no NaN. -/
abbrev Real64 := WithBot (WithTop ℚ)

/-- A stored value, by its storage class. -/
inductive Value where
  | null
  | integer (n : ℤ)
  | real (x : Real64)
  | text (s : String)
  | blob (bytes : List (Fin 256))
  deriving DecidableEq

namespace Value

instance : OfNat Value n := ⟨.integer n⟩

instance : Coe ℤ Value := ⟨.integer⟩

instance : Coe String Value := ⟨.text⟩

/-- `typeof`. -/
def typeof : Value → String
  | null => "null"
  | integer _ => "integer"
  | real _ => "real"
  | text _ => "text"
  | blob _ => "blob"

/-- A value's place in the order of SQLite: NULL, the numbers by their value, the texts, the blobs. -/
def place : Value → ℕ ×ₗ Real64 ×ₗ String ×ₗ List (Fin 256)
  | null => toLex (0, toLex (⊥, toLex ("", [])))
  | integer n => toLex (1, toLex (((n : ℚ) : WithTop ℚ), toLex ("", [])))
  | real x => toLex (1, toLex (x, toLex ("", [])))
  | text s => toLex (2, toLex (⊥, toLex (s, [])))
  | blob bytes => toLex (3, toLex (⊥, toLex ("", bytes)))

/-- `IS`. -/
def is (a b : Value) : Truth := .ofBool (decide (a.place = b.place))

def isNull (a : Value) : Truth := .ofBool (decide (a = null))

/-- A comparison, which is unknown of NULL. -/
def compared (a b : Value) (holds : Bool) : Truth :=
  if a = null ∨ b = null then .unknown else .ofBool holds

def eq (a b : Value) : Truth := compared a b (decide (a.place = b.place))

def ne (a b : Value) : Truth := (a.eq b).not

def le (a b : Value) : Truth := compared a b (decide (a.place ≤ b.place))

def lt (a b : Value) : Truth := compared a b (decide (a.place < b.place))

def between (a low high : Value) : Truth := (low.le a).and (a.le high)

def isIn (a : Value) (list : List Value) : Truth := .any (list.map a.eq)

variable {a b : Value} {list : List Value}

/-- Two values are equal where neither is NULL and they have one place. -/
theorem eq_yes : a.eq b = .yes ↔ a ≠ null ∧ b ≠ null ∧ a.place = b.place := by
  unfold eq compared
  split_ifs with hnull
  · simp only [false_iff]
    rintro ⟨ha, hb, -⟩
    exact hnull.elim ha hb
  · simp only [not_or] at hnull
    simp [hnull.1, hnull.2]

/-- A value is in a list where it equals one of its values. -/
theorem isIn_yes : a.isIn list = .yes ↔ ∃ b ∈ list, a.eq b = .yes := by
  simp [isIn, Truth.any_eq_yes]

/-- NULL is in no list. -/
theorem isIn_null : null.isIn list ≠ .yes := by
  rw [ne_eq, isIn_yes]
  rintro ⟨b, -, hb⟩
  exact (eq_yes.mp hb).1 rfl

end Value

/-! ## Functions -/

/-- The members of a JSON object or array, as `json_each` lists them. -/
structure Member where
  key : Value
  type : String
  deriving DecidableEq

/-- What SQLite's own functions do. Its integer arithmetic is given below, and what it does with
other operands, or past 64 bits, is here. -/
structure Functions where
  add : Value → Value → Value
  subtract : Value → Value → Value
  multiply : Value → Value → Value
  round : Value → Value
  jsonValid : Value → Truth
  jsonType : Value → String → Value
  jsonExtract : Value → String → Value
  jsonEach : Value → List Member

/-- The integers a column stores. -/
def Fits64 (n : ℤ) : Prop := -2 ^ 63 ≤ n ∧ n < 2 ^ 63

instance (n : ℤ) : Decidable (Fits64 n) := inferInstanceAs (Decidable (_ ∧ _))

/-- `a + b`. -/
def Functions.plus (f : Functions) : Value → Value → Value
  | .null, _ | _, .null => .null
  | .integer a, .integer b => if Fits64 (a + b) then .integer (a + b) else f.add a b
  | a, b => f.add a b

/-- `a - b`. -/
def Functions.minus (f : Functions) : Value → Value → Value
  | .null, _ | _, .null => .null
  | .integer a, .integer b => if Fits64 (a - b) then .integer (a - b) else f.subtract a b
  | a, b => f.subtract a b

/-- `MAX`. -/
def maximum (values : List Value) : Value :=
  values.foldl (fun best v => if best.place < v.place then v else best) .null

/-- `EXISTS (SELECT 1 FROM rows WHERE condition)`. -/
def exists' {ρ : Type} (rows : List ρ) (condition : ρ → Truth) : Truth :=
  .ofBool (rows.any fun row => decide (condition row = .yes))

/-- `EXISTS` is never unknown. -/
theorem exists'_no {ρ : Type} {rows : List ρ} {condition : ρ → Truth}
    (h : exists' rows condition ≠ .yes) : exists' rows condition = .no := by
  rw [exists', ne_eq, Truth.ofBool_eq_yes, Bool.not_eq_true] at h
  rw [exists', h]
  rfl

/-- The rows a condition passes. -/
def select {ρ : Type} (rows : List ρ) (condition : ρ → Truth) : List ρ :=
  rows.filter fun row => decide (condition row = .yes)

/-- The rows a condition passes are those it holds of. -/
theorem mem_select {ρ : Type} {rows : List ρ} {condition : ρ → Truth} {row : ρ} :
    row ∈ select rows condition ↔ row ∈ rows ∧ condition row = .yes := by
  simp [select]

/-- `GROUP BY key HAVING COUNT(*) > 1` finds a group. -/
def groupOfSeveral {ρ : Type} (rows : List ρ) (key : ρ → Value) : Truth :=
  exists' rows fun row => .ofBool (decide (1 < (select rows fun r => (key r).is (key row)).length))

/-! ## Rows -/

/-- A row of `tasks`, by the columns these statements read and write. -/
structure Task where
  taskId : Value
  queue : Value
  headers : Value := .null
  retryStrategy : Value
  maxAttempts : Value
  state : Value
  attempts : Value
  infraRetries : Value
  lastAttemptRun : Value := .null
  completedPayload : Value := .null
  failureReason : Value := .null
  cancelAtMs : Value := .null
  cancelledAtMs : Value := .null
  fenceStamp : Value := .null
  fenceAtMs : Value := .null
  deriving DecidableEq

/-- The task an outer join finds for a run that joins none. -/
def Task.absent : Task where
  taskId := .null
  queue := .null
  retryStrategy := .null
  maxAttempts := .null
  state := .null
  attempts := .null
  infraRetries := .null

/-- A row of `runs`, by the columns these statements read and write. -/
structure Run where
  runId : Value
  queue : Value
  taskId : Value
  attempt : Value
  state : Value
  claimedBy : Value := .null
  claimGen : Value := 0
  activatedGen : Value := 0
  relaunchCount : Value := 0
  leaseMs : Value := .null
  claimExpiresAtMs : Value := .null
  heartbeatAtMs : Value := .null
  availableAtMs : Value := .null
  wakeEvent : Value := .null
  wakeStep : Value := .null
  fenceStamp : Value := .null
  fenceAtMs : Value := .null
  deriving DecidableEq

/-- A row of `waits`. -/
structure Wait where
  runId : Value
  stepName : Value
  queue : Value
  taskId : Value
  eventName : Value
  status : Value
  timeoutAtMs : Value
  deriving DecidableEq

/-- A row of `checkpoints`, by its key. -/
structure Checkpoint where
  taskId : Value
  checkpointName : Value
  deriving DecidableEq

/-- The tables. Each holds any values at all, but a primary key is not NULL and names one row. -/
structure Db where
  tasks : List Task
  runs : List Run
  waits : List Wait
  checkpoints : List Checkpoint
  tasks_named : ∀ t ∈ tasks, t.taskId ≠ .null
  tasks_key : tasks.Pairwise fun a b => a.taskId.place ≠ b.taskId.place
  runs_named : ∀ r ∈ runs, r.runId ≠ .null
  runs_key : runs.Pairwise fun a b => a.runId.place ≠ b.runId.place

/-- Two rows under one key are one row. -/
theorem eq_of_key {ρ : Type} {κ : Type} {key : ρ → κ} {rows : List ρ}
    (hkey : rows.Pairwise fun a b => key a ≠ key b) {a b : ρ} (ha : a ∈ rows) (hb : b ∈ rows)
    (hab : key a = key b) : a = b := by
  by_contra hne
  have : Std.Symm fun a b => key a ≠ key b := ⟨fun _ _ h => h.symm⟩
  exact hkey.forall ha hb hne hab

end Durablerun.Stored
