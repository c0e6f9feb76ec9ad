import Durablerun.Lib.Gated
import Durablerun.Sql.Gates

/-!
# Batches of statement trees

A batch takes statements one by one and holds each to the rules it is given by. What it holds is sent
in order, each statement as a tree over the rows the one before it left. A tree may hold any fragment,
any join and any subquery, so long as the rules let it pass.

Reference: `packages/core/src/sql-tree.ts` and `packages/core/src/fenced-batch.ts`.
-/

namespace Durablerun.Trees

open ThreeValued Stored Gated

/-! ## Statements -/

structure ColumnUpdateNode where
  column : String
  value : OperationNode

/-- What an `INSERT` inserts: one row of values, or what a `SELECT` returns. -/
inductive InsertValues where
  | row (values : List OperationNode)
  | query (select : OperationNode)

/-- A conflict clause, which does nothing or updates the row in the way. -/
structure OnConflictNode where
  columns : List String
  updates : Option (List ColumnUpdateNode)
  updateWhere : Option OperationNode

/-- The root of a statement's tree. -/
inductive RootNode where
  | update (table : OperationNode) (updates : List ColumnUpdateNode)
    (where' : Option OperationNode)
  | delete (froms : List OperationNode) (where' : Option OperationNode)
  | insert (into : String) (columns : List String) (values : InsertValues)
    (onConflict : Option OnConflictNode)
  | select (query : OperationNode)

/-- The table a statement writes: an UPDATE's table, a DELETE's first FROM, an INSERT's target. -/
def statementTable : RootNode → Option String
  | .update table _ _ => tableName table
  | .delete froms _ => froms.head?.bind tableName
  | .insert into _ _ _ => some into
  | .select _ => none

/-- The tables whose rows carry a stamp. -/
def FENCED_TABLES : List String := ["tasks", "runs", "waits", "events"]

/-- The fences that stand in a gating position of a statement. -/
def RootNode.gatingFences : RootNode → List GatingFence
  | .update table _ where' => whereGates (tableScope [table]) where'
  | .delete froms where' => whereGates (tableScope froms) where'
  | .insert _ _ (.query selected) _ => Trees.gatingFences selected
  | .insert _ _ (.row _) _ => []
  | .select query => Trees.gatingFences query

/-! ## What the rules of a batch ask -/

inductive Kind where
  | cas
  | followOn
  | tail
  | openTail
  deriving DecidableEq

/-- A statement a batch holds. -/
structure Held where
  name : String
  kind : Kind
  tree : RootNode

/-- The table whose rows the statement stamps. -/
def Held.fence (held : Held) : Option String :=
  match held.tree with
  | .update .. | .insert .. => (statementTable held.tree).filter (· ∈ FENCED_TABLES)
  | .delete .. | .select _ => none

/-- An assignment list that writes the statement's stamp, once. -/
def writesStamp (updates : List ColumnUpdateNode) : Prop :=
  ∃ update, updates.filter (·.column = "fence_stamp") = [update] ∧ update.value = .token .stamp

/-- What an `INSERT` gives each of its columns, by position. -/
def insertedNodes : InsertValues → List OperationNode
  | .row values => values
  | .query (.select selections _ _ _ _ _ _) => selections.map fun
    | .aliased node _ => node
    | node => node
  | .query _ => []

/-- An `INSERT` whose row carries the statement's stamp, in the one column of that name. -/
def insertsStamp (columns : List String) (values : InsertValues) : Prop :=
  columns.count "fence_stamp" = 1 ∧
    (insertedNodes values)[columns.idxOf "fence_stamp"]? = some (.token .stamp)

/-- An `INSERT … SELECT` that inserts no row its `WHERE` did not match. -/
def insertsPlain : InsertValues → Prop
  | .query (.select selections _ _ _ _ having _) =>
    having = none ∧ anyHoldsCall selections = false
  | _ => False

/-- What a batch asks of a statement it is handed after those it holds. -/
structure Admitted (earlier : List Held) (held : Held) : Prop where
  /-- No two statements share a name. -/
  name : ∀ e ∈ earlier, e.name ≠ held.name
  /-- A tail reads. A compare-and-set is an UPDATE or an INSERT of a table that carries stamps. -/
  kind : match held.kind, held.tree with
    | .cas, .update .. | .cas, .insert .. => held.fence ≠ none
    | .followOn, .update .. | .followOn, .insert .. | .followOn, .delete .. => True
    | .tail, .select _ | .openTail, .select _ => True
    | _, _ => False
  /-- Every write of such a table stamps the rows it writes. A follow-on inserts what it selects from
  the fenced row, and inserts its row or fails. -/
  stamps : match held.tree with
    | .update _ updates _ => held.fence ≠ none → writesStamp updates
    | .insert _ columns values onConflict =>
      (held.fence ≠ none → insertsStamp columns values) ∧
      (held.kind = .followOn → insertsPlain values ∧ (held.fence ≠ none → onConflict = none)) ∧
      (held.fence ≠ none → ∀ conflict ∈ onConflict, ∀ updates ∈ conflict.updates, writesStamp updates)
    | _ => True
  /-- An INSERT takes one row of values, or a `SELECT` with one plain selection for each column. -/
  whole : match held.tree with
    | .insert _ columns (.query (.select selections _ _ _ _ _ _)) _ =>
      (∀ selection ∈ selections, isStar selection = false) ∧ selections.length = columns.length
    | .insert _ _ (.query _) _ => False
    | _ => True
  /-- A follow-on and a tail are gated, by a fence that every row they read or write is tied to. -/
  gated : held.kind = .followOn ∨ held.kind = .tail → ∃ g ∈ held.tree.gatingFences, g.tied
  /-- A fence names an earlier statement that stamps the table it is compared on. -/
  sources : held.kind ≠ .cas → ∀ g ∈ held.tree.gatingFences,
    ∃ e ∈ earlier, e.name = g.fence ∧ e.fence = some g.table

/-- What a batch holds was admitted one after another. -/
def AdmittedAll : List Held → List Held → Prop
  | _, [] => True
  | earlier, held :: rest => Admitted earlier held ∧ AdmittedAll (earlier ++ [held]) rest

/-- The statement whose stamp gates this one, when it can only match rows that bear it. -/
def Held.skipUnlessWrote (held : Held) : Option String :=
  match held.kind, held.tree with
  | .cas, _ | .openTail, _ => none
  | _, .select query =>
    if mayReturnNoRow query then (held.tree.gatingFences.find? (·.tied)).map GatingFence.fence
    else none
  | _, _ => (held.tree.gatingFences.find? (·.tied)).map GatingFence.fence

/-! ## What a statement does -/

/-- The rows of every table. -/
abbrev Rows := String → List (List Value)

/-- The database a batch runs on. Its columns are fixed. What follows them is the rest of SQL, over
any rows: what a tree's other expressions mean, the defaults of columns, which stored row is in an
inserted one's way, and which writes a constraint refuses. -/
structure Engine where
  columns : String → List String
  stamped : ∀ table ∈ FENCED_TABLES, "fence_stamp" ∈ columns table
  now : Value
  setting : Rows → (EngineToken → Value) → Setting
  setting_db : ∀ rows tokens, (setting rows tokens).db = ⟨columns, rows⟩
  setting_tokens : ∀ rows tokens, (setting rows tokens).tokens = tokens
  default : String → String → Value
  inTheWay : String → List String → List Value → List Value → Bool
  allows : Rows → Rows → Bool
  allows_refl : ∀ rows, allows rows rows

section Engine

variable (engine : Engine) (seed : String)

/-- The stamp of a statement of the batch. -/
def stampOf (name : String) : Value := .text (seed ++ ":" ++ name)

/-- What the tokens of a statement's tree stand for. -/
def tokensOf (own : String) : EngineToken → Value
  | .stamp => stampOf seed own
  | .now => engine.now
  | .fence name => stampOf seed name

/-- The rows of one table, changed. -/
def Rows.set (rows : Rows) (table : String) (new : List (List Value)) : Rows :=
  fun t => if t = table then new else rows t

/-- A row under a list of assignments, each of which reads the rows there were. -/
def assign (s : Setting) (columns : List String) (updates : List ColumnUpdateNode) (env : Env)
    (cells : List Value) : List Value :=
  columns.map fun column =>
    match updates.find? (·.column = column) with
    | some update => (sense s update.value).value env
    | none => cellOf columns cells column

/-- The rows of the first source that a statement's `WHERE` passes, with one row of each other
source. -/
def hits (s : Setting) (froms : List OperationNode) (where' : Option OperationNode) :
    List (List Value) :=
  (matched (senses s froms) (optionSense s where') []).filterMap fun level =>
    level.head?.map Binding.cells

/-- One inserted row: added, or met by a row in its way. -/
def insertOne (s : Setting) (table : String) (onConflict : Option OnConflictNode)
    (cells : List Value) (stored : List (List Value)) : List (List Value) × ℕ :=
  let bound := fun row : List Value => (⟨⟨some table, engine.columns table⟩, row⟩ : Binding)
  let excluded : Binding := ⟨⟨some "excluded", engine.columns table⟩, cells⟩
  match onConflict with
  | none => (stored ++ [cells], 1)
  | some conflict =>
    if stored.any (engine.inTheWay table conflict.columns cells) then
      match conflict.updates with
      | none => (stored, 0)
      | some updates =>
        let changes := fun row : List Value =>
          engine.inTheWay table conflict.columns cells row &&
            (match conflict.updateWhere with
              | none => true
              | some condition => (sense s condition).truth [[bound row, excluded]] = .yes)
        (stored.map fun row =>
          if changes row then assign s (engine.columns table) updates [[bound row, excluded]] row
          else row, (stored.filter changes).length)
    else (stored ++ [cells], 1)

/-- Inserted rows, one after another. -/
def insertAll (s : Setting) (table : String) (onConflict : Option OnConflictNode) :
    List (List Value) → List (List Value) → List (List Value) × ℕ
  | [], stored => (stored, 0)
  | cells :: rest, stored =>
    let (stored', wrote) := insertOne engine s table onConflict cells stored
    let (stored'', more) := insertAll s table onConflict rest stored'
    (stored'', wrote + more)

/-- The rows an `INSERT` inserts, by the columns it names. -/
def insertedRows (s : Setting) : InsertValues → List (List Value)
  | .row values => [values.map fun node => (sense s node).value []]
  | .query select => (sense s select).rows []

/-- A row of the table, from what an `INSERT` gives the columns it names. -/
def tableRow (table : String) (columns : List String) (cells : List Value) : List Value :=
  (engine.columns table).map fun column =>
    if column ∈ columns then cellOf columns cells column else engine.default table column

/-- What a statement leaves, and the rows it wrote or returned. -/
def effect (s : Setting) (rows : Rows) : RootNode → Rows × ℕ
  | .update table updates where' =>
    let name := (tableName table).getD ""
    let hit := hits s [table] where'
    (rows.set name ((rows name).map fun cells =>
      if cells ∈ hit then
        assign s (engine.columns name) updates [[⟨(sense s table).shape, cells⟩]] cells
      else cells), ((rows name).filter (· ∈ hit)).length)
  | .delete froms where' =>
    let name := (froms.head?.bind tableName).getD ""
    let hit := hits s froms where'
    (rows.set name ((rows name).filter (· ∉ hit)), ((rows name).filter (· ∈ hit)).length)
  | .insert into columns values onConflict =>
    let (stored, wrote) := insertAll engine s into onConflict
      ((insertedRows s values).map (tableRow engine into columns)) (rows into)
    (rows.set into stored, wrote)
  | .select query => (rows, ((sense s query).rows []).length)

/-- A statement as an executor sends it. -/
def Held.sent (held : Held) : Command Rows String where
  name := held.fence.map fun _ => held.name
  gate := held.skipUnlessWrote
  send rows :=
    let (after, wrote) :=
      effect engine (engine.setting rows (tokensOf engine seed held.name)) rows held.tree
    if engine.allows rows after then some (after, wrote) else none

end Engine

/-! ## A batch of four statements -/

/-- A database whose trees hold no other expression. -/
def plainSetting (db : Database) (tokens : EngineToken → Value) : Setting where
  db := db
  tokens := tokens
  other := fun _ _ => .null
  condition := fun _ => .unknown
  shape := fun _ => ⟨none, []⟩
  produced := fun _ _ => []
  hides := fun _ => false
  ofGroup := fun _ _ => .null
  having := fun _ _ => .unknown
  kept := fun _ _ rows => rows
  mem_of_mem_kept := id

def plainColumns : List String := ["id", "task_id", "state", "fence_stamp"]

def plainEngine : Engine where
  columns := fun _ => plainColumns
  stamped := fun _ _ => by decide
  now := .null
  setting := fun rows tokens => plainSetting ⟨fun _ => plainColumns, rows⟩ tokens
  setting_db := fun _ _ => rfl
  setting_tokens := fun _ _ => rfl
  default := fun _ _ => .null
  inTheWay := fun _ _ _ _ => false
  allows := fun _ _ => true
  allows_refl := fun _ => rfl

/-- The rows a claim stamped, by their tasks. -/
def stampedRuns (claim : String) : OperationNode :=
  .select [.reference none "task_id"] [.table "runs"] []
    (some (.binary (.reference none "fence_stamp") "=" (.token (.fence claim)))) none none []

/-- The tasks of the rows a claim stamped. -/
def stampedTasks (claim : String) : OperationNode :=
  .select [.reference none "id"] [.table "tasks"] []
    (some (.binary (.reference none "id") "in" (stampedRuns claim))) none none []

/-- A run is claimed. -/
def claimHeld (claim run : String) : Held :=
  ⟨claim, .cas, .update (.table "runs")
    [⟨"state", .value (.text "running")⟩, ⟨"fence_stamp", .token .stamp⟩]
    (some (.binary (.reference none "id") "=" (.value (.text run))))⟩

/-- Its task follows it. -/
def mirrorHeld (mirror claim : String) : Held :=
  ⟨mirror, .followOn, .update (.table "tasks")
    [⟨"state", .value (.text "running")⟩, ⟨"fence_stamp", .token .stamp⟩]
    (some (.binary (.reference none "id") "in" (stampedRuns claim)))⟩

/-- The run `r` is claimed and then the run `q`, and the task of each follows it. -/
def claimBatch : List Held :=
  [claimHeld "claim" "r", mirrorHeld "mirror" "claim", claimHeld "second" "q",
    mirrorHeld "mirror2" "second"]

/-- A task, and its one run. -/
def pendingRows (run : String) : Rows := fun table =>
  if table = "runs" then [[.text run, .text "t", .text "pending", .null]]
  else if table = "tasks" then [[.text "t", .null, .text "pending", .null]]
  else []

end Durablerun.Trees
