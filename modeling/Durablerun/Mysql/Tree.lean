import Durablerun.Lib.Assign
import Mathlib.Data.List.Sort

/-!
# The assignments MySQL is sent

MySQL evaluates the assignments of an `UPDATE` and of a conflict arm left to right, and a later one
sees what an earlier one wrote. The compiler of statement trees puts them in an order in which that
makes no difference, or refuses them.

Reference: `packages/store-mysql/src/tree.ts`.
-/

namespace Durablerun.Mysql

open Assign

/-! ## Statement trees -/

/-- A node of a statement tree: a reference, with the table it is qualified by and the column it
names; a fragment of text around other nodes; or a node of another kind. -/
inductive OperationNode where
  | reference (table name : Option String)
  | raw (sqlFragments : List String) (parameters : List OperationNode)
  | other (kind : String) (children : List OperationNode)

/-- An assignment of a tree, and the name of the column it assigns, if its node has one. -/
structure ColumnUpdateNode where
  column : Option String
  value : OperationNode

def assignedColumn (update : ColumnUpdateNode) : Except String String :=
  match update.column with
  | some name => .ok name
  | none => .error "a conflict arm assigns named columns"

/-! ## What an expression reads -/

def wordStart (c : Char) : Bool := c.isAlpha || c == '_'

def wordChar (c : Char) : Bool := c.isAlphanum || c == '_'

/-- The column at the start of the text, and no longer a word than that. -/
def spellsColumn (column text : List Char) : Bool :=
  column.isPrefixOf text && !(text.drop column.length).head?.any wordChar

/-- A match of the pattern of a column at the start of the text, `before` being the character there:
the name the column is qualified by, and the length of the match. -/
def mentionAt (column : List Char) (before : Option Char) (text : List Char) :
    Option (Option (List Char) × ℕ) :=
  match qualified with
  | some found => some found
  | none =>
    if !before.any wordChar && spellsColumn column text then some (none, column.length) else none
where
  qualified : Option (Option (List Char) × ℕ) :=
    match text.head?.any wordStart, text.dropWhile wordChar with
    | true, '.' :: rest =>
      if spellsColumn column rest then
        some (some (text.takeWhile wordChar), (text.takeWhile wordChar).length + 1 + column.length)
      else none
    | _, _ => none

/-- A match anywhere that reads the stored row: unqualified, or qualified by the written table.
Matches do not overlap, so `skip` characters of the last one are passed over. -/
def mentions (column target : List Char) : ℕ → Option Char → List Char → Bool
  | _, _, [] => false
  | skip + 1, _, c :: text => mentions column target skip (some c) text
  | 0, before, c :: text =>
    match mentionAt column before (c :: text) with
    | none => mentions column target 0 (some c) text
    | some (qualifier, length) =>
      qualifier == none || qualifier == some target ||
        mentions column target (length - 1) (some c) text

/-- The columns of the row already stored that a node reads. A fragment answers for every assigned
column it spells. -/
def storedColumnsRead (target : String) (assigned : List String) : OperationNode → List String
  | .reference table name => if table = none ∨ table = some target then name.toList else []
  | .raw sqlFragments parameters =>
    (assigned.filter fun column =>
      mentions column.toList target.toList 0 none (" ".intercalate sqlFragments).toList) ++
      readByAll parameters
  | .other _ children => readByAll children
where
  readByAll : List OperationNode → List String
    | [] => []
    | node :: rest => storedColumnsRead target assigned node ++ readByAll rest

/-! ## The order of a SET list -/

/-- The loop of `readersBeforeWriters` over the assignments that remain: the first that no other of
them waits to read is next. It is given as many turns as there are assignments. -/
def takeReady (waits : ℕ → ℕ → Bool) : ℕ → List ℕ → Except (List ℕ) (List ℕ)
  | 0, _ => .ok []
  | turns + 1, remaining =>
    match remaining.find? fun candidate =>
        remaining.all fun other => other == candidate || !waits other candidate with
    | none => .error remaining
    | some ready => (takeReady waits turns (remaining.erase ready)).map (ready :: ·)

def readOneAnother (columns : List String) : String :=
  "store-mysql: the assignments of " ++ ", ".intercalate columns ++
    " read one another, and MySQL assigns left to right"

/-- Order a SET list so an assignment that reads a stored column comes before the assignment that
writes it. -/
def readersBeforeWriters (updates : List ColumnUpdateNode) (target : String) :
    Except String (List ColumnUpdateNode) := do
  let assigned ← updates.mapM assignedColumn
  let reads := (updates.zip assigned).map fun (update, column) =>
    (storedColumnsRead target assigned update.value).filter (· != column)
  let waits := fun other candidate => (reads.getD other []).contains (assigned.getD candidate "")
  match takeReady waits updates.length (List.range updates.length) with
  | .ok ordered => .ok (ordered.filterMap (updates[·]?))
  | .error remaining => .error (readOneAnother (remaining.map (assigned.getD · "")))

/-! ## Conflict arms -/

structure OnConflictNode where
  columns : Option (List String)
  constraint : Option String
  indexExpression : Option OperationNode
  updates : Option (List ColumnUpdateNode)
  updateWhere : Option OperationNode

/-- A value of an arm: an expression, the stored column, or `if(condition, value, stored column)`.
-/
inductive ArmValue where
  | value (value : OperationNode)
  | stored (column : String)
  | choice (condition value : OperationNode) (column : String)

/-- An assignment of `on duplicate key update`. -/
structure ArmAssignment where
  column : String
  value : ArmValue

/-- The sort key of an arm's assignment: whether the condition reads the column it assigns. -/
def readByCondition (conditionReads : List String) (update : ColumnUpdateNode) : ℕ :=
  (update.column.any (conditionReads.contains ·)).toNat

/-- The assignments of an arm, those its condition reads the columns of last. -/
def conditionLast (conditionReads : List String) (updates : List ColumnUpdateNode) :
    List ColumnUpdateNode :=
  updates.insertionSort fun a b => readByCondition conditionReads a ≤ readByCondition conditionReads b

/-- The check of an arm's order: nothing reads what was written before it. -/
def requireFresh (target : String) (assigned conditionReads : List String) :
    List String → List ColumnUpdateNode → Except String Unit
  | _, [] => .ok ()
  | written, update :: rest => do
    let reads := conditionReads ++ storedColumnsRead target assigned update.value
    match written.find? (reads.contains ·) with
    | some stale =>
      .error ("store-mysql: the conflict arm would read " ++ stale ++
        " after assigning it, and MySQL assigns left to right")
    | none => requireFresh target assigned conditionReads (written ++ [← assignedColumn update]) rest

/-- An assignment of an arm whose condition, if it has one, moves into the value. -/
def armAssignment (condition : Option OperationNode) (update : ColumnUpdateNode) :
    Except String ArmAssignment := do
  let column ← assignedColumn update
  match condition with
  | none => .ok ⟨column, .value update.value⟩
  | some condition => .ok ⟨column, .choice condition update.value column⟩

/-- The assignments of a conflict clause of an insert into a table. -/
def visitOnConflict (insertTarget : Option String) (node : OnConflictNode) :
    Except String (List ArmAssignment) :=
  match insertTarget, node.columns, node.constraint, node.indexExpression with
  | none, _, _, _ => .error "store-mysql: a conflict clause with no insert"
  | some target, some columns, none, none =>
    match node.updates, columns with
    | none, [] => .error "store-mysql: a conflict clause names its columns"
    | none, key :: _ => .ok [⟨key, .stored key⟩]
    | some updates, _ => do
      let assigned ← updates.mapM assignedColumn
      let conditionReads := (node.updateWhere.map (storedColumnsRead target assigned)).getD []
      let ordered := conditionLast conditionReads updates
      requireFresh target assigned conditionReads [] ordered
      ordered.mapM (armAssignment node.updateWhere)
  | some _, _, _, _ => .error "store-mysql: a conflict clause names its columns"

end Durablerun.Mysql
