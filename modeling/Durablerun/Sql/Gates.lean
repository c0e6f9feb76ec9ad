import Durablerun.Sql.Trees

/-!
# The fences that gate a statement

A statement after a compare-and-set of its batch may act only on what that one stamped. What gates a
statement is read off its tree: a conjunct of its `WHERE` that compares a stamp with a fence, or one
that requires a row from a subquery gated the same way.

Reference: `packages/core/src/sql-tree.ts`.
-/

namespace Durablerun.Trees

/-! ## Reading a tree -/

def unwrapParens : OperationNode → OperationNode
  | .parens node => unwrapParens node
  | node => node

/-- The top-level conjuncts of a `WHERE` clause, through parentheses and `AND`. -/
def conjuncts : OperationNode → List OperationNode
  | .parens node => conjuncts node
  | .and left right => conjuncts left ++ conjuncts right
  | node => [node]

def tableName : OperationNode → Option String
  | .aliased (.table name) _ => some name
  | .table name => some name
  | _ => none

/-- What a source answers to. -/
def sourceName : OperationNode → Option String
  | .aliased _ name => some name
  | node => tableName node

/-- A name a query's own table answers to, with its table. -/
structure Scoped where
  name : String
  table : String
  deriving DecidableEq

def joinTable : OperationNode → OperationNode
  | .join _ _ table _ => table
  | node => node

def scopeOf (source : OperationNode) : Option Scoped :=
  match tableName (joinTable source), sourceName (joinTable source) with
  | some table, some name => some ⟨name, table⟩
  | _, _ => none

/-- The names a query's own tables answer to: each alias or bare table name, with its table. -/
def tableScope (sources : List OperationNode) : List Scoped := sources.filterMap scopeOf

/-- A fence in a gating position, and the table whose `fence_stamp` it is compared with. `tied` says
that every subquery between the fence and the statement's own rows is tied to them. -/
structure GatingFence where
  fence : String
  table : String
  source : String
  tied : Bool
  deriving DecidableEq

/-- The source of a reference: the one its qualifier names, or the only one. -/
def referenced (scope : List Scoped) : Option String → Option Scoped
  | some qualifier => scope.find? fun candidate => candidate.name = qualifier
  | none =>
    match scope with
    | [candidate] => some candidate
    | _ => none

/-- A column compared with a value, when it is a stamp compared with a fence. -/
def fenceCompared (scope : List Scoped) (column value : OperationNode) : Option GatingFence :=
  match unwrapParens value, unwrapParens column with
  | .token (.fence fence), .reference qualifier "fence_stamp" =>
    (referenced scope qualifier).map fun source => ⟨fence, source.table, source.name, true⟩
  | _, _ => none

/-- A conjunct that is `fence_stamp = <fence token>`, in either orientation. -/
def fenceEquality (node : OperationNode) (scope : List Scoped) : Option GatingFence :=
  match node with
  | .binary left "=" right => (fenceCompared scope left right).or (fenceCompared scope right left)
  | _ => none

/-- A positive subquery a conjunct requires a row from: `EXISTS (…)` or `x IN (…)`. -/
def requiredSubquery : OperationNode → Option OperationNode
  | .unary "exists" operand => some (unwrapParens operand)
  | .binary _ "in" right => some (unwrapParens right)
  | _ => none

/-- The qualifier of a plain column reference. -/
def referenceQualifier (node : OperationNode) : Option String :=
  match unwrapParens node with
  | .reference table _ => table
  | _ => none

/-! ## Ties -/

/-- The one plain column a `SELECT` selects: its qualifier, its name, and the name it is given. -/
def selectedReference : List OperationNode → Option (Option String × String × String)
  | [.aliased (.reference table column) name] => some (table, column, name)
  | [.reference table column] => some (table, column, column)
  | _ => none

/-- The name a `SELECT` gives its single selection, when that is one plain column of its one source.
Through a derived table the column must be the one the derived table itself selects this way. -/
def selectedSourceColumn : OperationNode → Option String
  | .select selections [source] [] _ _ _ _ =>
    (selectedReference selections).bind fun (qualifier, column, name) =>
      if qualifier ≠ none ∧ qualifier ≠ sourceName source then none
      else
        match source with
        | .aliased (.select a b c d e f g) _ =>
          if selectedSourceColumn (.select a b c d e f g) = some column then some name else none
        | .select a b c d e f g =>
          if selectedSourceColumn (.select a b c d e f g) = some column then some name else none
        | _ => some name
  | _ => none

/-- Whether an equality joins a column of a source of the subquery to one of a source around it. -/
def equates (inner outer : List Scoped) : OperationNode → Bool
  | .binary left "=" right =>
    let isInner := fun name : Option String => inner.any fun candidate => some candidate.name = name
    let isOuter := fun name : Option String =>
      !isInner name && outer.any fun candidate => some candidate.name = name
    isInner (referenceQualifier left) && isOuter (referenceQualifier right) ||
      isOuter (referenceQualifier left) && isInner (referenceQualifier right)
  | _ => false

/-- Whether a required subquery is tied to the row of the query that requires it. It reads one source
and joins nothing. `IN` ties it when its left side is a column and it selects one plain column of that
source, and `EXISTS` when a conjunct of it equates a column of that source with one of a source around
it. -/
def isTied (conjunct : OperationNode) (outer : List Scoped) : OperationNode → Bool
  | .select selections [source] [] where' groupBy having modifiers =>
    match conjunct with
    | .binary left _ _ =>
      (match unwrapParens left with
        | .reference _ _ => true
        | _ => false) &&
        (selectedSourceColumn
          (.select selections [source] [] where' groupBy having modifiers)).isSome
    | _ => (where'.elim [] conjuncts).any (equates (tableScope [source]) outer)
  | _ => false

/-! ## Rows a `WHERE` did not match -/

mutual

/-- Some node is an aggregate, a function or a fragment. -/
def holdsCall : OperationNode → Bool
  | .raw _ _ | .aggregate _ _ | .function _ _ => true
  | .parens node | .unary _ node | .aliased node _ => holdsCall node
  | .and left right | .binary left _ right => holdsCall left || holdsCall right
  | .other _ children => anyHoldsCall children
  | .join _ _ table on => holdsCall table || optionHoldsCall on
  | .select selections froms joins where' groupBy having modifiers =>
    anyHoldsCall selections || anyHoldsCall froms || anyHoldsCall joins || optionHoldsCall where' ||
      optionsHoldCall groupBy || optionHoldsCall having || anyHoldsCall modifiers
  | .reference _ _ | .selectAll _ | .token _ | .value _ | .table _ => false

def anyHoldsCall : List OperationNode → Bool
  | [] => false
  | node :: rest => holdsCall node || anyHoldsCall rest

def optionHoldsCall : Option OperationNode → Bool
  | none => false
  | some node => holdsCall node

def optionsHoldCall : Option (List OperationNode) → Bool
  | none => false
  | some nodes => anyHoldsCall nodes

end

/-- Whether a `SELECT` returns no row when its `WHERE` matches none. An aggregate with no `GROUP BY`
returns one row always. -/
def mayReturnNoRow : OperationNode → Bool
  | .select selections _ _ _ groupBy having _ =>
    groupBy.isSome || (having.isNone && !anyHoldsCall selections)
  | _ => true

/-! ## Gates -/

mutual

/-- The fences that stand in a gating position of a `SELECT`. -/
def gatingFences : OperationNode → List GatingFence
  | .select _ froms joins where' _ _ _ =>
    whereGates (tableScope (froms ++ joins)) where' ++ derivedTableGates joins froms
  | _ => []

def whereGates (scope : List Scoped) : Option OperationNode → List GatingFence
  | none => []
  | some node => conjunctGates scope node

/-- The gates of the conjuncts of a condition, one after another. -/
def conjunctGates (scope : List Scoped) : OperationNode → List GatingFence
  | .parens node => conjunctGates scope node
  | .and left right => conjunctGates scope left ++ conjunctGates scope right
  | .binary left operator right =>
    match fenceEquality (.binary left operator right) scope with
    | some fence => [fence]
    | none => if operator = "in" then subqueryGates scope (.binary left operator right) right else []
  | .unary operator operand =>
    if operator = "exists" then subqueryGates scope (.unary operator operand) operand else []
  | _ => []

/-- The gates of the subquery a conjunct requires a row from. -/
def subqueryGates (scope : List Scoped) (conjunct : OperationNode) :
    OperationNode → List GatingFence
  | .parens node => subqueryGates scope conjunct node
  | .select selections froms joins where' groupBy having modifiers =>
    if mayReturnNoRow (.select selections froms joins where' groupBy having modifiers) then
      (whereGates (tableScope (froms ++ joins)) where' ++ derivedTableGates joins froms).map
        fun gate => { gate with
          tied := gate.tied &&
            isTied conjunct scope (.select selections froms joins where' groupBy having modifiers) }
    else []
  | _ => []

/-- A `SELECT` whose only source is one derived table reads a subset of that table's rows. -/
def derivedTableGates (joins : List OperationNode) : List OperationNode → List GatingFence
  | [source] => if joins.isEmpty then sourceGates source else []
  | _ => []

def sourceGates : OperationNode → List GatingFence
  | .aliased (.select selections froms joins where' groupBy having modifiers) _ =>
    if mayReturnNoRow (.select selections froms joins where' groupBy having modifiers) then
      whereGates (tableScope (froms ++ joins)) where' ++ derivedTableGates joins froms
    else []
  | .select selections froms joins where' groupBy having modifiers =>
    if mayReturnNoRow (.select selections froms joins where' groupBy having modifiers) then
      whereGates (tableScope (froms ++ joins)) where' ++ derivedTableGates joins froms
    else []
  | _ => []

end

end Durablerun.Trees
