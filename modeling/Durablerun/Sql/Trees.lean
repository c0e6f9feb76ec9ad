import Durablerun.Sql.Stored

/-!
# Statement trees

A statement is a tree of nodes. A check reads the nodes, and the database evaluates what they compile
to. Here a tree has a meaning: what a query reads and returns over the rows of a database. References,
equality, `AND`, `IN` and `EXISTS` over a subquery, joins, derived tables and grouping mean what they
mean in SQL. A node of another kind, such as a fragment of text, may be any expression.

Reference: `packages/core/src/sql-tree.ts`.
-/

namespace Durablerun.Trees

open ThreeValued Stored

/-! ## Nodes -/

/-- A token the engine places in a tree: the statement's own stamp, the batch's clock, or the stamp of
an earlier statement. -/
inductive EngineToken where
  | stamp
  | now
  | fence (name : String)
  deriving DecidableEq

/-- What a join does with a row that none on the other side matches. -/
inductive JoinType where
  | inner | left | right | full
  deriving DecidableEq

/-- A node of a statement tree. A join is `lateral` when its table may read the rows before it. -/
inductive OperationNode where
  | parens (node : OperationNode)
  | and (left right : OperationNode)
  | binary (leftOperand : OperationNode) (operator : String) (rightOperand : OperationNode)
  | unary (operator : String) (operand : OperationNode)
  | reference (table : Option String) (column : String)
  | selectAll (table : Option String)
  | token (token : EngineToken)
  | value (value : Value)
  | raw (sqlFragments : List String) (parameters : List OperationNode)
  | aggregate (func : String) (aggregated : List OperationNode)
  | function (func : String) (arguments : List OperationNode)
  | other (kind : String) (children : List OperationNode)
  | aliased (node : OperationNode) (name : String)
  | table (name : String)
  | join (joinType : JoinType) (lateral : Bool) (table : OperationNode) (on : Option OperationNode)
  | select (selections froms joins : List OperationNode) (where' : Option OperationNode)
    (groupBy : Option (List OperationNode)) (having : Option OperationNode)
    (modifiers : List OperationNode)

/-! ## Rows -/

/-- What a source answers to, and the columns it has. -/
structure Shape where
  name : Option String
  columns : List String

/-- A row of a source. A row with no cells is what an outer join reads where it found none. -/
structure Binding extends Shape where
  cells : List Value

/-- A column of a row. -/
def cellOf (columns : List String) (cells : List Value) (column : String) : Value :=
  ((columns.zip cells).lookup column).getD .null

def Binding.get (b : Binding) (column : String) : Value := cellOf b.columns b.cells column

/-- A row of each source of a query. -/
abbrev Level := List Binding

/-- The rows an expression may read: those of its own query, and of each query around it. -/
abbrev Env := List Level

/-- The one candidate. A reference two of them answer to is refused, and finds nothing here. -/
def only (candidates : List Binding) : Option Binding :=
  match candidates with
  | [b] => some b
  | _ => none

/-- The row is the reference's source: the one it names, or one with its column when it names none. -/
def Binding.answers (b : Binding) (table : Option String) (column : String) : Bool :=
  match table with
  | some name => b.name = some name
  | none => column ∈ b.columns

/-- A reference reads the innermost query that has its source. -/
def resolve (table : Option String) (column : String) : Env → Value
  | [] => .null
  | level :: outer =>
    match level.filter (·.answers table column) with
    | [] => resolve table column outer
    | candidates => ((only candidates).map (·.get column)).getD .null

/-- The rows of every table, by the columns it has. -/
structure Database where
  columns : String → List String
  rows : String → List (List Value)

/-! ## What a tree means -/

/-- Everything an evaluation reads but the rows around it. What follows `tokens` is the rest of SQL:
the value of any other expression and how it reads as a condition, the rows it stands for in a `FROM`,
whether the text of a fragment or the name of a function hides an aggregate, what an aggregate or a
`HAVING` makes of a group, and what `DISTINCT`, `ORDER BY` and `LIMIT` keep of a result. -/
structure Setting where
  db : Database
  tokens : EngineToken → Value
  other : OperationNode → Env → Value
  condition : Value → Truth
  shape : OperationNode → Shape
  produced : OperationNode → Env → List (List Value)
  hides : OperationNode → Bool
  ofGroup : OperationNode → List Env → Value
  having : OperationNode → List Env → Truth
  kept : List OperationNode → Env → List (List Value) → List (List Value)
  mem_of_mem_kept : ∀ {modifiers env rows row}, row ∈ kept modifiers env rows → row ∈ rows

/-- What a node means, by the place it stands in: a value, a condition, or a source. -/
structure Sense where
  value : Env → Value
  truth : Env → Truth
  aggregates : Bool
  shape : Shape
  rows : Env → List (List Value)
  /-- The levels there are with one more source, of those there were before it. -/
  extend : Env → List Shape → List Level → List Level

/-- The rows of a source, as bindings. -/
def bindings (shape : Shape) (rows : List (List Value)) : List Binding :=
  rows.map fun cells => ⟨shape, cells⟩

/-- Each level with each row of one more source. -/
def crossed (shape : Shape) (rows : Env → List (List Value)) (env : Env) (_ : List Shape)
    (levels : List Level) : List Level :=
  levels.flatMap fun level => (bindings shape (rows env)).map fun b => level ++ [b]

/-- Each level with the rows of a joined source. -/
def joined (joinType : JoinType) (lateral : Bool) (shape : Shape) (rows : Env → List (List Value))
    (on : Env → Truth) (env : Env) (before : List Shape) (levels : List Level) : List Level :=
  let found := fun level =>
    bindings shape (rows (if lateral then level :: env else env))
  let matches' := fun level =>
    ((found level).map fun b => level ++ [b]).filter fun level' => on (level' :: env) = .yes
  let pairs := levels.flatMap matches'
  let lefts := (levels.filter fun level => (matches' level).isEmpty).map fun level =>
    level ++ [⟨shape, []⟩]
  let rights := ((bindings shape (rows env)).filter fun b =>
    levels.all fun level => on ((level ++ [b]) :: env) ≠ .yes).map fun b =>
      before.map (⟨·, []⟩) ++ [b]
  match joinType with
  | .inner => pairs
  | .left => pairs ++ lefts
  | .right => pairs ++ rights
  | .full => pairs ++ lefts ++ rights

/-- The levels of a `FROM` and its joins. -/
def levelsOf (sources : List Sense) (env : Env) : List Level :=
  (sources.foldl (fun (before, levels) source =>
    (before ++ [source.shape], source.extend env before levels)) ([], [[]])).2

/-- The levels a `WHERE` passes. -/
def matched (sources : List Sense) (where' : Option Sense) (env : Env) : List Level :=
  (levelsOf sources env).filter fun level =>
    match where' with
    | none => true
    | some condition => condition.truth (level :: env) = .yes

/-- Rows with the same keys, together. -/
def groupsOf (keys : List Sense) (env : Env) (levels : List Level) : List (List Level) :=
  let keyOf := fun level => keys.map fun key => key.value (level :: env)
  (levels.map keyOf).dedup.map fun key => levels.filter fun level => keyOf level = key

/-! ## What a query returns -/

/-- A selection of every column. -/
def isStar : OperationNode → Bool
  | .selectAll _ => true
  | _ => false

/-- A token the engine places, by itself or under a name. -/
def isToken : OperationNode → Bool
  | .token _ | .aliased (.token _) _ => true
  | _ => false

/-- The columns a selection gives, of the sources it selects from. -/
def columnsOf (shapes : List Shape) : OperationNode → List String
  | .selectAll table =>
    (shapes.filter fun shape => table.isNone || shape.name = table).flatMap Shape.columns
  | .aliased _ name => [name]
  | .reference _ column => [column]
  | _ => [""]

/-- The cells a selection gives of one row of each source. -/
def cellsOf (env : Env) (node : OperationNode) (meaning : Sense) : List Value :=
  match node with
  | .selectAll table =>
    ((env.headD []).filter fun b => table.isNone || b.name = table).flatMap fun b =>
      b.columns.map b.get
  | _ => [meaning.value env]

/-- The cells a selection gives of a group. -/
def groupCells (s : Setting) (group : List Env) (node : OperationNode) (meaning : Sense) :
    List Value :=
  if isStar node || isToken node then cellsOf (group.headD []) node meaning
  else [s.ofGroup node group]

section Select

variable (s : Setting) (selections : List OperationNode) (selected : List Sense)
  (sources : List Sense) (where' : Option Sense) (groupBy : Option (List Sense))
  (having : Option OperationNode) (modifiers : List OperationNode) (env : Env)

/-- The row of one group, which a `HAVING` may drop. -/
def groupRow (group : List Level) : Option (List Value) :=
  let envs := group.map (· :: env)
  if having.all fun condition => s.having condition envs = .yes then
    some ((selections.zip selected).flatMap fun (node, meaning) => groupCells s envs node meaning)
  else none

/-- The rows a `SELECT` returns: one for each group when it groups, one whatever it matches when it
aggregates with no `GROUP BY`, and otherwise one for each row its `WHERE` passes. -/
def returned : List (List Value) :=
  let levels := matched sources where' env
  s.kept modifiers env <|
    match groupBy with
    | some keys => (groupsOf keys env levels).filterMap (groupRow s selections selected having env)
    | none =>
      if having.isSome || selected.any (·.aggregates) then
        [levels].filterMap (groupRow s selections selected having env)
      else levels.map fun level =>
        (selections.zip selected).flatMap fun (node, meaning) => cellsOf (level :: env) node meaning

end Select

/-- A condition of any other kind. -/
def Setting.truthOf (s : Setting) (node : OperationNode) (env : Env) : Truth :=
  s.condition (s.other node env)

/-- What an expression means. -/
def expression (s : Setting) (node : OperationNode) (value : Env → Value) (truth : Env → Truth)
    (aggregates : Bool) : Sense where
  value := value
  truth := truth
  aggregates := aggregates
  shape := s.shape node
  rows := s.produced node
  extend := crossed (s.shape node) (s.produced node)

/-- What an expression of any other kind means. -/
def anything (s : Setting) (node : OperationNode) (aggregates : Bool) : Sense :=
  expression s node (s.other node) (s.truthOf node) aggregates

/-- What a source means that is no expression. -/
def source (shape : Shape) (rows : Env → List (List Value)) : Sense where
  value := fun _ => .null
  truth := fun _ => .unknown
  aggregates := false
  shape := shape
  rows := rows
  extend := crossed shape rows

/-- Whether the node, without its parentheses, is a `SELECT`. -/
def isSelect : OperationNode → Bool
  | .parens node => isSelect node
  | .select .. => true
  | _ => false

mutual

/-- What a node means. -/
def sense (s : Setting) : OperationNode → Sense
  | .parens node => sense s node
  | .and left right =>
    expression s (.and left right) (s.other (.and left right))
      (fun env => ((sense s left).truth env).and ((sense s right).truth env))
      ((sense s left).aggregates || (sense s right).aggregates)
  | .binary left operator right =>
    expression s (.binary left operator right) (s.other (.binary left operator right))
      (fun env =>
        if operator = "=" then ((sense s left).value env).eq ((sense s right).value env)
        else if operator = "in" ∧ isSelect right then
          ((sense s left).value env).isIn
            (((sense s right).rows env).map fun cells => cells.headD .null)
        else s.truthOf (.binary left operator right) env)
      ((sense s left).aggregates || (sense s right).aggregates)
  | .unary operator operand =>
    expression s (.unary operator operand) (s.other (.unary operator operand))
      (fun env =>
        if operator = "exists" ∧ isSelect operand then
          .ofBool !((sense s operand).rows env).isEmpty
        else s.truthOf (.unary operator operand) env)
      (sense s operand).aggregates
  | .reference table column =>
    expression s (.reference table column) (resolve table column)
      (fun env => s.condition (resolve table column env)) false
  | .selectAll table => anything s (.selectAll table) false
  | .token token =>
    expression s (.token token) (fun _ => s.tokens token) (fun _ => s.condition (s.tokens token))
      false
  | .value value => expression s (.value value) (fun _ => value) (fun _ => s.condition value) false
  | .raw sqlFragments parameters =>
    anything s (.raw sqlFragments parameters)
      (s.hides (.raw sqlFragments parameters) || anyAggregates s parameters)
  | .aggregate func aggregated => anything s (.aggregate func aggregated) true
  | .function func arguments =>
    anything s (.function func arguments)
      (s.hides (.function func arguments) || anyAggregates s arguments)
  | .other kind children => anything s (.other kind children) (anyAggregates s children)
  | .aliased node name =>
    { sense s node with
      shape := ⟨some name, (sense s node).shape.columns⟩
      extend := crossed ⟨some name, (sense s node).shape.columns⟩ (sense s node).rows }
  | .table name =>
    source ⟨some name, s.db.columns name⟩ fun _ => s.db.rows name
  | .join joinType lateral table on =>
    { sense s table with
      extend := joined joinType lateral (sense s table).shape (sense s table).rows
        fun env => (optionSense s on).elim .yes fun condition => condition.truth env }
  | .select selections froms joins where' groupBy having modifiers =>
    let rows := returned s selections (senses s selections) (senses s froms ++ senses s joins)
      (optionSense s where') (optionSenses s groupBy) having modifiers
    { source ⟨none, selections.flatMap
        (columnsOf ((senses s froms ++ senses s joins).map Sense.shape))⟩ rows with
      value := fun env => (((rows env).head?).bind List.head?).getD .null }

def senses (s : Setting) : List OperationNode → List Sense
  | [] => []
  | node :: rest => sense s node :: senses s rest

def optionSense (s : Setting) : Option OperationNode → Option Sense
  | none => none
  | some node => some (sense s node)

def optionSenses (s : Setting) : Option (List OperationNode) → Option (List Sense)
  | none => none
  | some nodes => some (senses s nodes)

def anyAggregates (s : Setting) : List OperationNode → Bool
  | [] => false
  | node :: rest => (sense s node).aggregates || anyAggregates s rest

end

/-! ## Conditions -/

section Conditions

variable {s : Setting} {env : Env} {left right node : OperationNode}

/-- A conjunction of conditions is the conjunction of their truths. -/
theorem truth_and : (sense s (.and left right)).truth env =
    ((sense s left).truth env).and ((sense s right).truth env) := rfl

/-- An equality of nodes is that of their values. -/
theorem truth_equals : (sense s (.binary left "=" right)).truth env =
    ((sense s left).value env).eq ((sense s right).value env) := by
  simp [sense, expression]

/-- A value is in a subquery where it is in its first column. -/
theorem truth_in (h : isSelect right) : (sense s (.binary left "in" right)).truth env =
    ((sense s left).value env).isIn
      (((sense s right).rows env).map fun cells => cells.headD .null) := by
  simp [sense, expression, h]

/-- A subquery exists where it has a row. -/
theorem truth_exists (h : isSelect node) : (sense s (.unary "exists" node)).truth env =
    .ofBool !((sense s node).rows env).isEmpty := by
  simp [sense, expression, h]

end Conditions

end Durablerun.Trees
