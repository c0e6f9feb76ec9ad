import Durablerun.Sql.Gates
import Mathlib.Data.List.Induction
import Mathlib.Data.List.Forall2

/-!
# What gates a statement shuts it

Where no row carries the stamp a fence names, a query that the fence gates reads no row: no row passes
its `WHERE`. This holds of every tree, whatever its fragments mean, over joins of every kind, through
subqueries and derived tables.

Reference: `packages/core/src/sql-tree.ts`.
-/

namespace Durablerun.Trees

open ThreeValued Stored

variable {s : Setting} {env : Env} {table fence : String}

/-! ## Sources -/

/-- Parentheses mean nothing. -/
@[simp] theorem sense_unwrapParens (node : OperationNode) :
    sense s (unwrapParens node) = sense s node := by
  induction node using unwrapParens.induct with
  | case1 node ih => exact ih
  | case2 node hparens => rw [unwrapParens.eq_2 node hparens]

/-- The senses of nodes are each node's. -/
theorem senses_eq_map (nodes : List OperationNode) : senses s nodes = nodes.map (sense s) := by
  induction nodes with
  | nil => rfl
  | cons node rest ih => rw [senses, List.map_cons, ih]

/-- A list of nodes aggregates where one of them does. -/
theorem anyAggregates_eq (nodes : List OperationNode) :
    anyAggregates s nodes = (senses s nodes).any (·.aggregates) := by
  induction nodes with
  | nil => rfl
  | cons node rest ih => rw [anyAggregates, senses, List.any_cons, ih]

/-- A binding is one of the source's rows, or the row an outer join found none for. -/
def Places (source : Sense) (b : Binding) : Prop :=
  b.toShape = source.shape ∧ (b.cells = [] ∨ ∃ env, b.cells ∈ source.rows env)

/-- A level has a row of each source. -/
def Conforms (sources : List Sense) (level : Level) : Prop := List.Forall₂ Places sources level

/-- A node placed after others gives levels with one more row. -/
def Extends (source : Sense) : Prop :=
  ∀ env before levels level, level ∈ source.extend env before levels →
    ∃ front b, level = front ++ [b] ∧ Places source b ∧
      (front ∈ levels ∨ front = before.map (⟨·, []⟩))

/-- A binding of a table is its shape over one of its rows. -/
theorem mem_bindings {shape : Shape} {rows : List (List Value)} {b : Binding} :
    b ∈ bindings shape rows ↔ b.toShape = shape ∧ b.cells ∈ rows := by
  unfold bindings
  rw [List.mem_map]
  constructor
  · rintro ⟨cells, hcells, rfl⟩
    exact ⟨rfl, hcells⟩
  · rintro ⟨rfl, hcells⟩
    exact ⟨b.cells, hcells, rfl⟩

/-- A source that is crossed in extends a level by its own rows. -/
theorem extends_crossed {source : Sense}
    (h : source.extend = crossed source.shape source.rows) : Extends source := by
  intro env before levels level hlevel
  rw [h] at hlevel
  obtain ⟨front, hfront, hrow⟩ := List.mem_flatMap.mp hlevel
  obtain ⟨b, hb, rfl⟩ := List.mem_map.mp hrow
  obtain ⟨hshape, hcells⟩ := mem_bindings.mp hb
  exact ⟨front, b, rfl, ⟨hshape, Or.inr ⟨env, hcells⟩⟩, Or.inl hfront⟩

/-- A source that is joined in extends a level by its own rows, or by none. -/
theorem extends_joined {source : Sense} {joinType : JoinType} {lateral : Bool} {on : Env → Truth}
    (h : source.extend = joined joinType lateral source.shape source.rows on) : Extends source := by
  intro env before levels level hlevel
  rw [h] at hlevel
  set found : Level → List Binding := fun front =>
    bindings source.shape (source.rows (if lateral then front :: env else env)) with hfound
  -- A row found for a level there was.
  have hpair : level ∈ levels.flatMap (fun front =>
      ((found front).map fun b => front ++ [b]).filter fun level' => on (level' :: env) = .yes) →
      ∃ front b, level = front ++ [b] ∧ Places source b ∧
        (front ∈ levels ∨ front = before.map (⟨·, []⟩)) := by
    intro hmem
    obtain ⟨front, hfront, hrow⟩ := List.mem_flatMap.mp hmem
    obtain ⟨b, hb, rfl⟩ := List.mem_map.mp (List.mem_filter.mp hrow).1
    obtain ⟨hshape, hcells⟩ := mem_bindings.mp hb
    exact ⟨front, b, rfl, ⟨hshape, Or.inr ⟨_, hcells⟩⟩, Or.inl hfront⟩
  -- A level that found none.
  have hleft : ∀ {p : Level → Bool}, level ∈ ((levels.filter p).map fun front =>
      front ++ [(⟨source.shape, []⟩ : Binding)]) →
      ∃ front b, level = front ++ [b] ∧ Places source b ∧
        (front ∈ levels ∨ front = before.map (⟨·, []⟩)) := by
    intro p hmem
    obtain ⟨front, hfront, rfl⟩ := List.mem_map.mp hmem
    exact ⟨front, _, rfl, ⟨rfl, Or.inl rfl⟩, Or.inl (List.mem_filter.mp hfront).1⟩
  -- A row that no level found.
  have hright : ∀ {p : Binding → Bool}, level ∈ (((bindings source.shape (source.rows env)).filter
      p).map fun b => before.map (⟨·, []⟩) ++ [b]) →
      ∃ front b, level = front ++ [b] ∧ Places source b ∧
        (front ∈ levels ∨ front = before.map (⟨·, []⟩)) := by
    intro p hmem
    obtain ⟨b, hb, rfl⟩ := List.mem_map.mp hmem
    obtain ⟨hshape, hcells⟩ := mem_bindings.mp (List.mem_filter.mp hb).1
    exact ⟨_, b, rfl, ⟨hshape, Or.inr ⟨env, hcells⟩⟩, Or.inr rfl⟩
  unfold joined at hlevel
  cases joinType with
  | inner => exact hpair hlevel
  | left => exact (List.mem_append.mp hlevel).elim hpair hleft
  | right => exact (List.mem_append.mp hlevel).elim hpair hright
  | full =>
    refine (List.mem_append.mp hlevel).elim (fun hmem => ?_) hright
    exact (List.mem_append.mp hmem).elim hpair hleft

/-- Every source extends a level by its own rows, or by none. -/
theorem extends_sense (node : OperationNode) : Extends (sense s node) := by
  cases node with
  | parens node => exact extends_sense node
  | join joinType lateral table on =>
    exact extends_joined (show _ = joined joinType lateral (sense s table).shape
      (sense s table).rows fun env =>
        (optionSense s on).elim .yes fun condition => condition.truth env from rfl)
  | _ => exact extends_crossed rfl

/-- The level where no source has a row conforms to the sources. -/
theorem conforms_absent (sources : List Sense) :
    Conforms sources (sources.map fun source => ⟨source.shape, []⟩) :=
  List.forall₂_map_right_iff.mpr (List.forall₂_same.mpr fun _ _ => ⟨rfl, Or.inl rfl⟩)

/-- Every level of a `FROM` has a row of each of its sources. -/
theorem conforms_levelsOf {sources : List Sense} (hsources : ∀ source ∈ sources, Extends source) :
    ∀ level ∈ levelsOf sources env, Conforms sources level := by
  -- The induction is on the sources from the last: each extends the levels of those before it.
  induction sources using List.reverseRecOn with
  | nil =>
    intro level hlevel
    obtain rfl := List.mem_singleton.mp hlevel
    exact List.Forall₂.nil
  | append_singleton sources source ih =>
    have hbefore := ih fun q hq => hsources q (List.mem_append_left _ hq)
    have hshapes : ∀ (l : List Sense) (before : List Shape) (levels : List Level),
        (l.foldl (fun (before, levels) (source : Sense) =>
          (before ++ [source.shape], source.extend env before levels)) (before, levels)).1 =
            before ++ l.map Sense.shape := by
      intro l
      induction l with
      | nil => simp
      | cons q l ih => simp [ih]
    intro level hlevel
    unfold levelsOf at hlevel hbefore
    rw [List.foldl_append, List.foldl_cons, List.foldl_nil] at hlevel
    obtain ⟨front, b, rfl, hb, hfront⟩ := hsources source (by simp) _ _ _ _ hlevel
    refine List.rel_append ?_ (List.Forall₂.cons hb List.Forall₂.nil)
    obtain hfront | rfl := hfront
    · exact hbefore front hfront
    · rw [hshapes, List.nil_append, List.map_map]
      exact conforms_absent sources

/-! ## Stamps -/

/-- The table has stamps, and no row of it carries the one the fence names. -/
structure Shut (s : Setting) (table fence : String) : Prop where
  column : "fence_stamp" ∈ s.db.columns table
  stamps : ∀ cells ∈ s.db.rows table,
    (cellOf (s.db.columns table) cells "fence_stamp").eq (s.tokens (.fence fence)) ≠ .yes

/-- Equality that holds is symmetric. -/
theorem eq_comm_yes {a b : Value} : a.eq b = .yes ↔ b.eq a = .yes := by
  rw [Value.eq_yes, Value.eq_yes, eq_comm (a := a.place)]
  tauto

/-- A source in scope by a name of its own is a table under that name. -/
theorem scopeOf_sense {node : OperationNode} {e : Scoped} (h : scopeOf node = some e) :
    (sense s node).shape = ⟨some e.name, s.db.columns e.table⟩ ∧
      ∀ env, (sense s node).rows env = s.db.rows e.table := by
  have hplain : ∀ {node : OperationNode}, (∀ table name, tableName node = some table →
      sourceName node = some name → (⟨name, table⟩ : Scoped) = e →
        (sense s node).shape = ⟨some e.name, s.db.columns e.table⟩ ∧
          ∀ env, (sense s node).rows env = s.db.rows e.table) := by
    intro node table name htable hname he
    subst he
    cases node with
    | table t =>
      obtain rfl := Option.some.inj htable
      obtain rfl := Option.some.inj hname
      exact ⟨rfl, fun _ => rfl⟩
    | aliased node a =>
      obtain rfl := Option.some.inj hname
      cases node with
      | table t =>
        obtain rfl := Option.some.inj htable
        exact ⟨rfl, fun _ => rfl⟩
      | _ => cases htable
    | _ => cases htable
  have hsense : (sense s (joinTable node)).shape = (sense s node).shape ∧
      (sense s (joinTable node)).rows = (sense s node).rows := by
    cases node <;> exact ⟨rfl, rfl⟩
  unfold scopeOf at h
  split at h
  · rename_i table name htable hname
    obtain ⟨hshape, hrows⟩ := hplain table name htable hname (Option.some.inj h)
    exact ⟨hsense.1 ▸ hshape, fun env => hsense.2 ▸ hrows env⟩
  · cases h

/-- Every table in scope has its binding in a level that conforms. -/
theorem exists_binding {nodes : List OperationNode} {level : Level} {e : Scoped}
    (hlevel : Conforms (senses s nodes) level) (he : e ∈ tableScope nodes) :
    ∃ b ∈ level, b.name = some e.name ∧ b.columns = s.db.columns e.table ∧
      (b.cells = [] ∨ b.cells ∈ s.db.rows e.table) := by
  obtain ⟨node, hnode, hscope⟩ := List.mem_filterMap.mp he
  have hplaced : ∀ {nodes : List OperationNode} {level : Level},
      List.Forall₂ Places (nodes.map (sense s)) level → node ∈ nodes →
        ∃ b ∈ level, Places (sense s node) b := by
    intro nodes level hall
    induction nodes generalizing level with
    | nil => exact fun hmem => absurd hmem List.not_mem_nil
    | cons first rest ih =>
      cases hall with
      | cons hb hrest =>
        intro hmem
        obtain rfl | hmem := List.mem_cons.mp hmem
        · exact ⟨_, List.mem_cons_self, hb⟩
        · obtain ⟨b, hb, hplaces⟩ := ih hrest hmem
          exact ⟨b, List.mem_cons_of_mem _ hb, hplaces⟩
  unfold Conforms at hlevel
  rw [senses_eq_map] at hlevel
  obtain ⟨b, hb, hshape, hcells⟩ := hplaced hlevel hnode
  obtain ⟨hnamed, hrows⟩ := scopeOf_sense (s := s) hscope
  refine ⟨b, hb, ?_, ?_, hcells.imp_right fun ⟨env, hmem⟩ => hrows env ▸ hmem⟩
  · exact congrArg Shape.name (hshape.trans hnamed)
  · exact congrArg Shape.columns (hshape.trans hnamed)

/-- A reference that a row of the innermost query answers to reads that row, or nothing. -/
theorem resolve_of_mem {level : Level} {outer : Env} {qualifier : Option String} {column : String}
    {b : Binding} (hb : b ∈ level) (hanswers : b.answers qualifier column) :
    resolve qualifier column (level :: outer) = .null ∨
      resolve qualifier column (level :: outer) = b.get column := by
  -- Where two rows answer to it, the reference is ambiguous and reads nothing.
  have hmem : b ∈ level.filter (·.answers qualifier column) := List.mem_filter.mpr ⟨hb, hanswers⟩
  rw [resolve]
  split
  · rename_i hnil
    rw [hnil] at hmem
    exact absurd hmem List.not_mem_nil
  · unfold only
    split
    · rename_i hone
      rw [hone] at hmem
      obtain rfl := List.mem_singleton.mp hmem
      exact Or.inr rfl
    · exact Or.inl rfl

/-- A column in scope is a cell of a row of its table, or nothing. -/
theorem resolve_of_referenced {nodes : List OperationNode} {level : Level} {outer : Env}
    {qualifier : Option String} {column : String} {e : Scoped}
    (hlevel : Conforms (senses s nodes) level)
    (hscope : referenced (tableScope nodes) qualifier = some e)
    (hcolumn : column ∈ s.db.columns e.table) :
    resolve qualifier column (level :: outer) = .null ∨
      ∃ cells ∈ s.db.rows e.table,
        resolve qualifier column (level :: outer) = cellOf (s.db.columns e.table) cells column := by
  have he : e ∈ tableScope nodes ∧ ∀ name ∈ qualifier, e.name = name := by
    cases qualifier with
    | some name =>
      refine ⟨List.mem_of_find?_eq_some hscope, fun name' hname => ?_⟩
      obtain rfl := Option.some.inj hname
      simpa using List.find?_some hscope
    | none =>
      simp only [referenced] at hscope
      split at hscope
      · rename_i candidate hone
        obtain rfl := Option.some.inj hscope
        exact ⟨hone ▸ List.mem_singleton_self _, fun _ hname => absurd hname (Option.not_mem_none _)⟩
      · cases hscope
  obtain ⟨b, hb, hname, hcolumns, hcells⟩ := exists_binding hlevel he.1
  have hanswers : b.answers qualifier column := by
    cases qualifier with
    | some name => exact decide_eq_true (hname.trans (congrArg some (he.2 name rfl)))
    | none => exact decide_eq_true (hcolumns ▸ hcolumn)
  obtain hnull | hread : resolve qualifier column (level :: outer) = .null ∨
      resolve qualifier column (level :: outer) = b.get column := resolve_of_mem hb hanswers
  · exact Or.inl hnull
  · unfold Binding.get at hread
    rw [hcolumns] at hread
    -- The row an outer join adds has no cells, and every column of it is null.
    obtain hempty | hmem := hcells
    · rw [hempty] at hread
      exact Or.inl (hread.trans (by simp [cellOf]))
    · exact Or.inr ⟨b.cells, hmem, hread⟩

/-! ## Conjuncts -/

/-- A comparison with a fence that no row carries the stamp of holds of no row. -/
theorem fenceCompared_shut {nodes : List OperationNode} {level : Level} {outer : Env}
    {column value : OperationNode} {g : GatingFence} (hlevel : Conforms (senses s nodes) level)
    (hg : fenceCompared (tableScope nodes) column value = some g) (hshut : Shut s g.table g.fence) :
    ((sense s column).value (level :: outer)).eq ((sense s value).value (level :: outer)) ≠ .yes := by
  unfold fenceCompared at hg
  split at hg
  · rename_i fence qualifier hvalue hcolumn
    obtain ⟨e, hscope, rfl⟩ := Option.map_eq_some_iff.mp hg
    rw [← sense_unwrapParens column, ← sense_unwrapParens value, hvalue, hcolumn]
    change (resolve qualifier "fence_stamp" (level :: outer)).eq (s.tokens (.fence fence)) ≠ .yes
    obtain hnull | ⟨cells, hcells, hread⟩ :
        resolve qualifier "fence_stamp" (level :: outer) = .null ∨
          ∃ cells ∈ s.db.rows e.table, resolve qualifier "fence_stamp" (level :: outer) =
            cellOf (s.db.columns e.table) cells "fence_stamp" :=
      resolve_of_referenced hlevel hscope hshut.column
    · rw [hnull]
      exact fun heq => (Value.eq_yes.mp heq).1 rfl
    · rw [hread]
      exact hshut.stamps cells hcells
  · cases hg

/-- A fence's equality fails where the table is shut to the fence. -/
theorem fenceEquality_shut {nodes : List OperationNode} {level : Level} {outer : Env}
    {left right : OperationNode} {operator : String} {g : GatingFence}
    (hlevel : Conforms (senses s nodes) level)
    (hg : fenceEquality (.binary left operator right) (tableScope nodes) = some g)
    (hshut : Shut s g.table g.fence) :
    (sense s (.binary left operator right)).truth (level :: outer) ≠ .yes := by
  unfold fenceEquality at hg
  split at hg
  · rename_i left' right' heq
    obtain ⟨rfl, rfl, rfl⟩ := heq
    rw [truth_equals]
    -- The fence stands on either side of the comparison.
    obtain hg | hg := Option.or_eq_some_iff.mp hg
    · exact fenceCompared_shut hlevel hg hshut
    · rw [Ne, eq_comm_yes]
      exact fenceCompared_shut hlevel hg.2 hshut
  · cases hg

/-! ## Groups -/

mutual

/-- A node that holds no aggregate, no function and no fragment aggregates nothing. -/
theorem aggregates_of_not_holdsCall : (node : OperationNode) → holdsCall node = false →
    (sense s node).aggregates = false
  | .parens node, h => aggregates_of_not_holdsCall node h
  | .and left right, h => by
    obtain ⟨hl, hr⟩ := Bool.or_eq_false_iff.mp h
    change ((sense s left).aggregates || (sense s right).aggregates) = false
    rw [aggregates_of_not_holdsCall left hl, aggregates_of_not_holdsCall right hr]
    rfl
  | .binary left operator right, h => by
    obtain ⟨hl, hr⟩ := Bool.or_eq_false_iff.mp h
    change ((sense s left).aggregates || (sense s right).aggregates) = false
    rw [aggregates_of_not_holdsCall left hl, aggregates_of_not_holdsCall right hr]
    rfl
  | .unary _ node, h => aggregates_of_not_holdsCall node h
  | .aliased node _, h => aggregates_of_not_holdsCall node h
  | .join _ _ table _, h => aggregates_of_not_holdsCall table (Bool.or_eq_false_iff.mp h).1
  | .other _ children, h => anyAggregates_of_not_holdsCall children h
  | .raw _ _, h | .aggregate _ _, h | .function _ _, h => by cases h
  | .reference _ _, _ | .selectAll _, _ | .token _, _ | .value _, _ | .table _, _ => rfl
  | .select .., _ => rfl

/-- Nodes without calls do not aggregate. -/
theorem anyAggregates_of_not_holdsCall : (nodes : List OperationNode) → anyHoldsCall nodes = false →
    anyAggregates s nodes = false
  | [], _ => rfl
  | node :: rest, h => by
    obtain ⟨hnode, hrest⟩ := Bool.or_eq_false_iff.mp h
    rw [anyAggregates, aggregates_of_not_holdsCall node hnode,
      anyAggregates_of_not_holdsCall rest hrest]
    rfl

end

section Select

variable {selections froms joins : List OperationNode} {where' having : Option OperationNode}
  {groupBy : Option (List OperationNode)} {modifiers : List OperationNode}

/-- The levels the `WHERE` of a `SELECT` passes. -/
def passed (s : Setting) (sources : List OperationNode) (where' : Option OperationNode) (env : Env) :
    List Level :=
  matched (senses s sources) (optionSense s where') env

/-- The senses of two lists of nodes are both lists' senses. -/
theorem senses_append (nodes nodes' : List OperationNode) :
    senses s (nodes ++ nodes') = senses s nodes ++ senses s nodes' := by
  simp only [senses_eq_map, List.map_append]

/-- A `SELECT` that may return no row returns none when its `WHERE` passes none. -/
theorem rows_of_passed_nil
    (hmay : mayReturnNoRow (.select selections froms joins where' groupBy having modifiers))
    (hnone : passed s (froms ++ joins) where' env = []) :
    (sense s (.select selections froms joins where' groupBy having modifiers)).rows env = [] := by
  unfold passed at hnone
  rw [senses_append] at hnone
  rw [List.eq_nil_iff_forall_not_mem]
  intro row hrow
  have hkept := s.mem_of_mem_kept hrow
  rw [hnone] at hkept
  cases groupBy with
  | some keys => exact absurd hkept List.not_mem_nil
  | none =>
    obtain ⟨hhaving, hcalls⟩ : having.isNone ∧ !anyHoldsCall selections := by
      simpa [mayReturnNoRow] using hmay
    have hplain : (senses s selections).any (·.aggregates) = false := by
      rw [← anyAggregates_eq]
      exact anyAggregates_of_not_holdsCall selections (by simpa using hcalls)
    obtain rfl := Option.isNone_iff_eq_none.mp hhaving
    simp only [optionSenses, hplain] at hkept
    exact absurd hkept List.not_mem_nil

end Select

/-! ## Gates -/

/-- Every source of a list extends a level by its own rows, or by none. -/
theorem extends_senses (nodes : List OperationNode) : ∀ source ∈ senses s nodes, Extends source := by
  rw [senses_eq_map]
  intro source hsource
  obtain ⟨node, -, rfl⟩ := List.mem_map.mp hsource
  exact extends_sense node

/-- A condition that holds of no level passes none. -/
theorem passed_nil_of_truth {nodes : List OperationNode} {node : OperationNode}
    (h : ∀ level, Conforms (senses s nodes) level → (sense s node).truth (level :: env) ≠ .yes) :
    passed s nodes (some node) env = [] := by
  unfold passed matched
  rw [List.filter_eq_nil_iff]
  intro level hlevel hyes
  exact h level (conforms_levelsOf (extends_senses nodes) level hlevel) (of_decide_eq_true hyes)

/-- Sources without levels pass no row. -/
theorem passed_nil_of_levels {nodes : List OperationNode} {where' : Option OperationNode}
    (h : levelsOf (senses s nodes) env = []) : passed s nodes where' env = [] := by
  unfold passed matched
  rw [h, List.filter_nil]

/-- A crossed source with no row leaves no level. -/
theorem levelsOf_nil_of_rows {node : OperationNode}
    (hextend : (sense s node).extend = crossed (sense s node).shape (sense s node).rows)
    (h : (sense s node).rows env = []) : levelsOf (senses s [node]) env = [] := by
  change (sense s node).extend env [] [[]] = []
  rw [hextend]
  simp [crossed, h, bindings]

/-- One of the gates compares the table's stamps with the fence. -/
def Gate (gates : List GatingFence) (table fence : String) : Prop :=
  ∃ g ∈ gates, g.table = table ∧ g.fence = fence

/-- An empty list gates nothing. -/
theorem not_gate_nil : ¬ Gate [] table fence := fun ⟨_, hg, _⟩ => absurd hg List.not_mem_nil

/-- What two lists of gates gate, one of them does. -/
theorem Gate.append {gates gates' : List GatingFence} (h : Gate (gates ++ gates') table fence) :
    Gate gates table fence ∨ Gate gates' table fence := by
  obtain ⟨g, hg, hnames⟩ := h
  exact (List.mem_append.mp hg).imp (⟨g, ·, hnames⟩) (⟨g, ·, hnames⟩)

/-- Whether a gate is tied is no matter here. -/
theorem Gate.untied {gates : List GatingFence} {tied : GatingFence → Bool}
    (h : Gate (gates.map fun g => { g with tied := tied g }) table fence) :
    Gate gates table fence := by
  obtain ⟨_, hg, htable, hfence⟩ := h
  obtain ⟨g, hmem, rfl⟩ := List.mem_map.mp hg
  exact ⟨g, hmem, htable, hfence⟩

mutual

/-- A `WHERE` with a gate that is shut passes no row. -/
theorem whereGates_shut (hshut : Shut s table fence) (nodes : List OperationNode) :
    (where' : Option OperationNode) → Gate (whereGates (tableScope nodes) where') table fence →
      ∀ env, passed s nodes where' env = []
  | none, hg => absurd hg not_gate_nil
  | some node, hg => fun _ =>
    passed_nil_of_truth fun level hlevel => conjunctGates_shut hshut nodes node hg level hlevel _

/-- A conjunct with a gate that is shut holds of no row. -/
theorem conjunctGates_shut (hshut : Shut s table fence) (nodes : List OperationNode) :
    (node : OperationNode) → Gate (conjunctGates (tableScope nodes) node) table fence →
      ∀ level, Conforms (senses s nodes) level → ∀ outer, (sense s node).truth (level :: outer) ≠ .yes
  | .parens node, hg => conjunctGates_shut hshut nodes node hg
  | .and left right, hg => by
    intro level hlevel outer hyes
    rw [truth_and, Truth.and_eq_yes] at hyes
    obtain hg | hg := hg.append
    · exact conjunctGates_shut hshut nodes left hg level hlevel outer hyes.1
    · exact conjunctGates_shut hshut nodes right hg level hlevel outer hyes.2
  | .binary left operator right, hg => by
    intro level hlevel outer
    rw [conjunctGates] at hg
    split at hg
    · rename_i g hfence
      obtain ⟨g', hg', rfl, rfl⟩ := hg
      obtain rfl := List.mem_singleton.mp hg'
      exact fenceEquality_shut hlevel hfence hshut
    · split at hg
      · rename_i hin
        obtain ⟨hselect, hrows⟩ := subqueryGates_shut hshut (tableScope nodes) _ right hg
        rw [hin, truth_in hselect, hrows]
        exact fun hyes => absurd (Value.isIn_yes.mp hyes) (by simp)
      · exact absurd hg not_gate_nil
  | .unary operator operand, hg => by
    intro level hlevel outer
    rw [conjunctGates] at hg
    split at hg
    · rename_i hexists
      obtain ⟨hselect, hrows⟩ := subqueryGates_shut hshut (tableScope nodes) _ operand hg
      rw [hexists, truth_exists hselect, hrows]
      simp
    · exact absurd hg not_gate_nil
  | .reference _ _, hg | .selectAll _, hg | .token _, hg | .value _, hg | .raw _ _, hg
  | .aggregate _ _, hg | .function _ _, hg | .other _ _, hg | .aliased _ _, hg | .table _, hg
  | .join _ _ _ _, hg | .select .., hg => absurd hg not_gate_nil

/-- A subquery with a gate that is shut has no row. -/
theorem subqueryGates_shut (hshut : Shut s table fence) (scope : List Scoped)
    (conjunct : OperationNode) :
    (node : OperationNode) → Gate (subqueryGates scope conjunct node) table fence →
      isSelect node ∧ ∀ env, (sense s node).rows env = []
  | .parens node, hg => subqueryGates_shut hshut scope conjunct node hg
  | .select selections froms joins where' groupBy having modifiers, hg => by
    rw [subqueryGates] at hg
    split at hg
    · rename_i hmay
      refine ⟨rfl, fun env => rows_of_passed_nil hmay ?_⟩
      obtain hg | hg := hg.untied.append
      · exact whereGates_shut hshut (froms ++ joins) where' hg env
      · exact passed_nil_of_levels (derivedTableGates_shut hshut joins froms hg env)
    · exact absurd hg not_gate_nil
  | .and _ _, hg | .binary _ _ _, hg | .unary _ _, hg | .reference _ _, hg | .selectAll _, hg
  | .token _, hg | .value _, hg | .raw _ _, hg | .aggregate _ _, hg | .function _ _, hg
  | .other _ _, hg | .aliased _ _, hg | .table _, hg | .join _ _ _ _, hg => absurd hg not_gate_nil

/-- A derived table with a gate that is shut leaves no level. -/
theorem derivedTableGates_shut (hshut : Shut s table fence) (joins : List OperationNode) :
    (froms : List OperationNode) → Gate (derivedTableGates joins froms) table fence → ∀ env,
      levelsOf (senses s (froms ++ joins)) env = []
  | [source], hg => by
    intro env
    rw [derivedTableGates] at hg
    split at hg
    · rename_i hempty
      obtain rfl := List.isEmpty_iff.mp hempty
      obtain ⟨hextend, hrows⟩ := sourceGates_shut hshut source hg
      exact levelsOf_nil_of_rows hextend (hrows env)
    · exact absurd hg not_gate_nil
  | [], hg | _ :: _ :: _, hg => absurd hg not_gate_nil

/-- A source with a gate that is shut has no row. -/
theorem sourceGates_shut (hshut : Shut s table fence) :
    (node : OperationNode) → Gate (sourceGates node) table fence →
    (sense s node).extend = crossed (sense s node).shape (sense s node).rows ∧
      ∀ env, (sense s node).rows env = []
  | .aliased node name, hg => by
    have hinner := sourceGates_shut hshut node
    cases node with
    | select => exact ⟨rfl, (hinner hg).2⟩
    | _ => exact absurd hg not_gate_nil
  | .select selections froms joins where' groupBy having modifiers, hg => by
    rw [sourceGates] at hg
    split at hg
    · rename_i hmay
      refine ⟨rfl, fun env => rows_of_passed_nil hmay ?_⟩
      obtain hg | hg := hg.append
      · exact whereGates_shut hshut (froms ++ joins) where' hg env
      · exact passed_nil_of_levels (derivedTableGates_shut hshut joins froms hg env)
    · exact absurd hg not_gate_nil
  | .parens _, hg | .and _ _, hg | .binary _ _ _, hg | .unary _ _, hg | .reference _ _, hg
  | .selectAll _, hg | .token _, hg | .value _, hg | .raw _ _, hg | .aggregate _ _, hg
  | .function _ _, hg | .other _ _, hg | .table _, hg | .join _ _ _ _, hg => absurd hg not_gate_nil

end

/-! ## The gates of a condition -/

/-- Parentheses around a subquery change no gate. -/
theorem subqueryGates_unwrapParens (scope : List Scoped) (conjunct : OperationNode) :
    ∀ node, subqueryGates scope conjunct (unwrapParens node) = subqueryGates scope conjunct node
  | .parens node => subqueryGates_unwrapParens scope conjunct node
  | .and _ _ | .binary _ _ _ | .unary _ _ | .reference _ _ | .selectAll _ | .token _ | .value _
  | .raw _ _ | .aggregate _ _ | .function _ _ | .other _ _ | .aliased _ _ | .table _
  | .join _ _ _ _ | .select _ _ _ _ _ _ _ => rfl

/-- The gates of a condition are those of its top-level conjuncts: a fence it compares a stamp with,
or the gates of a subquery it requires a row from. -/
theorem conjunctGates_eq (scope : List Scoped) : ∀ node, conjunctGates scope node =
    (conjuncts node).flatMap fun conjunct => (fenceEquality conjunct scope).elim
      ((requiredSubquery conjunct).elim [] (subqueryGates scope conjunct)) ([·])
  | .parens node => conjunctGates_eq scope node
  | .and left right => by
    rw [conjuncts, List.flatMap_append, ← conjunctGates_eq scope left, ← conjunctGates_eq scope right]
    rfl
  | .binary left operator right => by
    change _ = [_].flatMap _
    rw [List.flatMap_singleton, conjunctGates]
    cases fenceEquality (.binary left operator right) scope with
    | some fence => rfl
    | none =>
      by_cases hin : operator = "in"
      · subst hin
        exact (subqueryGates_unwrapParens scope _ right).symm
      · simp [requiredSubquery, hin]
  | .unary operator operand => by
    change _ = [_].flatMap _
    rw [List.flatMap_singleton, conjunctGates]
    by_cases hexists : operator = "exists"
    · subst hexists
      exact (subqueryGates_unwrapParens scope _ operand).symm
    · simp [requiredSubquery, fenceEquality, hexists]
  | .reference _ _ | .selectAll _ | .token _ | .value _ | .raw _ _ | .aggregate _ _ | .function _ _
  | .other _ _ | .aliased _ _ | .table _ | .join _ _ _ _ | .select _ _ _ _ _ _ _ => rfl

end Durablerun.Trees
