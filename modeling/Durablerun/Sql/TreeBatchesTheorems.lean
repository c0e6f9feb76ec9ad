import Durablerun.Sql.GatesTheorems
import Durablerun.Sql.TreeBatches

/-!
# A losing batch of trees writes nothing

The rules a batch holds its statements to are read off trees, and what a statement does is what its
tree means. Whatever the trees are: a statement finds no row where its gate left no stamp, leaves no
stamp but its own, and so an executor may skip it, and a batch no compare-and-set of which writes a
row writes none.

Reference: `packages/core/src/sql-tree.ts` and `packages/core/src/fenced-batch.ts`.
-/

namespace Durablerun.Trees

open ThreeValued Stored Gated

variable {engine : Engine} {seed : String} {rows rows' : Rows} {earlier : List Held} {held : Held}
  {fence : String}

/-! ## Stamps -/

/-- A row of a table that carries stamps carries this one. -/
def Bears (engine : Engine) (rows : Rows) (stamp : Value) : Prop :=
  ∃ table ∈ FENCED_TABLES, ∃ cells ∈ rows table,
    cellOf (engine.columns table) cells "fence_stamp" = stamp

/-- The stamps of two statements are two. -/
theorem stampOf_inj {name name' : String} (h : stampOf seed name = stampOf seed name') :
    name = name' := by
  have htext := Value.text.inj h
  have hlist := congrArg String.toList htext
  exact String.toList_inj.mp (by simpa using hlist)

/-- Only a text equals a text. -/
theorem eq_text {v : Value} {text : String} (h : v.eq (.text text) = .yes) : v = .text text := by
  obtain ⟨-, -, hplace⟩ := Value.eq_yes.mp h
  have hclass : (ofLex v.place).1 = 2 := congrArg (fun p => (ofLex p).1) hplace
  -- The class of a value comes first in its place, and no other class is that of a text.
  cases v with
  | text text' =>
    have htext : text' = text := congrArg (fun p => (ofLex (ofLex (ofLex p).2).2).1) hplace
    rw [htext]
  | _ => simp [Value.place] at hclass

/-- What the statement of the batch is evaluated in. -/
def settingOf (engine : Engine) (seed : String) (held : Held) (rows : Rows) : Setting :=
  engine.setting rows (tokensOf engine seed held.name)

/-- A table where no row bears a fence's stamp is shut to the fence. -/
theorem shut_of_not_bears {table : String} (htable : table ∈ FENCED_TABLES)
    (hnot : ¬ Bears engine rows (stampOf seed fence)) :
    Shut (settingOf engine seed held rows) table fence := by
  constructor
  · unfold settingOf
    rw [engine.setting_db]
    exact engine.stamped table htable
  · unfold settingOf
    rw [engine.setting_db, engine.setting_tokens]
    intro cells hcells heq
    exact hnot ⟨table, htable, cells, hcells, eq_text heq⟩

/-! ## Gates -/

section Gates

variable {s : Setting} {table : String} {selections froms joins : List OperationNode}
  {where' having : Option OperationNode} {groupBy : Option (List OperationNode)}
  {modifiers : List OperationNode}

/-- The gates of a `SELECT` shut its `WHERE`. -/
theorem gatingFences_shut (hshut : Shut s table fence)
    (hg : Gate (gatingFences (.select selections froms joins where' groupBy having modifiers))
      table fence) (env : Env) : passed s (froms ++ joins) where' env = [] := by
  obtain hg | hg := hg.append
  · exact whereGates_shut hshut (froms ++ joins) where' hg env
  · exact passed_nil_of_levels (derivedTableGates_shut hshut joins froms hg env)

/-- A query that may return no row returns none where a gate of it is shut. -/
theorem rows_shut {query : OperationNode} (hshut : Shut s table fence)
    (hg : Gate (gatingFences query) table fence) (hmay : mayReturnNoRow query) (env : Env) :
    (sense s query).rows env = [] := by
  cases query with
  | select => exact rows_of_passed_nil hmay (gatingFences_shut hshut hg env)
  | _ => exact absurd hg not_gate_nil

/-- Whatever a query's fragments, joins and subqueries mean, and whatever rows are around it: where no
row of a table carries the stamp that a gating fence asks of it, the query returns no row, unless an
aggregate returns one of no rows. -/
theorem gatingFences_sound {query : OperationNode} {g : GatingFence} (hg : g ∈ gatingFences query)
    (hshut : Shut s g.table g.fence) (hmay : mayReturnNoRow query) (env : Env) :
    (sense s query).rows env = [] :=
  rows_shut hshut ⟨g, hg, rfl, rfl⟩ hmay env

/-- No run is stamped, so none is found, and through the gate in the subquery none of their tasks. -/
theorem gatingFences_sound_stampedTasks :
    (pendingRows "r" "tasks").length = 1 ∧
      ∀ query ∈ [stampedRuns "claim", stampedTasks "claim"],
        (sense (plainSetting ⟨fun _ => plainColumns, pendingRows "r"⟩
          (tokensOf plainEngine "s" "mirror")) query).rows [] = [] := by
  refine ⟨rfl, fun query hquery => ?_⟩
  have hgate : (⟨"claim", "runs", "runs", true⟩ : GatingFence) ∈ gatingFences (stampedRuns "claim") ∧
      (⟨"claim", "runs", "runs", true⟩ : GatingFence) ∈ gatingFences (stampedTasks "claim") := by
    decide
  have hshut : Shut (plainSetting ⟨fun _ => plainColumns, pendingRows "r"⟩
      (tokensOf plainEngine "s" "mirror")) "runs" "claim" := by
    refine ⟨by decide, fun cells hcells => ?_⟩
    obtain rfl := List.mem_singleton.mp hcells
    decide
  simp only [List.mem_cons, List.not_mem_nil, or_false] at hquery
  obtain rfl | rfl := hquery
  · exact gatingFences_sound hgate.1 hshut (by decide) []
  · exact gatingFences_sound hgate.2 hshut (by decide) []

/-- A statement whose sources pass no row hits none. -/
theorem hits_nil {froms : List OperationNode} (h : passed s froms where' [] = []) :
    hits s froms where' = [] := by
  unfold passed at h
  unfold hits
  rw [h, List.filterMap_nil]

end Gates

/-! ## Statements -/

/-- A table that is set to its own rows is as it was. -/
theorem set_same (rows : Rows) (table : String) : rows.set table (rows table) = rows := by
  funext t
  unfold Rows.set
  split
  · rename_i heq
    rw [heq]
  · rfl

/-- Sending a statement has its effect, where the engine allows it. -/
theorem send_eq : (held.sent engine seed).send rows =
    if engine.allows rows (Trees.effect engine (settingOf engine seed held rows) rows held.tree).1
    then some (Trees.effect engine (settingOf engine seed held rows) rows held.tree) else none := rfl

/-- A statement that hits no row, or whose query returns none, changes nothing. -/
theorem effect_idle {s : Setting} (h : match held.tree with
    | .update table _ where' => hits s [table] where' = []
    | .delete froms where' => hits s froms where' = []
    | .insert _ _ values _ => insertedRows s values = []
    | .select query => (sense s query).rows [] = []) :
    Trees.effect engine s rows held.tree = (rows, 0) := by
  cases htree : held.tree with
  | update table updates where' =>
    rw [htree] at h
    simp only [effect, h, List.not_mem_nil, if_false, List.map_id', set_same, decide_false,
      List.filter_false, List.length_nil]
  | delete froms where' =>
    rw [htree] at h
    simp only [effect, h, List.not_mem_nil, not_false_eq_true, decide_true, List.filter_true,
      set_same, decide_false, List.filter_false, List.length_nil]
  | insert into columns values onConflict =>
    rw [htree] at h
    simp only at h
    simp only [effect, h, List.map_nil, insertAll, set_same]
  | select query =>
    rw [htree] at h
    simp only at h
    simp only [effect, h, List.length_nil]

/-! ## What gates a statement -/

/-- A statement's fence is one of the fenced tables. -/
theorem mem_of_fence {table : String} (h : held.fence = some table) : table ∈ FENCED_TABLES := by
  unfold Held.fence at h
  split at h
  · exact of_decide_eq_true (Option.filter_eq_some_iff.mp h).2
  · exact of_decide_eq_true (Option.filter_eq_some_iff.mp h).2
  · cases h
  · cases h

/-- What a statement is skipped by is a fence that gates it. -/
structure Skips (held : Held) (fence : String) : Prop where
  kind : held.kind ≠ .cas
  gate : ∃ g ∈ held.tree.gatingFences, g.fence = fence
  reads : ∀ query, held.tree = .select query → mayReturnNoRow query

/-- A statement that is skipped unless a fence wrote is skipped by that fence. -/
theorem skips_of_skipUnlessWrote (h : held.skipUnlessWrote = some fence) : Skips held fence := by
  have hfound : ∀ {gates : List GatingFence},
      (gates.find? (·.tied)).map GatingFence.fence = some fence → ∃ g ∈ gates, g.fence = fence := by
    intro gates hmap
    obtain ⟨g, hfind, hfence⟩ := Option.map_eq_some_iff.mp hmap
    exact ⟨g, List.mem_of_find?_eq_some hfind, hfence⟩
  unfold Held.skipUnlessWrote at h
  split at h
  · cases h
  · cases h
  · rename_i query htree hcas _
    split at h
    · rename_i hmay
      refine ⟨hcas, hfound h, fun query' htree' => ?_⟩
      obtain rfl := RootNode.select.inj (htree.symm.trans htree')
      exact hmay
    · cases h
  · rename_i hcas _ hselect
    exact ⟨hcas, hfound h, fun query htree => (hselect query htree).elim⟩

/-- A statement whose gate left no stamp changes nothing. -/
theorem send_idle (hadm : Admitted earlier held) (hgate : held.skipUnlessWrote = some fence)
    (hnot : ¬ Bears engine rows (stampOf seed fence)) :
    (held.sent engine seed).send rows = some (rows, 0) := by
  obtain ⟨hkind, ⟨g, hg, rfl⟩, hreads⟩ := skips_of_skipUnlessWrote hgate
  obtain ⟨e, -, -, hfence⟩ := hadm.sources hkind g hg
  have hshut : Shut (settingOf engine seed held rows) g.table g.fence :=
    shut_of_not_bears (mem_of_fence hfence) hnot
  have hgates : Gate held.tree.gatingFences g.table g.fence := ⟨g, hg, rfl, rfl⟩
  have heffect : Trees.effect engine (settingOf engine seed held rows) rows held.tree =
      (rows, 0) := by
    refine effect_idle ?_
    have hadmKind := hadm.kind
    have hstamps := hadm.stamps
    cases htree : held.tree with
    | update table updates where' =>
      rw [htree] at hgates
      exact hits_nil (whereGates_shut hshut [table] where' hgates [])
    | delete froms where' =>
      rw [htree] at hgates
      exact hits_nil (whereGates_shut hshut froms where' hgates [])
    | insert into columns values onConflict =>
      rw [htree] at hgates hadmKind hstamps
      -- A tail reads, so an insert with a gate is a follow-on, which inserts a plain `SELECT`.
      have hfollows : held.kind = .followOn := by
        cases hk : held.kind with
        | followOn => rfl
        | cas => exact absurd hk hkind
        | tail => simp [hk] at hadmKind
        | openTail => simp [hk] at hadmKind
      obtain ⟨hplain, -⟩ := hstamps.2.1 hfollows
      unfold insertsPlain at hplain
      split at hplain
      · rename_i selections froms joins where' groupBy having modifiers
        obtain ⟨rfl, hcalls⟩ := hplain
        change Gate (gatingFences (.select selections froms joins where' groupBy none modifiers))
          g.table g.fence at hgates
        refine rows_shut hshut hgates ?_ []
        simp [mayReturnNoRow, hcalls]
      · exact hplain.elim
    | select query =>
      rw [htree] at hgates
      exact rows_shut hshut hgates (hreads query htree) []
  rw [send_eq, heffect, if_pos (engine.allows_refl rows)]

/-! ## What a statement stamps -/

/-- A column's cell is at the column's place. -/
theorem lookup_zip {column : String} : ∀ {columns : List String} {cells : List Value},
    (columns.zip cells).lookup column = if column ∈ columns then cells[columns.idxOf column]? else none
  | [], cells => by simp
  | c :: columns, [] => by simp
  | c :: columns, v :: cells => by
    rw [List.zip_cons_cons, List.lookup_cons, lookup_zip, List.idxOf_cons]
    by_cases heq : column = c
    · subst heq
      simp
    · have hne : (column == c) = false := beq_false_of_ne heq
      have hne' : (c == column) = false := beq_false_of_ne (Ne.symm heq)
      simp [hne, hne', heq]

/-- A cell of a row, by the position of its column. -/
theorem cellOf_eq {columns : List String} {cells : List Value} {column : String} {v : Value}
    (hcell : cells[columns.idxOf column]? = some v) (hmem : column ∈ columns) :
    cellOf columns cells column = v := by
  unfold cellOf
  rw [lookup_zip, if_pos hmem, hcell, Option.getD_some]

/-- The cell of a column is what the row has for it. -/
theorem cellOf_map {columns : List String} {column : String} {f : String → Value}
    (hmem : column ∈ columns) : cellOf columns (columns.map f) column = f column := by
  refine cellOf_eq ?_ hmem
  rw [List.getElem?_map, List.getElem?_idxOf hmem, Option.map_some]

section Stamps

variable {s : Setting} {columns : List String} {updates : List ColumnUpdateNode}

/-- An assignment list that writes the stamp leaves a row with it. -/
theorem assign_stamp (hwrites : writesStamp updates) (hmem : "fence_stamp" ∈ columns) {env : Env}
    {cells : List Value} :
    cellOf columns (assign s columns updates env cells) "fence_stamp" = s.tokens .stamp := by
  obtain ⟨update, hfilter, hvalue⟩ := hwrites
  have hfind : updates.find? (·.column = "fence_stamp") = some update := by
    rw [← List.head?_filter, hfilter, List.head?_cons]
  unfold assign
  rw [cellOf_map hmem]
  simp only [hfind, hvalue]
  rfl

/-- A selection with no star is one cell. -/
theorem cellsOf_plain {env : Env} {node : OperationNode} {meaning : Sense}
    (h : isStar node = false) : cellsOf env node meaning = [meaning.value env] := by
  cases node <;> first | rfl | cases h

/-- A list of single results is a map. -/
theorem flatMap_singleton {α β : Type} {l : List α} {f : α → List β} {g : α → β}
    (h : ∀ a ∈ l, f a = [g a]) : l.flatMap f = l.map g := by
  induction l with
  | nil => rfl
  | cons a l ih =>
    rw [List.flatMap_cons, h a List.mem_cons_self,
      ih fun b hb => h b (List.mem_cons_of_mem _ hb), List.map_cons, List.singleton_append]

/-- The value of a token is the same of every row. -/
theorem value_of_isToken {node : OperationNode} {env env' : Env} (h : isToken node) :
    (sense s node).value env = (sense s node).value env' := by
  cases node with
  | token => rfl
  | aliased inner name =>
    cases inner with
    | token => rfl
    | _ => cases h
  | _ => cases h

/-- What a `SELECT` with no star returns where it selects a token. -/
theorem returned_token {selections froms joins : List OperationNode}
    {where' having : Option OperationNode} {groupBy : Option (List OperationNode)}
    {modifiers : List OperationNode} {env : Env} {row : List Value} {i : ℕ} {node : OperationNode}
    (hplain : ∀ selection ∈ selections, isStar selection = false) (hi : selections[i]? = some node)
    (htoken : isToken node)
    (hrow : row ∈ (sense s (.select selections froms joins where' groupBy having modifiers)).rows
      env) : row[i]? = some ((sense s node).value env) := by
  -- Whichever way the row was made, each selection gave it one cell.
  have hcells : ∀ {f : OperationNode × Sense → List Value} {g : OperationNode × Sense → Value},
      (∀ p ∈ selections.zip (senses s selections), f p = [g p]) →
      g (node, sense s node) = (sense s node).value env →
        ((selections.zip (senses s selections)).flatMap f)[i]? = some ((sense s node).value env) := by
    intro f g hf hg
    have hzip : (selections.zip (senses s selections))[i]? = some (node, sense s node) := by
      rw [senses_eq_map]
      exact List.getElem?_zip_eq_some.mpr ⟨hi, by rw [List.getElem?_map, hi, Option.map_some]⟩
    rw [flatMap_singleton hf, List.getElem?_map, hzip, Option.map_some, hg]
  -- No selection is a star, so a cell's place is its selection's.
  have hstar : ∀ p ∈ selections.zip (senses s selections), isStar p.1 = false :=
    fun p hp => hplain p.1 (List.of_mem_zip hp).1
  have hgroup : ∀ group, groupRow s selections (senses s selections) having env group = some row →
      row[i]? = some ((sense s node).value env) := by
    intro group hgroup
    unfold groupRow at hgroup
    obtain rfl := Option.some.inj (Option.ite_none_right_eq_some.mp hgroup).2
    refine hcells (g := fun p => if isToken p.1 then p.2.value ((group.map (· :: env)).headD [])
      else s.ofGroup p.1 (group.map (· :: env))) (fun p hp => ?_) ?_
    · simp only [groupCells, hstar p hp, Bool.false_or]
      split
      · exact cellsOf_plain (hstar p hp)
      · rfl
    · simp only [htoken, if_true]
      exact value_of_isToken htoken
  -- A row of each group, one row of all, or a row of each level.
  have hkept := s.mem_of_mem_kept hrow
  split at hkept
  · obtain ⟨group, -, hrow⟩ := List.mem_filterMap.mp hkept
    exact hgroup group hrow
  · split at hkept
    · obtain ⟨group, -, hrow⟩ := List.mem_filterMap.mp hkept
      exact hgroup group hrow
    · obtain ⟨level, -, rfl⟩ := List.mem_map.mp hkept
      exact hcells (fun p hp => cellsOf_plain (hstar p hp)) (value_of_isToken htoken)

/-- Every row there is after an insert was there, was inserted, or was assigned to. -/
theorem insertOne_forall {P : List Value → Prop} {table : String}
    {onConflict : Option OnConflictNode} {cells : List Value} {stored : List (List Value)}
    (hcells : P cells) (hstored : ∀ row ∈ stored, P row)
    (hassign : ∀ conflict ∈ onConflict, ∀ updates ∈ conflict.updates, ∀ env row,
      P (assign s (engine.columns table) updates env row)) :
    ∀ row ∈ (insertOne engine s table onConflict cells stored).1, P row := by
  have hadded : ∀ row ∈ stored ++ [cells], P row := by
    intro row hrow
    obtain hrow | hrow := List.mem_append.mp hrow
    · exact hstored row hrow
    · exact List.mem_singleton.mp hrow ▸ hcells
  unfold insertOne
  cases onConflict with
  | none => exact hadded
  | some conflict =>
    simp only
    split
    · cases hupdates : conflict.updates with
      | none => exact hstored
      | some updates =>
        intro row hrow
        obtain ⟨old, hold, rfl⟩ := List.mem_map.mp hrow
        exact iteInduction (fun _ => hassign conflict rfl updates hupdates _ _)
          fun _ => hstored old hold
    · exact hadded

/-- What holds of every stored row and of every inserted one holds after an insertion, where its
conflict arm keeps it. -/
theorem insertAll_forall {P : List Value → Prop} {table : String}
    {onConflict : Option OnConflictNode} {inserted stored : List (List Value)}
    (hcells : ∀ cells ∈ inserted, P cells) (hstored : ∀ row ∈ stored, P row)
    (hassign : ∀ conflict ∈ onConflict, ∀ updates ∈ conflict.updates, ∀ env row,
      P (assign s (engine.columns table) updates env row)) :
    ∀ row ∈ (insertAll engine s table onConflict inserted stored).1, P row := by
  induction inserted generalizing stored with
  | nil => exact hstored
  | cons cells rest ih =>
    refine ih (fun c hc => hcells c (List.mem_cons_of_mem _ hc)) ?_
    exact insertOne_forall (hcells cells List.mem_cons_self) hstored hassign

/-- What an `INSERT` inserts carries the stamp in the column of the stamp. -/
theorem inserted_stamp {values : InsertValues} {cells : List Value}
    (hinserts : insertsStamp columns values)
    (hwhole : match values with
      | .query (.select selections _ _ _ _ _ _) => ∀ selection ∈ selections, isStar selection = false
      | .query _ => False
      | .row _ => True)
    (hmem : cells ∈ insertedRows s values) :
    cellOf columns cells "fence_stamp" = s.tokens .stamp := by
  obtain ⟨hcount, hnode⟩ := hinserts
  have hcolumn : "fence_stamp" ∈ columns := List.count_pos_iff.mp (by omega)
  refine cellOf_eq ?_ hcolumn
  cases values with
  | row values =>
    obtain rfl := List.mem_singleton.mp hmem
    change values[columns.idxOf "fence_stamp"]? = some (.token .stamp) at hnode
    rw [List.getElem?_map, hnode]
    rfl
  | query query =>
    cases query with
    | select selections froms joins where' groupBy having modifiers =>
      unfold insertedNodes at hnode
      rw [List.getElem?_map] at hnode
      obtain ⟨node, hi, hplain⟩ := Option.map_eq_some_iff.mp hnode
      have htoken : isToken node ∧ (sense s node).value [] = s.tokens .stamp := by
        cases node with
        | token =>
          cases hplain
          exact ⟨rfl, rfl⟩
        | aliased inner name =>
          cases hplain
          exact ⟨rfl, rfl⟩
        | _ => cases hplain
      rw [returned_token hwhole hi htoken.1 hmem, htoken.2]
    | _ => exact hwhole.elim

/-- An inserted row's stamp is the one its columns say. -/
theorem tableRow_stamp {table : String} {cells : List Value} (htable : table ∈ FENCED_TABLES)
    (hmem : "fence_stamp" ∈ columns) :
    cellOf (engine.columns table) (tableRow engine table columns cells) "fence_stamp" =
      cellOf columns cells "fence_stamp" := by
  unfold tableRow
  rw [cellOf_map (engine.stamped table htable), if_pos hmem]

end Stamps

/-- The rows that carry a stamp, when one table has changed. -/
theorem Bears.of_set {table : String} {new : List (List Value)} {stamp : Value} {P : Prop}
    (h : Bears engine (rows.set table new) stamp)
    (hnew : table ∈ FENCED_TABLES → ∀ cells ∈ new,
      cells ∈ rows table ∨ (cellOf (engine.columns table) cells "fence_stamp" = stamp → P)) :
    Bears engine rows stamp ∨ P := by
  obtain ⟨t, ht, cells, hcells, hstamp⟩ := h
  by_cases heq : t = table
  · subst heq
    unfold Rows.set at hcells
    rw [if_pos rfl] at hcells
    obtain hold | himp := hnew ht cells hcells
    · exact Or.inl ⟨t, ht, cells, hold, hstamp⟩
    · exact Or.inr (himp hstamp)
  · unfold Rows.set at hcells
    rw [if_neg heq] at hcells
    exact Or.inl ⟨t, ht, cells, hcells, hstamp⟩

/-- A statement's stamp is its batch's seed and its own name. -/
theorem settingOf_stamp :
    (settingOf engine seed held rows).tokens .stamp = stampOf seed held.name := by
  unfold settingOf
  rw [engine.setting_tokens]
  rfl

/-- A statement that updates or inserts into a table of stamps leaves its own. -/
theorem fence_ne_none {table : Option String}
    (hfence : held.fence = table.filter (· ∈ FENCED_TABLES))
    (htable : table.getD "" ∈ FENCED_TABLES) : held.fence ≠ none := by
  cases table with
  | none => exact absurd htable (by decide)
  | some name =>
    have hmem : name ∈ FENCED_TABLES := htable
    rw [hfence, Option.filter_some, if_pos (decide_eq_true hmem)]
    exact Option.some_ne_none name

/-- Every stamp a statement leaves was there, or is its own. -/
theorem effect_signs (hadm : Admitted earlier held) {stamp : Value}
    (hbears : Bears engine
      (Trees.effect engine (settingOf engine seed held rows) rows held.tree).1 stamp) :
    Bears engine rows stamp ∨ (held.fence ≠ none ∧ stamp = stampOf seed held.name) := by
  have hstamps := hadm.stamps
  have hwhole := hadm.whole
  cases htree : held.tree with
  | update table updates where' =>
    rw [htree] at hbears hstamps
    refine hbears.of_set fun htable cells hcells => ?_
    have hfence : held.fence ≠ none := by
      refine fence_ne_none ?_ htable
      unfold Held.fence
      rw [htree]
      rfl
    obtain ⟨old, hold, rfl⟩ := List.mem_map.mp hcells
    split
    · refine Or.inr fun hown => ⟨hfence, ?_⟩
      rw [← hown, assign_stamp (hstamps hfence) (engine.stamped _ htable), settingOf_stamp]
    · exact Or.inl hold
  | delete froms where' =>
    rw [htree] at hbears
    exact hbears.of_set fun _ cells hcells => Or.inl (List.mem_filter.mp hcells).1
  | insert into columns values onConflict =>
    rw [htree] at hbears hstamps hwhole
    refine hbears.of_set fun htable => ?_
    have hfence : held.fence ≠ none := by
      have htarget : held.fence = (some into).filter (· ∈ FENCED_TABLES) := by
        unfold Held.fence
        rw [htree]
        rfl
      exact fence_ne_none htarget htable
    have hown : ∀ {cells : List Value}, cellOf (engine.columns into) cells "fence_stamp" =
        (settingOf engine seed held rows).tokens .stamp →
        cells ∈ rows into ∨ (cellOf (engine.columns into) cells "fence_stamp" = stamp →
          held.fence ≠ none ∧ stamp = stampOf seed held.name) := by
      intro cells hcells
      exact Or.inr fun hstamp => ⟨hfence, by rw [← hstamp, hcells, settingOf_stamp]⟩
    -- Each row there is then was there, was inserted with the stamp, or was given it on a conflict.
    refine insertAll_forall (fun cells hcells => ?_) (fun cells hcells => Or.inl hcells)
      fun conflict hconflict updates hupdates env row => hown ?_
    · obtain ⟨inserted, hinserted, rfl⟩ := List.mem_map.mp hcells
      have hinserts := hstamps.1 hfence
      have hcolumn : "fence_stamp" ∈ columns := List.count_pos_iff.mp (by rw [hinserts.1]; decide)
      refine hown ?_
      rw [tableRow_stamp htable hcolumn]
      refine inserted_stamp hinserts ?_ hinserted
      cases values with
      | row => trivial
      | query query =>
        cases query with
        | select => exact hwhole.1
        | _ => exact hwhole.elim
    · exact assign_stamp (hstamps.2.2 hfence conflict hconflict updates hupdates)
        (engine.stamped into htable)
  | select query =>
    rw [htree] at hbears
    exact Or.inl hbears

/-! ## A statement that writes no row -/

/-- An insertion of one row that counts nothing writes nothing. -/
theorem insertOne_unwritten {s : Setting} {table : String} {onConflict : Option OnConflictNode}
    {cells : List Value} {stored : List (List Value)}
    (h : (insertOne engine s table onConflict cells stored).2 = 0) :
    (insertOne engine s table onConflict cells stored).1 = stored := by
  unfold insertOne at h ⊢
  cases onConflict with
  | none => cases h
  | some conflict =>
    simp only at h ⊢
    split
    · rename_i hany
      rw [if_pos hany] at h
      cases hupdates : conflict.updates with
      | none => rfl
      | some updates =>
        rw [hupdates] at h
        have hnone := List.filter_eq_nil_iff.mp (List.length_eq_zero_iff.mp h)
        refine (List.map_congr_left fun row hrow => ?_).trans (List.map_id stored)
        exact if_neg (hnone row hrow)
    · rename_i hany
      rw [if_neg hany] at h
      cases h

/-- An insertion that counts nothing writes nothing. -/
theorem insertAll_unwritten {s : Setting} {table : String} {onConflict : Option OnConflictNode}
    {inserted stored : List (List Value)}
    (h : (insertAll engine s table onConflict inserted stored).2 = 0) :
    (insertAll engine s table onConflict inserted stored).1 = stored := by
  induction inserted generalizing stored with
  | nil => rfl
  | cons cells rest ih =>
    obtain ⟨hone, hrest⟩ := Nat.add_eq_zero_iff.mp h
    exact (ih hrest).trans (insertOne_unwritten hone)

/-- A statement that writes no row leaves the rows there were. -/
theorem effect_unwritten {s : Setting} {tree : RootNode}
    (h : (Trees.effect engine s rows tree).2 = 0) : (Trees.effect engine s rows tree).1 = rows := by
  cases tree with
  | update table updates where' =>
    have hnone := List.filter_eq_nil_iff.mp (List.length_eq_zero_iff.mp h)
    refine (congrArg (rows.set _) ?_).trans (set_same rows ((tableName table).getD ""))
    refine (List.map_congr_left fun cells hcells => ?_).trans (List.map_id _)
    exact if_neg fun hhit => hnone cells hcells (decide_eq_true hhit)
  | delete froms where' =>
    have hnone := List.filter_eq_nil_iff.mp (List.length_eq_zero_iff.mp h)
    refine (congrArg (rows.set _) ?_).trans
      (set_same rows ((froms.head?.bind tableName).getD ""))
    refine List.filter_eq_self.mpr fun cells hcells => decide_eq_true fun hhit => ?_
    exact hnone cells hcells (decide_eq_true hhit)
  | insert into columns values onConflict =>
    exact (congrArg (rows.set into) (insertAll_unwritten h)).trans (set_same rows into)
  | select query => rfl

/-! ## A batch -/

/-- A statement that was sent had its effect. -/
theorem effect_of_send {wrote : ℕ} (h : (held.sent engine seed).send rows = some (rows', wrote)) :
    Trees.effect engine (settingOf engine seed held rows) rows held.tree = (rows', wrote) := by
  rw [send_eq] at h
  exact Option.some.inj (Option.ite_none_right_eq_some.mp h).2

/-- What a batch admits is sound to skip. -/
theorem sent_sound (hadm : Admitted earlier held) :
    (held.sent engine seed).Sound fun name rows => ¬ Bears engine rows (stampOf seed name) where
  idle := fun _ hgate _ hnot => send_idle hadm hgate hnot
  keeps := by
    intro before after wrote hsend name hname hnot hbears
    -- A stamp it left is its own, and then it has that name.
    have hafter : Bears engine
        (Trees.effect engine (settingOf engine seed held before) before held.tree).1
        (stampOf seed name) := by
      rw [effect_of_send hsend]
      exact hbears
    obtain hbefore | ⟨hfence, hown⟩ := effect_signs hadm hafter
    · exact hnot hbefore
    · obtain ⟨table, htable⟩ := Option.ne_none_iff_exists'.mp hfence
      refine hname ?_
      rw [stampOf_inj hown]
      exact congrArg (Option.map fun _ => held.name) htable
  unwritten := by
    intro before after hsend
    have heffect := effect_of_send hsend
    have hsame := effect_unwritten (congrArg Prod.snd heffect)
    rw [heffect] at hsame
    exact hsame

/-- Every statement of an admitted batch was admitted after those before it. -/
theorem AdmittedAll.forall_admitted {batch : List Held} (h : AdmittedAll earlier batch) :
    ∀ held ∈ batch, ∃ before, Admitted before held := by
  induction batch generalizing earlier with
  | nil => exact fun _ hmem => absurd hmem List.not_mem_nil
  | cons held rest ih =>
    intro held' hmem
    obtain rfl | hmem := List.mem_cons.mp hmem
    · exact ⟨earlier, h.1⟩
    · exact ih h.2 held' hmem

/-- The names of a batch are its own. -/
theorem AdmittedAll.nodup {batch : List Held} (h : AdmittedAll earlier batch) :
    (batch.map Held.name).Nodup ∧ ∀ e ∈ earlier, ∀ held ∈ batch, e.name ≠ held.name := by
  induction batch generalizing earlier with
  | nil => exact ⟨List.nodup_nil, fun _ _ _ hmem => absurd hmem List.not_mem_nil⟩
  | cons held rest ih =>
    obtain ⟨hrest, hapart⟩ := ih h.2
    constructor
    · refine List.nodup_cons.mpr ⟨fun hmem => ?_, hrest⟩
      obtain ⟨held', hheld', hname⟩ := List.mem_map.mp hmem
      exact hapart held (List.mem_append_right _ (List.mem_singleton_self held)) held' hheld'
        hname.symm
    · intro e he held' hmem
      obtain rfl | hmem := List.mem_cons.mp hmem
      · exact h.1.name e he
      · exact hapart e (List.mem_append_left _ he) held' hmem

/-- What a batch holds is sound to skip. -/
theorem AdmittedAll.sound {batch : List Held} (h : AdmittedAll earlier batch) :
    ∀ sent ∈ batch.map (Held.sent engine seed),
      sent.Sound fun name rows => ¬ Bears engine rows (stampOf seed name) := by
  intro sent hsent
  obtain ⟨held, hheld, rfl⟩ := List.mem_map.mp hsent
  obtain ⟨before, hadmitted⟩ := h.forall_admitted held hheld
  exact sent_sound hadmitted

/-- The names of what a batch sends are among its statements' names, in their order. -/
theorem names_sublist (batch : List Held) :
    ((batch.map (Held.sent engine seed)).filterMap Command.name).Sublist (batch.map Held.name) := by
  induction batch with
  | nil => exact .slnil
  | cons held rest ih =>
    rw [List.map_cons, List.map_cons]
    cases hfence : held.fence with
    | none =>
      have hname : (held.sent engine seed).name = none :=
        congrArg (Option.map fun _ => held.name) hfence
      rw [List.filterMap_cons_none hname]
      exact ih.cons _
    | some table =>
      have hname : (held.sent engine seed).name = some held.name :=
        congrArg (Option.map fun _ => held.name) hfence
      rw [List.filterMap_cons_some hname]
      exact ih.cons_cons _

/-- Every statement is gated by one before it. -/
theorem AdmittedAll.ordered {batch : List Held} {names : List String}
    (h : AdmittedAll earlier batch)
    (hnames : ∀ e ∈ earlier, e.fence ≠ none → e.name ∈ names) :
    Ordered names (batch.map (Held.sent engine seed)) := by
  -- The induction is on what is still to send, and the names are those of what was sent and stamps.
  induction batch generalizing earlier names with
  | nil => trivial
  | cons held rest ih =>
    refine ⟨fun gate hgate => ?_, ih h.2 fun e he hfence => ?_⟩
    · obtain ⟨hkind, ⟨g, hg, rfl⟩, -⟩ := skips_of_skipUnlessWrote hgate
      obtain ⟨e, he, hname, hfence⟩ := h.1.sources hkind g hg
      rw [← hname]
      exact hnames e he (hfence ▸ Option.some_ne_none g.table)
    · obtain he | he := List.mem_append.mp he
      · exact List.mem_append_right _ (hnames e he hfence)
      · obtain rfl := List.mem_singleton.mp he
        obtain ⟨table, htable⟩ := Option.ne_none_iff_exists'.mp hfence
        have hname : (e.sent engine seed).name = some e.name :=
          congrArg (Option.map fun _ => e.name) htable
        rw [hname]
        exact List.mem_cons_self

/-- A statement with no gate is a compare-and-set, or reads. -/
theorem cas_or_reads (hadm : Admitted earlier held) (hgate : held.skipUnlessWrote = none) :
    held.kind = .cas ∨ (held.sent engine seed).Reads := by
  have hreads : ∀ {query : OperationNode}, held.tree = .select query →
      (held.sent engine seed).Reads := by
    intro query htree
    constructor
    · have hfence : held.fence = none := by
        unfold Held.fence
        rw [htree]
      exact congrArg (Option.map fun _ => held.name) hfence
    · intro before after wrote hsend
      have heffect := effect_of_send hsend
      rw [htree] at heffect
      exact (congrArg Prod.fst heffect).symm
  have hkind := hadm.kind
  cases hk : held.kind with
  | cas => exact Or.inl rfl
  | followOn =>
    -- A follow-on writes, so it is skipped by the first of its tied gates, and it has one.
    obtain ⟨g, hg, htied⟩ := hadm.gated (Or.inl hk)
    exfalso
    have hfound : held.tree.gatingFences.find? (·.tied) ≠ none := by
      rw [Ne, List.find?_eq_none]
      exact fun hno => hno g hg htied
    rw [hk] at hkind
    unfold Held.skipUnlessWrote at hgate
    rw [hk] at hgate
    cases htree : held.tree with
    | select => rw [htree] at hkind; exact hkind
    | _ =>
      rw [htree] at hgate hfound
      exact hfound (Option.map_eq_none_iff.mp hgate)
  | tail =>
    refine Or.inr ?_
    rw [hk] at hkind
    cases htree : held.tree with
    | select query => exact hreads htree
    | _ => rw [htree] at hkind; exact hkind.elim
  | openTail =>
    refine Or.inr ?_
    rw [hk] at hkind
    cases htree : held.tree with
    | select query => exact hreads htree
    | _ => rw [htree] at hkind; exact hkind.elim

section Batch

variable {batch : List Held} {counts : List ℕ}

/-- A batch may be sent by an executor that skips. -/
theorem sendUnlessSkipped_of_admitted (hadm : AdmittedAll [] batch)
    (hfresh : ∀ name, ¬ Bears engine rows (stampOf seed name)) :
    sendUnlessSkipped [] (batch.map (Held.sent engine seed)) rows =
      sendAll (batch.map (Held.sent engine seed)) rows :=
  sendUnlessSkipped_eq hadm.sound (hadm.nodup.1.sublist (names_sublist batch)) hfresh

/-! The batch that claims the run `r`, and its rows before it. -/

/-- The claim's compare-and-set is admitted under a name of its own. -/
theorem claimHeld_admitted {earlier : List Held} {claim run : String}
    (hname : ∀ e ∈ earlier, e.name ≠ claim) : Admitted earlier (claimHeld claim run) :=
  ⟨hname, Option.some_ne_none _, fun _ => ⟨_, rfl, rfl⟩, trivial,
    fun hkind => by cases hkind <;> contradiction, fun hkind => absurd rfl hkind⟩

/-- The task's mirror is admitted after the claim it follows. -/
theorem mirrorHeld_admitted {earlier : List Held} {mirror claim : String} (run : String)
    (hname : ∀ e ∈ earlier, e.name ≠ mirror) (hclaim : claimHeld claim run ∈ earlier) :
    Admitted earlier (mirrorHeld mirror claim) := by
  have hgates : (mirrorHeld mirror claim).tree.gatingFences =
      [(⟨claim, "runs", "runs", true⟩ : GatingFence)] := rfl
  refine ⟨hname, trivial, fun _ => ⟨_, rfl, rfl⟩, trivial, fun _ => ?_, fun _ g hg => ?_⟩
  · rw [hgates]
    exact ⟨_, List.mem_singleton_self _, rfl⟩
  · rw [hgates] at hg
    obtain rfl := List.mem_singleton.mp hg
    exact ⟨_, hclaim, rfl, rfl⟩

/-- The batch of two claims and their mirrors is admitted. -/
theorem claimBatch_admitted : AdmittedAll [] claimBatch :=
  ⟨claimHeld_admitted (by decide), mirrorHeld_admitted "r" (by decide) (by simp),
    claimHeld_admitted (by decide), mirrorHeld_admitted "q" (by decide) (by simp), trivial⟩

/-- No row bears a stamp before the batch. -/
theorem pendingRows_fresh {run : String} (name : String) :
    ¬ Bears plainEngine (pendingRows run) (stampOf seed name) := by
  rintro ⟨table, -, cells, hcells, hstamp⟩
  have hnull : cellOf plainColumns cells "fence_stamp" = .null := by
    unfold pendingRows at hcells
    split at hcells
    · obtain rfl := List.mem_singleton.mp hcells
      rfl
    · split at hcells
      · obtain rfl := List.mem_singleton.mp hcells
        rfl
      · exact absurd hcells List.not_mem_nil
  exact Value.noConfusion (hnull.symm.trans hstamp)

/-- Whatever trees a batch admits, and whatever their fragments mean: skipping each statement whose
gate wrote no row leaves the rows, and counts the rows, that sending every statement does, and a
statement whose gate wrote no row writes and returns none. -/
theorem skipping_trees (hadm : AdmittedAll [] batch)
    (hfresh : ∀ name, ¬ Bears engine rows (stampOf seed name)) :
    sendUnlessSkipped [] (batch.map (Held.sent engine seed)) rows =
        sendAll (batch.map (Held.sent engine seed)) rows ∧
      ∀ answer ∈ sendAll (batch.map (Held.sent engine seed)) rows,
        Answered [] (batch.map (Held.sent engine seed)) answer.2 := by
  have hagrees := sendUnlessSkipped_of_admitted hadm hfresh
  refine ⟨hagrees, fun answer hanswer => ?_⟩
  obtain ⟨rows', counts⟩ := answer
  exact answered_of_sendUnlessSkipped (hagrees.trans hanswer)

/-- The first claim takes its run, and its task follows it. The second finds none, and the statement
it gates is skipped. -/
theorem skipping_trees_claimBatch :
    (sendAll (claimBatch.map (Held.sent plainEngine "s")) (pendingRows "r")).map Prod.snd =
        some [1, 1, 0, 0] ∧
      claimBatch.map Held.skipUnlessWrote = [none, some "claim", none, some "second"] ∧
      sendUnlessSkipped [] (claimBatch.map (Held.sent plainEngine "s")) (pendingRows "r") =
        sendAll (claimBatch.map (Held.sent plainEngine "s")) (pendingRows "r") :=
  ⟨by decide +kernel, by decide, (skipping_trees claimBatch_admitted pendingRows_fresh).1⟩

/-- Whatever trees a batch admits: when none of its compare-and-sets writes a row, the batch leaves
the rows there were, and no gated statement writes or returns one. -/
theorem losing_trees (hadm : AdmittedAll [] batch)
    (hfresh : ∀ name, ¬ Bears engine rows (stampOf seed name))
    (hrun : sendAll (batch.map (Held.sent engine seed)) rows = some (rows', counts))
    (hlost : List.Forall₂ (fun held wrote => held.kind = .cas → wrote = 0) batch counts) :
    rows' = rows ∧
      List.Forall₂ (fun held wrote => held.skipUnlessWrote ≠ none → wrote = 0) batch counts := by
  have hordered : Ordered [] (batch.map (Held.sent engine seed)) :=
    hadm.ordered fun _ hmem => absurd hmem List.not_mem_nil
  have hskipped := (sendUnlessSkipped_of_admitted hadm hfresh).trans hrun
  -- What has no gate lost, or only reads.
  have hidle : List.Forall₂ (fun sent wrote => sent.gate = none → wrote = 0 ∨ sent.Reads)
      (batch.map (Held.sent engine seed)) counts := by
    refine List.forall₂_map_left_iff.mpr ?_
    have hboth := (List.forall₂_and_left batch counts).mpr ⟨hadm.forall_admitted, hlost⟩
    refine hboth.imp fun held wrote => ?_
    rintro ⟨⟨before, hadmitted⟩, hcas⟩ hgate
    obtain hkind | hreads := cas_or_reads hadmitted hgate
    · exact Or.inl (hcas hkind)
    · exact Or.inr hreads
  obtain ⟨hsame, hgated⟩ := sendUnlessSkipped_lost hadm.sound hordered hskipped hidle
  exact ⟨hsame, (List.forall₂_map_left_iff.mp hgated).imp fun _ _ hlost => hlost.gated⟩

/-- The run is another's, and the claims leave it and its task as they were. -/
theorem losing_trees_claimBatch :
    (sendAll (claimBatch.map (Held.sent plainEngine "s")) (pendingRows "o")).map Prod.fst =
      some (pendingRows "o") := by
  have hcounts : (sendAll (claimBatch.map (Held.sent plainEngine "s")) (pendingRows "o")).map
      Prod.snd = some [0, 0, 0, 0] := by decide +kernel
  obtain ⟨⟨rows', counts⟩, hrun, rfl⟩ := Option.map_eq_some_iff.mp hcounts
  rw [hrun]
  exact congrArg some (losing_trees claimBatch_admitted pendingRows_fresh hrun
    (.cons (fun _ => rfl) (.cons (fun _ => rfl) (.cons (fun _ => rfl) (.cons (fun _ => rfl)
      .nil))))).1

end Batch

end Durablerun.Trees
