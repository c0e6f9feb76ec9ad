import Durablerun.Mysql.Tree

/-!
# Assigning left to right preserves meaning

A statement of the other dialects assigns all its columns at once. The order the compiler sends has
the same effect left to right, and it refuses an `UPDATE` only where no order has.

Reference: `packages/store-mysql/src/tree.ts`.
-/

namespace Durablerun.Mysql

open Assign

variable {E V : Type}

/-! ## What the statements mean -/

abbrev Row (V : Type) := String → V

/-- What an expression's value is, over the stored row and all else it reads (binds, other rows, the
incoming row), and which values are true, false or unknown. -/
structure Meaning (E V : Type) where
  value : OperationNode → E → Row V → V
  truth : V → Option Bool

/-- An assignment of a named column. -/
structure Assignment where
  column : String
  value : OperationNode

def Assignment.node (a : Assignment) : ColumnUpdateNode := ⟨some a.column, a.value⟩

/-- Of the columns that are assigned, the value depends on those `storedColumnsRead` reports alone.
-/
def Meaning.Reported (m : Meaning E V) (target : String) (assigned : List String)
    (node : OperationNode) : Prop :=
  ∀ env row row', (∀ c, c ∈ storedColumnsRead target assigned node ∨ c ∉ assigned → row c = row' c) →
    m.value node env row = m.value node env row'

/-- A `SET` list as the standard has it: every value is of the old row. -/
def Meaning.set (m : Meaning E V) (env : E) (sets : List Assignment) (row : Row V) : Row V :=
  atOnce Assignment.column (fun a => m.value a.value env) sets row

/-- A `SET` list as MySQL has it: left to right. -/
def Meaning.setInOrder (m : Meaning E V) (env : E) (updates : List ColumnUpdateNode)
    (row : Row V) : Row V :=
  updates.foldl (fun row update => match update.column with
    | some column => Function.update row column (m.value update.value env row)
    | none => row) row

/-- `DO UPDATE SET … WHERE condition`, or with no condition. -/
def Meaning.doUpdate (m : Meaning E V) (env : E) (sets : List Assignment)
    (condition : Option OperationNode) (row : Row V) : Row V :=
  if ∀ c ∈ condition, m.truth (m.value c env row) = some true then m.set env sets row else row

def Meaning.armValue (m : Meaning E V) (env : E) (row : Row V) : ArmValue → V
  | .value value => m.value value env row
  | .stored column => row column
  | .choice condition value column =>
    if m.truth (m.value condition env row) = some true then m.value value env row else row column

/-- `ON DUPLICATE KEY UPDATE` as MySQL has it: left to right. -/
def Meaning.onDuplicateKey (m : Meaning E V) (env : E) (arm : List ArmAssignment)
    (row : Row V) : Row V :=
  inOrder ArmAssignment.column (fun a row => m.armValue env row a.value) arm row

/-- One assignment reads the column another writes. -/
def readsColumn (target : String) (sets : List Assignment) (reader writer : Assignment) : Prop :=
  writer.column ∈ storedColumnsRead target (sets.map Assignment.column) reader.value

/-! ## The loop -/

section Loop

variable {waits : ℕ → ℕ → Bool} {turns : ℕ} {remaining ordered stuck : List ℕ}

/-- An order the loop ends with has every assignment, after all that wait to read what it writes. -/
theorem takeReady_ok (hturns : turns = remaining.length) (hnodup : remaining.Nodup)
    (h : takeReady waits turns remaining = .ok ordered) :
    ordered.Perm remaining ∧ ordered.Pairwise fun a b => waits b a = false := by
  induction turns generalizing remaining ordered with
  | zero =>
    obtain rfl := Except.ok.inj h
    obtain rfl := List.length_eq_zero_iff.mp hturns.symm
    exact ⟨.nil, .nil⟩
  | succ turns ih =>
    unfold takeReady at h
    split at h
    · cases h
    · rename_i ready hready
      have hmem : ready ∈ remaining := List.mem_of_find?_eq_some hready
      have hall : ∀ other ∈ remaining, other = ready ∨ waits other ready = false := by
        simpa using List.find?_some hready
      cases hrest : takeReady waits turns (remaining.erase ready) with
      | error _ => rw [hrest] at h; cases h
      | ok rest =>
        rw [hrest] at h
        obtain rfl := Except.ok.inj h
        have hlength : turns = (remaining.erase ready).length := by
          rw [List.length_erase_of_mem hmem, ← hturns, Nat.add_sub_cancel]
        obtain ⟨hperm, hpairwise⟩ := ih hlength (hnodup.erase ready) hrest
        refine ⟨(hperm.cons ready).trans (List.perm_cons_erase hmem).symm,
          List.pairwise_cons.mpr ⟨fun other hother => ?_, hpairwise⟩⟩
        obtain ⟨hne, hin⟩ := hnodup.mem_erase_iff.mp (hperm.mem_iff.mp hother)
        exact (hall other hin).resolve_left hne

/-- What it gives up at are assignments each of which another of them waits to read. -/
theorem takeReady_error (hturns : turns = remaining.length)
    (h : takeReady waits turns remaining = .error stuck) :
    stuck ≠ [] ∧ stuck ⊆ remaining ∧ ∀ a ∈ stuck, ∃ b ∈ stuck, b ≠ a ∧ waits b a = true := by
  induction turns generalizing remaining with
  | zero => cases h
  | succ turns ih =>
    unfold takeReady at h
    split at h
    · rename_i hnone
      obtain rfl := Except.error.inj h
      refine ⟨fun hnil => by simp [hnil] at hturns, fun _ ha => ha, fun a ha => ?_⟩
      have hblocked := List.find?_eq_none.mp hnone a ha
      simpa using hblocked
    · rename_i ready hready
      have hmem : ready ∈ remaining := List.mem_of_find?_eq_some hready
      have hlength : turns = (remaining.erase ready).length := by
        rw [List.length_erase_of_mem hmem, ← hturns, Nat.add_sub_cancel]
      cases hrest : takeReady waits turns (remaining.erase ready) with
      | ok _ => rw [hrest] at h; cases h
      | error _ =>
        rw [hrest] at h
        obtain rfl := Except.error.inj h
        obtain ⟨hne, hsub, hstuck⟩ := ih hlength hrest
        exact ⟨hne, fun a ha => List.mem_of_mem_erase (hsub ha), hstuck⟩

end Loop

/-! ## SET lists -/

section SetList

variable {target : String} {sets : List Assignment} {a b : Assignment} {i j : ℕ}

/-- What `readersBeforeWriters` has the assignment at one place wait for at another. -/
def waitsToRead (target : String) (sets : List Assignment) (other candidate : ℕ) : Bool :=
  ((((sets.map Assignment.node).zip (sets.map Assignment.column)).map fun (update, column) =>
    (storedColumnsRead target (sets.map Assignment.column) update.value).filter
      (· != column)).getD other []).contains ((sets.map Assignment.column).getD candidate "")

/-- Each assignment's node names its column. -/
theorem mapM_assignedColumn (sets : List Assignment) :
    (sets.map Assignment.node).mapM assignedColumn = .ok (sets.map Assignment.column) := by
  induction sets with
  | nil => rfl
  | cons a sets ih =>
    rw [List.map_cons, List.mapM_cons, ih]
    rfl

/-- The elements at a list's places are the list. -/
theorem filterMap_places (sets : List Assignment) :
    (List.range sets.length).filterMap (sets[·]?) = sets := by
  induction sets with
  | nil => rfl
  | cons a sets ih =>
    rw [List.length_cons, List.range_succ_eq_map]
    show a :: (List.map Nat.succ (List.range sets.length)).filterMap ((a :: sets)[·]?) = _
    rw [List.filterMap_map]
    exact congrArg (a :: ·) ih

/-- An assignment waits for one whose column it reads, but not for its own. -/
theorem waitsToRead_iff (ha : sets[i]? = some a) (hb : sets[j]? = some b) :
    waitsToRead target sets i j = true ↔ readsColumn target sets a b ∧ b.column ≠ a.column := by
  have hreads : (((sets.map Assignment.node).zip (sets.map Assignment.column)).map
      fun (update, column) => (storedColumnsRead target (sets.map Assignment.column)
        update.value).filter (· != column)).getD i [] =
      (storedColumnsRead target (sets.map Assignment.column) a.value).filter (· != a.column) := by
    simp [List.getD_eq_getElem?_getD, List.getElem?_map, List.zip_map', ha, Assignment.node]
  have hcolumn : (sets.map Assignment.column).getD j "" = b.column := by
    simp [List.getD_eq_getElem?_getD, hb]
  unfold waitsToRead readsColumn
  rw [hreads, hcolumn, List.contains_iff_mem, List.mem_filter]
  simp

/-- The assignments come in the order their places are taken in. -/
theorem readersBeforeWriters_eq (sets : List Assignment) (target : String) :
    readersBeforeWriters (sets.map Assignment.node) target =
      match takeReady (waitsToRead target sets) sets.length (List.range sets.length) with
      | .ok ordered => .ok (ordered.filterMap ((sets.map Assignment.node)[·]?))
      | .error remaining =>
        .error (readOneAnother (remaining.map ((sets.map Assignment.column).getD · ""))) := by
  unfold readersBeforeWriters
  rw [mapM_assignedColumn, List.length_map]
  rfl

/-- The order is one of the assignments, readers before writers, or they read one another in a
cycle. -/
theorem readersBeforeWriters_cases (target : String)
    (hdistinct : (sets.map Assignment.column).Nodup) :
    (∃ order, order.Perm sets ∧ Ordered (readsColumn target sets) order ∧
      readersBeforeWriters (sets.map Assignment.node) target = .ok (order.map Assignment.node)) ∨
    (Cyclic (readsColumn target sets) sets ∧
      ∃ message, readersBeforeWriters (sets.map Assignment.node) target = .error message) := by
  have hrun := readersBeforeWriters_eq sets target
  have hall : ∀ i ∈ List.range sets.length, ∃ a, sets[i]? = some a := fun i hi =>
    ⟨_, List.getElem?_eq_getElem (List.mem_range.mp hi)⟩
  cases hloop : takeReady (waitsToRead target sets) sets.length (List.range sets.length) with
  | ok ordered =>
    obtain ⟨hperm, hpairwise⟩ := takeReady_ok List.length_range.symm List.nodup_range hloop
    refine Or.inl ⟨ordered.filterMap (sets[·]?), ?_, ?_, ?_⟩
    · exact (hperm.filterMap _).trans (.of_eq (filterMap_places sets))
    · have hnodup : ordered.Nodup := hperm.nodup_iff.mpr List.nodup_range
      refine List.pairwise_filterMap.mpr ((hpairwise.and hnodup).imp_of_mem ?_)
      rintro i j hi - ⟨hwaits, hij⟩ a ha b hb hread
      refine absurd ((waitsToRead_iff hb ha).mpr ⟨hread, fun hcolumn => hij ?_⟩) (by simp [hwaits])
      have hlt : i < (sets.map Assignment.column).length := by
        rw [List.length_map]
        exact List.mem_range.mp (hperm.mem_iff.mp hi)
      exact (List.getElem?_inj hlt hdistinct).mp (by simp [ha, hb, hcolumn])
    · rw [hrun, hloop]
      simp [List.map_filterMap]
  | error stuck =>
    obtain ⟨hne, hsub, hstuck⟩ := takeReady_error List.length_range.symm hloop
    refine Or.inr ⟨?_, _, by rw [hrun, hloop]⟩
    have hsubset : stuck.filterMap (sets[·]?) ⊆ sets := by
      intro a ha
      obtain ⟨i, _, hi⟩ := List.mem_filterMap.mp ha
      exact List.mem_of_getElem? hi
    refine cyclic_of_stuck hsubset ?_ ?_
    · obtain ⟨i, hi⟩ := List.exists_mem_of_ne_nil stuck hne
      obtain ⟨a, ha⟩ := hall i (hsub hi)
      exact List.ne_nil_of_mem (List.mem_filterMap.mpr ⟨i, hi, ha⟩)
    · intro a ha
      obtain ⟨i, hi, ha⟩ := List.mem_filterMap.mp ha
      obtain ⟨j, hj, _, hwaits⟩ := hstuck i hi
      obtain ⟨b, hb⟩ := hall j (hsub hj)
      obtain ⟨hread, hne⟩ := (waitsToRead_iff hb ha).mp hwaits
      exact ⟨b, List.mem_filterMap.mpr ⟨j, hj, hb⟩, fun heq => hne (congrArg _ heq.symm), hread⟩

/-- An expression ignores a column that it is not reported to read. -/
theorem Meaning.Reported.ignores {m : Meaning E V} {assigned : List String} {node : OperationNode}
    {c : String} (h : m.Reported target assigned node) (hc : c ∈ assigned)
    (hread : c ∉ storedColumnsRead target assigned node) (env : E) : Ignores (m.value node env) c := by
  intro row v
  refine h env _ _ fun c' hc' => Function.update_of_ne ?_ v row
  rintro rfl
  exact hc'.elim hread (absurd hc)

/-- Readers before writers, MySQL's assignments are the standard's. -/
theorem Meaning.setInOrder_eq_set {m : Meaning E V} {order : List Assignment} (hperm : order.Perm sets)
    (hordered : Ordered (readsColumn target sets) order)
    (hdistinct : (sets.map Assignment.column).Nodup)
    (hreported : ∀ a ∈ sets, m.Reported target (sets.map Assignment.column) a.value) (env : E)
    (row : Row V) : m.setInOrder env (order.map Assignment.node) row = m.set env sets row := by
  have hinOrder : m.setInOrder env (order.map Assignment.node) row =
      inOrder Assignment.column (fun a => m.value a.value env) order row :=
    List.foldl_map
  rw [hinOrder, inOrder_eq_atOnce ((hperm.map _).nodup_iff.mpr hdistinct) ?_]
  · exact (atOnce_perm hperm.symm hdistinct).symm
  · refine hordered.imp_of_mem fun {a b} ha hb hread => ?_
    exact (hreported b (hperm.mem_iff.mp hb)).ignores
      (List.mem_map_of_mem (hperm.mem_iff.mp ha)) hread env

end SetList

/-! ## Conflict arms -/

section Arm

variable {target : String} {sets order : List Assignment} {conditionReads written : List String}
  {condition : Option OperationNode} {arm : List ArmAssignment}

/-- What an arm assigns for an assignment of its clause. -/
def Assignment.inArm (condition : Option OperationNode) (a : Assignment) : ArmAssignment :=
  ⟨a.column, match condition with
    | none => .value a.value
    | some condition => .choice condition a.value a.column⟩

/-- Each assignment has its form in a conflict arm. -/
theorem mapM_armAssignment (condition : Option OperationNode) (order : List Assignment) :
    (order.map Assignment.node).mapM (armAssignment condition) =
      .ok (order.map (Assignment.inArm condition)) := by
  induction order with
  | nil => rfl
  | cons a order ih =>
    rw [List.map_cons, List.mapM_cons, ih]
    cases condition <;> rfl

/-- Putting the columns the condition reads last only reorders the assignments. -/
theorem conditionLast_map (conditionReads : List String) (sets : List Assignment) :
    ∃ order : List Assignment, order.Perm sets ∧
      conditionLast conditionReads (sets.map Assignment.node) = order.map Assignment.node := by
  refine ⟨_, List.perm_insertionSort (fun a b : Assignment =>
    readByCondition conditionReads a.node ≤ readByCondition conditionReads b.node) sets, ?_⟩
  exact (List.map_insertionSort _ _ Assignment.node sets fun _ _ _ _ => Iff.rfl).symm

/-- The check passes an order in which nothing written is read again, by a value or by the
condition. -/
theorem requireFresh_ok {assigned : List String}
    (h : requireFresh target assigned conditionReads written (order.map Assignment.node) = .ok ()) :
    (∀ c ∈ written, ∀ a ∈ order, c ∉ conditionReads ++ storedColumnsRead target assigned a.value) ∧
      order.Pairwise fun a b =>
        a.column ∉ conditionReads ++ storedColumnsRead target assigned b.value := by
  induction order generalizing written with
  | nil => exact ⟨fun _ _ _ ha => absurd ha List.not_mem_nil, .nil⟩
  | cons a order ih =>
    rw [List.map_cons] at h
    unfold requireFresh at h
    dsimp only at h
    split at h
    · cases h
    · rename_i hfresh
      have hrest : requireFresh target assigned conditionReads (written ++ [a.column])
          (order.map Assignment.node) = .ok () := h
      obtain ⟨hwritten, hpairwise⟩ := ih hrest
      have hhead : ∀ c ∈ written,
          c ∉ conditionReads ++ storedColumnsRead target assigned a.value := by
        intro c hc hread
        have hnot := List.find?_eq_none.mp hfresh c hc
        exact hnot (List.contains_iff_mem.mpr hread)
      refine ⟨fun c hc b hb => ?_, List.pairwise_cons.mpr ⟨fun b hb => ?_, hpairwise⟩⟩
      · obtain rfl | hb := List.mem_cons.mp hb
        · exact hhead c hc
        · exact hwritten c (List.mem_append_left _ hc) b hb
      · exact hwritten a.column (List.mem_append_right _ List.mem_cons_self) b hb

/-- An arm that is accepted assigns the clause's columns in an order that reads nothing written. -/
theorem visitOnConflict_ok {node : OnConflictNode}
    (hupdates : node.updates = some (sets.map Assignment.node))
    (h : visitOnConflict (some target) node = .ok arm) :
    ∃ order : List Assignment, order.Perm sets ∧ arm = order.map (Assignment.inArm node.updateWhere) ∧
      order.Pairwise fun a b => (∀ condition ∈ node.updateWhere,
          a.column ∉ storedColumnsRead target (sets.map Assignment.column) condition) ∧
        ¬ readsColumn target sets b a := by
  unfold visitOnConflict at h
  split at h
  · cases h
  · rename_i htarget _ _ _
    obtain rfl := Option.some.inj htarget
    rw [hupdates] at h
    dsimp only at h
    rw [mapM_assignedColumn] at h
    set conditionReads := (node.updateWhere.map
      (storedColumnsRead target (sets.map Assignment.column))).getD [] with hreads
    obtain ⟨order, hperm, hsorted⟩ := conditionLast_map conditionReads sets
    change (do
      requireFresh target (sets.map Assignment.column) conditionReads []
        (conditionLast conditionReads (sets.map Assignment.node))
      (conditionLast conditionReads (sets.map Assignment.node)).mapM
        (armAssignment node.updateWhere)) = Except.ok arm at h
    rw [hsorted, mapM_armAssignment] at h
    cases hfresh : requireFresh target (sets.map Assignment.column) conditionReads []
      (order.map Assignment.node) with
    | error _ => rw [hfresh] at h; cases h
    | ok _ =>
      rw [hfresh] at h
      refine ⟨order, hperm, (Except.ok.inj h).symm, (requireFresh_ok hfresh).2.imp ?_⟩
      intro a b hread
      refine ⟨fun condition hcondition hin => hread (List.mem_append_left _ ?_),
        fun hin => hread (List.mem_append_right _ hin)⟩
      rw [hreads, Option.mem_def.mp hcondition]
      exact hin
  · cases h

/-- Under a true condition an arm's value is the assignment's, and otherwise the stored column. -/
theorem Meaning.armValue_inArm (m : Meaning E V) (env : E) (row : Row V)
    (condition : Option OperationNode) (a : Assignment) :
    m.armValue env row (a.inArm condition).value =
      if ∀ c ∈ condition, m.truth (m.value c env row) = some true then m.value a.value env row
      else row a.column := by
  cases condition with
  | none => exact (if_pos fun c hc => absurd hc (Option.not_mem_none c)).symm
  | some condition =>
    show (if m.truth (m.value condition env row) = some true then _ else _) = _
    simp only [Option.mem_some_iff, forall_eq']

/-- An arm that is accepted has the effect of the clause. -/
theorem Meaning.onDuplicateKey_eq_doUpdate {m : Meaning E V} {node : OnConflictNode}
    (hdistinct : (sets.map Assignment.column).Nodup)
    (hupdates : node.updates = some (sets.map Assignment.node))
    (h : visitOnConflict (some target) node = .ok arm)
    (hreported : ∀ a ∈ sets, m.Reported target (sets.map Assignment.column) a.value)
    (hcondition : ∀ condition ∈ node.updateWhere,
      m.Reported target (sets.map Assignment.column) condition) (env : E) (row : Row V) :
    m.onDuplicateKey env arm row = m.doUpdate env sets node.updateWhere row := by
  obtain ⟨order, hperm, rfl, hpairwise⟩ := visitOnConflict_ok hupdates h
  have hinOrder : m.onDuplicateKey env (order.map (Assignment.inArm node.updateWhere)) row =
      inOrder Assignment.column
        (fun a row => m.armValue env row (a.inArm node.updateWhere).value) order row :=
    List.foldl_map
  have hnodup : (order.map Assignment.column).Nodup := (hperm.map _).nodup_iff.mpr hdistinct
  simp only [m.armValue_inArm] at hinOrder
  rw [hinOrder, inOrder_eq_atOnce hnodup ?_, atOnce_perm hperm hnodup]
  · unfold Meaning.doUpdate
    split
    · rename_i hholds
      unfold Meaning.set atOnce
      simp only [if_pos hholds]
    · rename_i hfails
      funext c
      unfold atOnce
      simp only [if_neg hfails]
      split
      · rename_i a hfound
        have hcolumn : a.column = c := by simpa using List.find?_some hfound
        rw [hcolumn]
      · rfl
  · refine (hpairwise.and (List.pairwise_map.mp hnodup)).imp_of_mem ?_
    rintro a b ha hb ⟨⟨hunread, hread⟩, hne⟩ row v
    have hassigned : a.column ∈ sets.map Assignment.column :=
      List.mem_map_of_mem (hperm.mem_iff.mp ha)
    have hvalue := (hreported b (hperm.mem_iff.mp hb)).ignores hassigned hread env row v
    have htruth : ∀ c ∈ node.updateWhere,
        m.value c env (Function.update row a.column v) = m.value c env row := fun c hc =>
      (hcondition c hc).ignores hassigned (hunread c hc) env row v
    dsimp only
    rw [hvalue, Function.update_of_ne (Ne.symm hne)]
    refine if_congr (forall₂_congr fun c hc => ?_) rfl rfl
    rw [htruth c hc]

/-- An arm with no assignments writes what is stored. -/
theorem Meaning.onDuplicateKey_nothing {m : Meaning E V} {node : OnConflictNode}
    (hupdates : node.updates = none) (h : visitOnConflict (some target) node = .ok arm) (env : E)
    (row : Row V) : m.onDuplicateKey env arm row = row := by
  unfold visitOnConflict at h
  split at h
  · cases h
  · rw [hupdates] at h
    dsimp only at h
    split at h
    · cases h
    · obtain rfl := Except.ok.inj h
      exact Function.update_eq_self _ row
    · rename_i hsome _
      cases hsome
  · cases h

end Arm

/-! ## The two statements -/

/-- Assignments to distinct columns, whose values depend on the columns `storedColumnsRead` reports.
The order `readersBeforeWriters` answers assigns left to right what the standard assigns at once; it
is refused exactly where no order of the assignments has every reader of a column before its writer,
which is where they read one another in a cycle. An arm `visitOnConflict` accepts has the effect of
its `DO UPDATE`, or of `DO NOTHING`. -/
theorem assigns_as_written (target : String) (sets : List Assignment)
    (hdistinct : (sets.map Assignment.column).Nodup) :
    (∀ ordered, readersBeforeWriters (sets.map Assignment.node) target = .ok ordered →
      ∀ {E V : Type} (m : Meaning E V),
        (∀ a ∈ sets, m.Reported target (sets.map Assignment.column) a.value) →
        ∀ env row, m.setInOrder env ordered row = m.set env sets row) ∧
    ((∃ message, readersBeforeWriters (sets.map Assignment.node) target = .error message) ↔
      ¬ ∃ order : List Assignment, order.Perm sets ∧ Ordered (readsColumn target sets) order) ∧
    ((∃ message, readersBeforeWriters (sets.map Assignment.node) target = .error message) ↔
      Cyclic (readsColumn target sets) sets) ∧
    ∀ node arm, visitOnConflict (some target) node = .ok arm →
      ∀ {E V : Type} (m : Meaning E V) (env : E) (row : Row V),
        (node.updates = some (sets.map Assignment.node) →
          (∀ a ∈ sets, m.Reported target (sets.map Assignment.column) a.value) →
          (∀ condition ∈ node.updateWhere,
            m.Reported target (sets.map Assignment.column) condition) →
          m.onDuplicateKey env arm row = m.doUpdate env sets node.updateWhere row) ∧
        (node.updates = none → m.onDuplicateKey env arm row = row) := by
  refine ⟨fun ordered hordered E V m hreported env row => ?_, ?_, ?_,
    fun node arm harm E V m env row => ⟨fun hupdates hreported hcondition => ?_, fun hupdates => ?_⟩⟩
  -- The sort answers an order with every reader before its writer, or stops at a cycle.
  · obtain ⟨order, hperm, horder, hok⟩ | ⟨_, _, herror⟩ :=
      readersBeforeWriters_cases target hdistinct
    · obtain rfl := Except.ok.inj (hok.symm.trans hordered)
      exact m.setInOrder_eq_set hperm horder hdistinct hreported env row
    · cases herror.symm.trans hordered
  · obtain ⟨order, hperm, horder, hok⟩ | ⟨hcyclic, herror⟩ :=
      readersBeforeWriters_cases target hdistinct
    · refine iff_of_false ?_ fun hnone => hnone ⟨order, hperm, horder⟩
      rintro ⟨_, herror⟩
      cases herror.symm.trans hok
    · exact iff_of_true herror fun ⟨order, hperm, horder⟩ => hcyclic.not_ordered hperm horder
  · obtain ⟨order, hperm, horder, hok⟩ | ⟨hcyclic, herror⟩ :=
      readersBeforeWriters_cases target hdistinct
    · refine iff_of_false ?_ fun hcyclic => hcyclic.not_ordered hperm horder
      rintro ⟨_, herror⟩
      cases herror.symm.trans hok
    · exact iff_of_true herror hcyclic
  · exact m.onDuplicateKey_eq_doUpdate hdistinct hupdates harm hreported hcondition env row
  · exact m.onDuplicateKey_nothing hupdates harm env row

/-! `SET n = n + 1, due = 2 * n` where `n` is positive. -/

def readN : OperationNode := .reference none (some "n")

def countAndDue : List Assignment :=
  [⟨"n", .other "Increment" [readN]⟩, ⟨"due", .other "Double" [readN]⟩]

def upsertCounts : OnConflictNode :=
  ⟨some ["id"], none, none, some (countAndDue.map Assignment.node), some readN⟩

def counts : Meaning Unit ℤ where
  value
    | .other "Increment" [.reference _ (some c)], _, row => row c + 1
    | .other "Double" [.reference _ (some c)], _, row => 2 * row c
    | .reference _ (some c), _, row => row c
    | _, _, _ => 0
  truth v := some (decide (0 < v))

/-- A conflict arm that counts up and sets an instant, written out both ways. -/
theorem assigns_as_written_countAndDue :
    ∃ ordered arm, readersBeforeWriters (countAndDue.map Assignment.node) "runs" = .ok ordered ∧
      visitOnConflict (some "runs") upsertCounts = .ok arm ∧
      ∀ row, counts.setInOrder () ordered row = counts.set () countAndDue row ∧
        counts.onDuplicateKey () arm row = counts.doUpdate () countAndDue (some readN) row := by
  have hread : ∀ node ∈ [readN, .other "Increment" [readN], .other "Double" [readN]],
      counts.Reported "runs" (countAndDue.map Assignment.column) node := by
    intro node hnode env row row' h
    have hn : row "n" = row' "n" := h "n" (Or.inl ?_)
    · simp only [List.mem_cons, List.not_mem_nil, or_false] at hnode
      obtain rfl | rfl | rfl := hnode
      · exact hn
      · exact congrArg (· + 1) hn
      · exact congrArg (2 * ·) hn
    · simp only [List.mem_cons, List.not_mem_nil, or_false] at hnode
      obtain rfl | rfl | rfl := hnode <;> decide
  have hsets : ∀ a ∈ countAndDue,
      counts.Reported "runs" (countAndDue.map Assignment.column) a.value := by
    intro a ha
    refine hread a.value ?_
    simp only [countAndDue, List.mem_cons, List.not_mem_nil, or_false] at ha
    obtain rfl | rfl := ha <;> simp
  obtain ⟨hset, _, _, harm⟩ := assigns_as_written "runs" countAndDue (by decide)
  refine ⟨_, _, rfl, rfl, fun row => ⟨hset _ rfl counts hsets () row, ?_⟩⟩
  refine (harm upsertCounts _ rfl counts () row).1 rfl hsets fun condition hcondition => hread _ ?_
  obtain rfl := Option.mem_some_iff.mp hcondition
  exact List.mem_cons_self

end Durablerun.Mysql
