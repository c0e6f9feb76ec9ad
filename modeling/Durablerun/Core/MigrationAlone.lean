import Durablerun.Core.MigrationRules

/-!
# Migrations statement by statement

On MySQL every statement commits alone. The migration lock has batches take turns; nothing here
needs it, so the statements of several batches may interleave. A version is advanced to only by a
migrator that has sent all of its statements.

Reference: `packages/store-libsql/src/admin.ts`.
-/

namespace Durablerun.Admin

open Js Program Sessions

variable {statementsOf : ℕ → List String} {db db' : Database} {v n : ℕ}

namespace Alone

/-! ## The database between statements -/

/-- A migrator knows statements that took effect. It may advance to a version when it knows all of
the version's. -/
def Allowed (statementsOf : ℕ → List String) (k : List (ℕ × String)) : Statement → Prop
  | .createMetaWithVersionZero => True
  | .schema _ _ => True
  | .advance v => 1 ≤ v ∧ v ≤ 2 ^ 53 - 1 ∧ ∀ sql ∈ statementsOf v, (v, sql) ∈ k
  | _ => False

def rules (statementsOf : ℕ → List String) : Rules (List (ℕ × String)) Call Answer where
  may k
    | .version => True
    | .write _ statements => ∃ statement, statements = [statement] ∧ Allowed statementsOf k statement
  learn k op answer k' := k' = match op, answer with
    | .write _ [.schema v sql], .ok _ => (v, sql) :: k
    | _, _ => k

/-- Every statement of every version up to the recorded one has taken effect. -/
def Complete (statementsOf : ℕ → List String) (db : Database) : Prop :=
  ∀ n, 1 ≤ n → n ≤ db.recorded → ∀ sql ∈ statementsOf n, (n, sql) ∈ db.effects

/-- There is no `meta`, or it holds its version alone; and the versions up to it are complete. -/
structure AtVersion (statementsOf : ℕ → List String) (db : Database) : Prop where
  metaRows : db.metaRows = none ∨ db.recorded ≤ 2 ^ 53 - 1 ∧
    db.metaRows = some [(SCHEMA_VERSION_KEY, decimal db.recorded)]
  complete : Complete statementsOf db

/-- The version does not decrease, and what took effect remains. -/
structure Moves (db db' : Database) : Prop where
  recorded : db.recorded ≤ db'.recorded
  effects : db.effects ⊆ db'.effects

/-- The version a database records is the number its one row of the version's key writes. -/
theorem recorded_row (hv : v ≤ 2 ^ 53 - 1)
    (h : db.metaRows = some [(SCHEMA_VERSION_KEY, decimal v)]) : db.recorded = v := by
  have hread : db.readVersion = .ok [[.text (decimal v)]] := by
    unfold Database.readVersion
    rw [h]
    rfl
  unfold Database.recorded told
  rw [hread, decodeVersion_decimal hv]

/-- A database without its table records version 0. -/
theorem recorded_none (h : db.metaRows = none) : db.recorded = 0 := by
  unfold Database.recorded Database.readVersion
  rw [h]
  rfl

/-- What a database records is read from its rows of metadata alone. -/
theorem recorded_congr (h : db'.metaRows = db.metaRows) : db'.recorded = db.recorded := by
  unfold Database.recorded Database.readVersion
  rw [h]

/-- Rows that stay as they were leave the versions complete. -/
theorem AtVersion.of_metaRows (h : AtVersion statementsOf db) (hrows : db'.metaRows = db.metaRows)
    (heffects : db.effects ⊆ db'.effects) : AtVersion statementsOf db' ∧ Moves db db' := by
  have hrecorded := recorded_congr hrows
  refine ⟨⟨?_, fun n hpos hn sql hsql => ?_⟩, hrecorded.ge, heffects⟩
  · rw [hrows, hrecorded]
    exact h.metaRows
  · exact heffects (h.complete n hpos (hrecorded ▸ hn) sql hsql)

/-- So do rows that are at the next version, when its statements took effect. -/
theorem AtVersion.of_advance (h : AtVersion statementsOf db) (hv : v ≤ 2 ^ 53 - 1)
    (hle : db.recorded ≤ v) (hrows : db'.metaRows = some [(SCHEMA_VERSION_KEY, decimal v)])
    (heffects : db.effects ⊆ db'.effects)
    (hnew : ∀ n, db.recorded < n → n ≤ v → ∀ sql ∈ statementsOf n, (n, sql) ∈ db.effects) :
    AtVersion statementsOf db' ∧ Moves db db' := by
  have hrecorded := recorded_row hv hrows
  refine ⟨⟨Or.inr ?_, fun n hpos hn sql hsql => heffects ?_⟩, hrecorded.symm ▸ hle, heffects⟩
  · rw [hrecorded]
    exact ⟨hv, hrows⟩
  · rw [hrecorded] at hn
    obtain hold | hlt := Nat.lt_or_ge db.recorded n
    · exact hnew n hold hn sql hsql
    · exact h.complete n hpos hlt sql hsql

/-- A statement that takes effect leaves every version complete. -/
theorem AtVersion.run {k : List (ℕ × String)} {statement : Statement} (h : AtVersion statementsOf db)
    (hk : ∀ x ∈ k, x ∈ db.effects) (hallowed : Allowed statementsOf k statement)
    (hrun : statement.run db = some db') : AtVersion statementsOf db' ∧ Moves db db' := by
  cases statement with
  | createMeta => exact hallowed.elim
  | insertVersionZero => exact hallowed.elim
  | insertApplied version => exact hallowed.elim
  | createMetaWithVersionZero =>
    obtain rfl := Option.some.inj hrun
    obtain hnone | ⟨hsafe, hrows⟩ := h.metaRows
    · have hzero := recorded_none hnone
      refine h.of_advance (Nat.zero_le _) hzero.le (by rw [hnone]; rfl) (List.Subset.refl _) ?_
      exact fun n hlt hle => absurd hlt (by omega)
    · exact h.of_metaRows (by rw [hrows]; rfl) (List.Subset.refl _)
  | schema version sql =>
    obtain rfl := Option.some.inj hrun
    exact h.of_metaRows rfl (List.subset_append_left _ _)
  | advance version =>
    obtain ⟨hpos, hsafe, hknown⟩ := hallowed
    obtain ⟨rows, hrows, rfl⟩ := Option.map_eq_some_iff.mp hrun
    obtain hnone | ⟨_, hrow⟩ := h.metaRows
    · cases hnone.symm.trans hrows
    obtain rfl := Option.some.inj (hrow.symm.trans hrows)
    by_cases hbefore : db.recorded = version - 1
    · have hadvanced : advanceRow version (SCHEMA_VERSION_KEY, decimal db.recorded) =
          (SCHEMA_VERSION_KEY, decimal version) :=
        if_pos ⟨rfl, congrArg decimal hbefore⟩
      refine h.of_advance hsafe (by omega) (congrArg (fun row => some [row]) hadvanced)
        (List.Subset.refl _) fun n hlt hle sql hsql => hk _ ?_
      obtain rfl : n = version := by omega
      exact hknown sql hsql
    · have hleft : advanceRow version (SCHEMA_VERSION_KEY, decimal db.recorded) =
          (SCHEMA_VERSION_KEY, decimal db.recorded) :=
        if_neg fun hrow => hbefore (decimal_injective hrow.2)
      exact h.of_metaRows ((congrArg (fun row => some [row]) hleft).trans hrow.symm)
        (List.Subset.refl _)

/-- One statement run alone is that statement run. -/
theorem run_of_runAll {statement : Statement} (h : runAll [statement] db = some db') :
    statement.run db = some db' := by
  cases hrun : statement.run db with
  | none =>
    have hnone : runAll [statement] db = none := by
      show (statement.run db).bind _ = none
      rw [hrun]
      rfl
    cases hnone.symm.trans h
  | some db'' =>
    have hsome : runAll [statement] db = some db'' := by
      show (statement.run db).bind _ = some db''
      rw [hrun]
      rfl
    exact hsome.symm.trans h

/-- A statement of a migrator keeps the database at a version, and keeps the effects others know of.
-/
theorem kept : Kept Exec (rules statementsOf) (AtVersion statementsOf) Moves
    (fun k db => ∀ x ∈ k, x ∈ db.effects) where
  refl _ := ⟨le_rfl, List.Subset.refl _⟩
  trans _ _ _ hab hbc := ⟨hab.recorded.trans hbc.recorded, List.Subset.trans hab.effects hbc.effects⟩
  stable hmoves hknows x hx := hmoves.effects (hknows x hx)
  step {k op db answer db'} hinv hknows hmay hexec := by
    cases hexec with
    | read => exact ⟨hinv, ⟨le_rfl, List.Subset.refl _⟩, _, rfl, hknows⟩
    | readFails => exact ⟨hinv, ⟨le_rfl, List.Subset.refl _⟩, _, rfl, hknows⟩
    | @applied batch _ _ _ hrun =>
      obtain ⟨statement, rfl, hallowed⟩ := hmay
      have hrun := run_of_runAll hrun
      obtain ⟨hinv', hmoves⟩ := hinv.run hknows hallowed hrun
      have hstill : ∀ x ∈ k, x ∈ db'.effects := fun x hx => hmoves.effects (hknows x hx)
      refine ⟨hinv', hmoves, _, rfl, ?_⟩
      cases statement with
      | schema v sql =>
        obtain rfl := Option.some.inj hrun
        intro x hx
        obtain rfl | hx := List.mem_cons.mp hx
        · exact List.mem_append_right _ List.mem_cons_self
        · exact hstill x hx
      | createMeta => exact hstill
      | insertVersionZero => exact hstill
      | createMetaWithVersionZero => exact hstill
      | insertApplied v => exact hstill
      | advance v => exact hstill
    | lost hrun error =>
      obtain ⟨statement, rfl, hallowed⟩ := hmay
      obtain ⟨hinv', hmoves⟩ := hinv.run hknows hallowed (run_of_runAll hrun)
      refine ⟨hinv', hmoves, k, ?_, fun x hx => hmoves.effects (hknows x hx)⟩
      cases statement <;> rfl
    | failed db error =>
      obtain ⟨statement, rfl, _⟩ := hmay
      refine ⟨hinv, ⟨le_rfl, List.Subset.refl _⟩, k, ?_, hknows⟩
      cases statement <;> rfl

section Safe

variable {k : List (ℕ × String)} {whole : List Statement}

/-- Reading the version is always allowed. -/
theorem safe_readSchemaVersion (k : List (ℕ × String)) :
    Safe (rules statementsOf) (fun _ _ => True) (fun _ _ => True) k readSchemaVersion := by
  refine ⟨trivial, fun answer k' _ => ?_⟩
  show Safe _ _ _ _ (Program.ofExcept (decodeVersion answer))
  cases decodeVersion answer <;> trivial

/-- Reading the version, or its absence, is always allowed. -/
theorem safe_schemaVersion (k : List (ℕ × String)) :
    Safe (rules statementsOf) (fun _ _ => True) (fun _ _ => True) k schemaVersion :=
  ((safe_readSchemaVersion k).imp (fun _ _ h => h) fun _ _ _ => trivial).bind

/-- A write under a version check is allowed where the write is. -/
theorem safe_applyVersionedWrite {write : Migrator Unit} {minimum : ℕ}
    (h : Safe (rules statementsOf) (fun _ _ => True) (fun _ _ => True) k write) :
    Safe (rules statementsOf) (fun _ _ => True) (fun _ _ => True) k
      (applyVersionedWrite write minimum) := by
  refine (h.imp (fun k' error _ => ?_) fun _ _ h => h).tryCatch
  refine Safe.bind ((safe_readSchemaVersion k').imp (fun _ _ h => h) fun k'' version _ => ?_)
  split <;> trivial

/-- Sending two lists of statements one after the other is sending them as one. -/
theorem send_append (whole a b : List Statement) :
    batch.send whole (a ++ b) = batch.send whole a >>= fun _ => batch.send whole b := by
  induction a with
  | nil => rfl
  | cons statement a ih =>
    refine congrArg (Program.call _) (funext fun answer => ?_)
    cases answer with
    | ok results => exact ih
    | error error => rfl

/-- The statements of a version are known once they are sent. -/
theorem safe_send_schema (k : List (ℕ × String)) (v : ℕ) (statements : List String) :
    Safe (rules statementsOf) (fun _ _ => True)
      (fun k' _ => k ⊆ k' ∧ ∀ sql ∈ statements, (v, sql) ∈ k') k
      (batch.send whole (statements.map (.schema v))) := by
  induction statements generalizing k with
  | nil => exact ⟨List.Subset.refl _, fun _ h => absurd h List.not_mem_nil⟩
  | cons sql rest ih =>
    refine ⟨⟨_, rfl, trivial⟩, fun answer k' hlearn => ?_⟩
    cases answer with
    | error error => trivial
    | ok results =>
      obtain rfl : k' = (v, sql) :: k := hlearn
      refine (ih _).imp (fun _ _ h => h) fun k'' _ hknown => ⟨?_, fun sql' hsql => ?_⟩
      · exact List.Subset.trans (List.subset_cons_self _ _) hknown.1
      · obtain rfl | hsql := List.mem_cons.mp hsql
        · exact hknown.1 List.mem_cons_self
        · exact hknown.2 sql' hsql

/-- Every version is advanced to after its statements. -/
theorem safe_versionBatch (k : List (ℕ × String)) {migrations : List Migration}
    (h : ∀ m ∈ migrations, 1 ≤ m.version ∧ m.version ≤ 2 ^ 53 - 1 ∧
      m.statements = statementsOf m.version) :
    Safe (rules statementsOf) (fun _ _ => True) (fun _ _ => True) k
      (batch.send whole (versionBatch migrations)) := by
  induction migrations generalizing k with
  | nil => trivial
  | cons migration rest ih =>
    obtain ⟨hpos, hsafe, hstatements⟩ := h migration List.mem_cons_self
    unfold versionBatch
    rw [List.flatMap_cons, List.append_assoc, send_append]
    refine Safe.bind ((safe_send_schema k migration.version migration.statements).imp
      (fun _ _ h => h) fun k' _ hknown => ?_)
    refine ⟨⟨_, rfl, hpos, hsafe, hstatements ▸ hknown.2⟩, fun answer k'' _ => ?_⟩
    cases answer with
    | error error => trivial
    | ok results => exact ih k'' fun m hm => h m (List.mem_cons_of_mem _ hm)

/-- Every plan is of versions whose statements the batch holds. -/
theorem safe_plan (build : Build) (k : List (ℕ × String)) (recorded : ℕ) :
    Safe (rules statementsOf) (fun _ _ => True) (fun _ _ => True) k
      (plan statementsOf build recorded) := by
  induction hleft : build.CURRENT_SCHEMA_VERSION statementsOf - recorded using Nat.strong_induction_on
    generalizing k recorded with
  | _ left ih =>
    rw [plan]
    split
    · rename_i hbehind
      refine Safe.bind ((safe_applyVersionedWrite (safe_versionBatch k fun m hm => ?_)).imp
        (fun _ _ h => h) fun k' _ _ => ?_)
      · obtain ⟨v, hv, rfl⟩ := List.mem_map.mp (List.mem_of_mem_filter hm)
        obtain ⟨hpos, hlt⟩ := List.mem_range'_1.mp hv
        have hsafe := build.safe
        exact ⟨hpos, show v ≤ 2 ^ 53 - 1 by omega, rfl⟩
      · refine Safe.bind ((safe_schemaVersion k').imp (fun _ _ h => h) fun k'' version _ => ?_)
        split
        · trivial
        · rename_i hmoved
          exact ih _ (by omega) k'' version rfl
    · trivial

/-- A migrator that knows nothing yet makes only the calls the rules allow. -/
theorem safe_migrate (build : Build) :
    Safe (rules statementsOf) (fun _ _ => True) (fun _ _ => True) [] (migrate statementsOf build) := by
  refine Safe.bind ((safe_readSchemaVersion []).imp (fun _ _ h => h) fun k found _ => ?_)
  have hrest : ∀ k, Safe (rules statementsOf) (fun _ _ => True) (fun _ _ => True) k (do
      let recorded ← found.elim schemaVersion Pure.pure
      let recorded ← plan statementsOf build recorded
      .ofExcept (requireCurrentSchemaVersion recorded (build.CURRENT_SCHEMA_VERSION statementsOf))) := by
    intro k
    have hfound : Safe (rules statementsOf) (fun _ _ => True) (fun _ _ => True) k
        (found.elim schemaVersion Pure.pure) := by
      cases found with
      | none => exact safe_schemaVersion k
      | some version => trivial
    refine Safe.bind (hfound.imp (fun _ _ h => h) fun k' recorded _ => ?_)
    refine Safe.bind ((safe_plan build k' recorded).imp (fun _ _ h => h) fun k'' recorded _ => ?_)
    cases requireCurrentSchemaVersion recorded (build.CURRENT_SCHEMA_VERSION statementsOf) <;> trivial
  refine Safe.bind (p := if found = none then _ else Program.pure ()) ?_
  split
  · have hwrite : Safe (rules statementsOf) (fun _ _ => True) (fun _ _ => True) k (batch bootstrap) := by
      refine ⟨⟨_, rfl, trivial⟩, fun answer k' _ => ?_⟩
      cases answer <;> trivial
    exact (safe_applyVersionedWrite hwrite).imp (fun _ _ h => h) fun k' _ _ => hrest k'
  · exact hrest k

end Safe

/-! What the migrator owes, and how much it calls. -/

/-- Sending statements leaves nothing owed, or a read of the version after the error. -/
theorem owes_send {owes : Owes} (h : owes.Clear) (whole statements : List Statement) :
    Safe Owes.rules (fun owes' error => owes' = .read (firstVersion whole) error)
      (fun owes' _ => owes'.Clear) owes (batch.send whole statements) := by
  induction statements generalizing owes with
  | nil => exact h
  | cons statement rest ih =>
    cases owes with
    | nothing last =>
      refine ⟨trivial, fun answer owes' hlearn => ?_⟩
      cases answer with
      | ok results =>
        obtain rfl : owes' = .nothing _ := hlearn
        exact ih (Owes.clear_nothing _)
      | error error => exact hlearn
    | read minimum error => exact h.elim
    | rethrow error => exact h.elim

/-- The first of the versions that are left is the one after the recorded. -/
theorem firstVersion_plan (build : Build) {recorded : ℕ}
    (h : recorded < build.CURRENT_SCHEMA_VERSION statementsOf) :
    firstVersion (versionBatch ((build.MIGRATIONS statementsOf).filter (recorded < ·.version))) =
      recorded + 1 := by
  rw [build.CURRENT_SCHEMA_VERSION_eq] at h
  obtain ⟨left, hleft⟩ := Nat.exists_eq_add_of_lt h
  have hrange : List.range' 1 build.newest = List.range' 1 recorded ++
      (recorded + 1) :: List.range' (recorded + 1 + 1) left := by
    rw [← List.range'_succ, hleft, Nat.add_assoc, ← List.range'_append_1, Nat.add_comm 1 recorded]
  have hdone : (List.range' 1 recorded).filter (recorded < ·) = [] := by
    refine List.filter_eq_nil_iff.mpr fun v hv => ?_
    have hlt := (List.mem_range'_1.mp hv).2
    simp only [decide_eq_true_eq]
    omega
  unfold Build.MIGRATIONS
  rw [List.filter_map, hrange]
  show firstVersion (versionBatch (((List.range' 1 recorded ++ _).filter (recorded < ·)).map _)) = _
  rw [List.filter_append, hdone, List.nil_append, List.filter_cons_of_pos (by simp), List.map_cons]
  unfold versionBatch
  rw [List.flatMap_cons, List.append_assoc]
  exact firstVersion_schemaStatements _ _

/-- A plan from what was recorded ends at a version it was told. -/
theorem owes_plan {owes : Owes} (build : Build) (recorded : ℕ) (h : owes.Told recorded) :
    Safe Owes.rules Owes.raises (fun owes' version => owes'.Told version) owes
      (plan statementsOf build recorded) := by
  induction hleft : build.CURRENT_SCHEMA_VERSION statementsOf - recorded using Nat.strong_induction_on
    generalizing owes recorded with
  | _ left ih =>
    rw [plan]
    split
    · rename_i hbehind
      have hwrite := owes_send h.clear (versionBatch ((build.MIGRATIONS statementsOf).filter
        (recorded < ·.version))) (versionBatch ((build.MIGRATIONS statementsOf).filter
        (recorded < ·.version)))
      rw [firstVersion_plan build hbehind] at hwrite
      refine Safe.bind ((Owes.safe_applyVersionedWrite hwrite).imp (fun _ _ h => h)
        fun owes' _ hclear => ?_)
      refine Safe.bind ((Owes.safe_schemaVersion hclear).imp (fun _ _ h => h)
        fun owes'' version htold => ?_)
      split
      · exact htold
      · exact ih _ (by omega) version htold rfl
    · exact h

/-- A migrator returns once it was told its build's version, and throws only what it owes. -/
theorem owes_migrate (build : Build) :
    Safe Owes.rules Owes.raises
      (fun owes' _ => Owes.Told (build.CURRENT_SCHEMA_VERSION statementsOf) owes') (.nothing none)
      (migrate statementsOf build) := by
  refine Safe.bind ((Owes.safe_readSchemaVersion (Owes.clear_nothing none)).imp (fun _ _ h => h)
    fun owes found htold => ?_)
  have hrest : ∀ (owes : Owes) (recorded : ℕ), owes.Told recorded → Safe Owes.rules Owes.raises
      (fun owes' _ => Owes.Told (build.CURRENT_SCHEMA_VERSION statementsOf) owes') owes (do
        let recorded ← plan statementsOf build recorded
        .ofExcept (requireCurrentSchemaVersion recorded
          (build.CURRENT_SCHEMA_VERSION statementsOf))) :=
    fun owes recorded htold => Safe.bind ((owes_plan build recorded htold).imp (fun _ _ h => h)
      fun owes' version htold => Owes.safe_require htold)
  refine Safe.bind (p := if found = none then _ else Program.pure ()) ?_
  cases found with
  | none =>
    rw [if_pos rfl]
    refine (Owes.safe_applyVersionedWrite (owes_send htold.clear bootstrap bootstrap)).imp
      (fun _ _ h => h) fun owes' _ hclear => ?_
    exact Safe.bind ((Owes.safe_schemaVersion hclear).imp (fun _ _ h => h) fun owes'' version htold =>
      hrest owes'' version htold)
  | some version =>
    rw [if_neg (Option.some_ne_none version)]
    exact hrest owes version htold

/-- Sending statements one at a time makes one call for each. -/
theorem calls_send (whole statements : List Statement) :
    Calls statements.length (batch.send whole statements) := by
  induction statements with
  | nil => trivial
  | cons statement rest ih =>
    intro answer
    cases answer with
    | ok results => exact ih
    | error error => exact calls_throw _ error

/-- The batch of what is left is no longer than that of all versions. -/
theorem length_plan (migrations : List Migration) (recorded : ℕ) :
    (versionBatch (migrations.filter (recorded < ·.version))).length ≤
      (versionBatch migrations).length := by
  unfold versionBatch
  induction migrations with
  | nil => exact le_rfl
  | cons migration rest ih =>
    rw [List.flatMap_cons, List.length_append]
    by_cases hleft : recorded < migration.version
    · rw [List.filter_cons_of_pos (by simpa using hleft), List.flatMap_cons, List.length_append]
      exact Nat.add_le_add_left ih _
    · rw [List.filter_cons_of_neg (by simpa using hleft)]
      exact ih.trans (Nat.le_add_left _ _)

/-- The planning loop ends: each round after the first starts from a later version. -/
theorem calls_plan (build : Build) (recorded : ℕ) :
    Calls ((build.CURRENT_SCHEMA_VERSION statementsOf - recorded) *
      ((versionBatch (build.MIGRATIONS statementsOf)).length + 2)) (plan statementsOf build recorded) := by
  induction hleft : build.CURRENT_SCHEMA_VERSION statementsOf - recorded using Nat.strong_induction_on
    generalizing recorded with
  | _ left ih =>
    rw [plan]
    split
    · rename_i hbehind
      obtain ⟨rounds, rfl⟩ : ∃ rounds, left = rounds + 1 := ⟨left - 1, by omega⟩
      have hwrite : Calls _ (batch (versionBatch ((build.MIGRATIONS statementsOf).filter
          (recorded < ·.version)))) := (calls_send _ _).mono (length_plan _ recorded)
      have hnext : ∀ version, Calls (rounds *
          ((versionBatch (build.MIGRATIONS statementsOf)).length + 2))
          (if version ≤ recorded then Program.pure version
            else plan statementsOf build version) := by
        intro version
        split
        · exact calls_pure _ _
        · rename_i hmoved
          have hround := ih (build.CURRENT_SCHEMA_VERSION statementsOf - version) (by omega) version rfl
          exact hround.mono (Nat.mul_le_mul_right _ (by omega))
      refine ((calls_applyVersionedWrite hwrite).bind fun _ =>
        calls_schemaVersion.bind hnext).mono ?_
      rw [Nat.succ_mul]
      omega
    · exact calls_pure _ _

/-- A migrator makes a bounded number of calls. -/
theorem calls_migrate (build : Build) : ∃ n, Calls n (migrate statementsOf build) := by
  have hbootstrap : ∀ found : Option ℕ, Calls 2 (if found = none
      then applyVersionedWrite (batch bootstrap) 0 else Program.pure ()) := by
    intro found
    split
    · exact calls_applyVersionedWrite (calls_send bootstrap bootstrap)
    · trivial
  have hfound : ∀ found : Option ℕ, Calls 1 (found.elim schemaVersion Pure.pure) := by
    intro found
    cases found with
    | none => exact calls_schemaVersion
    | some version => trivial
  have hplan : ∀ recorded, Calls (build.CURRENT_SCHEMA_VERSION statementsOf *
      ((versionBatch (build.MIGRATIONS statementsOf)).length + 2)) (plan statementsOf build recorded) :=
    fun recorded => (calls_plan build recorded).mono (Nat.mul_le_mul_right _ (Nat.sub_le _ _))
  exact ⟨_, calls_readSchemaVersion.bind fun found => (hbootstrap found).bind fun _ =>
    (hfound found).bind fun recorded => (hplan recorded).bind fun _ => calls_ofExcept _⟩

/-- What every interleaving keeps. -/
theorem sound {ι : Type} (builds : ι → Build) :
    Sound (rules statementsOf) (fun _ _ => True) (fun _ _ _ => True) (AtVersion statementsOf)
      (fun k db => ∀ x ∈ k, x ∈ db.effects)
      ⟨fresh, fun i => migrate statementsOf (builds i)⟩ where
  inv := ⟨Or.inl rfl, fun _ hpos hn => absurd hpos (Nat.not_lt.mpr hn)⟩
  safe i := ⟨[], fun _ h => absurd h List.not_mem_nil, safe_migrate (builds i)⟩

end Alone

end Durablerun.Admin
