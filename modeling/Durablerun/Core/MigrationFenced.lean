import Durablerun.Core.MigrationRules

/-!
# Migrations in transactions

On libSQL and PostgreSQL a version is one transaction behind its sentinel row. Whatever the
interleaving, the database is at some version as a whole.

Reference: `packages/store-mysql/src/admin.ts`.
-/

namespace Durablerun.Admin

open Js Program Sessions

variable {statementsOf : ℕ → List String} {db db' : Database} {v n : ℕ}

namespace Fenced

/-! ## The database at a version -/

/-- The effects of the versions up to some number. -/
def effectsTo (statementsOf : ℕ → List String) (version : ℕ) : List (ℕ × String) :=
  (List.range' 1 version).flatMap fun v => (statementsOf v).map (v, ·)

/-- The sentinels of the versions up to some number. -/
def sentinels (version : ℕ) : List (Str × Str) :=
  (List.range' 1 version).map fun v => (appliedKey v, decimal 1)

/-- The database at a version: its row, the sentinels of the versions up to it, and their effects.
-/
def recordedAt (statementsOf : ℕ → List String) (version : ℕ) : Database :=
  ⟨some ((SCHEMA_VERSION_KEY, decimal version) :: sentinels version), effectsTo statementsOf version⟩

/-- The sentinels up to the next version are those before and its own. -/
theorem sentinels_succ (v : ℕ) :
    sentinels (v + 1) = sentinels v ++ [(appliedKey (v + 1), decimal 1)] := by
  unfold sentinels
  rw [List.range'_1_concat, List.map_append, Nat.add_comm 1 v]
  rfl

/-- The effects up to the next version are those before and its own statements'. -/
theorem effectsTo_succ (v : ℕ) : effectsTo statementsOf (v + 1) =
    effectsTo statementsOf v ++ (statementsOf (v + 1)).map (v + 1, ·) := by
  unfold effectsTo
  rw [List.range'_1_concat, List.flatMap_append, List.flatMap_singleton, Nat.add_comm 1 v]

/-- No sentinel's key is the version's own. -/
theorem sentinels_ne {row : Str × Str} (h : row ∈ sentinels v) : row.1 ≠ SCHEMA_VERSION_KEY := by
  obtain ⟨n, _, rfl⟩ := List.mem_map.mp h
  exact appliedKey_ne n

/-- Exactly the versions up to the number have a sentinel. -/
theorem mem_sentinels : (∃ row ∈ sentinels v, row.1 = appliedKey n) ↔ 1 ≤ n ∧ n ≤ v := by
  constructor
  · rintro ⟨row, hrow, hkey⟩
    obtain ⟨m, hm, rfl⟩ := List.mem_map.mp hrow
    obtain rfl := appliedKey_injective hkey
    obtain ⟨hpos, hlt⟩ := List.mem_range'_1.mp hm
    exact ⟨hpos, by omega⟩
  · rintro ⟨hpos, hle⟩
    exact ⟨_, List.mem_map.mpr ⟨n, List.mem_range'_1.mpr ⟨hpos, by omega⟩, rfl⟩, rfl⟩

/-- A database at a version reads back as that version. -/
theorem readVersion_recordedAt (v : ℕ) :
    (recordedAt statementsOf v).readVersion = .ok [[.text (decimal v)]] := by
  have hsentinels : (sentinels v).filter (·.1 = SCHEMA_VERSION_KEY) = [] :=
    List.filter_eq_nil_iff.mpr fun row hrow => by simpa using sentinels_ne hrow
  unfold Database.readVersion recordedAt
  dsimp only
  rw [List.filter_cons_of_pos (by simp), hsentinels]
  rfl

/-- A database at a version records it. -/
theorem recorded_recordedAt (hv : v ≤ 2 ^ 53 - 1) : (recordedAt statementsOf v).recorded = v := by
  unfold Database.recorded told
  rw [readVersion_recordedAt, decodeVersion_decimal hv]

/-- The bootstrap of a fresh database leaves it at version 0. -/
theorem runAll_bootstrap_fresh (statementsOf : ℕ → List String) :
    runAll bootstrap fresh = some (recordedAt statementsOf 0) := rfl

/-- The bootstrap of a database at a version changes nothing. -/
theorem runAll_bootstrap (v : ℕ) :
    runAll bootstrap (recordedAt statementsOf v) = some (recordedAt statementsOf v) := by
  have htaken : insertRow ((SCHEMA_VERSION_KEY, decimal v) :: sentinels v)
      (SCHEMA_VERSION_KEY, decimal 0) = none :=
    if_pos (by simp)
  show some (⟨some ((insertRow ((SCHEMA_VERSION_KEY, decimal v) :: sentinels v)
    (SCHEMA_VERSION_KEY, decimal 0)).getD _), _⟩ : Database) = _
  rw [htaken]
  rfl

/-- The sentinel of a version that is recorded is there. -/
theorem runAll_fencedBatch_again {migration : Migration} (hv : 1 ≤ migration.version)
    (hle : migration.version ≤ v) :
    runAll (fencedBatch migration) (recordedAt statementsOf v) = none := by
  have htaken : insertRow ((SCHEMA_VERSION_KEY, decimal v) :: sentinels v)
      (appliedKey migration.version, decimal 1) = none := by
    obtain ⟨row, hrow, hkey⟩ := mem_sentinels.mpr ⟨hv, hle⟩
    refine if_pos (List.any_eq_true.mpr ⟨row, List.mem_cons_of_mem _ hrow, ?_⟩)
    exact decide_eq_true hkey
  show ((insertRow ((SCHEMA_VERSION_KEY, decimal v) :: sentinels v)
    (appliedKey migration.version, decimal 1)).bind _).bind _ = none
  rw [htaken]
  rfl

/-- The version's row is advanced and the sentinels are left. -/
theorem map_advanceRow (v : ℕ) (rows : List (Str × Str)) (h : ∀ row ∈ rows, row.1 ≠ SCHEMA_VERSION_KEY) :
    ((SCHEMA_VERSION_KEY, decimal v) :: rows).map (advanceRow (v + 1)) =
      (SCHEMA_VERSION_KEY, decimal (v + 1)) :: rows := by
  have hrest : rows.map (advanceRow (v + 1)) = rows :=
    (List.map_congr_left fun row hrow => if_neg fun hkey => h row hrow hkey.1).trans
      (List.map_id' rows)
  rw [List.map_cons, hrest]
  exact congrArg (· :: rows) (if_pos ⟨rfl, rfl⟩)

/-- The next version takes effect as a whole. -/
theorem runAll_fencedBatch_next (v : ℕ) :
    runAll (fencedBatch ⟨v + 1, statementsOf (v + 1)⟩) (recordedAt statementsOf v) =
      some (recordedAt statementsOf (v + 1)) := by
  have hfree : insertRow ((SCHEMA_VERSION_KEY, decimal v) :: sentinels v)
      (appliedKey (v + 1), decimal 1) =
        some ((SCHEMA_VERSION_KEY, decimal v) :: sentinels (v + 1)) := by
    rw [sentinels_succ]
    refine if_neg fun htaken => ?_
    obtain ⟨row, hrow, hkey⟩ := List.any_eq_true.mp htaken
    have hkey : row.1 = appliedKey (v + 1) := of_decide_eq_true hkey
    obtain rfl | hrow := List.mem_cons.mp hrow
    · exact appliedKey_ne (v + 1) hkey.symm
    · exact absurd (mem_sentinels.mp ⟨row, hrow, hkey⟩).2 (Nat.not_succ_le_self v)
  have hfirst : Statement.run (recordedAt statementsOf v) (.insertApplied (v + 1)) =
      some ⟨some ((SCHEMA_VERSION_KEY, decimal v) :: sentinels (v + 1)), effectsTo statementsOf v⟩ := by
    show ((insertRow ((SCHEMA_VERSION_KEY, decimal v) :: sentinels v)
      (appliedKey (v + 1), decimal 1)).bind _) = _
    rw [hfree]
    rfl
  show ((Statement.run _ (.insertApplied (v + 1))).bind (runAll (_ ++ _))) = _
  rw [hfirst, Option.bind_some, runAll_append, runAll_schemaStatements, ← effectsTo_succ]
  show some (⟨some (((SCHEMA_VERSION_KEY, decimal v) :: sentinels (v + 1)).map (advanceRow (v + 1))),
    effectsTo statementsOf (v + 1)⟩ : Database) = _
  rw [map_advanceRow v _ fun row hrow => sentinels_ne hrow]
  rfl

/-- The version a migration's batch begins with is the migration's. -/
theorem firstVersion_fencedBatch (migration : Migration) :
    firstVersion (fencedBatch migration) = migration.version :=
  firstVersion_schemaStatements migration []

/-- A migrator knows a version that has been recorded. It may send the bootstrap, and a version when
it knows the one before. -/
def rules (statementsOf : ℕ → List String) : Rules ℕ Call Answer where
  may k
    | .version => True
    | .write batch statements => statements = batch ∧ (batch = bootstrap ∨
      ∃ v, v ≤ k ∧ v + 1 ≤ 2 ^ 53 - 1 ∧ batch = fencedBatch ⟨v + 1, statementsOf (v + 1)⟩)
  learn k op answer k' := k' = learnt k op answer

/-- The database is fresh, or is at a version. -/
def AtVersion (statementsOf : ℕ → List String) (db : Database) : Prop :=
  db = fresh ∨ ∃ v ≤ 2 ^ 53 - 1, db = recordedAt statementsOf v

/-- A batch that takes effect brings its version, and takes none back. -/
theorem AtVersion.write {k : ℕ} {batch : List Statement} (h : AtVersion statementsOf db)
    (hk : k ≤ db.recorded) (hbatch : batch = bootstrap ∨
      ∃ v, v ≤ k ∧ v + 1 ≤ 2 ^ 53 - 1 ∧ batch = fencedBatch ⟨v + 1, statementsOf (v + 1)⟩)
    (hrun : runAll batch db = some db') :
    AtVersion statementsOf db' ∧ db.recorded ≤ db'.recorded ∧
      max k (firstVersion batch) ≤ db'.recorded := by
  obtain rfl | ⟨v, hv, hsafe, rfl⟩ := hbatch
  · obtain rfl | ⟨r, hr, rfl⟩ := h
    · obtain rfl := Option.some.inj
        ((runAll_bootstrap_fresh statementsOf).symm.trans hrun)
      exact ⟨Or.inr ⟨0, Nat.zero_le _, rfl⟩, Nat.zero_le _,
        (max_eq_left (Nat.zero_le k)).trans_le (hk.trans (Nat.zero_le _))⟩
    · obtain rfl := Option.some.inj ((runAll_bootstrap r).symm.trans hrun)
      exact ⟨Or.inr ⟨r, hr, rfl⟩, le_rfl, (max_eq_left (Nat.zero_le k)).trans_le hk⟩
  · obtain rfl | ⟨r, hr, rfl⟩ := h
    · cases hrun
    · rw [recorded_recordedAt hr] at hk ⊢
      obtain hle | hlt := Nat.lt_or_ge r (v + 1)
      · obtain rfl : v = r := by omega
        obtain rfl := Option.some.inj ((runAll_fencedBatch_next v).symm.trans hrun)
        rw [recorded_recordedAt hsafe, firstVersion_fencedBatch]
        exact ⟨Or.inr ⟨v + 1, hsafe, rfl⟩, Nat.le_succ v, max_le (hk.trans (Nat.le_succ v)) le_rfl⟩
      · cases (runAll_fencedBatch_again (Nat.le_add_left 1 v) hlt).symm.trans hrun

/-- A batch keeps the database at a version, which never falls below one that was told. -/
theorem kept : Kept Exec (rules statementsOf) (AtVersion statementsOf)
    (fun db db' => db.recorded ≤ db'.recorded) (fun k db => k ≤ db.recorded) where
  refl _ := le_rfl
  trans _ _ _ := Nat.le_trans
  stable hmoves hknows := Nat.le_trans hknows hmoves
  step {k op db answer db'} hinv hknows hmay hexec := by
    cases hexec with
    | read => exact ⟨hinv, le_rfl, _, rfl, max_le hknows le_rfl⟩
    | readFails _ error herror =>
      exact ⟨hinv, le_rfl, _, rfl, max_le hknows ((told_error herror).trans_le (Nat.zero_le _))⟩
    | applied hrun =>
      obtain ⟨rfl, hbatch⟩ := hmay
      obtain ⟨hinv', hmoves, hknows'⟩ := hinv.write hknows hbatch hrun
      exact ⟨hinv', hmoves, _, rfl, hknows'⟩
    | lost hrun error =>
      obtain ⟨rfl, hbatch⟩ := hmay
      obtain ⟨hinv', hmoves, hknows'⟩ := hinv.write hknows hbatch hrun
      exact ⟨hinv', hmoves, _, rfl, hknows.trans hmoves⟩
    | failed => exact ⟨hinv, le_rfl, _, rfl, hknows⟩

section Safe

variable {k minimum : ℕ} {statements : List Statement}

/-- Reading the version is allowed, and what it answers is known from then on. -/
theorem safe_readSchemaVersion (k : ℕ) :
    Safe (rules statementsOf) (fun _ _ => True) (fun k' version => k ≤ k' ∧ version.getD 0 ≤ k') k
      readSchemaVersion := by
  refine ⟨trivial, fun answer k' hlearn => ?_⟩
  obtain rfl : k' = max k (told answer) := hlearn
  show Safe _ _ _ _ (Program.ofExcept (decodeVersion answer))
  cases hdecoded : decodeVersion answer with
  | error error => trivial
  | ok version =>
    show k ≤ max k (told answer) ∧ version.getD 0 ≤ max k (told answer)
    rw [told_of_ok hdecoded]
    exact ⟨le_max_left k _, le_max_right k _⟩

/-- Reading the version, or its absence, is allowed, and what it answers is known from then on. -/
theorem safe_schemaVersion (k : ℕ) :
    Safe (rules statementsOf) (fun _ _ => True) (fun k' version => k ≤ k' ∧ version ≤ k') k
      schemaVersion :=
  ((safe_readSchemaVersion k).imp (fun _ _ h => h) fun _ _ h => h).bind

/-- A write that is not thrown has brought its version. -/
theorem safe_applyVersionedWrite (hmay : (rules statementsOf).may k (.write statements statements))
    (hminimum : minimum ≤ firstVersion statements) :
    Safe (rules statementsOf) (fun _ _ => True) (fun k' _ => k ≤ k' ∧ minimum ≤ k') k
      (applyVersionedWrite (batch statements) minimum) := by
  refine Safe.tryCatch ⟨hmay, fun answer k' hlearn => ?_⟩
  cases answer with
  | ok results =>
    obtain rfl : k' = max k (firstVersion statements) := hlearn
    exact ⟨le_max_left k _, hminimum.trans (le_max_right k _)⟩
  | error error =>
    obtain rfl : k' = k := hlearn
    refine Safe.bind ((safe_readSchemaVersion k').imp (fun _ _ h => h) fun k'' version h => ?_)
    show Safe _ _ _ _ (if version.any (minimum ≤ ·) then Program.pure () else Program.throw error)
    split
    · rename_i hreached
      cases version with
      | none => cases hreached
      | some version => exact ⟨h.1, (of_decide_eq_true hreached).trans h.2⟩
    · trivial

/-- The versions that are left, from one whose predecessor is known. -/
theorem safe_migrateEach {count newest : ℕ} (hsafe : newest ≤ 2 ^ 53 - 1) (hv : v ≤ k)
    (hcount : v + count ≤ newest) :
    Safe (rules statementsOf) (fun _ _ => True) (fun _ _ => True) k
      (migrateEach ((List.range' (v + 1) count).map fun version => ⟨version, statementsOf version⟩)) := by
  induction count generalizing v k with
  | zero => trivial
  | succ count ih =>
    rw [List.range'_succ, List.map_cons]
    refine Safe.bind ((safe_schemaVersion k).imp (fun _ _ h => h) fun k' recorded h => ?_)
    refine Safe.bind (p := if v + 1 ≤ recorded then Program.pure () else _) ?_
    have hrest : ∀ k'', v + 1 ≤ k'' → Safe (rules statementsOf) (fun _ _ => True) (fun _ _ => True) k''
        (migrateEach ((List.range' (v + 1 + 1) count).map fun version =>
          ⟨version, statementsOf version⟩)) :=
      fun k'' hk'' => ih hk'' (by omega)
    split
    · rename_i hreached
      exact hrest k' (hreached.trans h.2)
    · refine (safe_applyVersionedWrite ⟨rfl, Or.inr ⟨v, hv.trans h.1, by omega, rfl⟩⟩ ?_).imp
        (fun _ _ h => h) fun k'' _ h => hrest k'' h.2
      exact (firstVersion_fencedBatch _).ge

/-- A migrator that knows nothing yet makes only the calls the rules allow. -/
theorem safe_migrate (build : Build) :
    Safe (rules statementsOf) (fun _ _ => True) (fun _ _ => True) 0 (migrate statementsOf build) := by
  refine Safe.bind ((safe_readSchemaVersion 0).imp (fun _ _ h => h) fun k found _ => ?_)
  have hrest : ∀ k, Safe (rules statementsOf) (fun _ _ => True) (fun _ _ => True) k (do
      migrateEach (build.MIGRATIONS statementsOf)
      let version ← schemaVersion
      .ofExcept (requireCurrentSchemaVersion version (build.CURRENT_SCHEMA_VERSION statementsOf))) := by
    intro k
    refine Safe.bind ((safe_migrateEach build.safe (Nat.zero_le k) (Nat.zero_add _).le).imp
      (fun _ _ h => h) fun k' _ _ => ?_)
    refine Safe.bind ((safe_schemaVersion k').imp (fun _ _ h => h) fun k'' version _ => ?_)
    cases requireCurrentSchemaVersion version (build.CURRENT_SCHEMA_VERSION statementsOf) <;> trivial
  refine Safe.bind (p := if found = none then _ else Program.pure ()) ?_
  split
  · exact (safe_applyVersionedWrite ⟨rfl, Or.inl rfl⟩ (Nat.zero_le _)).imp (fun _ _ h => h)
      fun k' _ _ => hrest k'
  · exact hrest k

end Safe

/-! What the migrator owes, and how much it calls. -/

/-- A batch leaves nothing owed, or a read of the version after the error. -/
theorem owes_batch {owes : Owes} (h : owes.Clear) (statements : List Statement) :
    Safe Owes.rules (fun owes' error => owes' = .read (firstVersion statements) error)
      (fun owes' _ => owes'.Clear) owes (batch statements) := by
  cases owes with
  | nothing last =>
    refine ⟨trivial, fun answer owes' hlearn => ?_⟩
    cases answer with
    | ok results =>
      obtain rfl : owes' = .nothing _ := hlearn
      trivial
    | error error => exact hlearn
  | read minimum error => exact h.elim
  | rethrow error => exact h.elim

/-- Migrating version by version leaves nothing owed. -/
theorem owes_migrateEach {owes : Owes} (h : owes.Clear) (migrations : List Migration) :
    Safe Owes.rules Owes.raises (fun owes' _ => owes'.Clear) owes (migrateEach migrations) := by
  induction migrations generalizing owes with
  | nil => exact h
  | cons migration rest ih =>
    refine Safe.bind ((Owes.safe_schemaVersion h).imp (fun _ _ h => h) fun owes' recorded htold => ?_)
    refine Safe.bind (p := if migration.version ≤ recorded then Program.pure () else _) ?_
    split
    · exact ih htold.clear
    · have hwrite := owes_batch htold.clear (fencedBatch migration)
      rw [firstVersion_fencedBatch] at hwrite
      exact (Owes.safe_applyVersionedWrite hwrite).imp (fun _ _ h => h) fun _ _ hclear => ih hclear

/-- A migrator returns once it was told its build's version, and throws only what it owes. -/
theorem owes_migrate (build : Build) :
    Safe Owes.rules Owes.raises
      (fun owes' _ => Owes.Told (build.CURRENT_SCHEMA_VERSION statementsOf) owes') (.nothing none)
      (migrate statementsOf build) := by
  refine Safe.bind ((Owes.safe_readSchemaVersion (Owes.clear_nothing none)).imp (fun _ _ h => h)
    fun owes found htold => ?_)
  have hrest : ∀ owes : Owes, owes.Clear → Safe Owes.rules Owes.raises
      (fun owes' _ => Owes.Told (build.CURRENT_SCHEMA_VERSION statementsOf) owes') owes (do
        migrateEach (build.MIGRATIONS statementsOf)
        let version ← schemaVersion
        .ofExcept (requireCurrentSchemaVersion version
          (build.CURRENT_SCHEMA_VERSION statementsOf))) := by
    intro owes h
    refine Safe.bind ((owes_migrateEach h _).imp (fun _ _ h => h) fun owes' _ hclear => ?_)
    exact Safe.bind ((Owes.safe_schemaVersion hclear).imp (fun _ _ h => h) fun owes'' version htold =>
      Owes.safe_require htold)
  refine Safe.bind (p := if found = none then _ else Program.pure ()) ?_
  split
  · exact (Owes.safe_applyVersionedWrite (owes_batch htold.clear bootstrap)).imp (fun _ _ h => h)
      fun owes' _ hclear => hrest owes' hclear
  · exact hrest owes htold.clear

/-- A batch is one call. -/
theorem calls_batch (statements : List Statement) : Calls 1 (batch statements) := by
  intro answer
  cases answer <;> trivial

/-- Each migration takes at most three calls. -/
theorem calls_migrateEach (migrations : List Migration) :
    Calls (3 * migrations.length) (migrateEach migrations) := by
  induction migrations with
  | nil => trivial
  | cons migration rest ih =>
    have hwrite : ∀ recorded, Calls 2 (if migration.version ≤ recorded then Program.pure ()
        else applyVersionedWrite (batch (fencedBatch migration)) migration.version) := by
      intro recorded
      split
      · trivial
      · exact calls_applyVersionedWrite (calls_batch _)
    refine (calls_schemaVersion.bind fun recorded => (hwrite recorded).bind fun _ => ih).mono ?_
    rw [List.length_cons]
    omega

/-- A migrator makes a bounded number of calls. -/
theorem calls_migrate (build : Build) :
    ∃ n, Calls n (migrate statementsOf build) := by
  have hbootstrap : ∀ found : Option ℕ, Calls 2 (if found = none
      then applyVersionedWrite (batch bootstrap) 0 else Program.pure ()) := by
    intro found
    split
    · exact calls_applyVersionedWrite (calls_batch _)
    · trivial
  exact ⟨_, calls_readSchemaVersion.bind fun found => (hbootstrap found).bind fun _ =>
    (calls_migrateEach (build.MIGRATIONS statementsOf)).bind fun _ =>
      calls_schemaVersion.bind fun _ => calls_ofExcept _⟩

/-- What every interleaving keeps. -/
theorem sound {ι : Type} (builds : ι → Build) :
    Sound (rules statementsOf) (fun _ _ => True) (fun _ _ _ => True) (AtVersion statementsOf)
      (fun k db => k ≤ db.recorded) ⟨fresh, fun i => migrate statementsOf (builds i)⟩ :=
  ⟨Or.inl rfl, fun i => ⟨0, Nat.zero_le _, safe_migrate (builds i)⟩⟩

end Fenced

end Durablerun.Admin
