import Durablerun.Lib.JsString
import Durablerun.Lib.Program

/-!
# Migrations

`migrate()` of each store is a program that reads the recorded version and sends batches of
statements. The version read, the forgiveness of a failed write and the last check are core's;
libSQL and PostgreSQL send each version as one transaction behind a sentinel row, and MySQL, where
every statement commits alone, sends all that is pending and advances each version from the one
before it.

Reference: `packages/core/src/schema-version.ts`, `packages/store-libsql/src/admin.ts` and
`packages/store-mysql/src/admin.ts`.
-/

namespace Durablerun.Admin

open Js

/-! ## The database -/

/-- The statements a migration sends. -/
inductive Statement where
  /-- `CREATE TABLE IF NOT EXISTS meta` -/
  | createMeta
  /-- `INSERT INTO meta … ('schema_version', '0') ON CONFLICT (key) DO NOTHING` -/
  | insertVersionZero
  /-- `CREATE TABLE IF NOT EXISTS meta … AS SELECT 'schema_version', '0'` -/
  | createMetaWithVersionZero
  /-- `INSERT INTO meta … ('applied:vN', '1')` -/
  | insertApplied (version : ℕ)
  /-- A statement of a version. -/
  | schema (version : ℕ) (sql : String)
  /-- `UPDATE meta SET value = 'N' WHERE key = 'schema_version' AND value = 'N - 1'` -/
  | advance (version : ℕ)

/-- The rows of `meta`, once it exists, and the statements of versions that took effect. -/
structure Database where
  metaRows : Option (List (Str × Str))
  effects : List (ℕ × String)

def SCHEMA_VERSION_KEY : Str := units "schema_version"

def appliedKey (version : ℕ) : Str := units "applied:v" ++ decimal version

/-- A row under a primary key, unless the key is taken. -/
def insertRow (rows : List (Str × Str)) (row : Str × Str) : Option (List (Str × Str)) :=
  if rows.any (·.1 = row.1) then none else some (rows ++ [row])

/-- The row of the schema version, advanced from the one before. -/
def advanceRow (version : ℕ) (row : Str × Str) : Str × Str :=
  if row.1 = SCHEMA_VERSION_KEY ∧ row.2 = decimal (version - 1) then (row.1, decimal version) else row

/-- A statement on its own, if the database accepts it. -/
def Statement.run (db : Database) : Statement → Option Database
  | .createMeta => some { db with metaRows := some (db.metaRows.getD []) }
  | .insertVersionZero => db.metaRows.map fun rows =>
    { db with metaRows := some ((insertRow rows (SCHEMA_VERSION_KEY, decimal 0)).getD rows) }
  | .createMetaWithVersionZero =>
    some { db with metaRows := some (db.metaRows.getD [(SCHEMA_VERSION_KEY, decimal 0)]) }
  | .insertApplied version => do
    let rows ← insertRow (← db.metaRows) (appliedKey version, decimal 1)
    return { db with metaRows := some rows }
  | .schema version sql => some { db with effects := db.effects ++ [(version, sql)] }
  | .advance version => db.metaRows.map fun rows =>
    { db with metaRows := some (rows.map (advanceRow version)) }

/-- Statements in one transaction. -/
def runAll (statements : List Statement) (db : Database) : Option Database :=
  statements.foldlM Statement.run db

/-! ## Reading the version -/

/-- What a call rejects with. -/
inductive Failure where
  | schemaNotInitialized
  | schemaMismatch (message : Str)
  | other (what : String)

/-- A value of a result's column: a text, or a value of another kind. -/
inductive Stored where
  | text (s : Str)
  | other (kind : String)

def storageValueKind : Stored → String
  | .text _ => "string"
  | .other kind => kind

/-- The rows of a statement's result, of one column. -/
abbrev SqlResult := List Stored

abbrev Answer := Except Failure (List SqlResult)

/-- `/^(0|[1-9][0-9]*)$/` -/
def canonical : Str → Bool
  | [] => false
  | [u] => isDigit u
  | u :: rest => 49 ≤ u && u ≤ 57 && rest.all isDigit

/-- A stored version: a canonical text of a safe integer. -/
def decodeStored : Stored → Except Failure ℕ
  | .text stored =>
    if canonical stored then
      match (toNumber stored).safeInteger with
      | some version => .ok version.toNat
      | none => .error (.schemaMismatch
        (units "schema_version is outside the safe integer range: " ++ stored))
    else .error (notCanonical (.text stored))
  | stored => .error (notCanonical stored)
where
  notCanonical (stored : Stored) : Failure := .schemaMismatch
    (units "schema_version must be a canonical nonnegative integer, got " ++
      units (storageValueKind stored))

/-- What `readSchemaVersion` makes of the answer to the read: absent, a version, or an error. -/
def decodeVersion : Answer → Except Failure (Option ℕ)
  | .error .schemaNotInitialized => .ok none
  | .error error => .error error
  | .ok [[stored]] => (decodeStored stored).map some
  | .ok results => .error (.schemaMismatch
    (units "schema-version read must return exactly one result with one row, got " ++
      decimal results.length ++ units " results and " ++ decimal (results.head?.getD []).length ++
      units " rows"))

/-- The answer of the version read: the rows of `meta` under its key, if there is a `meta`. -/
def Database.readVersion (db : Database) : Answer :=
  match db.metaRows with
  | none => .error .schemaNotInitialized
  | some rows => .ok [(rows.filter (·.1 = SCHEMA_VERSION_KEY)).map fun row => .text row.2]

/-! ## Migrators -/

/-- A batch the executor is sent: the version read, or statements that are sent together, of a batch
that may hold more. -/
inductive Call where
  | version
  | write (batch statements : List Statement)

abbrev Migrator := Program Call Answer Failure

def readSchemaVersion : Migrator (Option ℕ) :=
  .call .version fun answer => .ofExcept (decodeVersion answer)

def schemaVersion : Migrator ℕ := do
  let version ← readSchemaVersion
  pure (version.getD 0)

/-- A write that failed is forgiven if the version has reached `minimumVersion`. -/
def applyVersionedWrite (write : Migrator Unit) (minimumVersion : ℕ) : Migrator Unit :=
  write.tryCatch fun error => do
    let version ← readSchemaVersion
    if version.any (minimumVersion ≤ ·) then pure () else .throw error

def requireCurrentSchemaVersion (version current : ℕ) : Except Failure Unit :=
  if version = current then .ok ()
  else if version > current then .error (.schemaMismatch
    (units "the schema is recorded at version " ++ decimal version ++
      units " and this build knows versions up to " ++ decimal current ++
      units (": a newer build migrated this database, which needs no repair. " ++
        "Run that build or a later one")))
  else .error (.schemaMismatch
    (units "migrate finished with the schema recorded at version " ++ decimal version ++
      units ", expected " ++ decimal current ++
      units " — the database is in an inconsistent state and must be repaired by hand"))

/-! ## Builds -/

structure Migration where
  version : ℕ
  statements : List String

/-- A build of a line of builds: it knows versions up to some number. -/
structure Build where
  newest : ℕ
  safe : newest ≤ 2 ^ 53 - 1

/-- The `MIGRATIONS` of a build, given the statements of each version. -/
def Build.MIGRATIONS (statementsOf : ℕ → List String) (build : Build) : List Migration :=
  (List.range' 1 build.newest).map fun version => ⟨version, statementsOf version⟩

def Build.CURRENT_SCHEMA_VERSION (statementsOf : ℕ → List String) (build : Build) : ℕ :=
  ((build.MIGRATIONS statementsOf).getLast?.map Migration.version).getD 0

def Migration.schemaStatements (migration : Migration) : List Statement :=
  migration.statements.map (.schema migration.version)

/-! ## libSQL and PostgreSQL -/

namespace Fenced

/-- A batch is one transaction. -/
def batch (statements : List Statement) : Migrator Unit :=
  .call (.write statements statements) fun
    | .ok _ => .pure ()
    | .error error => .throw error

def bootstrap : List Statement := [.createMeta, .insertVersionZero]

def fencedBatch (migration : Migration) : List Statement :=
  .insertApplied migration.version :: migration.schemaStatements ++ [.advance migration.version]

/-- The loop over the versions. -/
def migrateEach : List Migration → Migrator Unit
  | [] => pure ()
  | migration :: rest => do
    let recorded ← schemaVersion
    (if migration.version ≤ recorded then pure ()
      else applyVersionedWrite (batch (fencedBatch migration)) migration.version)
    migrateEach rest

def migrate (statementsOf : ℕ → List String) (build : Build) : Migrator Unit := do
  let found ← readSchemaVersion
  (if found = none then applyVersionedWrite (batch bootstrap) 0 else pure ())
  migrateEach (build.MIGRATIONS statementsOf)
  let version ← schemaVersion
  .ofExcept (requireCurrentSchemaVersion version (build.CURRENT_SCHEMA_VERSION statementsOf))

end Fenced

/-! ## MySQL -/

namespace Alone

/-- Every statement of a batch commits on its own, up to the first that fails. -/
def batch (statements : List Statement) : Migrator Unit := send statements
where
  send : List Statement → Migrator Unit
    | [] => .pure ()
    | statement :: rest => .call (.write statements [statement]) fun
      | .ok _ => send rest
      | .error error => .throw error

def bootstrap : List Statement := [.createMetaWithVersionZero]

def versionBatch (migrations : List Migration) : List Statement :=
  migrations.flatMap fun migration => migration.schemaStatements ++ [.advance migration.version]

/-- The planning loop. -/
def plan (statementsOf : ℕ → List String) (build : Build) (recorded : ℕ) : Migrator ℕ :=
  if recorded < build.CURRENT_SCHEMA_VERSION statementsOf then
    applyVersionedWrite (batch (versionBatch ((build.MIGRATIONS statementsOf).filter
      (recorded < ·.version)))) (recorded + 1) >>= fun _ =>
    schemaVersion >>= fun version =>
    if version ≤ recorded then pure version else plan statementsOf build version
  else pure recorded
termination_by build.CURRENT_SCHEMA_VERSION statementsOf - recorded

def migrate (statementsOf : ℕ → List String) (build : Build) : Migrator Unit := do
  let found ← readSchemaVersion
  (if found = none then applyVersionedWrite (batch bootstrap) 0 else pure ())
  let recorded ← found.elim schemaVersion pure
  let recorded ← plan statementsOf build recorded
  .ofExcept (requireCurrentSchemaVersion recorded (build.CURRENT_SCHEMA_VERSION statementsOf))

end Alone

/-! ## What the executor does -/

/-- A call takes effect, or fails before it does, or fails after. The version read is told that
there is no `meta` only where there is none. -/
inductive Exec : Call → Database → Answer → Database → Prop
  | read (db) : Exec .version db db.readVersion db
  | readFails (db) (error : Failure) (h : error ≠ .schemaNotInitialized) :
    Exec .version db (.error error) db
  | applied {batch statements db db'} (h : runAll statements db = some db') :
    Exec (.write batch statements) db (.ok []) db'
  | lost {batch statements db db'} (h : runAll statements db = some db') (error : Failure) :
    Exec (.write batch statements) db (.error error) db'
  | failed {batch statements} (db) (error : Failure) : Exec (.write batch statements) db (.error error) db

end Durablerun.Admin
