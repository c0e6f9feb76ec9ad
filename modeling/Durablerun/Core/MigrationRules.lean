import Durablerun.Core.Migration

/-!
# What a migrator does with its answers

The version a database has recorded, what a migrator owes after a failed write, and how much it
calls.

Reference: `packages/core/src/schema-version.ts`.
-/

namespace Durablerun.Admin

open Js Program Sessions

variable {statementsOf : ℕ → List String} {db db' : Database} {v n : ℕ}

/-! ## The recorded version -/

/-- A natural number's decimal is canonical. -/
theorem canonical_decimal (n : ℕ) : canonical (decimal n) = true := by
  have hdigits : ∀ u ∈ decimal n, isDigit u := fun u hu => isDigit_of_mem_decimal hu
  cases hn : decimal n with
  | nil => exact absurd hn (decimal_ne_nil n)
  | cons u rest =>
    rw [hn] at hdigits
    cases rest with
    | nil => exact hdigits u List.mem_cons_self
    | cons w rest =>
      have hn0 : n ≠ 0 := by
        rintro rfl
        cases hn
      have hne : Nat.digits 10 n ≠ [] := Nat.digits_ne_nil_iff_ne_zero.mpr hn0
      set d := (Nat.digits 10 n).getLast hne with hd
      have hlast : d ≠ 0 := Nat.getLast_digit_ne_zero 10 hn0
      have hten : d < 10 := Nat.digits_lt_base (by decide) (List.getLast_mem hne)
      -- the first unit is that of the highest digit
      have hu : u = UInt16.ofNat (48 + d) := by
        have hreverse : (Nat.digits 10 n).reverse = d :: (Nat.digits 10 n).dropLast.reverse := by
          conv_lhs => rw [← List.dropLast_append_getLast hne]
          rw [List.reverse_append]
          rfl
        unfold decimal at hn
        rw [if_neg hn0, hreverse] at hn
        exact (List.cons.inj hn).1.symm
      have hrange : (49 ≤ u && u ≤ 57) = true := by
        rw [hu]
        interval_cases d
        · exact absurd rfl hlast
        all_goals decide
      show ((49 ≤ u && u ≤ 57) && (w :: rest).all isDigit) = true
      rw [hrange, Bool.true_and]
      exact List.all_eq_true.mpr fun x hx => hdigits x (List.mem_cons_of_mem u hx)

/-- A version's text is read as the version. -/
theorem decodeVersion_decimal (h : v ≤ 2 ^ 53 - 1) :
    decodeVersion (.ok [[.text (decimal v)]]) = .ok (some v) := by
  have hsafe : (toNumber (decimal v)).safeInteger = some (v : ℤ) := by
    rw [toNumber_decimal (h.trans (Nat.sub_le _ _))]
    exact Number.safeInteger_intCast (n := v) (by simpa using h)
  show (decodeStored (.text (decimal v))).map some = .ok (some v)
  unfold decodeStored
  simp only [canonical_decimal, hsafe, if_true]
  rfl

/-- A database that was never initialized. -/
def fresh : Database := ⟨none, []⟩

/-- The version an answer tells of: zero if it tells of none. -/
def told (answer : Answer) : ℕ :=
  match decodeVersion answer with
  | .ok (some version) => version
  | _ => 0

/-- The version that is recorded. -/
def Database.recorded (db : Database) : ℕ := told db.readVersion

/-! ## What a migrator learns -/

/-- The version a statement advances to. -/
def Statement.advances : Statement → Option ℕ
  | .advance version => some version
  | _ => none

/-- The first version a batch advances to, and zero for a bootstrap. -/
def firstVersion (batch : List Statement) : ℕ := (batch.findSome? Statement.advances).getD 0

/-- A version's batch, its sentinel apart, first advances to the version. -/
theorem firstVersion_schemaStatements (migration : Migration) (rest : List Statement) :
    firstVersion (migration.schemaStatements ++ .advance migration.version :: rest) =
      migration.version := by
  have hnone : migration.schemaStatements.findSome? Statement.advances = none := by
    refine List.findSome?_eq_none_iff.mpr fun statement hstatement => ?_
    obtain ⟨sql, _, rfl⟩ := List.mem_map.mp hstatement
    rfl
  unfold firstVersion
  rw [List.findSome?_append, hnone]
  rfl

/-- A version known to have been recorded: by a read, or by a write that was answered. -/
def learnt (k : ℕ) : Call → Answer → ℕ
  | .version, answer => max k (told answer)
  | .write batch _, .ok _ => max k (firstVersion batch)
  | .write _ _, .error _ => k

/-- An answer that decodes tells the version it decodes to, or 0. -/
theorem told_of_ok {answer : Answer} {version : Option ℕ} (h : decodeVersion answer = .ok version) :
    told answer = version.getD 0 := by
  unfold told
  rw [h]
  cases version <;> rfl

/-- An error other than a missing schema tells no version. -/
theorem told_error {error : Failure} (h : error ≠ .schemaNotInitialized) : told (.error error) = 0 := by
  cases error with
  | schemaNotInitialized => exact absurd rfl h
  | schemaMismatch message => rfl
  | other what => rfl

/-! ## Statements -/

/-- No migration's sentinel is under the version's key. -/
theorem appliedKey_ne (n : ℕ) : appliedKey n ≠ SCHEMA_VERSION_KEY := by
  intro h
  exact absurd (List.cons.inj h).1 (by decide)

/-- Two versions' sentinels have two keys. -/
theorem appliedKey_injective : Function.Injective appliedKey := fun _ _ h =>
  decimal_injective (List.append_cancel_left h)

/-- Running two lists of statements one after the other is running them as one. -/
theorem runAll_append (a b : List Statement) (db : Database) :
    runAll (a ++ b) db = (runAll a db).bind (runAll b) :=
  List.foldlM_append

/-- A version's statements take effect in order. -/
theorem runAll_schemaStatements (migration : Migration) (db : Database) :
    runAll migration.schemaStatements db =
      some { db with effects := db.effects ++ migration.statements.map (migration.version, ·) } := by
  obtain ⟨version, statements⟩ := migration
  induction statements generalizing db with
  | nil =>
    show some db = _
    rw [List.map_nil, List.append_nil]
  | cons sql rest ih =>
    refine (ih { db with effects := db.effects ++ [(version, sql)] }).trans ?_
    rw [List.map_cons, List.append_assoc]
    rfl

/-! ## What becomes of a failed write -/

/-- What a migrator owes: nothing since its last call, a read of the version after a failed write,
or the error itself. -/
inductive Owes where
  | nothing (last : Option (Call × Answer))
  | read (minimum : ℕ) (error : Failure)
  | rethrow (error : Failure)

namespace Owes

/-- After a failed write, a version that is absent or behind has the error thrown. -/
def reread (minimum : ℕ) (error : Failure) (answer : Answer) : Owes :=
  match decodeVersion answer with
  | .ok version =>
    if version.any (minimum ≤ ·) then .nothing (some (.version, answer)) else .rethrow error
  | .error failure => .rethrow failure

/-- A failed write has the version read next. -/
def after : Owes → Call → Answer → Owes
  | .nothing _, .write batch _, .error error => .read (firstVersion batch) error
  | .read minimum error, .version, answer => reread minimum error answer
  | .rethrow error, _, _ => .rethrow error
  | _, op, answer => .nothing (some (op, answer))

def rules : Rules Owes Call Answer where
  may
    | .nothing _, _ => True
    | .read _ _, op => op = .version
    | .rethrow _, _ => False
  learn owes op answer owes' := owes' = owes.after op answer

def raises : Owes → Failure → Prop
  | .nothing _, _ => True
  | .read _ _, _ => False
  | .rethrow error, thrown => thrown = error

def Clear : Owes → Prop
  | .nothing _ => True
  | _ => False

/-- The last call was a version read that told of `version`. -/
def Told (version : ℕ) (owes : Owes) : Prop :=
  ∃ answer found, owes = .nothing (some (.version, answer)) ∧ decodeVersion answer = .ok found ∧
    found.getD 0 = version

variable {owes : Owes} {minimum : ℕ}

/-- A migrator that owes nothing is clear. -/
theorem clear_nothing (last : Option (Call × Answer)) : Clear (.nothing last) := trivial

/-- A migrator that was told a version owes nothing. -/
theorem Told.clear (h : Told v owes) : owes.Clear := by
  obtain ⟨_, _, rfl, _⟩ := h
  trivial

/-- Reading the version tells it. -/
theorem safe_readSchemaVersion (h : owes.Clear) :
    Safe rules raises (fun owes' found => Told (found.getD 0) owes') owes readSchemaVersion := by
  cases owes with
  | nothing last =>
    refine ⟨trivial, fun answer owes' hlearn => ?_⟩
    obtain rfl : owes' = .nothing (some (.version, answer)) := hlearn
    show Safe _ _ _ _ (Program.ofExcept (decodeVersion answer))
    cases hdecoded : decodeVersion answer with
    | error error => trivial
    | ok found => exact ⟨answer, found, rfl, hdecoded, rfl⟩
  | read minimum error => exact h.elim
  | rethrow error => exact h.elim

/-- Reading the version, or its absence, tells it. -/
theorem safe_schemaVersion (h : owes.Clear) :
    Safe rules raises (fun owes' version => Told version owes') owes schemaVersion :=
  (safe_readSchemaVersion h).bind

/-- A write whose failures are of its batch is forgiven by the version alone. -/
theorem safe_applyVersionedWrite {write : Migrator Unit}
    (h : Safe rules (fun owes' error => owes' = .read minimum error) (fun owes' _ => owes'.Clear) owes
      write) :
    Safe rules raises (fun owes' _ => owes'.Clear) owes (applyVersionedWrite write minimum) := by
  refine (h.imp ?_ fun _ _ hclear => hclear).tryCatch
  rintro _ error rfl
  refine ⟨rfl, fun answer owes' hlearn => ?_⟩
  obtain rfl : owes' = reread minimum error answer := hlearn
  show Safe _ _ _ _ ((Program.ofExcept (decodeVersion answer)).bind _)
  unfold reread
  cases decodeVersion answer with
  | error failure => rfl
  | ok version =>
    show Safe _ _ _ _ (if version.any (minimum ≤ ·) then Program.pure () else Program.throw error)
    dsimp only
    split
    · trivial
    · rfl

/-- What is returned is what the last read told. -/
theorem safe_require {version current : ℕ} (h : Told version owes) :
    Safe rules raises (fun owes' _ => Told current owes') owes
      (.ofExcept (requireCurrentSchemaVersion version current)) := by
  unfold requireCurrentSchemaVersion
  obtain ⟨answer, found, rfl, hdecoded, hfound⟩ := h
  split
  · rename_i heq
    exact ⟨answer, found, rfl, hdecoded, hfound.trans heq⟩
  · split <;> trivial

end Owes

/-! ## Builds -/

/-- The version of a build is its newest migration's. -/
theorem Build.CURRENT_SCHEMA_VERSION_eq (build : Build) :
    build.CURRENT_SCHEMA_VERSION statementsOf = build.newest := by
  unfold Build.CURRENT_SCHEMA_VERSION Build.MIGRATIONS
  cases build.newest with
  | zero => rfl
  | succ n =>
    rw [List.range'_concat, List.map_append, List.getLast?_append]
    simp [Nat.add_comm]

/-! ## How many calls a migrator makes -/

section Calls

variable {write : Migrator Unit} {minimum : ℕ}

/-- A result that is already there takes no call. -/
theorem calls_ofExcept {α : Type} (result : Except Failure α) :
    Calls 0 (.ofExcept result : Migrator α) := by
  cases result <;> trivial

/-- Reading the version is one call. -/
theorem calls_readSchemaVersion : Calls 1 readSchemaVersion :=
  fun _ => calls_ofExcept _

/-- Reading the version, or its absence, is one call. -/
theorem calls_schemaVersion : Calls 1 schemaVersion :=
  calls_readSchemaVersion.bind (n := 0) fun _ => trivial

/-- A write under a version check takes one call more. -/
theorem calls_applyVersionedWrite (h : Calls n write) :
    Calls (n + 1) (applyVersionedWrite write minimum) := by
  refine h.tryCatch fun error => calls_readSchemaVersion.bind (n := 0) fun version => ?_
  split <;> trivial

end Calls

end Durablerun.Admin
