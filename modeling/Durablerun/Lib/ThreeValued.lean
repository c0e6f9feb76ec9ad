import Mathlib.Order.Lattice
import Mathlib.Data.Int.Notation

/-!
# Three-valued conditions

A condition of SQL holds, does not, or is unknown. A row passes a condition that holds, and no other.

An `AND` may evaluate both its sides whatever either is. A `CASE` evaluates what follows a condition
only where the condition holds.
-/

namespace ThreeValued

/-! ## Truth -/

/-- What a condition is of a row. -/
inductive Truth where
  | no | unknown | yes
  deriving DecidableEq, Repr

namespace Truth

def ofBool (b : Bool) : Truth := if b then yes else no

protected def not : Truth → Truth
  | no => yes
  | unknown => unknown
  | yes => no

protected def and : Truth → Truth → Truth
  | no, _ => no
  | unknown, no => no
  | unknown, _ => unknown
  | yes, q => q

protected def or : Truth → Truth → Truth
  | yes, _ => yes
  | unknown, yes => yes
  | unknown, _ => unknown
  | no, q => q

/-- Conditions joined by `AND`. -/
def all (ps : List Truth) : Truth := ps.foldr Truth.and yes

/-- Conditions joined by `OR`. -/
def any (ps : List Truth) : Truth := ps.foldr Truth.or no

variable {p q : Truth} {ps : List Truth} {b : Bool}

/-- A condition of two values holds where its truth value does. -/
@[simp] theorem ofBool_eq_yes : ofBool b = yes ↔ b = true := by cases b <;> simp [ofBool]

/-- A negation holds where the condition does not, and not where it is unknown. -/
@[simp] theorem not_eq_yes : p.not = yes ↔ p = no := by cases p <;> simp [Truth.not]

/-- A conjunction holds where both sides do. -/
@[simp] theorem and_eq_yes : p.and q = yes ↔ p = yes ∧ q = yes := by
  cases p <;> cases q <;> simp [Truth.and]

/-- A disjunction holds where a side does. -/
@[simp] theorem or_eq_yes : p.or q = yes ↔ p = yes ∨ q = yes := by
  cases p <;> cases q <;> simp [Truth.or]

/-- A row passes a conjunction where it passes every conjunct. -/
theorem all_eq_yes : all ps = yes ↔ ∀ p ∈ ps, p = yes := by
  induction ps with
  | nil => simp [all]
  | cons p ps ih =>
    rw [List.forall_mem_cons, ← ih]
    exact and_eq_yes

/-- A row passes a disjunction where it passes a disjunct. -/
theorem any_eq_yes : any ps = yes ↔ ∃ p ∈ ps, p = yes := by
  induction ps with
  | nil => simp [any]
  | cons p ps ih =>
    simp only [List.mem_cons, exists_eq_or_imp, ← ih]
    exact or_eq_yes

end Truth

/-! ## Expressions -/

/-- A condition, or a number a `CASE` yields. -/
inductive Kind where
  | condition | number

/-- What an expression of a kind evaluates to. -/
@[reducible] def Kind.Value : Kind → Type
  | condition => Truth
  | number => ℤ

/-- An expression over named conditions. -/
inductive Expr (α : Type) : Kind → Type where
  | atom (a : α) : Expr α .condition
  | true : Expr α .condition
  | and (p q : Expr α .condition) : Expr α .condition
  | equals (e : Expr α .number) (n : ℤ) : Expr α .condition
  | literal (n : ℤ) : Expr α .number
  | caseWhen (p : Expr α .condition) (t e : Expr α .number) : Expr α .number

namespace Expr

variable {α : Type}

/-- What the expression evaluates to on a row. -/
def value (row : α → Truth) : {k : Kind} → Expr α k → k.Value
  | _, .atom a => row a
  | _, .true => .yes
  | _, .and p q => (p.value row).and (q.value row)
  | _, .equals e n => Truth.ofBool (decide (e.value row = n))
  | _, .literal n => n
  | _, .caseWhen p t e => if p.value row = .yes then t.value row else e.value row

/-- Evaluating the expression on a row may evaluate this condition. -/
def Asks (row : α → Truth) (a : α) : {k : Kind} → Expr α k → Prop
  | _, .atom b => a = b
  | _, .true => False
  | _, .and p q => p.Asks row a ∨ q.Asks row a
  | _, .equals e _ => e.Asks row a
  | _, .literal _ => False
  | _, .caseWhen p t e =>
    p.Asks row a ∨ (p.value row = .yes ∧ t.Asks row a) ∨ (p.value row ≠ .yes ∧ e.Asks row a)

/-- Conditions joined by `AND`. -/
def conjunction (ps : List (Expr α .condition)) : Expr α .condition := ps.foldr .and .true

/-- `CASE WHEN p THEN 1 ELSE 0 END`. -/
def flag (p : Expr α .condition) : Expr α .number := .caseWhen p (.literal 1) (.literal 0)

variable {row : α → Truth} {a : α} {p : Expr α .condition} {ps : List (Expr α .condition)}

/-- A named condition is what it is of the row. -/
@[simp] theorem value_atom : (atom a).value row = row a := rfl

/-- A conjunction holds of a row where every conjunct does. -/
theorem value_conjunction :
    (conjunction ps).value row = .yes ↔ ∀ p ∈ ps, p.value row = .yes := by
  induction ps with
  | nil => simp [conjunction, value]
  | cons p ps ih =>
    rw [List.forall_mem_cons, ← ih]
    exact Truth.and_eq_yes

/-- A conjunction asks what its conjuncts ask. -/
theorem asks_conjunction : (conjunction ps).Asks row a ↔ ∃ p ∈ ps, p.Asks row a := by
  induction ps with
  | nil => simp [conjunction, Asks]
  | cons p ps ih =>
    simp only [List.mem_cons, exists_eq_or_imp, ← ih]
    rfl

/-- A flag is 1 exactly where a guard with its condition passes the row. -/
theorem value_flag : p.flag.value row = 1 ↔ p.value row = .yes := by
  by_cases hp : p.value row = .yes <;> simp [flag, value, hp]

/-- A flag asks what its condition asks. -/
theorem asks_flag : p.flag.Asks row a ↔ p.Asks row a := by
  simp [flag, Asks]

/-- What a `CASE` guards it asks only where the guard holds. -/
theorem asks_caseWhen {n : ℤ} {t : Expr α .number} :
    (caseWhen p t (.literal n)).Asks row a ↔
      p.Asks row a ∨ (p.value row = .yes ∧ t.Asks row a) := by
  simp [Asks]

end Expr

end ThreeValued
