import Durablerun.Sql.Fragments

/-!
# Binds of a statement

Two stores find the `?` binds of a statement's text. Each passes over what its database reads as one
lexeme, a literal, a comment or a dollar-quoted string, and counts what is left.

Reference: `packages/store-postgres/src/placeholders.ts`.
-/

namespace Durablerun.Sql

open Js

/-! ## Lexemes -/

/-- The units from inside a quoted text to the end of its closing quote: a doubled quote is one of the
text, and where there are escapes a backslash takes the unit after it. -/
def quoteEnd (quote : UInt16) (escapes : Bool) : Str → ℕ
  | [] => 0
  | u :: rest =>
    match rest with
    | [] => 1
    | v :: rest' =>
      if escapes ∧ u = 92 then 2 + quoteEnd quote escapes rest'
      else if u = quote then if v = quote then 2 + quoteEnd quote escapes rest' else 1
      else 1 + quoteEnd quote escapes (v :: rest')

/-- The units of a line that remain. -/
def lineEnd (s : Str) : ℕ := (s.takeWhile fun u => u ≠ 10 && u ≠ 13).length

/-- The units to the end of a comment that may hold others, at a depth. -/
def nestedCommentEnd : ℕ → Str → ℕ
  | 0, _ => 0
  | _, [] => 0
  | depth + 1, u :: rest =>
    match rest with
    | [] => 1
    | v :: rest' =>
      if u = 47 ∧ v = 42 then 2 + nestedCommentEnd (depth + 2) rest'
      else if u = 42 ∧ v = 47 then 2 + nestedCommentEnd depth rest'
      else 1 + nestedCommentEnd (depth + 1) (v :: rest')

/-- `indexOf` of a text in another, if it is there. -/
def indexOfText (pattern : Str) : Str → Option ℕ
  | [] => if pattern = [] then some 0 else none
  | u :: rest =>
    if pattern <+: u :: rest then some 0 else (indexOfText pattern rest).map (· + 1)

/-! ## PostgreSQL -/

def isIdentifierContinuation (u : UInt16) : Bool := isWord u || u = 36 || 0x80 ≤ u

/-- The delimiter that starts at the cursor, the units before it being given last first. -/
def dollarQuoteDelimiter (before : Str) : Str → Option Str
  | [] => none
  | u :: rest =>
    if u ≠ 36 ∨ before.head?.any isIdentifierContinuation then none
    else if rest.head? = some 36 then some [36, 36]
    else if rest.head?.any fun first => isLetter first || first = 95 then
      let name := rest.takeWhile isWord
      if (rest.drop name.length).head? = some 36 then some (36 :: (name ++ [36])) else none
    else none

/-- Whether a quote at the cursor opens a string with escapes. -/
def isEscapeString (quote : UInt16) (before : Str) : Bool :=
  quote = 39 && before.head?.any (fun u => u = 69 || u = 101) &&
    !(before.drop 1).head?.any isIdentifierContinuation

/-- The length of the lexeme at the cursor that is passed over: zero if there is none. -/
def postgresLexeme (before : Str) : Str → ℕ
  | [] => 0
  | u :: rest =>
    if u = 39 ∨ u = 34 then 1 + quoteEnd u (isEscapeString u before) rest
    else if u = 45 ∧ rest.head? = some 45 then 2 + lineEnd (rest.drop 1)
    else if u = 47 ∧ rest.head? = some 42 then 2 + nestedCommentEnd 1 (rest.drop 1)
    else match dollarQuoteDelimiter before (u :: rest) with
      | none => 0
      | some delimiter =>
        let body := (u :: rest).drop delimiter.length
        match indexOfText delimiter body with
        | none => (u :: rest).length
        | some close => delimiter.length + close + delimiter.length

structure CompiledPostgresSql where
  sql : Str
  parameterCount : ℕ
  deriving DecidableEq

/-- The loop of `compilePostgresPlaceholders`: `skip` units of a lexeme are copied. -/
def compileFrom : ℕ → ℕ → Str → Str → CompiledPostgresSql
  | _, count, _, [] => ⟨[], count⟩
  | skip + 1, count, before, u :: rest =>
    let compiled := compileFrom skip count (u :: before) rest
    { compiled with sql := u :: compiled.sql }
  | 0, count, before, u :: rest =>
    match postgresLexeme before (u :: rest) with
    | length + 1 =>
      let compiled := compileFrom length count (u :: before) rest
      { compiled with sql := u :: compiled.sql }
    | 0 =>
      if u = 63 then
        let compiled := compileFrom 0 (count + 1) (u :: before) rest
        { compiled with sql := 36 :: decimal (count + 1) ++ compiled.sql }
      else
        let compiled := compileFrom 0 count (u :: before) rest
        { compiled with sql := u :: compiled.sql }

/-- Compile `?` binds to the parameters `$1`, `$2` and so on. -/
def compilePostgresPlaceholders (sql : Str) : CompiledPostgresSql := compileFrom 0 0 [] sql

/-! ## MySQL -/

/-- The length of the lexeme at the cursor that is passed over: zero if there is none. -/
def mysqlLexeme : Str → ℕ
  | [] => 0
  | u :: rest =>
    if u = 39 ∨ u = 34 ∨ u = 96 then 1 + quoteEnd u (u ≠ 96) rest
    else if u = 35 ∨ u = 45 ∧ rest.head? = some 45 then lineEnd (u :: rest)
    else if u = 47 ∧ rest.head? = some 42 then
      match indexOfText (units "*/") (rest.drop 1) with
      | none => (u :: rest).length
      | some close => 2 + close + 2
    else 0

/-- The loop of `countMysqlPlaceholders`: `skip` units of a lexeme are passed over. -/
def countFrom : ℕ → Str → ℕ
  | _, [] => 0
  | skip + 1, _ :: rest => countFrom skip rest
  | 0, u :: rest =>
    match mysqlLexeme (u :: rest) with
    | length + 1 => countFrom length rest
    | 0 => (if u = 63 then 1 else 0) + countFrom 0 rest

/-- Count the `?` binds of a statement. -/
def countMysqlPlaceholders (sql : Str) : ℕ := countFrom 0 sql

end Durablerun.Sql
