import Durablerun.Lib.JsString
import Mathlib.Data.List.Infix

/-!
# Fragments of SQL text

A fragment is placed in a statement tree as text, split at its binds, its clock tokens and its fence
tokens. The text is not read as SQL beyond its single-quoted literals, so what would hide a token from
that reading is refused.

A quote is the unit 39, a question mark 63 and a dollar sign 36.

Reference: `packages/core/src/sql-tree.ts` and `packages/core/src/engine-tokens.ts`.
-/

namespace Durablerun.Sql

open Js

def STAMP : Str := units "$STAMP$"

def NOW : Str := units "$NOW$"

def FENCE_PREFIX : Str := units "$FENCE:"

/-! ## Literals -/

def isLetter (u : UInt16) : Bool := 65 ≤ u && u ≤ 90 || 97 ≤ u && u ≤ 122

/-- A text read once: its literals' contents, everything outside them, and whether a literal follows a
letter or an ampersand. -/
structure Reading where
  literals : List Str
  outside : Str
  prefixed : Bool
  deriving DecidableEq

mutual

/-- The loop of `readFragment`, after the unit before the cursor if there is one. -/
def readOutside (before : Option UInt16) : Str → Reading
  | [] => ⟨[], [], false⟩
  | u :: rest =>
    if u = 39 then
      let (literal, reading) := readLiteral rest
      { literals := literal :: reading.literals
        outside := 39 :: 39 :: reading.outside
        prefixed := before.any (fun v => isLetter v || v = 38) || reading.prefixed }
    else
      let reading := readOutside (some u) rest
      { reading with outside := u :: reading.outside }

/-- The loop inside a literal, and what follows it. -/
def readLiteral : Str → Str × Reading
  | [] => ([], ⟨[], [], false⟩)
  | u :: rest =>
    if u = 39 then
      match rest with
      | [] => ([], ⟨[], [], false⟩)
      | v :: rest' =>
        if v = 39 then
          let (literal, reading) := readLiteral rest'
          (39 :: literal, reading)
        else ([], readOutside (some 39) (v :: rest'))
    else
      let (literal, reading) := readLiteral rest
      (u :: literal, reading)

end

def readFragment (sql : Str) : Reading := readOutside none sql

/-- A fragment's text outside its string literals, with each literal left as `''`. -/
def fragmentOutsideLiterals (sql : Str) : Str := (readFragment sql).outside

/-- How many arguments a fragment's text binds. -/
def fragmentBinds (sql : Str) : ℕ := (fragmentOutsideLiterals sql).count 63

/-! ## Groups -/

/-- The loop of `isOneGroup`: the text ends where its first group does. -/
def closesAtEnd : ℕ → Str → Bool
  | _, [] => false
  | depth, u :: rest =>
    if u = 40 then closesAtEnd (depth + 1) rest
    else if u = 41 then if depth = 1 then rest = [] else closesAtEnd (depth - 1) rest
    else closesAtEnd depth rest

/-- Whether the text outside literals is one parenthesized group. -/
def isOneGroup (outside : Str) : Bool :=
  let text := trim outside
  startsWith text (units "(") && closesAtEnd 0 text

/-! ## Tokens -/

def isWord (u : UInt16) : Bool := isLetter u || isDigit u || u = 95

/-- A unit of the name of a fence's statement. -/
def isNameUnit (u : UInt16) : Bool := isWord u || u = 45

/-- The name of a fence's statement. -/
structure FenceName where
  text : Str
  nonempty : text ≠ []
  allowed : ∀ u ∈ text, isNameUnit u
  deriving DecidableEq

/-- A token of a fragment's text. -/
inductive Token where
  | bind
  | now
  | fence (name : FenceName)
  deriving DecidableEq

/-- The name in a fence token the text starts with. -/
def fenceAt (s : Str) : Option FenceName :=
  let name := (s.drop FENCE_PREFIX.length).takeWhile isNameUnit
  if h : FENCE_PREFIX <+: s ∧ name ≠ [] ∧
      (s.drop (FENCE_PREFIX.length + name.length)).head? = some 36 then
    some ⟨name, h.2.1, fun _ hu => List.mem_takeWhile_imp hu⟩
  else none

/-- The text of a token. -/
def Token.source : Token → Str
  | .bind => [63]
  | .now => NOW
  | .fence name => FENCE_PREFIX ++ name.text ++ [36]

/-- The token the text starts with. -/
def tokenAt (s : Str) : Option Token :=
  if s.head? = some 63 then some .bind
  else if NOW <+: s then some .now
  else (fenceAt s).map .fence

/-- A text without the matches of a pattern, from left to right. The pattern gives the length of a
match at the start, and `skip` units of the last one are passed over. -/
def without (matchAt : Str → ℕ) : ℕ → Str → Str
  | _, [] => []
  | skip + 1, _ :: rest => without matchAt skip rest
  | 0, u :: rest =>
    match matchAt (u :: rest) with
    | 0 => u :: without matchAt 0 rest
    | length + 1 => without matchAt length rest

def withoutFences : Str → Str :=
  without (fun s => ((fenceAt s).map fun name => (Token.fence name).source.length).getD 0) 0

def withoutNow : Str → Str := without (fun s => if NOW <+: s then NOW.length else 0) 0

/-- What starts as a dollar-quoted string does, anywhere. -/
def holdsDollarQuote : Str → Bool
  | [] => false
  | u :: rest =>
    (u = 36 && (rest.dropWhile isWord).head? = some 36) || holdsDollarQuote rest

/-! ## Fragments -/

/-- Where a fragment stands. -/
inductive RawRole where
  | predicate
  | subquery
  | value
  deriving DecidableEq

structure ParsedFragment where
  pieces : List Str
  tokens : List Token
  deriving DecidableEq

/-- The text split at its tokens, from left to right; `skip` units of the last one are passed over. -/
def splitAtTokens : ℕ → Str → ParsedFragment
  | _, [] => ⟨[[]], []⟩
  | skip + 1, _ :: rest => splitAtTokens skip rest
  | 0, u :: rest =>
    match tokenAt (u :: rest) with
    | some token =>
      let split := splitAtTokens (token.source.length - 1) rest
      ⟨[] :: split.pieces, token :: split.tokens⟩
    | none =>
      let split := splitAtTokens 0 rest
      ⟨(u :: split.pieces.headD []) :: split.pieces.tail, split.tokens⟩

/-- Validate a fragment's text for its role and split it at its binds, clock tokens and fence
tokens. -/
def parseFragment (sql : Str) (role : RawRole) : Except String ParsedFragment :=
  let reading := readFragment sql
  let fenceless := withoutFences reading.outside
  if STAMP <:+: sql then
    .error "a SQL fragment may not hold the stamp token: a tree assigns the stamp as a node"
  else if FENCE_PREFIX <:+: fenceless then
    .error "a SQL fragment holds a malformed fence token"
  else if units "--" <:+: reading.outside ∨ units "/*" <:+: reading.outside then
    .error "a SQL fragment may not hold a comment: its text is split without reading SQL"
  else if reading.prefixed ∨ holdsDollarQuote (withoutNow fenceless) then
    .error ("a SQL fragment may use only plain single-quoted literals: its text is split without " ++
      "reading SQL")
  else if 36 ∈ withoutNow fenceless then
    .error "a SQL fragment holds a malformed fence token or a stray $"
  else if reading.literals.any fun literal =>
      63 ∈ literal ∨ NOW <:+: literal ∨ FENCE_PREFIX <:+: literal then
    .error ("a SQL fragment may not hold a bind, the clock token, or a fence token inside a string " ++
      "literal: its text is split without reading SQL")
  else if role = .subquery ∧ ¬ isOneGroup reading.outside then
    .error "a subquery fragment must be one parenthesized group"
  else .ok (splitAtTokens 0 sql)

end Durablerun.Sql
