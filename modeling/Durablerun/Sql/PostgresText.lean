import Durablerun.Sql.Lexemes
import Durablerun.Sql.Placeholders

/-!
# What PostgreSQL passes over

PostgreSQL's lexical rules, as relations on the lexemes of a fragment: a literal, a line comment, a
comment that may hold others, and a dollar-quoted string. A token is one lexeme in them, and no unit of
it is read for itself. The store's loop passes over what these rules pass over, so whether it sees every
bind and fence is told from the fragment.

Reference: `packages/store-postgres/src/placeholders.ts`.
-/

namespace Durablerun.Sql

open Js

/-! ## The rules -/

/-- A quoted text from inside it, with its closing quote if it has one, and what follows it. A doubled
quote is one of the text. -/
inductive Quoted : List Lexeme → List Lexeme → Prop
  | unclosed : Quoted [] []
  | closed {rest : List Lexeme} (h : rest.head? ≠ some (.inl 39)) : Quoted [.inl 39] rest
  | doubled {body rest : List Lexeme} (h : Quoted body rest) :
      Quoted (.inl 39 :: .inl 39 :: body) rest
  | more {x : Lexeme} {body rest : List Lexeme} (hx : x ≠ .inl 39) (h : Quoted body rest) :
      Quoted (x :: body) rest

/-- A line that remains, and what follows it. -/
structure Line (body rest : List Lexeme) : Prop where
  inside : ∀ x ∈ body, x ≠ .inl 10 ∧ x ≠ .inl 13
  after : ∀ x ∈ rest.head?, x = .inl 10 ∨ x = .inl 13

/-- A comment from inside it, by how many comments are open, and what follows it. -/
inductive Commented : ℕ → List Lexeme → List Lexeme → Prop
  | ended {rest : List Lexeme} : Commented 0 [] rest
  | unclosed {depth : ℕ} : Commented (depth + 1) [] []
  | opens {depth : ℕ} {body rest : List Lexeme} (h : Commented (depth + 2) body rest) :
      Commented (depth + 1) (.inl 47 :: .inl 42 :: body) rest
  | closes {depth : ℕ} {body rest : List Lexeme} (h : Commented depth body rest) :
      Commented (depth + 1) (.inl 42 :: .inl 47 :: body) rest
  | more {depth : ℕ} {x : Lexeme} {body rest : List Lexeme}
      (hopens : ¬ [.inl 47, .inl 42] <+: x :: (body ++ rest))
      (hcloses : ¬ [.inl 42, .inl 47] <+: x :: (body ++ rest))
      (h : Commented (depth + 1) body rest) : Commented (depth + 1) (x :: body) rest

/-- The tag of a dollar-quoted string: empty, or a word that starts with no digit. -/
structure IsTag (tag : Str) : Prop where
  word : ∀ u ∈ tag, isWord u
  first : ∀ u ∈ tag.head?, isLetter u ∨ u = 95

/-- The units of a dollar-quoted string's delimiter. -/
def delimiterUnits (tag : Str) : Str := 36 :: (tag ++ [36])

/-- The delimiter, as lexemes. -/
def delimiter (tag : Str) : List Lexeme := (delimiterUnits tag).map .inl

/-- A dollar-quoted string from inside it, to the first delimiter after it or the end, and what follows
it. -/
inductive DollarQuoted (delimiter : List Lexeme) : List Lexeme → List Lexeme → Prop
  | closed {inner rest : List Lexeme} (h : ¬ delimiter <:+: (inner ++ delimiter).dropLast) :
      DollarQuoted delimiter (inner ++ delimiter) rest
  | unclosed {body : List Lexeme} (h : ¬ delimiter <:+: body) : DollarQuoted delimiter body []

/-- Whether an identifier goes on after a lexeme. -/
def continues : Option Lexeme → Bool
  | some (.inl u) => isIdentifierContinuation u
  | _ => false

/-- What is passed over after a lexeme, and what follows it. -/
inductive Passed (before : Option Lexeme) : List Lexeme → List Lexeme → Prop
  | literal {body rest : List Lexeme} (h : Quoted body rest) : Passed before (.inl 39 :: body) rest
  | line {body rest : List Lexeme} (h : Line body rest) :
      Passed before (.inl 45 :: .inl 45 :: body) rest
  | comment {body rest : List Lexeme} (h : Commented 1 body rest) :
      Passed before (.inl 47 :: .inl 42 :: body) rest
  | dollar {tag : Str} {body rest : List Lexeme} (hbefore : continues before = false)
      (htag : IsTag tag) (h : DollarQuoted (delimiter tag) body rest) :
      Passed before (delimiter tag ++ body) rest

/-- No bind and no fence is passed over, in what follows a lexeme. -/
inductive Shows : Option Lexeme → List Lexeme → Prop
  | done {before : Option Lexeme} : Shows before []
  | passed {before : Option Lexeme} {hidden rest : List Lexeme} (h : Passed before hidden rest)
      (hnone : ∀ token, .inr token ∈ hidden → token = .now) (hrest : Shows hidden.getLast? rest) :
      Shows before (hidden ++ rest)
  | read {before : Option Lexeme} {x : Lexeme} {xs : List Lexeme}
      (h : ∀ hidden rest, Passed before hidden rest → hidden ++ rest ≠ x :: xs)
      (hrest : Shows (some x) xs) : Shows before (x :: xs)

/-- PostgreSQL passes over no bind and no fence of a fragment. -/
def PostgresShows (sql : Str) : Prop := Shows none (lexemes 0 sql)

/-- The split of a fragment leaves no dollar sign outside its literals. -/
def NoDollarLeft (sql : Str) : Prop := .inl 36 ∉ (lexOutside (lexemes 0 sql)).2

instance : DecidablePred NoDollarLeft := fun _ =>
  @instDecidableNot _ (@List.instDecidableMemOfLawfulBEq Lexeme instBEqOfDecidableEq inferInstance _ _)

/-! ## Something of each kind follows its opening -/

/-- Every text has a quoted part, to its quote or to the end. -/
theorem Quoted.exists (xs : List Lexeme) : ∃ body rest, xs = body ++ rest ∧ Quoted body rest := by
  refine (read_induction (q := .inl 39) (P := fun _ => True)
    (Q := fun xs => ∃ body rest, xs = body ++ rest ∧ Quoted body rest) trivial
    (fun _ _ => trivial) (fun _ _ _ _ => trivial) ⟨[], [], rfl, .unclosed⟩
    ⟨[.inl 39], [], rfl, .closed (by simp)⟩ ?_ ?_ ?_ xs).2
  · rintro rest ⟨body, after, rfl, h⟩
    exact ⟨_, after, rfl, h.doubled⟩
  · intro y rest hy _
    exact ⟨[.inl 39], y :: rest, rfl, .closed fun h => hy (Option.some.inj h)⟩
  · rintro x rest hx ⟨body, after, rfl, h⟩
    exact ⟨_, after, rfl, h.more hx⟩

/-- Every text has a first line, to its end or to the text's. -/
theorem Line.exists (xs : List Lexeme) : ∃ body rest, xs = body ++ rest ∧ Line body rest := by
  induction xs with
  | nil => exact ⟨[], [], rfl, fun _ h => absurd h List.not_mem_nil, fun _ h => absurd h (by simp)⟩
  | cons x xs ih =>
    by_cases hx : x = .inl 10 ∨ x = .inl 13
    · refine ⟨[], x :: xs, rfl, fun _ h => absurd h List.not_mem_nil, fun y hy => ?_⟩
      obtain rfl := Option.some.inj hy
      exact hx
    · obtain ⟨body, rest, rfl, h⟩ := ih
      refine ⟨x :: body, rest, rfl, fun y hy => ?_, h.after⟩
      obtain rfl | hy := List.mem_cons.mp hy
      · exact not_or.mp hx
      · exact h.inside y hy

/-- Every text has a commented part, to its comment's end or to the text's. -/
theorem Commented.exists (depth : ℕ) (xs : List Lexeme) :
    ∃ body rest, xs = body ++ rest ∧ Commented depth body rest := by
  -- A comment opens and closes by two units, so two lexemes are read at a time.
  induction hlength : xs.length using Nat.strong_induction_on generalizing depth xs with
  | _ n ih =>
    subst hlength
    cases depth with
    | zero => exact ⟨[], xs, rfl, .ended⟩
    | succ depth =>
      cases xs with
      | nil => exact ⟨[], [], rfl, .unclosed⟩
      | cons x xs =>
        by_cases hopens : [.inl 47, .inl 42] <+: x :: xs
        · obtain ⟨ys, hys⟩ := hopens
          obtain ⟨body, rest, rfl, h⟩ := ih ys.length (by simp [← hys]) (depth + 2) ys rfl
          exact ⟨_, rest, hys.symm, h.opens⟩
        · by_cases hcloses : [.inl 42, .inl 47] <+: x :: xs
          · obtain ⟨ys, hys⟩ := hcloses
            obtain ⟨body, rest, rfl, h⟩ := ih ys.length (by simp [← hys]) depth ys rfl
            exact ⟨_, rest, hys.symm, h.closes⟩
          · obtain ⟨body, rest, rfl, h⟩ := ih xs.length (Nat.lt_succ_self _) (depth + 1) xs rfl
            exact ⟨x :: body, rest, rfl, h.more hopens hcloses⟩

/-- A list that holds another holds a first one. -/
theorem exists_first_infix {α : Type} {pattern xs : List α} (hne : pattern ≠ [])
    (h : pattern <:+: xs) :
    ∃ inner rest, xs = inner ++ pattern ++ rest ∧ ¬ pattern <:+: (inner ++ pattern).dropLast := by
  induction xs with
  | nil => exact absurd (List.infix_nil.mp h) hne
  | cons x xs ih =>
    by_cases hstarts : pattern <+: x :: xs
    · obtain ⟨rest, hrest⟩ := hstarts
      refine ⟨[], rest, hrest.symm, fun hinfix => ?_⟩
      have hle := hinfix.length_le
      have hpos := List.length_pos_of_ne_nil hne
      rw [List.nil_append, List.length_dropLast] at hle
      omega
    · obtain ⟨inner, rest, rfl, hfirst⟩ := ih ((List.infix_cons_iff.mp h).resolve_left hstarts)
      refine ⟨x :: inner, rest, rfl, fun hinfix => ?_⟩
      have hdrop : (x :: inner ++ pattern).dropLast = x :: (inner ++ pattern).dropLast :=
        List.dropLast_cons_of_ne_nil (List.append_ne_nil_of_right_ne_nil _ hne)
      rw [hdrop, List.infix_cons_iff] at hinfix
      refine hinfix.elim (fun hstart => hstarts (hstart.trans ?_)) hfirst
      refine (List.cons_prefix_cons.mpr ⟨rfl, ?_⟩)
      exact (List.dropLast_prefix _).trans (List.prefix_append _ _)

/-- Every text has a dollar-quoted part, to its delimiter or to the end. -/
theorem DollarQuoted.exists {delimiter : List Lexeme} (hne : delimiter ≠ []) (xs : List Lexeme) :
    ∃ body rest, xs = body ++ rest ∧ DollarQuoted delimiter body rest := by
  by_cases h : delimiter <:+: xs
  · obtain ⟨inner, rest, rfl, hfirst⟩ := exists_first_infix hne h
    exact ⟨inner ++ delimiter, rest, rfl, .closed hfirst⟩
  · exact ⟨xs, [], (List.append_nil xs).symm, .unclosed h⟩

/-! ## The store's loop -/

/-- The units PostgreSQL reads inside its literals, comments and dollar-quoted strings; `skip` units of
one remain. -/
def quotedFrom : ℕ → Str → Str → Str
  | _, _, [] => []
  | skip + 1, before, u :: rest => u :: quotedFrom skip (u :: before) rest
  | 0, before, u :: rest =>
    match postgresLexeme before (u :: rest) with
    | length + 1 => u :: quotedFrom length (u :: before) rest
    | 0 => quotedFrom 0 (u :: before) rest

/-- The units of a statement that PostgreSQL reads inside its literals, comments and dollar-quoted
strings. -/
def postgresQuoted (sql : Str) : Str := quotedFrom 0 [] sql

/-- What parts the readers: a double quote, a backquote, a backslash, a hash. -/
def Plain (s : Str) : Prop := ∀ u ∈ s, u ≠ 34 ∧ u ≠ 96 ∧ u ≠ 92 ∧ u ≠ 35

instance : DecidablePred Plain := fun s =>
  List.decidableBAll (fun u => u ≠ 34 ∧ u ≠ 96 ∧ u ≠ 92 ∧ u ≠ 35) s

/-- A token is spelled by units that PostgreSQL reads nothing into, and a bind and a fence by what is
bound. -/
structure Inert (target : Token → Str) : Prop where
  units : ∀ token, ∀ u ∈ target token, u ∉ ([39, 34, 92, 45, 47, 42, 36, 10, 13] : Str)
  head : ∀ token, ∃ u more, target token = u :: more ∧ isIdentifierContinuation u = false
  last : ∀ token, ∃ more u, target token = more ++ [u] ∧ isIdentifierContinuation u = false
  bind : ∀ token, 63 ∈ target token ↔ token ≠ .now

/-- A quoted text without backslashes ends where a literal does. -/
theorem quoteEnd_unit {escapes : Bool} {u : UInt16} {rest : Str} (hslash : u ≠ 92) (hu : u ≠ 39) :
    quoteEnd 39 escapes (u :: rest) = 1 + quoteEnd 39 escapes rest := by
  cases rest with
  | nil => rfl
  | cons v rest => rw [quoteEnd, if_neg fun h => hslash h.2, if_neg hu]

/-- A doubled quote does not end a literal. -/
theorem quoteEnd_doubled {escapes : Bool} {rest : Str} :
    quoteEnd 39 escapes (39 :: 39 :: rest) = 2 + quoteEnd 39 escapes rest := by
  rw [quoteEnd, if_neg fun h => absurd h.2 (by decide), if_pos rfl, if_pos rfl]

/-- A quote that is not doubled ends a literal. -/
theorem quoteEnd_closed {escapes : Bool} {v : UInt16} {rest : Str} (hv : v ≠ 39) :
    quoteEnd 39 escapes (39 :: v :: rest) = 1 := by
  rw [quoteEnd, if_neg fun h => absurd h.2 (by decide), if_pos rfl, if_neg hv]

section Loop

variable {target : Token → Str} (htarget : Inert target)
include htarget

/-- The next unit is a lexeme of its own, where it is none that a token starts with. -/
theorem head_of_spell {u : UInt16} (hu : isIdentifierContinuation u = true ∨
      u ∈ ([39, 34, 92, 45, 47, 42, 36, 10, 13] : Str)) {xs : List Lexeme}
    (h : (xs.flatMap (spell target)).head? = some u) : xs.head? = some (.inl u) := by
  cases xs with
  | nil => cases h
  | cons x xs =>
    cases x with
    | inl v => exact congrArg (Option.map Sum.inl) h
    | inr token =>
      obtain ⟨v, more, htoken, hv⟩ := htarget.head token
      rw [List.flatMap_cons, spell, htoken] at h
      obtain rfl := Option.some.inj h
      rcases hu with hu | hu
      · exact absurd (hv.symm.trans hu) Bool.false_ne_true
      · exact absurd hu (htarget.units token v (htoken ▸ List.mem_cons_self))

/-- Units that go on an identifier are lexemes of their own. -/
theorem prefix_of_spell {units : Str} (hunits : ∀ u ∈ units, isIdentifierContinuation u = true)
    {xs : List Lexeme} (h : units <+: xs.flatMap (spell target)) : units.map .inl <+: xs := by
  induction units generalizing xs with
  | nil => exact List.nil_prefix
  | cons u units ih =>
    obtain ⟨rest, hrest⟩ := h
    have hhead : (xs.flatMap (spell target)).head? = some u := by rw [← hrest]; rfl
    have hx := head_of_spell htarget (Or.inl (hunits u List.mem_cons_self)) hhead
    cases xs with
    | nil => cases hx
    | cons x xs =>
      obtain rfl := Option.some.inj hx
      rw [spell_unit, List.cons_append] at hrest
      refine List.cons_prefix_cons.mpr ⟨rfl, ih (fun v hv => hunits v (List.mem_cons_of_mem _ hv)) ?_⟩
      exact ⟨rest, (List.cons.inj hrest).2⟩

/-- A unit of a token is none a rule starts or ends at. -/
theorem Inert.ne {token : Token} {u v : UInt16} (hu : u ∈ target token)
    (hv : v ∈ ([39, 34, 92, 45, 47, 42, 36, 10, 13] : Str)) : u ≠ v := by
  rintro rfl
  exact htarget.units token u hu hv

/-- No rule starts within a token. -/
theorem Inert.free {token : Token} {u : UInt16} (hu : u ∈ target token) :
    u ∉ ([39, 34, 45, 47, 36] : Str) := fun hmem =>
  htarget.units token u hu (List.Sublist.subset (by decide) hmem)

/-- Whether an identifier goes on is told by the last unit. -/
theorem continues_spell (x : Lexeme) (before : Str) :
    ((spell target x).reverse ++ before).head?.any isIdentifierContinuation = continues (some x) := by
  cases x with
  | inl u => rfl
  | inr token =>
    obtain ⟨more, u, htoken, hu⟩ := htarget.last token
    rw [spell, htoken, List.reverse_append]
    exact hu

/-- Whether an identifier goes on is seen from the last lexeme before it. -/
theorem continues_hidden {hidden : List Lexeme} (hne : hidden ≠ []) (before : Str) :
    ((hidden.flatMap (spell target)).reverse ++ before).head?.any isIdentifierContinuation =
      continues hidden.getLast? := by
  obtain ⟨init, x, rfl⟩ := List.eq_nil_or_concat hidden |>.resolve_left hne
  rw [List.concat_eq_append, List.flatMap_append, List.reverse_append, List.append_assoc,
    List.getLast?_append]
  simpa using continues_spell htarget x ((init.flatMap (spell target)).reverse ++ before)

/-! ### The ends of what is passed over -/

omit htarget in
/-- A literal's end is past every unit that is no quote and no backslash. -/
theorem quoteEnd_append {escapes : Bool} {x rest : Str} (hx : ∀ u ∈ x, u ≠ 39 ∧ u ≠ 92) :
    quoteEnd 39 escapes (x ++ rest) = x.length + quoteEnd 39 escapes rest := by
  induction x with
  | nil => exact (Nat.zero_add _).symm
  | cons u x ih =>
    obtain ⟨hquote, hslash⟩ := hx u List.mem_cons_self
    rw [List.cons_append, quoteEnd_unit hslash hquote,
      ih fun v hv => hx v (List.mem_cons_of_mem _ hv), List.length_cons]
    omega

/-- A literal ends where its quoted part does. -/
theorem Quoted.end {body rest : List Lexeme} (h : Quoted body rest) {escapes : Bool}
    (hplain : .inl 92 ∉ body) :
    quoteEnd 39 escapes ((body ++ rest).flatMap (spell target)) =
      (body.flatMap (spell target)).length := by
  induction h with
  | unclosed => rfl
  | @closed rest hrest =>
    show quoteEnd 39 escapes (39 :: rest.flatMap (spell target)) = 1
    cases htext : rest.flatMap (spell target) with
    | nil => rfl
    | cons v text =>
      refine quoteEnd_closed fun hv => hrest (head_of_spell htarget (Or.inr (by decide)) ?_)
      rw [htext, hv]
      rfl
  | @doubled body rest _ ih =>
    have hbody : .inl 92 ∉ body := fun hmem =>
      hplain (List.mem_cons_of_mem _ (List.mem_cons_of_mem _ hmem))
    rw [List.cons_append, List.cons_append, spell_unit, spell_unit, quoteEnd_doubled, ih hbody,
      spell_unit, spell_unit, List.length_cons, List.length_cons]
    omega
  | @more x body rest hx _ ih =>
    have hbody : .inl 92 ∉ body := fun hmem => hplain (List.mem_cons_of_mem _ hmem)
    rw [List.cons_append, List.flatMap_cons, List.flatMap_cons, List.length_append, quoteEnd_append,
      ih hbody]
    intro u hu
    cases x with
    | inl v =>
      obtain rfl := List.mem_singleton.mp hu
      exact ⟨fun h => hx (congrArg Sum.inl h), fun h => hplain (h ▸ List.mem_cons_self)⟩
    | inr token => exact ⟨htarget.ne hu (by decide), htarget.ne hu (by decide)⟩

/-- A line comment ends where its line does. -/
theorem Line.end {body rest : List Lexeme} (h : Line body rest) :
    lineEnd ((body ++ rest).flatMap (spell target)) = (body.flatMap (spell target)).length := by
  unfold lineEnd
  rw [List.flatMap_append, List.takeWhile_append_of_pos]
  · have hstop : (rest.flatMap (spell target)).takeWhile (fun u => u ≠ 10 && u ≠ 13) = [] := by
      cases rest with
      | nil => rfl
      | cons x rest =>
        rcases h.after x rfl with rfl | rfl <;> rfl
    rw [hstop, List.append_nil]
  · intro u hu
    obtain ⟨x, hx, hu⟩ := List.mem_flatMap.mp hu
    obtain ⟨hline, hreturn⟩ := h.inside x hx
    cases x with
    | inl v =>
      obtain rfl := List.mem_singleton.mp hu
      have hline' : u ≠ 10 := fun h => hline (congrArg Sum.inl h)
      have hreturn' : u ≠ 13 := fun h => hreturn (congrArg Sum.inl h)
      simp [hline', hreturn']
    | inr token =>
      have hline' : u ≠ 10 := htarget.ne hu (by decide)
      have hreturn' : u ≠ 13 := htarget.ne hu (by decide)
      simp [hline', hreturn']

omit htarget in
/-- A unit of a comment that opens none and closes none. -/
theorem nestedCommentEnd_unit {depth : ℕ} {u : UInt16} {rest : Str}
    (hopens : ¬ (u = 47 ∧ rest.head? = some 42)) (hcloses : ¬ (u = 42 ∧ rest.head? = some 47)) :
    nestedCommentEnd (depth + 1) (u :: rest) = 1 + nestedCommentEnd (depth + 1) rest := by
  cases rest with
  | nil => rfl
  | cons v rest =>
    rw [nestedCommentEnd, if_neg fun h => hopens ⟨h.1, congrArg some h.2⟩,
      if_neg fun h => hcloses ⟨h.1, congrArg some h.2⟩]

omit htarget in
/-- A comment's end is past every unit that neither opens nor closes one. -/
theorem nestedCommentEnd_append {depth : ℕ} {x rest : Str} (hx : ∀ u ∈ x, u ≠ 47 ∧ u ≠ 42) :
    nestedCommentEnd (depth + 1) (x ++ rest) = x.length + nestedCommentEnd (depth + 1) rest := by
  induction x with
  | nil => exact (Nat.zero_add _).symm
  | cons u x ih =>
    obtain ⟨hslash, hstar⟩ := hx u List.mem_cons_self
    rw [List.cons_append, nestedCommentEnd_unit (fun h => hslash h.1) (fun h => hstar h.1),
      ih fun v hv => hx v (List.mem_cons_of_mem _ hv), List.length_cons]
    omega

/-- A comment ends where its commented part does. -/
theorem Commented.end {depth : ℕ} {body rest : List Lexeme} (h : Commented depth body rest) :
    nestedCommentEnd depth ((body ++ rest).flatMap (spell target)) =
      (body.flatMap (spell target)).length := by
  induction h with
  | ended => exact nestedCommentEnd.eq_1 _
  | unclosed => rfl
  | opens _ ih | closes _ ih =>
    rw [List.cons_append, List.cons_append, spell_unit, spell_unit, spell_unit, spell_unit,
      List.length_cons, List.length_cons, ← ih, nestedCommentEnd]
    simp
    omega
  | @more depth x body rest hopens hcloses _ ih =>
    rw [List.cons_append, List.flatMap_cons, List.flatMap_cons, List.length_append, ← ih]
    cases x with
    | inl u =>
      have hnext : ∀ v : UInt16, v ∈ ([39, 34, 92, 45, 47, 42, 36, 10, 13] : Str) →
          ((body ++ rest).flatMap (spell target)).head? = some v →
            [.inl u, .inl v] <+: .inl u :: (body ++ rest) := by
        intro v hv hhead
        have hmem := List.head?_eq_some_iff.mp (head_of_spell htarget (Or.inr hv) hhead)
        obtain ⟨ys, hys⟩ := hmem
        rw [hys]
        exact ⟨ys, rfl⟩
      refine nestedCommentEnd_unit (fun h => hopens ?_) (fun h => hcloses ?_)
      · obtain ⟨rfl, hhead⟩ := h
        exact hnext 42 (by decide) hhead
      · obtain ⟨rfl, hhead⟩ := h
        exact hnext 47 (by decide) hhead
    | inr token =>
      exact nestedCommentEnd_append fun u hu => ⟨htarget.ne hu (by decide), htarget.ne hu (by decide)⟩

/-! ### Dollar-quoted strings -/

omit htarget in
/-- A delimiter's units could go on an identifier. -/
theorem IsTag.continuation {tag : Str} (htag : IsTag tag) :
    ∀ u ∈ delimiterUnits tag, isIdentifierContinuation u = true := by
  intro u hu
  simp only [delimiterUnits, List.mem_cons, List.mem_append, List.not_mem_nil, or_false] at hu
  rcases hu with rfl | hu | rfl
  · decide
  · simp [isIdentifierContinuation, htag.word u hu]
  · decide

omit htarget in
/-- A delimiter is read where it stands. -/
theorem dollarQuoteDelimiter_tag {before tag rest : Str}
    (hbefore : before.head?.any isIdentifierContinuation = false) (htag : IsTag tag) :
    dollarQuoteDelimiter before (delimiterUnits tag ++ rest) = some (delimiterUnits tag) := by
  cases tag with
  | nil => simp [delimiterUnits, dollarQuoteDelimiter, hbefore]
  | cons u tag =>
    have hfirst : isLetter u = true ∨ u = 95 := htag.first u rfl
    have hdollar : u ≠ 36 := by
      rintro rfl
      exact absurd hfirst (by decide)
    have htake : ((u :: tag) ++ 36 :: rest).takeWhile isWord = u :: tag := by
      rw [List.takeWhile_append_of_pos fun v hv => htag.word v hv]
      exact List.append_nil _
    have htext : delimiterUnits (u :: tag) ++ rest = 36 :: ((u :: tag) ++ 36 :: rest) := by
      simp [delimiterUnits]
    rw [htext, dollarQuoteDelimiter, if_neg (by simp [hbefore]), if_neg (by simpa using hdollar),
      if_pos (by simpa using hfirst), htake]
    dsimp only
    rw [List.drop_left]
    exact if_pos rfl

omit htarget in
/-- What is read as a delimiter is one. -/
theorem dollarQuoteDelimiter_some {before text units : Str}
    (h : dollarQuoteDelimiter before text = some units) :
    before.head?.any isIdentifierContinuation = false ∧
      ∃ tag, IsTag tag ∧ units = delimiterUnits tag ∧ units <+: text := by
  cases text with
  | nil => cases h
  | cons u rest =>
    rw [dollarQuoteDelimiter] at h
    split at h
    · cases h
    · rename_i hstarts
      obtain ⟨hu, hbefore⟩ := not_or.mp hstarts
      obtain rfl := not_not.mp hu
      refine ⟨Bool.eq_false_iff.mpr hbefore, ?_⟩
      split at h
      · rename_i hempty
        obtain rfl := Option.some.inj h
        obtain ⟨more, rfl⟩ := List.head?_eq_some_iff.mp hempty
        exact ⟨[], ⟨fun _ hu => absurd hu List.not_mem_nil, fun _ hu => absurd hu (by simp)⟩, rfl,
          more, rfl⟩
      · split at h
        · rename_i hfirst
          dsimp only at h
          split at h
          · rename_i hend
            obtain rfl := Option.some.inj h
            obtain ⟨more, hmore⟩ := List.head?_eq_some_iff.mp hend
            have hprefix := List.takeWhile_prefix (p := isWord) (l := rest)
            refine ⟨rest.takeWhile isWord, ⟨fun v hv => List.mem_takeWhile_imp hv, fun v hv => ?_⟩,
              rfl, more, ?_⟩
            · cases rest with
              | nil => cases hfirst
              | cons w rest =>
                have hw : isLetter w = true ∨ w = 95 := by simpa using hfirst
                have hword : isWord w = true := by
                  rcases hw with hw | rfl
                  · simp [isWord, hw]
                  · decide
                rw [List.takeWhile_cons_of_pos hword] at hv
                obtain rfl := Option.some.inj hv
                exact hw
            · have hrest := List.prefix_iff_eq_append.mp hprefix
              rw [hmore] at hrest
              simp [hrest]
          · cases h
        · cases h

omit htarget in
/-- A dollar delimiter is not found before a text without a dollar ends. -/
theorem indexOfText_append {pattern x rest : Str} (hx : 36 ∉ x) :
    indexOfText (36 :: pattern) (x ++ rest) =
      (indexOfText (36 :: pattern) rest).map (· + x.length) := by
  induction x with
  | nil => simp
  | cons u x ih =>
    rw [List.mem_cons, not_or] at hx
    rw [List.cons_append, indexOfText, if_neg fun h => hx.1 (List.cons_prefix_cons.mp h).1, ih hx.2,
      Option.map_map]
    rfl

omit htarget in
/-- Units are spelled as themselves. -/
theorem spell_units (units : Str) : (units.map Sum.inl).flatMap (spell target) = units := by
  induction units with
  | nil => rfl
  | cons u units ih => exact congrArg (u :: ·) ih

/-- The text goes on from a lexeme that no delimiter starts at. -/
theorem indexOfText_cons {tag : Str} (htag : IsTag tag) {x : Lexeme} {xs : List Lexeme}
    (h : ¬ delimiter tag <+: x :: xs) :
    indexOfText (delimiterUnits tag) ((x :: xs).flatMap (spell target)) =
      (indexOfText (delimiterUnits tag) (xs.flatMap (spell target))).map
        (· + (spell target x).length) := by
  cases x with
  | inl u =>
    rw [spell_unit, indexOfText, if_neg]
    · rfl
    · exact fun hstarts => h (prefix_of_spell htarget htag.continuation hstarts)
  | inr token =>
    have hdollar : 36 ∉ target token := fun hmem => htarget.ne hmem (by decide) rfl
    exact indexOfText_append hdollar

/-- The first delimiter of a text. -/
theorem indexOfText_closed {tag : Str} (htag : IsTag tag) {inner rest : List Lexeme}
    (hfirst : ¬ delimiter tag <:+: (inner ++ delimiter tag).dropLast) :
    indexOfText (delimiterUnits tag) ((inner ++ delimiter tag ++ rest).flatMap (spell target)) =
      some (inner.flatMap (spell target)).length := by
  induction inner with
  | nil =>
    rw [List.nil_append, List.flatMap_append, delimiter, spell_units, delimiterUnits, List.cons_append,
      indexOfText, if_pos]
    · rfl
    · exact ⟨rest.flatMap (spell target), rfl⟩
  | cons x inner ih =>
    have hne : inner ++ delimiter tag ≠ [] := List.append_ne_nil_of_right_ne_nil _ (List.cons_ne_nil _ _)
    rw [List.cons_append, List.dropLast_cons_of_ne_nil hne, List.infix_cons_iff, not_or] at hfirst
    have hstarts : ¬ delimiter tag <+: x :: (inner ++ delimiter tag ++ rest) := by
      intro hstarts
      refine hfirst.1 (List.prefix_of_prefix_length_le hstarts ?_ ?_)
      · refine List.cons_prefix_cons.mpr ⟨rfl, ?_⟩
        exact (List.dropLast_prefix _).trans (List.prefix_append _ _)
      · simp only [List.length_cons, List.length_dropLast, List.length_append]
        omega
    rw [List.cons_append, List.cons_append, indexOfText_cons htarget htag hstarts, ih hfirst.2,
      List.flatMap_cons, List.length_append, Option.map_some, Nat.add_comm]

/-- A text without a delimiter. -/
theorem indexOfText_unclosed {tag : Str} (htag : IsTag tag) {body : List Lexeme}
    (hnone : ¬ delimiter tag <:+: body) :
    indexOfText (delimiterUnits tag) (body.flatMap (spell target)) = none := by
  induction body with
  | nil => rfl
  | cons x body ih =>
    rw [List.infix_cons_iff, not_or] at hnone
    rw [indexOfText_cons htarget htag hnone.1, ih hnone.2]
    rfl

/-! ### The lexeme at the cursor -/

omit htarget in
/-- No rule starts at a unit that is none of theirs. -/
theorem postgresLexeme_unit {before rest : Str} {u : UInt16} (hu : u ∉ ([39, 34, 45, 47, 36] : Str)) :
    postgresLexeme before (u :: rest) = 0 := by
  simp only [List.mem_cons, List.not_mem_nil, or_false, not_or] at hu
  obtain ⟨hquote, hdouble, hdash, hslash, hdollar⟩ := hu
  simp [postgresLexeme, dollarQuoteDelimiter, hquote, hdouble, hdash, hslash, hdollar]

omit htarget in
/-- A dollar-quoted string ends at its delimiter, or with the text. -/
theorem postgresLexeme_dollar {previous tag rest : Str}
    (h : dollarQuoteDelimiter previous (delimiterUnits tag ++ rest) = some (delimiterUnits tag)) :
    postgresLexeme previous (delimiterUnits tag ++ rest) =
      (indexOfText (delimiterUnits tag) rest).elim (delimiterUnits tag ++ rest).length
        fun close => (delimiterUnits tag).length + close + (delimiterUnits tag).length := by
  have hbody : (delimiterUnits tag ++ rest).drop (delimiterUnits tag).length = rest :=
    List.drop_left ..
  have htext : delimiterUnits tag ++ rest = 36 :: (tag ++ [36] ++ rest) := rfl
  rw [htext] at h hbody ⊢
  rw [postgresLexeme, if_neg (by decide), if_neg (fun h => absurd h.1 (by decide)),
    if_neg (fun h => absurd h.1 (by decide))]
  simp only [h, hbody]
  cases indexOfText (delimiterUnits tag) rest <;> rfl

/-- What the rules pass over is what the store passes over. -/
theorem Passed.length {before : Option Lexeme} {previous : Str}
    (hbefore : previous.head?.any isIdentifierContinuation = continues before)
    {hidden rest : List Lexeme} (h : Passed before hidden rest) (hplain : .inl 92 ∉ hidden) :
    postgresLexeme previous ((hidden ++ rest).flatMap (spell target)) =
      (hidden.flatMap (spell target)).length := by
  cases h with
  | literal h =>
    have hbody : quoteEnd 39 (isEscapeString 39 previous) _ = _ :=
      h.end htarget fun hmem => hplain (List.mem_cons_of_mem _ hmem)
    rw [List.cons_append, spell_unit, spell_unit, postgresLexeme, if_pos (Or.inl rfl), hbody,
      List.length_cons, Nat.add_comm]
  | line h =>
    rw [List.cons_append, List.cons_append, spell_unit, spell_unit, spell_unit, spell_unit,
      postgresLexeme, if_neg (by decide), if_pos ⟨rfl, rfl⟩, List.drop_one, List.tail_cons,
      h.end htarget, List.length_cons, List.length_cons, Nat.add_comm]
  | comment h =>
    rw [List.cons_append, List.cons_append, spell_unit, spell_unit, spell_unit, spell_unit,
      postgresLexeme, if_neg (by decide), if_neg (fun h => absurd h.1 (by decide)), if_pos ⟨rfl, rfl⟩,
      List.drop_one, List.tail_cons, h.end htarget, List.length_cons, List.length_cons, Nat.add_comm]
  | @dollar tag body rest hnot htag h =>
    have hdelimiter : dollarQuoteDelimiter previous
        (delimiterUnits tag ++ (body ++ rest).flatMap (spell target)) = some (delimiterUnits tag) :=
      dollarQuoteDelimiter_tag (hbefore.trans hnot) htag
    have htext : ((delimiter tag ++ body) ++ rest).flatMap (spell target) =
        delimiterUnits tag ++ (body ++ rest).flatMap (spell target) := by
      rw [List.append_assoc, List.flatMap_append, delimiter, spell_units]
    have hlength : ((delimiter tag ++ body).flatMap (spell target)).length =
        (delimiterUnits tag).length + (body.flatMap (spell target)).length := by
      rw [List.flatMap_append, List.length_append, delimiter, spell_units]
    rw [htext, hlength]
    cases h with
    | @closed inner rest hfirst =>
      rw [postgresLexeme_dollar hdelimiter, indexOfText_closed htarget htag hfirst, Option.elim_some,
        @List.flatMap_append _ _ inner, List.length_append, delimiter, spell_units, Nat.add_assoc]
    | unclosed hnone =>
      rw [List.append_nil] at hdelimiter ⊢
      rw [postgresLexeme_dollar hdelimiter, indexOfText_unclosed htarget htag hnone,
        Option.elim_none, List.length_append]

/-- Where the store passes something over, so do the rules. -/
theorem Passed.exists {before : Option Lexeme} {previous : Str}
    (hbefore : previous.head?.any isIdentifierContinuation = continues before) {xs : List Lexeme}
    (hplain : .inl 34 ∉ xs) (h : postgresLexeme previous (xs.flatMap (spell target)) ≠ 0) :
    ∃ hidden rest, Passed before hidden rest ∧ hidden ++ rest = xs := by
  cases xs with
  | nil => exact absurd rfl h
  | cons x xs =>
    cases x with
    -- A token is spelled with units that start nothing that is passed over.
    | inr token =>
      obtain ⟨u, more, htoken, _⟩ := htarget.head token
      have hu : u ∈ target token := htoken ▸ List.mem_cons_self
      rw [List.flatMap_cons, spell, htoken, List.cons_append, postgresLexeme_unit] at h
      · exact absurd rfl h
      · exact htarget.free hu
    | inl u =>
      rw [spell_unit] at h
      rw [postgresLexeme] at h
      split at h
      -- The branches of the store's loop, one for each rule: a quote, a line, a comment, a dollar.
      · rename_i hquote
        obtain rfl | rfl := hquote
        · obtain ⟨body, rest, rfl, hbody⟩ := Quoted.exists xs
          exact ⟨_, rest, .literal hbody, rfl⟩
        · exact absurd List.mem_cons_self hplain
      · split at h
        · rename_i hline
          obtain ⟨rfl, hnext⟩ := hline
          obtain ⟨ys, rfl⟩ := List.head?_eq_some_iff.mp
            (head_of_spell htarget (Or.inr (by decide)) hnext)
          obtain ⟨body, rest, rfl, hbody⟩ := Line.exists ys
          exact ⟨_, rest, .line hbody, rfl⟩
        · split at h
          · rename_i hcomment
            obtain ⟨rfl, hnext⟩ := hcomment
            obtain ⟨ys, rfl⟩ := List.head?_eq_some_iff.mp
              (head_of_spell htarget (Or.inr (by decide)) hnext)
            obtain ⟨body, rest, rfl, hbody⟩ := Commented.exists 1 ys
            exact ⟨_, rest, .comment hbody, rfl⟩
          · split at h
            · exact absurd rfl h
            · rename_i units hsome
              obtain ⟨hnot, tag, htag, rfl, hstarts⟩ := dollarQuoteDelimiter_some hsome
              have hdelimiter : delimiter tag <+: .inl u :: xs :=
                prefix_of_spell htarget htag.continuation hstarts
              obtain ⟨ys, hys⟩ := hdelimiter
              obtain ⟨body, rest, rfl, hbody⟩ :=
                @DollarQuoted.exists (delimiter tag) (List.cons_ne_nil _ _) ys
              exact ⟨_, rest, .dollar (hbefore.symm.trans hnot) htag hbody,
                (List.append_assoc _ _ _).trans hys⟩

/-! ### The loop -/

omit htarget in
/-- What is passed over is quoted. -/
theorem quotedFrom_append (before x rest : Str) :
    quotedFrom x.length before (x ++ rest) = x ++ quotedFrom 0 (x.reverse ++ before) rest := by
  induction x generalizing before with
  | nil => rfl
  | cons u x ih =>
    rw [List.length_cons, List.cons_append, quotedFrom, ih]
    simp

omit htarget in
/-- Nothing is passed over at units that no rule starts at. -/
theorem quotedFrom_units {before x rest : Str} (hx : ∀ u ∈ x, u ∉ ([39, 34, 45, 47, 36] : Str)) :
    quotedFrom 0 before (x ++ rest) = quotedFrom 0 (x.reverse ++ before) rest := by
  induction x generalizing before with
  | nil => rfl
  | cons u x ih =>
    have hlexeme : postgresLexeme before (u :: (x ++ rest)) = 0 :=
      postgresLexeme_unit (hx u List.mem_cons_self)
    rw [List.cons_append]
    simp only [quotedFrom, hlexeme]
    rw [ih fun v hv => hx v (List.mem_cons_of_mem _ hv)]
    simp

omit htarget in
/-- What a reading passes over is not empty. -/
theorem Passed.ne_nil {before : Option Lexeme} {hidden rest : List Lexeme}
    (h : Passed before hidden rest) : hidden ≠ [] := by
  cases h <;> exact List.cons_ne_nil _ _

/-- What the rules pass over is quoted, and the loop goes on after it. -/
theorem quotedFrom_passed {before : Option Lexeme} {previous : Str}
    (hbefore : previous.head?.any isIdentifierContinuation = continues before)
    {hidden rest : List Lexeme} (h : Passed before hidden rest)
    (hplain : ∀ u, .inl u ∈ hidden → u ≠ 34 ∧ u ≠ 92 ∧ u ≠ 63) :
    quotedFrom 0 previous ((hidden ++ rest).flatMap (spell target)) =
      hidden.flatMap (spell target) ++
        quotedFrom 0 ((hidden.flatMap (spell target)).reverse ++ previous)
          (rest.flatMap (spell target)) := by
  have hlength := h.length htarget hbefore fun hmem => (hplain 92 hmem).2.1 rfl
  rw [List.flatMap_append] at hlength ⊢
  rw [← quotedFrom_append]
  cases htext : hidden.flatMap (spell target) with
  | nil => rfl
  | cons u text =>
    rw [htext] at hlength
    rw [List.cons_append] at hlength ⊢
    simp only [quotedFrom, hlength, List.length_cons]

/-- Where the rules pass nothing over, the loop reads the next lexeme. -/
theorem quotedFrom_read {before : Option Lexeme} {previous : Str}
    (hbefore : previous.head?.any isIdentifierContinuation = continues before) {x : Lexeme}
    {xs : List Lexeme} (hplain : ∀ u, .inl u ∈ x :: xs → u ≠ 34)
    (h : ∀ hidden rest, Passed before hidden rest → hidden ++ rest ≠ x :: xs) :
    quotedFrom 0 previous ((x :: xs).flatMap (spell target)) =
      quotedFrom 0 ((spell target x).reverse ++ previous) (xs.flatMap (spell target)) := by
  cases x with
  | inl u =>
    have hlexeme : postgresLexeme previous (u :: xs.flatMap (spell target)) = 0 := by
      by_contra hne
      obtain ⟨hidden, rest, hpassed, heq⟩ := Passed.exists htarget hbefore
        (fun hmem => hplain 34 hmem rfl) hne
      exact h hidden rest hpassed heq
    rw [spell_unit]
    simp only [quotedFrom, hlexeme]
    rfl
  | inr token => exact quotedFrom_units fun u hu => htarget.free hu

/-- Where every question mark is a token's, those of a text are its binds and fences. -/
theorem mem_spell {xs : List Lexeme} (hxs : ∀ u, .inl u ∈ xs → u ≠ 63) :
    63 ∈ xs.flatMap (spell target) ↔ ∃ token, .inr token ∈ xs ∧ token ≠ .now := by
  constructor
  · intro hmem
    obtain ⟨x, hx, hu⟩ := List.mem_flatMap.mp hmem
    cases x with
    | inl u => exact absurd (List.mem_singleton.mp hu).symm (hxs u hx)
    | inr token => exact ⟨token, hx, (htarget.bind token).mp hu⟩
  · rintro ⟨token, htoken, hbind⟩
    exact List.mem_flatMap.mpr ⟨_, htoken, (htarget.bind token).mpr hbind⟩

/-- The rules show every bind and fence where the store's loop quotes no question mark. -/
theorem shows_iff {before : Option Lexeme} {previous : Str}
    (hbefore : previous.head?.any isIdentifierContinuation = continues before) {xs : List Lexeme}
    (hplain : ∀ u, .inl u ∈ xs → u ≠ 34 ∧ u ≠ 92 ∧ u ≠ 63) :
    Shows before xs ↔ 63 ∉ quotedFrom 0 previous (xs.flatMap (spell target)) := by
  constructor
  · intro hshows
    induction hshows generalizing previous with
    | done => exact List.not_mem_nil
    | @passed before hidden rest hpassed hnone _ ih =>
      have hunits : ∀ u, .inl u ∈ hidden → u ≠ 34 ∧ u ≠ 92 ∧ u ≠ 63 := fun u hu =>
        hplain u (List.mem_append_left _ hu)
      rw [quotedFrom_passed htarget hbefore hpassed hunits, List.mem_append, not_or]
      refine ⟨fun hmem => ?_, ih (continues_hidden htarget hpassed.ne_nil previous)
        fun u hu => hplain u (List.mem_append_right _ hu)⟩
      obtain ⟨token, htoken, hbind⟩ := (mem_spell htarget fun u hu => (hunits u hu).2.2).mp hmem
      exact hbind (hnone token htoken)
    | @read before x xs hread _ ih =>
      rw [quotedFrom_read htarget hbefore (fun u hu => (hplain u hu).1) hread]
      exact ih (continues_spell htarget x previous) fun u hu =>
        hplain u (List.mem_cons_of_mem _ hu)
  · intro hquoted
    -- By length: what the rules pass over may be many lexemes, and is taken off at once.
    induction hlength : xs.length using Nat.strong_induction_on generalizing xs before previous with
    | _ n ih =>
      subst hlength
      cases xs with
      | nil => exact .done
      | cons x xs =>
        -- Either the rules pass something over here, or the first lexeme is read for itself.
        by_cases hsome : ∃ hidden rest, Passed before hidden rest ∧ hidden ++ rest = x :: xs
        · obtain ⟨hidden, rest, hpassed, heq⟩ := hsome
          rw [← heq] at hquoted hplain ⊢
          have hunits : ∀ u, .inl u ∈ hidden → u ≠ 34 ∧ u ≠ 92 ∧ u ≠ 63 := fun u hu =>
            hplain u (List.mem_append_left _ hu)
          rw [quotedFrom_passed htarget hbefore hpassed hunits, List.mem_append, not_or] at hquoted
          refine .passed hpassed (fun token htoken => ?_) (ih rest.length ?_
            (continues_hidden htarget hpassed.ne_nil previous)
            (fun u hu => hplain u (List.mem_append_right _ hu)) hquoted.2 rfl)
          · by_contra hbind
            exact hquoted.1 ((mem_spell htarget fun u hu => (hunits u hu).2.2).mpr
              ⟨token, htoken, hbind⟩)
          · have hlength := congrArg List.length heq
            have hpos := List.length_pos_of_ne_nil hpassed.ne_nil
            rw [List.length_append] at hlength
            omega
        · have hread : ∀ hidden rest, Passed before hidden rest → hidden ++ rest ≠ x :: xs :=
            fun hidden rest hpassed heq => hsome ⟨hidden, rest, hpassed, heq⟩
          rw [quotedFrom_read htarget hbefore (fun u hu => (hplain u hu).1) hread] at hquoted
          exact .read hread (ih xs.length (Nat.lt_succ_self _) (continues_spell htarget x previous)
            (fun u hu => hplain u (List.mem_cons_of_mem _ hu)) hquoted rfl)

end Loop

end Durablerun.Sql
