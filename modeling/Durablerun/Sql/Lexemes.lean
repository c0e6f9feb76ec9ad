import Durablerun.Sql.Fragments

/-!
# Lexemes of a fragment

A fragment's text is read as units and tokens, from left to right, as it is split. Its literals and what
stands outside them do not depend on how its tokens are spelled.

Reference: `packages/store-postgres/src/placeholders.ts`.
-/

namespace Durablerun.Sql

open Js

/-! ## Reading literals -/

section Reading

variable {α : Type} {q : α}

/-- What holds of a text outside literals, and of one inside a literal, by what a reader does at each
unit. -/
theorem read_induction [DecidableEq α] {P Q : List α → Prop} (nil : P [])
    (opened : ∀ rest, Q rest → P (q :: rest))
    (unit : ∀ u rest, u ≠ q → P rest → P (u :: rest))
    (unclosed : Q [])
    (ends : Q [q])
    (doubled : ∀ rest, Q rest → Q (q :: q :: rest))
    (closed : ∀ v rest, v ≠ q → P (v :: rest) → Q (q :: v :: rest))
    (literal : ∀ u rest, u ≠ q → Q rest → Q (u :: rest)) (s : List α) :
    P s ∧ Q s := by
  -- A closing quote is told by the unit after it, so two units are read at a time.
  induction hlength : s.length using Nat.strong_induction_on generalizing s with
  | _ n ih =>
    subst hlength
    have hshorter : ∀ t : List α, t.length < s.length → P t ∧ Q t :=
      fun t ht => ih t.length ht t rfl
    match s with
    | [] => exact ⟨nil, unclosed⟩
    | u :: rest =>
      obtain ⟨houtside, hinside⟩ := hshorter rest (Nat.lt_succ_self _)
      by_cases hu : u = q
      · subst hu
        refine ⟨opened rest hinside, ?_⟩
        match rest with
        | [] => exact ends
        | v :: rest =>
          by_cases hv : v = u
          · subst hv
            exact doubled rest (hshorter rest (by simp)).2
          · exact closed v rest hv houtside
      · exact ⟨unit u rest hu houtside, literal u rest hu hinside⟩

end Reading

section Read

variable {before : Option UInt16} {u v : UInt16} {rest : Str}

/-- Outside a literal, a quote opens one. -/
theorem readOutside_quote : readOutside before (39 :: rest) =
    ⟨(readLiteral rest).1 :: (readLiteral rest).2.literals,
      39 :: 39 :: (readLiteral rest).2.outside,
      before.any (fun v => isLetter v || v = 38) || (readLiteral rest).2.prefixed⟩ := by
  rw [readOutside, if_pos rfl]

/-- Outside a literal, any other unit is read as itself. -/
theorem readOutside_unit (h : u ≠ 39) : readOutside before (u :: rest) =
    { readOutside (some u) rest with outside := u :: (readOutside (some u) rest).outside } := by
  rw [readOutside, if_neg h]

/-- Inside a literal, a doubled quote is a quote. -/
theorem readLiteral_doubled : readLiteral (39 :: 39 :: rest) =
    (39 :: (readLiteral rest).1, (readLiteral rest).2) := by
  rw [readLiteral, if_pos rfl]
  simp only [if_pos]

/-- Inside a literal, a quote that is not doubled closes it. -/
theorem readLiteral_closed (h : v ≠ 39) :
    readLiteral (39 :: v :: rest) = ([], readOutside (some 39) (v :: rest)) := by
  rw [readLiteral, if_pos rfl]
  simp only [if_neg h]

/-- Inside a literal, any other unit is read as itself. -/
theorem readLiteral_unit (h : u ≠ 39) :
    readLiteral (u :: rest) = (u :: (readLiteral rest).1, (readLiteral rest).2) := by
  rw [readLiteral.eq_def]
  exact if_neg h

/-- The unit before the cursor tells only whether a literal is prefixed. -/
theorem readOutside_before (before before' : Option UInt16) (s : Str) :
    (readOutside before s).literals = (readOutside before' s).literals ∧
      (readOutside before s).outside = (readOutside before' s).outside := by
  cases s with
  | nil => exact ⟨rfl, rfl⟩
  | cons u rest =>
    by_cases hu : u = 39
    · subst hu
      rw [readOutside_quote, readOutside_quote]
      exact ⟨rfl, rfl⟩
    · rw [readOutside_unit hu, readOutside_unit hu]
      exact ⟨rfl, rfl⟩

end Read

/-! ## Lexemes -/

/-- A unit of a fragment, or a token. -/
abbrev Lexeme := UInt16 ⊕ Token

/-- The text of a lexeme whose tokens are spelled by a function. -/
def spell (target : Token → Str) : Lexeme → Str
  | .inl u => [u]
  | .inr token => target token

/-- The lexemes of a text, from left to right. -/
def lexemes : ℕ → Str → List Lexeme
  | _, [] => []
  | skip + 1, _ :: rest => lexemes skip rest
  | 0, u :: rest =>
    match tokenAt (u :: rest) with
    | some token => .inr token :: lexemes (token.source.length - 1) rest
    | none => .inl u :: lexemes 0 rest

mutual

/-- What `readFragment` reads of lexemes, literals first. -/
def lexOutside : List Lexeme → List (List Lexeme) × List Lexeme
  | [] => ([], [])
  | x :: rest =>
    if x = .inl 39 then
      ((lexLiteral rest).1 :: (lexLiteral rest).2.1, .inl 39 :: .inl 39 :: (lexLiteral rest).2.2)
    else ((lexOutside rest).1, x :: (lexOutside rest).2)

def lexLiteral : List Lexeme → List Lexeme × List (List Lexeme) × List Lexeme
  | [] => ([], [], [])
  | x :: rest =>
    if x = .inl 39 then
      match rest with
      | [] => ([], [], [])
      | y :: rest' =>
        if y = .inl 39 then (.inl 39 :: (lexLiteral rest').1, (lexLiteral rest').2)
        else ([], lexOutside (y :: rest'))
    else (x :: (lexLiteral rest).1, (lexLiteral rest).2)

end

section Spell

/-- A token is spelled by some text without a quote. -/
def Unquoted (target : Token → Str) : Prop := ∀ token, target token ≠ [] ∧ 39 ∉ target token

/-- Lexemes are read outside literals as their text is. -/
def SpelledOutside (target : Token → Str) (xs : List Lexeme) : Prop := ∀ before,
  (readOutside before (xs.flatMap (spell target))).literals =
      (lexOutside xs).1.map (List.flatMap (spell target)) ∧
    (readOutside before (xs.flatMap (spell target))).outside =
      (lexOutside xs).2.flatMap (spell target)

/-- Lexemes are read inside a literal as their text is. -/
def SpelledLiteral (target : Token → Str) (xs : List Lexeme) : Prop :=
  (readLiteral (xs.flatMap (spell target))).1 = (lexLiteral xs).1.flatMap (spell target) ∧
    (readLiteral (xs.flatMap (spell target))).2.literals =
      (lexLiteral xs).2.1.map (List.flatMap (spell target)) ∧
    (readLiteral (xs.flatMap (spell target))).2.outside =
      (lexLiteral xs).2.2.flatMap (spell target)

variable {target : Token → Str} (htarget : Unquoted target)

/-- A unit is spelled as itself. -/
theorem spell_unit (u : UInt16) (xs : List Lexeme) :
    (Sum.inl u :: xs).flatMap (spell target) = u :: xs.flatMap (spell target) := rfl

/-- Outside a literal, what has no quote is read as it stands. -/
theorem readOutside_append {x rest : Str} (hx : 39 ∉ x) (before : Option UInt16) :
    (readOutside before (x ++ rest)).literals = (readOutside none rest).literals ∧
      (readOutside before (x ++ rest)).outside = x ++ (readOutside none rest).outside := by
  induction x generalizing before with
  | nil => exact readOutside_before before none rest
  | cons u x ih =>
    rw [List.mem_cons, not_or] at hx
    obtain ⟨hu, hx⟩ := hx
    obtain ⟨hliterals, houtside⟩ := ih hx (some u)
    rw [List.cons_append, readOutside_unit (Ne.symm hu)]
    exact ⟨hliterals, congrArg (u :: ·) houtside⟩

/-- Inside a literal, what has no quote is read as it stands. -/
theorem readLiteral_append {x rest : Str} (hx : 39 ∉ x) :
    readLiteral (x ++ rest) = (x ++ (readLiteral rest).1, (readLiteral rest).2) := by
  induction x with
  | nil => rfl
  | cons u x ih =>
    rw [List.mem_cons, not_or] at hx
    obtain ⟨hu, hx⟩ := hx
    rw [List.cons_append, readLiteral_unit (Ne.symm hu), ih hx, List.cons_append]

include htarget

/-- A lexeme that is no quote is spelled with none, and not with nothing. -/
theorem spell_unquoted {x : Lexeme} (hx : x ≠ .inl 39) : spell target x ≠ [] ∧ 39 ∉ spell target x := by
  cases x with
  | inl u =>
    refine ⟨List.cons_ne_nil _ _, fun hmem => hx ?_⟩
    rw [List.mem_singleton.mp hmem]
  | inr token => exact htarget token

/-- The reading of a text is that of its lexemes, however its tokens are spelled. -/
theorem read_spell (xs : List Lexeme) : SpelledOutside target xs ∧ SpelledLiteral target xs := by
  refine read_induction (q := Sum.inl 39) ?_ ?_ ?_ ?_ ?_ ?_ ?_ ?_ xs
  · exact fun _ => ⟨rfl, rfl⟩
  · rintro rest ⟨hliteral, hliterals, houtside⟩ before
    rw [spell_unit, lexOutside, if_pos rfl, readOutside_quote]
    refine ⟨congrArg₂ List.cons hliteral hliterals, ?_⟩
    exact congrArg (fun s => 39 :: 39 :: s) houtside
  · intro x rest hx ih before
    obtain ⟨hliterals, houtside⟩ := ih none
    obtain ⟨hliterals', houtside'⟩ := @readOutside_append (spell target x)
      (rest.flatMap (spell target)) (spell_unquoted htarget hx).2 before
    rw [List.flatMap_cons, lexOutside, if_neg hx, hliterals', houtside', hliterals, houtside]
    exact ⟨rfl, rfl⟩
  · exact ⟨rfl, rfl, rfl⟩
  · exact ⟨rfl, rfl, rfl⟩
  · rintro rest ⟨hliteral, hliterals, houtside⟩
    have hlex : lexLiteral (.inl 39 :: .inl 39 :: rest) =
        (.inl 39 :: (lexLiteral rest).1, (lexLiteral rest).2) := by
      rw [lexLiteral, if_pos rfl]
      simp only [if_pos]
    rw [SpelledLiteral, hlex, spell_unit, spell_unit, readLiteral_doubled]
    exact ⟨congrArg (39 :: ·) hliteral, hliterals, houtside⟩
  · intro y rest hy ih
    obtain ⟨hliterals, houtside⟩ := ih (some 39)
    have hlex : lexLiteral (.inl 39 :: y :: rest) = ([], lexOutside (y :: rest)) := by
      rw [lexLiteral, if_pos rfl]
      simp only [if_neg hy]
    obtain ⟨v, tail, hspell⟩ := List.exists_cons_of_ne_nil (spell_unquoted htarget hy).1
    have hv : v ≠ 39 := by
      rintro rfl
      exact (spell_unquoted htarget hy).2 (hspell ▸ List.mem_cons_self)
    have htext : (Sum.inl 39 :: y :: rest).flatMap (spell target) =
        39 :: v :: (tail ++ rest.flatMap (spell target)) := by
      rw [List.flatMap_cons, List.flatMap_cons, hspell]
      rfl
    have htext' : (y :: rest).flatMap (spell target) =
        v :: (tail ++ rest.flatMap (spell target)) := by
      rw [List.flatMap_cons, hspell]
      rfl
    rw [htext'] at hliterals houtside
    rw [SpelledLiteral, htext, readLiteral_closed hv, hlex]
    exact ⟨rfl, hliterals, houtside⟩
  · rintro x rest hx ⟨hliteral, hliterals, houtside⟩
    have hlex : lexLiteral (x :: rest) = (x :: (lexLiteral rest).1, (lexLiteral rest).2) := by
      rw [lexLiteral.eq_def]
      exact if_neg hx
    rw [SpelledLiteral, List.flatMap_cons, readLiteral_append (spell_unquoted htarget hx).2, hlex]
    exact ⟨congrArg (spell target x ++ ·) hliteral, hliterals, houtside⟩

end Spell

/-! ## Tokens -/

/-- A fence token is its prefix, its name and a dollar sign. -/
theorem fenceAt_eq {s : Str} {name : FenceName} (h : fenceAt s = some name) :
    ∃ tail, s = FENCE_PREFIX ++ (name.text ++ 36 :: tail) := by
  dsimp only [fenceAt] at h
  split at h
  · rename_i hfence
    have htext : (s.drop FENCE_PREFIX.length).takeWhile isNameUnit = name.text :=
      congrArg FenceName.text (Option.some.inj h)
    have hend := hfence.2.2
    obtain ⟨rest, hrest⟩ := hfence.1
    have hdrop : s.drop FENCE_PREFIX.length = rest := by rw [← hrest, List.drop_left]
    rw [hdrop] at htext
    rw [← List.drop_drop, hdrop, htext] at hend
    obtain ⟨tail, htail⟩ : name.text <+: rest := htext ▸ List.takeWhile_prefix _
    rw [← htail, List.drop_left] at hend
    cases tail with
    | nil => cases hend
    | cons u tail =>
      obtain rfl := Option.some.inj hend
      exact ⟨tail, by rw [← hrest, ← htail]⟩
  · cases h

/-- A token is read where its text is. -/
theorem tokenAt_source {s : Str} {token : Token} (h : tokenAt s = some token) :
    token.source <+: s := by
  unfold tokenAt at h
  split at h
  · rename_i hbind
    obtain rfl := Option.some.inj h
    cases s with
    | nil => cases hbind
    | cons u rest =>
      obtain rfl := Option.some.inj hbind
      exact ⟨rest, rfl⟩
  · split at h
    · rename_i hnow
      obtain rfl := Option.some.inj h
      exact hnow
    · obtain ⟨name, hname, rfl⟩ := Option.map_eq_some_iff.mp h
      obtain ⟨tail, rfl⟩ := fenceAt_eq hname
      exact ⟨tail, by simp [Token.source]⟩

/-- No token is written with a quote. -/
theorem source_unquoted : Unquoted Token.source := by
  rintro (_ | _ | name)
  · exact ⟨by decide, by decide⟩
  · exact ⟨by decide, by decide⟩
  · refine ⟨by simp [Token.source], fun hmem => ?_⟩
    simp only [Token.source, List.mem_append, List.mem_singleton] at hmem
    obtain (hmem | hmem) | hmem := hmem
    · revert hmem
      decide
    · exact absurd (name.allowed 39 hmem) (by decide)
    · revert hmem
      decide

/-- The lexemes of a text spell it. -/
theorem lexemes_source (skip : ℕ) (s : Str) :
    (lexemes skip s).flatMap (spell Token.source) = s.drop skip := by
  induction s generalizing skip with
  | nil => cases skip <;> rfl
  | cons u rest ih =>
    cases skip with
    | succ skip => exact ih skip
    | zero =>
      rw [lexemes]
      split
      · rename_i token htoken
        obtain ⟨tail, htail⟩ := tokenAt_source htoken
        obtain ⟨v, more, hsource⟩ := List.exists_cons_of_ne_nil (source_unquoted token).1
        rw [hsource, List.cons_append] at htail
        obtain ⟨rfl, rfl⟩ := List.cons.inj htail
        rw [List.flatMap_cons, ih, hsource, List.length_cons, Nat.add_sub_cancel, List.drop_left,
          spell, hsource]
        rfl
      · exact congrArg (u :: ·) (ih 0)

/-- Every question mark of a text is a bind. -/
theorem bind_of_lexemes (skip : ℕ) (s : Str) : .inl 63 ∉ lexemes skip s := by
  induction s generalizing skip with
  | nil => cases skip <;> exact List.not_mem_nil
  | cons u rest ih =>
    cases skip with
    | succ skip => exact ih skip
    | zero =>
      rw [lexemes]
      split
      · intro hmem
        obtain hmem | hmem := List.mem_cons.mp hmem
        · cases hmem
        · exact ih _ hmem
      · rename_i hnone
        intro hmem
        obtain hmem | hmem := List.mem_cons.mp hmem
        · obtain rfl := Sum.inl.inj hmem
          cases hnone
        · exact ih 0 hmem

/-- A fragment's text with its tokens spelled by a function. -/
def interleave (target : Token → Str) : List Str → List Token → Str
  | [], _ => []
  | piece :: _, [] => piece
  | piece :: pieces, token :: tokens => piece ++ target token ++ interleave target pieces tokens

/-- A split text is its lexemes. -/
theorem splitAtTokens_lexemes (skip : ℕ) (s : Str) : (splitAtTokens skip s).pieces ≠ [] ∧
    (splitAtTokens skip s).tokens = (lexemes skip s).filterMap Sum.getRight? ∧
    ∀ target, interleave target (splitAtTokens skip s).pieces (splitAtTokens skip s).tokens =
      (lexemes skip s).flatMap (spell target) := by
  induction s generalizing skip with
  | nil => cases skip <;> exact ⟨List.cons_ne_nil _ _, rfl, fun _ => rfl⟩
  | cons u rest ih =>
    cases skip with
    | succ skip => exact ih skip
    | zero =>
      cases htoken : tokenAt (u :: rest) with
      | some token =>
        obtain ⟨_, htokens, hspell⟩ := ih (token.source.length - 1)
        simp only [splitAtTokens, lexemes, htoken]
        refine ⟨List.cons_ne_nil _ _, congrArg (token :: ·) htokens, fun target => ?_⟩
        rw [List.flatMap_cons, ← hspell]
        rfl
      | none =>
        obtain ⟨hne, htokens, hspell⟩ := ih 0
        obtain ⟨piece, pieces, hpieces⟩ := List.exists_cons_of_ne_nil hne
        simp only [splitAtTokens, lexemes, htoken]
        refine ⟨List.cons_ne_nil _ _, htokens, fun target => ?_⟩
        rw [spell_unit, ← hspell, hpieces]
        cases (splitAtTokens 0 rest).tokens <;> rfl

end Durablerun.Sql
