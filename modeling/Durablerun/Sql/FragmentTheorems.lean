import Durablerun.Sql.PostgresText

/-!
# The readers of a fragment agree on its binds

The text a fragment is placed as spells its tokens anew: a bind and a fence token as `?`, and the clock
token as an expression. Its literals and what stands outside them are those of the fragment, so the
stores find the binds the fragment's reader counted, unless PostgreSQL reads a dollar-quoted string
where the fragment's reader saw none.

Reference: `packages/core/src/sql-tree.ts`.
-/

namespace Durablerun.Sql

open Js

/-! ## The stores' readers -/

/-- A text with its binds numbered from a count on. -/
def numberBinds : ℕ → Str → Str
  | _, [] => []
  | count, u :: rest =>
    if u = 63 then 36 :: decimal (count + 1) ++ numberBinds (count + 1) rest
    else u :: numberBinds count rest

/-- PostgreSQL's binds are the question marks that are not quoted. -/
theorem compileFrom_count (skip count : ℕ) (before s : Str) :
    (compileFrom skip count before s).parameterCount + (quotedFrom skip before s).count 63 =
      count + s.count 63 := by
  induction s generalizing skip count before with
  | nil => cases skip <;> rfl
  | cons u rest ih =>
    cases skip with
    | succ skip =>
      rw [compileFrom, quotedFrom, List.count_cons, List.count_cons, ← add_assoc, ← add_assoc, ih]
    | zero =>
      cases hlexeme : postgresLexeme before (u :: rest) with
      | succ length =>
        simp only [compileFrom, quotedFrom, hlexeme]
        rw [List.count_cons, List.count_cons, ← add_assoc, ← add_assoc, ih]
      | zero =>
        simp only [compileFrom, quotedFrom, hlexeme]
        by_cases hu : u = 63
        · subst hu
          rw [if_pos rfl, ih, List.count_cons_self]
          omega
        · rw [if_neg hu, ih, List.count_cons_of_ne hu]

/-- Where no question mark is quoted, each is numbered. -/
theorem compileFrom_sql (skip count : ℕ) (before s : Str) (h : 63 ∉ quotedFrom skip before s) :
    (compileFrom skip count before s).sql = numberBinds count s := by
  induction s generalizing skip count before with
  | nil => cases skip <;> rfl
  | cons u rest ih =>
    cases skip with
    | succ skip =>
      rw [quotedFrom, List.mem_cons, not_or] at h
      rw [compileFrom, numberBinds, if_neg (Ne.symm h.1), ih skip count _ h.2]
    | zero =>
      cases hlexeme : postgresLexeme before (u :: rest) with
      | succ length =>
        simp only [quotedFrom, hlexeme, List.mem_cons, not_or] at h
        simp only [compileFrom, hlexeme]
        rw [numberBinds, if_neg (Ne.symm h.1), ih length count _ h.2]
      | zero =>
        simp only [quotedFrom, hlexeme] at h
        simp only [compileFrom, hlexeme, numberBinds]
        split
        · rw [ih 0 _ _ h]
        · rw [ih 0 _ _ h]

section Agree

/-- What follows the first unit of a plain text is plain. -/
theorem Plain.tail {u : UInt16} {s : Str} (h : Plain (u :: s)) : Plain s :=
  fun v hv => h v (List.mem_cons_of_mem _ hv)

/-- No comment starts in the text. -/
def NoComment (s : Str) : Prop := ¬ units "--" <:+: s ∧ ¬ units "/*" <:+: s

/-- What follows the first unit of a text without comments has none. -/
theorem NoComment.tail {u : UInt16} {s : Str} (h : NoComment (u :: s)) : NoComment s :=
  ⟨fun hno => h.1 (hno.trans (List.suffix_cons u s).isInfix),
    fun hno => h.2 (hno.trans (List.suffix_cons u s).isInfix)⟩

/-- The first unit outside literals is the text's own. -/
theorem readOutside_head (before : Option UInt16) (s : Str) :
    (readOutside before s).outside.head? = s.head? := by
  cases s with
  | nil => rfl
  | cons u rest =>
    by_cases hu : u = 39
    · subst hu
      rw [readOutside_quote]
      rfl
    · rw [readOutside_unit hu]
      rfl

/-- Where no comment starts outside literals, none starts at a unit there. -/
theorem noComment_at {before : Option UInt16} {u : UInt16} {rest : Str} (hu : u ≠ 39)
    (h : NoComment (readOutside before (u :: rest)).outside) :
    ¬ (u = 45 ∧ rest.head? = some 45) ∧ ¬ (u = 47 ∧ rest.head? = some 42) := by
  rw [readOutside_unit hu] at h
  have hstart : ∀ v w : UInt16, u = v → rest.head? = some w →
      [v, w] <:+: u :: (readOutside (some u) rest).outside := by
    rintro v w rfl hw
    rw [← readOutside_head (some u) rest] at hw
    cases htail : (readOutside (some u) rest).outside with
    | nil =>
      rw [htail] at hw
      cases hw
    | cons x tail =>
      rw [htail] at hw
      obtain rfl := Option.some.inj hw
      exact (List.prefix_append [u, x] tail).isInfix
  exact ⟨fun ⟨hv, hw⟩ => h.1 (hstart 45 45 hv hw), fun ⟨hv, hw⟩ => h.2 (hstart 47 42 hv hw)⟩

/-- MySQL counts the question marks outside literals. -/
theorem countFrom_outside (s : Str) :
    (Plain s → ∀ before, NoComment (readOutside before s).outside →
      countFrom 0 s = (readOutside before s).outside.count 63) ∧
    (Plain s → NoComment (readLiteral s).2.outside →
      countFrom (quoteEnd 39 true s) s = (readLiteral s).2.outside.count 63) := by
  refine read_induction (q := 39)
    (P := fun s => Plain s → ∀ before, NoComment (readOutside before s).outside →
      countFrom 0 s = (readOutside before s).outside.count 63)
    (Q := fun s => Plain s → NoComment (readLiteral s).2.outside →
      countFrom (quoteEnd 39 true s) s = (readLiteral s).2.outside.count 63)
    ?_ ?_ ?_ ?_ ?_ ?_ ?_ ?_ s
  · exact fun _ _ _ => rfl
  · intro rest ih hplain before hcomment
    rw [readOutside_quote] at hcomment ⊢
    have hlexeme : mysqlLexeme (39 :: rest) = quoteEnd 39 true rest + 1 := Nat.add_comm _ _
    simp only [countFrom, hlexeme]
    exact ih hplain.tail hcomment.tail.tail
  · intro u rest hu ih hplain before hcomment
    obtain ⟨hdash, hslash⟩ := noComment_at hu hcomment
    obtain ⟨hdouble, hback, _, hhash⟩ := hplain u List.mem_cons_self
    have hlexeme : mysqlLexeme (u :: rest) = 0 := by
      simp only [mysqlLexeme, hu, hdouble, hback, hhash, hdash, hslash, or_self, if_false]
    rw [readOutside_unit hu] at hcomment ⊢
    simp only [countFrom, hlexeme]
    rw [ih hplain.tail (some u) hcomment.tail, List.count_cons, add_comm]
    simp only [beq_iff_eq]
  · exact fun _ _ => rfl
  · exact fun _ _ => rfl
  · intro rest ih hplain hcomment
    rw [readLiteral_doubled] at hcomment ⊢
    rw [quoteEnd_doubled, Nat.add_comm]
    exact ih hplain.tail.tail hcomment
  · intro v rest hv ih hplain hcomment
    rw [readLiteral_closed hv] at hcomment ⊢
    rw [quoteEnd_closed hv]
    exact ih hplain.tail (some 39) hcomment
  · intro u rest hu ih hplain hcomment
    rw [readLiteral_unit hu] at hcomment ⊢
    rw [quoteEnd_unit (hplain u List.mem_cons_self).2.2.1 hu, Nat.add_comm]
    exact ih hplain.tail hcomment

/-- A text's question marks are outside literals where no literal holds one. -/
theorem count_outside (s : Str) :
    (∀ before, (∀ literal ∈ (readOutside before s).literals, 63 ∉ literal) →
      s.count 63 = (readOutside before s).outside.count 63) ∧
    (63 ∉ (readLiteral s).1 → (∀ literal ∈ (readLiteral s).2.literals, 63 ∉ literal) →
      s.count 63 = (readLiteral s).2.outside.count 63) := by
  refine read_induction (q := 39)
    (P := fun s => ∀ before, (∀ literal ∈ (readOutside before s).literals, 63 ∉ literal) →
      s.count 63 = (readOutside before s).outside.count 63)
    (Q := fun s => 63 ∉ (readLiteral s).1 →
      (∀ literal ∈ (readLiteral s).2.literals, 63 ∉ literal) →
      s.count 63 = (readLiteral s).2.outside.count 63)
    ?_ ?_ ?_ ?_ ?_ ?_ ?_ ?_ s
  · exact fun _ _ => rfl
  · intro rest ih before hliterals
    rw [readOutside_quote] at hliterals ⊢
    exact ih (hliterals _ List.mem_cons_self) fun literal hmem =>
      hliterals literal (List.mem_cons_of_mem _ hmem)
  · intro u rest hu ih before hliterals
    rw [readOutside_unit hu] at hliterals ⊢
    rw [List.count_cons, List.count_cons, ih (some u) hliterals]
  · exact fun _ _ => rfl
  · exact fun _ _ => rfl
  · intro rest ih hliteral hliterals
    rw [readLiteral_doubled] at hliteral hliterals ⊢
    exact ih (List.not_mem_of_not_mem_cons hliteral) hliterals
  · intro v rest hv ih _ hliterals
    rw [readLiteral_closed hv] at hliterals ⊢
    exact ih (some 39) hliterals
  · intro u rest hu ih hliteral hliterals
    rw [readLiteral_unit hu] at hliteral hliterals ⊢
    rw [List.mem_cons, not_or] at hliteral
    rw [List.count_cons_of_ne (Ne.symm hliteral.1), ih hliteral.2 hliterals]

/-- Without a dollar sign outside literals, what PostgreSQL quotes is literals. -/
theorem quotedFrom_literals (s : Str) :
    (Plain s → ∀ before previous, NoComment (readOutside before s).outside →
      36 ∉ (readOutside before s).outside →
      (∀ literal ∈ (readOutside before s).literals, 63 ∉ literal) →
      63 ∉ quotedFrom 0 previous s) ∧
    (Plain s → ∀ escapes previous, NoComment (readLiteral s).2.outside →
      36 ∉ (readLiteral s).2.outside → 63 ∉ (readLiteral s).1 →
      (∀ literal ∈ (readLiteral s).2.literals, 63 ∉ literal) →
      63 ∉ quotedFrom (quoteEnd 39 escapes s) previous s) := by
  -- By the reading of the fragment: each case is a step of it, and the loop takes the same one.
  refine read_induction (q := 39)
    (P := fun s => Plain s → ∀ before previous, NoComment (readOutside before s).outside →
      36 ∉ (readOutside before s).outside →
      (∀ literal ∈ (readOutside before s).literals, 63 ∉ literal) →
      63 ∉ quotedFrom 0 previous s)
    (Q := fun s => Plain s → ∀ escapes previous, NoComment (readLiteral s).2.outside →
      36 ∉ (readLiteral s).2.outside → 63 ∉ (readLiteral s).1 →
      (∀ literal ∈ (readLiteral s).2.literals, 63 ∉ literal) →
      63 ∉ quotedFrom (quoteEnd 39 escapes s) previous s)
    ?_ ?_ ?_ ?_ ?_ ?_ ?_ ?_ s
  · exact fun _ _ _ _ _ _ => List.not_mem_nil
  · intro rest ih hplain before previous hcomment hdollar hliterals
    rw [readOutside_quote] at hcomment hdollar hliterals
    have hlexeme : postgresLexeme previous (39 :: rest) =
        quoteEnd 39 (isEscapeString 39 previous) rest + 1 := Nat.add_comm _ _
    simp only [quotedFrom, hlexeme]
    refine List.not_mem_cons_of_ne_of_not_mem (by decide) ?_
    exact ih hplain.tail _ _ hcomment.tail.tail
      (fun hmem => hdollar (List.mem_cons_of_mem _ (List.mem_cons_of_mem _ hmem)))
      (hliterals _ List.mem_cons_self) fun literal hmem =>
        hliterals literal (List.mem_cons_of_mem _ hmem)
  · intro u rest hu ih hplain before previous hcomment hdollar hliterals
    obtain ⟨hdash, hslash⟩ := noComment_at hu hcomment
    rw [readOutside_unit hu] at hcomment hdollar hliterals
    obtain ⟨hu36, hdollar⟩ := not_or.mp (mt List.mem_cons.mpr hdollar)
    -- No lexeme but a literal starts here: not a comment, and no dollar sign is left outside.
    have hlexeme : postgresLexeme previous (u :: rest) = 0 := by
      simp only [postgresLexeme, hu, (hplain u List.mem_cons_self).1, hdash, hslash, or_self,
        if_false, dollarQuoteDelimiter, ne_eq, Ne.symm hu36, not_false_eq_true, true_or, if_true]
    simp only [quotedFrom, hlexeme]
    exact ih hplain.tail (some u) _ hcomment.tail hdollar hliterals
  · exact fun _ _ _ _ _ _ _ => List.not_mem_nil
  · intro _ escapes previous _ _ _ _
    exact List.not_mem_cons_of_ne_of_not_mem (by decide) List.not_mem_nil
  · intro rest ih hplain escapes previous hcomment hdollar hliteral hliterals
    rw [readLiteral_doubled] at hcomment hdollar hliteral hliterals
    rw [quoteEnd_doubled, Nat.add_comm]
    refine List.not_mem_cons_of_ne_of_not_mem (by decide)
      (List.not_mem_cons_of_ne_of_not_mem (by decide) ?_)
    exact ih hplain.tail.tail _ _ hcomment hdollar (List.not_mem_of_not_mem_cons hliteral) hliterals
  · intro v rest hv ih hplain escapes previous hcomment hdollar _ hliterals
    rw [readLiteral_closed hv] at hcomment hdollar hliterals
    rw [quoteEnd_closed hv]
    refine List.not_mem_cons_of_ne_of_not_mem (by decide) ?_
    exact ih hplain.tail (some 39) _ hcomment hdollar hliterals
  · intro u rest hu ih hplain escapes previous hcomment hdollar hliteral hliterals
    rw [readLiteral_unit hu] at hcomment hdollar hliteral hliterals
    obtain ⟨hu63, hliteral⟩ := not_or.mp (mt List.mem_cons.mpr hliteral)
    rw [quoteEnd_unit (hplain u List.mem_cons_self).2.2.1 hu, Nat.add_comm]
    refine List.not_mem_cons_of_ne_of_not_mem hu63 ?_
    exact ih hplain.tail _ _ hcomment hdollar hliteral hliterals

end Agree

/-! ## Fragments that are accepted -/

/-- How a fragment's token is spelled in a statement, `word` being what the clock is written as. -/
def Token.placed (word : Str) : Token → Str
  | .bind => [63]
  | .now => 40 :: word ++ [41]
  | .fence _ => [63]

/-- The text a fragment is placed as. -/
def ParsedFragment.placed (word : Str) (parsed : ParsedFragment) : Str :=
  interleave (Token.placed word) parsed.pieces parsed.tokens

def Token.isFence : Token → Bool
  | .fence _ => true
  | _ => false

def ParsedFragment.binds (parsed : ParsedFragment) : ℕ := parsed.tokens.count .bind

def ParsedFragment.fences (parsed : ParsedFragment) : ℕ := parsed.tokens.countP Token.isFence

/-- A word of letters. -/
def IsClockWord (word : Str) : Prop := word ≠ [] ∧ ∀ u ∈ word, isLetter u

instance : DecidablePred IsClockWord := fun word =>
  @instDecidableAnd _ _ _ (List.decidableBAll (fun u => isLetter u) word)

/-- The readers of a fragment and of the text it is placed as agree on its binds. -/
structure ReadersAgree (sql : Str) (parsed : ParsedFragment) (word : Str) : Prop where
  tokens : parsed.binds = fragmentBinds sql
  postgres : (compilePostgresPlaceholders (parsed.placed word)).parameterCount =
    fragmentBinds sql + parsed.fences
  mysql : countMysqlPlaceholders (parsed.placed word) = fragmentBinds sql + parsed.fences
  numbered : (compilePostgresPlaceholders (parsed.placed word)).sql =
    numberBinds 0 (parsed.placed word)

/-- What the reader of an accepted fragment checked. -/
theorem parseFragment_ok {sql : Str} {role : RawRole} {parsed : ParsedFragment}
    (h : parseFragment sql role = .ok parsed) : parsed = splitAtTokens 0 sql ∧
      NoComment (readFragment sql).outside ∧
      ∀ literal ∈ (readFragment sql).literals,
        63 ∉ literal ∧ ¬ NOW <:+: literal ∧ ¬ FENCE_PREFIX <:+: literal := by
  dsimp only [parseFragment] at h
  repeat' split at h
  all_goals cases h
  rename_i hcomment _ _ hliterals _
  refine ⟨rfl, not_or.mp hcomment, fun literal hmem => ?_⟩
  have hno := mt List.any_eq_true.mpr hliterals
  refine ⟨fun hbind => hno ⟨literal, hmem, ?_⟩, fun hnow => hno ⟨literal, hmem, ?_⟩,
    fun hfence => hno ⟨literal, hmem, ?_⟩⟩
  · exact decide_eq_true (Or.inl hbind)
  · exact decide_eq_true (Or.inr (Or.inl hnow))
  · exact decide_eq_true (Or.inr (Or.inr hfence))

section Accepted

variable {word : Str} (hword : IsClockWord word)
include hword

/-- A clock word has letters only. -/
theorem IsClockWord.letter {u : UInt16} (hu : u ∈ word) :
    65 ≤ u.toNat ∧ u.toNat ≤ 90 ∨ 97 ≤ u.toNat ∧ u.toNat ≤ 122 := by
  have hletter := hword.2 u hu
  simp only [isLetter, Bool.or_eq_true, Bool.and_eq_true, decide_eq_true_eq,
    UInt16.le_iff_toNat_le] at hletter
  exact hletter

omit hword in
/-- A placed token is letters, parentheses and question marks. -/
theorem placed_units {token : Token} {u : UInt16} (hu : u ∈ token.placed word) :
    u = 63 ∨ u = 40 ∨ u = 41 ∨ u ∈ word := by
  cases token with
  | bind | fence => exact Or.inl (List.mem_singleton.mp hu)
  | now =>
    simp only [Token.placed, List.cons_append, List.mem_cons, List.mem_append,
      List.not_mem_nil, or_false] at hu
    obtain rfl | hu | rfl := hu
    · exact Or.inr (Or.inl rfl)
    · exact Or.inr (Or.inr (Or.inr hu))
    · exact Or.inr (Or.inr (Or.inl rfl))

/-- No unit that a reader takes for more is in a placed token. -/
theorem not_mem_placed {u : UInt16} (token : Token)
    (hu : u ∈ [39, 34, 96, 92, 35, 45, 47, 42, 36, 10, 13]) : u ∉ token.placed word := by
  intro hmem
  obtain rfl | rfl | rfl | hmem := placed_units hmem
  · exact absurd hu (by decide)
  · exact absurd hu (by decide)
  · exact absurd hu (by decide)
  · have hletter := hword.letter hmem
    simp only [List.mem_cons, List.not_mem_nil, or_false] at hu
    obtain rfl | rfl | rfl | rfl | rfl | rfl | rfl | rfl | rfl | rfl | rfl := hu
    all_goals revert hletter; decide

/-- No token is placed as a quote. -/
theorem placed_unquoted : Unquoted (Token.placed word) := by
  intro token
  refine ⟨?_, not_mem_placed hword token (by decide)⟩
  cases token <;> exact List.cons_ne_nil _ _

/-- PostgreSQL reads nothing into a placed token, and a bind and a fence are question marks. -/
theorem placed_inert : Inert (Token.placed word) := by
  refine ⟨fun token u hu hmem => not_mem_placed hword token (List.Sublist.subset (by decide) hmem) hu,
    fun token => ?_, fun token => ?_, fun token => ?_⟩
  · cases token with
    | bind | fence => exact ⟨63, [], rfl, by decide⟩
    | now => exact ⟨40, word ++ [41], rfl, by decide⟩
  · cases token with
    | bind | fence => exact ⟨[], 63, rfl, by decide⟩
    | now => exact ⟨40 :: word, 41, rfl, by decide⟩
  · cases token with
    | bind | fence => simp [Token.placed]
    | now =>
      refine ⟨fun hmem => ?_, fun h => absurd rfl h⟩
      simp only [Token.placed, List.cons_append, List.mem_cons, List.mem_append, List.not_mem_nil,
        or_false] at hmem
      obtain hmem | hmem | hmem := hmem
      · exact absurd hmem (by decide)
      · have hletter := hword.letter hmem
        revert hletter
        decide
      · exact absurd hmem (by decide)

/-- A pair of units no placed token has is spelled where the fragment spelled it. -/
theorem infix_of_placed {a b : UInt16} (ha : ∀ token : Token, a ∉ token.placed word)
    (hb : ∀ token : Token, b ∉ token.placed word) (xs : List Lexeme)
    (h : [a, b] <:+: xs.flatMap (spell (Token.placed word))) :
    [a, b] <:+: xs.flatMap (spell Token.source) := by
  induction xs with
  | nil => exact h
  | cons x xs ih =>
    cases x with
    | inl u =>
      rw [spell_unit, List.infix_cons_iff] at h ⊢
      refine h.imp (fun hstarts => ?_) ih
      rw [List.cons_prefix_cons] at hstarts ⊢
      refine ⟨hstarts.1, ?_⟩
      -- The second unit is no token's, so it is the next lexeme.
      cases xs with
      | nil => exact hstarts.2
      | cons y ys =>
        cases y with
        | inl v =>
          rw [spell_unit, List.cons_prefix_cons] at hstarts ⊢
          exact ⟨hstarts.2.1, List.nil_prefix⟩
        | inr token =>
          obtain ⟨v, tail, hspell⟩ := List.exists_cons_of_ne_nil (placed_unquoted hword token).1
          rw [List.flatMap_cons, spell, hspell, List.cons_append, List.cons_prefix_cons] at hstarts
          exact absurd (hspell ▸ hstarts.2.1 ▸ List.mem_cons_self) (hb token)
    | inr token =>
      have hrest : ∀ s : Str, a ∉ s → [a, b] <:+: s ++ xs.flatMap (spell (Token.placed word)) →
          [a, b] <:+: xs.flatMap (spell (Token.placed word)) := by
        intro s
        induction s with
        | nil => exact fun _ h => h
        | cons v s ih' =>
          intro hs h
          rw [List.mem_cons, not_or] at hs
          rw [List.cons_append, List.infix_cons_iff, List.cons_prefix_cons] at h
          exact h.elim (fun h => absurd h.1 hs.1) (ih' hs.2)
      exact (ih (hrest _ (ha token) h)).trans (List.suffix_append _ _).isInfix

/-- What the fragment's reading and its split say of the text it is placed as. -/
theorem placed_reading {sql : Str} {role : RawRole} {parsed : ParsedFragment}
    (hparse : parseFragment sql role = .ok parsed) (hplain : Plain sql) :
    Plain (parsed.placed word) ∧ NoComment (readFragment (parsed.placed word)).outside ∧
      ∀ literal ∈ (readFragment (parsed.placed word)).literals, 63 ∉ literal := by
  obtain ⟨rfl, hcomment, hliterals⟩ := parseFragment_ok hparse
  have hplaced := (splitAtTokens_lexemes 0 sql).2.2 (Token.placed word)
  have hsource : (lexemes 0 sql).flatMap (spell Token.source) = sql := lexemes_source 0 sql
  obtain ⟨hsliterals, hsoutside⟩ := (read_spell source_unquoted (lexemes 0 sql)).1 none
  obtain ⟨hpliterals, hpoutside⟩ := (read_spell (placed_unquoted hword) (lexemes 0 sql)).1 none
  rw [hsource] at hsliterals hsoutside
  rw [← hplaced] at hpliterals hpoutside
  refine ⟨fun u hu => ?_, ?_, fun literal hmem => ?_⟩
  · rw [ParsedFragment.placed, hplaced, List.mem_flatMap] at hu
    obtain ⟨x, hx, hu⟩ := hu
    cases x with
    | inl v =>
      obtain rfl := List.mem_singleton.mp hu
      refine hplain u (hsource ▸ List.mem_flatMap.mpr ⟨_, hx, List.mem_singleton_self u⟩)
    | inr token =>
      refine ⟨?_, ?_, ?_, ?_⟩
      all_goals
        rintro rfl
        exact not_mem_placed hword token (by decide) hu
  -- A comment that starts in the placed text starts in the fragment: no token is spelled with its
  -- marks.
  · unfold readFragment at hcomment ⊢
    rw [ParsedFragment.placed, hpoutside]
    rw [hsoutside] at hcomment
    exact ⟨fun h => hcomment.1 (infix_of_placed hword (not_mem_placed hword · (by decide))
        (not_mem_placed hword · (by decide)) _ h),
      fun h => hcomment.2 (infix_of_placed hword (not_mem_placed hword · (by decide))
        (not_mem_placed hword · (by decide)) _ h)⟩
  · -- A literal of the fragment holds no token, so it is spelled as it was.
    unfold readFragment at hliterals hmem
    rw [ParsedFragment.placed, hpliterals] at hmem
    obtain ⟨xs, hxs, rfl⟩ := List.mem_map.mp hmem
    have hread := hliterals (xs.flatMap (spell Token.source))
      (hsliterals ▸ List.mem_map_of_mem hxs)
    have hnone : ∀ token, .inr token ∉ xs := by
      intro token htoken
      obtain ⟨before, after, rfl⟩ := List.append_of_mem htoken
      have hwithin : token.source <:+:
          (before ++ .inr token :: after).flatMap (spell Token.source) :=
        ⟨before.flatMap (spell Token.source), after.flatMap (spell Token.source), by
          rw [List.flatMap_append, List.flatMap_cons, ← List.append_assoc]
          rfl⟩
      cases token with
      | bind => exact hread.1 (hwithin.subset List.mem_cons_self)
      | now => exact hread.2.1 hwithin
      | fence name =>
        refine hread.2.2 (List.IsInfix.trans ?_ hwithin)
        exact ⟨[], name.text ++ [36], by simp [Token.source]⟩
    have hspell : xs.flatMap (spell (Token.placed word)) = xs.flatMap (spell Token.source) := by
      refine List.flatMap_congr fun x hx => ?_
      cases x with
      | inl u => rfl
      | inr token => exact absurd hx (hnone token)
    rw [hspell]
    exact hread.1

omit hword in
/-- The question marks of lexemes, however their tokens are spelled. -/
theorem count_spell (target : Token → Str) {xs : List Lexeme} (h : .inl 63 ∉ xs) :
    (xs.flatMap (spell target)).count 63 =
      ((xs.filterMap Sum.getRight?).map fun token => (target token).count 63).sum := by
  induction xs with
  | nil => rfl
  | cons x xs ih =>
    rw [List.mem_cons, not_or] at h
    cases x with
    | inl u =>
      rw [spell_unit, List.count_cons_of_ne fun hu => h.1 (congrArg Sum.inl hu.symm), ih h.2]
      rfl
    | inr token =>
      rw [List.flatMap_cons, List.count_append, ih h.2]
      rfl

omit hword in
/-- A fragment's binds are its question marks. -/
theorem binds_count (sql : Str) : (splitAtTokens 0 sql).binds = sql.count 63 := by
  have hcount := count_spell Token.source (bind_of_lexemes 0 sql)
  rw [lexemes_source, List.drop_zero, ← (splitAtTokens_lexemes 0 sql).2.1] at hcount
  rw [hcount, ParsedFragment.binds]
  induction (splitAtTokens 0 sql).tokens with
  | nil => rfl
  | cons token tokens ih =>
    rw [List.map_cons, List.sum_cons, ← ih, List.count_cons, Nat.add_comm]
    congr 1
    cases token with
    | bind | now => rfl
    | fence name =>
      refine (List.count_eq_zero.mpr fun hmem => ?_).symm
      simp only [Token.source, List.mem_append, List.mem_singleton] at hmem
      obtain (hmem | hmem) | hmem := hmem
      · revert hmem
        decide
      · exact absurd (name.allowed 63 hmem) (by decide)
      · revert hmem
        decide

/-- The question marks of the text a fragment is placed as are its binds and its fences. -/
theorem placed_count (sql : Str) : ((splitAtTokens 0 sql).placed word).count 63 =
    (splitAtTokens 0 sql).binds + (splitAtTokens 0 sql).fences := by
  have hcount := count_spell (Token.placed word) (bind_of_lexemes 0 sql)
  rw [← (splitAtTokens_lexemes 0 sql).2.2, ← (splitAtTokens_lexemes 0 sql).2.1] at hcount
  rw [ParsedFragment.placed, hcount, ParsedFragment.binds, ParsedFragment.fences]
  have hnow : (Token.now.placed word).count 63 = 0 := by
    refine List.count_eq_zero.mpr fun hmem => ?_
    simp only [Token.placed, List.cons_append, List.mem_cons, List.mem_append, List.not_mem_nil,
      or_false] at hmem
    obtain hmem | hmem | hmem := hmem
    · revert hmem
      decide
    · have hletter := hword.letter hmem
      revert hletter
      decide
    · revert hmem
      decide
  induction (splitAtTokens 0 sql).tokens with
  | nil => rfl
  | cons token tokens ih =>
    rw [List.map_cons, List.sum_cons, ih, List.count_cons, List.countP_cons]
    cases token with
    | bind => show 1 + _ = _ + 1 + (_ + 0); omega
    | now => rw [hnow]; show 0 + _ = _ + 0 + (_ + 0); omega
    | fence name => show 1 + _ = _ + 0 + (_ + 1); omega

end Accepted

/-- The readers of an accepted fragment agree where PostgreSQL's rules show every bind and fence of it;
and they do where its split leaves no dollar sign outside its literals. -/
theorem readers_agree_iff (sql : Str) (role : RawRole) (parsed : ParsedFragment) (word : Str)
    (hparse : parseFragment sql role = .ok parsed) (hplain : Plain sql) (hword : IsClockWord word) :
    (ReadersAgree sql parsed word ↔ PostgresShows sql) ∧ (NoDollarLeft sql → PostgresShows sql) := by
  obtain ⟨hplain', hcomment, hliterals⟩ := placed_reading hword hparse hplain
  have hsource := (parseFragment_ok hparse).2.2
  have hbinds : parsed.binds = fragmentBinds sql := by
    obtain rfl := (parseFragment_ok hparse).1
    rw [binds_count]
    exact (count_outside sql).1 none fun literal hmem => (hsource literal hmem).1
  have hcount : (parsed.placed word).count 63 = fragmentBinds sql + parsed.fences := by
    rw [← hbinds]
    obtain rfl := (parseFragment_ok hparse).1
    exact placed_count hword sql
  have hmysql : countMysqlPlaceholders (parsed.placed word) = fragmentBinds sql + parsed.fences := by
    rw [← hcount, (count_outside _).1 none hliterals]
    exact (countFrom_outside _).1 hplain' none hcomment
  have hpostgres := compileFrom_count 0 0 [] (parsed.placed word)
  have hplaced : parsed.placed word = (lexemes 0 sql).flatMap (spell (Token.placed word)) := by
    obtain rfl := (parseFragment_ok hparse).1
    exact (splitAtTokens_lexemes 0 sql).2.2 _
  have hshows : PostgresShows sql ↔ 63 ∉ postgresQuoted (parsed.placed word) := by
    unfold postgresQuoted
    rw [hplaced]
    refine shows_iff (placed_inert hword) rfl fun u hu => ?_
    have hmem : u ∈ sql := by
      have hspelled : u ∈ (lexemes 0 sql).flatMap (spell Token.source) :=
        List.mem_flatMap.mpr ⟨.inl u, hu, List.mem_singleton_self u⟩
      rwa [lexemes_source] at hspelled
    refine ⟨(hplain u hmem).1, (hplain u hmem).2.2.1, ?_⟩
    rintro rfl
    exact bind_of_lexemes 0 sql hu
  have hagree : ReadersAgree sql parsed word ↔ 63 ∉ postgresQuoted (parsed.placed word) := by
    constructor
    · intro h
      rw [← List.count_eq_zero]
      have hnumbered := h.postgres
      unfold compilePostgresPlaceholders at hnumbered
      rw [hnumbered, hcount] at hpostgres
      unfold postgresQuoted
      omega
    · intro hquoted
      refine ⟨hbinds, ?_, hmysql, compileFrom_sql 0 0 [] _ hquoted⟩
      have hnone : (quotedFrom 0 [] (parsed.placed word)).count 63 = 0 :=
        List.count_eq_zero.mpr hquoted
      rw [hnone, hcount, Nat.zero_add, Nat.add_zero] at hpostgres
      exact hpostgres
  refine ⟨hagree.trans hshows.symm, fun hleft => hshows.mpr ?_⟩
  refine (quotedFrom_literals _).1 hplain' none [] hcomment (fun hdollar => hleft ?_) hliterals
  -- A dollar sign outside the literals of the placed text is one the split left.
  have houtside := ((read_spell (placed_unquoted hword) (lexemes 0 sql)).1 none).2
  rw [← hplaced] at houtside
  have hdollar' : 36 ∈ (lexOutside (lexemes 0 sql)).2.flatMap (spell (Token.placed word)) :=
    houtside ▸ hdollar
  obtain ⟨x, hx, hunit⟩ := List.mem_flatMap.mp hdollar'
  cases x with
  | inl u => exact List.mem_singleton.mp hunit ▸ hx
  | inr token => exact absurd hunit (not_mem_placed hword token (by decide))

/-- A bind, the clock and a fence. -/
theorem readers_agree_iff_win : PostgresShows (units "a = ? and b <= $NOW$ and c = $FENCE:win$") ∧
    ReadersAgree (units "a = ? and b <= $NOW$ and c = $FENCE:win$")
      (splitAtTokens 0 (units "a = ? and b <= $NOW$ and c = $FENCE:win$")) (units "clock") := by
  have hagree := readers_agree_iff (units "a = ? and b <= $NOW$ and c = $FENCE:win$") .value
    (splitAtTokens 0 (units "a = ? and b <= $NOW$ and c = $FENCE:win$")) (units "clock")
    (by decide +kernel) (by decide +kernel) (by decide +kernel)
  have hshows := hagree.2 (by decide +kernel)
  exact ⟨hshows, hagree.1.mpr hshows⟩

/-- A fence token that takes a clock token's dollar sign leaves one behind, and PostgreSQL reads a
dollar-quoted string from there on. -/
theorem overlapping_tokens_hide_bind :
    ¬ ∀ (sql : Str) (role : RawRole) (parsed : ParsedFragment) (word : Str),
      parseFragment sql role = .ok parsed → Plain sql → IsClockWord word →
      ReadersAgree sql parsed word := by
  intro hall
  have hagree := hall (units "$NOW$FENCE:a-$$?") .value
    (splitAtTokens 0 (units "$NOW$FENCE:a-$$?")) (units "clock") (by decide +kernel)
    (by decide +kernel) (by decide +kernel)
  have hnone : (compilePostgresPlaceholders ((splitAtTokens 0 (units "$NOW$FENCE:a-$$?")).placed
    (units "clock"))).parameterCount = 0 := by decide +kernel
  have hone : fragmentBinds (units "$NOW$FENCE:a-$$?") = 1 := by decide +kernel
  have hpostgres := hagree.postgres
  omega

end Durablerun.Sql
