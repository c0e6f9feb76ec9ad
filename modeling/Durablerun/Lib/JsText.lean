import Durablerun.Lib.JsJson

/-!
# JSON texts read back

The text of a JSON value is read back as the value, whatever it nests, when its numbers are written as
JSON writes numbers. It has no lone surrogate, whatever strings the value holds: a text that is kept in
UTF-8 is read back too.
-/

namespace Js

/-! ## Texts -/

mutual

/-- A value as a JSON text. -/
def Value.text : Value → Str
  | .null => units "null"
  | .bool true => units "true"
  | .bool false => units "false"
  | .number literal => literal
  | .string s => quote s
  | .array items => 91 :: (Value.itemsText items ++ [93])
  | .object members => 123 :: (Value.membersText members ++ [125])

/-- Items' texts, separated by commas. -/
def Value.itemsText : List Value → Str
  | [] => []
  | item :: rest => item.text ++ (if rest.isEmpty then [] else 44 :: Value.itemsText rest)

/-- Members' texts, separated by commas. -/
def Value.membersText : List (Str × Value) → Str
  | [] => []
  | (name, value) :: rest =>
    quote name ++ 58 :: value.text ++ (if rest.isEmpty then [] else 44 :: Value.membersText rest)

end

/-! ## Numbers -/

/-- Digits, at least one. -/
def Digits (s : Str) : Prop := s ≠ [] ∧ ∀ u ∈ s, isDigit u = true
deriving Decidable

/-- The text of a number, as JSON has it: a sign, digits that start with no zero but one alone, a
fraction and an exponent. -/
structure NumberText (s : Str) : Prop where
  parts : ∃ sign int frac exp : Str, s = sign ++ int ++ frac ++ exp ∧ (sign = [] ∨ sign = [45]) ∧
    (int = [48] ∨ Digits int ∧ int.head? ≠ some 48) ∧
    (frac = [] ∨ ∃ ds, frac = 46 :: ds ∧ Digits ds) ∧
    (exp = [] ∨ ∃ e sign ds, exp = e :: (sign ++ ds) ∧ (e = 101 ∨ e = 69) ∧
      (sign = [] ∨ sign = [43] ∨ sign = [45]) ∧ Digits ds)

/-- What may follow a value: a separator, or nothing. -/
def Closes (rest : Str) : Prop :=
  rest = [] ∨ ∃ sep tail, rest = sep :: tail ∧ (sep = 44 ∨ sep = 93 ∨ sep = 125)

/-- The text goes on with no digit. -/
def NoDigit (rest : Str) : Prop := ∀ u ∈ rest.head?, isDigit u = false

/-- A run of digits is read up to the first unit that is none. -/
theorem readDigits_append {ds rest : Str} (hds : Digits ds) (hrest : NoDigit rest) :
    readDigits (ds ++ rest) = some (ds, rest) := by
  have hspan : (ds ++ rest).span isDigit = (ds, rest) := by
    rw [List.span_eq_takeWhile_dropWhile, List.takeWhile_append_of_pos hds.2,
      List.dropWhile_append_of_pos hds.2]
    cases rest with
    | nil => simp
    | cons u rest =>
      have hu : isDigit u = false := hrest u rfl
      simp [hu]
  unfold readDigits
  rw [hspan]
  obtain ⟨d, ds, rfl⟩ := List.exists_cons_of_ne_nil hds.1
  rfl

/-- A number's integer part is read up to what follows it. -/
theorem integerPart_append {int rest : Str} (hint : int = [48] ∨ Digits int ∧ int.head? ≠ some 48)
    (hrest : NoDigit rest) : integerPart (int ++ rest) = some (int, rest) := by
  obtain rfl | ⟨hds, hhead⟩ := hint
  · rfl
  · rw [← readDigits_append hds hrest]
    obtain ⟨d, ds, rfl⟩ := List.exists_cons_of_ne_nil hds.1
    have hd : d ≠ 48 := fun heq => hhead (heq ▸ rfl)
    unfold integerPart
    split
    · rename_i heq
      exact absurd (List.cons.inj heq).1 hd
    · rfl

/-- A number's fraction, or none, is read up to what follows it. -/
theorem fractionPart_append {frac rest : Str} (hfrac : frac = [] ∨ ∃ ds, frac = 46 :: ds ∧ Digits ds)
    (hrest : NoDigit rest) (hpoint : ∀ u ∈ rest.head?, u ≠ 46) :
    fractionPart (frac ++ rest) = some (frac, rest) := by
  obtain rfl | ⟨ds, rfl, hds⟩ := hfrac
  · rw [List.nil_append]
    unfold fractionPart
    split
    · exact absurd rfl (hpoint 46 rfl)
    · rfl
  · rw [List.cons_append, fractionPart, readDigits_append hds hrest]
    rfl

/-- A run of digits has a first one. -/
theorem Digits.head {ds : Str} (h : Digits ds) : ∃ d tail, ds = d :: tail ∧ isDigit d = true := by
  obtain ⟨d, tail, rfl⟩ := List.exists_cons_of_ne_nil h.1
  exact ⟨d, tail, rfl, h.2 d List.mem_cons_self⟩

/-- A number's exponent, or none, is read up to what follows it. -/
theorem exponentPart_append {exp rest : Str} (hexp : exp = [] ∨ ∃ e sign ds, exp = e :: (sign ++ ds) ∧
      (e = 101 ∨ e = 69) ∧ (sign = [] ∨ sign = [43] ∨ sign = [45]) ∧ Digits ds)
    (hrest : NoDigit rest) (hletter : ∀ u ∈ rest.head?, u ≠ 101 ∧ u ≠ 69) :
    exponentPart (exp ++ rest) = some (exp, rest) := by
  obtain rfl | ⟨e, sign, ds, rfl, he, hsign, hds⟩ := hexp
  · rw [List.nil_append]
    cases rest with
    | nil => rfl
    | cons u rest =>
      obtain ⟨h, h'⟩ := hletter u rfl
      rw [exponentPart.eq_def]
      exact if_neg (by simp [h, h'])
  · have hread := readDigits_append hds hrest
    rw [List.cons_append, exponentPart.eq_def]
    simp only [if_pos he]
    obtain ⟨d, tail, rfl, hd⟩ := hds.head
    obtain rfl | rfl | rfl := hsign
    · have hplus : d ≠ 43 := by
        rintro rfl
        cases hd
      have hminus : d ≠ 45 := by
        rintro rfl
        cases hd
      simp only [List.nil_append, List.cons_append] at hread ⊢
      split
      · rename_i heq
        exact absurd (List.cons.inj heq).1 hplus
      · rename_i heq
        exact absurd (List.cons.inj heq).1 hminus
      · rw [hread]
        rfl
    · simp only [List.cons_append, List.nil_append] at hread ⊢
      rw [hread]
      rfl
    · simp only [List.cons_append, List.nil_append] at hread ⊢
      rw [hread]
      rfl

/-- A separator is no part of a number. -/
theorem Closes.ends {rest : Str} (h : Closes rest) : NoDigit rest ∧
    ∀ u ∈ rest.head?, u ≠ 46 ∧ u ≠ 101 ∧ u ≠ 69 := by
  obtain rfl | ⟨sep, tail, rfl, rfl | rfl | rfl⟩ := h
  · exact ⟨fun u hu => absurd hu (Option.not_mem_none u), fun u hu => absurd hu (Option.not_mem_none u)⟩
  all_goals
    refine ⟨fun u hu => ?_, fun u hu => ?_⟩
    all_goals
      obtain rfl := Option.some.inj hu
      decide

/-- What starts a number. -/
theorem NumberText.head {s : Str} (h : NumberText s) :
    ∃ u tail, s = u :: tail ∧ (u = 45 ∨ isDigit u = true) := by
  obtain ⟨sign, int, frac, exp, rfl, rfl | rfl, hint, _⟩ := h.parts
  · obtain rfl | ⟨hds, _⟩ := hint
    · exact ⟨48, _, rfl, Or.inr rfl⟩
    · obtain ⟨d, tail, rfl, hd⟩ := hds.head
      exact ⟨d, _, rfl, Or.inr hd⟩
  · exact ⟨45, _, rfl, Or.inl rfl⟩

/-- The parts of a number are read one after another. -/
theorem readParts_append {int frac exp rest : Str}
    (hint : integerPart (int ++ (frac ++ (exp ++ rest))) = some (int, frac ++ (exp ++ rest)))
    (hfrac : fractionPart (frac ++ (exp ++ rest)) = some (frac, exp ++ rest))
    (hexp : exponentPart (exp ++ rest) = some (exp, rest)) (sign : Str) :
    (do
      let (int, s) ← integerPart (int ++ (frac ++ (exp ++ rest)))
      let (frac, s) ← fractionPart s
      let (exp, s) ← exponentPart s
      return (sign ++ int ++ frac ++ exp, s)) = some (sign ++ int ++ frac ++ exp, rest) := by
  rw [hint]
  simp only [Option.bind_eq_bind, Option.bind_some, hfrac, hexp]
  rfl

/-- A number is read up to what follows it. -/
theorem readNumber_append {s rest : Str} (h : NumberText s) (hrest : Closes rest) :
    readNumber (s ++ rest) = some (s, rest) := by
  obtain ⟨sign, int, frac, exp, rfl, hsign, hint, hfrac, hexp⟩ := h.parts
  obtain ⟨hdigit, hends⟩ := hrest.ends
  -- What follows the integer part is a point, a letter or what follows the number.
  have hexpDigit : NoDigit (exp ++ rest) := by
    obtain rfl | ⟨e, sign, ds, rfl, rfl | rfl, _⟩ := hexp
    · exact hdigit
    all_goals
      intro u hu
      obtain rfl := Option.some.inj hu
      rfl
  have hexpPoint : ∀ u ∈ (exp ++ rest).head?, u ≠ 46 := by
    obtain rfl | ⟨e, sign, ds, rfl, rfl | rfl, _⟩ := hexp
    · exact fun u hu => (hends u hu).1
    all_goals
      intro u hu
      obtain rfl := Option.some.inj hu
      decide
  have hfracDigit : NoDigit (frac ++ (exp ++ rest)) := by
    obtain rfl | ⟨ds, rfl, _⟩ := hfrac
    · exact hexpDigit
    · intro u hu
      obtain rfl := Option.some.inj hu
      rfl
  have hread := readParts_append (integerPart_append hint hfracDigit)
    (fractionPart_append hfrac hexpDigit hexpPoint)
    (exponentPart_append hexp hdigit fun u hu => (hends u hu).2)
  obtain rfl | rfl := hsign
  · -- The text has no sign, so `readNumber` takes none off.
    have hminus : ∀ tail, int ++ (frac ++ (exp ++ rest)) ≠ 45 :: tail := by
      intro tail heq
      obtain rfl | ⟨hds, _⟩ := hint
      · exact absurd (List.cons.inj heq).1 (by decide)
      · obtain ⟨d, ds, rfl, hd⟩ := hds.head
        obtain rfl := (List.cons.inj heq).1
        cases hd
    rw [← hread []]
    unfold readNumber
    simp only [List.nil_append, List.append_assoc]
  · rw [← hread [45]]
    unfold readNumber
    simp only [List.cons_append, List.nil_append, List.append_assoc]

/-! ## Values -/

/-- Every number in the value is written as one. -/
inductive Value.Written : Value → Prop
  | null : Written .null
  | bool (b : Bool) : Written (.bool b)
  | number {literal : Str} (h : NumberText literal) : Written (.number literal)
  | string (s : Str) : Written (.string s)
  | array {items : List Value} (h : ∀ item ∈ items, Written item) : Written (.array items)
  | object {members : List (Str × Value)} (h : ∀ m ∈ members, Written m.2) : Written (.object members)

/-- What starts a value is no space and closes no bracket. -/
theorem Value.Written.head {v : Value} (h : v.Written) : ∃ u tail, v.text = u :: tail ∧
    isJsonSpace u = false ∧ u ≠ 93 ∧ u ≠ 125 := by
  cases h with
  | null => exact ⟨_, _, rfl, by decide, by decide, by decide⟩
  | bool b => cases b <;> exact ⟨_, _, rfl, by decide, by decide, by decide⟩
  | string s => exact ⟨_, _, rfl, by decide, by decide, by decide⟩
  | array => exact ⟨_, _, rfl, by decide, by decide, by decide⟩
  | object => exact ⟨_, _, rfl, by decide, by decide, by decide⟩
  | number h =>
    obtain ⟨u, tail, rfl, rfl | hu⟩ := h.head
    · exact ⟨_, _, rfl, by decide, by decide, by decide⟩
    · refine ⟨u, tail, rfl, ?_, ?_, ?_⟩
      · unfold isDigit at hu
        unfold isJsonSpace
        simp only [Bool.and_eq_true, decide_eq_true_eq, Bool.or_eq_false_iff,
          decide_eq_false_iff_not] at hu ⊢
        have hmin : 48 ≤ u.toNat := UInt16.le_iff_toNat_le.mp hu.1
        refine ⟨⟨⟨?_, ?_⟩, ?_⟩, ?_⟩ <;>
        · rintro rfl
          exact absurd hmin (by decide)
      · rintro rfl
        cases hu
      · rintro rfl
        cases hu

/-- The value of a text is read, wherever the text ends. -/
def ReadsAs (v : Value) : Prop := ∀ fuel rest, v.text.length < fuel → Closes rest →
  readValue fuel (v.text ++ rest) = some (v, rest)

/-- A written value begins with no space. -/
theorem skip_text {v : Value} (h : v.Written) (rest : Str) : skip (v.text ++ rest) = v.text ++ rest := by
  obtain ⟨u, tail, heq, hu, _⟩ := h.head
  rw [heq]
  exact skip_of_not_space hu _

/-- What closes a value begins with no space. -/
theorem Closes.skip {rest : Str} (h : Closes rest) : Js.skip rest = rest := by
  obtain rfl | ⟨sep, tail, rfl, rfl | rfl | rfl⟩ := h
  · rfl
  all_goals exact skip_of_not_space (by decide) tail

/-- A comma closes a value. -/
theorem closes_comma (rest : Str) : Closes (44 :: rest) := Or.inr ⟨44, rest, rfl, Or.inl rfl⟩

/-- Items are read up to the bracket that closes them. -/
theorem readItems_text {items : List Value} (hwritten : ∀ item ∈ items, item.Written)
    (hreads : ∀ item ∈ items, ReadsAs item) (hne : items ≠ []) (fuel : ℕ) (rest : Str)
    (hfuel : (Value.itemsText items).length + 1 < fuel) :
    readItems fuel (Value.itemsText items ++ 93 :: rest) = some (items, rest) := by
  induction items generalizing fuel with
  | nil => exact absurd rfl hne
  | cons item items ih =>
    obtain ⟨fuel, rfl⟩ : ∃ n, fuel = n + 1 := ⟨fuel - 1, by omega⟩
    have hitem := hreads item List.mem_cons_self
    rw [Value.itemsText, List.length_append] at hfuel
    cases items with
    | nil =>
      have hread := hitem fuel (93 :: rest) (by omega)
        (Or.inr ⟨93, rest, rfl, Or.inr (Or.inl rfl)⟩)
      have htext : Value.itemsText [item] = item.text := by
        rw [Value.itemsText]
        exact List.append_nil _
      rw [htext, readItems, hread]
      rfl
    | cons next items =>
      have hread := hitem fuel (44 :: (Value.itemsText (next :: items) ++ 93 :: rest)) (by omega)
        (closes_comma _)
      have hrest := ih (fun v hv => hwritten v (List.mem_cons_of_mem _ hv))
        (fun v hv => hreads v (List.mem_cons_of_mem _ hv)) (List.cons_ne_nil _ _) fuel (by
          rw [if_neg (by simp), List.length_cons] at hfuel
          omega)
      have hskip : skip (Value.itemsText (next :: items) ++ 93 :: rest) =
          Value.itemsText (next :: items) ++ 93 :: rest := by
        rw [Value.itemsText, List.append_assoc]
        exact skip_text (hwritten next (List.mem_cons_of_mem _ List.mem_cons_self)) _
      have htext : Value.itemsText (item :: next :: items) ++ 93 :: rest =
          item.text ++ 44 :: (Value.itemsText (next :: items) ++ 93 :: rest) := by
        rw [Value.itemsText, if_neg (by simp), List.append_assoc, List.cons_append]
      rw [htext, readItems, hread]
      simp only [Option.bind_eq_bind, Option.bind_some, (closes_comma _).skip, hskip, hrest]
      rfl

/-- Members are read up to the brace that closes them. -/
theorem readMembers_text {members : List (Str × Value)} (hwritten : ∀ m ∈ members, m.2.Written)
    (hreads : ∀ m ∈ members, ReadsAs m.2) (hne : members ≠ []) (fuel : ℕ) (rest : Str)
    (hfuel : (Value.membersText members).length + 1 < fuel) :
    readMembers fuel (Value.membersText members ++ 125 :: rest) = some (members, rest) := by
  induction members generalizing fuel with
  | nil => exact absurd rfl hne
  | cons m members ih =>
    obtain ⟨name, value⟩ := m
    obtain ⟨fuel, rfl⟩ : ∃ n, fuel = n + 1 := ⟨fuel - 1, by omega⟩
    have hvalue : ReadsAs value := hreads _ List.mem_cons_self
    have hwrittenValue : value.Written := hwritten (name, value) List.mem_cons_self
    have hquote : ∀ tail, quote name ++ 58 :: value.text ++ tail =
        34 :: (escapes name ++ 34 :: 58 :: (value.text ++ tail)) := by
      intro tail
      simp [quote]
    have hcolon : ∀ tail, skip (58 :: tail) = 58 :: tail := skip_of_not_space (by decide)
    rw [Value.membersText, List.length_append, List.length_append, List.length_cons] at hfuel
    cases members with
    | nil =>
      have hread := hvalue fuel (125 :: rest) (by omega)
        (Or.inr ⟨125, rest, rfl, Or.inr (Or.inr rfl)⟩)
      have htext : Value.membersText [(name, value)] = quote name ++ 58 :: value.text := by
        rw [Value.membersText]
        exact List.append_nil _
      have hbrace : skip (125 :: rest) = 125 :: rest := skip_of_not_space (by decide) rest
      rw [htext, hquote, readMembers]
      simp only [Option.bind_eq_bind, Option.bind_some, readString_escapes, hcolon,
        skip_text hwrittenValue, hread, hbrace]
      rfl
    | cons next members =>
      have hread := hvalue fuel (44 :: (Value.membersText (next :: members) ++ 125 :: rest)) (by omega)
        (closes_comma _)
      have hrest := ih (fun v hv => hwritten v (List.mem_cons_of_mem _ hv))
        (fun v hv => hreads v (List.mem_cons_of_mem _ hv)) (List.cons_ne_nil _ _) fuel (by
          rw [if_neg (by simp), List.length_cons] at hfuel
          omega)
      have hskip : skip (Value.membersText (next :: members) ++ 125 :: rest) =
          Value.membersText (next :: members) ++ 125 :: rest := by
        obtain ⟨name', value'⟩ := next
        rw [Value.membersText]
        exact skip_of_not_space (by decide) _
      have htext : Value.membersText ((name, value) :: next :: members) ++ 125 :: rest =
          34 :: (escapes name ++ 34 :: 58 :: (value.text ++
            44 :: (Value.membersText (next :: members) ++ 125 :: rest))) := by
        rw [Value.membersText, if_neg (by simp), List.append_assoc, List.cons_append, hquote]
      rw [htext, readMembers]
      simp only [Option.bind_eq_bind, Option.bind_some, readString_escapes, hcolon,
        skip_text hwrittenValue, hread, (closes_comma _).skip, hskip, hrest]
      rfl

/-- A value whose numbers are written as numbers is read from its text. -/
theorem Value.Written.reads {v : Value} (h : v.Written) : ReadsAs v := by
  have hkeyword : ∀ {word : String} {s rest : Str}, s = units word ++ rest →
      keyword word s = some rest := by
    rintro word s rest rfl
    unfold keyword
    rw [if_pos (startsWith_iff.mpr (List.prefix_append _ _)), List.drop_left]
  induction h with
  -- The induction is on what was written. No case runs out of fuel, as each unit read takes one at
  -- most.
  | null =>
    rintro (_ | fuel) rest hfuel _
    · exact absurd hfuel (Nat.not_lt_zero _)
    · show readValue (fuel + 1) (110 :: (units "ull" ++ rest)) = _
      rw [readValue, if_neg (by decide), if_neg (by decide), if_neg (by decide), if_pos rfl,
        hkeyword rfl]
      rfl
  | bool b =>
    rintro (_ | fuel) rest hfuel _
    · exact absurd hfuel (Nat.not_lt_zero _)
    cases b with
    | true =>
      show readValue (fuel + 1) (116 :: (units "rue" ++ rest)) = _
      rw [readValue, if_neg (by decide), if_neg (by decide), if_neg (by decide), if_neg (by decide),
        if_pos rfl, hkeyword rfl]
      rfl
    | false =>
      show readValue (fuel + 1) (102 :: (units "alse" ++ rest)) = _
      rw [readValue, if_neg (by decide), if_neg (by decide), if_neg (by decide), if_neg (by decide),
        if_neg (by decide), if_pos rfl, hkeyword rfl]
      rfl
  | number h =>
    rename_i literal
    rintro (_ | fuel) rest hfuel hrest
    · exact absurd hfuel (Nat.not_lt_zero _)
    · have hread := readNumber_append h hrest
      obtain ⟨u, tail, rfl, hu⟩ := h.head
      -- A number starts with a digit or a minus sign, which no other branch of the reader takes.
      have hne : ∀ v : UInt16, v ≠ 45 → isDigit v = false → u ≠ v := by
        rintro v hv hdigit rfl
        obtain rfl | hu := hu
        · exact hv rfl
        · cases hdigit.symm.trans hu
      show readValue (fuel + 1) (u :: (tail ++ rest)) = _
      rw [readValue, if_neg (hne _ (by decide) rfl), if_neg (hne _ (by decide) rfl),
        if_neg (hne _ (by decide) rfl), if_neg (hne _ (by decide) rfl),
        if_neg (hne _ (by decide) rfl), if_neg (hne _ (by decide) rfl), ← List.cons_append, hread]
      rfl
  | string s =>
    rintro (_ | fuel) rest hfuel _
    · exact absurd hfuel (Nat.not_lt_zero _)
    · have htext : (Value.string s).text ++ rest = 34 :: (escapes s ++ 34 :: rest) := by
        simp [Value.text, quote]
      rw [htext, readValue, if_pos rfl, readString_escapes]
      rfl
  | array h ih =>
    rename_i items
    rintro (_ | fuel) rest hfuel _
    · exact absurd hfuel (Nat.not_lt_zero _)
    rw [Value.text, List.length_cons, List.length_append, List.length_singleton] at hfuel
    have htext : (Value.array items).text ++ rest = 91 :: (Value.itemsText items ++ 93 :: rest) := by
      simp [Value.text]
    rw [htext, readValue, if_neg (by decide), if_neg (by decide), if_pos rfl]
    by_cases hne : items = []
    · subst hne
      have hskip : skip (93 :: rest) = 93 :: rest := skip_of_not_space (by decide) rest
      rw [Value.itemsText, List.nil_append, hskip]
      rfl
    · have hread := readItems_text h ih hne fuel rest (by omega)
      obtain ⟨item, items, rfl⟩ := List.exists_cons_of_ne_nil hne
      obtain ⟨u, tail, heq, hspace, hbracket, _⟩ := (h item List.mem_cons_self).head
      -- The first item starts with neither a space nor the bracket that would close an empty array.
      have hhead : ∃ tail', Value.itemsText (item :: items) ++ 93 :: rest = u :: tail' := by
        rw [Value.itemsText, heq]
        exact ⟨_, rfl⟩
      obtain ⟨tail', htail⟩ := hhead
      rw [htail] at hread ⊢
      rw [skip_of_not_space hspace]
      split
      · rename_i heq'
        exact absurd (List.cons.inj heq').1 hbracket
      · rw [hread]
        rfl
  | object h ih =>
    rename_i members
    rintro (_ | fuel) rest hfuel _
    · exact absurd hfuel (Nat.not_lt_zero _)
    rw [Value.text, List.length_cons, List.length_append, List.length_singleton] at hfuel
    have htext : (Value.object members).text ++ rest =
        123 :: (Value.membersText members ++ 125 :: rest) := by
      simp [Value.text]
    rw [htext, readValue, if_neg (by decide), if_pos rfl]
    by_cases hne : members = []
    · subst hne
      have hskip : skip (125 :: rest) = 125 :: rest := skip_of_not_space (by decide) rest
      rw [Value.membersText, List.nil_append, hskip]
      rfl
    · have hread := readMembers_text h ih hne fuel rest (by omega)
      obtain ⟨⟨name, value⟩, members, rfl⟩ := List.exists_cons_of_ne_nil hne
      -- The first member starts with the quote of its name.
      have hhead : ∃ tail', Value.membersText ((name, value) :: members) ++ 125 :: rest =
          34 :: tail' := by
        rw [Value.membersText]
        exact ⟨_, rfl⟩
      obtain ⟨tail', htail⟩ := hhead
      rw [htail] at hread ⊢
      rw [skip_of_not_space (by decide)]
      split
      · rename_i heq'
        exact absurd (List.cons.inj heq').1 (by decide)
      · rw [hread]
        rfl

/-- `JSON.parse` of a value's text is the value. -/
theorem Value.Written.parse_text {v : Value} (h : v.Written) : parse v.text = some v := by
  have hread := h.reads (v.text.length + 1) [] (Nat.lt_succ_self _) (Or.inl rfl)
  have hskip := skip_text h []
  rw [List.append_nil] at hread hskip
  unfold parse
  rw [hskip, hread]
  rfl

/-! ## Texts that are kept -/

/-- Units of which none is half of a pair. -/
theorem wellFormed_of_forall {s : Str} (h : ∀ u ∈ s, ¬ isHigh u ∧ ¬ isLow u) : WellFormed s := by
  have hpoints : codePoints s = s.map UInt16.toNat := by
    have hread := codePoints_append (a := s) (fun u hu => (h u hu).1) []
    rwa [List.append_nil, codePoints, List.append_nil] at hread
  intro c hc
  rw [hpoints] at hc
  obtain ⟨u, hu, rfl⟩ := List.mem_map.mp hc
  obtain ⟨hhigh, hlow⟩ := h u hu
  unfold isHigh at hhigh
  unfold isLow at hlow
  omega

/-- A digit is half of no pair. -/
theorem isDigit_plain {u : UInt16} (h : isDigit u = true) : ¬ isHigh u ∧ ¬ isLow u := by
  simp only [isDigit, Bool.and_eq_true, decide_eq_true_eq, UInt16.le_iff_toNat_le] at h
  have hmax : u.toNat ≤ 57 := h.2
  unfold isHigh isLow
  omega

/-- A hexadecimal digit is no surrogate. -/
theorem hexDigit_plain : ∀ n < 16, ¬ isHigh (hexDigit n) ∧ ¬ isLow (hexDigit n) := by decide

/-- What is written for a unit that is not of a pair is half of none. -/
theorem wellFormed_escape (u : UInt16) : WellFormed (escape u) := by
  have hlt : u.toNat < 65536 := u.toNat_lt
  have hhex : WellFormed (hexEscape u.toNat) := by
    refine wellFormed_of_forall ?_
    simp only [hexEscape, List.forall_mem_cons]
    exact ⟨by decide, by decide, hexDigit_plain _ (by omega), hexDigit_plain _ (by omega),
      hexDigit_plain _ (by omega), hexDigit_plain _ (by omega), List.forall_mem_nil _⟩
  unfold escape
  split_ifs
  all_goals first
    | decide
    | exact hhex
    | skip
  rename_i hplain
  refine wellFormed_of_forall (List.forall_mem_singleton.mpr ?_)
  exact ⟨fun hhigh => hplain (Or.inr (Or.inl hhigh)), fun hlow => hplain (Or.inr (Or.inr hlow))⟩

/-- An escaped string is well-formed, whatever the string. -/
theorem wellFormed_escapes (s : Str) : WellFormed (escapes s) := by
  induction s using escapes.induct with
  | case1 u v rest hpair ih =>
    rw [escapes, if_pos hpair]
    intro c hc
    rw [codePoints_pair hpair.1 hpair.2, List.mem_cons] at hc
    obtain hc | hc := hc
    · rw [hc]
      unfold pairPoint
      omega
    · exact ih c hc
  | case2 u v rest hpair ih =>
    rw [escapes, if_neg hpair]
    exact (wellFormed_escape u).append ih
  | case3 u => exact wellFormed_escape u
  | case4 => decide

/-- A string's text escapes what is half of a pair. -/
theorem wellFormed_quote (s : Str) : WellFormed (quote s) :=
  (show WellFormed [34] by decide).append ((wellFormed_escapes s).append (by decide))

/-- A number's text is well-formed. -/
theorem NumberText.wellFormed {s : Str} (h : NumberText s) : WellFormed s := by
  have hdigits : ∀ {ds : Str}, Digits ds → WellFormed ds :=
    fun hds => wellFormed_of_forall fun u hu => isDigit_plain (hds.2 u hu)
  obtain ⟨sign, int, frac, exp, rfl, hsign, hint, hfrac, hexp⟩ := h.parts
  refine WellFormed.append (WellFormed.append (WellFormed.append ?_ ?_) ?_) ?_
  · obtain rfl | rfl := hsign <;> decide
  · obtain rfl | ⟨hds, _⟩ := hint
    · decide
    · exact hdigits hds
  · obtain rfl | ⟨ds, rfl, hds⟩ := hfrac
    · decide
    · exact (show WellFormed [46] by decide).append (hdigits hds)
  · obtain rfl | ⟨e, sign, ds, rfl, he, hsign, hds⟩ := hexp
    · decide
    · refine (show WellFormed [e] by obtain rfl | rfl := he <;> decide).append
        (WellFormed.append ?_ (hdigits hds))
      obtain rfl | rfl | rfl := hsign <;> decide

/-- Items are written in a well-formed text where each is. -/
theorem wellFormed_itemsText {items : List Value} (h : ∀ item ∈ items, WellFormed item.text) :
    WellFormed (Value.itemsText items) := by
  induction items with
  | nil =>
    rw [Value.itemsText]
    decide
  | cons item rest ih =>
    rw [Value.itemsText]
    refine (h item List.mem_cons_self).append ?_
    split
    · decide
    · exact (show WellFormed [44] by decide).append (ih fun v hv => h v (List.mem_cons_of_mem _ hv))

/-- Members are written in a well-formed text where each is. -/
theorem wellFormed_membersText {members : List (Str × Value)}
    (h : ∀ m ∈ members, WellFormed m.2.text) : WellFormed (Value.membersText members) := by
  induction members with
  | nil =>
    rw [Value.membersText]
    decide
  | cons m rest ih =>
    obtain ⟨name, value⟩ := m
    rw [Value.membersText]
    refine ((wellFormed_quote name).append ((show WellFormed [58] by decide).append
      (h (name, value) List.mem_cons_self))).append ?_
    split
    · decide
    · exact (show WellFormed [44] by decide).append (ih fun v hv => h v (List.mem_cons_of_mem _ hv))

/-- A value's text has no lone surrogate. -/
theorem Value.Written.wellFormed {v : Value} (h : v.Written) : WellFormed v.text := by
  induction h with
  | null => decide
  | bool b => cases b <;> decide
  | number h => exact h.wellFormed
  | string s => exact wellFormed_quote s
  | array _ ih =>
    rw [Value.text]
    exact (show WellFormed [91] by decide).append ((wellFormed_itemsText ih).append (by decide))
  | object _ ih =>
    rw [Value.text]
    exact (show WellFormed [123] by decide).append ((wellFormed_membersText ih).append (by decide))

/-- A value is read from its text as it was kept. -/
theorem Value.Written.parse_kept {v : Value} (h : v.Written) :
    parse (utf16 (Js.text v.text)) = some v := by
  rw [h.wellFormed.utf16_text, h.parse_text]

/-! ## Natural numbers -/

/-- A natural number's text is written as JSON has it. -/
theorem numberText_decimal (n : ℕ) : NumberText (decimal n) := by
  refine ⟨[], decimal n, [], [], by simp, Or.inl rfl, ?_, Or.inl rfl, Or.inl rfl⟩
  by_cases hn : n = 0
  · exact Or.inl (by rw [hn]; rfl)
  · refine Or.inr ⟨⟨decimal_ne_nil n, fun u hu => isDigit_of_mem_decimal hu⟩, fun hhead => ?_⟩
    -- The first digit is the last that `Nat.digits` lists, which is none but a zero of its own.
    have hdigits : Nat.digits 10 n ≠ [] := Nat.digits_ne_nil_iff_ne_zero.mpr hn
    have hlast := Nat.getLast_digit_ne_zero 10 hn
    have hlt : (Nat.digits 10 n).getLast hdigits < 10 :=
      Nat.digits_lt_base (by decide) (List.getLast_mem hdigits)
    unfold decimal at hhead
    rw [if_neg hn, List.head?_map, List.head?_reverse, List.getLast?_eq_some_getLast hdigits,
      Option.map_some, Option.some.injEq] at hhead
    have hzero : 48 + (Nat.digits 10 n).getLast hdigits = 48 := by
      have hnat := congrArg UInt16.toNat hhead
      rwa [UInt16.toNat_ofNat', Nat.mod_eq_of_lt (by omega)] at hnat
    exact hlast (by omega)

end Js
