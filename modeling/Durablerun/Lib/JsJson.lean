import Durablerun.Lib.Utf

/-!
# JSON over UTF-16

`JSON.parse` and `JSON.stringify` of JavaScript strings: an escape may be half of a surrogate pair, and
a lone surrogate is written as one. A number is kept as the text of its literal.
-/

namespace Js

/-- A JSON value. -/
inductive Value where
  | null
  | bool (b : Bool)
  | number (literal : Str)
  | string (s : Str)
  | array (items : List Value)
  | object (members : List (Str × Value))

/-- An object's own member of a name: the last one written. -/
def Value.member (name : Str) : Value → Option Value
  | object members => (members.reverse.find? fun m => m.1 = name).map Prod.snd
  | _ => none

/-! ## Writing -/

/-- A hexadecimal digit, in lower case. -/
def hexDigit (n : ℕ) : UInt16 := if n < 10 then UInt16.ofNat (48 + n) else UInt16.ofNat (87 + n)

/-- A unit as an escape of four hexadecimal digits. -/
def hexEscape (n : ℕ) : Str :=
  [92, 117, hexDigit (n / 4096), hexDigit (n / 256 % 16), hexDigit (n / 16 % 16), hexDigit (n % 16)]

/-- What `JSON.stringify` writes for a unit that is not of a pair. -/
def escape (u : UInt16) : Str :=
  if u = 34 then [92, 34]
  else if u = 92 then [92, 92]
  else if u = 8 then [92, 98]
  else if u = 9 then [92, 116]
  else if u = 10 then [92, 110]
  else if u = 12 then [92, 102]
  else if u = 13 then [92, 114]
  else if u.toNat < 32 ∨ isHigh u ∨ isLow u then hexEscape u.toNat
  else [u]

/-- What `JSON.stringify` writes between the quotes of a string. -/
def escapes : Str → Str
  | u :: v :: rest =>
    if isHigh u ∧ isLow v then u :: v :: escapes rest
    else escape u ++ escapes (v :: rest)
  | [u] => escape u
  | [] => []

/-- A string as a JSON text. -/
def quote (s : Str) : Str := 34 :: (escapes s ++ [34])

/-! ## Reading -/

/-- White space between the tokens of a text. -/
def isJsonSpace (u : UInt16) : Bool := u = 32 || u = 10 || u = 13 || u = 9

/-- The text past its leading white space. -/
def skip (s : Str) : Str := s.dropWhile isJsonSpace

/-- The value of a hexadecimal digit. -/
def hexValue (u : UInt16) : Option ℕ :=
  if isDigit u then some (u.toNat - 48)
  else if 97 ≤ u ∧ u ≤ 102 then some (u.toNat - 87)
  else if 65 ≤ u ∧ u ≤ 70 then some (u.toNat - 55)
  else none

/-- The unit of four hexadecimal digits. -/
def hexUnit (a b c d : UInt16) : Option UInt16 := do
  return UInt16.ofNat
    ((← hexValue a) * 4096 + (← hexValue b) * 256 + (← hexValue c) * 16 + (← hexValue d))

/-- What a short escape stands for. -/
def unescape (u : UInt16) : Option UInt16 :=
  if u = 34 then some 34
  else if u = 92 then some 92
  else if u = 47 then some 47
  else if u = 98 then some 8
  else if u = 102 then some 12
  else if u = 110 then some 10
  else if u = 114 then some 13
  else if u = 116 then some 9
  else none

/-- A string up to its closing quote, and the text after it. -/
def readString : Str → Option (Str × Str)
  | [] => none
  | u :: rest =>
    if u = 34 then some ([], rest)
    else if u = 92 then
      match rest with
      | [] => none
      | e :: rest =>
        if e = 117 then
          match rest with
          | a :: b :: c :: d :: rest => do
            let n ← hexUnit a b c d
            let (s, rest) ← readString rest
            return (n :: s, rest)
          | _ => none
        else do
          let n ← unescape e
          let (s, rest) ← readString rest
          return (n :: s, rest)
    else if u.toNat < 32 then none
    else do
      let (s, rest) ← readString rest
      return (u :: s, rest)

/-- The digits at the head of a text, at least one. -/
def readDigits (s : Str) : Option (Str × Str) :=
  match s.span isDigit with
  | ([], _) => none
  | (ds, rest) => some (ds, rest)

/-- The integer part of a number: no leading zero. -/
def integerPart : Str → Option (Str × Str)
  | 48 :: rest => some ([48], rest)
  | s => readDigits s

/-- The fraction of a number, if it has one. -/
def fractionPart : Str → Option (Str × Str)
  | 46 :: rest => do
    let (ds, rest) ← readDigits rest
    return (46 :: ds, rest)
  | s => some ([], s)

/-- The exponent of a number, if it has one. -/
def exponentPart : Str → Option (Str × Str)
  | e :: rest =>
    if e = 101 ∨ e = 69 then do
      let (sign, rest) := match rest with
        | 43 :: rest => (([43] : Str), rest)
        | 45 :: rest => ([45], rest)
        | rest => ([], rest)
      let (ds, rest) ← readDigits rest
      return (e :: (sign ++ ds), rest)
    else some ([], e :: rest)
  | [] => some ([], [])

/-- The literal of a number, and the text after it. -/
def readNumber (s : Str) : Option (Str × Str) := do
  let (sign, s) := match s with
    | 45 :: rest => (([45] : Str), rest)
    | s => ([], s)
  let (int, s) ← integerPart s
  let (frac, s) ← fractionPart s
  let (exp, s) ← exponentPart s
  return (sign ++ int ++ frac ++ exp, s)

/-- The text past a keyword that it starts with. -/
def keyword (word : String) (s : Str) : Option Str :=
  if startsWith s (units word) then some (s.drop (units word).length) else none

mutual

/-- The value at the head of a text, and the text after it. `fuel` bounds the nesting and the number
of members. -/
def readValue : ℕ → Str → Option (Value × Str)
  | 0, _ => none
  | _ + 1, [] => none
  | fuel + 1, u :: rest =>
    if u = 34 then do
      let (s, rest) ← readString rest
      return (.string s, rest)
    else if u = 123 then
      match skip rest with
      | 125 :: rest => some (.object [], rest)
      | rest => do
        let (ms, rest) ← readMembers fuel rest
        return (.object ms, rest)
    else if u = 91 then
      match skip rest with
      | 93 :: rest => some (.array [], rest)
      | rest => do
        let (vs, rest) ← readItems fuel rest
        return (.array vs, rest)
    else if u = 110 then (keyword "ull" rest).map (.null, ·)
    else if u = 116 then (keyword "rue" rest).map (.bool true, ·)
    else if u = 102 then (keyword "alse" rest).map (.bool false, ·)
    else do
      let (literal, rest) ← readNumber (u :: rest)
      return (.number literal, rest)

/-- The members of an object up to its closing brace, at least one. -/
def readMembers : ℕ → Str → Option (List (Str × Value) × Str)
  | 0, _ => none
  | fuel + 1, s => do
    let 34 :: rest := s | none
    let (name, rest) ← readString rest
    let 58 :: rest := skip rest | none
    let (v, rest) ← readValue fuel (skip rest)
    match skip rest with
    | 44 :: rest => do
      let (ms, rest) ← readMembers fuel (skip rest)
      return ((name, v) :: ms, rest)
    | 125 :: rest => return ([(name, v)], rest)
    | _ => none

/-- The items of an array up to its closing bracket, at least one. -/
def readItems : ℕ → Str → Option (List Value × Str)
  | 0, _ => none
  | fuel + 1, s => do
    let (v, rest) ← readValue fuel s
    match skip rest with
    | 44 :: rest => do
      let (vs, rest) ← readItems fuel (skip rest)
      return (v :: vs, rest)
    | 93 :: rest => return ([v], rest)
    | _ => none

end

/-- `JSON.parse`. -/
def parse (text : Str) : Option Value := do
  let (v, rest) ← readValue (text.length + 1) (skip text)
  if skip rest = [] then return v else none

/-! ## Strings that were written -/

/-- A hexadecimal digit reads back as its value. -/
theorem hexValue_hexDigit : ∀ n < 16, hexValue (hexDigit n) = some n := by decide

/-- An escape of a unit is read as the unit. -/
theorem hexUnit_hexDigit (u : UInt16) :
    hexUnit (hexDigit (u.toNat / 4096)) (hexDigit (u.toNat / 256 % 16))
      (hexDigit (u.toNat / 16 % 16)) (hexDigit (u.toNat % 16)) = some u := by
  have hlt : u.toNat < 65536 := u.toNat_lt
  have hvalue : u.toNat / 4096 * 4096 + u.toNat / 256 % 16 * 256 + u.toNat / 16 % 16 * 16 +
      u.toNat % 16 = u.toNat := by omega
  simp only [hexUnit, hexValue_hexDigit _ (show u.toNat / 4096 < 16 by omega),
    hexValue_hexDigit _ (show u.toNat / 256 % 16 < 16 by omega),
    hexValue_hexDigit _ (show u.toNat / 16 % 16 < 16 by omega),
    hexValue_hexDigit _ (show u.toNat % 16 < 16 by omega)]
  show some (UInt16.ofNat _) = some u
  rw [hvalue, UInt16.ofNat_toNat]

/-- A unit that needs no escape is read as it is. -/
theorem readString_unit {u : UInt16} (hquote : u ≠ 34) (hslash : u ≠ 92) (hprint : ¬ u.toNat < 32)
    (s : Str) : readString (u :: s) = (readString s).map fun p => (u :: p.1, p.2) := by
  rw [readString.eq_def]
  simp only [hquote, hslash, hprint, if_false]
  cases readString s with
  | none => rfl
  | some p => rfl

/-- A string ends at its quote. -/
theorem readString_quote (s : Str) : readString (34 :: s) = some ([], s) := by
  rw [readString.eq_def]
  rfl

/-- A short escape reads as the unit it stands for. -/
theorem readString_short {e u : UInt16} (he : e ≠ 117) (hu : unescape e = some u) (s : Str) :
    readString (92 :: e :: s) = (readString s).map fun p => (u :: p.1, p.2) := by
  rw [readString.eq_def]
  have hslash : ¬ (92 : UInt16) = 34 := by decide
  simp only [hslash, he, if_false, if_true, hu]
  cases readString s with
  | none => rfl
  | some p => rfl

/-- A hexadecimal escape reads as the unit it stands for. -/
theorem readString_hexEscape (u : UInt16) (s : Str) :
    readString (hexEscape u.toNat ++ s) = (readString s).map fun p => (u :: p.1, p.2) := by
  unfold hexEscape
  simp only [List.cons_append, List.nil_append]
  rw [readString.eq_def]
  have hslash : ¬ (92 : UInt16) = 34 := by decide
  simp only [hslash, if_false, if_true, hexUnit_hexDigit]
  cases readString s with
  | none => rfl
  | some p => rfl

/-- What was written for a unit is read as the unit. -/
theorem readString_escape (u : UInt16) (s : Str) :
    readString (escape u ++ s) = (readString s).map fun p => (u :: p.1, p.2) := by
  unfold escape
  split
  · next h => rw [h]; exact readString_short (by decide) (by decide) s
  split
  · next h => rw [h]; exact readString_short (by decide) (by decide) s
  split
  · next h => rw [h]; exact readString_short (by decide) (by decide) s
  split
  · next h => rw [h]; exact readString_short (by decide) (by decide) s
  split
  · next h => rw [h]; exact readString_short (by decide) (by decide) s
  split
  · next h => rw [h]; exact readString_short (by decide) (by decide) s
  split
  · next h => rw [h]; exact readString_short (by decide) (by decide) s
  split
  · exact readString_hexEscape u s
  · next hquote hslash _ _ _ _ _ hplain =>
    exact readString_unit hquote hslash (fun hlt => hplain (Or.inl hlt)) s

/-- A surrogate needs no escape in a pair. -/
theorem surrogate_plain {u : UInt16} (h : isHigh u ∨ isLow u) :
    u ≠ 34 ∧ u ≠ 92 ∧ ¬ u.toNat < 32 := by
  have hmin : 0xD800 ≤ u.toNat := by
    obtain h | h := h
    · exact h.1
    · exact le_trans (by decide) h.1
  refine ⟨?_, ?_, by omega⟩
  · rintro rfl
    exact absurd hmin (by decide)
  · rintro rfl
    exact absurd hmin (by decide)

/-- A string that was written is read back. -/
theorem readString_escapes (s rest : Str) :
    readString (escapes s ++ 34 :: rest) = some (s, rest) := by
  induction s using escapes.induct with
  | case1 u v tail hpair ih =>
    obtain ⟨hu, hu', hu''⟩ := surrogate_plain (Or.inl hpair.1)
    obtain ⟨hv, hv', hv''⟩ := surrogate_plain (Or.inr hpair.2)
    rw [escapes, if_pos hpair, List.cons_append, List.cons_append, readString_unit hu hu' hu'',
      readString_unit hv hv' hv'', ih]
    rfl
  | case2 u v tail hpair ih =>
    rw [escapes, if_neg hpair, List.append_assoc, readString_escape, ih]
    rfl
  | case3 u =>
    rw [escapes, readString_escape, readString_quote]
    rfl
  | case4 => exact readString_quote rest

/-- Nothing is skipped before a unit that is no space. -/
theorem skip_of_not_space {u : UInt16} (h : isJsonSpace u = false) (s : Str) :
    skip (u :: s) = u :: s := by
  simp [skip, h]

end Js
