import Mathlib.Algebra.Order.Ring.Rat
import Mathlib.Data.FinEnum
import Mathlib.Data.Int.Log
import Mathlib.Data.List.TakeWhile
import Mathlib.Data.Nat.Digits.Lemmas
import Mathlib.Data.Rat.Floor

/-!
# JavaScript strings and the numbers they are read as

A JavaScript string is a list of UTF-16 units, surrogates in pairs or alone. `slice`, `indexOf` and
`Number` of a text are as the language has them, over numbers that are doubles.
-/

namespace Js

/-- A string's UTF-16 units. -/
abbrev Str := List UInt16

/-- A text of the basic plane. -/
def units (s : String) : Str := s.toList.map fun c => UInt16.ofNat c.toNat

/-- The units of a character: one, or the two halves of a surrogate pair. -/
def utf16Char (c : Char) : Str :=
  if c.toNat < 0x10000 then [UInt16.ofNat c.toNat]
  else [UInt16.ofNat (0xD800 + (c.toNat - 0x10000) / 0x400),
    UInt16.ofNat (0xDC00 + (c.toNat - 0x10000) % 0x400)]

/-- A character has a first unit. -/
theorem utf16Char_cons (c : Char) : ∃ u rest, utf16Char c = u :: rest := by
  unfold utf16Char
  split
  · exact ⟨_, _, rfl⟩
  · exact ⟨_, _, rfl⟩

/-- The units of a string. -/
def utf16 (s : String) : Str := s.toList.flatMap utf16Char

/-- The language's strings are no longer than this. -/
def MAX_STRING_LENGTH : ℕ := 2 ^ 53 - 1

/-- `s.startsWith(pre)`. -/
def startsWith (s pre : Str) : Prop := s.take pre.length = pre
deriving Decidable

/-- A string starts with its prefixes. -/
theorem startsWith_iff {s pre : Str} : startsWith s pre ↔ pre <+: s := by
  unfold startsWith
  rw [List.prefix_iff_eq_take]
  exact eq_comm

/-- A text up to the first of some unit, and what follows it, are told by the whole. -/
theorem split_unique {u : UInt16} {a b x y : Str} (ha : u ∉ a) (hb : u ∉ b)
    (h : a ++ u :: x = b ++ u :: y) : a = b ∧ x = y := by
  induction a generalizing b with
  | nil =>
    cases b with
    | nil => exact ⟨rfl, (List.cons.inj h).2⟩
    | cons v b => exact absurd ((List.cons.inj h).1 ▸ List.mem_cons_self) hb
  | cons v a ih =>
    cases b with
    | nil => exact absurd ((List.cons.inj h).1 ▸ List.mem_cons_self) ha
    | cons w b =>
      obtain ⟨rfl, hrest⟩ := List.cons.inj h
      obtain ⟨rfl, hxy⟩ := ih (fun hm => ha (List.mem_cons_of_mem _ hm))
        (fun hm => hb (List.mem_cons_of_mem _ hm)) hrest
      exact ⟨rfl, hxy⟩

/-! ## Numbers -/

/-- A double, by its value. The two zeros are one. -/
inductive Number where
  | nan
  | posInfinity
  | negInfinity
  | finite (value : ℚ)
  deriving DecidableEq

/-- The nearest whole number, the even one of two. -/
def roundHalfEven (x : ℚ) : ℤ :=
  let below := ⌊x⌋
  let rest := x - below
  if rest < 1 / 2 then below
  else if 1 / 2 < rest then below + 1
  else if below % 2 = 0 then below else below + 1

/-- The double nearest to a value: whole numbers up to `2 ^ 53` are themselves, and any other is a
multiple of the unit in the last place of its binade. -/
def roundDouble (q : ℚ) : Number :=
  if q.den = 1 ∧ q.num.natAbs ≤ 2 ^ 53 then .finite q
  else
    let ulp : ℚ := 2 ^ (max (Int.log 2 |q|) (-1022) - 52)
    let nearest := roundHalfEven (|q| / ulp) * ulp
    if 2 ^ 1024 ≤ nearest then if q < 0 then .negInfinity else .posInfinity
    else .finite (if q < 0 then -nearest else nearest)

/-- A natural number up to `2 ^ 53` is a double. -/
theorem roundDouble_nat {n : ℕ} (h : n ≤ 2 ^ 53) : roundDouble n = .finite n :=
  if_pos ⟨rfl, h⟩

/-- The integer a number is, if `Number.isSafeInteger` says that it is one. -/
def Number.safeInteger : Number → Option ℤ
  | .finite q => if q.den = 1 ∧ q.num.natAbs ≤ 2 ^ 53 - 1 then some q.num else none
  | _ => none

/-- A safe integer is one. -/
theorem Number.safeInteger_intCast {n : ℤ} (h : n.natAbs ≤ 2 ^ 53 - 1) :
    (Number.finite n).safeInteger = some n :=
  if_pos ⟨Rat.den_intCast n, by rwa [Rat.num_intCast]⟩

/-- `a + b`. -/
def Number.add : Number → Number → Number
  | .finite a, .finite b => roundDouble (a + b)
  | .nan, _ | _, .nan => .nan
  | .posInfinity, .negInfinity | .negInfinity, .posInfinity => .nan
  | .posInfinity, _ | _, .posInfinity => .posInfinity
  | .negInfinity, _ | _, .negInfinity => .negInfinity

/-- Sums up to `2 ^ 53` are exact. -/
theorem Number.add_nat {a b : ℕ} (h : a + b ≤ 2 ^ 53) :
    (Number.finite a).add (.finite b) = .finite (a + b : ℕ) := by
  show roundDouble ((a : ℚ) + b) = .finite (a + b : ℕ)
  rw [← Nat.cast_add, roundDouble_nat h]

/-- The index a number names in a string of some length: from the end where it is negative, and no
further than either end. -/
def relativeIndex (length : ℕ) : Number → ℕ
  | .nan | .negInfinity => 0
  | .posInfinity => length
  | .finite q =>
    let i := q.num.tdiv q.den
    if i < 0 then (length + i).toNat else min i.toNat length

/-- An index past the end is the end. -/
theorem relativeIndex_nat (length n : ℕ) : relativeIndex length (.finite n) = min n length := by
  have hi : (n : ℚ).num.tdiv (n : ℚ).den = n := by
    rw [Rat.num_natCast, Rat.den_natCast]
    exact Int.tdiv_one _
  unfold relativeIndex
  simp only [hi]
  rw [if_neg (not_lt.mpr (Int.natCast_nonneg n)), Int.toNat_natCast]

/-- `s.slice(start, end)`. -/
def slice (s : Str) (start stop : Number) : Str :=
  (s.take (relativeIndex s.length stop)).drop (relativeIndex s.length start)

/-- `s.slice(start)`. -/
def sliceFrom (s : Str) (start : Number) : Str := s.drop (relativeIndex s.length start)

/-- A slice between two indexes of the string is what stands between them. -/
theorem slice_append (a b c : Str) :
    slice (a ++ (b ++ c)) (.finite (a.length : ℕ)) (.finite (a.length + b.length : ℕ)) = b := by
  unfold slice
  rw [relativeIndex_nat, relativeIndex_nat]
  have hstop : min (a.length + b.length) (a ++ (b ++ c)).length = (a ++ b).length := by
    simp only [List.length_append]
    omega
  have hstart : min a.length (a ++ (b ++ c)).length = a.length := by
    simp only [List.length_append]
    omega
  rw [hstop, hstart, ← List.append_assoc, List.take_left, List.drop_left]

/-- From the end of the first on, two strings joined are the second. -/
theorem sliceFrom_append (a b : Str) : sliceFrom (a ++ b) (.finite (a.length : ℕ)) = b := by
  unfold sliceFrom
  have hstart : min a.length (a ++ b).length = a.length := by
    simp only [List.length_append]
    omega
  rw [relativeIndex_nat, hstart, List.drop_left]

/-- `s.indexOf(unit, start)`, `-1` where there is none. -/
def indexOf (s : Str) (unit : UInt16) (start : ℕ) : ℤ :=
  match (s.drop start).findIdx? (· = unit) with
  | some i => start + i
  | none => -1

/-! ## Reading a number -/

def isDigit (u : UInt16) : Bool := 48 ≤ u && u ≤ 57

/-- The value of a digit in some radix. -/
def digitValue (u : UInt16) : ℕ :=
  if isDigit u then u.toNat - 48
  else if 97 ≤ u && u ≤ 122 then u.toNat - 87
  else if 65 ≤ u && u ≤ 90 then u.toNat - 55
  else 36

/-- The value of digits, the first one the highest. -/
def digitsValue (radix : ℕ) (digits : Str) : ℕ :=
  digits.foldl (fun value u => value * radix + digitValue u) 0

/-- White space and line ends. -/
def isSpace (u : UInt16) : Bool :=
  (9 ≤ u && u ≤ 13) || u = 32 || u = 160 || u = 0x1680 || (0x2000 ≤ u && u ≤ 0x200A) || u = 0x2028 ||
    u = 0x2029 || u = 0x202F || u = 0x205F || u = 0x3000 || u = 0xFEFF

/-- `s.trim()`. -/
def trim (s : Str) : Str := ((s.dropWhile isSpace).reverse.dropWhile isSpace).reverse

/-- The radix a numeric text's second unit names, after a zero. -/
def radixOf (u : UInt16) : Option ℕ :=
  if u = 120 ∨ u = 88 then some 16
  else if u = 111 ∨ u = 79 then some 8
  else if u = 98 ∨ u = 66 then some 2
  else none

/-- A text that starts as a hexadecimal, octal or binary number does. -/
def nonDecimal : Str → Option Number
  | 48 :: u :: digits => (radixOf u).map fun radix =>
    if digits ≠ [] ∧ ∀ d ∈ digits, digitValue d < radix then roundDouble (digitsValue radix digits)
    else .nan
  | _ => none

/-- A sign, and what follows it. -/
def sign : Str → ℤ × Str
  | 43 :: s => (1, s)
  | 45 :: s => (-1, s)
  | s => (1, s)

/-- The digits of a fraction, and what follows them. -/
def fraction : Str → Str × Str
  | 46 :: s => (s.takeWhile isDigit, s.dropWhile isDigit)
  | s => ([], s)

/-- The exponent that ends a numeric text. -/
def exponent : Str → Option ℤ
  | [] => some 0
  | u :: s =>
    let (factor, digits) := sign s
    if (u = 101 ∨ u = 69) ∧ digits ≠ [] ∧ ∀ d ∈ digits, isDigit d then
      some (factor * digitsValue 10 digits)
    else none

/-- A decimal literal. -/
def decimalLiteral (s : Str) : Number :=
  let (factor, s) := sign s
  if s = units "Infinity" then if factor < 0 then .negInfinity else .posInfinity
  else
    let whole := s.takeWhile isDigit
    let (part, rest) := fraction (s.dropWhile isDigit)
    match exponent rest with
    | none => .nan
    | some e =>
      if whole = [] ∧ part = [] then .nan
      else roundDouble (factor * digitsValue 10 (whole ++ part) * 10 ^ (e - part.length))

/-- `Number(s)`. -/
def toNumber (s : Str) : Number :=
  let s := trim s
  if s = [] then .finite 0 else (nonDecimal s).getD (decimalLiteral s)

/-! ## The decimal text of a number -/

/-- The text of a natural number below `10 ^ 21`. -/
def decimal (n : ℕ) : Str :=
  if n = 0 then [48] else (Nat.digits 10 n).reverse.map fun d => UInt16.ofNat (48 + d)

/-- A digit's unit is a digit, and has its value. -/
theorem digit_unit {d : ℕ} (h : d < 10) :
    isDigit (UInt16.ofNat (48 + d)) ∧ digitValue (UInt16.ofNat (48 + d)) = d := by
  interval_cases d <;> decide

/-- A decimal is written in digits. -/
theorem isDigit_of_mem_decimal {n : ℕ} {u : UInt16} (h : u ∈ decimal n) : isDigit u := by
  unfold decimal at h
  split at h
  · obtain rfl := List.mem_singleton.mp h
    rfl
  · obtain ⟨d, hd, rfl⟩ := List.mem_map.mp h
    exact (digit_unit (Nat.digits_lt_base (by decide) (List.mem_reverse.mp hd))).1

/-- A decimal is not empty. -/
theorem decimal_ne_nil (n : ℕ) : decimal n ≠ [] := by
  unfold decimal
  split
  · exact List.cons_ne_nil _ _
  · rename_i hn
    simpa using Nat.digits_ne_nil_iff_ne_zero.mpr hn

/-- The digits of a number have its value. -/
theorem digitsValue_decimal (n : ℕ) : digitsValue 10 (decimal n) = n := by
  have hdigits : ∀ l : List ℕ, (∀ d ∈ l, d < 10) →
      digitsValue 10 (l.reverse.map fun d => UInt16.ofNat (48 + d)) = Nat.ofDigits 10 l := by
    intro l hl
    induction l with
    | nil => rfl
    | cons d l ih =>
      have hrest := ih fun e he => hl e (List.mem_cons_of_mem _ he)
      unfold digitsValue at hrest ⊢
      rw [List.reverse_cons, List.map_append, List.foldl_append, hrest, Nat.ofDigits_cons]
      show Nat.ofDigits 10 l * 10 + digitValue (UInt16.ofNat (48 + d)) = d + 10 * Nat.ofDigits 10 l
      rw [(digit_unit (hl d List.mem_cons_self)).2]
      omega
  unfold decimal
  split
  · rename_i hn
    rw [hn]
    rfl
  · rw [hdigits _ fun d hd => Nat.digits_lt_base (by decide) hd, Nat.ofDigits_digits]

/-- Two natural numbers have two decimals. -/
theorem decimal_injective : Function.Injective decimal := by
  intro m n h
  rw [← digitsValue_decimal m, ← digitsValue_decimal n, h]

/-- A digit is no space, no sign, and names no radix. -/
theorem isDigit_cases {u : UInt16} (h : isDigit u) :
    isSpace u = false ∧ radixOf u = none ∧ u ≠ 43 ∧ u ≠ 45 ∧ u ≠ 73 := by
  obtain ⟨d, hd, rfl⟩ : ∃ d < 10, u = UInt16.ofNat (48 + d) := by
    simp only [isDigit, Bool.and_eq_true, decide_eq_true_eq, UInt16.le_iff_toNat_le] at h
    have hmin : 48 ≤ u.toNat := h.1
    have hmax : u.toNat ≤ 57 := h.2
    refine ⟨u.toNat - 48, by omega, ?_⟩
    rw [Nat.add_sub_cancel' hmin, UInt16.ofNat_toNat]
  interval_cases d <;> decide

/-- Nothing is dropped where nothing is to be dropped. -/
theorem dropWhile_of_forall {p : UInt16 → Bool} {s : Str} (h : ∀ u ∈ s, p u = false) :
    s.dropWhile p = s := by
  cases s with
  | nil => rfl
  | cons u s => exact List.dropWhile_cons_of_neg (by simp [h u List.mem_cons_self])

/-- A string without spaces is trimmed to itself. -/
theorem trim_of_forall {s : Str} (h : ∀ u ∈ s, isSpace u = false) : trim s = s := by
  unfold trim
  rw [dropWhile_of_forall h, dropWhile_of_forall fun u hu => h u (List.mem_reverse.mp hu),
    List.reverse_reverse]

/-- Digits are read as a decimal literal of their value. -/
theorem decimalLiteral_digits {s : Str} (hne : s ≠ []) (h : ∀ u ∈ s, isDigit u) :
    decimalLiteral s = roundDouble (digitsValue 10 s) := by
  have hsign : sign s = (1, s) := by
    cases s with
    | nil => rfl
    | cons u s =>
      obtain ⟨_, _, hplus, hminus, _⟩ := isDigit_cases (h u List.mem_cons_self)
      unfold sign
      split
      · exact absurd (List.cons.inj ‹_›).1 hplus
      · exact absurd (List.cons.inj ‹_›).1 hminus
      · rfl
  have hinfinity : s ≠ units "Infinity" := by
    rintro rfl
    exact (isDigit_cases (h 73 (by decide))).2.2.2.2 rfl
  have hwhole : s.takeWhile isDigit = s := List.takeWhile_eq_self_iff.mpr h
  have hrest : s.dropWhile isDigit = [] := List.dropWhile_eq_nil_iff.mpr h
  unfold decimalLiteral
  simp only [hsign, hinfinity, hwhole, hrest, if_false]
  simp [fraction, exponent, hne]

/-- A decimal text is read as the number it is of. -/
theorem toNumber_decimal {n : ℕ} (h : n ≤ 2 ^ 53) : toNumber (decimal n) = .finite n := by
  have hdigits : ∀ u ∈ decimal n, isDigit u := fun u hu => isDigit_of_mem_decimal hu
  have hradix : nonDecimal (decimal n) = none := by
    unfold nonDecimal
    split
    · rename_i u digits heq
      have hu : isDigit u := hdigits u (by simp [heq])
      rw [(isDigit_cases hu).2.1]
      rfl
    · rfl
  unfold toNumber
  simp only [trim_of_forall fun u hu => (isDigit_cases (hdigits u hu)).1]
  rw [if_neg (decimal_ne_nil n), hradix, Option.getD_none,
    decimalLiteral_digits (decimal_ne_nil n) hdigits, digitsValue_decimal, roundDouble_nat h]

end Js
