import Durablerun.Lib.JsString
import Mathlib.Data.String.Basic

/-!
# Characters of UTF-16 strings

Read from the left, a high surrogate directly followed by a low one is one character, and every other
unit is one. A string is well formed when no character is a surrogate; its characters are then those
of a text, and the order of the characters is that of the text's UTF-8 bytes.
-/

namespace Js

/-! ## Code points -/

def isHigh (u : UInt16) : Prop := 0xD800 ≤ u.toNat ∧ u.toNat ≤ 0xDBFF
deriving Decidable

def isLow (u : UInt16) : Prop := 0xDC00 ≤ u.toNat ∧ u.toNat ≤ 0xDFFF
deriving Decidable

/-- The code point of a surrogate pair. -/
def pairPoint (high low : UInt16) : ℕ :=
  0x10000 + (high.toNat - 0xD800) * 0x400 + (low.toNat - 0xDC00)

/-- The characters of a string, each by its code point. A lone surrogate is its own. -/
def codePoints : Str → List ℕ
  | u :: v :: rest =>
    if isHigh u ∧ isLow v then pairPoint u v :: codePoints rest
    else u.toNat :: codePoints (v :: rest)
  | [u] => [u.toNat]
  | [] => []

/-- No character is a surrogate. -/
def WellFormed (s : Str) : Prop := ∀ c ∈ codePoints s, ¬ (0xD800 ≤ c ∧ c ≤ 0xDFFF)
deriving Decidable

/-- A surrogate pair is one code point. -/
theorem codePoints_pair {u v : UInt16} (hu : isHigh u) (hv : isLow v) (rest : Str) :
    codePoints (u :: v :: rest) = pairPoint u v :: codePoints rest := by
  rw [codePoints, if_pos ⟨hu, hv⟩]

/-- A unit that begins no pair is a character. -/
theorem codePoints_unit {u : UInt16} {rest : Str} (h : ∀ v ∈ rest.head?, ¬ (isHigh u ∧ isLow v)) :
    codePoints (u :: rest) = u.toNat :: codePoints rest := by
  cases rest with
  | nil => rw [codePoints, codePoints]
  | cons v rest => rw [codePoints, if_neg (h v rfl)]

/-- A text's units read as its characters. -/
theorem codePoints_utf16Char (c : Char) (rest : Str) :
    codePoints (utf16Char c ++ rest) = c.toNat :: codePoints rest := by
  have hc : c.toNat < 0xD800 ∨ 0xDFFF < c.toNat ∧ c.toNat < 0x110000 := c.valid
  unfold utf16Char
  split
  · rename_i hplane
    have hunit : (UInt16.ofNat c.toNat).toNat = c.toNat := by
      rw [UInt16.toNat_ofNat', Nat.mod_eq_of_lt (by omega)]
    rw [List.singleton_append, codePoints_unit, hunit]
    rintro v _ ⟨⟨hmin, hmax⟩, _⟩
    rw [hunit] at hmin hmax
    omega
  · rename_i hplane
    have hhigh : (UInt16.ofNat (0xD800 + (c.toNat - 0x10000) / 0x400)).toNat =
        0xD800 + (c.toNat - 0x10000) / 0x400 := by
      rw [UInt16.toNat_ofNat', Nat.mod_eq_of_lt (by omega)]
    have hlow : (UInt16.ofNat (0xDC00 + (c.toNat - 0x10000) % 0x400)).toNat =
        0xDC00 + (c.toNat - 0x10000) % 0x400 := by
      rw [UInt16.toNat_ofNat', Nat.mod_eq_of_lt (by omega)]
    refine (codePoints_pair ?_ ?_ rest).trans ?_
    · unfold isHigh
      rw [hhigh]
      omega
    · unfold isLow
      rw [hlow]
      omega
    · refine congrArg (· :: codePoints rest) ?_
      unfold pairPoint
      rw [hhigh, hlow]
      omega

/-- The units of characters are as many code points, with their numbers. -/
theorem codePoints_chars (cs : List Char) :
    codePoints (cs.flatMap utf16Char) = cs.map Char.toNat := by
  induction cs with
  | nil => rfl
  | cons c cs ih => rw [List.flatMap_cons, codePoints_utf16Char, ih, List.map_cons]

/-- A string's code points are its characters. -/
theorem codePoints_utf16 (s : String) : codePoints (utf16 s) = s.toList.map Char.toNat :=
  codePoints_chars s.toList

/-! ## Texts -/

/-- The character of a code point. Half of a pair is none, and is replaced. -/
def charOf (c : ℕ) : Char := if c.isValidChar then Char.ofNat c else '\uFFFD'

/-- A character's number is that of the character. -/
theorem charOf_toNat (c : Char) : charOf c.toNat = c := by
  have hvalid : c.toNat.isValidChar := c.valid
  rw [charOf, if_pos hvalid, Char.ofNat_toNat]

/-- The units of a pair are the halves of its code point. -/
theorem utf16Char_pair {u v : UInt16} (hu : isHigh u) (hv : isLow v) :
    utf16Char (charOf (pairPoint u v)) = [u, v] := by
  obtain ⟨hu, hu'⟩ := hu
  obtain ⟨hv, hv'⟩ := hv
  have hvalid : (pairPoint u v).isValidChar := by
    refine Or.inr ⟨?_, ?_⟩ <;>
    · unfold pairPoint
      omega
  have hc : (charOf (pairPoint u v)).toNat = pairPoint u v := by
    rw [charOf, if_pos hvalid, Char.ofNat, dif_pos hvalid]
    rfl
  have hplane : ¬ pairPoint u v < 0x10000 := by
    unfold pairPoint
    omega
  have hhigh : 0xD800 + (pairPoint u v - 0x10000) / 0x400 = u.toNat := by
    unfold pairPoint
    omega
  have hlow : 0xDC00 + (pairPoint u v - 0x10000) % 0x400 = v.toNat := by
    unfold pairPoint
    omega
  unfold utf16Char
  rw [hc, if_neg hplane, hhigh, hlow, UInt16.ofNat_toNat, UInt16.ofNat_toNat]

/-- A unit that is half of no pair is a character of its own. -/
theorem utf16Char_unit {u : UInt16} (h : ¬ (0xD800 ≤ u.toNat ∧ u.toNat ≤ 0xDFFF)) :
    utf16Char (charOf u.toNat) = [u] := by
  have hlt : u.toNat < 65536 := u.toNat_lt
  have hvalid : u.toNat.isValidChar := by
    by_cases hlow : u.toNat < 0xD800
    · exact Or.inl hlow
    · exact Or.inr ⟨by omega, by omega⟩
  have hc : (charOf u.toNat).toNat = u.toNat := by
    rw [charOf, if_pos hvalid, Char.ofNat, dif_pos hvalid]
    rfl
  unfold utf16Char
  rw [hc, if_pos hlt, UInt16.ofNat_toNat]

/-- The text a string is kept as outside of JavaScript. -/
def text (s : Str) : String := String.ofList ((codePoints s).map charOf)

/-- A well-formed string is its text, in UTF-16. -/
theorem WellFormed.utf16_text {s : Str} (h : WellFormed s) : utf16 (text s) = s := by
  unfold utf16 text
  rw [String.toList_ofList]
  unfold WellFormed at h
  fun_induction codePoints s with
  | case1 u v rest hpair ih =>
    rw [List.map_cons, List.flatMap_cons, utf16Char_pair hpair.1 hpair.2,
      ih fun c hc => h c (List.mem_cons_of_mem _ hc)]
    rfl
  | case2 u v rest _ ih =>
    rw [List.map_cons, List.flatMap_cons, utf16Char_unit (h _ List.mem_cons_self),
      ih fun c hc => h c (List.mem_cons_of_mem _ hc)]
    rfl
  | case3 u =>
    rw [List.map_singleton, List.flatMap_singleton, utf16Char_unit (h _ List.mem_cons_self)]
  | case4 => rfl

/-- What a string is in units is well-formed. -/
theorem wellFormed_utf16 (t : String) : WellFormed (utf16 t) := by
  unfold WellFormed
  rw [codePoints_utf16]
  intro c hc
  obtain ⟨d, _, rfl⟩ := List.mem_map.mp hc
  have hd : d.toNat < 0xD800 ∨ 0xDFFF < d.toNat ∧ d.toNat < 0x110000 := d.valid
  omega

/-- A string's units read back as the string. -/
theorem text_utf16 (t : String) : text (utf16 t) = t := by
  unfold text
  rw [codePoints_utf16, List.map_map]
  simp only [Function.comp_def, charOf_toNat, List.map_id', String.ofList_toList]

/-! ## Texts put together -/

/-- The units of two strings joined are theirs joined. -/
theorem utf16_append (s t : String) : utf16 (s ++ t) = utf16 s ++ utf16 t := by
  unfold utf16
  rw [String.toList_append, List.flatMap_append]

/-- No unit of the text begins a pair. -/
def NoHigh (a : Str) : Prop := ∀ u ∈ a, ¬ isHigh u

instance : DecidablePred NoHigh := fun a => List.decidableBAll (fun u => ¬ isHigh u) a

section Append

variable {a b s : Str}

/-- Well-formed texts make one, put together. -/
theorem WellFormed.append (ha : WellFormed a) (hb : WellFormed b) : WellFormed (a ++ b) := by
  rw [← ha.utf16_text, ← hb.utf16_text, ← utf16_append]
  exact wellFormed_utf16 _

/-- Units that begin no pair are characters of their own. -/
theorem codePoints_append (ha : NoHigh a) (s : Str) :
    codePoints (a ++ s) = a.map UInt16.toNat ++ codePoints s := by
  induction a with
  | nil => rfl
  | cons u a ih =>
    rw [List.cons_append, codePoints_unit fun v _ hpair => ha u List.mem_cons_self hpair.1,
      ih fun v hv => ha v (List.mem_cons_of_mem _ hv)]
    rfl

/-- After a beginning without high surrogates, what follows is well-formed by itself. -/
theorem WellFormed.of_append (ha : NoHigh a) (h : WellFormed (a ++ s)) :
    WellFormed s := by
  intro c hc
  refine h c ?_
  rw [codePoints_append ha]
  exact List.mem_append_right _ hc

end Append

/-! ## The order of the bytes -/

/-- The UTF-8 bytes of a text. -/
def utf8 (t : String) : List UInt8 := t.toList.flatMap String.utf8EncodeChar

/-- Bytes come first by the first one that is lower. -/
theorem byte_lt {x y : ℕ} {l r : List UInt8} (hy : y < 256) (h : x < y ∨ x = y ∧ l < r) :
    UInt8.ofNat x :: l < UInt8.ofNat y :: r := by
  have hx : x < 256 := h.elim (fun hlt => hlt.trans hy) fun heq => heq.1 ▸ hy
  rw [List.cons_lt_cons_iff, UInt8.lt_iff_toNat_lt, UInt8.toNat_ofNat', UInt8.toNat_ofNat',
    Nat.mod_eq_of_lt hx, Nat.mod_eq_of_lt hy]
  exact h.imp_right fun ⟨heq, hlt⟩ => ⟨congrArg UInt8.ofNat heq, hlt⟩

/-- A lower character's bytes come first, whatever follows. -/
theorem utf8EncodeChar_lt {c d : Char} (h : c < d) (l r : List UInt8) :
    String.utf8EncodeChar c ++ l < String.utf8EncodeChar d ++ r := by
  have hlt : c.val.toNat < d.val.toNat := Char.lt_def.mp h
  have hd : d.toNat < 0xD800 ∨ 0xDFFF < d.toNat ∧ d.toNat < 0x110000 := d.valid
  have hmax : d.val.toNat < 0x110000 := show d.toNat < 0x110000 by omega
  clear hd
  generalize hm : c.val.toNat = m at hlt
  generalize hn : d.val.toNat = n at hlt hmax
  unfold String.utf8EncodeChar
  simp only [hm, hn]
  -- Of two widths the lower character has the smaller one, and so the lower first byte.
  split_ifs <;> first
    | (exfalso; omega)
    | exact byte_lt (by omega) (Or.inl (by omega))
    | skip
  · refine byte_lt (by omega) ?_
    by_cases h₁ : m / 64 = n / 64
    · exact Or.inr ⟨by omega, byte_lt (by omega) (Or.inl (by omega))⟩
    · exact Or.inl (by omega)
  · refine byte_lt (by omega) ?_
    by_cases h₂ : m / 4096 = n / 4096
    · refine Or.inr ⟨by omega, byte_lt (by omega) ?_⟩
      by_cases h₁ : m / 64 = n / 64
      · exact Or.inr ⟨by omega, byte_lt (by omega) (Or.inl (by omega))⟩
      · exact Or.inl (by omega)
    · exact Or.inl (by omega)
  · refine byte_lt (by omega) ?_
    by_cases h₃ : m / 262144 = n / 262144
    · refine Or.inr ⟨by omega, byte_lt (by omega) ?_⟩
      by_cases h₂ : m / 4096 = n / 4096
      · refine Or.inr ⟨by omega, byte_lt (by omega) ?_⟩
        by_cases h₁ : m / 64 = n / 64
        · exact Or.inr ⟨by omega, byte_lt (by omega) (Or.inl (by omega))⟩
        · exact Or.inl (by omega)
      · exact Or.inl (by omega)
    · exact Or.inl (by omega)

/-- UTF-8 keeps the order of characters. -/
theorem utf8_chars_lt {a b : List Char} (h : a < b) :
    a.flatMap String.utf8EncodeChar < b.flatMap String.utf8EncodeChar := by
  induction h with
  | nil =>
    rename_i c rest
    rw [List.flatMap_nil, List.flatMap_cons]
    obtain ⟨byte, bytes, heq⟩ := List.exists_cons_of_ne_nil (String.utf8EncodeChar_ne_nil (c := c))
    rw [heq, List.cons_append]
    exact List.nil_lt_cons _ _
  | cons _ ih =>
    rw [List.flatMap_cons, List.flatMap_cons]
    exact List.append_left_lt ih
  | rel hlt => exact utf8EncodeChar_lt hlt _ _

/-- The bytes of texts are ordered as the texts are. -/
theorem utf8_lt_iff {a b : String} : utf8 a < utf8 b ↔ a < b := by
  have hmono : ∀ {a b : String}, a < b → utf8 a < utf8 b :=
    fun hlt => utf8_chars_lt (String.lt_iff_toList_lt.mp hlt)
  refine ⟨fun hlt => ?_, hmono⟩
  obtain h | rfl | h := lt_trichotomy a b
  · exact h
  · exact absurd hlt (List.lt_irrefl _)
  · exact absurd (List.lt_trans hlt (hmono h)) (List.lt_irrefl _)

/-- Two strings have two UTF-8 forms. -/
theorem utf8_injective {a b : String} (h : utf8 a = utf8 b) : a = b := by
  obtain hlt | heq | hlt := lt_trichotomy a b
  · exact absurd (h ▸ utf8_lt_iff.mpr hlt) (List.lt_irrefl _)
  · exact heq
  · exact absurd (h ▸ utf8_lt_iff.mpr hlt) (List.lt_irrefl _)

/-- Code points are ordered as the characters are. -/
theorem chars_lt_iff {a b : List Char} : a.map Char.toNat < b.map Char.toNat ↔ a < b := by
  have hmono : ∀ {a b : List Char}, a < b → a.map Char.toNat < b.map Char.toNat := by
    intro a b hlt
    induction hlt with
    | nil => exact List.nil_lt_cons _ _
    | cons _ ih => exact List.cons_lt_cons_iff.mpr (Or.inr ⟨rfl, ih⟩)
    | rel hlt => exact List.cons_lt_cons_iff.mpr (Or.inl (Char.lt_def.mp hlt))
  refine ⟨fun hlt => ?_, hmono⟩
  obtain h | rfl | h := lt_trichotomy a b
  · exact h
  · exact absurd hlt (lt_irrefl _)
  · exact absurd (hmono h) hlt.not_gt

end Js
