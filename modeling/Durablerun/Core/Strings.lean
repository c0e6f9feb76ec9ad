import Durablerun.Lib.Utf
import Mathlib.Data.Int.ConditionallyCompleteOrder
import Mathlib.Data.Sign.Basic

/-!
# The width and the order of names

Core counts a name's width in characters and orders names by code points, over UTF-16 units. The
databases do so over bytes, and the two never disagree.

Reference: `packages/core/src/validate.ts`.
-/

namespace Durablerun

open Js

/-! ## Width -/

/-- `IDENTIFIER_CHARACTERS`. -/
def IDENTIFIER_CHARACTERS : ℕ := 255

/-- The loop of `fitsCharacters`, over the units from its index on: one character less for every
pair. -/
def countCharacters : Str → ℤ → ℤ
  | unit :: next :: rest, characters =>
    if unit.toNat < 0xD800 ∨ 0xDBFF < unit.toNat then countCharacters (next :: rest) characters
    else if next.toNat < 0xDC00 ∨ 0xDFFF < next.toNat then countCharacters (next :: rest) characters
    else countCharacters rest (characters - 1)
  | _, characters => characters

/-- `fitsCharacters`. -/
def fitsCharacters (raw : Str) (width : ℕ) : Prop :=
  raw.length ≤ width ∨ countCharacters raw raw.length ≤ width
deriving Decidable

/-- `requireIdentifiersFit`, of one identifier, or the text of the refusal. -/
def requireIdentifiersFit (what raw : Str) : Except Str Unit :=
  if fitsCharacters raw IDENTIFIER_CHARACTERS then .ok ()
  else .error (what ++ units " is longer than the 255 characters a durable identifier holds")

/-- The loop takes off the pairs that are left. -/
theorem countCharacters_eq (s : Str) (characters : ℤ) :
    countCharacters s characters = characters - (s.length - (codePoints s).length) := by
  fun_induction countCharacters s characters with
  | case1 unit next rest characters hunit ih =>
    have hskip : ∀ v ∈ (next :: rest).head?, ¬ (isHigh unit ∧ isLow v) :=
      fun v _ ⟨⟨hmin, hmax⟩, _⟩ => by omega
    rw [ih, codePoints_unit hskip]
    simp only [List.length_cons]
    push_cast
    ring
  | case2 unit next rest characters hunit hnext ih =>
    have hskip : ∀ v ∈ (next :: rest).head?, ¬ (isHigh unit ∧ isLow v) := by
      rintro v hv ⟨_, hmin, hmax⟩
      obtain rfl := Option.some.inj hv
      omega
    rw [ih, codePoints_unit hskip]
    simp only [List.length_cons]
    push_cast
    ring
  | case3 unit next rest characters hunit hnext ih =>
    have hhigh : isHigh unit := ⟨by omega, by omega⟩
    have hlow : isLow next := ⟨by omega, by omega⟩
    rw [ih, codePoints_pair hhigh hlow]
    simp only [List.length_cons]
    push_cast
    ring
  | case4 s characters hshort =>
    match s, hshort with
    | [], _ => simp [codePoints]
    | [u], _ => simp [codePoints]
    | u :: v :: rest, hshort => exact absurd rfl (hshort u v rest)

/-- A string has no more characters than units, and at least half as many. -/
theorem codePoints_length (s : Str) :
    (codePoints s).length ≤ s.length ∧ s.length ≤ 2 * (codePoints s).length := by
  fun_induction codePoints s with
  | case1 u v rest _ ih =>
    simp only [List.length_cons]
    omega
  | case2 u v rest _ ih =>
    simp only [List.length_cons] at ih ⊢
    omega
  | case3 => exact ⟨le_rfl, by simp⟩
  | case4 => exact ⟨le_rfl, le_rfl⟩

/-- Counted to its length, a string has as many characters as code points. -/
theorem countCharacters_length (s : Str) : countCharacters s s.length = (codePoints s).length := by
  rw [countCharacters_eq]
  ring

/-- `fitsCharacters` holds of the strings that have no more characters than the width. -/
theorem fitsCharacters_iff (s : Str) (w : ℕ) :
    fitsCharacters s w ↔ (codePoints s).length ≤ w := by
  unfold fitsCharacters
  rw [countCharacters_length, Nat.cast_le]
  exact or_iff_right_of_imp (codePoints_length s).1.trans

/-! ## Order -/

/-- `codePointRank`: where a unit stands in code point order. -/
def codePointRank (unit : UInt16) : ℤ :=
  if unit.toNat < 0xD800 then unit.toNat
  else if unit.toNat < 0xE000 then unit.toNat + 0x2000 else unit.toNat - 0x800

/-- `byCodePoints`: by the first unit the strings differ at, and then by length. -/
def byCodePoints : Str → Str → ℤ
  | u :: left, v :: right =>
    if u ≠ v then codePointRank u - codePointRank v else byCodePoints left right
  | left, right => left.length - right.length

/-- A common beginning does not order two strings. -/
theorem byCodePoints_self_append (l left right : Str) :
    byCodePoints (l ++ left) (l ++ right) = byCodePoints left right := by
  induction l with
  | nil => rfl
  | cons u l ih => rw [List.cons_append, List.cons_append, byCodePoints, if_neg (by simp), ih]

/-- The unit of lower rank comes first. -/
theorem byCodePoints_cons {u v : UInt16} (h : codePointRank u < codePointRank v) (left right : Str) :
    byCodePoints (u :: left) (v :: right) < 0 := by
  have hne : u ≠ v := by
    rintro rfl
    exact h.false
  rw [byCodePoints, if_pos hne]
  exact sub_neg_of_lt h

/-- A unit's rank: the surrogates come after every other unit. -/
theorem codePointRank_ofNat {n : ℕ} (h : n < 65536) : codePointRank (UInt16.ofNat n) =
    if n < 0xD800 then (n : ℤ) else if n < 0xE000 then n + 0x2000 else n - 0x800 := by
  unfold codePointRank
  rw [UInt16.toNat_ofNat', Nat.mod_eq_of_lt h]

/-- Half of a pair stands above the basic plane. -/
theorem codePointRank_surrogate {n : ℕ} (hmin : 0xD800 ≤ n) (hmax : n < 0xE000) :
    codePointRank (UInt16.ofNat n) = n + 0x2000 := by
  rw [codePointRank_ofNat (by omega), if_neg (by omega), if_pos hmax]

/-- A character of the basic plane stands below the surrogates, in the order of its code point. -/
theorem codePointRank_plane {n : ℕ} (h : n < 0xD800 ∨ 0xDFFF < n ∧ n < 0x10000) :
    codePointRank (UInt16.ofNat n) = if n < 0xD800 then (n : ℤ) else n - 0x800 := by
  rw [codePointRank_ofNat (by omega)]
  by_cases hlow : n < 0xD800
  · rw [if_pos hlow, if_pos hlow]
  · rw [if_neg hlow, if_neg hlow, if_neg (by omega)]

/-- A lower character's units come first, whatever follows. -/
theorem byCodePoints_of_lt {c d : Char} (h : c < d) (left right : Str) :
    byCodePoints (utf16Char c ++ left) (utf16Char d ++ right) < 0 := by
  have hlt : c.toNat < d.toNat := Char.lt_def.mp h
  have hc : c.toNat < 0xD800 ∨ 0xDFFF < c.toNat ∧ c.toNat < 0x110000 := c.valid
  have hd : d.toNat < 0xD800 ∨ 0xDFFF < d.toNat ∧ d.toNat < 0x110000 := d.valid
  have hhigh : ∀ n, n < 0x110000 → 0xD800 + (n - 0x10000) / 0x400 < 0xE000 := fun n hn => by omega
  have hlow : ∀ n, 0xDC00 + (n - 0x10000) % 0x400 < 0xE000 := fun n => by omega
  generalize hm : c.toNat = m at hlt hc
  generalize hn : d.toNat = n at hlt hd
  unfold utf16Char
  rw [hm, hn]
  split <;> split
  · next hm' hn' =>
    refine byCodePoints_cons ?_ _ _
    rw [codePointRank_plane (by omega), codePointRank_plane (by omega)]
    split <;> split <;> omega
  · next hm' hn' =>
    refine byCodePoints_cons ?_ _ _
    rw [codePointRank_plane (by omega),
      codePointRank_surrogate (Nat.le_add_right _ _) (hhigh n (by omega))]
    split <;> omega
  · omega
  · next hm' hn' =>
    have hm'' := codePointRank_surrogate (Nat.le_add_right _ _) (hhigh m (by omega))
    have hn'' := codePointRank_surrogate (Nat.le_add_right _ _) (hhigh n (by omega))
    by_cases heq : (m - 0x10000) / 0x400 = (n - 0x10000) / 0x400
    · -- the pairs share their first half
      rw [heq]
      show byCodePoints ([_] ++ _) ([_] ++ _) < 0
      rw [byCodePoints_self_append]
      refine byCodePoints_cons ?_ _ _
      rw [codePointRank_surrogate (by omega) (hlow m), codePointRank_surrogate (by omega) (hlow n)]
      omega
    · refine byCodePoints_cons ?_ _ _
      rw [hm'', hn'']
      omega

/-- Two characters compare as their code points do. -/
theorem byCodePoints_chars {a b : List Char} (h : a < b) :
    byCodePoints (a.flatMap utf16Char) (b.flatMap utf16Char) < 0 := by
  induction h with
  | nil =>
    next c l =>
    obtain ⟨u, rest, hu⟩ := utf16Char_cons c
    rw [List.flatMap_cons, hu, List.flatMap_nil, List.cons_append, byCodePoints]
    · rw [List.length_nil, List.length_cons]
      omega
    · intro _ _ _ _ hnil
      cases hnil
  | cons _ ih =>
    rw [List.flatMap_cons, List.flatMap_cons, byCodePoints_self_append]
    exact ih
  | rel hcd => exact byCodePoints_of_lt hcd _ _

/-- A string compares as equal to itself. -/
theorem byCodePoints_self (l : Str) : byCodePoints l l = 0 := by
  have h := byCodePoints_self_append l [] []
  rwa [List.append_nil] at h

/-- Comparing the other way round gives the opposite. -/
theorem byCodePoints_neg_comm (l r : Str) : byCodePoints l r = - byCodePoints r l := by
  induction l generalizing r with
  | nil => cases r <;> simp [byCodePoints]
  | cons u l ih =>
    cases r with
    | nil => simp [byCodePoints]
    | cons v r =>
      by_cases huv : u = v
      · rw [byCodePoints, byCodePoints, if_neg (not_not_intro huv), if_neg (not_not_intro huv.symm), ih]
      · rw [byCodePoints, byCodePoints, if_pos huv, if_pos (Ne.symm huv)]
        ring

/-- The comparison orders strings by code point, as the databases do. -/
theorem byCodePoints_nonpos {a b : String} : byCodePoints (utf16 a) (utf16 b) ≤ 0 ↔ a ≤ b := by
  rcases lt_trichotomy a b with h | rfl | h
  · have hneg : byCodePoints (utf16 a) (utf16 b) < 0 :=
      byCodePoints_chars (String.lt_iff_toList_lt.mp h)
    exact ⟨fun _ => h.le, fun _ => hneg.le⟩
  · exact ⟨fun _ => le_rfl, fun _ => (byCodePoints_self _).le⟩
  · have hneg : byCodePoints (utf16 b) (utf16 a) < 0 :=
      byCodePoints_chars (String.lt_iff_toList_lt.mp h)
    rw [byCodePoints_neg_comm]
    exact ⟨fun hle => absurd hle (by omega), fun hle => absurd hle h.not_ge⟩

/-- Units of one rank are one. -/
theorem codePointRank_injective {u v : UInt16} (h : codePointRank u = codePointRank v) : u = v := by
  have hu : u.toNat < 65536 := u.toNat_lt
  have hv : v.toNat < 65536 := v.toNat_lt
  refine UInt16.toNat_inj.mp ?_
  unfold codePointRank at h
  split_ifs at h <;> omega

/-- The comparison is the lexicographic one of the units' ranks. -/
theorem byCodePoints_neg {a b : Str} :
    byCodePoints a b < 0 ↔ a.map codePointRank < b.map codePointRank := by
  induction a generalizing b with
  | nil =>
    cases b with
    | nil => simp [byCodePoints]
    | cons v b =>
      refine iff_of_true ?_ (List.nil_lt_cons _ _)
      rw [byCodePoints, List.length_nil, List.length_cons]
      · omega
      · rintro _ _ _ _ hnil
        cases hnil
  | cons u a ih =>
    cases b with
    | nil =>
      refine iff_of_false ?_ (List.not_lt_nil _)
      rw [byCodePoints, List.length_nil, List.length_cons]
      · omega
      · rintro _ _ _ _ _ hnil
        cases hnil
    | cons v b =>
      rw [byCodePoints, List.map_cons, List.map_cons, List.cons_lt_cons_iff]
      split
      · rename_i hne
        rw [sub_neg]
        exact (or_iff_left fun heq => hne (codePointRank_injective heq.1)).symm
      · rename_i heq
        obtain rfl := not_not.mp heq
        rw [ih]
        exact ⟨fun hlt => Or.inr ⟨rfl, hlt⟩, fun h => h.elim (fun hlt => absurd hlt (lt_irrefl _))
          And.right⟩

/-- Only equal strings compare as equal. -/
theorem byCodePoints_eq_zero {a b : Str} : byCodePoints a b = 0 ↔ a = b := by
  constructor
  · intro hzero
    have hmap : a.map codePointRank = b.map codePointRank := by
      have hnot := hzero.not_lt
      have hnot' : ¬ byCodePoints b a < 0 := by
        rw [byCodePoints_neg_comm]
        omega
      rw [byCodePoints_neg] at hnot hnot'
      exact le_antisymm (not_lt.mp hnot') (not_lt.mp hnot)
    exact List.map_injective_iff.mpr (fun _ _ => codePointRank_injective) hmap
  · rintro rfl
    exact byCodePoints_self a

/-- The order is transitive. -/
theorem byCodePoints_trans {a b c : Str} (h : byCodePoints a b < 0) (h' : byCodePoints b c < 0) :
    byCodePoints a c < 0 := by
  rw [byCodePoints_neg] at h h' ⊢
  exact h.trans h'

/-- The comparison says of two strings what an order says of what they are read as. -/
structure Tells {β : Type} [LT β] (a b : Str) (x y : β) : Prop where
  before : byCodePoints a b < 0 ↔ x < y
  same : byCodePoints a b = 0 ↔ x = y
  after : 0 < byCodePoints a b ↔ y < x

/-- A comparison that tells the lower of two tells all three. -/
theorem Tells.of_before {β : Type} [LT β] (read : Str → β) {a b : Str}
    (h : byCodePoints a b < 0 ↔ read a < read b) (h' : byCodePoints b a < 0 ↔ read b < read a)
    (hread : read a = read b → a = b) : Tells a b (read a) (read b) where
  before := h
  same := byCodePoints_eq_zero.trans ⟨fun heq => heq ▸ rfl, hread⟩
  after := by
    rw [byCodePoints_neg_comm, Left.neg_pos_iff]
    exact h'

/-- Well-formed strings compare as the texts they are. -/
theorem byCodePoints_text {a b : Str} (ha : WellFormed a) (hb : WellFormed b) :
    byCodePoints a b < 0 ↔ text a < text b := by
  have hle := byCodePoints_nonpos (a := text b) (b := text a)
  rw [ha.utf16_text, hb.utf16_text, byCodePoints_neg_comm] at hle
  have hlt := not_congr hle
  rw [not_le, not_le] at hlt
  rw [← hlt]
  omega

/-- `byCodePoints` orders strings strictly and totally, and well-formed ones by their characters,
which is by the bytes of their texts. -/
theorem byCodePoints_order :
    (∀ a b : Str, SignType.sign (byCodePoints a b) = - SignType.sign (byCodePoints b a)) ∧
      (∀ a b : Str, byCodePoints a b = 0 ↔ a = b) ∧
      (∀ a b c : Str, byCodePoints a b < 0 → byCodePoints b c < 0 → byCodePoints a c < 0) ∧
      ∀ a b : Str, WellFormed a → WellFormed b →
        Tells a b (codePoints a) (codePoints b) ∧ Tells a b (utf8 (text a)) (utf8 (text b)) := by
  refine ⟨fun a b => ?_, fun _ _ => byCodePoints_eq_zero, fun _ _ _ => byCodePoints_trans,
    fun a b ha hb => ⟨?_, ?_⟩⟩
  · rw [byCodePoints_neg_comm, Left.sign_neg]
  · have hread : ∀ {s}, WellFormed s → codePoints s = (text s).toList.map Char.toNat := fun h => by
      rw [← codePoints_utf16, h.utf16_text]
    have hbefore : ∀ {s t}, WellFormed s → WellFormed t →
        (byCodePoints s t < 0 ↔ codePoints s < codePoints t) := fun hs ht => by
      rw [byCodePoints_text hs ht, hread hs, hread ht, chars_lt_iff, String.lt_iff_toList_lt]
    exact .of_before codePoints (hbefore ha hb) (hbefore hb ha) fun heq => by
      rw [← ha.utf16_text, ← hb.utf16_text]
      unfold text
      rw [heq]
  · have hbefore : ∀ {s t}, WellFormed s → WellFormed t →
        (byCodePoints s t < 0 ↔ utf8 (text s) < utf8 (text t)) := fun hs ht => by
      rw [byCodePoints_text hs ht, utf8_lt_iff]
    refine .of_before (fun s => utf8 (text s)) (hbefore ha hb) (hbefore hb ha) fun heq => ?_
    rw [← ha.utf16_text, ← hb.utf16_text, utf8_injective heq]

/-- The order of a letter and a character past the basic plane. -/
theorem byCodePoints_order_pair :
    Tells (units "z") [0xD83D, 0xDE00] (codePoints (units "z")) (codePoints [0xD83D, 0xDE00]) ∧
      Tells (units "z") [0xD83D, 0xDE00] (utf8 (text (units "z"))) (utf8 (text [0xD83D, 0xDE00])) :=
  byCodePoints_order.2.2.2 _ _ (by decide) (by decide)

end Durablerun
