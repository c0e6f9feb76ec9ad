import Mathlib.Data.String.Basic

/-!
# Names under a prefix as a range

In the lexicographic order the words that start with `d ++ [a]` lie between that word and
`d ++ [b]`, for any letter `b` past `a`, and are all that lie there when `b` is the next. A store that
keeps its names in order finds the names under a prefix as such a range.
-/

namespace Prefix

/-- A word under `d ++ [a]` is less than `d ++ [b]` when `a` is less than `b`. -/
theorem lt_of_prefix {α : Type} [LinearOrder α] {d s : List α} {a b : α} (h : d ++ [a] <+: s) (hab : a < b) :
    s < d ++ [b] := by
  obtain ⟨q, rfl⟩ := h
  rw [List.append_assoc]
  exact List.append_left_lt (List.cons_lt_cons_iff.mpr (Or.inl hab))

/-- A name under a prefix is in the range from the prefix to its last letter raised. -/
theorem mem_range {name pre : String} {d : List Char} {a b : Char} (hpre : pre.toList = d ++ [a])
    (hab : a < b) (h : pre.toList <+: name.toList) :
    pre ≤ name ∧ name < String.ofList (d ++ [b]) := by
  constructor
  · exact String.le_iff_toList_le.mpr (not_lt.mp (List.not_lt.mpr h.le))
  · rw [String.lt_iff_toList_lt, String.toList_ofList]
    exact lt_of_prefix (hpre ▸ h) hab

/-- No letter lies between the two. -/
def Next {α : Type} [LinearOrder α] (a b : α) : Prop := ∀ c, a ≤ c → c < b → c = a

/-- A character is next to the one whose number is one more. -/
theorem next_char {a b : Char} (h : b.toNat = a.toNat + 1) : Next a b := by
  intro c hac hcb
  have hac' : a.toNat ≤ c.toNat := hac
  have hcb' : c.toNat < b.toNat := hcb
  exact Char.toNat_inj.mp (by omega)

/-- A word from `d ++ [a]` up to `d ++ [b]` is under `d ++ [a]` when `b` is the next letter. -/
theorem prefix_of_range {α : Type} [LinearOrder α] {d s : List α} {a b : α} (hnext : Next a b)
    (hle : ¬ s < d ++ [a]) (hlt : s < d ++ [b]) : d ++ [a] <+: s := by
  induction d generalizing s with
  | nil =>
    cases s with
    | nil => exact absurd (List.nil_lt_cons a []) hle
    | cons c s =>
      have hc : c < b := by
        rcases List.cons_lt_cons_iff.mp hlt with h | ⟨_, h⟩
        · exact h
        · exact absurd h (List.not_lt_nil s)
      have ha : a ≤ c := not_lt.mp fun h => hle (List.cons_lt_cons_iff.mpr (Or.inl h))
      rw [hnext c ha hc]
      exact List.prefix_append [a] s
  | cons x d ih =>
    cases s with
    | nil => exact absurd (List.nil_lt_cons x _) hle
    | cons c s =>
      have hle' : ¬ (c < x ∨ c = x ∧ s < d ++ [a]) := fun h => hle (List.cons_lt_cons_iff.mpr h)
      rcases List.cons_lt_cons_iff.mp hlt with h | ⟨rfl, h⟩
      · exact absurd (Or.inl h) hle'
      · obtain ⟨q, rfl⟩ := ih (fun h' => hle' (Or.inr ⟨rfl, h'⟩)) h
        exact ⟨q, rfl⟩

/-- A name in that range is under the prefix, when no letter lies between the two. -/
theorem of_mem_range {name pre : String} {d : List Char} {a b : Char} (hpre : pre.toList = d ++ [a])
    (hnext : Next a b) (hle : pre ≤ name) (hlt : name < String.ofList (d ++ [b])) :
    pre.toList <+: name.toList := by
  rw [String.lt_iff_toList_lt, String.toList_ofList] at hlt
  rw [hpre]
  refine prefix_of_range hnext (fun h => ?_) hlt
  rw [← hpre] at h
  exact (not_lt.mpr hle) (String.lt_iff_toList_lt.mpr h)

end Prefix
