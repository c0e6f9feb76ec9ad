import Mathlib.Data.List.Sort
import Mathlib.Tactic.Set

/-!
# The first of a sorted list

A query that reads the first `k` rows of a union may take the first `k` of each leg, merge the two and
take the first `k` again: what a leg leaves out, its own first `k` precede.
-/

namespace List

variable {α : Type}

/-- What a limit leaves of a list that was cut to it is what it leaves of the list. -/
theorem take_cons_take (k : ℕ) (x : α) (l : List α) : (x :: l.take k).take k = (x :: l).take k := by
  cases k with
  | zero => rfl
  | succ k => rw [take_succ_cons, take_succ_cons, take_take, Nat.min_eq_left (Nat.le_succ k)]

/-- Merging needs no more of either list than is taken of the merge. -/
theorem take_merge (le : α → α → Bool) (k : ℕ) (a b : List α) :
    (a.merge b le).take k = ((a.take k).merge (b.take k) le).take k := by
  induction k generalizing a b with
  | zero => rfl
  | succ k ih =>
    cases a with
    | nil => simp [take_take]
    | cons x a =>
      cases b with
      | nil => simp [take_take]
      | cons y b =>
        rw [take_succ_cons, take_succ_cons]
        by_cases hle : le x y
        · rw [cons_merge_cons_pos le _ _ hle, cons_merge_cons_pos le _ _ hle, take_succ_cons,
            take_succ_cons, ih a (y :: b), ih (a.take k) (y :: b.take k), take_take, Nat.min_self,
            take_cons_take]
        · rw [cons_merge_cons_neg le _ _ hle, cons_merge_cons_neg le _ _ hle, take_succ_cons,
            take_succ_cons, ih (x :: a) b, ih (x :: a.take k) (b.take k), take_take, Nat.min_self,
            take_cons_take]

section Sorted

variable {r : α → α → Prop} [DecidableRel r] [Std.Total r] [IsTrans α r] {l₁ l₂ : List α}

/-- The order tells any two elements of the list apart. -/
def Antisymmetric (r : α → α → Prop) (l : List α) : Prop :=
  ∀ a ∈ l, ∀ b ∈ l, r a b → r b a → a = b

/-- Sorting two lists as one is merging the two, sorted. -/
theorem insertionSort_append (hanti : Antisymmetric r (l₁ ++ l₂)) :
    (l₁ ++ l₂).insertionSort r =
      (l₁.insertionSort r).merge (l₂.insertionSort r) fun a b => decide (r a b) := by
  have hperm : (l₁ ++ l₂).insertionSort r ~
      (l₁.insertionSort r).merge (l₂.insertionSort r) fun a b => decide (r a b) := by
    refine (perm_insertionSort r _).trans (Perm.symm ?_)
    exact (merge_perm_append _).trans
      ((perm_insertionSort r l₁).append (perm_insertionSort r l₂))
  have hsorted : ((l₁.insertionSort r).merge (l₂.insertionSort r) fun a b =>
      decide (r a b)).Pairwise r := by
    have hmerged := @pairwise_merge α (fun a b => decide (r a b))
      (fun a b c hab hbc => decide_eq_true (IsTrans.trans a b c (of_decide_eq_true hab)
        (of_decide_eq_true hbc)))
      (fun a b => by simpa using total_of r a b) (l₁.insertionSort r) (l₂.insertionSort r)
      (by simpa using pairwise_insertionSort r l₁) (by simpa using pairwise_insertionSort r l₂)
    simpa using hmerged
  refine hperm.eq_of_pairwise (fun a b ha hb => ?_) (pairwise_insertionSort r _) hsorted
  exact hanti a ((mem_insertionSort r).mp ha) b ((mem_insertionSort r).mp (hperm.mem_iff.mpr hb))

/-- The first of a union are the first of its limited legs. -/
theorem take_insertionSort_append (k : ℕ) (hanti : Antisymmetric r (l₁ ++ l₂)) :
    (((l₁.insertionSort r).take k ++ (l₂.insertionSort r).take k).insertionSort r).take k =
      ((l₁ ++ l₂).insertionSort r).take k := by
  have hmem : ∀ {l : List α} {a : α}, a ∈ (l.insertionSort r).take k → a ∈ l :=
    fun ha => (mem_insertionSort r).mp (mem_of_mem_take ha)
  have hlegs : Antisymmetric r ((l₁.insertionSort r).take k ++ (l₂.insertionSort r).take k) := by
    intro a ha b hb
    refine hanti a ?_ b ?_
    · exact mem_append.mpr ((mem_append.mp ha).imp hmem hmem)
    · exact mem_append.mpr ((mem_append.mp hb).imp hmem hmem)
  have hleg : ∀ l : List α, ((l.insertionSort r).take k).insertionSort r =
      (l.insertionSort r).take k :=
    fun l => ((pairwise_insertionSort r l).sublist (take_sublist k _)).insertionSort_eq
  rw [insertionSort_append hlegs, insertionSort_append hanti, hleg, hleg, ← take_merge]

omit [DecidableRel r] [Std.Total r] [IsTrans α r] in
/-- An order antisymmetric on a list is so on fewer of its elements. -/
theorem Antisymmetric.subset {l l' : List α} (hanti : Antisymmetric r l) (h : l' ⊆ l) :
    Antisymmetric r l' := fun a ha b hb => hanti a (h ha) b (h hb)

/-- The first of many legs are the first of the limited legs. -/
theorem take_insertionSort_flatMap {β : Type} (k : ℕ) (leg : β → List α) (legs : List β)
    (hanti : Antisymmetric r (legs.flatMap leg)) :
    ((legs.flatMap fun b => ((leg b).insertionSort r).take k).insertionSort r).take k =
      ((legs.flatMap leg).insertionSort r).take k := by
  induction legs with
  | nil => rfl
  | cons b legs ih =>
    rw [flatMap_cons] at hanti
    rw [flatMap_cons, flatMap_cons]
    set rest := legs.flatMap fun b => ((leg b).insertionSort r).take k with hrest
    have hlimited : ∀ l : List α, (l.insertionSort r).take k ⊆ l :=
      fun l a ha => (mem_insertionSort r).mp (mem_of_mem_take ha)
    have hsub : rest ⊆ legs.flatMap leg := by
      intro a ha
      obtain ⟨b, hb, hab⟩ := mem_flatMap.mp ha
      exact mem_flatMap.mpr ⟨b, hb, hlimited _ hab⟩
    have hsorted : (((leg b).insertionSort r).take k).insertionSort r =
        ((leg b).insertionSort r).take k :=
      ((pairwise_insertionSort r (leg b)).sublist (take_sublist k _)).insertionSort_eq
    have hleg : ((((leg b).insertionSort r).take k).insertionSort r).take k =
        ((leg b).insertionSort r).take k := by
      rw [hsorted, take_take, Nat.min_self]
    calc ((((leg b).insertionSort r).take k ++ rest).insertionSort r).take k
        = ((((leg b).insertionSort r).take k ++ (rest.insertionSort r).take k).insertionSort
            r).take k := by
          have hlegs : Antisymmetric r (((leg b).insertionSort r).take k ++ rest) :=
            hanti.subset (append_subset.mpr
              ⟨List.Subset.trans (hlimited _) (subset_append_left _ _),
                List.Subset.trans hsub (subset_append_right _ _)⟩)
          rw [← take_insertionSort_append k hlegs, hleg]
      _ = ((((leg b).insertionSort r).take k ++
            ((legs.flatMap leg).insertionSort r).take k).insertionSort r).take k := by
          rw [ih (hanti.subset (subset_append_right _ _))]
      _ = ((leg b ++ legs.flatMap leg).insertionSort r).take k := take_insertionSort_append k hanti

/-- What the first of a sorted list leave out, they precede. -/
theorem le_of_not_mem_take {k : ℕ} {a : α} {l : List α} (ha : a ∈ l)
    (hnot : a ∉ (l.insertionSort r).take k) :
    ((l.insertionSort r).take k).length = k ∧ ∀ b ∈ (l.insertionSort r).take k, r b a := by
  have hsplit : ((l.insertionSort r).take k ++ (l.insertionSort r).drop k).Pairwise r := by
    rw [take_append_drop]
    exact pairwise_insertionSort r l
  have hdrop : a ∈ (l.insertionSort r).drop k := by
    have hmem := (mem_insertionSort r).mpr ha
    rw [← take_append_drop k (l.insertionSort r), mem_append] at hmem
    exact hmem.resolve_left hnot
  refine ⟨?_, fun b hb => (pairwise_append.mp hsplit).2.2 b hb a hdrop⟩
  have hpos := length_pos_of_mem hdrop
  rw [length_drop] at hpos
  rw [length_take]
  omega

/-- A list sorts as any list of the same elements does. -/
theorem insertionSort_of_perm (hanti : Antisymmetric r l₁) (h : l₁ ~ l₂) :
    l₁.insertionSort r = l₂.insertionSort r := by
  have hperm : l₁.insertionSort r ~ l₂.insertionSort r :=
    (perm_insertionSort r l₁).trans (h.trans (perm_insertionSort r l₂).symm)
  refine hperm.eq_of_pairwise (fun a b ha hb => ?_) (pairwise_insertionSort r _)
    (pairwise_insertionSort r _)
  exact hanti a ((mem_insertionSort r).mp ha) b ((mem_insertionSort r).mp (hperm.mem_iff.mpr hb))

omit [DecidableRel r] [Std.Total r] [IsTrans α r] in
/-- A sorted list's elements of a kind that what precedes one of it is of are its first. -/
theorem filter_take_of_pairwise {p : α → Prop} [DecidablePred p] {l : List α} (hl : l.Pairwise r)
    (hclosed : ∀ a ∈ l, ∀ b ∈ l, r a b → p b → p a) (k : ℕ) :
    (l.take k).filter p = (l.filter p).take k := by
  induction l generalizing k with
  | nil => simp
  | cons a l ih =>
    obtain ⟨ha, hl⟩ := pairwise_cons.mp hl
    cases k with
    | zero => rfl
    | succ k =>
      by_cases hp : p a
      · rw [take_succ_cons, filter_cons_of_pos (by simpa using hp),
          filter_cons_of_pos (by simpa using hp), take_succ_cons,
          ih hl fun b hb c hc => hclosed b (mem_cons_of_mem _ hb) c (mem_cons_of_mem _ hc)]
      · -- Nothing after an element that is not of the kind is of it.
        have hnone : ∀ m : List α, m ⊆ l → m.filter p = [] := by
          refine fun m hm => filter_eq_nil_iff.mpr fun b hb => ?_
          simp only [decide_eq_true_eq]
          exact fun hpb => hp (hclosed a mem_cons_self b (mem_cons_of_mem _ (hm hb))
            (ha b (hm hb)) hpb)
        rw [take_succ_cons, filter_cons_of_neg (by simpa using hp),
          filter_cons_of_neg (by simpa using hp), hnone l (fun _ h => h),
          hnone _ (take_subset k l), take_nil]

/-- The elements of a kind among the first of a sorted list are the first of that kind. -/
theorem filter_take_insertionSort {p : α → Prop} [DecidablePred p] {l : List α}
    (hanti : Antisymmetric r l) (hclosed : ∀ a ∈ l, ∀ b ∈ l, r a b → p b → p a) (k : ℕ) :
    ((l.insertionSort r).take k).filter p = ((l.filter p).insertionSort r).take k := by
  have hmem : ∀ {a}, a ∈ l.insertionSort r → a ∈ l := (mem_insertionSort r).mp
  have hsorted : (l.insertionSort r).filter p = (l.filter p).insertionSort r := by
    have hperm : (l.insertionSort r).filter p ~ (l.filter p).insertionSort r :=
      ((perm_insertionSort r l).filter _).trans (perm_insertionSort r _).symm
    refine hperm.eq_of_pairwise (fun a b ha hb => ?_)
      ((pairwise_insertionSort r l).filter _) (pairwise_insertionSort r _)
    exact hanti a (hmem (mem_filter.mp ha).1) b (mem_filter.mp ((mem_insertionSort r).mp hb)).1
  rw [filter_take_of_pairwise (pairwise_insertionSort r l)
    (fun a ha b hb => hclosed a (hmem ha) b (hmem hb)) k, hsorted]

/-- A list has so many elements of a kind when the first so many of it, sorted, are all of that
kind. -/
theorem le_length_filter_iff {p : α → Prop} [DecidablePred p] {l : List α}
    (hanti : Antisymmetric r l) (hclosed : ∀ a ∈ l, ∀ b ∈ l, r a b → p b → p a) {k : ℕ} :
    k ≤ (l.filter p).length ↔
      ((l.insertionSort r).take k).length = k ∧ ∀ a ∈ (l.insertionSort r).take k, p a := by
  have hfirst := congrArg length (filter_take_insertionSort hanti hclosed k)
  rw [length_take, length_insertionSort] at hfirst
  have hfilter := length_filter_le (fun a => decide (p a)) ((l.insertionSort r).take k)
  have htake : ((l.insertionSort r).take k).length ≤ k := length_take_le k _
  constructor
  · intro hle
    rw [Nat.min_eq_left hle] at hfirst
    have hfull : ((l.insertionSort r).take k).length = k := by omega
    refine ⟨hfull, fun a ha => ?_⟩
    exact of_decide_eq_true (length_filter_eq_length_iff.mp (hfirst.trans hfull.symm) a ha)
  · rintro ⟨hfull, hall⟩
    rw [length_filter_eq_length_iff.mpr fun a ha => decide_eq_true (hall a ha), hfull] at hfirst
    omega

end Sorted

end List
