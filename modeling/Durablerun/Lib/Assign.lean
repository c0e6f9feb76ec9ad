import Mathlib.Data.Fintype.EquivFin
import Mathlib.Data.List.Nodup
import Mathlib.Logic.Function.Basic
import Mathlib.Logic.Relation
import Mathlib.Order.WellFounded

/-!
# Assignments in order and at once

A list of assignments to the columns of a row means one thing where each assignment sees the values
written before it, and another where each sees the old row. The two agree in an order in which every
reader of a column stands before its writer, and there is such an order unless the assignments read
one another in a cycle.
-/

namespace Assign

variable {Col Val α : Type}

/-! ## The two meanings -/

section Meaning

variable [DecidableEq Col] (column : α → Col) (value : α → (Col → Val) → Val) {l l' : List α}
  {row : Col → Val} {a : α} {c : Col}

/-- The row after assignments of which each sees what was written before it. -/
def inOrder (l : List α) (row : Col → Val) : Col → Val :=
  l.foldl (fun row a => Function.update row (column a) (value a row)) row

/-- The row after assignments of which each sees the old row. -/
def atOnce (l : List α) (row : Col → Val) : Col → Val := fun c =>
  match l.find? fun a => decide (column a = c) with
  | some a => value a row
  | none => row c

/-- The value does not depend on the column. -/
def Ignores (f : (Col → Val) → Val) (c : Col) : Prop :=
  ∀ row v, f (Function.update row c v) = f row

variable {column value}

/-- A column that no assignment names keeps its value. -/
theorem atOnce_of_forall_ne (h : ∀ a ∈ l, column a ≠ c) : atOnce column value l row c = row c := by
  have hnone : (l.find? fun a => decide (column a = c)) = none :=
    List.find?_eq_none.mpr fun a ha => by simpa using h a ha
  unfold atOnce
  rw [hnone]

/-- Distinct assignments: a column holds what its own assignment computes. -/
theorem atOnce_of_mem (hdistinct : (l.map column).Nodup) (ha : a ∈ l) :
    atOnce column value l row (column a) = value a row := by
  have hfound : (l.find? fun b => decide (column b = column a)) = some a := by
    obtain ⟨b, hb⟩ := Option.isSome_iff_exists.mp
      (List.find?_isSome (p := fun b => decide (column b = column a)) |>.mpr
        ⟨a, ha, decide_eq_true rfl⟩)
    have hcolumn : column b = column a := of_decide_eq_true (List.find?_some (p := fun b =>
      decide (column b = column a)) hb)
    rw [hb, List.inj_on_of_nodup_map hdistinct (List.mem_of_find?_eq_some hb) ha hcolumn]
  unfold atOnce
  rw [hfound]

/-- At once, the order of the assignments does not matter. -/
theorem atOnce_perm (hperm : l.Perm l') (hdistinct : (l.map column).Nodup) :
    atOnce column value l row = atOnce column value l' row := by
  funext c
  by_cases h : ∃ a ∈ l, column a = c
  · obtain ⟨a, ha, rfl⟩ := h
    rw [atOnce_of_mem hdistinct ha,
      atOnce_of_mem ((hperm.map column).nodup_iff.mp hdistinct) (hperm.mem_iff.mp ha)]
  · push Not at h
    rw [atOnce_of_forall_ne h, atOnce_of_forall_ne fun a ha => h a (hperm.mem_iff.mpr ha)]

/-- Where no assignment reads a column written before it, in order is at once. -/
theorem inOrder_eq_atOnce (hdistinct : (l.map column).Nodup)
    (h : l.Pairwise fun a b => Ignores (value b) (column a)) :
    inOrder column value l row = atOnce column value l row := by
  induction l generalizing row with
  | nil => rfl
  | cons a l ih =>
    obtain ⟨ha, hrest⟩ := List.pairwise_cons.mp h
    obtain ⟨hfresh, htail⟩ := List.nodup_cons.mp hdistinct
    have hne : ∀ b ∈ l, column b ≠ column a := fun b hb heq =>
      hfresh (List.mem_map.mpr ⟨b, hb, heq⟩)
    show inOrder column value l (Function.update row (column a) (value a row)) = _
    rw [ih htail hrest]
    funext c
    by_cases hc : ∃ b ∈ l, column b = c
    · obtain ⟨b, hb, rfl⟩ := hc
      rw [atOnce_of_mem htail hb, atOnce_of_mem hdistinct (List.mem_cons_of_mem a hb), ha b hb]
    · push Not at hc
      rw [atOnce_of_forall_ne hc]
      by_cases hac : column a = c
      · subst hac
        rw [Function.update_self, atOnce_of_mem hdistinct List.mem_cons_self]
      · rw [Function.update_of_ne (Ne.symm hac), atOnce_of_forall_ne fun b hb => ?_]
        obtain rfl | hb := List.mem_cons.mp hb
        · exact hac
        · exact hc b hb

end Meaning

/-! ## Readers before writers -/

section Order

variable (reads : α → α → Prop) {l l' : List α} {a b : α}

/-- No assignment reads what one before it writes. -/
def Ordered (l : List α) : Prop := l.Pairwise fun a b => ¬ reads b a

/-- One of the list reads what another of it writes. -/
def ReadsIn (l : List α) (a b : α) : Prop := a ∈ l ∧ b ∈ l ∧ a ≠ b ∧ reads a b

/-- The list's assignments read one another in a cycle. -/
def Cyclic (l : List α) : Prop := ∃ a, Relation.TransGen (ReadsIn reads l) a a

variable {reads}

/-- In such an order a reader stands before the writer. -/
theorem Ordered.idxOf_lt [DecidableEq α] (h : Ordered reads l) (hreads : ReadsIn reads l a b) :
    l.idxOf a < l.idxOf b := by
  obtain ⟨ha, hb, hne, hread⟩ := hreads
  have hia := List.idxOf_lt_length_of_mem ha
  have hib := List.idxOf_lt_length_of_mem hb
  by_contra hle
  have hlt : l.idxOf b < l.idxOf a := by
    refine lt_of_le_of_ne (not_lt.mp hle) fun heq => hne ?_
    exact ((List.idxOf_inj hb).mp heq).symm
  have hordered := List.pairwise_iff_getElem.mp h _ _ hib hia hlt
  rw [List.getElem_idxOf hib, List.getElem_idxOf hia] at hordered
  exact hordered hread

/-- No order of assignments that read one another in a cycle will do. -/
theorem Cyclic.not_ordered (h : Cyclic reads l) (hperm : l'.Perm l) : ¬ Ordered reads l' := by
  classical
  intro hordered
  obtain ⟨a, ha⟩ := h
  have hrises : ∀ b, Relation.TransGen (ReadsIn reads l) a b → l'.idxOf a < l'.idxOf b := by
    intro b hb
    induction hb with
    | single hstep =>
      exact hordered.idxOf_lt ⟨hperm.mem_iff.mpr hstep.1, hperm.mem_iff.mpr hstep.2.1, hstep.2.2⟩
    | tail _ hstep ih =>
      exact ih.trans
        (hordered.idxOf_lt ⟨hperm.mem_iff.mpr hstep.1, hperm.mem_iff.mpr hstep.2.1, hstep.2.2⟩)
  exact lt_irrefl _ (hrises a ha)

/-- Assignments of which each is read by another of them read one another in a cycle. -/
theorem cyclic_of_stuck (hsub : l' ⊆ l) (hne : l' ≠ [])
    (hstuck : ∀ a ∈ l', ∃ b ∈ l', b ≠ a ∧ reads b a) : Cyclic reads l := by
  classical
  by_contra hacyclic
  -- among finitely many, an order without a cycle has a first
  let R : {a // a ∈ l'} → {a // a ∈ l'} → Prop := fun a b =>
    Relation.TransGen (ReadsIn reads l) a.1 b.1
  have htrans : IsTrans _ R := ⟨fun _ _ _ => Relation.TransGen.trans⟩
  have hirrefl : Std.Irrefl R := ⟨fun a ha => hacyclic ⟨a.1, ha⟩⟩
  have hwf : WellFounded R := Finite.wellFounded_of_trans_of_irrefl R
  obtain ⟨a, ha⟩ := List.exists_mem_of_ne_nil l' hne
  obtain ⟨m, _, hmin⟩ := hwf.has_min Set.univ ⟨⟨a, ha⟩, trivial⟩
  obtain ⟨b, hb, hbm, hreads⟩ := hstuck m.1 m.2
  exact hmin ⟨b, hb⟩ trivial (.single ⟨hsub hb, hsub m.2, hbm, hreads⟩)

end Order

end Assign
