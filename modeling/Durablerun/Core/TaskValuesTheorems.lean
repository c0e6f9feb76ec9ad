import Durablerun.Core.TaskValues
import Mathlib.Data.List.ReduceOption

/-!
# Durable values have one spelling

What a value is copied into depends on its parts alone: the set of ancestors is restored on every
exit. The copy's JSON text is read back as a value that is copied into the same text.

Reference: `packages/core/src/validate.ts`.
-/

namespace Durablerun

open Js

variable {F α β σ : Type}

/-! ## Loops -/

section ForEach

variable {body : α → σ → Option β × σ} (hkeeps : ∀ a s, (body a s).2 = s)
include hkeeps

/-- A loop whose turns restore the state restores it. -/
theorem forEach_state (l : List α) (s : σ) : (forEach body l s).2 = s := by
  induction l with
  | nil => rfl
  | cons a l ih =>
    have hstate := hkeeps a s
    unfold forEach
    split
    · rename_i heq
      rw [heq] at hstate
      exact hstate
    · rename_i heq
      rw [heq] at hstate
      obtain rfl : _ = s := hstate
      split
      · rename_i heq'
        rw [heq'] at ih
        exact ih
      · rename_i heq'
        rw [heq'] at ih
        exact ih

/-- Each turn meets the state the loop began with. -/
theorem forEach_cons (a : α) (l : List α) (s : σ) : (forEach body (a :: l) s).1 =
    (body a s).1.bind fun b => (forEach body l s).1.map fun bs => b :: bs := by
  have hstate := hkeeps a s
  rw [forEach]
  split
  · rename_i heq
    rw [heq]
    rfl
  · rename_i heq
    rw [heq] at hstate ⊢
    obtain rfl : _ = s := hstate
    split
    · rename_i heq'
      rw [heq']
      rfl
    · rename_i heq'
      rw [heq']
      rfl

/-- A walk gives results where each item gives one, whatever the state it is visited in. -/
theorem forEach_some {l : List α} {s : σ} {bs : List β} :
    (forEach body l s).1 = some bs ↔ List.Forall₂ (fun a b => (body a s).1 = some b) l bs := by
  induction l generalizing bs with
  | nil =>
    rw [List.forall₂_nil_left_iff]
    exact Option.some_inj.trans eq_comm
  | cons a l ih =>
    rw [forEach_cons hkeeps, Option.bind_eq_some_iff, List.forall₂_cons_left_iff]
    refine exists_congr fun b => ?_
    rw [Option.map_eq_some_iff]
    constructor
    · rintro ⟨hb, bs, hbs, rfl⟩
      exact ⟨bs, hb, ih.mp hbs, rfl⟩
    · rintro ⟨bs, hb, hbs, rfl⟩
      exact ⟨hb, bs, ih.mpr hbs, rfl⟩

/-- A walk fails where some item does. -/
theorem forEach_none {l : List α} {s : σ} :
    (forEach body l s).1 = none ↔ ∃ a ∈ l, (body a s).1 = none := by
  induction l with
  | nil => exact iff_of_false (by simp [forEach]) fun ⟨_, hno, _⟩ => List.not_mem_nil hno
  | cons a l ih =>
    rw [forEach_cons hkeeps, List.exists_mem_cons_iff]
    cases hb : (body a s).1 with
    | none => exact iff_of_true rfl (Or.inl rfl)
    | some b => simp [ih]

end ForEach

/-- What a loop made was made of something. -/
theorem exists_of_made {made : α → β → Prop} {l : List α} {bs : List β} (h : List.Forall₂ made l bs)
    {b : β} (hb : b ∈ bs) : ∃ a ∈ l, made a b := by
  induction h with
  | nil => exact absurd hb List.not_mem_nil
  | cons hmade _ ih =>
    obtain rfl | hb := List.mem_cons.mp hb
    · exact ⟨_, List.mem_cons_self, hmade⟩
    · obtain ⟨a, ha, hmade⟩ := ih hb
      exact ⟨a, List.mem_cons_of_mem _ ha, hmade⟩

/-- Each of what a loop went through made something. -/
theorem exists_made_of {made : α → β → Prop} {l : List α} {bs : List β} (h : List.Forall₂ made l bs)
    {a : α} (ha : a ∈ l) : ∃ b ∈ bs, made a b :=
  exists_of_made h.flip ha

/-- Dropping what is missing from a list where nothing is. -/
theorem reduceOption_map_some (l : List α) (f : α → β) :
    (l.map fun a => some (f a)).reduceOption = l.map f := by
  induction l with
  | nil => rfl
  | cons a l ih => rw [List.map_cons, List.reduceOption_cons_of_some, ih, List.map_cons]

/-! ## Copies -/

section Copy

variable {isoString : ℤ → Str} {heap : Heap F} {fuel address : ℕ} {ancestors : Finset ℕ}
  {value : TaskValue F}

/-- Every exit restores the ancestors. -/
theorem snapshotTaskValue_ancestors (isoString : ℤ → Str) (heap : Heap F) (fuel : ℕ)
    (value : TaskValue F) (ancestors : Finset ℕ) :
    (snapshotTaskValue isoString heap fuel value ancestors).2 = ancestors := by
  induction fuel generalizing value ancestors with
  | zero => rfl
  | succ fuel ih =>
    unfold snapshotTaskValue
    split
    all_goals try rfl
    split
    all_goals try rfl
    · split
      · rfl
      · rename_i hfresh
        have hloop := @forEach_state _ _ _ (copyItem (snapshotTaskValue isoString heap fuel))
          fun item ancestors => ih (item.getD .undefined) ancestors
        simp only [hloop, Finset.erase_insert hfresh]
    · split
      · rfl
      · rename_i hfresh
        have hloop := @forEach_state _ _ _ (copyProperty (snapshotTaskValue isoString heap fuel))
          fun property ancestors => ih property.2 ancestors
        simp only [hloop, Finset.erase_insert hfresh]

/-- What a value is copied into under its ancestors. -/
abbrev copyOf (isoString : ℤ → Str) (heap : Heap F) (fuel : ℕ) (value : TaskValue F)
    (ancestors : Finset ℕ) : Option (Option (TaskData F)) :=
  (snapshotTaskValue isoString heap fuel value ancestors).1

/-- The turns of a copy's loops restore the ancestors. -/
theorem copyItem_state (item : Option (TaskValue F)) (ancestors : Finset ℕ) :
    (copyItem (snapshotTaskValue isoString heap fuel) item ancestors).2 = ancestors :=
  snapshotTaskValue_ancestors _ _ _ _ _

/-- Copying a property leaves the ancestors as they were. -/
theorem copyProperty_state (property : Str × TaskValue F) (ancestors : Finset ℕ) :
    (copyProperty (snapshotTaskValue isoString heap fuel) property ancestors).2 = ancestors :=
  snapshotTaskValue_ancestors _ _ _ _ _

/-- An array that is no ancestor of itself is copied item by item. -/
theorem copyOf_array {items : List (Option (TaskValue F))} (hget : heap.get address = .array items)
    (hfresh : address ∉ ancestors) : copyOf isoString heap (fuel + 1) (.ref address) ancestors =
      (forEach (copyItem (snapshotTaskValue isoString heap fuel)) items (insert address ancestors)).1.map
        fun items => some (.array items) := by
  show (snapshotTaskValue _ _ _ _ _).1 = _
  rw [snapshotTaskValue]
  simp only [hget, if_neg hfresh]

/-- An object that is no ancestor of itself is copied property by property, in the order of its
keys. -/
theorem copyOf_object {properties : Properties (TaskValue F)}
    (hget : heap.get address = .object properties) (hfresh : address ∉ ancestors) :
    copyOf isoString heap (fuel + 1) (.ref address) ancestors =
      (forEach (copyProperty (snapshotTaskValue isoString heap fuel)) (objectKeys properties.list)
        (insert address ancestors)).1.map
        fun entries => some (.object (defineProperties entries.reduceOption)) := by
  show (snapshotTaskValue _ _ _ _ _).1 = _
  rw [snapshotTaskValue]
  simp only [hget, if_neg hfresh]

/-- An object that is its own ancestor is refused. -/
theorem copyOf_cyclic (hmem : address ∈ ancestors)
    (hget : ∀ epochMs, heap.get address ≠ .date epochMs) :
    copyOf isoString heap fuel (.ref address) ancestors = none := by
  cases fuel with
  | zero => rfl
  | succ fuel =>
    show (snapshotTaskValue _ _ _ _ _).1 = _
    rw [snapshotTaskValue]
    cases hobject : heap.get address with
    | date epochMs => exact absurd hobject (hget epochMs)
    | foreign => rfl
    | array | object => simp only [if_pos hmem]

end Copy

/-! ## What is refused -/

/-- A part of a value that a copy reads, under the ancestors it is read under. -/
inductive Part (heap : Heap F) : Finset ℕ → TaskValue F → Finset ℕ → TaskValue F → Prop
  | self (ancestors : Finset ℕ) (value : TaskValue F) : Part heap ancestors value ancestors value
  | item {address : ℕ} {items : List (Option (TaskValue F))} {item : Option (TaskValue F)}
    {ancestors ancestors' : Finset ℕ} {part : TaskValue F} (hget : heap.get address = .array items)
    (hfresh : address ∉ ancestors) (hmem : item ∈ items)
    (hpart : Part heap (insert address ancestors) (item.getD .undefined) ancestors' part) :
    Part heap ancestors (.ref address) ancestors' part
  | property {address : ℕ} {properties : Properties (TaskValue F)} {property : Str × TaskValue F}
    {ancestors ancestors' : Finset ℕ} {part : TaskValue F}
    (hget : heap.get address = .object properties) (hfresh : address ∉ ancestors)
    (hmem : property ∈ properties.list)
    (hpart : Part heap (insert address ancestors) property.2 ancestors' part) :
    Part heap ancestors (.ref address) ancestors' part

/-- A value that is no JSON data: a function, a symbol, a bigint, an object of another prototype that
is no date, or an object under itself. -/
def Refused (heap : Heap F) (ancestors : Finset ℕ) : TaskValue F → Prop
  | .function | .symbol | .bigint => True
  | .ref address =>
    match heap.get address with
    | .foreign => True
    | .date _ => False
    | .array _ | .object _ => address ∈ ancestors
  | _ => False

section Refused

variable {isoString : ℤ → Str} {heap : Heap F} {fuel : ℕ} {ancestors ancestors' : Finset ℕ}
  {value part : TaskValue F}

/-- A value with a refused part has no copy. -/
theorem Part.refused (h : Part heap ancestors value ancestors' part)
    (hrefused : Refused heap ancestors' part) (fuel : ℕ) :
    copyOf isoString heap fuel value ancestors = none := by
  induction h generalizing fuel with
  | self ancestors value =>
    cases value with
    | undefined | null | bool | number | string => exact hrefused.elim
    | function | symbol | bigint => cases fuel <;> rfl
    | ref address =>
      cases hget : heap.get address with
      | foreign =>
        cases fuel with
        | zero => rfl
        | succ fuel =>
          show (snapshotTaskValue _ _ _ _ _).1 = _
          rw [snapshotTaskValue]
          simp only [hget]
      | date epochMs =>
        simp only [Refused, hget] at hrefused
      | array items =>
        simp only [Refused, hget] at hrefused
        exact copyOf_cyclic hrefused fun _ hdate => by cases hget.symm.trans hdate
      | object properties =>
        simp only [Refused, hget] at hrefused
        exact copyOf_cyclic hrefused fun _ hdate => by cases hget.symm.trans hdate
  | item hget hfresh hmem _ ih =>
    cases fuel with
    | zero => rfl
    | succ fuel =>
      rw [copyOf_array hget hfresh, Option.map_eq_none_iff, forEach_none copyItem_state]
      exact ⟨_, hmem, Option.map_eq_none_iff.mpr (ih hrefused fuel)⟩
  | property hget hfresh hmem _ ih =>
    cases fuel with
    | zero => rfl
    | succ fuel =>
      rw [copyOf_object hget hfresh, Option.map_eq_none_iff, forEach_none copyProperty_state]
      exact ⟨_, mem_objectKeys.mpr hmem, Option.map_eq_none_iff.mpr (ih hrefused fuel)⟩

/-- An address that holds an object is one of the heap's. -/
theorem Heap.lt_of_get {address : ℕ} (h : heap.get address ≠ .foreign) : address < heap.length := by
  by_contra hno
  refine h ?_
  unfold Heap.get
  rw [List.getD_eq_getElem?_getD, List.getElem?_eq_none (not_lt.mp hno), Option.getD_none]

/-- A value that has no copy, with fuel for every object there is, has a refused part. -/
theorem exists_refused (hnone : copyOf isoString heap fuel value ancestors = none)
    (hfuel : heap.length < fuel + ancestors.card) (hthere : ∀ a ∈ ancestors, a < heap.length) :
    ∃ ancestors' part, Part heap ancestors value ancestors' part ∧ Refused heap ancestors' part := by
  induction fuel generalizing value ancestors with
  | zero =>
    -- The ancestors are objects of the heap, so they are no more than there are.
    have hsub : ancestors ⊆ Finset.range heap.length := fun a ha => Finset.mem_range.mpr (hthere a ha)
    have hcard := Finset.card_le_card hsub
    rw [Finset.card_range] at hcard
    omega
  | succ fuel ih =>
    cases value with
    | undefined | null | bool | number | string =>
      have hsome : copyOf isoString heap (fuel + 1) _ ancestors = none := hnone
      cases hsome
    | function | symbol | bigint => exact ⟨ancestors, _, .self _ _, trivial⟩
    | ref address =>
      have hself : Refused heap ancestors (.ref address) →
          ∃ ancestors' part, Part heap ancestors (.ref address) ancestors' part ∧
            Refused heap ancestors' part := fun h => ⟨ancestors, _, .self _ _, h⟩
      have hdeeper : heap.get address ≠ .foreign → address ∉ ancestors →
          heap.length < fuel + (insert address ancestors).card ∧
            ∀ a ∈ insert address ancestors, a < heap.length := by
        intro hforeign hfresh
        rw [Finset.card_insert_of_notMem hfresh]
        refine ⟨by omega, fun a ha => ?_⟩
        obtain rfl | ha := Finset.mem_insert.mp ha
        · exact Heap.lt_of_get hforeign
        · exact hthere a ha
      cases hget : heap.get address with
      | foreign => exact hself (by simp only [Refused, hget])
      | date epochMs =>
        have hnone' : (snapshotTaskValue isoString heap (fuel + 1) (.ref address) ancestors).1 = none :=
          hnone
        rw [snapshotTaskValue] at hnone'
        simp only [hget] at hnone'
        cases epochMs <;> cases hnone'
      | array items =>
        by_cases hmem : address ∈ ancestors
        · exact hself (by simpa only [Refused, hget] using hmem)
        · rw [copyOf_array hget hmem, Option.map_eq_none_iff, forEach_none copyItem_state] at hnone
          obtain ⟨item, hitem, hnone⟩ := hnone
          obtain ⟨hfuel', hthere'⟩ := hdeeper (by simp [hget]) hmem
          obtain ⟨ancestors', part, hpart, hrefused⟩ :=
            ih (Option.map_eq_none_iff.mp hnone) hfuel' hthere'
          exact ⟨ancestors', part, .item hget hmem hitem hpart, hrefused⟩
      | object properties =>
        by_cases hmem : address ∈ ancestors
        · exact hself (by simpa only [Refused, hget] using hmem)
        · rw [copyOf_object hget hmem, Option.map_eq_none_iff, forEach_none copyProperty_state] at hnone
          obtain ⟨property, hproperty, hnone⟩ := hnone
          obtain ⟨hfuel', hthere'⟩ := hdeeper (by simp [hget]) hmem
          obtain ⟨ancestors', part, hpart, hrefused⟩ :=
            ih (Option.map_eq_none_iff.mp hnone) hfuel' hthere'
          exact ⟨ancestors', part, .property hget hmem (mem_objectKeys.mp hproperty) hpart, hrefused⟩

end Refused

/-! ## What a copy is -/

/-- Every object's keys are its own, in the order `Object.keys` has them. -/
inductive TaskData.Listed : TaskData F → Prop
  | null : Listed .null
  | bool (b : Bool) : Listed (.bool b)
  | number (x : TaskNumber F) : Listed (.number x)
  | string (s : Str) : Listed (.string s)
  | array {items : List (TaskData F)} (h : ∀ item ∈ items, Listed item) : Listed (.array items)
  | object {properties : List (Str × TaskData F)} (hkeys : InOrder properties)
    (hnodup : (properties.map Prod.fst).Nodup) (h : ∀ p ∈ properties, Listed p.2) :
    Listed (.object properties)

section Listed

variable {isoString : ℤ → Str} {heap : Heap F} {fuel : ℕ} {ancestors : Finset ℕ}
  {value : TaskValue F} {data : TaskData F}

/-- The entries of a copy are under keys of the object, in the object's order. -/
theorem copies_sublist {snapshot : Snapshot F} {properties : List (Str × TaskValue F)}
    {entries : List (Option (Str × TaskData F))}
    (h : List.Forall₂ (fun p e => (copyProperty snapshot p ancestors).1 = some e) properties entries) :
    (entries.reduceOption.map Prod.fst).Sublist (properties.map Prod.fst) := by
  induction h with
  | nil => exact List.Sublist.refl _
  | @cons p e properties entries he _ ih =>
    obtain ⟨copy, _, rfl⟩ := Option.map_eq_some_iff.mp he
    cases copy with
    | none => exact ih.cons _
    | some data => exact ih.cons_cons _

/-- Every copy is listed. -/
theorem copyOf_listed (h : copyOf isoString heap fuel value ancestors = some (some data)) :
    data.Listed := by
  induction fuel generalizing value ancestors data with
  | zero => cases h
  | succ fuel ih =>
    cases value with
    | undefined | function | symbol | bigint => cases h
    | null =>
      cases h
      exact .null
    | bool b =>
      cases h
      exact .bool b
    | number x =>
      cases h
      exact .number x
    | string s =>
      cases h
      exact .string s
    | ref address =>
      cases hget : heap.get address with
      | date epochMs =>
        have h' : (snapshotTaskValue isoString heap (fuel + 1) (.ref address) ancestors).1 =
          some (some data) := h
        rw [snapshotTaskValue] at h'
        simp only [hget] at h'
        cases epochMs with
        | none =>
          cases h'
          exact .null
        | some epochMs =>
          cases h'
          exact .string _
      | foreign =>
        have h' : (snapshotTaskValue isoString heap (fuel + 1) (.ref address) ancestors).1 =
          some (some data) := h
        rw [snapshotTaskValue] at h'
        simp only [hget] at h'
        cases h'
      | array items =>
        -- The induction is on the fuel: an array's items and an object's values are copied with one
        -- less.
        by_cases hmem : address ∈ ancestors
        · rw [copyOf_cyclic hmem fun _ hdate => by cases hget.symm.trans hdate] at h
          cases h
        · rw [copyOf_array hget hmem, Option.map_eq_some_iff] at h
          obtain ⟨copies, hcopies, hdata⟩ := h
          obtain rfl := Option.some.inj hdata
          refine .array fun copy hcopy => ?_
          obtain ⟨item, _, hitem⟩ := exists_of_made
            ((forEach_some copyItem_state).mp hcopies) hcopy
          obtain ⟨copy', hcopy', rfl⟩ := Option.map_eq_some_iff.mp hitem
          cases copy' with
          | none => exact .null
          | some copy' => exact ih hcopy'
      | object properties =>
        by_cases hmem : address ∈ ancestors
        · rw [copyOf_cyclic hmem fun _ hdate => by cases hget.symm.trans hdate] at h
          cases h
        · rw [copyOf_object hget hmem, Option.map_eq_some_iff] at h
          obtain ⟨entries, hentries, hdata⟩ := h
          obtain rfl := Option.some.inj hdata
          have hentries := (forEach_some copyProperty_state).mp hentries
          -- The copy keeps the keys in their order and drops the ones with no JSON value.
          have hsub := copies_sublist hentries
          have hnodup := hsub.nodup (objectKeys_nodup properties.nodup)
          rw [defineProperties_of_nodup hnodup]
          refine .object ((inOrder_objectKeys _).sublist hsub) hnodup fun p hp => ?_
          obtain ⟨property, _, hproperty⟩ := exists_of_made hentries
            (List.reduceOption_mem_iff.mp hp)
          obtain ⟨copy', hcopy', heq⟩ := Option.map_eq_some_iff.mp hproperty
          cases copy' with
          | none => cases heq
          | some copy' =>
            obtain rfl := Option.some.inj heq
            exact ih hcopy'

end Listed

/-! ## Reading the text back -/

mutual

/-- The data a parsed value is copied into. -/
def dataOf (number : Str → TaskNumber F) : Value → TaskData F
  | .null => .null
  | .bool b => .bool b
  | .number literal => .number (number literal)
  | .string s => .string s
  | .array items => .array (dataOfItems number items)
  | .object members => .object (objectKeys (defineProperties (dataOfMembers number members)))

def dataOfItems (number : Str → TaskNumber F) : List Value → List (TaskData F)
  | [] => []
  | item :: rest => dataOf number item :: dataOfItems number rest

def dataOfMembers (number : Str → TaskNumber F) : List (Str × Value) → List (Str × TaskData F)
  | [] => []
  | (key, member) :: rest => (key, dataOf number member) :: dataOfMembers number rest

end

section Allocate

variable {number : Str → TaskNumber F} {isoString : ℤ → Str}

/-- The value is copied into the data wherever the heap goes on, under ancestors that came after it. -/
def CopiesTo (isoString : ℤ → Str) (heap : Heap F) (size : ℕ) (value : TaskValue F)
    (data : TaskData F) : Prop :=
  ∀ (more : Heap F) (fuel : ℕ) (ancestors : Finset ℕ), size < fuel →
    (∀ a ∈ ancestors, heap.length ≤ a) →
    copyOf isoString (heap ++ more) fuel value ancestors = some (some data)

/-- A copy stands on a heap that grew, with as much room or more. -/
theorem CopiesTo.later {heap more : Heap F} {size size' : ℕ} {value : TaskValue F} {data : TaskData F}
    (h : CopiesTo isoString heap size value data) (hsize : size ≤ size') :
    CopiesTo isoString (heap ++ more) size' value data := by
  intro more' fuel ancestors hfuel hafter
  rw [List.append_assoc]
  refine h _ fuel ancestors (hsize.trans_lt hfuel) fun a ha => ?_
  have hle := hafter a ha
  rw [List.length_append] at hle
  omega

/-- An object put last is at the address the heap ended at. -/
theorem Heap.get_last (heap more : Heap F) (object : TaskObject F) :
    Heap.get (heap ++ [object] ++ more) heap.length = object := by
  unfold Heap.get
  rw [List.getD_eq_getElem?_getD, List.append_assoc, List.getElem?_append_right le_rfl]
  simp

/-- A copy stands with more room. -/
theorem CopiesTo.larger {heap : Heap F} {size size' : ℕ} {value : TaskValue F} {data : TaskData F}
    (h : CopiesTo isoString heap size value data) (hsize : size ≤ size') :
    CopiesTo isoString heap size' value data :=
  fun more fuel ancestors hfuel hafter => h more fuel ancestors (hsize.trans_lt hfuel) hafter

/-- A value of the copies' data, from one under the object's own address. -/
theorem CopiesTo.under {heap more : Heap F} {object : TaskObject F} {size fuel : ℕ}
    {value : TaskValue F} {data : TaskData F} {ancestors : Finset ℕ}
    (h : CopiesTo isoString heap size value data) (hfuel : size < fuel)
    (hafter : ∀ a ∈ ancestors, heap.length < a) :
    copyOf isoString (heap ++ [object] ++ more) fuel value (insert heap.length ancestors) =
      some (some data) := by
  rw [List.append_assoc]
  refine h _ fuel _ hfuel fun a ha => ?_
  obtain rfl | ha := Finset.mem_insert.mp ha
  · exact le_rfl
  · exact (hafter a ha).le

/-- An array after its items is copied into theirs. -/
theorem copiesTo_array {heap : Heap F} {size : ℕ} {values : List (TaskValue F)}
    {items : List (TaskData F)} (h : List.Forall₂ (CopiesTo isoString heap size) values items) :
    CopiesTo isoString (heap ++ [.array (values.map some)]) (size + 1) (.ref heap.length)
      (.array items) := by
  rintro more (_ | fuel) ancestors hfuel hafter
  · exact absurd hfuel (Nat.not_lt_zero _)
  have hafter' : ∀ a ∈ ancestors, heap.length < a := fun a ha => by
    have hle := hafter a ha
    rwa [List.length_append, List.length_singleton] at hle
  have hfresh : heap.length ∉ ancestors := fun hmem => absurd (hafter' _ hmem) (lt_irrefl _)
  rw [copyOf_array (Heap.get_last heap more _) hfresh, Option.map_eq_some_iff]
  refine ⟨items, (forEach_some copyItem_state).mpr ?_, rfl⟩
  rw [List.forall₂_map_left_iff]
  exact h.imp fun value data hcopies =>
    Option.map_eq_some_iff.mpr ⟨some data, hcopies.under (Nat.lt_of_succ_lt_succ hfuel) hafter', rfl⟩

/-- An object after its members is copied into theirs. -/
theorem copiesTo_object {heap : Heap F} {size : ℕ} {values : List (Str × TaskValue F)}
    {members : List (Str × TaskData F)}
    (h : List.Forall₂ (fun p q => p.1 = q.1 ∧ CopiesTo isoString heap size p.2 q.2) values members) :
    CopiesTo isoString (heap ++ [.object (.of values)]) (size + 1) (.ref heap.length)
      (.object (objectKeys (defineProperties members))) := by
  rintro more (_ | fuel) ancestors hfuel hafter
  · exact absurd hfuel (Nat.not_lt_zero _)
  have hafter' : ∀ a ∈ ancestors, heap.length < a := fun a ha => by
    have hle := hafter a ha
    rwa [List.length_append, List.length_singleton] at hle
  have hfresh : heap.length ∉ ancestors := fun hmem => absurd (hafter' _ hmem) (lt_irrefl _)
  -- The members are a map of the values, so they are defined and listed alike.
  let copied (p : Str × TaskValue F) : Str × TaskData F :=
    (p.1, ((copyOf isoString (heap ++ [.object (.of values)] ++ more) fuel p.2
      (insert heap.length ancestors)).join).getD .null)
  have hcopies : ∀ p q, p.1 = q.1 ∧ CopiesTo isoString heap size p.2 q.2 →
      copyOf isoString (heap ++ [.object (.of values)] ++ more) fuel p.2
        (insert heap.length ancestors) = some (some q.2) ∧ copied p = q := by
    rintro ⟨key, value⟩ ⟨key', data⟩ ⟨rfl, hcopies⟩
    have hcopy : copyOf isoString (heap ++ [.object (.of values)] ++ more) fuel value _ = _ :=
      hcopies.under (Nat.lt_of_succ_lt_succ hfuel) hafter'
    refine ⟨hcopy, ?_⟩
    show (key, ((copyOf isoString (heap ++ [.object (.of values)] ++ more) fuel value
      (insert heap.length ancestors)).join).getD .null) = (key, data)
    rw [hcopy]
    rfl
  have hmembers : values.map copied = members := by
    have hall := List.forall₂_map_left_iff.mpr (h.imp fun p q hpq => (hcopies p q hpq).2)
    rwa [List.forall₂_eq_eq_eq] at hall
  have hkey : ∀ p, (copied p).1 = p.1 := fun _ => rfl
  have hlist : (objectKeys (defineProperties values)).map copied =
      objectKeys (defineProperties members) := by
    rw [map_objectKeys hkey, map_defineProperties hkey, hmembers]
  rw [copyOf_object (Heap.get_last heap more _) hfresh, Option.map_eq_some_iff]
  refine ⟨(objectKeys (defineProperties values)).map fun p => some (copied p), ?_, ?_⟩
  · rw [forEach_some copyProperty_state, List.forall₂_map_right_iff]
    refine List.forall₂_same.mpr fun p hp => ?_
    have hmem : p ∈ values := mem_defineProperties (mem_objectKeys.mp hp)
    obtain ⟨q, _, hpq⟩ := exists_made_of h hmem
    obtain ⟨hcopy, rfl⟩ := hcopies p q hpq
    exact Option.map_eq_some_iff.mpr ⟨_, hcopy, rfl⟩
  · rw [reduceOption_map_some, hlist,
      defineProperties_of_nodup (objectKeys_nodup (defineProperties_nodup _))]

/-- A value that is no object is copied at once. -/
theorem copiesTo_scalar {heap : Heap F} {value : TaskValue F} {data : TaskData F}
    (h : ∀ heap fuel ancestors,
      copyOf isoString heap (fuel + 1) value ancestors = some (some data)) :
    CopiesTo isoString heap 0 value data := by
  rintro more (_ | fuel) ancestors hfuel _
  · exact absurd hfuel (lt_irrefl _)
  · exact h _ fuel ancestors

/-- An array is put after its items. -/
theorem allocate_array (items : List Value) (heap : Heap F) : allocate number (.array items) heap =
    (.ref (allocateItems number items heap).2.length,
      (allocateItems number items heap).2 ++
        [.array ((allocateItems number items heap).1.map some)]) := by
  rw [allocate]

/-- An object is put after its members. -/
theorem allocate_object (members : List (Str × Value)) (heap : Heap F) :
    allocate number (.object members) heap =
      (.ref (allocateMembers number members heap).2.length,
        (allocateMembers number members heap).2 ++
          [.object (.of (allocateMembers number members heap).1)]) := by
  rw [allocate]

/-- Items are put one after the other. -/
theorem allocateItems_cons (item : Value) (rest : List Value) (heap : Heap F) :
    allocateItems number (item :: rest) heap =
      ((allocate number item heap).1 ::
          (allocateItems number rest (allocate number item heap).2).1,
        (allocateItems number rest (allocate number item heap).2).2) := by
  rw [allocateItems]

/-- Members are put one after the other. -/
theorem allocateMembers_cons (key : Str) (member : Value) (rest : List (Str × Value))
    (heap : Heap F) : allocateMembers number ((key, member) :: rest) heap =
      ((key, (allocate number member heap).1) ::
          (allocateMembers number rest (allocate number member heap).2).1,
        (allocateMembers number rest (allocate number member heap).2).2) := by
  rw [allocateMembers]

mutual

/-- A parsed value is copied into its data, with fuel for the objects made of it. -/
theorem allocate_copies (number : Str → TaskNumber F) (isoString : ℤ → Str) (v : Value) (heap : Heap F) :
    ∃ more, (allocate number v heap).2 = heap ++ more ∧
      CopiesTo isoString (heap ++ more) more.length (allocate number v heap).1 (dataOf number v) := by
  cases v with
  | null => exact ⟨[], (List.append_nil _).symm, copiesTo_scalar fun _ _ _ => rfl⟩
  | bool b => exact ⟨[], (List.append_nil _).symm, copiesTo_scalar fun _ _ _ => rfl⟩
  | number literal => exact ⟨[], (List.append_nil _).symm, copiesTo_scalar fun _ _ _ => rfl⟩
  | string s => exact ⟨[], (List.append_nil _).symm, copiesTo_scalar fun _ _ _ => rfl⟩
  | array items =>
    obtain ⟨more, hheap, hcopies⟩ := allocateItems_copies number isoString items heap
    refine ⟨more ++ [.array ((allocateItems number items heap).1.map some)], ?_, ?_⟩
    · rw [allocate_array, hheap, List.append_assoc]
    · rw [allocate_array, hheap, dataOf, ← List.append_assoc, List.length_append, List.length_singleton]
      exact copiesTo_array hcopies
  | object members =>
    obtain ⟨more, hheap, hcopies⟩ := allocateMembers_copies number isoString members heap
    refine ⟨more ++ [.object (.of (allocateMembers number members heap).1)], ?_, ?_⟩
    · rw [allocate_object, hheap, List.append_assoc]
    · rw [allocate_object, hheap, dataOf, ← List.append_assoc, List.length_append, List.length_singleton]
      exact copiesTo_object hcopies

/-- The items put on a heap copy to the data of the texts they were read from. -/
theorem allocateItems_copies (number : Str → TaskNumber F) (isoString : ℤ → Str) (items : List Value)
    (heap : Heap F) : ∃ more, (allocateItems number items heap).2 = heap ++ more ∧
      List.Forall₂ (CopiesTo isoString (heap ++ more) more.length)
        (allocateItems number items heap).1 (dataOfItems number items) := by
  cases items with
  | nil => exact ⟨[], (List.append_nil _).symm, .nil⟩
  | cons item rest =>
    obtain ⟨more, hheap, hcopies⟩ := allocate_copies number isoString item heap
    obtain ⟨more', hheap', hcopies'⟩ := allocateItems_copies number isoString rest (heap ++ more)
    refine ⟨more ++ more', ?_, ?_⟩
    · rw [allocateItems_cons, hheap, hheap', List.append_assoc]
    · rw [allocateItems_cons, hheap, dataOfItems, ← List.append_assoc, List.length_append]
      exact .cons (hcopies.later (Nat.le_add_right _ _))
        (hcopies'.imp fun _ _ hcopies => hcopies.larger (Nat.le_add_left _ _))

/-- The members put on a heap copy to the data of the texts they were read from. -/
theorem allocateMembers_copies (number : Str → TaskNumber F) (isoString : ℤ → Str)
    (members : List (Str × Value)) (heap : Heap F) :
    ∃ more, (allocateMembers number members heap).2 = heap ++ more ∧
      List.Forall₂ (fun p q => p.1 = q.1 ∧ CopiesTo isoString (heap ++ more) more.length p.2 q.2)
        (allocateMembers number members heap).1 (dataOfMembers number members) := by
  match members with
  | [] => exact ⟨[], (List.append_nil _).symm, .nil⟩
  | (key, member) :: rest =>
    obtain ⟨more, hheap, hcopies⟩ := allocate_copies number isoString member heap
    obtain ⟨more', hheap', hcopies'⟩ := allocateMembers_copies number isoString rest (heap ++ more)
    refine ⟨more ++ more', ?_, ?_⟩
    · rw [allocateMembers_cons, hheap, hheap', List.append_assoc]
    · rw [allocateMembers_cons, hheap, dataOfMembers, ← List.append_assoc, List.length_append]
      exact .cons ⟨rfl, hcopies.later (Nat.le_add_right _ _)⟩
        (hcopies'.imp fun _ _ hcopies => ⟨hcopies.1, hcopies.2.larger (Nat.le_add_left _ _)⟩)

end

end Allocate

/-! ## One text -/

/-- What an engine writes for a finite number is a number's text, and is read back as that number;
zero is written `0`. -/
structure Engine.RoundTrips (engine : Engine F) : Prop where
  written : ∀ x, NumberText (engine.literal x)
  reread : ∀ x, engine.number (engine.literal x) = .finite x
  zero : engine.literal engine.zero = units "0"

/-- The JSON of items is each item's. -/
theorem jsonItems_eq (literal : F → Str) (items : List (TaskData F)) :
    TaskData.jsonItems literal items = items.map (TaskData.json literal) := by
  induction items with
  | nil => rfl
  | cons item rest ih => rw [TaskData.jsonItems, ih, List.map_cons]

/-- The JSON of members is each member's, under its key. -/
theorem jsonMembers_eq (literal : F → Str) (members : List (Str × TaskData F)) :
    TaskData.jsonMembers literal members = members.map fun p => (p.1, p.2.json literal) := by
  induction members with
  | nil => rfl
  | cons member rest ih => rw [TaskData.jsonMembers, ih, List.map_cons]

/-- The data of items is each item's. -/
theorem dataOfItems_eq (number : Str → TaskNumber F) (items : List Value) :
    dataOfItems number items = items.map (dataOf number) := by
  induction items with
  | nil => rfl
  | cons item rest ih => rw [dataOfItems, ih, List.map_cons]

/-- The data of members is each member's, under its key. -/
theorem dataOfMembers_eq (number : Str → TaskNumber F) (members : List (Str × Value)) :
    dataOfMembers number members = members.map fun p => (p.1, dataOf number p.2) := by
  induction members with
  | nil => rfl
  | cons member rest ih => rw [dataOfMembers, ih, List.map_cons]

section OneText

variable {engine : Engine F} (hengine : engine.RoundTrips)
include hengine

/-- Data is written with numbers' texts. -/
theorem TaskData.json_written {data : TaskData F} (h : data.Listed) :
    (data.json engine.literal).Written := by
  induction h with
  | null => exact .null
  | bool b => exact .bool b
  | number x =>
    cases x with
    | finite x => exact .number (hengine.written x)
    | negativeZero =>
      rw [TaskData.json, ← hengine.zero]
      exact .number (hengine.written engine.zero)
    | notFinite => exact .null
  | string s => exact .string s
  | array _ ih =>
    rw [TaskData.json, jsonItems_eq]
    refine .array fun item hitem => ?_
    obtain ⟨data, hdata, rfl⟩ := List.mem_map.mp hitem
    exact ih data hdata
  | object _ _ _ ih =>
    rw [TaskData.json, jsonMembers_eq]
    refine .object fun member hmember => ?_
    obtain ⟨p, hp, rfl⟩ := List.mem_map.mp (mem_objectKeys.mp hmember)
    exact ih p hp

/-- What is read of data's text is written alike. -/
theorem TaskData.json_reread {data : TaskData F} (h : data.Listed) :
    (dataOf engine.number (data.json engine.literal)).json engine.literal =
      data.json engine.literal := by
  induction h with
  | null | bool | string => rfl
  | number x =>
    cases x with
    | finite x => simp only [TaskData.json, dataOf, hengine.reread]
    | negativeZero =>
      rw [TaskData.json, ← hengine.zero, dataOf, hengine.reread, TaskData.json]
    | notFinite => rfl
  | @array items _ ih =>
    have hitems : (items.map (TaskData.json engine.literal)).map
        (fun v => (dataOf engine.number v).json engine.literal) =
        items.map (TaskData.json engine.literal) := by
      rw [List.map_map]
      exact List.map_congr_left ih
    simp only [TaskData.json, dataOf, jsonItems_eq, dataOfItems_eq]
    rw [List.map_map (g := TaskData.json engine.literal)]
    exact congrArg Value.array hitems
  -- The members are in the language's key order and of distinct keys, so rereading keeps their
  -- order.
  | @object members hkeys hnodup _ ih =>
    have hjson : objectKeys (TaskData.jsonMembers engine.literal members) =
        members.map fun p => (p.1, p.2.json engine.literal) := by
      rw [jsonMembers_eq]
      exact objectKeys_map_of_inOrder (TaskData.json engine.literal) hkeys
    have hdata : objectKeys (defineProperties (dataOfMembers engine.number
        (members.map fun p => (p.1, p.2.json engine.literal)))) =
        members.map fun p => (p.1, dataOf engine.number (p.2.json engine.literal)) := by
      rw [dataOfMembers_eq, List.map_map]
      have hdefined := defineProperties_map_of_nodup
        (fun data => dataOf engine.number (TaskData.json engine.literal data)) hnodup
      have hlisted := objectKeys_map_of_inOrder
        (fun data => dataOf engine.number (TaskData.json engine.literal data)) hkeys
      exact (congrArg objectKeys hdefined).trans hlisted
    have hagain : objectKeys (TaskData.jsonMembers engine.literal
        (members.map fun p => (p.1, dataOf engine.number (p.2.json engine.literal)))) =
        members.map fun p =>
          (p.1, (dataOf engine.number (p.2.json engine.literal)).json engine.literal) := by
      rw [jsonMembers_eq, List.map_map]
      exact objectKeys_map_of_inOrder (fun data => TaskData.json engine.literal
        (dataOf engine.number (TaskData.json engine.literal data))) hkeys
    rw [TaskData.json, hjson, dataOf, hdata, TaskData.json, hagain]
    exact congrArg Value.object (List.map_congr_left fun p hp => Prod.ext rfl (ih p hp))

end OneText

mutual

/-- The data with zero for the negative zero, from which `===` does not tell it. -/
def TaskData.unsigned (zero : F) : TaskData F → TaskData F
  | .number .negativeZero => .number (.finite zero)
  | .array items => .array (TaskData.unsignedItems zero items)
  | .object members => .object (TaskData.unsignedMembers zero members)
  | data => data

def TaskData.unsignedItems (zero : F) : List (TaskData F) → List (TaskData F)
  | [] => []
  | item :: rest => item.unsigned zero :: TaskData.unsignedItems zero rest

def TaskData.unsignedMembers (zero : F) : List (Str × TaskData F) → List (Str × TaskData F)
  | [] => []
  | (key, data) :: rest => (key, data.unsigned zero) :: TaskData.unsignedMembers zero rest

end

section Unsigned

variable {literal : F → Str} {zero : F}

mutual

/-- A zero is written alike with its sign and without. -/
theorem TaskData.unsigned_json (hzero : literal zero = units "0") (data : TaskData F) :
    (data.unsigned zero).json literal = data.json literal := by
  match data with
  | .null | .bool _ | .string _ | .number (.finite _) | .number .notFinite => rfl
  | .number .negativeZero => rw [TaskData.unsigned, TaskData.json, TaskData.json, hzero]
  | .array items =>
    rw [TaskData.unsigned, TaskData.json, TaskData.unsignedItems_json hzero items, TaskData.json]
  | .object members =>
    rw [TaskData.unsigned, TaskData.json, TaskData.unsignedMembers_json hzero members, TaskData.json]

/-- Items are written alike whether or not their zeros have a sign. -/
theorem TaskData.unsignedItems_json (hzero : literal zero = units "0") (items : List (TaskData F)) :
    TaskData.jsonItems literal (TaskData.unsignedItems zero items) =
      TaskData.jsonItems literal items := by
  match items with
  | [] => rfl
  | item :: rest =>
    rw [TaskData.unsignedItems, TaskData.jsonItems, TaskData.unsigned_json hzero item,
      TaskData.unsignedItems_json hzero rest, TaskData.jsonItems]

/-- Members are written alike whether or not their zeros have a sign. -/
theorem TaskData.unsignedMembers_json (hzero : literal zero = units "0")
    (members : List (Str × TaskData F)) :
    TaskData.jsonMembers literal (TaskData.unsignedMembers zero members) =
      TaskData.jsonMembers literal members := by
  match members with
  | [] => rfl
  | (key, data) :: rest =>
    rw [TaskData.unsignedMembers, TaskData.jsonMembers, TaskData.unsigned_json hzero data,
      TaskData.unsignedMembers_json hzero rest, TaskData.jsonMembers]

end

end Unsigned

/-! ## The serializer -/

section Serialize

variable {engine : Engine F} {heap : Heap F} {what : Str} {value : TaskValue F}

/-- What is copied of a root: null for undefined. -/
abbrev rootOf : TaskValue F → TaskValue F
  | .undefined => .null
  | value => value

/-- What is serialized at the root is never `undefined`. -/
theorem rootOf_ne_undefined (value : TaskValue F) : rootOf value ≠ .undefined := by
  cases value <;> rintro ⟨⟩

/-- Only undefined is copied into nothing. -/
theorem copyOf_ne_none {isoString : ℤ → Str} {fuel : ℕ} {ancestors : Finset ℕ}
    (h : value ≠ .undefined) : copyOf isoString heap fuel value ancestors ≠ some none := by
  intro hnone
  cases fuel with
  | zero => cases hnone
  | succ fuel =>
    cases value with
    | undefined => exact h rfl
    | null | bool | number | string | function | symbol | bigint => cases hnone
    | ref address =>
      have hnone' : (snapshotTaskValue isoString heap (fuel + 1) (.ref address) ancestors).1 =
        some none := hnone
      rw [snapshotTaskValue] at hnone'
      split at hnone'
      · cases hnone'
      · cases hnone'
      · cases hnone'
      · split at hnone'
        · cases hnone'
        · obtain ⟨_, _, hdata⟩ := Option.map_eq_some_iff.mp hnone'
          cases hdata
      · split at hnone'
        · cases hnone'
        · obtain ⟨_, _, hdata⟩ := Option.map_eq_some_iff.mp hnone'
          cases hdata

/-- What the serializer returns: the text of the root's copy. -/
theorem serializeTaskValue_eq : serializeTaskValue engine heap what value =
    match copyOf engine.isoString heap (heap.length + 1) (rootOf value) ∅ with
    | some (some data) => .ok (data.json engine.literal).text
    | _ => .error (what ++ units " is not a JSON value") := by
  cases value <;> rfl

/-- Serializing a value gives the JSON of its copy, and nothing where it has none. -/
theorem serializeTaskValue_ok {s : Str} : serializeTaskValue engine heap what value = .ok s ↔
    ∃ data, copyOf engine.isoString heap (heap.length + 1) (rootOf value) ∅ = some (some data) ∧
      (data.json engine.literal).text = s := by
  rw [serializeTaskValue_eq]
  cases copyOf engine.isoString heap (heap.length + 1) (rootOf value) ∅ with
  | none =>
    refine iff_of_false (fun h => by cases h) ?_
    rintro ⟨_, h, _⟩
    cases h
  | some copy =>
    cases copy with
    | none =>
      refine iff_of_false (fun h => by cases h) ?_
      rintro ⟨_, h, _⟩
      cases h
    | some data =>
      constructor
      · intro h
        exact ⟨data, rfl, Except.ok.inj h⟩
      · rintro ⟨_, ⟨⟩, rfl⟩
        rfl

/-- The serializer throws where the root has no copy. -/
theorem serializeTaskValue_error {message : Str} :
    serializeTaskValue engine heap what value = .error message ↔
      copyOf engine.isoString heap (heap.length + 1) (rootOf value) ∅ = none ∧
        message = what ++ units " is not a JSON value" := by
  rw [serializeTaskValue_eq]
  cases hcopy : copyOf engine.isoString heap (heap.length + 1) (rootOf value) ∅ with
  | none =>
    constructor
    · intro h
      exact ⟨rfl, (Except.error.inj h).symm⟩
    · rintro ⟨_, rfl⟩
      rfl
  | some copy =>
    cases copy with
    | none => exact absurd hcopy (copyOf_ne_none (rootOf_ne_undefined value))
    | some data =>
      refine iff_of_false (fun h => by cases h) ?_
      rintro ⟨h, _⟩
      cases h

/-- A root is refused as its value is. -/
theorem part_rootOf : (∃ ancestors part, Part heap ∅ (rootOf value) ancestors part ∧
      Refused heap ancestors part) ↔
    ∃ ancestors part, Part heap ∅ value ancestors part ∧ Refused heap ancestors part := by
  cases value with
  | undefined =>
    constructor
    · rintro ⟨_, _, ⟨⟩, hrefused⟩
      exact hrefused.elim
    · rintro ⟨_, _, ⟨⟩, hrefused⟩
      exact hrefused.elim
  | _ => exact Iff.rfl

/-- `userJsonValue` writes the data of the parsed value. -/
theorem userJsonValue_of_parse {json : Str} {v : Value} (h : parse json = some v) :
    userJsonValue engine what json = .ok ((dataOf engine.number v).json engine.literal).text := by
  obtain ⟨more, hheap, hcopies⟩ := allocate_copies engine.number engine.isoString v []
  rw [List.nil_append] at hheap hcopies
  have hcopy := hcopies [] (more.length + 1) ∅ (Nat.lt_succ_self _) fun _ hno =>
    absurd hno (Finset.notMem_empty _)
  rw [List.append_nil] at hcopy
  have hroot : rootOf (allocate engine.number v []).1 = (allocate engine.number v []).1 := by
    cases v <;> rfl
  unfold userJsonValue
  rw [h]
  show serializeTaskValue engine (allocate engine.number v []).2 what
    (allocate engine.number v []).1 = _
  rw [serializeTaskValue_ok, hheap, hroot]
  exact ⟨_, hcopy, rfl⟩

end Serialize

/-- Durable values have one spelling. -/
structure OneSpelling (engine : Engine F) : Prop where
  /-- A value is refused when a part of it that is read is no JSON data. -/
  refused : ∀ (heap : Heap F) (what : Str) (value : TaskValue F),
    (∃ message, serializeTaskValue engine heap what value = .error message) ↔
      ∃ ancestors part, Part heap ∅ value ancestors part ∧ Refused heap ancestors part
  message : ∀ (heap : Heap F) (what : Str) (value : TaskValue F) (message : Str),
    serializeTaskValue engine heap what value = .error message →
      message = what ++ units " is not a JSON value"
  /-- The text is parsed into what is written of the value's copy. -/
  copied : ∀ (heap : Heap F) (what : Str) (value : TaskValue F) (s : Str),
    serializeTaskValue engine heap what value = .ok s →
      ∃ data, copyOf engine.isoString heap (heap.length + 1) (rootOf value) ∅ = some (some data) ∧
        parse s = some (data.json engine.literal)
  /-- The text is parsed, and what it is parsed into is serialized as that text. -/
  reread : ∀ (heap : Heap F) (what what' : Str) (value : TaskValue F) (s : Str),
    serializeTaskValue engine heap what value = .ok s → ∃ v, parse s = some v ∧
      serializeTaskValue engine (allocate engine.number v []).2 what'
        (allocate engine.number v []).1 = .ok s
  idempotent : ∀ what what' json s : Str,
    userJsonValue engine what json = .ok s → userJsonValue engine what' s = .ok s
  /-- Texts that parse to the same value, with the same keys in the same order, become one text. -/
  same : ∀ (what what' json json' : Str) (v v' : Value),
    parse json = some v → parse json' = some v' →
    (dataOf engine.number v).unsigned engine.zero =
      (dataOf engine.number v').unsigned engine.zero →
    ∃ s, userJsonValue engine what json = .ok s ∧ userJsonValue engine what' json' = .ok s

section OneSpelling

variable {engine : Engine F} (hengine : engine.RoundTrips)
include hengine

/-- The text of a copy is read back as itself. -/
theorem userJsonValue_text {data : TaskData F} (h : data.Listed) (what : Str) :
    userJsonValue engine what (data.json engine.literal).text =
      .ok (data.json engine.literal).text := by
  rw [userJsonValue_of_parse (TaskData.json_written hengine h).parse_text,
    TaskData.json_reread hengine h]

end OneSpelling

/-- Every value is refused or written as one text, whatever it is read from. -/
theorem taskValues_one_spelling (engine : Engine F) (hengine : engine.RoundTrips) :
    OneSpelling engine := by
  -- What is written is the text of a copy with its keys listed, which is reread as itself.
  have hlisted : ∀ (heap : Heap F) (what : Str) (value : TaskValue F) (s : Str),
      serializeTaskValue engine heap what value = .ok s →
        ∃ data : TaskData F, data.Listed ∧ (data.json engine.literal).text = s := by
    intro heap what value s h
    obtain ⟨data, hcopy, htext⟩ := serializeTaskValue_ok.mp h
    exact ⟨data, copyOf_listed hcopy, htext⟩
  refine ⟨fun heap what value => ?_, ?_, ?_, ?_, ?_, ?_⟩
  · rw [← part_rootOf]
    constructor
    · rintro ⟨message, h⟩
      refine exists_refused (serializeTaskValue_error.mp h).1 ?_ fun a ha =>
        absurd ha (Finset.notMem_empty a)
      rw [Finset.card_empty]
      exact Nat.lt_succ_self _
    · rintro ⟨ancestors, part, hpart, hrefused⟩
      exact ⟨_, serializeTaskValue_error.mpr ⟨hpart.refused hrefused _, rfl⟩⟩
  · intro heap what value message h
    exact (serializeTaskValue_error.mp h).2
  · intro heap what value s h
    obtain ⟨data, hcopy, rfl⟩ := serializeTaskValue_ok.mp h
    exact ⟨data, hcopy, (TaskData.json_written hengine (copyOf_listed hcopy)).parse_text⟩
  · intro heap what what' value s h
    obtain ⟨data, hdata, rfl⟩ := hlisted heap what value s h
    have hparse := (TaskData.json_written hengine hdata).parse_text
    refine ⟨_, hparse, ?_⟩
    have hagain := userJsonValue_text hengine hdata what'
    unfold userJsonValue at hagain
    rwa [hparse] at hagain
  · intro what what' json s h
    unfold userJsonValue at h
    split at h
    · cases h
    · obtain ⟨data, hdata, rfl⟩ := hlisted _ _ _ _ h
      exact userJsonValue_text hengine hdata what'
  · intro what what' json json' v v' h h' hsame
    refine ⟨_, userJsonValue_of_parse h, ?_⟩
    rw [userJsonValue_of_parse h', ← TaskData.unsigned_json hengine.zero, ← hsame,
      TaskData.unsigned_json hengine.zero]

/-- An engine of natural numbers, in decimal. -/
def naturals : Engine ℕ where
  zero := 0
  literal := decimal
  number s := .finite (digitsValue 10 s)
  isoString _ := []

/-- Task values whose numbers are naturals have one spelling. -/
theorem naturals_one_spelling : OneSpelling naturals :=
  taskValues_one_spelling naturals {
    written := numberText_decimal
    reread := fun n => congrArg TaskNumber.finite (digitsValue_decimal n)
    zero := by decide +kernel }

end Durablerun
