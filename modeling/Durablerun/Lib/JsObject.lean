import Durablerun.Lib.JsString
import Mathlib.Data.List.Sort

/-!
# The properties of an object

An object's own properties are listed with the array indexes first, in their order, and then the other
keys as they were defined. A property that is defined again keeps its place.
-/

namespace Js

/-! ## Keys -/

/-- The key is an array index: digits as a number below the largest length has them. -/
def isArrayIndex (key : Str) : Bool :=
  decimal (digitsValue 10 key) = key ∧ digitsValue 10 key < 2 ^ 32 - 1

/-- No index after a name, and no higher index before a lower one. -/
def precedes (key key' : Str) : Prop :=
  if isArrayIndex key' then isArrayIndex key ∧ digitsValue 10 key ≤ digitsValue 10 key' else True
deriving Decidable

/-- `Object.keys`, with what each key holds: the array indexes in order, and then the others as they
were defined. -/
def objectKeys {α : Type} (properties : List (Str × α)) : List (Str × α) :=
  (properties.filter fun p => isArrayIndex p.1).insertionSort
      (fun p q => digitsValue 10 p.1 ≤ digitsValue 10 q.1) ++
    properties.filter fun p => ¬ isArrayIndex p.1

/-- `defineProperty`: a property that is there keeps its place. -/
def defineProperty {α : Type} (properties : List (Str × α)) (key : Str) (value : α) :
    List (Str × α) :=
  if key ∈ properties.map Prod.fst then
    properties.map fun p => if p.1 = key then (key, value) else p
  else properties ++ [(key, value)]

/-- Properties defined one after the other. -/
def defineProperties {α : Type} (entries : List (Str × α)) : List (Str × α) :=
  entries.foldl (fun properties entry => defineProperty properties entry.1 entry.2) []

/-- Defining a property leaves every key there once. -/
theorem defineProperty_nodup {α : Type} {properties : List (Str × α)} {key : Str} {value : α}
    (h : (properties.map Prod.fst).Nodup) :
    ((defineProperty properties key value).map Prod.fst).Nodup := by
  unfold defineProperty
  split
  · have hkeys : (properties.map fun p => if p.1 = key then (key, value) else p).map Prod.fst =
        properties.map Prod.fst := by
      rw [List.map_map]
      refine List.map_congr_left fun p _ => ?_
      simp only [Function.comp_apply]
      split
      · rename_i heq
        exact heq.symm
      · rfl
    rwa [hkeys]
  · rename_i hno
    rw [List.map_append, List.map_singleton]
    exact h.append (List.nodup_singleton _) (List.disjoint_singleton.mpr hno)

/-- Defining properties one after the other leaves every key there once. -/
theorem defineProperties_nodup {α : Type} (entries : List (Str × α)) :
    ((defineProperties entries).map Prod.fst).Nodup := by
  have hfold : ∀ (entries properties : List (Str × α)), (properties.map Prod.fst).Nodup →
      ((entries.foldl (fun properties entry => defineProperty properties entry.1 entry.2)
        properties).map Prod.fst).Nodup := by
    intro entries
    induction entries with
    | nil => exact fun _ h => h
    | cons entry entries ih => exact fun _ h => ih _ (defineProperty_nodup h)
  exact hfold entries [] List.nodup_nil

/-- An object's own properties, in the order they were defined. -/
structure Properties (α : Type) where
  list : List (Str × α)
  nodup : (list.map Prod.fst).Nodup

def Properties.of {α : Type} (entries : List (Str × α)) : Properties α :=
  ⟨defineProperties entries, defineProperties_nodup entries⟩

/-! ## What is defined and listed -/

section Keys

variable {α β : Type} {properties : List (Str × α)}

/-- The keys are in the order `Object.keys` has them. -/
def InOrder (properties : List (Str × α)) : Prop :=
  (properties.map Prod.fst).Pairwise precedes

/-- Nothing comes after a key that is no array index but another such key. -/
theorem precedes_name {key key' : Str} (h : isArrayIndex key' = false) : precedes key key' := by
  unfold precedes
  rw [h]
  trivial

/-- What comes before an array index is an index that is no greater. -/
theorem precedes_index {key key' : Str} (h' : isArrayIndex key' = true) :
    precedes key key' ↔ isArrayIndex key = true ∧ digitsValue 10 key ≤ digitsValue 10 key' := by
  unfold precedes
  rw [if_pos h']

/-- The properties in their order are the properties. -/
theorem mem_objectKeys {property : Str × α} :
    property ∈ objectKeys properties ↔ property ∈ properties := by
  unfold objectKeys
  rw [List.mem_append, List.mem_insertionSort, List.mem_filter, List.mem_filter, ← and_or_left]
  simp

/-- Keys that are in order are in the order of `Object.keys`. -/
theorem objectKeys_of_inOrder (h : InOrder properties) : objectKeys properties = properties := by
  have hsorted : (properties.filter fun p => isArrayIndex p.1).Pairwise
      fun p q => digitsValue 10 p.1 ≤ digitsValue 10 q.1 := by
    refine (List.pairwise_filter.mpr ?_ :
      (properties.filter fun p => isArrayIndex p.1).Pairwise _)
    refine (List.pairwise_map.mp h).imp fun hlt _ hindex => ?_
    exact ((precedes_index hindex).mp hlt).2
  unfold objectKeys
  rw [hsorted.insertionSort_eq]
  clear hsorted
  induction properties with
  | nil => rfl
  | cons p properties ih =>
    obtain ⟨hp, htail⟩ := List.pairwise_cons.mp h
    cases hindex : isArrayIndex p.1 with
    | true =>
      simp only [List.filter_cons, hindex, decide_not, Bool.decide_eq_true, Bool.not_true,
        Bool.false_eq_true, if_true, if_false, List.cons_append]
      have hrest := ih htail
      simp only [decide_not, Bool.decide_eq_true] at hrest
      rw [hrest]
    | false =>
      -- After a name comes no index.
      have hnone : ∀ q ∈ properties, isArrayIndex q.1 = false := by
        intro q hq
        by_contra hyes
        have hlt := (precedes_index (Bool.eq_true_of_not_eq_false hyes)).mp
          (hp q.1 (List.mem_map_of_mem hq))
        exact Bool.false_ne_true (hindex.symm.trans hlt.1)
      have hfilter : (p :: properties).filter (fun p => isArrayIndex p.1) = [] := by
        refine List.filter_eq_nil_iff.mpr fun q hq => ?_
        obtain rfl | hq := List.mem_cons.mp hq
        · simp [hindex]
        · simp [hnone q hq]
      rw [hfilter, List.nil_append]
      refine List.filter_eq_self.mpr fun q hq => ?_
      obtain rfl | hq := List.mem_cons.mp hq
      · simp [hindex]
      · simp [hnone q hq]

/-- `Object.keys` is in order. -/
theorem inOrder_objectKeys (properties : List (Str × α)) : InOrder (objectKeys properties) := by
  unfold InOrder objectKeys
  rw [List.pairwise_map, List.pairwise_append]
  refine ⟨?_, ?_, ?_⟩
  · have hsorted := List.pairwise_insertionSort
      (fun p q : Str × α => digitsValue 10 p.1 ≤ digitsValue 10 q.1)
      (properties.filter fun p => isArrayIndex p.1)
    refine hsorted.imp_of_mem fun {p q} hp hq hle => ?_
    rw [List.mem_insertionSort, List.mem_filter] at hp hq
    exact (precedes_index hq.2).mpr ⟨hp.2, hle⟩
  · refine List.Pairwise.imp_of_mem (fun {p q} _ hq _ => ?_)
      (List.pairwise_of_forall (R := fun _ _ => True) fun _ _ => trivial)
    rw [List.mem_filter] at hq
    exact precedes_name (by simpa using hq.2)
  · intro p _ q hq
    rw [List.mem_filter] at hq
    exact precedes_name (by simpa using hq.2)

/-- The order of an object's keys is a permutation of its properties. -/
theorem objectKeys_perm (properties : List (Str × α)) : (objectKeys properties).Perm properties := by
  unfold objectKeys
  refine ((List.perm_insertionSort _ _).append_right _).trans ?_
  have hsplit := List.filter_append_perm (fun p : Str × α => isArrayIndex p.1) properties
  simpa using hsplit

/-- In their order too, the keys are there once. -/
theorem objectKeys_nodup (h : (properties.map Prod.fst).Nodup) :
    ((objectKeys properties).map Prod.fst).Nodup :=
  ((objectKeys_perm properties).map Prod.fst).nodup_iff.mpr h

/-- Properties of keys of their own are defined as they stand. -/
theorem defineProperties_of_nodup (h : (properties.map Prod.fst).Nodup) :
    defineProperties properties = properties := by
  have hfold : ∀ entries properties : List (Str × α), ((properties ++ entries).map Prod.fst).Nodup →
      entries.foldl (fun properties entry => defineProperty properties entry.1 entry.2) properties =
        properties ++ entries := by
    intro entries
    induction entries with
    | nil => exact fun properties _ => (List.append_nil properties).symm
    | cons entry entries ih =>
      intro properties h
      have hno : entry.1 ∉ properties.map Prod.fst := by
        rw [List.map_append, List.map_cons] at h
        exact fun hmem => (List.disjoint_of_nodup_append h) hmem List.mem_cons_self
      rw [List.foldl_cons, defineProperty, if_neg hno]
      have hassoc : properties ++ [(entry.1, entry.2)] ++ entries = properties ++ entry :: entries := by
        simp
      rw [ih _ (hassoc ▸ h), hassoc]
  exact hfold properties [] h

section Map

variable {g : Str × α → Str × β} (hkey : ∀ p, (g p).1 = p.1)
include hkey

/-- The order of the keys does not depend on the values. -/
theorem map_objectKeys : (objectKeys properties).map g = objectKeys (properties.map g) := by
  have hsort : ∀ l : List (Str × α),
      (l.insertionSort fun p q => digitsValue 10 p.1 ≤ digitsValue 10 q.1).map g =
        (l.map g).insertionSort fun p q => digitsValue 10 p.1 ≤ digitsValue 10 q.1 :=
    fun l => List.map_insertionSort _ _ g l fun p _ q _ => by rw [hkey, hkey]
  unfold objectKeys
  rw [List.map_append, hsort, List.filter_map, List.filter_map]
  simp only [Function.comp_def, hkey]

/-- Defining a property commutes with a map of the values. -/
theorem map_defineProperty {key : Str} {value : α} :
    (defineProperty properties key value).map g =
      defineProperty (properties.map g) key (g (key, value)).2 := by
  have hg : g (key, value) = (key, (g (key, value)).2) := Prod.ext (hkey _) rfl
  have hkeys : (properties.map g).map Prod.fst = properties.map Prod.fst := by
    rw [List.map_map]
    exact List.map_congr_left fun p _ => hkey p
  unfold defineProperty
  rw [hkeys]
  split
  · rw [List.map_map, List.map_map]
    refine List.map_congr_left fun p _ => ?_
    simp only [Function.comp_apply, hkey]
    split
    · exact hg
    · rfl
  · rw [List.map_append, List.map_singleton, ← hg]

/-- Defining properties commutes with a map of the values. -/
theorem map_defineProperties :
    (defineProperties properties).map g = defineProperties (properties.map g) := by
  have hfold : ∀ entries properties : List (Str × α),
      (entries.foldl (fun properties entry => defineProperty properties entry.1 entry.2)
        properties).map g =
      (entries.map g).foldl (fun properties entry => defineProperty properties entry.1 entry.2)
        (properties.map g) := by
    intro entries
    induction entries with
    | nil => exact fun _ => rfl
    | cons entry entries ih =>
      intro properties
      rw [List.foldl_cons, ih, map_defineProperty hkey, List.map_cons, List.foldl_cons, hkey]
  exact hfold properties []

end Map

/-- Values made of others under the same keys are listed as those are. -/
theorem objectKeys_map_of_inOrder (f : α → β) (h : InOrder properties) :
    objectKeys (properties.map fun p => (p.1, f p.2)) = properties.map fun p => (p.1, f p.2) := by
  have hmap : (objectKeys properties).map (fun p => (p.1, f p.2)) = _ := map_objectKeys fun _ => rfl
  rw [← hmap, objectKeys_of_inOrder h]

/-- Values made of others under different keys are defined one by one. -/
theorem defineProperties_map_of_nodup (f : α → β) (h : (properties.map Prod.fst).Nodup) :
    defineProperties (properties.map fun p => (p.1, f p.2)) =
      properties.map fun p => (p.1, f p.2) := by
  have hmap : (defineProperties properties).map (fun p => (p.1, f p.2)) = _ :=
    map_defineProperties fun _ => rfl
  rw [← hmap, defineProperties_of_nodup h]

/-- A property of the object is one that was defined. -/
theorem mem_defineProperties {p : Str × α} (h : p ∈ defineProperties properties) : p ∈ properties := by
  have hfold : ∀ entries properties : List (Str × α), ∀ p ∈ entries.foldl
      (fun properties entry => defineProperty properties entry.1 entry.2) properties,
      p ∈ properties ∨ p ∈ entries := by
    intro entries
    induction entries with
    | nil => exact fun _ p hp => Or.inl hp
    | cons entry entries ih =>
      intro properties p hp
      obtain hp | hp := ih _ p hp
      · simp only [defineProperty] at hp
        split at hp
        · obtain ⟨q, hq, rfl⟩ := List.mem_map.mp hp
          split
          · exact Or.inr List.mem_cons_self
          · exact Or.inl hq
        · obtain hp | hp := List.mem_append.mp hp
          · exact Or.inl hp
          · exact Or.inr (List.mem_singleton.mp hp ▸ List.mem_cons_self)
      · exact Or.inr (List.mem_cons_of_mem _ hp)
  exact (hfold properties [] p h).resolve_left List.not_mem_nil

end Keys

end Js
