import Mathlib.Data.List.Flatten
import Mathlib.Data.List.Nodup
import Mathlib.Data.List.Pairwise

/-!
# Tables with unique keys

A table is a list of rows together with the proof that no unique key is held twice. `keys` lists
every unique key a row occupies, so a primary key and any further unique index are one notion, and
an index that leaves rows out (a partial index) is a shorter list of keys for those rows.

The operations are the statements of a relational store: `update`, `delete`, a plain `insert?` that
is refused on a conflict, an `insertIgnore` that loses on one, and an `upsert`. Each is described by
the rows it leaves (`mem_update`, `mem_delete`, ...), so that a caller never unfolds one.
-/

namespace Relational

/-- A table: its rows, no two of which hold a common unique key. -/
structure Table (α : Type) {κ : Type} (keys : α → List κ) where
  rows : List α
  unique : (rows.flatMap keys).Nodup

namespace Table

variable {α κ : Type} {keys : α → List κ}

instance : Membership α (Table α keys) := ⟨fun T a => a ∈ T.rows⟩

/-- A row is in a table where it is among its rows. -/
theorem mem_def {T : Table α keys} {a : α} : a ∈ T ↔ a ∈ T.rows := Iff.rfl

instance decidableExists (T : Table α keys) (p : α → Prop) [DecidablePred p] :
    Decidable (∃ a ∈ T, p a) :=
  inferInstanceAs (Decidable (∃ a ∈ T.rows, p a))

instance decidableForall (T : Table α keys) (p : α → Prop) [DecidablePred p] :
    Decidable (∀ a ∈ T, p a) :=
  inferInstanceAs (Decidable (∀ a ∈ T.rows, p a))

/-- The table with no rows. -/
def empty : Table α keys := ⟨[], List.nodup_nil⟩

/-- The one row that satisfies a predicate is the one a search finds. -/
theorem find?_eq_some_of_unique {T : Table α keys} {p : α → Bool} {x : α} (hx : x ∈ T) (hp : p x)
    (hunique : ∀ y ∈ T, p y → y = x) : T.rows.find? p = some x := by
  cases hfind : T.rows.find? p with
  | none => exact absurd hp (List.find?_eq_none.mp hfind x hx)
  | some y => rw [hunique y (List.mem_of_find?_eq_some hfind) (List.find?_some hfind)]

/-- The empty table has no row. -/
@[simp] theorem not_mem_empty (a : α) : a ∉ (empty : Table α keys) := List.not_mem_nil

/-! ## Unique keys -/

/-- Two rows of a table that hold one unique key are one row. -/
theorem eq_of_key {T : Table α keys} {a b : α} {k : κ} (ha : a ∈ T) (hb : b ∈ T)
    (hka : k ∈ keys a) (hkb : k ∈ keys b) : a = b := by
  by_contra hne
  have hpair := (List.nodup_flatMap.mp T.unique).2
  have : Std.Symm (Function.onFun List.Disjoint keys) := ⟨fun _ _ h _ ha hb => h hb ha⟩
  exact hpair.forall ha hb hne hka hkb

/-- The unique keys a table holds. -/
def heldKeys (T : Table α keys) : List κ := T.rows.flatMap keys

/-- A key is held where a row of the table has it. -/
theorem mem_heldKeys {T : Table α keys} {k : κ} : k ∈ T.heldKeys ↔ ∃ a ∈ T, k ∈ keys a :=
  List.mem_flatMap

/-- Where every row has a key, no row is there twice. -/
theorem nodup_rows (T : Table α keys) (hkeys : ∀ a, keys a ≠ []) : T.rows.Nodup := by
  refine (List.nodup_flatMap.mp T.unique).2.imp fun {a b} hdisjoint hab => ?_
  obtain ⟨k, hk⟩ := List.exists_mem_of_ne_nil _ (hkeys a)
  exact hdisjoint hk (hab ▸ hk)

/-- The one row that satisfies a predicate, as the rows that do. -/
theorem filter_eq_singleton {T : Table α keys} (hkeys : ∀ a, keys a ≠ []) {p : α → Prop}
    [DecidablePred p] {a : α} (ha : a ∈ T) (hp : p a) (hone : ∀ b ∈ T, p b → b = a) :
    T.rows.filter p = [a] := by
  refine List.Perm.eq_singleton ((List.perm_ext_iff_of_nodup ((T.nodup_rows hkeys).filter _)
    (List.nodup_singleton a)).mpr fun b => ?_)
  rw [List.mem_filter, decide_eq_true_eq, List.mem_singleton]
  constructor
  · rintro ⟨hb, hpb⟩
    exact hone b hb hpb
  · rintro rfl
    exact ⟨ha, hp⟩

/-! ## Updates and deletes -/

/-- A change of a row that leaves its unique keys alone. -/
structure Change {α κ : Type} (keys : α → List κ) where
  apply : α → α
  keys_apply : ∀ a, keys (apply a) = keys a

instance : CoeFun (Change keys) fun _ => α → α := ⟨Change.apply⟩

/-- The keys of a row whose keyed columns a change leaves, under one name in every table. -/
theorem same_keys (keys : α → List κ) (a : α) : keys a = keys a := rfl

/-- `UPDATE … SET f WHERE p`. -/
def update (T : Table α keys) (p : α → Prop) [DecidablePred p] (f : Change keys) :
    Table α keys where
  rows := T.rows.map fun a => if p a then f a else a
  unique := by
    have hkeys : (T.rows.map fun a => if p a then f a else a).flatMap keys = T.rows.flatMap keys := by
      rw [List.flatMap_map]
      congr 1
      funext a
      by_cases h : p a
      · rw [if_pos h, f.keys_apply]
      · rw [if_neg h]
    rw [hkeys]
    exact T.unique

variable {T : Table α keys} {p : α → Prop} [DecidablePred p] {f : Change keys}

/-- The rows an update leaves: the image of each row. -/
theorem mem_update {b : α} :
    b ∈ T.update p f ↔ ∃ a ∈ T, (if p a then f a else a) = b :=
  List.mem_map

/-- A row an update selects is there after it as the update makes it. -/
theorem mem_update_of_pos {a : α} (ha : a ∈ T) (hp : p a) : f a ∈ T.update p f :=
  mem_update.mpr ⟨a, ha, if_pos hp⟩

/-- A row an update does not select is there after it unchanged. -/
theorem mem_update_of_neg {a : α} (ha : a ∈ T) (hp : ¬ p a) : a ∈ T.update p f :=
  mem_update.mpr ⟨a, ha, if_neg hp⟩

/-- A row after an update was selected and changed, or was there before. -/
theorem update_cases {b : α} (hb : b ∈ T.update p f) :
    (∃ a ∈ T, p a ∧ b = f a) ∨ (b ∈ T ∧ ¬ p b) := by
  obtain ⟨a, ha, rfl⟩ := mem_update.mp hb
  by_cases hp : p a
  · rw [if_pos hp]
    exact Or.inl ⟨a, ha, hp, rfl⟩
  · rw [if_neg hp]
    exact Or.inr ⟨ha, hp⟩

/-- What holds of every row, and of what an update makes of the rows it selects, holds after it. -/
theorem forall_update {P : α → Prop} (h : ∀ a ∈ T, P a) (hf : ∀ a ∈ T, p a → P a → P (f a)) :
    ∀ b ∈ T.update p f, P b := by
  intro b hb
  obtain ⟨a, ha, hp, rfl⟩ | ⟨hb, _⟩ := update_cases hb
  · exact hf a ha hp (h a ha)
  · exact h b hb

/-- An update that selects no row changes nothing. -/
theorem update_of_forall_not (h : ∀ a ∈ T, ¬ p a) : T.update p f = T := by
  cases T with
  | mk rows unique =>
    have hmap : (rows.map fun a => if p a then f a else a) = rows.map id :=
      List.map_congr_left fun a ha => if_neg (h a ha)
    simp only [update, hmap, List.map_id]

/-- An update that leaves each row it selects as it is changes nothing. -/
theorem update_of_fixed (h : ∀ a ∈ T, p a → f a = a) : T.update p f = T := by
  cases T with
  | mk rows unique =>
    have hmap : (rows.map fun a => if p a then f a else a) = rows.map id :=
      List.map_congr_left fun a ha => ite_eq_right_iff.mpr (h a ha)
    simp only [update, hmap, List.map_id]

/-- `DELETE … WHERE p`. -/
def delete (T : Table α keys) (p : α → Prop) [DecidablePred p] : Table α keys where
  rows := T.rows.filter fun a => ¬ p a
  unique := List.Nodup.sublist (List.filter_sublist.flatMap keys) T.unique

/-- What a deletion leaves is every row it does not name. -/
theorem mem_delete {a : α} : a ∈ T.delete p ↔ a ∈ T ∧ ¬ p a := by
  simp only [mem_def, delete, List.mem_filter, decide_eq_true_eq]

/-- A delete that selects no row changes nothing. -/
theorem delete_of_forall_not (h : ∀ a ∈ T, ¬ p a) : T.delete p = T := by
  cases T with
  | mk rows unique =>
    simp only [delete, mk.injEq, List.filter_eq_self, decide_eq_true_eq]
    exact h

/-- Two conditions that agree on the rows delete the same ones. -/
theorem delete_congr {q : α → Prop} [DecidablePred q] (h : ∀ a ∈ T, (p a ↔ q a)) :
    T.delete p = T.delete q := by
  cases T with
  | mk rows unique =>
    have hrows : (rows.filter fun a => ¬ p a) = rows.filter fun a => ¬ q a :=
      List.filter_congr fun a ha => decide_eq_decide.mpr (not_congr (h a ha))
    simp only [delete, hrows]

/-- A delete of every row an update changed undoes it. -/
theorem delete_update {q q' : α → Prop} [DecidablePred q] [DecidablePred q']
    (hpos : ∀ a ∈ T, p a → q a ∧ q' (f a)) (hneg : ∀ a ∈ T, ¬ p a → (q' a ↔ q a)) :
    (T.update p f).delete q' = T.delete q := by
  cases T with
  | mk rows unique =>
    have hrows : ((rows.map fun a => if p a then f a else a).filter fun a => ¬ q' a) =
        rows.filter fun a => ¬ q a := by
      induction rows with
      | nil => rfl
      | cons a rows ih =>
        have ih := ih (List.Nodup.sublist ((List.sublist_cons_self a rows).flatMap keys) unique)
          (fun b hb => hpos b (List.mem_cons_of_mem a hb))
          fun b hb => hneg b (List.mem_cons_of_mem a hb)
        rw [List.map_cons, List.filter_cons, List.filter_cons, ih]
        by_cases hp : p a
        · obtain ⟨hq, hq'⟩ := hpos a List.mem_cons_self hp
          simp [hp, hq, hq']
        · simp [hp, hneg a List.mem_cons_self hp]
    simp only [delete, update, hrows]

/-- `COUNT(*)` of the rows that satisfy `p`, and how many a delete of them removes. -/
def count (T : Table α keys) (p : α → Prop) [DecidablePred p] : ℕ := (T.rows.filter fun a => p a).length

/-- Two conditions that agree on the rows count alike. -/
theorem count_congr {q : α → Prop} [DecidablePred q] (h : ∀ a ∈ T, (p a ↔ q a)) :
    T.count p = T.count q :=
  congrArg List.length (List.filter_congr fun a ha => decide_eq_decide.mpr (h a ha))

/-- A condition no row meets counts none. -/
theorem count_eq_zero (h : ∀ a ∈ T, ¬ p a) : T.count p = 0 := by
  rw [count, List.length_eq_zero_iff, List.filter_eq_nil_iff]
  exact fun a ha hp => h a ha (of_decide_eq_true hp)

/-- No row meets a condition that counts none. -/
theorem not_of_count_eq_zero (h : T.count p = 0) {a : α} (ha : a ∈ T) : ¬ p a := by
  rw [count, List.length_eq_zero_iff, List.filter_eq_nil_iff] at h
  exact fun hp => h a ha (decide_eq_true hp)

/-- An update carries the count of one condition to the count of another. -/
theorem count_update {q q' : α → Prop} [DecidablePred q] [DecidablePred q']
    (hpos : ∀ a ∈ T, p a → (q' (f a) ↔ q a)) (hneg : ∀ a ∈ T, ¬ p a → (q' a ↔ q a)) :
    (T.update p f).count q' = T.count q := by
  rw [count, count, update, List.filter_map, List.length_map]
  refine congrArg List.length (List.filter_congr fun a ha => ?_)
  by_cases hp : p a
  · simp [hp, hpos a ha hp]
  · simp [hp, hneg a ha hp]

/-! ## Inserts -/

variable [DecidableEq κ]

/-- The row holds its own keys once each, and no row of the table holds one of them. -/
def Free (T : Table α keys) (a : α) : Prop := (keys a).Nodup ∧ ∀ k ∈ keys a, k ∉ T.heldKeys

instance (T : Table α keys) (a : α) : Decidable (T.Free a) :=
  inferInstanceAs (Decidable (_ ∧ _))

omit [DecidableEq κ] in
/-- A row whose keys are free leaves every key held once. -/
private theorem nodup_append_row (T : Table α keys) {a : α} (h : T.Free a) :
    ((T.rows ++ [a]).flatMap keys).Nodup := by
  rw [List.flatMap_append, List.flatMap_singleton, List.nodup_append']
  exact ⟨T.unique, h.1, fun k hk hka => h.2 k hka hk⟩

/-- The table with one more row, whose keys are free. -/
def push (T : Table α keys) (a : α) (h : T.Free a) : Table α keys :=
  ⟨T.rows ++ [a], nodup_append_row T h⟩

omit [DecidableEq κ] in
/-- A row that was put in is there with those before. -/
theorem mem_push {a b : α} (h : T.Free a) : b ∈ T.push a h ↔ b ∈ T ∨ b = a := by
  simp only [mem_def, push, List.mem_append, List.mem_singleton]

/-- `INSERT`: refused, as a constraint violation, when a unique key is taken. -/
def insert? (T : Table α keys) (a : α) : Option (Table α keys) :=
  if h : T.Free a then some (T.push a h) else none

/-- An insert that went through: the keys were free, and the row is the one row added. -/
theorem insert?_eq_some {T' : Table α keys} {a : α} (h : T.insert? a = some T') :
    T.Free a ∧ ∀ b, b ∈ T' ↔ b ∈ T ∨ b = a := by
  unfold insert? at h
  split at h
  · rename_i hfree
    obtain rfl := Option.some.inj h
    exact ⟨hfree, fun _ => mem_push hfree⟩
  · cases h

/-- A row whose keys are free is inserted. -/
theorem insert?_of_free {a : α} (h : T.Free a) : T.insert? a = some (T.push a h) := dif_pos h

/-- `INSERT … ON CONFLICT DO NOTHING`. -/
def insertIgnore (T : Table α keys) (a : α) : Table α keys :=
  if h : T.Free a then T.push a h else T

/-- An insertion that ignores conflicts adds its row where the keys are free. -/
theorem mem_insertIgnore {a b : α} :
    b ∈ T.insertIgnore a ↔ b ∈ T ∨ (T.Free a ∧ b = a) := by
  unfold insertIgnore
  split
  · rename_i h
    rw [mem_push]
    exact or_congr_right ⟨fun hb => ⟨h, hb⟩, And.right⟩
  · rename_i h
    exact ⟨Or.inl, fun hb => hb.resolve_right fun hb => h hb.1⟩

/-- An insertion that ignores conflicts changes nothing where a key is held. -/
theorem insertIgnore_of_not_free {a : α} (h : ¬ T.Free a) : T.insertIgnore a = T := dif_neg h

/-- The row shares a unique key with `a`. -/
def Conflicts (a b : α) (keys : α → List κ) : Prop := ∃ k ∈ keys a, k ∈ keys b

instance (a b : α) (keys : α → List κ) : Decidable (Conflicts a b keys) :=
  inferInstanceAs (Decidable (∃ k ∈ keys a, k ∈ keys b))

/-- `INSERT … ON CONFLICT DO UPDATE SET f WHERE p`: with no conflict the row goes in, and otherwise
the rows in its way that satisfy `p` are changed. -/
def upsert (T : Table α keys) (a : α) (p : α → Prop) [DecidablePred p] (f : Change keys) :
    Table α keys :=
  if h : T.Free a then T.push a h else T.update (fun b => Conflicts a b keys ∧ p b) f

/-- The rows an upsert leaves. -/
theorem mem_upsert {a b : α} :
    b ∈ T.upsert a p f ↔
      (T.Free a ∧ (b ∈ T ∨ b = a)) ∨
        (¬ T.Free a ∧ b ∈ T.update (fun c => Conflicts a c keys ∧ p c) f) := by
  unfold upsert
  split
  · rename_i h
    rw [mem_push]
    exact ⟨fun hb => Or.inl ⟨h, hb⟩, fun hb => hb.elim And.right fun hb => absurd h hb.1⟩
  · rename_i h
    exact ⟨fun hb => Or.inr ⟨h, hb⟩, fun hb => hb.elim (fun hb => absurd hb.1 h) And.right⟩

/-- A row that is not free, and holds its own keys once each, has a row in its way. -/
theorem exists_conflict {a : α} (hkeys : (keys a).Nodup) (h : ¬ T.Free a) :
    ∃ b ∈ T, Conflicts a b keys := by
  by_contra hno
  refine h ⟨hkeys, fun k hk hheld => hno ?_⟩
  obtain ⟨b, hb, hkb⟩ := mem_heldKeys.mp hheld
  exact ⟨b, hb, k, hk, hkb⟩

/-- An upsert that meets its row as it would leave it changes nothing. -/
theorem upsert_of_fixed {a : α} (h : ¬ T.Free a)
    (hfixed : ∀ b ∈ T, Conflicts a b keys → p b → f b = b) : T.upsert a p f = T := by
  unfold upsert
  rw [dif_neg h]
  exact update_of_fixed fun b hb hp => hfixed b hb hp.1 hp.2

/-! ## Tables related row by row

What an update does to a table is a relation between a row before it and its image. Such relations
compose, which is how the effect of several statements on one table is stated. -/

omit [DecidableEq κ]

/-- Every row after has a row before it in relation, and every row before has one after it. -/
structure Rel (R : α → α → Prop) (T T' : Table α keys) : Prop where
  before : ∀ b ∈ T', ∃ a ∈ T, R a b
  after : ∀ a ∈ T, ∃ b ∈ T', R a b

namespace Rel

variable {R S U : α → α → Prop} {T' T'' : Table α keys}

/-- Every row is kept as it is. -/
theorem refl (h : ∀ a, R a a) (T : Table α keys) : Rel R T T :=
  ⟨fun a ha => ⟨a, ha, h a⟩, fun a ha => ⟨a, ha, h a⟩⟩

/-- Two changes of a table, one after the other. -/
theorem trans (hU : ∀ a b c, R a b → S b c → U a c) (h : Rel R T T') (h' : Rel S T' T'') :
    Rel U T T'' := by
  refine ⟨fun c hc => ?_, fun a ha => ?_⟩
  · obtain ⟨b, hb, hbc⟩ := h'.before c hc
    obtain ⟨a, ha, hab⟩ := h.before b hb
    exact ⟨a, ha, hU a b c hab hbc⟩
  · obtain ⟨b, hb, hab⟩ := h.after a ha
    obtain ⟨c, hc, hbc⟩ := h'.after b hb
    exact ⟨c, hc, hU a b c hab hbc⟩

/-- A weaker relation holds of the same change. -/
theorem imp (hS : ∀ a b, R a b → S a b) (h : Rel R T T') : Rel S T T' := by
  refine ⟨fun b hb => ?_, fun a ha => ?_⟩
  · obtain ⟨a, ha, hab⟩ := h.before b hb
    exact ⟨a, ha, hS a b hab⟩
  · obtain ⟨b, hb, hab⟩ := h.after a ha
    exact ⟨b, hb, hS a b hab⟩

/-- An update relates each row to its image. -/
theorem update (hpos : ∀ a ∈ T, p a → R a (f a)) (hneg : ∀ a ∈ T, ¬ p a → R a a) :
    Rel R T (T.update p f) := by
  refine ⟨fun b hb => ?_, fun a ha => ?_⟩
  · obtain ⟨a, ha, hp, rfl⟩ | ⟨hb, hp⟩ := update_cases hb
    · exact ⟨a, ha, hpos a ha hp⟩
    · exact ⟨b, hb, hneg b hb hp⟩
  · by_cases hp : p a
    · exact ⟨f a, mem_update_of_pos ha hp, hpos a ha hp⟩
    · exact ⟨a, mem_update_of_neg ha hp, hneg a ha hp⟩

end Rel

/-! ## Tables that may grow -/

/-- Every row before has a row after it in relation, and a row after with none before it is one of
the new rows `N`. -/
structure Moves (R : α → α → Prop) (N : α → Prop) (T T' : Table α keys) : Prop where
  before : ∀ b ∈ T', (∃ a ∈ T, R a b) ∨ N b
  after : ∀ a ∈ T, ∃ b ∈ T', R a b

/-- A change of every row is a move that adds none. -/
theorem Rel.moves {R : α → α → Prop} {T' : Table α keys} (h : Rel R T T') (N : α → Prop) :
    Moves R N T T' :=
  ⟨fun b hb => Or.inl (h.before b hb), h.after⟩

namespace Moves

variable {R : α → α → Prop} {N : α → Prop} {T' T'' : Table α keys}

/-- No row moves. -/
theorem refl (h : ∀ a, R a a) (T : Table α keys) : Moves R N T T := (Rel.refl h T).moves N

/-- Two moves of a table, one after the other. -/
theorem trans (hR : ∀ a b c, R a b → R b c → R a c) (hN : ∀ a b, N a → R a b → N b)
    (h : Moves R N T T') (h' : Moves R N T' T'') : Moves R N T T'' := by
  refine ⟨fun c hc => ?_, fun a ha => ?_⟩
  · obtain ⟨b, hb, hbc⟩ | hc := h'.before c hc
    · obtain ⟨a, ha, hab⟩ | hb := h.before b hb
      · exact Or.inl ⟨a, ha, hR a b c hab hbc⟩
      · exact Or.inr (hN b c hb hbc)
    · exact Or.inr hc
  · obtain ⟨b, hb, hab⟩ := h.after a ha
    obtain ⟨c, hc, hbc⟩ := h'.after b hb
    exact ⟨c, hc, hR a b c hab hbc⟩

/-- One row added. -/
theorem push {a : α} (hR : ∀ b, R b b) (hT : ∀ b, b ∈ T' ↔ b ∈ T ∨ b = a) (ha : N a) :
    Moves R N T T' := by
  refine ⟨fun b hb => ?_, fun b hb => ⟨b, (hT b).mpr (Or.inl hb), hR b⟩⟩
  obtain hb | rfl := (hT b).mp hb
  · exact Or.inl ⟨b, hb, hR b⟩
  · exact Or.inr ha

end Moves

/-! ## One row replaced -/

/-- `T'` is `T` with the row `a` replaced by `a'`. -/
def Replaced (T T' : Table α keys) (a a' : α) : Prop := ∀ b, b ∈ T' ↔ b = a' ∨ (b ∈ T ∧ b ≠ a)

/-- An update that selects one row replaces it. -/
theorem Replaced.update {a : α} (ha : a ∈ T) (hp : p a) (hone : ∀ b ∈ T, p b → b = a) :
    Replaced T (T.update p f) a (f a) := by
  intro b
  constructor
  · intro hb
    obtain ⟨c, hc, hpc, rfl⟩ | ⟨hb, hpb⟩ := update_cases hb
    · exact Or.inl (by rw [hone c hc hpc])
    · exact Or.inr ⟨hb, fun he => hpb (he ▸ hp)⟩
  · rintro (rfl | ⟨hb, hne⟩)
    · exact mem_update_of_pos ha hp
    · exact mem_update_of_neg hb fun hpb => hne (hone b hb hpb)

/-- A replacement relates each row to its image. -/
theorem Replaced.rel {T' : Table α keys} {a a' : α} {R : α → α → Prop} (h : Replaced T T' a a')
    (ha : a ∈ T) (hR : R a a') (hrefl : ∀ b ∈ T, b ≠ a → R b b) : Rel R T T' := by
  refine ⟨fun b hb => ?_, fun b hb => ?_⟩
  · rcases (h b).mp hb with rfl | ⟨hb, hne⟩
    · exact ⟨a, ha, hR⟩
    · exact ⟨b, hb, hrefl b hb hne⟩
  · by_cases hne : b = a
    · exact ⟨a', (h a').mpr (Or.inl rfl), hne ▸ hR⟩
    · exact ⟨b, (h b).mpr (Or.inr ⟨hb, hne⟩), hrefl b hb hne⟩

end Table

end Relational
