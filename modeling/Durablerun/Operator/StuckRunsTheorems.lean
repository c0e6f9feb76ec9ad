import Durablerun.Lib.Limited
import Durablerun.Operator.StuckRuns
import Mathlib.Data.String.Basic

/-!
# The lists of stuck runs are sound and complete

A row a window read and the engine's statement did not answer is refused where the statement
answered everything it admits, or a row that sorts after it. So what a list holds is refused, and a
list that says no row was left unexamined is the first of every refused row old enough for the grace.

Reference: `packages/core/src/operator-reads.ts`.
-/

namespace Durablerun.Operator

open Js Relational

/-! ## The order of a leg -/

section Order

variable {α : Type} {instant : α → Option ℤ} {id : α → String}

instance : Std.Total (instantOrder instant id) := by
  refine ⟨fun a b => ?_⟩
  unfold instantOrder
  rcases lt_trichotomy ((instant a).getD 0) ((instant b).getD 0) with hlt | heq | hlt
  · exact Or.inl (Or.inl hlt)
  · exact (le_total (id a) (id b)).imp (fun hle => Or.inr ⟨heq, hle⟩)
      fun hle => Or.inr ⟨heq.symm, hle⟩
  · exact Or.inr (Or.inl hlt)

instance : IsTrans α (instantOrder instant id) := by
  refine ⟨fun a b c hab hbc => ?_⟩
  rcases hab with hab | ⟨hab, hle⟩
  · rcases hbc with hbc | ⟨hbc, _⟩
    · exact Or.inl (hab.trans hbc)
    · exact Or.inl (hbc ▸ hab)
  · rcases hbc with hbc | ⟨hbc, hle'⟩
    · exact Or.inl (hab ▸ hbc)
    · exact Or.inr ⟨hab.trans hbc, hle.trans hle'⟩

/-- The order tells rows of different ids apart. -/
theorem instantOrder_id {a b : α} (hab : instantOrder instant id a b)
    (hba : instantOrder instant id b a) : id a = id b := by
  unfold instantOrder at hab hba
  rcases hab with hlt | ⟨heq, hle⟩
  · rcases hba with hlt' | ⟨heq, _⟩
    · exact absurd hlt hlt'.not_gt
    · exact absurd heq hlt.ne'
  · rcases hba with hlt | ⟨_, hle'⟩
    · exact absurd heq hlt.ne'
    · exact le_antisymm hle hle'

/-- Rows of different ids are never each before the other. -/
theorem instantOrder_antisymmetric {l : List α}
    (hid : ∀ a ∈ l, ∀ b ∈ l, id a = id b → a = b) :
    List.Antisymmetric (instantOrder instant id) l :=
  fun a ha b hb hab hba => hid a ha b hb (instantOrder_id hab hba)

/-- Where both instants are there, core places rows as the database orders them. -/
theorem comparePlaced_nonpos {a b : α} {v w : ℤ} (ha : instant a = some v)
    (hb : instant b = some w) :
    comparePlaced ⟨id a, some v⟩ ⟨id b, some w⟩ ≤ 0 ↔ instantOrder instant id a b := by
  unfold comparePlaced instantOrder
  rw [ha, hb]
  simp only [Option.getD_some]
  by_cases hvw : v = w
  · subst hvw
    have hzero : absentLast (some v) (some v) = 0 := if_pos rfl
    rw [hzero, if_neg (not_not.mpr rfl), byCodePoints_nonpos]
    constructor
    · exact fun hle => Or.inr ⟨rfl, hle⟩
    · rintro (hlt | ⟨_, hle⟩)
      · exact absurd hlt (lt_irrefl v)
      · exact hle
  · have hne : absentLast (some v) (some w) = v - w := if_neg fun h => hvw (Option.some.inj h)
    rw [hne, if_pos (sub_ne_zero.mpr hvw), sub_nonpos]
    constructor
    · exact fun hle => Or.inl (lt_of_le_of_ne hle hvw)
    · rintro (hlt | ⟨heq, _⟩)
      · exact hlt.le
      · exact absurd heq hvw

/-- Comparing two instants the other way round gives the opposite. -/
theorem absentLast_comm (v w : ℤ) :
    absentLast (some w) (some v) = - absentLast (some v) (some w) := by
  unfold absentLast
  by_cases hvw : v = w
  · rw [hvw, if_pos rfl, neg_zero]
  · rw [if_neg fun h => hvw (Option.some.inj h).symm, if_neg fun h => hvw (Option.some.inj h)]
    exact (neg_sub v w).symm

/-- A row sorts before another when it does not come after it. -/
theorem sortsBefore_iff {a b : α} {v w : ℤ} (ha : instant a = some v) (hb : instant b = some w) :
    sortsBefore ⟨id a, some v⟩ ⟨id b, some w⟩ ↔ ¬ instantOrder instant id b a := by
  rw [← comparePlaced_nonpos hb ha]
  have hcomm : comparePlaced ⟨id b, some w⟩ ⟨id a, some v⟩ =
      - comparePlaced ⟨id a, some v⟩ ⟨id b, some w⟩ := by
    unfold comparePlaced
    simp only [absentLast_comm v w, ne_eq, neg_eq_zero, byCodePoints_neg_comm (utf16 (id b))]
    split
    · rfl
    · rfl
  rw [hcomm]
  unfold sortsBefore
  omega

end Order

/-! ## A list of rows a move is owed to -/

section Owed

variable {α Row : Type} (decode : α → Row) (instant : α → Option ℤ) (id : α → String)
  (nowMs : Option ℤ) (graceMs : ℤ) (limit : ℕ)

/-- A row as a list holds it. -/
def owed (a : α) : Owed Row := ⟨decode a, (instant a).bind fun v => nowMs.map (· - v)⟩

/-- A list is the first of some rows, oldest first, and says whether there are more. -/
structure Capped.Lists (list : Capped (Owed Row)) (all : List α) : Prop where
  rows : list.rows = ((all.insertionSort (instantOrder instant id)).take limit).map
    (owed decode instant nowMs)
  atLeast : list.atLeast = true ↔ limit < all.length

/-- A row's decoded place is that of the row. -/
structure Places (dueAtMs : Row → Option ℤ) (idOf : Row → String) (l : List α) : Prop where
  id : ∀ a ∈ l, idOf (decode a) = id a
  due : ∀ a ∈ l, dueAtMs (decode a) = instant a
  dated : ∀ a ∈ l, ∃ v, instant a = some v

variable {decode instant id} {dueAtMs : Row → Option ℤ} {idOf : Row → String}

/-- `owedFor` lists the rows old enough. -/
theorem owedFor_lists {l : List α} (hplaces : Places decode instant id dueAtMs idOf l) :
    (owedFor dueAtMs idOf nowMs graceMs limit (l.map decode)).Lists decode instant id nowMs limit
      (l.filter fun a => agedAt nowMs graceMs (instant a)) := by
  have hfilter : (l.map decode).filter (fun row => agedAt nowMs graceMs (dueAtMs row)) =
      (l.filter fun a => agedAt nowMs graceMs (instant a)).map decode := by
    rw [List.filter_map]
    refine congrArg (List.map decode) (List.filter_congr fun a ha => ?_)
    simp only [Function.comp_apply, hplaces.due a ha]
  have hmem : ∀ {a}, a ∈ l.filter (fun a => agedAt nowMs graceMs (instant a)) → a ∈ l :=
    fun ha => (List.mem_filter.mp ha).1
  have hsort := List.map_insertionSort (instantOrder instant id)
    (fun left right => comparePlaced ⟨idOf left, dueAtMs left⟩ ⟨idOf right, dueAtMs right⟩ ≤ 0)
    decode (l.filter fun a => agedAt nowMs graceMs (instant a)) fun a ha b hb => by
      obtain ⟨v, hv⟩ := hplaces.dated a (hmem ha)
      obtain ⟨w, hw⟩ := hplaces.dated b (hmem hb)
      rw [hplaces.id a (hmem ha), hplaces.id b (hmem hb), hplaces.due a (hmem ha),
        hplaces.due b (hmem hb), hv, hw, comparePlaced_nonpos hv hw]
  refine ⟨?_, ?_⟩
  · unfold owedFor
    simp only [hfilter, ← hsort, List.map_map, ← List.map_take]
    refine List.map_congr_left fun a ha => ?_
    have hal : a ∈ l := hmem ((List.mem_insertionSort _).mp (List.mem_of_mem_take ha))
    simp only [Function.comp_apply, owed, hplaces.due a hal]
  · unfold owedFor
    simp only [hfilter, List.length_map, List.length_insertionSort, decide_eq_true_eq]

end Owed

/-! ## What a window shows -/

section NotTaken

variable {α β Row : Type} {kind : OwedKind α Row} {taken : List Placed} {limit : ℕ}
  {aged : Option ℤ → Prop} [DecidablePred aged]

/-- The place a row of a window is decoded to. -/
def placeOf (kind : OwedKind α Row) (raw : α) : Placed :=
  ⟨kind.idOf (kind.decode raw).1, kind.dueAtMs (kind.decode raw).1⟩

/-- The engine's statement did not answer the row, and answered all it admits or a row after it. -/
def Settled (kind : OwedKind α Row) (taken : List Placed) (limit : ℕ) (raw : α) : Prop :=
  heldAt taken (kind.idColumn raw) = none ∧
    ∀ last ∈ lastTaken taken limit, sortsBefore (placeOf kind raw) last
deriving Decidable

/-- Where a window ends that ends with the row. -/
def endOf (kind : OwedKind α Row) (taken : List Placed) (raw : α) : Option ℤ :=
  (heldAt taken (kind.idColumn raw)).getD (placeOf kind raw).at'

/-- The row is old enough, and nothing tells whether the engine takes it. -/
def LeftOpen (kind : OwedKind α Row) (taken : List Placed) (limit : ℕ) (aged : Option ℤ → Prop)
    (raw : α) : Prop :=
  heldAt taken (kind.idColumn raw) = none ∧ ¬ Settled kind taken limit raw ∧
    aged (placeOf kind raw).at'

/-- One turn of the loop: the row is listed where it is settled. -/
theorem settle_eq (s : Unsettled Row) (raw : α) :
    (settle kind taken limit aged s raw).rows =
        s.rows ++ ([raw].filter (Settled kind taken limit)).map (fun raw => (kind.decode raw).1) ∧
      ((settle kind taken limit aged s raw).unsettled = true ↔
        s.unsettled = true ∨ LeftOpen kind taken limit aged raw) ∧
      (settle kind taken limit aged s raw).endsAt = endOf kind taken raw := by
  unfold settle LeftOpen endOf
  cases hheld : heldAt taken (kind.idColumn raw) with
  | some at' =>
    have hnot : ¬ Settled kind taken limit raw := fun h => nomatch hheld.symm.trans h.1
    simp [hnot]
  | none =>
    have hsettled : Settled kind taken limit raw ↔
        ∀ last ∈ lastTaken taken limit, sortsBefore (placeOf kind raw) last := and_iff_right hheld
    by_cases hbefore : ∀ last ∈ lastTaken taken limit, sortsBefore (placeOf kind raw) last
    · have hyes := hsettled.mpr hbefore
      unfold placeOf at hbefore
      simp only [if_pos hbefore, hyes, not_true_eq_false, false_and, and_false, or_false,
        List.filter_cons, decide_true, if_true, List.filter_nil, List.map_singleton,
        Option.getD_none, placeOf, and_self]
    · have hno := mt hsettled.mp hbefore
      unfold placeOf at hbefore
      simp only [if_neg hbefore, hno, not_false_eq_true, true_and, Bool.or_eq_true,
        decide_eq_true_eq, List.filter_cons, decide_false, Bool.false_eq_true, if_false,
        List.filter_nil, List.map_nil, List.append_nil, Option.getD_none, placeOf, and_self]

/-- The loop lists the settled rows, in the order they were read. -/
theorem foldl_settle (read : List α) (s : Unsettled Row) :
    (read.foldl (settle kind taken limit aged) s).rows = s.rows ++
        (read.filter (Settled kind taken limit)).map (fun raw => (kind.decode raw).1) ∧
      ((read.foldl (settle kind taken limit aged) s).unsettled = true ↔
        s.unsettled = true ∨ ∃ raw ∈ read, LeftOpen kind taken limit aged raw) ∧
      (read.foldl (settle kind taken limit aged) s).endsAt =
        (read.getLast?.map (endOf kind taken)).getD s.endsAt := by
  induction read generalizing s with
  | nil => simp
  | cons raw read ih =>
    obtain ⟨hrows, hunsettled, hends⟩ := ih (settle kind taken limit aged s raw)
    obtain ⟨hrows₁, hunsettled₁, hends₁⟩ := @settle_eq α Row kind taken limit aged _ s raw
    rw [List.foldl_cons]
    refine ⟨?_, ?_, ?_⟩
    · rw [hrows, hrows₁, List.append_assoc, ← List.map_append, ← List.filter_append]
      rfl
    · rw [hunsettled, hunsettled₁, or_assoc, List.exists_mem_cons_iff]
    · rw [hends, hends₁, List.getLast?_cons]
      cases read.getLast? <;> rfl

variable {instant : α → Option ℤ} {id : α → String} {instant' : β → Option ℤ} {id' : β → String}
  {due : List α} {admitted : List β}

/-- The rows a leg of the engine's own answered, as a window looks them up. -/
def takenOf (instant' : β → Option ℤ) (id' : β → String) (limit : ℕ) (admitted : List β) :
    List Placed :=
  ((admitted.insertionSort (instantOrder instant' id')).take (limit + 1)).map fun b =>
    ⟨id' b, instant' b⟩

/-- What the engine's read answers is admitted. -/
theorem mem_of_answered {b : β}
    (hb : b ∈ (admitted.insertionSort (instantOrder instant' id')).take (limit + 1)) :
    b ∈ admitted :=
  (List.mem_insertionSort _).mp (List.mem_of_mem_take hb)

/-- An id is held at an instant where the read answered a row of that id and instant. -/
theorem heldAt_some {id : String} {at' : Option ℤ}
    (h : heldAt (takenOf instant' id' limit admitted) id = some at') :
    ∃ b ∈ (admitted.insertionSort (instantOrder instant' id')).take (limit + 1),
      id' b = id ∧ instant' b = at' := by
  obtain ⟨place, hfind, rfl⟩ := Option.map_eq_some_iff.mp h
  obtain ⟨b, hb, rfl⟩ := List.mem_map.mp (List.mem_reverse.mp (List.mem_of_find?_eq_some hfind))
  have hid := List.find?_some hfind
  exact ⟨b, hb, of_decide_eq_true hid, rfl⟩

/-- An id is not held where the read answered no row of it. -/
theorem heldAt_none {id : String} (h : heldAt (takenOf instant' id' limit admitted) id = none) :
    ∀ b ∈ (admitted.insertionSort (instantOrder instant' id')).take (limit + 1), id' b ≠ id := by
  intro b hb heq
  have hnone := List.find?_eq_none.mp (Option.map_eq_none_iff.mp h) ⟨id' b, instant' b⟩
    (List.mem_reverse.mpr (List.mem_map.mpr ⟨b, hb, rfl⟩))
  simp [heq] at hnone

/-- A window beside a leg of the engine's own: the rows due by their instant, and the rows the
engine admits. A row of both has one id and one instant. -/
structure Beside (kind : OwedKind α Row) (instant : α → Option ℤ) (id : α → String)
    (instant' : β → Option ℤ) (id' : β → String) (due : List α) (admitted : List β) : Prop where
  places : Places (fun raw => (kind.decode raw).1) instant id kind.dueAtMs kind.idOf due
  column : ∀ raw, kind.idColumn raw = id raw
  nodup : due.Nodup
  unique : ∀ a ∈ due, ∀ b ∈ due, id a = id b → a = b
  dated : ∀ b ∈ admitted, ∃ v, instant' b = some v
  same : ∀ a ∈ due, ∀ b ∈ admitted, id' b = id a → instant' b = instant a

/-- A row of a leg comes ahead of a row of a window: by its instant, and then by its id. -/
def Ahead (instant : α → Option ℤ) (id : α → String) (instant' : β → Option ℤ) (id' : β → String)
    (a : α) (b : β) : Prop :=
  (instant' b).getD 0 < (instant a).getD 0 ∨ (instant' b).getD 0 = (instant a).getD 0 ∧ id' b < id a
deriving Decidable

/-- A window leaves a row unexamined: more due rows than it can settle are old enough, or one that is
old enough comes after more rows than the leg lists. -/
def LeavesUnexamined (instant : α → Option ℤ) (id : α → String) (instant' : β → Option ℤ)
    (id' : β → String) (aged : Option ℤ → Prop) [DecidablePred aged] (limit : ℕ) (due : List α)
    (admitted : List β) : Prop :=
  limit + 1 < (due.filter fun a => aged (instant a)).length ∨
    ∃ a ∈ due, aged (instant a) ∧ limit < (admitted.filter (Ahead instant id instant' id' a)).length
deriving Decidable

/-- What comes before a row that comes ahead does so too. -/
theorem Ahead.closed {a : α} {b c : β} (hbc : instantOrder instant' id' b c)
    (hc : Ahead instant id instant' id' a c) : Ahead instant id instant' id' a b := by
  unfold Ahead instantOrder at *
  grind

section Window

variable (h : Beside kind instant id instant' id' due admitted)
include h

/-- A due row's place is its id and its instant. -/
theorem Beside.placeOf_eq {raw : α} (hraw : raw ∈ due) :
    placeOf kind raw = ⟨id raw, instant raw⟩ := by
  unfold placeOf
  rw [h.places.id raw hraw, h.places.due raw hraw]

/-- A settled row is not one the engine admits. -/
theorem Beside.settled {raw : α} (hraw : raw ∈ due)
    (hsettled : Settled kind (takenOf instant' id' limit admitted) limit raw) :
    ∀ b ∈ admitted, id' b ≠ id raw := by
  intro b hb heq
  obtain ⟨hheld, hbefore⟩ := hsettled
  rw [h.column] at hheld
  have hnot : b ∉ (admitted.insertionSort (instantOrder instant' id')).take (limit + 1) :=
    fun hmem => heldAt_none hheld b hmem heq
  -- The answer was full, and every row of it sorts before one it left out.
  obtain ⟨hlength, hfirst⟩ := List.le_of_not_mem_take hb hnot
  have hne : (admitted.insertionSort (instantOrder instant' id')).take (limit + 1) ≠ [] := by
    intro hnil
    rw [hnil] at hlength
    cases hlength
  set last := ((admitted.insertionSort (instantOrder instant' id')).take (limit + 1)).getLast hne
    with hlast
  have hmem : last ∈ (admitted.insertionSort (instantOrder instant' id')).take (limit + 1) :=
    List.getLast_mem hne
  have hfull : (⟨id' last, instant' last⟩ : Placed) ∈
      lastTaken (takenOf instant' id' limit admitted) limit := by
    unfold lastTaken takenOf
    rw [List.length_map, hlength, if_pos (Nat.lt_succ_self limit), List.getLast?_map,
      List.getLast?_eq_getLast_of_ne_nil hne]
    rfl
  have hsorts := hbefore _ hfull
  obtain ⟨v, hv⟩ := h.dated b hb
  obtain ⟨w, hw⟩ := h.dated last ((List.mem_insertionSort _).mp (List.mem_of_mem_take hmem))
  rw [h.placeOf_eq hraw, ← heq, ← h.same raw hraw b hb heq, hv, hw] at hsorts
  exact (sortsBefore_iff hv hw).mp hsorts (hfirst last hmem)

/-- The loop ends at the instant of the window's last row. -/
theorem Beside.ends {read : List α} (hsub : ∀ a ∈ read, a ∈ due) {last : α}
    (hlast : read.getLast? = some last) :
    (read.foldl (settle kind (takenOf instant' id' limit admitted) limit aged) {}).endsAt =
      instant last := by
  have hin := hsub last (List.mem_of_getLast? hlast)
  rw [(@foldl_settle α Row kind _ limit aged _ read {}).2.2, hlast]
  show endOf kind _ last = instant last
  unfold endOf
  rw [h.placeOf_eq hin, h.column]
  cases hheld : heldAt (takenOf instant' id' limit admitted) (id last) with
  | none => rfl
  | some at' =>
    obtain ⟨b, hb, heq, rfl⟩ := heldAt_some hheld
    exact h.same last hin b (mem_of_answered hb) heq

/-- A window that leaves no row unexamined lists every due row old enough that the engine does not
admit. -/
theorem Beside.listed (hclosed : ∀ v w : ℤ, v ≤ w → aged (some w) → aged (some v))
    (hexamined : (notTaken kind (takenOf instant' id' limit admitted) limit aged
      ((due.insertionSort (instantOrder instant id)).take (limit + 2))).unexamined = false)
    {raw : α} (hraw : raw ∈ due) (haged : aged (instant raw))
    (hrefused : ∀ b ∈ admitted, id' b ≠ id raw) :
    raw ∈ ((due.insertionSort (instantOrder instant id)).take (limit + 2)).filter
      (Settled kind (takenOf instant' id' limit admitted) limit) := by
  set taken := takenOf instant' id' limit admitted with htaken
  set read := (due.insertionSort (instantOrder instant id)).take (limit + 2) with hread
  have hsub : ∀ {a}, a ∈ read → a ∈ due :=
    fun ha => (List.mem_insertionSort _).mp (List.mem_of_mem_take ha)
  obtain ⟨_, hunsettled, _⟩ :=
    @foldl_settle α Row kind taken limit aged _ read {}
  unfold notTaken at hexamined
  simp only [Bool.or_eq_false_iff, decide_eq_false_iff_not] at hexamined
  have hmem : raw ∈ read := by
    by_contra hnot
    obtain ⟨hlength, hfirst⟩ := List.le_of_not_mem_take hraw hnot
    have hne : read ≠ [] := by
      intro hnil
      rw [← hread, hnil] at hlength
      cases hlength
    -- The window ends at an instant no later than that of a row past it.
    set last := read.getLast hne with hlast
    have hin : last ∈ read := List.getLast_mem hne
    obtain ⟨v, hv⟩ := h.places.dated raw hraw
    obtain ⟨w, hw⟩ := h.places.dated last (hsub hin)
    have hle : w ≤ v := by
      have horder := hfirst last hin
      unfold instantOrder at horder
      rw [hv, hw] at horder
      exact horder.elim le_of_lt fun heq => heq.1.le
    have hend : (read.foldl (settle kind taken limit aged) {}).endsAt = some w :=
      (h.ends (fun _ ha => hsub ha) (List.getLast?_eq_getLast_of_ne_nil hne)).trans hw
    refine hexamined.2 ⟨?_, ?_⟩
    · rw [hread, hlength]
      exact Nat.lt_succ_self _
    · rw [hend]
      exact hclosed w v hle (hv ▸ haged)
  refine List.mem_filter.mpr ⟨hmem, decide_eq_true ?_⟩
  by_contra hnot
  have hopen : LeftOpen kind taken limit aged raw := by
    refine ⟨?_, hnot, ?_⟩
    · rw [h.column]
      cases hheld : heldAt taken (id raw) with
      | none => rfl
      | some at' =>
        obtain ⟨b, hb, heq, _⟩ := heldAt_some hheld
        exact absurd heq (hrefused b (mem_of_answered hb))
    · rw [h.placeOf_eq hraw]
      exact haged
  rw [(hunsettled.mpr (Or.inr ⟨raw, hmem, hopen⟩) : _ = true)] at hexamined
  exact absurd hexamined.1 (by decide)

/-- A due row sorts before an admitted one where it is not the same row and not behind it. -/
theorem Beside.sortsBefore_iff {a : α} {b : β} (ha : a ∈ due) (hb : b ∈ admitted) :
    sortsBefore (placeOf kind a) ⟨id' b, instant' b⟩ ↔
      ¬ Ahead instant id instant' id' a b ∧ (instant' b = instant a → id' b ≠ id a) := by
  obtain ⟨v, hv⟩ := h.places.dated a ha
  obtain ⟨w, hw⟩ := h.dated b hb
  have hsorts : sortsBefore ⟨id a, some v⟩ ⟨id' b, some w⟩ ↔
      ¬ instantOrder Placed.at' Placed.id ⟨id' b, some w⟩ ⟨id a, some v⟩ :=
    @Operator.sortsBefore_iff _ Placed.at' Placed.id ⟨id a, some v⟩ ⟨id' b, some w⟩ v w rfl rfl
  rw [h.placeOf_eq ha, hv, hw, hsorts]
  unfold Ahead instantOrder
  rw [hv, hw]
  simp only [Option.getD_some, Option.some.injEq]
  grind

omit [DecidablePred aged] in
/-- A row is left open when the leg answered in full, and all of it comes ahead. -/
theorem Beside.leftOpen_iff (hunique : ∀ b ∈ admitted, ∀ c ∈ admitted, id' b = id' c → b = c)
    {a : α} (ha : a ∈ due) :
    LeftOpen kind (takenOf instant' id' limit admitted) limit aged a ↔
      aged (instant a) ∧ limit < (admitted.filter (Ahead instant id instant' id' a)).length := by
  set answered := (admitted.insertionSort (instantOrder instant' id')).take (limit + 1)
    with hanswered
  -- Ahead is closed under the leg's own order, so the leg's answer decides how many rows are ahead.
  have hfull : limit < (admitted.filter (Ahead instant id instant' id' a)).length ↔
      answered.length = limit + 1 ∧ ∀ b ∈ answered, Ahead instant id instant' id' a b :=
    List.le_length_filter_iff (instantOrder_antisymmetric hunique)
      fun b _ c _ => Ahead.closed
  have hsorted : answered.Pairwise (instantOrder instant' id') :=
    (List.pairwise_insertionSort _ _).sublist (List.take_sublist _ _)
  have hplace : ∀ b ∈ answered, sortsBefore (placeOf kind a) ⟨id' b, instant' b⟩ ↔
      ¬ Ahead instant id instant' id' a b ∧ (instant' b = instant a → id' b ≠ id a) :=
    fun b hb => h.sortsBefore_iff ha (mem_of_answered hb)
  have hlast : lastTaken (takenOf instant' id' limit admitted) limit =
      if limit < answered.length then answered.getLast?.map fun b => ⟨id' b, instant' b⟩
      else none := by
    unfold lastTaken takenOf
    rw [List.length_map, List.getLast?_map]
  unfold LeftOpen Settled
  rw [h.column, hfull, hlast]
  constructor
  · rintro ⟨hheld, hopen, haged⟩
    rw [h.placeOf_eq ha] at haged
    refine ⟨haged, ?_⟩
    have hnot : ¬ ∀ last ∈ (if limit < answered.length then
        answered.getLast?.map fun b => (⟨id' b, instant' b⟩ : Placed) else none),
          sortsBefore (placeOf kind a) last := fun hall => hopen ⟨hheld, hall⟩
    push Not at hnot
    obtain ⟨last, hmem, hafter⟩ := hnot
    split at hmem
    · rename_i hlength
      obtain ⟨b, hb, rfl⟩ := Option.map_eq_some_iff.mp hmem
      have hin : b ∈ answered := List.mem_of_getLast? hb
      have hother : id' b ≠ id a := heldAt_none hheld b hin
      -- The row does not sort before the last one answered, so that one is ahead of it.
      have hahead : Ahead instant id instant' id' a b := by
        by_contra hno
        exact hafter ((hplace b hin).mpr ⟨hno, fun _ => hother⟩)
      refine ⟨le_antisymm (List.length_take_le _ _) hlength, fun c hc => ?_⟩
      -- Every row the leg answered comes before its last.
      obtain ⟨front, hfront⟩ := List.getLast?_eq_some_iff.mp hb
      rw [hfront] at hc hsorted
      obtain hc | hc := List.mem_append.mp hc
      · exact Ahead.closed ((List.pairwise_append.mp hsorted).2.2 c hc b
          (List.mem_singleton_self b)) hahead
      · rwa [List.mem_singleton.mp hc]
    · cases hmem
  · rintro ⟨haged, hlength, hahead⟩
    have hheld : heldAt (takenOf instant' id' limit admitted) (id a) = none := by
      -- A row the leg answered is held, and a held row is settled.
      cases hheld : heldAt (takenOf instant' id' limit admitted) (id a) with
      | none => rfl
      | some at' =>
        obtain ⟨b, hb, heq, _⟩ := heldAt_some hheld
        have hsame := h.same a ha b (mem_of_answered hb) heq
        have hno := hahead b hb
        simp [Ahead, hsame, heq] at hno
    refine ⟨hheld, fun hsettled => ?_, by rwa [h.placeOf_eq ha]⟩
    have hne : answered ≠ [] := List.ne_nil_of_length_pos (by omega)
    have hin := List.getLast_mem hne
    have hsorts := hsettled.2 ⟨id' (answered.getLast hne), instant' (answered.getLast hne)⟩ (by
      rw [if_pos (by omega), List.getLast?_eq_getLast_of_ne_nil hne]
      rfl)
    exact ((hplace _ hin).mp hsorts).1 (hahead _ hin)

/-- A window says that it left a row unexamined exactly when it did: when more than it settles are old
enough, or the leg's answer ends before one that is. -/
theorem Beside.unexamined_iff (hunique : ∀ b ∈ admitted, ∀ c ∈ admitted, id' b = id' c → b = c)
    (hclosed : ∀ v w : ℤ, v ≤ w → aged (some w) → aged (some v)) :
    (notTaken kind (takenOf instant' id' limit admitted) limit aged
      ((due.insertionSort (instantOrder instant id)).take (limit + 2))).unexamined = true ↔
      LeavesUnexamined instant id instant' id' aged limit due admitted := by
  set read := (due.insertionSort (instantOrder instant id)).take (limit + 2) with hread
  have hsub : ∀ a ∈ read, a ∈ due :=
    fun a ha => (List.mem_insertionSort _).mp (List.mem_of_mem_take ha)
  have hearlier : ∀ a ∈ due, ∀ b ∈ due, instantOrder instant id a b → aged (instant b) →
      aged (instant a) := by
    intro a ha b hb hab haged
    obtain ⟨v, hv⟩ := h.places.dated a ha
    obtain ⟨w, hw⟩ := h.places.dated b hb
    unfold instantOrder at hab
    rw [hv, hw] at hab
    rw [hv]
    exact hclosed v w (hab.elim le_of_lt fun heq => heq.1.le) (hw ▸ haged)
  have hfull : limit + 2 ≤ (due.filter fun a => aged (instant a)).length ↔
      read.length = limit + 2 ∧ ∀ a ∈ read, aged (instant a) :=
    List.le_length_filter_iff (instantOrder_antisymmetric h.unique) hearlier
  -- A full window of rows old enough is one whose last row is.
  have hpast : (limit + 1 < read.length ∧ aged (read.foldl (settle kind
      (takenOf instant' id' limit admitted) limit aged) {}).endsAt) ↔
        limit + 1 < (due.filter fun a => aged (instant a)).length := by
    refine Iff.trans ?_ hfull.symm
    have hlength : read.length ≤ limit + 2 := List.length_take_le _ _
    constructor
    · rintro ⟨hlt, haged⟩
      have hne : read ≠ [] := List.ne_nil_of_length_pos (by omega)
      rw [h.ends hsub (List.getLast?_eq_getLast_of_ne_nil hne)] at haged
      refine ⟨by omega, fun a ha => ?_⟩
      have hsorted : read.Pairwise (instantOrder instant id) :=
        (List.pairwise_insertionSort _ _).sublist (List.take_sublist _ _)
      rw [← List.dropLast_append_getLast hne] at ha hsorted
      obtain ha' | ha' := List.mem_append.mp ha
      · have horder := (List.pairwise_append.mp hsorted).2.2 a ha' _ (List.mem_singleton_self _)
        exact hearlier a (hsub a (List.mem_of_mem_dropLast ha')) _ (hsub _ (List.getLast_mem hne))
          horder haged
      · rwa [List.mem_singleton.mp ha']
    · rintro ⟨heq, hall⟩
      have hne : read ≠ [] := List.ne_nil_of_length_pos (by omega)
      rw [h.ends hsub (List.getLast?_eq_getLast_of_ne_nil hne)]
      exact ⟨by omega, hall _ (List.getLast_mem hne)⟩
  have hunsettled := (@foldl_settle α Row kind (takenOf instant' id' limit admitted) limit aged _
    read {}).2.1
  unfold notTaken LeavesUnexamined
  simp only [Bool.or_eq_true, decide_eq_true_eq]
  rw [hunsettled, hpast]
  constructor
  · rintro ((hno | ⟨a, ha, hopen⟩) | hmore)
    · cases hno
    · exact Or.inr ⟨a, hsub a ha, (h.leftOpen_iff hunique (hsub a ha)).mp hopen⟩
    · exact Or.inl hmore
  · rintro (hmore | ⟨a, ha, haged, hcount⟩)
    · exact Or.inr hmore
    · by_cases hin : a ∈ read
      · exact Or.inl (Or.inr ⟨a, hin, (h.leftOpen_iff hunique ha).mpr ⟨haged, hcount⟩⟩)
      · -- A window that stops before a row old enough is full of such rows.
        obtain ⟨hlength, hfirst⟩ := List.le_of_not_mem_take ha hin
        have hmore := hfull.mpr ⟨hlength, fun b hb =>
          hearlier b (hsub b hb) a ha (hfirst b hb) haged⟩
        exact Or.inr hmore

end Window

end NotTaken

/-! ## The two kinds of list -/

section Lists

variable {α Row : Type} {decode : α → Row} {instant : α → Option ℤ} {id : α → String}
  {nowMs : Option ℤ} {graceMs : ℤ} {limit : ℕ}

/-- An instant no later than one old enough is old enough. -/
theorem agedAt_closed {v w : ℤ} (hle : v ≤ w) (h : agedAt nowMs graceMs (some w)) :
    agedAt nowMs graceMs (some v) := by
  rintro _ ⟨⟩ now hnow
  exact hle.trans (h w rfl now hnow)

/-- A row before an aged one is aged. -/
theorem agedAt_of_order {a b : α} {v w : ℤ}
    (ha : instant a = some v) (hb : instant b = some w) (hab : instantOrder instant id a b)
    (h : agedAt nowMs graceMs (instant b)) : agedAt nowMs graceMs (instant a) := by
  rw [hb] at h
  rw [ha]
  unfold instantOrder at hab
  rw [ha, hb] at hab
  exact agedAt_closed (hab.elim le_of_lt fun heq => heq.1.le) h

/-- One row past the limit of a leg tells what the whole leg would. -/
theorem Capped.Lists.of_take {list : Capped (Owed Row)} {all : List α}
    (hunique : ∀ a ∈ all, ∀ b ∈ all, id a = id b → a = b)
    (hdated : ∀ a ∈ all, ∃ v, instant a = some v)
    (h : list.Lists decode instant id nowMs limit
      (((all.insertionSort (instantOrder instant id)).take (limit + 1)).filter
        fun a => agedAt nowMs graceMs (instant a))) :
    list.Lists decode instant id nowMs limit
      (all.filter fun a => agedAt nowMs graceMs (instant a)) := by
  have hfirst : ((all.insertionSort (instantOrder instant id)).take (limit + 1)).filter
      (fun a => agedAt nowMs graceMs (instant a)) =
      ((all.filter fun a => agedAt nowMs graceMs (instant a)).insertionSort
        (instantOrder instant id)).take (limit + 1) := by
    refine List.filter_take_insertionSort (instantOrder_antisymmetric hunique)
      (fun a ha b hb hab haged => ?_) (limit + 1)
    obtain ⟨v, hv⟩ := hdated a ha
    obtain ⟨w, hw⟩ := hdated b hb
    exact agedAt_of_order hv hw hab haged
  obtain ⟨hrows, hmore⟩ := h
  rw [hfirst] at hrows hmore
  refine ⟨?_, ?_⟩
  · have hsorted := ((List.pairwise_insertionSort (instantOrder instant id)
      (all.filter fun a => agedAt nowMs graceMs (instant a))).sublist
        (List.take_sublist (limit + 1) _)).insertionSort_eq
    rw [hrows, hsorted, List.take_take, Nat.min_eq_left (Nat.le_succ limit)]
  · rw [hmore, List.length_take, List.length_insertionSort, lt_min_iff,
      and_iff_right (Nat.lt_succ_self limit)]

/-- What a windowed list says of the refused rows of a table. -/
structure Windowed.Exact (list : Windowed (Owed Row)) (decode : α → Row) (instant : α → Option ℤ)
    (id : α → String) (nowMs : Option ℤ) (graceMs : ℤ) (limit : ℕ) (refused : α → Prop)
    [DecidablePred refused] (table : List α) : Prop where
  sound : ∀ row ∈ list.rows, ∃ a ∈ table, refused a ∧ agedAt nowMs graceMs (instant a) ∧
    row = owed decode instant nowMs a
  complete : list.unexamined = false → list.toCapped.Lists decode instant id nowMs limit
    (table.filter fun a => refused a ∧ agedAt nowMs graceMs (instant a))
  missed : list.atLeast = false → ∀ a ∈ table, refused a → agedAt nowMs graceMs (instant a) →
    owed decode instant nowMs a ∉ list.rows → list.unexamined = true

/-- A windowed list is exact where what it listed is refused, and all that is unless it says so. -/
theorem Windowed.exact {list : Windowed (Owed Row)} {refused : α → Prop} [DecidablePred refused]
    {listed table : List α} (hlists : list.toCapped.Lists decode instant id nowMs limit
      (listed.filter fun a => agedAt nowMs graceMs (instant a)))
    (hnodup : listed.Nodup) (htable : table.Nodup)
    (hunique : ∀ a ∈ table, ∀ b ∈ table, id a = id b → a = b)
    (hsound : ∀ a ∈ listed, a ∈ table ∧ refused a)
    (hcomplete : list.unexamined = false → ∀ a ∈ table, refused a →
      agedAt nowMs graceMs (instant a) → a ∈ listed) :
    list.Exact decode instant id nowMs graceMs limit refused table := by
  have hexact : list.unexamined = false → list.toCapped.Lists decode instant id nowMs limit
      (table.filter fun a => refused a ∧ agedAt nowMs graceMs (instant a)) := by
    intro hexamined
    -- With nothing left unexamined, what was listed is what the table has, in some order.
    have hperm : (listed.filter fun a => agedAt nowMs graceMs (instant a)).Perm
        (table.filter fun a => refused a ∧ agedAt nowMs graceMs (instant a)) := by
      refine (List.perm_ext_iff_of_nodup (hnodup.filter _) (htable.filter _)).mpr fun a => ?_
      rw [List.mem_filter, List.mem_filter, decide_eq_true_eq, decide_eq_true_eq]
      constructor
      · rintro ⟨ha, haged⟩
        exact ⟨(hsound a ha).1, (hsound a ha).2, haged⟩
      · rintro ⟨ha, hrefused, haged⟩
        exact ⟨hcomplete hexamined a ha hrefused haged, haged⟩
    have hanti : List.Antisymmetric (instantOrder instant id)
        (listed.filter fun a => agedAt nowMs graceMs (instant a)) :=
      instantOrder_antisymmetric fun a ha b hb => hunique a
        (hsound a (List.mem_filter.mp ha).1).1 b (hsound b (List.mem_filter.mp hb).1).1
    refine ⟨?_, ?_⟩
    · rw [hlists.rows, List.insertionSort_of_perm hanti hperm]
    · rw [hlists.atLeast, hperm.length_eq]
  refine ⟨fun row hrow => ?_, hexact, fun hmore a ha hrefused haged hnot => ?_⟩
  · rw [hlists.rows] at hrow
    obtain ⟨a, ha, rfl⟩ := List.mem_map.mp hrow
    have ha := List.mem_filter.mp ((List.mem_insertionSort _).mp (List.mem_of_mem_take ha))
    exact ⟨a, (hsound a ha.1).1, (hsound a ha.1).2, of_decide_eq_true ha.2, rfl⟩
  -- A list that is cut nowhere and leaves nothing unexamined has every refused row.
  · by_contra hexamined
    have hlist := hexact (Bool.eq_false_of_not_eq_true hexamined)
    have hshort : ¬ limit < (table.filter fun a =>
        refused a ∧ agedAt nowMs graceMs (instant a)).length := by
      rw [← hlist.atLeast, hmore]
      decide
    refine hnot ?_
    rw [hlist.rows, List.take_of_length_le (by rw [List.length_insertionSort]; omega)]
    exact List.mem_map_of_mem ((List.mem_insertionSort _).mpr
      (List.mem_filter.mpr ⟨ha, decide_eq_true ⟨hrefused, haged⟩⟩))

end Lists

end Durablerun.Operator
