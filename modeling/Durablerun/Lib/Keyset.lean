import Mathlib.Data.Set.Card

/-!
# Listing by key

A listing in pages, each of the first rows past the key the page before it ended at. What is stored may
change between two pages: no row is listed twice, none that was there throughout is left out, and over
contents that do not change the listing ends.
-/

namespace Keyset

variable {α κ σ : Type} [LinearOrder κ] {key : α → κ} {contents : σ → Set α}
  {served : σ → Option κ → List α → Option κ → Prop} {S : Set α} {after next : Option κ}
  {tables : List σ} {rows : List α} {a : α}

/-- The row follows the place a page ended at. -/
def Past (key : α → κ) : Option κ → α → Prop
  | none, _ => True
  | some c, a => c < key a

/-- The rows are the first of a table's past a place, and `next` is the last of them when more
follow. -/
structure Page (key : α → κ) (S : Set α) (after : Option κ) (rows : List α) (next : Option κ) :
    Prop where
  ascending : rows.Pairwise fun a b => key a < key b
  stored : ∀ a ∈ rows, a ∈ S
  past : ∀ a ∈ rows, Past key after a
  whole : ∀ a ∈ S, Past key after a → a ∈ rows ∨ ∃ c ∈ next, c < key a
  last : ∀ c ∈ next, (∃ a ∈ rows, key a = c) ∧ ∀ a ∈ rows, key a ≤ c

/-- The first rows of all that follow a place, in order, are a page. -/
theorem page_take {sorted : List α} {limit : ℕ} (hlimit : 0 < limit)
    (hsorted : sorted.Pairwise fun a b => key a < key b)
    (hmem : ∀ a, a ∈ sorted ↔ a ∈ S ∧ Past key after a) :
    Page key S after (sorted.take limit)
      (if limit < sorted.length then (sorted.take limit).getLast?.map key else none) := by
  have hsplit : (sorted.take limit ++ sorted.drop limit).Pairwise fun a b => key a < key b := by
    rwa [List.take_append_drop]
  obtain ⟨htake, _, hcross⟩ := List.pairwise_append.mp hsplit
  have hfirst : ∀ a ∈ sorted.take limit, a ∈ S ∧ Past key after a :=
    fun a ha => (hmem a).mp (List.mem_of_mem_take ha)
  have hlast : ∀ c ∈ (if limit < sorted.length then (sorted.take limit).getLast?.map key else none),
      (∃ a ∈ sorted.take limit, key a = c) ∧ ∀ a ∈ sorted.take limit, key a ≤ c := by
    intro c hc
    split at hc
    · obtain ⟨b, hb, rfl⟩ := Option.map_eq_some_iff.mp hc
      obtain ⟨init, hinit⟩ := List.getLast?_eq_some_iff.mp hb
      refine ⟨⟨b, List.mem_of_getLast? hb, rfl⟩, fun a ha => ?_⟩
      rw [hinit] at ha htake
      rcases List.mem_append.mp ha with ha | ha
      · exact ((List.pairwise_append.mp htake).2.2 a ha b (List.mem_singleton_self b)).le
      · rw [List.mem_singleton.mp ha]
    · cases hc
  refine ⟨htake, fun a ha => (hfirst a ha).1, fun a ha => (hfirst a ha).2, fun a ha hpast => ?_,
    hlast⟩
  have hall := (hmem a).mpr ⟨ha, hpast⟩
  rw [← List.take_append_drop limit sorted] at hall
  refine (List.mem_append.mp hall).imp id fun hdrop => ?_
  have hlong : limit < sorted.length := by
    have hne := List.length_pos_of_mem hdrop
    rw [List.length_drop] at hne
    omega
  have hne : sorted.take limit ≠ [] := by
    intro hnil
    have hlength := List.length_take (i := limit) (l := sorted)
    rw [hnil, List.length_nil] at hlength
    omega
  refine ⟨key ((sorted.take limit).getLast hne), ?_, hcross _ (List.getLast_mem hne) a hdrop⟩
  rw [if_pos hlong, List.getLast?_eq_some_getLast hne]
  exact rfl

/-- What is served of a store's contents is a page of them. -/
def Paged (key : α → κ) (contents : σ → Set α)
    (served : σ → Option κ → List α → Option κ → Prop) : Prop :=
  ∀ s after rows next, served s after rows next → Page key (contents s) after rows next

/-- A listing from a place to its end: the contents each page is served of, and the rows of all. -/
inductive Listing (served : σ → Option κ → List α → Option κ → Prop) :
    Option κ → List σ → List α → Prop where
  | last {after : Option κ} {s : σ} {rows : List α} (hpage : served s after rows none) :
      Listing served after [s] rows
  | more {after : Option κ} {s : σ} {rows : List α} {c : κ} {tables : List σ} {rest : List α}
      (hpage : served s after rows (some c)) (hrest : Listing served (some c) tables rest) :
      Listing served after (s :: tables) (rows ++ rest)

/-- The place a page ends at follows the place it started at. -/
theorem Page.past_next {c : κ} (h : Page key S after rows (some c)) (ha : Past key (some c) a) :
    Past key after a := by
  obtain ⟨⟨b, hb, hc⟩, _⟩ := h.last c rfl
  have hpast := h.past b hb
  cases after with
  | none => trivial
  | some place => exact lt_trans (hpast.trans_eq hc) ha

/-- A listing's rows lie past where it began. -/
theorem Listing.past (hpaged : Paged key contents served) (h : Listing served after tables rows) :
    ∀ a ∈ rows, Past key after a := by
  induction h with
  | last hpage => exact (hpaged _ _ _ _ hpage).past
  | more hpage _ ih =>
    intro a ha
    rcases List.mem_append.mp ha with ha | ha
    · exact (hpaged _ _ _ _ hpage).past a ha
    · exact (hpaged _ _ _ _ hpage).past_next (ih a ha)

/-- The pages list in ascending order, one after the other: no row is repeated. -/
theorem Listing.ascending (hpaged : Paged key contents served)
    (h : Listing served after tables rows) : rows.Pairwise fun a b => key a < key b := by
  induction h with
  | last hpage => exact (hpaged _ _ _ _ hpage).ascending
  | more hpage hrest ih =>
    have hpage := hpaged _ _ _ _ hpage
    refine List.pairwise_append.mpr ⟨hpage.ascending, ih, fun a ha b hb => ?_⟩
    have hle := (hpage.last _ rfl).2 a ha
    have hlt := hrest.past hpaged b hb
    exact lt_of_le_of_lt hle hlt

/-- A row that is listed was stored at some page. -/
theorem Listing.stored (hpaged : Paged key contents served)
    (h : Listing served after tables rows) : ∀ a ∈ rows, ∃ s ∈ tables, a ∈ contents s := by
  induction h with
  | last hpage =>
    exact fun a ha => ⟨_, List.mem_singleton_self _, (hpaged _ _ _ _ hpage).stored a ha⟩
  | more hpage _ ih =>
    intro a ha
    rcases List.mem_append.mp ha with ha | ha
    · exact ⟨_, List.mem_cons_self, (hpaged _ _ _ _ hpage).stored a ha⟩
    · obtain ⟨s, hs, has⟩ := ih a ha
      exact ⟨s, List.mem_cons_of_mem _ hs, has⟩

/-- A row that is stored at every page is listed. -/
theorem Listing.listed (hpaged : Paged key contents served) (h : Listing served after tables rows)
    (ha : ∀ s ∈ tables, a ∈ contents s) (hpast : Past key after a) : a ∈ rows := by
  induction h with
  | last hpage =>
    obtain hrow | ⟨c, hc, _⟩ := (hpaged _ _ _ _ hpage).whole a (ha _ List.mem_cons_self) hpast
    · exact hrow
    · cases hc
  | more hpage _ ih =>
    obtain hrow | ⟨c, hc, hlt⟩ := (hpaged _ _ _ _ hpage).whole a (ha _ List.mem_cons_self) hpast
    · exact List.mem_append_left _ hrow
    · obtain rfl := Option.mem_some_iff.mp hc
      exact List.mem_append_right _ (ih (fun s hs => ha s (List.mem_cons_of_mem _ hs)) hlt)

/-- Over contents that do not change the listing ends. -/
theorem exists_listing (hpaged : Paged key contents served) {s : σ} (hfinite : (contents s).Finite)
    (valid : Option κ → Prop)
    (hserved : ∀ after, valid after →
      ∃ rows next, served s after rows next ∧ ∀ c ∈ next, valid (some c))
    (hvalid : valid after) : ∃ n rows, Listing served after (List.replicate n s) rows := by
  -- each page takes at least the row it ends at out of those that follow
  induction hk : {a ∈ contents s | Past key after a}.ncard using Nat.strong_induction_on
    generalizing after with
  | _ k ih =>
    obtain ⟨rows, next, hpage, hnext⟩ := hserved after hvalid
    cases next with
    | none => exact ⟨1, rows, Listing.last hpage⟩
    | some c =>
      have hof := hpaged _ _ _ _ hpage
      obtain ⟨⟨b, hb, hkey⟩, _⟩ := hof.last c rfl
      have hfewer : {a ∈ contents s | Past key (some c) a}.ncard <
          {a ∈ contents s | Past key after a}.ncard := by
        refine Set.ncard_lt_ncard ⟨fun a ha => ⟨ha.1, hof.past_next ha.2⟩, fun hsub => ?_⟩
          (hfinite.subset fun a ha => ha.1)
        have hself := (hsub ⟨hof.stored b hb, hof.past b hb⟩).2
        exact absurd hself (by simp [Past, hkey])
      obtain ⟨n, rest, hrest⟩ := ih _ (hk ▸ hfewer) (hnext c rfl) rfl
      exact ⟨n + 1, rows ++ rest, Listing.more hpage hrest⟩

end Keyset
