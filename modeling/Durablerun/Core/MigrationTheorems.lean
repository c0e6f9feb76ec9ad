import Durablerun.Core.MigrationAlone
import Durablerun.Core.MigrationFenced

/-!
# Concurrent migration

Any number of migrators, of any builds of one line, interleave their version reads and their
batches. Any call may fail before it takes effect or after it, and any migrator may stop.

Reference: `packages/core/src/schema-version.ts`, `packages/store-libsql/src/admin.ts` and
`packages/store-mysql/src/admin.ts`.
-/

namespace Durablerun.Admin

open Js Program Sessions

variable {statementsOf : ℕ → List String} {ι : Type} [DecidableEq ι]

/-- Migrators on a database that was never initialized. -/
def migrators (migrate : Build → Migrator Unit) (builds : ι → Build) :
    Sessions ι Database Call Answer Failure :=
  ⟨fresh, fun i => migrate (builds i)⟩

/-- What concurrent migrators keep, whatever the dialect. -/
structure Migrates (start : Sessions ι Database Call Answer Failure) (current : ι → ℕ) : Prop where
  /-- The recorded version never decreases. -/
  grows : ∀ schedule s schedule' s', Runs Exec start schedule s → Runs Exec s schedule' s' →
    s.state.recorded ≤ s'.state.recorded
  /-- A migrator resolves only when the recorded version is its build's newest. -/
  resolves : ∀ schedule s i s', Runs Exec start schedule s → Step Exec i s s' →
    s'.program i = .pure () → s'.state.recorded = current i
  /-- The failure of a write is thrown unless the version, read again, has reached the first version
of its batch. -/
  rethrows : ∀ schedule s i batch statements next, Runs Exec start schedule s →
    s.program i = .call (.write batch statements) next → ∀ error, ∃ reread,
      next (.error error) = .call .version reread ∧
      (∀ answer version, decodeVersion answer = .ok version →
        (∀ v ∈ version, v < firstVersion batch) → reread answer = .throw error) ∧
      ∀ answer failure, decodeVersion answer = .error failure → reread answer = .throw failure
  /-- A migrator makes no more calls than some number, so its loops end. -/
  ends : ∀ i, ∃ n, ∀ schedule s, Runs Exec start schedule s → schedule.count i ≤ n

/-- Every version up to the recorded one has taken effect, once and in order, and these are the
versions with a row of their own. -/
structure Whole (statementsOf : ℕ → List String) (db : Database) : Prop where
  applied : ∀ v, (∃ rows ∈ db.metaRows, ∃ row ∈ rows, row.1 = appliedKey v) ↔
    1 ≤ v ∧ v ≤ db.recorded
  effects : db.effects = (List.range' 1 db.recorded).flatMap fun v => (statementsOf v).map (v, ·)

/-- A database at a version holds every migration up to it, whole. -/
theorem Fenced.AtVersion.whole {db : Database} (h : Fenced.AtVersion statementsOf db) :
    Whole statementsOf db := by
  obtain rfl | ⟨v, hv, rfl⟩ := h
  · refine ⟨fun v => iff_of_false ?_ ?_, rfl⟩
    · rintro ⟨rows, hrows, _⟩
      cases hrows
    · rintro ⟨hpos, hle⟩
      exact absurd hpos (Nat.not_lt.mpr hle)
  · refine ⟨fun n => ?_, ?_⟩
    · rw [Fenced.recorded_recordedAt hv, ← Fenced.mem_sentinels]
      constructor
      · rintro ⟨rows, hrows, row, hrow, hkey⟩
        obtain rfl := Option.some.inj hrows
        obtain rfl | hrow := List.mem_cons.mp hrow
        · exact absurd hkey.symm (appliedKey_ne n)
        · exact ⟨row, hrow, hkey⟩
      · rintro ⟨row, hrow, hkey⟩
        exact ⟨_, rfl, row, List.mem_cons_of_mem _ hrow, hkey⟩
    · rw [Fenced.recorded_recordedAt hv]
      rfl

/-! ## What a migrator owes -/

section Owes

variable {start s s' : Sessions ι Database Call Answer Failure} {current : ι → ℕ} {i : ι}
  {schedule : List ι}

/-- What a migrator owes is its own: no other's call changes it. -/
theorem Owes.kept : Kept Exec Owes.rules (fun _ : Database => True) (fun _ _ => True)
    (fun _ _ => True) where
  refl _ := trivial
  trans _ _ _ _ _ := trivial
  stable _ _ := trivial
  step _ _ _ _ := ⟨trivial, trivial, _, rfl, trivial⟩

/-- At any time a migrator owes something that all it has still to do pays. -/
theorem Owes.runs
    (h : ∀ i, Safe Owes.rules Owes.raises (fun owes _ => owes.Told (current i)) (.nothing none)
      (start.program i)) (hruns : Runs Exec start schedule s) (i : ι) :
    ∃ owes, Safe Owes.rules Owes.raises (fun owes _ => owes.Told (current i)) owes (s.program i) := by
  have hsound : Sound Owes.rules Owes.raises (fun i owes _ => owes.Told (current i)) (fun _ => True)
      (fun _ _ => True) start := ⟨trivial, fun i => ⟨_, trivial, h i⟩⟩
  obtain ⟨owes, _, hsafe⟩ := (hsound.runs Owes.kept hruns).1.safe i
  exact ⟨owes, hsafe⟩

/-- A call that leaves a version told was a read of the version that answered it. -/
theorem Owes.after_told {owes : Owes} {op : Call} {answer : Answer} {version : ℕ}
    (h : (owes.after op answer).Told version) :
    op = .version ∧ ∃ found, decodeVersion answer = .ok found ∧ found.getD 0 = version := by
  obtain ⟨answer', found, hafter, hdecoded, hfound⟩ := h
  have hlast : op = .version ∧ answer' = answer := by
    cases owes with
    | nothing last =>
      cases op with
      | version =>
        obtain ⟨_, rfl⟩ := Prod.mk.inj (Option.some.inj (Owes.nothing.inj hafter))
        exact ⟨rfl, rfl⟩
      | write batch statements =>
        cases answer with
        | ok results => cases (Prod.mk.inj (Option.some.inj (Owes.nothing.inj hafter))).1
        | error error => cases hafter
    | read minimum error =>
      cases op with
      | version =>
        change Owes.reread minimum error answer = _ at hafter
        unfold Owes.reread at hafter
        split at hafter
        · split at hafter
          · obtain ⟨_, rfl⟩ := Prod.mk.inj (Option.some.inj (Owes.nothing.inj hafter))
            exact ⟨rfl, rfl⟩
          · cases hafter
        · cases hafter
      | write batch statements =>
        cases (Prod.mk.inj (Option.some.inj (Owes.nothing.inj hafter))).1
    | rethrow error => cases hafter
  obtain ⟨rfl, rfl⟩ := hlast
  exact ⟨rfl, found, hdecoded, hfound⟩

/-- A migrator that owes an error throws it. -/
theorem Owes.eq_throw (version : ℕ) {p : Migrator Unit} {error : Failure}
    (h : Safe Owes.rules Owes.raises (fun owes _ => owes.Told version) (.rethrow error) p) :
    p = .throw error := by
  cases p with
  | pure value =>
    obtain ⟨_, _, howes, _⟩ := h
    cases howes
  | throw thrown => exact congrArg Program.throw h
  | call op next => exact h.1.elim

/-- A migrator that returns leaves the database at its own build's version. -/
theorem Owes.resolves
    (h : ∀ i, Safe Owes.rules Owes.raises (fun owes _ => owes.Told (current i)) (.nothing none)
      (start.program i)) (hruns : Runs Exec start schedule s) (hstep : Step Exec i s s')
    (hdone : s'.program i = .pure ()) : s'.state.recorded = current i := by
  obtain ⟨owes, hsafe⟩ := Owes.runs h hruns i
  obtain ⟨op, next, answer, hprogram, hexec, hself, _⟩ := hstep.cases
  rw [hprogram] at hsafe
  have hreturns := hsafe.2 answer _ rfl
  rw [← hself, hdone] at hreturns
  obtain ⟨rfl, found, hdecoded, hfound⟩ := Owes.after_told hreturns
  generalize hs : s.state = db at hexec
  generalize s'.state = db' at hexec
  cases hexec with
  | read =>
    unfold Database.recorded
    rw [told_of_ok hdecoded]
    exact hfound
  | readFails _ error herror =>
    cases error with
    | schemaNotInitialized => exact absurd rfl herror
    | schemaMismatch message => cases hdecoded
    | other what => cases hdecoded

/-- A migrator rethrows a batch's error where the version it then reads is still below the batch's.
-/
theorem Owes.rethrows
    (h : ∀ i, Safe Owes.rules Owes.raises (fun owes _ => owes.Told (current i)) (.nothing none)
      (start.program i)) (hruns : Runs Exec start schedule s) {batch statements : List Statement}
    {next : Answer → Migrator Unit} (hprogram : s.program i = .call (.write batch statements) next)
    (error : Failure) : ∃ reread, next (.error error) = .call .version reread ∧
      (∀ answer version, decodeVersion answer = .ok version →
        (∀ v ∈ version, v < firstVersion batch) → reread answer = .throw error) ∧
      ∀ answer failure, decodeVersion answer = .error failure → reread answer = .throw failure := by
  obtain ⟨owes, hsafe⟩ := Owes.runs h hruns i
  rw [hprogram] at hsafe
  obtain ⟨hmay, hnext⟩ := hsafe
  cases owes with
  | read minimum error => cases hmay
  | rethrow error => exact hmay.elim
  | nothing last =>
    have hfailed : Safe Owes.rules Owes.raises (fun owes _ => owes.Told (current i))
        (.read (firstVersion batch) error) (next (.error error)) := hnext (.error error) _ rfl
    -- The rules leave one call after a failed batch: the read of the version.
    cases hreread : next (.error error) with
    | pure value =>
      rw [hreread] at hfailed
      obtain ⟨_, _, hread, _⟩ := hfailed
      cases hread
    | throw thrown =>
      rw [hreread] at hfailed
      exact hfailed.elim
    | call op reread =>
      rw [hreread] at hfailed
      obtain ⟨rfl, hfailed⟩ := hfailed
      refine ⟨reread, rfl, fun answer version hdecoded hbehind => ?_,
        fun answer failure hdecoded => ?_⟩
      · refine Owes.eq_throw (current i) ?_
        have hread : Owes.reread (firstVersion batch) error answer = .rethrow error := by
          unfold Owes.reread
          rw [hdecoded]
          refine if_neg fun hreached => ?_
          cases version with
          | none => cases hreached
          | some v => exact absurd (hbehind v rfl) (Nat.not_lt.mpr (of_decide_eq_true hreached))
        exact hread ▸ hfailed answer _ rfl
      · refine Owes.eq_throw (current i) ?_
        have hread : Owes.reread (firstVersion batch) error answer = .rethrow failure := by
          unfold Owes.reread
          rw [hdecoded]
        exact hread ▸ hfailed answer _ rfl

/-- Programs that are safe, move a database only forward, and pay what they owe, migrate. -/
theorem migrates {K : Type} {R : Rules K Call Answer} {raises : K → Failure → Prop}
    {returns : ι → K → Unit → Prop} {inv : Database → Prop} {moves : Database → Database → Prop}
    {knows : K → Database → Prop} (hkept : Kept Exec R inv moves knows)
    (hsound : Sound R raises returns inv knows start)
    (hmoves : ∀ db db', moves db db' → db.recorded ≤ db'.recorded)
    (howes : ∀ i, Safe Owes.rules Owes.raises (fun owes _ => owes.Told (current i)) (.nothing none)
      (start.program i)) (hcalls : ∀ i, ∃ n, Calls n (start.program i)) : Migrates start current where
  grows schedule s schedule' s' hfirst hrest :=
    hmoves _ _ ((hsound.runs hkept hfirst).1.runs hkept hrest).2
  resolves schedule s i s' hruns hstep hdone := Owes.resolves howes hruns hstep hdone
  rethrows schedule s i batch statements next hruns hprogram error :=
    Owes.rethrows howes hruns hprogram error
  ends i := by
    obtain ⟨n, hn⟩ := hcalls i
    exact ⟨n, fun schedule s hruns => hruns.count_le hn⟩

end Owes

/-! ## The stores -/

/-- However the migrators of a store interleave: where a batch is a transaction, every version takes
effect once, in order and as a whole; where each statement commits alone, no version is recorded
before its statements have taken effect. -/
theorem concurrent_migration (statementsOf : ℕ → List String) (builds : ι → Build) :
    (Migrates (migrators (Fenced.migrate statementsOf) builds)
      (fun i => (builds i).CURRENT_SCHEMA_VERSION statementsOf) ∧
      ∀ schedule s, Runs Exec (migrators (Fenced.migrate statementsOf) builds) schedule s →
        Whole statementsOf s.state) ∧
    Migrates (migrators (Alone.migrate statementsOf) builds)
      (fun i => (builds i).CURRENT_SCHEMA_VERSION statementsOf) ∧
      ∀ schedule s, Runs Exec (migrators (Alone.migrate statementsOf) builds) schedule s →
        Alone.Complete statementsOf s.state := by
  refine ⟨⟨?_, fun schedule s hruns => ?_⟩, ?_, fun schedule s hruns => ?_⟩
  · exact migrates Fenced.kept (Fenced.sound builds) (fun _ _ h => h)
      (fun i => Fenced.owes_migrate (builds i)) fun i => Fenced.calls_migrate (builds i)
  · exact ((Fenced.sound builds).runs Fenced.kept hruns).1.inv.whole
  · exact migrates Alone.kept (Alone.sound builds) (fun _ _ h => h.recorded)
      (fun i => Alone.owes_migrate (builds i)) fun i => Alone.calls_migrate (builds i)
  · exact ((Alone.sound builds).runs Alone.kept hruns).1.inv.complete

end Durablerun.Admin
