import Durablerun.Sdk.SagaOrder

/-!
# Passes over one store

What every reachable fleet keeps, under every step but the delivery of a pass's own saga call.

Reference: `packages/sdk/src/context.ts` and `packages/sdk/src/run-worker.ts`.
-/

namespace Durablerun

open Relational

variable {s : Sys} {b : Batch} {taskId key : String} {index : ℕ} {now : ℤ} {db db' : Db}
  {p p' : Pass} {f f' : Fleet}

/-! ## The invariant -/

/-- What every reachable fleet keeps. -/
structure FleetInv (f : Fleet) : Prop where
  reach : Reachable Repeats f.sys
  readable : Readable f.sys.db
  order : ∀ taskId, TopDown f.sys.db taskId
  committed : ∀ taskId, Committed f.sys taskId
  stops : ∀ e ∈ f.sys.history, ∀ taskId key, e.StopsAt taskId key → Stopped e.before taskId key
  stays : ∀ e ∈ f.sys.history, ∀ taskId key index, StartedAt e.before taskId key index →
    StartedAt f.sys.db taskId key index
  apart : f.passes.Pairwise fun p q => p.claim ≠ q.claim
  passes : ∀ p ∈ f.passes, PassInv f.sys p

/-- The store of a fleet is on its course. -/
theorem FleetInv.course (h : FleetInv f) : Course f.sys :=
  h.reach.course fun _ _ hrepeats => hrepeats

/-- Every checkpoint of a fleet's store has its owner there. -/
theorem FleetInv.owner (h : FleetInv f) : ∀ c ∈ f.sys.db.checkpoints, OwnerThere f.sys.db c :=
  h.reach.ownerThere fun _ _ hrepeats => hrepeats

/-- A fleet that starts has the invariant. -/
theorem FleetInv.init : FleetInv .init where
  reach := .init
  readable := ⟨fun c hc => absurd hc (Table.not_mem_empty c),
    fun c hc => absurd hc (Table.not_mem_empty c)⟩
  order := fun _ => ⟨fun _ _ _ ⟨c, hc, _⟩ => absurd hc (Table.not_mem_empty c),
    fun _ _ _ _ ⟨c, hc, _⟩ => absurd hc (Table.not_mem_empty c),
    fun _ ⟨c, hc, _⟩ => absurd hc (Table.not_mem_empty c)⟩
  committed := fun _ => ⟨fun _ => ⟨fun hno => absurd hno List.not_mem_nil,
    fun ⟨c, hc, _⟩ => absurd hc (Table.not_mem_empty c)⟩, .nil⟩
  stops := fun _ he => absurd he List.not_mem_nil
  stays := fun _ he => absurd he List.not_mem_nil
  apart := .nil
  passes := fun _ hp => absurd hp List.not_mem_nil

/-! ## Calls that are no saga call -/

/-- A call that may be repeated is no saga call. -/
theorem Call.Repeatable.plain {call : Call} (h : call.Repeatable) : call.Plain := by
  cases call with
  | spawn | claim | activate | heartbeat | awaitEvent | recordTaskDone | retryTask => trivial
  | deferLaunch | reschedule | suspendRun | emitEvent | setCheckpoint | complete | failInto
  | sweepLostLaunch | sweepClaimTimeout | cancelTransition | expireLeaseNow => exact h.elim

/-- Every text that is there after a delivery that leaves the prefixes alone was there before. -/
theorem Readable.same (h : Readable db) (hstarted : SameUnder SAGA_STARTED_PREFIX db db')
    (htries : SameUnder SAGA_TRIES_PREFIX db db') : Readable db' where
  started := fun c hc hnamed => h.started c ((hstarted c hnamed).mp hc) hnamed
  tries := fun c hc hnamed => h.tries c ((htries c hnamed).mp hc) hnamed

/-- A plain call commits no rollback's checkpoint, and fails no rollback. -/
theorem Call.Plain.rollbackOf {e : Delivery} (h : e.batch.call.Plain) :
    e.rollbackOf taskId = none := by
  unfold Delivery.rollbackOf
  split
  · rename_i hcall
    rw [hcall] at h
    exact if_neg fun hyes => h.2 hyes.2.1
  · rfl

/-- A call that is no saga call stops no rollback. -/
theorem Call.Plain.not_stopsAt {e : Delivery} (h : e.batch.call.Plain) :
    ¬ e.StopsAt taskId key := by
  rintro ⟨_, failure, rollback, hcall, _, hsome, _⟩
  rw [hcall] at h
  cases hsome.symm.trans h

/-- A delivery of a call that changes nothing of a saga keeps everything, whatever else it does. -/
theorem FleetInv.delivers (h : FleetInv f) (hd : Delivers f.sys b now)
    (hreach : Reachable Repeats (f.sys.deliver b now))
    (hstarted : SameUnder SAGA_STARTED_PREFIX f.sys.db (b.after now f.sys.db))
    (hrolled : SameUnder SAGA_ROLLBACK_PREFIX f.sys.db (b.after now f.sys.db))
    (hread : Readable (b.after now f.sys.db))
    (hof : ∀ taskId, (⟨b, now, f.sys.db, b.after now f.sys.db⟩ : Delivery).rollbackOf taskId = none)
    (hstop : ∀ taskId key, (⟨b, now, f.sys.db, b.after now f.sys.db⟩ : Delivery).StopsAt taskId key →
      Stopped f.sys.db taskId key)
    (hnone : ¬ Delivery.Retakes ⟨b, now, f.sys.db, b.after now f.sys.db⟩ f.sys.history) :
    FleetInv ⟨f.sys.deliver b now, f.passes⟩ where
  reach := hreach
  readable := hread
  order := fun taskId => (h.order taskId).of_same (fun _ _ => hstarted.startedAt)
    fun _ => hrolled.rolledBack
  committed := fun taskId => (h.committed taskId).of_same (hof taskId)
    (fun _ _ _ => hstarted.startedAt.mp) fun _ => hrolled.rolledBack
  stops := fun e he taskId key hstops => by
    obtain rfl | he := List.mem_cons.mp he
    · exact hstop taskId key hstops
    · exact h.stops e he taskId key hstops
  stays := fun e he taskId key index hstart => by
    obtain rfl | he := List.mem_cons.mp he
    · exact hstarted.startedAt.mpr hstart
    · exact hstarted.startedAt.mpr (h.stays e he taskId key index hstart)
  apart := h.apart
  passes := fun p hp => PassInv.deliver hd (h.passes p hp) hnone
    (fun _ _ => ⟨fun _ _ => hstarted.startedAt, fun _ => hrolled.rolledBack⟩)
    fun _ _ _ => hstarted.startedAt.mp

/-- A call that is no saga call keeps everything, when it takes no run again. -/
theorem FleetInv.plain (h : FleetInv f) (hd : Delivers f.sys b now)
    (hreach : Reachable Repeats (f.sys.deliver b now)) (hplain : b.call.Plain)
    (hnone : ¬ Delivery.Retakes ⟨b, now, f.sys.db, b.after now f.sys.db⟩ f.sys.history) :
    FleetInv ⟨f.sys.deliver b now, f.passes⟩ := by
  have hstarted := hd.effect.sameUnder_plain hplain (Or.inl rfl)
  have hrolled := hd.effect.sameUnder_plain hplain (Or.inr (Or.inl rfl))
  have htries := hd.effect.sameUnder_plain hplain (Or.inr (Or.inr rfl))
  exact h.delivers hd hreach hstarted hrolled (h.readable.same hstarted htries)
    (fun _ => hplain.rollbackOf) (fun _ _ hstops => absurd hstops hplain.not_stopsAt) hnone

/-! ## Activations -/

/-- The pass an activation starts. -/
theorem PassInv.start {s : Sys} (seed : String) {receipt : ClaimReceipt} {r : Run}
    (hr : r ∈ s.db.runs) (hguard : activateGuard s.db now receipt r) :
    PassInv (s.deliver ⟨seed, .activate receipt⟩ now) (.activated receipt r) := by
  have hholds : (Pass.activated receipt r).claim.Holds r := hguard.1.1
  have hwritten : activateAssignments seed receipt now r ∈
      (Batch.after ⟨seed, .activate receipt⟩ now s.db).runs := Table.mem_update_of_pos hr hguard
  refine ⟨⟨⟨fun _ _ hmem => absurd hmem List.not_mem_nil, fun _ _ hmem => absurd hmem List.not_mem_nil,
      Nat.zero_le _, rfl⟩, fun _ => rfl, fun _ hs => ?_, fun x hx => ?_, fun _ hs => ?_,
      fun hno => absurd rfl hno, fun x hx => ?_, fun x hx => ?_⟩, ?_, ?_, ?_, fun hstage => absurd rfl hstage,
    fun hcause => absurd rfl hcause, ?_⟩
  · cases hs
  · cases hx
  · cases hs
  · cases hx
  · cases hx
  · exact ⟨_, hwritten, hholds.1, rfl, rfl, hholds.2.1⟩
  · have hwon : (∃ r ∈ s.db.runs, activateGuard s.db now receipt r) := ⟨r, hr, hguard⟩
    exact ⟨receipt.claimGen, _, List.mem_cons_self, receipt, rfl, rfl, rfl, rfl, _, rfl,
      fun hlost => absurd ((wonBy_eq_some.mpr ⟨hwon, rfl⟩).symm.trans hlost) (Option.some_ne_none _)⟩
  · intro r' hr' hholds'
    obtain rfl := Db.run_unique hr' hwritten (hholds'.1.trans hholds.1.symm)
    exact hguard.1.2.1.le
  · rintro (hs | ⟨_, hs⟩)
    · cases hs
    · cases hs

/-- An activation that wins starts a pass of a claim no other pass has. -/
theorem FleetInv.activate (h : FleetInv f) {seed : String} {receipt : ClaimReceipt} {r : Run}
    (hd : Delivers f.sys ⟨seed, .activate receipt⟩ now)
    (hreach : Reachable Repeats (f.sys.deliver ⟨seed, .activate receipt⟩ now))
    (hr : r ∈ f.sys.db.runs) (hguard : activateGuard f.sys.db now receipt r) :
    FleetInv ⟨f.sys.deliver ⟨seed, .activate receipt⟩ now,
      f.passes ++ [.activated receipt r]⟩ := by
  have hplain : (Call.activate receipt).Plain := trivial
  have hinv := h.plain hd hreach hplain (Delivery.not_retakes fun c hc => by cases hc)
  have hnew := PassInv.start seed hr hguard
  refine ⟨hreach, hinv.readable, hinv.order, hinv.committed, hinv.stops, hinv.stays, ?_, fun p hp => ?_⟩
  · refine List.pairwise_append.mpr ⟨h.apart, List.pairwise_singleton _ _, fun p hp q hq heq => ?_⟩
    obtain rfl := List.mem_singleton.mp hq
    -- A pass of the claim has latched its generation.
    have hle := (h.passes p hp).latched r hr (heq ▸ hguard.1.1)
    exact absurd hguard.1.2.2.1 (not_lt.mpr (hguard.1.2.1 ▸ hle))
  · obtain hp | hp := List.mem_append.mp hp
    · exact hinv.passes p hp
    · rw [List.mem_singleton.mp hp]
      exact hnew

/-! ## One pass of the fleet -/

section Replace

variable {before after : List Pass}

/-- What holds of every pass holds after one of them went on, where it holds of that one. -/
theorem forall_replace {P : Pass → Prop} (h : ∀ q ∈ before ++ after, P q) (hp : P p') :
    ∀ q ∈ before ++ p' :: after, P q := by
  intro q hq
  obtain hq | hq := List.mem_append.mp hq
  · exact h q (List.mem_append_left _ hq)
  · obtain rfl | hq := List.mem_cons.mp hq
    · exact hp
    · exact h q (List.mem_append_right _ hq)

/-- The other passes are passes of the fleet. -/
theorem mem_of_replaced {q : Pass} (hq : q ∈ before ++ after) : q ∈ before ++ p :: after := by
  obtain hq | hq := List.mem_append.mp hq
  · exact List.mem_append_left _ hq
  · exact List.mem_append_right _ (List.mem_cons_of_mem _ hq)

/-- The claims stay apart when a pass goes on under its own. -/
theorem apart_replace (h : (before ++ p :: after).Pairwise fun q q' => q.claim ≠ q'.claim)
    (hclaim : p'.claim = p.claim) :
    (before ++ p' :: after).Pairwise fun q q' => q.claim ≠ q'.claim := by
  obtain ⟨hbefore, hafter, hapart⟩ := List.pairwise_append.mp h
  obtain ⟨hp, hafter⟩ := List.pairwise_cons.mp hafter
  refine List.pairwise_append.mpr ⟨hbefore, List.pairwise_cons.mpr ⟨?_, hafter⟩, ?_⟩
  · rw [hclaim]
    exact hp
  · intro q hq q' hq'
    obtain rfl | hq' := List.mem_cons.mp hq'
    · rw [hclaim]
      exact hapart q hq p List.mem_cons_self
    · exact hapart q hq q' (List.mem_cons_of_mem _ hq')

/-- The others are passes of other claims. -/
theorem apart_others (h : (before ++ p :: after).Pairwise fun q q' => q.claim ≠ q'.claim) {q : Pass}
    (hq : q ∈ before ++ after) : q.claim ≠ p.claim := by
  obtain ⟨_, hafter, hapart⟩ := List.pairwise_append.mp h
  obtain hq | hq := List.mem_append.mp hq
  · exact hapart q hq p List.mem_cons_self
  · exact ((List.pairwise_cons.mp hafter).1 q hq).symm

end Replace

/-- A turn of a pass keeps the fleet's invariant. -/
theorem FleetInv.turn (h : FleetInv f) {before after : List Pass}
    (hpasses : f.passes = before ++ p :: after) (hturn : p.Turn f.sys.db p') :
    FleetInv ⟨f.sys, before ++ p' :: after⟩ := by
  have hmem : ∀ q ∈ before ++ p :: after, PassInv f.sys q := hpasses ▸ h.passes
  refine ⟨h.reach, h.readable, h.order, h.committed, h.stops, h.stays, ?_, ?_⟩
  · exact apart_replace (hpasses ▸ h.apart) hturn.same.1
  · refine forall_replace (fun q hq => hmem q (mem_of_replaced hq)) ?_
    exact (hmem p List.mem_append_cons_self).turn hturn h.course.inv h.owner h.readable

end Durablerun
