import Durablerun.Store.Deadlines
import Durablerun.Store.Instants

/-!
# What the columns hold

The guards that keep corrupt rows out ask that the stored counters and instants are in their bounds.
Every row the store itself wrote is: a claim raises the generation only below its bound, the latch
follows it, and a deadline is stored only where it fits the epoch.

Reference: `packages/core/src/contract.ts` and `packages/store-libsql/src/fragments.ts`.
-/

namespace Durablerun

open Relational

variable {s : Sys} {b : Batch} {seed : String} {now : ℤ} {db db' : Db} {call : Call} {t t' : Task}

/-! ## Runs -/

/-- The counters of a run are in their bounds, a running run has been claimed under a lease and has
an expiry, and a pending run has an instant. -/
structure Run.InBounds (r : Run) : Prop where
  claimGen : claimGenBounds.Within r.claimGen
  activatedGen : 0 ≤ r.activatedGen
  latched : r.activatedGen ≤ r.claimGen
  relaunchCount : relaunchCountBounds.Within r.relaunchCount
  claimed : r.state = .running → 1 ≤ r.claimGen
  leased : r.state = .running → leaseMsBounds.Stored r.leaseMs
  expires : r.state = .running → epochBounds.Stored r.claimExpiresAtMs
  available : r.state = .pending → r.availableAtMs ≠ none

/-- The bounds stay where the counters do and the run does not run. -/
theorem Run.InBounds.of_eq {r r' : Run} (h : r.InBounds) (hgen : r'.claimGen = r.claimGen)
    (hlatch : r'.activatedGen = r.activatedGen) (hcount : r'.relaunchCount = r.relaunchCount)
    (hrunning : r'.state ≠ .running) (hpending : r'.state = .pending → r'.availableAtMs ≠ none) :
    r'.InBounds := by
  refine ⟨?_, ?_, ?_, ?_, fun hst => absurd hst hrunning, fun hst => absurd hst hrunning,
    fun hst => absurd hst hrunning, hpending⟩
  · rw [hgen]
    exact h.claimGen
  · rw [hlatch]
    exact h.activatedGen
  · rw [hlatch, hgen]
    exact h.latched
  · rw [hcount]
    exact h.relaunchCount

/-- The bounds stay where only the lease's instant does not. -/
theorem Run.InBounds.extend {r r' : Run} (h : r.InBounds) (hgen : r'.claimGen = r.claimGen)
    (hlatch : 0 ≤ r'.activatedGen ∧ r'.activatedGen ≤ r.claimGen)
    (hcount : r'.relaunchCount = r.relaunchCount) (hlease : r'.leaseMs = r.leaseMs)
    (hrunning : r.state = .running) (hrunning' : r'.state = .running)
    (hexpires : epochBounds.Stored r'.claimExpiresAtMs) : r'.InBounds := by
  refine ⟨?_, hlatch.1, ?_, ?_, fun _ => ?_, fun _ => ?_, fun _ => hexpires, fun hst => ?_⟩
  · rw [hgen]
    exact h.claimGen
  · rw [hgen]
    exact hlatch.2
  · rw [hcount]
    exact h.relaunchCount
  · rw [hgen]
    exact h.claimed hrunning
  · rw [hlease]
    exact h.leased hrunning
  · rw [hrunning'] at hst
    cases hst

/-- An instant with room for a duration, and the duration added to it. -/
theorem epochAdditionFits.within {base delta : ℤ} (h : epochAdditionFits base delta)
    (hdelta : 0 ≤ delta) : epochBounds.Within (base + delta) := by
  obtain ⟨⟨hbase, _⟩, hfits⟩ := h
  refine ⟨Int.add_nonneg hbase hdelta, ?_⟩
  show base + delta ≤ MAX_EPOCH_MS
  omega

/-- A delivery of a valid call keeps a run in its bounds. -/
theorem Run.Move.inBounds {r r' : Run} (hm : Run.Move seed now db db' call r r') (hr : r ∈ db.runs)
    (hnow : 0 ≤ now) (hvalid : call.Valid) (h : r.InBounds) : r'.InBounds := by
  cases hm with
  | @claimed call _ hg =>
    have hcandidate := (hg.candidate hr).1
    obtain ⟨t, _, _, heligible⟩ := hcandidate.2.2.2
    -- The claim's eligibility leaves room for the next generation.
    have hgen : storedIncrementableInteger claimGenBounds r.claimGen := heligible.2.2.2.2.2.2.1
    have hraised : claimGenBounds.min ≤ r.claimGen ∧ r.claimGen ≤ claimGenBounds.max - 1 := hgen
    have hlease : positiveDurationBounds.Within call.leaseMs := hvalid.1
    have hlatched := h.latched
    refine ⟨⟨?_, ?_⟩, h.activatedGen, ?_, h.relaunchCount, fun _ => ?_, fun _ => ⟨_, rfl, hlease⟩,
      fun _ => ⟨_, rfl, hg.2.2.within ((le_of_lt Int.one_pos).trans hlease.1)⟩, nofun⟩
    · show claimGenBounds.min ≤ r.claimGen + 1
      omega
    · show r.claimGen + 1 ≤ claimGenBounds.max
      omega
    · show r.activatedGen ≤ r.claimGen + 1
      omega
    · show 1 ≤ r.claimGen + 1
      have hmin : (0 : ℤ) ≤ r.claimGen := hraised.1
      omega
  | @activated receipt _ hg =>
    have hrunning := hg.1.1.running
    have hgen : r.claimGen = receipt.claimGen := hg.1.2.1
    obtain ⟨lease, hlease, hfits⟩ := hg.2
    -- The lease that is extended is the one the claim stored.
    obtain ⟨stored, hstored, hbounds⟩ := h.leased hrunning
    obtain rfl := Option.mem_unique hlease hstored
    have hpositive : (0 : ℤ) ≤ receipt.claimGen := hgen ▸ h.claimGen.1
    refine h.extend rfl ⟨hpositive, hgen.ge⟩ rfl rfl hrunning hrunning ⟨now + lease, ?_, ?_⟩
    · exact Option.mem_map.mpr ⟨lease, hlease, rfl⟩
    · exact hfits.within ((le_of_lt Int.one_pos).trans hbounds.1)
  | extended hg =>
    have hrunning := hg.1.running
    exact h.extend rfl ⟨h.activatedGen, h.latched⟩ rfl rfl hrunning hrunning
      ⟨_, rfl, hg.2.2.within ((le_of_lt Int.one_pos).trans hvalid.1)⟩
  | leased hg =>
    have hrunning := hg.1.running
    exact h.extend rfl ⟨h.activatedGen, h.latched⟩ rfl rfl hrunning hrunning
      ⟨_, rfl, hg.2.2.2.2.2.1.within ((le_of_lt Int.one_pos).trans hvalid.1)⟩
  | expired hg =>
    have hrunning := hg.1.running
    obtain ⟨v, _, hbounds, hlt⟩ := hg.2.1
    exact h.extend rfl ⟨h.activatedGen, h.latched⟩ rfl rfl hrunning hrunning
      ⟨_, rfl, hnow, hlt.le.trans hbounds.2⟩
  | deferred | rescheduled | suspended =>
    refine h.of_eq rfl rfl rfl ?_ fun _ => Option.some_ne_none _
    exact (parkAssignments_queued seed .suspend _ now r).ne_running
  | awaited | completed | failed | capped | timedOut | cancelled =>
    exact h.of_eq rfl rfl rfl nofun nofun
  | @reopened swept _ hg =>
    -- A run at the cap is not relaunched, so the count stays within it.
    have hcount : r.relaunchCount < RELAUNCH_CAP := hg.2.2.1
    refine ⟨h.claimGen, h.activatedGen, h.latched, ⟨?_, ?_⟩, nofun, nofun, nofun,
      fun _ => Option.some_ne_none _⟩
    · show relaunchCountBounds.min ≤ r.relaunchCount + 1
      have hmin := h.relaunchCount.1
      omega
    · exact hcount
  | woken => exact h.of_eq rfl rfl rfl nofun fun _ => Option.some_ne_none _

/-- A run a batch adds is in its bounds. -/
theorem Run.Born.inBounds {p : Run} (h : Run.Born seed now db call p) : p.InBounds := by
  have hnew : ∀ p : Run, p.claimGen = 0 → p.activatedGen = 0 → p.relaunchCount = 0 →
      p.state ≠ .running → p.availableAtMs ≠ none → p.InBounds := by
    intro p hgen hlatch hcount hst havailable
    refine ⟨?_, hlatch.ge, ?_, ?_, fun hr => absurd hr hst, fun hr => absurd hr hst,
      fun hr => absurd hr hst, fun _ => havailable⟩
    · rw [hgen]
      decide
    · rw [hlatch, hgen]
    · rw [hcount]
      decide
  cases h with
  | first | revived => exact hnew _ rfl rfl rfl nofun (Option.some_ne_none _)
  | followed _ _ _ hq => exact hnew _ rfl rfl rfl hq.ne_running (Option.some_ne_none _)

/-! ## Tasks -/

/-- The stored policies of a task can be handed to a worker, and its deadline is an instant of the
epoch. -/
structure Task.InBounds (t : Task) : Prop where
  retryStrategy : t.retryStrategy.Valid
  headers : durableTaskHeadersAdmissible t
  cancelAt : ∀ v ∈ t.cancelAtMs, epochBounds.Within v

/-- A task within its bounds has an admissible retry strategy. -/
theorem Task.InBounds.retryAdmissible (h : t.InBounds) : durableTaskRetryAdmissible t := by
  have hvalid := h.retryStrategy
  unfold durableTaskRetryAdmissible
  cases hretry : t.retryStrategy with
  | none => trivial
  | fixed baseMs =>
    rw [hretry] at hvalid
    exact hvalid
  | exponential baseMs factor maxMs =>
    rw [hretry] at hvalid
    exact ⟨hvalid.1, hvalid.2.1, hvalid.2.2.1, hvalid.2.2.2⟩

/-- What a batch that is no activation makes of a task keeps its policies, and keeps its deadline or
clears it. -/
theorem Task.Move.policies {u : Task} (hm : Task.Move seed now db call t u)
    (hcall : ∀ receipt, call ≠ .activate receipt) :
    u.retryStrategy = t.retryStrategy ∧ u.headers = t.headers ∧
      (u.cancelAtMs = t.cancelAtMs ∨ u.cancelAtMs = none) := by
  cases hm with
  | started => exact absurd rfl (hcall _)
  | completed | cancelled => exact ⟨rfl, rfl, Or.inr rfl⟩
  | booked | followed | rollingBack | retrying | failed | infraRetried | revived =>
    exact ⟨rfl, rfl, Or.inl rfl⟩

/-- No batch but an activation takes a task out of its bounds. -/
theorem Task.Moved.inBounds (hm : Task.Moved seed now db call t t')
    (hcall : ∀ receipt, call ≠ .activate receipt) (h : t.InBounds) : t'.InBounds := by
  induction hm with
  | refl => exact h
  | tail _ hturn ih =>
    obtain ⟨u, _, _, hmove, rfl⟩ := hturn
    obtain ⟨hretry, hheaders, hcancel⟩ := hmove.policies hcall
    refine ⟨?_, ?_, fun v hv => ?_⟩
    · show u.retryStrategy.Valid
      rw [hretry]
      exact ih.retryStrategy
    · show ∀ headers ∈ u.headers, (headers.map Prod.fst).Nodup
      rw [hheaders]
      exact ih.headers
    · have hv : v ∈ u.cancelAtMs := hv
      obtain hsame | hnone := hcancel
      · exact ih.cancelAt v (hsame ▸ hv)
      · exact absurd (hnone ▸ hv) (Option.not_mem_none v)

/-- A first start stores a deadline that fits. -/
theorem startedTask_inBounds (h : t.InBounds) (hadmits : activationDurationAdmissible now t) :
    (startedTask seed now t).InBounds := by
  refine ⟨h.retryStrategy, h.headers, fun v hv => ?_⟩
  obtain ⟨d, hd, rfl⟩ := Option.mem_map.mp hv
  obtain ⟨⟨hpositive, _⟩, ⟨hbase, _⟩, hfits⟩ := hadmits d hd
  refine ⟨Int.add_nonneg hbase hpositive, ?_⟩
  show t.firstStartedAtMs.getD now + d ≤ MAX_EPOCH_MS
  omega

/-- A task a spawn adds is in its bounds. -/
theorem SpawnCall.task_inBounds {call : SpawnCall} (hvalid : call.Valid) (hnow : 0 ≤ now)
    (hg : spawnGuard db now call) : (call.task seed now).InBounds := by
  refine ⟨hvalid.retryStrategy, hvalid.headers, fun v hv => ?_⟩
  obtain ⟨d, hd, rfl⟩ := Option.mem_map.mp hv
  obtain ⟨policy, hpolicy, hdelay⟩ := Option.bind_eq_some_iff.mp hd
  obtain ⟨_, hfits⟩ := hg.2.2.1 d hd
  have hmax := (hvalid.cancellation policy hpolicy).1 d hdelay
  have hpositive := hvalid.delayMs.1
  refine ⟨?_, ?_⟩
  · exact Int.add_nonneg (Int.add_nonneg hnow hpositive) hmax.1
  · show now + call.delayMs + d ≤ MAX_EPOCH_MS
    omega

/-- What a delivery of a valid call leaves of the tasks is in its bounds. -/
theorem Delivers.tasks_inBounds (hd : Delivers s b now) (hnow : 0 ≤ now) (hvalid : b.call.Valid)
    (hdated : ∀ t ∈ s.db.tasks, t.Dated) (hstarted : Started s.db)
    (h : ∀ t ∈ s.db.tasks, t.InBounds) : ∀ t ∈ (b.after now s.db).tasks, t.InBounds := by
  intro t' ht'
  by_cases hcall : ∃ receipt, b.call = .activate receipt
  · obtain ⟨receipt, hcall⟩ := hcall
    obtain ⟨seed, call⟩ := b
    obtain rfl : call = .activate receipt := hcall
    have ht' : t' ∈ (activate seed receipt now s.db).db.tasks := ht'
    obtain ⟨r, t, hact⟩ | ⟨_, heq⟩ := activate_cases seed now hdated hstarted receipt
    · obtain rfl | ⟨ht', _⟩ := (hact.tasks t').mp ht'
      · obtain ⟨t₀, ht₀, hown, _, _, _, _, _, hadmits⟩ := hact.guard.1.2.2.2.2.2.2.2.2
        obtain rfl := s.db.task_unique ht₀ hact.task (hown.1.trans hact.owned.1.symm)
        exact startedTask_inBounds (h t₀ ht₀) hadmits
      · exact h t' ht'
    · rw [heq] at ht'
      exact h t' ht'
  · obtain ⟨t, ht, hmoved⟩ | hborn := hd.effect.tasks.before t' ht'
    · have hmoved : Task.Moved b.seed now s.db b.call t t' := hmoved
      exact hmoved.inBounds (fun receipt hr => hcall ⟨receipt, hr⟩) (h t ht)
    · obtain ⟨seed, call⟩ := b
      cases hborn with
      | spawned hg => exact SpawnCall.task_inBounds hvalid hnow hg

/-! ## Runs of the store -/

/-- Every stored instant is of the epoch, and every row in its bounds. -/
structure Wellformed (db : Db) : Prop where
  fromEpoch : db.FromEpoch
  runs : ∀ r ∈ db.runs, r.InBounds
  tasks : ∀ t ∈ db.tasks, t.InBounds

/-- Every row a run of valid calls reaches is within its bounds. -/
theorem Reachable.wellformed (h : Reachable Repeats s)
    (hvalid : ∀ e ∈ s.history, e.batch.call.Valid) : 0 ≤ s.clock ∧ Wellformed s.db := by
  refine h.induct_valid (P := fun s => 0 ≤ s.clock ∧ Wellformed s.db) hvalid ⟨le_rfl, ?_⟩
    fun s b now hreach hd hvalid ⟨hclock, hwell⟩ => ?_
  · exact ⟨.empty, fun r hr => absurd hr (Table.not_mem_empty r),
      fun t ht => absurd ht (Table.not_mem_empty t)⟩
  · have hagain : ∀ b db, Repeats b db → b.call.Repeatable := fun _ _ hrepeats => hrepeats
    have hnow : 0 ≤ now := hclock.trans hd.clock
    refine ⟨hnow, hd.fromEpoch hnow hvalid (fun r hr => (hwell.runs r hr).relaunchCount.1)
      hwell.fromEpoch, fun r' hr' => ?_, hd.tasks_inBounds hnow hvalid (hreach.dated hagain)
        (hreach.started hagain) hwell.tasks⟩
    obtain ⟨r, hr, rfl | hm⟩ | hborn := hd.effect.runs.before r' hr'
    · exact hwell.runs r' hr
    · exact hm.inBounds hr hnow hvalid (hwell.runs r hr)
    · exact hborn.inBounds

end Durablerun
