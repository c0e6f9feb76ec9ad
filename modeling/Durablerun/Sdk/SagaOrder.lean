import Durablerun.Sdk.SagaPasses

/-!
# The order of a saga

What every reachable fleet keeps. The start indexes of a task are apart, the steps that are rolled
back are those that started last, and their checkpoints were committed from the last one down; a pass
whose claim is held knows all of it.

Reference: `packages/sdk/src/context.ts`.
-/

namespace Durablerun

open Relational

variable {s : Sys} {b : Batch} {taskId key : String} {index : ℕ} {now : ℤ} {db db' : Db}
  {p p' : Pass} {f f' : Fleet}

/-! ## What the store holds of a saga -/

/-- Indexes are apart, and the steps that are rolled back are the ones that started last. -/
structure TopDown (db : Db) (taskId : String) : Prop where
  distinct : ∀ key key' index, StartedAt db taskId key index → StartedAt db taskId key' index →
    key = key'
  upward : ∀ key key' index index', RolledBack db taskId key → StartedAt db taskId key index →
    StartedAt db taskId key' index' → index < index' → RolledBack db taskId key'
  started : ∀ key, RolledBack db taskId key → ∃ index, StartedAt db taskId key index

/-- Every step that started is rolled back. -/
def Complete (db : Db) (taskId : String) : Prop :=
  ∀ key index, StartedAt db taskId key index → RolledBack db taskId key

/-- Every step that started after this one is rolled back, and neither it nor one before it is. -/
def Stopped (db : Db) (taskId key : String) : Prop :=
  ∃ index, StartedAt db taskId key index ∧
    ∀ key' index', StartedAt db taskId key' index' → (RolledBack db taskId key' ↔ index < index')

/-- The step whose rollback's checkpoint the delivery committed. -/
def Delivery.rollbackOf (e : Delivery) (taskId : String) : Option String :=
  match e.batch.call with
  | .setCheckpoint _ owner write _ =>
    if owner = taskId ∧ namedUnder write.key SAGA_ROLLBACK_PREFIX ∧
        e.batch.wins e.now e.before = true then
      some (keyUnder write.key SAGA_ROLLBACK_PREFIX)
    else none
  | _ => none

/-- A start marker the delivery is of has an index it can be read with. -/
def Delivery.Counts (e : Delivery) : Prop :=
  ∀ {held taskId key index extendMs}, e.batch.call = .setCheckpoint held taskId
    ⟨SAGA_STARTED_PREFIX ++ key, encodeStartIndex index⟩ extendMs → index ≤ MAX_SAFE_INTEGER

/-- The steps whose rollbacks' checkpoints were committed, the first one first. -/
def committedRollbacks (history : List Delivery) (taskId : String) : List String :=
  history.reverse.filterMap (Delivery.rollbackOf · taskId)

/-- The delivery failed the rollback of a step of the task. -/
def Delivery.StopsAt (e : Delivery) (taskId key : String) : Prop :=
  e.batch.wins e.now e.before = true ∧ ∃ failure rollback, e.batch.call = .failInto failure ∧
    failure.taskId = taskId ∧ failure.rollback = some rollback ∧
      rollback.tried.key = rollbackTriesName key

/-- The checkpoints that were committed are the steps that are rolled back, each of a lower index than
the one before. -/
structure Committed (s : Sys) (taskId : String) : Prop where
  rows : ∀ key, key ∈ committedRollbacks s.history taskId ↔ RolledBack s.db taskId key
  descending : (committedRollbacks s.history taskId).Pairwise fun key key' => ∀ index index',
    StartedAt s.db taskId key index → StartedAt s.db taskId key' index' → index' < index

/-- A delivery commits the rollback it writes, or none. -/
theorem committedRollbacks_deliver : committedRollbacks (s.deliver b now).history taskId =
    committedRollbacks s.history taskId ++
      ((⟨b, now, s.db, b.after now s.db⟩ : Delivery).rollbackOf taskId).toList := by
  unfold committedRollbacks Sys.deliver
  rw [List.reverse_cons, List.filterMap_append]
  cases hof : (⟨b, now, s.db, b.after now s.db⟩ : Delivery).rollbackOf taskId with
  | none => simp [hof]
  | some key => simp [hof]

/-- An order from the top down stays where the markers and the rollbacks do. -/
theorem TopDown.of_same (h : TopDown db taskId)
    (hstarted : ∀ key index, StartedAt db' taskId key index ↔ StartedAt db taskId key index)
    (hrolled : ∀ key, RolledBack db' taskId key ↔ RolledBack db taskId key) :
    TopDown db' taskId where
  distinct := fun key key' index => by
    simp only [hstarted]
    exact h.distinct key key' index
  upward := fun key key' index index' => by
    simp only [hstarted, hrolled]
    exact h.upward key key' index index'
  started := fun key => by
    simp only [hstarted, hrolled]
    exact h.started key

/-- A delivery that rolls no step back keeps the order of the rollbacks, when it starts none that is
rolled back. -/
theorem Committed.of_same (h : Committed s taskId)
    (hof : (⟨b, now, s.db, b.after now s.db⟩ : Delivery).rollbackOf taskId = none)
    (hstarted : ∀ key index, RolledBack s.db taskId key →
      StartedAt (b.after now s.db) taskId key index → StartedAt s.db taskId key index)
    (hrolled : ∀ key, RolledBack (b.after now s.db) taskId key ↔ RolledBack s.db taskId key) :
    Committed (s.deliver b now) taskId := by
  have hlist : committedRollbacks (s.deliver b now).history taskId =
      committedRollbacks s.history taskId := by
    rw [committedRollbacks_deliver, hof]
    exact List.append_nil _
  refine ⟨fun key => ?_, ?_⟩
  · rw [hlist]
    exact (h.rows key).trans (hrolled key).symm
  · rw [hlist]
    refine h.descending.imp_of_mem fun hmem hmem' hlt index index' hi hi' => ?_
    exact hlt index index' (hstarted _ _ ((h.rows _).mp hmem) hi)
      (hstarted _ _ ((h.rows _).mp hmem') hi')

/-- The step that started last among those not rolled back. -/
def LastStarted (db : Db) (taskId key : String) : Prop :=
  ∃ index, StartedAt db taskId key index ∧ ¬ RolledBack db taskId key ∧
    ∀ key' index', StartedAt db taskId key' index' → ¬ RolledBack db taskId key' → index' ≤ index

/-- The steps rolled back are those that started after the last one that is not. -/
theorem TopDown.stopped (h : TopDown db taskId) (hlast : LastStarted db taskId key) :
    Stopped db taskId key := by
  obtain ⟨index, hstarted, hno, hmax⟩ := hlast
  refine ⟨index, hstarted, fun key' index' hstarted' => ⟨fun hrolled => ?_, fun hlt => ?_⟩⟩
  · obtain hlt | rfl | hlt := lt_trichotomy index' index
    · exact absurd (h.upward key' key index' index hrolled hstarted' hstarted hlt) hno
    · exact absurd (h.distinct key' key index' hstarted' hstarted ▸ hrolled) hno
    · exact hlt
  · by_contra hno'
    exact absurd (hmax key' index' hstarted' hno') (not_le.mpr hlt)

/-- A step that starts past every other, while none is rolled back, keeps the order. -/
theorem TopDown.start (h : TopDown db taskId) (hno : ∀ key, ¬ RolledBack db taskId key)
    (hlt : ∀ key' index', StartedAt db taskId key' index' → index' < index)
    (hstarted : ∀ key' index', StartedAt db' taskId key' index' ↔
      StartedAt db taskId key' index' ∨ key' = key ∧ index' = index)
    (hrolled : ∀ key, RolledBack db' taskId key ↔ RolledBack db taskId key) :
    TopDown db' taskId where
  distinct := fun key₁ key₂ i h₁ h₂ => by
    obtain h₁ | ⟨rfl, rfl⟩ := (hstarted key₁ i).mp h₁ <;>
      obtain h₂ | ⟨rfl, hi⟩ := (hstarted key₂ i).mp h₂
    · exact h.distinct key₁ key₂ i h₁ h₂
    · exact absurd (hlt key₁ i h₁) (hi ▸ lt_irrefl _)
    · exact absurd (hlt key₂ i h₂) (lt_irrefl _)
    · rfl
  upward := fun key₁ _ _ _ hyes => absurd ((hrolled key₁).mp hyes) (hno key₁)
  started := fun key₁ hyes => absurd ((hrolled key₁).mp hyes) (hno key₁)

section Roll

variable (h : TopDown db taskId) (hlast : LastStarted db taskId key)
include h hlast

/-- The rollback of the step that started last among those not rolled back keeps the order. -/
theorem TopDown.roll
    (hstarted : ∀ key' index', StartedAt db' taskId key' index' ↔ StartedAt db taskId key' index')
    (hrolled : ∀ key', RolledBack db' taskId key' ↔ RolledBack db taskId key' ∨ key' = key) :
    TopDown db' taskId where
  distinct := fun key₁ key₂ i => by
    simp only [hstarted]
    exact h.distinct key₁ key₂ i
  upward := fun key₁ key₂ i₁ i₂ => by
    simp only [hstarted, hrolled]
    rintro (hyes | rfl) h₁ h₂ hlt
    · exact Or.inl (h.upward key₁ key₂ i₁ i₂ hyes h₁ h₂ hlt)
    · obtain ⟨index, hindex, _, hmax⟩ := hlast
      obtain rfl := hindex.unique h₁
      by_contra hno
      exact absurd (hmax key₂ i₂ h₂ fun hyes => hno (Or.inl hyes)) (not_le.mpr hlt)
  started := fun key₁ => by
    simp only [hstarted, hrolled]
    rintro (hyes | rfl)
    · exact h.started key₁ hyes
    · exact hlast.imp fun _ hindex => hindex.1

/-- A step that is rolled back started after it. -/
theorem TopDown.after {key' : String} {index' : ℕ} (hyes : RolledBack db taskId key')
    (hstarted : StartedAt db taskId key index) (hstarted' : StartedAt db taskId key' index') :
    index < index' := by
  obtain ⟨i, hi, hiff⟩ := h.stopped hlast
  obtain rfl := hi.unique hstarted
  exact (hiff key' index' hstarted').mp hyes

end Roll

/-- A delivery that rolls back the step that started last among those not rolled back keeps the order
of the rollbacks. -/
theorem Committed.roll (h : Committed s taskId) (htop : TopDown s.db taskId)
    (hlast : LastStarted s.db taskId key)
    (hof : (⟨b, now, s.db, b.after now s.db⟩ : Delivery).rollbackOf taskId = some key)
    (hstarted : ∀ key' index', StartedAt (b.after now s.db) taskId key' index' ↔
      StartedAt s.db taskId key' index')
    (hrolled : ∀ key', RolledBack (b.after now s.db) taskId key' ↔
      RolledBack s.db taskId key' ∨ key' = key) :
    Committed (s.deliver b now) taskId := by
  have hlist : committedRollbacks (s.deliver b now).history taskId =
      committedRollbacks s.history taskId ++ [key] := by
    rw [committedRollbacks_deliver, hof]
    rfl
  refine ⟨fun key' => ?_, ?_⟩
  · rw [hlist, List.mem_append, List.mem_singleton, h.rows]
    exact (hrolled key').symm
  · rw [hlist, List.pairwise_append]
    refine ⟨h.descending.imp fun hlt index index' hi hi' =>
      hlt index index' ((hstarted _ _).mp hi) ((hstarted _ _).mp hi'), List.pairwise_singleton _ _, ?_⟩
    intro key' hmem _ hlast' index index' hi hi'
    obtain rfl := List.mem_singleton.mp hlast'
    exact htop.after hlast ((h.rows key').mp hmem) ((hstarted _ _).mp hi') ((hstarted _ _).mp hi)

/-! ## A pass over the store -/

/-- The pass reported its saga done, or the store took the end of it. -/
def Pass.Finished (p : Pass) : Prop :=
  p.stage = .over (some .rolledBack) ∨ p.Landed .fail

/-- The pass knows what the store holds of its saga. -/
structure Synced (db : Db) (p : Pass) : Prop where
  started : ∀ key index, StartedAt db p.taskId key index ↔ p.Knows key index
  rolledBack : ∀ key, RolledBack db p.taskId key ↔ p.Ran key

/-- What holds of a pass over a store: its run is there, it was started under its claim, the claim's
generation is activated while it is held, and while it is held the pass knows its saga. -/
structure PassInv (s : Sys) (p : Pass) : Prop extends p.Sound where
  there : ∃ r ∈ s.db.runs, r.runId = p.claim.runId ∧ r.taskId = p.taskId ∧ r.attempt = p.attempt ∧
    r.queue = p.claim.queue
  opened : p.claim.Opened s.history
  latched : ∀ r ∈ s.db.runs, p.claim.Holds r → r.claimGen ≤ r.activatedGen
  synced : p.stage ≠ .activated → p.claim.HeldIn s.db → Synced s.db p
  saga : p.ctx.sagaCauseJson ≠ none → sagaBegan s.db p.taskId
  finished : p.Finished → Complete s.db p.taskId ∧ sagaBegan s.db p.taskId

/-- The run a pass holds is its own. -/
theorem PassInv.run (h : PassInv s p) {r : Run} (hr : r ∈ s.db.runs) (hholds : p.claim.Holds r) :
    r.taskId = p.taskId ∧ r.attempt = p.attempt := by
  obtain ⟨r', hr', hid, htask, hat, _⟩ := h.there
  obtain rfl := s.db.run_unique hr hr' (hholds.1.trans hid.symm)
  exact ⟨htask, hat⟩

/-- No two passes of a task hold it. -/
theorem PassInv.alone (h : PassInv s p) (h' : PassInv s p') (hinv : Inv s.db)
    (hheld : p.claim.HeldIn s.db) (hheld' : p'.claim.HeldIn s.db) (htask : p.taskId = p'.taskId) :
    p.claim = p'.claim := by
  obtain ⟨r, hr, hholds⟩ := hheld
  obtain ⟨r', hr', hholds'⟩ := hheld'
  exact hinv.held_unique hr hr' ((h.run hr hholds).1.trans (htask.trans (h'.run hr' hholds').1.symm))
    hholds hholds'

/-- Checkpoints stay. -/
theorem Effect.hasCheckpoint {seed name : String} {call : Call} (h : Effect seed now db db' call)
    (hthere : HasCheckpoint db taskId name) : HasCheckpoint db' taskId name := by
  obtain ⟨c, hc, hid, hname⟩ := hthere
  obtain ⟨c', hc', hid', hname', _⟩ := h.ownersRise c hc
  exact ⟨c', hc', hid'.trans hid, hname'.trans hname⟩

section Deliver

variable (hd : Delivers s b now) (h : PassInv s p)
  (hnone : ¬ Delivery.Retakes ⟨b, now, s.db, b.after now s.db⟩ s.history)
include hd h hnone

/-- A delivery that takes no run again keeps what holds of it, when what the pass
knows and what it awaits follow what the delivery did. -/
theorem PassInv.carry (sent : Option Sent) (hsound : ({ p with sent } : Pass).Sound)
    (hsynced : p.stage ≠ .activated → p.claim.HeldIn s.db → Synced s.db p →
      Synced (b.after now s.db) { p with sent })
    (hfinished : ({ p with sent } : Pass).Finished →
      Complete (b.after now s.db) p.taskId ∧ sagaBegan (b.after now s.db) p.taskId) :
    PassInv (s.deliver b now) { p with sent } where
  toSound := hsound
  there := by
    obtain ⟨r, hr, hid, htask, hat, hq⟩ := h.there
    obtain ⟨r', hr', hsame⟩ := hd.effect.same_run hr
    exact ⟨r', hr', hsame.runId.trans hid, hsame.taskId.trans htask, hsame.attempt.trans hat,
      hsame.queue.trans hq⟩
  opened := h.opened.deliver
  latched := fun r' hr' hholds => by
    obtain ⟨r, hr, hholds₀, hholding, hle⟩ := hd.held_before hnone h.opened hr' hholds
    rw [hholding.claimGen]
    exact (h.latched r hr hholds₀).trans hle
  synced := fun hstage ⟨r', hr', hholds⟩ => by
    obtain ⟨r, hr, hholds₀, _⟩ := hd.held_before hnone h.opened hr' hholds
    exact hsynced hstage ⟨r, hr, hholds₀⟩ (h.synced hstage ⟨r, hr, hholds₀⟩)
  saga := fun hcause => hd.effect.sagaBegan (h.saga hcause)
  finished := hfinished

omit hnone in
/-- A saga that is done stays done, when no step of it starts. -/
theorem PassInv.stays (hforward : sagaBegan s.db p.taskId → ∀ key index,
      StartedAt (b.after now s.db) p.taskId key index → StartedAt s.db p.taskId key index)
    (hfinished : p.Finished) :
    Complete (b.after now s.db) p.taskId ∧ sagaBegan (b.after now s.db) p.taskId := by
  obtain ⟨hcomplete, hsaga⟩ := h.finished hfinished
  refine ⟨fun key index hstarted => ?_, hd.effect.sagaBegan hsaga⟩
  exact hd.effect.hasCheckpoint (hcomplete key index (hforward hsaga key index hstarted))

/-- A delivery keeps what holds of a pass it is not of, when it changes nothing of the saga under a
claim that is held, and starts no step of a saga that began. -/
theorem PassInv.deliver (hsame : p.stage ≠ .activated → p.claim.HeldIn s.db →
      (∀ key index, StartedAt (b.after now s.db) p.taskId key index ↔
        StartedAt s.db p.taskId key index) ∧
      ∀ key, RolledBack (b.after now s.db) p.taskId key ↔ RolledBack s.db p.taskId key)
    (hforward : sagaBegan s.db p.taskId → ∀ key index,
      StartedAt (b.after now s.db) p.taskId key index → StartedAt s.db p.taskId key index) :
    PassInv (s.deliver b now) p := by
  refine h.carry hd hnone p.sent h.toSound (fun hstage hheld hsynced => ?_) (h.stays hd hforward)
  obtain ⟨hstarted, hrolled⟩ := hsame hstage hheld
  exact ⟨fun key index => (hstarted key index).trans (hsynced.started key index),
    fun key => (hrolled key).trans (hsynced.rolledBack key)⟩

end Deliver

/-! ## Turns -/

/-- Checkpoints a held pass reads are all there are of its task. -/
theorem getCheckpoints_held (h : Inv db) (howner : ∀ c ∈ db.checkpoints, OwnerThere db c)
    {held : WorkerClaim} {r : Run} (hr : r ∈ db.runs) (hholds : held.Holds r)
    {cp : CommittedCheckpoint} : cp ∈ getCheckpoints db held.queue r.taskId r.attempt ↔
      ∃ c ∈ db.checkpoints, c.taskId = r.taskId ∧ c.committed = cp := by
  obtain ⟨t, ht, hown⟩ := h.owner r hr
  have htop : ∀ r' ∈ db.runs, r'.taskId = r.taskId → r'.attempt ≤ r.attempt := fun r' hr' hid =>
    (h.settled t ht).le_live hr' (hid.trans hown.1.symm) hr hown.1.symm (by simp [hholds.running])
  have hperm := getCheckpoints_perm h howner hr htop
  rw [← hholds.2.1, hperm.mem_iff, List.mem_map]
  simp only [List.mem_filter, decide_eq_true_eq, and_assoc]
  exact Iff.rfl

/-- A pass that reads its checkpoints knows its saga. -/
theorem PassInv.read (h : PassInv s p) (hinv : Inv s.db)
    (howner : ∀ c ∈ s.db.checkpoints, OwnerThere s.db c) (hsent : p.sent = none) :
    p.claim.HeldIn s.db → Synced s.db { p with
      ctx := .new (getCheckpoints s.db p.claim.queue p.taskId p.attempt)
      stage := .code } := by
  rintro ⟨r, hr, hholds⟩
  obtain ⟨htask, hat⟩ := h.run hr hholds
  have hread : ∀ cp, cp ∈ getCheckpoints s.db p.claim.queue p.taskId p.attempt ↔
      ∃ c ∈ s.db.checkpoints, c.taskId = p.taskId ∧ c.committed = cp := by
    intro cp
    rw [← htask, ← hat]
    exact getCheckpoints_held hinv howner hr hholds
  have hlanded : ∀ (q : Pass) call, q.sent = none → ¬ q.Landed call := by
    rintro q call hnone ⟨b, hsent⟩
    cases hnone.symm.trans hsent
  refine ⟨fun key index => ?_, fun key => ?_⟩
  · have hmem : (key, index) ∈ (ReplayContext.new
        (getCheckpoints s.db p.claim.queue p.taskId p.attempt)).startIndexes ↔ _ :=
      mem_startIndexes_foldl
    refine Iff.trans ?_ (or_iff_left (hlanded _ _ hsent)).symm
    rw [hmem]
    constructor
    · rintro ⟨c, hc, hid, hname, hindex⟩
      exact Or.inr ⟨c.committed, (hread _).mpr ⟨c, hc, hid, rfl⟩, hname, hindex⟩
    · rintro (hno | ⟨cp, hcp, hname, hindex⟩)
      · exact absurd hno List.not_mem_nil
      · obtain ⟨c, hc, hid, rfl⟩ := (hread cp).mp hcp
        exact ⟨c, hc, hid, hname, hindex⟩
  · have hmem : key ∈ (ReplayContext.new
        (getCheckpoints s.db p.claim.queue p.taskId p.attempt)).rolledBack ↔ _ :=
      mem_rolledBack_foldl
    refine Iff.trans ?_ (or_iff_left (hlanded _ _ hsent)).symm
    rw [hmem]
    constructor
    · rintro ⟨c, hc, hid, hname⟩
      exact Or.inr ⟨c.committed, (hread _).mpr ⟨c, hc, hid, rfl⟩, hname⟩
    · rintro (hno | ⟨cp, hcp, hname⟩)
      · exact absurd hno List.not_mem_nil
      · obtain ⟨c, hc, hid, rfl⟩ := (hread cp).mp hcp
        exact ⟨c, hc, hid, hname⟩

/-- A turn reports a saga done only when the store took the end of it. -/
theorem Pass.Turn.reports (hturn : p.Turn db p') (hfinished : p'.Finished) :
    p.Finished := by
  have hpending : ∀ {q : Pass} {call : SagaCall} {b : Batch}, ¬ (q.send call b).Finished := by
    rintro q call b (hstage | ⟨b', hsent⟩)
    · cases hstage
    · cases hsent
  cases hturn with
  | read hs =>
    obtain hstage | hlanded := hfinished
    · cases hstage
    · exact Or.inr hlanded
  | start | ran | threw | rollbackRefused | halt | finish => exact absurd hfinished hpending
  | started | startRefused | rolledBack =>
    obtain hstage | ⟨b, hsent⟩ := hfinished
    · cases hstage
    · cases hsent
  | startCut | run =>
    obtain hstage | hlanded := hfinished
    · cases hstage
    · exact Or.inr hlanded
  | restart | stepped | memo | cut | register => exact hfinished
  | rollbackFailed key b outcome hs hsent houtcome =>
    obtain hstage | hlanded := hfinished
    · obtain rfl := Option.some.inj (Stage.over.inj hstage)
      obtain heq | heq := houtcome <;> cases heq
    · exact Or.inr hlanded
  | finished b hs hsent => exact Or.inr ⟨b, hsent⟩
  | crash =>
    obtain hstage | hlanded := hfinished
    · cases hstage
    · exact Or.inr hlanded

/-- A turn past the read leaves the cause. -/
theorem Pass.Turn.cause (hturn : p.Turn db p') (hstage : p.stage ≠ .activated) :
    p'.ctx.sagaCauseJson = p.ctx.sagaCauseJson ∧ p'.stage ≠ .activated := by
  cases hturn with
  | read hs => exact absurd hs hstage
  | restart | stepped | memo | cut | register => exact ⟨rfl, hstage⟩
  | start | started | startCut | startRefused | run | ran | rolledBack | threw | rollbackRefused | halt
  | finish | rollbackFailed | finished | crash => exact ⟨rfl, fun hs => by cases hs⟩

/-- An activated pass reads its checkpoints. -/
theorem Pass.Turn.activated (hturn : p.Turn db p') (hstage : p.stage = .activated) : p' = { p with
    ctx := .new (getCheckpoints db p.claim.queue p.taskId p.attempt)
    stage := .code } := by
  cases hturn with
  | read => rfl
  | stepped hs | restart _ hs | start _ _ hs | started _ _ _ hs | startCut _ _ hs
  | startRefused _ _ hs | run _ hs | ran _ _ hs | rolledBack _ _ hs | threw _ _ hs
  | rollbackRefused _ _ hs | halt _ _ hs | finish _ hs | rollbackFailed _ _ _ hs
  | finished _ hs => cases hstage.symm.trans hs
  | memo _ hs | cut hs | register _ hs | crash hs => exact absurd hstage hs

/-- A pass that reads a cause reads it of a saga that began. -/
theorem Pass.Turn.began (hturn : p.Turn db p') (hstage : p.stage = .activated)
    (hcause : p'.ctx.sagaCauseJson ≠ none) : sagaBegan db p.taskId := by
  obtain rfl := hturn.activated hstage
  obtain hno | ⟨cp, hcp, hname⟩ := sagaCauseJson_foldl hcause
  · exact absurd rfl hno
  · obtain ⟨c, hc, hid, rfl⟩ := mem_getCheckpoints hcp
    exact ⟨c, hc, hid, hname⟩

/-- A turn of a pass keeps what holds of it. -/
theorem PassInv.turn (h : PassInv s p) (hturn : p.Turn s.db p') (hinv : Inv s.db)
    (howner : ∀ c ∈ s.db.checkpoints, OwnerThere s.db c) (hread : Readable s.db) : PassInv s p' := by
  obtain ⟨hclaim, htask, hat⟩ := hturn.same
  have hfinished := hturn.reports
  refine ⟨hturn.sound h.toSound hread, ?_, ?_, ?_, ?_, ?_, fun hf => ?_⟩
  · rw [hclaim, htask, hat]
    exact h.there
  · rw [hclaim]
    exact h.opened
  · rw [hclaim]
    exact h.latched
  · intro hstage' hheld
    rw [hclaim] at hheld
    by_cases hstage : p.stage = .activated
    · obtain rfl := hturn.activated hstage
      exact h.read hinv howner (h.activated hstage) hheld
    · obtain ⟨hknows, hran⟩ := hturn.knows h.toSound hstage
      have hsynced := h.synced hstage hheld
      refine ⟨fun key index => ?_, fun key => ?_⟩
      · rw [htask, hknows]
        exact hsynced.started key index
      · rw [htask, hran]
        exact hsynced.rolledBack key
  · intro hcause
    rw [htask]
    by_cases hstage : p.stage = .activated
    · exact hturn.began hstage hcause
    · exact h.saga ((hturn.cause hstage).1 ▸ hcause)
  · rw [htask]
    exact h.finished (hfinished hf)

end Durablerun
