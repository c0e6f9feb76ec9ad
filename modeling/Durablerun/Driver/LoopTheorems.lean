import Durablerun.Driver.Loop
import Mathlib.Tactic.Linarith

/-!
# Parks and wakes

What the loop does next is allowed by what it did: a park begins with no wake pending and is no longer
than its bounds, a tick that comes before the look its park planned keeps the floor, and no more than
32 ticks start without a sleep or a yield.

Reference: `packages/driver/src/loop.ts`.
-/

namespace Durablerun.Driver

variable {SweptRun : Type}

/-! ## What a log says -/

section Log

/-- Whether a wake came since the last tick started. -/
def wakePending : List (Mark SweptRun) → Bool
  | [] => false
  | .wake :: _ => true
  | .tick _ :: _ => false
  | _ :: log => wakePending log

/-- Whether the loop was told to stop since it began to run. -/
def stopped : List (Mark SweptRun) → Bool
  | [] => false
  | .stop :: _ => true
  | .run :: _ => false
  | _ :: log => stopped log

/-- The last park that was sized, if it was since the last tick started. -/
def planned : List (Mark SweptRun) → Option (Park SweptRun)
  | [] => none
  | .sized park :: _ => some park
  | .tick _ :: _ => none
  | _ :: log => planned log

/-- What the last tick answered. -/
def answered : List (Mark SweptRun) → Option (Answer SweptRun)
  | [] => none
  | .ticked answer :: _ => some answer
  | _ :: log => answered log

/-- The ticks in a row, up to the last one, that claimed no run and swept none. -/
def emptyTicks : List (Mark SweptRun) → ℕ
  | [] => 0
  | .ticked answer :: log =>
    if answer.result.any fun result => result.claimed = 0 && result.swept.isEmpty then
      emptyTicks log + 1
    else 0
  | _ :: log => emptyTicks log

/-- When the last heartbeat was sent. -/
def lastSent : List (Mark SweptRun) → Option ℚ
  | [] => none
  | .beat sentAtMs :: _ => some sentAtMs
  | _ :: log => lastSent log

/-- When the heartbeat was sent whose confirmation came last. -/
def lastBeat : List (Mark SweptRun) → Option ℚ
  | [] => none
  | .beatConfirmed sentAtMs :: _ => some sentAtMs
  | _ :: log => lastBeat log

/-- When the last tick started. -/
def lastTick : List (Mark SweptRun) → Option ℚ
  | [] => none
  | .tick startedAtMs :: _ => some startedAtMs
  | _ :: log => lastTick log

/-- The ticks that started since the loop last slept or yielded. -/
def chained : List (Mark SweptRun) → ℕ
  | [] => 0
  | .parked :: _ | .wait _ _ :: _ | .yieldTurn :: _ => 0
  | .tick _ :: log => chained log + 1
  | _ :: log => chained log

/-- A reading of the elapsed clock, taken since the last tick answered. -/
def ReadSince (clock : Clock) (log : List (Mark SweptRun)) (nowMs : ℚ) : Prop :=
  ∃ n, nowMs = clock.elapsedMs n ∧ ∀ answer, answered log = some answer → answer.elapsedReads ≤ n

/-- A park is planned from what the loop was told: the last tick's answer and the empty ticks in a row,
the next wake less the first reading of the epoch clock since, and the last confirmed heartbeat. -/
structure Park.Planned (clock : Clock) (log : List (Mark SweptRun)) (park : Park SweptRun) :
    Prop where
  answer : ∃ answer, answered log = some answer ∧ park.result = answer.result ∧
    park.untilWakeMs = (answer.result.bind (·.nextWakeAtEpochMs)).map
      (· - clock.nowEpochMs answer.epochReads)
  idleTicks : park.idleTicks = emptyTicks log
  lastBeat : park.lastBeatAtMs = lastBeat log
  beatRead : park.lastBeatAtMs.isSome = true → ReadSince clock log park.beatReadAtMs
  started : ReadSince clock log park.startedAtMs

/-- What a park is at most: the ceiling, the time to the next wake, and the time to the next beat. -/
structure Park.Bounded (options : LoopOptions) (park : Park SweptRun) : Prop where
  ceiling : park.sleepMs ≤ DriverLoop.ceiling options park.result park.idleTicks
  wake : ∀ untilWake, park.untilWakeMs = some untilWake → 0 < untilWake → park.sleepMs ≤ untilWake
  beat : ∀ last, park.lastBeatAtMs = some last →
    park.sleepMs ≤ max 1 (last + options.registryIntervalMs - park.beatReadAtMs)
  firstBeat : park.lastBeatAtMs = none → park.sleepMs ≤ options.registryIntervalMs
  positive : 0 < park.sleepMs

/-- A tick may start: the loop was not stopped, fewer than 32 ticks started since it last slept or
yielded, and where the tick comes before the look that was planned, the floor has passed since the
last tick started. -/
structure TickAllowed (options : LoopOptions) (clock : Clock) (startedAtMs : ℚ)
    (log : List (Mark SweptRun)) : Prop where
  read : ReadSince clock log startedAtMs
  running : stopped log = false
  chained : chained log < 32
  floor : ∀ park, planned log = some park → startedAtMs < park.lookAtMs → ∀ last,
    lastTick log = some last → last + options.wakeFloorMs ≤ startedAtMs

/-- What may come after what was done. -/
def Allowed (options : LoopOptions) (clock : Clock) (log : List (Mark SweptRun)) :
    Mark SweptRun → Prop
  | .parked => wakePending log = false ∧ ∃ park rest, log = .sized park :: rest
  | .sized park => park.Planned clock log ∧ park.Bounded options
  | .wait nowMs remaining => ReadSince clock log nowMs ∧
      ∃ park, planned log = some park ∧ nowMs + remaining ≤ park.lookAtMs
  | .tick startedAtMs => TickAllowed options clock startedAtMs log
  | .beat sentAtMs => ReadSince clock log sentAtMs
  | .beatConfirmed sentAtMs => lastSent log = some sentAtMs
  | _ => True

/-- A wake is cleared only directly before a tick, or the end. -/
def ClearedLast : Mark SweptRun → List (Mark SweptRun) → Prop
  | .tick _, _ | .ended, _ => True
  | _, .cleared :: _ => False
  | _, _ => True

/-- Everything that was done was allowed. -/
def Logged (options : LoopOptions) (clock : Clock) : List (Mark SweptRun) → Prop
  | [] => True
  | m :: log => Allowed options clock log m ∧ ClearedLast m log ∧ Logged options clock log

end Log

/-! ## The invariant -/

/-- What the loop keeps of what it was told. -/
structure Told (s : DriverLoop SweptRun) : Prop where
  read : ∀ answer, answered s.log = some answer → answer.elapsedReads < s.elapsedReads
  idle : s.running = true → s.idleTicks = emptyTicks s.log
  lastBeat : s.lastBeatAtMs = lastBeat s.log
  sent : ∀ beat, s.beatInFlight = some beat → lastSent s.log = some beat.sentAtMs

/-- What holds between any two steps of the loop's code. -/
structure Kept (options : LoopOptions) (clock : Clock) (s : DriverLoop SweptRun) : Prop where
  log : Logged options clock s.log
  told : Told s
  /-- A wake since the last tick started is pending, unless the loop was stopped. -/
  wake : wakePending s.log = true → s.wakeRequested = true ∨ stopped s.log = true

/-- What holds of a loop that runs. -/
structure Going (s : DriverLoop SweptRun) : Prop where
  running : s.running = !stopped s.log
  floorInterrupt : s.floorInterrupt = true → s.running = false

/-- The time a pending wake waits for at a reading: to the floor, and no longer than to the look. -/
def remainingAt (options : LoopOptions) (s : DriverLoop SweptRun) (lookAtMs nowMs : ℚ) : ℚ :=
  min (s.lastTickStartedAtMs + options.wakeFloorMs - nowMs) (lookAtMs - nowMs)

/-- What holds at an await point. -/
def AtAwait (options : LoopOptions) (s : DriverLoop SweptRun) : Await SweptRun → Prop
  | .idle => s.log = [] ∧ s.everRan = false ∧ s.floorInterrupt = false ∧ s.chainedTicks = 0 ∧
      s.idleTicks = 0
  | .done => s.running = false ∧ s.everRan = true
  | .tick => Going s ∧ s.everRan = true ∧ chained s.log = s.chainedTicks + 1 ∧ s.chainedTicks < 32 ∧
      planned s.log = none ∧ lastTick s.log = some s.lastTickStartedAtMs
  | .yieldTurn result _ => Going s ∧ s.everRan = true ∧ chained s.log = 0 ∧ s.chainedTicks = 0 ∧
      planned s.log = none ∧ lastTick s.log = some s.lastTickStartedAtMs ∧
      ∃ answer, answered s.log = some answer ∧ answer.result = result ∧
        answer.epochReads = s.epochReads
  | .park startedAtMs sleepMs => Going s ∧ s.everRan = true ∧ chained s.log = 0 ∧
      s.chainedTicks = 0 ∧ lastTick s.log = some s.lastTickStartedAtMs ∧
      (∃ park, planned s.log = some park ∧ park.startedAtMs = startedAtMs ∧
        park.sleepMs = sleepMs) ∧
      s.sleepInterrupt = some (s.wakeRequested || !s.running)
  | .wait nowMs remaining => Going s ∧ s.everRan = true ∧ chained s.log = 0 ∧ s.chainedTicks = 0 ∧
      lastTick s.log = some s.lastTickStartedAtMs ∧
      ∃ park, planned s.log = some park ∧
        remaining = remainingAt options s park.lookAtMs nowMs

/-- What holds at every await point. -/
structure Inv (options : LoopOptions) (clock : Clock) (s : DriverLoop SweptRun) : Prop where
  kept : Kept options clock s
  settled : ∀ rest, s.log ≠ .cleared :: rest
  awaits : AtAwait options s s.awaits

/-! ## The loop's code -/

section Code

variable {options : LoopOptions} {clock : Clock} {s : DriverLoop SweptRun}

/-- What is read next is read since the last tick answered. -/
theorem Told.readSince (h : Told s) {n : ℕ} (hle : s.elapsedReads ≤ n) :
    ReadSince clock s.log (clock.elapsedMs n) :=
  ⟨n, rfl, fun answer hanswer => (h.read answer hanswer).le.trans hle⟩

/-- What the loop was told does not change while it reads the clock. -/
theorem Told.reads (h : Told s) {reads : ℕ} (hle : s.elapsedReads ≤ reads) :
    Told { s with elapsedReads := reads } :=
  ⟨fun answer hanswer => (h.read answer hanswer).trans_le hle, h.idle, h.lastBeat, h.sent⟩

/-- What holds at the head of the loop. -/
structure AtHead (options : LoopOptions) (clock : Clock) (s : DriverLoop SweptRun) : Prop where
  log : Logged options clock s.log
  told : Told s
  going : Going s
  everRan : s.everRan = true
  chained : s.running = true → chained s.log = s.chainedTicks ∧ s.chainedTicks < 32
  floor : s.running = true → ∀ park, planned s.log = some park →
    clock.elapsedMs s.elapsedReads < park.lookAtMs → ∀ last, lastTick s.log = some last →
      last + options.wakeFloorMs ≤ clock.elapsedMs s.elapsedReads

/-- A tick starts, or the loop ends. -/
theorem AtHead.startTick (h : AtHead options clock s) :
    Inv options clock (s.startTick clock) := by
  have hrunning := h.going.running
  have htold := h.told.reads (Nat.le_succ s.elapsedReads)
  unfold DriverLoop.startTick
  split
  · rename_i hgoes
    have hstopped : stopped s.log = false := by simpa [hgoes] using hrunning
    refine ⟨⟨⟨⟨h.told.readSince le_rfl, hstopped, ?_, h.floor hgoes⟩, trivial, h.log⟩,
      ⟨htold.read, htold.idle, htold.lastBeat, htold.sent⟩, ?_⟩, ?_, ?_⟩
    · rw [(h.chained hgoes).1]
      exact (h.chained hgoes).2
    · rintro ⟨⟩
    · rintro rest ⟨⟩
    · refine ⟨⟨h.going.running, h.going.floorInterrupt⟩, h.everRan, ?_, (h.chained hgoes).2,
        rfl, rfl⟩
      exact congrArg (· + 1) (h.chained hgoes).1
  · rename_i hends
    have hstopped : stopped s.log = true := by simpa [hends] using hrunning
    exact ⟨⟨⟨trivial, trivial, h.log⟩,
      ⟨h.told.read, fun hruns => absurd hruns Bool.false_ne_true, h.told.lastBeat, h.told.sent⟩,
      fun _ => Or.inr hstopped⟩, (by rintro rest ⟨⟩), rfl, h.everRan⟩

/-- What holds after a park, and where none began. -/
structure AfterPark (options : LoopOptions) (clock : Clock) (s : DriverLoop SweptRun) : Prop where
  log : Logged options clock s.log
  told : Told s
  settled : ∀ rest, s.log ≠ .cleared :: rest
  going : Going s
  everRan : s.everRan = true
  chained : chained s.log = s.chainedTicks
  lt : s.chainedTicks < 32

/-- Anything may come where no wake was just cleared. -/
theorem clearedLast_of_settled {log : List (Mark SweptRun)} (h : ∀ rest, log ≠ .cleared :: rest)
    (m : Mark SweptRun) : ClearedLast m log := by
  cases log with
  | nil => cases m <;> trivial
  | cons m' rest =>
    cases m' with
    | cleared => exact absurd rfl (h rest)
    | _ => cases m <;> trivial

/-- The pending wake is cleared, and a tick starts. -/
theorem AfterPark.lookAgain (h : AfterPark options clock s)
    (hfloor : s.running = true → ∀ park, planned s.log = some park →
      clock.elapsedMs s.elapsedReads < park.lookAtMs → ∀ last, lastTick s.log = some last →
        last + options.wakeFloorMs ≤ clock.elapsedMs s.elapsedReads) :
    Inv options clock (s.lookAgain clock) :=
  AtHead.startTick ⟨⟨trivial, clearedLast_of_settled h.settled _, h.log⟩,
    ⟨h.told.read, h.told.idle, h.told.lastBeat, h.told.sent⟩,
    ⟨h.going.running, h.going.floorInterrupt⟩, h.everRan, fun _ => ⟨h.chained, h.lt⟩, hfloor⟩

/-- Woken with time left, the loop waits out the rest of its floor. -/
theorem afterPark_wait {startedAtMs sleepMs : ℚ} (hgoes : s.wakeRequested = true ∧ s.running = true)
    (hpos : 0 < remainingAt options s (startedAtMs + sleepMs) (clock.elapsedMs s.elapsedReads)) :
    s.afterPark options clock startedAtMs sleepMs =
      ({ s with
        elapsedReads := s.elapsedReads + 1
        chainedTicks := 0
        awaits := .wait (clock.elapsedMs s.elapsedReads)
          (remainingAt options s (startedAtMs + sleepMs) (clock.elapsedMs s.elapsedReads)) }).mark
        (.wait (clock.elapsedMs s.elapsedReads)
          (remainingAt options s (startedAtMs + sleepMs) (clock.elapsedMs s.elapsedReads))) := by
  unfold DriverLoop.afterPark
  rw [if_pos hgoes]
  exact if_pos hpos

/-- Woken with no time left, the loop looks again at once. -/
theorem afterPark_late {startedAtMs sleepMs : ℚ} (hgoes : s.wakeRequested = true ∧ s.running = true)
    (hlate : ¬ 0 < remainingAt options s (startedAtMs + sleepMs) (clock.elapsedMs s.elapsedReads)) :
    s.afterPark options clock startedAtMs sleepMs =
      { s with elapsedReads := s.elapsedReads + 1 }.lookAgain clock := by
  unfold DriverLoop.afterPark
  rw [if_pos hgoes]
  exact if_neg hlate

/-- Not woken, or stopped, the loop looks again. -/
theorem afterPark_quiet {startedAtMs sleepMs : ℚ}
    (hquiet : ¬ (s.wakeRequested = true ∧ s.running = true)) :
    s.afterPark options clock startedAtMs sleepMs = s.lookAgain clock :=
  if_neg hquiet

/-- A wake looks again after the floor, and no later than the look that was planned. -/
theorem AfterPark.afterPark (h : AfterPark options clock s) (hwake : wakePending s.log = true →
      s.wakeRequested = true ∨ stopped s.log = true)
    (hlast : lastTick s.log = some s.lastTickStartedAtMs) {park : Park SweptRun}
    (hplanned : planned s.log = some park)
    (hslept : s.running = true → s.wakeRequested = false →
      park.lookAtMs ≤ clock.elapsedMs s.elapsedReads) :
    Inv options clock (s.afterPark options clock park.startedAtMs park.sleepMs) := by
  have htold := h.told.reads (Nat.le_succ s.elapsedReads)
  by_cases hgoes : s.wakeRequested = true ∧ s.running = true
  · by_cases hpos : 0 < remainingAt options s park.lookAtMs (clock.elapsedMs s.elapsedReads)
    · rw [afterPark_wait hgoes hpos]
      refine ⟨⟨⟨⟨h.told.readSince le_rfl, park, hplanned, ?_⟩, clearedLast_of_settled h.settled _,
        h.log⟩, ⟨htold.read, htold.idle, htold.lastBeat, htold.sent⟩, hwake⟩, ?_, ?_⟩
      · have hle : remainingAt options s park.lookAtMs (clock.elapsedMs s.elapsedReads) ≤
          park.lookAtMs - clock.elapsedMs s.elapsedReads := min_le_right _ _
        show _ + remainingAt options s park.lookAtMs _ ≤ _
        linarith
      · rintro rest ⟨⟩
      · exact ⟨⟨h.going.running, h.going.floorInterrupt⟩, h.everRan, rfl, rfl, hlast, park, hplanned,
          rfl⟩
    · rw [afterPark_late hgoes hpos]
      refine AfterPark.lookAgain ⟨h.log, htold, h.settled,
        ⟨h.going.running, h.going.floorInterrupt⟩, h.everRan, h.chained, h.lt⟩ ?_
      intro _ park' hplanned' hbefore last hlast'
      obtain rfl := Option.some.inj (hplanned.symm.trans hplanned')
      obtain rfl := Option.some.inj (hlast.symm.trans hlast')
      have hmono := clock.never_back (Nat.le_succ s.elapsedReads)
      -- The wait is over before it begins: the floor has passed, or the look is due.
      rcases min_le_iff.mp (not_lt.mp hpos) with hfloor | hlook
      · have hfloor' : s.lastTickStartedAtMs + options.wakeFloorMs ≤
            clock.elapsedMs s.elapsedReads := by linarith
        exact hfloor'.trans hmono
      · have hlook' : park.lookAtMs ≤ clock.elapsedMs s.elapsedReads := by linarith
        exact absurd (hlook'.trans hmono) (not_le.mpr hbefore)
  · rw [afterPark_quiet hgoes]
    refine h.lookAgain fun hrunning park' hplanned' hbefore => ?_
    obtain rfl := Option.some.inj (hplanned.symm.trans hplanned')
    have hrequested : s.wakeRequested = false :=
      Bool.eq_false_iff.mpr fun hrequested => hgoes ⟨hrequested, hrunning⟩
    exact absurd (hslept hrunning hrequested) (not_le.mpr hbefore)

/-- What holds before a park is sized. -/
structure BeforePark (options : LoopOptions) (clock : Clock) (s : DriverLoop SweptRun) : Prop
    extends AfterPark options clock s where
  wake : wakePending s.log = true → s.wakeRequested = true ∨ stopped s.log = true
  last : lastTick s.log = some s.lastTickStartedAtMs
  running : s.running = true

/-- A park that is sized, and begins unless a wake is pending. -/
theorem park_eq (result : Option (TickResult SweptRun)) (untilWakeMs : Option ℚ) (sleepMs : ℚ) :
    ∃ (reads : ℕ) (sized : Park SweptRun), s.elapsedReads ≤ reads ∧
      (sized.lastBeatAtMs.isSome = true → sized.beatReadAtMs = clock.elapsedMs s.elapsedReads) ∧
      sized.startedAtMs = clock.elapsedMs (reads - 1) ∧ s.elapsedReads ≤ reads - 1 ∧
      sized.result = result ∧ sized.idleTicks = s.idleTicks ∧
      sized.untilWakeMs = untilWakeMs ∧ sized.lastBeatAtMs = s.lastBeatAtMs ∧
      sized.sleepMs = min sleepMs
        (DriverLoop.msUntilBeatDue options s.lastBeatAtMs sized.beatReadAtMs) ∧
      s.park options clock result untilWakeMs sleepMs =
        if s.wakeRequested then
          ({ s with elapsedReads := reads }.mark (.sized sized)).afterPark options clock
            sized.startedAtMs sized.sleepMs
        else
          ({ s with
            elapsedReads := reads
            chainedTicks := 0
            sleepInterrupt := some false
            awaits := .park sized.startedAtMs sized.sleepMs
            log := .sized sized :: s.log }).mark .parked := by
  obtain ⟨running, everRan, sleepInterrupt, floorInterrupt, wakeRequested, idleTicks, chainedTicks,
    lastBeatAtMs, beatInFlight, stats, lastTickStartedAtMs, awaits, reads, epochReads, log⟩ := s
  cases lastBeatAtMs with
  | none =>
    exact ⟨reads + 1, ⟨result, idleTicks, untilWakeMs, none, 0, clock.elapsedMs reads,
      min sleepMs (DriverLoop.msUntilBeatDue options none 0)⟩, Nat.le_succ reads,
      fun hsome => absurd hsome Bool.false_ne_true, rfl, le_rfl, rfl, rfl, rfl, rfl, rfl, rfl⟩
  | some last =>
    exact ⟨reads + 2, ⟨result, idleTicks, untilWakeMs, some last, clock.elapsedMs reads,
      clock.elapsedMs (reads + 1),
      min sleepMs (DriverLoop.msUntilBeatDue options (some last) (clock.elapsedMs reads))⟩,
      Nat.le_add_right reads 2, fun _ => rfl, rfl, Nat.le_succ reads, rfl, rfl, rfl, rfl, rfl, rfl⟩

/-- The time until a beat is due is positive. -/
theorem msUntilBeatDue_pos (options : LoopOptions) (lastBeatAtMs : Option ℚ) (nowMs : ℚ) :
    0 < DriverLoop.msUntilBeatDue options lastBeatAtMs nowMs := by
  cases lastBeatAtMs with
  | none => exact Nat.cast_pos.mpr options.registry_pos
  | some last => exact lt_max_of_lt_left one_pos

/-- A park is planned from what the loop was told, is within its bounds, and begins with no wake
pending. -/
theorem BeforePark.park (h : BeforePark options clock s) {answer : Answer SweptRun}
    (hanswered : answered s.log = some answer) {untilWakeMs : Option ℚ}
    (huntil : untilWakeMs = (answer.result.bind (·.nextWakeAtEpochMs)).map
      (· - clock.nowEpochMs answer.epochReads))
    {sleepMs : ℚ} (hpos : 0 < sleepMs)
    (hceiling : sleepMs ≤ DriverLoop.ceiling options answer.result s.idleTicks)
    (hwake : ∀ untilWake, untilWakeMs = some untilWake → 0 < untilWake → sleepMs ≤ untilWake) :
    Inv options clock (s.park options clock answer.result untilWakeMs sleepMs) := by
  obtain ⟨reads, sized, hreads, hbeatRead, hstarted, hlater, hresult, hidle, rfl, hbeat, hsleep, heq⟩ :=
    @park_eq SweptRun options clock s answer.result untilWakeMs sleepMs
  have htold := h.told.reads hreads
  -- The sizes of the sleep are read from the log: the answer, the idle ticks, the beat, the clocks.
  have hplan : sized.Planned clock s.log := by
    refine ⟨⟨answer, hanswered, hresult, huntil⟩, hidle.trans (h.told.idle h.running),
      hbeat.trans h.told.lastBeat, fun hsome => ?_, ?_⟩
    · rw [hbeatRead hsome]
      exact h.told.readSince le_rfl
    · rw [hstarted]
      exact h.told.readSince hlater
  have hle : sized.sleepMs ≤ sleepMs := hsleep.trans_le (min_le_left _ _)
  have hdue : sized.sleepMs ≤ DriverLoop.msUntilBeatDue options s.lastBeatAtMs sized.beatReadAtMs :=
    hsleep.trans_le (min_le_right _ _)
  have hbounded : sized.Bounded options := by
    refine ⟨?_, fun untilWake hsome hahead => hle.trans (hwake untilWake hsome hahead), ?_, ?_, ?_⟩
    · rw [hresult, hidle]
      exact hle.trans hceiling
    · intro last hlast
      rw [← hbeat, hlast] at hdue
      exact hdue
    · intro hnone
      rw [← hbeat, hnone] at hdue
      exact hdue
    · rw [hsleep]
      exact lt_min hpos (msUntilBeatDue_pos _ _ _)
  have hlogged : Logged options clock (.sized sized :: s.log) :=
    ⟨⟨hplan, hbounded⟩, clearedLast_of_settled h.settled _, h.log⟩
  rw [heq]
  split
  · rename_i hrequested
    have hafter : AfterPark options clock
        (({ s with elapsedReads := reads } : DriverLoop SweptRun).mark (.sized sized)) :=
      ⟨hlogged, ⟨htold.read, htold.idle, htold.lastBeat, htold.sent⟩, (by rintro rest ⟨⟩),
        ⟨h.going.running, h.going.floorInterrupt⟩, h.everRan, h.chained, h.lt⟩
    have hplanned : planned (.sized sized :: s.log) = some sized := rfl
    refine hafter.afterPark h.wake h.last hplanned fun _ hquiet => ?_
    have hquiet' : s.wakeRequested = false := hquiet
    rw [hquiet'] at hrequested
    cases hrequested
  · rename_i hrequested
    have hstopped : stopped s.log = false := by simpa [h.running] using h.going.running
    have hquiet : wakePending s.log = false := by
      refine Bool.eq_false_iff.mpr fun hpending => ?_
      rcases h.wake hpending with hrequested' | hstopped'
      · exact hrequested hrequested'
      · rw [hstopped] at hstopped'
        cases hstopped'
    refine ⟨⟨⟨⟨hquiet, sized, s.log, rfl⟩, trivial, hlogged⟩,
      ⟨htold.read, htold.idle, htold.lastBeat, htold.sent⟩, h.wake⟩, (by rintro rest ⟨⟩),
      ⟨h.going.running, h.going.floorInterrupt⟩, h.everRan, rfl, rfl, h.last,
      ⟨sized, rfl, rfl, rfl⟩, ?_⟩
    show some false = some (s.wakeRequested || !s.running)
    rw [h.running, Bool.eq_false_iff.mpr hrequested]
    rfl

/-- With no park planned, the next tick comes before none. -/
theorem BeforePark.startTick (h : BeforePark options clock s) (hplanned : planned s.log = none) :
    Inv options clock (s.startTick clock) :=
  AtHead.startTick ⟨h.log, h.told, h.going, h.everRan, fun _ => ⟨h.chained, h.lt⟩, fun _ park hsome => by
    rw [hplanned] at hsome
    cases hsome⟩

/-- The ceiling of a sleep is positive. -/
theorem ceiling_pos (options : LoopOptions) (result : Option (TickResult SweptRun)) (idleTicks : ℕ) :
    0 < DriverLoop.ceiling options result idleTicks := by
  unfold DriverLoop.ceiling
  split
  · exact Nat.cast_pos.mpr (options.busy_pos.trans_le options.idle_le)
  · exact Nat.cast_pos.mpr options.busy_pos

/-- The loop ticks again where there is more to do, and parks where there is none. -/
theorem BeforePark.afterTurn (h : BeforePark options clock s) (hplanned : planned s.log = none)
    {answer : Answer SweptRun} (hanswered : answered s.log = some answer)
    {result : Option (TickResult SweptRun)} (hresult : answer.result = result)
    (hepoch : answer.epochReads = s.epochReads) (empty : Bool) :
    Inv options clock (s.afterTurn options clock result empty) := by
  subst hresult
  unfold DriverLoop.afterTurn
  split
  · exact h.startTick hplanned
  · split
    · rename_i hnone
      refine h.park hanswered ?_ (ceiling_pos _ _ _) le_rfl fun _ hno => by cases hno
      rw [hnone]
      rfl
    · rename_i nextWakeAtEpochMs hnext
      have h' : BeforePark options clock { s with epochReads := s.epochReads + 1 } :=
        ⟨⟨h.log, ⟨h.told.read, h.told.idle, h.told.lastBeat, h.told.sent⟩, h.settled,
          ⟨h.going.running, h.going.floorInterrupt⟩, h.everRan, h.chained, h.lt⟩,
          h.wake, h.last, h.running⟩
      have huntil : some (nextWakeAtEpochMs - clock.nowEpochMs s.epochReads) =
          (answer.result.bind (·.nextWakeAtEpochMs)).map
            (· - clock.nowEpochMs answer.epochReads) := by
        rw [hnext, hepoch]
        rfl
      dsimp only
      split
      · rename_i hdue
        split
        · refine h'.park hanswered huntil (ceiling_pos _ _ _) le_rfl fun untilWake hsome hahead => ?_
          obtain rfl := Option.some.inj hsome
          exact absurd hahead (not_lt.mpr hdue)
        · exact h'.startTick hplanned
      · rename_i hahead
        refine h'.park hanswered huntil (lt_min (not_le.mp hahead) (ceiling_pos _ _ _)) (min_le_right _ _)
          fun untilWake hsome _ => ?_
        obtain rfl := Option.some.inj hsome
        exact min_le_left _ _

/-- What the log says after a tick answered and a heartbeat was sent or not: the answer, and else what it
said before. -/
structure Noted (options : LoopOptions) (clock : Clock) (s : DriverLoop SweptRun)
    (answer : Answer SweptRun) (beatInFlight : Option Beat) (log : List (Mark SweptRun)) : Prop where
  logged : Logged options clock log
  settled : ∀ rest, log ≠ .cleared :: rest
  answered : Driver.answered log = some answer
  wake : wakePending log = wakePending s.log
  stopped : Driver.stopped log = Driver.stopped s.log
  planned : Driver.planned log = Driver.planned s.log
  chained : Driver.chained log = Driver.chained s.log
  lastTick : Driver.lastTick log = Driver.lastTick s.log
  emptyTicks : Driver.emptyTicks log = Driver.emptyTicks (.ticked answer :: s.log)
  lastBeat : Driver.lastBeat log = Driver.lastBeat s.log
  sent : ∀ beat, beatInFlight = some beat → lastSent log = some beat.sentAtMs

/-- A tick is counted and a heartbeat sent where one is due, and the rest of the loop is as it was. -/
theorem Inv.noted (h : Inv options clock s) (outcome : Option (TickResult SweptRun)) :
    ∃ (stats : Stats SweptRun) (beatInFlight : Option Beat) (log : List (Mark SweptRun)),
      ((s.mark (.ticked ⟨outcome, s.elapsedReads, s.epochReads⟩)).countTick outcome).beatRegistry
        options clock =
        { s with
          stats := stats
          elapsedReads := s.elapsedReads + 1
          beatInFlight := beatInFlight
          log := log } ∧
      Noted options clock s ⟨outcome, s.elapsedReads, s.epochReads⟩ beatInFlight log := by
  obtain ⟨stats, hcount⟩ : ∃ stats,
      (s.mark (.ticked ⟨outcome, s.elapsedReads, s.epochReads⟩)).countTick outcome =
        { s.mark (.ticked ⟨outcome, s.elapsedReads, s.epochReads⟩) with stats := stats } := by
    cases outcome <;> exact ⟨_, rfl⟩
  have hlog : Logged options clock (.ticked ⟨outcome, s.elapsedReads, s.epochReads⟩ :: s.log) :=
    ⟨trivial, clearedLast_of_settled h.settled _, h.kept.log⟩
  have hunsent : Noted options clock s ⟨outcome, s.elapsedReads, s.epochReads⟩ s.beatInFlight
      (.ticked ⟨outcome, s.elapsedReads, s.epochReads⟩ :: s.log) :=
    ⟨hlog, (by rintro rest ⟨⟩), rfl, rfl, rfl, rfl, rfl, rfl, rfl, rfl, h.kept.told.sent⟩
  rw [hcount]
  by_cases hflight : s.beatInFlight.isSome = true
  · exact ⟨stats, _, _, if_pos hflight, hunsent⟩
  · by_cases hearly : (s.lastBeatAtMs.any fun last =>
        clock.elapsedMs s.elapsedReads - last < options.registryIntervalMs) = true
    · exact ⟨stats, _, _, (if_neg hflight).trans (if_pos hearly), hunsent⟩
    · refine ⟨stats, some ⟨clock.elapsedMs s.elapsedReads, false⟩,
        .beat (clock.elapsedMs s.elapsedReads) ::
          .ticked ⟨outcome, s.elapsedReads, s.epochReads⟩ :: s.log,
        (if_neg hflight).trans (if_neg hearly), ?_⟩
      have hread : ReadSince clock (.ticked ⟨outcome, s.elapsedReads, s.epochReads⟩ :: s.log)
          (clock.elapsedMs s.elapsedReads) := by
        refine ⟨s.elapsedReads, rfl, fun answer hanswer => ?_⟩
        obtain rfl := Option.some.inj hanswer
        exact le_rfl
      refine ⟨⟨hread, trivial, hlog⟩, (by rintro rest ⟨⟩), rfl, rfl, rfl, rfl, rfl, rfl, rfl, rfl,
        fun beat hbeat => ?_⟩
      obtain rfl := Option.some.inj hbeat
      rfl

/-- The loop after its tick. -/
theorem Inv.afterTick (h : Inv options clock s) (hawaits : s.awaits = .tick)
    (outcome : Option (TickResult SweptRun)) :
    Inv options clock (s.afterTick options clock outcome) := by
  have hat := h.awaits
  rw [hawaits] at hat
  obtain ⟨hgoing, hran, hchained, hlt, hplanned, hlast⟩ := hat
  obtain ⟨stats, beatInFlight, log, heq, hnoted⟩ := h.noted outcome
  have hgoes : s.running = !stopped log := hgoing.running.trans (congrArg _ hnoted.stopped.symm)
  have hread : ∀ answer, answered log = some answer → answer.elapsedReads < s.elapsedReads + 1 := by
    intro answer hanswer
    obtain rfl := Option.some.inj (hnoted.answered.symm.trans hanswer)
    exact Nat.lt_succ_self _
  have hbeat : s.lastBeatAtMs = lastBeat log := h.kept.told.lastBeat.trans hnoted.lastBeat.symm
  have hwake : wakePending log = true → s.wakeRequested = true ∨ stopped log = true := by
    rw [hnoted.wake, hnoted.stopped]
    exact h.kept.wake
  unfold DriverLoop.afterTick
  dsimp only
  rw [heq]
  dsimp only
  split
  · rename_i hrunning
    have hidle : (if (outcome.any fun result => result.claimed = 0 && result.swept.isEmpty) = true then
        s.idleTicks + 1 else 0) = emptyTicks log := by
      rw [hnoted.emptyTicks, h.kept.told.idle hrunning]
      rfl
    split
    · exact ⟨⟨⟨trivial, clearedLast_of_settled hnoted.settled _, hnoted.logged⟩,
        ⟨hread, fun _ => hidle, hbeat, hnoted.sent⟩, hwake⟩,
        (by rintro rest ⟨⟩), ⟨hgoes, hgoing.floorInterrupt⟩, hran, rfl, rfl,
        hnoted.planned.trans hplanned, hnoted.lastTick.trans hlast, _, hnoted.answered, rfl, rfl⟩
    · rename_i hfew
      apply BeforePark.afterTurn
      · exact ⟨⟨hnoted.logged, ⟨hread, fun _ => hidle, hbeat, hnoted.sent⟩, hnoted.settled,
          ⟨hgoes, hgoing.floorInterrupt⟩, hran, hnoted.chained.trans hchained, not_le.mp hfew⟩,
          hwake, hnoted.lastTick.trans hlast, hrunning⟩
      · exact hnoted.planned.trans hplanned
      · exact hnoted.answered
      · rfl
      · rfl
  · rename_i hstopped
    exact AtHead.startTick ⟨hnoted.logged,
      ⟨hread, fun hrunning => absurd hrunning hstopped, hbeat, hnoted.sent⟩,
      ⟨hgoes, hgoing.floorInterrupt⟩, hran,
      fun hrunning => absurd hrunning hstopped, fun hrunning => absurd hrunning hstopped⟩

/-- The loop after it yielded its turn. -/
theorem Inv.afterYield (h : Inv options clock s) {result : Option (TickResult SweptRun)} {empty : Bool}
    (hawaits : s.awaits = .yieldTurn result empty) :
    Inv options clock (s.afterYield options clock result empty) := by
  have hat := h.awaits
  rw [hawaits] at hat
  obtain ⟨hgoing, hran, hchained, hzero, hplanned, hlast, answer, hanswered, rfl, hepoch⟩ := hat
  unfold DriverLoop.afterYield
  split
  · rename_i hrunning
    exact BeforePark.afterTurn ⟨⟨h.kept.log, h.kept.told, h.settled, hgoing, hran,
      hchained.trans hzero.symm, hzero.trans_lt (by decide)⟩, h.kept.wake, hlast, hrunning⟩ hplanned
      hanswered rfl hepoch _
  · rename_i hstopped
    exact AtHead.startTick ⟨h.kept.log, h.kept.told, hgoing, hran,
      fun hrunning => absurd hrunning hstopped, fun hrunning => absurd hrunning hstopped⟩

/-- A wake at an await point is pending, and interrupts the park. -/
theorem Inv.wake (h : Inv options clock s) (hloop : s.awaits.inLoop = true) :
    Inv options clock s.wake := by
  have htold := h.kept.told
  refine ⟨⟨⟨trivial, clearedLast_of_settled h.settled _, h.kept.log⟩,
    ⟨htold.read, htold.idle, htold.lastBeat, htold.sent⟩, fun _ => Or.inl rfl⟩,
    (by rintro rest ⟨⟩), ?_⟩
  have hat := h.awaits
  show AtAwait options s.wake s.awaits
  cases hawaits : s.awaits with
  | idle | done =>
    rw [hawaits] at hloop
    cases hloop
  | tick | yieldTurn | wait =>
    rw [hawaits] at hat
    obtain ⟨hgoing, hrest⟩ := hat
    exact ⟨⟨hgoing.running, hgoing.floorInterrupt⟩, hrest⟩
  | park startedAtMs sleepMs =>
    rw [hawaits] at hat
    obtain ⟨hgoing, hran, hchained, hzero, hlast, hpark, hinterrupt⟩ := hat
    refine ⟨⟨hgoing.running, hgoing.floorInterrupt⟩, hran, hchained, hzero, hlast, hpark, ?_⟩
    show s.sleepInterrupt.map (fun _ => true) = some (true || !s.running)
    rw [hinterrupt]
    rfl

/-- A stop at an await point interrupts what the loop sleeps in. -/
theorem Inv.stop (h : Inv options clock s) (hloop : s.awaits.inLoop = true) :
    Inv options clock s.stop := by
  have htold := h.kept.told
  refine ⟨⟨⟨trivial, clearedLast_of_settled h.settled _, h.kept.log⟩,
    ⟨htold.read, fun hruns => absurd hruns Bool.false_ne_true, htold.lastBeat, htold.sent⟩,
    fun _ => Or.inr rfl⟩, (by rintro rest ⟨⟩), ?_⟩
  have hat := h.awaits
  have hgoing : Going s.stop := ⟨rfl, fun _ => rfl⟩
  show AtAwait options s.stop s.awaits
  cases hawaits : s.awaits with
  | idle | done =>
    rw [hawaits] at hloop
    cases hloop
  | tick | yieldTurn | wait =>
    rw [hawaits] at hat
    exact ⟨hgoing, hat.2⟩
  | park startedAtMs sleepMs =>
    rw [hawaits] at hat
    obtain ⟨_, hran, hchained, hzero, hlast, hpark, hinterrupt⟩ := hat
    refine ⟨hgoing, hran, hchained, hzero, hlast, hpark, ?_⟩
    show s.sleepInterrupt.map (fun _ => true) = some (s.wakeRequested || !false)
    rw [hinterrupt, Bool.not_false, Bool.or_true]
    rfl

/-- A heartbeat that is confirmed is the one that was sent last. -/
theorem Inv.beatConfirmed (h : Inv options clock s) {sentAtMs : ℚ} {wasAnswered : Bool}
    (hflight : s.beatInFlight = some ⟨sentAtMs, wasAnswered⟩) :
    Inv options clock ({ s with
      lastBeatAtMs := some sentAtMs
      beatInFlight := some ⟨sentAtMs, true⟩ }.mark (.beatConfirmed sentAtMs)) := by
  have htold := h.kept.told
  have hsent : lastSent s.log = some sentAtMs := htold.sent _ hflight
  refine ⟨⟨⟨hsent, clearedLast_of_settled h.settled _, h.kept.log⟩,
    ⟨htold.read, htold.idle, rfl, fun beat hbeat => ?_⟩, h.kept.wake⟩, (by rintro rest ⟨⟩), ?_⟩
  · obtain rfl := Option.some.inj hbeat
    exact hsent
  · have hat := h.awaits
    show AtAwait options _ s.awaits
    cases hawaits : s.awaits with
    | idle =>
      rw [hawaits] at hat
      rw [hat.1] at hsent
      cases hsent
    | done =>
      rw [hawaits] at hat
      exact hat
    | tick | yieldTurn | wait | park =>
      rw [hawaits] at hat
      exact ⟨⟨hat.1.running, hat.1.floorInterrupt⟩, hat.2⟩

/-- A heartbeat that is refused, or is over, changes nothing the loop's promises are about. -/
theorem Inv.beat (h : Inv options clock s) {beatInFlight : Option Beat}
    (hsent : ∀ beat, beatInFlight = some beat → lastSent s.log = some beat.sentAtMs) :
    Inv options clock { s with beatInFlight := beatInFlight } := by
  have htold := h.kept.told
  refine ⟨⟨h.kept.log, ⟨htold.read, htold.idle, htold.lastBeat, hsent⟩, h.kept.wake⟩, h.settled, ?_⟩
  have hat := h.awaits
  show AtAwait options _ s.awaits
  cases hawaits : s.awaits with
  | idle | done =>
    rw [hawaits] at hat
    exact hat
  | tick | yieldTurn | wait | park =>
    rw [hawaits] at hat
    exact ⟨⟨hat.1.running, hat.1.floorInterrupt⟩, hat.2⟩

/-- The loop after the sleep of its park, which was interrupted or ran its time. -/
theorem Inv.sleptPark (h : Inv options clock s) {startedAtMs sleepMs : ℚ}
    (hawaits : s.awaits = .park startedAtMs sleepMs) (hslept : s.sleepInterrupt = some true ∨
      startedAtMs + sleepMs ≤ clock.elapsedMs s.elapsedReads) :
    Inv options clock ({ s with sleepInterrupt := none }.afterPark options clock startedAtMs sleepMs) := by
  have hat := h.awaits
  rw [hawaits] at hat
  obtain ⟨hgoing, hran, hchained, hzero, hlast, ⟨park, hplanned, rfl, rfl⟩, hinterrupt⟩ := hat
  have htold := h.kept.told
  have hafter : AfterPark options clock { s with sleepInterrupt := none } :=
    ⟨h.kept.log, ⟨htold.read, htold.idle, htold.lastBeat, htold.sent⟩, h.settled,
      ⟨hgoing.running, hgoing.floorInterrupt⟩, hran, hchained.trans hzero.symm, hzero.trans_lt (by decide)⟩
  refine hafter.afterPark h.kept.wake hlast hplanned fun hrunning hquiet => ?_
  have hrunning' : s.running = true := hrunning
  have hquiet' : s.wakeRequested = false := hquiet
  rcases hslept with hinterrupted | hover
  · rw [hinterrupt, hrunning', hquiet'] at hinterrupted
    cases hinterrupted
  · exact hover

/-- The loop after the wait a wake added. -/
theorem Inv.sleptWait (h : Inv options clock s) {nowMs remaining : ℚ}
    (hawaits : s.awaits = .wait nowMs remaining) (hslept : s.floorInterrupt = true ∨
      nowMs + remaining ≤ clock.elapsedMs s.elapsedReads) :
    Inv options clock (s.lookAgain clock) := by
  have hat := h.awaits
  rw [hawaits] at hat
  obtain ⟨hgoing, hran, hchained, hzero, hlast, park, hplanned, rfl⟩ := hat
  refine AfterPark.lookAgain ⟨h.kept.log, h.kept.told, h.settled, hgoing, hran, hchained.trans hzero.symm,
    hzero.trans_lt (by decide)⟩ ?_
  intro hrunning park' hplanned' hbefore last hlast'
  obtain rfl := Option.some.inj (hplanned.symm.trans hplanned')
  obtain rfl := Option.some.inj (hlast.symm.trans hlast')
  rcases hslept with hinterrupted | hover
  · rw [hgoing.floorInterrupt hinterrupted] at hrunning
    cases hrunning
  · -- The wait ran its time, and that is to the floor, for it is not to the look.
    rcases min_cases (s.lastTickStartedAtMs + options.wakeFloorMs - nowMs)
      (park.lookAtMs - nowMs) with hmin | hmin
    · rw [remainingAt, hmin.1] at hover
      linarith
    · rw [remainingAt, hmin.1] at hover
      linarith

/-- Every step keeps the invariant. -/
theorem Inv.next (h : Inv options clock s) {event : Event SweptRun} {s' : DriverLoop SweptRun}
    (hnext : s.next options clock event = some s') : Inv options clock s' := by
  cases event with
  | run =>
    simp only [DriverLoop.next] at hnext
    split at hnext
    · cases hnext
    · rename_i hnever
      obtain rfl := Option.some.inj hnext
      have hat := h.awaits
      -- Only a loop that was never started starts: in every other state the guard refuses `run`.
      cases hawaits : s.awaits with
      | idle =>
        rw [hawaits] at hat
        obtain ⟨hlog, _, hfloor, hzero, hidle⟩ := hat
        have htold := h.kept.told
        apply AtHead.startTick
        refine ⟨⟨trivial, clearedLast_of_settled h.settled _, h.kept.log⟩,
          ⟨htold.read, fun _ => ?_, htold.lastBeat, htold.sent⟩, ⟨rfl, fun hfloor' => ?_⟩,
          rfl, fun _ => ⟨?_, hzero.trans_lt (by decide)⟩, fun _ park hsome => ?_⟩
        · show s.idleTicks = emptyTicks s.log
          rw [hlog, hidle]
          rfl
        · exact absurd (hfloor.symm.trans hfloor') (by decide)
        · show chained s.log = s.chainedTicks
          rw [hlog, hzero]
          rfl
        · have hsome' : planned s.log = some park := hsome
          rw [hlog] at hsome'
          cases hsome'
      | done =>
        rw [hawaits] at hat
        exact absurd hat.2 hnever
      | tick | yieldTurn | wait | park =>
        rw [hawaits] at hat
        exact absurd hat.2.1 hnever
  | wake =>
    simp only [DriverLoop.next] at hnext
    split at hnext
    · rename_i hloop
      obtain rfl := Option.some.inj hnext
      exact h.wake hloop
    · cases hnext
  | stop =>
    simp only [DriverLoop.next] at hnext
    split at hnext
    · rename_i hloop
      obtain rfl := Option.some.inj hnext
      exact h.stop hloop
    · cases hnext
  | ticked outcome =>
    simp only [DriverLoop.next] at hnext
    split at hnext
    · rename_i hawaits
      obtain rfl := Option.some.inj hnext
      exact h.afterTick hawaits outcome
    · cases hnext
  | yielded =>
    simp only [DriverLoop.next] at hnext
    split at hnext
    · rename_i hawaits
      obtain rfl := Option.some.inj hnext
      exact h.afterYield hawaits
    · cases hnext
  -- A sleep may resolve a park or the pause after a failed tick; each has its own invariant.
  | slept =>
    simp only [DriverLoop.next] at hnext
    split at hnext
    · rename_i hawaits
      split at hnext
      · rename_i hslept
        obtain rfl := Option.some.inj hnext
        exact h.sleptPark hawaits hslept
      · cases hnext
    · rename_i hawaits
      split at hnext
      · rename_i hslept
        obtain rfl := Option.some.inj hnext
        exact h.sleptWait hawaits hslept
      · cases hnext
    · cases hnext
  | beatConfirmed =>
    simp only [DriverLoop.next] at hnext
    split at hnext
    · rename_i hflight
      obtain rfl := Option.some.inj hnext
      exact h.beatConfirmed hflight
    · cases hnext
  | beatRefused =>
    simp only [DriverLoop.next] at hnext
    split at hnext
    · rename_i hflight
      obtain rfl := Option.some.inj hnext
      -- A refused beat leaves the last one confirmed as it was.
      refine h.beat fun beat hbeat => ?_
      obtain rfl := Option.some.inj hbeat
      have hsent := h.kept.told.sent _ hflight
      exact hsent
    · cases hnext
  | beatSettled =>
    simp only [DriverLoop.next] at hnext
    split at hnext
    · obtain rfl := Option.some.inj hnext
      exact h.beat fun beat hbeat => by cases hbeat
    · cases hnext

/-- The invariant holds in every state a loop gets into. -/
theorem Reachable.inv (h : Reachable options clock s) : Inv options clock s := by
  induction h with
  | new =>
    refine ⟨⟨trivial, ⟨?_, fun _ => rfl, rfl, ?_⟩, ?_⟩, (by rintro rest ⟨⟩), rfl, rfl, rfl, rfl, rfl⟩
    · rintro answer ⟨⟩
    · rintro beat ⟨⟩
    · rintro ⟨⟩
  | step event _ hnext ih => exact ih.next hnext

/-! ## What clears a wake -/

/-- A pending wake is still pending, or it was cleared directly before a tick or the end. -/
def ClearedForTick (s s' : DriverLoop SweptRun) : Prop :=
  s'.wakeRequested = s.wakeRequested ∨
    (∃ startedAtMs rest, s'.log = .tick startedAtMs :: .cleared :: rest) ∨
    s'.running = false ∧ ∃ rest, s'.log = .ended :: .cleared :: rest

/-- A tick begins with the wakes before it cleared. -/
theorem clearedForTick_startTick : ClearedForTick s (s.startTick clock) := by
  refine Or.inl ?_
  unfold DriverLoop.startTick
  split <;> rfl

/-- Looking again keeps the account of wakes. -/
theorem clearedForTick_lookAgain {s' : DriverLoop SweptRun} :
    ClearedForTick s' (s.lookAgain clock) := by
  refine Or.inr ?_
  unfold DriverLoop.lookAgain DriverLoop.startTick
  split
  · exact Or.inl ⟨_, _, rfl⟩
  · exact Or.inr ⟨rfl, _, rfl⟩

/-- What follows a park keeps the account of wakes. -/
theorem clearedForTick_afterPark (startedAtMs sleepMs : ℚ) :
    ClearedForTick s (s.afterPark options clock startedAtMs sleepMs) := by
  by_cases hgoes : s.wakeRequested = true ∧ s.running = true
  · by_cases hpos : 0 < remainingAt options s (startedAtMs + sleepMs)
        (clock.elapsedMs s.elapsedReads)
    · rw [afterPark_wait hgoes hpos]
      exact Or.inl rfl
    · rw [afterPark_late hgoes hpos]
      exact clearedForTick_lookAgain
  · rw [afterPark_quiet hgoes]
    exact clearedForTick_lookAgain

/-- A park keeps the account of wakes. -/
theorem clearedForTick_park (result : Option (TickResult SweptRun)) (untilWakeMs : Option ℚ)
    (sleepMs : ℚ) : ClearedForTick s (s.park options clock result untilWakeMs sleepMs) := by
  obtain ⟨reads, sized, _, _, _, _, _, _, _, _, _, heq⟩ :=
    @park_eq SweptRun options clock s result untilWakeMs sleepMs
  rw [heq]
  split
  · exact clearedForTick_afterPark (s := { s with elapsedReads := reads }.mark (.sized sized)) _ _
  · exact Or.inl rfl

/-- What follows a turn keeps the account of wakes. -/
theorem clearedForTick_afterTurn (result : Option (TickResult SweptRun)) (empty : Bool) :
    ClearedForTick s (s.afterTurn options clock result empty) := by
  unfold DriverLoop.afterTurn
  split
  · exact clearedForTick_startTick
  · split
    · exact clearedForTick_park _ _ _
    · have hread : ∀ s', ClearedForTick { s with epochReads := s.epochReads + 1 } s' →
          ClearedForTick s s' := fun _ h => h
      dsimp only
      split
      · split
        · exact hread _ (clearedForTick_park _ _ _)
        · exact hread _ clearedForTick_startTick
      · exact hread _ (clearedForTick_park _ _ _)

/-- What clears a wake does not depend on what else changed since it came. -/
theorem ClearedForTick.of_eq {r s s' : DriverLoop SweptRun} (h : ClearedForTick s s')
    (heq : s.wakeRequested = r.wakeRequested) : ClearedForTick r s' :=
  h.imp_left fun hkept => hkept.trans heq

/-- A tick's answer and the heartbeat after it leave a pending wake. -/
theorem wakeRequested_beatRegistry (outcome : Option (TickResult SweptRun)) :
    (((s.mark (.ticked ⟨outcome, s.elapsedReads, s.epochReads⟩)).countTick outcome).beatRegistry
      options clock).wakeRequested = s.wakeRequested := by
  unfold DriverLoop.beatRegistry DriverLoop.countTick
  cases outcome <;> dsimp only <;> split <;> [rfl; skip; rfl; skip] <;> split <;> rfl

/-- Only what comes directly before a tick, or the end, clears a pending wake. -/
theorem clearedForTick_next {event : Event SweptRun} {s' : DriverLoop SweptRun}
    (hwake : s.wakeRequested = true) (hnext : s.next options clock event = some s') :
    ClearedForTick s s' := by
  cases event with
  | run =>
    simp only [DriverLoop.next] at hnext
    split at hnext
    · cases hnext
    · obtain rfl := Option.some.inj hnext
      exact clearedForTick_startTick (s := { s with everRan := true, running := true }.mark .run)
  | wake =>
    simp only [DriverLoop.next] at hnext
    split at hnext
    · obtain rfl := Option.some.inj hnext
      exact Or.inl hwake.symm
    · cases hnext
  | stop =>
    simp only [DriverLoop.next] at hnext
    split at hnext
    · obtain rfl := Option.some.inj hnext
      exact Or.inl rfl
    · cases hnext
  | ticked outcome =>
    simp only [DriverLoop.next] at hnext
    split at hnext
    · obtain rfl := Option.some.inj hnext
      -- A heartbeat to the registry clears no wake, so what the loop does next may be judged
      -- without it.
      have hkept := @wakeRequested_beatRegistry SweptRun options clock s outcome
      unfold DriverLoop.afterTick
      dsimp only
      split
      · split
        · exact Or.inl hkept
        · exact (clearedForTick_afterTurn _ _).of_eq hkept
      · exact clearedForTick_startTick.of_eq hkept
    · cases hnext
  | yielded =>
    simp only [DriverLoop.next] at hnext
    split at hnext
    · obtain rfl := Option.some.inj hnext
      unfold DriverLoop.afterYield
      split
      · exact clearedForTick_afterTurn _ _
      · exact clearedForTick_startTick
    · cases hnext
  | slept =>
    simp only [DriverLoop.next] at hnext
    split at hnext
    · split at hnext
      · obtain rfl := Option.some.inj hnext
        exact clearedForTick_afterPark (s := { s with sleepInterrupt := none }) _ _
      · cases hnext
    · split at hnext
      · obtain rfl := Option.some.inj hnext
        exact clearedForTick_lookAgain
      · cases hnext
    · cases hnext
  | beatConfirmed | beatRefused | beatSettled =>
    simp only [DriverLoop.next] at hnext
    split at hnext
    · obtain rfl := Option.some.inj hnext
      exact Or.inl rfl
    · cases hnext

/-! ## What the loop was told -/

/-- Whether a mark is of something the loop was told. -/
def Mark.isTold : Mark SweptRun → Bool
  | .run | .wake | .stop | .ticked _ | .beatConfirmed _ => true
  | _ => false

/-- What the loop was told. -/
def history (log : List (Mark SweptRun)) : List (Mark SweptRun) := log.filter Mark.isTold

/-- What an event tells a loop. -/
def Event.marks (s : DriverLoop SweptRun) : Event SweptRun → List (Mark SweptRun)
  | .run => [.run]
  | .wake => [.wake]
  | .stop => [.stop]
  | .ticked outcome => [.ticked ⟨outcome, s.elapsedReads, s.epochReads⟩]
  | .beatConfirmed => (s.beatInFlight.map fun beat => .beatConfirmed beat.sentAtMs).toList
  | .yielded | .slept | .beatRefused | .beatSettled => []

/-- A tick that begins adds nothing to the history. -/
theorem history_startTick : history (s.startTick clock).log = history s.log := by
  unfold DriverLoop.startTick
  split <;> rfl

/-- Looking again adds nothing to the history. -/
theorem history_lookAgain : history (s.lookAgain clock).log = history s.log :=
  history_startTick

/-- What follows a park adds nothing to the history. -/
theorem history_afterPark (startedAtMs sleepMs : ℚ) :
    history (s.afterPark options clock startedAtMs sleepMs).log = history s.log := by
  by_cases hgoes : s.wakeRequested = true ∧ s.running = true
  · by_cases hpos : 0 < remainingAt options s (startedAtMs + sleepMs)
        (clock.elapsedMs s.elapsedReads)
    · rw [afterPark_wait hgoes hpos]
      rfl
    · rw [afterPark_late hgoes hpos]
      exact history_lookAgain
  · rw [afterPark_quiet hgoes]
    exact history_lookAgain

/-- A park adds nothing to the history. -/
theorem history_park (result : Option (TickResult SweptRun)) (untilWakeMs : Option ℚ)
    (sleepMs : ℚ) :
    history (s.park options clock result untilWakeMs sleepMs).log = history s.log := by
  obtain ⟨reads, sized, _, _, _, _, _, _, _, _, _, heq⟩ :=
    @park_eq SweptRun options clock s result untilWakeMs sleepMs
  rw [heq]
  split
  · exact history_afterPark _ _
  · rfl

/-- What follows a turn adds nothing to the history. -/
theorem history_afterTurn (result : Option (TickResult SweptRun)) (empty : Bool) :
    history (s.afterTurn options clock result empty).log = history s.log := by
  unfold DriverLoop.afterTurn
  split
  · exact history_startTick
  · split
    · exact history_park _ _ _
    · dsimp only
      split
      · split
        · exact history_park _ _ _
        · exact history_startTick
      · exact history_park _ _ _

/-- A tick's answer is what the loop was told, and the heartbeat after it is not. -/
theorem history_beatRegistry (outcome : Option (TickResult SweptRun)) :
    history (((s.mark (.ticked ⟨outcome, s.elapsedReads, s.epochReads⟩)).countTick
      outcome).beatRegistry options clock).log =
      .ticked ⟨outcome, s.elapsedReads, s.epochReads⟩ :: history s.log := by
  unfold DriverLoop.beatRegistry DriverLoop.countTick
  cases outcome with
  | none | some =>
    dsimp only
    split
    · rfl
    · split <;> rfl

/-- A step adds what the loop was told, and nothing else that it could have been. -/
theorem history_next {event : Event SweptRun} {s' : DriverLoop SweptRun}
    (hnext : s.next options clock event = some s') :
    history s'.log = event.marks s ++ history s.log := by
  cases event with
  | run =>
    simp only [DriverLoop.next] at hnext
    split at hnext
    · cases hnext
    · obtain rfl := Option.some.inj hnext
      exact history_startTick
  | wake | stop =>
    simp only [DriverLoop.next] at hnext
    split at hnext
    · obtain rfl := Option.some.inj hnext
      rfl
    · cases hnext
  | ticked outcome =>
    simp only [DriverLoop.next] at hnext
    split at hnext
    · obtain rfl := Option.some.inj hnext
      -- The tick's outcome is marked before the loop reacts to it, whatever it does then.
      have htold := @history_beatRegistry SweptRun options clock s outcome
      unfold DriverLoop.afterTick
      dsimp only
      split
      · split
        · exact htold
        · exact (history_afterTurn _ _).trans htold
      · exact history_startTick.trans htold
    · cases hnext
  | yielded =>
    simp only [DriverLoop.next] at hnext
    split at hnext
    · obtain rfl := Option.some.inj hnext
      unfold DriverLoop.afterYield
      split
      · exact history_afterTurn _ _
      · exact history_startTick
    · cases hnext
  | slept =>
    simp only [DriverLoop.next] at hnext
    split at hnext
    · split at hnext
      · obtain rfl := Option.some.inj hnext
        exact history_afterPark _ _
      · cases hnext
    · split at hnext
      · obtain rfl := Option.some.inj hnext
        exact history_lookAgain
      · cases hnext
    · cases hnext
  | beatConfirmed =>
    simp only [DriverLoop.next] at hnext
    split at hnext
    · rename_i hflight
      obtain rfl := Option.some.inj hnext
      simp only [Event.marks, hflight]
      rfl
    · cases hnext
  | beatRefused | beatSettled =>
    simp only [DriverLoop.next] at hnext
    split at hnext
    · obtain rfl := Option.some.inj hnext
      rfl
    · cases hnext

end Code

/-! ## Parks and wakes -/

/-- What was done last before something, and what came after it, was allowed. -/
theorem Logged.allowed {options : LoopOptions} {clock : Clock}
    {later earlier : List (Mark SweptRun)} {m : Mark SweptRun}
    (h : Logged options clock (later ++ m :: earlier)) :
    Allowed options clock earlier m ∧ ClearedLast m earlier := by
  induction later with
  | nil => exact ⟨h.1, h.2.1⟩
  | cons _ later ih => exact ih h.2.2

/-- Between two sleeps or yields there are 32 ticks at most. -/
theorem Logged.chained {options : LoopOptions} {clock : Clock} {log : List (Mark SweptRun)}
    (h : Logged options clock log) : Driver.chained log ≤ 32 := by
  induction log with
  | nil => exact Nat.zero_le _
  | cons m log ih =>
    cases m with
    | tick => exact h.1.chained
    | parked | wait | yieldTurn => exact Nat.zero_le _
    | _ => exact ih h.2.2

/-- A wake that no tick came after is pending. -/
theorem wakePending_append {later earlier : List (Mark SweptRun)}
    (hnone : ∀ startedAtMs, .tick startedAtMs ∉ later) :
    wakePending (later ++ .wake :: earlier) = true := by
  induction later with
  | nil => rfl
  | cons m later ih =>
    have hrest := ih fun startedAtMs hmem => hnone startedAtMs (List.mem_cons_of_mem _ hmem)
    cases m with
    | tick startedAtMs => exact absurd List.mem_cons_self (hnone startedAtMs)
    | wake => rfl
    | _ => exact hrest

/-- How a loop parks and wakes, by what it did and what it awaits. -/
structure ParksAndWakes (options : LoopOptions) (clock : Clock) (s : DriverLoop SweptRun) : Prop where
  /-- What the log has of what the loop was told is what it was told. -/
  told : ∀ event s', s.next options clock event = some s' →
    history s'.log = event.marks s ++ history s.log
  /-- A park begins as it was sized, and with no wake pending. -/
  begins : ∀ later earlier, s.log = later ++ .parked :: earlier →
    wakePending earlier = false ∧ ∃ park rest, earlier = .sized park :: rest
  /-- A pending wake interrupts the park. -/
  interrupted : ∀ startedAtMs sleepMs, s.awaits = .park startedAtMs sleepMs →
    wakePending s.log = true → s.sleepInterrupt = some true
  /-- A wake is pending until a tick starts, or the loop is stopped. -/
  wakes : ∀ later earlier, s.log = later ++ .wake :: earlier →
    (∃ startedAtMs, .tick startedAtMs ∈ later) ∨ s.wakeRequested = true ∨ stopped s.log = true
  cleared : ∀ event s', s.wakeRequested = true → s.next options clock event = some s' →
    ClearedForTick s s'
  /-- A park is planned from what the loop was told, and is within its bounds. -/
  bounded : ∀ later park earlier, s.log = later ++ .sized park :: earlier →
    park.Planned clock earlier ∧ park.Bounded options
  /-- The loop sleeps in the park that was sized last, for as long as it was sized. -/
  sleeps : ∀ startedAtMs sleepMs, s.awaits = .park startedAtMs sleepMs →
    ∃ park, planned s.log = some park ∧ park.startedAtMs = startedAtMs ∧ park.sleepMs = sleepMs
  /-- The wait a wake adds ends no later than the look the park had planned. -/
  waits : ∀ later nowMs remaining earlier, s.log = later ++ .wait nowMs remaining :: earlier →
    ReadSince clock earlier nowMs ∧
      ∃ park, planned earlier = some park ∧ nowMs + remaining ≤ park.lookAtMs
  /-- The loop waits to the floor after the last tick, and no longer than to the look. -/
  rests : ∀ nowMs remaining, s.awaits = .wait nowMs remaining →
    ∃ park last, planned s.log = some park ∧ lastTick s.log = some last ∧
      remaining = min (last + options.wakeFloorMs - nowMs) (park.lookAtMs - nowMs)
  /-- A heartbeat is sent at a reading, and the one that is confirmed is the last that was sent. -/
  beats : ∀ later sentAtMs earlier,
    (s.log = later ++ .beat sentAtMs :: earlier → ReadSince clock earlier sentAtMs) ∧
    (s.log = later ++ .beatConfirmed sentAtMs :: earlier → lastSent earlier = some sentAtMs)
  /-- A tick starts on a loop that was not stopped, and one that a wake brought forward starts no
  sooner than the floor after the tick before it. -/
  ticks : ∀ later startedAtMs earlier, s.log = later ++ .tick startedAtMs :: earlier →
    TickAllowed options clock startedAtMs earlier
  chained : chained s.log ≤ 32

/-- The driver loop parks and wakes as it should, in every state it gets into. -/
theorem parks_and_wakes (options : LoopOptions) (clock : Clock) (s : DriverLoop SweptRun)
    (h : Reachable options clock s) : ParksAndWakes options clock s := by
  have hinv := h.inv
  have hlog := hinv.kept.log
  have hallowed : ∀ later m earlier, s.log = later ++ m :: earlier →
      Allowed options clock earlier m := by
    intro later m earlier heq
    rw [heq] at hlog
    exact hlog.allowed.1
  refine ⟨fun event s' hnext => history_next hnext, fun later earlier => hallowed later _ earlier,
    ?_, ?_, ?_, fun later park earlier => hallowed later _ earlier, ?_,
    fun later nowMs remaining earlier => hallowed later _ earlier, ?_,
    fun later sentAtMs earlier => ⟨hallowed later _ earlier, hallowed later _ earlier⟩,
    fun later startedAtMs earlier => hallowed later _ earlier, hlog.chained⟩
  · intro startedAtMs sleepMs hawaits hpending
    have hat := hinv.awaits
    rw [hawaits] at hat
    obtain ⟨hgoing, _, _, _, _, _, hinterrupt⟩ := hat
    rw [hinterrupt]
    -- A ping since the last tick left its flag or the stop, and either interrupts the park.
    rcases hinv.kept.wake hpending with hrequested | hstopped
    · rw [hrequested, Bool.true_or]
    · rw [hgoing.running, hstopped, Bool.not_true, Bool.not_false, Bool.or_true]
  · intro later earlier heq
    by_cases htick : ∃ startedAtMs, Mark.tick startedAtMs ∈ later
    · exact Or.inl htick
    · refine Or.inr (hinv.kept.wake ?_)
      rw [heq]
      exact wakePending_append (not_exists.mp htick)
  · exact fun event s' hrequested hnext => clearedForTick_next hrequested hnext
  · intro startedAtMs sleepMs hawaits
    have hat := hinv.awaits
    rw [hawaits] at hat
    obtain ⟨_, _, _, _, _, hpark, _⟩ := hat
    exact hpark
  · intro nowMs remaining hawaits
    have hat := hinv.awaits
    rw [hawaits] at hat
    obtain ⟨_, _, _, _, hlast, park, hplanned, hremaining⟩ := hat
    exact ⟨park, s.lastTickStartedAtMs, hplanned, hlast, hremaining⟩

/-- A clock that goes on by a tenth of a second. -/
def tenths : Clock where
  nowEpochMs _ := 0
  elapsedMs n := 100 * n
  never_back := fun _ _ h => mul_le_mul_of_nonneg_left (Nat.cast_le.mpr h) (by norm_num)

def defaults : LoopOptions where
  busyCeilingMs := 250
  idleCeilingMs := 5000
  wakeFloorMs := 250
  idleAfterTicks := 10
  registryIntervalMs := 15000
  busy_pos := by decide
  floor_pos := by decide
  idleAfter_pos := by decide
  registry_pos := by decide
  timer := by decide
  idle_le := by decide

/-- The loop after events, as far as they can come. -/
def DriverLoop.after (options : LoopOptions) (clock : Clock) :
    DriverLoop SweptRun → List (Event SweptRun) → DriverLoop SweptRun
  | s, [] => s
  | s, event :: events => ((s.next options clock event).getD s).after options clock events

/-- What happens to a reachable loop leaves a reachable loop. -/
theorem Reachable.after {options : LoopOptions} {clock : Clock} {s : DriverLoop SweptRun}
    (h : Reachable options clock s) (events : List (Event SweptRun)) :
    Reachable options clock (s.after options clock events) := by
  induction events generalizing s with
  | nil => exact h
  | cons event events ih =>
    refine ih ?_
    cases hnext : s.next options clock event with
    | none => exact h
    | some s' => exact h.step event hnext

/-- A wake during a park brings the next tick forward. -/
theorem parks_and_wakes_ping : ∃ s : DriverLoop Unit, s.lastTickStartedAtMs = 400 ∧
    ParksAndWakes defaults tenths s :=
  ⟨DriverLoop.new.after defaults tenths
      [.run, .ticked (some ⟨[], 1, 1, 0, 0, none, false⟩), .wake, .slept],
    by decide +kernel, parks_and_wakes defaults tenths _ (Reachable.new.after _)⟩

end Durablerun.Driver
